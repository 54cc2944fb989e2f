import OpenHandsSWE.Controller.State
import OpenHandsSWE.Services.ConversationStats

/-! The budget of a conversation: its flag follows the costs of the registered services. -/

namespace OpenHands

namespace State

/-- One step of the control flags, and whether one of them raised. -/
def runControlFlags (s : State) : State × Bool :=
  let (iterationFlag, raised) := s.iterationFlag.step
  if raised then ({ s with iterationFlag }, true)
  else
    match s.budgetFlag with
    | none => ({ s with iterationFlag }, false)
    | some flag => ({ s with iterationFlag, budgetFlag := some flag.step.1 }, flag.step.2)

def syncBudgetFlagWithMetrics (s : State) (stats : ConversationStats) : State :=
  { s with budgetFlag := s.budgetFlag.map fun flag =>
             { flag with currentValue := stats.getCombinedMetrics.accumulatedCost } }

/-- A step is blocked by either flag. -/
theorem runControlFlags_blocked {s : State} {flag : BudgetControlFlag} (h : s.budgetFlag = some flag) :
    s.runControlFlags.2 = (s.iterationFlag.reachedLimit || flag.reachedLimit) := by
  unfold runControlFlags IterationControlFlag.step
  rw [h]
  split_ifs with hlimit
  · rw [hlimit]
    rfl
  · rw [Bool.eq_false_of_not_eq_true hlimit]
    rfl

end State

namespace ConversationStats

/-! ## The combined metrics -/

theorem foldl_merge_cost (objects : Nat → ServiceMetrics) (services : List (String × Nat))
    (m : ServiceMetrics) :
    (services.foldl (fun total kv => total.merge (objects kv.2)) m).accumulatedCost =
      m.accumulatedCost + (Assoc.sum (fun object => (objects object).totals) services).1 := by
  induction services generalizing m with
  | nil => exact (add_zero _).symm
  | cons kv services ih =>
    rw [List.foldl_cons, ih, Assoc.sum_cons]
    show m.accumulatedCost + (objects kv.2).accumulatedCost + _ = m.accumulatedCost + (_ + _)
    exact add_assoc _ _ _

theorem getCombinedMetrics_cost (s : ConversationStats) :
    s.getCombinedMetrics.accumulatedCost = s.registeredTotals.1 := by
  unfold getCombinedMetrics
  rw [foldl_merge_cost]
  exact zero_add _

/-! ## Costs are not negative -/

structure Nonnegative (s : ConversationStats) : Prop where
  objects : ∀ object, 0 ≤ (s.objects object).accumulatedCost
  restored : ∀ kv ∈ s.restoredMetrics, 0 ≤ kv.2.accumulatedCost
  file : ∀ saved, s.file = some saved → ∀ kv ∈ saved, 0 ≤ kv.2.accumulatedCost

variable {s : ConversationStats}

theorem nonnegative_update {objects : Nat → ServiceMetrics} {m : ServiceMetrics} {object : Nat}
    (h : ∀ object, 0 ≤ (objects object).accumulatedCost) (hm : 0 ≤ m.accumulatedCost) (other : Nat) :
    0 ≤ (Function.update objects object m other).accumulatedCost := by
  by_cases heq : other = object
  · rw [heq, Function.update_self]
    exact hm
  · rw [Function.update_of_ne heq]
    exact h other

theorem Nonnegative.record (h : Nonnegative s) {serviceId : String}
    {change : ServiceMetrics → Except PyError ServiceMetrics} {amount : Totals}
    (hchange : ∀ m m', change m = .ok m' → 0 ≤ m.accumulatedCost → 0 ≤ m'.accumulatedCost) :
    Nonnegative (s.record serviceId change amount) := by
  unfold ConversationStats.record
  split
  · exact h
  · next object hget =>
    split
    · exact h
    · next m hm =>
      exact ⟨nonnegative_update h.objects (hchange _ _ hm (h.objects object)), h.restored, h.file⟩

theorem Nonnegative.registerLLM (h : Nonnegative s) (llm : Nat) (serviceId : String) :
    Nonnegative (s.registerLLM llm serviceId) := by
  unfold ConversationStats.registerLLM
  split
  · exact h
  · split
    · next restored hget =>
      have hrestored := h.restored _ (Assoc.mem_of_get? hget)
      exact ⟨nonnegative_update h.objects hrestored,
        fun kv hkv => h.restored kv (Assoc.mem_erase hkv), h.file⟩
    · exact ⟨h.objects, h.restored, h.file⟩

/-- Every pair of an updated map comes from one of the two. -/
theorem mem_update {β : Type} {kvs others : List (String × β)} {kv : String × β}
    (h : kv ∈ Assoc.update kvs others) : kv ∈ kvs ∨ kv ∈ others := by
  induction others generalizing kvs with
  | nil => exact .inl h
  | cons other others ih =>
    rcases ih h with hset | hin
    · rcases Assoc.mem_set hset with rfl | hold
      · exact .inr List.mem_cons_self
      · exact .inl hold
    · exact .inr (List.mem_cons_of_mem _ hin)

theorem Nonnegative.saveMetrics (h : Nonnegative s) : Nonnegative s.saveMetrics := by
  refine ⟨h.objects, h.restored, fun saved hsaved kv hkv => ?_⟩
  cases hsaved
  rcases mem_update hkv with hrestored | hservice
  · exact h.restored kv hrestored
  · obtain ⟨pair, -, rfl⟩ := List.mem_map.mp hservice
    exact h.objects pair.2

theorem Nonnegative.restart (h : Nonnegative s) : Nonnegative s.restart := by
  refine ⟨h.objects, fun kv hkv => ?_, h.file⟩
  have hkv : kv ∈ s.file.getD [] := hkv
  cases hfile : s.file with
  | none =>
    rw [hfile] at hkv
    cases hkv
  | some saved =>
    rw [hfile] at hkv
    exact h.file saved hfile kv hkv

theorem Nonnegative.step (h : Nonnegative s) (op : StatsOp) : Nonnegative (s.step op) := by
  cases op with
  | createLLM modelName => exact ⟨nonnegative_update h.objects le_rfl, h.restored, h.file⟩
  | registerLLM llm serviceId => exact h.registerLLM llm serviceId
  | addCost serviceId value =>
    show Nonnegative (s.record serviceId (fun m => m.addCost value) _)
    apply h.record
    intro m m' hm hnonneg
    unfold ServiceMetrics.addCost at hm
    split_ifs at hm with hvalue
    cases hm
    exact add_nonneg hnonneg (not_lt.mp hvalue)
  | addTokenUsage serviceId prompt completion cacheRead cacheWrite window responseId =>
    show Nonnegative (s.record serviceId
      (fun m => .ok (m.addTokenUsage prompt completion cacheRead cacheWrite window responseId)) _)
    apply h.record
    intro m m' hm hnonneg
    cases hm
    exact hnonneg
  | saveMetrics => exact h.saveMetrics
  | restart => exact h.restart

theorem nonnegative_run (h : Nonnegative s) (ops : List StatsOp) : Nonnegative (s.run ops) := by
  induction ops generalizing s with
  | nil => exact h
  | cons op ops ih => exact ih (h.step op)

theorem nonnegative_empty : Nonnegative {} :=
  ⟨fun _ => le_rfl, List.forall_mem_nil _, fun _ hsaved => absurd hsaved.symm (Option.some_ne_none _)⟩

theorem sum_cost_eq_zero_iff {kvs : List (String × ServiceMetrics)}
    (h : ∀ kv ∈ kvs, 0 ≤ kv.2.accumulatedCost) :
    (Assoc.sum ServiceMetrics.totals kvs).1 = 0 ↔ ∀ kv ∈ kvs, kv.2.accumulatedCost = 0 := by
  have key : 0 ≤ (Assoc.sum ServiceMetrics.totals kvs).1 ∧
      ((Assoc.sum ServiceMetrics.totals kvs).1 = 0 ↔ ∀ kv ∈ kvs, kv.2.accumulatedCost = 0) := by
    induction kvs with
    | nil => exact ⟨le_rfl, iff_of_true rfl (List.forall_mem_nil _)⟩
    | cons kv kvs ih =>
      obtain ⟨hkv, hrest⟩ := List.forall_mem_cons.mp h
      obtain ⟨hnonneg, hiff⟩ := ih hrest
      rw [Assoc.sum_cons, List.forall_mem_cons, ← hiff]
      show 0 ≤ kv.2.accumulatedCost + _ ∧ (kv.2.accumulatedCost + _ = 0 ↔ _)
      exact ⟨add_nonneg hkv hnonneg, add_eq_zero_iff_of_nonneg hkv hnonneg⟩
  exact key.2

end ConversationStats

/-! ## The budget flag -/

/-- The flag has the total cost recorded, and a step is blocked when that reaches the budget. -/
def BudgetCovers (s : State) (recorded : Rat) : Prop :=
  ∃ flag, s.budgetFlag = some flag ∧ flag.currentValue = recorded ∧
    (s.runControlFlags.2 = true ↔ flag.maxValue ≤ recorded)

def spentState : State := { budgetFlag := some ⟨1, 0, 1, false⟩ }

end OpenHands
