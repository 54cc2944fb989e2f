import OpenHandsSWE.Events.Metrics
import OpenHandsSWE.Lib.AssocSum

/-! The metrics of a conversation's LLM services: registered with their LLMs, saved, restored. -/

namespace OpenHands

/-- The metrics of one service, with exact costs. -/
structure ServiceMetrics where
  modelName : String := "default"
  accumulatedCost : Rat := 0
  maxBudgetPerTask : Option Rat := none
  costs : List (String × Rat) := []
  responseLatencies : List ResponseLatency := []
  tokenUsages : List TokenUsage := []
  accumulatedTokenUsage : TokenUsage := { model := "default" }

/-- The cost, and the prompt, completion, cache read and cache write tokens. -/
abbrev Totals := ℚ × ℤ × ℤ × ℤ × ℤ

def TokenUsage.totals (u : TokenUsage) : Totals :=
  (0, u.promptTokens, u.completionTokens, u.cacheReadTokens, u.cacheWriteTokens)

namespace ServiceMetrics

def ofModel (modelName : String) : ServiceMetrics where
  modelName := modelName
  accumulatedTokenUsage := { model := modelName }

def addCost (m : ServiceMetrics) (value : Rat) : Except PyError ServiceMetrics :=
  if value < 0 then .error (.valueError "Added cost cannot be negative.")
  else
    .ok { m with accumulatedCost := m.accumulatedCost + value
                 costs := m.costs ++ [(m.modelName, value)] }

/-- A record of the call is kept, and added to the accumulated usage without its response. -/
def addTokenUsage (m : ServiceMetrics) (promptTokens completionTokens cacheReadTokens
    cacheWriteTokens contextWindow : Int) (responseId : String) : ServiceMetrics :=
  let usage : TokenUsage :=
    { model := m.modelName, promptTokens, completionTokens, cacheReadTokens, cacheWriteTokens
      contextWindow, perTurnToken := promptTokens + completionTokens, responseId }
  { m with tokenUsages := m.tokenUsages ++ [usage]
           accumulatedTokenUsage := m.accumulatedTokenUsage.add { usage with responseId := "" } }

def merge (m other : ServiceMetrics) : ServiceMetrics where
  modelName := m.modelName
  accumulatedCost := m.accumulatedCost + other.accumulatedCost
  maxBudgetPerTask := m.maxBudgetPerTask.or other.maxBudgetPerTask
  costs := m.costs ++ other.costs
  responseLatencies := m.responseLatencies ++ other.responseLatencies
  tokenUsages := m.tokenUsages ++ other.tokenUsages
  accumulatedTokenUsage := m.accumulatedTokenUsage.add other.accumulatedTokenUsage

def totals (m : ServiceMetrics) : Totals :=
  (m.accumulatedCost, m.accumulatedTokenUsage.promptTokens,
    m.accumulatedTokenUsage.completionTokens, m.accumulatedTokenUsage.cacheReadTokens,
    m.accumulatedTokenUsage.cacheWriteTokens)

theorem totals_addCost {m m' : ServiceMetrics} {value : Rat} (h : m.addCost value = .ok m') :
    m'.totals = m.totals + (value, 0) := by
  unfold addCost at h
  split_ifs at h
  cases h
  simp [totals]

theorem totals_addTokenUsage (m : ServiceMetrics) (prompt completion cacheRead cacheWrite window : Int)
    (responseId : String) :
    (m.addTokenUsage prompt completion cacheRead cacheWrite window responseId).totals =
      m.totals + (0, prompt, completion, cacheRead, cacheWrite) := by
  simp [totals, addTokenUsage, TokenUsage.add]

end ServiceMetrics

/-! ## Conversation stats -/

/-- The stats of a conversation over their file, and the LLMs around: each points to an object
that holds its metrics, and so do the registered services. Beside them stands the total of what
was recorded since the conversation began. -/
structure ConversationStats where
  objects : Nat → ServiceMetrics := fun _ => {}
  nextObject : Nat := 0
  llms : List Nat := []
  serviceToMetrics : List (String × Nat) := []
  restoredMetrics : List (String × ServiceMetrics) := []
  file : Option (List (String × ServiceMetrics)) := none
  recorded : Totals := 0

inductive StatsOp where
  | createLLM (modelName : String)
  | registerLLM (llm : Nat) (serviceId : String)
  | addCost (serviceId : String) (value : Rat)
  | addTokenUsage (serviceId : String) (promptTokens completionTokens cacheReadTokens
      cacheWriteTokens contextWindow : Int) (responseId : String)
  | saveMetrics
  | restart

namespace ConversationStats

def createLLM (s : ConversationStats) (modelName : String) : ConversationStats :=
  { s with objects := Function.update s.objects s.nextObject (.ofModel modelName)
           nextObject := s.nextObject + 1
           llms := s.llms ++ [s.nextObject] }

def registerLLM (s : ConversationStats) (llm : Nat) (serviceId : String) : ConversationStats :=
  match s.llms[llm]? with
  | none => s
  | some object =>
    match Assoc.get? serviceId s.restoredMetrics with
    | some restored =>
      -- the LLM gets a copy of the restored metrics in the place of its own
      { s with objects := Function.update s.objects s.nextObject restored
               nextObject := s.nextObject + 1
               llms := s.llms.set llm s.nextObject
               restoredMetrics := Assoc.erase serviceId s.restoredMetrics
               serviceToMetrics := Assoc.set serviceId s.nextObject s.serviceToMetrics }
    | none => { s with serviceToMetrics := Assoc.set serviceId object s.serviceToMetrics }

/-- Recording on the metrics registered for a service. -/
def record (s : ConversationStats) (serviceId : String)
    (change : ServiceMetrics → Except PyError ServiceMetrics) (amount : Totals) : ConversationStats :=
  match Assoc.get? serviceId s.serviceToMetrics with
  | none => s
  | some object =>
    match change (s.objects object) with
    | .error _ => s
    | .ok m => { s with objects := Function.update s.objects object m
                        recorded := s.recorded + amount }

/-- What is saved: the restored metrics, updated with those of the registered services. -/
def combinedMetrics (s : ConversationStats) : List (String × ServiceMetrics) :=
  Assoc.update s.restoredMetrics (s.serviceToMetrics.map fun kv => (kv.1, s.objects kv.2))

def saveMetrics (s : ConversationStats) : ConversationStats := { s with file := some s.combinedMetrics }

/-- New stats over the same file. -/
def restart (s : ConversationStats) : ConversationStats :=
  { s with serviceToMetrics := [], restoredMetrics := s.file.getD [] }

def getCombinedMetrics (s : ConversationStats) : ServiceMetrics :=
  s.serviceToMetrics.foldl (fun total kv => total.merge (s.objects kv.2)) {}

def step (s : ConversationStats) : StatsOp → ConversationStats
  | .createLLM modelName => s.createLLM modelName
  | .registerLLM llm serviceId => s.registerLLM llm serviceId
  | .addCost serviceId value => s.record serviceId (fun m => m.addCost value) (value, 0)
  | .addTokenUsage serviceId prompt completion cacheRead cacheWrite window responseId =>
    s.record serviceId
      (fun m => .ok (m.addTokenUsage prompt completion cacheRead cacheWrite window responseId))
      (0, prompt, completion, cacheRead, cacheWrite)
  | .saveMetrics => s.saveMetrics
  | .restart => s.restart

def run (s : ConversationStats) (ops : List StatsOp) : ConversationStats := ops.foldl step s

/-- What the registered services have. -/
def registeredTotals (s : ConversationStats) : Totals :=
  Assoc.sum (fun object => (s.objects object).totals) s.serviceToMetrics

/-- What waits for its service to be registered again. -/
def restoredTotals (s : ConversationStats) : Totals :=
  Assoc.sum ServiceMetrics.totals s.restoredMetrics

def savedTotals (s : ConversationStats) : Totals := Assoc.sum ServiceMetrics.totals (s.file.getD [])

/-- A registration of an id that waits is always right. Otherwise the id has this LLM's metrics
already, or these are no other service's, nothing is recorded on them, and nothing on those the id
had. A restart finds everything saved. -/
def StepOk (s : ConversationStats) : StatsOp → Prop
  | .registerLLM llm serviceId =>
    ∀ object, s.llms[llm]? = some object → Assoc.get? serviceId s.restoredMetrics = none →
      Assoc.get? serviceId s.serviceToMetrics = some object ∨
        (object ∉ s.serviceToMetrics.map Prod.snd ∧ (s.objects object).totals = 0 ∧
          Assoc.amount (fun object => (s.objects object).totals) serviceId s.serviceToMetrics = 0)
  | .restart => s.savedTotals = s.registeredTotals + s.restoredTotals
  | _ => True

def StepsOk (s : ConversationStats) : List StatsOp → Prop
  | [] => True
  | op :: ops => s.StepOk op ∧ StepsOk (s.step op) ops

/-! ## What each step keeps -/

/-- The maps have their keys once and no key in common, every service has an object of its own, and
what is registered and what is restored add up to what was recorded. -/
structure Accounted (s : ConversationStats) : Prop where
  services : (s.serviceToMetrics.map Prod.fst).Nodup
  objects : (s.serviceToMetrics.map Prod.snd).Nodup
  restored : (s.restoredMetrics.map Prod.fst).Nodup
  disjoint : (s.restoredMetrics.map Prod.fst).Disjoint (s.serviceToMetrics.map Prod.fst)
  known : ∀ object ∈ s.serviceToMetrics.map Prod.snd, object < s.nextObject
  llms : ∀ object ∈ s.llms, object < s.nextObject
  file : ∀ saved, s.file = some saved → (saved.map Prod.fst).Nodup
  total : s.registeredTotals + s.restoredTotals = s.recorded

variable {s : ConversationStats}

theorem accounted_empty : Accounted {} where
  services := List.nodup_nil
  objects := List.nodup_nil
  restored := List.nodup_nil
  disjoint := List.disjoint_nil_left _
  known := nofun
  llms := nofun
  file := nofun
  total := add_zero (0 : Totals)

/-- A new object changes nothing that is registered. -/
theorem Accounted.registered_update (h : Accounted s) (m : ServiceMetrics) :
    Assoc.sum (fun object => (Function.update s.objects s.nextObject m object).totals) s.serviceToMetrics =
      s.registeredTotals := by
  apply Assoc.sum_congr
  intro kv hkv
  have hlt := h.known kv.2 (List.mem_map_of_mem hkv)
  rw [Function.update_of_ne (Nat.ne_of_lt hlt)]

theorem Accounted.createLLM (h : Accounted s) (modelName : String) : Accounted (s.createLLM modelName) := by
  refine ⟨h.services, h.objects, h.restored, h.disjoint, fun object hobject => ?_, fun object hobject => ?_,
    h.file, ?_⟩
  · exact (h.known object hobject).trans (Nat.lt_succ_self _)
  · rcases List.mem_append.mp hobject with hold | hnew
    · exact (h.llms object hold).trans (Nat.lt_succ_self _)
    · rw [List.mem_singleton.mp hnew]
      exact Nat.lt_succ_self _
  · have hsame := h.registered_update (.ofModel modelName)
    show Assoc.sum (fun object => (Function.update s.objects s.nextObject _ object).totals)
      s.serviceToMetrics + s.restoredTotals = s.recorded
    rw [hsame]
    exact h.total

/-- The objects of the map when a key gets one that no key has. -/
theorem nodup_objects_set {services : List (String × Nat)} {serviceId : String} {object : Nat}
    (h : (services.map Prod.snd).Nodup) (hnew : object ∉ services.map Prod.snd) :
    ((Assoc.set serviceId object services).map Prod.snd).Nodup := by
  induction services with
  | nil => exact List.nodup_singleton _
  | cons kv services ih =>
    obtain ⟨id, old⟩ := kv
    obtain ⟨hold, hrest⟩ := List.nodup_cons.mp h
    have hne : object ≠ old := fun heq => hnew (heq ▸ List.mem_cons_self)
    have hnot : object ∉ services.map Prod.snd := fun hmem => hnew (List.mem_cons_of_mem _ hmem)
    unfold Assoc.set
    split_ifs
    · exact List.nodup_cons.mpr ⟨hnot, hrest⟩
    · refine List.nodup_cons.mpr ⟨fun hmem => ?_, ih hrest hnot⟩
      obtain ⟨pair, hpair, heq⟩ := List.mem_map.mp hmem
      rcases Assoc.mem_set hpair with rfl | hin
      · exact hne heq
      · exact hold (heq ▸ List.mem_map_of_mem hin)

theorem mem_objects_set {services : List (String × Nat)} {serviceId : String} {object other : Nat}
    (h : other ∈ (Assoc.set serviceId object services).map Prod.snd) :
    other = object ∨ other ∈ services.map Prod.snd := by
  obtain ⟨pair, hpair, rfl⟩ := List.mem_map.mp h
  rcases Assoc.mem_set hpair with rfl | hin
  · exact .inl rfl
  · exact .inr (List.mem_map_of_mem hin)

/-- An id that waits takes its metrics along. -/
theorem Accounted.registerRestored (h : Accounted s) {llm object : Nat} {serviceId : String}
    {restored : ServiceMetrics} (hllm : s.llms[llm]? = some object)
    (hget : Assoc.get? serviceId s.restoredMetrics = some restored) :
    Accounted (s.registerLLM llm serviceId) := by
  have hwaits : serviceId ∈ s.restoredMetrics.map Prod.fst :=
    List.mem_map_of_mem (Assoc.mem_of_get? hget)
  have hnew : serviceId ∉ s.serviceToMetrics.map Prod.fst := fun hmem => h.disjoint hwaits hmem
  have hfresh : s.nextObject ∉ s.serviceToMetrics.map Prod.snd := fun hmem =>
    Nat.lt_irrefl _ (h.known _ hmem)
  unfold ConversationStats.registerLLM
  rw [hllm, hget]
  dsimp only
  refine ⟨Assoc.nodup_set _ h.services, nodup_objects_set h.objects hfresh, Assoc.nodup_erase h.restored,
    ?_, ?_, ?_, h.file, ?_⟩
  · intro id hid hset
    rcases (Assoc.mem_keys_set _ _ _ _).mp hset with rfl | hin
    · exact Assoc.notMem_keys_erase _ _ hid
    · exact h.disjoint ((List.filter_sublist.map _).subset hid) hin
  · intro other hother
    rcases mem_objects_set hother with rfl | hin
    · exact Nat.lt_succ_self _
    · exact (h.known other hin).trans (Nat.lt_succ_self _)
  · intro other hother
    rcases List.mem_or_eq_of_mem_set hother with hold | rfl
    · exact (h.llms other hold).trans (Nat.lt_succ_self _)
    · exact Nat.lt_succ_self _
  · show Assoc.sum _ (Assoc.set serviceId s.nextObject s.serviceToMetrics) +
      Assoc.sum _ (Assoc.erase serviceId s.restoredMetrics) = s.recorded
    rw [Assoc.set_of_notMem _ hnew, Assoc.sum_append, h.registered_update]
    have herase := Assoc.sum_erase (f := ServiceMetrics.totals) (k := serviceId) h.restored
    have hamount : Assoc.amount ServiceMetrics.totals serviceId s.restoredMetrics = restored.totals := by
      rw [Assoc.amount, hget]
      rfl
    have hself : Assoc.sum (fun object =>
        (Function.update s.objects s.nextObject restored object).totals) [(serviceId, s.nextObject)] =
        restored.totals := by
      simp [Assoc.sum]
    rw [hamount] at herase
    rw [hself, ← h.total, restoredTotals, ← herase]
    abel

theorem Accounted.registerNew (h : Accounted s) {llm object : Nat} {serviceId : String}
    (hllm : s.llms[llm]? = some object) (hget : Assoc.get? serviceId s.restoredMetrics = none)
    (hok : s.StepOk (.registerLLM llm serviceId)) : Accounted (s.registerLLM llm serviceId) := by
  have hnot : serviceId ∉ s.restoredMetrics.map Prod.fst := Assoc.get?_eq_none_iff.mp hget
  unfold ConversationStats.registerLLM
  rw [hllm, hget]
  dsimp only
  rcases hok object hllm hget with hsame | ⟨hother, hblank, hold⟩
  · rw [Assoc.set_of_get? hsame]
    exact h
  · refine ⟨Assoc.nodup_set _ h.services, nodup_objects_set h.objects hother, h.restored, ?_, ?_, h.llms,
      h.file, ?_⟩
    · intro id hid hset
      rcases (Assoc.mem_keys_set _ _ _ _).mp hset with rfl | hin
      · exact hnot hid
      · exact h.disjoint hid hin
    · intro other hmem
      rcases mem_objects_set hmem with rfl | hin
      · exact h.llms other (List.mem_of_getElem? hllm)
      · exact h.known other hin
    · show Assoc.sum _ (Assoc.set serviceId object s.serviceToMetrics) + s.restoredTotals = s.recorded
      have hset := Assoc.sum_set (fun object => (s.objects object).totals) serviceId object
        s.serviceToMetrics
      rw [hold, hblank, add_zero, add_zero] at hset
      rw [hset]
      exact h.total

/-- What is recorded on the metrics of a service is added to the total. -/
theorem Accounted.record (h : Accounted s) {serviceId : String}
    {change : ServiceMetrics → Except PyError ServiceMetrics} {amount : Totals}
    (hchange : ∀ m m', change m = .ok m' → m'.totals = m.totals + amount) :
    Accounted (s.record serviceId change amount) := by
  unfold ConversationStats.record
  split
  · exact h
  · next object hget =>
    split
    · exact h
    · next m hm =>
      refine ⟨h.services, h.objects, h.restored, h.disjoint, h.known, h.llms, h.file, ?_⟩
      show Assoc.sum (fun other => (Function.update s.objects object m other).totals) s.serviceToMetrics +
        s.restoredTotals = s.recorded + amount
      have hmem : object ∈ s.serviceToMetrics.map Prod.snd := List.mem_map_of_mem (Assoc.mem_of_get? hget)
      have hshare : Assoc.sum (fun other => (Function.update s.objects object m other).totals)
          s.serviceToMetrics + (s.objects object).totals = s.registeredTotals + m.totals := by
        have hsum := Assoc.sum_change (f := fun other => (s.objects other).totals)
          (g := fun other => (Function.update s.objects object m other).totals) h.objects hmem
          fun other hne => by rw [Function.update_of_ne hne]
        rw [Function.update_self] at hsum
        exact hsum
      rw [hchange _ _ hm, add_comm (s.objects object).totals, ← add_assoc] at hshare
      rw [add_right_cancel hshare, ← h.total]
      abel

/-- Maps without a common id are saved one behind the other. -/
theorem combinedMetrics_eq (hservices : (s.serviceToMetrics.map Prod.fst).Nodup)
    (hdisjoint : (s.restoredMetrics.map Prod.fst).Disjoint (s.serviceToMetrics.map Prod.fst)) :
    s.combinedMetrics =
      s.restoredMetrics ++ s.serviceToMetrics.map fun kv => (kv.1, s.objects kv.2) := by
  have hkeys : (s.serviceToMetrics.map fun kv => (kv.1, s.objects kv.2)).map Prod.fst =
      s.serviceToMetrics.map Prod.fst := by
    rw [List.map_map]
    rfl
  apply Assoc.update_disjoint
  · rw [hkeys]
    exact hservices
  · rw [hkeys]
    exact hdisjoint

theorem savedTotals_saveMetrics (hservices : (s.serviceToMetrics.map Prod.fst).Nodup)
    (hdisjoint : (s.restoredMetrics.map Prod.fst).Disjoint (s.serviceToMetrics.map Prod.fst)) :
    s.saveMetrics.savedTotals = s.registeredTotals + s.restoredTotals := by
  have hregistered : Assoc.sum ServiceMetrics.totals
      (s.serviceToMetrics.map fun kv => (kv.1, s.objects kv.2)) = s.registeredTotals := by
    unfold registeredTotals Assoc.sum
    rw [List.map_map]
    rfl
  show Assoc.sum ServiceMetrics.totals s.combinedMetrics = _
  rw [combinedMetrics_eq hservices hdisjoint, Assoc.sum_append, hregistered]
  exact add_comm _ _

theorem Accounted.combined_keys (h : Accounted s) : (s.combinedMetrics.map Prod.fst).Nodup := by
  rw [combinedMetrics_eq h.services h.disjoint, List.map_append, List.map_map, List.nodup_append]
  exact ⟨h.restored, h.services, fun id hid id' hid' heq => h.disjoint hid (heq ▸ hid')⟩

theorem Accounted.saveMetrics (h : Accounted s) : Accounted s.saveMetrics where
  services := h.services
  objects := h.objects
  restored := h.restored
  disjoint := h.disjoint
  known := h.known
  llms := h.llms
  file saved hsaved := by
    cases hsaved
    exact h.combined_keys
  total := h.total

theorem Accounted.restart (h : Accounted s) (hok : s.StepOk .restart) : Accounted s.restart where
  services := List.nodup_nil
  objects := List.nodup_nil
  restored := by
    show ((s.file.getD []).map Prod.fst).Nodup
    cases hfile : s.file with
    | none => exact List.nodup_nil
    | some saved => exact h.file saved hfile
  disjoint := List.disjoint_nil_right _
  known := nofun
  llms := h.llms
  file := h.file
  total := by
    show (0 : Totals) + s.savedTotals = s.recorded
    rw [zero_add, ← h.total]
    exact hok

theorem Accounted.step (h : Accounted s) {op : StatsOp} (hok : s.StepOk op) : Accounted (s.step op) := by
  cases op with
  | createLLM modelName => exact h.createLLM modelName
  | registerLLM llm serviceId =>
    show Accounted (s.registerLLM llm serviceId)
    cases hllm : s.llms[llm]? with
    | none =>
      unfold ConversationStats.registerLLM
      rw [hllm]
      exact h
    | some object =>
      cases hget : Assoc.get? serviceId s.restoredMetrics with
      | none => exact h.registerNew hllm hget hok
      | some restored => exact h.registerRestored hllm hget
  | addCost serviceId value => exact h.record fun m m' hm => ServiceMetrics.totals_addCost hm
  | addTokenUsage serviceId prompt completion cacheRead cacheWrite window responseId =>
    show Accounted (s.record serviceId
      (fun m => .ok (m.addTokenUsage prompt completion cacheRead cacheWrite window responseId)) _)
    apply h.record
    intro m m' hm
    cases hm
    exact ServiceMetrics.totals_addTokenUsage m prompt completion cacheRead cacheWrite window responseId
  | saveMetrics => exact h.saveMetrics
  | restart => exact h.restart hok

theorem accounted_run (h : Accounted s) {ops : List StatsOp} (hok : s.StepsOk ops) :
    Accounted (s.run ops) := by
  induction ops generalizing s with
  | nil => exact h
  | cons op ops ih => exact ih (h.step hok.1) hok.2

/-! ## What a save keeps -/

/-- What a step may not change: the metrics registered for an id in the place of others have as
much on them as those, and what a restart finds saved is all there is. -/
def Keeps (s : ConversationStats) : StatsOp → Prop
  | .registerLLM llm serviceId =>
    ∀ object, s.llms[llm]? = some object → Assoc.get? serviceId s.restoredMetrics = none →
      (s.objects object).totals =
        Assoc.amount (fun object => (s.objects object).totals) serviceId s.serviceToMetrics
  | .restart => s.savedTotals = s.registeredTotals + s.restoredTotals
  | _ => True

theorem Accounted.saved (h : Accounted s) : s.saveMetrics.savedTotals = s.recorded :=
  (savedTotals_saveMetrics h.services h.disjoint).trans h.total

/-- From an accounted state, a step and a save keep everything recorded exactly when the step keeps
what is there. -/
theorem Accounted.saved_step_iff (h : Accounted s) (op : StatsOp) :
    (s.step op).saveMetrics.savedTotals = (s.step op).recorded ↔ s.Keeps op := by
  cases op with
  | createLLM modelName => exact iff_of_true (h.createLLM modelName).saved trivial
  | registerLLM llm serviceId =>
    show (s.registerLLM llm serviceId).saveMetrics.savedTotals = (s.registerLLM llm serviceId).recorded ↔ _
    cases hllm : s.llms[llm]? with
    | none =>
      have hsame : s.registerLLM llm serviceId = s := by
        unfold ConversationStats.registerLLM
        rw [hllm]
      rw [hsame]
      refine iff_of_true h.saved fun object hobject => ?_
      rw [hllm] at hobject
      cases hobject
    | some object =>
      cases hget : Assoc.get? serviceId s.restoredMetrics with
      | some restored =>
        refine iff_of_true (h.registerRestored hllm hget).saved fun object' _ hnone => ?_
        rw [hget] at hnone
        cases hnone
      | none =>
        have hset := Assoc.sum_set (fun object => (s.objects object).totals) serviceId object
          s.serviceToMetrics
        have hregister : s.registerLLM llm serviceId =
            { s with serviceToMetrics := Assoc.set serviceId object s.serviceToMetrics } := by
          unfold ConversationStats.registerLLM
          rw [hllm, hget]
        have hdisjoint : (s.restoredMetrics.map Prod.fst).Disjoint
            ((Assoc.set serviceId object s.serviceToMetrics).map Prod.fst) := by
          intro id hid hmem
          rcases (Assoc.mem_keys_set _ _ _ _).mp hmem with rfl | hin
          · exact Assoc.get?_eq_none_iff.mp hget hid
          · exact h.disjoint hid hin
        rw [hregister]
        rw [savedTotals_saveMetrics (Assoc.nodup_set _ h.services) hdisjoint]
        show Assoc.sum _ (Assoc.set serviceId object s.serviceToMetrics) + s.restoredTotals =
          s.recorded ↔ _
        rw [← h.total, add_left_inj]
        constructor
        · intro heq object' hobject' _
          rw [hllm] at hobject'
          cases hobject'
          rw [heq] at hset
          exact (add_left_cancel hset).symm
        · intro hkeeps
          rw [hkeeps object hllm hget] at hset
          exact add_right_cancel hset
  | addCost serviceId value =>
    have hnext : Accounted (s.step (.addCost serviceId value)) := h.step trivial
    exact iff_of_true hnext.saved trivial
  | addTokenUsage serviceId prompt completion cacheRead cacheWrite window responseId =>
    have hnext : Accounted (s.step
        (.addTokenUsage serviceId prompt completion cacheRead cacheWrite window responseId)) :=
      h.step trivial
    exact iff_of_true hnext.saved trivial
  | saveMetrics => exact iff_of_true h.saveMetrics.saved trivial
  | restart =>
    show s.restart.saveMetrics.savedTotals = s.recorded ↔ _
    have hsaved : s.restart.saveMetrics.savedTotals = s.restart.registeredTotals + s.restart.restoredTotals :=
      savedTotals_saveMetrics List.nodup_nil (List.disjoint_nil_right _)
    rw [hsaved, ← h.total]
    show (0 : Totals) + s.savedTotals = _ ↔ _
    rw [zero_add]
    exact Iff.rfl

def savedAgent : List StatsOp :=
  [.createLLM "model", .registerLLM 0 "agent", .addCost "agent" 1, .saveMetrics, .restart]

theorem savedAgent_ok : StepsOk {} savedAgent := by
  refine ⟨trivial, ?_, trivial, trivial, ?_, trivial⟩
  · intro object hobject _
    obtain rfl : 0 = object := Option.some.inj hobject
    exact .inr ⟨List.not_mem_nil, rfl, rfl⟩
  · show savedTotals _ = registeredTotals _ + restoredTotals _
    decide +kernel

def replacedAgent : List StatsOp :=
  [.createLLM "model", .registerLLM 0 "agent", .addCost "agent" 1,
    .createLLM "model", .registerLLM 1 "agent", .saveMetrics]

def unsavedAgent : List StatsOp :=
  [.createLLM "model", .registerLLM 0 "agent", .addCost "agent" 1, .restart, .saveMetrics]

end ConversationStats

end OpenHands
