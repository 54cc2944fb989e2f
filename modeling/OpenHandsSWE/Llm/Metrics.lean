import OpenHandsSWE.Events.Metrics
import Mathlib.Algebra.BigOperators.Group.List.Basic
import Mathlib.Algebra.Order.Field.Rat

/-! The metrics of an LLM as its calls are counted, merged and compared with an earlier state; costs
and times are exact numbers. -/

namespace OpenHands

namespace Llm

structure Cost where
  model : String
  cost : ℚ
  timestamp : ℚ
deriving DecidableEq

structure ResponseLatency where
  model : String
  latency : ℚ
  responseId : String
deriving DecidableEq

structure Metrics where
  modelName : String
  accumulatedCost : ℚ := 0
  maxBudgetPerTask : Option ℚ := none
  costs : List Cost := []
  responseLatencies : List ResponseLatency := []
  tokenUsages : List TokenUsage := []
  accumulatedTokenUsage : TokenUsage := { model := modelName }
deriving DecidableEq

namespace Metrics

variable (m : Metrics)

def addCost (now value : ℚ) : Except PyError Metrics :=
  if value < 0 then .error (.valueError "Added cost cannot be negative.")
  else .ok { m with accumulatedCost := m.accumulatedCost + value, costs := m.costs ++ [⟨m.modelName, value, now⟩] }

def addResponseLatency (value : ℚ) (responseId : String) : Metrics :=
  { m with responseLatencies := m.responseLatencies ++ [⟨m.modelName, max 0 value, responseId⟩] }

def addTokenUsage (promptTokens completionTokens cacheReadTokens cacheWriteTokens contextWindow : ℤ)
    (responseId : String) : Metrics :=
  let usage : TokenUsage := ⟨m.modelName, promptTokens, completionTokens, cacheReadTokens, cacheWriteTokens,
    contextWindow, promptTokens + completionTokens, responseId⟩
  { m with
    tokenUsages := m.tokenUsages ++ [usage]
    accumulatedTokenUsage := m.accumulatedTokenUsage.add { usage with responseId := "" } }

def merge (other : Metrics) : Metrics :=
  { m with
    accumulatedCost := m.accumulatedCost + other.accumulatedCost
    maxBudgetPerTask := m.maxBudgetPerTask.or other.maxBudgetPerTask
    costs := m.costs ++ other.costs
    tokenUsages := m.tokenUsages ++ other.tokenUsages
    responseLatencies := m.responseLatencies ++ other.responseLatencies
    accumulatedTokenUsage := m.accumulatedTokenUsage.add other.accumulatedTokenUsage }

/-- Costs are told apart by their time, the other records by their number. -/
def diff (baseline : Metrics) : Metrics where
  modelName := m.modelName
  accumulatedCost := m.accumulatedCost - baseline.accumulatedCost
  costs :=
    match baseline.costs.getLast? with
    | some last => m.costs.filter fun cost => last.timestamp < cost.timestamp
    | none => m.costs
  responseLatencies := m.responseLatencies.drop baseline.responseLatencies.length
  tokenUsages := m.tokenUsages.drop baseline.tokenUsages.length
  accumulatedTokenUsage :=
    let base := baseline.accumulatedTokenUsage
    let current := m.accumulatedTokenUsage
    { model := m.modelName
      promptTokens := current.promptTokens - base.promptTokens
      completionTokens := current.completionTokens - base.completionTokens
      cacheReadTokens := current.cacheReadTokens - base.cacheReadTokens
      cacheWriteTokens := current.cacheWriteTokens - base.cacheWriteTokens
      contextWindow := current.contextWindow
      perTurnToken := 0
      responseId := "" }

end Metrics

/-- The metrics that can be there when the clock reads `now`; what is merged was built on the same clock. -/
inductive Built : ℚ → Metrics → Prop
  | init (now : ℚ) (modelName : String) : Built now { modelName }
  | later {now now' : ℚ} {m : Metrics} : Built now m → now ≤ now' → Built now' m
  | addCost {now value : ℚ} {m m' : Metrics} : Built now m → m.addCost now value = .ok m' → Built now m'
  | addResponseLatency {now : ℚ} {m : Metrics} (value : ℚ) (responseId : String) :
      Built now m → Built now (m.addResponseLatency value responseId)
  | addTokenUsage {now : ℚ} {m : Metrics} (prompt completion read write window : ℤ) (responseId : String) :
      Built now m → Built now (m.addTokenUsage prompt completion read write window responseId)
  | merge {now : ℚ} {m other : Metrics} : Built now m → Built now other → Built now (m.merge other)

/-! ## What is added since -/

inductive Call where
  | cost (value : ℚ)
  | latency (value : ℚ) (responseId : String)
  | usage (promptTokens completionTokens cacheReadTokens cacheWriteTokens contextWindow : ℤ) (responseId : String)

/-- A call at a reading of the clock; a negative cost raises and changes nothing. -/
def Call.on (now : ℚ) (m : Metrics) : Call → Metrics
  | .cost value => (m.addCost now value).toOption.getD m
  | .latency value responseId => m.addResponseLatency value responseId
  | .usage p c r w window responseId => m.addTokenUsage p c r w window responseId

def run (m : Metrics) (calls : List (ℚ × Call)) : Metrics := calls.foldl (fun m call => call.2.on call.1 m) m

/-- What a single call puts at the end of the lists. -/
def Call.costs (modelName : String) (now : ℚ) : Call → List Cost
  | .cost value => if value < 0 then [] else [⟨modelName, value, now⟩]
  | _ => []

def Call.latencies (modelName : String) : Call → List ResponseLatency
  | .latency value responseId => [⟨modelName, max 0 value, responseId⟩]
  | _ => []

def Call.usages (modelName : String) : Call → List TokenUsage
  | .usage p c r w window responseId => [⟨modelName, p, c, r, w, window, p + c, responseId⟩]
  | _ => []

def addedCosts (modelName : String) (calls : List (ℚ × Call)) : List Cost :=
  calls.flatMap fun call => call.2.costs modelName call.1

def addedLatencies (modelName : String) (calls : List (ℚ × Call)) : List ResponseLatency :=
  calls.flatMap fun call => call.2.latencies modelName

def addedUsages (modelName : String) (calls : List (ℚ × Call)) : List TokenUsage :=
  calls.flatMap fun call => call.2.usages modelName

/-- The difference lists what was added, and its totals are the sums of its lists. -/
structure Recovers (m : Metrics) (calls : List (ℚ × Call)) : Prop where
  costs : ((run m calls).diff m).costs = addedCosts m.modelName calls
  latencies : ((run m calls).diff m).responseLatencies = addedLatencies m.modelName calls
  usages : ((run m calls).diff m).tokenUsages = addedUsages m.modelName calls
  accumulatedCost : ((run m calls).diff m).accumulatedCost = ((addedCosts m.modelName calls).map Cost.cost).sum
  promptTokens : ((run m calls).diff m).accumulatedTokenUsage.promptTokens =
    ((addedUsages m.modelName calls).map TokenUsage.promptTokens).sum
  completionTokens : ((run m calls).diff m).accumulatedTokenUsage.completionTokens =
    ((addedUsages m.modelName calls).map TokenUsage.completionTokens).sum
  cacheReadTokens : ((run m calls).diff m).accumulatedTokenUsage.cacheReadTokens =
    ((addedUsages m.modelName calls).map TokenUsage.cacheReadTokens).sum
  cacheWriteTokens : ((run m calls).diff m).accumulatedTokenUsage.cacheWriteTokens =
    ((addedUsages m.modelName calls).map TokenUsage.cacheWriteTokens).sum

/-- The readings of a clock that never goes backwards. -/
def Forward (now : ℚ) (calls : List (ℚ × Call)) : Prop := (now :: calls.map Prod.fst).Pairwise (· ≤ ·)

/-! ## One call, and a run of calls -/

/-- Metrics with these records at the end of the lists, and in the totals. -/
structure Grown (m m' : Metrics) (newCosts : List Cost) (newLatencies : List ResponseLatency)
    (newUsages : List TokenUsage) : Prop where
  modelName : m'.modelName = m.modelName
  costs : m'.costs = m.costs ++ newCosts
  latencies : m'.responseLatencies = m.responseLatencies ++ newLatencies
  usages : m'.tokenUsages = m.tokenUsages ++ newUsages
  accumulatedCost : m'.accumulatedCost = m.accumulatedCost + (newCosts.map Cost.cost).sum
  promptTokens : m'.accumulatedTokenUsage.promptTokens =
    m.accumulatedTokenUsage.promptTokens + (newUsages.map TokenUsage.promptTokens).sum
  completionTokens : m'.accumulatedTokenUsage.completionTokens =
    m.accumulatedTokenUsage.completionTokens + (newUsages.map TokenUsage.completionTokens).sum
  cacheReadTokens : m'.accumulatedTokenUsage.cacheReadTokens =
    m.accumulatedTokenUsage.cacheReadTokens + (newUsages.map TokenUsage.cacheReadTokens).sum
  cacheWriteTokens : m'.accumulatedTokenUsage.cacheWriteTokens =
    m.accumulatedTokenUsage.cacheWriteTokens + (newUsages.map TokenUsage.cacheWriteTokens).sum

theorem Grown.refl (m : Metrics) : Grown m m [] [] [] := by
  constructor <;> simp

theorem Grown.trans {m m' m'' : Metrics} {costs costs' : List Cost} {latencies latencies' : List ResponseLatency}
    {usages usages' : List TokenUsage} (h : Grown m m' costs latencies usages)
    (h' : Grown m' m'' costs' latencies' usages') :
    Grown m m'' (costs ++ costs') (latencies ++ latencies') (usages ++ usages') where
  modelName := h'.modelName.trans h.modelName
  costs := by rw [h'.costs, h.costs, List.append_assoc]
  latencies := by rw [h'.latencies, h.latencies, List.append_assoc]
  usages := by rw [h'.usages, h.usages, List.append_assoc]
  accumulatedCost := by rw [h'.accumulatedCost, h.accumulatedCost, List.map_append, List.sum_append, add_assoc]
  promptTokens := by rw [h'.promptTokens, h.promptTokens, List.map_append, List.sum_append, add_assoc]
  completionTokens := by rw [h'.completionTokens, h.completionTokens, List.map_append, List.sum_append, add_assoc]
  cacheReadTokens := by rw [h'.cacheReadTokens, h.cacheReadTokens, List.map_append, List.sum_append, add_assoc]
  cacheWriteTokens := by rw [h'.cacheWriteTokens, h.cacheWriteTokens, List.map_append, List.sum_append, add_assoc]

theorem grown_call (now : ℚ) (m : Metrics) (c : Call) :
    Grown m (c.on now m) (c.costs m.modelName now) (c.latencies m.modelName) (c.usages m.modelName) := by
  cases c with
  | cost value =>
    by_cases hvalue : value < 0
    · rw [Call.on, Call.costs, Metrics.addCost, if_pos hvalue, if_pos hvalue]
      exact Grown.refl m
    · rw [Call.on, Call.costs, Metrics.addCost, if_neg hvalue, if_neg hvalue]
      constructor <;> simp [Call.latencies, Call.usages, Except.toOption]
  | latency value responseId =>
    constructor <;> simp [Call.on, Call.costs, Call.latencies, Call.usages, Metrics.addResponseLatency]
  | usage p c r w window responseId =>
    constructor <;>
      simp [Call.on, Call.costs, Call.latencies, Call.usages, Metrics.addTokenUsage, TokenUsage.add]

theorem grown_run (m : Metrics) (calls : List (ℚ × Call)) :
    Grown m (run m calls) (addedCosts m.modelName calls) (addedLatencies m.modelName calls)
      (addedUsages m.modelName calls) := by
  induction calls generalizing m with
  | nil => exact Grown.refl m
  | cons call calls ih =>
    have hcall := grown_call call.1 m call.2
    have hrest := ih (call.2.on call.1 m)
    rw [hcall.modelName] at hrest
    exact hcall.trans hrest

/-! ## The clock -/

/-- No cost is younger than the clock. -/
theorem Built.timestamp_le {now : ℚ} {m : Metrics} (h : Built now m) : ∀ cost ∈ m.costs, cost.timestamp ≤ now := by
  induction h with
  | init now modelName => exact fun cost hcost => absurd hcost List.not_mem_nil
  | later _ hle ih => exact fun cost hcost => (ih cost hcost).trans hle
  | @addCost now value m m' _ hadd ih =>
    unfold Metrics.addCost at hadd
    split_ifs at hadd with hvalue
    obtain rfl := Except.ok.inj hadd
    intro cost hcost
    rcases List.mem_append.mp hcost with hcost | hcost
    · exact ih cost hcost
    · rw [List.mem_singleton.mp hcost]
  | addResponseLatency value responseId _ ih => exact ih
  | addTokenUsage p c r w window responseId _ ih => exact ih
  | merge _ _ ih ih' =>
    intro cost hcost
    rcases List.mem_append.mp hcost with hcost | hcost
    · exact ih cost hcost
    · exact ih' cost hcost

theorem le_timestamp {now : ℚ} {modelName : String} {calls : List (ℚ × Call)} (h : Forward now calls) :
    ∀ cost ∈ addedCosts modelName calls, now ≤ cost.timestamp := by
  intro cost hcost
  obtain ⟨call, hcall, hcost⟩ := List.mem_flatMap.mp hcost
  have hnow : now ≤ call.1 := (List.pairwise_cons.mp h).1 call.1 (List.mem_map_of_mem hcall)
  unfold Call.costs at hcost
  split at hcost
  · split_ifs at hcost with hvalue
    · exact absurd hcost List.not_mem_nil
    · rwa [List.mem_singleton.mp hcost]
  · exact absurd hcost List.not_mem_nil

/-! ## What the difference recovers -/

variable {m : Metrics} {calls : List (ℚ × Call)}

/-- All but the costs is recovered in any case. -/
theorem recovers_iff_costs (m : Metrics) (calls : List (ℚ × Call)) :
    Recovers m calls ↔ ((run m calls).diff m).costs = addedCosts m.modelName calls := by
  have hgrown := grown_run m calls
  constructor
  · exact Recovers.costs
  · intro hcosts
    refine ⟨hcosts, ?_, ?_, ?_, ?_, ?_, ?_, ?_⟩
    · rw [Metrics.diff, hgrown.latencies, List.drop_left]
    · rw [Metrics.diff, hgrown.usages, List.drop_left]
    · exact sub_eq_of_eq_add' hgrown.accumulatedCost
    · exact sub_eq_of_eq_add' hgrown.promptTokens
    · exact sub_eq_of_eq_add' hgrown.completionTokens
    · exact sub_eq_of_eq_add' hgrown.cacheReadTokens
    · exact sub_eq_of_eq_add' hgrown.cacheWriteTokens

/-- The difference is right exactly when the last cost of the baseline was its youngest and nothing was
added in the same reading of the clock. -/
theorem diff_recovers_iff {now : ℚ} (hm : Built now m) (hcalls : Forward now calls) :
    Recovers m calls ↔ ∀ last ∈ m.costs.getLast?, (∀ cost ∈ m.costs, cost.timestamp ≤ last.timestamp) ∧
      ∀ cost ∈ addedCosts m.modelName calls, last.timestamp < cost.timestamp := by
  rw [recovers_iff_costs, Metrics.diff, (grown_run m calls).costs]
  cases hlast : m.costs.getLast? with
  | none =>
    rw [List.getLast?_eq_none_iff.mp hlast]
    simp
  | some last =>
    have hold := hm.timestamp_le
    have hnew : ∀ cost ∈ addedCosts m.modelName calls, now ≤ cost.timestamp := le_timestamp hcalls
    dsimp only
    rw [List.filter_append]
    constructor
    · intro h last' hlast'
      obtain rfl := Option.some.inj hlast'
      -- a cost that is listed again is not younger than anything added, so all of that is listed too
      have hnone : m.costs.filter (fun cost => last.timestamp < cost.timestamp) = [] := by
        by_contra hne
        obtain ⟨cost, hcost⟩ := List.exists_mem_of_ne_nil _ hne
        obtain ⟨hmem, hlt⟩ := List.mem_filter.mp hcost
        have hall : (addedCosts m.modelName calls).filter (fun cost => last.timestamp < cost.timestamp) =
            addedCosts m.modelName calls := by
          refine List.filter_eq_self.mpr fun cost' hcost' => decide_eq_true ?_
          exact (of_decide_eq_true hlt).trans_le ((hold cost hmem).trans (hnew cost' hcost'))
        rw [hall] at h
        exact hne (List.append_left_eq_self.mp h)
      rw [hnone, List.nil_append] at h
      constructor
      · intro cost hcost
        by_contra hlt
        exact List.filter_eq_nil_iff.mp hnone cost hcost (decide_eq_true (not_le.mp hlt))
      · exact fun cost hcost => of_decide_eq_true (List.filter_eq_self.mp h cost hcost)
    · intro h
      obtain ⟨hle, hlt⟩ := h last rfl
      have hnone : m.costs.filter (fun cost => last.timestamp < cost.timestamp) = [] :=
        List.filter_eq_nil_iff.mpr fun cost hcost hcost' => absurd (of_decide_eq_true hcost') (not_lt.mpr (hle cost hcost))
      rw [hnone, List.nil_append]
      exact List.filter_eq_self.mpr fun cost hcost => decide_eq_true (hlt cost hcost)

/-- A cost at 1, and another at 2. -/
def first : Metrics := (({ modelName := "a" } : Metrics).addCost 1 5).toOption.getD { modelName := "a" }

def second : Metrics := (({ modelName := "b" } : Metrics).addCost 2 7).toOption.getD { modelName := "b" }

theorem built_first : Built 1 first := by
  have hadd : ({ modelName := "a" } : Metrics).addCost 1 5 = .ok first := rfl
  exact .addCost (.init 1 "a") hadd

theorem built_second : Built 2 second := by
  have hadd : ({ modelName := "b" } : Metrics).addCost 2 7 = .ok second := rfl
  exact .addCost (.init 2 "b") hadd

theorem diff_recovers_iff_first : Recovers first [(2, .cost 3)] ↔
    ∀ last ∈ first.costs.getLast?, (∀ cost ∈ first.costs, cost.timestamp ≤ last.timestamp) ∧
      ∀ cost ∈ addedCosts first.modelName [(2, .cost 3)], last.timestamp < cost.timestamp :=
  diff_recovers_iff built_first (by norm_num [Forward])

/-- The older cost is merged in last; nothing is added, and the younger one is listed. -/
theorem merged_listed : ¬ ∀ (now : ℚ) (m : Metrics) (calls : List (ℚ × Call)), Built now m → Forward now calls →
    Recovers m calls := by
  intro h
  have hcosts := (h 2 (second.merge first) [] (.merge built_second (.later built_first (by norm_num)))
    (by norm_num [Forward])).costs
  have hlisted : ((run (second.merge first) []).diff (second.merge first)).costs = [⟨"b", 7, 2⟩] := by decide +kernel
  rw [hlisted] at hcosts
  exact absurd hcosts (by decide)

end Llm

end OpenHands
