import OpenHandsSWE.Controller.AgentController

/-! The control flags of a controller and its delegates: objects that all of them refer to. A step is
counted exactly once, as long as the budget is not found spent after a step was counted. -/

namespace OpenHands

/-- Which of the two flags raised. -/
inductive Limit where
  | iteration
  | budget
deriving DecidableEq, Repr

def State.raisedBy (s : State) : Limit := if s.iterationFlag.step.2 then .iteration else .budget

/-- A controller with references to its flags, and the limit that put it into its error state. -/
structure Member where
  agentState : Unchecked AgentState := .known .loading
  headlessMode : Bool
  iterationFlag : Nat
  budgetFlag : Option Nat
  stoppedBy : Option Limit := none

/-- The root controller and its delegates, each after the one that started it, over the flags and the
stats they share. Beside them stand how many steps passed the flags, and the limits whose errors were
resumed since the flags last ran and the costs last changed. -/
structure Crew where
  iterationFlags : Nat → IterationControlFlag
  budgetFlags : Nat → BudgetControlFlag
  stats : ConversationStats
  members : List Member
  passed : Nat := 0
  resumed : List Limit := []

inductive CrewStep where
  | spend (stats : ConversationStats)
  | setAgentStateTo (who : Nat) (new : Unchecked AgentState)
  | step (who : Nat) (stuck : Bool)
  | startDelegate (who : Nat)
  | endDelegate (who : Nat)

namespace Crew

/-- The state of a member, as far as its flags go. -/
def flags (c : Crew) (m : Member) : State where
  iterationFlag := c.iterationFlags m.iterationFlag
  budgetFlag := m.budgetFlag.map c.budgetFlags

/-- The flags of a member's state are changed in place. -/
def store (c : Crew) (m : Member) (s : State) : Crew :=
  { c with
    iterationFlags := Function.update c.iterationFlags m.iterationFlag s.iterationFlag
    budgetFlags :=
      match m.budgetFlag, s.budgetFlag with
      | some place, some flag => Function.update c.budgetFlags place flag
      | _, _ => c.budgetFlags }

/-- `set_agent_state_to`, for an exception about a limit or without one. -/
def setAgentStateTo (c : Crew) (who : Nat) (new : Unchecked AgentState) (cause : Option Limit) : Crew :=
  match c.members[who]? with
  | none => c
  | some m =>
    if new = m.agentState then c
    else
      let changed := { c with members := c.members.set who { m with agentState := new, stoppedBy := cause } }
      if m.agentState = .known .error ∧ new = .known .running then
        { changed.store m (Controller.maybeIncreaseControlFlagsLimits m.headlessMode (c.flags m)) with
          resumed := if m.headlessMode then c.resumed else c.resumed ++ m.stoppedBy.toList }
      else changed

/-- `_step` up to the agent's own step; a pending action only keeps it from getting here. -/
def step (c : Crew) (who : Nat) (stuck : Bool) : Crew :=
  match c.members[who]? with
  | none => c
  | some m =>
    if m.agentState ≠ .known .running then c
    else
      let s := (c.flags m).syncBudgetFlagWithMetrics c.stats
      if stuck then (c.store m s).setAgentStateTo who (.known .error) none
      else
        let ran := { c.store m s.runControlFlags.1 with resumed := [] }
        if s.runControlFlags.2 then ran.setAgentStateTo who (.known .error) (some s.raisedBy)
        else { ran with passed := c.passed + 1 }

/-- The delegate's state has its parent's flags; a delegate already there is given up. -/
def startDelegate (c : Crew) (who : Nat) : Crew :=
  match c.members[who]? with
  | none => c
  | some m =>
    { c with members := c.members.take (who + 1) ++
        [{ headlessMode := m.headlessMode, iterationFlag := m.iterationFlag, budgetFlag := m.budgetFlag }] }

/-- The delegate's count becomes its parent's. -/
def endDelegate (c : Crew) (who : Nat) : Crew :=
  match c.members[who]?, c.members[who + 1]? with
  | some m, some delegate =>
    let s := c.flags m
    { c.store m { s with iterationFlag :=
        { s.iterationFlag with currentValue := (c.flags delegate).iterationFlag.currentValue } } with
      members := c.members.take (who + 1) }
  | _, _ => c

def next (c : Crew) : CrewStep → Crew
  | .spend stats => { c with stats, resumed := [] }
  | .setAgentStateTo who new => c.setAgentStateTo who new none
  | .step who stuck => c.step who stuck
  | .startDelegate who => c.startDelegate who
  | .endDelegate who => c.endDelegate who

/-- A root controller with its flags. -/
def start (headlessMode : Bool) (iterationFlag : IterationControlFlag) (budgetFlag : Option BudgetControlFlag)
    (stats : ConversationStats) : Crew where
  iterationFlags _ := iterationFlag
  budgetFlags _ := budgetFlag.getD ⟨0, 0, 0, false⟩
  stats := stats
  members := [{ headlessMode, iterationFlag := 0, budgetFlag := budgetFlag.map fun _ => 0 }]

/-! ## What is asked of a run -/

/-- A call of `run_control_flags`, by a member that is running and not stuck. -/
def Runs (c : Crew) (op : CrewStep) (s : State) : Prop :=
  ∃ who m, op = .step who false ∧ c.members[who]? = some m ∧ m.agentState = .known .running ∧
    s = (c.flags m).syncBudgetFlagWithMetrics c.stats

/-- Every member's count is that of the passed steps and within its limit, which stays in headless
mode. -/
structure Counted (headlessMode : Bool) (initial : IterationControlFlag) (c : Crew) : Prop where
  counted : ∀ m ∈ c.members, (c.flags m).iterationFlag.currentValue = initial.currentValue + c.passed
  bounded : ∀ m ∈ c.members, (c.flags m).iterationFlag.currentValue ≤ (c.flags m).iterationFlag.maxValue
  headless : headlessMode = true → ∀ m ∈ c.members, (c.flags m).iterationFlag.maxValue = initial.maxValue

/-- A call that raises changes no value, and it does not raise because of a limit whose error has
just been resumed. -/
structure Exact (c : Crew) (op : CrewStep) : Prop where
  unchanged : ∀ s, c.Runs op s → s.runControlFlags.2 = true →
    s.runControlFlags.1.iterationFlag.currentValue = s.iterationFlag.currentValue ∧
    s.runControlFlags.1.budgetFlag.map (·.currentValue) = s.budgetFlag.map (·.currentValue)
  extended : ∀ s, c.Runs op s → s.runControlFlags.2 = true → s.raisedBy ∉ c.resumed

/-- All states of a run, and all its steps. -/
def ExactRun (headlessMode : Bool) (initial : IterationControlFlag) (c : Crew) : List CrewStep → Prop
  | [] => c.Counted headlessMode initial
  | op :: ops => c.Counted headlessMode initial ∧ c.Exact op ∧ (c.next op).ExactRun headlessMode initial ops

/-- The limit that stopped a controller can be extended beyond what has been used. -/
def Extends (s : State) (cost : Rat) : Limit → Prop
  | .iteration => s.iterationFlag.hitLimit = true ∨ s.iterationFlag.reachedLimit = false
  | .budget => ∀ flag ∈ s.budgetFlag,
      cost < if flag.hitLimit then flag.currentValue + flag.limitIncreaseAmount else flag.maxValue

/-- The budget is not found spent when the step has been counted, and an error about a limit is
resumed only when the limit can still be extended. -/
def Fair (c : Crew) : CrewStep → Prop
  | .step who stuck => ∀ m ∈ c.members[who]?, m.agentState = .known .running → stuck = false →
      (c.flags m).iterationFlag.reachedLimit = true ∨
        ∀ flag ∈ ((c.flags m).syncBudgetFlagWithMetrics c.stats).budgetFlag, flag.reachedLimit = false
  | .setAgentStateTo who new => ∀ m ∈ c.members[who]?, m.headlessMode = false →
      m.agentState = .known .error → new = .known .running →
        ∀ limit ∈ m.stoppedBy, Extends (c.flags m) c.stats.getCombinedMetrics.accumulatedCost limit
  | _ => True

def FairRun (c : Crew) : List CrewStep → Prop
  | [] => True
  | op :: ops => c.Fair op ∧ (c.next op).FairRun ops

section Decidable

instance (s : State) (cost : Rat) : (limit : Limit) → Decidable (Extends s cost limit)
  | .iteration => inferInstanceAs (Decidable (_ ∨ _))
  | .budget => inferInstanceAs (Decidable (∀ flag ∈ s.budgetFlag, _))

instance (c : Crew) : (op : CrewStep) → Decidable (c.Fair op)
  | .step who stuck => inferInstanceAs (Decidable (∀ m ∈ c.members[who]?, _))
  | .setAgentStateTo who new => inferInstanceAs (Decidable (∀ m ∈ c.members[who]?, _))
  | .spend _ | .startDelegate _ | .endDelegate _ => .isTrue trivial

def decidableFairRun (c : Crew) : (ops : List CrewStep) → Decidable (c.FairRun ops)
  | [] => .isTrue trivial
  | op :: ops =>
    have : Decidable ((c.next op).FairRun ops) := (c.next op).decidableFairRun ops
    inferInstanceAs (Decidable (c.Fair op ∧ _))

instance (c : Crew) (ops : List CrewStep) : Decidable (c.FairRun ops) := c.decidableFairRun ops

end Decidable

/-! ## The shared flags -/

/-- A resumed limit does not raise unless the costs change. -/
def Clear (s : State) (cost : Rat) : Limit → Prop
  | .iteration => s.iterationFlag.reachedLimit = false ∧ s.iterationFlag.hitLimit = false
  | .budget => ∀ flag ∈ s.budgetFlag, cost < flag.maxValue ∧ flag.hitLimit = false

/-- What holds of the shared flags, whoever used them last. -/
structure Sound (headlessMode : Bool) (initial : IterationControlFlag) (passed : Nat) (resumed : List Limit)
    (cost : Rat) (s : State) : Prop where
  counted : s.iterationFlag.currentValue = initial.currentValue + passed
  bounded : s.iterationFlag.currentValue ≤ s.iterationFlag.maxValue
  amount : 0 < s.iterationFlag.limitIncreaseAmount
  headless : headlessMode = true → s.iterationFlag.maxValue = initial.maxValue
  clear : ∀ limit ∈ resumed, Clear s cost limit

namespace Sound

variable {headlessMode : Bool} {initial : IterationControlFlag} {passed : Nat} {resumed : List Limit} {cost : Rat}
  {s : State}

theorem reachedLimit_eq_false_iff (f : IterationControlFlag) :
    f.reachedLimit = false ↔ f.currentValue < f.maxValue := by
  unfold IterationControlFlag.reachedLimit
  rw [decide_eq_false_iff_not, not_le]

theorem sync (h : Sound headlessMode initial passed resumed cost s) (stats : ConversationStats) :
    Sound headlessMode initial passed resumed cost (s.syncBudgetFlagWithMetrics stats) := by
  refine ⟨h.counted, h.bounded, h.amount, h.headless, fun limit hlimit => ?_⟩
  have hclear := h.clear limit hlimit
  cases limit with
  | iteration => exact hclear
  | budget =>
    intro flag hflag
    obtain ⟨old, hold, rfl⟩ := Option.map_eq_some_iff.mp hflag
    exact hclear old hold

/-- A call of `run_control_flags` that does not count a step on which the budget then raises. -/
theorem run (h : Sound headlessMode initial passed resumed cost s)
    (hfair : s.iterationFlag.reachedLimit = true ∨ ∀ flag ∈ s.budgetFlag, flag.reachedLimit = false) :
    Sound headlessMode initial (if s.runControlFlags.2 then passed else passed + 1) [] cost s.runControlFlags.1 := by
  have hnone : ∀ limit ∈ ([] : List Limit), Clear s.runControlFlags.1 cost limit := fun limit hmem => by cases hmem
  by_cases hreached : s.iterationFlag.reachedLimit = true
  · have hrun : s.runControlFlags = ({ s with iterationFlag := { s.iterationFlag with hitLimit := true } }, true) := by
      unfold State.runControlFlags IterationControlFlag.step
      rw [if_pos hreached]
      rfl
    rw [hrun] at hnone ⊢
    exact ⟨h.counted, h.bounded, h.amount, h.headless, hnone⟩
  · have hlimit := Bool.eq_false_of_not_eq_true hreached
    have hraised : s.runControlFlags.2 = false := by
      unfold State.runControlFlags IterationControlFlag.step
      rw [hlimit, if_neg Bool.false_ne_true]
      cases hbudget : s.budgetFlag with
      | none => rfl
      | some flag => exact (hfair.resolve_left hreached) flag hbudget
    have hflag : s.runControlFlags.1.iterationFlag =
        { s.iterationFlag with hitLimit := false, currentValue := s.iterationFlag.currentValue + 1 } := by
      unfold State.runControlFlags IterationControlFlag.step
      rw [hlimit, if_neg Bool.false_ne_true]
      cases s.budgetFlag <;> rfl
    rw [reachedLimit_eq_false_iff] at hlimit
    rw [hraised, if_neg Bool.false_ne_true]
    refine ⟨?_, ?_, ?_, ?_, hnone⟩
    · rw [hflag]
      dsimp only
      rw [h.counted]
      push_cast
      ring
    · rw [hflag]
      exact hlimit
    · rw [hflag]
      exact h.amount
    · rw [hflag]
      exact h.headless

/-- What is clear was not hit, and stays as it is. -/
theorem clear_increase {limit : Limit} (h : Clear s cost limit) :
    Clear (Controller.maybeIncreaseControlFlagsLimits headlessMode s) cost limit := by
  cases limit with
  | iteration =>
    have hsame : s.iterationFlag.increaseLimit headlessMode = s.iterationFlag := by
      unfold IterationControlFlag.increaseLimit
      rw [h.2, Bool.and_false, if_neg Bool.false_ne_true]
    unfold Clear Controller.maybeIncreaseControlFlagsLimits
    rw [hsame]
    exact h
  | budget =>
    intro flag hflag
    obtain ⟨old, hold, rfl⟩ := Option.map_eq_some_iff.mp hflag
    obtain ⟨hcost, hhit⟩ := h old hold
    rw [BudgetControlFlag.increaseLimit, hhit, if_neg Bool.false_ne_true]
    exact ⟨hcost, hhit⟩

theorem clear_of_extends (hamount : 0 < s.iterationFlag.limitIncreaseAmount)
    (hbounded : s.iterationFlag.currentValue ≤ s.iterationFlag.maxValue) {limit : Limit}
    (h : Extends s cost limit) : Clear (Controller.maybeIncreaseControlFlagsLimits false s) cost limit := by
  cases limit with
  | iteration =>
    unfold Clear Controller.maybeIncreaseControlFlagsLimits IterationControlFlag.increaseLimit
    cases hhit : s.iterationFlag.hitLimit with
    | true =>
      refine ⟨?_, rfl⟩
      rw [reachedLimit_eq_false_iff]
      show s.iterationFlag.currentValue < s.iterationFlag.maxValue + s.iterationFlag.limitIncreaseAmount
      exact lt_of_le_of_lt hbounded (lt_add_of_pos_right _ hamount)
    | false =>
      have hopen : s.iterationFlag.reachedLimit = false := h.resolve_left (by rw [hhit]; exact Bool.false_ne_true)
      exact ⟨hopen, hhit⟩
  | budget =>
    intro flag hflag
    obtain ⟨old, hold, rfl⟩ := Option.map_eq_some_iff.mp hflag
    have hcost := h old hold
    unfold BudgetControlFlag.increaseLimit
    split_ifs at hcost ⊢ with hhit
    · exact ⟨hcost, rfl⟩
    · exact ⟨hcost, Bool.eq_false_of_not_eq_true hhit⟩

/-- Resuming extends what was hit, so that a limit that can be extended is clear from then on. -/
theorem increase (h : Sound headlessMode initial passed resumed cost s) (stoppedBy : Option Limit)
    (hextends : headlessMode = false → ∀ limit ∈ stoppedBy, Extends s cost limit) :
    Sound headlessMode initial passed (if headlessMode then resumed else resumed ++ stoppedBy.toList) cost
      (Controller.maybeIncreaseControlFlagsLimits headlessMode s) := by
  have hamount := h.amount
  have hbounded := h.bounded
  have hkept : ∀ limit ∈ resumed, Clear (Controller.maybeIncreaseControlFlagsLimits headlessMode s) cost limit :=
    fun limit hlimit => clear_increase (h.clear limit hlimit)
  cases headlessMode with
  | true => exact ⟨h.counted, hbounded, hamount, h.headless, hkept⟩
  | false =>
    have hflag : ∃ extra ≥ 0, s.iterationFlag.increaseLimit false =
        { s.iterationFlag with
          maxValue := s.iterationFlag.maxValue + extra
          hitLimit := false } := by
      unfold IterationControlFlag.increaseLimit
      cases hhit : s.iterationFlag.hitLimit with
      | true => exact ⟨s.iterationFlag.limitIncreaseAmount, hamount.le, rfl⟩
      | false =>
        refine ⟨0, le_rfl, ?_⟩
        rw [add_zero, Bool.and_false, if_neg Bool.false_ne_true, ← hhit]
    obtain ⟨extra, hextra, hflag⟩ := hflag
    refine ⟨?_, ?_, ?_, nofun, fun limit hlimit => ?_⟩
    · unfold Controller.maybeIncreaseControlFlagsLimits
      rw [hflag]
      exact h.counted
    · unfold Controller.maybeIncreaseControlFlagsLimits
      rw [hflag]
      exact hbounded.trans (le_add_of_nonneg_right hextra)
    · unfold Controller.maybeIncreaseControlFlagsLimits
      rw [hflag]
      exact hamount
    · rcases List.mem_append.mp hlimit with hold | hnew
      · exact hkept limit hold
      · exact clear_of_extends hamount hbounded (hextends rfl limit (Option.mem_toList.mp hnew))

end Sound

/-! ## Crews -/

/-- The flags at the places that the members refer to. -/
def shared (c : Crew) (budget : Option Nat) : State :=
  { iterationFlag := c.iterationFlags 0, budgetFlag := budget.map c.budgetFlags }

structure Refers (headlessMode : Bool) (budget : Option Nat) (m : Member) : Prop where
  headlessMode : m.headlessMode = headlessMode
  iteration : m.iterationFlag = 0
  budget : m.budgetFlag = budget

/-- All members refer to the same flags, and these are sound. -/
structure Inv (headlessMode : Bool) (initial : IterationControlFlag) (budget : Option Nat) (c : Crew) : Prop where
  refers : ∀ m ∈ c.members, Refers headlessMode budget m
  sound : Sound headlessMode initial c.passed c.resumed c.stats.getCombinedMetrics.accumulatedCost (c.shared budget)

section Members

variable {headlessMode : Bool} {initial : IterationControlFlag} {budget : Option Nat} {c : Crew} {m : Member}

theorem Refers.flags (h : Refers headlessMode budget m) (c : Crew) : c.flags m = c.shared budget := by
  unfold Crew.flags Crew.shared
  rw [h.iteration, h.budget]

theorem Refers.store (h : Refers headlessMode budget m) (c : Crew) {s : State}
    (hbudget : s.budgetFlag.isSome = budget.isSome) :
    (c.store m s).shared budget = { iterationFlag := s.iterationFlag, budgetFlag := s.budgetFlag } := by
  unfold Crew.store Crew.shared
  rw [h.iteration, h.budget]
  dsimp only
  rw [Function.update_self]
  cases budget with
  | none =>
    obtain hnone : s.budgetFlag = none := Option.isNone_iff_eq_none.mp (by simpa using hbudget)
    rw [hnone]
    rfl
  | some place =>
    obtain ⟨flag, hflag⟩ := Option.isSome_iff_exists.mp hbudget
    rw [hflag]
    dsimp only
    rw [Option.map_some, Function.update_self]

/-- What of a state is sound are its flags. -/
theorem Sound.flagsOnly {passed : Nat} {resumed : List Limit} {cost : Rat} {s : State}
    (h : Sound headlessMode initial passed resumed cost s) :
    Sound headlessMode initial passed resumed cost { iterationFlag := s.iterationFlag, budgetFlag := s.budgetFlag } := by
  refine ⟨h.counted, h.bounded, h.amount, h.headless, fun limit hlimit => ?_⟩
  have hclear := h.clear limit hlimit
  cases limit <;> exact hclear

theorem refers_set (h : ∀ m ∈ c.members, Refers headlessMode budget m) {who : Nat} {m' : Member}
    (hm' : Refers headlessMode budget m') : ∀ m ∈ c.members.set who m', Refers headlessMode budget m := by
  intro m hm
  rcases List.mem_or_eq_of_mem_set hm with hold | rfl
  · exact h m hold
  · exact hm'

/-- A member changes its flags, and perhaps itself. -/
theorem Inv.store (h : Inv headlessMode initial budget c) (hm : Refers headlessMode budget m) {s : State}
    (hbudget : s.budgetFlag.isSome = budget.isSome) {members : List Member} {passed : Nat} {resumed : List Limit}
    (hmembers : ∀ m ∈ members, Refers headlessMode budget m)
    (hsound : Sound headlessMode initial passed resumed c.stats.getCombinedMetrics.accumulatedCost s) :
    Inv headlessMode initial budget { c.store m s with members, passed, resumed } := by
  refine ⟨hmembers, ?_⟩
  show Sound _ _ _ _ _ ((c.store m s).shared budget)
  rw [hm.store c hbudget]
  exact hsound.flagsOnly

theorem Inv.setAgentStateTo (h : Inv headlessMode initial budget c) (who : Nat) (new : Unchecked AgentState)
    (cause : Option Limit) (hfair : c.Fair (.setAgentStateTo who new)) :
    Inv headlessMode initial budget (c.setAgentStateTo who new cause) := by
  unfold Crew.setAgentStateTo
  split
  · exact h
  next m hm =>
    have hrefers := h.refers m (List.mem_of_getElem? hm)
    have hmembers : ∀ m' ∈ c.members.set who { m with agentState := new, stoppedBy := cause },
        Refers headlessMode budget m' :=
      refers_set h.refers ⟨hrefers.headlessMode, hrefers.iteration, hrefers.budget⟩
    by_cases hsame : new = m.agentState
    · rw [if_pos hsame]
      exact h
    rw [if_neg hsame]
    dsimp only
    by_cases hresumes : m.agentState = .known .error ∧ new = .known .running
    · rw [if_pos hresumes, hrefers.flags]
      have hextends : headlessMode = false →
          ∀ limit ∈ m.stoppedBy, Extends (c.shared budget) c.stats.getCombinedMetrics.accumulatedCost limit := by
        intro hinteractive
        have hall := hfair m hm (hrefers.headlessMode.trans hinteractive) hresumes.1 hresumes.2
        rwa [hrefers.flags] at hall
      have hsound := h.sound.increase m.stoppedBy hextends
      rw [← hrefers.headlessMode] at hsound
      have hbudget : (Controller.maybeIncreaseControlFlagsLimits m.headlessMode (c.shared budget)).budgetFlag.isSome =
          budget.isSome := by
        unfold Controller.maybeIncreaseControlFlagsLimits Crew.shared
        rw [Option.isSome_map, Option.isSome_map]
      refine h.store hrefers hbudget hmembers ?_
      rwa [hrefers.headlessMode] at hsound ⊢
    · rw [if_neg hresumes]
      exact ⟨hmembers, h.sound⟩

theorem runControlFlags_isSome (s : State) : s.runControlFlags.1.budgetFlag.isSome = s.budgetFlag.isSome := by
  unfold State.runControlFlags IterationControlFlag.step
  cases hflag : s.budgetFlag <;> split_ifs <;> simp [hflag]

theorem Inv.step (h : Inv headlessMode initial budget c) (who : Nat) (stuck : Bool)
    (hfair : c.Fair (.step who stuck)) : Inv headlessMode initial budget (c.step who stuck) := by
  unfold Crew.step
  split
  · exact h
  next m hm =>
    have hrefers := h.refers m (List.mem_of_getElem? hm)
    by_cases hrunning : m.agentState ≠ .known .running
    · rw [if_pos hrunning]
      exact h
    rw [if_neg hrunning, hrefers.flags]
    rw [not_not] at hrunning
    have hsound := h.sound.sync c.stats
    have hbudget : ((c.shared budget).syncBudgetFlagWithMetrics c.stats).budgetFlag.isSome = budget.isSome := by
      unfold State.syncBudgetFlagWithMetrics Crew.shared
      rw [Option.isSome_map, Option.isSome_map]
    -- the error state is not resumed by entering it
    have herror {c' : Crew} : c'.Fair (.setAgentStateTo who (.known .error)) := by
      intro _ _ _ _ hnew
      cases hnew
    cases stuck with
    | true =>
      have hsynced : Inv headlessMode initial budget
          (c.store m ((c.shared budget).syncBudgetFlagWithMetrics c.stats)) := h.store hrefers hbudget h.refers hsound
      exact hsynced.setAgentStateTo who _ none herror
    | false =>
      have hrun := hfair m hm hrunning rfl
      rw [hrefers.flags] at hrun
      have hran := hsound.run hrun
      rw [if_neg Bool.false_ne_true]
      generalize (c.shared budget).syncBudgetFlagWithMetrics c.stats = s at hbudget hran ⊢
      have hbudget' : s.runControlFlags.1.budgetFlag.isSome = budget.isSome := by
        rw [runControlFlags_isSome, hbudget]
      dsimp only
      by_cases hraised : s.runControlFlags.2 = true
      · rw [if_pos hraised] at hran ⊢
        have hstored : Inv headlessMode initial budget { c.store m s.runControlFlags.1 with resumed := [] } :=
          h.store hrefers hbudget' h.refers hran
        exact hstored.setAgentStateTo who _ _ herror
      · rw [if_neg hraised] at hran ⊢
        exact h.store hrefers hbudget' h.refers hran

theorem Inv.startDelegate (h : Inv headlessMode initial budget c) (who : Nat) :
    Inv headlessMode initial budget (c.startDelegate who) := by
  unfold Crew.startDelegate
  split
  · exact h
  next m hm =>
    have hrefers := h.refers m (List.mem_of_getElem? hm)
    refine ⟨fun m' hm' => ?_, h.sound⟩
    rcases List.mem_append.mp hm' with hold | hnew
    · exact h.refers m' (List.mem_of_mem_take hold)
    · rw [List.mem_singleton.mp hnew]
      exact ⟨hrefers.headlessMode, hrefers.iteration, hrefers.budget⟩

/-- Parent and delegate refer to the same flag, so that its count stays. -/
theorem Inv.endDelegate (h : Inv headlessMode initial budget c) (who : Nat) :
    Inv headlessMode initial budget (c.endDelegate who) := by
  unfold Crew.endDelegate
  split
  next m delegate hm hdelegate =>
    have hrefers := h.refers m (List.mem_of_getElem? hm)
    have hdelegateRefers := h.refers delegate (List.mem_of_getElem? hdelegate)
    rw [hrefers.flags, hdelegateRefers.flags]
    have hbudget : (c.shared budget).budgetFlag.isSome = budget.isSome := by
      unfold Crew.shared
      rw [Option.isSome_map]
    exact h.store hrefers hbudget (fun m' hm' => h.refers m' (List.mem_of_mem_take hm')) h.sound
  · exact h

theorem Inv.next (h : Inv headlessMode initial budget c) {op : CrewStep} (hfair : c.Fair op) :
    Inv headlessMode initial budget (c.next op) := by
  cases op with
  | spend stats =>
    refine ⟨h.refers, ?_⟩
    exact ⟨h.sound.counted, h.sound.bounded, h.sound.amount, h.sound.headless, fun _ hlimit => by cases hlimit⟩
  | setAgentStateTo who new => exact h.setAgentStateTo who new none hfair
  | step who stuck => exact h.step who stuck hfair
  | startDelegate who => exact h.startDelegate who
  | endDelegate who => exact h.endDelegate who

theorem Inv.counted (h : Inv headlessMode initial budget c) : c.Counted headlessMode initial := by
  refine ⟨fun m hm => ?_, fun m hm => ?_, fun hheadless m hm => ?_⟩
  · rw [(h.refers m hm).flags]
    exact h.sound.counted
  · rw [(h.refers m hm).flags]
    exact h.sound.bounded
  · rw [(h.refers m hm).flags]
    exact h.sound.headless hheadless

/-- A fair call raises only because of the iterations, and then changes no more than a marker. -/
theorem raised_iteration {s : State}
    (hfair : s.iterationFlag.reachedLimit = true ∨ ∀ flag ∈ s.budgetFlag, flag.reachedLimit = false)
    (hraised : s.runControlFlags.2 = true) : s.iterationFlag.reachedLimit = true := by
  refine hfair.elim id fun hbudget => ?_
  by_contra hopen
  unfold State.runControlFlags IterationControlFlag.step at hraised
  rw [if_neg hopen] at hraised
  cases hflag : s.budgetFlag with
  | none =>
    rw [hflag] at hraised
    cases hraised
  | some flag =>
    rw [hflag] at hraised
    exact Bool.false_ne_true ((hbudget flag hflag).symm.trans hraised)

theorem Inv.exact (h : Inv headlessMode initial budget c) {op : CrewStep} (hfair : c.Fair op) : c.Exact op := by
  have hreached {s : State} (hruns : c.Runs op s) (hraised : s.runControlFlags.2 = true) :
      s.iterationFlag = c.iterationFlags 0 ∧ s.iterationFlag.reachedLimit = true := by
    obtain ⟨who, m, rfl, hm, hrunning, rfl⟩ := hruns
    have hrefers := h.refers m (List.mem_of_getElem? hm)
    have hiteration : ((c.flags m).syncBudgetFlagWithMetrics c.stats).iterationFlag = c.iterationFlags 0 := by
      rw [hrefers.flags]
      rfl
    exact ⟨hiteration, raised_iteration (hfair m hm hrunning rfl) hraised⟩
  refine ⟨fun s hruns hraised => ?_, fun s hruns hraised hresumed => ?_⟩
  · obtain ⟨-, hlimit⟩ := hreached hruns hraised
    unfold State.runControlFlags IterationControlFlag.step
    rw [if_pos hlimit]
    exact ⟨rfl, rfl⟩
  · obtain ⟨hsame, hlimit⟩ := hreached hruns hraised
    have hby : s.raisedBy = .iteration := by
      unfold State.raisedBy IterationControlFlag.step
      rw [if_pos hlimit]
      rfl
    rw [hby] at hresumed
    have hclear : (c.iterationFlags 0).reachedLimit = false := (h.sound.clear _ hresumed).1
    rw [← hsame, hlimit] at hclear
    cases hclear

theorem Inv.run (h : Inv headlessMode initial budget c) {ops : List CrewStep} (hfair : c.FairRun ops) :
    c.ExactRun headlessMode initial ops := by
  induction ops generalizing c with
  | nil => exact h.counted
  | cons op ops ih =>
    obtain ⟨hop, hops⟩ := hfair
    exact ⟨h.counted, h.exact hop, ih (h.next hop) hops⟩

end Members

/-- In a run that never finds the budget spent after it counted a step, and that resumes an error
about a limit while this can be extended, every step is counted once and every resume helps. -/
theorem exactRun_of_fairRun (headlessMode : Bool) (iterationFlag : IterationControlFlag)
    (budgetFlag : Option BudgetControlFlag) (stats : ConversationStats) (ops : List CrewStep)
    (hbounded : iterationFlag.currentValue ≤ iterationFlag.maxValue) (hamount : 0 < iterationFlag.limitIncreaseAmount)
    (hfair : (start headlessMode iterationFlag budgetFlag stats).FairRun ops) :
    (start headlessMode iterationFlag budgetFlag stats).ExactRun headlessMode iterationFlag ops := by
  have hstart : Inv headlessMode iterationFlag (budgetFlag.map fun _ => 0)
      (start headlessMode iterationFlag budgetFlag stats) := by
    refine ⟨fun m hm => ?_, ⟨?_, hbounded, hamount, fun _ => rfl, fun _ hlimit => by cases hlimit⟩⟩
    · rw [List.mem_singleton.mp hm]
      exact ⟨rfl, rfl, rfl⟩
    · exact (add_zero _).symm
  exact hstart.run hfair

/-! ## Two runs -/

/-- One service with what it has cost. -/
def costing (amount : Rat) : ConversationStats where
  objects _ := { accumulatedCost := amount }
  serviceToMetrics := [("agent", 0)]

/-- A run into the iteration limit with a delegate, and out of it again. -/
def resumingRun : List CrewStep :=
  [.setAgentStateTo 0 (.known .running), .step 0 false, .spend (costing 1), .startDelegate 0,
    .setAgentStateTo 1 (.known .running), .step 1 false, .step 1 false,
    .setAgentStateTo 1 (.known .running), .step 1 false, .endDelegate 0, .step 0 false]

theorem exactRun_of_fairRun_resuming :
    (start false ⟨2, 0, 2, false⟩ (some ⟨5, 0, 5, false⟩) {}).FairRun resumingRun ∧
    (start false ⟨2, 0, 2, false⟩ (some ⟨5, 0, 5, false⟩) {}).ExactRun false ⟨2, 0, 2, false⟩ resumingRun := by
  have hfair : (start false ⟨2, 0, 2, false⟩ (some ⟨5, 0, 5, false⟩) {}).FairRun resumingRun := by decide +kernel
  exact ⟨hfair, exactRun_of_fairRun _ _ _ _ _ (by decide) (by decide) hfair⟩

def spendingRun : List CrewStep :=
  [.spend (costing 5), .setAgentStateTo 0 (.known .running), .step 0 false]

/-- The budget is found spent when the step has been counted already. -/
theorem not_exactRun_spending :
    ¬ (start false ⟨10, 0, 10, false⟩ (some ⟨5, 0, 5, false⟩) {}).ExactRun false ⟨10, 0, 10, false⟩ spendingRun := by
  rintro ⟨-, -, -, -, -, -, hend⟩
  have hone : ¬ ∀ m ∈ (spendingRun.foldl next (start false ⟨10, 0, 10, false⟩ (some ⟨5, 0, 5, false⟩) {})).members,
      ((spendingRun.foldl next (start false ⟨10, 0, 10, false⟩ (some ⟨5, 0, 5, false⟩) {})).flags
        m).iterationFlag.currentValue =
      0 + (spendingRun.foldl next (start false ⟨10, 0, 10, false⟩ (some ⟨5, 0, 5, false⟩) {})).passed := by
    decide +kernel
  exact hone hend.counted

end Crew

end OpenHands
