import OpenHandsSWE.Controller.State
import OpenHandsSWE.Lib.Brackets

/-! The state tracker: loading the history of an agent from the event stream, with the events of
finished delegates cut out, adding to it and closing it. -/

namespace OpenHands

/-- Events that are not relevant to the agent: null events, agent state changes, hidden ones. -/
def agentHistoryFilter : EventFilter where
  excludeTypes := some [.action .null, .observation .null, .action .changeAgentState,
    .observation .agentStateChanged]
  excludeHidden := true

/-- The filter has no query, so no text is looked at. -/
def agentHistoryIncludes (e : Event) : Bool :=
  agentHistoryFilter.includes e (fun _ => []) fun _ => []

theorem agentHistoryIncludes_eq (e : Event) (lowered : Event → List Char)
    (lower : String → List Char) :
    agentHistoryFilter.includes e lowered lower = agentHistoryIncludes e := rfl

theorem agentHistoryIncludes_iff (e : Event) : agentHistoryIncludes e = true ↔
    e.isinstance [.action .null, .observation .null, .action .changeAgentState,
      .observation .agentStateChanged] = false ∧ e.hidden = false := by
  simp only [agentHistoryIncludes, EventFilter.includes, agentHistoryFilter, truthy,
    Option.any_some, Option.any_none, Bool.true_and]
  cases e.isinstance [.action .null, .observation .null, .action .changeAgentState,
    .observation .agentStateChanged] <;> cases e.hidden <;> simp

namespace StateTracker

/-- The state a controller starts from: a restored one, or a new one that begins at the start. -/
def setInitialState (state : Option State) (sessionId : String) (maxIterations : Int)
    (maxBudgetPerTask : Option Rat) (confirmationMode : Bool) : State :=
  match state with
  | none =>
    { sessionId := sessionId
      iterationFlag :=
        { limitIncreaseAmount := maxIterations, currentValue := 0, maxValue := maxIterations }
      budgetFlag := (maxBudgetPerTask.filter (· != 0)).map fun b =>
        { limitIncreaseAmount := b, currentValue := 0, maxValue := b }
      confirmationMode := confirmationMode
      startId := 0 }
  | some s => if s.startId ≤ -1 then { s with startId := 0 } else s

def rangeStart (s : State) : Int := if 0 ≤ s.startId then s.startId else 0

def rangeEnd (log : EventLog) (s : State) : Int :=
  if 0 ≤ s.endId then s.endId else log.getLatestEventId

def rangeEvents (log : EventLog) (s : State) : List Event :=
  log.searchEvents (rangeStart s) (rangeEnd log s) agentHistoryIncludes

/-- The delegate pairs, with a stack of the delegate actions not matched yet. -/
def delegateRanges : List Int → List Event → List (Int × Int)
  | _, [] => []
  | delegateActionIds, event :: events =>
    if event.isDelegateAction then delegateRanges (event.id :: delegateActionIds) events
    else if event.isDelegateObservation then
      match delegateActionIds with
      | [] => delegateRanges [] events
      | actionId :: delegateActionIds =>
        (actionId, event.id) :: delegateRanges delegateActionIds events
    else delegateRanges delegateActionIds events

/-- The order of Python's tuples. -/
def rangeLE (p q : Int × Int) : Prop := p.1 < q.1 ∨ p.1 = q.1 ∧ p.2 ≤ q.2

instance : DecidableRel rangeLE := fun _ _ => inferInstanceAs (Decidable (_ ∨ _))

def sortedRanges (events : List Event) : List (Int × Int) :=
  (delegateRanges [] events).insertionSort rangeLE

/-- The loop over the sorted ranges; `currentIdx` is where the events not yet added begin. -/
def filteredEvents (events : List Event) : Nat → List (Int × Int) → List Event
  | currentIdx, [] => events.drop currentIdx
  | currentIdx, (startId, endId) :: ranges =>
    (events.drop currentIdx).filter (fun e => decide (e.id < startId)) ++
      (events.filter (fun e => decide (e.id = startId) || decide (e.id = endId)) ++
        filteredEvents events (events.findIdx fun e => decide (endId < e.id)) ranges)

/-- The loop of `initHistory` binds `start_id` again, and its last value is stored. -/
def loopStartId (startId : Int) (ranges : List (Int × Int)) : Int :=
  (ranges.getLast?.map Prod.fst).getD startId

def initHistory (log : EventLog) (s : State) : State :=
  if rangeEnd log s + 1 < rangeStart s then { s with history := [] }
  else if delegateRanges [] (rangeEvents log s) = [] then
    { s with history := rangeEvents log s, startId := rangeStart s }
  else
    { s with
      history := filteredEvents (rangeEvents log s) 0 (sortedRanges (rangeEvents log s))
      startId := loopStartId (rangeStart s) (sortedRanges (rangeEvents log s)) }

def close (log : EventLog) (s : State) : State :=
  { s with history := rangeEvents log s }

def addHistory (s : State) (e : Event) : State :=
  if agentHistoryIncludes e then { s with history := s.history ++ [e] } else s

/-! ## The ranges are the matched pairs -/

def delegateKind (e : Event) : BracketKind :=
  if e.isDelegateAction then .opening
  else if e.isDelegateObservation then .closing
  else .neither

/-- Each observation is matched with the most recent unmatched action. -/
abbrev DelegatePair (events : List Event) (a o : Event) : Prop :=
  BracketKind.MatchedPair delegateKind events a o

def idRange (p : Event × Event) : Int × Int := (p.1.id, p.2.id)

theorem delegateRanges_eq (stack events : List Event) :
    delegateRanges (stack.map Event.id) events =
      (BracketKind.matchPairs delegateKind stack events).map idRange := by
  induction events generalizing stack with
  | nil => rfl
  | cons e events ih =>
    rw [delegateRanges.eq_def, BracketKind.matchPairs.eq_def]
    simp only [delegateKind]
    split_ifs with ha ho
    · exact ih (e :: stack)
    · cases stack with
      | nil => exact ih []
      | cons a stack => simpa only [List.map_cons, idRange] using congrArg _ (ih stack)
    · exact ih stack

theorem mem_delegateRanges_iff {events : List Event} {r : Int × Int} :
    r ∈ delegateRanges [] events ↔ ∃ a o, DelegatePair events a o ∧ r = (a.id, o.id) := by
  have h := delegateRanges_eq [] events
  rw [List.map_nil] at h
  simp only [h, List.mem_map, BracketKind.mem_matchPairs_iff, Prod.exists, idRange, eq_comm]

theorem mem_sortedRanges_iff {events : List Event} {r : Int × Int} :
    r ∈ sortedRanges events ↔ ∃ a o, DelegatePair events a o ∧ r = (a.id, o.id) := by
  rw [sortedRanges, List.mem_insertionSort, mem_delegateRanges_iff]

theorem DelegatePair.mem {events : List Event} {a o : Event} (h : DelegatePair events a o) :
    a ∈ events ∧ o ∈ events := by
  obtain ⟨pre, mid, post, rfl, _⟩ := h
  simp

theorem DelegatePair.lt {events : List Event} (hord : Ordered events) {a o : Event}
    (h : DelegatePair events a o) : a.id < o.id := by
  obtain ⟨pre, mid, post, rfl, _⟩ := h
  rw [Ordered, List.pairwise_append, List.pairwise_cons] at hord
  exact hord.2.1.1 o (by simp)

end StateTracker

end OpenHands
