import Mathlib.Data.List.Sort
import OpenHandsSWE.Controller.CachedView
import OpenHandsSWE.Controller.History

/-! What a session finds again of a history that a loop recovery cut off: the end of the range to load is
set by the recovery and stays where it is, while the history goes on. -/

namespace OpenHands

open StateTracker

/-- A controller at work: its event stream and its state. -/
structure LiveSession where
  log : EventLog
  state : State

/-- Events come in, while a delegate is at work for the stream alone, and a recovery cuts the history off. -/
inductive LiveStep where
  | receive (e : Event)
  | delegated (e : Event)
  | truncate (recoveryPoint : Int)

namespace LiveSession

/-- `set_initial_state` and `_init_history`. -/
def start (log : EventLog) (state : Option State) (sessionId : String) (maxIterations : Int)
    (maxBudgetPerTask : Option Rat) (confirmationMode : Bool) : LiveSession :=
  ⟨log, initHistory log (setInitialState state sessionId maxIterations maxBudgetPerTask confirmationMode)⟩

def receive (live : LiveSession) (e : Event) : LiveSession :=
  ⟨live.log.add e, addHistory live.state { e with id := live.log.curId }⟩

def step (live : LiveSession) : LiveStep → LiveSession
  | .receive e => live.receive e
  | .delegated e => { live with log := live.log.add e }
  | .truncate recoveryPoint => { live with state := live.state.truncateMemoryToPoint recoveryPoint }

/-- The session saved and taken up by a new controller over the same stream. -/
def restore (live : LiveSession) (sessionId : String) (maxIterations : Int) (maxBudgetPerTask : Option Rat)
    (confirmationMode : Bool) : LiveSession :=
  start live.log (some (State.restoreFromSession live.state.getstate)) sessionId maxIterations maxBudgetPerTask
    confirmationMode

end LiveSession

/-- The part of a history that lies in the range to load, in the order of the stream and outside the
delegates that finished there. -/
structure InRange (log : EventLog) (s : State) : Prop where
  started : ∀ e ∈ s.history, s.startId ≤ e.id
  ordered : Ordered s.history
  outside : ∀ e ∈ s.history, ¬ InsideDelegate (rangeEvents log s) e

section History
variable {log : EventLog} {s : State} {e : Event}

theorem mem_of_mem_filteredEvents {events : List Event} {ranges : List (Int × Int)} {currentIdx : Nat}
    (h : e ∈ filteredEvents events currentIdx ranges) : e ∈ events := by
  induction ranges generalizing currentIdx with
  | nil => exact List.mem_of_mem_drop h
  | cons r ranges ih =>
    rcases List.mem_append.mp h with h | h
    · exact List.mem_of_mem_drop (List.mem_filter.mp h).1
    · rcases List.mem_append.mp h with h | h
      · exact (List.mem_filter.mp h).1
      · exact ih h

/-- What is loaded comes from the range. -/
theorem mem_rangeEvents_of_mem_initHistory (h : e ∈ (initHistory log s).history) : e ∈ rangeEvents log s := by
  unfold initHistory at h
  split_ifs at h
  · exact nomatch h
  · exact h
  · exact mem_of_mem_filteredEvents h

/-- A history of events that the stream has and the filter lets in. -/
def FromStream (live : LiveSession) : Prop :=
  ∀ e ∈ live.state.history, e ∈ live.log.events ∧ agentHistoryIncludes e = true

theorem fromStream_start (state : Option State) (sessionId : String) (maxIterations : Int)
    (maxBudgetPerTask : Option Rat) (confirmationMode : Bool) :
    FromStream (LiveSession.start log state sessionId maxIterations maxBudgetPerTask confirmationMode) := by
  intro e he
  have hmem := EventLog.mem_searchEvents.mp (mem_rangeEvents_of_mem_initHistory he)
  exact ⟨hmem.1, hmem.2.2.2⟩

theorem mem_add {a : Event} (h : a ∈ log.events) : a ∈ (log.add e).events := List.mem_append_left _ h

theorem history_truncated (h : ¬ (s.history.length : Int) ≤ n) :
    (s.truncateMemoryToPoint n).history = Py.takeTo s.history n := by
  rw [State.truncateMemoryToPoint, if_neg h]

theorem mem_takeTo {a : Event} {n : Int} {events : List Event} (h : a ∈ Py.takeTo events n) : a ∈ events := by
  rw [← Py.takeTo_append_dropTo events n]
  exact List.mem_append_left _ h

theorem fromStream_step {live : LiveSession} (h : FromStream live) (t : LiveStep) : FromStream (live.step t) := by
  intro a ha
  cases t with
  | receive e =>
    have hadded : a ∈ (addHistory live.state { e with id := live.log.curId }).history := ha
    unfold addHistory at hadded
    split_ifs at hadded with hincludes
    · rcases List.mem_append.mp hadded with hmem | hmem
      · exact ⟨mem_add (h a hmem).1, (h a hmem).2⟩
      · obtain rfl := List.mem_singleton.mp hmem
        exact ⟨List.mem_append_right _ (List.mem_singleton_self _), hincludes⟩
    · exact ⟨mem_add (h a hadded).1, (h a hadded).2⟩
  | delegated e => exact ⟨mem_add (h a ha).1, (h a ha).2⟩
  | truncate n =>
    by_cases hn : (live.state.history.length : Int) ≤ n
    · have hsame : live.state.truncateMemoryToPoint n = live.state := if_pos hn
      exact h a (hsame ▸ ha)
    · have hkept : a ∈ (live.state.truncateMemoryToPoint n).history := ha
      rw [history_truncated hn] at hkept
      exact h a (mem_takeTo hkept)

theorem fromStream_run {live : LiveSession} (h : FromStream live) (steps : List LiveStep) :
    FromStream (steps.foldl LiveSession.step live) := by
  induction steps generalizing live with
  | nil => exact h
  | cons t steps ih => exact ih (fromStream_step h t)

end History

/-! ## After the recovery -/

section Recovered
variable {log : EventLog} {s : State}

/-- What the events that come in add to the history. -/
def added : EventLog → List Event → List Event
  | _, [] => []
  | log, e :: events =>
    if agentHistoryIncludes e then { e with id := log.curId } :: added (log.add e) events
    else added (log.add e) events

theorem added_eq_nil_iff (log : EventLog) (events : List Event) :
    added log events = [] ↔ ∀ e ∈ events, agentHistoryIncludes e = false := by
  induction events generalizing log with
  | nil => simp [added]
  | cons e events ih =>
    rw [added]
    split_ifs with h <;> simp [ih, h]

theorem le_id_of_mem_added {events : List Event} {a : Event} (h : a ∈ added log events) : log.curId ≤ a.id := by
  induction events generalizing log with
  | nil => exact nomatch h
  | cons e events ih =>
    have hlater : a ∈ added (log.add e) events → log.curId ≤ a.id := fun ha => by
      have hnext : log.curId + 1 ≤ a.id := ih ha
      omega
    rw [added] at h
    split_ifs at h
    · rcases List.mem_cons.mp h with rfl | h
      · exact le_rfl
      · exact hlater h
    · exact hlater h

theorem state_received (live : LiveSession) (events : List Event) :
    (events.foldl LiveSession.receive live).state =
      { live.state with history := live.state.history ++ added live.log events } := by
  induction events generalizing live with
  | nil => simp [added]
  | cons e events ih =>
    rw [List.foldl_cons, ih]
    by_cases h : agentHistoryIncludes e
    · have hstate : (live.receive e).state =
          { live.state with history := live.state.history ++ [{ e with id := live.log.curId }] } := if_pos h
      have hadded : added live.log (e :: events) = { e with id := live.log.curId } :: added (live.log.add e) events :=
        if_pos h
      rw [hstate, hadded, LiveSession.receive]
      simp
    · have hstate : (live.receive e).state = live.state := if_neg h
      have hadded : added live.log (e :: events) = added (live.log.add e) events := if_neg h
      rw [hstate, hadded, LiveSession.receive]

/-- The stream keeps its events, and the later ones take later ids. -/
theorem log_received (live : LiveSession) (events : List Event) :
    ∃ later, (events.foldl LiveSession.receive live).log.events = live.log.events ++ later ∧
      ∀ a ∈ later, live.log.curId ≤ a.id := by
  induction events generalizing live with
  | nil => exact ⟨[], by simp⟩
  | cons e events ih =>
    obtain ⟨later, hevents, hlater⟩ := ih (live.receive e)
    refine ⟨{ e with id := live.log.curId } :: later, ?_, fun a ha => ?_⟩
    · rw [List.foldl_cons, hevents]
      simp [LiveSession.receive, EventLog.add]
    · rcases List.mem_cons.mp ha with rfl | ha
      · exact le_rfl
      · have hnext : live.log.curId + 1 ≤ a.id := hlater a ha
        omega

/-- A range that ends among the old events has no new ones. -/
theorem rangeEvents_received (live : LiveSession) (events : List Event) (hend : 0 ≤ s.endId)
    (hold : s.endId < live.log.curId) :
    rangeEvents (events.foldl LiveSession.receive live).log s = rangeEvents live.log s := by
  obtain ⟨later, hevents, hlater⟩ := log_received live events
  have hrange : ∀ log, rangeEnd log s = s.endId := fun log => if_pos hend
  have hnone : later.filter (fun e => decide (rangeStart s ≤ e.id) && decide (e.id ≤ s.endId) &&
      agentHistoryIncludes e) = [] := by
    refine List.filter_eq_nil_iff.mpr fun a ha hin => ?_
    have hid := hlater a ha
    simp only [Bool.and_eq_true, decide_eq_true_eq] at hin
    omega
  rw [rangeEvents, rangeEvents, hrange, hrange, EventLog.searchEvents, EventLog.searchEvents, hevents,
    List.filter_append, hnone, List.append_nil]

/-- Saving and restoring keeps the range. -/
theorem rangeEvents_restored (sessionId : String) (maxIterations : Int) (maxBudgetPerTask : Option Rat)
    (confirmationMode : Bool) :
    rangeEvents log (setInitialState (some (State.restoreFromSession s.getstate)) sessionId maxIterations
      maxBudgetPerTask confirmationMode) = rangeEvents log s := by
  simp only [setInitialState]
  split_ifs with hstart
  · have hrange : rangeStart s = 0 := by
      rw [rangeStart_eq_max]
      exact max_eq_right (by have hle : s.startId ≤ -1 := hstart; omega)
    rw [rangeEvents, rangeEvents, hrange]
    rfl
  · rfl

/-- A selection of an ordered list in its order is a sublist. -/
theorem sublist_of_ordered {events kept : List Event} (hevents : Ordered events) (hkept : Ordered kept)
    (hmem : ∀ e ∈ kept, e ∈ events) : kept.Sublist events := by
  have hsub : kept.Subperm events := List.subperm_of_subset (hkept.imp fun h => fun heq => by
    rw [heq] at h
    exact lt_irrefl _ h) hmem
  obtain ⟨kept', hperm, hsublist⟩ := hsub
  have hordered : Ordered kept' := hevents.sublist hsublist
  have heq : kept' = kept := hperm.eq_of_pairwise
    (fun a b _ _ hab hba => absurd (hab.trans hba) (lt_irrefl _)) hordered hkept
  rw [← heq]
  exact hsublist

end Recovered

/-- Every event of the live history comes back, in the same order. -/
def Restored (live : LiveSession) (sessionId : String) (maxIterations : Int) (maxBudgetPerTask : Option Rat)
    (confirmationMode : Bool) : Prop :=
  live.state.history.Sublist
    (live.restore sessionId maxIterations maxBudgetPerTask confirmationMode).state.history

section
variable (log : EventLog) (saved : Option State) (sessionId : String) (maxIterations : Int)
  (maxBudgetPerTask : Option Rat) (confirmationMode : Bool)

/-- A controller's session after some steps. -/
def sessionAfter (steps : List LiveStep) : LiveSession :=
  steps.foldl LiveSession.step
    (LiveSession.start log saved sessionId maxIterations maxBudgetPerTask confirmationMode)

theorem fromStream_sessionAfter (steps : List LiveStep) :
    FromStream (sessionAfter log saved sessionId maxIterations maxBudgetPerTask confirmationMode steps) := by
  apply fromStream_run
  exact fromStream_start saved sessionId maxIterations maxBudgetPerTask confirmationMode

/-- What a cut session finds again, whatever it was before. -/
theorem restored_iff_of_cut {live cut : LiveSession} {recoveryPoint : Int} (events : List Event)
    (hlive : FromStream live) (hcut : live.step (.truncate recoveryPoint) = cut)
    (hshort : recoveryPoint < live.state.history.length) (hkept : cut.state.history ≠ [])
    (hnest : NoNestedDelegates (rangeEvents cut.log cut.state)) :
    Restored (events.foldl LiveSession.receive cut) sessionId maxIterations maxBudgetPerTask confirmationMode ↔
      (∀ e ∈ events, agentHistoryIncludes e = false) ∧ InRange cut.log cut.state := by
  have hsound : FromStream cut := hcut ▸ fromStream_step hlive (.truncate recoveryPoint)
  obtain ⟨last, hlast⟩ := Option.ne_none_iff_exists'.mp (mt List.getLast?_eq_none_iff.mp hkept)
  have hend : cut.state.endId = last.id := by
    have hn : ¬ (live.state.history.length : Int) ≤ recoveryPoint := not_le.mpr hshort
    have hstate : cut.state = live.state.truncateMemoryToPoint recoveryPoint := by rw [← hcut]; rfl
    rw [hstate, history_truncated hn] at hlast
    rw [hstate, State.truncateMemoryToPoint, if_neg hn]
    simp [hlast]
  have hbounds := cut.log.bounds last (hsound last (List.mem_of_getLast? hlast)).1
  have hrange := rangeEvents_received (s := cut.state) cut events (by omega) (by omega)
  generalize hfinal : events.foldl LiveSession.receive cut = final at hrange ⊢
  have hstate : final.state = { cut.state with history := cut.state.history ++ added cut.log events } := by
    rw [← hfinal, state_received]
  -- the new controller loads the range of the recovery
  have hloaded : rangeEvents final.log (setInitialState (some (State.restoreFromSession final.state.getstate))
      sessionId maxIterations maxBudgetPerTask confirmationMode) = rangeEvents cut.log cut.state := by
    rw [rangeEvents_restored, hstate, ← hrange]
    rfl
  have hcorrect : HistoryCorrect final.log (setInitialState (some (State.restoreFromSession final.state.getstate))
      sessionId maxIterations maxBudgetPerTask confirmationMode) := by
    rw [initHistory_correct_iff, hloaded]
    exact hnest
  obtain ⟨hordered, hmem⟩ := hcorrect
  rw [hloaded] at hmem
  have hin : ∀ e, e ∈ (final.restore sessionId maxIterations maxBudgetPerTask confirmationMode).state.history ↔
      e ∈ rangeEvents cut.log cut.state ∧ ¬ InsideDelegate (rangeEvents cut.log cut.state) e := hmem
  constructor
  · intro h
    have hsub : (cut.state.history ++ added cut.log events).Sublist
        (final.restore sessionId maxIterations maxBudgetPerTask confirmationMode).state.history := by
      rw [Restored, hstate] at h
      exact h
    have hkeptSub := (List.sublist_append_left ..).trans hsub
    refine ⟨(added_eq_nil_iff cut.log events).mp (List.eq_nil_iff_forall_not_mem.mpr fun a ha => ?_),
      fun e he => ?_, hordered.sublist hkeptSub, fun e he => ((hin e).mp (hkeptSub.mem he)).2⟩
    · have hrangeA := EventLog.mem_searchEvents.mp ((hin a).mp (hsub.mem (List.mem_append_right _ ha))).1
      have hlate := le_id_of_mem_added ha
      have hupper : a.id ≤ cut.state.endId := by
        have hle := hrangeA.2.2.1
        rwa [rangeEnd, if_pos (by omega)] at hle
      omega
    · have hle := (EventLog.mem_searchEvents.mp ((hin e).mp (hkeptSub.mem he)).1).2.1
      rw [rangeStart_eq_max] at hle
      exact (le_max_left ..).trans hle
  · rintro ⟨hnone, hstarted, hkeptOrdered, houtside⟩
    have hnil := (added_eq_nil_iff cut.log events).mpr hnone
    have hhistory : final.state.history = cut.state.history := by
      rw [hstate, hnil, List.append_nil]
    rw [Restored, hhistory]
    refine sublist_of_ordered hordered hkeptOrdered fun e he => (hin e).mpr ⟨?_, houtside e he⟩
    obtain ⟨hstored, hincludes⟩ := hsound e he
    refine EventLog.mem_searchEvents.mpr ⟨hstored, ?_, ?_, hincludes⟩
    · rw [rangeStart_eq_max]
      exact max_le (hstarted e he) (cut.log.bounds e hstored).1
    · rw [rangeEnd, if_pos (by omega), hend]
      rw [← List.dropLast_append_getLast? last hlast] at he hkeptOrdered
      rcases List.mem_append.mp he with he | he
      · exact ((List.pairwise_append.mp hkeptOrdered).2.2 e he last (List.mem_singleton_self last)).le
      · exact (congrArg Event.id (List.mem_singleton.mp he)).le

/-- After a recovery the history comes back whole exactly when nothing is added to it any more, and what it
kept lies in the range to load. -/
theorem restored_iff (steps : List LiveStep) (recoveryPoint : Int) (events : List Event) (cut : LiveSession)
    (hcut : (sessionAfter log saved sessionId maxIterations maxBudgetPerTask confirmationMode steps).step
      (.truncate recoveryPoint) = cut)
    (hshort : recoveryPoint <
      (sessionAfter log saved sessionId maxIterations maxBudgetPerTask confirmationMode steps).state.history.length)
    (hkept : cut.state.history ≠ []) (hnest : NoNestedDelegates (rangeEvents cut.log cut.state)) :
    Restored (events.foldl LiveSession.receive cut) sessionId maxIterations maxBudgetPerTask confirmationMode ↔
      (∀ e ∈ events, agentHistoryIncludes e = false) ∧ InRange cut.log cut.state :=
  restored_iff_of_cut sessionId maxIterations maxBudgetPerTask confirmationMode events
    (fromStream_sessionAfter log saved sessionId maxIterations maxBudgetPerTask confirmationMode steps) hcut hshort
    hkept hnest

end

def emptyLog : EventLog where
  events := []
  curId := 0
  ordered := List.Pairwise.nil
  bounds _ h := nomatch h
  curId_nonneg := le_rfl

def greeting (content : String) : Event := { body := .action (.message { content := content }), source := some .user }

def loopRecovered : Event :=
  { body := .observation (.loopDetection { content := "Loop recovery completed." }), source := some .environment }

/-- Two messages, and a recovery that keeps the first. -/
def recovered : LiveSession :=
  (sessionAfter emptyLog none "s" 10 none false [.receive (greeting "hi"), .receive (greeting "go on")]).step
    (.truncate 1)

theorem range_recovered : rangeEvents recovered.log recovered.state = [{ greeting "hi" with id := 0 }] := by
  decide +kernel

theorem noPair_recovered {a o : Event} (h : DelegatePair (rangeEvents recovered.log recovered.state) a o) : False := by
  have hlt := h.lt (rangeEvents_ordered recovered.log recovered.state)
  obtain ⟨ha, ho⟩ := h.mem
  rw [range_recovered] at ha ho
  rw [List.mem_singleton.mp ha, List.mem_singleton.mp ho] at hlt
  exact lt_irrefl _ hlt

theorem restored_recovered : Restored recovered "s" 10 none false := by
  refine (restored_iff emptyLog none "s" 10 none false [.receive (greeting "hi"), .receive (greeting "go on")] 1 []
    recovered rfl (by decide +kernel) (by decide +kernel) fun a o a' o' h _ => (noPair_recovered h).elim).mpr
    ⟨fun e he => (List.not_mem_nil he).elim, by decide +kernel, by decide +kernel, ?_⟩
  rintro e - ⟨a, o, h, -⟩
  exact noPair_recovered h

/-- The recovery announces itself, and the restored session does not find that. -/
theorem announced_not_restored : ¬ Restored (recovered.receive loopRecovered) "s" 10 none false := by
  unfold Restored
  decide +kernel

end OpenHands
