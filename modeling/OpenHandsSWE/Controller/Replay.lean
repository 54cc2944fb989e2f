import OpenHandsSWE.Events.Event
import OpenHandsSWE.Lib.Python

/-! The replay of a trajectory: its actions are handed to the controller one after the other. -/

namespace OpenHands

/-- The events to replay, whether there are any, and how far the replay is. -/
structure ReplayManager where
  replayEvents : List Event
  replayMode : Bool
  replayIndex : Nat

namespace ReplayManager

def isAction (e : Event) : Bool := e.body matches .action _

/-- Events of the environment and `NullObservation`s are not replayed. -/
def ignored (e : Event) : Bool :=
  e.source = some .environment || e.body matches .observation (.null _)

def waits (e : Event) : Bool :=
  match e.body with
  | .action (.message a) => a.waitForResponse
  | _ => false

def withoutWait (e : Event) : Event :=
  match e.body with
  | .action (.message a) => { e with body := .action (.message { a with waitForResponse := false }) }
  | _ => e

/-- No message but the last event waits for a response. -/
def overrideWaits : List Event → List Event
  | [] => []
  | [e] => [e]
  | e :: f :: events => (if waits e then withoutWait e else e) :: overrideWaits (f :: events)

def create (events : Option (List Event)) : ReplayManager :=
  let replayEvents := overrideWaits ((events.getD []).filter fun e => !ignored e)
  { replayEvents := replayEvents, replayMode := !replayEvents.isEmpty, replayIndex := 0 }

def replayable (m : ReplayManager) : Bool := (m.replayEvents[m.replayIndex]?).any isAction

/-- Where the next action is, from an index and the events from there on. -/
def nextAction : List Event → Nat → Nat
  | [], i => i
  | e :: events, i => if isAction e then i else nextAction events (i + 1)

def toNextAction (m : ReplayManager) : ReplayManager :=
  { m with replayIndex := nextAction (m.replayEvents.drop m.replayIndex) m.replayIndex }

/-- The answer, and the index moved to the next action. -/
def shouldReplay (m : ReplayManager) : Bool × ReplayManager :=
  if m.replayMode then (m.toNextAction.replayable, m.toNextAction) else (false, m)

def step (m : ReplayManager) : Except PyError (Event × ReplayManager) :=
  match m.replayEvents[m.replayIndex]? with
  | none => .error .indexError
  | some e =>
    if isAction e then .ok (e, { m with replayIndex := m.replayIndex + 1 }) else .error (.assertionError "")

/-! ## A replay session -/

/-- `should_replay` once and up to `n` times more, as long as it is true. -/
def ask : Nat → ReplayManager → Bool × ReplayManager
  | 0, m => m.shouldReplay
  | n + 1, m =>
    match m.shouldReplay with
    | (true, m) => ask n m
    | (false, m) => (false, m)

/-- Before each step `should_replay` is called some times more than once; without fuel there is no end. -/
def play (asks : Nat → Nat) : Nat → Nat → ReplayManager → Option (Except PyError (List Event × ReplayManager))
  | 0, _, _ => none
  | fuel + 1, turn, m =>
    match ask (asks turn) m with
    | (false, m) => some (.ok ([], m))
    | (true, m) =>
      match m.step with
      | .error err => some (.error err)
      | .ok (e, m) => (play asks fuel (turn + 1) m).map fun r => r.map fun p => (e :: p.1, p.2)

/-! ## What is left to replay -/

section Rest

variable {m m' : ReplayManager} {e : Event} {events : List Event}

def rest (m : ReplayManager) : List Event := m.replayEvents.drop m.replayIndex

theorem nextAction_eq (events : List Event) (i : Nat) :
    nextAction events i = i + (events.takeWhile fun e => !isAction e).length := by
  induction events generalizing i with
  | nil => rfl
  | cons e events ih =>
    rw [nextAction]
    by_cases he : isAction e = true
    · rw [if_pos he, List.takeWhile_cons_of_neg (by simp [he])]
      rfl
    · rw [if_neg he, List.takeWhile_cons_of_pos (by simp [he]), ih, List.length_cons]
      omega

theorem toNextAction_rest (m : ReplayManager) : m.toNextAction.rest = m.rest.dropWhile fun e => !isAction e := by
  have hindex : m.toNextAction.replayIndex = m.replayIndex + (m.rest.takeWhile fun e => !isAction e).length :=
    nextAction_eq m.rest m.replayIndex
  have hevents : m.toNextAction.replayEvents = m.replayEvents := rfl
  rw [rest, hindex, hevents, ← List.drop_drop]
  conv_lhs => rw [← rest, ← List.takeWhile_append_dropWhile (p := fun e => !isAction e) (l := m.rest)]
  rw [List.takeWhile_append_dropWhile]
  have hdrop := congrArg (fun es => es.drop (m.rest.takeWhile fun e => !isAction e).length)
    (List.takeWhile_append_dropWhile (p := fun e => !isAction e) (l := m.rest))
  rw [List.drop_left] at hdrop
  exact hdrop.symm

theorem replayable_eq (m : ReplayManager) : m.replayable = m.rest.head?.any isAction := by
  rw [replayable, rest, List.head?_drop]

/-- What is left begins with the next action, or is over. -/
theorem toNextAction_cases (m : ReplayManager) :
    (m.toNextAction.rest = [] ∧ m.rest.filter isAction = []) ∨
      ∃ e events, m.toNextAction.rest = e :: events ∧ isAction e = true ∧
        m.rest.filter isAction = e :: events.filter isAction ∧ events.length < m.rest.length := by
  rw [toNextAction_rest]
  induction m.rest with
  | nil => exact .inl ⟨rfl, rfl⟩
  | cons e events ih =>
    by_cases he : isAction e = true
    · refine .inr ⟨e, events, ?_, he, List.filter_cons_of_pos he, Nat.lt_succ_self _⟩
      rw [List.dropWhile_cons_of_neg (by simp [he])]
    · rw [List.dropWhile_cons_of_pos (by simp [he]), List.filter_cons_of_neg he]
      rcases ih with h | ⟨f, later, hrest, hf, hfilter, hlength⟩
      · exact .inl h
      · exact .inr ⟨f, later, hrest, hf, hfilter, Nat.lt_succ_of_lt hlength⟩

theorem toNextAction_again (m : ReplayManager) : m.toNextAction.toNextAction = m.toNextAction := by
  have hindex : m.toNextAction.toNextAction.replayIndex = m.toNextAction.replayIndex := by
    have hnext : m.toNextAction.toNextAction.replayIndex = nextAction m.toNextAction.rest m.toNextAction.replayIndex := rfl
    rcases toNextAction_cases m with ⟨hrest, -⟩ | ⟨e, events, hrest, he, -⟩
    · rw [hnext, hrest]
      rfl
    · rw [hnext, hrest]
      exact if_pos he
  exact congrArg (fun i => { m with replayIndex := i }) hindex

/-- Asking once more changes neither the answer nor the manager. -/
theorem ask_eq (n : Nat) (m : ReplayManager) : ask n m = m.shouldReplay := by
  induction n generalizing m with
  | zero => rfl
  | succ n ih =>
    rw [ask]
    by_cases hmode : m.replayMode = true
    · have hanswer : m.shouldReplay = (m.toNextAction.replayable, m.toNextAction) := if_pos hmode
      have hagain : m.toNextAction.shouldReplay = (m.toNextAction.replayable, m.toNextAction) := by
        rw [shouldReplay, toNextAction_again]
        exact if_pos hmode
      rw [hanswer]
      cases hreplayable : m.toNextAction.replayable with
      | true =>
        dsimp only
        rw [ih, hagain, hreplayable]
      | false => rfl
    · have hanswer : m.shouldReplay = (false, m) := if_neg hmode
      rw [hanswer]

theorem step_of_rest (hrest : m.rest = e :: events) (he : isAction e = true) :
    ∃ m', m.step = .ok (e, m') ∧ m'.rest = events ∧ m'.replayMode = m.replayMode := by
  have hget : m.replayEvents[m.replayIndex]? = some e := by
    have hhead := congrArg List.head? hrest
    rwa [rest, List.head?_drop] at hhead
  refine ⟨{ m with replayIndex := m.replayIndex + 1 }, ?_, ?_, rfl⟩
  · rw [step, hget]
    exact if_pos he
  · have htail := congrArg List.tail hrest
    rwa [rest, List.tail_drop] at htail

/-- Nothing is left. -/
def Over (m : ReplayManager) : Prop := m.replayMode = true → m.rest = []

theorem Over.shouldReplay (h : m.Over) : m.shouldReplay.1 = false := by
  by_cases hmode : m.replayMode = true
  · have hanswer : m.shouldReplay.1 = m.toNextAction.replayable := by rw [ReplayManager.shouldReplay, if_pos hmode]
    rw [hanswer, replayable_eq, toNextAction_rest, h hmode]
    rfl
  · rw [ReplayManager.shouldReplay, if_neg hmode]

theorem Over.next (h : m.Over) : m.shouldReplay.2.Over := by
  intro hmode'
  by_cases hmode : m.replayMode = true
  · rw [ReplayManager.shouldReplay, if_pos hmode, toNextAction_rest, h hmode]
    rfl
  · rw [ReplayManager.shouldReplay, if_neg hmode] at hmode'
    exact absurd hmode' hmode

/-- The whole session plays the actions that are left. -/
theorem play_rest (asks : Nat → Nat) {fuel : Nat} (turn : Nat) (hmode : m.replayMode = true)
    (hfuel : m.rest.length < fuel) :
    ∃ m', play asks fuel turn m = some (.ok (m.rest.filter isAction, m')) ∧ m'.Over := by
  induction fuel generalizing turn m with
  | zero => exact absurd hfuel (Nat.not_lt_zero _)
  | succ fuel ih =>
    have hanswer : m.shouldReplay = (m.toNextAction.replayable, m.toNextAction) := if_pos hmode
    rw [play, ask_eq, hanswer, replayable_eq]
    rcases toNextAction_cases m with ⟨hrest, hfilter⟩ | ⟨e, events, hrest, he, hfilter, hlength⟩
    · rw [hrest, hfilter]
      exact ⟨m.toNextAction, rfl, fun _ => hrest⟩
    · obtain ⟨next, hstep, hnext, hmode'⟩ := step_of_rest hrest he
      obtain ⟨m', hplay, hover⟩ := ih (turn + 1) (hmode'.trans hmode) (by rw [hnext]; omega)
      refine ⟨m', ?_, hover⟩
      rw [hrest, hfilter, List.head?_cons, Option.any_some, he]
      dsimp only
      rw [hstep]
      dsimp only
      rw [hplay, hnext]
      rfl

end Rest

/-! ## The messages that wait -/

section Waits

theorem isAction_withoutWait (e : Event) : isAction (withoutWait e) = isAction e := by
  unfold withoutWait
  split
  next a hbody => rw [isAction, isAction, hbody]
  next => rfl

theorem waits_withoutWait (e : Event) : waits (withoutWait e) = false := by
  unfold withoutWait
  split
  next a hbody => rfl
  next hbody =>
    unfold waits
    split
    next a ha => exact absurd ha (hbody a)
    next => rfl

/-- The same event, but for a wait that is left out. -/
def SameButWait (played recorded : Event) : Prop := played = recorded ∨ played = withoutWait recorded

theorem overrideWaits_same (events : List Event) : List.Forall₂ SameButWait (overrideWaits events) events := by
  induction events with
  | nil => exact .nil
  | cons e events ih =>
    cases events with
    | nil => exact .cons (.inl rfl) .nil
    | cons f events =>
      refine .cons ?_ ih
      split_ifs
      · exact .inr rfl
      · exact .inl rfl

theorem filter_same {played recorded : List Event} (h : List.Forall₂ SameButWait played recorded) :
    List.Forall₂ SameButWait (played.filter isAction) (recorded.filter isAction) := by
  induction h with
  | nil => exact .nil
  | @cons p r played recorded hsame _ ih =>
    have haction : isAction p = isAction r := by
      rcases hsame with rfl | rfl
      · rfl
      · exact isAction_withoutWait r
    rw [List.filter_cons, List.filter_cons, haction]
    split_ifs
    · exact .cons hsame ih
    · exact ih

/-- Only the last of the events may still wait. -/
theorem waits_last {events before after : List Event} {e : Event} (h : overrideWaits events = before ++ e :: after)
    (hwaits : waits e = true) : after = [] ∧ events.getLast? = some e := by
  induction events generalizing before with
  | nil => cases before <;> cases h
  | cons f events ih =>
    cases events with
    | nil =>
      cases before with
      | nil =>
        obtain ⟨rfl, rfl⟩ := List.cons.inj h
        exact ⟨rfl, rfl⟩
      | cons b before => cases before <;> cases (List.cons.inj h).2
    | cons g events =>
      cases before with
      | nil =>
        obtain ⟨hhead, -⟩ := List.cons.inj h
        rw [← hhead] at hwaits
        split_ifs at hwaits with hf
        · exact absurd hwaits (by rw [waits_withoutWait]; exact Bool.false_ne_true)
        · exact absurd hwaits hf
      | cons b before => exact ih (List.cons.inj h).2

/-- What a session that is over has played. -/
structure Replayed (events played : List Event) (m : ReplayManager) : Prop where
  actions : List.Forall₂ SameButWait played
    (events.filter fun e => isAction e && e.source ≠ some EventSource.environment)
  later : ∀ n, ((fun m => m.shouldReplay.2)^[n] m).shouldReplay.1 = false
  waits : ∀ before e after, played = before ++ e :: after → waits e = true →
    after = [] ∧ (events.filter fun e => !ignored e).getLast? = some e

theorem filter_kept (events : List Event) : (events.filter fun e => !ignored e).filter isAction =
    events.filter fun e => isAction e && e.source ≠ some EventSource.environment := by
  rw [List.filter_filter]
  refine List.filter_congr fun e _ => ?_
  unfold ignored isAction
  cases e.body with
  | action a => by_cases hsource : e.source = some .environment <;> simp [hsource]
  | observation o => rfl
  | plain => rfl

theorem Over.later {m : ReplayManager} (h : m.Over) (n : Nat) :
    ((fun m : ReplayManager => m.shouldReplay.2)^[n] m).shouldReplay.1 = false := by
  induction n generalizing m with
  | zero => exact h.shouldReplay
  | succ n ih => exact ih h.next

/-- Each action of the trajectory is played once and in order, however often it is asked whether to replay. -/
theorem play_create (events : List Event) (asks : Nat → Nat) (more : Nat) :
    ∃ played m, play asks (events.length + more + 1) 0 (create (some events)) = some (.ok (played, m)) ∧
      Replayed events played m := by
  have hrest : (create (some events)).rest = overrideWaits (events.filter fun e => !ignored e) := rfl
  have hsame := overrideWaits_same (events.filter fun e => !ignored e)
  have hactions := filter_same hsame
  rw [filter_kept] at hactions
  have hwaits : ∀ before e after, (overrideWaits (events.filter fun e => !ignored e)).filter isAction = before ++ e :: after →
      waits e = true → after = [] ∧ (events.filter fun e => !ignored e).getLast? = some e := by
    intro before e after hplayed hwait
    obtain ⟨front, back, hsplit, -, hback⟩ := List.filter_eq_append_iff.mp hplayed
    obtain ⟨skipped, later, rfl, -, -, hlater⟩ := List.filter_eq_cons_iff.mp hback
    rw [← List.append_assoc] at hsplit
    obtain ⟨rfl, hlast⟩ := waits_last hsplit hwait
    exact ⟨hlater.symm, hlast⟩
  by_cases hmode : (create (some events)).replayMode = true
  · have hlength : (create (some events)).rest.length < events.length + more + 1 := by
      have hkept := List.length_filter_le (fun e => !ignored e) events
      rw [hrest, hsame.length_eq]
      omega
    obtain ⟨m, hplay, hover⟩ := play_rest asks 0 hmode hlength
    exact ⟨_, m, hplay, hactions, hover.later, hwaits⟩
  · -- nothing is kept, so nothing is replayed
    have hover : (create (some events)).Over := fun h => absurd h hmode
    have hnil : overrideWaits (events.filter fun e => !ignored e) = [] := by
      have hempty : (!(overrideWaits (events.filter fun e => !ignored e)).isEmpty) ≠ true := hmode
      simpa using hempty
    rw [hnil] at hactions
    refine ⟨[], create (some events), ?_, hactions, hover.later, fun before e after h => ?_⟩
    · rw [play, ask_eq, shouldReplay, if_neg hmode]
    · cases before <;> cases h

end Waits

end ReplayManager

end OpenHands
