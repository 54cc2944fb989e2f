import Mathlib.Data.List.DropRight
import Mathlib.Data.List.Sort
import OpenHandsSWE.Lib.Assoc

/-! The working time of a conversation, recorded as its events arrive. -/

namespace OpenHands.WorkingTime

/-- An event, with its time in microseconds; an `AgentStateChangedObservation` has the state of the agent. -/
structure Event where
  id : Nat
  timestamp : Option Int
  agentState : Option String
deriving DecidableEq, Repr

/-- The files of the conversation by the ids of their events, and the seconds of its `ConversationWork`. -/
structure State where
  files : List (Nat × Event) := []
  seconds : Option Int := none
deriving DecidableEq, Repr

def calculateCurId (files : List (Nat × Event)) : Nat :=
  if files = [] then 0 else (files.map Prod.fst).foldl max 0 + 1

def searchEvents (files : List (Nat × Event)) : List Event :=
  (List.range (calculateCurId files)).filterMap fun index => Assoc.get? index files

/-- A change of the state, to running or to another. -/
structure Change where
  id : Nat
  timestamp : Int
  running : Bool
deriving DecidableEq, Repr

def Event.change? (event : Event) : Option Change :=
  match event.agentState, event.timestamp with
  | some agentState, some timestamp => some ⟨event.id, timestamp, agentState = "running"⟩
  | _, _ => none

/-- The loop, from the time on at which the agent has started to run. -/
def totalRunning : Option Int → List Change → Int
  | _, [] => 0
  | runningStart, c :: changes =>
    if c.running then totalRunning (some (runningStart.getD c.timestamp)) changes
    else
      match runningStart with
      | some start => c.timestamp - start + totalRunning none changes
      | none => totalRunning none changes

def updateActiveWorkingSeconds (s : State) : State :=
  { s with seconds := some (totalRunning none ((searchEvents s.files).filterMap Event.change?)) }

/-- The event makes the time be computed anew. -/
def Event.stops (event : Event) : Bool := event.agentState.any (· ≠ "running")

def processEvent (s : State) (event : Event) : State :=
  let s := { s with files := Assoc.set event.id event s.files }
  if event.stops then updateActiveWorkingSeconds s else s

/-! ## What is asked of the record -/

/-- The events of a conversation by their ids, with times that do not decrease. -/
structure Conversation where
  events : List Event
  ids : (events.map Event.id).Pairwise (· < ·)
  stamped : ∀ e ∈ events, e.timestamp ≠ none
  times : (events.map fun e => e.timestamp.getD 0).Pairwise (· ≤ ·)

def Conversation.changes (c : Conversation) : List Change := c.events.filterMap Event.change?

/-- The length of the periods in which the latest state is running. -/
def runningTime : List Change → Int
  | c :: d :: changes => (if c.running then d.timestamp - c.timestamp else 0) + runningTime (d :: changes)
  | _ => 0

/-- When the latest state is another than running, the record has the running time. -/
def RecordsRunningTime (c : Conversation) (arrivals : List Event) : Prop :=
  ∀ last ∈ c.changes.getLast?, last.running = false →
    (arrivals.foldl processEvent {}).seconds = some (runningTime c.changes)

/-- The events that have arrived when the time is computed last. -/
def arrivedInTime (arrivals : List Event) : List Event := arrivals.rdropWhile fun e => !e.stops

def inTime (arrivals : List Event) (change : Change) : Bool := change.id ∈ (arrivedInTime arrivals).map Event.id

/-- Where the agent starts to run, the event of that time or a later change at the same time has arrived
when the time is computed last. -/
def StartsArrive (changes : List Change) (inTime : Change → Bool) : Prop :=
  ∀ before start after, changes = before ++ start :: after → start.running →
    (∀ previous ∈ before.getLast?, previous.running = false) →
    ∃ change ∈ start :: after, inTime change ∧ change.timestamp = start.timestamp

/-! ## The total -/

section Total

variable {c d : Change} {changes : List Change} {s t : Int}

theorem totalRunning_running (runningStart : Option Int) (h : c.running = true) :
    totalRunning runningStart (c :: changes) = totalRunning (some (runningStart.getD c.timestamp)) changes := by
  cases runningStart <;> rw [totalRunning, if_pos h]

theorem totalRunning_stop_some (h : c.running = false) :
    totalRunning (some s) (c :: changes) = c.timestamp - s + totalRunning none changes := by
  rw [totalRunning, if_neg (by rw [h]; exact Bool.false_ne_true)]

theorem totalRunning_stop_none (h : c.running = false) : totalRunning none (c :: changes) = totalRunning none changes := by
  rw [totalRunning, if_neg (by rw [h]; exact Bool.false_ne_true)]

/-- The last change is not to running. -/
def Stopped (changes : List Change) : Prop := ∀ last ∈ changes.getLast?, last.running = false

theorem Stopped.tail (h : Stopped (c :: changes)) : Stopped changes := by
  intro last hlast
  apply h
  rw [Option.mem_def, List.getLast?_cons, Option.mem_def.mp hlast]
  rfl

theorem Stopped.ne_nil (h : Stopped (c :: changes)) (hc : c.running = true) : changes ≠ [] := by
  rintro rfl
  cases (h c rfl).symm.trans hc

/-- A period that goes on is split at any change. -/
theorem totalRunning_eq_runningTime (hstopped : Stopped changes) :
    totalRunning none changes = runningTime changes ∧
      ∀ s, ∀ c ∈ changes.head?, totalRunning (some s) changes = c.timestamp - s + runningTime changes := by
  induction changes with
  | nil => exact ⟨rfl, fun s c hc => by cases hc⟩
  | cons c changes ih =>
    obtain ⟨hnone, hsome⟩ := ih hstopped.tail
    have htail (h : c.running = false) : runningTime (c :: changes) = runningTime changes := by
      cases changes with
      | nil => rfl
      | cons d changes => rw [runningTime, if_neg (by rw [h]; exact Bool.false_ne_true), Int.zero_add]
    have hrun (h : c.running = true) (s : Int) :
        totalRunning (some s) changes = c.timestamp - s + runningTime (c :: changes) := by
      cases changes with
      | nil => exact absurd rfl (hstopped.ne_nil h)
      | cons d changes =>
        rw [hsome s d rfl, runningTime, if_pos h]
        omega
    cases h : c.running with
    | true =>
      refine ⟨?_, fun s e he => ?_⟩
      · rw [totalRunning_running none h, Option.getD_none, hrun h]
        omega
      · obtain rfl := Option.some.inj he
        rw [totalRunning_running _ h, Option.getD_some, hrun h]
    | false =>
      refine ⟨?_, fun s e he => ?_⟩
      · rw [totalRunning_stop_none h, hnone, htail h]
      · obtain rfl := Option.some.inj he
        rw [totalRunning_stop_some h, hnone, htail h]

end Total

/-! ## A total over some of the changes -/

section Filtered

variable {c : Change} {changes : List Change} {inTime : Change → Bool} {s t : Int}

/-- What is asked of the starts among changes that come after a change, to running or not. -/
def StartsArriveAfter (running : Bool) (changes : List Change) (inTime : Change → Bool) : Prop :=
  ∀ before start after, changes = before ++ start :: after → start.running →
    (before.getLast?.map Change.running).getD running = false →
    ∃ change ∈ start :: after, inTime change ∧ change.timestamp = start.timestamp

theorem startsArriveAfter_nil (running : Bool) : StartsArriveAfter running [] inTime := by
  intro before start after h
  simp at h

theorem startsArriveAfter_cons (running : Bool) : StartsArriveAfter running (c :: changes) inTime ↔
    (c.running → running = false → ∃ change ∈ c :: changes, inTime change ∧ change.timestamp = c.timestamp) ∧
      StartsArriveAfter c.running changes inTime := by
  constructor
  · intro h
    refine ⟨fun hc hrunning => h [] c changes rfl hc hrunning, fun before start after heq hstart hprevious => ?_⟩
    apply h (c :: before) start after (by rw [heq]; rfl) hstart
    rw [List.getLast?_cons]
    rw [← hprevious]
    cases before.getLast? <;> rfl
  · rintro ⟨hfirst, hrest⟩ before start after heq hstart hprevious
    cases before with
    | nil =>
      obtain ⟨rfl, rfl⟩ := List.cons.inj heq
      exact hfirst hstart hprevious
    | cons d before =>
      obtain ⟨rfl, hlater⟩ := List.cons.inj heq
      apply hrest before start after hlater hstart
      rw [List.getLast?_cons] at hprevious
      rw [← hprevious]
      cases before.getLast? <;> rfl

theorem startsArrive_iff : StartsArrive changes inTime ↔ StartsArriveAfter false changes inTime := by
  have hlast (before : List Change) : (∀ previous ∈ before.getLast?, previous.running = false) ↔
      (before.getLast?.map Change.running).getD false = false := by
    cases before.getLast? <;> simp
  simp only [StartsArrive, StartsArriveAfter, hlast]

variable (inTime)

/-- The totals over the changes in time and over all of them, when neither is in a period, when only the
latter is, and when both are. -/
structure Totals (changes : List Change) : Prop where
  between : totalRunning none (changes.filter inTime) ≤ totalRunning none changes ∧
    (totalRunning none (changes.filter inTime) = totalRunning none changes ↔ StartsArriveAfter false changes inTime)
  late : changes ≠ [] → ∀ s, (∀ c ∈ changes, s ≤ c.timestamp) →
    totalRunning none (changes.filter inTime) ≤ totalRunning (some s) changes ∧
    (totalRunning none (changes.filter inTime) = totalRunning (some s) changes ↔
      (∃ c ∈ changes, inTime c ∧ c.timestamp = s) ∧ StartsArriveAfter true changes inTime)
  within : changes ≠ [] → ∀ s t, s ≤ t →
    totalRunning (some t) (changes.filter inTime) ≤ totalRunning (some s) changes ∧
    (totalRunning (some t) (changes.filter inTime) = totalRunning (some s) changes ↔
      s = t ∧ StartsArriveAfter true changes inTime)

variable {inTime}

theorem totals_nil : Totals inTime [] where
  between := ⟨le_refl _, iff_of_true rfl (startsArriveAfter_nil false)⟩
  late h := absurd rfl h
  within h := absurd rfl h

/-- A change in time is the earliest, and stands for itself where no change is earlier. -/
theorem exists_at_iff (hin : inTime c = true) (hmono : ∀ d ∈ changes, c.timestamp ≤ d.timestamp) (hs : s ≤ c.timestamp) :
    (∃ d ∈ c :: changes, inTime d ∧ d.timestamp = s) ↔ s = c.timestamp := by
  constructor
  · rintro ⟨d, hd, -, rfl⟩
    rcases List.mem_cons.mp hd with rfl | hd
    · rfl
    · exact le_antisymm hs (hmono d hd)
  · exact fun hs => ⟨c, List.mem_cons_self, hin, hs.symm⟩

/-- A change to another state than running, which is in time. -/
theorem Totals.stop (h : Totals inTime changes) (hc : c.running = false) (hin : inTime c = true)
    (hmono : ∀ d ∈ changes, c.timestamp ≤ d.timestamp) : Totals inTime (c :: changes) := by
  obtain ⟨hle, heq⟩ := h.between
  have hfilter : (c :: changes).filter inTime = c :: changes.filter inTime := List.filter_cons_of_pos hin
  have hafter (running : Bool) :
      StartsArriveAfter running (c :: changes) inTime ↔ StartsArriveAfter false changes inTime := by
    rw [startsArriveAfter_cons, hc]
    exact and_iff_right fun hrunning => absurd hrunning Bool.false_ne_true
  constructor
  · rw [hfilter, totalRunning_stop_none hc, totalRunning_stop_none hc, hafter]
    exact h.between
  · intro _ s hs
    have hstart := hs c List.mem_cons_self
    have hexists := exists_at_iff hin hmono hstart
    rw [hfilter, totalRunning_stop_none hc, totalRunning_stop_some hc, hafter, hexists, ← heq]
    omega
  · intro _ s t hst
    rw [hfilter, totalRunning_stop_some hc, totalRunning_stop_some hc, hafter, ← heq]
    omega

/-- A change to running, in time or not. -/
theorem Totals.run (h : Totals inTime changes) (hc : c.running = true) (hne : changes ≠ [])
    (hmono : ∀ d ∈ changes, c.timestamp ≤ d.timestamp) : Totals inTime (c :: changes) := by
  have hafter : StartsArriveAfter true (c :: changes) inTime ↔ StartsArriveAfter true changes inTime := by
    rw [startsArriveAfter_cons, hc]
    exact and_iff_right fun _ hrunning => absurd hrunning.symm Bool.false_ne_true
  have hfirst : StartsArriveAfter false (c :: changes) inTime ↔
      (∃ d ∈ c :: changes, inTime d ∧ d.timestamp = c.timestamp) ∧ StartsArriveAfter true changes inTime := by
    rw [startsArriveAfter_cons, hc]
    exact and_congr_left fun _ => ⟨fun hstart => hstart rfl rfl, fun hstart _ _ => hstart⟩
  cases hin : inTime c with
  | true =>
    have hfilter : (c :: changes).filter inTime = c :: changes.filter inTime := List.filter_cons_of_pos hin
    have hhere : ∃ d ∈ c :: changes, inTime d ∧ d.timestamp = c.timestamp := ⟨c, List.mem_cons_self, hin, rfl⟩
    constructor
    · obtain ⟨hle, heq⟩ := h.within hne c.timestamp c.timestamp (le_refl _)
      rw [hfilter, totalRunning_running _ hc, totalRunning_running _ hc, Option.getD_none, hfirst, heq]
      exact ⟨hle, ⟨fun hiff => ⟨hhere, hiff.2⟩, fun hiff => ⟨rfl, hiff.2⟩⟩⟩
    · intro _ s hs
      obtain ⟨hle, heq⟩ := h.within hne s c.timestamp (hs c List.mem_cons_self)
      rw [hfilter, totalRunning_running _ hc, totalRunning_running _ hc, Option.getD_none, Option.getD_some, hafter,
        exists_at_iff hin hmono (hs c List.mem_cons_self)]
      exact ⟨hle, heq⟩
    · intro _ s t hst
      rw [hfilter, totalRunning_running _ hc, totalRunning_running _ hc, Option.getD_some, Option.getD_some, hafter]
      exact h.within hne s t hst
  | false =>
    have hfilter : (c :: changes).filter inTime = changes.filter inTime :=
      List.filter_cons_of_neg (by rw [hin]; exact Bool.false_ne_true)
    have hexists (s : Int) : (∃ d ∈ c :: changes, inTime d ∧ d.timestamp = s) ↔
        ∃ d ∈ changes, inTime d ∧ d.timestamp = s := by
      simp [hin]
    constructor
    · rw [hfilter, totalRunning_running _ hc, Option.getD_none, hfirst, hexists]
      exact h.late hne c.timestamp hmono
    · intro _ s hs
      rw [hfilter, totalRunning_running _ hc, Option.getD_some, hafter, hexists]
      exact h.late hne s fun d hd => hs d (List.mem_cons_of_mem c hd)
    · intro _ s t hst
      rw [hfilter, totalRunning_running _ hc, Option.getD_some, hafter]
      exact h.within hne s t hst

theorem totals (hstopped : Stopped changes) (hin : ∀ c ∈ changes, c.running = false → inTime c = true)
    (hmono : (changes.map Change.timestamp).Pairwise (· ≤ ·)) : Totals inTime changes := by
  induction changes with
  | nil => exact totals_nil
  | cons c changes ih =>
    obtain ⟨hfirst, hrest⟩ := List.pairwise_cons.mp hmono
    have hbelow (d : Change) (hd : d ∈ changes) : c.timestamp ≤ d.timestamp := hfirst _ (List.mem_map_of_mem hd)
    have htotals := ih hstopped.tail (fun d hd => hin d (List.mem_cons_of_mem c hd)) hrest
    cases hc : c.running with
    | true => exact htotals.run hc (hstopped.ne_nil hc) hbelow
    | false => exact htotals.stop hc (hin c List.mem_cons_self hc) hbelow

end Filtered

/-! ## What has arrived -/

section Arrivals

variable {c : Conversation} {arrivals : List Event} {e : Event} {index : Nat}

/-- Events with different ids, in any order. -/
theorem files_foldl (hids : (arrivals.map Event.id).Nodup) :
    (arrivals.foldl processEvent {}).files = arrivals.map fun e => (e.id, e) := by
  induction arrivals using List.reverseRecOn with
  | nil => rfl
  | append_singleton arrivals e ih =>
    rw [List.map_append, List.nodup_append] at hids
    obtain ⟨hbefore, -, hnew⟩ := hids
    have hfresh : e.id ∉ (arrivals.map fun e => (e.id, e)).map Prod.fst := by
      rw [List.map_map]
      exact fun hmem => hnew e.id hmem e.id (List.mem_singleton_self _) rfl
    have hfiles : (processEvent (arrivals.foldl processEvent {}) e).files =
        Assoc.set e.id e (arrivals.foldl processEvent {}).files := by
      unfold processEvent updateActiveWorkingSeconds
      split <;> rfl
    rw [List.foldl_append, List.foldl_cons, List.foldl_nil, hfiles, ih hbefore, Assoc.set_of_notMem _ hfresh,
      List.map_append]
    rfl

theorem get?_files (hids : (arrivals.map Event.id).Nodup) :
    Assoc.get? index (arrivals.map fun e => (e.id, e)) = some e ↔ e ∈ arrivals ∧ e.id = index := by
  have hkeys : ((arrivals.map fun e => (e.id, e)).map Prod.fst).Nodup := by
    rw [List.map_map]
    exact hids
  constructor
  · intro h
    obtain ⟨e', he', heq⟩ := List.mem_map.mp (Assoc.mem_of_get? h)
    obtain ⟨rfl, rfl⟩ := Prod.mk.inj heq
    exact ⟨he', rfl⟩
  · rintro ⟨he, rfl⟩
    exact Assoc.get?_of_mem hkeys (List.mem_map_of_mem he)

theorem le_foldl_max {ids : List Nat} {start id : Nat} (h : id ∈ ids ∨ id ≤ start) : id ≤ ids.foldl max start := by
  induction ids generalizing start with
  | nil => exact h.resolve_left (List.not_mem_nil)
  | cons first ids ih =>
    rw [List.foldl_cons]
    apply ih
    rcases h with h | h
    · rcases List.mem_cons.mp h with rfl | h
      · exact Or.inr (le_max_right _ _)
      · exact Or.inl h
    · exact Or.inr (h.trans (le_max_left _ _))

theorem mem_searchEvents (hids : (arrivals.map Event.id).Nodup) :
    e ∈ searchEvents (arrivals.map fun e => (e.id, e)) ↔ e ∈ arrivals := by
  rw [searchEvents, List.mem_filterMap]
  constructor
  · rintro ⟨index, -, h⟩
    exact ((get?_files hids).mp h).1
  · intro he
    refine ⟨e.id, List.mem_range.mpr ?_, (get?_files hids).mpr ⟨he, rfl⟩⟩
    have hid : e.id ∈ (arrivals.map fun e => (e.id, e)).map Prod.fst := by
      rw [List.map_map]
      exact List.mem_map_of_mem he
    rw [calculateCurId, if_neg]
    · exact Nat.lt_succ_of_le (le_foldl_max (Or.inl hid))
    · intro hnil
      rw [hnil] at hid
      cases hid

/-- The files are read in the order of the ids, whatever the order in which they were written. -/
theorem searchEvents_eq (hids : (arrivals.map Event.id).Nodup) (hsub : ∀ e ∈ arrivals, e ∈ c.events) :
    searchEvents (arrivals.map fun e => (e.id, e)) = c.events.filter fun e => e.id ∈ arrivals.map Event.id := by
  let before (d e : Event) : Prop := d.id < e.id
  have hirrefl : Std.Irrefl before := ⟨fun d => lt_irrefl d.id⟩
  have hanti : Std.Antisymm before := ⟨fun d e hde hed => absurd hde (lt_asymm hed)⟩
  have hevents : c.events.Pairwise before := List.pairwise_map.mp c.ids
  apply List.Pairwise.eq_of_mem_iff (r := before)
  · rw [searchEvents, List.pairwise_filterMap]
    refine List.pairwise_lt_range.imp fun hlt d hd e he => ?_
    have hd' := ((get?_files hids).mp hd).2
    have he' := ((get?_files hids).mp he).2
    change d.id < e.id
    omega
  · exact hevents.filter _
  · intro e
    rw [mem_searchEvents hids, List.mem_filter]
    constructor
    · exact fun he => ⟨hsub e he, decide_eq_true (List.mem_map_of_mem he)⟩
    · rintro ⟨he, hid⟩
      obtain ⟨d, hd, heq⟩ := List.mem_map.mp (of_decide_eq_true hid)
      have hnodup : (c.events.map Event.id).Nodup := c.ids.imp fun h => ne_of_lt h
      rw [← List.inj_on_of_nodup_map hnodup (hsub d hd) he heq]
      exact hd

theorem mem_arrivedInTime (he : e ∈ arrivals) (hstops : e.stops = true) : e ∈ arrivedInTime arrivals := by
  unfold arrivedInTime
  induction arrivals using List.reverseRecOn with
  | nil => cases he
  | append_singleton arrivals last ih =>
    rw [List.rdropWhile_concat]
    split_ifs with hlast
    · apply ih
      rcases List.mem_append.mp he with he | he
      · exact he
      · rw [List.mem_singleton.mp he] at hstops
        rw [hstops] at hlast
        cases hlast
    · exact he

theorem processEvent_seconds_stops (s : State) (h : e.stops = true) : (processEvent s e).seconds =
    some (totalRunning none ((searchEvents (processEvent s e).files).filterMap Event.change?)) := by
  unfold processEvent
  rw [if_pos h]
  rfl

theorem processEvent_seconds_other (s : State) (h : e.stops = false) : (processEvent s e).seconds = s.seconds := by
  unfold processEvent
  rw [if_neg (by rw [h]; exact Bool.false_ne_true)]

/-- The record is of the events that had arrived when the last event came that stops the agent. -/
theorem seconds_foldl (hids : (arrivals.map Event.id).Nodup) (hstops : ∃ e ∈ arrivals, e.stops = true) :
    (arrivals.foldl processEvent {}).seconds = some (totalRunning none
      ((searchEvents ((arrivedInTime arrivals).map fun e => (e.id, e))).filterMap Event.change?)) := by
  induction arrivals using List.reverseRecOn with
  | nil =>
    obtain ⟨e, he, -⟩ := hstops
    cases he
  | append_singleton arrivals last ih =>
    have hfiles := files_foldl hids
    rw [List.foldl_append, List.foldl_cons, List.foldl_nil] at hfiles ⊢
    rw [arrivedInTime, List.rdropWhile_concat]
    cases hlast : last.stops with
    | true =>
      rw [if_neg (by simp), ← hfiles]
      exact processEvent_seconds_stops _ hlast
    | false =>
      have hbefore : ∃ e ∈ arrivals, e.stops = true := by
        obtain ⟨e, he, hstop⟩ := hstops
        rcases List.mem_append.mp he with he | he
        · exact ⟨e, he, hstop⟩
        · rw [List.mem_singleton.mp he, hlast] at hstop
          cases hstop
      rw [List.map_append, List.nodup_append] at hids
      rw [if_pos (by simp), processEvent_seconds_other _ hlast]
      exact ih hids.1 hbefore

end Arrivals

section Changes

variable {c : Conversation} {e : Event} {change : Change}

theorem change?_spec (h : e.change? = some change) : change.id = e.id ∧ e.timestamp = some change.timestamp ∧
    e.stops = !change.running := by
  unfold Event.change? at h
  split at h
  next agentState timestamp hstate htime =>
    obtain rfl := Option.some.inj h
    refine ⟨rfl, htime, ?_⟩
    rw [Event.stops, hstate]
    simp
  next => cases h

/-- The changes among the events with some of the ids. -/
theorem filterMap_filter_ids (events : List Event) (ids : List Nat) :
    (events.filter fun e => e.id ∈ ids).filterMap Event.change? =
      (events.filterMap Event.change?).filter fun change => change.id ∈ ids := by
  induction events with
  | nil => rfl
  | cons e events ih =>
    cases hchange : e.change? with
    | none =>
      rw [List.filterMap_cons_none hchange, ← ih]
      by_cases hid : e.id ∈ ids
      · rw [List.filter_cons_of_pos (by simpa using hid), List.filterMap_cons_none hchange]
      · rw [List.filter_cons_of_neg (by simpa using hid)]
    | some change =>
      have hsame := (change?_spec hchange).1
      rw [List.filterMap_cons_some hchange]
      by_cases hid : e.id ∈ ids
      · rw [List.filter_cons_of_pos (by simpa using hid), List.filterMap_cons_some hchange,
          List.filter_cons_of_pos (by simpa [hsame] using hid), ih]
      · rw [List.filter_cons_of_neg (by simpa using hid), List.filter_cons_of_neg (by simpa [hsame] using hid), ih]

theorem changes_mono (c : Conversation) : (c.changes.map Change.timestamp).Pairwise (· ≤ ·) := by
  have htimes := List.pairwise_map.mp c.times
  rw [List.pairwise_map, Conversation.changes, List.pairwise_filterMap]
  refine htimes.imp fun hle a ha b hb => ?_
  rw [(change?_spec ha).2.1, (change?_spec hb).2.1] at hle
  exact hle

end Changes

/-- A conversation, and an order in which its events arrive. -/
structure Delivery where
  conversation : Conversation
  arrivals : List Event
  perm : arrivals.Perm conversation.events

/-- Unless the agent runs at last, its starts arrive in time. -/
def StartsInTime (d : Delivery) : Prop :=
  Stopped d.conversation.changes → StartsArrive d.conversation.changes (inTime d.arrivals)

namespace Delivery

variable (d : Delivery)

theorem nodup_ids : (d.arrivals.map Event.id).Nodup := by
  have hevents : (d.conversation.events.map Event.id).Nodup := d.conversation.ids.imp fun h => ne_of_lt h
  exact (d.perm.map Event.id).nodup_iff.mpr hevents

theorem prefix_arrivedInTime : arrivedInTime d.arrivals <+: d.arrivals := List.rdropWhile_prefix _ _

/-- The changes that the last computation sees. -/
theorem changes_seen :
    (searchEvents ((arrivedInTime d.arrivals).map fun e => (e.id, e))).filterMap Event.change? =
      d.conversation.changes.filter (inTime d.arrivals) := by
  have hids : ((arrivedInTime d.arrivals).map Event.id).Nodup :=
    d.nodup_ids.sublist (d.prefix_arrivedInTime.sublist.map Event.id)
  have hsub : ∀ e ∈ arrivedInTime d.arrivals, e ∈ d.conversation.events := fun e he =>
    d.perm.subset (d.prefix_arrivedInTime.subset he)
  rw [searchEvents_eq hids hsub, filterMap_filter_ids]
  rfl

/-- Every change that stops the agent is in time. -/
theorem inTime_of_not_running {change : Change} (hmem : change ∈ d.conversation.changes)
    (hchange : change.running = false) : inTime d.arrivals change = true ∧ ∃ e ∈ d.arrivals, e.stops = true := by
  obtain ⟨e, he, hspec⟩ := List.mem_filterMap.mp hmem
  obtain ⟨hid, -, hstops⟩ := change?_spec hspec
  rw [hchange] at hstops
  have harrived : e ∈ d.arrivals := d.perm.symm.subset he
  refine ⟨decide_eq_true ?_, e, harrived, hstops⟩
  rw [hid]
  exact List.mem_map_of_mem (mem_arrivedInTime harrived hstops)

end Delivery

theorem recordsRunningTime_iff (d : Delivery) :
    RecordsRunningTime d.conversation d.arrivals ↔ StartsInTime d := by
  rw [RecordsRunningTime, StartsInTime]
  cases hlast : d.conversation.changes.getLast? with
  | none =>
    have hnil : d.conversation.changes = [] := List.getLast?_eq_none_iff.mp hlast
    refine iff_of_true (fun last h => by cases h) fun _ => ?_
    rw [startsArrive_iff, hnil]
    exact startsArriveAfter_nil false
  | some last =>
    cases hrunning : last.running with
    | true =>
      refine iff_of_true (fun other hother hstop => ?_) fun hstopped => ?_
      · rw [← Option.some.inj hother, hrunning] at hstop
        cases hstop
      · cases hrunning.symm.trans (hstopped last hlast)
    | false =>
      have hstopped : Stopped d.conversation.changes := by
        intro other hother
        rw [hlast] at hother
        rw [← Option.some.inj hother]
        exact hrunning
      have htotals := totals hstopped (fun c hc hstop => (d.inTime_of_not_running hc hstop).1)
        (changes_mono d.conversation)
      have hsome := (d.inTime_of_not_running (List.mem_of_getLast? hlast) hrunning).2
      rw [seconds_foldl d.nodup_ids hsome, d.changes_seen, Option.some_inj,
        ← (totalRunning_eq_runningTime hstopped).1, htotals.between.2, ← startsArrive_iff]
      exact ⟨fun h _ => h last rfl hrunning, fun h _ _ _ => h hstopped⟩

/-- The agent runs for ten seconds, and the event of its start comes last. -/
def lateStart : Delivery where
  conversation := {
    events := [⟨0, some 0, some "running"⟩, ⟨1, some 10000000, some "finished"⟩]
    ids := by decide
    stamped := by decide
    times := by decide }
  arrivals := [⟨1, some 10000000, some "finished"⟩, ⟨0, some 0, some "running"⟩]
  perm := List.Perm.swap _ _ _

theorem not_recordsRunningTime : ¬ RecordsRunningTime lateStart.conversation lateStart.arrivals := by
  intro h
  have hseconds := h ⟨1, 10000000, false⟩ (by decide) rfl
  revert hseconds
  decide

end OpenHands.WorkingTime
