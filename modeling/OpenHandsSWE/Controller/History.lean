import OpenHandsSWE.Controller.StateTracker

/-! What the history loaded from the stream is: the events outside every finished delegate, as
long as no delegate ran inside another; and what closing leaves. -/

namespace OpenHands

namespace StateTracker

/-! ## The loop over the delegate ranges -/

theorem drop_findIdx {events : List Event} (h : Ordered events) (n : Int) :
    events.drop (events.findIdx fun e => decide (n < e.id)) =
      events.filter fun e => decide (n < e.id) := by
  induction events with
  | nil => rfl
  | cons e events ih =>
    rw [Ordered, List.pairwise_cons] at h
    rw [List.findIdx_cons, List.filter_cons]
    by_cases hn : n < e.id
    · have hall : events.filter (fun e => decide (n < e.id)) = events :=
        List.filter_eq_self.mpr fun a ha => by
          have := h.1 a ha
          simp only [decide_eq_true_eq]
          omega
      simp [hn, hall]
    · simpa [hn] using ih h.2

/-- Ranges one after the other, the first of them after `last`. -/
def Sequential : Int → List (Int × Int) → Prop
  | _, [] => True
  | last, r :: ranges => last < r.1 ∧ r.1 < r.2 ∧ Sequential r.2 ranges

theorem sequential_of_pairwise {last : Int} {ranges : List (Int × Int)}
    (h : ranges.Pairwise fun p q => p.2 < q.1) (hr : ∀ r ∈ ranges, last < r.1 ∧ r.1 < r.2) :
    Sequential last ranges := by
  induction ranges generalizing last with
  | nil => trivial
  | cons r ranges ih =>
    rw [List.pairwise_cons] at h
    obtain ⟨h1, h2⟩ := hr r (List.mem_cons_self ..)
    exact ⟨h1, h2, ih h.2 fun q hq => ⟨h.1 q hq, (hr q (List.mem_cons_of_mem _ hq)).2⟩⟩

def inside (ranges : List (Int × Int)) (n : Int) : Bool :=
  ranges.any fun r => decide (r.1 < n) && decide (n < r.2)

theorem Sequential.not_inside {last n : Int} {ranges : List (Int × Int)}
    (h : Sequential last ranges) (hn : n ≤ last) : inside ranges n = false := by
  induction ranges generalizing last with
  | nil => rfl
  | cons r ranges ih =>
    have hr : ¬ r.1 < n := by have := h.1; omega
    have hrest := ih h.2.2 (by have := h.1; have := h.2.1; omega)
    simp only [inside, List.any_cons, hr, decide_false, Bool.false_and, Bool.false_or]
    exact hrest

/-- One range after the other: the loop drops exactly what lies inside them. -/
theorem filteredEvents_sequential {events : List Event} (hord : Ordered events) {last : Int}
    {ranges : List (Int × Int)} (h : Sequential last ranges) {currentIdx : Nat}
    (hidx : events.drop currentIdx = events.filter fun e => decide (last < e.id)) :
    filteredEvents events currentIdx ranges =
      events.filter fun e => decide (last < e.id) && !inside ranges e.id := by
  induction ranges generalizing last currentIdx with
  | nil => simp [filteredEvents, hidx, inside]
  | cons r ranges ih =>
    obtain ⟨h1, h2, h3⟩ := h
    have hrest := ih h3 (drop_findIdx hord r.2)
    have hends : events.filter (fun e => decide (e.id = r.1) || decide (e.id = r.2)) ++
        events.filter (fun e => decide (r.2 < e.id) && !inside ranges e.id) =
        events.filter fun e => (decide (e.id = r.1) || decide (e.id = r.2)) ||
          (decide (r.2 < e.id) && !inside ranges e.id) := by
      refine hord.filter_append fun a _ b _ ha hb => ?_
      simp only [Bool.or_eq_true, Bool.and_eq_true, decide_eq_true_eq] at ha hb
      omega
    rw [filteredEvents, hrest, hends, hidx, List.filter_filter]
    rw [hord.filter_append fun a _ b _ ha hb => ?_]
    · -- an event is before the range, one of its ends, or after it
      refine List.filter_congr fun e _ => ?_
      have hout : e.id ≤ r.2 → inside ranges e.id = false := fun he => h3.not_inside he
      simp only [inside, List.any_cons] at hout ⊢
      by_cases he : e.id ≤ r.2
      · rw [hout he, Bool.eq_iff_iff]
        simp only [Bool.not_false, Bool.and_true, Bool.or_false, Bool.or_eq_true,
          Bool.and_eq_true, decide_eq_true_eq, Bool.not_eq_true', Bool.and_eq_false_iff,
          decide_eq_false_iff_not]
        omega
      · have e1 : ¬ e.id < r.1 := by omega
        have e2 : ¬ e.id = r.1 := by omega
        have e3 : ¬ e.id = r.2 := by omega
        have e4 : r.2 < e.id := by omega
        have e5 : ¬ e.id < r.2 := by omega
        have e6 : last < e.id := by omega
        simp [e1, e2, e3, e4, e5, e6]
    · simp only [Bool.or_eq_true, Bool.and_eq_true, decide_eq_true_eq] at ha hb
      omega

/-- Both ends of every range are added. -/
theorem mem_filteredEvents_of_end {events : List Event} {ranges : List (Int × Int)} {r : Int × Int}
    (hr : r ∈ ranges) {e : Event} (he : e ∈ events) (hid : e.id = r.1 ∨ e.id = r.2)
    (currentIdx : Nat) : e ∈ filteredEvents events currentIdx ranges := by
  induction ranges generalizing currentIdx with
  | nil => simp at hr
  | cons q ranges ih =>
    rw [filteredEvents]
    rcases List.mem_cons.mp hr with rfl | hr
    · have : e ∈ events.filter fun e => decide (e.id = r.1) || decide (e.id = r.2) := by
        simpa [he] using hid
      exact List.mem_append_right _ (List.mem_append_left _ this)
    · exact List.mem_append_right _ (List.mem_append_right _ (ih hr _))

/-! ## The sorted ranges -/

/-- No delegate ran from start to end inside another one. -/
def NoNestedDelegates (events : List Event) : Prop :=
  ∀ a o a' o', DelegatePair events a o → DelegatePair events a' o' →
    ¬ (a.id < a'.id ∧ o'.id < o.id)

instance rangeLE_trans : IsTrans (Int × Int) rangeLE where
  trans p q r hpq hqr := by unfold rangeLE at *; omega

instance rangeLE_total : Std.Total rangeLE where
  total p q := by unfold rangeLE; omega

/-- Without nesting the ranges come sorted, one after the other. -/
theorem sequential_delegateRanges {events : List Event} (hord : Ordered events)
    (hnest : NoNestedDelegates events) {last : Int} (hlast : ∀ e ∈ events, last < e.id) :
    Sequential last (sortedRanges events) := by
  have heq := delegateRanges_eq [] events
  rw [List.map_nil] at heq
  have hlam : (BracketKind.matchPairs delegateKind [] events).Pairwise (BracketKind.Laminar Event.id) :=
    (BracketKind.matchPairs_laminar .nil hord (by simp)).2
  have hpair : ∀ p ∈ BracketKind.matchPairs delegateKind [] events, DelegatePair events p.1 p.2 :=
    fun p hp => BracketKind.mem_matchPairs_iff.mp hp
  have hseq : (delegateRanges [] events).Pairwise fun p q => p.2 < q.1 := by
    rw [heq, List.pairwise_map]
    refine hlam.imp_of_mem fun {p q} hp hq h => ?_
    obtain ⟨_, _, h3, h4⟩ := h
    have := hnest _ _ _ _ (hpair q hq) (hpair p hp)
    rcases h4 with h4 | h4
    · exact absurd ⟨h4, h3⟩ this
    · exact h4
  have hmem : ∀ r ∈ delegateRanges [] events, last < r.1 ∧ r.1 < r.2 := by
    intro r hr
    obtain ⟨a, o, hao, rfl⟩ := mem_delegateRanges_iff.mp hr
    exact ⟨hlast a hao.mem.1, hao.lt hord⟩
  have hsorted : (delegateRanges [] events).Pairwise rangeLE := by
    refine hseq.imp_of_mem fun {p q} hp _ h => .inl ?_
    have := (hmem p hp).2
    omega
  rw [sortedRanges, hsorted.insertionSort_eq]
  exact sequential_of_pairwise hseq hmem

/-! ## The loaded history -/

/-- Strictly between the two ends of some delegate pair. -/
def InsideDelegate (events : List Event) (e : Event) : Prop :=
  ∃ a o, DelegatePair events a o ∧ a.id < e.id ∧ e.id < o.id

/-- The history in order, each event once, with exactly the delegates' own events left out. -/
def HistoryCorrect (log : EventLog) (s : State) : Prop :=
  Ordered (initHistory log s).history ∧
    ∀ e, e ∈ (initHistory log s).history ↔
      e ∈ rangeEvents log s ∧ ¬ InsideDelegate (rangeEvents log s) e

theorem rangeEvents_ordered (log : EventLog) (s : State) : Ordered (rangeEvents log s) :=
  log.searchEvents_ordered ..

theorem rangeEvents_eq_nil {log : EventLog} {s : State} (h : rangeEnd log s + 1 < rangeStart s) :
    rangeEvents log s = [] :=
  log.searchEvents_eq_nil (by omega) _

theorem inside_iff {events : List Event} {e : Event} :
    inside (sortedRanges events) e.id = true ↔
      InsideDelegate events e := by
  simp only [inside, List.any_eq_true, mem_sortedRanges_iff,
    Bool.and_eq_true, decide_eq_true_eq, InsideDelegate]
  constructor
  · rintro ⟨_, ⟨a, o, hao, rfl⟩, h1, h2⟩
    exact ⟨a, o, hao, h1, h2⟩
  · rintro ⟨a, o, hao, h1, h2⟩
    exact ⟨_, ⟨a, o, hao, rfl⟩, h1, h2⟩

/-- Whatever the delegates did, an end of a delegate pair is in the history. -/
theorem mem_initHistory_of_pair {log : EventLog} {s : State} {a o : Event}
    (h : DelegatePair (rangeEvents log s) a o) : a ∈ (initHistory log s).history := by
  have hr : (a.id, o.id) ∈ sortedRanges (rangeEvents log s) :=
    mem_sortedRanges_iff.mpr ⟨a, o, h, rfl⟩
  unfold initHistory
  split_ifs with hempty hnil
  · rw [rangeEvents_eq_nil hempty] at h
    exact absurd h.mem.1 (by simp)
  · exact h.mem.1
  · exact mem_filteredEvents_of_end hr h.mem.1 (.inl rfl) 0

theorem initHistory_of_noNested {log : EventLog} {s : State}
    (hnest : NoNestedDelegates (rangeEvents log s)) :
    (initHistory log s).history = (rangeEvents log s).filter fun e =>
      !inside (sortedRanges (rangeEvents log s)) e.id := by
  have hord := rangeEvents_ordered log s
  have hlast : ∀ e ∈ rangeEvents log s, (-1 : Int) < e.id := by
    intro e he
    have := (log.bounds e (EventLog.mem_searchEvents.mp he).1).1
    omega
  unfold initHistory
  split_ifs with hempty hnil
  · simp [rangeEvents_eq_nil hempty]
  · simp [sortedRanges, hnil, inside]
  · have hseq := sequential_delegateRanges hord hnest hlast
    have hall : (rangeEvents log s).filter (fun e => decide ((-1 : Int) < e.id)) = rangeEvents log s :=
      List.filter_eq_self.mpr fun e he => decide_eq_true (hlast e he)
    have hdrop : (rangeEvents log s).drop 0 =
        (rangeEvents log s).filter fun e => decide ((-1 : Int) < e.id) := by
      rw [List.drop_zero, hall]
    rw [filteredEvents_sequential hord hseq hdrop]
    refine List.filter_congr fun e he => ?_
    rw [decide_eq_true (hlast e he), Bool.true_and]

/-- The loaded history is right exactly when no finished delegate lies inside another. -/
theorem initHistory_correct_iff (log : EventLog) (s : State) :
    HistoryCorrect log s ↔ NoNestedDelegates (rangeEvents log s) := by
  constructor
  · rintro ⟨_, hmem⟩ a o a' o' hao hao' ⟨h1, h2⟩
    -- the inner action was added, although it lies inside the outer pair
    have hin := mem_initHistory_of_pair hao'
    have hlt := hao'.lt (rangeEvents_ordered log s)
    exact ((hmem a').mp hin).2 ⟨a, o, hao, h1, by omega⟩
  · intro hnest
    rw [HistoryCorrect, initHistory_of_noNested hnest]
    refine ⟨(rangeEvents_ordered log s).filter _, fun e => ?_⟩
    rw [List.mem_filter, Bool.not_eq_true', ← Bool.not_eq_true, inside_iff]

/-- A delegate that itself delegated: the inner action and observation lie inside the outer. -/
def nestedDelegates : EventLog where
  events :=
    [{ body := .action (.agentDelegate { agent := "BrowsingAgent", inputs := [] }), id := 0 },
      { body := .action (.agentDelegate { agent := "BrowsingAgent", inputs := [] }), id := 1 },
      { body := .observation (.agentDelegate { content := "", outputs := [] }), id := 2 },
      { body := .observation (.agentDelegate { content := "", outputs := [] }), id := 3 }]
  curId := 4
  ordered := by decide
  bounds := by decide
  curId_nonneg := by decide

/-- The inner pair is added again, after the end of the outer one. -/
theorem initHistory_nestedDelegates :
    ((initHistory nestedDelegates {}).history.map Event.id = [0, 3, 1, 2, 3]) ∧
      ¬ HistoryCorrect nestedDelegates {} := by
  have hids : (initHistory nestedDelegates {}).history.map Event.id = [0, 3, 1, 2, 3] := by decide
  refine ⟨hids, fun h => ?_⟩
  have hord : ((initHistory nestedDelegates {}).history.map Event.id).Pairwise (· < ·) :=
    List.pairwise_map.mpr h.1
  rw [hids] at hord
  exact absurd hord (by decide)

/-! ## Closing -/

/-- Every event from the start that passes the filter, the delegates' events too. -/
def ClosedWhole (log : EventLog) (s : State) : Prop :=
  (close log (initHistory log s)).history =
      log.events.filter (fun e => decide (max s.startId 0 ≤ e.id) && agentHistoryIncludes e) ∧
    (close log (initHistory log s)).startId = max s.startId 0

theorem rangeStart_eq_max (s : State) : rangeStart s = max s.startId 0 := by
  unfold rangeStart
  split_ifs <;> omega

@[simp] theorem initHistory_endId (log : EventLog) (s : State) :
    (initHistory log s).endId = s.endId := by
  unfold initHistory
  split_ifs <;> rfl

/-- Closing reads the whole range again, from whatever start is stored by then. -/
theorem close_history {log : EventLog} {s : State} (he : s.endId = -1) :
    (close log s).history =
      log.events.filter fun e => decide (rangeStart s ≤ e.id) && agentHistoryIncludes e := by
  refine List.filter_congr fun e hmem => ?_
  have hlast := (log.bounds e hmem).2
  have hend : e.id ≤ rangeEnd log s := by
    rw [rangeEnd, he, if_neg (by decide), EventLog.getLatestEventId]
    omega
  rw [decide_eq_true hend, Bool.and_true]

theorem le_last_sortedRanges {events : List Event} {r : Int × Int} (hr : r ∈ sortedRanges events)
    (start : Int) : r.1 ≤ loopStartId start (sortedRanges events) := by
  have hsorted : (sortedRanges events).Pairwise rangeLE := List.pairwise_insertionSort ..
  obtain ⟨init, last, hlast⟩ := List.eq_nil_or_concat (sortedRanges events) |>.resolve_left
    (List.ne_nil_of_mem hr)
  rw [hlast, List.concat_eq_append] at hr hsorted ⊢
  have hstart : loopStartId start (init ++ [last]) = last.1 := by simp [loopStartId]
  rw [hstart]
  rcases List.mem_append.mp hr with hr | hr
  · have := (List.pairwise_append.mp hsorted).2.2 r hr last (by simp)
    unfold rangeLE at this
    omega
  · rw [List.mem_singleton.mp hr]

theorem loopStartId_mem {events : List Event} (start : Int) (h : sortedRanges events ≠ []) :
    ∃ r ∈ sortedRanges events, loopStartId start (sortedRanges events) = r.1 := by
  obtain ⟨init, last, hlast⟩ := List.eq_nil_or_concat (sortedRanges events) |>.resolve_left h
  exact ⟨last, by simp [hlast], by simp [loopStartId, hlast]⟩

theorem rangeEvents_start_le {log : EventLog} {s : State} {e : Event} (h : e ∈ rangeEvents log s) :
    rangeStart s ≤ e.id :=
  (EventLog.mem_searchEvents.mp h).2.1

/-- The stored start: the last delegate's action when there was one. -/
theorem initHistory_startId_iff (log : EventLog) (s : State) :
    (initHistory log s).startId = max s.startId 0 ↔
      ∀ a o, DelegatePair (rangeEvents log s) a o → a.id ≤ max s.startId 0 := by
  rw [← rangeStart_eq_max]
  unfold initHistory
  split_ifs with hempty hnil
  · -- the range is empty, which a start below zero excludes
    have hstart : s.startId = rangeStart s := by
      have hcur := log.curId_nonneg
      simp only [rangeEnd, EventLog.getLatestEventId] at hempty
      unfold rangeStart at hempty ⊢
      split_ifs at hempty ⊢ <;> omega
    rw [rangeEvents_eq_nil hempty]
    exact ⟨fun _ a o h => absurd h.mem.1 (by simp), fun _ => hstart⟩
  · refine ⟨fun _ a o h => ?_, fun _ => rfl⟩
    have : (a.id, o.id) ∈ delegateRanges [] (rangeEvents log s) :=
      mem_delegateRanges_iff.mpr ⟨a, o, h, rfl⟩
    rw [hnil] at this
    simp at this
  · have hne : sortedRanges (rangeEvents log s) ≠ [] := by
      obtain ⟨r, hr⟩ := List.exists_mem_of_ne_nil _ hnil
      exact List.ne_nil_of_mem ((List.mem_insertionSort rangeLE).mpr hr)
    constructor
    · intro h a o hao
      have hle := le_last_sortedRanges (mem_sortedRanges_iff.mpr ⟨a, o, hao, rfl⟩) (rangeStart s)
      exact h ▸ hle
    · intro h
      obtain ⟨r, hr, hlast⟩ := loopStartId_mem (rangeStart s) hne
      obtain ⟨a, o, hao, rfl⟩ := mem_sortedRanges_iff.mp hr
      have h1 := h a o hao
      have h2 := rangeEvents_start_le hao.mem.1
      change loopStartId _ _ = _
      omega

/-- Closing after a restore keeps everything exactly when no delegate pair starts after the first
event of the range. -/
theorem close_initHistory_iff (log : EventLog) (s : State) (he : s.endId = -1) :
    ClosedWhole log s ↔
      ∀ a o, DelegatePair (rangeEvents log s) a o → a.id ≤ max s.startId 0 := by
  rw [← initHistory_startId_iff]
  refine ⟨fun h => h.2, fun h => ⟨?_, h⟩⟩
  rw [close_history (by rw [initHistory_endId, he]), rangeStart_eq_max, h]
  simp only [le_refl, max_eq_left, max_assoc]

theorem close_initHistory_iff_fresh :
    ((-1 : Int) = -1) ∧ (ClosedWhole nestedDelegates {} ↔
      ∀ a o, DelegatePair (rangeEvents nestedDelegates {}) a o → a.id ≤ max ({} : State).startId 0) :=
  ⟨rfl, close_initHistory_iff nestedDelegates {} rfl⟩

/-- A conversation with one finished delegate: closing begins at the delegate's action. -/
def finishedDelegate : EventLog where
  events :=
    [{ body := .action (.message { content := "Look it up" }), id := 0, source := some .user },
      { body := .action (.agentDelegate { agent := "BrowsingAgent", inputs := [] }), id := 1 },
      { body := .observation (.agentDelegate { content := "", outputs := [] }), id := 2 }]
  curId := 3
  ordered := by decide
  bounds := by decide
  curId_nonneg := by decide

theorem close_finishedDelegate :
    (close finishedDelegate (initHistory finishedDelegate {})).startId = 1 ∧
      (close finishedDelegate (initHistory finishedDelegate {})).history.map Event.id = [1, 2] ∧
      ¬ ClosedWhole finishedDelegate {} := by
  have hstart : (close finishedDelegate (initHistory finishedDelegate {})).startId = 1 := by decide
  refine ⟨hstart, by decide, fun h => ?_⟩
  have := h.2
  rw [hstart] at this
  exact absurd this (by decide)

end StateTracker

end OpenHands
