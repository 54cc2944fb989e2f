import OpenHandsSWE.Events.EventFilter

/-! The event stream as its readers see it: a log of events with increasing ids. -/

namespace OpenHands

abbrev Ordered (events : List Event) : Prop := events.Pairwise fun a b => a.id < b.id

structure EventLog where
  events : List Event
  curId : Int
  ordered : Ordered events
  bounds : ∀ e ∈ events, 0 ≤ e.id ∧ e.id < curId
  curId_nonneg : 0 ≤ curId

namespace EventLog

def getLatestEventId (log : EventLog) : Int := log.curId - 1

/-- The events of the inclusive range of ids that pass the filter. -/
def searchEvents (log : EventLog) (startId endId : Int) (filter : Event → Bool) : List Event :=
  log.events.filter fun e => decide (startId ≤ e.id) && decide (e.id ≤ endId) && filter e

theorem mem_searchEvents {log : EventLog} {startId endId : Int} {filter : Event → Bool}
    {e : Event} : e ∈ log.searchEvents startId endId filter ↔
      e ∈ log.events ∧ startId ≤ e.id ∧ e.id ≤ endId ∧ filter e = true := by
  simp [searchEvents, and_assoc]

theorem searchEvents_ordered (log : EventLog) (startId endId : Int) (filter : Event → Bool) :
    Ordered (log.searchEvents startId endId filter) :=
  log.ordered.filter _

/-- Nothing lies beyond the latest id. -/
theorem searchEvents_latest (log : EventLog) {endId : Int} (h : log.getLatestEventId ≤ endId)
    (startId : Int) (filter : Event → Bool) :
    log.searchEvents startId endId filter = log.searchEvents startId log.getLatestEventId filter := by
  refine List.filter_congr fun e he => ?_
  have hlast := (log.bounds e he).2
  have h1 : e.id ≤ endId := by unfold getLatestEventId at h; omega
  have h2 : e.id ≤ log.getLatestEventId := by unfold getLatestEventId; omega
  simp [h1, h2]

theorem searchEvents_eq_nil (log : EventLog) {startId endId : Int} (h : endId < startId)
    (filter : Event → Bool) : log.searchEvents startId endId filter = [] := by
  refine List.filter_eq_nil_iff.mpr fun e _ => ?_
  simp only [Bool.and_eq_true, decide_eq_true_eq]
  rintro ⟨⟨h1, h2⟩, _⟩
  omega

/-- A new event takes the current id. -/
def add (log : EventLog) (e : Event) : EventLog where
  events := log.events ++ [{ e with id := log.curId }]
  curId := log.curId + 1
  ordered := by
    refine List.pairwise_append.mpr ⟨log.ordered, List.pairwise_singleton .., fun a ha b hb => ?_⟩
    rw [List.mem_singleton.mp hb]
    exact (log.bounds a ha).2
  bounds := by
    intro a ha
    have hcur := log.curId_nonneg
    rcases List.mem_append.mp ha with ha | ha
    · have := log.bounds a ha
      omega
    · rw [List.mem_singleton.mp ha]
      exact ⟨hcur, by simp⟩
  curId_nonneg := by have := log.curId_nonneg; omega

end EventLog

/-! ## Selecting from ordered events -/

section Selecting

variable {events : List Event} {p q : Event → Bool}

/-- Two selections in a row are one when every event of the first comes before the second's. -/
theorem Ordered.filter_append (h : Ordered events)
    (hpq : ∀ a ∈ events, ∀ b ∈ events, p a = true → q b = true → a.id < b.id) :
    events.filter p ++ events.filter q = events.filter fun e => p e || q e := by
  induction events with
  | nil => rfl
  | cons e events ih =>
    rw [Ordered, List.pairwise_cons] at h
    have ih := ih h.2 fun a ha b hb =>
      hpq a (List.mem_cons_of_mem _ ha) b (List.mem_cons_of_mem _ hb)
    cases hp : p e with
    | true =>
      have hq : q e = false := by
        by_contra hq
        have := hpq e (List.mem_cons_self ..) e (List.mem_cons_self ..) hp (by simpa using hq)
        omega
      simp [hp, hq, ← ih]
    | false =>
      cases hq : q e with
      | false => simp [hp, hq, ← ih]
      | true =>
        -- `e` is the first of the second selection, so the first one is over
        have hnil : events.filter p = [] := by
          refine List.filter_eq_nil_iff.mpr fun a ha hpa => ?_
          have h1 := hpq a (List.mem_cons_of_mem _ ha) e (List.mem_cons_self ..) hpa hq
          have h2 := h.1 a ha
          omega
        simp [hp, hq, ← ih, hnil]

end Selecting

end OpenHands
