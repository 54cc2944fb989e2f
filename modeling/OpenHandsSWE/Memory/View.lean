import OpenHandsSWE.Events.EventLog
import OpenHandsSWE.Lib.Python

/-! The view of a history: what its condensations forget is left out, and the last summary is put
in its place. -/

namespace OpenHands

namespace Event

def condensation? (e : Event) : Option CondensationAction :=
  match e.body with
  | .action (.condensation a) => some a
  | _ => none

def isCondensationRequest (e : Event) : Bool := e.body matches .action .condensationRequest

def isAgentCondensation (e : Event) : Bool := e.body matches .observation (.agentCondensation _)

/-- Neither a condensation nor a request for one. -/
def isConversation (e : Event) : Bool := e.condensation?.isNone && !e.isCondensationRequest

end Event

def agentCondensationObservation (content : String) : Event :=
  { body := .observation (.agentCondensation ⟨content⟩) }

structure View where
  events : List Event
  unhandledCondensationRequest : Bool := false
deriving DecidableEq, Repr

namespace View

/-- What one event of the history forgets: a condensation its range and itself, a request itself. -/
def forgottenBy (e : Event) : List Int :=
  match e.condensation? with
  | some a => a.forgotten ++ [e.id]
  | none => if e.isCondensationRequest then [e.id] else []

def forgottenEventIds (events : List Event) : List Int := events.flatMap forgottenBy

def keptEvents (events : List Event) : List Event :=
  events.filter fun e => !(forgottenEventIds events).contains e.id

/-- The summary of a condensation, with its offset. -/
def summaryOf (e : Event) : Option (String × Int) := do
  let a ← e.condensation?
  let summary ← a.summary
  let offset ← a.summaryOffset
  return (summary, offset)

/-- The summary of the most recent condensation that has one. -/
def lastSummary (events : List Event) : Option (String × Int) :=
  events.reverse.findSome? summaryOf

/-- Whether the last of all condensations and requests is a request. -/
def unhandledRequest (events : List Event) : Bool :=
  match events.reverse.find? fun e => !e.isConversation with
  | some e => e.isCondensationRequest
  | none => false

def insertSummary (kept : List Event) : Option (String × Int) → List Event
  | none => kept
  | some (summary, offset) => Py.insert kept offset (agentCondensationObservation summary)

def fromEvents (events : List Event) : View where
  events := insertSummary (keptEvents events) (lastSummary events)
  unhandledCondensationRequest := unhandledRequest events

/-! ## One more event -/

variable {events : List Event} {e : Event}

theorem forgottenEventIds_append (events : List Event) (e : Event) :
    forgottenEventIds (events ++ [e]) = forgottenEventIds events ++ forgottenBy e := by
  simp [forgottenEventIds]

theorem keptEvents_append (events : List Event) (e : Event) :
    keptEvents (events ++ [e]) =
      (keptEvents events).filter (fun x => !(forgottenBy e).contains x.id) ++
        [e].filter (fun x => !(forgottenEventIds (events ++ [e])).contains x.id) := by
  rw [keptEvents, List.filter_append, keptEvents, List.filter_filter]
  congr 1
  refine List.filter_congr fun x _ => ?_
  rw [forgottenEventIds_append, Bool.eq_iff_iff]
  simp only [List.contains_iff_mem, List.mem_append, Bool.not_eq_true', Bool.and_eq_true,
    ← Bool.not_eq_true]
  tauto

theorem forgottenBy_conversation (h : e.isConversation = true) : forgottenBy e = [] := by
  simp only [Event.isConversation, Bool.and_eq_true, Option.isNone_iff_eq_none,
    Bool.not_eq_true'] at h
  simp [forgottenBy, h.1, h.2]

theorem lastSummary_append (events : List Event) (e : Event) :
    lastSummary (events ++ [e]) = (summaryOf e).or (lastSummary events) := by
  rw [lastSummary, lastSummary, List.reverse_append, List.reverse_singleton, List.singleton_append,
    List.findSome?_cons]
  cases summaryOf e <;> rfl

theorem summaryOf_conversation (h : e.isConversation = true) : summaryOf e = none := by
  simp only [Event.isConversation, Bool.and_eq_true, Option.isNone_iff_eq_none] at h
  simp [summaryOf, h.1]

theorem mem_keptEvents {x : Event} :
    x ∈ keptEvents events ↔ x ∈ events ∧ x.id ∉ forgottenEventIds events := by
  simp [keptEvents]

/-- Condensations and requests forget themselves. -/
theorem isConversation_of_mem_keptEvents {x : Event} (h : x ∈ keptEvents events) :
    x.isConversation = true := by
  obtain ⟨hmem, hid⟩ := mem_keptEvents.mp h
  by_contra hx
  apply hid
  refine List.mem_flatMap.mpr ⟨x, hmem, ?_⟩
  cases hc : x.condensation? with
  | some a => simp [forgottenBy, hc]
  | none =>
    have hreq : x.isCondensationRequest = true := by
      simpa [Event.isConversation, hc] using hx
    simp [forgottenBy, hc, hreq]

end View

/-- A condensation by range forgets exactly the ids of the range. -/
theorem CondensationAction.mem_forgotten_range {a : CondensationAction} {s t : Int}
    (hids : a.forgottenEventIds = none) (hs : a.forgottenEventsStartId = some s)
    (ht : a.forgottenEventsEndId = some t) {i : Int} : i ∈ a.forgotten ↔ s ≤ i ∧ i ≤ t := by
  rw [forgotten, hids, hs, ht]
  simp only [List.mem_map, List.mem_range]
  constructor
  · rintro ⟨n, hn, rfl⟩
    omega
  · rintro ⟨h1, h2⟩
    exact ⟨(i - s).toNat, by omega, by omega⟩

end OpenHands
