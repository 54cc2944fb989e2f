import OpenHandsSWE.Memory.ConversationMemory
import OpenHandsSWE.Memory.Pipeline

/-! All condensers, and the way a request for a condensation takes through a pipeline of them. -/

namespace OpenHands

open ConversationMemory

namespace RecentEventsCondenser

def condense (keepFirst maxEvents : Int) (view : View) : View :=
  let head := Py.takeTo view.events keepFirst
  let tailLength := max 0 (maxEvents - head.length)
  let tail := Py.dropTo view.events (-tailLength)
  { events := head ++ tail }

/-- The number of events of the new view. -/
def length (keepFirst maxEvents : Int) (n : Nat) : Nat :=
  let head := Py.lengthTo n keepFirst
  head + Py.lengthFrom n (-max 0 (maxEvents - head))

end RecentEventsCondenser

/-! ## The window over the conversation -/

namespace Event

def userMessage? (e : Event) : Option MessageAction :=
  match e.body with
  | .action (.message a) => if e.source = some .user then some a else none
  | _ => none

def isRecallOf (query : String) (e : Event) : Bool :=
  match e.body with
  | .action (.recallAction a) => decide (a.query = query)
  | _ => false

end Event

namespace ConversationWindowCondenser

def forgetIds (ids : List Int) : CondensationAction :=
  { forgottenEventIds := some ids, valid := by simp [validateFieldPolymorphism] }

/-- The recall of the first user message and the observation it caused. -/
def recallIds (query : String) : List Event → List Int
  | [] => []
  | e :: rest =>
    if e.isRecallOf query then
      e.id :: ((rest.find? fun o => o.isObservation && decide (o.cause = some e.id)).map Event.id).toList
    else recallIds query rest

/-- There are none before the first user message. -/
def essentialEvents (events : List Event) : Option (List Int) :=
  match events.dropWhile fun e => e.userMessage?.isNone with
  | [] => none
  | first :: rest =>
    some (((events.find? isSystemMessage).map Event.id).toList ++
      first.id :: recallIds ((first.userMessage?.map MessageAction.content).getD "") rest)

def getCondensation (view : View) : CondensationAction :=
  match essentialEvents view.events with
  | none => forgetIds []
  | some essential =>
    let total : Int := view.events.length
    let numRecentToKeep := max 1 ((total - essential.length) / 2)
    let sliceStart := max 0 (total - numRecentToKeep)
    -- observations whose actions are gone are dropped from the start of the slice
    let recent := (view.events.drop sliceStart.toNat).dropWhile Event.isObservation
    let toKeep := essential ++ recent.map Event.id
    let forgotten := ((view.events.map Event.id).dedup.filter fun i => !toKeep.contains i).insertionSort (· ≤ ·)
    match forgotten.head?, forgotten.getLast? with
    | some startId, some endId =>
      if 1 < forgotten.length ∧ endId - startId = forgotten.length - 1 then
        { forgottenEventsStartId := some startId
          forgottenEventsEndId := some endId
          valid := validateFieldPolymorphism_range startId endId }
      else forgetIds forgotten
    | _, _ => forgetIds []

def shouldCondense (view : View) : Bool := view.unhandledCondensationRequest

end ConversationWindowCondenser

/-! ## The condensers that ask the LLM -/

namespace LLMAttentionCondenser

/-- `ids` are those the LLM has answered. -/
def getCondensation (c : SummarySizes) (ids : List Int) (view : View) : CondensationAction :=
  let headEventIds := (Py.takeTo view.events c.keepFirst).map Event.id
  let eventsFromTail := c.maxSize / 2 - headEventIds.length
  let responseIds := Py.takeTo (ids.filter fun i => !headEventIds.contains i) eventsFromTail
  let responseIds := view.events.reverse.foldl (fun ids e =>
    if eventsFromTail ≤ ids.length ∨ e.id ∈ ids then ids else ids ++ [e.id]) responseIds
  ConversationWindowCondenser.forgetIds
    ((view.events.map Event.id).filter fun i => !responseIds.contains i && !headEventIds.contains i)

end LLMAttentionCondenser

/-- What the summarising condensers put into their prompt: the text of the previous summary, and the
events, each printed and truncated. -/
structure SummaryPrompt where
  previousSummary : String
  events : List Event
deriving DecidableEq, Repr

namespace SummarySizes

def summaryContent (e : Event) : String :=
  match e.body with
  | .observation (.agentCondensation o) => o.content
  | _ => "No events summarized"

def prompt (c : SummarySizes) (maxEventLength : Int) (view : View) : Except PyError SummaryPrompt :=
  match view.events[c.keepFirst.toNat]? with
  | none => .error .indexError
  | some e =>
    match (c.forgottenEvents view.events).findSome? strError with
    | some err => .error err
    | none => .ok ⟨truncateContent (summaryContent e) (some maxEventLength), c.forgottenEvents view.events⟩

end SummarySizes

/-! ## Every condenser -/

/-- A condenser with its settings; one that asks an LLM comes with what this answers to a prompt or raises. -/
inductive Condenser where
  | noOp
  | observationMasking (attentionWindow : Int)
  | browserOutput (attentionWindow : Int)
  | recentEvents (keepFirst maxEvents : Int)
  | conversationWindow
  | amortizedForgetting (sizes : SummarySizes)
  | llmAttention (sizes : SummarySizes) (llm : View → Except PyError (List Int))
  | summary (kind : SummaryCondenser) (sizes : SummarySizes) (maxEventLength : Int)
    (llm : SummaryPrompt → Except PyError SummaryResponse)

namespace RollingCondenser

def condense (shouldCondense : View → Bool) (getCondensation : View → Except PyError CondensationAction) (view : View) :
    Except PyError Condensed :=
  if shouldCondense view then (getCondensation view).map .condensation else .ok (.view view)

end RollingCondenser

namespace Condenser

def condense : Condenser → View → Except PyError Condensed
  | noOp, view => .ok (.view view)
  | observationMasking w, view => .ok (.view (ObservationMaskingCondenser.condense w view))
  | browserOutput w, view => .ok (.view (BrowserOutputCondenser.condense w view))
  | recentEvents k m, view => .ok (.view (RecentEventsCondenser.condense k m view))
  | conversationWindow, view =>
    RollingCondenser.condense ConversationWindowCondenser.shouldCondense
      (fun view => .ok (ConversationWindowCondenser.getCondensation view)) view
  | amortizedForgetting c, view => AmortizedForgettingCondenser.condense c view
  | llmAttention c llm, view =>
    RollingCondenser.condense c.shouldCondense
      (fun view => (llm view).map fun ids => LLMAttentionCondenser.getCondensation c ids view) view
  | summary kind c maxEventLength llm, view =>
    RollingCondenser.condense c.shouldCondense
      (fun view => (c.prompt maxEventLength view).bind fun prompt =>
        (llm prompt).bind fun r => kind.getCondensation c r view) view

/-- The subclasses of `RollingCondenser`. -/
def isRolling : Condenser → Bool
  | noOp | observationMasking _ | browserOutput _ | recentEvents _ _ => false
  | conversationWindow | amortizedForgetting _ | llmAttention _ _ | summary _ _ _ _ => true

/-- A condenser that makes a new view makes it without the request. -/
def keepsRequest : Condenser → Bool
  | observationMasking _ | browserOutput _ | recentEvents _ _ => false
  | _ => true

/-- Whether that many events are too many for a rolling condenser, request or not. -/
def overfull : Condenser → Nat → Bool
  | amortizedForgetting c, n | llmAttention c _, n | summary _ c _ _, n => c.maxSize < n
  | _, _ => false

/-- The number of events a condenser leaves when it returns a view. -/
def lengthAfter : Condenser → Nat → Nat
  | recentEvents k m, n => RecentEventsCondenser.length k m n
  | _, n => n

end Condenser

/-- `Condenser.condensed_history` of a pipeline. -/
def condensedHistory (condensers : List Condenser) (history : List Event) : Except PyError Condensed :=
  CondenserPipeline.condense (condensers.map Condenser.condense) (View.fromEvents history)

/-- A request for a condensation with no condensation after it. -/
def PendingRequest (history : List Event) : Prop :=
  ∃ before r after, history = before ++ r :: after ∧ r.isCondensationRequest = true ∧
    ∀ e ∈ after, e.condensation? = none

/-! ## One condenser -/

section One

variable {p : Condenser} {view result : View}

theorem rolling_view_iff {shouldCondense : View → Bool} {getCondensation : View → Except PyError CondensationAction} :
    RollingCondenser.condense shouldCondense getCondensation view = .ok (.view result) ↔
      shouldCondense view = false ∧ result = view := by
  unfold RollingCondenser.condense
  split_ifs with h
  · constructor
    · intro hok
      obtain ⟨a, -, ha⟩ := Py.map_ok hok
      cases ha
    · exact fun hok => absurd hok.1 (by simp [h])
  · constructor
    · intro hok
      cases hok
      exact ⟨Bool.eq_false_iff.mpr h, rfl⟩
    · exact fun hok => by rw [hok.2]

theorem overfull_iff {c : SummarySizes} : c.shouldCondense view = false ↔
    ¬ (view.unhandledCondensationRequest = true ∨ decide (c.maxSize < view.events.length) = true) := by
  rw [SummarySizes.shouldCondense, Bool.or_eq_false_iff, not_or, Bool.not_eq_true, Bool.not_eq_true, and_comm]

/-- A rolling condenser is asked whether it should condense. -/
theorem condense_rolling (h : p.isRolling = true) (view : View) : ∃ shouldCondense getCondensation,
    p.condense view = RollingCondenser.condense shouldCondense getCondensation view ∧
      (shouldCondense view = false ↔
        ¬ (view.unhandledCondensationRequest = true ∨ p.overfull view.events.length = true)) := by
  cases p with
  | noOp => cases h
  | observationMasking w => cases h
  | browserOutput w => cases h
  | recentEvents k m => cases h
  | conversationWindow =>
    refine ⟨ConversationWindowCondenser.shouldCondense, fun view => .ok (ConversationWindowCondenser.getCondensation view),
      rfl, ?_⟩
    rw [ConversationWindowCondenser.shouldCondense]
    simp [Condenser.overfull]
  | amortizedForgetting c => exact ⟨_, AmortizedForgettingCondenser.getCondensation c, rfl, overfull_iff⟩
  | llmAttention c llm =>
    exact ⟨c.shouldCondense, fun view => (llm view).map fun ids => LLMAttentionCondenser.getCondensation c ids view,
      rfl, overfull_iff⟩
  | summary kind c maxEventLength llm =>
    exact ⟨c.shouldCondense, fun view => (c.prompt maxEventLength view).bind fun prompt =>
      (llm prompt).bind fun r => kind.getCondensation c r view, rfl, overfull_iff⟩

/-- The others make a view. -/
theorem condense_plain (h : p.isRolling = false) (view : View) : ∃ result, p.condense view = .ok (.view result) := by
  cases p with
  | noOp => exact ⟨_, rfl⟩
  | observationMasking w => exact ⟨_, rfl⟩
  | browserOutput w => exact ⟨_, rfl⟩
  | recentEvents k m => exact ⟨_, rfl⟩
  | conversationWindow => cases h
  | amortizedForgetting c => cases h
  | llmAttention c llm => cases h
  | summary kind c maxEventLength llm => cases h

/-- A condenser returns a view unless it is a rolling one that sees the request or too many events. -/
theorem condense_view_iff : (∃ result, p.condense view = .ok (.view result)) ↔
    ¬ (p.isRolling = true ∧ (view.unhandledCondensationRequest = true ∨ p.overfull view.events.length = true)) := by
  cases hp : p.isRolling with
  | false => exact iff_of_true (condense_plain hp view) fun h => nomatch h.1
  | true =>
    obtain ⟨should, get, hcondense, hshould⟩ := condense_rolling hp view
    rw [hcondense, and_iff_right rfl, ← hshould]
    simp only [rolling_view_iff, exists_and_left, exists_eq, and_true]

theorem length_recentEvents (k m : Int) (view : View) :
    (RecentEventsCondenser.condense k m view).events.length = RecentEventsCondenser.length k m view.events.length := by
  rw [RecentEventsCondenser.condense, List.length_append, Py.length_takeTo, Py.length_dropTo]
  rfl

/-- What a condenser leaves of the request, and how many events. -/
theorem condense_view (h : p.condense view = .ok (.view result)) :
    result.unhandledCondensationRequest = (view.unhandledCondensationRequest && p.keepsRequest) ∧
      result.events.length = p.lengthAfter view.events.length := by
  have hsame (hp : p.isRolling = true) : result = view := by
    obtain ⟨should, get, hcondense, -⟩ := condense_rolling hp view
    rw [hcondense] at h
    exact (rolling_view_iff.mp h).2
  have hnew {v : View} {n : Nat} (hv : v.unhandledCondensationRequest = false) (hlength : v.events.length = n)
      (hok : (Except.ok (.view v) : Except PyError Condensed) = .ok (.view result)) :
      result.unhandledCondensationRequest = (view.unhandledCondensationRequest && false) ∧ result.events.length = n := by
    cases hok
    rw [hv, Bool.and_false]
    exact ⟨rfl, hlength⟩
  have hold (heq : result = view) : result.unhandledCondensationRequest = (view.unhandledCondensationRequest && true) ∧
      result.events.length = view.events.length := by
    rw [heq, Bool.and_true]
    exact ⟨rfl, rfl⟩
  cases p with
  | noOp =>
    cases h
    exact hold rfl
  | observationMasking w => exact hnew rfl (MaskingCondenser.length_condense (.observationMasking w) view) h
  | browserOutput w => exact hnew rfl (MaskingCondenser.length_condense (.browserOutput w) view) h
  | recentEvents k m => exact hnew rfl (length_recentEvents k m view) h
  | conversationWindow => exact hold (hsame rfl)
  | amortizedForgetting c => exact hold (hsame rfl)
  | llmAttention c llm => exact hold (hsame rfl)
  | summary kind c maxEventLength llm => exact hold (hsame rfl)

end One

/-! ## The pipeline -/

section Pipeline

/-- Some rolling condenser has nothing before it that drops the request, or is given too many events. -/
def Serves (condensers : List Condenser) (request : Bool) (n : Nat) : Prop :=
  ∃ before p after, condensers = before ++ p :: after ∧ p.isRolling = true ∧
    ((request = true ∧ ∀ q ∈ before, q.keepsRequest = true) ∨
      p.overfull (before.foldl (fun n q => q.lengthAfter n) n) = true)

theorem serves_cons (p : Condenser) (condensers : List Condenser) (request : Bool) (n : Nat) :
    Serves (p :: condensers) request n ↔ (p.isRolling = true ∧ (request = true ∨ p.overfull n = true)) ∨
      Serves condensers (request && p.keepsRequest) (p.lengthAfter n) := by
  constructor
  · rintro ⟨before, q, after, heq, hq, hserves⟩
    cases before with
    | nil =>
      obtain ⟨rfl, -⟩ := List.cons.inj heq
      exact .inl ⟨hq, hserves.imp And.left id⟩
    | cons p' before =>
      obtain ⟨rfl, rfl⟩ := List.cons.inj heq
      refine .inr ⟨before, q, after, rfl, hq, hserves.imp (fun h => ?_) id⟩
      obtain ⟨hp, hbefore⟩ := List.forall_mem_cons.mp h.2
      rw [h.1, hp]
      exact ⟨rfl, hbefore⟩
  · rintro (⟨hp, h⟩ | ⟨before, q, after, rfl, hq, hserves⟩)
    · exact ⟨[], p, condensers, rfl, hp, h.imp (fun h => ⟨h, nofun⟩) id⟩
    · refine ⟨p :: before, q, after, rfl, hq, hserves.imp (fun h => ?_) id⟩
      obtain ⟨hrequest, hp⟩ := Bool.and_eq_true_iff.mp h.1
      exact ⟨hrequest, List.forall_mem_cons.mpr ⟨hp, h.2⟩⟩

theorem pipeline_view_iff (condensers : List Condenser) (view : View) :
    (∃ result, CondenserPipeline.condense (condensers.map Condenser.condense) view = .ok (.view result)) ↔
      ¬ Serves condensers view.unhandledCondensationRequest view.events.length := by
  induction condensers generalizing view with
  | nil =>
    refine iff_of_true ⟨view, rfl⟩ ?_
    rintro ⟨before, p, after, heq, -⟩
    simp at heq
  | cons p condensers ih =>
    rw [serves_cons, not_or, ← condense_view_iff, List.map_cons, CondenserPipeline.condense]
    split
    next next hnext =>
      obtain ⟨hrequest, hlength⟩ := condense_view hnext
      rw [ih, hrequest, hlength]
      exact (and_iff_right ⟨next, hnext⟩).symm
    next hno =>
      refine iff_of_false ?_ ?_
      · rintro ⟨result, hresult⟩
        exact hno result hresult
      · rintro ⟨⟨result, hresult⟩, -⟩
        exact hno result hresult

theorem unhandledRequest_of_pending {history : List Event} (h : PendingRequest history) :
    View.unhandledRequest history = true := by
  obtain ⟨before, r, after, rfl, hr, hafter⟩ := h
  rw [View.unhandledRequest]
  split
  next e he =>
    -- the last of all condensations and requests is found from the end
    rw [List.reverse_append, List.reverse_cons, List.append_assoc, List.find?_append] at he
    cases hfound : after.reverse.find? fun e => !e.isConversation with
    | none =>
      rw [hfound] at he
      have hrconv : (!r.isConversation) = true := by simp [Event.isConversation, hr]
      rw [Option.none_or, List.singleton_append, List.find?_cons, hrconv] at he
      rw [← Option.some.inj he]
      exact hr
    | some e' =>
      rw [hfound] at he
      obtain rfl := Option.some.inj he
      have hno := hafter e' (List.mem_reverse.mp (List.mem_of_find?_eq_some hfound))
      have hconv := List.find?_some hfound
      simpa [Event.isConversation, hno] using hconv
  next hnone =>
    have hno := List.find?_eq_none.mp hnone r (by simp)
    simp [Event.isConversation, hr] at hno

/-- A pending request is served exactly when a rolling condenser sees it, or one sees too many events. -/
theorem request_served_iff (condensers : List Condenser) {history : List Event} (hpending : PendingRequest history) :
    (∀ view, condensedHistory condensers history ≠ .ok (.view view)) ↔
      ∃ before p after, condensers = before ++ p :: after ∧ p.isRolling = true ∧
        ((∀ q ∈ before, q.keepsRequest = true) ∨
          p.overfull (before.foldl (fun n q => q.lengthAfter n) (View.fromEvents history).events.length) = true) := by
  have hrequest : (View.fromEvents history).unhandledCondensationRequest = true := unhandledRequest_of_pending hpending
  have hpipeline := pipeline_view_iff condensers (View.fromEvents history)
  rw [hrequest] at hpipeline
  simp only [Serves, true_and] at hpipeline
  rw [← not_exists]
  exact not_iff_comm.mp (Iff.symm hpipeline)

def browserThenWindow : List Condenser := [.browserOutput 2, .conversationWindow]

def userGreeting : Event := { body := .action (.message { content := "hi" }), id := 0, source := some .user }

def requestEvent : Event := { body := .action .condensationRequest, id := 1, source := some .agent }

def overlong : List Event := [userGreeting, requestEvent]

theorem pending_overlong : PendingRequest overlong := by
  refine ⟨[userGreeting], requestEvent, [], rfl, rfl, fun e he => ?_⟩
  exact absurd he List.not_mem_nil

theorem request_served_iff_window :
    ¬ ∃ view, condensedHistory [.conversationWindow, .browserOutput 2] overlong = .ok (.view view) := by
  have h := (request_served_iff [.conversationWindow, .browserOutput 2] pending_overlong).mpr
    ⟨[], .conversationWindow, [.browserOutput 2], rfl, rfl, .inl nofun⟩
  exact fun ⟨view, hview⟩ => h view hview

/-- The new view of the browser condenser says nothing of the request. -/
theorem request_lost : ¬ ∀ condensers history, (∃ p ∈ condensers, p.isRolling = true) → PendingRequest history →
    ∀ view, condensedHistory condensers history ≠ .ok (.view view) := by
  intro h
  exact h browserThenWindow overlong ⟨.conversationWindow, by simp [browserThenWindow], rfl⟩ pending_overlong _ rfl

end Pipeline

end OpenHands
