import OpenHandsSWE.Events.EventLog
import OpenHandsSWE.Memory.Condenser

/-! What the view of a history is after any number of condensations: the head of the conversation,
the latest summary and the tail. -/

namespace OpenHands

/-! ## Forgetting a range of an ordered list -/

theorem minId_spec {events : List Event} {s : Int} (h : minId events = .ok s) :
    (∃ x ∈ events, x.id = s) ∧ ∀ x ∈ events, s ≤ x.id := by
  unfold minId at h
  split at h
  · cases h
  next i hmin =>
    cases h
    obtain ⟨hmem, hle⟩ := List.min?_eq_some_iff.mp hmin
    exact ⟨List.mem_map.mp hmem, fun x hx => hle _ (List.mem_map_of_mem hx)⟩

theorem maxId_spec {events : List Event} {t : Int} (h : maxId events = .ok t) :
    (∃ x ∈ events, x.id = t) ∧ ∀ x ∈ events, x.id ≤ t := by
  unfold maxId at h
  split at h
  · cases h
  next i hmax =>
    cases h
    obtain ⟨hmem, hle⟩ := List.max?_eq_some_iff.mp hmax
    exact ⟨List.mem_map.mp hmem, fun x hx => hle _ (List.mem_map_of_mem hx)⟩

theorem minId_ok {events : List Event} (h : events ≠ []) : ∃ s, minId events = .ok s := by
  unfold minId
  cases hmin : (events.map Event.id).min? with
  | none => exact absurd (List.map_eq_nil_iff.mp (List.min?_eq_none_iff.mp hmin)) h
  | some i => exact ⟨i, rfl⟩

theorem maxId_ok {events : List Event} (h : events ≠ []) : ∃ t, maxId events = .ok t := by
  unfold maxId
  cases hmax : (events.map Event.id).max? with
  | none => exact absurd (List.map_eq_nil_iff.mp (List.max?_eq_none_iff.mp hmax)) h
  | some i => exact ⟨i, rfl⟩

/-- Of an ordered list exactly what is neither in the middle nor counted as such is selected. -/
theorem filter_eq_outer_iff {front middle back : List Event} {p : Event → Bool}
    (hord : Ordered (front ++ middle ++ back)) :
    (front ++ middle ++ back).filter p = front ++ back ↔
      (∀ x ∈ front, p x = true) ∧ (∀ x ∈ middle, p x = false) ∧ ∀ x ∈ back, p x = true := by
  obtain ⟨hfm, -, hback⟩ := List.pairwise_append.mp hord
  obtain ⟨-, -, hfront⟩ := List.pairwise_append.mp hfm
  constructor
  · intro h
    have houter : ∀ x ∈ front ++ back, p x = true := by
      rw [← h]
      exact fun x hx => (List.mem_filter.mp hx).2
    refine ⟨fun x hx => houter x (List.mem_append_left _ hx), fun x hx => ?_,
      fun x hx => houter x (List.mem_append_right _ hx)⟩
    by_contra hp
    rw [Bool.not_eq_false] at hp
    -- a selected one of the middle would lie in the front or in the back
    have hmem : x ∈ (front ++ middle ++ back).filter p := by simp [hx, hp]
    rw [h, List.mem_append] at hmem
    rcases hmem with hmem | hmem
    · exact absurd (hfront x hmem x hx) (lt_irrefl _)
    · exact absurd (hback x (List.mem_append_right _ hx) x hmem) (lt_irrefl _)
  · rintro ⟨h1, h2, h3⟩
    have hnone : middle.filter p = [] := List.filter_eq_nil_iff.mpr fun x hx => by simp [h2 x hx]
    rw [List.filter_append, List.filter_append, List.filter_eq_self.mpr h1, hnone,
      List.filter_eq_self.mpr h3, List.append_nil]

/-- The range from the least to the greatest id of a middle piece is that piece. -/
theorem filter_forgotten {front middle back : List Event} {a : CondensationAction} {s t : Int}
    (hord : Ordered (front ++ middle ++ back)) (hids : a.forgottenEventIds = none)
    (hs : a.forgottenEventsStartId = some s) (ht : a.forgottenEventsEndId = some t)
    (hmin : minId middle = .ok s) (hmax : maxId middle = .ok t) :
    (front ++ middle ++ back).filter (fun x => !a.forgotten.contains x.id) = front ++ back := by
  obtain ⟨⟨x, hx, rfl⟩, hle⟩ := minId_spec hmin
  obtain ⟨⟨y, hy, rfl⟩, hge⟩ := maxId_spec hmax
  obtain ⟨hfm, -, hback⟩ := List.pairwise_append.mp hord
  obtain ⟨-, -, hfront⟩ := List.pairwise_append.mp hfm
  have hmem (i : Int) : a.forgotten.contains i = true ↔ x.id ≤ i ∧ i ≤ y.id := by
    rw [List.contains_iff_mem, CondensationAction.mem_forgotten_range hids hs ht]
  refine (filter_eq_outer_iff hord).mpr ⟨fun e he => ?_, fun e he => ?_, fun e he => ?_⟩
  · have hlt := hfront e he x hx
    rw [Bool.not_eq_true', ← Bool.not_eq_true, hmem]
    omega
  · rw [Bool.not_eq_false', hmem]
    exact ⟨hle e he, hge e he⟩
  · have hlt := hback y (List.mem_append_right _ hy) e he
    rw [Bool.not_eq_true', ← Bool.not_eq_true, hmem]
    omega

/-! ## Ids of a growing history -/

theorem nextId_append (history : List Event) (e : Event) : nextId (history ++ [e]) = e.id + 1 := by
  simp [nextId]

theorem Ordered.lt_nextId {history : List Event} (h : Ordered history) :
    ∀ e ∈ history, e.id < nextId history := by
  rcases List.eq_nil_or_concat history with rfl | ⟨front, last, rfl⟩
  · simp
  · rw [List.concat_eq_append] at h ⊢
    obtain ⟨-, -, hlt⟩ := List.pairwise_append.mp h
    intro e he
    rw [nextId_append]
    rcases List.mem_append.mp he with he | he
    · have := hlt e he last (List.mem_singleton_self _)
      omega
    · rw [List.mem_singleton.mp he]
      omega

theorem Ordered.concat {history : List Event} (h : Ordered history) {e : Event}
    (he : nextId history ≤ e.id) : Ordered (history ++ [e]) := by
  refine List.pairwise_append.mpr ⟨h, List.pairwise_singleton .., fun a ha b hb => ?_⟩
  have := h.lt_nextId a ha
  rw [List.mem_singleton.mp hb]
  omega

/-! ## What one more event does to the kept ones -/

section Growing

variable {history : List Event} {e : Event}

/-- What is forgotten stays below the next id. -/
theorem forgottenBelow_append (h : ∀ i ∈ View.forgottenEventIds history, i < nextId history)
    (hid : nextId history ≤ e.id) (hby : ∀ i ∈ View.forgottenBy e, i ≤ e.id) :
    ∀ i ∈ View.forgottenEventIds (history ++ [e]), i < nextId (history ++ [e]) := by
  intro i hi
  rw [View.forgottenEventIds_append, List.mem_append] at hi
  rw [nextId_append]
  rcases hi with hi | hi
  · have := h i hi
    omega
  · have := hby i hi
    omega

theorem keptEvents_conversation (h : ∀ i ∈ View.forgottenEventIds history, i < nextId history)
    (he : e.isConversation = true) (hid : nextId history ≤ e.id) :
    View.keptEvents (history ++ [e]) = View.keptEvents history ++ [e] := by
  have hforgotten : View.forgottenEventIds (history ++ [e]) = View.forgottenEventIds history := by
    rw [View.forgottenEventIds_append, View.forgottenBy_conversation he, List.append_nil]
  have hnew : e.id ∉ View.forgottenEventIds history := fun hmem => by
    have := h e.id hmem
    omega
  rw [View.keptEvents_append, View.forgottenBy_conversation he, hforgotten]
  simp [hnew]

/-- An event with the next id is none of those before it. -/
theorem keptEvents_filter_new (hord : Ordered history) (hid : nextId history ≤ e.id) (ids : List Int) :
    (View.keptEvents history).filter (fun x => !(ids ++ [e.id]).contains x.id) =
      (View.keptEvents history).filter fun x => !ids.contains x.id := by
  refine List.filter_congr fun x hx => ?_
  have hlt := hord.lt_nextId x (View.mem_keptEvents.mp hx).1
  have hne : x.id ≠ e.id := by omega
  simp [hne]

theorem forgottenBy_request (hc : e.condensation? = none) (he : e.isCondensationRequest = true) :
    View.forgottenBy e = [e.id] := by simp [View.forgottenBy, hc, he]

/-- A request for a condensation leaves what is kept as it is. -/
theorem keptEvents_request (hord : Ordered history) (hc : e.condensation? = none)
    (he : e.isCondensationRequest = true) (hid : nextId history ≤ e.id) :
    View.keptEvents (history ++ [e]) = View.keptEvents history := by
  have hby := forgottenBy_request hc he
  have hold := keptEvents_filter_new hord hid []
  rw [List.nil_append] at hold
  rw [View.keptEvents_append, View.forgottenEventIds_append, hby, hold]
  simp

/-- A condensation takes what it forgets out of what is kept. -/
theorem keptEvents_condensation (hord : Ordered history) (a : CondensationAction) :
    View.keptEvents (history ++ [condensationEvent history a]) =
      (View.keptEvents history).filter fun x => !a.forgotten.contains x.id := by
  have hid : (condensationEvent history a).id = nextId history := rfl
  have hby : View.forgottenBy (condensationEvent history a) =
      a.forgotten ++ [(condensationEvent history a).id] := rfl
  have hold := keptEvents_filter_new hord (le_of_eq hid.symm) a.forgotten
  rw [View.keptEvents_append, View.forgottenEventIds_append, hby, hold]
  simp

end Growing

/-! ## The shape of a view -/

def conversation (history : List Event) : List Event := history.filter Event.isConversation

/-- After any number of condensations all but a head and a tail of the conversation is forgotten:
`n` is where the tail starts and `summary` the latest summary, when there is one. -/
structure RollingShape (c : SummarySizes) (history : List Event) (n : Nat)
    (summary : Option String) : Prop where
  ordered : Ordered history
  forgottenBelow : ∀ i ∈ View.forgottenEventIds history, i < nextId history
  noSummaries : ∀ e ∈ conversation history, e.isAgentCondensation = false
  kept : View.keptEvents history =
    (conversation history).take c.keepFirst.toNat ++ (conversation history).drop n
  head_le : c.keepFirst.toNat ≤ n
  lastSummary : View.lastSummary history = summary.map fun text => (text, c.keepFirst)
  begun : summary.isSome → n ≤ (conversation history).length
  fresh : summary = none → n = c.keepFirst.toNat

namespace RollingShape

variable {c : SummarySizes} {history : List Event} {n : Nat} {summary : Option String}

theorem nil (c : SummarySizes) : RollingShape c [] c.keepFirst.toNat none where
  ordered := .nil
  forgottenBelow := by simp [View.forgottenEventIds]
  noSummaries := by simp [conversation]
  kept := by simp [View.keptEvents, conversation]
  head_le := le_rfl
  lastSummary := by simp [View.lastSummary]
  begun := by simp
  fresh _ := rfl

/-- An event of the conversation lengthens the tail. -/
theorem converse (h : RollingShape c history n summary) {e : Event}
    (he : e.isConversation = true) (hid : nextId history ≤ e.id)
    (hsum : e.isAgentCondensation = false) :
    RollingShape c (history ++ [e]) n summary := by
  have hconv : conversation (history ++ [e]) = conversation history ++ [e] := by
    simp [conversation, he]
  have hby := View.forgottenBy_conversation he
  have hkept := keptEvents_conversation h.forgottenBelow he hid
  refine ⟨h.ordered.concat hid, forgottenBelow_append h.forgottenBelow hid (by simp [hby]), ?_, ?_,
    h.head_le, ?_, ?_, h.fresh⟩
  · intro x hx
    rw [hconv, List.mem_append, List.mem_singleton] at hx
    rcases hx with hx | rfl
    · exact h.noSummaries x hx
    · exact hsum
  · rw [hkept, hconv, h.kept]
    -- before the first condensation head and tail are the whole conversation
    cases summary with
    | none => rw [h.fresh rfl, List.take_append_drop, List.take_append_drop]
    | some text =>
      have hn := h.begun rfl
      have hk := h.head_le
      rw [List.take_append_of_le_length (by omega), List.drop_append_of_le_length hn,
        List.append_assoc]
  · rw [View.lastSummary_append, View.summaryOf_conversation he, h.lastSummary]
    rfl
  · intro hs
    rw [hconv, List.length_append]
    have := h.begun hs
    omega

/-- A request for a condensation leaves the view as it is. -/
theorem request (h : RollingShape c history n summary) {e : Event}
    (hc : e.condensation? = none) (he : e.isCondensationRequest = true)
    (hid : nextId history ≤ e.id) : RollingShape c (history ++ [e]) n summary := by
  have hconv : conversation (history ++ [e]) = conversation history := by
    simp [conversation, Event.isConversation, he]
  have hby := forgottenBy_request hc he
  have hkept := keptEvents_request h.ordered hc he hid
  refine ⟨h.ordered.concat hid, forgottenBelow_append h.forgottenBelow hid (by simp [hby]), ?_, ?_,
    h.head_le, ?_, ?_, h.fresh⟩
  · rw [hconv]
    exact h.noSummaries
  · rw [hkept, hconv]
    exact h.kept
  · have hnone : View.summaryOf e = none := by simp [View.summaryOf, hc]
    rw [View.lastSummary_append, hnone, h.lastSummary]
    rfl
  · rw [hconv]
    exact h.begun

/-- The events of a view of that shape. -/
def viewEvents (c : SummarySizes) (conv : List Event) (n : Nat) : Option String → List Event
  | none => conv
  | some text =>
    conv.take c.keepFirst.toNat ++ agentCondensationObservation text :: conv.drop n

theorem view_events (h : RollingShape c history n summary) :
    (View.fromEvents history).events = viewEvents c (conversation history) n summary := by
  show View.insertSummary (View.keptEvents history) (View.lastSummary history) = _
  rw [h.kept, h.lastSummary]
  cases summary with
  | none => rw [h.fresh rfl]; exact List.take_append_drop ..
  | some text =>
    have hlen : ((conversation history).take c.keepFirst.toNat).length = c.keepFirst.toNat := by
      have := h.begun rfl
      have := h.head_le
      rw [List.length_take]
      omega
    show Py.insert _ c.keepFirst _ = _
    rw [Py.insert, Py.takeTo, Py.dropTo, if_pos c.keepFirst_nonneg, if_pos c.keepFirst_nonneg,
      List.take_left' hlen, List.drop_left' hlen, viewEvents]

/-- The part of the tail that a condensation keeps. -/
def keptTail (c : SummarySizes) : Nat := (c.maxSize / 2 - c.keepFirst - 1).toNat

theorem eventsFromTail_eq (c : SummarySizes) {view : List Event}
    (h : c.keepFirst < view.length) : c.eventsFromTail view = keptTail c := by
  have h0 := c.keepFirst_nonneg
  have h1 := c.keepFirst_lt
  rw [SummarySizes.eventsFromTail, Py.takeTo, if_pos h0, List.length_take, keptTail]
  omega

/-- With nothing to keep at the end the slice ends at `-0`, before its start. -/
theorem forgottenEvents_of_noTail {view : List Event} (h : c.keepFirst < view.length)
    (htail : keptTail c = 0) : c.forgottenEvents view = [] := by
  rw [SummarySizes.forgottenEvents, eventsFromTail_eq c h, htail]
  simp [Py.takeTo, Py.dropTo]

theorem forgottenEvents_slice {view : List Event} (h : c.keepFirst < view.length)
    (htail : 0 < keptTail c) :
    c.forgottenEvents view =
      ((view.drop c.keepFirst.toNat).take (view.length - keptTail c - c.keepFirst.toNat)).filter
        fun e => !e.isAgentCondensation := by
  have hneg : ¬ 0 ≤ -(keptTail c : Int) := by omega
  rw [SummarySizes.forgottenEvents, eventsFromTail_eq c h, Py.takeTo, if_neg hneg, Py.dropTo,
    if_pos c.keepFirst_nonneg, List.drop_take, neg_neg, Int.toNat_natCast]

/-- What is forgotten is the tail but for its end. -/
theorem forgottenEvents_eq (h : RollingShape c history n summary)
    (hlen : c.keepFirst < (View.fromEvents history).events.length) (htail : 0 < keptTail c) :
    c.forgottenEvents (View.fromEvents history).events =
      ((conversation history).drop n).take ((conversation history).length - keptTail c - n) := by
  have hfilter (m : Nat) : (((conversation history).drop n).take m).filter
      (fun e => !e.isAgentCondensation) = ((conversation history).drop n).take m := by
    refine List.filter_eq_self.mpr fun e he => ?_
    rw [h.noSummaries e (List.mem_of_mem_drop (List.mem_of_mem_take he))]
    rfl
  rw [forgottenEvents_slice hlen htail, h.view_events]
  cases summary with
  | none => rw [viewEvents, ← h.fresh rfl, hfilter]
  | some text =>
    have hn := h.begun rfl
    have hk := h.head_le
    have hlen : ((conversation history).take c.keepFirst.toNat).length = c.keepFirst.toNat := by
      rw [List.length_take]
      omega
    rw [viewEvents, List.drop_left' hlen, List.length_append, hlen, List.length_cons,
      List.length_drop]
    -- the earlier summary is the first of the slice, unless the slice is empty
    rcases Nat.eq_zero_or_pos ((conversation history).length - n + 1 - keptTail c) with hz | hpos
    · have h1 : c.keepFirst.toNat + ((conversation history).length - n + 1) - keptTail c -
          c.keepFirst.toNat = 0 := by omega
      have h2 : (conversation history).length - keptTail c - n = 0 := by omega
      rw [h1, h2]
      simp
    · have h1 : c.keepFirst.toNat + ((conversation history).length - n + 1) - keptTail c -
          c.keepFirst.toNat = (conversation history).length - keptTail c - n + 1 := by omega
      have h2 : (agentCondensationObservation text).isAgentCondensation = true := rfl
      rw [h1, List.take_succ_cons, List.filter_cons, h2, hfilter]
      rfl

/-- A condensation forgets from a head of the right length on and leaves the end of the tail. -/
theorem getCondensation_ok (h : RollingShape c history n summary) {text : String}
    {a : CondensationAction} (hok : c.getCondensation text (View.fromEvents history) = .ok a) :
    0 < keptTail c ∧ n < (conversation history).length - keptTail c ∧
      ∃ s t, minId (((conversation history).drop n).take
          ((conversation history).length - keptTail c - n)) = .ok s ∧
        maxId (((conversation history).drop n).take
          ((conversation history).length - keptTail c - n)) = .ok t ∧
        a.forgottenEventIds = none ∧ a.forgottenEventsStartId = some s ∧
        a.forgottenEventsEndId = some t ∧ a.summary = some text ∧
        a.summaryOffset = some c.keepFirst := by
  unfold SummarySizes.getCondensation at hok
  split_ifs at hok with hlen
  have hlen : c.keepFirst < (View.fromEvents history).events.length := by omega
  split at hok
  · cases hok
  · obtain ⟨s, hs, hok⟩ := Py.bind_ok hok
    obtain ⟨t, ht, rfl⟩ := Py.map_ok hok
    obtain ⟨x, hx, -⟩ := (minId_spec hs).1
    have htail : 0 < keptTail c := by
      by_contra hzero
      rw [forgottenEvents_of_noTail hlen (by omega)] at hx
      simp at hx
    rw [h.forgottenEvents_eq hlen htail] at hx hs ht
    refine ⟨htail, ?_, s, t, hs, ht, rfl, rfl, rfl, rfl, rfl⟩
    by_contra hle
    have hzero : (conversation history).length - keptTail c - n = 0 := by omega
    rw [hzero, List.take_zero] at hx
    simp at hx

/-- The head, the slice that is forgotten, and the end that is kept. -/
theorem pieces (h : RollingShape c history n summary) (hn : n ≤ (conversation history).length - keptTail c) :
    View.keptEvents history = (conversation history).take c.keepFirst.toNat ++
      ((conversation history).drop n).take ((conversation history).length - keptTail c - n) ++
      (conversation history).drop ((conversation history).length - keptTail c) := by
  have hsplit := List.take_append_drop ((conversation history).length - keptTail c - n)
    ((conversation history).drop n)
  rw [List.drop_drop, Nat.add_sub_cancel' hn] at hsplit
  rw [h.kept, List.append_assoc, hsplit]

theorem condense (h : RollingShape c history n summary) {text : String} {a : CondensationAction}
    (hok : c.getCondensation text (View.fromEvents history) = .ok a) :
    RollingShape c (history ++ [condensationEvent history a])
      ((conversation history).length - keptTail c) (some text) := by
  obtain ⟨-, hn, s, t, hs, ht, hids, hstart, hend, hsum, hoff⟩ := h.getCondensation_ok hok
  have hk := h.head_le
  have hid : (condensationEvent history a).id = nextId history := rfl
  have hconv : conversation (history ++ [condensationEvent history a]) = conversation history := by
    have hno : (condensationEvent history a).isConversation = false := rfl
    simp [conversation, hno]
  have hby : View.forgottenBy (condensationEvent history a) = a.forgotten ++ [nextId history] := rfl
  have hbelow : ∀ i ∈ a.forgotten, i < nextId history := by
    intro i hi
    obtain ⟨y, hy, rfl⟩ := (maxId_spec ht).1
    have hmem := List.mem_of_mem_drop (List.mem_of_mem_take hy)
    have := h.ordered.lt_nextId y (List.mem_of_mem_filter hmem)
    have := ((CondensationAction.mem_forgotten_range hids hstart hend).mp hi).2
    omega
  refine ⟨h.ordered.concat (le_of_eq hid.symm),
    forgottenBelow_append h.forgottenBelow (le_of_eq hid.symm) ?_, ?_, ?_, by omega, ?_, ?_, nofun⟩
  · intro i hi
    rw [hby, List.mem_append, List.mem_singleton] at hi
    rcases hi with hi | rfl
    · exact le_of_lt (hbelow i hi)
    · exact le_rfl
  · rw [hconv]
    exact h.noSummaries
  · have hpieces := h.pieces hn.le
    have hord : Ordered (View.keptEvents history) := h.ordered.filter _
    rw [keptEvents_condensation h.ordered, hconv]
    rw [hpieces] at hord ⊢
    exact filter_forgotten hord hids hstart hend hs ht
  · have hnew : View.summaryOf (condensationEvent history a) = some (text, c.keepFirst) := by
      simp [View.summaryOf, condensationEvent, Event.condensation?, hsum, hoff]
    rw [View.lastSummary_append, hnew]
    rfl
  · intro _
    rw [hconv]
    omega

theorem length_viewEvents (h : RollingShape c history n summary)
    (hlong : c.maxSize < (View.fromEvents history).events.length) :
    n < (conversation history).length - keptTail c := by
  have h0 := c.keepFirst_nonneg
  have h1 := c.keepFirst_lt
  have hk := h.head_le
  rw [h.view_events] at hlong
  unfold keptTail
  cases summary with
  | none =>
    rw [viewEvents] at hlong
    rw [h.fresh rfl]
    omega
  | some text =>
    have hn := h.begun rfl
    rw [viewEvents, List.length_append, List.length_take, List.length_cons,
      List.length_drop] at hlong
    omega

end RollingShape

/-! ## Runs of the agent loop -/

section Loop

variable (kind : SummaryCondenser) (c : SummarySizes)

theorem stepHistory_shape {history : List Event} {n : Nat} {summary : Option String}
    (h : RollingShape c history n summary) (step : LoopStep) :
    ∃ n summary, RollingShape c (stepHistory kind c history step) n summary := by
  cases step with
  | feed gap e =>
    have hid : nextId history ≤ ({ e.event with id := nextId history + gap } : Event).id := by
      show nextId history ≤ nextId history + gap
      omega
    cases hreq : e.event.isCondensationRequest with
    | true => exact ⟨n, summary, h.request e.notCondensation hreq hid⟩
    | false =>
      have hconv : ({ e.event with id := nextId history + gap } : Event).isConversation = true := by
        have h1 : ({ e.event with id := nextId history + gap } : Event).condensation? = none :=
          e.notCondensation
        have h2 : ({ e.event with id := nextId history + gap } : Event).isCondensationRequest =
          false := hreq
        simp [Event.isConversation, h1, h2]
      exact ⟨n, summary, h.converse hconv hid e.notSummary⟩
  | ask r =>
    unfold stepHistory
    dsimp only
    split
    next a hok =>
      unfold SummaryCondenser.condense at hok
      split_ifs at hok
      · obtain ⟨a', hget, ha⟩ := Py.map_ok hok
        rw [SummaryCondenser.getCondensation_eq] at hget
        cases ha
        exact ⟨_, _, h.condense hget⟩
      · cases hok
    · exact ⟨n, summary, h⟩

/-- However often the history has been condensed, its view has the rolling shape. -/
theorem runHistory_shape (steps : List LoopStep) :
    ∃ n summary, RollingShape c (runHistory kind c steps) n summary := by
  induction steps using List.reverseRecOn with
  | nil => exact ⟨_, _, .nil c⟩
  | append_singleton steps step ih =>
    obtain ⟨n, summary, h⟩ := ih
    rw [runHistory, List.foldl_append]
    exact stepHistory_shape kind c h step

/-- What an asked condenser owes the agent. -/
structure AskOk (history : List Event) (r : SummaryResponse) : Prop where
  answers : c.maxSize < (View.fromEvents history).events.length →
    ∃ a, kind.getCondensation c r (View.fromEvents history) = .ok a
  condensed : ∀ a, kind.condense c r (View.fromEvents history) = .ok (.condensation a) →
    ((conversation history).take c.keepFirst.toNat).length = c.keepFirst ∧
    ∃ recent, recent <:+ (View.fromEvents history).events ∧
      (View.fromEvents (history ++ [condensationEvent history a])).events =
        (conversation history).take c.keepFirst.toNat ++
          agentCondensationObservation (kind.summaryText r) :: recent ∧
      (View.fromEvents (history ++ [condensationEvent history a])).events.length = c.maxSize / 2
  handed : ∀ view, kind.condense c r (View.fromEvents history) = .ok (.view view) →
    view = View.fromEvents history ∧ view.events.length ≤ c.maxSize

/-- Every time the condenser is asked. -/
def AsksOk (steps : List LoopStep) : Prop :=
  ∀ before r, before ++ [.ask r] <+: steps → AskOk kind c (runHistory kind c before) r

/-- What lies between the head of a view and the end that a condensation keeps. -/
def middle (view : List Event) : List Event :=
  (view.take (view.length - (c.maxSize / 2 - c.keepFirst - 1).toNat)).drop c.keepFirst.toNat

/-- Every time the condenser is asked about a view that is too long, there is an end to keep and
what comes before it can be printed. -/
def TriggersOk (steps : List LoopStep) : Prop :=
  ∀ before r, before ++ [.ask r] <+: steps →
    c.maxSize < (View.fromEvents (runHistory kind c before)).events.length →
    c.keepFirst + 1 < c.maxSize / 2 ∧
      ∀ e ∈ middle c (View.fromEvents (runHistory kind c before)).events, strError e = none

variable {kind c} {history : List Event} {n : Nat} {summary : Option String} {r : SummaryResponse}

theorem strError_summary {e : Event} (h : e.isAgentCondensation = true) : strError e = none := by
  unfold Event.isAgentCondensation at h
  split at h
  next hbody => simp [strError, hbody]
  · cases h

/-- Summaries can always be printed, so leaving them out of the slice changes nothing. -/
theorem printable_iff {view : List Event} (hlen : c.keepFirst < view.length)
    (htail : 0 < RollingShape.keptTail c) :
    (c.forgottenEvents view).findSome? strError = none ↔
      ∀ e ∈ middle c view, strError e = none := by
  have hmiddle : c.forgottenEvents view =
      (middle c view).filter fun e => !e.isAgentCondensation := by
    rw [RollingShape.forgottenEvents_slice hlen htail, middle, List.drop_take]
    rfl
  rw [hmiddle, List.findSome?_eq_none_iff]
  constructor
  · intro h e he
    cases hs : e.isAgentCondensation with
    | true => exact strError_summary hs
    | false => exact h e (List.mem_filter.mpr ⟨he, by rw [hs]; rfl⟩)
  · intro h e he
    exact h e (List.mem_of_mem_filter he)

theorem getCondensation_long (h : RollingShape c history n summary) {text : String}
    (hlong : c.maxSize < (View.fromEvents history).events.length) :
    (∃ a, c.getCondensation text (View.fromEvents history) = .ok a) ↔
      c.keepFirst + 1 < c.maxSize / 2 ∧
        ∀ e ∈ middle c (View.fromEvents history).events, strError e = none := by
  have hkeep := c.keepFirst_lt
  have hlen : c.keepFirst < (View.fromEvents history).events.length := by omega
  constructor
  · rintro ⟨a, hok⟩
    obtain ⟨htail, -⟩ := h.getCondensation_ok hok
    refine ⟨by unfold RollingShape.keptTail at htail; omega, ?_⟩
    rw [← printable_iff hlen htail]
    unfold SummarySizes.getCondensation at hok
    rw [if_neg (by omega)] at hok
    split at hok
    · cases hok
    next hnone => exact hnone
  · rintro ⟨hroom, hprint⟩
    have htail : 0 < RollingShape.keptTail c := by unfold RollingShape.keptTail; omega
    have hn := h.length_viewEvents hlong
    have hne : c.forgottenEvents (View.fromEvents history).events ≠ [] := by
      rw [h.forgottenEvents_eq hlen htail]
      intro hnil
      have := congrArg List.length hnil
      rw [List.length_take, List.length_drop, List.length_nil] at this
      omega
    obtain ⟨s, hs⟩ := minId_ok hne
    obtain ⟨t, ht⟩ := maxId_ok hne
    unfold SummarySizes.getCondensation
    rw [if_neg (by omega), (printable_iff hlen htail).mpr hprint]
    simp only [hs, ht]
    exact ⟨_, rfl⟩

/-- A condensation that succeeds gives the head, the new summary and the end of the view. -/
theorem view_condensed (h : RollingShape c history n summary) {text : String}
    {a : CondensationAction} (hok : c.getCondensation text (View.fromEvents history) = .ok a) :
    ((conversation history).take c.keepFirst.toNat).length = c.keepFirst ∧
    ∃ recent, recent <:+ (View.fromEvents history).events ∧
      (View.fromEvents (history ++ [condensationEvent history a])).events =
        (conversation history).take c.keepFirst.toNat ++
          agentCondensationObservation text :: recent ∧
      (View.fromEvents (history ++ [condensationEvent history a])).events.length =
        c.maxSize / 2 := by
  have hnew := h.condense hok
  obtain ⟨htail, hn, -⟩ := h.getCondensation_ok hok
  have h0 := c.keepFirst_nonneg
  have hk := h.head_le
  have hconv : conversation (history ++ [condensationEvent history a]) = conversation history := by
    have hno : (condensationEvent history a).isConversation = false := rfl
    simp [conversation, hno]
  have hhead : ((conversation history).take c.keepFirst.toNat).length = c.keepFirst := by
    rw [List.length_take]
    omega
  refine ⟨hhead, (conversation history).drop ((conversation history).length -
    RollingShape.keptTail c), ?_, ?_, ?_⟩
  · -- the end of the conversation is the end of the view before
    have hsuffix : (conversation history).drop ((conversation history).length -
        RollingShape.keptTail c) <:+ (conversation history).drop n := by
      rw [← Nat.add_sub_cancel' (le_of_lt hn), ← List.drop_drop]
      exact List.drop_suffix ..
    refine hsuffix.trans ?_
    rw [h.view_events]
    cases summary with
    | none => exact List.drop_suffix ..
    | some text =>
      exact (List.suffix_cons ..).trans (List.suffix_append ..)
  · rw [hnew.view_events, hconv]
    rfl
  · rw [hnew.view_events, hconv, RollingShape.viewEvents, List.length_append, List.length_cons,
      List.length_drop]
    unfold RollingShape.keptTail at *
    omega

/-- An asked condenser does its part exactly when it can print what a view that is too long has
before its end, and keeps an end at all. -/
theorem askOk_iff (h : RollingShape c history n summary) : AskOk kind c history r ↔
    (c.maxSize < (View.fromEvents history).events.length →
      c.keepFirst + 1 < c.maxSize / 2 ∧
        ∀ e ∈ middle c (View.fromEvents history).events, strError e = none) := by
  constructor
  · intro hask hlong
    have hok := hask.answers hlong
    rw [SummaryCondenser.getCondensation_eq] at hok
    exact (getCondensation_long h hlong).mp hok
  · intro hcond
    refine ⟨fun hlong => ?_, fun a hok => ?_, fun view hok => ?_⟩
    · rw [SummaryCondenser.getCondensation_eq]
      exact (getCondensation_long h hlong).mpr (hcond hlong)
    · unfold SummaryCondenser.condense at hok
      split_ifs at hok
      · obtain ⟨a', hget, ha⟩ := Py.map_ok hok
        rw [SummaryCondenser.getCondensation_eq] at hget
        cases ha
        exact view_condensed h hget
      · cases hok
    · unfold SummaryCondenser.condense at hok
      split_ifs at hok with hshould
      · obtain ⟨a, -, ha⟩ := Py.map_ok hok
        cases ha
      · cases hok
        simp only [SummarySizes.shouldCondense, Bool.or_eq_true, decide_eq_true_eq, not_or] at hshould
        exact ⟨rfl, by omega⟩

variable (kind c) in
theorem asksOk_iff (steps : List LoopStep) : AsksOk kind c steps ↔ TriggersOk kind c steps := by
  refine forall_congr' fun before => forall_congr' fun r => forall_congr' fun _ => ?_
  obtain ⟨n, summary, h⟩ := runHistory_shape kind c before
  exact askOk_iff h

/-! A head of one event and a summary fill half of four, so nothing is left to keep at the end. -/

def tightSizes : SummarySizes := ⟨4, 1, by decide, by decide, by decide⟩

def fedMessage : FedEvent := ⟨{ body := .action (.message { content := "hi" }) }, rfl, rfl⟩

theorem asksOk_noTail :
    SummarySizes.init 4 1 = .ok tightSizes ∧
    ¬ AsksOk .llmSummarizing tightSizes
      (List.replicate 5 (.feed 0 fedMessage) ++ [.ask { content := "summary" }]) := by
  refine ⟨rfl, fun h => ?_⟩
  obtain ⟨a, ha⟩ := (h _ _ (List.prefix_refl _)).answers (by decide)
  cases ha

end Loop

end OpenHands
