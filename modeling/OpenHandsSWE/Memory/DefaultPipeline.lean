import OpenHandsSWE.Lib.Runs
import OpenHandsSWE.Memory.Condensers

/-! The pipeline of the server: the window, then the masked browser outputs, then the summary; what it
forgets without having summarised it. -/

namespace OpenHands

namespace DefaultPipeline

def maxEventLength : Int := 10000

/-- The condensers a session starts with; the sizes keep the first four events. -/
def condensers (c : SummarySizes) (r : SummaryResponse) : List Condenser :=
  [.conversationWindow, .browserOutput 2, .summary .llmSummarizing c maxEventLength fun _ => .ok r]

/-- An event of the stream; condensations come from the pipeline and their summaries from the view. -/
structure StreamEvent where
  event : Event
  conversation : event.isConversation = true
  notSummary : event.isAgentCondensation = false

inductive Step where
  | feed (e : StreamEvent)
  | ask (r : SummaryResponse)

def step (c : SummarySizes) (history : List Event) : Step → List Event
  | .feed e => history ++ [{ e.event with id := nextId history }]
  | .ask r =>
    match condensedHistory (condensers c r) history with
    | .ok (.condensation a) => history ++ [condensationEvent history a]
    | _ => history

/-- Every event of the stream is fed and the pipeline asked after it. -/
def serverSteps (stream : List (StreamEvent × SummaryResponse)) : List Step :=
  stream.flatMap fun (e, r) => [.feed e, .ask r]

def visible (history : List Event) : List Event := (View.fromEvents history).events

/-- The events of the view, marked when they are masked: browser outputs with two more after them. -/
def marks (history : List Event) : List (Event × Bool) := (MaskingCondenser.browserOutput 2).marked (visible history)

/-- The view that reaches the summarizer. -/
def masked (history : List Event) : View := BrowserOutputCondenser.condense 2 (View.fromEvents history)

/-- The text of the latest summarizing condensation. -/
def latestSummary (history : List Event) : String :=
  ((View.lastSummary history).map Prod.fst).getD "No events summarized"

/-- What the pipeline owes when it is asked. -/
structure LosesNothing (c : SummarySizes) (history : List Event) (r : SummaryResponse) : Prop where
  answers : ∃ result, condensedHistory (condensers c r) history = .ok result
  summarised : ∀ a, condensedHistory (condensers c r) history = .ok (.condensation a) →
    ∃ prompt, c.prompt maxEventLength (masked history) = .ok prompt ∧
      prompt.previousSummary = latestSummary history ∧
      (∀ x ∈ (visible history).zip (masked history).events, x.1.id ∈ a.forgotten → x.2 ∈ prompt.events) ∧
      (visible (history ++ [condensationEvent history a])).length = c.maxSize / 2

/-- The part of a list between the head and the end that a condensation keeps. -/
def between {α : Type} (c : SummarySizes) (xs : List α) : List α :=
  (xs.take (xs.length - RollingShape.keptTail c)).drop c.keepFirst.toNat

/-- What a view that is too long has to be like. -/
structure Summarisable (c : SummarySizes) (history : List Event) : Prop where
  room : c.keepFirst + 1 < c.maxSize / 2
  unmasked : ∀ x ∈ between c (marks history), x.2 = false
  printable : ∀ e ∈ between c (visible history), strError e = none
  short : ∀ text offset, View.lastSummary history = some (text, offset) →
    truncateContent text (some maxEventLength) = text

/-! ## What the pipeline does -/

section Asked

variable {c : SummarySizes} {history : List Event} {r : SummaryResponse}

/-- The ids of a condensation are those of the first and the last event it forgets. -/
theorem getCondensation_fields {view : View} {text : String} {a : CondensationAction}
    (hok : c.getCondensation text view = .ok a) : ∃ s t, minId (c.forgottenEvents view.events) = .ok s ∧
      maxId (c.forgottenEvents view.events) = .ok t ∧ a.forgottenEventIds = none ∧
      a.forgottenEventsStartId = some s ∧ a.forgottenEventsEndId = some t ∧ a.summary = some text ∧
      a.summaryOffset = some c.keepFirst := by
  unfold SummarySizes.getCondensation at hok
  split_ifs at hok
  split at hok
  · cases hok
  · obtain ⟨s, hs, hok⟩ := Py.bind_ok hok
    obtain ⟨t, ht, rfl⟩ := Py.map_ok hok
    exact ⟨s, t, hs, ht, rfl, rfl, rfl, rfl, rfl⟩

theorem prompt_of_getCondensation {view : View} {text : String} {a : CondensationAction}
    (hok : c.getCondensation text view = .ok a) : ∃ e, view.events[c.keepFirst.toNat]? = some e ∧
      c.prompt maxEventLength view =
        .ok ⟨truncateContent (SummarySizes.summaryContent e) (some maxEventLength), c.forgottenEvents view.events⟩ := by
  unfold SummarySizes.getCondensation at hok
  split_ifs at hok with hlen
  have h0 := c.keepFirst_nonneg
  have hlt : c.keepFirst.toNat < view.events.length := by omega
  split at hok
  · cases hok
  next hnone =>
    refine ⟨view.events[c.keepFirst.toNat], List.getElem?_eq_getElem hlt, ?_⟩
    rw [SummarySizes.prompt, List.getElem?_eq_getElem hlt]
    dsimp only
    rw [hnone]

theorem length_masked (history : List Event) : (masked history).events.length = (visible history).length :=
  MaskingCondenser.length_condense (.browserOutput 2) (View.fromEvents history)

/-- Without a request the window hands the view on. -/
theorem condensedHistory_eq (hrequest : View.unhandledRequest history = false) :
    condensedHistory (condensers c r) history =
      if c.maxSize < (visible history).length then
        ((c.prompt maxEventLength (masked history)).bind fun _ =>
          c.getCondensation r.content (masked history)).map .condensation
      else .ok (.view (masked history)) := by
  have hwindow : Condenser.conversationWindow.condense (View.fromEvents history) =
      .ok (.view (View.fromEvents history)) := by
    show RollingCondenser.condense ConversationWindowCondenser.shouldCondense
      (fun view => .ok (ConversationWindowCondenser.getCondensation view)) _ = _
    exact rolling_view_iff.mpr ⟨hrequest, rfl⟩
  have hshould : c.shouldCondense (masked history) = decide (c.maxSize < (visible history).length) := by
    have hflag : (masked history).unhandledCondensationRequest = false := rfl
    rw [SummarySizes.shouldCondense, hflag, Bool.or_false, length_masked]
  have hsummary : (Condenser.summary .llmSummarizing c maxEventLength fun _ => .ok r).condense (masked history) =
      if c.maxSize < (visible history).length then
        ((c.prompt maxEventLength (masked history)).bind fun _ =>
          c.getCondensation r.content (masked history)).map .condensation
      else .ok (.view (masked history)) := by
    show RollingCondenser.condense c.shouldCondense (fun view => (c.prompt maxEventLength view).bind fun _ =>
      c.getCondensation r.content view) (masked history) = _
    rw [RollingCondenser.condense, hshould]
    simp only [decide_eq_true_eq]
  show CondenserPipeline.condense (Condenser.conversationWindow.condense :: _) _ = _
  rw [CondenserPipeline.condense, hwindow]
  show CondenserPipeline.condense [(Condenser.summary .llmSummarizing c maxEventLength fun _ => .ok r).condense]
    (masked history) = _
  rw [CondenserPipeline.condense, hsummary]
  split
  next result hresult => rw [CondenserPipeline.condense, hresult]
  · rfl

theorem condensation_iff (hrequest : View.unhandledRequest history = false) {a : CondensationAction} :
    condensedHistory (condensers c r) history = .ok (.condensation a) ↔
      c.maxSize < (visible history).length ∧ c.getCondensation r.content (masked history) = .ok a := by
  rw [condensedHistory_eq hrequest]
  split_ifs with hlong
  · rw [and_iff_right hlong]
    constructor
    · intro hok
      obtain ⟨a', hbind, ha⟩ := Py.map_ok hok
      cases ha
      obtain ⟨-, -, hget⟩ := Py.bind_ok hbind
      exact hget
    · intro hok
      obtain ⟨e, -, hprompt⟩ := prompt_of_getCondensation hok
      rw [hprompt]
      show (c.getCondensation r.content (masked history)).map _ = _
      rw [hok]
      rfl
  · exact iff_of_false (fun h => by cases h) fun h => hlong h.1

theorem answers_iff (hrequest : View.unhandledRequest history = false) :
    (∃ result, condensedHistory (condensers c r) history = .ok result) ↔
      (c.maxSize < (visible history).length → ∃ a, c.getCondensation r.content (masked history) = .ok a) := by
  constructor
  · rintro ⟨result, hresult⟩ hlong
    rw [condensedHistory_eq hrequest, if_pos hlong] at hresult
    obtain ⟨a, hbind, -⟩ := Py.map_ok hresult
    obtain ⟨-, -, hget⟩ := Py.bind_ok hbind
    exact ⟨a, hget⟩
  · intro h
    by_cases hlong : c.maxSize < (visible history).length
    · obtain ⟨a, ha⟩ := h hlong
      exact ⟨_, (condensation_iff hrequest).mpr ⟨hlong, ha⟩⟩
    · exact ⟨_, (condensedHistory_eq hrequest).trans (if_neg hlong)⟩

end Asked

/-! ## Masked events -/

section Masked

open MaskingCondenser

variable {c : SummarySizes} {history : List Event}

theorem masked_events (history : List Event) : (masked history).events = (marks history).map shown := by
  have h := maskReversed_eq 2 (visible history).reverse [] 0 (.inl rfl)
  rw [List.reverse_reverse, List.append_nil, marked, List.map_nil, List.append_nil] at h
  exact h

theorem marks_fst (history : List Event) : (marks history).map Prod.fst = visible history := marked_map_fst _ _

theorem length_marks (history : List Event) : (marks history).length = (visible history).length := length_marked _ _

theorem browserOutput_of_masked {view : List Event} {x : Event × Bool} (hx : x ∈ (browserOutput 2).marked view)
    (hmask : x.2 = true) : x.1.browserOutput?.isSome = true := by
  induction view with
  | nil => cases hx
  | cons e rest ih =>
    rcases List.mem_cons.mp hx with rfl | hx
    · exact (Bool.and_eq_true_iff.mp hmask).1
    · exact ih hx

theorem between_map {α β : Type} (f : α → β) (xs : List α) : between c (xs.map f) = (between c xs).map f := by
  rw [between, between, List.length_map, List.map_drop, List.map_take]

theorem forgottenEvents_between {view : List Event} (hlen : c.keepFirst < view.length) (htail : 0 < RollingShape.keptTail c) :
    c.forgottenEvents view = (between c view).filter fun e => !e.isAgentCondensation := by
  rw [RollingShape.forgottenEvents_slice hlen htail, between, List.drop_take]

/-- Where nothing is masked the summarizer sees the view itself. -/
theorem between_masked (h : ∀ x ∈ between c (marks history), x.2 = false) :
    between c (masked history).events = between c (visible history) := by
  rw [masked_events, ← marks_fst, between_map, between_map]
  refine List.map_congr_left fun x hx => ?_
  rw [shown, h x hx]
  rfl

theorem getCondensation_masked (h : ∀ x ∈ between c (marks history), x.2 = false)
    (hlong : c.maxSize < (visible history).length) (htail : 0 < RollingShape.keptTail c) (text : String) :
    c.getCondensation text (masked history) = c.getCondensation text (View.fromEvents history) := by
  have hkeep := c.keepFirst_lt
  have hpos := c.maxSize_pos
  have hlen : c.keepFirst < (visible history).length := by omega
  have hlength := length_masked history
  have hforgotten : c.forgottenEvents (masked history).events = c.forgottenEvents (View.fromEvents history).events := by
    rw [forgottenEvents_between (hlength ▸ hlen) htail, between_masked h]
    exact (forgottenEvents_between hlen htail).symm
  unfold SummarySizes.getCondensation
  rw [hforgotten, hlength]
  rfl

end Masked

/-! ## The shape of a view along a run -/

/-- What a run of the server keeps as long as the pipeline does its part. -/
structure Shape (c : SummarySizes) (history : List Event) (n : Nat) (summary : Option String) : Prop where
  rolling : RollingShape c history n summary
  noRequests : ∀ e ∈ history, e.isCondensationRequest = false
  nonneg : ∀ e ∈ history, 0 ≤ e.id

section Shapes

variable {c : SummarySizes} {history : List Event} {n : Nat} {summary : Option String}

theorem Shape.nil (c : SummarySizes) : Shape c [] c.keepFirst.toNat none :=
  ⟨.nil c, fun e he => absurd he List.not_mem_nil, fun e he => absurd he List.not_mem_nil⟩

theorem Shape.unhandledRequest (h : Shape c history n summary) : View.unhandledRequest history = false := by
  rw [View.unhandledRequest]
  split
  next e he => exact h.noRequests e (List.mem_reverse.mp (List.mem_of_find?_eq_some he))
  · rfl

theorem Shape.nextId_nonneg (h : Shape c history n summary) : 0 ≤ nextId history := by
  rcases List.eq_nil_or_concat history with rfl | ⟨front, last, rfl⟩
  · exact le_rfl
  · rw [List.concat_eq_append] at h ⊢
    have hlast := h.nonneg last (by simp)
    rw [nextId_append]
    omega

theorem Shape.append (h : Shape c history n summary) {e : Event} {n' : Nat} {summary' : Option String}
    (hrolling : RollingShape c (history ++ [e]) n' summary') (hrequest : e.isCondensationRequest = false)
    (hid : e.id = nextId history) : Shape c (history ++ [e]) n' summary' := by
  have hid := hid ▸ h.nextId_nonneg
  refine ⟨hrolling, fun x hx => ?_, fun x hx => ?_⟩
  · rcases List.mem_append.mp hx with hx | hx
    · exact h.noRequests x hx
    · exact List.mem_singleton.mp hx ▸ hrequest
  · rcases List.mem_append.mp hx with hx | hx
    · exact h.nonneg x hx
    · exact List.mem_singleton.mp hx ▸ hid

/-- The slice of the conversation that is forgotten when nothing is masked. -/
def slice (c : SummarySizes) (history : List Event) (n : Nat) : List Event :=
  ((conversation history).drop n).take ((conversation history).length - RollingShape.keptTail c - n)

variable (h : Shape c history n summary) (hlong : c.maxSize < (visible history).length)

include h in
theorem Shape.visible_eq : visible history = RollingShape.viewEvents c (conversation history) n summary :=
  h.rolling.view_events

include h hlong

theorem Shape.take_visible :
    (visible history).take c.keepFirst.toNat = (conversation history).take c.keepFirst.toNat := by
  have hn := h.rolling.length_viewEvents hlong
  have hk := h.rolling.head_le
  rw [h.visible_eq]
  cases summary with
  | none => rfl
  | some text =>
    refine List.take_left' ?_
    rw [List.length_take]
    omega

theorem Shape.drop_visible (htail : 0 < RollingShape.keptTail c) :
    (visible history).drop ((visible history).length - RollingShape.keptTail c) =
      (conversation history).drop ((conversation history).length - RollingShape.keptTail c) := by
  have hn := h.rolling.length_viewEvents hlong
  have hk := h.rolling.head_le
  rw [h.visible_eq]
  cases summary with
  | none => rfl
  | some text =>
    have hhead : ((conversation history).take c.keepFirst.toNat).length = c.keepFirst.toNat := by
      rw [List.length_take]
      omega
    have hstart : (RollingShape.viewEvents c (conversation history) n (some text)).length - RollingShape.keptTail c =
        c.keepFirst.toNat + ((conversation history).length - RollingShape.keptTail c - n + 1) := by
      rw [RollingShape.viewEvents, List.length_append, hhead, List.length_cons, List.length_drop]
      omega
    rw [hstart, RollingShape.viewEvents, ← List.drop_drop, List.drop_left' hhead, List.drop_succ_cons, List.drop_drop]
    congr 1
    omega

omit h in
theorem keep_lt : c.keepFirst < (visible history).length := by
  have hkeep := c.keepFirst_lt
  have hpos := c.maxSize_pos
  omega

/-- An event before the kept end that is no summary is in the slice. -/
theorem Shape.mem_slice (htail : 0 < RollingShape.keptTail c) {e : Event} :
    e ∈ slice c history n ↔ e ∈ between c (visible history) ∧ e.isAgentCondensation = false := by
  have hforgotten := h.rolling.forgottenEvents_eq (keep_lt hlong) htail
  have hbetween := forgottenEvents_between (keep_lt hlong) htail
  rw [slice, ← hforgotten]
  show e ∈ c.forgottenEvents (visible history) ↔ _
  rw [hbetween, List.mem_filter, Bool.not_eq_true']

/-- The slice lies between what comes before it and what comes after it. -/
theorem Shape.slice_ids {y e : Event} (hy : y ∈ slice c history n) :
    (e ∈ (visible history).take c.keepFirst.toNat → e.id < y.id) ∧
      (e ∈ (conversation history).drop ((conversation history).length - RollingShape.keptTail c) → y.id < e.id) := by
  have hn := h.rolling.length_viewEvents hlong
  have hord : Ordered (View.keptEvents history) := h.rolling.ordered.filter _
  rw [h.rolling.pieces hn.le] at hord
  obtain ⟨hfront, -, hback⟩ := List.pairwise_append.mp hord
  obtain ⟨-, -, hmiddle⟩ := List.pairwise_append.mp hfront
  rw [h.take_visible hlong]
  exact ⟨fun he => hmiddle e he y hy, fun he => hback y (List.mem_append_right _ hy) e he⟩

end Shapes

/-! ## One ask -/

section Ask

open MaskingCondenser (shown)

variable {c : SummarySizes} {history : List Event} {n : Nat} {summary : Option String} {a : CondensationAction}
  {text : String}

theorem take_between_drop {α : Type} (c : SummarySizes) {xs : List α} {x : α} (hx : x ∈ xs) :
    x ∈ xs.take c.keepFirst.toNat ∨ x ∈ between c xs ∨ x ∈ xs.drop (xs.length - RollingShape.keptTail c) := by
  rw [← List.take_append_drop (xs.length - RollingShape.keptTail c) xs, List.mem_append] at hx
  rcases hx with hx | hx
  · rw [← List.take_append_drop c.keepFirst.toNat (xs.take (xs.length - RollingShape.keptTail c)), List.mem_append] at hx
    refine hx.imp (fun hhead => ?_) .inl
    rw [List.take_take] at hhead
    exact List.take_subset_take_left xs (min_le_left _ _) hhead
  · exact .inr (.inr hx)

theorem zip_masked (history : List Event) :
    (visible history).zip (masked history).events = (marks history).map fun x => (x.1, shown x) := by
  rw [masked_events, ← marks_fst, List.zip_map']

theorem shown_of_masked {x : Event × Bool} (h : x.2 = true) : (shown x).isAgentCondensation = true := by
  rw [shown, if_pos h]
  rfl

/-- The summary itself has no id of the stream. -/
theorem Shape.id_of_summary (h : Shape c history n summary) {e : Event} (he : e ∈ visible history)
    (hsummary : e.isAgentCondensation = true) : e.id = INVALID_ID := by
  rw [h.visible_eq] at he
  have hconv {e : Event} (he : e ∈ conversation history) : ¬ e.isAgentCondensation = true := by
    rw [h.rolling.noSummaries e he]
    exact Bool.false_ne_true
  cases summary with
  | none => exact absurd hsummary (hconv he)
  | some text =>
    rcases List.mem_append.mp he with he | he
    · exact absurd hsummary (hconv (List.mem_of_mem_take he))
    · rcases List.mem_cons.mp he with rfl | he
      · rfl
      · exact absurd hsummary (hconv (List.mem_of_mem_drop he))

/-- Without a masked event between head and end, all that is forgotten is in the prompt. -/
theorem covered_of_unmasked (h : Shape c history n summary) (hlong : c.maxSize < (visible history).length)
    (hunmasked : ∀ x ∈ between c (marks history), x.2 = false)
    (hok : c.getCondensation text (View.fromEvents history) = .ok a) :
    ∀ x ∈ (visible history).zip (masked history).events, x.1.id ∈ a.forgotten →
      x.2 ∈ c.forgottenEvents (masked history).events := by
  obtain ⟨htail, -, s, t, hs, ht, hids, hstart, hend, -⟩ := h.rolling.getCondensation_ok hok
  obtain ⟨first, hfirst, rfl⟩ := (minId_spec hs).1
  obtain ⟨last, hlast, rfl⟩ := (maxId_spec ht).1
  have hlen := keep_lt (c := c) hlong
  have hdrop := h.drop_visible hlong htail
  intro x hx hforgotten
  rw [zip_masked] at hx
  obtain ⟨m, hm, rfl⟩ := List.mem_map.mp hx
  obtain ⟨hge, hle⟩ := (CondensationAction.mem_forgotten_range hids hstart hend).mp hforgotten
  dsimp only at hge hle ⊢
  rcases take_between_drop c hm with hhead | hmiddle | hback
  · -- before the slice the ids are too small
    have hmem : m.1 ∈ (visible history).take c.keepFirst.toNat := by
      rw [← marks_fst, ← List.map_take]
      exact List.mem_map_of_mem hhead
    have hlt := (h.slice_ids hlong hfirst).1 hmem
    omega
  · have hshown : shown m = m.1 := by rw [shown, hunmasked m hmiddle]; rfl
    have hbetween : m.1 ∈ between c (masked history).events := by
      rw [masked_events, between_map, ← hshown]
      exact List.mem_map_of_mem hmiddle
    rw [forgottenEvents_between ((length_masked history).symm ▸ hlen) htail, List.mem_filter, hshown]
    refine ⟨hbetween, ?_⟩
    rw [Bool.not_eq_true']
    by_contra hsummary
    have hvisible : m.1 ∈ visible history := marks_fst history ▸ List.mem_map_of_mem hm
    have hid := h.id_of_summary hvisible (Bool.not_eq_false _ ▸ hsummary)
    have hnonneg := h.nonneg first (List.mem_of_mem_filter (List.mem_of_mem_drop (List.mem_of_mem_take hfirst)))
    rw [hid, INVALID_ID] at hge
    omega
  · -- after it they are too large
    have hmem : m.1 ∈ (conversation history).drop ((conversation history).length - RollingShape.keptTail c) := by
      rw [← hdrop, ← marks_fst, List.length_map, ← List.map_drop]
      exact List.mem_map_of_mem hback
    have hlt := (h.slice_ids hlong hlast).2 hmem
    omega

theorem length_visible_condensation (history : List Event) {k : Int} (hord : Ordered history)
    (hsummary : a.summary = some text) (hoffset : a.summaryOffset = some k) :
    (visible (history ++ [condensationEvent history a])).length =
      ((View.keptEvents history).filter fun x => !a.forgotten.contains x.id).length + 1 := by
  have hnew : View.summaryOf (condensationEvent history a) = some (text, k) := by
    simp [View.summaryOf, condensationEvent, Event.condensation?, hsummary, hoffset]
  have hlast : View.lastSummary (history ++ [condensationEvent history a]) = some (text, k) := by
    rw [View.lastSummary_append, hnew]
    rfl
  show (View.insertSummary (View.keptEvents _) (View.lastSummary _)).length = _
  rw [hlast, keptEvents_condensation hord]
  show (Py.takeTo _ _ ++ _ :: Py.dropTo _ _).length = _
  rw [List.length_append, List.length_cons, ← Nat.add_assoc, ← List.length_append, Py.takeTo_append_dropTo]

/-- An event masked between head and end is forgotten without being in the prompt, or stays and makes
the view too long. -/
theorem unmasked_of_covered (h : Shape c history n summary) (hlong : c.maxSize < (visible history).length)
    (hok : c.getCondensation text (masked history) = .ok a)
    (hcovered : ∀ x ∈ (visible history).zip (masked history).events, x.1.id ∈ a.forgotten →
      x.2 ∈ c.forgottenEvents (masked history).events)
    (hlength : (visible (history ++ [condensationEvent history a])).length = c.maxSize / 2) :
    ∀ x ∈ between c (marks history), x.2 = false := by
  have hlen := keep_lt (c := c) hlong
  have hlenMasked : c.keepFirst < (masked history).events.length := (length_masked history).symm ▸ hlen
  obtain ⟨s, t, hs, ht, hids, hstart, hend, hsummary, hoffset⟩ := getCondensation_fields hok
  obtain ⟨first, hfirst, rfl⟩ := (minId_spec hs).1
  obtain ⟨last, hlast, rfl⟩ := (maxId_spec ht).1
  have htail : 0 < RollingShape.keptTail c := by
    by_contra hzero
    rw [RollingShape.forgottenEvents_of_noTail hlenMasked (Nat.eq_zero_of_not_pos hzero)] at hfirst
    exact absurd hfirst List.not_mem_nil
  -- what the summarizer sees unmasked is in the slice
  have hslice {e : Event} (he : e ∈ c.forgottenEvents (masked history).events) : e ∈ slice c history n := by
    rw [forgottenEvents_between hlenMasked htail, List.mem_filter, masked_events, between_map] at he
    obtain ⟨m, hm, rfl⟩ := List.mem_map.mp he.1
    have hplain : (shown m).isAgentCondensation = false := by simpa using he.2
    have hnot : ¬ m.2 = true := fun hmask => by simp [shown_of_masked hmask] at hplain
    rw [shown, if_neg hnot] at hplain ⊢
    refine (h.mem_slice hlong htail).mpr ⟨?_, hplain⟩
    rw [← marks_fst, between_map]
    exact List.mem_map_of_mem hm
  intro x hx
  by_contra hmask
  have hmask : x.2 = true := Bool.not_eq_false _ ▸ hmask
  have hmem : x ∈ marks history := List.mem_of_mem_take (List.mem_of_mem_drop hx)
  have hplain : x.1.isAgentCondensation = false := by
    have hbrowser := browserOutput_of_masked hmem hmask
    unfold Event.browserOutput? at hbrowser
    unfold Event.isAgentCondensation
    split at hbrowser
    next o ho => rw [ho]
    · cases hbrowser
  have hxslice : x.1 ∈ slice c history n := by
    refine (h.mem_slice hlong htail).mpr ⟨?_, hplain⟩
    rw [← marks_fst, between_map]
    exact List.mem_map_of_mem hx
  have hrange {i : Int} : i ∈ a.forgotten ↔ first.id ≤ i ∧ i ≤ last.id :=
    CondensationAction.mem_forgotten_range hids hstart hend
  have hout : ¬ (first.id ≤ x.1.id ∧ x.1.id ≤ last.id) := by
    intro hin
    have hprompt := hcovered (x.1, shown x) (by rw [zip_masked]; exact List.mem_map_of_mem hmem) (hrange.mpr hin)
    rw [forgottenEvents_between hlenMasked htail, List.mem_filter, shown_of_masked hmask] at hprompt
    exact absurd hprompt.2 (by simp)
  rw [length_visible_condensation history h.rolling.ordered hsummary hoffset] at hlength
  have hn := h.rolling.length_viewEvents hlong
  have hk := h.rolling.head_le
  have hkeep := c.keepFirst_nonneg
  have hhead : ((conversation history).take c.keepFirst.toNat).filter (fun x => !a.forgotten.contains x.id) =
      (conversation history).take c.keepFirst.toNat := by
    refine List.filter_eq_self.mpr fun e he => ?_
    rw [← h.take_visible hlong] at he
    have hlt := (h.slice_ids hlong (hslice hfirst)).1 he
    rw [Bool.not_eq_true', ← Bool.not_eq_true, List.contains_iff_mem, hrange]
    omega
  have hback : ((conversation history).drop ((conversation history).length - RollingShape.keptTail c)).filter
      (fun x => !a.forgotten.contains x.id) =
      (conversation history).drop ((conversation history).length - RollingShape.keptTail c) := by
    refine List.filter_eq_self.mpr fun e he => ?_
    have hlt := (h.slice_ids hlong (hslice hlast)).2 he
    rw [Bool.not_eq_true', ← Bool.not_eq_true, List.contains_iff_mem, hrange]
    omega
  have hstays : x.1 ∈ (slice c history n).filter (fun x => !a.forgotten.contains x.id) := by
    rw [List.mem_filter, Bool.not_eq_true', ← Bool.not_eq_true, List.contains_iff_mem, hrange]
    exact ⟨hxslice, hout⟩
  have hpos := List.length_pos_of_mem hstays
  rw [h.rolling.pieces hn.le, List.filter_append, List.filter_append, hhead, hback, List.length_append,
    List.length_append, List.length_take, List.length_drop] at hlength
  rw [slice] at hpos
  unfold RollingShape.keptTail at hlength hpos hn htail
  omega

theorem summaryContent_plain {e : Event} (h : e.isAgentCondensation = false) :
    SummarySizes.summaryContent e = "No events summarized" := by
  unfold SummarySizes.summaryContent
  split
  next o ho =>
    unfold Event.isAgentCondensation at h
    rw [ho] at h
    cases h
  · rfl

/-- The event after the head is the summary, when there is one. -/
theorem previous_iff (h : Shape c history n summary) (hlong : c.maxSize < (visible history).length)
    (hunmasked : ∀ x ∈ between c (marks history), x.2 = false) {e : Event}
    (he : (masked history).events[c.keepFirst.toNat]? = some e) :
    truncateContent (SummarySizes.summaryContent e) (some maxEventLength) = latestSummary history ↔
      ∀ text offset, View.lastSummary history = some (text, offset) →
        truncateContent text (some maxEventLength) = text := by
  have hn := h.rolling.length_viewEvents hlong
  have hk := h.rolling.head_le
  have hkeep := c.keepFirst_lt
  have hnonneg := c.keepFirst_nonneg
  have hvisible : (visible history)[c.keepFirst.toNat]? = some e := by
    rw [masked_events, List.getElem?_map] at he
    obtain ⟨m, hm, rfl⟩ := Option.map_eq_some_iff.mp he
    have hlt : c.keepFirst.toNat < (marks history).length - RollingShape.keptTail c := by
      rw [length_marks]
      unfold RollingShape.keptTail
      omega
    have hfirst : (between c (marks history))[0]? = some m := by
      rw [between, List.getElem?_drop, Nat.add_zero, List.getElem?_take_of_lt hlt]
      exact hm
    rw [shown, hunmasked m (List.mem_of_getElem? hfirst), ← marks_fst, List.getElem?_map, hm]
    rfl
  have hlast := h.rolling.lastSummary
  rw [h.visible_eq] at hvisible
  cases summary with
  | none =>
    rw [summaryContent_plain (h.rolling.noSummaries e (List.mem_of_getElem? hvisible)), latestSummary, hlast]
    have hshort : truncateContent "No events summarized" (some maxEventLength) = "No events summarized" := by decide
    exact iff_of_true hshort fun text offset h => absurd h.symm (Option.some_ne_none (text, offset))
  | some text =>
    have hhead : ((conversation history).take c.keepFirst.toNat).length = c.keepFirst.toNat := by
      rw [List.length_take]
      omega
    rw [RollingShape.viewEvents, List.getElem?_append_right hhead.le, hhead, Nat.sub_self, List.getElem?_cons_zero] at hvisible
    obtain rfl := Option.some.inj hvisible
    rw [latestSummary, hlast]
    constructor
    · intro htruncate text' offset heq
      obtain ⟨rfl, -⟩ := Prod.mk.inj (Option.some.inj heq)
      exact htruncate
    · exact fun hshort => hshort text c.keepFirst rfl

/-- The pipeline does its part exactly when a view that is too long can be summarised. -/
theorem losesNothing_iff (h : Shape c history n summary) (r : SummaryResponse) :
    LosesNothing c history r ↔ (c.maxSize < (visible history).length → Summarisable c history) := by
  have hrequest := h.unhandledRequest
  constructor
  · rintro ⟨hanswers, hsummarised⟩ hlong
    obtain ⟨a, hok⟩ := (answers_iff hrequest).mp hanswers hlong
    obtain ⟨prompt, hprompt, hprevious, hcovered, hlength⟩ :=
      hsummarised a ((condensation_iff hrequest).mpr ⟨hlong, hok⟩)
    obtain ⟨e, he, hprompt'⟩ := prompt_of_getCondensation hok
    obtain rfl := Except.ok.inj (hprompt'.symm.trans hprompt)
    have hunmasked := unmasked_of_covered h hlong hok hcovered hlength
    have htail : 0 < RollingShape.keptTail c := by
      obtain ⟨s, t, hs, -⟩ := getCondensation_fields hok
      obtain ⟨first, hfirst, -⟩ := (minId_spec hs).1
      by_contra hzero
      rw [RollingShape.forgottenEvents_of_noTail ((length_masked history).symm ▸ keep_lt hlong)
        (Nat.eq_zero_of_not_pos hzero)] at hfirst
      exact absurd hfirst List.not_mem_nil
    rw [getCondensation_masked hunmasked hlong htail] at hok
    obtain ⟨hroom, hprint⟩ := (getCondensation_long h.rolling hlong).mp ⟨a, hok⟩
    exact ⟨hroom, hunmasked, hprint, (previous_iff h hlong hunmasked he).mp hprevious⟩
  · intro hcond
    refine ⟨(answers_iff hrequest).mpr fun hlong => ?_, fun a hcondensed => ?_⟩
    · obtain ⟨hroom, hunmasked, hprint, -⟩ := hcond hlong
      have htail : 0 < RollingShape.keptTail c := by unfold RollingShape.keptTail; omega
      rw [getCondensation_masked hunmasked hlong htail]
      exact (getCondensation_long h.rolling hlong).mpr ⟨hroom, hprint⟩
    · obtain ⟨hlong, hok⟩ := (condensation_iff hrequest).mp hcondensed
      obtain ⟨hroom, hunmasked, -, hshort⟩ := hcond hlong
      have htail : 0 < RollingShape.keptTail c := by unfold RollingShape.keptTail; omega
      obtain ⟨e, he, hprompt⟩ := prompt_of_getCondensation hok
      rw [getCondensation_masked hunmasked hlong htail] at hok
      obtain ⟨-, -, -, -, hlength⟩ := view_condensed h.rolling hok
      exact ⟨_, hprompt, (previous_iff h hlong hunmasked he).mpr hshort,
        covered_of_unmasked h hlong hunmasked hok, hlength⟩

end Ask

/-! ## Runs of the server -/

section Run

def AskLosesNothing (c : SummarySizes) (history : List Event) : Step → Prop
  | .feed _ => True
  | .ask r => LosesNothing c history r

def AskSummarisable (c : SummarySizes) (history : List Event) : Step → Prop
  | .feed _ => True
  | .ask _ => c.maxSize < (visible history).length → Summarisable c history

variable (c : SummarySizes)

theorem step_shape {history : List Event} (h : ∃ n summary, Shape c history n summary) {s : Step}
    (hask : AskLosesNothing c history s) : ∃ n summary, Shape c (step c history s) n summary := by
  obtain ⟨n, summary, h⟩ := h
  cases s with
  | feed e =>
    have hconv : ({ e.event with id := nextId history } : Event).isConversation = true := e.conversation
    have hrequest : ({ e.event with id := nextId history } : Event).isCondensationRequest = false := by
      have hboth := e.conversation
      rw [Event.isConversation, Bool.and_eq_true] at hboth
      exact (Bool.not_eq_true' _).mp hboth.2
    exact ⟨n, summary, h.append (h.rolling.converse hconv le_rfl e.notSummary) hrequest rfl⟩
  | ask r =>
    unfold step
    dsimp only
    split
    next a hok =>
      obtain ⟨hlong, hget⟩ := (condensation_iff h.unhandledRequest).mp hok
      obtain ⟨hroom, hunmasked, -⟩ := (losesNothing_iff h r).mp hask hlong
      have htail : 0 < RollingShape.keptTail c := by unfold RollingShape.keptTail; omega
      rw [getCondensation_masked hunmasked hlong htail] at hget
      exact ⟨_, _, h.append (h.rolling.condense hget) rfl rfl⟩
    · exact ⟨n, summary, h⟩

/-- Along a run the pipeline loses nothing exactly when each view that is too long can be summarised. -/
theorem losesNothing_run_iff (steps : List Step) :
    Runs.EachStep (step c) [] (AskLosesNothing c) steps ↔ Runs.EachStep (step c) [] (AskSummarisable c) steps := by
  refine Runs.eachStep_iff (I := fun history => ∃ n summary, Shape c history n summary) ⟨_, _, .nil c⟩
    (fun history s h hask => step_shape c h hask) (fun history s h => ?_) steps
  obtain ⟨n, summary, h⟩ := h
  cases s with
  | feed e => exact Iff.rfl
  | ask r => exact losesNothing_iff h r

/-! The first of three browser outputs, where the summary would stand. -/

theorem four_nonneg : (0 : Int) ≤ 4 := by decide

def sizes : SummarySizes := ⟨12, 4, by decide, four_nonneg, by decide⟩

def message : StreamEvent := ⟨{ body := .action (.message { content := "hi" }) }, rfl, fedMessage.notSummary⟩

def page : StreamEvent := ⟨{ body := .observation (.browserOutput { content := "", url := "u", triggerByAction := "" }) }, rfl, rfl⟩

def browsing : List (StreamEvent × SummaryResponse) :=
  (List.replicate 4 message ++ List.replicate 3 page ++ List.replicate 6 message).map fun e => (e, { content := "s" })

/-- The history when the thirteenth event has arrived. -/
def browsed : List Event := (serverSteps browsing).dropLast.foldl (step sizes) []

theorem takes_page_for_summary : ¬ ∀ m c, SummarySizes.init m 4 = .ok c → ∀ stream,
    Runs.EachStep (step c) [] (AskLosesNothing c) (serverSteps stream) := by
  intro h
  have hlast : LosesNothing sizes browsed { content := "s" } :=
    h 12 sizes rfl browsing ((serverSteps browsing).dropLast) (.ask { content := "s" }) ⟨[], rfl⟩
  have hshown : (sizes.prompt maxEventLength (masked browsed)).toOption.map SummaryPrompt.previousSummary =
      some "Visited URL u\nContent omitted" := by decide +kernel
  have hcondensed : condensedHistory (condensers sizes { content := "s" }) browsed =
      .ok (.condensation {
        forgottenEventsStartId := some 5, forgottenEventsEndId := some 11, summary := some "s", summaryOffset := some 4,
        valid := rfl }) := by rfl
  obtain ⟨prompt, hprompt, hprevious, -⟩ := hlast.summarised _ hcondensed
  have hnone : latestSummary browsed = "No events summarized" := by decide +kernel
  rw [hprompt] at hshown
  have htext : prompt.previousSummary = "Visited URL u\nContent omitted" := Option.some.inj hshown
  rw [htext, hnone] at hprevious
  exact absurd hprevious (by decide)

end Run

end DefaultPipeline

end OpenHands
