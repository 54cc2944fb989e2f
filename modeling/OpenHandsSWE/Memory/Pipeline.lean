import OpenHandsSWE.Memory.RollingView

/-! The condensers that mask what the agent saw long ago, the one that forgets the middle of the
history, and the pipelines they form. -/

namespace OpenHands

namespace Event

def browserOutput? (e : Event) : Option BrowserOutputObservation :=
  match e.body with
  | .observation (.browserOutput o) => some o
  | _ => none

end Event

/-! ## Masking -/

namespace ObservationMaskingCondenser

def condense (attentionWindow : Int) (view : View) : View where
  events := view.events.zipIdx.map fun (e, i) =>
    if e.isObservation && i < view.events.length - attentionWindow then
      agentCondensationObservation "<MASKED>"
    else e

end ObservationMaskingCondenser

namespace BrowserOutputCondenser

/-- The loop over the reversed view; `cnt` counts the browser outputs it has left as they are. -/
def maskReversed (attentionWindow : Int) : List Event → Nat → List Event
  | [], _ => []
  | e :: rest, cnt =>
    match e.browserOutput? with
    | some o =>
      if attentionWindow ≤ cnt then
        agentCondensationObservation ("Visited URL " ++ o.url ++ "\nContent omitted") ::
          maskReversed attentionWindow rest cnt
      else e :: maskReversed attentionWindow rest (cnt + 1)
    | none => e :: maskReversed attentionWindow rest cnt

def condense (attentionWindow : Int) (view : View) : View where
  events := (maskReversed attentionWindow view.events.reverse 0).reverse

end BrowserOutputCondenser

inductive MaskingCondenser where
  | observationMasking (attentionWindow : Int)
  | browserOutput (attentionWindow : Int)
deriving DecidableEq, Repr

namespace MaskingCondenser

def condense : MaskingCondenser → View → View
  | .observationMasking w => ObservationMaskingCondenser.condense w
  | .browserOutput w => BrowserOutputCondenser.condense w

end MaskingCondenser

/-! ## Forgetting the middle -/

namespace AmortizedForgettingCondenser

/-- The checks of the constructor; the last message shows the wrong argument. -/
def init (maxSize keepFirst : Int) : Except PyError SummarySizes :=
  if h1 : maxSize / 2 ≤ keepFirst then
    .error (.valueError ("keep_first (" ++ toString keepFirst ++
      ") must be less than half of max_size (" ++ toString maxSize ++ ")"))
  else if h2 : keepFirst < 0 then
    .error (.valueError ("keep_first (" ++ toString keepFirst ++ ") cannot be negative"))
  else if h3 : maxSize < 1 then
    .error (.valueError ("max_size (" ++ toString keepFirst ++ ") cannot be non-positive"))
  else .ok ⟨maxSize, keepFirst, SummarySizes.keepFirst_lt_of h1, SummarySizes.keepFirst_nonneg_of h2,
    SummarySizes.maxSize_pos_of h3⟩

variable (c : SummarySizes)

def eventIdsToKeep (view : List Event) : List Int :=
  let targetSize := c.maxSize / 2
  let head := Py.takeTo view c.keepFirst
  let eventsFromTail := targetSize - head.length
  let tail := Py.dropTo view (-eventsFromTail)
  (head ++ tail).map Event.id

def eventIdsToForget (view : List Event) : List Int :=
  (view.map Event.id).filter fun i => !(eventIdsToKeep c view).contains i

def getCondensation (view : View) : Except PyError CondensationAction :=
  match (eventIdsToForget c view.events).min?, (eventIdsToForget c view.events).max? with
  | some startId, some endId =>
    .ok {
      forgottenEventsStartId := some startId
      forgottenEventsEndId := some endId
      valid := validateFieldPolymorphism_range startId endId }
  | _, _ => .error (.valueError "min() arg is an empty sequence")

def condense (view : View) : Except PyError Condensed :=
  if c.shouldCondense view then (getCondensation c view).map .condensation else .ok (.view view)

end AmortizedForgettingCondenser

/-! ## Pipelines -/

namespace CondenserPipeline

/-- Each condenser is given the view of the one before it, up to the first condensation. -/
def condense : List (View → Except PyError Condensed) → View → Except PyError Condensed
  | [], view => .ok (.view view)
  | condenser :: rest, view =>
    match condenser view with
    | .ok (.view result) => condense rest result
    | result => result

end CondenserPipeline

/-- A masking condenser and then the one that forgets. -/
def maskThenForget (stage : MaskingCondenser) (c : SummarySizes) : View → Except PyError Condensed :=
  CondenserPipeline.condense
    [fun view => .ok (.view (stage.condense view)), AmortizedForgettingCondenser.condense c]

theorem maskThenForget_eq (stage : MaskingCondenser) (c : SummarySizes) (view : View) :
    maskThenForget stage c view = AmortizedForgettingCondenser.condense c (stage.condense view) := by
  show CondenserPipeline.condense [AmortizedForgettingCondenser.condense c] _ = _
  rw [CondenserPipeline.condense]
  split
  next result hresult => rw [hresult]; rfl
  · rfl

/-- An event arrives with the next id, or the pipeline is asked; condensations come from the
pipeline alone. -/
inductive PipelineStep where
  | feed (e : Event) (notCondensation : e.condensation? = none)
  | ask

def stepPipeline (stage : MaskingCondenser) (c : SummarySizes) (history : List Event) :
    PipelineStep → List Event
  | .feed e _ => history ++ [{ e with id := nextId history }]
  | .ask =>
    match maskThenForget stage c (View.fromEvents history) with
    | .ok (.condensation a) => history ++ [condensationEvent history a]
    | _ => history

def runPipeline (stage : MaskingCondenser) (c : SummarySizes) (steps : List PipelineStep) :
    List Event :=
  steps.foldl (stepPipeline stage c) []

/-! ## What the masking condensers hide -/

namespace MaskingCondenser

def browserOutputs (events : List Event) : Nat := events.countP fun e => e.browserOutput?.isSome

/-- Whether an event is masked when `rest` is all that comes after it: an observation by the number
of events, a browser output by the number of browser outputs. -/
def masks : MaskingCondenser → Event → List Event → Bool
  | .observationMasking w, e, rest => e.isObservation && w ≤ rest.length
  | .browserOutput w, e, rest =>
    e.browserOutput?.isSome && w ≤ browserOutputs rest

/-- Every event of a view, marked when it is masked. -/
def marked (stage : MaskingCondenser) : List Event → List (Event × Bool)
  | [] => []
  | e :: rest => (e, stage.masks e rest) :: stage.marked rest

@[simp] theorem marked_map_fst (stage : MaskingCondenser) (view : List Event) :
    (stage.marked view).map Prod.fst = view := by
  induction view with
  | nil => rfl
  | cons e rest ih => rw [marked, List.map_cons, ih]

@[simp] theorem length_marked (stage : MaskingCondenser) (view : List Event) :
    (stage.marked view).length = view.length := by
  conv_rhs => rw [← stage.marked_map_fst view, List.length_map]

/-- The id a marked event still shows: what takes the place of a masked event has none. -/
def seenId (x : Event × Bool) : Int := if x.2 then INVALID_ID else x.1.id

section ObservationMasking

variable (w : Int)

theorem observationMasking_ids (total : Int) (view : List Event) (start : Nat)
    (h : total = start + view.length) :
    ((view.zipIdx start).map fun (e, i) =>
        if e.isObservation && i < total - w then agentCondensationObservation "<MASKED>" else e).map
      Event.id = ((observationMasking w).marked view).map seenId := by
  induction view generalizing start with
  | nil => rfl
  | cons e rest ih =>
    have hrest : total = ((start + 1 : Nat) : Int) + rest.length := by
      rw [List.length_cons] at h
      omega
    have hwindow : decide ((start : Int) < total - w) = decide (w ≤ rest.length) := by
      rw [decide_eq_decide]
      omega
    rw [List.zipIdx_cons, List.map_cons, List.map_cons, ih (start + 1) hrest, marked, List.map_cons]
    dsimp only
    rw [hwindow, seenId, masks]
    split_ifs <;> rfl

end ObservationMasking

section BrowserOutput

variable (w : Int)

theorem browserOutputs_cons (e : Event) (events : List Event) :
    browserOutputs (e :: events) = browserOutputs events + if e.browserOutput?.isSome then 1 else 0 := by
  rw [browserOutputs, List.countP_cons, browserOutputs]

/-- What stands in the new view for an event. -/
def shown (x : Event × Bool) : Event :=
  if x.2 then agentCondensationObservation
    ("Visited URL " ++ ((x.1.browserOutput?.map BrowserOutputObservation.url).getD "") ++ "\nContent omitted")
  else x.1

/-- The counter is the number of browser outputs passed, or both have filled the window. -/
theorem maskReversed_eq (todo passed : List Event) (cnt : Nat)
    (h : cnt = browserOutputs passed ∨ w ≤ cnt ∧ w ≤ browserOutputs passed) :
    (BrowserOutputCondenser.maskReversed w todo cnt).reverse ++ ((browserOutput w).marked passed).map shown =
      ((browserOutput w).marked (todo.reverse ++ passed)).map shown := by
  induction todo generalizing passed cnt with
  | nil => rfl
  | cons e rest ih =>
    have hcount := browserOutputs_cons e passed
    have hmasks : (browserOutput w).masks e passed =
        (e.browserOutput?.isSome && decide (w ≤ browserOutputs passed)) := rfl
    rw [List.reverse_cons, List.append_assoc, List.singleton_append, BrowserOutputCondenser.maskReversed]
    cases ho : e.browserOutput? with
    | none =>
      rw [ho] at hcount hmasks
      rw [← ih (e :: passed) cnt (by simpa [hcount] using h), marked, hmasks]
      simp [shown]
    | some o =>
      rw [ho] at hcount hmasks
      dsimp only
      split_ifs with hfull
      · have hseen : w ≤ browserOutputs passed := by
          rcases h with h | h
          · exact h ▸ hfull
          · exact h.2
        have hnext : w ≤ browserOutputs (e :: passed) := by
          rw [hcount]
          push_cast
          omega
        rw [← ih (e :: passed) cnt (.inr ⟨hfull, hnext⟩), marked, hmasks]
        simp [shown, hseen, ho]
      · have heq : cnt = browserOutputs passed := h.resolve_right fun h => hfull h.1
        have hseen : ¬ w ≤ browserOutputs passed := heq ▸ hfull
        rw [← ih (e :: passed) (cnt + 1) (.inl (by simp [hcount, heq])), marked, hmasks]
        simp [shown, hseen]

theorem seenId_eq_shown {x : Event × Bool} : (shown x).id = seenId x := by
  unfold shown seenId
  split_ifs <;> rfl

theorem maskReversed_ids (view : List Event) :
    (BrowserOutputCondenser.maskReversed w view.reverse 0).reverse.map Event.id =
      ((browserOutput w).marked view).map seenId := by
  have h := maskReversed_eq w view.reverse [] 0 (.inl rfl)
  rw [List.reverse_reverse, List.append_nil, marked, List.map_nil, List.append_nil] at h
  rw [h, List.map_map]
  exact List.map_congr_left fun x _ => seenId_eq_shown

end BrowserOutput

/-- Masking leaves every id but those of the masked events, in the same places. -/
theorem condense_ids (stage : MaskingCondenser) (view : View) :
    (stage.condense view).events.map Event.id = (stage.marked view.events).map seenId := by
  cases stage with
  | observationMasking w => exact observationMasking_ids w _ view.events 0 (by simp)
  | browserOutput w => exact maskReversed_ids w view.events

theorem condense_unhandled (stage : MaskingCondenser) (view : View) :
    (stage.condense view).unhandledCondensationRequest = false := by
  cases stage <;> rfl

theorem length_condense (stage : MaskingCondenser) (view : View) :
    (stage.condense view).events.length = view.events.length := by
  have h := congrArg List.length (stage.condense_ids view)
  rwa [List.length_map, List.length_map, length_marked] at h

end MaskingCondenser

end OpenHands
