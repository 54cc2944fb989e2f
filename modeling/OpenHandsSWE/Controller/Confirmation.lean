import OpenHandsSWE.Controller.Effects

/-! The confirmation of actions: an action that had to wait runs only after the user confirmed it,
and no action runs twice, as long as nothing but a waiting action is confirmed. -/

namespace OpenHands

namespace Confirmation

def Awaits (o : Obj) : Prop := o.confirmationState = some (.known .awaitingConfirmation)

instance (o : Obj) : Decidable (Awaits o) := inferInstanceAs (Decidable (_ = _))

/-- The object as it went into the stream for the first time. -/
def firstSent (trace : List Entry) (k : Nat) : Option Obj :=
  trace.findSome? fun entry =>
    match entry.mark with
    | .emitted k' _ _ sent _ => if k' = k then some sent else none
    | _ => none

/-- The user confirmed the object while it was pending and the agent awaited that. -/
def ConfirmedWaiting (trace : List Entry) (k : Nat) : Prop :=
  ∃ isDelegate before,
    ⟨isDelegate, .commanded k .confirmed (.known .awaitingUserConfirmation) before⟩ ∈ trace

/-- (a) What first went into the stream awaiting confirmation has run only after it was confirmed as
the pending action in that agent state; (b) no action has run twice. -/
structure Protocol (s : Session) : Prop where
  confirmed : ∀ k o, firstSent s.desk.trace k = some o → Awaits o →
    (∃ d ∈ s.executed, d.object = some k) → ConfirmedWaiting s.desk.trace k
  once : ∀ k, (s.executed.filter fun d => d.object = some k).length ≤ 1

/-- `confirmation_state` is a field of its class. -/
def hasField (o : Obj) : Bool :=
  match o.event.body with
  | .action a => a.confirmationField.isSome
  | _ => false

/-- Its confirmation state goes through the stream with the object. -/
structure KeepsStatus (o : Obj) (secrets : List String) (status : ActionConfirmationStatus) : Prop where
  field : hasField o = true
  clean : ∀ secret ∈ secrets, ¬ secret.toList <:+: status.value.toList

/-- A runnable action is confirmed only while it awaits that, in the agent state that awaits it; and
what awaits confirmation or was rejected keeps that on its way through the stream. -/
def Guarded : Mark → Prop
  | .commanded _ .confirmed old before =>
    before.event.runnable = true → old = .known .awaitingUserConfirmation ∧ Awaits before
  | .emitted _ _ _ sent secrets =>
    sent.event.runnable = true → ∀ status, status ≠ .confirmed →
      sent.confirmationState = some (.known status) → KeepsStatus sent secrets status
  | _ => True

section Decidable

instance (o : Obj) (secrets : List String) (status : ActionConfirmationStatus) :
    Decidable (KeepsStatus o secrets status) :=
  decidable_of_iff
    (hasField o = true ∧ ∀ secret ∈ secrets, ¬ secret.toList <:+: status.value.toList)
    ⟨fun h => ⟨h.1, h.2⟩, fun h => ⟨h.field, h.clean⟩⟩

def decidableGuarded : (m : Mark) → Decidable (Guarded m)
  | .commanded _ .confirmed old before =>
    inferInstanceAs (Decidable (_ = true → old = .known .awaitingUserConfirmation ∧ Awaits before))
  | .emitted _ _ _ sent secrets =>
    decidable_of_iff
      (sent.event.runnable = true → ∀ status ∈ [ActionConfirmationStatus.rejected, .awaitingConfirmation],
        sent.confirmationState = some (.known status) → KeepsStatus sent secrets status) <| by
      refine forall_congr' fun _ => forall_congr' fun status => ?_
      cases status <;> simp
  | .commanded _ .rejected _ _ | .commanded _ .awaitingConfirmation _ _ | .returned _ | .overwritten _ _
  | .observed _ | .reset => .isTrue trivial

instance (m : Mark) : Decidable (Guarded m) := decidableGuarded m

end Decidable

/-! ## Copies that run -/

def runs (k : Nat) (d : Delivery) : Bool := decide (d.object = some k) && Runtime.executes d.event

def copies (executed toRuntime : List Delivery) (k : Nat) : Nat := (executed ++ toRuntime).countP (runs k)

theorem executes_runnable {a : Action} (h : Runtime.verdict a = .executes) : a.runnable = true := by
  unfold Runtime.verdict at h
  split at h
  · rfl
  · unfold Runtime.runAction at h
    split_ifs at h with hrunnable
    · split at h <;> cases h
    all_goals simpa using hrunnable

theorem not_executes {a : Action} {status : ActionConfirmationStatus}
    (h : a.confirmationField = some (.known status)) (hstatus : status ≠ .confirmed) :
    Runtime.verdict a ≠ .executes := by
  unfold Runtime.verdict
  split
  · cases h
  · unfold Runtime.runAction
    rw [h]
    split_ifs with hrunnable hawaiting hrejected
    · split <;> simp
    · simp
    · simp
    · cases status <;> simp_all

/-- A copy of an action with the field keeps its status. -/
theorem copy_status {out : Outside} {a : Action} {secrets : List String} {delivered : Event}
    {status : ActionConfirmationStatus} (hcopy : Copy out secrets (.action a) delivered)
    (hfield : a.confirmationField = some (.known status))
    (hclean : ∀ secret ∈ secrets, ¬ secret.toList <:+: status.value.toList) :
    ∃ a', delivered.body = .action a' ∧ a'.confirmationField = some (.known status) := by
  unfold Action.confirmationField at hfield
  split at hfield
  next cmd =>
    obtain ⟨cmd', hbody, hstate⟩ := hcopy.cmdRun (Option.some.inj hfield) hclean
    exact ⟨_, hbody, congrArg some hstate⟩
  next cell =>
    obtain ⟨cell', hbody, hstate⟩ := hcopy.ipythonRunCell (Option.some.inj hfield) hclean
    exact ⟨_, hbody, congrArg some hstate⟩
  · cases hfield

/-- A copy that runs was made of a runnable object that neither waits nor was rejected. -/
theorem copy_executes {out : Outside} {o : Obj} {secrets : List String} {delivered : Event} {k : Nat}
    {byStep : Bool} {id : Int} (hcopy : Copy out secrets o.event.body delivered)
    (hruns : Runtime.executes delivered = true) (hguarded : Guarded (.emitted k byStep id o secrets)) :
    o.event.runnable = true ∧ ∀ status, status ≠ .confirmed → o.confirmationState ≠ some (.known status) := by
  unfold Runtime.executes at hruns
  cases hbody : o.event.body with
  | observation obs =>
    obtain ⟨obs', hobs⟩ := (hbody ▸ hcopy).observation
    rw [hobs] at hruns
    cases hruns
  | plain => exact absurd (hbody ▸ hcopy) not_copy_plain
  | action a =>
    rw [hbody] at hcopy
    obtain ⟨a', ha', hcls⟩ := hcopy.cls
    rw [ha'] at hruns
    have hverdict : Runtime.verdict a' = .executes := of_decide_eq_true hruns
    have hrunnable : o.event.runnable = true := by
      unfold Event.runnable
      rw [hbody]
      exact (runnable_of_cls hcls).symm.trans (executes_runnable hverdict)
    refine ⟨hrunnable, fun status hne hstatus => ?_⟩
    obtain ⟨hfield, hclean⟩ := hguarded hrunnable status hne hstatus
    rw [hasField, hbody] at hfield
    obtain ⟨field, hfield⟩ := Option.isSome_iff_exists.mp hfield
    have hknown : a.confirmationField = some (.known status) := by
      unfold Obj.confirmationState at hstatus
      rw [hbody] at hstatus
      dsimp only at hstatus
      rw [hfield] at hstatus ⊢
      exact hstatus
    obtain ⟨a'', ha'', hkept⟩ := copy_status hcopy hknown hclean
    obtain rfl : a' = a'' := EventBody.action.inj (ha'.symm.trans ha'')
    exact not_executes hkept hne hverdict

section Copies

variable {executed toRuntime : List Delivery} {k : Nat}

theorem copies_arrive (place : Nat) (d : Delivery) :
    copies executed (Desk.arrive place d toRuntime) k =
      copies executed toRuntime k + if runs k d then 1 else 0 := by
  have hperm : (Desk.arrive place d toRuntime).Perm (d :: toRuntime) :=
    List.perm_insertIdx d toRuntime (Nat.sub_le _ _)
  unfold copies
  rw [List.countP_append, List.countP_append, hperm.countP_eq, List.countP_cons]
  omega

theorem runs_untagged (k : Nat) (e : Event) : runs k ⟨e, none⟩ = false := rfl

end Copies

/-! ## The invariant -/

theorem firstSent_append (trace later : List Entry) (k : Nat) :
    firstSent (trace ++ later) k = (firstSent trace k).or (firstSent later k) := List.findSome?_append

theorem ConfirmedWaiting.mono {trace : List Entry} {isDelegate : Bool} {m : Mark} {k : Nat} (h : ConfirmedWaiting trace k) :
    ConfirmedWaiting (trace ++ [⟨isDelegate, m⟩]) k := by
  obtain ⟨isDelegate', before, hmem⟩ := h
  exact ⟨isDelegate', before, List.mem_append_left _ hmem⟩

structure Safe (executed toRuntime : List Delivery) (heap : List Obj) (trace : List Entry) : Prop where
  once : ∀ k, copies executed toRuntime k ≤ 1
  waiting : ∀ k o, heap[k]? = some o → Awaits o → copies executed toRuntime k = 0
  allowed : ∀ k o, firstSent trace k = some o → Awaits o → 0 < copies executed toRuntime k →
    ConfirmedWaiting trace k
  unknown : ∀ k, heap.length ≤ k → copies executed toRuntime k = 0 ∧ firstSent trace k = none
  returned : ∀ isDelegate k, trace.getLast? = some ⟨isDelegate, .returned k⟩ →
    copies executed toRuntime k = 0 ∧ firstSent trace k = none

namespace Safe

variable {executed toRuntime : List Delivery} {heap : List Obj} {trace : List Entry}

theorem start : Safe [] [] [] [] where
  once _ := Nat.zero_le _
  waiting _ _ _ _ := rfl
  allowed _ _ _ _ h := absurd h (Nat.lt_irrefl 0)
  unknown _ _ := ⟨rfl, rfl⟩
  returned _ _ _ := ⟨rfl, rfl⟩

/-- Only how many copies of each object may run counts of the two pools. -/
theorem pools (h : Safe executed toRuntime heap trace) {executed' toRuntime' : List Delivery}
    (hcopies : ∀ k, copies executed' toRuntime' k = copies executed toRuntime k) :
    Safe executed' toRuntime' heap trace := by
  have heq : copies executed' toRuntime' = copies executed toRuntime := funext hcopies
  constructor <;> rw [heq]
  · exact h.once
  · exact h.waiting
  · exact h.allowed
  · exact h.unknown
  · exact h.returned

theorem post (h : Safe executed toRuntime heap trace) (place : Nat) (e : Event) :
    Safe executed (Desk.arrive place ⟨e, none⟩ toRuntime) heap trace :=
  h.pools fun k => by rw [copies_arrive, runs_untagged]; rfl

/-- A mark of nothing that was sent; when it is about a returned object, that object is new. -/
theorem note (h : Safe executed toRuntime heap trace) (isDelegate : Bool) {m : Mark}
    (hsent : ∀ k, firstSent [⟨isDelegate, m⟩] k = none)
    (hreturned : ∀ k, m = .returned k → heap.length ≤ k) :
    Safe executed toRuntime heap (trace ++ [⟨isDelegate, m⟩]) := by
  have hsame (k : Nat) : firstSent (trace ++ [⟨isDelegate, m⟩]) k = firstSent trace k := by
    rw [firstSent_append, hsent, Option.or_none]
  refine ⟨h.once, h.waiting, fun k o hfirst hawaits hpos => ?_, fun k hk => ?_, fun d k hlast => ?_⟩
  · rw [hsame] at hfirst
    exact (h.allowed k o hfirst hawaits hpos).mono
  · rw [hsame]
    exact h.unknown k hk
  · rw [List.getLast?_concat] at hlast
    cases hlast
    rw [hsame]
    exact h.unknown k (hreturned k rfl)

theorem grow (h : Safe executed toRuntime heap trace) (o : Obj) :
    Safe executed toRuntime (heap ++ [o]) trace := by
  refine ⟨h.once, fun k o' ho' hawaits => ?_, h.allowed, fun k hk => ?_, h.returned⟩
  · by_cases hk : k < heap.length
    · rw [List.getElem?_append_left hk] at ho'
      exact h.waiting k o' ho' hawaits
    · exact (h.unknown k (Nat.le_of_not_lt hk)).1
  · rw [List.length_append] at hk
    exact h.unknown k (Nat.le_of_add_right_le hk)

/-- An object changes, and does not begin to wait unless no copy of it may run. -/
theorem touch (h : Safe executed toRuntime heap trace) (k : Nat) (o' : Obj)
    (hawaits : Awaits o' → copies executed toRuntime k = 0) :
    Safe executed toRuntime (heap.set k o') trace := by
  refine ⟨h.once, fun k' o ho hwaits => ?_, h.allowed, fun k' hk' => ?_, h.returned⟩
  · by_cases hk : k = k'
    · subst hk
      by_cases hlt : k < heap.length
      · rw [List.getElem?_set_self hlt] at ho
        cases ho
        exact hawaits hwaits
      · exact (h.unknown k (Nat.le_of_not_lt hlt)).1
    · rw [List.getElem?_set_ne hk] at ho
      exact h.waiting k' o ho hwaits
  · rw [List.length_set] at hk'
    exact h.unknown k' hk'

end Safe

theorem awaits_of_alike {o o' : Obj} (h : o.Alike o') : Awaits o' ↔ Awaits o := by
  unfold Awaits Obj.confirmationState
  rw [h.body, h.adHoc]

theorem firstSent_emitted (isDelegate : Bool) (k : Nat) (byStep : Bool) (id : Int) (o : Obj)
    (secrets : List String) (k' : Nat) :
    firstSent [⟨isDelegate, .emitted k byStep id o secrets⟩] k' = if k = k' then some o else none := by
  unfold firstSent
  rw [List.findSome?_singleton]

namespace Safe

variable {executed toRuntime : List Delivery} {heap : List Obj} {trace : List Entry} {k : Nat} {o : Obj}

/-- The object is given an id to go into the stream. -/
theorem emitted (h : Safe executed toRuntime heap trace) (isDelegate byStep : Bool) (id : Int)
    (secrets : List String) (hk : k < heap.length) (hawaits : Awaits o → copies executed toRuntime k = 0) :
    Safe executed toRuntime heap (trace ++ [⟨isDelegate, .emitted k byStep id o secrets⟩]) := by
  refine ⟨h.once, h.waiting, fun k' o' hfirst hwaits hpos => ?_, fun k' hk' => ?_, fun d k' hlast => ?_⟩
  · rw [firstSent_append, firstSent_emitted] at hfirst
    cases hold : firstSent trace k' with
    | some first =>
      rw [hold] at hfirst
      cases hfirst
      exact (h.allowed k' o' hold hwaits hpos).mono
    | none =>
      rw [hold, Option.none_or] at hfirst
      split_ifs at hfirst with heq
      cases hfirst
      subst heq
      exact absurd (hawaits hwaits) (Nat.ne_of_gt hpos)
  · have hne : k ≠ k' := fun heq => Nat.not_le_of_lt hk (heq ▸ hk')
    rw [firstSent_append, firstSent_emitted, if_neg hne, Option.or_none]
    exact h.unknown k' hk'
  · rw [List.getLast?_concat] at hlast
    cases hlast

/-- One more copy that may run. -/
theorem run (h : Safe executed toRuntime heap trace) {toRuntime' : List Delivery}
    (hcopies : ∀ k', copies executed toRuntime' k' = copies executed toRuntime k' + if k = k' then 1 else 0)
    (hnone : copies executed toRuntime k = 0) (ho : heap[k]? = some o) (hawaits : ¬ Awaits o)
    (hconfirmed : ∀ first, firstSent trace k = some first → Awaits first → ConfirmedWaiting trace k)
    (hlast : ∀ isDelegate k', trace.getLast? ≠ some ⟨isDelegate, .returned k'⟩) :
    Safe executed toRuntime' heap trace := by
  have hother {k' : Nat} (hne : k ≠ k') : copies executed toRuntime' k' = copies executed toRuntime k' := by
    rw [hcopies, if_neg hne, Nat.add_zero]
  have hk := (List.getElem?_eq_some_iff.mp ho).1
  refine ⟨fun k' => ?_, fun k' o' ho' hwaits => ?_, fun k' first hfirst hwaits hpos => ?_, fun k' hk' => ?_,
    fun d k' hd => absurd hd (hlast d k')⟩
  · by_cases heq : k = k'
    · rw [hcopies, if_pos heq, ← heq, hnone]
    · rw [hother heq]
      exact h.once k'
  · have hne : k ≠ k' := by
      rintro rfl
      obtain rfl : o = o' := Option.some.inj (ho.symm.trans ho')
      exact hawaits hwaits
    rw [hother hne]
    exact h.waiting k' o' ho' hwaits
  · by_cases heq : k = k'
    · subst heq
      exact hconfirmed first hfirst hwaits
    · rw [hother heq] at hpos
      exact h.allowed k' first hfirst hwaits hpos
  · have hne : k ≠ k' := fun heq => Nat.not_le_of_lt hk (heq ▸ hk')
    rw [hother hne]
    exact h.unknown k' hk'

end Safe

/-- The object may be sent so that it runs. -/
structure MayRun (executed : List Delivery) (l : Ledger) (k : Nat) : Prop where
  none : copies executed l.toRuntime k = 0
  confirmed : ∀ o, firstSent l.trace k = some o → Awaits o → ConfirmedWaiting l.trace k

section Sending

variable {out : Outside} {executed : List Delivery} {l l' : Ledger} {byStep : Bool} {k : Nat} {o : Obj}

/-- Sending adds a copy that runs only if the object is runnable and neither waits nor was rejected. -/
theorem sends_copies (executed : List Delivery) (hsends : l.Sends out byStep k o l') (hguarded : ∀ entry ∈ l'.trace, Guarded entry.mark) :
    (∀ k', copies executed l'.toRuntime k' = copies executed l.toRuntime k') ∨
      o.event.runnable = true ∧ (∀ status, status ≠ .confirmed → o.confirmationState ≠ some (.known status)) ∧
        ∀ k', copies executed l'.toRuntime k' = copies executed l.toRuntime k' + if k = k' then 1 else 0 := by
  obtain ⟨stamped, secrets, toRuntime, halike, hpool, rfl⟩ := hsends
  rcases hpool with rfl | ⟨delivered, hcopy, rfl⟩
  · exact .inl fun _ => rfl
  · have hmark := hguarded _ (List.mem_append_right _ List.mem_cons_self)
    by_cases hruns : Runtime.executes delivered = true
    · obtain ⟨hrunnable, hstatus⟩ := copy_executes hcopy hruns hmark
      refine .inr ⟨hrunnable, hstatus, fun k' => ?_⟩
      rw [copies_arrive, runs, hruns, Bool.and_true]
      simp
    · refine .inl fun k' => ?_
      rw [copies_arrive, runs, Bool.eq_false_of_not_eq_true hruns, Bool.and_false]
      rfl

theorem Safe.send (h : Safe executed l.toRuntime l.heap l.trace) (ho : l.heap[k]? = some o)
    (hsends : l.Sends out byStep k o l') (hguarded : ∀ entry ∈ l'.trace, Guarded entry.mark)
    (hmay : o.event.runnable = true →
      (∀ status, status ≠ .confirmed → o.confirmationState ≠ some (.known status)) → MayRun executed l k) :
    Safe executed l'.toRuntime l'.heap l'.trace := by
  have hcopies := sends_copies executed hsends hguarded
  obtain ⟨stamped, secrets, toRuntime, halike, -, rfl⟩ := hsends
  have hk := (List.getElem?_eq_some_iff.mp ho).1
  have hawaits : Awaits o → copies executed l.toRuntime k = 0 := h.waiting k o ho
  have hsent : Safe executed l.toRuntime (l.heap.set k stamped)
      (l.trace ++ [⟨l.isDelegate, .emitted k byStep stamped.event.id o secrets⟩]) := by
    refine (h.touch k stamped fun hwaits => hawaits ((awaits_of_alike halike).mp hwaits)).emitted _ _ _ _ ?_ hawaits
    rwa [List.length_set]
  rcases hcopies with hsame | ⟨hrunnable, hstatus, hmore⟩
  · exact hsent.pools hsame
  · obtain ⟨hnone, hconfirmed⟩ := hmay hrunnable hstatus
    have hnot : ¬ Awaits o := hstatus .awaitingConfirmation (by decide)
    refine hsent.run hmore hnone (List.getElem?_set_self hk)
      (fun hwaits => hnot ((awaits_of_alike halike).mp hwaits)) (fun first hfirst hwaits => ?_) (fun d k' hlast => ?_)
    · rw [firstSent_append, firstSent_emitted, if_pos rfl] at hfirst
      cases hold : firstSent l.trace k with
      | some old =>
        rw [hold] at hfirst
        cases hfirst
        exact (hconfirmed first hold hwaits).mono
      | none =>
        rw [hold, Option.none_or] at hfirst
        cases hfirst
        exact absurd hwaits hnot
    · have hnew := List.getLast?_concat.symm.trans hlast
      cases hnew

end Sending

/-! ## Effects -/

theorem commanded_runnable (o : Obj) (status : ActionConfirmationStatus) :
    (o.commanded status).event.runnable = o.event.runnable := by
  obtain ⟨⟨body⟩, adHoc⟩ := o
  cases body with
  | action a => cases a <;> rfl
  | observation _ => rfl
  | plain => rfl

theorem commanded_status (o : Obj) (status : ActionConfirmationStatus) :
    (o.commanded status).confirmationState = some (.known status) := by
  obtain ⟨⟨body⟩, adHoc⟩ := o
  cases body with
  | action a => cases a <;> rfl
  | observation _ => rfl
  | plain => rfl

theorem safe_effect {out : Outside} {executed : List Delivery} {l l' : Ledger} (heffect : Effect out l l')
    (hguarded : ∀ entry ∈ l'.trace, Guarded entry.mark) (h : Safe executed l.toRuntime l.heap l.trace) :
    Safe executed l'.toRuntime l'.heap l'.trace := by
  cases heffect with
  | post place e => exact h.post place e
  | observe cause => exact h.note _ (fun _ => rfl) (fun _ heq => by cases heq)
  | settle => exact h
  | reset => exact h.note _ (fun _ => rfl) (fun _ heq => by cases heq)
  | hold o hrunnable =>
    unfold Ledger.hold
    cases l.current with
    | none => exact h.grow o
    | some held => exact (h.note l.isDelegate (fun _ => rfl) (fun _ heq => by cases heq)).grow o
  | launch o hpending =>
    refine (h.note l.isDelegate (m := .returned l.heap.length) (fun _ => rfl) fun k heq => ?_).grow o
    cases heq
    exact Nat.le_refl _
  | touch k o o' ho halike hid =>
    exact h.touch k o' fun hwaits => h.waiting k o ho ((awaits_of_alike halike).mp hwaits)
  | trigger k o ho hrunnable l' hsends =>
    refine h.send ho hsends hguarded fun hrun _ => ?_
    rw [hrunnable] at hrun
    cases hrun
  | act k o ho hlast hpending l' hsends =>
    obtain ⟨hnone, hfirst⟩ := h.returned _ k hlast
    refine h.send ho hsends hguarded fun _ _ => ⟨hnone, fun o hsent => ?_⟩
    rw [hfirst] at hsent
    cases hsent
  | command k o status old hstatus hpending ho l' hsends =>
    have hk := (List.getElem?_eq_some_iff.mp ho).1
    have hnot : ¬ Awaits (o.commanded status) := by
      intro hwaits
      have heq := (commanded_status o status).symm.trans hwaits
      cases heq
      exact hstatus rfl
    have hmarked : Safe executed l.toRuntime (l.heap.set k (o.commanded status))
        (l.trace ++ [⟨l.isDelegate, .commanded k status old o⟩]) :=
      (h.note l.isDelegate (fun _ => rfl) (fun _ heq => by cases heq)).touch k _ fun hwaits => absurd hwaits hnot
    refine Safe.send hmarked (List.getElem?_set_self hk) hsends hguarded fun hrun hconfirmed => ?_
    rw [commanded_runnable] at hrun
    -- what may run was confirmed, and so it was waiting for that
    obtain rfl : status = .confirmed := by
      by_contra hne
      exact hconfirmed status hne (commanded_status o status)
    have hmem : (⟨l.isDelegate, .commanded k .confirmed old o⟩ : Entry) ∈ l'.trace := by
      obtain ⟨_, _, _, -, -, rfl⟩ := hsends
      exact List.mem_append_left _ (List.mem_append_right _ List.mem_cons_self)
    obtain ⟨rfl, hwaits⟩ := hguarded _ hmem hrun
    exact ⟨h.waiting k o ho hwaits, fun _ _ _ =>
      ⟨l.isDelegate, o, List.mem_append_right _ List.mem_cons_self⟩⟩

/-! ## Runs of a session -/

/-- What has run is what the runtime executes. -/
structure Inv (s : Session) : Prop where
  executed : ∀ d ∈ s.executed, Runtime.executes d.event = true
  safe : (∀ entry ∈ s.desk.trace, Guarded entry.mark) →
    Safe s.executed s.desk.toRuntime s.desk.heap s.desk.trace

section Runs

variable {out : Outside} {clock : Int → String} {s : Session}

theorem safe_move {executed : List Delivery} {l l' : Ledger} (hmove : Move out l l')
    (h : (∀ entry ∈ l.trace, Guarded entry.mark) → Safe executed l.toRuntime l.heap l.trace)
    (hguarded : ∀ entry ∈ l'.trace, Guarded entry.mark) : Safe executed l'.toRuntime l'.heap l'.trace := by
  cases hmove with
  | own heffect =>
    exact safe_effect heffect hguarded (h fun entry hmem => hguarded entry (heffect.trace_grows.subset hmem))
  | ofDelegate p p' heffect _ _ =>
    have hbefore := h fun entry hmem => hguarded entry (heffect.trace_grows.subset hmem)
    have hafter := safe_effect heffect hguarded hbefore
    exact hafter

theorem Inv.handle (h : Inv s) (answers : Answers) : Inv (s.handle out clock answers) := by
  unfold Session.handle
  split
  · exact h
  next d rest _ =>
    refine ⟨h.executed, ?_⟩
    exact Program.Leads.keeps (P := fun l : Ledger => (∀ entry ∈ l.trace, Guarded entry.mark) →
        Safe s.executed l.toRuntime l.heap l.trace)
      (fun _ _ hmove hsafe => safe_move hmove hsafe) (Controller.onEvent_acts answers d.event _) h.safe

/-- An event that is added leaves the objects and the record, and adds no copy of an object. -/
theorem Inv.add (h : Inv s) (place : Nat) (e : Event) (source : EventSource) :
    Inv { s with desk := (s.desk.add out clock place none e source).2 } := by
  obtain ⟨hheap, htrace, hpool⟩ := Desk.add_ledger out clock s.desk place none e source
  refine ⟨h.executed, fun hguarded => ?_⟩
  dsimp only at hguarded ⊢
  rw [htrace] at hguarded
  rw [hheap, htrace]
  rcases hpool with hpool | ⟨delivered, -, hpool⟩
  · rw [hpool]
    exact h.safe hguarded
  · rw [hpool]
    exact (h.safe hguarded).post place delivered

theorem Inv.work (h : Inv s) (place : Nat) (worked : Runtime.Outcome) : Inv (s.work out clock place worked) := by
  unfold Session.work
  split
  · exact h
  next d rest hpool =>
    have htaken : Inv { s with
        executed := if Runtime.executes d.event then s.executed ++ [d] else s.executed
        desk := { s.desk with toRuntime := rest } } := by
      refine ⟨fun d' hd' => ?_, fun hguarded => (h.safe hguarded).pools fun k => ?_⟩
      · split_ifs at hd' with hruns
        · rcases List.mem_append.mp hd' with hold | hnew
          · exact h.executed d' hold
          · rw [List.mem_singleton.mp hnew]
            exact hruns
        · exact h.executed d' hd'
      · unfold copies
        rw [hpool]
        split_ifs with hruns
        · rw [List.append_assoc, List.singleton_append]
        · have hnot : runs k d = false := by
            rw [runs, Bool.eq_false_of_not_eq_true hruns, Bool.and_false]
          rw [List.countP_append, List.countP_append, List.countP_cons_of_neg (by rw [hnot]; decide)]
    dsimp only
    split
    · exact htaken.add place _ _
    · exact htaken

theorem Inv.step (h : Inv s) (next : SessionStep) : Inv (s.step out clock next) := by
  cases next with
  | post place e source => exact h.add place e source
  | handle answers => exact h.handle answers
  | work place worked => exact h.work place worked
  | setSecrets secrets => exact ⟨h.executed, h.safe⟩
  | updateSecrets secrets => exact ⟨h.executed, h.safe⟩

theorem inv_run (h : Inv s) (steps : List SessionStep) : Inv (s.run out clock steps) := by
  induction steps generalizing s with
  | nil => exact h
  | cons next steps ih => exact ih (h.step next)

theorem Inv.protocol (h : Inv s) (hguarded : ∀ entry ∈ s.desk.trace, Guarded entry.mark) : Protocol s := by
  have hsafe := h.safe hguarded
  have hruns (k : Nat) : (s.executed.filter fun d => d.object = some k).length ≤
      copies s.executed s.desk.toRuntime k := by
    have hfilter : (s.executed.filter fun d => d.object = some k) = s.executed.filter (runs k) := by
      refine List.filter_congr fun d hd => ?_
      rw [runs, h.executed d hd, Bool.and_true]
    rw [hfilter, ← List.countP_eq_length_filter, copies, List.countP_append]
    exact Nat.le_add_right _ _
  refine ⟨fun k o hfirst hwaits ⟨d, hd, hobject⟩ => ?_, fun k => (hruns k).trans (hsafe.once k)⟩
  have hmem : d ∈ s.executed.filter fun d => d.object = some k :=
    List.mem_filter.mpr ⟨hd, decide_eq_true hobject⟩
  exact hsafe.allowed k o hfirst hwaits ((List.length_pos_of_mem hmem).trans_le (hruns k))

end Runs

/-- In every run in which only a waiting action is confirmed, in the state that awaits it, the
protocol holds whatever clients, agents and the runtime do, and in whatever order. -/
theorem protocol_of_guarded (out : Outside) (clock : Int → String) (root : Controller) (stream : EventStream)
    (steps : List SessionStep)
    (hguarded : ∀ entry ∈ ((Session.start root stream).run out clock steps).desk.trace, Guarded entry.mark) :
    Protocol ((Session.start root stream).run out clock steps) :=
  (inv_run ⟨fun _ hd => (List.not_mem_nil hd).elim, fun _ => Safe.start⟩ steps).protocol hguarded

/-! ## Two runs -/

def cleanUp : Event := { body := .action (.message { content := "clean up" }) }

def recalled : Event :=
  { body := .observation (.recallObservation { content := "", recallType := .knowledge }), cause := some 1 }

def userConfirmed : Event := { body := .action (.changeAgentState { agentState := "user_confirmed" }) }

/-- The agent runs a command in answer to a message, and the user sends `user_confirmed`. -/
def confirmingSteps : List SessionStep :=
  [.post 0 cleanUp .user, .handle {}, .post 0 recalled .user, .handle {}, .handle {},
    .handle { agent := .action (.cmdRun { command := "rm -r build" }) none },
    .post 0 userConfirmed .user] ++
  List.replicate 5 (.handle {}) ++ List.replicate 9 (.work 0 .failed)

def askingController : Controller where
  settings := { confirmationMode := true }
  state := { confirmationMode := true }

theorem protocol_of_guarded_confirmed :
    (∀ entry ∈ ((Session.start askingController {}).run EventStream.plainOutside (fun _ => "2025")
        confirmingSteps).desk.trace, Guarded entry.mark) ∧
    ((Session.start askingController {}).run EventStream.plainOutside (fun _ => "2025")
        confirmingSteps).executed.length = 1 ∧
    Protocol ((Session.start askingController {}).run EventStream.plainOutside (fun _ => "2025")
        confirmingSteps) := by
  have hguarded : ∀ entry ∈ ((Session.start askingController {}).run EventStream.plainOutside
      (fun _ => "2025") confirmingSteps).desk.trace, Guarded entry.mark := by decide +kernel
  exact ⟨hguarded, by decide +kernel, protocol_of_guarded _ _ _ _ _ hguarded⟩

/-- A command that needs no confirmation runs a second time when the user confirms. -/
theorem not_protocol_running :
    ¬ Protocol ((Session.start {} {}).run EventStream.plainOutside (fun _ => "2025") confirmingSteps) := by
  intro h
  have htwice : ¬ (((Session.start {} {}).run EventStream.plainOutside (fun _ => "2025")
      confirmingSteps).executed.filter fun d => d.object = some 1).length ≤ 1 := by decide +kernel
  exact htwice (h.once 1)

end Confirmation

end OpenHands
