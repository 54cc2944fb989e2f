import OpenHandsSWE.Controller.Effects

/-! The pending slot: the agent emits a runnable action only when every earlier one was answered or
reset away, as long as no message takes the slot from an action that is not answered yet. -/

namespace OpenHands

namespace PendingSlot

/-- What the record of a run says of one object: the ids it went into the stream with, whether a
step emitted it as runnable since the last reset, and whether an observation answered it. -/
structure Fate where
  ids : List Int := []
  emitted : Bool := false
  answered : Bool := false

def Fate.read (k : Nat) (f : Fate) (entry : Entry) : Fate :=
  match entry.mark with
  | .emitted k' byStep id sent _ =>
    if k' = k then
      { f with ids := id :: f.ids
               emitted := f.emitted || (!entry.isDelegate && byStep && sent.event.runnable) }
    else f
  | .observed (some cause) =>
    if entry.isDelegate = false ∧ cause ∈ f.ids then { f with answered := true } else f
  | .reset => if entry.isDelegate then f else { f with emitted := false }
  | _ => f

def fate (trace : List Entry) (k : Nat) : Fate := trace.foldl (Fate.read k) {}

/-- The root controller's agent emitted the action; neither was it answered nor the controller reset. -/
def Outstanding (trace : List Entry) (k : Nat) : Prop :=
  (fate trace k).emitted = true ∧ (fate trace k).answered = false

instance (trace : List Entry) (k : Nat) : Decidable (Outstanding trace k) :=
  inferInstanceAs (Decidable (_ ∧ _))

/-- What is so of each entry and the record before it. -/
def Always (P : List Entry → Entry → Prop) (trace : List Entry) : Prop :=
  ∀ before entry after, trace = before ++ entry :: after → P before entry

/-- The root controller's step emits a runnable action. -/
def emits (entry : Entry) : Bool :=
  match entry with
  | ⟨false, .emitted _ true _ sent _⟩ => sent.event.runnable
  | _ => false

/-- When a step emits a runnable action, no action is outstanding. -/
def Alone (before : List Entry) (entry : Entry) : Prop := emits entry = true → ∀ k, ¬ Outstanding before k

/-- What loses the pending slot to the action for a message is not outstanding. -/
def Yields (before : List Entry) (entry : Entry) : Prop :=
  match entry with
  | ⟨false, .overwritten k _⟩ => ¬ Outstanding before k
  | _ => True

section Decidable

def decidableYields (before : List Entry) : (entry : Entry) → Decidable (Yields before entry)
  | ⟨false, .overwritten k _⟩ => inferInstanceAs (Decidable (¬ Outstanding before k))
  | ⟨false, .returned _⟩ | ⟨false, .emitted ..⟩ | ⟨false, .commanded ..⟩ | ⟨false, .observed _⟩
  | ⟨false, .reset⟩ | ⟨true, _⟩ => .isTrue trivial

instance (before : List Entry) (entry : Entry) : Decidable (Yields before entry) := decidableYields before entry

end Decidable

section Always

variable {P : List Entry → Entry → Prop} {entries : List Entry}

theorem always_nil : Always P [] := fun before entry after h => by simp at h

theorem always_concat (entry : Entry) : Always P (entries ++ [entry]) ↔ Always P entries ∧ P entries entry := by
  constructor
  · intro h
    refine ⟨fun before e after heq => h before e (after ++ [entry]) ?_, h entries entry [] rfl⟩
    rw [heq, List.append_assoc, List.cons_append]
  · rintro ⟨hentries, hlast⟩ before e after heq
    rcases List.eq_nil_or_concat after with rfl | ⟨after', last, rfl⟩
    · obtain ⟨hbefore, hentry⟩ := List.append_inj' heq rfl
      rw [← hbefore, ← List.singleton_inj.mp hentry]
      exact hlast
    · rw [List.concat_eq_append, ← List.cons_append, ← List.append_assoc] at heq
      exact hentries before e after' (List.append_inj' heq rfl).1

theorem Always.of_grows {entries' : List Entry} (hgrows : entries <+: entries') (h : Always P entries') :
    Always P entries := by
  obtain ⟨later, rfl⟩ := hgrows
  intro before entry after heq
  refine h before entry (after ++ later) ?_
  rw [heq, List.append_assoc, List.cons_append]

theorem Always.getElem (h : Always P entries) {n : Nat} (hn : n < entries.length) :
    P (entries.take n) entries[n] := by
  refine h (entries.take n) entries[n] (entries.drop (n + 1)) ?_
  rw [List.cons_getElem_drop_succ, List.take_append_drop]

/-- Each place of the record is looked at with what stands before it. -/
theorem always_of_take (h : ∀ n < entries.length, ∀ entry ∈ entries[n]?, P (entries.take n) entry) : Always P entries := by
  intro before entry after heq
  subst heq
  have hplace : before.length < (before ++ entry :: after).length := by simp
  have hentry : (before ++ entry :: after)[before.length]? = some entry := by simp
  have hafter := h before.length hplace entry hentry
  rwa [List.take_left] at hafter

end Always

/-! ## One object -/

section Fates

variable {trace : List Entry} {k : Nat}

theorem fate_concat (trace : List Entry) (entry : Entry) (k : Nat) :
    fate (trace ++ [entry]) k = (fate trace k).read k entry := by
  unfold fate
  rw [List.foldl_append, List.foldl_cons, List.foldl_nil]

/-- Only going into the stream adds an id. -/
theorem ids_concat (trace : List Entry) (isDelegate : Bool) (m : Mark) (k : Nat) :
    (fate (trace ++ [⟨isDelegate, m⟩]) k).ids =
      match m with
      | .emitted k' _ id _ _ => if k' = k then id :: (fate trace k).ids else (fate trace k).ids
      | _ => (fate trace k).ids := by
  rw [fate_concat]
  unfold Fate.read
  cases m with
  | emitted => dsimp only; split <;> rfl
  | observed cause =>
    cases cause with
    | none => rfl
    | some cause => dsimp only; split <;> rfl
  | reset => dsimp only; split <;> rfl
  | _ => rfl

/-- One more entry makes no action outstanding but the one that it says a step emitted. -/
theorem outstanding_concat {entry : Entry} (h : Outstanding (trace ++ [entry]) k) :
    Outstanding trace k ∨
      ∃ id sent secrets, entry = ⟨false, .emitted k true id sent secrets⟩ ∧ sent.event.runnable = true := by
  obtain ⟨isDelegate, m⟩ := entry
  unfold Outstanding at h ⊢
  rw [fate_concat] at h
  unfold Fate.read at h
  cases m with
  | emitted k' byStep id sent secrets =>
    dsimp only at h
    split_ifs at h with hk
    · subst hk
      obtain ⟨hemitted, hanswered⟩ := h
      rcases Bool.or_eq_true_iff.mp hemitted with hold | hnew
      · exact .inl ⟨hold, hanswered⟩
      · obtain ⟨⟨hroot, hstep⟩, hrunnable⟩ : (isDelegate = false ∧ byStep = true) ∧ sent.event.runnable = true := by
          simpa using hnew
        exact .inr ⟨id, sent, secrets, by rw [hroot, hstep], hrunnable⟩
    · exact .inl h
  | observed cause =>
    cases cause with
    | none => exact .inl h
    | some cause =>
      dsimp only at h
      split_ifs at h
      · exact absurd h.2 (by simp)
      · exact .inl h
  | reset =>
    dsimp only at h
    split_ifs at h
    · exact .inl h
    · exact absurd h.1 (by simp)
  | _ => exact .inl h

theorem not_outstanding_observed {id : Int} (hid : id ∈ (fate trace k).ids) :
    ¬ Outstanding (trace ++ [⟨false, .observed (some id)⟩]) k := by
  intro h
  have hanswered := h.2
  rw [fate_concat, Fate.read] at hanswered
  dsimp only at hanswered
  rw [if_pos ⟨rfl, hid⟩] at hanswered
  cases hanswered

theorem not_outstanding_reset : ¬ Outstanding (trace ++ [⟨false, .reset⟩]) k := by
  intro h
  have hemitted := h.1
  rw [fate_concat] at hemitted
  cases hemitted

theorem ids_of_outstanding (h : Outstanding trace k) : (fate trace k).ids ≠ [] := by
  induction trace using List.reverseRecOn with
  | nil => exact absurd h.1 Bool.false_ne_true
  | append_singleton trace entry ih =>
    obtain ⟨isDelegate, m⟩ := entry
    rw [ids_concat]
    rcases outstanding_concat h with hold | ⟨id, sent, secrets, heq, -⟩
    · split
      · split_ifs
        · exact List.cons_ne_nil _ _
        · exact ih hold
      · exact ih hold
    · obtain ⟨rfl, rfl⟩ := Entry.mk.inj heq
      dsimp only
      rw [if_pos rfl]
      exact List.cons_ne_nil _ _

end Fates

/-! ## Objects and the record -/

/-- An object that went into the stream has one of the ids it got there, and a returned one has not
been there yet. -/
structure Tidy (heap : List Obj) (trace : List Entry) : Prop where
  unknown : ∀ k, heap.length ≤ k → (fate trace k).ids = []
  current : ∀ k o, heap[k]? = some o → (fate trace k).ids ≠ [] → o.event.id ∈ (fate trace k).ids
  returned : ∀ isDelegate k, trace.getLast? = some ⟨isDelegate, .returned k⟩ → (fate trace k).ids = []

namespace Tidy

variable {heap : List Obj} {trace : List Entry}

theorem start : Tidy [] [] where
  unknown _ _ := rfl
  current _ _ _ h := absurd rfl h
  returned _ _ h := by cases h

theorem note (h : Tidy heap trace) (isDelegate : Bool) {m : Mark}
    (hids : ∀ k, (fate (trace ++ [⟨isDelegate, m⟩]) k).ids = (fate trace k).ids)
    (hreturned : ∀ k, m = .returned k → heap.length ≤ k) : Tidy heap (trace ++ [⟨isDelegate, m⟩]) := by
  refine ⟨fun k hk => ?_, fun k o ho hne => ?_, fun d k hlast => ?_⟩
  · rw [hids]
    exact h.unknown k hk
  · rw [hids] at hne ⊢
    exact h.current k o ho hne
  · rw [List.getLast?_concat] at hlast
    cases hlast
    rw [hids]
    exact h.unknown k (hreturned k rfl)

theorem grow (h : Tidy heap trace) (o : Obj) : Tidy (heap ++ [o]) trace := by
  refine ⟨fun k hk => ?_, fun k o' ho' hne => ?_, h.returned⟩
  · rw [List.length_append] at hk
    exact h.unknown k (Nat.le_of_add_right_le hk)
  · by_cases hk : k < heap.length
    · rw [List.getElem?_append_left hk] at ho'
      exact h.current k o' ho' hne
    · exact absurd (h.unknown k (Nat.le_of_not_lt hk)) hne

theorem touch (h : Tidy heap trace) (k : Nat) (o' : Obj)
    (hid : (fate trace k).ids ≠ [] → o'.event.id ∈ (fate trace k).ids) : Tidy (heap.set k o') trace := by
  refine ⟨fun k' hk' => ?_, fun k' o ho hne => ?_, h.returned⟩
  · rw [List.length_set] at hk'
    exact h.unknown k' hk'
  · by_cases hk : k = k'
    · subst hk
      have hlt : k < heap.length := by
        by_contra hge
        exact hne (h.unknown k (Nat.le_of_not_lt hge))
      rw [List.getElem?_set_self hlt] at ho
      cases ho
      exact hid hne
    · rw [List.getElem?_set_ne hk] at ho
      exact h.current k' o ho hne

/-- An object goes into the stream with the id that it keeps from there on. -/
theorem send (h : Tidy heap trace) {k : Nat} (hk : k < heap.length) (isDelegate byStep : Bool)
    (stamped o : Obj) (secrets : List String) :
    Tidy (heap.set k stamped) (trace ++ [⟨isDelegate, .emitted k byStep stamped.event.id o secrets⟩]) := by
  refine ⟨fun k' hk' => ?_, fun k' o' ho' hne => ?_, fun d k' hlast => ?_⟩
  · rw [List.length_set] at hk'
    have hother : k ≠ k' := fun heq => Nat.not_le_of_lt hk (heq ▸ hk')
    rw [ids_concat]
    dsimp only
    rw [if_neg hother]
    exact h.unknown k' hk'
  · rw [ids_concat] at hne ⊢
    dsimp only at hne ⊢
    by_cases heq : k = k'
    · subst heq
      rw [List.getElem?_set_self hk] at ho'
      cases ho'
      rw [if_pos rfl]
      exact List.mem_cons_self
    · rw [List.getElem?_set_ne heq] at ho'
      rw [if_neg heq] at hne ⊢
      exact h.current k' o' ho' hne
  · rw [List.getLast?_concat] at hlast
    cases hlast

end Tidy

/-! ## Effects -/

section Effects

variable {out : Outside} {l l' : Ledger}

theorem tidy_effect (heffect : Effect out l l') (h : Tidy l.heap l.trace) : Tidy l'.heap l'.trace := by
  have hnote {m : Mark} (hids : ∀ k, (fate (l.trace ++ [⟨l.isDelegate, m⟩]) k).ids = (fate l.trace k).ids)
      (hreturned : ∀ k, m ≠ .returned k) : Tidy l.heap (l.trace ++ [⟨l.isDelegate, m⟩]) :=
    h.note l.isDelegate hids fun k heq => absurd heq (hreturned k)
  have hset {k : Nat} {o : Obj} (ho : l.heap[k]? = some o) : k < l.heap.length :=
    (List.getElem?_eq_some_iff.mp ho).1
  cases heffect with
  | post | settle => exact h
  | observe | reset => exact hnote (fun k => ids_concat ..) (by simp)
  | hold o =>
    unfold Ledger.hold
    cases l.current with
    | none => exact h.grow o
    | some held => exact (hnote (fun k => ids_concat ..) (by simp)).grow o
  | launch o =>
    have hreturned : Tidy l.heap (l.trace ++ [⟨l.isDelegate, .returned l.heap.length⟩]) := by
      refine h.note l.isDelegate (fun k => ids_concat ..) fun k heq => ?_
      exact (Mark.returned.inj heq).le
    exact hreturned.grow o
  | touch k o o' ho _ hid =>
    refine h.touch k o' fun hne => ?_
    rw [hid]
    exact h.current k o ho hne
  | trigger k o ho _ _ hsends =>
    obtain ⟨stamped, secrets, _, -, -, rfl⟩ := hsends
    exact h.send (hset ho) _ _ _ _ _
  | act k o ho _ _ _ hsends =>
    obtain ⟨stamped, secrets, _, -, -, rfl⟩ := hsends
    exact h.send (hset ho) _ _ _ _ _
  | command k o status old _ _ ho _ hsends =>
    obtain ⟨stamped, secrets, _, -, -, rfl⟩ := hsends
    have hcommanded := hnote (m := .commanded k status old o) (fun k => ids_concat ..) (by simp)
    have hsent := hcommanded.send (hset ho) l.isDelegate false stamped (o.commanded status) secrets
    rw [← List.set_set (o.commanded status)] at hsent
    exact hsent

/-- What is outstanding is pending. -/
def Held (pending : Option Nat) (trace : List Entry) : Prop := ∀ k, Outstanding trace k → pending = some k

theorem outstanding_of_concat {trace : List Entry} {entry : Entry} {k : Nat} (h : Outstanding (trace ++ [entry]) k)
    (hstep : ∀ k id sent secrets, entry ≠ ⟨false, .emitted k true id sent secrets⟩) : Outstanding trace k := by
  rcases outstanding_concat h with hold | ⟨id, sent, secrets, heq, -⟩
  · exact hold
  · exact absurd heq (hstep k id sent secrets)

theorem Held.note {pending : Option Nat} {trace : List Entry} (h : Held pending trace) {entry : Entry}
    (hstep : ∀ k id sent secrets, entry ≠ ⟨false, .emitted k true id sent secrets⟩) :
    Held pending (trace ++ [entry]) :=
  fun k hk => h k (outstanding_of_concat hk hstep)

theorem Alone.of_not_step {before : List Entry} {entry : Entry}
    (hstep : ∀ k id sent secrets, entry ≠ ⟨false, .emitted k true id sent secrets⟩) : Alone before entry := by
  intro hemits
  unfold emits at hemits
  split at hemits
  next k id sent secrets => exact absurd rfl (hstep k id sent secrets)
  · cases hemits

/-- The objects and the record of a run are as they should be for the root controller. -/
structure Sound (l : Ledger) : Prop where
  tidy : Tidy l.heap l.trace
  held : Held l.pending l.trace
  alone : Always Alone l.trace

/-- Entries about no step of the root controller leave both. -/
theorem Sound.mono (h : Sound l) {trace : List Entry} (entries : List Entry) (heq : trace = l.trace ++ entries)
    (hstep : ∀ entry ∈ entries, ∀ k id sent secrets, entry ≠ ⟨false, .emitted k true id sent secrets⟩) :
    Held l.pending trace ∧ Always Alone trace := by
  subst heq
  induction entries using List.reverseRecOn with
  | nil => simpa using ⟨h.held, h.alone⟩
  | append_singleton entries last ih =>
    obtain ⟨hheld, halone⟩ := ih fun entry hentry => hstep entry (List.mem_append_left _ hentry)
    have hlast := hstep last (List.mem_append_right _ List.mem_cons_self)
    rw [← List.append_assoc]
    exact ⟨hheld.note hlast, (always_concat _).mpr ⟨halone, Alone.of_not_step hlast⟩⟩

theorem sound_effect (heffect : Effect out l l') (hroot : l.isDelegate = false) (hyields : Always Yields l'.trace)
    (h : Sound l) : Sound l' := by
  have htidy := tidy_effect heffect h.tidy
  have hidle (hpending : l.pending = none) (k : Nat) : ¬ Outstanding l.trace k := fun hk => by
    rw [h.held k hk] at hpending
    cases hpending
  cases heffect with
  | post => exact ⟨htidy, h.held, h.alone⟩
  | touch => exact ⟨htidy, h.held, h.alone⟩
  | observe cause =>
    obtain ⟨hheld, halone⟩ := h.mono [⟨l.isDelegate, .observed cause⟩] rfl (by simp)
    exact ⟨htidy, hheld, halone⟩
  | settle k o hpending ho hseen =>
    refine ⟨htidy, fun k' hk' => ?_, h.alone⟩
    obtain rfl : k = k' := Option.some.inj (hpending.symm.trans (h.held k' hk'))
    have hid := h.tidy.current k o ho (ids_of_outstanding hk')
    obtain ⟨before, heq⟩ := List.getLast?_eq_some_iff.mp hseen
    rw [hroot] at heq
    rw [heq, ids_concat] at hid
    rw [heq] at hk'
    exact absurd hk' (not_outstanding_observed hid)
  | reset =>
    obtain ⟨-, halone⟩ := h.mono [⟨l.isDelegate, .reset⟩] rfl (by simp)
    refine ⟨htidy, fun k hk => ?_, halone⟩
    dsimp only [Ledger.note] at hk
    rw [hroot] at hk
    exact absurd hk not_outstanding_reset
  | hold o =>
    unfold Ledger.hold at htidy hyields ⊢
    cases hcurrent : l.current with
    | none =>
      rw [hcurrent] at htidy hyields
      refine ⟨htidy, fun k hk => ?_, h.alone⟩
      -- the pending object is in the heap, so that there is none
      have hknown : k < l.heap.length := by
        by_contra hge
        exact ids_of_outstanding hk (h.tidy.unknown k (Nat.le_of_not_lt hge))
      rw [Ledger.current, h.held k hk, Option.bind_some, List.getElem?_eq_getElem hknown] at hcurrent
      cases hcurrent
    | some held =>
      rw [hcurrent] at htidy hyields
      obtain ⟨hheld, halone⟩ := h.mono [⟨l.isDelegate, .overwritten held.1 held.2⟩] rfl (by simp)
      refine ⟨htidy, fun k hk => ?_, halone⟩
      have hfree : Yields l.trace ⟨l.isDelegate, .overwritten held.1 held.2⟩ := ((always_concat _).mp hyields).2
      rw [hroot] at hfree
      have hmarked : Outstanding (l.trace ++ [⟨l.isDelegate, .overwritten held.1 held.2⟩]) k := hk
      have hold : Outstanding l.trace k := outstanding_of_concat hmarked (by simp)
      obtain ⟨k', hpending, hheap⟩ := Option.bind_eq_some_iff.mp hcurrent
      obtain ⟨before, -, rfl⟩ := Option.map_eq_some_iff.mp hheap
      obtain rfl : k' = k := Option.some.inj (hpending.symm.trans (h.held k hold))
      exact absurd hold hfree
  | launch o hpending =>
    obtain ⟨-, halone⟩ := h.mono [⟨l.isDelegate, .returned l.heap.length⟩] rfl (by simp)
    refine ⟨htidy, fun k hk => ?_, halone⟩
    have hmarked : Outstanding (l.trace ++ [⟨l.isDelegate, .returned l.heap.length⟩]) k := hk
    exact absurd (outstanding_of_concat hmarked (by simp)) (hidle hpending k)
  | trigger k o ho hrunnable l' hsends =>
    obtain ⟨stamped, secrets, _, -, -, rfl⟩ := hsends
    obtain ⟨hheld, halone⟩ := h.mono [⟨l.isDelegate, .emitted k false stamped.event.id o secrets⟩] rfl (by simp)
    exact ⟨htidy, hheld, halone⟩
  | act k o ho hlast hpending l' hsends =>
    obtain ⟨stamped, secrets, _, -, -, rfl⟩ := hsends
    -- the object has just come back from the agent, so that it was never outstanding itself
    have hother (hrunnable : o.event.runnable = true) (k' : Nat) : ¬ Outstanding l.trace k' := by
      intro hk'
      obtain rfl : k = k' := Option.some.inj ((hpending hrunnable).symm.trans (h.held k' hk'))
      exact ids_of_outstanding hk' (h.tidy.returned _ k hlast)
    refine ⟨htidy, fun k' hk' => ?_, (always_concat _).mpr ⟨h.alone, ?_⟩⟩
    · rcases outstanding_concat hk' with hold | ⟨id, sent, secrets', heq, hrunnable⟩
      · exact h.held k' hold
      · obtain ⟨rfl, -, -, rfl, -⟩ := Mark.emitted.inj (Entry.mk.inj heq).2
        exact hpending hrunnable
    · intro hemits
      rw [hroot] at hemits
      exact hother hemits
  | command k o status old hstatus hpending ho l' hsends =>
    obtain ⟨stamped, secrets, _, -, -, rfl⟩ := hsends
    have htrace : l.trace ++ [⟨l.isDelegate, .commanded k status old o⟩] ++
        [⟨l.isDelegate, .emitted k false stamped.event.id (o.commanded status) secrets⟩] =
        l.trace ++ [⟨l.isDelegate, .commanded k status old o⟩,
          ⟨l.isDelegate, .emitted k false stamped.event.id (o.commanded status) secrets⟩] := by simp
    obtain ⟨hheld, halone⟩ := h.mono _ htrace (by simp)
    exact ⟨htidy, hheld, halone⟩

end Effects

/-! ## Runs of a session -/

/-- As long as messages yield, the root controller and the record are sound. -/
def Inv (s : Session) : Prop :=
  Always Yields s.desk.trace →
    Sound { isDelegate := false, pending := s.root.pending, heap := s.desk.heap,
            toRuntime := s.desk.toRuntime, trace := s.desk.trace }

section Runs

variable {out : Outside} {clock : Int → String} {s : Session}

theorem sound_move {l l' : Ledger} (hmove : Move out l l')
    (h : l.isDelegate = false ∧ (Always Yields l.trace → Sound l)) :
    l'.isDelegate = false ∧ (Always Yields l'.trace → Sound l') := by
  obtain ⟨hroot, hsound⟩ := h
  cases hmove with
  | own heffect =>
    refine ⟨heffect.isDelegate.trans hroot, fun hyields => ?_⟩
    exact sound_effect heffect hroot hyields (hsound (Always.of_grows heffect.trace_grows hyields))
  | ofDelegate p p' heffect hpending hdelegate =>
    refine ⟨hdelegate.trans hroot, fun hyields => ?_⟩
    obtain ⟨marks, htrace⟩ := heffect.trace_marks
    have hbefore := hsound (Always.of_grows heffect.trace_grows hyields)
    have htidy := tidy_effect heffect hbefore.tidy
    -- the marks of a delegate are about none of the root controller's steps
    have hothers : ∀ entry ∈ marks.map (Entry.mk true), ∀ k id sent secrets,
        entry ≠ ⟨false, .emitted k true id sent secrets⟩ := by
      intro entry hentry
      obtain ⟨m, -, rfl⟩ := List.mem_map.mp hentry
      simp
    obtain ⟨hheld, halone⟩ := hbefore.mono _ htrace hothers
    exact ⟨htidy, hpending ▸ hheld, halone⟩

theorem Inv.handle (h : Inv s) (answers : Answers) : Inv (s.handle out clock answers) := by
  unfold Session.handle
  split
  · exact h
  next d rest _ =>
    let t : Turn := { self := s.root, desk := { s.desk with toController := rest } }
    have hbefore : t.ledger.isDelegate = false ∧ (Always Yields t.ledger.trace → Sound t.ledger) := ⟨rfl, h⟩
    have hafter := Program.Leads.keeps
      (P := fun l : Ledger => l.isDelegate = false ∧ (Always Yields l.trace → Sound l))
      (fun _ _ hmove hsound => sound_move hmove hsound)
      (show Controller.Acts out (Controller.onEvent out clock answers d.event) t from
        Controller.onEvent_acts answers d.event t) hbefore
    intro hyields
    obtain ⟨htidy, hheld, halone⟩ := hafter.2 hyields
    exact ⟨htidy, hheld, halone⟩

theorem Inv.add (h : Inv s) (place : Nat) (e : Event) (source : EventSource) :
    Inv { s with desk := (s.desk.add out clock place none e source).2 } := by
  obtain ⟨hheap, htrace, -⟩ := Desk.add_ledger out clock s.desk place none e source
  intro hyields
  dsimp only at hyields
  rw [htrace] at hyields
  obtain ⟨htidy, hheld, halone⟩ := h hyields
  refine ⟨?_, ?_, ?_⟩
  · dsimp only
    rw [hheap, htrace]
    exact htidy
  · dsimp only
    rw [htrace]
    exact hheld
  · dsimp only
    rw [htrace]
    exact halone

theorem Inv.work (h : Inv s) (place : Nat) (worked : Runtime.Outcome) : Inv (s.work out clock place worked) := by
  unfold Session.work
  split
  · exact h
  next d rest _ =>
    have htaken : Inv { s with
        executed := if Runtime.executes d.event then s.executed ++ [d] else s.executed
        desk := { s.desk with toRuntime := rest } } := fun hyields =>
      ⟨(h hyields).tidy, (h hyields).held, (h hyields).alone⟩
    dsimp only
    split
    · exact htaken.add place _ _
    · exact htaken

theorem Inv.step (h : Inv s) (next : SessionStep) : Inv (s.step out clock next) := by
  cases next with
  | post place e source => exact h.add place e source
  | handle answers => exact h.handle answers
  | work place worked => exact h.work place worked
  | setSecrets secrets => exact h
  | updateSecrets secrets => exact h

theorem inv_run (h : Inv s) (steps : List SessionStep) : Inv (s.run out clock steps) := by
  induction steps generalizing s with
  | nil => exact h
  | cons next steps ih => exact ih (h.step next)

end Runs

/-- In every run in which no message takes the pending slot from an outstanding action, a step emits
a runnable action only when none is outstanding. -/
theorem alone_of_yields (out : Outside) (clock : Int → String) (root : Controller) (stream : EventStream)
    (steps : List SessionStep)
    (hyields : Always Yields ((Session.start root stream).run out clock steps).desk.trace) :
    Always Alone ((Session.start root stream).run out clock steps).desk.trace := by
  have hstart : Inv (Session.start root stream) := fun _ =>
    ⟨Tidy.start, fun k hk => absurd rfl (ids_of_outstanding hk), always_nil⟩
  have hrun : Inv ((Session.start root stream).run out clock steps) := inv_run hstart steps
  exact (hrun hyields).alone

/-! ## Two runs -/

def message (content : String) : Event := { body := .action (.message { content := content }) }

def recalled (cause : Int) : Event :=
  { body := .observation (.recallObservation { content := "", recallType := .knowledge }), cause := some cause }

def finished (cause : Int) : Event :=
  { body := .observation (.cmdOutput { content := "", command := "make" }), cause := some cause }

def commands : Answers := { agent := .action (.cmdRun { command := "make" }) none }

/-- A message is answered with a command, and its output with another one. -/
def patientSteps : List SessionStep :=
  [.post 0 (message "build it") .user, .handle {}, .post 0 (recalled 1) .user, .handle {}, .handle {},
    .handle commands, .handle {}, .post 0 (finished 4) .agent, .handle commands]

/-- While the command runs, the user sends a second message. -/
def impatientSteps : List SessionStep :=
  [.post 0 (message "build it") .user, .handle {}, .post 0 (recalled 1) .user, .handle {}, .handle {},
    .handle commands, .post 0 (message "hurry") .user, .handle {}, .handle {}, .post 0 (recalled 6) .user,
    .handle {}, .handle commands]

theorem alone_of_yields_patient :
    Always Yields ((Session.start {} {}).run EventStream.plainOutside (fun _ => "2025") patientSteps).desk.trace ∧
    Always Alone ((Session.start {} {}).run EventStream.plainOutside (fun _ => "2025") patientSteps).desk.trace := by
  have hyields : Always Yields
      ((Session.start {} {}).run EventStream.plainOutside (fun _ => "2025") patientSteps).desk.trace :=
    always_of_take (by decide +kernel)
  exact ⟨hyields, alone_of_yields _ _ _ _ _ hyields⟩

/-- The second message takes the slot of the command, and its answer lets the agent step. -/
theorem not_alone_impatient :
    ¬ Always Alone ((Session.start {} {}).run EventStream.plainOutside (fun _ => "2025") impatientSteps).desk.trace := by
  intro h
  have hplace : 9 < ((Session.start {} {}).run EventStream.plainOutside (fun _ => "2025")
      impatientSteps).desk.trace.length := by decide +kernel
  have hemits : ∀ entry ∈ ((Session.start {} {}).run EventStream.plainOutside (fun _ => "2025")
      impatientSteps).desk.trace[9]?, emits entry = true := by decide +kernel
  exact h.getElem hplace (hemits _ (List.getElem?_eq_getElem hplace)) 1 (by decide +kernel)

end PendingSlot

end OpenHands
