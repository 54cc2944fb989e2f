import OpenHandsSWE.Memory.Pipeline

/-! When the view is still the head of the conversation and its end after masking and forgetting. -/

namespace OpenHands

/-! ## The pieces of a view -/

section Pieces

variable {α : Type*} (c : SummarySizes) (xs : List α)

/-- How much of the end of a view is kept. -/
def tailSize : Nat := (c.maxSize / 2 - c.keepFirst).toNat

def headPiece : List α := xs.take c.keepFirst.toNat

def middlePiece : List α := (xs.take (xs.length - tailSize c)).drop c.keepFirst.toNat

def tailPiece : List α := xs.drop (xs.length - tailSize c)

variable {c} in
theorem pieces (h : c.maxSize < xs.length) :
    headPiece c xs ++ middlePiece c xs ++ tailPiece c xs = xs := by
  have h0 := c.keepFirst_nonneg
  have h1 := c.keepFirst_lt
  have h2 := c.maxSize_pos
  have hle : c.keepFirst.toNat ≤ xs.length - tailSize c := by unfold tailSize; omega
  have hhead : headPiece c xs = (xs.take (xs.length - tailSize c)).take c.keepFirst.toNat := by
    rw [headPiece, List.take_take, Nat.min_eq_left hle]
  rw [hhead, middlePiece, List.take_append_drop, tailPiece, List.take_append_drop]

variable {c} in
theorem middlePiece_ne_nil (h : c.maxSize < xs.length) : middlePiece c xs ≠ [] := by
  intro hnil
  have h0 := c.keepFirst_nonneg
  have h1 := c.keepFirst_lt
  have h2 := c.maxSize_pos
  have hlen := congrArg List.length hnil
  rw [middlePiece, List.length_drop, List.length_take, List.length_nil] at hlen
  unfold tailSize at hlen
  omega

variable {β : Type*} (f : α → β)

theorem headPiece_map : headPiece c (xs.map f) = (headPiece c xs).map f := List.map_take.symm

theorem middlePiece_map : middlePiece c (xs.map f) = (middlePiece c xs).map f := by
  rw [middlePiece, middlePiece, List.length_map, ← List.map_take, ← List.map_drop]

theorem tailPiece_map : tailPiece c (xs.map f) = (tailPiece c xs).map f := by
  rw [tailPiece, tailPiece, List.length_map, ← List.map_drop]

end Pieces

/-! ## What is forgotten of a masked view -/

/-- The marks under which masking and then forgetting leaves the head of a view and its end. A
masked event of the middle counts as forgotten, with the id of those that have none, unless one
is masked in the head or at the end. -/
def MarksOk (c : SummarySizes) (marks : List Bool) : Prop :=
  if true ∈ middlePiece c marks ∧ true ∉ headPiece c marks ++ tailPiece c marks then
    c.keepFirst = 0 ∧ (middlePiece c marks).getLast? = some false
  else
    false ∉ middlePiece c marks ∨
      (middlePiece c marks).head? = some false ∧ (middlePiece c marks).getLast? = some false

section Forgetting

variable {c : SummarySizes} {z : List (Event × Bool)} {view : View}

/-- The ids of a view once the marked ones are masked. -/
structure Shows (view : View) (z : List (Event × Bool)) : Prop where
  ids : view.events.map Event.id = z.map MaskingCondenser.seenId
  ordered : Ordered (z.map Prod.fst)
  nonneg : ∀ x ∈ z, 0 ≤ x.1.id

open AmortizedForgettingCondenser MaskingCondenser

theorem eventIdsToKeep_eq (h : Shows view z) (hlong : c.maxSize < z.length) :
    eventIdsToKeep c view.events = (headPiece c z ++ tailPiece c z).map seenId := by
  have h0 := c.keepFirst_nonneg
  have h1 := c.keepFirst_lt
  have h2 := c.maxSize_pos
  have hlen : view.events.length = z.length := by simpa using congrArg List.length h.ids
  have hhead : Py.takeTo view.events c.keepFirst = headPiece c view.events := if_pos h0
  have htail : -(c.maxSize / 2 - (headPiece c view.events).length) = -(tailSize c : Int) := by
    rw [headPiece, List.length_take]
    unfold tailSize
    omega
  have hneg : ¬ 0 ≤ -(tailSize c : Int) := by unfold tailSize; omega
  have hdrop : Py.dropTo view.events (-(tailSize c : Int)) = tailPiece c view.events := by
    rw [Py.dropTo, if_neg hneg, neg_neg, Int.toNat_natCast, tailPiece]
  show (Py.takeTo view.events c.keepFirst ++ Py.dropTo view.events
    (-(c.maxSize / 2 - (Py.takeTo view.events c.keepFirst).length))).map Event.id = _
  rw [hhead, htail, hdrop, List.map_append, ← headPiece_map, ← tailPiece_map, h.ids, headPiece_map,
    tailPiece_map, List.map_append]

theorem mem_eventIdsToForget (h : Shows view z) (hlong : c.maxSize < z.length) {i : Int} :
    i ∈ eventIdsToForget c view.events ↔
      i ∈ (middlePiece c z).map seenId ∧ i ∉ (headPiece c z ++ tailPiece c z).map seenId := by
  have hall : view.events.map Event.id =
      (headPiece c z ++ middlePiece c z ++ tailPiece c z).map seenId := by rw [pieces z hlong, h.ids]
  rw [eventIdsToForget, List.mem_filter, Bool.not_eq_true', ← Bool.not_eq_true,
    List.contains_iff_mem, eventIdsToKeep_eq h hlong, hall]
  simp only [List.map_append, List.mem_append]
  tauto

theorem seenId_eq_invalid {x : Event × Bool} (hx : 0 ≤ x.1.id) :
    seenId x = INVALID_ID ↔ x.2 = true := by
  unfold seenId INVALID_ID
  split_ifs with h
  · exact ⟨fun _ => h, fun _ => rfl⟩
  · exact ⟨fun heq => by omega, fun h' => absurd h' h⟩

theorem seenId_eq_of_ne {x : Event × Bool} {i : Int} (hi : i ≠ INVALID_ID) :
    seenId x = i ↔ x.2 = false ∧ x.1.id = i := by
  unfold seenId
  cases x.2 with
  | true => simpa using hi.symm
  | false => simp

theorem invalid_mem_eventIdsToForget (h : Shows view z) (hlong : c.maxSize < z.length) :
    INVALID_ID ∈ eventIdsToForget c view.events ↔
      true ∈ middlePiece c (z.map Prod.snd) ∧
        true ∉ headPiece c (z.map Prod.snd) ++ tailPiece c (z.map Prod.snd) := by
  have hmem {xs : List (Event × Bool)} (hxs : ∀ x ∈ xs, x ∈ z) :
      INVALID_ID ∈ xs.map seenId ↔ true ∈ xs.map Prod.snd := by
    rw [List.mem_map, List.mem_map]
    exact exists_congr fun x => and_congr_right fun hx => seenId_eq_invalid (h.nonneg x (hxs x hx))
  have hz := pieces z hlong
  rw [mem_eventIdsToForget h hlong, hmem, hmem, middlePiece_map, headPiece_map, tailPiece_map,
    List.map_append]
  · intro x hx
    rw [← hz]
    rcases List.mem_append.mp hx with hx | hx
    · exact List.mem_append_left _ (List.mem_append_left _ hx)
    · exact List.mem_append_right _ hx
  · intro x hx
    rw [← hz]
    exact List.mem_append_left _ (List.mem_append_right _ hx)

theorem Shows.pieces_ordered (h : Shows view z) (hlong : c.maxSize < z.length) :
    (headPiece c z ++ middlePiece c z ++ tailPiece c z).Pairwise fun a b => a.1.id < b.1.id := by
  rw [pieces z hlong]
  exact (List.pairwise_map (f := Prod.fst)).mp h.ordered

/-- An id that is seen is forgotten exactly when it is seen in the middle. -/
theorem seen_mem_eventIdsToForget (h : Shows view z) (hlong : c.maxSize < z.length) {i : Int}
    (hi : i ≠ INVALID_ID) :
    i ∈ eventIdsToForget c view.events ↔ ∃ x ∈ middlePiece c z, x.2 = false ∧ x.1.id = i := by
  obtain ⟨hfm, -, hback⟩ := List.pairwise_append.mp (h.pieces_ordered hlong)
  obtain ⟨-, -, hfront⟩ := List.pairwise_append.mp hfm
  rw [mem_eventIdsToForget h hlong, List.mem_map, List.mem_map]
  simp only [seenId_eq_of_ne hi]
  constructor
  · exact And.left
  · rintro ⟨x, hx, hseen, rfl⟩
    refine ⟨⟨x, hx, hseen, rfl⟩, ?_⟩
    rintro ⟨y, hy, -, hid⟩
    rcases List.mem_append.mp hy with hy | hy
    · have := hfront y hy x hx
      omega
    · have := hback x (List.mem_append_right _ hx) y hy
      omega

section Ends

variable {xs : List (Event × Bool)}

theorem head_least (hxs : xs.Pairwise fun a b => a.1.id < b.1.id) {h : Event × Bool}
    (hh : xs.head? = some h) : ∀ x ∈ xs, x = h ∨ h.1.id < x.1.id := by
  cases xs with
  | nil => simp at hh
  | cons y ys =>
    rw [List.head?_cons, Option.some_inj] at hh
    subst hh
    rw [List.pairwise_cons] at hxs
    intro x hx
    rcases List.mem_cons.mp hx with rfl | hx
    · exact .inl rfl
    · exact .inr (hxs.1 x hx)

theorem getLast_greatest (hxs : xs.Pairwise fun a b => a.1.id < b.1.id) {l : Event × Bool}
    (hl : xs.getLast? = some l) : ∀ x ∈ xs, x = l ∨ x.1.id < l.1.id := by
  obtain ⟨ys, rfl⟩ := List.getLast?_eq_some_iff.mp hl
  obtain ⟨-, -, hlt⟩ := List.pairwise_append.mp hxs
  intro x hx
  rcases List.mem_append.mp hx with hx | hx
  · exact .inr (hlt x hx l (List.mem_singleton_self _))
  · exact .inl (List.mem_singleton.mp hx)

/-- A lower bound that is the id of an unmarked one bounds all exactly when the first is unmarked. -/
theorem lower_bound_iff (hxs : xs.Pairwise fun a b => a.1.id < b.1.id) {s : Int}
    (hs : ∃ x ∈ xs, x.2 = false ∧ x.1.id = s) (hle : ∀ x ∈ xs, x.2 = false → s ≤ x.1.id) :
    (∀ x ∈ xs, s ≤ x.1.id) ↔ (xs.map Prod.snd).head? = some false := by
  obtain ⟨x, hx, hseen, rfl⟩ := hs
  obtain ⟨h, hh⟩ : ∃ h, xs.head? = some h := by
    rw [← Option.isSome_iff_exists, List.isSome_head?]
    exact List.ne_nil_of_mem hx
  have hmem : h ∈ xs := List.mem_of_head? hh
  have hleast := head_least hxs hh
  rw [List.head?_map, hh, Option.map_some, Option.some_inj]
  constructor
  · intro hall
    rcases hleast x hx with rfl | hlt
    · exact hseen
    · have := hall h hmem
      omega
  · intro hfirst y hy
    have hxh := hle h hmem hfirst
    rcases hleast y hy with rfl | hlt
    · exact hxh
    · omega

theorem upper_bound_iff (hxs : xs.Pairwise fun a b => a.1.id < b.1.id) {t : Int}
    (ht : ∃ x ∈ xs, x.2 = false ∧ x.1.id = t) (hge : ∀ x ∈ xs, x.2 = false → x.1.id ≤ t) :
    (∀ x ∈ xs, x.1.id ≤ t) ↔ (xs.map Prod.snd).getLast? = some false := by
  obtain ⟨x, hx, hseen, rfl⟩ := ht
  obtain ⟨l, hl⟩ : ∃ l, xs.getLast? = some l :=
    ⟨_, List.getLast?_eq_some_getLast (List.ne_nil_of_mem hx)⟩
  have hmem : l ∈ xs := List.mem_of_getLast? hl
  have hgreatest := getLast_greatest hxs hl
  rw [List.getLast?_map, hl, Option.map_some, Option.some_inj]
  constructor
  · intro hall
    rcases hgreatest x hx with rfl | hlt
    · exact hseen
    · have := hall l hmem
      omega
  · intro hlast y hy
    have hlx := hge l hmem hlast
    rcases hgreatest y hy with rfl | hlt
    · exact hlx
    · omega

end Ends

/-- What is forgotten by range lies between the least and the greatest id to forget. -/
theorem getCondensation_ok {a : CondensationAction} (hok : getCondensation c view = .ok a) :
    ∃ s t, s ∈ eventIdsToForget c view.events ∧ t ∈ eventIdsToForget c view.events ∧
      (∀ i ∈ eventIdsToForget c view.events, s ≤ i ∧ i ≤ t) ∧
      a.summary = none ∧ ∀ i, i ∈ a.forgotten ↔ s ≤ i ∧ i ≤ t := by
  unfold getCondensation at hok
  split at hok
  next s t hmin hmax =>
    cases hok
    obtain ⟨hs, hle⟩ := List.min?_eq_some_iff.mp hmin
    obtain ⟨ht, hge⟩ := List.max?_eq_some_iff.mp hmax
    refine ⟨s, t, hs, ht, fun i hi => ⟨hle i hi, hge i hi⟩, rfl, fun i => ?_⟩
    exact CondensationAction.mem_forgotten_range rfl rfl rfl
  · cases hok

theorem getCondensation_of_mem {i : Int} (hi : i ∈ eventIdsToForget c view.events) :
    ∃ a, getCondensation c view = .ok a := by
  unfold getCondensation
  obtain ⟨s, hs⟩ : ∃ s, (eventIdsToForget c view.events).min? = some s := by
    rw [← Option.isSome_iff_exists, List.isSome_min?_of_mem hi]
  obtain ⟨t, ht⟩ : ∃ t, (eventIdsToForget c view.events).max? = some t := by
    rw [← Option.isSome_iff_exists, List.isSome_max?_of_mem hi]
  rw [hs, ht]
  exact ⟨_, rfl⟩

/-- The middle is what a range takes out of the view. -/
def TakesMiddle (c : SummarySizes) (z : List (Event × Bool)) (s t : Int) : Prop :=
  (∀ x ∈ headPiece c z, x.1.id < s ∨ t < x.1.id) ∧
    (∀ x ∈ middlePiece c z, s ≤ x.1.id ∧ x.1.id ≤ t) ∧
    ∀ x ∈ tailPiece c z, x.1.id < s ∨ t < x.1.id

theorem filter_forgotten_iff (h : Shows view z) (hlong : c.maxSize < z.length)
    {a : CondensationAction} {s t : Int} (ha : ∀ i, i ∈ a.forgotten ↔ s ≤ i ∧ i ≤ t) :
    (z.map Prod.fst).filter (fun x => !a.forgotten.contains x.id) =
        headPiece c (z.map Prod.fst) ++ tailPiece c (z.map Prod.fst) ↔ TakesMiddle c z s t := by
  have hout (i : Int) : (!a.forgotten.contains i) = true ↔ i < s ∨ t < i := by
    rw [Bool.not_eq_true', ← Bool.not_eq_true, List.contains_iff_mem, ha]
    omega
  have hin (i : Int) : (!a.forgotten.contains i) = false ↔ s ≤ i ∧ i ≤ t := by
    rw [Bool.not_eq_false', List.contains_iff_mem, ha]
  have hz := pieces (z.map Prod.fst) (c := c) (by simpa using hlong)
  have hord := h.ordered
  rw [← hz] at hord
  have hiff := filter_eq_outer_iff (p := fun x => !a.forgotten.contains x.id) hord
  rw [hz] at hiff
  rw [hiff, headPiece_map, middlePiece_map, tailPiece_map]
  simp only [List.forall_mem_map, hout, hin, TakesMiddle]

theorem Shows.middle_nonneg (h : Shows view z) (hlong : c.maxSize < z.length) :
    ∀ x ∈ middlePiece c z, 0 ≤ x.1.id := by
  intro x hx
  apply h.nonneg
  rw [← pieces z hlong]
  exact List.mem_append_left _ (List.mem_append_right _ hx)

theorem Shows.ne_invalid (h : Shows view z) (hlong : c.maxSize < z.length) {x : Event × Bool}
    (hx : x ∈ middlePiece c z) : x.1.id ≠ INVALID_ID := by
  have hnonneg := h.middle_nonneg hlong x hx
  unfold INVALID_ID
  omega

theorem Shows.around (h : Shows view z) (hlong : c.maxSize < z.length) {m : Event × Bool}
    (hm : m ∈ middlePiece c z) :
    (∀ x ∈ headPiece c z, x.1.id < m.1.id) ∧ ∀ x ∈ tailPiece c z, m.1.id < x.1.id := by
  obtain ⟨hfm, -, hback⟩ := List.pairwise_append.mp (h.pieces_ordered hlong)
  obtain ⟨-, -, hfront⟩ := List.pairwise_append.mp hfm
  exact ⟨fun x hx => hfront x hx m hm, hback m (List.mem_append_right _ hm)⟩

/-- A masked event counts as forgotten: the range starts below the head. -/
theorem takesMiddle_of_lost (h : Shows view z) (hlong : c.maxSize < z.length)
    (hlost : INVALID_ID ∈ eventIdsToForget c view.events) {s t : Int}
    (ht : t ∈ eventIdsToForget c view.events)
    (hall : ∀ i ∈ eventIdsToForget c view.events, s ≤ i ∧ i ≤ t) :
    TakesMiddle c z s t ↔
      c.keepFirst = 0 ∧ (middlePiece c (z.map Prod.snd)).getLast? = some false := by
  have hnonneg := h.middle_nonneg hlong
  have hord := h.pieces_ordered hlong
  have hmiddle : (middlePiece c z).Pairwise fun a b => a.1.id < b.1.id :=
    (List.pairwise_append.mp (List.pairwise_append.mp hord).1).2.1
  have hlow : s ≤ INVALID_ID := (hall _ hlost).1
  have hinvalid : INVALID_ID < 0 := by decide
  obtain ⟨m, hm⟩ := List.exists_mem_of_ne_nil _ (middlePiece_ne_nil z hlong)
  -- the greatest id to forget is a seen one as soon as it bounds the middle
  have hseen : t ≠ INVALID_ID → ∃ x ∈ middlePiece c z, x.2 = false ∧ x.1.id = t :=
    fun hne => (seen_mem_eventIdsToForget h hlong hne).mp ht
  have hge : ∀ x ∈ middlePiece c z, x.2 = false → x.1.id ≤ t := by
    intro x hx hshown
    have hmem := (seen_mem_eventIdsToForget h hlong (h.ne_invalid hlong hx)).mpr
      ⟨x, hx, hshown, rfl⟩
    exact (hall _ hmem).2
  rw [middlePiece_map]
  constructor
  · rintro ⟨hhead, hin, -⟩
    have hne : t ≠ INVALID_ID := by
      have := (hin m hm).2
      have := hnonneg m hm
      omega
    refine ⟨?_, (upper_bound_iff hmiddle (hseen hne) hge).mp fun x hx => (hin x hx).2⟩
    by_contra hkeep
    -- the first event of the head lies in the range
    have hpos : 0 < z.length := by have := c.maxSize_pos; omega
    have hk := c.keepFirst_nonneg
    obtain ⟨x, hx⟩ : ∃ x, x ∈ headPiece c z := by
      refine List.exists_mem_of_length_pos ?_
      rw [headPiece, List.length_take]
      omega
    have hx0 : 0 ≤ x.1.id := h.nonneg x (List.mem_of_mem_take hx)
    have hxm := (h.around hlong hm).1 x hx
    have := (hin m hm).2
    rcases hhead x hx with hlt | hlt <;> omega
  · rintro ⟨hkeep, hlast⟩
    obtain ⟨l, hl, hl2⟩ : ∃ l ∈ middlePiece c z, l.2 = false := by
      have := List.mem_of_getLast? hlast
      obtain ⟨l, hl, hl2⟩ := List.mem_map.mp this
      exact ⟨l, hl, hl2⟩
    have hne : t ≠ INVALID_ID := by
      have := hge l hl hl2
      have := hnonneg l hl
      omega
    have hin := (upper_bound_iff hmiddle (hseen hne) hge).mpr hlast
    obtain ⟨y, hy, -, rfl⟩ := hseen hne
    refine ⟨?_, fun x hx => ⟨?_, hin x hx⟩, fun x hx => .inr ((h.around hlong hy).2 x hx)⟩
    · simp [headPiece, hkeep]
    · have := hnonneg x hx
      omega

/-- Otherwise the range goes from the first to the last of the middle that is not masked. -/
theorem takesMiddle_of_seen (h : Shows view z) (hlong : c.maxSize < z.length)
    (hlost : INVALID_ID ∉ eventIdsToForget c view.events) {s t : Int}
    (hs : s ∈ eventIdsToForget c view.events) (ht : t ∈ eventIdsToForget c view.events)
    (hall : ∀ i ∈ eventIdsToForget c view.events, s ≤ i ∧ i ≤ t) :
    TakesMiddle c z s t ↔ (middlePiece c (z.map Prod.snd)).head? = some false ∧
      (middlePiece c (z.map Prod.snd)).getLast? = some false := by
  have hmiddle : (middlePiece c z).Pairwise fun a b => a.1.id < b.1.id :=
    (List.pairwise_append.mp (List.pairwise_append.mp (h.pieces_ordered hlong)).1).2.1
  have hbounds : ∀ x ∈ middlePiece c z, x.2 = false → s ≤ x.1.id ∧ x.1.id ≤ t := by
    intro x hx hshown
    exact hall _ ((seen_mem_eventIdsToForget h hlong (h.ne_invalid hlong hx)).mpr
      ⟨x, hx, hshown, rfl⟩)
  have hseen {i : Int} (hi : i ∈ eventIdsToForget c view.events) :
      ∃ x ∈ middlePiece c z, x.2 = false ∧ x.1.id = i :=
    (seen_mem_eventIdsToForget h hlong fun heq => hlost (heq ▸ hi)).mp hi
  have hlower := lower_bound_iff hmiddle (hseen hs) fun x hx hx2 => (hbounds x hx hx2).1
  have hupper := upper_bound_iff hmiddle (hseen ht) fun x hx hx2 => (hbounds x hx hx2).2
  rw [middlePiece_map, ← hlower, ← hupper]
  constructor
  · rintro ⟨-, hin, -⟩
    exact ⟨fun x hx => (hin x hx).1, fun x hx => (hin x hx).2⟩
  · rintro ⟨hlow, hup⟩
    obtain ⟨x, hx, -, rfl⟩ := hseen hs
    obtain ⟨y, hy, -, rfl⟩ := hseen ht
    exact ⟨fun e he => .inl ((h.around hlong hx).1 e he), fun e he => ⟨hlow e he, hup e he⟩,
      fun e he => .inr ((h.around hlong hy).2 e he)⟩

/-- Every condensation of a masked view takes exactly the middle out of it, or else the marks tell
that it does not. -/
theorem forgets_middle_iff (h : Shows view z) (hlong : c.maxSize < z.length) :
    (∀ a, getCondensation c view = .ok a →
      (z.map Prod.fst).filter (fun x => !a.forgotten.contains x.id) =
        headPiece c (z.map Prod.fst) ++ tailPiece c (z.map Prod.fst)) ↔
      MarksOk c (z.map Prod.snd) := by
  have hiff := invalid_mem_eventIdsToForget h hlong
  unfold MarksOk
  split_ifs with hcase
  · have hlost := hiff.mpr hcase
    constructor
    · intro hok
      obtain ⟨a, ha⟩ := getCondensation_of_mem hlost
      obtain ⟨s, t, hs, ht, hall, -, hforgotten⟩ := getCondensation_ok ha
      rw [← takesMiddle_of_lost h hlong hlost ht hall, ← filter_forgotten_iff h hlong hforgotten]
      exact hok a ha
    · intro hmarks a ha
      obtain ⟨s, t, hs, ht, hall, -, hforgotten⟩ := getCondensation_ok ha
      rw [filter_forgotten_iff h hlong hforgotten, takesMiddle_of_lost h hlong hlost ht hall]
      exact hmarks
  · have hlost : INVALID_ID ∉ eventIdsToForget c view.events := fun hmem => hcase (hiff.mp hmem)
    constructor
    · intro hok
      by_cases hall : false ∈ middlePiece c (z.map Prod.snd)
      · right
        rw [middlePiece_map] at hall
        obtain ⟨x, hx, hx2⟩ := List.mem_map.mp hall
        obtain ⟨a, ha⟩ := getCondensation_of_mem
          ((seen_mem_eventIdsToForget h hlong (h.ne_invalid hlong hx)).mpr ⟨x, hx, hx2, rfl⟩)
        obtain ⟨s, t, hs, ht, hall, -, hforgotten⟩ := getCondensation_ok ha
        rw [← takesMiddle_of_seen h hlong hlost hs ht hall,
          ← filter_forgotten_iff h hlong hforgotten]
        exact hok a ha
      · exact .inl hall
    · intro hmarks a ha
      obtain ⟨s, t, hs, ht, hall, -, hforgotten⟩ := getCondensation_ok ha
      rw [filter_forgotten_iff h hlong hforgotten, takesMiddle_of_seen h hlong hlost hs ht hall]
      rcases hmarks with hnone | hmarks
      · obtain ⟨x, hx, hx2, -⟩ :=
          (seen_mem_eventIdsToForget h hlong fun heq => hlost (heq ▸ hs)).mp hs
        refine absurd ?_ hnone
        rw [middlePiece_map]
        exact List.mem_map.mpr ⟨x, hx, hx2⟩
      · exact hmarks

end Forgetting

/-! ## The shape of a view -/

/-- After any number of condensations that took the middle, all but a head and a tail of the
conversation is forgotten; `n` is where the tail starts. -/
structure HeadTail (c : SummarySizes) (history : List Event) (n : Nat) : Prop where
  ordered : Ordered history
  nonneg : ∀ e ∈ history, 0 ≤ e.id
  forgottenBelow : ∀ i ∈ View.forgottenEventIds history, i < nextId history
  noSummary : View.lastSummary history = none
  kept : View.keptEvents history = headPiece c (conversation history) ++ (conversation history).drop n
  head_le : c.keepFirst.toNat ≤ n
  begun : n = c.keepFirst.toNat ∨ n ≤ (conversation history).length

namespace HeadTail

variable {c : SummarySizes} {history : List Event} {n : Nat}

theorem nil (c : SummarySizes) : HeadTail c [] c.keepFirst.toNat where
  ordered := .nil
  nonneg := by simp
  forgottenBelow := by simp [View.forgottenEventIds]
  noSummary := by simp [View.lastSummary]
  kept := by simp [View.keptEvents, conversation, headPiece]
  head_le := le_rfl
  begun := .inl rfl

theorem nextId_nonneg (h : HeadTail c history n) : 0 ≤ nextId history := by
  rcases List.eq_nil_or_concat history with rfl | ⟨front, last, rfl⟩
  · exact le_rfl
  · rw [List.concat_eq_append] at h ⊢
    have := h.nonneg last (List.mem_append_right _ (List.mem_singleton_self _))
    rw [nextId_append]
    omega

theorem nonneg_append (h : HeadTail c history n) {e : Event} (hid : e.id = nextId history) :
    ∀ x ∈ history ++ [e], 0 ≤ x.id := by
  intro x hx
  rw [List.mem_append, List.mem_singleton] at hx
  rcases hx with hx | rfl
  · exact h.nonneg x hx
  · rw [hid]
    exact h.nextId_nonneg

theorem view_events (h : HeadTail c history n) :
    (View.fromEvents history).events = View.keptEvents history := by
  show View.insertSummary (View.keptEvents history) (View.lastSummary history) = _
  rw [h.noSummary]
  rfl

/-- An event of the conversation lengthens the tail. -/
theorem converse (h : HeadTail c history n) {e : Event} (he : e.isConversation = true)
    (hid : e.id = nextId history) : HeadTail c (history ++ [e]) n := by
  have hle := le_of_eq hid.symm
  have hconv : conversation (history ++ [e]) = conversation history ++ [e] := by
    simp [conversation, he]
  have hby := View.forgottenBy_conversation he
  refine ⟨h.ordered.concat hle, h.nonneg_append hid,
    forgottenBelow_append h.forgottenBelow hle (by simp [hby]), ?_, ?_, h.head_le, ?_⟩
  · rw [View.lastSummary_append, View.summaryOf_conversation he, h.noSummary]
    rfl
  · rw [keptEvents_conversation h.forgottenBelow he hle, hconv, h.kept]
    -- before the first condensation head and tail are the whole conversation
    rcases h.begun with rfl | hn
    · rw [headPiece, headPiece, List.take_append_drop, List.take_append_drop]
    · have hk := h.head_le
      rw [headPiece, headPiece, List.take_append_of_le_length (by omega),
        List.drop_append_of_le_length hn, List.append_assoc]
  · rw [hconv, List.length_append]
    have := h.begun
    omega

/-- A request for a condensation leaves the view as it is. -/
theorem request (h : HeadTail c history n) {e : Event} (hc : e.condensation? = none)
    (he : e.isCondensationRequest = true) (hid : e.id = nextId history) :
    HeadTail c (history ++ [e]) n := by
  have hle := le_of_eq hid.symm
  have hconv : conversation (history ++ [e]) = conversation history := by
    simp [conversation, Event.isConversation, he]
  have hby := forgottenBy_request hc he
  refine ⟨h.ordered.concat hle, h.nonneg_append hid,
    forgottenBelow_append h.forgottenBelow hle (by simp [hby]), ?_, ?_, h.head_le, ?_⟩
  · have hnone : View.summaryOf e = none := by simp [View.summaryOf, hc]
    rw [View.lastSummary_append, hnone, h.noSummary]
    rfl
  · rw [keptEvents_request h.ordered hc he hle, hconv]
    exact h.kept
  · rw [hconv]
    exact h.begun

section Asking

variable {a : CondensationAction}

theorem conversation_condensation (history : List Event) (a : CondensationAction) :
    conversation (history ++ [condensationEvent history a]) = conversation history := by
  have hno : (condensationEvent history a).isConversation = false := rfl
  simp [conversation, hno]

theorem lastSummary_condensation (h : HeadTail c history n) (ha : a.summary = none) :
    View.lastSummary (history ++ [condensationEvent history a]) = none := by
  have hnone : View.summaryOf (condensationEvent history a) = none := by
    simp [View.summaryOf, condensationEvent, Event.condensation?, ha]
  rw [View.lastSummary_append, hnone, h.noSummary]
  rfl

/-- A long view starts with the whole head of the conversation. -/
theorem head_of_long (h : HeadTail c history n)
    (hlong : c.maxSize < (View.keptEvents history).length) :
    (headPiece c (conversation history)).length = c.keepFirst ∧
      headPiece c (View.keptEvents history) = headPiece c (conversation history) := by
  have h0 := c.keepFirst_nonneg
  have h1 := c.keepFirst_lt
  have h2 := c.maxSize_pos
  have hk := h.head_le
  have hlen := congrArg List.length h.kept
  rw [headPiece, List.length_append, List.length_take, List.length_drop] at hlen
  have hhead : (headPiece c (conversation history)).length = c.keepFirst.toNat := by
    rw [headPiece, List.length_take]
    omega
  refine ⟨by omega, ?_⟩
  rw [h.kept]
  exact List.take_left' hhead

/-- The end of a long view is the end of the conversation. -/
theorem tail_of_long (h : HeadTail c history n)
    (hlong : c.maxSize < (View.keptEvents history).length) :
    tailPiece c (View.keptEvents history) = tailPiece c (conversation history) ∧
      n ≤ (conversation history).length - tailSize c := by
  have h0 := c.keepFirst_nonneg
  have h1 := c.keepFirst_lt
  have h2 := c.maxSize_pos
  obtain ⟨hhead, -⟩ := h.head_of_long hlong
  have hlen := congrArg List.length h.kept
  rw [List.length_append, List.length_drop] at hlen
  have hn : n + tailSize c ≤ (conversation history).length := by unfold tailSize; omega
  refine ⟨?_, by omega⟩
  have hdrop : (View.keptEvents history).length - tailSize c =
      (headPiece c (conversation history)).length +
        ((conversation history).length - tailSize c - n) := by omega
  rw [tailPiece, hdrop, h.kept, List.drop_length_add_append, List.drop_drop, tailPiece]
  congr 1
  omega

/-- A condensation that takes the middle out of the view moves the tail. -/
theorem condense (h : HeadTail c history n) (hlong : c.maxSize < (View.keptEvents history).length)
    (ha : a.summary = none) (hbelow : ∀ i ∈ a.forgotten, i < nextId history)
    (hfilter : (View.keptEvents history).filter (fun x => !a.forgotten.contains x.id) =
      headPiece c (View.keptEvents history) ++ tailPiece c (View.keptEvents history)) :
    HeadTail c (history ++ [condensationEvent history a])
      ((conversation history).length - tailSize c) := by
  have hid : (condensationEvent history a).id = nextId history := rfl
  have hle := le_of_eq hid.symm
  have hconv := conversation_condensation history a
  have hhead := (h.head_of_long hlong).2
  obtain ⟨htail, hn⟩ := h.tail_of_long hlong
  have hby : View.forgottenBy (condensationEvent history a) = a.forgotten ++ [nextId history] := rfl
  refine ⟨h.ordered.concat hle, h.nonneg_append hid,
    forgottenBelow_append h.forgottenBelow hle ?_, h.lastSummary_condensation ha, ?_,
    h.head_le.trans hn, ?_⟩
  · intro i hi
    rw [hby, List.mem_append, List.mem_singleton] at hi
    rcases hi with hi | rfl
    · exact le_of_lt (hbelow i hi)
    · exact le_rfl
  · rw [keptEvents_condensation h.ordered, hconv, hfilter, hhead, htail]
    rfl
  · rw [hconv]
    exact .inr (Nat.sub_le ..)

end Asking

end HeadTail

/-! ## Runs of the pipeline -/

section Pipeline

variable (stage : MaskingCondenser) (c : SummarySizes)

/-- Every condensation an asked pipeline returns leaves the first events of the conversation and
the most recent ones of the view before it, half of the maximal size in all. -/
def MaskedAskOk (history : List Event) : Prop :=
  ∀ a, maskThenForget stage c (View.fromEvents history) = .ok (.condensation a) →
    ((conversation history).take c.keepFirst.toNat).length = c.keepFirst ∧
    ∃ recent, recent <:+ (View.fromEvents history).events ∧
      (View.fromEvents (history ++ [condensationEvent history a])).events =
        (conversation history).take c.keepFirst.toNat ++ recent ∧
      (View.fromEvents (history ++ [condensationEvent history a])).events.length = c.maxSize / 2

/-- Every time the pipeline is asked. -/
def MaskedAsksOk (steps : List PipelineStep) : Prop :=
  ∀ before, before ++ [.ask] <+: steps → MaskedAskOk stage c (runPipeline stage c before)

/-- Which events of the view the first condenser of the pipeline masks. -/
def viewMarks (history : List Event) : List Bool :=
  (stage.marked (View.fromEvents history).events).map Prod.snd

/-- Every time the pipeline is asked about a view that is too long, the masked events lie so that
the ids that are left tell the middle of it. -/
def MaskedTriggersOk (steps : List PipelineStep) : Prop :=
  ∀ before, before ++ [.ask] <+: steps →
    c.maxSize < (View.fromEvents (runPipeline stage c before)).events.length →
    MarksOk c (viewMarks stage (runPipeline stage c before))

variable {stage c} {history : List Event} {n : Nat} {a : CondensationAction}

theorem HeadTail.shows (h : HeadTail c history n) :
    Shows (stage.condense (View.fromEvents history))
      (stage.marked (View.fromEvents history).events) where
  ids := stage.condense_ids _
  ordered := by
    rw [stage.marked_map_fst, h.view_events]
    exact h.ordered.filter _
  nonneg := by
    intro x hx
    have hmem := List.mem_map_of_mem (f := Prod.fst) hx
    rw [stage.marked_map_fst, h.view_events] at hmem
    exact h.nonneg _ (View.mem_keptEvents.mp hmem).1

/-- The pipeline returns a condensation only for a view that is too long. -/
theorem maskThenForget_condensation (view : View) :
    maskThenForget stage c view = .ok (.condensation a) ↔
      c.maxSize < view.events.length ∧
        AmortizedForgettingCondenser.getCondensation c (stage.condense view) = .ok a := by
  have hshould : c.shouldCondense (stage.condense view) = decide (c.maxSize < view.events.length) := by
    rw [SummarySizes.shouldCondense, stage.length_condense, stage.condense_unhandled, Bool.or_false]
  rw [maskThenForget_eq, AmortizedForgettingCondenser.condense, hshould]
  by_cases hlong : c.maxSize < view.events.length
  · rw [decide_eq_true hlong, if_pos rfl]
    cases AmortizedForgettingCondenser.getCondensation c (stage.condense view) with
    | error err => simp [Except.map]
    | ok a' => simp [Except.map, hlong]
  · rw [decide_eq_false hlong]
    simp [hlong]

/-- What a range forgets are ids of the past. -/
theorem HeadTail.forgotten_lt (h : HeadTail c history n)
    (hok : AmortizedForgettingCondenser.getCondensation c
      (stage.condense (View.fromEvents history)) = .ok a) :
    a.summary = none ∧ ∀ i ∈ a.forgotten, i < nextId history := by
  obtain ⟨s, t, -, ht, -, hsummary, hforgotten⟩ := getCondensation_ok hok
  refine ⟨hsummary, fun i hi => ?_⟩
  have hnext := h.nextId_nonneg
  have hit := ((hforgotten i).mp hi).2
  have hmem : t ∈ (stage.condense (View.fromEvents history)).events.map Event.id :=
    (List.mem_filter.mp ht).1
  rw [stage.condense_ids] at hmem
  obtain ⟨x, hx, rfl⟩ := List.mem_map.mp hmem
  have hx := List.mem_map_of_mem (f := Prod.fst) hx
  rw [stage.marked_map_fst, h.view_events] at hx
  have hlt := h.ordered.lt_nextId _ (View.mem_keptEvents.mp hx).1
  unfold MaskingCondenser.seenId INVALID_ID at hit
  split_ifs at hit <;> omega

/-- A condensation is as it should be exactly when it takes the middle out of the view. -/
theorem HeadTail.condensed_iff (h : HeadTail c history n) (ha : a.summary = none)
    (hlong : c.maxSize < (View.keptEvents history).length) :
    (((conversation history).take c.keepFirst.toNat).length = c.keepFirst ∧
      ∃ recent, recent <:+ (View.fromEvents history).events ∧
        (View.fromEvents (history ++ [condensationEvent history a])).events =
          (conversation history).take c.keepFirst.toNat ++ recent ∧
        (View.fromEvents (history ++ [condensationEvent history a])).events.length =
          c.maxSize / 2) ↔
      (View.keptEvents history).filter (fun x => !a.forgotten.contains x.id) =
        headPiece c (View.keptEvents history) ++ tailPiece c (View.keptEvents history) := by
  have h0 := c.keepFirst_nonneg
  have h1 := c.keepFirst_lt
  have h2 := c.maxSize_pos
  obtain ⟨hlen, hhead⟩ := h.head_of_long hlong
  have hview : (View.fromEvents (history ++ [condensationEvent history a])).events =
      (View.keptEvents history).filter fun x => !a.forgotten.contains x.id := by
    rw [← keptEvents_condensation h.ordered]
    show View.insertSummary _ (View.lastSummary _) = _
    rw [h.lastSummary_condensation ha]
    rfl
  rw [hview, hhead, h.view_events]
  constructor
  · rintro ⟨-, recent, hsuffix, hafter, htotal⟩
    rw [hafter, List.length_append] at htotal
    have hrecent : recent.length = tailSize c := by
      unfold headPiece at hlen
      unfold tailSize
      omega
    rw [hafter, List.suffix_iff_eq_drop.mp hsuffix, hrecent]
    rfl
  · intro hafter
    refine ⟨hlen, tailPiece c (View.keptEvents history), List.drop_suffix .., hafter, ?_⟩
    rw [hafter, List.length_append, tailPiece, List.length_drop]
    unfold tailSize
    omega

theorem maskedAskOk_iff (h : HeadTail c history n) : MaskedAskOk stage c history ↔
    (c.maxSize < (View.fromEvents history).events.length → MarksOk c (viewMarks stage history)) := by
  have hshows : Shows (stage.condense (View.fromEvents history))
    (stage.marked (View.fromEvents history).events) := h.shows
  constructor
  · intro hask hlong
    rw [viewMarks, ← forgets_middle_iff hshows (by rwa [stage.length_marked])]
    intro a ha
    have hgood := hask a ((maskThenForget_condensation _).mpr ⟨hlong, ha⟩)
    rw [h.view_events] at hlong
    rw [h.condensed_iff (h.forgotten_lt ha).1 hlong] at hgood
    rw [stage.marked_map_fst, h.view_events]
    exact hgood
  · intro hmarks a hok
    obtain ⟨hlong, ha⟩ := (maskThenForget_condensation _).mp hok
    have htakes := (forgets_middle_iff hshows (by rwa [stage.length_marked])).mpr (hmarks hlong) a ha
    rw [stage.marked_map_fst, h.view_events] at htakes
    rw [h.view_events] at hlong
    exact (h.condensed_iff (h.forgotten_lt ha).1 hlong).mpr htakes

/-- A step whose condensation is as it should be keeps the shape. -/
theorem stepPipeline_headTail (h : HeadTail c history n) {step : PipelineStep}
    (hask : step = .ask → MaskedAskOk stage c history) :
    ∃ n, HeadTail c (stepPipeline stage c history step) n := by
  cases step with
  | feed e hc =>
    cases hreq : e.isCondensationRequest with
    | true => exact ⟨n, h.request hc hreq rfl⟩
    | false =>
      have hconv : ({ e with id := nextId history } : Event).isConversation = true := by
        have h1 : ({ e with id := nextId history } : Event).condensation? = none := hc
        have h2 : ({ e with id := nextId history } : Event).isCondensationRequest = false := hreq
        simp [Event.isConversation, h1, h2]
      exact ⟨n, h.converse hconv rfl⟩
  | ask =>
    unfold stepPipeline
    dsimp only
    split
    next a hok =>
      obtain ⟨hlong, ha⟩ := (maskThenForget_condensation _).mp hok
      rw [h.view_events] at hlong
      obtain ⟨hsummary, hbelow⟩ := h.forgotten_lt ha
      exact ⟨_, h.condense hlong hsummary hbelow
        ((h.condensed_iff hsummary hlong).mp (hask rfl a hok))⟩
    · exact ⟨n, h⟩

theorem MaskedAsksOk.before {steps : List PipelineStep} {step : PipelineStep}
    (h : MaskedAsksOk stage c (steps ++ [step])) : MaskedAsksOk stage c steps :=
  fun before hpre => h before (hpre.trans (List.prefix_append ..))

theorem MaskedTriggersOk.before {steps : List PipelineStep} {step : PipelineStep}
    (h : MaskedTriggersOk stage c (steps ++ [step])) : MaskedTriggersOk stage c steps :=
  fun before hpre => h before (hpre.trans (List.prefix_append ..))

theorem runPipeline_headTail (steps : List PipelineStep) (h : MaskedAsksOk stage c steps) :
    ∃ n, HeadTail c (runPipeline stage c steps) n := by
  induction steps using List.reverseRecOn with
  | nil => exact ⟨_, .nil c⟩
  | append_singleton steps step ih =>
    obtain ⟨n, hshape⟩ := ih h.before
    rw [runPipeline, List.foldl_append]
    refine stepPipeline_headTail hshape fun hstep => ?_
    subst hstep
    exact h steps (List.prefix_refl _)

variable (stage c) in
/-- Both conditions speak of the asks one after the other, and an ask is answered as it should be
from the shape that the asks before it have left. -/
theorem maskedAsksOk_iff (steps : List PipelineStep) :
    MaskedAsksOk stage c steps ↔ MaskedTriggersOk stage c steps := by
  induction steps using List.reverseRecOn with
  | nil =>
    have hnone : ∀ before : List PipelineStep, ¬ before ++ [.ask] <+: [] := by
      intro before hpre
      simp at hpre
    exact ⟨fun _ before hpre => absurd hpre (hnone before),
      fun _ before hpre => absurd hpre (hnone before)⟩
  | append_singleton steps step ih =>
    -- the new step counts only when it is an ask
    have hlast (P : List PipelineStep → Prop)
        (hsteps : ∀ before, before ++ [.ask] <+: steps → P before) (hstep : step = .ask → P steps) :
        ∀ before, before ++ [.ask] <+: steps ++ [step] → P before := by
      intro before hpre
      rcases List.prefix_concat_iff.mp hpre with heq | hpre
      · obtain ⟨rfl, hask⟩ := List.append_inj' heq rfl
        exact hstep (List.singleton_inj.mp hask).symm
      · exact hsteps before hpre
    constructor
    · intro h
      obtain ⟨n, hshape⟩ := runPipeline_headTail steps h.before
      refine hlast _ (ih.mp h.before) fun hstep => ?_
      subst hstep
      exact (maskedAskOk_iff hshape).mp (h steps (List.prefix_refl _))
    · intro h
      have hbefore := ih.mpr h.before
      obtain ⟨n, hshape⟩ := runPipeline_headTail steps hbefore
      refine hlast _ hbefore fun hstep => ?_
      subst hstep
      exact (maskedAskOk_iff hshape).mpr (h steps (List.prefix_refl _))

/-! One masked observation between messages: it has no id, so the range starts before the head. -/

def forgettingSizes : SummarySizes := ⟨4, 1, tightSizes.keepFirst_lt, tightSizes.keepFirst_nonneg, tightSizes.maxSize_pos⟩

def streamMessage : Event := { body := .action (.message { content := "hi" }) }

def streamThought : Event := { body := .observation (.agentThink ⟨"noted"⟩) }

/-- Every event is fed and the pipeline asked after it. -/
def feedAndAsk : List PipelineStep :=
  [.feed streamMessage rfl, .ask, .feed streamThought rfl, .ask, .feed streamMessage rfl, .ask,
    .feed streamMessage rfl, .ask, .feed streamMessage rfl, .ask]

theorem maskedAsksOk_headForgotten :
    AmortizedForgettingCondenser.init 4 1 = .ok forgettingSizes ∧
    (View.fromEvents (runPipeline (.observationMasking 1) forgettingSizes feedAndAsk)).events =
      [{ streamMessage with id := 4 }] ∧
    ¬ MaskedAsksOk (.observationMasking 1) forgettingSizes feedAndAsk := by
  refine ⟨rfl, by decide, fun h => ?_⟩
  obtain ⟨-, -, -, -, htotal⟩ := h (feedAndAsk.take 9) (List.prefix_refl _)
    { forgottenEventsStartId := some (-1)
      forgottenEventsEndId := some 3
      valid := by simp [validateFieldPolymorphism] } rfl
  revert htotal
  decide

end Pipeline

end OpenHands
