import Mathlib

/-! Matching brackets with a stack: what the pairs are, and that they nest or are disjoint. -/

inductive BracketKind where
  | opening
  | closing
  | neither
deriving DecidableEq

namespace BracketKind

section Matching

variable {α : Type*} (kind : α → BracketKind)

/-- The pairs in the order of their closings; a closing without an opening is passed over. -/
def matchPairs : List α → List α → List (α × α)
  | _, [] => []
  | stack, x :: xs =>
    match kind x, stack with
    | .opening, stack => matchPairs (x :: stack) xs
    | .closing, a :: stack => (a, x) :: matchPairs stack xs
    | _, stack => matchPairs stack xs

/-- A word whose brackets all match within it. -/
inductive Balanced : List α → Prop where
  | nil : Balanced []
  | neither {x : α} {w : List α} (hx : kind x = .neither) (hw : Balanced w) : Balanced (x :: w)
  | wrap {a o : α} {u v : List α} (ha : kind a = .opening) (hu : Balanced u)
      (ho : kind o = .closing) (hv : Balanced v) : Balanced (a :: (u ++ o :: v))

/-- `o` closes `a`: what stands between them is balanced. -/
def MatchedPair (xs : List α) (a o : α) : Prop :=
  ∃ pre mid post, xs = pre ++ a :: (mid ++ o :: post) ∧ kind a = .opening ∧ kind o = .closing ∧
    Balanced kind mid

variable {kind}

theorem Balanced.append {u v : List α} (hu : Balanced kind u) (hv : Balanced kind v) :
    Balanced kind (u ++ v) := by
  induction hu with
  | nil => exact hv
  | neither hx _ ih => exact .neither hx ih
  | @wrap a o u w ha hu ho _ _ ihw =>
    simpa only [List.cons_append, List.append_assoc] using Balanced.wrap ha hu ho ihw

/-- In a balanced word every opening is closed, after a balanced word. -/
theorem Balanced.closes {pre post : List α} {a : α} (h : Balanced kind (pre ++ a :: post)) (ha : kind a = .opening) :
    ∃ mid o rest, post = mid ++ o :: rest ∧ kind o = .closing ∧ Balanced kind mid := by
  generalize hword : pre ++ a :: post = word at h
  induction h generalizing pre post with
  | nil => exact absurd hword (by simp)
  | @neither x w hx hw ih =>
    cases pre with
    | nil =>
      rw [(List.cons.inj hword).1, hx] at ha
      cases ha
    | cons y pre => exact ih (List.cons.inj hword).2
  | @wrap b o u v hb hu ho hv ihu ihv =>
    cases pre with
    | nil => exact ⟨u, o, v, (List.cons.inj hword).2, ho, hu⟩
    | cons y pre =>
      have hne : o ≠ a := by
        rintro rfl
        rw [ho] at ha
        cases ha
      rcases List.append_eq_append_iff.mp (List.cons.inj hword).2 with ⟨x, hx, hpost⟩ | ⟨x, hx, hv'⟩
      · cases x with
        | nil => exact absurd (List.cons.inj hpost).1.symm hne
        | cons z x =>
          obtain ⟨rfl, rfl⟩ := List.cons.inj hpost
          obtain ⟨mid, o', rest, rfl, ho', hmid⟩ := ihu hx.symm
          exact ⟨mid, o', rest ++ o :: v, by simp, ho', hmid⟩
      · cases x with
        | nil => exact absurd (List.cons.inj hv').1 hne
        | cons z x => exact ihv (List.cons.inj hv').2.symm

/-- A balanced word leaves the stack as it found it. -/
theorem Balanced.matchPairs_append {w : List α} (hw : Balanced kind w) (stack post : List α) :
    ∃ out, matchPairs kind stack (w ++ post) = out ++ matchPairs kind stack post := by
  induction hw generalizing stack post with
  | nil => exact ⟨[], rfl⟩
  | neither hx _ ih =>
    obtain ⟨out, hout⟩ := ih stack post
    exact ⟨out, by simpa only [List.cons_append, matchPairs, hx] using hout⟩
  | @wrap a o u v ha _ ho _ ihu ihv =>
    obtain ⟨out, hout⟩ := ihu (a :: stack) (o :: (v ++ post))
    obtain ⟨out', hout'⟩ := ihv stack post
    refine ⟨out ++ (a, o) :: out', ?_⟩
    have hclose : matchPairs kind (a :: stack) (o :: (v ++ post)) =
        (a, o) :: matchPairs kind stack (v ++ post) := by
      simp only [matchPairs, ho]
    simp only [List.cons_append, List.append_assoc, matchPairs, ha]
    rw [hout, hclose, hout']

/-- The stack after a prefix: each entry is an opening with a balanced word after it. -/
inductive Pending (kind : α → BracketKind) : List α → List α → Prop where
  | base (pre : List α) : Pending kind pre []
  | push {pre stack w : List α} {a : α} (h : Pending kind pre stack) (ha : kind a = .opening)
      (hw : Balanced kind w) : Pending kind (pre ++ a :: w) (a :: stack)

theorem Pending.extend {pre stack u : List α} (h : Pending kind pre stack)
    (hu : Balanced kind u) : Pending kind (pre ++ u) stack := by
  cases h with
  | base => exact .base _
  | push h ha hw =>
    simpa only [List.append_assoc, List.cons_append] using Pending.push h ha (hw.append hu)

theorem matchPairs_sound {pre stack xs : List α} (h : Pending kind pre stack) {p : α × α}
    (hp : p ∈ matchPairs kind stack xs) : MatchedPair kind (pre ++ xs) p.1 p.2 := by
  induction xs generalizing pre stack with
  | nil => simp [matchPairs] at hp
  | cons x xs ih =>
    have hstep : pre ++ x :: xs = (pre ++ [x]) ++ xs := by simp
    cases hx : kind x with
    | opening =>
      simp only [matchPairs, hx] at hp
      exact hstep ▸ ih (.push h hx .nil) hp
    | neither =>
      simp only [matchPairs, hx] at hp
      exact hstep ▸ ih (h.extend (.neither hx .nil)) hp
    | closing =>
      cases h with
      | base =>
        simp only [matchPairs, hx] at hp
        exact hstep ▸ ih (.base _) hp
      | @push pre stack w a h ha hw =>
        simp only [matchPairs, hx, List.mem_cons] at hp
        rcases hp with rfl | hp
        · exact ⟨pre, w, xs, by simp, ha, hx, hw⟩
        · have hwrap : Balanced kind (a :: (w ++ [x])) := .wrap ha hw hx .nil
          have := ih (h.extend hwrap) hp
          simpa using this

theorem matchPairs_complete {stack xs : List α} {a o : α} (h : MatchedPair kind xs a o) :
    (a, o) ∈ matchPairs kind stack xs := by
  obtain ⟨pre, mid, post, rfl, ha, ho, hmid⟩ := h
  induction pre generalizing stack with
  | nil =>
    obtain ⟨out, hout⟩ := hmid.matchPairs_append (a :: stack) (o :: post)
    have hclose : matchPairs kind (a :: stack) (o :: post) = (a, o) :: matchPairs kind stack post := by
      simp only [matchPairs, ho]
    simp only [List.nil_append, matchPairs, ha]
    rw [hout, hclose]
    simp
  | cons x pre ih =>
    rw [List.cons_append]
    cases hx : kind x with
    | opening => simpa only [matchPairs, hx] using ih
    | neither => simpa only [matchPairs, hx] using ih
    | closing =>
      cases stack with
      | nil => simpa only [matchPairs, hx] using ih
      | cons b stack =>
        simp only [matchPairs, hx]
        exact List.mem_cons_of_mem _ ih

/-- The stack finds exactly the matched pairs. -/
theorem mem_matchPairs_iff {xs : List α} {p : α × α} :
    p ∈ matchPairs kind [] xs ↔ MatchedPair kind xs p.1 p.2 :=
  ⟨fun h => by simpa using matchPairs_sound (.base []) h, fun h => matchPairs_complete h⟩

end Matching

section Order

variable {α : Type*} {kind : α → BracketKind} {key : α → Int}

theorem matchPairs_mem {stack xs : List α} {p : α × α} (hp : p ∈ matchPairs kind stack xs) :
    (p.1 ∈ stack ∨ p.1 ∈ xs) ∧ p.2 ∈ xs := by
  induction xs generalizing stack with
  | nil => simp [matchPairs] at hp
  | cons x xs ih =>
    have weaken {stack' : List α} (hs : ∀ b ∈ stack', b ∈ stack ∨ b = x)
        (hp' : p ∈ matchPairs kind stack' xs) : (p.1 ∈ stack ∨ p.1 ∈ x :: xs) ∧ p.2 ∈ x :: xs := by
      obtain ⟨h1, h2⟩ := ih hp'
      refine ⟨?_, List.mem_cons_of_mem _ h2⟩
      rcases h1 with h1 | h1
      · rcases hs _ h1 with h | h
        · exact .inl h
        · exact .inr (h ▸ List.mem_cons_self ..)
      · exact .inr (List.mem_cons_of_mem _ h1)
    cases hx : kind x with
    | opening =>
      simp only [matchPairs, hx] at hp
      exact weaken (fun b hb => (List.mem_cons.mp hb).symm) hp
    | neither =>
      simp only [matchPairs, hx] at hp
      exact weaken (fun b hb => .inl hb) hp
    | closing =>
      cases stack with
      | nil =>
        simp only [matchPairs, hx] at hp
        exact weaken (fun b hb => .inl hb) hp
      | cons a stack =>
        simp only [matchPairs, hx, List.mem_cons] at hp
        rcases hp with rfl | hp
        · simp
        · exact weaken (fun b hb => .inl (List.mem_cons_of_mem _ hb)) hp

/-- Of two pairs the one closed first lies inside the other or before it. -/
def Laminar (key : α → Int) (p q : α × α) : Prop :=
  key p.1 < key p.2 ∧ key q.1 < key q.2 ∧ key p.2 < key q.2 ∧
    (key q.1 < key p.1 ∨ key p.2 < key q.1)

theorem matchPairs_laminar {stack xs : List α}
    (hs : stack.Pairwise fun a b => key b < key a) (hx : xs.Pairwise fun a b => key a < key b)
    (hsx : ∀ a ∈ stack, ∀ x ∈ xs, key a < key x) :
    (∀ p ∈ matchPairs kind stack xs, key p.1 < key p.2) ∧
      (matchPairs kind stack xs).Pairwise (Laminar key) := by
  induction xs generalizing stack with
  | nil => simp [matchPairs]
  | cons x xs ih =>
    rw [List.pairwise_cons] at hx
    have hrest : ∀ a ∈ stack, ∀ y ∈ xs, key a < key y :=
      fun a ha y hy => hsx a ha y (List.mem_cons_of_mem _ hy)
    have hs' : (x :: stack).Pairwise fun a b => key b < key a :=
      List.pairwise_cons.mpr ⟨fun a ha => hsx a ha x (List.mem_cons_self ..), hs⟩
    have hpush := ih hs' hx.2 fun a ha y hy => by
      rcases List.mem_cons.mp ha with rfl | ha
      · exact hx.1 y hy
      · exact hrest a ha y hy
    cases hk : kind x with
    | opening => simpa only [matchPairs, hk] using hpush
    | neither => simpa only [matchPairs, hk] using ih hs hx.2 hrest
    | closing =>
      cases stack with
      | nil => simpa only [matchPairs, hk] using ih hs hx.2 hrest
      | cons a stack =>
        rw [List.pairwise_cons] at hs
        have hax : key a < key x := hsx a (List.mem_cons_self ..) x (List.mem_cons_self ..)
        obtain ⟨hlt, hlam⟩ := ih hs.2 hx.2
          fun b hb y hy => hrest b (List.mem_cons_of_mem _ hb) y hy
        simp only [matchPairs, hk, List.forall_mem_cons, List.pairwise_cons]
        refine ⟨⟨hax, hlt⟩, fun q hq => ?_, hlam⟩
        obtain ⟨hq1, hq2⟩ := matchPairs_mem hq
        -- the later pair opens below `a` on the stack or after `x`
        refine ⟨hax, hlt q hq, hx.1 _ hq2, ?_⟩
        exact hq1.imp (fun h => hs.1 _ h) (fun h => hx.1 _ h)

end Order

end BracketKind
