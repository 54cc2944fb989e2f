import Mathlib

/-! Reading a list page by page: a reader that takes one item after the other and may stop, and a
server that hands out what remains from a cursor on, a page at a time. -/

namespace Paging

variable {α β σ κ : Type*}

/-- What a reader yields of a list and the state it is left in, unless it stops. -/
def feed (read : σ → α → List β × Option σ) : σ → List α → List β × Option σ
  | s, [] => ([], some s)
  | s, x :: xs =>
    match read s x with
    | (found, none) => (found, none)
    | (found, some s) => (found ++ (feed read s xs).1, (feed read s xs).2)

variable {read : σ → α → List β × Option σ}

@[simp] theorem feed_nil (s : σ) : feed read s [] = ([], some s) := rfl

theorem feed_stop {s : σ} {xs : List α} {found : List β} (ys : List α)
    (h : feed read s xs = (found, none)) : feed read s (xs ++ ys) = (found, none) := by
  induction xs generalizing s found with
  | nil => cases h
  | cons x xs ih =>
    rw [List.cons_append, feed]
    rw [feed] at h
    cases hx : read s x with
    | mk first next =>
      rw [hx] at h
      cases next with
      | none => exact h
      | some s' =>
        dsimp only at h ⊢
        obtain ⟨hfound, hnone⟩ := Prod.mk.inj h
        have hrest : feed read s' (xs ++ ys) = ((feed read s' xs).1, none) := ih (by rw [← hnone])
        rw [hrest, ← hfound]

theorem feed_go {s s' : σ} {xs : List α} {found : List β} (ys : List α)
    (h : feed read s xs = (found, some s')) :
    feed read s (xs ++ ys) = (found ++ (feed read s' ys).1, (feed read s' ys).2) := by
  induction xs generalizing s found with
  | nil =>
    rw [feed_nil, Prod.mk.injEq, Option.some_inj] at h
    obtain ⟨rfl, rfl⟩ := h
    rfl
  | cons x xs ih =>
    rw [List.cons_append, feed]
    rw [feed] at h
    cases hx : read s x with
    | mk first next =>
      rw [hx] at h
      cases next with
      | none => cases h
      | some t =>
        dsimp only at h ⊢
        obtain ⟨hfound, hsome⟩ := Prod.mk.inj h
        have hrest : feed read t (xs ++ ys) =
            ((feed read t xs).1 ++ (feed read s' ys).1, (feed read s' ys).2) := ih (by rw [← hsome])
        rw [hrest, ← hfound, List.append_assoc]

/-- What holds of the state and is kept by every item read holds in the end. -/
theorem feed_valid {valid : σ → Prop}
    (hread : ∀ s x s', valid s → (read s x).2 = some s' → valid s') {s s' : σ} {xs : List α}
    (hs : valid s) (h : (feed read s xs).2 = some s') : valid s' := by
  induction xs generalizing s with
  | nil => cases h; exact hs
  | cons x xs ih =>
    rw [feed] at h
    cases hx : read s x with
    | mk first next =>
      rw [hx] at h
      cases next with
      | none => cases h
      | some t => exact ih (hread s x t hs (by rw [hx])) h

/-! ## Page after page -/

section Pages

variable (read) (serve : κ → σ → List α × Bool) (advance : κ → List α → κ)

/-- The loop over the pages; without fuel it gives nothing. -/
def readPages : Nat → κ → σ → Option (List β)
  | 0, _, _ => none
  | fuel + 1, c, s =>
    match feed read s (serve c s).1 with
    | (found, none) => some found
    | (found, some s') =>
      if (serve c s).2 then (readPages fuel (advance c (serve c s).1) s').map (found ++ ·)
      else some found

/-- A server that has `rest c` to hand out from the cursor `c` on: it gives the first ones and tells
whether there are more, and the cursor moves past what it gave. -/
structure Serves (rest : κ → List α) (size : σ → Nat) (valid : σ → Prop) : Prop where
  page : ∀ c s, valid s → serve c s = ((rest c).take (size s), decide (size s < (rest c).length))
  pos : ∀ s, valid s → 0 < size s
  moves : ∀ c s, valid s → size s < (rest c).length →
    rest (advance c ((rest c).take (size s))) = (rest c).drop (size s)
  keeps : ∀ s x s', valid s → (read s x).2 = some s' → valid s'

variable {read serve advance} {rest : κ → List α} {size : σ → Nat} {valid : σ → Prop}

/-- Read page by page or all at once, the same is found, and the pages come to an end. -/
theorem readPages_complete (h : Serves read serve advance rest size valid) {c : κ} {s : σ}
    (hs : valid s) : ∃ fuel, readPages read serve advance fuel c s = some (feed read s (rest c)).1 := by
  induction hn : (rest c).length using Nat.strong_induction_on generalizing c s with
  | _ n ih =>
    have hpage := h.page c s hs
    have hsplit := List.take_append_drop (size s) (rest c)
    cases hfeed : feed read s ((rest c).take (size s)) with
    | mk found next =>
      cases next with
      | none =>
        refine ⟨1, ?_⟩
        rw [readPages, hpage]
        dsimp only
        rw [hfeed, ← hsplit, feed_stop _ hfeed]
      | some s' =>
        have hs' : valid s' := feed_valid h.keeps hs (by rw [hfeed])
        by_cases hmore : size s < (rest c).length
        · have hmoves := h.moves c s hs hmore
          have hshort : ((rest c).drop (size s)).length < n := by
            have hpos := h.pos s hs
            rw [List.length_drop]
            omega
          obtain ⟨fuel, hfuel⟩ := ih _ hshort hs' (congrArg List.length hmoves)
          refine ⟨fuel + 1, ?_⟩
          rw [readPages, hpage]
          dsimp only
          rw [hfeed]
          dsimp only
          rw [decide_eq_true hmore, if_pos rfl, hfuel, hmoves, Option.map_some]
          conv_rhs => rw [← hsplit, feed_go _ hfeed]
        · refine ⟨1, ?_⟩
          have hall : (rest c).take (size s) = rest c := List.take_of_length_le (by omega)
          rw [readPages, hpage]
          dsimp only
          rw [hfeed]
          dsimp only
          rw [decide_eq_false hmore, if_neg Bool.false_ne_true]
          rw [hall] at hfeed
          rw [hfeed]

/-- Further fuel changes nothing. -/
theorem readPages_unique {fuel fuel' : Nat} {c : κ} {s : σ} {found found' : List β}
    (h : readPages read serve advance fuel c s = some found)
    (h' : readPages read serve advance fuel' c s = some found') : found = found' := by
  induction fuel generalizing fuel' c s found found' with
  | zero => cases h
  | succ fuel ih =>
    cases fuel' with
    | zero => cases h'
    | succ fuel' =>
      rw [readPages] at h h'
      cases hfeed : feed read s (serve c s).1 with
      | mk first next =>
        rw [hfeed] at h h'
        cases next with
        | none =>
          cases h
          cases h'
          rfl
        | some s' =>
          dsimp only at h h'
          split_ifs at h h'
          · obtain ⟨later, hlater, rfl⟩ := Option.map_eq_some_iff.mp h
            obtain ⟨later', hlater', rfl⟩ := Option.map_eq_some_iff.mp h'
            rw [ih hlater hlater']
          · cases h
            cases h'
            rfl

end Pages

/-! ## Pages that leave out an item between them -/

section LeaveOut

variable {limit : Nat}

theorem succ_mod (i limit : Nat) :
    (i + 1) % (limit + 1) = if i % (limit + 1) = limit then 0 else i % (limit + 1) + 1 := by
  have hlt : i % (limit + 1) < limit + 1 := Nat.mod_lt i (Nat.succ_pos limit)
  rw [← Nat.mod_add_mod]
  split_ifs with h
  · rw [h, Nat.mod_self]
  · exact Nat.mod_eq_of_lt (by omega)

/-- After `n` items one is left out, and then again after every `limit` items. -/
def leaveOut (limit : Nat) : Nat → List α → List α
  | _, [] => []
  | 0, _ :: xs => leaveOut limit limit xs
  | n + 1, x :: xs => x :: leaveOut limit n xs

theorem leaveOut_eq (n : Nat) (xs : List α) :
    leaveOut limit n xs = xs.take n ++ leaveOut limit limit (xs.drop (n + 1)) := by
  induction xs generalizing n with
  | nil => simp [leaveOut]
  | cons x xs ih =>
    cases n with
    | zero => rfl
    | succ n => rw [leaveOut, ih, List.take_succ_cons, List.drop_succ_cons, List.cons_append]

theorem leaveOut_sublist (n : Nat) (xs : List α) : (leaveOut limit n xs).Sublist xs := by
  induction xs generalizing n with
  | nil => exact List.Sublist.refl _
  | cons x xs ih =>
    cases n with
    | zero => exact (ih limit).cons x
    | succ n => exact (ih n).cons_cons x

/-- Nothing is missing exactly when what is left out counts for nothing. -/
theorem filterMap_leaveOut_iff (f : α → Option β) {n : Nat} (hn : n ≤ limit) (xs : List α) :
    (leaveOut limit n xs).filterMap f = xs.filterMap f ↔
      ∀ i x, xs[i]? = some x → i % (limit + 1) = n → f x = none := by
  induction xs generalizing n with
  | nil => simp [leaveOut]
  | cons x xs ih =>
    cases n with
    | zero =>
      have hnext (i : Nat) : (i + 1) % (limit + 1) = 0 ↔ i % (limit + 1) = limit := by
        rw [succ_mod]
        by_cases h : i % (limit + 1) = limit
        · rw [if_pos h]
          exact iff_of_true rfl h
        · rw [if_neg h]
          exact iff_of_false (Nat.succ_ne_zero _) h
      rw [leaveOut]
      cases hx : f x with
      | none =>
        rw [List.filterMap_cons_none hx, ih le_rfl]
        constructor
        · intro h i y hy hi
          cases i with
          | zero => rwa [← Option.some.inj hy]
          | succ i => exact h i y hy ((hnext i).mp hi)
        · exact fun h i y hy hi => h (i + 1) y hy ((hnext i).mpr hi)
      | some y =>
        rw [List.filterMap_cons_some hx]
        refine iff_of_false (fun heq => ?_) fun h => ?_
        · have hle := ((@leaveOut_sublist _ limit limit xs).filterMap f).length_le
          rw [heq, List.length_cons] at hle
          omega
        · rw [h 0 x rfl (Nat.zero_mod _)] at hx
          cases hx
    | succ n =>
      have hnext (i : Nat) : (i + 1) % (limit + 1) = n + 1 ↔ i % (limit + 1) = n := by
        rw [succ_mod]
        by_cases h : i % (limit + 1) = limit
        · have hne : i % (limit + 1) ≠ n := by
            rw [h]
            exact (Nat.lt_of_succ_le hn).ne'
          rw [if_pos h]
          exact iff_of_false (Nat.succ_ne_zero n).symm hne
        · rw [if_neg h]
          exact Nat.succ_inj
      have hhead : (x :: leaveOut limit n xs).filterMap f = (x :: xs).filterMap f ↔
          (leaveOut limit n xs).filterMap f = xs.filterMap f := by
        rw [List.filterMap_cons, List.filterMap_cons]
        cases f x with
        | none => exact Iff.rfl
        | some y => exact ⟨fun heq => (List.cons.inj heq).2, congrArg (y :: ·)⟩
      rw [leaveOut, hhead, ih (Nat.le_of_succ_le hn)]
      constructor
      · intro h i y hy hi
        cases i with
        | zero => rw [Nat.zero_mod] at hi; cases hi
        | succ i => exact h i y hy ((hnext i).mp hi)
      · exact fun h i y hy hi => h (i + 1) y hy ((hnext i).mpr hi)

end LeaveOut

end Paging
