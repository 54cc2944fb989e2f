import Mathlib

/-! Python's own conventions that the modules share: exceptions, slices and list insertion. -/

namespace OpenHands

/-- An exception, with its message where the code gives one. -/
inductive PyError where
  | valueError (message : String)
  | assertionError (message : String)
  | keyError (key : String)
  | typeError (message : String)
  | indexError
  | overflowError
  | osError (name : String)
  | attributeError (message : String)
  | fileNotFoundError
  | malformedAction (message : String)
  | functionCallConversion (message : String)
  | functionCallValidation (message : String)
  | functionCallNotExists (message : String)
deriving DecidableEq, Repr

namespace Py

section Raising

variable {ε α β : Type*} {x : Except ε α}

theorem bind_ok {f : α → Except ε β} {b : β} (h : x.bind f = .ok b) :
    ∃ a, x = .ok a ∧ f a = .ok b := by
  cases x with
  | error e => cases h
  | ok a => exact ⟨a, rfl, h⟩

theorem map_ok {f : α → β} {b : β} (h : x.map f = .ok b) : ∃ a, x = .ok a ∧ f a = b := by
  cases x with
  | error e => cases h
  | ok a => exact ⟨a, rfl, Except.ok.inj h⟩

theorem exists_bind_ok {f : α → Except ε β} (hx : ∃ a, x = .ok a)
    (hf : ∀ a, ∃ b, f a = .ok b) : ∃ b, x.bind f = .ok b := by
  obtain ⟨a, rfl⟩ := hx
  exact hf a

theorem mapM_ok_iff {read : α → Except ε β} {xs : List α} {ys : List β} :
    xs.mapM read = .ok ys ↔ xs.map read = ys.map .ok := by
  induction xs generalizing ys with
  | nil =>
    rw [List.mapM_nil, List.map_nil, eq_comm (a := []), List.map_eq_nil_iff, eq_comm (a := ys)]
    exact ⟨Except.ok.inj, congrArg Except.ok⟩
  | cons x xs ih =>
    rw [List.mapM_cons, List.map_cons]
    constructor
    · intro h
      obtain ⟨y, hy, h⟩ := bind_ok h
      obtain ⟨rest, hrest, h⟩ := bind_ok h
      rw [← Except.ok.inj h, List.map_cons, ← ih.mp hrest, hy]
    · intro h
      cases ys with
      | nil => cases h
      | cons y ys =>
        obtain ⟨hy, hrest⟩ := List.cons.inj h
        rw [hy, ih.mpr hrest]
        rfl

theorem exists_map_ok_iff {read : α → Except ε β} {xs : List α} :
    (∃ ys : List β, xs.map read = ys.map .ok) ↔ ∀ x ∈ xs, ∃ y, read x = .ok y := by
  constructor
  · rintro ⟨ys, h⟩ x hx
    have hmem := List.mem_map_of_mem (f := read) hx
    rw [h] at hmem
    obtain ⟨y, -, hy⟩ := List.mem_map.mp hmem
    exact ⟨y, hy.symm⟩
  · intro h
    induction xs with
    | nil => exact ⟨[], rfl⟩
    | cons x xs ih =>
      obtain ⟨y, hy⟩ := h x List.mem_cons_self
      obtain ⟨ys, hys⟩ := ih fun x hx => h x (List.mem_cons_of_mem _ hx)
      exact ⟨y :: ys, by rw [List.map_cons, List.map_cons, hy, hys]⟩

end Raising

section Slices

variable {α : Type*}

/-- `xs[:n]`. -/
def takeTo (xs : List α) (n : Int) : List α :=
  if 0 ≤ n then xs.take n.toNat else xs.take (xs.length - (-n).toNat)

/-- `xs[n:]`; a slice from `-0` is the whole list. -/
def dropTo (xs : List α) (n : Int) : List α :=
  if 0 ≤ n then xs.drop n.toNat else xs.drop (xs.length - (-n).toNat)

/-- `xs[m:n]`. -/
def slice (xs : List α) (m n : Int) : List α :=
  let place (i : Int) : Nat := if 0 ≤ i then i.toNat else xs.length - (-i).toNat
  (xs.take (place n)).drop (place m)

/-- `xs.insert(n, x)`: at the end when `n` is beyond it, counted from the end when negative. -/
def insert (xs : List α) (n : Int) (x : α) : List α := takeTo xs n ++ x :: dropTo xs n

/-- The length of `xs[:n]`. -/
def lengthTo (length : Nat) (n : Int) : Nat := if 0 ≤ n then min n.toNat length else length - (-n).toNat

/-- The length of `xs[n:]`. -/
def lengthFrom (length : Nat) (n : Int) : Nat := if 0 ≤ n then length - n.toNat else min (-n).toNat length

theorem length_takeTo (xs : List α) (n : Int) : (takeTo xs n).length = lengthTo xs.length n := by
  unfold takeTo lengthTo
  split_ifs
  · exact List.length_take
  · rw [List.length_take]
    exact min_eq_left (Nat.sub_le _ _)

theorem length_dropTo (xs : List α) (n : Int) : (dropTo xs n).length = lengthFrom xs.length n := by
  unfold dropTo lengthFrom
  split_ifs
  · exact List.length_drop
  · rw [List.length_drop]
    exact Nat.sub_sub_eq_min _ _ |>.trans (min_comm _ _)

theorem takeTo_append_dropTo (xs : List α) (n : Int) : takeTo xs n ++ dropTo xs n = xs := by
  unfold takeTo dropTo
  split_ifs <;> exact List.take_append_drop ..

theorem mem_of_mem_takeTo {x : α} {xs : List α} {n : Int} (h : x ∈ takeTo xs n) : x ∈ xs := by
  rw [← takeTo_append_dropTo xs n]
  exact List.mem_append_left _ h

theorem slice_natCast (xs : List α) (m n : Nat) : slice xs m n = (xs.take n).drop m := by
  unfold slice
  simp

end Slices

end Py

end OpenHands
