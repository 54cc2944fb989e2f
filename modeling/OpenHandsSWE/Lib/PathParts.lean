import Mathlib.Data.List.Basic

/-! The parts of a path, where one of them means the directory above. -/

namespace PathParts

variable {α : Type*} [DecidableEq α]

/-- One more part on the stack of those before it; above the root is the root. -/
def push (up : α) (absolute : Bool) (stack : List α) (part : α) : List α :=
  if part = up then
    match stack with
    | [] => if absolute then [] else [up]
    | top :: below => if top = up then up :: top :: below else below
  else part :: stack

/-- The parts without going up and down again. -/
def normalize (up : α) (absolute : Bool) (parts : List α) : List α := (parts.foldl (push up absolute) []).reverse

variable {up : α} {absolute : Bool} {stack parts later : List α}

theorem notMem_push (h : up ∉ stack) (part : α) : up ∉ push up true stack part := by
  unfold push
  by_cases hpart : part = up
  · rw [if_pos hpart]
    cases stack with
    | nil => exact List.not_mem_nil
    | cons top below =>
      have htop : top ≠ up := fun heq => h (heq ▸ List.mem_cons_self)
      dsimp only
      rw [if_neg htop]
      exact fun hmem => h (List.mem_cons_of_mem top hmem)
  · rw [if_neg hpart, List.mem_cons, not_or]
    exact ⟨Ne.symm hpart, h⟩

/-- A normal absolute path nowhere goes up. -/
theorem notMem_normalize (parts : List α) : up ∉ normalize up true parts := by
  have hstack : ∀ stack, up ∉ stack → up ∉ parts.foldl (push up true) stack := by
    induction parts with
    | nil => exact fun stack h => h
    | cons part parts ih => exact fun stack h => ih _ (notMem_push h part)
  rw [normalize, List.mem_reverse]
  exact hstack [] List.not_mem_nil

theorem foldl_push_down (h : up ∉ later) (stack : List α) : later.foldl (push up absolute) stack = later.reverse ++ stack := by
  induction later generalizing stack with
  | nil => rfl
  | cons part later ih =>
    have hpart : part ≠ up := fun heq => h (heq ▸ List.mem_cons_self)
    have hpush : push up absolute stack part = part :: stack := if_neg hpart
    rw [List.foldl_cons, hpush, ih fun hmem => h (List.mem_cons_of_mem part hmem), List.reverse_cons, List.append_assoc,
      List.singleton_append]

/-- What only goes down stays below the rest. -/
theorem normalize_append (parts : List α) (h : up ∉ later) :
    normalize up absolute (parts ++ later) = normalize up absolute parts ++ later := by
  rw [normalize, List.foldl_append, foldl_push_down h, List.reverse_append, List.reverse_reverse]
  rfl

end PathParts
