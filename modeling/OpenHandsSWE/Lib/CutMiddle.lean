import Mathlib.Data.List.Basic

/-! A list whose middle is left out: what is kept at both ends, and a notice between them. -/

namespace CutMiddle

variable {α : Type*} {notice xs : List α} {half : ℕ}

/-- `half` elements are kept at each end. -/
def cutMiddle (notice : List α) (half : ℕ) (xs : List α) : List α :=
  xs.take half ++ notice ++ xs.drop (xs.length - half)

theorem length_cutMiddle (h : half ≤ xs.length) : (cutMiddle notice half xs).length = 2 * half + notice.length := by
  have hlead : (xs.take half).length = half := by rw [List.length_take, Nat.min_eq_left h]
  have htail : (xs.drop (xs.length - half)).length = half := by
    rw [List.length_drop]
    omega
  rw [cutMiddle, List.length_append, List.length_append, hlead, htail]
  omega

/-- A list that was cut is cut again at its notice. -/
theorem cutMiddle_idem (h : half ≤ xs.length) :
    cutMiddle notice half (cutMiddle notice half xs) = cutMiddle notice half xs := by
  have hlead : (xs.take half).length = half := by rw [List.length_take, Nat.min_eq_left h]
  have htail : (cutMiddle notice half xs).length - half = (xs.take half ++ notice).length := by
    rw [length_cutMiddle h, List.length_append, hlead]
    omega
  rw [cutMiddle, htail, cutMiddle, List.drop_left, List.append_assoc (xs.take half), List.take_left' hlead,
    List.append_assoc]

end CutMiddle
