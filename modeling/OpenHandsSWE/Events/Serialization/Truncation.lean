import OpenHandsSWE.Events.Serialization.Observation
import OpenHandsSWE.Lib.CutMiddle

/-! The two functions that leave out the middle of a long text. -/

namespace OpenHands

namespace Truncation

open CutMiddle

def notice : List Char := "\n[... Observation truncated due to length ...]\n".toList

/-- What both functions return for a text that is too long. -/
def truncated (content : List Char) (half : ℤ) : List Char :=
  Py.takeTo content half ++ notice ++ Py.dropTo content (-half)

def truncateContent (content : List Char) (maxChars : Option ℤ) : List Char :=
  match maxChars with
  | none => content
  | some maxChars => if content.length ≤ maxChars ∨ maxChars < 0 then content else truncated content (maxChars / 2)

/-- `CmdOutputObservation._maybe_truncate`. -/
def maybeTruncate (content : List Char) (maxSize : ℤ := MAX_CMD_OUTPUT_SIZE) : List Char :=
  if content.length ≤ maxSize then content else truncated content (maxSize / 2)

/-- A long text keeps at most `maxChars` characters, at its ends, and is not cut twice. -/
structure KeepsEnds (truncate : List Char → List Char) (maxChars : ℤ) (content : List Char) : Prop where
  short : content.length ≤ maxChars → truncate content = content
  long : maxChars < content.length → ∃ lead tail, truncate content = lead ++ notice ++ tail ∧
    lead <+: content ∧ tail <:+ content ∧ (lead.length + tail.length : ℕ) ≤ maxChars
  idem : truncate (truncate content) = truncate content

/-! ## One cut -/

variable {content : List Char} {half : ℤ}

theorem truncated_eq (h : 0 < half) : truncated content half = cutMiddle notice half.toNat content := by
  have hneg : ¬ (0 : ℤ) ≤ -half := by omega
  rw [truncated, cutMiddle, Py.takeTo, Py.dropTo, if_pos h.le, if_neg hneg, neg_neg]

/-- A slice from `-0` is the whole text. -/
theorem truncated_zero : truncated content 0 = notice ++ content := by
  simp [truncated, Py.takeTo, Py.dropTo]

theorem truncateContent_eq {maxChars : ℤ} (h : 0 ≤ maxChars) :
    truncateContent content (some maxChars) = maybeTruncate content maxChars := by
  have hnot : ¬ maxChars < 0 := not_lt.mpr h
  simp only [truncateContent, maybeTruncate, hnot, or_false]

theorem keepsEnds_of_short {maxChars : ℤ} (h : content.length ≤ maxChars) :
    KeepsEnds (maybeTruncate · maxChars) maxChars content := by
  have hself : maybeTruncate content maxChars = content := if_pos h
  refine ⟨fun _ => hself, fun hlong => absurd h (not_le.mpr hlong), ?_⟩
  rw [hself, hself]

theorem keepsEnds_of_two_le {maxChars : ℤ} (h : 2 ≤ maxChars) :
    KeepsEnds (maybeTruncate · maxChars) maxChars content := by
  by_cases hshort : content.length ≤ maxChars
  · exact keepsEnds_of_short hshort
  have hpos : 0 < maxChars / 2 := by omega
  have hhalf : (maxChars / 2).toNat ≤ content.length := by omega
  have hcut : maybeTruncate content maxChars = cutMiddle notice (maxChars / 2).toNat content := by
    rw [maybeTruncate, if_neg hshort, truncated_eq hpos]
  refine ⟨fun h => absurd h hshort, fun _ => ?_, ?_⟩
  · refine ⟨_, _, hcut, List.take_prefix _ _, List.drop_suffix _ _, ?_⟩
    rw [List.length_take, List.length_drop]
    omega
  · -- the result is longer than the limit, and cut again where it was cut
    have hlong : ¬ ((cutMiddle notice (maxChars / 2).toNat content).length : ℤ) ≤ maxChars := by
      have hnotice : 2 ≤ notice.length := by decide
      rw [length_cutMiddle hhalf]
      omega
    rw [hcut, maybeTruncate, if_neg hlong, truncated_eq hpos, cutMiddle_idem hhalf]

/-- Without room for two characters the whole text is kept behind the notice. -/
theorem short_of_keepsEnds {maxChars : ℤ} (h0 : 0 ≤ maxChars) (h2 : maxChars < 2)
    (h : KeepsEnds (maybeTruncate · maxChars) maxChars content) : content.length ≤ maxChars := by
  by_contra hlong
  obtain ⟨lead, tail, hcut, -, -, hlength⟩ := h.long (not_le.mp hlong)
  have hzero : maxChars / 2 = 0 := by omega
  rw [maybeTruncate, if_neg hlong, hzero, truncated_zero] at hcut
  have hsame := congrArg List.length hcut
  rw [List.length_append, List.length_append, List.length_append] at hsame
  omega

/-- Both functions keep the ends exactly when the limit leaves room for them or nothing is cut. -/
theorem keepsEnds_iff (content : List Char) {maxChars : ℤ} (h : 0 ≤ maxChars) :
    KeepsEnds (truncateContent · (some maxChars)) maxChars content ∧
      KeepsEnds (maybeTruncate · maxChars) maxChars content ↔ 2 ≤ maxChars ∨ content.length ≤ maxChars := by
  have hsame : (truncateContent · (some maxChars)) = (maybeTruncate · maxChars) :=
    funext fun _ => truncateContent_eq h
  rw [hsame, and_self]
  constructor
  · intro hkeeps
    by_contra hnot
    obtain ⟨h2, hlong⟩ := not_or.mp hnot
    exact hlong (short_of_keepsEnds h (not_le.mp h2) hkeeps)
  · rintro (h2 | hshort)
    · exact keepsEnds_of_two_le h2
    · exact keepsEnds_of_short hshort

theorem keepsEnds_iff_three : KeepsEnds (truncateContent · (some 2)) 2 "abc".toList ∧
    KeepsEnds (maybeTruncate · 2) 2 "abc".toList ↔ (2 : ℤ) ≤ 2 ∨ ("abc".toList.length : ℤ) ≤ 2 :=
  keepsEnds_iff "abc".toList (by decide)

/-- A text of two characters, of which one is to be kept. -/
theorem whole_kept : ¬ ∀ (content : List Char) (maxChars : ℤ), 0 ≤ maxChars →
    KeepsEnds (truncateContent · (some maxChars)) maxChars content ∧
      KeepsEnds (maybeTruncate · maxChars) maxChars content := by
  intro h
  have hshort := short_of_keepsEnds (by decide) (by decide) (h "ab".toList 1 (by decide)).2
  exact absurd hshort (by decide)

/-- The output of a command is cut at the default size. -/
theorem maybeTruncate_default (content : String) :
    OpenHands.maybeTruncate content = .ofList (maybeTruncate content.toList) := by
  unfold OpenHands.maybeTruncate maybeTruncate
  by_cases hshort : content.toList.length ≤ MAX_CMD_OUTPUT_SIZE
  · rw [if_pos hshort, if_pos (by exact_mod_cast hshort), String.ofList_toList]
  · rw [if_neg hshort, if_neg (by exact_mod_cast hshort), truncated_eq (by decide)]
    rfl

end Truncation

end OpenHands
