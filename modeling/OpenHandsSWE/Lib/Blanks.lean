import OpenHandsSWE.Lib.Text

/-! White space at the ends of a text, and a text without its white space. -/

namespace Text

theorem lstrip_append {c : Char} (hc : isSpace c = false) (us vs : List Char) :
    lstrip (us ++ c :: vs) = lstrip us ++ c :: vs := by
  unfold lstrip
  induction us with
  | nil => exact List.dropWhile_cons_of_neg (by simp [hc])
  | cons u us ih =>
    by_cases hu : isSpace u = true
    · rw [List.cons_append, List.dropWhile_cons_of_pos hu, List.dropWhile_cons_of_pos hu, ih]
    · rw [List.cons_append, List.dropWhile_cons_of_neg hu, List.dropWhile_cons_of_neg hu, List.cons_append]

/-- What is not blank keeps what stands behind it. -/
theorem lstrip_append_shown {us : List Char} (h : ∃ c ∈ us, isSpace c = false) (vs : List Char) :
    lstrip (us ++ vs) = lstrip us ++ vs := by
  obtain ⟨c, hc, hshown⟩ := h
  obtain ⟨as, bs, rfl⟩ := List.append_of_mem hc
  rw [List.append_assoc, List.cons_append, lstrip_append hshown, lstrip_append hshown, List.append_assoc, List.cons_append]

theorem rstrip_append_blank (cs : List Char) {tail : List Char} (htail : ∀ c ∈ tail, isSpace c = true) :
    rstrip (cs ++ tail) = rstrip cs := by
  rw [rstrip, List.reverse_append, List.dropWhile_append_of_pos fun c hc => htail c (List.mem_reverse.mp hc)]
  rfl

theorem rstrip_of_last (cs : List Char) {c : Char} (hc : isSpace c = false) : rstrip (cs ++ [c]) = cs ++ [c] := by
  rw [rstrip, List.reverse_concat, List.dropWhile_cons_of_neg (by rw [hc]; decide), List.reverse_cons, List.reverse_reverse]

theorem rstrip_append_shown (us : List Char) {vs : List Char} (h : ∃ c ∈ vs, isSpace c = false) :
    rstrip (us ++ vs) = us ++ rstrip vs := by
  have hshown : ∃ c ∈ vs.reverse, isSpace c = false := by
    simpa only [List.mem_reverse] using h
  have hlead := lstrip_append_shown hshown us.reverse
  rw [lstrip, lstrip] at hlead
  rw [rstrip, List.reverse_append, hlead, List.reverse_append, List.reverse_reverse]
  rfl

theorem rstrip_begins (cs : List Char) : rstrip cs <+: cs := by
  have hsuffix := List.dropWhile_suffix (l := cs.reverse) isSpace
  rw [← List.reverse_prefix, List.reverse_reverse] at hsuffix
  exact hsuffix

/-! ## Without white space -/

/-- All white space is removed. -/
def bare (cs : List Char) : List Char := cs.filter fun c => !isSpace c

theorem bare_append (us vs : List Char) : bare (us ++ vs) = bare us ++ bare vs := List.filter_append us vs

theorem bare_of_blank {cs : List Char} (h : ∀ c ∈ cs, isSpace c = true) : bare cs = [] := by
  refine List.filter_eq_nil_iff.mpr fun c hc => ?_
  rw [h c hc]
  decide

theorem bare_lstrip (cs : List Char) : bare (lstrip cs) = bare cs := by
  conv_rhs => rw [← List.takeWhile_append_dropWhile (p := isSpace) (l := cs), bare_append,
    bare_of_blank fun c hc => List.mem_takeWhile_imp hc]
  rfl

theorem bare_rstrip (cs : List Char) : bare (rstrip cs) = bare cs := by
  have hreverse := congrArg List.reverse (bare_lstrip cs.reverse)
  rw [bare, bare, ← List.filter_reverse, ← List.filter_reverse, List.reverse_reverse] at hreverse
  exact hreverse

theorem blank_of_bare {cs : List Char} (h : bare cs = []) : ∀ c ∈ cs, isSpace c = true := by
  intro c hc
  have hnot := List.filter_eq_nil_iff.mp h c hc
  simpa using hnot

theorem rstrip_eq_nil_iff {cs : List Char} : rstrip cs = [] ↔ bare cs = [] := by
  constructor
  · intro h
    rw [← bare_rstrip, h]
    rfl
  · intro h
    have hblank := rstrip_append_blank [] (blank_of_bare h)
    exact hblank

theorem strip_eq_nil_iff {cs : List Char} : strip cs = [] ↔ bare cs = [] := by
  rw [strip, rstrip_eq_nil_iff, bare_lstrip]

end Text
