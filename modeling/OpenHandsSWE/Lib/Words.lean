import OpenHandsSWE.Lib.Text

/-! The words of a text between its white space, and what replacing a pattern leaves of them. -/

namespace Text

/-- `cs.split()`. -/
def words : List Char → List (List Char)
  | [] => []
  | c :: cs =>
    if isSpace c then words cs
    else if cs.head?.all isSpace then [c] :: words cs
    else consHead c (words cs)

section

variable {c : Char} {cs u r : List Char}

theorem words_of_isSpace (h : isSpace c = true) (cs : List Char) : words (c :: cs) = words cs := by
  rw [words, if_pos h]

theorem words_of_last (h : isSpace c = false) (hcs : cs.head?.all isSpace = true) : words (c :: cs) = [c] :: words cs := by
  rw [words, if_neg (by simp [h]), if_pos hcs]

theorem words_of_inner (h : isSpace c = false) (hcs : ¬ cs.head?.all isSpace = true) : words (c :: cs) = consHead c (words cs) := by
  rw [words, if_neg (by simp [h]), if_neg hcs]

theorem words_ne_nil (h : ¬ cs.head?.all isSpace = true) : words cs ≠ [] := by
  cases cs with
  | nil => exact absurd rfl h
  | cons c cs =>
    have hc : isSpace c = false := by simpa using h
    by_cases hcs : cs.head?.all isSpace = true
    · rw [words_of_last hc hcs]
      exact List.cons_ne_nil _ _
    · rw [words_of_inner hc hcs]
      cases words cs <;> exact List.cons_ne_nil _ _

/-- White space between two texts keeps their words apart. -/
theorem words_append (u : List Char) (hr : r.head?.all isSpace = true) : words (u ++ r) = words u ++ words r := by
  induction u with
  | nil => rfl
  | cons c u ih =>
    have hhead : (u ++ r).head?.all isSpace = u.head?.all isSpace := by
      cases u with
      | nil => exact hr
      | cons d u => rfl
    rw [List.cons_append]
    by_cases hc : isSpace c = true
    · rw [words_of_isSpace hc, words_of_isSpace hc, ih]
    · rw [Bool.not_eq_true] at hc
      by_cases hu : u.head?.all isSpace = true
      · rw [words_of_last hc hu, words_of_last hc (hhead.trans hu), ih, List.cons_append]
      · rw [words_of_inner hc hu, words_of_inner hc (hhead ▸ hu), ih, consHead_append c (words_ne_nil hu)]

theorem words_of_blank (h : ∀ c ∈ u, isSpace c = true) : words u = [] := by
  induction u with
  | nil => rfl
  | cons c u ih =>
    rw [List.forall_mem_cons] at h
    rw [words_of_isSpace h.1, ih h.2]

theorem words_of_word (hne : u ≠ []) (h : ∀ c ∈ u, isSpace c = false) : words u = [u] := by
  induction u with
  | nil => exact absurd rfl hne
  | cons c u ih =>
    rw [List.forall_mem_cons] at h
    cases u with
    | nil => exact words_of_last h.1 rfl
    | cons d u =>
      have hd : ¬ (d :: u).head?.all isSpace = true := by simp [h.2 d List.mem_cons_self]
      rw [words_of_inner h.1 hd, ih (List.cons_ne_nil d u) h.2]
      rfl

theorem mem_words {w : List Char} (h : w ∈ words cs) : w ≠ [] ∧ ∀ c ∈ w, isSpace c = false := by
  induction cs generalizing w with
  | nil => exact absurd h List.not_mem_nil
  | cons c cs ih =>
    by_cases hc : isSpace c = true
    · rw [words_of_isSpace hc] at h
      exact ih h
    · rw [Bool.not_eq_true] at hc
      by_cases hcs : cs.head?.all isSpace = true
      · rw [words_of_last hc hcs, List.mem_cons] at h
        rcases h with rfl | h
        · exact ⟨List.cons_ne_nil _ _, by simpa using hc⟩
        · exact ih h
      · obtain ⟨p, ps, hps, hcons⟩ := consHead_eq c (words_ne_nil hcs)
        rw [words_of_inner hc hcs, hcons, List.mem_cons] at h
        rw [hps] at ih
        rcases h with rfl | h
        · exact ⟨List.cons_ne_nil _ _, List.forall_mem_cons.mpr ⟨hc, (ih List.mem_cons_self).2⟩⟩
        · exact ih (List.mem_cons_of_mem p h)

theorem words_lstrip (cs : List Char) : words (lstrip cs) = words cs := by
  induction cs with
  | nil => rfl
  | cons c cs ih =>
    by_cases hc : isSpace c = true
    · rw [words_of_isSpace hc, ← ih, lstrip, List.dropWhile_cons_of_pos hc, lstrip]
    · rw [lstrip, List.dropWhile_cons_of_neg hc]

/-- A text is its stripped self, with white space after it. -/
theorem rstrip_append (cs : List Char) : ∃ b, (∀ c ∈ b, isSpace c = true) ∧ rstrip cs ++ b = cs := by
  refine ⟨(cs.reverse.takeWhile isSpace).reverse, fun c hc => List.mem_takeWhile_imp (List.mem_reverse.mp hc), ?_⟩
  rw [rstrip, ← List.reverse_append, List.takeWhile_append_dropWhile, List.reverse_reverse]

theorem words_rstrip (cs : List Char) : words (rstrip cs) = words cs := by
  obtain ⟨b, hb, hcs⟩ := rstrip_append cs
  have hhead : b.head?.all isSpace = true := by
    cases b with
    | nil => rfl
    | cons c b => simpa using hb c List.mem_cons_self
  have hwords := words_append (rstrip cs) hhead
  rw [hcs, words_of_blank hb, List.append_nil] at hwords
  exact hwords.symm

theorem words_strip (cs : List Char) : words (strip cs) = words cs := by
  rw [strip, words_rstrip, words_lstrip]

/-- The words have all the letters that are no white space. -/
theorem sum_length_words (cs : List Char) : ((words cs).map List.length).sum = cs.countP fun c => !isSpace c := by
  induction cs with
  | nil => rfl
  | cons c cs ih =>
    by_cases hc : isSpace c = true
    · rw [words_of_isSpace hc, ih, List.countP_cons_of_neg (by simp [hc])]
    · rw [Bool.not_eq_true] at hc
      rw [List.countP_cons_of_pos (by simp [hc]), ← ih]
      by_cases hcs : cs.head?.all isSpace = true
      · rw [words_of_last hc hcs, List.map_cons, List.sum_cons, List.length_singleton, Nat.add_comm]
      · obtain ⟨p, ps, hps, hcons⟩ := consHead_eq c (words_ne_nil hcs)
        rw [words_of_inner hc hcs, hcons, hps]
        simp only [List.map_cons, List.sum_cons, List.length_cons]
        omega

theorem getLast?_rstrip (cs : List Char) : ∀ c ∈ (rstrip cs).getLast?, isSpace c = false := by
  intro c hc
  rw [rstrip, List.getLast?_reverse] at hc
  have hhead := List.head?_dropWhile_not isSpace cs.reverse
  rw [hc] at hhead
  simpa using hhead

theorem strip_append_space {c : Char} (hc : isSpace c = true) (u : List Char) : strip (u ++ [c]) = strip u := by
  have hleft : lstrip (u ++ [c]) = if lstrip u = [] then [] else lstrip u ++ [c] := by
    rw [lstrip, List.dropWhile_append, List.dropWhile_cons_of_pos hc, List.dropWhile_nil, lstrip]
    simp only [List.isEmpty_iff]
  rw [strip, hleft]
  split_ifs with hempty
  · rw [strip, hempty]
  · rw [rstrip, List.reverse_append, List.reverse_singleton, List.singleton_append, List.dropWhile_cons_of_pos hc, strip, rstrip]

theorem strip_sublist (cs : List Char) : (strip cs).Sublist cs := by
  have hright : (rstrip (lstrip cs)).Sublist (lstrip cs) := by
    obtain ⟨b, -, hb⟩ := rstrip_append (lstrip cs)
    have hprefix := List.prefix_append (rstrip (lstrip cs)) b
    rw [hb] at hprefix
    exact hprefix.sublist
  exact hright.trans (List.dropWhile_sublist _)

end

/-! ## Replacing -/

section

variable {α : Type*} [DecidableEq α] {pat new : List α}

theorem replace_append (hpat : pat ≠ []) (cs : List α) : replace pat new (pat ++ cs) = new ++ replace pat new cs := by
  rw [replace, split_append pat hpat, intercalate_cons new [] (split_ne_nil pat cs), List.nil_append, replace]

theorem replace_cons {c : α} {cs : List α} (h : ¬ pat <+: c :: cs) : replace pat new (c :: cs) = c :: replace pat new cs := by
  rw [replace, split_cons pat h, intercalate_consHead new c (split_ne_nil pat cs), replace]

/-- A text without the first letter of the pattern stays before the rest. -/
theorem replace_append_of_notMem {p : α} {m u : List α} (hu : p ∉ u) (cs : List α) :
    replace (p :: m) new (u ++ cs) = u ++ replace (p :: m) new cs := by
  induction u with
  | nil => rfl
  | cons c u ih =>
    obtain ⟨hne, hu⟩ := not_or.mp fun h => hu (List.mem_cons.mpr h)
    rw [List.cons_append, replace_cons fun h => hne (List.cons_prefix_cons.mp h).1, ih hu, List.cons_append]

end

end Text
