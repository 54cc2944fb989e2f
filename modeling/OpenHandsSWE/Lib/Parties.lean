import Mathlib.Data.List.Basic

/-! The parties of a system as a list: one more comes in at the end, or one of them changes. -/

namespace Parties

variable {α : Type*} {l : List α} {i j : Nat} {c d : α} {f : α → α}

theorem append_cases (h : (l ++ [c])[j]? = some d) : l[j]? = some d ∨ j = l.length ∧ d = c := by
  rcases Nat.lt_trichotomy j l.length with hj | hj | hj
  · rw [List.getElem?_append_left hj] at h
    exact .inl h
  · rw [hj, List.getElem?_concat_length] at h
    exact .inr ⟨hj, (Option.some.inj h).symm⟩
  · have hlen : (l ++ [c]).length ≤ j := by
      rw [List.length_append]
      exact hj
    rw [List.getElem?_eq_none hlen] at h
    exact absurd h.symm (Option.some_ne_none d)

theorem set_cases (h : (l.set i c)[j]? = some d) : (j = i ∧ d = c) ∨ (j ≠ i ∧ l[j]? = some d) := by
  rw [List.getElem?_set] at h
  split_ifs at h with hij
  · exact .inl ⟨hij.symm, (Option.some.inj h).symm⟩
  · exact .inr ⟨Ne.symm hij, h⟩

theorem modify_cases (h : (l.modify i f)[j]? = some d) :
    (j = i ∧ ∃ c, l[i]? = some c ∧ d = f c) ∨ (j ≠ i ∧ l[j]? = some d) := by
  rw [List.getElem?_modify] at h
  obtain ⟨c, hc, hd⟩ := Option.map_eq_some_iff.mp h
  by_cases hij : i = j
  · rw [if_pos hij] at hd
    exact .inl ⟨hij.symm, c, hij ▸ hc, hd.symm⟩
  · rw [if_neg hij] at hd
    exact .inr ⟨Ne.symm hij, hd ▸ hc⟩

theorem mem_modify (h : d ∈ l.modify i f) : d ∈ l ∨ ∃ c, l[i]? = some c ∧ d = f c := by
  obtain ⟨j, hj⟩ := List.mem_iff_getElem?.mp h
  rcases modify_cases hj with ⟨-, h⟩ | ⟨-, h⟩
  · exact .inr h
  · exact .inl (List.mem_of_getElem? h)

theorem filterMap_modify_eq {β : Type*} (f : α → Option β) (g : α → α)
    (h : ∀ a, l[i]? = some a → f (g a) = f a) : (l.modify i g).filterMap f = l.filterMap f := by
  induction l generalizing i with
  | nil => simp
  | cons a l ih =>
    cases i with
    | zero => simp [List.filterMap_cons, h a rfl]
    | succ i => simp [List.filterMap_cons, ih (i := i) fun b hb => h b hb]

theorem filterMap_modify_of_nil {β : Type*} (f : α → Option β) (g : α → α) {a : α}
    (ha : l[i]? = some a) (h : l.filterMap f = []) : (l.modify i g).filterMap f = (f (g a)).toList := by
  induction l generalizing i with
  | nil => simp at ha
  | cons b l ih =>
    obtain ⟨hb, hl⟩ : f b = none ∧ l.filterMap f = [] := by
      simp only [List.filterMap_eq_nil_iff, List.mem_cons, forall_eq_or_imp] at h ⊢
      exact h
    cases i with
    | zero =>
      obtain rfl : b = a := by simpa using ha
      cases hg : f (g b) <;> simp [List.filterMap_cons, hg, hl]
    | succ i =>
      have := ih (i := i) (by simpa using ha) hl
      simp [List.filterMap_cons, hb, this]

end Parties
