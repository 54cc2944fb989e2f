import OpenHandsSWE.Lib.Text

/-! Scanning a text from the left with a matcher, as the functions of a regular expression do, and marks that
begin with a letter they have nowhere else. -/

namespace Text

variable {α β : Type*}

/-- The first match; a matcher looks at the head of the text. -/
def search (matchAt : List α → Option β) : List α → Option β
  | [] => none
  | c :: cs => (matchAt (c :: cs)).or (search matchAt cs)

/-- All matches from the left, with the number of letters of each after its first. -/
def findIter (matchAt : List α → Option (β × Nat)) : Nat → List α → List β
  | _, [] => []
  | skip + 1, _ :: cs => findIter matchAt skip cs
  | 0, c :: cs =>
    match matchAt (c :: cs) with
    | some (b, skip) => b :: findIter matchAt skip cs
    | none => findIter matchAt 0 cs

/-- Every match from the left becomes another text. -/
def sub (matchAt : List α → Option (List α × Nat)) : Nat → List α → List α
  | _, [] => []
  | skip + 1, _ :: cs => sub matchAt skip cs
  | 0, c :: cs =>
    match matchAt (c :: cs) with
    | some (new, skip) => new ++ sub matchAt skip cs
    | none => c :: sub matchAt 0 cs

theorem search_append {matchAt : List α → Option β} {lead : List α} (rest : List α)
    (h : ∀ u, u <:+ lead → u ≠ [] → matchAt (u ++ rest) = none) : search matchAt (lead ++ rest) = search matchAt rest := by
  induction lead with
  | nil => rfl
  | cons c lead ih =>
    have hhead := h (c :: lead) List.suffix_rfl (List.cons_ne_nil c lead)
    rw [List.cons_append, search, ← List.cons_append, hhead, Option.none_or]
    exact ih fun u hu => h u (hu.trans (List.suffix_cons c lead))

theorem search_of_match {matchAt : List α → Option β} {b : β} {c : α} {cs : List α} (h : matchAt (c :: cs) = some b) :
    search matchAt (c :: cs) = some b := by
  rw [search, h, Option.some_or]

theorem findIter_skip (matchAt : List α → Option (β × Nat)) (us cs : List α) :
    findIter matchAt us.length (us ++ cs) = findIter matchAt 0 cs := by
  induction us with
  | nil => rfl
  | cons u us ih => exact ih

theorem findIter_of_match {matchAt : List α → Option (β × Nat)} {b : β} {c : α} {us cs : List α}
    (h : matchAt (c :: (us ++ cs)) = some (b, us.length)) :
    findIter matchAt 0 (c :: (us ++ cs)) = b :: findIter matchAt 0 cs := by
  rw [findIter, h]
  exact congrArg (b :: ·) (findIter_skip matchAt us cs)

theorem findIter_of_none {matchAt : List α → Option (β × Nat)} {c : α} {cs : List α} (h : matchAt (c :: cs) = none) :
    findIter matchAt 0 (c :: cs) = findIter matchAt 0 cs := by
  rw [findIter, h]

/-- A block that is one match. -/
theorem findIter_block {matchAt : List α → Option (β × Nat)} {b : β} {block cs : List α} (hblock : block ≠ [])
    (h : matchAt (block ++ cs) = some (b, block.length - 1)) : findIter matchAt 0 (block ++ cs) = b :: findIter matchAt 0 cs := by
  obtain ⟨c, us, rfl⟩ := List.exists_cons_of_ne_nil hblock
  exact findIter_of_match h

theorem findIter_lead {matchAt : List α → Option (β × Nat)} {lead : List α} (rest : List α)
    (h : ∀ u, u <:+ lead → u ≠ [] → matchAt (u ++ rest) = none) : findIter matchAt 0 (lead ++ rest) = findIter matchAt 0 rest := by
  induction lead with
  | nil => rfl
  | cons c lead ih =>
    have hhead := h (c :: lead) List.suffix_rfl (List.cons_ne_nil c lead)
    rw [List.cons_append] at hhead ⊢
    rw [findIter_of_none hhead]
    exact ih fun u hu => h u (hu.trans (List.suffix_cons c lead))

/-- A text without a match stays. -/
theorem sub_of_none {matchAt : List α → Option (List α × Nat)} {cs : List α}
    (h : ∀ u, u <:+ cs → u ≠ [] → matchAt u = none) : sub matchAt 0 cs = cs := by
  induction cs with
  | nil => rfl
  | cons c cs ih =>
    rw [sub, h (c :: cs) List.suffix_rfl (List.cons_ne_nil c cs)]
    exact congrArg (c :: ·) (ih fun u hu => h u (hu.trans (List.suffix_cons c cs)))

/-- A text is scanned up to a letter that no match has as if it ended there. -/
theorem sub_append {matchAt : List α → Option (List α × Nat)} {e : α}
    (happend : ∀ c u v, matchAt (c :: (u ++ e :: v)) = matchAt (c :: u)) (hstop : ∀ v, matchAt (e :: v) = none)
    (hlength : ∀ c u new skip, matchAt (c :: u) = some (new, skip) → skip ≤ u.length) {skip : Nat} {u : List α}
    (hskip : skip ≤ u.length) (v : List α) : sub matchAt skip (u ++ e :: v) = sub matchAt skip u ++ e :: sub matchAt 0 v := by
  induction u generalizing skip with
  | nil =>
    have hhead : sub matchAt 0 (e :: v) = e :: sub matchAt 0 v := by rw [sub, hstop]
    rw [Nat.le_zero.mp hskip]
    exact hhead
  | cons c u ih =>
    cases skip with
    | succ skip => exact ih (Nat.le_of_succ_le_succ hskip)
    | zero =>
      rw [List.cons_append, sub, sub, happend]
      cases hmatch : matchAt (c :: u) with
      | none => exact congrArg (c :: ·) (ih (Nat.zero_le _))
      | some m =>
        have hrest := ih (hlength c u m.1 m.2 hmatch)
        dsimp only
        rw [hrest, List.append_assoc]

/-! ## A tail that no match reaches -/

/-- The matcher sees no difference when the tail, or an end of it, stands behind a text. -/
def Ignores (matchAt : List α → Option β) (tail : List α) : Prop := ∀ u t, t <:+ tail → matchAt (u ++ t) = matchAt u

/-- Without a match at any place there is none. -/
theorem search_of_none {matchAt : List α → Option β} {cs : List α} (h : ∀ u, u <:+ cs → u ≠ [] → matchAt u = none) :
    search matchAt cs = none := by
  induction cs with
  | nil => rfl
  | cons c cs ih =>
    rw [search, h (c :: cs) List.suffix_rfl (List.cons_ne_nil c cs), Option.none_or]
    exact ih fun u hu => h u (hu.trans (List.suffix_cons c cs))

section Tail

variable {tail : List α}

theorem Ignores.suffix {matchAt : List α → Option β} (h : Ignores matchAt tail) {t : List α} (ht : t <:+ tail) :
    Ignores matchAt t := fun u t' ht' => h u t' (ht'.trans ht)

theorem Ignores.none {matchAt : List α → Option β} (h : Ignores matchAt tail) (hnil : matchAt [] = none) {t : List α}
    (ht : t <:+ tail) : matchAt t = .none := (h [] t ht).trans hnil

theorem findIter_ignored {matchAt : List α → Option (β × Nat)} (h : Ignores matchAt tail) (hnil : matchAt [] = none)
    (skip : Nat) : findIter matchAt skip tail = [] := by
  induction tail generalizing skip with
  | nil => cases skip <;> rfl
  | cons c tail ih =>
    have hrest := ih (h.suffix (List.suffix_cons c tail))
    cases skip with
    | succ skip => exact hrest skip
    | zero => rw [findIter_of_none (h.none hnil List.suffix_rfl), hrest]

/-- The matches are those of the text before the tail. -/
theorem findIter_append {matchAt : List α → Option (β × Nat)} (h : Ignores matchAt tail) (hnil : matchAt [] = none)
    (skip : Nat) (u : List α) : findIter matchAt skip (u ++ tail) = findIter matchAt skip u := by
  induction u generalizing skip with
  | nil => cases skip <;> exact findIter_ignored h hnil _
  | cons c u ih =>
    cases skip with
    | succ skip => exact ih skip
    | zero =>
      have hhead : matchAt (c :: (u ++ tail)) = matchAt (c :: u) := h (c :: u) tail List.suffix_rfl
      rw [List.cons_append, findIter, findIter, hhead]
      cases matchAt (c :: u) with
      | none => exact ih 0
      | some m => exact congrArg (m.1 :: ·) (ih m.2)

theorem sub_ignored {matchAt : List α → Option (List α × Nat)} (h : Ignores matchAt tail) (hnil : matchAt [] = none)
    (skip : Nat) : sub matchAt skip tail = tail.drop skip := by
  induction tail generalizing skip with
  | nil => cases skip <;> rfl
  | cons c tail ih =>
    have hrest := ih (h.suffix (List.suffix_cons c tail))
    cases skip with
    | succ skip => exact hrest skip
    | zero =>
      rw [sub, h.none hnil List.suffix_rfl]
      exact congrArg (c :: ·) (hrest 0)

/-- What is replaced is in the text before the tail, of which an end stays. -/
theorem sub_append_tail {matchAt : List α → Option (List α × Nat)} (h : Ignores matchAt tail) (hnil : matchAt [] = none)
    (skip : Nat) (u : List α) : ∃ t, t <:+ tail ∧ sub matchAt skip (u ++ tail) = sub matchAt skip u ++ t := by
  induction u generalizing skip with
  | nil =>
    refine ⟨tail.drop skip, List.drop_suffix skip tail, ?_⟩
    rw [List.nil_append, sub_ignored h hnil]
    cases skip <;> rfl
  | cons c u ih =>
    cases skip with
    | succ skip => exact ih skip
    | zero =>
      have hhead : matchAt (c :: (u ++ tail)) = matchAt (c :: u) := h (c :: u) tail List.suffix_rfl
      rw [List.cons_append, sub, sub, hhead]
      cases matchAt (c :: u) with
      | none =>
        obtain ⟨t, ht, hrest⟩ := ih 0
        exact ⟨t, ht, congrArg (c :: ·) hrest⟩
      | some m =>
        obtain ⟨t, ht, hrest⟩ := ih m.2
        refine ⟨t, ht, ?_⟩
        dsimp only
        rw [hrest, List.append_assoc]

end Tail

/-! ## Marks -/

/-- A mark that begins in a text ends in it, before the first letter of another mark. -/
theorem begins_before_first {c : α} {m u v : List α} (hc : c ∉ m) (hu : u ≠ []) (h : c :: m <+: u ++ c :: v) :
    c :: m <+: u := by
  obtain ⟨d, u, rfl⟩ := List.exists_cons_of_ne_nil hu
  obtain ⟨rfl, hm⟩ := List.cons_prefix_cons.mp h
  exact (List.prefix_cons_inj c).mpr (begins_before_letter hc hm)

variable [DecidableEq α]

theorem upTo_first {c : α} {m b : List α} (r : List α) (hc : c ∉ m) (hb : ¬ c :: m <:+: b) :
    upTo (c :: m) (b ++ (c :: m ++ r)) = some b := by
  induction b with
  | nil =>
    rw [List.nil_append, List.cons_append, upTo]
    exact if_pos ((List.prefix_cons_inj c).mpr (List.prefix_append m r))
  | cons d b ih =>
    have hnot : ¬ c :: m <+: d :: (b ++ (c :: m ++ r)) := fun h =>
      hb (begins_before_first (u := d :: b) hc (List.cons_ne_nil d b) h).isInfix
    rw [List.cons_append, upTo, if_neg hnot, ih fun h => hb (h.trans (List.suffix_cons d b).isInfix)]
    rfl

omit [DecidableEq α] in
/-- A mark within a text that goes on with another mark's first letter is in one of the parts. -/
theorem infix_at_first {c : α} {m u v : List α} (hc : c ∉ m) (h : c :: m <:+: u ++ c :: v) :
    c :: m <:+: u ∨ c :: m <:+: c :: v := by
  induction u with
  | nil => exact .inr h
  | cons d u ih =>
    rw [List.cons_append, List.infix_cons_iff] at h
    rcases h with h | h
    · exact .inl (begins_before_first (u := d :: u) hc (List.cons_ne_nil d u) h).isInfix
    · exact (ih h).imp_left fun h => h.trans (List.suffix_cons d u).isInfix

omit [DecidableEq α] in
/-- A word that has not the letter after a text is in one of the parts. -/
theorem infix_at_letter {c : α} {w u v : List α} (hne : w ≠ []) (hc : c ∉ w) (h : w <:+: u ++ c :: v) :
    w <:+: u ∨ w <:+: v := by
  induction u with
  | nil =>
    rcases List.infix_cons_iff.mp h with h | h
    · exact absurd (List.prefix_nil.mp (begins_before_letter (u := []) hc h)) hne
    · exact .inr h
  | cons d u ih =>
    rw [List.cons_append, List.infix_cons_iff] at h
    rcases h with h | h
    · exact .inl (begins_before_letter (u := d :: u) hc h).isInfix
    · exact (ih h).imp_left fun h => h.trans (List.suffix_cons d u).isInfix

omit [DecidableEq α] in
/-- The first stop of a text is where it is. -/
theorem append_stop_inj {e : α} {u u' v v' : List α} (hu : e ∉ u) (hu' : e ∉ u') (h : u ++ e :: v = u' ++ e :: v') :
    u = u' ∧ v = v' := by
  induction u generalizing u' with
  | nil =>
    cases u' with
    | nil => exact ⟨rfl, (List.cons.inj h).2⟩
    | cons d u' => exact absurd (by rw [← (List.cons.inj h).1]; exact List.mem_cons_self) hu'
  | cons c u ih =>
    cases u' with
    | nil => exact absurd (by rw [(List.cons.inj h).1]; exact List.mem_cons_self) hu
    | cons d u' =>
      obtain ⟨rfl, hrest⟩ := List.cons.inj h
      obtain ⟨rfl, rfl⟩ := ih (fun h => hu (List.mem_cons_of_mem c h)) (fun h => hu' (List.mem_cons_of_mem c h)) hrest
      exact ⟨rfl, rfl⟩

omit [DecidableEq α] in
/-- A word whose only stop is at its end, within a text with a stop of its own. -/
theorem infix_at_stop {e : α} {w u v : List α} (hw : e ∉ w) (hu : e ∉ u) (h : w ++ [e] <:+: u ++ e :: v) :
    w <:+ u ∨ w ++ [e] <:+: v := by
  obtain ⟨a, b, hab⟩ := h
  have hsplit : a ++ (w ++ e :: b) = u ++ e :: v := by simpa using hab
  by_cases ha : e ∈ a
  · -- the first stop is before the word
    obtain ⟨a₁, a₂, rfl, ha₁⟩ := List.eq_append_cons_of_mem ha
    rw [List.append_assoc, List.cons_append] at hsplit
    obtain ⟨-, rfl⟩ := append_stop_inj ha₁ hu hsplit
    exact .inr ⟨a₂, b, by simp⟩
  · rw [← List.append_assoc] at hsplit
    have hstop : e ∉ a ++ w := by simp [ha, hw]
    obtain ⟨rfl, -⟩ := append_stop_inj hstop hu hsplit
    exact .inl (List.suffix_append a w)

omit [DecidableEq α] in
/-- A mark is behind all that has not its first letter. -/
theorem infix_past {c : α} {m u v : List α} (hu : c ∉ u) (h : c :: m <:+: u ++ v) : c :: m <:+: v := by
  induction u with
  | nil => exact h
  | cons d u ih =>
    obtain ⟨hd, hrest⟩ := not_or.mp (fun h => hu (List.mem_cons.mpr h))
    rcases List.infix_cons_iff.mp h with h | h
    · exact absurd (List.cons_prefix_cons.mp h).1 hd
    · exact ih hrest h

omit [DecidableEq α] in
/-- What ends in a letter that the rest has not ends before the rest. -/
theorem begins_before_rest {e : α} {w u v : List α} (he : e ∉ v) (h : w ++ [e] <+: u ++ v) : w ++ [e] <+: u := by
  obtain ⟨r, hr⟩ := h
  rcases List.append_eq_append_iff.mp hr with ⟨u', rfl, -⟩ | ⟨v', hv', rfl⟩
  · exact List.prefix_append _ _
  · rcases List.eq_nil_or_concat v' with rfl | ⟨v'', d, rfl⟩
    · rw [List.append_nil] at hv'
      rw [hv']
    · rw [List.concat_eq_append, ← List.append_assoc] at hv'
      obtain ⟨-, hd⟩ := List.append_inj' hv' rfl
      obtain rfl := List.singleton_inj.mp hd
      exact absurd (by simp) he

/-- A mark that stands once cuts the text in two. -/
theorem split_once {c : α} {m u v : List α} (hc : c ∉ m) (hu : ¬ c :: m <:+: u) (hv : ¬ c :: m <:+: v) :
    split (c :: m) (u ++ (c :: m ++ v)) = [u, v] := by
  induction u with
  | nil => rw [List.nil_append, split_append _ (List.cons_ne_nil c m), split_of_clean _ hv]
  | cons d u ih =>
    have hnot : ¬ c :: m <+: d :: (u ++ (c :: m ++ v)) := fun h =>
      hu (begins_before_first (u := d :: u) hc (List.cons_ne_nil d u) h).isInfix
    rw [List.cons_append, split_cons _ hnot, ih fun h => hu (h.trans (List.suffix_cons d u).isInfix)]
    rfl

end Text
