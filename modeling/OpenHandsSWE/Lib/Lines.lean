import OpenHandsSWE.Lib.Text

/-! The lines of a text, with and without the letter that ends them. -/

namespace Text

variable {α : Type*} [DecidableEq α]

/-- The lines of a text, each with the letter `c` that ends it; the last one may lack it. -/
def keepLines (c : α) : List α → List (List α)
  | [] => []
  | d :: ds => if d = c then [d] :: keepLines c ds else consHead d (keepLines c ds)

/-- A line without its end. -/
def chop (c : α) (l : List α) : List α := if l.getLast? = some c then l.dropLast else l

def bareLines (c : α) (cs : List α) : List (List α) := (keepLines c cs).map (chop c)

/-- The text of some lines, each of them ended. -/
def ended (c : α) (ps : List (List α)) : List α := ps.flatMap (· ++ [c])

/-- What follows the last end is a line unless it is empty. -/
def lastLine (r : List α) : List (List α) := if r = [] then [] else [r]

variable {c : α} {ps : List (List α)} {r : List α}

omit [DecidableEq α] in
theorem ended_append (qs : List (List α)) : ended c (ps ++ qs) = ended c ps ++ ended c qs := List.flatMap_append

omit [DecidableEq α] in
theorem ended_cons (p : List α) : ended c (p :: ps) = p ++ c :: ended c ps := by
  rw [ended, List.flatMap_cons, List.append_assoc]
  rfl

/-- Every text is some ended lines and what follows them. -/
theorem exists_ended (c : α) (cs : List α) : ∃ ps r, (∀ p ∈ ps, c ∉ p) ∧ c ∉ r ∧ cs = ended c ps ++ r := by
  induction cs with
  | nil => exact ⟨[], [], List.forall_mem_nil _, List.not_mem_nil, rfl⟩
  | cons d cs ih =>
    obtain ⟨ps, r, hps, hr, rfl⟩ := ih
    by_cases hd : d = c
    · refine ⟨[] :: ps, r, List.forall_mem_cons.mpr ⟨List.not_mem_nil, hps⟩, hr, ?_⟩
      rw [hd, ended_cons]
      rfl
    · have hne : ∀ {l : List α}, c ∉ l → c ∉ d :: l := fun h hmem => (List.mem_cons.mp hmem).elim (fun h => hd h.symm) h
      cases ps with
      | nil => exact ⟨[], d :: r, List.forall_mem_nil _, hne hr, rfl⟩
      | cons p ps =>
        obtain ⟨hp, hps⟩ := List.forall_mem_cons.mp hps
        refine ⟨(d :: p) :: ps, r, List.forall_mem_cons.mpr ⟨hne hp, hps⟩, hr, ?_⟩
        rw [ended_cons, ended_cons]
        rfl

theorem keepLines_of_notMem (hr : c ∉ r) : keepLines c r = lastLine r := by
  induction r with
  | nil => rfl
  | cons d r ih =>
    obtain ⟨hd, hr⟩ := not_or.mp fun h => hr (List.mem_cons.mpr h)
    rw [keepLines, if_neg (Ne.symm hd), ih hr]
    cases r <;> rfl

theorem keepLines_append_letter {p : List α} (hp : c ∉ p) (cs : List α) :
    keepLines c (p ++ c :: cs) = (p ++ [c]) :: keepLines c cs := by
  induction p with
  | nil => exact if_pos rfl
  | cons d p ih =>
    obtain ⟨hd, hp⟩ := not_or.mp fun h => hp (List.mem_cons.mpr h)
    rw [List.cons_append, keepLines, if_neg (Ne.symm hd), ih hp]
    rfl

theorem keepLines_ended (hps : ∀ p ∈ ps, c ∉ p) (hr : c ∉ r) :
    keepLines c (ended c ps ++ r) = ps.map (· ++ [c]) ++ lastLine r := by
  induction ps with
  | nil => exact keepLines_of_notMem hr
  | cons p ps ih =>
    obtain ⟨hp, hps⟩ := List.forall_mem_cons.mp hps
    rw [ended_cons, List.append_assoc, List.cons_append, keepLines_append_letter hp, ih hps]
    rfl

theorem split_ended (hps : ∀ p ∈ ps, c ∉ p) (hr : c ∉ r) : split [c] (ended c ps ++ r) = ps ++ [r] := by
  induction ps with
  | nil => exact split_of_notMem hr
  | cons p ps ih =>
    obtain ⟨hp, hps⟩ := List.forall_mem_cons.mp hps
    rw [ended_cons, List.append_assoc, List.cons_append, split_append_letter hp, ih hps]
    rfl

theorem split_notMem (c : α) (cs : List α) : ∀ p ∈ split [c] cs, c ∉ p := by
  obtain ⟨ps, r, hps, hr, rfl⟩ := exists_ended c cs
  rw [split_ended hps hr]
  exact List.forall_mem_append.mpr ⟨hps, List.forall_mem_singleton.mpr hr⟩

theorem split_intercalate (hne : ps ≠ []) (hps : ∀ p ∈ ps, c ∉ p) : split [c] (List.intercalate [c] ps) = ps := by
  induction ps with
  | nil => exact absurd rfl hne
  | cons p ps ih =>
    obtain ⟨hp, hps⟩ := List.forall_mem_cons.mp hps
    by_cases hlast : ps = []
    · subst hlast
      have hjoin : List.intercalate [c] [p] = p := by simp [List.intercalate]
      rw [hjoin]
      exact split_of_notMem hp
    · rw [intercalate_cons [c] p hlast, List.append_assoc, List.singleton_append, split_append_letter hp, ih hlast hps]

theorem chop_end (p : List α) : chop c (p ++ [c]) = p := by
  rw [chop, if_pos List.getLast?_concat, List.dropLast_concat]

theorem chop_of_notMem (hr : c ∉ r) : chop c r = r := if_neg fun h => hr (List.mem_of_getLast? h)

theorem bareLines_ended (hps : ∀ p ∈ ps, c ∉ p) (hr : c ∉ r) : bareLines c (ended c ps ++ r) = ps ++ lastLine r := by
  have hended : (ps.map (· ++ [c])).map (chop c) = ps := by
    rw [List.map_map]
    exact (List.map_congr_left fun p _ => chop_end p).trans ps.map_id
  have hlast : (lastLine r).map (chop c) = lastLine r := by
    unfold lastLine
    split
    · rfl
    · rw [List.map_singleton, chop_of_notMem hr]
  rw [bareLines, keepLines_ended hps hr, List.map_append, hended, hlast]

/-- The lines make the text. -/
theorem flatten_keepLines (cs : List α) : (keepLines c cs).flatten = cs := by
  obtain ⟨ps, r, hps, hr, rfl⟩ := exists_ended c cs
  rw [keepLines_ended hps hr, List.flatten_append]
  congr 1
  unfold lastLine
  split
  next h => rw [h, List.flatten_nil]
  · exact List.flatten_singleton

theorem keepLines_ne_nil (cs : List α) : ∀ l ∈ keepLines c cs, l ≠ [] := by
  obtain ⟨ps, r, hps, hr, rfl⟩ := exists_ended c cs
  rw [keepLines_ended hps hr]
  intro l hl
  rcases List.mem_append.mp hl with hl | hl
  · obtain ⟨p, -, rfl⟩ := List.mem_map.mp hl
    exact List.concat_ne_nil _ _
  · unfold lastLine at hl
    split at hl
    · cases hl
    next hne => rwa [List.mem_singleton.mp hl]

/-- Something follows the last end. -/
def unended (c : α) (cs : List α) : Bool := cs.getLast?.any fun d => d != c

theorem unended_iff (hr : c ∉ r) : unended c (ended c ps ++ r) = true ↔ r ≠ [] := by
  rcases List.eq_nil_or_concat r with rfl | ⟨u, d, rfl⟩
  · rw [List.append_nil]
    rcases List.eq_nil_or_concat ps with rfl | ⟨qs, q, rfl⟩
    · simp [unended, ended]
    · rw [List.concat_eq_append, ended_append, ended_cons, unended]
      simp [ended]
  · have hd : d ≠ c := fun h => hr (by simp [h])
    simp [unended, hd]

omit [DecidableEq α] in
/-- A text of ended lines is cut behind a line, at its end, or inside a line, where it can be that only the end
of the line is missing. -/
theorem take_ended (c : α) (ps : List (List α)) (n : Nat) :
    (∃ k, (ended c ps).take n = ended c (ps.take k) ∧ ((ended c (ps.take k)).length = n ∨ (ended c ps).length ≤ n)) ∨
      ∃ before p after r, ps = before ++ p :: after ∧ r ≠ [] ∧ r <+: p ∧ (ended c ps).take n = ended c before ++ r ∧
        n = (ended c before).length + r.length := by
  induction ps generalizing n with
  | nil => exact Or.inl ⟨0, List.take_nil, Or.inr (Nat.zero_le n)⟩
  | cons p ps ih =>
    rcases Nat.lt_or_ge p.length n with hpast | hwithin
    · obtain ⟨m, rfl⟩ := Nat.exists_eq_add_of_lt hpast
      have htake : (ended c (p :: ps)).take (p.length + m + 1) = p ++ c :: (ended c ps).take m := by
        rw [ended_cons, Nat.add_assoc, List.take_length_add_append, List.take_succ_cons]
      rw [htake]
      rcases ih m with ⟨k, heq, hk⟩ | ⟨before, q, after, r, rfl, hr, hq, heq, hn⟩
      · refine Or.inl ⟨k + 1, ?_, ?_⟩
        · rw [heq, List.take_succ_cons, ended_cons]
        · rw [List.take_succ_cons, ended_cons, ended_cons, List.length_append, List.length_append, List.length_cons,
            List.length_cons]
          omega
      · refine Or.inr ⟨p :: before, q, after, r, rfl, hr, hq, ?_, ?_⟩
        · rw [heq, ended_cons, List.append_assoc, List.cons_append]
        · rw [ended_cons, List.length_append, List.length_cons]
          omega
    · rcases Nat.eq_zero_or_pos n with rfl | hpos
      · exact Or.inl ⟨0, rfl, Or.inl rfl⟩
      · refine Or.inr ⟨[], p, ps, p.take n, rfl, ?_, List.take_prefix n p, ?_, ?_⟩
        · intro hnil
          have hlength := congrArg List.length hnil
          rw [List.length_take, List.length_nil] at hlength
          omega
        · rw [ended_cons, List.take_append_of_le_length hwithin]
          rfl
        · rw [List.length_take, Nat.min_eq_left hwithin]
          exact (Nat.zero_add n).symm

/-! ## Joining joined pieces -/

omit [DecidableEq α] in
theorem intercalate_append (pat : List α) {qs : List (List α)} (hps : ps ≠ []) (hqs : qs ≠ []) :
    List.intercalate pat (ps ++ qs) = List.intercalate pat ps ++ pat ++ List.intercalate pat qs := by
  induction ps with
  | nil => exact absurd rfl hps
  | cons p ps ih =>
    rw [List.cons_append]
    by_cases hlast : ps = []
    · subst hlast
      rw [List.nil_append, intercalate_cons pat p hqs]
      simp [List.intercalate]
    · rw [intercalate_cons pat p (List.append_ne_nil_of_left_ne_nil hlast qs), intercalate_cons pat p hlast, ih hlast]
      simp only [List.append_assoc]

omit [DecidableEq α] in
/-- The blocks of some pieces, joined one by one and then with each other, are the pieces joined. -/
theorem intercalate_flatten (pat : List α) {blocks : List (List (List α))} (hblocks : ∀ block ∈ blocks, block ≠ []) :
    List.intercalate pat (blocks.map (List.intercalate pat)) = List.intercalate pat blocks.flatten := by
  induction blocks with
  | nil => rfl
  | cons block blocks ih =>
    obtain ⟨hblock, hblocks⟩ := List.forall_mem_cons.mp hblocks
    rw [List.map_cons, List.flatten_cons]
    by_cases hlast : blocks = []
    · subst hlast
      simp [List.intercalate]
    · have hrest : blocks.flatten ≠ [] := by
        obtain ⟨next, others, rfl⟩ := List.exists_cons_of_ne_nil hlast
        rw [List.flatten_cons]
        exact List.append_ne_nil_of_left_ne_nil (hblocks next List.mem_cons_self) _
      rw [intercalate_cons pat _ (mt List.map_eq_nil_iff.mp hlast), ih hblocks, intercalate_append pat hblock hrest]

/-! ## Line ends at the end -/

omit [DecidableEq α] in
theorem ended_append_line (ps : List (List α)) (p : List α) : ended c ps ++ p = List.intercalate [c] (ps ++ [p]) := by
  induction ps with
  | nil => simp [ended, List.intercalate]
  | cons q qs ih =>
    rw [ended_cons, List.cons_append, intercalate_cons [c] q (by simp), ← ih]
    simp only [List.append_assoc, List.cons_append, List.nil_append]

/-- Without the line ends at the end, a text of ended lines is that of the lines up to the last one that is not empty. -/
theorem rdropWhile_ended (hps : ∀ p ∈ ps, c ∉ p) :
    (ended c ps).rdropWhile (· = c) = List.intercalate [c] (ps.rdropWhile (· = [])) := by
  induction ps using List.reverseRecOn with
  | nil => rfl
  | append_singleton ps p ih =>
    obtain ⟨hps, hp⟩ := List.forall_mem_append.mp hps
    have hlast : ended c [p] = p ++ [c] := by simp [ended]
    rw [ended_append, hlast, ← List.append_assoc, List.rdropWhile_concat_pos _ _ _ (by simp)]
    by_cases hnil : p = []
    · rw [hnil, List.append_nil, List.rdropWhile_concat_pos _ _ _ (by simp), ih hps]
    · obtain ⟨init, d, rfl⟩ := List.eq_nil_or_concat' p |>.resolve_left hnil
      have hd : d ≠ c := by
        rintro rfl
        exact hp _ (List.mem_singleton_self _) (by simp)
      rw [← List.append_assoc, List.rdropWhile_concat_neg _ _ _ (by simpa using hd), List.append_assoc,
        List.rdropWhile_concat_neg _ _ _ (by simp), ended_append_line]

end Text
