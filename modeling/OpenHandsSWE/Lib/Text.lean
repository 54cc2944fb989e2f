import Mathlib

/-! Texts as lists of characters: splitting at a pattern, replacing one, stripping white space. -/

namespace Text

/-! ## Splitting and replacing -/

section Splitting

variable {α : Type*}

def consHead (c : α) : List (List α) → List (List α)
  | [] => [[c]]
  | p :: ps => (c :: p) :: ps

theorem consHead_eq (c : α) {ps : List (List α)} (h : ps ≠ []) :
    ∃ p qs, ps = p :: qs ∧ consHead c ps = (c :: p) :: qs := by
  cases ps with
  | nil => exact absurd rfl h
  | cons p qs => exact ⟨p, qs, rfl, rfl⟩

theorem intercalate_consHead (pat : List α) (c : α) {ps : List (List α)} (h : ps ≠ []) :
    List.intercalate pat (consHead c ps) = c :: List.intercalate pat ps := by
  obtain ⟨p, qs, rfl, h⟩ := consHead_eq c h
  rw [h]
  cases qs <;> simp [List.intercalate]

theorem intercalate_cons (pat p : List α) {ps : List (List α)} (h : ps ≠ []) :
    List.intercalate pat (p :: ps) = p ++ pat ++ List.intercalate pat ps := by
  cases ps with
  | nil => exact absurd rfl h
  | cons q qs => simp [List.intercalate]

variable [DecidableEq α]

/-- The pieces between the occurrences of `pat`, found from the left; the first `skip` letters
are still part of an occurrence. -/
def splitFrom (pat : List α) : Nat → List α → List (List α)
  | _, [] => [[]]
  | skip + 1, _ :: cs => splitFrom pat skip cs
  | 0, c :: cs =>
    if pat <+: c :: cs then [] :: splitFrom pat (pat.length - 1) cs
    else consHead c (splitFrom pat 0 cs)

def split (pat cs : List α) : List (List α) := splitFrom pat 0 cs

/-- Every occurrence of the (not empty) `pat`, from the left, becomes `new`. -/
def replace (pat new cs : List α) : List α := List.intercalate new (split pat cs)

theorem splitFrom_ne_nil (pat : List α) (skip : Nat) (cs : List α) : splitFrom pat skip cs ≠ [] := by
  induction cs generalizing skip with
  | nil => cases skip <;> simp [splitFrom]
  | cons c cs ih =>
    cases skip with
    | succ skip => exact ih skip
    | zero =>
      rw [splitFrom]
      split_ifs
      · simp
      · obtain ⟨p, qs, _, h⟩ := consHead_eq c (ih 0)
        rw [h]
        simp

theorem splitFrom_skip (pat : List α) (skip : Nat) (cs : List α) :
    splitFrom pat skip cs = split pat (cs.drop skip) := by
  induction cs generalizing skip with
  | nil => cases skip <;> simp [splitFrom, split]
  | cons c cs ih =>
    cases skip with
    | zero => rfl
    | succ skip => simpa only [splitFrom, List.drop_succ_cons] using ih skip

/-- One occurrence at the head is taken off. -/
theorem split_append (pat : List α) (hpat : pat ≠ []) (cs : List α) :
    split pat (pat ++ cs) = [] :: split pat cs := by
  cases pat with
  | nil => exact absurd rfl hpat
  | cons a pat =>
    have hpre : a :: pat <+: a :: (pat ++ cs) := List.prefix_append (a :: pat) cs
    rw [List.cons_append, split, splitFrom, if_pos hpre, List.length_cons, Nat.add_sub_cancel,
      splitFrom_skip, List.drop_left]

theorem split_cons (pat : List α) {c : α} {cs : List α} (h : ¬ pat <+: c :: cs) :
    split pat (c :: cs) = consHead c (split pat cs) := by
  rw [split, splitFrom, if_neg h, split]

theorem split_nil (pat : List α) : split pat ([] : List α) = [[]] := rfl

/-- Recursion along a split: an occurrence at the head, or one more letter before the next. -/
theorem split_induction (pat : List α) (hpat : pat ≠ []) {P : List α → Prop} (nil : P [])
    (occurrence : ∀ cs, P cs → P (pat ++ cs))
    (letter : ∀ c cs, ¬ pat <+: c :: cs → P cs → P (c :: cs)) (cs : List α) : P cs := by
  induction h : cs.length using Nat.strong_induction_on generalizing cs with
  | _ n ih =>
    cases cs with
    | nil => exact nil
    | cons c cs =>
      by_cases hpre : pat <+: c :: cs
      · obtain ⟨rest, hrest⟩ := hpre
        have hlen := congrArg List.length hrest
        have hpos : 0 < pat.length := List.length_pos_of_ne_nil hpat
        rw [List.length_append] at hlen
        rw [← hrest]
        exact occurrence rest (ih rest.length (by omega) rest rfl)
      · exact letter c cs hpre (ih cs.length (by simp [← h]) cs rfl)

theorem split_ne_nil (pat cs : List α) : split pat cs ≠ [] := splitFrom_ne_nil pat 0 cs

/-- Joining the pieces with the pattern gives the text back. -/
theorem intercalate_split (pat : List α) (hpat : pat ≠ []) (cs : List α) :
    List.intercalate pat (split pat cs) = cs := by
  induction cs using split_induction pat hpat with
  | nil => simp [split_nil, List.intercalate]
  | occurrence cs ih =>
    rw [split_append pat hpat, intercalate_cons pat [] (split_ne_nil pat cs), ih, List.nil_append]
  | letter c cs hpre ih =>
    rw [split_cons pat hpre, intercalate_consHead pat c (split_ne_nil pat cs), ih]

/-- The first piece begins the text. -/
theorem split_head_begins (pat : List α) (hpat : pat ≠ []) (cs : List α) {p : List α}
    {ps : List (List α)} (h : split pat cs = p :: ps) : p <+: cs := by
  have hjoin := intercalate_split pat hpat cs
  rw [h] at hjoin
  cases ps with
  | nil => simp [List.intercalate] at hjoin; simp [hjoin]
  | cons q qs =>
    rw [intercalate_cons pat p (by simp), List.append_assoc] at hjoin
    exact ⟨_, hjoin⟩

/-- No piece contains the pattern. -/
theorem split_piece_clean (pat : List α) (hpat : pat ≠ []) (cs : List α) :
    ∀ p ∈ split pat cs, ¬ pat <:+: p := by
  have hnil : ¬ pat <:+: [] := fun h => hpat (List.eq_nil_of_infix_nil h)
  induction cs using split_induction pat hpat with
  | nil => simpa [split_nil] using hnil
  | occurrence cs ih =>
    rw [split_append pat hpat, List.forall_mem_cons]
    exact ⟨hnil, ih⟩
  | letter c cs hpre ih =>
    obtain ⟨p, ps, hps, hcons⟩ := consHead_eq c (split_ne_nil pat cs)
    rw [split_cons pat hpre, hcons]
    rw [hps, List.forall_mem_cons] at ih
    refine List.forall_mem_cons.mpr ⟨fun h => ?_, ih.2⟩
    rcases List.infix_cons_iff.mp h with h | h
    · -- an occurrence at the new letter would have been taken
      have hp : c :: p <+: c :: cs := List.prefix_cons_inj c |>.mpr (split_head_begins pat hpat cs hps)
      exact hpre (h.trans hp)
    · exact ih.1 h

theorem split_piece_within (pat : List α) (hpat : pat ≠ []) (cs : List α) :
    ∀ p ∈ split pat cs, p <:+: cs := by
  induction cs using split_induction pat hpat with
  | nil => simp [split_nil]
  | occurrence cs ih =>
    rw [split_append pat hpat, List.forall_mem_cons]
    exact ⟨List.nil_infix, fun p hp => (ih p hp).trans (List.suffix_append pat cs).isInfix⟩
  | letter c cs hpre ih =>
    obtain ⟨p, ps, hps, hcons⟩ := consHead_eq c (split_ne_nil pat cs)
    have hp : c :: p <+: c :: cs :=
      List.prefix_cons_inj c |>.mpr (split_head_begins pat hpat cs hps)
    rw [split_cons pat hpre, hcons]
    rw [hps, List.forall_mem_cons] at ih
    exact List.forall_mem_cons.mpr
      ⟨hp.isInfix, fun q hq => (ih.2 q hq).trans (List.suffix_cons c cs).isInfix⟩

/-- Nothing is replaced where the pattern does not occur. -/
theorem split_of_clean (pat : List α) {cs : List α} (h : ¬ pat <:+: cs) : split pat cs = [cs] := by
  induction cs with
  | nil => rfl
  | cons c cs ih =>
    have hpre : ¬ pat <+: c :: cs := fun hp => h hp.isInfix
    rw [split_cons pat hpre, ih fun hi => h (hi.trans (List.suffix_cons c cs).isInfix), consHead]

theorem replace_of_clean (pat new : List α) {cs : List α} (h : ¬ pat <:+: cs) :
    replace pat new cs = cs := by
  rw [replace, split_of_clean pat h]
  simp [List.intercalate]

theorem split_letter (c : α) (cs : List α) : split [c] (c :: cs) = [] :: split [c] cs :=
  split_append [c] (List.cons_ne_nil _ _) cs

theorem split_other {c d : α} (h : d ≠ c) (cs : List α) : split [c] (d :: cs) = consHead d (split [c] cs) :=
  split_cons [c] fun hbegins => h (List.cons_prefix_cons.mp hbegins).1.symm

/-- The piece before the first occurrence of a letter. -/
theorem split_append_letter {c : α} {u : List α} (hu : c ∉ u) (v : List α) :
    split [c] (u ++ c :: v) = u :: split [c] v := by
  induction u with
  | nil => exact split_letter c v
  | cons d u ih =>
    obtain ⟨hne, hu⟩ := not_or.mp fun h => hu (List.mem_cons.mpr h)
    rw [List.cons_append, split_other (Ne.symm hne), ih hu]
    rfl

theorem consHead_append (c : α) {ps : List (List α)} (h : ps ≠ []) (qs : List (List α)) :
    consHead c (ps ++ qs) = consHead c ps ++ qs := by
  obtain ⟨p, ps, rfl⟩ := List.exists_cons_of_ne_nil h
  rfl

/-- At an occurrence of the letter the text is split into the pieces of both sides. -/
theorem split_append_append (c : α) (u v : List α) : split [c] (u ++ c :: v) = split [c] u ++ split [c] v := by
  induction u with
  | nil => exact split_letter c v
  | cons d u ih =>
    by_cases hd : d = c
    · rw [hd, List.cons_append, split_letter, ih, split_letter, List.cons_append]
    · rw [List.cons_append, split_other hd, ih, split_other hd, consHead_append d (split_ne_nil [c] u)]

theorem split_of_notMem {c : α} {v : List α} (hv : c ∉ v) : split [c] v = [v] :=
  split_of_clean [c] fun h => hv (h.subset (List.mem_singleton.mpr rfl))

/-- The piece after the last occurrence of a letter. -/
theorem getLast?_split {c : α} {v : List α} (hv : c ∉ v) (u : List α) : (split [c] (u ++ c :: v)).getLast? = some v := by
  rw [split_append_append, split_of_notMem hv, List.getLast?_append]
  rfl

/-- The text before the first occurrence of `pat`. -/
def upTo (pat : List α) : List α → Option (List α)
  | [] => if pat = [] then some [] else none
  | c :: cs => if pat <+: c :: cs then some [] else (upTo pat cs).map (c :: ·)

theorem upTo_begins {pat cs b : List α} (h : upTo pat cs = some b) : b <+: cs := by
  induction cs generalizing b with
  | nil =>
    rw [upTo] at h
    split_ifs at h
    obtain rfl := Option.some.inj h
    exact List.nil_prefix
  | cons c cs ih =>
    rw [upTo] at h
    split_ifs at h with hp
    · obtain rfl := Option.some.inj h
      exact List.nil_prefix
    · obtain ⟨b', hb', rfl⟩ := Option.map_eq_some_iff.mp h
      exact (List.prefix_cons_inj c).mpr (ih hb')

/-- What stands before the first occurrence has none. -/
theorem upTo_clean {pat cs b : List α} (hpat : pat ≠ []) (h : upTo pat cs = some b) : ¬ pat <:+: b := by
  have hnil : ¬ pat <:+: [] := fun h => hpat (List.eq_nil_of_infix_nil h)
  induction cs generalizing b with
  | nil =>
    rw [upTo, if_neg hpat] at h
    cases h
  | cons c cs ih =>
    rw [upTo] at h
    split_ifs at h with hp
    · obtain rfl := Option.some.inj h
      exact hnil
    · obtain ⟨b', hb', rfl⟩ := Option.map_eq_some_iff.mp h
      intro hwithin
      rcases List.infix_cons_iff.mp hwithin with hwithin | hwithin
      · exact hp (hwithin.trans ((List.prefix_cons_inj c).mpr (upTo_begins hb')))
      · exact ih hb' hwithin

omit [DecidableEq α] in
/-- A word at the head of a text ends before a letter it has not. -/
theorem begins_before_letter {pat u v : List α} {c : α} (hc : c ∉ pat) (h : pat <+: u ++ c :: v) : pat <+: u := by
  obtain ⟨w, hw⟩ := h
  rcases List.append_eq_append_iff.mp hw with ⟨x, rfl, -⟩ | ⟨x, rfl, hx⟩
  · exact List.prefix_append pat x
  · cases x with
    | nil => rw [List.append_nil]
    | cons y x =>
      obtain ⟨rfl, -⟩ := List.cons.inj hx
      simp at hc

theorem upTo_append_self {pat : List α} (hpat : pat ≠ []) (r : List α) : upTo pat (pat ++ r) = some [] := by
  obtain ⟨d, pat, rfl⟩ := List.exists_cons_of_ne_nil hpat
  rw [List.cons_append, upTo]
  exact if_pos (List.prefix_append (d :: pat) r)

/-- A line without an occurrence is passed over. -/
theorem upTo_past_line {pat b : List α} {c : α} (r : List α) (hpat : pat ≠ []) (hc : c ∉ pat) (hb : ¬ pat <:+: b) :
    upTo pat (b ++ c :: r) = (upTo pat r).map (b ++ c :: ·) := by
  induction b with
  | nil =>
    have hnot : ¬ pat <+: c :: r := fun h => hpat (List.prefix_nil.mp (begins_before_letter (u := []) hc h))
    rw [List.nil_append, upTo, if_neg hnot]
    rfl
  | cons d b ih =>
    have hnot : ¬ pat <+: d :: (b ++ c :: r) := fun h => hb (begins_before_letter (u := d :: b) hc h).isInfix
    rw [List.cons_append, upTo, if_neg hnot, ih fun h => hb (h.trans (List.suffix_cons d b).isInfix), Option.map_map]
    rfl

/-- The first occurrence may stand at the head of a line. -/
theorem upTo_line {pat b : List α} {c : α} (r : List α) (hpat : pat ≠ []) (hc : c ∉ pat) (hb : ¬ pat <:+: b) :
    upTo pat (b ++ c :: (pat ++ r)) = some (b ++ [c]) := by
  rw [upTo_past_line (pat ++ r) hpat hc hb, upTo_append_self hpat r]
  rfl

/-- The first occurrence stands behind what was read. -/
theorem upTo_occurs {pat cs b : List α} (h : upTo pat cs = some b) : b ++ pat <+: cs := by
  induction cs generalizing b with
  | nil =>
    rw [upTo] at h
    split_ifs at h with hp
    obtain rfl := Option.some.inj h
    rw [hp]
    exact List.nil_prefix
  | cons c cs ih =>
    rw [upTo] at h
    split_ifs at h with hp
    · obtain rfl := Option.some.inj h
      exact hp
    · obtain ⟨b', hb', rfl⟩ := Option.map_eq_some_iff.mp h
      exact (List.prefix_cons_inj c).mpr (ih hb')

theorem exists_upTo {pat cs : List α} (h : pat <:+: cs) : ∃ b, upTo pat cs = some b := by
  induction cs with
  | nil => exact ⟨[], if_pos (List.eq_nil_of_infix_nil h)⟩
  | cons c cs ih =>
    rw [upTo]
    by_cases hp : pat <+: c :: cs
    · exact ⟨[], if_pos hp⟩
    · obtain ⟨b, hb⟩ := ih ((List.infix_cons_iff.mp h).resolve_left hp)
      exact ⟨c :: b, by rw [if_neg hp, hb]; rfl⟩

/-- What comes after the first occurrence does not matter. -/
theorem upTo_append {pat cs b : List α} (h : upTo pat cs = some b) (r : List α) : upTo pat (cs ++ r) = some b := by
  induction cs generalizing b with
  | nil =>
    rw [upTo] at h
    split_ifs at h with hp
    obtain rfl := Option.some.inj h
    rw [hp]
    cases r with
    | nil => rfl
    | cons d r => exact if_pos List.nil_prefix
  | cons c cs ih =>
    rw [upTo] at h
    rw [List.cons_append, upTo]
    split_ifs at h with hp
    · have hstill : pat <+: c :: (cs ++ r) := hp.trans (List.prefix_append (c :: cs) r)
      rw [if_pos hstill]
      exact h
    · obtain ⟨b', hb', rfl⟩ := Option.map_eq_some_iff.mp h
      have hnot : ¬ pat <+: c :: (cs ++ r) := fun hp' => by
        have hroom := (upTo_occurs hb').length_le
        rw [List.length_append] at hroom
        refine hp (List.prefix_of_prefix_length_le hp' (List.prefix_append (c :: cs) r) ?_)
        rw [List.length_cons]
        omega
      rw [if_neg hnot, ih hb']
      rfl

/-- Each word of a table, wherever it stands, becomes its value; the first `skip` letters are still
part of a word. -/
def substitute (table : List (List α × List α)) : Nat → List α → List α
  | _, [] => []
  | skip + 1, _ :: cs => substitute table skip cs
  | 0, c :: cs =>
    match table.find? fun entry => entry.1.isPrefixOf (c :: cs) with
    | some entry => entry.2 ++ substitute table (entry.1.length - 1) cs
    | none => c :: substitute table 0 cs

/-- A text without the pattern, up to a letter that the pattern does not have, begins the first piece. -/
theorem split_before_letter {pat u v : List α} {c : α} (hpat : pat ≠ []) (hc : c ∉ pat) (hu : ¬ pat <:+: u) {p : List α}
    {ps : List (List α)} (hv : split pat v = p :: ps) : split pat (u ++ c :: v) = (u ++ c :: p) :: ps := by
  induction u with
  | nil =>
    have hnot : ¬ pat <+: c :: v := fun h => hpat (List.prefix_nil.mp (begins_before_letter (u := []) hc h))
    rw [List.nil_append, split_cons pat hnot, hv]
    rfl
  | cons d u ih =>
    have hnot : ¬ pat <+: d :: (u ++ c :: v) := fun h => hu (begins_before_letter (u := d :: u) hc h).isInfix
    rw [List.cons_append, split_cons pat hnot, ih fun h => hu (h.trans (List.suffix_cons d u).isInfix)]
    rfl

end Splitting

/-! ## A marker that overlaps nothing -/

section Marker

variable {α : Type*}

/-- The word and the marker have no non-empty overlap: neither contains the other, and no border
of one is a border of the other. -/
structure NoOverlap (word marker : List α) : Prop where
  not_within : ¬ word <:+: marker
  not_contains : ¬ marker <:+: word
  suffix_begins : ∀ b, b ≠ [] → b <:+ word → ¬ b <+: marker
  begins_suffix : ∀ b, b ≠ [] → b <+: word → ¬ b <:+ marker

/-- The borders are the words' tails and inits. -/
theorem NoOverlap.of_borders {word marker : List α} (h1 : ¬ word <:+: marker)
    (h2 : ¬ marker <:+: word) (h3 : ∀ b ∈ word.tails, b ≠ [] → ¬ b <+: marker)
    (h4 : ∀ b ∈ word.inits, b ≠ [] → ¬ b <:+ marker) : NoOverlap word marker where
  not_within := h1
  not_contains := h2
  suffix_begins b hb hs := h3 b ((List.mem_tails ..).mpr hs) hb
  begins_suffix b hb hs := h4 b ((List.mem_inits ..).mpr hs) hb

/-- A word without a letter does not overlap it. -/
theorem NoOverlap.of_notMem {word : List α} {c : α} (hword : word ≠ []) (hc : c ∉ word) : NoOverlap word [c] where
  not_within h := by
    have hsub : ∀ d ∈ word, d = c := fun d hd => List.mem_singleton.mp (h.subset hd)
    obtain ⟨d, hd⟩ := List.exists_mem_of_ne_nil word hword
    exact hc (hsub d hd ▸ hd)
  not_contains h := hc (h.subset (List.mem_singleton.mpr rfl))
  suffix_begins b hb hs hp := by
    obtain ⟨d, hd⟩ := List.exists_mem_of_ne_nil b hb
    exact hc (List.mem_singleton.mp (hp.subset hd) ▸ hs.subset hd)
  begins_suffix b hb hp hs := by
    obtain ⟨d, hd⟩ := List.exists_mem_of_ne_nil b hb
    exact hc (List.mem_singleton.mp (hs.subset hd) ▸ hp.subset hd)

/-- Beside a marker it does not overlap, a word lies on one side. -/
theorem NoOverlap.infix_append {word marker : List α} (h : NoOverlap word marker) {u v : List α}
    (hw : word <:+: u ++ (marker ++ v)) : word <:+: u ∨ word <:+: v := by
  obtain ⟨x, y, hxy⟩ := hw
  rw [List.append_assoc] at hxy
  rcases List.append_eq_append_iff.mp hxy with ⟨u₂, rfl, hu⟩ | ⟨x₂, rfl, hx⟩
  · -- the word begins within `u`
    rcases List.append_eq_append_iff.mp hu with ⟨u₃, rfl, _⟩ | ⟨w₂, rfl, hw₂⟩
    · exact .inl ⟨x, u₃, by simp⟩
    · by_cases hnil : w₂ = []
      · subst hnil
        exact .inl ⟨x, [], by simp⟩
      · have hsuf : w₂ <:+ u₂ ++ w₂ := List.suffix_append u₂ w₂
        rcases List.append_eq_append_iff.mp hw₂ with ⟨w₃, hw₃, _⟩ | ⟨m₂, hm₂, _⟩
        · subst hw₃
          exact absurd (⟨u₂, w₃, by simp⟩ : marker <:+: u₂ ++ (marker ++ w₃)) h.not_contains
        · exact absurd ⟨m₂, hm₂.symm⟩ (h.suffix_begins w₂ hnil hsuf)
  · -- the word begins within the marker or after it
    rcases List.append_eq_append_iff.mp hx with ⟨m₂, _, hv⟩ | ⟨m₂, hm₂, hv⟩
    · exact .inr ⟨m₂, y, by rw [hv, List.append_assoc]⟩
    · by_cases hnil : m₂ = []
      · subst hnil
        exact .inr ⟨[], y, by simpa using hv⟩
      · have hsuf : m₂ <:+ marker := ⟨x₂, hm₂.symm⟩
        rcases List.append_eq_append_iff.mp hv with ⟨w₂, hw₂, _⟩ | ⟨w₂, hw₂, _⟩
        · exact absurd ⟨x₂, w₂, by rw [hm₂, hw₂, List.append_assoc]⟩ h.not_within
        · exact absurd hsuf (h.begins_suffix m₂ hnil ⟨w₂, hw₂.symm⟩)

/-- Joining pieces with the marker makes no new occurrence of a word. -/
theorem NoOverlap.infix_intercalate {word marker : List α} (h : NoOverlap word marker)
    (hword : word ≠ []) {ps : List (List α)} (hw : word <:+: List.intercalate marker ps) :
    ∃ p ∈ ps, word <:+: p := by
  induction ps with
  | nil => exact absurd (List.eq_nil_of_infix_nil hw) hword
  | cons p ps ih =>
    by_cases hps : ps = []
    · subst hps
      exact ⟨p, by simp, by simpa [List.intercalate] using hw⟩
    · rw [intercalate_cons marker p hps, List.append_assoc] at hw
      rcases h.infix_append hw with hp | hrest
      · exact ⟨p, by simp, hp⟩
      · obtain ⟨q, hq, hqw⟩ := ih hrest
        exact ⟨q, List.mem_cons_of_mem _ hq, hqw⟩

variable [DecidableEq α]

/-- Replacing makes no new occurrence of any word the marker does not overlap. -/
theorem NoOverlap.infix_of_replace {word marker : List α} (h : NoOverlap word marker)
    (hword : word ≠ []) {pat cs : List α} (hpat : pat ≠ [])
    (hw : word <:+: replace pat marker cs) : word <:+: cs := by
  obtain ⟨p, hp, hpw⟩ := h.infix_intercalate hword hw
  exact hpw.trans (split_piece_within pat hpat cs p hp)

/-- A replaced word is gone. -/
theorem NoOverlap.replace_clean {word marker : List α} (h : NoOverlap word marker)
    (hword : word ≠ []) (cs : List α) : ¬ word <:+: replace word marker cs := by
  intro hw
  obtain ⟨p, hp, hpw⟩ := h.infix_intercalate hword hw
  exact split_piece_clean word hword cs p hp hpw

end Marker

/-! ## White space -/

/-- The characters Python's `str.isspace` accepts. -/
def isSpace (c : Char) : Bool :=
  c.toNat ∈ [9, 10, 11, 12, 13, 28, 29, 30, 31, 32, 133, 160, 5760, 8232, 8233, 8239, 8287, 12288] ||
    (8192 ≤ c.toNat && c.toNat ≤ 8202)

def lstrip (cs : List Char) : List Char := cs.dropWhile isSpace

def rstrip (cs : List Char) : List Char := (cs.reverse.dropWhile isSpace).reverse

def strip (cs : List Char) : List Char := rstrip (lstrip cs)

theorem strip_of_clean {cs : List Char} (h : ∀ c ∈ cs, isSpace c = false) : strip cs = cs := by
  have hdrop (ds : List Char) (hds : ∀ d ∈ ds, isSpace d = false) : ds.dropWhile isSpace = ds := by
    cases ds with
    | nil => rfl
    | cons d ds => exact List.dropWhile_cons_of_neg (by simpa using hds d List.mem_cons_self)
  have hreverse : ∀ c ∈ cs.reverse, isSpace c = false := fun c hc => h c (List.mem_reverse.mp hc)
  rw [strip, lstrip, hdrop cs h, rstrip, hdrop _ hreverse, List.reverse_reverse]

/-- White space around a text is taken off. -/
theorem strip_around (lead core tail : List Char) (hlead : ∀ c ∈ lead, isSpace c = true)
    (htail : ∀ c ∈ tail, isSpace c = true) (hfirst : ∀ c ∈ core.head?, isSpace c = false)
    (hlast : ∀ c ∈ core.getLast?, isSpace c = false) (hcore : core ≠ []) : strip (lead ++ (core ++ tail)) = core := by
  have hleft : lstrip (lead ++ (core ++ tail)) = core ++ tail := by
    rw [lstrip, List.dropWhile_append_of_pos hlead]
    obtain ⟨c, core, rfl⟩ := List.exists_cons_of_ne_nil hcore
    exact List.dropWhile_cons_of_neg (by simp [hfirst c rfl])
  have hright : (core ++ tail).reverse.dropWhile isSpace = core.reverse := by
    rw [List.reverse_append, List.dropWhile_append_of_pos fun c hc => htail c (List.mem_reverse.mp hc)]
    obtain ⟨c, rest, hrest⟩ := List.exists_cons_of_ne_nil (List.reverse_ne_nil_iff.mpr hcore)
    have hc : isSpace c = false := hlast c (by rw [← List.head?_reverse, hrest]; rfl)
    rw [hrest]
    exact List.dropWhile_cons_of_neg (by simp [hc])
  rw [strip, hleft, rstrip, hright, List.reverse_reverse]

/-! ## Decimal numbers -/

/-- More digits of a number; a single underscore may stand before a digit. -/
def moreDigits : Nat → List Char → Option Nat
  | n, [] => some n
  | n, c :: cs =>
    if c.isDigit then moreDigits (10 * n + (c.toNat - '0'.toNat)) cs
    else
      match c, cs with
      | '_', d :: ds => if d.isDigit then moreDigits n (d :: ds) else none
      | _, _ => none

def natural : List Char → Option Nat
  | [] => none
  | c :: cs => if c.isDigit then moreDigits 0 (c :: cs) else none

/-- The number that Python's `int` reads from a text in ASCII. -/
def parseInt (cs : List Char) : Option Int :=
  match strip cs with
  | '-' :: ds => (natural ds).map fun n => -n
  | '+' :: ds => (natural ds).map Int.ofNat
  | ds => (natural ds).map Int.ofNat

theorem moreDigits_eq (n : Nat) {cs : List Char} (h : ∀ c ∈ cs, c.isDigit = true) :
    moreDigits n cs = some (Nat.ofDigitChars 10 cs n) := by
  induction cs generalizing n with
  | nil => rfl
  | cons c cs ih =>
    rw [moreDigits.eq_def]
    dsimp only
    rw [if_pos (h c List.mem_cons_self), ih _ fun d hd => h d (List.mem_cons_of_mem c hd)]
    rfl

theorem isSpace_of_isDigit {c : Char} (h : c.isDigit = true) : isSpace c = false := by
  have hdigit : 48 ≤ c.toNat ∧ c.toNat ≤ 57 := by
    simpa [Char.isDigit, UInt32.le_iff_toNat_le] using h
  unfold isSpace
  simp
  omega

theorem isDigit_of_mem_toDigits (n : Nat) : ∀ c ∈ Nat.toDigits 10 n, c.isDigit = true :=
  fun _ hc => Nat.isDigit_of_mem_toDigits (by decide) (by decide) hc

theorem natural_toDigits (n : Nat) : natural (Nat.toDigits 10 n) = some n := by
  have hdigits := isDigit_of_mem_toDigits n
  cases hcs : Nat.toDigits 10 n with
  | nil => exact absurd hcs Nat.toDigits_ne_nil
  | cons c cs =>
    rw [hcs] at hdigits
    rw [natural, if_pos (hdigits c List.mem_cons_self), moreDigits_eq 0 hdigits, ← hcs, Nat.ofDigitChars_ten_toDigits]

theorem parseInt_toDigits (n : Nat) : parseInt (Nat.toDigits 10 n) = some (n : Int) := by
  have hdigits := isDigit_of_mem_toDigits n
  have hstrip : strip (Nat.toDigits 10 n) = Nat.toDigits 10 n :=
    strip_of_clean fun c hc => isSpace_of_isDigit (hdigits c hc)
  unfold parseInt
  rw [hstrip]
  split
  next ds hds => exact absurd (hdigits '-' (hds ▸ List.mem_cons_self)) (by decide)
  next ds hds => exact absurd (hdigits '+' (hds ▸ List.mem_cons_self)) (by decide)
  · rw [natural_toDigits]
    rfl

theorem parseInt_negative (n : Nat) : parseInt ('-' :: Nat.toDigits 10 n) = some (-n : Int) := by
  have hstrip : strip ('-' :: Nat.toDigits 10 n) = '-' :: Nat.toDigits 10 n := by
    apply strip_of_clean
    intro c hc
    rcases List.mem_cons.mp hc with rfl | hc
    · decide
    · exact isSpace_of_isDigit (isDigit_of_mem_toDigits n c hc)
  unfold parseInt
  rw [hstrip]
  split
  · next ds hds =>
    rw [← (List.cons.inj hds).2, natural_toDigits]
    rfl
  · next ds hds => exact absurd (List.cons.inj hds).1 (by decide)
  · next hminus _ => exact absurd rfl (hminus _)

end Text
