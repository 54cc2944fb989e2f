import OpenHandsSWE.Lib.Brackets
import OpenHandsSWE.Lib.JsonTokens

/-! The braces of a JSON text: those that stand outside its strings are balanced. -/

namespace Json

open BracketKind

def braceKind (c : Char) : BracketKind := if c = '{' then .opening else if c = '}' then .closing else .neither

/-- Where a letter stands: outside of strings, in one, or in one after a backslash. -/
inductive Place where
  | outside
  | inside
  | escaped

/-- No brace stands in a string. -/
def bracelessStrings : Place → List Char → Bool
  | _, [] => true
  | .outside, c :: cs => bracelessStrings (if c = '"' then .inside else .outside) cs
  | .inside, c :: cs =>
    if c = '"' then bracelessStrings .outside cs
    else if c = '\\' then bracelessStrings .escaped cs
    else braceKind c = .neither && bracelessStrings .inside cs
  | .escaped, _ :: cs => bracelessStrings .inside cs

/-! ## In a string -/

/-- A part of a string that holds no brace, and no quote to end it. -/
def InString (e : List Char) : Prop :=
  ∀ cs, bracelessStrings .inside (e ++ cs) = true → bracelessStrings .inside cs = true ∧ ∀ c ∈ e, braceKind c = .neither

theorem inString_nil : InString [] := fun _ h => ⟨h, nofun⟩

theorem inString_append {e e' : List Char} (h : InString e) (h' : InString e') : InString (e ++ e') := by
  intro cs hcs
  rw [List.append_assoc] at hcs
  obtain ⟨hrest, he⟩ := h _ hcs
  obtain ⟨hrest, he'⟩ := h' _ hrest
  exact ⟨hrest, fun c hc => (List.mem_append.mp hc).elim (he c) (he' c)⟩

theorem inString_char {c : Char} (hquote : c ≠ '"') (hescape : c ≠ '\\') : InString [c] := by
  intro cs hcs
  rw [List.singleton_append, bracelessStrings, if_neg hquote, if_neg hescape, Bool.and_eq_true, decide_eq_true_eq] at hcs
  exact ⟨hcs.2, by simpa using hcs.1⟩

theorem inString_escape {d : Char} (hd : braceKind d = .neither) : InString ['\\', d] :=
  fun _ hcs => ⟨hcs, List.forall_mem_cons.mpr ⟨rfl, by simpa using hd⟩⟩

theorem hexValue_inString {c : Char} {n : Nat} (h : hexValue c = some n) : InString [c] := by
  refine inString_char (hexValue_ne h).2 ?_
  rintro rfl
  have hnone : hexValue '\\' = none := by decide
  exact absurd (hnone.symm.trans h) (by simp)

theorem hexUnit_inString {a b c d : Char} {n : Nat} (h : hexUnit a b c d = some n) : InString ['\\', 'u', a, b, c, d] := by
  unfold hexUnit at h
  simp only [Option.bind_eq_bind, Option.bind_eq_some_iff] at h
  obtain ⟨w, hw, x, hx, y, hy, z, hz, -⟩ := h
  exact inString_append (inString_escape rfl) (inString_append (hexValue_inString hw)
    (inString_append (hexValue_inString hx) (inString_append (hexValue_inString hy) (hexValue_inString hz))))

/-- The body of a string, up to its closing quote. -/
def StringBody (cs : List Char) : Prop := ∀ s r, scanString cs = some (s, r) → ∃ t, cs = t ++ '"' :: r ∧ InString t

theorem stringBody_append {cs e : List Char} {x : Char} (h : StringBody cs) (he : InString e) {s r : List Char}
    (hscan : (scanString cs).map (fun p => (x :: p.1, p.2)) = some (s, r)) : ∃ t, e ++ cs = t ++ '"' :: r ∧ InString t := by
  obtain ⟨⟨s', r'⟩, hs, heq⟩ := Option.map_eq_some_iff.mp hscan
  obtain ⟨-, rfl⟩ := Prod.mk.inj heq
  obtain ⟨t, rfl, ht⟩ := h s' r' hs
  exact ⟨e ++ t, (List.append_assoc ..).symm, inString_append he ht⟩

theorem stringBody (cs : List Char) : StringBody cs := by
  induction cs using scanString.induct with
  | case1 =>
    intro s r' h
    cases h
  | case2 r =>
    intro s r' h
    obtain ⟨-, rfl⟩ := Prod.mk.inj (Option.some.inj h)
    exact ⟨[], rfl, inString_nil⟩
  | case3 r ih | case4 r ih | case5 r ih | case6 r ih | case7 r ih | case8 r ih | case9 r ih | case10 r ih =>
    intro s r' h
    exact stringBody_append ih (inString_escape rfl) h
  | case11 a b c d r hunit =>
    intro s r' h
    rw [scanString, hunit] at h
    cases h
  | case12 a b c d u hunit hhigh a' b' c' d' r' hlow =>
    intro s r h
    rw [scanString, hunit] at h
    simp [hhigh, hlow] at h
  | case13 a b c d u hunit hhigh a' b' c' d' r' v hlow hrange ih =>
    intro s r h
    rw [scanString, hunit] at h
    simp only [if_pos hhigh, hlow, if_pos hrange] at h
    obtain ⟨x, -, h⟩ := Option.bind_eq_some_iff.mp h
    exact stringBody_append ih (inString_append (hexUnit_inString hunit) (hexUnit_inString hlow)) h
  | case14 a b c d u hunit hhigh a' b' c' d' r' v hlow hrange =>
    intro s r h
    rw [scanString, hunit] at h
    simp [hhigh, hlow, hrange] at h
  | case15 a b c d r' u hunit hhigh hnone =>
    intro s r h
    rw [scanString.eq_def] at h
    simp only [hunit, if_pos hhigh] at h
    cases h
  | case16 a b c d r' u hunit hlow ih =>
    intro s r h
    rw [scanString, hunit] at h
    simp only [if_neg hlow] at h
    obtain ⟨x, -, h⟩ := Option.bind_eq_some_iff.mp h
    exact stringBody_append ih (hexUnit_inString hunit) h
  | case17 tail h1 h2 h3 h4 h5 h6 h7 h8 h9 =>
    intro s r h
    rw [scanString.eq_12 tail h1 h2 h3 h4 h5 h6 h7 h8 h9] at h
    cases h
  | case18 c r h1 h2 h3 h4 h5 h6 h7 h8 h9 h10 h11 hlt =>
    intro s r' h
    rw [scanString.eq_13 c r h1 h2 h3 h4 h5 h6 h7 h8 h9 h10 h11, if_pos hlt] at h
    cases h
  | case19 c r h1 h2 h3 h4 h5 h6 h7 h8 h9 h10 h11 hge ih =>
    intro s r' h
    rw [scanString.eq_13 c r h1 h2 h3 h4 h5 h6 h7 h8 h9 h10 h11, if_neg hge] at h
    exact stringBody_append ih (inString_char h1 h11) h

/-! ## Outside of strings -/

/-- What a scanner takes from a text without braces in its strings is balanced. -/
def Passes (cs r : List Char) : Prop :=
  bracelessStrings .outside cs = true → ∃ t, cs = t ++ r ∧ Balanced braceKind t ∧ bracelessStrings .outside r = true

section

variable {cs b r r' t : List Char}

theorem balanced_of_neither (h : ∀ c ∈ t, braceKind c = .neither) : Balanced braceKind t := by
  induction t with
  | nil => exact .nil
  | cons c t ih =>
    rw [List.forall_mem_cons] at h
    exact .neither h.1 (ih h.2)

theorem Passes.refl (cs : List Char) : Passes cs cs := fun h => ⟨[], rfl, .nil, h⟩

theorem Passes.trans (h : Passes cs r') (h' : Passes r' r) : Passes cs r := by
  intro hcs
  obtain ⟨t, rfl, ht, hr'⟩ := h hcs
  obtain ⟨t', rfl, ht', hr⟩ := h' hr'
  exact ⟨t ++ t', (List.append_assoc ..).symm, ht.append ht', hr⟩

theorem passes_char {c : Char} (hquote : c ≠ '"') (hc : braceKind c = .neither) (cs : List Char) : Passes (c :: cs) cs := by
  intro h
  rw [bracelessStrings, if_neg hquote] at h
  exact ⟨[c], rfl, .neither hc .nil, h⟩

theorem passes_append (ht : ∀ c ∈ t, c ≠ '"' ∧ braceKind c = .neither) (r : List Char) : Passes (t ++ r) r := by
  induction t with
  | nil => exact .refl r
  | cons c t ih =>
    rw [List.forall_mem_cons] at ht
    exact (passes_char ht.1.1 ht.1.2 (t ++ r)).trans (ih ht.2)

theorem passes_dropWhile {p : Char → Bool} (hp : ∀ c, p c = true → c ≠ '"' ∧ braceKind c = .neither) (cs : List Char) :
    Passes cs (cs.dropWhile p) := by
  have htaken : ∀ c ∈ cs.takeWhile p, c ≠ '"' ∧ braceKind c = .neither := fun c hc => hp c (List.mem_takeWhile_imp hc)
  have hpass := passes_append htaken (cs.dropWhile p)
  rwa [List.takeWhile_append_dropWhile] at hpass

theorem passes_skipSpace (cs : List Char) : Passes cs (skipSpace cs) := by
  refine passes_dropWhile (fun c hc => ?_) cs
  simp only [isSpace, Bool.or_eq_true, beq_iff_eq] at hc
  rcases hc with ((rfl | rfl) | rfl) | rfl <;> decide

theorem passes_digits (cs : List Char) : Passes cs (cs.dropWhile Char.isDigit) := by
  refine passes_dropWhile (fun c hc => ⟨?_, ?_⟩) cs
  · rintro rfl
    exact absurd hc (by decide)
  · have hopen : c ≠ '{' := fun h => absurd (h ▸ hc) (by decide)
    have hclose : c ≠ '}' := fun h => absurd (h ▸ hc) (by decide)
    rw [braceKind, if_neg hopen, if_neg hclose]

theorem passes_string {s : List Char} (h : scanString b = some (s, r)) : Passes ('"' :: b) r := by
  intro hcs
  obtain ⟨t, rfl, ht⟩ := stringBody b s r h
  obtain ⟨hend, hneither⟩ := ht _ hcs
  refine ⟨'"' :: (t ++ ['"']), by simp, balanced_of_neither ?_, hend⟩
  intro c hc
  rw [List.mem_cons, List.mem_append, List.mem_singleton] at hc
  rcases hc with rfl | hc | rfl
  · rfl
  · exact hneither c hc
  · rfl

theorem passes_group (h : Passes b ('}' :: r)) : Passes ('{' :: b) r := by
  intro hcs
  obtain ⟨t, rfl, ht, hr⟩ := h hcs
  exact ⟨'{' :: (t ++ ['}']), by simp, .wrap rfl ht rfl .nil, hr⟩

end

/-! ## Numbers -/

section

variable {cs r : List Char}

theorem passes_whole {n : Nat} (h : scanWhole cs = some (n, r)) : Passes cs r := by
  cases cs with
  | nil => cases h
  | cons c cs =>
    rw [scanWhole] at h
    split_ifs at h with hzero
    · obtain ⟨-, rfl⟩ := Prod.mk.inj (Option.some.inj h)
      rw [hzero]
      exact passes_char (by decide) rfl cs
    · obtain ⟨-, rfl⟩ := Prod.mk.inj (Option.some.inj h)
      exact passes_digits _

theorem passes_frac (cs : List Char) : Passes cs (scanFrac cs).2 := by
  unfold scanFrac
  split
  next r =>
    split_ifs
    · exact .refl _
    · exact (passes_char (by decide) rfl r).trans (passes_digits r)
  · exact .refl cs

theorem passes_sign (cs : List Char) : Passes cs (scanSign cs).2 := by
  unfold scanSign
  split
  next r => exact passes_char (by decide) rfl r
  next r => exact passes_char (by decide) rfl r
  · exact .refl cs

theorem passes_exp (cs : List Char) : Passes cs (scanExp cs).2 := by
  unfold scanExp
  split
  · exact .refl []
  next e r =>
    split_ifs with he
    · exact .refl _
    · have hletter : Passes (e :: r) r := by rcases he with rfl | rfl <;> exact passes_char (by decide) rfl r
      exact (hletter.trans (passes_sign r)).trans (passes_digits _)
    · exact .refl _

theorem passes_number {v : Json} (h : scanNumber cs = some (v, r)) : Passes cs r := by
  have hsign : Passes cs (if cs.head? == some '-' then cs.tail else cs) := by
    split_ifs with hneg
    · cases cs with
      | nil => exact .refl []
      | cons c cs =>
        obtain rfl : c = '-' := by simpa using hneg
        exact passes_char (by decide) rfl cs
    · exact .refl cs
  unfold scanNumber at h
  dsimp only at h
  split at h
  · cases h
  next n r' hwhole =>
    have hr' : Passes cs r' := hsign.trans (passes_whole hwhole)
    split_ifs at h <;> obtain ⟨-, rfl⟩ := Prod.mk.inj (Option.some.inj h)
    · exact hr'.trans ((passes_frac r').trans (passes_exp _))
    all_goals exact hr'

end

/-! ## Values -/

/-- The three scanners pass over balanced text; the members of an object end at its brace. -/
structure PassesAll (fuel : Nat) : Prop where
  value : ∀ cs v r, scanValue fuel cs = some (v, r) → Passes cs r
  items : ∀ cs xs r, scanItems fuel cs = some (xs, r) → Passes cs r
  members : ∀ cs kvs r, scanMembers fuel cs = some (kvs, r) → Passes cs ('}' :: r)

section

variable {fuel : Nat} {cs b r : List Char} {v : Json}

theorem passes_object (h : PassesAll fuel) (hscan : scanValue (fuel + 1) ('{' :: b) = some (v, r)) : Passes b ('}' :: r) := by
  rw [scanValue] at hscan
  split at hscan
  next r' hr' =>
    obtain ⟨-, rfl⟩ := Prod.mk.inj (Option.some.inj hscan)
    rw [← hr']
    exact passes_skipSpace b
  · obtain ⟨⟨kvs, r'⟩, hm, heq⟩ := Option.map_eq_some_iff.mp hscan
    obtain ⟨-, rfl⟩ := Prod.mk.inj heq
    exact (passes_skipSpace b).trans (h.members _ _ _ hm)

theorem passes_value (h : PassesAll fuel) (hscan : scanValue (fuel + 1) cs = some (v, r)) : Passes cs r := by
  have hall := hscan
  rw [scanValue.eq_def] at hscan
  dsimp only at hscan
  split at hscan
  next b =>
    obtain ⟨⟨s, r'⟩, hs, heq⟩ := Option.map_eq_some_iff.mp hscan
    obtain ⟨-, rfl⟩ := Prod.mk.inj heq
    exact passes_string hs
  next b => exact passes_group (passes_object h hall)
  next b =>
    refine (passes_char (by decide) rfl b).trans ((passes_skipSpace b).trans ?_)
    split at hscan
    next r' hr' =>
      obtain ⟨-, rfl⟩ := Prod.mk.inj (Option.some.inj hscan)
      rw [hr']
      exact passes_char (by decide) rfl _
    · obtain ⟨⟨xs, r'⟩, hm, heq⟩ := Option.map_eq_some_iff.mp hscan
      obtain ⟨-, rfl⟩ := Prod.mk.inj heq
      exact h.items _ _ _ hm
  next b =>
    obtain ⟨-, rfl⟩ := Prod.mk.inj (Option.some.inj hscan)
    exact passes_append (t := ['n', 'u', 'l', 'l']) (by simp [braceKind]) b
  next b =>
    obtain ⟨-, rfl⟩ := Prod.mk.inj (Option.some.inj hscan)
    exact passes_append (t := ['t', 'r', 'u', 'e']) (by simp [braceKind]) b
  next b =>
    obtain ⟨-, rfl⟩ := Prod.mk.inj (Option.some.inj hscan)
    exact passes_append (t := ['f', 'a', 'l', 's', 'e']) (by simp [braceKind]) b
  · exact passes_number hscan

theorem passes_items {xs : List Json} (h : PassesAll fuel) (hscan : scanItems (fuel + 1) cs = some (xs, r)) : Passes cs r := by
  rw [scanItems] at hscan
  obtain ⟨⟨v, r'⟩, hv, hscan⟩ := Option.bind_eq_some_iff.mp hscan
  refine ((h.value _ _ _ hv).trans (passes_skipSpace r')).trans ?_
  dsimp only at hscan
  split at hscan
  next b hb =>
    obtain ⟨⟨ys, r''⟩, hm, heq⟩ := Option.map_eq_some_iff.mp hscan
    obtain ⟨-, rfl⟩ := Prod.mk.inj heq
    rw [hb]
    exact (passes_char (by decide) rfl b).trans ((passes_skipSpace b).trans (h.items _ _ _ hm))
  next b hb =>
    obtain ⟨-, rfl⟩ := Prod.mk.inj (Option.some.inj hscan)
    rw [hb]
    exact passes_char (by decide) rfl _
  · cases hscan

theorem passes_members {kvs : List (String × Json)} (h : PassesAll fuel) (hscan : scanMembers (fuel + 1) cs = some (kvs, r)) :
    Passes cs ('}' :: r) := by
  obtain ⟨b, k, r₁, r₂, v, r₃, rfl, hk, hr₂, hv, hrest⟩ := scanMembers_step hscan
  have hcolon : Passes ('"' :: b) (':' :: r₂) := by
    rw [← hr₂]
    exact (passes_string hk).trans (passes_skipSpace r₁)
  have hvalue : Passes (':' :: r₂) (skipSpace r₃) :=
    ((passes_char (by decide) rfl r₂).trans ((passes_skipSpace r₂).trans (h.value _ _ _ hv))).trans (passes_skipSpace r₃)
  refine (hcolon.trans hvalue).trans ?_
  rcases hrest with ⟨b', kvs', hb', hm, -⟩ | ⟨hb', -⟩
  · rw [hb']
    exact (passes_char (by decide) rfl b').trans ((passes_skipSpace b').trans (h.members _ _ _ hm))
  · rw [hb']
    exact .refl _

end

theorem passesAll (fuel : Nat) : PassesAll fuel := by
  induction fuel with
  | zero => exact ⟨nofun, nofun, nofun⟩
  | succ fuel ih =>
    exact ⟨fun _ _ _ => passes_value ih, fun _ _ _ => passes_items ih, fun _ _ _ => passes_members ih⟩

/-- An object is a group of braces around balanced text. -/
theorem loads_group {b : List Char} {v : Json} (hloads : loads ('{' :: (b ++ ['}'])) = some v)
    (hstrings : bracelessStrings .outside ('{' :: (b ++ ['}'])) = true) : Balanced braceKind b := by
  obtain ⟨⟨w, r⟩, hscan, hend⟩ := Option.bind_eq_some_iff.mp hloads
  have hrest : Passes (b ++ ['}']) ('}' :: r) := passes_object (passesAll _) hscan
  obtain ⟨t, hsplit, ht, -⟩ := hrest hstrings
  dsimp only at hend
  split_ifs at hend with hspace
  -- only white space may follow the closing brace, and the text ends in one
  rcases List.eq_nil_or_concat' r with rfl | ⟨r', c, rfl⟩
  · rwa [List.append_inj_left' hsplit rfl]
  · have hlast : c = '}' := by
      have htail : t ++ '}' :: (r' ++ [c]) = (t ++ '}' :: r') ++ [c] := by simp
      exact (List.append_inj_right' (hsplit.trans htail) rfl |> List.singleton_injective).symm
    have hall := List.dropWhile_eq_nil_iff.mp hspace c (by simp)
    rw [hlast] at hall
    exact absurd hall (by decide)

end Json
