import OpenHandsSWE.Lib.JsonRoundTrip
import OpenHandsSWE.Lib.Text

/-! Where the strings of a JSON value stand in its text. -/

namespace Json

/-! ## String literals -/

/-- Characters that stand for themselves in a string literal. -/
def Plain (cs : List Char) : Prop := ∀ c ∈ cs, 32 ≤ c.toNat ∧ c ≠ '"' ∧ c ≠ '\\'

instance (cs : List Char) : Decidable (Plain cs) := inferInstanceAs (Decidable (∀ c ∈ cs, _))

/-- `t` between quotes is a literal of `s`. -/
structure Spells (t s : List Char) : Prop where
  length_le : s.length ≤ t.length
  eq_of_plain : Plain t → t = s
  plain : t.length = s.length → t = s ∧ Plain t
  visible : ∀ c ∈ t, 32 ≤ c.toNat
  escaped : ∀ a b, t = a ++ '"' :: b → ∃ a', a = a' ++ ['\\']

theorem spells_nil : Spells [] [] where
  length_le := le_rfl
  eq_of_plain _ := rfl
  plain _ := ⟨rfl, nofun⟩
  visible := nofun
  escaped a b h := by simp at h

theorem spells_char {t s : List Char} {c : Char} (h : Spells t s) (hvisible : 32 ≤ c.toNat) (hquote : c ≠ '"')
    (hescape : c ≠ '\\') : Spells (c :: t) (c :: s) where
  length_le := Nat.succ_le_succ h.length_le
  eq_of_plain hplain := by rw [h.eq_of_plain fun c hc => hplain c (List.mem_cons_of_mem _ hc)]
  plain hlength := by
    obtain ⟨rfl, hplain⟩ := h.plain (Nat.succ.inj hlength)
    exact ⟨rfl, List.forall_mem_cons.mpr ⟨⟨hvisible, hquote, hescape⟩, hplain⟩⟩
  visible := List.forall_mem_cons.mpr ⟨hvisible, h.visible⟩
  escaped a b heq := by
    cases a with
    | nil => exact absurd (List.cons.inj heq).1 hquote
    | cons c' a =>
      obtain ⟨a', rfl⟩ := h.escaped a b (List.cons.inj heq).2
      exact ⟨c' :: a', rfl⟩

/-- An escape is longer than what it stands for, and only its second character may be a quote. -/
theorem spells_escape {t s e : List Char} {c d : Char} (h : Spells t s) (hvisible : ∀ x ∈ d :: e, 32 ≤ x.toNat)
    (hquote : '"' ∉ e) : Spells ('\\' :: d :: (e ++ t)) (c :: s) where
  length_le := by
    have hle := h.length_le
    simp
    omega
  eq_of_plain hplain := absurd rfl (hplain '\\' List.mem_cons_self).2.2
  plain hlength := by
    have hle := h.length_le
    simp at hlength
    omega
  visible := by
    refine List.forall_mem_cons.mpr ⟨by decide, ?_⟩
    rw [← List.cons_append, List.forall_mem_append]
    exact ⟨hvisible, h.visible⟩
  escaped a b heq := by
    match a, heq with
    | [], heq => exact absurd (List.cons.inj heq).1 (by decide)
    | [c'], heq => exact ⟨[], by rw [← (List.cons.inj heq).1]; rfl⟩
    | c' :: d' :: a, heq =>
      have htail : e ++ t = a ++ '"' :: b := (List.cons.inj (List.cons.inj heq).2).2
      rcases List.append_eq_append_iff.mp htail with ⟨x, rfl, ht⟩ | ⟨x, rfl, hb⟩
      · obtain ⟨x', rfl⟩ := h.escaped x b ht
        exact ⟨c' :: d' :: (e ++ x'), by simp⟩
      · cases x with
        | nil =>
          obtain ⟨x', hx'⟩ := h.escaped [] b hb.symm
          simp at hx'
        | cons y x =>
          obtain ⟨rfl, -⟩ := List.cons.inj hb
          simp at hquote

theorem hexValue_ne {c : Char} {n : Nat} (h : hexValue c = some n) : 32 ≤ c.toNat ∧ c ≠ '"' := by
  have hrange : 48 ≤ c.toNat := by
    unfold hexValue at h
    split_ifs at h with h1 h2 h3
    · exact h1.1
    · exact le_trans (by decide) h2.1
    · exact le_trans (by decide) h3.1
  refine ⟨le_trans (by decide) hrange, fun hc => ?_⟩
  rw [hc] at hrange
  revert hrange
  decide

theorem hexUnit_ne {a b c d : Char} {n : Nat} (h : hexUnit a b c d = some n) :
    ∀ x ∈ [a, b, c, d], 32 ≤ x.toNat ∧ x ≠ '"' := by
  unfold hexUnit at h
  simp only [Option.bind_eq_bind, Option.bind_eq_some_iff] at h
  obtain ⟨w, hw, x, hx, y, hy, z, hz, -⟩ := h
  simp only [List.forall_mem_cons]
  exact ⟨hexValue_ne hw, hexValue_ne hx, hexValue_ne hy, hexValue_ne hz, nofun⟩

/-- The literal at the head of a text, whatever the text. -/
def HeadSpells (cs : List Char) : Prop :=
  ∀ s r, scanString cs = some (s, r) → ∃ t, cs = t ++ '"' :: r ∧ Spells t s

theorem headSpells_escape {cs e : List Char} {d x : Char} (h : HeadSpells cs) (hvisible : ∀ c ∈ d :: e, 32 ≤ c.toNat)
    (hquote : '"' ∉ e) {s r : List Char} (hscan : (scanString cs).map (fun p => (x :: p.1, p.2)) = some (s, r)) :
    ∃ t, '\\' :: d :: (e ++ cs) = t ++ '"' :: r ∧ Spells t s := by
  obtain ⟨⟨s', r'⟩, hs, heq⟩ := Option.map_eq_some_iff.mp hscan
  obtain ⟨rfl, rfl⟩ := Prod.mk.inj heq
  obtain ⟨t, rfl, ht⟩ := h s' r' hs
  exact ⟨'\\' :: d :: (e ++ t), by simp, spells_escape ht hvisible hquote⟩

theorem headSpells (cs : List Char) : HeadSpells cs := by
  induction cs using scanString.induct with
  | case1 => exact nofun
  | case2 r =>
    intro s r' h
    obtain ⟨rfl, rfl⟩ := Prod.mk.inj (Option.some.inj h)
    exact ⟨[], rfl, spells_nil⟩
  | case3 r ih | case4 r ih | case5 r ih | case6 r ih | case7 r ih | case8 r ih | case9 r ih | case10 r ih =>
    intro s r' h
    exact headSpells_escape (e := []) ih (by simp) (by simp) h
  | case11 a b c d r hunit => 
    intro s r' h
    rw [scanString, hunit] at h
    cases h
  | case12 a b c d u hunit hhigh a' b' c' d' r' hlow => 
    intro s r h
    rw [scanString, hunit] at h
    simp [hhigh, hlow] at h
  | case13 a b c d u hunit hhigh a' b' c' d' r' v hlow hrange ih =>
    intro s r h
    rw [scanString, hunit] at h
    simp only [if_pos hhigh, hlow, if_pos hrange] at h
    obtain ⟨x, -, h⟩ := Option.bind_eq_some_iff.mp h
    have hfirst := hexUnit_ne hunit
    have hsecond := hexUnit_ne hlow
    refine headSpells_escape (e := [a, b, c, d, '\\', 'u', a', b', c', d']) ih ?_ ?_ h
    · simp_all
    · simp_all [eq_comm]
  | case14 a b c d u hunit hhigh a' b' c' d' r' v hlow hrange =>
    intro s r h
    rw [scanString, hunit] at h
    simp [hhigh, hlow, hrange] at h
  | case15 a b c d r' u hunit hhigh hnone =>
    intro s r h
    rw [scanString.eq_def] at h
    simp only [hunit, if_pos hhigh] at h
    cases h
  | case16 a b c d r' u hunit hlow ih =>
    intro s r h
    rw [scanString, hunit] at h
    simp only [if_neg hlow] at h
    obtain ⟨x, -, h⟩ := Option.bind_eq_some_iff.mp h
    have hunits := hexUnit_ne hunit
    refine headSpells_escape (e := [a, b, c, d]) ih ?_ ?_ h
    · simp_all
    · simp_all [eq_comm]
  | case17 tail h1 h2 h3 h4 h5 h6 h7 h8 h9 =>
    intro s r h
    rw [scanString.eq_12 tail h1 h2 h3 h4 h5 h6 h7 h8 h9] at h
    cases h
  | case18 c r h1 h2 h3 h4 h5 h6 h7 h8 h9 h10 h11 hlt =>
    intro s r' h
    rw [scanString.eq_13 c r h1 h2 h3 h4 h5 h6 h7 h8 h9 h10 h11, if_pos hlt] at h
    cases h
  | case19 c r h1 h2 h3 h4 h5 h6 h7 h8 h9 h10 h11 hge ih =>
    intro s r' h
    rw [scanString.eq_13 c r h1 h2 h3 h4 h5 h6 h7 h8 h9 h10 h11, if_neg hge] at h
    obtain ⟨⟨s', r''⟩, hs, heq⟩ := Option.map_eq_some_iff.mp h
    obtain ⟨rfl, rfl⟩ := Prod.mk.inj heq
    obtain ⟨t, rfl, ht⟩ := ih s' r'' hs
    exact ⟨c :: t, rfl, spells_char ht (Nat.not_lt.mp hge) h1 h11⟩

theorem scanString_plain {t : List Char} (h : Plain t) (r : List Char) : scanString (t ++ '"' :: r) = some (t, r) := by
  induction t with
  | nil => rfl
  | cons c t ih =>
    obtain ⟨⟨hvisible, hquote, hescape⟩, ht⟩ := List.forall_mem_cons.mp h
    have hscan := scanString.eq_13 c (t ++ '"' :: r) hquote
    rw [List.cons_append, scanString]
    · rw [if_neg (Nat.not_lt.mpr hvisible), ih ht]
      rfl
    all_goals simp_all

/-! ## What is left of a text -/

theorem scanString_suffix {cs s r : List Char} (h : scanString cs = some (s, r)) : r <:+ cs := by
  obtain ⟨t, rfl, -⟩ := headSpells cs s r h
  exact ⟨t ++ ['"'], by simp⟩

theorem skipSpace_suffix (cs : List Char) : skipSpace cs <:+ cs := List.dropWhile_suffix _

theorem scanWhole_suffix {cs r : List Char} {n : Nat} (h : scanWhole cs = some (n, r)) : r <:+ cs := by
  cases cs with
  | nil => cases h
  | cons c cs =>
    rw [scanWhole] at h
    split_ifs at h
    · obtain ⟨-, rfl⟩ := Prod.mk.inj (Option.some.inj h)
      exact List.suffix_cons c cs
    · obtain ⟨-, rfl⟩ := Prod.mk.inj (Option.some.inj h)
      exact List.dropWhile_suffix _

theorem scanFrac_suffix (cs : List Char) : (scanFrac cs).2 <:+ cs := by
  unfold scanFrac
  split
  next r =>
    split_ifs
    · exact List.suffix_rfl
    · exact (List.dropWhile_suffix _).trans (List.suffix_cons '.' r)
  · exact List.suffix_rfl

theorem scanSign_suffix (cs : List Char) : (scanSign cs).2 <:+ cs := by
  unfold scanSign
  split
  next r => exact List.suffix_cons '-' r
  next r => exact List.suffix_cons '+' r
  · exact List.suffix_rfl

theorem scanExp_suffix (cs : List Char) : (scanExp cs).2 <:+ cs := by
  unfold scanExp
  split
  · exact List.suffix_rfl
  next e r =>
    split_ifs
    · exact List.suffix_rfl
    · exact ((List.dropWhile_suffix _).trans (scanSign_suffix r)).trans (List.suffix_cons e r)
    · exact List.suffix_rfl

theorem scanNumber_suffix {cs r : List Char} {v : Json} (h : scanNumber cs = some (v, r)) : r <:+ cs := by
  have htail : (if cs.head? == some '-' then cs.tail else cs) <:+ cs := by
    split_ifs
    · exact List.tail_suffix cs
    · exact List.suffix_rfl
  unfold scanNumber at h
  dsimp only at h
  split at h
  · cases h
  next n r' hwhole =>
    have hr' : r' <:+ cs := (scanWhole_suffix hwhole).trans htail
    split_ifs at h <;> obtain ⟨-, rfl⟩ := Prod.mk.inj (Option.some.inj h)
    · exact ((scanExp_suffix _).trans (scanFrac_suffix r')).trans hr'
    all_goals exact hr'

theorem scanNumber_ne_str {cs r : List Char} {s : String} : scanNumber cs ≠ some (.str s, r) := by
  intro h
  unfold scanNumber at h
  dsimp only at h
  split at h
  · cases h
  · split_ifs at h <;> cases h

/-- Scanning stops within the text, for each of the three scanners. -/
structure Stops (fuel : Nat) : Prop where
  value : ∀ cs v r, scanValue fuel cs = some (v, r) → r <:+ cs
  items : ∀ cs xs r, scanItems fuel cs = some (xs, r) → r <:+ cs
  members : ∀ cs kvs r, scanMembers fuel cs = some (kvs, r) → r <:+ cs

theorem scanValue_stops {fuel : Nat} (h : Stops fuel) {cs r : List Char} {v : Json}
    (hscan : scanValue (fuel + 1) cs = some (v, r)) : r <:+ cs := by
  rw [scanValue.eq_def] at hscan
  dsimp only at hscan
  split at hscan
  next b =>
    obtain ⟨⟨s, r'⟩, hs, heq⟩ := Option.map_eq_some_iff.mp hscan
    obtain ⟨-, rfl⟩ := Prod.mk.inj heq
    exact (scanString_suffix hs).trans (List.suffix_cons '"' b)
  next b =>
    have hb : skipSpace b <:+ '{' :: b := (skipSpace_suffix b).trans (List.suffix_cons '{' b)
    split at hscan
    next r' hr' =>
      obtain ⟨-, rfl⟩ := Prod.mk.inj (Option.some.inj hscan)
      rw [hr'] at hb
      exact (List.suffix_cons _ _).trans hb
    · obtain ⟨⟨kvs, r'⟩, hm, heq⟩ := Option.map_eq_some_iff.mp hscan
      obtain ⟨-, rfl⟩ := Prod.mk.inj heq
      exact (h.members _ _ _ hm).trans hb
  next b =>
    have hb : skipSpace b <:+ '[' :: b := (skipSpace_suffix b).trans (List.suffix_cons '[' b)
    split at hscan
    next r' hr' =>
      obtain ⟨-, rfl⟩ := Prod.mk.inj (Option.some.inj hscan)
      rw [hr'] at hb
      exact (List.suffix_cons _ _).trans hb
    · obtain ⟨⟨xs, r'⟩, hm, heq⟩ := Option.map_eq_some_iff.mp hscan
      obtain ⟨-, rfl⟩ := Prod.mk.inj heq
      exact (h.items _ _ _ hm).trans hb
  next b =>
    obtain ⟨-, rfl⟩ := Prod.mk.inj (Option.some.inj hscan)
    exact List.suffix_append ['n', 'u', 'l', 'l'] b
  next b =>
    obtain ⟨-, rfl⟩ := Prod.mk.inj (Option.some.inj hscan)
    exact List.suffix_append ['t', 'r', 'u', 'e'] b
  next b =>
    obtain ⟨-, rfl⟩ := Prod.mk.inj (Option.some.inj hscan)
    exact List.suffix_append ['f', 'a', 'l', 's', 'e'] b
  · exact scanNumber_suffix hscan

theorem scanItems_stops {fuel : Nat} (h : Stops fuel) {cs r : List Char} {xs : List Json}
    (hscan : scanItems (fuel + 1) cs = some (xs, r)) : r <:+ cs := by
  rw [scanItems] at hscan
  obtain ⟨⟨v, r'⟩, hv, hscan⟩ := Option.bind_eq_some_iff.mp hscan
  have hr' : skipSpace r' <:+ cs := (skipSpace_suffix r').trans (h.value _ _ _ hv)
  dsimp only at hscan
  split at hscan
  next b hb =>
    rw [hb] at hr'
    obtain ⟨⟨ys, r''⟩, hm, heq⟩ := Option.map_eq_some_iff.mp hscan
    obtain ⟨-, rfl⟩ := Prod.mk.inj heq
    exact (((h.items _ _ _ hm).trans (skipSpace_suffix b)).trans (List.suffix_cons _ b)).trans hr'
  next b hb =>
    rw [hb] at hr'
    obtain ⟨-, rfl⟩ := Prod.mk.inj (Option.some.inj hscan)
    exact (List.suffix_cons _ _).trans hr'
  · cases hscan

/-- One member of an object, and where the next one begins. -/
theorem scanMembers_step {fuel : Nat} {cs r : List Char} {kvs : List (String × Json)}
    (hscan : scanMembers (fuel + 1) cs = some (kvs, r)) :
    ∃ b k r₁ r₂ v r₃, cs = '"' :: b ∧ scanString b = some (k, r₁) ∧ skipSpace r₁ = ':' :: r₂ ∧
      scanValue fuel (skipSpace r₂) = some (v, r₃) ∧
      ((∃ b' kvs', skipSpace r₃ = ',' :: b' ∧ scanMembers fuel (skipSpace b') = some (kvs', r) ∧
          kvs = (.ofList k, v) :: kvs') ∨
        (skipSpace r₃ = '}' :: r ∧ kvs = [(.ofList k, v)])) := by
  rw [scanMembers.eq_def] at hscan
  dsimp only at hscan
  split at hscan
  next b =>
    obtain ⟨⟨k, r₁⟩, hk, hscan⟩ := Option.bind_eq_some_iff.mp hscan
    dsimp only at hscan
    split at hscan
    next r₂ hr₂ =>
      obtain ⟨⟨v, r₃⟩, hv, hscan⟩ := Option.bind_eq_some_iff.mp hscan
      refine ⟨b, k, r₁, r₂, v, r₃, rfl, hk, hr₂, hv, ?_⟩
      dsimp only at hscan
      split at hscan
      next b' hb' =>
        obtain ⟨⟨kvs', r'⟩, hm, heq⟩ := Option.map_eq_some_iff.mp hscan
        obtain ⟨rfl, rfl⟩ := Prod.mk.inj heq
        exact .inl ⟨b', kvs', hb', hm, rfl⟩
      next b' hb' =>
        obtain ⟨rfl, rfl⟩ := Prod.mk.inj (Option.some.inj hscan)
        exact .inr ⟨hb', rfl⟩
      · cases hscan
    · cases hscan
  · cases hscan

/-- The value of a member begins within the text. -/
theorem value_begins {b k r₁ r₂ : List Char} (hk : scanString b = some (k, r₁)) (hr₂ : skipSpace r₁ = ':' :: r₂) :
    skipSpace r₂ <:+ '"' :: b := by
  have hr₁ : ':' :: r₂ <:+ b := by
    rw [← hr₂]
    exact (skipSpace_suffix r₁).trans (scanString_suffix hk)
  exact (((skipSpace_suffix r₂).trans (List.suffix_cons ':' r₂)).trans hr₁).trans (List.suffix_cons '"' b)

theorem scanMembers_stops {fuel : Nat} (h : Stops fuel) {cs r : List Char} {kvs : List (String × Json)}
    (hscan : scanMembers (fuel + 1) cs = some (kvs, r)) : r <:+ cs := by
  obtain ⟨b, k, r₁, r₂, v, r₃, rfl, hk, hr₂, hv, hrest⟩ := scanMembers_step hscan
  have hr₃ : skipSpace r₃ <:+ '"' :: b :=
    ((skipSpace_suffix r₃).trans (h.value _ _ _ hv)).trans (value_begins hk hr₂)
  rcases hrest with ⟨b', kvs', hb', hm, -⟩ | ⟨hb', -⟩
  · rw [hb'] at hr₃
    exact (((h.members _ _ _ hm).trans (skipSpace_suffix b')).trans (List.suffix_cons _ b')).trans hr₃
  · rw [hb'] at hr₃
    exact (List.suffix_cons _ r).trans hr₃

theorem stops (fuel : Nat) : Stops fuel := by
  induction fuel with
  | zero => exact ⟨nofun, nofun, nofun⟩
  | succ fuel ih =>
    exact ⟨fun _ _ _ => scanValue_stops ih, fun _ _ _ => scanItems_stops ih, fun _ _ _ => scanMembers_stops ih⟩

/-! ## The strings of an object -/

/-- The literal `t` of `s` stands in the text. -/
structure Literal (t : List Char) (s : String) (cs : List Char) : Prop where
  stands : '"' :: (t ++ ['"']) <:+: cs
  spells : Spells t s.toList

theorem Literal.of_infix {t cs others : List Char} {s : String} (h : Literal t s cs) (hwithin : cs <:+: others) :
    Literal t s others := ⟨h.stands.trans hwithin, h.spells⟩

theorem scanValue_str {fuel : Nat} {cs r : List Char} {s : String} (h : scanValue fuel cs = some (.str s, r)) :
    ∃ t, Literal t s cs := by
  cases fuel with
  | zero => cases h
  | succ fuel =>
    rw [scanValue.eq_def] at h
    dsimp only at h
    split at h
    next b =>
      obtain ⟨⟨s', r'⟩, hs, heq⟩ := Option.map_eq_some_iff.mp h
      obtain ⟨hstr, rfl⟩ := Prod.mk.inj heq
      obtain rfl : String.ofList s' = s := by injection hstr
      obtain ⟨t, rfl, ht⟩ := headSpells b s' r' hs
      exact ⟨t, ⟨[], r', by simp⟩, by rwa [String.toList_ofList]⟩
    next b =>
      split at h
      · cases h
      · obtain ⟨p, -, heq⟩ := Option.map_eq_some_iff.mp h
        cases heq
    next b =>
      split at h
      · cases h
      · obtain ⟨p, -, heq⟩ := Option.map_eq_some_iff.mp h
        cases heq
    · cases h
    · cases h
    · cases h
    · exact absurd h scanNumber_ne_str

theorem scanMembers_literal {fuel : Nat} {cs r : List Char} {kvs : List (String × Json)} {k s : String}
    (hscan : scanMembers fuel cs = some (kvs, r)) (hmem : (k, Json.str s) ∈ kvs) : ∃ t, Literal t s cs := by
  induction fuel generalizing cs kvs with
  | zero => cases hscan
  | succ fuel ih =>
    obtain ⟨b, k', r₁, r₂, v, r₃, rfl, hk, hr₂, hv, hrest⟩ := scanMembers_step hscan
    have hbegins := value_begins hk hr₂
    have hhead (hvalue : v = .str s) : ∃ t, Literal t s ('"' :: b) := by
      rw [hvalue] at hv
      obtain ⟨t, ht⟩ := scanValue_str hv
      exact ⟨t, ht.of_infix hbegins.isInfix⟩
    rcases hrest with ⟨b', kvs', hb', hm, rfl⟩ | ⟨-, rfl⟩
    · rcases List.mem_cons.mp hmem with heq | hmem
      · exact hhead (Prod.mk.inj heq).2.symm
      · have hr₃ : skipSpace r₃ <:+ '"' :: b :=
          ((skipSpace_suffix r₃).trans ((stops fuel).value _ _ _ hv)).trans hbegins
        rw [hb'] at hr₃
        have hb'' : skipSpace b' <:+ '"' :: b := ((skipSpace_suffix b').trans (List.suffix_cons _ b')).trans hr₃
        obtain ⟨t, ht⟩ := ih hm hmem
        exact ⟨t, ht.of_infix hb''.isInfix⟩
    · exact hhead (Prod.mk.inj (List.mem_singleton.mp hmem)).2.symm

/-- The strings of an object stand in its text. -/
theorem loads_literal {cs : List Char} {kvs : List (String × Json)} {k s : String} (hloads : loads cs = some (.obj kvs))
    (hget : Assoc.get? k kvs = some (.str s)) : ∃ t, Literal t s cs := by
  obtain ⟨⟨v, r⟩, hscan, hend⟩ := Option.bind_eq_some_iff.mp hloads
  dsimp only at hend
  split_ifs at hend
  obtain rfl := Option.some.inj hend
  have hmem := Assoc.mem_of_get? hget
  have hsuffix : skipSpace cs <:+ cs := skipSpace_suffix cs
  rw [scanValue.eq_def] at hscan
  dsimp only at hscan
  split at hscan
  next b hb =>
    obtain ⟨p, -, heq⟩ := Option.map_eq_some_iff.mp hscan
    cases heq
  next b hb =>
    rw [hb] at hsuffix
    split at hscan
    · obtain ⟨heq, -⟩ := Prod.mk.inj (Option.some.inj hscan)
      obtain rfl : [] = kvs := by injection heq
      cases hmem
    · obtain ⟨⟨pairs, r'⟩, hm, heq⟩ := Option.map_eq_some_iff.mp hscan
      obtain ⟨heq, -⟩ := Prod.mk.inj heq
      obtain rfl : Assoc.ofPairs pairs = kvs := by injection heq
      have hpairs : (k, Json.str s) ∈ pairs :=
        (Assoc.ofPairs_spec (P := fun kv => kv ∈ pairs) fun kv hkv => hkv).2 _ hmem
      have hbegins : skipSpace b <:+ cs := ((skipSpace_suffix b).trans (List.suffix_cons _ b)).trans hsuffix
      obtain ⟨t, ht⟩ := scanMembers_literal hm hpairs
      exact ⟨t, ht.of_infix hbegins.isInfix⟩
  next b hb =>
    split at hscan
    · cases hscan
    · obtain ⟨p, -, heq⟩ := Option.map_eq_some_iff.mp hscan
      cases heq
  · cases hscan
  · cases hscan
  · cases hscan
  · unfold scanNumber at hscan
    dsimp only at hscan
    split at hscan
    · cases hscan
    · split_ifs at hscan <;> cases hscan

/-! ## Objects with one string a line -/

section Lines

def memberLine (kv : String × String) : List Char :=
  [' ', ' '] ++ '"' :: (kv.1.toList ++ '"' :: ([':', ' '] ++ '"' :: (kv.2.toList ++ ['"'])))

theorem split_quote {p w a u : List Char} (hp : '"' ∉ p) (h : a ++ '"' :: u = p ++ '"' :: w) :
    (a = p ∧ u = w) ∨ ∃ a', w = a' ++ '"' :: u ∧ a = p ++ '"' :: a' := by
  rcases List.append_eq_append_iff.mp h with ⟨x, rfl, hu⟩ | ⟨x, rfl, hw⟩
  · cases x with
    | nil => exact .inl ⟨(List.append_nil a).symm, (List.cons.inj hu).2⟩
    | cons y x =>
      obtain ⟨rfl, -⟩ := List.cons.inj hu
      simp at hp
  · cases x with
    | nil => exact .inl ⟨List.append_nil p, (List.cons.inj hw).2.symm⟩
    | cons y x =>
      obtain ⟨rfl, hrest⟩ := List.cons.inj hw
      exact .inr ⟨x, hrest, rfl⟩

/-- What a quote follows begins before the last quote. -/
theorem begins_before_quote {p v b tail : List Char} (htail : '"' ∉ tail) (h : p ++ '"' :: b = v ++ '"' :: tail) :
    p <+: v := by
  rcases List.append_eq_append_iff.mp h with ⟨x, rfl, -⟩ | ⟨x, rfl, hx⟩
  · exact List.prefix_append p x
  · cases x with
    | nil => rw [List.append_nil]
    | cons y x =>
      obtain ⟨rfl, hrest⟩ := List.cons.inj hx
      rw [hrest] at htail
      simp at htail

theorem Plain.quote {cs : List Char} (h : Plain cs) : '"' ∉ cs := fun hmem => (h _ hmem).2.1 rfl

/-- A literal ends at the first quote after plain characters. -/
theorem Spells.closes {t s p b w : List Char} (h : Spells t s) (hp : Plain p) (heq : t ++ '"' :: b = p ++ '"' :: w) :
    t = p := by
  rcases split_quote hp.quote heq with ⟨rfl, -⟩ | ⟨t', -, rfl⟩
  · rfl
  · obtain ⟨p', rfl⟩ := h.escaped p t' rfl
    exact absurd rfl (hp '\\' (by simp)).2.2

/-- What stands on the line of a value that is not plain is plain or shorter than the value. -/
theorem literal_memberLine {k v s : String} {t tail : List Char} (hk : Plain k.toList) (htail : '"' ∉ tail)
    (h : Literal t s (memberLine (k, v) ++ tail)) :
    (t = s.toList ∧ Plain t) ∨ (¬ Plain v.toList ∧ s.toList.length < v.toList.length) := by
  have hplain (ht : Plain t) : t = s.toList ∧ Plain t := ⟨h.spells.eq_of_plain ht, ht⟩
  obtain ⟨a, b, heq⟩ := h.stands
  have hline : a ++ '"' :: (t ++ '"' :: b) =
      [' ', ' '] ++ '"' :: (k.toList ++ '"' :: ([':', ' '] ++ '"' :: (v.toList ++ '"' :: tail))) := by
    simpa [memberLine] using heq
  rcases split_quote (by decide) hline with ⟨-, hkey⟩ | ⟨a, hline, -⟩
  · -- the key
    obtain rfl := h.spells.closes hk hkey
    exact .inl (hplain hk)
  rcases split_quote hk.quote hline.symm with ⟨-, hcolon⟩ | ⟨a, hline, -⟩
  · -- between the key and the value
    have ht := h.spells.closes (p := [':', ' ']) (by simp [Plain]) hcolon
    exact .inl (hplain (ht ▸ by simp [Plain]))
  rcases split_quote (by decide) hline.symm with ⟨-, hvalue⟩ | ⟨a, hline, -⟩
  · by_cases hv : Plain v.toList
    · obtain rfl := h.spells.closes hv hvalue
      exact .inl (hplain hv)
    · rcases lt_or_eq_of_le h.spells.length_le with hlt | hlength
      · exact .inr ⟨hv, lt_of_lt_of_le hlt (begins_before_quote htail hvalue).length_le⟩
      · obtain ⟨ht, hplain⟩ := h.spells.plain hlength.symm
        exact .inl ⟨ht, hplain⟩
  · -- within the value
    have hbegins : a ++ '"' :: t <+: v.toList := by
      refine begins_before_quote (b := b) htail ?_
      rw [List.append_assoc, List.cons_append, hline]
    refine .inr ⟨fun hv => hv.quote (hbegins.subset (by simp)), ?_⟩
    have hlong := hbegins.length_le
    have hle := h.spells.length_le
    rw [List.length_append, List.length_cons] at hlong
    omega

/-- The members of an object after its brace and a new line. -/
def membersText : List (String × String) → List Char
  | [] => ['}']
  | [kv] => memberLine kv ++ ['\n', '}']
  | kv :: fields => (memberLine kv ++ [',']) ++ (['\n'] ++ membersText fields)

/-- A literal stands on one line. -/
theorem Literal.on_line {t u v : List Char} {s : String} (h : Literal t s (u ++ (['\n'] ++ v))) :
    Literal t s u ∨ Literal t s v := by
  have hline : '\n' ∉ '"' :: (t ++ ['"']) := by
    intro hmem
    simp only [List.mem_cons, List.mem_append, List.not_mem_nil, or_false] at hmem
    rcases hmem with h' | hmem | h'
    · exact absurd h' (by decide)
    · exact absurd (h.spells.visible _ hmem) (by decide)
    · exact absurd h' (by decide)
  have hnone := Text.NoOverlap.of_notMem (List.cons_ne_nil _ _) hline
  exact (hnone.infix_append h.stands).imp (fun hu => ⟨hu, h.spells⟩) fun hv => ⟨hv, h.spells⟩

theorem not_literal_of_quote {t u : List Char} {s : String} (hu : '"' ∉ u) : ¬ Literal t s u :=
  fun h => hu (h.stands.subset List.mem_cons_self)

theorem literal_membersText {fields : List (String × String)} {t : List Char} {s : String}
    (hkeys : ∀ kv ∈ fields, Plain kv.1.toList) (h : Literal t s (membersText fields)) :
    (t = s.toList ∧ Plain t) ∨ ∃ kv ∈ fields, ¬ Plain kv.2.toList ∧ s.toList.length < kv.2.toList.length := by
  induction fields with
  | nil => exact absurd h (not_literal_of_quote (by decide))
  | cons kv fields ih =>
    obtain ⟨hkey, hkeys⟩ := List.forall_mem_cons.mp hkeys
    have hhere {tail : List Char} (htail : '"' ∉ tail) (hline : Literal t s (memberLine kv ++ tail)) :
        (t = s.toList ∧ Plain t) ∨
          ∃ kv' ∈ kv :: fields, ¬ Plain kv'.2.toList ∧ s.toList.length < kv'.2.toList.length :=
      (literal_memberLine hkey htail hline).imp id fun hlonger => ⟨kv, List.mem_cons_self, hlonger⟩
    cases fields with
    | nil =>
      rw [membersText, show ['\n', '}'] = ['\n'] ++ ['}'] from rfl] at h
      rcases h.on_line with hline | hline
      · exact hhere List.not_mem_nil (by rwa [List.append_nil])
      · exact absurd hline (not_literal_of_quote (by decide))
    | cons kv' fields =>
      rw [membersText] at h
      · rcases h.on_line with hline | hmore
        · exact hhere (by decide) hline
        · exact (ih hkeys hmore).imp id fun ⟨kv'', hmem, hlonger⟩ => ⟨kv'', List.mem_cons_of_mem _ hmem, hlonger⟩
      · exact List.cons_ne_nil _ _

theorem skipSpace_memberLine (kv : String × String) (r : List Char) :
    skipSpace (memberLine kv ++ r) =
      '"' :: (kv.1.toList ++ '"' :: ([':', ' '] ++ '"' :: (kv.2.toList ++ '"' :: r))) := by
  simp [memberLine, skipSpace, isSpace]

/-- Plain members are read back. -/
theorem scanMembers_membersText {fields : List (String × String)} (fuel : Nat) (r : List Char) (hne : fields ≠ [])
    (hplain : ∀ kv ∈ fields, Plain kv.1.toList ∧ Plain kv.2.toList) (hfuel : fields.length < fuel) :
    scanMembers fuel (skipSpace (membersText fields ++ r)) = some (fields.map fun kv => (kv.1, .str kv.2), r) := by
  induction fields generalizing fuel with
  | nil => exact absurd rfl hne
  | cons kv fields ih =>
    obtain ⟨⟨hk, hv⟩, hplain⟩ := List.forall_mem_cons.mp hplain
    obtain ⟨fuel, rfl⟩ : ∃ n, fuel = n + 2 := ⟨fuel - 2, by simp at hfuel; omega⟩
    cases fields with
    | nil =>
      rw [membersText, List.append_assoc, skipSpace_memberLine, scanMembers]
      simp [scanString_plain hk, scanString_plain hv, skipSpace, isSpace, scanValue]
    | cons kv' fields =>
      have hmore := ih (fuel + 1) (List.cons_ne_nil _ _) hplain (by simp at hfuel ⊢; omega)
      rw [membersText, List.append_assoc, List.append_assoc, skipSpace_memberLine, scanMembers]
      · simp only [scanString_plain hk, Option.bind_some]
        simp [scanString_plain hv, skipSpace, isSpace, scanValue]
        exact hmore
      · exact List.cons_ne_nil _ _

theorem length_lt_membersText (fields : List (String × String)) : fields.length < (membersText fields).length := by
  induction fields with
  | nil => decide
  | cons kv fields ih =>
    cases fields with
    | nil => simp [membersText]
    | cons kv' fields =>
      rw [membersText, List.length_append, List.length_append]
      · simp only [List.length_cons, List.length_append] at ih ⊢
        omega
      · exact List.cons_ne_nil _ _

theorem skipSpace_spaces {cs : List Char} (h : ∀ c ∈ cs, isSpace c = true) (r : List Char) :
    skipSpace (cs ++ r) = skipSpace r := by
  rw [skipSpace, List.dropWhile_append_of_pos h]
  rfl

/-- A word that is no punctuation stands within a key or a value. -/
theorem infix_membersText {fields : List (String × String)} {w : List Char} {d : Char} (hd : d ∈ w)
    (hpunctuation : d ∉ [' ', ':', ',', '}']) (hquote : '"' ∉ w) (hnewline : '\n' ∉ w)
    (h : w <:+: membersText fields) : ∃ kv ∈ fields, w <:+: kv.1.toList ∨ w <:+: kv.2.toList := by
  have hw : w ≠ [] := List.ne_nil_of_mem hd
  have hquotes := Text.NoOverlap.of_notMem hw hquote
  have hlines := Text.NoOverlap.of_notMem hw hnewline
  have hnot {u : List Char} (hu : u ⊆ [' ', ':', ',', '}']) : ¬ w <:+: u :=
    fun hwithin => hpunctuation (hu (hwithin.subset hd))
  have hline {kv : String × String} {tail : List Char} (htail : tail ⊆ [' ', ':', ',', '}'])
      (hwithin : w <:+: memberLine kv ++ tail) : w <:+: kv.1.toList ∨ w <:+: kv.2.toList := by
    have hsplit : memberLine kv ++ tail = [' ', ' '] ++ (['"'] ++ (kv.1.toList ++ (['"'] ++ ([':', ' '] ++ (['"'] ++
        (kv.2.toList ++ (['"'] ++ tail))))))) := by simp [memberLine]
    rw [hsplit] at hwithin
    rcases hquotes.infix_append hwithin with hindent | hwithin
    · exact absurd hindent (hnot (by simp))
    rcases hquotes.infix_append hwithin with hkey | hwithin
    · exact .inl hkey
    rcases hquotes.infix_append hwithin with hcolon | hwithin
    · exact absurd hcolon (hnot (by simp))
    rcases hquotes.infix_append hwithin with hvalue | hrest
    · exact .inr hvalue
    · exact absurd hrest (hnot htail)
  induction fields with
  | nil => exact absurd h (hnot (by simp [membersText]))
  | cons kv fields ih =>
    cases fields with
    | nil =>
      rw [membersText, show ['\n', '}'] = ['\n'] ++ ['}'] from rfl] at h
      rcases hlines.infix_append h with h | h
      · exact ⟨kv, List.mem_cons_self, hline (List.nil_subset _) (by rwa [List.append_nil])⟩
      · exact absurd h (hnot (by simp))
    | cons kv' fields =>
      rw [membersText] at h
      · rcases hlines.infix_append h with h | h
        · exact ⟨kv, List.mem_cons_self, hline (by simp) h⟩
        · obtain ⟨kv'', hmem, hwithin⟩ := ih h
          exact ⟨kv'', List.mem_cons_of_mem _ hmem, hwithin⟩
      · exact List.cons_ne_nil _ _

theorem getLast?_membersText (fields : List (String × String)) : (membersText fields).getLast? = some '}' := by
  induction fields with
  | nil => rfl
  | cons kv fields ih =>
    cases fields with
    | nil => rw [membersText, List.getLast?_append]; rfl
    | cons kv' fields =>
      rw [membersText, List.getLast?_append, List.getLast?_append, ih]
      · rfl
      · exact List.cons_ne_nil _ _

/-- Where every value that is not plain is read back, every value is plain: its literal would stand in
a longer one. -/
theorem plain_of_literals {fields : List (String × String)} (hkeys : ∀ kv ∈ fields, Plain kv.1.toList)
    (hread : ∀ kv ∈ fields, ¬ Plain kv.2.toList → ∃ t, Literal t kv.2 (membersText fields)) :
    ∀ kv ∈ fields, Plain kv.2.toList := by
  obtain ⟨bound, hbound⟩ : ∃ n, ∀ kv ∈ fields, kv.2.toList.length ≤ n :=
    ⟨(fields.map fun kv => kv.2.toList.length).sum, fun kv hkv =>
      List.single_le_sum (fun _ _ => Nat.zero_le _) _ (List.mem_map_of_mem hkv)⟩
  intro kv hkv
  induction hn : bound - kv.2.toList.length using Nat.strong_induction_on generalizing kv with
  | _ n ih =>
    by_contra hbad
    obtain ⟨t, ht⟩ := hread kv hkv hbad
    rcases literal_membersText hkeys ht with ⟨rfl, hplain⟩ | ⟨kv', hkv', hbad', hlonger⟩
    · exact hbad hplain
    · have hle := hbound kv' hkv'
      exact hbad' (ih _ (by omega) kv' hkv' rfl)

/-- An object of plain strings is read back, with white space around it. -/
theorem loads_membersText {fields : List (String × String)} (lead tail : List Char) (hne : fields ≠ [])
    (hplain : ∀ kv ∈ fields, Plain kv.1.toList ∧ Plain kv.2.toList) (hkeys : (fields.map Prod.fst).Nodup)
    (hlead : ∀ c ∈ lead, isSpace c = true) (htail : ∀ c ∈ tail, isSpace c = true) :
    loads (lead ++ '{' :: '\n' :: (membersText fields ++ tail)) =
      some (.obj (fields.map fun kv => (kv.1, .str kv.2))) := by
  obtain ⟨kv, more, rfl⟩ := List.exists_cons_of_ne_nil hne
  have hmembers := scanMembers_membersText (lead ++ '{' :: '\n' :: (membersText (kv :: more) ++ tail)).length
    tail hne hplain (by
      have hlt := length_lt_membersText (kv :: more)
      simp only [List.length_append, List.length_cons] at hlt ⊢
      omega)
  have hpairs : Assoc.ofPairs ((kv :: more).map fun kv => (kv.1, Json.str kv.2)) =
      (kv :: more).map fun kv => (kv.1, .str kv.2) := by
    refine Assoc.ofPairs_of_nodup ?_
    rwa [List.map_map]
  obtain ⟨b, hb⟩ : ∃ b, skipSpace (membersText (kv :: more) ++ tail) = '"' :: b := by
    cases more with
    | nil => exact ⟨_, by rw [membersText, List.append_assoc, skipSpace_memberLine]⟩
    | cons kv' more =>
      have hmore : membersText (kv :: kv' :: more) = memberLine kv ++ [','] ++ (['\n'] ++ membersText (kv' :: more)) := by
        rw [membersText]
        exact List.cons_ne_nil _ _
      exact ⟨_, by rw [hmore, List.append_assoc, List.append_assoc, skipSpace_memberLine]⟩
  have hnewline : skipSpace ('\n' :: (membersText (kv :: more) ++ tail)) = '"' :: b := hb
  have hend : skipSpace tail = [] := by
    have hskip := skipSpace_spaces htail []
    rwa [List.append_nil] at hskip
  rw [hb] at hmembers
  rw [loads, skipSpace_spaces hlead]
  have hvalue : scanValue ((lead ++ '{' :: '\n' :: (membersText (kv :: more) ++ tail)).length + 1)
      (skipSpace ('{' :: '\n' :: (membersText (kv :: more) ++ tail))) =
      some (.obj ((kv :: more).map fun kv => (kv.1, .str kv.2)), tail) := by
    rw [skipSpace_mark (by decide), scanValue, hnewline]
    change (scanMembers _ ('"' :: b)).map (fun p => (Json.obj (Assoc.ofPairs p.1), p.2)) = _
    rw [hmembers, Option.map_some, hpairs]
  rw [hvalue, Option.bind_some, if_pos hend]

end Lines

end Json
