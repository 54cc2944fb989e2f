import OpenHandsSWE.Lib.JsonTokens

/-! The text of a JSON object ends where the object does: neither what is cut off before nor what goes on after
is the text of a value. -/

namespace Json

variable {cs r s : List Char}

/-! ## Strings and numbers -/

/-- The scan of a string does not look beyond its end. -/
def StringEnds (s cs : List Char) : Prop :=
  ∀ t r, scanString cs = some (t, r) → scanString (cs ++ s) = some (t, r ++ s)

theorem map_scanString {x : Char} (h : StringEnds s cs) {t : List Char}
    (hscan : (scanString cs).map (fun p => (x :: p.1, p.2)) = some (t, r)) :
    (scanString (cs ++ s)).map (fun p => (x :: p.1, p.2)) = some (t, r ++ s) := by
  obtain ⟨⟨t', r'⟩, hs, heq⟩ := Option.map_eq_some_iff.mp hscan
  obtain ⟨rfl, rfl⟩ := Prod.mk.inj heq
  rw [h t' r' hs]
  rfl

theorem stringEnds (s cs : List Char) : StringEnds s cs := by
  induction cs using scanString.induct with
  | case1 => exact fun t r h => absurd h.symm (Option.some_ne_none _)
  | case2 r =>
    intro t r' h
    obtain ⟨rfl, rfl⟩ := Prod.mk.inj (Option.some.inj h)
    rfl
  | case3 r ih | case4 r ih | case5 r ih | case6 r ih | case7 r ih | case8 r ih | case9 r ih | case10 r ih =>
    exact fun t r h => map_scanString ih h
  | case11 a b c d r hunit =>
    intro t r' h
    rw [scanString, hunit] at h
    cases h
  | case12 a b c d u hunit hhigh a' b' c' d' r' hlow =>
    intro t r h
    rw [scanString, hunit] at h
    simp [hhigh, hlow] at h
  | case13 a b c d u hunit hhigh a' b' c' d' r' v hlow hrange ih =>
    intro t r h
    rw [scanString, hunit] at h
    simp only [if_pos hhigh, hlow, if_pos hrange] at h
    obtain ⟨x, hx, h⟩ := Option.bind_eq_some_iff.mp h
    have hrest := map_scanString ih h
    simp only [List.cons_append]
    rw [scanString, hunit]
    simp only [if_pos hhigh, hlow, if_pos hrange, hx, Option.bind_some]
    exact hrest
  | case14 a b c d u hunit hhigh a' b' c' d' r' v hlow hrange =>
    intro t r h
    rw [scanString, hunit] at h
    simp [hhigh, hlow, hrange] at h
  | case15 a b c d r' u hunit hhigh hnone =>
    intro t r h
    rw [scanString.eq_def] at h
    simp only [hunit, if_pos hhigh] at h
    cases h
  | case16 a b c d r' u hunit hlow ih =>
    intro t r h
    rw [scanString, hunit] at h
    simp only [if_neg hlow] at h
    obtain ⟨x, hx, h⟩ := Option.bind_eq_some_iff.mp h
    have hrest := map_scanString ih h
    simp only [List.cons_append]
    rw [scanString, hunit]
    simp only [if_neg hlow, hx, Option.bind_some]
    exact hrest
  | case17 tail h1 h2 h3 h4 h5 h6 h7 h8 h9 =>
    intro t r h
    rw [scanString.eq_12 tail h1 h2 h3 h4 h5 h6 h7 h8 h9] at h
    cases h
  | case18 c r h1 h2 h3 h4 h5 h6 h7 h8 h9 h10 h11 hlt =>
    intro t r' h
    rw [scanString.eq_13 c r h1 h2 h3 h4 h5 h6 h7 h8 h9 h10 h11, if_pos hlt] at h
    cases h
  | case19 c r h1 h2 h3 h4 h5 h6 h7 h8 h9 h10 h11 hge ih =>
    intro t r' h
    rw [scanString.eq_13 c r h1 h2 h3 h4 h5 h6 h7 h8 h9 h10 h11, if_neg hge] at h
    have hrest := map_scanString ih h
    rw [List.cons_append, scanString]
    · rw [if_neg hge]
      exact hrest
    all_goals simp_all

/-- What ends a value inside an object or an array. -/
def EndsValue (r : List Char) : Prop := ∃ c r', r = c :: r' ∧ (isSpace c = true ∨ c = ',' ∨ c = ']' ∨ c = '}')

theorem splitWhile_append {p : Char → Bool} (h : cs.dropWhile p ≠ []) :
    (cs ++ s).takeWhile p = cs.takeWhile p ∧ (cs ++ s).dropWhile p = cs.dropWhile p ++ s := by
  have hlength : (cs.takeWhile p).length ≠ cs.length := by
    intro hall
    have hsum := congrArg List.length (List.takeWhile_append_dropWhile (p := p) (l := cs))
    rw [List.length_append, hall] at hsum
    exact h (List.length_eq_zero_iff.mp (by omega))
  rw [List.takeWhile_append, if_neg hlength, List.dropWhile_append, if_neg (by simpa using h)]
  exact ⟨rfl, rfl⟩

theorem skipSpace_append (h : skipSpace cs ≠ []) : skipSpace (cs ++ s) = skipSpace cs ++ s := (splitWhile_append h).2

theorem EndsValue.ne_nil (h : EndsValue r) : r ≠ [] := by
  obtain ⟨c, r', rfl, -⟩ := h
  exact List.cons_ne_nil c r'

/-- What ends a value is nothing that could go on with a number. -/
theorem EndsValue.boundary (h : EndsValue r) : ∃ c r', r = c :: r' ∧ c.isDigit = false ∧ c ≠ '.' ∧ c ≠ 'e' ∧ c ≠ 'E' := by
  obtain ⟨c, r', rfl, hc⟩ := h
  refine ⟨c, r', rfl, ?_⟩
  rcases hc with hc | rfl | rfl | rfl
  · simp only [isSpace, Bool.or_eq_true, beq_iff_eq] at hc
    rcases hc with ((rfl | rfl) | rfl) | rfl <;> decide
  all_goals decide

theorem scanDigits_append (h : (scanDigits cs).2 ≠ []) :
    scanDigits (cs ++ s) = ((scanDigits cs).1, (scanDigits cs).2 ++ s) := by
  obtain ⟨htake, hdrop⟩ := splitWhile_append (s := s) h
  rw [scanDigits, htake, hdrop]
  rfl

theorem scanWhole_append {n : Nat} (h : scanWhole cs = some (n, r)) (hr : r ≠ []) :
    scanWhole (cs ++ s) = some (n, r ++ s) := by
  cases cs with
  | nil => cases h
  | cons c cs =>
    rw [scanWhole] at h
    rw [List.cons_append, scanWhole]
    split_ifs at h ⊢ with hzero hdigit
    · obtain ⟨rfl, rfl⟩ := Prod.mk.inj (Option.some.inj h)
      rfl
    · obtain ⟨rfl, rfl⟩ := Prod.mk.inj (Option.some.inj h)
      obtain ⟨htake, hdrop⟩ := splitWhile_append (s := s) hr
      rw [← List.cons_append, htake, hdrop]

theorem scanSign_append (h : (scanSign cs).2 ≠ []) : scanSign (cs ++ s) = ((scanSign cs).1, (scanSign cs).2 ++ s) := by
  have hother : ∀ c r, c ≠ '-' → c ≠ '+' → scanSign (c :: r) = (none, c :: r) := by
    intro c r hminus hplus
    unfold scanSign
    split
    next heq => exact absurd (List.cons.inj heq).1 hminus
    next heq => exact absurd (List.cons.inj heq).1 hplus
    · rfl
  cases cs with
  | nil => exact absurd rfl h
  | cons c cs =>
    by_cases hminus : c = '-'
    · subst hminus
      rfl
    · by_cases hplus : c = '+'
      · subst hplus
        rfl
      · rw [List.cons_append, hother c _ hminus hplus, hother c _ hminus hplus]
        rfl

/-- The exponent, when what is left ends the value. -/
theorem scanExp_append (h : EndsValue (scanExp cs).2) : scanExp (cs ++ s) = ((scanExp cs).1, (scanExp cs).2 ++ s) := by
  cases cs with
  | nil => exact absurd rfl h.ne_nil
  | cons e r =>
    by_cases he : e = 'e' ∨ e = 'E'
    · by_cases hdigits : (scanDigits (scanSign r).2).1 = []
      · -- without digits the letter is left
        have hleft : (scanExp (e :: r)).2 = e :: r := by simp [scanExp, he, hdigits]
        rw [hleft] at h
        obtain ⟨c, r', heq, -, -, hc⟩ := h.boundary
        obtain ⟨rfl, -⟩ := List.cons.inj heq
        exact absurd he (not_or.mpr hc)
      · have hleft : (scanExp (e :: r)).2 = (scanDigits (scanSign r).2).2 := by simp [scanExp, he, hdigits]
        rw [hleft] at h
        have hsign : (scanSign r).2 ≠ [] := fun hnil => hdigits (by rw [hnil]; rfl)
        have happ := scanDigits_append (s := s) h.ne_nil
        simp [scanExp, he, hdigits, scanSign_append hsign, happ]
    · simp [scanExp, he]

/-- The fraction, when what is left does not begin with a point. -/
theorem scanFrac_append (h : (scanFrac cs).2 ≠ []) (hpoint : (scanFrac cs).2.head? ≠ some '.') :
    scanFrac (cs ++ s) = ((scanFrac cs).1, (scanFrac cs).2 ++ s) := by
  have hother : ∀ c r, c ≠ '.' → scanFrac (c :: r) = ([], c :: r) := fun c r hc =>
    scanFrac_of_ne fun d hd => by rwa [← Option.some.inj hd]
  cases cs with
  | nil => exact absurd rfl h
  | cons c cs =>
    by_cases hc : c = '.'
    · subst hc
      by_cases hdigits : (scanDigits cs).1 = []
      · have hleft : (scanFrac ('.' :: cs)).2 = '.' :: cs := by simp [scanFrac, hdigits]
        exact absurd (by rw [hleft]; rfl) hpoint
      · have hleft : (scanFrac ('.' :: cs)).2 = (scanDigits cs).2 := by simp [scanFrac, hdigits]
        rw [hleft] at h
        simp [scanFrac, hdigits, scanDigits_append (s := s) h]
    · rw [List.cons_append, hother c _ hc, hother c _ hc]
      rfl

/-- What follows the digits before the point. -/
theorem fraction_append {r₁ : List Char} (hr : EndsValue (scanExp (scanFrac r₁).2).2) :
    scanFrac (r₁ ++ s) = ((scanFrac r₁).1, (scanFrac r₁).2 ++ s) ∧
      scanExp ((scanFrac r₁).2 ++ s) = ((scanExp (scanFrac r₁).2).1, (scanExp (scanFrac r₁).2).2 ++ s) := by
  refine ⟨scanFrac_append (fun hnil => ?_) (fun hpoint => ?_), scanExp_append hr⟩
  · rw [hnil] at hr
    exact hr.ne_nil rfl
  · obtain ⟨tail, htail⟩ := List.head?_eq_some_iff.mp hpoint
    have hexp : scanExp ('.' :: tail) = (none, '.' :: tail) := by simp [scanExp]
    rw [htail, hexp] at hr
    obtain ⟨c, r', heq, -, hc, -⟩ := hr.boundary
    exact hc (List.cons.inj heq).1.symm

/-- A number, after the digits before its point. -/
def numberAfter (neg : Bool) (n : Nat) (r : List Char) : Json × List Char :=
  if h : (scanFrac r).1 ≠ [] ∨ (scanExp (scanFrac r).2).1 ≠ none then
    (.float ⟨neg, n, (scanFrac r).1, (scanExp (scanFrac r).2).1, h⟩, (scanExp (scanFrac r).2).2)
  else (.int (if neg then -(n : Int) else n), r)

theorem scanNumber_eq (cs : List Char) : scanNumber cs =
    (scanWhole (if cs.head? == some '-' then cs.tail else cs)).map fun p => numberAfter (cs.head? == some '-') p.1 p.2 := by
  unfold scanNumber
  dsimp only
  split
  next hwhole => rw [hwhole]; rfl
  next n r hwhole =>
    rw [hwhole, Option.map_some, numberAfter]
    split_ifs <;> rfl

theorem numberAfter_append {neg : Bool} {n : Nat} (hr : EndsValue (numberAfter neg n r).2) :
    numberAfter neg n (r ++ s) = ((numberAfter neg n r).1, (numberAfter neg n r).2 ++ s) := by
  by_cases hfloat : (scanFrac r).1 ≠ [] ∨ (scanExp (scanFrac r).2).1 ≠ none
  · have hleft : (numberAfter neg n r).2 = (scanExp (scanFrac r).2).2 := by rw [numberAfter, dif_pos hfloat]
    rw [hleft] at hr
    obtain ⟨hfrac, hexp⟩ := fraction_append (s := s) hr
    simp [numberAfter, hfrac, hexp, hfloat]
  · rw [numberAfter, dif_neg hfloat] at hr
    obtain ⟨c, r', rfl, -, hpoint, he, hE⟩ := hr.boundary
    have hfrac : ∀ r, scanFrac (c :: r) = ([], c :: r) := fun r =>
      scanFrac_of_ne fun d hd => by rwa [← Option.some.inj hd]
    have hexp : ∀ r, scanExp (c :: r) = (none, c :: r) := fun r => by simp [scanExp, he, hE]
    simp [numberAfter, hfrac, hexp]

theorem scanNumber_begins {v : Json} (h : scanNumber cs = some (v, r)) :
    ∃ c cs', cs = c :: cs' ∧ (c.isDigit = true ∨ c = '-') := by
  cases cs with
  | nil => cases h
  | cons c cs =>
    refine ⟨c, cs, rfl, ?_⟩
    by_cases hminus : c = '-'
    · exact Or.inr hminus
    · have hneg : ((c :: cs).head? == some '-') = false := by simpa using hminus
      rw [scanNumber_eq, hneg, if_neg Bool.false_ne_true] at h
      obtain ⟨⟨n, r'⟩, hwhole, -⟩ := Option.map_eq_some_iff.mp h
      rw [scanWhole] at hwhole
      split_ifs at hwhole with hzero hdigit
      · subst hzero
        exact Or.inl rfl
      · exact Or.inl hdigit

theorem scanNumber_append {v : Json} (h : scanNumber cs = some (v, r)) (hr : EndsValue r) :
    scanNumber (cs ++ s) = some (v, r ++ s) := by
  have hne : cs ≠ [] := by
    rintro rfl
    cases h
  obtain ⟨c, cs, rfl⟩ := List.exists_cons_of_ne_nil hne
  have hbase : (if ((c :: cs) ++ s).head? == some '-' then ((c :: cs) ++ s).tail else (c :: cs) ++ s) =
      (if (c :: cs).head? == some '-' then (c :: cs).tail else c :: cs) ++ s := by
    rw [List.cons_append, List.head?_cons, List.head?_cons]
    split_ifs <;> rfl
  rw [scanNumber_eq] at h
  obtain ⟨⟨n, r₁⟩, hwhole, hafter⟩ := Option.map_eq_some_iff.mp h
  have hleft : (numberAfter ((c :: cs).head? == some '-') n r₁).2 = r := congrArg Prod.snd hafter
  have hr₁ : r₁ ≠ [] := fun hnil => hr.ne_nil (by rw [← hleft, hnil]; rfl)
  rw [scanNumber_eq, hbase, scanWhole_append hwhole hr₁, Option.map_some]
  have happ := numberAfter_append (s := s) (hleft ▸ hr)
  rw [hleft] at happ
  exact congrArg some (happ.trans (congrArg (·, r ++ s) (congrArg Prod.fst hafter)))

/-! ## Values -/

/-- The three scanners do not look beyond what they take, with any more fuel. -/
structure Takes (s : List Char) (fuel : Nat) : Prop where
  value : ∀ cs v r, scanValue fuel cs = some (v, r) → EndsValue r → ∀ more, fuel ≤ more →
    scanValue more (cs ++ s) = some (v, r ++ s)
  items : ∀ cs xs r, scanItems fuel cs = some (xs, r) → ∀ more, fuel ≤ more → scanItems more (cs ++ s) = some (xs, r ++ s)
  members : ∀ cs kvs r, scanMembers fuel cs = some (kvs, r) → ∀ more, fuel ≤ more →
    scanMembers more (cs ++ s) = some (kvs, r ++ s)

section

variable {fuel more : Nat} {b : List Char} {v : Json}

/-- White space and a mark end a value. -/
theorem endsValue_of_skipSpace {c : Char} (h : skipSpace r = c :: b) (hc : c = ',' ∨ c = ']' ∨ c = '}') : EndsValue r := by
  cases r with
  | nil => cases h
  | cons d r =>
    by_cases hd : isSpace d = true
    · exact ⟨d, r, rfl, Or.inl hd⟩
    · rw [skipSpace, List.dropWhile_cons_of_neg (by simpa using hd)] at h
      obtain ⟨rfl, -⟩ := List.cons.inj h
      exact ⟨d, r, rfl, Or.inr hc⟩

theorem skipSpace_append_cons {c : Char} (h : skipSpace cs = c :: b) (s : List Char) : skipSpace (cs ++ s) = c :: (b ++ s) := by
  rw [skipSpace_append (by rw [h]; exact List.cons_ne_nil c b), h, List.cons_append]

theorem scanValue_nil (fuel : Nat) : scanValue fuel [] = none := by
  cases fuel <;> rfl

theorem scanItems_nil (fuel : Nat) : scanItems fuel [] = none := by
  cases fuel with
  | zero => rfl
  | succ fuel => rw [scanItems, scanValue_nil, Option.bind_none]

theorem scanMembers_nil (fuel : Nat) : scanMembers fuel [] = none := by
  cases fuel <;> rfl

theorem scanValue_obj_next {c : Char} (hb : skipSpace cs = c :: b) (hc : c ≠ '}') :
    scanValue (fuel + 1) ('{' :: cs) = (scanMembers fuel (skipSpace cs)).map fun p => (.obj (Assoc.ofPairs p.1), p.2) := by
  rw [scanValue, hb]
  split
  next heq => exact absurd (List.cons.inj heq).1 hc
  · rfl

theorem scanValue_arr_next {c : Char} (hb : skipSpace cs = c :: b) (hc : c ≠ ']') :
    scanValue (fuel + 1) ('[' :: cs) = (scanItems fuel (skipSpace cs)).map fun p => (.arr p.1, p.2) := by
  rw [scanValue, hb]
  split
  next heq => exact absurd (List.cons.inj heq).1 hc
  · rfl

theorem scanObject_append (h : Takes s fuel) (hscan : scanValue (fuel + 1) ('{' :: cs) = some (v, r)) (hmore : fuel ≤ more) :
    scanValue (more + 1) ('{' :: (cs ++ s)) = some (v, r ++ s) := by
  cases hb : skipSpace cs with
  | nil =>
    rw [scanValue, hb] at hscan
    dsimp only at hscan
    rw [scanMembers_nil] at hscan
    cases hscan
  | cons c b =>
    have hb' := skipSpace_append_cons hb s
    by_cases hc : c = '}'
    · subst hc
      rw [scanValue, hb] at hscan
      obtain ⟨rfl, rfl⟩ := Prod.mk.inj (Option.some.inj hscan)
      rw [scanValue, hb']
      rfl
    · rw [scanValue_obj_next hb hc] at hscan
      obtain ⟨⟨kvs, r'⟩, hm, heq⟩ := Option.map_eq_some_iff.mp hscan
      obtain ⟨rfl, rfl⟩ := Prod.mk.inj heq
      rw [scanValue_obj_next hb' hc, hb', ← List.cons_append, ← hb, h.members _ _ _ hm more hmore]
      rfl

theorem scanArray_append (h : Takes s fuel) (hscan : scanValue (fuel + 1) ('[' :: cs) = some (v, r)) (hmore : fuel ≤ more) :
    scanValue (more + 1) ('[' :: (cs ++ s)) = some (v, r ++ s) := by
  cases hb : skipSpace cs with
  | nil =>
    rw [scanValue, hb] at hscan
    dsimp only at hscan
    rw [scanItems_nil] at hscan
    cases hscan
  | cons c b =>
    have hb' := skipSpace_append_cons hb s
    by_cases hc : c = ']'
    · subst hc
      rw [scanValue, hb] at hscan
      obtain ⟨rfl, rfl⟩ := Prod.mk.inj (Option.some.inj hscan)
      rw [scanValue, hb']
      rfl
    · rw [scanValue_arr_next hb hc] at hscan
      obtain ⟨⟨xs, r'⟩, hm, heq⟩ := Option.map_eq_some_iff.mp hscan
      obtain ⟨rfl, rfl⟩ := Prod.mk.inj heq
      rw [scanValue_arr_next hb' hc, hb', ← List.cons_append, ← hb, h.items _ _ _ hm more hmore]
      rfl

theorem scanValue_append (h : Takes s fuel) (hscan : scanValue (fuel + 1) cs = some (v, r)) (hr : EndsValue r)
    (hmore : fuel ≤ more) : scanValue (more + 1) (cs ++ s) = some (v, r ++ s) := by
  have hall := hscan
  rw [scanValue.eq_def] at hscan
  dsimp only at hscan
  split at hscan
  next b =>
    obtain ⟨⟨t, r'⟩, ht, heq⟩ := Option.map_eq_some_iff.mp hscan
    obtain ⟨rfl, rfl⟩ := Prod.mk.inj heq
    rw [List.cons_append, scanValue, stringEnds s b t r' ht]
    rfl
  next b => exact scanObject_append h hall hmore
  next b => exact scanArray_append h hall hmore
  next b =>
    obtain ⟨rfl, rfl⟩ := Prod.mk.inj (Option.some.inj hscan)
    rfl
  next b =>
    obtain ⟨rfl, rfl⟩ := Prod.mk.inj (Option.some.inj hscan)
    rfl
  next b =>
    obtain ⟨rfl, rfl⟩ := Prod.mk.inj (Option.some.inj hscan)
    rfl
  · obtain ⟨c, cs', rfl, hc⟩ := scanNumber_begins hscan
    have hnumber := scanNumber_append (s := s) hscan hr
    rw [List.cons_append] at hnumber ⊢
    rw [scanValue_number more hc, hnumber]

theorem scanItems_append (h : Takes s fuel) {xs : List Json} (hscan : scanItems (fuel + 1) cs = some (xs, r))
    (hmore : fuel ≤ more) : scanItems (more + 1) (cs ++ s) = some (xs, r ++ s) := by
  rw [scanItems] at hscan ⊢
  obtain ⟨⟨v, r'⟩, hv, hscan⟩ := Option.bind_eq_some_iff.mp hscan
  dsimp only at hscan
  split at hscan
  next b hb =>
    obtain ⟨⟨ys, r''⟩, hm, heq⟩ := Option.map_eq_some_iff.mp hscan
    obtain ⟨rfl, rfl⟩ := Prod.mk.inj heq
    have hne : skipSpace b ≠ [] := fun hnil => by
      rw [hnil, scanItems_nil] at hm
      cases hm
    rw [h.value _ _ _ hv (endsValue_of_skipSpace hb (by decide)) more hmore, Option.bind_some]
    dsimp only
    rw [skipSpace_append_cons hb s]
    change (scanItems more (skipSpace (b ++ s))).map _ = _
    rw [skipSpace_append hne, h.items _ _ _ hm more hmore]
    rfl
  next b hb =>
    obtain ⟨rfl, rfl⟩ := Prod.mk.inj (Option.some.inj hscan)
    rw [h.value _ _ _ hv (endsValue_of_skipSpace hb (by decide)) more hmore, Option.bind_some]
    dsimp only
    rw [skipSpace_append_cons hb s]
    rfl
  · cases hscan

theorem scanMembers_append (h : Takes s fuel) {kvs : List (String × Json)} (hscan : scanMembers (fuel + 1) cs = some (kvs, r))
    (hmore : fuel ≤ more) : scanMembers (more + 1) (cs ++ s) = some (kvs, r ++ s) := by
  obtain ⟨b, k, r₁, r₂, v, r₃, rfl, hk, hr₂, hv, hrest⟩ := scanMembers_step hscan
  have hne : skipSpace r₂ ≠ [] := fun hnil => by
    rw [hnil, scanValue_nil] at hv
    cases hv
  have hvalue : EndsValue r₃ → scanValue more (skipSpace (r₂ ++ s)) = some (v, r₃ ++ s) := fun hends => by
    rw [skipSpace_append hne]
    exact h.value _ _ _ hv hends more hmore
  rw [List.cons_append, scanMembers, stringEnds s b k r₁ hk, Option.bind_some]
  dsimp only
  rw [skipSpace_append_cons hr₂ s]
  change (scanValue more (skipSpace (r₂ ++ s))).bind _ = _
  rcases hrest with ⟨b', kvs', hb', hm, rfl⟩ | ⟨hb', rfl⟩
  · have hne' : skipSpace b' ≠ [] := fun hnil => by
      rw [hnil, scanMembers_nil] at hm
      cases hm
    rw [hvalue (endsValue_of_skipSpace hb' (by decide)), Option.bind_some]
    dsimp only
    rw [skipSpace_append_cons hb' s]
    change (scanMembers more (skipSpace (b' ++ s))).map _ = _
    rw [skipSpace_append hne', h.members _ _ _ hm more hmore]
    rfl
  · rw [hvalue (endsValue_of_skipSpace hb' (by decide)), Option.bind_some]
    dsimp only
    rw [skipSpace_append_cons hb' s]
    rfl

end

theorem takes (s : List Char) (fuel : Nat) : Takes s fuel := by
  induction fuel with
  | zero =>
    exact ⟨fun _ _ _ h => absurd h.symm (Option.some_ne_none _), fun _ _ _ h => absurd h.symm (Option.some_ne_none _),
      fun _ _ _ h => absurd h.symm (Option.some_ne_none _)⟩
  | succ fuel ih =>
    refine ⟨fun cs v r h hr more hmore => ?_, fun cs xs r h more hmore => ?_, fun cs kvs r h more hmore => ?_⟩
    · obtain ⟨more, rfl⟩ := Nat.exists_eq_add_of_le' (Nat.one_le_of_lt hmore)
      exact scanValue_append ih h hr (Nat.le_of_succ_le_succ hmore)
    · obtain ⟨more, rfl⟩ := Nat.exists_eq_add_of_le' (Nat.one_le_of_lt hmore)
      exact scanItems_append ih h (Nat.le_of_succ_le_succ hmore)
    · obtain ⟨more, rfl⟩ := Nat.exists_eq_add_of_le' (Nat.one_le_of_lt hmore)
      exact scanMembers_append ih h (Nat.le_of_succ_le_succ hmore)

/-- After an object only white space may follow. -/
theorem loads_append {b : List Char} {v : Json} (h : loads ('{' :: b) = some v) (s : List Char) :
    loads ('{' :: b ++ s) = if skipSpace s = [] then some v else none := by
  have hopen : ∀ cs : List Char, skipSpace ('{' :: cs) = '{' :: cs := fun cs => List.dropWhile_cons_of_neg (by decide)
  rw [loads, hopen] at h
  obtain ⟨⟨w, r⟩, hscan, hend⟩ := Option.bind_eq_some_iff.mp h
  dsimp only at hend
  split_ifs at hend with hblank
  have hnext : scanValue (('{' :: (b ++ s)).length + 1) ('{' :: (b ++ s)) = some (w, r ++ s) :=
    scanObject_append (takes s _) hscan (by simp)
  have hrest : skipSpace (r ++ s) = skipSpace s :=
    List.dropWhile_append_of_pos fun c hc => List.dropWhile_eq_nil_iff.mp hblank c hc
  rw [List.cons_append, loads, hopen, hnext, Option.bind_some, hrest, hend]

/-- What is cut off before the end of an object is no value. -/
theorem loads_prefix_eq_none {b : List Char} {v : Json} (h : loads ('{' :: b ++ s) = some v) (hs : skipSpace s ≠ []) :
    loads ('{' :: b) = none := by
  cases hcut : loads ('{' :: b) with
  | none => rfl
  | some w =>
    rw [loads_append hcut, if_neg hs] at h
    cases h

/-! ## The text is printed -/

/-- No control character: all of it stands on one line. -/
def Printed (cs : List Char) : Prop := ∀ c ∈ cs, 32 ≤ c.toNat

@[simp] theorem printed_nil : Printed [] := fun _ h => absurd h List.not_mem_nil

@[simp] theorem printed_cons {c : Char} : Printed (c :: cs) ↔ 32 ≤ c.toNat ∧ Printed cs := List.forall_mem_cons

@[simp] theorem printed_append : Printed (cs ++ s) ↔ Printed cs ∧ Printed s := List.forall_mem_append

theorem Printed.newline_notMem (h : Printed cs) : '\n' ∉ cs := fun hmem => absurd (h '\n' hmem) (by decide)

theorem printed_hexDigit : ∀ d < 16, 32 ≤ (hexDigit d).toNat := by decide

theorem printed_of_digits (h : ∀ c ∈ cs, c.isDigit = true) : Printed cs := by
  intro c hc
  have hdigit := h c hc
  rw [Char.isDigit, Bool.and_eq_true, decide_eq_true_eq, decide_eq_true_eq] at hdigit
  exact (by decide : 32 ≤ '0'.toNat).trans hdigit.1

theorem printed_escapeUnit (u : Nat) : Printed (escapeUnit u) := by
  have hdigit : ∀ n, 32 ≤ (hexDigit (n % 16)).toNat := fun n => printed_hexDigit _ (Nat.mod_lt n (by decide))
  simp [escapeUnit, hdigit]

theorem printed_escapeChar (c : Char) : Printed (escapeChar c) := by
  unfold escapeChar
  split_ifs with _ _ _ _ _ _ _ hprinted
  -- the characters that have an escape of their own
  iterate 7 simp
  · exact printed_cons.mpr ⟨hprinted.1, printed_nil⟩
  · exact printed_escapeUnit _
  · exact printed_append.mpr ⟨printed_escapeUnit _, printed_escapeUnit _⟩

theorem printed_dumpsString (s : String) : Printed (dumpsString s) := by
  refine printed_cons.mpr ⟨by decide, printed_append.mpr ⟨fun c hc => ?_, by simp⟩⟩
  obtain ⟨d, -, hd⟩ := List.mem_flatMap.mp hc
  exact printed_escapeChar d c hd

theorem printed_toDigits (n : Nat) : Printed (Nat.toDigits 10 n) := printed_of_digits (toDigits_digits n)

theorem printed_digitsText (ds : List (Fin 10)) : Printed (digitsText ds) := by
  refine printed_of_digits fun c hc => ?_
  obtain ⟨d, -, rfl⟩ := List.mem_map.mp hc
  exact isDigit_digitChar d

theorem printed_dumpsInt (n : Int) : Printed (dumpsInt n) := by
  unfold dumpsInt
  split_ifs
  · exact printed_cons.mpr ⟨by simp, printed_toDigits _⟩
  · exact printed_toDigits _

theorem printed_dumpsFloat (x : FloatLit) : Printed (dumpsFloat x) := by
  have hneg : Printed (if x.neg then ['-'] else []) := by
    cases x.neg <;> simp
  have hfrac : Printed (fracText x.frac) := by
    unfold fracText
    split_ifs
    · exact printed_nil
    · exact printed_cons.mpr ⟨by decide, printed_digitsText _⟩
  have hexp : Printed (expText x.exp) := by
    cases x.exp with
    | none => exact printed_nil
    | some e =>
      have hsign : Printed (signText e.sign) := by
        rcases e.sign with - | - | -
        all_goals simp [signText]
      exact printed_cons.mpr ⟨by decide, printed_append.mpr ⟨hsign, printed_digitsText _⟩⟩
  exact printed_append.mpr ⟨hneg, printed_append.mpr ⟨printed_toDigits _, printed_append.mpr ⟨hfrac, hexp⟩⟩⟩

mutual
theorem printed_dumps : ∀ v : Json, Printed (dumps v)
  | .null => by simp [dumps]
  | .bool true => by simp [dumps]
  | .bool false => by simp [dumps]
  | .int n => printed_dumpsInt n
  | .float x => printed_dumpsFloat x
  | .str s => printed_dumpsString s
  | .arr [] => by simp [dumps]
  | .arr (x :: xs) => printed_cons.mpr ⟨by decide, printed_append.mpr ⟨printed_dumps x, printed_dumpsItems xs⟩⟩
  | .obj [] => by simp [dumps]
  | .obj ((k, x) :: kvs) => by simp [dumps, printed_dumpsString k, printed_dumps x, printed_dumpsMembers kvs]

theorem printed_dumpsItems : ∀ xs : List Json, Printed (dumpsItems xs)
  | [] => by simp [dumpsItems]
  | x :: xs => by simp [dumpsItems, printed_dumps x, printed_dumpsItems xs]

theorem printed_dumpsMembers : ∀ kvs : List (String × Json), Printed (dumpsMembers kvs)
  | [] => by simp [dumpsMembers]
  | (k, x) :: kvs => by simp [dumpsMembers, printed_dumpsString k, printed_dumps x, printed_dumpsMembers kvs]
end

theorem dumpsMembers_ends (kvs : List (String × Json)) : ∃ body, dumpsMembers kvs = body ++ ['}'] := by
  induction kvs with
  | nil => exact ⟨[], rfl⟩
  | cons kv kvs ih =>
    obtain ⟨body, hbody⟩ := ih
    refine ⟨',' :: ' ' :: (dumpsString kv.1 ++ [':', ' '] ++ dumps kv.2 ++ body), ?_⟩
    rw [dumpsMembers, hbody]
    simp

theorem dumps_obj_braces (kvs : List (String × Json)) : ∃ body, dumps (.obj kvs) = '{' :: (body ++ ['}']) := by
  cases kvs with
  | nil => exact ⟨[], rfl⟩
  | cons kv kvs =>
    obtain ⟨body, hbody⟩ := dumpsMembers_ends kvs
    refine ⟨dumpsString kv.1 ++ [':', ' '] ++ dumps kv.2 ++ body, ?_⟩
    rw [dumps, hbody]
    simp

end Json
