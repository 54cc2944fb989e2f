import OpenHandsSWE.Lib.JsonText

/-! Reading back what was printed: the scanner inverts the printer on every well-formed value. -/

namespace Json

/-! ## Characters and strings -/

theorem hexValue_hexDigit : ∀ d < 16, hexValue (hexDigit d) = some d := by decide

theorem hexUnit_escape {u : Nat} (hu : u < 65536) :
    hexUnit (hexDigit (u / 4096 % 16)) (hexDigit (u / 256 % 16)) (hexDigit (u / 16 % 16))
      (hexDigit (u % 16)) = some u := by
  have h (d : Nat) : hexValue (hexDigit (d % 16)) = some (d % 16) :=
    hexValue_hexDigit _ (Nat.mod_lt _ (by decide))
  simp only [hexUnit, h, Option.bind_eq_bind, Option.bind_some, pure, Option.some.injEq]
  omega

theorem charOf_toNat (c : Char) : charOf c.toNat = some c := by
  have hc : c.toNat.isValidChar := c.valid
  simp only [charOf, if_pos hc, Char.ofNat_toNat]

theorem scanString_escapeUnit {c : Char} (hc : c.toNat < 65536) (r : List Char) :
    scanString (escapeUnit c.toNat ++ r) = (scanString r).map fun p => (c :: p.1, p.2) := by
  have hv : c.toNat.isValidChar := c.valid
  have hns : ¬ (55296 ≤ c.toNat ∧ c.toNat < 56320) := by
    simp only [Nat.isValidChar] at hv
    omega
  simp only [escapeUnit, List.cons_append, List.nil_append, scanString, hexUnit_escape hc,
    if_neg hns, charOf_toNat, Option.bind_some]

/-- Beyond the basic plane: the high and the low surrogate together are the character. -/
theorem scanString_escapePair {c : Char} (hc : 65536 ≤ c.toNat) (r : List Char) :
    scanString (escapeUnit (55296 + (c.toNat - 65536) / 1024) ++
        escapeUnit (56320 + (c.toNat - 65536) % 1024) ++ r) =
      (scanString r).map fun p => (c :: p.1, p.2) := by
  have hv : c.toNat.isValidChar := c.valid
  have hmax : c.toNat < 1114112 := by
    simp only [Nat.isValidChar] at hv
    omega
  have hi : 55296 + (c.toNat - 65536) / 1024 < 56320 := by omega
  have lo : 56320 + (c.toNat - 65536) % 1024 < 57344 := by omega
  have hback : 65536 + (55296 + (c.toNat - 65536) / 1024 - 55296) * 1024 +
      (56320 + (c.toNat - 65536) % 1024 - 56320) = c.toNat := by omega
  simp only [escapeUnit, List.cons_append, List.nil_append, scanString,
    hexUnit_escape (u := 55296 + (c.toNat - 65536) / 1024) (by omega),
    hexUnit_escape (u := 56320 + (c.toNat - 65536) % 1024) (by omega),
    Nat.le_add_right, hi, lo, and_self, if_true, hback, charOf_toNat, Option.bind_some]

theorem scanString_escapeChar (c : Char) (r : List Char) :
    scanString (escapeChar c ++ r) = (scanString r).map fun p => (c :: p.1, p.2) := by
  unfold escapeChar
  split_ifs with h1 h2 h3 h4 h5 h6 h7 h8 h9
  · subst h1; simp [scanString]
  · subst h2; simp [scanString]
  · subst h3; simp [scanString]
  · subst h4; simp [scanString]
  · subst h5; simp [scanString]
  · subst h6; simp [scanString]
  · subst h7; simp [scanString]
  · have h32 : ¬ c.toNat < 32 := by omega
    simp only [List.cons_append, List.nil_append]
    rw [scanString.eq_def]
    split <;> simp_all
  · exact scanString_escapeUnit h9 r
  · exact scanString_escapePair (by omega) r

theorem scanString_body (cs r : List Char) :
    scanString (cs.flatMap escapeChar ++ '"' :: r) = some (cs, r) := by
  induction cs with
  | nil => simp [scanString]
  | cons c cs ih =>
    rw [List.flatMap_cons, List.append_assoc, scanString_escapeChar, ih, Option.map_some]

/-! ## Numbers -/

def NoDigit : List Char → Prop
  | [] => True
  | c :: _ => c.isDigit = false

/-- What may follow a number: nothing that would continue it. -/
def Boundary : List Char → Prop
  | [] => True
  | c :: _ => c.isDigit = false ∧ c ≠ '.' ∧ c ≠ 'e' ∧ c ≠ 'E'

theorem Boundary.noDigit {r : List Char} (h : Boundary r) : NoDigit r := by
  cases r with
  | nil => trivial
  | cons c r => exact h.1

theorem takeWhile_digits {ds r : List Char} (hd : ∀ c ∈ ds, c.isDigit = true) (hr : NoDigit r) :
    (ds ++ r).takeWhile Char.isDigit = ds ∧ (ds ++ r).dropWhile Char.isDigit = r := by
  have hr' : r.takeWhile Char.isDigit = [] ∧ r.dropWhile Char.isDigit = r := by
    cases r with
    | nil => simp
    | cons c r =>
      have hc : c.isDigit = false := hr
      simp [hc]
  rw [List.takeWhile_append_of_pos hd, List.dropWhile_append_of_pos hd, hr'.1, hr'.2]
  simp

theorem toDigits_digits (n : Nat) : ∀ c ∈ Nat.toDigits 10 n, c.isDigit = true :=
  fun _ hc => Nat.isDigit_of_mem_toDigits (by decide) (by decide) hc

theorem digitChar_zero : ∀ n < 10, n.digitChar = '0' → n = 0 := by decide

theorem toDigits_head (n : Nat) :
    ∃ c cs, Nat.toDigits 10 n = c :: cs ∧ (c = '0' → n = 0 ∧ cs = []) := by
  induction n using Nat.strong_induction_on with
  | _ n ih =>
    by_cases h : n < 10
    · exact ⟨n.digitChar, [], Nat.toDigits_of_lt_base h, fun h0 => ⟨digitChar_zero n h h0, rfl⟩⟩
    · obtain ⟨c, cs, hc, h0⟩ := ih (n / 10) (by omega)
      refine ⟨c, cs ++ [(n % 10).digitChar], ?_, fun hz => ?_⟩
      · rw [Nat.toDigits_of_base_le (by decide) (by omega), hc, List.cons_append]
      · have := (h0 hz).1
        omega

theorem scanWhole_toDigits (n : Nat) {r : List Char} (hr : NoDigit r) :
    scanWhole (Nat.toDigits 10 n ++ r) = some (n, r) := by
  obtain ⟨c, cs, hc, h0⟩ := toDigits_head n
  have hd := toDigits_digits n
  obtain ⟨ht, hw⟩ := takeWhile_digits hd hr
  have hdigit : c.isDigit = true := hd c (by simp [hc])
  rw [hc, List.cons_append] at ht hw ⊢
  simp only [scanWhole]
  split_ifs with hz
  · obtain ⟨rfl, rfl⟩ := h0 hz
    rfl
  · rw [ht, hw, ← hc, Nat.ofDigitChars_ten_toDigits]

theorem digitOf_digitChar : ∀ d : Fin 10, digitOf (digitChar d) = d := by decide

theorem isDigit_digitChar : ∀ d : Fin 10, (digitChar d).isDigit = true := by decide

theorem scanDigits_digitsText (ds : List (Fin 10)) {r : List Char} (hr : NoDigit r) :
    scanDigits (digitsText ds ++ r) = (ds, r) := by
  have hd : ∀ c ∈ digitsText ds, c.isDigit = true := by
    intro c hc
    obtain ⟨d, _, rfl⟩ := List.mem_map.mp hc
    exact isDigit_digitChar d
  obtain ⟨ht, hw⟩ := takeWhile_digits hd hr
  have he : digitOf ∘ digitChar = id := funext digitOf_digitChar
  rw [scanDigits, ht, hw, digitsText, List.map_map, he, List.map_id]

theorem scanFrac_of_ne {r : List Char} (h : ∀ c ∈ r.head?, c ≠ '.') : scanFrac r = ([], r) := by
  unfold scanFrac
  split
  · exact absurd rfl (h '.' rfl)
  · rfl

theorem scanExp_boundary {r : List Char} (hr : Boundary r) : scanExp r = (none, r) := by
  cases r with
  | nil => rfl
  | cons c r =>
    have h : ¬ (c = 'e' ∨ c = 'E') := by
      rintro (h | h)
      · exact hr.2.2.1 h
      · exact hr.2.2.2 h
    simp only [scanExp, if_neg h]

theorem scanSign_signText (sign : Option Bool) {ds : List (Fin 10)} (hne : ds ≠ [])
    (r : List Char) :
    scanSign (signText sign ++ (digitsText ds ++ r)) = (sign, digitsText ds ++ r) := by
  have h : ∀ d : Fin 10, digitChar d ≠ '-' ∧ digitChar d ≠ '+' := by decide
  cases sign with
  | some b => cases b <;> rfl
  | none =>
    cases ds with
    | nil => exact absurd rfl hne
    | cons d ds =>
      simp only [signText, digitsText, List.map_cons, List.cons_append, List.nil_append]
      unfold scanSign
      split
      · rename_i heq; exact absurd (List.cons.inj heq).1 (h d).1
      · rename_i heq; exact absurd (List.cons.inj heq).1 (h d).2
      · rfl

theorem scanExp_expText (e : Option JsonExponent) {r : List Char} (hr : Boundary r) :
    scanExp (expText e ++ r) = (e, r) := by
  cases e with
  | none => exact scanExp_boundary hr
  | some e =>
    have hsign := scanSign_signText e.sign e.nonempty r
    have hdigits := scanDigits_digitsText e.digits hr.noDigit
    simp only [expText, List.cons_append, List.append_assoc, scanExp, true_or, if_true, hsign,
      hdigits]
    rw [dif_neg e.nonempty]

theorem expText_head (e : Option JsonExponent) {r : List Char} (hr : Boundary r) :
    NoDigit (expText e ++ r) ∧ ∀ c ∈ (expText e ++ r).head?, c ≠ '.' := by
  cases e with
  | some e => simp [expText, NoDigit]
  | none =>
    refine ⟨hr.noDigit, ?_⟩
    cases r with
    | nil => simp [expText]
    | cons c r => simpa [expText] using hr.2.1

theorem scanFrac_fracText (ds : List (Fin 10)) {r : List Char} (hr : NoDigit r)
    (hdot : ∀ c ∈ r.head?, c ≠ '.') :
    NoDigit (fracText ds ++ r) ∧ scanFrac (fracText ds ++ r) = (ds, r) := by
  by_cases h : ds = []
  · subst h
    exact ⟨hr, scanFrac_of_ne hdot⟩
  · have hd := scanDigits_digitsText ds hr
    simp only [fracText, if_neg h, List.cons_append, scanFrac, hd]
    exact ⟨by simp [NoDigit], trivial⟩

theorem digit_ne_minus {c : Char} (h : c.isDigit = true) : c ≠ '-' := by
  rintro rfl
  revert h
  decide

theorem scanNumber_dumpsInt (n : Int) {r : List Char} (hr : Boundary r) :
    scanNumber (dumpsInt n ++ r) = some (.int n, r) := by
  have hfrac : scanFrac r = ([], r) := (scanFrac_fracText [] hr.noDigit (expText_head none hr).2).2
  have hw := scanWhole_toDigits n.natAbs hr.noDigit
  unfold dumpsInt scanNumber
  split_ifs with hn
  · have hback : -(n.natAbs : Int) = n := by omega
    simp only [List.cons_append, List.head?_cons, List.tail_cons, beq_self_eq_true, if_true, hw,
      hfrac, scanExp_boundary hr, hback]
    simp
  · have hback : (n.natAbs : Int) = n := by omega
    have hhead : ((Nat.toDigits 10 n.natAbs ++ r).head? == some '-') = false := by
      obtain ⟨c, cs, hc, _⟩ := toDigits_head n.natAbs
      have hdigit : c.isDigit = true := toDigits_digits n.natAbs c (by simp [hc])
      simp [hc, digit_ne_minus hdigit]
    simp only [hhead, if_false, Bool.false_eq_true, hw, hfrac, scanExp_boundary hr, hback]
    simp

theorem scanNumber_dumpsFloat (x : FloatLit) {r : List Char} (hr : Boundary r) :
    scanNumber (dumpsFloat x ++ r) = some (.float x, r) := by
  obtain ⟨hnd, hdot⟩ := expText_head x.exp hr
  obtain ⟨hnd', hfrac⟩ := scanFrac_fracText x.frac hnd hdot
  have hw := scanWhole_toDigits x.whole hnd'
  obtain ⟨c, cs, hc, _⟩ := toDigits_head x.whole
  have hdigit : c.isDigit = true := toDigits_digits x.whole c (by simp [hc])
  have hneg : ((dumpsFloat x ++ r).head? == some '-') = x.neg := by
    unfold dumpsFloat
    cases x.neg <;> simp [hc, digit_ne_minus hdigit]
  have htail : (if x.neg = true then (dumpsFloat x ++ r).tail else dumpsFloat x ++ r) =
      Nat.toDigits 10 x.whole ++ (fracText x.frac ++ (expText x.exp ++ r)) := by
    unfold dumpsFloat
    cases x.neg <;> simp
  unfold scanNumber
  simp only [hneg, htail, hw, hfrac, scanExp_expText x.exp hr]
  rw [dif_pos x.isFloat]

/-! ## Values -/

/-- What a printed value may start with: no white space, no closing bracket. -/
def Opening (c : Char) : Prop := isSpace c = false ∧ c ≠ ']' ∧ c ≠ '}'

instance (c : Char) : Decidable (Opening c) := inferInstanceAs (Decidable (_ ∧ _ ∧ _))

theorem opening_of_digit {c : Char} (h : c.isDigit = true) : Opening c := by
  refine ⟨?_, ?_, ?_⟩
  · by_contra hs
    simp only [isSpace, Bool.not_eq_false, Bool.or_eq_true, beq_iff_eq] at hs
    rcases hs with ((rfl | rfl) | rfl) | rfl <;> revert h <;> decide
  all_goals rintro rfl; revert h; decide

theorem dumpsInt_head (n : Int) : ∃ c cs, dumpsInt n = c :: cs ∧ (c.isDigit = true ∨ c = '-') := by
  unfold dumpsInt
  split_ifs
  · exact ⟨_, _, rfl, .inr rfl⟩
  · obtain ⟨c, cs, hc, _⟩ := toDigits_head n.natAbs
    exact ⟨c, cs, hc, .inl (toDigits_digits n.natAbs c (by simp [hc]))⟩

theorem dumpsFloat_head (x : FloatLit) :
    ∃ c cs, dumpsFloat x = c :: cs ∧ (c.isDigit = true ∨ c = '-') := by
  obtain ⟨c, cs, hc, _⟩ := toDigits_head x.whole
  have hdigit : c.isDigit = true := toDigits_digits x.whole c (by simp [hc])
  unfold dumpsFloat
  cases x.neg
  · exact ⟨c, cs ++ (fracText x.frac ++ expText x.exp), by simp [hc], .inl hdigit⟩
  · exact ⟨_, _, rfl, .inr rfl⟩

theorem opening_of_number {c : Char} (h : c.isDigit = true ∨ c = '-') : Opening c := by
  rcases h with h | rfl
  · exact opening_of_digit h
  · decide

theorem dumps_head (v : Json) : ∃ c cs, dumps v = c :: cs ∧ Opening c := by
  cases v with
  | null => exact ⟨'n', ['u', 'l', 'l'], by rw [dumps], by decide⟩
  | bool b =>
    cases b
    · exact ⟨'f', ['a', 'l', 's', 'e'], by rw [dumps], by decide⟩
    · exact ⟨'t', ['r', 'u', 'e'], by rw [dumps], by decide⟩
  | int n =>
    obtain ⟨c, cs, hc, hd⟩ := dumpsInt_head n
    exact ⟨c, cs, by rw [dumps, hc], opening_of_number hd⟩
  | float x =>
    obtain ⟨c, cs, hc, hd⟩ := dumpsFloat_head x
    exact ⟨c, cs, by rw [dumps, hc], opening_of_number hd⟩
  | str s => exact ⟨'"', s.toList.flatMap escapeChar ++ ['"'], by rw [dumps, dumpsString], by decide⟩
  | arr xs =>
    cases xs with
    | nil => exact ⟨'[', [']'], by rw [dumps], by decide⟩
    | cons x xs => exact ⟨'[', dumps x ++ dumpsItems xs, by rw [dumps], by decide⟩
  | obj kvs =>
    cases kvs with
    | nil => exact ⟨'{', ['}'], by rw [dumps], by decide⟩
    | cons kv kvs => exact ⟨'{', _, by rw [dumps], by decide⟩

theorem skipSpace_of_opening {c : Char} (h : Opening c) (cs : List Char) :
    skipSpace (c :: cs) = c :: cs := by
  simp [skipSpace, h.1]

theorem skipSpace_dumps (v : Json) (r : List Char) : skipSpace (dumps v ++ r) = dumps v ++ r := by
  obtain ⟨c, cs, hc, ho⟩ := dumps_head v
  rw [hc, List.cons_append, skipSpace_of_opening ho]

theorem dumps_length_pos (v : Json) : 0 < (dumps v).length := by
  obtain ⟨c, cs, hc, _⟩ := dumps_head v
  simp [hc]

theorem scanValue_number (fuel : Nat) {c : Char} {cs : List Char}
    (h : c.isDigit = true ∨ c = '-') : scanValue (fuel + 1) (c :: cs) = scanNumber (c :: cs) := by
  have hne : c ≠ '"' ∧ c ≠ '{' ∧ c ≠ '[' ∧ c ≠ 'n' ∧ c ≠ 't' ∧ c ≠ 'f' := by
    rcases h with h | rfl
    · refine ⟨?_, ?_, ?_, ?_, ?_, ?_⟩ <;> rintro rfl <;> revert h <;> decide
    · decide
  rw [scanValue.eq_def]
  simp only
  split <;> simp_all

theorem scanValue_arr (fuel : Nat) {c : Char} (h : Opening c) (cs : List Char) :
    scanValue (fuel + 1) ('[' :: c :: cs) =
      (scanItems fuel (c :: cs)).map fun p => (.arr p.1, p.2) := by
  rw [scanValue, skipSpace_of_opening h]
  split
  · rename_i heq; exact absurd (List.cons.inj heq).1 h.2.1
  · rfl

theorem scanValue_obj (fuel : Nat) {c : Char} (h : Opening c) (cs : List Char) :
    scanValue (fuel + 1) ('{' :: c :: cs) =
      (scanMembers fuel (c :: cs)).map fun p => (.obj (Assoc.ofPairs p.1), p.2) := by
  rw [scanValue, skipSpace_of_opening h]
  split
  · rename_i heq; exact absurd (List.cons.inj heq).1 h.2.2
  · rfl

theorem skipSpace_mark {c : Char} (h : isSpace c = false) (cs : List Char) :
    skipSpace (c :: cs) = c :: cs := by
  simp [skipSpace, h]

theorem skipSpace_blank (cs : List Char) : skipSpace (' ' :: cs) = skipSpace cs := by
  simp [skipSpace, isSpace]

/-- One member up to its value, when the text after the value does not continue it. -/
theorem scanMembers_value {fuel : Nat} (k : String) {v : Json} {r : List Char}
    (h : scanValue fuel (dumps v ++ r) = some (v, r)) :
    scanMembers (fuel + 1) (dumpsString k ++ ':' :: ' ' :: (dumps v ++ r)) =
      match skipSpace r with
      | ',' :: r' => (scanMembers fuel (skipSpace r')).map fun q => ((k, v) :: q.1, q.2)
      | '}' :: r' => some ([(k, v)], r')
      | _ => none := by
  simp only [dumpsString, List.cons_append, List.append_assoc, List.nil_append, scanMembers,
    scanString_body, Option.bind_some, skipSpace_mark (c := ':') (by decide), skipSpace_blank,
    skipSpace_dumps, h, String.ofList_toList]
  -- the match stated above and that of `scanMembers` may be two declarations
  all_goals rfl

theorem boundary_dumpsItems (xs : List Json) (r : List Char) : Boundary (dumpsItems xs ++ r) := by
  cases xs <;> simp [dumpsItems, Boundary]

theorem boundary_dumpsMembers (kvs : List (String × Json)) (r : List Char) :
    Boundary (dumpsMembers kvs ++ r) := by
  rcases kvs with _ | ⟨⟨k, x⟩, kvs⟩ <;> simp [dumpsMembers, Boundary]

mutual
theorem scanValue_dumps : ∀ (v : Json) (fuel : Nat) (r : List Char), v.WellFormed →
    (dumps v).length ≤ fuel → Boundary r → scanValue fuel (dumps v ++ r) = some (v, r)
  | v, 0, _, _, hl, _ => absurd hl (by have := dumps_length_pos v; omega)
  | .null, _ + 1, _, _, _, _ => by simp [dumps, scanValue]
  | .bool b, _ + 1, _, _, _, _ => by cases b <;> simp [dumps, scanValue]
  | .int n, fuel + 1, r, _, _, hr => by
    obtain ⟨c, cs, hc, hd⟩ := dumpsInt_head n
    have hn := scanNumber_dumpsInt n hr
    rw [hc, List.cons_append] at hn
    rw [dumps, hc, List.cons_append, scanValue_number fuel hd, hn]
  | .float x, fuel + 1, r, _, _, hr => by
    obtain ⟨c, cs, hc, hd⟩ := dumpsFloat_head x
    have hn := scanNumber_dumpsFloat x hr
    rw [hc, List.cons_append] at hn
    rw [dumps, hc, List.cons_append, scanValue_number fuel hd, hn]
  | .str s, _ + 1, r, _, _, _ => by
    simp only [dumps, dumpsString, List.cons_append, List.append_assoc, List.nil_append, scanValue,
      scanString_body, Option.map_some, String.ofList_toList]
  | .arr [], _ + 1, _, _, _, _ => by simp [dumps, scanValue, skipSpace, isSpace]
  | .arr (x :: xs), fuel + 1, r, hw, hl, _ => by
    obtain ⟨c, cs, hc, ho⟩ := dumps_head x
    rw [dumps, List.length_cons] at hl
    have hi := scanItems_dumps x xs fuel r hw (by omega)
    rw [hc, List.cons_append, List.cons_append] at hi
    rw [dumps, hc, List.cons_append, List.cons_append, List.cons_append, scanValue_arr fuel ho, hi,
      Option.map_some]
  | .obj [], _ + 1, _, _, _, _ => by simp [dumps, scanValue, skipSpace, isSpace]
  | .obj ((k, x) :: kvs), fuel + 1, r, hw, hl, _ => by
    rw [dumps, List.length_cons] at hl
    have hm := scanMembers_dumps k x kvs fuel r hw.2 (by omega)
    simp only [dumpsString, List.cons_append] at hm
    simp only [dumps, dumpsString, List.cons_append]
    rw [scanValue_obj fuel (by decide), hm, Option.map_some, Assoc.ofPairs_of_nodup hw.1]

theorem scanItems_dumps : ∀ (x : Json) (xs : List Json) (fuel : Nat) (r : List Char),
    WellFormedItems (x :: xs) → (dumps x ++ dumpsItems xs).length ≤ fuel →
    scanItems fuel (dumps x ++ dumpsItems xs ++ r) = some (x :: xs, r)
  | x, xs, 0, _, _, hl => absurd hl (by have := dumps_length_pos x; simp only [List.length_append]; omega)
  | x, [], fuel + 1, r, hw, hl => by
    simp only [dumpsItems, List.length_append, List.length_cons, List.length_nil] at hl
    have hx := scanValue_dumps x fuel (']' :: r) hw.1 (by omega) (by simp [Boundary])
    rw [dumpsItems, List.append_assoc, List.cons_append, List.nil_append, scanItems, hx,
      Option.bind_some]
    simp [skipSpace, isSpace]
  | x, y :: ys, fuel + 1, r, hw, hl => by
    have hb := boundary_dumpsItems (y :: ys) r
    simp only [dumpsItems, List.length_append, List.length_cons] at hl
    have hx := scanValue_dumps x fuel _ hw.1 (by omega) hb
    have hy := scanItems_dumps y ys fuel r hw.2 (by simp only [List.length_append]; omega)
    rw [List.append_assoc, scanItems, hx, Option.bind_some, dumpsItems]
    simp only [List.cons_append, skipSpace_mark (c := ',') (by decide), skipSpace_blank]
    rw [List.append_assoc, skipSpace_dumps, ← List.append_assoc, hy, Option.map_some]

theorem scanMembers_dumps : ∀ (k : String) (x : Json) (kvs : List (String × Json)) (fuel : Nat)
    (r : List Char), WellFormedMembers ((k, x) :: kvs) →
    (dumpsString k ++ [':', ' '] ++ dumps x ++ dumpsMembers kvs).length ≤ fuel →
    scanMembers fuel (dumpsString k ++ [':', ' '] ++ dumps x ++ dumpsMembers kvs ++ r) =
      some ((k, x) :: kvs, r)
  | k, x, kvs, 0, _, _, hl => absurd hl (by simp)
  | k, x, [], fuel + 1, r, hw, hl => by
    simp only [dumpsMembers, List.length_append, List.length_cons, List.length_nil] at hl
    have hx := scanValue_dumps x fuel ('}' :: r) hw.1 (by omega) (by simp [Boundary])
    have hm := scanMembers_value k hx
    simp only [dumpsMembers, List.append_assoc, List.cons_append, List.nil_append, hm]
    simp [skipSpace, isSpace]
  | k, x, (l, y) :: kvs, fuel + 1, r, hw, hl => by
    have hb := boundary_dumpsMembers ((l, y) :: kvs) r
    simp only [dumpsMembers, List.length_append, List.length_cons, List.length_nil] at hl
    have hx := scanValue_dumps x fuel _ hw.1 (by omega) hb
    have hm := scanMembers_value k hx
    have hy := scanMembers_dumps l y kvs fuel r hw.2 (by
      simp only [List.length_append, List.length_cons, List.length_nil]
      omega)
    simp only [List.append_assoc, List.cons_append, List.nil_append] at hy ⊢
    rw [hm, dumpsMembers]
    simp only [List.append_assoc, List.cons_append, List.nil_append,
      skipSpace_mark (c := ',') (by decide), skipSpace_blank]
    simp only [dumpsString, List.cons_append] at hy ⊢
    rw [skipSpace_mark (by decide), hy, Option.map_some]
end

theorem loads_dumps {v : Json} (h : v.WellFormed) : loads (dumps v) = some v := by
  have hs := skipSpace_dumps v []
  have hv := scanValue_dumps v ((dumps v).length + 1) [] h (by omega) trivial
  rw [List.append_nil] at hs hv
  rw [loads, hs, hv, Option.bind_some]
  simp [skipSpace]

end Json
