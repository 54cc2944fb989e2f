import OpenHandsSWE.Lib.Text

/-! The double nearest to a number, and the one that Python's `float` reads from a text. -/

namespace Binary64

/-- The nearest integer; from half way to the even one. -/
def roundEven (x : ℚ) : ℤ :=
  if x - ⌊x⌋ < 1 / 2 then ⌊x⌋
  else if 1 / 2 < x - ⌊x⌋ then ⌊x⌋ + 1
  else if Even ⌊x⌋ then ⌊x⌋ else ⌊x⌋ + 1

/-- The exponent of the last of the 53 bits. -/
def lastPlace (q : ℚ) : ℤ := max (Int.log 2 q - 52) (-1074)

/-- The double nearest to a number that is not negative, unless it is beyond the largest one. -/
def nearest (q : ℚ) : Option ℚ :=
  let rounded : ℚ := roundEven (q / 2 ^ lastPlace q) * 2 ^ lastPlace q
  if rounded < 2 ^ 1024 then some rounded else none

inductive Value where
  | finite (negative : Bool) (magnitude : ℚ)
  | infinite (negative : Bool)
  | nan
deriving DecidableEq

def ofRat (negative : Bool) (q : ℚ) : Value :=
  match nearest q with
  | some m => .finite negative m
  | none => .infinite negative

/-! ## Reading -/

/-- Digits at the head of a text, with single underscores between them. -/
def moreDigits : List Char → List Char × List Char
  | [] => ([], [])
  | c :: cs =>
    if c.isDigit then (c :: (moreDigits cs).1, (moreDigits cs).2)
    else
      match c, cs with
      | '_', d :: ds => if d.isDigit then (d :: (moreDigits ds).1, (moreDigits ds).2) else ([], '_' :: d :: ds)
      | _, _ => ([], c :: cs)

def digitPart : List Char → List Char × List Char
  | [] => ([], [])
  | c :: cs => if c.isDigit then moreDigits (c :: cs) else ([], c :: cs)

def fraction : List Char → List Char × List Char
  | '.' :: cs => digitPart cs
  | cs => ([], cs)

def sign : List Char → Bool × List Char
  | '-' :: cs => (true, cs)
  | '+' :: cs => (false, cs)
  | cs => (false, cs)

/-- The exponent at the end of a text. -/
def exponent : List Char → Option ℤ
  | [] => some 0
  | e :: cs =>
    if e = 'e' ∨ e = 'E' then
      let digits := digitPart (sign cs).2
      if digits.1 = [] ∨ digits.2 ≠ [] then none
      else
        let n : ℤ := Nat.ofDigitChars 10 digits.1 0
        some (if (sign cs).1 then -n else n)
    else none

def decimal (negative : Bool) (cs : List Char) : Option Value :=
  let whole := digitPart cs
  let frac := fraction whole.2
  if whole.1 = [] ∧ frac.1 = [] then none
  else (exponent frac.2).map fun e : ℤ =>
    ofRat negative ((Nat.ofDigitChars 10 (whole.1 ++ frac.1) 0 : ℚ) * 10 ^ (e - frac.1.length))

/-- The values that are no numbers have names. -/
def named (negative : Bool) (cs : List Char) : Option Value :=
  let word := String.ofList (cs.map Char.toLower)
  if word = "inf" ∨ word = "infinity" then some (.infinite negative)
  else if word = "nan" then some .nan
  else none

/-- The value of a text in ASCII. -/
def parse (cs : List Char) : Option Value :=
  let signed := sign (Text.strip cs)
  (decimal signed.1 signed.2).or (named signed.1 signed.2)

/-! ## Whole numbers -/

/-- A whole number that is a double. -/
def Exact (n : ℕ) : Prop := nearest n = some (n : ℚ)

instance (n : ℕ) : Decidable (Exact n) := inferInstanceAs (Decidable (nearest n = some (n : ℚ)))

theorem roundEven_natCast (n : ℕ) : roundEven n = n := by
  have hfloor : ⌊(n : ℚ)⌋ = n := Int.floor_natCast n
  rw [roundEven, hfloor, if_pos]
  norm_num

/-- Where the last place is no more than one, nothing is rounded. -/
theorem rounded_natCast {n : ℕ} (h : lastPlace n ≤ 0) :
    ((roundEven (n / 2 ^ lastPlace n) : ℤ) : ℚ) * 2 ^ lastPlace n = n := by
  obtain ⟨k, hk⟩ : ∃ k : ℕ, lastPlace n = -(k : ℤ) := ⟨(-lastPlace n).toNat, by omega⟩
  have hscaled : (n : ℚ) / 2 ^ lastPlace n = ((n * 2 ^ k : ℕ) : ℚ) := by
    rw [hk, zpow_neg, div_inv_eq_mul, zpow_natCast]
    push_cast
    rfl
  rw [hscaled, roundEven_natCast, Int.cast_natCast, ← hscaled, div_mul_cancel₀]
  positivity

/-- Whole numbers of at most 53 bits are doubles. -/
theorem exact_of_lt {n : ℕ} (h : n < 2 ^ 53) : Exact n := by
  have hlog : Nat.log 2 n < 53 := by
    rcases Nat.eq_zero_or_pos n with rfl | hpos
    · decide
    · exact Nat.log_lt_of_lt_pow hpos.ne' h
  have hplace : lastPlace n ≤ 0 := by
    rw [lastPlace, Int.log_natCast]
    omega
  have hsmall : (n : ℚ) < 2 ^ 1024 := by
    have hlt : n < 2 ^ 1024 := h.trans (Nat.pow_lt_pow_right (by decide) (by decide))
    exact_mod_cast hlt
  rw [Exact, nearest, rounded_natCast hplace]
  exact if_pos hsmall

/-- A whole number is rounded to a whole number. -/
theorem nearest_natCast {n : ℕ} {q : ℚ} (h : nearest n = some q) : ∃ k : ℤ, q = k := by
  unfold nearest at h
  dsimp only at h
  split_ifs at h
  obtain rfl := Option.some.inj h
  rcases le_or_gt (lastPlace n) 0 with hplace | hplace
  · exact ⟨n, by rw [rounded_natCast hplace, Int.cast_natCast]⟩
  · obtain ⟨k, hk⟩ := Int.eq_ofNat_of_zero_le hplace.le
    refine ⟨roundEven (n / 2 ^ lastPlace n) * 2 ^ k, ?_⟩
    rw [Int.cast_mul, hk, zpow_natCast]
    push_cast
    rfl

theorem moreDigits_eq {cs : List Char} (h : ∀ c ∈ cs, c.isDigit = true) : moreDigits cs = (cs, []) := by
  induction cs with
  | nil => rfl
  | cons c cs ih =>
    rw [moreDigits.eq_def]
    dsimp only
    rw [if_pos (h c List.mem_cons_self), ih fun d hd => h d (List.mem_cons_of_mem c hd)]

/-- A number in decimal digits is read, and rounded. -/
theorem parse_toDigits (n : ℕ) : parse (Nat.toDigits 10 n) = some (ofRat false n) := by
  have hdigits : ∀ c ∈ Nat.toDigits 10 n, c.isDigit = true :=
    fun c hc => Nat.isDigit_of_mem_toDigits (by decide) (by decide) hc
  have hstrip : Text.strip (Nat.toDigits 10 n) = Nat.toDigits 10 n :=
    Text.strip_of_clean fun c hc => Text.isSpace_of_isDigit (hdigits c hc)
  have hsign : sign (Nat.toDigits 10 n) = (false, Nat.toDigits 10 n) := by
    unfold sign
    split
    next cs hcs => exact absurd (hdigits '-' (hcs ▸ List.mem_cons_self)) (by decide)
    next cs hcs => exact absurd (hdigits '+' (hcs ▸ List.mem_cons_self)) (by decide)
    · rfl
  obtain ⟨c, cs, hcons⟩ : ∃ c cs, Nat.toDigits 10 n = c :: cs :=
    List.exists_cons_of_ne_nil Nat.toDigits_ne_nil
  have hwhole : digitPart (Nat.toDigits 10 n) = (Nat.toDigits 10 n, []) := by
    rw [hcons] at hdigits ⊢
    rw [digitPart, if_pos (hdigits c List.mem_cons_self), moreDigits_eq hdigits]
  have hdecimal : decimal false (Nat.toDigits 10 n) = some (ofRat false n) := by
    have hne : Nat.toDigits 10 n ≠ [] := Nat.toDigits_ne_nil
    simp [decimal, hwhole, fraction, exponent, hne, Nat.ofDigitChars_ten_toDigits]
  rw [parse, hstrip, hsign, hdecimal]
  rfl

end Binary64
