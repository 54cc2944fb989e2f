import Mathlib

/-! Dates and times with their ISO texts, whose order is that of the times as long as all are in UTC. -/

/-- A number below a power of ten, with leading zeros. -/
def padded : Nat → Nat → List Char
  | 0, _ => []
  | width + 1, n => padded width (n / 10) ++ [Nat.digitChar (n % 10)]

theorem length_padded (width n : Nat) : (padded width n).length = width := by
  induction width generalizing n with
  | zero => rfl
  | succ width ih => rw [padded, List.length_append, ih, List.length_singleton]

section Order

variable {α : Type*} [LinearOrder α]

/-- Texts that begin with parts of one length are ordered by these first. -/
theorem append_lt_append_iff {xs ys as bs : List α} (h : xs.length = ys.length) :
    xs ++ as < ys ++ bs ↔ xs < ys ∨ xs = ys ∧ as < bs := by
  induction xs generalizing ys with
  | nil =>
    obtain rfl : ys = [] := List.length_eq_zero_iff.mp h.symm
    simp
  | cons x xs ih =>
    cases ys with
    | nil => cases h
    | cons y ys =>
      have hrest : xs.length = ys.length := Nat.succ.inj h
      rw [List.cons_append, List.cons_append, List.cons_lt_cons_iff, List.cons_lt_cons_iff, ih hrest, List.cons.injEq]
      tauto

end Order

theorem digitChar_lt_iff : ∀ m < 10, ∀ n < 10, Nat.digitChar m < Nat.digitChar n ↔ m < n := by decide

theorem digitChar_inj : ∀ m < 10, ∀ n < 10, Nat.digitChar m = Nat.digitChar n → m = n := by decide

theorem padded_inj {width m n : Nat} (hm : m < 10 ^ width) (hn : n < 10 ^ width) (h : padded width m = padded width n) :
    m = n := by
  induction width generalizing m n with
  | zero => omega
  | succ width ih =>
    rw [pow_succ] at hm hn
    obtain ⟨hhigh, hlow⟩ := List.append_inj h (by rw [length_padded, length_padded])
    have htens := ih (Nat.div_lt_of_lt_mul (by linarith)) (Nat.div_lt_of_lt_mul (by linarith)) hhigh
    have hones := digitChar_inj _ (Nat.mod_lt m (by decide)) _ (Nat.mod_lt n (by decide)) (List.singleton_inj.mp hlow)
    omega

theorem padded_lt_iff {width m n : Nat} (hm : m < 10 ^ width) (hn : n < 10 ^ width) :
    padded width m < padded width n ↔ m < n := by
  induction width generalizing m n with
  | zero =>
    obtain ⟨rfl, rfl⟩ : m = 0 ∧ n = 0 := by omega
    exact iff_of_false (lt_irrefl _) (lt_irrefl _)
  | succ width ih =>
    rw [pow_succ] at hm hn
    have hm' : m / 10 < 10 ^ width := Nat.div_lt_of_lt_mul (by linarith)
    have hn' : n / 10 < 10 ^ width := Nat.div_lt_of_lt_mul (by linarith)
    have hlow : [Nat.digitChar (m % 10)] < [Nat.digitChar (n % 10)] ↔ m % 10 < n % 10 := by
      rw [List.cons_lt_cons_iff, digitChar_lt_iff _ (Nat.mod_lt m (by decide)) _ (Nat.mod_lt n (by decide))]
      simp
    have hequal : padded width (m / 10) = padded width (n / 10) ↔ m / 10 = n / 10 :=
      ⟨padded_inj hm' hn', fun h => by rw [h]⟩
    rw [padded, padded, append_lt_append_iff (by rw [length_padded, length_padded]), ih hm' hn', hequal, hlow]
    omega

/-- A number and a separator, and then the rest of the text. -/
theorem padded_append_lt_iff {width m n : Nat} (hm : m < 10 ^ width) (hn : n < 10 ^ width) {as bs : List Char} :
    padded width m ++ as < padded width n ++ bs ↔ m < n ∨ m = n ∧ as < bs := by
  have hequal : padded width m = padded width n ↔ m = n := ⟨padded_inj hm hn, fun h => by rw [h]⟩
  rw [append_lt_append_iff (by rw [length_padded, length_padded]), padded_lt_iff hm hn, hequal]

/-- The offset, of a time that has one, counts minutes from UTC. -/
structure DateTime where
  year : Nat
  month : Nat
  day : Nat
  hour : Nat
  minute : Nat
  second : Nat
  microsecond : Nat
  offset : Option Int
  hyear : year < 10000
  hmonth : month ≤ 12
  hday : day ≤ 31
  hhour : hour < 24
  hminute : minute < 60
  hsecond : second < 60
  hmicrosecond : microsecond < 1000000

namespace DateTime

def offsetText (offset : Int) : List Char :=
  (if offset < 0 then '-' else '+') :: padded 2 (offset.natAbs / 60) ++ ':' :: padded 2 (offset.natAbs % 60)

/-- What stands behind the seconds: the microseconds, unless there are none, and the offset. -/
def tail (d : DateTime) : List Char :=
  (if d.microsecond = 0 then [] else '.' :: padded 6 d.microsecond) ++ (d.offset.map offsetText).getD []

/-- `isoformat`. -/
def isoformat (d : DateTime) : List Char :=
  padded 4 d.year ++ '-' :: (padded 2 d.month ++ '-' :: (padded 2 d.day ++ 'T' ::
    (padded 2 d.hour ++ ':' :: (padded 2 d.minute ++ ':' :: (padded 2 d.second ++ d.tail)))))

/-- The fields, from the greatest down to the microseconds. -/
def fields (d : DateTime) : List Nat := [d.year, d.month, d.day, d.hour, d.minute, d.second, d.microsecond]

def IsUtc (d : DateTime) : Prop := d.offset = none ∨ d.offset = some 0

instance (d : DateTime) : Decidable d.IsUtc := inferInstanceAs (Decidable (_ ∨ _))

theorem tail_lt {d e : DateTime} (hd : d.IsUtc) (h : d.microsecond < e.microsecond) : d.tail < e.tail := by
  have hpos : e.microsecond ≠ 0 := Nat.ne_of_gt (Nat.zero_lt_of_lt h)
  unfold tail
  rw [if_neg hpos, List.cons_append]
  by_cases hzero : d.microsecond = 0
  · -- nothing, or the sign of the offset, comes before the point
    rw [if_pos hzero, List.nil_append]
    rcases hd with hnone | hutc
    · rw [hnone]
      exact List.nil_lt_cons _ _
    · rw [hutc]
      show '+' :: _ < '.' :: _
      exact List.cons_lt_cons_iff.mpr (.inl (by decide))
  · rw [if_neg hzero, List.cons_append, List.cons_lt_cons_iff, padded_append_lt_iff d.hmicrosecond e.hmicrosecond]
    exact .inr ⟨rfl, .inl h⟩

/-- An earlier time in UTC has the smaller text. -/
theorem isoformat_lt {d e : DateTime} (hd : d.IsUtc) (h : d.fields < e.fields) : d.isoformat < e.isoformat := by
  unfold fields at h
  simp only [List.cons_lt_cons_iff] at h
  unfold isoformat
  rw [padded_append_lt_iff d.hyear e.hyear, List.cons_lt_cons_iff,
    padded_append_lt_iff (by have := d.hmonth; omega) (by have := e.hmonth; omega), List.cons_lt_cons_iff,
    padded_append_lt_iff (by have := d.hday; omega) (by have := e.hday; omega), List.cons_lt_cons_iff,
    padded_append_lt_iff (by have := d.hhour; omega) (by have := e.hhour; omega), List.cons_lt_cons_iff,
    padded_append_lt_iff (by have := d.hminute; omega) (by have := e.hminute; omega), List.cons_lt_cons_iff,
    padded_append_lt_iff (by have := d.hsecond; omega) (by have := e.hsecond; omega)]
  have htail := tail_lt (e := e) hd
  simp only [lt_self_iff_false, and_false, or_false, false_or, true_and] at h ⊢
  tauto

end DateTime
