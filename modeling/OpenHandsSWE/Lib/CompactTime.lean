import OpenHandsSWE.Lib.DateTime

/-! Times as numbers, and as texts of fourteen digits, which go down to the seconds and are read back. -/

namespace DateTime

section Radix

variable {a b c d r : Nat}

theorem radix_lt_iff (hb : b < r) (hd : d < r) : a * r + b < c * r + d ↔ a < c ∨ a = c ∧ b < d := by
  rcases Nat.lt_trichotomy a c with h | rfl | h
  · have hle : (a + 1) * r ≤ c * r := Nat.mul_le_mul_right r h
    rw [Nat.add_mul] at hle
    exact iff_of_true (by omega) (.inl h)
  · omega
  · have hle : (c + 1) * r ≤ a * r := Nat.mul_le_mul_right r h
    rw [Nat.add_mul] at hle
    exact iff_of_false (by omega) (by omega)

theorem radix_inj (hb : b < r) (hd : d < r) : a * r + b = c * r + d ↔ a = c ∧ b = d := by
  constructor
  · intro h
    have hlt := (@radix_lt_iff a b c d r hb hd).not.mp h.not_lt
    have hgt := (@radix_lt_iff c d a b r hd hb).not.mp h.not_gt
    omega
  · rintro ⟨rfl, rfl⟩
    rfl

end Radix

/-! ## Times as numbers -/

def secondsOf (year month day hour minute second : Nat) : Nat :=
  ((((year * 13 + month) * 32 + day) * 24 + hour) * 60 + minute) * 60 + second

/-- The fields down to the seconds. -/
def seconds (d : DateTime) : Nat := secondsOf d.year d.month d.day d.hour d.minute d.second

/-- All fields. -/
def ticks (d : DateTime) : Nat := d.seconds * 1000000 + d.microsecond

variable {d e : DateTime}

theorem seconds_lt_iff : d.seconds < e.seconds ↔
    [d.year, d.month, d.day, d.hour, d.minute, d.second] < [e.year, e.month, e.day, e.hour, e.minute, e.second] := by
  simp only [List.cons_lt_cons_iff, List.not_lt_nil, and_false, or_false, seconds, secondsOf,
    radix_lt_iff d.hsecond e.hsecond, radix_lt_iff d.hminute e.hminute, radix_lt_iff d.hhour e.hhour,
    radix_lt_iff (Nat.lt_succ_of_le d.hday) (Nat.lt_succ_of_le e.hday),
    radix_lt_iff (Nat.lt_succ_of_le d.hmonth) (Nat.lt_succ_of_le e.hmonth), radix_inj d.hminute e.hminute,
    radix_inj d.hhour e.hhour, radix_inj (Nat.lt_succ_of_le d.hday) (Nat.lt_succ_of_le e.hday),
    radix_inj (Nat.lt_succ_of_le d.hmonth) (Nat.lt_succ_of_le e.hmonth), or_assoc, and_assoc, ← and_or_left]

theorem seconds_inj : d.seconds = e.seconds ↔ d.year = e.year ∧ d.month = e.month ∧ d.day = e.day ∧ d.hour = e.hour ∧
    d.minute = e.minute ∧ d.second = e.second := by
  simp only [seconds, secondsOf, radix_inj d.hsecond e.hsecond, radix_inj d.hminute e.hminute,
    radix_inj d.hhour e.hhour, radix_inj (Nat.lt_succ_of_le d.hday) (Nat.lt_succ_of_le e.hday),
    radix_inj (Nat.lt_succ_of_le d.hmonth) (Nat.lt_succ_of_le e.hmonth), and_assoc]

theorem ticks_lt_of_seconds_lt (h : d.seconds < e.seconds) : d.ticks < e.ticks :=
  (radix_lt_iff d.hmicrosecond e.hmicrosecond).mpr (.inl h)

/-! ## The texts -/

/-- `strftime` of `%Y%m%d%H%M%S`. -/
def compact (d : DateTime) : List Char :=
  padded 4 d.year ++ (padded 2 d.month ++ (padded 2 d.day ++ (padded 2 d.hour ++ (padded 2 d.minute ++ padded 2 d.second))))

/-- Texts that begin with a time are ordered by the time first. -/
theorem compact_append_lt_iff {as bs : List Char} :
    d.compact ++ as < e.compact ++ bs ↔ d.seconds < e.seconds ∨ d.seconds = e.seconds ∧ as < bs := by
  have hday : d.day < 10 ^ 2 ∧ e.day < 10 ^ 2 := ⟨lt_of_le_of_lt d.hday (by decide), lt_of_le_of_lt e.hday (by decide)⟩
  have hmonth : d.month < 10 ^ 2 ∧ e.month < 10 ^ 2 :=
    ⟨lt_of_le_of_lt d.hmonth (by decide), lt_of_le_of_lt e.hmonth (by decide)⟩
  have hhour : d.hour < 10 ^ 2 ∧ e.hour < 10 ^ 2 := ⟨d.hhour.trans (by decide), e.hhour.trans (by decide)⟩
  have hminute : d.minute < 10 ^ 2 ∧ e.minute < 10 ^ 2 := ⟨d.hminute.trans (by decide), e.hminute.trans (by decide)⟩
  have hsecond : d.second < 10 ^ 2 ∧ e.second < 10 ^ 2 := ⟨d.hsecond.trans (by decide), e.hsecond.trans (by decide)⟩
  simp only [compact, List.append_assoc]
  rw [padded_append_lt_iff d.hyear e.hyear, padded_append_lt_iff hmonth.1 hmonth.2, padded_append_lt_iff hday.1 hday.2,
    padded_append_lt_iff hhour.1 hhour.2, padded_append_lt_iff hminute.1 hminute.2,
    padded_append_lt_iff hsecond.1 hsecond.2, seconds_lt_iff, seconds_inj]
  simp only [List.cons_lt_cons_iff, List.not_lt_nil, and_false, or_false, or_assoc, and_assoc, ← and_or_left]

def digit? (c : Char) : Option Nat := if c.isDigit then some (c.toNat - 48) else none

/-- The numbers that a text can begin with, of two digits first. -/
def readings (lo hi : Nat) : List Char → List (Nat × List Char)
  | [] => []
  | c :: cs =>
    match digit? c with
    | none => []
    | some a =>
      let one := if lo ≤ a then [(a, cs)] else []
      match cs with
      | [] => one
      | c' :: cs' =>
        match digit? c' with
        | none => one
        | some b => if lo ≤ 10 * a + b ∧ 10 * a + b ≤ hi then (10 * a + b, cs') :: one else one

/-- A day may have a blank before its only digit. -/
def dayReadings (text : List Char) : List (Nat × List Char) :=
  match text with
  | ' ' :: c :: cs => if c.isDigit && c != '0' then [(c.toNat - 48, cs)] else []
  | _ => readings 1 31 text

def readYear : List Char → Option (Nat × List Char)
  | a :: b :: c :: d :: rest => do
    let a ← digit? a
    let b ← digit? b
    let c ← digit? c
    let d ← digit? d
    return (1000 * a + 100 * b + 10 * c + d, rest)
  | _ => none

def daysInMonth (year month : Nat) : Nat :=
  if month = 2 then if year % 4 = 0 ∧ (year % 100 ≠ 0 ∨ year % 400 = 0) then 29 else 28
  else if month = 4 ∨ month = 6 ∨ month = 9 ∨ month = 11 then 30 else 31

/-- `strptime` with `%Y%m%d%H%M%S`: the first reading of the fields has to reach the end and be a date. -/
def readCompact (text : List Char) : Option Nat := do
  let (year, rest) ← readYear text
  let found ← (readings 1 12 rest).findSome? fun month => (dayReadings month.2).findSome? fun day =>
    (readings 0 23 day.2).findSome? fun hour => (readings 0 59 hour.2).findSome? fun minute =>
      (readings 0 61 minute.2).head?.map fun second => (month.1, day.1, hour.1, minute.1, second.1, second.2)
  let (month, day, hour, minute, second, left) := found
  if left = [] ∧ 1 ≤ year ∧ day ≤ daysInMonth year month ∧ second < 60 then
    return secondsOf year month day hour minute second
  else none

/-- The fields are those of a date. -/
structure IsDate (d : DateTime) : Prop where
  year : 1 ≤ d.year
  month : 1 ≤ d.month
  day : 1 ≤ d.day
  within : d.day ≤ daysInMonth d.year d.month

theorem digit?_digitChar : ∀ n < 10, digit? (Nat.digitChar n) = some n := by decide

theorem readings_padded {lo hi n : Nat} (hlo : lo ≤ n) (hhi : n ≤ hi) (hn : n < 100) (rest : List Char) :
    ∃ others, readings lo hi (padded 2 n ++ rest) = (n, rest) :: others := by
  have htens := digit?_digitChar (n / 10 % 10) (Nat.mod_lt _ (by decide))
  have hones := digit?_digitChar (n % 10) (Nat.mod_lt _ (by decide))
  have hnumber : 10 * (n / 10 % 10) + n % 10 = n := by omega
  have htext : padded 2 n ++ rest = Nat.digitChar (n / 10 % 10) :: Nat.digitChar (n % 10) :: rest := rfl
  rw [htext, readings, htens]
  dsimp only
  rw [hones]
  dsimp only
  rw [hnumber, if_pos ⟨hlo, hhi⟩]
  exact ⟨_, rfl⟩

theorem dayReadings_padded {n : Nat} (hlo : 1 ≤ n) (hhi : n ≤ 31) (rest : List Char) :
    ∃ others, dayReadings (padded 2 n ++ rest) = (n, rest) :: others := by
  have hblank : ∀ k < 10, Nat.digitChar k ≠ ' ' := by decide
  have htext : padded 2 n ++ rest = Nat.digitChar (n / 10 % 10) :: Nat.digitChar (n % 10) :: rest := rfl
  have hother : dayReadings (padded 2 n ++ rest) = readings 1 31 (padded 2 n ++ rest) := by
    rw [htext]
    unfold dayReadings
    split
    next heq => exact absurd (List.cons.inj heq).1 (hblank _ (Nat.mod_lt _ (by decide)))
    next => rfl
  rw [hother]
  exact readings_padded hlo hhi (by omega) rest

theorem readYear_padded {n : Nat} (hn : n < 10000) (rest : List Char) : readYear (padded 4 n ++ rest) = some (n, rest) := by
  have hdigit (k : Nat) := digit?_digitChar (k % 10) (Nat.mod_lt _ (by decide))
  have htext : padded 4 n ++ rest = Nat.digitChar (n / 10 / 10 / 10 % 10) :: Nat.digitChar (n / 10 / 10 % 10) ::
      Nat.digitChar (n / 10 % 10) :: Nat.digitChar (n % 10) :: rest := rfl
  have hnumber : 1000 * (n / 10 / 10 / 10 % 10) + 100 * (n / 10 / 10 % 10) + 10 * (n / 10 % 10) + n % 10 = n := by omega
  rw [htext, readYear, hdigit, hdigit, hdigit, hdigit]
  exact congrArg (fun year => some (year, rest)) hnumber

theorem findSome?_cons_of_some {α β : Type*} {f : α → Option β} {x : α} {b : β} {xs others : List α} (h : xs = x :: others)
    (hx : f x = some b) : xs.findSome? f = some b := by
  rw [h, List.findSome?_cons, hx]

/-- The text of a date is read back. -/
theorem readCompact_compact (h : d.IsDate) : readCompact d.compact = some d.seconds := by
  have hminute := d.hminute
  have hhour := d.hhour
  have hsecond := d.hsecond
  have hmonth := d.hmonth
  obtain ⟨_, hseconds⟩ := @readings_padded 0 61 d.second (Nat.zero_le _) (by omega) (by omega) []
  obtain ⟨_, hminutes⟩ := @readings_padded 0 59 d.minute (Nat.zero_le _) (by omega) (by omega) (padded 2 d.second)
  obtain ⟨_, hhours⟩ := @readings_padded 0 23 d.hour (Nat.zero_le _) (by omega) (by omega)
    (padded 2 d.minute ++ padded 2 d.second)
  obtain ⟨_, hdays⟩ := dayReadings_padded h.day d.hday (padded 2 d.hour ++ (padded 2 d.minute ++ padded 2 d.second))
  obtain ⟨_, hmonths⟩ := @readings_padded 1 12 d.month h.month hmonth (by omega)
    (padded 2 d.day ++ (padded 2 d.hour ++ (padded 2 d.minute ++ padded 2 d.second)))
  rw [List.append_nil] at hseconds
  have hfields : ((readings 1 12 (padded 2 d.month ++ (padded 2 d.day ++ (padded 2 d.hour ++ (padded 2 d.minute ++
      padded 2 d.second))))).findSome? fun month => (dayReadings month.2).findSome? fun day =>
      (readings 0 23 day.2).findSome? fun hour => (readings 0 59 hour.2).findSome? fun minute =>
        (readings 0 61 minute.2).head?.map fun second => (month.1, day.1, hour.1, minute.1, second.1, second.2)) =
      some (d.month, d.day, d.hour, d.minute, d.second, []) := by
    refine findSome?_cons_of_some hmonths ?_
    refine findSome?_cons_of_some hdays ?_
    refine findSome?_cons_of_some hhours ?_
    refine findSome?_cons_of_some hminutes ?_
    rw [hseconds]
    rfl
  rw [readCompact, compact, readYear_padded d.hyear]
  change Option.bind (List.findSome? _ _) _ = _
  rw [hfields, Option.bind_some]
  exact if_pos ⟨rfl, h.year, h.within, hsecond⟩

end DateTime
