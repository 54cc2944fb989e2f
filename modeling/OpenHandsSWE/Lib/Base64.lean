import Mathlib

/-! Base64 with its padding, and the lenient reader that passes over what is no part of the alphabet. -/

namespace Base64

def alphabet : List Char := "ABCDEFGHIJKLMNOPQRSTUVWXYZabcdefghijklmnopqrstuvwxyz0123456789+/".toList

def char (i : Nat) : Char := alphabet.getD i 'A'

def value (c : Char) : Option Nat := alphabet.idxOf? c

def encode : List Nat → List Char
  | [] => []
  | [a] => [char (a / 4), char (a % 4 * 16), '=', '=']
  | [a, b] => [char (a / 4), char (a % 4 * 16 + b / 16), char (b % 16 * 4), '=']
  | a :: b :: c :: bytes =>
    char (a / 4) :: char (a % 4 * 16 + b / 16) :: char (b % 16 * 4 + c / 64) :: char (c % 64) :: encode bytes

/-- The reader's state: its place among four letters, the bits left over, and the padding so far. -/
def scan : Nat → Nat → Nat → List Char → Option (List Nat)
  | place, _, _, [] => if place = 0 then some [] else none
  | place, left, pads, c :: cs =>
    if c = '=' then
      if 2 ≤ place then if 4 ≤ place + (pads + 1) then some [] else scan place left (pads + 1) cs
      else scan place left pads cs
    else
      match value c with
      | none => scan place left pads cs
      | some v =>
        match place with
        | 0 => scan 1 v 0 cs
        | 1 => (scan 2 (v % 16) 0 cs).map ((left * 4 + v / 16) :: ·)
        | 2 => (scan 3 (v % 4) 0 cs).map ((left * 16 + v / 4) :: ·)
        | _ => (scan 0 0 0 cs).map ((left * 64 + v) :: ·)

def decode (cs : List Char) : Option (List Nat) := scan 0 0 0 cs

theorem value_char : ∀ i < 64, value (char i) = some i := by decide +kernel

theorem char_ne_pad : ∀ i < 64, char i ≠ '=' := by decide +kernel

section Letters

variable {i : Nat} (hi : i < 64) (left pads : Nat) (cs : List Char)

include hi

theorem scan_first : scan 0 left pads (char i :: cs) = scan 1 i 0 cs := by
  rw [scan, if_neg (char_ne_pad i hi), value_char i hi]
  rfl

theorem scan_second : scan 1 left pads (char i :: cs) = (scan 2 (i % 16) 0 cs).map ((left * 4 + i / 16) :: ·) := by
  rw [scan, if_neg (char_ne_pad i hi), value_char i hi]
  rfl

theorem scan_third : scan 2 left pads (char i :: cs) = (scan 3 (i % 4) 0 cs).map ((left * 16 + i / 4) :: ·) := by
  rw [scan, if_neg (char_ne_pad i hi), value_char i hi]
  rfl

theorem scan_fourth : scan 3 left pads (char i :: cs) = (scan 0 0 0 cs).map ((left * 64 + i) :: ·) := by
  rw [scan, if_neg (char_ne_pad i hi), value_char i hi]
  rfl

end Letters

/-- Padding ends what is read. -/
theorem scan_pads (left : Nat) : scan 2 left 0 ['=', '='] = some [] ∧ scan 3 left 0 ['='] = some [] := by
  constructor <;> simp [scan]

theorem decode_encode (bytes : List Nat) (h : ∀ b ∈ bytes, b < 256) : decode (encode bytes) = some bytes := by
  unfold decode
  induction bytes using encode.induct with
  | case1 => rfl
  | case2 a =>
    have ha : a < 256 := h a (by simp)
    rw [encode, scan_first (by omega), scan_second (by omega), (scan_pads _).1, Option.map_some]
    have hbyte : a / 4 * 4 + a % 4 * 16 / 16 = a := by omega
    rw [hbyte]
  | case3 a b =>
    have ha : a < 256 := h a (by simp)
    have hb : b < 256 := h b (by simp)
    rw [encode, scan_first (by omega), scan_second (by omega), scan_third (by omega), (scan_pads _).2,
      Option.map_some, Option.map_some]
    have hfirst : a / 4 * 4 + (a % 4 * 16 + b / 16) / 16 = a := by omega
    have hsecond : (a % 4 * 16 + b / 16) % 16 * 16 + b % 16 * 4 / 4 = b := by omega
    rw [hfirst, hsecond]
  | case4 a b c bytes ih =>
    have ha : a < 256 := h a (by simp)
    have hb : b < 256 := h b (by simp)
    have hc : c < 256 := h c (by simp)
    have hrest := ih fun b' hb' => h b' (by simp [hb'])
    rw [encode, scan_first (by omega), scan_second (by omega), scan_third (by omega), scan_fourth (by omega), hrest,
      Option.map_some, Option.map_some, Option.map_some]
    have hfirst : a / 4 * 4 + (a % 4 * 16 + b / 16) / 16 = a := by omega
    have hsecond : (a % 4 * 16 + b / 16) % 16 * 16 + (b % 16 * 4 + c / 64) / 4 = b := by omega
    have hthird : (b % 16 * 4 + c / 64) % 4 * 64 + c % 64 = c := by omega
    rw [hfirst, hsecond, hthird]

/-- A text is not empty unless there was nothing to write. -/
theorem encode_ne_nil {bytes : List Nat} (h : bytes ≠ []) : encode bytes ≠ [] := by
  induction bytes using encode.induct with
  | case1 => exact absurd rfl h
  | case2 | case3 | case4 => exact List.cons_ne_nil _ _

end Base64
