import OpenHandsSWE.Lib.Base64
import OpenHandsSWE.Lib.Python
import OpenHandsSWE.Lib.Text

/-! Page ids, and the loop over the pages of a search. -/

namespace OpenHands

/-- `str(offset).encode()`. -/
def encodeDigits (offset : Int) : List Nat :=
  ((if offset < 0 then ['-'] else []) ++ Nat.toDigits 10 offset.natAbs).map Char.toNat

def offsetToPageId (offset : Int) (hasNext : Bool) : Option (List Char) :=
  if hasNext then some (Base64.encode (encodeDigits offset)) else none

/-- Page ids whose bytes are beyond ASCII are taken as no numbers. -/
def pageIdToOffset (pageId : Option (List Char)) : Except PyError Int :=
  match pageId with
  | none | some [] => .ok 0
  | some text =>
    match Base64.decode text with
    | none => .error (.valueError "Incorrect padding")
    | some bytes =>
      if bytes.any fun b => 128 ≤ b then .error (.valueError "invalid literal for int() with base 10")
      else
        match Text.parseInt (bytes.map Char.ofNat) with
        | some offset => .ok offset
        | none => .error (.valueError "invalid literal for int() with base 10")

structure ResultSet (α : Type) where
  results : List α := []
  nextPageId : Option (List Char) := none

/-- What the iteration yields, and the exception it ends with; without fuel it gives nothing. -/
def iterate {α : Type} (fn : Option (List Char) → Except PyError (ResultSet α)) :
    Nat → Option (List Char) → Option (List α × Option PyError)
  | 0, _ => none
  | fuel + 1, pageId =>
    match fn pageId with
    | .error err => some ([], some err)
    | .ok set =>
      match set.nextPageId with
      | none => some (set.results, none)
      | some next => (iterate fn fuel (some next)).map fun found => (set.results ++ found.1, found.2)

/-- More fuel changes nothing. -/
theorem iterate_unique {α : Type} {fn : Option (List Char) → Except PyError (ResultSet α)} {fuel fuel' : Nat}
    {pageId : Option (List Char)} {r r' : List α × Option PyError} (h : iterate fn fuel pageId = some r)
    (h' : iterate fn fuel' pageId = some r') : r = r' := by
  induction fuel generalizing fuel' pageId r r' with
  | zero => cases h
  | succ fuel ih =>
    cases fuel' with
    | zero => cases h'
    | succ fuel' =>
      rw [iterate] at h h'
      cases hpage : fn pageId with
      | error err =>
        rw [hpage] at h h'
        exact Option.some.inj (h.symm.trans h')
      | ok set =>
        rw [hpage] at h h'
        dsimp only at h h'
        cases hnext : set.nextPageId with
        | none =>
          rw [hnext] at h h'
          exact Option.some.inj (h.symm.trans h')
        | some next =>
          rw [hnext] at h h'
          obtain ⟨rest, hrest, rfl⟩ := Option.map_eq_some_iff.mp h
          obtain ⟨rest', hrest', rfl⟩ := Option.map_eq_some_iff.mp h'
          rw [ih hrest hrest']

theorem pageIdToOffset_offsetToPageId {offset : Nat} {hasNext : Bool} {pageId : List Char}
    (h : offsetToPageId offset hasNext = some pageId) : pageIdToOffset (some pageId) = .ok (offset : Int) := by
  unfold offsetToPageId at h
  split_ifs at h
  obtain rfl := Option.some.inj h
  have hdigits : encodeDigits offset = (Nat.toDigits 10 offset).map Char.toNat := by
    unfold encodeDigits
    rw [if_neg (by omega), List.nil_append, Int.natAbs_natCast]
  have hbytes : ∀ b ∈ (Nat.toDigits 10 offset).map Char.toNat, b < 128 := by
    intro b hb
    obtain ⟨c, hc, rfl⟩ := List.mem_map.mp hb
    have hdigit : c.isDigit = true := Nat.isDigit_of_mem_toDigits (by decide) (by decide) hc
    have hrange : 48 ≤ c.toNat ∧ c.toNat ≤ 57 := by simpa [Char.isDigit, UInt32.le_iff_toNat_le] using hdigit
    omega
  have hne : Base64.encode ((Nat.toDigits 10 offset).map Char.toNat) ≠ [] :=
    Base64.encode_ne_nil (by simp [Nat.toDigits_ne_nil])
  have hdecode := Base64.decode_encode ((Nat.toDigits 10 offset).map Char.toNat)
    fun b hb => (hbytes b hb).trans (by decide)
  have hascii : ((Nat.toDigits 10 offset).map Char.toNat).any (fun b => 128 ≤ b) = false := by
    rw [List.any_eq_false]
    intro b hb hlarge
    exact absurd (hbytes b hb) (not_lt.mpr (of_decide_eq_true hlarge))
  have hchars : ((Nat.toDigits 10 offset).map Char.toNat).map Char.ofNat = Nat.toDigits 10 offset := by
    rw [List.map_map]
    exact List.map_id'' (fun c => Char.ofNat_toNat c) _
  rw [hdigits]
  unfold pageIdToOffset
  split
  · rename_i heq
    cases heq
  next heq => exact absurd (Option.some.inj heq) hne
  next text heq =>
    obtain rfl := Option.some.inj heq
    rw [hdecode]
    dsimp only
    rw [hascii, if_neg Bool.false_ne_true, hchars, Text.parseInt_toDigits]

end OpenHands
