import OpenHandsSWE.Lib.Assoc

/-! JSON values and their standard textual form: the compact printer with its ASCII escapes
and the scanner that reads it back. A float is kept as its literal, so the two directions
are exact on every value. -/

/-- Decimal digits are numerals. -/
instance neZeroTen : NeZero 10 := ⟨by decide⟩

/-- Where an exponent part stands, its sign as written and its digits. -/
structure JsonExponent where
  sign : Option Bool
  digits : List (Fin 10)
  nonempty : digits ≠ []
deriving DecidableEq, Repr

/-- A number literal with a fraction or an exponent part (or both). -/
structure FloatLit where
  neg : Bool
  whole : Nat
  frac : List (Fin 10)
  exp : Option JsonExponent
  isFloat : frac ≠ [] ∨ exp ≠ none
deriving DecidableEq, Repr

theorem FloatLit.isFloat_zero : [(0 : Fin 10)] ≠ [] ∨ (none : Option JsonExponent) ≠ none :=
  .inl (List.cons_ne_nil 0 [])

inductive Json where
  | null
  | bool (b : Bool)
  | int (n : Int)
  | float (x : FloatLit)
  | str (s : String)
  | arr (xs : List Json)
  | obj (kvs : List (String × Json))
deriving Repr, Inhabited

namespace Json

/-- The type that a message of Python names. -/
def typeName : Json → String
  | null => "NoneType"
  | bool _ => "bool"
  | int _ => "int"
  | float _ => "float"
  | str _ => "str"
  | arr _ => "list"
  | obj _ => "dict"

mutual
def decEq : (a b : Json) → Decidable (a = b)
  | .null, b => by cases b <;> first | exact .isTrue rfl | exact .isFalse (by simp)
  | .bool x, b => by
    cases b with
    | bool y => exact decidable_of_iff (x = y) (by simp)
    | _ => exact .isFalse (by simp)
  | .int x, b => by
    cases b with
    | int y => exact decidable_of_iff (x = y) (by simp)
    | _ => exact .isFalse (by simp)
  | .float x, b => by
    cases b with
    | float y => exact decidable_of_iff (x = y) (by simp)
    | _ => exact .isFalse (by simp)
  | .str x, b => by
    cases b with
    | str y => exact decidable_of_iff (x = y) (by simp)
    | _ => exact .isFalse (by simp)
  | .arr xs, b => by
    cases b with
    | arr ys => exact @decidable_of_iff _ (xs = ys) (by simp) (decEqList xs ys)
    | _ => exact .isFalse (by simp)
  | .obj xs, b => by
    cases b with
    | obj ys => exact @decidable_of_iff _ (xs = ys) (by simp) (decEqMembers xs ys)
    | _ => exact .isFalse (by simp)

def decEqList : (xs ys : List Json) → Decidable (xs = ys)
  | [], [] => .isTrue rfl
  | [], _ :: _ => .isFalse (by simp)
  | _ :: _, [] => .isFalse (by simp)
  | x :: xs, y :: ys =>
    @decidable_of_iff _ (x = y ∧ xs = ys) (by simp)
      (@instDecidableAnd _ _ (decEq x y) (decEqList xs ys))

def decEqMembers : (xs ys : List (String × Json)) → Decidable (xs = ys)
  | [], [] => .isTrue rfl
  | [], _ :: _ => .isFalse (by simp)
  | _ :: _, [] => .isFalse (by simp)
  | (k, x) :: xs, (l, y) :: ys =>
    @decidable_of_iff _ (k = l ∧ x = y ∧ xs = ys) (by simp [and_assoc])
      (@instDecidableAnd _ _ _ (@instDecidableAnd _ _ (decEq x y) (decEqMembers xs ys)))
end

instance : DecidableEq Json := decEq

/-! ## Well-formed values: the keys of every object are distinct -/

mutual
def WellFormed : Json → Prop
  | .arr xs => WellFormedItems xs
  | .obj kvs => (kvs.map Prod.fst).Nodup ∧ WellFormedMembers kvs
  | _ => True

def WellFormedItems : List Json → Prop
  | [] => True
  | x :: xs => x.WellFormed ∧ WellFormedItems xs

def WellFormedMembers : List (String × Json) → Prop
  | [] => True
  | (_, x) :: kvs => x.WellFormed ∧ WellFormedMembers kvs
end

theorem wellFormedItems_iff (xs : List Json) : WellFormedItems xs ↔ ∀ x ∈ xs, x.WellFormed := by
  induction xs with
  | nil => simp [WellFormedItems]
  | cons x xs ih => simp [WellFormedItems, ih]

theorem wellFormedMembers_iff (kvs : List (String × Json)) :
    WellFormedMembers kvs ↔ ∀ kv ∈ kvs, kv.2.WellFormed := by
  induction kvs with
  | nil => simp [WellFormedMembers]
  | cons kv kvs ih => simp [WellFormedMembers, ih]

end Json
