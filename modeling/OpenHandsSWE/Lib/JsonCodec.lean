import OpenHandsSWE.Lib.Json

/-! Values with a JSON form that reads back, and how such forms are put together. -/

namespace Json

structure Codec (α : Type) where
  encode : α → Json
  decode : Json → Option α
  decode_encode : ∀ a, decode (encode a) = some a
  wellFormed : ∀ a, (encode a).WellFormed

namespace Codec
variable {α : Type}

def str : Codec String where
  encode := .str
  decode
    | .str s => some s
    | _ => none
  decode_encode _ := rfl
  wellFormed _ := trivial

def int : Codec Int where
  encode := .int
  decode
    | .int n => some n
    | _ => none
  decode_encode _ := rfl
  wellFormed _ := trivial

def bool : Codec Bool where
  encode := .bool
  decode
    | .bool b => some b
    | _ => none
  decode_encode _ := rfl
  wellFormed _ := trivial

/-- `null` or a value, whose form is not `null`. -/
def nullable (c : Codec α) (hnull : ∀ a, c.encode a ≠ .null) : Codec (Option α) where
  encode a := a.elim .null c.encode
  decode
    | .null => some none
    | j => (c.decode j).map some
  decode_encode a := by
    rcases a with - | a
    · rfl
    · show (match c.encode a with | .null => some none | j => (c.decode j).map some) = some (some a)
      have hdecode := c.decode_encode a
      have hne := hnull a
      cases hj : c.encode a with
      | null => exact absurd hj hne
      | _ => simp only [← hj, hdecode, Option.map_some]
  wellFormed a := by
    rcases a with - | a
    · exact trivial
    · exact c.wellFormed a

theorem mapM_decode_encode (c : Codec α) (as : List α) : (as.map c.encode).mapM c.decode = some as := by
  induction as with
  | nil => rfl
  | cons a as ih =>
    rw [List.map_cons, List.mapM_cons, c.decode_encode, ih]
    rfl

def list (c : Codec α) : Codec (List α) where
  encode as := .arr (as.map c.encode)
  decode
    | .arr xs => xs.mapM c.decode
    | _ => none
  decode_encode := c.mapM_decode_encode
  wellFormed as := by
    show WellFormedItems (as.map c.encode)
    rw [wellFormedItems_iff]
    intro x hx
    obtain ⟨a, -, rfl⟩ := List.mem_map.mp hx
    exact c.wellFormed a

/-- An object read as a dictionary, whose keys are distinct. -/
def dict (c : Codec α) : Codec { kvs : List (String × α) // (kvs.map Prod.fst).Nodup } where
  encode d := .obj (d.val.map fun kv => (kv.1, c.encode kv.2))
  decode
    | .obj kvs => do
      let d ← kvs.mapM fun kv => (c.decode kv.2).map (kv.1, ·)
      if h : (d.map Prod.fst).Nodup then some ⟨d, h⟩ else none
    | _ => none
  decode_encode d := by
    obtain ⟨kvs, hnodup⟩ := d
    have hread : (kvs.map fun kv => (kv.1, c.encode kv.2)).mapM (fun kv => (c.decode kv.2).map (kv.1, ·)) = some kvs := by
      clear hnodup
      induction kvs with
      | nil => rfl
      | cons kv kvs ih =>
        rw [List.map_cons, List.mapM_cons, c.decode_encode, ih]
        rfl
    show Option.bind (List.mapM _ _) _ = _
    rw [hread, Option.bind_some, dif_pos hnodup]
  wellFormed d := by
    refine ⟨?_, (wellFormedMembers_iff _).mpr fun kv hkv => ?_⟩
    · rw [List.map_map]
      exact d.property
    · obtain ⟨kv', -, rfl⟩ := List.mem_map.mp hkv
      exact c.wellFormed kv'.2

/-- A value that is brought into shape and then has to pass a check. -/
def checked (c : Codec α) (shape : α → α) (P : α → Prop) [DecidablePred P] (hshape : ∀ a, P a → shape a = a) :
    Codec { a : α // P a } where
  encode a := c.encode a.val
  decode j := (c.decode j).bind fun a => if h : P (shape a) then some ⟨shape a, h⟩ else none
  decode_encode a := by
    obtain ⟨a, ha⟩ := a
    simp only [c.decode_encode, Option.bind_some, hshape a ha, dif_pos ha]
  wellFormed a := c.wellFormed a.val

/-- A member of an object, which may have a default. -/
def member (c : Codec α) (key : String) (default : Option α) (kvs : List (String × Json)) : Option α :=
  match Assoc.get? key kvs with
  | none => default
  | some j => c.decode j

theorem member_of_get? (c : Codec α) {key : String} {default : Option α} {a : α} {kvs : List (String × Json)}
    (h : Assoc.get? key kvs = some (c.encode a)) : c.member key default kvs = some a := by
  rw [member, h]
  exact c.decode_encode a

end Codec

theorem wellFormed_obj {kvs : List (String × Json)} (hkeys : (kvs.map Prod.fst).Nodup)
    (h : ∀ j ∈ kvs.map Prod.snd, j.WellFormed) : (Json.obj kvs).WellFormed :=
  ⟨hkeys, (wellFormedMembers_iff kvs).mpr fun _ hkv => h _ (List.mem_map_of_mem hkv)⟩

end Json
