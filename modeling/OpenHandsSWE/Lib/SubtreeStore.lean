import Mathlib.Data.List.Basic
import Mathlib.Tactic.Tauto

/-! Stores by path whose deletions take whole subtrees: what a list of operations does to a path is
what its last item that touches the path does. -/

namespace SubtreeStore

/-- Which keys a deletion of a path takes, the path itself among them. -/
structure Subtrees (P : Type*) where
  under : P → P → Bool
  under_self : ∀ path, under path path = true

inductive Operation (V : Type*) where
  | write (value : V)
  | delete

variable {P V : Type*} [DecidableEq P] (tree : Subtrees P)

/-- What an operation on a path sets a key to; `none` where it does not touch it. -/
def effect (item : P × Operation V) (key : P) : Option (Option V) :=
  match item.2 with
  | .write value => if key = item.1 then some (some value) else none
  | .delete => if tree.under item.1 key then some none else none

def apply (store : P → Option V) (item : P × Operation V) : P → Option V :=
  fun key => (effect tree item key).getD (store key)

def applyAll (store : P → Option V) (items : List (P × Operation V)) : P → Option V :=
  items.foldl (apply tree) store

/-- The effect of the last item that touches the key. -/
def lastEffect : List (P × Operation V) → P → Option (Option V)
  | [], _ => none
  | item :: items, key => (lastEffect items key).or (effect tree item key)

variable {tree}

theorem applyAll_append (store : P → Option V) (items others : List (P × Operation V)) :
    applyAll tree store (items ++ others) = applyAll tree (applyAll tree store items) others :=
  List.foldl_append

theorem lastEffect_append (items others : List (P × Operation V)) (key : P) :
    lastEffect tree (items ++ others) key = (lastEffect tree others key).or (lastEffect tree items key) := by
  induction items with
  | nil => exact Option.or_none.symm
  | cons item items ih =>
    show (lastEffect tree (items ++ others) key).or _ = _
    rw [ih, Option.or_assoc]
    rfl

theorem applyAll_eq (store : P → Option V) (items : List (P × Operation V)) (key : P) :
    applyAll tree store items key = (lastEffect tree items key).getD (store key) := by
  induction items generalizing store with
  | nil => rfl
  | cons item items ih =>
    show applyAll tree (apply tree store item) items key = _
    rw [ih]
    show _ = ((lastEffect tree items key).or (effect tree item key)).getD (store key)
    cases lastEffect tree items key with
    | none => rfl
    | some value => rfl

/-- A path that no item is about is touched by deletions only. -/
theorem lastEffect_of_notMem {items : List (P × Operation V)} {path : P}
    (h : path ∉ items.map Prod.fst) (value : V) : lastEffect tree items path ≠ some (some value) := by
  induction items with
  | nil => exact nofun
  | cons item items ih =>
    have hne : path ≠ item.1 := fun heq => h (heq ▸ List.mem_cons_self)
    have hrest := ih fun hmem => h (List.mem_cons_of_mem _ hmem)
    unfold lastEffect effect
    cases hlast : lastEffect tree items path with
    | some last =>
      rw [hlast] at hrest
      exact hrest
    | none =>
      rw [Option.none_or]
      split
      · rw [if_neg hne]
        exact nofun
      · split_ifs <;> exact nofun

/-! ## An item in the place of an earlier one -/

/-- Whether an operation may take the place of an earlier one on its path, before the items that
came in between. -/
def ReplaceOk (tree : Subtrees P) (before : P → Option V) (path : P) (old : Operation V)
    (between : List (P × Operation V)) : Operation V → Prop
  | .write _ =>
    -- nothing in between deletes the path, and a deletion that is lost took no other key
    lastEffect tree between path = none ∧
      (old = .delete → ∀ key, key ≠ path → tree.under path key = true →
        lastEffect tree between key = none → before key = none)
  | .delete =>
    -- nothing in between leaves a value under the path
    ∀ key value, tree.under path key = true → lastEffect tree between key ≠ some (some value)

variable {before : P → Option V} {path : P} {old new : Operation V} {between : List (P × Operation V)}

theorem effect_of_not_under {key : P} (h : tree.under path key = false) (op : Operation V) :
    effect tree (path, op) key = none := by
  unfold effect
  split
  · refine if_neg fun heq => ?_
    rw [heq, tree.under_self] at h
    cases h
  · rw [if_neg (by rw [h]; exact Bool.false_ne_true)]

/-- Replacing in place does what doing both in their order does, exactly when it may. -/
theorem replace_iff (hpath : path ∉ between.map Prod.fst) :
    applyAll tree before ((path, new) :: between) =
      applyAll tree before ((path, old) :: between ++ [(path, new)]) ↔
    ReplaceOk tree before path old between new := by
  have hleft (key : P) : applyAll tree before ((path, new) :: between) key =
      (lastEffect tree between key).getD ((effect tree (path, new) key).getD (before key)) := by
    show applyAll tree (apply tree before (path, new)) between key = _
    rw [applyAll_eq]
    rfl
  have hright (key : P) : applyAll tree before ((path, old) :: between ++ [(path, new)]) key =
      (effect tree (path, new) key).getD
        ((lastEffect tree between key).getD ((effect tree (path, old) key).getD (before key))) := by
    rw [applyAll_append]
    show apply tree (applyAll tree (apply tree before (path, old)) between) (path, new) key = _
    unfold apply
    rw [applyAll_eq]
  rw [funext_iff]
  simp only [hleft, hright]
  cases new with
  | write value =>
    constructor
    · intro h
      constructor
      · have hkey := h path
        simp only [effect, if_true, Option.getD_some] at hkey
        cases hlast : lastEffect tree between path with
        | none => rfl
        | some last =>
          rw [hlast, Option.getD_some] at hkey
          rw [hkey] at hlast
          exact absurd hlast (lastEffect_of_notMem hpath value)
      · rintro rfl key hne hunder hlast
        have hkey := h key
        simpa [effect, hne, hunder, hlast] using hkey
    · rintro ⟨hlast, hold⟩ key
      by_cases hkey : key = path
      · subst hkey
        simp [effect, hlast]
      · cases hbetween : lastEffect tree between key with
        | some last => simp [effect, hkey]
        | none =>
          cases old with
          | write other => simp [effect, hkey]
          | delete =>
            by_cases hunder : tree.under path key = true
            · simp [effect, hkey, hunder, hold rfl key hkey hunder hbetween]
            · simp [effect, hkey, hunder]
  | delete =>
    constructor
    · intro h key value hunder hlast
      have hkey := h key
      simp [effect, hunder, hlast] at hkey
    · intro hbetween key
      cases hunder : tree.under path key with
      | false => rw [effect_of_not_under hunder, effect_of_not_under hunder]; rfl
      | true =>
        have hnone := hbetween key
        cases hlast : lastEffect tree between key with
        | none => simp [effect, hunder]
        | some last =>
          cases last with
          | none => simp [effect, hunder]
          | some value => exact absurd hlast (hnone value hunder)

/-! ## Items that overtake others -/

/-- Items may overtake earlier ones, with later ones still to come: a key that both touch is touched
later again, or set to the same. -/
def OvertakeOk (tree : Subtrees P) (earlier items later : List (P × Operation V)) : Prop :=
  ∀ key, lastEffect tree later key = none → lastEffect tree earlier key = none ∨
    lastEffect tree items key = none ∨ lastEffect tree earlier key = lastEffect tree items key

theorem overtake_iff (tree : Subtrees P) (store : P → Option V) (earlier items later : List (P × Operation V)) :
    applyAll tree store (items ++ (earlier ++ later)) = applyAll tree store (earlier ++ (items ++ later)) ↔
      OvertakeOk tree earlier items later := by
  unfold OvertakeOk
  rw [funext_iff]
  apply forall_congr'
  intro key
  simp only [applyAll_eq, lastEffect_append]
  cases lastEffect tree later key with
  | some last => simp
  | none =>
    cases hearlier : lastEffect tree earlier key with
    | none => simp
    | some first =>
      cases hitems : lastEffect tree items key with
      | none => simp
      | some second => simp

end SubtreeStore
