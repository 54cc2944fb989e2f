import OpenHandsSWE.Lib.Assoc

/-! Sums over the values of a map, and what setting, erasing and merging do to them. -/

namespace Assoc

variable {κ β M : Type*} [AddCommMonoid M]

def sum (f : β → M) (kvs : List (κ × β)) : M := (kvs.map fun kv => f kv.2).sum

variable {f : β → M} {kvs : List (κ × β)}

theorem sum_cons (kv : κ × β) (kvs : List (κ × β)) : sum f (kv :: kvs) = f kv.2 + sum f kvs := rfl

theorem sum_append (kvs others : List (κ × β)) : sum f (kvs ++ others) = sum f kvs + sum f others := by
  rw [sum, List.map_append, List.sum_append]
  rfl

theorem sum_congr {g : β → M} (h : ∀ kv ∈ kvs, f kv.2 = g kv.2) : sum f kvs = sum g kvs :=
  congrArg List.sum (List.map_congr_left h)

/-- Where only one value counts differently, and no other key has it, only its share changes. -/
theorem sum_change {g : β → M} {b : β} (hnodup : (kvs.map Prod.snd).Nodup)
    (hb : b ∈ kvs.map Prod.snd) (h : ∀ x, x ≠ b → g x = f x) :
    sum g kvs + f b = sum f kvs + g b := by
  induction kvs with
  | nil => cases hb
  | cons kv kvs ih =>
    obtain ⟨hkv, hrest⟩ := List.nodup_cons.mp hnodup
    rw [sum_cons, sum_cons]
    rcases List.mem_cons.mp hb with rfl | htail
    · have hsame : sum g kvs = sum f kvs :=
        sum_congr fun other hother => h _ fun heq => hkv (heq ▸ List.mem_map_of_mem hother)
      rw [hsame]
      abel
    · have hne : kv.2 ≠ b := fun heq => hkv (heq ▸ htail)
      rw [h _ hne, add_assoc, ih hrest htail, add_assoc]

variable [DecidableEq κ] {k : κ}

/-- The value of a key, nothing when it is not there. -/
def amount (f : β → M) (k : κ) (kvs : List (κ × β)) : M := ((get? k kvs).map f).getD 0

theorem set_of_get? {v : β} (h : get? k kvs = some v) : set k v kvs = kvs := by
  induction kvs with
  | nil => cases h
  | cons kv kvs ih =>
    obtain ⟨l, w⟩ := kv
    unfold set
    split_ifs with hk
    · subst hk
      rw [get?_cons_self] at h
      cases h
      rfl
    · rw [get?_cons_of_ne (Ne.symm hk)] at h
      rw [ih h]

/-- Setting a key puts the new value in the place of what the key had. -/
theorem sum_set (f : β → M) (k : κ) (v : β) (kvs : List (κ × β)) :
    sum f (set k v kvs) + amount f k kvs = sum f kvs + f v := by
  induction kvs with
  | nil => simp [set, sum, amount, get?]
  | cons kv kvs ih =>
    obtain ⟨l, w⟩ := kv
    unfold set
    split_ifs with h
    · subst h
      rw [sum_cons, sum_cons, amount, get?_cons_self]
      show f v + sum f kvs + f w = f w + sum f kvs + f v
      abel
    · have hamount : amount f k ((l, w) :: kvs) = amount f k kvs := by
        rw [amount, get?_cons_of_ne (Ne.symm h), amount]
      rw [sum_cons, sum_cons, hamount, add_assoc, ih, add_assoc]

theorem sum_erase (h : (kvs.map Prod.fst).Nodup) : sum f (erase k kvs) + amount f k kvs = sum f kvs := by
  induction kvs with
  | nil => simp [erase, sum, amount, get?]
  | cons kv kvs ih =>
    obtain ⟨l, w⟩ := kv
    obtain ⟨hl, hrest⟩ := List.nodup_cons.mp h
    by_cases hk : l = k
    · subst hk
      have herase : erase l ((l, w) :: kvs) = kvs := by
        have hfilter := erase_of_notMem hl
        unfold erase at hfilter ⊢
        rw [List.filter_cons_of_neg (by simp), hfilter]
      rw [herase, amount, get?_cons_self, sum_cons]
      exact add_comm _ _
    · have herase : erase k ((l, w) :: kvs) = (l, w) :: erase k kvs := List.filter_cons_of_pos (by simpa using hk)
      have hamount : amount f k ((l, w) :: kvs) = amount f k kvs := by
        rw [amount, get?_cons_of_ne (Ne.symm hk), amount]
      rw [herase, sum_cons, sum_cons, hamount, add_assoc, ih hrest]

theorem notMem_keys_erase (k : κ) (kvs : List (κ × β)) : k ∉ (erase k kvs).map Prod.fst := by
  intro hmem
  obtain ⟨kv, hkv, rfl⟩ := List.mem_map.mp hmem
  have := (List.mem_filter.mp hkv).2
  simp at this

/-- `kvs` updated with the pairs of another map. -/
def update (kvs others : List (κ × β)) : List (κ × β) :=
  others.foldl (fun acc kv => set kv.1 kv.2 acc) kvs

/-- Maps without a common key are put one behind the other. -/
theorem update_disjoint {others : List (κ × β)} (hnodup : (others.map Prod.fst).Nodup)
    (hdisjoint : (kvs.map Prod.fst).Disjoint (others.map Prod.fst)) : update kvs others = kvs ++ others := by
  induction others generalizing kvs with
  | nil => exact (List.append_nil kvs).symm
  | cons kv others ih =>
    obtain ⟨hkv, hothers⟩ := List.nodup_cons.mp hnodup
    have hnot : kv.1 ∉ kvs.map Prod.fst := fun hmem => hdisjoint hmem List.mem_cons_self
    show update (set kv.1 kv.2 kvs) others = _
    rw [set_of_notMem _ hnot, ih hothers, List.append_assoc, List.singleton_append]
    intro l hl hl'
    rw [List.map_append, List.mem_append] at hl
    rcases hl with hl | hl
    · exact hdisjoint hl (List.mem_cons_of_mem _ hl')
    · rw [List.mem_singleton.mp hl] at hl'
      exact hkv hl'

end Assoc
