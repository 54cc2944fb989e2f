import OpenHandsSWE.Lib.Assoc

/-! Insertion-ordered maps that carry the proof that each key is there once. -/

structure OrderedMap (κ β : Type*) where
  entries : List (κ × β)
  nodup : (entries.map Prod.fst).Nodup
deriving DecidableEq

namespace OrderedMap

variable {κ κ' β γ : Type*}

def empty : OrderedMap κ β := ⟨[], List.nodup_nil⟩

def keys (d : OrderedMap κ β) : List κ := d.entries.map Prod.fst

section Keys

variable [DecidableEq κ] (d : OrderedMap κ β) (k : κ)

def get? : Option β := Assoc.get? k d.entries

def set (v : β) : OrderedMap κ β := ⟨Assoc.set k v d.entries, Assoc.nodup_set v d.nodup⟩

def erase : OrderedMap κ β := ⟨Assoc.erase k d.entries, Assoc.nodup_erase d.nodup⟩

/-- The map a sequence of pairs builds: the last value of a key wins. -/
def ofPairs (kvs : List (κ × β)) : OrderedMap κ β :=
  ⟨Assoc.ofPairs kvs, (Assoc.ofPairs_spec (P := fun _ => True) fun _ _ => trivial).1⟩

/-- The pairs of another map are set, each in its place. -/
def update (e : OrderedMap κ β) : OrderedMap κ β := e.entries.foldl (fun d kv => d.set kv.1 kv.2) d

variable {d k}

theorem get?_set (l : κ) (v : β) : (d.set k v).get? l = if l = k then some v else d.get? l := by
  by_cases h : l = k
  · rw [if_pos h, h]
    exact Assoc.get?_set_self k v d.entries
  · rw [if_neg h]
    exact Assoc.get?_set_of_ne h v d.entries

theorem get?_erase (l : κ) : (d.erase k).get? l = if l = k then none else d.get? l := by
  change Assoc.get? l (Assoc.erase k d.entries) = _
  rw [Assoc.erase, Assoc.get?_filter (· != k)]
  by_cases h : l = k
  · rw [if_pos h, if_neg (by simp [h])]
  · rw [if_neg h, if_pos (by simp [h])]
    rfl

theorem get?_foldl_set (d : OrderedMap κ β) {kvs : List (κ × β)} (hkvs : (kvs.map Prod.fst).Nodup) (k : κ) :
    (kvs.foldl (fun d kv => d.set kv.1 kv.2) d).get? k = (Assoc.get? k kvs).or (d.get? k) := by
  induction kvs generalizing d with
  | nil => rfl
  | cons kv kvs ih =>
    obtain ⟨hnew, hkvs⟩ := List.nodup_cons.mp hkvs
    rw [List.foldl_cons, ih _ hkvs, get?_set, Assoc.get?_cons]
    by_cases hk : k = kv.1
    · rw [if_pos hk, if_pos hk, hk, Assoc.get?_eq_none_iff.mpr hnew]
      rfl
    · rw [if_neg hk, if_neg hk]

theorem get?_update (d e : OrderedMap κ β) (k : κ) : (d.update e).get? k = (e.get? k).or (d.get? k) :=
  get?_foldl_set d e.nodup k

theorem mem_keys_iff : k ∈ d.keys ↔ d.get? k ≠ none := by
  rw [keys, get?, Ne, Assoc.get?_eq_none_iff, not_not]

theorem get?_eq_some_iff {v : β} : d.get? k = some v ↔ (k, v) ∈ d.entries :=
  ⟨Assoc.mem_of_get?, Assoc.get?_of_mem d.nodup⟩

end Keys

section Filtering

variable (keep : κ → β → Bool)

def filter (d : OrderedMap κ β) : OrderedMap κ β :=
  ⟨d.entries.filter fun kv => keep kv.1 kv.2, d.nodup.sublist (List.filter_sublist.map Prod.fst)⟩

theorem get?_filter [DecidableEq κ] (d : OrderedMap κ β) (k : κ) : (d.filter keep).get? k = (d.get? k).filter (keep k) := by
  refine Option.ext fun v => ?_
  rw [get?_eq_some_iff, Option.filter_eq_some_iff, get?_eq_some_iff]
  exact List.mem_filter

/-- The values that some function answers for, under their keys. -/
theorem keys_filterMap (g : β → Option γ) (kvs : List (κ × β)) :
    ((kvs.filterMap fun kv => (g kv.2).map fun w => (kv.1, w)).map Prod.fst).Sublist (kvs.map Prod.fst) := by
  induction kvs with
  | nil => exact List.Sublist.refl []
  | cons kv kvs ih =>
    rw [List.filterMap_cons]
    cases g kv.2 with
    | none => exact ih.cons kv.1
    | some w => exact ih.cons_cons kv.1

theorem get?_filterMap [DecidableEq κ] (g : β → Option γ) (d : OrderedMap κ β) (k : κ) :
    Assoc.get? k (d.entries.filterMap fun kv => (g kv.2).map fun w => (kv.1, w)) = (d.get? k).bind g := by
  refine Option.ext fun w => ?_
  have hkeys := (keys_filterMap g d.entries).nodup d.nodup
  constructor
  · intro h
    obtain ⟨kv, hkv, hw⟩ := List.mem_filterMap.mp (Assoc.mem_of_get? h)
    obtain ⟨given, hgiven, hpair⟩ := Option.map_eq_some_iff.mp hw
    obtain ⟨rfl, rfl⟩ := Prod.mk.inj hpair
    exact Option.bind_eq_some_iff.mpr ⟨kv.2, get?_eq_some_iff.mpr hkv, hgiven⟩
  · intro h
    obtain ⟨value, hvalue, hw⟩ := Option.bind_eq_some_iff.mp h
    refine Assoc.get?_of_mem hkeys (List.mem_filterMap.mpr ⟨(k, value), get?_eq_some_iff.mp hvalue, ?_⟩)
    rw [hw]
    rfl

end Filtering

section Renaming

/-- A partial renaming of the keys that tells them apart. -/
def Separates (rename : κ → Option κ') : Prop := ∀ k l m, rename k = some m → rename l = some m → k = l

theorem separates_some : Separates (some : κ → Option κ) := fun _ _ _ hk hl =>
  (Option.some.inj hk).trans (Option.some.inj hl).symm

theorem Separates.of_injective {rename : κ → κ'} (h : Function.Injective rename) :
    Separates fun k => some (rename k) := fun _ _ _ hk hl => h ((Option.some.inj hk).trans (Option.some.inj hl).symm)

def renamed (rename : κ → Option κ') (f : β → Option γ) (kv : κ × β) : Option (κ' × γ) :=
  (rename kv.1).bind fun k => (f kv.2).map fun v => (k, v)

variable {rename : κ → Option κ'} {f : β → Option γ}

theorem renamed_eq_some_iff {kv : κ × β} {k : κ'} {v : γ} :
    renamed rename f kv = some (k, v) ↔ rename kv.1 = some k ∧ f kv.2 = some v := by
  rw [renamed]
  cases rename kv.1 with
  | none => simp
  | some l =>
    cases f kv.2 with
    | none => simp
    | some w => simp

/-- The entries with a new key and a new value. -/
def convert (d : OrderedMap κ β) (rename : κ → Option κ') (hrename : Separates rename) (f : β → Option γ) : OrderedMap κ' γ where
  entries := d.entries.filterMap (renamed rename f)
  nodup := by
    have hdistinct : d.entries.Pairwise fun a b => a.1 ≠ b.1 := List.pairwise_map.mp d.nodup
    rw [List.Nodup, List.pairwise_map, List.pairwise_filterMap]
    refine hdistinct.imp fun hne a ha b hb heq => ?_
    have ha' := (renamed_eq_some_iff (k := a.1) (v := a.2)).mp ha
    have hb' := (renamed_eq_some_iff (k := b.1) (v := b.2)).mp hb
    exact hne (hrename _ _ _ ha'.1 (heq ▸ hb'.1))

variable [DecidableEq κ] [DecidableEq κ'] {d : OrderedMap κ β} {hrename : Separates rename}

theorem get?_convert_eq_some_iff {k' : κ'} {w : γ} :
    (d.convert rename hrename f).get? k' = some w ↔ ∃ k v, rename k = some k' ∧ d.get? k = some v ∧ f v = some w := by
  rw [get?_eq_some_iff, convert, List.mem_filterMap]
  constructor
  · rintro ⟨⟨k, v⟩, hmem, h⟩
    obtain ⟨hk, hv⟩ := renamed_eq_some_iff.mp h
    exact ⟨k, v, hk, get?_eq_some_iff.mpr hmem, hv⟩
  · rintro ⟨k, v, hk, hmem, hv⟩
    exact ⟨(k, v), get?_eq_some_iff.mp hmem, renamed_eq_some_iff.mpr ⟨hk, hv⟩⟩

theorem get?_convert {k : κ} {k' : κ'} (h : rename k = some k') :
    (d.convert rename hrename f).get? k' = (d.get? k).bind f := by
  ext w
  rw [get?_convert_eq_some_iff, Option.bind_eq_some_iff]
  constructor
  · rintro ⟨l, v, hl, hv, hw⟩
    rw [hrename k l k' h hl]
    exact ⟨v, hv, hw⟩
  · rintro ⟨v, hv, hw⟩
    exact ⟨k, v, h, hv, hw⟩

end Renaming

end OrderedMap
