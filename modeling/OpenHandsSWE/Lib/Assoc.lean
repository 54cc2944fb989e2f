import Mathlib

/-! Insertion-ordered maps, as lists of pairs with each key once. -/

namespace Assoc

variable {κ β : Type*} [DecidableEq κ]

/-- Sets a key: in place when it is there, at the end otherwise. -/
def set (k : κ) (v : β) : List (κ × β) → List (κ × β)
  | [] => [(k, v)]
  | (l, w) :: kvs => if l = k then (k, v) :: kvs else (l, w) :: set k v kvs

def get? (k : κ) (kvs : List (κ × β)) : Option β := kvs.lookup k

def contains (k : κ) (kvs : List (κ × β)) : Bool := (get? k kvs).isSome

def erase (k : κ) (kvs : List (κ × β)) : List (κ × β) := kvs.filter fun kv => kv.1 != k

/-- The map a sequence of pairs builds: the last value of a key wins. -/
def ofPairs (kvs : List (κ × β)) : List (κ × β) :=
  kvs.foldl (fun acc kv => set kv.1 kv.2 acc) []

@[simp] theorem get?_nil (k : κ) : get? k ([] : List (κ × β)) = none := rfl

theorem get?_cons (k l : κ) (v : β) (kvs : List (κ × β)) :
    get? k ((l, v) :: kvs) = if k = l then some v else get? k kvs := by
  rw [get?, List.lookup_cons]
  by_cases h : k = l
  · rw [if_pos h, beq_iff_eq.mpr h]
  · rw [if_neg h, beq_false_of_ne h]
    rfl

theorem get?_cons_self (k : κ) (v : β) (kvs : List (κ × β)) : get? k ((k, v) :: kvs) = some v := by
  rw [get?_cons, if_pos rfl]

theorem get?_cons_of_ne {k l : κ} (h : l ≠ k) (v : β) (kvs : List (κ × β)) :
    get? l ((k, v) :: kvs) = get? l kvs := by
  rw [get?_cons, if_neg h]

theorem get?_append (k : κ) (kvs others : List (κ × β)) :
    get? k (kvs ++ others) = (get? k kvs).or (get? k others) := by
  rw [get?, List.lookup_append]
  rfl

theorem get?_eq_none_iff {k : κ} {kvs : List (κ × β)} : get? k kvs = none ↔ k ∉ kvs.map Prod.fst := by
  rw [get?, List.lookup_eq_none_iff]
  constructor
  · intro h hmem
    obtain ⟨kv, hkv, rfl⟩ := List.mem_map.mp hmem
    simpa using h kv hkv
  · intro h kv hkv
    have hne : k ≠ kv.1 := fun heq => h (heq ▸ List.mem_map_of_mem hkv)
    simpa using hne

theorem erase_of_notMem {k : κ} {kvs : List (κ × β)} (h : k ∉ kvs.map Prod.fst) : erase k kvs = kvs := by
  refine List.filter_eq_self.mpr fun kv hkv => ?_
  have hne : kv.1 ≠ k := fun heq => h (heq ▸ List.mem_map_of_mem hkv)
  simpa using hne

theorem set_of_notMem {k : κ} {kvs : List (κ × β)} (v : β) (h : k ∉ kvs.map Prod.fst) :
    set k v kvs = kvs ++ [(k, v)] := by
  induction kvs with
  | nil => rfl
  | cons kv kvs ih =>
    simp only [List.map_cons, List.mem_cons, not_or] at h
    simp only [set, if_neg (Ne.symm h.1), List.cons_append, ih h.2]

theorem get?_map {κ' β' : Type*} [DecidableEq κ'] {g : κ → κ'} (hg : Function.Injective g) (h : β → β') (k : κ)
    (kvs : List (κ × β)) : get? (g k) (kvs.map fun kv => (g kv.1, h kv.2)) = (get? k kvs).map h := by
  induction kvs with
  | nil => rfl
  | cons kv kvs ih =>
    rw [List.map_cons, get?_cons, get?_cons]
    by_cases heq : k = kv.1
    · rw [if_pos heq, if_pos (congrArg g heq), Option.map_some]
    · rw [if_neg heq, if_neg fun hgk => heq (hg hgk), ih]

/-- Setting a key and renaming the keys commute. -/
theorem map_set {κ' β' : Type*} [DecidableEq κ'] {g : κ → κ'} (hg : Function.Injective g) (h : β → β') (k : κ) (v : β)
    (kvs : List (κ × β)) : (set k v kvs).map (fun kv => (g kv.1, h kv.2)) =
      set (g k) (h v) (kvs.map fun kv => (g kv.1, h kv.2)) := by
  induction kvs with
  | nil => rfl
  | cons kv kvs ih =>
    by_cases heq : kv.1 = k
    · rw [set, if_pos heq, List.map_cons, List.map_cons, set, if_pos (congrArg g heq)]
    · rw [set, if_neg heq, List.map_cons, ih, List.map_cons, set, if_neg fun hgk => heq (hg hgk)]

theorem mem_keys_set (k : κ) (v : β) (kvs : List (κ × β)) (l : κ) :
    l ∈ (set k v kvs).map Prod.fst ↔ l = k ∨ l ∈ kvs.map Prod.fst := by
  induction kvs with
  | nil => simp [set]
  | cons kv kvs ih =>
    simp only [set]
    split_ifs with h
    · subst h; simp
    · simp only [List.map_cons, List.mem_cons, ih]; tauto

theorem nodup_set {k : κ} {kvs : List (κ × β)} (v : β) (h : (kvs.map Prod.fst).Nodup) :
    ((set k v kvs).map Prod.fst).Nodup := by
  induction kvs with
  | nil => simp [set]
  | cons kv kvs ih =>
    simp only [List.map_cons, List.nodup_cons] at h
    simp only [set]
    split_ifs with hk
    · subst hk; simpa using h
    · simp only [List.map_cons, List.nodup_cons, mem_keys_set, not_or]
      exact ⟨⟨hk, h.1⟩, ih h.2⟩

theorem mem_set {k : κ} {v : β} {kvs : List (κ × β)} {kv : κ × β} (h : kv ∈ set k v kvs) :
    kv = (k, v) ∨ kv ∈ kvs := by
  induction kvs with
  | nil => simpa [set] using h
  | cons lw kvs ih =>
    simp only [set] at h
    split_ifs at h with hk
    · rcases List.mem_cons.mp h with h | h
      · exact .inl h
      · exact .inr (List.mem_cons_of_mem _ h)
    · rcases List.mem_cons.mp h with h | h
      · exact .inr (h ▸ List.mem_cons_self ..)
      · exact (ih h).imp id (List.mem_cons_of_mem _)

theorem mem_erase {k : κ} {kvs : List (κ × β)} {kv : κ × β} (h : kv ∈ erase k kvs) : kv ∈ kvs :=
  (List.mem_filter.mp h).1

theorem mem_of_get? {k : κ} {v : β} {kvs : List (κ × β)} (h : get? k kvs = some v) :
    (k, v) ∈ kvs := by
  induction kvs with
  | nil => simp [get?] at h
  | cons kv kvs ih =>
    obtain ⟨l, w⟩ := kv
    simp only [get?, List.lookup_cons] at h ih
    by_cases hk : k = l
    · subst hk
      simp only [beq_self_eq_true] at h
      rw [← Option.some.inj h]
      exact List.mem_cons_self ..
    · rw [beq_false_of_ne hk] at h
      exact List.mem_cons_of_mem _ (ih h)

theorem get?_of_mem {k : κ} {v : β} {kvs : List (κ × β)} (hnodup : (kvs.map Prod.fst).Nodup) (h : (k, v) ∈ kvs) :
    get? k kvs = some v := by
  induction kvs with
  | nil => cases h
  | cons kv kvs ih =>
    obtain ⟨hnotMem, hrest⟩ := List.nodup_cons.mp hnodup
    rcases List.mem_cons.mp h with rfl | hmem
    · exact get?_cons_self k v kvs
    · have hne : k ≠ kv.1 := fun heq => hnotMem (heq ▸ List.mem_map_of_mem hmem)
      rw [get?_cons_of_ne hne, ih hrest hmem]

/-- Of distinct keys one is found, and the rest is what erasing it leaves. -/
theorem perm_erase {k : κ} {v : β} {kvs : List (κ × β)} (hnodup : (kvs.map Prod.fst).Nodup)
    (h : get? k kvs = some v) : kvs.Perm ((k, v) :: erase k kvs) := by
  induction kvs with
  | nil => cases h
  | cons kv kvs ih =>
    obtain ⟨l, w⟩ := kv
    obtain ⟨hnotMem, hrest⟩ := List.nodup_cons.mp hnodup
    rw [get?_cons] at h
    split_ifs at h with heq
    · subst heq
      cases h
      have hcons : erase k ((k, v) :: kvs) = erase k kvs := List.filter_cons_of_neg (by simp)
      rw [hcons, erase_of_notMem hnotMem]
    · have hcons : erase k ((l, w) :: kvs) = (l, w) :: erase k kvs :=
        List.filter_cons_of_pos (by simpa using fun hl => heq hl.symm)
      rw [hcons]
      exact ((ih hrest h).cons _).trans (List.Perm.swap _ _ _)

theorem nodup_erase {k : κ} {kvs : List (κ × β)} (h : (kvs.map Prod.fst).Nodup) :
    ((erase k kvs).map Prod.fst).Nodup := h.sublist (List.filter_sublist.map _)

theorem get?_set_self (k : κ) (v : β) (kvs : List (κ × β)) : get? k (set k v kvs) = some v := by
  induction kvs with
  | nil => simp [set, get?]
  | cons kv kvs ih =>
    obtain ⟨l, w⟩ := kv
    rw [set]
    split_ifs with h
    · simp [get?]
    · simpa [get?, List.lookup_cons, beq_false_of_ne (Ne.symm h)] using ih

theorem get?_set_of_ne {k l : κ} (h : l ≠ k) (v : β) (kvs : List (κ × β)) :
    get? l (set k v kvs) = get? l kvs := by
  induction kvs with
  | nil => simp [set, get?, List.lookup_cons, beq_false_of_ne h]
  | cons kv kvs ih =>
    obtain ⟨m, w⟩ := kv
    rw [set]
    split_ifs with hm
    · subst hm
      simp [get?, List.lookup_cons, beq_false_of_ne h]
    · simp only [get?, List.lookup_cons] at ih ⊢
      rw [ih]

theorem get?_of_get?_erase {k l : κ} {v : β} {kvs : List (κ × β)}
    (h : get? l (erase k kvs) = some v) : get? l kvs = some v := by
  induction kvs with
  | nil => exact h
  | cons kv kvs ih =>
    obtain ⟨m, w⟩ := kv
    simp only [get?, erase, List.filter_cons, List.lookup_cons] at h ih ⊢
    split_ifs at h with hm
    · rw [List.lookup_cons] at h
      cases hlm : l == m with
      | true => simpa [hlm] using h
      | false => exact ih (by simpa [hlm] using h)
    · have hmk : m = k := by simpa using hm
      subst hmk
      have hl : l ≠ m := by
        rintro rfl
        exact absurd (mem_erase (mem_of_get? h)) (by
          intro hmem
          have := (List.mem_filter.mp (mem_of_get? h)).2
          simp at this)
      rw [beq_false_of_ne hl]
      exact ih h

theorem ofPairs_of_nodup {kvs : List (κ × β)} (h : (kvs.map Prod.fst).Nodup) :
    ofPairs kvs = kvs := by
  have key : ∀ (acc : List (κ × β)), ((acc ++ kvs).map Prod.fst).Nodup →
      kvs.foldl (fun acc kv => set kv.1 kv.2 acc) acc = acc ++ kvs := by
    clear h
    induction kvs with
    | nil => intro acc _; simp
    | cons kv kvs ih =>
      intro acc hacc
      have hnot : kv.1 ∉ acc.map Prod.fst := by
        rw [List.map_append, List.nodup_append] at hacc
        exact fun hm => hacc.2.2 _ hm _ (by simp) rfl
      rw [List.foldl_cons, set_of_notMem _ hnot, ih _ (by simpa using hacc)]
      simp
  simpa [ofPairs] using key [] (by simpa using h)

/-- What holds of every pair given holds of every pair of the map, whose keys are distinct. -/
theorem ofPairs_spec {P : κ × β → Prop} {kvs : List (κ × β)} (h : ∀ kv ∈ kvs, P kv) :
    ((ofPairs kvs).map Prod.fst).Nodup ∧ ∀ kv ∈ ofPairs kvs, P kv := by
  have key : ∀ (acc : List (κ × β)), (acc.map Prod.fst).Nodup → (∀ kv ∈ acc, P kv) →
      ((kvs.foldl (fun acc kv => set kv.1 kv.2 acc) acc).map Prod.fst).Nodup ∧
        ∀ kv ∈ kvs.foldl (fun acc kv => set kv.1 kv.2 acc) acc, P kv := by
    induction kvs with
    | nil => exact fun acc hn hw => ⟨hn, hw⟩
    | cons kv kvs ih =>
      intro acc hn hw
      refine ih (fun x hx => h x (List.mem_cons_of_mem _ hx)) _ (nodup_set _ hn) fun x hx => ?_
      rcases mem_set hx with rfl | hx
      · exact h kv (List.mem_cons_self ..)
      · exact hw x hx
  exact key [] (by simp) (by simp)

/-- The last of the pairs with a key decides what the map has for it. -/
theorem get?_ofPairs (k : κ) (kvs : List (κ × β)) :
    get? k (ofPairs kvs) = ((kvs.filter fun kv => kv.1 = k).getLast?).map Prod.snd := by
  induction kvs using List.reverseRecOn with
  | nil => rfl
  | append_singleton kvs kv ih =>
    have hset : ofPairs (kvs ++ [kv]) = set kv.1 kv.2 (ofPairs kvs) := by rw [ofPairs, List.foldl_append]; rfl
    rw [hset, List.filter_append]
    by_cases hk : kv.1 = k
    · rw [← hk, get?_set_self]
      simp
    · rw [get?_set_of_ne (Ne.symm hk), ih]
      simp [hk]

/-- A map of no more pairs than distinct keys agrees with the list of these when it is made of the same pairs. -/
theorem get?_ofPairs_eq_iff {kvs own : List (κ × β)} (hown : (own.map Prod.fst).Nodup) (hlength : kvs.length ≤ own.length) :
    (∀ k, get? k (ofPairs kvs) = get? k own) ↔ kvs.Perm own := by
  constructor
  · intro h
    have hkeys : own.map Prod.fst ⊆ kvs.map Prod.fst := by
      intro k hk
      by_contra hnot
      have hnone : get? k (ofPairs kvs) = none := by
        rw [get?_ofPairs, List.filter_eq_nil_iff.mpr]
        · rfl
        · intro kv hkv hkey
          exact hnot (List.mem_map.mpr ⟨kv, hkv, by simpa using hkey⟩)
      rw [h k] at hnone
      exact get?_eq_none_iff.mp hnone hk
    have hperm : (own.map Prod.fst).Perm (kvs.map Prod.fst) :=
      (List.subperm_of_subset hown hkeys).perm_of_length_le (by simpa using hlength)
    have hnodup : (kvs.map Prod.fst).Nodup := hperm.nodup_iff.mp hown
    rw [ofPairs_of_nodup hnodup] at h
    have hsubset : own ⊆ kvs := fun kv hkv => mem_of_get? (by rw [h kv.1, get?_of_mem hown hkv])
    exact ((List.subperm_of_subset hown.of_map hsubset).perm_of_length_le hlength).symm
  · intro hperm k
    have hnodup : (kvs.map Prod.fst).Nodup := (hperm.map Prod.fst).nodup_iff.mpr hown
    rw [ofPairs_of_nodup hnodup]
    cases hk : get? k own with
    | none => exact get?_eq_none_iff.mpr fun hmem => get?_eq_none_iff.mp hk ((hperm.map Prod.fst).mem_iff.mp hmem)
    | some v => exact get?_of_mem hnodup (hperm.mem_iff.mpr (mem_of_get? hk))

/-- A map restricted to some keys. -/
theorem get?_filter (p : κ → Bool) (k : κ) (kvs : List (κ × β)) :
    get? k (kvs.filter fun kv => p kv.1) = if p k then get? k kvs else none := by
  induction kvs with
  | nil => simp [get?]
  | cons kv kvs ih =>
    obtain ⟨l, w⟩ := kv
    simp only [get?] at ih ⊢
    by_cases hk : k = l
    · subst hk
      cases hp : p k with
      | true => simp [hp, List.lookup_cons]
      | false => simpa [hp] using ih
    · cases hp : p l with
      | true => simpa [hp, List.lookup_cons, beq_false_of_ne hk] using ih
      | false => simpa [hp, List.lookup_cons, beq_false_of_ne hk] using ih

theorem get?_erase (l k : κ) (kvs : List (κ × β)) : get? k (erase l kvs) = if k = l then none else get? k kvs := by
  rw [erase, get?_filter fun key => key != l]
  by_cases h : k = l
  · rw [if_pos h, if_neg (by simp [h])]
  · rw [if_neg h, if_pos (by simp [h])]

end Assoc
