import OpenHandsSWE.Events.Metrics
import OpenHandsSWE.Lib.Text

/-! Masking secrets in the dictionary of an event. -/

/-! ## The texts of a value -/

namespace Json

mutual
/-- Every text that occurs in a value, keys among them. -/
def texts : Json → List String
  | .str s => [s]
  | .arr xs => textsItems xs
  | .obj kvs => textsMembers kvs
  | .null | .bool _ | .int _ | .float _ => []

def textsItems : List Json → List String
  | [] => []
  | x :: xs => texts x ++ textsItems xs

def textsMembers : List (String × Json) → List String
  | [] => []
  | (k, v) :: kvs => k :: (texts v ++ textsMembers kvs)
end

mutual
/-- The texts that masking does not reach: keys, and all that lies within a list. -/
def unmasked : Json → List String
  | .arr xs => textsItems xs
  | .obj kvs => unmaskedMembers kvs
  | .null | .bool _ | .int _ | .float _ | .str _ => []

def unmaskedMembers : List (String × Json) → List String
  | [] => []
  | (k, v) :: kvs => k :: (unmasked v ++ unmaskedMembers kvs)
end

end Json

namespace OpenHands

def SECRET_HIDDEN : String := "<secret_hidden>"

def TOP_LEVEL_PROTECTED_FIELDS : List String :=
  ["timestamp", "id", "source", "cause", "action", "observation", "message"]

/-- `text.replace(secret, '<secret_hidden>')`; an empty text is found between all characters. -/
def hideSecret (text secret : List Char) : List Char :=
  if secret = [] then SECRET_HIDDEN.toList ++ text.flatMap fun c => c :: SECRET_HIDDEN.toList
  else Text.replace secret SECRET_HIDDEN.toList text

/-- The secrets are replaced one after another. -/
def hideSecrets (secrets : List String) (text : String) : String :=
  .ofList ((secrets.map String.toList).foldl hideSecret text.toList)

mutual
/-- Below the top level only dictionaries are entered and only their texts are masked. -/
def replaceValue (secrets : List String) : Json → Json
  | .obj kvs => .obj (replaceMembers secrets kvs)
  | .str s => .str (hideSecrets secrets s)
  | .arr xs => .arr xs -- a list is left as it is
  | .null => .null
  | .bool b => .bool b
  | .int n => .int n
  | .float x => .float x

def replaceMembers (secrets : List String) : Dict → Dict
  | [] => []
  | (k, v) :: kvs => (k, replaceValue secrets v) :: replaceMembers secrets kvs
end

def replaceSecrets (secrets : List String) (data : Dict) : Dict :=
  data.map fun kv =>
    if TOP_LEVEL_PROTECTED_FIELDS.contains kv.1 then kv else (kv.1, replaceValue secrets kv.2)

/-! ## Freedom from secrets -/

/-- The entries of an event's dictionary that masking does not leave to the system. -/
def unprotected (data : Dict) : Dict :=
  data.filter fun kv => !TOP_LEVEL_PROTECTED_FIELDS.contains kv.1

def FreeOf (secrets : List String) (texts : List String) : Prop :=
  ∀ text ∈ texts, ∀ secret ∈ secrets, ¬ secret.toList <:+: text.toList

/-- Secrets that are not empty and overlap the marker nowhere. -/
def Distinguishable (secrets : List String) : Prop :=
  ∀ secret ∈ secrets, secret ≠ "" ∧ Text.NoOverlap secret.toList SECRET_HIDDEN.toList

section Masking

variable {secrets : List String}

theorem freeOf_append {xs ys : List String} :
    FreeOf secrets (xs ++ ys) ↔ FreeOf secrets xs ∧ FreeOf secrets ys :=
  List.forall_mem_append

theorem freeOf_cons (x : String) (xs : List String) :
    FreeOf secrets (x :: xs) ↔ FreeOf secrets [x] ∧ FreeOf secrets xs := by
  rw [← List.singleton_append, freeOf_append]

theorem Distinguishable.tail {secret : String} (h : Distinguishable (secret :: secrets)) :
    Distinguishable secrets := fun s hs => h s (List.mem_cons_of_mem _ hs)

theorem toList_ne_nil {s : String} (h : s ≠ "") : s.toList ≠ [] := by
  intro hnil
  exact h (String.toList_inj.mp hnil)

theorem hideSecret_of_ne {text secret : List Char} (h : secret ≠ []) :
    hideSecret text secret = Text.replace secret SECRET_HIDDEN.toList text := if_neg h

/-- What is hidden later does not bring back what is hidden already. -/
theorem hidden_stays (h : Distinguishable secrets) {secret : String} (hne : secret ≠ "")
    (hover : Text.NoOverlap secret.toList SECRET_HIDDEN.toList) {text : List Char}
    (hclean : ¬ secret.toList <:+: text) :
    ¬ secret.toList <:+: (secrets.map String.toList).foldl hideSecret text := by
  induction secrets generalizing text with
  | nil => exact hclean
  | cons other secrets ih =>
    have hother := toList_ne_nil (h other (List.mem_cons_self ..)).1
    rw [List.map_cons, List.foldl_cons, hideSecret_of_ne hother]
    apply ih h.tail
    intro hin
    exact hclean (hover.infix_of_replace (toList_ne_nil hne) hother hin)

theorem hideSecrets_clean (h : Distinguishable secrets) (text : List Char) {secret : String}
    (hs : secret ∈ secrets) :
    ¬ secret.toList <:+: (secrets.map String.toList).foldl hideSecret text := by
  induction secrets generalizing text with
  | nil => cases hs
  | cons other secrets ih =>
    obtain ⟨hne, hover⟩ := h other (List.mem_cons_self ..)
    rw [List.map_cons, List.foldl_cons]
    rcases List.mem_cons.mp hs with rfl | hs
    · apply hidden_stays h.tail hne hover
      rw [hideSecret_of_ne (toList_ne_nil hne)]
      exact hover.replace_clean (toList_ne_nil hne) text
    · exact ih h.tail _ hs

theorem freeOf_hideSecrets (h : Distinguishable secrets) (s : String) :
    FreeOf secrets [hideSecrets secrets s] := by
  intro text htext secret hs
  rw [List.mem_singleton.mp htext, hideSecrets, String.toList_ofList]
  exact hideSecrets_clean h _ hs

mutual
/-- A masked value is free of secrets exactly when what masking does not reach is. -/
theorem freeOf_replaceValue (h : Distinguishable secrets) (v : Json) :
    FreeOf secrets (replaceValue secrets v).texts ↔ FreeOf secrets v.unmasked := by
  match v with
  | .obj kvs =>
    rw [replaceValue, Json.texts, Json.unmasked]
    exact freeOf_replaceMembers h kvs
  | .str s =>
    rw [replaceValue, Json.texts, Json.unmasked]
    exact iff_of_true (freeOf_hideSecrets h s) (by simp [FreeOf])
  | .arr xs => rw [replaceValue, Json.texts, Json.unmasked]
  | .null | .bool _ | .int _ | .float _ => rw [replaceValue, Json.texts, Json.unmasked]

theorem freeOf_replaceMembers (h : Distinguishable secrets) (kvs : Dict) :
    FreeOf secrets (Json.textsMembers (replaceMembers secrets kvs)) ↔
      FreeOf secrets (Json.unmaskedMembers kvs) := by
  match kvs with
  | [] => rw [replaceMembers, Json.textsMembers, Json.unmaskedMembers]
  | (k, v) :: kvs =>
    have hv := freeOf_replaceValue h v
    have hkvs := freeOf_replaceMembers h kvs
    rw [replaceMembers, Json.textsMembers, Json.unmaskedMembers, freeOf_cons, freeOf_append,
      freeOf_cons k (v.unmasked ++ _), freeOf_append, hv, hkvs]
end

/-- The protected entries stay and the others are masked. -/
theorem unprotected_replaceSecrets (data : Dict) :
    unprotected (replaceSecrets secrets data) = replaceMembers secrets (unprotected data) := by
  induction data with
  | nil => rfl
  | cons kv data ih =>
    have hcons : replaceSecrets secrets (kv :: data) =
        (if TOP_LEVEL_PROTECTED_FIELDS.contains kv.1 then kv
          else (kv.1, replaceValue secrets kv.2)) :: replaceSecrets secrets data := rfl
    rw [hcons, unprotected, unprotected]
    cases hp : TOP_LEVEL_PROTECTED_FIELDS.contains kv.1 with
    | true =>
      rw [if_pos rfl, List.filter_cons_of_neg (by rw [hp]; decide),
        List.filter_cons_of_neg (by rw [hp]; decide)]
      exact ih
    | false =>
      rw [if_neg (by decide), List.filter_cons_of_pos (by rw [hp]; decide),
        List.filter_cons_of_pos (by rw [hp]; decide), replaceMembers]
      exact congrArg _ ih

theorem freeOf_replaceSecrets (h : Distinguishable secrets) (data : Dict) :
    FreeOf secrets (Json.textsMembers (unprotected (replaceSecrets secrets data))) ↔
      FreeOf secrets (Json.unmaskedMembers (unprotected data)) := by
  rw [unprotected_replaceSecrets]
  exact freeOf_replaceMembers h _

end Masking

/-! ## What masking keeps -/

section Keeping

variable (secrets : List String)

theorem replaceMembers_keys (kvs : Dict) :
    (replaceMembers secrets kvs).map Prod.fst = kvs.map Prod.fst := by
  induction kvs with
  | nil => rw [replaceMembers]
  | cons kv kvs ih => rw [replaceMembers, List.map_cons, List.map_cons, ih]

mutual
theorem replaceValue_wellFormed {v : Json} (h : v.WellFormed) :
    (replaceValue secrets v).WellFormed := by
  match v with
  | .obj kvs =>
    rw [replaceValue, Json.WellFormed, replaceMembers_keys]
    rw [Json.WellFormed] at h
    exact ⟨h.1, replaceMembers_wellFormed h.2⟩
  | .str s => simp [replaceValue, Json.WellFormed]
  | .arr xs => rw [replaceValue]; exact h
  | .null | .bool _ | .int _ | .float _ => rw [replaceValue]; exact h

theorem replaceMembers_wellFormed {kvs : Dict} (h : Json.WellFormedMembers kvs) :
    Json.WellFormedMembers (replaceMembers secrets kvs) := by
  match kvs with
  | [] => rw [replaceMembers]; exact h
  | (k, v) :: kvs =>
    rw [Json.WellFormedMembers] at h
    rw [replaceMembers, Json.WellFormedMembers]
    exact ⟨replaceValue_wellFormed h.1, replaceMembers_wellFormed h.2⟩
end

theorem replaceSecrets_keys (data : Dict) :
    (replaceSecrets secrets data).map Prod.fst = data.map Prod.fst := by
  rw [replaceSecrets, List.map_map]
  refine List.map_congr_left fun kv _ => ?_
  show (if _ then kv else _).1 = kv.1
  split <;> rfl

theorem replaceSecrets_wellFormed {data : Dict} (h : (Json.obj data).WellFormed) :
    (Json.obj (replaceSecrets secrets data)).WellFormed := by
  rw [Json.WellFormed, Json.wellFormedMembers_iff] at h ⊢
  rw [replaceSecrets_keys]
  refine ⟨h.1, fun kv hkv => ?_⟩
  obtain ⟨kw, hkw, rfl⟩ := List.mem_map.mp hkv
  split
  · exact h.2 kw hkw
  · exact replaceValue_wellFormed secrets (h.2 kw hkw)

/-- A protected entry is what it was. -/
theorem get?_replaceSecrets {name : String} (hname : name ∈ TOP_LEVEL_PROTECTED_FIELDS)
    (data : Dict) : Assoc.get? name (replaceSecrets secrets data) = Assoc.get? name data := by
  induction data with
  | nil => rfl
  | cons kv data ih =>
    rw [Assoc.get?, Assoc.get?] at ih ⊢
    rw [replaceSecrets, List.map_cons]
    by_cases hk : name = kv.1
    · subst hk
      rw [if_pos (List.contains_iff_mem.mpr hname), List.lookup_cons, List.lookup_cons]
      simp
    · have hkey : (if TOP_LEVEL_PROTECTED_FIELDS.contains kv.1 then kv
          else (kv.1, replaceValue secrets kv.2)).1 = kv.1 := by split <;> rfl
      rw [List.lookup_cons, List.lookup_cons, hkey, beq_false_of_ne hk]
      exact ih

end Keeping

end OpenHands
