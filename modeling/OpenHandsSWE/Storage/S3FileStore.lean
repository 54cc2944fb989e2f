import OpenHandsSWE.Lib.Assoc
import OpenHandsSWE.Lib.Directory
import OpenHandsSWE.Lib.Text

/-! The store over an S3 bucket, and the event counter that is read from it. -/

namespace OpenHands

namespace S3FileStore

abbrev Key := List Char

/-- The objects of a bucket, each key once. -/
structure Bucket where
  objects : List (Key × List UInt8)
  nodup : (objects.map Prod.fst).Nodup

namespace Bucket

def keys (b : Bucket) : List Key := b.objects.map Prod.fst

def deleteObject (b : Bucket) (key : Key) : Bucket := ⟨Assoc.erase key b.objects, Assoc.nodup_erase b.nodup⟩

/-- The keys that begin with a text, in lexicographic order. -/
def keysUnder (b : Bucket) (start : Key) : List Key := (b.keys.filter (start.isPrefixOf ·)).insertionSort (· ≤ ·)

/-- One page of at most a thousand keys. -/
def listObjectsV2 (b : Bucket) (start : Key) : List Key := (b.keysUnder start).take 1000

end Bucket

/-! ## The store -/

def directory (path : Key) : Key :=
  if path = [] ∨ path = ['/'] then [] else if path.getLast? = some '/' then path else path ++ ['/']

/-- The entry of a key: the slash is looked for from the second character after the directory on, so
that it never stands right after it. -/
def entry (path subPath : Key) : Key :=
  match (subPath.drop (path.length + 1)).findIdx? (· = '/') with
  | some i => subPath.take (path.length + 1 + i + 1)
  | none => subPath

def list (b : Bucket) (path : Key) : List Key :=
  let path := directory path
  (((b.listObjectsV2 path).filter (· ≠ path)).map (entry path)).dedup

def objectPath (path : Key) : Key :=
  let path := if path = [] ∨ path = ['/'] then [] else path
  if path.getLast? = some '/' then path.dropLast else path

def delete (b : Bucket) (path : Key) : Bucket :=
  ((b.listObjectsV2 (objectPath path ++ ['/'])).foldl Bucket.deleteObject b).deleteObject (objectPath path)

/-! ## The event counter -/

def conversationDir (sid : Key) (userId : Option Key) : Key :=
  match userId with
  | some (c :: cs) => "users/".toList ++ (c :: cs) ++ "/conversations/".toList ++ sid ++ ['/']
  | _ => "sessions/".toList ++ sid ++ ['/']

def eventsDir (sid : Key) (userId : Option Key) : Key := conversationDir sid userId ++ "events/".toList

def eventName (id : ℕ) : Key := Nat.toDigits 10 id ++ ".json".toList

def getIdFromFilename (filename : Key) : ℤ :=
  let name := (Text.split ['/'] filename).getLast?.getD []
  let stem := (Text.split ['.'] name).head?.getD []
  (Text.parseInt stem).getD (-1)

def calculateCurId (b : Bucket) (sid : Key) (userId : Option Key) : ℤ :=
  let events := list b (eventsDir sid userId)
  if events = [] then 0
  else
    events.foldl (fun maxId event => if maxId ≤ getIdFromFilename event then getIdFromFilename event else maxId) (-1) + 1

/-! ## What is asked of it -/

/-- Exactly the direct children, each once. -/
def ListsChildren (b : Bucket) (path : Key) : Prop :=
  (list b path).Nodup ∧ ∀ e, e ∈ list b path ↔ Directory.IsChild b.keys (directory path) e

/-- The object goes and every one below it, and no other. -/
def DeletesSubtree (b : Bucket) (path : Key) : Prop :=
  ∀ o, o ∈ (delete b path).objects ↔ o ∈ b.objects ∧ o.1 ≠ objectPath path ∧ ¬ objectPath path ++ ['/'] <+: o.1

/-- Events `0` to `n - 1` and nothing else, each in its own file. -/
def HoldsEvents (b : Bucket) (dir : Key) (n : ℕ) : Prop :=
  (b.keysUnder dir).Perm ((List.range n).map fun id => dir ++ eventName id)

/-- The counter goes on where the events end, and the next event takes no stored one's file. -/
def Resumes (b : Bucket) (sid : Key) (userId : Option Key) (n : ℕ) : Prop :=
  calculateCurId b sid userId = n ∧
    eventsDir sid userId ++ eventName (calculateCurId b sid userId).toNat ∉ b.keys

/-! ## When it does -/

/-- No key of the first page has an empty name in the directory, and the keys after the page lie in
the sub-directory that its last key lies in. -/
def ChildrenShown (b : Bucket) (path : Key) : Prop :=
  let d := directory path
  (∀ k ∈ b.listObjectsV2 d, d ++ ['/'] <+: k → k = d ++ ['/']) ∧
    ∀ k ∈ (b.keysUnder d).drop 1000, ∃ last ∈ (b.listObjectsV2 d).getLast?, Directory.child d k = Directory.child d last

def SubtreeFits (b : Bucket) (path : Key) : Prop := (b.keysUnder (objectPath path ++ ['/'])).length ≤ 1000

/-- Fewer than a thousand event files come before the last one in lexicographic order. -/
def LastShown (n : ℕ) : Prop :=
  n = 0 ∨ (List.range n).countP (fun id => decide (eventName id < eventName (n - 1))) < 1000

instance (n : ℕ) : Decidable (LastShown n) := inferInstanceAs (Decidable (_ ∨ _))

/-! ## Listing -/

section Listing

variable {b : Bucket} {d k : Key}

theorem mem_keysUnder : k ∈ b.keysUnder d ↔ k ∈ b.keys ∧ d <+: k := by
  rw [Bucket.keysUnder, List.mem_insertionSort, List.mem_filter, List.isPrefixOf_iff_prefix]

theorem keysUnder_sorted (b : Bucket) (d : Key) : (b.keysUnder d).Pairwise (· < ·) := by
  have hle : (b.keysUnder d).Pairwise (· ≤ ·) := List.pairwise_insertionSort _ _
  have hnodup : (b.keysUnder d).Nodup := (List.perm_insertionSort _ _).nodup_iff.mpr (b.nodup.filter _)
  exact hle.imp₂ (fun _ _ hle hne => lt_of_le_of_ne hle hne) hnodup

theorem entry_append (c : Char) (r : Key) : entry d (d ++ c :: r) = d ++ c :: Directory.firstName r := by
  have hdrop : (d ++ c :: r).drop (d.length + 1) = r := by simp [List.drop_append]
  rw [entry, hdrop]
  rcases Directory.name_cases r with hr | ⟨name, rest, hname, rfl⟩
  · have hnone : r.findIdx? (· = '/') = none := by
      rw [List.findIdx?_eq_none_iff]
      intro x hx
      have hne : x ≠ '/' := fun heq => hr (heq ▸ hx)
      simpa using hne
    rw [hnone, Directory.firstName_of_notMem hr]
  · have hbefore : name.findIdx? (· = '/') = none := by
      rw [List.findIdx?_eq_none_iff]
      intro x hx
      have hne : x ≠ '/' := fun heq => hname (heq ▸ hx)
      simpa using hne
    have hsome : (name ++ '/' :: rest).findIdx? (· = '/') = some name.length := by
      rw [List.findIdx?_append, hbefore, List.findIdx?_cons]
      simp
    have hsplit : d ++ c :: (name ++ '/' :: rest) = (d ++ c :: (name ++ ['/'])) ++ rest := by simp
    rw [hsome, Directory.firstName_append hname, hsplit]
    exact List.take_left' (by simp; omega)

/-- The code's entry is the child unless the name is empty. -/
theorem entry_eq_child_iff (hk : d <+: k) (hne : k ≠ d) :
    entry d k = Directory.child d k ↔ (d ++ ['/'] <+: k → k = d ++ ['/']) := by
  obtain ⟨r, rfl⟩ := hk
  cases r with
  | nil => exact absurd (List.append_nil d) hne
  | cons c r =>
    rw [entry_append, Directory.child_append]
    by_cases hc : c = '/'
    · rw [hc, show '/' :: r = [] ++ '/' :: r from rfl, Directory.firstName_append List.not_mem_nil]
      have hbelow : d ++ ['/'] <+: d ++ ([] ++ '/' :: r) := ⟨r, by simp⟩
      constructor
      · intro heq _
        have hnil : Directory.firstName r = [] := (List.cons.inj (List.append_cancel_left heq)).2
        rw [Directory.firstName_eq_nil hnil]
        rfl
      · intro h
        have hr : r = [] := (List.cons.inj (List.append_cancel_left (h hbelow))).2
        rw [hr]
        rfl
    · rw [Directory.firstName_cons hc]
      refine iff_of_true rfl fun hbelow => ?_
      obtain ⟨rest, hrest⟩ := hbelow
      rw [List.append_assoc] at hrest
      exact absurd (List.cons.inj (List.append_cancel_left hrest)).1.symm hc

theorem mem_page (hk : k ∈ b.listObjectsV2 d) : k ∈ b.keys ∧ d <+: k := mem_keysUnder.mp (List.mem_of_mem_take hk)

theorem mem_list {path e : Key} :
    e ∈ list b path ↔ ∃ k ∈ b.listObjectsV2 (directory path), k ≠ directory path ∧ entry (directory path) k = e := by
  unfold list
  rw [List.mem_dedup, List.mem_map]
  constructor
  · rintro ⟨k, hk, rfl⟩
    obtain ⟨hk, hne⟩ := List.mem_filter.mp hk
    exact ⟨k, hk, by simpa using hne, rfl⟩
  · rintro ⟨k, hk, hne, rfl⟩
    exact ⟨k, List.mem_filter.mpr ⟨hk, by simpa using hne⟩, rfl⟩

/-- An entry with an empty name is no child, unless it is the sub-directory of that name. -/
theorem child_of_isChild_entry (hk : d <+: k) (hne : k ≠ d) (h : Directory.IsChild b.keys d (entry d k)) :
    d ++ ['/'] <+: k → k = d ++ ['/'] := by
  rintro ⟨rest, rfl⟩
  rw [List.append_assoc, List.singleton_append, entry_append] at h
  obtain ⟨name, hname, ⟨-, heq, -⟩ | ⟨heq, -⟩⟩ := h
  · have hcancel : '/' :: Directory.firstName rest = name := List.append_cancel_left heq
    rw [← hcancel] at hname
    exact absurd List.mem_cons_self hname
  · rw [List.append_assoc] at heq
    have hcancel : '/' :: Directory.firstName rest = name ++ ['/'] := List.append_cancel_left heq
    cases name with
    | nil =>
      have hnil : Directory.firstName rest = [] := (List.cons.inj hcancel).2
      rw [Directory.firstName_eq_nil hnil, List.append_nil]
    | cons c name => exact absurd ((List.cons.inj hcancel).1 ▸ List.mem_cons_self) hname

/-- Keys after the page that share their entry with one of it share it with its last key. -/
theorem last_of_child_eq {k' : Key} (hk : k ∈ (b.keysUnder d).drop 1000) (hk' : k' ∈ b.listObjectsV2 d)
    (h : Directory.child d k = Directory.child d k') :
    ∃ last ∈ (b.listObjectsV2 d).getLast?, Directory.child d k = Directory.child d last := by
  have hsorted := keysUnder_sorted b d
  have hkeys := List.take_append_drop 1000 (b.keysUnder d)
  rw [← hkeys, List.pairwise_append] at hsorted
  obtain ⟨hpage, -, hbefore⟩ := hsorted
  have hbelow : d <+: k := (mem_keysUnder.mp (List.mem_of_mem_drop hk)).2
  obtain ⟨last, hlast⟩ : ∃ last, (b.listObjectsV2 d).getLast? = some last :=
    Option.ne_none_iff_exists'.mp fun hnone => by
      rw [List.getLast?_eq_none_iff.mp hnone] at hk'
      cases hk'
  refine ⟨last, hlast, ?_⟩
  have hmem : last ∈ b.listObjectsV2 d := List.mem_of_getLast? hlast
  have hle : k' ≤ last := by
    obtain ⟨init, hinit⟩ := List.getLast?_eq_some_iff.mp hlast
    have hk'' : k' ∈ init ++ [last] := hinit ▸ hk'
    have hpage' : (init ++ [last]).Pairwise (· < ·) := hinit ▸ hpage
    rcases List.mem_append.mp hk'' with hk'' | hk''
    · exact ((List.pairwise_append.mp hpage').2.2 k' hk'' last (List.mem_singleton.mpr rfl)).le
    · exact (List.mem_singleton.mp hk'').le
  rcases Directory.eq_or_below_of_child_eq hbelow (mem_page hk').2 h with rfl | ⟨name, hname, hdir, hk, hk'⟩
  · exact absurd (hbefore k hk' k hk) (lt_irrefl k)
  · have hbetween : Directory.child d k <+: last :=
      Directory.begins_between hle (hbefore last hmem k ‹_›).le hk' hk
    rw [hdir] at hbetween ⊢
    exact (Directory.child_of_below hname hbetween).symm

/-- The key of the directory itself is on the page. -/
theorem ne_of_mem_drop (hk : k ∈ (b.keysUnder d).drop 1000) : k ≠ d := by
  rintro rfl
  have hsorted := keysUnder_sorted b k
  rw [← List.take_append_drop 1000 (b.keysUnder k), List.pairwise_append] at hsorted
  have hlength : 1000 < (b.keysUnder k).length := by
    have hpos := List.length_pos_of_mem hk
    rw [List.length_drop] at hpos
    omega
  obtain ⟨k', hk'⟩ : ∃ k', k' ∈ (b.keysUnder k).take 1000 := by
    refine List.exists_mem_of_length_pos ?_
    rw [List.length_take]
    omega
  have hlt := hsorted.2.2 k' hk' k hk
  exact absurd hlt (not_lt.mpr (Directory.le_of_begins (mem_page hk').2))

theorem listsChildren_iff (b : Bucket) (path : Key) : ListsChildren b path ↔ ChildrenShown b path := by
  have hall (k : Key) : k ∈ b.keysUnder (directory path) ↔
      k ∈ b.listObjectsV2 (directory path) ∨ k ∈ (b.keysUnder (directory path)).drop 1000 := by
    rw [← List.mem_append, Bucket.listObjectsV2, List.take_append_drop]
  constructor
  · rintro ⟨-, hlist⟩
    have hregular : ∀ k ∈ b.listObjectsV2 (directory path), directory path ++ ['/'] <+: k → k = directory path ++ ['/'] := by
      intro k hk hbelow
      have hne : k ≠ directory path := fun heq => by
        have hlength := hbelow.length_le
        rw [heq] at hlength
        simp at hlength
      have hchild := (hlist _).mp (mem_list.mpr ⟨k, hk, hne, rfl⟩)
      exact child_of_isChild_entry (mem_page hk).2 hne hchild hbelow
    refine ⟨hregular, fun k hk => ?_⟩
    obtain ⟨hkeys, hbelow⟩ := mem_keysUnder.mp (List.mem_of_mem_drop hk)
    have hne : k ≠ directory path := ne_of_mem_drop hk
    have hchild : Directory.IsChild b.keys (directory path) (Directory.child (directory path) k) :=
      Directory.isChild_iff.mpr ⟨k, hkeys, hbelow, hne, rfl⟩
    obtain ⟨k', hk', hne', hentry⟩ := mem_list.mp ((hlist _).mpr hchild)
    rw [(entry_eq_child_iff (mem_page hk').2 hne').mpr (hregular k' hk')] at hentry
    exact last_of_child_eq hk hk' hentry.symm
  · rintro ⟨hregular, hshown⟩
    refine ⟨List.nodup_dedup _, fun e => ?_⟩
    rw [mem_list, Directory.isChild_iff]
    constructor
    · rintro ⟨k, hk, hne, rfl⟩
      obtain ⟨hkeys, hbelow⟩ := mem_page hk
      exact ⟨k, hkeys, hbelow, hne, ((entry_eq_child_iff hbelow hne).mpr (hregular k hk)).symm⟩
    · rintro ⟨k, hkeys, hbelow, hne, rfl⟩
      rcases (hall k).mp (mem_keysUnder.mpr ⟨hkeys, hbelow⟩) with hk | hk
      · exact ⟨k, hk, hne, (entry_eq_child_iff hbelow hne).mpr (hregular k hk)⟩
      · obtain ⟨last, hlast, hchild⟩ := hshown k hk
        have hmem : last ∈ b.listObjectsV2 (directory path) := List.mem_of_getLast? hlast
        have hlastNe : last ≠ directory path := fun heq => by
          have hself : Directory.child (directory path) (directory path) = directory path := by
            rw [Directory.child, List.drop_length]
            exact List.append_nil _
          rw [heq, hself] at hchild
          exact Directory.child_ne hbelow hne hchild
        refine ⟨last, hmem, hlastNe, ?_⟩
        rw [hchild, (entry_eq_child_iff (mem_page hmem).2 hlastNe).mpr (hregular last hmem)]

end Listing

/-! ## Deleting -/

section Deleting

theorem mem_deleteObject {b : Bucket} {key : Key} {o : Key × List UInt8} :
    o ∈ (b.deleteObject key).objects ↔ o ∈ b.objects ∧ o.1 ≠ key := by
  show o ∈ Assoc.erase key b.objects ↔ _
  unfold Assoc.erase
  rw [List.mem_filter]
  simp

theorem mem_foldl_deleteObject {keys : List Key} {b : Bucket} {o : Key × List UInt8} :
    o ∈ (keys.foldl Bucket.deleteObject b).objects ↔ o ∈ b.objects ∧ o.1 ∉ keys := by
  induction keys generalizing b with
  | nil => simp
  | cons key keys ih =>
    rw [List.foldl_cons, ih, mem_deleteObject, List.mem_cons, not_or, and_assoc]

theorem deletesSubtree_iff (b : Bucket) (path : Key) : DeletesSubtree b path ↔ SubtreeFits b path := by
  unfold DeletesSubtree SubtreeFits delete
  simp only [mem_deleteObject, mem_foldl_deleteObject, Bucket.listObjectsV2]
  constructor
  · intro h
    by_contra hlong
    obtain ⟨k, hk⟩ : ∃ k, k ∈ (b.keysUnder (objectPath path ++ ['/'])).drop 1000 := by
      refine List.exists_mem_of_length_pos ?_
      rw [List.length_drop]
      omega
    obtain ⟨hkeys, hbelow⟩ := mem_keysUnder.mp (List.mem_of_mem_drop hk)
    obtain ⟨o, ho, rfl⟩ := List.mem_map.mp hkeys
    have hnotPage : o.1 ∉ (b.keysUnder (objectPath path ++ ['/'])).take 1000 := fun hmem => by
      have hsorted := keysUnder_sorted b (objectPath path ++ ['/'])
      rw [← List.take_append_drop 1000 (b.keysUnder _), List.pairwise_append] at hsorted
      exact lt_irrefl _ (hsorted.2.2 _ hmem _ hk)
    have hne : o.1 ≠ objectPath path := fun heq => by
      have hlength := hbelow.length_le
      rw [heq] at hlength
      simp at hlength
    exact ((h o).mp ⟨⟨ho, hnotPage⟩, hne⟩).2.2 hbelow
  · intro hshort o
    rw [List.take_of_length_le hshort, mem_keysUnder]
    constructor
    · rintro ⟨⟨ho, hnot⟩, hne⟩
      exact ⟨ho, hne, fun hbelow => hnot ⟨List.mem_map_of_mem ho, hbelow⟩⟩
    · rintro ⟨ho, hne, hnot⟩
      exact ⟨⟨ho, fun hmem => hnot hmem.2⟩, hne⟩

end Deleting

/-! ## The counter -/

section Counter

theorem digits_isDigit (id : ℕ) : ∀ c ∈ Nat.toDigits 10 id, c.isDigit = true :=
  fun _ hc => Nat.isDigit_of_mem_toDigits (by decide) (by decide) hc

theorem notMem_eventName (id : ℕ) : '/' ∉ eventName id := by
  intro h
  rcases List.mem_append.mp h with h | h
  · exact absurd (digits_isDigit id '/' h) (by decide)
  · exact absurd h (by decide)

theorem getIdFromFilename_event (sid : Key) (userId : Option Key) (id : ℕ) :
    getIdFromFilename (eventsDir sid userId ++ eventName id) = id := by
  have hdot : '.' ∉ Nat.toDigits 10 id := fun h => absurd (digits_isDigit id '.' h) (by decide)
  have hname : (Text.split ['/'] (eventsDir sid userId ++ eventName id)).getLast? = some (eventName id) := by
    have hdir : eventsDir sid userId ++ eventName id =
        (conversationDir sid userId ++ "events".toList) ++ '/' :: eventName id := by
      simp [eventsDir, List.append_assoc]
    rw [hdir, Text.getLast?_split (notMem_eventName id)]
  have hstem : (Text.split ['.'] (eventName id)).head? = some (Nat.toDigits 10 id) := by
    have hparts : eventName id = Nat.toDigits 10 id ++ '.' :: "json".toList := rfl
    rw [hparts, Text.split_append_letter hdot]
    rfl
  rw [getIdFromFilename, hname, Option.getD_some, hstem, Option.getD_some, Text.parseInt_toDigits]
  rfl

theorem eventName_injective {id id' : ℕ} (h : eventName id = eventName id') : id = id' := by
  have hdigits : Nat.toDigits 10 id = Nat.toDigits 10 id' := List.append_cancel_right h
  rw [← Nat.ofDigitChars_ten_toDigits (n := id), hdigits, Nat.ofDigitChars_ten_toDigits]

theorem directory_eventsDir (sid : Key) (userId : Option Key) : directory (eventsDir sid userId) = eventsDir sid userId := by
  have hlast : (eventsDir sid userId).getLast? = some '/' := by
    rw [eventsDir, List.getLast?_append]
    rfl
  have hlong : ¬ (eventsDir sid userId = [] ∨ eventsDir sid userId = ['/']) := by
    have hlength : 7 ≤ (eventsDir sid userId).length := by
      rw [eventsDir, List.length_append]
      exact Nat.le_add_left ..
    rintro (h | h) <;> rw [h] at hlength <;> exact absurd hlength (by decide)
  rw [directory, if_neg hlong, if_pos hlast]

/-- The largest number of a fold. -/
theorem foldl_maxId (events : List Key) (m : ℤ) :
    let r := events.foldl (fun maxId event => if maxId ≤ getIdFromFilename event then getIdFromFilename event else maxId) m
    m ≤ r ∧ (∀ e ∈ events, getIdFromFilename e ≤ r) ∧ (r = m ∨ ∃ e ∈ events, getIdFromFilename e = r) := by
  induction events generalizing m with
  | nil => exact ⟨le_rfl, nofun, .inl rfl⟩
  | cons e events ih =>
    obtain ⟨hm, hall, hsome⟩ := ih (if m ≤ getIdFromFilename e then getIdFromFilename e else m)
    simp only [List.foldl_cons]
    refine ⟨?_, List.forall_mem_cons.mpr ⟨?_, hall⟩, ?_⟩
    · refine le_trans ?_ hm
      split_ifs with hle
      · exact hle
      · exact le_rfl
    · refine le_trans ?_ hm
      split_ifs with hle
      · exact le_rfl
      · exact (not_le.mp hle).le
    · rcases hsome with heq | ⟨e', he', heq⟩
      · split_ifs at heq with hle
        · exact .inr ⟨e, List.mem_cons_self, by rw [if_pos hle]; exact heq.symm⟩
        · exact .inl (by rw [if_neg hle]; exact heq)
      · exact .inr ⟨e', List.mem_cons_of_mem _ he', heq⟩

variable {b : Bucket} {sid : Key} {userId : Option Key} {n : ℕ}

theorem mem_keysUnder_events (h : HoldsEvents b (eventsDir sid userId) n) {k : Key} :
    k ∈ b.keysUnder (eventsDir sid userId) ↔ ∃ id < n, k = eventsDir sid userId ++ eventName id := by
  rw [h.mem_iff, List.mem_map]
  constructor
  · rintro ⟨id, hid, rfl⟩
    exact ⟨id, List.mem_range.mp hid, rfl⟩
  · rintro ⟨id, hid, rfl⟩
    exact ⟨id, List.mem_range.mpr hid, rfl⟩

/-- What the counter is read from: the files of the first page. -/
theorem mem_list_events (h : HoldsEvents b (eventsDir sid userId) n) {e : Key} :
    e ∈ list b (eventsDir sid userId) ↔ e ∈ b.listObjectsV2 (eventsDir sid userId) := by
  have hentry {k : Key} (hk : k ∈ b.listObjectsV2 (eventsDir sid userId)) :
      k ≠ eventsDir sid userId ∧ entry (eventsDir sid userId) k = k := by
    obtain ⟨id, -, rfl⟩ := (mem_keysUnder_events h).mp (List.mem_of_mem_take hk)
    obtain ⟨c, name, hname⟩ : ∃ c name, eventName id = c :: name :=
      List.exists_cons_of_ne_nil (by simp [eventName])
    have hslash : '/' ∉ name := fun hmem => notMem_eventName id (hname ▸ List.mem_cons_of_mem c hmem)
    rw [hname, entry_append, Directory.firstName_of_notMem hslash]
    exact ⟨fun heq => by simp at heq, rfl⟩
  rw [mem_list, directory_eventsDir]
  constructor
  · rintro ⟨k, hk, -, rfl⟩
    rwa [(hentry hk).2]
  · intro he
    exact ⟨e, he, (hentry he).1, (hentry he).2⟩

/-- The last event's file is on the first page when few come before it. -/
theorem mem_page_last (h : HoldsEvents b (eventsDir sid userId) (n + 1)) :
    eventsDir sid userId ++ eventName n ∈ b.listObjectsV2 (eventsDir sid userId) ↔ LastShown (n + 1) := by
  have hmem := (mem_keysUnder_events h).mpr ⟨n, Nat.lt_succ_self n, rfl⟩
  rw [Bucket.listObjectsV2, Directory.mem_take_iff (keysUnder_sorted b _) hmem, h.countP_eq, List.countP_map, LastShown]
  rw [List.countP_congr (q := fun id => decide (eventName id < eventName n)) fun id _ => ?_]
  · simp
  · simp only [Function.comp_apply, decide_eq_true_eq]
    exact Directory.append_lt_append_left_iff

theorem notMem_next (h : HoldsEvents b (eventsDir sid userId) n) : eventsDir sid userId ++ eventName n ∉ b.keys := by
  intro hmem
  obtain ⟨id, hid, heq⟩ := (mem_keysUnder_events h).mp (mem_keysUnder.mpr ⟨hmem, List.prefix_append _ _⟩)
  rw [eventName_injective (List.append_cancel_left heq)] at hid
  exact lt_irrefl id hid

theorem resumes_iff (h : HoldsEvents b (eventsDir sid userId) n) : Resumes b sid userId n ↔ LastShown n := by
  cases n with
  | zero =>
    have hnone : list b (eventsDir sid userId) = [] := by
      refine List.eq_nil_iff_forall_not_mem.mpr fun e he => ?_
      obtain ⟨id, hid, -⟩ := (mem_keysUnder_events h).mp (List.mem_of_mem_take ((mem_list_events h).mp he))
      exact absurd hid (Nat.not_lt_zero id)
    have hzero : calculateCurId b sid userId = 0 := if_pos hnone
    refine iff_of_true ⟨hzero, ?_⟩ (.inl rfl)
    rw [hzero]
    exact notMem_next h
  | succ n =>
    have hsome : list b (eventsDir sid userId) ≠ [] := by
      have hpos : 0 < (b.listObjectsV2 (eventsDir sid userId)).length := by
        have hlength : (b.keysUnder (eventsDir sid userId)).length = n + 1 := by
          rw [h.length_eq, List.length_map, List.length_range]
        rw [Bucket.listObjectsV2, List.length_take, hlength]
        omega
      obtain ⟨k, hk⟩ := List.exists_mem_of_length_pos hpos
      exact List.ne_nil_of_mem ((mem_list_events h).mpr hk)
    obtain ⟨hfirst, hall, hattained⟩ := foldl_maxId (list b (eventsDir sid userId)) (-1)
    have hcur : calculateCurId b sid userId =
        (list b (eventsDir sid userId)).foldl
          (fun maxId event => if maxId ≤ getIdFromFilename event then getIdFromFilename event else maxId) (-1) + 1 :=
      if_neg hsome
    have hid {e : Key} (he : e ∈ list b (eventsDir sid userId)) :
        ∃ id < n + 1, e = eventsDir sid userId ++ eventName id ∧ getIdFromFilename e = id := by
      obtain ⟨id, hlt, rfl⟩ := (mem_keysUnder_events h).mp (List.mem_of_mem_take ((mem_list_events h).mp he))
      exact ⟨id, hlt, rfl, getIdFromFilename_event sid userId id⟩
    rw [← mem_page_last h, Resumes]
    generalize (list b (eventsDir sid userId)).foldl
      (fun maxId event => if maxId ≤ getIdFromFilename event then getIdFromFilename event else maxId) (-1) = r at *
    constructor
    · rintro ⟨heq, -⟩
      rcases hattained with hnone | ⟨e, he, hmax⟩
      · omega
      · obtain ⟨id, -, rfl, hid⟩ := hid he
        have hlast : id = n := by omega
        rw [← hlast]
        exact (mem_list_events h).mp he
    · intro hlast
      have hge : (n : ℤ) ≤ r := by
        have hle := hall _ ((mem_list_events h).mpr hlast)
        rwa [getIdFromFilename_event] at hle
      have hle : r ≤ n := by
        rcases hattained with hnone | ⟨e, he, hmax⟩
        · omega
        · obtain ⟨id, hlt, -, hid⟩ := hid he
          omega
      have hnext : calculateCurId b sid userId = (n + 1 : ℕ) := by
        rw [hcur]
        omega
      refine ⟨hnext, ?_⟩
      rw [hnext]
      exact notMem_next h

end Counter

/-- Over S3 a store sees every object exactly as far as its first page reaches. -/
theorem store_iff (b : Bucket) (path sid : Key) (userId : Option Key) :
    (ListsChildren b path ↔ ChildrenShown b path) ∧ (DeletesSubtree b path ↔ SubtreeFits b path) ∧
      ∀ n, HoldsEvents b (eventsDir sid userId) n → (Resumes b sid userId n ↔ LastShown n) :=
  ⟨listsChildren_iff b path, deletesSubtree_iff b path, fun _ => resumes_iff⟩

/-- A bucket with nothing but the first events of a conversation. -/
def eventBucket (sid : Key) (userId : Option Key) (n : ℕ) : Bucket where
  objects := (List.range n).map fun id => (eventsDir sid userId ++ eventName id, [])
  nodup := by
    rw [List.map_map]
    exact List.nodup_range.map fun _ _ h => eventName_injective (List.append_cancel_left h)

theorem eventBucket_holdsEvents (sid : Key) (userId : Option Key) (n : ℕ) :
    HoldsEvents (eventBucket sid userId n) (eventsDir sid userId) n := by
  have hkeys : (eventBucket sid userId n).keys = (List.range n).map fun id => eventsDir sid userId ++ eventName id := by
    rw [Bucket.keys, eventBucket, List.map_map]
    rfl
  refine (List.perm_insertionSort _ _).trans ?_
  rw [hkeys, List.filter_eq_self.mpr]
  intro k hk
  obtain ⟨id, -, rfl⟩ := List.mem_map.mp hk
  exact List.isPrefixOf_iff_prefix.mpr (List.prefix_append _ _)

theorem store_iff_thousand :
    HoldsEvents (eventBucket "abc".toList none 1000) (eventsDir "abc".toList none) 1000 ∧
      Resumes (eventBucket "abc".toList none 1000) "abc".toList none 1000 := by
  have hholds := eventBucket_holdsEvents "abc".toList none 1000
  have hshown : LastShown 1000 := by decide +kernel
  exact ⟨hholds, ((store_iff (eventBucket "abc".toList none 1000) [] "abc".toList none).2.2 1000 hholds).mpr hshown⟩

/-- With 1900 events the file of the last one is past the first page. -/
theorem not_lastShown : ¬ LastShown 1900 := by decide +kernel

theorem not_sees_every_object : ¬ ∀ (b : Bucket) (path sid : Key) (userId : Option Key) (n : ℕ),
    ListsChildren b path ∧ DeletesSubtree b path ∧ (HoldsEvents b (eventsDir sid userId) n → Resumes b sid userId n) := by
  intro h
  have hholds := eventBucket_holdsEvents "abc".toList none 1900
  have hresumes := (h (eventBucket "abc".toList none 1900) [] "abc".toList none 1900).2.2 hholds
  exact not_lastShown ((resumes_iff hholds).mp hresumes)

end S3FileStore

end OpenHands
