import OpenHandsSWE.Lib.Assoc
import OpenHandsSWE.Lib.Directory
import OpenHandsSWE.Lib.Python
import OpenHandsSWE.Storage.BatchedWebHook

/-! The store in memory, a dictionary of path texts, and the store on disk, a tree: when the two hold
and list the same. -/

namespace OpenHands

namespace FileStores

open Directory

def utf8 (s : String) : List UInt8 := s.toUTF8.data.toList

/-! ## The store in memory -/

structure InMemoryFileStore where
  files : List (List Char × String) := []

namespace InMemoryFileStore

def decode : FileContents → Option String
  | .text s => some s
  | .bytes b => String.fromUTF8? b.toByteArray

def write (s : InMemoryFileStore) (path : List Char) (contents : FileContents) : Except PyError InMemoryFileStore :=
  match decode contents with
  | some text => .ok ⟨Assoc.set path text s.files⟩
  | none => .error (.valueError "UnicodeDecodeError")

/-- `os.path.join`. -/
def join (path name : List Char) : List Char :=
  if name.head? = some '/' then name
  else if path = [] ∨ path.getLast? = some '/' then path ++ name
  else path ++ '/' :: name

/-- The names of a file after the text of the path; a slash at the head gives no name. -/
def parts (path file : List Char) : List (List Char) :=
  let parts := Text.split ['/'] (file.drop path.length)
  if parts.head? = some [] then parts.tail else parts

/-- One round of the loop in `list`. -/
def listFile (path : List Char) (files : List (List Char)) (file : List Char) : Except PyError (List (List Char)) :=
  if path <+: file then
    match parts path file with
    | [] => .error .indexError
    | [_] => .ok (files ++ [file])
    | name :: _ =>
      let dirPath := join path name
      let dirPath := if dirPath.getLast? = some '/' then dirPath else dirPath ++ ['/']
      if dirPath ∈ files then .ok files else .ok (files ++ [dirPath])
  else .ok files

def list (s : InMemoryFileStore) (path : List Char) : Except PyError (List (List Char)) :=
  (s.files.map Prod.fst).foldlM (listFile path) []

def delete (s : InMemoryFileStore) (path : List Char) : InMemoryFileStore :=
  ⟨s.files.filter fun f => !decide (path <+: f.1)⟩

end InMemoryFileStore

/-! ## The store on disk -/

/-- The files and directories below the root. -/
structure LocalFileStore where
  files : List (Path × List UInt8) := []
  dirs : List Path := []

namespace LocalFileStore

def isFile (s : LocalFileStore) (p : Path) : Bool := decide (p ∈ s.files.map Prod.fst)

def isDir (s : LocalFileStore) (p : Path) : Bool := decide (p = [] ∨ p ∈ s.dirs)

/-- The directories that a path goes through below the root. -/
def ancestors (p : Path) : List Path := p.dropLast.inits.filter (· ≠ [])

def makedirs (s : LocalFileStore) (dirs : List Path) : Except PyError LocalFileStore :=
  if dirs.any s.isFile then .error (.osError "NotADirectoryError")
  else .ok { s with dirs := dirs.foldl (fun dirs d => if d ∈ dirs then dirs else dirs ++ [d]) s.dirs }

def toBytes : FileContents → List UInt8
  | .text s => utf8 s
  | .bytes b => b

def write (s : LocalFileStore) (path : Path) (contents : FileContents) : Except PyError LocalFileStore :=
  (s.makedirs (ancestors path)).bind fun s =>
    if s.isDir path then .error (.osError "IsADirectoryError")
    else .ok { s with files := Assoc.set path (toBytes contents) s.files }

def listdir (s : LocalFileStore) (p : Path) : List Name :=
  (s.files.map Prod.fst ++ s.dirs).filterMap fun q => if q.dropLast = p then q.getLast? else none

def list (s : LocalFileStore) (p : Path) : Except PyError (List (List Char)) :=
  if s.isDir p then
    .ok ((s.listdir p).map fun name =>
      let file := InMemoryFileStore.join p.text name.text
      if s.isDir (p ++ [name]) then file ++ ['/'] else file)
  else .error .fileNotFoundError

def delete (s : LocalFileStore) (p : Path) : LocalFileStore :=
  if s.isFile p then { s with files := Assoc.erase p s.files }
  else if s.isDir p then
    -- the whole tree goes, with its directories
    { files := s.files.filter fun f => !decide (p <+: f.1), dirs := s.dirs.filter fun d => !decide (p <+: d) }
  else s

end LocalFileStore

/-! ## Both stores -/

inductive Call where
  | write (path : Path) (contents : FileContents)
  | delete (path : Path)
  | list (path : Path)

structure Stores where
  memory : InMemoryFileStore := {}
  disk : LocalFileStore := {}

namespace Stores

/-- A call that raises leaves its store as it is. -/
def step (s : Stores) : Call → Stores
  | .write path contents =>
    { memory := (s.memory.write path.text contents).toOption.getD s.memory
      disk := (s.disk.write path contents).toOption.getD s.disk }
  | .delete path => { memory := s.memory.delete path.text, disk := s.disk.delete path }
  | .list _ => s

/-- The same files with the same contents. -/
def SameFiles (s : Stores) : Prop :=
  s.memory.files.map (fun f => (f.1, utf8 f.2)) = s.disk.files.map fun f => (f.1.text, f.2)

/-- Exactly the direct children, each once. -/
def ListsChildren (s : Stores) (p : Path) (listed : Except PyError (List (List Char))) : Prop :=
  ∃ entries, listed = .ok entries ∧ entries.Nodup ∧
    ∀ e, e ∈ entries ↔ IsChild (s.disk.files.map fun f => f.1.text) p.start e

/-- Both stores hold the same and list every directory alike. -/
structure Agree (s : Stores) : Prop where
  same : s.SameFiles
  lists : ∀ p, s.disk.isDir p = true →
    s.ListsChildren p (s.memory.list p.text) ∧ s.ListsChildren p (s.disk.list p)

/-- Exactly the path goes and what lies below it. -/
def Removes (s : Stores) (p : Path) : Prop :=
  (s.memory.delete p.text).files = s.memory.files.filter (fun f => !decide (f.1 = p.text ∨ p.start <+: f.1)) ∧
    (s.disk.delete p).files = s.disk.files.filter fun f => !decide (p <+: f.1)

def Interchangeable : Stores → List Call → Prop
  | _, [] => True
  | s, call :: calls => (s.step call).Agree ∧ (∀ p, call = .delete p → s.Removes p) ∧ Interchangeable (s.step call) calls

end Stores

/-- The paths of the calls are no root, and none is written that lies below another one written. -/
structure WellNamed (calls : List Call) : Prop where
  written : ∀ p contents, .write p contents ∈ calls → p ≠ []
  deleted : ∀ p, .delete p ∈ calls → p ≠ []
  distinct : ∀ p contents q contents', .write p contents ∈ calls → .write q contents' ∈ calls → p <+: q → p = q

/-! ## When they do -/

namespace Stores

def paths (s : Stores) : List Path := s.disk.files.map Prod.fst

end Stores

/-- A path that begins with the text of a directory, and does not lie in it, lies in a directory whose
name goes on with a name that is a sub-directory there. -/
def Unshadowed (paths : List Path) : Prop :=
  ∀ d : Path, d ≠ [] → (∃ f ∈ paths, d <+: f ∧ d ≠ f) → ∀ k ∈ paths, d.text <+: k.text →
    d <+: k ∨ ∃ x r, '/' ∉ x ∧ k.text = d.text ++ x ++ '/' :: r ∧ ∃ k' ∈ paths, d.start ++ x ++ ['/'] <+: k'.text

/-- What has to hold before a call: contents that are text; a deletion that meets no other path by its
text, and leaves no directory empty; and no directory shadowed afterwards. -/
def CallClean (s : Stores) : Call → Prop
  | .write path contents => (InMemoryFileStore.decode contents).isSome = true ∧ Unshadowed (path :: s.paths)
  | .delete path =>
    (∀ k ∈ s.paths, path.text <+: k.text → path <+: k) ∧
      ((∃ f ∈ s.paths, path <+: f) → path.dropLast = [] ∨ ∃ f ∈ s.paths, path.dropLast <+: f ∧ ¬ path <+: f) ∧
      Unshadowed (s.paths.filter fun k => !decide (path <+: k))
  | .list _ => True

def Clean : Stores → List Call → Prop
  | _, [] => True
  | s, call :: calls => CallClean s call ∧ Clean (s.step call) calls

/-! ## Listing in memory -/

section Memory

open InMemoryFileStore

def memEntry (path file : List Char) : List Char :=
  match parts path file with
  | [] => []
  | [_] => file
  | name :: _ =>
    let dirPath := join path name
    if dirPath.getLast? = some '/' then dirPath else dirPath ++ ['/']

theorem listFile_ok {path file : List Char} {files : List (List Char)} (hparts : path <+: file → parts path file ≠ []) :
    listFile path files file = .ok (if path <+: file then
      if (parts path file).length = 1 then files ++ [file]
      else if memEntry path file ∈ files then files else files ++ [memEntry path file]
    else files) := by
  unfold listFile memEntry
  by_cases hbegins : path <+: file
  · rw [if_pos hbegins, if_pos hbegins]
    have hne := hparts hbegins
    match hp : parts path file with
    | [] => exact absurd hp hne
    | [_] => rfl
    | name :: next :: rest =>
      have hlong : ¬ (name :: next :: rest).length = 1 := by simp
      rw [if_neg hlong]
      dsimp only
      split_ifs <;> rfl
  · rw [if_neg hbegins, if_neg hbegins]

theorem getLast?_memEntry {path file : List Char} (hne : parts path file ≠ []) (hlong : (parts path file).length ≠ 1) :
    (memEntry path file).getLast? = some '/' := by
  unfold memEntry
  match hp : parts path file with
  | [] => exact absurd hp hne
  | [_] => exact absurd (by rw [hp]; rfl) hlong
  | name :: next :: rest =>
    dsimp only
    split_ifs with hslash
    · exact hslash
    · rw [List.getLast?_append]
      rfl

/-- What a round adds. -/
theorem listFile_step {path k : List Char} {keys files : List (List Char)} (hparts : path <+: k → parts path k ≠ [])
    (hslash : k.getLast? ≠ some '/') (hkeys : (k :: keys).Nodup) (hfiles : files.Nodup)
    (hseen : ∀ e ∈ files, e.getLast? = some '/' ∨ e ∉ k :: keys) :
    ∃ files', listFile path files k = .ok files' ∧ files'.Nodup ∧ (∀ e ∈ files', e.getLast? = some '/' ∨ e ∉ keys) ∧
      ∀ e, e ∈ files' ↔ e ∈ files ∨ (path <+: k ∧ memEntry path k = e) := by
  have hseen' : ∀ e ∈ files, e.getLast? = some '/' ∨ e ∉ keys :=
    fun e he => (hseen e he).imp id fun hnot hmem => hnot (List.mem_cons_of_mem k hmem)
  rw [listFile_ok hparts]
  by_cases hbegins : path <+: k
  · rw [if_pos hbegins]
    by_cases hone : (parts path k).length = 1
    · rw [if_pos hone]
      have hentry : memEntry path k = k := by
        obtain ⟨name, hname⟩ := List.length_eq_one_iff.mp hone
        rw [memEntry, hname]
      have hnew : k ∉ files := fun hmem => (hseen k hmem).elim hslash fun hnot => hnot List.mem_cons_self
      refine ⟨files ++ [k], rfl, ?_, ?_, fun e => ?_⟩
      · exact List.nodup_append.mpr ⟨hfiles, List.nodup_singleton k, fun a ha b hb heq =>
          hnew (List.mem_singleton.mp hb ▸ heq ▸ ha)⟩
      · intro e he
        rcases List.mem_append.mp he with he | he
        · exact hseen' e he
        · rw [List.mem_singleton.mp he]
          exact .inr (List.nodup_cons.mp hkeys).1
      · rw [hentry, List.mem_append, List.mem_singleton]
        exact or_congr Iff.rfl ⟨fun heq => ⟨hbegins, heq.symm⟩, fun h => h.2.symm⟩
    · rw [if_neg hone]
      by_cases hmem : memEntry path k ∈ files
      · refine ⟨files, by rw [if_pos hmem], hfiles, hseen', fun e => ⟨.inl, ?_⟩⟩
        rintro (he | ⟨-, rfl⟩)
        · exact he
        · exact hmem
      · refine ⟨files ++ [memEntry path k], by rw [if_neg hmem], ?_, ?_, fun e => ?_⟩
        · exact List.nodup_append.mpr ⟨hfiles, List.nodup_singleton _, fun a ha b hb heq =>
            hmem (List.mem_singleton.mp hb ▸ heq ▸ ha)⟩
        · intro e he
          rcases List.mem_append.mp he with he | he
          · exact hseen' e he
          · rw [List.mem_singleton.mp he]
            exact .inl (getLast?_memEntry (hparts hbegins) hone)
        · rw [List.mem_append, List.mem_singleton]
          exact or_congr Iff.rfl ⟨fun heq => ⟨hbegins, heq.symm⟩, fun h => h.2.symm⟩
  · rw [if_neg hbegins]
    exact ⟨files, rfl, hfiles, hseen', fun e => ⟨.inl, fun h => h.elim id fun h => absurd h.1 hbegins⟩⟩

/-- The entries are those of the files that begin with the path's text. -/
theorem foldlM_listFile (path : List Char) (keys files : List (List Char))
    (hparts : ∀ k ∈ keys, path <+: k → parts path k ≠ []) (hslash : ∀ k ∈ keys, k.getLast? ≠ some '/')
    (hkeys : keys.Nodup) (hfiles : files.Nodup) (hseen : ∀ e ∈ files, e.getLast? = some '/' ∨ e ∉ keys) :
    ∃ entries, keys.foldlM (listFile path) files = .ok entries ∧ entries.Nodup ∧
      ∀ e, e ∈ entries ↔ e ∈ files ∨ ∃ k ∈ keys, path <+: k ∧ memEntry path k = e := by
  induction keys generalizing files with
  | nil => exact ⟨files, rfl, hfiles, by simp⟩
  | cons k keys ih =>
    obtain ⟨hpartsHead, hparts⟩ := List.forall_mem_cons.mp hparts
    obtain ⟨hslashHead, hslash⟩ := List.forall_mem_cons.mp hslash
    obtain ⟨files', hok, hfiles', hseen', hmem'⟩ := listFile_step hpartsHead hslashHead hkeys hfiles hseen
    obtain ⟨entries, hentries, hnodup, hmem⟩ := ih files' hparts hslash (List.nodup_cons.mp hkeys).2 hfiles' hseen'
    refine ⟨entries, ?_, hnodup, fun e => ?_⟩
    · rw [List.foldlM_cons, hok]
      exact hentries
    · rw [hmem, hmem', or_assoc]
      simp only [List.mem_cons, exists_eq_or_imp]

/-! ### The names in a path -/

theorem join_name (p : Path) (n : Name) : join p.text n.text = p.start ++ n.text := by
  have hhead : n.text.head? ≠ some '/' := fun h => n.noSlash (List.mem_of_head? h)
  rw [join, if_neg hhead]
  by_cases hp : p = []
  · rw [hp]
    exact if_pos (.inl rfl)
  · rw [if_neg (not_or.mpr ⟨Path.text_ne_nil hp, Path.getLast?_text hp⟩), Path.start_of_ne hp, List.append_assoc]
    rfl

theorem parts_below (p : Path) (n : Name) (r : Path) :
    parts p.text (Path.text (p ++ n :: r)) = (n :: r).map Name.text := by
  have hr : n :: r ≠ [] := List.cons_ne_nil n r
  have hhead : ((n :: r).map Name.text).head? ≠ some [] := by simpa using n.nonempty
  rw [Path.text_append p hr]
  by_cases hp : p = []
  · have hdrop : (Path.start p ++ Path.text (n :: r)).drop p.text.length = Path.text (n :: r) := by rw [hp]; rfl
    rw [parts, hdrop, Path.split_text hr]
    exact if_neg hhead
  · have hdrop : (Path.start p ++ Path.text (n :: r)).drop p.text.length = '/' :: Path.text (n :: r) := by
      rw [Path.start_of_ne hp, List.append_assoc, List.drop_left]
      rfl
    rw [parts, hdrop, Text.split_letter, Path.split_text hr]
    rfl

/-- The entry of a file below the directory is its child. -/
theorem memEntry_below (p : Path) (n : Name) (r : Path) :
    memEntry p.text (Path.text (p ++ n :: r)) = p.start ++ n.text ++ if r = [] then [] else ['/'] := by
  rw [memEntry, parts_below]
  cases r with
  | nil =>
    rw [if_pos rfl, List.append_nil, ← Path.text_singleton n, ← Path.text_append p (List.cons_ne_nil n [])]
    rfl
  | cons m r =>
    rw [if_neg (List.cons_ne_nil m r)]
    show (if (join p.text n.text).getLast? = some '/' then join p.text n.text else join p.text n.text ++ ['/']) = _
    rw [join_name, if_neg (Path.getLast?_append_name _ n)]

/-- The first piece of a file that only begins with the text of the path. -/
theorem parts_beside {path v : List Char} {c : Char} (hc : c ≠ '/') :
    parts path (path ++ c :: v) = Text.split ['/'] (c :: v) := by
  have hdrop : (path ++ c :: v).drop path.length = c :: v := List.drop_left
  obtain ⟨x, xs, -, hsplit⟩ := Text.consHead_eq c (Text.split_ne_nil ['/'] v)
  rw [parts, hdrop, Text.split_other hc, hsplit]
  exact if_neg (by simp)

/-- The entry of a file that only begins with the text of the directory is a child when that happens
to be a sub-directory. -/
theorem isChild_memEntry_beside {p : Path} (hp : p ≠ []) {keys : List (List Char)} {v : List Char} {c : Char}
    (hc : c ≠ '/') : IsChild keys p.start (memEntry p.text (p.text ++ c :: v)) ↔
      ∃ x r, '/' ∉ x ∧ p.text ++ c :: v = p.text ++ x ++ '/' :: r ∧ ∃ k' ∈ keys, p.start ++ x ++ ['/'] <+: k' := by
  rcases name_cases (c :: v) with hv | ⟨x, r, hx, hv⟩
  · have hentry : memEntry p.text (p.text ++ c :: v) = p.text ++ c :: v := by
      rw [memEntry, parts_beside hc, Text.split_of_notMem hv]
    rw [hentry]
    refine iff_of_false ?_ ?_
    · intro hchild
      obtain ⟨k, hk, hbelow, hne, heq⟩ := Directory.isChild_iff.mp hchild
      rw [child, Path.start_of_ne hp, List.append_assoc] at heq
      exact hc (List.cons.inj (List.append_cancel_left heq)).1.symm
    · rintro ⟨x, r, -, heq, -⟩
      rw [List.append_assoc] at heq
      exact hv (by rw [List.append_cancel_left heq]; simp)
  · obtain ⟨y, ys, hys⟩ := List.exists_cons_of_ne_nil (Text.split_ne_nil ['/'] r)
    have hxne : x ≠ [] := fun h => by
      rw [h] at hv
      exact hc (List.cons.inj hv).1
    have hentry : memEntry p.text (p.text ++ c :: v) = p.start ++ x ++ ['/'] := by
      have hhead : x.head? ≠ some '/' := fun h => hx (List.mem_of_head? h)
      have hlast : (p.text ++ '/' :: x).getLast? ≠ some '/' := fun h => by
        rw [List.getLast?_append_of_ne_nil _ (List.cons_ne_nil _ _), List.getLast?_cons] at h
        obtain ⟨z, hz⟩ : ∃ z, x.getLast? = some z := Option.ne_none_iff_exists'.mp (by simpa using hxne)
        rw [hz] at h
        exact hx (List.mem_of_getLast? (by rw [hz, ← h]; rfl))
      have hjoin : join p.text x = p.text ++ '/' :: x := by
        rw [join, if_neg hhead, if_neg (not_or.mpr ⟨Path.text_ne_nil hp, Path.getLast?_text hp⟩)]
      rw [memEntry, parts_beside hc, hv, Text.split_append_letter hx, hys]
      dsimp only
      rw [hjoin, if_neg hlast, Path.start_of_ne hp]
      simp
    rw [hentry]
    constructor
    · rintro ⟨name, hname, ⟨-, heq, -⟩ | ⟨-, k, hk, hbelow⟩⟩
      · rw [List.append_assoc] at heq
        exact absurd (by rw [← List.append_cancel_left heq]; simp) hname
      · exact ⟨x, r, hx, by rw [hv, List.append_assoc], k, hk, hbelow⟩
    · rintro ⟨x', r', hx', heq, k, hk, hbelow⟩
      have hsame : x' = x := by
        rw [hv, List.append_assoc] at heq
        have hcancel : x ++ '/' :: r = x' ++ '/' :: r' := List.append_cancel_left heq
        have hsplit := congrArg (Text.split ['/']) hcancel
        rw [Text.split_append_letter hx, Text.split_append_letter hx'] at hsplit
        exact (List.cons.inj hsplit).1.symm
      rw [hsame] at hbelow
      exact ⟨x, hx, .inr ⟨rfl, k, hk, hbelow⟩⟩

theorem below_or_beside {p k : Path} (hk : k ≠ []) (hne : k ≠ p) (h : p.text <+: k.text) :
    (∃ n r, k = p ++ n :: r) ∨ (p ≠ [] ∧ ¬ p <+: k ∧ ∃ c v, c ≠ '/' ∧ k.text = p.text ++ c :: v) := by
  have hbelow : Path.start p <+: Path.text k → ∃ n r, k = p ++ n :: r := fun hstart => by
    obtain ⟨r, hr, rfl⟩ := (Path.start_begins_iff hk).mp hstart
    obtain ⟨n, r, rfl⟩ := List.exists_cons_of_ne_nil hr
    exact ⟨n, r, rfl⟩
  by_cases hp : p = []
  · rw [hp] at hbelow ⊢
    exact .inl (hbelow List.nil_prefix)
  · obtain ⟨v, hv⟩ := h
    cases v with
    | nil =>
      rw [List.append_nil] at hv
      exact absurd (Path.text_injective hv.symm) hne
    | cons c v =>
      by_cases hc : c = '/'
      · refine .inl (hbelow ⟨v, ?_⟩)
        rw [← hv, hc, Path.start_of_ne hp, List.append_assoc]
        rfl
      · refine .inr ⟨hp, ?_, c, v, hc, hv.symm⟩
        rintro ⟨r, rfl⟩
        have hr : r ≠ [] := fun hnil => hne (by rw [hnil, List.append_nil])
        rw [Path.text_append p hr, Path.start_of_ne hp, List.append_assoc] at hv
        exact hc (List.cons.inj (List.append_cancel_left hv)).1

variable {s : Stores}

theorem memory_keys (hsame : s.SameFiles) : s.memory.files.map Prod.fst = s.paths.map Path.text := by
  have hkeys := congrArg (List.map Prod.fst) hsame
  rw [List.map_map, List.map_map] at hkeys
  rw [Stores.paths, List.map_map]
  exact hkeys

/-- The store in memory lists a directory as it should exactly when nothing beside it is taken for
an entry that it has not. -/
theorem memory_lists_iff (hsame : s.SameFiles) (hroot : ∀ f ∈ s.paths, f ≠ []) (hnodup : s.paths.Nodup) {p : Path}
    (hp : p ∉ s.paths) : s.ListsChildren p (s.memory.list p.text) ↔ ∀ k ∈ s.paths, p.text <+: k.text →
      p <+: k ∨ ∃ x r, '/' ∉ x ∧ k.text = p.text ++ x ++ '/' :: r ∧ ∃ k' ∈ s.paths, p.start ++ x ++ ['/'] <+: k'.text := by
  have hkeys : (s.disk.files.map fun f => f.1.text) = s.paths.map Path.text := by rw [Stores.paths, List.map_map]; rfl
  have hcases {k : Path} (hk : k ∈ s.paths) := below_or_beside (p := p) (hroot k hk) fun heq => hp (heq ▸ hk)
  obtain ⟨entries, hentries, hentriesNodup, hmem⟩ := foldlM_listFile p.text (s.paths.map Path.text) []
    (by
      intro k hk hbegins
      obtain ⟨f, hf, rfl⟩ := List.mem_map.mp hk
      rcases hcases hf hbegins with ⟨n, r, rfl⟩ | ⟨-, -, c, v, hc, hv⟩
      · rw [parts_below]
        exact List.cons_ne_nil _ _
      · rw [hv, parts_beside hc]
        exact Text.split_ne_nil _ _)
    (by
      intro k hk
      obtain ⟨f, hf, rfl⟩ := List.mem_map.mp hk
      exact Path.getLast?_text (hroot f hf))
    (hnodup.map Path.text_injective) List.nodup_nil nofun
  have hlist : s.memory.list p.text = .ok entries := by
    rw [InMemoryFileStore.list, memory_keys hsame]
    exact hentries
  have hentry (e : List Char) : e ∈ entries ↔ ∃ k ∈ s.paths, p.text <+: k.text ∧ memEntry p.text k.text = e := by
    rw [hmem]
    simp
  have hbeside {c : Char} {v : List Char} (hpne : p ≠ []) (hc : c ≠ '/') :
      IsChild (s.paths.map Path.text) p.start (memEntry p.text (p.text ++ c :: v)) ↔
        ∃ x r, '/' ∉ x ∧ p.text ++ c :: v = p.text ++ x ++ '/' :: r ∧ ∃ k' ∈ s.paths, p.start ++ x ++ ['/'] <+: k'.text := by
    rw [isChild_memEntry_beside hpne hc]
    simp
  rw [Stores.ListsChildren, hlist, hkeys]
  constructor
  · rintro ⟨entries', heq, -, hall⟩ k hk hbegins
    obtain rfl := Except.ok.inj heq
    rcases hcases hk hbegins with ⟨n, r, rfl⟩ | ⟨hpne, -, c, v, hc, hv⟩
    · exact .inl (List.prefix_append p _)
    · have hchild := (hall _).mp ((hentry _).mpr ⟨k, hk, hbegins, rfl⟩)
      rw [hv] at hchild ⊢
      exact .inr ((hbeside hpne hc).mp hchild)
  · intro hclean
    refine ⟨entries, rfl, hentriesNodup, fun e => ?_⟩
    rw [hentry]
    constructor
    · rintro ⟨k, hk, hbegins, rfl⟩
      rcases hcases hk hbegins with ⟨n, r, rfl⟩ | ⟨hpne, hnot, c, v, hc, hv⟩
      · exact (Path.isChild_iff hroot).mpr ⟨n, r, hk, memEntry_below p n r⟩
      · have hsub := (hclean k hk hbegins).resolve_left hnot
        rw [hv] at hsub ⊢
        exact (hbeside hpne hc).mpr hsub
    · intro he
      obtain ⟨n, r, hf, rfl⟩ := (Path.isChild_iff hroot).mp he
      exact ⟨p ++ n :: r, hf, Path.text_begins (List.prefix_append p _), memEntry_below p n r⟩

end Memory

/-! ## The tree on disk -/

/-- Every directory has a file in it, and nothing lies below a file. -/
structure Tree (s : LocalFileStore) : Prop where
  root : ∀ f ∈ s.files.map Prod.fst, f ≠ []
  nodup : (s.files.map Prod.fst).Nodup
  dirsNodup : s.dirs.Nodup
  dirs : ∀ d, d ∈ s.dirs ↔ d ≠ [] ∧ ∃ f ∈ s.files.map Prod.fst, d <+: f ∧ d ≠ f
  leaf : ∀ f ∈ s.files.map Prod.fst, ∀ g ∈ s.files.map Prod.fst, f <+: g → f = g

section Disk

variable {s : LocalFileStore}

theorem isFile_iff {p : Path} : s.isFile p = true ↔ p ∈ s.files.map Prod.fst := decide_eq_true_iff

theorem isDir_iff {p : Path} : s.isDir p = true ↔ p = [] ∨ p ∈ s.dirs := decide_eq_true_iff

theorem mem_listdir {p : Path} {n : Name} :
    n ∈ s.listdir p ↔ p ++ [n] ∈ s.files.map Prod.fst ∨ p ++ [n] ∈ s.dirs := by
  rw [← List.mem_append, LocalFileStore.listdir, List.mem_filterMap]
  constructor
  · rintro ⟨q, hq, hn⟩
    split_ifs at hn with hp
    have hlast := List.dropLast_append_getLast? n hn
    rw [hp] at hlast
    rwa [hlast]
  · intro hmem
    refine ⟨p ++ [n], hmem, ?_⟩
    rw [List.dropLast_concat, if_pos rfl, List.getLast?_concat]

/-- Whether an entry of the disk is a directory. -/
theorem isDir_entry {p : Path} {n : Name} (h : Tree s) :
    s.isDir (p ++ [n]) = true ↔ ∃ r, r ≠ [] ∧ p ++ n :: r ∈ s.files.map Prod.fst := by
  rw [isDir_iff, h.dirs]
  constructor
  · rintro (hnil | ⟨-, f, hf, ⟨r, rfl⟩, hne⟩)
    · simp at hnil
    · refine ⟨r, fun hr => hne (by rw [hr, List.append_nil]), ?_⟩
      rwa [List.append_assoc] at hf
  · rintro ⟨r, hr, hf⟩
    refine .inr ⟨by simp, p ++ n :: r, hf, ⟨r, by simp⟩, fun heq => hr ?_⟩
    have hcancel := List.append_cancel_left heq
    exact (List.cons.inj hcancel).2.symm

theorem nodup_listdir (h : Tree s) (p : Path) : (s.listdir p).Nodup := by
  have hdisjoint : ∀ f ∈ s.files.map Prod.fst, ∀ d ∈ s.dirs, f ≠ d := by
    rintro f hf d hd rfl
    obtain ⟨-, g, hg, hbegins, hne⟩ := (h.dirs f).mp hd
    exact hne (h.leaf f hf g hg hbegins)
  refine List.Nodup.filterMap (fun a a' n ha ha' => ?_) (List.nodup_append.mpr ⟨h.nodup, h.dirsNodup, hdisjoint⟩)
  have hsplit {q : Path} (hq : n ∈ if q.dropLast = p then q.getLast? else none) : q = p ++ [n] := by
    split_ifs at hq with hp
    · rw [← hp, List.dropLast_append_getLast? n hq]
    · cases hq
  rw [hsplit ha, hsplit ha']

theorem disk_lists (h : Tree s) {p : Path} (hp : s.isDir p = true) :
    ∃ entries, s.list p = .ok entries ∧ entries.Nodup ∧
      ∀ e, e ∈ entries ↔ IsChild ((s.files.map Prod.fst).map Path.text) p.start e := by
  have hentry (n : Name) : (if s.isDir (p ++ [n]) then InMemoryFileStore.join p.text n.text ++ ['/']
      else InMemoryFileStore.join p.text n.text) = p.start ++ n.text ++ if s.isDir (p ++ [n]) then ['/'] else [] := by
    rw [join_name]
    split_ifs
    · rfl
    · exact (List.append_nil _).symm
  refine ⟨_, if_pos hp, ?_, fun e => ?_⟩
  · refine (nodup_listdir h p).map fun m n heq => ?_
    dsimp only at heq
    rw [hentry, hentry, List.append_assoc, List.append_assoc] at heq
    exact Name.eq_of_append_eq (List.append_cancel_left heq)
  · rw [Path.isChild_iff h.root, List.mem_map]
    simp only [mem_listdir]
    constructor
    · rintro ⟨n, hn, rfl⟩
      rw [hentry]
      by_cases hdir : s.isDir (p ++ [n]) = true
      · obtain ⟨r, hr, hf⟩ := (isDir_entry h).mp hdir
        exact ⟨n, r, hf, by rw [if_pos hdir, if_neg hr]⟩
      · have hfile := hn.resolve_right fun hmem => hdir (isDir_iff.mpr (.inr hmem))
        exact ⟨n, [], hfile, by rw [if_neg hdir, if_pos rfl]⟩
    · rintro ⟨n, r, hf, rfl⟩
      refine ⟨n, ?_, ?_⟩
      · by_cases hr : r = []
        · exact .inl (hr ▸ hf)
        · have hdir := (isDir_entry h).mpr ⟨r, hr, hf⟩
          exact .inr ((isDir_iff.mp hdir).resolve_left (by simp))
      · rw [hentry]
        by_cases hr : r = []
        · have hnot : ¬ s.isDir (p ++ [n]) = true := fun hdir => by
            obtain ⟨r', hr', hf'⟩ := (isDir_entry h).mp hdir
            have heq := h.leaf _ (hr ▸ hf) _ hf' ⟨r', by simp⟩
            exact hr' (List.cons.inj (List.append_cancel_left heq)).2.symm
          rw [if_neg hnot, if_pos hr]
        · rw [if_pos ((isDir_entry h).mpr ⟨r, hr, hf⟩), if_neg hr]

end Disk

/-! ## One call -/

section Steps

variable {s : Stores}

theorem unshadowed_congr {paths others : List Path} (h : ∀ q, q ∈ paths ↔ q ∈ others) :
    Unshadowed paths ↔ Unshadowed others := by
  unfold Unshadowed
  simp only [h]

theorem notMem_paths_of_isDir (h : Tree s.disk) {p : Path} (hp : s.disk.isDir p = true) : p ∉ s.paths := by
  intro hmem
  rcases isDir_iff.mp hp with rfl | hdir
  · exact h.root [] hmem rfl
  · obtain ⟨-, f, hf, hbegins, hne⟩ := (h.dirs p).mp hdir
    exact hne (h.leaf p hmem f hf hbegins)

/-- Over a tree, stores with the same files agree when no directory is shadowed. -/
theorem agree_iff (htree : Tree s.disk) (hsame : s.SameFiles) : s.Agree ↔ Unshadowed s.paths := by
  have hlists {p : Path} (hp : s.disk.isDir p = true) :=
    memory_lists_iff hsame htree.root htree.nodup (notMem_paths_of_isDir htree hp)
  constructor
  · intro hagree d hd hf
    have hdir : s.disk.isDir d = true := isDir_iff.mpr (.inr ((htree.dirs d).mpr ⟨hd, hf⟩))
    exact (hlists hdir).mp (hagree.lists d hdir).1
  · intro hclean
    refine ⟨hsame, fun p hp => ⟨(hlists hp).mpr ?_, ?_⟩⟩
    · rcases isDir_iff.mp hp with rfl | hdir
      · exact fun k _ _ => .inl List.nil_prefix
      · obtain ⟨hne, hf⟩ := (htree.dirs p).mp hdir
        exact hclean p hne hf
    · obtain ⟨entries, hok, hnodup, hall⟩ := disk_lists htree hp
      rw [List.map_map] at hall
      exact ⟨entries, hok, hnodup, hall⟩

/-! ### Writing -/

theorem mem_ancestors {p d : Path} (hp : p ≠ []) : d ∈ LocalFileStore.ancestors p ↔ d ≠ [] ∧ d <+: p ∧ d ≠ p := by
  have hsplit := List.dropLast_append_getLast hp
  rw [LocalFileStore.ancestors, List.mem_filter, List.mem_inits, and_comm]
  refine and_congr (by simp) ?_
  constructor
  · intro hbegins
    refine ⟨hbegins.trans (List.dropLast_prefix p), fun heq => ?_⟩
    have hlength := hbegins.length_le
    have hpos := List.length_pos_of_ne_nil hp
    rw [heq, List.length_dropLast] at hlength
    omega
  · rintro ⟨⟨r, hr⟩, hne⟩
    have hrne : r ≠ [] := fun hnil => hne (by rw [← hr, hnil, List.append_nil])
    rw [← hr, List.dropLast_append_of_ne_nil hrne]
    exact List.prefix_append d _

theorem foldl_addDir (dirs added : List Path) :
    (∀ d, d ∈ added.foldl (fun dirs d => if d ∈ dirs then dirs else dirs ++ [d]) dirs ↔ d ∈ dirs ∨ d ∈ added) ∧
      (dirs.Nodup → (added.foldl (fun dirs d => if d ∈ dirs then dirs else dirs ++ [d]) dirs).Nodup) := by
  induction added generalizing dirs with
  | nil => exact ⟨by simp, id⟩
  | cons a added ih =>
    rw [List.foldl_cons]
    by_cases ha : a ∈ dirs
    · rw [if_pos ha]
      refine ⟨fun d => ?_, (ih dirs).2⟩
      rw [(ih dirs).1, List.mem_cons]
      constructor
      · exact fun h => h.imp id .inr
      · rintro (h | rfl | h)
        · exact .inl h
        · exact .inl ha
        · exact .inr h
    · rw [if_neg ha]
      refine ⟨fun d => ?_, fun hnodup => (ih _).2 ?_⟩
      · rw [(ih _).1, List.mem_append, List.mem_singleton, List.mem_cons, or_assoc]
      · exact List.nodup_append.mpr ⟨hnodup, List.nodup_singleton a, fun x hx y hy heq =>
          ha (List.mem_singleton.mp hy ▸ heq ▸ hx)⟩

/-- No path of the list is below another one, or the root. -/
structure Leaves (names : List Path) : Prop where
  root : ∀ p ∈ names, p ≠ []
  leaf : ∀ p ∈ names, ∀ q ∈ names, p <+: q → p = q

theorem disk_write {d : LocalFileStore} {names : List Path} (hnames : Leaves names) (htree : Tree d)
    (hwritten : ∀ f ∈ d.files.map Prod.fst, f ∈ names) {p : Path} (hp : p ∈ names) (contents : FileContents) :
    ∃ d', d.write p contents = .ok d' ∧ d'.files = Assoc.set p (LocalFileStore.toBytes contents) d.files ∧ Tree d' := by
  have hroot := hnames.root p hp
  have hnoFile : (LocalFileStore.ancestors p).any d.isFile = false := by
    rw [List.any_eq_false]
    intro a ha hfile
    obtain ⟨-, hbegins, hne⟩ := (mem_ancestors hroot).mp ha
    exact hne (hnames.leaf a (hwritten a (isFile_iff.mp hfile)) p hp hbegins)
  obtain ⟨hmem, hnodup⟩ := foldl_addDir d.dirs (LocalFileStore.ancestors p)
  have hmake : d.makedirs (LocalFileStore.ancestors p) = .ok { d with
      dirs := (LocalFileStore.ancestors p).foldl (fun dirs d => if d ∈ dirs then dirs else dirs ++ [d]) d.dirs } := by
    rw [LocalFileStore.makedirs, hnoFile]
    rfl
  have hkeys (q : Path) : q ∈ (Assoc.set p (LocalFileStore.toBytes contents) d.files).map Prod.fst ↔
      q = p ∨ q ∈ d.files.map Prod.fst := Assoc.mem_keys_set p _ d.files q
  have hall : ∀ q ∈ (Assoc.set p (LocalFileStore.toBytes contents) d.files).map Prod.fst, q ∈ names := by
    intro q hq
    rcases (hkeys q).mp hq with rfl | hq
    · exact hp
    · exact hwritten q hq
  have hnotDir : ¬ (p = [] ∨ p ∈ (LocalFileStore.ancestors p).foldl
      (fun dirs d => if d ∈ dirs then dirs else dirs ++ [d]) d.dirs) := by
    rintro (hnil | hdir)
    · exact hroot hnil
    · rcases (hmem p).mp hdir with hdir | hanc
      · obtain ⟨-, f, hf, hbegins, hne⟩ := (htree.dirs p).mp hdir
        exact hne (hnames.leaf p hp f (hwritten f hf) hbegins)
      · exact ((mem_ancestors hroot).mp hanc).2.2 rfl
  refine ⟨⟨Assoc.set p (LocalFileStore.toBytes contents) d.files, (LocalFileStore.ancestors p).foldl
    (fun dirs d => if d ∈ dirs then dirs else dirs ++ [d]) d.dirs⟩, ?_, rfl, ?_⟩
  · rw [LocalFileStore.write, hmake]
    exact if_neg fun hdir => hnotDir (isDir_iff.mp hdir)
  · refine ⟨fun f hf => hnames.root f (hall f hf), Assoc.nodup_set _ htree.nodup, hnodup htree.dirsNodup, fun q => ?_,
      fun f hf g hg => hnames.leaf f (hall f hf) g (hall g hg)⟩
    rw [hmem, htree.dirs, mem_ancestors hroot]
    simp only [hkeys]
    constructor
    · rintro (⟨hq, f, hf, hbegins⟩ | ⟨hq, hbegins⟩)
      · exact ⟨hq, f, .inr hf, hbegins⟩
      · exact ⟨hq, p, .inl rfl, hbegins⟩
    · rintro ⟨hq, f, rfl | hf, hbegins⟩
      · exact .inr ⟨hq, hbegins⟩
      · exact .inl ⟨hq, f, hf, hbegins⟩

theorem toByteArray_of_fromUTF8? {a : ByteArray} {text : String} (h : String.fromUTF8? a = some text) :
    text.toByteArray = a := by
  unfold String.fromUTF8? at h
  split_ifs at h
  obtain rfl := Option.some.inj h
  rfl

theorem utf8_decode {contents : FileContents} {text : String} (h : InMemoryFileStore.decode contents = some text) :
    utf8 text = LocalFileStore.toBytes contents := by
  cases contents with
  | text s =>
    obtain rfl := Option.some.inj h
    rfl
  | bytes b =>
    have hbytes := toByteArray_of_fromUTF8? h
    rw [utf8, LocalFileStore.toBytes]
    show text.toByteArray.data.toList = b
    rw [hbytes, List.data_toByteArray]

theorem decode_of_utf8 {contents : FileContents} {text : String} (h : utf8 text = LocalFileStore.toBytes contents) :
    (InMemoryFileStore.decode contents).isSome = true := by
  cases contents with
  | text s => rfl
  | bytes b =>
    have hbytes : b.toByteArray = text.toByteArray := by
      have hdata : text.toByteArray.data.toList = b := h
      rw [← hdata]
      exact ByteArray.ext List.data_toByteArray
    show (String.fromUTF8? b.toByteArray).isSome = true
    rw [hbytes, String.fromUTF8?, dif_pos text.isValidUTF8]
    rfl

/-- What a run keeps: the disk is a tree over the names written, and memory holds the same. -/
structure Sound (names : List Path) (s : Stores) : Prop where
  tree : Tree s.disk
  agree : s.Agree
  named : ∀ f ∈ s.paths, f ∈ names

theorem same_of_write {p : Path} {contents : FileContents} {d : LocalFileStore}
    (hfiles : d.files = Assoc.set p (LocalFileStore.toBytes contents) s.disk.files) {text : String}
    (htext : InMemoryFileStore.decode contents = some text) (hsame : s.SameFiles) :
    Stores.SameFiles ⟨⟨Assoc.set p.text text s.memory.files⟩, d⟩ := by
  have hmemory := Assoc.map_set (g := id) Function.injective_id utf8 p.text text s.memory.files
  have hdisk := Assoc.map_set Path.text_injective id p (LocalFileStore.toBytes contents) s.disk.files
  rw [Stores.SameFiles, hfiles]
  refine hmemory.trans ?_
  rw [utf8_decode htext]
  refine Eq.trans ?_ hdisk.symm
  exact congrArg (Assoc.set p.text (LocalFileStore.toBytes contents)) hsame

theorem decode_of_same {p : Path} {contents : FileContents} {d : LocalFileStore} {memory : InMemoryFileStore}
    (hfiles : d.files = Assoc.set p (LocalFileStore.toBytes contents) s.disk.files)
    (hsame : Stores.SameFiles ⟨memory, d⟩) : (InMemoryFileStore.decode contents).isSome = true := by
  have hwritten : (p, LocalFileStore.toBytes contents) ∈ d.files := by
    rw [hfiles]
    exact Assoc.mem_of_get? (Assoc.get?_set_self _ _ _)
  have hmem : (p.text, LocalFileStore.toBytes contents) ∈ d.files.map fun f => (f.1.text, f.2) :=
    List.mem_map_of_mem hwritten
  rw [← hsame] at hmem
  obtain ⟨f, -, hf⟩ := List.mem_map.mp hmem
  exact decode_of_utf8 (congrArg Prod.snd hf)

theorem write_spec {names : List Path} (hnames : Leaves names) (hsound : Sound names s) {p : Path} (hp : p ∈ names)
    (contents : FileContents) : ((s.step (.write p contents)).Agree ↔ CallClean s (.write p contents)) ∧
      (CallClean s (.write p contents) → Sound names (s.step (.write p contents))) := by
  obtain ⟨d, hwrite, hfiles, htree⟩ := disk_write hnames hsound.tree hsound.named hp contents
  have hkeys (q : Path) : q ∈ d.files.map Prod.fst ↔ q ∈ p :: s.paths := by
    rw [hfiles, Assoc.mem_keys_set, List.mem_cons]
    rfl
  have hstep : s.step (.write p contents) = ⟨((s.memory.write p.text contents).toOption.getD s.memory), d⟩ := by
    rw [Stores.step, hwrite]
    rfl
  have hagree {text : String} (htext : InMemoryFileStore.decode contents = some text) :
      (s.step (.write p contents)).Agree ↔ Unshadowed (p :: s.paths) := by
    have hmemory : s.memory.write p.text contents = .ok ⟨Assoc.set p.text text s.memory.files⟩ := by
      rw [InMemoryFileStore.write, htext]
    rw [hstep, hmemory]
    exact (agree_iff htree (same_of_write hfiles htext hsound.agree.same)).trans (unshadowed_congr hkeys)
  have hiff : (s.step (.write p contents)).Agree ↔ CallClean s (.write p contents) := by
    constructor
    · intro h
      have hsome : (InMemoryFileStore.decode contents).isSome = true := by
        have hsame := h.same
        rw [hstep] at hsame
        exact decode_of_same hfiles hsame
      obtain ⟨text, htext⟩ := Option.isSome_iff_exists.mp hsome
      exact ⟨hsome, (hagree htext).mp h⟩
    · rintro ⟨hsome, hclean⟩
      obtain ⟨text, htext⟩ := Option.isSome_iff_exists.mp hsome
      exact (hagree htext).mpr hclean
  refine ⟨hiff, fun hclean => ⟨?_, hiff.mpr hclean, fun f hf => ?_⟩⟩
  · rw [hstep]
    exact htree
  · rw [hstep] at hf
    rcases List.mem_cons.mp ((hkeys f).mp hf) with rfl | hf
    · exact hp
    · exact hsound.named f hf

/-! ### Deleting -/

theorem disk_delete {d : LocalFileStore} (htree : Tree d) {p : Path} (hp : p ≠ []) :
    (d.delete p).files = d.files.filter (fun f => !decide (p <+: f.1)) ∧ (d.delete p).dirs.Nodup ∧
      ∀ q, q ∈ (d.delete p).dirs ↔ q ∈ d.dirs ∧ ¬ p <+: q := by
  unfold LocalFileStore.delete
  by_cases hfile : d.isFile p = true
  · have hleaf := htree.leaf p (isFile_iff.mp hfile)
    rw [if_pos hfile]
    refine ⟨List.filter_congr fun f hf => ?_, htree.dirsNodup, fun q => ⟨fun hq => ⟨hq, fun hbelow => ?_⟩, And.left⟩⟩
    · have hiff : p <+: f.1 ↔ f.1 = p :=
        ⟨fun hbelow => (hleaf f.1 (List.mem_map_of_mem hf) hbelow).symm, fun heq => heq ▸ List.prefix_rfl⟩
      simp only [hiff, decide_not, bne_iff_ne, ne_eq]
      rfl
    · obtain ⟨-, f, hf, hqf, hne⟩ := (htree.dirs q).mp hq
      have hpf := hleaf f hf (hbelow.trans hqf)
      rw [← hpf] at hqf hne
      exact hne (hqf.eq_of_length_le hbelow.length_le)
  · rw [if_neg hfile]
    by_cases hdir : d.isDir p = true
    · rw [if_pos hdir]
      refine ⟨rfl, htree.dirsNodup.filter _, fun q => ?_⟩
      rw [List.mem_filter]
      simp
    · rw [if_neg hdir]
      have hnone : ∀ f ∈ d.files.map Prod.fst, ¬ p <+: f := by
        intro f hf hbelow
        by_cases heq : p = f
        · exact hfile (isFile_iff.mpr (heq ▸ hf))
        · exact hdir (isDir_iff.mpr (.inr ((htree.dirs p).mpr ⟨hp, f, hf, hbelow, heq⟩)))
      refine ⟨?_, htree.dirsNodup, fun q => ⟨fun hq => ⟨hq, fun hbelow => ?_⟩, And.left⟩⟩
      · refine (List.filter_eq_self.mpr fun f hf => ?_).symm
        simpa using hnone f.1 (List.mem_map_of_mem hf)
      · obtain ⟨-, f, hf, hqf, -⟩ := (htree.dirs q).mp hq
        exact hnone f hf (hbelow.trans hqf)

theorem removes_iff (htree : Tree s.disk) (hsame : s.SameFiles) {p : Path} (hp : p ≠ []) :
    s.Removes p ↔ ∀ k ∈ s.paths, p.text <+: k.text → p <+: k := by
  have hbelow {k : Path} (hk : k ∈ s.paths) : (k.text = p.text ∨ p.start <+: k.text) ↔ p <+: k := by
    have hkne := htree.root k hk
    rw [Path.start_begins_iff hkne]
    constructor
    · rintro (heq | ⟨r, -, rfl⟩)
      · exact Path.text_injective heq ▸ List.prefix_rfl
      · exact List.prefix_append p r
    · rintro ⟨r, rfl⟩
      by_cases hr : r = []
      · exact .inl (by rw [hr, List.append_nil])
      · exact .inr ⟨r, hr, rfl⟩
  have hkeys := memory_keys hsame
  have hmemory : (s.memory.delete p.text).files =
      s.memory.files.filter (fun f => !decide (f.1 = p.text ∨ p.start <+: f.1)) ↔
        ∀ f ∈ s.memory.files, p.text <+: f.1 ↔ f.1 = p.text ∨ p.start <+: f.1 := by
    constructor
    · intro h f hf
      have hmem := congrArg (f ∈ ·) h
      simp only [InMemoryFileStore.delete, List.mem_filter, hf, true_and, Bool.not_eq_true', decide_eq_false_iff_not] at hmem
      exact not_iff_not.mp (iff_of_eq hmem)
    · exact fun h => List.filter_congr fun f hf => by simp only [h f hf]
  rw [Stores.Removes, and_iff_left (disk_delete htree hp).1, hmemory]
  constructor
  · intro h k hk hbegins
    have hmem : k.text ∈ s.memory.files.map Prod.fst := hkeys ▸ List.mem_map_of_mem hk
    obtain ⟨f, hf, hfk⟩ := List.mem_map.mp hmem
    have hiff := h f hf
    rw [hfk] at hiff
    exact (hbelow hk).mp (hiff.mp hbegins)
  · intro h f hf
    have hmem : f.1 ∈ s.paths.map Path.text := hkeys ▸ List.mem_map_of_mem hf
    obtain ⟨k, hk, hfk⟩ := List.mem_map.mp hmem
    rw [← hfk, hbelow hk]
    exact ⟨h k hk, Path.text_begins⟩

theorem tree_delete {d : LocalFileStore} (htree : Tree d) {p : Path} (hp : p ≠ [])
    (hkept : (∃ f ∈ d.files.map Prod.fst, p <+: f) →
      p.dropLast = [] ∨ ∃ f ∈ d.files.map Prod.fst, p.dropLast <+: f ∧ ¬ p <+: f) : Tree (d.delete p) := by
  obtain ⟨hfiles, hnodup, hdirs⟩ := disk_delete htree hp
  have hpaths (f : Path) : f ∈ (d.delete p).files.map Prod.fst ↔ f ∈ d.files.map Prod.fst ∧ ¬ p <+: f := by
    rw [hfiles]
    simp only [List.mem_map, List.mem_filter, Bool.not_eq_true', decide_eq_false_iff_not]
    constructor
    · rintro ⟨g, ⟨hg, hbelow⟩, rfl⟩
      exact ⟨⟨g, hg, rfl⟩, hbelow⟩
    · rintro ⟨⟨g, hg, rfl⟩, hbelow⟩
      exact ⟨g, ⟨hg, hbelow⟩, rfl⟩
  refine ⟨fun f hf => htree.root f ((hpaths f).mp hf).1, ?_, hnodup, fun q => ?_,
    fun f hf g hg => htree.leaf f ((hpaths f).mp hf).1 g ((hpaths g).mp hg).1⟩
  · rw [hfiles]
    exact htree.nodup.sublist (List.filter_sublist.map Prod.fst)
  · rw [hdirs, htree.dirs]
    constructor
    · rintro ⟨⟨hq, f, hf, hqf, hne⟩, hnot⟩
      refine ⟨hq, ?_⟩
      by_cases hpf : p <+: f
      · -- the directory is above the path: it keeps what lies beside the path
        have hqp : q <+: p := (List.prefix_or_prefix_of_prefix hqf hpf).resolve_right hnot
        have hqpne : q ≠ p := fun heq => hnot (heq ▸ List.prefix_rfl)
        have hqdrop : q <+: p.dropLast := by
          have hanc := (mem_ancestors hp).mpr ⟨hq, hqp, hqpne⟩
          rw [LocalFileStore.ancestors, List.mem_filter, List.mem_inits] at hanc
          exact hanc.1
        rcases hkept ⟨f, hf, hpf⟩ with hnil | ⟨g, hg, hdrop, hpg⟩
        · rw [hnil] at hqdrop
          exact absurd (List.prefix_nil.mp hqdrop) hq
        · refine ⟨g, (hpaths g).mpr ⟨hg, hpg⟩, hqdrop.trans hdrop, fun heq => ?_⟩
          have hqf' := htree.leaf g hg f hf (heq ▸ hqf)
          exact hne (heq.trans hqf')
      · exact ⟨f, (hpaths f).mpr ⟨hf, hpf⟩, hqf, hne⟩
    · rintro ⟨hq, f, hf, hqf, hne⟩
      obtain ⟨hf, hpf⟩ := (hpaths f).mp hf
      exact ⟨⟨hq, f, hf, hqf, hne⟩, fun hpq => hpf (hpq.trans hqf)⟩

/-- The listing of the directory above shows a directory that a deletion left empty. -/
theorem kept_of_lists (htree : Tree s.disk) {p : Path} (hp : p ≠ [])
    (hlists : ∀ q, (s.disk.delete p).isDir q = true →
      ∃ entries, (s.disk.delete p).list q = .ok entries ∧
        ∀ e ∈ entries, IsChild ((s.disk.delete p).files.map fun f => f.1.text) q.start e)
    (hbelow : ∃ f ∈ s.paths, p <+: f) : p.dropLast = [] ∨ ∃ f ∈ s.paths, p.dropLast <+: f ∧ ¬ p <+: f := by
  obtain ⟨hfiles, -, hdirs⟩ := disk_delete htree hp
  by_cases hnil : p.dropLast = []
  · exact .inl hnil
  · refine .inr ?_
    obtain ⟨f, hf, hpf⟩ := hbelow
    have hsplit := List.dropLast_append_getLast hnil
    have hlength : p.dropLast.length < p.length := by
      rw [List.length_dropLast]
      exact Nat.sub_lt (List.length_pos_of_ne_nil hp) Nat.one_pos
    have hdir {q : Path} (hq : q ≠ []) (hqp : q <+: p.dropLast) : q ∈ (s.disk.delete p).dirs := by
      have hshort : q.length < p.length := hqp.length_le.trans_lt hlength
      have hqf : q <+: f := (hqp.trans (List.dropLast_prefix p)).trans hpf
      refine (hdirs q).mpr ⟨(htree.dirs q).mpr ⟨hq, f, hf, hqf, fun heq => ?_⟩, fun hpq => ?_⟩
      · exact absurd (heq ▸ hpf.length_le) (not_le.mpr hshort)
      · exact absurd hpq.length_le (not_le.mpr hshort)
    have habove : (s.disk.delete p).isDir p.dropLast.dropLast = true := by
      by_cases hroot : p.dropLast.dropLast = []
      · exact isDir_iff.mpr (.inl hroot)
      · exact isDir_iff.mpr (.inr (hdir hroot (List.dropLast_prefix _)))
    obtain ⟨entries, hok, hall⟩ := hlists _ habove
    have hentries := Except.ok.inj ((if_pos habove).symm.trans hok)
    have hself : p.dropLast.dropLast ++ [p.dropLast.getLast hnil] ∈ (s.disk.delete p).dirs :=
      hsplit.symm ▸ hdir hnil List.prefix_rfl
    have hchild := hall _ (hentries ▸ List.mem_map_of_mem (mem_listdir.mpr (.inr hself)))
    dsimp only at hchild
    rw [if_pos (isDir_iff.mpr (.inr hself)), join_name] at hchild
    have hroot : ∀ g ∈ (s.disk.delete p).files.map Prod.fst, g ≠ [] := by
      intro g hg
      rw [hfiles] at hg
      exact htree.root g ((List.filter_sublist.map Prod.fst).subset hg)
    rw [show ((s.disk.delete p).files.map fun f => f.1.text) = ((s.disk.delete p).files.map Prod.fst).map Path.text by
      rw [List.map_map]; rfl, Path.isChild_iff hroot] at hchild
    obtain ⟨n, r, hg, heq⟩ := hchild
    rw [List.append_assoc, List.append_assoc] at heq
    have hname : p.dropLast.getLast hnil = n := by
      refine @Name.eq_of_append_eq _ _ true (decide (r ≠ [])) ?_
      simpa using List.append_cancel_left heq
    rw [hfiles] at hg
    obtain ⟨g, hg, hgn⟩ := List.mem_map.mp hg
    obtain ⟨hg, hnot⟩ := List.mem_filter.mp hg
    refine ⟨g.1, List.mem_map_of_mem hg, ?_, by simpa using hnot⟩
    rw [hgn, ← hsplit, hname]
    exact ⟨r, by simp⟩

theorem delete_spec {names : List Path} (hsound : Sound names s) {p : Path} (hp : p ≠ []) :
    (((s.step (.delete p)).Agree ∧ s.Removes p) ↔ CallClean s (.delete p)) ∧
      (CallClean s (.delete p) → Sound names (s.step (.delete p))) := by
  have htree := hsound.tree
  have hfiles := (disk_delete htree hp).1
  have hpaths (f : Path) : f ∈ (s.step (.delete p)).paths ↔ f ∈ s.paths.filter fun k => !decide (p <+: k) := by
    rw [Stores.paths, Stores.step, hfiles, Stores.paths, List.filter_map]
    rfl
  have hsame (hremoves : s.Removes p) : (s.step (.delete p)).SameFiles := by
    have hbelow := (removes_iff htree hsound.agree.same hp).mp hremoves
    have hfilter := congrArg (List.filter fun f => !decide (p.text <+: f.1)) hsound.agree.same
    rw [List.filter_map, List.filter_map] at hfilter
    have hdisk : s.disk.files.filter ((fun f => !decide (p.text <+: f.1)) ∘ fun f => (f.1.text, f.2)) =
        (s.disk.delete p).files := by
      rw [hfiles]
      refine List.filter_congr fun f hf => ?_
      have hiff : p.text <+: f.1.text ↔ p <+: f.1 := ⟨hbelow f.1 (List.mem_map_of_mem hf), Path.text_begins⟩
      simp only [Function.comp_apply, hiff]
    rw [hdisk] at hfilter
    exact hfilter
  have hagree (hremoves : s.Removes p) (htree' : Tree (s.disk.delete p)) :
      (s.step (.delete p)).Agree ↔ Unshadowed (s.paths.filter fun k => !decide (p <+: k)) :=
    (agree_iff (s := s.step (.delete p)) htree' (hsame hremoves)).trans (unshadowed_congr hpaths)
  have hiff : ((s.step (.delete p)).Agree ∧ s.Removes p) ↔ CallClean s (.delete p) := by
    constructor
    · rintro ⟨hafter, hremoves⟩
      have hkept := kept_of_lists htree hp fun q hq => by
        obtain ⟨-, entries, hok, -, hall⟩ := hafter.lists q hq
        exact ⟨entries, hok, fun e he => (hall e).mp he⟩
      exact ⟨(removes_iff htree hsound.agree.same hp).mp hremoves, hkept,
        (hagree hremoves (tree_delete htree hp hkept)).mp hafter⟩
    · rintro ⟨hremoves, hkept, hclean⟩
      have hremoves := (removes_iff htree hsound.agree.same hp).mpr hremoves
      exact ⟨(hagree hremoves (tree_delete htree hp hkept)).mpr hclean, hremoves⟩
  refine ⟨hiff, fun hclean => ⟨tree_delete htree hp hclean.2.1, (hiff.mpr hclean).1, fun f hf => ?_⟩⟩
  exact hsound.named f (List.mem_of_mem_filter ((hpaths f).mp hf))

end Steps

/-! ## Every run -/

theorem sound_empty (names : List Path) : Sound names {} := by
  have htree : Tree (Stores.disk {}) := ⟨nofun, List.nodup_nil, List.nodup_nil, fun d => ⟨nofun, nofun⟩, nofun⟩
  refine ⟨htree, (agree_iff htree rfl).mpr ?_, nofun⟩
  rintro d - ⟨f, hf, -⟩
  cases hf

theorem interchangeable_iff_from {names : List Path} (hnames : Leaves names) {s : Stores} (hsound : Sound names s)
    (calls : List Call) (hwritten : ∀ p contents, .write p contents ∈ calls → p ∈ names)
    (hdeleted : ∀ p, .delete p ∈ calls → p ≠ []) : s.Interchangeable calls ↔ Clean s calls := by
  induction calls generalizing s with
  | nil => exact Iff.rfl
  | cons call calls ih =>
    have hrest (hnext : Sound names (s.step call)) : (s.step call).Interchangeable calls ↔ Clean (s.step call) calls :=
      ih hnext (fun p contents h => hwritten p contents (List.mem_cons_of_mem _ h))
        fun p h => hdeleted p (List.mem_cons_of_mem _ h)
    have hcall : ((s.step call).Agree ∧ (∀ p, call = .delete p → s.Removes p) ↔ CallClean s call) ∧
        (CallClean s call → Sound names (s.step call)) := by
      cases call with
      | write p contents =>
        obtain ⟨hiff, hsound'⟩ := write_spec hnames hsound (hwritten p contents List.mem_cons_self) contents
        exact ⟨(and_iff_left fun q hq => nomatch hq).trans hiff, hsound'⟩
      | delete p =>
        obtain ⟨hiff, hsound'⟩ := delete_spec hsound (hdeleted p List.mem_cons_self)
        refine ⟨Iff.trans (and_congr_right fun _ => ?_) hiff, hsound'⟩
        exact ⟨fun h => h p rfl, fun h q hq => by rwa [← Call.delete.inj hq]⟩
      | list p => exact ⟨iff_of_true ⟨hsound.agree, fun q hq => nomatch hq⟩ trivial, fun _ => hsound⟩
    rw [Stores.Interchangeable, Clean, ← and_assoc, hcall.1]
    exact and_congr_right fun hclean => hrest (hcall.2 hclean)

/-- The stores are interchangeable exactly in the runs that are clean. -/
theorem interchangeable_iff_clean (calls : List Call) (hcalls : WellNamed calls) :
    Stores.Interchangeable {} calls ↔ Clean {} calls := by
  have hmem {p : Path} : p ∈ calls.filterMap (fun | .write p _ => some p | _ => none) ↔
      ∃ contents, Call.write p contents ∈ calls := by
    rw [List.mem_filterMap]
    constructor
    · rintro ⟨call, hcall, hp⟩
      cases call with
      | write q contents => exact ⟨contents, Option.some.inj hp ▸ hcall⟩
      | delete q => cases hp
      | list q => cases hp
    · rintro ⟨contents, hcall⟩
      exact ⟨_, hcall, rfl⟩
  refine interchangeable_iff_from ⟨fun p hp => ?_, fun p hp q hq => ?_⟩ (sound_empty _) calls
    (fun p contents h => hmem.mpr ⟨contents, h⟩) hcalls.deleted
  · obtain ⟨contents, h⟩ := hmem.mp hp
    exact hcalls.written p contents h
  · obtain ⟨contents, h⟩ := hmem.mp hp
    obtain ⟨contents', h'⟩ := hmem.mp hq
    exact hcalls.distinct p contents q contents' h h'

def name (text : List Char) (nonempty : text ≠ [] := by decide) (noSlash : '/' ∉ text := by decide)
    (notDots : text ≠ ['.'] ∧ text ≠ ['.', '.'] := by decide) : Name := ⟨text, nonempty, noSlash, notDots⟩

def foo : Name := name ['f', 'o', 'o']

def foobar : Name := name ['f', 'o', 'o', 'b', 'a', 'r']

def siblings : List Call := [.write [foo, name ['a']] (.text "1"), .write [foobar] (.text "2"), .delete [foo]]

theorem wellNamed_siblings : WellNamed siblings := by
  refine ⟨fun p contents h => ?_, fun p h => ?_, fun p contents q contents' h h' hbelow => ?_⟩
  · simp only [siblings, List.mem_cons, Call.write.injEq, reduceCtorEq, List.not_mem_nil, or_false] at h
    rcases h with ⟨rfl, -⟩ | ⟨rfl, -⟩
    · exact List.cons_ne_nil _ _
    · exact List.cons_ne_nil _ _
  · simp only [siblings, List.mem_cons, Call.delete.injEq, reduceCtorEq, List.not_mem_nil, or_false, false_or] at h
    rw [h]
    exact List.cons_ne_nil _ _
  · simp only [siblings, List.mem_cons, Call.write.injEq, reduceCtorEq, List.not_mem_nil, or_false] at h h'
    rcases h with ⟨rfl, -⟩ | ⟨rfl, -⟩ <;> rcases h' with ⟨rfl, -⟩ | ⟨rfl, -⟩
    · rfl
    · exact absurd hbelow (by decide)
    · exact absurd hbelow (by decide)
    · rfl

theorem interchangeable_iff_clean_siblings :
    WellNamed siblings ∧ (Stores.Interchangeable {} siblings ↔ Clean {} siblings) :=
  ⟨wellNamed_siblings, interchangeable_iff_clean siblings wellNamed_siblings⟩

/-- A directory deleted in memory takes the sibling with it whose name begins alike. -/
theorem siblings_not_interchangeable : ¬ ∀ calls, WellNamed calls → Stores.Interchangeable {} calls := by
  intro h
  obtain ⟨-, -, -, -, hafter, -⟩ := h siblings wellNamed_siblings
  have hcount := congrArg List.length hafter.same
  rw [List.length_map, List.length_map] at hcount
  exact absurd hcount (by decide +kernel)

end FileStores

end OpenHands
