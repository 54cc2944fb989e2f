import OpenHandsSWE.Lib.Assoc
import OpenHandsSWE.Resolver.GitPatch

/-! The patch of an agent, applied by the resolver to a directory: the files that it changes, adds and deletes. -/

namespace OpenHands.Patching
open Text EditScript

/-! ## Files -/

/-- The files and the directories of a disk, by their full names. -/
structure Disk where
  files : List (List Char × List Char)
  dirs : List (List Char)
deriving DecidableEq, Repr

def ancestors (path : List Char) : List (List Char) := path.inits.filter fun d => decide (d ≠ [] ∧ d ++ ['/'] <+: path)

namespace Disk

def isFile (fs : Disk) (path : List Char) : Bool := Assoc.contains path fs.files

def isDir (fs : Disk) (path : List Char) : Bool := fs.dirs.contains path

def openError (fs : Disk) (path : List Char) : PyError :=
  if fs.isDir path then .osError "IsADirectoryError" else .fileNotFoundError

def read (fs : Disk) (path : List Char) : Except PyError (List Char) :=
  match Assoc.get? path fs.files with
  | some content => .ok content
  | none => .error (fs.openError path)

def remove (fs : Disk) (path : List Char) : Except PyError Disk :=
  if fs.isFile path then .ok { fs with files := Assoc.erase path fs.files } else .error (fs.openError path)

/-- `os.makedirs(os.path.dirname(path), exist_ok=True)`. -/
def makedirs (fs : Disk) (path : List Char) : Except PyError Disk :=
  if (ancestors path).any fs.isFile then
    .error (.osError (if (ancestors path).getLast?.any fs.isFile then "FileExistsError" else "NotADirectoryError"))
  else .ok { fs with dirs := fs.dirs ++ (ancestors path).filter fun d => !fs.isDir d }

def write (fs : Disk) (path content : List Char) : Except PyError Disk :=
  if fs.isDir path then .error (.osError "IsADirectoryError")
  else .ok { fs with files := Assoc.set path content fs.files }

/-- `shutil.move` of a file: into the directory with the new name, if there is one. -/
def move (fs : Disk) (old new : List Char) : Except PyError Disk :=
  let inside := new ++ '/' :: old.rtakeWhile (· ≠ '/')
  if fs.isDir new ∧ (fs.isFile inside || fs.isDir inside) then .error (.osError "Error")
  else
    (fs.read old).bind fun content =>
      (fs.remove old).bind fun fs => fs.write (if fs.isDir new then inside else new) content

def isEmpty (fs : Disk) (dir : List Char) : Bool :=
  (fs.files.map Prod.fst ++ fs.dirs).all fun path => !decide (dir ++ ['/'] <+: path)

/-- The directories of a path, from the last one on, as long as they are empty and belong to the repository. -/
def removeEmpty (fs : Disk) (repoDir : List Char) : List (List Char) → Disk
  | [] => fs
  | dir :: dirs =>
    if repoDir <+: dir ∧ fs.isDir dir = true ∧ fs.isEmpty dir = true then
      removeEmpty { fs with dirs := fs.dirs.filter (· ≠ dir) } repoDir dirs
    else fs

end Disk

/-- `os.path.join`. -/
def join (dir path : List Char) : List Char := if path.head? = some '/' then path else dir ++ '/' :: path

/-! ## Lines -/

/-- The newline that a file is opened with; none where the file has none. -/
def detectNewline (content : List Char) : Option LineEnd :=
  if ['\r', '\n'] <:+: content then some .crlf else if '\n' ∈ content then some .lf else none

def stripReturns (line : List Char) : List Char :=
  let isEnd (c : Char) : Bool := c = '\r' || c = '\n'
  (line.dropWhile isEnd).rdropWhile isEnd

/-- `[x.strip(newline) for x in f.readlines()]`. -/
def splitContent (content : List Char) : Option LineEnd → List (List Char)
  | some .crlf =>
    let pieces := split ['\r', '\n'] content
    (if pieces.getLast? = some [] then pieces.dropLast else pieces).map stripReturns
  | some .lf => bareLines '\n' content
  | none => (bareLines '\r' content).map strip

/-- What printing the lines leaves in the file. -/
def joinLines (lines : List (List Char)) : Option LineEnd → List Char
  | some .crlf => replace ['\n'] ['\r', '\n'] (ended '\n' lines)
  | _ => ended '\n' lines

/-! ## The patch -/

/-- Both prefixes go, one after the other. -/
def cleanPath (path : List Char) : List Char := removePrefix "b/".toList (removePrefix "a/".toList path)

section Applying

variable (others : OtherFormats) (repoDir : List Char)

/-- The lines of the file are changed, or a new file is made of them. -/
def editFile (fs : Disk) (oldPath : Option (List Char)) (newPath : List Char) (diff : DiffObj) : Except Raised Disk :=
  let opened : Except PyError (Option LineEnd × List (List Char)) := match oldPath with
    | some old => (fs.read old).map fun content => (detectNewline content, splitContent content (detectNewline content))
    | none => .ok (some .lf, [])
  (opened.mapError Raised.python).bind fun (newline, lines) =>
    match diff.changes with
    | none => .ok fs
    | some changes =>
      (applyDiff changes lines).bind fun newContent =>
        ((fs.makedirs newPath).bind fun fs => fs.write newPath (joinLines newContent newline)).mapError .python

def applyDiffObj (fs : Disk) (diff : DiffObj) : Except Raised Disk :=
  match diff.header with
  | none => .error (.python (.attributeError "'NoneType' object has no attribute 'new_path'"))
  | some header =>
    match given header.newPath with
    | none => .ok fs
    | some path =>
      let oldPath := ((given header.oldPath).filter (· ≠ devNull)).map fun old => join repoDir (cleanPath old)
      let newPath := join repoDir (cleanPath path)
      if path = devNull then
        match oldPath with
        | none => .error (.python (.assertionError ""))
        | some old => if fs.isFile old || fs.isDir old then (fs.remove old).mapError .python else .ok fs
      else
        match oldPath.filter fun _ => renameFrom <:+: diff.text with
        | some old =>
          (((fs.makedirs newPath).bind fun fs => fs.move old newPath).mapError .python).map fun fs =>
            fs.removeEmpty repoDir (ancestors old).reverse
        | none => editFile fs oldPath newPath diff

def applyPieces : Disk → List (List (List Char)) → Except Raised Disk
  | fs, [] => .ok fs
  | fs, piece :: pieces =>
    (parsePiece others piece).bind fun
      | some diff => (applyDiffObj repoDir fs diff).bind fun fs => applyPieces fs pieces
      | none => applyPieces fs pieces

def applyPatch (fs : Disk) (patch : List Char) : Except Raised Disk := applyPieces others repoDir fs (patchPieces patch)

end Applying

/-! ## The lines of a file with one kind of end -/

section Lines

variable {lines : List (List Char)}

theorem contentOf_lf (lines : List (List Char)) : contentOf .lf lines = ended '\n' lines := rfl

/-- The letters of an end are not in clean lines. -/
theorem Clean.notMem (h : ∀ line ∈ lines, ∀ c ∈ line, isLineEnd c = false) :
    ∀ line ∈ lines, '\r' ∉ line ∧ '\n' ∉ line := by
  intro line hline
  constructor
  · exact fun hmem => absurd (h line hline _ hmem) (by decide)
  · exact fun hmem => absurd (h line hline _ hmem) (by decide)

theorem return_notMem (h : ∀ line ∈ lines, '\r' ∉ line ∧ '\n' ∉ line) : '\r' ∉ contentOf .lf lines := by
  intro hmem
  obtain ⟨line, hline, hmem⟩ := List.mem_flatMap.mp hmem
  rcases List.mem_append.mp hmem with hmem | hmem
  · exact (h line hline).1 hmem
  · cases hmem with
    | tail _ hmem => cases hmem

theorem read_lf (h : ∀ line ∈ lines, '\r' ∉ line ∧ '\n' ∉ line) :
    splitContent (contentOf .lf lines) (detectNewline (contentOf .lf lines)) = lines ∧
      ∀ new, joinLines new (detectNewline (contentOf .lf lines)) = contentOf .lf new := by
  have hreturn : ¬ ['\r', '\n'] <:+: contentOf .lf lines := fun hwithin =>
    return_notMem h (hwithin.subset List.mem_cons_self)
  rw [detectNewline, if_neg hreturn]
  cases lines with
  | nil => exact ⟨rfl, fun new => rfl⟩
  | cons line rest =>
    have hmem : '\n' ∈ contentOf .lf (line :: rest) := by
      rw [contentOf_lf, ended_cons]
      exact List.mem_append_right _ List.mem_cons_self
    rw [if_pos hmem]
    refine ⟨?_, fun new => rfl⟩
    have hbare := bareLines_ended (c := '\n') (r := []) (fun p hp => (h p hp).2) List.not_mem_nil
    rw [List.append_nil] at hbare
    rw [splitContent, contentOf_lf, hbare]
    exact List.append_nil _

theorem split_return {line : List Char} (h : '\r' ∉ line) (cs : List Char) :
    split ['\r', '\n'] (line ++ '\r' :: '\n' :: cs) = line :: split ['\r', '\n'] cs := by
  induction line with
  | nil => exact split_append ['\r', '\n'] (List.cons_ne_nil _ _) cs
  | cons c line ih =>
    rw [List.mem_cons, not_or] at h
    have hpre : ¬ ['\r', '\n'] <+: c :: (line ++ '\r' :: '\n' :: cs) := fun hpre => h.1 (List.cons_prefix_cons.mp hpre).1
    rw [List.cons_append, split_cons _ hpre, ih h.2, consHead]

theorem split_crlf (h : ∀ line ∈ lines, '\r' ∉ line) : split ['\r', '\n'] (contentOf .crlf lines) = lines ++ [[]] := by
  induction lines with
  | nil => rfl
  | cons line rest ih =>
    obtain ⟨hline, hrest⟩ := List.forall_mem_cons.mp h
    have htext : contentOf .crlf (line :: rest) = line ++ '\r' :: '\n' :: contentOf .crlf rest := by
      rw [contentOf, List.flatMap_cons, List.append_assoc]
      rfl
    rw [htext, split_return hline, ih hrest, List.cons_append]

theorem stripReturns_of_notMem {line : List Char} (h : '\r' ∉ line ∧ '\n' ∉ line) : stripReturns line = line := by
  have hstay : ∀ c ∈ line, (decide (c = '\r') || decide (c = '\n')) = false := by
    intro c hc
    rw [Bool.or_eq_false_iff, decide_eq_false_iff_not, decide_eq_false_iff_not]
    exact ⟨fun hr => h.1 (hr ▸ hc), fun hn => h.2 (hn ▸ hc)⟩
  have hdrop (cs : List Char) (hcs : ∀ c ∈ cs, (decide (c = '\r') || decide (c = '\n')) = false) :
      cs.dropWhile (fun c => decide (c = '\r') || decide (c = '\n')) = cs := by
    cases cs with
    | nil => rfl
    | cons c cs => exact List.dropWhile_cons_of_neg (by rw [hcs c List.mem_cons_self]; exact Bool.false_ne_true)
  rw [stripReturns]
  rw [hdrop line hstay, List.rdropWhile, hdrop line.reverse fun c hc => hstay c (List.mem_reverse.mp hc), List.reverse_reverse]

theorem intercalate_ends (pat : List Char) (ps : List (List Char)) :
    List.intercalate pat (ps ++ [[]]) = ps.flatMap (· ++ pat) := by
  induction ps with
  | nil => rfl
  | cons p ps ih =>
    rw [List.cons_append, intercalate_cons pat p (by simp), ih, List.flatMap_cons, List.append_assoc]

theorem read_crlf (hne : lines ≠ []) (h : ∀ line ∈ lines, '\r' ∉ line ∧ '\n' ∉ line) :
    splitContent (contentOf .crlf lines) (detectNewline (contentOf .crlf lines)) = lines ∧
      ∀ new : List (List Char), (∀ line ∈ new, '\r' ∉ line ∧ '\n' ∉ line) →
        joinLines new (detectNewline (contentOf .crlf lines)) = contentOf .crlf new := by
  have hreturn : ['\r', '\n'] <:+: contentOf .crlf lines := by
    obtain ⟨line, rest, rfl⟩ := List.exists_cons_of_ne_nil hne
    exact ⟨line, contentOf .crlf rest, rfl⟩
  rw [detectNewline, if_pos hreturn]
  constructor
  · rw [splitContent, split_crlf fun line hline => (h line hline).1]
    rw [List.getLast?_concat, if_pos rfl, List.dropLast_concat]
    exact (List.map_congr_left fun line hline => stripReturns_of_notMem (h line hline)).trans (List.map_id lines)
  · intro new hnew
    have hsplit := split_ended (c := '\n') (r := []) (fun p hp => (hnew p hp).2) List.not_mem_nil
    rw [List.append_nil] at hsplit
    rw [joinLines, replace, hsplit, intercalate_ends]
    rfl

/-- A file with one kind of end is read as its lines, and lines are written with that end. -/
theorem read_contentOf {ending : LineEnd} (hne : ending = .crlf → lines ≠ []) (h : ∀ line ∈ lines, '\r' ∉ line ∧ '\n' ∉ line)
    {new : List (List Char)} (hnew : ∀ line ∈ new, '\r' ∉ line ∧ '\n' ∉ line) :
    splitContent (contentOf ending lines) (detectNewline (contentOf ending lines)) = lines ∧
      joinLines new (detectNewline (contentOf ending lines)) = contentOf ending new := by
  cases ending with
  | lf => exact ⟨(read_lf h).1, (read_lf h).2 new⟩
  | crlf => exact ⟨(read_crlf (hne rfl) h).1, (read_crlf (hne rfl) h).2 new hnew⟩

end Lines

/-! ## What is done to the disk -/

namespace Disk

variable {fs : Disk} {path : List Char}

/-- A file stands in directories, and no file is a directory. -/
structure Sound (fs : Disk) : Prop where
  closed : ∀ path ∈ fs.files.map Prod.fst, ∀ d ∈ ancestors path, d ∈ fs.dirs
  apart : ∀ d ∈ fs.dirs, d ∉ fs.files.map Prod.fst

theorem isFile_iff : fs.isFile path = true ↔ path ∈ fs.files.map Prod.fst := by
  rw [isFile, Assoc.contains, Option.isSome_iff_ne_none, ne_eq, Assoc.get?_eq_none_iff, not_not]

theorem isDir_iff : fs.isDir path = true ↔ path ∈ fs.dirs := List.contains_iff_mem

theorem makedirs_eq (h : ∀ d ∈ ancestors path, d ∉ fs.files.map Prod.fst) :
    fs.makedirs path = .ok { fs with dirs := fs.dirs ++ (ancestors path).filter fun d => !fs.isDir d } := by
  refine if_neg fun hany => ?_
  obtain ⟨d, hd, hfile⟩ := List.any_eq_true.mp hany
  exact h d hd (isFile_iff.mp hfile)

theorem mem_makedirs (fs : Disk) (path d : List Char) :
    d ∈ fs.dirs ++ (ancestors path).filter (fun d => !fs.isDir d) ↔ d ∈ fs.dirs ∨ d ∈ ancestors path := by
  rw [List.mem_append, List.mem_filter, Bool.not_eq_true', ← Bool.not_eq_true, isDir_iff]
  tauto

theorem write_eq (h : path ∉ fs.dirs) (content : List Char) :
    fs.write path content = .ok { fs with files := Assoc.set path content fs.files } := by
  refine if_neg fun hdir => h ?_
  exact isDir_iff.mp hdir

theorem read_eq {content : List Char} (h : Assoc.get? path fs.files = some content) : fs.read path = .ok content := by
  rw [read, h]

theorem notMem_ancestors (path : List Char) : path ∉ ancestors path := by
  intro hmem
  have hpre : path ++ ['/'] <+: path := (of_decide_eq_true (List.mem_filter.mp hmem).2).2
  have hlength := hpre.length_le
  rw [List.length_append, List.length_singleton] at hlength
  omega

end Disk

namespace FileDiff

variable {repoDir : List Char} {f g : FileDiff} {fs fs' : Disk}

def target (repoDir : List Char) (f : FileDiff) : List Char := join repoDir f.change.path

/-- The disk has the file as it was before; for a new one there is room. -/
structure Ready (repoDir : List Char) (fs : Disk) (f : FileDiff) : Prop where
  before : Assoc.get? (f.target repoDir) fs.files = f.change.before
  room : f.change.isAdded = true → f.target repoDir ∉ fs.dirs ∧ ∀ d ∈ ancestors (f.target repoDir), d ∉ fs.files.map Prod.fst

/-- What one file of a patch does: to this file, and to the directories of a new one. -/
structure Applied (repoDir : List Char) (f : FileDiff) (fs fs' : Disk) : Prop where
  files : ∀ path, Assoc.get? path fs'.files = if path = f.target repoDir then f.change.after else Assoc.get? path fs.files
  dirs : ∀ d, d ∈ fs'.dirs ↔ d ∈ fs.dirs ∨ f.change.isAdded = true ∧ d ∈ ancestors (f.target repoDir)

/-- Neither of two new files stands in a directory with the name of the other. -/
def Beside (repoDir : List Char) (f g : FileDiff) : Prop :=
  f.target repoDir ≠ g.target repoDir ∧
    (f.change.isAdded = true → g.change.isAdded = true →
      f.target repoDir ∉ ancestors (g.target repoDir) ∧ g.target repoDir ∉ ancestors (f.target repoDir))

theorem Applied.mem_files (h : f.Applied repoDir fs fs') (path : List Char) :
    path ∈ fs'.files.map Prod.fst ↔
      if path = f.target repoDir then f.change.after ≠ none else path ∈ fs.files.map Prod.fst := by
  have hmem (disk : Disk) : path ∈ disk.files.map Prod.fst ↔ Assoc.get? path disk.files ≠ none := by
    rw [ne_eq, Assoc.get?_eq_none_iff, not_not]
  rw [hmem fs', h.files]
  split_ifs
  · rfl
  · exact (hmem fs).symm

theorem isAdded_iff (f : FileDiff) : f.change.isAdded = true ↔ f.change.before = none := by
  cases hchange : f.change with
  | changed path ending diff => simp [FileChange.isAdded, FileChange.before]
  | added path lines => simp [FileChange.isAdded, FileChange.before]
  | deleted path ending lines => simp [FileChange.isAdded, FileChange.before]

/-- A file that is there stands in directories and is none. -/
theorem Ready.placed (h : f.Ready repoDir fs) (hfs : fs.Sound) :
    f.target repoDir ∉ fs.dirs ∧ (∀ d ∈ ancestors (f.target repoDir), d ∉ fs.files.map Prod.fst) ∧
      (f.change.isAdded = false → ∀ d ∈ ancestors (f.target repoDir), d ∈ fs.dirs) := by
  by_cases hadded : f.change.isAdded = true
  · exact ⟨(h.room hadded).1, (h.room hadded).2, fun hnot => absurd hadded (by rw [hnot]; exact Bool.false_ne_true)⟩
  · have hfile : f.target repoDir ∈ fs.files.map Prod.fst := by
      rw [← not_not (a := _ ∈ _), ← Assoc.get?_eq_none_iff, h.before]
      exact fun hnone => hadded (f.isAdded_iff.mpr hnone)
    exact ⟨fun hdir => hfs.apart _ hdir hfile, fun d hd => hfs.apart d (hfs.closed _ hfile d hd), fun _ => hfs.closed _ hfile⟩

theorem Applied.sound (h : f.Applied repoDir fs fs') (hready : f.Ready repoDir fs) (hfs : fs.Sound) : fs'.Sound := by
  obtain ⟨hdir, hancestors, hold⟩ := hready.placed hfs
  constructor
  · intro path hpath d hd
    rw [h.dirs]
    by_cases htarget : path = f.target repoDir
    · subst htarget
      by_cases hadded : f.change.isAdded = true
      · exact .inr ⟨hadded, hd⟩
      · exact .inl (hold (by simpa using hadded) d hd)
    · rw [h.mem_files, if_neg htarget] at hpath
      exact .inl (hfs.closed path hpath d hd)
  · intro d hd
    rw [h.mem_files]
    rcases (h.dirs d).mp hd with hd | ⟨_, hd⟩
    · have hother : d ≠ f.target repoDir := by
        rintro rfl
        exact hdir hd
      rw [if_neg hother]
      exact hfs.apart d hd
    · have hother : d ≠ f.target repoDir := by
        rintro rfl
        exact Disk.notMem_ancestors _ hd
      rw [if_neg hother]
      exact hancestors d hd

/-- A file that is beside stays ready. -/
theorem Applied.ready (h : f.Applied repoDir fs fs') (hbeside : f.Beside repoDir g) (hf : f.Ready repoDir fs)
    (hg : g.Ready repoDir fs) : g.Ready repoDir fs' where
  before := by rw [h.files, if_neg hbeside.1.symm, hg.before]
  room := by
    intro hadded
    obtain ⟨hdir, hancestors⟩ := hg.room hadded
    constructor
    · rw [h.dirs]
      rintro (hmem | ⟨hnew, hmem⟩)
      · exact hdir hmem
      · exact (hbeside.2 hnew hadded).2 hmem
    · intro d hd hmem
      rw [h.mem_files] at hmem
      split_ifs at hmem with heq
      · subst heq
        -- it stands where a directory of the new file would be, so it was not there before
        have hnew : f.change.isAdded = true := by
          rw [isAdded_iff, ← hf.before, Assoc.get?_eq_none_iff]
          exact hancestors _ hd
        exact (hbeside.2 hnew hadded).1 hd
      · exact hancestors d hd hmem

/-! ## One file of a patch -/

theorem Plain.notNull (h : f.Plain) : f.change.path ≠ devNull := by
  intro heq
  refine h.rooted.1 ?_
  rw [heq]
  rfl

theorem Plain.cleanPath (h : f.Plain) : cleanPath f.change.path = f.change.path := by
  rw [Patching.cleanPath, removePrefix_of_not h.rooted.2.1, removePrefix_of_not h.rooted.2.2]

theorem given_some {path : List Char} (h : path ≠ []) : given (some path) = some path :=
  Option.filter_some_pos (by simpa using h)

/-- The old name that is used. -/
theorem Plain.oldPath (h : f.Plain) (repoDir : List Char) :
    ((given (some f.oldName)).filter (· ≠ devNull)).map (fun old => join repoDir (Patching.cleanPath old)) =
      if f.change.isAdded then none else some (f.target repoDir) := by
  rw [oldName]
  split_ifs with hadded
  · rfl
  · rw [given_some h.path.1, Option.filter_some_pos (by simpa using h.notNull), Option.map_some, h.cleanPath, target]

theorem Plain.noReturn (h : f.Plain) :
    (∀ line ∈ f.change.diff.old, '\r' ∉ line ∧ '\n' ∉ line) ∧ ∀ line ∈ f.change.diff.new, '\r' ∉ line ∧ '\n' ∉ line :=
  ⟨Clean.notMem fun line hline => h.clean line (List.mem_append_left _ hline),
    Clean.notMem fun line hline => h.clean line (List.mem_append_right _ hline)⟩

theorem applyDiff_diff (f : FileDiff) : applyDiff (changes f.change.diff) f.change.diff.old = .ok f.change.diff.new :=
  applyDiff_of_fits (Fits.refl f.change.diff)

/-- The new content is written, in a directory that is made for a new file. -/
theorem exists_written {content : List Char} (hfs : fs.Sound) (hready : f.Ready repoDir fs)
    (hafter : f.change.after = some content) :
    ∃ fs', (fs.makedirs (f.target repoDir)).bind (fun fs => fs.write (f.target repoDir) content) = .ok fs' ∧
      f.Applied repoDir fs fs' := by
  obtain ⟨hdir, hancestors, hold⟩ := hready.placed hfs
  have hmade : f.target repoDir ∉ fs.dirs ++ (ancestors (f.target repoDir)).filter fun d => !fs.isDir d := by
    rw [Disk.mem_makedirs]
    rintro (hmem | hmem)
    · exact hdir hmem
    · exact Disk.notMem_ancestors _ hmem
  rw [Disk.makedirs_eq hancestors]
  refine ⟨_, @Disk.write_eq { fs with dirs := _ } _ hmade content, ?_, ?_⟩
  · intro path
    split_ifs with heq
    · rw [heq, hafter, Assoc.get?_set_self]
    · exact Assoc.get?_set_of_ne heq content fs.files
  · intro d
    rw [Disk.mem_makedirs]
    constructor
    · rintro (hmem | hmem)
      · exact .inl hmem
      · by_cases hadded : f.change.isAdded = true
        · exact .inr ⟨hadded, hmem⟩
        · exact .inl (hold (by simpa using hadded) d hmem)
    · rintro (hmem | ⟨_, hmem⟩)
      · exact .inl hmem
      · exact .inr hmem

theorem exists_removed {content : List Char} (hready : f.Ready repoDir fs) (hbefore : f.change.before = some content)
    (hafter : f.change.after = none) :
    ∃ fs', (if fs.isFile (f.target repoDir) || fs.isDir (f.target repoDir) then (fs.remove (f.target repoDir)).mapError Raised.python
        else .ok fs) = .ok fs' ∧ f.Applied repoDir fs fs' := by
  have hadded : f.change.isAdded ≠ true := by
    rw [ne_eq, isAdded_iff, hbefore]
    exact Option.some_ne_none content
  have hfile : fs.isFile (f.target repoDir) = true := by
    rw [Disk.isFile_iff, ← not_not (a := _ ∈ _), ← Assoc.get?_eq_none_iff, hready.before, hbefore]
    exact Option.some_ne_none content
  rw [hfile, Bool.true_or, if_pos rfl, Disk.remove, if_pos hfile]
  refine ⟨_, rfl, ?_, ?_⟩
  · intro path
    rw [hafter]
    exact Assoc.get?_erase (f.target repoDir) path fs.files
  · intro d
    exact ⟨.inl, fun hmem => hmem.resolve_right fun hnew => hadded hnew.1⟩

theorem applyDiffObj_deleted {diff : DiffObj} {header : Header} {old : List Char} (hheader : diff.header = some header)
    (hnew : given header.newPath = some devNull)
    (hold : ((given header.oldPath).filter (· ≠ devNull)).map (fun old => join repoDir (Patching.cleanPath old)) = some old) :
    applyDiffObj repoDir fs diff =
      if fs.isFile old || fs.isDir old then (fs.remove old).mapError .python else .ok fs := by
  rw [applyDiffObj, hheader]
  dsimp only
  rw [hnew]
  dsimp only
  rw [hold, if_pos rfl]

theorem applyDiffObj_edited {diff : DiffObj} {header : Header} {path : List Char} {oldPath : Option (List Char)}
    (hheader : diff.header = some header) (hnew : given header.newPath = some path) (hpath : path ≠ devNull)
    (hold : ((given header.oldPath).filter (· ≠ devNull)).map (fun old => join repoDir (Patching.cleanPath old)) = oldPath)
    (hrenamed : oldPath = none ∨ ¬ renameFrom <:+: diff.text) :
    applyDiffObj repoDir fs diff = editFile fs oldPath (join repoDir (Patching.cleanPath path)) diff := by
  have hnone : oldPath.filter (fun _ => renameFrom <:+: diff.text) = none := by
    rcases hrenamed with rfl | hrenamed
    · rfl
    · rw [Option.filter_eq_none_iff]
      exact fun _ _ => by simpa using hrenamed
  rw [applyDiffObj, hheader]
  dsimp only
  rw [hnew]
  dsimp only
  rw [hold, if_neg hpath, hnone]

/-- The lines of a file that is read are changed and written back. -/
theorem editFile_some {old new content : List Char} {lines out : List (List Char)} {diff : DiffObj} {cs : List Change}
    (hread : Assoc.get? old fs.files = some content) (hlines : splitContent content (detectNewline content) = lines)
    (hchanges : diff.changes = some cs) (happly : applyDiff cs lines = .ok out) :
    editFile fs (some old) new diff =
      ((fs.makedirs new).bind fun fs => fs.write new (joinLines out (detectNewline content))).mapError .python := by
  rw [editFile]
  dsimp only
  rw [Disk.read_eq hread, hchanges]
  change (applyDiff cs (splitContent content (detectNewline content))).bind _ = _
  rw [hlines, happly]
  rfl

theorem editFile_none {new : List Char} {out : List (List Char)} {diff : DiffObj} {cs : List Change}
    (hchanges : diff.changes = some cs) (happly : applyDiff cs [] = .ok out) :
    editFile fs none new diff = ((fs.makedirs new).bind fun fs => fs.write new (joinLines out (some .lf))).mapError .python := by
  rw [editFile, hchanges]
  change (applyDiff cs []).bind _ = _
  rw [happly]
  rfl

/-- A diff that is read from its text is applied to its file. -/
theorem exists_applyDiffObj (hplain : f.Plain) (hfs : fs.Sound) (hready : f.Ready repoDir fs) {header : Header}
    (hold : header.oldPath = some f.oldName) (hnew : header.newPath = some f.newName) :
    ∃ fs', applyDiffObj repoDir fs
        ⟨some header, some (changes f.change.diff), List.intercalate ['\n'] f.lines ++ ['\n']⟩ = .ok fs' ∧
      f.Applied repoDir fs fs' := by
  obtain ⟨hsplit, hjoin⟩ := read_contentOf hplain.ended hplain.noReturn.1 hplain.noReturn.2
  have happly := f.applyDiff_diff
  have hbefore := hready.before
  have hclean : join repoDir (Patching.cleanPath f.change.path) = f.target repoDir := by rw [hplain.cleanPath, target]
  have holdPath := hplain.oldPath repoDir
  rw [← hold] at holdPath
  have hnewPath (hname : f.newName = f.change.path) : given header.newPath = some f.change.path := by
    rw [hnew, hname, given_some hplain.path.1]
  cases hchange : f.change with
  | changed path ending diff =>
    have hname : f.newName = f.change.path := by
      rw [newName, hchange]
      rfl
    have hexisting : f.change.isAdded = false := by
      rw [hchange]
      rfl
    have hafter : f.change.after = some (contentOf f.change.ending f.change.diff.new) := by
      rw [hchange]
      rfl
    have hcontent : Assoc.get? (f.target repoDir) fs.files = some (contentOf f.change.ending f.change.diff.old) := by
      rw [hbefore, hchange]
      rfl
    obtain ⟨fs', hwritten, happlied⟩ := exists_written hfs hready hafter
    rw [hexisting, if_neg Bool.false_ne_true] at holdPath
    refine ⟨fs', ?_, happlied⟩
    rw [← hchange, applyDiffObj_edited rfl (hnewPath hname) hplain.notNull holdPath (.inr (hplain.notRenamed hexisting)), hclean,
      editFile_some hcontent hsplit rfl happly, hjoin, hwritten]
    rfl
  | added path lines =>
    have hname : f.newName = f.change.path := by
      rw [newName, hchange]
      rfl
    have hadded : f.change.isAdded = true := by
      rw [hchange]
      rfl
    have hafter : f.change.after = some (contentOf .lf f.change.diff.new) := by
      rw [hchange]
      simp [FileChange.after, FileChange.diff, Diff.new, Hunk.new, target_insert]
    have hempty : f.change.diff.old = [] := by
      rw [hchange]
      simp [FileChange.diff, Diff.old, Hunk.old, source_insert]
    obtain ⟨fs', hwritten, happlied⟩ := exists_written hfs hready hafter
    rw [hadded, if_pos rfl] at holdPath
    rw [hempty] at happly
    refine ⟨fs', ?_, happlied⟩
    rw [← hchange, applyDiffObj_edited rfl (hnewPath hname) hplain.notNull holdPath (.inl rfl), hclean, editFile_none rfl happly,
      show joinLines f.change.diff.new (some .lf) = contentOf .lf f.change.diff.new from rfl, hwritten]
    rfl
  | deleted path ending lines =>
    have hname : f.newName = devNull := by
      rw [newName, hchange]
      rfl
    obtain ⟨fs', hremoved, happlied⟩ := @exists_removed _ _ _ (contentOf ending lines) hready (by rw [hchange]; rfl) (by rw [hchange]; rfl)
    have hnewNull : given header.newPath = some devNull := by
      rw [hnew, hname]
      decide
    rw [hchange] at holdPath
    refine ⟨fs', ?_, happlied⟩
    rw [applyDiffObj_deleted rfl hnewNull holdPath, hremoved]

end FileDiff

/-! ## The whole patch -/

open FileDiff

/-- A patch that was made for the files of a disk. -/
structure Applicable (repoDir : List Char) (fs : Disk) (patch : List FileDiff) : Prop where
  sound : fs.Sound
  plain : ∀ f ∈ patch, f.Plain
  ready : ∀ f ∈ patch, f.Ready repoDir fs
  beside : patch.Pairwise (Beside repoDir)

/-- The files of a patch are as it says, and the other files as they were. -/
structure Patched (repoDir : List Char) (patch : List FileDiff) (fs fs' : Disk) : Prop where
  sound : fs'.Sound
  files : ∀ f ∈ patch, Assoc.get? (f.target repoDir) fs'.files = f.change.after
  others : ∀ path, (∀ f ∈ patch, path ≠ f.target repoDir) → Assoc.get? path fs'.files = Assoc.get? path fs.files
  dirs : ∀ d, d ∈ fs'.dirs ↔ d ∈ fs.dirs ∨ ∃ f ∈ patch, f.change.isAdded = true ∧ d ∈ ancestors (f.target repoDir)

section Run

variable {repoDir : List Char} {f : FileDiff} {patch : List FileDiff} {fs fs₁ fs' : Disk}

theorem Applicable.next (h : Applicable repoDir fs (f :: patch)) (happlied : f.Applied repoDir fs fs₁) :
    Applicable repoDir fs₁ patch := by
  obtain ⟨hready, hrest⟩ := List.forall_mem_cons.mp h.ready
  obtain ⟨hbeside, hpairs⟩ := List.pairwise_cons.mp h.beside
  exact {
    sound := happlied.sound hready h.sound
    plain := (List.forall_mem_cons.mp h.plain).2
    ready := fun g hg => happlied.ready (hbeside g hg) hready (hrest g hg)
    beside := hpairs }

/-- What the rest of a patch does leaves the first file alone. -/
theorem Patched.cons (h : Patched repoDir patch fs₁ fs') (happlied : f.Applied repoDir fs fs₁)
    (hbeside : ∀ g ∈ patch, Beside repoDir f g) : Patched repoDir (f :: patch) fs fs' where
  sound := h.sound
  files := by
    refine List.forall_mem_cons.mpr ⟨?_, h.files⟩
    rw [h.others _ fun g hg => (hbeside g hg).1, happlied.files, if_pos rfl]
  others := by
    intro path hpath
    obtain ⟨hf, hpatch⟩ := List.forall_mem_cons.mp hpath
    rw [h.others path hpatch, happlied.files, if_neg hf]
  dirs := by
    intro d
    rw [h.dirs, happlied.dirs, List.exists_mem_cons_iff, or_assoc]

theorem exists_applyPieces (others : OtherFormats) (h : Applicable repoDir fs patch) :
    ∃ fs', applyPieces others repoDir fs (patch.map lines) = .ok fs' ∧ Patched repoDir patch fs fs' := by
  induction patch generalizing fs with
  | nil => exact ⟨fs, rfl, h.sound, List.forall_mem_nil _, fun _ _ => rfl, fun d => by simp⟩
  | cons f patch ih =>
    obtain ⟨hplain, _⟩ := List.forall_mem_cons.mp h.plain
    obtain ⟨hready, _⟩ := List.forall_mem_cons.mp h.ready
    obtain ⟨header, hold, hnew, hpiece⟩ := hplain.parsePiece others
    obtain ⟨fs₁, happly, happlied⟩ := exists_applyDiffObj hplain h.sound hready hold hnew
    obtain ⟨fs', hrun, hpatched⟩ := ih (h.next happlied)
    refine ⟨fs', ?_, hpatched.cons happlied (List.pairwise_cons.mp h.beside).1⟩
    rw [List.map_cons, applyPieces, hpiece]
    change (applyDiffObj repoDir fs _).bind _ = _
    rw [happly]
    exact hrun

theorem parsePiece_nil (others : OtherFormats) : parsePiece others [] = .ok none := rfl

end Run

/-! ## A patch of two files -/

def sampleChanged : FileDiff where
  change := .changed ['a'] .crlf ⟨[⟨[['x']], [.keep ['y'], .delete ['z'], .insert ['w']]⟩], []⟩
  oldVersion := ['0', 'a']
  newVersion := ['1', 'b']
  mode := ['1', '0', '0', '6', '4', '4']
  heading _ := []

def sampleAdded : FileDiff where
  change := .added ['d', '/', 'b'] [['n']]
  oldVersion := ['0']
  newVersion := ['2', 'c']
  mode := ['1', '0', '0', '6', '4', '4']
  heading _ := []

def sampleDisk : Disk := ⟨[("/r/a".toList, "x\r\ny\r\nz\r\n".toList)], ["/r".toList]⟩

theorem sampleChanged_plain : sampleChanged.Plain where
  path := by simp [sampleChanged, FileChange.path, isLineEnd]
  rooted := by decide
  versions := by simp [sampleChanged, isHex]
  mode := by simp [sampleChanged]
  heading _ := List.forall_mem_nil _
  clean := by simp [sampleChanged, FileChange.diff, Diff.old, Diff.new, Hunk.old, Hunk.new, Edit.old, Edit.new, isLineEnd]
  nonempty := by decide
  ended _ := by decide
  notRenamed _ h := absurd (h.subset (a := 'm') (by decide)) (by decide)

theorem sampleAdded_plain : sampleAdded.Plain where
  path := by simp [sampleAdded, FileChange.path, isLineEnd]
  rooted := by decide
  versions := by simp [sampleAdded, isHex]
  mode := by simp [sampleAdded]
  heading _ := List.forall_mem_nil _
  clean := by simp [sampleAdded, FileChange.diff, Diff.old, Diff.new, Hunk.old, Hunk.new, Edit.old, Edit.new, isLineEnd]
  nonempty := by decide
  ended h := by cases h
  notRenamed h := by cases h

theorem applicable_sample : Applicable "/r".toList sampleDisk [sampleChanged, sampleAdded] where
  sound := ⟨by decide, by decide⟩
  plain := List.forall_mem_cons.mpr ⟨sampleChanged_plain, List.forall_mem_singleton.mpr sampleAdded_plain⟩
  ready := List.forall_mem_cons.mpr ⟨⟨by decide, by decide⟩, List.forall_mem_singleton.mpr ⟨by decide, by decide⟩⟩
  beside := List.pairwise_pair.mpr ⟨by decide, by decide⟩
end OpenHands.Patching
