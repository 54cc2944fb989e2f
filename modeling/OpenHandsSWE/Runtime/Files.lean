import OpenHandsSWE.Events.Event
import OpenHandsSWE.Lib.Assoc
import OpenHandsSWE.Lib.Lines
import OpenHandsSWE.Lib.Python

/-! Reading and writing the files of a sandbox, in whole or by a range of lines. -/

namespace OpenHands

open Text

namespace Files

/-! ## Ranges of lines -/

def readLines (allLines : List (List Char)) (start endLine : Int) : List (List Char) :=
  let start := min (max start 0) allLines.length
  let endLine := min (if endLine = -1 then -1 else max endLine 0) allLines.length
  if endLine = -1 then
    if start = 0 then allLines else Py.dropTo allLines start
  else
    let numLines : Int := allLines.length
    let begin := max 0 (min start (numLines - 2))
    let endLine := if endLine > numLines then -1 else max (begin + 1) endLine
    Py.slice allLines begin endLine

/-- The new content goes into the original, in the place of its lines from `start` to `endLine`. -/
def insertLines (toInsert original : List (List Char)) (start endLine : Int) : List (List Char) :=
  (if start = 0 then [[]] else Py.takeTo original start) ++ toInsert.map (· ++ ['\n']) ++
    (if endLine = -1 then [[]] else Py.dropTo original endLine)

/-! ## The disk -/

/-- What is found at a path; a file's text is as it lies on the disk. -/
inductive Entry where
  | text (raw : List Char)
  | undecodable
  | directory
deriving DecidableEq, Repr

abbrev Disk := List (String × Entry)

inductive OpenError where
  | notFound
  | isDirectory
  | undecodable
deriving DecidableEq, Repr

/-- Reading a text file makes every line end a `\n`. -/
def universalNewlines : List Char → List Char
  | [] => []
  | '\r' :: '\n' :: cs => '\n' :: universalNewlines cs
  | '\r' :: cs => '\n' :: universalNewlines cs
  | c :: cs => c :: universalNewlines cs

/-- `open(path, 'r').readlines()`. -/
def allLines (disk : Disk) (path : String) : Except OpenError (List (List Char)) :=
  match Assoc.get? path disk with
  | none => .error .notFound
  | some .directory => .error .isDirectory
  | some .undecodable => .error .undecodable
  | some (.text raw) => .ok (keepLines '\n' (universalNewlines raw))

/-- What both ways to write do with the file: a new one has the content only. -/
def writeLines (disk : Disk) (path : String) (content : List Char) (start endLine : Int) : Except OpenError Disk :=
  let insert := split ['\n'] content
  match allLines disk path with
  | .ok original => .ok (Assoc.set path (.text (insertLines insert original start endLine).flatten) disk)
  | .error .notFound => .ok (Assoc.set path (.text (insert.map (· ++ ['\n'])).flatten) disk)
  | .error err => .error err

inductive Observation where
  | error (content : String)
  | fileRead (path : String) (content : List Char)
  | fileWrite (path : String)
deriving DecidableEq, Repr

/-! ## Paths -/

/-- What stands before the parts of a path. -/
def root (path : String) : List Char :=
  if "//".toList <+: path.toList ∧ ¬ "///".toList <+: path.toList then "//".toList
  else if "/".toList <+: path.toList then "/".toList
  else []

def parts (path : String) : List (List Char) :=
  (split ['/'] path.toList).filter fun part => part ≠ [] ∧ part ≠ ['.']

/-- `str(Path(workingDir) / path)` for a path that is not absolute, else `str(Path(path))`. -/
def resolvePath (path workingDir : String) : String :=
  let text := if root path = [] then root workingDir ++ List.intercalate ['/'] (parts workingDir ++ parts path)
    else root path ++ List.intercalate ['/'] (parts path)
  if text = [] then "." else String.ofList text

def mediaSuffixes : List String := [".png", ".jpg", ".jpeg", ".bmp", ".gif", ".pdf", ".mp4", ".webm", ".ogg"]

/-- Such a file is read as data. -/
def isMedia (filepath : String) : Bool :=
  mediaSuffixes.any fun suffix => decide (suffix.toList <:+ filepath.toList.map Char.toLower)

/-! ## The executor -/

structure FileReadAction where
  path : String
  start : Int := 0
  endLine : Int := -1
  implSource : FileReadSource := .default
  viewRange : Option (List Int) := none

structure FileWriteAction where
  path : String
  content : List Char
  start : Int := 0
  endLine : Int := -1

/-- The executor's surroundings: whether a path names a binary file, the file editor's view, media files as text, and
the error of a change of permissions. -/
structure Executor where
  workingDir : String
  isBinary : Disk → String → Bool
  view : Disk → String → Option (List Int) → List Char
  dataUrl : String → Entry → List Char
  chownError : String → Option String

/-- `open(path, 'rb').read()`, as the text that stands for it. -/
def encoded (x : Executor) (disk : Disk) (filepath : String) : Except OpenError (List Char) :=
  match Assoc.get? filepath disk with
  | none => .error .notFound
  | some .directory => .error .isDirectory
  | some entry => .ok (x.dataUrl filepath entry)

def Executor.read (x : Executor) (disk : Disk) (action : FileReadAction) : Observation :=
  if x.isBinary disk action.path = true then .error "ERROR_BINARY_FILE"
  else if action.implSource = .ohAci then .fileRead action.path (x.view disk action.path action.viewRange)
  else
    let filepath := resolvePath action.path x.workingDir
    let codeView := if isMedia filepath = true then encoded x disk filepath
      else (allLines disk filepath).map fun lines => (readLines lines action.start action.endLine).flatten
    match codeView with
    | .ok content => .fileRead filepath content
    | .error .notFound => .error ("File not found: " ++ filepath ++ ". Your current working directory is " ++
        x.workingDir ++ ".")
    | .error .undecodable => .error ("File could not be decoded as utf-8: " ++ filepath ++ ".")
    | .error .isDirectory => .error ("Path is a directory: " ++ filepath ++ ". You can only read files")

def Executor.write (x : Executor) (disk : Disk) (action : FileWriteAction) : Observation × Disk :=
  let filepath := resolvePath action.path x.workingDir
  match writeLines disk filepath action.content action.start action.endLine with
  | .ok disk =>
    -- the file is written before its permissions are set
    match x.chownError filepath with
    | some err => (.error ("File " ++ filepath ++ " written, but failed to change ownership and permissions: " ++ err),
        disk)
    | none => (.fileWrite filepath, disk)
  | .error .notFound => (.error ("File not found: " ++ filepath), disk)
  | .error .isDirectory => (.error ("Path is a directory: " ++ filepath ++ ". You can only write to files"), disk)
  | .error .undecodable => (.error ("File could not be decoded as utf-8: " ++ filepath), disk)

/-! ## Files by the paths of the workspace -/

/-- `wholePath` is a path on the host, `none` for one outside the workspace. -/
def readFile (disk : Disk) (path : String) (wholePath : Option String) (start endLine : Int) : Observation :=
  match wholePath with
  | none => .error ("You're not allowed to access this path: " ++ path ++
      ". You can only access paths inside the workspace.")
  | some wholePath =>
    match allLines disk wholePath with
    | .ok lines => .fileRead path (readLines lines start endLine).flatten
    | .error .notFound => .error ("File not found: " ++ path)
    | .error .undecodable => .error ("File could not be decoded as utf-8: " ++ path)
    | .error .isDirectory => .error ("Path is a directory: " ++ path ++ ". You can only read files")

def writeFile (disk : Disk) (path : String) (wholePath : Option String) (content : List Char) (start endLine : Int) :
    Observation × Disk :=
  match wholePath with
  | none => (.error ("Permission error on " ++ path ++ ": File access not permitted: " ++ path), disk)
  | some wholePath =>
    match writeLines disk wholePath content start endLine with
    | .ok disk => (.fileWrite path, disk)
    | .error .notFound => (.error ("File not found: " ++ path), disk)
    | .error .isDirectory => (.error ("Path is a directory: " ++ path ++ ". You can only write to files"), disk)
    | .error .undecodable => (.error ("File could not be decoded as utf-8: " ++ path), disk)

/-! ## The two ways to a file -/

/-- The executor takes a path of the sandbox, the functions for the workspace have resolved theirs. -/
inductive Door where
  | executor (x : Executor) (path : String)
  | workspace (path wholePath : String)

def Door.file : Door → String
  | .executor x path => resolvePath path x.workingDir
  | .workspace _ wholePath => wholePath

def Door.read (disk : Disk) (start endLine : Int) : Door → Observation
  | .executor x path => x.read disk { path := path, start := start, endLine := endLine }
  | .workspace path wholePath => readFile disk path (some wholePath) start endLine

def Door.write (disk : Disk) (content : List Char) (start endLine : Int) : Door → Observation × Disk
  | .executor x path => x.write disk { path := path, content := content, start := start, endLine := endLine }
  | .workspace path wholePath => writeFile disk path (some wholePath) content start endLine

/-- The file is read as text. -/
def Door.Plain (disk : Disk) : Door → Prop
  | .executor x path => x.isBinary disk path = false ∧ isMedia (resolvePath path x.workingDir) = false
  | .workspace _ _ => True

/-! ## What a read and a write do to the lines -/

/-- A use of a file: its whole text read and written back, a range of its lines read, or a range written. -/
inductive Request where
  | writeBack
  | readRange (start endLine : Nat)
  | writeRange (start endLine : Nat) (content : List Char)

def Observation.content? : Observation → Option (List Char)
  | .fileRead _ content => some content
  | _ => none

/-- The lines that a request names are lines of the text. -/
def Request.InRange (text : List Char) : Request → Prop
  | .writeBack => True
  | .readRange start endLine => start < endLine ∧ endLine ≤ (keepLines '\n' text).length
  | .writeRange start endLine _ => start ≤ endLine ∧ endLine ≤ (keepLines '\n' text).length

/-- Reads give the lines they name, and writes put in the lines of the content and leave the others. -/
def InverseOnLines (disk : Disk) (door : Door) (text : List Char) : Request → Prop
  | .writeBack => ∃ content, (door.read disk 0 (-1)).content? = some content ∧
      Assoc.get? door.file (door.write disk content 0 (-1)).2 = some (.text text)
  | .readRange start endLine =>
      (door.read disk start endLine).content? = some (((keepLines '\n' text).take endLine).drop start).flatten
  | .writeRange start endLine content => ∃ new,
      Assoc.get? door.file (door.write disk content start endLine).2 = some (.text new) ∧
      bareLines '\n' new =
        (bareLines '\n' text).take start ++ bareLines '\n' content ++ (bareLines '\n' text).drop endLine

/-- The requests that are served as meant. -/
def Request.Served (text : List Char) : Request → Prop
  | .writeBack => False
  | .readRange start _ => start + 2 ≤ (keepLines '\n' text).length ∨ (keepLines '\n' text).length = 1
  | .writeRange start _ content =>
      -- at the end of a text whose last line is not ended, only line ends can be written
      if start = (keepLines '\n' text).length ∧ unended '\n' text = true then ∀ c ∈ content, c = '\n'
      else unended '\n' content = true

theorem universalNewlines_of_notMem {cs : List Char} (h : '\r' ∉ cs) : universalNewlines cs = cs := by
  induction cs with
  | nil => rfl
  | cons c cs ih =>
    obtain ⟨hc, hcs⟩ := not_or.mp fun hmem => h (List.mem_cons.mpr hmem)
    rw [universalNewlines, ih hcs]
    · exact fun _ heq => absurd heq.symm hc
    · exact fun heq => absurd heq.symm hc

/-! ### Reading -/

section Reading

variable {lines : List (List Char)} {start endLine : Nat}

theorem readLines_whole (lines : List (List Char)) : readLines lines 0 (-1) = lines := by
  unfold readLines
  rw [if_pos rfl]
  have hend : min (-1 : Int) lines.length = -1 := by omega
  have hstart : min (max (0 : Int) 0) lines.length = 0 := by omega
  rw [if_pos hend, if_pos hstart]

/-- A range that is read begins at the last line but one at most. -/
theorem readLines_range (hrange : start < endLine) (hend : endLine ≤ lines.length) :
    readLines lines start endLine = (lines.take endLine).drop (min start (lines.length - 2)) := by
  unfold readLines
  have hne : ¬ (endLine : Int) = -1 := by omega
  have hmin : min (max (endLine : Int) 0) lines.length = endLine := by omega
  simp only [if_neg hne, hmin]
  have hbegin : max 0 (min (min (max (start : Int) 0) lines.length) ((lines.length : Int) - 2)) =
      ((min start (lines.length - 2) : Nat) : Int) := by omega
  have hnot : ¬ (endLine : Int) > lines.length := by omega
  rw [hbegin, if_neg hnot]
  have hmax : max (((min start (lines.length - 2) : Nat) : Int) + 1) endLine = endLine := by omega
  rw [hmax, Py.slice_natCast]

theorem readLines_range_iff (hne : ∀ l ∈ lines, l ≠ []) (hrange : start < endLine) (hend : endLine ≤ lines.length) :
    (readLines lines start endLine).flatten = ((lines.take endLine).drop start).flatten ↔
      start + 2 ≤ lines.length ∨ lines.length = 1 := by
  rw [readLines_range hrange hend]
  constructor
  · intro h
    by_contra hlast
    -- the only line that is asked for is the last of two or more, and the one before it is read as well
    have hmin : min start (lines.length - 2) = lines.length - 2 := by omega
    have hstart : start = lines.length - 1 := by omega
    have htake : lines.take endLine = lines := List.take_of_length_le (by omega)
    have hlt : lines.length - 2 < lines.length := by omega
    have hnext : lines.length - 2 + 1 = lines.length - 1 := by omega
    rw [hmin, hstart, htake, List.drop_eq_getElem_cons hlt, hnext, List.flatten_cons] at h
    have hempty : lines[lines.length - 2] = [] := List.append_left_eq_self.mp h
    exact hne _ (List.getElem_mem hlt) hempty
  · intro h
    have hmin : min start (lines.length - 2) = start := by omega
    rw [hmin]

end Reading

/-! ### Writing -/

section Writing

variable {c : Char} {ps qs : List (List Char)} {r w text content : List Char} {start endLine : Nat}

theorem flatten_map_end (ps : List (List Char)) : (ps.map (· ++ ['\n'])).flatten = ended '\n' ps := List.flatMap_def.symm

theorem ended_split (content : List Char) : ended '\n' (split ['\n'] content) = content ++ ['\n'] := by
  obtain ⟨ps, r, hps, hr, rfl⟩ := exists_ended '\n' content
  rw [split_ended hps hr, ended_append, ended_cons, List.append_assoc]
  rfl

theorem insertLines_whole (toInsert lines : List (List Char)) :
    (insertLines toInsert lines 0 (-1)).flatten = ended '\n' toInsert := by
  unfold insertLines
  rw [if_pos rfl, if_pos rfl]
  simp only [List.flatten_append, List.flatten_singleton, List.nil_append, List.append_nil, flatten_map_end]

theorem insertLines_range (toInsert lines : List (List Char)) (start endLine : Nat) :
    (insertLines toInsert lines start endLine).flatten =
      (lines.take start).flatten ++ ended '\n' toInsert ++ (lines.drop endLine).flatten := by
  have hbefore : (if (start : Int) = 0 then [[]] else Py.takeTo lines start).flatten = (lines.take start).flatten := by
    by_cases hstart : start = 0
    · subst hstart
      rfl
    · rw [if_neg (by omega), Py.takeTo, if_pos (by omega)]
      rfl
  have hafter : (if (endLine : Int) = -1 then [[]] else Py.dropTo lines endLine) = lines.drop endLine := by
    rw [if_neg (by omega), Py.dropTo, if_pos (by omega)]
    rfl
  unfold insertLines
  rw [List.flatten_append, List.flatten_append, hbefore, hafter, flatten_map_end]

theorem flatten_lastLine (r : List Char) : (lastLine r).flatten = r := by
  unfold lastLine
  split
  next h => rw [h, List.flatten_nil]
  · exact List.flatten_singleton

theorem lastLine_eq_singleton (r : List Char) : lastLine r = [r] ↔ r ≠ [] := by
  unfold lastLine
  by_cases h : r = []
  · simp [h]
  · simp [h]

/-- Before the end of the text, or after an ended line, the new lines stand alone. -/
theorem bareLines_inserted (hps : ∀ p ∈ ps, '\n' ∉ p) (hr : '\n' ∉ r) (hqs : ∀ q ∈ qs, '\n' ∉ q)
    (hstart : start ≤ ps.length) :
    bareLines '\n' (((ps.map (· ++ ['\n']) ++ lastLine r).take start).flatten ++ ended '\n' qs ++
        ((ps.map (· ++ ['\n']) ++ lastLine r).drop endLine).flatten) =
      ps.take start ++ qs ++ (ps ++ lastLine r).drop endLine := by
  have hbefore : ((ps.map (· ++ ['\n']) ++ lastLine r).take start).flatten = ended '\n' (ps.take start) := by
    rw [List.take_append_of_le_length (by simpa using hstart), ← List.map_take, flatten_map_end]
  have htail : ∃ r', '\n' ∉ r' ∧ (lastLine r).drop (endLine - ps.length) = lastLine r' ∧
      ((lastLine r).drop (endLine - ps.length)).flatten = r' := by
    by_cases hdrop : endLine - ps.length = 0
    · exact ⟨r, hr, by rw [hdrop, List.drop_zero], by rw [hdrop, List.drop_zero, flatten_lastLine]⟩
    · have hnil : (lastLine r).drop (endLine - ps.length) = [] := by
        refine List.drop_eq_nil_of_le ?_
        have hlen : (lastLine r).length ≤ 1 := by
          unfold lastLine
          split <;> simp
        omega
      exact ⟨[], List.not_mem_nil, hnil, by rw [hnil]; rfl⟩
  obtain ⟨r', hr', htail, hflat⟩ := htail
  have hafter : ((ps.map (· ++ ['\n']) ++ lastLine r).drop endLine).flatten = ended '\n' (ps.drop endLine) ++ r' := by
    rw [List.drop_append, List.flatten_append, ← List.map_drop, flatten_map_end, List.length_map, hflat]
  rw [hbefore, hafter, ← ended_append, ← List.append_assoc, ← ended_append, bareLines_ended _ hr', List.drop_append, htail]
  · simp only [List.append_assoc]
  · intro p hp
    simp only [List.mem_append] at hp
    rcases hp with (hp | hp) | hp
    · exact hps p (List.mem_of_mem_take hp)
    · exact hqs p hp
    · exact hps p (List.mem_of_mem_drop hp)

/-- After a line that is not ended the first new one goes on. -/
theorem bareLines_joined (hps : ∀ p ∈ ps, '\n' ∉ p) (hr : '\n' ∉ r) {q : List Char} (hq : '\n' ∉ q)
    (hqs : ∀ q ∈ qs, '\n' ∉ q) :
    bareLines '\n' (ended '\n' ps ++ r ++ ended '\n' (q :: qs)) = ps ++ (r ++ q) :: qs := by
  have hform : ended '\n' ps ++ r ++ ended '\n' (q :: qs) = ended '\n' (ps ++ (r ++ q) :: qs) ++ [] := by
    rw [ended_append, ended_cons, ended_cons]
    simp only [List.append_assoc, List.append_nil]
  rw [hform, bareLines_ended _ List.not_mem_nil]
  · exact List.append_nil _
  · intro p hp
    rcases List.mem_append.mp hp with hp | hp
    · exact hps p hp
    · rcases List.mem_cons.mp hp with rfl | hp
      · exact fun h => (List.mem_append.mp h).elim hr hq
      · exact hqs p hp

theorem eq_of_append_singleton {x : List Char} (h : qs ++ [x] = x :: qs) : ∀ p ∈ qs, p = x := by
  induction qs with
  | nil => exact List.forall_mem_nil _
  | cons q qs ih =>
    obtain ⟨rfl, h⟩ := List.cons.inj h
    exact List.forall_mem_cons.mpr ⟨rfl, ih h⟩

/-- Only line ends are the same lines before and after one more of them. -/
theorem cons_pieces_iff {q : List Char} {qs' : List (List Char)} (hpieces : qs ++ [w] = q :: qs') :
    (r ++ q) :: qs' = r :: (qs ++ lastLine w) ↔ w = [] ∧ ∀ p ∈ qs, p = [] := by
  constructor
  · intro h
    obtain ⟨hq, hqs'⟩ := List.cons.inj h
    obtain rfl : q = [] := List.append_right_eq_self.mp hq
    have hlen : (qs ++ [w]).length = ([] :: qs').length := congrArg List.length hpieces
    rw [hqs'] at hlen
    have hw : w = [] := by
      by_contra hw
      rw [lastLine, if_neg hw] at hlen
      simp at hlen
    subst hw
    have hsame : qs' = qs := hqs'.trans (List.append_nil qs)
    exact ⟨rfl, eq_of_append_singleton (hsame ▸ hpieces)⟩
  · rintro ⟨rfl, hqs⟩
    have hrep : qs = List.replicate qs.length [] := List.eq_replicate_iff.mpr ⟨rfl, hqs⟩
    rw [hrep, ← List.replicate_succ', List.replicate_succ] at hpieces
    obtain ⟨rfl, hrest⟩ := List.cons.inj hpieces
    rw [← hrest, ← hrep, List.append_nil]
    exact congrArg (r :: ·) (List.append_nil qs).symm

theorem forall_ended_iff (hqs : ∀ q ∈ qs, '\n' ∉ q) (hw : '\n' ∉ w) :
    (∀ d ∈ ended '\n' qs ++ w, d = '\n') ↔ w = [] ∧ ∀ p ∈ qs, p = [] := by
  have hempty : ∀ {p : List Char}, '\n' ∉ p → ((∀ d ∈ p, d = '\n') ↔ p = []) := by
    intro p hp
    constructor
    · intro h
      refine List.eq_nil_iff_forall_not_mem.mpr fun d hd => hp ?_
      rwa [← h d hd]
    · rintro rfl
      exact List.forall_mem_nil _
  rw [List.forall_mem_append, hempty hw, and_comm, ended, List.forall_mem_flatMap]
  refine and_congr_right fun _ => forall_congr' fun p => forall_congr' fun hp => ?_
  rw [List.forall_mem_append, hempty (hqs p hp)]
  exact and_iff_left (List.forall_mem_singleton.mpr rfl)

theorem insertLines_range_iff (hrange : start ≤ endLine) (hend : endLine ≤ (keepLines '\n' text).length) :
    bareLines '\n' (insertLines (split ['\n'] content) (keepLines '\n' text) start endLine).flatten =
        (bareLines '\n' text).take start ++ bareLines '\n' content ++ (bareLines '\n' text).drop endLine ↔
      Request.Served text (.writeRange start endLine content) := by
  obtain ⟨ps, r, hps, hr, rfl⟩ := exists_ended '\n' text
  obtain ⟨qs, w, hqs, hw, rfl⟩ := exists_ended '\n' content
  have hpieces : ∀ q ∈ qs ++ [w], '\n' ∉ q := List.forall_mem_append.mpr ⟨hqs, List.forall_mem_singleton.mpr hw⟩
  rw [insertLines_range, split_ended hqs hw, keepLines_ended hps hr, bareLines_ended hps hr, bareLines_ended hqs hw]
  unfold Request.Served
  dsimp only
  simp only [keepLines_ended hps hr, unended_iff hr, unended_iff hw, forall_ended_iff hqs hw]
  rw [keepLines_ended hps hr] at hend
  have hlen : (ps.map (· ++ ['\n']) ++ lastLine r).length = ps.length + (lastLine r).length := by simp
  rw [hlen] at hend ⊢
  by_cases hstart : start ≤ ps.length
  · -- the lines before `start` are ended
    have hnot : ¬ (start = ps.length + (lastLine r).length ∧ r ≠ []) := by
      rintro ⟨hstart', hne⟩
      rw [(lastLine_eq_singleton r).mpr hne, List.length_singleton] at hstart'
      omega
    rw [if_neg hnot, bareLines_inserted hps hr hpieces hstart, List.take_append_of_le_length hstart,
      List.append_left_inj, List.append_right_inj, List.append_right_inj, eq_comm, lastLine_eq_singleton]
  · have hne : r ≠ [] := by
      rintro rfl
      have hzero : (lastLine ([] : List Char)).length = 0 := rfl
      omega
    have hone : lastLine r = [r] := (lastLine_eq_singleton r).mpr hne
    rw [hone, List.length_singleton] at hend ⊢
    have hstart' : start = ps.length + 1 := by omega
    have hend' : endLine = ps.length + 1 := by omega
    obtain ⟨q, qs', hcons⟩ := List.exists_cons_of_ne_nil (List.append_ne_nil_of_right_ne_nil qs (List.cons_ne_nil w []))
    rw [if_pos ⟨hstart', hne⟩, hstart', hend']
    have htake : (ps.map (· ++ ['\n']) ++ [r]).take (ps.length + 1) = ps.map (· ++ ['\n']) ++ [r] :=
      List.take_of_length_le (by simp)
    have hdrop : (ps.map (· ++ ['\n']) ++ [r]).drop (ps.length + 1) = [] := List.drop_eq_nil_of_le (by simp)
    have htake' : (ps ++ [r]).take (ps.length + 1) = ps ++ [r] := List.take_of_length_le (by simp)
    have hdrop' : (ps ++ [r]).drop (ps.length + 1) = [] := List.drop_eq_nil_of_le (by simp)
    rw [htake, hdrop, htake', hdrop', List.flatten_append, flatten_map_end, List.flatten_singleton, List.flatten_nil,
      List.append_nil, List.append_nil, hcons]
    obtain ⟨hq, hqs'⟩ := List.forall_mem_cons.mp (hcons ▸ hpieces)
    rw [bareLines_joined hps hr hq hqs', List.append_assoc, List.append_right_inj]
    exact cons_pieces_iff hcons

end Writing

section Doors

variable {disk : Disk} {door : Door} {text : List Char}

theorem allLines_text {file : String} (hfile : Assoc.get? file disk = some (.text text)) (hbreaks : '\r' ∉ text) :
    allLines disk file = .ok (keepLines '\n' text) := by
  rw [allLines, hfile]
  dsimp only
  rw [universalNewlines_of_notMem hbreaks]

theorem door_read (hfile : Assoc.get? door.file disk = some (.text text)) (hbreaks : '\r' ∉ text)
    (hplain : door.Plain disk) (start endLine : Int) :
    (door.read disk start endLine).content? = some (readLines (keepLines '\n' text) start endLine).flatten := by
  cases door with
  | executor x path =>
    obtain ⟨hbinary, hmedia⟩ := hplain
    unfold Door.read Executor.read
    have hlines := allLines_text hfile hbreaks
    unfold Door.file at hlines
    simp only [hbinary, hmedia, hlines]
    rfl
  | workspace path wholePath =>
    have hlines := allLines_text hfile hbreaks
    unfold Door.file at hlines
    unfold Door.read readFile
    simp only [hlines]
    rfl

theorem door_write (hfile : Assoc.get? door.file disk = some (.text text)) (hbreaks : '\r' ∉ text) (content : List Char)
    (start endLine : Int) : Assoc.get? door.file (door.write disk content start endLine).2 =
      some (.text (insertLines (split ['\n'] content) (keepLines '\n' text) start endLine).flatten) := by
  have hwrite : writeLines disk door.file content start endLine = .ok (Assoc.set door.file
      (.text (insertLines (split ['\n'] content) (keepLines '\n' text) start endLine).flatten) disk) := by
    rw [writeLines, allLines_text hfile hbreaks]
  cases door with
  | executor x path =>
    unfold Door.file at hwrite ⊢
    unfold Door.write Executor.write
    simp only [hwrite]
    cases x.chownError (resolvePath path x.workingDir) with
    | none => exact Assoc.get?_set_self ..
    | some err => exact Assoc.get?_set_self ..
  | workspace path wholePath =>
    unfold Door.file at hwrite ⊢
    unfold Door.write writeFile
    simp only [hwrite]
    exact Assoc.get?_set_self ..

theorem inverseOnLines_iff {request : Request} (hfile : Assoc.get? door.file disk = some (.text text))
    (hbreaks : '\r' ∉ text) (hplain : door.Plain disk) (hrange : request.InRange text) :
    InverseOnLines disk door text request ↔ request.Served text := by
  have hread := door_read hfile hbreaks hplain
  have hwrite := door_write hfile hbreaks
  cases request with
  | writeBack =>
    refine iff_of_false ?_ not_false
    rintro ⟨content, hcontent, hback⟩
    rw [hread, readLines_whole, flatten_keepLines] at hcontent
    obtain rfl := Option.some.inj hcontent
    -- what comes back has one line end more
    rw [hwrite, insertLines_whole, ended_split] at hback
    have hlonger : text ++ ['\n'] = text := Entry.text.inj (Option.some.inj hback)
    exact List.cons_ne_nil _ _ (List.append_right_eq_self.mp hlonger)
  | readRange start endLine =>
    unfold InverseOnLines Request.Served
    dsimp only
    rw [hread, Option.some_inj]
    exact readLines_range_iff (keepLines_ne_nil text) hrange.1 hrange.2
  | writeRange start endLine content =>
    rw [← insertLines_range_iff hrange.1 hrange.2]
    constructor
    · rintro ⟨new, hnew, hlines⟩
      rw [hwrite] at hnew
      rw [Entry.text.inj (Option.some.inj hnew)]
      exact hlines
    · intro hlines
      exact ⟨_, hwrite .., hlines⟩

end Doors

def twoLines : List Char := "a\nb\n".toList

def twoLinesDoor : Door := .workspace "notes" "/workspace/notes"

def twoLinesDisk : Disk := [("/workspace/notes", .text twoLines)]

theorem inverseOnLines_iff_second : InverseOnLines twoLinesDisk twoLinesDoor twoLines (.writeRange 1 2 ['c']) ↔
    Request.Served twoLines (.writeRange 1 2 ['c']) :=
  inverseOnLines_iff rfl (by decide) trivial (show 1 ≤ 2 ∧ 2 ≤ (keepLines '\n' twoLines).length by decide)

/-- The text written back is longer, the second line is read with the first, and a line that is ended comes with an
empty one. -/
theorem lines_not_inverse : ¬ InverseOnLines twoLinesDisk twoLinesDoor twoLines .writeBack ∧
    ¬ InverseOnLines twoLinesDisk twoLinesDoor twoLines (.readRange 1 2) ∧
    ¬ InverseOnLines twoLinesDisk twoLinesDoor twoLines (.writeRange 1 1 ['c', '\n']) := by
  refine ⟨?_, ?_, ?_⟩
  · rintro ⟨content, hcontent, hback⟩
    obtain rfl : twoLines = content := Option.some.inj hcontent
    revert hback
    decide
  · intro h
    have hboth : (twoLinesDoor.read twoLinesDisk 1 2).content? = some twoLines := by decide
    have hone : (twoLinesDoor.read twoLinesDisk 1 2).content? = some "b\n".toList := h
    have hsame : twoLines = "b\n".toList := Option.some.inj (hboth.symm.trans hone)
    revert hsame
    decide
  · rintro ⟨new, hnew, hlines⟩
    obtain rfl : "a\nc\n\nb\n".toList = new := Entry.text.inj (Option.some.inj hnew)
    revert hlines
    decide

end Files

end OpenHands
