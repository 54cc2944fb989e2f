import OpenHandsSWE.Agenthub.FunctionCalling
import OpenHandsSWE.Lib.Program
import OpenHandsSWE.Runtime.Files

/-! Edits of a file by an LLM: it rewrites a range of lines, a linter checks what it wrote, and it is asked to correct
what the linter refuses. -/

namespace OpenHands

open Text Program

namespace Files

namespace LlmEdit

/-! ## Actions, observations and surroundings -/

structure FileEditAction where
  path : String
  content : List Char := []
  start : Int := 1
  endLine : Int := -1

structure FileEditObservation where
  content : String
  path : String
  prevExist : Bool
  oldContent : List Char
  newContent : List Char

inductive EditObservation where
  | error (content : String)
  | edit (obs : FileEditObservation)

/-- What the draft LLM is asked. -/
inductive Prompt where
  | draft (oldContents draftChanges : List Char)
  | correct (fileContent : List Char) (lintError : String)

/-- A part of a file that is like the draft, with its first and last line and as it is shown. -/
structure Chunk where
  first : Nat
  last : Nat
  normalizedLcs : String
  visualized : String

/-- The runtime's surroundings: the executor, the settings, the packages for differences and lint errors, and the
replies of the draft LLM to its requests, which are numbered. -/
structure Editor where
  executor : Executor
  out : Outside
  enableAutoLint : Bool
  correctNum : Int
  getDiff : List Char → List Char → String → String
  lintFileDiff : List Char → List Char → List Char → List String
  visualizeDiff : FileEditObservation → String
  topKChunks : List Char → List Char → List Chunk
  complete : Nat → Prompt → Except PyError FunctionCalling.Response

structure Session where
  disk : Disk
  completions : Nat := 0

abbrev Edit (α : Type) := Program PyError Session α

def MAX_LINES_TO_EDIT : Int := 300

section Editing

variable (e : Editor)

def read (action : FileReadAction) : Edit Observation := do
  return e.executor.read (← get).disk action

def write (action : FileWriteAction) : Edit Observation := do
  let s ← get
  let (obs, disk) := e.executor.write s.disk action
  set { s with disk := disk }
  return obs

def completion (prompt : Prompt) : Edit FunctionCalling.Response := do
  let s ← get
  set { s with completions := s.completions + 1 }
  match e.complete s.completions prompt with
  | .ok response => return response
  | .error err => throw err

/-! ## The draft -/

/-- The first text between the tags, without a first line that begins with `#EDIT:`. -/
def extractCode (string : List Char) : Option (List Char) := do
  let before ← upTo "<updated_code>".toList string
  let content ← upTo "</updated_code>".toList (string.drop (before.length + "<updated_code>".length))
  if "#EDIT:".toList <+: content then
    match upTo ['\n'] content with
    | some line => return content.drop (line.length + 1)
    | none => return content
  else return content

/-- `resp['choices'][0]['message']['content']`, as a text. -/
def replyText (response : FunctionCalling.Response) : Except PyError (List Char) :=
  match response.choices with
  | [] => .error .indexError
  | message :: _ =>
    match message.content with
    | .str s => .ok s.toList
    | v => .error (.typeError ("expected string or bytes-like object, got '" ++ v.typeName ++ "'"))

def getNewFileContents (oldContents draftChanges : List Char) : Nat → Edit (Option (List Char))
  | 0 => return none
  | numRetries + 1 => do
    let resp ← completion e (.draft oldContents draftChanges)
    match replyText resp with
    | .error err => throw err
    | .ok text =>
      match extractCode text with
      | some newContents => return some newContents
      | none => getNewFileContents oldContents draftChanges numRetries

/-- The message of an error about the range. -/
def validateRange (start endLine : Int) (totalLines : Nat) : Option String :=
  let invalid := "Invalid range for editing: start=" ++ toString start ++ ", end=" ++ toString endLine ++
    ", total lines=" ++ toString totalLines ++ ". "
  if (start < 1 ∧ start ≠ -1) ∨ start > totalLines ∨ (start > endLine ∧ endLine ≠ -1 ∧ start ≠ -1) then
    some (invalid ++ "start must be >= 1 and <=" ++ toString totalLines ++
      " (total lines of the edited file), start <= end, or start == -1 (append to the end of the file).")
  else if (endLine < 1 ∧ endLine ≠ -1) ∨ endLine > totalLines ∨ (endLine < start ∧ start ≠ -1 ∧ endLine ≠ -1) then
    some (invalid ++ "end must be >= 1 and <= " ++ toString totalLines ++
      " (total lines of the edited file), end >= start, or end == -1 (to edit till the end of the file).")
  else none

def dashes (n : Nat) : String := String.ofList (List.replicate n '-')

/-- The error about a range that is too long, with the parts of the file that are like the draft. -/
def tooLong (action : FileEditAction) (original : List Char) (startIdx endIdx : Int) : String :=
  let snippet (chunk : Chunk × Nat) : String :=
    "[begin relevant snippet " ++ toString (chunk.2 + 1) ++ ". Line range: L" ++ toString chunk.1.first ++ "-L" ++
      toString chunk.1.last ++ ". Similarity: " ++ chunk.1.normalizedLcs ++ "]\n" ++
    "[Browse around it via `open_file(\"" ++ action.path ++ "\", " ++
      toString ((chunk.1.first + chunk.1.last) / 2) ++ ")`]\n" ++
    chunk.1.visualized ++ "\n" ++ "[end relevant snippet " ++ toString (chunk.2 + 1) ++ "]\n" ++ dashes 40 ++ "\n"
  "[Edit error: The range of lines to edit is too long.]\n" ++
  "[The maximum number of lines allowed to edit at once is " ++ toString MAX_LINES_TO_EDIT ++ ". Got (L" ++
    toString (startIdx + 1) ++ "-L" ++ toString endIdx ++ ") " ++ toString (endIdx - startIdx) ++ " lines.]\n" ++
  "Here are some snippets that maybe relevant to the provided edit.\n" ++
  String.join ((e.topKChunks original action.content).zipIdx.map snippet) ++
  "Consider using `open_file` to explore around the relevant snippets if needed.\n" ++
  "**IMPORTANT**: Please REDUCE the range of edits to less than " ++ toString MAX_LINES_TO_EDIT ++
  " lines by setting `start` and `end` in the edit action (e.g. `<file_edit path=\"" ++ action.path ++
  "\" start=[PUT LINE NUMBER HERE] end=[PUT LINE NUMBER HERE] />`). "

/-- The text that the edit makes of the file's, or the error that it ends with. -/
def updatedContent (action : FileEditAction) (original : List Char) : Edit (Except String (List Char)) := do
  let oldFileLines := split ['\n'] original
  match validateRange action.start action.endLine oldFileLines.length with
  | some err => return .error err
  | none =>
    if action.start = -1 then
      return .ok (List.intercalate ['\n'] (oldFileLines ++ split ['\n'] action.content))
    else
      let startIdx := action.start - 1
      let endIdx := if action.endLine ≠ -1 then action.endLine else oldFileLines.length
      if endIdx - startIdx > MAX_LINES_TO_EDIT + 1 then
        return .error (tooLong e action original startIdx endIdx)
      else
        let contentToEdit := List.intercalate ['\n'] (Py.slice oldFileLines startIdx endIdx)
        match ← getNewFileContents e contentToEdit action.content 3 with
        | none => return .error "Failed to get new file contents. Please try to reduce the number of edits and try again."
        | some edited => return .ok (List.intercalate ['\n']
            (Py.takeTo oldFileLines startIdx ++ split ['\n'] edited ++ Py.dropTo oldFileLines endIdx))

/-! ## The linter -/

/-- `os.path.splitext(path)[1]`. -/
def suffix (path : String) : List Char :=
  let name := ((split ['/'] path.toList).getLast?.getD []).dropWhile (· = '.')
  match (split ['.'] name).reverse with
  | last :: _ :: _ => '.' :: last
  | _ => []

/-- The message about the lint errors that the new content has. -/
def getLintError (path : String) (oldContent newContent : List Char) (diff : String) : Option String :=
  match e.lintFileDiff (suffix path) oldContent newContent with
  | [] => none
  | errors =>
    let attempted : FileEditObservation := ⟨diff, path, true, oldContent, newContent⟩
    let lintError (error : String × Nat) : String :=
      "[begin lint error " ++ toString error.2 ++ "]\n" ++ error.1 ++ "\n" ++
        "[end lint error " ++ toString error.2 ++ "]\n" ++ dashes 40 ++ "\n"
    some ("\n[Linting failed for edited file " ++ path ++ ". " ++ toString errors.length ++ " lint errors found.]\n" ++
      "[begin attempted changes]\n" ++ e.visualizeDiff attempted ++ "\n" ++ "[end attempted changes]\n" ++
      dashes 40 ++ "\n" ++ dashes 20 ++ "First 5 lint errors" ++ dashes 20 ++ "\n" ++
      String.join ((errors.take 5).zipIdx.map lintError))

/-- The message of an auto-lint, if the setting is on. -/
def lintVerdict (path : String) (oldContent newContent : List Char) : Option String :=
  if e.enableAutoLint = true then getLintError e path oldContent newContent (e.getDiff oldContent newContent path)
  else none

/-! ## The edit -/

def fileNotFound (content : String) : Bool :=
  decide ("file not found".toList <:+: content.toList.map Char.toLower)

/-- What comes before anything is written: the text of the file with the text to be written or an error, nothing for a
file to be created. -/
def draftOf (action : FileEditAction) : Edit (Option (Except String (List Char × List Char))) := do
  match ← read e { path := action.path } with
  | .fileRead _ original => return some ((← updatedContent e action original).map fun updated => (original, updated))
  | .error content =>
    if fileNotFound content = true then return none
    else throw (.valueError ("Expected FileReadObservation, got <class " ++
      "'openhands.events.observation.error.ErrorObservation'>: **ErrorObservation**\n" ++ content))
  | .fileWrite _ => throw (.valueError "Expected FileReadObservation, got FileWriteObservation")

def createFile (action : FileEditAction) : Edit EditObservation := do
  match ← write e { path := action.path, content := Text.strip action.content } with
  | .error content => return .error content
  | .fileWrite _ => return .edit ⟨e.getDiff [] action.content action.path, action.path, false, [], action.content⟩
  | .fileRead _ _ => throw (.valueError "Expected FileWriteObservation, got FileReadObservation")

/-- The update is written in any case; `correct` goes on with one that the linter refuses. -/
def applyUpdate (correct : List Char → String → Edit EditObservation) (path : String)
    (original updated : List Char) : Edit EditObservation := do
  let verdict := lintVerdict e path original updated
  let _ ← write e { path := path, content := updated }
  match verdict with
  | some errorObs => correct updated errorObs
  | none => return .edit ⟨e.getDiff original updated path, path, true, original, updated⟩

def editWith (correct : List Char → String → Edit EditObservation) (action : FileEditAction) : Edit EditObservation := do
  match ← draftOf e action with
  | none => createFile e action
  | some (.error content) => return .error content
  | some (.ok (original, updated)) => applyUpdate e correct action.path original updated

def checkRetryNum (retryNum : Int) : Bool := decide (e.correctNum < retryNum)

/-- The arguments of an action of the file editors that an edit by LLM reads. -/
def ofAction (action : FunctionCalling.Action) : Except PyError FileEditAction :=
  match Assoc.get? "path" action.arguments, (Assoc.get? "content" action.arguments).getD (.str ""),
      (Assoc.get? "start" action.arguments).getD (.int 1), (Assoc.get? "end" action.arguments).getD (.int (-1)) with
  | some (.str path), .str content, .int start, .int endLine => .ok ⟨path, content.toList, start, endLine⟩
  | _, _, _, _ => .error (.typeError "the arguments of the edit have other types")

/-- The edit that the LLM asks for as its only action. -/
def askCorrection (fileContent : List Char) (errorObs : String) : Edit (Option FileEditAction) := do
  let response ← completion e (.correct fileContent errorObs)
  match FunctionCalling.responseToActions e.out [] response with
  | .error err => throw err
  | .ok [action] =>
    if action.cls = .fileEdit then
      match ofAction action with
      | .ok edit => return some edit
      | .error err => throw err
    else return none
  | .ok _ => return none

def correctEdit (again : FileEditAction → Int → Edit EditObservation) (retryNum : Int) (fileContent : List Char)
    (errorObs : String) : Edit EditObservation :=
  if checkRetryNum e (retryNum + 1) = true then return .error errorObs
  else
    tryCatch (do
      match ← askCorrection e fileContent errorObs with
      | some action => again action (retryNum + 1)
      | none => return .error errorObs)
      fun _ => return .error errorObs

/-- With some number of corrections left. -/
def editFrom : Nat → FileEditAction → Int → Edit EditObservation
  | 0, action, retryNum => editWith e (correctEdit e (fun _ _ => throw .overflowError) retryNum) action
  | left + 1, action, retryNum => editWith e (correctEdit e (editFrom left) retryNum) action

def llmBasedEdit (action : FileEditAction) (retryNum : Int) : Edit EditObservation :=
  editFrom e (e.correctNum - retryNum).toNat action retryNum

end Editing

/-! ## What an edit says and what it does -/

def Editor.file (e : Editor) (path : String) : String := resolvePath path e.executor.workingDir

/-- The number of lines of the original that the action replaces. -/
def linesReplaced (action : FileEditAction) (totalLines : Nat) : Int :=
  if action.start = -1 then 0
  else (if action.endLine = -1 then (totalLines : Int) else action.endLine) - (action.start - 1)

/-- The lines outside the range are unchanged; an append keeps all the lines. -/
def LinesKept (action : FileEditAction) (old new : List (List Char)) : Prop :=
  if action.start = -1 then old <+: new
  else ∃ edited, new = old.take (action.start - 1).toNat ++ edited ++
    if action.endLine = -1 then [] else old.drop action.endLine.toNat

/-- The observation is about the action's file, the file has the new content, and only the range has changed. -/
structure Reported (e : Editor) (action : FileEditAction) (before after : Disk) (obs : FileEditObservation) : Prop where
  path : obs.path = action.path
  held : Assoc.get? (e.file action.path) after = some (.text obs.newContent)
  few : ∀ raw, Assoc.get? (e.file action.path) before = some (.text raw) →
    linesReplaced action (split ['\n'] (universalNewlines raw)).length ≤ MAX_LINES_TO_EDIT
  kept : ∀ raw, Assoc.get? (e.file action.path) before = some (.text raw) →
    LinesKept action (split ['\n'] (universalNewlines raw)) (split ['\n'] obs.newContent)

/-- An error leaves the file, an edit reports what it did; a call that raises returns neither. -/
def TouchesReported (e : Editor) (action : FileEditAction) (before after : Disk) : Except PyError EditObservation → Prop
  | .ok (.error _) => Assoc.get? (e.file action.path) after = Assoc.get? (e.file action.path) before
  | .ok (.edit obs) => Reported e action before after obs
  | .error _ => True

/-! ## When it does -/

/-- What the draft of an edit comes to: `untouched` where it ends before anything is written, `created` where there is
no file, and `refused` of the update and what is left of the session where the linter refuses it. -/
def Settles (e : Editor) (action : FileEditAction) (s : Session) (untouched created : Prop)
    (refused : List Char → String → Session → Prop) : Prop :=
  match result (draftOf e action) s with
  | .error _ => untouched
  | .ok none => created
  | .ok (some (.error _)) => untouched
  | .ok (some (.ok (original, updated))) => ∃ errorObs, lintVerdict e action.path original updated = some errorObs ∧
      refused updated errorObs
        (after (write e { path := action.path, content := updated }) (after (draftOf e action) s))

/-- All that the corrections write is refused as well, and the file comes out as the old one. -/
def Undone (e : Editor) (file : String) (old : Option Entry) : Nat → List Char → String → Session → Prop
  | 0, _, _, s => Assoc.get? file s.disk = old
  | left + 1, fileContent, errorObs, s =>
    match result (askCorrection e fileContent errorObs) s with
    | .ok (some action) => Settles e action (after (askCorrection e fileContent errorObs) s)
        (Assoc.get? file s.disk = old)
        (Assoc.get? (e.file action.path) s.disk ≠ none ∧ Assoc.get? file s.disk = old)
        (Undone e file old left)
    | _ => Assoc.get? file s.disk = old

/-- Nothing is written to a file that exists, or it is undone; a new file is written as it is reported. -/
def Harmless (e : Editor) (action : FileEditAction) (retryNum : Int) (s : Session) : Prop :=
  Settles e action s True
    (Assoc.get? (e.file action.path) s.disk = none → Text.strip action.content ++ ['\n'] = action.content)
    (Undone e (e.file action.path) (Assoc.get? (e.file action.path) s.disk) (e.correctNum - retryNum).toNat)

/-! ## The steps -/

section Steps

variable {e : Editor} {action : FileEditAction} {s : Session} {file : String}

/-- What cannot be opened as a text. -/
def Blocked (disk : Disk) (file : String) : Prop :=
  Assoc.get? file disk = some .undecodable ∨ Assoc.get? file disk = some .directory

/-- A write of a whole file adds a line end to the content. -/
theorem write_whole {x : Executor} (hperm : ∀ file, x.chownError file = none) (disk : Disk) (path : String)
    (content : List Char) :
    (¬ Blocked disk (resolvePath path x.workingDir) ∧
      x.write disk { path := path, content := content } = (.fileWrite (resolvePath path x.workingDir),
        Assoc.set (resolvePath path x.workingDir) (.text (content ++ ['\n'])) disk)) ∨
    Blocked disk (resolvePath path x.workingDir) ∧
      ∃ err, x.write disk { path := path, content := content } = (.error err, disk) := by
  unfold Executor.write Blocked
  dsimp only
  unfold writeLines allLines
  cases Assoc.get? (resolvePath path x.workingDir) disk with
  | none =>
    refine .inl ⟨by simp, ?_⟩
    simp only [hperm, flatten_map_end, ended_split]
  | some entry =>
    cases entry with
    | text raw =>
      refine .inl ⟨by simp, ?_⟩
      simp only [hperm, insertLines_whole, ended_split]
    | undecodable => exact .inr ⟨.inl rfl, _, rfl⟩
    | directory => exact .inr ⟨.inr rfl, _, rfl⟩

theorem result_read (action : FileReadAction) (s : Session) :
    result (read e action) s = .ok (e.executor.read s.disk action) := rfl

theorem after_read (action : FileReadAction) (s : Session) : after (read e action) s = s := rfl

theorem result_write (action : FileWriteAction) (s : Session) :
    result (write e action) s = .ok (e.executor.write s.disk action).1 := rfl

theorem disk_write (action : FileWriteAction) (s : Session) :
    (after (write e action) s).disk = (e.executor.write s.disk action).2 := rfl

variable (hperm : ∀ file, e.executor.chownError file = none)
include hperm

/-- A file that is there stays there. -/
theorem write_present (path : String) (content : List Char) (h : Assoc.get? file s.disk ≠ none) :
    Assoc.get? file (after (write e { path := path, content := content }) s).disk ≠ none := by
  rw [disk_write]
  obtain ⟨-, hwrite⟩ | ⟨-, err, hwrite⟩ := write_whole hperm s.disk path content
  · rw [hwrite]
    by_cases hsame : file = resolvePath path e.executor.workingDir
    · rw [hsame, Assoc.get?_set_self]
      exact Option.some_ne_none _
    · rwa [Assoc.get?_set_of_ne hsame]
  · rwa [hwrite]

/-- After a write the file is not the text that was to be written. -/
theorem write_not_held (path : String) (content : List Char) :
    Assoc.get? (e.file path) (after (write e { path := path, content := content }) s).disk ≠ some (.text content) := by
  rw [disk_write]
  unfold Editor.file
  obtain ⟨-, hwrite⟩ | ⟨hblocked, err, hwrite⟩ := write_whole hperm s.disk path content
  · rw [hwrite, Assoc.get?_set_self]
    intro h
    have hlonger : content ++ ['\n'] = content := Entry.text.inj (Option.some.inj h)
    exact List.cons_ne_nil _ _ (List.append_right_eq_self.mp hlonger)
  · rw [hwrite]
    intro htext
    rcases hblocked with h | h
    · cases h.symm.trans htext
    · cases h.symm.trans htext

omit hperm

theorem completion_keeps (prompt : Prompt) (s : Session) : Keeps Session.disk (completion e prompt) s := by
  unfold completion
  refine Keeps.bind rfl fun s' hs' => ?_
  obtain rfl : s = s' := Except.ok.inj hs'
  refine Keeps.bind rfl fun _ _ => ?_
  cases e.complete s.completions prompt with
  | ok response => rfl
  | error err => rfl

theorem getNewFileContents_keeps (oldContents draftChanges : List Char) (numRetries : Nat) (s : Session) :
    Keeps Session.disk (getNewFileContents e oldContents draftChanges numRetries) s := by
  induction numRetries generalizing s with
  | zero => rfl
  | succ numRetries ih =>
    refine Keeps.bind (completion_keeps _ s) fun resp hresp => ?_
    cases replyText resp with
    | error err => rfl
    | ok text =>
      dsimp only
      cases extractCode text with
      | none => exact ih _
      | some newContents => rfl

theorem updatedContent_keeps (original : List Char) : Keeps Session.disk (updatedContent e action original) s := by
  unfold updatedContent
  dsimp only
  generalize (if action.endLine ≠ -1 then action.endLine else ((split ['\n'] original).length : Int)) = endIdx
  split
  · rfl
  · split
    · rfl
    · split
      · rfl
      · refine Keeps.bind (getNewFileContents_keeps _ _ _ s) fun edited hedited => ?_
        cases edited <;> rfl

theorem validateRange_none {start endLine : Int} {totalLines : Nat} (h : validateRange start endLine totalLines = none) :
    start = -1 ∨ 1 ≤ start ∧ start ≤ totalLines ∧ (endLine = -1 ∨ start ≤ endLine ∧ endLine ≤ totalLines) := by
  unfold validateRange at h
  dsimp only at h
  split at h
  · cases h
  · split at h
    · cases h
    · omega

/-- The text to be written keeps the lines outside the range, which has one line more than the bound at most. -/
theorem updatedContent_keepsLines {original updated : List Char}
    (h : result (updatedContent e action original) s = .ok (.ok updated)) :
    LinesKept action (split ['\n'] original) (split ['\n'] updated) ∧
      linesReplaced action (split ['\n'] original).length ≤ MAX_LINES_TO_EDIT + 1 := by
  have hold := split_notMem '\n' original
  unfold updatedContent at h
  cases hvalid : validateRange action.start action.endLine (split ['\n'] original).length with
  | some err =>
    simp only [hvalid] at h
    cases h
  | none =>
    simp only [hvalid] at h
    unfold LinesKept linesReplaced
    by_cases hstart : action.start = -1
    · simp only [if_pos hstart] at h ⊢
      obtain rfl : List.intercalate ['\n'] (split ['\n'] original ++ split ['\n'] action.content) = updated :=
        Except.ok.inj (Except.ok.inj h)
      have hpieces : ∀ p ∈ split ['\n'] original ++ split ['\n'] action.content, '\n' ∉ p :=
        List.forall_mem_append.mpr ⟨hold, split_notMem '\n' _⟩
      rw [split_intercalate (List.append_ne_nil_of_left_ne_nil (split_ne_nil _ _) _) hpieces]
      exact ⟨List.prefix_append _ _, by decide⟩
    · obtain ⟨hfirst, hlast, hend⟩ := (validateRange_none hvalid).resolve_left hstart
      simp only [if_neg hstart] at h ⊢
      generalize hidx : (if action.endLine ≠ -1 then action.endLine else ((split ['\n'] original).length : Int)) = endIdx at h
      have hnonneg : 0 ≤ endIdx := by
        split at hidx <;> omega
      have hdrop : Py.dropTo (split ['\n'] original) endIdx =
          if action.endLine = -1 then [] else (split ['\n'] original).drop action.endLine.toNat := by
        rw [Py.dropTo, if_pos hnonneg]
        split at hidx
        next hne => rw [if_neg hne, hidx]
        next heq =>
          rw [if_pos (not_not.mp heq), ← hidx]
          exact List.drop_length
      have hlines : (if action.endLine = -1 then ((split ['\n'] original).length : Int) else action.endLine) = endIdx := by
        rw [← hidx, ite_not]
      have htake : Py.takeTo (split ['\n'] original) (action.start - 1) =
          (split ['\n'] original).take (action.start - 1).toNat := if_pos (by omega)
      rw [hlines]
      split at h
      · cases h
      next hlong =>
        refine ⟨?_, not_lt.mp hlong⟩
        rw [result_bind] at h
        cases hnew : result (getNewFileContents e (List.intercalate ['\n'] (Py.slice (split ['\n'] original)
            (action.start - 1) endIdx)) action.content 3) s with
        | error err =>
          rw [hnew] at h
          cases h
        | ok edited =>
          rw [hnew] at h
          cases edited with
          | none => cases h
          | some edited =>
            obtain rfl := Except.ok.inj (Except.ok.inj h)
            refine ⟨split ['\n'] edited, ?_⟩
            rw [split_intercalate, htake, hdrop]
            · exact List.append_ne_nil_of_left_ne_nil (List.append_ne_nil_of_right_ne_nil _ (split_ne_nil _ _)) _
            · intro p hp
              simp only [htake, Py.dropTo, if_pos hnonneg, List.mem_append] at hp
              rcases hp with (hp | hp) | hp
              · exact hold p (List.mem_of_mem_take hp)
              · exact split_notMem '\n' edited p hp
              · exact hold p (List.mem_of_mem_drop hp)

theorem result_draftOf : result (draftOf e action) s =
    match e.executor.read s.disk { path := action.path } with
    | .fileRead _ original => (result (updatedContent e action original) s).map fun draft =>
        some (draft.map fun updated => (original, updated))
    | .error content =>
      if fileNotFound content = true then .ok none
      else .error (.valueError ("Expected FileReadObservation, got <class " ++
        "'openhands.events.observation.error.ErrorObservation'>: **ErrorObservation**\n" ++ content))
    | .fileWrite _ => .error (.valueError "Expected FileReadObservation, got FileWriteObservation") := by
  unfold draftOf
  rw [result_bind, result_read, after_read]
  dsimp only
  cases e.executor.read s.disk { path := action.path } with
  | fileRead path original =>
    dsimp only
    rw [result_bind]
    cases result (updatedContent e action original) s <;> rfl
  | error content =>
    dsimp only
    split <;> rfl
  | fileWrite path => rfl

theorem draftOf_keeps : Keeps Session.disk (draftOf e action) s := by
  unfold draftOf
  refine Keeps.bind rfl fun obs hobs => ?_
  rw [after_read]
  cases obs with
  | fileRead path original => exact Keeps.bind (updatedContent_keeps original) fun draft hdraft => rfl
  | error content =>
    dsimp only
    split <;> rfl
  | fileWrite path => rfl

theorem read_text {disk : Disk} {raw : List Char} {path err : String}
    (hfile : Assoc.get? (e.file path) disk = some (.text raw))
    (hread : e.executor.read disk { path := path } = .error err) : fileNotFound err = false := by
  unfold Editor.file at hfile
  unfold Executor.read encoded allLines at hread
  simp only [hfile] at hread
  by_cases hbinary : e.executor.isBinary disk path = true
  · rw [if_pos hbinary] at hread
    obtain rfl := Observation.error.inj hread
    decide
  · rw [if_neg hbinary, if_neg (by decide)] at hread
    by_cases hmedia : isMedia (resolvePath path e.executor.workingDir) = true
    · rw [if_pos hmedia] at hread
      cases hread
    · rw [if_neg hmedia] at hread
      cases hread

theorem read_missing {disk : Disk} {path path' : String} {content : List Char}
    (hread : e.executor.read disk { path := path } = .fileRead path' content) : Assoc.get? (e.file path) disk ≠ none := by
  intro hfile
  unfold Editor.file at hfile
  unfold Executor.read encoded allLines at hread
  simp only [hfile] at hread
  by_cases hbinary : e.executor.isBinary disk path = true
  · rw [if_pos hbinary] at hread
    cases hread
  · rw [if_neg hbinary, if_neg (by decide)] at hread
    by_cases hmedia : isMedia (resolvePath path e.executor.workingDir) = true
    · rw [if_pos hmedia] at hread
      cases hread
    · rw [if_neg hmedia] at hread
      cases hread

/-- Only a file that cannot be read as a text may be created. -/
theorem draftOf_none (h : result (draftOf e action) s = .ok none) (raw : List Char) :
    Assoc.get? (e.file action.path) s.disk ≠ some (.text raw) := by
  intro hfile
  rw [result_draftOf] at h
  split at h
  · obtain ⟨draft, -, hdraft⟩ := Py.map_ok h
    cases hdraft
  next err hread =>
    rw [read_text hfile hread] at h
    cases h
  · cases h

theorem draftOf_some {draft : Except String (List Char × List Char)} (h : result (draftOf e action) s = .ok (some draft)) :
    Assoc.get? (e.file action.path) s.disk ≠ none := by
  rw [result_draftOf] at h
  split at h
  next hread => exact read_missing hread
  · split at h <;> cases h
  · cases h

theorem askCorrection_keeps (fileContent : List Char) (errorObs : String) :
    Keeps Session.disk (askCorrection e fileContent errorObs) s := by
  refine Keeps.bind (completion_keeps _ s) fun response hresponse => ?_
  split
  · rfl
  · split
    · split
      · rfl
      · rfl
    · rfl
  · rfl

include hperm in
theorem createFile_run (action : FileEditAction) (s : Session) :
    (¬ Blocked s.disk (e.file action.path) ∧
      result (createFile e action) s =
        .ok (.edit ⟨e.getDiff [] action.content action.path, action.path, false, [], action.content⟩) ∧
      (after (createFile e action) s).disk =
        Assoc.set (e.file action.path) (.text (Text.strip action.content ++ ['\n'])) s.disk) ∨
    Blocked s.disk (e.file action.path) ∧
      ∃ err, result (createFile e action) s = .ok (.error err) ∧ (after (createFile e action) s).disk = s.disk := by
  unfold createFile Editor.file
  rw [result_bind, after_bind, result_write]
  dsimp only
  obtain ⟨hfree, hwrite⟩ | ⟨hblocked, err, hwrite⟩ :=
    write_whole hperm s.disk action.path (Text.strip action.content)
  · refine .inl ⟨hfree, ?_, ?_⟩
    · rw [hwrite]
      rfl
    · rw [hwrite]
      exact (disk_write _ s).trans (congrArg Prod.snd hwrite)
  · refine .inr ⟨hblocked, err, ?_, ?_⟩
    · rw [hwrite]
      rfl
    · rw [hwrite]
      exact (disk_write _ s).trans (congrArg Prod.snd hwrite)

section Correcting

variable {correct : List Char → String → Edit EditObservation} {again : FileEditAction → Int → Edit EditObservation}
  {path errorObs : String} {original updated fileContent : List Char} {retryNum : Int}

theorem applyUpdate_refused (h : lintVerdict e path original updated = some errorObs) :
    result (applyUpdate e correct path original updated) s =
        result (correct updated errorObs) (after (write e { path := path, content := updated }) s) ∧
      after (applyUpdate e correct path original updated) s =
        after (correct updated errorObs) (after (write e { path := path, content := updated }) s) := by
  unfold applyUpdate
  rw [result_bind, after_bind, result_write, h]
  exact ⟨rfl, rfl⟩

theorem applyUpdate_passed (h : lintVerdict e path original updated = none) :
    result (applyUpdate e correct path original updated) s =
        .ok (.edit ⟨e.getDiff original updated path, path, true, original, updated⟩) ∧
      after (applyUpdate e correct path original updated) s =
        after (write e { path := path, content := updated }) s := by
  unfold applyUpdate
  rw [result_bind, after_bind, result_write, h]
  exact ⟨rfl, rfl⟩

variable (again errorObs fileContent) in
theorem correctEdit_stop (h : checkRetryNum e (retryNum + 1) = true) (s : Session) :
    result (correctEdit e again retryNum fileContent errorObs) s = .ok (.error errorObs) ∧
      after (correctEdit e again retryNum fileContent errorObs) s = s := by
  unfold correctEdit
  rw [if_pos h]
  exact ⟨rfl, rfl⟩

variable (again) in
theorem correctEdit_none (hcheck : checkRetryNum e (retryNum + 1) ≠ true)
    (h : ∀ action, result (askCorrection e fileContent errorObs) s ≠ .ok (some action)) :
    result (correctEdit e again retryNum fileContent errorObs) s = .ok (.error errorObs) ∧
      after (correctEdit e again retryNum fileContent errorObs) s = after (askCorrection e fileContent errorObs) s := by
  unfold correctEdit
  rw [if_neg hcheck, result_tryCatch, after_tryCatch, result_bind, after_bind]
  cases hask : result (askCorrection e fileContent errorObs) s with
  | error err => exact ⟨rfl, rfl⟩
  | ok action =>
    cases action with
    | none => exact ⟨rfl, rfl⟩
    | some action => exact absurd hask (h action)

theorem correctEdit_again {obs : EditObservation} (hcheck : checkRetryNum e (retryNum + 1) ≠ true)
    (hask : result (askCorrection e fileContent errorObs) s = .ok (some action))
    (hagain : result (again action (retryNum + 1)) (after (askCorrection e fileContent errorObs) s) = .ok obs) :
    result (correctEdit e again retryNum fileContent errorObs) s = .ok obs ∧
      after (correctEdit e again retryNum fileContent errorObs) s =
        after (again action (retryNum + 1)) (after (askCorrection e fileContent errorObs) s) := by
  unfold correctEdit
  rw [if_neg hcheck, result_tryCatch, after_tryCatch, result_bind, after_bind, hask]
  dsimp only
  rw [hagain]
  exact ⟨rfl, rfl⟩

theorem correctEdit_caught {err : PyError} (hcheck : checkRetryNum e (retryNum + 1) ≠ true)
    (hask : result (askCorrection e fileContent errorObs) s = .ok (some action))
    (hagain : result (again action (retryNum + 1)) (after (askCorrection e fileContent errorObs) s) = .error err) :
    result (correctEdit e again retryNum fileContent errorObs) s = .ok (.error errorObs) ∧
      after (correctEdit e again retryNum fileContent errorObs) s =
        after (again action (retryNum + 1)) (after (askCorrection e fileContent errorObs) s) := by
  unfold correctEdit
  rw [if_neg hcheck, result_tryCatch, after_tryCatch, result_bind, after_bind, hask]
  dsimp only
  rw [hagain]
  exact ⟨rfl, rfl⟩

variable (again errorObs fileContent retryNum) in
/-- A correction never raises. -/
theorem correctEdit_returns (s : Session) : ∃ obs, result (correctEdit e again retryNum fileContent errorObs) s = .ok obs := by
  by_cases hcheck : checkRetryNum e (retryNum + 1) = true
  · exact ⟨_, (correctEdit_stop _ _ _ hcheck s).1⟩
  · by_cases hask : ∃ action, result (askCorrection e fileContent errorObs) s = .ok (some action)
    · obtain ⟨action, hask⟩ := hask
      cases hagain : result (again action (retryNum + 1)) (after (askCorrection e fileContent errorObs) s) with
      | ok obs => exact ⟨obs, (correctEdit_again hcheck hask hagain).1⟩
      | error err => exact ⟨_, (correctEdit_caught hcheck hask hagain).1⟩
    · exact ⟨_, (correctEdit_none _ hcheck (not_exists.mp hask)).1⟩

/-- The edit is what the source has: a correction calls it again. -/
theorem llmBasedEdit_eq (action : FileEditAction) (retryNum : Int) :
    llmBasedEdit e action retryNum = editWith e (correctEdit e (llmBasedEdit e) retryNum) action := by
  have hlast : ∀ again, checkRetryNum e (retryNum + 1) = true →
      correctEdit e again retryNum = fun _ errorObs => pure (.error errorObs) := by
    intro again hcheck
    funext fileContent errorObs
    exact if_pos hcheck
  unfold checkRetryNum at hlast
  unfold llmBasedEdit
  cases hleft : (e.correctNum - retryNum).toNat with
  | zero =>
    have hcheck : decide (e.correctNum < retryNum + 1) = true := decide_eq_true (by omega)
    rw [editFrom, hlast _ hcheck, hlast _ hcheck]
  | succ left =>
    rw [editFrom]
    congr 1
    funext fileContent errorObs
    unfold correctEdit
    have hnext : (e.correctNum - (retryNum + 1)).toNat = left := by omega
    simp only [hnext]

/-! One edit, by what its draft comes to. -/

variable (retryNum) in
theorem llmBasedEdit_raises {err : PyError} (hdraft : result (draftOf e action) s = .error err) :
    result (llmBasedEdit e action retryNum) s = .error err ∧ (after (llmBasedEdit e action retryNum) s).disk = s.disk := by
  have hkeeps : (after (draftOf e action) s).disk = s.disk := draftOf_keeps
  rw [llmBasedEdit_eq, editWith, result_bind, after_bind, hdraft]
  exact ⟨rfl, hkeeps⟩

variable (retryNum) in
theorem llmBasedEdit_error {content : String} (hdraft : result (draftOf e action) s = .ok (some (.error content))) :
    result (llmBasedEdit e action retryNum) s = .ok (.error content) ∧
      (after (llmBasedEdit e action retryNum) s).disk = s.disk := by
  have hkeeps : (after (draftOf e action) s).disk = s.disk := draftOf_keeps
  rw [llmBasedEdit_eq, editWith, result_bind, after_bind, hdraft]
  exact ⟨rfl, hkeeps⟩

variable (retryNum) in
theorem llmBasedEdit_create (hdraft : result (draftOf e action) s = .ok none) :
    result (llmBasedEdit e action retryNum) s = result (createFile e action) (after (draftOf e action) s) ∧
      after (llmBasedEdit e action retryNum) s = after (createFile e action) (after (draftOf e action) s) := by
  rw [llmBasedEdit_eq, editWith, result_bind, after_bind, hdraft]
  exact ⟨rfl, rfl⟩

variable (retryNum) in
theorem llmBasedEdit_passed (hdraft : result (draftOf e action) s = .ok (some (.ok (original, updated))))
    (hlint : lintVerdict e action.path original updated = none) :
    result (llmBasedEdit e action retryNum) s =
        .ok (.edit ⟨e.getDiff original updated action.path, action.path, true, original, updated⟩) ∧
      after (llmBasedEdit e action retryNum) s =
        after (write e { path := action.path, content := updated }) (after (draftOf e action) s) := by
  rw [llmBasedEdit_eq, editWith, result_bind, after_bind, hdraft]
  exact applyUpdate_passed hlint

variable (retryNum) in
theorem llmBasedEdit_refused (hdraft : result (draftOf e action) s = .ok (some (.ok (original, updated))))
    (hlint : lintVerdict e action.path original updated = some errorObs) :
    result (llmBasedEdit e action retryNum) s =
        result (correctEdit e (llmBasedEdit e) retryNum updated errorObs)
          (after (write e { path := action.path, content := updated }) (after (draftOf e action) s)) ∧
      after (llmBasedEdit e action retryNum) s =
        after (correctEdit e (llmBasedEdit e) retryNum updated errorObs)
          (after (write e { path := action.path, content := updated }) (after (draftOf e action) s)) := by
  rw [llmBasedEdit_eq, editWith, result_bind, after_bind, hdraft]
  exact applyUpdate_refused hlint

end Correcting

/-! ## The runs -/

section Running

/-- An edit that is reported of the file is not what the file has. -/
def Misreports (e : Editor) (file : String) (m : Edit EditObservation) (s : Session) : Prop :=
  ∀ obs, result m s = .ok (.edit obs) → e.file obs.path = file →
    Assoc.get? file (after m s).disk ≠ some (.text obs.newContent)

/-- An error is returned, with the file as the old one. -/
def EndsWith (file : String) (old : Option Entry) (m : Edit EditObservation) (s : Session) : Prop :=
  (∃ content, result m s = .ok (.error content)) ∧ Assoc.get? file (after m s).disk = old

theorem Misreports.of_error {m : Edit EditObservation} {content : String} (h : result m s = .ok (.error content)) :
    Misreports e file m s := by
  intro obs hobs
  cases h.symm.trans hobs

theorem EndsWith.iff_of_error {m : Edit EditObservation} {content : String} {old : Option Entry} {s' : Session}
    (h : result m s = .ok (.error content)) (hdisk : (after m s).disk = s'.disk) :
    EndsWith file old m s ↔ Assoc.get? file s'.disk = old := by
  unfold EndsWith
  rw [hdisk]
  exact and_iff_right ⟨content, h⟩

theorem EndsWith.not_of_edit {m : Edit EditObservation} {obs : FileEditObservation} {old : Option Entry}
    (h : result m s = .ok (.edit obs)) : ¬ EndsWith file old m s := by
  rintro ⟨⟨content, hcontent⟩, -⟩
  cases h.symm.trans hcontent

variable {retryNum : Int}
variable (hperm : ∀ file, e.executor.chownError file = none)
include hperm

/-- One edit misreports if the corrections do that are made of it. -/
theorem llmBasedEdit_misreports (hfile : Assoc.get? file s.disk ≠ none)
    (hcorrect : ∀ fileContent errorObs s', Assoc.get? file s'.disk ≠ none →
      Misreports e file (correctEdit e (llmBasedEdit e) retryNum fileContent errorObs) s') :
    Misreports e file (llmBasedEdit e action retryNum) s := by
  intro obs hobs hpath
  have hkeeps : (after (draftOf e action) s).disk = s.disk := draftOf_keeps
  cases hdraft : result (draftOf e action) s with
  | error err => cases (llmBasedEdit_raises retryNum hdraft).1.symm.trans hobs
  | ok draft =>
    cases draft with
    | none =>
      -- a file that is there is not created
      obtain ⟨hresult, -⟩ := llmBasedEdit_create retryNum hdraft
      obtain ⟨hfree, hcreate, -⟩ | ⟨-, err, hcreate, -⟩ :=
        createFile_run hperm action (after (draftOf e action) s)
      · cases (hcreate.symm.trans hresult.symm).trans hobs
        rw [hkeeps] at hfree
        cases hentry : Assoc.get? file s.disk with
        | none => exact absurd hentry hfile
        | some entry =>
          rw [← hpath] at hentry
          cases entry with
          | text raw => exact absurd hentry (draftOf_none hdraft raw)
          | undecodable => exact absurd (.inl hentry) hfree
          | directory => exact absurd (.inr hentry) hfree
      · cases (hcreate.symm.trans hresult.symm).trans hobs
    | some draft =>
      cases draft with
      | error content => cases (llmBasedEdit_error retryNum hdraft).1.symm.trans hobs
      | ok texts =>
        obtain ⟨original, updated⟩ := texts
        cases hlint : lintVerdict e action.path original updated with
        | none =>
          obtain ⟨hresult, hafter⟩ := llmBasedEdit_passed retryNum hdraft hlint
          cases hresult.symm.trans hobs
          rw [hafter, ← hpath]
          exact write_not_held hperm _ _
        | some errorObs =>
          obtain ⟨hresult, hafter⟩ := llmBasedEdit_refused retryNum hdraft hlint
          rw [hresult] at hobs
          rw [hafter]
          refine hcorrect _ _ _ (write_present hperm _ _ ?_) obs hobs hpath
          rwa [hkeeps]

theorem correctEdit_misreports (retryNum : Int) (left : Nat) (hleft : (e.correctNum - retryNum).toNat = left) (fileContent : List Char)
    (errorObs : String) (s : Session) (hfile : Assoc.get? file s.disk ≠ none) :
    Misreports e file (correctEdit e (llmBasedEdit e) retryNum fileContent errorObs) s := by
  induction left generalizing retryNum fileContent errorObs s with
  | zero =>
    have hcheck : checkRetryNum e (retryNum + 1) = true := decide_eq_true (by omega)
    exact .of_error (correctEdit_stop _ _ _ hcheck s).1
  | succ left ih =>
    by_cases hcheck : checkRetryNum e (retryNum + 1) = true
    · exact .of_error (correctEdit_stop _ _ _ hcheck s).1
    by_cases hask : ∃ action, result (askCorrection e fileContent errorObs) s = .ok (some action)
    · obtain ⟨action, hask⟩ := hask
      have hkeeps : (after (askCorrection e fileContent errorObs) s).disk = s.disk := askCorrection_keeps _ _
      have hagain : Misreports e file (llmBasedEdit e action (retryNum + 1))
          (after (askCorrection e fileContent errorObs) s) :=
        llmBasedEdit_misreports hperm (hkeeps ▸ hfile) (ih (retryNum + 1) (by omega))
      cases hresult : result (llmBasedEdit e action (retryNum + 1)) (after (askCorrection e fileContent errorObs) s) with
      | error err => exact .of_error (correctEdit_caught hcheck hask hresult).1
      | ok obs =>
        obtain ⟨hsame, hafter⟩ := correctEdit_again hcheck hask hresult
        intro obs' hobs' hpath
        rw [hafter]
        exact hagain obs' (hresult.trans (hsame.symm.trans hobs')) hpath
    · exact .of_error (correctEdit_none _ hcheck (not_exists.mp hask)).1

omit hperm in
/-- A file that is not created: it is there, but not as a text. -/
theorem blocked_iff (hdraft : result (draftOf e action) s = .ok none) :
    Blocked s.disk (e.file action.path) ↔ Assoc.get? (e.file action.path) s.disk ≠ none := by
  unfold Blocked
  cases hentry : Assoc.get? (e.file action.path) s.disk with
  | none => simp
  | some entry =>
    cases entry with
    | text raw => exact absurd hentry (draftOf_none hdraft raw)
    | undecodable => simp
    | directory => simp

theorem undone_iff (retryNum : Int) (file : String) (old : Option Entry) (left : Nat) (hleft : (e.correctNum - retryNum).toNat = left)
    (fileContent : List Char) (errorObs : String) (s : Session) :
    Undone e file old left fileContent errorObs s ↔
      EndsWith file old (correctEdit e (llmBasedEdit e) retryNum fileContent errorObs) s := by
  induction left generalizing retryNum fileContent errorObs s with
  | zero =>
    have hcheck : checkRetryNum e (retryNum + 1) = true := decide_eq_true (by omega)
    obtain ⟨hresult, hafter⟩ := correctEdit_stop (llmBasedEdit e) errorObs fileContent hcheck s
    exact (EndsWith.iff_of_error hresult (congrArg Session.disk hafter)).symm
  | succ left ih =>
    have hcheck : checkRetryNum e (retryNum + 1) ≠ true := fun h => by
      have hlt := of_decide_eq_true h
      omega
    have hkeeps : (after (askCorrection e fileContent errorObs) s).disk = s.disk := askCorrection_keeps _ _
    unfold Undone
    by_cases hask : ∃ action, result (askCorrection e fileContent errorObs) s = .ok (some action)
    · obtain ⟨action, hask⟩ := hask
      rw [hask]
      dsimp only
      unfold Settles
      cases hdraft : result (draftOf e action) (after (askCorrection e fileContent errorObs) s) with
      | error err =>
        obtain ⟨hagain, hdisk⟩ := llmBasedEdit_raises (retryNum + 1) hdraft
        obtain ⟨hresult, hafter⟩ := correctEdit_caught hcheck hask hagain
        rw [EndsWith.iff_of_error hresult ((congrArg Session.disk hafter).trans (hdisk.trans hkeeps))]
      | ok draft =>
        cases draft with
        | none =>
          obtain ⟨hagain, hagainAfter⟩ := llmBasedEdit_create (retryNum + 1) hdraft
          have hblocked := blocked_iff hdraft
          have hdraftDisk : (after (draftOf e action) (after (askCorrection e fileContent errorObs) s)).disk = s.disk :=
            draftOf_keeps.trans hkeeps
          dsimp only
          rw [← hkeeps, ← hblocked, hkeeps]
          obtain ⟨hfree, hcreate, -⟩ | ⟨hclosed, err, hcreate, hdisk⟩ :=
            createFile_run hperm action (after (draftOf e action) (after (askCorrection e fileContent errorObs) s))
          · rw [hdraftDisk] at hfree
            have hedit := (correctEdit_again hcheck hask (hagain.trans hcreate)).1
            exact iff_of_false (fun h => hfree h.1) (EndsWith.not_of_edit hedit)
          · rw [hdraftDisk] at hclosed
            obtain ⟨hresult, hafter⟩ := correctEdit_again hcheck hask (hagain.trans hcreate)
            have hsame := (congrArg Session.disk (hafter.trans hagainAfter)).trans (hdisk.trans hdraftDisk)
            rw [EndsWith.iff_of_error hresult hsame]
            exact and_iff_right hclosed
        | some draft =>
          cases draft with
          | error content =>
            obtain ⟨hagain, hdisk⟩ := llmBasedEdit_error (retryNum + 1) hdraft
            obtain ⟨hresult, hafter⟩ := correctEdit_again hcheck hask hagain
            rw [EndsWith.iff_of_error hresult ((congrArg Session.disk hafter).trans (hdisk.trans hkeeps))]
          | ok texts =>
            obtain ⟨original, updated⟩ := texts
            dsimp only
            cases hlint : lintVerdict e action.path original updated with
            | none =>
              have hedit := (correctEdit_again hcheck hask (llmBasedEdit_passed (retryNum + 1) hdraft hlint).1).1
              refine iff_of_false ?_ (EndsWith.not_of_edit hedit)
              rintro ⟨errorObs, herror, -⟩
              cases herror
            | some errorObs' =>
              -- the next correction goes on with one attempt less
              obtain ⟨hagain, hagainAfter⟩ := llmBasedEdit_refused (retryNum + 1) hdraft hlint
              obtain ⟨obs, hobs⟩ := correctEdit_returns (llmBasedEdit e) errorObs' updated (retryNum + 1)
                (after (write e { path := action.path, content := updated })
                  (after (draftOf e action) (after (askCorrection e fileContent errorObs) s)))
              obtain ⟨hresult, hafter⟩ := correctEdit_again hcheck hask (hagain.trans hobs)
              have hends : EndsWith file old (correctEdit e (llmBasedEdit e) retryNum fileContent errorObs) s ↔
                  EndsWith file old (correctEdit e (llmBasedEdit e) (retryNum + 1) updated errorObs')
                    (after (write e { path := action.path, content := updated })
                      (after (draftOf e action) (after (askCorrection e fileContent errorObs) s))) := by
                unfold EndsWith
                rw [hresult, hobs, hafter, hagainAfter]
              simp only [Option.some.injEq, exists_eq_left']
              rw [hends, ← ih (retryNum + 1) (by omega)]
    · have hnone := not_exists.mp hask
      obtain ⟨hresult, hafter⟩ := correctEdit_none (llmBasedEdit e) hcheck hnone
      rw [EndsWith.iff_of_error hresult ((congrArg Session.disk hafter).trans hkeeps)]
      split
      next action hsome => exact absurd hsome (hnone action)
      · rfl

theorem touchesReported_iff (action : FileEditAction) (retryNum : Int) (s : Session) :
    TouchesReported e action s.disk (after (llmBasedEdit e action retryNum) s).disk
        (result (llmBasedEdit e action retryNum) s) ↔ Harmless e action retryNum s := by
  have hkeeps : (after (draftOf e action) s).disk = s.disk := draftOf_keeps
  unfold Harmless Settles
  cases hdraft : result (draftOf e action) s with
  | error err =>
    rw [(llmBasedEdit_raises retryNum hdraft).1]
    exact Iff.rfl
  | ok draft =>
    cases draft with
    | none =>
      obtain ⟨hresult, hafter⟩ := llmBasedEdit_create retryNum hdraft
      have hblocked := blocked_iff hdraft
      rw [hresult, hafter]
      obtain ⟨hfree, hcreate, hdisk⟩ | ⟨hclosed, err, hcreate, hdisk⟩ :=
        createFile_run hperm action (after (draftOf e action) s)
      · rw [hkeeps] at hfree hdisk
        have hnone : Assoc.get? (e.file action.path) s.disk = none := not_not.mp fun h => hfree (hblocked.mpr h)
        have hheld : Assoc.get? (e.file action.path) (after (createFile e action) (after (draftOf e action) s)).disk =
            some (.text (Text.strip action.content ++ ['\n'])) := by
          rw [hdisk]
          exact Assoc.get?_set_self ..
        rw [hcreate]
        constructor
        · intro hreported _
          exact Entry.text.inj (Option.some.inj (hheld.symm.trans hreported.held))
        · intro hsame
          refine ⟨rfl, ?_, ?_, ?_⟩
          · rw [hheld, hsame hnone]
          · exact fun raw hraw => absurd (hraw.symm.trans hnone) (Option.some_ne_none _)
          · exact fun raw hraw => absurd (hraw.symm.trans hnone) (Option.some_ne_none _)
      · rw [hkeeps] at hclosed hdisk
        rw [hcreate, hdisk]
        exact iff_of_true rfl fun hnone => absurd hnone (hblocked.mp hclosed)
    | some draft =>
      cases draft with
      | error content =>
        obtain ⟨hresult, hdisk⟩ := llmBasedEdit_error retryNum hdraft
        rw [hresult, hdisk]
        exact iff_of_true rfl trivial
      | ok texts =>
        obtain ⟨original, updated⟩ := texts
        dsimp only
        have hfile : Assoc.get? (e.file action.path) (after (draftOf e action) s).disk ≠ none := by
          rw [hkeeps]
          exact draftOf_some hdraft
        cases hlint : lintVerdict e action.path original updated with
        | none =>
          -- the file has a line end more than the observation
          obtain ⟨hresult, hafter⟩ := llmBasedEdit_passed retryNum hdraft hlint
          rw [hresult, hafter]
          refine iff_of_false (fun hreported => write_not_held hperm _ _ hreported.held) ?_
          rintro ⟨errorObs, herror, -⟩
          cases herror
        | some errorObs =>
          obtain ⟨hresult, hafter⟩ := llmBasedEdit_refused retryNum hdraft hlint
          have hmisreports := correctEdit_misreports hperm retryNum _ rfl updated errorObs _
            (write_present hperm action.path updated hfile)
          have hundone := undone_iff hperm retryNum (e.file action.path) (Assoc.get? (e.file action.path) s.disk) _ rfl
            updated errorObs (after (write e { path := action.path, content := updated }) (after (draftOf e action) s))
          simp only [Option.some.injEq, exists_eq_left']
          rw [hresult, hafter, hundone]
          obtain ⟨obs, hobs⟩ := correctEdit_returns (llmBasedEdit e) errorObs updated retryNum
            (after (write e { path := action.path, content := updated }) (after (draftOf e action) s))
          unfold EndsWith
          rw [hobs]
          cases obs with
          | error content => exact (and_iff_right ⟨content, rfl⟩).symm
          | edit obs =>
            refine iff_of_false (fun hreported => ?_) ?_
            · exact hmisreports obs hobs (congrArg e.file hreported.path) hreported.held
            · rintro ⟨⟨content, hcontent⟩, -⟩
              cases hcontent

end Running

end Steps

section Examples

/-- An editor without an LLM, whose linter finds an error in every text. -/
def strictEditor (enableAutoLint : Bool) : Editor where
  executor := ⟨"/w", fun _ _ => false, fun _ _ _ => [], fun _ _ => [], fun _ => none⟩
  out := EventStream.plainOutside
  enableAutoLint := enableAutoLint
  correctNum := 0
  getDiff _ _ _ := ""
  lintFileDiff _ _ _ := ["E1"]
  visualizeDiff _ := ""
  topKChunks _ _ := []
  complete _ _ := .error (.valueError "no model")

def oneLine : Session := { disk := [("/w/f", .text ['a'])] }

def appendLine : FileEditAction := { path := "f", content := ['b'], start := -1 }

theorem touchesReported_iff_create : TouchesReported (strictEditor true) ⟨"new", ['x', '\n'], 1, -1⟩ oneLine.disk
      (after (llmBasedEdit (strictEditor true) ⟨"new", ['x', '\n'], 1, -1⟩ 0) oneLine).disk
      (result (llmBasedEdit (strictEditor true) ⟨"new", ['x', '\n'], 1, -1⟩ 0) oneLine) ↔
    Harmless (strictEditor true) ⟨"new", ['x', '\n'], 1, -1⟩ 0 oneLine :=
  touchesReported_iff (fun _ => rfl) _ _ _

/-- A line that the linter refuses is in the file while an error is returned; one that passes is reported without the
line end that is written after it. -/
theorem append_not_reported :
    ¬ TouchesReported (strictEditor true) appendLine oneLine.disk
      (after (llmBasedEdit (strictEditor true) appendLine 0) oneLine).disk
      (result (llmBasedEdit (strictEditor true) appendLine 0) oneLine) ∧
    ¬ TouchesReported (strictEditor false) appendLine oneLine.disk
      (after (llmBasedEdit (strictEditor false) appendLine 0) oneLine).disk
      (result (llmBasedEdit (strictEditor false) appendLine 0) oneLine) := by
  constructor
  · obtain ⟨content, hresult⟩ : ∃ content,
        result (llmBasedEdit (strictEditor true) appendLine 0) oneLine = .ok (.error content) := ⟨_, rfl⟩
    rw [hresult]
    intro hsame
    have hfile : Assoc.get? "/w/f" (after (llmBasedEdit (strictEditor true) appendLine 0) oneLine).disk =
        some (.text ['a']) := hsame
    revert hfile
    decide
  · have hresult : result (llmBasedEdit (strictEditor false) appendLine 0) oneLine =
        .ok (.edit ⟨"", "f", true, ['a'], ['a', '\n', 'b']⟩) := rfl
    rw [hresult]
    intro hreported
    have hfile : Assoc.get? "/w/f" (after (llmBasedEdit (strictEditor false) appendLine 0) oneLine).disk =
        some (.text ['a', '\n', 'b']) := hreported.held
    revert hfile
    decide

end Examples

end LlmEdit

end Files

end OpenHands
