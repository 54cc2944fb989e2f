import OpenHandsSWE.Lib.Program
import OpenHandsSWE.Lib.Runs

/-! The file operations of the runtime that works on the host itself, and the guard of their paths. -/

namespace OpenHands.CLIRuntime

open Program

/-! ## The host -/

abbrev Path := List Char

inductive Raised where
  | permissionError (message : List Char)
  | fileNotFoundError (message : List Char)
  | sameFileError (message : List Char)
  | runtimeError (message : List Char)
  | assertionError
  | toolError (message : List Char)
  | other (message : List Char)
deriving DecidableEq

/-- `str(e)`. -/
def Raised.text : Raised → List Char
  | .permissionError message | .fileNotFoundError message | .sameFileError message | .runtimeError message
  | .toolError message | .other message => message
  | .assertionError => []

structure EditorCommand where
  command : List Char
  path : Path
  fileText : Option (List Char) := none
  viewRange : Option (List Int) := none
  oldStr : Option (List Char) := none
  newStr : Option (List Char) := none
  insertLine : Option Int := none
  enableLinting : Bool := false

structure ToolResult where
  output : Option (List Char) := none
  error : Option (List Char) := none
  oldContent : Option (List Char) := none
  newContent : Option (List Char) := none

/-- The operations of the host on its files, whose state is any. -/
structure Host (σ : Type) where
  realpath : σ → Path → Path
  pathExists : σ → Path → Bool
  isDir : σ → Path → Bool
  isFile : σ → Path → Bool
  isBinary : Path → Program Raised σ Bool
  readText : Path → Program Raised σ (List Char)
  writeText : Path → List Char → Program Raised σ Unit
  makedirs : Path → Program Raised σ Unit
  listdir : Path → Program Raised σ (List (List Char))
  copytree : Path → Path → Program Raised σ Unit
  copy2 : Path → Path → Program Raised σ Unit
  namedTemporaryFile : Program Raised σ Path
  openZip : Path → Program Raised σ Unit
  zipWrite : Path → Path → Path → Program Raised σ Unit
  walk : Path → Program Raised σ (List Path)
  relpath : Path → Path → Path
  fileEditor : EditorCommand → Program Raised σ ToolResult
  getDiff : List Char → List Char → Path → List Char

def isAbs (path : Path) : Bool := path.head? = some '/'

/-- `os.path.join`. -/
def join (path name : Path) : Path :=
  if isAbs name then name else if path = [] ∨ path.getLast? = some '/' then path ++ name else path ++ '/' :: name

/-- What is behind the last slash, and what is before it without the slashes that end it. -/
def basename (path : Path) : Path := (path.reverse.takeWhile (· ≠ '/')).reverse

def dirname (path : Path) : Path :=
  let head := path.reverse.dropWhile (· ≠ '/')
  let bare := head.dropWhile (· = '/')
  if bare = [] then head.reverse else bare.reverse

end OpenHands.CLIRuntime

namespace OpenHands

structure CLIRuntime (σ : Type) where
  host : CLIRuntime.Host σ
  workspacePath : CLIRuntime.Path
  runtimeInitialized : Bool

namespace CLIRuntime

open Program

variable {σ : Type} (r : CLIRuntime σ)

/-! ## The guard -/

def mount : Path := "/workspace".toList

def mountDir : Path := "/workspace/".toList

def invalidPath (filename : Path) : Raised :=
  .permissionError ("Invalid path: ".toList ++ filename ++ ". You can only work with files in ".toList ++ r.workspacePath ++ ".".toList)

def invalidTraversal (filename resolved : Path) : Raised :=
  .permissionError ("Invalid path traversal: ".toList ++ filename ++
    ". Path resolves outside the workspace. Resolved: ".toList ++ resolved ++ ", Workspace: ".toList ++ r.workspacePath)

def actualFilename (filename : Path) : Except Raised Path :=
  if filename = mount then .ok r.workspacePath
  else if mountDir <+: filename then .ok (join r.workspacePath (filename.drop mountDir.length))
  else if isAbs filename then
    if ¬ r.workspacePath <+: filename then .error (r.invalidPath filename) else .ok filename
  else .ok (join r.workspacePath (filename.dropWhile (· = '/')))

def sanitizeFilename (filename : Path) : Program Raised σ Path := do
  let actual ← liftExcept (r.actualFilename filename)
  let resolved := r.host.realpath (← get) actual
  if ¬ r.workspacePath <+: resolved then throw (r.invalidTraversal filename resolved)
  return resolved

/-! ## The operations -/

inductive FileReadSource where
  | ohAci
  | default
deriving DecidableEq

inductive FileEditSource where
  | llmBasedEdit
  | ohAci
deriving DecidableEq

structure FileReadAction where
  path : Path
  implSource : FileReadSource := .default
  viewRange : Option (List Int) := none

structure FileWriteAction where
  path : Path
  content : List Char

structure FileEditAction where
  path : Path
  command : List Char := []
  fileText : Option (List Char) := none
  oldStr : Option (List Char) := none
  newStr : Option (List Char) := none
  insertLine : Option Int := none
  implSource : FileEditSource := .ohAci

/-- What a call returns. -/
inductive Reply where
  | error (content : List Char)
  | fileRead (content : List Char) (path : Path) (implSource : FileReadSource)
  | fileWrite (path : Path)
  | fileEdit (content : List Char) (path : Path) (oldContent newContent : Option (List Char)) (diff : List Char)
  | copied
  | files (paths : List Path)
  | zipped (path : Path)
deriving DecidableEq

def notInitialized : List Char := "Runtime not initialized".toList

/-- `_execute_file_editor`: the output, with the old and the new content. -/
def executeFileEditor (command : EditorCommand) :
    Program Raised σ (List Char × Option (List Char) × Option (List Char)) := do
  let result ← tryCatch (r.host.fileEditor command) fun e =>
    match e with
    | .toolError message => return { error := some message }
    | e => throw e
  match result.error.filter (· ≠ []), result.output.filter (· ≠ []) with
  | some error, _ => return ("ERROR:\n".toList ++ error, none, none)
  | none, none => return ([], none, none)
  | none, some output => return (output, result.oldContent, result.newContent)

def readAt (action : FileReadAction) (filePath : Path) : Program Raised σ Reply := do
  if action.implSource = .ohAci then
    let (result, _) ← r.executeFileEditor { command := "view".toList, path := filePath, viewRange := action.viewRange }
    return .fileRead result action.path .ohAci
  let reading : Program Raised σ Reply := do
    if ¬ r.host.pathExists (← get) filePath then return .error ("File not found: ".toList ++ action.path)
    if r.host.isDir (← get) filePath then return .error ("Cannot read directory: ".toList ++ action.path)
    if ← r.host.isBinary filePath then return .error "ERROR_BINARY_FILE".toList
    return .fileRead (← r.host.readText filePath) action.path .default
  tryCatch reading fun e => return .error ("Error reading file ".toList ++ action.path ++ ": ".toList ++ e.text)

def read (action : FileReadAction) : Program Raised σ Reply := do
  if ¬ r.runtimeInitialized then return .error notInitialized
  r.readAt action (← r.sanitizeFilename action.path)

def writeAt (action : FileWriteAction) (filePath : Path) : Program Raised σ Reply := do
  let writing : Program Raised σ Reply := do
    r.host.makedirs (dirname filePath)
    r.host.writeText filePath action.content
    return .fileWrite action.path
  tryCatch writing fun e => return .error ("Error writing to file ".toList ++ action.path ++ ": ".toList ++ e.text)

def write (action : FileWriteAction) : Program Raised σ Reply := do
  if ¬ r.runtimeInitialized then return .error notInitialized
  r.writeAt action (← r.sanitizeFilename action.path)

def editAt (action : FileEditAction) (filePath : Path) : Program Raised σ Reply := do
  if r.host.pathExists (← get) filePath then
    if ← r.host.isBinary filePath then return .error "ERROR_BINARY_FILE".toList
  if action.implSource ≠ .ohAci then throw .assertionError
  let (result, oldContent, newContent) ← r.executeFileEditor
    { command := action.command, path := filePath, fileText := action.fileText, oldStr := action.oldStr,
      newStr := action.newStr, insertLine := action.insertLine }
  return .fileEdit result action.path action.oldStr action.newStr
    (r.host.getDiff (oldContent.getD []) (newContent.getD []) action.path)

def edit (action : FileEditAction) : Program Raised σ Reply := do
  if ¬ r.runtimeInitialized then return .error notInitialized
  r.editAt action (← r.sanitizeFilename action.path)

def noValidSource (hostSrc : Path) : Raised :=
  .fileNotFoundError ("Source path '".toList ++ hostSrc ++ "' is not a valid file or directory.".toList)

def copyFile (hostSrc sandboxDest dest : Path) : Program Raised σ Unit := do
  let s ← get
  let target ←
    if r.host.isDir s dest ∨ ['/'] <:+ sandboxDest ∨ ¬ r.host.pathExists s dest ∧ '.' ∉ basename dest then do
      r.host.makedirs dest
      pure (join dest (basename hostSrc))
    else do
      r.host.makedirs (dirname dest)
      pure dest
  r.host.copy2 hostSrc target

def copyToAt (hostSrc sandboxDest : Path) (recursive : Bool) (dest : Path) : Program Raised σ Reply := do
  let copying : Program Raised σ Reply := do
    let s ← get
    if r.host.isDir s hostSrc ∧ recursive then
      let finalTargetDir := join dest (basename hostSrc)
      if r.host.realpath s hostSrc ≠ r.host.realpath s finalTargetDir then
        r.host.makedirs dest
        r.host.copytree hostSrc finalTargetDir
    else if r.host.isFile s hostSrc then r.copyFile hostSrc sandboxDest dest
    else throw (noValidSource hostSrc)
    return .copied
  tryCatch copying fun e =>
    match e with
    | .fileNotFoundError message => throw (.fileNotFoundError message)
    | .sameFileError _ => return .copied
    | e => throw (.runtimeError ("Unexpected error copying file: ".toList ++ e.text))

def noSource (hostSrc : Path) : Raised :=
  .fileNotFoundError ("Source path '".toList ++ hostSrc ++ "' does not exist.".toList)

def copyTo (hostSrc sandboxDest : Path) (recursive : Bool) : Program Raised σ Reply := do
  if ¬ r.runtimeInitialized then throw (.runtimeError notInitialized)
  if ¬ r.host.pathExists (← get) hostSrc then throw (noSource hostSrc)
  r.copyToAt hostSrc sandboxDest recursive (← r.sanitizeFilename sandboxDest)

def listFilesAt (dirPath : Path) : Program Raised σ Reply := do
  let listing : Program Raised σ Reply := do
    if ¬ r.host.pathExists (← get) dirPath then return .files []
    if ¬ r.host.isDir (← get) dirPath then return .files [dirPath]
    return .files ((← r.host.listdir dirPath).map (join dirPath))
  tryCatch listing fun _ => return .files []

def listFiles (path : Option Path) : Program Raised σ Reply := do
  if ¬ r.runtimeInitialized then throw (.runtimeError notInitialized)
  match path with
  | none => r.listFilesAt r.workspacePath
  | some path => r.listFilesAt (← r.sanitizeFilename path)

def zipFile (zip sourcePath : Path) : Program Raised σ Unit := do
  r.host.openZip zip
  if r.host.isDir (← get) sourcePath then
    for filePath in ← r.host.walk sourcePath do
      r.host.zipWrite zip filePath (r.host.relpath filePath sourcePath)
  else r.host.zipWrite zip sourcePath (basename sourcePath)

def copyFromAt (path sourcePath : Path) : Program Raised σ Reply := do
  if ¬ r.host.pathExists (← get) sourcePath then throw (.fileNotFoundError ("Path not found: ".toList ++ path))
  let zip ← r.host.namedTemporaryFile
  let zipping : Program Raised σ Reply := do
    r.zipFile zip sourcePath
    return .zipped zip
  tryCatch zipping fun e => throw (.runtimeError ("Error creating zip file: ".toList ++ e.text))

def copyFrom (path : Path) : Program Raised σ Reply := do
  if ¬ r.runtimeInitialized then throw (.runtimeError notInitialized)
  r.copyFromAt path (← r.sanitizeFilename path)

/-! ## Calls -/

inductive Call where
  | read (action : FileReadAction)
  | write (action : FileWriteAction)
  | edit (action : FileEditAction)
  | listFiles (path : Option Path)
  | copyTo (hostSrc sandboxDest : Path) (recursive : Bool)
  | copyFrom (path : Path)

/-- The path that a call is about; without one the files of the workspace are listed. -/
def Call.sandboxPath : Call → Option Path
  | .read action => some action.path
  | .write action => some action.path
  | .edit action => some action.path
  | .listFiles path => path
  | .copyTo _ sandboxDest _ => some sandboxDest
  | .copyFrom path => some path

def Call.run : Call → Program Raised σ Reply
  | .read action => r.read action
  | .write action => r.write action
  | .edit action => r.edit action
  | .listFiles path => r.listFiles path
  | .copyTo hostSrc sandboxDest recursive => r.copyTo hostSrc sandboxDest recursive
  | .copyFrom path => r.copyFrom path

/-- What a call does once it has the path it works on. -/
def Call.runAt : Call → Path → Program Raised σ Reply
  | .read action => r.readAt action
  | .write action => r.writeAt action
  | .edit action => r.editAt action
  | .listFiles _ => r.listFilesAt
  | .copyTo hostSrc sandboxDest recursive => r.copyToAt hostSrc sandboxDest recursive
  | .copyFrom path => r.copyFromAt path

/-- A runtime that is connected. -/
def connected (host : Host σ) (workspacePath : Path) : CLIRuntime σ := ⟨host, workspacePath, true⟩

/-- The workspace, or below it. -/
def Within (workspacePath path : Path) : Prop :=
  path = workspacePath ∨ (if workspacePath = ['/'] then ['/'] else workspacePath ++ ['/']) <+: path

/-- How the path of a call is found, before anything is done with it. -/
def Call.path : Call → Program Raised σ Path
  | .listFiles none => return r.workspacePath
  | .copyTo hostSrc sandboxDest _ => do
    if ¬ r.host.pathExists (← get) hostSrc then throw (noSource hostSrc)
    r.sanitizeFilename sandboxDest
  | .read action => r.sanitizeFilename action.path
  | .write action => r.sanitizeFilename action.path
  | .edit action => r.sanitizeFilename action.path
  | .listFiles (some path) => r.sanitizeFilename path
  | .copyFrom path => r.sanitizeFilename path

section Paths

variable (host : Host σ) (workspacePath : Path)

/-- What a path of the sandbox stands for on the host. -/
def hostPath (filename : Path) : Path :=
  if filename = mount then workspacePath
  else if mountDir <+: filename then join workspacePath (filename.drop mountDir.length)
  else if isAbs filename then filename
  else join workspacePath (filename.dropWhile (· = '/'))

def resolved (s : σ) (filename : Path) : Path := host.realpath s (hostPath workspacePath filename)

/-- An absolute path that does not even begin like the workspace is refused for how it is spelt. -/
def Misspelt (filename : Path) : Prop :=
  isAbs filename = true ∧ ¬ workspacePath <+: filename ∧ filename ≠ mount ∧ ¬ mountDir <+: filename

/-- A call works in the workspace: the path it gets is there, one that resolves elsewhere is refused before anything
is done, and a relative one that resolves into the workspace is not. -/
structure Confined (s : σ) (call : Call) : Prop where
  within : ∀ path, result (call.path (connected host workspacePath)) s = .ok path → Within workspacePath path
  refused : ∀ filename ∈ call.sandboxPath, ¬ Within workspacePath (resolved host workspacePath s filename) →
    (∃ message, result (call.run (connected host workspacePath)) s = .error (.permissionError message)) ∧
      after (call.run (connected host workspacePath)) s = s
  allowed : ∀ filename ∈ call.sandboxPath, isAbs filename = false →
    Within workspacePath (resolved host workspacePath s filename) →
    result ((connected host workspacePath).sanitizeFilename filename) s = .ok (resolved host workspacePath s filename)

/-- The source of a copy is looked for before the path. -/
def HasSource (s : σ) : Call → Prop
  | .copyTo hostSrc _ _ => host.pathExists s hostSrc = true
  | _ => True

/-- A path that resolves elsewhere is misspelt, or does not begin like the workspace when it is resolved. -/
def Guarded (s : σ) (call : Call) : Prop :=
  ∀ filename ∈ call.sandboxPath, ¬ Within workspacePath (resolved host workspacePath s filename) →
    (Misspelt workspacePath filename ∨ ¬ workspacePath <+: resolved host workspacePath s filename) ∧ HasSource host s call

end Paths

/-! ## The guard of one path -/

section

variable {host : Host σ} {workspacePath filename : Path} {s : σ}

instance decidableWithin (workspacePath path : Path) : Decidable (Within workspacePath path) :=
  inferInstanceAs (Decidable (_ ∨ _))

theorem Within.begins {path : Path} (h : Within workspacePath path) : workspacePath <+: path := by
  rcases h with rfl | h
  · exact List.prefix_rfl
  · split_ifs at h with hroot
    · rwa [hroot]
    · exact (List.prefix_append workspacePath ['/']).trans h

theorem actualFilename_misspelt (h : Misspelt workspacePath filename) :
    (connected host workspacePath).actualFilename filename = .error ((connected host workspacePath).invalidPath filename) := by
  obtain ⟨habs, hbegins, hmount, hdir⟩ := h
  rw [actualFilename, if_neg hmount, if_neg hdir, if_pos habs]
  exact if_pos hbegins

theorem actualFilename_spelt (h : ¬ Misspelt workspacePath filename) :
    (connected host workspacePath).actualFilename filename = .ok (hostPath workspacePath filename) := by
  rw [actualFilename, hostPath]
  by_cases hmount : filename = mount
  · rw [if_pos hmount, if_pos hmount]
    rfl
  rw [if_neg hmount, if_neg hmount]
  by_cases hdir : mountDir <+: filename
  · rw [if_pos hdir, if_pos hdir]
    rfl
  rw [if_neg hdir, if_neg hdir]
  by_cases habs : isAbs filename = true
  · have hbegins : workspacePath <+: filename := by
      by_contra hnot
      exact h ⟨habs, hnot, hmount, hdir⟩
    rw [if_pos habs, if_pos habs]
    exact if_neg (not_not.mpr hbegins)
  · rw [if_neg habs, if_neg habs]
    rfl

theorem sanitizeFilename_run (r : CLIRuntime σ) (filename : Path) (s : σ) :
    (r.sanitizeFilename filename).run.run s =
      ((r.actualFilename filename).bind fun actual =>
        if r.workspacePath <+: r.host.realpath s actual then .ok (r.host.realpath s actual)
        else .error (r.invalidTraversal filename (r.host.realpath s actual)), s) := by
  unfold sanitizeFilename
  cases r.actualFilename filename with
  | error e => rfl
  | ok actual =>
    simp only [liftExcept, Except.bind, pure_bind]
    rw [run_get_bind]
    by_cases hbegins : r.workspacePath <+: r.host.realpath s actual
    · rw [if_pos hbegins, if_neg (not_not.mpr hbegins)]
      rfl
    · rw [if_neg hbegins, if_pos hbegins]
      rfl

theorem after_sanitizeFilename (r : CLIRuntime σ) (filename : Path) (s : σ) : after (r.sanitizeFilename filename) s = s :=
  congrArg Prod.snd (sanitizeFilename_run r filename s)

/-- A path gets through the guard when it is well spelt and begins like the workspace when it is resolved. -/
theorem sanitizeFilename_ok (h : ¬ Misspelt workspacePath filename)
    (hbegins : workspacePath <+: resolved host workspacePath s filename) :
    result ((connected host workspacePath).sanitizeFilename filename) s = .ok (resolved host workspacePath s filename) := by
  rw [result, sanitizeFilename_run, actualFilename_spelt h]
  exact if_pos hbegins

theorem sanitizeFilename_error
    (h : Misspelt workspacePath filename ∨ ¬ workspacePath <+: resolved host workspacePath s filename) :
    ∃ message, result ((connected host workspacePath).sanitizeFilename filename) s = .error (.permissionError message) := by
  by_cases hspelt : Misspelt workspacePath filename
  · have herror : result ((connected host workspacePath).sanitizeFilename filename) s =
        .error ((connected host workspacePath).invalidPath filename) := by
      rw [result, sanitizeFilename_run, actualFilename_misspelt hspelt]
      rfl
    exact ⟨_, herror⟩
  · have herror : result ((connected host workspacePath).sanitizeFilename filename) s =
        .error ((connected host workspacePath).invalidTraversal filename (resolved host workspacePath s filename)) := by
      rw [result, sanitizeFilename_run, actualFilename_spelt hspelt]
      exact if_neg (h.resolve_left hspelt)
    exact ⟨_, herror⟩

end

/-! ## Calls -/

section

variable {host : Host σ} {workspacePath filename : Path} {s : σ} {call : Call}

/-- A call on a connected runtime finds its path and works there. -/
theorem run_eq (host : Host σ) (workspacePath : Path) (call : Call) :
    call.run (connected host workspacePath) =
      call.path (connected host workspacePath) >>= call.runAt (connected host workspacePath) := by
  cases call with
  | listFiles path => cases path <;> rfl
  | copyTo hostSrc sandboxDest recursive =>
    show (get >>= fun s => _ : Program Raised σ Reply) = (get >>= fun s => _) >>= _
    rw [bind_assoc]
    congr 1
    funext s
    by_cases hsource : host.pathExists s hostSrc = true
    · simp [connected, hsource, Call.runAt]
    · simp [connected, hsource]
  | _ => rfl

/-- The path of a call with a source is what the guard makes of it. -/
theorem path_run (hfilename : filename ∈ call.sandboxPath) (hsource : HasSource host s call) :
    (call.path (connected host workspacePath)).run.run s =
      ((connected host workspacePath).sanitizeFilename filename).run.run s := by
  cases call with
  | copyTo hostSrc sandboxDest recursive =>
    obtain rfl := Option.some.inj hfilename
    have hpresent : host.pathExists s hostSrc = true := hsource
    rw [Call.path, run_get_bind, if_neg (by simp [connected, hpresent])]
  | listFiles path =>
    obtain rfl := Option.mem_def.mp hfilename
    rfl
  | _ =>
    obtain rfl := Option.some.inj hfilename
    rfl

theorem path_noSource (hsource : ¬ HasSource host s call) :
    ∃ hostSrc, result (call.path (connected host workspacePath)) s = .error (noSource hostSrc) := by
  cases call with
  | copyTo hostSrc sandboxDest recursive =>
    have habsent : ¬ host.pathExists s hostSrc = true := hsource
    refine ⟨hostSrc, ?_⟩
    rw [Call.path, result, run_get_bind, if_pos (by simpa [connected] using habsent)]
    rfl
  | _ => exact absurd trivial hsource

/-- Without a path the workspace is listed. -/
theorem within_of_list {path : Path} (hcall : call.sandboxPath = none)
    (hpath : result (call.path (connected host workspacePath)) s = .ok path) : Within workspacePath path := by
  cases call with
  | listFiles given =>
    obtain rfl : given = none := hcall
    exact .inl (Except.ok.inj hpath).symm
  | _ => simp [Call.sandboxPath] at hcall

theorem Confined.guarded (h : Confined host workspacePath s call) : Guarded host workspacePath s call := by
  intro filename hfilename helsewhere
  obtain ⟨⟨message, hraised⟩, -⟩ := h.refused filename hfilename helsewhere
  have hsource : HasSource host s call := by
    by_contra hnot
    obtain ⟨hostSrc, hmissing⟩ := path_noSource hnot
    rw [run_eq, result_bind, hmissing] at hraised
    simp [noSource] at hraised
  refine ⟨?_, hsource⟩
  -- otherwise the call would get a path elsewhere
  by_contra hnot
  push Not at hnot
  obtain ⟨hspelt, hbegins⟩ := hnot
  refine helsewhere (h.within _ ?_)
  rw [result, path_run hfilename hsource]
  exact sanitizeFilename_ok hspelt hbegins

theorem Guarded.within (h : Guarded host workspacePath s call) {path : Path}
    (hpath : result (call.path (connected host workspacePath)) s = .ok path) : Within workspacePath path := by
  cases hfilename : call.sandboxPath with
  | none => exact within_of_list hfilename hpath
  | some filename =>
    by_cases hsource : HasSource host s call
    · rw [result, path_run hfilename hsource] at hpath
      by_cases hguard : Misspelt workspacePath filename ∨ ¬ workspacePath <+: resolved host workspacePath s filename
      · obtain ⟨message, herror⟩ := sanitizeFilename_error hguard
        exact absurd (herror.symm.trans hpath) (by simp)
      · obtain ⟨hspelt, hbegins⟩ := not_or.mp hguard
        obtain rfl := Except.ok.inj ((sanitizeFilename_ok hspelt (not_not.mp hbegins)).symm.trans hpath)
        by_contra helsewhere
        exact hguard (h filename hfilename helsewhere).1
    · obtain ⟨hostSrc, hmissing⟩ := path_noSource hsource
      exact absurd (hmissing.symm.trans hpath) (by simp)

theorem Guarded.confined (h : Guarded host workspacePath s call) : Confined host workspacePath s call := by
  refine ⟨fun path hpath => h.within hpath, fun filename hfilename helsewhere => ?_, fun filename _ hrelative hwithin => ?_⟩
  · obtain ⟨hguard, hsource⟩ := h filename hfilename helsewhere
    obtain ⟨message, herror⟩ := sanitizeFilename_error hguard
    have hpath : result (call.path (connected host workspacePath)) s = .error (.permissionError message) := by
      rw [result, path_run hfilename hsource]
      exact herror
    have hafter : after (call.path (connected host workspacePath)) s = s := by
      rw [after, path_run hfilename hsource]
      exact after_sanitizeFilename _ filename s
    rw [run_eq, result_bind, after_bind, hpath]
    exact ⟨⟨message, rfl⟩, hafter⟩
  · exact sanitizeFilename_ok (fun hspelt => by simp [hrelative, Misspelt] at hspelt) hwithin.begins

theorem confined_iff_guarded : Confined host workspacePath s call ↔ Guarded host workspacePath s call :=
  ⟨Confined.guarded, Guarded.confined⟩

end

/-! ## Runs -/

/-- What a call leaves of the files. -/
def step (host : Host σ) (workspacePath : Path) (s : σ) (call : Call) : σ :=
  after (call.run (connected host workspacePath)) s

/-- Every call of a run is confined to the workspace exactly when each path that resolves elsewhere is one that the
guard refuses: no path to a place beside the workspace whose name begins like it, and no copy without a source. -/
theorem runs_confined_iff (host : Host σ) (workspacePath : Path) (s : σ) (calls : List Call) :
    Runs.EachStep (step host workspacePath) s (Confined host workspacePath) calls ↔
      Runs.EachStep (step host workspacePath) s (Guarded host workspacePath) calls :=
  forall₃_congr fun _ _ _ => confined_iff_guarded

def workspace : Path := "/ws".toList

def secret : Path := "/ws-other/secret".toList

/-- A host without links, with a file in a directory beside the workspace. -/
def neighbours : Host Unit where
  realpath _ path := path
  pathExists _ path := decide (path = secret)
  isDir _ _ := false
  isFile _ path := decide (path = secret)
  isBinary _ := return false
  readText _ := return "secret".toList
  writeText _ _ := return
  makedirs _ := return
  listdir _ := return []
  copytree _ _ := return
  copy2 _ _ := return
  namedTemporaryFile := return []
  openZip _ := return
  zipWrite _ _ _ := return
  walk _ := return []
  relpath path _ := path
  fileEditor _ := return {}
  getDiff _ _ _ := []

/-- The file beside the workspace is read: its path begins like the workspace. -/
theorem not_runs_confined :
    result (CLIRuntime.read (connected neighbours workspace) { path := secret }) () =
        .ok (.fileRead "secret".toList secret .default) ∧
      ¬ Runs.EachStep (step neighbours workspace) () (Confined neighbours workspace) [.read { path := secret }] := by
  refine ⟨by decide, fun h => ?_⟩
  have hfirst := h [] (.read { path := secret }) List.prefix_rfl
  exact absurd (hfirst.within secret (by decide)) (by decide)

end CLIRuntime

end OpenHands
