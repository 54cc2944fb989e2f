import OpenHandsSWE.Lib.Scan
import OpenHandsSWE.Lib.Splitlines
import OpenHandsSWE.Lib.Words
import OpenHandsSWE.Lib.JsonText
import OpenHandsSWE.Lib.Python

/-! The changes that git reports for a workspace and the repositories in it. -/

namespace OpenHands

open Text

namespace GitChanges

/-! ## The script -/

/-- A `RuntimeError` of a command or of its output, which the message lists; or no word to take. -/
inductive GitError where
  | commandFailed (message : List Char)
  | unexpected (kind : String) (changedFiles : List (List Char))
  | indexError
deriving DecidableEq

/-- What a finished command leaves. -/
structure Completed where
  returncode : ℤ
  stdout : List Char
  stderr : List Char

/-- A command line, run in a directory. -/
abbrev Shell := List Char → List Char → Completed

structure Change where
  status : List Char
  path : List Char
deriving DecidableEq

section Script

variable (shell : Shell)

def run (cmd cwd : List Char) : Except GitError (List Char) :=
  let result := shell cmd cwd
  let content := if result.stderr = [] then result.stdout else result.stderr
  if result.returncode = 0 then .ok (strip content)
  else .error (.commandFailed ("error_running_cmd:".toList ++ Json.dumpsInt result.returncode ++ ':' :: content))

/-- The first ref that exists. -/
def firstValid (repoDir : List Char) : List (List Char) → Option (List Char)
  | [] => none
  | ref :: refs =>
    match run shell ("git --no-pager rev-parse --verify ".toList ++ ref) repoDir with
    | .ok result => some result
    | .error _ => firstValid repoDir refs

def refNewRepo : List Char := "$(git --no-pager rev-parse --verify 4b825dc642cb6eb9a060e54bf8d69288fbee4904)".toList

def refNonDefaultBranch (defaultBranch : List Char) : List Char :=
  "$(git --no-pager merge-base HEAD \"$(git --no-pager rev-parse --abbrev-ref origin/".toList ++ defaultBranch ++ ")\")".toList

def getValidRef (repoDir : List Char) : Except GitError (Option (List Char)) :=
  let current :=
    match run shell "git --no-pager rev-parse --abbrev-ref HEAD".toList repoDir with
    | .ok currentBranch => ["origin/".toList ++ currentBranch]
    | .error _ => []
  match run shell "git --no-pager remote show origin | grep \"HEAD branch\"".toList repoDir with
  | .error _ => .ok (firstValid shell repoDir (current ++ [refNewRepo]))
  | .ok head =>
    match (words head).getLast? with
    | none => .error .indexError
    | some defaultBranch =>
      let refs := [refNonDefaultBranch defaultBranch, "origin/".toList ++ defaultBranch, refNewRepo]
      .ok (firstValid shell repoDir (current ++ refs))

/-- The changes of one line of `git diff --name-status`. A blank line has no parts. -/
def parseLine (changedFiles : List (List Char)) (line : List Char) : Except GitError (List Change) :=
  match words line with
  | [status, oldPath, newPath] =>
    if ['R'] <+: status then .ok [⟨['D'], oldPath⟩, ⟨['A'], newPath⟩]
    else if ['C'] <+: status then .ok [⟨['A'], newPath⟩]
    else .error (.unexpected "unexpected_value_in_git_diff" changedFiles)
  | [status, path] =>
    let status := if status = ['?', '?'] then ['A'] else if status = ['*'] then ['M'] else status
    if status = ['M'] ∨ status = ['A'] ∨ status = ['D'] ∨ status = ['U'] then .ok [⟨status, path⟩]
    else .error (.unexpected "unexpected_status_in_git_diff" changedFiles)
  | _ => .error (.unexpected "unexpected_value_in_git_diff" changedFiles)

def parseLines (changedFiles : List (List Char)) : List (List Char) → Except GitError (List Change)
  | [] => .ok []
  | line :: lines =>
    (parseLine changedFiles line).bind fun changes => (parseLines changedFiles lines).map (changes ++ ·)

def untrackedChanges (untrackedFiles : List (List Char)) : List Change :=
  (untrackedFiles.filter (· ≠ [])).map (Change.mk ['A'])

def diffCommand (ref : List Char) : List Char := "git --no-pager diff --name-status ".toList ++ ref

def untrackedCommand : List Char := "git --no-pager ls-files --others --exclude-standard".toList

def getChangesInRepo (repoDir : List Char) : Except GitError (List Change) :=
  (getValidRef shell repoDir).bind fun ref =>
    match ref.filter (· ≠ []) with
    | none => .ok []
    | some ref =>
      (run shell (diffCommand ref) repoDir).bind fun changed =>
        (parseLines (barelines changed) (barelines changed)).bind fun changes =>
          (run shell untrackedCommand repoDir).map fun untracked => changes ++ untrackedChanges (barelines untracked)

/-- `glob.glob('./*/.git')`, cut down to the names: the star stands for no name with a dot at its head. -/
def globGit (names : List (List Char)) : List (List Char) := names.filter fun name => ¬ ['.'] <+: name

/-- `str(Path(cwd, git_dir))`. -/
def inDir (cwd gitDir : List Char) : List Char := cwd ++ '/' :: gitDir

def Change.within (gitDir : List Char) (change : Change) : Change := { change with path := gitDir ++ '/' :: change.path }

def gitDirChanges (cwd : List Char) : List (List Char) → Except GitError (List Change)
  | [] => .ok []
  | gitDir :: gitDirs =>
    (getChangesInRepo shell (inDir cwd gitDir)).bind fun changes =>
      (gitDirChanges cwd gitDirs).map (changes.map (Change.within gitDir) ++ ·)

/-- The changes below a directory; `names` are those of its directories with a `.git` in them. -/
def getGitChanges (cwd : List Char) (names : List (List Char)) : Except GitError (List Change) :=
  (getChangesInRepo shell cwd).bind fun changes =>
    let outside := changes.filter fun change => ¬ (globGit names).any (· <+: change.path)
    (gitDirChanges shell cwd (globGit names)).map fun others =>
      (outside ++ others).mergeSort fun a b => a.path ≤ b.path

end Script

/-! ## What git reports -/

/-- How git prints a path: with quotes and escapes around special characters. -/
structure Printing where
  print : List Char → List Char
  injective : Function.Injective print
  printable : ∀ path ≠ [], print path ≠ [] ∧ ∀ c ∈ print path, 32 ≤ c.toNat ∧ c.toNat ≤ 126
  quoted : ∀ path, print path = path ∨ ['"'] <:+ print path

inductive Record where
  | modified (path : List Char)
  | added (path : List Char)
  | deleted (path : List Char)
  | renamed (similarity : Fin 101) (oldPath newPath : List Char)

def Record.paths : Record → List (List Char)
  | .modified path | .added path | .deleted path => [path]
  | .renamed _ oldPath newPath => [oldPath, newPath]

def Record.code : Record → List Char
  | .modified _ => ['M']
  | .added _ => ['A']
  | .deleted _ => ['D']
  | .renamed similarity _ _ =>
    ['R', Nat.digitChar (similarity / 100), Nat.digitChar (similarity / 10 % 10), Nat.digitChar (similarity % 10)]

/-- The changes of paths: a rename deletes one and adds another. -/
def Record.changes : Record → List Change
  | .modified path => [⟨['M'], path⟩]
  | .added path => [⟨['A'], path⟩]
  | .deleted path => [⟨['D'], path⟩]
  | .renamed _ oldPath newPath => [⟨['D'], oldPath⟩, ⟨['A'], newPath⟩]

/-- What git reports for a repository. -/
structure Report where
  records : List Record
  untracked : List (List Char)
  paths_ne_nil : ∀ record ∈ records, ∀ path ∈ record.paths, path ≠ []
  untracked_ne_nil : ∀ path ∈ untracked, path ≠ []

def Report.changes (report : Report) : List Change :=
  report.records.flatMap Record.changes ++ report.untracked.map (Change.mk ['A'])

structure Repo where
  name : List Char
  name_ne_nil : name ≠ []
  name_file : '/' ∉ name
  report : Report

structure Workspace where
  report : Report
  repos : List Repo
  distinct : (repos.map Repo.name).Nodup

section

variable (git : Printing)

def Record.line (record : Record) : List Char := record.code ++ record.paths.flatMap fun path => '\t' :: git.print path

def Change.printed (change : Change) : Change := { change with path := git.print change.path }

/-- The two commands print the report of the repository; without a ref there is nothing to report. -/
def Reports (shell : Shell) (dir : List Char) (report : Report) : Prop :=
  (getValidRef shell dir = .ok none ∧ report.changes = []) ∨
    ∃ ref ≠ [], getValidRef shell dir = .ok (some ref) ∧
      shell (diffCommand ref) dir = ⟨0, ended '\n' (report.records.map (Record.line git)), []⟩ ∧
      shell untrackedCommand dir = ⟨0, ended '\n' (report.untracked.map git.print), []⟩

structure ReportsAll (shell : Shell) (cwd : List Char) (workspace : Workspace) : Prop where
  outer : Reports git shell cwd workspace.report
  inner : ∀ repo ∈ workspace.repos, Reports git shell (inDir cwd repo.name) repo.report

/-- The path is the directory, or below it. -/
def Inside (dir path : List Char) : Prop := path = dir ∨ dir ++ ['/'] <+: path

instance (dir path : List Char) : Decidable (Inside dir path) := by
  unfold Inside
  infer_instance

def Workspace.expected (workspace : Workspace) : List Change :=
  (workspace.report.changes.filter fun change => ∀ repo ∈ workspace.repos, ¬ Inside repo.name change.path).map
      (Change.printed git) ++
    workspace.repos.flatMap fun repo => (repo.report.changes.map (Change.printed git)).map (Change.within repo.name)

/-- The result is what is expected, sorted by path. -/
def Attributed (shell : Shell) (cwd : List Char) (workspace : Workspace) : Prop :=
  ∃ changes, getGitChanges shell cwd (workspace.repos.map Repo.name) = .ok changes ∧
    changes.Pairwise (fun a b => a.path ≤ b.path) ∧ changes.Perm (workspace.expected git)

/-- No path of the status lines has a space in it, and the list of the other ones does not begin or end with one. -/
structure Readable (report : Report) : Prop where
  records : ∀ record ∈ report.records, ∀ path ∈ record.paths, ' ' ∉ git.print path
  first : ∀ path ∈ report.untracked.head?, ¬ [' '] <+: git.print path
  last : ∀ path ∈ report.untracked.getLast?, ¬ [' '] <:+ git.print path

/-- The name of a repository begins a printed path only if the path is inside of one. -/
def Separated (workspace : Workspace) : Prop :=
  ∀ change ∈ workspace.report.changes, (∃ repo ∈ workspace.repos, repo.name <+: git.print change.path) ↔
    ∃ repo ∈ workspace.repos, Inside repo.name change.path

end

/-! ## Printed text -/

/-- The letters of printed paths, of which only the space is white. -/
def Printable (cs : List Char) : Prop := ∀ c ∈ cs, 32 ≤ c.toNat ∧ c.toNat ≤ 126

section

variable {cs q : List Char} {c : Char}

theorem isSpace_printable (hc : 32 ≤ c.toNat ∧ c.toNat ≤ 126) : isSpace c = decide (c = ' ') := by
  have hspace : c = ' ' ↔ c.toNat = 32 := ⟨fun h => by rw [h]; rfl, fun h => Char.toNat_inj.mp h⟩
  rw [isSpace, Bool.eq_iff_iff]
  simp [hspace]
  omega

theorem isLineEnd_printable (hc : 32 ≤ c.toNat ∧ c.toNat ≤ 126) : isLineEnd c = false := by
  simp [isLineEnd]
  omega

theorem words_printable (hq : Printable q) (hne : q ≠ []) (hspace : ' ' ∉ q) : words q = [q] := by
  refine words_of_word hne fun c hc => ?_
  rw [isSpace_printable (hq c hc), decide_eq_false_iff_not]
  exact fun h => hspace (h ▸ hc)

theorem countP_printable (q : List Char) :
    q.countP (fun c => !isSpace c) ≤ q.length ∧ (' ' ∈ q → q.countP (fun c => !isSpace c) < q.length) := by
  refine ⟨List.countP_le_length, fun hspace => lt_of_le_of_ne List.countP_le_length fun heq => ?_⟩
  have hblank := List.countP_eq_length.mp heq ' ' hspace
  exact absurd hblank (by decide)

end

/-! ## Reading the status lines -/

/-- The letters of all paths. -/
def weight (changes : List Change) : ℕ := (changes.map fun change => change.path.length).sum

theorem weight_append (changes others : List Change) : weight (changes ++ others) = weight changes + weight others := by
  rw [weight, List.map_append, List.sum_append, weight, weight]

section

variable {git : Printing} {all : List (List Char)}

theorem parseLine_weight {line status : List Char} {ws : List (List Char)} {changes : List Change}
    (hwords : words line = status :: ws) (h : parseLine all line = .ok changes) : weight changes ≤ (ws.map List.length).sum := by
  unfold parseLine at h
  rw [hwords] at h
  match ws, h with
  | [], h => cases h
  | [path], h =>
    dsimp only at h
    split_ifs at h
    all_goals
      rw [← Except.ok.inj h]
      exact le_rfl
  | [oldPath, newPath], h =>
    dsimp only at h
    split_ifs at h
    · rw [← Except.ok.inj h]
      exact le_rfl
    · rw [← Except.ok.inj h]
      simp [weight]
  | _ :: _ :: _ :: _, h => cases h

theorem parseLines_congr {lines lines' : List (List Char)} (h : lines.map words = lines'.map words) :
    parseLines all lines = parseLines all lines' := by
  induction lines generalizing lines' with
  | nil =>
    rw [List.map_nil] at h
    rw [List.map_eq_nil_iff.mp h.symm]
  | cons line lines ih =>
    obtain ⟨line', rest, rfl, hline, hrest⟩ := List.map_eq_cons_iff.mp h.symm
    have hhead : parseLine all line = parseLine all line' := by rw [parseLine, parseLine, hline]
    rw [parseLines, parseLines, hhead, ih hrest.symm]

theorem code_word (record : Record) : record.code ≠ [] ∧ ∀ c ∈ record.code, isSpace c = false := by
  have hdigit : ∀ n < 10, isSpace (Nat.digitChar n) = false := by decide
  cases record with
  | renamed similarity oldPath newPath =>
    refine ⟨List.cons_ne_nil _ _, ?_⟩
    simp only [Record.code, List.forall_mem_cons]
    exact ⟨by decide, hdigit _ (by omega), hdigit _ (by omega), hdigit _ (by omega), List.forall_mem_nil _⟩
  | _ =>
    refine ⟨List.cons_ne_nil _ _, ?_⟩
    simp only [Record.code, List.forall_mem_cons]
    exact ⟨by decide, List.forall_mem_nil _⟩

theorem words_line (record : Record) :
    words (record.line git) = record.code :: record.paths.flatMap fun path => words (git.print path) := by
  have hpaths (paths : List (List Char)) : (paths.flatMap fun path => '\t' :: git.print path).head?.all isSpace = true ∧
      words (paths.flatMap fun path => '\t' :: git.print path) = paths.flatMap fun path => words (git.print path) := by
    induction paths with
    | nil => exact ⟨rfl, rfl⟩
    | cons path paths ih =>
      refine ⟨rfl, ?_⟩
      rw [List.flatMap_cons, List.cons_append, words_of_isSpace (by decide), words_append _ ih.1, ih.2, List.flatMap_cons]
  rw [Record.line, words_append _ (hpaths record.paths).1, (hpaths record.paths).2,
    words_of_word (code_word record).1 (code_word record).2]
  rfl

theorem parseLine_readable {record : Record} (hne : ∀ path ∈ record.paths, path ≠ [])
    (h : ∀ path ∈ record.paths, ' ' ∉ git.print path) :
    parseLine all (record.line git) = .ok (record.changes.map (Change.printed git)) := by
  have hword (path : List Char) (hpath : path ∈ record.paths) : words (git.print path) = [git.print path] := by
    obtain ⟨hprinted, hletters⟩ := git.printable path (hne path hpath)
    exact words_printable hletters hprinted (h path hpath)
  rw [parseLine, words_line]
  cases record with
  | modified path | added path | deleted path =>
    rw [Record.paths, List.flatMap_singleton, hword path (by simp [Record.paths])]
    rfl
  | renamed similarity oldPath newPath =>
    have hpaths : ([oldPath, newPath].flatMap fun path => words (git.print path)) = [git.print oldPath, git.print newPath] := by
      rw [List.flatMap_cons, List.flatMap_singleton, hword oldPath (by simp [Record.paths]),
        hword newPath (by simp [Record.paths])]
      rfl
    rw [Record.paths, hpaths]
    rfl

theorem weight_printed (record : Record) :
    weight (record.changes.map (Change.printed git)) = (record.paths.map fun path => (git.print path).length).sum := by
  cases record <;> rfl

theorem parseLine_bound {record : Record} {changes : List Change}
    (h : parseLine all (record.line git) = .ok changes) :
    weight changes ≤ weight (record.changes.map (Change.printed git)) ∧ ((∃ path ∈ record.paths, ' ' ∈ git.print path) →
      weight changes < weight (record.changes.map (Change.printed git))) := by
  have hle := parseLine_weight (words_line record) h
  have hwords (paths : List (List Char)) : ((paths.flatMap fun path => words (git.print path)).map List.length).sum =
      (paths.map fun path => (git.print path).countP fun c => !isSpace c).sum := by
    induction paths with
    | nil => rfl
    | cons path paths ih =>
      rw [List.flatMap_cons, List.map_append, List.sum_append, sum_length_words, ih, List.map_cons, List.sum_cons]
  have hpath (path : List Char) := countP_printable (git.print path)
  rw [hwords] at hle
  rw [weight_printed]
  refine ⟨hle.trans (List.sum_le_sum fun path _ => (hpath path).1), ?_⟩
  rintro ⟨path, hmem, hspace⟩
  exact hle.trans_lt (List.sum_lt_sum _ _ (fun path _ => (hpath path).1) ⟨path, hmem, (hpath path).2 hspace⟩)

def statusChanges (git : Printing) (records : List Record) : List Change :=
  (records.flatMap Record.changes).map (Change.printed git)

theorem statusChanges_cons (record : Record) (records : List Record) :
    statusChanges git (record :: records) = record.changes.map (Change.printed git) ++ statusChanges git records := by
  rw [statusChanges, List.flatMap_cons, List.map_append, statusChanges]

theorem parseLines_readable {records : List Record} (hne : ∀ record ∈ records, ∀ path ∈ record.paths, path ≠ [])
    (h : ∀ record ∈ records, ∀ path ∈ record.paths, ' ' ∉ git.print path) :
    parseLines all (records.map (Record.line git)) = .ok (statusChanges git records) := by
  induction records with
  | nil => rfl
  | cons record records ih =>
    rw [List.forall_mem_cons] at hne h
    rw [List.map_cons, parseLines, parseLine_readable hne.1 h.1, ih hne.2 h.2, statusChanges_cons]
    rfl

theorem parseLines_bound {records : List Record} {changes : List Change}
    (h : parseLines all (records.map (Record.line git)) = .ok changes) :
    weight changes ≤ weight (statusChanges git records) ∧
      ((∃ record ∈ records, ∃ path ∈ record.paths, ' ' ∈ git.print path) →
        weight changes < weight (statusChanges git records)) := by
  induction records generalizing changes with
  | nil =>
    rw [← Except.ok.inj h]
    exact ⟨le_rfl, fun ⟨_, hmem, _⟩ => absurd hmem List.not_mem_nil⟩
  | cons record records ih =>
    rw [List.map_cons, parseLines] at h
    obtain ⟨first, hfirst, h⟩ := Py.bind_ok h
    obtain ⟨others, hothers, rfl⟩ := Py.map_ok h
    obtain ⟨hle, hlt⟩ := parseLine_bound hfirst
    obtain ⟨hle', hlt'⟩ := ih hothers
    rw [statusChanges_cons, weight_append, weight_append]
    refine ⟨Nat.add_le_add hle hle', ?_⟩
    rintro ⟨r, hr, hspace⟩
    rcases List.mem_cons.mp hr with rfl | hr
    · exact Nat.add_lt_add_of_lt_of_le (hlt hspace) hle'
    · exact Nat.add_lt_add_of_le_of_lt hle (hlt' ⟨r, hr, hspace⟩)

theorem isLineEnd_line {record : Record} (hne : ∀ path ∈ record.paths, path ≠ []) :
    ∀ c ∈ record.line git, isLineEnd c = false := by
  intro c hc
  rw [Record.line, List.mem_append, List.mem_flatMap] at hc
  rcases hc with hc | ⟨path, hpath, hc⟩
  · have hspace := (code_word record).2 c hc
    exact Bool.eq_false_iff.mpr fun h => absurd (isSpace_of_isLineEnd h) (by simp [hspace])
  · rcases List.mem_cons.mp hc with rfl | hc
    · decide
    · exact isLineEnd_printable ((git.printable path (hne path hpath)).2 c hc)

/-- Stripping the output takes white space from its last line only. -/
theorem words_barelines_output {records : List Record} (hne : ∀ record ∈ records, ∀ path ∈ record.paths, path ≠ []) :
    (barelines (strip (ended '\n' (records.map (Record.line git))))).map words =
      (records.map (Record.line git)).map words := by
  rcases List.eq_nil_or_concat' records with rfl | ⟨records, record, rfl⟩
  · rfl
  have hbegins (record : Record) (cs : List Char) : ∀ c ∈ (record.line git ++ cs).head?, isSpace c = false := by
    obtain ⟨hcode, hclean⟩ := code_word record
    obtain ⟨d, ds, hd⟩ := List.exists_cons_of_ne_nil hcode
    intro c hc
    rw [Record.line, hd] at hc
    exact hclean c (by rw [hd, ← Option.some.inj hc]; exact List.mem_cons_self)
  obtain ⟨b, hb, hlast⟩ := rstrip_append (record.line git)
  have hcore : rstrip (record.line git) ≠ [] := by
    intro hempty
    have hwords := words_rstrip (record.line git)
    rw [hempty, words_line] at hwords
    cases hwords
  have houtput : ended '\n' ((records ++ [record]).map (Record.line git)) =
      [] ++ ((ended '\n' (records.map (Record.line git)) ++ rstrip (record.line git)) ++ (b ++ ['\n'])) := by
    rw [List.map_append, ended_append, List.nil_append, List.append_assoc, ← List.append_assoc (rstrip _), hlast]
    simp [ended]
  have hclean : ∀ p ∈ records.map (Record.line git), ∀ c ∈ p, isLineEnd c = false :=
    List.forall_mem_map.mpr fun r hr => isLineEnd_line (hne r (List.mem_append_left _ hr))
  have hcleanLast : ∀ c ∈ rstrip (record.line git), isLineEnd c = false := fun c hc =>
    isLineEnd_line (hne record (by simp)) c (by rw [← hlast]; exact List.mem_append_left b hc)
  rw [houtput, strip_around, barelines_ended hclean hcleanLast, lastLine, if_neg hcore]
  · simp [words_rstrip]
  · exact fun c hc => absurd hc List.not_mem_nil
  · intro c hc
    rw [List.mem_append, List.mem_singleton] at hc
    rcases hc with hc | rfl
    · exact hb c hc
    · decide
  · cases records with
    | nil =>
      intro c hc
      have hprefix := hbegins record []
      rw [List.append_nil, ← hlast, List.head?_append_of_ne_nil _ hcore] at hprefix
      exact hprefix c hc
    | cons r records =>
      intro c hc
      rw [List.map_cons, ended_cons, List.append_assoc] at hc
      exact hbegins r _ c hc
  · intro c hc
    rw [List.getLast?_append_of_ne_nil _ hcore] at hc
    exact getLast?_rstrip _ c hc
  · simp [hcore]

/-! ## Reading the list of other paths -/

theorem weight_untracked (paths : List (List Char)) : weight (untrackedChanges paths) = (paths.map List.length).sum := by
  induction paths with
  | nil => rfl
  | cons path paths ih =>
    by_cases hpath : path = []
    · rw [untrackedChanges, List.filter_cons_of_neg (by simpa using hpath), ← untrackedChanges, ih, hpath]
      simp
    · rw [untrackedChanges, List.filter_cons_of_pos (by simpa using hpath), List.map_cons, weight, List.map_cons,
        List.sum_cons, List.map_cons, List.sum_cons, ← ih, weight, untrackedChanges]

theorem untrackedChanges_of_ne_nil {paths : List (List Char)} (h : ∀ path ∈ paths, path ≠ []) :
    untrackedChanges paths = paths.map (Change.mk ['A']) := by
  rw [untrackedChanges, List.filter_eq_self.mpr fun path hpath => by simpa using h path hpath]

theorem countP_ended {paths : List (List Char)} (h : ∀ path ∈ paths, ∀ c ∈ path, isLineEnd c = false) :
    (ended '\n' paths).countP (fun c => !isLineEnd c) = (paths.map List.length).sum := by
  induction paths with
  | nil => rfl
  | cons path paths ih =>
    rw [List.forall_mem_cons] at h
    have hpath : path.countP (fun c => !isLineEnd c) = path.length :=
      List.countP_eq_length.mpr fun c hc => by simp [h.1 c hc]
    rw [ended_cons, List.countP_append, List.countP_cons_of_neg (by decide), ih h.2, hpath, List.map_cons, List.sum_cons]

/-- Paths as they are printed, one on each line. -/
def PrintedPaths (paths : List (List Char)) : Prop := ∀ path ∈ paths, path ≠ [] ∧ Printable path

section

variable {paths : List (List Char)} (hpaths : PrintedPaths paths)
include hpaths

theorem barelines_untracked (hfirst : ∀ path ∈ paths.head?, ¬ [' '] <+: path)
    (hlast : ∀ path ∈ paths.getLast?, ¬ [' '] <:+ path) : barelines (strip (ended '\n' paths)) = paths := by
  rcases List.eq_nil_or_concat' paths with rfl | ⟨init, last, rfl⟩
  · rfl
  have hclean : ∀ path ∈ init ++ [last], ∀ c ∈ path, isLineEnd c = false :=
    fun path hpath c hc => isLineEnd_printable ((hpaths path hpath).2 c hc)
  have hne : last ≠ [] := (hpaths last (by simp)).1
  have houtput : ended '\n' (init ++ [last]) = [] ++ ((ended '\n' init ++ last) ++ ['\n']) := by
    rw [ended_append]
    simp [ended]
  have hspace (path : List Char) (hpath : path ∈ init ++ [last]) (c : Char) (hc : c ∈ path) (hnot : c ≠ ' ') :
      isSpace c = false := by
    rw [isSpace_printable ((hpaths path hpath).2 c hc), decide_eq_false_iff_not]
    exact hnot
  rw [houtput, strip_around, barelines_ended (fun path hpath => hclean path (by simp [hpath])) (hclean last (by simp)),
    lastLine, if_neg hne]
  · exact fun c hc => absurd hc List.not_mem_nil
  · simp [isSpace]
  · intro c hc
    cases init with
    | nil =>
      obtain ⟨d, ds, rfl⟩ := List.exists_cons_of_ne_nil hne
      obtain rfl := Option.some.inj hc
      refine hspace (d :: ds) (by simp) d List.mem_cons_self ?_
      rintro rfl
      exact hfirst (' ' :: ds) rfl (List.prefix_append [' '] ds)
    | cons path init =>
      obtain ⟨d, ds, rfl⟩ := List.exists_cons_of_ne_nil (hpaths path (by simp)).1
      obtain rfl := Option.some.inj hc
      refine hspace (d :: ds) (by simp) d List.mem_cons_self ?_
      rintro rfl
      exact hfirst (' ' :: ds) rfl (List.prefix_append [' '] ds)
  · intro c hc
    rw [List.getLast?_append_of_ne_nil _ hne] at hc
    refine hspace last (by simp) c (List.mem_of_getLast? hc) ?_
    rintro rfl
    refine hlast last (by simp) ?_
    obtain ⟨ds, hds⟩ := List.getLast?_eq_some_iff.mp hc
    exact ⟨ds, hds.symm⟩
  · simp [hne]

/-- Letters are lost where the list begins or ends with a space. -/
theorem weight_barelines : weight (untrackedChanges (barelines (strip (ended '\n' paths)))) ≤ (paths.map List.length).sum ∧
    ((∃ path ∈ paths.head?, [' '] <+: path) ∨ (∃ path ∈ paths.getLast?, [' '] <:+ path) →
      weight (untrackedChanges (barelines (strip (ended '\n' paths)))) < (paths.map List.length).sum) := by
  have hclean : ∀ path ∈ paths, ∀ c ∈ path, isLineEnd c = false :=
    fun path hpath c hc => isLineEnd_printable ((hpaths path hpath).2 c hc)
  rw [weight_untracked, sum_length_barelines, ← countP_ended hclean]
  refine ⟨(strip_sublist _).countP_le, ?_⟩
  rintro (⟨path, hpath, ds, rfl⟩ | ⟨path, hpath, ds, rfl⟩)
  · obtain ⟨others, rfl⟩ := List.head?_eq_some_iff.mp hpath
    have hstrip : strip (ended '\n' (([' '] ++ ds) :: others)) = strip (ds ++ '\n' :: ended '\n' others) := by
      rw [ended_cons]
      exact congrArg rstrip (List.dropWhile_cons_of_pos (by decide))
    rw [hstrip]
    refine (strip_sublist _).countP_le.trans_lt ?_
    rw [ended_cons, List.singleton_append, List.cons_append, List.countP_cons_of_pos (by decide)]
    exact Nat.lt_succ_self _
  · obtain ⟨others, rfl⟩ := List.getLast?_eq_some_iff.mp hpath
    have hended : ended '\n' (others ++ [ds ++ [' ']]) = (ended '\n' others ++ ds) ++ [' '] ++ ['\n'] := by
      rw [ended_append]
      simp [ended]
    rw [hended, strip_append_space (by decide), strip_append_space (by decide)]
    refine (strip_sublist _).countP_le.trans_lt ?_
    generalize ended '\n' others ++ ds = lead
    have hcount : (lead ++ [' '] ++ ['\n']).countP (fun c => !isLineEnd c) = lead.countP (fun c => !isLineEnd c) + 1 := by
      rw [List.countP_append, List.countP_append]
      rfl
    rw [hcount]
    exact Nat.lt_succ_self _

end

/-! ## Reading a report -/

section

variable {shell : Shell} {dir : List Char} {report : Report}

def Report.printed (git : Printing) (report : Report) : List Change := report.changes.map (Change.printed git)

theorem Report.printed_eq (report : Report) : report.printed git =
    statusChanges git report.records ++ (report.untracked.map git.print).map (Change.mk ['A']) := by
  rw [Report.printed, Report.changes, List.map_append, statusChanges, List.map_map, List.map_map]
  rfl

theorem Report.printedPaths (report : Report) : PrintedPaths (report.untracked.map git.print) :=
  List.forall_mem_map.mpr fun path hpath => git.printable path (report.untracked_ne_nil path hpath)

theorem run_ok {cmd out : List Char} (h : shell cmd dir = ⟨0, out, []⟩) : run shell cmd dir = .ok (strip out) := by
  rw [run, h]
  rfl

/-- A readable report is read as it is; of another one letters are lost, if it is read at all. -/
theorem getChangesInRepo_spec (h : Reports git shell dir report) :
    (Readable git report → getChangesInRepo shell dir = .ok (report.printed git)) ∧
      ∀ changes, getChangesInRepo shell dir = .ok changes → weight changes ≤ weight (report.printed git) ∧
        (¬ Readable git report → weight changes < weight (report.printed git)) := by
  rcases h with ⟨href, hnone⟩ | ⟨ref, hne, href, hdiff, hothers⟩
  · have hread : getChangesInRepo shell dir = .ok (report.printed git) := by
      rw [getChangesInRepo, href, Report.printed, hnone]
      rfl
    rw [Report.changes, List.append_eq_nil_iff, List.map_eq_nil_iff, List.flatMap_eq_nil_iff] at hnone
    have hreadable : Readable git report := by
      refine ⟨fun record hrecord => ?_, by rw [hnone.2]; exact nofun, by rw [hnone.2]; exact nofun⟩
      have hempty := hnone.1 record hrecord
      cases record <;> cases hempty
    refine ⟨fun _ => hread, fun changes hchanges => ?_⟩
    rw [← Except.ok.inj (hread.symm.trans hchanges)]
    exact ⟨le_rfl, fun hnot => absurd hreadable hnot⟩
  · have hlines (all : List (List Char)) :
        parseLines all (barelines (strip (ended '\n' (report.records.map (Record.line git))))) =
          parseLines all (report.records.map (Record.line git)) :=
      parseLines_congr (words_barelines_output report.paths_ne_nil)
    have hread : getChangesInRepo shell dir =
        (parseLines (barelines (strip (ended '\n' (report.records.map (Record.line git)))))
          (report.records.map (Record.line git))).map
            (· ++ untrackedChanges (barelines (strip (ended '\n' (report.untracked.map git.print))))) := by
      have hsome : (some ref).filter (· ≠ []) = some ref := by simp [hne]
      rw [getChangesInRepo, href, Except.bind, hsome]
      dsimp only
      rw [run_ok hdiff, Except.bind, hlines, run_ok hothers]
      rfl
    have hpaths : PrintedPaths (report.untracked.map git.print) := report.printedPaths
    have hsum : ((report.untracked.map git.print).map List.length).sum =
        weight ((report.untracked.map git.print).map (Change.mk ['A'])) := by
      simp [weight, Function.comp_def]
    have hlost := weight_barelines hpaths
    rw [hsum] at hlost
    constructor
    · intro hreadable
      have huntracked : barelines (strip (ended '\n' (report.untracked.map git.print))) = report.untracked.map git.print := by
        refine barelines_untracked hpaths ?_ ?_
        · simpa using hreadable.first
        · simpa using hreadable.last
      rw [hread, parseLines_readable report.paths_ne_nil hreadable.records, huntracked,
        untrackedChanges_of_ne_nil fun path hpath => (hpaths path hpath).1, Report.printed_eq]
      rfl
    · intro changes hchanges
      rw [hread] at hchanges
      obtain ⟨parsed, hparsed, rfl⟩ := Py.map_ok hchanges
      obtain ⟨hle, hlt⟩ := parseLines_bound hparsed
      rw [Report.printed_eq, weight_append, weight_append]
      refine ⟨Nat.add_le_add hle hlost.1, fun hnot => ?_⟩
      by_cases hrecords : ∃ record ∈ report.records, ∃ path ∈ record.paths, ' ' ∈ git.print path
      · exact Nat.add_lt_add_of_lt_of_le (hlt hrecords) hlost.1
      · refine Nat.add_lt_add_of_le_of_lt hle (hlost.2 ?_)
        by_contra hends
        obtain ⟨hfirst, hlast⟩ := not_or.mp hends
        refine hnot ⟨?_, ?_, ?_⟩
        · intro record hrecord path hpath hspace
          exact hrecords ⟨record, hrecord, path, hpath, hspace⟩
        · intro path hpath hspace
          exact hfirst ⟨git.print path, by rw [List.head?_map, hpath]; rfl, hspace⟩
        · intro path hpath hspace
          exact hlast ⟨git.print path, by rw [List.getLast?_map, hpath]; rfl, hspace⟩

end

/-! ## The changes of a workspace -/

section

variable {shell : Shell} {cwd : List Char} {workspace : Workspace}

/-- No repository is hidden. -/
def Workspace.Visible (workspace : Workspace) : Prop := ∀ repo ∈ workspace.repos, ¬ ['.'] <+: repo.name

def Workspace.outside (workspace : Workspace) : List Change :=
  workspace.report.changes.filter fun change => ∀ repo ∈ workspace.repos, ¬ Inside repo.name change.path

/-- The changes of repositories, as `read` has them, under their directories. -/
def nested (read : Repo → List Change) (repos : List Repo) : List Change :=
  repos.flatMap fun repo => (read repo).map (Change.within repo.name)

theorem nested_cons (read : Repo → List Change) (repo : Repo) (repos : List Repo) :
    nested read (repo :: repos) = (read repo).map (Change.within repo.name) ++ nested read repos := rfl

theorem expected_eq : workspace.expected git =
    workspace.outside.map (Change.printed git) ++ nested (fun repo => repo.report.printed git) workspace.repos := rfl

theorem globGit_eq (h : workspace.Visible) : globGit (workspace.repos.map Repo.name) = workspace.repos.map Repo.name := by
  refine List.filter_eq_self.mpr ?_
  simpa [Workspace.Visible] using h

/-- What the script takes for the changes of a repository. -/
def readChanges (shell : Shell) (cwd : List Char) (repo : Repo) : List Change :=
  (getChangesInRepo shell (inDir cwd repo.name)).toOption.getD []

theorem gitDirChanges_ok {repos : List Repo} {others : List Change}
    (h : gitDirChanges shell cwd (repos.map Repo.name) = .ok others) :
    (∀ repo ∈ repos, getChangesInRepo shell (inDir cwd repo.name) = .ok (readChanges shell cwd repo)) ∧
      others = nested (readChanges shell cwd) repos := by
  induction repos generalizing others with
  | nil => exact ⟨nofun, (Except.ok.inj h).symm⟩
  | cons repo repos ih =>
    rw [List.map_cons, gitDirChanges] at h
    obtain ⟨changes, hchanges, h⟩ := Py.bind_ok h
    obtain ⟨rest, hrest, rfl⟩ := Py.map_ok h
    obtain ⟨hread, rfl⟩ := ih hrest
    have hrepo : readChanges shell cwd repo = changes := by
      rw [readChanges, hchanges]
      rfl
    refine ⟨List.forall_mem_cons.mpr ⟨by rw [hrepo]; exact hchanges, hread⟩, ?_⟩
    rw [nested_cons, hrepo]

theorem gitDirChanges_readable {repos : List Repo}
    (h : ∀ repo ∈ repos, getChangesInRepo shell (inDir cwd repo.name) = .ok (repo.report.printed git)) :
    gitDirChanges shell cwd (repos.map Repo.name) = .ok (nested (fun repo => repo.report.printed git) repos) := by
  induction repos with
  | nil => rfl
  | cons repo repos ih =>
    rw [List.forall_mem_cons] at h
    rw [List.map_cons, gitDirChanges, h.1, Except.bind, ih h.2]
    rfl

/-- Up to their order, the changes are those outside of the directories and those of the repositories. -/
theorem attributed_iff_perm (hvisible : workspace.Visible) : Attributed git shell cwd workspace ↔
    ∃ changes others, getChangesInRepo shell cwd = .ok changes ∧
      gitDirChanges shell cwd (workspace.repos.map Repo.name) = .ok others ∧
      ((changes.filter fun change => ¬ (workspace.repos.map Repo.name).any (· <+: change.path)) ++ others).Perm
        (workspace.expected git) := by
  unfold Attributed getGitChanges
  rw [globGit_eq hvisible]
  constructor
  · rintro ⟨result, hresult, -, hperm⟩
    obtain ⟨changes, hchanges, hresult⟩ := Py.bind_ok hresult
    obtain ⟨others, hothers, rfl⟩ := Py.map_ok hresult
    exact ⟨changes, others, hchanges, hothers, (List.mergeSort_perm _ _).symm.trans hperm⟩
  · rintro ⟨changes, others, hchanges, hothers, hperm⟩
    rw [hchanges, Except.bind, hothers]
    refine ⟨_, rfl, ?_, (List.mergeSort_perm _ _).trans hperm⟩
    have htrans (a b c : Change) (hab : decide (a.path ≤ b.path) = true) (hbc : decide (b.path ≤ c.path) = true) :
        decide (a.path ≤ c.path) = true := decide_eq_true ((of_decide_eq_true hab).trans (of_decide_eq_true hbc))
    have htotal (a b : Change) : (decide (a.path ≤ b.path) || decide (b.path ≤ a.path)) = true := by
      simpa using le_total a.path b.path
    exact (List.pairwise_mergeSort htrans htotal _).imp fun h => of_decide_eq_true h

/-! ## Which changes are attributed -/

/-- The changes below a directory. -/
def isBelow (name : List Char) (change : Change) : Bool := name ++ ['/'] <+: change.path

/-- The letters of the path behind the directory. -/
def lettersBelow (name : List Char) (changes : List Change) : ℕ :=
  ((changes.filter (isBelow name)).map fun change => change.path.length - (name.length + 1)).sum

theorem lettersBelow_append (name : List Char) (changes others : List Change) :
    lettersBelow name (changes ++ others) = lettersBelow name changes + lettersBelow name others := by
  rw [lettersBelow, List.filter_append, List.map_append, List.sum_append, lettersBelow, lettersBelow]

theorem isBelow_within {name other : List Char} (hname : '/' ∉ name) (hother : '/' ∉ other) (change : Change) :
    isBelow name (change.within other) = true ↔ name = other := by
  rw [isBelow, decide_eq_true_eq, Change.within]
  constructor
  · rintro ⟨rest, hrest⟩
    rw [List.append_assoc] at hrest
    exact (append_stop_inj hname hother hrest).1
  · rintro rfl
    exact ⟨change.path, by simp⟩

theorem lettersBelow_within {name other : List Char} (hname : '/' ∉ name) (hother : '/' ∉ other) (changes : List Change) :
    lettersBelow name (changes.map (Change.within other)) = if name = other then weight changes else 0 := by
  by_cases heq : name = other
  · have hall : (changes.map (Change.within other)).filter (isBelow name) = changes.map (Change.within other) :=
      List.filter_eq_self.mpr (List.forall_mem_map.mpr fun change _ => (isBelow_within hname hother change).mpr heq)
    rw [if_pos heq, lettersBelow, hall, List.map_map, weight]
    refine congrArg List.sum (List.map_congr_left fun change _ => ?_)
    rw [Function.comp_apply, Change.within, List.length_append, List.length_cons, heq]
    omega
  · have hnone : (changes.map (Change.within other)).filter (isBelow name) = [] :=
      List.filter_eq_nil_iff.mpr (List.forall_mem_map.mpr fun change _ =>
        mt (isBelow_within hname hother change).mp heq)
    rw [if_neg heq, lettersBelow, hnone]
    rfl

/-- Below a directory are the changes of its repository only. -/
theorem lettersBelow_nested {read : Repo → List Change} {repos : List Repo} (hnodup : (repos.map Repo.name).Nodup)
    {repo : Repo} (hrepo : repo ∈ repos) : lettersBelow repo.name (nested read repos) = weight (read repo) := by
  have hothers (others : List Repo) (hnot : repo.name ∉ others.map Repo.name) :
      lettersBelow repo.name (nested read others) = 0 := by
    induction others with
    | nil => rfl
    | cons other others ih =>
      obtain ⟨hne, hnot⟩ := not_or.mp fun h => hnot (List.mem_cons.mpr h)
      rw [nested_cons, lettersBelow_append, lettersBelow_within repo.name_file other.name_file, if_neg hne, ih hnot]
  induction repos with
  | nil => exact absurd hrepo List.not_mem_nil
  | cons other others ih =>
    obtain ⟨hnot, hnodup⟩ := List.nodup_cons.mp hnodup
    rw [nested_cons, lettersBelow_append, lettersBelow_within repo.name_file other.name_file]
    rcases List.mem_cons.mp hrepo with rfl | hrepo
    · rw [if_pos rfl, hothers others hnot, Nat.add_zero]
    · have hne : repo.name ≠ other.name := fun h => hnot (h ▸ List.mem_map_of_mem hrepo)
      rw [if_neg hne, Nat.zero_add, ih hnodup hrepo]

section

variable {shell : Shell} {cwd : List Char} {workspace : Workspace} (hreports : ReportsAll git shell cwd workspace)
include hreports

/-- Every report is read as it is, and the names tell which changes are inside. -/
theorem attributed_of_readable (hvisible : workspace.Visible) (houter : Readable git workspace.report)
    (hinner : ∀ repo ∈ workspace.repos, Readable git repo.report) (hseparated : Separated git workspace) :
    Attributed git shell cwd workspace := by
  have hothers := gitDirChanges_readable fun repo hrepo =>
    (getChangesInRepo_spec (hreports.inner repo hrepo)).1 (hinner repo hrepo)
  refine (attributed_iff_perm hvisible).mpr ⟨_, _, (getChangesInRepo_spec hreports.outer).1 houter, hothers, ?_⟩
  have hfilter : ((workspace.report.printed git).filter fun change =>
      ¬ (workspace.repos.map Repo.name).any (· <+: change.path)) = workspace.outside.map (Change.printed git) := by
    rw [Report.printed, List.filter_map, Workspace.outside]
    refine congrArg (List.map _) (List.filter_congr fun change hchange => ?_)
    have hiff := hseparated change hchange
    have hinside : (∀ repo ∈ workspace.repos, ¬ Inside repo.name change.path) ↔
        ¬ ∃ repo ∈ workspace.repos, Inside repo.name change.path := by simp
    rw [Function.comp_apply, decide_eq_decide, hinside, ← hiff]
    refine not_congr ?_
    rw [List.any_map, List.any_eq_true]
    exact exists_congr fun repo => and_congr_right fun _ => decide_eq_true_iff
  rw [hfilter, expected_eq]

section

variable {changes others : List Change} (hchanges : getChangesInRepo shell cwd = .ok changes)
  (hothers : gitDirChanges shell cwd (workspace.repos.map Repo.name) = .ok others)
  (hperm : ((changes.filter fun change => ¬ (workspace.repos.map Repo.name).any (· <+: change.path)) ++ others).Perm
    (workspace.expected git))
include hothers hperm

omit hreports in
/-- The letters below a directory: what is read there is what is expected there. -/
theorem weight_read {repo : Repo} (hrepo : repo ∈ workspace.repos) : weight (readChanges shell cwd repo) =
    lettersBelow repo.name (workspace.outside.map (Change.printed git)) + weight (repo.report.printed git) := by
  obtain ⟨-, rfl⟩ := gitDirChanges_ok hothers
  have hkept : (changes.filter fun change => ¬ (workspace.repos.map Repo.name).any (· <+: change.path)).filter
      (isBelow repo.name) = [] := by
    refine List.filter_eq_nil_iff.mpr fun change hchange hbelow => ?_
    have hnot := of_decide_eq_true (List.mem_filter.mp hchange).2
    refine hnot (List.any_eq_true.mpr ⟨repo.name, List.mem_map_of_mem hrepo, decide_eq_true ?_⟩)
    exact (List.prefix_append repo.name ['/']).trans (of_decide_eq_true hbelow)
  have hletters : lettersBelow repo.name ((changes.filter fun change =>
      ¬ (workspace.repos.map Repo.name).any (· <+: change.path)) ++ nested (readChanges shell cwd) workspace.repos) =
      lettersBelow repo.name (workspace.expected git) :=
    ((hperm.filter (isBelow repo.name)).map _).sum_eq
  rw [lettersBelow_append, expected_eq, lettersBelow_append, lettersBelow_nested workspace.distinct hrepo,
    lettersBelow_nested workspace.distinct hrepo, lettersBelow, hkept] at hletters
  exact (Nat.zero_add _).symm.trans hletters

theorem inner_readable {repo : Repo} (hrepo : repo ∈ workspace.repos) :
    Readable git repo.report ∧ lettersBelow repo.name (workspace.outside.map (Change.printed git)) = 0 := by
  have hweight := weight_read hothers hperm hrepo
  obtain ⟨hle, hlt⟩ := (getChangesInRepo_spec (hreports.inner repo hrepo)).2 _ ((gitDirChanges_ok hothers).1 repo hrepo)
  refine ⟨?_, by omega⟩
  by_contra hnot
  have hless := hlt hnot
  omega

/-- What begins with the name of a repository is inside of one. -/
theorem inside_of_prefix {change : Change} (hchange : change ∈ workspace.report.changes)
    (hbegins : ∃ repo ∈ workspace.repos, repo.name <+: git.print change.path) :
    ∃ repo ∈ workspace.repos, Inside repo.name change.path := by
  by_contra hnone
  have houtside : change.printed git ∈ workspace.outside.map (Change.printed git) := by
    refine List.mem_map_of_mem (List.mem_filter.mpr ⟨hchange, decide_eq_true ?_⟩)
    exact fun repo hrepo hinside => hnone ⟨repo, hrepo, hinside⟩
  have hraw := hperm.symm.subset (List.mem_append_left _ houtside)
  rcases List.mem_append.mp hraw with hkept | hnested
  · obtain ⟨repo, hrepo, hname⟩ := hbegins
    have hnot := of_decide_eq_true (List.mem_filter.mp hkept).2
    exact hnot (List.any_eq_true.mpr ⟨repo.name, List.mem_map_of_mem hrepo, decide_eq_true hname⟩)
  · rw [(gitDirChanges_ok hothers).2] at hnested
    obtain ⟨repo, hrepo, hmem⟩ := List.mem_flatMap.mp hnested
    obtain ⟨inner, -, hinner⟩ := List.mem_map.mp hmem
    have hpath : git.print change.path = repo.name ++ ['/'] ++ inner.path := by
      have heq := congrArg Change.path hinner
      simpa [Change.within, Change.printed] using heq.symm
    -- of the path only the directory itself is left
    have hempty : inner.path = [] := by
      have hzero := (inner_readable hreports hothers hperm hrepo).2
      have hmem : (change.printed git).path.length - (repo.name.length + 1) ∈
          ((workspace.outside.map (Change.printed git)).filter (isBelow repo.name)).map fun change =>
            change.path.length - (repo.name.length + 1) := by
        refine List.mem_map_of_mem (List.mem_filter.mpr ⟨houtside, decide_eq_true ?_⟩)
        exact ⟨inner.path, hpath.symm⟩
      have hle := List.le_sum_of_mem hmem
      rw [← lettersBelow, hzero, Change.printed, hpath, List.length_append, List.length_append, List.length_singleton] at hle
      exact List.eq_nil_of_length_eq_zero (by omega)
    rw [hempty, List.append_nil] at hpath
    rcases git.quoted change.path with hplain | ⟨lead, hquote⟩
    · exact hnone ⟨repo, hrepo, Or.inr ⟨[], by rw [← hplain, hpath, List.append_nil]⟩⟩
    · have hlast := List.append_inj_right' (hquote.trans hpath) rfl
      exact absurd hlast (by decide)

include hchanges
omit hothers

/-- What is inside of a repository begins with the name of one, where the outer report is read as it is. -/
theorem prefix_of_inside (houter : Readable git workspace.report) {change : Change}
    (hchange : change ∈ workspace.report.changes) (hinside : ∃ repo ∈ workspace.repos, Inside repo.name change.path) :
    ∃ repo ∈ workspace.repos, repo.name <+: git.print change.path := by
  by_contra hnone
  have hread := (getChangesInRepo_spec hreports.outer).1 houter
  obtain rfl : changes = workspace.report.printed git := Except.ok.inj (hchanges.symm.trans hread)
  have hkept : change.printed git ∈ (workspace.report.printed git).filter fun change =>
      ¬ (workspace.repos.map Repo.name).any (· <+: change.path) := by
    refine List.mem_filter.mpr ⟨List.mem_map_of_mem hchange, decide_eq_true fun hany => hnone ?_⟩
    obtain ⟨name, hname, hprefix⟩ := List.any_eq_true.mp hany
    obtain ⟨repo, hrepo, rfl⟩ := List.mem_map.mp hname
    exact ⟨repo, hrepo, of_decide_eq_true hprefix⟩
  rcases List.mem_append.mp (hperm.subset (List.mem_append_left _ hkept)) with houtside | hnested
  · obtain ⟨other, hother, heq⟩ := List.mem_map.mp houtside
    have hpath : other.path = change.path := git.injective (congrArg Change.path heq)
    obtain ⟨repo, hrepo, hin⟩ := hinside
    exact of_decide_eq_true (List.mem_filter.mp hother).2 repo hrepo (hpath ▸ hin)
  · obtain ⟨repo, hrepo, hmem⟩ := List.mem_flatMap.mp hnested
    obtain ⟨inner, -, hinner⟩ := List.mem_map.mp hmem
    exact hnone ⟨repo, hrepo, _, congrArg Change.path hinner⟩

end

end

end

end

/-! ## A concrete git -/

def isOrdinary (c : Char) : Bool := 32 ≤ c.toNat && c.toNat ≤ 126 && c ≠ '"' && c ≠ '\\'

/-- Ordinary paths are printed as they are; of the others it is enough that a number in quotes stands for them. -/
def printPath (path : List Char) : List Char :=
  if path.all isOrdinary then path
  else '"' :: (Nat.toDigits 10 (Encodable.encode (path.map Char.toNat)) ++ ['"'])

theorem printPath_injective : Function.Injective printPath := by
  have hquote (path digits : List Char) (h : path.all isOrdinary = true) : path ≠ '"' :: digits := by
    rintro rfl
    exact absurd (List.all_eq_true.mp h '"' List.mem_cons_self) (by decide)
  intro p q h
  unfold printPath at h
  split_ifs at h with hp hq hq
  · exact h
  · exact absurd h (hquote p _ hp)
  · exact absurd h.symm (hquote q _ hq)
  · have hdigits := List.append_inj_left' (List.cons.inj h).2 rfl
    have hcode := congrArg natural hdigits
    rw [natural_toDigits, natural_toDigits, Option.some.injEq] at hcode
    exact List.map_injective_iff.mpr (fun a b => Char.toNat_inj.mp) (Encodable.encode_injective hcode)

def plainGit : Printing where
  print := printPath
  injective := printPath_injective
  printable path hpath := by
    unfold printPath
    split_ifs with hall
    · refine ⟨hpath, fun c hc => ?_⟩
      have hc := List.all_eq_true.mp hall c hc
      simp only [isOrdinary, Bool.and_eq_true, decide_eq_true_eq] at hc
      exact hc.1.1
    · refine ⟨List.cons_ne_nil _ _, fun c hc => ?_⟩
      rw [List.mem_cons, List.mem_append, List.mem_singleton] at hc
      rcases hc with rfl | hc | rfl
      · decide
      · have hdigit := isDigit_of_mem_toDigits _ c hc
        have hrange : 48 ≤ c.toNat ∧ c.toNat ≤ 57 := by simpa [Char.isDigit, UInt32.le_iff_toNat_le] using hdigit
        omega
      · decide
  quoted path := by
    unfold printPath
    split_ifs
    · exact .inl rfl
    · exact .inr ⟨'"' :: Nat.toDigits 10 (Encodable.encode (path.map Char.toNat)), rfl⟩

/-- A workspace with one changed file. -/
def oneChange (path : List Char) (h : path ≠ []) : Workspace where
  report := ⟨[.modified path], [], by simpa [Record.paths] using h, nofun⟩
  repos := []
  distinct := List.nodup_nil

/-- All refs are there, and one file was changed. -/
def oneChangeShell (path : List Char) : Shell := fun cmd _ =>
  if cmd = untrackedCommand then ⟨0, [], []⟩
  else if cmd = diffCommand ['r'] then ⟨0, "M\t".toList ++ path ++ ['\n'], []⟩
  else ⟨0, ['r'], []⟩

theorem reportsAll_oneChange (path : List Char) (h : path ≠ []) (hprint : printPath path = path) :
    ReportsAll plainGit (oneChangeShell path) "/w".toList (oneChange path h) := by
  refine ⟨.inr ⟨['r'], List.cons_ne_nil _ _, rfl, ?_, rfl⟩, nofun⟩
  have hline : ended '\n' ([Record.modified path].map (Record.line plainGit)) = "M\t".toList ++ path ++ ['\n'] := by
    have hprinted : plainGit.print path = path := hprint
    simp [ended, Record.line, Record.code, Record.paths, hprinted]
  have hstatus : diffCommand ['r'] ≠ untrackedCommand := by decide
  rw [oneChange, hline, oneChangeShell, if_neg hstatus, if_pos rfl]

end GitChanges

end OpenHands
