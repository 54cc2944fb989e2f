import Mathlib.Data.List.Basic
import OpenHandsSWE.Lib.Runs

/-! The script that puts the gold tests in place and runs them: what the checkout and the test patch leave of
the tree of a model patch. -/

namespace OpenHands.EvalScript

/-- The contents of the files of a working tree. -/
abbrev Tree := String → Option String

/-- What a patch does to one file; an edit answers `none` where its hunks do not match. -/
inductive Change where
  | add (path content : String)
  | modify (path : String) (edit : String → Option String)
  | delete (path : String) (isRemoved : String → Bool)
  | rename (source target : String) (edit : String → Option String)

namespace Change

def source? : Change → Option String
  | .add _ _ => none
  | .modify path _ | .delete path _ | .rename path _ _ => some path

def target? : Change → Option String
  | .delete _ _ => none
  | .add path _ | .modify path _ | .rename _ path _ => some path

def creates? : Change → Option String
  | .add path _ | .rename _ path _ => some path
  | _ => none

def removes? : Change → Option String
  | .delete path _ | .rename path _ _ => some path
  | _ => none

/-- The `--- ` side of the change. -/
def sourceFile (c : Change) : String := c.source?.elim "/dev/null" ("a/" ++ ·)

/-- The files that the change reads are there and match. -/
def fits (tree : Tree) : Change → Bool
  | .add _ _ => true
  | .modify path edit | .rename path _ edit => ((tree path).bind edit).isSome
  | .delete path isRemoved => (tree path).any isRemoved

def newContent (tree : Tree) : Change → Option String
  | .add _ content => some content
  | .modify path edit | .rename path _ edit => (tree path).bind edit
  | .delete _ _ => none

end Change

/-- A patch has one change for each file that it reads and one for each that it writes. -/
structure TestPatch where
  changes : List Change
  sources_nodup : (changes.filterMap Change.source?).Nodup
  targets_nodup : (changes.filterMap Change.target?).Nodup

namespace TestPatch
variable (patch : TestPatch)

def sources : List String := patch.changes.filterMap Change.source?

def targets : List String := patch.changes.filterMap Change.target?

def created : List String := patch.changes.filterMap Change.creates?

def removed : List String := patch.changes.filterMap Change.removes?

def touched : List String := patch.sources ++ patch.targets

/-- Every change fits, and no file is where a new one goes but those that the patch takes away. -/
def Applies (tree : Tree) : Prop :=
  (∀ c ∈ patch.changes, c.fits tree = true) ∧ ∀ path ∈ patch.created, tree path = none ∨ path ∈ patch.removed

instance (tree : Tree) : Decidable (patch.Applies tree) := inferInstanceAs (Decidable (_ ∧ _))

def apply (tree : Tree) : Tree := fun path =>
  match patch.changes.find? fun c => c.target? == some path with
  | some c => c.newContent tree
  | none => if path ∈ patch.sources then none else tree path

end TestPatch

/-- The files of a patch that are not new. -/
def getModifiedFiles (patch : TestPatch) : List String :=
  let sourceFiles := (patch.changes.map Change.sourceFile).filter (· != "/dev/null")
  (sourceFiles.filter fun x => x.startsWith "a/").map fun x => String.ofList (x.toList.drop 2)

inductive Command where
  | shell (text : String)
  | gitCheckout (commit : String) (paths : List String)
  | gitApply (patch : TestPatch)
  | test (text : String)

structure Specs where
  testCmd : String
  evalCommands : List String := []
  install : Option String := none
  customTestPatch : Option TestPatch := none
  fixedPatchCommands : List String := []

def startTestOutput : String := ">>>>> Start Test Output"

def endTestOutput : String := ">>>>> End Test Output"

def testCommands (instanceId : String) (specs : Specs) (testDirectives : List String) : List String :=
  if instanceId = "django__django-10097" then
    ["DJANGO_SKIP_GENERIC_INLINE_ADMIN=1 && ./tests/runtests.py --verbosity 2 --settings=test_sqlite --parallel 1",
      "DJANGO_SKIP_GENERIC_INLINE_ADMIN= && ./tests/runtests.py --verbosity 2 --settings=test_sqlite --parallel 1 generic_inline_admin.tests "]
  else [" ".intercalate (specs.testCmd :: testDirectives)]

def makeEvalScriptListPy (instanceId : String) (specs : Specs) (testDirectives : List String)
    (envName repoDirectory baseCommit : String) (testPatch : TestPatch) : List Command :=
  let resetTestsCommand := Command.gitCheckout baseCommit (getModifiedFiles testPatch)
  [.shell "source /opt/miniconda3/bin/activate", .shell ("conda activate " ++ envName), .shell ("cd " ++ repoDirectory)]
    ++ specs.evalCommands.map .shell
    ++ [.shell ("git config --global --add safe.directory " ++ repoDirectory), .shell ("cd " ++ repoDirectory),
      .shell "git status", .shell "git show", .shell ("git -c core.fileMode=false diff " ++ baseCommit),
      .shell "source /opt/miniconda3/bin/activate", .shell ("conda activate " ++ envName)]
    ++ specs.install.toList.map .shell
    ++ [resetTestsCommand, .gitApply testPatch]
    ++ specs.customTestPatch.toList.map .gitApply
    ++ specs.fixedPatchCommands.map .shell
    ++ [.shell (": '" ++ startTestOutput ++ "'")]
    ++ (testCommands instanceId specs testDirectives).map .test
    ++ [.shell (": '" ++ endTestOutput ++ "'"), resetTestsCommand]

/-- The paths of a commit, restored if it has them all. -/
def gitCheckout (commit : Tree) (paths : List String) (tree : Tree) : Tree :=
  if ∀ path ∈ paths, (commit path).isSome then fun path => if path ∈ paths then commit path else tree path else tree

/-- A command that fails leaves the files as they are, and the script goes on. -/
def exec (commits : String → Tree) (tree : Tree) : Command → Tree
  | .shell _ | .test _ => tree
  | .gitCheckout commit paths => gitCheckout (commits commit) paths tree
  | .gitApply patch => if patch.Applies tree then patch.apply tree else tree

/-- Every file of the test patch is as in the base tree with the patch, and every other as the model left it. -/
def GoldTests (base model : Tree) (patch : TestPatch) (tree : Tree) : Prop :=
  (∀ path ∈ patch.touched, tree path = patch.apply base path) ∧ ∀ path ∉ patch.touched, tree path = model path

section
variable {base model tree : Tree} {patch : TestPatch} {path : String}

theorem getModifiedFiles_eq : getModifiedFiles patch = patch.sources := by
  unfold getModifiedFiles TestPatch.sources
  dsimp only
  induction patch.changes with
  | nil => rfl
  | cons c changes ih =>
    rcases hsource : c.source? with - | path
    · have hfile : c.sourceFile = "/dev/null" := by rw [Change.sourceFile, hsource]; rfl
      rw [List.map_cons, List.filter_cons_of_neg (by simp [hfile]), List.filterMap_cons_none hsource, ih]
    · have hfile : c.sourceFile = "a/" ++ path := by rw [Change.sourceFile, hsource]; rfl
      have hne : ("a/" ++ path != "/dev/null") = true := by
        rw [bne_iff_ne]
        intro h
        have := congrArg String.toList h
        simp at this
      have hstarts : ("a/" ++ path).startsWith "a/" = true := by
        simp
      have hpath : String.ofList (("a/" ++ path).toList.drop 2) = path := by simp
      rw [List.map_cons, hfile, List.filter_cons_of_pos (p := (· != "/dev/null")) hne,
        List.filter_cons_of_pos (p := fun (x : String) => x.startsWith "a/") hstarts, List.map_cons, hpath, ih,
        List.filterMap_cons_some hsource]

theorem source_of_fits {c : Change} (h : c.source? = some path) (hfits : c.fits tree = true) : (tree path).isSome = true := by
  rcases htree : tree path with - | content
  · cases c <;> simp_all [Change.source?, Change.fits]
  · rfl

theorem mem_sources : path ∈ patch.sources ↔ ∃ c ∈ patch.changes, c.source? = some path := List.mem_filterMap

theorem isSome_of_mem_sources (happlies : patch.Applies base) (h : path ∈ patch.sources) : (base path).isSome = true := by
  obtain ⟨c, hc, hsource⟩ := mem_sources.mp h
  exact source_of_fits hsource (happlies.1 c hc)

theorem gitCheckout_sources (happlies : patch.Applies base) :
    gitCheckout base patch.sources model = fun path => if path ∈ patch.sources then base path else model path :=
  if_pos fun _ h => isSome_of_mem_sources happlies h

/-- What a change does depends on the file that it reads. -/
theorem fits_congr {c : Change} (h : ∀ path, c.source? = some path → tree path = base path) :
    c.fits tree = c.fits base ∧ c.newContent tree = c.newContent base := by
  cases c with
  | add path content => exact ⟨rfl, rfl⟩
  | modify path edit => simp only [Change.fits, Change.newContent, h path rfl, and_self]
  | delete path isRemoved => simp only [Change.fits, Change.newContent, h path rfl, and_self]
  | rename source target edit => simp only [Change.fits, Change.newContent, h source rfl, and_self]

theorem mem_targets_iff : path ∈ patch.targets ↔
    (patch.changes.find? fun c => c.target? == some path).isSome = true := by
  rw [List.find?_isSome, TestPatch.targets, List.mem_filterMap]
  exact exists_congr fun c => and_congr_right fun _ => beq_iff_eq.symm

theorem apply_of_notMem (h : path ∉ patch.touched) : patch.apply tree path = tree path := by
  rw [TestPatch.touched, List.mem_append, not_or] at h
  have hnone : patch.changes.find? (fun c => c.target? == some path) = none := by
    rw [← Option.not_isSome_iff_eq_none, ← mem_targets_iff]
    exact h.2
  simp only [TestPatch.apply, hnone, h.1, if_false]

section
variable (happlies : patch.Applies base) (hsources : ∀ path ∈ patch.sources, tree path = base path)
include hsources

theorem apply_of_sources (h : path ∈ patch.touched) : patch.apply tree path = patch.apply base path := by
  have hcongr : ∀ c ∈ patch.changes, c.newContent tree = c.newContent base := fun c hc =>
    (fits_congr fun path hpath => hsources path (mem_sources.mpr ⟨c, hc, hpath⟩)).2
  rcases hfind : patch.changes.find? (fun c => c.target? == some path) with - | c
  · have hsource : path ∈ patch.sources := (List.mem_append.mp h).resolve_right fun htarget => by
      rw [mem_targets_iff, hfind] at htarget
      exact absurd htarget Bool.false_ne_true
    simp only [TestPatch.apply, hfind, hsource, if_true]
  · simp only [TestPatch.apply, hfind]
    exact hcongr c (List.mem_of_find?_eq_some hfind)

include happlies

theorem applies_of_sources :
    patch.Applies tree ↔ ∀ path ∈ patch.created, tree path = none ∨ path ∈ patch.removed := by
  refine and_iff_right fun c hc => ?_
  rw [(fits_congr fun path hpath => hsources path (mem_sources.mpr ⟨c, hc, hpath⟩)).1]
  exact happlies.1 c hc

end

/-- No file of the model's tree is where the patch puts a new one. -/
def NothingInTheWay (model : Tree) (patch : TestPatch) : Prop :=
  ∀ path ∈ patch.created, model path = none ∨ path ∈ patch.removed

/-- The files that the patch reads are as in the base tree with the patch already, and so are those that it
creates in the model's tree. -/
def AlreadyThere (base model : Tree) (patch : TestPatch) : Prop :=
  ∀ path ∈ patch.touched, (if path ∈ patch.sources then base path else model path) = patch.apply base path

theorem goldTests_of_commands (happlies : patch.Applies base) (hreset : tree = gitCheckout base patch.sources model) :
    GoldTests base model patch (if patch.Applies tree then patch.apply tree else tree) ↔
      NothingInTheWay model patch ∨ AlreadyThere base model patch := by
  rw [gitCheckout_sources happlies] at hreset
  have hsources : ∀ path ∈ patch.sources, tree path = base path := fun path h => by rw [hreset]; exact if_pos h
  have hother : ∀ path ∉ patch.sources, tree path = model path := fun path h => by rw [hreset]; exact if_neg h
  have huntouched : ∀ path ∉ patch.touched, tree path = model path := fun path h =>
    hother path fun hsource => h (List.mem_append_left _ hsource)
  have hclear : patch.Applies tree ↔ NothingInTheWay model patch := by
    rw [applies_of_sources happlies hsources]
    refine forall₂_congr fun path hcreated => ?_
    by_cases hsource : path ∈ patch.sources
    · -- a file of the base tree that the patch creates is one that it takes away
      have hremoved : path ∈ patch.removed := (happlies.2 path hcreated).resolve_left fun hnone => by
        have := isSome_of_mem_sources happlies hsource
        rw [hnone] at this
        exact absurd this Bool.false_ne_true
      exact iff_of_true (.inr hremoved) (.inr hremoved)
    · rw [hother path hsource]
  by_cases h : patch.Applies tree
  · rw [if_pos h]
    refine iff_of_true ⟨fun path hpath => apply_of_sources hsources hpath, fun path hpath => ?_⟩ (.inl (hclear.mp h))
    rw [apply_of_notMem hpath, huntouched path hpath]
  · rw [if_neg h, or_iff_right (fun hway => h (hclear.mpr hway))]
    refine (and_iff_left huntouched).trans (forall₂_congr fun path _ => ?_)
    rw [hreset]

/-- Whenever a test command starts, the gold tests are there. -/
def RunsGoldTests (base model : Tree) (patch : TestPatch) (tree : Tree) : Command → Prop
  | .test _ => GoldTests base model patch tree
  | _ => True

variable {commits : String → Tree}

theorem exec_shells (texts : List String) : (texts.map Command.shell).foldl (exec commits) tree = tree := by
  induction texts with
  | nil => rfl
  | cons text texts ih => exact ih

theorem runs_shells (texts : List String) :
    Runs.EachStep (exec commits) tree (RunsGoldTests base model patch) (texts.map .shell) := by
  induction texts with
  | nil => exact Runs.eachStep_nil
  | cons text texts ih => exact Runs.eachStep_cons.mpr ⟨trivial, ih⟩

theorem runs_tests {texts : List String} (h : texts ≠ []) :
    Runs.EachStep (exec commits) tree (RunsGoldTests base model patch) (texts.map .test) ↔
      GoldTests base model patch tree := by
  obtain ⟨text, texts, rfl⟩ := List.exists_cons_of_ne_nil h
  refine Runs.eachStep_cons.trans (and_iff_left_of_imp fun hgold => ?_)
  clear h
  induction texts with
  | nil => exact Runs.eachStep_nil
  | cons text texts ih => exact Runs.eachStep_cons.mpr ⟨hgold, ih⟩

theorem runs_idle {commands : List Command} (h : ∀ c ∈ commands, (c matches .test _) = false) :
    Runs.EachStep (exec commits) tree (RunsGoldTests base model patch) commands := by
  intro before c hbegins
  have hmem : c ∈ commands := hbegins.subset (by simp)
  cases c with
  | test text => exact absurd (h _ hmem) (by simp)
  | _ => trivial

theorem makeEvalScriptListPy_shape (instanceId : String) {specs : Specs} (testDirectives : List String)
    (envName repoDirectory baseCommit : String) (patch : TestPatch) (hcustom : specs.customTestPatch = none)
    (hfixed : specs.fixedPatchCommands = []) :
    ∃ setup : List String, makeEvalScriptListPy instanceId specs testDirectives envName repoDirectory baseCommit patch =
      setup.map .shell ++ (.gitCheckout baseCommit (getModifiedFiles patch) :: .gitApply patch ::
        .shell (": '" ++ startTestOutput ++ "'") :: ((testCommands instanceId specs testDirectives).map .test ++
          [.shell (": '" ++ endTestOutput ++ "'"), .gitCheckout baseCommit (getModifiedFiles patch)])) := by
  refine ⟨["source /opt/miniconda3/bin/activate", "conda activate " ++ envName, "cd " ++ repoDirectory]
    ++ specs.evalCommands
    ++ ["git config --global --add safe.directory " ++ repoDirectory, "cd " ++ repoDirectory, "git status", "git show",
      "git -c core.fileMode=false diff " ++ baseCommit, "source /opt/miniconda3/bin/activate", "conda activate " ++ envName]
    ++ specs.install.toList, ?_⟩
  simp only [makeEvalScriptListPy, hcustom, hfixed, Option.toList_none, List.map_nil, List.append_nil, List.map_append,
    List.map_cons, List.append_assoc, List.cons_append, List.nil_append]

theorem testCommands_ne_nil (instanceId : String) (specs : Specs) (testDirectives : List String) :
    testCommands instanceId specs testDirectives ≠ [] := by
  unfold testCommands
  split
  · exact List.cons_ne_nil _ _
  · exact List.cons_ne_nil _ _

theorem runs_cons {c : Command} (hc : (c matches .test _) = false) {commands : List Command} :
    Runs.EachStep (exec commits) tree (RunsGoldTests base model patch) (c :: commands) ↔
      Runs.EachStep (exec commits) (exec commits tree c) (RunsGoldTests base model patch) commands := by
  rw [Runs.eachStep_cons]
  refine and_iff_right ?_
  cases c with
  | test text => exact absurd hc (by simp)
  | _ => trivial

/-- The tests start on what the reset and the test patch leave. -/
theorem runs_script (instanceId : String) {specs : Specs} (testDirectives : List String)
    (envName repoDirectory baseCommit : String) (hcustom : specs.customTestPatch = none)
    (hfixed : specs.fixedPatchCommands = []) :
    Runs.EachStep (exec commits) tree (RunsGoldTests base model patch)
        (makeEvalScriptListPy instanceId specs testDirectives envName repoDirectory baseCommit patch) ↔
      GoldTests base model patch (exec commits (gitCheckout (commits baseCommit) patch.sources tree) (.gitApply patch)) := by
  obtain ⟨setup, hscript⟩ :=
    makeEvalScriptListPy_shape instanceId testDirectives envName repoDirectory baseCommit patch hcustom hfixed
  rw [hscript, getModifiedFiles_eq, Runs.eachStep_append, exec_shells, and_iff_right (runs_shells setup),
    runs_cons rfl, runs_cons rfl, runs_cons rfl, Runs.eachStep_append, runs_tests (testCommands_ne_nil _ _ _)]
  refine and_iff_left (runs_idle fun c hc => ?_)
  rcases List.mem_pair.mp hc with rfl | rfl
  · rfl
  · rfl

end

/-- A patch that adds one test file. -/
def addsTest : TestPatch := ⟨[.add "tests/test_io.py" "assert parse('1') == 1"], by decide, by decide⟩

end OpenHands.EvalScript
