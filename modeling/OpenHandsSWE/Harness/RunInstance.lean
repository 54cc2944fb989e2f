import OpenHandsSWE.Harness.Grading

/-! The run of one instance: a patch that is put into the tree of a container, the tests, and the report. -/

namespace OpenHands.RunInstance

def GIT_APPLY_CMDS : List String :=
  ["git apply --verbose", "git apply --verbose --reject", "patch --forward --batch --fuzz=5 -p1 -i"]

section
variable {Tree : Type}

/-- The loop over the commands; each works on the tree that the one before left. -/
def applyPatch (exec : String → Tree → Int × Tree) : List String → Tree → Bool × Tree
  | [], tree => (false, tree)
  | gitApplyCmd :: cmds, tree =>
    if (exec gitApplyCmd tree).1 = 0 then (true, (exec gitApplyCmd tree).2)
    else if some gitApplyCmd = GIT_APPLY_CMDS.getLast? then
      -- the last command counts as applied whatever it says
      (true, (applyPatch exec cmds (exec gitApplyCmd tree).2).2)
    else applyPatch exec cmds (exec gitApplyCmd tree).2

/-- A container: what the commands that apply the patch do to its tree, and what the evaluation script
prints there, and whether it times out. -/
structure Container (Tree : Type) where
  tree : Tree
  exec : String → Tree → Int × Tree
  evaluate : Tree → List Char × Bool

/-- The log directory of the instance. -/
structure LogDir where
  report : Option (String × InstanceReport) := none
  testOutput : Option (List Char) := none

structure Result where
  completed : Bool
  resolved : Bool
deriving DecidableEq, Repr

/-- What is left after the run, and the tree that the evaluation script ran on. -/
structure Run (Tree : Type) where
  result : Except PyError Result
  logDir : LogDir
  evaluated : Option Tree

def timeoutNote (timeout : Nat) : List Char := s!"\n\nTimeout error: {timeout} seconds exceeded.".toList

/-- What happens in the container; every error is caught. -/
def runContainer (harness : Harness) (spec : TestSpec) (pred : Prediction) (timeout : Nat) (container : Container Tree)
    (logDir : LogDir) : Run Tree :=
  match applyPatch container.exec GIT_APPLY_CMDS container.tree with
  | (false, _) => ⟨.ok ⟨false, false⟩, logDir, none⟩
  | (true, tree) =>
    match container.evaluate tree with
    | (testOutput, true) =>
      ⟨.ok ⟨false, false⟩, { logDir with testOutput := some (testOutput ++ timeoutNote timeout) }, some tree⟩
    | (testOutput, false) =>
      match getEvalReport harness spec pred (some testOutput) true with
      | .ok report =>
        ⟨.ok ⟨true, report.2.resolved⟩, { report := some report, testOutput := some testOutput }, some tree⟩
      | .error _ => ⟨.ok ⟨false, false⟩, { logDir with testOutput := some testOutput }, some tree⟩

def runInstance (harness : Harness) (spec : TestSpec) (pred : Prediction) (timeout : Nat) (rewriteReports : Bool)
    (container : Container Tree) (logDir : LogDir) : Run Tree :=
  if rewriteReports then
    match logDir.testOutput with
    | none => ⟨.error (.valueError "Test output file does not exist"), logDir, none⟩
    | some testOutput =>
      match getEvalReport harness spec pred (some testOutput) true with
      | .ok report => ⟨.ok ⟨true, report.2.resolved⟩, { logDir with report := some report }, none⟩
      | .error e => ⟨.error e, logDir, none⟩
  else
    match logDir.report with
    | some report => ⟨.ok ⟨true, report.2.resolved⟩, logDir, none⟩
    | none => runContainer harness spec pred timeout container logDir

/-- How `make_run_report` counts an instance with a prediction. -/
inductive Count where
  | emptyPatch
  | resolved
  | unresolved
  | error
deriving DecidableEq, Repr

def makeRunReport (pred : Prediction) (logDir : LogDir) : Count :=
  if pred.modelPatch = some "" ∨ pred.modelPatch = none then .emptyPatch
  else
    match logDir.report with
    | some report => if report.2.resolved then .resolved else .unresolved
    | none => .error

/-- Some command of the list exits 0, on the tree that those before it left. -/
def Succeeds (exec : String → Tree → Int × Tree) : List String → Tree → Prop
  | [], _ => False
  | cmd :: cmds, tree => (exec cmd tree).1 = 0 ∨ Succeeds exec cmds (exec cmd tree).2

/-- Tests run, and a report is written, only over the whole patch; without it the run is not completed and
the instance not counted as graded. -/
structure GradesWhole (whole : Tree → Prop) (container : Container Tree) (pred : Prediction) (run : Run Tree) : Prop where
  evaluated : ∀ tree, run.evaluated = some tree → whole tree
  reported : run.logDir.report ≠ none → ∃ tree, run.evaluated = some tree ∧ whole tree
  incomplete : ¬ Succeeds container.exec GIT_APPLY_CMDS container.tree →
    run.result = .ok ⟨false, false⟩ ∧ run.logDir.report = none ∧
      makeRunReport pred run.logDir ≠ .resolved ∧ makeRunReport pred run.logDir ≠ .unresolved

variable {exec : String → Tree → Int × Tree} {whole : Tree → Prop}

/-- A command that exits 0 ends the loop with its tree. -/
theorem applyPatch_of_succeeds (hexec : ∀ cmd tree, (exec cmd tree).1 = 0 → whole (exec cmd tree).2)
    {cmds : List String} (hcmds : ∀ cmd ∈ cmds.dropLast, some cmd ≠ GIT_APPLY_CMDS.getLast?) {tree : Tree}
    (h : Succeeds exec cmds tree) :
    (applyPatch exec cmds tree).1 = true ∧ whole (applyPatch exec cmds tree).2 := by
  induction cmds generalizing tree with
  | nil => exact h.elim
  | cons cmd cmds ih =>
    rw [applyPatch]
    by_cases hzero : (exec cmd tree).1 = 0
    · rw [if_pos hzero]
      exact ⟨rfl, hexec cmd tree hzero⟩
    · have hrest : Succeeds exec cmds (exec cmd tree).2 := h.resolve_left hzero
      cases cmds with
      | nil => exact hrest.elim
      | cons next cmds =>
        rw [if_neg hzero, if_neg (hcmds cmd (List.mem_cons_self ..))]
        exact ih (fun c hc => hcmds c (List.mem_cons_of_mem cmd hc)) hrest

/-- The three commands are different, so only the third is the last. -/
theorem notLast : ∀ cmd ∈ GIT_APPLY_CMDS.dropLast, some cmd ≠ GIT_APPLY_CMDS.getLast? := by decide

/-- Whatever the commands say, a list that has the last one counts as applied. -/
theorem applyPatch_true {cmds : List String} (hlast : ∃ cmd ∈ cmds, some cmd = GIT_APPLY_CMDS.getLast?) (tree : Tree) :
    (applyPatch exec cmds tree).1 = true := by
  induction cmds generalizing tree with
  | nil =>
    obtain ⟨cmd, hcmd, -⟩ := hlast
    exact (List.not_mem_nil hcmd).elim
  | cons cmd cmds ih =>
    rw [applyPatch]
    split_ifs with hzero hcmd
    · rfl
    · rfl
    · apply ih
      obtain ⟨other, hother, heq⟩ := hlast
      rcases List.mem_cons.mp hother with rfl | hother
      · exact absurd heq hcmd
      · exact ⟨other, hother, heq⟩

end

/-- With nothing else that fails, only whole patches are graded exactly when some command exits 0. -/
theorem gradesWhole_iff {Tree : Type} (whole : Tree → Prop) (harness : Harness) (spec : TestSpec) (pred : Prediction)
    (timeout : Nat) (container : Container Tree) (logDir : LogDir) (hfresh : logDir.report = none)
    (hexec : ∀ cmd tree, (container.exec cmd tree).1 = 0 → whole (container.exec cmd tree).2)
    (htime : ∀ tree, (container.evaluate tree).2 = false)
    (hreport : ∀ tree, ∃ report, getEvalReport harness spec pred (some (container.evaluate tree).1) true = .ok report) :
    GradesWhole whole container pred (runInstance harness spec pred timeout false container logDir) ↔
      Succeeds container.exec GIT_APPLY_CMDS container.tree := by
  let tree := (applyPatch container.exec GIT_APPLY_CMDS container.tree).2
  obtain ⟨report, hok⟩ := hreport tree
  have hrun : runInstance harness spec pred timeout false container logDir =
      ⟨.ok ⟨true, report.2.resolved⟩, { report := some report, testOutput := some (container.evaluate tree).1 },
        some tree⟩ := by
    have hpatch : applyPatch container.exec GIT_APPLY_CMDS container.tree = (true, tree) :=
      Prod.ext (applyPatch_true ⟨_, by simp [GIT_APPLY_CMDS], rfl⟩ container.tree) rfl
    have heval : container.evaluate tree = ((container.evaluate tree).1, false) := Prod.ext rfl (htime tree)
    simp only [runInstance, hfresh, runContainer, hpatch, Bool.false_eq_true, if_false]
    rw [heval]
    dsimp only
    rw [hok]
  rw [hrun]
  constructor
  · intro h
    by_contra hnone
    exact nomatch (h.incomplete hnone).2.1
  · intro h
    have hwhole := (applyPatch_of_succeeds hexec notLast h).2
    refine ⟨fun t ht => ?_, fun _ => ⟨tree, rfl, hwhole⟩, fun hnone => absurd h hnone⟩
    rw [← Option.some.inj ht]
    exact hwhole

def flaskSpec : TestSpec where
  instanceId := "pallets__flask-5014"
  repo := "pallets/flask"
  version := "2.3"
  failToPass := []
  passToPass := []

def flaskHarness : Harness where
  logParser _ := some fun _ _ => []
  hasSpecs _ _ := true

def flaskPred : Prediction := ⟨"pallets__flask-5014", some "diff"⟩

/-- A tree that knows whether the whole patch is in it, and commands that end with one exit code. -/
def flaskContainer (exitCode : Int) : Container Bool where
  tree := false
  exec _ tree := (exitCode, tree || decide (exitCode = 0))
  evaluate _ := ("no tests".toList, false)

theorem gradesWhole_flask : GradesWhole (· = true) (flaskContainer 0) flaskPred
    (runInstance flaskHarness flaskSpec flaskPred 1800 false (flaskContainer 0) {}) := by
  refine (gradesWhole_iff (· = true) flaskHarness flaskSpec flaskPred 1800 (flaskContainer 0) {} rfl ?_ (fun _ => rfl)
    fun _ => ⟨_, rfl⟩).mpr (Or.inl rfl)
  intro cmd tree _
  simp [flaskContainer]

/-- All three commands fail, and the tests run all the same. -/
theorem allFailed_graded : ¬ GradesWhole (· = true) (flaskContainer 1) flaskPred
    (runInstance flaskHarness flaskSpec flaskPred 1800 false (flaskContainer 1) {}) := by
  intro h
  exact nomatch h.evaluated false (by decide +kernel)

end OpenHands.RunInstance
