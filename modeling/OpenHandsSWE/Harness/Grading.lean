import OpenHandsSWE.Lib.Assoc
import OpenHandsSWE.Lib.Python
import OpenHandsSWE.Lib.Text

/-! Grading of an evaluation log against the gold tests of an instance. -/

namespace OpenHands

inductive TestStatus where
  | failed
  | passed
  | skipped
  | error
  | xfail
deriving DecidableEq, Repr

inductive EvalType where
  | passAndFail
  | failOnly
deriving DecidableEq, Repr

inductive ResolvedStatus where
  | no
  | partially
  | full
deriving DecidableEq, Repr

abbrev StatusMap := List (String × TestStatus)

def FAIL_ONLY_REPOS : List String := ["chartjs/Chart.js", "processing/p5.js", "markedjs/marked"]

/-- The instances for which a test missing from the log counts as a success. -/
def SILENT_INSTANCES : List String :=
  ["astropy__astropy-7606", "sphinx-doc__sphinx-8595", "sphinx-doc__sphinx-9711"]

def testPassed (case : String) (sm : StatusMap) : Bool :=
  match Assoc.get? case sm with
  | some status => status ∈ [.passed, .xfail]
  | none => false

def testFailed (case : String) (sm : StatusMap) : Bool :=
  match Assoc.get? case sm with
  | some status => status ∈ [.failed, .error]
  | none => true

/-! ## The report of a status map -/

structure GoldResults where
  failToPass : List String
  passToPass : List String
  failToFail : Option (List String) := none
  passToFail : Option (List String) := none
  instanceId : Option String := none

structure TestGroup where
  success : List String := []
  failure : List String := []
deriving DecidableEq, Repr

structure EvalTestsReport where
  failToPass : TestGroup
  passToPass : TestGroup
  failToFail : TestGroup := {}
  passToFail : TestGroup := {}
deriving DecidableEq, Repr

def checkPassAndFail (sm : StatusMap) (instanceId : Option String) (group : TestGroup)
    (case : String) : TestGroup :=
  if !Assoc.contains case sm && instanceId.any (· ∈ SILENT_INSTANCES) then
    { group with success := group.success ++ [case] }
  else if testPassed case sm then { group with success := group.success ++ [case] }
  else if testFailed case sm then { group with failure := group.failure ++ [case] }
  else group

/-- The check for tests that can only fail has no parameter for the instance id it is given. -/
def checkTestCase (evalType : EvalType) (sm : StatusMap) (instanceId : Option String)
    (group : TestGroup) (case : String) : Except PyError TestGroup :=
  match evalType with
  | .passAndFail => .ok (checkPassAndFail sm instanceId group case)
  | .failOnly =>
    .error (.typeError "check_fail_only() got an unexpected keyword argument 'instance_id'")

def checkGroup (evalType : EvalType) (sm : StatusMap) (instanceId : Option String) :
    List String → TestGroup → Except PyError TestGroup
  | [], group => .ok group
  | case :: cases, group =>
    (checkTestCase evalType sm instanceId group case).bind
      (checkGroup evalType sm instanceId cases)

def GoldResults.required (tests : Option (List String)) (key : String) :
    Except PyError (List String) :=
  match tests with
  | some tests => .ok tests
  | none => .error (.keyError key)

def getEvalTestsReport (sm : StatusMap) (gold : GoldResults) (calculateToFail : Bool)
    (evalType : EvalType) : Except PyError EvalTestsReport :=
  let check := fun tests => checkGroup evalType sm gold.instanceId tests {}
  (check gold.failToPass).bind fun failToPass =>
    (check gold.passToPass).bind fun passToPass =>
      if calculateToFail then
        ((GoldResults.required gold.failToFail "FAIL_TO_FAIL").bind check).bind fun failToFail =>
          ((GoldResults.required gold.passToFail "PASS_TO_FAIL").bind check).map fun passToFail =>
            { failToPass, passToPass, failToFail, passToFail }
      else .ok { failToPass, passToPass }

/-- The share of the successes; of nothing it is all. -/
def TestGroup.share (group : TestGroup) : Rat :=
  let total := group.success.length + group.failure.length
  if total = 0 then 1 else group.success.length / total

def computeFailToPass (report : EvalTestsReport) : Rat := report.failToPass.share

def computePassToPass (report : EvalTestsReport) : Rat := report.passToPass.share

def getResolutionStatus (report : EvalTestsReport) : ResolvedStatus :=
  let f2p := computeFailToPass report
  let p2p := computePassToPass report
  if f2p = 1 ∧ p2p = 1 then .full
  else if f2p < 1 ∧ 0 < f2p ∧ p2p = 1 then .partially
  else .no

/-! ## The report of a log -/

structure TestSpec where
  instanceId : String
  repo : String
  version : String
  failToPass : List String
  passToPass : List String

/-- The tables of the harness: the parser of a repository's logs, and the versions it has specs
for. -/
structure Harness where
  logParser : String → Option (List Char → TestSpec → StatusMap)
  hasSpecs : String → String → Bool

structure Prediction where
  instanceId : String
  modelPatch : Option String

structure InstanceReport where
  patchIsNone : Bool := false
  patchExists : Bool := false
  patchSuccessfullyApplied : Bool := false
  resolved : Bool := false
  testsStatus : Option EvalTestsReport := none

def APPLY_PATCH_FAIL : String := ">>>>> Patch Apply Failed"
def RESET_FAILED : String := ">>>>> Reset Failed"
def TESTS_ERROR : String := ">>>>> Tests Errored"
def TESTS_TIMEOUT : String := ">>>>> Tests Timed Out"
def START_TEST_OUTPUT : String := ">>>>> Start Test Output"
def END_TEST_OUTPUT : String := ">>>>> End Test Output"

def BAD_CODES : List String := [APPLY_PATCH_FAIL, RESET_FAILED, TESTS_ERROR, TESTS_TIMEOUT]

/-- `content.split(START_TEST_OUTPUT)[1].split(END_TEST_OUTPUT)[0]`. -/
def testContent (content : List Char) : Except PyError (List Char) :=
  match (Text.split START_TEST_OUTPUT.toList content)[1]? with
  | none => .error .indexError
  | some rest =>
    match (Text.split END_TEST_OUTPUT.toList rest)[0]? with
    | none => .error .indexError
    | some between => .ok between

def getLogsEval (harness : Harness) (spec : TestSpec) (log : Option (List Char)) :
    Except PyError (StatusMap × Bool) :=
  match harness.logParser spec.repo, log with
  | none, _ => .error (.keyError spec.repo)
  | some logParser, log =>
    if !harness.hasSpecs spec.repo spec.version then .error (.keyError spec.version)
    else
      match log with
      | none => .error .fileNotFoundError
      | some content =>
        if BAD_CODES.any fun code => code.toList <:+: content then .ok ([], false)
        else if ¬ (START_TEST_OUTPUT.toList <:+: content ∧ END_TEST_OUTPUT.toList <:+: content) then
          .ok ([], false)
        else
          (testContent content).map fun between =>
            let statusMap := logParser between spec
            -- nothing between the markers: the whole log is parsed
            (if statusMap.isEmpty then logParser content spec else statusMap, true)

def TestSpec.evalRef (spec : TestSpec) : GoldResults where
  failToPass := spec.failToPass
  passToPass := spec.passToPass
  instanceId := some spec.instanceId

def TestSpec.evalType (spec : TestSpec) : EvalType :=
  if spec.repo ∈ FAIL_ONLY_REPOS then .failOnly else .passAndFail

def getEvalReport (harness : Harness) (spec : TestSpec) (prediction : Prediction)
    (log : Option (List Char)) (includeTestsStatus : Bool) :
    Except PyError (String × InstanceReport) :=
  match prediction.modelPatch with
  | none => .ok (prediction.instanceId, { patchIsNone := true })
  | some _ =>
    (getLogsEval harness spec log).bind fun (statusMap, found) =>
      if !found then .ok (prediction.instanceId, { patchExists := true })
      else
        (getEvalTestsReport statusMap spec.evalRef false spec.evalType).map fun report =>
          (prediction.instanceId,
            { patchExists := true
              patchSuccessfullyApplied := true
              resolved := getResolutionStatus report = .full
              testsStatus := if includeTestsStatus then some report else none })

/-! ## What a group of tests becomes -/

section Groups

variable {sm : StatusMap} {instanceId : Option String}

theorem testPassed_iff (case : String) :
    testPassed case sm ↔ Assoc.get? case sm = some .passed ∨ Assoc.get? case sm = some .xfail := by
  unfold testPassed
  cases Assoc.get? case sm with
  | none => simp
  | some status => simp

/-- A test passes or fails, not both, unless it was skipped. -/
theorem testFailed_eq (case : String) (h : Assoc.get? case sm ≠ some .skipped) :
    testFailed case sm = !testPassed case sm := by
  unfold testFailed testPassed
  cases hget : Assoc.get? case sm with
  | none => rfl
  | some status =>
    cases status with
    | skipped => exact absurd hget h
    | failed => rfl
    | passed => rfl
    | error => rfl
    | xfail => rfl

theorem not_passed_of_skipped {case : String} (h : Assoc.get? case sm = some .skipped) :
    testPassed case sm = false ∧ testFailed case sm = false := by
  unfold testPassed testFailed
  rw [h]
  exact ⟨rfl, rfl⟩

theorem not_passed_of_failed {case : String} (h : testFailed case sm) : testPassed case sm = false := by
  by_cases hskipped : Assoc.get? case sm = some .skipped
  · exact (not_passed_of_skipped hskipped).1
  · rw [testFailed_eq case hskipped] at h
    simpa using h

theorem checkPassAndFail_eq (hid : ∀ id ∈ instanceId, id ∉ SILENT_INSTANCES) (group : TestGroup)
    (case : String) :
    checkPassAndFail sm instanceId group case =
      { success := group.success ++ [case].filter (testPassed · sm)
        failure := group.failure ++ [case].filter (testFailed · sm) } := by
  have hloud : instanceId.any (· ∈ SILENT_INSTANCES) = false := by
    cases instanceId with
    | none => rfl
    | some id => simpa using hid id rfl
  unfold checkPassAndFail
  rw [hloud, Bool.and_false, if_neg Bool.false_ne_true]
  split_ifs with hpassed hfailed
  · have hnot : testFailed case sm = false := by
      by_contra hfailed
      have hfailed := not_passed_of_failed (Bool.of_not_eq_false hfailed)
      rw [hpassed] at hfailed
      cases hfailed
    simp [hpassed, hnot]
  · simp [hpassed, hfailed]
  · simp [hpassed, hfailed]

theorem checkGroup_eq (hid : ∀ id ∈ instanceId, id ∉ SILENT_INSTANCES) (tests : List String)
    (group : TestGroup) :
    checkGroup .passAndFail sm instanceId tests group =
      .ok { success := group.success ++ tests.filter (testPassed · sm)
            failure := group.failure ++ tests.filter (testFailed · sm) } := by
  induction tests generalizing group with
  | nil => simp [checkGroup]
  | cons case tests ih =>
    show checkGroup .passAndFail sm instanceId tests (checkPassAndFail sm instanceId group case) = _
    rw [checkPassAndFail_eq hid, ih]
    simp only [List.append_assoc, ← List.filter_append, List.singleton_append]

end Groups

/-! ## The verdict -/

/-- Each test is in one of the two lists of its group, as often as it is listed. -/
def TestGroup.Partitions (group : TestGroup) (tests : List String) : Prop :=
  (group.success ++ group.failure).Perm tests ∧ group.success.Disjoint group.failure

theorem TestGroup.share_eq_one_iff (group : TestGroup) : group.share = 1 ↔ group.failure = [] := by
  unfold TestGroup.share
  dsimp only
  split_ifs with htotal
  · have hnil : group.failure = [] := List.eq_nil_of_length_eq_zero (Nat.eq_zero_of_add_eq_zero_left htotal)
    exact iff_of_true rfl hnil
  · have hne : ((group.success.length + group.failure.length : Nat) : Rat) ≠ 0 := by
      exact_mod_cast htotal
    rw [div_eq_one_iff_eq hne, Nat.cast_inj, ← List.length_eq_zero_iff]
    omega

theorem getResolutionStatus_full_iff (report : EvalTestsReport) :
    getResolutionStatus report = .full ↔
      report.failToPass.failure = [] ∧ report.passToPass.failure = [] := by
  have hf2p := report.failToPass.share_eq_one_iff
  have hp2p := report.passToPass.share_eq_one_iff
  rw [← hf2p, ← hp2p]
  unfold getResolutionStatus computeFailToPass computePassToPass
  dsimp only
  split_ifs with hfull hpartial
  · exact iff_of_true rfl hfull
  · exact iff_of_false nofun hfull
  · exact iff_of_false nofun hfull

/-- What is asked of a report: every gold test is counted, and only when all of them pass is the
instance resolved. -/
structure Graded (sm : StatusMap) (gold : GoldResults) (report : EvalTestsReport) : Prop where
  failToPass : report.failToPass.Partitions gold.failToPass
  passToPass : report.passToPass.Partitions gold.passToPass
  resolved : getResolutionStatus report = .full ↔
    ∀ case ∈ gold.failToPass ++ gold.passToPass,
      Assoc.get? case sm = some .passed ∨ Assoc.get? case sm = some .xfail

section Verdict

variable {sm : StatusMap}

theorem partitions_iff (tests : List String) :
    TestGroup.Partitions ⟨tests.filter (testPassed · sm), tests.filter (testFailed · sm)⟩ tests ↔
      ∀ case ∈ tests, Assoc.get? case sm ≠ some .skipped := by
  constructor
  · intro hparts case hcase hskipped
    obtain ⟨hpassed, hfailed⟩ := not_passed_of_skipped hskipped
    have hmem : case ∈ tests.filter (testPassed · sm) ++ tests.filter (testFailed · sm) :=
      hparts.1.symm.subset hcase
    rcases List.mem_append.mp hmem with h | h
    · rw [List.mem_filter, hpassed] at h
      cases h.2
    · rw [List.mem_filter, hfailed] at h
      cases h.2
  · intro hnone
    have hfailed : tests.filter (testFailed · sm) = tests.filter (fun case => !testPassed case sm) :=
      List.filter_congr fun case hcase => testFailed_eq case (hnone case hcase)
    refine ⟨?_, fun case hpassed hfailed => ?_⟩
    · show (tests.filter (testPassed · sm) ++ tests.filter (testFailed · sm)).Perm tests
      rw [hfailed]
      exact List.filter_append_perm _ tests
    · have hnot := not_passed_of_failed (List.mem_filter.mp hfailed).2
      rw [(List.mem_filter.mp hpassed).2] at hnot
      cases hnot

theorem filter_failed_eq_nil_iff {tests : List String}
    (hnone : ∀ case ∈ tests, Assoc.get? case sm ≠ some .skipped) :
    tests.filter (testFailed · sm) = [] ↔
      ∀ case ∈ tests, Assoc.get? case sm = some .passed ∨ Assoc.get? case sm = some .xfail := by
  rw [List.filter_eq_nil_iff]
  apply forall₂_congr
  intro case hcase
  rw [testFailed_eq case (hnone case hcase), ← testPassed_iff]
  simp

theorem getEvalTestsReport_groups {gold : GoldResults} {calculateToFail : Bool}
    {report : EvalTestsReport} (hid : ∀ id ∈ gold.instanceId, id ∉ SILENT_INSTANCES)
    (h : getEvalTestsReport sm gold calculateToFail .passAndFail = .ok report) :
    report.failToPass =
      ⟨gold.failToPass.filter (testPassed · sm), gold.failToPass.filter (testFailed · sm)⟩ ∧
    report.passToPass =
      ⟨gold.passToPass.filter (testPassed · sm), gold.passToPass.filter (testFailed · sm)⟩ := by
  unfold getEvalTestsReport at h
  simp only [checkGroup_eq hid, List.nil_append, Except.bind] at h
  split_ifs at h
  · obtain ⟨failToFail, -, h⟩ := Py.bind_ok h
    obtain ⟨passToFail, -, rfl⟩ := Py.map_ok h
    exact ⟨rfl, rfl⟩
  · cases h
    exact ⟨rfl, rfl⟩

theorem graded_iff {gold : GoldResults} {calculateToFail : Bool} {report : EvalTestsReport}
    (hid : ∀ id ∈ gold.instanceId, id ∉ SILENT_INSTANCES)
    (h : getEvalTestsReport sm gold calculateToFail .passAndFail = .ok report) :
    Graded sm gold report ↔
      ∀ case ∈ gold.failToPass ++ gold.passToPass, Assoc.get? case sm ≠ some .skipped := by
  obtain ⟨hf2p, hp2p⟩ := getEvalTestsReport_groups hid h
  constructor
  · intro hgraded
    have hf := hgraded.failToPass
    have hp := hgraded.passToPass
    rw [hf2p, partitions_iff] at hf
    rw [hp2p, partitions_iff] at hp
    exact List.forall_mem_append.mpr ⟨hf, hp⟩
  · intro hnone
    obtain ⟨hf, hp⟩ := List.forall_mem_append.mp hnone
    refine ⟨?_, ?_, ?_⟩
    · rw [hf2p]
      exact (partitions_iff _).mpr hf
    · rw [hp2p]
      exact (partitions_iff _).mpr hp
    · rw [getResolutionStatus_full_iff, hf2p, hp2p, List.forall_mem_append]
      exact and_congr (filter_failed_eq_nil_iff hf) (filter_failed_eq_nil_iff hp)

end Verdict

theorem TestSpec.evalType_eq {spec : TestSpec} (h : spec.repo ∉ FAIL_ONLY_REPOS) :
    spec.evalType = .passAndFail := if_neg h

theorem evalRef_loud {spec : TestSpec} (h : spec.instanceId ∉ SILENT_INSTANCES) :
    ∀ id ∈ spec.evalRef.instanceId, id ∉ SILENT_INSTANCES := by
  rintro id hid
  cases hid
  exact h

theorem getEvalTestsReport_total {spec : TestSpec} (hid : spec.instanceId ∉ SILENT_INSTANCES)
    (sm : StatusMap) : ∃ report, getEvalTestsReport sm spec.evalRef false .passAndFail = .ok report := by
  unfold getEvalTestsReport
  simp only [checkGroup_eq (evalRef_loud hid)]
  exact ⟨_, rfl⟩

theorem getEvalReport_resolved {harness : Harness} {spec : TestSpec} {prediction : Prediction}
    {patch : String} {log : Option (List Char)} {sm : StatusMap} {report : EvalTestsReport}
    (includeTestsStatus : Bool) (hpatch : prediction.modelPatch = some patch)
    (hlog : getLogsEval harness spec log = .ok (sm, true))
    (h : getEvalTestsReport sm spec.evalRef false spec.evalType = .ok report) :
    ∃ r, getEvalReport harness spec prediction log includeTestsStatus =
        .ok (prediction.instanceId, r) ∧
      (r.resolved ↔ getResolutionStatus report = .full) := by
  refine ⟨{ patchExists := true
            patchSuccessfullyApplied := true
            resolved := getResolutionStatus report = .full
            testsStatus := if includeTestsStatus then some report else none }, ?_, decide_eq_true_iff⟩
  unfold getEvalReport
  rw [hpatch, hlog]
  show (getEvalTestsReport sm spec.evalRef false spec.evalType).map _ = _
  rw [h]
  rfl

/-- A report grades every gold test exactly when none of them was skipped; the verdict of the log's
report is the report's. -/
theorem getEvalReport_graded_iff (harness : Harness) (spec : TestSpec) (sm : StatusMap)
    (hrepo : spec.repo ∉ FAIL_ONLY_REPOS) (hid : spec.instanceId ∉ SILENT_INSTANCES) :
    (∀ failToFail passToFail calculateToFail report,
      getEvalTestsReport sm { spec.evalRef with failToFail, passToFail } calculateToFail
        spec.evalType = .ok report →
      (Graded sm spec.evalRef report ↔
        ∀ case ∈ spec.failToPass ++ spec.passToPass, Assoc.get? case sm ≠ some .skipped)) ∧
    ∃ report, getEvalTestsReport sm spec.evalRef false spec.evalType = .ok report ∧
      ∀ prediction patch log includeTestsStatus, prediction.modelPatch = some patch →
        getLogsEval harness spec log = .ok (sm, true) →
        ∃ r, getEvalReport harness spec prediction log includeTestsStatus =
            .ok (prediction.instanceId, r) ∧
          (r.resolved ↔ getResolutionStatus report = .full) := by
  rw [spec.evalType_eq hrepo]
  constructor
  · intro failToFail passToFail calculateToFail report h
    have hloud : ∀ id ∈ ({ spec.evalRef with failToFail, passToFail } : GoldResults).instanceId,
        id ∉ SILENT_INSTANCES := evalRef_loud hid
    have hgraded := graded_iff hloud h
    exact ⟨fun hold => hgraded.mp ⟨hold.failToPass, hold.passToPass, hold.resolved⟩, fun hnone =>
      let hold := hgraded.mpr hnone
      ⟨hold.failToPass, hold.passToPass, hold.resolved⟩⟩
  · obtain ⟨report, h⟩ := getEvalTestsReport_total hid sm
    refine ⟨report, h, fun prediction patch log includeTestsStatus hpatch hlog => ?_⟩
    rw [← spec.evalType_eq hrepo] at h
    exact getEvalReport_resolved includeTestsStatus hpatch hlog h

/-! A skipped test is in neither list, and the instance counts as resolved. -/

def requestsSpec : TestSpec where
  instanceId := "psf__requests-1142"
  repo := "psf/requests"
  version := "1.1"
  failToPass := ["test_a"]
  passToPass := []

/-- A harness for logs with one line about one test. -/
def requestsHarness : Harness where
  logParser _ := some fun content _ =>
    if "SKIPPED test_a".toList <:+: content then [("test_a", .skipped)] else [("test_a", .passed)]
  hasSpecs _ _ := true

theorem getEvalReport_graded_iff_requests :
    (∀ failToFail passToFail calculateToFail report,
      getEvalTestsReport [("test_a", .passed)] { requestsSpec.evalRef with failToFail, passToFail }
        calculateToFail requestsSpec.evalType = .ok report →
      (Graded [("test_a", .passed)] requestsSpec.evalRef report ↔
        ∀ case ∈ requestsSpec.failToPass ++ requestsSpec.passToPass,
          Assoc.get? case [("test_a", TestStatus.passed)] ≠ some .skipped)) ∧
    ∃ report, getEvalTestsReport [("test_a", .passed)] requestsSpec.evalRef false
        requestsSpec.evalType = .ok report ∧
      ∀ prediction patch log includeTestsStatus, prediction.modelPatch = some patch →
        getLogsEval requestsHarness requestsSpec log = .ok ([("test_a", .passed)], true) →
        ∃ r, getEvalReport requestsHarness requestsSpec prediction log includeTestsStatus =
            .ok (prediction.instanceId, r) ∧
          (r.resolved ↔ getResolutionStatus report = .full) :=
  getEvalReport_graded_iff requestsHarness requestsSpec [("test_a", .passed)] (by decide) (by decide)

theorem getEvalTestsReport_skipped :
    requestsSpec.repo ∉ FAIL_ONLY_REPOS ∧ requestsSpec.instanceId ∉ SILENT_INSTANCES ∧
    ∃ report, getEvalTestsReport [("test_a", .skipped)] requestsSpec.evalRef false
        requestsSpec.evalType = .ok report ∧
      "test_a" ∉ report.failToPass.success ++ report.failToPass.failure ∧
      getResolutionStatus report = .full ∧
      ¬ Graded [("test_a", .skipped)] requestsSpec.evalRef report := by
  refine ⟨by decide, by decide, { failToPass := {}, passToPass := {} }, rfl, by decide, ?_, ?_⟩
  · rw [getResolutionStatus_full_iff]
    exact ⟨rfl, rfl⟩
  · intro hgraded
    have hmem := hgraded.failToPass.1.symm.subset (List.mem_singleton_self "test_a")
    cases hmem

end OpenHands
