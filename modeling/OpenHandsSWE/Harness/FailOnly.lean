import OpenHandsSWE.Harness.Grading

/-! Grading where tests can only be seen to fail: what the check for it would give, and what becomes
of a report when the check is called as the other one is. -/

namespace OpenHands

/-- The body of the check; a call with an instance id does not reach it. -/
def checkFailOnly (sm : StatusMap) (group : TestGroup) (case : String) : TestGroup :=
  if Assoc.get? case sm = some .failed then { group with failure := group.failure ++ [case] }
  else { group with success := group.success ++ [case] }

/-- Each test is in one list of its group, and among the failures exactly when it failed. -/
structure TestGroup.FailOnly (sm : StatusMap) (group : TestGroup) (tests : List String) : Prop where
  partitions : group.Partitions tests
  failure : ∀ case ∈ tests, case ∈ group.failure ↔ Assoc.get? case sm = some .failed

/-- What is asked of a report where tests can only fail. -/
structure FailOnlyGraded (sm : StatusMap) (gold : GoldResults) (report : EvalTestsReport) : Prop where
  failToPass : report.failToPass.FailOnly sm gold.failToPass
  passToPass : report.passToPass.FailOnly sm gold.passToPass
  resolved : getResolutionStatus report = .full ↔
    ∀ case ∈ gold.failToPass ++ gold.passToPass, Assoc.get? case sm ≠ some .failed

section Checked

variable {sm : StatusMap}

theorem foldl_checkFailOnly (tests : List String) (group : TestGroup) :
    tests.foldl (checkFailOnly sm) group =
      { success := group.success ++ tests.filter (Assoc.get? · sm ≠ some .failed)
        failure := group.failure ++ tests.filter (Assoc.get? · sm = some .failed) } := by
  induction tests generalizing group with
  | nil => simp
  | cons case tests ih =>
    rw [List.foldl_cons, ih]
    unfold checkFailOnly
    split_ifs with hfailed
    · simp [hfailed]
    · simp [hfailed]

theorem foldl_checkFailOnly_failOnly (tests : List String) :
    (tests.foldl (checkFailOnly sm) {}).FailOnly sm tests := by
  rw [foldl_checkFailOnly]
  refine ⟨⟨?_, ?_⟩, fun case hcase => ?_⟩
  · have hperm := List.filter_append_perm (fun case => decide (Assoc.get? case sm ≠ some .failed)) tests
    simpa using hperm
  · intro case hsuccess hfailure
    have hok := of_decide_eq_true (List.mem_filter.mp hsuccess).2
    exact hok (of_decide_eq_true (List.mem_filter.mp hfailure).2)
  · simp [hcase]

/-- The check itself would grade every status map and every pair of gold lists as it should. -/
theorem failOnlyGraded_of_checks (gold : GoldResults) :
    FailOnlyGraded sm gold
      { failToPass := gold.failToPass.foldl (checkFailOnly sm) {}
        passToPass := gold.passToPass.foldl (checkFailOnly sm) {} } := by
  refine ⟨foldl_checkFailOnly_failOnly _, foldl_checkFailOnly_failOnly _, ?_⟩
  rw [getResolutionStatus_full_iff, List.forall_mem_append, foldl_checkFailOnly, foldl_checkFailOnly]
  apply and_congr
  · simp [List.filter_eq_nil_iff]
  · simp [List.filter_eq_nil_iff]

end Checked

/-! ## The call with an instance id -/

section Called

variable {sm : StatusMap} {spec : TestSpec}

theorem checkGroup_failOnly {instanceId : Option String} {tests : List String} {group group' : TestGroup}
    (h : checkGroup .failOnly sm instanceId tests group = .ok group') : tests = [] ∧ group' = group := by
  cases tests with
  | nil => exact ⟨rfl, (Except.ok.inj h).symm⟩
  | cons case tests => cases h

theorem getEvalTestsReport_failOnly {gold : GoldResults} {report : EvalTestsReport}
    (h : getEvalTestsReport sm gold false .failOnly = .ok report) :
    gold.failToPass = [] ∧ gold.passToPass = [] := by
  obtain ⟨failToPass, hf2p, h⟩ := Py.bind_ok h
  obtain ⟨passToPass, hp2p, -⟩ := Py.bind_ok h
  exact ⟨(checkGroup_failOnly hf2p).1, (checkGroup_failOnly hp2p).1⟩

theorem TestSpec.evalType_failOnly (hrepo : spec.repo ∈ FAIL_ONLY_REPOS) : spec.evalType = .failOnly :=
  if_pos hrepo

theorem failOnlyGraded_nil (gold : GoldResults) (hf2p : gold.failToPass = []) (hp2p : gold.passToPass = []) :
    FailOnlyGraded sm gold { failToPass := {}, passToPass := {} } := by
  have hgraded := @failOnlyGraded_of_checks sm gold
  rw [hf2p, hp2p] at hgraded
  exact hgraded

end Called

/-- The report of a log comes about, and grades the gold tests as it should, exactly when there is
no gold test. -/
theorem failOnlyGraded_iff (harness : Harness) (spec : TestSpec) (sm : StatusMap) (prediction : Prediction)
    (patch : String) (log : Option (List Char)) (includeTestsStatus : Bool)
    (hrepo : spec.repo ∈ FAIL_ONLY_REPOS) (hpatch : prediction.modelPatch = some patch)
    (hlog : getLogsEval harness spec log = .ok (sm, true)) :
    (∃ report r, getEvalTestsReport sm spec.evalRef false spec.evalType = .ok report ∧
      FailOnlyGraded sm spec.evalRef report ∧
      getEvalReport harness spec prediction log includeTestsStatus = .ok (prediction.instanceId, r) ∧
      (r.resolved = true ↔
        ∀ case ∈ spec.failToPass ++ spec.passToPass, Assoc.get? case sm ≠ some .failed)) ↔
    spec.failToPass = [] ∧ spec.passToPass = [] := by
  constructor
  · rintro ⟨report, r, hreport, -⟩
    rw [spec.evalType_failOnly hrepo] at hreport
    exact getEvalTestsReport_failOnly hreport
  · rintro ⟨hf2p, hp2p⟩
    have hreport : getEvalTestsReport sm spec.evalRef false spec.evalType =
        .ok { failToPass := {}, passToPass := {} } := by
      rw [spec.evalType_failOnly hrepo]
      unfold getEvalTestsReport TestSpec.evalRef
      rw [hf2p, hp2p]
      rfl
    have hgraded := @failOnlyGraded_nil sm spec.evalRef hf2p hp2p
    obtain ⟨r, hr, hresolved⟩ := getEvalReport_resolved includeTestsStatus hpatch hlog hreport
    exact ⟨_, r, hreport, hgraded, hr, hresolved.trans hgraded.resolved⟩

/-! A report on an instance with a gold test is not computed at all. -/

def chartSpec : TestSpec where
  instanceId := "chartjs__Chart.js-10301"
  repo := "chartjs/Chart.js"
  version := "3.0"
  failToPass := ["test_a"]
  passToPass := []

def chartLog : List Char := ">>>>> Start Test Output\nPASSED test_a\n>>>>> End Test Output".toList

theorem failOnlyGraded_iff_empty :
    (∃ report r,
      getEvalTestsReport [("test_a", .passed)] { chartSpec with failToPass := [] : TestSpec }.evalRef false
        { chartSpec with failToPass := [] : TestSpec }.evalType = .ok report ∧
      FailOnlyGraded [("test_a", .passed)] { chartSpec with failToPass := [] : TestSpec }.evalRef report ∧
      getEvalReport requestsHarness { chartSpec with failToPass := [] } ⟨"chartjs__Chart.js-10301", some ""⟩
        (some chartLog) true = .ok ("chartjs__Chart.js-10301", r) ∧
      (r.resolved = true ↔ ∀ case ∈ ([] : List String) ++ [],
        Assoc.get? case [("test_a", TestStatus.passed)] ≠ some .failed)) ↔
    ([] : List String) = [] ∧ ([] : List String) = [] :=
  failOnlyGraded_iff requestsHarness { chartSpec with failToPass := [] } [("test_a", .passed)]
    ⟨"chartjs__Chart.js-10301", some ""⟩ "" (some chartLog) true (by decide) rfl (by decide)

theorem getEvalReport_failOnly_raises :
    chartSpec.repo ∈ FAIL_ONLY_REPOS ∧
    getLogsEval requestsHarness chartSpec (some chartLog) = .ok ([("test_a", .passed)], true) ∧
    getEvalReport requestsHarness chartSpec ⟨"chartjs__Chart.js-10301", some ""⟩ (some chartLog) true =
      .error (.typeError "check_fail_only() got an unexpected keyword argument 'instance_id'") := by
  have hlog : getLogsEval requestsHarness chartSpec (some chartLog) = .ok ([("test_a", .passed)], true) := by
    decide
  refine ⟨by decide, hlog, ?_⟩
  unfold getEvalReport
  rw [hlog]
  rfl

end OpenHands
