import Mathlib.Data.Rat.Defs
import Mathlib.Data.List.TakeWhile
import OpenHandsSWE.AppServer.Sandboxes

/-! The wait for the sandbox of a new conversation: what the sandbox was at first, and what it is by then. -/

namespace OpenHands.LiveStatusAppConversationService

structure SandboxInfo where
  id : String
  status : SandboxStatus
deriving DecidableEq, Repr

def statusText : SandboxStatus → String
  | .starting => "SandboxStatus.STARTING"
  | .running => "SandboxStatus.RUNNING"
  | .paused => "SandboxStatus.PAUSED"
  | .error => "SandboxStatus.ERROR"
  | .missing => "SandboxStatus.MISSING"

inductive AppConversationStartTaskStatus where
  | working
  | waitingForSandbox
  | preparingRepository
  | runningSetupScript
  | settingUpGitHooks
  | startingConversation
  | ready
  | error
deriving DecidableEq, Repr

structure AppConversationStartTask where
  requestSandboxId : Option String
  status : AppConversationStartTaskStatus := .working
  sandboxId : Option String := none
deriving DecidableEq, Repr

/-- A round of the loop: the time waited when the clock is tested, the time waited when the answer is
there, and the answer. -/
structure Poll where
  tested : ℚ
  answered : ℚ
  sandboxInfo : Option SandboxInfo
deriving DecidableEq

/-- The sandboxes as the service shows them to one call. The clock is past the timeout after the polls. -/
structure World where
  sandboxStartupTimeout : Nat
  sandboxStartupPollFrequency : Nat
  started : SandboxInfo
  requested : Option SandboxInfo
  polls : List Poll
deriving DecidableEq

inductive Event where
  | startSandbox
  | getSandbox (id : String)
  | update (task : AppConversationStartTask)
  | resumeSandbox (id : String)
  | time
  | sleep (seconds : Nat)
deriving DecidableEq

/-- What a call does until it returns, or raises `SandboxError` with a message. -/
structure Outcome where
  events : List Event
  result : Except String Unit

namespace Outcome

def after (events : List Event) (outcome : Outcome) : Outcome := { outcome with events := events ++ outcome.events }

/-- How often the loop has tested the clock. -/
def tests (outcome : Outcome) : Nat := outcome.events.count .time

end Outcome

def pollSandbox (w : World) (sandbox : SandboxInfo) : List Poll → Outcome
  | [] => ⟨[.time], .error ("Sandbox failed to start: " ++ sandbox.id)⟩
  | poll :: polls =>
    let round : List Event := [.time, .sleep w.sandboxStartupPollFrequency, .getSandbox sandbox.id]
    if poll.tested ≤ w.sandboxStartupTimeout then
      match poll.sandboxInfo with
      | none => ⟨round, .error ("Sandbox not found: " ++ sandbox.id)⟩
      | some sandboxInfo =>
        -- the sandbox as it was before the loop
        if sandbox.status ≠ .starting ∧ sandbox.status ≠ .running then
          ⟨round, .error ("Sandbox not startable: " ++ sandbox.id)⟩
        else if sandboxInfo.status = .running then ⟨round, .ok ()⟩
        else (pollSandbox w sandbox polls).after round
    else ⟨[.time], .error ("Sandbox failed to start: " ++ sandbox.id)⟩

/-- The wait, from the task that is yielded to the listener on. -/
def waitForStatus (w : World) (task : AppConversationStartTask) (sandbox : SandboxInfo) : Outcome :=
  let yielded : Event := .update { task with status := .waitingForSandbox, sandboxId := some sandbox.id }
  let resumed : List Event := if sandbox.status = .paused then [.resumeSandbox sandbox.id] else []
  .after (yielded :: resumed)
    (if sandbox.status = .error then ⟨[], .error ("Sandbox status: " ++ statusText sandbox.status)⟩
    else if sandbox.status = .running then ⟨[], .ok ()⟩
    else if sandbox.status ≠ .starting then ⟨[], .error ("Sandbox not startable: " ++ sandbox.id)⟩
    else pollSandbox w sandbox w.polls)

def waitForSandboxStart (w : World) (task : AppConversationStartTask) : Outcome :=
  match task.requestSandboxId.filter (· ≠ "") with
  | none => (waitForStatus w task w.started).after [.startSandbox]
  | some id =>
    match w.requested with
    | none => ⟨[.getSandbox id], .error ("Sandbox not found: " ++ id)⟩
    | some sandbox => (waitForStatus w task sandbox).after [.getSandbox id]

/-! ## What the sandbox is reported to be -/

/-- A status of the sandbox, or none when there is no sandbox, and whether it is reported within the timeout. -/
structure Report where
  status : Option SandboxStatus
  inTime : Bool
deriving DecidableEq

namespace Report

def IsRunning (r : Report) : Prop := r.status = some .running

def IsFailure (r : Report) : Prop := r.status = none ∨ r.status = some .error ∨ r.status = some .missing

instance (r : Report) : Decidable r.IsRunning := inferInstanceAs (Decidable (_ = _))

instance (r : Report) : Decidable r.IsFailure := inferInstanceAs (Decidable (_ ∨ _))

/-- The sandbox runs, or will not run any more. -/
def Decides (r : Report) : Prop := r.IsRunning ∨ r.IsFailure

instance (r : Report) : Decidable r.Decides := inferInstanceAs (Decidable (_ ∨ _))

end Report

def Poll.report (w : World) (poll : Poll) : Report :=
  ⟨poll.sandboxInfo.map SandboxInfo.status, poll.answered ≤ w.sandboxStartupTimeout⟩

/-- The sandbox that the task asks for, or a new one. -/
def initialSandbox (w : World) (task : AppConversationStartTask) : Option SandboxInfo :=
  if (task.requestSandboxId.filter (· ≠ "")).isSome then w.requested else some w.started

/-- The polls until the clock is past the timeout. -/
def World.polled (w : World) : List Poll := w.polls.takeWhile fun poll => poll.tested ≤ w.sandboxStartupTimeout

def reports (w : World) (task : AppConversationStartTask) : List Report :=
  ⟨(initialSandbox w task).map SandboxInfo.status, true⟩ :: w.polled.map (Poll.report w)

/-- The report is the first that decides. -/
def IsDecision (w : World) (task : AppConversationStartTask) (before : List Report) (report : Report) : Prop :=
  before ++ [report] <+: reports w task ∧ report.Decides ∧ ∀ r ∈ before, ¬ r.Decides

/-- The wait ends well when the sandbox is first reported to run, and fails at the report that it will not. -/
def FollowsStatus (w : World) (task : AppConversationStartTask) : Prop :=
  ∀ before report, IsDecision w task before report →
    (report.IsRunning → report.inTime → (waitForSandboxStart w task).result = .ok ()) ∧
    (report.IsFailure → (waitForSandboxStart w task).tests = before.length ∧
      ∃ message, (waitForSandboxStart w task).result = .error message)

/-- The report that decides is the first of all, or is too late, or a sandbox that was starting is reported
to run or not to be there. -/
def DecidedAsItWas (w : World) (task : AppConversationStartTask) : Prop :=
  ∀ before report, IsDecision w task before report →
    before = [] ∨ report.IsRunning ∧ report.inTime = false ∨
      (initialSandbox w task).map SandboxInfo.status = some .starting ∧
        (report.IsRunning ∨ report.status = none)

/-! ## The loop -/

section Loop

variable {w : World} {sandbox : SandboxInfo} {poll : Poll} {polls : List Poll}

theorem Outcome.tests_after (events : List Event) (outcome : Outcome) :
    (outcome.after events).tests = events.count .time + outcome.tests := by
  rw [tests, after, List.count_append, tests]

theorem pollSandbox_tests_pos (w : World) (sandbox : SandboxInfo) (polls : List Poll) :
    0 < (pollSandbox w sandbox polls).tests := by
  cases polls with
  | nil => exact Nat.one_pos
  | cons poll polls =>
    rw [pollSandbox]
    split
    · split
      · exact Nat.one_pos
      · split
        · exact Nat.one_pos
        · split
          · exact Nat.one_pos
          · rw [Outcome.tests_after]
            exact Nat.add_pos_left Nat.one_pos _
    · exact Nat.one_pos

theorem pollSandbox_missing (sandbox : SandboxInfo) (polls : List Poll)
    (htested : poll.tested ≤ w.sandboxStartupTimeout)
    (hpoll : (poll.report w).status = none) :
    (pollSandbox w sandbox (poll :: polls)).tests = 1 ∧
      ∃ message, (pollSandbox w sandbox (poll :: polls)).result = .error message := by
  have hinfo : poll.sandboxInfo = none := Option.map_eq_none_iff.mp hpoll
  rw [pollSandbox, if_pos htested, hinfo]
  exact ⟨rfl, _, rfl⟩

variable (hsandbox : sandbox.status = .starting)

include hsandbox in
theorem pollSandbox_running (htested : poll.tested ≤ w.sandboxStartupTimeout) (hpoll : (poll.report w).IsRunning) :
    (pollSandbox w sandbox (poll :: polls)).result = .ok () := by
  obtain ⟨info, hinfo, hstatus⟩ := Option.map_eq_some_iff.mp hpoll
  rw [pollSandbox, if_pos htested, hinfo]
  dsimp only
  rw [if_neg fun h => h.1 hsandbox, if_pos hstatus]

include hsandbox in
/-- The loop goes on after a report of any other status, the failures among them. -/
theorem pollSandbox_other (polls : List Poll) (htested : poll.tested ≤ w.sandboxStartupTimeout)
    (hstatus : (poll.report w).status ≠ none) (hrunning : ¬ (poll.report w).IsRunning) :
    (pollSandbox w sandbox (poll :: polls)).tests = 1 + (pollSandbox w sandbox polls).tests ∧
      (pollSandbox w sandbox (poll :: polls)).result = (pollSandbox w sandbox polls).result := by
  obtain ⟨info, hinfo⟩ : ∃ info, poll.sandboxInfo = some info := by
    apply Option.ne_none_iff_exists'.mp
    intro hnone
    exact hstatus (congrArg (Option.map SandboxInfo.status) hnone)
  have hother : info.status ≠ .running := fun h => hrunning (by
    rw [Report.IsRunning, Poll.report, hinfo, Option.map_some, h])
  rw [pollSandbox, if_pos htested, hinfo]
  dsimp only
  rw [if_neg fun h => h.1 hsandbox, if_neg hother]
  exact ⟨Outcome.tests_after _ _, rfl⟩

include hsandbox in
/-- The polls before the one that decides only count. -/
theorem pollSandbox_undecided {earlier : List Poll}
    (hbegins : earlier ++ [poll] <+: polls.takeWhile fun p => p.tested ≤ w.sandboxStartupTimeout)
    (hearlier : ∀ p ∈ earlier, ¬ (p.report w).Decides) :
    ∃ rest, (pollSandbox w sandbox polls).tests = earlier.length + (pollSandbox w sandbox (poll :: rest)).tests ∧
      (pollSandbox w sandbox polls).result = (pollSandbox w sandbox (poll :: rest)).result ∧
      poll.tested ≤ w.sandboxStartupTimeout := by
  induction earlier generalizing polls with
  | nil =>
    obtain ⟨rest, hrest⟩ := hbegins.trans (List.takeWhile_prefix _)
    have htested := List.mem_takeWhile_imp (hbegins.subset (List.mem_singleton_self poll))
    refine ⟨rest, ?_, ?_, of_decide_eq_true htested⟩
    · rw [← hrest, List.length_nil, Nat.zero_add, List.nil_append, List.singleton_append]
    · rw [← hrest, List.nil_append, List.singleton_append]
  | cons p earlier ih =>
    cases polls with
    | nil => exact absurd (List.prefix_nil.mp hbegins) (List.cons_ne_nil _ _)
    | cons p' polls =>
      by_cases htested : p'.tested ≤ w.sandboxStartupTimeout
      · rw [List.takeWhile_cons_of_pos (by simpa using htested)] at hbegins
        obtain ⟨rfl, hlater⟩ := List.cons_prefix_cons.mp hbegins
        obtain ⟨rest, htests, hresult, hpoll⟩ := ih hlater fun q hq => hearlier q (List.mem_cons_of_mem p hq)
        have hundecided := hearlier p List.mem_cons_self
        obtain ⟨hcount, hsame⟩ := pollSandbox_other hsandbox polls htested
          (fun h => hundecided (Or.inr (Or.inl h))) (fun h => hundecided (Or.inl h))
        refine ⟨rest, ?_, hsame.trans hresult, hpoll⟩
        rw [hcount, htests, List.length_cons]
        omega
      · rw [List.takeWhile_cons_of_neg (by simpa using htested)] at hbegins
        exact absurd (List.prefix_nil.mp hbegins) (List.cons_ne_nil _ _)

end Loop

/-! ## The decision -/

section Decision

variable {w : World} {task : AppConversationStartTask} {sandbox : SandboxInfo}

/-- The wait for a sandbox that is there, whether it was asked for or has just been started. -/
theorem waitForSandboxStart_of_some (h : initialSandbox w task = some sandbox) :
    ((waitForSandboxStart w task).tests = (waitForStatus w task sandbox).tests ∧
      (waitForSandboxStart w task).result = (waitForStatus w task sandbox).result) := by
  rw [initialSandbox] at h
  rw [waitForSandboxStart]
  cases hid : task.requestSandboxId.filter (· ≠ "") with
  | none =>
    rw [hid] at h
    obtain rfl := Option.some.inj h
    exact ⟨(Outcome.tests_after _ _).trans (Nat.zero_add _), rfl⟩
  | some id =>
    rw [hid] at h
    have hrequested : w.requested = some sandbox := h
    rw [hrequested]
    exact ⟨(Outcome.tests_after _ _).trans (Nat.zero_add _), rfl⟩

theorem waitForSandboxStart_of_none (h : initialSandbox w task = none) :
    (waitForSandboxStart w task).tests = 0 ∧ ∃ message, (waitForSandboxStart w task).result = .error message := by
  rw [initialSandbox] at h
  rw [waitForSandboxStart]
  cases hid : task.requestSandboxId.filter (· ≠ "") with
  | none =>
    rw [hid] at h
    cases h
  | some id =>
    rw [hid] at h
    have hrequested : w.requested = none := h
    rw [hrequested]
    exact ⟨rfl, _, rfl⟩

/-- Without the loop, the call is over before the clock is tested. -/
theorem waitForStatus_of_not_starting (w : World) (task : AppConversationStartTask) (h : sandbox.status ≠ .starting) :
    (waitForStatus w task sandbox).tests = 0 ∧
      ((waitForStatus w task sandbox).result = .ok () ↔ sandbox.status = .running) ∧
      (sandbox.status ≠ .running → ∃ message, (waitForStatus w task sandbox).result = .error message) := by
  rcases sandbox with ⟨id, status⟩
  cases status with
  | starting => exact absurd rfl h
  | running => exact ⟨rfl, ⟨fun _ => rfl, fun _ => rfl⟩, fun hne => absurd rfl hne⟩
  | paused | error | missing =>
    refine ⟨rfl, ⟨?_, ?_⟩, fun _ => ⟨_, rfl⟩⟩
    · intro hresult
      cases hresult
    · intro hstatus
      cases hstatus

theorem waitForStatus_of_starting (h : sandbox.status = .starting) :
    (waitForStatus w task sandbox).tests = (pollSandbox w sandbox w.polls).tests ∧
      (waitForStatus w task sandbox).result = (pollSandbox w sandbox w.polls).result := by
  rcases sandbox with ⟨id, status⟩
  cases h
  exact ⟨(Outcome.tests_after _ _).trans (Nat.zero_add _), rfl⟩

theorem tests_eq_zero (h : ((initialSandbox w task).map SandboxInfo.status) ≠ some .starting) :
    (waitForSandboxStart w task).tests = 0 := by
  cases hsandbox : initialSandbox w task with
  | none => exact (waitForSandboxStart_of_none hsandbox).1
  | some sandbox =>
    rw [hsandbox] at h
    rw [(waitForSandboxStart_of_some hsandbox).1]
    exact (waitForStatus_of_not_starting w task fun hs => h (congrArg some hs)).1

/-- Without the loop, the call ends as the first report says, and fails for a sandbox that is paused. -/
theorem result_of_not_starting (h : ((initialSandbox w task).map SandboxInfo.status) ≠ some .starting) :
    ((initialSandbox w task).map SandboxInfo.status = some .running →
      (waitForSandboxStart w task).result = .ok ()) ∧
    ((initialSandbox w task).map SandboxInfo.status ≠ some .running →
      ∃ message, (waitForSandboxStart w task).result = .error message) := by
  cases hsandbox : initialSandbox w task with
  | none =>
    refine ⟨fun hrunning => ?_, fun _ => (waitForSandboxStart_of_none hsandbox).2⟩
    cases hrunning
  | some sandbox =>
    rw [hsandbox] at h
    have hnot : sandbox.status ≠ .starting := fun hs => h (congrArg some hs)
    obtain ⟨-, hok, herror⟩ := waitForStatus_of_not_starting w task hnot
    rw [(waitForSandboxStart_of_some hsandbox).2]
    exact ⟨fun hrunning => hok.mpr (Option.some.inj hrunning),
      fun hrunning => herror fun hs => hrunning (congrArg some hs)⟩

/-- A report after the first one is the answer to a poll, and the polls before it have decided nothing. -/
theorem IsDecision.polled {first report : Report} {before : List Report}
    (h : IsDecision w task (first :: before) report) :
    first = ⟨(initialSandbox w task).map SandboxInfo.status, true⟩ ∧
      ∃ earlier poll, earlier ++ [poll] <+: w.polled ∧ before = earlier.map (Poll.report w) ∧
        report = poll.report w ∧ ∀ p ∈ earlier, ¬ (p.report w).Decides := by
  obtain ⟨hbegins, -, hbefore⟩ := h
  obtain ⟨hfirst, hlater⟩ := List.cons_prefix_cons.mp hbegins
  obtain ⟨polls, hpolls, heq⟩ := List.prefix_map_iff.mp hlater
  obtain ⟨earlier, last, rfl, hmap, hlast⟩ := List.map_eq_append_iff.mp heq.symm
  obtain ⟨poll, rfl, hpoll⟩ := List.map_eq_singleton_iff.mp hlast
  refine ⟨hfirst, earlier, poll, hpolls, hmap.symm, hpoll.symm, fun p hp => ?_⟩
  apply hbefore
  rw [← hmap]
  exact List.mem_cons_of_mem first (List.mem_map_of_mem hp)

/-- What the call does at a decision after the first report, for a sandbox that was starting. -/
theorem IsDecision.of_starting {first report : Report} {before : List Report}
    (h : IsDecision w task (first :: before) report)
    (hstarting : (initialSandbox w task).map SandboxInfo.status = some .starting) :
    (report.IsRunning → (waitForSandboxStart w task).result = .ok ()) ∧
    (report.status = none → (waitForSandboxStart w task).tests = before.length + 1 ∧
      ∃ message, (waitForSandboxStart w task).result = .error message) ∧
    (report.status ≠ none → ¬ report.IsRunning → before.length + 1 < (waitForSandboxStart w task).tests) := by
  obtain ⟨sandbox, hsandbox, hstatus⟩ := Option.map_eq_some_iff.mp hstarting
  obtain ⟨-, earlier, poll, hbegins, rfl, rfl, hearlier⟩ := h.polled
  obtain ⟨rest, htests, hresult, htested⟩ := pollSandbox_undecided hstatus hbegins hearlier
  rw [(waitForSandboxStart_of_some hsandbox).1, (waitForSandboxStart_of_some hsandbox).2,
    (waitForStatus_of_starting hstatus).1, (waitForStatus_of_starting hstatus).2, htests, hresult, List.length_map]
  refine ⟨fun hrunning => pollSandbox_running hstatus htested hrunning, fun hnone => ?_, fun hsome hrunning => ?_⟩
  · obtain ⟨hone, herror⟩ := pollSandbox_missing sandbox rest htested hnone
    rw [hone]
    exact ⟨rfl, herror⟩
  · have hmore := (pollSandbox_other hstatus rest htested hsome hrunning).1
    have hpos := pollSandbox_tests_pos w sandbox rest
    omega

variable (w task) in
/-- What the call should do at the report that decides. -/
def FollowsReport (before : List Report) (report : Report) : Prop :=
  (report.IsRunning → report.inTime → (waitForSandboxStart w task).result = .ok ()) ∧
  (report.IsFailure → (waitForSandboxStart w task).tests = before.length ∧
    ∃ message, (waitForSandboxStart w task).result = .error message)

theorem Report.IsFailure.not_running {report : Report} (h : report.IsFailure) : ¬ report.IsRunning := by
  intro hrunning
  rcases h with hs | hs | hs <;> exact absurd (hs.symm.trans hrunning) (by simp)

/-- The first report decides: the call does not come to its loop. -/
theorem IsDecision.follows_first {report : Report} (h : IsDecision w task [] report) : FollowsReport w task [] report := by
  have hdecides := h.2.1
  obtain ⟨rfl, -⟩ := List.cons_prefix_cons.mp h.1
  have hnot : (initialSandbox w task).map SandboxInfo.status ≠ some .starting := by
    intro hstarting
    rw [Report.Decides, Report.IsRunning, Report.IsFailure, hstarting] at hdecides
    simp at hdecides
  exact ⟨fun hrunning _ => (result_of_not_starting hnot).1 hrunning,
    fun hfailure => ⟨tests_eq_zero hnot, (result_of_not_starting hnot).2 hfailure.not_running⟩⟩

/-- In the loop, a sandbox that fails is polled on. -/
theorem IsDecision.follows_starting_iff {first report : Report} {before : List Report}
    (h : IsDecision w task (first :: before) report)
    (hstarting : (initialSandbox w task).map SandboxInfo.status = some .starting) :
    FollowsReport w task (first :: before) report ↔ report.IsRunning ∨ report.status = none := by
  obtain ⟨hok, hnone, hmore⟩ := h.of_starting hstarting
  constructor
  · rintro ⟨-, hfails⟩
    refine h.2.1.imp_right fun hfailure => ?_
    by_contra hsome
    have hlater := hmore hsome hfailure.not_running
    have hnow := (hfails hfailure).1
    rw [List.length_cons] at hnow
    omega
  · intro hcondition
    refine ⟨fun hrunning _ => hok hrunning, fun hfailure => ?_⟩
    exact hnone (hcondition.resolve_left hfailure.not_running)

/-- A sandbox that was paused: the call has failed before the first poll. -/
theorem IsDecision.follows_paused_iff {first report : Report} {before : List Report}
    (h : IsDecision w task (first :: before) report)
    (hstarting : (initialSandbox w task).map SandboxInfo.status ≠ some .starting) :
    FollowsReport w task (first :: before) report ↔ report.IsRunning ∧ report.inTime = false := by
  have hpaused : (initialSandbox w task).map SandboxInfo.status ≠ some .running := by
    intro hrunning
    have hfirst := h.2.2 first List.mem_cons_self
    rw [h.polled.1] at hfirst
    exact hfirst (Or.inl hrunning)
  obtain ⟨message, herror⟩ := (result_of_not_starting hstarting).2 hpaused
  constructor
  · rintro ⟨hok, hfails⟩
    rcases h.2.1 with hrunning | hfailure
    · refine ⟨hrunning, ?_⟩
      by_contra htime
      have hresult := hok hrunning (by simpa using htime)
      rw [herror] at hresult
      cases hresult
    · have hnow := (hfails hfailure).1
      rw [tests_eq_zero hstarting, List.length_cons] at hnow
      omega
  · rintro ⟨hrunning, hlate⟩
    refine ⟨fun _ htime => ?_, fun hfailure => absurd hrunning hfailure.not_running⟩
    rw [hlate] at htime
    cases htime

/-- The call does what it should at the report that decides. -/
theorem IsDecision.follows_iff {report : Report} {before : List Report} (h : IsDecision w task before report) :
    FollowsReport w task before report ↔
      (before = [] ∨ report.IsRunning ∧ report.inTime = false ∨
        (initialSandbox w task).map SandboxInfo.status = some .starting ∧ (report.IsRunning ∨ report.status = none)) := by
  cases before with
  | nil => exact iff_of_true h.follows_first (Or.inl rfl)
  | cons first before =>
    rw [or_iff_right (List.cons_ne_nil first before)]
    by_cases hstarting : (initialSandbox w task).map SandboxInfo.status = some .starting
    · rw [h.follows_starting_iff hstarting, and_iff_right hstarting]
      exact (or_iff_right_of_imp fun hlate => Or.inl hlate.1).symm
    · rw [h.follows_paused_iff hstarting, or_iff_left fun hand => hstarting hand.1]

end Decision

theorem followsStatus_iff (w : World) (task : AppConversationStartTask) :
    FollowsStatus w task ↔ DecidedAsItWas w task :=
  forall₂_congr fun _ _ => forall_congr' fun h => h.follows_iff

/-- A paused sandbox that is resumed, and runs two seconds later. -/
def pausedWorld : World where
  sandboxStartupTimeout := 120
  sandboxStartupPollFrequency := 2
  started := ⟨"new", .starting⟩
  requested := some ⟨"box", .paused⟩
  polls := [⟨0, 2, some ⟨"box", .running⟩⟩]

theorem not_followsStatus : ¬ FollowsStatus pausedWorld ⟨some "box", .working, none⟩ := by
  intro h
  have hresult := (h [⟨some .paused, true⟩] ⟨some .running, true⟩ ⟨by decide, by decide, by decide⟩).1 rfl rfl
  exact absurd hresult (by
    rw [waitForSandboxStart]
    intro hok
    cases hok)

end OpenHands.LiveStatusAppConversationService
