import Mathlib.Logic.Function.Basic
import OpenHandsSWE.Lib.AssocSum
import OpenHandsSWE.Lib.Parties
import OpenHandsSWE.Lib.Runs

/-! The workflow runs of one commit of a pull request: every event updates the record of the commit in a
transaction of its own, and the one that completes a group with a failure hands it on. -/

namespace OpenHands.ProactiveConversations

inductive WorkflowRunStatus where
  | failure
  | completed
  | pending
deriving DecidableEq, Repr

/-- The runs of a `WorkflowRunGroup` with their statuses. -/
abbrev WorkflowRunGroup := List (String × WorkflowRunStatus)

/-- A row of the table for the commit. -/
structure ProactiveConversation where
  workflowRuns : WorkflowRunGroup
  conversationStarterSent : Bool
deriving DecidableEq, Repr

/-- Where a `store_workflow_information` is: before its select, after it, before the commit. -/
inductive Phase where
  | waiting
  | found (commitEntry : Option ProactiveConversation)
  | writing (rows : Option Nat) (group : WorkflowRunGroup) (shouldSend : Bool)
  | returned (group : Option WorkflowRunGroup)
deriving DecidableEq, Repr

structure Call where
  run : String
  status : WorkflowRunStatus
  phase : Phase := .waiting
deriving DecidableEq, Repr

structure State where
  current : String → WorkflowRunStatus := fun _ => .pending
  rows : List ProactiveConversation := []
  lock : Option Nat := none
  calls : List Call := []

inductive Step where
  | event (run : String) (status : WorkflowRunStatus)
  | select (i first : Nat)
  | compute (i : Nat)
  | commit (i : Nat)

def shouldSend (group : WorkflowRunGroup) : Bool :=
  group.all (fun kv => kv.2 != .pending) && group.any fun kv => kv.2 == .failure

def State.setPhase (s : State) (i : Nat) (phase : Phase) : State :=
  { s with calls := s.calls.modify i fun c => { c with phase := phase } }

section
variable (runs : List String)

def getAllWorkflows (s : State) : WorkflowRunGroup := runs.map fun r => (r, s.current r)

/-- `SELECT ... FOR UPDATE` waits for the lock of rows that exist; `first` is the row that comes first. -/
def select (s : State) (i first : Nat) : State :=
  match s.rows[first]? with
  | none => if s.rows = [] then s.setPhase i (.found none) else s
  | some row =>
    if s.lock.isSome then s
    else if row.conversationStarterSent then s.setPhase i (.returned none)
    else { s with lock := some i }.setPhase i (.found (some row))

/-- The rows that the `UPDATE` changes are those that are there now. -/
def compute (s : State) (i : Nat) (c : Call) (commitEntry : Option ProactiveConversation) : State :=
  let workflowRuns := (commitEntry.map ProactiveConversation.workflowRuns).getD (getAllWorkflows runs s)
  let group := Assoc.set c.run c.status workflowRuns
  s.setPhase i (.writing (commitEntry.map fun _ => s.rows.length) group (shouldSend group))

def commit (s : State) (i : Nat) (rows : Option Nat) (group : WorkflowRunGroup) (send : Bool) : State :=
  match rows with
  | some n =>
    { s with
      rows := (s.rows.take n).map (fun _ => (⟨group, send⟩ : ProactiveConversation)) ++ s.rows.drop n
      lock := none }.setPhase i (.returned (if send then some group else none))
  | none =>
    { s with rows := s.rows ++ [(⟨group, send⟩ : ProactiveConversation)] }.setPhase i (.returned (if send then some group else none))

/-- A step that does not come next for its call changes nothing. -/
def step (s : State) : Step → State
  | .event run status =>
    if run ∈ runs then
      { s with current := Function.update s.current run status, calls := s.calls ++ [⟨run, status, .waiting⟩] }
    else s
  | .select i first =>
    match s.calls[i]? with
    | some ⟨_, _, .waiting⟩ => select s i first
    | _ => s
  | .compute i =>
    match s.calls[i]? with
    | some ⟨run, status, .found commitEntry⟩ => compute runs s i ⟨run, status, .found commitEntry⟩ commitEntry
    | _ => s
  | .commit i =>
    match s.calls[i]? with
    | some ⟨_, _, .writing rows group send⟩ => commit s i rows group send
    | _ => s

end

/-- A call at work on a record that was not there. -/
def Call.creates (c : Call) : Bool := c.phase matches .found none | .writing none _ _

/-- A call at work on a record that it has locked. -/
def Call.updates (c : Call) : Bool := c.phase matches .found (some _) | .writing (some _) _ _

def Call.result (c : Call) : Option WorkflowRunGroup :=
  match c.phase with
  | .returned group => group
  | _ => none

def Call.done (c : Call) : Bool := c.phase matches .returned _

def Call.atWork (c : Call) : Bool := c.creates || c.updates

/-- Nobody looks for the record while another call is about to create it, and no call writes a status that
its run no longer has. -/
def InTurn (s : State) : Step → Prop
  | .select i _ => (s.calls[i]?.any fun c => c.phase == .waiting) = true → s.rows = [] →
      ∀ c ∈ s.calls, c.creates = false
  | .compute i => ∀ c ∈ s.calls[i]?, (c.phase matches .found _) = true → c.status = s.current c.run
  | _ => True

instance (s : State) : DecidablePred (InTurn s)
  | .select _ _ | .compute _ => by unfold InTurn; infer_instance
  | .event _ _ | .commit _ => isTrue trivial

/-- At most one call has handed a group on, and after the last one, with no run pending and one that failed,
one call has, and the group has every run. -/
structure StartedOnce (runs : List String) (s : State) : Prop where
  most : (s.calls.filterMap Call.result).length ≤ 1
  exact : (∀ c ∈ s.calls, c.done = true) → (∀ r ∈ runs, s.current r ≠ .pending) →
    (∃ r ∈ runs, s.current r = .failure) →
    ∃ group, s.calls.filterMap Call.result = [group] ∧ group.map Prod.fst = runs

/-- A group has the current status of every run, but for those that a call other than `i` still brings. -/
def UpToDate (runs : List String) (s : State) (i : Option Nat) (group : WorkflowRunGroup) : Prop :=
  ∀ r ∈ runs, Assoc.get? r group = some (s.current r) ∨
    ∃ (j : Nat) (c : Call), s.calls[j]? = some c ∧ some j ≠ i ∧ c.done = false ∧ c.run = r ∧ c.status = s.current r

/-- What is stored, and what a call is about to store. -/
structure Sound (runs : List String) (s : State) : Prop where
  known : ∀ c ∈ s.calls, c.run ∈ runs
  quiet : s.calls = [] → ∀ r, s.current r = .pending
  single : s.rows.length ≤ 1
  creator : ∀ (i : Nat) (c : Call), s.calls[i]? = some c → c.creates = true →
    s.rows = [] ∧ ∀ (j : Nat) (d : Call), s.calls[j]? = some d → d.creates = true → j = i
  updater : ∀ (i : Nat) (c : Call), s.calls[i]? = some c → c.updates = true →
    s.lock = some i ∧ ∃ row, s.rows = [row] ∧ row.conversationStarterSent = false
  foundRow : ∀ (i : Nat) (c : Call) (row : ProactiveConversation), s.calls[i]? = some c →
    c.phase = .found (some row) → s.rows = [row]
  row : ∀ row ∈ s.rows, row.workflowRuns.map Prod.fst = runs ∧
    row.conversationStarterSent = shouldSend row.workflowRuns ∧
    (row.conversationStarterSent = false → UpToDate runs s none row.workflowRuns)
  draft : ∀ (i : Nat) (c : Call) (rows : Option Nat) (group : WorkflowRunGroup) (send : Bool),
    s.calls[i]? = some c → c.phase = .writing rows group send →
    group.map Prod.fst = runs ∧ send = shouldSend group ∧ UpToDate runs s (some i) group ∧ ∀ n ∈ rows, n = 1
  results : s.calls.filterMap Call.result =
    s.rows.filterMap fun row => if row.conversationStarterSent then some row.workflowRuns else none
  stored : (∃ c ∈ s.calls, c.done = true) → s.rows ≠ []

section
variable {runs : List String} {s t : State} {i j : Nat} {c d : Call} {phase : Phase} {group : WorkflowRunGroup}

@[simp] theorem setPhase_current : (s.setPhase i phase).current = s.current := rfl

@[simp] theorem setPhase_rows : (s.setPhase i phase).rows = s.rows := rfl

@[simp] theorem setPhase_lock : (s.setPhase i phase).lock = s.lock := rfl

theorem setPhase_self (h : s.calls[i]? = some c) :
    (s.setPhase i phase).calls[i]? = some { c with phase := phase } := by
  simp [State.setPhase, List.getElem?_modify, h]

theorem setPhase_of_ne (h : j ≠ i) : (s.setPhase i phase).calls[j]? = s.calls[j]? := by
  simp [State.setPhase, List.getElem?_modify, Ne.symm h]

theorem setPhase_cases (hc : s.calls[i]? = some c) (hd : (s.setPhase i phase).calls[j]? = some d) :
    j = i ∧ d = { c with phase := phase } ∨ j ≠ i ∧ s.calls[j]? = some d := by
  rcases Parties.modify_cases hd with ⟨hj, c', hc', rfl⟩ | hother
  · obtain rfl := Option.some.inj (hc.symm.trans hc')
    exact .inl ⟨hj, rfl⟩
  · exact .inr hother

theorem UpToDate.mono {i' : Option Nat} {i : Option Nat} (h : UpToDate runs s i group) (hcurrent : t.current = s.current)
    (hcalls : ∀ (j : Nat) (c : Call), s.calls[j]? = some c → some j ≠ i → c.done = false →
      some j ≠ i' ∧ ∃ d : Call, t.calls[j]? = some d ∧ d.done = false ∧ d.run = c.run ∧ d.status = c.status) :
    UpToDate runs t i' group := by
  intro r hr
  rw [hcurrent]
  rcases h r hr with h | ⟨j, c, hc, hj, hdone, hrun, hstatus⟩
  · exact .inl h
  · obtain ⟨hj', d, hd, hd', hrun', hstatus'⟩ := hcalls j c hc hj hdone
    exact .inr ⟨j, d, hd, hj', hd', hrun'.trans hrun, hstatus'.trans hstatus⟩

/-- A call that goes on but has not returned still brings its status. -/
theorem UpToDate.setPhase {i' : Option Nat} (h : UpToDate runs s i' group) (hc : s.calls[i]? = some c)
    (hphase : ({ c with phase := phase } : Call).done = false) : UpToDate runs (s.setPhase i phase) i' group := by
  refine UpToDate.mono (t := s.setPhase i phase) h rfl ?_
  intro j d hd hj hdone
  refine ⟨hj, ?_⟩
  by_cases hji : j = i
  · subst hji
    rw [hc] at hd
    obtain rfl := Option.some.inj hd
    exact ⟨_, setPhase_self hc, hphase, rfl, rfl⟩
  · exact ⟨d, by rw [setPhase_of_ne hji, hd], hdone, rfl, rfl⟩

/-- Only one call at a time works on the record. -/
theorem Sound.alone (hs : Sound runs s) (hc : s.calls[i]? = some c) (hd : s.calls[j]? = some d)
    (hcw : c.atWork = true) (hdw : d.atWork = true) : j = i := by
  rcases Bool.or_eq_true_iff.mp hcw with hcc | hcu
  · obtain ⟨hrows, hone⟩ := hs.creator i c hc hcc
    rcases Bool.or_eq_true_iff.mp hdw with hdc | hdu
    · exact hone j d hd hdc
    · obtain ⟨-, row, hrow, -⟩ := hs.updater j d hd hdu
      rw [hrows] at hrow
      exact absurd hrow (List.cons_ne_nil _ _).symm
  · obtain ⟨hlock, row, hrow, -⟩ := hs.updater i c hc hcu
    rcases Bool.or_eq_true_iff.mp hdw with hdc | hdu
    · rw [(hs.creator j d hd hdc).1] at hrow
      exact absurd hrow (List.cons_ne_nil _ _).symm
    · have hlock' := (hs.updater j d hd hdu).1
      rw [hlock] at hlock'
      exact (Option.some.inj hlock').symm

variable {run : String} {status : WorkflowRunStatus}

theorem UpToDate.event {i' : Option Nat} (h : UpToDate runs s i' group) (hi : ∀ k ∈ i', k < s.calls.length) :
    UpToDate runs { s with
      current := Function.update s.current run status
      calls := s.calls ++ [⟨run, status, .waiting⟩] } i' group := by
  intro r hr
  by_cases hrun : r = run
  · right
    refine ⟨s.calls.length, _, List.getElem?_concat_length, ?_, rfl, hrun.symm, ?_⟩
    · intro heq
      exact absurd (hi _ heq.symm) (lt_irrefl _)
    · simp [hrun]
  · have hcurrent : Function.update s.current run status r = s.current r := Function.update_of_ne hrun status s.current
    rcases h r hr with h | ⟨j, c, hc, hj, hdone, hr', hstatus⟩
    · exact .inl (h.trans (congrArg some hcurrent.symm))
    · refine .inr ⟨j, c, ?_, hj, hdone, hr', hstatus.trans hcurrent.symm⟩
      rw [List.getElem?_append_left (List.getElem?_eq_some_iff.mp hc).1, hc]

theorem sound_event (hs : Sound runs s) (hrun : run ∈ runs) :
    Sound runs { s with
      current := Function.update s.current run status
      calls := s.calls ++ [⟨run, status, .waiting⟩] } where
  known := by
    intro c hc
    rcases List.mem_append.mp hc with hc | hc
    · exact hs.known c hc
    · rw [List.mem_singleton.mp hc]
      exact hrun
  quiet h := absurd h (by simp)
  single := hs.single
  creator i c hc hcreates := by
    rcases Parties.append_cases hc with hc | ⟨-, rfl⟩
    · obtain ⟨hrows, hone⟩ := hs.creator i c hc hcreates
      refine ⟨hrows, fun j d hd hdc => ?_⟩
      rcases Parties.append_cases hd with hd | ⟨-, rfl⟩
      · exact hone j d hd hdc
      · exact absurd hdc Bool.false_ne_true
    · exact absurd hcreates Bool.false_ne_true
  updater i c hc hupdates := by
    rcases Parties.append_cases hc with hc | ⟨-, rfl⟩
    · exact hs.updater i c hc hupdates
    · exact absurd hupdates Bool.false_ne_true
  foundRow i c row hc hphase := by
    rcases Parties.append_cases hc with hc | ⟨-, rfl⟩
    · exact hs.foundRow i c row hc hphase
    · exact absurd hphase (nomatch ·)
  row row hrow := by
    obtain ⟨hkeys, hsent, hupToDate⟩ := hs.row row hrow
    exact ⟨hkeys, hsent, fun h => (hupToDate h).event fun k hk => absurd hk (by simp)⟩
  draft i c rows group send hc hphase := by
    rcases Parties.append_cases hc with hc | ⟨-, rfl⟩
    · obtain ⟨hkeys, hsend, hupToDate, hrows⟩ := hs.draft i c rows group send hc hphase
      refine ⟨hkeys, hsend, hupToDate.event fun k hk => ?_, hrows⟩
      rw [← Option.mem_some.mp hk]
      exact (List.getElem?_eq_some_iff.mp hc).1
    · exact absurd hphase (nomatch ·)
  results := by
    have hnone : Call.result ⟨run, status, .waiting⟩ = none := rfl
    simp [hs.results, hnone]
  stored := by
    rintro ⟨c, hc, hdone⟩
    rcases List.mem_append.mp hc with hc | hc
    · exact hs.stored ⟨c, hc, hdone⟩
    · rw [List.mem_singleton.mp hc] at hdone
      exact absurd hdone Bool.false_ne_true

theorem mem_setPhase (hc : s.calls[i]? = some c) (hd : d ∈ (s.setPhase i phase).calls) :
    d = { c with phase := phase } ∨ d ∈ s.calls := by
  obtain ⟨j, hd⟩ := List.mem_iff_getElem?.mp hd
  rcases setPhase_cases hc hd with ⟨-, h⟩ | ⟨-, h⟩
  · exact .inl h
  · exact .inr (List.mem_of_getElem? h)

theorem atWork_of_found {row : Option ProactiveConversation} (h : c.phase = .found row) : c.atWork = true := by
  cases row <;> simp [Call.atWork, Call.creates, Call.updates, h]

theorem atWork_of_writing {rows : Option Nat} {send : Bool} (h : c.phase = .writing rows group send) :
    c.atWork = true := by
  cases rows <;> simp [Call.atWork, Call.creates, Call.updates, h]

/-- A call that is the only one at work goes on. -/
theorem Sound.work (hs : Sound runs s) (lock : Option Nat) (hc : s.calls[i]? = some c)
    (hresult : c.result = none) (hwork : ({ c with phase := phase } : Call).atWork = true)
    (halone : ∀ (j : Nat) (d : Call), s.calls[j]? = some d → d.atWork = true → j = i)
    (hcreates : ({ c with phase := phase } : Call).creates = true → s.rows = [])
    (hupdates : ({ c with phase := phase } : Call).updates = true →
      lock = some i ∧ ∃ row, s.rows = [row] ∧ row.conversationStarterSent = false)
    (hfound : ∀ row, phase = .found (some row) → s.rows = [row])
    (hdraft : ∀ rows group send, phase = .writing rows group send → group.map Prod.fst = runs ∧
      send = shouldSend group ∧ UpToDate runs s (some i) group ∧ ∀ n ∈ rows, n = 1) :
    Sound runs (State.setPhase { s with lock := lock } i phase) := by
  have hnotDone : ({ c with phase := phase } : Call).done = false := by
    cases phase <;> first | rfl | exact absurd hwork Bool.false_ne_true
  have hother : ∀ (j : Nat) (d : Call), j ≠ i → s.calls[j]? = some d → d.atWork = false := fun j d hj hd =>
    Bool.eq_false_iff.mpr fun h => hj (halone j d hd h)
  refine ⟨?_, ?_, hs.single, ?_, ?_, ?_, ?_, ?_, ?_, ?_⟩
  · intro d hd
    rcases mem_setPhase (s := { s with lock := lock }) hc hd with rfl | hd
    · exact hs.known c (List.mem_of_getElem? hc)
    · exact hs.known d hd
  · intro h
    have hi := (setPhase_self (s := { s with lock := lock }) hc : (State.setPhase _ i phase).calls[i]? = _)
    rw [h] at hi
    exact absurd hi (by simp)
  · intro j d hd hdc
    have hj : j = i := by
      rcases setPhase_cases (s := { s with lock := lock }) hc hd with ⟨hj, -⟩ | ⟨hj, hd⟩
      · exact hj
      · exact halone j d hd (by simp [Call.atWork, hdc])
    have hd' := hd
    rw [hj, setPhase_self (s := { s with lock := lock }) hc] at hd'
    refine ⟨hcreates (by rw [Option.some.inj hd']; exact hdc), fun k e he hec => ?_⟩
    rcases setPhase_cases (s := { s with lock := lock }) hc he with ⟨hk, -⟩ | ⟨hk, he⟩
    · rw [hk, hj]
    · rw [halone k e he (by simp [Call.atWork, hec]), hj]
  · intro j d hd hdu
    rcases setPhase_cases (s := { s with lock := lock }) hc hd with ⟨rfl, rfl⟩ | ⟨hj, hd⟩
    · exact hupdates hdu
    · exact absurd (hother j d hj hd) (by simp [Call.atWork, hdu])
  · intro j d row hd hphase
    rcases setPhase_cases (s := { s with lock := lock }) hc hd with ⟨rfl, rfl⟩ | ⟨hj, hd⟩
    · exact hfound row hphase
    · exact hs.foundRow j d row hd hphase
  · intro row hrow
    obtain ⟨hkeys, hsent, hupToDate⟩ := hs.row row hrow
    exact ⟨hkeys, hsent, fun h => UpToDate.setPhase (s := { s with lock := lock }) (hupToDate h) hc hnotDone⟩
  · intro j d rows group send hd hphase
    rcases setPhase_cases (s := { s with lock := lock }) hc hd with ⟨rfl, rfl⟩ | ⟨hj, hd⟩
    · obtain ⟨hkeys, hsend, hupToDate, hrows⟩ := hdraft rows group send hphase
      exact ⟨hkeys, hsend, UpToDate.setPhase (s := { s with lock := lock }) hupToDate hc hnotDone, hrows⟩
    · exact absurd (atWork_of_writing hphase) (by simp [hother j d hj hd])
  · have hsame : ({ c with phase := phase } : Call).result = c.result := by
      rw [hresult]
      cases phase <;> first | rfl | exact absurd hnotDone (by simp [Call.done])
    refine Eq.trans (Parties.filterMap_modify_eq _ _ fun a ha => ?_) hs.results
    obtain rfl : c = a := Option.some.inj (hc.symm.trans ha)
    exact hsame
  · rintro ⟨d, hd, hdone⟩
    rcases mem_setPhase (s := { s with lock := lock }) hc hd with rfl | hd
    · exact absurd hdone (by simp [hnotDone])
    · exact hs.stored ⟨d, hd, hdone⟩

/-- A call that is the only one at work returns. -/
theorem Sound.finish (hs : Sound runs s) (row : ProactiveConversation) (lock : Option Nat)
    (result : Option WorkflowRunGroup) (hc : s.calls[i]? = some c)
    (halone : ∀ (j : Nat) (d : Call), s.calls[j]? = some d → d.atWork = true → j = i)
    (hkeys : row.workflowRuns.map Prod.fst = runs) (hsent : row.conversationStarterSent = shouldSend row.workflowRuns)
    (hupToDate : row.conversationStarterSent = false → UpToDate runs s (some i) row.workflowRuns)
    (hresults : (s.setPhase i (.returned result)).calls.filterMap Call.result =
      [row].filterMap fun row => if row.conversationStarterSent then some row.workflowRuns else none) :
    Sound runs (State.setPhase { s with lock := lock, rows := [row] } i (.returned result)) := by
  have hidle : ∀ (j : Nat) (d : Call), (s.setPhase i (.returned result)).calls[j]? = some d → d.atWork = false := by
    intro j d hd
    rcases setPhase_cases hc hd with ⟨-, rfl⟩ | ⟨hj, hd⟩
    · rfl
    · exact Bool.eq_false_iff.mpr fun h => hj (halone j d hd h)
  refine ⟨?_, ?_, le_rfl, ?_, ?_, ?_, ?_, ?_, hresults, fun _ => List.cons_ne_nil _ _⟩
  · intro d hd
    rcases mem_setPhase (s := { s with lock := lock, rows := [row] }) hc hd with rfl | hd
    · exact hs.known c (List.mem_of_getElem? hc)
    · exact hs.known d hd
  · intro h
    have hi := (setPhase_self (s := { s with lock := lock, rows := [row] }) hc : (State.setPhase _ i (.returned result)).calls[i]? = _)
    rw [h] at hi
    exact absurd hi (by simp)
  · intro j d hd hdc
    exact absurd (hidle j d hd) (by simp [Call.atWork, hdc])
  · intro j d hd hdu
    exact absurd (hidle j d hd) (by simp [Call.atWork, hdu])
  · intro j d row hd hphase
    exact absurd (hidle j d hd) (by simp [atWork_of_found hphase])
  · intro row' hrow'
    rw [List.mem_singleton.mp hrow']
    refine ⟨hkeys, hsent, fun h => ?_⟩
    refine UpToDate.mono (hupToDate h) rfl fun j d hd hj hdone => ⟨Option.some_ne_none j, d, ?_, hdone, rfl, rfl⟩
    exact (setPhase_of_ne fun heq => hj (congrArg some heq)).trans hd
  · intro j d rows group send hd hphase
    exact absurd (hidle j d hd) (by simp [atWork_of_writing hphase])

theorem sound_select (hs : Sound runs s) (first : Nat) (hc : s.calls[i]? = some ⟨run, status, .waiting⟩)
    (hturn : InTurn s (.select i first)) : Sound runs (select s i first) := by
  unfold select
  split
  · split
    · next hrows =>
      have hnone : ∀ c ∈ s.calls, c.creates = false := hturn (by simp [hc]) hrows
      refine hs.work s.lock hc rfl rfl ?_ (fun _ => hrows) (nomatch ·) (nofun) nofun
      intro j d hd hwork
      rcases Bool.or_eq_true_iff.mp hwork with hdc | hdu
      · exact absurd hdc (by simp [hnone d (List.mem_of_getElem? hd)])
      · obtain ⟨-, row, hrow, -⟩ := hs.updater j d hd hdu
        rw [hrows] at hrow
        exact absurd hrow (List.cons_ne_nil _ _).symm
    · exact hs
  · next row hrow =>
    have hrows : s.rows = [row] := by
      have hlen := (List.getElem?_eq_some_iff.mp hrow).1
      obtain ⟨row', hrow'⟩ := List.length_eq_one_iff.mp (le_antisymm hs.single (by omega))
      have hmem := List.mem_of_getElem? hrow
      rw [hrow'] at hmem
      rw [hrow', List.mem_singleton.mp hmem]
    have hnotCreates : ∀ (j : Nat) (d : Call), s.calls[j]? = some d → d.creates = false := by
      intro j d hd
      refine Bool.eq_false_iff.mpr fun hdc => ?_
      rw [(hs.creator j d hd hdc).1] at hrows
      exact absurd hrows (List.cons_ne_nil _ _).symm
    split
    · exact hs
    · next hlock =>
      obtain ⟨hkeys, hsent, -⟩ := hs.row row (hrows ▸ List.mem_singleton_self row)
      have halone : ∀ (j : Nat) (d : Call), s.calls[j]? = some d → d.atWork = true → j = i := by
        intro j d hd hwork
        rcases Bool.or_eq_true_iff.mp hwork with hdc | hdu
        · exact absurd hdc (by simp [hnotCreates j d hd])
        · exact absurd (hs.updater j d hd hdu).1 (by intro h; simp [h] at hlock)
      split
      · next hstarted =>
        have hfinish := hs.finish row s.lock none hc halone hkeys hsent
          (fun h => absurd hstarted (by simp [h])) ?_
        · rw [← hrows] at hfinish
          exact hfinish
        · rw [← hrows, ← hs.results]
          refine Parties.filterMap_modify_eq _ _ fun a ha => ?_
          obtain rfl := Option.some.inj (hc.symm.trans ha)
          rfl
      · next hstarted =>
        refine hs.work (some i) hc rfl rfl halone (nomatch ·)
          (fun _ => ⟨rfl, row, hrows, Bool.eq_false_iff.mpr hstarted⟩) ?_ nofun
        intro row' hrow'
        obtain rfl := Option.some.inj (Phase.found.inj hrow')
        exact hrows

theorem keys_set {α β : Type*} [DecidableEq α] {k : α} (v : β) {kvs : List (α × β)} (h : k ∈ kvs.map Prod.fst) :
    (Assoc.set k v kvs).map Prod.fst = kvs.map Prod.fst := by
  induction kvs with
  | nil => simp at h
  | cons kv kvs ih =>
    by_cases hk : kv.1 = k
    · simp [Assoc.set, hk]
    · have hmem : k ∈ kvs.map Prod.fst := (List.mem_cons.mp h).resolve_left (Ne.symm hk)
      simp [Assoc.set, hk, ih hmem]

/-- The statuses that are there, or just asked for, with the status that the call brings. -/
theorem UpToDate.set (h : UpToDate runs s none group) (hc : s.calls[i]? = some c) (hstatus : c.status = s.current c.run) :
    UpToDate runs s (some i) (Assoc.set c.run c.status group) := by
  intro r hr
  by_cases hrun : r = c.run
  · left
    rw [hrun, Assoc.get?_set_self, hstatus]
  · rw [Assoc.get?_set_of_ne hrun]
    refine (h r hr).imp_right fun ⟨j, d, hd, _, hdone, hr', hstatus'⟩ => ⟨j, d, hd, ?_, hdone, hr', hstatus'⟩
    intro hj
    rw [Option.some.inj hj, hc] at hd
    exact hrun (Option.some.inj hd ▸ hr'.symm)

theorem get?_getAllWorkflows {r : String} (h : r ∈ runs) :
    Assoc.get? r (getAllWorkflows runs s) = some (s.current r) := by
  induction runs with
  | nil => simp at h
  | cons r' runs ih =>
    by_cases hr : r' = r
    · subst hr
      exact Assoc.get?_cons_self _ _ _
    · have hmem : r ∈ runs := (List.mem_cons.mp h).resolve_left (Ne.symm hr)
      exact (Assoc.get?_cons_of_ne (Ne.symm hr) _ _).trans (ih hmem)

theorem sound_compute (hs : Sound runs s) {commitEntry : Option ProactiveConversation}
    (hc : s.calls[i]? = some ⟨run, status, .found commitEntry⟩) (hturn : status = s.current run) :
    Sound runs (compute runs s i ⟨run, status, .found commitEntry⟩ commitEntry) := by
  have hwork : (⟨run, status, .found commitEntry⟩ : Call).atWork = true := atWork_of_found rfl
  have halone : ∀ (j : Nat) (d : Call), s.calls[j]? = some d → d.atWork = true → j = i :=
    fun j d hd hdw => hs.alone hc hd hwork hdw
  have hrun : run ∈ runs := hs.known _ (List.mem_of_getElem? hc)
  -- both sources of the group have every run
  have hgroup : ∀ group, group = (commitEntry.map ProactiveConversation.workflowRuns).getD (getAllWorkflows runs s) →
      group.map Prod.fst = runs ∧ UpToDate runs s none group := by
    rintro group rfl
    cases commitEntry with
    | none =>
      refine ⟨?_, fun r hr => .inl (get?_getAllWorkflows hr)⟩
      simp [getAllWorkflows, Function.comp_def]
    | some row =>
      obtain ⟨-, row', hrow', hunsent⟩ := hs.updater i _ hc rfl
      obtain ⟨hkeys, -, hupToDate⟩ := hs.row row (by rw [hs.foundRow i _ row hc rfl]; exact List.mem_singleton_self row)
      have hrow : row' = row := by simpa [hs.foundRow i _ row hc rfl] using hrow'.symm
      exact ⟨hkeys, hupToDate (hrow ▸ hunsent)⟩
  obtain ⟨hkeys, hupToDate⟩ := hgroup _ rfl
  refine hs.work s.lock hc rfl (atWork_of_writing rfl) halone ?_ ?_ nofun ?_
  · intro hcreates
    cases commitEntry with
    | none => exact (hs.creator i _ hc rfl).1
    | some row => exact absurd hcreates Bool.false_ne_true
  · intro hupdates
    cases commitEntry with
    | none => exact absurd hupdates Bool.false_ne_true
    | some row => exact hs.updater i _ hc rfl
  · rintro rows group send hphase
    obtain ⟨rfl, rfl, rfl⟩ := Phase.writing.inj hphase
    refine ⟨?_, rfl, hupToDate.set hc hturn, ?_⟩
    · rw [keys_set status (by rw [hkeys]; exact hrun), hkeys]
    · intro n hn
      obtain ⟨row, hrow, rfl⟩ := Option.map_eq_some_iff.mp hn
      rw [hrow] at hc
      rw [hs.foundRow i _ row hc rfl, List.length_singleton]

theorem sound_commit (hs : Sound runs s) {rows : Option Nat} {send : Bool}
    (hc : s.calls[i]? = some ⟨run, status, .writing rows group send⟩) : Sound runs (commit s i rows group send) := by
  have hwork : (⟨run, status, .writing rows group send⟩ : Call).atWork = true := atWork_of_writing rfl
  obtain ⟨hkeys, hsend, hupToDate, hone⟩ := hs.draft i _ rows group send hc rfl
  -- no group has been handed on before this one
  have hbefore : s.calls.filterMap Call.result = [] := by
    rw [hs.results]
    rcases rows with - | n
    · rw [(hs.creator i _ hc rfl).1, List.filterMap_nil]
    · obtain ⟨-, row, hrow, hunsent⟩ := hs.updater i _ hc rfl
      simp [hrow, hunsent]
  have hfinish : ∀ lock, Sound runs
      (State.setPhase { s with lock := lock, rows := [⟨group, send⟩] } i (.returned (if send then some group else none))) := by
    intro lock
    refine hs.finish ⟨group, send⟩ lock (if send then some group else none) hc (fun j d hd hdw => hs.alone hc hd hwork hdw) hkeys hsend
      (fun _ => hupToDate) ?_
    refine (Parties.filterMap_modify_of_nil _ _ hc hbefore).trans ?_
    cases send <;> rfl
  unfold commit
  rcases rows with - | n
  · simp only [(hs.creator i _ hc rfl).1, List.nil_append]
    exact hfinish s.lock
  · obtain ⟨-, row, hrow, -⟩ := hs.updater i _ hc rfl
    obtain rfl := hone n rfl
    simp only [hrow, List.take_succ_cons, List.take_zero, List.map_cons, List.map_nil, List.drop_succ_cons,
      List.drop_zero, List.append_nil]
    exact hfinish none

theorem sound_step (hs : Sound runs s) (i : Step) (hturn : InTurn s i) : Sound runs (step runs s i) := by
  cases i with
  | event run status =>
    simp only [step]
    split
    · next hrun => exact sound_event hs hrun
    · exact hs
  | select i first =>
    simp only [step]
    split
    · next hc => exact sound_select hs first hc hturn
    · exact hs
  | compute i =>
    simp only [step]
    split
    · next hc => exact sound_compute hs hc (hturn _ hc rfl)
    · exact hs
  | commit i =>
    simp only [step]
    split
    · next hc => exact sound_commit hs hc
    · exact hs

theorem sound_start : Sound runs {} where
  known := fun _ h => (List.not_mem_nil h).elim
  quiet _ _ := rfl
  single := Nat.zero_le 1
  creator i c hc := absurd hc (by simp)
  updater i c hc := absurd hc (by simp)
  foundRow i c row hc := absurd hc (by simp)
  row := fun _ h => (List.not_mem_nil h).elim
  draft i c rows group send hc := absurd hc (by simp)
  results := rfl
  stored := fun ⟨_, h, _⟩ => (List.not_mem_nil h).elim

theorem shouldSend_of_current (hkeys : group.map Prod.fst = runs) (hnodup : runs.Nodup)
    (hget : ∀ r ∈ runs, Assoc.get? r group = some (s.current r)) (hpending : ∀ r ∈ runs, s.current r ≠ .pending)
    (hfailure : ∃ r ∈ runs, s.current r = .failure) : shouldSend group = true := by
  have hstatus : ∀ kv ∈ group, kv.2 = s.current kv.1 := by
    intro kv hkv
    have hmem : kv.1 ∈ runs := hkeys ▸ List.mem_map_of_mem hkv
    have hkv' := Assoc.get?_of_mem (hkeys ▸ hnodup) hkv
    exact Option.some.inj (hkv'.symm.trans (hget _ hmem))
  rw [shouldSend, Bool.and_eq_true, List.all_eq_true, List.any_eq_true]
  constructor
  · intro kv hkv
    have hne := hpending kv.1 (hkeys ▸ List.mem_map_of_mem hkv)
    rw [hstatus kv hkv]
    simpa using hne
  · obtain ⟨r, hr, hfail⟩ := hfailure
    refine ⟨(r, s.current r), Assoc.mem_of_get? (hget r hr), ?_⟩
    simp [hfail]

theorem Sound.startedOnce (hs : Sound runs s) (hnodup : runs.Nodup) : StartedOnce runs s where
  most := by
    rw [hs.results]
    exact (List.length_filterMap_le _ _).trans hs.single
  exact := by
    intro hdone hpending hfailure
    obtain ⟨r₀, hr₀, hfail₀⟩ := hfailure
    have hcalls : s.calls ≠ [] := fun h => by simp [hs.quiet h r₀] at hfail₀
    obtain ⟨c, hc⟩ := List.exists_mem_of_ne_nil _ hcalls
    obtain ⟨row, hrow⟩ := List.exists_mem_of_ne_nil _ (hs.stored ⟨c, hc, hdone c hc⟩)
    have hrows : s.rows = [row] := by
      obtain ⟨row', hrow'⟩ := List.length_eq_one_iff.mp (le_antisymm hs.single (List.length_pos_of_mem hrow))
      rw [hrow'] at hrow
      rw [hrow', List.mem_singleton.mp hrow]
    obtain ⟨hkeys, hsent, hupToDate⟩ := hs.row row hrow
    have hstarted : row.conversationStarterSent = true := by
      by_contra hunsent
      rw [Bool.not_eq_true] at hunsent
      -- no call is left that could bring a status
      have hget : ∀ r ∈ runs, Assoc.get? r row.workflowRuns = some (s.current r) := by
        intro r hr
        rcases hupToDate hunsent r hr with h | ⟨j, d, hd, -, hd', -⟩
        · exact h
        · exact absurd (hdone d (List.mem_of_getElem? hd)) (by simp [hd'])
      have := shouldSend_of_current hkeys hnodup hget hpending ⟨r₀, hr₀, hfail₀⟩
      rw [hsent, this] at hunsent
      exact absurd hunsent (by simp)
    exact ⟨row.workflowRuns, by rw [hs.results, hrows]; simp [hstarted], hkeys⟩

/-- Events handled one after the other, up to the order in which they take the lock, start one conversation. -/
theorem startedOnce_run (hnodup : runs.Nodup) (steps : List Step)
    (h : Runs.EachStep (step runs) {} InTurn steps) : StartedOnce runs (steps.foldl (step runs) {}) :=
  (h.invariant sound_start fun _ i hs hturn => sound_step hs i hturn).startedOnce hnodup

end

theorem startedOnce_run_failure : StartedOnce ["lint", "test"]
    ([.event "lint" .failure, .event "test" .completed, .select 0 0, .compute 0, .commit 0,
      .select 1 0].foldl (step ["lint", "test"]) {}) :=
  startedOnce_run (by decide) _ (by decide)

/-- Two calls that find no record both create one, and both hand the group on. -/
theorem startedOnce_counterexample : ¬ ∀ (runs : List String) (steps : List Step), runs.Nodup →
    StartedOnce runs (steps.foldl (step runs) {}) := by
  intro h
  have hmost := (h ["lint", "test"] [.event "lint" .failure, .event "test" .completed, .select 0 0, .select 1 0,
    .compute 0, .compute 1, .commit 0, .commit 1] (by decide)).most
  exact absurd hmost (by decide)

/-- A status that comes after the one that followed it is the one that is kept, and the group is never handed on. -/
example : (([.event "test" .pending, .select 0 0, .compute 0, .commit 0, .event "lint" .pending, .event "lint" .failure,
    .select 2 0, .compute 2, .commit 2, .select 1 0, .compute 1, .commit 1, .event "test" .completed,
    .select 3 0, .compute 3, .commit 3] : List Step).foldl (step ["lint", "test"]) {}).rows =
    [⟨[("lint", .pending), ("test", .completed)], false⟩] := by decide

end OpenHands.ProactiveConversations
