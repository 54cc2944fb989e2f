import OpenHandsSWE.Memory.View
import OpenHandsSWE.Memory.Message
import OpenHandsSWE.Lib.JsonText

/-! The condensers that summarise what they forget, and the agent loop that asks them. -/

namespace OpenHands

/-- Either the view itself or an event saying that the history has been condensed. -/
inductive Condensed where
  | view (v : View)
  | condensation (action : CondensationAction)
deriving DecidableEq, Repr

/-- The sizes both constructors accept. -/
structure SummarySizes where
  maxSize : Int
  keepFirst : Int
  keepFirst_lt : keepFirst < maxSize / 2
  keepFirst_nonneg : 0 ≤ keepFirst
  maxSize_pos : 1 ≤ maxSize
deriving DecidableEq, Repr

namespace SummarySizes

section Checks

variable {maxSize keepFirst : Int}

theorem keepFirst_lt_of (h : ¬ maxSize / 2 ≤ keepFirst) : keepFirst < maxSize / 2 := Int.not_le.mp h

theorem keepFirst_nonneg_of (h : ¬ keepFirst < 0) : 0 ≤ keepFirst := Int.not_lt.mp h

theorem maxSize_pos_of (h : ¬ maxSize < 1) : 1 ≤ maxSize := Int.not_lt.mp h

end Checks

/-- The checks of the constructor. -/
def init (maxSize keepFirst : Int) : Except PyError SummarySizes :=
  if h1 : maxSize / 2 ≤ keepFirst then
    .error (.valueError ("keep_first (" ++ toString keepFirst ++
      ") must be less than half of max_size (" ++ toString maxSize ++ ")"))
  else if h2 : keepFirst < 0 then
    .error (.valueError ("keep_first (" ++ toString keepFirst ++ ") cannot be negative"))
  else if h3 : maxSize < 1 then
    .error (.valueError ("max_size (" ++ toString maxSize ++ ") cannot be non-positive"))
  else .ok ⟨maxSize, keepFirst, keepFirst_lt_of h1, keepFirst_nonneg_of h2, maxSize_pos_of h3⟩

end SummarySizes

/-! ## Summaries -/

/-- What the LLM answers a condenser: a text, and tool calls when it was offered the tool. -/
structure SummaryResponse where
  content : String := ""
  toolCalls : Option (List ToolCall) := none
deriving DecidableEq, Repr

structure StateSummary where
  userContext : String := ""
  completedTasks : String := ""
  pendingTasks : String := ""
  currentState : String := ""
  filesModified : String := ""
  functionChanges : String := ""
  dataStructures : String := ""
  testsWritten : String := ""
  testsPassing : String := ""
  failingTests : String := ""
  errorMessages : String := ""
  branchCreated : String := ""
  branchName : String := ""
  commitsMade : String := ""
  prCreated : String := ""
  prStatus : String := ""
  dependencies : String := ""
  otherRelevantContext : String := ""
deriving DecidableEq, Repr

namespace StateSummary

/-- An optional text field of the model. -/
def textField (args : Dict) (name : String) : Option String :=
  match Assoc.get? name args with
  | none => some ""
  | some (.str s) => some s
  | some _ => none

/-- `model_validate`: every field is a text, with the empty text as its default. -/
def modelValidate (v : Json) : Option StateSummary :=
  match v with
  | .obj args => do
    let userContext ← textField args "user_context"
    let completedTasks ← textField args "completed_tasks"
    let pendingTasks ← textField args "pending_tasks"
    let currentState ← textField args "current_state"
    let filesModified ← textField args "files_modified"
    let functionChanges ← textField args "function_changes"
    let dataStructures ← textField args "data_structures"
    let testsWritten ← textField args "tests_written"
    let testsPassing ← textField args "tests_passing"
    let failingTests ← textField args "failing_tests"
    let errorMessages ← textField args "error_messages"
    let branchCreated ← textField args "branch_created"
    let branchName ← textField args "branch_name"
    let commitsMade ← textField args "commits_made"
    let prCreated ← textField args "pr_created"
    let prStatus ← textField args "pr_status"
    let dependencies ← textField args "dependencies"
    let otherRelevantContext ← textField args "other_relevant_context"
    return { userContext, completedTasks, pendingTasks, currentState, filesModified, functionChanges, dataStructures, testsWritten, testsPassing, failingTests, errorMessages, branchCreated, branchName, commitsMade, prCreated, prStatus, dependencies, otherRelevantContext }
  | _ => none

def str (s : StateSummary) : String :=
  String.intercalate "\n\n"
    ["# State Summary", "## Core Information",
      "**User Context**: " ++ s.userContext,
      "**Completed Tasks**: " ++ s.completedTasks,
      "**Pending Tasks**: " ++ s.pendingTasks,
      "**Current State**: " ++ s.currentState,
      "## Code Changes",
      "**Files Modified**: " ++ s.filesModified,
      "**Function Changes**: " ++ s.functionChanges,
      "**Data Structures**: " ++ s.dataStructures,
      "**Dependencies**: " ++ s.dependencies,
      "## Testing Status",
      "**Tests Written**: " ++ s.testsWritten,
      "**Tests Passing**: " ++ s.testsPassing,
      "**Failing Tests**: " ++ s.failingTests,
      "**Error Messages**: " ++ s.errorMessages,
      "## Version Control",
      "**Branch Created**: " ++ s.branchCreated,
      "**Branch Name**: " ++ s.branchName,
      "**Commits Made**: " ++ s.commitsMade,
      "**PR Created**: " ++ s.prCreated,
      "**PR Status**: " ++ s.prStatus,
      "## Additional Context",
      "**Other Relevant Context**: " ++ s.otherRelevantContext]

/-- The summary of the tool call, or an empty one when there is none or it cannot be read. -/
def ofResponse (r : SummaryResponse) : StateSummary :=
  match (r.toolCalls.getD []).find? fun tc => tc.name == "create_state_summary" with
  | none => {}
  | some tc => ((Json.loads tc.arguments.toList).bind modelValidate).getD {}

end StateSummary

/-! ## The condensation of a view -/

/-- `str(event)` raises where its assertion fails: a file said to be new whose old content is not
empty. -/
def strError (e : Event) : Option PyError :=
  match e.body with
  | .observation (.fileEdit o) =>
    if o.implSource ≠ .known .ohAci ∧ o.prevExist = false ∧ o.oldContent ≠ some "" then
      some (.assertionError "old_content should be empty if the file is new (prev_exist=False).")
    else none
  | _ => none

def minId (events : List Event) : Except PyError Int :=
  match (events.map Event.id).min? with
  | none => .error (.valueError "min() arg is an empty sequence")
  | some i => .ok i

def maxId (events : List Event) : Except PyError Int :=
  match (events.map Event.id).max? with
  | none => .error (.valueError "max() arg is an empty sequence")
  | some i => .ok i

namespace SummarySizes

variable (c : SummarySizes)

/-- The target size, less the head and the summary. -/
def eventsFromTail (view : List Event) : Int :=
  c.maxSize / 2 - (Py.takeTo view c.keepFirst).length - 1

/-- `view[keep_first : -events_from_tail]`, without earlier summaries. -/
def forgottenEvents (view : List Event) : List Event :=
  (Py.dropTo (Py.takeTo view (-(c.eventsFromTail view))) c.keepFirst).filter
    fun e => !e.isAgentCondensation

/-- The body the two condensers share; `summary` is what becomes of the LLM's answer. -/
def getCondensation (summary : String) (view : View) : Except PyError CondensationAction :=
  if view.events.length ≤ c.keepFirst then .error .indexError
  else
    match (c.forgottenEvents view.events).findSome? strError with
    | some err => .error err
    | none =>
      (minId (c.forgottenEvents view.events)).bind fun startId =>
        (maxId (c.forgottenEvents view.events)).map fun endId =>
          { forgottenEventsStartId := some startId
            forgottenEventsEndId := some endId
            summary := some summary
            summaryOffset := some c.keepFirst
            valid := by simp [validateFieldPolymorphism] }

def shouldCondense (view : View) : Bool :=
  c.maxSize < view.events.length || view.unhandledCondensationRequest

end SummarySizes

inductive SummaryCondenser where
  | llmSummarizing
  | structuredSummary
deriving DecidableEq, Repr

namespace LLMSummarizingCondenser

def getCondensation (c : SummarySizes) (r : SummaryResponse) (view : View) :
    Except PyError CondensationAction :=
  c.getCondensation r.content view

end LLMSummarizingCondenser

namespace StructuredSummaryCondenser

def getCondensation (c : SummarySizes) (r : SummaryResponse) (view : View) :
    Except PyError CondensationAction :=
  c.getCondensation (StateSummary.ofResponse r).str view

end StructuredSummaryCondenser

namespace SummaryCondenser

def summaryText : SummaryCondenser → SummaryResponse → String
  | .llmSummarizing, r => r.content
  | .structuredSummary, r => (StateSummary.ofResponse r).str

def getCondensation : SummaryCondenser → SummarySizes → SummaryResponse → View →
    Except PyError CondensationAction
  | .llmSummarizing => LLMSummarizingCondenser.getCondensation
  | .structuredSummary => StructuredSummaryCondenser.getCondensation

theorem getCondensation_eq (kind : SummaryCondenser) (c : SummarySizes) (r : SummaryResponse)
    (view : View) : kind.getCondensation c r view = c.getCondensation (kind.summaryText r) view := by
  cases kind <;> rfl

/-- `RollingCondenser.condense`. -/
def condense (kind : SummaryCondenser) (c : SummarySizes) (r : SummaryResponse) (view : View) :
    Except PyError Condensed :=
  if c.shouldCondense view then (kind.getCondensation c r view).map .condensation
  else .ok (.view view)

end SummaryCondenser

/-! ## The agent loop -/

/-- An event the loop can be fed: condensations and their summaries come from the condenser alone. -/
structure FedEvent where
  event : Event
  notCondensation : event.condensation? = none
  notSummary : event.isAgentCondensation = false

def nextId (history : List Event) : Int := (history.getLast?.map fun e => e.id + 1).getD 0

/-- An event arrives, with an id at or above the next one, or the condenser is asked. -/
inductive LoopStep where
  | feed (gap : Nat) (e : FedEvent)
  | ask (r : SummaryResponse)

def condensationEvent (history : List Event) (a : CondensationAction) : Event :=
  { body := .action (.condensation a), id := nextId history, source := some .agent }

/-- A returned condensation is appended to the history with the next id. -/
def stepHistory (kind : SummaryCondenser) (c : SummarySizes) (history : List Event) :
    LoopStep → List Event
  | .feed gap e => history ++ [{ e.event with id := nextId history + gap }]
  | .ask r =>
    match kind.condense c r (View.fromEvents history) with
    | .ok (.condensation a) => history ++ [condensationEvent history a]
    | _ => history

def runHistory (kind : SummaryCondenser) (c : SummarySizes) (steps : List LoopStep) : List Event :=
  steps.foldl (stepHistory kind c) []

end OpenHands
