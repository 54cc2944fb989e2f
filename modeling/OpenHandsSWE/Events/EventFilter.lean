import OpenHandsSWE.Events.Event

/-! The classes of events and the filter on them. -/

namespace OpenHands

/-- The registered action classes. -/
inductive ActionClass where
  | null
  | cmdRun
  | ipythonRunCell
  | browseURL
  | browseInteractive
  | fileRead
  | fileWrite
  | fileEdit
  | agentThink
  | agentFinish
  | agentReject
  | agentDelegate
  | recallAction
  | changeAgentState
  | message
  | systemMessage
  | condensation
  | condensationRequest
  | mcp
  | taskTracking
  | loopRecovery
deriving DecidableEq, Repr

/-- The registered observation classes. -/
inductive ObservationClass where
  | null
  | cmdOutput
  | ipythonRunCell
  | browserOutput
  | fileRead
  | fileWrite
  | fileEdit
  | agentDelegate
  | success
  | error
  | agentStateChanged
  | userReject
  | agentCondensation
  | agentThink
  | recallObservation
  | mcp
  | fileDownload
  | taskTracking
  | loopDetection
deriving DecidableEq, Repr

inductive EventClass where
  | action (c : ActionClass)
  | observation (c : ObservationClass)
deriving DecidableEq, Repr

def Action.cls : Action → ActionClass
  | .null => .null
  | .cmdRun _ => .cmdRun
  | .ipythonRunCell _ => .ipythonRunCell
  | .browseURL _ => .browseURL
  | .browseInteractive _ => .browseInteractive
  | .fileRead _ => .fileRead
  | .fileWrite _ => .fileWrite
  | .fileEdit _ => .fileEdit
  | .agentThink _ => .agentThink
  | .agentFinish _ => .agentFinish
  | .agentReject _ => .agentReject
  | .agentDelegate _ => .agentDelegate
  | .recallAction _ => .recallAction
  | .changeAgentState _ => .changeAgentState
  | .message _ => .message
  | .systemMessage _ => .systemMessage
  | .condensation _ => .condensation
  | .condensationRequest => .condensationRequest
  | .mcp _ => .mcp
  | .taskTracking _ => .taskTracking
  | .loopRecovery _ => .loopRecovery

def Observation.cls : Observation → ObservationClass
  | .null _ => .null
  | .cmdOutput _ => .cmdOutput
  | .ipythonRunCell _ => .ipythonRunCell
  | .browserOutput _ => .browserOutput
  | .fileRead _ => .fileRead
  | .fileWrite _ => .fileWrite
  | .fileEdit _ => .fileEdit
  | .agentDelegate _ => .agentDelegate
  | .success _ => .success
  | .error _ => .error
  | .agentStateChanged _ => .agentStateChanged
  | .userReject _ => .userReject
  | .agentCondensation _ => .agentCondensation
  | .agentThink _ => .agentThink
  | .recallObservation _ => .recallObservation
  | .mcp _ => .mcp
  | .fileDownload _ => .fileDownload
  | .taskTracking _ => .taskTracking
  | .loopDetection _ => .loopDetection

/-- The class attribute `action`. -/
def ActionClass.type : ActionClass → String
  | .null => "null"
  | .cmdRun => "run"
  | .ipythonRunCell => "run_ipython"
  | .browseURL => "browse"
  | .browseInteractive => "browse_interactive"
  | .fileRead => "read"
  | .fileWrite => "write"
  | .fileEdit => "edit"
  | .agentThink => "think"
  | .agentFinish => "finish"
  | .agentReject => "reject"
  | .agentDelegate => "delegate"
  | .recallAction => "recall"
  | .changeAgentState => "change_agent_state"
  | .message => "message"
  | .systemMessage => "system"
  | .condensation => "condensation"
  | .condensationRequest => "condensation_request"
  | .mcp => "call_tool_mcp"
  | .taskTracking => "task_tracking"
  | .loopRecovery => "loop_recovery"

/-- The class attribute `observation`. -/
def ObservationClass.type : ObservationClass → String
  | .null => "null"
  | .cmdOutput => "run"
  | .ipythonRunCell => "run_ipython"
  | .browserOutput => "browse"
  | .fileRead => "read"
  | .fileWrite => "write"
  | .fileEdit => "edit"
  | .agentDelegate => "delegate"
  | .success => "success"
  | .error => "error"
  | .agentStateChanged => "agent_state_changed"
  | .userReject => "user_rejected"
  | .agentCondensation => "condense"
  | .agentThink => "think"
  | .recallObservation => "recall"
  | .mcp => "mcp"
  | .fileDownload => "download"
  | .taskTracking => "task_tracking"
  | .loopDetection => "loop_detection"

namespace Event

def cls (e : Event) : Option EventClass :=
  match e.body with
  | .action a => some (.action a.cls)
  | .observation o => some (.observation o.cls)
  | .plain => none

def isinstance (e : Event) (types : List EventClass) : Bool :=
  match e.cls with
  | some c => types.contains c
  | none => false

end Event

def EventSource.value : EventSource → String
  | .agent => "agent"
  | .user => "user"
  | .environment => "environment"

structure EventFilter where
  excludeHidden : Bool := false
  query : Option String := none
  includeTypes : Option (List EventClass) := none
  excludeTypes : Option (List EventClass) := none
  source : Option String := none
  startDate : Option String := none
  endDate : Option String := none
deriving DecidableEq, Repr

/-- Python's truth value of an optional text. -/
def truthy (s : Option String) : Bool := s.getD "" != ""

namespace EventFilter

/-- `lowered` is the lower-case text of an event's dictionary and of the query. -/
def includes (f : EventFilter) (e : Event) (lowered : Event → List Char)
    (lower : String → List Char) : Bool :=
  if (f.includeTypes.any fun ts => ts != [] && !e.isinstance ts) then false
  else if (f.excludeTypes.any fun ts => e.isinstance ts) then false
  else if truthy f.source && (e.source.map EventSource.value) != f.source then false
  else if truthy f.startDate && (e.timestamp.any fun t => t < f.startDate.getD "") then false
  else if truthy f.endDate && (e.timestamp.any fun t => f.endDate.getD "" < t) then false
  else if f.excludeHidden && e.hidden then false
  else if truthy f.query then decide (lower (f.query.getD "") <:+: lowered e)
  else true

end EventFilter

end OpenHands
