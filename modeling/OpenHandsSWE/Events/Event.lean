import OpenHandsSWE.Events.Metrics

/-! Events: the dataclasses of actions and observations, and what every event carries besides. -/

namespace OpenHands

inductive EventSource where
  | agent
  | user
  | environment
deriving DecidableEq, Repr

inductive FileEditSource where
  | llmBasedEdit
  | ohAci
deriving DecidableEq, Repr

inductive FileReadSource where
  | ohAci
  | default
deriving DecidableEq, Repr

inductive RecallType where
  | workspaceContext
  | knowledge
deriving DecidableEq, Repr

inductive ActionConfirmationStatus where
  | confirmed
  | rejected
  | awaitingConfirmation
deriving DecidableEq, Repr

inductive ActionSecurityRisk where
  | unknown
  | low
  | medium
  | high
deriving DecidableEq, Repr

inductive AgentState where
  | loading
  | running
  | awaitingUserInput
  | paused
  | stopped
  | finished
  | rejected
  | error
  | awaitingUserConfirmation
  | userConfirmed
  | userRejected
  | rateLimited
deriving DecidableEq, Repr

/-- An attribute that the code annotates with an enumeration but sets to the text it reads. -/
inductive Unchecked (α : Type) where
  | known (a : α)
  | text (s : String)
deriving DecidableEq, Repr

/-! ## Tool-call metadata -/

structure ToolCall where
  id : Option String
  name : String
  arguments : String
deriving DecidableEq, Repr

/-- The roles in the LLM's APIs. -/
inductive Role where
  | user
  | system
  | assistant
  | tool
deriving DecidableEq, Repr

/-- The message of an LLM response; an LLM answers as the assistant. -/
structure AssistantMessage where
  role : Role
  content : Option String
  toolCalls : Option (List ToolCall)
  isAssistant : role = .assistant
deriving DecidableEq, Repr

/-- An LLM response with its first choice. -/
structure ModelResponse where
  id : String
  message : AssistantMessage
deriving DecidableEq, Repr

structure ToolCallMetadata where
  functionName : String
  toolCallId : String
  modelResponse : ModelResponse
  totalCallsInResponse : Int
deriving DecidableEq, Repr

/-! ## Actions -/

structure ChangeAgentStateAction where
  agentState : String
  thought : String := ""
deriving DecidableEq, Repr

structure AgentFinishAction where
  finalThought : String := ""
  outputs : Dict := []
  thought : String := ""
deriving DecidableEq, Repr

structure AgentThinkAction where
  thought : String := ""
deriving DecidableEq, Repr

structure AgentRejectAction where
  outputs : Dict := []
  thought : String := ""
deriving DecidableEq, Repr

structure AgentDelegateAction where
  agent : String
  inputs : Dict
  thought : String := ""
deriving DecidableEq, Repr

structure RecallAction where
  recallType : Unchecked RecallType
  query : String := ""
  thought : String := ""
deriving DecidableEq, Repr

/-- Either a list of ids or a whole range is forgotten; a summary comes with its offset. -/
def validateFieldPolymorphism (ids : Option (List Int)) (startId endId : Option Int)
    (summary : Option String) (summaryOffset : Option Int) : Bool :=
  (ids.isSome ^^ (startId.isSome && endId.isSome)) && (summary.isSome == summaryOffset.isSome)

theorem validateFieldPolymorphism_range (startId endId : Int) :
    validateFieldPolymorphism none (some startId) (some endId) none none = true := by
  simp [validateFieldPolymorphism]

structure CondensationAction where
  forgottenEventIds : Option (List Int) := none
  forgottenEventsStartId : Option Int := none
  forgottenEventsEndId : Option Int := none
  summary : Option String := none
  summaryOffset : Option Int := none
  valid : validateFieldPolymorphism forgottenEventIds forgottenEventsStartId forgottenEventsEndId
    summary summaryOffset = true
deriving DecidableEq, Repr

structure TaskTrackingAction where
  command : String := "view"
  taskList : List Json := []
  thought : String := ""
deriving DecidableEq, Repr

structure LoopRecoveryAction where
  option : Int := 1
deriving DecidableEq, Repr

structure BrowseURLAction where
  url : String
  thought : String := ""
  securityRisk : ActionSecurityRisk := .unknown
  returnAxtree : Bool := false
deriving DecidableEq, Repr

structure BrowseInteractiveAction where
  browserActions : String
  thought : String := ""
  browsergymSendMsgToUser : String := ""
  securityRisk : ActionSecurityRisk := .unknown
  returnAxtree : Bool := false
deriving DecidableEq, Repr

structure CmdRunAction where
  command : String
  isInput : Bool := false
  thought : String := ""
  blocking : Bool := false
  isStatic : Bool := false
  cwd : Option String := none
  hidden : Bool := false
  confirmationState : Unchecked ActionConfirmationStatus := .known .confirmed
  securityRisk : ActionSecurityRisk := .unknown
deriving DecidableEq, Repr

structure IPythonRunCellAction where
  code : String
  thought : String := ""
  includeExtra : Bool := true
  confirmationState : Unchecked ActionConfirmationStatus := .known .confirmed
  securityRisk : ActionSecurityRisk := .unknown
  kernelInitCode : String := ""
deriving DecidableEq, Repr

structure FileReadAction where
  path : String
  start : Int := 0
  «end» : Int := -1
  thought : String := ""
  securityRisk : ActionSecurityRisk := .unknown
  implSource : Unchecked FileReadSource := .known .default
  viewRange : Option (List Int) := none
deriving DecidableEq, Repr

structure FileWriteAction where
  path : String
  content : String
  start : Int := 0
  «end» : Int := -1
  thought : String := ""
  securityRisk : ActionSecurityRisk := .unknown
deriving DecidableEq, Repr

structure FileEditAction where
  path : String
  command : String := ""
  fileText : Option String := none
  oldStr : Option String := none
  newStr : Option String := none
  insertLine : Option Int := none
  content : String := ""
  start : Int := 1
  «end» : Int := -1
  thought : String := ""
  securityRisk : ActionSecurityRisk := .unknown
  implSource : Unchecked FileEditSource := .known .ohAci
deriving DecidableEq, Repr

structure MCPAction where
  name : String
  arguments : Dict := []
  thought : String := ""
  securityRisk : ActionSecurityRisk := .unknown
deriving DecidableEq, Repr

structure MessageAction where
  content : String
  fileUrls : Option (List String) := none
  imageUrls : Option (List String) := none
  waitForResponse : Bool := false
  securityRisk : ActionSecurityRisk := .unknown
deriving DecidableEq, Repr

structure SystemMessageAction where
  content : String
  tools : Option (List Json) := none
  openhandsVersion : Option String := none
  agentClass : Option String := none
deriving DecidableEq, Repr

inductive Action where
  | null
  | cmdRun (a : CmdRunAction)
  | ipythonRunCell (a : IPythonRunCellAction)
  | browseURL (a : BrowseURLAction)
  | browseInteractive (a : BrowseInteractiveAction)
  | fileRead (a : FileReadAction)
  | fileWrite (a : FileWriteAction)
  | fileEdit (a : FileEditAction)
  | agentThink (a : AgentThinkAction)
  | agentFinish (a : AgentFinishAction)
  | agentReject (a : AgentRejectAction)
  | agentDelegate (a : AgentDelegateAction)
  | recallAction (a : RecallAction)
  | changeAgentState (a : ChangeAgentStateAction)
  | message (a : MessageAction)
  | systemMessage (a : SystemMessageAction)
  | condensation (a : CondensationAction)
  | condensationRequest
  | mcp (a : MCPAction)
  | taskTracking (a : TaskTrackingAction)
  | loopRecovery (a : LoopRecoveryAction)
deriving DecidableEq, Repr

/-! ## Observations -/

structure MicroagentKnowledge where
  name : String
  trigger : String
  content : String
deriving DecidableEq, Repr

structure AgentStateChangedObservation where
  content : String
  agentState : String
  reason : String := ""
deriving DecidableEq, Repr

/-- An observation with nothing but its content. -/
structure PlainObservation where
  content : String
deriving DecidableEq, Repr

structure RecallObservation where
  content : String
  recallType : RecallType
  repoName : String := ""
  repoDirectory : String := ""
  repoBranch : String := ""
  repoInstructions : String := ""
  runtimeHosts : List (String × Int) := []
  additionalAgentInstructions : String := ""
  date : String := ""
  customSecretsDescriptions : List (String × String) := []
  conversationInstructions : String := ""
  workingDir : String := ""
  microagentKnowledge : List MicroagentKnowledge := []
deriving DecidableEq, Repr

structure BrowserOutputObservation where
  content : String
  url : String
  triggerByAction : String
  screenshot : String := ""
  screenshotPath : Option String := none
  setOfMarks : String := ""
  error : Bool := false
  goalImageUrls : List String := []
  openPagesUrls : List String := []
  activePageIndex : Int := -1
  domObject : Dict := []
  axtreeObject : Dict := []
  extraElementProperties : Dict := []
  lastBrowserAction : String := ""
  lastBrowserActionError : String := ""
  focusedElementBid : String := ""
  filterVisibleOnly : Bool := false
deriving DecidableEq, Repr

structure AgentDelegateObservation where
  content : String
  outputs : Dict
deriving DecidableEq, Repr

structure ErrorObservation where
  content : String
  errorId : String := ""
deriving DecidableEq, Repr

structure FileDownloadObservation where
  content : String
  filePath : String
deriving DecidableEq, Repr

structure MCPObservation where
  content : String
  name : String := ""
  arguments : Dict := []
deriving DecidableEq, Repr

structure TaskTrackingObservation where
  content : String
  command : String := ""
  taskList : List Json := []
deriving DecidableEq, Repr

structure CmdOutputMetadata where
  exitCode : Int := -1
  pid : Int := -1
  username : Option String := none
  hostname : Option String := none
  workingDir : Option String := none
  pyInterpreterPath : Option String := none
  pre : String := ""
  suffix : String := ""
deriving DecidableEq, Repr

structure CmdOutputObservation where
  content : String
  command : String
  metadata : CmdOutputMetadata := {}
  hidden : Bool := false
deriving DecidableEq, Repr

structure IPythonRunCellObservation where
  content : String
  code : String
  imageUrls : Option (List String) := none
deriving DecidableEq, Repr

structure FileReadObservation where
  content : String
  path : String
  implSource : Unchecked FileReadSource := .known .default
deriving DecidableEq, Repr

structure FileWriteObservation where
  content : String
  path : String
deriving DecidableEq, Repr

structure FileEditObservation where
  content : String
  path : String := ""
  prevExist : Bool := false
  oldContent : Option String := none
  newContent : Option String := none
  implSource : Unchecked FileEditSource := .known .llmBasedEdit
  diff : Option String := none
  diffCache : Option String := none
deriving DecidableEq, Repr

inductive Observation where
  | null (o : PlainObservation)
  | cmdOutput (o : CmdOutputObservation)
  | ipythonRunCell (o : IPythonRunCellObservation)
  | browserOutput (o : BrowserOutputObservation)
  | fileRead (o : FileReadObservation)
  | fileWrite (o : FileWriteObservation)
  | fileEdit (o : FileEditObservation)
  | agentDelegate (o : AgentDelegateObservation)
  | success (o : PlainObservation)
  | error (o : ErrorObservation)
  | agentStateChanged (o : AgentStateChangedObservation)
  | userReject (o : PlainObservation)
  | agentCondensation (o : PlainObservation)
  | agentThink (o : PlainObservation)
  | recallObservation (o : RecallObservation)
  | mcp (o : MCPObservation)
  | fileDownload (o : FileDownloadObservation)
  | taskTracking (o : TaskTrackingObservation)
  | loopDetection (o : PlainObservation)
deriving DecidableEq, Repr

/-! ## Events -/

inductive EventBody where
  | action (a : Action)
  | observation (o : Observation)
  | plain -- a bare `Event()`
deriving DecidableEq, Repr

def INVALID_ID : Int := -1

structure Event where
  body : EventBody
  id : Int := INVALID_ID
  timestamp : Option String := none
  source : Option EventSource := none
  cause : Option Int := none
  timeout : Option FloatLit := none
  toolCallMetadata : Option ToolCallMetadata := none
  llmMetrics : Option Metrics := none
deriving DecidableEq, Repr

namespace Action

/-- The class attribute `runnable`. -/
def runnable : Action → Bool
  | cmdRun _ | ipythonRunCell _ | browseURL _ | browseInteractive _ | fileRead _ | fileWrite _
  | fileEdit _ | mcp _ => true
  | _ => false

def hidden : Action → Bool
  | cmdRun a => a.hidden
  | _ => false

end Action

namespace Observation

def content : Observation → String
  | null o | success o | userReject o | agentCondensation o | agentThink o | loopDetection o =>
    o.content
  | cmdOutput o => o.content
  | ipythonRunCell o => o.content
  | browserOutput o => o.content
  | fileRead o => o.content
  | fileWrite o => o.content
  | fileEdit o => o.content
  | agentDelegate o => o.content
  | error o => o.content
  | agentStateChanged o => o.content
  | recallObservation o => o.content
  | mcp o => o.content
  | fileDownload o => o.content
  | taskTracking o => o.content

def hidden : Observation → Bool
  | cmdOutput o => o.hidden
  | _ => false

end Observation

namespace Event

/-- `getattr(event, 'hidden', False)`. -/
def hidden (e : Event) : Bool :=
  match e.body with
  | .action a => a.hidden
  | .observation o => o.hidden
  | .plain => false

def runnable (e : Event) : Bool :=
  match e.body with
  | .action a => a.runnable
  | _ => false

def isAction (e : Event) : Bool := e.body matches .action _

def isObservation (e : Event) : Bool := e.body matches .observation _

def isDelegateAction (e : Event) : Bool := e.body matches .action (.agentDelegate _)

def isDelegateObservation (e : Event) : Bool := e.body matches .observation (.agentDelegate _)

end Event

/-- The range of ids a condensation forgets, or its list of ids. -/
def CondensationAction.forgotten (a : CondensationAction) : List Int :=
  match a.forgottenEventIds, a.forgottenEventsStartId, a.forgottenEventsEndId with
  | some ids, _, _ => ids
  | none, some s, some t => (List.range (t + 1 - s).toNat).map fun (i : Nat) => s + i
  | _, _, _ => []

end OpenHands
