import OpenHandsSWE.Controller.Budget
import OpenHandsSWE.Controller.CachedView
import OpenHandsSWE.Controller.StateTracker
import OpenHandsSWE.Events.EventStream
import OpenHandsSWE.Lib.Binary64
import OpenHandsSWE.Lib.Program

/-! The agent controller: what it does with an event of the stream, and the steps of its agent. -/

namespace OpenHands

/-! ## Agent states as texts -/

namespace AgentState

def value : AgentState → String
  | loading => "loading"
  | running => "running"
  | awaitingUserInput => "awaiting_user_input"
  | paused => "paused"
  | stopped => "stopped"
  | finished => "finished"
  | rejected => "rejected"
  | error => "error"
  | awaitingUserConfirmation => "awaiting_user_confirmation"
  | userConfirmed => "user_confirmed"
  | userRejected => "user_rejected"
  | rateLimited => "rate_limited"

def all : List AgentState :=
  [loading, running, awaitingUserInput, paused, stopped, finished, rejected, error,
    awaitingUserConfirmation, userConfirmed, userRejected, rateLimited]

/-- A text equals the state whose value it is; any other text is put into the state unchecked. -/
def ofText (s : String) : Unchecked AgentState :=
  match all.find? fun a => a.value == s with
  | some a => .known a
  | none => .text s

end AgentState

def Unchecked.toText {α : Type} (value : α → String) : Unchecked α → String
  | known a => value a
  | text s => s

/-! ## Actions as objects -/

namespace Action

/-- `hasattr(action, 'thought')`, and then `action.thought = ''`. -/
def clearThought : Action → Action
  | cmdRun a => cmdRun { a with thought := "" }
  | ipythonRunCell a => ipythonRunCell { a with thought := "" }
  | browseURL a => browseURL { a with thought := "" }
  | browseInteractive a => browseInteractive { a with thought := "" }
  | fileRead a => fileRead { a with thought := "" }
  | fileWrite a => fileWrite { a with thought := "" }
  | fileEdit a => fileEdit { a with thought := "" }
  | agentThink a => agentThink { a with thought := "" }
  | agentFinish a => agentFinish { a with thought := "" }
  | agentReject a => agentReject { a with thought := "" }
  | agentDelegate a => agentDelegate { a with thought := "" }
  | recallAction a => recallAction { a with thought := "" }
  | changeAgentState a => changeAgentState { a with thought := "" }
  | mcp a => mcp { a with thought := "" }
  | taskTracking a => taskTracking { a with thought := "" }
  | null => null
  | message a => message a
  | systemMessage a => systemMessage a
  | condensation a => condensation a
  | condensationRequest => condensationRequest
  | loopRecovery a => loopRecovery a

def setSecurityRisk (risk : ActionSecurityRisk) : Action → Action
  | cmdRun a => cmdRun { a with securityRisk := risk }
  | ipythonRunCell a => ipythonRunCell { a with securityRisk := risk }
  | browseURL a => browseURL { a with securityRisk := risk }
  | browseInteractive a => browseInteractive { a with securityRisk := risk }
  | fileRead a => fileRead { a with securityRisk := risk }
  | fileWrite a => fileWrite { a with securityRisk := risk }
  | fileEdit a => fileEdit { a with securityRisk := risk }
  | mcp a => mcp { a with securityRisk := risk }
  | message a => message { a with securityRisk := risk }
  | a => a

/-- The actions whose risk is looked at in confirmation mode. -/
def isChecked : Action → Bool
  | cmdRun _ | ipythonRunCell _ | browseInteractive _ | fileEdit _ | fileRead _ => true
  | _ => false

/-- The attribute `confirmation_state` of the two classes that have it as a field. -/
def confirmationField : Action → Option (Unchecked ActionConfirmationStatus)
  | cmdRun a => some a.confirmationState
  | ipythonRunCell a => some a.confirmationState
  | _ => none

def setConfirmationField (status : ActionConfirmationStatus) : Action → Action
  | cmdRun a => cmdRun { a with confirmationState := .known status }
  | ipythonRunCell a => ipythonRunCell { a with confirmationState := .known status }
  | a => a

end Action

/-- An event as the object that the controller holds on to. Setting `confirmation_state` on an
action without such a field gives it an attribute that is no part of its event. -/
structure Obj where
  event : Event
  adHoc : Option ActionConfirmationStatus := none
deriving DecidableEq

namespace Obj

def confirmationState (o : Obj) : Option (Unchecked ActionConfirmationStatus) :=
  match o.event.body with
  | .action a =>
    match a.confirmationField with
    | some status => some status
    | none => o.adHoc.map .known
  | _ => o.adHoc.map .known

def setConfirmationState (o : Obj) (status : ActionConfirmationStatus) : Obj :=
  match o.event.body with
  | .action a =>
    if a.confirmationField.isSome then
      { o with event := { o.event with body := .action (a.setConfirmationField status) } }
    else { o with adHoc := some status }
  | _ => { o with adHoc := some status }

def clearThought (o : Obj) : Obj :=
  match o.event.body with
  | .action a => { o with event := { o.event with body := .action a.clearThought } }
  | _ => o

/-- A pending action that the user confirmed or rejected, without its id. -/
def commanded (o : Obj) (status : ActionConfirmationStatus) : Obj :=
  let o := o.clearThought.setConfirmationState status
  { o with event := { o.event with id := INVALID_ID } }

end Obj

/-! ## The desk -/

/-- An event as a subscriber receives it, and the object it was made of when the controller keeps
one. -/
structure Delivery where
  event : Event
  object : Option Nat := none

/-- What is recorded of a run: an action came back from the agent, was given an id to go into the
stream, was confirmed or rejected in some agent state, or lost its place as the pending one. -/
inductive Mark where
  | returned (object : Nat)
  | emitted (object : Nat) (byStep : Bool) (id : Int) (sent : Obj) (secrets : List String)
  | commanded (object : Nat) (status : ActionConfirmationStatus) (old : Unchecked AgentState)
    (before : Obj)
  | overwritten (object : Nat) (before : Obj)
  | observed (cause : Option Int)
  | reset
deriving DecidableEq

structure Entry where
  isDelegate : Bool
  mark : Mark
deriving DecidableEq

/-- What the controllers of a session share: the stream, the objects they made, what the stream's
subscribers have still to take, and the record of the run. -/
structure Desk where
  stream : EventStream
  heap : List Obj := []
  toController : List Delivery := []
  toRuntime : List Delivery := []
  trace : List Entry := []

/-! ## The controller -/

structure Settings where
  headlessMode : Bool := true
  confirmationMode : Bool := false
  securityAnalyzer : Bool := false
  statusCallback : Bool := false
  agentName : String := ""
  cliMode : Bool := false
  enableHistoryTruncation : Bool := true

/-- A controller. Its state's `agent_state` stands beside the state, since a client's text is put
into it unchecked; of the stuck detector's analysis it keeps where the loop starts. -/
structure Controller where
  settings : Settings := {}
  state : State := {}
  agentState : Unchecked AgentState := .known .loading
  pending : Option Nat := none
  stuckAnalysis : Option Int := none
  cachedFirstUserMessage : Option Event := none
  replay : List Event := []
  delegate : Option Controller := none

inductive RaisedKind where
  | rateLimit (exhausted : Bool)
  | llm (status : Option String)
  | other
deriving DecidableEq

/-- An exception, with what `_react_to_exception` tells apart. -/
structure Raised where
  name : String
  message : String
  kind : RaisedKind := .other
deriving DecidableEq

def PyError.raised : PyError → Raised
  | .valueError message => ⟨"ValueError", message, .other⟩
  | .assertionError message => ⟨"AssertionError", message, .other⟩
  | .keyError key => ⟨"KeyError", key, .other⟩
  | .typeError message => ⟨"TypeError", message, .other⟩
  | .indexError => ⟨"IndexError", "list index out of range", .other⟩
  | .overflowError => ⟨"OverflowError", "cannot convert float infinity to integer", .other⟩
  | .osError name => ⟨name, "", .other⟩
  | .attributeError message => ⟨"AttributeError", message, .other⟩
  | .fileNotFoundError => ⟨"FileNotFoundError", "", .other⟩
  | .malformedAction message => ⟨"LLMMalformedActionError", message, .other⟩
  | .functionCallConversion message => ⟨"FunctionCallConversionError", message, .other⟩
  | .functionCallValidation message => ⟨"FunctionCallValidationError", message, .other⟩
  | .functionCallNotExists message => ⟨"FunctionCallNotExistsError", message, .other⟩

/-- How a call of `agent.step` ends. -/
inductive AgentAnswer where
  | action (a : Action) (toolCallMetadata : Option ToolCallMetadata)
  | noAction
  | refused (content : String)
  | contextWindowExceeded
  | raises (e : Raised)

structure DelegateAgent where
  name : String
  cliMode : Bool
  enableHistoryTruncation : Bool
  systemMessage : Option SystemMessageAction

/-- What the parts outside the controller answer while it handles one event. The detector says
whether the agent is stuck and leaves an analysis behind; the analyzer finds a risk or raises. -/
structure Answers where
  isStuck : Bool := false
  stuckAnalysis : Option Int := none
  stats : ConversationStats := {}
  agent : AgentAnswer := .noAction
  securityRisk : Option ActionSecurityRisk := none
  frontendMetrics : Metrics := {}
  delegateAgent : Except Raised DelegateAgent := .error ⟨"AgentNotRegisteredError", "", .other⟩

/-- A controller at the shared desk; a delegate works there in its parent's turn. -/
structure Turn where
  self : Controller
  desk : Desk
  isDelegate : Bool := false

/-- The pending object with its number. -/
def Turn.current (t : Turn) : Option (Nat × Obj) :=
  t.self.pending.bind fun k => (t.desk.heap[k]?).map fun o => (k, o)

abbrev Ctl (α : Type) := Program Raised Turn α

/-- The stream after a call of `add_event`; where its locked section raised, only the id is gone. -/
def EventStream.added (out : Outside) (s : EventStream) (e : Event) (source : EventSource)
    (timestamp : String) : EventStream :=
  let k := s.calls.length
  (((s.enter out e source timestamp).write k).storePage k).deliver k

namespace Desk

variable (out : Outside) (clock : Int → String)

def note (d : Desk) (isDelegate : Bool) (m : Mark) : Desk :=
  { d with trace := d.trace ++ [⟨isDelegate, m⟩] }

/-- A new event in a subscriber's pool, with `place` events already behind it: another thread's
call may come between two calls of a handler. -/
def arrive (place : Nat) (d : Delivery) (pool : List Delivery) : List Delivery :=
  pool.insertIdx (pool.length - place) d

/-- A call of `add_event`, at the time that the clock gives its id. -/
def add (d : Desk) (place : Nat) (object : Option Nat) (e : Event) (source : EventSource) :
    Except PyError Unit × Desk :=
  if e.id ≠ INVALID_ID then (.error (EventStream.alreadyAdded e), d)
  else
    let now := clock d.stream.curId
    let stream := d.stream.added out e source now
    match d.stream.prepare out e source now with
    | .error err => (.error err, { d with stream })
    | .ok (_, delivered) =>
      (.ok (), { d with stream
                        toController := arrive place ⟨delivered, object⟩ d.toController
                        toRuntime := arrive place ⟨delivered, object⟩ d.toRuntime })

/-- The same for an object the controller keeps, which has its id before the call can raise. -/
def addObject (d : Desk) (isDelegate byStep : Bool) (k : Nat) (o : Obj) (source : EventSource) :
    Except PyError Unit × Desk :=
  if o.event.id ≠ INVALID_ID then (.error (EventStream.alreadyAdded o.event), d)
  else
    let id := d.stream.curId
    let stamped := { o with event := EventStream.stamp o.event source (clock id) id }
    let d := { d with heap := d.heap.set k stamped }.note isDelegate
      (.emitted k byStep id o (d.stream.secrets.map Prod.snd))
    d.add out clock 0 (some k) o.event source

end Desk

namespace Controller

variable (out : Outside) (clock : Int → String)

def modifySelf (f : Controller → Controller) : Ctl Unit := modify fun t => { t with self := f t.self }

def mark (m : Mark) : Ctl Unit :=
  modify fun t => { t with desk := t.desk.note t.isDelegate m }

/-- A step at the desk that may raise. -/
def atDesk (f : Turn → Except PyError Unit × Desk) : Ctl Unit := do
  let t ← get
  modify fun t => { t with desk := (f t).2 }
  match (f t).1 with
  | .ok () => pure ()
  | .error err => throw err.raised

def addEvent (e : Event) (source : EventSource) : Ctl Unit :=
  atDesk fun t => t.desk.add out clock 0 none e source

def addObject (byStep : Bool) (k : Nat) (source : EventSource) : Ctl Unit :=
  atDesk fun t =>
    match t.desk.heap[k]? with
    | some o => t.desk.addObject out clock t.isDelegate byStep k o source
    | none => (.ok (), t.desk)

def setObject (k : Nat) (o : Obj) : Ctl Unit :=
  modify fun t => { t with desk := { t.desk with heap := t.desk.heap.set k o } }

def provided (p : Prop) [Decidable p] (m : Ctl Unit) : Ctl Unit := if p then m else pure ()

/-- What is done about the pending object, when there is one. -/
def withPending (f : Nat → Obj → Ctl Unit) : Ctl Unit := do
  let t ← get
  match t.current with
  | some (k, o) => f k o
  | none => pure ()

/-- A new object takes the place of whatever was pending. -/
def hold (o : Obj) : Ctl Nat := do
  let t ← get
  let desk :=
    match t.current with
    | some (k, before) => t.desk.note t.isDelegate (.overwritten k before)
    | none => t.desk
  set { t with self := { t.self with pending := some t.desk.heap.length }
               desk := { desk with heap := t.desk.heap ++ [o] } }
  return t.desk.heap.length

/-- The agent's action is a new object; it is made pending when it is runnable. -/
def launch (o : Obj) : Ctl Nat := do
  let t ← get
  let k := t.desk.heap.length
  set { t with self := if o.event.runnable then { t.self with pending := some k } else t.self
               desk := { t.desk.note t.isDelegate (.returned k) with heap := t.desk.heap ++ [o] } }
  return k

def observation (o : Observation) : Event := { body := .observation o }

def action (a : Action) : Event := { body := .action a }

/-! ## Agent states -/

def ERROR_ACTION_NOT_EXECUTED_STOPPED_ID : String := "AGENT_ERROR$ERROR_ACTION_NOT_EXECUTED_STOPPED"

def ERROR_ACTION_NOT_EXECUTED_ERROR_ID : String := "AGENT_ERROR$ERROR_ACTION_NOT_EXECUTED_ERROR"

def ERROR_ACTION_NOT_EXECUTED_STOPPED : String :=
  "Stop button pressed. The action has not been executed."

def ERROR_ACTION_NOT_EXECUTED_ERROR : String :=
  "The action has not been executed due to a runtime error. The runtime system may have crashed and restarted due to resource constraints. Any previously established system state, dependencies, or environment variables may have been lost."

/-- The observation that stands in for the result of a pending action. -/
def notExecuted (stopped : Bool) (pending : Event) : Event :=
  { observation (.error {
      content :=
        if stopped then ERROR_ACTION_NOT_EXECUTED_STOPPED else ERROR_ACTION_NOT_EXECUTED_ERROR
      errorId :=
        if stopped then ERROR_ACTION_NOT_EXECUTED_STOPPED_ID
        else ERROR_ACTION_NOT_EXECUTED_ERROR_ID }) with
    toolCallMetadata := pending.toolCallMetadata
    cause := some pending.id }

def reset : Ctl Unit := do
  withPending fun _ o => do
    let t ← get
    let foundObservation := t.self.state.history.any fun e =>
      e.isObservation && decide (e.toolCallMetadata = o.event.toolCallMetadata)
    provided (foundObservation = false)
      (addEvent out clock (notExecuted (t.self.agentState = .known .stopped) o.event) .agent)
  mark .reset
  modifySelf fun c => { c with pending := none }

def maybeIncreaseControlFlagsLimits (headlessMode : Bool) (s : State) : State :=
  { s with iterationFlag := s.iterationFlag.increaseLimit headlessMode
           budgetFlag := s.budgetFlag.map fun flag => flag.increaseLimit }

/-- The pending action goes into the stream again, confirmed or rejected, under a new id. -/
def command (status : ActionConfirmationStatus) (old : Unchecked AgentState) : Ctl Unit :=
  withPending fun k before => do
    mark (.commanded k status old before)
    setObject k (before.commanded status)
    addObject out clock false k .agent

def setAgentStateTo (new : Unchecked AgentState) : Ctl Unit := do
  let t ← get
  let old := t.self.agentState
  if new = old then pure ()
  else
    modifySelf fun c => { c with agentState := new }
    provided (new = .known .stopped ∨ new = .known .error) (reset out clock)
    provided (old = .known .error ∧ new = .known .running)
      (modifySelf fun c =>
        { c with state := maybeIncreaseControlFlagsLimits c.settings.headlessMode c.state })
    provided (new = .known .userConfirmed) (command out clock .confirmed old)
    provided (new = .known .userRejected) (command out clock .rejected old)
    let t ← get
    addEvent out clock (observation (.agentStateChanged {
      content := ""
      agentState := new.toText AgentState.value
      reason := if new = .known .error then t.self.state.lastError else "" })) .environment

/-! ## Exceptions -/

def AGENT_RATE_LIMITED_STOPPED_MESSAGE : String := "CHAT_INTERFACE$AGENT_RATE_LIMITED_STOPPED_MESSAGE"

def reactToException (e : Raised) : Ctl Unit := do
  modifySelf fun c => { c with state := { c.state with lastError := e.name ++ ": " ++ e.message } }
  let t ← get
  if t.self.settings.statusCallback then
    match e.kind with
    | .rateLimit true =>
      modifySelf fun c => { c with state := { c.state with lastError := AGENT_RATE_LIMITED_STOPPED_MESSAGE } }
      setAgentStateTo out clock (.known .error)
    | .rateLimit false => setAgentStateTo out clock (.known .rateLimited)
    | .llm status =>
      modifySelf fun c => { c with state := { c.state with lastError := status.getD c.state.lastError } }
      setAgentStateTo out clock (.known .error)
    | .other => setAgentStateTo out clock (.known .error)
  else setAgentStateTo out clock (.known .error)

/-! ## Observations -/

def handleObservation (o : Event) : Ctl Unit := do
  mark (.observed o.cause)
  withPending fun _ p => do
    let t ← get
    provided (some p.event.id = o.cause ∧ t.self.agentState ≠ .known .awaitingUserConfirmation) do
      modifySelf fun c => { c with pending := none }
      provided (t.self.agentState = .known .userConfirmed) (setAgentStateTo out clock (.known .running))
      provided (t.self.agentState = .known .userRejected)
        (setAgentStateTo out clock (.known .awaitingUserInput))

/-! ## Messages -/

def isUserMessage (e : Event) : Bool :=
  match e.body with
  | .action (.message _) => e.source = some .user
  | _ => false

def searchFirst (filter : Event → Bool) : Ctl (Option Event) := do
  let t ← get
  match EventStore.searchEvents out t.desk.stream.files t.desk.stream.curId t.self.state.startId none
      false (some filter) (some 1) with
  | .ok found => pure found.head?
  | .error err => throw err.raised

def firstUserMessage : Ctl (Option Event) := do
  let t ← get
  match t.self.cachedFirstUserMessage with
  | some e => return some e
  | none =>
    let found ← searchFirst out isUserMessage
    modifySelf fun c => { c with cachedFirstUserMessage := found }
    return found

/-- The message is looked up in the microagents; the action for it is pending from here on. -/
def recallContent (id : Int) (content : String) : Ctl Unit := do
  let first ← firstUserMessage out
  let recallType : RecallType :=
    if first.any fun e => e.id = id then .workspaceContext else .knowledge
  let k ← hold { event := action (.recallAction { recallType := .known recallType, query := content }) }
  addObject out clock false k .user

def handleMessageAction (e : Event) (a : MessageAction) : Ctl Unit :=
  if e.source = some .user then do
    recallContent out clock e.id a.content
    let t ← get
    provided (t.self.agentState ≠ .known .running) (setAgentStateTo out clock (.known .running))
  else if e.source = some .agent ∧ a.waitForResponse = true then
    setAgentStateTo out clock (.known .awaitingUserInput)
  else pure ()

/-! ## Loop recovery -/

def LOOP_RECOVERY_COMPLETED : String :=
  "✅ Loop recovery completed. Agent has been reset to before the loop.\nYou can now provide new instructions to continue.\n"

def truncateMemoryToPoint (recoveryPoint : Int) : Ctl Unit :=
  modifySelf fun c =>
    if c.state.history.length ≤ recoveryPoint then c
    else { c with state := c.state.truncateMemoryToPoint recoveryPoint, cachedFirstUserMessage := none }

def performLoopRecovery (recoveryPoint : Int) : Ctl Unit := do
  truncateMemoryToPoint recoveryPoint
  setAgentStateTo out clock (.known .awaitingUserInput)
  addEvent out clock (observation (.loopDetection ⟨LOOP_RECOVERY_COMPLETED⟩)) .environment

def lastUserMessage (history : List Event) : Option MessageAction :=
  history.reverse.findSome? fun e =>
    match e.body with
    | .action (.message a) => if e.source = some .user then some a else none
    | _ => none

/-- The last user message is handled once more, as a new message that is in no stream. -/
def restartWithLastUserMessage (recoveryPoint : Int) : Ctl Unit := do
  let t ← get
  match lastUserMessage t.self.state.history with
  | some a =>
    truncateMemoryToPoint recoveryPoint
    setAgentStateTo out clock (.known .running)
    addEvent out clock (observation (.loopDetection ⟨"\n✅ Restarting with your last instruction: " ++
      a.content ++ "\nAgent is now continuing with the same task...\n"⟩)) .environment
    handleMessageAction out clock { action (.message { content := a.content }) with source := some .user }
      { content := a.content }
  | none => performLoopRecovery out clock recoveryPoint

def handleLoopRecoveryAction (option : Int) : Ctl Unit := do
  let t ← get
  match t.self.stuckAnalysis with
  | none => pure ()
  | some recoveryPoint =>
    if option = 1 then performLoopRecovery out clock recoveryPoint
    else if option = 2 then restartWithLastUserMessage out clock recoveryPoint
    else if option = 3 then setAgentStateTo out clock (.known .stopped)
    else pure ()

/-! ## Delegates -/

def isSystemMessage (e : Event) : Bool := e.body matches .action (.systemMessage _)

def addSystemMessage (message : Option SystemMessageAction) : Ctl Unit := do
  let found ← searchFirst out fun e => isUserMessage e || isSystemMessage e
  match found, message with
  | none, some m =>
    provided (m.content ≠ "") (addEvent out clock (action (.systemMessage m)) .agent)
  | _, _ => pure ()

/-- A program of the delegate, at the same desk. -/
def onDelegate (m : Ctl Unit) : Ctl Unit :=
  Program.zoom (fun t => { t with self := t.self.delegate.getD {}, isDelegate := true })
    (fun d t => { t with self := { t.self with delegate := t.self.delegate.map fun _ => d.self }
                         desk := d.desk }) m

/-- The delegate's history is loaded from behind the end of the stream. -/
def newDelegate (c : Controller) (latestEventId : Int) (agent : DelegateAgent) : Controller where
  settings :=
    { headlessMode := c.settings.headlessMode, securityAnalyzer := c.settings.securityAnalyzer
      agentName := agent.name, cliMode := agent.cliMode
      enableHistoryTruncation := agent.enableHistoryTruncation }
  state :=
    { sessionId := c.state.sessionId, iterationFlag := c.state.iterationFlag
      budgetFlag := c.state.budgetFlag, delegateLevel := c.state.delegateLevel + 1
      startId := latestEventId + 1 }

def startDelegate (answers : Answers) : Ctl Unit := do
  let t ← get
  match answers.delegateAgent with
  | .error e => throw e
  | .ok agent =>
    let delegate := newDelegate t.self (t.desk.stream.curId - 1) agent
    -- it becomes the controller's delegate once its constructor has returned
    Program.zoom (fun t => { t with self := delegate, isDelegate := true })
      (fun d t => { t with desk := d.desk })
      (addSystemMessage out clock agent.systemMessage)
    modifySelf fun c => { c with delegate := some delegate }

def handleDelegateAction (answers : Answers) (a : AgentDelegateAction) : Ctl Unit := do
  startDelegate out clock answers
  match Assoc.get? "task" a.inputs with
  | none => pure ()
  | some (.str task) =>
    addEvent out clock (action (.message { content := "TASK: " ++ task })) .user
    onDelegate (setAgentStateTo out clock (.known .running))
  | some _ => throw (PyError.typeError "can only concatenate str (not \"object\") to str").raised

def displayOutputs (outputs : Dict) : String :=
  ", ".intercalate ((outputs.filter fun kv => kv.1 ≠ "metrics").map fun kv =>
    kv.1 ++ ": " ++ (match kv.2 with | .str s => s | v => out.repr v))

/-- The observation that tells the parent how its delegate ended. -/
def delegateObservation (delegate : Controller) (history : List Event) : Event :=
  let content :=
    if delegate.agentState = .known .finished ∨ delegate.agentState = .known .rejected then
      delegate.settings.agentName ++ " finishes task with " ++ displayOutputs out delegate.state.outputs
    else delegate.settings.agentName ++ " encountered an error during execution."
  { observation (.agentDelegate {
      content := "Delegated agent finished with result:\n\n" ++ content
      outputs := delegate.state.outputs }) with
    toolCallMetadata := (history.reverse.find? Event.isDelegateAction).bind fun e => e.toolCallMetadata }

/-- Parent and delegate share their control flags. -/
def endDelegate : Ctl Unit := do
  let t ← get
  match t.self.delegate with
  | none => pure ()
  | some delegate =>
    onDelegate (setAgentStateTo out clock (.known .stopped))
    modifySelf fun c =>
      { c with state := { c.state with iterationFlag := delegate.state.iterationFlag
                                       budgetFlag := delegate.state.budgetFlag } }
    addEvent out clock (delegateObservation out delegate t.self.state.history) .agent
    modifySelf fun c => { c with delegate := none }

/-! ## Actions -/

def handleAction (answers : Answers) (e : Event) (a : Action) : Ctl Unit :=
  match a with
  | .changeAgentState a => setAgentStateTo out clock (AgentState.ofText a.agentState)
  | .message a => handleMessageAction out clock e a
  | .agentDelegate a => handleDelegateAction out clock answers a
  | .agentFinish a => do
    modifySelf fun c => { c with state := { c.state with outputs := a.outputs } }
    setAgentStateTo out clock (.known .finished)
  | .agentReject a => do
    modifySelf fun c => { c with state := { c.state with outputs := a.outputs } }
    setAgentStateTo out clock (.known .rejected)
  | .loopRecovery a => handleLoopRecoveryAction out clock a.option
  | _ => pure ()

/-! ## Steps -/

/-- `f'{x:.2f}'`. -/
def twoDecimals (x : Rat) : String :=
  let hundredths := (Binary64.roundEven (|x| * 100)).toNat
  (if x < 0 then "-" else "") ++ toString (hundredths / 100) ++ "." ++ toString (hundredths / 10 % 10) ++
    toString (hundredths % 10)

/-- The exception of the flag that raised; no space follows the first sentence of the budget's. -/
def limitReached (s : State) : Raised :=
  if s.iterationFlag.step.2 then
    { name := "RuntimeError"
      message := "Agent reached maximum iteration. Current iteration: " ++
        toString s.iterationFlag.currentValue ++ ", max iteration: " ++ toString s.iterationFlag.maxValue }
  else
    { name := "RuntimeError"
      message := "Agent reached maximum budget for conversation." ++
        match s.budgetFlag with
        | some flag =>
          "Current budget: " ++ twoDecimals flag.currentValue ++ ", max budget: " ++ twoDecimals flag.maxValue
        | none => "" }

def contextWindowExceeded : Raised where
  name := "LLMContextWindowExceedError"
  message := "Conversation history longer than LLM context window limit. Consider turning on enable_history_truncation config to avoid this error"

/-- The next action of a trajectory that is replayed; what is no action is passed over. -/
def nextReplayed : List Event → Option (Event × List Event)
  | [] => none
  | e :: events => if e.isAction then some (e, events) else nextReplayed events

/-- The action of this step, when there is one. -/
def nextAction (answers : Answers) : Ctl (Option Event) := do
  let t ← get
  match nextReplayed t.self.replay with
  | some (e, rest) =>
    modifySelf fun c => { c with replay := rest }
    return some e
  | none =>
    match answers.agent with
    | .action a toolCallMetadata =>
      return some { action a with source := some .agent, toolCallMetadata := toolCallMetadata }
    | .noAction =>
      addEvent out clock (observation (.error { content := "No action was returned" })) .agent
      return none
    | .refused content =>
      addEvent out clock (observation (.error { content := content })) .agent
      return none
    | .contextWindowExceeded =>
      if t.self.settings.enableHistoryTruncation then
        addEvent out clock (action .condensationRequest) .agent
        return none
      else throw contextWindowExceeded
    | .raises e => throw e

/-- In confirmation mode the risk of some actions is found out, and they may have to wait. -/
def confirm (settings : Settings) (answers : Answers) (confirmationMode : Bool) (e : Event) : Obj :=
  match e.body with
  | .action a =>
    if confirmationMode && a.isChecked then
      let risk := if settings.securityAnalyzer then answers.securityRisk.getD .unknown else .unknown
      let o : Obj := { event := { e with body := .action (a.setSecurityRisk risk) } }
      let isHighSecurityRisk := risk = .high
      let isAskForEveryAction := risk = .unknown ∧ settings.securityAnalyzer = false
      if settings.cliMode ∨ (isHighSecurityRisk ∨ isAskForEveryAction) ∧ settings.confirmationMode then
        o.setConfirmationState .awaitingConfirmation
      else o
    else { event := e }
  | _ => { event := e }

/-- The action is made pending when it is runnable, and goes into the stream unless it is null. -/
def take (answers : Answers) (e : Event) : Ctl Unit := do
  let t ← get
  let o := if e.runnable then confirm t.self.settings answers t.self.state.confirmationMode e else { event := e }
  let k ← launch o
  if e.body = .action .null then pure ()
  else
    provided (o.confirmationState = some (.known .awaitingConfirmation))
      (setAgentStateTo out clock (.known .awaitingUserConfirmation))
    setObject k { o with event := { o.event with llmMetrics := some answers.frontendMetrics } }
    match e.source with
    | some source => addObject out clock true k source
    | none => throw (PyError.attributeError "object has no attribute '_source'").raised

def act (answers : Answers) : Ctl Unit := do
  let next ← nextAction out clock answers
  match next with
  | some e => take out clock answers e
  | none => pure ()

def step (answers : Answers) : Ctl Unit := do
  let t ← get
  if t.self.agentState ≠ .known .running ∨ t.self.pending.isSome then pure ()
  else
    modifySelf fun c =>
      { c with state := c.state.syncBudgetFlagWithMetrics answers.stats
               stuckAnalysis := answers.stuckAnalysis }
    if answers.isStuck then
      reactToException out clock ⟨"AgentStuckInLoopError", "Agent got stuck in a loop", .other⟩
    else
      let t ← get
      modifySelf fun c => { c with state := c.state.runControlFlags.1 }
      if t.self.state.runControlFlags.2 then reactToException out clock (limitReached t.self.state)
      else act out clock answers

def unexpected (e : Raised) : Raised :=
  match e.kind with
  | .other =>
    if e = contextWindowExceeded then e
    else
      { name := "RuntimeError"
        message := "There was an unexpected error while running the agent: " ++ e.name ++
          ". You can refresh the page or ask the agent to try again." }
  | _ => e

def stepWithExceptionHandling (answers : Answers) : Ctl Unit :=
  tryCatch (step out clock answers) fun e => reactToException out clock (unexpected e)

def shouldStep (c : Controller) (e : Event) : Bool :=
  if c.delegate.isSome then false
  else
    match e.body with
    | .action (.message _) =>
      decide (e.source = some .user) || decide (c.agentState ≠ .known .awaitingUserInput)
    | .action (.agentDelegate _) | .action (.condensation _) | .action .condensationRequest => true
    | .action _ => false
    | .observation (.null _) => e.cause.any fun cause => decide (0 < cause)
    | .observation (.agentStateChanged _) => false
    | .observation _ => true
    | .plain => false

/-! ## Events -/

def handleEvent (answers : Answers) (e : Event) : Ctl Unit :=
  match e.body with
  | .action a => handleAction out clock answers e a
  | .observation _ => handleObservation out clock e
  | .plain => pure ()

/-- `_on_event`. -/
def onOwnEvent (answers : Answers) (e : Event) : Ctl Unit := do
  if e.hidden then pure ()
  else
    modifySelf fun c => { c with state := StateTracker.addHistory c.state e }
    handleEvent out clock answers e
    let t ← get
    provided (shouldStep t.self e = true) (stepWithExceptionHandling out clock answers)

/-- A delegate that is not done takes the events, and so does one that ran into its limit. -/
def forwards (delegate : Controller) : Bool :=
  !(delegate.agentState = .known .finished || delegate.agentState = .known .error ||
      delegate.agentState = .known .rejected) ||
    decide ("RuntimeError: Agent reached maximum iteration.".toList <:+: delegate.state.lastError.toList) ||
    decide ("RuntimeError:Agent reached maximum budget for conversation".toList <:+:
      delegate.state.lastError.toList)

def onEvent (answers : Answers) (e : Event) : Ctl Unit := do
  let t ← get
  match t.self.delegate with
  | some delegate =>
    if forwards delegate then onDelegate (onOwnEvent out clock answers e) else endDelegate out clock
  | none => onOwnEvent out clock answers e

end Controller

end OpenHands
