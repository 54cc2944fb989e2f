import OpenHandsSWE.Memory.Message

/-! The conversation memory: events become messages, and the calls of an LLM response wait until
each has its result. -/

namespace OpenHands

/-- A result waiting for its request: the content and the metadata of the observation. -/
structure ToolResult where
  metadata : ToolCallMetadata
  content : List Content
deriving DecidableEq, Repr

def ToolResult.message (r : ToolResult) : Message where
  role := .tool
  content := r.content
  toolCallId := some r.metadata.toolCallId
  name := some r.metadata.functionName

/-- The message that initiated the tool calls. -/
def assistantMessage (r : ModelResponse) : Message where
  role := r.message.role
  content :=
    if Text.strip (r.message.content.getD "").toList ≠ [] then [.text (r.message.content.getD "")]
    else []
  toolCalls := r.message.toolCalls

namespace ConversationMemory

/-- The requests by response id, the results by tool-call id, and the messages so far. A request
is kept as its response, from which its message is built. -/
structure LoopState where
  pending : List (String × ModelResponse) := []
  results : List (String × ToolResult) := []
  messages : List Message := []
deriving DecidableEq, Repr

/-! ## Actions -/

/-- The classes of actions that come from tool calls; a command only when the agent runs it. -/
def isToolAction (source : Option EventSource) : Action → Bool
  | .agentDelegate _ | .agentThink _ | .ipythonRunCell _ | .fileEdit _ | .fileRead _
  | .browseInteractive _ | .browseURL _ | .mcp _ | .taskTracking _ => true
  | .cmdRun _ => source = some .agent
  | _ => false

/-- The thought of a finish action, with the content of its response. -/
def finishThought (a : AgentFinishAction) (toolCallMetadata : Option ToolCallMetadata) : String :=
  match toolCallMetadata with
  | none => a.thought
  | some md =>
    let content := md.modelResponse.message.content.getD ""
    if a.thought = "" then content
    else if a.thought = content then a.thought
    else a.thought ++ "\n" ++ content

def imageContents (visionIsActive : Bool) : Nat → List String → List Content
  | _, [] => []
  | idx, url :: urls =>
    (if visionIsActive then [.text ("Image " ++ toString (idx + 1) ++ ":")] else []) ++
      .image [url] :: imageContents visionIsActive (idx + 1) urls

def messageContent (a : MessageAction) (role : Role) (visionIsActive : Bool) : List Content :=
  .text a.content ::
    match a.imageUrls.getD [] with
    | [] => []
    | urls => if role = .user then imageContents visionIsActive 0 urls else [.image urls]

def sourceRole (source : Option EventSource) : Role :=
  if source = some .user then .user else .assistant

/-- The messages of an action that is no tool call. -/
def actionMessages (e : Event) (a : Action) (visionIsActive : Bool) : List Message :=
  match a with
  | .agentFinish a => [⟨sourceRole e.source, [.text (finishThought a e.toolCallMetadata)], none, none, none⟩]
  | .message a =>
    [⟨sourceRole e.source, messageContent a (sourceRole e.source) visionIsActive, none, none, none⟩]
  | .cmdRun a =>
    if e.source = some .user then
      [⟨.user, [.text ("User executed the command:\n" ++ a.command)], none, none, none⟩]
    else []
  | .systemMessage a => [⟨.system, [.text a.content], none, none, none⟩]
  | _ => []

variable (config : AgentConfig) (renderer : Renderer)

def processAction (visionIsActive : Bool) (e : Event) (a : Action)
    (pending : List (String × ModelResponse)) :
    Except PyError (List Message × List (String × ModelResponse)) :=
  if isToolAction e.source a then
    match e.toolCallMetadata with
    | none =>
      if e.source = some .user then
        .ok ([⟨.user, [.text ("User requested to read file: " ++ renderer.actionStr e)], none, none,
          none⟩], pending)
      else .error (.assertionError
        ("Tool call metadata should NOT be None when function calling is enabled for agent actions. Action: " ++
          renderer.actionStr e))
    -- overwrites any previous request with the same response id
    | some md => .ok ([], Assoc.set md.modelResponse.id md.modelResponse pending)
  else .ok (actionMessages e a visionIsActive, pending)

/-! ## Observations -/

def processObservation (maxMessageChars : Option Int) (visionIsActive : Bool) (earlier : List Event)
    (e : Event) (o : Observation) (results : List (String × ToolResult)) :
    Except PyError (List Message × List (String × ToolResult)) :=
  match renderObservation config renderer o e.toolCallMetadata maxMessageChars visionIsActive earlier with
  | .error err => .error err
  | .ok (.done messages) => .ok (messages, results)
  | .ok (.content content) =>
    match e.toolCallMetadata with
    | none => .ok ([⟨.user, content, none, none, none⟩], results)
    | some md => .ok ([], Assoc.set md.toolCallId ⟨md, content⟩ results)

/-! ## Completed requests -/

def hasResult (results : List (String × ToolResult)) (tc : ToolCall) : Bool :=
  tc.id.any fun id => Assoc.contains id results

/-- The results of the calls, in their order, each taken out of the map. -/
def takeResults : List ToolCall → List (String × ToolResult) →
    Except PyError (List Message × List (String × ToolResult))
  | [], results => .ok ([], results)
  | tc :: calls, results =>
    match tc.id.bind fun id => (Assoc.get? id results).map fun r => (id, r) with
    | none => .error (.keyError (tc.id.getD "None"))
    | some (id, r) => (takeResults calls (Assoc.erase id results)).map fun p => (r.message :: p.1, p.2)

/-- One pass over the waiting requests: what is complete is emitted with its results. -/
def sweep : List (String × ModelResponse) → List (String × ToolResult) →
    Except PyError (List Message × List (String × ToolResult) × List (String × ModelResponse))
  | [], results => .ok ([], results, [])
  | (responseId, r) :: pending, results =>
    match r.message.toolCalls with
    | none => .error (.assertionError "Tool calls should NOT be None when function calling is enabled & the message is considered pending tool call. ")
    | some calls =>
      if calls.all (hasResult results) then
        (takeResults calls results).bind fun p =>
          (sweep pending p.2).map fun q => (assistantMessage r :: (p.1 ++ q.1), q.2.1, q.2.2)
      else (sweep pending results).map fun q => (q.1, q.2.1, (responseId, r) :: q.2.2)

/-! ## The loop over the events -/

def processOne (maxMessageChars : Option Int) (visionIsActive : Bool) (earlier : List Event)
    (st : LoopState) (e : Event) : Except PyError (List Message × LoopState) :=
  match e.body with
  | .action a =>
    (processAction renderer visionIsActive e a st.pending).map fun p => (p.1, { st with pending := p.2 })
  | .observation o =>
    (processObservation config renderer maxMessageChars visionIsActive earlier e o st.results).map
      fun p => (p.1, { st with results := p.2 })
  | .plain => .error (.valueError "Unknown event type")

def processEvent (maxMessageChars : Option Int) (visionIsActive : Bool) (earlier : List Event)
    (st : LoopState) (e : Event) : Except PyError LoopState :=
  (processOne config renderer maxMessageChars visionIsActive earlier st e).bind fun p =>
    (sweep p.2.pending p.2.results).map fun q =>
      { pending := q.2.2, results := q.2.1, messages := st.messages ++ (p.1 ++ q.1) }

def runEvents (maxMessageChars : Option Int) (visionIsActive : Bool) :
    List Event → List Event → LoopState → Except PyError LoopState
  | _, [], st => .ok st
  | earlier, e :: events, st =>
    (processEvent config renderer maxMessageChars visionIsActive earlier st e).bind fun st' =>
      runEvents maxMessageChars visionIsActive (earlier ++ [e]) events st'

/-! ## The final passes -/

/-- The ids of the tool calls that are not empty. -/
def toolCallIds (messages : List Message) : List String :=
  messages.flatMap fun m =>
    if m.role = .assistant then (m.toolCalls.getD []).filterMap fun tc => tc.id.filter (· != "")
    else []

def toolResponseIds (messages : List Message) : List String :=
  messages.filterMap fun m => if m.role = .tool then m.toolCallId.filter (· != "") else none

def matched (responseIds : List String) (tc : ToolCall) : Bool :=
  tc.id.any fun id => responseIds.contains id

def filterMessage (callIds responseIds : List String) (m : Message) : Option Message :=
  if m.role = .tool ∧ m.toolCallId.getD "" ≠ "" then
    if callIds.contains (m.toolCallId.getD "") then some m else none
  else if m.role = .assistant ∧ m.toolCalls.getD [] ≠ [] then
    if (m.toolCalls.getD []).all (matched responseIds) then some m
    else if (m.toolCalls.getD []).filter (matched responseIds) = [] then none
    else some { m with toolCalls := some ((m.toolCalls.getD []).filter (matched responseIds)) }
  else some m

def filterUnmatchedToolCalls (messages : List Message) : List Message :=
  messages.filterMap (filterMessage (toolCallIds messages) (toolResponseIds messages))

def prependToFirstText : List Content → List Content
  | [] => []
  | .text t :: cs => .text ("\n\n" ++ t) :: cs
  | c :: cs => c :: prependToFirstText cs

/-- Adds newlines between consecutive user messages. -/
def applyUserMessageFormatting : Option Role → List Message → List Message
  | _, [] => []
  | prevRole, m :: ms =>
    (if m.role = .user ∧ prevRole = some .user then { m with content := prependToFirstText m.content }
      else m) :: applyUserMessageFormatting (some m.role) ms

/-! ## The whole -/

/-- An event whose body is a `MessageAction`. -/
abbrev MessageEvent := { e : Event // e.cls = some (.action .message) }

def isSystemMessage (e : Event) : Bool := e.body matches .action (.systemMessage _)

def isUserMessage (e : Event) : Bool :=
  (e.body matches .action (.message _)) && e.source = some .user

def ensureSystemMessage (events : List Event) : List Event :=
  if events.any isSystemMessage then events
  else if renderer.getSystemMessage config.cliMode = "" then events
  else
    { body := .action (.systemMessage { content := renderer.getSystemMessage config.cliMode }) } :: events

def ensureInitialUserMessage (initialUserAction : Event) : List Event → List Event
  | [] => []
  | [e] => [e, initialUserAction]
  | e :: f :: events =>
    if isUserMessage f then e :: f :: events else e :: initialUserAction :: f :: events

def prepareEvents (history : List Event) (initialUserAction : MessageEvent) : List Event :=
  ensureInitialUserMessage initialUserAction.val (ensureSystemMessage config renderer history)

def processEvents (history : List Event) (initialUserAction : MessageEvent)
    (maxMessageChars : Option Int) (visionIsActive : Bool) : Except PyError (List Message) :=
  (runEvents config renderer maxMessageChars visionIsActive []
    (prepareEvents config renderer history initialUserAction) {}).map fun st =>
      applyUserMessageFormatting none (filterUnmatchedToolCalls st.messages)

end ConversationMemory

end OpenHands
