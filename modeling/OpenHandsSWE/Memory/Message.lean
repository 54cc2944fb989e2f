import OpenHandsSWE.Events.EventFilter
import OpenHandsSWE.Lib.Python
import OpenHandsSWE.Lib.Text

/-! Messages for the LLM, and the text each observation becomes in them. -/

namespace OpenHands

inductive Content where
  | text (text : String)
  | image (imageUrls : List String)
deriving DecidableEq, Repr

structure Message where
  role : Role
  content : List Content
  toolCalls : Option (List ToolCall) := none
  toolCallId : Option String := none
  name : Option String := none
deriving DecidableEq, Repr

/-- Truncates the middle of the content if it is too long. -/
def truncateContent (content : String) (maxChars : Option Int) : String :=
  match maxChars with
  | none => content
  | some n =>
    if content.length ≤ n ∨ n < 0 then content
    else
      .ofList (Py.takeTo content.toList (n / 2)) ++
        "\n[... Observation truncated due to length ...]\n" ++
        .ofList (Py.dropTo content.toList (-(n / 2)))

/-! ## What the prompts are rendered from -/

structure RepositoryInfo where
  repoName : Option String
  repoDirectory : Option String
  branchName : Option String
deriving DecidableEq, Repr

structure RuntimeInfo where
  date : String
  availableHosts : List (String × Int) := []
  additionalAgentInstructions : String := ""
  customSecretsDescriptions : List (String × String) := []
  workingDir : String := ""
deriving DecidableEq, Repr

structure ConversationInstructions where
  content : String := ""
deriving DecidableEq, Repr

structure AgentConfig where
  enableSomVisualBrowsing : Bool := false
  enablePromptExtensions : Bool := true
  disabledMicroagents : List String := []
  cliMode : Bool := false
deriving DecidableEq, Repr

/-- The rendered templates, the text of a diff and the text of an action: what comes from the
template engine, `difflib` and the generated `__str__`. -/
structure Renderer where
  getSystemMessage : Bool → String
  buildWorkspaceContext : Option RepositoryInfo → RuntimeInfo → Option ConversationInstructions →
    String → String
  buildMicroagentInfo : List MicroagentKnowledge → String
  actionStr : Event → String
  visualizeDiff : FileEditObservation → String

section Rendering

variable (config : AgentConfig) (renderer : Renderer)

def isValidImageUrl (url : String) : Bool := url != "" && Text.strip url.toList != []

def optionalLine (shown : Bool) (line : String) : String := if shown then line else ""

/-- The content with its metadata, as the agent sees a command's output. -/
def CmdOutputObservation.toAgentObservation (o : CmdOutputObservation) : String :=
  o.metadata.pre ++ o.content ++ o.metadata.suffix ++
    optionalLine (o.metadata.workingDir.getD "" != "")
      ("\n[Current working directory: " ++ o.metadata.workingDir.getD "" ++ "]") ++
    optionalLine (o.metadata.pyInterpreterPath.getD "" != "")
      ("\n[Python interpreter: " ++ o.metadata.pyInterpreterPath.getD "" ++ "]") ++
    optionalLine (o.metadata.exitCode != -1)
      ("\n[Command finished with exit code " ++ toString o.metadata.exitCode ++ "]")

def FileEditObservation.str (o : FileEditObservation) : Except PyError String :=
  match o.implSource with
  | .known .ohAci => .ok o.content
  | _ =>
    if !o.prevExist then
      if o.oldContent = some "" then
        .ok ("[New file " ++ o.path ++ " is created with the provided content.]\n")
      else .error (.assertionError
        "old_content should be empty if the file is new (prev_exist=False).")
    else .ok (.ofList (Text.rstrip (renderer.visualizeDiff o).toList) ++ "\n")

/-- Embedded images are replaced line by line. -/
def hideImages (text : String) : String :=
  .ofList (List.intercalate ['\n'] ((Text.split ['\n'] text.toList).map fun line =>
    if "![image](data:image/png;base64,".toList <:+: line then
      "![image](data:image/png;base64, ...) already displayed to user".toList
    else line))

def ipythonContent (o : IPythonRunCellObservation) (maxMessageChars : Option Int)
    (visionIsActive : Bool) : List Content :=
  let text := truncateContent (hideImages o.content) maxMessageChars
  match o.imageUrls.getD [] with
  | [] => [.text text]
  | urls =>
    let valid := urls.filter isValidImageUrl
    let invalidCount := urls.length - valid.length
    if valid ≠ [] then
      [.text (text ++ optionalLine (visionIsActive && 0 < invalidCount)
        ("\n\nNote: " ++ toString invalidCount ++ " invalid or empty image(s) were filtered from this output. The agent may need to use alternative methods to access visual information.")),
        .image valid]
    else
      [.text (text ++ optionalLine visionIsActive
        ("\n\nNote: All " ++ toString urls.length ++ " image(s) in this output were invalid or empty and have been filtered. The agent should use alternative methods to access visual information."))]

/-- The set of marks if there is one, else the screenshot, with what it is called. -/
def browserImage (o : BrowserOutputObservation) : Option (String × String) :=
  if o.setOfMarks ≠ "" then some (o.setOfMarks, "set of marks")
  else if o.screenshot ≠ "" then some (o.screenshot, "screenshot")
  else none

def browserContent (o : BrowserOutputObservation) (visionIsActive : Bool) : List Content :=
  if o.triggerByAction = "browse_interactive" ∧ config.enableSomVisualBrowsing = true then
    let text := o.content ++ optionalLine visionIsActive "Image: Current webpage screenshot (Note that only visible portion of webpage is present in the screenshot. However, the Accessibility tree contains information from the entire webpage.)\n"
    match browserImage o with
    | some (url, kind) =>
      if isValidImageUrl url then [.text text, .image [url]]
      else
        [.text (text ++ optionalLine visionIsActive
          ("\n\nNote: The " ++ kind ++ " for this webpage was invalid or empty and has been filtered. The agent should use alternative methods to access visual information about the webpage."))]
    | none =>
      [.text (text ++ optionalLine visionIsActive "\n\nNote: No visual information (screenshot or set of marks) is available for this webpage. The agent should rely on the text content above.")]
  else [.text o.content]

/-- The outputs' own content if they have one; what is no text is refused. -/
def delegateText (o : AgentDelegateObservation) : Except PyError String :=
  match (Assoc.get? "content" o.outputs).getD (.str o.content) with
  | .str s => .ok s
  | _ => .error (.typeError "content is not a string")

def enabledMicroagents (agents : List MicroagentKnowledge) : List MicroagentKnowledge :=
  agents.filter fun a => !config.disabledMicroagents.contains a.name

def repositoryInfo (o : RecallObservation) : Option RepositoryInfo :=
  if o.repoName ≠ "" ∨ o.repoDirectory ≠ "" then
    some ⟨some o.repoName, some o.repoDirectory, if o.repoBranch = "" then none else some o.repoBranch⟩
  else none

def runtimeInfo (o : RecallObservation) : RuntimeInfo :=
  if o.runtimeHosts ≠ [] ∨ o.additionalAgentInstructions ≠ "" then
    ⟨o.date, o.runtimeHosts, o.additionalAgentInstructions, o.customSecretsDescriptions, o.workingDir⟩
  else ⟨o.date, [], "", o.customSecretsDescriptions, o.workingDir⟩

def conversationInstructions (o : RecallObservation) : Option ConversationInstructions :=
  if o.conversationInstructions = "" then none else some ⟨o.conversationInstructions⟩

/-- Whether there is something to say before the template is rendered. -/
def hasWorkspaceContext (o : RecallObservation) : Bool :=
  (repositoryInfo o).isSome || ((runtimeInfo o).date != "" || (runtimeInfo o).customSecretsDescriptions != []) ||
    Text.strip o.repoInstructions.toList != [] || (conversationInstructions o).isSome

def workspaceContent (o : RecallObservation) : List Content :=
  (if hasWorkspaceContext o then
    [.text (renderer.buildWorkspaceContext (repositoryInfo o) (runtimeInfo o)
      (conversationInstructions o) o.repoInstructions)]
  else []) ++
  (match enabledMicroagents config o.microagentKnowledge with
  | [] => []
  | agents => [.text (renderer.buildMicroagentInfo agents)])

/-- A microagent shown by an earlier recall, of either type. -/
def hasAgentInEarlierEvents (agentName : String) (earlier : List Event) : Bool :=
  earlier.any fun e =>
    match e.body with
    | .observation (.recallObservation o) => o.microagentKnowledge.any fun a => a.name == agentName
    | _ => false

def filterAgentsInMicroagentObs (o : RecallObservation) (earlier : List Event) :
    List MicroagentKnowledge :=
  o.microagentKnowledge.filter fun a => !hasAgentInEarlierEvents a.name earlier

def knowledgeMessages (o : RecallObservation) (earlier : List Event) : List Message :=
  match enabledMicroagents config (filterAgentsInMicroagentObs o earlier) with
  | [] => []
  | agents => [⟨.user, [.text (renderer.buildMicroagentInfo agents)], none, none, none⟩]

/-- What an observation gives: messages at once, or a content that may answer a tool call. -/
inductive Rendered where
  | done (messages : List Message)
  | content (content : List Content)
deriving DecidableEq, Repr

def userText (text : String) : Rendered := .content [.text text]

/-- The branches of `_process_observation` by the class of the observation; `earlier` is what
stands before it in the list. -/
def renderObservation (o : Observation) (toolCallMetadata : Option ToolCallMetadata)
    (maxMessageChars : Option Int) (visionIsActive : Bool) (earlier : List Event) :
    Except PyError Rendered :=
  match o with
  | .cmdOutput o =>
    match toolCallMetadata with
    | none => .ok (userText (truncateContent
        ("\nObserved result of command executed by user:\n" ++ o.toAgentObservation) maxMessageChars))
    | some _ => .ok (userText (truncateContent o.toAgentObservation maxMessageChars))
  | .mcp o => .ok (userText (truncateContent o.content maxMessageChars))
  | .ipythonRunCell o => .ok (.content (ipythonContent o maxMessageChars visionIsActive))
  | .fileEdit o => (o.str renderer).map fun s => userText (truncateContent s maxMessageChars)
  | .fileRead o => .ok (userText o.content)
  | .browserOutput o => .ok (.content (browserContent config o visionIsActive))
  | .agentDelegate o => (delegateText o).map fun s => userText (truncateContent s maxMessageChars)
  | .agentThink o | .agentCondensation o => .ok (userText (truncateContent o.content maxMessageChars))
  | .taskTracking o => .ok (userText (truncateContent o.content maxMessageChars))
  | .error o =>
    .ok (userText (truncateContent o.content maxMessageChars ++
      "\n[Error occurred in processing last action]"))
  | .userReject o =>
    .ok (userText ("OBSERVATION:\n" ++ truncateContent o.content maxMessageChars ++
      "\n[Last action has been rejected by the user]"))
  | .fileDownload o => .ok (userText (truncateContent o.content maxMessageChars))
  | .loopDetection _ => .ok (.done [])
  | .recallObservation o =>
    if config.enablePromptExtensions then
      match o.recallType with
      | .workspaceContext =>
        match workspaceContent config renderer o with
        | [] => .ok (.done [])
        | content => .ok (.content content)
      | .knowledge => .ok (.done (knowledgeMessages config renderer o earlier))
    else .ok (.done [])
  | .null _ | .fileWrite _ | .success _ | .agentStateChanged _ =>
    .error (.valueError "Unknown observation type")

theorem knowledgeMessages_role {o : RecallObservation} {earlier : List Event} {m : Message}
    (h : m ∈ knowledgeMessages config renderer o earlier) : m.role = .user ∧ m.toolCalls = none := by
  unfold knowledgeMessages at h
  split at h
  · simp at h
  · rw [List.mem_singleton] at h
    subst h
    exact ⟨rfl, rfl⟩

/-- Messages given at once are the user's. -/
theorem renderObservation_done {o : Observation} {md : Option ToolCallMetadata}
    {maxMessageChars : Option Int} {visionIsActive : Bool} {earlier : List Event}
    {messages : List Message}
    (h : renderObservation config renderer o md maxMessageChars visionIsActive earlier =
      .ok (.done messages)) {m : Message} (hm : m ∈ messages) :
    m.role = .user ∧ m.toolCalls = none := by
  have nil (h : (Except.ok (Rendered.done []) : Except PyError Rendered) = .ok (.done messages)) :
      m.role = .user ∧ m.toolCalls = none := by
    cases h
    simp at hm
  cases o with
  | recallObservation o =>
    simp only [renderObservation] at h
    split_ifs at h
    · cases hr : o.recallType with
      | workspaceContext =>
        rw [hr] at h
        simp only at h
        split at h
        · exact nil h
        · simp at h
      | knowledge =>
        rw [hr] at h
        cases h
        exact knowledgeMessages_role config renderer hm
    · exact nil h
  | loopDetection o => exact nil h
  | cmdOutput o => cases md <;> simp [renderObservation, userText] at h
  | fileEdit o =>
    simp only [renderObservation] at h
    cases hs : o.str renderer <;> simp [hs, Except.map, userText] at h
  | agentDelegate o =>
    simp only [renderObservation] at h
    cases hs : delegateText o <;> simp [hs, Except.map, userText] at h
  | _ => simp [renderObservation, userText] at h

end Rendering

end OpenHands
