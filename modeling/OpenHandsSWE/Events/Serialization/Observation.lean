import OpenHandsSWE.Events.Serialization.Action

/-! Observations and their extras. -/

namespace OpenHands

/-! ## Records within observations -/

namespace CmdOutputMetadata

def modelDump (m : CmdOutputMetadata) : Json :=
  .obj [("exit_code", .int m.exitCode), ("pid", .int m.pid), ("username", .ofOpt .str m.username),
    ("hostname", .ofOpt .str m.hostname), ("working_dir", .ofOpt .str m.workingDir),
    ("py_interpreter_path", .ofOpt .str m.pyInterpreterPath), ("prefix", .str m.pre),
    ("suffix", .str m.suffix)]

def ofDict (fields : Dict) : Except PyError CmdOutputMetadata := do
  return { exitCode := ← Fields.optional fields "exit_code" Json.int? (-1)
           pid := ← Fields.optional fields "pid" Json.int? (-1)
           username := ← Fields.optional fields "username" (Json.opt? Json.str?) none
           hostname := ← Fields.optional fields "hostname" (Json.opt? Json.str?) none
           workingDir := ← Fields.optional fields "working_dir" (Json.opt? Json.str?) none
           pyInterpreterPath :=
             ← Fields.optional fields "py_interpreter_path" (Json.opt? Json.str?) none
           pre := ← Fields.optional fields "prefix" Json.str? ""
           suffix := ← Fields.optional fields "suffix" Json.str? "" }

end CmdOutputMetadata

namespace MicroagentKnowledge

def asdict (k : MicroagentKnowledge) : Json :=
  .obj [("name", .str k.name), ("trigger", .str k.trigger), ("content", .str k.content)]

def ofDict (fields : Dict) : Except PyError MicroagentKnowledge := do
  Fields.only ["name", "trigger", "content"] fields
  return { name := ← Fields.required fields "name" Json.str?
           trigger := ← Fields.required fields "trigger" Json.str?
           content := ← Fields.required fields "content" Json.str? }

end MicroagentKnowledge

def MAX_CMD_OUTPUT_SIZE : Nat := 30000

/-- The middle of a long output is left out. -/
def maybeTruncate (content : String) : String :=
  if content.toList.length ≤ MAX_CMD_OUTPUT_SIZE then content
  else
    .ofList (content.toList.take (MAX_CMD_OUTPUT_SIZE / 2) ++
      "\n[... Observation truncated due to length ...]\n".toList ++
      content.toList.drop (content.toList.length - MAX_CMD_OUTPUT_SIZE / 2))

namespace Observation

/-- The property `message`. -/
def messageText : Observation → String
  | null _ => "No observation"
  | cmdOutput o =>
    "Command `" ++ o.command ++ "` executed with exit code " ++ toString o.metadata.exitCode ++ "."
  | ipythonRunCell _ => "Code executed in IPython cell."
  | browserOutput o => "Visited " ++ o.url
  | fileRead o => "I read the file " ++ o.path ++ "."
  | fileWrite o => "I wrote to the file " ++ o.path ++ "."
  | fileEdit o => "I edited the file " ++ o.path ++ "."
  | agentDelegate _ | agentStateChanged _ | loopDetection _ => ""
  | success o | userReject o | agentCondensation o | agentThink o => o.content
  | error o => o.content
  | mcp o => o.content
  | taskTracking o => o.content
  | recallObservation o =>
    if o.recallType = .workspaceContext then "Added workspace context"
    else "Added microagent knowledge"
  | fileDownload o => "Downloaded the file at location: " ++ o.filePath

/-- The property `success`, where a class has it. -/
def success? : Observation → Option Bool
  | cmdOutput o => some (o.metadata.exitCode == 0)
  | ipythonRunCell _ => some true
  | _ => none

/-- The fields of the dataclass in their order, without its content and its type. -/
def extras : Observation → Dict
  | null _ | success _ | userReject _ | agentCondensation _ | agentThink _ | loopDetection _ => []
  | cmdOutput o =>
    [("command", .str o.command), ("metadata", o.metadata.modelDump), ("hidden", .bool o.hidden)]
  | ipythonRunCell o =>
    [("code", .str o.code), ("image_urls", .ofOpt (.ofList .str) o.imageUrls)]
  | browserOutput o =>
    [("url", .str o.url), ("trigger_by_action", .str o.triggerByAction),
      ("screenshot", .str o.screenshot), ("screenshot_path", .ofOpt .str o.screenshotPath),
      ("set_of_marks", .str o.setOfMarks), ("error", .bool o.error),
      ("goal_image_urls", .ofList .str o.goalImageUrls),
      ("open_pages_urls", .ofList .str o.openPagesUrls),
      ("active_page_index", .int o.activePageIndex), ("dom_object", .obj o.domObject),
      ("axtree_object", .obj o.axtreeObject),
      ("extra_element_properties", .obj o.extraElementProperties),
      ("last_browser_action", .str o.lastBrowserAction),
      ("last_browser_action_error", .str o.lastBrowserActionError),
      ("focused_element_bid", .str o.focusedElementBid),
      ("filter_visible_only", .bool o.filterVisibleOnly)]
  | fileRead o => [("path", .str o.path), ("impl_source", o.implSource.toJson (·.value))]
  | fileWrite o => [("path", .str o.path)]
  | fileEdit o =>
    [("path", .str o.path), ("prev_exist", .bool o.prevExist),
      ("old_content", .ofOpt .str o.oldContent), ("new_content", .ofOpt .str o.newContent),
      ("impl_source", o.implSource.toJson (·.value)), ("diff", .ofOpt .str o.diff),
      ("_diff_cache", .ofOpt .str o.diffCache)]
  | agentDelegate o => [("outputs", .obj o.outputs)]
  | error o => [("error_id", .str o.errorId)]
  | agentStateChanged o => [("agent_state", .str o.agentState), ("reason", .str o.reason)]
  | recallObservation o =>
    [("recall_type", .str o.recallType.value), ("repo_name", .str o.repoName),
      ("repo_directory", .str o.repoDirectory), ("repo_branch", .str o.repoBranch),
      ("repo_instructions", .str o.repoInstructions),
      ("runtime_hosts", .obj (o.runtimeHosts.map fun kv => (kv.1, .int kv.2))),
      ("additional_agent_instructions", .str o.additionalAgentInstructions), ("date", .str o.date),
      ("custom_secrets_descriptions",
        .obj (o.customSecretsDescriptions.map fun kv => (kv.1, .str kv.2))),
      ("conversation_instructions", .str o.conversationInstructions),
      ("working_dir", .str o.workingDir),
      ("microagent_knowledge", .ofList MicroagentKnowledge.asdict o.microagentKnowledge)]
  | mcp o => [("name", .str o.name), ("arguments", .obj o.arguments)]
  | fileDownload o => [("file_path", .str o.filePath)]
  | taskTracking o => [("command", .str o.command), ("task_list", .arr o.taskList)]

end Observation

namespace ObservationClass

/-- The names the constructor takes besides the content, the type itself among them. -/
def fieldNames : ObservationClass → List String
  | null | success | userReject | agentCondensation | agentThink | loopDetection => ["observation"]
  | cmdOutput => ["command", "observation", "metadata", "hidden"]
  | ipythonRunCell => ["code", "observation", "image_urls"]
  | browserOutput =>
    ["url", "trigger_by_action", "screenshot", "screenshot_path", "set_of_marks", "error",
      "observation", "goal_image_urls", "open_pages_urls", "active_page_index", "dom_object",
      "axtree_object", "extra_element_properties", "last_browser_action",
      "last_browser_action_error", "focused_element_bid", "filter_visible_only"]
  | fileRead => ["path", "observation", "impl_source"]
  | fileWrite => ["path", "observation"]
  | fileEdit =>
    ["path", "prev_exist", "old_content", "new_content", "observation", "impl_source", "diff",
      "_diff_cache"]
  | agentDelegate => ["outputs", "observation"]
  | error => ["observation", "error_id"]
  | agentStateChanged => ["agent_state", "reason", "observation"]
  | recallObservation =>
    ["recall_type", "observation", "repo_name", "repo_directory", "repo_branch",
      "repo_instructions", "runtime_hosts", "additional_agent_instructions", "date",
      "custom_secrets_descriptions", "conversation_instructions", "working_dir",
      "microagent_knowledge"]
  | mcp => ["observation", "name", "arguments"]
  | fileDownload => ["file_path", "observation"]
  | taskTracking => ["observation", "command", "task_list"]

/-- The metadata of a command's output, a fresh one unless the extras hold a dictionary. -/
def readMetadata (extras : Dict) : Except PyError CmdOutputMetadata :=
  match Assoc.get? "metadata" extras with
  | some (.obj fields) => CmdOutputMetadata.ofDict fields
  | _ => .ok {}

/-- `RecallType(..)`, which refuses a text that names none. -/
def readRecallType (extras : Dict) : Except PyError RecallType := do
  match ← Fields.required extras "recall_type" recallType? with
  | .known t => return t
  | .text s => throw (.valueError ("'" ++ s ++ "' is not a valid RecallType"))

open Fields in
/-- The constructor of a class called with the content and keyword arguments. -/
def construct (c : ObservationClass) (content : String) (extras : Dict) :
    Except PyError Observation := do
  -- the constructor of a command's output takes any other argument and ignores it
  unless c = cmdOutput do only c.fieldNames extras
  match c with
  | null => return .null ⟨content⟩
  | success => return .success ⟨content⟩
  | userReject => return .userReject ⟨content⟩
  | agentCondensation => return .agentCondensation ⟨content⟩
  | agentThink => return .agentThink ⟨content⟩
  | loopDetection => return .loopDetection ⟨content⟩
  | cmdOutput =>
    let metadata ← readMetadata extras
    let hidden ← optional extras "hidden" Json.bool? false
    return .cmdOutput {
      content := if hidden then content else maybeTruncate content
      command := ← required extras "command" Json.str?
      metadata
      hidden }
  | ipythonRunCell =>
    return .ipythonRunCell {
      content
      code := ← required extras "code" Json.str?
      imageUrls := ← optional extras "image_urls" (Json.opt? (Json.list? Json.str?)) none }
  | browserOutput =>
    return .browserOutput {
      content
      url := ← required extras "url" Json.str?
      triggerByAction := ← required extras "trigger_by_action" Json.str?
      screenshot := ← optional extras "screenshot" Json.str? ""
      screenshotPath := ← optional extras "screenshot_path" (Json.opt? Json.str?) none
      setOfMarks := ← optional extras "set_of_marks" Json.str? ""
      error := ← optional extras "error" Json.bool? false
      goalImageUrls := ← optional extras "goal_image_urls" (Json.list? Json.str?) []
      openPagesUrls := ← optional extras "open_pages_urls" (Json.list? Json.str?) []
      activePageIndex := ← optional extras "active_page_index" Json.int? (-1)
      domObject := ← optional extras "dom_object" Json.obj? []
      axtreeObject := ← optional extras "axtree_object" Json.obj? []
      extraElementProperties := ← optional extras "extra_element_properties" Json.obj? []
      lastBrowserAction := ← optional extras "last_browser_action" Json.str? ""
      lastBrowserActionError := ← optional extras "last_browser_action_error" Json.str? ""
      focusedElementBid := ← optional extras "focused_element_bid" Json.str? ""
      filterVisibleOnly := ← optional extras "filter_visible_only" Json.bool? false }
  | fileRead =>
    return .fileRead {
      content
      path := ← required extras "path" Json.str?
      implSource := ← optional extras "impl_source" fileReadSource? (.known .default) }
  | fileWrite => return .fileWrite { content, path := ← required extras "path" Json.str? }
  | fileEdit =>
    return .fileEdit {
      content
      path := ← optional extras "path" Json.str? ""
      prevExist := ← optional extras "prev_exist" Json.bool? false
      oldContent := ← optional extras "old_content" (Json.opt? Json.str?) none
      newContent := ← optional extras "new_content" (Json.opt? Json.str?) none
      implSource := ← optional extras "impl_source" fileEditSource? (.known .llmBasedEdit)
      diff := ← optional extras "diff" (Json.opt? Json.str?) none
      diffCache := ← optional extras "_diff_cache" (Json.opt? Json.str?) none }
  | agentDelegate => return .agentDelegate { content, outputs := ← required extras "outputs" Json.obj? }
  | error => return .error { content, errorId := ← optional extras "error_id" Json.str? "" }
  | agentStateChanged =>
    return .agentStateChanged {
      content
      agentState := ← required extras "agent_state" Json.str?
      reason := ← optional extras "reason" Json.str? "" }
  | recallObservation =>
    let recallType ← readRecallType extras
    let knowledge ← optional extras "microagent_knowledge" (Json.list? Json.obj?) []
    return .recallObservation {
      content
      recallType
      repoName := ← optional extras "repo_name" Json.str? ""
      repoDirectory := ← optional extras "repo_directory" Json.str? ""
      repoBranch := ← optional extras "repo_branch" Json.str? ""
      repoInstructions := ← optional extras "repo_instructions" Json.str? ""
      runtimeHosts := ← optional extras "runtime_hosts" (Json.dict? Json.int?) []
      additionalAgentInstructions :=
        ← optional extras "additional_agent_instructions" Json.str? ""
      date := ← optional extras "date" Json.str? ""
      customSecretsDescriptions :=
        ← optional extras "custom_secrets_descriptions" (Json.dict? Json.str?) []
      conversationInstructions := ← optional extras "conversation_instructions" Json.str? ""
      workingDir := ← optional extras "working_dir" Json.str? ""
      microagentKnowledge := ← knowledge.mapM MicroagentKnowledge.ofDict }
  | mcp =>
    return .mcp {
      content
      name := ← optional extras "name" Json.str? ""
      arguments := ← optional extras "arguments" Json.obj? [] }
  | fileDownload =>
    return .fileDownload { content, filePath := ← required extras "file_path" Json.str? }
  | taskTracking =>
    return .taskTracking {
      content
      command := ← optional extras "command" Json.str? ""
      taskList := ← optional extras "task_list" Json.arr? [] }

def all : List ObservationClass :=
  [null, cmdOutput, ipythonRunCell, browserOutput, fileRead, fileWrite, fileEdit, agentDelegate,
    success, error, agentStateChanged, userReject, agentCondensation, agentThink, recallObservation,
    mcp, fileDownload, taskTracking, loopDetection]

/-- `OBSERVATION_TYPE_TO_CLASS`. -/
def ofType (type : String) : Option ObservationClass := all.find? fun c => c.type == type

end ObservationClass

/-! ## Reading an observation -/

/-- A deprecated extra moves into the metadata. -/
def moveToMetadata (extra field : String) (extras : Dict) : Dict :=
  match Assoc.get? extra extras with
  | none => extras
  | some v =>
    let metadata :=
      match Assoc.get? "metadata" extras with
      | some (.obj fields) => Assoc.set field v fields
      | _ => [(field, v)]
    Assoc.set "metadata" (.obj metadata) (Assoc.erase extra extras)

def handleObservationDeprecatedExtras (extras : Dict) : Dict :=
  Assoc.erase "formatted_output_and_error"
    (moveToMetadata "command_id" "pid" (moveToMetadata "exit_code" "exit_code" extras))

def undefinedObservation (out : Outside) (type : Json) : PyError :=
  .keyError ("'observation['observation']=" ++ out.repr type ++
    "' is not defined. Available observations: dict_keys(" ++
    out.repr (.ofList (fun c => .str (ObservationClass.type c)) ObservationClass.all) ++ ")")

def observationFromDict (out : Outside) (data : Dict) : Except PyError Observation :=
  match Assoc.get? "observation" data with
  | none =>
    .error (.keyError ("'observation' key is not found in observation=" ++ out.repr (.obj data)))
  | some (.str type) =>
    match ObservationClass.ofType type with
    | none => .error (undefinedObservation out (.str type))
    | some c =>
      (Fields.optional data "content" Json.str? "").bind fun content =>
        (Fields.optional data "extras" Json.obj? []).bind fun extras =>
          c.construct content (handleObservationDeprecatedExtras extras)
  | some type => .error (undefinedObservation out type)

end OpenHands
