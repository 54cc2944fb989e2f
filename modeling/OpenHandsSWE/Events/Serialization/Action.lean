import OpenHandsSWE.Events.EventFilter

/-! Actions and their arguments. -/

namespace OpenHands

/-- What serialization takes from outside: Python's `repr` of a value and `ast.literal_eval` of a
text, the dump and the validation of an LLM's response, the clock and the package's version. -/
structure Outside where
  repr : Json → String
  literalEval : String → Option Dict
  dumpResponse : ModelResponse → Json
  readResponse : Json → Except PyError ModelResponse
  now : FloatLit
  version : String

/-! ## Enumerations -/

def ActionConfirmationStatus.value : ActionConfirmationStatus → String
  | .confirmed => "confirmed"
  | .rejected => "rejected"
  | .awaitingConfirmation => "awaiting_confirmation"

def FileReadSource.value : FileReadSource → String
  | .ohAci => "oh_aci"
  | .default => "default"

def FileEditSource.value : FileEditSource → String
  | .llmBasedEdit => "llm_based_edit"
  | .ohAci => "oh_aci"

def RecallType.value : RecallType → String
  | .workspaceContext => "workspace_context"
  | .knowledge => "knowledge"

def ActionSecurityRisk.value : ActionSecurityRisk → Int
  | .unknown => -1
  | .low => 0
  | .medium => 1
  | .high => 2

namespace Unchecked

variable {α : Type}

def toJson (value : α → String) : Unchecked α → Json
  | .known a => .str (value a)
  | .text s => .str s

/-- A text is the member it names, when it names one. -/
def ofJson (value : α → String) (members : List α) : Json → Option (Unchecked α)
  | .str s =>
    match members.find? fun a => value a == s with
    | some a => some (.known a)
    | none => some (.text s)
  | _ => none

end Unchecked

def confirmationStatus? : Json → Option (Unchecked ActionConfirmationStatus) :=
  Unchecked.ofJson ActionConfirmationStatus.value [.confirmed, .rejected, .awaitingConfirmation]

def fileReadSource? : Json → Option (Unchecked FileReadSource) :=
  Unchecked.ofJson FileReadSource.value [.ohAci, .default]

def fileEditSource? : Json → Option (Unchecked FileEditSource) :=
  Unchecked.ofJson FileEditSource.value [.llmBasedEdit, .ohAci]

def recallType? : Json → Option (Unchecked RecallType) :=
  Unchecked.ofJson RecallType.value [.workspaceContext, .knowledge]

def securityRisk? (v : Json) : Option ActionSecurityRisk :=
  [.unknown, .low, .medium, .high].find? fun risk => v = .int risk.value

/-! ## Messages -/

namespace Action

/-- The property `message`. -/
def messageText (out : Outside) : Action → Except PyError String
  | null => .ok "No action"
  | cmdRun a => .ok ("Running command: " ++ a.command)
  | ipythonRunCell a => .ok ("Running Python code interactively: " ++ a.code)
  | browseURL a => .ok ("I am browsing the URL: " ++ a.url)
  | browseInteractive a =>
    .ok ("I am interacting with the browser:\n```\n" ++ a.browserActions ++ "\n```")
  | fileRead a => .ok ("Reading file: " ++ a.path)
  | fileWrite a => .ok ("Writing file: " ++ a.path)
  | fileEdit _ | loopRecovery _ => .ok ""
  | agentThink a => .ok ("I am thinking...: " ++ a.thought)
  | agentFinish a => .ok (if a.thought != "" then a.thought else "All done! What's next on the agenda?")
  | agentReject a =>
    match Assoc.get? "reason" a.outputs with
    | none => .ok "Task is rejected by the agent."
    | some (.str reason) => .ok ("Task is rejected by the agent. Reason: " ++ reason)
    | some _ => .error (.typeError "can only concatenate str to str")
  | agentDelegate a => .ok ("I'm asking " ++ a.agent ++ " for help with this task.")
  | recallAction a => .ok ("Retrieving content for: " ++ String.ofList (a.query.toList.take 50))
  | changeAgentState a => .ok ("Agent state changed to " ++ a.agentState)
  | message a => .ok a.content
  | systemMessage a => .ok a.content
  | condensation a =>
    .ok (if a.summary.getD "" != "" then "Summary: " ++ a.summary.getD ""
      else "Condenser is dropping the events: " ++ out.repr (.ofList .int a.forgotten) ++ ".")
  | condensationRequest => .ok "Requesting a condensation of the conversation history."
  | mcp a =>
    .ok ("I am interacting with the MCP server with name:\n```\n" ++ a.name ++
      "\n```\nand arguments:\n```\n" ++ out.repr (.obj a.arguments) ++ "\n```")
  | taskTracking a =>
    .ok (match a.taskList.length with
      | 0 => "Clearing the task list."
      | 1 => "Managing 1 task item."
      | n => "Managing " ++ toString n ++ " task items.")

/-! ## Arguments -/

/-- The fields of the dataclass in their order, without its type. -/
def args : Action → Dict
  | null | condensationRequest => []
  | cmdRun a =>
    [("command", .str a.command), ("is_input", .bool a.isInput), ("thought", .str a.thought),
      ("blocking", .bool a.blocking), ("is_static", .bool a.isStatic), ("cwd", .ofOpt .str a.cwd),
      ("hidden", .bool a.hidden), ("confirmation_state", a.confirmationState.toJson (·.value)),
      ("security_risk", .int a.securityRisk.value)]
  | ipythonRunCell a =>
    [("code", .str a.code), ("thought", .str a.thought), ("include_extra", .bool a.includeExtra),
      ("confirmation_state", a.confirmationState.toJson (·.value)),
      ("security_risk", .int a.securityRisk.value), ("kernel_init_code", .str a.kernelInitCode)]
  | browseURL a =>
    [("url", .str a.url), ("thought", .str a.thought), ("security_risk", .int a.securityRisk.value),
      ("return_axtree", .bool a.returnAxtree)]
  | browseInteractive a =>
    [("browser_actions", .str a.browserActions), ("thought", .str a.thought),
      ("browsergym_send_msg_to_user", .str a.browsergymSendMsgToUser),
      ("security_risk", .int a.securityRisk.value), ("return_axtree", .bool a.returnAxtree)]
  | fileRead a =>
    [("path", .str a.path), ("start", .int a.start), ("end", .int a.end), ("thought", .str a.thought),
      ("security_risk", .int a.securityRisk.value), ("impl_source", a.implSource.toJson (·.value)),
      ("view_range", .ofOpt (.ofList .int) a.viewRange)]
  | fileWrite a =>
    [("path", .str a.path), ("content", .str a.content), ("start", .int a.start), ("end", .int a.end),
      ("thought", .str a.thought), ("security_risk", .int a.securityRisk.value)]
  | fileEdit a =>
    [("path", .str a.path), ("command", .str a.command), ("file_text", .ofOpt .str a.fileText),
      ("old_str", .ofOpt .str a.oldStr), ("new_str", .ofOpt .str a.newStr),
      ("insert_line", .ofOpt .int a.insertLine), ("content", .str a.content), ("start", .int a.start),
      ("end", .int a.end), ("thought", .str a.thought), ("security_risk", .int a.securityRisk.value),
      ("impl_source", a.implSource.toJson (·.value))]
  | agentThink a => [("thought", .str a.thought)]
  | agentFinish a =>
    [("final_thought", .str a.finalThought), ("outputs", .obj a.outputs), ("thought", .str a.thought)]
  | agentReject a => [("outputs", .obj a.outputs), ("thought", .str a.thought)]
  | agentDelegate a =>
    [("agent", .str a.agent), ("inputs", .obj a.inputs), ("thought", .str a.thought)]
  | recallAction a =>
    [("recall_type", a.recallType.toJson (·.value)), ("query", .str a.query),
      ("thought", .str a.thought)]
  | changeAgentState a => [("agent_state", .str a.agentState), ("thought", .str a.thought)]
  | message a =>
    [("content", .str a.content), ("file_urls", .ofOpt (.ofList .str) a.fileUrls),
      ("image_urls", .ofOpt (.ofList .str) a.imageUrls),
      ("wait_for_response", .bool a.waitForResponse), ("security_risk", .int a.securityRisk.value)]
  | systemMessage a =>
    [("content", .str a.content), ("tools", .ofOpt .arr a.tools),
      ("openhands_version", .ofOpt .str a.openhandsVersion),
      ("agent_class", .ofOpt .str a.agentClass)]
  | condensation a =>
    [("forgotten_event_ids", .ofOpt (.ofList .int) a.forgottenEventIds),
      ("forgotten_events_start_id", .ofOpt .int a.forgottenEventsStartId),
      ("forgotten_events_end_id", .ofOpt .int a.forgottenEventsEndId),
      ("summary", .ofOpt .str a.summary), ("summary_offset", .ofOpt .int a.summaryOffset)]
  | mcp a =>
    [("name", .str a.name), ("arguments", .obj a.arguments), ("thought", .str a.thought),
      ("security_risk", .int a.securityRisk.value)]
  | taskTracking a =>
    [("command", .str a.command), ("task_list", .arr a.taskList), ("thought", .str a.thought)]
  | loopRecovery a => [("option", .int a.option)]

end Action

namespace ActionClass

/-- The names the constructor takes, the type itself among them. -/
def fieldNames : ActionClass → List String
  | null | condensationRequest => ["action"]
  | cmdRun =>
    ["command", "is_input", "thought", "blocking", "is_static", "cwd", "hidden", "action",
      "confirmation_state", "security_risk"]
  | ipythonRunCell =>
    ["code", "thought", "include_extra", "action", "confirmation_state", "security_risk",
      "kernel_init_code"]
  | browseURL => ["url", "thought", "action", "security_risk", "return_axtree"]
  | browseInteractive =>
    ["browser_actions", "thought", "browsergym_send_msg_to_user", "action", "security_risk",
      "return_axtree"]
  | fileRead =>
    ["path", "start", "end", "thought", "action", "security_risk", "impl_source", "view_range"]
  | fileWrite => ["path", "content", "start", "end", "thought", "action", "security_risk"]
  | fileEdit =>
    ["path", "command", "file_text", "old_str", "new_str", "insert_line", "content", "start", "end",
      "thought", "action", "security_risk", "impl_source"]
  | agentThink => ["thought", "action"]
  | agentFinish => ["final_thought", "outputs", "thought", "action"]
  | agentReject => ["outputs", "thought", "action"]
  | agentDelegate => ["agent", "inputs", "thought", "action"]
  | recallAction => ["recall_type", "query", "thought", "action"]
  | changeAgentState => ["agent_state", "thought", "action"]
  | message => ["content", "file_urls", "image_urls", "wait_for_response", "action", "security_risk"]
  | systemMessage => ["content", "tools", "openhands_version", "agent_class", "action"]
  | condensation =>
    ["action", "forgotten_event_ids", "forgotten_events_start_id", "forgotten_events_end_id",
      "summary", "summary_offset"]
  | mcp => ["name", "arguments", "thought", "action", "security_risk"]
  | taskTracking => ["command", "task_list", "thought", "action"]
  | loopRecovery => ["option", "action"]

open Fields in
/-- The constructor of a class called with keyword arguments. -/
def construct (out : Outside) (c : ActionClass) (args : Dict) : Except PyError Action := do
  only c.fieldNames args
  match c with
  | null => return .null
  | condensationRequest => return .condensationRequest
  | cmdRun =>
    return .cmdRun {
      command := ← required args "command" Json.str?
      isInput := ← optional args "is_input" Json.bool? false
      thought := ← optional args "thought" Json.str? ""
      blocking := ← optional args "blocking" Json.bool? false
      isStatic := ← optional args "is_static" Json.bool? false
      cwd := ← optional args "cwd" (Json.opt? Json.str?) none
      hidden := ← optional args "hidden" Json.bool? false
      confirmationState :=
        ← optional args "confirmation_state" confirmationStatus? (.known .confirmed)
      securityRisk := ← optional args "security_risk" securityRisk? .unknown }
  | ipythonRunCell =>
    return .ipythonRunCell {
      code := ← required args "code" Json.str?
      thought := ← optional args "thought" Json.str? ""
      includeExtra := ← optional args "include_extra" Json.bool? true
      confirmationState :=
        ← optional args "confirmation_state" confirmationStatus? (.known .confirmed)
      securityRisk := ← optional args "security_risk" securityRisk? .unknown
      kernelInitCode := ← optional args "kernel_init_code" Json.str? "" }
  | browseURL =>
    return .browseURL {
      url := ← required args "url" Json.str?
      thought := ← optional args "thought" Json.str? ""
      securityRisk := ← optional args "security_risk" securityRisk? .unknown
      returnAxtree := ← optional args "return_axtree" Json.bool? false }
  | browseInteractive =>
    return .browseInteractive {
      browserActions := ← required args "browser_actions" Json.str?
      thought := ← optional args "thought" Json.str? ""
      browsergymSendMsgToUser := ← optional args "browsergym_send_msg_to_user" Json.str? ""
      securityRisk := ← optional args "security_risk" securityRisk? .unknown
      returnAxtree := ← optional args "return_axtree" Json.bool? false }
  | fileRead =>
    return .fileRead {
      path := ← required args "path" Json.str?
      start := ← optional args "start" Json.int? 0
      «end» := ← optional args "end" Json.int? (-1)
      thought := ← optional args "thought" Json.str? ""
      securityRisk := ← optional args "security_risk" securityRisk? .unknown
      implSource := ← optional args "impl_source" fileReadSource? (.known .default)
      viewRange := ← optional args "view_range" (Json.opt? (Json.list? Json.int?)) none }
  | fileWrite =>
    return .fileWrite {
      path := ← required args "path" Json.str?
      content := ← required args "content" Json.str?
      start := ← optional args "start" Json.int? 0
      «end» := ← optional args "end" Json.int? (-1)
      thought := ← optional args "thought" Json.str? ""
      securityRisk := ← optional args "security_risk" securityRisk? .unknown }
  | fileEdit =>
    return .fileEdit {
      path := ← required args "path" Json.str?
      command := ← optional args "command" Json.str? ""
      fileText := ← optional args "file_text" (Json.opt? Json.str?) none
      oldStr := ← optional args "old_str" (Json.opt? Json.str?) none
      newStr := ← optional args "new_str" (Json.opt? Json.str?) none
      insertLine := ← optional args "insert_line" (Json.opt? Json.int?) none
      content := ← optional args "content" Json.str? ""
      start := ← optional args "start" Json.int? 1
      «end» := ← optional args "end" Json.int? (-1)
      thought := ← optional args "thought" Json.str? ""
      securityRisk := ← optional args "security_risk" securityRisk? .unknown
      implSource := ← optional args "impl_source" fileEditSource? (.known .ohAci) }
  | agentThink => return .agentThink { thought := ← optional args "thought" Json.str? "" }
  | agentFinish =>
    return .agentFinish {
      finalThought := ← optional args "final_thought" Json.str? ""
      outputs := ← optional args "outputs" Json.obj? []
      thought := ← optional args "thought" Json.str? "" }
  | agentReject =>
    return .agentReject {
      outputs := ← optional args "outputs" Json.obj? []
      thought := ← optional args "thought" Json.str? "" }
  | agentDelegate =>
    return .agentDelegate {
      agent := ← required args "agent" Json.str?
      inputs := ← required args "inputs" Json.obj?
      thought := ← optional args "thought" Json.str? "" }
  | recallAction =>
    return .recallAction {
      recallType := ← required args "recall_type" recallType?
      query := ← optional args "query" Json.str? ""
      thought := ← optional args "thought" Json.str? "" }
  | changeAgentState =>
    return .changeAgentState {
      agentState := ← required args "agent_state" Json.str?
      thought := ← optional args "thought" Json.str? "" }
  | message =>
    return .message {
      content := ← required args "content" Json.str?
      fileUrls := ← optional args "file_urls" (Json.opt? (Json.list? Json.str?)) none
      imageUrls := ← optional args "image_urls" (Json.opt? (Json.list? Json.str?)) none
      waitForResponse := ← optional args "wait_for_response" Json.bool? false
      securityRisk := ← optional args "security_risk" securityRisk? .unknown }
  | systemMessage =>
    return .systemMessage {
      content := ← required args "content" Json.str?
      tools := ← optional args "tools" (Json.opt? Json.arr?) none
      openhandsVersion :=
        ← optional args "openhands_version" (Json.opt? Json.str?) (some out.version)
      agentClass := ← optional args "agent_class" (Json.opt? Json.str?) none }
  | condensation =>
    let ids ← optional args "forgotten_event_ids" (Json.opt? (Json.list? Json.int?)) none
    let startId ← optional args "forgotten_events_start_id" (Json.opt? Json.int?) none
    let endId ← optional args "forgotten_events_end_id" (Json.opt? Json.int?) none
    let summary ← optional args "summary" (Json.opt? Json.str?) none
    let summaryOffset ← optional args "summary_offset" (Json.opt? Json.int?) none
    if valid : validateFieldPolymorphism ids startId endId summary summaryOffset = true then
      return .condensation ⟨ids, startId, endId, summary, summaryOffset, valid⟩
    else throw (.valueError "Invalid configuration of the optional fields.")
  | mcp =>
    return .mcp {
      name := ← required args "name" Json.str?
      arguments := ← optional args "arguments" Json.obj? []
      thought := ← optional args "thought" Json.str? ""
      securityRisk := ← optional args "security_risk" securityRisk? .unknown }
  | taskTracking =>
    return .taskTracking {
      command := ← optional args "command" Json.str? "view"
      taskList := ← optional args "task_list" Json.arr? []
      thought := ← optional args "thought" Json.str? "" }
  | loopRecovery => return .loopRecovery { option := ← optional args "option" Json.int? 1 }

def all : List ActionClass :=
  [null, cmdRun, ipythonRunCell, browseURL, browseInteractive, fileRead, fileWrite, fileEdit,
    agentThink, agentFinish, agentReject, agentDelegate, recallAction, changeAgentState, message,
    systemMessage, condensation, condensationRequest, mcp, taskTracking, loopRecovery]

/-- `ACTION_TYPE_TO_CLASS`. -/
def ofType (type : String) : Option ActionClass := all.find? fun c => c.type == type

end ActionClass

/-! ## Reading an action -/

/-- The file editor's call in the code a deprecated argument holds. -/
def fileEditorCall (out : Outside) (code : String) : Option Dict :=
  let head := "print(file_editor(**".toList
  let text := code.toList
  if head.isPrefixOf text && "))".toList.isSuffixOf text then
    out.literalEval (.ofList ((text.drop head.length).take (text.length - head.length - 2)))
  else none

def handleActionDeprecatedArgs (out : Outside) (args : Dict) : Except PyError Dict :=
  let args := Assoc.erase "task_completed" (Assoc.erase "keep_prompt" args)
  match Assoc.get? "translated_ipython_code" args with
  | none => .ok args
  | some code =>
    let args := Assoc.erase "translated_ipython_code" args
    let updated : Except PyError Dict :=
      match code with
      | .null => .ok args
      | .str code =>
        .ok (((fileEditorCall out code).getD []).foldl (fun acc kv => Assoc.set kv.1 kv.2 acc) args)
      | _ => .error (.attributeError "object has no attribute 'startswith'")
    updated.map fun args =>
      if Assoc.get? "command" args = some (.str "view") then Assoc.erase "command" args else args

/-- The arguments under their present names. -/
def renameArgs (args : Dict) : Dict :=
  let confirmed := (Assoc.get? "is_confirmed" args).getD .null
  let args := Assoc.erase "is_confirmed" (Assoc.erase "timestamp" args)
  let args := if confirmed = .null then args else Assoc.set "confirmation_state" confirmed args
  match Assoc.get? "images_urls" args with
  | none => args
  | some urls => Assoc.set "image_urls" urls (Assoc.erase "images_urls" args)

/-- A risk that is no risk is left out. -/
def checkSecurityRisk (args : Dict) : Dict :=
  match Assoc.get? "security_risk" args with
  | none | some .null => args
  | some v => if (securityRisk? v).isSome then args else Assoc.erase "security_risk" args

/-- `LLMMalformedActionError` for a type that no class has. -/
def undefinedAction (out : Outside) (type : Json) : PyError :=
  .malformedAction ("'action['action']=" ++ out.repr type ++
    "' is not defined. Available actions: dict_keys(" ++
    out.repr (.ofList (fun c => .str (ActionClass.type c)) ActionClass.all) ++ ")")

structure ReadAction where
  action : Action
  timestamp : Option String
  timeout : Option FloatLit

def actionFromDict (out : Outside) (data : Dict) : Except PyError ReadAction :=
  match Assoc.get? "action" data with
  | none =>
    .error (.malformedAction ("'action' key is not found in action=" ++ out.repr (.obj data)))
  | some (.str type) =>
    match ActionClass.ofType type with
    | none => .error (undefinedAction out (.str type))
    | some c =>
      let args := (((Assoc.get? "args" data).getD (.obj [])).obj?).getD []
      let timestamp := ((Assoc.get? "timestamp" args).bind Json.str?).filter (· != "")
      (handleActionDeprecatedArgs out (checkSecurityRisk (renameArgs args))).bind fun args =>
        match c.construct out args,
          (Assoc.get? "timeout" data).mapM (Fields.readAs Json.float? "timeout") with
        | .ok action, .ok timeout => .ok ⟨action, timestamp, timeout⟩
        | .error (.typeError reason), _ | .ok _, .error (.typeError reason) =>
          .error (.malformedAction ("action=" ++ out.repr (.obj data) ++
            " has the wrong arguments: " ++ reason))
        | .error e, _ | .ok _, .error e => .error e
  | some type => .error (undefinedAction out type)

end OpenHands
