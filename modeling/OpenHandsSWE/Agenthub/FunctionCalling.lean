import OpenHandsSWE.Events.EventStream
import OpenHandsSWE.Lib.Binary64
import OpenHandsSWE.Lib.JsonCodec
import OpenHandsSWE.Lib.JsonRoundTrip

/-! The actions that are made of an LLM's response: one for each of its tool calls. -/

namespace OpenHands

namespace FunctionCalling

/-! ## Values of Python -/

/-- `str(v)`. -/
def strOf (out : Outside) : Json → String
  | .str s => s
  | v => out.repr v

/-- Whether a value counts as true. -/
def truthy : Json → Bool
  | .null => false
  | .bool b => b
  | .int n => n != 0
  | .float x => x.whole != 0 || x.frac.any fun d => d != 0
  | .str s => s != ""
  | .arr xs => !xs.isEmpty
  | .obj kvs => !kvs.isEmpty

/-- `key in v`. -/
def contains (key : String) : Json → Except PyError Bool
  | .obj kvs => .ok (Assoc.contains key kvs)
  | .arr xs => .ok (decide (.str key ∈ xs))
  | .str s => .ok (decide (key.toList <:+: s.toList))
  | v => .error (.typeError ("argument of type '" ++ v.typeName ++ "' is not iterable"))

/-- `v[key]`. -/
def item (key : String) : Json → Except PyError Json
  | .obj kvs =>
    match Assoc.get? key kvs with
    | some v => .ok v
    | none => .error (.keyError key)
  | .arr _ => .error (.typeError "list indices must be integers or slices, not str")
  | .str _ => .error (.typeError "string indices must be integers, not 'str'")
  | v => .error (.typeError ("'" ++ v.typeName ++ "' object is not subscriptable"))

/-- `v.get(key, default)`. -/
def get (key : String) (default : Json) : Json → Except PyError Json
  | .obj kvs => .ok ((Assoc.get? key kvs).getD default)
  | v => .error (.attributeError ("'" ++ v.typeName ++ "' object has no attribute 'get'"))

/-- `float(v)`. -/
def float : Json → Except PyError Binary64.Value
  | .bool b => .ok (.finite false (if b then 1 else 0))
  | .int n =>
    match Binary64.nearest |n| with
    | some m => .ok (.finite (decide (n < 0)) m)
    | none => .error .overflowError
  | .float x =>
    match Binary64.parse (Json.dumps (.float x)) with
    | some v => .ok v
    | none => .error (.valueError "could not convert string to float")
  | .str s =>
    match Binary64.parse s.toList with
    | some v => .ok v
    | none => .error (.valueError "could not convert string to float")
  | v => .error (.typeError ("float() argument must be a string or a real number, not '" ++ v.typeName ++ "'"))

/-! ## Responses and actions -/

/-- The message of a choice; its content is a text, a list of items or nothing. -/
structure AssistantMsg where
  content : Json := .null
  toolCalls : List ToolCall := []

structure Response where
  id : String
  choices : List AssistantMsg

structure CallMetadata where
  toolCallId : String
  functionName : String
  modelResponse : Response
  totalCallsInResponse : Nat

/-- An action: its class, the arguments it was made with, and the attributes that are set on it. The classes without
a thought or a security risk have no such attribute. -/
structure Action where
  cls : ActionClass
  arguments : Dict := []
  thought : Option Json := some (.str "")
  securityRisk : Option ActionSecurityRisk := some .unknown
  timeout : Option Binary64.Value := none
  blocking : Bool := false
  toolCallMetadata : Option CallMetadata := none
  responseId : Option String := none

variable (out : Outside)

def combineThought (action : Action) (thought : String) : Action :=
  match action.thought with
  | none => action
  | some own =>
    if thought ≠ "" ∧ truthy own = true then
      { action with thought := some (.str (thought ++ "\n" ++ strOf out own)) }
    else if thought ≠ "" then { action with thought := some (.str thought) }
    else action

/-- The risk of a name in `RISK_LEVELS`. -/
def riskLevel (v : Json) : Option ActionSecurityRisk :=
  if v = .str "LOW" then some .low
  else if v = .str "MEDIUM" then some .medium
  else if v = .str "HIGH" then some .high
  else none

def setSecurityRisk (action : Action) (arguments : Json) : Except PyError Action := do
  if ← contains "security_risk" arguments then
    match riskLevel (← item "security_risk" arguments) with
    | some risk => return { action with securityRisk := action.securityRisk.map fun _ => risk }
    | none => return action
  else return action

/-! ## The tools -/

/-- A required argument has to be there. -/
def required (argument name : String) (arguments : Json) : Except PyError Unit := do
  if ← contains argument arguments then return ()
  else throw (.functionCallValidation
    ("Missing required argument \"" ++ argument ++ "\" in tool call " ++ name))

def cmdRunTool (name : String) (arguments : Json) : Except PyError Action := do
  required "command" name arguments
  let isInput ← get "is_input" (.str "false") arguments
  let command ← item "command" arguments
  let action : Action :=
    { cls := .cmdRun, arguments := [("command", command), ("is_input", .bool (decide (isInput = .str "true")))] }
  if ← contains "timeout" arguments then
    let timeout ← item "timeout" arguments
    match float timeout with
    | .ok value => setSecurityRisk { action with timeout := some value, blocking := true } arguments
    | .error (.valueError _) => throw (.functionCallValidation
        ("Invalid float passed to 'timeout' argument: " ++ strOf out timeout))
    | .error err => throw err
  else setSecurityRisk action arguments

def ipythonTool (name : String) (arguments : Json) : Except PyError Action := do
  required "code" name arguments
  setSecurityRisk { cls := .ipythonRunCell, arguments := [("code", ← item "code" arguments)] } arguments

def delegateToBrowsingAgent (arguments : Json) : Action :=
  { cls := .agentDelegate, arguments := [("agent", .str "BrowsingAgent"), ("inputs", arguments)], securityRisk := none }

def finishTool (arguments : Json) : Except PyError Action := do
  let finalThought ← get "message" (.str "") arguments
  return { cls := .agentFinish, arguments := [("final_thought", finalThought)], securityRisk := none }

def llmBasedFileEditTool (name : String) (arguments : Json) : Except PyError Action := do
  required "path" name arguments
  required "content" name arguments
  let path ← item "path" arguments
  let content ← item "content" arguments
  let start ← get "start" (.int 1) arguments
  let endLine ← get "end" (.int (-1)) arguments
  let implSource ← get "impl_source" (.str "llm_based_edit") arguments
  return { cls := .fileEdit, arguments :=
    [("path", path), ("content", content), ("start", start), ("end", endLine), ("impl_source", implSource)] }

def validParams : List String :=
  ["command", "path", "file_text", "old_str", "new_str", "insert_line", "view_range", "security_risk"]

/-- The arguments that the editor takes, up to the first it does not know. -/
def editorKwargs (name : String) : Dict → Except PyError Dict
  | [] => return []
  | (key, value) :: rest => do
    if key ∈ validParams then
      let kwargs ← editorKwargs name rest
      return if key = "security_risk" then kwargs else (key, value) :: kwargs
    else throw (.functionCallValidation ("Unexpected argument " ++ key ++ " in tool call " ++ name ++
      ". Allowed arguments are: " ++ out.repr (.arr (validParams.map .str))))

def strReplaceEditorTool (name : String) (arguments : Json) : Except PyError Action := do
  required "command" name arguments
  required "path" name arguments
  let path ← item "path" arguments
  let command ← item "command" arguments
  match arguments with
  | .obj kvs =>
    let otherKwargs := kvs.filter fun kv => kv.1 ≠ "command" ∧ kv.1 ≠ "path"
    if command = .str "view" then
      setSecurityRisk { cls := .fileRead, arguments :=
        [("path", path), ("impl_source", .str "oh_aci"),
          ("view_range", (Assoc.get? "view_range" otherKwargs).getD .null)] } arguments
    else
      let kwargs ← editorKwargs out name (Assoc.erase "view_range" otherKwargs)
      setSecurityRisk { cls := .fileEdit, arguments :=
        [("path", path), ("command", command), ("impl_source", .str "oh_aci")] ++ kwargs } arguments
  | v => throw (.attributeError ("'" ++ v.typeName ++ "' object has no attribute 'items'"))

def thinkTool (arguments : Json) : Except PyError Action := do
  let thought ← get "thought" (.str "") arguments
  return { cls := .agentThink, thought := some thought, securityRisk := none }

def condensationRequestTool : Action := { cls := .condensationRequest, thought := none, securityRisk := none }

def browserTool (name : String) (arguments : Json) : Except PyError Action := do
  required "code" name arguments
  setSecurityRisk { cls := .browseInteractive, arguments := [("browser_actions", ← item "code" arguments)] } arguments

/-- A task with the fields that every task has. -/
def normalizedTask (i : Nat) : Json → Except PyError Json
  | .obj task => .ok (.obj [
      ("id", (Assoc.get? "id" task).getD (.str ("task-" ++ toString (i + 1)))),
      ("title", (Assoc.get? "title" task).getD (.str "Untitled task")),
      ("status", (Assoc.get? "status" task).getD (.str "todo")),
      ("notes", (Assoc.get? "notes" task).getD (.str ""))])
  | v => .error (.functionCallValidation ("Unexpected task format in task_list: <class '" ++ v.typeName ++
      "'>. Each task should be a dictionary."))

/-- `i` is the loop's variable, which it shares with the loop over the tool calls; `next` is what it is set to next. -/
def normalizedTasks (i : Nat) : Nat → List Json → Except PyError (List Json × Nat)
  | _, [] => .ok ([], i)
  | next, task :: rest => do
    let task ← normalizedTask next task
    let (tasks, i) ← normalizedTasks next (next + 1) rest
    return (task :: tasks, i)

def taskTrackerTool (i : Nat) (name : String) (arguments : Json) : Except PyError (Action × Nat) := do
  required "command" name arguments
  let command ← item "command" arguments
  if command = .str "plan" ∧ (← contains "task_list" arguments) = false then
    throw (.functionCallValidation
      ("Missing required argument \"task_list\" for \"plan\" command in tool call " ++ name))
  match ← get "task_list" (.arr []) arguments with
  | .arr rawTaskList =>
    let (tasks, i) ← normalizedTasks i 0 rawTaskList
    return ({ cls := .taskTracking, arguments := [("command", command), ("task_list", .arr tasks)]
              securityRisk := none }, i)
  | v => throw (.functionCallValidation ("Invalid format for \"task_list\". Expected a list but got <class '" ++
      v.typeName ++ "'>."))

/-! ## The loop -/

def TASK_TRACKER_TOOL_NAME : String := "task_tracker"

/-- The action of a tool call, and the value of the loop's variable after it. -/
def toAction (mcpToolNames : List String) (i : Nat) (toolCall : ToolCall) : Except PyError (Action × Nat) := do
  let name := toolCall.name
  match Json.loads toolCall.arguments.toList with
  | none => throw (.functionCallValidation ("Failed to parse tool call arguments: " ++ toolCall.arguments))
  | some arguments =>
    if name = "execute_bash" then return (← cmdRunTool out name arguments, i)
    else if name = "execute_ipython_cell" then return (← ipythonTool name arguments, i)
    else if name = "delegate_to_browsing_agent" then return (delegateToBrowsingAgent arguments, i)
    else if name = "finish" then return (← finishTool arguments, i)
    else if name = "edit_file" then return (← llmBasedFileEditTool name arguments, i)
    else if name = "str_replace_editor" then return (← strReplaceEditorTool out name arguments, i)
    else if name = "think" then return (← thinkTool arguments, i)
    else if name = "request_condensation" then return (condensationRequestTool, i)
    else if name = "browser" then return (← browserTool name arguments, i)
    else if name = TASK_TRACKER_TOOL_NAME then taskTrackerTool i name arguments
    else if name ∈ mcpToolNames then
      return ({ cls := .mcp, arguments := [("name", .str name), ("arguments", arguments)] }, i)
    else throw (.functionCallNotExists ("Tool " ++ name ++ " is not registered. (arguments: " ++
      strOf out arguments ++ "). Please check the tool name and retry with an existing tool."))

/-- The metadata need the call's id to be a text. -/
def withMetadata (response : Response) (total : Nat) (toolCall : ToolCall) (action : Action) : Except PyError Action :=
  match toolCall.id with
  | some id => .ok { action with
      toolCallMetadata := some ⟨id, toolCall.name, response, total⟩, responseId := some response.id }
  | none => .error (.valueError "1 validation error for ToolCallMetadata")

/-- The calls from number `n` on. -/
def callsToActions (mcpToolNames : List String) (response : Response) (total : Nat) (thought : String) :
    Nat → List ToolCall → Except PyError (List Action)
  | _, [] => return []
  | n, toolCall :: rest => do
    let (action, i) ← toAction out mcpToolNames n toolCall
    -- only the first action is meant to be given the thought
    let action := if i = 0 then combineThought out action thought else action
    let action ← withMetadata response total toolCall action
    return action :: (← callsToActions mcpToolNames response total thought (n + 1) rest)

/-- The texts of the items of a content that is a list. -/
def textOfItems : List Json → Except PyError String
  | [] => return ""
  | msg :: rest => do
    if (← item "type" msg) = .str "text" then
      match ← item "text" msg with
      | .str s => return s ++ (← textOfItems rest)
      | v => throw (.typeError ("can only concatenate str (not \"" ++ v.typeName ++ "\") to str"))
    else textOfItems rest

def assistantText : Json → Except PyError String
  | .str s => return s
  | .arr items => textOfItems items
  | _ => return ""

def responseToActions (mcpToolNames : List String) (response : Response) : Except PyError (List Action) :=
  match response.choices with
  | [assistantMsg] =>
    if assistantMsg.toolCalls ≠ [] then do
      let thought ← assistantText assistantMsg.content
      callsToActions out mcpToolNames response assistantMsg.toolCalls.length thought 0 assistantMsg.toolCalls
    else
      .ok [{ cls := .message, thought := none, responseId := some response.id, arguments :=
        [("content", .str (if truthy assistantMsg.content then strOf out assistantMsg.content else "")),
          ("wait_for_response", .bool true)] }]
  | _ => .error (.assertionError "Only one choice is supported for now")

/-! ## The call that is given the text -/

variable {out}

/-- The number of tasks in a task list. -/
def listed : Option Json → Nat
  | some (.arr rawTaskList) => rawTaskList.length
  | _ => 0

/-- The number of tasks that a call of the task tracker lists. -/
def tasks (toolCall : ToolCall) : Nat :=
  if toolCall.name = TASK_TRACKER_TOOL_NAME then
    match Json.loads toolCall.arguments.toList with
    | some (.obj kvs) => listed (Assoc.get? "task_list" kvs)
    | _ => 0
  else 0

/-- What the loop's variable is after a loop over some tasks. -/
def lastIndex (i : Nat) : Nat → Nat
  | 0 => i
  | n + 1 => n

theorem normalizedTasks_index (i next : Nat) (rawTaskList : List Json) :
    normalizedTasks i next rawTaskList = (normalizedTasks 0 next rawTaskList).map fun r =>
      (r.1, if rawTaskList = [] then i else next + rawTaskList.length - 1) := by
  induction rawTaskList generalizing i next with
  | nil => rfl
  | cons task rest ih =>
    unfold normalizedTasks
    cases normalizedTask next task with
    | error err => rfl
    | ok task =>
      rw [ih next (next + 1)]
      have hlast : (if rest = [] then next else next + 1 + rest.length - 1) = next + (rest.length + 1) - 1 := by
        cases rest with
        | nil => rfl
        | cons _ _ =>
          rw [if_neg (List.cons_ne_nil _ _)]
          omega
      rw [hlast, if_neg (List.cons_ne_nil _ _), List.length_cons]
      cases normalizedTasks 0 (next + 1) rest with
      | error err => rfl
      | ok r => rfl

/-- What a tool call gives by itself. -/
def ownAction (out : Outside) (mcpToolNames : List String) (toolCall : ToolCall) : Except PyError Action :=
  (toAction out mcpToolNames 0 toolCall).map Prod.fst

theorem ok_bind {α β : Type} (a : α) (f : α → Except PyError β) : (Except.ok a >>= f) = f a := rfl

theorem taskTrackerTool_index (i : Nat) (name : String) (kvs : Dict) :
    taskTrackerTool i name (.obj kvs) = (taskTrackerTool 0 name (.obj kvs)).map fun r =>
      (r.1, lastIndex i (listed (Assoc.get? "task_list" kvs))) := by
  unfold taskTrackerTool
  cases required "command" name (.obj kvs) with
  | error err => rfl
  | ok _ =>
    cases item "command" (.obj kvs) with
    | error err => rfl
    | ok command =>
      simp only [contains, get, ok_bind]
      by_cases hplan : command = .str "plan" ∧ Assoc.contains "task_list" kvs = false
      · simp only [if_pos hplan]
        rfl
      · simp only [if_neg hplan]
        cases Assoc.get? "task_list" kvs with
        | none => rfl
        | some v =>
          cases v with
          | arr rawTaskList =>
            simp only [Option.getD_some, normalizedTasks_index i]
            -- the inner loop leaves the number of its last round, if it has one
            cases rawTaskList with
            | nil => rfl
            | cons task rest =>
              have hlast : 0 + (task :: rest).length - 1 = rest.length := by simp
              rw [if_neg (List.cons_ne_nil _ _), hlast]
              cases normalizedTasks 0 0 (task :: rest) with
              | error err => rfl
              | ok r => rfl
          | _ => rfl

/-- A step that leaves the loop's variable. -/
def LeavesIndex (f : Nat → Except PyError (Action × Nat)) : Prop :=
  ∀ i, f i = ((f 0).map Prod.fst).map fun action => (action, i)

theorem LeavesIndex.paired (m : Except PyError Action) : LeavesIndex fun i => m >>= fun action => pure (action, i) := by
  intro i
  cases m with
  | error err => rfl
  | ok action => rfl

theorem LeavesIndex.ite {p : Prop} [Decidable p] {f g : Nat → Except PyError (Action × Nat)} (hf : LeavesIndex f)
    (hg : LeavesIndex g) : LeavesIndex fun i => if p then f i else g i := by
  intro i
  by_cases h : p
  · simpa only [if_pos h] using hf i
  · simpa only [if_neg h] using hg i

theorem toAction_tracker (mcpToolNames : List String) (i : Nat) {toolCall : ToolCall} {arguments : Json}
    (htracker : toolCall.name = TASK_TRACKER_TOOL_NAME) (hload : Json.loads toolCall.arguments.toList = some arguments) :
    toAction out mcpToolNames i toolCall = taskTrackerTool i TASK_TRACKER_TOOL_NAME arguments := by
  unfold toAction
  simp only [hload, htracker]
  simp only [TASK_TRACKER_TOOL_NAME, String.reduceEq, if_false, if_true]

theorem toAction_index (mcpToolNames : List String) (i : Nat) (toolCall : ToolCall) :
    toAction out mcpToolNames i toolCall = (ownAction out mcpToolNames toolCall).map fun action =>
      (action, lastIndex i (tasks toolCall)) := by
  unfold ownAction
  cases hload : Json.loads toolCall.arguments.toList with
  | none =>
    unfold toAction
    rw [hload]
    rfl
  | some arguments =>
    by_cases htracker : toolCall.name = TASK_TRACKER_TOOL_NAME
    · rw [toAction_tracker mcpToolNames i htracker hload, toAction_tracker mcpToolNames 0 htracker hload, tasks,
        if_pos htracker, hload]
      cases arguments with
      | obj kvs =>
        dsimp only
        rw [taskTrackerTool_index]
        cases taskTrackerTool 0 TASK_TRACKER_TOOL_NAME (.obj kvs) with
        | error err => rfl
        | ok r => rfl
      | _ =>
        unfold taskTrackerTool
        cases required "command" TASK_TRACKER_TOOL_NAME _ <;> rfl
    · have hleaves : LeavesIndex fun i => toAction out mcpToolNames i toolCall := by
        unfold toAction
        simp only [hload, if_neg htracker]
        repeat' apply LeavesIndex.ite
        all_goals first | exact LeavesIndex.paired _ | exact fun i => rfl
      rw [tasks, if_neg htracker]
      exact hleaves i

theorem taskTrackerTool_thought {i j : Nat} {name : String} {arguments : Json} {action : Action}
    (h : taskTrackerTool i name arguments = .ok (action, j)) : action.thought = some (.str "") := by
  unfold taskTrackerTool at h
  obtain ⟨-, -, h⟩ := Py.bind_ok h
  obtain ⟨command, -, h⟩ := Py.bind_ok h
  obtain ⟨there, -, h⟩ := Py.bind_ok h
  by_cases hplan : command = .str "plan" ∧ there = false
  · rw [if_pos hplan] at h
    cases h
  · rw [if_neg hplan] at h
    obtain ⟨rawTaskList, -, h⟩ := Py.bind_ok h
    cases rawTaskList with
    | arr rawTaskList =>
      obtain ⟨r, -, h⟩ := Py.bind_ok h
      cases h
      rfl
    | _ => cases h

theorem tracker_thought {mcpToolNames : List String} {toolCall : ToolCall} {own : Action}
    (hown : ownAction out mcpToolNames toolCall = .ok own) (htasks : tasks toolCall ≠ 0) :
    own.thought = some (.str "") := by
  have htracker : toolCall.name = TASK_TRACKER_TOOL_NAME := by
    by_contra hname
    exact htasks (if_neg hname)
  rw [tasks, if_pos htracker] at htasks
  cases hload : Json.loads toolCall.arguments.toList with
  | none =>
    rw [hload] at htasks
    exact absurd rfl htasks
  | some arguments =>
    rw [ownAction, toAction_tracker mcpToolNames 0 htracker hload] at hown
    cases hmade : taskTrackerTool 0 TASK_TRACKER_TOOL_NAME arguments with
    | error err =>
      rw [hmade] at hown
      cases hown
    | ok r =>
      rw [hmade] at hown
      cases hown
      exact taskTrackerTool_thought hmade

/-- What the loop does with the text when its variable is `i`. -/
def given (out : Outside) (i : Nat) (own : Action) (text : String) : Action :=
  if i = 0 then combineThought out own text else own

def callId (action : Action) : Option String := action.toolCallMetadata.map CallMetadata.toolCallId

/-- The actions answer the calls one by one, and only the first has the text in its thought. -/
structure TextGoesFirst (out : Outside) (mcpToolNames : List String) (text : String) (calls : List ToolCall)
    (actions : List Action) : Prop where
  onePerCall : actions.map callId = calls.map ToolCall.id
  thoughts : ∀ k toolCall, calls[k]? = some toolCall → ∃ own action,
    ownAction out mcpToolNames toolCall = .ok own ∧ actions[k]? = some action ∧
      action.thought = if k = 0 then (combineThought out own text).thought else own.thought

theorem lastIndex_eq_zero_iff (k n : Nat) : lastIndex k n = 0 ↔ n = 1 ∨ n = 0 ∧ k = 0 := by
  cases n with
  | zero => simp [lastIndex]
  | succ n => simp [lastIndex]

variable (out) in
theorem combineThought_changes {own : Action} (hown : own.thought = some (.str "")) {text : String} (htext : text ≠ "") :
    (combineThought out own text).thought ≠ own.thought := by
  unfold combineThought
  simp [hown, truthy, htext]

theorem combineThought_empty (own : Action) : combineThought out own "" = own := by
  unfold combineThought
  cases own.thought with
  | none => rfl
  | some thought => simp

theorem given_thought_iff {mcpToolNames : List String} {toolCall : ToolCall} {own : Action}
    (hown : ownAction out mcpToolNames toolCall = .ok own) {text : String} (htext : text ≠ "") (k : Nat) :
    (given out (lastIndex k (tasks toolCall)) own text).thought =
        (if k = 0 then (combineThought out own text).thought else own.thought) ↔
      if k = 0 then tasks toolCall ≤ 1 else tasks toolCall ≠ 1 := by
  have hzero := lastIndex_eq_zero_iff k (tasks toolCall)
  by_cases htasks : tasks toolCall = 0
  · -- a call without tasks keeps the loop's variable
    rw [htasks]
    unfold given
    by_cases hk : k = 0
    · simp [hk, lastIndex]
    · simp [hk, lastIndex]
  · have hchanges := combineThought_changes out (tracker_thought hown htasks) htext
    unfold given
    by_cases hlast : lastIndex k (tasks toolCall) = 0
    · have hone : tasks toolCall = 1 := (hzero.mp hlast).resolve_right fun h => htasks h.1
      rw [if_pos hlast, hone]
      by_cases hk : k = 0
      · simp [hk]
      · simpa [hk] using hchanges
    · have hone : tasks toolCall ≠ 1 := fun h => hlast (hzero.mpr (.inl h))
      rw [if_neg hlast]
      by_cases hk : k = 0
      · rw [if_pos hk, if_pos hk]
        refine iff_of_false (fun h => hchanges h.symm) ?_
        omega
      · simp [hk, hone]

/-- Each action comes from its call, with the text where the loop's variable is zero. -/
theorem callsToActions_get {mcpToolNames : List String} {response : Response} {total : Nat} {text : String}
    {calls : List ToolCall} {actions : List Action} {n : Nat}
    (h : callsToActions out mcpToolNames response total text n calls = .ok actions) :
    actions.map callId = calls.map ToolCall.id ∧ ∀ k toolCall, calls[k]? = some toolCall → ∃ own action,
      ownAction out mcpToolNames toolCall = .ok own ∧ actions[k]? = some action ∧
        action.thought = (given out (lastIndex (n + k) (tasks toolCall)) own text).thought := by
  induction calls generalizing n actions with
  | nil =>
    cases h
    exact ⟨rfl, fun k toolCall hk => by simp at hk⟩
  | cons toolCall rest ih =>
    unfold callsToActions at h
    rw [toAction_index] at h
    obtain ⟨⟨own, i⟩, hmade, h⟩ := Py.bind_ok h
    obtain ⟨own, hown, hmade⟩ := Py.map_ok hmade
    cases hmade
    obtain ⟨action, hmeta, h⟩ := Py.bind_ok h
    obtain ⟨others, hothers, h⟩ := Py.bind_ok h
    cases h
    obtain ⟨hids, hget⟩ := ih hothers
    unfold withMetadata at hmeta
    split at hmeta
    next id hid =>
      cases hmeta
      refine ⟨?_, fun k call hk => ?_⟩
      · rw [List.map_cons, List.map_cons, hids, hid]
        rfl
      · cases k with
        | zero =>
          cases hk
          exact ⟨own, _, hown, rfl, rfl⟩
        | succ k =>
          have hadd : n + (k + 1) = n + 1 + k := by omega
          rw [hadd]
          exact hget k call hk
    next => cases hmeta

theorem responseToActions_calls {mcpToolNames : List String} {response : Response} {m : AssistantMsg} {text : String}
    (hchoice : response.choices = [m]) (hcalls : m.toolCalls ≠ []) (htext : assistantText m.content = .ok text) :
    responseToActions out mcpToolNames response =
      callsToActions out mcpToolNames response m.toolCalls.length text 0 m.toolCalls := by
  unfold responseToActions
  rw [hchoice]
  dsimp only
  rw [if_pos hcalls, htext]
  rfl

theorem textGoesFirst_iff {mcpToolNames : List String} {response : Response} {m : AssistantMsg} {text : String}
    {actions : List Action} (hchoice : response.choices = [m]) (hcalls : m.toolCalls ≠ [])
    (htext : assistantText m.content = .ok text) (hactions : responseToActions out mcpToolNames response = .ok actions) :
    TextGoesFirst out mcpToolNames text m.toolCalls actions ↔
      text = "" ∨ ∀ k toolCall, m.toolCalls[k]? = some toolCall →
        if k = 0 then tasks toolCall ≤ 1 else tasks toolCall ≠ 1 := by
  rw [responseToActions_calls hchoice hcalls htext] at hactions
  obtain ⟨hids, hget⟩ := callsToActions_get hactions
  simp only [Nat.zero_add] at hget
  constructor
  · intro hfirst
    by_cases hempty : text = ""
    · exact .inl hempty
    · refine .inr fun k toolCall hk => ?_
      obtain ⟨own, action, hown, haction, hthought⟩ := hget k toolCall hk
      obtain ⟨own', action', hown', haction', hthought'⟩ := hfirst.thoughts k toolCall hk
      obtain rfl : own = own' := Except.ok.inj (hown.symm.trans hown')
      obtain rfl : action = action' := Option.some.inj (haction.symm.trans haction')
      exact (given_thought_iff hown hempty k).mp (hthought.symm.trans hthought')
  · intro h
    refine ⟨hids, fun k toolCall hk => ?_⟩
    obtain ⟨own, action, hown, haction, hthought⟩ := hget k toolCall hk
    refine ⟨own, action, hown, haction, hthought.trans ?_⟩
    by_cases hempty : text = ""
    · subst hempty
      unfold given
      simp only [combineThought_empty, ite_self]
    · exact (given_thought_iff hown hempty k).mpr ((h.resolve_left hempty) k toolCall hk)

/-- A response of one choice with a text. -/
def saying (text : String) (toolCalls : List ToolCall) : Response :=
  { id := "r", choices := [{ content := .str text, toolCalls := toolCalls }] }

def planArguments (n : Nat) : Dict := [("command", .str "plan"), ("task_list", .arr (List.replicate n (.obj [])))]

/-- A call that plans some tasks. -/
def plan (n : Nat) : ToolCall :=
  { id := some "1", name := TASK_TRACKER_TOOL_NAME, arguments := String.ofList (Json.dumps (.obj (planArguments n))) }

theorem loads_plan (n : Nat) : Json.loads (plan n).arguments.toList = some (.obj (planArguments n)) := by
  have hempty : ∀ v ∈ List.replicate n (Json.obj []), v.WellFormed := by
    intro v hv
    rw [List.eq_of_mem_replicate hv]
    exact Json.wellFormed_obj List.nodup_nil (List.forall_mem_nil _)
  have hargs : (Json.obj (planArguments n)).WellFormed := by
    refine Json.wellFormed_obj (show ["command", "task_list"].Nodup by decide) ?_
    have hlist : (Json.arr (List.replicate n (.obj []))).WellFormed := (Json.wellFormedItems_iff _).mpr hempty
    exact List.forall_mem_cons.mpr ⟨trivial, List.forall_mem_singleton.mpr hlist⟩
  rw [plan, String.toList_ofList]
  exact Json.loads_dumps hargs

theorem accepted {α : Type} {m : Except PyError α} (h : m.isOk = true) : ∃ a, m = .ok a := by
  cases m with
  | error err => cases h
  | ok a => exact ⟨a, rfl⟩

theorem tasks_plan (n : Nat) : tasks (plan n) = n := by
  have htasks : tasks (plan n) = (List.replicate n (Json.obj [])).length := by
    rw [tasks, if_pos (show (plan n).name = TASK_TRACKER_TOOL_NAME from rfl), loads_plan]
    rfl
  rw [htasks, List.length_replicate]

theorem toAction_plan (mcpToolNames : List String) (i n : Nat) :
    toAction out mcpToolNames i (plan n) = taskTrackerTool i TASK_TRACKER_TOOL_NAME (.obj (planArguments n)) :=
  toAction_tracker mcpToolNames i rfl (loads_plan n)

theorem responseToActions_plans (n n' : Nat) :
    responseToActions EventStream.plainOutside [] (saying "text" [plan n, plan n']) =
      callsToActions EventStream.plainOutside [] (saying "text" [plan n, plan n']) 2 "text" 0 [plan n, plan n'] :=
  responseToActions_calls (m := ⟨.str "text", [plan n, plan n']⟩) rfl (List.cons_ne_nil _ _) rfl

theorem textGoesFirst_iff_oneTask : ∃ actions,
    responseToActions EventStream.plainOutside [] (saying "text" [plan 1, plan 2]) = .ok actions ∧
      TextGoesFirst EventStream.plainOutside [] "text" [plan 1, plan 2] actions := by
  have hok : (responseToActions EventStream.plainOutside [] (saying "text" [plan 1, plan 2])).isOk = true := by
    simp only [responseToActions_plans, callsToActions, toAction_plan]
    rfl
  obtain ⟨actions, hactions⟩ := accepted hok
  refine ⟨actions, hactions, (textGoesFirst_iff rfl (List.cons_ne_nil _ _) rfl hactions).mpr (.inr ?_)⟩
  intro k toolCall hk
  rcases k with _ | _ | k
  · obtain rfl := Option.some.inj hk
    rw [tasks_plan]
    decide
  · obtain rfl := Option.some.inj hk
    rw [tasks_plan]
    decide
  · exact absurd hk.symm (Option.some_ne_none _)

/-- After a plan of two tasks the text goes to the second call, not to the first. -/
theorem plan_moves_text : ∃ actions,
    responseToActions EventStream.plainOutside [] (saying "text" [plan 2, plan 1]) = .ok actions ∧
      ¬ TextGoesFirst EventStream.plainOutside [] "text" [plan 2, plan 1] actions := by
  have hok : (responseToActions EventStream.plainOutside [] (saying "text" [plan 2, plan 1])).isOk = true := by
    simp only [responseToActions_plans, callsToActions, toAction_plan]
    rfl
  obtain ⟨actions, hactions⟩ := accepted hok
  refine ⟨actions, hactions, fun hfirst => ?_⟩
  rw [responseToActions_plans] at hactions
  obtain ⟨own, action, hown, haction, hthought⟩ := (callsToActions_get hactions).2 0 _ rfl
  obtain ⟨own', action', hown', haction', hthought'⟩ := hfirst.thoughts 0 _ rfl
  obtain rfl : own = own' := Except.ok.inj (hown.symm.trans hown')
  obtain rfl : action = action' := Option.some.inj (haction.symm.trans haction')
  have hfew := (given_thought_iff hown (by decide) 0).mp (hthought.symm.trans hthought')
  rw [tasks_plan] at hfew
  exact absurd hfew (by decide)

end FunctionCalling

end OpenHands
