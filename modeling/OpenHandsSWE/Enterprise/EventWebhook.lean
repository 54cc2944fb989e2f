import OpenHandsSWE.Events.Serialization.Event
import OpenHandsSWE.Lib.Base64
import OpenHandsSWE.Lib.JsonText
import OpenHandsSWE.Lib.Runs
import OpenHandsSWE.Lib.Text
import OpenHandsSWE.Storage.BatchedWebHook

/-! What the runtimes of the conversations write back through the webhooks, one at a time or in batches. -/

namespace OpenHands.EventWebhook

abbrev Chars := List Char

/-- A path of the file system, from its root. -/
abbrev Place := List Chars

/-! ## What is stored -/

/-- A row of the conversations; the values are those that JSON has for them. -/
structure StoredConversationMetadata where
  userId : Chars
  title : Json
  lastUpdatedAt : Int
  accumulatedCost : Json
  promptTokens : Json
  completionTokens : Json
  totalTokens : Json

inductive CallbackStatus where
  | active
  | completed
  | error
deriving DecidableEq, Repr

structure ConversationCallback (ρ : Type) where
  conversationId : Chars
  processor : ρ
  status : CallbackStatus

structure ConversationWork (ω : Type) where
  userId : Option Chars
  seconds : ω

structure Stored (ρ ω : Type) where
  files : List (Place × FileContents) := []
  metadata : List (Chars × StoredConversationMetadata) := []
  callbacks : List (ConversationCallback ρ) := []
  work : List (Chars × ConversationWork ω) := []

/-- What the operations find outside of the database and the files, and what the pickles hold. -/
structure Server (ρ ω : Type) where
  root : Place
  canWrite : Chars → Bool
  agentLoops : Option Chars → Chars → List (Option String)
  mergeStats : Option FileContents → List UInt8 → Except PyError FileContents
  invoke : ρ → Event → Except PyError (ρ × CallbackStatus)
  workingSeconds : List (Place × FileContents) → Chars → Option Chars → Except PyError ω
  outside : Outside
  now : Int

variable {ρ ω : Type}

/-! ## Paths -/

def enter (at_ : Place) (name : Chars) : Place :=
  if name = [] ∨ name = ['.'] then at_ else if name = ['.', '.'] then at_.dropLast else at_ ++ [name]

/-- `LocalFileStore.get_full_path`, as the file system resolves it. -/
def getFullPath (root : Place) (path : Chars) : Place :=
  let path := if path.head? = some '/' then path.tail else path
  (Text.split ['/'] path).foldl enter (if path.head? = some '/' then [] else root)

def getConversationDir (sid : Chars) (userId : Option Chars) : Chars :=
  match userId with
  | none | some [] => "sessions/".toList ++ sid ++ ['/']
  | some user => "users/".toList ++ user ++ "/conversations/".toList ++ sid ++ ['/']

def parseConversationIdAndSubpath (path : Chars) : Option (Chars × Chars) :=
  match Text.split ['/'] path with
  | sessions :: conversationId :: items =>
    if sessions = "sessions".toList then some (conversationId, List.intercalate ['/'] items) else none
  | _ => none

/-! ## The writes -/

namespace Stored

def write (server : Server ρ ω) (s : Stored ρ ω) (path : Chars) (contents : FileContents) :
    Except PyError (Stored ρ ω) :=
  if server.canWrite path then .ok { s with files := Assoc.set (getFullPath server.root path) contents s.files }
  else .error (.osError "OSError")

def getUserId (s : Stored ρ ω) (conversationId : Chars) : Option Chars :=
  (Assoc.get? conversationId s.metadata).map StoredConversationMetadata.userId

end Stored

def truthy : Json → Bool
  | .null => false
  | .bool b => b
  | .int n => n ≠ 0
  | .float x => x.whole ≠ 0 ∨ x.frac.any (· ≠ 0)
  | .str s => s ≠ ""
  | .arr xs => !xs.isEmpty
  | .obj kvs => !kvs.isEmpty

/-- `content.get(name) or old`. -/
def getOr (content : Dict) (name : String) (old : Json) : Json :=
  let v := (Assoc.get? name content).getD .null
  if truthy v then v else old

def fieldsOf : Json → Except PyError Dict
  | .obj content => .ok content
  | _ => .error (.attributeError "get")

def updateConversationMetadata (server : Server ρ ω) (s : Stored ρ ω) (conversationId : Chars) (content : Json) :
    Except PyError (Stored ρ ω) :=
  match Assoc.get? conversationId s.metadata with
  | none => .error (.attributeError "title")
  | some row =>
    (fieldsOf content).map fun content =>
      let row := { row with
        title := getOr content "title" row.title
        lastUpdatedAt := server.now
        accumulatedCost := getOr content "accumulated_cost" row.accumulatedCost
        promptTokens := getOr content "prompt_tokens" row.promptTokens
        completionTokens := getOr content "completion_tokens" row.completionTokens
        totalTokens := getOr content "total_tokens" row.totalTokens }
      { s with metadata := Assoc.set conversationId row s.metadata }

def updateAgentState (server : Server ρ ω) (s : Stored ρ ω) (userId : Option Chars) (conversationId : Chars)
    (content : List UInt8) : Except PyError (Stored ρ ω) :=
  s.write server (getConversationDir conversationId userId ++ "agent_state.pkl".toList) (.bytes content)

def updateConversationStats (server : Server ρ ω) (s : Stored ρ ω) (userId : Option Chars) (conversationId : Chars)
    (content : List UInt8) : Except PyError (Stored ρ ω) :=
  let path := getConversationDir conversationId userId ++ "conversation_stats.pkl".toList
  (server.mergeStats (Assoc.get? (getFullPath server.root path) s.files) content).bind fun merged =>
    s.write server path merged

/-- The active callbacks of the conversation are invoked; one that raises is marked. -/
def invokeConversationCallbacks (server : Server ρ ω) (s : Stored ρ ω) (conversationId : Chars) (event : Event) :
    Stored ρ ω :=
  { s with callbacks := s.callbacks.map fun callback =>
      if callback.conversationId = conversationId ∧ callback.status = .active then
        match server.invoke callback.processor event with
        | .ok (processor, status) => { callback with processor := processor, status := status }
        | .error _ => { callback with status := .error }
      else callback }

/-- Whatever raises here is logged. -/
def updateActiveWorkingSeconds (server : Server ρ ω) (s : Stored ρ ω) (conversationId : Chars) (userId : Option Chars) :
    Stored ρ ω :=
  match server.workingSeconds s.files conversationId userId with
  | .error _ => s
  | .ok seconds =>
    let work := match Assoc.get? conversationId s.work with
      | some work => { work with seconds := seconds }
      | none => { userId := userId, seconds := seconds }
    { s with work := Assoc.set conversationId work s.work }

def agentState? (event : Event) : Option String :=
  match event.body with
  | .observation (.agentStateChanged o) => some o.agentState
  | _ => none

def readEvent (server : Server ρ ω) : Json → Except PyError Event
  | .obj data => eventFromDict server.outside data
  | _ => .error (.typeError "data")

/-- The callbacks, and the seconds when the agent does not run. -/
def observe (server : Server ρ ω) (s : Stored ρ ω) (userId : Option Chars) (conversationId : Chars) (event : Event) :
    Stored ρ ω :=
  match agentState? event with
  | none => s
  | some agentState =>
    let s := invokeConversationCallbacks server s conversationId event
    if agentState ≠ "running" then updateActiveWorkingSeconds server s conversationId userId else s

/-- The event is written before it is read; what then raises leaves the file. -/
def processEvent (server : Server ρ ω) (s : Stored ρ ω) (userId : Option Chars) (conversationId subpath : Chars)
    (content : Json) : Stored ρ ω × Except PyError Unit :=
  match s.write server (getConversationDir conversationId userId ++ subpath) (.text (String.ofList (Json.dumps content))) with
  | .error err => (s, .error err)
  | .ok s =>
    match readEvent server content with
    | .error err => (s, .error err)
    | .ok event => (observe server s userId conversationId event, .ok ())

/-- A write that raises has changed nothing. -/
def attempt (s : Stored ρ ω) (result : Except PyError (Stored ρ ω)) : Stored ρ ω × Except PyError Unit :=
  (result.toOption.getD s, result.map fun _ => ())

/-! ## The webhooks -/

inductive BatchMethod where
  | post
  | delete
deriving DecidableEq, Repr

structure BatchOperation where
  method : BatchMethod
  path : Chars
  content : Option String := none
  encoding : Option String := none

namespace BatchOperation

def getContent (op : BatchOperation) : Except PyError (List UInt8) :=
  match op.content with
  | none => .error (.valueError "empty_content_in_batch")
  | some content =>
    if op.encoding = some "base64" then
      if content.toList.all fun c => c.toNat < 128 then
        match Base64.decode content.toList with
        | some bytes => .ok (bytes.map UInt8.ofNat)
        | none => .error (.valueError "binascii.Error")
      else .error (.valueError "UnicodeEncodeError")
    else .ok content.toUTF8.data.toList

end BatchOperation

/-- `json.loads` of bytes. -/
def loads (bytes : List UInt8) : Except PyError Json :=
  match String.fromUTF8? bytes.toByteArray with
  | none => .error (.valueError "UnicodeDecodeError")
  | some text =>
    match Json.loads text.toList with
    | none => .error (.valueError "JSONDecodeError")
    | some v => .ok v

/-- The user and the key of a conversation: none of the first, or a key without a loop, raises. -/
def lookUp (server : Server ρ ω) (s : Stored ρ ω) (conversationId : Chars) : Option (Chars × Option (Option String)) :=
  (s.getUserId conversationId).map fun user => (user, (server.agentLoops (some user) conversationId).head?)

/-- The loop of a batch remembers the conversation of the last key it has looked up, and the last user. -/
structure Batch (ρ ω : Type) where
  stored : Stored ρ ω
  prevConversationId : Option Chars := none
  userId : Option Chars := none

/-- The recheck of the key, and whether the operation goes on. -/
def recheck (server : Server ρ ω) (presented : Option String) (b : Batch ρ ω) (conversationId : Chars) :
    Batch ρ ω × Bool :=
  if b.prevConversationId = some conversationId then (b, true)
  else
    match lookUp server b.stored conversationId with
    | none => (b, false)
    | some (user, none) => ({ b with userId := some user }, false)
    | some (user, some key) =>
      ({ b with prevConversationId := some conversationId, userId := some user }, key = presented)

/-- What a path asks for. -/
def perform (server : Server ρ ω) (s : Stored ρ ω) (userId : Option Chars) (conversationId subpath : Chars)
    (op : BatchOperation) : Stored ρ ω × Except PyError Unit :=
  if subpath = "agent_state.pkl".toList then
    attempt s (op.getContent.bind (updateAgentState server s userId conversationId))
  else if subpath = "conversation_stats.pkl".toList then
    attempt s (op.getContent.bind (updateConversationStats server s userId conversationId))
  else if subpath = "metadata.json".toList then
    attempt s ((op.getContent.bind loads).bind (updateConversationMetadata server s conversationId))
  else if "events/".toList <+: subpath then
    match op.getContent.bind loads with
    | .error err => (s, .error err)
    | .ok content => processEvent server s userId conversationId subpath content
  else (s, .ok ())

/-- One round of `_process_batch_operations_background`. -/
def step (server : Server ρ ω) (presented : Option String) (b : Batch ρ ω) (op : BatchOperation) : Batch ρ ω :=
  if op.method ≠ .post then b
  else if op.path = "settings.json".toList ∨ op.path = "secrets.json".toList then b
  else
    match parseConversationIdAndSubpath op.path with
    | none => b
    | some (conversationId, subpath) =>
      match recheck server presented b conversationId with
      | (b, false) => b
      | (b, true) =>
        -- what has been raised is logged
        { b with stored := (perform server b.stored b.userId conversationId subpath op).1 }

/-- The status of an answer; an error that is not caught is a 500. -/
def answer (outcome : Stored ρ ω × Except PyError Unit) : Stored ρ ω × Nat :=
  (outcome.1, if outcome.2.toOption.isSome then 200 else 500)

def onWrite (server : Server ρ ω) (s : Stored ρ ω) (presented : Option String) (path : Chars) (body : List UInt8) :
    Stored ρ ω × Nat :=
  match parseConversationIdAndSubpath path with
  | none => (s, 400)
  | some (conversationId, subpath) =>
    match lookUp server s conversationId with
    | none | some (_, none) => (s, 500)
    | some (user, some key) =>
      if key ≠ presented then (s, 403)
      else if subpath = "agent_state.pkl".toList then
        answer (attempt s (updateAgentState server s (some user) conversationId body))
      else
        match loads body with
        | .error _ => (s, 400)
        | .ok content =>
          if subpath = "metadata.json".toList then
            answer (attempt s (updateConversationMetadata server s conversationId content))
          else if "events/".toList <+: subpath then
            answer (processEvent server s (some user) conversationId subpath content)
          else if "event_cache".toList <+: subpath then (s, 200)
          else (s, 400)

/-! ## Who may write what -/

/-- The key that is reported for the conversation. -/
def Authorized (server : Server ρ ω) (s : Stored ρ ω) (presented : Option String) (conversationId user : Chars) : Prop :=
  lookUp server s conversationId = some (user, some presented)

/-- Nothing has changed but what belongs to the conversation of a user. -/
structure Confined (root : Place) (conversationId user : Chars) (s s' : Stored ρ ω) : Prop where
  files : ∀ p, ¬ getFullPath root (getConversationDir conversationId (some user)) <+: p →
    Assoc.get? p s'.files = Assoc.get? p s.files
  metadata : ∀ other ≠ conversationId, Assoc.get? other s'.metadata = Assoc.get? other s.metadata
  callbacks : s'.callbacks.filter (fun c => c.conversationId ≠ conversationId) =
    s.callbacks.filter fun c => c.conversationId ≠ conversationId
  work : ∀ other ≠ conversationId, Assoc.get? other s'.work = Assoc.get? other s.work

/-- A path changes what is stored only with the key of its conversation, and only what belongs to that. -/
def Secure (server : Server ρ ω) (presented : Option String) (path : Chars) (s s' : Stored ρ ω) : Prop :=
  s' ≠ s → ∃ conversationId subpath user, parseConversationIdAndSubpath path = some (conversationId, subpath) ∧
    Authorized server s presented conversationId user ∧ Confined server.root conversationId user s s'

/-- The paths that are acted upon. -/
def Writes (subpath : Chars) : Prop :=
  subpath = "agent_state.pkl".toList ∨ subpath = "conversation_stats.pkl".toList ∨
    subpath = "metadata.json".toList ∨ "events/".toList <+: subpath

/-- An event that the conversation may write lies in its directory. -/
def Inside (server : Server ρ ω) (s : Stored ρ ω) (presented : Option String) (path : Chars) : Prop :=
  ∀ conversationId subpath user, parseConversationIdAndSubpath path = some (conversationId, subpath) →
    "events/".toList <+: subpath → Authorized server s presented conversationId user →
      getFullPath server.root (getConversationDir conversationId (some user)) <+:
        getFullPath server.root (getConversationDir conversationId (some user) ++ subpath)

/-- A conversation whose key is not looked up again has been let in, and its user is the last one looked up
unless only the row is written. -/
def Remembered (server : Server ρ ω) (presented : Option String) (b : Batch ρ ω) (op : BatchOperation) : Prop :=
  op.method = .post → ∀ conversationId subpath, parseConversationIdAndSubpath op.path = some (conversationId, subpath) →
    Writes subpath → b.prevConversationId = some conversationId →
      ∃ user, Authorized server b.stored presented conversationId user ∧
        (subpath ≠ "metadata.json".toList → b.userId = some user)

section Places

variable {root : Place} {front : Chars}

/-- What follows a directory is resolved from there. -/
theorem getFullPath_below (hne : front ≠ []) (hslash : front.head? ≠ some '/') (rest : Chars) :
    getFullPath root (front ++ '/' :: rest) =
      (Text.split ['/'] rest).foldl enter (getFullPath root (front ++ ['/'])) := by
  have hplace (rest : Chars) : getFullPath root (front ++ '/' :: rest) =
      (Text.split ['/'] rest).foldl enter ((Text.split ['/'] front).foldl enter root) := by
    have hhead : (front ++ '/' :: rest).head? ≠ some '/' := by
      rw [List.head?_append_of_ne_nil _ hne]
      exact hslash
    rw [getFullPath, if_neg hhead, if_neg hhead, Text.split_append_append, List.foldl_append]
  rw [hplace, hplace []]
  rfl

theorem getConversationDir_eq (sid : Chars) (userId : Option Chars) :
    ∃ front, front ≠ [] ∧ front.head? ≠ some '/' ∧ getConversationDir sid userId = front ++ ['/'] := by
  unfold getConversationDir
  split
  · exact ⟨"sessions/".toList ++ sid, nofun, nofun, rfl⟩
  · exact ⟨"sessions/".toList ++ sid, nofun, nofun, rfl⟩
  · exact ⟨"users/".toList ++ _ ++ "/conversations/".toList ++ sid, nofun, nofun, rfl⟩

theorem getFullPath_file (sid : Chars) (userId : Option Chars) {name : Chars} (hslash : '/' ∉ name)
    (hname : name ≠ [] ∧ name ≠ ['.'] ∧ name ≠ ['.', '.']) : getFullPath root (getConversationDir sid userId ++ name) =
      getFullPath root (getConversationDir sid userId) ++ [name] := by
  obtain ⟨front, hne, hhead, hdir⟩ := getConversationDir_eq sid userId
  have hnot : ¬ (name = [] ∨ name = ['.']) := fun h => h.elim hname.1 hname.2.1
  rw [hdir, List.append_assoc, List.singleton_append, getFullPath_below hne hhead, Text.split_of_notMem hslash]
  rw [List.foldl_cons, List.foldl_nil, enter, if_neg hnot, if_neg hname.2.2]

end Places

section Confinement

variable {server : Server ρ ω} {s s' t : Stored ρ ω} {conversationId subpath user : Chars} {root : Place}

theorem Confined.refl (root : Place) (conversationId user : Chars) (s : Stored ρ ω) :
    Confined root conversationId user s s :=
  ⟨fun _ _ => rfl, fun _ _ => rfl, rfl, fun _ _ => rfl⟩

theorem Confined.trans (h : Confined root conversationId user s s') (h' : Confined root conversationId user s' t) :
    Confined root conversationId user s t :=
  ⟨fun p hp => (h'.files p hp).trans (h.files p hp), fun c hc => (h'.metadata c hc).trans (h.metadata c hc),
    h'.callbacks.trans h.callbacks, fun c hc => (h'.work c hc).trans (h.work c hc)⟩

/-- A file in the directory is written. -/
theorem confined_write {path : Chars} {contents : FileContents}
    (hinside : getFullPath server.root (getConversationDir conversationId (some user)) <+: getFullPath server.root path)
    (h : s.write server path contents = .ok s') : Confined server.root conversationId user s s' := by
  rw [Stored.write] at h
  split_ifs at h
  rw [← Except.ok.inj h]
  refine ⟨fun p hp => ?_, fun _ _ => rfl, rfl, fun _ _ => rfl⟩
  have hne : p ≠ getFullPath server.root path := fun heq => hp (heq ▸ hinside)
  exact Assoc.get?_set_of_ne hne _ _

theorem confined_metadata {content : Json} (h : updateConversationMetadata server s conversationId content = .ok s') :
    Confined root conversationId user s s' := by
  unfold updateConversationMetadata at h
  split at h
  next => cases h
  next row hrow =>
    obtain ⟨fields, -, rfl⟩ := Py.map_ok h
    exact ⟨fun _ _ => rfl, fun other hne => Assoc.get?_set_of_ne hne _ _, rfl, fun _ _ => rfl⟩

theorem confined_callbacks (event : Event) :
    Confined root conversationId user s (invokeConversationCallbacks server s conversationId event) := by
  refine ⟨fun _ _ => rfl, fun _ _ => rfl, ?_, fun _ _ => rfl⟩
  rw [invokeConversationCallbacks]
  dsimp only
  induction s.callbacks with
  | nil => rfl
  | cons callback callbacks ih =>
    rw [List.map_cons]
    by_cases hown : callback.conversationId = conversationId
    · -- its conversation stays, so that it is left out on both sides
      have hkept : (if callback.conversationId = conversationId ∧ callback.status = .active then
          match server.invoke callback.processor event with
          | .ok (processor, status) => { callback with processor := processor, status := status }
          | .error _ => { callback with status := .error }
        else callback).conversationId = conversationId := by
        split_ifs
        · split <;> exact hown
        · exact hown
      rw [List.filter_cons_of_neg (by simpa using hkept), List.filter_cons_of_neg (by simpa using hown)]
      exact ih
    · rw [if_neg fun h => hown h.1, List.filter_cons_of_pos (by simpa using hown),
        List.filter_cons_of_pos (by simpa using hown), ih]

theorem confined_work (userId : Option Chars) :
    Confined root conversationId user s (updateActiveWorkingSeconds server s conversationId userId) := by
  unfold updateActiveWorkingSeconds
  split
  · exact Confined.refl root conversationId user s
  · exact ⟨fun _ _ => rfl, fun _ _ => rfl, rfl, fun other hne => Assoc.get?_set_of_ne hne _ _⟩

theorem confined_observe (userId : Option Chars) (event : Event) :
    Confined root conversationId user s (observe server s userId conversationId event) := by
  unfold observe
  split
  · exact Confined.refl root conversationId user s
  · dsimp only
    split_ifs
    · exact (confined_callbacks event).trans (confined_work userId)
    · exact confined_callbacks event

theorem confined_processEvent {content : Json}
    (hinside : getFullPath server.root (getConversationDir conversationId (some user)) <+:
      getFullPath server.root (getConversationDir conversationId (some user) ++ subpath)) :
    Confined server.root conversationId user s (processEvent server s (some user) conversationId subpath content).1 := by
  unfold processEvent
  split
  next => exact Confined.refl _ conversationId user s
  next s' hwrite =>
    have hwritten := confined_write hinside hwrite
    split
    · exact hwritten
    · exact hwritten.trans (confined_observe (some user) _)

theorem confined_attempt {result : Except PyError (Stored ρ ω)}
    (h : ∀ s', result = .ok s' → Confined root conversationId user s s') :
    Confined root conversationId user s (attempt s result).1 := by
  cases result with
  | error err => exact Confined.refl root conversationId user s
  | ok s' => exact h s' rfl

theorem confined_agentState {content : List UInt8}
    (h : updateAgentState server s (some user) conversationId content = .ok s') :
    Confined server.root conversationId user s s' := by
  refine confined_write ?_ h
  rw [getFullPath_file conversationId (some user) (by decide) (by decide)]
  exact List.prefix_append _ _

theorem confined_stats {content : List UInt8}
    (h : updateConversationStats server s (some user) conversationId content = .ok s') :
    Confined server.root conversationId user s s' := by
  obtain ⟨merged, -, hwrite⟩ := Py.bind_ok h
  refine confined_write ?_ hwrite
  rw [getFullPath_file conversationId (some user) (by decide) (by decide)]
  exact List.prefix_append _ _

end Confinement

section Calls

variable {server : Server ρ ω} {presented : Option String} {s : Stored ρ ω} {b : Batch ρ ω} {op : BatchOperation}
  {conversationId subpath user : Chars}

theorem confined_perform {userId : Option Chars} (huser : subpath ≠ "metadata.json".toList → userId = some user)
    (hinside : "events/".toList <+: subpath → getFullPath server.root (getConversationDir conversationId (some user)) <+:
      getFullPath server.root (getConversationDir conversationId (some user) ++ subpath)) :
    Confined server.root conversationId user s (perform server s userId conversationId subpath op).1 := by
  unfold perform
  split_ifs with hagent hstats hmetadata hevents
  · obtain rfl := huser (hagent ▸ by decide)
    refine confined_attempt fun s' h => ?_
    obtain ⟨content, -, h⟩ := Py.bind_ok h
    exact confined_agentState h
  · obtain rfl := huser (hstats ▸ by decide)
    refine confined_attempt fun s' h => ?_
    obtain ⟨content, -, h⟩ := Py.bind_ok h
    exact confined_stats h
  · refine confined_attempt fun s' h => ?_
    obtain ⟨content, -, h⟩ := Py.bind_ok h
    exact confined_metadata h
  · obtain rfl := huser hmetadata
    split
    · exact Confined.refl _ conversationId user s
    · exact confined_processEvent (hinside hevents)
  · exact Confined.refl _ conversationId user s

theorem perform_ignored {userId : Option Chars} (h : ¬ Writes subpath) :
    (perform server s userId conversationId subpath op).1 = s := by
  obtain ⟨hagent, h⟩ := not_or.mp h
  obtain ⟨hstats, h⟩ := not_or.mp h
  obtain ⟨hmetadata, hevents⟩ := not_or.mp h
  rw [perform, if_neg hagent, if_neg hstats, if_neg hmetadata, if_neg hevents]

/-- Where the loop remembers only what it has let in, and the events stay inside, an operation is secure. -/
theorem secure_step (hremembered : Remembered server presented b op) (hinside : Inside server b.stored presented op.path) :
    Secure server presented op.path b.stored (step server presented b op).stored := by
  unfold step
  split_ifs with hmethod hignored
  · exact fun h => absurd rfl h
  · exact fun h => absurd rfl h
  · split
    next => exact fun h => absurd rfl h
    next conversationId subpath hparse =>
      unfold recheck
      by_cases hprev : b.prevConversationId = some conversationId
      · rw [if_pos hprev]
        dsimp only
        intro hchanged
        by_cases hwrites : Writes subpath
        · obtain ⟨user, hauthorized, huser⟩ :=
            hremembered (not_not.mp hmethod) conversationId subpath hparse hwrites hprev
          exact ⟨conversationId, subpath, user, hparse, hauthorized,
            confined_perform huser fun hevents => hinside conversationId subpath user hparse hevents hauthorized⟩
        · exact absurd (perform_ignored hwrites) hchanged
      · rw [if_neg hprev]
        cases hlookup : lookUp server b.stored conversationId with
        | none => exact fun h => absurd rfl h
        | some found =>
          obtain ⟨user, key⟩ := found
          cases key with
          | none => exact fun h => absurd rfl h
          | some key =>
            by_cases hkey : key = presented
            · have hauthorized : Authorized server b.stored presented conversationId user := hkey ▸ hlookup
              dsimp only
              rw [decide_eq_true hkey]
              exact fun _ => ⟨conversationId, subpath, user, hparse, hauthorized,
                confined_perform (fun _ => rfl) fun hevents =>
                  hinside conversationId subpath user hparse hevents hauthorized⟩
            · dsimp only
              rw [decide_eq_false hkey]
              exact fun h => absurd rfl h

/-- A single write looks its key up. -/
theorem secure_onWrite {path : Chars} (body : List UInt8) (hinside : Inside server s presented path) :
    Secure server presented path s (onWrite server s presented path body).1 := by
  unfold onWrite
  split
  next => exact fun h => absurd rfl h
  next conversationId subpath hparse =>
    split
    next => exact fun h => absurd rfl h
    next => exact fun h => absurd rfl h
    next user key hlookup =>
      by_cases hkey : key ≠ presented
      · rw [if_pos hkey]
        exact fun h => absurd rfl h
      · have hauthorized : Authorized server s presented conversationId user := not_not.mp hkey ▸ hlookup
        have hconfined {s' : Stored ρ ω} (h : Confined server.root conversationId user s s') :
            Secure server presented path s s' := fun _ => ⟨conversationId, subpath, user, hparse, hauthorized, h⟩
        rw [if_neg hkey]
        by_cases hagent : subpath = "agent_state.pkl".toList
        · rw [if_pos hagent]
          exact hconfined (confined_attempt fun s' h => confined_agentState h)
        · rw [if_neg hagent]
          split
          next => exact fun h => absurd rfl h
          next content =>
            split_ifs with hmetadata hevents
            · exact hconfined (confined_attempt fun s' h => confined_metadata h)
            · exact hconfined (confined_processEvent (hinside conversationId subpath user hparse hevents hauthorized))
            · exact fun h => absurd rfl h
            · exact fun h => absurd rfl h

/-- Every operation of a batch is secure, and so is every single write. -/
def WebhooksSecure (server : Server ρ ω) (s : Stored ρ ω) (presented : Option String) (ops : List BatchOperation)
    (writes : List (Chars × List UInt8)) : Prop :=
  Runs.EachStep (step server presented) ⟨s, none, none⟩
      (fun b op => Secure server presented op.path b.stored (step server presented b op).stored) ops ∧
    Runs.EachStep (fun s w => (onWrite server s presented w.1 w.2).1) s
      (fun s w => Secure server presented w.1 s (onWrite server s presented w.1 w.2).1) writes

def alone : Server Unit Unit where
  root := [['r']]
  canWrite _ := true
  agentLoops _ _ := [some "k"]
  mergeStats _ bytes := .ok (.bytes bytes)
  invoke _ _ := .ok ((), .active)
  workingSeconds _ _ _ := .ok ()
  outside := ⟨fun _ => "", fun _ => none, fun _ => .null, fun _ => .error .indexError, .zero, ""⟩
  now := 0

def rows : Stored Unit Unit := { metadata := [(['a'], ⟨['u'], .null, 0, .null, .null, .null, .null⟩)] }

def agentState : BatchOperation := { method := .post, path := "sessions/a/agent_state.pkl".toList, content := some "x" }

end Calls

end OpenHands.EventWebhook
