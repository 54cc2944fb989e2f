import OpenHandsSWE.AppServer.ConversationInfo
import OpenHandsSWE.AppServer.Sandboxes

/-! The webhooks that the agent servers in the sandboxes call, and the key that lets a call in. -/

namespace OpenHands.Webhooks

open SQLAppConversationInfoService

structure SandboxInfo where
  id : String
  createdByUserId : Option UserId
  status : SandboxStatus
  sessionApiKey : Option String
deriving DecidableEq

/-! ## What the sandbox services report -/

def podStatusMapping : List (String × SandboxStatus) :=
  [("ready", .running), ("pending", .starting), ("running", .starting), ("failed", .error), ("unknown", .error),
    ("crashloopbackoff", .error)]

def statusMapping : List (String × SandboxStatus) :=
  [("running", .running), ("paused", .paused), ("stopped", .missing), ("starting", .starting), ("error", .error)]

/-- `mapping.get(text.lower())` of a field that is a text. -/
def statusOf (mapping : List (String × SandboxStatus)) : Json → Except PyError (Option SandboxStatus)
  | .str text => .ok (if text = "" then none else Assoc.get? text.toLower mapping)
  | _ => .error (.attributeError "lower")

def item (fields : Dict) (name : String) : Except PyError Json :=
  match Assoc.get? name fields with
  | some v => .ok v
  | none => .error (.keyError name)

def getSandboxStatusFromRuntime (runtime : Dict) : Except PyError SandboxStatus := do
  if runtime.isEmpty then return .missing
  match ← statusOf podStatusMapping (← item runtime "pod_status") with
  | some status => return status
  | none =>
    match Assoc.get? "status" runtime with
    | none | some .null => return .missing
    | some runtimeStatus => return (← statusOf statusMapping runtimeStatus).getD .missing

/-- The runtime is none when its query has failed. -/
structure RemoteSandbox where
  createdByUserId : Option UserId
  runtime : Option Dict

def RemoteSandbox.toSandboxInfo (id : String) (stored : RemoteSandbox) : Except PyError SandboxInfo := do
  let runtime := stored.runtime.getD []
  let status ← getSandboxStatusFromRuntime runtime
  let key ← if runtime.isEmpty then .ok none else
    match ← item runtime "session_api_key" with
    | .str key => .ok (some key)
    | .null => .ok none
    | _ => .error (.valueError "session_api_key")
  return { id := id, createdByUserId := stored.createdByUserId, status := status, sessionApiKey := key }

inductive ProcessState where
  | running
  | stopped
  | other
  | gone
deriving DecidableEq, Repr

/-- The health check answers with a status code or raises. -/
structure ProcessSandbox where
  userId : Option UserId
  sessionApiKey : String
  state : ProcessState
  health : Option Nat

def getProcessStatus : ProcessState → SandboxStatus
  | .running => .running
  | .stopped => .paused
  | .other => .starting
  | .gone => .missing

def ProcessSandbox.toSandboxInfo (id : String) (process : ProcessSandbox) : SandboxInfo :=
  let status := getProcessStatus process.state
  if status = .running then
    if process.health = some 200 then
      { id := id, createdByUserId := process.userId, status := status, sessionApiKey := some process.sessionApiKey }
    else { id := id, createdByUserId := process.userId, status := .error, sessionApiKey := none }
  else { id := id, createdByUserId := process.userId, status := status, sessionApiKey := none }

def dockerStatusMapping : List (String × SandboxStatus) :=
  [("running", .running), ("paused", .paused), ("exited", .paused), ("created", .starting), ("restarting", .starting),
    ("removing", .missing), ("dead", .error)]

/-- The health check is none when no path is configured for it. -/
structure DockerContainer where
  status : String
  env : List (List Char)
  exposedUrls : List String
  health : Option Bool

/-- Each variable of the container, split at its first `=`. -/
def getContainerEnvVars (env : List (List Char)) : List (List Char × Option (List Char)) :=
  env.foldl (fun vars var =>
    if '=' ∈ var then
      Assoc.set (var.takeWhile (· ≠ '=')) (some ((var.dropWhile (· ≠ '=')).drop 1)) vars
    else Assoc.set var none vars) []

def sessionApiKeyVariable : List Char := "OH_SESSION_API_KEYS_0".toList

/-- The container's user is not known. -/
def DockerContainer.toCheckedSandboxInfo (id : String) (container : DockerContainer) : Except PyError SandboxInfo :=
  let status := (Assoc.get? container.status.toLower dockerStatusMapping).getD .error
  if status = .running then
    let key := ((Assoc.get? sessionApiKeyVariable (getContainerEnvVars container.env)).getD none).map String.ofList
    let info : SandboxInfo := { id := id, createdByUserId := none, status := status, sessionApiKey := key }
    match container.health with
    | none => .ok info
    | some healthy =>
      if container.exposedUrls = [] then .ok info
      else if "AGENT_SERVER" ∉ container.exposedUrls then .error (.valueError "coroutine raised StopIteration")
      else if healthy then .ok info
      else .ok { info with status := .error, sessionApiKey := none }
  else .ok { id := id, createdByUserId := none, status := status, sessionApiKey := none }

inductive Sandbox where
  | remote (stored : RemoteSandbox)
  | process (info : ProcessSandbox)
  | docker (container : DockerContainer)

def getSandbox (sandboxes : List (String × Sandbox)) (id : String) : Except PyError (Option SandboxInfo) :=
  match Assoc.get? id sandboxes with
  | none => .ok none
  | some (.remote stored) => (stored.toSandboxInfo id).map some
  | some (.process info) => .ok (some (info.toSandboxInfo id))
  | some (.docker container) => (container.toCheckedSandboxInfo id).map some

/-! ## The webhooks -/

inductive HttpError where
  | unauthorized
  | authError
  | internal (err : PyError)
deriving DecidableEq, Repr

/-- A missing header and an empty one are the same. -/
def apiKeyHeader (header : Option String) : Option String := header.filter (· ≠ "")

def validSandbox (sandboxes : List (String × Sandbox)) (sandboxId : String) (header : Option String) :
    Except HttpError SandboxInfo :=
  match getSandbox sandboxes sandboxId with
  | .error err => .error (.internal err)
  | .ok none => .error .unauthorized
  | .ok (some info) => if info.sessionApiKey ≠ apiKeyHeader header then .error .unauthorized else .ok info

/-- The conversation as it is, or a stub of one that does not exist; the service is the admin's. -/
def validConversation (id : Uuid) (sandbox : SandboxInfo) (now : Timestamp) (rows : Rows) :
    Except HttpError AppConversationInfo :=
  match getInfo none id rows with
  | .error err => .error (.internal err)
  | .ok none =>
    .ok { id := id, sandboxId := sandbox.id, createdByUserId := sandbox.createdByUserId, createdAt := now, updatedAt := now }
  | .ok (some info) => if info.createdByUserId ≠ sandbox.createdByUserId then .error .authError else .ok info

def hex (id : Uuid) : String :=
  let digits := Nat.toDigits 16 id
  String.ofList (List.replicate (32 - digits.length) '0' ++ digits)

variable {ε : Type}

/-- The table of the conversations, and the events saved. -/
structure State (ε : Type) where
  rows : Rows
  events : List (Uuid × ε)

inductive Request (ε : Type) where
  | conversationUpdate (id : Uuid) (llmModel : String)
  | events (conversationId : Uuid) (events : List ε)

/-- A call finds the sandboxes in some state. -/
structure Call (ε : Type) where
  sandboxes : List (String × Sandbox)
  sandboxId : String
  header : Option String
  request : Request ε
  now : Timestamp

def onConversationUpdate (column : TimeColumn) (s : State ε) (id : Uuid) (llmModel : String) (sandbox : SandboxInfo)
    (now : Timestamp) : Except HttpError (State ε) :=
  (validConversation id sandbox now s.rows).bind fun existing =>
    match save column none
      { id := id
        title := some (if existing.title.getD "" = "" then "Conversation " ++ hex id else existing.title.getD "")
        sandboxId := sandbox.id
        createdByUserId := sandbox.createdByUserId
        llmModel := some llmModel
        selectedRepository := existing.selectedRepository
        selectedBranch := existing.selectedBranch
        gitProvider := existing.gitProvider
        trigger := existing.trigger
        prNumber := existing.prNumber
        createdAt := now
        updatedAt := now } s.rows with
    | (.ok _, rows) => .ok { s with rows := rows }
    | (.error err, _) => .error (.internal err)

/-- An event is saved for a conversation that exists. -/
def saveEvent (s : State ε) (conversationId : Uuid) (event : ε) : Except PyError (State ε) :=
  match getInfo none conversationId s.rows with
  | .error err => .error err
  | .ok none => .error (.valueError "No such conversation: {conversaiont_id}")
  | .ok (some _) => .ok { s with events := s.events ++ [(conversationId, event)] }

/-- What is saved stays saved when saving another event raises. -/
def onEvent (s : State ε) (conversationId : Uuid) (events : List ε) (sandbox : SandboxInfo) (now : Timestamp) :
    Except HttpError (State ε) :=
  (validConversation conversationId sandbox now s.rows).map fun _ =>
    events.foldl (fun s event => (saveEvent s conversationId event).toOption.getD s) s

def handle (column : TimeColumn) (s : State ε) (call : Call ε) : Except HttpError (State ε) :=
  (validSandbox call.sandboxes call.sandboxId call.header).bind fun sandbox =>
    match call.request with
    | .conversationUpdate id llmModel => onConversationUpdate column s id llmModel sandbox call.now
    | .events conversationId events => onEvent s conversationId events sandbox call.now

/-- A call that raises has changed nothing. -/
def step (column : TimeColumn) (s : State ε) (call : Call ε) : State ε := (handle column s call).toOption.getD s

/-! ## Who can change what -/

/-- The call presents the key of the sandbox. -/
def Presents (call : Call ε) (info : SandboxInfo) : Prop :=
  getSandbox call.sandboxes call.sandboxId = .ok (some info) ∧
    ∃ key, info.sessionApiKey = some key ∧ apiKeyHeader call.header = some key

/-- The record or the events of a conversation change. -/
def Changes (s s' : State ε) (id : Uuid) : Prop :=
  Assoc.get? id s'.rows ≠ Assoc.get? id s.rows ∨ ¬ ∃ saved, s'.events = s.events ++ saved ∧ ∀ e ∈ saved, e.1 ≠ id

structure Authenticated (column : TimeColumn) (s : State ε) (call : Call ε) : Prop where
  accepts_iff : (∃ info, validSandbox call.sandboxes call.sandboxId call.header = .ok info) ↔ ∃ info, Presents call info
  rejected : (¬ ∃ info, Presents call info) → step column s call = s
  own : ∀ info, Presents call info → ∀ id, Changes s (step column s call) id →
    ∀ stored, Assoc.get? id s.rows = some stored →
      stored.userId = SQLAppConversationInfoService.userText info.createdByUserId

/-- No call without a key comes to a sandbox that reports none, and no sandbox reports a conversation whose id
the old server has given to another user's. -/
structure Guarded (s : State ε) (call : Call ε) : Prop where
  keyed : apiKeyHeader call.header = none → ∀ info, getSandbox call.sandboxes call.sandboxId = .ok (some info) →
    info.sessionApiKey ≠ none
  fresh : ∀ info, Presents call info → ∀ id llmModel, call.request = .conversationUpdate id llmModel →
    ∀ stored, Assoc.get? id s.rows = some stored → stored.conversationVersion ≠ "V1" →
      stored.userId = SQLAppConversationInfoService.userText info.createdByUserId

section Calls

variable {column : TimeColumn} {s : State ε} {call : Call ε} {sandbox info : SandboxInfo} {id : Uuid} {rows : Rows}
  {stored : StoredConversationMetadata}

theorem validSandbox_iff {sandboxes : List (String × Sandbox)} {sandboxId : String} {header : Option String} :
    validSandbox sandboxes sandboxId header = .ok info ↔
      getSandbox sandboxes sandboxId = .ok (some info) ∧ info.sessionApiKey = apiKeyHeader header := by
  unfold validSandbox
  split
  next err herr => exact iff_of_false nofun fun h => nomatch herr.symm.trans h.1
  next hnone => exact iff_of_false nofun fun h => nomatch hnone.symm.trans h.1
  next found hfound =>
    rw [hfound, Except.ok.injEq, Option.some.injEq]
    split_ifs with hne
    · exact iff_of_false nofun fun h => hne (h.1 ▸ h.2)
    · rw [Except.ok.injEq]
      exact ⟨fun h => ⟨h, h ▸ not_not.mp hne⟩, fun h => h.1⟩

theorem Presents.accepted (h : Presents call info) :
    validSandbox call.sandboxes call.sandboxId call.header = .ok info := by
  obtain ⟨hsandbox, key, hkey, hheader⟩ := h
  exact validSandbox_iff.mpr ⟨hsandbox, hkey.trans hheader.symm⟩

/-- Without a key only a sandbox that reports none lets a call in. -/
theorem accepts_iff_presents : ((∃ info, validSandbox call.sandboxes call.sandboxId call.header = .ok info) ↔
    ∃ info, Presents call info) ↔ (apiKeyHeader call.header = none →
      ∀ info, getSandbox call.sandboxes call.sandboxId = .ok (some info) → info.sessionApiKey ≠ none) := by
  constructor
  · intro h hheader info hsandbox hkey
    have haccepted := validSandbox_iff.mpr ⟨hsandbox, hkey.trans hheader.symm⟩
    obtain ⟨other, -, key, -, hpresented⟩ := h.mp ⟨info, haccepted⟩
    cases hheader.symm.trans hpresented
  · intro h
    refine ⟨fun ⟨info, haccepted⟩ => ?_, fun ⟨info, hpresents⟩ => ⟨info, hpresents.accepted⟩⟩
    obtain ⟨hsandbox, hkey⟩ := validSandbox_iff.mp haccepted
    cases hheader : apiKeyHeader call.header with
    | none => exact absurd (hkey.trans hheader) (h hheader info hsandbox)
    | some key => exact ⟨info, hsandbox, key, hkey.trans hheader, hheader⟩

theorem step_rejected (h : ¬ ∃ info, validSandbox call.sandboxes call.sandboxId call.header = .ok info) :
    step column s call = s := by
  unfold step handle
  cases hvalid : validSandbox call.sandboxes call.sandboxId call.header with
  | error err => rfl
  | ok info => exact absurd ⟨info, hvalid⟩ h

theorem userText_readUser (text : String) : SQLAppConversationInfoService.userText (readUser text) = text := by
  by_cases h : text = ""
  · rw [readUser, dif_pos h, h]
    rfl
  · rw [readUser, dif_neg h]
    rfl

theorem toInfo_owner {existing : AppConversationInfo} (h : toInfo id stored = .ok existing) :
    stored.userId = SQLAppConversationInfoService.userText existing.createdByUserId := by
  cases hsandbox : stored.sandboxId with
  | none =>
    rw [toInfo, hsandbox] at h
    cases h
  | some sandboxId =>
    rw [toInfo, hsandbox] at h
    obtain ⟨provider, -, h⟩ := Py.bind_ok h
    obtain ⟨trigger, -, h⟩ := Py.bind_ok h
    rw [← Except.ok.inj h]
    exact (userText_readUser stored.userId).symm

theorem getInfo_admin (hrow : Assoc.get? id rows = some stored) : getInfo none id rows =
    if stored.conversationVersion = "V1" then (toInfo id stored).map some else .ok none := by
  have hvisible : visible none stored = decide (stored.conversationVersion = "V1") := Bool.and_true _
  rw [getInfo, hrow, Option.filter_some, hvisible]
  by_cases h : stored.conversationVersion = "V1"
  · rw [if_pos h, decide_eq_true h]
    rfl
  · rw [if_neg h, decide_eq_false h]
    rfl

/-- Among the conversations of the new server a sandbox reaches those of its own user. -/
theorem validConversation_owner {existing : AppConversationInfo} {now : Timestamp}
    (h : validConversation id sandbox now rows = .ok existing) (hrow : Assoc.get? id rows = some stored)
    (hversion : stored.conversationVersion = "V1") :
    stored.userId = SQLAppConversationInfoService.userText sandbox.createdByUserId := by
  rw [validConversation, getInfo_admin hrow, if_pos hversion] at h
  cases hinfo : toInfo id stored with
  | error err =>
    rw [hinfo] at h
    cases h
  | ok found =>
    rw [hinfo] at h
    dsimp only [Except.map] at h
    split_ifs at h with hother
    rw [toInfo_owner hinfo, not_not.mp hother]

theorem validConversation_old {now : Timestamp} (hrow : Assoc.get? id rows = some stored)
    (hversion : stored.conversationVersion ≠ "V1") : ∃ stub, validConversation id sandbox now rows = .ok stub := by
  rw [validConversation, getInfo_admin hrow, if_neg hversion]
  exact ⟨_, rfl⟩

/-- An update writes the row of its conversation, which is one of the new server then. -/
theorem onConversationUpdate_eq {llmModel : String} {now : Timestamp} {existing : AppConversationInfo}
    (h : validConversation id sandbox now s.rows = .ok existing) : ∃ new : StoredConversationMetadata,
      new.conversationVersion = "V1" ∧ onConversationUpdate column s id llmModel sandbox now =
        .ok { s with rows := Assoc.set id new s.rows } := by
  rw [onConversationUpdate, h]
  exact ⟨toRow column _, rfl, rfl⟩

/-- The events of a call are saved when their conversation is one of the new server. -/
theorem foldl_saveEvent (s : State ε) (id : Uuid) (events : List ε) :
    events.foldl (fun s event => (saveEvent s id event).toOption.getD s) s = s ∨
      (∃ existing, getInfo none id s.rows = .ok (some existing)) ∧
        events.foldl (fun s event => (saveEvent s id event).toOption.getD s) s =
          { s with events := s.events ++ events.map fun event => (id, event) } := by
  by_cases hfound : ∃ existing, getInfo none id s.rows = .ok (some existing)
  · refine .inr ⟨hfound, ?_⟩
    obtain ⟨existing, hinfo⟩ := hfound
    induction events generalizing s with
    | nil => simp
    | cons event events ih =>
      have hsave : saveEvent s id event = .ok { s with events := s.events ++ [(id, event)] } := by rw [saveEvent, hinfo]
      rw [List.foldl_cons, hsave, Except.toOption, Option.getD_some,
        ih { s with events := s.events ++ [(id, event)] } hinfo, List.map_cons]
      simp
  · refine .inl ?_
    have hsave (event : ε) : (saveEvent s id event).toOption.getD s = s := by
      unfold saveEvent
      split
      next => rfl
      next => rfl
      next info hinfo => exact absurd ⟨info, hinfo⟩ hfound
    induction events with
    | nil => rfl
    | cons event events ih => rw [List.foldl_cons, hsave, ih]

theorem not_changes_self : ¬ Changes s s id := by
  rintro (h | h)
  · exact h rfl
  · exact h ⟨[], (List.append_nil _).symm, fun e he => absurd he List.not_mem_nil⟩

theorem handle_accepted (h : Presents call info) : handle column s call = match call.request with
    | .conversationUpdate id llmModel => onConversationUpdate column s id llmModel info call.now
    | .events conversationId events => onEvent s conversationId events info call.now := by
  rw [handle, h.accepted]
  rfl

/-- A call that is let in changes conversations of the sandbox's user, new ones, or such of the old server that
an update names. -/
theorem changed_owner (h : Presents call info) (hchanges : Changes s (step column s call) id)
    (hrow : Assoc.get? id s.rows = some stored) :
    stored.userId = SQLAppConversationInfoService.userText info.createdByUserId ∨
      stored.conversationVersion ≠ "V1" ∧ ∃ llmModel, call.request = .conversationUpdate id llmModel := by
  have hhandle := @handle_accepted ε column s call info h
  unfold step at hchanges
  rw [hhandle] at hchanges
  cases hrequest : call.request with
  | conversationUpdate other llmModel =>
    rw [hrequest] at hchanges
    dsimp only at hchanges
    cases hvalid : validConversation other info call.now s.rows with
    | error err =>
      rw [onConversationUpdate, hvalid] at hchanges
      exact absurd hchanges not_changes_self
    | ok existing =>
      obtain ⟨new, -, hupdate⟩ := @onConversationUpdate_eq ε column s info other llmModel call.now existing hvalid
      rw [hupdate] at hchanges
      by_cases hid : id = other
      · subst hid
        by_cases hversion : stored.conversationVersion = "V1"
        · exact .inl (validConversation_owner hvalid hrow hversion)
        · exact .inr ⟨hversion, llmModel, rfl⟩
      · refine absurd hchanges (not_or.mpr ⟨?_, ?_⟩)
        · exact not_not.mpr (Assoc.get?_set_of_ne hid _ _)
        · exact not_not.mpr ⟨[], (List.append_nil _).symm, fun e he => absurd he List.not_mem_nil⟩
  | events other events =>
    rw [hrequest] at hchanges
    dsimp only at hchanges
    cases hvalid : validConversation other info call.now s.rows with
    | error err =>
      rw [onEvent, hvalid] at hchanges
      exact absurd hchanges not_changes_self
    | ok existing =>
      rw [onEvent, hvalid] at hchanges
      change Changes s (events.foldl (fun s event => (saveEvent s other event).toOption.getD s) s) id at hchanges
      rcases foldl_saveEvent s other events with hsame | ⟨⟨found, hfound⟩, hsaved⟩
      · rw [hsame] at hchanges
        exact absurd hchanges not_changes_self
      · rw [hsaved] at hchanges
        by_cases hid : id = other
        · subst hid
          rw [getInfo_admin hrow] at hfound
          by_cases hversion : stored.conversationVersion = "V1"
          · exact .inl (validConversation_owner hvalid hrow hversion)
          · rw [if_neg hversion] at hfound
            cases hfound
        · refine absurd hchanges (not_or.mpr ⟨not_not.mpr rfl, not_not.mpr ⟨_, rfl, fun e he => ?_⟩⟩)
          obtain ⟨event, -, rfl⟩ := List.mem_map.mp he
          exact fun heq => hid heq.symm

theorem update_changes_old (h : Presents call info) {llmModel : String}
    (hrequest : call.request = .conversationUpdate id llmModel) (hrow : Assoc.get? id s.rows = some stored)
    (hversion : stored.conversationVersion ≠ "V1") : Changes s (step column s call) id := by
  obtain ⟨stub, hstub⟩ := @validConversation_old info id s.rows stored call.now hrow hversion
  obtain ⟨new, hnew, hupdate⟩ := @onConversationUpdate_eq ε column s info id llmModel call.now stub hstub
  have hhandle := @handle_accepted ε column s call info h
  rw [hrequest] at hhandle
  have hstep : step column s call = { s with rows := Assoc.set id new s.rows } := by
    rw [step, hhandle]
    exact congrArg (fun result => (Except.toOption result).getD s) hupdate
  refine .inl fun hsame => ?_
  rw [hstep, hrow] at hsame
  have hold := Option.some.inj ((Assoc.get?_set_self id new s.rows).symm.trans hsame)
  exact hversion (hold ▸ hnew)

/-- Whatever the table holds, a call is authenticated exactly when it is guarded. -/
theorem authenticated_iff (column : TimeColumn) (s : State ε) (call : Call ε) :
    Authenticated column s call ↔ Guarded s call := by
  constructor
  · intro h
    refine ⟨accepts_iff_presents.mp h.accepts_iff, fun info hpresents id llmModel hrequest stored hrow hversion => ?_⟩
    exact h.own info hpresents id (update_changes_old hpresents hrequest hrow hversion) stored hrow
  · intro h
    have haccepts := accepts_iff_presents.mpr h.keyed
    refine ⟨haccepts, fun hnot => step_rejected fun haccepted => hnot (haccepts.mp haccepted), ?_⟩
    intro info hpresents id hchanges stored hrow
    rcases changed_owner hpresents hchanges hrow with hown | ⟨hversion, llmModel, hrequest⟩
    · exact hown
    · exact h.fresh info hpresents id llmModel hrequest stored hrow hversion

/-- The same for all calls of a run, from any table. -/
theorem authenticated_run_iff (column : TimeColumn) (s : State ε) (calls : List (Call ε)) :
    Runs.EachStep (step column) s (Authenticated column) calls ↔ Runs.EachStep (step column) s Guarded calls :=
  Runs.eachStep_iff (I := fun _ => True) trivial (fun _ _ _ _ => trivial)
    (fun s call _ => authenticated_iff column s call) calls

/-- Bob's sandbox, whose process is stopped. -/
def stoppedSandbox : Sandbox := .process ⟨some ⟨"bob", by decide⟩, "secret", .stopped, none⟩

def withoutKey : Call Nat where
  sandboxes := [("sandbox", stoppedSandbox)]
  sandboxId := "sandbox"
  header := none
  request := .conversationUpdate 1 "model"
  now := ⟨0, some 0⟩

theorem withoutKey_accepted : ¬ ∀ column s (calls : List (Call Nat)),
    Runs.EachStep (step column) s (Authenticated column) calls := by
  intro h
  obtain ⟨haccepts, -, -⟩ := h sqlite ⟨[], []⟩ [withoutKey] [] withoutKey List.prefix_rfl
  obtain ⟨info, -, key, -, hheader⟩ := haccepts.mp ⟨_, rfl⟩
  cases hheader

end Calls

end OpenHands.Webhooks
