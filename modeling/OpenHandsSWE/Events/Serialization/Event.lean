import OpenHandsSWE.Events.Serialization.Observation

/-! Events as dictionaries, in both directions. -/

namespace OpenHands

variable (out : Outside)

namespace ToolCallMetadata

def modelDump (m : ToolCallMetadata) : Json :=
  .obj [("function_name", .str m.functionName), ("tool_call_id", .str m.toolCallId),
    ("model_response", out.dumpResponse m.modelResponse),
    ("total_calls_in_response", .int m.totalCallsInResponse)]

def ofDict (fields : Dict) : Except PyError ToolCallMetadata := do
  return { functionName := ← Fields.required fields "function_name" Json.str?
           toolCallId := ← Fields.required fields "tool_call_id" Json.str?
           modelResponse := ← out.readResponse (← Fields.required fields "model_response" some)
           totalCallsInResponse := ← Fields.required fields "total_calls_in_response" Json.int? }

end ToolCallMetadata

/-- A key with its value, when there is one. -/
def entry {α : Type} (name : String) (write : α → Json) (v : Option α) : Dict :=
  v.toList.map fun a => (name, write a)

namespace Event

/-- The properties every event has, under the keys that come first. -/
def topFields (e : Event) (message : String) : Dict :=
  (if e.id = INVALID_ID then [] else [("id", .int e.id)]) ++ entry "timestamp" .str e.timestamp ++
    entry "source" (fun s : EventSource => .str s.value) e.source ++ [("message", .str message)] ++
    entry "cause" .int e.cause

/-- The keys that come after the type of the event. -/
def metadataFields (e : Event) : Dict :=
  entry "tool_call_metadata" (ToolCallMetadata.modelDump out) e.toolCallMetadata ++
    entry "llm_metrics" Metrics.get e.llmMetrics

def toDict (e : Event) : Except PyError Dict :=
  match e.body with
  | .action a =>
    (a.messageText out).map fun message =>
      e.topFields message ++ [("action", .str a.cls.type)] ++ e.metadataFields out ++
        [("args", .obj a.args)] ++ entry "timeout" .float e.timeout
  | .observation o =>
    .ok (e.topFields o.messageText ++ [("observation", .str o.cls.type)] ++ e.metadataFields out ++
      [("content", .str o.content), ("extras", .obj o.extras)] ++
      entry "success" .bool o.success?)
  | .plain => .error (.valueError "Event must be either action or observation. has: Event()")

end Event

def eventToDict (e : Event) : Except PyError Dict := e.toDict out

/-! ## Reading an event -/

def eventSource? (v : Json) : Option EventSource :=
  [.agent, .user, .environment].find? fun s => v = .str (EventSource.value s)

def readSource (v : Json) : Except PyError EventSource :=
  match eventSource? v with
  | some s => .ok s
  | none => .error (.valueError (out.repr v ++ " is not a valid EventSource"))

/-- The dictionary a value must be to be passed as keyword arguments. -/
def keywords (v : Json) : Except PyError Dict :=
  match v with
  | .obj fields => .ok fields
  | _ => .error (.typeError "argument after ** must be a mapping")

/-- What the key is set to, when the dictionary has it. -/
def readKey {α : Type} (data : Dict) (name : String) (read : Json → Except PyError α) :
    Except PyError (Option α) :=
  (Assoc.get? name data).mapM read

def readId (data : Dict) : Except PyError Int := Fields.optional data "id" Json.int? INVALID_ID

/-- The attributes of the event besides its own fields. -/
def setUnderscoreKeys (data : Dict) (e : Event) : Except PyError Event := do
  return { e with
    id := ← readId data
    timestamp :=
      match Assoc.get? "timestamp" data with
      | none => e.timestamp
      | some v => v.str?
    source := ← readKey data "source" (readSource out)
    cause := ← Fields.optional data "cause" (Json.opt? Json.int?) none
    toolCallMetadata := ← readKey data "tool_call_metadata" fun v => do
      ToolCallMetadata.ofDict out (← keywords v)
    llmMetrics := ← readKey data "llm_metrics" fun v =>
      match v with
      | .obj fields => Metrics.ofDict out.now fields
      | _ => .ok {} }

def eventFromDict (data : Dict) : Except PyError Event :=
  if Assoc.contains "action" data then
    (actionFromDict out data).bind fun r =>
      setUnderscoreKeys out data
        { body := .action r.action, timestamp := r.timestamp, timeout := r.timeout }
  else if Assoc.contains "observation" data then
    (observationFromDict out data).bind fun o =>
      setUnderscoreKeys out data { body := .observation o }
  else .error (.valueError ("Unknown event type: " ++ out.repr (.obj data)))

/-! ## Well-formed dictionaries -/

/-- A dictionary has each key once. -/
def DictWellFormed (d : Dict) : Prop := (Json.obj d).WellFormed

/-- The dictionaries that an event holds are well formed. -/
structure Event.WellFormed (e : Event) : Prop where
  args : ∀ a, e.body = .action a → DictWellFormed a.args
  extras : ∀ o, e.body = .observation o → DictWellFormed o.extras
  response : ∀ m, e.toolCallMetadata = some m → (out.dumpResponse m.modelResponse).WellFormed

section WellFormed

theorem ofList_wellFormed {α : Type} (write : α → Json) (h : ∀ a, (write a).WellFormed)
    (xs : List α) : (Json.ofList write xs).WellFormed := by
  rw [Json.ofList, Json.WellFormed, Json.wellFormedItems_iff]
  intro v hv
  obtain ⟨a, -, rfl⟩ := List.mem_map.mp hv
  exact h a

theorem Metrics.get_wellFormed (m : Metrics) : m.get.WellFormed := by
  have hcosts := ofList_wellFormed Cost.modelDump
    (fun c => by simp [Cost.modelDump, Json.WellFormed, Json.WellFormedMembers]) m.costs
  have hlatencies := ofList_wellFormed ResponseLatency.modelDump
    (fun l => by simp [ResponseLatency.modelDump, Json.WellFormed, Json.WellFormedMembers])
    m.responseLatencies
  have husage (u : TokenUsage) : u.modelDump.WellFormed := by
    simp [TokenUsage.modelDump, Json.WellFormed, Json.WellFormedMembers]
  have husages := ofList_wellFormed _ husage m.tokenUsages
  have hbudget : (Json.ofOpt Json.float m.maxBudgetPerTask).WellFormed := by
    cases m.maxBudgetPerTask <;> simp [Json.ofOpt, Json.WellFormed]
  simp [Metrics.get, Json.WellFormed, Json.WellFormedMembers, hcosts, hlatencies, husages, hbudget,
    husage]

/-- A part of a dictionary whose keys are among the given ones, in their order. -/
structure Part (names : List String) (d : Dict) : Prop where
  keys : (d.map Prod.fst).Sublist names
  values : ∀ kv ∈ d, kv.2.WellFormed

theorem Part.append {names names' : List String} {d d' : Dict} (h : Part names d)
    (h' : Part names' d') : Part (names ++ names') (d ++ d') where
  keys := by rw [List.map_append]; exact h.keys.append h'.keys
  values := by
    intro kv hkv
    exact (List.mem_append.mp hkv).elim (h.values kv) (h'.values kv)

theorem Part.single (name : String) {v : Json} (h : v.WellFormed) : Part [name] [(name, v)] where
  keys := List.Sublist.refl _
  values := by simpa using h

theorem Part.entry {α : Type} (name : String) {write : α → Json} {v : Option α}
    (h : ∀ a, v = some a → (write a).WellFormed) : Part [name] (entry name write v) := by
  cases v with
  | none => exact ⟨List.nil_sublist _, by simp [OpenHands.entry]⟩
  | some a => exact .single name (h a rfl)

theorem Part.wellFormed {names : List String} {d : Dict} (h : Part names d)
    (hnames : names.Nodup) : DictWellFormed d :=
  ⟨hnames.sublist h.keys, (Json.wellFormedMembers_iff d).mpr h.values⟩

variable {out} {e : Event}

theorem Event.topFields_part (e : Event) (message : String) :
    Part ["id", "timestamp", "source", "message", "cause"] (e.topFields message) := by
  have hid : Part ["id"] (if e.id = INVALID_ID then [] else [("id", .int e.id)]) := by
    split_ifs
    · exact ⟨List.nil_sublist _, by simp⟩
    · exact .single _ (by simp [Json.WellFormed])
  have htimestamp : Part ["timestamp"] (entry "timestamp" .str e.timestamp) :=
    .entry _ fun _ _ => by simp [Json.WellFormed]
  have hsource : Part ["source"] (entry "source" (fun s : EventSource => .str s.value) e.source) :=
    .entry _ fun _ _ => by simp [Json.WellFormed]
  have hmessage : Part ["message"] [("message", .str message)] :=
    .single _ (by simp [Json.WellFormed])
  have hcause : Part ["cause"] (entry "cause" .int e.cause) :=
    .entry _ fun _ _ => by simp [Json.WellFormed]
  exact (((hid.append htimestamp).append hsource).append hmessage).append hcause

theorem Event.metadataFields_part (h : e.WellFormed out) :
    Part ["tool_call_metadata", "llm_metrics"] (e.metadataFields out) := by
  have hmetadata : Part ["tool_call_metadata"]
      (entry "tool_call_metadata" (ToolCallMetadata.modelDump out) e.toolCallMetadata) := by
    refine .entry _ fun m hm => ?_
    simp [ToolCallMetadata.modelDump, Json.WellFormed, Json.WellFormedMembers, h.response m hm]
  have hmetrics : Part ["llm_metrics"] (entry "llm_metrics" Metrics.get e.llmMetrics) :=
    .entry _ fun m _ => m.get_wellFormed
  exact hmetadata.append hmetrics

theorem eventToDict_wellFormed (h : e.WellFormed out) {data : Dict}
    (hdata : eventToDict out e = .ok data) : DictWellFormed data := by
  unfold eventToDict Event.toDict at hdata
  split at hdata
  next a ha =>
    obtain ⟨message, -, rfl⟩ := Py.map_ok hdata
    have htype : Part ["action"] [("action", .str a.cls.type)] := .single _ (by simp [Json.WellFormed])
    have hargs : Part ["args"] [("args", .obj a.args)] := .single _ (h.args a ha)
    have htimeout : Part ["timeout"] (entry "timeout" .float e.timeout) :=
      .entry _ fun _ _ => by simp [Json.WellFormed]
    have hpart := (((e.topFields_part message).append htype).append
      (Event.metadataFields_part h)).append (hargs.append htimeout)
    rw [List.append_assoc _ [("args", Json.obj a.args)]]
    exact hpart.wellFormed (by decide)
  next o ho =>
    cases hdata
    have htype : Part ["observation"] [("observation", .str o.cls.type)] :=
      .single _ (by simp [Json.WellFormed])
    have hcontent : Part ["content"] [("content", .str o.content)] :=
      .single _ (by simp [Json.WellFormed])
    have hextras : Part ["extras"] [("extras", .obj o.extras)] := .single _ (h.extras o ho)
    have hsuccess : Part ["success"] (entry "success" .bool o.success?) :=
      .entry _ fun _ _ => by simp [Json.WellFormed]
    have hpart := (((e.topFields_part o.messageText).append htype).append
      (Event.metadataFields_part h)).append ((hcontent.append hextras).append hsuccess)
    rw [List.append_assoc _ [("content", Json.str o.content), ("extras", Json.obj o.extras)]]
    exact hpart.wellFormed (by decide)
  · cases hdata

end WellFormed

/-! ## Ids -/

section Ids

variable {out} {data : Dict} {e e' : Event}

theorem setUnderscoreKeys_id (h : setUnderscoreKeys out data e = .ok e') :
    readId data = .ok e'.id := by
  obtain ⟨id, hid, h⟩ := Py.bind_ok h
  obtain ⟨source, -, h⟩ := Py.bind_ok h
  obtain ⟨cause, -, h⟩ := Py.bind_ok h
  obtain ⟨metadata, -, h⟩ := Py.bind_ok h
  obtain ⟨metrics, -, h⟩ := Py.bind_ok h
  cases h
  exact hid

theorem eventFromDict_id (h : eventFromDict out data = .ok e) : readId data = .ok e.id := by
  unfold eventFromDict at h
  split_ifs at h
  · obtain ⟨r, -, h⟩ := Py.bind_ok h
    exact setUnderscoreKeys_id h
  · obtain ⟨o, -, h⟩ := Py.bind_ok h
    exact setUnderscoreKeys_id h

theorem topFields_id {message : String} {rest : Dict} (h : e.id ≠ INVALID_ID) :
    Assoc.get? "id" (e.topFields message ++ rest) = some (.int e.id) := by
  simp [Event.topFields, h, Assoc.get?]

/-- The dictionary of an event in the stream has its id. -/
theorem eventToDict_id (h : eventToDict out e = .ok data) (hid : e.id ≠ INVALID_ID) :
    Assoc.get? "id" data = some (.int e.id) := by
  unfold eventToDict Event.toDict at h
  split at h
  · obtain ⟨message, -, rfl⟩ := Py.map_ok h
    simp only [List.append_assoc]
    exact topFields_id hid
  · cases h
    simp only [List.append_assoc]
    exact topFields_id hid
  · cases h

end Ids

end OpenHands
