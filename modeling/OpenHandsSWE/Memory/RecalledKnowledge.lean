import OpenHandsSWE.Memory.PromptBlocks

/-! Which message shows the knowledge of which microagent: the loop over the events once more, with a
note on each message of what it shows. -/

namespace OpenHands

namespace ConversationMemory

/-- The microagents that are rendered for the event at an index. -/
structure Shown where
  index : Nat
  agents : List MicroagentKnowledge

structure Built where
  message : Message
  shown : Option Shown := none

structure BuiltResult where
  result : ToolResult
  shown : Option Shown

structure BuiltState where
  pending : List (String × ModelResponse) := []
  results : List (String × BuiltResult) := []
  messages : List Built := []

def plainResults (results : List (String × BuiltResult)) : List (String × ToolResult) :=
  results.map fun kv => (kv.1, kv.2.result)

def plainMessages (built : List Built) : List Message := built.map Built.message

def BuiltState.plain (st : BuiltState) : LoopState where
  pending := st.pending
  results := plainResults st.results
  messages := plainMessages st.messages

section Building

variable (config : AgentConfig) (renderer : Renderer) (maxMessageChars : Option Int) (visionIsActive : Bool)

/-- The `triggered_agents` of a recall. -/
def triggeredAgents (o : RecallObservation) (earlier : List Event) : List MicroagentKnowledge :=
  match o.recallType with
  | .workspaceContext => enabledMicroagents config o.microagentKnowledge
  | .knowledge => enabledMicroagents config (filterAgentsInMicroagentObs o earlier)

/-- What the observation behind the earlier events shows. -/
def shownBy (earlier : List Event) : Observation → Option Shown
  | .recallObservation o =>
    if config.enablePromptExtensions then
      match triggeredAgents config o earlier with
      | [] => none
      | agents => some ⟨earlier.length, agents⟩
    else none
  | _ => none

def buildOne (earlier : List Event) (st : BuiltState) (e : Event) : Except PyError (List Built × BuiltState) :=
  match e.body with
  | .action a =>
    (processAction renderer visionIsActive e a st.pending).map fun p =>
      (p.1.map fun m => { message := m }, { st with pending := p.2 })
  | .observation o =>
    match renderObservation config renderer o e.toolCallMetadata maxMessageChars visionIsActive earlier with
    | .error err => .error err
    | .ok (.done messages) => .ok (messages.map fun m => ⟨m, shownBy config earlier o⟩, st)
    | .ok (.content content) =>
      match e.toolCallMetadata with
      | none => .ok ([⟨⟨.user, content, none, none, none⟩, shownBy config earlier o⟩], st)
      | some md =>
        .ok ([], { st with results := Assoc.set md.toolCallId ⟨⟨md, content⟩, shownBy config earlier o⟩ st.results })
  | .plain => .error (.valueError "Unknown event type")

def buildResults : List ToolCall → List (String × BuiltResult) →
    Except PyError (List Built × List (String × BuiltResult))
  | [], results => .ok ([], results)
  | tc :: calls, results =>
    match tc.id.bind fun id => (Assoc.get? id results).map fun r => (id, r) with
    | none => .error (.keyError (tc.id.getD "None"))
    | some (id, r) =>
      (buildResults calls (Assoc.erase id results)).map fun p => (⟨r.result.message, r.shown⟩ :: p.1, p.2)

def buildRequests : List (String × ModelResponse) → List (String × BuiltResult) →
    Except PyError (List Built × List (String × BuiltResult) × List (String × ModelResponse))
  | [], results => .ok ([], results, [])
  | (responseId, r) :: pending, results =>
    match r.message.toolCalls with
    | none => .error (.assertionError "Tool calls should NOT be None when function calling is enabled & the message is considered pending tool call. ")
    | some calls =>
      if calls.all (hasResult (plainResults results)) then
        (buildResults calls results).bind fun p =>
          (buildRequests pending p.2).map fun q => ({ message := assistantMessage r } :: (p.1 ++ q.1), q.2.1, q.2.2)
      else (buildRequests pending results).map fun q => (q.1, q.2.1, (responseId, r) :: q.2.2)

def buildEvent (earlier : List Event) (st : BuiltState) (e : Event) : Except PyError BuiltState :=
  (buildOne config renderer maxMessageChars visionIsActive earlier st e).bind fun p =>
    (buildRequests p.2.pending p.2.results).map fun q =>
      { pending := q.2.2, results := q.2.1, messages := st.messages ++ (p.1 ++ q.1) }

def buildEvents : List Event → List Event → BuiltState → Except PyError BuiltState
  | _, [], st => .ok st
  | earlier, e :: events, st =>
    (buildEvent config renderer maxMessageChars visionIsActive earlier st e).bind fun st' =>
      buildEvents (earlier ++ [e]) events st'

def formatBuilt : Option Role → List Built → List Built
  | _, [] => []
  | prevRole, b :: bs =>
    { b with
      message :=
        if b.message.role = .user ∧ prevRole = some .user then
          { b.message with content := prependToFirstText b.message.content }
        else b.message } :: formatBuilt (some b.message.role) bs

def filterBuilt (built : List Built) : List Built :=
  built.filterMap fun b =>
    (filterMessage (toolCallIds (plainMessages built)) (toolResponseIds (plainMessages built)) b.message).map fun m =>
      { b with message := m }

/-- The messages of `process_events`, each with what it shows. -/
def buildPrompt (history : List Event) (initialUserAction : MessageEvent) : Except PyError (List Built) :=
  (buildEvents config renderer maxMessageChars visionIsActive [] (prepareEvents config renderer history initialUserAction)
    {}).map fun st => formatBuilt none (filterBuilt st.messages)

end Building

/-! ## Without the notes it is the same loop -/

theorem get?_plainResults (id : String) (results : List (String × BuiltResult)) :
    Assoc.get? id (plainResults results) = (Assoc.get? id results).map BuiltResult.result :=
  Assoc.get?_map Function.injective_id BuiltResult.result id results

theorem erase_plainResults (callId : String) (results : List (String × BuiltResult)) :
    plainResults (Assoc.erase callId results) = Assoc.erase callId (plainResults results) := by
  unfold plainResults Assoc.erase
  rw [List.filter_map]
  rfl

theorem set_plainResults (callId : String) (r : BuiltResult) (results : List (String × BuiltResult)) :
    plainResults (Assoc.set callId r results) = Assoc.set callId r.result (plainResults results) :=
  Assoc.map_set (g := id) Function.injective_id BuiltResult.result callId r results

theorem takeResults_plain (calls : List ToolCall) (results : List (String × BuiltResult)) :
    takeResults calls (plainResults results) =
      (buildResults calls results).map fun p => (plainMessages p.1, plainResults p.2) := by
  induction calls generalizing results with
  | nil => rfl
  | cons tc calls ih =>
    have hfound : (tc.id.bind fun id => (Assoc.get? id (plainResults results)).map fun r => (id, r)) =
        (tc.id.bind fun id => (Assoc.get? id results).map fun r => (id, r)).map fun ir => (ir.1, ir.2.result) := by
      cases tc.id with
      | none => rfl
      | some id =>
        rw [Option.bind_some, Option.bind_some, get?_plainResults, Option.map_map, Option.map_map]
        rfl
    rw [takeResults, buildResults, hfound]
    cases tc.id.bind fun id => (Assoc.get? id results).map fun r => (id, r) with
    | none => rfl
    | some ir =>
      dsimp only [Option.map_some]
      rw [← erase_plainResults, ih]
      cases buildResults calls (Assoc.erase ir.1 results) <;> rfl

theorem sweep_plain (pending : List (String × ModelResponse)) (results : List (String × BuiltResult)) :
    sweep pending (plainResults results) =
      (buildRequests pending results).map fun q => (plainMessages q.1, plainResults q.2.1, q.2.2) := by
  induction pending generalizing results with
  | nil => rfl
  | cons request pending ih =>
    obtain ⟨responseId, r⟩ := request
    rw [sweep, buildRequests]
    cases r.message.toolCalls with
    | none => rfl
    | some calls =>
      dsimp only
      split_ifs
      · rw [takeResults_plain]
        cases buildResults calls results with
        | error e => rfl
        | ok p =>
          show (sweep pending (plainResults p.2)).map _ = ((buildRequests pending p.2).map _).map _
          rw [ih]
          cases buildRequests pending p.2 with
          | error e => rfl
          | ok q => simp [Except.map, plainMessages]
      · rw [ih]
        cases buildRequests pending results <;> rfl

section Plain

variable {config : AgentConfig} {renderer : Renderer} {maxMessageChars : Option Int} {visionIsActive : Bool}

theorem processOne_plain (earlier : List Event) (st : BuiltState) (e : Event) :
    processOne config renderer maxMessageChars visionIsActive earlier st.plain e =
      (buildOne config renderer maxMessageChars visionIsActive earlier st e).map fun p => (plainMessages p.1, p.2.plain) := by
  unfold processOne buildOne
  cases e.body with
  | action a =>
    dsimp only [BuiltState.plain]
    cases processAction renderer visionIsActive e a st.pending with
    | error err => rfl
    | ok p => simp [Except.map, plainMessages, Function.comp_def]
  | observation o =>
    dsimp only
    unfold processObservation
    cases renderObservation config renderer o e.toolCallMetadata maxMessageChars visionIsActive earlier with
    | error err => rfl
    | ok rendered =>
      cases rendered with
      | done messages => simp [Except.map, plainMessages, BuiltState.plain, Function.comp_def]
      | content content =>
        cases e.toolCallMetadata with
        | none => rfl
        | some md => simp [Except.map, plainMessages, BuiltState.plain, set_plainResults]
  | plain => rfl

theorem processEvent_plain (earlier : List Event) (st : BuiltState) (e : Event) :
    processEvent config renderer maxMessageChars visionIsActive earlier st.plain e =
      (buildEvent config renderer maxMessageChars visionIsActive earlier st e).map BuiltState.plain := by
  unfold processEvent buildEvent
  rw [processOne_plain]
  cases buildOne config renderer maxMessageChars visionIsActive earlier st e with
  | error err => rfl
  | ok p =>
    show (sweep p.2.pending (plainResults p.2.results)).map _ = ((buildRequests p.2.pending p.2.results).map _).map _
    rw [sweep_plain]
    cases buildRequests p.2.pending p.2.results with
    | error err => rfl
    | ok q => simp [Except.map, BuiltState.plain, plainMessages]

theorem runEvents_plain (earlier events : List Event) (st : BuiltState) :
    runEvents config renderer maxMessageChars visionIsActive earlier events st.plain =
      (buildEvents config renderer maxMessageChars visionIsActive earlier events st).map BuiltState.plain := by
  induction events generalizing earlier st with
  | nil => rfl
  | cons e events ih =>
    rw [runEvents, buildEvents, processEvent_plain]
    cases buildEvent config renderer maxMessageChars visionIsActive earlier st e with
    | error err => rfl
    | ok st' => exact ih (earlier ++ [e]) st'

theorem filterBuilt_plain (built : List Built) :
    plainMessages (filterBuilt built) = filterUnmatchedToolCalls (plainMessages built) := by
  unfold filterBuilt filterUnmatchedToolCalls
  generalize toolCallIds (plainMessages built) = callIds
  generalize toolResponseIds (plainMessages built) = responseIds
  unfold plainMessages
  rw [List.map_filterMap, List.filterMap_map]
  refine congrFun (congrArg _ (funext fun b => ?_)) _
  rw [Option.map_map]
  exact Option.map_id'

theorem formatBuilt_plain (prevRole : Option Role) (built : List Built) :
    plainMessages (formatBuilt prevRole built) = applyUserMessageFormatting prevRole (plainMessages built) := by
  induction built generalizing prevRole with
  | nil => rfl
  | cons b built ih => exact congrArg _ (ih (some b.message.role))

/-- The notes change nothing about the messages. -/
theorem processEvents_plain (history : List Event) (initialUserAction : MessageEvent) :
    processEvents config renderer history initialUserAction maxMessageChars visionIsActive =
      (buildPrompt config renderer maxMessageChars visionIsActive history initialUserAction).map plainMessages := by
  have hrun := @runEvents_plain config renderer maxMessageChars visionIsActive [] (prepareEvents config renderer history initialUserAction) {}
  unfold processEvents buildPrompt
  rw [show ({} : LoopState) = BuiltState.plain {} from rfl, hrun]
  cases buildEvents config renderer maxMessageChars visionIsActive []
    (prepareEvents config renderer history initialUserAction) {} with
  | error err => rfl
  | ok st =>
    refine congrArg Except.ok ?_
    rw [formatBuilt_plain, filterBuilt_plain]
    rfl

end Plain

/-! ## What is shown -/

def noteOf (config : AgentConfig) (earlier : List Event) (e : Event) : Option Shown :=
  match e.body with
  | .observation o => shownBy config earlier o
  | _ => none

/-- What the events show, one after the other. -/
def notes (config : AgentConfig) : List Event → List Event → List Shown
  | _, [] => []
  | earlier, e :: events => (noteOf config earlier e).toList ++ notes config (earlier ++ [e]) events

def isWorkspaceRecall (e : Event) : Bool :=
  match e.body with
  | .observation (.recallObservation o) => o.recallType = .workspaceContext
  | _ => false

/-- No workspace context is kept as the result of a tool call. -/
def ContextUncalled (e : Event) : Prop := isWorkspaceRecall e = true → e.toolCallMetadata = none

/-- A note is on a message to the agent that has the rendered text. -/
def Carries (renderer : Renderer) (b : Built) : Prop :=
  ∀ s, b.shown = some s → b.message.role = .user ∧ .text (renderer.buildMicroagentInfo s.agents) ∈ b.message.content

def Unnoted (results : List (String × BuiltResult)) : Prop := ∀ kv ∈ results, kv.2.shown = none

section Loop

variable {config : AgentConfig} {renderer : Renderer} {maxMessageChars : Option Int} {visionIsActive : Bool}

theorem shownBy_eq_some {earlier : List Event} {o : Observation} {s : Shown} (h : shownBy config earlier o = some s) :
    ∃ r, o = .recallObservation r ∧ config.enablePromptExtensions = true ∧ s = ⟨earlier.length, triggeredAgents config r earlier⟩ ∧
      s.agents ≠ [] := by
  unfold shownBy at h
  split at h
  next r =>
    split_ifs at h with hext
    split at h
    next => cases h
    next agents hne => cases h; exact ⟨r, rfl, hext, rfl, hne⟩
  next => cases h

theorem mem_workspaceContent {r : RecallObservation} (hne : enabledMicroagents config r.microagentKnowledge ≠ []) :
    .text (renderer.buildMicroagentInfo (enabledMicroagents config r.microagentKnowledge)) ∈
      workspaceContent config renderer r := by
  unfold workspaceContent
  apply List.mem_append_right
  split
  · next hnil => exact absurd hnil hne
  · exact List.mem_singleton.mpr rfl

theorem knowledgeMessages_eq {r : RecallObservation} {earlier : List Event}
    (hne : enabledMicroagents config (filterAgentsInMicroagentObs r earlier) ≠ []) :
    knowledgeMessages config renderer r earlier = [⟨.user, [.text (renderer.buildMicroagentInfo
      (enabledMicroagents config (filterAgentsInMicroagentObs r earlier)))], none, none, none⟩] := by
  unfold knowledgeMessages
  split
  · next hnil => exact absurd hnil hne
  · rfl

theorem shown_done {o : Observation} {md : Option ToolCallMetadata} {earlier : List Event} {messages : List Message}
    {s : Shown} (h : renderObservation config renderer o md maxMessageChars visionIsActive earlier = .ok (.done messages))
    (hs : shownBy config earlier o = some s) :
    ∃ m, messages = [m] ∧ m.role = .user ∧ .text (renderer.buildMicroagentInfo s.agents) ∈ m.content := by
  obtain ⟨r, rfl, hext, rfl, hne⟩ := shownBy_eq_some hs
  rw [renderObservation, if_pos hext] at h
  unfold triggeredAgents at hne ⊢
  cases hr : r.recallType with
  | workspaceContext =>
    rw [hr] at h hne
    dsimp only at h hne
    split at h
    · next hempty => exact absurd (hempty ▸ mem_workspaceContent hne) List.not_mem_nil
    · cases h
  | knowledge =>
    rw [hr] at h hne
    dsimp only at h hne ⊢
    rw [knowledgeMessages_eq hne] at h
    cases h
    exact ⟨_, rfl, rfl, List.mem_singleton.mpr rfl⟩

theorem shown_content {o : Observation} {md : Option ToolCallMetadata} {earlier : List Event} {content : List Content}
    {s : Shown} (h : renderObservation config renderer o md maxMessageChars visionIsActive earlier = .ok (.content content))
    (hs : shownBy config earlier o = some s) :
    (∃ r, o = .recallObservation r ∧ r.recallType = .workspaceContext) ∧
      .text (renderer.buildMicroagentInfo s.agents) ∈ content := by
  obtain ⟨r, rfl, hext, rfl, hne⟩ := shownBy_eq_some hs
  rw [renderObservation, if_pos hext] at h
  unfold triggeredAgents at hne ⊢
  cases hr : r.recallType with
  | workspaceContext =>
    rw [hr] at h hne
    dsimp only at h hne ⊢
    refine ⟨⟨r, rfl, hr⟩, ?_⟩
    split at h
    · cases h
    · cases h
      exact mem_workspaceContent hne
  | knowledge =>
    rw [hr] at h
    cases h

theorem filterMap_unnoted {built : List Built} (h : ∀ b ∈ built, b.shown = none) : built.filterMap Built.shown = [] :=
  List.filterMap_eq_nil_iff.mpr h

theorem carries_unnoted {b : Built} (h : b.shown = none) : Carries renderer b := fun s hs => by cases h.symm.trans hs

/-! ### One event -/

theorem buildResults_unnoted {calls : List ToolCall} {results results' : List (String × BuiltResult)} {built : List Built}
    (h : buildResults calls results = .ok (built, results')) (hresults : Unnoted results) :
    (∀ b ∈ built, b.shown = none) ∧ Unnoted results' := by
  induction calls generalizing results built with
  | nil =>
    cases h
    exact ⟨fun b hb => absurd hb List.not_mem_nil, hresults⟩
  | cons tc calls ih =>
    rw [buildResults] at h
    split at h
    · cases h
    · next callId r hfound =>
      obtain ⟨⟨rest, left⟩, hrest, hpair⟩ := Py.map_ok h
      cases hpair
      obtain ⟨hbuilt, hresults'⟩ := ih hrest fun kv hkv => hresults kv (Assoc.mem_erase hkv)
      obtain ⟨_, _, hmap⟩ := Option.bind_eq_some_iff.mp hfound
      obtain ⟨_, hget, heq⟩ := Option.map_eq_some_iff.mp hmap
      cases heq
      exact ⟨List.forall_mem_cons.mpr ⟨hresults _ (Assoc.mem_of_get? hget), hbuilt⟩, hresults'⟩

theorem buildRequests_unnoted {pending pending' : List (String × ModelResponse)}
    {results results' : List (String × BuiltResult)} {built : List Built}
    (h : buildRequests pending results = .ok (built, results', pending')) (hresults : Unnoted results) :
    (∀ b ∈ built, b.shown = none) ∧ Unnoted results' := by
  induction pending generalizing results built pending' with
  | nil =>
    cases h
    exact ⟨fun b hb => absurd hb List.not_mem_nil, hresults⟩
  | cons request pending ih =>
    obtain ⟨responseId, r⟩ := request
    rw [buildRequests] at h
    split at h
    · cases h
    · split_ifs at h
      · obtain ⟨⟨taken, rest⟩, htaken, h⟩ := Py.bind_ok h
        obtain ⟨⟨later, left, waiting⟩, hq, heq⟩ := Py.map_ok h
        cases heq
        obtain ⟨hnone, hrest⟩ := buildResults_unnoted htaken hresults
        obtain ⟨hnone', hresults'⟩ := ih hq hrest
        refine ⟨fun b hb => ?_, hresults'⟩
        rcases List.mem_cons.mp hb with rfl | hb
        · rfl
        · exact (List.mem_append.mp hb).elim (hnone b) (hnone' b)
      · obtain ⟨⟨later, left, waiting⟩, hq, heq⟩ := Py.map_ok h
        cases heq
        exact ih hq hresults

theorem buildOne_spec {earlier : List Event} {st st' : BuiltState} {e : Event} {built : List Built}
    (h : buildOne config renderer maxMessageChars visionIsActive earlier st e = .ok (built, st'))
    (huncalled : ContextUncalled e) (hresults : Unnoted st.results) :
    built.filterMap Built.shown = (noteOf config earlier e).toList ∧ (∀ b ∈ built, Carries renderer b) ∧
      Unnoted st'.results ∧ st'.messages = st.messages := by
  unfold buildOne at h
  unfold noteOf
  cases hbody : e.body with
  | action a =>
    rw [hbody] at h
    obtain ⟨p, -, heq⟩ := Py.map_ok h
    cases heq
    have hnone : ∀ b ∈ p.1.map fun m => ({ message := m } : Built), b.shown = none := by
      intro b hb
      obtain ⟨m, -, rfl⟩ := List.mem_map.mp hb
      rfl
    exact ⟨filterMap_unnoted hnone, fun b hb => carries_unnoted (hnone b hb), hresults, rfl⟩
  | plain =>
    rw [hbody] at h
    cases h
  | observation o =>
    rw [hbody] at h
    dsimp only at h ⊢
    split at h
    · cases h
    · -- messages at once: one with the note, if there is a note
      next messages hrender =>
      cases h
      cases hshown : shownBy config earlier o with
      | none =>
        have hnone : ∀ b ∈ messages.map fun m => (⟨m, none⟩ : Built), b.shown = none := by
          intro b hb
          obtain ⟨m, -, rfl⟩ := List.mem_map.mp hb
          rfl
        exact ⟨filterMap_unnoted hnone, fun b hb => carries_unnoted (hnone b hb), hresults, rfl⟩
      | some s =>
        obtain ⟨m, rfl, hrole, htext⟩ := shown_done hrender hshown
        refine ⟨rfl, fun b hb => ?_, hresults, rfl⟩
        obtain rfl := List.mem_singleton.mp hb
        intro s' hs'
        cases hs'
        exact ⟨hrole, htext⟩
    · next content hrender =>
      split at h
      · cases h
        refine ⟨by cases shownBy config earlier o <;> rfl, fun b hb => ?_, hresults, rfl⟩
        obtain rfl := List.mem_singleton.mp hb
        exact fun s hs => ⟨rfl, (shown_content hrender hs).2⟩
      · -- a result of a tool call shows nothing
        next md hmd =>
        cases h
        have hnone : shownBy config earlier o = none := by
          cases hshown : shownBy config earlier o with
          | none => rfl
          | some s =>
            obtain ⟨⟨r, rfl, hr⟩, -⟩ := shown_content hrender hshown
            have hworkspace : isWorkspaceRecall e = true := by
              rw [isWorkspaceRecall, hbody]
              exact decide_eq_true hr
            cases (huncalled hworkspace).symm.trans hmd
        rw [hnone]
        refine ⟨rfl, fun b hb => absurd hb List.not_mem_nil, fun kv hkv => ?_, rfl⟩
        rcases Assoc.mem_set hkv with rfl | hkv
        · rfl
        · exact hresults kv hkv

theorem buildEvent_spec {earlier : List Event} {st st' : BuiltState} {e : Event}
    (h : buildEvent config renderer maxMessageChars visionIsActive earlier st e = .ok st')
    (huncalled : ContextUncalled e) (hresults : Unnoted st.results) (hcarries : ∀ b ∈ st.messages, Carries renderer b) :
    st'.messages.filterMap Built.shown = st.messages.filterMap Built.shown ++ (noteOf config earlier e).toList ∧
      (∀ b ∈ st'.messages, Carries renderer b) ∧ Unnoted st'.results := by
  obtain ⟨⟨direct, st₁⟩, hdirect, h⟩ := Py.bind_ok h
  obtain ⟨⟨completed, results, pending⟩, hcompleted, rfl⟩ := Py.map_ok h
  obtain ⟨hnotes, hdirectCarries, hresults', -⟩ := buildOne_spec hdirect huncalled hresults
  obtain ⟨hnone, hunnoted⟩ := buildRequests_unnoted hcompleted hresults'
  refine ⟨?_, fun b hb => ?_, hunnoted⟩
  · rw [List.filterMap_append, List.filterMap_append, hnotes, filterMap_unnoted hnone, List.append_nil]
  · rcases List.mem_append.mp hb with hb | hb
    · exact hcarries b hb
    · exact (List.mem_append.mp hb).elim (hdirectCarries b) fun hb => carries_unnoted (hnone b hb)

/-! ### Every run -/

theorem buildEvents_spec {earlier events : List Event} {st st' : BuiltState}
    (h : buildEvents config renderer maxMessageChars visionIsActive earlier events st = .ok st')
    (huncalled : ∀ e ∈ events, ContextUncalled e) (hresults : Unnoted st.results)
    (hcarries : ∀ b ∈ st.messages, Carries renderer b) :
    st'.messages.filterMap Built.shown = st.messages.filterMap Built.shown ++ notes config earlier events ∧
      ∀ b ∈ st'.messages, Carries renderer b := by
  induction events generalizing earlier st with
  | nil =>
    cases h
    exact ⟨(List.append_nil _).symm, hcarries⟩
  | cons e events ih =>
    obtain ⟨st₁, hevent, h⟩ := Py.bind_ok h
    obtain ⟨he, hrest⟩ := List.forall_mem_cons.mp huncalled
    obtain ⟨hnotes, hcarries', hresults'⟩ := buildEvent_spec hevent he hresults hcarries
    obtain ⟨hall, hcarries''⟩ := ih h hrest hresults' hcarries'
    refine ⟨?_, hcarries''⟩
    rw [hall, hnotes, notes, List.append_assoc]

/-! ### The final passes -/

theorem filterMessage_of_user {callIds responseIds : List String} {m : Message} (h : m.role = .user) :
    filterMessage callIds responseIds m = some m := by
  rw [filterMessage, h, if_neg (by simp), if_neg (by simp)]

theorem filterBuilt_spec {built : List Built} (h : ∀ b ∈ built, Carries renderer b) :
    (filterBuilt built).filterMap Built.shown = built.filterMap Built.shown ∧ ∀ b ∈ filterBuilt built, Carries renderer b := by
  unfold filterBuilt
  generalize toolCallIds (plainMessages built) = callIds
  generalize toolResponseIds (plainMessages built) = responseIds
  constructor
  · rw [List.filterMap_filterMap]
    refine List.filterMap_congr fun b hb => ?_
    cases hshown : b.shown with
    | none => cases filterMessage callIds responseIds b.message <;> rfl
    | some s =>
      rw [filterMessage_of_user (h b hb s hshown).1]
      rfl
  · intro b' hb' s hs
    obtain ⟨b, hb, hmap⟩ := List.mem_filterMap.mp hb'
    obtain ⟨m, hm, rfl⟩ := Option.map_eq_some_iff.mp hmap
    have hcarries := h b hb s hs
    rw [filterMessage_of_user hcarries.1] at hm
    obtain rfl := Option.some.inj hm
    exact hcarries

/-- The rendered text is in the message, perhaps behind two line breaks. -/
def CarriesText (renderer : Renderer) (b : Built) : Prop :=
  ∀ s, b.shown = some s → ∃ text, .text text ∈ b.message.content ∧
    (text = renderer.buildMicroagentInfo s.agents ∨ text = "\n\n" ++ renderer.buildMicroagentInfo s.agents)

theorem mem_prependToFirstText {text : String} {content : List Content} (h : .text text ∈ content) :
    .text text ∈ prependToFirstText content ∨ .text ("\n\n" ++ text) ∈ prependToFirstText content := by
  induction content with
  | nil => exact absurd h List.not_mem_nil
  | cons c content ih =>
    cases c with
    | text t =>
      rcases List.mem_cons.mp h with heq | h
      · cases heq
        exact .inr List.mem_cons_self
      · exact .inl (List.mem_cons_of_mem _ h)
    | image urls =>
      rcases List.mem_cons.mp h with heq | h
      · cases heq
      · exact (ih h).imp (List.mem_cons_of_mem _) (List.mem_cons_of_mem _)

theorem formatBuilt_spec (prevRole : Option Role) {built : List Built} (h : ∀ b ∈ built, Carries renderer b) :
    (formatBuilt prevRole built).filterMap Built.shown = built.filterMap Built.shown ∧
      ∀ b ∈ formatBuilt prevRole built, CarriesText renderer b := by
  induction built generalizing prevRole with
  | nil => exact ⟨rfl, fun b hb => absurd hb List.not_mem_nil⟩
  | cons b built ih =>
    obtain ⟨hb, hrest⟩ := List.forall_mem_cons.mp h
    obtain ⟨hnotes, hcarries⟩ := ih (some b.message.role) hrest
    constructor
    · rw [formatBuilt, List.filterMap_cons, List.filterMap_cons, hnotes]
    · refine List.forall_mem_cons.mpr ⟨fun s hs => ?_, hcarries⟩
      have htext := (hb s hs).2
      dsimp only
      split_ifs
      · rcases mem_prependToFirstText htext with h | h
        · exact ⟨_, h, .inl rfl⟩
        · exact ⟨_, h, .inr rfl⟩
      · exact ⟨_, htext, .inl rfl⟩

theorem buildPrompt_spec {history : List Event} {initialUserAction : MessageEvent} {prompt : List Built}
    (h : buildPrompt config renderer maxMessageChars visionIsActive history initialUserAction = .ok prompt)
    (huncalled : ∀ e ∈ prepareEvents config renderer history initialUserAction, ContextUncalled e) :
    prompt.filterMap Built.shown = notes config [] (prepareEvents config renderer history initialUserAction) ∧
      ∀ b ∈ prompt, CarriesText renderer b := by
  obtain ⟨st, hrun, rfl⟩ := Py.map_ok h
  obtain ⟨hnotes, hcarries⟩ := buildEvents_spec hrun huncalled (fun kv hkv => absurd hkv List.not_mem_nil)
    fun b hb => absurd hb List.not_mem_nil
  obtain ⟨hfiltered, hcarries'⟩ := filterBuilt_spec hcarries
  obtain ⟨hformatted, htexts⟩ := formatBuilt_spec none hcarries'
  refine ⟨?_, htexts⟩
  rw [hformatted, hfiltered, hnotes]
  rfl

end Loop

/-! ## Each microagent -/

def isRecall (e : Event) : Bool := e.body matches .observation (.recallObservation _)

def mentions (n : String) (e : Event) : Bool :=
  match e.body with
  | .observation (.recallObservation o) => o.microagentKnowledge.any fun a => a.name == n
  | _ => false

def Shown.has (n : String) (s : Shown) : Bool := s.agents.any fun a => a.name == n

def Built.shows (n : String) (b : Built) : Bool := b.shown.any (Shown.has n)

/-- Only the first of the recalls may be one of the workspace context. -/
def ContextFirst (events : List Event) : Prop := ∀ e ∈ (events.filter isRecall).tail, isWorkspaceRecall e = false

section Microagents

variable {config : AgentConfig} {earlier events : List Event} {e : Event} {n : String}

theorem hasAgentInEarlierEvents_eq (n : String) (earlier : List Event) :
    hasAgentInEarlierEvents n earlier = earlier.any (mentions n) := rfl

theorem mem_triggeredAgents {o : RecallObservation} {a : MicroagentKnowledge} (h : a ∈ triggeredAgents config o earlier) :
    a ∈ o.microagentKnowledge ∧ a.name ∉ config.disabledMicroagents := by
  unfold triggeredAgents enabledMicroagents filterAgentsInMicroagentObs at h
  split at h
  · simpa using h
  · have := List.mem_filter.mp h
    exact ⟨(List.mem_filter.mp this.1).1, by simpa using this.2⟩

theorem noteOf_eq_some {s : Shown} (h : noteOf config earlier e = some s) :
    ∃ o, e.body = .observation (.recallObservation o) ∧ config.enablePromptExtensions = true ∧
      s = ⟨earlier.length, triggeredAgents config o earlier⟩ := by
  unfold noteOf at h
  split at h
  next o hbody =>
    obtain ⟨r, rfl, hext, hs, -⟩ := shownBy_eq_some h
    exact ⟨r, hbody, hext, hs⟩
  next => cases h

/-- A note has only enabled microagents that its recall mentions. -/
theorem noteOf_has {s : Shown} (h : noteOf config earlier e = some s) (hn : s.has n = true) :
    mentions n e = true ∧ n ∉ config.disabledMicroagents := by
  obtain ⟨o, hbody, -, rfl⟩ := noteOf_eq_some h
  obtain ⟨a, ha, hname⟩ := List.any_eq_true.mp hn
  obtain rfl := beq_iff_eq.mp hname
  obtain ⟨hmem, henabled⟩ := mem_triggeredAgents ha
  refine ⟨?_, henabled⟩
  rw [mentions, hbody]
  exact List.any_eq_true.mpr ⟨a, hmem, beq_self_eq_true _⟩

/-- A knowledge recall shows nothing that was recalled earlier. -/
theorem noteOf_earlier {s : Shown} (h : noteOf config earlier e = some s) (hcontext : isWorkspaceRecall e = false)
    (hearlier : earlier.any (mentions n) = true) : s.has n = false := by
  obtain ⟨o, hbody, -, rfl⟩ := noteOf_eq_some h
  rw [isWorkspaceRecall, hbody] at hcontext
  have hknowledge : o.recallType = .knowledge := by
    cases hr : o.recallType with
    | workspaceContext => exact absurd hr (of_decide_eq_false hcontext)
    | knowledge => rfl
  refine List.any_eq_false.mpr fun a ha hname => ?_
  rw [triggeredAgents, hknowledge] at ha
  have hfiltered := List.mem_filter.mp (List.mem_filter.mp ha).1
  rw [beq_iff_eq.mp hname, hasAgentInEarlierEvents_eq, hearlier] at hfiltered
  exact absurd hfiltered.2 Bool.false_ne_true

/-- The first recall of a microagent shows it. -/
theorem noteOf_first (hext : config.enablePromptExtensions = true) (henabled : n ∉ config.disabledMicroagents)
    (hmentions : mentions n e = true) (hearlier : earlier.any (mentions n) = false) :
    ∃ o agents, e.body = .observation (.recallObservation o) ∧ noteOf config earlier e = some ⟨earlier.length, agents⟩ ∧
      ∃ a ∈ o.microagentKnowledge, a.name = n ∧ a ∈ agents := by
  unfold mentions at hmentions
  split at hmentions
  next o hbody =>
    obtain ⟨a, ha, hname⟩ := List.any_eq_true.mp hmentions
    have hname := beq_iff_eq.mp hname
    have hagents : a ∈ triggeredAgents config o earlier := by
      have hkept : (!config.disabledMicroagents.contains a.name) = true := by simpa [hname] using henabled
      unfold triggeredAgents
      split
      · exact List.mem_filter.mpr ⟨ha, hkept⟩
      · refine List.mem_filter.mpr ⟨List.mem_filter.mpr ⟨ha, ?_⟩, hkept⟩
        rw [hname, hasAgentInEarlierEvents_eq, hearlier]
        rfl
    refine ⟨o, triggeredAgents config o earlier, hbody, ?_, a, ha, hname, hagents⟩
    unfold noteOf
    rw [hbody]
    dsimp only [shownBy]
    rw [if_pos hext]
    split
    · next hnil => exact absurd (hnil ▸ hagents) List.not_mem_nil
    · rfl
  next => cases hmentions

theorem filter_noteOf_nil (h : ∀ s, noteOf config earlier e = some s → s.has n = false) :
    (noteOf config earlier e).toList.filter (Shown.has n) = [] := by
  cases hnote : noteOf config earlier e with
  | none => rfl
  | some s => exact List.filter_cons_of_neg (by rw [h s hnote]; exact Bool.false_ne_true)

theorem notes_disabled (hdisabled : n ∈ config.disabledMicroagents) (earlier events : List Event) :
    (notes config earlier events).filter (Shown.has n) = [] := by
  induction events generalizing earlier with
  | nil => rfl
  | cons e events ih =>
    rw [notes, List.filter_append, ih, List.append_nil]
    refine filter_noteOf_nil fun s hs => ?_
    rw [Bool.eq_false_iff]
    exact fun hn => (noteOf_has hs hn).2 hdisabled

theorem notes_later (hearlier : earlier.any (mentions n) = true) (hcontext : ∀ e ∈ events, isWorkspaceRecall e = false) :
    (notes config earlier events).filter (Shown.has n) = [] := by
  induction events generalizing earlier with
  | nil => rfl
  | cons e events ih =>
    obtain ⟨he, hrest⟩ := List.forall_mem_cons.mp hcontext
    have hlater : (earlier ++ [e]).any (mentions n) = true := by rw [List.any_append, hearlier, Bool.true_or]
    rw [notes, List.filter_append, ih hlater hrest, List.append_nil]
    exact filter_noteOf_nil fun s hs => noteOf_earlier hs he hearlier

/-- The one note of a microagent is on the first event that mentions it. -/
theorem notes_first {before after : List Event} {s : Shown} (hbefore : ∀ f ∈ before, mentions n f = false)
    (hmentions : mentions n e = true) (hcontext : ∀ f ∈ after, isWorkspaceRecall f = false)
    (hnote : noteOf config (earlier ++ before) e = some s) (hs : s.has n = true) :
    (notes config earlier (before ++ e :: after)).filter (Shown.has n) = [s] := by
  induction before generalizing earlier with
  | nil =>
    rw [List.append_nil] at hnote
    have hlater : (earlier ++ [e]).any (mentions n) = true := by
      rw [List.any_append, List.any_cons, hmentions, Bool.true_or, Bool.or_true]
    rw [List.nil_append, notes, List.filter_append, notes_later hlater hcontext, hnote]
    exact (List.append_nil _).trans (List.filter_cons_of_pos hs)
  | cons f before ih =>
    obtain ⟨hf, hrest⟩ := List.forall_mem_cons.mp hbefore
    rw [List.cons_append, notes, List.filter_append, ih hrest (by rwa [List.append_assoc]), filter_noteOf_nil]
    · rfl
    · intro s' hs'
      rw [Bool.eq_false_iff]
      exact fun hn => Bool.false_ne_true (hf.symm.trans (noteOf_has hs' hn).1)

/-- Behind the first of the recalls none is one of the workspace context. -/
theorem ContextFirst.after {before after : List Event} (h : ContextFirst (before ++ e :: after)) (he : isRecall e = true) :
    ∀ f ∈ after, isWorkspaceRecall f = false := by
  intro f hf
  by_cases hrecall : isRecall f = true
  · apply h f
    rw [List.filter_append, List.filter_cons_of_pos he]
    have hmem : f ∈ after.filter isRecall := List.mem_filter.mpr ⟨hf, hrecall⟩
    cases before.filter isRecall with
    | nil => exact hmem
    | cons g recalls => exact List.mem_append_right _ (List.mem_cons_of_mem _ hmem)
  · unfold isWorkspaceRecall
    split
    next o hbody => exact absurd (by rw [isRecall, hbody]) hrecall
    next => rfl

theorem isRecall_of_mentions (h : mentions n e = true) : isRecall e = true := by
  unfold mentions at h
  split at h
  next o hbody => rw [isRecall, hbody]
  next => cases h

end Microagents

section Prompts

variable {config : AgentConfig} {renderer : Renderer} {maxMessageChars : Option Int} {visionIsActive : Bool}
  {history : List Event} {initialUserAction : MessageEvent}

/-- No recall is inserted in front. -/
theorem filter_prepareEvents :
    (prepareEvents config renderer history initialUserAction).filter isRecall = history.filter isRecall := by
  have huser : isRecall initialUserAction.val = false := by
    have hcls := initialUserAction.property
    rw [Event.cls] at hcls
    unfold isRecall
    split at hcls
    · next hbody => rw [hbody]
    · cases hcls
    · cases hcls
  have hsystem : (ensureSystemMessage config renderer history).filter isRecall = history.filter isRecall := by
    unfold ensureSystemMessage
    split_ifs <;> rfl
  rw [prepareEvents, ← hsystem]
  cases ensureSystemMessage config renderer history with
  | nil => rfl
  | cons e events =>
    cases events with
    | nil => simp [ensureInitialUserMessage, List.filter_cons, huser]
    | cons f events =>
      rw [ensureInitialUserMessage]
      split_ifs
      · rfl
      · simp [List.filter_cons, huser]

theorem mem_prepareEvents {e : Event} (he : isRecall e = true) :
    e ∈ prepareEvents config renderer history initialUserAction ↔ e ∈ history := by
  have hmem := @filter_prepareEvents config renderer history initialUserAction ▸
    @List.mem_filter _ isRecall (prepareEvents config renderer history initialUserAction) e
  rw [List.mem_filter, and_iff_left he, and_iff_left he] at hmem
  exact hmem.symm

/-- One message shows the microagent: the one that the first recall which mentions it is made to. -/
structure ShowsFirst (renderer : Renderer) (events : List Event) (prompt : List Built) (n : String) (before after : List Event)
    (e : Event) (o : RecallObservation) (b : Built) (agents : List MicroagentKnowledge) : Prop where
  place : events = before ++ e :: after
  body : e.body = .observation (.recallObservation o)
  unseen : ∀ f ∈ before, mentions n f = false
  single : prompt.filter (Built.shows n) = [b]
  origin : b.shown = some ⟨before.length, agents⟩
  knowledge : ∃ a ∈ o.microagentKnowledge, a.name = n ∧ a ∈ agents
  text : CarriesText renderer b

/-- Each recalled microagent is shown once unless it is disabled, and no disabled one is. -/
def KnowledgeShownOnce (config : AgentConfig) (renderer : Renderer) (maxMessageChars : Option Int) (visionIsActive : Bool)
    (history : List Event) (initialUserAction : MessageEvent) (messages : List Message) : Prop :=
  ∃ prompt, buildPrompt config renderer maxMessageChars visionIsActive history initialUserAction = .ok prompt ∧
    plainMessages prompt = messages ∧ ∀ n,
      (n ∈ config.disabledMicroagents → prompt.filter (Built.shows n) = []) ∧
      (n ∉ config.disabledMicroagents → history.any (mentions n) = true → ∃ before after e o b agents,
        ShowsFirst renderer (prepareEvents config renderer history initialUserAction) prompt n before after e o b agents)

theorem filter_shows (prompt : List Built) (n : String) :
    (prompt.filter (Built.shows n)).filterMap Built.shown = (prompt.filterMap Built.shown).filter (Shown.has n) := by
  rw [List.filterMap_filter, List.filter_filterMap]
  refine List.filterMap_congr fun b _ => ?_
  unfold Built.shows
  cases hshown : b.shown with
  | none => rfl
  | some s => rw [Option.any_some, Option.filter_some]

/-- What shows a microagent has a note. -/
theorem shown_of_shows {prompt : List Built} {n : String} {b : Built} (h : b ∈ prompt.filter (Built.shows n)) :
    ∃ s, b.shown = some s := by
  have hshows := (List.mem_filter.mp h).2
  unfold Built.shows at hshows
  cases hshown : b.shown with
  | none =>
    rw [hshown] at hshows
    cases hshows
  | some s => exact ⟨s, rfl⟩

theorem eq_singleton_of_notes {built : List Built} {s : Shown} (h : built.filterMap Built.shown = [s])
    (hsome : ∀ b ∈ built, ∃ s, b.shown = some s) : ∃ b, built = [b] ∧ b.shown = some s := by
  cases built with
  | nil => cases h
  | cons b built =>
    obtain ⟨⟨s', hs'⟩, hrest⟩ := List.forall_mem_cons.mp hsome
    rw [List.filterMap_cons, hs'] at h
    obtain ⟨rfl, hnil⟩ := List.cons.inj h
    cases built with
    | nil => exact ⟨b, rfl, hs'⟩
    | cons c built =>
      obtain ⟨t, ht⟩ := hrest c List.mem_cons_self
      rw [List.filterMap_cons, ht] at hnil
      cases hnil

theorem knowledgeShownOnce (hext : config.enablePromptExtensions = true) (hfirst : ContextFirst history)
    (huncalled : ∀ e ∈ history, ContextUncalled e) {messages : List Message}
    (h : processEvents config renderer history initialUserAction maxMessageChars visionIsActive = .ok messages) :
    KnowledgeShownOnce config renderer maxMessageChars visionIsActive history initialUserAction messages := by
  rw [processEvents_plain] at h
  obtain ⟨prompt, hprompt, hmessages⟩ := Py.map_ok h
  have hprepared : ∀ e ∈ prepareEvents config renderer history initialUserAction, ContextUncalled e := by
    intro e he hcontext
    have hrecall : isRecall e = true := by
      unfold isWorkspaceRecall at hcontext
      split at hcontext
      next o hbody => rw [isRecall, hbody]
      next => cases hcontext
    exact huncalled e ((mem_prepareEvents hrecall).mp he) hcontext
  obtain ⟨hnotes, htexts⟩ := buildPrompt_spec hprompt hprepared
  refine ⟨prompt, hprompt, hmessages, fun n => ⟨fun hdisabled => ?_, fun henabled hmentioned => ?_⟩⟩
  · have hnone := filter_shows prompt n
    rw [hnotes, notes_disabled hdisabled, List.filterMap_eq_nil_iff] at hnone
    refine List.eq_nil_iff_forall_not_mem.mpr fun b hb => ?_
    obtain ⟨s, hs⟩ := shown_of_shows hb
    cases (hnone b hb).symm.trans hs
  · obtain ⟨e, he, hmentions⟩ := List.any_eq_true.mp hmentioned
    have hmem : e ∈ prepareEvents config renderer history initialUserAction :=
      (mem_prepareEvents (isRecall_of_mentions hmentions)).mpr he
    obtain ⟨e, he⟩ := Option.isSome_iff_exists.mp (List.find?_isSome.mpr ⟨e, hmem, hmentions⟩)
    obtain ⟨hmentions, before, after, hplace, hbefore⟩ := List.find?_eq_some_iff_append.mp he
    have hbefore : ∀ f ∈ before, mentions n f = false := fun f hf => by simpa using hbefore f hf
    have hnew : before.any (mentions n) = false :=
      List.any_eq_false.mpr fun f hf => by rw [hbefore f hf]; exact Bool.false_ne_true
    have hcontext : ContextFirst (before ++ e :: after) := by
      rw [← hplace, ContextFirst, filter_prepareEvents]
      exact hfirst
    obtain ⟨o, agents, hbody, hnote, a, ha, hname, hagents⟩ := noteOf_first hext henabled hmentions hnew
    have hhas : (⟨before.length, agents⟩ : Shown).has n = true :=
      List.any_eq_true.mpr ⟨a, hagents, beq_iff_eq.mpr hname⟩
    have honly := filter_shows prompt n
    rw [hnotes, hplace, notes_first hbefore hmentions (hcontext.after (isRecall_of_mentions hmentions)) hnote hhas] at honly
    obtain ⟨b, hb, horigin⟩ := eq_singleton_of_notes honly fun b hb => shown_of_shows hb
    have hprompt : b ∈ prompt := (List.mem_filter.mp (hb ▸ List.mem_singleton.mpr rfl)).1
    exact ⟨before, after, e, o, b, agents, hplace, hbody, hbefore, hb, horigin, ⟨a, ha, hname, hagents⟩, htexts b hprompt⟩

/-! ### Recalls of one microagent -/

def gitRecall (recallType : RecallType) (toolCallMetadata : Option ToolCallMetadata) : Event :=
  { body := .observation (.recallObservation
      { content := "Recalled", recallType := recallType, microagentKnowledge := [⟨"git", "commit", "Commit often."⟩] })
    id := 2, source := some .environment, toolCallMetadata := toolCallMetadata }

/-- The microagent is recalled twice. -/
def recalledTwice : List Event :=
  [systemMessage, userMessage, gitRecall .workspaceContext none, gitRecall .knowledge none]

theorem knowledgeShownOnce_git : ContextFirst recalledTwice ∧
    KnowledgeShownOnce {} bareRenderer none false recalledTwice userMessage
      [⟨.system, [.text "You are an agent"], none, none, none⟩, ⟨.user, [.text "Hi"], none, none, none⟩,
        ⟨.user, [.text "\n\n"], none, none, none⟩] := by
  have hfirst : ContextFirst recalledTwice := by
    intro e he
    obtain rfl := List.mem_singleton.mp (show e ∈ [gitRecall .knowledge none] from he)
    rfl
  have huncalled : ∀ e ∈ recalledTwice, ContextUncalled e := by
    intro e he hcontext
    simp only [recalledTwice, List.mem_cons, List.not_mem_nil, or_false] at he
    rcases he with rfl | rfl | rfl | rfl <;> rfl
  exact ⟨hfirst, knowledgeShownOnce rfl hfirst huncalled (by decide)⟩

def DistinctNames (events : List Event) : Prop :=
  ∀ e ∈ events, ∀ o, e.body = .observation (.recallObservation o) → (o.microagentKnowledge.map MicroagentKnowledge.name).Nodup

/-- A workspace context kept as the result of a tool call that nobody makes. -/
def calledContext : List Event :=
  [systemMessage, userMessage,
    gitRecall .workspaceContext (some ⟨"recall", "t", ⟨"r", ⟨.assistant, none, none, rfl⟩⟩, 1⟩)]

theorem calledContext_not_shown : ¬ ∀ (config : AgentConfig) (renderer : Renderer) (maxMessageChars : Option Int)
    (visionIsActive : Bool) (history : List Event) (initialUserAction : MessageEvent) (messages : List Message),
    config.enablePromptExtensions = true → DistinctNames history → ContextFirst history →
      processEvents config renderer history initialUserAction maxMessageChars visionIsActive = .ok messages →
        KnowledgeShownOnce config renderer maxMessageChars visionIsActive history initialUserAction messages := by
  intro h
  have hdistinct : DistinctNames calledContext := by
    intro e he o hbody
    simp only [calledContext, List.mem_cons, List.not_mem_nil, or_false] at he
    rcases he with rfl | rfl | rfl
    · cases hbody
    · cases hbody
    · cases hbody
      exact List.nodup_singleton _
  have hfirst : ContextFirst calledContext := fun e he => absurd he List.not_mem_nil
  obtain ⟨prompt, hprompt, -, hshown⟩ := h {} bareRenderer none false calledContext userMessage
    [⟨.system, [.text "You are an agent"], none, none, none⟩, ⟨.user, [.text "Hi"], none, none, none⟩] rfl hdistinct hfirst
    (by decide)
  obtain ⟨before, after, e, o, b, agents, hfirst⟩ := (hshown "git").2 (by decide) rfl
  have hbuilt : [⟨⟨.system, [.text "You are an agent"], none, none, none⟩, none⟩,
      ⟨⟨.user, [.text "Hi"], none, none, none⟩, none⟩] = prompt := Except.ok.inj (Eq.trans (by rfl) hprompt)
  have hsingle := hfirst.single
  rw [← hbuilt] at hsingle
  cases hsingle

end Prompts

end ConversationMemory

end OpenHands
