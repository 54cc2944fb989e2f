import OpenHandsSWE.Memory.ToolResults

/-! Two facts about every prompt: each request is followed by exactly its results, and a result is
shown with the response that asked for it as long as no stale request or result has its id. -/

namespace OpenHands

namespace ConversationMemory

variable {config : AgentConfig} {renderer : Renderer} {maxMessageChars : Option Int}
  {visionIsActive : Bool} {history : List Event} {initialUserAction : MessageEvent}

theorem mem_ensureInitialUserMessage {a e : Event} {events : List Event}
    (h : e ∈ ensureInitialUserMessage a events) : e = a ∨ e ∈ events := by
  unfold ensureInitialUserMessage at h
  split at h
  · exact .inr h
  · simp only [List.mem_cons, List.not_mem_nil, or_false] at h ⊢
    tauto
  · split_ifs at h
    · exact .inr h
    · simp only [List.mem_cons] at h ⊢
      tauto

/-- What is inserted in front is no tool call. -/
theorem Requests.mem_history {e : Event} {md : ToolCallMetadata} (hreq : Requests e md)
    (h : e ∈ prepareEvents config renderer history initialUserAction) : e ∈ history := by
  obtain ⟨⟨a, ha, htool⟩, _⟩ := hreq
  have hsystem : ∀ c, e ≠ { body := .action (.systemMessage c) } := by
    rintro c rfl
    cases ha
    simp [isToolAction] at htool
  rcases mem_ensureInitialUserMessage h with rfl | h
  · have hcls := initialUserAction.property
    rw [Event.cls, ha] at hcls
    cases a <;> simp [Action.cls, isToolAction] at hcls htool
  · unfold ensureSystemMessage at h
    split_ifs at h
    · exact h
    · exact h
    · exact (List.mem_cons.mp h).resolve_left (hsystem _)

theorem Records.mem_history {earlier : List Event} {e : Event} {md : ToolCallMetadata}
    {content : List Content}
    (hrec : Records config renderer maxMessageChars visionIsActive earlier e md content)
    (h : e ∈ prepareEvents config renderer history initialUserAction) : e ∈ history := by
  obtain ⟨⟨o, ho, _⟩, _⟩ := hrec
  rcases mem_ensureInitialUserMessage h with rfl | h
  · have hcls := initialUserAction.property
    rw [Event.cls, ho] at hcls
    cases hcls
  · unfold ensureSystemMessage at h
    split_ifs at h
    · exact h
    · exact h
    · rcases List.mem_cons.mp h with rfl | h
      · cases ho
      · exact h

/-! ## Requests and results in blocks -/

def Calls (r : ModelResponse) (id : String) : Prop :=
  ∃ tc ∈ r.message.toolCalls.getD [], tc.id = some id

/-- No response calls a tool under the empty id. -/
def NoEmptyIds (history : List Event) : Prop :=
  ∀ e ∈ history, ∀ md, e.toolCallMetadata = some md → ¬ Calls md.modelResponse ""

/-- Results are kept under their own id, and no waiting request has the empty one. -/
def IdsMatch (pending : List (String × ModelResponse)) (results : List (String × ToolResult)) : Prop :=
  (∀ id r, Assoc.get? id results = some r → r.metadata.toolCallId = id) ∧
    ∀ rid r, (rid, r) ∈ pending → ¬ Calls r ""

theorem assistantMessage_role (r : ModelResponse) : (assistantMessage r).role = .assistant :=
  r.message.isAssistant

theorem IdsMatch.block {pending : List (String × ModelResponse)}
    {results : List (String × ToolResult)} (h : IdsMatch pending results) {rid : String}
    {r : ModelResponse} (hr : (rid, r) ∈ pending) {calls : List ToolCall} {tools : List Message}
    (hcalls : r.message.toolCalls = some calls) (hne : calls ≠ [])
    (ht : TakenFrom results calls tools) : IdentifiedBlock (assistantMessage r) tools := by
  refine ⟨⟨assistantMessage_role r, calls, hcalls, hne, ?_⟩, fun tc htc => ?_⟩
  · refine List.Forall₂.imp (fun tc t => ?_) ht
    rintro ⟨id, res, hid, hres, rfl⟩
    refine ⟨rfl, ?_⟩
    rw [hid, ← h.1 id res hres]
    rfl
  · have htc' : tc ∈ calls := by simpa [assistantMessage, hcalls] using htc
    obtain ⟨t, _, id, res, hid, _⟩ := Forall₂_mem_left ht htc'
    refine ⟨id, hid, ?_⟩
    rintro rfl
    exact h.2 rid r hr ⟨tc, by rw [hcalls]; exact htc', hid⟩

theorem IdsMatch.fewer {pending pending' : List (String × ModelResponse)}
    {results results' : List (String × ToolResult)} (h : IdsMatch pending results)
    (hsub : pending' ⊆ pending) (hfewer : Fewer results' results) : IdsMatch pending' results' :=
  ⟨fun id r hr => h.1 id r (hfewer id r hr), fun rid r hr => h.2 rid r (hsub hr)⟩

theorem IdsMatch.request {pending : List (String × ModelResponse)}
    {results : List (String × ToolResult)} (h : IdsMatch pending results) {md : ToolCallMetadata}
    (hmd : ¬ Calls md.modelResponse "") :
    IdsMatch (Assoc.set md.modelResponse.id md.modelResponse pending) results := by
  refine ⟨h.1, fun rid r hr => ?_⟩
  rcases Assoc.mem_set hr with heq | hr
  · cases heq
    exact hmd
  · exact h.2 rid r hr

theorem get?_set_cases {k id : String} {v r : ToolResult} {results : List (String × ToolResult)}
    (h : Assoc.get? id (Assoc.set k v results) = some r) :
    (id = k ∧ r = v) ∨ (id ≠ k ∧ Assoc.get? id results = some r) := by
  by_cases hk : id = k
  · subst hk
    rw [Assoc.get?_set_self] at h
    exact .inl ⟨rfl, (Option.some.inj h).symm⟩
  · rw [Assoc.get?_set_of_ne hk] at h
    exact .inr ⟨hk, h⟩

theorem IdsMatch.record {pending : List (String × ModelResponse)}
    {results : List (String × ToolResult)} (h : IdsMatch pending results) (md : ToolCallMetadata)
    (content : List Content) :
    IdsMatch pending (Assoc.set md.toolCallId ⟨md, content⟩ results) := by
  refine ⟨fun id r hr => ?_, h.2⟩
  rcases get?_set_cases hr with ⟨rfl, rfl⟩ | ⟨_, hr⟩
  · rfl
  · exact h.1 id r hr

theorem loopInvariant_idsMatch (hids : NoEmptyIds history) :
    LoopInvariant config renderer maxMessageChars visionIsActive IdentifiedBlock
      (prepareEvents config renderer history initialUserAction) IdsMatch where
  start := ⟨by simp [Assoc.get?], by simp⟩
  block_of h _ _ hr _ _ hcalls hne ht := h.block hr hcalls hne ht
  fewer h hsub hfewer := h.fewer hsub hfewer
  request {earlier e later st md} hevents _ hreq h := by
    have hmem : e ∈ prepareEvents config renderer history initialUserAction := by simp [hevents]
    exact h.request (hids e (hreq.mem_history hmem) md hreq.2)
  record _ _ _ h := h.record _ _

/-- Templates that render to nothing, and no diff. -/
def bareRenderer : Renderer where
  getSystemMessage _ := ""
  buildWorkspaceContext _ _ _ _ := ""
  buildMicroagentInfo _ := ""
  actionStr _ := ""
  visualizeDiff _ := ""

def userMessage : MessageEvent :=
  ⟨{ body := .action (.message { content := "Hi" }), id := 1, source := some .user }, rfl⟩

def systemMessage : Event :=
  { body := .action (.systemMessage { content := "You are an agent" }), id := 0, source := some .agent }

def respondWith (content : String) (responseId callId : String) : ModelResponse where
  id := responseId
  message :=
    { role := .assistant, content := some content, isAssistant := rfl
      toolCalls := some [{ id := some callId, name := "execute_bash", arguments := "{}" }] }

def callTool (id : Int) (r : ModelResponse) (callId : String) : Event :=
  { body := .action (.cmdRun { command := "ls" }), id := id, source := some .agent
    toolCallMetadata := some ⟨"execute_bash", callId, r, 1⟩ }

def toolOutput (id : Int) (r : ModelResponse) (callId output : String) : Event :=
  { body := .observation (.mcp { content := output }), id := id, source := some .agent
    toolCallMetadata := some ⟨"execute_bash", callId, r, 1⟩ }

/-- One call and its result. -/
def oneCall : List Event :=
  [systemMessage, userMessage, callTool 2 (respondWith "List" "r" "t") "t",
    toolOutput 3 (respondWith "List" "r" "t") "t" "a.txt"]

def oneCallMessages : List Message :=
  [⟨.system, [.text "You are an agent"], none, none, none⟩, ⟨.user, [.text "Hi"], none, none, none⟩,
    ⟨.assistant, [.text "List"], (respondWith "List" "r" "t").message.toolCalls, none, none⟩,
    ⟨.tool, [.text "a.txt"], none, some "t", some "execute_bash"⟩]

theorem oneCall_noEmptyIds : NoEmptyIds oneCall := by
  simp [NoEmptyIds, oneCall, systemMessage, userMessage, callTool, toolOutput, Calls, respondWith]

theorem oneCall_messages :
    processEvents {} bareRenderer oneCall userMessage none false = .ok oneCallMessages := by
  decide

variable (config renderer maxMessageChars visionIsActive)

/-- The request is built from a response, and each result from an observation that answers a call
of this response. -/
def AnsweredBlock (events : List Event) (m : Message) (tools : List Message) : Prop :=
  IdentifiedBlock m tools ∧ ∃ r calls, m = assistantMessage r ∧ r.message.toolCalls = some calls ∧
    List.Forall₂ (fun tc t => ∃ earlier e later md content, events = earlier ++ e :: later ∧
      Records config renderer maxMessageChars visionIsActive earlier e md content ∧
      md.modelResponse = r ∧ tc.id = some md.toolCallId ∧ t = ToolResult.message ⟨md, content⟩)
      calls tools

/-- The event brings no result another waiting request would take for its own, and no request that
would take a left-over result of another response. -/
structure UndisturbedStep (earlier : List Event) (st : LoopState) (e : Event) : Prop where
  record : ∀ md content, Records config renderer maxMessageChars visionIsActive earlier e md content →
    ∀ rid r, (rid, r) ∈ st.pending → Calls r md.toolCallId → r = md.modelResponse
  request : ∀ md, Requests e md → ∀ id res, Calls md.modelResponse id →
    Assoc.get? id st.results = some res → res.metadata.modelResponse = md.modelResponse

/-- Every step of the loop over these events is undisturbed. -/
def Undisturbed (events : List Event) : Prop :=
  ∀ earlier e later st, events = earlier ++ e :: later →
    Reaches config renderer maxMessageChars visionIsActive earlier st →
    UndisturbedStep config renderer maxMessageChars visionIsActive earlier st e

/-- Kept results come from observations of the list, and those a waiting request asks for are its
own. -/
def OwnResults (events : List Event) (pending : List (String × ModelResponse))
    (results : List (String × ToolResult)) : Prop :=
  IdsMatch pending results ∧
    (∀ id res, Assoc.get? id results = some res → ∃ earlier e later, events = earlier ++ e :: later ∧
      Records config renderer maxMessageChars visionIsActive earlier e res.metadata res.content) ∧
    ∀ rid r, (rid, r) ∈ pending → ∀ id res, Calls r id → Assoc.get? id results = some res →
      res.metadata.modelResponse = r

variable {config renderer maxMessageChars visionIsActive}

theorem loopInvariant_ownResults (hids : NoEmptyIds history)
    (hund : Undisturbed config renderer maxMessageChars visionIsActive
      (prepareEvents config renderer history initialUserAction)) :
    LoopInvariant config renderer maxMessageChars visionIsActive
      (AnsweredBlock config renderer maxMessageChars visionIsActive
        (prepareEvents config renderer history initialUserAction))
      (prepareEvents config renderer history initialUserAction)
      (OwnResults config renderer maxMessageChars visionIsActive
        (prepareEvents config renderer history initialUserAction)) where
  start := ⟨⟨by simp [Assoc.get?], by simp⟩, by simp [Assoc.get?], by simp⟩
  block_of {pending results} h rid r hr calls tools hcalls hne ht := by
    obtain ⟨hmatch, hrecorded, hown⟩ := h
    refine ⟨hmatch.block hr hcalls hne ht, r, calls, rfl, hcalls, ?_⟩
    have hsub : ∀ tc ∈ calls, tc ∈ r.message.toolCalls.getD [] := by
      intro tc htc
      rw [hcalls]
      exact htc
    refine List.forall₂_iff_get.mpr ⟨ht.length_eq, fun i hi hi' => ?_⟩
    obtain ⟨id, res, hid, hres, htool⟩ := (List.forall₂_iff_get.mp ht).2 i hi hi'
    obtain ⟨earlier, e, later, hsplit, hrec⟩ := hrecorded id res hres
    have hcall : Calls r id := ⟨_, hsub _ (List.get_mem _ _), hid⟩
    refine ⟨earlier, e, later, res.metadata, res.content, hsplit, hrec, hown rid r hr id res hcall hres,
      ?_, htool⟩
    rw [hid, hmatch.1 id res hres]
  fewer h hsub hfewer :=
    ⟨h.1.fewer hsub hfewer, fun id res hres => h.2.1 id res (hfewer id res hres),
      fun rid r hr id res hcall hres => h.2.2 rid r (hsub hr) id res hcall (hfewer id res hres)⟩
  request {earlier e later st md} hevents hreach hreq h := by
    have hmem : e ∈ prepareEvents config renderer history initialUserAction := by simp [hevents]
    have hempty := hids e (hreq.mem_history hmem) md hreq.2
    refine ⟨h.1.request hempty, h.2.1, fun rid r hr id res hcall hres => ?_⟩
    rcases Assoc.mem_set hr with heq | hr
    · cases heq
      exact (hund earlier e later st hevents hreach).request md hreq id res hcall hres
    · exact h.2.2 rid r hr id res hcall hres
  record {earlier e later st md content} hevents hreach hrec h := by
    refine ⟨h.1.record md content, fun id res hres => ?_, fun rid r hr id res hcall hres => ?_⟩
    · rcases get?_set_cases hres with ⟨_, rfl⟩ | ⟨_, hres⟩
      · exact ⟨earlier, e, later, hevents, hrec⟩
      · exact h.2.1 id res hres
    · rcases get?_set_cases hres with ⟨rfl, rfl⟩ | ⟨_, hres⟩
      · exact ((hund earlier e later st hevents hreach).record md content hrec rid r hr hcall).symm
      · exact h.2.2 rid r hr id res hcall hres

/-- A tool-call id belongs to one response of the history. -/
def OwnIds (history : List Event) : Prop :=
  ∀ e ∈ history, ∀ f ∈ history, ∀ md md', e.toolCallMetadata = some md →
    f.toolCallMetadata = some md' → Calls md.modelResponse md'.toolCallId →
      md.modelResponse = md'.modelResponse

/-- The two maps hold only what events of the history brought. -/
def FromHistory (history : List Event) (pending : List (String × ModelResponse))
    (results : List (String × ToolResult)) : Prop :=
  (∀ rid r, (rid, r) ∈ pending → ∃ e ∈ history, ∃ md, e.toolCallMetadata = some md ∧
      md.modelResponse = r) ∧
    ∀ id res, Assoc.get? id results = some res → res.metadata.toolCallId = id ∧
      ∃ e ∈ history, e.toolCallMetadata = some res.metadata

theorem loopInvariant_fromHistory :
    LoopInvariant config renderer maxMessageChars visionIsActive (fun _ _ => True)
      (prepareEvents config renderer history initialUserAction) (FromHistory history) where
  start := ⟨by simp, by simp [Assoc.get?]⟩
  block_of := fun _ _ _ _ _ _ _ _ _ => trivial
  fewer h hsub hfewer :=
    ⟨fun rid r hr => h.1 rid r (hsub hr), fun id res hres => h.2 id res (hfewer id res hres)⟩
  request {earlier e later st md} hevents _ hreq h := by
    have hmem : e ∈ prepareEvents config renderer history initialUserAction := by simp [hevents]
    refine ⟨fun rid r hr => ?_, h.2⟩
    rcases Assoc.mem_set hr with heq | hr
    · cases heq
      exact ⟨e, hreq.mem_history hmem, md, hreq.2, rfl⟩
    · exact h.1 rid r hr
  record {earlier e later st md content} hevents _ hrec h := by
    have hmem : e ∈ prepareEvents config renderer history initialUserAction := by simp [hevents]
    refine ⟨h.1, fun id res hres => ?_⟩
    rcases get?_set_cases hres with ⟨rfl, rfl⟩ | ⟨_, hres⟩
    · exact ⟨rfl, e, hrec.mem_history hmem, hrec.2⟩
    · exact h.2 id res hres

/-- Ids that do not recur in a later response disturb nothing. -/
theorem undisturbed_of_ownIds (hown : OwnIds history) :
    Undisturbed config renderer maxMessageChars visionIsActive
      (prepareEvents config renderer history initialUserAction) := by
  intro earlier e later st hevents hreach
  have hmem : e ∈ prepareEvents config renderer history initialUserAction := by simp [hevents]
  have hfrom : FromHistory history st.pending st.results :=
    (loopInvariant_fromHistory.reaches hevents hreach).2
  refine ⟨fun md content hrec rid r hr hcall => ?_, fun md hreq id res hcall hres => ?_⟩
  · obtain ⟨f, hf, md', hmd', rfl⟩ := hfrom.1 rid r hr
    exact hown f hf e (hrec.mem_history hmem) md' md hmd' hrec.2 hcall
  · obtain ⟨rfl, f, hf, hmd'⟩ := hfrom.2 id res hres
    exact (hown e (hreq.mem_history hmem) f hf md res.metadata hreq.2 hmd' hcall).symm

theorem oneCall_ownIds : OwnIds oneCall := by
  simp [OwnIds, oneCall, systemMessage, userMessage, callTool, toolOutput, Calls, respondWith]

/-- The result of the first response was condensed away; the second has the same call id. -/
def staleRequest : List Event :=
  [systemMessage, userMessage, callTool 2 (respondWith "Look" "r1" "toolu_01") "toolu_01",
    callTool 4 (respondWith "Delete" "r2" "toolu_01") "toolu_01",
    toolOutput 5 (respondWith "Delete" "r2" "toolu_01") "toolu_01" "deleted"]

end ConversationMemory

end OpenHands
