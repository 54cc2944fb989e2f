import OpenHandsSWE.Memory.ToolBlocks

/-! The loop over the events: which blocks it can emit, and from which observations. -/

namespace OpenHands

namespace ConversationMemory

/-! ## Emitting -/

/-- `tools` are results of the map for these calls. -/
def TakenFrom (results : List (String × ToolResult)) (calls : List ToolCall) (tools : List Message) :
    Prop :=
  List.Forall₂ (fun tc t => ∃ id r, tc.id = some id ∧ Assoc.get? id results = some r ∧
    t = ToolResult.message r) calls tools

/-- Nothing but removals. -/
def Fewer (results' results : List (String × ToolResult)) : Prop :=
  ∀ id r, Assoc.get? id results' = some r → Assoc.get? id results = some r

theorem TakenFrom.mono {results results' : List (String × ToolResult)} (h : Fewer results' results)
    {calls : List ToolCall} {tools : List Message} (ht : TakenFrom results' calls tools) :
    TakenFrom results calls tools := by
  refine List.Forall₂.imp (fun tc t => ?_) ht
  rintro ⟨id, r, hid, hr, rfl⟩
  exact ⟨id, r, hid, h id r hr, rfl⟩

theorem takeResults_spec {calls : List ToolCall} {results results' : List (String × ToolResult)}
    {tools : List Message} (h : takeResults calls results = .ok (tools, results')) :
    TakenFrom results calls tools ∧ Fewer results' results := by
  induction calls generalizing results tools results' with
  | nil =>
    cases h
    exact ⟨.nil, fun _ _ h => h⟩
  | cons tc calls ih =>
    rw [takeResults] at h
    split at h
    · cases h
    · rename_i id r hr
      obtain ⟨p, hp, hpair⟩ := Py.map_ok h
      obtain ⟨htaken, hfewer⟩ := ih hp
      have herase : Fewer (Assoc.erase id results) results := fun _ _ => Assoc.get?_of_get?_erase
      obtain ⟨i, hi, hmap⟩ := Option.bind_eq_some_iff.mp hr
      obtain ⟨_, hget, heq⟩ := Option.map_eq_some_iff.mp hmap
      cases heq
      cases hpair
      exact ⟨.cons ⟨_, r, hi, hget, rfl⟩ (htaken.mono herase),
        fun k v hk => herase k v (hfewer k v hk)⟩

/-- What is emitted are requests with results of the map; nothing is added to either map. -/
theorem sweep_spec {block : Message → List Message → Prop}
    {pending pending' : List (String × ModelResponse)}
    {results results' : List (String × ToolResult)} {out : List Message}
    (h : sweep pending results = .ok (out, results', pending'))
    (hblock : ∀ rid r, (rid, r) ∈ pending → ∀ calls tools, r.message.toolCalls = some calls →
      calls ≠ [] → TakenFrom results calls tools → block (assistantMessage r) tools) :
    InBlocks block out ∧ Fewer results' results ∧ pending' ⊆ pending := by
  induction pending generalizing results out results' pending' with
  | nil =>
    cases h
    exact ⟨.nil, fun _ _ h => h, List.Subset.refl _⟩
  | cons request pending ih =>
    obtain ⟨responseId, r⟩ := request
    have hrest : ∀ rid q, (rid, q) ∈ pending → ∀ calls tools, q.message.toolCalls = some calls →
        calls ≠ [] → TakenFrom results calls tools → block (assistantMessage q) tools :=
      fun rid q hq => hblock rid q (List.mem_cons_of_mem _ hq)
    rw [sweep] at h
    split at h
    · cases h
    · rename_i calls hcalls
      split_ifs at h with hall
      · obtain ⟨⟨tools, results₁⟩, htake, h⟩ := Py.bind_ok h
        obtain ⟨q, hq, heq⟩ := Py.map_ok h
        obtain ⟨htaken, hfewer⟩ := takeResults_spec htake
        obtain ⟨hout, hfewer', hsub⟩ := ih hq fun rid q hq calls tools hc hne ht =>
          hrest rid q hq calls tools hc hne (ht.mono hfewer)
        cases heq
        refine ⟨?_, fun id v hv => hfewer id v (hfewer' id v hv),
          List.Subset.trans hsub (List.subset_cons_self ..)⟩
        by_cases hne : calls = []
        · -- no calls: the message stands alone
          subst hne
          cases htaken
          refine .plain ⟨?_, fun _ => ?_⟩ hout
          · simp [assistantMessage, r.message.isAssistant]
          · rw [assistantMessage, hcalls, Option.getD_some]
        · exact .request (hblock responseId r (List.mem_cons_self ..) calls tools hcalls hne htaken) hout
      · obtain ⟨q, hq, heq⟩ := Py.map_ok h
        obtain ⟨hout, hfewer, hsub⟩ := ih hq hrest
        cases heq
        exact ⟨hout, hfewer, List.cons_subset_cons _ hsub⟩

/-! ## One event -/

variable (config : AgentConfig) (renderer : Renderer) (maxMessageChars : Option Int)
  (visionIsActive : Bool)

/-- The event is an action that waits for the results of its response. -/
def Requests (e : Event) (md : ToolCallMetadata) : Prop :=
  (∃ a, e.body = .action a ∧ isToolAction e.source a = true) ∧ e.toolCallMetadata = some md

/-- The event is an observation whose content is kept as the result of a tool call. -/
def Records (earlier : List Event) (e : Event) (md : ToolCallMetadata) (content : List Content) :
    Prop :=
  (∃ o, e.body = .observation o ∧ renderObservation config renderer o (some md) maxMessageChars
    visionIsActive earlier = .ok (.content content)) ∧ e.toolCallMetadata = some md

variable {config renderer maxMessageChars visionIsActive}

theorem actionMessages_plain {e : Event} {a : Action} {m : Message}
    (h : m ∈ actionMessages e a visionIsActive) : Plain m := by
  have hrole : sourceRole e.source ≠ .tool := by
    unfold sourceRole
    split_ifs <;> decide
  unfold actionMessages at h
  split at h
  · rw [List.mem_singleton.mp h]
    exact ⟨hrole, fun _ => rfl⟩
  · rw [List.mem_singleton.mp h]
    exact ⟨hrole, fun _ => rfl⟩
  · split_ifs at h
    · rw [List.mem_singleton.mp h]
      exact ⟨by simp, fun _ => rfl⟩
    · simp at h
  · rw [List.mem_singleton.mp h]
    exact ⟨by simp, fun _ => rfl⟩
  · simp at h

theorem plain_of_user {m : Message} (h : m.role = .user ∧ m.toolCalls = none) : Plain m :=
  ⟨by rw [h.1]; decide, fun _ => by rw [h.2]; rfl⟩

/-- An event adds a request, keeps a result, or neither; what it gives at once is plain. -/
theorem processOne_cases {earlier : List Event} {st st' : LoopState} {e : Event}
    {toAdd : List Message}
    (h : processOne config renderer maxMessageChars visionIsActive earlier st e = .ok (toAdd, st')) :
    (∀ m ∈ toAdd, Plain m) ∧ st'.messages = st.messages ∧
      ((∃ md, Requests e md ∧ st'.results = st.results ∧
          st'.pending = Assoc.set md.modelResponse.id md.modelResponse st.pending) ∨
        (∃ md content, Records config renderer maxMessageChars visionIsActive earlier e md content ∧
          st'.pending = st.pending ∧ st'.results = Assoc.set md.toolCallId ⟨md, content⟩ st.results) ∨
        (st'.pending = st.pending ∧ st'.results = st.results)) := by
  unfold processOne at h
  split at h
  · rename_i a ha
    obtain ⟨p, hp, heq⟩ := Py.map_ok h
    cases heq
    unfold processAction at hp
    by_cases htool : isToolAction e.source a = true
    · rw [if_pos htool] at hp
      split at hp
      · split_ifs at hp with hsource
        cases hp
        refine ⟨fun m hm => ?_, rfl, .inr (.inr ⟨rfl, rfl⟩)⟩
        rw [List.mem_singleton.mp hm]
        exact ⟨by simp, fun _ => rfl⟩
      · rename_i md hmd
        cases hp
        exact ⟨by simp, rfl, .inl ⟨md, ⟨⟨a, ha, htool⟩, hmd⟩, rfl, rfl⟩⟩
    · rw [if_neg htool] at hp
      cases hp
      exact ⟨fun m hm => actionMessages_plain hm, rfl, .inr (.inr ⟨rfl, rfl⟩)⟩
  · rename_i o ho
    obtain ⟨p, hp, heq⟩ := Py.map_ok h
    cases heq
    unfold processObservation at hp
    split at hp
    · cases hp
    · rename_i messages hrender
      cases hp
      exact ⟨fun m hm => plain_of_user (renderObservation_done config renderer hrender hm), rfl,
        .inr (.inr ⟨rfl, rfl⟩)⟩
    · rename_i content hrender
      split at hp
      · cases hp
        refine ⟨fun m hm => ?_, rfl, .inr (.inr ⟨rfl, rfl⟩)⟩
        rw [List.mem_singleton.mp hm]
        exact ⟨by simp, fun _ => rfl⟩
      · rename_i md hmd
        cases hp
        rw [hmd] at hrender
        exact ⟨by simp, rfl, .inr (.inl ⟨md, content, ⟨⟨o, ho, hrender⟩, hmd⟩, rfl, rfl⟩)⟩
  · cases h

/-! ## The whole loop -/

theorem runEvents_append (earlier xs ys : List Event) (st : LoopState) :
    runEvents config renderer maxMessageChars visionIsActive earlier (xs ++ ys) st =
      (runEvents config renderer maxMessageChars visionIsActive earlier xs st).bind
        (runEvents config renderer maxMessageChars visionIsActive (earlier ++ xs) ys) := by
  induction xs generalizing earlier st with
  | nil => simp [runEvents, Except.bind]
  | cons x xs ih =>
    rw [List.cons_append, runEvents, runEvents]
    cases processEvent config renderer maxMessageChars visionIsActive earlier st x with
    | error e => rfl
    | ok st' =>
      have hassoc : earlier ++ x :: xs = earlier ++ [x] ++ xs := by simp
      rw [hassoc]
      exact ih (earlier ++ [x]) st'

variable (config renderer maxMessageChars visionIsActive)

/-- The state after these events. -/
def Reaches (earlier : List Event) (st : LoopState) : Prop :=
  runEvents config renderer maxMessageChars visionIsActive [] earlier {} = .ok st

/-- What the two maps have to satisfy for every emission to be a `block`: it survives removals and
each event of the list. -/
structure LoopInvariant (block : Message → List Message → Prop) (events : List Event)
    (I : List (String × ModelResponse) → List (String × ToolResult) → Prop) : Prop where
  start : I [] []
  block_of : ∀ {pending results}, I pending results → ∀ rid r, (rid, r) ∈ pending →
    ∀ calls tools, r.message.toolCalls = some calls → calls ≠ [] → TakenFrom results calls tools →
      block (assistantMessage r) tools
  fewer : ∀ {pending pending' results results'}, I pending results → pending' ⊆ pending →
    Fewer results' results → I pending' results'
  request : ∀ {earlier e later st md}, events = earlier ++ e :: later →
    Reaches config renderer maxMessageChars visionIsActive earlier st → Requests e md →
    I st.pending st.results →
      I (Assoc.set md.modelResponse.id md.modelResponse st.pending) st.results
  record : ∀ {earlier e later st md content}, events = earlier ++ e :: later →
    Reaches config renderer maxMessageChars visionIsActive earlier st →
    Records config renderer maxMessageChars visionIsActive earlier e md content →
    I st.pending st.results → I st.pending (Assoc.set md.toolCallId ⟨md, content⟩ st.results)

variable {config renderer maxMessageChars visionIsActive}

theorem LoopInvariant.step {block : Message → List Message → Prop} {events : List Event}
    {I : List (String × ModelResponse) → List (String × ToolResult) → Prop}
    (hI : LoopInvariant config renderer maxMessageChars visionIsActive block events I)
    {earlier later : List Event} {e : Event} (hevents : events = earlier ++ e :: later)
    {st st' : LoopState} (hreach : Reaches config renderer maxMessageChars visionIsActive earlier st)
    (h : processEvent config renderer maxMessageChars visionIsActive earlier st e = .ok st')
    (hblocks : InBlocks block st.messages) (hst : I st.pending st.results) :
    InBlocks block st'.messages ∧ I st'.pending st'.results := by
  obtain ⟨⟨toAdd, st₁⟩, hone, h⟩ := Py.bind_ok h
  obtain ⟨⟨out, results', pending'⟩, hsweep, heq⟩ := Py.map_ok h
  obtain ⟨hplain, hmessages, hcases⟩ := processOne_cases hone
  have hst₁ : I st₁.pending st₁.results := by
    rcases hcases with ⟨md, hreq, hr, hp⟩ | ⟨md, content, hrec, hp, hr⟩ | ⟨hp, hr⟩
    · rw [hp, hr]
      exact hI.request hevents hreach hreq hst
    · rw [hp, hr]
      exact hI.record hevents hreach hrec hst
    · rw [hp, hr]
      exact hst
  obtain ⟨hout, hfewer, hsub⟩ := sweep_spec hsweep (hI.block_of hst₁)
  cases heq
  exact ⟨hblocks.append ((InBlocks.of_plain hplain).append hout), hI.fewer hst₁ hsub hfewer⟩

theorem LoopInvariant.run {block : Message → List Message → Prop} {events : List Event}
    {I : List (String × ModelResponse) → List (String × ToolResult) → Prop}
    (hI : LoopInvariant config renderer maxMessageChars visionIsActive block events I)
    {earlier later rest : List Event} (hevents : events = earlier ++ (later ++ rest))
    {st st' : LoopState}
    (hreach : Reaches config renderer maxMessageChars visionIsActive earlier st)
    (hblocks : InBlocks block st.messages) (hst : I st.pending st.results)
    (h : runEvents config renderer maxMessageChars visionIsActive earlier later st = .ok st') :
    InBlocks block st'.messages ∧ I st'.pending st'.results := by
  induction later generalizing earlier st with
  | nil =>
    cases h
    exact ⟨hblocks, hst⟩
  | cons e later ih =>
    obtain ⟨st₁, hstep, hrest⟩ := Py.bind_ok h
    have hsplit : events = earlier ++ e :: (later ++ rest) := hevents
    obtain ⟨hblocks₁, hst₁⟩ := hI.step hsplit hreach hstep hblocks hst
    have hreach₁ : Reaches config renderer maxMessageChars visionIsActive (earlier ++ [e]) st₁ := by
      have hone : runEvents config renderer maxMessageChars visionIsActive earlier [e] st = .ok st₁ := by
        rw [runEvents, hstep]
        rfl
      rw [Reaches, runEvents_append, hreach]
      exact hone
    exact ih (by simpa using hevents) hreach₁ hblocks₁ hst₁ hrest

theorem LoopInvariant.reaches {block : Message → List Message → Prop} {events : List Event}
    {I : List (String × ModelResponse) → List (String × ToolResult) → Prop}
    (hI : LoopInvariant config renderer maxMessageChars visionIsActive block events I)
    {earlier later : List Event} (hevents : events = earlier ++ later) {st : LoopState}
    (hreach : Reaches config renderer maxMessageChars visionIsActive earlier st) :
    InBlocks block st.messages ∧ I st.pending st.results := by
  have hstart : Reaches config renderer maxMessageChars visionIsActive [] {} := rfl
  have hsplit : events = [] ++ (earlier ++ later) := hevents
  exact hI.run hsplit hstart .nil hI.start hreach

/-- Blocks with ids come out of the loop and stay through the final passes. -/
theorem LoopInvariant.processEvents {block : Message → List Message → Prop} {history : List Event}
    {initialUserAction : MessageEvent} {msgs : List Message}
    {I : List (String × ModelResponse) → List (String × ToolResult) → Prop}
    (hI : LoopInvariant config renderer maxMessageChars visionIsActive block
      (prepareEvents config renderer history initialUserAction) I)
    (hblock : ∀ m tools, block m tools → IdentifiedBlock m tools)
    (h : processEvents config renderer history initialUserAction maxMessageChars visionIsActive =
      .ok msgs) : InBlocks block msgs := by
  obtain ⟨st, hrun, rfl⟩ := Py.map_ok h
  obtain ⟨hblocks, _⟩ := hI.reaches (List.append_nil _).symm hrun
  rw [filterUnmatchedToolCalls_blocks (hblocks.mono hblock)]
  exact applyUserMessageFormatting_blocks (fun m tools hm => (hblock m tools hm).1) none hblocks

end ConversationMemory

end OpenHands
