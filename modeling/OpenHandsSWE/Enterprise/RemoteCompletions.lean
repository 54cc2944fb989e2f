import Mathlib.Logic.Function.Basic
import OpenHandsSWE.Lib.Assoc
import OpenHandsSWE.Lib.Json
import OpenHandsSWE.Lib.Parties

/-! LLM completions across a cluster: a node that does not run the conversation asks the others over
Redis, and waits for an answer with the id of its query. -/

namespace OpenHands.RemoteCompletions

/-- An argument in Python: a value that `json.dumps` takes, or an object that it refuses. -/
inductive PyArg (Config : Type) where
  | json (j : Json)
  | object (c : Config)

/-- A message as `json.loads` gives it. -/
abbrev Data := List (String × Json)

inductive Outcome where
  | returned (text : String)
  | raised
deriving DecidableEq, Repr

/-- A `request_llm_completion`, and what each node's registry had to say to it at that moment: nothing
where the conversation does not run, no text where the registry raises. -/
structure Call where
  node : Nat
  outcome : Option Outcome
  answers : Nat → Option (Option String)

/-- A call ends once. -/
def Call.finish (call : Call) (outcome : Outcome) : Call :=
  if call.outcome.isNone then { call with outcome := some outcome } else call

structure State (Registry : Type) where
  sessions : Nat → String → Option Registry := fun _ _ => none
  inbox : Nat → List Data := fun _ => []
  calls : List Call := []

inductive Step (Registry Config : Type) where
  | openSession (node : Nat) (sid : String) (registry : Registry)
  | closeSession (node : Nat) (sid : String)
  | request (node : Nat) (sid serviceId : String) (llmConfig : PyArg Config) (messages : Json)
  | deliver (node k : Nat)
  | timeout (queryId : Nat)

section
variable {Registry Config : Type}

/-- `json.dumps`, which raises a `TypeError` for an object. -/
def dumps : List (String × PyArg Config) → Option Data
  | [] => some []
  | (key, .json j) :: kvs => (dumps kvs).map ((key, j) :: ·)
  | (_, .object _) :: _ => none

def State.setSession (s : State Registry) (node : Nat) (sid : String) (registry : Option Registry) : State Registry :=
  { s with sessions := Function.update s.sessions node (Function.update (s.sessions node) sid registry) }

def publish (s : State Registry) (data : Data) : State Registry := { s with inbox := fun n => s.inbox n ++ [data] }

def finish (s : State Registry) (queryId : Nat) (outcome : Outcome) : State Registry :=
  { s with calls := s.calls.modify queryId fun call => call.finish outcome }

/-- `query_id` is a `uuid4`: no other query has it. -/
def llmCompletion (queryId : Nat) (sid serviceId : String) (llmConfig : PyArg Config) (messages : Json) :
    List (String × PyArg Config) :=
  [("message_type", .json (.str "llm_completion")), ("query_id", .json (.int queryId)), ("sid", .json (.str sid)),
    ("service_id", .json (.str serviceId)), ("llm_config", llmConfig), ("message", .json messages)]

def llmCompletionResponse (queryId : Json) (response : String) : Data :=
  [("query_id", queryId), ("response", .str response), ("message_type", .str "llm_completion_response")]

variable (complete : Registry → Json → PyArg Config → Json → Registry × Option String)

/-- What `complete` gives is the registry afterwards, with the text of `request_extraneous_completion`
or nothing when that raises. -/
def requestLlmCompletion (s : State Registry) (node : Nat) (sid serviceId : String) (llmConfig : PyArg Config)
    (messages : Json) : State Registry :=
  let answers := fun n => (s.sessions n sid).map fun registry => (complete registry (.str serviceId) llmConfig messages).2
  match s.sessions node sid with
  | some registry =>
    let answer := complete registry (.str serviceId) llmConfig messages
    let outcome := answer.2.elim Outcome.raised .returned
    { s.setSession node sid (some answer.1) with calls := s.calls ++ [⟨node, some outcome, answers⟩] }
  | none =>
    match dumps (llmCompletion s.calls.length sid serviceId llmConfig messages) with
    | some data => { publish s data with calls := s.calls ++ [⟨node, none, answers⟩] }
    | none => { s with calls := s.calls ++ [⟨node, some .raised, answers⟩] }

/-- A session of the node answers a query; a missing key ends the processing of the message. -/
def processLlmCompletion (s : State Registry) (node : Nat) (data : Data) : State Registry :=
  match Assoc.get? "sid" data, Assoc.get? "service_id" data, Assoc.get? "messages" data,
      Assoc.get? "llm_config" data, Assoc.get? "query_id" data with
  | some (.str sid), some serviceId, some messages, some llmConfig, some queryId =>
    match s.sessions node sid with
    | some registry =>
      let answer := complete registry serviceId (.json llmConfig) messages
      let asked := s.setSession node sid (some answer.1)
      match answer.2 with
      | some response => publish asked (llmCompletionResponse queryId response)
      | none => asked
    | none => s
  | _, _, _, _, _ => s

/-- An answer wakes the call that asked, and an empty one makes it raise. -/
def processLlmCompletionResponse (s : State Registry) (node : Nat) (data : Data) : State Registry :=
  match Assoc.get? "query_id" data, Assoc.get? "response" data with
  | some (.int queryId), some (.str response) =>
    match s.calls[queryId.toNat]? with
    | some call =>
      if call.node = node then
        finish s queryId.toNat (if response = "" then .raised else .returned response)
      else s
    | none => s
  | _, _ => s

def processMessage (s : State Registry) (node : Nat) (data : Data) : State Registry :=
  match Assoc.get? "message_type" data with
  | some (.str "llm_completion") => processLlmCompletion complete s node data
  | some (.str "llm_completion_response") => processLlmCompletionResponse s node data
  | _ => s

def step (s : State Registry) : Step Registry Config → State Registry
  | .openSession node sid registry => s.setSession node sid (some registry)
  | .closeSession node sid => s.setSession node sid none
  | .request node sid serviceId llmConfig messages =>
    requestLlmCompletion complete s node sid serviceId llmConfig messages
  | .deliver node k =>
    match (s.inbox node)[k]? with
    | some data =>
      processMessage complete
        { s with inbox := Function.update s.inbox node ((s.inbox node).eraseIdx k) } node data
    | none => s
  | .timeout queryId => finish s queryId .raised

end

/-- The call ended the way that a node which runs the conversation answers it. -/
def Call.AsLocal (call : Call) : Prop :=
  match call.outcome with
  | some (.returned text) => ∃ n, call.answers n = some (some text)
  | some .raised => (∀ n, call.answers n = none) ∨ ∃ n, call.answers n = some none
  | none => True

/-- The node itself runs the conversation. -/
def Call.Local (call : Call) : Prop := (call.answers call.node).isSome

/-- No node runs the conversation, or one whose registry raises. -/
def Call.Unanswerable (call : Call) : Prop :=
  (∀ n, call.answers n = none) ∨ ∃ n, call.answers n = some none

section Runs
variable {Registry Config : Type} {s : State Registry}

/-- A query as it travels: without the messages under the key that the other end reads. -/
def Query (data : Data) : Prop :=
  Assoc.get? "message_type" data = some (.str "llm_completion") ∧ Assoc.get? "messages" data = none

/-- Nothing but queries is under way, a local call has its registry's answer, and no other has any. -/
structure Sound (s : State Registry) : Prop where
  queries : ∀ n, ∀ data ∈ s.inbox n, Query data
  local_ : ∀ call ∈ s.calls, ∀ answer, call.answers call.node = some answer →
    call.outcome = some (answer.elim .raised .returned)
  remote : ∀ call ∈ s.calls, call.answers call.node = none → call.outcome = none ∨ call.outcome = some .raised

theorem query_of_dumps {queryId : Nat} {sid serviceId : String} {llmConfig : PyArg Config} {messages : Json}
    {data : Data} (h : dumps (llmCompletion queryId sid serviceId llmConfig messages) = some data) : Query data := by
  cases llmConfig with
  | json j =>
    simp only [llmCompletion, dumps, Option.map_some] at h
    obtain rfl := Option.some.inj h
    exact ⟨rfl, rfl⟩
  | object c =>
    simp only [llmCompletion, dumps, Option.map_none] at h
    exact nomatch h

theorem sound_setSession (h : Sound s) (node : Nat) (sid : String) (registry : Option Registry) :
    Sound (s.setSession node sid registry) := ⟨h.queries, h.local_, h.remote⟩

theorem sound_publish (h : Sound s) {data : Data} (hdata : Query data) : Sound (publish s data) := by
  refine ⟨fun n other hother => ?_, h.local_, h.remote⟩
  rcases List.mem_append.mp hother with hother | hother
  · exact h.queries n other hother
  · rw [List.mem_singleton.mp hother]
    exact hdata

theorem sound_addCall (h : Sound s) {call : Call}
    (hlocal : ∀ answer, call.answers call.node = some answer → call.outcome = some (answer.elim .raised .returned))
    (hremote : call.answers call.node = none → call.outcome = none ∨ call.outcome = some .raised) :
    Sound { s with calls := s.calls ++ [call] } := by
  refine ⟨h.queries, fun other hother => ?_, fun other hother => ?_⟩
  · rcases List.mem_append.mp hother with hother | hother
    · exact h.local_ other hother
    · rw [List.mem_singleton.mp hother]
      exact hlocal
  · rcases List.mem_append.mp hother with hother | hother
    · exact h.remote other hother
    · rw [List.mem_singleton.mp hother]
      exact hremote

@[simp] theorem finish_answers (call : Call) (outcome : Outcome) : (call.finish outcome).answers = call.answers := by
  unfold Call.finish
  split_ifs <;> rfl

@[simp] theorem finish_node (call : Call) (outcome : Outcome) : (call.finish outcome).node = call.node := by
  unfold Call.finish
  split_ifs <;> rfl

theorem finish_outcome (call : Call) (outcome : Outcome) :
    (call.finish outcome).outcome = some (call.outcome.getD outcome) := by
  unfold Call.finish
  cases h : call.outcome with
  | none => rfl
  | some o => exact h

theorem sound_timeout (h : Sound s) (queryId : Nat) : Sound (finish s queryId .raised) := by
  refine ⟨h.queries, fun other hother answer hanswer => ?_, fun other hother hanswer => ?_⟩
  · rcases Parties.mem_modify hother with hother | ⟨call, hcall, rfl⟩
    · exact h.local_ other hother answer hanswer
    · rw [finish_answers, finish_node] at hanswer
      rw [finish_outcome, h.local_ call (List.mem_of_getElem? hcall) answer hanswer, Option.getD_some]
  · rcases Parties.mem_modify hother with hother | ⟨call, hcall, rfl⟩
    · exact h.remote other hother hanswer
    · rw [finish_answers, finish_node] at hanswer
      rw [finish_outcome]
      rcases h.remote call (List.mem_of_getElem? hcall) hanswer with hnone | hraised
      · exact Or.inr (by rw [hnone, Option.getD_none])
      · exact Or.inr (by rw [hraised, Option.getD_some])

variable (complete : Registry → Json → PyArg Config → Json → Registry × Option String)

theorem sound_request (h : Sound s) (node : Nat) (sid serviceId : String) (llmConfig : PyArg Config)
    (messages : Json) : Sound (requestLlmCompletion complete s node sid serviceId llmConfig messages) := by
  unfold requestLlmCompletion
  dsimp only
  split
  · next registry hsession =>
    apply sound_addCall (sound_setSession h ..)
    · intro answer hanswer
      simp only [hsession, Option.map_some] at hanswer
      rw [← Option.some.inj hanswer]
    · intro hanswer
      simp [hsession] at hanswer
  · next hsession =>
    have hremote : ∀ answer, ((s.sessions node sid).map fun registry =>
        (complete registry (.str serviceId) llmConfig messages).2) ≠ some answer := by
      intro answer
      rw [hsession]
      exact nofun
    split
    · next data hdumps =>
      exact sound_addCall (sound_publish h (query_of_dumps hdumps)) (fun answer hanswer => absurd hanswer (hremote answer))
        fun _ => Or.inl rfl
    · exact sound_addCall h (fun answer hanswer => absurd hanswer (hremote answer)) fun _ => Or.inr rfl

/-- A query that arrives is given up at the missing key. -/
theorem processMessage_query {data : Data} (h : Query data) (node : Nat) : processMessage complete s node data = s := by
  have htype : processMessage complete s node data = processLlmCompletion complete s node data := by
    unfold processMessage
    rw [h.1]
    rfl
  rw [htype]
  unfold processLlmCompletion
  split
  · next hmessages _ _ =>
    rw [h.2] at hmessages
    exact nomatch hmessages
  · rfl

theorem sound_step (h : Sound s) (t : Step Registry Config) : Sound (step complete s t) := by
  cases t with
  | openSession node sid registry => exact sound_setSession h node sid _
  | closeSession node sid => exact sound_setSession h node sid _
  | request node sid serviceId llmConfig messages => exact sound_request complete h node sid serviceId llmConfig messages
  | timeout queryId => exact sound_timeout h queryId
  | deliver node k =>
    simp only [step]
    split
    · next data hdata =>
      rw [processMessage_query complete (h.queries node data (List.mem_of_getElem? hdata))]
      refine ⟨fun n other hother => ?_, h.local_, h.remote⟩
      have hother : other ∈ Function.update s.inbox node ((s.inbox node).eraseIdx k) n := hother
      by_cases hn : n = node
      · rw [hn, Function.update_self] at hother
        exact h.queries node other (List.mem_of_mem_eraseIdx hother)
      · rw [Function.update_of_ne hn] at hother
        exact h.queries n other hother
    · exact h

theorem sound_run (steps : List (Step Registry Config)) : Sound (steps.foldl (step complete) {}) := by
  induction steps using List.reverseRecOn with
  | nil =>
    refine ⟨fun n data hdata => ?_, fun call hcall => ?_, fun call hcall => ?_⟩
    · exact nomatch hdata
    · exact nomatch hcall
    · exact nomatch hcall
  | append_singleton steps t ih =>
    rw [List.foldl_append]
    exact sound_step complete ih t

/-- In every run a call that has ended equals a local one exactly when it was one, or had no answer to get. -/
theorem asLocal_iff (steps : List (Step Registry Config)) (call : Call)
    (hcall : call ∈ (steps.foldl (step complete) {}).calls) (hdone : call.outcome ≠ none) :
    call.AsLocal ↔ call.Local ∨ call.Unanswerable := by
  have hsound := sound_run complete steps
  unfold Call.AsLocal Call.Local
  cases hanswer : call.answers call.node with
  | some answer =>
    rw [hsound.local_ call hcall answer hanswer]
    refine iff_of_true ?_ (Or.inl rfl)
    cases answer with
    | some text => exact ⟨call.node, hanswer⟩
    | none => exact Or.inr ⟨call.node, hanswer⟩
  | none =>
    have hraised := (hsound.remote call hcall hanswer).resolve_left hdone
    rw [hraised]
    simp [Call.Unanswerable]

end Runs

/-- One node runs the conversation, another asks it. -/
def askedRemotely : List (Step Unit Unit) :=
  [.openSession 1 "a" (), .request 0 "a" "s" (.object ()) (.arr []), .request 1 "a" "s" (.object ()) (.arr [])]

/-- A registry that always has an answer. -/
def greets : Unit → Json → PyArg Unit → Json → Unit × Option String := fun _ _ _ _ => ((), some "hi")

theorem askedOnSite_asLocal : ∃ call ∈ (askedRemotely.foldl (step greets) {}).calls, call.node = 1 ∧ call.AsLocal := by
  refine ⟨_, List.mem_cons_of_mem _ (List.mem_cons_self ..), rfl, ?_⟩
  refine (asLocal_iff greets askedRemotely _ (List.mem_cons_of_mem _ (List.mem_cons_self ..)) ?_).mpr (Or.inl rfl)
  exact nofun

theorem askedRemotely_raises : ∃ call ∈ (askedRemotely.foldl (step greets) {}).calls,
    call.answers 1 = some (some "hi") ∧ call.outcome = some .raised ∧ ¬ call.AsLocal := by
  refine ⟨_, List.mem_cons_self .., rfl, rfl, ?_⟩
  rintro (h | ⟨n, h⟩)
  · exact nomatch h 1
  · match n with
    | 0 => exact nomatch h
    | 1 => exact nomatch h
    | n + 2 => exact nomatch h

end OpenHands.RemoteCompletions
