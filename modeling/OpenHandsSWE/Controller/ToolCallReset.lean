import OpenHandsSWE.Controller.Effects

/-! What becomes of the pending action when the agent is stopped or goes to ERROR. -/

namespace OpenHands

open Program

def Event.isErrorObservation (e : Event) : Bool := e.body matches .observation (.error _)

/-- The event was read back from the dictionary of an observation with the metadata. -/
def CarriesMetadata (out : Outside) (secrets : List String) (m : ToolCallMetadata) (delivered : Event) : Prop :=
  ∃ e raw, e.isObservation = true ∧ e.toolCallMetadata = some m ∧ eventToDict out e = .ok raw ∧
    eventFromDict out (replaceSecrets secrets raw) = .ok delivered

/-- An observation of the history with these metadata, or with none. -/
def Answered (history : List Event) (m : Option ToolCallMetadata) : Prop :=
  ∃ e ∈ history, e.isObservation = true ∧ e.toolCallMetadata = m

instance (history : List Event) (m : Option ToolCallMetadata) : Decidable (Answered history m) :=
  inferInstanceAs (Decidable (∃ e ∈ history, _))

/-- A reset closes the tool call of the pending action and nothing else. -/
structure ClosesToolCall (out : Outside) (before after : Turn) : Prop where
  cleared : after.self.pending = none
  emits : ∃ emitted, after.desk.toController = before.desk.toController ++ emitted ∧
    ∀ k pending, before.current = some (k, pending) →
      (∀ m, pending.event.toolCallMetadata = some m → Answered before.self.state.history (some m) ∨
        ∃ d ∈ emitted, CarriesMetadata out (before.desk.stream.secrets.map Prod.snd) m d.event) ∧
      (∀ m, pending.event.toolCallMetadata = some m → (∃ d ∈ emitted, d.event.isErrorObservation = true) →
        ¬ Answered before.self.state.history (some m)) ∧
      (pending.event.toolCallMetadata = none → ∀ d ∈ emitted, d.event.isErrorObservation = false)

namespace Controller

variable (out : Outside) (clock : Int → String)

/-- The stream takes the observation that stands in for the result. -/
def TakesResult (stopped : Bool) (pending : Event) (s : EventStream) : Prop :=
  ∃ prepared, s.prepare out (notExecuted stopped pending) .agent (clock s.curId) = .ok prepared

/-- The history has an observation with the same metadata, or the pending action has metadata of its own. -/
def Closable (stopped : Bool) (t : Turn) : Prop :=
  ∀ k pending, t.current = some (k, pending) →
    Answered t.self.state.history pending.event.toolCallMetadata ∨
      (pending.event.toolCallMetadata ≠ none ∧ TakesResult out clock stopped pending.event t.desk.stream)

variable {out clock} {t : Turn}

/-! ## Adding an event -/

theorem result_atDesk (f : Turn → Except PyError Unit × Desk) (t : Turn) : result (atDesk f) t =
    (f t).1.mapError PyError.raised := by
  unfold atDesk
  rw [result_bind]
  show result _ t = _
  rw [result_bind]
  show result _ { t with desk := (f t).2 } = _
  cases (f t).1 <;> rfl

section Adding

variable {e : Event} {source : EventSource}

theorem addEvent_taken (hid : e.id = INVALID_ID) {data : Dict} {delivered : Event}
    (hprep : t.desk.stream.prepare out e source (clock t.desk.stream.curId) = .ok (data, delivered)) :
    result (addEvent out clock e source) t = .ok () ∧ (after (addEvent out clock e source) t).self = t.self ∧
      (after (addEvent out clock e source) t).desk.toController = t.desk.toController ++ [⟨delivered, none⟩] := by
  have hadd : t.desk.add out clock 0 none e source = (.ok (), { t.desk with
      stream := t.desk.stream.added out e source (clock t.desk.stream.curId)
      toController := Desk.arrive 0 ⟨delivered, none⟩ t.desk.toController
      toRuntime := Desk.arrive 0 ⟨delivered, none⟩ t.desk.toRuntime }) := by
    rw [Desk.add, if_neg (not_not.mpr hid)]
    dsimp only
    rw [hprep]
  have harrive : Desk.arrive 0 ⟨delivered, none⟩ t.desk.toController = t.desk.toController ++ [⟨delivered, none⟩] :=
    List.insertIdx_length_self
  rw [addEvent, result_atDesk, after_atDesk, hadd]
  exact ⟨rfl, rfl, harrive⟩

theorem addEvent_refused (hid : e.id = INVALID_ID) {err : PyError}
    (hprep : t.desk.stream.prepare out e source (clock t.desk.stream.curId) = .error err) :
    result (addEvent out clock e source) t = .error err.raised ∧ (after (addEvent out clock e source) t).self = t.self ∧
      (after (addEvent out clock e source) t).desk.toController = t.desk.toController := by
  have hadd : t.desk.add out clock 0 none e source = (.error err, { t.desk with
      stream := t.desk.stream.added out e source (clock t.desk.stream.curId) }) := by
    rw [Desk.add, if_neg (not_not.mpr hid)]
    dsimp only
    rw [hprep]
  rw [addEvent, result_atDesk, after_atDesk, hadd]
  exact ⟨rfl, rfl, rfl⟩

variable (clock source) in
/-- At most one copy of the event reaches the subscriber. -/
theorem addEvent_emits (t : Turn) (hid : e.id = INVALID_ID) : (after (addEvent out clock e source) t).self = t.self ∧
    ∃ emitted, (after (addEvent out clock e source) t).desk.toController = t.desk.toController ++ emitted ∧
      ∀ d ∈ emitted, Copy out (t.desk.stream.secrets.map Prod.snd) e.body d.event := by
  cases hprep : t.desk.stream.prepare out e source (clock t.desk.stream.curId) with
  | error err =>
    obtain ⟨-, hself, hpool⟩ := addEvent_refused hid hprep
    exact ⟨hself, [], by rw [hpool, List.append_nil], List.forall_mem_nil _⟩
  | ok prepared =>
    obtain ⟨data, delivered⟩ := prepared
    obtain ⟨-, hself, hpool⟩ := addEvent_taken hid hprep
    obtain ⟨raw, hraw, rfl, hread⟩ := EventStream.prepare_ok hprep
    refine ⟨hself, [⟨delivered, none⟩], hpool, List.forall_mem_singleton.mpr ?_⟩
    exact ⟨EventStream.stamp e source (clock t.desk.stream.curId) t.desk.stream.curId, raw, rfl, hraw, hread⟩

end Adding

/-! ## The reset -/

/-- The turn once the pending action is dropped. -/
def dropped (t : Turn) : Turn :=
  { t with self := { t.self with pending := none }, desk := t.desk.note t.isDelegate .reset }

theorem answered_iff (history : List Event) (m : Option ToolCallMetadata) : Answered history m ↔
    (history.any fun e => e.isObservation && decide (e.toolCallMetadata = m)) = true := by
  rw [Answered, List.any_eq_true]
  simp only [Bool.and_eq_true, decide_eq_true_eq]

variable (out clock) in
/-- The first half of the reset. -/
def answerPending : Ctl Unit :=
  withPending fun _ o => do
    let t ← get
    provided ((t.self.state.history.any fun e =>
        e.isObservation && decide (e.toolCallMetadata = o.event.toolCallMetadata)) = false)
      (addEvent out clock (notExecuted (t.self.agentState = .known .stopped) o.event) .agent)

theorem reset_eq : reset out clock = (do answerPending out clock; modify dropped) := rfl

theorem withPending_some {f : Nat → Obj → Ctl Unit} {k : Nat} {o : Obj} (h : t.current = some (k, o)) :
    (withPending f).run.run t = (f k o).run.run t := by
  rw [withPending, run_get_bind, h]

theorem withPending_none {f : Nat → Obj → Ctl Unit} (h : t.current = none) :
    (withPending f).run.run t = (.ok (), t) := by
  rw [withPending, run_get_bind, h]
  rfl

/-- Where nothing is pending or it is answered, nothing is sent. -/
theorem answerPending_quiet (out : Outside) (clock : Int → String) (h : ∀ k pending, t.current = some (k, pending) →
    Answered t.self.state.history pending.event.toolCallMetadata) :
    result (answerPending out clock) t = .ok () ∧ after (answerPending out clock) t = t := by
  have hrun : (answerPending out clock).run.run t = (.ok (), t) := by
    cases hcurrent : t.current with
    | none => exact withPending_none hcurrent
    | some entry =>
      obtain ⟨k, o⟩ := entry
      have hany := (answered_iff _ _).mp (h k o hcurrent)
      rw [answerPending, withPending_some hcurrent, run_get_bind, provided, if_neg (by rw [hany]; decide)]
      rfl
  unfold result after
  rw [hrun]
  exact ⟨rfl, rfl⟩

theorem answerPending_sends (out : Outside) (clock : Int → String) {k : Nat} {o : Obj} (hcurrent : t.current = some (k, o))
    (hunanswered : ¬ Answered t.self.state.history o.event.toolCallMetadata) :
    (answerPending out clock).run.run t =
      (addEvent out clock (notExecuted (t.self.agentState = .known .stopped) o.event) .agent).run.run t := by
  have hany := mt (answered_iff _ _).mpr hunanswered
  rw [answerPending, withPending_some hcurrent, run_get_bind, provided, if_pos (Bool.eq_false_iff.mpr hany)]

/-! ## The change of the state -/

/-- The turn with the new state. -/
def entered (new : AgentState) (t : Turn) : Turn := { t with self := { t.self with agentState := .known new } }

/-- The observation that tells of the new state. -/
def announcement (new : AgentState) (lastError : String) : AgentStateChangedObservation where
  content := ""
  agentState := (Unchecked.known new).toText AgentState.value
  reason := if Unchecked.known new = .known .error then lastError else ""

variable (out clock) in
/-- What follows the reset. -/
def announce (new : AgentState) : Ctl Unit := do
  let t ← get
  addEvent out clock (observation (.agentStateChanged (announcement new t.self.state.lastError))) .environment

theorem setAgentStateTo_eq {new : AgentState} (hnew : new = .stopped ∨ new = .error)
    (hold : t.self.agentState ≠ .known new) :
    (setAgentStateTo out clock (.known new)).run.run t =
      (do reset out clock; announce out clock new : Ctl Unit).run.run (entered new t) := by
  rw [setAgentStateTo, run_get_bind, if_neg hold.symm]
  rcases hnew with rfl | rfl
  · simp only [provided, Unchecked.known.injEq, reduceCtorEq, and_false, or_false, if_true, if_false, pure_bind]
    rfl
  · simp only [provided, Unchecked.known.injEq, reduceCtorEq, and_false, false_or, if_true, if_false, pure_bind]
    rfl

theorem agentStateChanged_copy {o : AgentStateChangedObservation} {secrets : List String} {delivered : Event}
    (h : Copy out secrets (.observation (.agentStateChanged o)) delivered) : delivered.isErrorObservation = false := by
  obtain ⟨content, extras, o', ho', hbody⟩ := h.observation_construct
  have hcls : (Observation.agentStateChanged o).cls = .agentStateChanged := rfl
  rw [hcls] at ho'
  obtain ⟨_, -, ho'⟩ := Py.bind_ok ho'
  obtain ⟨state, -, ho'⟩ := Py.bind_ok ho'
  obtain ⟨reason, -, ho'⟩ := Py.bind_ok ho'
  cases ho'
  rw [Event.isErrorObservation, hbody]

theorem error_copy {o : ErrorObservation} {secrets : List String} {delivered : Event}
    (h : Copy out secrets (.observation (.error o)) delivered) : delivered.isErrorObservation = true := by
  obtain ⟨content, extras, o', ho', hbody⟩ := h.observation_construct
  have hcls : (Observation.error o).cls = .error := rfl
  rw [hcls] at ho'
  obtain ⟨_, -, ho'⟩ := Py.bind_ok ho'
  obtain ⟨errorId, -, ho'⟩ := Py.bind_ok ho'
  cases ho'
  rw [Event.isErrorObservation, hbody]

theorem announce_emits (out : Outside) (clock : Int → String) (new : AgentState) (t : Turn) : (after (announce out clock new) t).self = t.self ∧
    ∃ emitted, (after (announce out clock new) t).desk.toController = t.desk.toController ++ emitted ∧
      ∀ d ∈ emitted, d.event.isErrorObservation = false := by
  have hrun : after (announce out clock new) t =
      after (addEvent out clock (observation (.agentStateChanged (announcement new t.self.state.lastError))) .environment) t := by
    unfold after
    rw [announce, run_get_bind]
  have hid : (observation (.agentStateChanged (announcement new t.self.state.lastError))).id = INVALID_ID := rfl
  obtain ⟨hself, emitted, hpool, hcopies⟩ := addEvent_emits clock .environment t hid
  rw [hrun]
  exact ⟨hself, emitted, hpool, fun d hd => agentStateChanged_copy (hcopies d hd)⟩

/-- A reset that does not get past the pending action leaves it there. -/
theorem after_setAgentStateTo (out : Outside) (clock : Int → String) {new : AgentState} (hnew : new = .stopped ∨ new = .error)
    (hold : t.self.agentState ≠ .known new) :
    after (setAgentStateTo out clock (.known new)) t =
      match result (answerPending out clock) (entered new t) with
      | .ok () => after (announce out clock new) (dropped (after (answerPending out clock) (entered new t)))
      | .error _ => after (answerPending out clock) (entered new t) := by
  have hrun : after (setAgentStateTo out clock (.known new)) t =
      after (do reset out clock; announce out clock new) (entered new t) := by
    unfold after
    rw [setAgentStateTo_eq hnew hold]
  rw [hrun, after_bind, reset_eq, result_bind, after_bind]
  cases result (answerPending out clock) (entered new t) <;> rfl

/-- The reset does what it is for exactly when the action is answered or has metadata to answer it by. -/
theorem closesToolCall_iff (out : Outside) (clock : Int → String) {new : AgentState}
    (hnew : new = .stopped ∨ new = .error) (t : Turn) (hold : t.self.agentState ≠ .known new) :
    ClosesToolCall out t (after (setAgentStateTo out clock (.known new)) t) ↔
      Closable out clock (decide (new = .stopped)) t := by
  have hstopped : decide ((entered new t).self.agentState = .known .stopped) = decide (new = .stopped) := by
    rw [decide_eq_decide]
    exact ⟨Unchecked.known.inj, congrArg Unchecked.known⟩
  have hafter := after_setAgentStateTo out clock hnew hold
  by_cases hquiet : ∀ k pending, t.current = some (k, pending) →
      Answered t.self.state.history pending.event.toolCallMetadata
  · -- only the new state is announced
    obtain ⟨hresult, hstate⟩ := answerPending_quiet (t := entered new t) out clock hquiet
    rw [hresult, hstate] at hafter
    obtain ⟨hself, emitted, hpool, hplain⟩ := announce_emits out clock new (dropped (entered new t))
    refine iff_of_true ⟨?_, emitted, ?_, fun k pending hcurrent => ⟨?_, ?_, ?_⟩⟩ fun k pending hcurrent =>
      .inl (hquiet k pending hcurrent)
    · rw [hafter, hself]
      rfl
    · rw [hafter, hpool]
      rfl
    · exact fun m hm => .inl (hm ▸ hquiet k pending hcurrent)
    · rintro m hm ⟨d, hd, herror⟩
      exact absurd herror (by rw [hplain d hd]; decide)
    · exact fun _ => hplain
  · push Not at hquiet
    obtain ⟨k, pending, hcurrent, hunanswered⟩ := hquiet
    have hsent := answerPending_sends (t := entered new t) out clock hcurrent hunanswered
    rw [hstopped] at hsent
    cases hprep : t.desk.stream.prepare out (notExecuted (decide (new = .stopped)) pending.event) .agent
        (clock t.desk.stream.curId) with
    | error err =>
      -- the exception leaves the action pending
      obtain ⟨hresult, hself, -⟩ := addEvent_refused (t := entered new t) rfl hprep
      have hraised : result (answerPending out clock) (entered new t) = .error err.raised := by
        unfold result at hresult ⊢
        rw [hsent, hresult]
      have hkept : (after (answerPending out clock) (entered new t)).self.pending = t.self.pending := by
        unfold after at hself ⊢
        rw [hsent, hself]
        rfl
      rw [hraised] at hafter
      refine iff_of_false (fun h => ?_) fun h => ?_
      · have hcleared := h.cleared
        rw [hafter] at hcleared
        dsimp only at hcleared
        rw [hkept, (current_eq_some hcurrent).1] at hcleared
        cases hcleared
      · rcases h k pending hcurrent with h | ⟨-, prepared, h⟩
        · exact hunanswered h
        · rw [hprep] at h
          cases h
    | ok prepared =>
      obtain ⟨data, delivered⟩ := prepared
      obtain ⟨hresult, hself, hpool⟩ := addEvent_taken (t := entered new t) rfl hprep
      have hreturned : result (answerPending out clock) (entered new t) = .ok () := by
        unfold result at hresult ⊢
        rw [hsent, hresult]
      have hgrown : (after (answerPending out clock) (entered new t)).desk.toController =
          t.desk.toController ++ [⟨delivered, none⟩] := by
        unfold after at hpool ⊢
        rw [hsent, hpool]
        rfl
      rw [hreturned] at hafter
      obtain ⟨hself', emitted, hpool', hplain⟩ :=
        announce_emits out clock new (dropped (after (answerPending out clock) (entered new t)))
      have hpools : (after (setAgentStateTo out clock (.known new)) t).desk.toController =
          t.desk.toController ++ (⟨delivered, none⟩ :: emitted) := by
        rw [hafter, hpool']
        show (after (answerPending out clock) (entered new t)).desk.toController ++ emitted = _
        rw [hgrown, List.append_assoc, List.singleton_append]
      have hcleared : (after (setAgentStateTo out clock (.known new)) t).self.pending = none := by
        rw [hafter, hself']
        rfl
      have herror : delivered.isErrorObservation = true := by
        obtain ⟨raw, hraw, rfl, hread⟩ := EventStream.prepare_ok hprep
        exact error_copy ⟨_, raw, rfl, hraw, hread⟩
      have hcarries {m : ToolCallMetadata} (hm : pending.event.toolCallMetadata = some m) :
          CarriesMetadata out (t.desk.stream.secrets.map Prod.snd) m delivered := by
        obtain ⟨raw, hraw, rfl, hread⟩ := EventStream.prepare_ok hprep
        exact ⟨EventStream.stamp (notExecuted (decide (new = .stopped)) pending.event) .agent
          (clock t.desk.stream.curId) t.desk.stream.curId, raw, rfl, hm, hraw, hread⟩
      cases hmetadata : pending.event.toolCallMetadata with
      | none =>
        refine iff_of_false (fun h => ?_) fun h => ?_
        · obtain ⟨emitted', hpools', hcloses⟩ := h.emits
          obtain rfl := List.append_cancel_left (hpools.symm.trans hpools')
          have hno := (hcloses k pending hcurrent).2.2 hmetadata _ List.mem_cons_self
          rw [herror] at hno
          cases hno
        · rcases h k pending hcurrent with h | ⟨h, -⟩
          · exact hunanswered h
          · exact h hmetadata
      | some m =>
        have honly {k' : Nat} {pending' : Obj} (h : t.current = some (k', pending')) : pending' = pending := by
          rw [hcurrent] at h
          cases h
          rfl
        rw [hmetadata] at hunanswered
        refine iff_of_true ⟨hcleared, _, hpools, fun k' pending' h => ?_⟩ fun k' pending' h => ?_
        · obtain rfl := honly h
          refine ⟨fun m' hm => .inr ⟨_, List.mem_cons_self, hcarries hm⟩, fun m' hm _ => ?_, fun hm => ?_⟩
          · rw [← hm, hmetadata]
            exact hunanswered
          · rw [hmetadata] at hm
            cases hm
        · obtain rfl := honly h
          refine .inr ⟨?_, _, hprep⟩
          rw [hmetadata]
          exact Option.some_ne_none m

/-! ## Two pending actions -/

def noTime (_ : Int) : String := ""

def listFiles : ToolCallMetadata where
  functionName := "execute_bash"
  toolCallId := "call_1"
  modelResponse := { id := "response_1", message := ⟨.assistant, none, none, rfl⟩ }
  totalCallsInResponse := 1

/-- The recall of a user's message, which no tool call asked for. -/
def recalling : Turn where
  self := { agentState := .known .running, pending := some 0 }
  desk := { stream := {}, heap := [⟨action (.recallAction { recallType := .known .knowledge, query := "hi" }), none⟩] }

/-- A command, and its result in the history. -/
def commanding : Turn where
  self := {
    agentState := .known .running
    pending := some 0
    state := { history := [{ observation (.null { content := "" }) with toolCallMetadata := some listFiles }] } }
  desk := { stream := {}, heap := [⟨{ action (.cmdRun { command := "ls" }) with toolCallMetadata := some listFiles }, none⟩] }

theorem closesToolCall_iff_commanding : ClosesToolCall EventStream.plainOutside commanding
    (after (setAgentStateTo EventStream.plainOutside noTime (.known .stopped)) commanding) := by
  refine (closesToolCall_iff EventStream.plainOutside noTime (.inl rfl) commanding (by decide)).mpr fun k pending hcurrent => .inl ?_
  obtain ⟨hpending, hheap⟩ := current_eq_some hcurrent
  cases hpending
  cases hheap
  exact ⟨_, List.mem_singleton_self _, rfl, rfl⟩

/-- The recall is given an error observation of its own. -/
theorem recall_answered : ¬ ∀ (out : Outside) (clock : Int → String) (new : AgentState) (t : Turn),
    new = .stopped ∨ new = .error → t.self.agentState ≠ .known new →
    ClosesToolCall out t (after (setAgentStateTo out clock (.known new)) t) := by
  intro h
  obtain ⟨emitted, hpools, hcloses⟩ := (h EventStream.plainOutside noTime .stopped recalling (.inl rfl) (by decide)).emits
  have hno := (hcloses 0 _ rfl).2.2 rfl
  have herror : ((after (setAgentStateTo EventStream.plainOutside noTime (.known .stopped)) recalling).desk.toController.any
      fun d => d.event.isErrorObservation) = true := by decide +kernel
  rw [hpools, List.any_eq_true] at herror
  obtain ⟨d, hd, hd'⟩ := herror
  rw [hno d hd] at hd'
  cases hd'

end Controller

end OpenHands
