import OpenHandsSWE.Controller.Effects

/-! A delegate that ran into one of its limits: whether its parent still hands it the events. -/

namespace OpenHands

open Program

namespace Controller

variable {out : Outside} {clock : Int → String} {α β : Type}

/-! ## What a run leaves of the controller -/

def Keeps (view : Controller → β) (m : Ctl α) (t : Turn) : Prop :=
  Leads (fun t : Turn => view t.self) (fun _ _ => False) m t

section Keeps

variable {view : Controller → β} {t : Turn}

theorem Keeps.eq {m : Ctl α} (h : Keeps view m t) : view (after m t).self = view t.self :=
  Leads.keeps (P := fun b => b = view t.self) (fun _ _ hfalse => hfalse.elim) h rfl

theorem Keeps.get_bind {k : Turn → Ctl α} (h : Keeps view (k t) t) : Keeps view (get >>= k) t :=
  Leads.bind (.unseen rfl) fun a ha => by
    obtain rfl : t = a := Except.ok.inj ha
    exact h

theorem provided_keeps {p : Prop} [Decidable p] {m : Ctl Unit} (h : p → Keeps view m t) :
    Keeps view (provided p m) t := by
  unfold provided
  split
  next hp => exact h hp
  · exact .pure _ _

theorem withPending_keeps {f : Nat → Obj → Ctl Unit} (h : ∀ k o, Keeps view (f k o) t) :
    Keeps view (withPending f) t := by
  unfold withPending
  refine Keeps.get_bind ?_
  split
  · exact h _ _
  · exact .pure _ _

theorem atDesk_keeps (f : Turn → Except PyError Unit × Desk) (t : Turn) : Keeps view (atDesk f) t := by
  refine Leads.unseen ?_
  rw [after_atDesk]

theorem addEvent_keeps (e : Event) (source : EventSource) (t : Turn) : Keeps view (addEvent out clock e source) t :=
  atDesk_keeps _ t

theorem addObject_keeps (byStep : Bool) (k : Nat) (source : EventSource) (t : Turn) :
    Keeps view (addObject out clock byStep k source) t :=
  atDesk_keeps _ t

theorem modifySelf_keeps {f : Controller → Controller} (h : view (f t.self) = view t.self) :
    Keeps view (modifySelf f) t :=
  Leads.unseen h

theorem onDelegate_keeps {m : Ctl Unit} (hview : ∀ c d, view { c with delegate := d } = view c) :
    Keeps view (onDelegate m) t :=
  Leads.unseen (hview _ _)

/-- The pending action is no part of what is looked at. -/
theorem reset_keeps (hview : ∀ c p, view { c with pending := p } = view c) (t : Turn) :
    Keeps view (reset out clock) t := by
  unfold reset
  refine Leads.bind (withPending_keeps fun k o => ?_) fun _ _ => ?_
  · exact Keeps.get_bind (provided_keeps fun _ => addEvent_keeps ..)
  · exact Leads.bind (.unseen rfl) fun _ _ => modifySelf_keeps (hview _ _)

theorem command_keeps (status : ActionConfirmationStatus) (old : Unchecked AgentState) (t : Turn) :
    Keeps view (command out clock status old) t := by
  unfold command
  refine withPending_keeps fun k o => ?_
  exact Leads.bind (.unseen rfl) fun _ _ => Leads.bind (.unseen rfl) fun _ _ => addObject_keeps ..

end Keeps

theorem agentState_of_keeps {m : Ctl Unit} (hm : ∀ t, Keeps agentState m t) (new : Unchecked AgentState) (t : Turn) :
    (after (modifySelf (fun c => { c with agentState := new }) >>= fun _ => m) t).self.agentState = new :=
  (hm { t with self := { t.self with agentState := new } }).eq

/-- Whatever happens to its events, the change of the state is made. -/
theorem agentState_setAgentStateTo (new : Unchecked AgentState) (t : Turn) :
    (after (setAgentStateTo out clock new) t).self.agentState = new := by
  have hrun : ∀ m : Turn → Ctl Unit, after (get >>= m) t = after (m t) t := fun m => rfl
  rw [setAgentStateTo, hrun]
  by_cases hold : new = t.self.agentState
  · rw [if_pos hold]
    exact hold.symm
  · rw [if_neg hold]
    refine agentState_of_keeps (fun t' => ?_) new t
    refine Leads.bind (provided_keeps fun _ => reset_keeps (fun _ _ => rfl) _) fun _ _ => ?_
    refine Leads.bind (provided_keeps fun _ => modifySelf_keeps rfl) fun _ _ => ?_
    refine Leads.bind (provided_keeps fun _ => command_keeps ..) fun _ _ => ?_
    refine Leads.bind (provided_keeps fun _ => command_keeps ..) fun _ _ => ?_
    exact Keeps.get_bind (addEvent_keeps ..)

/-! ## The last error -/

/-- The last error as the controller has stored it. -/
def lastError (c : Controller) : String := c.state.lastError

section LastError

theorem setAgentStateTo_lastError (new : Unchecked AgentState) (t : Turn) :
    Keeps lastError (setAgentStateTo out clock new) t := by
  unfold setAgentStateTo
  refine Keeps.get_bind ?_
  dsimp only
  split
  · exact .pure _ _
  · refine Leads.bind (modifySelf_keeps rfl) fun _ _ => ?_
    refine Leads.bind (provided_keeps fun _ => reset_keeps (fun _ _ => rfl) _) fun _ _ => ?_
    refine Leads.bind (provided_keeps fun _ => modifySelf_keeps rfl) fun _ _ => ?_
    refine Leads.bind (provided_keeps fun _ => command_keeps ..) fun _ _ => ?_
    refine Leads.bind (provided_keeps fun _ => command_keeps ..) fun _ _ => ?_
    exact Keeps.get_bind (addEvent_keeps ..)

theorem handleObservation_lastError (e : Event) (t : Turn) : Keeps lastError (handleObservation out clock e) t := by
  unfold handleObservation
  refine Leads.bind (.unseen rfl) fun _ _ => withPending_keeps fun k o => Keeps.get_bind (provided_keeps fun _ => ?_)
  refine Leads.bind (modifySelf_keeps rfl) fun _ _ => ?_
  refine Leads.bind (provided_keeps fun _ => setAgentStateTo_lastError ..) fun _ _ => ?_
  exact provided_keeps fun _ => setAgentStateTo_lastError ..

theorem searchFirst_lastError (filter : Event → Bool) (t : Turn) : Keeps lastError (searchFirst out filter) t := by
  unfold searchFirst
  refine Keeps.get_bind ?_
  split
  · exact .pure _ _
  · exact .throw _ _

theorem firstUserMessage_lastError (t : Turn) : Keeps lastError (firstUserMessage out) t := by
  unfold firstUserMessage
  refine Keeps.get_bind ?_
  split
  · exact .pure _ _
  · refine Leads.bind (searchFirst_lastError ..) fun _ _ => ?_
    exact Leads.bind (modifySelf_keeps rfl) fun _ _ => .pure _ _

theorem handleMessageAction_lastError (e : Event) (a : MessageAction) (t : Turn) :
    Keeps lastError (handleMessageAction out clock e a) t := by
  unfold handleMessageAction recallContent
  split
  · refine Leads.bind (Leads.bind (firstUserMessage_lastError ..) fun _ _ => ?_) fun _ _ => Keeps.get_bind ?_
    · exact Leads.bind (.unseen rfl) fun _ _ => addObject_keeps ..
    · exact provided_keeps fun _ => setAgentStateTo_lastError ..
  · split
    · exact setAgentStateTo_lastError ..
    · exact .pure _ _

theorem truncateMemoryToPoint_lastError (recoveryPoint : Int) (t : Turn) :
    Keeps lastError (truncateMemoryToPoint recoveryPoint) t := by
  refine modifySelf_keeps ?_
  split_ifs with hlong
  · rfl
  · show (t.self.state.truncateMemoryToPoint recoveryPoint).lastError = _
    rw [State.truncateMemoryToPoint, if_neg hlong]
    rfl

theorem performLoopRecovery_lastError (recoveryPoint : Int) (t : Turn) :
    Keeps lastError (performLoopRecovery out clock recoveryPoint) t := by
  unfold performLoopRecovery
  refine Leads.bind (truncateMemoryToPoint_lastError ..) fun _ _ => ?_
  exact Leads.bind (setAgentStateTo_lastError ..) fun _ _ => addEvent_keeps ..

theorem handleLoopRecoveryAction_lastError (option : Int) (t : Turn) :
    Keeps lastError (handleLoopRecoveryAction out clock option) t := by
  unfold handleLoopRecoveryAction restartWithLastUserMessage
  refine Keeps.get_bind ?_
  split
  · exact .pure _ _
  · split_ifs
    · exact performLoopRecovery_lastError ..
    · refine Keeps.get_bind ?_
      split
      · refine Leads.bind (truncateMemoryToPoint_lastError ..) fun _ _ => ?_
        refine Leads.bind (setAgentStateTo_lastError ..) fun _ _ => ?_
        exact Leads.bind (addEvent_keeps ..) fun _ _ => handleMessageAction_lastError ..
      · exact performLoopRecovery_lastError ..
    · exact setAgentStateTo_lastError ..
    · exact .pure _ _

theorem handleDelegateAction_lastError (answers : Answers) (a : AgentDelegateAction) (t : Turn) :
    Keeps lastError (handleDelegateAction out clock answers a) t := by
  unfold handleDelegateAction startDelegate
  refine Leads.bind (Keeps.get_bind ?_) fun _ _ => ?_
  · split
    · exact .throw _ _
    · exact Leads.bind (.unseen rfl) fun _ _ => modifySelf_keeps rfl
  · split
    · exact .pure _ _
    · exact Leads.bind (addEvent_keeps ..) fun _ _ => onDelegate_keeps fun _ _ => rfl
    · exact .throw _ _

/-- Handling an event, short of a step, stores no error. -/
theorem handleEvent_lastError (answers : Answers) (e : Event) (t : Turn) :
    Keeps lastError (handleEvent out clock answers e) t := by
  unfold handleEvent
  split
  · unfold handleAction
    split
    · exact setAgentStateTo_lastError ..
    · exact handleMessageAction_lastError ..
    · exact handleDelegateAction_lastError ..
    · exact Leads.bind (modifySelf_keeps rfl) fun _ _ => setAgentStateTo_lastError ..
    · exact Leads.bind (modifySelf_keeps rfl) fun _ _ => setAgentStateTo_lastError ..
    · exact handleLoopRecoveryAction_lastError ..
    · exact .pure _ _
  · exact handleObservation_lastError ..
  · exact .pure _ _

end LastError

/-! ## The texts of the limits -/

section Texts

/-- What `on_event` looks for. -/
def iterationText : List Char := "RuntimeError: Agent reached maximum iteration.".toList

def budgetText : List Char := "RuntimeError:Agent reached maximum budget for conversation".toList

/-- What `_react_to_exception` stores. -/
def stored (e : Raised) : String := e.name ++ ": " ++ e.message

theorem forwards_of_error {d : Controller} (herror : d.agentState = .known .error) :
    forwards d = true ↔ iterationText <:+: d.state.lastError.toList ∨ budgetText <:+: d.state.lastError.toList := by
  have hdone : (decide (d.agentState = .known .finished) || decide (d.agentState = .known .error) ||
      decide (d.agentState = .known .rejected)) = true := by
    rw [herror]
    rfl
  rw [forwards, hdone, Bool.not_true, Bool.false_or, Bool.or_eq_true, decide_eq_true_eq, decide_eq_true_eq]
  exact Iff.rfl

theorem not_mem_digits {c : Char} (hc : c.isDigit = false) (n : Nat) : c ∉ (toString n).toList := by
  intro h
  have hdigits : (toString n).toList = Nat.toDigits 10 n := Nat.toList_repr
  rw [hdigits] at h
  rw [Nat.isDigit_of_mem_toDigits (by decide) (by decide) h] at hc
  cases hc

theorem not_mem_twoDecimals (x : Rat) : 'R' ∉ (twoDecimals x).toList := by
  have hdigits (n : Nat) : 'R' ∉ (toString n).toList := not_mem_digits (by decide) n
  have hsign : 'R' ∉ (if x < 0 then "-" else "").toList := by split_ifs <;> decide
  rw [twoDecimals]
  simp only [String.toList_append, List.mem_append, not_or]
  exact ⟨⟨⟨⟨hsign, hdigits _⟩, by decide⟩, hdigits _⟩, hdigits _⟩

/-- A text that begins with a character which comes once is found at the start or not at all. -/
theorem begins_of_within {c : Char} {needle rest : List Char} (hrest : c ∉ rest) (h : c :: needle <:+: c :: rest) :
    needle <+: rest := by
  obtain ⟨before, after, heq⟩ := h
  cases before with
  | nil => exact ⟨after, (List.cons.inj heq).2⟩
  | cons c' before =>
    refine absurd ?_ hrest
    rw [← (List.cons.inj heq).2]
    simp

theorem stored_iteration {s : State} (h : s.iterationFlag.step.2 = true) :
    iterationText <:+: (stored (limitReached s)).toList := by
  have hstart : "RuntimeError".toList ++ (": ".toList ++ "Agent reached maximum iteration. Current iteration: ".toList) =
      iterationText ++ " Current iteration: ".toList := by decide +kernel
  rw [limitReached, if_pos h, stored]
  simp only [String.toList_append, List.append_assoc]
  rw [← List.append_assoc ": ".toList, ← List.append_assoc "RuntimeError".toList, hstart, List.append_assoc]
  exact (List.prefix_append _ _).isInfix

/-- The text of the budget's exception up to the numbers. -/
def budgetStart : List Char := "untimeError: Agent reached maximum budget for conversation.".toList

theorem stored_limit {s : State} (h : s.iterationFlag.step.2 = false) :
    ∃ numbers, (stored (limitReached s)).toList = 'R' :: (budgetStart ++ numbers) ∧ 'R' ∉ numbers := by
  have hstart : "RuntimeError".toList ++ (": ".toList ++ "Agent reached maximum budget for conversation.".toList) =
      'R' :: budgetStart := by decide +kernel
  rw [limitReached, if_neg (by rw [h]; decide), stored]
  simp only [String.toList_append, List.append_assoc]
  refine ⟨_, by rw [← List.append_assoc ": ".toList, ← List.append_assoc "RuntimeError".toList, hstart,
    List.cons_append], ?_⟩
  cases s.budgetFlag with
  | none => decide
  | some flag =>
    simp only [String.toList_append, List.mem_append, not_or]
    exact ⟨⟨⟨by decide, not_mem_twoDecimals _⟩, by decide⟩, not_mem_twoDecimals _⟩

/-- The budget's exception has a space where the searched text has none. -/
theorem stored_budget {s : State} (h : s.iterationFlag.step.2 = false) :
    ¬ (iterationText <:+: (stored (limitReached s)).toList ∨ budgetText <:+: (stored (limitReached s)).toList) := by
  obtain ⟨numbers, htext, hnumbers⟩ := stored_limit h
  have hrest : 'R' ∉ budgetStart ++ numbers := by
    rw [List.mem_append, not_or]
    exact ⟨by decide, hnumbers⟩
  have hno {needle : List Char} (hlength : needle.length ≤ budgetStart.length)
      (hne : needle ≠ budgetStart.take needle.length) : ¬ 'R' :: needle <:+: 'R' :: (budgetStart ++ numbers) := by
    intro hinfix
    have hprefix := List.prefix_iff_eq_take.mp (begins_of_within hrest hinfix)
    rw [List.take_append_of_le_length hlength] at hprefix
    exact hne hprefix
  have hiteration : iterationText = 'R' :: "untimeError: Agent reached maximum iteration.".toList := by decide +kernel
  have hbudget : budgetText = 'R' :: "untimeError:Agent reached maximum budget for conversation".toList := by
    decide +kernel
  rw [htext, hiteration, hbudget, not_or]
  exact ⟨hno (by decide +kernel) (by decide +kernel), hno (by decide +kernel) (by decide +kernel)⟩

end Texts

/-! ## The delegate in ERROR -/

section Reacting

theorem limitReached_kind (s : State) : (limitReached s).kind = .other := by
  unfold limitReached
  split_ifs <;> rfl

theorem after_reactToException {e : Raised} (hkind : e.kind = .other) (t : Turn) :
    (after (reactToException out clock e) t).self.agentState = .known .error ∧
      (after (reactToException out clock e) t).self.state.lastError = stored e := by
  let t' : Turn := { t with self := { t.self with state := { t.self.state with lastError := stored e } } }
  have hafter : after (reactToException out clock e) t = after (setAgentStateTo out clock (.known .error)) t' := by
    obtain ⟨name, message, kind⟩ := e
    obtain rfl : kind = .other := hkind
    have hrun : after (reactToException out clock ⟨name, message, .other⟩) t =
        after (if t'.self.settings.statusCallback then setAgentStateTo out clock (.known .error)
          else setAgentStateTo out clock (.known .error)) t' := rfl
    rw [hrun, ite_self]
  have hkept : ((after (setAgentStateTo out clock (.known .error)) t').self).lastError = t'.self.lastError :=
    (setAgentStateTo_lastError (.known .error) t').eq
  rw [hafter]
  exact ⟨agentState_setAgentStateTo _ t', hkept⟩

variable (out clock) in
/-- A step whose flags raise puts the agent into ERROR. -/
theorem after_step (answers : Answers) (t : Turn) (hrunning : t.self.agentState = .known .running)
    (hpending : t.self.pending = none) (hstuck : answers.isStuck = false)
    (hraised : (t.self.state.syncBudgetFlagWithMetrics answers.stats).runControlFlags.2 = true) :
    (after (step out clock answers) t).self.agentState = .known .error ∧
      (after (step out clock answers) t).self.state.lastError =
        stored (limitReached (t.self.state.syncBudgetFlagWithMetrics answers.stats)) := by
  let synced := t.self.state.syncBudgetFlagWithMetrics answers.stats
  let t' : Turn := { t with
    self := { t.self with state := synced.runControlFlags.1, stuckAnalysis := answers.stuckAnalysis } }
  have hbusy : ¬ (t.self.agentState ≠ .known .running ∨ t.self.pending.isSome = true) := by
    rw [hrunning, hpending]
    simp
  have hafter : after (step out clock answers) t = after (reactToException out clock (limitReached synced)) t' := by
    have hrun : after (step out clock answers) t = after (if t.self.agentState ≠ .known .running ∨ t.self.pending.isSome = true
        then pure () else do
          modifySelf fun c =>
            { c with state := c.state.syncBudgetFlagWithMetrics answers.stats, stuckAnalysis := answers.stuckAnalysis }
          if answers.isStuck then
            reactToException out clock ⟨"AgentStuckInLoopError", "Agent got stuck in a loop", .other⟩
          else
            let t ← get
            modifySelf fun c => { c with state := c.state.runControlFlags.1 }
            if t.self.state.runControlFlags.2 then reactToException out clock (limitReached t.self.state)
            else act out clock answers) t := rfl
    rw [hrun, if_neg hbusy, hstuck]
    have hsynced : after (if synced.runControlFlags.2 then reactToException out clock (limitReached synced)
        else act out clock answers) t' = after (reactToException out clock (limitReached synced)) t' := by
      rw [if_pos hraised]
    exact hsynced
  rw [hafter]
  exact after_reactToException (limitReached_kind synced) t'

/-- In any other state than RUNNING no step is taken. -/
theorem step_idle {answers : Answers} {t : Turn} (h : t.self.agentState ≠ .known .running) :
    after (stepWithExceptionHandling out clock answers) t = t := by
  have hrun : (step out clock answers).run.run t = (.ok (), t) := by
    rw [step, run_get_bind, if_pos (.inl h)]
    rfl
  have hresult : result (step out clock answers) t = .ok () := by
    unfold result
    rw [hrun]
  have hafter : after (step out clock answers) t = t := by
    unfold after
    rw [hrun]
  rw [stepWithExceptionHandling, after_tryCatch, hresult, hafter]

end Reacting

/-! ## The events of the parent -/

variable (out clock) in
/-- The delegate is in ERROR once it has handled the event. -/
def StaysInError (answers : Answers) (e : Event) (d : Turn) : Prop :=
  e.hidden = true ∨
    (after (do
      modifySelf fun c => { c with state := StateTracker.addHistory c.state e }
      handleEvent out clock answers e) d).self.agentState = .known .error

/-- The delegate's turn. -/
def ofDelegate (q : Turn) : Turn := { q with self := q.self.delegate.getD {}, isDelegate := true }

variable (out clock) in
/-- The parent has been given events that have left its delegate in ERROR; in between, others may have used the desk. -/
inductive StillInError (p : Turn) : Turn → Prop where
  | start : StillInError p p
  | event {q : Turn} (answers : Answers) (e : Event) (desk : Desk) : StillInError p q →
    StaysInError out clock answers e (ofDelegate q) →
    StillInError p { after (onEvent out clock answers e) q with desk := desk }

variable (out clock) in
/-- The delegate is given the event, and is the parent's delegate after it. -/
structure Forwarded (answers : Answers) (e : Event) (q : Turn) : Prop where
  handed : (onEvent out clock answers e).run.run q = (onDelegate (onOwnEvent out clock answers e)).run.run q
  kept : (after (onEvent out clock answers e) q).self.delegate.isSome = true

section Events

variable {p q : Turn} {d : Controller}

variable (out clock) in
theorem onEvent_forwards (hdelegate : q.self.delegate = some d) (hforwards : forwards d = true) (answers : Answers)
    (e : Event) : (onEvent out clock answers e).run.run q = (onDelegate (onOwnEvent out clock answers e)).run.run q := by
  rw [onEvent, run_get_bind, hdelegate]
  dsimp only
  rw [if_pos hforwards]

theorem onEvent_ends (hdelegate : q.self.delegate = some d) (hforwards : forwards d = false) (answers : Answers)
    (e : Event) : (onEvent out clock answers e).run.run q = (endDelegate out clock).run.run q := by
  rw [onEvent, run_get_bind, hdelegate]
  dsimp only
  rw [if_neg (by rw [hforwards]; decide)]

theorem after_onDelegate (m : Ctl Unit) (hdelegate : q.self.delegate = some d) :
    (after (onDelegate m) q).self.delegate = some (after m (ofDelegate q)).self := by
  have hafter : (after (onDelegate m) q).self.delegate = q.self.delegate.map fun _ => (after m (ofDelegate q)).self := rfl
  rw [hafter, hdelegate]
  rfl

variable (out clock) in
/-- What `_on_event` does before the step. -/
def handled (answers : Answers) (e : Event) : Ctl Unit := do
  modifySelf fun c => { c with state := StateTracker.addHistory c.state e }
  handleEvent out clock answers e

theorem handled_lastError (answers : Answers) (e : Event) (t : Turn) : Keeps lastError (handled out clock answers e) t := by
  unfold handled
  refine Leads.bind (modifySelf_keeps ?_) fun _ _ => handleEvent_lastError ..
  show (StateTracker.addHistory t.self.state e).lastError = t.self.state.lastError
  unfold StateTracker.addHistory
  split_ifs <;> rfl

theorem onOwnEvent_eq {e : Event} (hhidden : e.hidden = false) (answers : Answers) : onOwnEvent out clock answers e = (do
    handled out clock answers e
    let t ← get
    provided (shouldStep t.self e = true) (stepWithExceptionHandling out clock answers)) := by
  rw [onOwnEvent, if_neg (by rw [hhidden]; decide), handled, bind_assoc]

/-- A delegate that stays in ERROR keeps its last error. -/
theorem onOwnEvent_staysInError {answers : Answers} {e : Event} {t : Turn} (herror : t.self.agentState = .known .error)
    (hstays : StaysInError out clock answers e t) :
    (after (onOwnEvent out clock answers e) t).self.agentState = .known .error ∧
      (after (onOwnEvent out clock answers e) t).self.state.lastError = t.self.state.lastError := by
  cases hhidden : e.hidden with
  | true =>
    have hafter : after (onOwnEvent out clock answers e) t = t := by
      rw [onOwnEvent, if_pos hhidden]
      rfl
    rw [hafter]
    exact ⟨herror, rfl⟩
  | false =>
    have hstate : (after (handled out clock answers e) t).self.agentState = .known .error := by
      rcases hstays with hstays | hstays
      · rw [hhidden] at hstays
        cases hstays
      · exact hstays
    have hrest : ∀ s : Turn, s.self.agentState = .known .error →
        after (get >>= fun t : Turn => provided (shouldStep t.self e = true)
          (stepWithExceptionHandling out clock answers)) s = s := by
      intro s hs
      have hidle : s.self.agentState ≠ .known .running := by
        rw [hs]
        decide
      have hrun : after (get >>= fun t : Turn => provided (shouldStep t.self e = true)
          (stepWithExceptionHandling out clock answers)) s =
          after (provided (shouldStep s.self e = true) (stepWithExceptionHandling out clock answers)) s := rfl
      rw [hrun, provided]
      split_ifs
      · exact step_idle hidle
      · rfl
    have hafter : after (onOwnEvent out clock answers e) t = after (handled out clock answers e) t := by
      rw [onOwnEvent_eq hhidden, after_bind]
      split
      · exact hrest _ hstate
      · rfl
    rw [hafter]
    exact ⟨hstate, (handled_lastError answers e t).eq⟩

/-- The delegate has run into its iteration limit and is still in ERROR. -/
def AtIterationLimit (q : Turn) : Prop :=
  ∃ d, q.self.delegate = some d ∧ d.agentState = .known .error ∧ iterationText <:+: d.state.lastError.toList

variable (out clock) in
theorem AtIterationLimit.forwarded (h : AtIterationLimit q) (answers : Answers) (e : Event) :
    Forwarded out clock answers e q := by
  obtain ⟨d, hdelegate, herror, htext⟩ := h
  have hrun := onEvent_forwards out clock hdelegate ((forwards_of_error herror).mpr (.inl htext)) answers e
  refine ⟨hrun, ?_⟩
  unfold after
  rw [hrun]
  show (after (onDelegate (onOwnEvent out clock answers e)) q).self.delegate.isSome = true
  rw [after_onDelegate _ hdelegate]
  rfl

theorem AtIterationLimit.event (h : AtIterationLimit q) {answers : Answers} {e : Event} (desk : Desk)
    (hstays : StaysInError out clock answers e (ofDelegate q)) :
    AtIterationLimit { after (onEvent out clock answers e) q with desk := desk } := by
  have hhanded := (h.forwarded out clock answers e).handed
  obtain ⟨d, hdelegate, herror, htext⟩ := h
  have hself : (ofDelegate q).self = d := by
    show q.self.delegate.getD {} = d
    rw [hdelegate]
    rfl
  obtain ⟨hstate, hlast⟩ := onOwnEvent_staysInError (t := ofDelegate q) (by rw [hself]; exact herror) hstays
  refine ⟨_, ?_, hstate, ?_⟩
  · show (after (onEvent out clock answers e) q).self.delegate = _
    unfold after
    rw [hhanded]
    exact after_onDelegate _ hdelegate
  · rw [hlast, hself]
    exact htext

theorem AtIterationLimit.run (h : AtIterationLimit p) (hrun : StillInError out clock p q) : AtIterationLimit q := by
  induction hrun with
  | start => exact h
  | event answers e desk _ hstays ih => exact ih.event desk hstays

/-- The delegate, if there still is one, has been stopped. -/
def DelegateStopped (q : Turn) : Prop := ∀ d, q.self.delegate = some d → d.agentState = .known .stopped

variable (out clock) in
theorem after_endDelegate (hdelegate : q.self.delegate = some d) : DelegateStopped (after (endDelegate out clock) q) := by
  have hstopped : DelegateStopped (after (onDelegate (setAgentStateTo out clock (.known .stopped))) q) := by
    intro d' hd'
    rw [after_onDelegate _ hdelegate] at hd'
    cases hd'
    exact agentState_setAgentStateTo _ _
  -- an exception on the way leaves the delegate stopped in its place
  have hkeeps {m : Ctl Unit} {k : Ctl Unit} {t : Turn} (ht : DelegateStopped t) (hm : Keeps Controller.delegate m t)
      (hk : ∀ t, DelegateStopped t → DelegateStopped (after k t)) : DelegateStopped (after (m >>= fun _ => k) t) := by
    have hmid : DelegateStopped (after m t) := fun d' hd' => ht d' (hm.eq ▸ hd')
    rw [after_bind]
    split
    · exact hk _ hmid
    · exact hmid
  have hrun : after (endDelegate out clock) q = after (do
      onDelegate (setAgentStateTo out clock (.known .stopped))
      modifySelf fun c =>
        { c with state := { c.state with iterationFlag := d.state.iterationFlag
                                         budgetFlag := d.state.budgetFlag } }
      addEvent out clock (delegateObservation out d q.self.state.history) .agent
      modifySelf fun c => { c with delegate := none }) q := by
    unfold after
    rw [endDelegate, run_get_bind, hdelegate]
  rw [hrun, after_bind]
  split
  · refine hkeeps hstopped (modifySelf_keeps rfl) fun t ht => hkeeps ht (addEvent_keeps ..) fun t' _ d' hd' => ?_
    have hnone : (after (modifySelf fun c => { c with delegate := none }) t').self.delegate = none := rfl
    rw [hnone] at hd'
    cases hd'
  · exact hstopped

def hiddenEvent : Event := { body := .action (.cmdRun { command := "true", hidden := true }) }

/-- An event that is not handed to the delegate stops it. -/
theorem not_forwarded (hdelegate : p.self.delegate = some d) (herror : d.agentState = .known .error)
    (hforwards : forwards d = false) : ¬ Forwarded out clock {} hiddenEvent p := by
  intro h
  have hsame : after (endDelegate out clock) p = after (onDelegate (onOwnEvent out clock {} hiddenEvent)) p := by
    unfold after
    rw [← onEvent_ends hdelegate hforwards {} hiddenEvent, h.handed]
  have hself : (ofDelegate p).self = d := by
    show p.self.delegate.getD {} = d
    rw [hdelegate]
    rfl
  have hkept : (after (onDelegate (onOwnEvent out clock {} hiddenEvent)) p).self.delegate = some d := by
    have hidle : after (onOwnEvent out clock {} hiddenEvent) (ofDelegate p) = ofDelegate p := rfl
    rw [after_onDelegate _ hdelegate, hidle, hself]
  have hstopped := after_endDelegate out clock hdelegate d (by rw [hsame, hkept])
  rw [herror] at hstopped
  cases hstopped

/-- The parent goes on forwarding to a delegate that ran into a limit exactly when it was that of the iterations. -/
theorem forwarded_iff {answers : Answers} {t p : Turn} (hrunning : t.self.agentState = .known .running)
    (hpending : t.self.pending = none) (hstuck : answers.isStuck = false)
    (hraised : (t.self.state.syncBudgetFlagWithMetrics answers.stats).runControlFlags.2 = true)
    (hreacted : result (step out clock answers) t = .ok ())
    (hdelegate : p.self.delegate = some (after (stepWithExceptionHandling out clock answers) t).self) :
    (∀ q, StillInError out clock p q → ∀ later e, Forwarded out clock later e q) ↔
      t.self.state.iterationFlag.maxValue ≤ t.self.state.iterationFlag.currentValue := by
  let synced := t.self.state.syncBudgetFlagWithMetrics answers.stats
  have hstep : after (stepWithExceptionHandling out clock answers) t = after (step out clock answers) t := by
    rw [stepWithExceptionHandling, after_tryCatch, hreacted]
  obtain ⟨hstate, hlast⟩ := after_step out clock answers t hrunning hpending hstuck hraised
  rw [hstep] at hdelegate
  have hlimit : synced.iterationFlag.step.2 = true ↔
      t.self.state.iterationFlag.maxValue ≤ t.self.state.iterationFlag.currentValue := by
    show t.self.state.iterationFlag.step.2 = true ↔ _
    rw [IterationControlFlag.step, IterationControlFlag.reachedLimit]
    split_ifs with h
    · exact iff_of_true rfl (by simpa using h)
    · exact iff_of_false id (by simpa using h)
  constructor
  · intro h
    by_contra hno
    have hnotIteration : synced.iterationFlag.step.2 = false := Bool.eq_false_iff.mpr (mt hlimit.mp hno)
    refine not_forwarded hdelegate hstate ?_ (h p .start {} hiddenEvent)
    rw [Bool.eq_false_iff, Ne, forwards_of_error hstate, hlast]
    exact stored_budget hnotIteration
  · intro h q hrun later e
    have hstart : AtIterationLimit p := ⟨_, hdelegate, hstate, by rw [hlast]; exact stored_iteration (hlimit.mpr h)⟩
    exact (hstart.run hrun).forwarded out clock later e

/-- A delegate with no step left, and its parent once it has run into that. -/
def exhausted : Turn where
  self := { agentState := .known .running, state := { iterationFlag := ⟨10, 10, 10, false⟩ } }
  desk := { stream := {} }
  isDelegate := true

/-- One with no money left. -/
def spent : Turn where
  self := {
    agentState := .known .running
    state := { iterationFlag := ⟨100, 1, 100, false⟩, budgetFlag := some ⟨1, 1, 1, false⟩ } }
  desk := { stream := {} }
  isDelegate := true

def oneDollar : ConversationStats where
  objects _ := { accumulatedCost := 1 }
  serviceToMetrics := [("agent", 0)]

def parentOf (t : Turn) (answers : Answers) : Turn where
  self := { delegate := some (after (stepWithExceptionHandling EventStream.plainOutside (fun _ => "") answers) t).self }
  desk := t.desk

theorem forwarded_iff_exhausted :
    Forwarded EventStream.plainOutside (fun _ => "") {} hiddenEvent (parentOf exhausted {}) := by
  have hreacted : result (step EventStream.plainOutside (fun _ => "") {}) exhausted = .ok () := by decide +kernel
  exact (forwarded_iff rfl rfl rfl (by decide +kernel) hreacted rfl).mpr (by decide) _ .start {} hiddenEvent

/-- The delegate that has spent the budget is stopped by the next event. -/
theorem budget_ends : ¬ ∀ (out : Outside) (clock : Int → String) (answers : Answers) (t p : Turn),
    t.self.agentState = .known .running → t.self.pending = none → answers.isStuck = false →
    (t.self.state.syncBudgetFlagWithMetrics answers.stats).runControlFlags.2 = true →
    result (step out clock answers) t = .ok () →
    p.self.delegate = some (after (stepWithExceptionHandling out clock answers) t).self →
    ∀ q, StillInError out clock p q → ∀ later e, Forwarded out clock later e q := by
  intro h
  let answers : Answers := { stats := oneDollar }
  have hreacted : result (step EventStream.plainOutside (fun _ => "") answers) spent = .ok () := by decide +kernel
  have hforwarded := h EventStream.plainOutside (fun _ => "") answers spent (parentOf spent answers) rfl rfl rfl
    (by decide +kernel) hreacted rfl _ .start {} hiddenEvent
  have hstep : after (stepWithExceptionHandling EventStream.plainOutside (fun _ => "") answers) spent =
      after (step EventStream.plainOutside (fun _ => "") answers) spent := by
    rw [stepWithExceptionHandling, after_tryCatch, hreacted]
  obtain ⟨hstate, hlast⟩ := after_step EventStream.plainOutside (fun _ => "") answers spent rfl rfl rfl (by decide +kernel)
  rw [← hstep] at hstate hlast
  refine not_forwarded rfl hstate ?_ hforwarded
  rw [Bool.eq_false_iff, Ne, forwards_of_error hstate, hlast]
  exact stored_budget (by decide +kernel)

end Events

end Controller

end OpenHands
