import OpenHandsSWE.Events.Secrets
import OpenHandsSWE.Events.Serialization.RoundTrip

/-! What of an action reaches the subscribers of the stream: its class, whatever the secrets are, and
the confirmation state of a command or a cell, unless a secret lies in the text of that state. -/

namespace OpenHands

variable {out : Outside} {secrets : List String}

/-! ## Masking -/

theorem get?_replaceSecrets_masked {name : String} (hname : name ∉ TOP_LEVEL_PROTECTED_FIELDS)
    (data : Dict) : Assoc.get? name (replaceSecrets secrets data) =
      (Assoc.get? name data).map (replaceValue secrets) := by
  induction data with
  | nil => rfl
  | cons kv data ih =>
    obtain ⟨key, v⟩ := kv
    rw [replaceSecrets, List.map_cons]
    by_cases hk : name = key
    · subst hk
      have hmasked : TOP_LEVEL_PROTECTED_FIELDS.contains name = false := by
        rwa [← Bool.not_eq_true, List.contains_iff_mem]
      rw [if_neg (by rw [hmasked]; decide), Assoc.get?_cons_self, Assoc.get?_cons_self]
      rfl
    · have hkey : (if TOP_LEVEL_PROTECTED_FIELDS.contains key then (key, v)
          else (key, replaceValue secrets v)) = (key, (if TOP_LEVEL_PROTECTED_FIELDS.contains key then v
            else replaceValue secrets v)) := by split <;> rfl
      rw [hkey, Assoc.get?_cons_of_ne hk, Assoc.get?_cons_of_ne hk]
      exact ih

/-- A text in which no secret lies is left as it is. -/
theorem hideSecrets_of_clean {text : String} (h : ∀ secret ∈ secrets, ¬ secret.toList <:+: text.toList) :
    hideSecrets secrets text = text := by
  have hfold : (secrets.map String.toList).foldl hideSecret text.toList = text.toList := by
    induction secrets with
    | nil => rfl
    | cons secret secrets ih =>
      have hclean := h secret List.mem_cons_self
      have hne : secret.toList ≠ [] := fun hnil => hclean (hnil ▸ List.nil_infix)
      rw [List.map_cons, List.foldl_cons, hideSecret_of_ne hne, Text.replace_of_clean _ _ hclean]
      exact ih fun s hs => h s (List.mem_cons_of_mem _ hs)
  rw [hideSecrets, hfold, String.ofList_toList]

/-! ## The copy that is delivered -/

/-- An event that was read back from the dictionary of an event with the body. -/
def Copy (out : Outside) (secrets : List String) (body : EventBody) (delivered : Event) : Prop :=
  ∃ e raw, e.body = body ∧ eventToDict out e = .ok raw ∧
    eventFromDict out (replaceSecrets secrets raw) = .ok delivered

/-- The copy of an action is built by its class, from its masked arguments. -/
theorem Copy.action {a : Action} {delivered : Event} (h : Copy out secrets (.action a) delivered) :
    ∃ args a', handleActionDeprecatedArgs out
        (checkSecurityRisk (renameArgs (replaceMembers secrets a.args))) = .ok args ∧
      a.cls.construct out args = .ok a' ∧ delivered.body = .action a' := by
  obtain ⟨e, raw, hbody, hraw, hread⟩ := h
  obtain ⟨message, hdict⟩ : ∃ message, raw = e.topFields message ++ [("action", .str a.cls.type)] ++
      e.metadataFields out ++ ([("args", .obj a.args)] ++ entry "timeout" .float e.timeout) := by
    unfold eventToDict Event.toDict at hraw
    rw [hbody] at hraw
    obtain ⟨message, -, rfl⟩ := Py.map_ok hraw
    exact ⟨message, List.append_assoc ..⟩
  obtain ⟨haction, hargs, -⟩ := actionDict_keys out e a message hdict
  have hmaskedAction : Assoc.get? "action" (replaceSecrets secrets raw) = some (.str a.cls.type) := by
    rw [get?_replaceSecrets secrets (by decide), haction]
  have hmaskedArgs : Assoc.get? "args" (replaceSecrets secrets raw) =
      some (.obj (replaceMembers secrets a.args)) := by
    rw [get?_replaceSecrets_masked (by decide), hargs, Option.map_some, replaceValue]
  have hcontains : Assoc.contains "action" (replaceSecrets secrets raw) = true := by
    rw [Assoc.contains, hmaskedAction]
    rfl
  rw [eventFromDict, if_pos hcontains] at hread
  obtain ⟨r, hr, hread⟩ := Py.bind_ok hread
  unfold actionFromDict at hr
  rw [hmaskedAction] at hr
  dsimp only at hr
  rw [actionOfType_type, hmaskedArgs] at hr
  obtain ⟨args, hdeprecated, hr⟩ := Py.bind_ok hr
  split at hr
  next a' _ hconstruct _ =>
    cases hr
    exact ⟨args, a', hdeprecated, hconstruct, (setUnderscoreKeys_keeps hread).1⟩
  all_goals cases hr

theorem Copy.cls {a : Action} {delivered : Event} (h : Copy out secrets (.action a) delivered) :
    ∃ a', delivered.body = .action a' ∧ a'.cls = a.cls := by
  obtain ⟨args, a', -, hconstruct, hbody⟩ := h.action
  exact ⟨a', hbody, actionConstruct_cls hconstruct⟩

/-- The copy of an observation is built by its class. -/
theorem Copy.observation_construct {o : Observation} {delivered : Event}
    (h : Copy out secrets (.observation o) delivered) : ∃ content extras o',
      o.cls.construct content extras = .ok o' ∧ delivered.body = .observation o' := by
  obtain ⟨e, raw, hbody, hraw, hread⟩ := h
  have hraw' : raw = e.topFields o.messageText ++ [("observation", .str o.cls.type)] ++ e.metadataFields out ++
      [("content", .str o.content), ("extras", .obj o.extras)] ++ entry "success" .bool o.success? := by
    unfold eventToDict Event.toDict at hraw
    rw [hbody] at hraw
    exact (Except.ok.inj hraw).symm
  have hid (name : String) (hne : name ≠ "id") :
      Assoc.get? name (if e.id = INVALID_ID then [] else [("id", Json.int e.id)]) = none := by
    split_ifs <;> simp [Assoc.get?_cons, hne]
  have haction : Assoc.get? "action" raw = none := by
    rw [hraw']
    simp [Event.topFields, Event.metadataFields, Assoc.get?_append, hid, get?_entry, Assoc.get?_cons]
  have hobservation : Assoc.get? "observation" raw = some (.str o.cls.type) := by
    rw [hraw']
    simp [Event.topFields, Assoc.get?_append, hid, get?_entry, Assoc.get?_cons]
  have hcontains : Assoc.contains "action" (replaceSecrets secrets raw) = false := by
    rw [Assoc.contains, get?_replaceSecrets secrets (by decide), haction]
    rfl
  rw [eventFromDict, hcontains, if_neg Bool.false_ne_true] at hread
  split_ifs at hread
  obtain ⟨o', ho', hread⟩ := Py.bind_ok hread
  unfold observationFromDict at ho'
  rw [get?_replaceSecrets secrets (by decide), hobservation] at ho'
  dsimp only at ho'
  rw [observationOfType_type] at ho'
  obtain ⟨content, -, ho'⟩ := Py.bind_ok ho'
  obtain ⟨extras, -, ho'⟩ := Py.bind_ok ho'
  exact ⟨content, _, o', ho', (setUnderscoreKeys_keeps hread).1⟩

/-- The copy of an observation is an observation. -/
theorem Copy.observation {o : Observation} {delivered : Event}
    (h : Copy out secrets (.observation o) delivered) : ∃ o', delivered.body = .observation o' := by
  obtain ⟨-, -, o', -, hbody⟩ := h.observation_construct
  exact ⟨o', hbody⟩

theorem not_copy_plain {delivered : Event} : ¬ Copy out secrets .plain delivered := by
  intro ⟨e, raw, hbody, hraw, hread⟩
  unfold eventToDict Event.toDict at hraw
  rw [hbody] at hraw
  cases hraw

/-- An action is runnable by its class. -/
theorem runnable_of_cls {a a' : Action} (h : a'.cls = a.cls) : a'.runnable = a.runnable := by
  have hcls (b : Action) : b.runnable = [ActionClass.cmdRun, .ipythonRunCell, .browseURL,
      .browseInteractive, .fileRead, .fileWrite, .fileEdit, .mcp].contains b.cls := by
    cases b <;> rfl
  rw [hcls, hcls, h]

/-! ## The confirmation state -/

section ConfirmationState

variable {status : ActionConfirmationStatus}

theorem confirmationStatus?_value (status : ActionConfirmationStatus) :
    Fields.readAs confirmationStatus? "confirmation_state" (.str status.value) = .ok (.known status) := by
  cases status <;> rfl

theorem Copy.cmdRun {a : CmdRunAction} {delivered : Event}
    (h : Copy out secrets (.action (.cmdRun a)) delivered) (hstate : a.confirmationState = .known status)
    (hclean : ∀ secret ∈ secrets, ¬ secret.toList <:+: status.value.toList) :
    ∃ a' : CmdRunAction, delivered.body = .action (.cmdRun a') ∧ a'.confirmationState = .known status := by
  obtain ⟨args, a', hdeprecated, hconstruct, hbody⟩ := h.action
  let masked : CmdRunAction :=
    { a with command := hideSecrets secrets a.command, thought := hideSecrets secrets a.thought
             cwd := a.cwd.map (hideSecrets secrets) }
  have hmasked : replaceMembers secrets (Action.cmdRun a).args = (Action.cmdRun masked).args := by
    simp only [Action.args, replaceMembers, replaceValue, masked, hstate, Unchecked.toJson,
      hideSecrets_of_clean hclean]
    cases a.cwd <;> simp [Json.ofOpt, replaceValue]
  rw [hmasked, args_upToDate] at hdeprecated
  cases hdeprecated
  have hread : Fields.readAs confirmationStatus? "confirmation_state"
      (masked.confirmationState.toJson (·.value)) = .ok masked.confirmationState := by
    show Fields.readAs _ _ (a.confirmationState.toJson (·.value)) = .ok a.confirmationState
    rw [hstate]
    exact confirmationStatus?_value status
  obtain rfl : Action.cmdRun masked = a' := Except.ok.inj ((construct_cmdRun hread).symm.trans hconstruct)
  exact ⟨masked, hbody, hstate⟩

theorem Copy.ipythonRunCell {a : IPythonRunCellAction} {delivered : Event}
    (h : Copy out secrets (.action (.ipythonRunCell a)) delivered) (hstate : a.confirmationState = .known status)
    (hclean : ∀ secret ∈ secrets, ¬ secret.toList <:+: status.value.toList) :
    ∃ a' : IPythonRunCellAction,
      delivered.body = .action (.ipythonRunCell a') ∧ a'.confirmationState = .known status := by
  obtain ⟨args, a', hdeprecated, hconstruct, hbody⟩ := h.action
  let masked : IPythonRunCellAction :=
    { a with code := hideSecrets secrets a.code, thought := hideSecrets secrets a.thought
             kernelInitCode := hideSecrets secrets a.kernelInitCode }
  have hmasked : replaceMembers secrets (Action.ipythonRunCell a).args = (Action.ipythonRunCell masked).args := by
    simp only [Action.args, replaceMembers, replaceValue, masked, hstate, Unchecked.toJson,
      hideSecrets_of_clean hclean]
  rw [hmasked, args_upToDate] at hdeprecated
  cases hdeprecated
  have hread : Fields.readAs confirmationStatus? "confirmation_state"
      (masked.confirmationState.toJson (·.value)) = .ok masked.confirmationState := by
    show Fields.readAs _ _ (a.confirmationState.toJson (·.value)) = .ok a.confirmationState
    rw [hstate]
    exact confirmationStatus?_value status
  obtain rfl : Action.ipythonRunCell masked = a' :=
    Except.ok.inj ((construct_ipythonRunCell hread).symm.trans hconstruct)
  exact ⟨masked, hbody, hstate⟩

end ConfirmationState

end OpenHands
