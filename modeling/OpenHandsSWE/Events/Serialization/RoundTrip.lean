import OpenHandsSWE.Events.Serialization.Event
import OpenHandsSWE.Events.Serialization.Truncation
import OpenHandsSWE.Lib.JsonRoundTrip

/-! What an event's dictionary is read back to. -/

namespace OpenHands

/-! ## Keyword arguments -/

namespace Fields

variable {α : Type} {fields : Dict} {name key : String} {read : Json → Option α} {v : Json} {d : α}

@[simp] theorem required_cons_self :
    required ((name, v) :: fields) name read = readAs read name v := by
  simp [required, Assoc.get?_cons]

@[simp] theorem required_cons_of_ne (h : name ≠ key) :
    required ((key, v) :: fields) name read = required fields name read := by
  simp [required, Assoc.get?_cons, h]

@[simp] theorem optional_cons_self :
    optional ((name, v) :: fields) name read d = readAs read name v := by
  simp [optional, Assoc.get?_cons]

@[simp] theorem optional_cons_of_ne (h : name ≠ key) :
    optional ((key, v) :: fields) name read d = optional fields name read d := by
  simp [optional, Assoc.get?_cons, h]

theorem readAs_ok {a : α} (h : read v = some a) : readAs read name v = .ok a := by rw [readAs, h]

@[simp] theorem readAs_str (s : String) : readAs Json.str? name (.str s) = .ok s := rfl

@[simp] theorem readAs_bool (b : Bool) : readAs Json.bool? name (.bool b) = .ok b := rfl

@[simp] theorem readAs_int (n : Int) : readAs Json.int? name (.int n) = .ok n := rfl

@[simp] theorem readAs_float (x : FloatLit) : readAs Json.float? name (.float x) = .ok x := rfl

@[simp] theorem readAs_obj (kvs : Dict) : readAs Json.obj? name (.obj kvs) = .ok kvs := rfl

@[simp] theorem readAs_arr (xs : List Json) : readAs Json.arr? name (.arr xs) = .ok xs := rfl

@[simp] theorem readAs_some (v : Json) : readAs some name v = .ok v := rfl

@[simp] theorem readAs_risk (r : ActionSecurityRisk) :
    readAs securityRisk? name (.int r.value) = .ok r := by cases r <;> rfl

section Composite

variable (write : α → Json)

/-- What is read as it was written, and is never written as `null`, may be optional. -/
theorem readAs_opt (h : ∀ a, read (write a) = some a) (hnull : ∀ a, write a ≠ .null) (x : Option α) :
    readAs (Json.opt? read) name (.ofOpt write x) = .ok x := by
  cases x with
  | none => rfl
  | some a =>
    apply readAs_ok
    rw [Json.ofOpt]
    unfold Json.opt?
    split
    next hv => exact absurd hv (hnull a)
    · rw [h a, Option.map_some]

theorem list?_ofList (h : ∀ a, read (write a) = some a) (xs : List α) :
    Json.list? read (.ofList write xs) = some xs := by
  rw [Json.ofList, Json.list?]
  induction xs with
  | nil => rfl
  | cons x xs ih => rw [List.map_cons, List.mapM_cons, h x, ih]; rfl

theorem dict?_obj (h : ∀ a, read (write a) = some a) (kvs : List (String × α)) :
    Json.dict? read (.obj (kvs.map fun kv => (kv.1, write kv.2))) = some kvs := by
  rw [Json.dict?]
  induction kvs with
  | nil => rfl
  | cons kv kvs ih => rw [List.map_cons, List.mapM_cons, h kv.2, ih]; rfl

end Composite

@[simp] theorem readAs_optStr (x : Option String) :
    readAs (Json.opt? Json.str?) name (.ofOpt .str x) = .ok x :=
  readAs_opt .str (fun _ => rfl) (fun _ => nofun) x

@[simp] theorem readAs_optInt (x : Option Int) :
    readAs (Json.opt? Json.int?) name (.ofOpt .int x) = .ok x :=
  readAs_opt .int (fun _ => rfl) (fun _ => nofun) x

@[simp] theorem readAs_optFloat (x : Option FloatLit) :
    readAs (Json.opt? Json.float?) name (.ofOpt .float x) = .ok x :=
  readAs_opt .float (fun _ => rfl) (fun _ => nofun) x

@[simp] theorem readAs_optArr (x : Option (List Json)) :
    readAs (Json.opt? Json.arr?) name (.ofOpt .arr x) = .ok x :=
  readAs_opt .arr (fun _ => rfl) (fun _ => nofun) x

@[simp] theorem readAs_strs (xs : List String) :
    readAs (Json.list? Json.str?) name (.ofList .str xs) = .ok xs :=
  readAs_ok (list?_ofList .str (fun _ => rfl) xs)

@[simp] theorem readAs_optStrs (x : Option (List String)) :
    readAs (Json.opt? (Json.list? Json.str?)) name (.ofOpt (.ofList .str) x) = .ok x :=
  readAs_opt (.ofList .str) (list?_ofList .str fun _ => rfl) (fun _ => nofun) x

@[simp] theorem readAs_optInts (x : Option (List Int)) :
    readAs (Json.opt? (Json.list? Json.int?)) name (.ofOpt (.ofList .int) x) = .ok x :=
  readAs_opt (.ofList .int) (list?_ofList .int fun _ => rfl) (fun _ => nofun) x

@[simp] theorem readAs_dictInt (kvs : List (String × Int)) :
    readAs (Json.dict? Json.int?) name (.obj (kvs.map fun kv => (kv.1, .int kv.2))) = .ok kvs :=
  readAs_ok (dict?_obj .int (fun _ => rfl) kvs)

@[simp] theorem readAs_dictStr (kvs : List (String × String)) :
    readAs (Json.dict? Json.str?) name (.obj (kvs.map fun kv => (kv.1, .str kv.2))) = .ok kvs :=
  readAs_ok (dict?_obj .str (fun _ => rfl) kvs)

end Fields

/-! ## Records -/

section Records

theorem mapM_ofDict {α : Type} {dump : α → Json} {ofDict : Dict → Except PyError α}
    (h : ∀ a, ∃ fields, dump a = .obj fields ∧ ofDict fields = .ok a) (xs : List α) :
    ∃ fieldss, Json.list? Json.obj? (.ofList dump xs) = some fieldss ∧
      fieldss.mapM ofDict = .ok xs := by
  rw [Json.ofList, Json.list?]
  induction xs with
  | nil => exact ⟨[], rfl, rfl⟩
  | cons x xs ih =>
    obtain ⟨fields, hdump, hread⟩ := h x
    obtain ⟨fieldss, hlist, hall⟩ := ih
    refine ⟨fields :: fieldss, ?_, ?_⟩
    · rw [List.map_cons, List.mapM_cons, hdump, hlist]
      rfl
    · rw [List.mapM_cons, hread, hall]
      rfl

theorem Cost.ofDict_modelDump (now : FloatLit) (c : Cost) :
    ∃ fields, c.modelDump = .obj fields ∧ Cost.ofDict now fields = .ok c := by
  refine ⟨_, rfl, ?_⟩
  simp [Cost.ofDict, bind, Except.bind, pure, Except.pure]

theorem ResponseLatency.ofDict_modelDump (l : ResponseLatency) :
    ∃ fields, l.modelDump = .obj fields ∧ ResponseLatency.ofDict fields = .ok l := by
  refine ⟨_, rfl, ?_⟩
  simp [ResponseLatency.ofDict, bind, Except.bind, pure, Except.pure]

theorem TokenUsage.ofDict_modelDump (u : TokenUsage) :
    ∃ fields, u.modelDump = .obj fields ∧ TokenUsage.ofDict fields = .ok u := by
  refine ⟨_, rfl, ?_⟩
  simp [TokenUsage.ofDict, bind, Except.bind, pure, Except.pure]

theorem records_cons_self {α : Type} {fields : Dict} {name : String} {dump : α → Json}
    {ofDict : Dict → Except PyError α}
    (h : ∀ a, ∃ fields, dump a = .obj fields ∧ ofDict fields = .ok a) (xs : List α) :
    Metrics.records ((name, .ofList dump xs) :: fields) name ofDict = .ok xs := by
  obtain ⟨fieldss, hlist, hall⟩ := mapM_ofDict h xs
  rw [Metrics.records, Fields.optional_cons_self, Fields.readAs_ok hlist]
  exact hall

theorem records_cons_of_ne {α : Type} {fields : Dict} {name key : String} {v : Json}
    {ofDict : Dict → Except PyError α} (h : name ≠ key) :
    Metrics.records ((key, v) :: fields) name ofDict = Metrics.records fields name ofDict := by
  rw [Metrics.records, Fields.optional_cons_of_ne h, Metrics.records]

/-- Metrics are read back as they were, unless their cost is one that the setter refuses. -/
theorem Metrics.ofDict_get (now : FloatLit) {m : Metrics} (h : m.accumulatedCost.isNegative = false) :
    ∃ fields, m.get = .obj fields ∧ Metrics.ofDict now fields = .ok m := by
  refine ⟨_, rfl, ?_⟩
  obtain ⟨usage, husage, hread⟩ := m.accumulatedTokenUsage.ofDict_modelDump
  have hsome (fields : Dict) : Fields.readAs (fun v => v.obj?.map some) "accumulated_token_usage"
      (.obj fields) = .ok (some fields) := rfl
  simp [Metrics.ofDict, husage, hsome, h, hread, records_cons_of_ne,
    records_cons_self (Cost.ofDict_modelDump now),
    records_cons_self ResponseLatency.ofDict_modelDump,
    records_cons_self TokenUsage.ofDict_modelDump, bind, Except.bind, pure, Except.pure]

theorem CmdOutputMetadata.ofDict_modelDump (m : CmdOutputMetadata) :
    ∃ fields, m.modelDump = .obj fields ∧ CmdOutputMetadata.ofDict fields = .ok m := by
  refine ⟨_, rfl, ?_⟩
  simp [CmdOutputMetadata.ofDict, bind, Except.bind, pure, Except.pure]

theorem MicroagentKnowledge.ofDict_asdict (k : MicroagentKnowledge) :
    ∃ fields, k.asdict = .obj fields ∧ MicroagentKnowledge.ofDict fields = .ok k := by
  refine ⟨_, rfl, ?_⟩
  simp [MicroagentKnowledge.ofDict, Fields.only, bind, Except.bind, pure, Except.pure]

theorem ToolCallMetadata.ofDict_modelDump {out : Outside} {m : ToolCallMetadata}
    (h : out.readResponse (out.dumpResponse m.modelResponse) = .ok m.modelResponse) :
    ∃ fields, m.modelDump out = .obj fields ∧ ToolCallMetadata.ofDict out fields = .ok m := by
  refine ⟨_, rfl, ?_⟩
  simp [ToolCallMetadata.ofDict, h, bind, Except.bind, pure, Except.pure]

end Records

/-! ## Enumerations kept as texts -/

namespace Unchecked

variable {α : Type} {value : α → String} {members : List α} {u d : Unchecked α} {v : Json}

/-- A text that names a member is that member. -/
def Normal (value : α → String) (members : List α) (u : Unchecked α) : Prop :=
  ofJson value members (u.toJson value) = some u

theorem normal_of_ofJson (h : ofJson value members v = some u) : Normal value members u := by
  unfold ofJson at h
  split at h
  next s =>
    split at h
    next a hfind =>
      -- the member found has the text as its value
      have hvalue : value a = s := beq_iff_eq.mp (List.find?_some (p := fun a => value a == s) hfind)
      cases h
      rw [Normal, toJson, ofJson, hvalue, hfind]
    next hnone =>
      cases h
      rw [Normal, toJson, ofJson, hnone]
  · cases h

theorem normal_of_readAs {name : String} (h : Fields.readAs (ofJson value members) name v = .ok u) :
    Normal value members u := by
  unfold Fields.readAs at h
  split at h
  next a ha => cases h; exact normal_of_ofJson ha
  · cases h

theorem normal_of_optional {fields : Dict} {name : String}
    (h : Fields.optional fields name (ofJson value members) d = .ok u)
    (hd : Normal value members d) : Normal value members u := by
  unfold Fields.optional at h
  split at h
  · exact normal_of_readAs h
  · cases h; exact hd

theorem normal_of_required {fields : Dict} {name : String}
    (h : Fields.required fields name (ofJson value members) = .ok u) : Normal value members u := by
  unfold Fields.required at h
  split at h
  · exact normal_of_readAs h
  · cases h

theorem readAs_normal {name : String} (h : Normal value members u) :
    Fields.readAs (ofJson value members) name (u.toJson value) = .ok u := Fields.readAs_ok h

end Unchecked

/-! ## Actions -/

section Actions

variable {out : Outside} {args : Dict}

open ActionClass

theorem cmdRun_normal {a : CmdRunAction} (h : construct out .cmdRun args = .ok (.cmdRun a)) :
    Fields.readAs confirmationStatus? "confirmation_state" (a.confirmationState.toJson (·.value)) =
      .ok a.confirmationState := by
  obtain ⟨_, -, h⟩ := Py.bind_ok h
  obtain ⟨command, -, h⟩ := Py.bind_ok h
  obtain ⟨isInput, -, h⟩ := Py.bind_ok h
  obtain ⟨thought, -, h⟩ := Py.bind_ok h
  obtain ⟨blocking, -, h⟩ := Py.bind_ok h
  obtain ⟨isStatic, -, h⟩ := Py.bind_ok h
  obtain ⟨cwd, -, h⟩ := Py.bind_ok h
  obtain ⟨hidden, -, h⟩ := Py.bind_ok h
  obtain ⟨confirmationState, hstate, h⟩ := Py.bind_ok h
  obtain ⟨securityRisk, -, h⟩ := Py.bind_ok h
  cases h
  exact Unchecked.readAs_normal (Unchecked.normal_of_optional hstate rfl)

theorem ipythonRunCell_normal {a : IPythonRunCellAction}
    (h : construct out .ipythonRunCell args = .ok (.ipythonRunCell a)) :
    Fields.readAs confirmationStatus? "confirmation_state" (a.confirmationState.toJson (·.value)) =
      .ok a.confirmationState := by
  obtain ⟨_, -, h⟩ := Py.bind_ok h
  obtain ⟨code, -, h⟩ := Py.bind_ok h
  obtain ⟨thought, -, h⟩ := Py.bind_ok h
  obtain ⟨includeExtra, -, h⟩ := Py.bind_ok h
  obtain ⟨confirmationState, hstate, h⟩ := Py.bind_ok h
  obtain ⟨securityRisk, -, h⟩ := Py.bind_ok h
  obtain ⟨kernelInitCode, -, h⟩ := Py.bind_ok h
  cases h
  exact Unchecked.readAs_normal (Unchecked.normal_of_optional hstate rfl)

theorem fileReadAction_normal {a : FileReadAction}
    (h : construct out .fileRead args = .ok (.fileRead a)) :
    Fields.readAs fileReadSource? "impl_source" (a.implSource.toJson (·.value)) =
      .ok a.implSource := by
  obtain ⟨_, -, h⟩ := Py.bind_ok h
  obtain ⟨path, -, h⟩ := Py.bind_ok h
  obtain ⟨start, -, h⟩ := Py.bind_ok h
  obtain ⟨stop, -, h⟩ := Py.bind_ok h
  obtain ⟨thought, -, h⟩ := Py.bind_ok h
  obtain ⟨securityRisk, -, h⟩ := Py.bind_ok h
  obtain ⟨implSource, hsource, h⟩ := Py.bind_ok h
  obtain ⟨viewRange, -, h⟩ := Py.bind_ok h
  cases h
  exact Unchecked.readAs_normal (Unchecked.normal_of_optional hsource rfl)

theorem fileEditAction_normal {a : FileEditAction}
    (h : construct out .fileEdit args = .ok (.fileEdit a)) :
    Fields.readAs fileEditSource? "impl_source" (a.implSource.toJson (·.value)) =
      .ok a.implSource := by
  obtain ⟨_, -, h⟩ := Py.bind_ok h
  obtain ⟨path, -, h⟩ := Py.bind_ok h
  obtain ⟨command, -, h⟩ := Py.bind_ok h
  obtain ⟨fileText, -, h⟩ := Py.bind_ok h
  obtain ⟨oldStr, -, h⟩ := Py.bind_ok h
  obtain ⟨newStr, -, h⟩ := Py.bind_ok h
  obtain ⟨insertLine, -, h⟩ := Py.bind_ok h
  obtain ⟨content, -, h⟩ := Py.bind_ok h
  obtain ⟨start, -, h⟩ := Py.bind_ok h
  obtain ⟨stop, -, h⟩ := Py.bind_ok h
  obtain ⟨thought, -, h⟩ := Py.bind_ok h
  obtain ⟨securityRisk, -, h⟩ := Py.bind_ok h
  obtain ⟨implSource, hsource, h⟩ := Py.bind_ok h
  cases h
  exact Unchecked.readAs_normal (Unchecked.normal_of_optional hsource rfl)

theorem recallAction_normal {a : RecallAction}
    (h : construct out .recallAction args = .ok (.recallAction a)) :
    Fields.readAs recallType? "recall_type" (a.recallType.toJson (·.value)) = .ok a.recallType := by
  obtain ⟨_, -, h⟩ := Py.bind_ok h
  obtain ⟨recallType, htype, h⟩ := Py.bind_ok h
  obtain ⟨query, -, h⟩ := Py.bind_ok h
  obtain ⟨thought, -, h⟩ := Py.bind_ok h
  cases h
  exact Unchecked.readAs_normal (Unchecked.normal_of_required htype)

theorem construct_cmdRun {a : CmdRunAction}
    (hstate : Fields.readAs confirmationStatus? "confirmation_state" (a.confirmationState.toJson (·.value)) =
      .ok a.confirmationState) : construct out .cmdRun (Action.cmdRun a).args = .ok (.cmdRun a) := by
  simp [construct, Action.args, Fields.only, fieldNames, hstate, bind, Except.bind, pure, Except.pure]

theorem construct_ipythonRunCell {a : IPythonRunCellAction}
    (hstate : Fields.readAs confirmationStatus? "confirmation_state" (a.confirmationState.toJson (·.value)) =
      .ok a.confirmationState) :
    construct out .ipythonRunCell (Action.ipythonRunCell a).args = .ok (.ipythonRunCell a) := by
  simp [construct, Action.args, Fields.only, fieldNames, hstate, bind, Except.bind, pure, Except.pure]

/-- A constructor given the fields of what it has built builds it again. -/
theorem construct_args {a : Action} (h : a.cls.construct out args = .ok a) :
    a.cls.construct out a.args = .ok a := by
  cases a with
  | cmdRun a => exact construct_cmdRun (cmdRun_normal h)
  | ipythonRunCell a => exact construct_ipythonRunCell (ipythonRunCell_normal h)
  | fileRead a =>
    have hsource := fileReadAction_normal h
    simp [Action.cls, construct, Action.args, Fields.only, fieldNames, hsource, bind, Except.bind,
      pure, Except.pure]
  | fileEdit a =>
    have hsource := fileEditAction_normal h
    simp [Action.cls, construct, Action.args, Fields.only, fieldNames, hsource, bind, Except.bind,
      pure, Except.pure]
  | recallAction a =>
    have htype := recallAction_normal h
    simp [Action.cls, construct, Action.args, Fields.only, fieldNames, htype, bind, Except.bind,
      pure, Except.pure]
  | condensation a =>
    have hvalid := a.valid
    simp [Action.cls, construct, Action.args, Fields.only, fieldNames, hvalid, bind, Except.bind,
      pure, Except.pure]
  | null | condensationRequest | browseURL a | browseInteractive a | fileWrite a | agentThink a
  | agentFinish a | agentReject a | agentDelegate a | changeAgentState a | message a
  | systemMessage a | mcp a | taskTracking a | loopRecovery a =>
    simp [Action.cls, construct, Action.args, Fields.only, fieldNames, bind, Except.bind, pure,
      Except.pure]

end Actions

/-! ## Observations -/

section Observations

theorem maybeTruncate_idem (content : String) :
    maybeTruncate (maybeTruncate content) = maybeTruncate content := by
  have hidem : Truncation.maybeTruncate (Truncation.maybeTruncate content.toList) = Truncation.maybeTruncate content.toList :=
    (Truncation.keepsEnds_of_two_le (by decide)).idem
  rw [Truncation.maybeTruncate_default, Truncation.maybeTruncate_default content, String.toList_ofList, hidem]

open ObservationClass

theorem cmdOutput_content {o : CmdOutputObservation} {content : String} {extras : Dict}
    (h : construct .cmdOutput content extras = .ok (.cmdOutput o)) :
    (if o.hidden then o.content else maybeTruncate o.content) = o.content := by
  obtain ⟨metadata, -, h⟩ := Py.bind_ok h
  obtain ⟨hidden, -, h⟩ := Py.bind_ok h
  obtain ⟨command, -, h⟩ := Py.bind_ok h
  cases h
  dsimp only
  split_ifs
  · rfl
  · exact maybeTruncate_idem content

theorem fileRead_normal {o : FileReadObservation} {content : String} {extras : Dict}
    (h : construct .fileRead content extras = .ok (.fileRead o)) :
    Fields.readAs fileReadSource? "impl_source" (o.implSource.toJson (·.value)) =
      .ok o.implSource := by
  obtain ⟨_, -, h⟩ := Py.bind_ok h
  obtain ⟨path, -, h⟩ := Py.bind_ok h
  obtain ⟨implSource, hsource, h⟩ := Py.bind_ok h
  cases h
  exact Unchecked.readAs_normal (Unchecked.normal_of_optional hsource rfl)

theorem fileEdit_normal {o : FileEditObservation} {content : String} {extras : Dict}
    (h : construct .fileEdit content extras = .ok (.fileEdit o)) :
    Fields.readAs fileEditSource? "impl_source" (o.implSource.toJson (·.value)) =
      .ok o.implSource := by
  obtain ⟨_, -, h⟩ := Py.bind_ok h
  obtain ⟨path, -, h⟩ := Py.bind_ok h
  obtain ⟨prevExist, -, h⟩ := Py.bind_ok h
  obtain ⟨oldContent, -, h⟩ := Py.bind_ok h
  obtain ⟨newContent, -, h⟩ := Py.bind_ok h
  obtain ⟨implSource, hsource, h⟩ := Py.bind_ok h
  obtain ⟨diff, -, h⟩ := Py.bind_ok h
  obtain ⟨diffCache, -, h⟩ := Py.bind_ok h
  cases h
  exact Unchecked.readAs_normal (Unchecked.normal_of_optional hsource rfl)

theorem construct_extras {o : Observation} {content : String} {extras : Dict}
    (h : o.cls.construct content extras = .ok o) :
    o.cls.construct o.content o.extras = .ok o := by
  cases o with
  | cmdOutput o =>
    have hcontent := cmdOutput_content h
    obtain ⟨fields, hdump, hread⟩ := o.metadata.ofDict_modelDump
    have hmetadata : readMetadata (Observation.cmdOutput o).extras = .ok o.metadata := by
      rw [readMetadata, Observation.extras, hdump, Assoc.get?_cons, if_neg (by decide),
        Assoc.get?_cons, if_pos rfl]
      exact hread
    simp only [Observation.cls, construct, hmetadata]
    simp [Observation.extras, Observation.content, hcontent, bind, Except.bind, pure, Except.pure]
  | fileRead o =>
    have hsource := fileRead_normal h
    simp [Observation.cls, construct, Observation.extras, Observation.content, Fields.only,
      fieldNames, hsource, bind, Except.bind, pure, Except.pure]
  | fileEdit o =>
    have hsource := fileEdit_normal h
    simp [Observation.cls, construct, Observation.extras, Observation.content, Fields.only,
      fieldNames, hsource, bind, Except.bind, pure, Except.pure]
  | recallObservation o =>
    obtain ⟨fieldss, hlist, hall⟩ := mapM_ofDict MicroagentKnowledge.ofDict_asdict o.microagentKnowledge
    have hknowledge : Fields.readAs (Json.list? Json.obj?) "microagent_knowledge"
        (.ofList MicroagentKnowledge.asdict o.microagentKnowledge) = .ok fieldss :=
      Fields.readAs_ok hlist
    have htype (t : RecallType) : Fields.readAs recallType? "recall_type" (.str t.value) =
        .ok (.known t) := by cases t <;> rfl
    simp [Observation.cls, construct, Observation.extras, Observation.content, Fields.only,
      fieldNames, readRecallType, htype, hknowledge, hall, bind, Except.bind, pure, Except.pure]
  | null o | ipythonRunCell o | browserOutput o | fileWrite o | agentDelegate o | success o | error o
  | agentStateChanged o | userReject o | agentCondensation o | agentThink o | mcp o | fileDownload o
  | taskTracking o | loopDetection o =>
    simp [Observation.cls, construct, Observation.extras, Observation.content, Fields.only,
      fieldNames, bind, Except.bind, pure, Except.pure]

end Observations

/-! ## Reading what was written -/

section Deprecated

variable {out : Outside}

theorem args_keys (a : Action) : ∀ name ∈ a.args.map Prod.fst, name ∈ a.cls.fieldNames := by
  cases a <;> simp [Action.args, Action.cls, ActionClass.fieldNames]

theorem args_of_notField (a : Action) {name : String} (h : name ∉ a.cls.fieldNames) :
    Assoc.get? name a.args = none ∧ Assoc.erase name a.args = a.args := by
  have hkey : name ∉ a.args.map Prod.fst := fun hmem => h (args_keys a name hmem)
  exact ⟨Assoc.get?_eq_none_iff.mpr hkey, Assoc.erase_of_notMem hkey⟩

theorem fieldNames_deprecated (c : ActionClass) :
    "timestamp" ∉ c.fieldNames ∧ "is_confirmed" ∉ c.fieldNames ∧ "images_urls" ∉ c.fieldNames ∧
      "keep_prompt" ∉ c.fieldNames ∧ "task_completed" ∉ c.fieldNames ∧
      "translated_ipython_code" ∉ c.fieldNames := by
  cases c <;> decide

theorem checkSecurityRisk_args (a : Action) : checkSecurityRisk a.args = a.args := by
  have hrisk (r : ActionSecurityRisk) : (securityRisk? (.int r.value)).isSome = true := by
    cases r <;> rfl
  cases a <;> simp [checkSecurityRisk, Action.args, Assoc.get?_cons, hrisk]

/-- The arguments of an action have no deprecated names. -/
theorem args_upToDate (out : Outside) (a : Action) :
    handleActionDeprecatedArgs out (checkSecurityRisk (renameArgs a.args)) = .ok a.args := by
  obtain ⟨htimestamp, hconfirmed, himages, hprompt, htask, hcode⟩ := fieldNames_deprecated a.cls
  have hrename : renameArgs a.args = a.args := by
    unfold renameArgs
    rw [(args_of_notField a hconfirmed).1, (args_of_notField a htimestamp).2,
      (args_of_notField a hconfirmed).2]
    dsimp only [Option.getD_none]
    rw [if_pos rfl, (args_of_notField a himages).1]
  rw [hrename, checkSecurityRisk_args]
  unfold handleActionDeprecatedArgs
  rw [(args_of_notField a hprompt).2, (args_of_notField a htask).2]
  dsimp only
  rw [(args_of_notField a hcode).1]

theorem actionOfType_type (c : ActionClass) : ActionClass.ofType c.type = some c := by
  cases c <;> rfl

theorem observationOfType_type (c : ObservationClass) : ObservationClass.ofType c.type = some c := by
  cases c <;> rfl

theorem extras_keys (o : Observation) : "exit_code" ∉ o.extras.map Prod.fst ∧
    "command_id" ∉ o.extras.map Prod.fst ∧
    "formatted_output_and_error" ∉ o.extras.map Prod.fst := by
  cases o <;> simp [Observation.extras]

/-- The extras of an observation have no deprecated names. -/
theorem extras_upToDate (o : Observation) : handleObservationDeprecatedExtras o.extras = o.extras := by
  obtain ⟨hcode, hcommand, hformatted⟩ := extras_keys o
  unfold handleObservationDeprecatedExtras moveToMetadata
  rw [Assoc.get?_eq_none_iff.mpr hcode]
  dsimp only
  rw [Assoc.get?_eq_none_iff.mpr hcommand]
  dsimp only
  rw [Assoc.erase_of_notMem hformatted]

end Deprecated

section Reading

variable {out : Outside} {e : Event} {data : Dict}

theorem get?_entry {α : Type} (name key : String) (write : α → Json) (v : Option α) :
    Assoc.get? name (entry key write v) = if name = key then v.map write else none := by
  cases v <;> simp [entry, Assoc.get?_cons]

/-- The properties of an event stand under their keys. -/
structure Holds (out : Outside) (e : Event) (data : Dict) : Prop where
  id : Assoc.get? "id" data = if e.id = INVALID_ID then none else some (.int e.id)
  timestamp : Assoc.get? "timestamp" data = e.timestamp.map .str
  source : Assoc.get? "source" data = e.source.map fun s => .str s.value
  cause : Assoc.get? "cause" data = e.cause.map .int
  toolCallMetadata :
    Assoc.get? "tool_call_metadata" data = e.toolCallMetadata.map (ToolCallMetadata.modelDump out)
  llmMetrics : Assoc.get? "llm_metrics" data = e.llmMetrics.map Metrics.get

/-- The first keys, the type of the event and its metadata, whatever comes after them. -/
theorem holds_of_keys (out : Outside) (e : Event) (message type : String) {key : String} {rest : Dict}
    (hkey : key = "action" ∨ key = "observation")
    (hrest : ∀ name ∈ rest.map Prod.fst, name ∈ ["args", "timeout", "content", "extras", "success"]) :
    Holds out e (e.topFields message ++ [(key, .str type)] ++ e.metadataFields out ++ rest) := by
  have hnone {name : String} (h : name ∉ ["args", "timeout", "content", "extras", "success"]) :
      Assoc.get? name rest = none := Assoc.get?_eq_none_iff.mpr fun hmem => h (hrest name hmem)
  have hid (name : String) : Assoc.get? name
      (if e.id = INVALID_ID then [] else [("id", Json.int e.id)]) =
        if name = "id" ∧ e.id ≠ INVALID_ID then some (.int e.id) else none := by
    split_ifs <;> simp_all [Assoc.get?_cons]
  constructor
  all_goals
    rw [Assoc.get?_append, Assoc.get?_append, Assoc.get?_append, hnone (by decide)]
    simp only [Event.topFields, Event.metadataFields, Assoc.get?_append, hid, get?_entry,
      Assoc.get?_cons]
    rcases hkey with rfl | rfl <;> simp

/-- What an event holds besides its own fields is what the types promise: a cost that its setter
accepts and a response that the LLM library reads back. -/
structure Readable (out : Outside) (e : Event) : Prop where
  cost : ∀ m, e.llmMetrics = some m → m.accumulatedCost.isNegative = false
  response : ∀ m, e.toolCallMetadata = some m →
    out.readResponse (out.dumpResponse m.modelResponse) = .ok m.modelResponse

theorem setUnderscoreKeys_ok (h : Holds out e data) (hreadable : Readable out e) {e₀ : Event}
    (htimestamp : e₀.timestamp = none) :
    setUnderscoreKeys out data e₀ = .ok { e with body := e₀.body, timeout := e₀.timeout } := by
  have hid : readId data = .ok e.id := by
    rw [readId, Fields.optional, h.id]
    split_ifs with hinvalid
    · rw [hinvalid]
    · rfl
  have hsource : readKey data "source" (readSource out) = .ok e.source := by
    rw [readKey, h.source]
    cases e.source with
    | none => rfl
    | some s => cases s <;> rfl
  have hcause : Fields.optional data "cause" (Json.opt? Json.int?) none = .ok e.cause := by
    rw [Fields.optional, h.cause]
    cases e.cause <;> rfl
  have hmetadata : (readKey data "tool_call_metadata" fun v => do
      ToolCallMetadata.ofDict out (← keywords v)) = .ok e.toolCallMetadata := by
    rw [readKey, h.toolCallMetadata]
    cases hm : e.toolCallMetadata with
    | none => rfl
    | some m =>
      obtain ⟨fields, hdump, hread⟩ := ToolCallMetadata.ofDict_modelDump (hreadable.response m hm)
      rw [Option.map_some, hdump, Option.mapM_some]
      show (ToolCallMetadata.ofDict out fields).map some = _
      rw [hread]
      rfl
  have hmetrics (read : Json → Except PyError Metrics)
      (hread : ∀ fields, read (.obj fields) = Metrics.ofDict out.now fields) :
      readKey data "llm_metrics" read = .ok e.llmMetrics := by
    rw [readKey, h.llmMetrics]
    cases hm : e.llmMetrics with
    | none => rfl
    | some m =>
      obtain ⟨fields, hdump, hget⟩ := Metrics.ofDict_get out.now (hreadable.cost m hm)
      rw [Option.map_some, hdump, Option.mapM_some, hread, hget]
      rfl
  rw [setUnderscoreKeys, hid, hsource, hcause, hmetadata, hmetrics _ fun _ => rfl, h.timestamp, htimestamp]
  cases e.timestamp <;> rfl

end Reading

/-! ## Events -/

section Events

variable {out : Outside} {e : Event}

/-- The class of an event has built its body. -/
def Event.Built (out : Outside) (e : Event) : Prop :=
  match e.body with
  | .action a => ∃ args, a.cls.construct out args = .ok a
  | .observation o => ∃ content extras, o.cls.construct content extras = .ok o
  | .plain => False

/-- The keys of an action's dictionary that an action is read from. -/
theorem actionDict_keys (out : Outside) (e : Event) (a : Action) (message : String) {data : Dict}
    (hdata : data = e.topFields message ++ [("action", .str a.cls.type)] ++ e.metadataFields out ++
      ([("args", .obj a.args)] ++ entry "timeout" .float e.timeout)) :
    Assoc.get? "action" data = some (.str a.cls.type) ∧ Assoc.get? "args" data = some (.obj a.args) ∧
      Assoc.get? "timeout" data = e.timeout.map .float := by
  have hid (name : String) (h : name ≠ "id") : Assoc.get? name
      (if e.id = INVALID_ID then [] else [("id", Json.int e.id)]) = none := by
    split_ifs <;> simp [Assoc.get?_cons, h]
  rw [hdata]
  refine ⟨?_, ?_, ?_⟩
  all_goals
    simp [Event.topFields, Event.metadataFields, Assoc.get?_append, hid, get?_entry, Assoc.get?_cons]

theorem eventFromDict_action {a : Action} (hbody : e.body = .action a)
    (hbuilt : e.Built out) (hreadable : Readable out e) (message : String) :
    eventFromDict out (e.topFields message ++ [("action", .str a.cls.type)] ++ e.metadataFields out ++
      [("args", .obj a.args)] ++ entry "timeout" .float e.timeout) = .ok e := by
  rw [List.append_assoc _ [("args", Json.obj a.args)]]
  generalize hdata : e.topFields message ++ [("action", Json.str a.cls.type)] ++
    e.metadataFields out ++ ([("args", .obj a.args)] ++ entry "timeout" .float e.timeout) = data
  have hrest : ∀ name ∈ ([("args", Json.obj a.args)] ++ entry "timeout" .float e.timeout).map Prod.fst,
      name ∈ ["args", "timeout", "content", "extras", "success"] := by
    cases e.timeout <;> simp [entry]
  have hholds : Holds out e data := hdata ▸ holds_of_keys out e message a.cls.type (.inl rfl) hrest
  obtain ⟨haction, hargs, htimeout⟩ := actionDict_keys out e a message hdata.symm
  obtain ⟨args, hconstruct⟩ : ∃ args, a.cls.construct out args = .ok a := by
    unfold Event.Built at hbuilt
    rwa [hbody] at hbuilt
  have hread : actionFromDict out data = .ok ⟨a, none, e.timeout⟩ := by
    have htime : (e.timeout.map Json.float).mapM (Fields.readAs Json.float? "timeout") =
        .ok e.timeout := by cases e.timeout <;> rfl
    have hstamp : Assoc.get? "timestamp" a.args = none :=
      (args_of_notField a (fieldNames_deprecated a.cls).1).1
    unfold actionFromDict
    rw [haction]
    dsimp only
    rw [actionOfType_type, hargs, htimeout, htime]
    dsimp only [Option.getD_some, Json.obj?]
    rw [args_upToDate, hstamp]
    rw [Except.bind, construct_args hconstruct]
    rfl
  have hcontains : Assoc.contains "action" data = true := by rw [Assoc.contains, haction]; rfl
  rw [eventFromDict, if_pos hcontains, hread]
  show setUnderscoreKeys out data _ = _
  rw [setUnderscoreKeys_ok hholds hreadable rfl, ← hbody]

theorem eventFromDict_observation {o : Observation} (hbody : e.body = .observation o)
    (hbuilt : e.Built out) (hreadable : Readable out e) (htimeout : e.timeout = none) :
    eventFromDict out (e.topFields o.messageText ++ [("observation", .str o.cls.type)] ++
      e.metadataFields out ++ [("content", .str o.content), ("extras", .obj o.extras)] ++
      entry "success" .bool o.success?) = .ok e := by
  rw [List.append_assoc _ [("content", Json.str o.content), ("extras", Json.obj o.extras)]]
  generalize hdata : e.topFields o.messageText ++ [("observation", Json.str o.cls.type)] ++
    e.metadataFields out ++ ([("content", .str o.content), ("extras", .obj o.extras)] ++
      entry "success" .bool o.success?) = data
  have hrest : ∀ name ∈ ([("content", Json.str o.content), ("extras", Json.obj o.extras)] ++
      entry "success" .bool o.success?).map Prod.fst,
      name ∈ ["args", "timeout", "content", "extras", "success"] := by
    cases o.success? <;> simp [entry]
  have hholds : Holds out e data :=
    hdata ▸ holds_of_keys out e o.messageText o.cls.type (.inr rfl) hrest
  have hid (name : String) (h : name ≠ "id") : Assoc.get? name
      (if e.id = INVALID_ID then [] else [("id", Json.int e.id)]) = none := by
    split_ifs <;> simp [Assoc.get?_cons, h]
  have haction : Assoc.contains "action" data = false := by
    rw [Assoc.contains, ← hdata]
    simp [Event.topFields, Event.metadataFields, Assoc.get?_append, hid, get?_entry, Assoc.get?_cons]
  have hobservation : Assoc.get? "observation" data = some (.str o.cls.type) := by
    rw [← hdata]
    simp [Event.topFields, Assoc.get?_append, hid, get?_entry, Assoc.get?_cons]
  have hcontent : Fields.optional data "content" Json.str? "" = .ok o.content := by
    rw [Fields.optional, ← hdata]
    simp [Event.topFields, Event.metadataFields, Assoc.get?_append, hid, get?_entry, Assoc.get?_cons]
  have hextras : Fields.optional data "extras" Json.obj? [] = .ok o.extras := by
    rw [Fields.optional, ← hdata]
    simp [Event.topFields, Event.metadataFields, Assoc.get?_append, hid, get?_entry, Assoc.get?_cons]
  obtain ⟨content, extras, hconstruct⟩ : ∃ content extras, o.cls.construct content extras = .ok o := by
    unfold Event.Built at hbuilt
    rwa [hbody] at hbuilt
  have hread : observationFromDict out data = .ok o := by
    unfold observationFromDict
    rw [hobservation]
    dsimp only
    rw [observationOfType_type, hcontent, hextras]
    show o.cls.construct o.content (handleObservationDeprecatedExtras o.extras) = _
    rw [extras_upToDate, construct_extras hconstruct]
  have hcontains : Assoc.contains "observation" data = true := by
    rw [Assoc.contains, hobservation]
    rfl
  rw [eventFromDict, haction, if_neg Bool.false_ne_true, if_pos hcontains, hread]
  show setUnderscoreKeys out data _ = _
  rw [setUnderscoreKeys_ok hholds hreadable rfl, ← hbody, ← htimeout]

/-- An observation is read without a timeout. -/
theorem eventFromDict_timeout {data : Dict} (h : eventFromDict out data = .ok e)
    (haction : Assoc.contains "action" data = false) : e.timeout = none := by
  unfold eventFromDict at h
  rw [haction, if_neg Bool.false_ne_true] at h
  split_ifs at h
  obtain ⟨o, -, h⟩ := Py.bind_ok h
  obtain ⟨id, -, h⟩ := Py.bind_ok h
  obtain ⟨source, -, h⟩ := Py.bind_ok h
  obtain ⟨cause, -, h⟩ := Py.bind_ok h
  obtain ⟨metadata, -, h⟩ := Py.bind_ok h
  obtain ⟨metrics, -, h⟩ := Py.bind_ok h
  cases h
  rfl

/-- The reason an agent gives for a rejection is a text. -/
def Event.ReasonIsText (e : Event) : Prop :=
  ∀ a, e.body = .action (.agentReject a) → ∀ v, Assoc.get? "reason" a.outputs = some v →
    ∃ reason, v = .str reason

theorem messageText_ok (out : Outside) {a : Action} (h : ∀ r, a = .agentReject r →
    ∀ v, Assoc.get? "reason" r.outputs = some v → ∃ reason, v = .str reason) :
    ∃ message, a.messageText out = .ok message := by
  cases a with
  | agentReject r =>
    cases hget : Assoc.get? "reason" r.outputs with
    | none => exact ⟨"Task is rejected by the agent.", by simp [Action.messageText, hget]⟩
    | some v =>
      obtain ⟨reason, rfl⟩ := h r rfl v hget
      exact ⟨"Task is rejected by the agent. Reason: " ++ reason, by simp [Action.messageText, hget]⟩
  | _ => exact ⟨_, rfl⟩

/-- What is written of an event is read back as the event. -/
theorem written_and_read (hbuilt : e.Built out) (hreadable : Readable out e)
    (htimeout : e.isAction = true ∨ e.timeout = none) (hreason : e.ReasonIsText) :
    ∃ data, eventToDict out e = .ok data ∧ eventFromDict out data = .ok e := by
  cases hbody : e.body with
  | action a =>
    obtain ⟨message, hmessage⟩ := messageText_ok out (a := a) fun r hr => hreason r (hr ▸ hbody)
    refine ⟨_, ?_, eventFromDict_action hbody hbuilt hreadable message⟩
    rw [eventToDict, Event.toDict, hbody]
    dsimp only
    rw [hmessage]
    rfl
  | observation o =>
    have hnone : e.timeout = none := by
      rcases htimeout with haction | hnone
      · simp [Event.isAction, hbody] at haction
      · exact hnone
    refine ⟨_, ?_, eventFromDict_observation hbody hbuilt hreadable hnone⟩
    rw [eventToDict, Event.toDict, hbody]
  | plain =>
    unfold Event.Built at hbuilt
    rw [hbody] at hbuilt
    exact hbuilt.elim

/-- Only actions keep their timeout. -/
theorem eventFromDict_eventToDict (hbuilt : e.Built out) (hdicts : e.WellFormed out)
    (hreadable : Readable out e) (htimeout : e.isAction = true ∨ e.timeout = none)
    (hreason : e.ReasonIsText) :
    ∃ data, eventToDict out e = .ok data ∧
      Json.loads (Json.dumps (.obj data)) = some (.obj data) ∧ eventFromDict out data = .ok e := by
  obtain ⟨data, hto, hfrom⟩ := written_and_read hbuilt hreadable htimeout hreason
  exact ⟨data, hto, Json.loads_dumps (eventToDict_wellFormed hdicts hto), hfrom⟩

/-! An outside whose responses have no tool calls, and one event of each kind. -/

def textOutside : Outside where
  repr _ := ""
  literalEval _ := none
  dumpResponse r := .obj [("id", .str r.id), ("content", .ofOpt .str r.message.content)]
  readResponse v :=
    match v with
    | .obj fields => do
      let id ← Fields.required fields "id" Json.str?
      let content ← Fields.required fields "content" (Json.opt? Json.str?)
      return ⟨id, ⟨.assistant, content, none, rfl⟩⟩
    | _ => .error (.typeError "argument after ** must be a mapping")
  now := .zero
  version := "0"

def fullEvent : Event where
  body := .action (.cmdRun { command := "ls", isInput := true })
  id := 3
  timestamp := some "2025"
  source := some .agent
  cause := some 2
  timeout := some (.ofInt 120)
  toolCallMetadata := some ⟨"execute_bash", "call_1", ⟨"r1", ⟨.assistant, some "ls", none, rfl⟩⟩, 1⟩
  llmMetrics := some {}

theorem fullEvent_roundTrip : ∃ data, eventToDict textOutside fullEvent = .ok data ∧
    Json.loads (Json.dumps (.obj data)) = some (.obj data) ∧
    eventFromDict textOutside data = .ok fullEvent := by
  refine eventFromDict_eventToDict ⟨[("command", .str "ls"), ("is_input", .bool true)], rfl⟩
    ⟨?_, nofun, ?_⟩ ⟨?_, ?_⟩ (.inl rfl) nofun
  · intro a ha
    cases ha
    simp [DictWellFormed, Action.args, Json.WellFormed, Json.WellFormedMembers, Json.ofOpt,
      Unchecked.toJson]
  · intro m hm
    cases hm
    simp [textOutside, Json.WellFormed, Json.WellFormedMembers, Json.ofOpt]
  · intro m hm
    cases hm
    rfl
  · intro m hm
    cases hm
    rfl

def timedObservation : Event :=
  { body := .observation (.null ⟨"done"⟩), id := 4, timeout := some (.ofInt 120) }

theorem timedObservation_timeoutLost : timedObservation.Built textOutside ∧
    timedObservation.WellFormed textOutside ∧ Readable textOutside timedObservation ∧
    timedObservation.ReasonIsText ∧
    ¬ ∃ data, eventToDict textOutside timedObservation = .ok data ∧
      Json.loads (Json.dumps (.obj data)) = some (.obj data) ∧
      eventFromDict textOutside data = .ok timedObservation := by
  have hextras : ∀ o, timedObservation.body = .observation o → DictWellFormed o.extras := by
    intro o ho
    cases ho
    simp [DictWellFormed, Observation.extras, Json.WellFormed, Json.WellFormedMembers]
  refine ⟨⟨"done", [], rfl⟩, ⟨fun a ha => ?_, hextras, fun m hm => ?_⟩,
    ⟨fun m hm => ?_, fun m hm => ?_⟩, fun a ha => ?_, ?_⟩
  · cases ha
  · cases hm
  · cases hm
  · cases hm
  · cases ha
  · rintro ⟨data, hto, -, hfrom⟩
    cases hto
    have hnone := eventFromDict_timeout hfrom rfl
    cases hnone

end Events

/-! ## Events that were read -/

section ReadBack

variable {out : Outside} {e : Event} {data : Dict}

theorem actionConstruct_cls {c : ActionClass} {args : Dict} {a : Action}
    (h : c.construct out args = .ok a) : a.cls = c := by
  obtain ⟨_, -, h⟩ := Py.bind_ok h
  cases c with
  | null | condensationRequest =>
    cases h
    rfl
  | agentThink | loopRecovery =>
    obtain ⟨_, -, h⟩ := Py.bind_ok h
    cases h
    rfl
  | agentReject | changeAgentState =>
    iterate 2 obtain ⟨_, -, h⟩ := Py.bind_ok h
    cases h
    rfl
  | agentFinish | agentDelegate | recallAction | taskTracking =>
    iterate 3 obtain ⟨_, -, h⟩ := Py.bind_ok h
    cases h
    rfl
  | browseURL | systemMessage | mcp =>
    iterate 4 obtain ⟨_, -, h⟩ := Py.bind_ok h
    cases h
    rfl
  | browseInteractive | message =>
    iterate 5 obtain ⟨_, -, h⟩ := Py.bind_ok h
    cases h
    rfl
  | ipythonRunCell | fileWrite =>
    iterate 6 obtain ⟨_, -, h⟩ := Py.bind_ok h
    cases h
    rfl
  | fileRead =>
    iterate 7 obtain ⟨_, -, h⟩ := Py.bind_ok h
    cases h
    rfl
  | cmdRun =>
    iterate 9 obtain ⟨_, -, h⟩ := Py.bind_ok h
    cases h
    rfl
  | fileEdit =>
    iterate 12 obtain ⟨_, -, h⟩ := Py.bind_ok h
    cases h
    rfl
  | condensation =>
    iterate 5 obtain ⟨_, -, h⟩ := Py.bind_ok h
    split_ifs at h
    cases h
    rfl
theorem observationConstruct_cls {c : ObservationClass} {content : String} {extras : Dict}
    {o : Observation} (h : c.construct content extras = .ok o) : o.cls = c := by
  cases c with
  | null | success | userReject | agentCondensation | agentThink | loopDetection =>
    obtain ⟨_, -, h⟩ := Py.bind_ok h
    cases h
    rfl
  | fileWrite | agentDelegate | error | fileDownload =>
    iterate 2 obtain ⟨_, -, h⟩ := Py.bind_ok h
    cases h
    rfl
  | cmdOutput | ipythonRunCell | fileRead | agentStateChanged | mcp | taskTracking =>
    iterate 3 obtain ⟨_, -, h⟩ := Py.bind_ok h
    cases h
    rfl
  | fileEdit =>
    iterate 8 obtain ⟨_, -, h⟩ := Py.bind_ok h
    cases h
    rfl
  | recallObservation =>
    iterate 14 obtain ⟨_, -, h⟩ := Py.bind_ok h
    cases h
    rfl
  | browserOutput =>
    iterate 17 obtain ⟨_, -, h⟩ := Py.bind_ok h
    cases h
    rfl

theorem actionFromDict_construct {r : ReadAction} (h : actionFromDict out data = .ok r) :
    ∃ args, r.action.cls.construct out args = .ok r.action := by
  unfold actionFromDict at h
  split at h
  · cases h
  · split at h
    · cases h
    next c _ =>
      obtain ⟨args, -, h⟩ := Py.bind_ok h
      split at h
      next action _ haction _ =>
        cases h
        exact ⟨args, actionConstruct_cls haction ▸ haction⟩
      all_goals cases h
  · cases h

theorem observationFromDict_construct {o : Observation} (h : observationFromDict out data = .ok o) :
    ∃ content extras, o.cls.construct content extras = .ok o := by
  unfold observationFromDict at h
  split at h
  · cases h
  · split at h
    · cases h
    next c _ =>
      obtain ⟨content, -, h⟩ := Py.bind_ok h
      obtain ⟨extras, -, h⟩ := Py.bind_ok h
      exact ⟨content, _, observationConstruct_cls h ▸ h⟩
  · cases h

theorem setUnderscoreKeys_keeps {e₀ : Event} (h : setUnderscoreKeys out data e₀ = .ok e) :
    e.body = e₀.body ∧ e.timeout = e₀.timeout := by
  iterate 5 obtain ⟨_, -, h⟩ := Py.bind_ok h
  cases h
  exact ⟨rfl, rfl⟩

/-- What is read has been built by its class, and an observation has no timeout. -/
theorem eventFromDict_built (h : eventFromDict out data = .ok e) :
    e.Built out ∧ (e.isAction = true ∨ e.timeout = none) := by
  unfold eventFromDict at h
  split_ifs at h
  · obtain ⟨r, hr, h⟩ := Py.bind_ok h
    obtain ⟨hbody, -⟩ := setUnderscoreKeys_keeps h
    unfold Event.Built Event.isAction
    rw [hbody]
    exact ⟨actionFromDict_construct hr, .inl rfl⟩
  · obtain ⟨o, ho, h⟩ := Py.bind_ok h
    obtain ⟨hbody, htimeout⟩ := setUnderscoreKeys_keeps h
    unfold Event.Built
    rw [hbody]
    exact ⟨observationFromDict_construct ho, .inr htimeout⟩

theorem metrics_cost {now : FloatLit} {fields : Dict} {m : Metrics}
    (h : Metrics.ofDict now fields = .ok m) : m.accumulatedCost.isNegative = false := by
  obtain ⟨cost, -, h⟩ := Py.bind_ok h
  dsimp only at h
  split_ifs at h with hneg
  · obtain ⟨_, hraise, -⟩ := Py.bind_ok h
    cases hraise
  · iterate 6 obtain ⟨_, -, h⟩ := Py.bind_ok h
    cases h
    exact Bool.eq_false_iff.mpr hneg

/-- Metrics that were read have a cost that the setter accepts. -/
theorem eventFromDict_cost (h : eventFromDict out data = .ok e) :
    ∀ m, e.llmMetrics = some m → m.accumulatedCost.isNegative = false := by
  have hkeys {e₀ : Event} (h : setUnderscoreKeys out data e₀ = .ok e) :
      ∀ m, e.llmMetrics = some m → m.accumulatedCost.isNegative = false := by
    iterate 4 obtain ⟨_, -, h⟩ := Py.bind_ok h
    obtain ⟨metrics, hmetrics, h⟩ := Py.bind_ok h
    cases h
    intro m hm
    obtain rfl : metrics = some m := hm
    unfold readKey at hmetrics
    cases hget : Assoc.get? "llm_metrics" data with
    | none =>
      rw [hget] at hmetrics
      cases hmetrics
    | some v =>
      rw [hget, Option.mapM_some] at hmetrics
      obtain ⟨m', hm', heq⟩ := Py.map_ok hmetrics
      cases heq
      cases v with
      | obj fields => exact metrics_cost hm'
      | _ =>
        cases hm'
        rfl
  unfold eventFromDict at h
  split_ifs at h
  · obtain ⟨r, -, h⟩ := Py.bind_ok h
    exact hkeys h
  · obtain ⟨o, -, h⟩ := Py.bind_ok h
    exact hkeys h

end ReadBack

end OpenHands
