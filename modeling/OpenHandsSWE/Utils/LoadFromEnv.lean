import OpenHandsSWE.Lib.Assoc
import OpenHandsSWE.Lib.Python

/-! The environment sets the fields of a configuration: each from a variable of its own, cast to the type of the field. -/

namespace OpenHands.LoadFromEnv

/-! ## Values and types -/

/-- What a cast raises. -/
inductive Raised where
  | valueError | typeError | syntaxError | memoryError | recursionError | attributeError | other
deriving DecidableEq

/-- `except (ValueError, TypeError)`. -/
def Raised.caught (e : Raised) : Bool := e ∈ [.valueError, .typeError]

/-- A value: a text, a list or a dict, something else with items, or an object without any. -/
inductive Value (Ω : Type) where
  | bool (b : Bool)
  | str (text : List Char)
  | list (items : List (Value Ω))
  | several (items : List (Value Ω))
  | dict (items : List (Value Ω × Value Ω))
  | object (o : Ω)

variable {Ω : Type}

/-- The annotation of a field. A class is called with the text; a dict or a list has a check that its annotation stands for,
and a list may be one of models. -/
inductive PlainType (Ω : Type) where
  | bool
  | dict (fits : Value Ω → Bool)
  | list (fits : Value Ω → Bool) (inner : Option (List (Value Ω × Value Ω) → Except Raised (Value Ω)))
  | other (call : List Char → Except Raised (Value Ω))

/-- A union has a type that is not `None`. -/
inductive FieldType (Ω : Type) where
  | plain (type : PlainType Ω)
  | union (first : PlainType Ω) (others : List (PlainType Ω))

/-- The first type of a union that is not `None`. -/
def getOptionalType : FieldType Ω → PlainType Ω
  | .plain type => type
  | .union first _ => first

/-- The value fits the annotation. -/
def PlainType.fits : PlainType Ω → Value Ω → Bool
  | .dict fits, .dict items => fits (.dict items)
  | .list fits _, .list items => fits (.list items)
  | .dict _, _ => false
  | .list _ _, _ => false
  | _, _ => true

/-! ## The walk -/

abbrev Env := List Char → Option (List Char)

abbrev LiteralEval (Ω : Type) := List Char → Except Raised (Value Ω)

/-- The fields of a model, in order: one has a value, or is a model itself. -/
inductive Fields (Ω : Type) where
  | nil
  | leaf (name : List Char) (type : FieldType Ω) (value : Value Ω) (rest : Fields Ω)
  | model (name : List Char) (sub rest : Fields Ω)

def upper (cs : List Char) : List Char := cs.map Char.toUpper

def lower (cs : List Char) : List Char := cs.map Char.toLower

def Value.iterate : Value Ω → Except Raised (List (Value Ω))
  | .list items => .ok items
  | .several items => .ok items
  | .dict items => .ok (items.map Prod.fst)
  | .str text => .ok (text.map fun c => .str [c])
  | .bool _ => .error .typeError
  | .object _ => .error .typeError

/-- A dict among the items becomes a model. -/
def makeModel (inner : List (Value Ω × Value Ω) → Except Raised (Value Ω)) : Value Ω → Except Raised (Value Ω)
  | .dict items => inner items
  | item => .ok item

def cast (literalEval : LiteralEval Ω) (type : PlainType Ω) (value : List Char) : Except Raised (Value Ω) :=
  match type with
  | .bool => .ok (.bool (["true".toList, "1".toList].contains (lower value)))
  | .dict _ => literalEval value
  | .list _ none => literalEval value
  | .list _ (some inner) =>
    (literalEval value).bind fun cast => cast.iterate.bind fun items => (items.mapM (makeModel inner)).map .list
  | .other call => call value

/-- One field of the loop of `set_attr_from_env`. -/
def setField (literalEval : LiteralEval Ω) (env : Env) (name : List Char) (type : FieldType Ω) (fieldValue : Value Ω) :
    Except Raised (Value Ω) :=
  match env name with
  | none => .ok fieldValue
  | some [] => .ok fieldValue
  | some value =>
    match cast literalEval (getOptionalType type) value with
    | .ok castValue => .ok castValue
    | .error e => if e.caught then .ok fieldValue else .error e

def envVarName (start name : List Char) : List Char := upper (start ++ name)

def setAttrFromEnv (literalEval : LiteralEval Ω) (env : Env) : List Char → Fields Ω → Except Raised (Fields Ω)
  | _, .nil => .ok .nil
  | start, .leaf name type value rest =>
    (setField literalEval env (envVarName start name) type value).bind fun value =>
      (setAttrFromEnv literalEval env start rest).map (.leaf name type value)
  | start, .model name sub rest =>
    (setAttrFromEnv literalEval env (name ++ ['_']) sub).bind fun sub =>
      (setAttrFromEnv literalEval env start rest).map (.model name sub)

/-! ## The whole configuration -/

/-- The default configurations of a language model and of an agent. -/
structure Defaults (Ω : Type) where
  llm : Fields Ω
  agent : Fields Ω

structure OpenHandsConfig (Ω : Type) where
  llms : List (List Char × Fields Ω)
  agents : List (List Char × Fields Ω)
  fields : Fields Ω

/-- A dict of configurations, which a literal may have replaced. -/
inductive Group (Ω : Type) where
  | models (entries : List (List Char × Fields Ω))
  | literal (value : Value Ω)

/-- A literal dict to which a default configuration was added is one of its own. -/
inductive Loaded (Ω : Type) where
  | models (entries : List (List Char × Fields Ω))
  | mixed (items : List (Value Ω × Value Ω)) (added : Fields Ω)

structure LoadedConfig (Ω : Type) where
  llms : Loaded Ω
  agents : Loaded Ω
  fields : Fields Ω

/-- The empty dict holds no literals. -/
def Group.ofValue : Value Ω → Group Ω
  | .dict [] => .models []
  | value => .literal value

def setGroup (literalEval : LiteralEval Ω) (env : Env) (name : List Char) (entries : List (List Char × Fields Ω)) :
    Except Raised (Group Ω) :=
  match env name with
  | none => .ok (.models entries)
  | some [] => .ok (.models entries)
  | some value =>
    match literalEval value with
    | .ok castValue => .ok (.ofValue castValue)
    | .error e => if e.caught then .ok (.models entries) else .error e

def Value.isStr (text : List Char) : Value Ω → Bool
  | .str other => other = text
  | _ => false

/-- The default configuration of a group, which is added when the group has none. -/
def defaultOf (name : List Char) (default : Fields Ω) (entries : List (List Char × Fields Ω)) : Fields Ω :=
  (Assoc.get? name entries).getD default

/-- `get_llm_config()` or `get_agent_config()`, and the walk over what it returns: no literal can be walked over. -/
def setDefault (literalEval : LiteralEval Ω) (env : Env) (start name : List Char) (default : Fields Ω) :
    Group Ω → Except Raised (Loaded Ω)
  | .models entries =>
    (setAttrFromEnv literalEval env start (defaultOf name default entries)).map fun fields =>
      .models (Assoc.set name fields entries)
  | .literal (.dict items) =>
    if items.any fun item => item.1.isStr name then .error .attributeError
    else (setAttrFromEnv literalEval env start default).map (.mixed items)
  | .literal _ => .error .typeError

def loadFromEnv (literalEval : LiteralEval Ω) (defaults : Defaults Ω) (env : Env) (cfg : OpenHandsConfig Ω) :
    Except Raised (LoadedConfig Ω) :=
  (setGroup literalEval env "LLMS".toList cfg.llms).bind fun llms =>
    (setGroup literalEval env "AGENTS".toList cfg.agents).bind fun agents =>
      (setAttrFromEnv literalEval env [] cfg.fields).bind fun fields =>
        (setDefault literalEval env "LLM_".toList "llm".toList defaults.llm llms).bind fun llms =>
          (setDefault literalEval env "AGENT_".toList "agent".toList defaults.agent agents).map fun agents =>
            { llms, agents, fields }

/-! ## What is expected -/

section

variable (literalEval : LiteralEval Ω) (defaults : Defaults Ω) (env : Env)

/-- The text converted to the type, when it can be. -/
def converted (type : PlainType Ω) (value : List Char) : Option (Value Ω) :=
  match cast literalEval type value with
  | .ok castValue => if type.fits castValue then some castValue else none
  | .error _ => none

/-- A field keeps its value unless its variable can be converted. -/
def expectedField (name : List Char) (type : FieldType Ω) (fieldValue : Value Ω) : Value Ω :=
  match env name with
  | none => fieldValue
  | some [] => fieldValue
  | some value => (converted literalEval (getOptionalType type) value).getD fieldValue

def expectedFields : List Char → Fields Ω → Fields Ω
  | _, .nil => .nil
  | start, .leaf name type value rest =>
    .leaf name type (expectedField literalEval env (envVarName start name) type value) (expectedFields start rest)
  | start, .model name sub rest => .model name (expectedFields (name ++ ['_']) sub) (expectedFields start rest)

/-- A literal holds no configurations, so that only the empty dict is a dict of them. -/
def expectedGroup (name : List Char) (entries : List (List Char × Fields Ω)) : List (List Char × Fields Ω) :=
  match env name with
  | none => entries
  | some [] => entries
  | some value => match literalEval value with
    | .ok (.dict []) => []
    | _ => entries

def expectedDefault (start name : List Char) (default : Fields Ω) (entries : List (List Char × Fields Ω)) : Loaded Ω :=
  .models (Assoc.set name (expectedFields literalEval env start (defaultOf name default entries)) entries)

def expected (cfg : OpenHandsConfig Ω) : LoadedConfig Ω where
  llms := expectedDefault literalEval env "LLM_".toList "llm".toList defaults.llm
    (expectedGroup literalEval env "LLMS".toList cfg.llms)
  agents := expectedDefault literalEval env "AGENT_".toList "agent".toList defaults.agent
    (expectedGroup literalEval env "AGENTS".toList cfg.agents)
  fields := expectedFields literalEval env [] cfg.fields

/-- The value of a field, by its path. -/
def Fields.get? : List (List Char) → Fields Ω → Option (Value Ω)
  | _, .nil => none
  | path, .leaf name _ value rest => if path = [name] then some value else get? path rest
  | path, .model name sub rest => if path.head? = some name ∧ path.tail ≠ [] then get? path.tail sub else get? path rest

/-- The variable of a field, by its path. -/
def variableOf : List Char → List (List Char) → List Char
  | start, [] => upper start
  | start, [name] => envVarName start name
  | _, name :: path => variableOf (name ++ ['_']) path

def Loaded.get? (name : List Char) (path : List (List Char)) : Loaded Ω → Option (Value Ω)
  | .models entries => (Assoc.get? name entries).bind (Fields.get? path)
  | .mixed _ added => added.get? path

/-- A field is as before under another environment that has its variable as before, and the variable of the dict that holds
it. -/
structure KeepsOwn (env' : Env) (loaded loaded' : LoadedConfig Ω) : Prop where
  fields : ∀ path, env' (variableOf [] path) = env (variableOf [] path) → loaded'.fields.get? path = loaded.fields.get? path
  llm : env' "LLMS".toList = env "LLMS".toList → ∀ path,
    env' (variableOf "LLM_".toList path) = env (variableOf "LLM_".toList path) →
      loaded'.llms.get? "llm".toList path = loaded.llms.get? "llm".toList path
  agent : env' "AGENTS".toList = env "AGENTS".toList → ∀ path,
    env' (variableOf "AGENT_".toList path) = env (variableOf "AGENT_".toList path) →
      loaded'.agents.get? "agent".toList path = loaded.agents.get? "agent".toList path

/-- Nothing is raised, each field keeps its value or has that of its variable, and no other variable changes it. -/
structure SpoilsOnlyOwn (cfg : OpenHandsConfig Ω) : Prop where
  loads : loadFromEnv literalEval defaults env cfg = .ok (expected literalEval defaults env cfg)
  own : ∀ env' loaded', loadFromEnv literalEval defaults env' cfg = .ok loaded' →
    KeepsOwn env env' (expected literalEval defaults env cfg) loaded'

/-! ## The condition -/

structure Leaf (Ω : Type) where
  name : List Char
  type : PlainType Ω
  value : Value Ω

/-- The fields that have variables, with their variables. -/
def leaves : List Char → Fields Ω → List (Leaf Ω)
  | _, .nil => []
  | start, .leaf name type value rest => ⟨envVarName start name, getOptionalType type, value⟩ :: leaves start rest
  | start, .model name sub rest => leaves (name ++ ['_']) sub ++ leaves start rest

/-- What a variable that is not empty is cast to fits the field or is its value, or the cast raises what is caught. -/
def Leaf.Converts (leaf : Leaf Ω) : Prop :=
  ∀ value, env leaf.name = some value → value ≠ [] →
    (∃ castValue, cast literalEval leaf.type value = .ok castValue ∧ (leaf.type.fits castValue = true ∨ castValue = leaf.value)) ∨
      ∃ e, cast literalEval leaf.type value = .error e ∧ e.caught = true

/-- A variable of a group that is not empty is an empty dict, or raises what is caught. -/
def GroupConverts (name : List Char) : Prop :=
  ∀ value, env name = some value → value ≠ [] →
    literalEval value = .ok (.dict []) ∨ ∃ e, literalEval value = .error e ∧ e.caught = true

structure EachConverts (cfg : OpenHandsConfig Ω) : Prop where
  llms : GroupConverts literalEval env "LLMS".toList
  agents : GroupConverts literalEval env "AGENTS".toList
  fields : ∀ leaf ∈ leaves [] cfg.fields, leaf.Converts literalEval env
  llm : ∀ leaf ∈ leaves "LLM_".toList (defaultOf "llm".toList defaults.llm (expectedGroup literalEval env "LLMS".toList cfg.llms)),
    leaf.Converts literalEval env
  agent : ∀ leaf ∈ leaves "AGENT_".toList
      (defaultOf "agent".toList defaults.agent (expectedGroup literalEval env "AGENTS".toList cfg.agents)),
    leaf.Converts literalEval env

end

/-! ## One field -/

section

variable {literalEval : LiteralEval Ω} {defaults : Defaults Ω} {env env' : Env}

theorem bind_map_ok_iff {ε α β γ : Type*} {x : Except ε α} {y : Except ε β} {f : α → β → γ} (hf : Function.Injective2 f) {a : α} {b : β} :
    (x.bind fun a => y.map (f a)) = .ok (f a b) ↔ x = .ok a ∧ y = .ok b := by
  constructor
  · intro h
    obtain ⟨a', rfl, h⟩ := Py.bind_ok h
    obtain ⟨b', rfl, heq⟩ := Py.map_ok h
    obtain ⟨rfl, rfl⟩ := hf heq
    exact ⟨rfl, rfl⟩
  · rintro ⟨rfl, rfl⟩
    rfl

/-- What holds of the text of a variable, when it is set and not empty. -/
theorem forall_text_iff {text? : Option (List Char)} {P : List Char → Prop} :
    (∀ text, text? = some text → text ≠ [] → P text) ↔ ∀ c cs, text? = some (c :: cs) → P (c :: cs) := by
  constructor
  · exact fun h c cs htext => h _ htext (List.cons_ne_nil c cs)
  · rintro h (_ | ⟨c, cs⟩) htext hne
    · exact absurd rfl hne
    · exact h c cs htext

/-- A field is set as expected exactly when its variable converts. -/
theorem setField_iff {name : List Char} {type : FieldType Ω} {value : Value Ω} :
    setField literalEval env name type value = .ok (expectedField literalEval env name type value) ↔
      Leaf.Converts literalEval env ⟨name, getOptionalType type, value⟩ := by
  rw [setField, expectedField, Leaf.Converts, forall_text_iff]
  dsimp only
  rcases env name with _ | _ | ⟨c, cs⟩
  · exact iff_of_true rfl fun _ _ h => by cases h
  · exact iff_of_true rfl fun _ _ h => by cases h
  dsimp only
  rw [converted]
  cases hcast : cast literalEval (getOptionalType type) (c :: cs) with
  | error e =>
    dsimp only
    by_cases hcaught : e.caught = true
    · rw [if_pos hcaught]
      refine iff_of_true rfl fun d ds hds => .inr ⟨e, ?_, hcaught⟩
      rw [← Option.some.inj hds, hcast]
    · rw [if_neg hcaught]
      refine iff_of_false (fun h => by cases h) fun h => ?_
      obtain ⟨v, hv, -⟩ | ⟨e', he, hcaught'⟩ := h c cs rfl
      · cases hcast.symm.trans hv
      · obtain rfl := Except.error.inj (hcast.symm.trans he)
        exact hcaught hcaught'
  | ok castValue =>
    dsimp only
    by_cases hfits : (getOptionalType type).fits castValue = true
    · rw [if_pos hfits]
      refine iff_of_true rfl fun d ds hds => .inl ⟨castValue, ?_, .inl hfits⟩
      rw [← Option.some.inj hds, hcast]
    · rw [if_neg hfits]
      constructor
      · refine fun h d ds hds => .inl ⟨castValue, ?_, .inr (Except.ok.inj h)⟩
        rw [← Option.some.inj hds, hcast]
      · intro h
        obtain ⟨v, hv, hgood⟩ | ⟨e, he, -⟩ := h c cs rfl
        · obtain rfl := Except.ok.inj (hcast.symm.trans hv)
          exact congrArg Except.ok (hgood.resolve_left hfits)
        · cases hcast.symm.trans he

theorem leaf_injective (name : List Char) (type : FieldType Ω) : Function.Injective2 (Fields.leaf name type) := by
  intro a a' b b' h
  injection h with _ _ hvalue hrest
  exact ⟨hvalue, hrest⟩

theorem model_injective (name : List Char) : Function.Injective2 (Fields.model (Ω := Ω) name) := by
  intro a a' b b' h
  injection h with _ hsub hrest
  exact ⟨hsub, hrest⟩

/-- All fields of a model are set as expected exactly when all their variables convert. -/
theorem setAttrFromEnv_iff {start : List Char} {fields : Fields Ω} :
    setAttrFromEnv literalEval env start fields = .ok (expectedFields literalEval env start fields) ↔
      ∀ leaf ∈ leaves start fields, leaf.Converts literalEval env := by
  induction fields generalizing start with
  | nil => exact iff_of_true rfl (List.forall_mem_nil _)
  | leaf name type value rest ih =>
    rw [setAttrFromEnv, expectedFields, leaves, List.forall_mem_cons, bind_map_ok_iff (leaf_injective name type), setField_iff, ih]
  | model name sub rest ihsub ihrest =>
    rw [setAttrFromEnv, expectedFields, leaves, List.forall_mem_append, bind_map_ok_iff (model_injective name), ihsub, ihrest]

theorem setField_congr {name : List Char} (h : env' name = env name) (type : FieldType Ω) (value : Value Ω) :
    setField literalEval env' name type value = setField literalEval env name type value := by
  rw [setField, h, setField]

/-- A field depends on its own variable only. -/
theorem get?_setAttrFromEnv {start : List Char} {path : List (List Char)} {fields set set' : Fields Ω}
    (h : setAttrFromEnv literalEval env start fields = .ok set) (h' : setAttrFromEnv literalEval env' start fields = .ok set')
    (hsame : env' (variableOf start path) = env (variableOf start path)) : set'.get? path = set.get? path := by
  induction fields generalizing start path set set' with
  | nil =>
    obtain rfl := Except.ok.inj h
    obtain rfl := Except.ok.inj h'
    rfl
  | leaf name type value rest ih =>
    obtain ⟨v, hv, h⟩ := Py.bind_ok h
    obtain ⟨r, hr, rfl⟩ := Py.map_ok h
    obtain ⟨v', hv', h'⟩ := Py.bind_ok h'
    obtain ⟨r', hr', rfl⟩ := Py.map_ok h'
    rw [Fields.get?, Fields.get?]
    by_cases hpath : path = [name]
    · rw [if_pos hpath, if_pos hpath]
      rw [hpath] at hsame
      have hname : env' (envVarName start name) = env (envVarName start name) := hsame
      rw [setField_congr hname, hv] at hv'
      rw [Except.ok.inj hv']
    · rw [if_neg hpath, if_neg hpath]
      exact ih hr hr' hsame
  | model name sub rest ihsub ihrest =>
    obtain ⟨u, hu, h⟩ := Py.bind_ok h
    obtain ⟨r, hr, rfl⟩ := Py.map_ok h
    obtain ⟨u', hu', h'⟩ := Py.bind_ok h'
    obtain ⟨r', hr', rfl⟩ := Py.map_ok h'
    rw [Fields.get?, Fields.get?]
    by_cases hpath : path.head? = some name ∧ path.tail ≠ []
    · rw [if_pos hpath, if_pos hpath]
      obtain ⟨first, second, rfl⟩ : ∃ second rest, path = name :: second :: rest := by
        obtain ⟨tail, rfl⟩ := List.head?_eq_some_iff.mp hpath.1
        obtain ⟨second, rest, htail⟩ := List.exists_cons_of_ne_nil hpath.2
        exact ⟨second, rest, congrArg (name :: ·) htail⟩
      exact ihsub hu hu' hsame
    · rw [if_neg hpath, if_neg hpath]
      exact ihrest hr hr' hsame

end

/-! ## A group of configurations -/

section

variable {literalEval : LiteralEval Ω} {env env' : Env} {name start key : List Char}
  {entries : List (List Char × Fields Ω)} {default : Fields Ω}

theorem ofValue_of_ne {value : Value Ω} (h : value ≠ .dict []) : Group.ofValue value = .literal value := by
  rw [Group.ofValue.eq_def]
  split
  · exact absurd rfl h
  · rfl

/-- A group that converts is as expected; one that does not is a literal, or an error is raised. -/
theorem setGroup_cases (literalEval : LiteralEval Ω) (env : Env) (name : List Char) (entries : List (List Char × Fields Ω)) :
    GroupConverts literalEval env name ∧
        setGroup literalEval env name entries = .ok (.models (expectedGroup literalEval env name entries)) ∨
      ¬ GroupConverts literalEval env name ∧
        ∀ group, setGroup literalEval env name entries = .ok group → ∃ value, group = .literal value := by
  rw [setGroup, expectedGroup, GroupConverts, forall_text_iff]
  rcases env name with _ | _ | ⟨c, cs⟩
  · exact .inl ⟨fun _ _ h => (by cases h), rfl⟩
  · exact .inl ⟨fun _ _ h => (by cases h), rfl⟩
  dsimp only
  cases hcast : literalEval (c :: cs) with
  | error e =>
    by_cases hcaught : e.caught = true
    · refine .inl ⟨fun d ds hds => .inr ⟨e, ?_, hcaught⟩, if_pos hcaught⟩
      rw [← Option.some.inj hds, hcast]
    · refine .inr ⟨fun h => ?_, fun group hgroup => ?_⟩
      · obtain hempty | ⟨e', he, hcaught'⟩ := h c cs rfl
        · cases hcast.symm.trans hempty
        · obtain rfl := Except.error.inj (hcast.symm.trans he)
          exact hcaught hcaught'
      · dsimp only at hgroup
        rw [if_neg hcaught] at hgroup
        cases hgroup
  | ok value =>
    by_cases hempty : value = .dict []
    · refine .inl ⟨fun d ds hds => .inl ?_, ?_⟩
      · rw [← Option.some.inj hds, hcast, hempty]
      · rw [hempty]
        rfl
    · refine .inr ⟨fun h => ?_, fun group hgroup => ⟨value, ?_⟩⟩
      · obtain hdict | ⟨e, he, -⟩ := h c cs rfl
        · exact hempty (Except.ok.inj (hcast.symm.trans hdict))
        · cases hcast.symm.trans he
      · rw [← ofValue_of_ne hempty]
        exact (Except.ok.inj hgroup).symm

theorem setDefault_literal {value : Value Ω} {loaded : Loaded Ω}
    (h : setDefault literalEval env start key default (.literal value) = .ok loaded) : ∃ items added, loaded = .mixed items added := by
  cases value with
  | dict items =>
    rw [setDefault] at h
    split_ifs at h
    obtain ⟨added, -, rfl⟩ := Py.map_ok h
    exact ⟨items, added, rfl⟩
  | _ => cases h

/-- The default configuration of a group is set as expected exactly when the group and all its fields convert. -/
theorem setDefault_iff :
    ((setGroup literalEval env name entries).bind (setDefault literalEval env start key default)) =
        .ok (expectedDefault literalEval env start key default (expectedGroup literalEval env name entries)) ↔
      GroupConverts literalEval env name ∧
        ∀ leaf ∈ leaves start (defaultOf key default (expectedGroup literalEval env name entries)), leaf.Converts literalEval env := by
  obtain ⟨hconverts, hgroup⟩ | ⟨hnot, hgroup⟩ := setGroup_cases literalEval env name entries
  · rw [and_iff_right hconverts, ← setAttrFromEnv_iff, hgroup]
    constructor
    · intro h
      obtain ⟨fields, hfields, heq⟩ := Py.map_ok h
      rw [hfields]
      have hsame := congrArg (Assoc.get? key) (Loaded.models.inj heq)
      rw [Assoc.get?_set_self, Assoc.get?_set_self] at hsame
      exact congrArg Except.ok (Option.some.inj hsame)
    · intro h
      exact congrArg (Except.map _) h
  · refine iff_of_false (fun h => ?_) fun h => hnot h.1
    obtain ⟨group, hset, hdefault⟩ := Py.bind_ok h
    obtain ⟨value, rfl⟩ := hgroup group hset
    obtain ⟨items, added, hmixed⟩ := setDefault_literal hdefault
    cases hmixed

theorem setGroup_congr (h : env' name = env name) :
    setGroup literalEval env' name entries = setGroup literalEval env name entries := by
  rw [setGroup, h, setGroup]

/-- A field of a default configuration depends on its own variable and that of the group. -/
theorem get?_setDefault {group : Group Ω} {loaded loaded' : Loaded Ω} {path : List (List Char)}
    (h : setDefault literalEval env start key default group = .ok loaded)
    (h' : setDefault literalEval env' start key default group = .ok loaded')
    (hsame : env' (variableOf start path) = env (variableOf start path)) : loaded'.get? key path = loaded.get? key path := by
  cases group with
  | models entries =>
    obtain ⟨fields, hfields, rfl⟩ := Py.map_ok h
    obtain ⟨fields', hfields', rfl⟩ := Py.map_ok h'
    rw [Loaded.get?, Loaded.get?, Assoc.get?_set_self, Assoc.get?_set_self]
    exact get?_setAttrFromEnv hfields hfields' hsame
  | literal value =>
    cases value with
    | dict items =>
      rw [setDefault] at h h'
      split_ifs at h h'
      obtain ⟨fields, hfields, rfl⟩ := Py.map_ok h
      obtain ⟨fields', hfields', rfl⟩ := Py.map_ok h'
      exact get?_setAttrFromEnv hfields hfields' hsame
    | _ => cases h

end

/-! ## The whole configuration -/

section

variable {literalEval : LiteralEval Ω} {defaults : Defaults Ω} {env env' : Env} {cfg : OpenHandsConfig Ω}

/-- What a load that raises nothing has done. -/
structure Steps (literalEval : LiteralEval Ω) (defaults : Defaults Ω) (env : Env) (cfg : OpenHandsConfig Ω) (loaded : LoadedConfig Ω) :
    Prop where
  fields : setAttrFromEnv literalEval env [] cfg.fields = .ok loaded.fields
  llms : ((setGroup literalEval env "LLMS".toList cfg.llms).bind
    (setDefault literalEval env "LLM_".toList "llm".toList defaults.llm)) = .ok loaded.llms
  agents : ((setGroup literalEval env "AGENTS".toList cfg.agents).bind
    (setDefault literalEval env "AGENT_".toList "agent".toList defaults.agent)) = .ok loaded.agents

theorem loadFromEnv_ok_iff {loaded : LoadedConfig Ω} :
    loadFromEnv literalEval defaults env cfg = .ok loaded ↔ Steps literalEval defaults env cfg loaded := by
  constructor
  · intro h
    obtain ⟨llms, hllms, h⟩ := Py.bind_ok h
    obtain ⟨agents, hagents, h⟩ := Py.bind_ok h
    obtain ⟨fields, hfields, h⟩ := Py.bind_ok h
    obtain ⟨llm, hllm, h⟩ := Py.bind_ok h
    obtain ⟨agent, hagent, rfl⟩ := Py.map_ok h
    refine ⟨hfields, ?_, ?_⟩
    · rw [hllms]
      exact hllm
    · rw [hagents]
      exact hagent
  · rintro ⟨hfields, hllms, hagents⟩
    obtain ⟨llms, hset, hllm⟩ := Py.bind_ok hllms
    obtain ⟨agents, hset', hagent⟩ := Py.bind_ok hagents
    rw [loadFromEnv, hset, hset', hfields]
    dsimp only [Except.bind]
    rw [hllm, hagent]
    rfl

theorem keepsOwn {loaded loaded' : LoadedConfig Ω} (h : loadFromEnv literalEval defaults env cfg = .ok loaded)
    (h' : loadFromEnv literalEval defaults env' cfg = .ok loaded') : KeepsOwn env env' loaded loaded' := by
  have hsteps := loadFromEnv_ok_iff.mp h
  have hsteps' := loadFromEnv_ok_iff.mp h'
  refine ⟨fun path hsame => get?_setAttrFromEnv hsteps.fields hsteps'.fields hsame, fun hgroup path hsame => ?_, fun hgroup path hsame => ?_⟩
  · obtain ⟨group, hset, hdefault⟩ := Py.bind_ok hsteps.llms
    have hdefault' := hsteps'.llms
    rw [setGroup_congr hgroup, hset] at hdefault'
    exact get?_setDefault hdefault hdefault' hsame
  · obtain ⟨group, hset, hdefault⟩ := Py.bind_ok hsteps.agents
    have hdefault' := hsteps'.agents
    rw [setGroup_congr hgroup, hset] at hdefault'
    exact get?_setDefault hdefault hdefault' hsame

/-- A bad variable spoils only its own field exactly when every variable converts. -/
theorem spoilsOnlyOwn_iff (literalEval : LiteralEval Ω) (defaults : Defaults Ω) (env : Env) (cfg : OpenHandsConfig Ω) :
    SpoilsOnlyOwn literalEval defaults env cfg ↔ EachConverts literalEval defaults env cfg := by
  have hloads : loadFromEnv literalEval defaults env cfg = .ok (expected literalEval defaults env cfg) ↔
      EachConverts literalEval defaults env cfg := by
    rw [loadFromEnv_ok_iff]
    constructor
    · rintro ⟨hfields, hllms, hagents⟩
      obtain ⟨hgroup, hllm⟩ := setDefault_iff.mp hllms
      obtain ⟨hgroup', hagent⟩ := setDefault_iff.mp hagents
      exact ⟨hgroup, hgroup', setAttrFromEnv_iff.mp hfields, hllm, hagent⟩
    · intro h
      exact ⟨setAttrFromEnv_iff.mpr h.fields, setDefault_iff.mpr ⟨h.llms, h.llm⟩, setDefault_iff.mpr ⟨h.agents, h.agent⟩⟩
  rw [← hloads]
  exact ⟨fun h => h.loads, fun h => ⟨h, fun env' loaded' h' => keepsOwn h h'⟩⟩

end

/-- The fields of a nested model have the same variables wherever the model is. -/
theorem variableOf_nested (start start' name next : List Char) (path : List (List Char)) :
    variableOf start (name :: next :: path) = variableOf start' (name :: next :: path) := rfl

/-- A sandbox with variables for its start. -/
def sandboxed : OpenHandsConfig Unit where
  llms := []
  agents := []
  fields := .model "sandbox".toList (.leaf "runtime_startup_env_vars".toList (.plain (.dict fun _ => true)) (.dict []) .nil) .nil

theorem not_spoilsOnlyOwn : ¬ ∀ (literalEval : LiteralEval Unit) (defaults : Defaults Unit) (env : Env) (cfg : OpenHandsConfig Unit),
    SpoilsOnlyOwn literalEval defaults env cfg := by
  intro h
  -- a brace that is not closed is no expression
  have hloads := (h (fun _ => .error .syntaxError) ⟨.nil, .nil⟩
    (fun name => if name = "SANDBOX_RUNTIME_STARTUP_ENV_VARS".toList then some ['{'] else none) sandboxed).loads
  have hraises : loadFromEnv (fun _ => .error .syntaxError) ⟨.nil, .nil⟩
      (fun name => if name = "SANDBOX_RUNTIME_STARTUP_ENV_VARS".toList then some ['{'] else none) sandboxed = .error .syntaxError := rfl
  rw [hraises] at hloads
  cases hloads

end OpenHands.LoadFromEnv
