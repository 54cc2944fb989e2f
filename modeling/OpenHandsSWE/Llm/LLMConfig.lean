import OpenHandsSWE.Lib.OrderedMap

/-! The settings of an LLM, and the sections of a configuration file that they are read from. -/

namespace OpenHands

namespace LLMConfig

/-! ## Values and fields -/

/-- A value of a configuration file or of a field. Numbers that compare equal are one value. -/
inductive Value where
  | none
  | bool (b : Bool)
  | number (x : ℚ)
  | str (s : String)
  | secret (s : String)
  | other (text : String)
  | list (items : List Value)
  | dict (items : List (String × Value))

namespace Value

/-- The table that a value is, if it is one. -/
def table : Value → Option (OrderedMap String Value)
  | .dict items => some (OrderedMap.ofPairs items)
  | _ => Option.none

def isNone : Value → Bool
  | .none => true
  | _ => false

def startsWith (start : String) : Value → Bool
  | .str s => s.startsWith start
  | _ => false

end Value

inductive Field where
  | model | apiKey | baseUrl | apiVersion | awsAccessKeyId | awsSecretAccessKey | awsRegionName | openrouterSiteUrl
  | openrouterAppName | numRetries | retryMultiplier | retryMinWait | retryMaxWait | timeout | maxMessageChars
  | temperature | topP | topK | customLlmProvider | maxInputTokens | maxOutputTokens | inputCostPerToken
  | outputCostPerToken | ollamaBaseUrl | dropParams | modifyParams | disableVision | disableStopWord | cachingPrompt
  | logCompletions | logCompletionsFolder | customTokenizer | nativeToolCalling | reasoningEffort | seed
  | safetySettings | forRouting | correctNum | completionKwargs
deriving DecidableEq

namespace Field

def all : List Field :=
  [.model, .apiKey, .baseUrl, .apiVersion, .awsAccessKeyId, .awsSecretAccessKey, .awsRegionName, .openrouterSiteUrl,
    .openrouterAppName, .numRetries, .retryMultiplier, .retryMinWait, .retryMaxWait, .timeout, .maxMessageChars,
    .temperature, .topP, .topK, .customLlmProvider, .maxInputTokens, .maxOutputTokens, .inputCostPerToken,
    .outputCostPerToken, .ollamaBaseUrl, .dropParams, .modifyParams, .disableVision, .disableStopWord, .cachingPrompt,
    .logCompletions, .logCompletionsFolder, .customTokenizer, .nativeToolCalling, .reasoningEffort, .seed,
    .safetySettings, .forRouting, .correctNum, .completionKwargs]

def name : Field → String
  | .model => "model"
  | .apiKey => "api_key"
  | .baseUrl => "base_url"
  | .apiVersion => "api_version"
  | .awsAccessKeyId => "aws_access_key_id"
  | .awsSecretAccessKey => "aws_secret_access_key"
  | .awsRegionName => "aws_region_name"
  | .openrouterSiteUrl => "openrouter_site_url"
  | .openrouterAppName => "openrouter_app_name"
  | .numRetries => "num_retries"
  | .retryMultiplier => "retry_multiplier"
  | .retryMinWait => "retry_min_wait"
  | .retryMaxWait => "retry_max_wait"
  | .timeout => "timeout"
  | .maxMessageChars => "max_message_chars"
  | .temperature => "temperature"
  | .topP => "top_p"
  | .topK => "top_k"
  | .customLlmProvider => "custom_llm_provider"
  | .maxInputTokens => "max_input_tokens"
  | .maxOutputTokens => "max_output_tokens"
  | .inputCostPerToken => "input_cost_per_token"
  | .outputCostPerToken => "output_cost_per_token"
  | .ollamaBaseUrl => "ollama_base_url"
  | .dropParams => "drop_params"
  | .modifyParams => "modify_params"
  | .disableVision => "disable_vision"
  | .disableStopWord => "disable_stop_word"
  | .cachingPrompt => "caching_prompt"
  | .logCompletions => "log_completions"
  | .logCompletionsFolder => "log_completions_folder"
  | .customTokenizer => "custom_tokenizer"
  | .nativeToolCalling => "native_tool_calling"
  | .reasoningEffort => "reasoning_effort"
  | .seed => "seed"
  | .safetySettings => "safety_settings"
  | .forRouting => "for_routing"
  | .correctNum => "correct_num"
  | .completionKwargs => "completion_kwargs"

/-- The value of a field that is not given. -/
def default (logDir : String) : Field → Value
  | .model => .str "claude-sonnet-4-20250514"
  | .openrouterSiteUrl => .str "https://docs.all-hands.dev/"
  | .openrouterAppName => .str "OpenHands"
  | .numRetries => .number 5
  | .retryMultiplier => .number 8
  | .retryMinWait => .number 8
  | .retryMaxWait => .number 64
  | .maxMessageChars => .number 30000
  | .temperature => .number 0
  | .topP => .number 1
  | .dropParams | .modifyParams | .cachingPrompt => .bool true
  | .disableStopWord | .logCompletions | .forRouting => .bool false
  | .logCompletionsFolder => .str (logDir ++ "/completions")
  | .correctNum => .number 5
  | .apiKey | .baseUrl | .apiVersion | .awsAccessKeyId | .awsSecretAccessKey | .awsRegionName | .timeout | .topK
  | .customLlmProvider | .maxInputTokens | .maxOutputTokens | .inputCostPerToken | .outputCostPerToken | .ollamaBaseUrl
  | .disableVision | .customTokenizer | .nativeToolCalling | .reasoningEffort | .seed | .safetySettings
  | .completionKwargs => .none

def ofName (name : String) : Option Field := all.find? fun f => f.name = name

theorem mem_all (f : Field) : f ∈ all := by
  cases f <;> decide

theorem nodup_names : (all.map name).Nodup := by
  decide

theorem name_injective : Function.Injective name := fun f g h =>
  List.inj_on_of_nodup_map nodup_names (mem_all f) (mem_all g) h

theorem ofName_name (f : Field) : ofName f.name = some f := by
  cases hf : ofName f.name with
  | none =>
    have hnot := List.find?_eq_none.mp hf f (mem_all f)
    simp at hnot
  | some g => rw [name_injective (by simpa using List.find?_some hf : g.name = f.name)]

end Field

/-- How the values of the fields are checked: what is accepted stays as it is when it is checked again, and so do
the defaults, a text for the version of the API and a table of completion arguments. -/
structure Validation where
  logDir : String
  check : Field → Value → Option Value
  check_idem : ∀ {f v w}, check f v = some w → check f w = some w
  check_default : ∀ f, check f (f.default logDir) = some (f.default logDir)
  check_apiVersion : ∀ s, check .apiVersion (.str s) = some (.str s)
  check_completionKwargs : ∀ items, check .completionKwargs (.dict items) = some (.dict items)

end LLMConfig

abbrev LLMConfig := LLMConfig.Field → LLMConfig.Value

namespace LLMConfig

section Reading

variable (v : Validation)

def accepts (key : String) (value : Value) : Bool := (Field.ofName key).any fun f => (v.check f value).isSome

/-- The fields before the hook that follows the construction. -/
def fieldsOf (data : OrderedMap String Value) : LLMConfig := fun f =>
  ((data.get? f.name).bind (v.check f)).getD (f.default v.logDir)

def defaultApiVersion : Value := .str "2024-12-01-preview"

/-- `model_post_init`, as far as the fields go. -/
def modelPostInit (config : LLMConfig) : LLMConfig :=
  if (config .model).startsWith "azure" ∧ (config .apiVersion).isNone then
    Function.update config .apiVersion defaultApiVersion
  else config

def modelValidate (data : OrderedMap String Value) : Option LLMConfig :=
  if data.entries.all fun kv => accepts v kv.1 kv.2 then some (modelPostInit (fieldsOf v data)) else none

def modelDump (config : LLMConfig) : OrderedMap String Value where
  entries := Field.all.map fun f => (f.name, config f)
  nodup := by
    rw [List.map_map]
    exact Field.nodup_names

/-- `LLMConfig.from_toml_section`. -/
def fromTomlSection (data : OrderedMap String Value) : OrderedMap String LLMConfig :=
  let baseData := data.filter fun _ value => value.table.isNone
  let customSections := data.entries.filterMap fun kv => kv.2.table.map fun overrides => (kv.1, overrides)
  let baseConfig := (modelValidate v baseData).getD (modelPostInit (fieldsOf v .empty))
  customSections.foldl (fun mapping custom =>
      match modelValidate v ((modelDump baseConfig).update custom.2) with
      | some config => mapping.set custom.1 config
      | none => mapping)
    (OrderedMap.empty.set "llm" baseConfig)

end Reading

/-! ## Sections -/

/-- A table is a custom section, unless it is the value of the one field that takes a table. -/
def isSection (key : String) (value : Value) : Bool :=
  decide (key ≠ Field.completionKwargs.name) && value.table.isSome

/-- An `[llm]` section: fields with values that are accepted, and custom sections. -/
structure LlmSection (v : Validation) where
  data : OrderedMap String Value
  accepted : ∀ key value, data.get? key = some value → isSection key value = true ∨ accepts v key value = true

namespace LlmSection

variable {v : Validation} (llm : LlmSection v)

def baseKeys : OrderedMap String Value := llm.data.filter fun key value => !isSection key value

def customSections : List (String × OrderedMap String Value) :=
  (llm.data.entries.filter fun kv => isSection kv.1 kv.2).filterMap fun kv => kv.2.table.map fun overrides => (kv.1, overrides)

/-- What a custom section stands for: the keys of the base, overridden by its own. -/
def customConfig (overrides : OrderedMap String Value) : Option LLMConfig := modelValidate v (llm.baseKeys.update overrides)

/-- The section without one of its custom sections. -/
def without (name : String) : LlmSection v where
  data := llm.data.erase name
  accepted key value h := by
    rw [OrderedMap.get?_erase] at h
    split_ifs at h
    exact llm.accepted key value h

/-- The configurations read are those of the base and of the custom sections that are valid. -/
structure Overlaid : Prop where
  base : (fromTomlSection v llm.data).get? "llm" = modelValidate v llm.baseKeys
  sections : ∀ custom ∈ llm.customSections, ∀ config, llm.customConfig custom.2 = some config →
    (fromTomlSection v llm.data).get? custom.1 = some config
  others : ∀ name, name ≠ "llm" → (∀ custom ∈ llm.customSections, custom.1 = name → llm.customConfig custom.2 = none) →
    (fromTomlSection v llm.data).get? name = none
  invalid : ∀ custom ∈ llm.customSections, llm.customConfig custom.2 = none → ∀ name, name ≠ custom.1 →
    (fromTomlSection v (llm.without custom.1).data).get? name = (fromTomlSection v llm.data).get? name

/-- Every key of a custom section is a field, with a value that it accepts. -/
def Valid (v : Validation) (overrides : OrderedMap String Value) : Prop :=
  ∀ key value, overrides.get? key = some value → accepts v key value = true

def setsField (overrides : OrderedMap String Value) (f : Field) : Bool := (overrides.get? f.name).isSome

def isAzure (config : LLMConfig) : Bool := (config .model).startsWith "azure"

/-- The base has an azure model and no version of the API, and the section another model and no version either. -/
def LeaksVersion (overrides : OrderedMap String Value) : Prop :=
  isAzure (fieldsOf v llm.baseKeys) = true ∧ (fieldsOf v llm.baseKeys .apiVersion).isNone = true ∧
    setsField overrides .apiVersion = false ∧ isAzure (fieldsOf v (llm.baseKeys.update overrides)) = false

/-- What the sections have to be for their configurations to be read as they are meant. -/
structure Separate : Prop where
  kwargs : ∀ value table, llm.data.get? Field.completionKwargs.name = some value → value.table = some table →
    ¬ Valid v table ∧ (∃ custom ∈ llm.customSections, custom.1 = "llm" ∧ Valid v custom.2) ∧
      ∀ custom ∈ llm.customSections, Valid v custom.2 → setsField custom.2 .completionKwargs = true
  renamed : ∀ custom ∈ llm.customSections, custom.1 = "llm" → Valid v custom.2 →
    llm.customConfig custom.2 = modelValidate v llm.baseKeys
  version : ∀ custom ∈ llm.customSections, Valid v custom.2 → ¬ llm.LeaksVersion custom.2

end LlmSection

/-! ## Construction -/

section Construction

variable {v : Validation} {data base own : OrderedMap String Value} {config : LLMConfig}

open LlmSection (Valid setsField isAzure)

theorem all_accepts_iff : (data.entries.all fun kv => accepts v kv.1 kv.2) = true ↔ Valid v data := by
  rw [List.all_eq_true]
  exact ⟨fun h key value hget => h _ (OrderedMap.get?_eq_some_iff.mp hget),
    fun h kv hkv => h kv.1 kv.2 (OrderedMap.get?_eq_some_iff.mpr hkv)⟩

theorem modelValidate_of_valid (h : Valid v data) : modelValidate v data = some (modelPostInit (fieldsOf v data)) :=
  if_pos (all_accepts_iff.mpr h)

theorem modelValidate_eq_none_iff : modelValidate v data = none ↔ ¬ Valid v data := by
  rw [modelValidate, ← all_accepts_iff]
  split_ifs with h
  · exact ⟨fun hnone => absurd hnone (by simp), fun hnot => absurd h hnot⟩
  · exact ⟨fun _ => h, fun _ => rfl⟩

theorem valid_update_iff (hbase : Valid v base) : Valid v (base.update own) ↔ Valid v own := by
  refine ⟨fun h key value hget => h key value ?_, fun h key value hget => ?_⟩
  · rw [OrderedMap.get?_update, hget]
    rfl
  · rw [OrderedMap.get?_update] at hget
    cases hown : own.get? key with
    | none =>
      rw [hown] at hget
      exact hbase key value hget
    | some given =>
      rw [hown] at hget
      obtain rfl := Option.some.inj hget
      exact h key given hown

theorem fieldsOf_update (base own : OrderedMap String Value) (f : Field) :
    fieldsOf v (base.update own) f = if setsField own f then fieldsOf v own f else fieldsOf v base f := by
  rw [fieldsOf, fieldsOf, OrderedMap.get?_update, setsField]
  cases h : own.get? f.name with
  | none => rfl
  | some given => rfl

theorem get?_modelDump (config : LLMConfig) (f : Field) : (modelDump config).get? f.name = some (config f) :=
  OrderedMap.get?_eq_some_iff.mpr (List.mem_map.mpr ⟨f, Field.mem_all f, rfl⟩)

/-- The values that are checked as they are. -/
def Checked (v : Validation) (config : LLMConfig) : Prop := ∀ f, v.check f (config f) = some (config f)

theorem fieldsOf_modelDump (h : Checked v config) : fieldsOf v (modelDump config) = config := by
  funext f
  rw [fieldsOf, get?_modelDump, Option.bind_some, h f]
  rfl

theorem valid_modelDump (h : Checked v config) : Valid v (modelDump config) := by
  intro key value hget
  obtain ⟨f, -, hf⟩ := List.mem_map.mp (OrderedMap.get?_eq_some_iff.mp hget)
  obtain ⟨rfl, rfl⟩ := Prod.mk.inj hf
  rw [accepts, Field.ofName_name, Option.any_some, h f]
  rfl

theorem checked_fieldsOf (v : Validation) (data : OrderedMap String Value) : Checked v (fieldsOf v data) := by
  intro f
  rw [fieldsOf]
  cases h : (data.get? f.name).bind (v.check f) with
  | none => exact v.check_default f
  | some w =>
    obtain ⟨given, -, hgiven⟩ := Option.bind_eq_some_iff.mp h
    exact v.check_idem hgiven

theorem modelPostInit_of_ne (config : LLMConfig) {f : Field} (hf : f ≠ .apiVersion) : modelPostInit config f = config f := by
  rw [modelPostInit]
  split_ifs
  · exact Function.update_of_ne hf _ _
  · rfl

theorem modelPostInit_apiVersion (config : LLMConfig) :
    modelPostInit config .apiVersion =
      if isAzure config = true ∧ (config .apiVersion).isNone = true then defaultApiVersion else config .apiVersion := by
  rw [modelPostInit, isAzure]
  split_ifs
  · exact Function.update_self _ _ _
  · rfl

theorem checked_modelPostInit (h : Checked v config) : Checked v (modelPostInit config) := by
  intro f
  by_cases hf : f = .apiVersion
  · subst hf
    rw [modelPostInit_apiVersion]
    split_ifs
    · exact v.check_apiVersion _
    · exact h .apiVersion
  · rw [modelPostInit_of_ne config hf]
    exact h f

end Construction

/-! ## What is read -/

namespace LlmSection

variable {v : Validation} (llm : LlmSection v)

/-- The keys that are taken for the base: those without a table. -/
def plainKeys : OrderedMap String Value := llm.data.filter fun _ value => value.table.isNone

def tableOf (name : String) : Option (OrderedMap String Value) := (llm.data.get? name).bind Value.table

def baseConfig : LLMConfig := modelPostInit (fieldsOf v llm.plainKeys)

/-- What is read for a table. -/
def readConfig (overrides : OrderedMap String Value) : Option LLMConfig :=
  modelValidate v ((modelDump llm.baseConfig).update overrides)

variable {llm} {own : OrderedMap String Value} {name : String}

theorem get?_baseKeys (name : String) :
    llm.baseKeys.get? name = (llm.data.get? name).filter fun value => !isSection name value :=
  OrderedMap.get?_filter _ llm.data name

theorem get?_plainKeys (name : String) :
    llm.plainKeys.get? name = (llm.data.get? name).filter fun value => value.table.isNone :=
  OrderedMap.get?_filter _ llm.data name

theorem valid_baseKeys (llm : LlmSection v) : Valid v llm.baseKeys := by
  intro key value hget
  rw [get?_baseKeys, Option.filter_eq_some_iff] at hget
  exact (llm.accepted key value hget.1).resolve_left (by simpa using hget.2)

theorem valid_plainKeys (llm : LlmSection v) : Valid v llm.plainKeys := by
  intro key value hget
  rw [get?_plainKeys, Option.filter_eq_some_iff] at hget
  refine (llm.accepted key value hget.1).resolve_left fun hsection => ?_
  have htable : value.table = none := by simpa using hget.2
  simp [isSection, htable] at hsection

/-- The two readings of the base are the same but for the field that takes a table. -/
theorem fieldsOf_plainKeys {f : Field} (h : f ≠ .completionKwargs ∨ llm.tableOf Field.completionKwargs.name = none) :
    fieldsOf v llm.plainKeys f = fieldsOf v llm.baseKeys f := by
  have hget : llm.plainKeys.get? f.name = llm.baseKeys.get? f.name := by
    rw [get?_plainKeys, get?_baseKeys]
    cases hvalue : llm.data.get? f.name with
    | none => rfl
    | some value =>
      by_cases hf : f = .completionKwargs
      · subst hf
        have hnone := h.resolve_left (not_not.mpr rfl)
        rw [tableOf, hvalue, Option.bind_some] at hnone
        simp [isSection, hnone, Option.filter_some]
      · have hname : f.name ≠ Field.completionKwargs.name := fun hname => hf (Field.name_injective hname)
        simp [isSection, hname, Option.filter_some]
  rw [fieldsOf, fieldsOf, hget]

theorem fieldsOf_kwargs {table : OrderedMap String Value} (h : llm.tableOf Field.completionKwargs.name = some table) :
    fieldsOf v llm.plainKeys .completionKwargs = .none ∧
      ∃ items, fieldsOf v llm.baseKeys .completionKwargs = .dict items := by
  obtain ⟨value, hvalue, htable⟩ := Option.bind_eq_some_iff.mp h
  constructor
  · rw [fieldsOf, get?_plainKeys, hvalue]
    simp [htable, Field.default, Option.filter_some]
  · cases value with
    | dict items =>
      refine ⟨items, ?_⟩
      rw [fieldsOf, get?_baseKeys, hvalue]
      simp [isSection, Option.filter_some, v.check_completionKwargs]
    | _ => simp [Value.table] at htable

theorem mem_customSections : (name, own) ∈ llm.customSections ↔
    name ≠ Field.completionKwargs.name ∧ llm.tableOf name = some own := by
  constructor
  · intro h
    obtain ⟨kv, hkv, hown⟩ := List.mem_filterMap.mp h
    obtain ⟨hentry, hsection⟩ := List.mem_filter.mp hkv
    obtain ⟨given, hgiven, hpair⟩ := Option.map_eq_some_iff.mp hown
    obtain ⟨rfl, rfl⟩ := Prod.mk.inj hpair
    have hname : kv.1 ≠ Field.completionKwargs.name := by
      intro hname
      simp [isSection, hname] at hsection
    exact ⟨hname, Option.bind_eq_some_iff.mpr ⟨kv.2, OrderedMap.get?_eq_some_iff.mpr hentry, hgiven⟩⟩
  · rintro ⟨hname, htable⟩
    obtain ⟨value, hvalue, hown⟩ := Option.bind_eq_some_iff.mp htable
    refine List.mem_filterMap.mpr ⟨(name, value), List.mem_filter.mpr ⟨OrderedMap.get?_eq_some_iff.mp hvalue, ?_⟩, ?_⟩
    · simp [isSection, hname, hown]
    · rw [hown]
      rfl

/-- Tables that are read one after the other, each under its name. -/
theorem get?_foldl_read (read : OrderedMap String Value → Option LLMConfig) {customs : List (String × OrderedMap String Value)}
    (hnames : (customs.map Prod.fst).Nodup) (mapping : OrderedMap String LLMConfig) (name : String) :
    (customs.foldl (fun mapping custom =>
        match read custom.2 with
        | some config => mapping.set custom.1 config
        | none => mapping) mapping).get? name =
      ((Assoc.get? name customs).bind read).or (mapping.get? name) := by
  induction customs generalizing mapping with
  | nil => rfl
  | cons custom customs ih =>
    obtain ⟨hnew, hothers⟩ := List.nodup_cons.mp hnames
    rw [List.foldl_cons, ih hothers, Assoc.get?_cons]
    by_cases hname : name = custom.1
    · rw [if_pos hname, hname, Assoc.get?_eq_none_iff.mpr hnew, Option.bind_some]
      cases read custom.2 with
      | none => rfl
      | some config => simp [OrderedMap.get?_set]
    · rw [if_neg hname]
      congr 1
      cases read custom.2 with
      | none => rfl
      | some config => rw [OrderedMap.get?_set, if_neg hname]

theorem get?_fromTomlSection (llm : LlmSection v) (name : String) :
    (fromTomlSection v llm.data).get? name =
      ((llm.tableOf name).bind llm.readConfig).or (if name = "llm" then some llm.baseConfig else none) := by
  have hbase : (modelValidate v llm.plainKeys).getD (modelPostInit (fieldsOf v .empty)) = llm.baseConfig := by
    rw [modelValidate_of_valid llm.valid_plainKeys]
    rfl
  have hnames := (OrderedMap.keys_filterMap Value.table llm.data.entries).nodup llm.data.nodup
  have hread := get?_foldl_read llm.readConfig hnames (OrderedMap.empty.set "llm" llm.baseConfig) name
  rw [OrderedMap.get?_filterMap, OrderedMap.get?_set] at hread
  rw [fromTomlSection, ← plainKeys, hbase]
  exact hread

/-! ## A custom section -/

theorem checked_baseConfig (llm : LlmSection v) : Checked v llm.baseConfig :=
  checked_modelPostInit (checked_fieldsOf v llm.plainKeys)

theorem readConfig_of_valid (h : Valid v own) :
    llm.readConfig own = some (modelPostInit (fieldsOf v ((modelDump llm.baseConfig).update own))) :=
  modelValidate_of_valid ((valid_update_iff (valid_modelDump llm.checked_baseConfig)).mpr h)

theorem readConfig_eq_none_iff : llm.readConfig own = none ↔ ¬ Valid v own := by
  rw [readConfig, modelValidate_eq_none_iff, valid_update_iff (valid_modelDump llm.checked_baseConfig)]

theorem customConfig_of_valid (h : Valid v own) :
    llm.customConfig own = some (modelPostInit (fieldsOf v (llm.baseKeys.update own))) :=
  modelValidate_of_valid ((valid_update_iff llm.valid_baseKeys).mpr h)

theorem customConfig_eq_none_iff : llm.customConfig own = none ↔ ¬ Valid v own := by
  rw [customConfig, modelValidate_eq_none_iff, valid_update_iff llm.valid_baseKeys]

theorem valid_of_customConfig {config : LLMConfig} (h : llm.customConfig own = some config) : Valid v own := by
  by_contra hnot
  rw [customConfig_eq_none_iff.mpr hnot] at h
  exact absurd h (by simp)

/-- A field that the section does not set is that of the constructed base. -/
theorem fieldsOf_read (own : OrderedMap String Value) (f : Field) :
    fieldsOf v ((modelDump llm.baseConfig).update own) f =
      if setsField own f then fieldsOf v own f else llm.baseConfig f := by
  rw [fieldsOf_update, fieldsOf_modelDump llm.checked_baseConfig]

theorem baseConfig_of_ne {f : Field} (hf : f ≠ .apiVersion) (hkwargs : f ≠ .completionKwargs) :
    llm.baseConfig f = fieldsOf v llm.baseKeys f := by
  rw [baseConfig, modelPostInit_of_ne _ hf, fieldsOf_plainKeys (.inl hkwargs)]

theorem baseConfig_apiVersion (llm : LlmSection v) : llm.baseConfig .apiVersion =
    if isAzure (fieldsOf v llm.baseKeys) = true ∧ (fieldsOf v llm.baseKeys .apiVersion).isNone = true then defaultApiVersion
    else fieldsOf v llm.baseKeys .apiVersion := by
  have hmodel : isAzure (fieldsOf v llm.plainKeys) = isAzure (fieldsOf v llm.baseKeys) := by
    rw [isAzure, isAzure, fieldsOf_plainKeys (.inl (by decide))]
  rw [baseConfig, modelPostInit_apiVersion, hmodel, fieldsOf_plainKeys (.inl (by decide))]

theorem isAzure_read (own : OrderedMap String Value) :
    isAzure (fieldsOf v ((modelDump llm.baseConfig).update own)) = isAzure (fieldsOf v (llm.baseKeys.update own)) := by
  rw [isAzure, isAzure, fieldsOf_read, fieldsOf_update, baseConfig_of_ne (by decide) (by decide)]

theorem kwargs_read_iff (own : OrderedMap String Value) :
    fieldsOf v ((modelDump llm.baseConfig).update own) .completionKwargs =
        fieldsOf v (llm.baseKeys.update own) .completionKwargs ↔
      llm.tableOf Field.completionKwargs.name = none ∨ setsField own .completionKwargs = true := by
  rw [fieldsOf_read, fieldsOf_update]
  cases hsets : setsField own .completionKwargs with
  | true => simp
  | false =>
    rw [if_neg Bool.false_ne_true, if_neg Bool.false_ne_true, baseConfig, modelPostInit_of_ne _ (by decide)]
    cases htable : llm.tableOf Field.completionKwargs.name with
    | none => simp [fieldsOf_plainKeys (.inr htable)]
    | some table =>
      obtain ⟨hplain, items, hbase⟩ := fieldsOf_kwargs htable
      simp [hplain, hbase]

theorem version_read_iff (own : OrderedMap String Value) :
    modelPostInit (fieldsOf v ((modelDump llm.baseConfig).update own)) .apiVersion =
        modelPostInit (fieldsOf v (llm.baseKeys.update own)) .apiVersion ↔ ¬ llm.LeaksVersion own := by
  rw [modelPostInit_apiVersion, modelPostInit_apiVersion, isAzure_read, fieldsOf_read, fieldsOf_update, LeaksVersion]
  cases hsets : setsField own .apiVersion with
  | true => simp
  | false =>
    rw [if_neg Bool.false_ne_true, if_neg Bool.false_ne_true, baseConfig_apiVersion]
    by_cases hbase : isAzure (fieldsOf v llm.baseKeys) = true ∧ (fieldsOf v llm.baseKeys .apiVersion).isNone = true
    · have hne : defaultApiVersion ≠ fieldsOf v llm.baseKeys .apiVersion := by
        intro heq
        rw [← heq] at hbase
        exact absurd hbase.2 Bool.false_ne_true
      rw [if_pos hbase, ite_self]
      cases isAzure (fieldsOf v (llm.baseKeys.update own)) <;> simp [hbase, hne]
    · rw [if_neg hbase]
      exact ⟨fun _ hleaks => hbase ⟨hleaks.1, hleaks.2.1⟩, fun _ => rfl⟩

/-- What is read for a section is what it stands for, but for a table that it should inherit and for a version that
it should not. -/
theorem readConfig_eq_iff (h : Valid v own) : llm.readConfig own = llm.customConfig own ↔
    (llm.tableOf Field.completionKwargs.name = none ∨ setsField own .completionKwargs = true) ∧ ¬ llm.LeaksVersion own := by
  rw [readConfig_of_valid h, customConfig_of_valid h, Option.some_inj, ← kwargs_read_iff, ← version_read_iff]
  constructor
  · intro heq
    have hkwargs := congrFun heq .completionKwargs
    rw [modelPostInit_of_ne _ (by decide), modelPostInit_of_ne _ (by decide)] at hkwargs
    exact ⟨hkwargs, congrFun heq .apiVersion⟩
  · rintro ⟨hkwargs, hversion⟩
    funext f
    by_cases hf : f = .apiVersion
    · rw [hf]
      exact hversion
    rw [modelPostInit_of_ne _ hf, modelPostInit_of_ne _ hf]
    by_cases hfield : f = .completionKwargs
    · rw [hfield]
      exact hkwargs
    · rw [fieldsOf_read, fieldsOf_update, baseConfig_of_ne hf hfield]

/-! ## All sections -/

theorem get?_llm (llm : LlmSection v) :
    (fromTomlSection v llm.data).get? "llm" = ((llm.tableOf "llm").bind llm.readConfig).or (some llm.baseConfig) := by
  rw [get?_fromTomlSection, if_pos rfl]

/-- A custom section that is valid is read under its name. -/
theorem get?_of_mem (hmem : (name, own) ∈ llm.customSections) (hvalid : Valid v own) :
    (fromTomlSection v llm.data).get? name = llm.readConfig own := by
  rw [get?_fromTomlSection, (mem_customSections.mp hmem).2, Option.bind_some, readConfig_of_valid hvalid]
  rfl

/-- A custom section that is not valid might as well not be there. -/
theorem get?_without (hmem : (name, own) ∈ llm.customSections) {other : String} (hother : other ≠ name) :
    (fromTomlSection v (llm.without name).data).get? other = (fromTomlSection v llm.data).get? other := by
  obtain ⟨-, htable⟩ := mem_customSections.mp hmem
  have hplain (key : String) : (llm.without name).plainKeys.get? key = llm.plainKeys.get? key := by
    rw [get?_plainKeys, get?_plainKeys, without, OrderedMap.get?_erase]
    split_ifs with hkey
    · obtain ⟨value, hvalue, hown⟩ := Option.bind_eq_some_iff.mp htable
      rw [hkey, hvalue]
      simp [hown, Option.filter_some]
    · rfl
  have hbase : (llm.without name).baseConfig = llm.baseConfig := by
    rw [baseConfig, baseConfig]
    congr 1
    funext f
    rw [fieldsOf, fieldsOf, hplain]
  have hread : (llm.without name).readConfig = llm.readConfig := by
    funext overrides
    rw [readConfig, readConfig, hbase]
  have htables : (llm.without name).tableOf other = llm.tableOf other := by
    rw [tableOf, tableOf, without, OrderedMap.get?_erase, if_neg hother]
  rw [get?_fromTomlSection, get?_fromTomlSection, hbase, hread, htables]

theorem baseConfig_eq_iff (llm : LlmSection v) :
    some llm.baseConfig = modelValidate v llm.baseKeys ↔ llm.tableOf Field.completionKwargs.name = none := by
  rw [modelValidate_of_valid llm.valid_baseKeys, Option.some_inj]
  constructor
  · intro heq
    cases htable : llm.tableOf Field.completionKwargs.name with
    | none => rfl
    | some table =>
      obtain ⟨hplain, items, hbase⟩ := fieldsOf_kwargs htable
      have hkwargs := congrFun heq .completionKwargs
      rw [baseConfig, modelPostInit_of_ne _ (by decide), modelPostInit_of_ne _ (by decide), hplain, hbase] at hkwargs
      exact absurd hkwargs (by simp)
  · intro htable
    have hfields : fieldsOf v llm.plainKeys = fieldsOf v llm.baseKeys := funext fun f => fieldsOf_plainKeys (.inr htable)
    rw [baseConfig, hfields]

/-- Without a valid section of its name the base configuration is that of the plain keys. -/
theorem readConfig_llm_eq_none (hllm : ¬ ∃ custom ∈ llm.customSections, custom.1 = "llm" ∧ Valid v custom.2) :
    (llm.tableOf "llm").bind llm.readConfig = none := by
  cases hown : llm.tableOf "llm" with
  | none => rfl
  | some own =>
    refine readConfig_eq_none_iff.mpr fun hvalid => hllm ⟨("llm", own), ?_, rfl, hvalid⟩
    exact mem_customSections.mpr ⟨by decide, hown⟩

theorem Overlaid.separate (h : llm.Overlaid) : llm.Separate := by
  have hread : ∀ custom ∈ llm.customSections, Valid v custom.2 →
      (llm.tableOf Field.completionKwargs.name = none ∨ setsField custom.2 .completionKwargs = true) ∧
        ¬ llm.LeaksVersion custom.2 := by
    intro custom hcustom hvalid
    have hown := h.sections custom hcustom _ (customConfig_of_valid hvalid)
    rw [get?_of_mem hcustom hvalid, ← customConfig_of_valid hvalid] at hown
    exact (readConfig_eq_iff hvalid).mp hown
  refine ⟨fun value table hvalue htable => ?_, fun custom hcustom hname hvalid => ?_, fun custom hcustom hvalid =>
    (hread custom hcustom hvalid).2⟩
  · have hkwargs : llm.tableOf Field.completionKwargs.name = some table := Option.bind_eq_some_iff.mpr ⟨value, hvalue, htable⟩
    refine ⟨fun hvalid => ?_, ?_, fun custom hcustom hvalid => ?_⟩
    · have hnone := h.others Field.completionKwargs.name (by decide) fun custom hcustom hname =>
        absurd hname (mem_customSections.mp hcustom).1
      rw [get?_fromTomlSection, hkwargs, Option.bind_some, readConfig_of_valid hvalid] at hnone
      exact absurd hnone (by simp)
    · -- without a valid section of its name, the base would lack its table
      by_contra hnot
      have hbase := h.base
      rw [get?_llm, readConfig_llm_eq_none hnot, Option.none_or, baseConfig_eq_iff, hkwargs] at hbase
      exact absurd hbase (by simp)
    · exact (hread custom hcustom hvalid).1.resolve_left (by simp [hkwargs])
  · have hown := h.sections custom hcustom _ (customConfig_of_valid hvalid)
    rw [hname, h.base] at hown
    rw [customConfig_of_valid hvalid, hown]

theorem Separate.read_eq (h : llm.Separate) {custom : String × OrderedMap String Value}
    (hcustom : custom ∈ llm.customSections) (hvalid : Valid v custom.2) :
    llm.readConfig custom.2 = llm.customConfig custom.2 := by
  refine (readConfig_eq_iff hvalid).mpr ⟨?_, h.version custom hcustom hvalid⟩
  cases htable : llm.tableOf Field.completionKwargs.name with
  | none => exact .inl rfl
  | some table =>
    obtain ⟨value, hvalue, hvalueTable⟩ := Option.bind_eq_some_iff.mp htable
    exact .inr ((h.kwargs value table hvalue hvalueTable).2.2 custom hcustom hvalid)

theorem Separate.overlaid (h : llm.Separate) : llm.Overlaid where
  base := by
    by_cases hllm : ∃ custom ∈ llm.customSections, custom.1 = "llm" ∧ Valid v custom.2
    · obtain ⟨⟨_, own⟩, hcustom, rfl, hvalid⟩ := hllm
      rw [get?_of_mem hcustom hvalid, h.read_eq hcustom hvalid, h.renamed _ hcustom rfl hvalid]
    · rw [get?_llm, readConfig_llm_eq_none hllm, Option.none_or, baseConfig_eq_iff]
      cases htable : llm.tableOf Field.completionKwargs.name with
      | none => rfl
      | some table =>
        obtain ⟨value, hvalue, hvalueTable⟩ := Option.bind_eq_some_iff.mp htable
        exact absurd (h.kwargs value table hvalue hvalueTable).2.1 hllm
  sections custom hcustom config hconfig := by
    have hvalid := valid_of_customConfig hconfig
    rw [get?_of_mem hcustom hvalid, h.read_eq hcustom hvalid, hconfig]
  others name hname hnone := by
    rw [get?_fromTomlSection, if_neg hname, Option.or_none]
    cases htable : llm.tableOf name with
    | none => rfl
    | some own =>
      refine readConfig_eq_none_iff.mpr ?_
      by_cases hkwargs : name = Field.completionKwargs.name
      · obtain ⟨value, hvalue, hvalueTable⟩ := Option.bind_eq_some_iff.mp htable
        rw [hkwargs] at hvalue
        exact (h.kwargs value own hvalue hvalueTable).1
      · exact customConfig_eq_none_iff.mp (hnone (name, own) (mem_customSections.mpr ⟨hkwargs, htable⟩) rfl)
  invalid custom hcustom _ _ hother := get?_without hcustom hother

end LlmSection

/-- The sections are read as they are meant exactly when no section has to inherit a table, none leaves a version of
the API to be inherited that its own model does not need, and none takes the name of the base. -/
theorem overlaid_iff_separate {v : Validation} (llm : LlmSection v) : llm.Overlaid ↔ llm.Separate :=
  ⟨LlmSection.Overlaid.separate, LlmSection.Separate.overlaid⟩

inductive Kind where
  | text | secret | number | flag | settings | arguments

def Field.kind : Field → Kind
  | .model | .baseUrl | .apiVersion | .awsRegionName | .openrouterSiteUrl | .openrouterAppName | .customLlmProvider
  | .ollamaBaseUrl | .logCompletionsFolder | .customTokenizer | .reasoningEffort => .text
  | .apiKey | .awsAccessKeyId | .awsSecretAccessKey => .secret
  | .numRetries | .retryMultiplier | .retryMinWait | .retryMaxWait | .timeout | .maxMessageChars | .temperature | .topP
  | .topK | .maxInputTokens | .maxOutputTokens | .inputCostPerToken | .outputCostPerToken | .seed | .correctNum => .number
  | .dropParams | .modifyParams | .disableVision | .disableStopWord | .cachingPrompt | .logCompletions
  | .nativeToolCalling | .forRouting => .flag
  | .safetySettings => .settings
  | .completionKwargs => .arguments

/-- A value of the type is taken as it is, and a text is made a secret. -/
def Kind.check : Kind → Value → Option Value
  | .text, .str s => some (.str s)
  | .secret, .str s => some (.secret s)
  | .secret, .secret s => some (.secret s)
  | .number, .number x => some (.number x)
  | .flag, .bool b => some (.bool b)
  | .settings, .list items => some (.list items)
  | .arguments, .dict items => some (.dict items)
  | _, _ => none

def checkType (f : Field) (value : Value) : Option Value :=
  if value.isNone ∧ ((f.default "").isNone ∨ f = .disableStopWord) then some value else f.kind.check value

theorem Kind.check_idem {kind : Kind} {value w : Value} (h : kind.check value = some w) :
    kind.check w = some w ∧ w.isNone = false := by
  cases kind <;> cases value <;> cases h <;> exact ⟨rfl, rfl⟩

/-- A validation by the types alone. -/
def typed : Validation where
  logDir := ""
  check := checkType
  check_idem {f value w} h := by
    unfold checkType at h
    split_ifs at h with hnone
    · obtain rfl := Option.some.inj h
      exact if_pos hnone
    · obtain ⟨hcheck, hw⟩ := Kind.check_idem h
      rw [checkType, if_neg (by simp [hw]), hcheck]
  check_default f := by cases f <;> rfl
  check_apiVersion _ := rfl
  check_completionKwargs _ := rfl

/-- `completion_kwargs = { user = "me" }` and nothing else. -/
def kwargsOnly : LlmSection typed where
  data := ⟨[("completion_kwargs", .dict [("user", .str "me")])], List.nodup_singleton _⟩
  accepted key value h := by
    obtain ⟨rfl, rfl⟩ := Prod.mk.inj (List.mem_singleton.mp (OrderedMap.get?_eq_some_iff.mp h))
    exact .inr rfl

/-- The arguments are taken for a section, and the base is without them. -/
theorem not_overlaid : ¬ kwargsOnly.Overlaid := by
  intro h
  have hbase := h.base
  have hllm : kwargsOnly.tableOf "llm" = none := rfl
  rw [LlmSection.get?_llm, hllm, Option.bind_none, Option.none_or, LlmSection.baseConfig_eq_iff] at hbase
  exact absurd hbase (Option.some_ne_none _)

end LLMConfig

end OpenHands
