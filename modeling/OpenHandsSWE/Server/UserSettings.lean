import Mathlib.Data.List.ReduceOption
import OpenHandsSWE.Lib.JsonRoundTrip
import OpenHandsSWE.Server.McpConfig

/-! The settings of a user: a request is merged with what is stored, dumped, built again and written as JSON. -/

namespace OpenHands.UserSettings
open Json (Codec)
open McpConfig

/-- A `float` of Python. -/
inductive PyFloat where
  | finite (x : FloatLit)
  | infinite (negative : Bool)
  | nan
deriving DecidableEq

structure SecretStr where
  value : String
deriving DecidableEq

/-- `str` of a secret, and its JSON form. -/
def SecretStr.masked (s : SecretStr) : String := if s.value = "" then "" else "**********"

def SecretStr.blank (s : SecretStr) : Bool := strip s.value == ""

def ValidSize (size : Option Int) : Prop := ∀ n ∈ size, 20 ≤ n

instance : DecidablePred ValidSize := fun size => inferInstanceAs (Decidable (∀ n ∈ size, 20 ≤ n))

section
variable (urlparse : String → Option (String × String))

structure Settings where
  language : Option String := none
  agent : Option String := none
  maxIterations : Option Int := none
  securityAnalyzer : Option String := none
  confirmationMode : Option Bool := none
  llmModel : Option String := none
  llmApiKey : Option SecretStr := none
  llmBaseUrl : Option String := none
  remoteRuntimeResourceFactor : Option Int := none
  enableDefaultCondenser : Bool := true
  enableSoundNotifications : Bool := false
  enableProactiveConversationStarters : Bool := true
  enableSolvabilityAnalysis : Bool := true
  userConsentsToAnalytics : Option Bool := none
  sandboxBaseContainerImage : Option String := none
  sandboxRuntimeContainerImage : Option String := none
  mcpConfig : Option (Config urlparse) := none
  searchApiKey : Option SecretStr := none
  sandboxApiKey : Option SecretStr := none
  maxBudgetPerTask : Option PyFloat := none
  condenserMaxSize : { n : Option Int // ValidSize n } := ⟨none, by decide⟩
  email : Option String := none
  emailVerified : Option Bool := none
  gitUserName : Option String := none
  gitUserEmail : Option String := none

end

variable {urlparse : String → Option (String × String)}

def mcpOrNull : Codec (Option (Config urlparse)) := configCodec.nullable fun _ => nofun

def sizeCodec : Codec { n : Option Int // ValidSize n } := intOrNull.checked id ValidSize fun _ _ => rfl

/-- A value of a dumped model: JSON data, a `float`, or a secret that is still one. -/
inductive Py where
  | plain (j : Json)
  | number (x : PyFloat)
  | secret (s : SecretStr)

/-- The fields of a dumped model, with the forms of its secrets and of its `float`. -/
def fields {V : Type} (plain : Json → V) (llmApiKey searchApiKey sandboxApiKey maxBudgetPerTask : V)
    (s : Settings urlparse) : List (String × V) :=
  [
    ("language", plain (strOrNull.encode s.language)), ("agent", plain (strOrNull.encode s.agent)),
    ("max_iterations", plain (intOrNull.encode s.maxIterations)),
    ("security_analyzer", plain (strOrNull.encode s.securityAnalyzer)),
    ("confirmation_mode", plain (boolOrNull.encode s.confirmationMode)),
    ("llm_model", plain (strOrNull.encode s.llmModel)), ("llm_api_key", llmApiKey),
    ("llm_base_url", plain (strOrNull.encode s.llmBaseUrl)),
    ("remote_runtime_resource_factor", plain (intOrNull.encode s.remoteRuntimeResourceFactor)),
    ("enable_default_condenser", plain (Codec.bool.encode s.enableDefaultCondenser)),
    ("enable_sound_notifications", plain (Codec.bool.encode s.enableSoundNotifications)),
    ("enable_proactive_conversation_starters", plain (Codec.bool.encode s.enableProactiveConversationStarters)),
    ("enable_solvability_analysis", plain (Codec.bool.encode s.enableSolvabilityAnalysis)),
    ("user_consents_to_analytics", plain (boolOrNull.encode s.userConsentsToAnalytics)),
    ("sandbox_base_container_image", plain (strOrNull.encode s.sandboxBaseContainerImage)),
    ("sandbox_runtime_container_image", plain (strOrNull.encode s.sandboxRuntimeContainerImage)),
    ("mcp_config", plain (mcpOrNull.encode s.mcpConfig)), ("search_api_key", searchApiKey),
    ("sandbox_api_key", sandboxApiKey), ("max_budget_per_task", maxBudgetPerTask),
    ("condenser_max_size", plain (sizeCodec.encode s.condenserMaxSize)),
    ("email", plain (strOrNull.encode s.email)), ("email_verified", plain (boolOrNull.encode s.emailVerified)),
    ("git_user_name", plain (strOrNull.encode s.gitUserName)),
    ("git_user_email", plain (strOrNull.encode s.gitUserEmail))]

def modelFields : List String := [
    "language", "agent", "max_iterations", "security_analyzer", "confirmation_mode", "llm_model", "llm_api_key",
    "llm_base_url", "remote_runtime_resource_factor", "enable_default_condenser", "enable_sound_notifications",
    "enable_proactive_conversation_starters", "enable_solvability_analysis", "user_consents_to_analytics",
    "sandbox_base_container_image", "sandbox_runtime_container_image", "mcp_config", "search_api_key",
    "sandbox_api_key", "max_budget_per_task", "condenser_max_size", "email", "email_verified", "git_user_name",
    "git_user_email"]

/-- The serializer of `llm_api_key` and `search_api_key`. -/
def apiKeySerializer (exposeSecrets : Bool) : Option SecretStr → Json
  | none => .null
  | some key => if key.blank then .null else if exposeSecrets then .str key.value else .str key.masked

def secretValue : Option SecretStr → Py
  | none => .plain .null
  | some key => .secret key

def secretJson : Option SecretStr → Json
  | none => .null
  | some key => .str key.masked

def numberValue : Option PyFloat → Py
  | none => .plain .null
  | some x => .number x

/-- JSON has no infinite number. -/
def numberJson : Option PyFloat → Json
  | some (.finite x) => .float x
  | _ => .null

def modelDump (s : Settings urlparse) : List (String × Py) :=
  fields .plain (.plain (apiKeySerializer false s.llmApiKey)) (.plain (apiKeySerializer false s.searchApiKey))
    (secretValue s.sandboxApiKey) (numberValue s.maxBudgetPerTask) s

def modelDumpJson (s : Settings urlparse) (exposeSecrets : Bool) : Json :=
  .obj (fields id (apiKeySerializer exposeSecrets s.llmApiKey) (apiKeySerializer exposeSecrets s.searchApiKey)
    (secretJson s.sandboxApiKey) (numberJson s.maxBudgetPerTask) s)

def plainMember {α : Type} (c : Codec α) (key : String) (default : Option α) (kvs : List (String × Py)) : Option α :=
  match Assoc.get? key kvs with
  | none => default
  | some (.plain j) => c.decode j
  | some _ => none

def readSecret : Py → Option (Option SecretStr)
  | .plain .null => some none
  | .plain (.str value) => some (some ⟨value⟩)
  | .secret s => some (some s)
  | _ => none

def secretMember (key : String) (kvs : List (String × Py)) : Option (Option SecretStr) :=
  (Assoc.get? key kvs).elim (some none) readSecret

def readNumber : Py → Option (Option PyFloat)
  | .plain .null => some none
  | .plain (.float x) => some (some (.finite x))
  | .plain (.int n) => some (some (.finite ⟨decide (n < 0), n.natAbs, [0], none, FloatLit.isFloat_zero⟩))
  | .number x => some (some x)
  | _ => none

def budgetMember (key : String) (kvs : List (String × Py)) : Option (Option PyFloat) :=
  (Assoc.get? key kvs).elim (some none) readNumber

/-- `Settings(**kvs)`. -/
def ofDict (kvs : List (String × Py)) : Option (Settings urlparse) := do
  let language ← plainMember strOrNull "language" (some none) kvs
  let agent ← plainMember strOrNull "agent" (some none) kvs
  let maxIterations ← plainMember intOrNull "max_iterations" (some none) kvs
  let securityAnalyzer ← plainMember strOrNull "security_analyzer" (some none) kvs
  let confirmationMode ← plainMember boolOrNull "confirmation_mode" (some none) kvs
  let llmModel ← plainMember strOrNull "llm_model" (some none) kvs
  let llmApiKey ← secretMember "llm_api_key" kvs
  let llmBaseUrl ← plainMember strOrNull "llm_base_url" (some none) kvs
  let remoteRuntimeResourceFactor ← plainMember intOrNull "remote_runtime_resource_factor" (some none) kvs
  let enableDefaultCondenser ← plainMember Codec.bool "enable_default_condenser" (some true) kvs
  let enableSoundNotifications ← plainMember Codec.bool "enable_sound_notifications" (some false) kvs
  let enableProactiveConversationStarters ← plainMember Codec.bool "enable_proactive_conversation_starters" (some true) kvs
  let enableSolvabilityAnalysis ← plainMember Codec.bool "enable_solvability_analysis" (some true) kvs
  let userConsentsToAnalytics ← plainMember boolOrNull "user_consents_to_analytics" (some none) kvs
  let sandboxBaseContainerImage ← plainMember strOrNull "sandbox_base_container_image" (some none) kvs
  let sandboxRuntimeContainerImage ← plainMember strOrNull "sandbox_runtime_container_image" (some none) kvs
  let mcpConfig ← plainMember mcpOrNull "mcp_config" (some none) kvs
  let searchApiKey ← secretMember "search_api_key" kvs
  let sandboxApiKey ← secretMember "sandbox_api_key" kvs
  let maxBudgetPerTask ← budgetMember "max_budget_per_task" kvs
  let condenserMaxSize ← plainMember sizeCodec "condenser_max_size" (some ⟨none, by decide⟩) kvs
  let email ← plainMember strOrNull "email" (some none) kvs
  let emailVerified ← plainMember boolOrNull "email_verified" (some none) kvs
  let gitUserName ← plainMember strOrNull "git_user_name" (some none) kvs
  let gitUserEmail ← plainMember strOrNull "git_user_email" (some none) kvs
  some {
    language := language, agent := agent, maxIterations := maxIterations, securityAnalyzer := securityAnalyzer,
    confirmationMode := confirmationMode, llmModel := llmModel, llmApiKey := llmApiKey, llmBaseUrl := llmBaseUrl,
    remoteRuntimeResourceFactor := remoteRuntimeResourceFactor, enableDefaultCondenser := enableDefaultCondenser,
    enableSoundNotifications := enableSoundNotifications,
    enableProactiveConversationStarters := enableProactiveConversationStarters,
    enableSolvabilityAnalysis := enableSolvabilityAnalysis, userConsentsToAnalytics := userConsentsToAnalytics,
    sandboxBaseContainerImage := sandboxBaseContainerImage,
    sandboxRuntimeContainerImage := sandboxRuntimeContainerImage, mcpConfig := mcpConfig,
    searchApiKey := searchApiKey, sandboxApiKey := sandboxApiKey, maxBudgetPerTask := maxBudgetPerTask,
    condenserMaxSize := condenserMaxSize, email := email, emailVerified := emailVerified,
    gitUserName := gitUserName, gitUserEmail := gitUserEmail }

theorem plainMember_of_get? {α : Type} (c : Codec α) {key : String} {default : Option α} {a : α}
    {kvs : List (String × Py)} (h : Assoc.get? key kvs = some (.plain (c.encode a))) :
    plainMember c key default kvs = some a := by
  rw [plainMember, h]
  exact c.decode_encode a

/-- A dumped model builds again, but for what its secrets and its `float` have become. -/
theorem ofDict_fields (s : Settings urlparse) {a b c d : Py} {llmApiKey searchApiKey sandboxApiKey : Option SecretStr}
    {maxBudgetPerTask : Option PyFloat} (ha : readSecret a = some llmApiKey) (hb : readSecret b = some searchApiKey)
    (hc : readSecret c = some sandboxApiKey) (hd : readNumber d = some maxBudgetPerTask) :
    ofDict (fields .plain a b c d s) = some { s with
      llmApiKey := llmApiKey, searchApiKey := searchApiKey, sandboxApiKey := sandboxApiKey
      maxBudgetPerTask := maxBudgetPerTask } := by
  have ha' : secretMember "llm_api_key" (fields .plain a b c d s) = some llmApiKey := ha
  have hb' : secretMember "search_api_key" (fields .plain a b c d s) = some searchApiKey := hb
  have hc' : secretMember "sandbox_api_key" (fields .plain a b c d s) = some sandboxApiKey := hc
  have hd' : budgetMember "max_budget_per_task" (fields .plain a b c d s) = some maxBudgetPerTask := hd
  unfold ofDict
  rw [
    plainMember_of_get? strOrNull (a := s.language) rfl, plainMember_of_get? strOrNull (a := s.agent) rfl,
    plainMember_of_get? intOrNull (a := s.maxIterations) rfl,
    plainMember_of_get? strOrNull (a := s.securityAnalyzer) rfl,
    plainMember_of_get? boolOrNull (a := s.confirmationMode) rfl,
    plainMember_of_get? strOrNull (a := s.llmModel) rfl, plainMember_of_get? strOrNull (a := s.llmBaseUrl) rfl,
    plainMember_of_get? intOrNull (a := s.remoteRuntimeResourceFactor) rfl,
    plainMember_of_get? Codec.bool (a := s.enableDefaultCondenser) rfl,
    plainMember_of_get? Codec.bool (a := s.enableSoundNotifications) rfl,
    plainMember_of_get? Codec.bool (a := s.enableProactiveConversationStarters) rfl,
    plainMember_of_get? Codec.bool (a := s.enableSolvabilityAnalysis) rfl,
    plainMember_of_get? boolOrNull (a := s.userConsentsToAnalytics) rfl,
    plainMember_of_get? strOrNull (a := s.sandboxBaseContainerImage) rfl,
    plainMember_of_get? strOrNull (a := s.sandboxRuntimeContainerImage) rfl,
    plainMember_of_get? mcpOrNull (a := s.mcpConfig) rfl,
    plainMember_of_get? sizeCodec (a := s.condenserMaxSize) rfl, plainMember_of_get? strOrNull (a := s.email) rfl,
    plainMember_of_get? boolOrNull (a := s.emailVerified) rfl,
    plainMember_of_get? strOrNull (a := s.gitUserName) rfl, plainMember_of_get? strOrNull (a := s.gitUserEmail) rfl,
    ha', hb', hc', hd']
  rfl

/-- `Settings(**settings_data)` of what is dumped, with the API keys put back. -/
def convertToSettings (s : Settings urlparse) : Option (Settings urlparse) :=
  let filtered := (modelDump s).filter fun kv => kv.1 ∈ modelFields
  ofDict (Assoc.set "search_api_key" (secretValue s.searchApiKey)
    (Assoc.set "llm_api_key" (secretValue s.llmApiKey) filtered))

/-- The part of the server's configuration that a request changes. -/
structure AppConfig where
  remoteRuntimeResourceFactor : Option Int := none
  gitUserName : Option String := none
  gitUserEmail : Option String := none

structure State where
  config : AppConfig := {}
  file : Option (List Char) := none

/-- `None` when there is no file; `none` when reading it raises. -/
def load (file : Option (List Char)) : Option (Option (Settings urlparse)) :=
  match file with
  | none => some none
  | some text =>
    match Json.loads text with
    | some (.obj kvs) => (ofDict (kvs.map fun kv => (kv.1, .plain kv.2))).map some
    | _ => none

def storeLlmSettings (settings : Settings urlparse) (file : Option (List Char)) : Option (Settings urlparse) := do
  match ← load file with
  | none => some settings
  | some (existing : Settings urlparse) => some { settings with
      llmApiKey := settings.llmApiKey.or existing.llmApiKey
      llmModel := settings.llmModel.or existing.llmModel
      llmBaseUrl := settings.llmBaseUrl.or existing.llmBaseUrl
      searchApiKey := settings.searchApiKey.or existing.searchApiKey }

def mergeStored (settings : Settings urlparse) (file : Option (List Char)) : Option (Settings urlparse) := do
  match ← load file with
  | none => some settings
  | some (existing : Settings urlparse) =>
    let merged ← storeLlmSettings settings file
    some { merged with
      userConsentsToAnalytics := merged.userConsentsToAnalytics.or existing.userConsentsToAnalytics }

def AppConfig.update (config : AppConfig) (settings : Settings urlparse) : AppConfig where
  remoteRuntimeResourceFactor := settings.remoteRuntimeResourceFactor.or config.remoteRuntimeResourceFactor
  gitUserName := settings.gitUserName.or config.gitUserName
  gitUserEmail := settings.gitUserEmail.or config.gitUserEmail

section
variable (dumps : Json → List Char)

/-- `POST /settings`, with the status of its response. -/
def storeSettings (s : State) (settings : Settings urlparse) : State × Nat :=
  match mergeStored settings s.file with
  | none => (s, 500)
  | some settings =>
    let config := s.config.update settings
    match convertToSettings settings with
    | none => ({ s with config := config }, 500)
    | some settings => ({ config := config, file := some (dumps (modelDumpJson settings true)) }, 200)

def runRequests (s : State) (requests : List (Settings urlparse)) : State :=
  requests.foldl (fun s settings => (storeSettings dumps s settings).1) s

end

def lastNonNull {α : Type} (vs : List (Option α)) : Option α := vs.reduceOption.getLast?

/-- A key that was sent, `None` when it is blank. -/
def sentKey (keys : List (Option SecretStr)) : Option SecretStr := (lastNonNull keys).filter fun key => !key.blank

/-- What the requests up to `request` have set. -/
structure Kept (before : List (Settings urlparse)) (request loaded : Settings urlparse) : Prop where
  llmApiKey : loaded.llmApiKey = sentKey ((before ++ [request]).map Settings.llmApiKey)
  searchApiKey : loaded.searchApiKey = sentKey ((before ++ [request]).map Settings.searchApiKey)
  sandboxApiKey : loaded.sandboxApiKey = sentKey ((before ++ [request]).map Settings.sandboxApiKey)
  llmModel : loaded.llmModel = lastNonNull ((before ++ [request]).map Settings.llmModel)
  llmBaseUrl : loaded.llmBaseUrl = lastNonNull ((before ++ [request]).map Settings.llmBaseUrl)
  userConsentsToAnalytics :
    loaded.userConsentsToAnalytics = lastNonNull ((before ++ [request]).map Settings.userConsentsToAnalytics)
  others : { loaded with
    llmApiKey := request.llmApiKey, searchApiKey := request.searchApiKey, sandboxApiKey := request.sandboxApiKey
    llmModel := request.llmModel, llmBaseUrl := request.llmBaseUrl
    userConsentsToAnalytics := request.userConsentsToAnalytics } = request

/-- After every successful request, the settings load and are those that were sent. -/
def KeepsSettings (dumps : Json → List Char) (requests : List (Settings urlparse)) : Prop :=
  ∀ before request, before ++ [request] <+: requests →
    let after := storeSettings dumps (runRequests dumps {} before) request
    after.2 = 200 → ∃ loaded, load after.1.file = some (some loaded) ∧ Kept before request loaded

section
variable {s t : Settings urlparse} {dumps : Json → List Char}

theorem lastNonNull_concat {α : Type} (vs : List (Option α)) (v : Option α) :
    lastNonNull (vs ++ [v]) = v.or (lastNonNull vs) := by
  unfold lastNonNull
  rw [List.reduceOption_append]
  cases v with
  | none => simp
  | some a => simp

/-- What a request that is stored reads back as. -/
def stored (s : Settings urlparse) : Settings urlparse := { s with
  llmApiKey := s.llmApiKey.filter fun key => !key.blank
  searchApiKey := s.searchApiKey.filter fun key => !key.blank
  sandboxApiKey := s.sandboxApiKey.map fun key => ⟨key.masked⟩
  maxBudgetPerTask := s.maxBudgetPerTask.filter fun x => x matches .finite _ }

theorem convertToSettings_eq (s : Settings urlparse) : convertToSettings s = some s := by
  have hkeys : (modelDump s).map Prod.fst = modelFields := rfl
  have hfilter : ((modelDump s).filter fun kv => kv.1 ∈ modelFields) = modelDump s := by
    rw [List.filter_eq_self]
    intro kv hkv
    exact decide_eq_true (hkeys ▸ List.mem_map_of_mem hkv)
  unfold convertToSettings
  dsimp only
  rw [hfilter]
  have hsecret : ∀ key, readSecret (secretValue key) = some key := fun key => by cases key <;> rfl
  have hnumber : readNumber (numberValue s.maxBudgetPerTask) = some s.maxBudgetPerTask := by
    cases s.maxBudgetPerTask <;> rfl
  exact ofDict_fields s (hsecret s.llmApiKey) (hsecret s.searchApiKey) (hsecret s.sandboxApiKey) hnumber

theorem wellFormed_modelDumpJson (s : Settings urlparse) : (modelDumpJson s true).WellFormed := by
  have hkey : ∀ key, (apiKeySerializer true key).WellFormed := by
    intro key
    unfold apiKeySerializer
    split
    · trivial
    · split <;> trivial
  have hsecret : ∀ key, (secretJson key).WellFormed := fun key => by cases key <;> trivial
  have hnumber : ∀ x, (numberJson x).WellFormed := fun x => by unfold numberJson; split <;> trivial
  refine Json.wellFormed_obj (show modelFields.Nodup by decide) ?_
  simp [fields, hkey, hsecret, hnumber, Codec.wellFormed]

theorem readSecret_apiKey (key : Option SecretStr) :
    readSecret (.plain (apiKeySerializer true key)) = some (key.filter fun key => !key.blank) := by
  rcases key with - | key
  · rfl
  · by_cases hblank : key.blank = true
    · simp [apiKeySerializer, hblank, readSecret, Option.filter]
    · simp [apiKeySerializer, hblank, readSecret, Option.filter]

theorem load_stored (hdumps : ∀ j : Json, j.WellFormed → Json.loads (dumps j) = some j) (s : Settings urlparse) :
    load (some (dumps (modelDumpJson s true))) = some (some (stored s)) := by
  have hsecret : readSecret (.plain (secretJson s.sandboxApiKey)) = some (s.sandboxApiKey.map fun key => ⟨key.masked⟩) := by
    cases s.sandboxApiKey <;> rfl
  have hnumber : readNumber (.plain (numberJson s.maxBudgetPerTask)) =
      some (s.maxBudgetPerTask.filter fun x => x matches .finite _) := by
    rcases s.maxBudgetPerTask with - | x
    · rfl
    · cases x <;> rfl
  have hread := ofDict_fields s (readSecret_apiKey s.llmApiKey) (readSecret_apiKey s.searchApiKey) hsecret hnumber
  unfold load
  dsimp only
  rw [hdumps _ (wellFormed_modelDumpJson s)]
  exact congrArg (Option.map some) hread

theorem mergeStored_none (request : Settings urlparse) : mergeStored request none = some request := rfl

theorem mergeStored_some {file : Option (List Char)} {existing : Settings urlparse}
    (hload : load file = some (some existing)) (request : Settings urlparse) :
    mergeStored request file = some { request with
      llmApiKey := request.llmApiKey.or existing.llmApiKey
      llmModel := request.llmModel.or existing.llmModel
      llmBaseUrl := request.llmBaseUrl.or existing.llmBaseUrl
      searchApiKey := request.searchApiKey.or existing.searchApiKey
      userConsentsToAnalytics := request.userConsentsToAnalytics.or existing.userConsentsToAnalytics } := by
  have hllm : storeLlmSettings request file = some { request with
      llmApiKey := request.llmApiKey.or existing.llmApiKey
      llmModel := request.llmModel.or existing.llmModel
      llmBaseUrl := request.llmBaseUrl.or existing.llmBaseUrl
      searchApiKey := request.searchApiKey.or existing.searchApiKey } := by
    unfold storeLlmSettings
    rw [hload]
    rfl
  unfold mergeStored
  rw [hload]
  show Option.bind (storeLlmSettings request file) _ = _
  rw [hllm]
  rfl

/-- The settings that load after the requests. -/
def settingsAfter (before : List (Settings urlparse)) (request : Settings urlparse) : Settings urlparse := { request with
  llmApiKey := sentKey ((before ++ [request]).map Settings.llmApiKey)
  searchApiKey := sentKey ((before ++ [request]).map Settings.searchApiKey)
  sandboxApiKey := request.sandboxApiKey.map fun key => ⟨key.masked⟩
  llmModel := lastNonNull ((before ++ [request]).map Settings.llmModel)
  llmBaseUrl := lastNonNull ((before ++ [request]).map Settings.llmBaseUrl)
  userConsentsToAnalytics := lastNonNull ((before ++ [request]).map Settings.userConsentsToAnalytics)
  maxBudgetPerTask := request.maxBudgetPerTask.filter fun x => x matches .finite _ }

/-- A key that is kept from before is not blank. -/
theorem filter_or_sentKey (key : Option SecretStr) (keys : List (Option SecretStr)) :
    (key.or (sentKey keys)).filter (fun key => !key.blank) = sentKey (keys ++ [key]) := by
  unfold sentKey
  rw [lastNonNull_concat]
  cases key with
  | none => simp [Option.filter_filter]
  | some key => rfl

theorem storeSettings_of_merged (hdumps : ∀ j : Json, j.WellFormed → Json.loads (dumps j) = some j) {s : State}
    {request merged : Settings urlparse} (hmerged : mergeStored request s.file = some merged) :
    (storeSettings dumps s request).2 = 200 ∧
      load (storeSettings dumps s request).1.file = some (some (stored merged)) := by
  have hstore : storeSettings dumps s request =
      ({ config := s.config.update merged, file := some (dumps (modelDumpJson merged true)) }, 200) := by
    unfold storeSettings
    rw [hmerged]
    dsimp only
    rw [convertToSettings_eq]
  rw [hstore]
  exact ⟨rfl, load_stored hdumps merged⟩

theorem runRequests_concat (s : State) (before : List (Settings urlparse)) (request : Settings urlparse) :
    runRequests dumps s (before ++ [request]) = (storeSettings dumps (runRequests dumps s before) request).1 := by
  rw [runRequests, List.foldl_append]
  rfl

/-- Every request succeeds, and this is what loads after it. -/
theorem load_settingsAfter (hdumps : ∀ j : Json, j.WellFormed → Json.loads (dumps j) = some j)
    (before : List (Settings urlparse)) (request : Settings urlparse) :
    (storeSettings dumps (runRequests dumps {} before) request).2 = 200 ∧
      load (storeSettings dumps (runRequests dumps {} before) request).1.file =
        some (some (settingsAfter before request)) := by
  induction before using List.reverseRecOn generalizing request with
  | nil =>
    refine (storeSettings_of_merged hdumps (mergeStored_none request)).imp_right fun hload => ?_
    refine hload.trans (congrArg (some ∘ some) ?_)
    have hnil : ∀ {α : Type} (v : Option α), lastNonNull ([] ++ [v]) = v := fun v =>
      (lastNonNull_concat [] v).trans (Option.or_none)
    simp only [stored, settingsAfter, List.map_append, List.map_cons, List.map_nil, sentKey, hnil]
  | append_singleton before last ih =>
    obtain ⟨-, hload⟩ := ih last
    rw [← runRequests_concat] at hload
    refine (storeSettings_of_merged hdumps (mergeStored_some hload request)).imp_right fun hload => ?_
    refine hload.trans (congrArg (some ∘ some) ?_)
    simp only [stored, settingsAfter, List.map_append, List.map_cons, List.map_nil, filter_or_sentKey, lastNonNull_concat]

theorem masked_eq_iff (request : Option SecretStr) (keys : List (Option SecretStr)) :
    request.map (fun key => (⟨key.masked⟩ : SecretStr)) = sentKey (keys ++ [request]) ↔
      request = none ∧ (∀ key ∈ lastNonNull keys, key.blank = true) ∨ request = some ⟨"**********"⟩ := by
  unfold sentKey
  rw [lastNonNull_concat]
  rcases request with - | key
  · cases lastNonNull keys <;> simp [Option.filter]
  · obtain ⟨value⟩ := key
    have hstars : SecretStr.blank ⟨"**********"⟩ = false := by decide
    have hempty : SecretStr.blank ⟨""⟩ = true := by decide
    rw [Option.some_or, Option.map_some, or_iff_right (fun h => absurd h.1 (Option.some_ne_none _))]
    by_cases hvalue : value = ""
    · subst hvalue
      simp [Option.filter, hempty]
    · have hmasked : SecretStr.masked ⟨value⟩ = "**********" := if_neg hvalue
      by_cases hblank : SecretStr.blank ⟨value⟩ = true
      · have hne : value ≠ "**********" := by
          intro h
          rw [h, hstars] at hblank
          exact absurd hblank Bool.false_ne_true
        simp [Option.filter, hblank, hne]
      · rw [hmasked, Option.filter, if_pos (by simpa using hblank)]
        exact eq_comm

/-- The settings survive exactly when no key of the sandbox has to. -/
theorem keepsSettings_iff (hdumps : ∀ j : Json, j.WellFormed → Json.loads (dumps j) = some j)
    (requests : List (Settings urlparse)) :
    KeepsSettings dumps requests ↔ ∀ before request, before ++ [request] <+: requests →
      (request.sandboxApiKey = none ∧ (∀ key ∈ lastNonNull (before.map Settings.sandboxApiKey), key.blank = true) ∨
        request.sandboxApiKey = some ⟨"**********"⟩) ∧
      ∀ x ∈ request.maxBudgetPerTask, (x matches .finite _) = true := by
  refine forall₃_congr fun before request _ => ?_
  obtain ⟨hstatus, hload⟩ := load_settingsAfter hdumps before request
  dsimp only
  rw [hstatus, hload, ← masked_eq_iff]
  constructor
  · intro h
    obtain ⟨loaded, hloaded, hkept⟩ := h rfl
    obtain rfl := Option.some.inj (Option.some.inj hloaded)
    refine ⟨by simpa [settingsAfter] using hkept.sandboxApiKey, fun x hx => ?_⟩
    have hothers : request.maxBudgetPerTask.filter (fun x => x matches .finite _) = request.maxBudgetPerTask :=
      congrArg Settings.maxBudgetPerTask hkept.others
    rw [Option.mem_def.mp hx, Option.filter_eq_some_iff] at hothers
    exact hothers.2
  · rintro ⟨hsandbox, hbudget⟩ -
    refine ⟨_, rfl, rfl, rfl, ?_, rfl, rfl, rfl, ?_⟩
    · simpa [settingsAfter] using hsandbox
    · have hothers : request.maxBudgetPerTask.filter (fun x => x matches .finite _) = request.maxBudgetPerTask := by
        cases hbudgets : request.maxBudgetPerTask with
        | none => rfl
        | some x => exact Option.filter_some_pos (hbudget x hbudgets)
      simp only [settingsAfter, hothers]

end

theorem loads_dumps (j : Json) (h : j.WellFormed) : Json.loads (Json.dumps j) = some j := Json.loads_dumps h

def noHost : String → Option (String × String) := fun _ => none

/-- A request with a key of the language model, and one that leaves it out. -/
def twoRequests : List (Settings noHost) := [{ llmApiKey := some ⟨"sk-1"⟩, language := some "en" }, {}]

theorem keepsSettings_iff_twoRequests :
    KeepsSettings Json.dumps twoRequests ↔ ∀ before request, before ++ [request] <+: twoRequests →
      (request.sandboxApiKey = none ∧ (∀ key ∈ lastNonNull (before.map Settings.sandboxApiKey), key.blank = true) ∨
        request.sandboxApiKey = some ⟨"**********"⟩) ∧
      ∀ x ∈ request.maxBudgetPerTask, (x matches .finite _) = true :=
  keepsSettings_iff loads_dumps twoRequests

/-- The key of the sandbox is stored as asterisks. -/
theorem keepsSettings_counterexample : ¬ ∀ (urlparse : String → Option (String × String)) (dumps : Json → List Char),
    (∀ j : Json, j.WellFormed → Json.loads (dumps j) = some j) →
      ∀ requests : List (Settings urlparse), KeepsSettings dumps requests := by
  intro h
  let request : Settings noHost := { sandboxApiKey := some ⟨"sk-1"⟩ }
  have hkeeps := h noHost Json.dumps loads_dumps [request] [] request List.prefix_rfl
  obtain ⟨hstatus, hload⟩ := load_settingsAfter loads_dumps [] request
  obtain ⟨loaded, hloaded, hkept⟩ := hkeeps hstatus
  rw [hload] at hloaded
  obtain rfl := Option.some.inj (Option.some.inj hloaded)
  exact absurd hkept.sandboxApiKey (by decide)

end OpenHands.UserSettings
