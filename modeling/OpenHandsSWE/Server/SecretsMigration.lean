import OpenHandsSWE.Server.SecretsStore
import OpenHandsSWE.Server.UserSettings

/-! The secrets that older settings files hold, and the move of them into the secrets file. -/

namespace OpenHands.SecretsMigration
open McpConfig (Config)
open SecretsStore (CustomSecret Document ProviderToken Secrets)
open UserSettings (AppConfig Settings SecretStr)

/-- The settings file: what is in it besides the `secrets_store`, and this. -/
structure SettingsFile where
  text : List Char
  secretsStore : Document

structure State where
  config : AppConfig := {}
  settings : Option SettingsFile := none
  secrets : Option Document := none

def State.settingsText (s : State) : Option (List Char) := s.settings.map SettingsFile.text

/-- The `secrets_store` that the settings are loaded with. -/
def State.settingsSecrets (s : State) : Secrets := s.settings.elim {} fun file => .ofDocument file.secretsStore

/-- What the serializer makes of every `secrets_store`. -/
def secretsStoreSerializer : Document := ⟨.empty, .empty⟩

section Routes

variable {urlparse : String → Option (String × String)} (dumps : Json → List Char)

def fileOf (settings : Settings urlparse) : SettingsFile :=
  ⟨dumps (UserSettings.modelDumpJson settings true), secretsStoreSerializer⟩

/-- `config` is what the configuration file has, if it has a section for it. -/
def mergeWithConfigSettings (config : Option (Config urlparse)) (settings : Settings urlparse) : Settings urlparse :=
  match config, settings.mcpConfig with
  | none, _ => settings
  | some config, none => { settings with mcpConfig := some config }
  | some config, some own => { settings with mcpConfig := some {
      sseServers := config.sseServers ++ own.sseServers
      stdioServers := config.stdioServers ++ own.stdioServers
      shttpServers := config.shttpServers ++ own.shttpServers } }

def invalidateLegacySecretsStore (s : State) (settings : Settings urlparse) : State × Option Secrets :=
  if s.settingsSecrets.providerTokens.entries.length > 0 then
    let userSecrets : Secrets := { providerTokens := s.settingsSecrets.providerTokens }
    ({ s with secrets := SecretsStore.store userSecrets, settings := some (fileOf dumps settings) }, some userSecrets)
  else (s, none)

/-- `GETSettingsModel`. -/
structure SettingsWithTokenData (urlparse : String → Option (String × String)) where
  settings : Settings urlparse
  llmApiKeySet : Bool
  searchApiKeySet : Bool
  providerTokensSet : List (ProviderType × Option String)

def providerTokensSet (tokens : List (ProviderType × ProviderToken)) : List (ProviderType × Option String) :=
  (tokens.filter fun kv => kv.2.given.isSome || (kv.2.userId.filter (· ≠ "")).isSome).map fun kv => (kv.1, kv.2.host)

def keySet (key : Option SecretStr) : Bool := (key.filter fun key => key.value ≠ "").isSome

inductive Response (urlparse : String → Option (String × String)) where
  | settings (answer : SettingsWithTokenData urlparse)
  | json (status : Nat) (key message : String)

def Response.status : Response urlparse → Nat
  | .settings _ => 200
  | .json status _ _ => status

def loadSettings (config : Option (Config urlparse)) (s : State) : State × Response urlparse :=
  match UserSettings.load s.settingsText with
  | none => (s, .json 500 "detail" "Internal Server Error")
  | some none => (s, .json 404 "error" "Settings not found")
  | some (some loaded) =>
    let settings := mergeWithConfigSettings config loaded
    let (after, userSecrets) := invalidateLegacySecretsStore dumps s settings
    let gitProviders := (userSecrets.or (SecretsStore.load s.secrets)).elim [] fun secrets => secrets.providerTokens.entries
    match UserSettings.ofDict (UserSettings.modelDump settings) with
    | none => (after, .json 401 "error" "Invalid token")
    | some answer => (after, .settings {
        settings := { answer with llmApiKey := none, searchApiKey := none, sandboxApiKey := none }
        llmApiKeySet := keySet settings.llmApiKey
        searchApiKeySet := keySet settings.searchApiKey
        providerTokensSet := providerTokensSet gitProviders })

/-- A `secrets_store` that comes with the request is not stored. -/
def storeSettings (s : State) (body : Settings urlparse) : State × Response urlparse :=
  match UserSettings.storeSettings dumps ⟨s.config, s.settingsText⟩ body with
  | (stored, 200) =>
    ({ s with config := stored.config, settings := stored.file.map fun text => ⟨text, secretsStoreSerializer⟩ },
      .json 200 "message" "Settings stored")
  | (stored, status) => ({ s with config := stored.config }, .json status "error" "Something went wrong storing settings")

inductive Request (urlparse : String → Option (String × String)) where
  | loadSettings (config : Option (Config urlparse))
  | storeSettings (body : Settings urlparse)

def serve (s : State) : Request urlparse → State × Response urlparse
  | .loadSettings config => loadSettings dumps config s
  | .storeSettings body => storeSettings dumps s body

end Routes

/-! ## What is kept -/

inductive Item where
  | providerToken (provider : ProviderType) (token : ProviderToken)
  | customSecret (name : String) (secret : CustomSecret)

/-- A provider token counts when it is not empty. -/
def Item.In (secrets : Secrets) : Item → Prop
  | .providerToken provider token => secrets.providerTokens.get? provider = some token ∧ token.given ≠ none
  | .customSecret name secret => secrets.customSecrets.get? name = some secret

def State.InSettings (s : State) (item : Item) : Prop := item.In s.settingsSecrets

def State.InSecrets (s : State) (item : Item) : Prop := ∃ secrets, SecretsStore.load s.secrets = some secrets ∧ item.In secrets

def State.Holds (s : State) (item : Item) : Prop := s.InSettings item ∨ s.InSecrets item

section Runs

variable {urlparse : String → Option (String × String)} (dumps : Json → List Char)

/-- The files, and whether a request has loaded the settings. -/
structure Migration where
  state : State
  loaded : Bool := false

def Request.isLoad : Request urlparse → Bool
  | .loadSettings _ => true
  | .storeSettings _ => false

def Migration.step (m : Migration) (r : Request urlparse) : Migration where
  state := (serve dumps m.state r).1
  loaded := m.loaded || (r.isLoad && decide ((serve dumps m.state r).2.status = 200))

/-- After the request everything from the start is in a file, and in the secrets file once the settings were loaded. -/
def Keeps (start : State) (m : Migration) (r : Request urlparse) : Prop :=
  ∀ item, start.Holds item →
    (m.step dumps r).state.Holds item ∧ ((m.step dumps r).loaded = true → (m.step dumps r).state.InSecrets item)

/-- The settings file can be read, or there is none. -/
def Loads (urlparse : String → Option (String × String)) (s : State) : Prop :=
  (UserSettings.load s.settingsText : Option (Option (Settings urlparse))) ≠ none

/-- The request moves the tokens of the settings file. -/
def Moves (m : Migration) (r : Request urlparse) : Prop :=
  r.isLoad = true ∧ m.state.settingsSecrets.providerTokens.entries ≠ []

instance (m : Migration) (r : Request urlparse) : Decidable (Moves m r) := inferInstanceAs (Decidable (_ ∧ _))

/-- Where the tokens of the settings file replace the secrets file, they are all that there is; elsewhere the
settings file has nothing that the secrets file does not have. -/
def NothingToLose (m : Migration) (r : Request urlparse) : Prop :=
  Loads urlparse m.state →
    if Moves m r then
      ∀ item, m.state.Holds item → ∃ provider token, item = .providerToken provider token ∧ m.state.InSettings item
    else ∀ item, m.state.InSettings item → m.state.InSecrets item

end Runs

/-! ## What one request does to the files -/

section Items

variable {s after : State} {item : Item}

theorem kept_eq_some_iff {t kept : ProviderToken} : t.kept = some kept ↔ t = kept ∧ kept.given ≠ none := by
  have hself : ∀ token, t.given = some token → (⟨some token, t.userId, t.host⟩ : ProviderToken) = t := by
    intro token hgiven
    obtain ⟨htoken, -⟩ := Option.filter_eq_some_iff.mp hgiven
    rw [← htoken]
  rw [ProviderToken.kept, Option.map_eq_some_iff]
  constructor
  · rintro ⟨token, hgiven, hkept⟩
    obtain rfl := (hself token hgiven).symm.trans hkept
    exact ⟨rfl, fun hnone => Option.some_ne_none token (hgiven.symm.trans hnone)⟩
  · rintro ⟨rfl, hgiven⟩
    obtain ⟨token, htoken⟩ := Option.ne_none_iff_exists'.mp hgiven
    exact ⟨token, htoken, hself token htoken⟩

theorem inSecrets_providerToken_iff {provider : ProviderType} {token : ProviderToken} :
    s.InSecrets (.providerToken provider token) ↔
      SecretsStore.tokensOf s.secrets provider = some token ∧ token.given ≠ none := by
  rw [SecretsStore.tokensOf, Option.bind_eq_some_iff]
  constructor
  · rintro ⟨secrets, hload, hget, hgiven⟩
    exact ⟨⟨secrets, hload, hget⟩, hgiven⟩
  · rintro ⟨⟨secrets, hload, hget⟩, hgiven⟩
    exact ⟨secrets, hload, hget, hgiven⟩

theorem inSecrets_customSecret_iff {name : String} {secret : CustomSecret} :
    s.InSecrets (.customSecret name secret) ↔ SecretsStore.secretsOf s.secrets name = some secret := by
  rw [SecretsStore.secretsOf, Option.bind_eq_some_iff]
  exact Iff.rfl

/-- The move takes the provider tokens, and nothing else. -/
theorem inSecrets_of_moved
    (hsecrets : after.secrets = SecretsStore.store { providerTokens := s.settingsSecrets.providerTokens }) :
    after.InSecrets item ↔ ∃ provider token, item = .providerToken provider token ∧ s.InSettings item := by
  cases item with
  | providerToken provider token =>
    rw [inSecrets_providerToken_iff, hsecrets, SecretsStore.tokensOf_store, Option.bind_eq_some_iff]
    constructor
    · rintro ⟨⟨old, hold, hkept⟩, hgiven⟩
      obtain ⟨rfl, -⟩ := kept_eq_some_iff.mp hkept
      exact ⟨provider, old, rfl, hold, hgiven⟩
    · rintro ⟨_, _, -, hget, hgiven⟩
      exact ⟨⟨token, hget, kept_eq_some_iff.mpr ⟨rfl, hgiven⟩⟩, hgiven⟩
  | customSecret name secret =>
    rw [inSecrets_customSecret_iff, hsecrets, SecretsStore.secretsOf_store]
    refine iff_of_false (Option.some_ne_none secret).symm ?_
    rintro ⟨_, _, heq, -⟩
    cases heq

/-- There is nothing in the secrets that a document without entries, or no document, gives. -/
theorem Item.not_in_empty (item : Item) : ¬ item.In {} := by
  cases item with
  | providerToken => exact fun hin => Option.some_ne_none _ hin.1.symm
  | customSecret => exact fun hin => Option.some_ne_none _ hin.symm

theorem not_inSettings_of_text {text : List Char} (h : after.settings = some ⟨text, secretsStoreSerializer⟩) :
    ¬ after.InSettings item := by
  have hempty : after.settingsSecrets = {} := by
    rw [State.settingsSecrets, h]
    rfl
  rw [State.InSettings, hempty]
  exact item.not_in_empty

theorem not_inSettings_of_none (h : s.settings = none) : ¬ s.InSettings item := by
  have hempty : s.settingsSecrets = {} := by rw [State.settingsSecrets, h, Option.elim_none]
  rw [State.InSettings, hempty]
  exact item.not_in_empty

theorem holds_of_stored {text : List Char} (h : after.settings = some ⟨text, secretsStoreSerializer⟩) :
    after.Holds item ↔ after.InSecrets item := or_iff_right (not_inSettings_of_text h)

end Items

section Steps

variable {urlparse : String → Option (String × String)} (dumps : Json → List Char)

theorem mergeStored_eq_none_iff (body : Settings urlparse) (file : Option (List Char)) :
    UserSettings.mergeStored body file = none ↔
      (UserSettings.load file : Option (Option (Settings urlparse))) = none := by
  cases hload : (UserSettings.load file : Option (Option (Settings urlparse))) with
  | none =>
    refine iff_of_true ?_ rfl
    unfold UserSettings.mergeStored
    rw [hload]
    rfl
  | some existing =>
    refine iff_of_false ?_ (Option.some_ne_none existing)
    cases existing with
    | none =>
      unfold UserSettings.mergeStored
      rw [hload]
      exact Option.some_ne_none body
    | some existing =>
      rw [UserSettings.mergeStored_some hload]
      exact Option.some_ne_none _

/-- Settings are stored exactly when the file can be read, and leave no `secrets_store`. -/
theorem serve_storeSettings (s : State) (body : Settings urlparse) :
    (¬ Loads urlparse s → (serve dumps s (.storeSettings body)).1 = s) ∧
      (Loads urlparse s → (serve dumps s (.storeSettings body)).1.secrets = s.secrets ∧
        ∃ text, (serve dumps s (.storeSettings body)).1.settings = some ⟨text, secretsStoreSerializer⟩) := by
  have hnone := mergeStored_eq_none_iff body s.settingsText
  change (_ → (storeSettings dumps s body).1 = s) ∧ (_ → (storeSettings dumps s body).1.secrets = s.secrets ∧
    ∃ text, (storeSettings dumps s body).1.settings = some ⟨text, secretsStoreSerializer⟩)
  unfold storeSettings
  rw [UserSettings.storeSettings]
  cases hmerged : UserSettings.mergeStored body s.settingsText with
  | none => exact ⟨fun _ => rfl, fun hloads => absurd (hnone.mp hmerged) hloads⟩
  | some merged =>
    dsimp only
    rw [UserSettings.convertToSettings_eq]
    refine ⟨fun hfails => ?_, fun _ => ⟨rfl, _, rfl⟩⟩
    have hmerges : UserSettings.mergeStored body s.settingsText = none := hnone.mpr (not_not.mp hfails)
    exact absurd (hmerged.symm.trans hmerges) (Option.some_ne_none merged)

/-- A dumped model builds again, so the answer is given. -/
theorem ofDict_modelDump (settings : Settings urlparse) :
    ∃ answer : Settings urlparse, UserSettings.ofDict (UserSettings.modelDump settings) = some answer := by
  have hkey : ∀ key, ∃ read, UserSettings.readSecret (.plain (UserSettings.apiKeySerializer false key)) = some read := by
    intro key
    unfold UserSettings.apiKeySerializer
    split
    · exact ⟨none, rfl⟩
    · split
      · exact ⟨none, rfl⟩
      · exact ⟨_, rfl⟩
  have hsecret : UserSettings.readSecret (UserSettings.secretValue settings.sandboxApiKey) =
      some settings.sandboxApiKey := by
    cases settings.sandboxApiKey <;> rfl
  have hnumber : UserSettings.readNumber (UserSettings.numberValue settings.maxBudgetPerTask) =
      some settings.maxBudgetPerTask := by
    cases settings.maxBudgetPerTask <;> rfl
  obtain ⟨llm, hllm⟩ := hkey settings.llmApiKey
  obtain ⟨search, hsearch⟩ := hkey settings.searchApiKey
  exact ⟨_, UserSettings.ofDict_fields settings hllm hsearch hsecret hnumber⟩

theorem serve_loadSettings (s : State) (config : Option (Config urlparse)) :
    (∃ loaded : Settings urlparse, UserSettings.load s.settingsText = some (some loaded) ∧
      (serve dumps s (.loadSettings config)).2.status = 200 ∧
      (serve dumps s (.loadSettings config)).1 =
        (invalidateLegacySecretsStore dumps s (mergeWithConfigSettings config loaded)).1) ∨
    ((¬ Loads urlparse s ∨ s.settings = none) ∧ (serve dumps s (.loadSettings config)).2.status ≠ 200 ∧
      (serve dumps s (.loadSettings config)).1 = s) := by
  have hserve : serve dumps s (.loadSettings config) = loadSettings dumps config s := rfl
  rw [hserve, loadSettings]
  cases hload : (UserSettings.load s.settingsText : Option (Option (Settings urlparse))) with
  | none => exact Or.inr ⟨Or.inl (not_not.mpr hload), (by decide : 500 ≠ 200), rfl⟩
  | some loaded =>
    cases loaded with
    | none =>
      refine Or.inr ⟨Or.inr ?_, (by decide : 404 ≠ 200), rfl⟩
      cases hsettings : s.settings with
      | none => rfl
      | some file =>
        rw [State.settingsText, hsettings, Option.map_some, UserSettings.load] at hload
        split at hload
        · obtain ⟨_, -, hsome⟩ := Option.map_eq_some_iff.mp hload
          cases hsome
        · cases hload
    | some loaded =>
      obtain ⟨answer, hanswer⟩ := ofDict_modelDump (mergeWithConfigSettings config loaded)
      refine Or.inl ⟨loaded, rfl, ?_⟩
      dsimp only
      rw [hanswer]
      exact ⟨rfl, rfl⟩

theorem not_moves_of_none {m : Migration} (h : m.state.settings = none) (r : Request urlparse) : ¬ Moves m r := by
  rintro ⟨-, htokens⟩
  apply htokens
  rw [State.settingsSecrets, h]
  rfl

/-- A request does nothing, only loads, stores settings without secrets, or moves the tokens. -/
theorem step_cases (m : Migration) (r : Request urlparse) :
    ((m.step dumps r).state = m.state ∧ (m.step dumps r).loaded = m.loaded ∧
      (Loads urlparse m.state → m.state.settings = none)) ∨
    ((m.step dumps r).state = m.state ∧ (m.step dumps r).loaded = true ∧ Loads urlparse m.state ∧ ¬ Moves m r) ∨
    Loads urlparse m.state ∧ (∃ text, (m.step dumps r).state.settings = some ⟨text, secretsStoreSerializer⟩) ∧
      ((m.step dumps r).state.secrets = m.state.secrets ∧ (m.step dumps r).loaded = m.loaded ∧ ¬ Moves m r ∨
        (m.step dumps r).state.secrets =
          SecretsStore.store { providerTokens := m.state.settingsSecrets.providerTokens } ∧
        (m.step dumps r).loaded = true ∧ Moves m r) := by
  cases r with
  | storeSettings body =>
    obtain ⟨hfails, hstores⟩ := serve_storeSettings dumps m.state body
    have hflag : (m.step dumps (.storeSettings body)).loaded = m.loaded := Bool.or_false m.loaded
    by_cases hloads : Loads urlparse m.state
    · obtain ⟨hsecrets, htext⟩ := hstores hloads
      exact Or.inr (Or.inr ⟨hloads, htext, Or.inl ⟨hsecrets, hflag, fun h => Bool.false_ne_true h.1⟩⟩)
    · exact Or.inl ⟨hfails hloads, hflag, fun h => absurd h hloads⟩
  | loadSettings config =>
    rcases serve_loadSettings dumps m.state config with ⟨loaded, hload, hstatus, hstate⟩ | ⟨hno, hstatus, hstate⟩
    · have hloads : Loads urlparse m.state := by
        rw [Loads, hload]
        exact Option.some_ne_none _
      have hflag : (m.step dumps (.loadSettings config)).loaded = true := by
        rw [Migration.step, hstatus]
        exact Bool.or_true m.loaded
      rw [invalidateLegacySecretsStore] at hstate
      by_cases htokens : m.state.settingsSecrets.providerTokens.entries = []
      · rw [if_neg (by simp [htokens])] at hstate
        exact Or.inr (Or.inl ⟨hstate, hflag, hloads, fun h => h.2 htokens⟩)
      · rw [if_pos (List.length_pos_iff.mpr htokens)] at hstate
        refine Or.inr (Or.inr ⟨hloads, ⟨_, congrArg State.settings hstate⟩, Or.inr ⟨?_, hflag, rfl, htokens⟩⟩)
        exact congrArg State.secrets hstate
    · have hflag : (m.step dumps (.loadSettings config)).loaded = m.loaded := by
        rw [Migration.step, decide_eq_false hstatus, Bool.and_false, Bool.or_false]
      exact Or.inl ⟨hstate, hflag, fun hloads => hno.resolve_left (not_not.mpr hloads)⟩

theorem inSecrets_congr {s after : State} (h : after.secrets = s.secrets) (item : Item) :
    after.InSecrets item ↔ s.InSecrets item := by
  unfold State.InSecrets
  rw [h]

/-- A request brings nothing into the files. -/
theorem holds_of_holds_step {m : Migration} {r : Request urlparse} {item : Item}
    (h : (m.step dumps r).state.Holds item) : m.state.Holds item := by
  rcases step_cases dumps m r with ⟨hstate, -, -⟩ | ⟨hstate, -, -, -⟩ | ⟨-, ⟨text, htext⟩, hsecrets⟩
  · exact hstate ▸ h
  · exact hstate ▸ h
  · have hin := (holds_of_stored htext).mp h
    rcases hsecrets with ⟨hsecrets, -, -⟩ | ⟨hsecrets, -, -⟩
    · exact Or.inr ((inSecrets_congr hsecrets item).mp hin)
    · obtain ⟨_, _, -, hsettings⟩ := (inSecrets_of_moved hsecrets).mp hin
      exact Or.inl hsettings

/-- A request keeps everything exactly when it has nothing to lose, as long as nothing was lost before. -/
theorem keeps_iff {start : State} {m : Migration} (hheld : ∀ item, start.Holds item ↔ m.state.Holds item)
    (hloaded : m.loaded = true → ∀ item, m.state.Holds item → m.state.InSecrets item) (r : Request urlparse) :
    Keeps dumps start m r ↔ NothingToLose m r := by
  rcases step_cases dumps m r with
    ⟨hstate, hflag, hnone⟩ | ⟨hstate, hflag, hloads, hmoves⟩ |
    ⟨hloads, ⟨text, htext⟩, ⟨hsecrets, hflag, hmoves⟩ | ⟨hsecrets, hflag, hmoves⟩⟩
  · refine iff_of_true (fun item hitem => ?_) fun hloads => ?_
    · rw [hstate, hflag]
      exact ⟨(hheld item).mp hitem, fun h => hloaded h item ((hheld item).mp hitem)⟩
    · rw [if_neg (not_moves_of_none (hnone hloads) r)]
      exact fun item hitem => absurd hitem (not_inSettings_of_none (hnone hloads))
  · rw [NothingToLose, if_neg hmoves, Keeps, hstate, hflag]
    constructor
    · intro hkeeps _ item hitem
      exact (hkeeps item ((hheld item).mpr (Or.inl hitem))).2 rfl
    · intro hnothing item hitem
      have hholds := (hheld item).mp hitem
      exact ⟨hholds, fun _ => hholds.elim (hnothing hloads item) id⟩
  · have hin := inSecrets_congr hsecrets
    rw [NothingToLose, if_neg hmoves]
    constructor
    · intro hkeeps _ item hitem
      have hholds := (hkeeps item ((hheld item).mpr (Or.inl hitem))).1
      exact (hin item).mp ((holds_of_stored htext).mp hholds)
    · intro hnothing item hitem
      have hsecret := (hin item).mpr (((hheld item).mp hitem).elim (hnothing hloads item) id)
      exact ⟨Or.inr hsecret, fun _ => hsecret⟩
  · have hin : ∀ item, (m.step dumps r).state.InSecrets item ↔
        ∃ provider token, item = .providerToken provider token ∧ m.state.InSettings item :=
      fun item => inSecrets_of_moved hsecrets
    rw [NothingToLose, if_pos hmoves]
    constructor
    · intro hkeeps _ item hitem
      exact (hin item).mp ((hkeeps item ((hheld item).mpr hitem)).2 hflag)
    · intro hnothing item hitem
      have hsecret := (hin item).mpr (hnothing hloads item ((hheld item).mp hitem))
      exact ⟨Or.inr hsecret, fun _ => hsecret⟩

/-- Nothing is lost in a run exactly when no request of it has something to lose. -/
theorem keeps_run_iff (start : State) (requests : List (Request urlparse)) :
    Runs.EachStep (Migration.step dumps) ⟨start, false⟩ (Keeps dumps start) requests ↔
      Runs.EachStep (Migration.step dumps) ⟨start, false⟩ NothingToLose requests := by
  refine Runs.eachStep_iff (I := fun m => (∀ item, start.Holds item ↔ m.state.Holds item) ∧
    (m.loaded = true → ∀ item, m.state.Holds item → m.state.InSecrets item)) ?_ ?_ ?_ requests
  · exact ⟨fun _ => Iff.rfl, fun h => absurd h Bool.false_ne_true⟩
  · rintro m r ⟨hheld, -⟩ hkeeps
    have hback : ∀ item, (m.step dumps r).state.Holds item → start.Holds item := fun item hitem =>
      (hheld item).mpr (holds_of_holds_step dumps hitem)
    exact ⟨fun item => ⟨fun hitem => (hkeeps item hitem).1, hback item⟩,
      fun hflag item hitem => (hkeeps item (hback item hitem)).2 hflag⟩
  · rintro m r ⟨hheld, hloaded⟩
    exact keeps_iff dumps hheld hloaded r

end Steps

/-- A settings file with a provider token, and a secrets file with a custom secret. -/
def tokenAndSecret : State where
  settings := some ⟨Json.dumps (.obj []), ⟨⟨[("github", ⟨some "ghp", none, none⟩)], List.nodup_singleton _⟩, .empty⟩⟩
  secrets := some ⟨.empty, ⟨[("TOKEN", ⟨some "value", some ""⟩)], List.nodup_singleton _⟩⟩

theorem loads_tokenAndSecret : Loads UserSettings.noHost tokenAndSecret := by
  have hloads : Json.loads (Json.dumps (.obj [])) = some (.obj []) :=
    Json.loads_dumps (Json.wellFormed_obj List.nodup_nil fun _ h => absurd h List.not_mem_nil)
  change (UserSettings.load (some (Json.dumps (.obj []))) : Option (Option (Settings UserSettings.noHost))) ≠ none
  unfold UserSettings.load
  dsimp only
  rw [hloads]
  exact Option.some_ne_none _

theorem not_keeps_run : ¬ Runs.EachStep (Migration.step Json.dumps) ⟨tokenAndSecret, false⟩
    (Keeps Json.dumps tokenAndSecret) [.loadSettings (none : Option (Config UserSettings.noHost))] := by
  intro h
  have hkeeps : Keeps Json.dumps tokenAndSecret ⟨tokenAndSecret, false⟩ _ := h [] (.loadSettings none) List.prefix_rfl
  have hnothing := (keeps_iff (m := ⟨tokenAndSecret, false⟩) Json.dumps (fun _ => Iff.rfl)
    (fun h => absurd h Bool.false_ne_true) _).mp hkeeps
  have hlost := hnothing loads_tokenAndSecret
  rw [if_pos ⟨rfl, List.cons_ne_nil _ _⟩] at hlost
  have hsecret : tokenAndSecret.InSecrets (.customSecret "TOKEN" ⟨"value", ""⟩) := ⟨_, rfl, rfl⟩
  obtain ⟨_, _, heq, -⟩ := hlost _ (Or.inr hsecret)
  cases heq

end OpenHands.SecretsMigration
