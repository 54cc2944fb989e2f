import OpenHandsSWE.AppServer.ConversationInfo
import OpenHandsSWE.Lib.OrderedMap
import OpenHandsSWE.Lib.Runs

/-! The secrets file, with the tokens of the git providers and the custom secrets of the user, and the routes
that change it. -/

namespace OpenHands

theorem ProviderType.value_injective : Function.Injective ProviderType.value := by
  intro p q h
  cases p <;> cases q <;> first | rfl | simp [ProviderType.value] at h

/-- `ProviderType(text)`; a text that is none raises `ValueError`. -/
def ProviderType.ofValue (text : String) : Option ProviderType := ProviderType.all.find? fun p => p.value = text

theorem ProviderType.ofValue_eq_some_iff {text : String} {p : ProviderType} :
    ProviderType.ofValue text = some p ↔ text = p.value := by
  constructor
  · intro h
    have hvalue := List.find?_some (p := fun p : ProviderType => decide (p.value = text)) h
    exact (of_decide_eq_true hvalue).symm
  · rintro rfl
    cases p <;> rfl

theorem ProviderType.separates_ofValue : OrderedMap.Separates ProviderType.ofValue := fun _ _ _ hk hl =>
  (ofValue_eq_some_iff.mp hk).trans (ofValue_eq_some_iff.mp hl).symm

namespace SecretsStore

structure ProviderToken where
  token : Option String := none
  userId : Option String := none
  host : Option String := none
deriving DecidableEq, Repr

/-- The token when it is not empty. -/
def ProviderToken.given (t : ProviderToken) : Option String := t.token.filter (· ≠ "")

structure CustomSecret where
  secret : String
  description : String
deriving DecidableEq, Repr

structure Secrets where
  providerTokens : OrderedMap ProviderType ProviderToken := .empty
  customSecrets : OrderedMap String CustomSecret := .empty
deriving DecidableEq

/-! ## The file -/

/-- A provider token in the document; what is absent is null. -/
structure TokenEntry where
  token : Option String
  userId : Option String
  host : Option String
deriving DecidableEq, Repr

/-- A custom secret in the document; what is absent is empty. -/
structure SecretEntry where
  secret : Option String
  description : Option String
deriving DecidableEq, Repr

/-- The JSON document of the file. -/
structure Document where
  providerTokens : OrderedMap String TokenEntry
  customSecrets : OrderedMap String SecretEntry
deriving DecidableEq

def ProviderToken.fromValue (e : TokenEntry) : ProviderToken := ⟨some (e.token.getD ""), e.userId, e.host⟩

def CustomSecret.fromValue (e : SecretEntry) : CustomSecret := ⟨e.secret.getD "", e.description.getD ""⟩

/-- `Secrets(**kwargs)`: what is under the name of no provider is skipped. -/
def Secrets.ofDocument (doc : Document) : Secrets where
  providerTokens := doc.providerTokens.convert ProviderType.ofValue ProviderType.separates_ofValue
    fun e => some (.fromValue e)
  customSecrets := doc.customSecrets.convert some OrderedMap.separates_some fun e => some (.fromValue e)

/-- The entries with a token. -/
def Document.withTokens (doc : Document) : Document :=
  { doc with providerTokens := doc.providerTokens.convert some OrderedMap.separates_some fun e =>
      if e.token.filter (· ≠ "") = none then none else some e }

def load (file : Option Document) : Option Secrets := file.map fun doc => .ofDocument doc.withTokens

/-- The serializers: a provider without a token is left out. -/
def Secrets.toDocument (s : Secrets) : Document where
  providerTokens := s.providerTokens.convert (fun p => some p.value)
    (OrderedMap.Separates.of_injective ProviderType.value_injective)
    fun t => t.given.map fun token => ⟨some token, t.userId, t.host⟩
  customSecrets := s.customSecrets.convert some OrderedMap.separates_some fun c => some ⟨some c.secret, some c.description⟩

def store (s : Secrets) : Option Document := some s.toDocument

/-! ## The routes -/

structure CustomSecretWithoutValue where
  name : String
  description : Option String
deriving DecidableEq, Repr

inductive Response where
  | json (status : Nat) (key message : String)
  | customSecrets (secrets : List CustomSecretWithoutValue)
deriving DecidableEq, Repr

def Response.status : Response → Nat
  | .json status _ _ => status
  | .customSecrets _ => 200

/-- `validate_provider_token`: the provider at which a token is good on a host. -/
abbrev Validate := (token : String) → (host : Option String) → Option ProviderType

def processTokenValidationResult (confirmedTokenType : Option ProviderType) (tokenType : ProviderType) : String :=
  if confirmedTokenType = some tokenType then ""
  else "Invalid token. Please make sure it is a valid " ++ tokenType.value ++ " token."

/-- A round of the loop, with the message that the ones before have left. -/
def checkProviderToken (validate : Validate) (existing : Option (OrderedMap ProviderType ProviderToken)) (msg : String)
    (incoming : ProviderType × ProviderToken) : String :=
  let msg := match incoming.2.given with
    | some token => processTokenValidationResult (validate token incoming.2.host) incoming.1
    | none => msg
  match existing.bind fun tokens => tokens.get? incoming.1 with
  | some existingToken =>
    if existingToken.host ≠ incoming.2.host then
      match existingToken.given with
      | some token =>
        if validate token incoming.2.host = some incoming.1 then msg
        else processTokenValidationResult (validate token incoming.2.host) incoming.1
      | none => msg
    else msg
  | none => msg

def checkProviderTokens (validate : Validate) (incoming : OrderedMap ProviderType ProviderToken)
    (existing : Option (OrderedMap ProviderType ProviderToken)) : String :=
  incoming.entries.foldl (checkProviderToken validate existing) ""

/-- The token that is stored for an incoming one: an empty one stands for the token that is there. -/
def mergeToken (existing : Secrets) (provider : ProviderType) (t : ProviderToken) : ProviderToken :=
  match (existing.providerTokens.get? provider).filter fun e => e.given.isSome with
  | some existingToken => if t.given = none then { existingToken with host := t.host } else t
  | none => t

def mergeTokens (existing : Secrets) (incoming : OrderedMap ProviderType ProviderToken) : OrderedMap ProviderType ProviderToken :=
  incoming.entries.foldl (fun tokens kv => tokens.set kv.1 (mergeToken existing kv.1 kv.2)) incoming

def storeProviderTokens (validate : Validate) (file : Option Document) (incoming : OrderedMap ProviderType ProviderToken)
    (providerTokens : Option (OrderedMap ProviderType ProviderToken)) : Option Document × Response :=
  let providerErrMsg := checkProviderTokens validate incoming providerTokens
  if providerErrMsg ≠ "" then (file, .json 401 "error" providerErrMsg)
  else
    let userSecrets := (load file).getD {}
    (store { userSecrets with providerTokens := mergeTokens userSecrets incoming },
      .json 200 "message" "Git providers stored")

def unsetProviderTokens (file : Option Document) : Option Document × Response :=
  ((load file).elim file fun userSecrets => store { userSecrets with providerTokens := .empty },
    .json 200 "message" "Unset Git provider tokens")

def loadCustomSecretsNames (userSecrets : Option Secrets) : Response :=
  match userSecrets with
  | none => .customSecrets []
  | some s => .customSecrets (s.customSecrets.entries.map fun kv => ⟨kv.1, some kv.2.description⟩)

def createCustomSecret (file : Option Document) (name value : String) (description : Option String) :
    Option Document × Response :=
  let existing := (load file).getD {}
  if name ∈ existing.customSecrets.keys then (file, .json 400 "message" ("Secret " ++ name ++ " already exists"))
  else
    (store { existing with customSecrets := existing.customSecrets.set name ⟨value, description.getD ""⟩ },
      .json 201 "message" "Secret created successfully")

def updateCustomSecret (file : Option Document) (secretId name : String) (description : Option String) :
    Option Document × Response :=
  match load file with
  | none => (file, .json 200 "message" "Secret updated successfully")
  | some existing =>
    match existing.customSecrets.get? secretId with
    | none => (file, .json 404 "error" ("Secret with ID " ++ secretId ++ " not found"))
    | some existingSecret =>
      let customSecrets := existing.customSecrets.erase secretId
      if name ≠ secretId ∧ name ∈ customSecrets.keys then
        (file, .json 400 "message" ("Secret " ++ name ++ " already exists"))
      else
        (store { existing with customSecrets := customSecrets.set name ⟨existingSecret.secret, description.getD ""⟩ },
          .json 200 "message" "Secret updated successfully")

def deleteCustomSecret (file : Option Document) (secretId : String) : Option Document × Response :=
  match load file with
  | none => (file, .json 200 "message" "Secret deleted successfully")
  | some existing =>
    if secretId ∈ existing.customSecrets.keys then
      (store { existing with customSecrets := existing.customSecrets.erase secretId },
        .json 200 "message" "Secret deleted successfully")
    else (file, .json 404 "error" ("Secret with ID " ++ secretId ++ " not found"))

/-! ## The check of the incoming tokens -/

section Check

variable (validate : Validate) (existing : Option (OrderedMap ProviderType ProviderToken))

/-- A token that is sent is good at its provider on its host, and so is a stored one whose host changes. -/
def TokenPasses (incoming : ProviderType × ProviderToken) : Prop :=
  (∀ token, incoming.2.given = some token → validate token incoming.2.host = some incoming.1) ∧
  ∀ e, (existing.bind fun tokens => tokens.get? incoming.1) = some e → e.host ≠ incoming.2.host →
    ∀ token, e.given = some token → validate token incoming.2.host = some incoming.1

/-- The message is empty exactly when every token passes, and nothing is stored when one does not. -/
def ChecksTokens (incoming : OrderedMap ProviderType ProviderToken) : Prop :=
  (checkProviderTokens validate incoming existing = "" ↔ ∀ kv ∈ incoming.entries, TokenPasses validate existing kv) ∧
  ((∃ kv ∈ incoming.entries, ¬ TokenPasses validate existing kv) → ∀ file,
    (storeProviderTokens validate file incoming existing).1 = file)

/-- Some provider fails, and none after it fails or sends a token. -/
def FailsLast (providers : List (ProviderType × ProviderToken)) : Prop :=
  ∃ before kv after, providers = before ++ kv :: after ∧ ¬ TokenPasses validate existing kv ∧
    ∀ q ∈ after, TokenPasses validate existing q ∧ q.2.given = none

variable {validate existing}

theorem processTokenValidationResult_eq_empty_iff {confirmed : Option ProviderType} {p : ProviderType} :
    processTokenValidationResult confirmed p = "" ↔ confirmed = some p := by
  rw [processTokenValidationResult]
  split_ifs with h
  · exact iff_of_true rfl h
  · refine iff_of_false ?_ h
    cases p <;> decide

/-- What a round makes of the message: only a token that is sent can empty it. -/
theorem checkProviderToken_eq_empty_iff (msg : String) (kv : ProviderType × ProviderToken) :
    checkProviderToken validate existing msg kv = "" ↔
      TokenPasses validate existing kv ∧ (msg = "" ∨ kv.2.given ≠ none) := by
  have hsent : (match kv.2.given with
      | some token => processTokenValidationResult (validate token kv.2.host) kv.1
      | none => msg) = "" ↔
      (∀ token, kv.2.given = some token → validate token kv.2.host = some kv.1) ∧ (msg = "" ∨ kv.2.given ≠ none) := by
    cases kv.2.given with
    | none => simp
    | some token => simp [processTokenValidationResult_eq_empty_iff]
  rw [checkProviderToken, TokenPasses]
  cases hstored : existing.bind fun tokens => tokens.get? kv.1 with
  | none => simpa using hsent
  | some e =>
    dsimp only
    by_cases hhost : e.host ≠ kv.2.host
    · rw [if_pos hhost]
      cases hgiven : e.given with
      | none => simpa [hgiven] using hsent
      | some token =>
        dsimp only
        by_cases hvalid : validate token kv.2.host = some kv.1
        · rw [if_pos hvalid]
          simpa [hgiven, hvalid] using hsent
        · rw [if_neg hvalid, processTokenValidationResult_eq_empty_iff]
          refine iff_of_false hvalid ?_
          rintro ⟨⟨-, hpasses⟩, -⟩
          exact hvalid (hpasses e rfl hhost token hgiven)
    · rw [if_neg hhost]
      have hsame : e.host = kv.2.host := not_not.mp hhost
      simpa [hsame] using hsent

theorem foldl_check_ne_empty_iff (providers : List (ProviderType × ProviderToken)) :
    providers.foldl (checkProviderToken validate existing) "" ≠ "" ↔ FailsLast validate existing providers := by
  induction providers using List.reverseRecOn with
  | nil => simp [FailsLast]
  | append_singleton providers kv ih =>
    rw [List.foldl_append, List.foldl_cons, List.foldl_nil, Ne, checkProviderToken_eq_empty_iff, not_and_or, not_or,
      not_not, ← Ne, ih]
    constructor
    · rintro (hfails | ⟨⟨before, q, after, rfl, hq, hafter⟩, hnone⟩)
      · exact ⟨providers, kv, [], rfl, hfails, fun q hq => by cases hq⟩
      · by_cases hpasses : TokenPasses validate existing kv
        · refine ⟨before, q, after ++ [kv], by simp, hq, fun r hr => ?_⟩
          rcases List.mem_append.mp hr with hr | hr
          · exact hafter r hr
          · rw [List.mem_singleton.mp hr]
            exact ⟨hpasses, hnone⟩
        · exact ⟨before ++ q :: after, kv, [], rfl, hpasses, fun r hr => by cases hr⟩
    · rintro ⟨before, q, after, heq, hq, hafter⟩
      rcases List.eq_nil_or_concat after with rfl | ⟨init, last, rfl⟩
      · obtain ⟨-, hlast⟩ := List.append_inj' heq rfl
        obtain rfl := List.singleton_inj.mp hlast
        exact Or.inl hq
      · rw [List.concat_eq_append] at heq hafter
        rw [← List.cons_append, ← List.append_assoc] at heq
        obtain ⟨rfl, hlast⟩ := List.append_inj' heq rfl
        obtain rfl := List.singleton_inj.mp hlast
        refine Or.inr ⟨⟨before, q, init, rfl, hq, fun r hr => hafter r (List.mem_append_left _ hr)⟩, ?_⟩
        exact (hafter kv (List.mem_append_right _ (List.mem_singleton_self _))).2

end Check

theorem checksTokens_iff (validate : Validate) (existing : Option (OrderedMap ProviderType ProviderToken))
    (incoming : OrderedMap ProviderType ProviderToken) :
    ChecksTokens validate existing incoming ↔
      (∀ kv ∈ incoming.entries, TokenPasses validate existing kv) ∨ FailsLast validate existing incoming.entries := by
  rw [ChecksTokens, ← foldl_check_ne_empty_iff, ← checkProviderTokens]
  by_cases hall : ∀ kv ∈ incoming.entries, TokenPasses validate existing kv
  · have hnone : ¬ FailsLast validate existing incoming.entries := by
      rintro ⟨before, kv, after, heq, hfails, -⟩
      apply hfails
      apply hall
      rw [heq]
      exact List.mem_append_right _ List.mem_cons_self
    rw [← foldl_check_ne_empty_iff, not_not] at hnone
    refine iff_of_true ⟨iff_of_true hnone hall, ?_⟩ (Or.inl hall)
    rintro ⟨kv, hkv, hfails⟩
    exact absurd (hall kv hkv) hfails
  · constructor
    · rintro ⟨hiff, -⟩
      exact Or.inr fun hempty => hall (hiff.mp hempty)
    · rintro (hyes | hmessage)
      · exact absurd hyes hall
      · refine ⟨iff_of_false hmessage hall, fun _ file => ?_⟩
        rw [storeProviderTokens, if_pos hmessage]

/-- A token that is good at no provider, before one that is. -/
def twoProviders : OrderedMap ProviderType ProviderToken :=
  ⟨[(.github, ⟨some "bad", none, none⟩), (.gitlab, ⟨some "good", none, none⟩)], by decide⟩

theorem not_checksTokens : ¬ ChecksTokens (fun token _ => if token = "good" then some .gitlab else none) none
    twoProviders := by
  rintro ⟨hiff, -⟩
  have hpasses := (hiff.mp (by decide)) (.github, ⟨some "bad", none, none⟩) List.mem_cons_self
  exact absurd (hpasses.1 "bad" (by decide)) (by decide)

/-! ## The custom secrets as a map -/

inductive Request where
  | createCustomSecret (name value : String) (description : Option String)
  | updateCustomSecret (secretId name : String) (description : Option String)
  | deleteCustomSecret (secretId : String)
  | loadCustomSecretsNames
  | storeProviderTokens (validate : Validate) (incoming : OrderedMap ProviderType ProviderToken)
  | unsetProviderTokens

def serve (file : Option Document) : Request → Option Document × Response
  | .createCustomSecret name value description => createCustomSecret file name value description
  | .updateCustomSecret secretId name description => updateCustomSecret file secretId name description
  | .deleteCustomSecret secretId => deleteCustomSecret file secretId
  | .loadCustomSecretsNames => (file, loadCustomSecretsNames (load file))
  | .storeProviderTokens validate incoming =>
    storeProviderTokens validate file incoming ((load file).map Secrets.providerTokens)
  | .unsetProviderTokens => unsetProviderTokens file

abbrev SecretMap := String → Option CustomSecret

/-- When the map lets a request change it. -/
def Allowed (m : SecretMap) : Request → Prop
  | .createCustomSecret name _ _ => m name = none
  | .updateCustomSecret secretId name _ => m secretId ≠ none ∧ (name = secretId ∨ m name = none)
  | .deleteCustomSecret secretId => m secretId ≠ none
  | _ => True

instance (m : SecretMap) : ∀ r : Request, Decidable (Allowed m r)
  | .createCustomSecret _ _ _ => inferInstanceAs (Decidable (_ = _))
  | .updateCustomSecret _ _ _ => inferInstanceAs (Decidable (_ ∧ _))
  | .deleteCustomSecret _ => inferInstanceAs (Decidable (_ ≠ _))
  | .loadCustomSecretsNames => isTrue trivial
  | .storeProviderTokens _ _ => isTrue trivial
  | .unsetProviderTokens => isTrue trivial

def change (m : SecretMap) : Request → SecretMap
  | .createCustomSecret name value description => Function.update m name (some ⟨value, description.getD ""⟩)
  | .updateCustomSecret secretId name description =>
    Function.update (Function.update m secretId none) name
      ((m secretId).map fun c => ⟨c.secret, description.getD ""⟩)
  | .deleteCustomSecret secretId => Function.update m secretId none
  | _ => m

/-- A request that is not allowed changes nothing. -/
def mapStep (m : SecretMap) (r : Request) : SecretMap := if Allowed m r then change m r else m

def secretsOf (file : Option Document) : SecretMap := fun name => (load file).bind fun s => s.customSecrets.get? name

def tokensOf (file : Option Document) : ProviderType → Option ProviderToken :=
  fun p => (load file).bind fun s => s.providerTokens.get? p

/-- The file, and the map that it should hold. -/
structure Held where
  file : Option Document
  map : SecretMap

def Held.step (h : Held) (r : Request) : Held := ⟨(serve h.file r).1, mapStep h.map r⟩

def Response.Succeeds (response : Response) : Prop := response.status = 200 ∨ response.status = 201

/-- A request for a custom secret is answered with success exactly when the map allows it, changes nothing
otherwise, and leaves the provider tokens. -/
def Response.AnswersFor (h : Held) (r : Request) : Prop :=
  ((serve h.file r).2.Succeeds ↔ Allowed h.map r) ∧ (¬ Allowed h.map r → (serve h.file r).1 = h.file) ∧
    tokensOf (serve h.file r).1 = tokensOf h.file

/-- What the request is answered with is right for the map. -/
def Response.RightFor (h : Held) : Request → Prop
  | .loadCustomSecretsNames => ∃ secrets, (serve h.file .loadCustomSecretsNames).2 = .customSecrets secrets ∧
      (secrets.map CustomSecretWithoutValue.name).Nodup ∧
      ∀ name, name ∈ secrets.map CustomSecretWithoutValue.name ↔ h.map name ≠ none
  | .storeProviderTokens _ _ => True
  | .unsetProviderTokens => True
  | r => Response.AnswersFor h r

/-- Before and after the request the file holds the map, and the answer is right for it. -/
def HoldsMap (h : Held) (r : Request) : Prop :=
  secretsOf h.file = h.map ∧ secretsOf (h.step r).file = (h.step r).map ∧ Response.RightFor h r

/-- The request changes or removes a secret, and there is a file. -/
def HasFile (h : Held) : Request → Prop
  | .updateCustomSecret _ _ _ => h.file ≠ none
  | .deleteCustomSecret _ => h.file ≠ none
  | _ => True

section Views

variable {file : Option Document} {s : Secrets}

theorem customSecrets_ofDocument (doc : Document) (name : String) :
    (Secrets.ofDocument doc).customSecrets.get? name = (doc.customSecrets.get? name).map CustomSecret.fromValue := by
  rw [Secrets.ofDocument, OrderedMap.get?_convert rfl]
  cases doc.customSecrets.get? name <;> rfl

theorem providerTokens_ofDocument (doc : Document) (p : ProviderType) :
    (Secrets.ofDocument doc).providerTokens.get? p = (doc.providerTokens.get? p.value).map ProviderToken.fromValue := by
  rw [Secrets.ofDocument, OrderedMap.get?_convert (ProviderType.ofValue_eq_some_iff.mpr rfl)]
  cases doc.providerTokens.get? p.value <;> rfl

theorem providerTokens_withTokens (doc : Document) (key : String) :
    doc.withTokens.providerTokens.get? key =
      (doc.providerTokens.get? key).bind fun e => if e.token.filter (· ≠ "") = none then none else some e := by
  rw [Document.withTokens, OrderedMap.get?_convert rfl]

theorem customSecrets_toDocument (s : Secrets) (name : String) :
    s.toDocument.customSecrets.get? name =
      (s.customSecrets.get? name).map fun c => ⟨some c.secret, some c.description⟩ := by
  rw [Secrets.toDocument, OrderedMap.get?_convert rfl]
  cases s.customSecrets.get? name <;> rfl

theorem providerTokens_toDocument (s : Secrets) (p : ProviderType) :
    s.toDocument.providerTokens.get? p.value = (s.providerTokens.get? p).bind fun t =>
      t.given.map fun token => ⟨some token, t.userId, t.host⟩ := by
  rw [Secrets.toDocument]
  apply OrderedMap.get?_convert
  · exact OrderedMap.Separates.of_injective ProviderType.value_injective
  · rfl

theorem secretsOf_store (s : Secrets) : secretsOf (store s) = s.customSecrets.get? := by
  funext name
  change (Secrets.ofDocument s.toDocument.withTokens).customSecrets.get? name = _
  rw [customSecrets_ofDocument, Document.withTokens, customSecrets_toDocument]
  cases s.customSecrets.get? name <;> rfl

/-- A provider token as it comes back from the file. -/
def ProviderToken.kept (t : ProviderToken) : Option ProviderToken :=
  t.given.map fun token => ⟨some token, t.userId, t.host⟩

theorem ProviderToken.given_ne_empty {t : ProviderToken} {token : String} (h : t.given = some token) : token ≠ "" :=
  of_decide_eq_true (Option.filter_eq_some_iff.mp h).2

theorem tokensOf_store (s : Secrets) (p : ProviderType) :
    tokensOf (store s) p = (s.providerTokens.get? p).bind ProviderToken.kept := by
  change (Secrets.ofDocument s.toDocument.withTokens).providerTokens.get? p = _
  rw [providerTokens_ofDocument, providerTokens_withTokens, providerTokens_toDocument]
  cases s.providerTokens.get? p with
  | none => rfl
  | some t =>
    rw [Option.bind_some, Option.bind_some, ProviderToken.kept]
    cases hgiven : t.given with
    | none => rfl
    | some token =>
      have hne := ProviderToken.given_ne_empty hgiven
      simp [ProviderToken.fromValue, Option.filter, hne]

/-- A provider token that is loaded is not empty, and is stored as it is. -/
theorem kept_of_tokensOf {p : ProviderType} {t : ProviderToken} (h : tokensOf file p = some t) : t.kept = some t := by
  cases file with
  | none => cases h
  | some doc =>
    have hload : (Secrets.ofDocument doc.withTokens).providerTokens.get? p = some t := h
    rw [providerTokens_ofDocument, providerTokens_withTokens] at hload
    obtain ⟨e, he, rfl⟩ := Option.map_eq_some_iff.mp hload
    obtain ⟨e', -, he'⟩ := Option.bind_eq_some_iff.mp he
    split_ifs at he' with hnone
    obtain rfl := Option.some.inj he'
    obtain ⟨token, htoken⟩ := Option.ne_none_iff_exists'.mp hnone
    obtain ⟨hsome, hne⟩ := Option.filter_eq_some_iff.mp htoken
    have hgiven : (ProviderToken.fromValue e').given = some token := by
      rw [ProviderToken.given, ProviderToken.fromValue, hsome]
      exact Option.filter_some_pos (p := fun t : String => decide (t ≠ "")) hne
    rw [ProviderToken.kept, hgiven, ProviderToken.fromValue, hsome]
    rfl

theorem tokensOf_load (h : load file = some s) : tokensOf file = s.providerTokens.get? := by
  funext p
  rw [tokensOf, h]
  rfl

theorem secretsOf_load (h : load file = some s) : secretsOf file = s.customSecrets.get? := by
  funext name
  rw [secretsOf, h]
  rfl

theorem load_eq_none_iff : load file = none ↔ file = none := Option.map_eq_none_iff

/-- The provider tokens are kept when other custom secrets are stored with them. -/
theorem tokensOf_store_custom (file : Option Document) (customSecrets : OrderedMap String CustomSecret) :
    tokensOf (store { (load file).getD {} with customSecrets := customSecrets }) = tokensOf file := by
  funext p
  rw [tokensOf_store]
  cases h : load file with
  | none =>
    rw [tokensOf, h]
    rfl
  | some s =>
    rw [tokensOf_load h]
    change (s.providerTokens.get? p).bind ProviderToken.kept = s.providerTokens.get? p
    cases ht : s.providerTokens.get? p with
    | none => rfl
    | some t =>
      rw [Option.bind_some]
      have htoken : tokensOf file p = some t := by rw [tokensOf_load h, ht]
      exact kept_of_tokensOf htoken

theorem secretsOf_getD : secretsOf file = ((load file).getD {}).customSecrets.get? := by
  cases h : load file with
  | none =>
    funext name
    rw [secretsOf, h]
    rfl
  | some s => exact secretsOf_load h

theorem mem_keys_iff {name : String} :
    name ∈ ((load file).getD {}).customSecrets.keys ↔ secretsOf file name ≠ none := by
  rw [OrderedMap.mem_keys_iff, secretsOf_getD]

end Views

/-! ## The requests -/

section Requests

variable {file : Option Document} {m : SecretMap} {r : Request}

theorem mapStep_of_allowed (h : Allowed m r) : mapStep m r = change m r := if_pos h

theorem mapStep_of_not_allowed (h : ¬ Allowed m r) : mapStep m r = m := if_neg h

theorem Response.not_succeeds {status : Nat} (h : ¬ (status = 200 ∨ status = 201)) (key message : String) :
    ¬ (Response.json status key message).Succeeds := h

/-- A request that the map does not allow, and that leaves the file. -/
theorem answersFor_refused {response : Response} (hnot : ¬ Allowed (secretsOf file) r)
    (hserve : serve file r = (file, response)) (hstatus : ¬ response.Succeeds) :
    Response.AnswersFor ⟨file, secretsOf file⟩ r ∧ secretsOf (serve file r).1 = mapStep (secretsOf file) r := by
  rw [Response.AnswersFor, hserve, mapStep_of_not_allowed hnot]
  exact ⟨⟨iff_of_false hstatus hnot, fun _ => rfl, rfl⟩, rfl⟩

/-- A request that the map allows, and that stores other custom secrets. -/
theorem answersFor_changed {response : Response} (customSecrets : OrderedMap String CustomSecret)
    (hallowed : Allowed (secretsOf file) r)
    (hserve : serve file r = (store { (load file).getD {} with customSecrets := customSecrets }, response))
    (hstatus : response.Succeeds) (hchange : customSecrets.get? = change (secretsOf file) r) :
    Response.AnswersFor ⟨file, secretsOf file⟩ r ∧ secretsOf (serve file r).1 = mapStep (secretsOf file) r := by
  rw [Response.AnswersFor, hserve, mapStep_of_allowed hallowed, secretsOf_store]
  exact ⟨⟨iff_of_true hstatus hallowed, fun h => absurd hallowed h, tokensOf_store_custom file customSecrets⟩, hchange⟩

theorem create_answersFor (file : Option Document) (name value : String) (description : Option String) :
    Response.AnswersFor ⟨file, secretsOf file⟩ (.createCustomSecret name value description) ∧
      secretsOf (createCustomSecret file name value description).1 =
        mapStep (secretsOf file) (.createCustomSecret name value description) := by
  by_cases hname : name ∈ ((load file).getD {}).customSecrets.keys
  · have hnot : ¬ Allowed (secretsOf file) (.createCustomSecret name value description) := mem_keys_iff.mp hname
    refine answersFor_refused hnot (if_pos hname) ?_
    exact Response.not_succeeds (by decide) _ _
  · have hallowed : Allowed (secretsOf file) (.createCustomSecret name value description) :=
      not_not.mp (mt mem_keys_iff.mpr hname)
    refine answersFor_changed _ hallowed (if_neg hname) ?_ ?_
    · exact Or.inr rfl
    · funext other
      rw [OrderedMap.get?_set, change, Function.update_apply, secretsOf_getD]

theorem delete_answersFor (secretId : String) (hfile : file ≠ none) :
    Response.AnswersFor ⟨file, secretsOf file⟩ (.deleteCustomSecret secretId) ∧
      secretsOf (deleteCustomSecret file secretId).1 = mapStep (secretsOf file) (.deleteCustomSecret secretId) := by
  obtain ⟨s, hload⟩ := Option.ne_none_iff_exists'.mp (mt load_eq_none_iff.mp hfile)
  have hkeys : secretId ∈ s.customSecrets.keys ↔ Allowed (secretsOf file) (.deleteCustomSecret secretId) := by
    rw [OrderedMap.mem_keys_iff, ← secretsOf_load hload]
    exact Iff.rfl
  by_cases hmem : secretId ∈ s.customSecrets.keys
  · apply answersFor_changed (s.customSecrets.erase secretId) (hkeys.mp hmem)
    · rw [serve, deleteCustomSecret, hload]
      exact if_pos hmem
    · exact Or.inl rfl
    · funext other
      rw [OrderedMap.get?_erase, change, Function.update_apply, secretsOf_load hload]
  · apply answersFor_refused (mt hkeys.mpr hmem)
    · rw [serve, deleteCustomSecret, hload]
      exact if_neg hmem
    · exact Response.not_succeeds (by decide) _ _

theorem update_answersFor (secretId name : String) (description : Option String) (hfile : file ≠ none) :
    Response.AnswersFor ⟨file, secretsOf file⟩ (.updateCustomSecret secretId name description) ∧
      secretsOf (updateCustomSecret file secretId name description).1 =
        mapStep (secretsOf file) (.updateCustomSecret secretId name description) := by
  obtain ⟨s, hload⟩ := Option.ne_none_iff_exists'.mp (mt load_eq_none_iff.mp hfile)
  have hview := secretsOf_load hload
  cases hold : s.customSecrets.get? secretId with
  | none =>
    have hnot : ¬ Allowed (secretsOf file) (.updateCustomSecret secretId name description) := by
      rw [hview]
      exact fun h => h.1 hold
    apply answersFor_refused hnot
    · rw [serve, updateCustomSecret, hload]
      dsimp only
      rw [hold]
    · exact Response.not_succeeds (by decide) _ _
  | some existingSecret =>
    have hother : (name ≠ secretId ∧ name ∈ (s.customSecrets.erase secretId).keys) ↔
        ¬ Allowed (secretsOf file) (.updateCustomSecret secretId name description) := by
      rw [OrderedMap.mem_keys_iff, OrderedMap.get?_erase, Allowed, hview, hold]
      by_cases hname : name = secretId
      · simp [hname]
      · simp [hname]
    by_cases hconflict : name ≠ secretId ∧ name ∈ (s.customSecrets.erase secretId).keys
    · apply answersFor_refused (hother.mp hconflict)
      · rw [serve, updateCustomSecret, hload]
        dsimp only
        rw [hold]
        exact if_pos hconflict
      · exact Response.not_succeeds (by decide) _ _
    · apply answersFor_changed
        ((s.customSecrets.erase secretId).set name ⟨existingSecret.secret, description.getD ""⟩)
        (not_not.mp (mt hother.mpr hconflict))
      · rw [serve, updateCustomSecret, hload]
        dsimp only
        rw [hold]
        exact if_neg hconflict
      · exact Or.inl rfl
      · funext other
        rw [OrderedMap.get?_set, OrderedMap.get?_erase, change, Function.update_apply, Function.update_apply, hview, hold]
        rfl

/-- Without a file, to update or remove a secret is answered with success. -/
theorem succeeds_of_no_file (hr : ¬ HasFile ⟨file, m⟩ r) :
    file = none ∧ (serve file r).2.Succeeds ∧ ∀ h : Held, Response.RightFor h r → Response.AnswersFor h r := by
  cases r with
  | updateCustomSecret secretId name description =>
    obtain rfl : file = none := not_not.mp hr
    exact ⟨rfl, Or.inl rfl, fun _ h => h⟩
  | deleteCustomSecret secretId =>
    obtain rfl : file = none := not_not.mp hr
    exact ⟨rfl, Or.inl rfl, fun _ h => h⟩
  | createCustomSecret | loadCustomSecretsNames | storeProviderTokens | unsetProviderTokens =>
    exact absurd trivial hr

theorem not_allowed_of_no_file (hr : ¬ HasFile ⟨none, m⟩ r) : ¬ Allowed (secretsOf none) r := by
  cases r with
  | updateCustomSecret secretId name description => exact fun h => h.1 rfl
  | deleteCustomSecret secretId => exact fun h => h rfl
  | createCustomSecret | loadCustomSecretsNames | storeProviderTokens | unsetProviderTokens =>
    exact absurd trivial hr

theorem secretsOf_storeProviderTokens (validate : Validate) (incoming : OrderedMap ProviderType ProviderToken)
    (providerTokens : Option (OrderedMap ProviderType ProviderToken)) :
    secretsOf (storeProviderTokens validate file incoming providerTokens).1 = secretsOf file := by
  unfold storeProviderTokens
  dsimp only
  split_ifs
  · rfl
  · rw [secretsOf_store, secretsOf_getD]

theorem secretsOf_unsetProviderTokens : secretsOf (unsetProviderTokens file).1 = secretsOf file := by
  unfold unsetProviderTokens
  cases h : load file with
  | none => rfl
  | some s => exact (secretsOf_store _).trans (secretsOf_load h).symm

/-- The listing names the keys of the map. -/
theorem load_rightFor : Response.RightFor ⟨file, secretsOf file⟩ .loadCustomSecretsNames := by
  unfold Response.RightFor serve loadCustomSecretsNames
  cases h : load file with
  | none =>
    refine ⟨[], rfl, List.nodup_nil, fun name => iff_of_false List.not_mem_nil ?_⟩
    dsimp only
    rw [secretsOf, h]
    exact not_not.mpr rfl
  | some s =>
    have hnames : (s.customSecrets.entries.map fun kv => (⟨kv.1, some kv.2.description⟩ : CustomSecretWithoutValue)).map
        CustomSecretWithoutValue.name = s.customSecrets.keys := List.map_map
    refine ⟨_, rfl, ?_, fun name => ?_⟩
    · rw [hnames]
      exact s.customSecrets.nodup
    · rw [hnames, OrderedMap.mem_keys_iff]
      dsimp only
      rw [secretsOf_load h]

theorem holdsMap_iff {h : Held} (hheld : secretsOf h.file = h.map) (r : Request) : HoldsMap h r ↔ HasFile h r := by
  obtain ⟨file, map⟩ := h
  obtain rfl : secretsOf file = map := hheld
  by_cases hfile : HasFile ⟨file, secretsOf file⟩ r
  · refine iff_of_true ?_ hfile
    cases r with
    | createCustomSecret name value description =>
      obtain ⟨hanswer, hview⟩ := create_answersFor file name value description
      exact ⟨rfl, hview, hanswer⟩
    | updateCustomSecret secretId name description =>
      obtain ⟨hanswer, hview⟩ := update_answersFor secretId name description hfile
      exact ⟨rfl, hview, hanswer⟩
    | deleteCustomSecret secretId =>
      obtain ⟨hanswer, hview⟩ := delete_answersFor secretId hfile
      exact ⟨rfl, hview, hanswer⟩
    | loadCustomSecretsNames =>
      have hstep := mapStep_of_allowed (m := secretsOf file) (r := .loadCustomSecretsNames) trivial
      exact ⟨rfl, hstep.symm, load_rightFor⟩
    | storeProviderTokens validate incoming =>
      have hstep := mapStep_of_allowed (m := secretsOf file) (r := .storeProviderTokens validate incoming) trivial
      exact ⟨rfl, (secretsOf_storeProviderTokens validate incoming _).trans hstep.symm, trivial⟩
    | unsetProviderTokens =>
      have hstep := mapStep_of_allowed (m := secretsOf file) (r := .unsetProviderTokens) trivial
      exact ⟨rfl, secretsOf_unsetProviderTokens.trans hstep.symm, trivial⟩
  · refine iff_of_false ?_ hfile
    rintro ⟨-, -, hright⟩
    obtain ⟨rfl, hsucceeds, hanswers⟩ := succeeds_of_no_file hfile
    exact not_allowed_of_no_file hfile ((hanswers _ hright).1.mp hsucceeds)

end Requests

theorem holdsMap_run_iff (file : Option Document) (requests : List Request) :
    Runs.EachStep Held.step ⟨file, secretsOf file⟩ HoldsMap requests ↔
      Runs.EachStep Held.step ⟨file, secretsOf file⟩ HasFile requests :=
  Runs.eachStep_iff (I := fun h => secretsOf h.file = h.map) rfl (fun _ _ _ h => h.2.1)
    (fun _ r hheld => holdsMap_iff hheld r) requests

theorem not_holdsMap_run : ¬ Runs.EachStep Held.step ⟨none, secretsOf none⟩ HoldsMap [.deleteCustomSecret "TOKEN"] := by
  intro h
  obtain ⟨-, -, hanswer⟩ := h [] (.deleteCustomSecret "TOKEN") (List.prefix_refl _)
  exact hanswer.1.mp (Or.inl rfl) rfl

end SecretsStore

end OpenHands
