import OpenHandsSWE.AppServer.ConversationInfo
import OpenHandsSWE.Lib.JsonCodec
import OpenHandsSWE.Lib.JsonRoundTrip

/-! The access token that lets a sandbox look up the git token of its user: how it is minted, and what the
endpoint answers to it. Times are in microseconds since the epoch. -/

namespace OpenHands

/-- The names of the enumeration, by which it is indexed. -/
def ProviderType.name : ProviderType → String
  | .github => "GITHUB"
  | .gitlab => "GITLAB"
  | .bitbucket => "BITBUCKET"
  | .enterpriseSso => "ENTERPRISE_SSO"

namespace AccessToken

def providerNamed : Json → Except PyError ProviderType
  | .str text =>
    match ProviderType.all.find? fun p => p.name = text with
    | some p => .ok p
    | none => .error (.keyError text)
  | _ => .error (.keyError "ProviderType")

/-- `int(t.timestamp())`. -/
def seconds (t : Int) : Int := t.tdiv 1000000

abbrev Claims := List (String × Json)

/-! ## The library -/

inductive JwtError where
  | decodeError (message : String)
  | otherInvalidTokenError (message : String)
deriving DecidableEq, Repr

def JwtError.message : JwtError → String
  | .decodeError message => message
  | .otherInvalidTokenError message => message

/-- `jwt.encode` under HS256 with a key and its id, the id in the header of a token, and `jwt.decode` at a time. -/
structure JwtLibrary where
  encode : Claims → (key : String) → (keyId : String) → String
  getUnverifiedKeyId : Option String → Except JwtError (Option String)
  decode : String → (key : String) → (now : Nat) → Except JwtError Claims

/-- The registered claims that no token of the service has. -/
def unused : List String := ["nbf", "aud", "iss", "sub", "jti"]

/-- What is signed is read back until it expires, and a token says only what was signed. -/
structure JwtLibrary.Sound (jwt : JwtLibrary) : Prop where
  noToken : ∃ message, jwt.getUnverifiedKeyId none = .error (.decodeError message)
  keyId : ∀ claims key keyId, (Json.obj claims).WellFormed →
    jwt.getUnverifiedKeyId (some (jwt.encode claims key keyId)) = .ok (some keyId)
  opens : ∀ claims key keyId iat exp (now : Nat), (Json.obj claims).WellFormed →
    Assoc.get? "iat" claims = some (.int iat) → Assoc.get? "exp" claims = some (.int exp) →
    (∀ name ∈ unused, Assoc.get? name claims = none) → iat * 1000000 ≤ (now : Int) → (now : Int) < exp * 1000000 →
    jwt.decode (jwt.encode claims key keyId) key now = .ok claims
  reads : ∀ claims key keyId key' now claims', (Json.obj claims).WellFormed →
    jwt.decode (jwt.encode claims key keyId) key' now = .ok claims' → claims' = claims

/-! ## The service -/

structure EncryptionKey where
  id : String
  key : String
  active : Bool
  createdAt : Int
deriving DecidableEq, Repr

structure JwtService where
  keys : List (String × EncryptionKey)
  defaultKeyId : String
deriving DecidableEq, Repr

namespace JwtService

/-- The first of the newest keys. -/
def newest (key : EncryptionKey) (keys : List EncryptionKey) : EncryptionKey :=
  keys.foldl (fun best k => if best.createdAt < k.createdAt then k else best) key

def init (keys : List EncryptionKey) : Except PyError JwtService :=
  match keys.filter EncryptionKey.active with
  | [] => .error (.valueError "At least one active key is required")
  | key :: active => .ok ⟨Assoc.ofPairs (keys.map fun k => (k.id, k)), (newest key active).id⟩

def createJwsToken (jwt : JwtLibrary) (service : JwtService) (payload : Claims) (keyId : Option String)
    (expiresIn : Option Int) (now : Nat) : Except PyError String :=
  let keyId := keyId.getD service.defaultKeyId
  match Assoc.get? keyId service.keys with
  | none => .error (.valueError ("Key ID '" ++ keyId ++ "' not found"))
  | some key =>
    let expiresIn := expiresIn.getD (3600 * 1000000)
    .ok (jwt.encode (Assoc.set "exp" (.int (seconds (now + expiresIn))) (Assoc.set "iat" (.int (seconds now)) payload))
      key.key keyId)

inductive Raised where
  | invalidTokenError (message : String)
  | httpException (status : Nat) (detail : String)
  | python (e : PyError)
deriving DecidableEq, Repr

def tokenKeyId (jwt : JwtLibrary) (token : Option String) : Except Raised String :=
  match jwt.getUnverifiedKeyId token with
  | .error (.decodeError _) => .error (.python (.valueError "Invalid JWT token format"))
  | .error (.otherInvalidTokenError message) => .error (.invalidTokenError message)
  | .ok keyId =>
    match keyId.filter (· ≠ "") with
    | none => .error (.python (.valueError "Token does not contain 'kid' header with key ID"))
    | some keyId => .ok keyId

def verifyJwsToken (jwt : JwtLibrary) (service : JwtService) (token : Option String) (now : Nat) :
    Except Raised Claims :=
  (tokenKeyId jwt token).bind fun keyId =>
    match Assoc.get? keyId service.keys with
    | none => .error (.python (.valueError ("Key ID '" ++ keyId ++ "' not found")))
    | some key =>
      -- a token with the id of a key in its header is not `None`
      match jwt.decode (token.getD "") key.key now with
      | .ok payload => .ok payload
      | .error e => .error (.invalidTokenError ("Token verification failed: " ++ e.message))

end JwtService

/-! ## The two ends -/

inductive SecretSource where
  | staticSecret (value : String)
  | lookupSecret (url : String) (headers : List (String × String))
deriving DecidableEq, Repr

/-- The start of a conversation, as far as its secret for git depends on it. -/
structure Start where
  userId : Option String
  gitProvider : Option ProviderType
  webUrl : Option String
  accessTokenHardTimeout : Option Int
  secrets : List (String × String)
  latestToken : ProviderType → Option String
  now : Nat

def userClaim (userId : Option String) : Json := (userId.map Json.str).getD .null

def payload (userId : Option String) (gitProvider : ProviderType) : Claims :=
  [("user_id", userClaim userId), ("provider_type", .str gitProvider.value)]

/-- The secrets that `_build_start_conversation_request_for_user` gives to the conversation. -/
def buildSecrets (jwt : JwtLibrary) (service : JwtService) (start : Start) :
    Except PyError (List (String × SecretSource)) :=
  let secrets := start.secrets.map fun kv => (kv.1, SecretSource.staticSecret kv.2)
  match start.gitProvider with
  | none => .ok secrets
  | some gitProvider =>
    match start.webUrl.filter (· ≠ "") with
    | some webUrl =>
      (service.createJwsToken jwt (payload start.userId gitProvider) none start.accessTokenHardTimeout start.now).map
        fun accessToken => Assoc.set "GIT_TOKEN"
          (.lookupSecret (webUrl ++ "/api/v1/webhooks/secrets") [("X-Access-Token", accessToken)]) secrets
    | none =>
      match (start.latestToken gitProvider).filter (· ≠ "") with
      | some staticToken => .ok (Assoc.set "GIT_TOKEN" (.staticSecret staticToken) secrets)
      | none => .ok secrets

/-- The git tokens of a user. -/
abbrev UserContext := ProviderType → Option String

inductive Response where
  | secret (text : String)
  | httpError (status : Nat) (detail : String)
deriving DecidableEq, Repr

/-- The body of the endpoint, in which only the invalid tokens are caught. -/
def readSecret (jwt : JwtLibrary) (service : JwtService) (getForUser : Json → Option UserContext)
    (accessToken : Option String) (now : Nat) : Except JwtService.Raised String :=
  (service.verifyJwsToken jwt accessToken now).bind fun payload =>
    match Assoc.get? "user_id" payload, Assoc.get? "provider_type" payload with
    | none, _ => .error (.python (.keyError "user_id"))
    | some _, none => .error (.python (.keyError "provider_type"))
    | some userId, some provider =>
      match providerNamed provider with
      | .error e => .error (.python e)
      | .ok providerType =>
        match (getForUser userId).bind fun userContext => userContext providerType with
        | none => .error (.httpException 404 "No such provider")
        | some secret => .ok secret

def getSecret (jwt : JwtLibrary) (service : JwtService) (getForUser : Json → Option UserContext)
    (accessToken : Option String) (now : Nat) : Response :=
  match readSecret jwt service getForUser accessToken now with
  | .ok secret => .secret secret
  | .error (.invalidTokenError _) => .httpError 401 "Unauthorized"
  | .error (.httpException status detail) => .httpError status detail
  | .error (.python _) => .httpError 500 "Internal Server Error"

/-- The access token in the lookup secret of a conversation. -/
def mintedToken (jwt : JwtLibrary) (service : JwtService) (start : Start) : Option String :=
  match buildSecrets jwt service start with
  | .error _ => none
  | .ok secrets =>
    match Assoc.get? "GIT_TOKEN" secrets with
    | some (.lookupSecret _ headers) => Assoc.get? "X-Access-Token" headers
    | _ => none

/-- When the token of a conversation expires, in seconds. -/
def Start.expires (start : Start) : Int := seconds (start.now + start.accessTokenHardTimeout.getD (3600 * 1000000))

/-- What the git token of a user for a provider is answered as. -/
def answer (getForUser : Json → Option UserContext) (userId : Option String) (gitProvider : ProviderType) : Response :=
  match (getForUser (userClaim userId)).bind fun userContext => userContext gitProvider with
  | some secret => .secret secret
  | none => .httpError 404 "No such provider"

section Endpoint

variable (jwt : JwtLibrary) (service : JwtService) (getForUser : Json → Option UserContext) (starts : List Start)

/-- The token may be presented at the time, and is that of a conversation. -/
def Unexpired (start : Start) (token : Option String) (now : Nat) : Prop :=
  mintedToken jwt service start = token ∧ token ≠ none ∧ start.now ≤ now ∧ (now : Int) < start.expires * 1000000

/-- Among the strings that are presented to the endpoint, the tokens of conversations open the secrets they
are for, and the others open nothing. -/
def OpensOwnSecret (presented : Set (Option String)) : Prop :=
  (∀ start ∈ starts, ∀ gitProvider, start.gitProvider = some gitProvider → ∀ token now,
    Unexpired jwt service start token now →
    getSecret jwt service getForUser token now = answer getForUser start.userId gitProvider) ∧
  ∀ token ∈ presented, ∀ now, (∀ start ∈ starts, ¬ Unexpired jwt service start token now) →
    ∃ status detail, getSecret jwt service getForUser token now = .httpError status detail

/-- Nobody but the service signs with its keys. -/
def Unforged (presented : Set (Option String)) : Prop :=
  ∀ token, some token ∈ presented → ∀ keyId key now claims, Assoc.get? keyId service.keys = some key →
    jwt.decode token key.key now = .ok claims → ∃ start ∈ starts, mintedToken jwt service start = some token

end Endpoint

/-- A token is minted for the start, and can be presented before it expires. -/
def Start.Presentable (start : Start) : Prop :=
  start.gitProvider ≠ none ∧ start.webUrl.filter (· ≠ "") ≠ none ∧ (start.now : Int) < start.expires * 1000000

/-! ## The keys -/

theorem JwtService.newest_mem (key : EncryptionKey) (keys : List EncryptionKey) :
    JwtService.newest key keys ∈ key :: keys := by
  induction keys generalizing key with
  | nil => exact List.mem_singleton_self key
  | cons k keys ih =>
    rw [JwtService.newest, List.foldl_cons]
    split
    · exact List.mem_cons_of_mem key (ih k)
    · rcases List.mem_cons.mp (ih key) with heq | hmem
      · rw [JwtService.newest] at heq
        rw [heq]
        exact List.mem_cons_self
      · exact List.mem_cons_of_mem key (List.mem_cons_of_mem k hmem)

/-- The default key is there in every service. -/
theorem JwtService.init_default {keys : List EncryptionKey} {service : JwtService}
    (h : JwtService.init keys = .ok service) : ∃ key, Assoc.get? service.defaultKeyId service.keys = some key := by
  rw [JwtService.init] at h
  split at h
  · cases h
  next key active hactive =>
    obtain rfl := Except.ok.inj h
    have hmem : JwtService.newest key active ∈ keys := by
      apply List.mem_of_mem_filter (p := EncryptionKey.active)
      rw [hactive]
      exact JwtService.newest_mem key active
    apply Option.ne_none_iff_exists'.mp
    dsimp only
    rw [Assoc.get?_ofPairs, Ne, Option.map_eq_none_iff, List.getLast?_eq_none_iff]
    apply List.ne_nil_of_mem (a := ((JwtService.newest key active).id, JwtService.newest key active))
    exact List.mem_filter.mpr ⟨List.mem_map_of_mem hmem, decide_eq_true rfl⟩

/-! ## The tokens -/

section Tokens

variable {jwt : JwtLibrary} {service : JwtService} {getForUser : Json → Option UserContext} {starts : List Start}

/-- The claims of a token that is minted for a start. -/
def claims (start : Start) (gitProvider : ProviderType) : Claims :=
  [("user_id", userClaim start.userId), ("provider_type", .str gitProvider.value),
    ("iat", .int (seconds start.now)), ("exp", .int start.expires)]

theorem userClaim_wellFormed (userId : Option String) : (userClaim userId).WellFormed := by
  cases userId <;> trivial

theorem claims_wellFormed (start : Start) (gitProvider : ProviderType) :
    (Json.obj (claims start gitProvider)).WellFormed := by
  have hnames : ["user_id", "provider_type", "iat", "exp"].Nodup := by decide
  refine Json.wellFormed_obj hnames ?_
  intro j hj
  simp only [claims, List.map_cons, List.map_nil, List.mem_cons, List.not_mem_nil, or_false] at hj
  rcases hj with rfl | rfl | rfl | rfl
  · exact userClaim_wellFormed start.userId
  all_goals trivial

theorem claims_unused (start : Start) (gitProvider : ProviderType) :
    ∀ name ∈ unused, Assoc.get? name (claims start gitProvider) = none := by
  have hnames : ∀ name ∈ unused, name ∉ ["user_id", "provider_type", "iat", "exp"] := by decide
  exact fun name hname => Assoc.get?_eq_none_iff.mpr (hnames name hname)

theorem providerNamed_value (p : ProviderType) : providerNamed (.str p.value) = .error (.keyError p.value) := by
  cases p <;> rfl

theorem createJwsToken_eq {start : Start} (gitProvider : ProviderType) {key : EncryptionKey}
    (hkey : Assoc.get? service.defaultKeyId service.keys = some key) :
    service.createJwsToken jwt (payload start.userId gitProvider) none start.accessTokenHardTimeout start.now =
      .ok (jwt.encode (claims start gitProvider) key.key service.defaultKeyId) := by
  rw [JwtService.createJwsToken, Option.getD_none, hkey]
  rfl

/-- The secret for git of a start whose secrets are all given in words holds no token. -/
theorem get?_static (secrets : List (String × String)) (name : String) :
    Assoc.get? name (secrets.map fun kv => (kv.1, SecretSource.staticSecret kv.2)) =
      (Assoc.get? name secrets).map .staticSecret :=
  Assoc.get?_map Function.injective_id SecretSource.staticSecret name secrets

theorem mintedToken_eq {start : Start} {gitProvider : ProviderType} {key : EncryptionKey}
    (hprovider : start.gitProvider = some gitProvider) (hurl : start.webUrl.filter (· ≠ "") ≠ none)
    (hkey : Assoc.get? service.defaultKeyId service.keys = some key) :
    mintedToken jwt service start = some (jwt.encode (claims start gitProvider) key.key service.defaultKeyId) := by
  obtain ⟨url, hurl⟩ := Option.ne_none_iff_exists'.mp hurl
  rw [mintedToken, buildSecrets, hprovider]
  dsimp only
  rw [hurl]
  dsimp only
  rw [createJwsToken_eq gitProvider hkey, Except.map]
  dsimp only
  rw [Assoc.get?_set_self]
  rfl

/-- A token is minted only for a provider, and where there is a web url. -/
theorem mintedToken_spec {start : Start} {token : String} (h : mintedToken jwt service start = some token) :
    ∃ gitProvider, start.gitProvider = some gitProvider ∧ start.webUrl.filter (· ≠ "") ≠ none := by
  rw [mintedToken, buildSecrets] at h
  cases hprovider : start.gitProvider with
  | none =>
    rw [hprovider] at h
    dsimp only at h
    rw [get?_static] at h
    cases hsecret : Assoc.get? "GIT_TOKEN" start.secrets with
    | none => rw [hsecret] at h; cases h
    | some text => rw [hsecret] at h; cases h
  | some gitProvider =>
    refine ⟨gitProvider, rfl, fun hurl => ?_⟩
    rw [hprovider] at h
    dsimp only at h
    rw [hurl] at h
    dsimp only at h
    cases htoken : (start.latestToken gitProvider).filter (· ≠ "") with
    | none =>
      rw [htoken] at h
      dsimp only at h
      rw [get?_static] at h
      cases hsecret : Assoc.get? "GIT_TOKEN" start.secrets with
      | none => rw [hsecret] at h; cases h
      | some text => rw [hsecret] at h; cases h
    | some text =>
      rw [htoken] at h
      dsimp only at h
      rw [Assoc.get?_set_self] at h
      cases h

variable {presented : Set (Option String)} {key : EncryptionKey}

theorem readSecret_claims {start : Start} {gitProvider : ProviderType} {token : Option String} {now : Nat}
    (h : service.verifyJwsToken jwt token now = .ok (claims start gitProvider)) :
    readSecret jwt service getForUser token now = .error (.python (.keyError gitProvider.value)) := by
  have huser : Assoc.get? "user_id" (claims start gitProvider) = some (userClaim start.userId) := rfl
  have hprovider : Assoc.get? "provider_type" (claims start gitProvider) = some (.str gitProvider.value) := rfl
  simp only [readSecret, h, Except.bind, huser, hprovider, providerNamed_value]

/-- What a string that verifies says was signed for a start. -/
theorem verifyJwsToken_ok {token : Option String} {now : Nat} {payload : Claims}
    (hkey : Assoc.get? service.defaultKeyId service.keys = some key) (hsound : jwt.Sound)
    (hunforged : Unforged jwt service starts presented) (htoken : token ∈ presented)
    (h : service.verifyJwsToken jwt token now = .ok payload) :
    ∃ start ∈ starts, ∃ gitProvider, payload = claims start gitProvider := by
  obtain ⟨keyId, hkeyId, h⟩ := Py.bind_ok h
  cases token with
  | none =>
    obtain ⟨message, hnone⟩ := hsound.noToken
    rw [JwtService.tokenKeyId, hnone] at hkeyId
    cases hkeyId
  | some token =>
    cases hused : Assoc.get? keyId service.keys with
    | none => rw [hused] at h; cases h
    | some used =>
      rw [hused] at h
      cases hdecode : jwt.decode token used.key now with
      | error e => simp only [Option.getD_some, hdecode, reduceCtorEq] at h
      | ok read =>
        simp only [Option.getD_some, hdecode, Except.ok.injEq] at h
        obtain ⟨start, hstart, hminted⟩ := hunforged token htoken keyId used now read hused hdecode
        obtain ⟨gitProvider, hprovider, hurl⟩ := mintedToken_spec hminted
        have htext := Option.some.inj (hminted.symm.trans (mintedToken_eq hprovider hurl hkey))
        rw [htext] at hdecode
        refine ⟨start, hstart, gitProvider, ?_⟩
        rw [← h]
        exact hsound.reads _ _ _ _ _ _ (claims_wellFormed start gitProvider) hdecode

/-- No string that is presented opens a secret. -/
theorem getSecret_httpError {token : Option String}
    (hkey : Assoc.get? service.defaultKeyId service.keys = some key) (hsound : jwt.Sound)
    (hunforged : Unforged jwt service starts presented) (htoken : token ∈ presented) (now : Nat) :
    ∃ status detail, getSecret jwt service getForUser token now = .httpError status detail := by
  rw [getSecret]
  cases hread : readSecret jwt service getForUser token now with
  | error raised => cases raised <;> exact ⟨_, _, rfl⟩
  | ok secret =>
    obtain ⟨payload, hverify, -⟩ := Py.bind_ok hread
    obtain ⟨start, -, gitProvider, rfl⟩ := verifyJwsToken_ok hkey hsound hunforged htoken hverify
    rw [readSecret_claims hverify] at hread
    cases hread

/-- The token of a start fails inside the server while it is presentable. -/
theorem getSecret_minted {start : Start} {gitProvider : ProviderType}
    (hkey : Assoc.get? service.defaultKeyId service.keys = some key) (hsound : jwt.Sound)
    (hlive : (start.now : Int) < start.expires * 1000000) :
    getSecret jwt service getForUser
      (some (jwt.encode (claims start gitProvider) key.key service.defaultKeyId)) start.now =
      .httpError 500 "Internal Server Error" := by
  have hwf := claims_wellFormed start gitProvider
  rw [getSecret]
  by_cases hempty : service.defaultKeyId = ""
  · have hread : readSecret jwt service getForUser
        (some (jwt.encode (claims start gitProvider) key.key service.defaultKeyId)) start.now =
        .error (.python (.valueError "Token does not contain 'kid' header with key ID")) := by
      rw [readSecret, JwtService.verifyJwsToken, JwtService.tokenKeyId, hsound.keyId _ _ _ hwf, hempty]
      rfl
    rw [hread]
  · have hissued : seconds start.now * 1000000 ≤ start.now := by
      rw [seconds, Int.tdiv_eq_ediv_of_nonneg (Int.natCast_nonneg _)]
      omega
    have hverify : service.verifyJwsToken jwt
        (some (jwt.encode (claims start gitProvider) key.key service.defaultKeyId)) start.now =
        .ok (claims start gitProvider) := by
      have hopens := hsound.opens (claims start gitProvider) key.key service.defaultKeyId _ _ start.now hwf rfl rfl
        (claims_unused start gitProvider) hissued hlive
      rw [JwtService.verifyJwsToken, JwtService.tokenKeyId, hsound.keyId _ _ _ hwf]
      dsimp only
      rw [Option.filter_some_pos (by simpa using hempty)]
      simp only [Except.bind, hkey, Option.getD_some, hopens]
    rw [readSecret_claims hverify]

theorem not_opensOwnSecret_of_presentable {start : Start} (hkey : Assoc.get? service.defaultKeyId service.keys = some key)
    (hsound : jwt.Sound) (hstart : start ∈ starts) (h : start.Presentable) :
    ¬ OpensOwnSecret jwt service getForUser starts presented := by
  rintro ⟨hown, -⟩
  obtain ⟨hprovider, hurl, hlive⟩ := h
  obtain ⟨gitProvider, hprovider⟩ := Option.ne_none_iff_exists'.mp hprovider
  have hminted : mintedToken jwt service start = _ := mintedToken_eq hprovider hurl hkey
  have hanswer := hown start hstart gitProvider hprovider _ start.now
    ⟨hminted, Option.some_ne_none _, le_refl _, hlive⟩
  rw [getSecret_minted hkey hsound hlive, answer] at hanswer
  split at hanswer <;> cases hanswer

theorem Unexpired.presentable {start : Start} {token : Option String} {now : Nat}
    (h : Unexpired jwt service start token now) : start.Presentable := by
  obtain ⟨hminted, htoken, hsince, hlive⟩ := h
  obtain ⟨text, rfl⟩ := Option.ne_none_iff_exists'.mp htoken
  obtain ⟨gitProvider, hprovider, hurl⟩ := mintedToken_spec hminted
  refine ⟨?_, hurl, lt_of_le_of_lt (Int.ofNat_le.mpr hsince) hlive⟩
  rw [hprovider]
  exact Option.some_ne_none gitProvider

end Tokens

/-- No token opens anything: the endpoint looks the provider up by name, and the token has its value. -/
theorem opensOwnSecret_iff {jwt : JwtLibrary} {keys : List EncryptionKey} {service : JwtService}
    {starts : List Start} {presented : Set (Option String)} (hinit : JwtService.init keys = .ok service)
    (hsound : jwt.Sound) (hunforged : Unforged jwt service starts presented)
    (getForUser : Json → Option UserContext) :
    OpensOwnSecret jwt service getForUser starts presented ↔ ∀ start ∈ starts, ¬ start.Presentable := by
  obtain ⟨key, hkey⟩ := JwtService.init_default hinit
  constructor
  · intro hopens start hstart hpresentable
    exact not_opensOwnSecret_of_presentable hkey hsound hstart hpresentable hopens
  · intro hnone
    refine ⟨fun start hstart gitProvider _ token now hunexpired => ?_, fun token htoken now _ => ?_⟩
    · exact absurd hunexpired.presentable (hnone start hstart)
    · exact getSecret_httpError hkey hsound hunforged htoken now

/-! ## A library that keeps the key in the token -/

def textLibrary : JwtLibrary where
  encode claims key keyId := String.ofList (Json.dumps (.arr [.str keyId, .str key, .obj claims]))
  getUnverifiedKeyId token :=
    match token.map fun text => Json.loads text.toList with
    | some (some (.arr [.str keyId, .str _, .obj _])) => .ok (some keyId)
    | _ => .error (.decodeError "Not enough segments")
  decode token key now :=
    match Json.loads token.toList with
    | some (.arr [.str _, .str signer, .obj claims]) =>
      if signer = key then
        match Assoc.get? "iat" claims, Assoc.get? "exp" claims with
        | some (.int iat), some (.int exp) =>
          if now < iat * 1000000 then .error (.otherInvalidTokenError "The token is not yet valid (iat)")
          else if exp * 1000000 ≤ now then .error (.otherInvalidTokenError "Signature has expired")
          else .ok claims
        | _, _ => .ok claims
      else .error (.otherInvalidTokenError "Signature verification failed")
    | _ => .error (.decodeError "Not enough segments")

theorem textLibrary_loads {claims : Claims} (key keyId : String) (h : (Json.obj claims).WellFormed) :
    Json.loads (textLibrary.encode claims key keyId).toList = some (.arr [.str keyId, .str key, .obj claims]) := by
  have hwf : (Json.arr [.str keyId, .str key, .obj claims]).WellFormed := ⟨trivial, trivial, h, trivial⟩
  rw [← Json.loads_dumps hwf]
  exact congrArg Json.loads String.toList_ofList

theorem textLibrary_sound : textLibrary.Sound where
  noToken := ⟨_, rfl⟩
  keyId claims key keyId h := by
    have hloads := textLibrary_loads key keyId h
    simp only [textLibrary] at hloads ⊢
    simp only [Option.map_some, hloads]
  opens claims key keyId iat exp now h hiat hexp _ hissued hlive := by
    have hloads := textLibrary_loads key keyId h
    simp only [textLibrary] at hloads ⊢
    simp only [hloads, hiat, hexp, if_true, if_neg (not_lt.mpr hissued), if_neg (not_le.mpr hlive)]
  reads claims key keyId key' now claims' h hdecode := by
    have hloads := textLibrary_loads key keyId h
    simp only [textLibrary] at hloads hdecode
    simp only [hloads] at hdecode
    split at hdecode
    · split at hdecode
      · split at hdecode
        · cases hdecode
        · split at hdecode
          · cases hdecode
          · exact (Except.ok.inj hdecode).symm
      · exact (Except.ok.inj hdecode).symm
    · cases hdecode

def exampleKeys : List EncryptionKey := [⟨"old", "secret-1", false, 0⟩, ⟨"new", "secret-2", true, 1⟩]

def exampleService : JwtService where
  keys := [("old", ⟨"old", "secret-1", false, 0⟩), ("new", ⟨"new", "secret-2", true, 1⟩)]
  defaultKeyId := "new"

/-- A conversation on a repository of GitHub. -/
def exampleStart : Start where
  userId := some "user"
  gitProvider := some .github
  webUrl := some "http://localhost:3000"
  accessTokenHardTimeout := none
  secrets := []
  latestToken _ := some "ghp_token"
  now := 5000000

def exampleUsers (_ : Json) : Option UserContext := some fun _ => some "ghp_token"

theorem exampleStart_presentable : exampleStart.Presentable := by
  refine ⟨?_, ?_, ?_⟩ <;> decide

theorem not_opensOwnSecret : ¬ OpensOwnSecret textLibrary exampleService exampleUsers [exampleStart] ∅ := by
  have hkey : Assoc.get? exampleService.defaultKeyId exampleService.keys = some ⟨"new", "secret-2", true, 1⟩ := rfl
  apply not_opensOwnSecret_of_presentable hkey textLibrary_sound (List.mem_singleton_self _) exampleStart_presentable

theorem opensOwnSecret_example :
    OpensOwnSecret textLibrary exampleService exampleUsers [exampleStart]
      {mintedToken textLibrary exampleService exampleStart} ↔ ∀ start ∈ [exampleStart], ¬ start.Presentable := by
  have hinit : JwtService.init exampleKeys = .ok exampleService := by decide
  apply opensOwnSecret_iff hinit textLibrary_sound
  intro token htoken keyId key now claims _ _
  exact ⟨exampleStart, List.mem_singleton_self _, (Set.mem_singleton_iff.mp htoken).symm⟩

end AccessToken

end OpenHands
