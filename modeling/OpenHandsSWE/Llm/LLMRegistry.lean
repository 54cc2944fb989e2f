import OpenHandsSWE.Services.ConversationStats

/-! The registry of a session's LLMs, the router between them, and the conversation's stats, which hear of each new LLM. -/

namespace OpenHands

namespace LLMRegistry

/-- The fields that are read here, and the others, which are only compared. -/
structure LLMConfig (γ : Type) where
  model : String
  baseUrl : Option String := none
  topP : ℚ := 1
  maxInputTokens : Option ℤ := none
  maxOutputTokens : Option ℤ := none
  rest : γ
deriving DecidableEq

/-- The limits of a model, as a provider or its table knows them. -/
structure ModelInfo where
  maxInputTokens : Option ℤ := none
  maxOutputTokens : Option ℤ := none
  maxTokens : Option ℤ := none

def sonnetModels : List String :=
  ["claude-3-7-sonnet", "claude-3.7-sonnet", "claude-sonnet-4", "claude-sonnet-4-5-20250929", "claude-haiku-4-5-20251001"]

namespace LLMConfig

variable {γ : Type} (c : LLMConfig γ)

def initModelInfo (info : Option ModelInfo) : LLMConfig γ :=
  { c with
    topP := if "huggingface".toList <+: c.model.toList ∧ c.topP = 1 then 9 / 10 else c.topP
    maxInputTokens := c.maxInputTokens.or (info.bind ModelInfo.maxInputTokens)
    maxOutputTokens := c.maxOutputTokens.or
      (if sonnetModels.any fun model => decide (model.toList <:+: c.model.toList) then some 64000
      else info.bind fun info => info.maxOutputTokens.or info.maxTokens) }

/-- What an LLM makes of a copy of its configuration. -/
def settled (info : Option ModelInfo) : LLMConfig γ :=
  let c := c.initModelInfo info
  if "openhands/".toList <+: c.model.toList then
    { c with
      model := "litellm_proxy/" ++ String.ofList (c.model.toList.drop "openhands/".length)
      baseUrl := some "https://llm-proxy.app.all-hands.dev/" }
  else c

end LLMConfig

structure ModelRoutingConfig (γ : Type) where
  routerName : String := "noop_router"
  llmsForRouting : List (String × LLMConfig γ) := []

structure AgentConfig (γ : Type) where
  llmConfig : Option String := none
  modelRouting : ModelRoutingConfig γ := {}

/-- Groups of settings by their names, and what an `LLMConfig()` is. -/
structure OpenHandsConfig (γ : Type) where
  llms : List (String × LLMConfig γ)
  agents : List (String × AgentConfig γ)
  defaultAgent : String
  blank : LLMConfig γ

namespace OpenHandsConfig

variable {γ : Type} (c : OpenHandsConfig γ)

/-- A group that is not there is the default group, which is made when it is not there. -/
def getLLMConfig (name : String) : LLMConfig γ × OpenHandsConfig γ :=
  match Assoc.get? name c.llms with
  | some config => (config, c)
  | none =>
    match Assoc.get? "llm" c.llms with
    | some config => (config, c)
    | none => (c.blank, { c with llms := Assoc.set "llm" c.blank c.llms })

def getAgentConfig (name : String) : AgentConfig γ × OpenHandsConfig γ :=
  match Assoc.get? name c.agents with
  | some agent => (agent, c)
  | none =>
    match Assoc.get? "agent" c.agents with
    | some agent => (agent, c)
    | none => ({}, { c with agents := Assoc.set "agent" {} c.agents })

def getLLMConfigFromAgentConfig (agent : AgentConfig γ) : LLMConfig γ × OpenHandsConfig γ :=
  c.getLLMConfig (agent.llmConfig.getD "llm")

def getLLMConfigFromAgent (name : String) : LLMConfig γ × OpenHandsConfig γ :=
  (c.getAgentConfig name).2.getLLMConfigFromAgentConfig (c.getAgentConfig name).1

/-- The map itself is not read again; the default group stays. -/
def getAgentToLLMConfigMap : OpenHandsConfig γ :=
  c.agents.foldl (fun c agent => (c.getLLMConfigFromAgent agent.1).2) c

end OpenHandsConfig

/-- An LLM, with its number among those whose metrics the stats can point to. -/
structure LLM (γ : Type) where
  serviceId : String
  config : LLMConfig γ
  number : ℕ

/-- What an answer of the provider costs, when that is known, and the tokens that it reports. -/
structure Completion where
  cost : Option ℚ
  usage : Option (ℤ × ℤ × ℤ × ℤ × ℤ)
  responseId : String

/-- The LLMs by their names, where the agent's own is `primary`. -/
structure Router (γ : Type) where
  availableLLMs : List (String × LLM γ)
  maxTokenExceeded : Bool := false

/-- Whether each message holds an image, and the number of tokens that the secondary LLM counts. -/
structure Prompt where
  containsImage : List Bool
  tokenCount : ℤ

structure Session (γ : Type) where
  modelInfo : LLMConfig γ → Option ModelInfo
  config : OpenHandsConfig γ
  serviceToLLM : List (String × LLM γ) := []
  subscribed : Bool := false
  /-- The LLMs whose costs turned out to be unknown. -/
  costUnsupported : List ℕ := []
  routers : List (Router γ) := []
  stats : ConversationStats

namespace Session

variable {γ : Type} (s : Session γ)

/-! ## LLMs and their metrics -/

def notify (llm : LLM γ) : Session γ :=
  if s.subscribed then { s with stats := s.stats.registerLLM llm.number llm.serviceId } else s

def createNewLLM (serviceId : String) (config : LLMConfig γ) : LLM γ × Session γ :=
  let llm : LLM γ := ⟨serviceId, config.settled (s.modelInfo config), s.stats.llms.length⟩
  (llm, { s with
    stats := s.stats.createLLM config.model
    serviceToLLM := Assoc.set serviceId llm s.serviceToLLM }.notify llm)

/-- A change of an LLM's own metrics. -/
def record (stats : ConversationStats) (number : ℕ) (change : ServiceMetrics → Except PyError ServiceMetrics) (amount : Totals) :
    ConversationStats :=
  match stats.llms[number]? with
  | none => stats
  | some object =>
    match change (stats.objects object) with
    | .error _ => stats
    | .ok m => { stats with objects := Function.update stats.objects object m, recorded := stats.recorded + amount }

/-- Where the cost is unknown or not one, no cost is recorded from then on. -/
def completionCost (llm : LLM γ) (cost : Option ℚ) : Session γ :=
  if llm.number ∈ s.costUnsupported then s
  else
    match cost with
    | none => { s with costUnsupported := llm.number :: s.costUnsupported }
    | some value =>
      if value < 0 then { s with costUnsupported := llm.number :: s.costUnsupported }
      else { s with stats := record s.stats llm.number (fun m => m.addCost value) (value, 0) }

def postCompletion (llm : LLM γ) (response : Completion) : Session γ :=
  let counted := s.completionCost llm response.cost
  match response.usage with
  | none => counted
  | some (prompt, completion, cacheRead, cacheWrite, contextWindow) =>
    { counted with
      stats := record counted.stats llm.number
        (fun m => .ok (m.addTokenUsage prompt completion cacheRead cacheWrite contextWindow response.responseId))
        (0, prompt, completion, cacheRead, cacheWrite) }

def requestExtraneousCompletion (serviceId : String) (config : LLMConfig γ) (response : Completion) : Session γ :=
  match Assoc.get? serviceId s.serviceToLLM with
  | some llm => s.postCompletion llm response
  | none => (s.createNewLLM serviceId config).2.postCompletion (s.createNewLLM serviceId config).1 response

def getLLMFromAgentConfig (serviceId : String) (agent : AgentConfig γ) : LLM γ × Session γ :=
  let resolved := s.config.getLLMConfigFromAgentConfig agent
  let s := { s with config := resolved.2 }
  match Assoc.get? serviceId s.serviceToLLM with
  | some llm => (llm, s)
  | none => s.createNewLLM serviceId resolved.1

variable [DecidableEq γ]

def getLLM (serviceId : String) (config : Option (LLMConfig γ)) : Except PyError (LLM γ) × Session γ :=
  match Assoc.get? serviceId s.serviceToLLM with
  | some llm =>
    if some llm.config ≠ config then
      (.error (.valueError ("Requesting same service ID " ++ serviceId ++ " with different config, use a new service ID")), s)
    else (.ok llm, s)
  | none =>
    match config with
    | none => (.error (.valueError "Requesting new LLM without specifying LLM config"), s)
    | some config => (.ok (s.createNewLLM serviceId config).1, (s.createNewLLM serviceId config).2)

/-- A new registry and the agent's LLM, which is made before anyone listens. -/
def create (modelInfo : LLMConfig γ → Option ModelInfo) (config : OpenHandsConfig γ) (agentCls : Option String)
    (stats : ConversationStats) : LLM γ × Session γ :=
  let agentName := match agentCls with
    | some name => if name = "" then config.defaultAgent else name
    | none => config.defaultAgent
  let resolved := config.getAgentToLLMConfigMap.getLLMConfigFromAgent agentName
  createNewLLM { modelInfo, config := resolved.2, stats } "agent" resolved.1

def subscribe (active : LLM γ) : Session γ := { s with subscribed := true }.notify active

/-- The stats are made over their file, and hear of the agent's LLM as they subscribe. -/
def createRegistryAndConversationStats (modelInfo : LLMConfig γ → Option ModelInfo) (config : OpenHandsConfig γ)
    (agentCls : Option String) (stats : ConversationStats) : Session γ :=
  let registry := create modelInfo config agentCls stats
  subscribe { registry.2 with stats := registry.2.stats.restart } registry.1

/-! ## The router -/

def routingLLMs : List (String × LLMConfig γ) → Session γ → Except PyError (List (String × LLM γ)) × Session γ
  | [], s => (.ok [], s)
  | (name, config) :: rest, s =>
    match s.getLLM ("llm_for_routing." ++ name) (some config) with
    | (.error e, s) => (.error e, s)
    | (.ok llm, s) =>
      match routingLLMs rest s with
      | (.error e, s) => (.error e, s)
      | (.ok llms, s) => (.ok ((name, llm) :: llms), s)

def secondaryModelConfigName : String := "secondary_model"

/-- A router that a session cannot make leaves behind the LLMs made for it. -/
def getRouter (agent : AgentConfig γ) : Option PyError × Session γ :=
  if agent.modelRouting.routerName = "noop_router" then (none, (s.getLLMFromAgentConfig "agent" agent).2)
  else if agent.modelRouting.routerName = "multimodal_router" then
    let primary := s.getLLMFromAgentConfig "agent" agent
    match routingLLMs agent.modelRouting.llmsForRouting primary.2 with
    | (.error e, s) => (some e, s)
    | (.ok llms, s) =>
      if Assoc.contains secondaryModelConfigName llms then
        (none, { s with routers := s.routers ++ [{ availableLLMs := Assoc.update [("primary", primary.1)] llms }] })
      else (some (.valueError ("Secondary LLM config " ++ secondaryModelConfigName ++ " not found.")), s)
  else (some (.valueError ("Router LLM " ++ agent.modelRouting.routerName ++ " not found.")), s)

end Session

namespace Router

variable {γ : Type} (r : Router γ)

/-- Once a prompt was too long for the secondary LLM, all go to the primary one. -/
def selectLLM (prompt : Prompt) : String × Router γ :=
  let exceeds := match Assoc.get? Session.secondaryModelConfigName r.availableLLMs with
    | some secondary =>
      match secondary.config.maxInputTokens with
      | some limit => limit != 0 && decide (limit < prompt.tokenCount)
      | none => false
    | none => false
  (if prompt.containsImage.any id || r.maxTokenExceeded || exceeds then "primary" else Session.secondaryModelConfigName,
    { r with maxTokenExceeded := r.maxTokenExceeded || exceeds })

end Router

namespace Session

variable {γ : Type} (s : Session γ)

def routerCompletion (number : ℕ) (prompt : Prompt) (response : Completion) : Session γ :=
  match s.routers[number]? with
  | none => s
  | some router =>
    let selected := router.selectLLM prompt
    let s := { s with routers := s.routers.set number selected.2 }
    -- a name that is not among the LLMs raises
    match Assoc.get? selected.1 router.availableLLMs with
    | none => s
    | some llm => s.postCompletion llm response

end Session

inductive Op (γ : Type) where
  | getLLM (serviceId : String) (config : Option (LLMConfig γ))
  | getLLMFromAgentConfig (serviceId : String) (agent : AgentConfig γ)
  | requestExtraneousCompletion (serviceId : String) (config : LLMConfig γ) (response : Completion)
  | getRouter (agent : AgentConfig γ)
  | completion (serviceId : String) (response : Completion)
  | routerCompletion (number : ℕ) (prompt : Prompt) (response : Completion)
  | saveMetrics

namespace Session

variable {γ : Type} [DecidableEq γ]

def step (s : Session γ) : Op γ → Session γ
  | .getLLM serviceId config => (s.getLLM serviceId config).2
  | .getLLMFromAgentConfig serviceId agent => (s.getLLMFromAgentConfig serviceId agent).2
  | .requestExtraneousCompletion serviceId config response => s.requestExtraneousCompletion serviceId config response
  | .getRouter agent => (s.getRouter agent).2
  | .completion serviceId response =>
    -- whoever has an LLM got it from the registry
    match Assoc.get? serviceId s.serviceToLLM with
    | none => s
    | some llm => s.postCompletion llm response
  | .routerCompletion number prompt response => s.routerCompletion number prompt response
  | .saveMetrics => { s with stats := s.stats.saveMetrics }

def run (s : Session γ) (ops : List (Op γ)) : Session γ := ops.foldl step s

/-- A session of the server: how its registry is made, and what is done with it until it is saved at the end. -/
structure Script (γ : Type) where
  modelInfo : LLMConfig γ → Option ModelInfo
  config : OpenHandsConfig γ
  agentCls : Option String := none
  ops : List (Op γ)

/-- The stats behind sessions that came one after the other. -/
def statsAfter (stats : ConversationStats) (scripts : List (Script γ)) : ConversationStats :=
  scripts.foldl (fun stats script =>
    ((createRegistryAndConversationStats script.modelInfo script.config script.agentCls stats).run script.ops).stats.saveMetrics) stats

end Session

/-! ## The stats beside the registry -/

namespace Session

section Stats

variable {stats : ConversationStats} {number object : ℕ} {change : ServiceMetrics → Except PyError ServiceMetrics} {amount : Totals}

theorem record_maps (stats : ConversationStats) (number : ℕ) (change : ServiceMetrics → Except PyError ServiceMetrics) (amount : Totals) :
    (record stats number change amount).llms = stats.llms ∧
      (record stats number change amount).serviceToMetrics = stats.serviceToMetrics := by
  rw [record]
  cases stats.llms[number]? with
  | none => exact ⟨rfl, rfl⟩
  | some object =>
    dsimp only
    cases change (stats.objects object) with
    | error e => exact ⟨rfl, rfl⟩
    | ok m => exact ⟨rfl, rfl⟩

/-- What is recorded on an LLM is recorded on the metrics of its service. -/
theorem record_eq {serviceId : String} (hllm : stats.llms[number]? = some object)
    (hservice : Assoc.get? serviceId stats.serviceToMetrics = some object) :
    record stats number change amount = stats.record serviceId change amount := by
  rw [record, ConversationStats.record, hllm, hservice] <;> rfl

/-- The metrics of a new LLM are those of a service that had none, or take over what was restored for it. -/
theorem registerLLM_new (h : stats.Accounted) {serviceId : String} (hllm : stats.llms[number]? = some object)
    (hobject : object ∉ stats.serviceToMetrics.map Prod.snd) (hblank : (stats.objects object).totals = 0)
    (hservice : serviceId ∉ stats.serviceToMetrics.map Prod.fst) :
    (stats.registerLLM number serviceId).Accounted ∧ (stats.registerLLM number serviceId).recorded = stats.recorded ∧
      ∃ own, (stats.registerLLM number serviceId).llms = stats.llms.set number own ∧
        (stats.registerLLM number serviceId).serviceToMetrics = Assoc.set serviceId own stats.serviceToMetrics := by
  have hok : stats.StepOk (.registerLLM number serviceId) := by
    intro object' hobject' _
    rw [hllm] at hobject'
    cases hobject'
    refine .inr ⟨hobject, hblank, ?_⟩
    rw [Assoc.amount, Assoc.get?_eq_none_iff.mpr hservice]
    rfl
  refine ⟨h.step hok, ?_⟩
  unfold ConversationStats.registerLLM
  rw [hllm]
  dsimp only
  cases Assoc.get? serviceId stats.restoredMetrics with
  | some restored => exact ⟨rfl, _, rfl, rfl⟩
  | none =>
    refine ⟨rfl, object, ?_, rfl⟩
    obtain ⟨hlt, hget⟩ := List.getElem?_eq_some_iff.mp hllm
    rw [← hget, List.set_getElem_self]

end Stats

/-! ## What each step keeps -/

variable {γ : Type} {s s' : Session γ}

/-- Every service has one LLM, and the stats have the metrics of that LLM, and of no other. -/
structure Linked (s : Session γ) : Prop where
  accounted : s.stats.Accounted
  subscribed : s.subscribed = true
  named : ∀ id llm, Assoc.get? id s.serviceToLLM = some llm → llm.serviceId = id
  metrics : ∀ id llm, Assoc.get? id s.serviceToLLM = some llm →
    ∃ object, s.stats.llms[llm.number]? = some object ∧ Assoc.get? id s.stats.serviceToMetrics = some object
  heard : ∀ id ∈ s.stats.serviceToMetrics.map Prod.fst, ∃ llm, Assoc.get? id s.serviceToLLM = some llm
  routed : ∀ router ∈ s.routers, ∀ entry ∈ router.availableLLMs, Assoc.get? entry.2.serviceId s.serviceToLLM = some entry.2

/-- The LLMs that were handed out are handed out again. -/
def Grows (s s' : Session γ) : Prop :=
  ∀ id llm, Assoc.get? id s.serviceToLLM = some llm → Assoc.get? id s'.serviceToLLM = some llm

theorem Grows.refl (s : Session γ) : Grows s s := fun _ _ h => h

theorem Grows.trans {t : Session γ} (h : Grows s s') (h' : Grows s' t) : Grows s t := fun id llm hget => h' id llm (h id llm hget)

/-- The registry and its routers are as they were, and the stats point where they did. -/
theorem Linked.congr (h : Linked s) (haccounted : s'.stats.Accounted) (hsubscribed : s'.subscribed = s.subscribed)
    (hservices : s'.serviceToLLM = s.serviceToLLM) (hllms : s'.stats.llms = s.stats.llms)
    (hmetrics : s'.stats.serviceToMetrics = s.stats.serviceToMetrics)
    (hrouters : ∀ router ∈ s'.routers, ∀ entry ∈ router.availableLLMs, Assoc.get? entry.2.serviceId s.serviceToLLM = some entry.2) :
    Linked s' where
  accounted := haccounted
  subscribed := hsubscribed.trans h.subscribed
  named := by
    rw [hservices]
    exact h.named
  metrics := by
    rw [hservices, hllms, hmetrics]
    exact h.metrics
  heard := by
    rw [hservices, hmetrics]
    exact h.heard
  routed := by
    rw [hservices]
    exact hrouters

theorem Linked.record (h : Linked s) {llm : LLM γ} (hllm : Assoc.get? llm.serviceId s.serviceToLLM = some llm)
    {change : ServiceMetrics → Except PyError ServiceMetrics} {amount : Totals}
    (hchange : ∀ m m', change m = .ok m' → m'.totals = m.totals + amount) :
    Linked { s with stats := Session.record s.stats llm.number change amount } := by
  obtain ⟨object, hobject, hservice⟩ := h.metrics _ _ hllm
  obtain ⟨hllms, hmetrics⟩ := record_maps s.stats llm.number change amount
  refine h.congr ?_ rfl rfl hllms hmetrics h.routed
  dsimp only
  rw [record_eq hobject hservice]
  exact h.accounted.record hchange

theorem serviceToLLM_postCompletion (s : Session γ) (llm : LLM γ) (response : Completion) :
    (s.postCompletion llm response).serviceToLLM = s.serviceToLLM := by
  have hcost : (s.completionCost llm response.cost).serviceToLLM = s.serviceToLLM := by
    unfold completionCost
    split_ifs
    · rfl
    · cases response.cost with
      | none => rfl
      | some value =>
        dsimp only
        split_ifs
        · rfl
        · rfl
  rw [postCompletion]
  cases response.usage with
  | none => exact hcost
  | some usage => exact hcost

theorem Linked.completionCost (h : Linked s) {llm : LLM γ} (hllm : Assoc.get? llm.serviceId s.serviceToLLM = some llm)
    (cost : Option ℚ) : Linked (s.completionCost llm cost) := by
  have hunknown : Linked { s with costUnsupported := llm.number :: s.costUnsupported } :=
    h.congr h.accounted rfl rfl rfl rfl h.routed
  unfold Session.completionCost
  split_ifs with hsupported
  · exact h
  · cases cost with
    | none => exact hunknown
    | some value =>
      dsimp only
      split_ifs with hnegative
      · exact hunknown
      · exact h.record hllm fun m m' hm => ServiceMetrics.totals_addCost hm

theorem Linked.postCompletion (h : Linked s) {llm : LLM γ} (hllm : Assoc.get? llm.serviceId s.serviceToLLM = some llm)
    (response : Completion) : Linked (s.postCompletion llm response) := by
  have hcounted := h.completionCost hllm response.cost
  have hheld := hllm
  rw [← serviceToLLM_postCompletion s llm { response with usage := none }] at hheld
  rw [Session.postCompletion]
  cases response.usage with
  | none => exact hcounted
  | some usage =>
    obtain ⟨prompt, completion, cacheRead, cacheWrite, contextWindow⟩ := usage
    refine hcounted.record hheld fun m m' hm => ?_
    cases hm
    exact ServiceMetrics.totals_addTokenUsage m prompt completion cacheRead cacheWrite contextWindow response.responseId

/-- A new LLM, for a service that has none. -/
theorem Linked.createNewLLM (h : Linked s) {serviceId : String} (hnew : Assoc.get? serviceId s.serviceToLLM = none)
    (config : LLMConfig γ) : Linked (s.createNewLLM serviceId config).2 ∧ Grows s (s.createNewLLM serviceId config).2 ∧
      Assoc.get? serviceId (s.createNewLLM serviceId config).2.serviceToLLM = some (s.createNewLLM serviceId config).1 := by
  have haccounted := h.accounted.createLLM config.model
  have hnumber : (s.stats.createLLM config.model).llms[s.stats.llms.length]? = some s.stats.nextObject := by
    rw [ConversationStats.createLLM, List.getElem?_append_right le_rfl, Nat.sub_self]
    rfl
  have hobject : s.stats.nextObject ∉ (s.stats.createLLM config.model).serviceToMetrics.map Prod.snd := fun hmem =>
    Nat.lt_irrefl _ (h.accounted.known _ hmem)
  have hblank : ((s.stats.createLLM config.model).objects s.stats.nextObject).totals = 0 := by
    show (Function.update s.stats.objects s.stats.nextObject (ServiceMetrics.ofModel config.model) s.stats.nextObject).totals = 0
    rw [Function.update_self]
    rfl
  have hservice : serviceId ∉ (s.stats.createLLM config.model).serviceToMetrics.map Prod.fst := by
    intro hmem
    obtain ⟨llm, hllm⟩ := h.heard serviceId hmem
    rw [hnew] at hllm
    cases hllm
  obtain ⟨hlinked, -, own, hllms, hmetrics⟩ := registerLLM_new haccounted hnumber hobject hblank hservice
  have hgrows : ∀ id llm, Assoc.get? id s.serviceToLLM = some llm → id ≠ serviceId := by
    rintro id llm hget rfl
    rw [hnew] at hget
    cases hget
  have hkept : ∀ id llm new, Assoc.get? id s.serviceToLLM = some llm → Assoc.get? id (Assoc.set serviceId new s.serviceToLLM) = some llm :=
    fun id llm new hget => (Assoc.get?_set_of_ne (hgrows id llm hget) new _).trans hget
  rw [Session.createNewLLM, notify]
  dsimp only
  rw [if_pos h.subscribed]
  refine ⟨⟨hlinked, h.subscribed, fun id llm hget => ?_, fun id llm hget => ?_, fun id hid => ?_, ?_⟩, fun id llm hget => hkept id llm _ hget,
    Assoc.get?_set_self _ _ _⟩
  · dsimp only at hget
    by_cases hid : id = serviceId
    · subst hid
      rw [Assoc.get?_set_self] at hget
      rw [← Option.some.inj hget]
    · rw [Assoc.get?_set_of_ne hid] at hget
      exact h.named id llm hget
  · dsimp only at hget ⊢
    rw [hllms, hmetrics]
    by_cases hid : id = serviceId
    · subst hid
      rw [Assoc.get?_set_self] at hget
      refine ⟨own, ?_, Assoc.get?_set_self _ _ _⟩
      rw [← Option.some.inj hget, List.getElem?_set_self]
      exact (List.getElem?_eq_some_iff.mp hnumber).1
    · rw [Assoc.get?_set_of_ne hid] at hget
      obtain ⟨object, hobject, hold⟩ := h.metrics id llm hget
      have hlt := (List.getElem?_eq_some_iff.mp hobject).1
      refine ⟨object, ?_, (Assoc.get?_set_of_ne hid _ _).trans hold⟩
      rw [List.getElem?_set_ne hlt.ne', ConversationStats.createLLM, List.getElem?_append_left hlt]
      exact hobject
  · dsimp only at hid ⊢
    rw [hmetrics] at hid
    rcases (Assoc.mem_keys_set _ _ _ _).mp hid with rfl | hold
    · exact ⟨_, Assoc.get?_set_self _ _ _⟩
    · obtain ⟨llm, hllm⟩ := h.heard id hold
      exact ⟨llm, hkept id llm _ hllm⟩
  · exact fun router hrouter entry hentry => hkept _ _ _ (h.routed router hrouter entry hentry)

theorem Linked.getLLMFromAgentConfig (h : Linked s) (serviceId : String) (agent : AgentConfig γ) :
    Linked (s.getLLMFromAgentConfig serviceId agent).2 ∧ Grows s (s.getLLMFromAgentConfig serviceId agent).2 ∧
      Assoc.get? serviceId (s.getLLMFromAgentConfig serviceId agent).2.serviceToLLM =
        some (s.getLLMFromAgentConfig serviceId agent).1 := by
  have hresolved : Linked { s with config := (s.config.getLLMConfigFromAgentConfig agent).2 } :=
    h.congr h.accounted rfl rfl rfl rfl h.routed
  rw [Session.getLLMFromAgentConfig]
  dsimp only
  cases hget : Assoc.get? serviceId s.serviceToLLM with
  | some llm => exact ⟨hresolved, Grows.refl s, hget⟩
  | none => exact hresolved.createNewLLM hget _

theorem Linked.requestExtraneousCompletion (h : Linked s) (serviceId : String) (config : LLMConfig γ) (response : Completion) :
    Linked (s.requestExtraneousCompletion serviceId config response) ∧
      Grows s (s.requestExtraneousCompletion serviceId config response) := by
  rw [Session.requestExtraneousCompletion]
  cases hget : Assoc.get? serviceId s.serviceToLLM with
  | some llm =>
    have hllm : Assoc.get? llm.serviceId s.serviceToLLM = some llm := by
      rw [h.named _ _ hget]
      exact hget
    refine ⟨h.postCompletion hllm response, ?_⟩
    rw [Grows, serviceToLLM_postCompletion]
    exact Grows.refl s
  | none =>
    obtain ⟨hlinked, hgrows, hmade⟩ := h.createNewLLM hget config
    refine ⟨hlinked.postCompletion ?_ response, ?_⟩
    · rw [hlinked.named _ _ hmade]
      exact hmade
    · rw [Grows, serviceToLLM_postCompletion]
      exact hgrows

variable [DecidableEq γ]

theorem Linked.getLLM (h : Linked s) (serviceId : String) (config : Option (LLMConfig γ)) :
    Linked (s.getLLM serviceId config).2 ∧ Grows s (s.getLLM serviceId config).2 ∧
      ∀ llm, (s.getLLM serviceId config).1 = .ok llm → Assoc.get? serviceId (s.getLLM serviceId config).2.serviceToLLM = some llm := by
  unfold Session.getLLM
  cases hget : Assoc.get? serviceId s.serviceToLLM with
  | some llm =>
    dsimp only
    split_ifs
    · exact ⟨h, Grows.refl s, fun other hother => by cases hother⟩
    · refine ⟨h, Grows.refl s, fun other hother => ?_⟩
      cases hother
      exact hget
  | none =>
    cases config with
    | none => exact ⟨h, Grows.refl s, fun other hother => by cases hother⟩
    | some config =>
      obtain ⟨hlinked, hgrows, hmade⟩ := h.createNewLLM hget config
      refine ⟨hlinked, hgrows, fun other hother => ?_⟩
      cases hother
      exact hmade

/-- The LLMs made for a router stay, also where one of them is refused. -/
theorem Linked.routingLLMs (h : Linked s) (configs : List (String × LLMConfig γ)) :
    Linked (Session.routingLLMs configs s).2 ∧ Grows s (Session.routingLLMs configs s).2 ∧
      ∀ llms, (Session.routingLLMs configs s).1 = .ok llms →
        ∀ entry ∈ llms, Assoc.get? entry.2.serviceId (Session.routingLLMs configs s).2.serviceToLLM = some entry.2 := by
  induction configs generalizing s with
  | nil =>
    refine ⟨h, Grows.refl s, fun llms hllms entry hentry => ?_⟩
    cases hllms
    cases hentry
  | cons named rest ih =>
    obtain ⟨name, config⟩ := named
    obtain ⟨hlinked, hgrows, hmade⟩ := h.getLLM ("llm_for_routing." ++ name) (some config)
    unfold Session.routingLLMs
    cases hget : s.getLLM ("llm_for_routing." ++ name) (some config) with
    | mk result after =>
      rw [hget] at hlinked hgrows hmade
      cases result with
      | error e => exact ⟨hlinked, hgrows, fun other hother => by cases hother⟩
      | ok llm =>
        obtain ⟨hlast, hmore, hllms⟩ := ih hlinked
        dsimp only
        cases hrest : Session.routingLLMs rest after with
        | mk others last =>
          rw [hrest] at hlast hmore hllms
          cases others with
          | error e => exact ⟨hlast, hgrows.trans hmore, fun other hother => by cases hother⟩
          | ok others =>
            refine ⟨hlast, hgrows.trans hmore, fun llms hall entry hentry => ?_⟩
            cases hall
            rcases List.mem_cons.mp hentry with rfl | hentry
            · have hllm := hmade llm rfl
              have hname := hlinked.named _ _ hllm
              exact hmore _ _ (hname ▸ hllm)
            · exact hllms others rfl entry hentry

omit [DecidableEq γ] in
theorem mem_update {entry : String × LLM γ} {llms others : List (String × LLM γ)} (h : entry ∈ Assoc.update llms others) :
    entry ∈ llms ∨ entry ∈ others := by
  induction others generalizing llms with
  | nil => exact .inl h
  | cons other others ih =>
    rcases ih h with hset | hrest
    · rcases Assoc.mem_set hset with rfl | hold
      · exact .inr List.mem_cons_self
      · exact .inl hold
    · exact .inr (List.mem_cons_of_mem _ hrest)

theorem Linked.getRouter (h : Linked s) (agent : AgentConfig γ) : Linked (s.getRouter agent).2 ∧ Grows s (s.getRouter agent).2 := by
  obtain ⟨hprimary, hgrows, hheld⟩ := h.getLLMFromAgentConfig "agent" agent
  rw [Session.getRouter]
  split_ifs
  · exact ⟨hprimary, hgrows⟩
  · obtain ⟨hlinked, hmore, hllms⟩ := hprimary.routingLLMs agent.modelRouting.llmsForRouting
    dsimp only
    cases hmade : Session.routingLLMs agent.modelRouting.llmsForRouting (s.getLLMFromAgentConfig "agent" agent).2 with
    | mk result after =>
      rw [hmade] at hlinked hmore hllms
      cases result with
      | error e => exact ⟨hlinked, hgrows.trans hmore⟩
      | ok llms =>
        dsimp only
        split_ifs
        · refine ⟨hlinked.congr hlinked.accounted rfl rfl rfl rfl fun router hrouter entry hentry => ?_, hgrows.trans hmore⟩
          rcases List.mem_append.mp hrouter with hold | hnew
          · exact hlinked.routed router hold entry hentry
          · rw [List.mem_singleton.mp hnew] at hentry
            rcases mem_update hentry with hfirst | hrest
            · rw [List.mem_singleton.mp hfirst]
              have hagent := hmore _ _ hheld
              rw [hlinked.named _ _ hagent]
              exact hagent
            · exact hllms llms rfl entry hrest
        · exact ⟨hlinked, hgrows.trans hmore⟩
  · exact ⟨h, Grows.refl s⟩

omit [DecidableEq γ] in
theorem Linked.routerCompletion (h : Linked s) (number : ℕ) (prompt : Prompt) (response : Completion) :
    Linked (s.routerCompletion number prompt response) ∧ Grows s (s.routerCompletion number prompt response) := by
  rw [Session.routerCompletion]
  cases hrouter : s.routers[number]? with
  | none => exact ⟨h, Grows.refl s⟩
  | some router =>
    have hmem := List.mem_of_getElem? hrouter
    have hchosen : Linked { s with routers := s.routers.set number (router.selectLLM prompt).2 } := by
      refine h.congr h.accounted rfl rfl rfl rfl fun other hother entry hentry => ?_
      rcases List.mem_or_eq_of_mem_set hother with hold | rfl
      · exact h.routed other hold entry hentry
      · exact h.routed router hmem entry hentry
    dsimp only
    cases hselected : Assoc.get? (router.selectLLM prompt).1 router.availableLLMs with
    | none => exact ⟨hchosen, Grows.refl s⟩
    | some llm =>
      refine ⟨hchosen.postCompletion (h.routed router hmem _ (Assoc.mem_of_get? hselected)) response, ?_⟩
      rw [Grows, serviceToLLM_postCompletion]
      exact Grows.refl s

theorem Linked.step (h : Linked s) (op : Op γ) : Linked (s.step op) ∧ Grows s (s.step op) := by
  cases op with
  | getLLM serviceId config =>
    obtain ⟨hlinked, hgrows, -⟩ := h.getLLM serviceId config
    exact ⟨hlinked, hgrows⟩
  | getLLMFromAgentConfig serviceId agent =>
    obtain ⟨hlinked, hgrows, -⟩ := h.getLLMFromAgentConfig serviceId agent
    exact ⟨hlinked, hgrows⟩
  | requestExtraneousCompletion serviceId config response => exact h.requestExtraneousCompletion serviceId config response
  | getRouter agent => exact h.getRouter agent
  | completion serviceId response =>
    rw [Session.step]
    cases hget : Assoc.get? serviceId s.serviceToLLM with
    | none => exact ⟨h, Grows.refl s⟩
    | some llm =>
      refine ⟨h.postCompletion ?_ response, ?_⟩
      · rw [h.named _ _ hget]
        exact hget
      · dsimp only
        rw [Grows, serviceToLLM_postCompletion]
        exact Grows.refl s
  | routerCompletion number prompt response => exact h.routerCompletion number prompt response
  | saveMetrics => exact ⟨h.congr h.accounted.saveMetrics rfl rfl rfl rfl h.routed, Grows.refl s⟩

theorem Linked.run (h : Linked s) (ops : List (Op γ)) : Linked (s.run ops) ∧ Grows s (s.run ops) := by
  induction ops generalizing s with
  | nil => exact ⟨h, Grows.refl s⟩
  | cons op ops ih =>
    obtain ⟨hlinked, hgrows⟩ := h.step op
    obtain ⟨hlast, hmore⟩ := ih hlinked
    exact ⟨hlast, hgrows.trans hmore⟩

/-! ## Sessions one after the other -/

/-- All that was recorded is in the file. -/
structure Stored (stats : ConversationStats) : Prop where
  accounted : stats.Accounted
  saved : stats.savedTotals = stats.registeredTotals + stats.restoredTotals

theorem stored_saveMetrics {stats : ConversationStats} (h : stats.Accounted) : Stored stats.saveMetrics :=
  ⟨h.saveMetrics, ConversationStats.savedTotals_saveMetrics h.services h.disjoint⟩

omit [DecidableEq γ] in
/-- The agent's LLM is the only one when the stats subscribe. -/
theorem linked_createRegistry (modelInfo : LLMConfig γ → Option ModelInfo) (config : OpenHandsConfig γ) (agentCls : Option String)
    {stats : ConversationStats} (h : Stored stats) : Linked (createRegistryAndConversationStats modelInfo config agentCls stats) := by
  unfold createRegistryAndConversationStats create
  dsimp only
  generalize config.getAgentToLLMConfigMap.getLLMConfigFromAgent _ = resolved
  have hmade := h.accounted.createLLM resolved.1.model
  have hrestart : (stats.createLLM resolved.1.model).restart.Accounted := by
    refine hmade.restart ?_
    have hsame := h.accounted.registered_update (.ofModel resolved.1.model)
    exact h.saved.trans (congrArg (fun total => total + stats.restoredTotals) hsame.symm)
  have hnumber : (stats.createLLM resolved.1.model).restart.llms[stats.llms.length]? = some stats.nextObject := by
    show (stats.llms ++ [stats.nextObject])[stats.llms.length]? = _
    rw [List.getElem?_append_right le_rfl, Nat.sub_self]
    rfl
  have hblank : ((stats.createLLM resolved.1.model).restart.objects stats.nextObject).totals = 0 := by
    show (Function.update stats.objects stats.nextObject (ServiceMetrics.ofModel resolved.1.model) stats.nextObject).totals = 0
    rw [Function.update_self]
    rfl
  obtain ⟨hlinked, -, own, hllms, hmetrics⟩ := @registerLLM_new _ _ _ hrestart "agent" hnumber List.not_mem_nil hblank
    List.not_mem_nil
  unfold subscribe createNewLLM notify
  dsimp only
  rw [if_neg Bool.false_ne_true, if_pos rfl]
  refine ⟨hlinked, rfl, fun id llm hget => ?_, fun id llm hget => ?_, fun id hid => ?_, fun router hrouter => absurd hrouter List.not_mem_nil⟩
  · obtain ⟨rfl, rfl⟩ := List.mem_singleton.mp (Assoc.mem_of_get? hget)
    rfl
  · obtain ⟨rfl, rfl⟩ := List.mem_singleton.mp (Assoc.mem_of_get? hget)
    dsimp only
    rw [hllms, hmetrics]
    refine ⟨own, ?_, Assoc.get?_set_self _ _ _⟩
    rw [List.getElem?_set_self]
    exact (List.getElem?_eq_some_iff.mp hnumber).1
  · dsimp only at hid
    rw [hmetrics] at hid
    rcases (Assoc.mem_keys_set _ _ _ _).mp hid with rfl | hold
    · exact ⟨_, Assoc.get?_set_self _ _ _⟩
    · cases hold

/-- Nothing was recorded and nothing saved. -/
theorem stored_empty : Stored {} := ⟨ConversationStats.accounted_empty, (add_zero (0 : Totals)).symm⟩

theorem stored_statsAfter {stats : ConversationStats} (h : Stored stats) (scripts : List (Script γ)) : Stored (statsAfter stats scripts) := by
  induction scripts generalizing stats with
  | nil => exact h
  | cons script scripts ih =>
    have hlinked := ((linked_createRegistry script.modelInfo script.config script.agentCls h).run script.ops).1
    exact ih (stored_saveMetrics hlinked.accounted)

end Session

end LLMRegistry

end OpenHands
