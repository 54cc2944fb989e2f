import OpenHandsSWE.Lib.Json
import OpenHandsSWE.Lib.Python

/-! Keyword arguments read from a dictionary, and the metrics of the LLM calls behind an event. -/

abbrev FloatLit.zero : FloatLit := ⟨false, 0, [0], none, FloatLit.isFloat_zero⟩

/-- The float an integer is converted to. -/
def FloatLit.ofInt (n : Int) : FloatLit := ⟨decide (n < 0), n.natAbs, [0], none, isFloat_zero⟩

def FloatLit.isNegative (x : FloatLit) : Bool := x.neg && (x.whole != 0 || x.frac.any (· != 0))

namespace Json

def str? : Json → Option String
  | .str s => some s
  | _ => none

def bool? : Json → Option Bool
  | .bool b => some b
  | _ => none

def int? : Json → Option Int
  | .int n => some n
  | _ => none

def float? : Json → Option FloatLit
  | .int n => some (.ofInt n)
  | .float x => some x
  | _ => none

def obj? : Json → Option (List (String × Json))
  | .obj kvs => some kvs
  | _ => none

def arr? : Json → Option (List Json)
  | .arr xs => some xs
  | _ => none

section Reading

variable {α : Type}

def opt? (read : Json → Option α) : Json → Option (Option α)
  | .null => some none
  | v => (read v).map some

def list? (read : Json → Option α) : Json → Option (List α)
  | .arr xs => xs.mapM read
  | _ => none

def dict? (read : Json → Option α) : Json → Option (List (String × α))
  | .obj kvs => kvs.mapM fun kv => (read kv.2).map fun a => (kv.1, a)
  | _ => none

def ofOpt (write : α → Json) : Option α → Json
  | none => .null
  | some a => write a

def ofList (write : α → Json) (xs : List α) : Json := .arr (xs.map write)

end Reading

end Json

namespace OpenHands

abbrev Dict := List (String × Json)

namespace Fields

variable {α : Type}

/-- A value of another type than the field's is refused here, where the code would keep it. -/
def readAs (read : Json → Option α) (name : String) (v : Json) : Except PyError α :=
  match read v with
  | some a => .ok a
  | none => .error (.typeError ("'" ++ name ++ "' has the wrong type"))

def required (fields : Dict) (name : String) (read : Json → Option α) : Except PyError α :=
  match Assoc.get? name fields with
  | some v => readAs read name v
  | none => .error (.typeError ("missing required argument: '" ++ name ++ "'"))

def optional (fields : Dict) (name : String) (read : Json → Option α) (default : α) :
    Except PyError α :=
  match Assoc.get? name fields with
  | some v => readAs read name v
  | none => .ok default

/-- A constructor takes no keyword argument but its fields. -/
def only (names : List String) (fields : Dict) : Except PyError Unit :=
  match fields.find? fun kv => !names.contains kv.1 with
  | some kv => .error (.typeError ("got an unexpected keyword argument '" ++ kv.1 ++ "'"))
  | none => .ok ()

end Fields

/-! ## Metrics -/

structure Cost where
  model : String
  cost : FloatLit
  timestamp : FloatLit
deriving DecidableEq, Repr

structure ResponseLatency where
  model : String
  latency : FloatLit
  responseId : String
deriving DecidableEq, Repr

structure TokenUsage where
  model : String := ""
  promptTokens : Int := 0
  completionTokens : Int := 0
  cacheReadTokens : Int := 0
  cacheWriteTokens : Int := 0
  contextWindow : Int := 0
  perTurnToken : Int := 0
  responseId : String := ""
deriving DecidableEq, Repr

structure Metrics where
  accumulatedCost : FloatLit := .zero
  maxBudgetPerTask : Option FloatLit := none
  accumulatedTokenUsage : TokenUsage := { model := "default" }
  costs : List Cost := []
  responseLatencies : List ResponseLatency := []
  tokenUsages : List TokenUsage := []
deriving DecidableEq, Repr

namespace Cost

def modelDump (c : Cost) : Json :=
  .obj [("model", .str c.model), ("cost", .float c.cost), ("timestamp", .float c.timestamp)]

/-- `now` is the time a cost without a timestamp gets. -/
def ofDict (now : FloatLit) (fields : Dict) : Except PyError Cost := do
  return { model := ← Fields.required fields "model" Json.str?
           cost := ← Fields.required fields "cost" Json.float?
           timestamp := ← Fields.optional fields "timestamp" Json.float? now }

end Cost

namespace ResponseLatency

def modelDump (l : ResponseLatency) : Json :=
  .obj [("model", .str l.model), ("latency", .float l.latency), ("response_id", .str l.responseId)]

def ofDict (fields : Dict) : Except PyError ResponseLatency := do
  return { model := ← Fields.required fields "model" Json.str?
           latency := ← Fields.required fields "latency" Json.float?
           responseId := ← Fields.required fields "response_id" Json.str? }

end ResponseLatency

namespace TokenUsage

/-- `TokenUsage.__add__`. -/
def add (u v : TokenUsage) : TokenUsage where
  model := u.model
  promptTokens := u.promptTokens + v.promptTokens
  completionTokens := u.completionTokens + v.completionTokens
  cacheReadTokens := u.cacheReadTokens + v.cacheReadTokens
  cacheWriteTokens := u.cacheWriteTokens + v.cacheWriteTokens
  contextWindow := max u.contextWindow v.contextWindow
  perTurnToken := v.perTurnToken
  responseId := u.responseId

def modelDump (u : TokenUsage) : Json :=
  .obj [("model", .str u.model), ("prompt_tokens", .int u.promptTokens),
    ("completion_tokens", .int u.completionTokens), ("cache_read_tokens", .int u.cacheReadTokens),
    ("cache_write_tokens", .int u.cacheWriteTokens), ("context_window", .int u.contextWindow),
    ("per_turn_token", .int u.perTurnToken), ("response_id", .str u.responseId)]

def ofDict (fields : Dict) : Except PyError TokenUsage := do
  return { model := ← Fields.optional fields "model" Json.str? ""
           promptTokens := ← Fields.optional fields "prompt_tokens" Json.int? 0
           completionTokens := ← Fields.optional fields "completion_tokens" Json.int? 0
           cacheReadTokens := ← Fields.optional fields "cache_read_tokens" Json.int? 0
           cacheWriteTokens := ← Fields.optional fields "cache_write_tokens" Json.int? 0
           contextWindow := ← Fields.optional fields "context_window" Json.int? 0
           perTurnToken := ← Fields.optional fields "per_turn_token" Json.int? 0
           responseId := ← Fields.optional fields "response_id" Json.str? "" }

end TokenUsage

namespace Metrics

def get (m : Metrics) : Json :=
  .obj [("accumulated_cost", .float m.accumulatedCost),
    ("max_budget_per_task", .ofOpt .float m.maxBudgetPerTask),
    ("accumulated_token_usage", m.accumulatedTokenUsage.modelDump),
    ("costs", .ofList Cost.modelDump m.costs),
    ("response_latencies", .ofList ResponseLatency.modelDump m.responseLatencies),
    ("token_usages", .ofList TokenUsage.modelDump m.tokenUsages)]

/-- The records of a list, each from its own dictionary. -/
def records {α : Type} (fields : Dict) (name : String) (ofDict : Dict → Except PyError α) :
    Except PyError (List α) := do
  (← Fields.optional fields name (Json.list? Json.obj?) []).mapM ofDict

/-- The metrics read from their dictionary; the setter of the cost refuses a negative one. -/
def ofDict (now : FloatLit) (fields : Dict) : Except PyError Metrics := do
  let accumulatedCost ← Fields.optional fields "accumulated_cost" Json.float? .zero
  if accumulatedCost.isNegative then throw (.valueError "Total cost cannot be negative.")
  let usage ← Fields.optional fields "accumulated_token_usage" (fun v => v.obj?.map some) none
  return { accumulatedCost
           maxBudgetPerTask :=
             ← Fields.optional fields "max_budget_per_task" (Json.opt? Json.float?) none
           costs := ← records fields "costs" (Cost.ofDict now)
           responseLatencies := ← records fields "response_latencies" ResponseLatency.ofDict
           tokenUsages := ← records fields "token_usages" TokenUsage.ofDict
           accumulatedTokenUsage :=
             ← (usage.map TokenUsage.ofDict).getD (.ok { model := "default" }) }

end Metrics

end OpenHands
