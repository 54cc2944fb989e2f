import OpenHandsSWE.Controller.AgentController

/-! A session: the controller and the runtime on one event stream, with clients and other
subscribers that add events to it. -/

namespace OpenHands

namespace Runtime

/-- What `run_action` comes to: an observation at once, the task file, or the action's own method. -/
inductive Verdict where
  | answers (o : Observation)
  | tracksTasks
  | executes
deriving DecidableEq

def runAction (a : Action) : Verdict :=
  if a.runnable = false then
    match a with
    | .agentThink _ => .answers (.agentThink ⟨"Your thought has been logged."⟩)
    | .taskTracking _ => .tracksTasks
    | _ => .answers (.null ⟨""⟩)
  else if a.confirmationField = some (.known .awaitingConfirmation) then .answers (.null ⟨""⟩)
  else if a.confirmationField = some (.known .rejected) then
    .answers (.userReject ⟨"Action has been rejected by the user! Waiting for further user input."⟩)
  else .executes

/-- A call of an MCP tool does not go through `run_action`. -/
def verdict (a : Action) : Verdict :=
  match a with
  | .mcp _ => .executes
  | a => runAction a

def executes (e : Event) : Bool :=
  match e.body with
  | .action a => decide (verdict a = .executes)
  | _ => false

/-- How the action's method, or the work on the task file, ends. -/
inductive Outcome where
  | observed (o : Observation)
  | permissionError (message : String)
  | failed

def outcome (v : Verdict) (worked : Outcome) : Option Observation :=
  match v, worked with
  | .answers o, _ => some o
  | _, .observed o => some o
  | _, .permissionError message => some (.error { content := message })
  | _, .failed => none

/-- The observation that goes into the stream, with its source; null observations do not. -/
def response (e : Event) (worked : Outcome) : Option (Event × EventSource) :=
  match e.body with
  | .action a =>
    match outcome (verdict a) worked with
    | none | some (.null _) => none
    | some o =>
      some ({ body := .observation o, cause := some e.id, toolCallMetadata := e.toolCallMetadata },
        e.source.getD .agent)
  | _ => none

end Runtime

structure Session where
  root : Controller
  desk : Desk
  executed : List Delivery := []

/-- A client or another subscriber adds an event, the controller handles its next event, the runtime
its next one, or the secrets change. -/
inductive SessionStep where
  | post (place : Nat) (e : Event) (source : EventSource)
  | handle (answers : Answers)
  | work (place : Nat) (worked : Runtime.Outcome)
  | setSecrets (secrets : List (String × String))
  | updateSecrets (secrets : List (String × String))

namespace Session

variable (out : Outside) (clock : Int → String)

def handle (s : Session) (answers : Answers) : Session :=
  match s.desk.toController with
  | [] => s
  | d :: rest =>
    let t := Program.after (Controller.onEvent out clock answers d.event)
      { self := s.root, desk := { s.desk with toController := rest } }
    { s with root := t.self, desk := t.desk }

def work (s : Session) (place : Nat) (worked : Runtime.Outcome) : Session :=
  match s.desk.toRuntime with
  | [] => s
  | d :: rest =>
    let desk := { s.desk with toRuntime := rest }
    { s with
      executed := if Runtime.executes d.event then s.executed ++ [d] else s.executed
      desk :=
        match Runtime.response d.event worked with
        | some (o, source) => (desk.add out clock place none o source).2
        | none => desk }

def step (s : Session) : SessionStep → Session
  | .post place e source => { s with desk := (s.desk.add out clock place none e source).2 }
  | .handle answers => s.handle out clock answers
  | .work place worked => s.work out clock place worked
  | .setSecrets secrets => { s with desk := { s.desk with stream := s.desk.stream.setSecrets secrets } }
  | .updateSecrets secrets =>
    { s with desk := { s.desk with stream := s.desk.stream.updateSecrets secrets } }

def run (s : Session) (steps : List SessionStep) : Session := steps.foldl (step out clock) s

/-- A controller that has just been made, over a stream that may hold events already. -/
def start (root : Controller) (stream : EventStream) : Session where
  root := { root with pending := none, delegate := none }
  desk := { stream }

end Session

end OpenHands
