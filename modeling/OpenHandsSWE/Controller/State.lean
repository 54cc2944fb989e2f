import OpenHandsSWE.Events.EventLog

/-! The running state of an agent, its control flags, and what survives a saved session. -/

namespace OpenHands

/-! ## Control flags -/

structure IterationControlFlag where
  limitIncreaseAmount : Int
  currentValue : Int
  maxValue : Int
  hitLimit : Bool := false
deriving DecidableEq, Repr

/-- A budget in dollars. -/
structure BudgetControlFlag where
  limitIncreaseAmount : Rat
  currentValue : Rat
  maxValue : Rat
  hitLimit : Bool := false
deriving DecidableEq, Repr

namespace IterationControlFlag

def reachedLimit (f : IterationControlFlag) : Bool := f.maxValue ≤ f.currentValue

def increaseLimit (f : IterationControlFlag) (headlessMode : Bool) : IterationControlFlag :=
  if !headlessMode && f.hitLimit then
    { f with maxValue := f.maxValue + f.limitIncreaseAmount, hitLimit := false }
  else f

/-- The flag after a step, and whether the step raised. -/
def step (f : IterationControlFlag) : IterationControlFlag × Bool :=
  if f.reachedLimit then ({ f with hitLimit := true }, true)
  else ({ f with hitLimit := false, currentValue := f.currentValue + 1 }, false)

end IterationControlFlag

namespace BudgetControlFlag

def reachedLimit (f : BudgetControlFlag) : Bool := f.maxValue ≤ f.currentValue

def increaseLimit (f : BudgetControlFlag) : BudgetControlFlag :=
  if f.hitLimit then
    { f with maxValue := f.currentValue + f.limitIncreaseAmount, hitLimit := false }
  else f

def step (f : BudgetControlFlag) : BudgetControlFlag × Bool :=
  ({ f with hitLimit := f.reachedLimit }, f.reachedLimit)

end BudgetControlFlag

/-! ## State -/

structure State where
  sessionId : String := ""
  iterationFlag : IterationControlFlag := { limitIncreaseAmount := 100, currentValue := 0, maxValue := 100 }
  budgetFlag : Option BudgetControlFlag := none
  confirmationMode : Bool := false
  history : List Event := []
  outputs : Dict := []
  agentState : AgentState := .loading
  resumeState : Option AgentState := none
  delegateLevel : Int := 0
  startId : Int := -1
  endId : Int := -1
  lastError : String := ""
deriving DecidableEq, Repr

def RESUMABLE_STATES : List AgentState := [.running, .paused, .awaitingUserInput, .finished]

namespace State

/-- What is pickled: everything but the history. -/
def getstate (s : State) : State := { s with history := [] }

/-- The state read back from a saved session. -/
def restoreFromSession (saved : State) : State :=
  { saved with
    resumeState := if RESUMABLE_STATES.contains saved.agentState then some saved.agentState else none
    agentState := .loading }

@[simp] theorem restore_startId (s : State) : (restoreFromSession s.getstate).startId = s.startId :=
  rfl

@[simp] theorem restore_endId (s : State) : (restoreFromSession s.getstate).endId = s.endId := rfl

end State

end OpenHands
