import Mathlib

/-! The states of an experiment and the transitions it may make (`pkg/model/experiment.go`). -/

namespace Determined.Model

/-- The state of an experiment; a client may ask for any text. -/
inductive State where
  | active
  | canceled
  | completed
  | deleted
  | error
  | paused
  | stoppingCanceled
  | stoppingCompleted
  | stoppingError
  | unknown (text : String)
  deriving DecidableEq, Repr

def State.text : State → String
  | .active => "ACTIVE"
  | .canceled => "CANCELED"
  | .completed => "COMPLETED"
  | .deleted => "DELETED"
  | .error => "ERROR"
  | .paused => "PAUSED"
  | .stoppingCanceled => "STOPPING_CANCELED"
  | .stoppingCompleted => "STOPPING_COMPLETED"
  | .stoppingError => "STOPPING_ERROR"
  | .unknown text => text

def runningStates : State → Bool
  | .active | .paused => true
  | _ => false

def stoppingStates : State → Bool
  | .stoppingCanceled | .stoppingCompleted | .stoppingError => true
  | _ => false

def terminalStates : State → Bool
  | .canceled | .completed | .error => true
  | _ => false

/-- The terminal state that a stopping state leads to; the zero value is the empty text. -/
def stoppingToTerminalStates : State → State
  | .stoppingCanceled => .canceled
  | .stoppingCompleted => .completed
  | .stoppingError => .error
  | _ => .unknown ""

def experimentTransitions : State → State → Bool
  | .active, .paused => true
  | .active, .stoppingCanceled | .active, .stoppingCompleted | .active, .stoppingError => true
  | .paused, .active => true
  | .paused, .stoppingCanceled | .paused, .stoppingCompleted | .paused, .stoppingError => true
  | .stoppingCanceled, .canceled | .stoppingCanceled, .stoppingError => true
  | .stoppingCompleted, .completed | .stoppingCompleted, .stoppingError => true
  | .stoppingError, .active | .stoppingError, .error => true
  | _, _ => false

/-- Whether the state is modified by changing it to the new state. -/
def State.transition (id : ℤ) (s new : State) : Except String Bool :=
  if s = new then .ok false
  else if experimentTransitions s new then .ok true
  else .error s!"illegal transition {s.text} -> {new.text} for experiment {id}"

/-- A stopping state is left only for an error, for the end, or from an error to be active. -/
theorem stopping_transition {s new : State} (hs : stoppingStates s = true)
    (h : experimentTransitions s new = true) :
    new = .stoppingError ∨ terminalStates new = true ∨ s = .stoppingError ∧ new = .active := by
  cases s <;> cases new <;> simp_all [stoppingStates, experimentTransitions, terminalStates]

/-- A terminal state is never left. -/
theorem terminal_transition {s new : State} (hs : terminalStates s = true) :
    experimentTransitions s new = false := by
  cases s <;> simp_all [terminalStates, experimentTransitions]

/-- Every stopping state leads to a terminal one. -/
theorem transition_terminal {s : State} (hs : stoppingStates s = true) (id : ℤ) :
    terminalStates (stoppingToTerminalStates s) = true ∧
      s.transition id (stoppingToTerminalStates s) = .ok true := by
  cases s <;> simp_all [stoppingStates, stoppingToTerminalStates, terminalStates, State.transition,
    experimentTransitions]

end Determined.Model
