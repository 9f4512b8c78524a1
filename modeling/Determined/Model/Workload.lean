import Determined.Model.Length

/-! Workloads and their completion messages (`pkg/workload`), with the checkpoint record the master
    makes of a completed checkpoint (`pkg/model`, `checkpointFromCheckpointMetrics`). Metric values
    are JSON numbers, hence finite floats, and a finite float is a rational. -/

namespace Determined.Model

/-- How a call of the source fails: an error handed back to the caller, or a panic. -/
inductive Fault where
  | error (text : String)
  | panic (text : String)
  deriving DecidableEq, Repr

/-- `errors.Wrap`: prefix an error with its context; a panic passes through. -/
def wrap {α : Type} (context : String) : Except Fault α → Except Fault α
  | .error (.error text) => .error (.error (context ++ ": " ++ text))
  | r => r

/-- A sequence of two calls succeeds iff both do, the second on the first's result. -/
theorem bind_eq_ok {α β : Type} {x : Except Fault α} {f : α → Except Fault β} {b : β} :
    x >>= f = .ok b ↔ ∃ a, x = .ok a ∧ f a = .ok b := by
  cases x with
  | error e => simp [bind, Except.bind]
  | ok a => simp [bind, Except.bind]

/-- A call whose result is only transformed succeeds iff the call does. -/
theorem map_eq_ok {α β : Type} {x : Except Fault α} {f : α → β} {b : β} :
    x.map f = .ok b ↔ ∃ a, x = .ok a ∧ f a = b := by
  cases x with
  | error e => simp [Except.map]
  | ok a => simp [Except.map]

@[simp] theorem wrap_ok {α : Type} (context : String) (a : α) : wrap context (.ok a) = .ok a := rfl

/-- Wrapping neither makes nor hides a result. -/
theorem wrap_eq_ok {α : Type} {context : String} {r : Except Fault α} {a : α} :
    wrap context r = .ok a ↔ r = .ok a := by
  rcases r with (_ | _) | _ <;> simp [wrap]

/-- The kind of workload that should be executed by trial runners. -/
inductive Kind where | runStep | computeValidationMetrics | checkpointModel | terminate
  deriving DecidableEq, Repr

def Kind.text : Kind → String
  | .runStep => "RUN_STEP"
  | .computeValidationMetrics => "COMPUTE_VALIDATION_METRICS"
  | .checkpointModel => "CHECKPOINT_MODEL"
  | .terminate => "TERMINATE"

/-- A single unit of work that a trial needs to do before waiting for more work. -/
structure Workload where
  kind : Kind
  experimentID : ℤ
  trialID : ℤ
  stepID : ℤ
  numBatches : ℤ
  totalBatchesProcessed : ℤ
  deriving DecidableEq, Repr

def Workload.text (w : Workload) : String :=
  let extra := if w.kind = .runStep then s!" ({w.numBatches} Batches)" else ""
  let extra := extra ++ s!" ({w.totalBatchesProcessed} Prior Batches)"
  s!"<{w.kind.text}{extra}: ({w.experimentID},{w.trialID},{w.stepID})>"

/-- Why a workload exited early. -/
inductive ExitedReason where
  | errored | userCanceled | invalidHP
  | other (reason : String)
  deriving DecidableEq, Repr

/-- The checkpoint metadata a completed checkpoint returns. -/
structure CheckpointMetrics where
  uuid : String
  resources : List (String × ℤ)
  framework : String
  format : String
  deriving DecidableEq, Repr

/-- A user-defined metric: a float, or some other JSON value. -/
inductive MetricValue where
  | float (value : ℚ)
  | other
  deriving DecidableEq, Repr

/-- The user-defined metrics calculated after a validation workload. -/
structure ValidationMetrics where
  numInputs : ℤ
  metrics : List (String × MetricValue)
  deriving DecidableEq, Repr

/-- The requested validation metric value from the set of validation metrics. -/
def ValidationMetrics.metric (m : ValidationMetrics) (name : String) : Except Fault ℚ :=
  match m.metrics.lookup name with
  | none => .error (.error s!"'{name}' could not be found in validation metrics")
  | some (.float value) => .ok value
  | some .other => .error (.error s!"'{name}' is not a scalar float value")

/-- The message returned by the trial runner when a workload is completed. -/
structure CompletedMessage where
  workload : Workload
  exitedReason : Option ExitedReason
  checkpointMetrics : Option CheckpointMetrics
  validationMetrics : Option ValidationMetrics
  deriving DecidableEq, Repr

/-- The part of a stored checkpoint that its completion message fills in. -/
structure Checkpoint where
  uuid : Option String
  resources : List (String × ℤ)
  framework : String
  format : String
  deriving DecidableEq, Repr

/-- The checkpoint record of a completed checkpoint. -/
def checkpointFromCheckpointMetrics (m : CheckpointMetrics) : Checkpoint where
  uuid := some m.uuid
  resources := m.resources
  framework := m.framework
  format := m.format

end Determined.Model
