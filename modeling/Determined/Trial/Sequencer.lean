import Determined.Searcher.Operations

/-! The trial workload sequencer (`internal/trial_workload_sequencer.go`): it turns the operations
    the searcher requested of a trial into workloads, one at a time, and is told when they complete.
    `workload` looks at the state and decides what to run next; `workloadCompleted` is the only
    function that updates the state, and snapshots it whenever a checkpoint has completed;
    `rollBackSequencer` goes back to that snapshot. -/

namespace Determined.Trial
open Determined.Model Determined.Searcher

/-- When to checkpoint after a validation. -/
inductive CheckpointPolicy where | best | all | none
  deriving DecidableEq, Repr

/-- The part of the experiment configuration that the trial and its sequencer read. -/
structure ExperimentConfig where
  performInitialValidation : Bool
  checkpointPolicy : CheckpointPolicy
  minValidationPeriod : Length
  minCheckpointPeriod : Length
  searcherUnit : LengthUnit
  recordsPerEpoch : ℤ
  schedulingUnit : ℤ
  maxRestarts : ℤ
  deriving DecidableEq, Repr

structure Experiment where
  id : ℤ
  config : ExperimentConfig
  deriving DecidableEq, Repr

/-- The sequencer's state proper, as it is snapshotted and rolled back. -/
structure TrialWorkloadSequencerState where
  batchesTowardsCurrentOp : ℤ
  batchesSinceLastVal : ℤ
  batchesSinceLastCkpt : ℤ
  totalBatchesProcessed : ℤ
  needInitialValidation : Bool
  needPostValidationCkpt : Bool
  exitingEarly : Bool
  gracefulStop : Bool
  curOpIdx : ℕ
  curStepID : ℤ
  latestCheckpoint : Option Checkpoint
  cachedCheckpoints : AList (fun _ : Workload => CompletedMessage)

structure TrialWorkloadSequencer (ι : Type) extends TrialWorkloadSequencerState where
  ops : List (Runnable ι)
  latestCheckpointSequencerSnapshot : TrialWorkloadSequencerState
  experimentID : ℤ
  checkpointPolicy : CheckpointPolicy
  minValidationPeriod : Length
  minCheckpointPeriod : Length
  unitContext : UnitContext
  schedulingUnit : ℤ
  trialID : ℤ
  trialIDValid : Bool

/-- A new sequencer, for a trial whose hyperparameters give `globalBatchSize`. -/
def newTrialWorkloadSequencer (ι : Type) (exp : Experiment) (globalBatchSize : ℤ)
    (firstCheckpoint : Option Checkpoint) : TrialWorkloadSequencer ι :=
  let state : TrialWorkloadSequencerState :=
    { batchesTowardsCurrentOp := 0, batchesSinceLastVal := 0, batchesSinceLastCkpt := 0
      totalBatchesProcessed := 0
      needInitialValidation := exp.config.performInitialValidation
      needPostValidationCkpt := false, exitingEarly := false, gracefulStop := false
      curOpIdx := 0, curStepID := 0
      latestCheckpoint := firstCheckpoint, cachedCheckpoints := ∅ }
  { toTrialWorkloadSequencerState := state
    ops := []
    latestCheckpointSequencerSnapshot := state
    experimentID := exp.id
    checkpointPolicy := exp.config.checkpointPolicy
    minValidationPeriod := exp.config.minValidationPeriod
    minCheckpointPeriod := exp.config.minCheckpointPeriod
    unitContext := ⟨exp.config.searcherUnit, globalBatchSize, exp.config.recordsPerEpoch⟩
    schedulingUnit := exp.config.schedulingUnit
    trialID := 0, trialIDValid := false }

/-- `math.MaxInt32`: more batches than any period asks for. -/
def maxInt32 : ℤ := 2147483647

namespace TrialWorkloadSequencer

variable {ι : Type} (s : TrialWorkloadSequencer ι)

/-- The operation the sequencer is working on. -/
def curOp : Option (Runnable ι) := s.ops[s.curOpIdx]?

def setTrialID (trialID : ℤ) : TrialWorkloadSequencer ι :=
  { s with trialID := trialID, trialIDValid := true }

/-- Record an operation requested by the searcher. -/
def operationRequested (op : Runnable ι) : TrialWorkloadSequencer ι :=
  { s with ops := s.ops ++ [op] }

def minValidationNeeded : Bool :=
  s.minValidationPeriod.units != 0 &&
    s.minValidationPeriod.equalWithinBatch s.batchesSinceLastVal s.unitContext

def batchesUntilValNeeded : ℤ :=
  if s.minValidationPeriod.units = 0 then maxInt32
  else s.minValidationPeriod.toNearestBatch s.unitContext - s.batchesSinceLastVal

def minCheckpointNeeded : Bool :=
  s.minCheckpointPeriod.units != 0 &&
    s.minCheckpointPeriod.equalWithinBatch s.batchesSinceLastCkpt s.unitContext

def batchesUntilCkptNeeded : ℤ :=
  if s.minCheckpointPeriod.units = 0 then maxInt32
  else s.minCheckpointPeriod.toNearestBatch s.unitContext - s.batchesSinceLastCkpt

def postGracefulStopCheckpointNeeded : Bool := s.gracefulStop && s.batchesSinceLastCkpt != 0

def postValidationCheckpointNeeded : Bool :=
  s.needPostValidationCkpt && s.batchesSinceLastCkpt != 0

/-- Whether the sequencer has completed all searcher requested operations. -/
def upToDate : Bool :=
  s.ops.length == s.curOpIdx || s.exitingEarly && !s.postGracefulStopCheckpointNeeded

def train (numBatches : ℤ) : Workload where
  kind := .runStep
  experimentID := s.experimentID
  trialID := s.trialID
  stepID := s.curStepID + 1
  numBatches := numBatches
  totalBatchesProcessed := s.totalBatchesProcessed

def validate : Workload where
  kind := .computeValidationMetrics
  experimentID := s.experimentID
  trialID := s.trialID
  stepID := s.curStepID
  numBatches := 0
  totalBatchesProcessed := s.totalBatchesProcessed

def checkpoint : Workload where
  kind := .checkpointModel
  experimentID := s.experimentID
  trialID := s.trialID
  stepID := s.curStepID
  numBatches := 0
  totalBatchesProcessed := s.totalBatchesProcessed

/-- How many batches the next step of a `Train` of this length runs. -/
def batchesThisStep (length : Length) : ℤ :=
  let batchesLeft := length.toNearestBatch s.unitContext - s.batchesTowardsCurrentOp
  max (min (min (min batchesLeft s.batchesUntilValNeeded) s.batchesUntilCkptNeeded)
    s.schedulingUnit) 1

/-- The next workload to run, from the current state and without altering it. -/
def workload : Except Fault Workload :=
  if s.upToDate then
    .error (.error "cannot call sequencer.Workload() with sequencer.UpToDate() == true")
  else if !s.trialIDValid then
    .error (.error "cannot call sequencer.Workload() before sequencer.SetTrialID()")
  else if s.needInitialValidation then .ok s.validate
  else if s.postGracefulStopCheckpointNeeded then .ok s.checkpoint
  else if s.postValidationCheckpointNeeded then .ok s.checkpoint
  else if s.minValidationNeeded then .ok s.validate
  else if s.minCheckpointNeeded then .ok s.checkpoint
  else match s.curOp with
    | some (.validate _) => if s.batchesSinceLastCkpt != 0 then .ok s.checkpoint else .ok s.validate
    | some (.checkpoint _) => .ok s.checkpoint
    | some (.train _ length) => .ok (s.train (s.batchesThisStep length))
    | none => .error (.panic "index out of range")

/-- What the checkpoint before closing should be, if one is needed. -/
def precloseCheckpointWorkload : Option Workload :=
  if s.batchesSinceLastCkpt = 0 then none
  else if !s.trialIDValid then none
  else some s.checkpoint

def terminateWorkload : Workload where
  kind := .terminate
  experimentID := s.experimentID
  trialID := s.trialID
  stepID := s.curStepID
  numBatches := 0
  totalBatchesProcessed := 0

def snapshotState : TrialWorkloadSequencer ι :=
  { s with latestCheckpointSequencerSnapshot := s.toTrialWorkloadSequencerState }

/-- Roll back to the last available step with a checkpoint, and return that step. -/
def rollBackSequencer : TrialWorkloadSequencer ι × ℤ :=
  ({ s with toTrialWorkloadSequencerState := s.latestCheckpointSequencerSnapshot },
    s.latestCheckpointSequencerSnapshot.curStepID)

/-- Move on to the next operation. -/
def nextOp : TrialWorkloadSequencer ι := { s with curOpIdx := s.curOpIdx + 1 }

/-- The counters after one more step. -/
def countStep (msg : CompletedMessage) : TrialWorkloadSequencer ι :=
  { s with
    curStepID := s.curStepID + 1
    totalBatchesProcessed := s.totalBatchesProcessed + msg.workload.numBatches
    batchesTowardsCurrentOp := s.batchesTowardsCurrentOp + msg.workload.numBatches
    batchesSinceLastVal := s.batchesSinceLastVal + msg.workload.numBatches
    batchesSinceLastCkpt := s.batchesSinceLastCkpt + msg.workload.numBatches }

/-- Update the state for a completed `RUN_STEP`; the `Train` it completes, if any. -/
def runStepCompleted (msg : CompletedMessage) : TrialWorkloadSequencer ι × Option (Runnable ι) :=
  match s.curOp with
  | some (.train r length) =>
    -- partial batches are not handled
    if length.equalWithinBatch (s.countStep msg).batchesTowardsCurrentOp s.unitContext then
      ({ (s.countStep msg).nextOp with batchesTowardsCurrentOp := 0 }, some (.train r length))
    else (s.countStep msg, none)
  | _ => (s.countStep msg, none)

/-- Whether the policy asks for a checkpoint after this validation. Under the `best` policy the
    answer comes from a future, and there may be no future to ask (a nil dereference). -/
def postValidationCkptWanted (isBestValFuture : Option (Option Bool)) : Except Fault Bool :=
  if s.batchesSinceLastCkpt = 0 then .ok false
  else match s.checkpointPolicy with
    | .all => .ok true
    | .best => match isBestValFuture with
      | some answer => .ok (answer == some true)
      | none => .error (.panic "invalid memory address or nil pointer dereference")
    | .none => .ok false

/-- The state after a validation, before it is matched with an operation. -/
def countValidation (ckptWanted : Bool) : TrialWorkloadSequencer ι :=
  { s with
    batchesSinceLastVal := 0
    needInitialValidation := false
    needPostValidationCkpt := s.needPostValidationCkpt || ckptWanted }

/-- Snapshot if no batches were run since the last checkpoint. -/
def snapshotIfSaved : TrialWorkloadSequencer ι :=
  if s.batchesSinceLastCkpt = 0 then s.snapshotState else s

@[simp] theorem snapshotIfSaved_ops : s.snapshotIfSaved.ops = s.ops := by
  unfold snapshotIfSaved; split <;> rfl

@[simp] theorem snapshotIfSaved_state :
    s.snapshotIfSaved.toTrialWorkloadSequencerState = s.toTrialWorkloadSequencerState := by
  unfold snapshotIfSaved; split <;> rfl

@[simp] theorem snapshotIfSaved_snapshot :
    s.snapshotIfSaved.latestCheckpointSequencerSnapshot = if s.batchesSinceLastCkpt = 0
      then s.toTrialWorkloadSequencerState else s.latestCheckpointSequencerSnapshot := by
  unfold snapshotIfSaved; split <;> rfl

/-- Update the state for a completed validation; the `Validate` it completes, if any. The snapshot
    is taken last, to catch the operation index being incremented. -/
def computeValidationMetricsCompleted (msg : CompletedMessage)
    (isBestValFuture : Option (Option Bool)) :
    Except Fault (TrialWorkloadSequencer ι × Option (Runnable ι × OpMetrics)) := do
  let wanted ← s.postValidationCkptWanted isBestValFuture
  match s.curOp with
  | some (.validate r) =>
    return ((s.countValidation wanted).nextOp.snapshotIfSaved,
      some (.validate r, .validation msg.validationMetrics))
  | _ => return ((s.countValidation wanted).snapshotIfSaved, none)

/-- The state after a checkpoint, before it is matched with an operation. -/
def countCheckpoint (metrics : CheckpointMetrics) : TrialWorkloadSequencer ι :=
  { s with
    batchesSinceLastCkpt := 0
    needPostValidationCkpt := false
    latestCheckpoint := some (checkpointFromCheckpointMetrics metrics) }

/-- Keep a checkpoint's message for an operation that may ask for it later. -/
def cacheCheckpoint (msg : CompletedMessage) : TrialWorkloadSequencer ι :=
  { s with cachedCheckpoints := s.cachedCheckpoints.insert msg.workload msg }

/-- Update the state for a completed checkpoint; the `Checkpoint` it completes, if any. -/
def checkpointModelCompleted (msg : CompletedMessage) :
    Except Fault (TrialWorkloadSequencer ι × Option (Runnable ι × OpMetrics)) :=
  match msg.checkpointMetrics with
  | none => .error (.panic "invalid memory address or nil pointer dereference")
  | some metrics =>
    if (s.countCheckpoint metrics).upToDate then
      .ok (((s.countCheckpoint metrics).cacheCheckpoint msg).snapshotState, none)
    else match s.curOp with
      | some (.checkpoint r) =>
        .ok ((s.countCheckpoint metrics).nextOp.snapshotState,
          some (.checkpoint r, .checkpoint metrics))
      | _ => .ok (((s.countCheckpoint metrics).cacheCheckpoint msg).snapshotState, none)

/-- Whether a completion message is the expected one. Checkpoints are allowed even if they were not
    asked for: a trial about to be descheduled checkpoints on its own account. -/
def admits (msg : CompletedMessage) : Except Fault PUnit :=
  if s.upToDate then
    if msg.workload.kind = .checkpointModel then .ok ⟨⟩
    else .error (.error
      s!"illegal non-checkpoint workload completed message received: {msg.workload.text}")
  else do
    let w ← wrap "error checking workload" s.workload
    if msg.workload = w ∨ msg.workload.kind = .checkpointModel then return ⟨⟩
    else throw (.error ("illegal completed message received: expected checkpoint or " ++
      s!"{w.text}, got {msg.workload.text}"))

/-- Note the reason a workload exited early for. -/
def noteExit (reason : Option ExitedReason) : TrialWorkloadSequencer ι :=
  match reason with
  | none => s
  | some .userCanceled | some .invalidHP => { s with exitingEarly := true, gracefulStop := true }
  | some _ => { s with exitingEarly := true }

/-- Receive a completion message: update the state, and return the searcher operation it completes
    with that operation's metrics. -/
def workloadCompleted (msg : CompletedMessage) (isBestValFuture : Option (Option Bool)) :
    Except Fault (TrialWorkloadSequencer ι × Option (Runnable ι × OpMetrics)) := do
  s.admits msg
  let s := s.noteExit msg.exitedReason
  match msg.exitedReason with
  | some .errored | some (.other _) => return (s, none)
  | none | some .userCanceled | some .invalidHP =>
    match msg.workload.kind with
    | .runStep =>
      let (s, op) := s.runStepCompleted msg
      return (s, op.map (·, .none))
    | .checkpointModel => s.checkpointModelCompleted msg
    | .computeValidationMetrics => s.computeValidationMetricsCompleted msg isBestValFuture
    | .terminate => throw (.error "invalid operation for trialWorkloadSequencer")

/-- Complete a cached checkpoint that was received earlier but not needed until now, if the next
    workload is one. -/
def completeCachedCheckpoints :
    Except Fault (TrialWorkloadSequencer ι × Option (Runnable ι × OpMetrics)) := do
  if s.upToDate then return (s, none)
  let w ← wrap "Error getting workload from sequencer" s.workload
  match s.cachedCheckpoints.lookup w with
  | some msg =>
    let s := { s with cachedCheckpoints := s.cachedCheckpoints.erase w }
    wrap "Error completing cached checkpoint" (s.workloadCompleted msg none)
  | none => return (s, none)

end TrialWorkloadSequencer

end Determined.Trial
