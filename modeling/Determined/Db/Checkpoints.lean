import Determined.Schemes.Ranking
import Determined.Model.StorageConfig

/-! Which checkpoints of an experiment are to be deleted (`ExperimentCheckpointsToGCRaw` of
    `internal/db/postgres.go`, `internal/checkpoint_gc.go`, `static/migrations`).

    A table is the list of its rows, with the constraints of the schema. A null is `none`; a
    condition holds only if it is true, and none of them is negated, so a comparison with a null
    counts as false. A checkpoint has a step by its foreign key, so only the validation of the step
    may be missing. Metrics are rationals. Of the columns that are returned only those of the
    checkpoint that the query reads are kept. -/

namespace Determined.Db
open Determined.Schemes Determined.Model

inductive CheckpointState where | active | completed | error | deleted
  deriving DecidableEq, Repr

structure Checkpoint where
  id : ℤ
  trialId : ℤ
  stepId : ℤ
  state : CheckpointState
  deriving DecidableEq, Repr

namespace Checkpoint

variable (selected : List Checkpoint) (c : Checkpoint)

/-- The row after those selected were marked as deleted. -/
def marked : Checkpoint :=
  if c.id ∈ selected.map (·.id) then { c with state := .deleted } else c

@[simp] theorem marked_id : (c.marked selected).id = c.id := by
  rw [marked]
  split <;> rfl

@[simp] theorem marked_trialId : (c.marked selected).trialId = c.trialId := by
  rw [marked]
  split <;> rfl

@[simp] theorem marked_stepId : (c.marked selected).stepId = c.stepId := by
  rw [marked]
  split <;> rfl

end Checkpoint

structure Trial where
  id : ℤ
  experimentId : ℤ
  warmStartCheckpointId : Option ℤ
  deriving DecidableEq, Repr

/-- The validation metrics of a step, by their names. -/
structure Validation where
  trialId : ℤ
  stepId : ℤ
  validationMetrics : String → Option ℚ

/-- What the query reads of the configuration of an experiment. -/
structure Experiment where
  id : ℤ
  metric : String
  smallerIsBetter : Option Bool
  saveExperimentBest : Option ℤ
  saveTrialBest : Option ℤ
  saveTrialLatest : Option ℤ
  deriving DecidableEq, Repr

structure Database where
  checkpoints : List Checkpoint
  trials : List Trial
  validations : List Validation
  checkpoints_pkey : (checkpoints.map (·.id)).Nodup
  checkpoints_trial_step_unique : (checkpoints.map fun c => (c.trialId, c.stepId)).Nodup
  trials_pkey : (trials.map (·.id)).Nodup
  validations_trial_step_unique : (validations.map fun v => (v.trialId, v.stepId)).Nodup

/-- The `const` table of the query: the arguments, or else what the configuration says. -/
structure Const where
  metricName : String
  sign : ℚ
  experimentBest : Option ℤ
  trialBest : Option ℤ
  trialLatest : Option ℤ
  deriving DecidableEq, Repr

def Experiment.const (e : Experiment) (experimentBest trialBest trialLatest : Option ℤ) : Const where
  metricName := e.metric
  sign := if e.smallerIsBetter.getD true then 1 else -1
  experimentBest := experimentBest.orElse fun _ => e.saveExperimentBest
  trialBest := trialBest.orElse fun _ => e.saveTrialBest
  trialLatest := trialLatest.orElse fun _ => e.saveTrialLatest

namespace Database

variable (db : Database) (e : Experiment) (const : Const)

/-- The completed checkpoints of an experiment. -/
def completed : List Checkpoint :=
  db.checkpoints.filter fun c => decide (c.state = .completed) &&
    db.trials.any fun t => decide (c.trialId = t.id) && decide (t.experimentId = e.id)

/-- The searcher's metric of the validation of the checkpoint's step. -/
def metricOf (metricName : String) (c : Checkpoint) : Option ℚ :=
  (db.validations.find? fun v =>
    decide (v.trialId = c.trialId) && decide (v.stepId = c.stepId)).bind
      (·.validationMetrics metricName)

/-- Sorting in ascending order with nulls last. -/
def nullsLast : Option ℚ → WithTop ℚ
  | none => ⊤
  | some x => x

/-- The better metric first, and then by the id. -/
def metricKey (c : Checkpoint) : WithTop ℚ ×ₗ ℤ :=
  toLex (nullsLast ((db.metricOf const.metricName c).map (const.sign * ·)), c.id)

/-- The latest step first. -/
def stepKey (c : Checkpoint) : ℤᵒᵈ := OrderDual.toDual c.stepId

def experimentRank (c : Checkpoint) : ℕ := rankOn (db.metricKey const) (db.completed e) c

def trialRank (c : Checkpoint) : ℕ :=
  rankOn (db.metricKey const) ((db.completed e).filter (·.trialId == c.trialId)) c

def trialOrderRank (c : Checkpoint) : ℕ :=
  rankOn stepKey ((db.completed e).filter (·.trialId == c.trialId)) c

/-- The rank exceeds the number, if there is one. -/
def exceeds (rank : ℕ) (n : Option ℤ) : Bool := n.any fun n : ℤ => decide (n < rank)

def selectedCheckpoints : List Checkpoint :=
  (db.completed e).filter fun c =>
    (const.experimentBest.isSome || const.trialBest.isSome || const.trialLatest.isSome) &&
    decide ((db.trials.filter fun t => t.warmStartCheckpointId == some c.id).length = 0) &&
    exceeds (db.trialOrderRank e c) const.trialLatest &&
    (exceeds (db.experimentRank e const c) const.experimentBest &&
        exceeds (db.trialRank e const c) const.trialBest ||
      (db.metricOf const.metricName c).isNone)

/-- Mark checkpoints as deleted. -/
def markDeleted (selected : List Checkpoint) : Database :=
  { db with
    checkpoints := db.checkpoints.map (·.marked selected)
    checkpoints_pkey := by
      rw [List.map_map]
      simpa only [Function.comp_def, Checkpoint.marked_id] using db.checkpoints_pkey
    checkpoints_trial_step_unique := by
      rw [List.map_map]
      simpa only [Function.comp_def, Checkpoint.marked_trialId, Checkpoint.marked_stepId] using
        db.checkpoints_trial_step_unique }

/-- The checkpoints to delete in the order of their ids, and the database after the query, which
    marks them as deleted if it is told to. -/
def experimentCheckpointsToGCRaw (experimentBest trialBest trialLatest : Option ℤ)
    (delete : Bool) : Database × String × List Checkpoint :=
  let const := e.const experimentBest trialBest trialLatest
  let selected := db.selectedCheckpoints e const
  (if delete then db.markDeleted selected else db, const.metricName, sortOn (·.id) selected)

/-- What the garbage collection task asks for. -/
def checkpointGCTask (config : CheckpointStorageConfig) : Database × String × List Checkpoint :=
  db.experimentCheckpointsToGCRaw e (some config.saveExperimentBest) (some config.saveTrialBest)
    (some config.saveTrialLatest) true

end Database

end Determined.Db
