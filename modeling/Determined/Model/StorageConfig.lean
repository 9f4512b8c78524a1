import Determined.Schemes.LexicalPath
import Determined.Model.SearcherConfig

/-! Storage configurations (`pkg/model/storage_config.go`). A path is the list of its characters. -/

namespace Determined.Model
open Determined.Schemes

/-- How many checkpoints of an experiment are kept. -/
structure CheckpointStorageConfig where
  saveExperimentBest : ℤ
  saveTrialBest : ℤ
  saveTrialLatest : ℤ
  deriving DecidableEq, Repr

def CheckpointStorageConfig.validate (c : CheckpointStorageConfig) : List String :=
  check.greaterThanOrEqualTo c.saveExperimentBest 0 "save_experiment_best must be >= 0" ++
  check.greaterThanOrEqualTo c.saveTrialBest 0 "save_trial_best must be >= 0" ++
  check.greaterThanOrEqualTo c.saveTrialLatest 0 "save_trial_latest must be >= 0"

theorem CheckpointStorageConfig.validate_iff {c : CheckpointStorageConfig} : c.validate = [] ↔
    0 ≤ c.saveExperimentBest ∧ 0 ≤ c.saveTrialBest ∧ 0 ≤ c.saveTrialLatest := by
  simp only [validate, check.greaterThanOrEqualTo, List.append_eq_nil_iff, check_eq_nil,
    decide_eq_true_eq, and_assoc]

/-- The base storage path inside containers for shared storage. -/
def defaultSharedFSContainerPath : Path := "/determined_shared_fs".toList

/-- Storing on a shared filesystem. -/
structure SharedFSConfig where
  hostPath : Path
  storagePath : Option Path
  deriving DecidableEq, Repr

namespace SharedFSConfig

variable (s : SharedFSConfig)

def validate : List String :=
  if !s.hostPath.isAbs then ["host_path must be an absolute path"]
  else
    match s.storagePath with
    | none => []
    | some storagePath =>
      if storagePath.isAbs then
        check (s.hostPath.isPrefixOf storagePath.clean)
          "storage_path must either be a relative directory or a subdirectory of host_path"
      else
        check (s.hostPath.isPrefixOf (Path.join s.hostPath storagePath.clean))
          "storage_path must either be a relative directory or a subdirectory of host_path"

/-- Where the storage path will be inside the container; the error is a panic. -/
def pathInContainer : Except String Path :=
  match s.storagePath with
  | none => .ok defaultSharedFSContainerPath
  | some storagePath =>
    if storagePath.isAbs then
      match Path.relative s.hostPath storagePath with
      | none => .error "detected unvalidated sharedfs config"
      | some relPath => .ok (Path.join defaultSharedFSContainerPath relPath)
    else .ok (Path.join defaultSharedFSContainerPath storagePath)

end SharedFSConfig

end Determined.Model
