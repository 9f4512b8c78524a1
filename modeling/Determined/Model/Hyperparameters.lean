import Determined.Model.SearcherConfig

/-! Hyperparameters and the part of an experiment's configuration that is validated against them
    (`pkg/model/hyperparameters_config.go`, `pkg/model/experiment_config.go`). Floats are exact
    rationals; integers have 64 bits and wrap around. -/

namespace Determined.Model

variable {α : Type}

/-! ### Hyperparameters -/

/-- An interval of ints. -/
structure IntHyperparameter where
  minval : Int64
  maxval : Int64
  count : Option Int64
  deriving DecidableEq

/-- An interval of float64s. -/
structure DoubleHyperparameter where
  minval : ℚ
  maxval : ℚ
  count : Option Int64
  deriving DecidableEq

/-- A log-uniformly distributed interval of float64s, from `base ^ minval` to `base ^ maxval`. -/
structure LogHyperparameter where
  minval : ℚ
  maxval : ℚ
  base : ℚ
  count : Option Int64
  deriving DecidableEq

/-- A sum type for hyperparameters, over the values that a configuration can give. -/
inductive Hyperparameter (α : Type) where
  | const (val : α)
  | int (p : IntHyperparameter)
  | double (p : DoubleHyperparameter)
  | log (p : LogHyperparameter)
  /-- A collection of values (levels) of the category. -/
  | categorical (vals : List α)
  deriving DecidableEq

/-- A check of a number that may be missing; then there is nothing to check. -/
def check.countPositive (count : Option Int64) : List String :=
  match count with
  | some count => check.greaterThan count 0 "count must be > 0"
  | none => []

def IntHyperparameter.validate (i : IntHyperparameter) : List String :=
  check.greaterThan i.maxval i.minval "minval is greater than maxval" ++
  check.countPositive i.count

def DoubleHyperparameter.validate (d : DoubleHyperparameter) : List String :=
  check.greaterThan d.maxval d.minval "minval is greater than maxval" ++
  check.countPositive d.count

def LogHyperparameter.validate (h : LogHyperparameter) : List String :=
  check.greaterThan h.maxval h.minval "minval is greater than maxval" ++
  check.greaterThan h.base 0 "base must be > 0" ++
  check.countPositive h.count

def Hyperparameter.validate : Hyperparameter α → List String
  | .const _ => []
  | .int p => p.validate
  | .double p => p.validate
  | .log p => p.validate
  | .categorical vals => check.greaterThan vals.length 0 "must have at least one category"

/-- A mapping from hyperparameter name to its configuration. -/
structure Hyperparameters (α : Type) where
  entries : List (String × Hyperparameter α)
  nodup : (entries.map Prod.fst).Nodup

/-- The hyperparameters in string order of the name. -/
def Hyperparameters.each (h : Hyperparameters α) : List (String × Hyperparameter α) :=
  h.entries.mergeSort fun x y => decide (x.1 ≤ y.1)

/-! ### Grid search -/

/-- The number of trials that a hyperparameter multiplies the grid by; `none` if a count is
    missing. -/
def Hyperparameter.mult : Hyperparameter α → Option Int64
  | .const _ => some 1
  | .int p => p.count.map fun count =>
    -- If the count is greater than the number of possible values, grid search will clamp it down.
    if count > p.maxval - p.minval then p.maxval - p.minval else count
  | .double p => p.count
  | .log p => p.count
  | .categorical vals => some (.ofNat vals.length)

/-- The number of trials of a grid search. -/
def gridTrials (h : Hyperparameters α) : Int64 :=
  h.each.foldl (fun gridTrials param => gridTrials * param.2.mult.getD 1) 1

/-- The hyperparameters that must specify counts. -/
def noCountParams (h : Hyperparameters α) : List String :=
  (h.each.filter fun param => param.2.mult.isNone).map Prod.fst

/-- What the validation of an experiment's configuration reads. -/
structure ExperimentConfig (α : Type) where
  hyperparameters : Hyperparameters α
  /-- The searcher is a grid search. -/
  gridConfig : Bool
  searcherUnit : LengthUnit
  minCheckpointPeriod : Length
  minValidationPeriod : Length
  recordsPerEpoch : Int64
  maxRestarts : Int64
  entrypoint : String
  /-- The configuration is a native submission. -/
  native : Bool

def ExperimentConfig.validate (e : ExperimentConfig α) : List String :=
  let trials := if e.gridConfig then gridTrials e.hyperparameters else 1
  let noCount := if e.gridConfig then noCountParams e.hyperparameters else []
  (if e.native then [] else
    check (e.entrypoint ≠ "") "Must specify an entrypoint that references the trial class.") ++
  (if e.searcherUnit = .epochs ∨ e.minCheckpointPeriod.unit = .epochs ∨
      e.minValidationPeriod.unit = .epochs then
    check.greaterThan e.recordsPerEpoch 0
      "Must specify records_per_epoch when any configuration is in terms of epochs"
    else []) ++
  check noCount.isEmpty ("these hyperparameters must specify counts for grid search: " ++
    ", ".intercalate noCount) ++
  check.lessThanOrEqualTo trials.toInt maxAllowedTrials
    "number of trials for grid search must be <= 2000" ++
  check.greaterThanOrEqualTo e.maxRestarts 0 "max_restarts must be >= 0"

end Determined.Model
