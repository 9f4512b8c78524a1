import Determined.Model.Length

/-! Searcher configurations and what their validation checks (`pkg/model/searcher_config.go`,
    `pkg/check`). Floats are exact rationals. Of a failing check the caller's message is kept, without
    the values that the check appends. -/

namespace Determined.Model

/-! ### Checks -/

def check (condition : Bool) (msg : String) : List String := if condition then [] else [msg]

def check.greaterThan {α : Type} [LT α] [DecidableLT α] (actual expected : α) (msg : String) :
    List String := check (decide (expected < actual)) msg

def check.greaterThanOrEqualTo {α : Type} [LE α] [DecidableLE α] (actual expected : α)
    (msg : String) : List String := check (decide (expected ≤ actual)) msg

def check.lessThanOrEqualTo {α : Type} [LE α] [DecidableLE α] (actual expected : α) (msg : String) :
    List String := check (decide (actual ≤ expected)) msg

def check.isIn (actual : String) (expected : List String) (msg : String) : List String :=
  check (decide (actual ∈ expected)) msg

@[simp] theorem check_eq_nil {condition : Bool} {msg : String} :
    check condition msg = [] ↔ condition = true := by
  unfold check
  split <;> simp_all

/-! ### Halving searches -/

/-- Synchronous successive halving. -/
structure SyncHalvingConfig where
  metric : String
  smallerIsBetter : Bool
  numRungs : ℤ
  maxLength : Length
  budget : Length
  divisor : ℚ
  deriving DecidableEq, Repr

/-- Asynchronous successive halving. -/
structure AsyncHalvingConfig where
  metric : String
  smallerIsBetter : Bool
  numRungs : ℤ
  maxLength : Length
  maxTrials : ℤ
  divisor : ℚ
  maxConcurrentTrials : ℤ
  deriving DecidableEq, Repr

def AsyncHalvingConfig.validate (a : AsyncHalvingConfig) : List String :=
  check.greaterThan a.maxLength.units 0 "max_length must be > 0" ++
  check.greaterThan a.maxTrials 0 "max_trials must be > 0" ++
  check.greaterThan a.divisor 1 "divisor must be > 1.0" ++
  check.greaterThan a.numRungs 0 "num_rungs must be > 0" ++
  check.greaterThanOrEqualTo a.maxConcurrentTrials 0 "max_concurrent_trials must be >= 0"

theorem AsyncHalvingConfig.validate_iff {a : AsyncHalvingConfig} : a.validate = [] ↔
    0 < a.maxLength.units ∧ 0 < a.maxTrials ∧ 1 < a.divisor ∧ 0 < a.numRungs ∧
      0 ≤ a.maxConcurrentTrials := by
  simp only [validate, check.greaterThan, check.greaterThanOrEqualTo, List.append_eq_nil_iff,
    check_eq_nil, decide_eq_true_eq, and_assoc]

/-! ### Adaptive searches -/

/-- How aggressively to perform early stopping; any text until it has been validated. -/
abbrev AdaptiveMode := String

def aggressiveMode : AdaptiveMode := "aggressive"

def standardMode : AdaptiveMode := "standard"

def conservativeMode : AdaptiveMode := "conservative"

def maxAllowedTrials : ℤ := 2000

/-- A simplified adaptive search. -/
structure AdaptiveSimpleConfig where
  metric : String
  smallerIsBetter : Bool
  maxLength : Length
  maxTrials : ℤ
  divisor : ℚ
  mode : AdaptiveMode
  maxRungs : ℤ
  deriving DecidableEq, Repr

def AdaptiveSimpleConfig.validate (a : AdaptiveSimpleConfig) : List String :=
  check.greaterThan a.maxLength.units 0 "max_length must be > 0" ++
  check.greaterThan a.maxTrials 0 "max_trials must be > 0" ++
  check.lessThanOrEqualTo a.maxTrials maxAllowedTrials "max_trials must be <= 2000" ++
  check.greaterThan a.divisor 1 "divisor must be > 1.0" ++
  check.isIn a.mode [aggressiveMode, standardMode, conservativeMode] "invalid adaptive mode" ++
  check.greaterThan a.maxRungs 0 "max_rungs must be > 0"

theorem AdaptiveSimpleConfig.validate_iff {a : AdaptiveSimpleConfig} : a.validate = [] ↔
    0 < a.maxLength.units ∧ 0 < a.maxTrials ∧ a.maxTrials ≤ maxAllowedTrials ∧ 1 < a.divisor ∧
      a.mode ∈ [aggressiveMode, standardMode, conservativeMode] ∧ 0 < a.maxRungs := by
  simp only [validate, check.greaterThan, check.lessThanOrEqualTo, check.isIn,
    List.append_eq_nil_iff, check_eq_nil, decide_eq_true_eq, and_assoc]

/-- An adaptive searcher for use with asynchronous halving. -/
structure AdaptiveASHAConfig where
  metric : String
  smallerIsBetter : Bool
  maxLength : Length
  maxTrials : ℤ
  bracketRungs : List ℤ
  divisor : ℚ
  mode : AdaptiveMode
  maxRungs : ℤ
  maxConcurrentTrials : ℤ
  deriving DecidableEq, Repr

def AdaptiveASHAConfig.validate (a : AdaptiveASHAConfig) : List String :=
  check.greaterThan a.maxLength.units 0 "max_length must be > 0" ++
  check.greaterThan a.maxTrials 0 "max_trials must be > 0" ++
  check.greaterThan a.divisor 1 "divisor must be > 1.0" ++
  check.isIn a.mode [aggressiveMode, standardMode, conservativeMode] "invalid adaptive mode" ++
  check.greaterThan a.maxRungs 0 "max_rungs must be > 0" ++
  check.greaterThanOrEqualTo a.maxConcurrentTrials 0 "max_concurrent_trials must be >= 0"

theorem AdaptiveASHAConfig.validate_iff {a : AdaptiveASHAConfig} : a.validate = [] ↔
    0 < a.maxLength.units ∧ 0 < a.maxTrials ∧ 1 < a.divisor ∧
      a.mode ∈ [aggressiveMode, standardMode, conservativeMode] ∧ 0 < a.maxRungs ∧
      0 ≤ a.maxConcurrentTrials := by
  simp only [validate, check.greaterThan, check.greaterThanOrEqualTo, check.isIn,
    List.append_eq_nil_iff, check_eq_nil, decide_eq_true_eq, and_assoc]

end Determined.Model
