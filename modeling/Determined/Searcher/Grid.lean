import Determined.Model.Hyperparameters
import Determined.Searcher.Operations

/-! The grid search (`pkg/searcher/grid.go`). A grid of hyperparameter configs is built. Then, one
    trial is generated per point on the grid and trained for the specified length.

    The arithmetic of floats is exact; integers wrap around before they become floats. -/

namespace Determined.Searcher
open Determined.Model

/-- A value of a hyperparameter, from the configuration or computed. A power is not evaluated. -/
inductive SampleValue (α : Type) where
  | given (val : α)
  | int (val : ℤ)
  | double (val : ℚ)
  | pow (base exponent : ℚ)
  deriving DecidableEq

/-- The values of all hyperparameters, by name. -/
abbrev HparamSample (V : Type) := List (String × V)

/-- Set the value of a hyperparameter in a copy of a sample. -/
def HparamSample.insert {V : Type} (sample : HparamSample V) (name : String) (value : V) :
    HparamSample V :=
  (name, value) :: sample.filter fun entry => entry.1 ≠ name

/-- All combinations of the values of some hyperparameters. -/
def cartesianProduct {V : Type} : List (String × List V) → List (HparamSample V)
  | [] => []
  | [(name, values)] => values.map fun value => [(name, value)]
  | (name, left) :: right =>
    left.flatMap fun lValue =>
      (cartesianProduct right).map fun rValue => rValue.insert name lValue

/-- `math.Round`: the nearest integer, halves away from zero. -/
def mathRound (q : ℚ) : ℤ := if 0 ≤ q then ⌊q + 1 / 2⌋ else ⌈q - 1 / 2⌉

/-- `make` for so many values, each computed from its index; `none` is a panic. -/
def makeVals {V : Type} (count : Int64) (value : ℕ → V) : Option (List V) :=
  if 0 ≤ count then some ((List.range count.toInt.toNat).map value) else none

/-- The maximum number of integers in the range. -/
def clampCount (p : IntHyperparameter) (count : Int64) : Int64 :=
  min count (p.maxval - p.minval + 1)

def gridInt (p : IntHyperparameter) (count : Int64) (i : ℕ) : ℤ :=
  if count = 1 then mathRound (((p.minval + p.maxval).toInt : ℚ) / 2)
  else
    mathRound (p.minval.toInt +
      ((.ofNat i * (p.maxval - p.minval) : Int64).toInt : ℚ) / (count - 1).toInt)

/-- The point of an interval, evenly spaced. -/
def gridDouble (minval maxval : ℚ) (count : Int64) (i : ℕ) : ℚ :=
  if count = 1 then (minval + maxval) / 2
  else minval + i * (maxval - minval) / (count - 1).toInt

/-- The values of a hyperparameter on the grid; `none` is a panic. -/
def grid {α : Type} : Hyperparameter α → Option (List (SampleValue α))
  | .const val => some [.given val]
  | .int p => do
    let count := clampCount p (← p.count)
    makeVals count fun i => .int (gridInt p count i)
  | .double p => do
    let count ← p.count
    makeVals count fun i => .double (gridDouble p.minval p.maxval count i)
  | .log p => do
    let count ← p.count
    makeVals count fun i => .pow p.base (gridDouble p.minval p.maxval count i)
  | .categorical vals => some (vals.map .given)

def newHyperparameterGrid {α : Type} (params : Hyperparameters α) :
    Option (List (HparamSample (SampleValue α))) := do
  let axes ← params.each.mapM fun param => (grid param.2).map fun values => (param.1, values)
  return cartesianProduct axes

end Determined.Searcher
