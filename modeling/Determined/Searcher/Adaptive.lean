import Mathlib.Data.List.Sort
import Determined.Searcher.AsyncHalving
import Determined.Searcher.Tournament

/-! The adaptive searches (`pkg/searcher/adaptive_asha.go`, `adaptive_simple.go`, the modes of
    `adaptive.go`): tournaments of halving searches, one for each bracket, among which the trials of
    the search are divided.

    Weights, powers and logarithms are exact. -/

namespace Determined.Searcher
open Determined.Model

variable {ι : Type}

/-! ### Brackets -/

/-- The numbers of rungs from one to another. -/
def rungsBetween (first last : ℤ) : List ℤ :=
  (List.range (last + 1 - first).toNat).map fun (i : ℕ) => first + i

/-- How many rungs the brackets have in a mode. -/
def parseAdaptiveMode (rawMode : AdaptiveMode) : Except Fault (ℤ → List ℤ) :=
  if rawMode = conservativeMode then .ok fun maxRungs => rungsBetween 1 maxRungs
  else if rawMode = standardMode then
    .ok fun maxRungs => rungsBetween ((maxRungs - 1).tdiv 2 + 1) maxRungs
  else if rawMode = aggressiveMode then .ok fun maxRungs => [maxRungs]
  else .error (.panic s!"unexpected adaptive mode: {rawMode}")

/-- Brackets that perform more early stopping come first. -/
def sortBrackets (brackets : List ℤ) : List ℤ := brackets.insertionSort (· ≥ ·)

/-- The logarithm of a number, rounded down. The divisor to the power of the last candidate exceeds
    the number, since `1 + k * (divisor - 1) ≤ divisor ^ k`. -/
def floorLog (divisor : ℚ) (n : ℤ) : ℤ :=
  Nat.findGreatest (fun k => divisor ^ k ≤ n) ⌈(n - 1) / (divisor - 1)⌉₊

/-! ### Dividing up trials -/

/-- About what it takes to train a trial of the bracket, inverted. -/
def bracketWeight (divisor : ℚ) (numRungs : ℤ) : ℚ := divisor ^ (numRungs - 1) / numRungs

/-- What a bracket is due of the trials. A bracket without rungs has an infinite weight: the others
    are due nothing, and its own share is not a number, which is not rounded to a positive one. -/
def bracketShare (maxTrials : ℤ) (divisor : ℚ) (brackets : List ℤ) (numRungs : ℤ) : ℚ :=
  if 0 ∈ brackets then 0
  else bracketWeight divisor numRungs / (brackets.map (bracketWeight divisor)).sum * maxTrials

/-- The trials that a bracket is given at first: its share rounded down, but one at least. -/
def allocated (maxTrials : ℤ) (divisor : ℚ) (brackets : List ℤ) : List ℤ :=
  brackets.map fun numRungs => max (toInt (bracketShare maxTrials divisor brackets numRungs)) 1

/-- Roughly equal budgets for the brackets; the first gets what remains. -/
def getBracketMaxTrials (maxTrials : ℤ) (divisor : ℚ) (brackets : List ℤ) :
    Except Fault (List ℤ) :=
  match allocated maxTrials divisor brackets with
  | [] => .error (.panic "index out of range")
  | first :: rest => .ok ((first + max (maxTrials - (first :: rest).sum) 0) :: rest)

/-- Split the limit evenly among the brackets and fill the remainder from the first one on. Without a
    limit, the trials of the last bracket are the limit for each. -/
def getBracketMaxConcurrentTrials (maxConcurrentTrials : ℤ) (divisor : ℚ) (maxTrials : List ℤ) :
    List ℤ :=
  let numBrackets := maxTrials.length
  if maxConcurrentTrials = 0 then
    List.replicate numBrackets (max (maxTrials.getLastD 0) (toInt divisor))
  else
    let maxConcurrentTrials := max maxConcurrentTrials numBrackets
    let minTrials := maxConcurrentTrials.tdiv numBrackets
    let remainder := maxConcurrentTrials.tmod numBrackets
    (List.range numBrackets).map fun (i : ℕ) => if i < remainder then minTrials + 1 else minTrials

/-- The bracket's part when the trials are divided evenly. -/
def maxTrials (maxTrials brackets index : ℤ) : ℤ :=
  if index < maxTrials.tmod brackets then maxTrials.tdiv brackets + 1 else maxTrials.tdiv brackets

/-! ### The searches -/

/-- The brackets of the search. By default, there are no more rungs than lengths, and no more than
    trials, of at least one when divided by the divisor from each rung to the next. -/
def ashaBrackets (config : AdaptiveASHAConfig) : Except Fault (List ℤ) := do
  let modeFunc ← parseAdaptiveMode config.mode
  if config.bracketRungs = [] then
    let maxRungs := min config.maxRungs (floorLog config.divisor config.maxLength.units + 1)
    return sortBrackets (modeFunc (min maxRungs (floorLog config.divisor config.maxTrials + 1)))
  else return sortBrackets config.bracketRungs

/-- The search of one bracket; a negative number of rungs is no capacity for a slice. -/
def newBracket [DecidableEq ι] (config : AdaptiveASHAConfig)
    (numRungs maxTrials maxConcurrentTrials : ℤ) :
    Except Fault (SubSearch (AsyncHalvingSearch ι) ι) :=
  if numRungs < 0 then .error (.panic "makeslice: cap out of range")
  else .ok ⟨asyncHalvingMethod, newAsyncHalvingSearch
    { metric := config.metric
      smallerIsBetter := config.smallerIsBetter
      numRungs := numRungs
      maxLength := config.maxLength
      maxTrials := maxTrials
      divisor := config.divisor
      maxConcurrentTrials := maxConcurrentTrials }⟩

def newAdaptiveASHASearch [DecidableEq ι] (config : AdaptiveASHAConfig) :
    Except Fault (TournamentSearch (AsyncHalvingSearch ι) ι) := do
  let brackets ← ashaBrackets config
  let bracketMaxTrials ← getBracketMaxTrials config.maxTrials config.divisor brackets
  let bracketMaxConcurrentTrials :=
    getBracketMaxConcurrentTrials config.maxConcurrentTrials config.divisor bracketMaxTrials
  let methods ← (brackets.zip (bracketMaxTrials.zip bracketMaxConcurrentTrials)).mapM fun b =>
    newBracket config b.1 b.2.1 b.2.2
  return newTournamentSearch methods

def newAdaptiveSimpleSearch [DecidableEq ι] (config : AdaptiveSimpleConfig) :
    Except Fault (TournamentSearch (SyncHalvingSearch ι) ι) := do
  let modeFunc ← parseAdaptiveMode config.mode
  let brackets := sortBrackets (modeFunc config.maxRungs)
  return newTournamentSearch (brackets.mapIdx fun i numRungs => ⟨syncHalvingMethod,
    newSyncHalvingSimpleSearch
      { metric := config.metric
        smallerIsBetter := config.smallerIsBetter
        numRungs := numRungs
        maxLength := config.maxLength
        budget := ⟨.records, 0⟩
        divisor := config.divisor }
      (max (maxTrials config.maxTrials brackets.length i) 1)⟩)

end Determined.Searcher
