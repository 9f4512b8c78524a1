import Determined.Searcher.Rung

/-! Asynchronous successive halving (`pkg/searcher/asha.go`). The experiment runs until the target
    number of trials has been completed in the bottom rung and no further promotions can be made to
    higher rungs.

    Divisions and powers of the divisor are exact; converting to an integer takes the floor, the
    numbers converted being nonnegative. The ids of the trials to promote are at most one. -/

namespace Determined.Searcher
open Determined.Model

variable {ι : Type} [DecidableEq ι]

/-- The state of the search; a set stands for a map to `true`. -/
structure AsyncHalvingSearch (ι : Type) where
  config : AsyncHalvingConfig
  rungs : List (Rung ι)
  trialRungs : AList fun _ : ι => ℕ
  /-- Trials that exited early that are still considered in the search. -/
  earlyExitTrials : Finset ι
  closedTrials : Finset ι
  maxTrials : ℤ
  trialsCompleted : ℤ
  invalidTrials : ℤ

/-- The rungs of the search: the maximum length, divided by the downsampling rate of each rung. -/
def newAsyncHalvingSearch (config : AsyncHalvingConfig) : AsyncHalvingSearch ι where
  config := config
  rungs := (List.range config.numRungs.toNat).map fun id =>
    let downsamplingRate := config.divisor ^ (config.numRungs.toNat - id - 1)
    let unitsNeeded := max ⌊config.maxLength.units / downsamplingRate⌋ 1
    ⟨⟨config.maxLength.unit, unitsNeeded⟩, [], 0, 0, 0⟩
  trialRungs := ∅
  earlyExitTrials := ∅
  closedTrials := ∅
  maxTrials := config.maxTrials
  trialsCompleted := 0
  invalidTrials := 0

/-- How many of so many trials should definitely have been promoted. -/
def numPromote (divisor : ℚ) (trials : ℕ) : ℕ := ⌊trials / divisor⌋₊

/-- Bookkeeping of a validation metric; returns a trial to promote if appropriate. -/
def Rung.promotionsAsync (rung : Rung ι) (r : ι) (metric : ℚ) (divisor : ℚ) : Rung ι × Option ι :=
  let oldNumPromote := numPromote divisor rung.metrics.length
  let newNumPromote := numPromote divisor (rung.metrics.length + 1)
  let insertIndex := rung.insertIndex metric
  let promoteNow := decide (insertIndex < newNumPromote)
  let metrics := rung.metrics.insertIdx insertIndex ⟨r, metric, promoteNow⟩
  if promoteNow then ({ rung with metrics := metrics }, some r)
  else
    -- if one more trial should have been promoted, it is some other one
    match metrics[oldNumPromote]? with
    | some t =>
      if newNumPromote ≠ oldNumPromote ∧ t.promoted = false then
        ({ rung with metrics := metrics.set oldNumPromote { t with promoted := true } },
          some t.requestID)
      else ({ rung with metrics := metrics }, none)
    | none => ({ rung with metrics := metrics }, none)

namespace AsyncHalvingSearch

variable (s : AsyncHalvingSearch ι)

/-- The rung of a trial; a missing entry of the map reads as zero. -/
def rungOf (r : ι) : ℕ := (s.trialRungs.lookup r).getD 0

def rung (i : ℕ) : Rung ι := s.rungs.getD i default

/-- The rung with this index is the top one. -/
def isTop (i : ℕ) : Bool := decide ((i : ℤ) = s.config.numRungs - 1)

def modifyRung (i : ℕ) (f : Rung ι → Rung ι) : AsyncHalvingSearch ι :=
  { s with rungs := s.rungs.modify i f }

/-- Create a new trial in the bottom rung. -/
def createTrial (rand : Rand ι) : Outcome (AsyncHalvingSearch ι) ι :=
  let create := newCreate rand
  { ops := [.create create.1, newTrain create.1.requestID (s.rung 0).unitsNeeded,
      newValidate create.1.requestID]
    method := { s with trialRungs := s.trialRungs.insert create.1.requestID 0 }
    rand := create.2 }

/-- Create so many trials. -/
def createTrials : ℕ → AsyncHalvingSearch ι → Rand ι → Outcome (AsyncHalvingSearch ι) ι
  | 0, s, rand => ⟨[], s, rand⟩
  | n + 1, s, rand =>
    let out := s.createTrial rand
    let rest := createTrials n out.method out.rand
    { rest with ops := out.ops ++ rest.ops }

/-- The number of trials to start with: by default as many as guarantee one at the top rung. -/
def maxConcurrentTrials : ℤ :=
  if s.config.maxConcurrentTrials > 0 then min s.config.maxConcurrentTrials s.config.maxTrials
  else max (min ⌊s.config.divisor ^ (s.config.numRungs - 1).toNat⌋ s.config.maxTrials) 1

def initialOperations (rand : Rand ι) : Except Fault (Outcome (AsyncHalvingSearch ι) ι) :=
  .ok (createTrials s.maxConcurrentTrials.toNat s rand)

def trialCreated (rand : Rand ι) (r : ι) : Except Fault (Outcome (AsyncHalvingSearch ι) ι) :=
  let s := s.modifyRung 0 fun rung =>
    { rung with outstandingTrials := rung.outstandingTrials + 1 }
  .ok ⟨[], { s with trialRungs := s.trialRungs.insert r 0 }, rand⟩

def trialClosed (rand : Rand ι) (r : ι) : Except Fault (Outcome (AsyncHalvingSearch ι) ι) :=
  .ok ⟨[], { s with
    trialsCompleted := s.trialsCompleted + 1
    closedTrials := insert r s.closedTrials }, rand⟩

/-- Close a trial that was not promoted, unless that has been done or it has exited. -/
def closeOut (acc : List (Operation ι) × Finset ι) (tm : TrialMetric ι) :
    List (Operation ι) × Finset ι :=
  if tm.promoted = false ∧ tm.requestID ∉ acc.2 ∧ tm.requestID ∉ s.earlyExitTrials then
    (acc.1 ++ [.close tm.requestID], insert tm.requestID acc.2)
  else acc

/-- Close all remaining unpromoted trials in the rungs below the first with outstanding trials. -/
def closeOutRungs : List (Operation ι) × AsyncHalvingSearch ι :=
  let open' := s.rungs.takeWhile fun rung => decide (rung.outstandingTrials ≤ 0)
  let acc := (open'.flatMap (·.metrics)).foldl s.closeOut ([], s.closedTrials)
  (acc.1, { s with closedTrials := acc.2 })

/-- Create another trial if none was given more to train, and close out trials once the maximum
    number has completed the bottom rung. -/
def finishPromotion (rand : Rand ι) (ops : List (Operation ι)) (addedTrainWorkload : Bool) :
    Outcome (AsyncHalvingSearch ι) ι :=
  let allTrials := s.trialRungs.keys.length - s.invalidTrials
  let out :=
    if addedTrainWorkload = false ∧ allTrials < s.maxTrials then s.createTrial rand
    else ⟨[], s, rand⟩
  if ((out.method.rung 0).metrics.length : ℤ) = out.method.maxTrials then
    let closed := out.method.closeOutRungs
    ⟨ops ++ out.ops ++ closed.1, closed.2, out.rand⟩
  else ⟨ops ++ out.ops, out.method, out.rand⟩

/-- Send a trial to a rung. -/
def sendTo (rungIndex : ℕ) (r : ι) : AsyncHalvingSearch ι :=
  let s := { s with trialRungs := s.trialRungs.insert r rungIndex }
  s.modifyRung rungIndex fun rung => { rung with outstandingTrials := rung.outstandingTrials + 1 }

/-- Record a trial's metric in its rung; below the top rung, this may promote a trial to the next. -/
def recordMetric (r : ι) (metric : ℚ) : AsyncHalvingSearch ι × Option ι :=
  let rungIndex := s.rungOf r
  let s := s.modifyRung rungIndex fun rung =>
    { rung with outstandingTrials := rung.outstandingTrials - 1 }
  if s.isTop rungIndex then
    (s.modifyRung rungIndex fun rung =>
      { rung with metrics := rung.metrics ++ [⟨r, metric, false⟩] }, none)
  else
    let promotions := (s.rung rungIndex).promotionsAsync r metric s.config.divisor
    let s := s.modifyRung rungIndex fun _ => promotions.1
    match promotions.2 with
    | none => (s, none)
    | some promotionID => (s.sendTo (rungIndex + 1) promotionID, some promotionID)

/-- Promotions after a metric of a trial. A promoted trial that has exited is treated as if it
    completed the next rung with the worst possible result; the rung goes up by one each time. -/
def promoteWithin : ℕ → AsyncHalvingSearch ι → Rand ι → ι → ℚ → Outcome (AsyncHalvingSearch ι) ι
  | rungsLeft, s, rand, r, metric =>
    let rungIndex := s.rungOf r
    let recorded := s.recordMetric r metric
    let s := recorded.1
    match recorded.2 with
    | none =>
      -- a trial that completed the top rung is closed
      if s.isTop rungIndex ∧ r ∉ s.earlyExitTrials then
        let s := { s with closedTrials := insert r s.closedTrials }
        s.finishPromotion rand [.close r] false
      else s.finishPromotion rand [] false
    | some promotionID =>
      if promotionID ∉ s.earlyExitTrials then
        let unitsNeeded := max ((s.rung (rungIndex + 1)).unitsNeeded.units -
          (s.rung rungIndex).unitsNeeded.units) 1
        s.finishPromotion rand [newTrain promotionID ⟨s.config.maxLength.unit, unitsNeeded⟩,
          newValidate promotionID] true
      else match rungsLeft with
        | 0 => ⟨[], s, rand⟩
        | rungsLeft + 1 => promoteWithin rungsLeft s rand promotionID exitedMetricValue

def promoteAsync (rand : Rand ι) (r : ι) (metric : ℚ) : Outcome (AsyncHalvingSearch ι) ι :=
  promoteWithin s.rungs.length s rand r metric

def validationCompleted (rand : Rand ι) (r : ι) (metrics : ValidationMetrics) :
    Except Fault (Outcome (AsyncHalvingSearch ι) ι) := do
  let metric ← extractMetric s.config.metric s.config.smallerIsBetter metrics
  return s.promoteAsync rand r metric

/-- Remove a trial's metric, if it is the first. -/
def dropFirst (r : ι) (metrics : List (TrialMetric ι)) : List (TrialMetric ι) :=
  match metrics with
  | tm :: rest => if tm.requestID = r then rest else tm :: rest
  | [] => []

/-- A trial with invalid hyperparameters is closed and replaced; one that exited for another reason
    gets the worst possible metric. -/
def trialExitedEarly (rand : Rand ι) (r : ι) (reason : ExitedReason) :
    Except Fault (Outcome (AsyncHalvingSearch ι) ι) :=
  let s := { s with
    earlyExitTrials := insert r s.earlyExitTrials
    closedTrials := insert r s.closedTrials }
  if reason = .invalidHP then
    let s := { s with
      invalidTrials := s.invalidTrials + 1
      rungs := s.rungs.mapIdx fun i (rung : Rung ι) =>
        if i ≤ s.rungOf r then { rung with metrics := dropFirst r rung.metrics } else rung }
    let out := s.createTrial rand
    .ok { out with ops := .close r :: out.ops }
  else .ok (s.promoteAsync rand r exitedMetricValue)

end AsyncHalvingSearch

/-- The callbacks of the search. -/
def asyncHalvingMethod : SearchMethod (AsyncHalvingSearch ι) ι :=
  { defaultSearchMethod AsyncHalvingSearch.initialOperations with
    trialCreated := AsyncHalvingSearch.trialCreated
    validationCompleted := fun s rand r _ metrics => s.validationCompleted rand r metrics
    trialClosed := AsyncHalvingSearch.trialClosed
    trialExitedEarly := AsyncHalvingSearch.trialExitedEarly }

end Determined.Searcher
