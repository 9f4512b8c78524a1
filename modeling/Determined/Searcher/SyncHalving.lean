import Determined.Searcher.Rung

/-! Synchronous successive halving (`pkg/searcher/sha.go`), with the variant that adaptive search
    starts with a given number of trials (`adaptive_simple.go`). A rung promotes its best trials as
    soon as no result to come can change which they are, and closes the others once all its trials
    have reported.

    Divisions and powers of the divisor are exact. A map that is only read and written is a function
    with the value of a missing entry; a set stands for a map to `true`. -/

namespace Determined.Searcher
open Determined.Model

variable {ι : Type} [DecidableEq ι]

/-- The state of the search. -/
structure SyncHalvingSearch (ι : Type) where
  config : SyncHalvingConfig
  rungs : List (Rung ι)
  trialRungs : ι → ℕ
  /-- Trials that exited early that are still considered in the search. -/
  earlyExitTrials : Finset ι
  trialsCompleted : ℤ
  expectedUnits : Length

/-! ### Building the rungs -/

/-- A rung that no trial has reported to. -/
def newRung (unitsNeeded : Length) (startTrials : ℤ) : Rung ι := ⟨unitsNeeded, [], startTrials, 0, 0⟩

/-- The units it takes to train the trials of the rungs, those that were promoted on top of what
    they have been trained for. -/
def expectedUnits : ℤ → List (Rung ι) → ℤ
  | _, [] => 0
  | prev, rung :: rungs =>
    (rung.unitsNeeded.units - prev) * rung.startTrials + expectedUnits rung.unitsNeeded.units rungs

/-- What a rung divides the maximum length by. -/
def compound (config : SyncHalvingConfig) (id : ℕ) : ℚ :=
  config.divisor ^ (config.numRungs.toNat - id - 1)

/-- The units a rung needs, before they are compared with the rung below. -/
def rungUnits (config : SyncHalvingConfig) (id : ℕ) : Length :=
  ⟨config.maxLength.unit, max (toInt (config.maxLength.units / compound config id)) 1⟩

/-- Scale the rungs to the budget. Each trains at least as long as the one before, and starts with
    as many trials as that one promotes: at most as many as it starts with, and at least one. -/
def scaleRungs (multiplier : ℚ) : Rung ι → List (Rung ι) → List (Rung ι)
  | prev, [] => [prev]
  | prev, cur :: rungs =>
    let unitsNeeded := max cur.unitsNeeded.units prev.unitsNeeded.units
    let startTrials := max (min (toInt (multiplier * cur.startTrials)) prev.startTrials) 1
    { prev with promoteTrials := startTrials } ::
      scaleRungs multiplier (newRung ⟨cur.unitsNeeded.unit, unitsNeeded⟩ startTrials) rungs

/-- The rungs of the search: as many trials as the budget allows, divided by the divisor from each
    rung to the next. -/
def newSyncHalvingSearch (config : SyncHalvingConfig) : SyncHalvingSearch ι :=
  let unscaled : List (Rung ι) := (List.range config.numRungs.toNat).map fun id =>
    newRung (rungUnits config id) (max (toInt (compound config id)) 1)
  let multiplier := (config.budget.units : ℚ) / expectedUnits 0 unscaled
  let rungs := match unscaled with
    | [] => []
    | first :: rest =>
      scaleRungs multiplier
        { first with startTrials := toInt (multiplier * first.startTrials) } rest
  { config := config
    rungs := rungs
    trialRungs := fun _ => 0
    earlyExitTrials := ∅
    trialsCompleted := 0
    expectedUnits := ⟨config.maxLength.unit, expectedUnits 0 rungs⟩ }

/-- Let each rung train at least as long as the one before, and promote what the next starts with. -/
def linkRungs : Rung ι → List (Rung ι) → List (Rung ι)
  | prev, [] => [prev]
  | prev, cur :: rungs =>
    let unitsNeeded := max cur.unitsNeeded.units prev.unitsNeeded.units
    let startTrials := max cur.startTrials prev.promoteTrials
    { prev with promoteTrials := startTrials } ::
      linkRungs (newRung ⟨cur.unitsNeeded.unit, unitsNeeded⟩ startTrials) rungs

/-- The search that starts with so many trials. -/
def newSyncHalvingSimpleSearch (config : SyncHalvingConfig) (trials : ℤ) : SyncHalvingSearch ι :=
  let unlinked : List (Rung ι) := (List.range config.numRungs.toNat).map fun id =>
    newRung (rungUnits config id) (max (toInt (trials / config.divisor ^ id)) 1)
  let rungs := match unlinked with
    | [] => []
    | first :: rest => linkRungs first rest
  let expected : Length := ⟨config.maxLength.unit, expectedUnits 0 rungs⟩
  { config := { config with budget := expected }
    rungs := rungs
    trialRungs := fun _ => 0
    earlyExitTrials := ∅
    trialsCompleted := 0
    expectedUnits := expected }

/-! ### Promotions -/

/-- Bookkeeping of validation metrics; returns a trial to promote if appropriate. -/
def Rung.promotionsSync (rung : Rung ι) (r : ι) (metric : ℚ) : Rung ι × Option ι :=
  let insertIndex := rung.insertIndex metric
  let metrics := rung.metrics.insertIdx insertIndex ⟨r, metric, false⟩
  let currPromote := metrics.length + rung.promoteTrials - rung.startTrials
  ({ rung with metrics := metrics },
    if currPromote ≤ 0 then none
    else if insertIndex < currPromote then some r
    else (metrics[(currPromote - 1).toNat]?).map (·.requestID))

namespace SyncHalvingSearch

variable (s : SyncHalvingSearch ι)

def rung (i : ℕ) : Rung ι := s.rungs.getD i default

/-- The rung with this index is the top one. -/
def isTop (i : ℕ) : Bool := decide ((i : ℤ) = s.config.numRungs - 1)

/-- Create so many trials in the bottom rung. -/
def createTrials : ℕ → Rand ι → List (Operation ι) × Rand ι
  | 0, rand => ([], rand)
  | n + 1, rand =>
    let create := newCreate rand
    let rest := createTrials n create.2
    (.create create.1 :: newTrain create.1.requestID (s.rung 0).unitsNeeded ::
      newValidate create.1.requestID :: rest.1, rest.2)

def initialOperations (rand : Rand ι) : Except Fault (Outcome (SyncHalvingSearch ι) ι) :=
  match s.rungs with
  | [] => .error (.panic "index out of range")
  | bottom :: _ =>
    let created := s.createTrials bottom.startTrials.toNat rand
    .ok ⟨created.1, s, created.2⟩

/-- Record a trial's metric in its rung, and send the promoted trial to the next. -/
def recordMetric (r : ι) (metric : ℚ) : SyncHalvingSearch ι × Option ι :=
  let rungIndex := s.trialRungs r
  let promotions := (s.rung rungIndex).promotionsSync r metric
  let s := { s with rungs := s.rungs.set rungIndex promotions.1 }
  match promotions.2 with
  | none => (s, none)
  | some promotionID =>
    ({ s with trialRungs := Function.update s.trialRungs promotionID (rungIndex + 1) },
      some promotionID)

/-- Close the unpromoted trials in the rung once all trials in the rung finish. -/
def closeLosers (rungIndex : ℕ) (ops : List (Operation ι)) :
    Except Fault (List (Operation ι) × SyncHalvingSearch ι) :=
  let rung := s.rung rungIndex
  let trials := rung.metrics.length
  if rung.startTrials < trials then
    .error (.error
      s!"number of trials exceeded initial trials for rung: {rung.startTrials} < {trials}")
  else if trials = rung.startTrials then
    let losers := rung.metrics.drop rung.promoteTrials.toNat
    .ok (ops ++ (losers.filter fun tm => tm.requestID ∉ s.earlyExitTrials).map
        fun tm => .close tm.requestID,
      { s with trialsCompleted := s.trialsCompleted + losers.length })
  else .ok (ops, s)

/-- Promotions after a metric of a trial. A promoted trial that has exited is treated as if it
    completed the next rung with the worst possible result; the rung goes up by one each time. -/
def promoteWithin : ℕ → SyncHalvingSearch ι → ι → ℚ →
    Except Fault (List (Operation ι) × SyncHalvingSearch ι)
  | rungsLeft, s, r, metric =>
    let rungIndex := s.trialRungs r
    if s.isTop rungIndex then
      -- a trial that completed the top rung is closed
      .ok (if r ∈ s.earlyExitTrials then [] else [.close r],
        { s with trialsCompleted := s.trialsCompleted + 1 })
    else
      let recorded := s.recordMetric r metric
      match recorded.2 with
      | none => .ok ([], recorded.1)
      | some promotionID =>
        if promotionID ∉ s.earlyExitTrials then
          let unitsNeeded := max ((s.rung (rungIndex + 1)).unitsNeeded.units -
            (s.rung rungIndex).unitsNeeded.units) 1
          recorded.1.closeLosers rungIndex
            [newTrain promotionID ⟨s.config.maxLength.unit, unitsNeeded⟩, newValidate promotionID]
        else match rungsLeft with
          | 0 => .ok ([], recorded.1)
          | rungsLeft + 1 => promoteWithin rungsLeft recorded.1 promotionID exitedMetricValue

def promoteSync (rand : Rand ι) (r : ι) (metric : ℚ) :
    Except Fault (Outcome (SyncHalvingSearch ι) ι) := do
  let (ops, s) ← promoteWithin s.rungs.length s r metric
  return ⟨ops, s, rand⟩

def validationCompleted (rand : Rand ι) (r : ι) (metrics : ValidationMetrics) :
    Except Fault (Outcome (SyncHalvingSearch ι) ι) := do
  let metric ← extractMetric s.config.metric s.config.smallerIsBetter metrics
  s.promoteSync rand r metric

def trialExitedEarly (rand : Rand ι) (r : ι) : Except Fault (Outcome (SyncHalvingSearch ι) ι) :=
  { s with earlyExitTrials := insert r s.earlyExitTrials }.promoteSync rand r exitedMetricValue

end SyncHalvingSearch

/-- The callbacks of the search. -/
def syncHalvingMethod : SearchMethod (SyncHalvingSearch ι) ι :=
  { defaultSearchMethod SyncHalvingSearch.initialOperations with
    validationCompleted := fun s rand r _ metrics => s.validationCompleted rand r metrics
    trialExitedEarly := fun s rand r _ => s.trialExitedEarly rand r }

end Determined.Searcher
