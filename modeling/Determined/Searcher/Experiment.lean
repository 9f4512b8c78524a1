import Determined.Schemes.Run
import Determined.Searcher.SearchMethod

/-! An experiment as its searcher sees it (`internal/experiment.go`): the messages trials send, what
    the searcher makes of them (`SearchMethod.answer`), and how the operations it returns reach the
    trials (`processOperations`).

    A trial works on its operations in order, may exit early at any time, any number of times, until
    it has stopped, and stops once it has exited or is asked to close with nothing left to do
    (`expected`). Trials that repeat themselves or report what they were not asked for are covered by
    the weaker `alive`. An error of the searcher ends the run. -/

namespace Determined.Searcher
open Determined.Model Determined.Schemes

variable {ι σ : Type} [DecidableEq ι]

/-- A trial, from the request to create it on. -/
structure TrialState (ι : Type) where
  trialID : Option ℤ
  ops : List (Runnable ι)
  closing : Bool
  exits : List ExitedReason
  closed : Bool
  deriving DecidableEq, Repr

def newTrialState : TrialState ι := ⟨none, [], false, [], false⟩

/-- The trial does nothing any more. -/
def TrialState.gone (t : TrialState ι) : Bool := t.closed || !t.exits.isEmpty

/-- The requested trials, in order. -/
structure Trials (ι : Type) where
  requests : List (Create ι)
  trial : ι → TrialState ι

/-- What a trial, or its actor, tells the experiment. -/
inductive Message (ι : Type) where
  | trialCreated (create : Create ι) (trialID : ℤ)
  | trialCompletedOperation (op : Runnable ι) (metrics : OpMetrics)
  | trialCompletedWorkload (r : ι) (msg : CompletedMessage) (unitsCompleted : ℚ)
  | trialExitedEarly (r : ι) (reason : ExitedReason)
  | childStopped (r : ι)
  deriving DecidableEq, Repr

namespace Trials

variable (ts : Trials ι)

/-- Change one trial. -/
def modify (r : ι) (f : TrialState ι → TrialState ι) : Trials ι :=
  { ts with trial := Function.update ts.trial r (f (ts.trial r)) }

/-- What a message says about the trial that sends it. -/
def note : Message ι → Trials ι
  | .trialCreated create trialID =>
    ts.modify create.requestID fun t => { t with trialID := some trialID }
  | .trialCompletedOperation op _ =>
    ts.modify op.requestID fun t =>
      if t.ops.head? = some op then { t with ops := t.ops.tail } else t
  | .trialCompletedWorkload .. => ts
  | .trialExitedEarly r reason =>
    ts.modify r fun t => { t with exits := t.exits ++ [reason], ops := [] }
  | .childStopped r => ts.modify r fun t => { t with closed := true, ops := [] }

/-- Relay an operation to its trial. -/
def processOperation (ts : Trials ι) : Operation ι → Trials ι
  | .create create => { ts with requests := ts.requests ++ [create] }
  | .runnable op =>
    ts.modify op.requestID fun t => if t.gone then t else { t with ops := t.ops ++ [op] }
  | .close r => ts.modify r fun t => { t with closing := true }
  | .shutdown _ => ts

def processOperations (ops : List (Operation ι)) : Trials ι := ops.foldl processOperation ts

end Trials

/-- The experiment: its searcher and its trials. -/
structure Experiment (σ ι : Type) where
  searcher : Searcher σ ι
  trials : Trials ι

namespace Experiment

variable (m : SearchMethod σ ι) (e : Experiment σ ι)

/-- The trial of a request. -/
def trial (r : ι) : TrialState ι := e.trials.trial r

/-- Call the searcher; a trial is known to it by its trial id. -/
def call : Message ι → Except Fault (List (Operation ι) × Searcher σ ι)
  | .trialCreated create trialID => e.searcher.trialCreated m create trialID
  | .trialCompletedOperation op metrics =>
    e.searcher.operationCompleted m ((e.trial op.requestID).trialID.getD 0) op metrics
  | .trialCompletedWorkload _ msg unitsCompleted =>
    .ok ([], e.searcher.workloadCompleted msg unitsCompleted)
  | .trialExitedEarly r reason =>
    e.searcher.trialExitedEarly m ((e.trial r).trialID.getD 0) (some reason)
  | .childStopped r => e.searcher.trialClosed m r

/-- A trial is created once, under an id that is not in use, and sends messages from then on until it
    stops. -/
def alive : Message ι → Bool
  | .trialCreated create trialID =>
    decide (create ∈ e.trials.requests) && (e.trial create.requestID).trialID.isNone &&
      (e.searcher.eventLog.requestIDs.lookup trialID).isNone
  | .trialCompletedOperation op _ =>
    (e.trial op.requestID).trialID.isSome && !(e.trial op.requestID).closed
  | .trialCompletedWorkload r msg _ =>
    decide ((e.trial r).trialID = some msg.workload.trialID) && !(e.trial r).closed
  | .trialExitedEarly r _ | .childStopped r =>
    (e.trial r).trialID.isSome && !(e.trial r).closed

/-- Operations are completed in order by a trial that has not exited, and a trial stops when it has
    exited or has nothing left to do. -/
def expected : Message ι → Bool
  | .trialCompletedOperation op _ =>
    !(e.trial op.requestID).gone && decide ((e.trial op.requestID).ops.head? = some op)
  | .childStopped r =>
    !(e.trial r).exits.isEmpty || (e.trial r).closing && (e.trial r).ops.isEmpty
  | _ => true

/-- Handle a message; `none` if the trial cannot send it or the searcher fails. -/
def receive (ok : Experiment σ ι → Message ι → Bool) (e : Experiment σ ι) (msg : Message ι) :
    Option (Experiment σ ι) :=
  if e.alive msg && ok e msg then
    match e.call m msg with
    | .ok (ops, searcher) => some ⟨searcher, (e.trials.note msg).processOperations ops⟩
    | .error _ => none
  else none

/-- Start a search. -/
def start (rand : Rand ι) (method : σ) : Except Fault (Experiment σ ι) := do
  let (ops, searcher) ← (Searcher.newSearcher rand method).initialOperations m
  return ⟨searcher, (Trials.mk [] fun _ => newTrialState).processOperations ops⟩

/-- The steps of an experiment whose trials send the messages `ok`. -/
def Step (ok : Experiment σ ι → Message ι → Bool) (e : Experiment σ ι) (msg : Message ι)
    (f : Experiment σ ι) : Prop := receive m ok e msg = some f

end Experiment

end Determined.Searcher
