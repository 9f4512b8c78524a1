import Mathlib.Data.List.AList
import Determined.Searcher.Operations

/-! The searcher (`pkg/searcher/searcher.go`), its event log (`event_log.go`) and the interface of the
    search methods (`search_method.go`).

    A search method is a record of callbacks on its state. What a callback that fails leaves behind
    is not modelled: the experiment stops on an error. Hyperparameters and progress are not modelled
    either, and error texts are without the request ids. A Go map whose keys are counted or looked up
    is an `AList`, one that is only read is a function. -/

set_option linter.dupNamespace false

namespace Determined.Searcher
open Determined.Model

variable {ι σ : Type}

/-- What a callback returns: the operations, and the search method and random state it leaves. -/
structure Outcome (σ ι : Type) where
  ops : List (Operation ι)
  method : σ
  rand : Rand ι

/-- The interface for hyper-parameter tuning methods. -/
structure SearchMethod (σ ι : Type) where
  initialOperations : σ → Rand ι → Except Fault (Outcome σ ι)
  trialCreated : σ → Rand ι → ι → Except Fault (Outcome σ ι)
  trainCompleted : σ → Rand ι → ι → Runnable ι → Except Fault (Outcome σ ι)
  checkpointCompleted : σ → Rand ι → ι → Runnable ι → CheckpointMetrics → Except Fault (Outcome σ ι)
  validationCompleted : σ → Rand ι → ι → Runnable ι → ValidationMetrics → Except Fault (Outcome σ ι)
  trialClosed : σ → Rand ι → ι → Except Fault (Outcome σ ι)
  trialExitedEarly : σ → Rand ι → ι → ExitedReason → Except Fault (Outcome σ ι)

/-- Relay a completed operation. Metrics of another kind than the operation's, or none, are a failing
    type assertion or a nil pointer. -/
def SearchMethod.operationCompleted (m : SearchMethod σ ι) (s : σ) (rand : Rand ι) (r : ι)
    (op : Runnable ι) (metrics : OpMetrics) : Except Fault (Outcome σ ι) :=
  match op, metrics with
  | .train .., _ => m.trainCompleted s rand r op
  | .checkpoint _, .checkpoint metrics => m.checkpointCompleted s rand r op metrics
  | .checkpoint _, _ => .error (.panic "interface conversion: not checkpoint metrics")
  | .validate _, .validation (some metrics) => m.validationCompleted s rand r op metrics
  | .validate _, .validation none => .error (.panic "nil pointer dereference")
  | .validate _, _ => .error (.panic "interface conversion: not validation metrics")

/-- A callback that does nothing. -/
def ignore (s : σ) (rand : Rand ι) : Except Fault (Outcome σ ι) := .ok ⟨[], s, rand⟩

/-- The callbacks of a search method that does not define its own. -/
def defaultSearchMethod (initialOperations : σ → Rand ι → Except Fault (Outcome σ ι)) :
    SearchMethod σ ι where
  initialOperations := initialOperations
  trialCreated s rand _ := ignore s rand
  trainCompleted s rand _ _ := ignore s rand
  checkpointCompleted s rand _ _ _ := ignore s rand
  validationCompleted s rand _ _ _ := ignore s rand
  trialClosed s rand _ := ignore s rand
  trialExitedEarly s rand _ _ := .ok ⟨[.shutdown true], s, rand⟩

/-! ### The event log -/

/-- The searcher events stored by the event log. -/
inductive Event (ι : Type) where
  | trialCreated (create : Create ι) (trialID : ℤ)
  | workloadCompleted (msg : CompletedMessage)
  | trialClosed (requestID : ι)
  deriving DecidableEq, Repr

/-- All actions coming to and from a searcher. -/
structure EventLog (ι : Type) where
  uncommitted : List (Event ι)
  unitsCompletedByTrial : ι → ℚ
  earlyExits : Finset ι
  totalUnitsCompleted : ℚ
  shutdown : Bool
  trialsRequested : ℕ
  trialsClosed : ℕ
  trialIDs : AList fun _ : ι => ℤ
  requestIDs : AList fun _ : ℤ => ι

/-- An empty event log. -/
def newEventLog : EventLog ι := ⟨[], fun _ => 0, ∅, 0, false, 0, 0, ∅, ∅⟩

namespace EventLog

variable [DecidableEq ι] (el : EventLog ι)

def operationCreated (el : EventLog ι) : Operation ι → EventLog ι
  | .create _ => { el with trialsRequested := el.trialsRequested + 1 }
  | .shutdown _ => { el with shutdown := true }
  | .runnable _ | .close _ => el

/-- Record that the operations have been created by the searcher. -/
def operationsCreated (ops : List (Operation ι)) : EventLog ι := ops.foldl operationCreated el

/-- Record that a trial has been created with the specified request id. -/
def trialCreated (create : Create ι) (trialID : ℤ) : EventLog ι :=
  { el with
    uncommitted := el.uncommitted ++ [.trialCreated create trialID]
    trialIDs := el.trialIDs.insert create.requestID trialID
    requestIDs := el.requestIDs.insert trialID create.requestID
    unitsCompletedByTrial := Function.update el.unitsCompletedByTrial create.requestID 0 }

/-- Mark the trial as exited early. -/
def trialExitedEarly (r : ι) (reason : ExitedReason) : EventLog ι :=
  { el with
    totalUnitsCompleted :=
      if reason = .invalidHP then el.totalUnitsCompleted - el.unitsCompletedByTrial r
      else el.totalUnitsCompleted
    earlyExits := insert r el.earlyExits }

/-- Record that a workload has been completed, for the trial it belongs to if that is known. -/
def workloadCompleted (msg : CompletedMessage) (unitsCompleted : ℚ) : EventLog ι :=
  { el with
    totalUnitsCompleted := el.totalUnitsCompleted + unitsCompleted
    unitsCompletedByTrial := match el.requestIDs.lookup msg.workload.trialID with
      | some r => Function.update el.unitsCompletedByTrial r
          (el.unitsCompletedByTrial r + unitsCompleted)
      | none => el.unitsCompletedByTrial
    uncommitted := el.uncommitted ++ [.workloadCompleted msg] }

/-- Record that a trial has been closed. -/
def trialClosed (r : ι) : EventLog ι :=
  { el with
    unitsCompletedByTrial := Function.update el.unitsCompletedByTrial r 0
    uncommitted := el.uncommitted ++ [.trialClosed r]
    trialsClosed := el.trialsClosed + 1 }

end EventLog

/-! ### The searcher -/

/-- The state as the searcher progresses using a search method. -/
structure Searcher (σ ι : Type) where
  rand : Rand ι
  method : σ
  eventLog : EventLog ι

namespace Searcher

variable [DecidableEq ι] (m : SearchMethod σ ι) (s : Searcher σ ι)

def newSearcher (rand : Rand ι) (method : σ) : Searcher σ ι := ⟨rand, method, newEventLog⟩

/-- Record the operations a callback returned. -/
def record (el : EventLog ι) (out : Outcome σ ι) : List (Operation ι) × Searcher σ ι :=
  (out.ops, ⟨out.rand, out.method, el.operationsCreated out.ops⟩)

/-- The operations the searcher would like to take initially. -/
def initialOperations : Except Fault (List (Operation ι) × Searcher σ ι) := do
  let out ← wrap "error while fetching initial operations of search method"
    (m.initialOperations s.method s.rand)
  return record s.eventLog out

/-- A trial has been created as a result of a `Create` operation. -/
def trialCreated (create : Create ι) (trialID : ℤ) :
    Except Fault (List (Operation ι) × Searcher σ ι) := do
  let out ← wrap "error while handling a trial created event"
    (m.trialCreated s.method s.rand create.requestID)
  return record (s.eventLog.trialCreated create trialID) out

/-- The trial exited early. -/
def trialExitedEarly (trialID : ℤ) (exitedReason : Option ExitedReason) :
    Except Fault (List (Operation ι) × Searcher σ ι) := do
  match s.eventLog.requestIDs.lookup trialID with
  | none => throw (.error s!"unexpected trial ID sent to searcher: {trialID}")
  | some r =>
    match exitedReason with
    | none => throw (.panic s!"trial {trialID} exited early with ExitedReason nil.")
    | some reason =>
      let out ← wrap s!"error relaying trial exited early to trial {trialID}"
        (m.trialExitedEarly s.method s.rand r reason)
      return record (s.eventLog.trialExitedEarly r reason) out

/-- A workload is completed: only the event log hears of it. -/
def workloadCompleted (msg : CompletedMessage) (unitsCompleted : ℚ) : Searcher σ ι :=
  { s with eventLog := s.eventLog.workloadCompleted msg unitsCompleted }

/-- An operation initiated by the searcher has completed. -/
def operationCompleted (trialID : ℤ) (op : Runnable ι) (metrics : OpMetrics) :
    Except Fault (List (Operation ι) × Searcher σ ι) := do
  match s.eventLog.requestIDs.lookup trialID with
  | none => throw (.error s!"unexpected trial ID sent to searcher: {trialID}")
  | some r =>
    let out ← wrap "error while handling a workload completed event"
      (m.operationCompleted s.method s.rand r op metrics)
    return record s.eventLog out

/-- A trial has been closed. When all requested trials are, the search is over; it failed if as many
    exited early. -/
def trialClosed (r : ι) : Except Fault (List (Operation ι) × Searcher σ ι) := do
  let out ← wrap "error while handling a trial closed event" (m.trialClosed s.method s.rand r)
  let (ops, t) := record (s.eventLog.trialClosed r) out
  if t.eventLog.trialsRequested = t.eventLog.trialsClosed then
    let shutdown := .shutdown (decide (t.eventLog.trialsRequested ≤ t.eventLog.earlyExits.card))
    return (ops ++ [shutdown],
      { t with eventLog := t.eventLog.operationsCreated [shutdown] })
  else return (ops, t)

end Searcher

end Determined.Searcher
