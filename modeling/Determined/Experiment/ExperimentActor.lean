import Determined.Schemes.Actor
import Determined.Searcher.Operations
import Determined.Model.ExperimentState

/-! The experiment actor (`internal/experiment.go`): it calls the searcher, relays its operations to
    the trials, changes the state of the experiment and stops when it has stopped all trials.

    A message carries what the searcher and the database answer while it is handled. What is told to
    the resource manager, the progress and the configuration are left out. -/

namespace Determined.Experiment
open Determined.Model Determined.Schemes Determined.Searcher

variable {ι : Type}

/-- What the searcher and the database answer. -/
structure Answers (ι : Type) where
  /-- The operations of the searcher, or how its call failed. -/
  reply : Except Fault (List (Operation ι))
  /-- The searcher knows the trial of a request. -/
  trialID : ι → Bool
  /-- The database has a checkpoint of the trial. -/
  checkpoint : ι → Bool
  /-- The uncommitted searcher events could be converted and, if they had to be, saved. -/
  recorded : Bool

inductive Message (ι : Type) where
  | preStart (answers : Answers ι)
  | trialCreated (answers : Answers ι)
  | trialCompletedOperation (answers : Answers ι)
  /-- Responding to a completed validation panics if it has no metrics or nobody asked. -/
  | trialCompletedWorkload (answers : Answers ι) (responds : Bool)
  | trialExitedEarly (answers : Answers ι)
  | sendNextWorkload
  | childFailed (child : ι) (answers : Answers ι)
  | childStopped (child : ι) (answers : Answers ι)
  | restoreTrials
  | trialsRestored
  | state (state : State)
  | killExperiment
  | activateExperimentRequest
  | pauseExperimentRequest
  | cancelExperimentRequest
  | killExperimentRequest

inductive Response where
  | ok
  | failedPrecondition (msg : String)
  deriving DecidableEq, Repr

/-- What the experiment tells its trials and those who ask it something. -/
inductive Told (ι : Type) where
  | state (child : ι) (state : State)
  | operations (child : ι) (ops : List (Operation ι))
  | killTrial (child : ι)
  | restoreTrial (child : ι)
  | sendNextWorkload
  | respond (response : Response)
  | checkpointGC
  deriving DecidableEq, Repr

/-- The experiment, with its trials by their request ids. -/
structure ExperimentActor (ι : Type) where
  id : ℤ
  state : State
  children : List ι
  replaying : Bool
  deriving DecidableEq, Repr

abbrev ExperimentReaction (ι : Type) := Reaction (ExperimentActor ι) (Message ι) (Told ι)

def canTerminate (e : ExperimentActor ι) : Bool := stoppingStates e.state && e.children.isEmpty

/-- The request that an operation is about, if it is for a trial. -/
def requested : Operation ι → Option ι
  | .runnable op => some op.requestID
  | .close r => some r
  | .create _ | .shutdown _ => none

/-- Nothing has been done yet. -/
def begin (e : ExperimentActor ι) : ExperimentReaction ι := ⟨e, [], [], .done⟩

variable (r : ExperimentReaction ι)

def tell (told : List (Told ι)) : ExperimentReaction ι := { r with told := r.told ++ told }

def stopIfDone : ExperimentReaction ι :=
  if canTerminate r.state then { r with toSelf := r.toSelf ++ [.stop] } else r

/-- Change the state, and tell the trials; whether that was possible. -/
def updateState (state : State) : ExperimentReaction ι × Bool :=
  match r.state.state.transition r.state.id state with
  | .error _ => (r, false)
  | .ok false => (r, true)
  | .ok true =>
    let r := { r with state := { r.state with state := state } }
    (stopIfDone (tell r (r.state.children.map fun child => .state child state)), true)

def killTrials : ExperimentReaction ι := tell r (r.state.children.map .killTrial)

variable [DecidableEq ι]

/-- Create a trial, unless there is one for the request. -/
def createTrial (requestID : ι) : ExperimentReaction ι :=
  if requestID ∈ r.state.children then r
  else { r with state := { r.state with children := r.state.children ++ [requestID] } }

/-- Carry out an operation for the experiment; the second result says whether to go on. -/
def processOperation (answers : Answers ι) (acc : ExperimentReaction ι × Bool) (op : Operation ι) :
    ExperimentReaction ι × Bool :=
  if acc.2 then
    match op with
    | .create create => match create.checkpoint with
      | some source =>
        if answers.trialID source && answers.checkpoint source then
          (createTrial acc.1 create.requestID, true)
        else ((updateState acc.1 .stoppingError).1, false)
      | none => (createTrial acc.1 create.requestID, true)
    | .runnable _ | .close _ => acc
    | .shutdown failure =>
      ((updateState acc.1 (if failure then .stoppingError else .stoppingCompleted)).1, true)
  else acc

/-- Relay operations to their trials; telling a trial that does not exist panics. -/
def relayOperations (ops : List (Operation ι)) : ExperimentReaction ι :=
  let requestIDs := (ops.filterMap requested).dedup
  if requestIDs.all fun child => decide (child ∈ r.state.children) then
    tell r (requestIDs.map fun child =>
      .operations child (ops.filter fun op => requested op = some child))
  else { r with ending := .panicked }

/-- Commit new searcher events to the database. -/
def commitEvents (answers : Answers ι) : ExperimentReaction ι :=
  if r.state.replaying || answers.recorded then r else (updateState r .stoppingError).1

def processOperations (answers : Answers ι) (reply : Except Fault (List (Operation ι))) :
    ExperimentReaction ι :=
  match reply with
  | .error (.panic _) => { r with ending := .panicked }
  | .error (.error _) =>
    if stoppingStates r.state.state then r else (updateState r .stoppingError).1
  | .ok ops =>
    if stoppingStates r.state.state then r
    else
      let processed := ops.foldl (processOperation answers) (r, true)
      if processed.2 then
        let relayed := relayOperations processed.1 ops
        if relayed.ending = .panicked then relayed else commitEvents relayed answers
      else processed.1

/-- A trial is gone: the actor has removed it from its children. -/
def trialClosed (child : ι) (answers : Answers ι) : ExperimentReaction ι :=
  let e := { r.state with children := r.state.children.erase child }
  let r := processOperations { r with state := e } answers answers.reply
  if r.ending = .panicked then r else stopIfDone r

omit [DecidableEq ι] in
/-- A request to change the state, and what is done if that is possible. -/
def request (state : State) (andThen : ExperimentReaction ι → ExperimentReaction ι) :
    ExperimentReaction ι :=
  let updated := updateState r state
  if updated.2 then andThen (tell updated.1 [.respond .ok])
  else tell updated.1 [.respond (.failedPrecondition
    s!"experiment in incompatible state {updated.1.state.state.text}")]

omit [DecidableEq ι] in
/-- A request to stop; an experiment that is stopping already does nothing more. -/
def stopRequest : ExperimentReaction ι :=
  if stoppingStates r.state.state || terminalStates r.state.state then tell r [.respond .ok]
  else request r .stoppingCanceled killTrials

def receive (e : ExperimentActor ι) : Message ι → ExperimentReaction ι
  | .preStart answers | .trialCreated answers | .trialCompletedOperation answers
  | .trialExitedEarly answers => processOperations (begin e) answers answers.reply
  | .trialCompletedWorkload answers responds =>
    let r := processOperations (begin e) answers (.ok [])
    if responds then r else { r with ending := .panicked }
  | .sendNextWorkload => tell (begin e) [.sendNextWorkload]
  | .childFailed child answers | .childStopped child answers => trialClosed (begin e) child answers
  | .restoreTrials => tell (begin e) (e.children.map .restoreTrial)
  | .trialsRestored => begin { e with replaying := false }
  | .state state => (updateState (begin e) state).1
  | .killExperiment =>
    let r := if runningStates e.state then (updateState (begin e) .stoppingCanceled).1 else begin e
    killTrials r
  | .activateExperimentRequest => request (begin e) .active id
  | .pauseExperimentRequest => request (begin e) .paused id
  | .cancelExperimentRequest => stopRequest (begin e)
  | .killExperimentRequest => stopRequest (begin e)

omit [DecidableEq ι] in
/-- The handler of `PostStop`; `saved` says whether the remaining searcher events could be saved. -/
def postStop (saved : Bool) (e : ExperimentActor ι) : ExperimentActor ι × List (Told ι) :=
  let r := if saved then begin e else (updateState (begin e) .stoppingError).1
  let terminal := stoppingToTerminalStates r.state.state
  match r.state.state.transition r.state.id terminal with
  | .ok true => ({ r.state with state := terminal }, r.told ++ [.checkpointGC])
  | _ => (r.state, r.told)

def experimentBehaviour (saved : Bool) : Behaviour (ExperimentActor ι) (Message ι) (Told ι) :=
  ⟨receive, postStop saved⟩

end Determined.Experiment
