import Determined.Container.State
import Determined.Schemes.Actor

/-! The agent's container actor (`agent/internal/container.go`) with those who send to it: the
    goroutines of its docker actor (`docker.go`), its readiness checker (`check.go`) and the master.

    A message carries, where the handler makes a call that can fail, what that call returns. The
    senders follow their code: the pull ends with the image or an error, the run announces the
    container once and then its end once, and only with the logs it tracks in between. -/

namespace Determined.Agent
open Determined.Container Determined.Schemes

/-- What the actor reads of a container spec. -/
structure Spec where
  image : String
  env : List String
  checks : List ℤ
  useFluentLogging : Bool
  deriving DecidableEq, Repr

inductive Signal where
  | sigint
  | sigterm
  | sigkill
  | other (number : ℕ)
  deriving DecidableEq, Repr

def Signal.stops : Signal → Bool
  | .sigint | .sigterm | .sigkill => true
  | .other _ => false

/-- A log message, by the field that is set; a pull message stands for the text it displays. -/
inductive ContainerLog where
  | aux (text : String)
  | pull (text : String)
  | run (text : String)
  deriving DecidableEq, Repr

/-- The fields of the trial log that are the same for every line, as their variables give them. -/
structure BaseTrialLog where
  agentID : Option String
  containerID : Option String
  trialID : Option String
  deriving DecidableEq, Repr

structure TrialLog where
  base : BaseTrialLog
  source : String
  log : String
  deriving DecidableEq, Repr

/-- Name and value of a variable; without a value there is nothing to index. -/
def splitEnv (env : String) : Option (String × String) :=
  match env.toList.span (· != '=') with
  | (_, []) => none
  | (name, _ :: value) => some (String.ofList name, String.ofList value)

def BaseTrialLog.set (l : BaseTrialLog) (name value : String) : BaseTrialLog :=
  match name with
  | "DET_AGENT_ID" => { l with agentID := some value }
  | "DET_CONTAINER_ID" => { l with containerID := some value }
  | "DET_TRIAL_ID" => { l with trialID := some value }
  | _ => l

/-- The base of the trial logs, or a panic (an index out of range). -/
def getBaseTrialLog (env : List String) : Option BaseTrialLog :=
  env.foldlM (fun l e => (splitEnv e).map fun nv => l.set nv.1 nv.2) ⟨none, none, none⟩

/-- The trial log of an agent-inserted line; a run message panics. -/
def makeTrialLog (base : BaseTrialLog) : ContainerLog → Option TrialLog
  | .aux text => some ⟨base, "agent", text ++ "\n"⟩
  | .pull text => some ⟨base, "pull", text ++ "\n"⟩
  | .run _ => none

/-! ### The actor -/

structure ContainerActor where
  container : State
  spec : Option Spec
  /-- The docker ID of the running container. -/
  containerInfo : Option String
  baseTrialLog : BaseTrialLog
  deriving DecidableEq, Repr

inductive Message where
  | preStart
  | imagePulled
  /-- `checker`: the error of setting up the readiness check, if that is tried. -/
  | containerStarted (containerInfo : String) (checker : Option String)
  | containerReady
  | containerTerminated (exitCode : ℤ)
  | signalContainer (signal : Signal)
  | containerLog (log : ContainerLog)
  | childFailed (err : String)
  | dockerErr (err : String)
  deriving DecidableEq, Repr

/-- What the actor tells others: its parent, which passes it on to the master, and the docker actor;
    and that it starts the checker. -/
inductive Told where
  | stateChanged (container : State) (started : Option String) (stopped : Option ContainerStopped)
  | containerLog (container : State) (log : ContainerLog)
  | trialLog (log : TrialLog)
  | pullImage (name : String)
  | runContainer (spec : Spec)
  | signalDocker (dockerID : String) (signal : Signal)
  | newChecker
  deriving DecidableEq, Repr

abbrev ActorReaction := Reaction ContainerActor Message Told

namespace ContainerActor

/-- Change the state and tell the parent, or panic. -/
def transition (c : ContainerActor) (new : State) (started : Option String)
    (andThen : ContainerActor → List Told → ActorReaction) : ActorReaction :=
  match c.container.transition new with
  | some container => andThen { c with container } [.stateChanged container started none]
  | none => ⟨c, [], [], .panicked⟩

def containerStopped (c : ContainerActor) (stopped : ContainerStopped) (toSelf : List (Letter Message))
    (ending : Ending) : ActorReaction :=
  if c.container = .terminated then ⟨c, [], toSelf, ending⟩
  else match c.container.transition .terminated with
    | some container =>
      ⟨{ c with container }, [.stateChanged container none (some stopped)], toSelf, ending⟩
    | none => ⟨c, [], toSelf, .panicked⟩

/-- Use the spec; after it is evicted there is nothing to use. -/
def withSpec (c : ContainerActor) (use : Spec → ActorReaction) : ActorReaction :=
  match c.spec with
  | some spec => use spec
  | none => ⟨c, [], [], .panicked⟩

def receivePreStart (c : ContainerActor) : ActorReaction :=
  c.transition .pulling none fun c told => c.withSpec fun spec =>
    match getBaseTrialLog spec.env with
    | some baseTrialLog =>
      ⟨{ c with baseTrialLog }, told ++ [.pullImage spec.image], [], .done⟩
    | none => ⟨c, told ++ [.pullImage spec.image], [], .panicked⟩

def receiveImagePulled (c : ContainerActor) : ActorReaction :=
  c.transition .starting none fun c told => c.withSpec fun spec =>
    ⟨c, told ++ [.runContainer spec], [], .done⟩

/-- The spec is evicted from memory once the readiness checks are set up. -/
def receiveContainerStarted (c : ContainerActor) (containerInfo : String)
    (checker : Option String) : ActorReaction :=
  { c with containerInfo := some containerInfo }.withSpec fun spec =>
    if spec.checks.isEmpty then
      ⟨{ c with containerInfo := some containerInfo }, [], [.msg .containerReady], .done⟩
    else match checker with
      | some _ => ⟨{ c with containerInfo := some containerInfo }, [], [], .failed⟩
      | none =>
        ⟨{ c with containerInfo := some containerInfo, spec := none }, [.newChecker], [], .done⟩

def receiveContainerReady (c : ContainerActor) : ActorReaction :=
  match c.containerInfo with
  | some containerInfo => c.transition .running (some containerInfo) fun c told => ⟨c, told, [], .done⟩
  | none => ⟨c, [], [], .panicked⟩

/-- A signal stops the container before it starts, waits while it starts, and is passed on when it
    runs. -/
def receiveSignal (c : ContainerActor) (signal : Signal) : ActorReaction :=
  match c.container with
  | .assigned | .pulling =>
    if signal.stops then c.containerStopped ⟨none⟩ [.stop] .done else ⟨c, [], [], .done⟩
  | .starting => ⟨c, [], [.msg (.signalContainer signal)], .done⟩
  | .running =>
    match c.containerInfo with
    | some dockerID => ⟨c, [.signalDocker dockerID signal], [], .done⟩
    | none => ⟨c, [], [], .panicked⟩
  | .terminated => ⟨c, [], [], .done⟩

def receiveLog (c : ContainerActor) (log : ContainerLog) : ActorReaction :=
  c.withSpec fun spec =>
    if spec.useFluentLogging then
      match makeTrialLog c.baseTrialLog log with
      | some trialLog => ⟨c, [.trialLog trialLog], [], .done⟩
      | none => ⟨c, [], [], .panicked⟩
    else ⟨c, [.containerLog c.container log], [], .done⟩

def receive (c : ContainerActor) : Message → ActorReaction
  | .preStart => c.receivePreStart
  | .imagePulled => c.receiveImagePulled
  | .containerStarted containerInfo checker => c.receiveContainerStarted containerInfo checker
  | .containerReady => c.receiveContainerReady
  | .containerTerminated exitCode => c.containerStopped (containerExited exitCode) [.stop] .done
  | .signalContainer signal => c.receiveSignal signal
  | .containerLog log => c.receiveLog log
  | .childFailed err => c.containerStopped (containerError .containerFailed err) [] .failed
  | .dockerErr err => c.containerStopped (containerError .containerFailed err) [] .failed

end ContainerActor

/-- Cleaning up only logs. -/
def containerBehaviour : Behaviour ContainerActor Message Told :=
  ⟨ContainerActor.receive, fun c => (c, [])⟩

def newContainerActor (spec : Spec) : ContainerActor :=
  ⟨.assigned, some spec, none, ⟨none, none, none⟩⟩

/-! ### The senders -/

/-- The actor, and what its senders have sent for the last time: the pull, the announcement of the
    container, the run, and the checker. -/
structure System where
  actor : Live ContainerActor Message Told
  pulled : Bool
  started : Bool
  exited : Bool
  ready : Bool
  deriving DecidableEq, Repr

inductive Event where
  | process
  | dockerLog (log : ContainerLog)
  | imagePulled
  | pullErr (err : String)
  | containerStarted (containerInfo : String) (checker : Option String)
  | runErr (err : String)
  | containerTerminated (exitCode : ℤ)
  | containerReady
  | signalErr (err : String)
  | signalContainer (signal : Signal)
  | childFailed (err : String)
  deriving DecidableEq, Repr

def Told.isPullImage : Told → Bool
  | .pullImage _ => true
  | _ => false

def Told.isRunContainer : Told → Bool
  | .runContainer _ => true
  | _ => false

def Told.isSignalDocker : Told → Bool
  | .signalDocker .. => true
  | _ => false

def Told.isNewChecker : Told → Bool
  | .newChecker => true
  | _ => false

namespace System

variable (s : System)

def pulling : Bool := s.actor.told.any Told.isPullImage && !s.pulled

def creating : Bool := s.actor.told.any Told.isRunContainer && !s.started && !s.exited

def waiting : Bool := s.started && !s.exited

/-- The logs a goroutine may have: of the pull, of the creation, and the output it tracks. -/
def logs (useFluentLogging : Bool) : ContainerLog → Bool
  | .aux _ => s.pulling || s.creating
  | .pull _ => s.pulling
  | .run _ => s.waiting && !useFluentLogging

def checking : Bool := s.actor.told.any Told.isNewChecker && !s.ready

def send (m : Message) : System := { s with actor := s.actor.deliver (.msg m) }

/-- One step of the actor or of a sender; `useFluentLogging` is the spec's, as the docker actor keeps
    it. -/
def turn (useFluentLogging : Bool) : Event → Option System
  | .process => (s.actor.process containerBehaviour).map fun actor => { s with actor }
  | .dockerLog log =>
    if s.logs useFluentLogging log then some (s.send (.containerLog log)) else none
  | .imagePulled =>
    if s.pulling then some { s.send .imagePulled with pulled := true } else none
  | .pullErr err =>
    if s.pulling then some { s.send (.dockerErr err) with pulled := true } else none
  | .runErr err =>
    if s.creating || s.waiting then some { s.send (.dockerErr err) with exited := true } else none
  | .containerStarted containerInfo checker =>
    if s.creating then
      some { s.send (.containerStarted containerInfo checker) with started := true }
    else none
  | .containerTerminated exitCode =>
    if s.waiting then some { s.send (.containerTerminated exitCode) with exited := true } else none
  | .containerReady =>
    if s.checking then some { s.send .containerReady with ready := true } else none
  | .signalErr err =>
    if s.actor.told.any Told.isSignalDocker then some (s.send (.dockerErr err)) else none
  | .signalContainer signal => some (s.send (.signalContainer signal))
  | .childFailed err => some (s.send (.childFailed err))

/-- The actor is created and has yet to start. -/
def start (spec : Spec) : System :=
  ⟨⟨newContainerActor spec, [.msg .preStart], [], false, false⟩, false, false, false, false⟩

def Step (useFluentLogging : Bool) (s : System) (e : Event) (t : System) : Prop :=
  s.turn useFluentLogging e = some t

end System

end Determined.Agent
