import Determined.Container.State
import Determined.Schemes.Actor

/-! The pod actor (`internal/kubernetes/pod.go`): it turns the status updates of its pod into
    container state changes and tells the task about them.

    A message carries, where the handler calls the Kubernetes API, what that call returns. -/

namespace Determined.Kubernetes
open Determined.Container Determined.Schemes

/-! ### Pod objects -/

inductive Phase where
  | pending
  | running
  | failed
  | succeeded
  | other (text : String)
  deriving DecidableEq, Repr

def Phase.text : Phase → String
  | .pending => "Pending"
  | .running => "Running"
  | .failed => "Failed"
  | .succeeded => "Succeeded"
  | .other text => text

structure Termination where
  exitCode : ℤ
  message : String
  deriving DecidableEq, Repr

/-- The name of a container, and which of its states are set. -/
structure ContainerStatus where
  name : String
  running : Bool
  terminated : Option Termination
  deriving DecidableEq, Repr

structure Condition where
  type : String
  status : String
  deriving DecidableEq, Repr

/-- What the handlers read of a pod. -/
structure PodObject where
  name : String
  deletionTimestamp : Bool
  phase : Phase
  podIP : String
  conditions : List Condition
  initContainerStatuses : List ContainerStatus
  containerStatuses : List ContainerStatus
  deriving DecidableEq, Repr

/-- `[a b c]`, as a list of strings is printed. -/
def formatNames (names : List String) : String := "[" ++ " ".intercalate names ++ "]"

def getDeterminedContainersStatus (statuses : List ContainerStatus) (containerNames : List String) :
    Except String (List ContainerStatus) :=
  let containerStatuses := statuses.filter fun status => containerNames.contains status.name
  if containerStatuses.length ≠ containerNames.length then
    .error ("found container statuses only for: " ++ formatNames (containerStatuses.map (·.name)))
  else .ok containerStatuses

def getPodState (pod : PodObject) (containerNames : List String) : Except String State :=
  match pod.phase with
  | .pending =>
    if pod.deletionTimestamp then .ok .terminated
    else if pod.conditions.any fun c => c.type == "PodScheduled" && c.status == "True" then
      .ok .starting
    else .ok .assigned
  | .running => do
    let statuses ← getDeterminedContainersStatus pod.containerStatuses containerNames
    if statuses.any (·.terminated.isSome) then return .terminated
    else if statuses.any (!·.running) then return .starting
    else return .running
  | .failed | .succeeded => .ok .terminated
  | .other text => .error ("unexpected pod status " ++ text ++ " for pod " ++ pod.name)

/-- The first init container that failed. -/
def failedInit (status : ContainerStatus) : Option (ℤ × String) :=
  match status.terminated with
  | some t =>
    if t.exitCode ≠ 0 then some (t.exitCode, "container " ++ status.name ++ ": " ++ t.message)
    else none
  | none => none

def getExitCodeAndMessage (pod : PodObject) (containerNames : List String) :
    Except String (ℤ × String) :=
  if pod.initContainerStatuses.isEmpty then
    .error ("unexpected number of init containers when processing exit code for pod " ++ pod.name)
  else match pod.initContainerStatuses.findSome? failedInit with
    | some failure => .ok failure
    | none =>
      if pod.containerStatuses.length < containerNames.length then
        .error ("unexpected number of containers when processing exit code for pod " ++ pod.name)
      else do
        let statuses ← getDeterminedContainersStatus pod.containerStatuses containerNames
        match statuses.findSome? (·.terminated) with
        | some t => return (t.exitCode, t.message)
        | none => .error ("unable to get exit code from pod " ++ pod.name)

/-! ### The actor -/

structure Pod where
  container : State
  podName : String
  containerNames : List String
  ports : List ℤ
  gpus : ℕ
  resourcesDeleted : Bool
  leaveKubernetesResources : Bool
  deriving DecidableEq, Repr

structure PodEvent where
  involvedObject : String
  message : String
  deriving DecidableEq, Repr

inductive Message where
  /-- `streaming`: the error of starting to stream the pod's logs, if that is tried. -/
  | podStatusUpdate (updatedPod : PodObject) (streaming : Option String)
  | podEventUpdate (event : PodEvent)
  | containerLog (text : String)
  | killTaskPod
  | resourceCreationFailed (err : String)
  | resourceCreationCancelled
  | resourceDeletionFailed (err : String)
  deriving DecidableEq, Repr

/-- What the pod actor tells others: the first two the task, the last the request queue. -/
inductive Told where
  | stateChanged (container : State) (started : Option (List Address))
      (stopped : Option ContainerStopped)
  | containerLog (container : State) (text : String)
  | deleteKubernetesResources (podName configMapName : String)
  deriving DecidableEq, Repr

abbrev PodReaction := Reaction Pod Message Told

namespace Pod

/-- Change the container state and tell the task, or panic. -/
def transition (p : Pod) (told : List Told) (new : State)
    (andThen : Pod → List Told → PodReaction) : PodReaction :=
  match p.container.transition new with
  | some container => andThen { p with container } told
  | none => ⟨p, told, [], .panicked⟩

def informTaskContainerStopped (p : Pod) (stopped : ContainerStopped) : Told :=
  .stateChanged p.container none (some stopped)

def deleteKubernetesResources (p : Pod) : Pod × List Told :=
  if p.resourcesDeleted then (p, [])
  else ({ p with resourcesDeleted := true }, [.deleteKubernetesResources p.podName p.podName])

def receiveContainerLog (p : Pod) (text : String) : List Told := [.containerLog p.container text]

/-- Kubernetes does not have an explicit state for pulling container images: it is inserted. -/
def receiveStarting (p : Pod) : PodReaction :=
  p.transition [] .pulling fun p told =>
    p.transition (told ++ [.stateChanged p.container none none]) .starting fun p told =>
      ⟨p, told ++ [.stateChanged p.container none none], [], .done⟩

def receiveRunning (p : Pod) (updatedPod : PodObject) (streaming : Option String) : PodReaction :=
  p.transition [] .running fun p told =>
    match streaming with
    | some _ => ⟨p, told, [], .failed⟩
    | none =>
      let addresses := p.ports.map fun port => ⟨updatedPod.podIP, port, updatedPod.podIP, port⟩
      ⟨p, told ++ [.stateChanged p.container (some addresses) none], [], .done⟩

/-- The exit of a pod that was deleted before it generated an exit code counts as 137. -/
def exitOf (p : Pod) (updatedPod : PodObject) : Option (ℤ × String) :=
  match getExitCodeAndMessage updatedPod p.containerNames with
  | .ok exit => some exit
  | .error _ => if updatedPod.deletionTimestamp then some (137, "") else none

def containerStopped (exit : ℤ × String) : ContainerStopped :=
  if exit.1 = 0 then ⟨none⟩ else ⟨some ⟨.containerFailed, exit.2, some exit.1⟩⟩

def receiveTerminated (p : Pod) (updatedPod : PodObject) : PodReaction :=
  match p.exitOf updatedPod with
  | none => ⟨p, [], [], .failed⟩
  | some exit =>
    p.transition [] .terminated fun p told =>
      ⟨p, told ++ [p.informTaskContainerStopped (containerStopped exit)], [.stop], .done⟩

def receivePodStatusUpdate (p : Pod) (updatedPod : PodObject) (streaming : Option String) :
    PodReaction :=
  match getPodState updatedPod p.containerNames with
  | .error _ => ⟨p, [], [], .failed⟩
  | .ok containerState =>
    if containerState = p.container then ⟨p, [], [], .done⟩
    else match containerState with
      | .assigned => ⟨p, [], [], .done⟩
      | .starting => p.receiveStarting
      | .running => p.receiveRunning updatedPod streaming
      | .terminated => p.receiveTerminated updatedPod
      | .pulling => ⟨p, [], [], .panicked⟩

def gpuTextReplacement : String := "Waiting for resources. "

/-- Messages are only forwarded while the pod is starting up. -/
def receivePodEventUpdate (p : Pod) (event : PodEvent) : List Told :=
  match p.container with
  | .running | .terminated => []
  | _ =>
    let message := if gpuTextReplacement.toList <+: event.message.toList then
      event.message ++ toString p.gpus ++ " GPUs required." else event.message
    p.receiveContainerLog ("Pod " ++ event.involvedObject ++ ": " ++ message)

def receive (p : Pod) : Message → PodReaction
  | .podStatusUpdate updatedPod streaming => p.receivePodStatusUpdate updatedPod streaming
  | .podEventUpdate event => ⟨p, p.receivePodEventUpdate event, [], .done⟩
  | .containerLog text => ⟨p, p.receiveContainerLog text, [], .done⟩
  | .killTaskPod => ⟨p.deleteKubernetesResources.1, p.deleteKubernetesResources.2, [], .done⟩
  | .resourceCreationFailed err => ⟨p, p.receiveContainerLog err, [.stop], .done⟩
  | .resourceCreationCancelled => ⟨{ p with resourcesDeleted := true }, [], [.stop], .done⟩
  | .resourceDeletionFailed _ => ⟨p, [], [.stop], .done⟩

/-- If an error occurred during the lifecycle of the pod, the task is updated with the new state. -/
def finalizeTaskState (p : Pod) : Pod × List Told :=
  if p.container ≠ .terminated then
    let p := { p with container := .terminated }
    (p, [p.informTaskContainerStopped
      (containerError .taskError "agent failed while container was running")])
  else (p, [])

def postStop (p : Pod) : Pod × List Told :=
  let deleted := if p.leaveKubernetesResources then (p, []) else p.deleteKubernetesResources
  (deleted.1.finalizeTaskState.1, deleted.2 ++ deleted.1.finalizeTaskState.2)

end Pod

def podBehaviour : Behaviour Pod Message Told := ⟨Pod.receive, Pod.postStop⟩

/-- The pod actor after it submitted its pod. -/
def newPod (podName : String) (ports : List ℤ) (gpus : ℕ) (leaveKubernetesResources : Bool) : Pod :=
  ⟨.assigned, podName, ["determined-container"], ports, gpus, false, leaveKubernetesResources⟩

end Determined.Kubernetes
