import Determined.Schemes.Run
import Determined.Pool.Task

/-! The Kubernetes resource manager (`internal/resourcemanagers/kubernetes_resource_manager.go`):
    tasks wait in the list until a tick assigns them pods, as long as their group keeps to its
    `max_slots` by the manager's count of the slots the group uses.

    A group is known by its handler. The agent that stands for all pods, the summaries and the names
    of tasks are left out; an allocation is the number of slots of its pod. -/

namespace Determined.Pool
open Determined.Schemes Determined.Model

structure KubernetesResourceManager where
  maxSlotsPerPod : ℕ
  reqList : TaskList ℕ
  groups : ℕ → Option Group
  slotsUsedPerGroup : ℕ → ℤ
  reschedule : Bool

namespace KubernetesResourceManager

variable (registeredTime : ℕ → ℤ) (k : KubernetesResourceManager)

def new (maxSlotsPerPod : ℕ) : KubernetesResourceManager :=
  ⟨maxSlotsPerPod, .empty, fun _ => none, fun _ => 0, false⟩

def getOrCreateGroup (handler : ℕ) : KubernetesResourceManager :=
  match k.groups handler with
  | some _ => k
  | none =>
    { k with
      groups := Function.update k.groups handler (some ⟨none, 1, none⟩)
      slotsUsedPerGroup := Function.update k.slotsUsedPerGroup handler 0 }

def setMaxSlots (handler : ℕ) (maxSlots : Option ℤ) : KubernetesResourceManager :=
  let created := k.getOrCreateGroup handler
  { created with
    groups := Function.update created.groups handler
      ((created.groups handler).map fun group => { group with maxSlots := maxSlots }) }

def addTask (msg : AllocateRequest) (group : Option ℕ) (newID : String) :
    KubernetesResourceManager :=
  let req := msg.withDefaults group newID
  let created := k.getOrCreateGroup req.group
  { created with reqList := created.reqList.addTask registeredTime req }

/-- The slots of each pod of a task, if its slots can be split evenly over pods. -/
def podSlots (maxSlotsPerPod slotsNeeded : ℕ) : Option (List ℕ) :=
  if slotsNeeded > 1 then
    if maxSlotsPerPod = 0 then none
    else if slotsNeeded ≤ maxSlotsPerPod then some [slotsNeeded]
    else if slotsNeeded % maxSlotsPerPod ≠ 0 then none
    else some (List.replicate (slotsNeeded / maxSlotsPerPod) maxSlotsPerPod)
  else some [slotsNeeded]

def assignResources (req : AllocateRequest) : KubernetesResourceManager :=
  match podSlots k.maxSlotsPerPod req.slotsNeeded with
  | none => k
  | some allocations =>
    { k with
      slotsUsedPerGroup := Function.update k.slotsUsedPerGroup req.group
        (k.slotsUsedPerGroup req.group + req.slotsNeeded)
      reqList := k.reqList.setAllocations req.taskActor allocations }

/-- The task is looked up after it was removed, and its group by the task's own handler. -/
def resourcesReleased (handler : ℕ) : KubernetesResourceManager :=
  let removed := { k with reqList := k.reqList.removeTaskByHandler registeredTime handler }
  match removed.reqList.getTaskByHandler handler, removed.groups handler with
  | some req, some _ =>
    { removed with
      slotsUsedPerGroup := Function.update removed.slotsUsedPerGroup handler
        (removed.slotsUsedPerGroup handler - req.slotsNeeded) }
  | _, _ => removed

/-- One more task would take the group above its limit. -/
def exceeds (group : Group) (req : AllocateRequest) : Bool :=
  match group.maxSlots with
  | some maxSlots => decide (k.slotsUsedPerGroup req.group + req.slotsNeeded > maxSlots)
  | none => false

def scheduleTask (req : AllocateRequest) : Except Fault KubernetesResourceManager :=
  if k.reqList.unassigned req.taskActor then
    match k.groups req.group with
    | none => .error (.panic "invalid memory address or nil pointer dereference")
    | some group => .ok (if k.exceeds group req then k else k.assignResources req)
  else .ok k

def schedulePendingTasks : Except Fault KubernetesResourceManager :=
  k.reqList.taskByTime.foldlM scheduleTask k

inductive Message where
  | request (msg : RequestMessage)
  | schedulerTick
  deriving DecidableEq, Repr

def receiveRequestMsg : RequestMessage → KubernetesResourceManager
  | .groupActorStopped none => k
  | .groupActorStopped (some ref) =>
    { k with
      slotsUsedPerGroup := Function.update k.slotsUsedPerGroup ref 0
      groups := Function.update k.groups ref none }
  | .setGroupMaxSlots handler maxSlots => k.setMaxSlots handler maxSlots
  | .setGroupWeight .. | .setGroupPriority .. | .setTaskName _ => k
  | .allocateRequest msg group newID => k.addTask registeredTime msg group newID
  | .resourcesReleased taskActor => k.resourcesReleased registeredTime taskActor

/-- Every message but the tick asks for scheduling at the next tick. -/
def receive : Message → Except Fault KubernetesResourceManager
  | .request msg => .ok { k.receiveRequestMsg registeredTime msg with reschedule := true }
  | .schedulerTick =>
    if k.reschedule then
      k.schedulePendingTasks.map fun scheduled => { scheduled with reschedule := false }
    else .ok k

/-- The messages that are ever sent. -/
def Message.Sent : Message → Bool
  | .request msg => RequestMessage.Sent msg
  | .schedulerTick => true

def step (message : Message) : Option KubernetesResourceManager :=
  if message.Sent then (k.receive registeredTime message).toOption else none

/-- The manager receives a message and handles it. -/
def Step (k : KubernetesResourceManager) (message : Message) (k' : KubernetesResourceManager) :
    Prop := k.step registeredTime message = some k'

end KubernetesResourceManager

end Determined.Pool
