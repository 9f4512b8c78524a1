import Determined.Pool.Fitting

/-! The priority scheduler (`internal/resourcemanagers/priority.go`).

    It plays its decisions on copies of the agents. A copy is the value itself here: a function that
    works on a copy gets the agents and returns those it leaves. A map from priorities to tasks is
    the list of its tasks with their priorities, and a set of tasks the list of their actors; the
    names of tasks are left out of the panic's text. -/

namespace Determined.Pool
open Determined.Model

/-- An allocation of a container on an agent. -/
structure ContainerAllocation where
  agent : ℕ
  containerID : ContainerID
  devices : List Device
  deriving DecidableEq, Repr

/-- The draws of a run of the scheduler or the pool; a task is put on an agent at most once. -/
abbrev Draws := ℕ → ℕ → Draw

/-- Devices are visited as they are listed. -/
def plainDraws : Draws := fun _ _ => ⟨"", id, fun _ => .refl _⟩

def nilDereference : Fault := .panic "invalid memory address or nil pointer dereference"

section Agents

variable {σ : Type}

/-- Take a fit's slots of its agent. -/
def addFitToAgents (draws : Draws) (req : AllocateRequest) (agents : Agents)
    (fit : FittingState σ) : Except Fault Agents :=
  ((agents.state fit.agent).allocateFreeDevices (draws req.taskActor fit.agent) fit.slots).map
    fun r => agents.set fit.agent r.1

def addTaskToAgents (draws : Draws) (req : AllocateRequest) (fits : List (FittingState σ))
    (agents : Agents) : Except Fault Agents :=
  fits.foldlM (addFitToAgents draws req) agents

end Agents

/-- Devices are matched by their number on the agent. -/
def removeAllocationFromAgents (agents : Agents) (allocation : ContainerAllocation) :
    Except Fault Agents :=
  match agents.get allocation.agent with
  | none => .error nilDereference
  | some a => .ok <| agents.set allocation.agent <|
    if allocation.devices.isEmpty then
      { a with
        zeroSlotContainers := a.zeroSlotContainers.filter (· != allocation.containerID) }
    else a.vacate fun d => allocation.devices.any (·.id == d.id)

def removeTaskFromAgents (agents : Agents) (resourcesAllocated : List ContainerAllocation) :
    Except Fault Agents :=
  resourcesAllocated.foldlM removeAllocationFromAgents agents

/-! ### Tasks by priority -/

def nonZeroSlotTaskFilter (req : AllocateRequest) : Bool := decide (req.slotsNeeded > 0)

def zeroSlotTaskFilter (req : AllocateRequest) : Bool := req.slotsNeeded == 0

/-- The priority of a task is that of its group. -/
def taskPriority (groups : ℕ → Option Group) (req : AllocateRequest) : Except Fault ℤ :=
  match groups req.group with
  | none => .error nilDereference
  | some group =>
    match group.priority with
    | none => .error (.panic "priority not set for task")
    | some priority => .ok priority

/-- The tasks of a label and class with their priorities. -/
def tasksByPriority (taskList : TaskList ContainerAllocation) (groups : ℕ → Option Group)
    (label : String) (filter : AllocateRequest → Bool) :
    Except Fault (List (ℤ × AllocateRequest)) :=
  (taskList.taskByTime.filter fun req => req.label == label && filter req).mapM fun req =>
    (taskPriority groups req).map (·, req)

/-- The pending and the scheduled tasks of a label and class, with their priorities. -/
def sortTasksByPriority (taskList : TaskList ContainerAllocation) (groups : ℕ → Option Group)
    (label : String) (filter : AllocateRequest → Bool) :
    Except Fault (List (ℤ × AllocateRequest) × List (ℤ × AllocateRequest)) :=
  (tasksByPriority taskList groups label filter).map
    (List.partition fun task => taskList.unassigned task.2.taskActor)

/-- The tasks of one priority. -/
def tasksIn (tasks : List (ℤ × AllocateRequest)) (priority : ℤ) : List AllocateRequest :=
  (tasks.filter (·.1 == priority)).map (·.2)

def getOrderedPriorities (tasks : List (ℤ × AllocateRequest)) : List ℤ :=
  (tasks.map (·.1)).dedup.insertionSort (· ≤ ·)

/-! ### Scheduling -/

def maxUserSchedulingPriority : ℤ := 99

section Scheduling

variable {σ : Type} [LinearOrder σ] (c : Cluster σ) (draws : Draws)

/-- The tasks that were placed and those that did not fit, and the agents they leave. -/
structure Placement where
  agents : Agents
  successful : List AllocateRequest
  unsuccessful : List AllocateRequest

def trySchedulingPendingTask (placement : Placement) (req : AllocateRequest) :
    Except Fault Placement :=
  match findFits c req placement.agents with
  | [] => .ok { placement with unsuccessful := placement.unsuccessful ++ [req] }
  | fit :: fits =>
    (addTaskToAgents draws req (fit :: fits) placement.agents).map fun agents =>
      { placement with
        agents := agents
        successful := placement.successful ++ [req] }

def trySchedulingPendingTasksInPriority (allocationRequests : List AllocateRequest)
    (agents : Agents) : Except Fault Placement :=
  allocationRequests.foldlM (trySchedulingPendingTask c draws) ⟨agents, [], []⟩

/-- What a try to preempt tasks comes to. -/
structure Preemption where
  taskPlaced : Bool
  agents : Agents
  preemptedTasks : List ℕ

/-- Remove candidate after candidate until the task fits. -/
def preemptCandidates (taskList : TaskList ContainerAllocation) (req : AllocateRequest)
    (tasksAlreadyPreempted : List ℕ) (filter : AllocateRequest → Bool) (agents : Agents)
    (preemptedTasks : List ℕ) : List AllocateRequest → Except Fault Preemption
  | [] => .ok ⟨false, agents, preemptedTasks⟩
  | candidate :: candidates =>
    if candidate.nonPreemptible || !filter candidate ||
        decide (candidate.taskActor ∈ tasksAlreadyPreempted) then
      preemptCandidates taskList req tasksAlreadyPreempted filter agents preemptedTasks candidates
    else do
      let agents ← removeTaskFromAgents agents
        ((taskList.allocations candidate.taskActor).getD [])
      match findFits c req agents with
      | [] =>
        preemptCandidates taskList req tasksAlreadyPreempted filter agents
          (preemptedTasks ++ [candidate.taskActor]) candidates
      | fit :: fits =>
        return ⟨true, ← addTaskToAgents draws req (fit :: fits) agents,
          preemptedTasks ++ [candidate.taskActor]⟩

/-- The priorities from the largest users may specify down to those above a task's own. -/
def lowerPriorities (allocationPriority : ℤ) : List ℤ :=
  (List.range (maxUserSchedulingPriority - allocationPriority).toNat).map
    fun i : ℕ => maxUserSchedulingPriority - (i : ℤ)

def trySchedulingTaskViaPreemption (taskList : TaskList ContainerAllocation)
    (req : AllocateRequest) (allocationPriority : ℤ) (agents : Agents)
    (scheduled : List (ℤ × AllocateRequest)) (tasksAlreadyPreempted : List ℕ)
    (filter : AllocateRequest → Bool) : Except Fault Preemption :=
  preemptCandidates c draws taskList req tasksAlreadyPreempted filter agents []
    ((lowerPriorities allocationPriority).flatMap fun priority =>
      c.latestFirst (tasksIn scheduled priority))

/-- The variables of the scheduling loop. -/
structure Plan where
  agents : Agents
  toAllocate : List AllocateRequest
  toRelease : List ℕ
  startTasks : Bool

/-- Place a task that did not fit, once others are preempted. -/
def placeViaPreemption (taskList : TaskList ContainerAllocation)
    (scheduled : List (ℤ × AllocateRequest)) (filter : AllocateRequest → Bool) (priority : ℤ)
    (plan : Plan) (req : AllocateRequest) : Except Fault Plan :=
  match findFits c req plan.agents with
  | fit :: fits =>
    (addTaskToAgents draws req (fit :: fits) plan.agents).map fun agents =>
      { plan with agents := agents }
  | [] =>
    (trySchedulingTaskViaPreemption c draws taskList req priority plan.agents scheduled
      plan.toRelease filter).map fun preemption =>
        if preemption.taskPlaced then
          { plan with
            agents := preemption.agents
            toRelease := plan.toRelease ++ preemption.preemptedTasks }
        else plan

/-- Once a task of a higher priority cannot be started, no more tasks are; without preemption
    nothing is left to do then. -/
def scheduleByPriority (preemptionEnabled : Bool) (taskList : TaskList ContainerAllocation)
    (pending scheduled : List (ℤ × AllocateRequest)) (filter : AllocateRequest → Bool)
    (plan : Plan) : List ℤ → Except Fault Plan
  | [] => .ok plan
  | priority :: priorities => do
    let placement ← trySchedulingPendingTasksInPriority c draws
      (c.oldestFirst (tasksIn pending priority)) plan.agents
    let toAllocate :=
      if plan.startTasks then plan.toAllocate ++ placement.successful else plan.toAllocate
    let placed := { plan with
      agents := placement.agents
      toAllocate := toAllocate }
    if placement.unsuccessful.isEmpty then
      scheduleByPriority preemptionEnabled taskList pending scheduled filter placed priorities
    else if !preemptionEnabled then return { placed with startTasks := false }
    else
      let preempted ← placement.unsuccessful.foldlM
        (placeViaPreemption c draws taskList scheduled filter priority)
        { placed with startTasks := false }
      scheduleByPriority preemptionEnabled taskList pending scheduled filter preempted priorities

def prioritySchedulerWithFilter (preemptionEnabled : Bool)
    (taskList : TaskList ContainerAllocation) (groups : ℕ → Option Group) (agents : Agents)
    (label : String) (filter : AllocateRequest → Bool) :
    Except Fault (List AllocateRequest × List ℕ) := do
  let tasks ← sortTasksByPriority taskList groups label filter
  let plan ← scheduleByPriority c draws preemptionEnabled taskList tasks.1 tasks.2 filter
    ⟨agents, [], [], true⟩ (getOrderedPriorities tasks.1)
  return (plan.toAllocate, plan.toRelease)

/-- Zero-slot and non-zero-slot tasks are scheduled independently of each other. -/
def priorityScheduleByLabel (preemptionEnabled : Bool) (taskList : TaskList ContainerAllocation)
    (groups : ℕ → Option Group) (agents : Agents) (label : String) :
    Except Fault (List AllocateRequest × List ℕ) := do
  let zeroSlot ← prioritySchedulerWithFilter c draws preemptionEnabled taskList groups agents label
    zeroSlotTaskFilter
  let nonZeroSlot ← prioritySchedulerWithFilter c draws preemptionEnabled taskList groups agents
    label nonZeroSlotTaskFilter
  return (zeroSlot.1 ++ nonZeroSlot.1, zeroSlot.2 ++ nonZeroSlot.2)

/-- Labels are a hard constraint, so every label is processed independently. -/
def scheduleLabels (preemptionEnabled : Bool) (taskList : TaskList ContainerAllocation)
    (groups : ℕ → Option Group) (agents : Agents) :
    List String → Except Fault (List AllocateRequest × List ℕ)
  | [] => .ok ([], [])
  | label :: labels => do
    let forLabel ← priorityScheduleByLabel c draws preemptionEnabled taskList groups
      (agents.withLabel label) label
    let rest ← scheduleLabels preemptionEnabled taskList groups agents labels
    return (forLabel.1 ++ rest.1, forLabel.2 ++ rest.2)

def prioritySchedule (preemptionEnabled : Bool) (taskList : TaskList ContainerAllocation)
    (groups : ℕ → Option Group) (agents : Agents) :
    Except Fault (List AllocateRequest × List ℕ) :=
  scheduleLabels c draws preemptionEnabled taskList groups agents agents.labels

end Scheduling

end Determined.Pool
