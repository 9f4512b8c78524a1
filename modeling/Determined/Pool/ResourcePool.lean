import Determined.Pool.Placement
import Determined.Pool.Schedulers

/-! A resource pool (`internal/resourcemanagers/resource_pool.go`): the agents, the tasks and their
    allocations, and the groups, each changed by messages of its own.

    Summaries, the names of tasks and the scaling of the cluster are left out: they change nothing
    here. What a pool tells the actors of tasks is kept as the notices of a message. -/

namespace Determined.Pool
open Determined.Model Determined.Schemes

/-- The schedulers with their configuration. -/
inductive SchedulerConfig where
  | fairShare
  | priority (preemption : Bool) (defaultPriority : Option ℤ)
  | roundRobin
  deriving DecidableEq, Repr

structure ResourcePoolConfig where
  scheduler : SchedulerConfig
  maxCPUContainersPerAgent : ℤ
  deriving DecidableEq, Repr

def SchedulerConfig.isPriority : SchedulerConfig → Bool
  | .priority .. => true
  | .fairShare | .roundRobin => false

def defaultSchedulingPriority : ℤ := 42

/-- A priority scheduler is given a default priority. -/
def fillInSchedulerDefaults : SchedulerConfig → SchedulerConfig
  | .priority preemption none => .priority preemption (some defaultSchedulingPriority)
  | config => config

structure ResourcePool where
  agents : Agents
  taskList : TaskList ContainerAllocation
  groups : ℕ → Option Group
  reschedule : Bool

/-- The messages of agents and their slots. -/
inductive AgentMessage where
  | addAgent (agent : ℕ) (label : String)
  | addDevice (agent : ℕ) (device : Device) (containerID : Option ContainerID)
  | freeDevice (agent : ℕ) (device : Device) (containerID : Option ContainerID)
  | removeDevice (agent : ℕ) (device : Device)
  | removeAgent (agent : ℕ)
  deriving DecidableEq, Repr

inductive Message where
  | agent (msg : AgentMessage)
  | request (msg : RequestMessage)
  | schedulerTick
  deriving DecidableEq, Repr

/-- What the pool tells the actor of a task. -/
inductive Notice where
  | resourcesAllocated (taskActor : ℕ) (allocations : List ContainerAllocation)
  | releaseResources (taskActor : ℕ)
  deriving DecidableEq, Repr

namespace ResourcePool

def new : ResourcePool := ⟨.empty, .empty, fun _ => none, false⟩

variable (config : ResourcePoolConfig) (p : ResourcePool)

/-! ### Agents -/

def agentNotFound (doing : String) : Fault :=
  .panic s!"error {doing} device, agent not found: expected true, got false"

def receiveAgentMsg : AgentMessage → Except Fault ResourcePool
  | .addAgent agent label =>
    .ok { p with agents := p.agents.add agent (.new label config.maxCPUContainersPerAgent) }
  | .addDevice agent device containerID =>
    match p.agents.get agent with
    | none => .error (agentNotFound "adding")
    | some a => .ok { p with agents := p.agents.set agent (a.addDevice device containerID) }
  | .freeDevice agent device containerID =>
    match p.agents.get agent, containerID with
    | none, _ => .error (agentNotFound "freeing")
    | some _, none => .error nilDereference
    | some a, some id =>
      (a.deallocateDevice device.type id device).map fun a =>
        { p with agents := p.agents.set agent a }
  | .removeDevice agent device =>
    match p.agents.get agent with
    | none => .error (agentNotFound "removing")
    | some a => .ok { p with agents := p.agents.set agent (a.removeDevice device) }
  | .removeAgent agent => .ok { p with agents := p.agents.remove agent }

/-! ### Tasks and groups -/

/-- A new group, with the default priority where the scheduler goes by priority. -/
def newGroup : Except Fault Group :=
  match config.scheduler with
  | .priority _ none => .error (.panic "default priority is not configured")
  | .priority _ (some priority) => .ok ⟨none, 1, some priority⟩
  | .fairShare | .roundRobin => .ok ⟨none, 1, none⟩

/-- Get the group of a handler, and change it. -/
def getOrCreateGroup (handler : ℕ) (change : Group → Group) : Except Fault ResourcePool :=
  match p.groups handler with
  | some group => .ok { p with groups := Function.update p.groups handler (some (change group)) }
  | none => (newGroup config).map fun group =>
    { p with groups := Function.update p.groups handler (some (change group)) }

def addTask (registeredTime : ℕ → ℤ) (msg : AllocateRequest) (group : Option ℕ) (newID : String) :
    Except Fault ResourcePool :=
  let req := msg.withDefaults group newID
  (p.getOrCreateGroup config req.group id).map fun created =>
    { created with taskList := created.taskList.addTask registeredTime req }

def resourcesReleased (registeredTime : ℕ → ℤ) (handler : ℕ) : ResourcePool :=
  { p with taskList := p.taskList.removeTaskByHandler registeredTime handler }

/-- A priority is only set where one is given; what it comes to is logged. -/
def setGroupPriority (handler : ℕ) (priority : Option ℤ) : Except Fault ResourcePool := do
  let set ← p.getOrCreateGroup config handler fun group =>
    { group with priority := priority.or group.priority }
  if config.scheduler.isPriority && ((set.groups handler).bind (·.priority)).isNone then
    .error nilDereference
  else return set

def receiveRequestMsg (registeredTime : ℕ → ℤ) : RequestMessage → Except Fault ResourcePool
  | .groupActorStopped none => .ok p
  | .groupActorStopped (some ref) => .ok { p with groups := Function.update p.groups ref none }
  | .setGroupMaxSlots handler maxSlots =>
    p.getOrCreateGroup config handler fun group => { group with maxSlots := maxSlots }
  | .setGroupWeight handler weight =>
    p.getOrCreateGroup config handler fun group => { group with weight := weight }
  | .setGroupPriority handler priority => p.setGroupPriority config handler priority
  | .setTaskName _ => .ok p
  | .allocateRequest msg group newID => p.addTask config registeredTime msg group newID
  | .resourcesReleased taskActor => .ok (p.resourcesReleased registeredTime taskActor)

/-! ### Scheduling -/

section Scheduling

variable {σ : Type} [LinearOrder σ] (c : Cluster σ) (draws : Draws)

/-- Take one share of a fit. -/
def allocateFit (req : AllocateRequest) (taken : Agents × List ContainerAllocation)
    (fit : FittingState σ) : Except Fault (Agents × List ContainerAllocation) :=
  ((taken.1.state fit.agent).allocateFreeDevices (draws req.taskActor fit.agent) fit.slots).map
    fun r => (taken.1.set fit.agent r.1,
      taken.2 ++ [⟨fit.agent, (draws req.taskActor fit.agent).id, r.2⟩])

/-- Assign resources based on a request; nothing happens if it does not fit. -/
def allocateResources (req : AllocateRequest) : Except Fault (ResourcePool × List Notice) :=
  match findFits c req p.agents with
  | [] => .ok (p, [])
  | fit :: fits =>
    ((fit :: fits).foldlM (allocateFit draws req) (p.agents, [])).map fun r =>
      ({ p with
          agents := r.1
          taskList := p.taskList.setAllocations req.taskActor r.2 },
        [.resourcesAllocated req.taskActor r.2])

/-- Allocate one task after the other. -/
def allocateAll : ResourcePool → List AllocateRequest → Except Fault (ResourcePool × List Notice)
  | p, [] => .ok (p, [])
  | p, req :: reqs => do
    let allocated ← p.allocateResources c draws req
    let rest ← allocateAll allocated.1 reqs
    return (rest.1, allocated.2 ++ rest.2)

/-- Carry out what the scheduler decided. -/
def carryOut (decision : List AllocateRequest × List ℕ) :
    Except Fault (ResourcePool × List Notice) :=
  (p.allocateAll c draws decision.1).map fun r =>
    ({ r.1 with reschedule := false }, r.2 ++ decision.2.map .releaseResources)

/-- What the pool's scheduler may decide. -/
inductive Schedule : Except Fault (List AllocateRequest × List ℕ) → Prop
  | fairShare {decision : Except Fault (List AllocateRequest × List ℕ)} :
      config.scheduler = .fairShare →
      FairshareSchedule c p.taskList p.groups p.agents decision → Schedule decision
  | priority {preemption : Bool} {defaultPriority : Option ℤ} :
      config.scheduler = .priority preemption defaultPriority →
      Schedule (prioritySchedule c draws preemption p.taskList p.groups p.agents)
  | roundRobin {decision : Except Fault (List AllocateRequest × List ℕ)} :
      config.scheduler = .roundRobin →
      RoundRobinSchedule c p.taskList p.groups p.agents decision → Schedule decision

/-- Receiving a message. Every message but the tick asks for scheduling at the next tick. -/
inductive Receive : Message → Except Fault (ResourcePool × List Notice) → Prop
  | agent (msg : AgentMessage) :
      Receive (.agent msg) ((p.receiveAgentMsg config msg).map fun p =>
        ({ p with reschedule := true }, []))
  | request (msg : RequestMessage) :
      Receive (.request msg) ((p.receiveRequestMsg config c.registeredTime msg).map fun p =>
        ({ p with reschedule := true }, []))
  | schedule (draws draws' : Draws) {decision : Except Fault (List AllocateRequest × List ℕ)} :
      p.reschedule = true → p.Schedule config c draws decision →
      Receive .schedulerTick (decision >>= p.carryOut c draws')
  | idle : p.reschedule = false → Receive .schedulerTick (.ok (p, []))

end Scheduling

/-! ### What an allocation does -/

section Allocation

variable {σ : Type} [LinearOrder σ]

omit [LinearOrder σ] in
/-- The agents are changed as by the scheduler, and each share is an allocation. -/
theorem foldlM_allocateFit {draws : Draws} {req : AllocateRequest} (fits : List (FittingState σ)) :
    ∀ {agents agents' : Agents}, addTaskToAgents draws req fits agents = .ok agents' →
      ∃ allocations : List ContainerAllocation,
        allocations.map (·.agent) = fits.map (·.agent) ∧
        ∀ taken, fits.foldlM (allocateFit draws req) (agents, taken) =
          .ok (agents', taken ++ allocations) := by
  induction fits with
  | nil =>
    intro agents agents' h
    obtain rfl := Except.ok.inj h
    exact ⟨[], rfl, fun taken => by rw [List.append_nil]; rfl⟩
  | cons fit fits ih =>
    intro agents agents' h
    rw [addTaskToAgents, List.foldlM_cons] at h
    obtain ⟨agents1, hfit, hrest⟩ := bind_eq_ok.mp h
    obtain ⟨r, hr, rfl⟩ := map_eq_ok.mp hfit
    obtain ⟨allocations, hmap, hall⟩ := ih hrest
    refine ⟨⟨fit.agent, (draws req.taskActor fit.agent).id, r.2⟩ :: allocations,
      congrArg (fit.agent :: ·) hmap, fun taken => ?_⟩
    rw [List.foldlM_cons]
    simp only [allocateFit, hr, Except.map, bind, Except.bind]
    rw [hall, List.append_assoc, List.singleton_append]

/-- A task that fits gets its fit, and one that does not changes nothing; either way the allocation
    does not fail. -/
theorem allocateResources_cases (p : ResourcePool) (c : Cluster σ) (draws : Draws)
    (req : AllocateRequest) :
    placeTask c draws p.agents req = none ∧ p.allocateResources c draws req = .ok (p, []) ∨
    ∃ agents allocations, placeTask c draws p.agents req = some agents ∧
      allocations.map (·.agent) = (findFits c req p.agents).map (·.agent) ∧
      p.allocateResources c draws req = .ok
        ({ p with
            agents := agents
            taskList := p.taskList.setAllocations req.taskActor allocations },
          [.resourcesAllocated req.taskActor allocations]) := by
  cases hplace : placeTask c draws p.agents req with
  | none =>
    have hnofit : findFits c req p.agents = [] := by
      by_contra hne
      have hsome : (placeTask c draws p.agents req).isSome := placeTask_isSome.mpr hne
      rw [hplace] at hsome
      cases hsome
    exact .inl ⟨rfl, by rw [allocateResources, hnofit]⟩
  | some agents =>
    obtain ⟨hne, hadd⟩ := placeTask_eq_some.mp hplace
    obtain ⟨allocations, hmap, hall⟩ := foldlM_allocateFit _ hadd
    refine .inr ⟨agents, allocations, rfl, hmap, ?_⟩
    rw [allocateResources]
    split
    · rename_i hnofit
      exact absurd hnofit hne
    · rename_i fit fits hfits
      rw [← hfits, hall, List.nil_append]
      rfl

/-- Allocating one task after the other does not fail, and is a greedy walk over the agents. -/
theorem exists_allocateAll (p : ResourcePool) (c : Cluster σ) (draws : Draws)
    (reqs : List AllocateRequest) : ∃ q notices,
      p.allocateAll c draws reqs = .ok (q, notices) ∧
        q.agents = greedy (placeTask c draws) p.agents reqs := by
  induction reqs generalizing p with
  | nil => exact ⟨p, [], rfl, rfl⟩
  | cons req reqs ih =>
    rw [greedy]
    rcases p.allocateResources_cases c draws req with
      ⟨hplace, hone⟩ | ⟨agents, allocations, hplace, -, hone⟩
    · obtain ⟨q, notices, hall, hagents⟩ := ih p
      refine ⟨q, [] ++ notices, ?_, by rw [hplace, Option.getD_none, hagents]⟩
      rw [allocateAll, hone]
      exact bind_eq_ok.mpr ⟨_, rfl, bind_eq_ok.mpr ⟨_, hall, rfl⟩⟩
    · obtain ⟨q, notices, hall, hagents⟩ := ih
        { p with
            agents := agents
            taskList := p.taskList.setAllocations req.taskActor allocations }
      refine ⟨q, [.resourcesAllocated req.taskActor allocations] ++ notices, ?_,
        by rw [hplace, Option.getD_some, hagents]⟩
      rw [allocateAll, hone]
      exact bind_eq_ok.mpr ⟨_, rfl, bind_eq_ok.mpr ⟨_, hall, rfl⟩⟩

end Allocation

end ResourcePool

end Determined.Pool
