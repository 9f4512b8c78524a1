import Determined.Pool.Priority

/-! The fair-share and the round-robin scheduler of a pool (`internal/resourcemanagers/fair_share.go`,
    `round_robin.go`), over the group states and slot offers of `Determined.Scheduler`.

    A request is known by the actor of its task, a group by its handler. Neither scheduler changes
    the agents. The order in which the labels are walked is not fixed, and the sorts are not stable:
    the schedules are relations. -/

namespace Determined.Pool
open Determined.Model

variable {σ : Type} [LinearOrder σ] (c : Cluster σ)

/-! ### Fair share -/

/-- The tasks and their allocations as the group states read them. -/
def TaskList.demands (l : TaskList ContainerAllocation) : Scheduler.TaskList where
  tasks := l.taskByTime.map (·.toAllocateRequest)
  allocations handler := (l.allocations handler).map List.length

/-- The groups of the tasks. -/
def groupsOf (registeredTime : ℕ → ℤ) (groups : ℕ → Option Group)
    (taskList : TaskList ContainerAllocation) : List Scheduler.Group :=
  ((taskList.taskByTime.map (·.group)).dedup).filterMap fun ref =>
    (groups ref).map fun group => ⟨ref, registeredTime ref, group.maxSlots, group.weight⟩

def capacityByAgentLabel (agents : Agents) (label : String) : ℤ :=
  ((agents.withLabel label).refs.map fun ref => ((agents.state ref).numSlots : ℤ)).sum

/-- Zero-slot tasks are allocated wherever they fit. -/
def zeroSlotTasks (taskList : TaskList ContainerAllocation) (agents : Agents) :
    List AllocateRequest :=
  taskList.taskByTime.filter fun req =>
    req.slotsNeeded == 0 && (taskList.allocations req.taskActor).isNone &&
      !(findFits c req agents).isEmpty

/-- Terminate tasks while the slots of active tasks are more than the offered ones. -/
def tasksToRelease (offered : ℤ) : ℤ → List Scheduler.AllocateRequest → List ℕ
  | _, [] => []
  | activeSlots, req :: reqs =>
    if req.nonPreemptible then tasksToRelease offered activeSlots reqs
    else if activeSlots - req.slotsNeeded ≤ offered then [req.taskActor]
    else req.taskActor :: tasksToRelease offered (activeSlots - req.slotsNeeded) reqs

/-- Start tasks while there are still offered slots remaining. -/
def tasksToStart (agents : Agents) : ℤ → List AllocateRequest → List AllocateRequest
  | _, [] => []
  | offered, req :: reqs =>
    if (req.slotsNeeded : ℤ) ≤ offered ∧ findFits c req agents ≠ [] then
      req :: tasksToStart agents (offered - req.slotsNeeded) reqs
    else tasksToStart agents offered reqs

/-- Slots are not freed immediately, so a group does not terminate and start tasks at once. -/
def assignTasks (taskList : TaskList ContainerAllocation) (agents : Agents)
    (state : Scheduler.OfferState) : List AllocateRequest × List ℕ :=
  if state.activeSlots > state.offered then
    ([], tasksToRelease state.offered state.activeSlots state.allocatedReqs)
  else if state.activeSlots < state.offered then
    (tasksToStart c agents (state.offered - state.activeSlots)
      (state.pendingReqs.filterMap fun req => taskList.getTaskByHandler req.taskActor), [])
  else ([], [])

/-- The group states by label. -/
def groupStates (taskList : TaskList ContainerAllocation) (groups : ℕ → Option Group)
    (agents : Agents) : Except Fault (String → List Scheduler.GroupState) :=
  Scheduler.calculateGroupStates taskList.demands (groupsOf c.registeredTime groups taskList)
    (capacityByAgentLabel agents)

/-- Labels without group states assign nothing. -/
inductive FairshareSchedule (taskList : TaskList ContainerAllocation) (groups : ℕ → Option Group)
    (agents : Agents) : Except Fault (List AllocateRequest × List ℕ) → Prop
  | error {e : Fault} : groupStates c taskList groups agents = .error e →
      FairshareSchedule taskList groups agents (.error e)
  | ok {states : String → List Scheduler.GroupState} {labels : List String}
      {order : ∀ label, Scheduler.SortedStates (states label)}
      {offers : String → List Scheduler.OfferState} :
      groupStates c taskList groups agents = .ok states →
      labels.Perm (taskList.taskByTime.map (·.label)).dedup →
      (∀ label ∈ labels, Scheduler.AllocateSlotOffers (order label)
        (capacityByAgentLabel agents label) (offers label)) →
      FairshareSchedule taskList groups agents
        (.ok (zeroSlotTasks c taskList agents ++ labels.flatMap fun label =>
            (offers label).flatMap fun state => (assignTasks c taskList agents state).1,
          labels.flatMap fun label =>
            (offers label).flatMap fun state => (assignTasks c taskList agents state).2))

/-! ### Round robin -/

/-- The state of a group; a missing group is none. -/
structure RoundRobinState where
  group : Option ℕ
  activeSlots : ℕ
  pendingReqs : List AllocateRequest

/-- Count a request of a group. -/
def RoundRobinState.count (unassigned : Bool) (state : RoundRobinState) (req : AllocateRequest) :
    RoundRobinState :=
  if unassigned then { state with pendingReqs := state.pendingReqs ++ [req] }
  else { state with activeSlots := state.activeSlots + req.slotsNeeded }

def countRoundRobin (groups : ℕ → Option Group) (unassigned : Bool) (req : AllocateRequest) :
    List RoundRobinState → List RoundRobinState
  | [] => [RoundRobinState.count unassigned ⟨(groups req.group).map fun _ => req.group, 0, []⟩ req]
  | state :: states =>
    if state.group = (groups req.group).map fun _ => req.group then
      state.count unassigned req :: states
    else state :: countRoundRobin groups unassigned req states

def roundRobinStates (taskList : TaskList ContainerAllocation) (groups : ℕ → Option Group) :
    List RoundRobinState :=
  taskList.taskByTime.foldl (fun states req =>
    countRoundRobin groups (taskList.unassigned req.taskActor) req states) []

/-- The first pending task of a group, if it fits, and what is left of the group. -/
def takeTurn (agents : Agents) (state : RoundRobinState) :
    Option (AllocateRequest × RoundRobinState) :=
  match state.pendingReqs with
  | [] => none
  | req :: reqs =>
    if findFits c req agents = [] then none else some (req, { state with pendingReqs := reqs })

/-- One round over the groups. -/
def turns (agents : Agents) (states : List RoundRobinState) :
    List (AllocateRequest × RoundRobinState) := states.filterMap (takeTurn c agents)

/-- Each turn takes a pending task. -/
theorem turns_pending (agents : Agents) (states : List RoundRobinState) :
    ((turns c agents states).map (·.2.pendingReqs.length)).sum + (turns c agents states).length ≤
      (states.map (·.pendingReqs.length)).sum := by
  induction states with
  | nil => simp [turns]
  | cons state states ih =>
    simp only [turns, List.filterMap_cons, List.map_cons, List.sum_cons] at ih ⊢
    cases h : takeTurn c agents state with
    | none => exact ih.trans (Nat.le_add_left ..)
    | some turn =>
      have hturn : turn.2.pendingReqs.length + 1 = state.pendingReqs.length := by
        rw [takeTurn] at h
        split at h
        · cases h
        · rename_i req reqs heq
          split at h
          · cases h
          · rw [← Option.some.inj h, heq]
            rfl
      simp only [List.map_cons, List.sum_cons, List.length_cons]
      omega

/-- Each round takes the first pending task of each group; a group whose first task does not fit
    is out. -/
def roundRobinRounds (agents : Agents) (states : List RoundRobinState) : List AllocateRequest :=
  if turns c agents states = [] then []
  else (turns c agents states).map (·.1) ++
    roundRobinRounds agents ((turns c agents states).map (·.2))
termination_by (states.map (·.pendingReqs.length)).sum
decreasing_by
  rename_i hne
  have hle := turns_pending c agents states
  have hpos := List.length_pos_iff.mpr hne
  rw [List.map_map]
  simp only [Function.comp_def]
  omega

/-- `a` is sorted before `b`: by active slots, then by time. -/
def RoundRobinState.before (registeredTime : ℕ → ℤ) (a b : RoundRobinState) : Prop :=
  a.activeSlots < b.activeSlots ∨ a.activeSlots = b.activeSlots ∧
    registeredTime (a.group.getD 0) < registeredTime (b.group.getD 0)

/-- The sort compares groups of the same active slots by their handlers, which a missing group does
    not have. -/
inductive RoundRobinSchedule (taskList : TaskList ContainerAllocation) (groups : ℕ → Option Group)
    (agents : Agents) : Except Fault (List AllocateRequest × List ℕ) → Prop
  | error : ¬ (roundRobinStates taskList groups).Pairwise (fun a b =>
        a.activeSlots = b.activeSlots → a.group.isSome ∧ b.group.isSome) →
      RoundRobinSchedule taskList groups agents (.error nilDereference)
  | ok {states : List RoundRobinState} : (roundRobinStates taskList groups).Pairwise (fun a b =>
        a.activeSlots = b.activeSlots → a.group.isSome ∧ b.group.isSome) →
      states.Perm (roundRobinStates taskList groups) →
      states.Pairwise (fun a b => ¬ b.before c.registeredTime a) →
      RoundRobinSchedule taskList groups agents (.ok (roundRobinRounds c agents states, []))

end Determined.Pool
