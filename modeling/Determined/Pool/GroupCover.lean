import Determined.Schemes.Run
import Determined.Pool.PriorityOrder
import Determined.Pool.ResourcePool

/-! Every task of a resource pool has a group.

    A task's group is there from the moment the task is added, created if need be. Notifications
    that a group's actor stopped are sent without a reference to it, so no group is ever deleted,
    whatever order they come in with the releases of tasks. -/

namespace Determined.Pool
open Determined.Model Determined.Schemes

namespace ResourcePool

variable {σ : Type} [LinearOrder σ] (config : ResourcePoolConfig) (c : Cluster σ)

/-- The messages that are ever sent. -/
def Sent : Message → Prop
  | .request msg => msg.Sent = true
  | .agent _ | .schedulerTick => True

instance : DecidablePred Sent
  | .request msg => inferInstanceAs (Decidable (msg.Sent = true))
  | .agent _ | .schedulerTick => .isTrue trivial

/-- The pool receives a message and handles it. -/
def Step (p : ResourcePool) (msg : Message) (p' : ResourcePool) : Prop :=
  Sent msg ∧ ∃ notices, p.Receive config c msg (.ok (p', notices))

/-- Every task has a group, with a priority where the scheduler goes by priority. -/
structure Covers (p : ResourcePool) : Prop where
  consistent : p.taskList.Consistent c.registeredTime
  group : ∀ t ∈ p.taskList.taskByHandler, p.groups t.group ≠ none
  priority : config.scheduler.isPriority = true → ∀ handler group,
    p.groups handler = some group → group.priority ≠ none

variable {config c} {p p' : ResourcePool}

/-! ### What is decided is about listed tasks -/

theorem tasksToStart_subset {agents : Agents} {offered : ℤ} {reqs : List AllocateRequest} :
    tasksToStart c agents offered reqs ⊆ reqs := by
  induction reqs generalizing offered with
  | nil => simp [tasksToStart]
  | cons req reqs ih =>
    rw [tasksToStart]
    split
    · exact List.cons_subset_cons _ ih
    · exact fun r hr => List.mem_cons_of_mem _ (ih hr)

theorem listed_of_assigned {taskList : TaskList ContainerAllocation} {agents : Agents}
    {state : Scheduler.OfferState} {req : AllocateRequest}
    (h : req ∈ (assignTasks c taskList agents state).1) : req ∈ taskList.taskByHandler := by
  rw [assignTasks] at h
  split at h
  · cases h
  · split at h
    · obtain ⟨r, -, hr⟩ := List.mem_filterMap.mp (tasksToStart_subset h)
      exact (TaskList.mem_of_getTaskByHandler hr).1
    · cases h

/-- The pending tasks of the group states are of a list. -/
def PendingIn (reqs : List AllocateRequest) (states : List RoundRobinState) : Prop :=
  ∀ state ∈ states, state.pendingReqs ⊆ reqs

theorem PendingIn.rounds {agents : Agents} {reqs : List AllocateRequest}
    {states : List RoundRobinState} (h : PendingIn reqs states) :
    roundRobinRounds c agents states ⊆ reqs := by
  induction states using roundRobinRounds.induct c agents with
  | case1 states hnone => rw [roundRobinRounds, if_pos hnone]; simp
  | case2 states hsome ih =>
    have hturn : ∀ turn ∈ turns c agents states, turn.1 ∈ reqs ∧ turn.2.pendingReqs ⊆ reqs := by
      intro turn hturn
      obtain ⟨state, hstate, htake⟩ := List.mem_filterMap.mp hturn
      rw [takeTurn] at htake
      split at htake
      · cases htake
      · rename_i req rest heq
        split at htake
        · cases htake
        · have hsub := h state hstate
          rw [heq] at hsub
          rw [← Option.some.inj htake]
          exact ⟨hsub (List.mem_cons_self ..), fun r hr => hsub (List.mem_cons_of_mem _ hr)⟩
    rw [roundRobinRounds, if_neg hsome]
    refine List.append_subset.mpr ⟨fun r hr => ?_, ih ?_⟩
    · obtain ⟨turn, hmem, rfl⟩ := List.mem_map.mp hr
      exact (hturn turn hmem).1
    · intro state hstate
      obtain ⟨turn, hmem, rfl⟩ := List.mem_map.mp hstate
      exact (hturn turn hmem).2

/-- What holds of a new state with a request, and is kept when one more is counted, holds of all
    states. -/
theorem forall_roundRobinStates {taskList : TaskList ContainerAllocation}
    {groups : ℕ → Option Group} {P : RoundRobinState → Prop}
    (hnew : ∀ req ∈ taskList.taskByTime, ∀ unassigned,
      P (RoundRobinState.count unassigned ⟨(groups req.group).map fun _ => req.group, 0, []⟩ req))
    (hcount : ∀ req ∈ taskList.taskByTime, ∀ unassigned state, P state →
      P (state.count unassigned req)) : ∀ state ∈ roundRobinStates taskList groups, P state := by
  have hone : ∀ req ∈ taskList.taskByTime, ∀ unassigned states, (∀ state ∈ states, P state) →
      ∀ state ∈ countRoundRobin groups unassigned req states, P state := by
    intro req hreq unassigned states
    induction states with
    | nil => simpa [countRoundRobin] using hnew req hreq unassigned
    | cons state states ih =>
      intro hall
      obtain ⟨hhead, htail⟩ := List.forall_mem_cons.mp hall
      rw [countRoundRobin]
      split
      · exact List.forall_mem_cons.mpr ⟨hcount req hreq unassigned state hhead, htail⟩
      · exact List.forall_mem_cons.mpr ⟨hhead, ih htail⟩
  have hall : ∀ reqs : List AllocateRequest, reqs ⊆ taskList.taskByTime → ∀ states,
      (∀ state ∈ states, P state) → ∀ state ∈ reqs.foldl (fun states req =>
        countRoundRobin groups (taskList.unassigned req.taskActor) req states) states, P state := by
    intro reqs
    induction reqs with
    | nil => exact fun _ _ h => h
    | cons req reqs ih =>
      intro hsub states h
      obtain ⟨hmem, hrest⟩ := List.cons_subset.mp hsub
      exact ih hrest _ (hone req hmem _ states h)
  exact hall _ (fun _ h => h) [] (by simp)

theorem pendingIn_roundRobinStates (taskList : TaskList ContainerAllocation)
    (groups : ℕ → Option Group) :
    PendingIn taskList.taskByTime (roundRobinStates taskList groups) := by
  have hcount : ∀ req ∈ taskList.taskByTime, ∀ unassigned (state : RoundRobinState),
      state.pendingReqs ⊆ taskList.taskByTime →
        (state.count unassigned req).pendingReqs ⊆ taskList.taskByTime := by
    intro req hreq unassigned state hsub
    rw [RoundRobinState.count]
    split
    · exact List.append_subset.mpr ⟨hsub, by simpa using hreq⟩
    · exact hsub
  exact forall_roundRobinStates (fun req hreq unassigned => hcount req hreq unassigned _ (by simp))
    hcount

/-- Each scheduler decides about listed tasks only. -/
theorem listed_of_schedule {draws : Draws} {toAllocate : List AllocateRequest} {toRelease : List ℕ}
    (hlist : p.taskList.taskByTime ⊆ p.taskList.taskByHandler)
    (h : p.Schedule config c draws (.ok (toAllocate, toRelease))) :
    toAllocate ⊆ p.taskList.taskByHandler := by
  intro req hreq
  generalize hdecision : (.ok (toAllocate, toRelease) :
    Except Fault (List AllocateRequest × List ℕ)) = decision at h
  cases h with
  | fairShare _ hfair =>
    cases hfair with
    | error _ => cases hdecision
    | ok _ _ _ =>
      obtain ⟨rfl, -⟩ := Prod.mk.inj (Except.ok.inj hdecision)
      rcases List.mem_append.mp hreq with hreq | hreq
      · exact hlist (List.mem_of_mem_filter hreq)
      · obtain ⟨label, -, hreq⟩ := List.mem_flatMap.mp hreq
        obtain ⟨state, -, hreq⟩ := List.mem_flatMap.mp hreq
        exact listed_of_assigned hreq
  | priority _ =>
    obtain ⟨label, -, filter, -, r, hr, hreq⟩ := (scheduleLabels_spec hdecision.symm).2.1 req hreq
    exact hlist (mem_pendingTasks.mp (pending_of_allocated hr hreq)).1
  | roundRobin _ hround =>
    cases hround with
    | error _ => cases hdecision
    | ok _ hperm _ =>
      obtain ⟨rfl, -⟩ := Prod.mk.inj (Except.ok.inj hdecision)
      have hpending := pendingIn_roundRobinStates p.taskList p.groups
      refine hlist (PendingIn.rounds (fun state hstate => ?_) hreq)
      exact hpending state (hperm.mem_iff.mp hstate)

/-! ### Groups stay -/

theorem newGroup_priority {group : Group} (h : newGroup config = .ok group)
    (hpriority : config.scheduler.isPriority = true) : group.priority ≠ none := by
  rw [newGroup] at h
  split at h
  · cases h
  · rw [← Except.ok.inj h]
    simp
  · rename_i heq
    simp [heq, SchedulerConfig.isPriority] at hpriority
  · rename_i heq
    simp [heq, SchedulerConfig.isPriority] at hpriority

omit [LinearOrder σ] in
/-- A group is changed or created, and the others stay. -/
theorem Covers.getOrCreateGroup (hp : Covers config c p) {handler : ℕ} {change : Group → Group}
    (h : p.getOrCreateGroup config handler change = .ok p')
    (hchange : ∀ group, group.priority ≠ none → (change group).priority ≠ none) :
    Covers config c p' ∧ p'.taskList = p.taskList ∧ p'.groups handler ≠ none := by
  have hupdate : ∀ group, (config.scheduler.isPriority = true → group.priority ≠ none) →
      Covers config c { p with
        groups := Function.update p.groups handler (some (change group)) } := by
    intro group hgroup
    refine ⟨hp.consistent, fun t ht => ?_, fun hpriority g group' hg => ?_⟩
    · by_cases heq : t.group = handler
      · simp [heq]
      · simpa [heq] using hp.group t ht
    · by_cases heq : g = handler
      · subst heq
        obtain rfl : change group = group' := by simpa using hg
        exact hchange group (hgroup hpriority)
      · exact hp.priority hpriority g group' (by simpa [heq] using hg)
  rw [ResourcePool.getOrCreateGroup] at h
  split at h
  · rename_i group hgroup
    obtain rfl := Except.ok.inj h
    exact ⟨hupdate group fun hpriority => hp.priority hpriority _ _ hgroup, rfl, by simp⟩
  · obtain ⟨group, hgroup, rfl⟩ := map_eq_ok.mp h
    exact ⟨hupdate group (newGroup_priority hgroup), rfl, by simp⟩

omit [LinearOrder σ] in
theorem Covers.receiveRequestMsg (hp : Covers config c p) {msg : RequestMessage}
    (hsent : msg.Sent = true)
    (h : p.receiveRequestMsg config c.registeredTime msg = .ok p') : Covers config c p' := by
  cases msg with
  | groupActorStopped ref =>
    obtain rfl : ref = none := by simpa [RequestMessage.Sent] using hsent
    exact Except.ok.inj h ▸ hp
  | setGroupMaxSlots handler maxSlots => exact (hp.getOrCreateGroup h fun _ h => h).1
  | setGroupWeight handler weight => exact (hp.getOrCreateGroup h fun _ h => h).1
  | setGroupPriority handler priority =>
    obtain ⟨set, hset, h⟩ := bind_eq_ok.mp h
    have hcovers := (hp.getOrCreateGroup hset fun group hgroup => by
      cases priority <;> simp [hgroup]).1
    split at h
    · cases h
    · exact Except.ok.inj h ▸ hcovers
  | setTaskName taskHandler => exact Except.ok.inj h ▸ hp
  | allocateRequest msg group newID =>
    obtain ⟨created, hcreated, rfl⟩ := map_eq_ok.mp h
    obtain ⟨hcovers, hlist, hgroup⟩ := hp.getOrCreateGroup hcreated fun _ h => h
    refine ⟨hcovers.consistent.addTask _, fun t ht => ?_, hcovers.priority⟩
    rw [TaskList.addTask] at ht
    split at ht
    · exact hcovers.group t ht
    · rcases List.mem_append.mp ht with ht | ht
      · exact hcovers.group t ht
      · rw [List.mem_singleton.mp ht]
        exact hgroup
  | resourcesReleased taskActor =>
    obtain rfl := Except.ok.inj h
    refine ⟨hp.consistent.removeTaskByHandler _, fun t ht => hp.group t ?_, hp.priority⟩
    rw [resourcesReleased, TaskList.removeTaskByHandler] at ht
    split at ht
    · exact ht
    · exact List.mem_of_mem_filter ht

theorem receiveAgentMsg_taskList {msg : AgentMessage} (h : p.receiveAgentMsg config msg = .ok p') :
    p'.taskList = p.taskList ∧ p'.groups = p.groups := by
  cases msg <;> simp only [receiveAgentMsg] at h
  case addAgent => exact Except.ok.inj h ▸ ⟨rfl, rfl⟩
  case removeAgent => exact Except.ok.inj h ▸ ⟨rfl, rfl⟩
  case freeDevice =>
    split at h
    · cases h
    · cases h
    · obtain ⟨a, -, rfl⟩ := map_eq_ok.mp h
      exact ⟨rfl, rfl⟩
  all_goals
    split at h
    · cases h
    · exact Except.ok.inj h ▸ ⟨rfl, rfl⟩

theorem Covers.allocateAll {draws : Draws} {reqs : List AllocateRequest} :
    ∀ {p : ResourcePool} {notices : List Notice}, Covers config c p →
      reqs ⊆ p.taskList.taskByHandler → p.allocateAll c draws reqs = .ok (p', notices) →
        Covers config c p' := by
  induction reqs with
  | nil =>
    intro p notices hp _ h
    obtain ⟨rfl, -⟩ := Prod.mk.inj (Except.ok.inj h)
    exact hp
  | cons req reqs ih =>
    intro p notices hp hlisted h
    obtain ⟨hreq, hlisted⟩ := List.cons_subset.mp hlisted
    obtain ⟨r, hone, h⟩ := bind_eq_ok.mp h
    obtain ⟨rest, hrest, h⟩ := bind_eq_ok.mp h
    obtain ⟨rfl, -⟩ := Prod.mk.inj (Except.ok.inj h)
    rcases p.allocateResources_cases c draws req with
      ⟨-, heq⟩ | ⟨agents, allocations, -, -, heq⟩
    all_goals
      obtain rfl := Except.ok.inj (hone.symm.trans heq)
    · exact ih hp hlisted hrest
    · refine ih (p := { p with
        agents := agents
        taskList := p.taskList.setAllocations req.taskActor allocations }) ?_ hlisted hrest
      exact ⟨hp.consistent.setAllocations _ (List.mem_map_of_mem hreq), hp.group, hp.priority⟩

theorem Covers.step {msg : Message} (hp : Covers config c p) (h : Step config c p msg p') :
    Covers config c p' := by
  obtain ⟨hsent, notices, h⟩ := h
  generalize hresult : (.ok (p', notices) : Except Fault (ResourcePool × List Notice)) = result at h
  cases h with
  | agent msg =>
    obtain ⟨q, hq, heq⟩ := map_eq_ok.mp hresult.symm
    obtain ⟨rfl, -⟩ := Prod.mk.inj heq
    obtain ⟨hlist, hgroups⟩ := receiveAgentMsg_taskList hq
    exact ⟨hlist ▸ hp.consistent, hlist ▸ hgroups ▸ hp.group, hgroups ▸ hp.priority⟩
  | request msg =>
    obtain ⟨q, hq, heq⟩ := map_eq_ok.mp hresult.symm
    obtain ⟨rfl, -⟩ := Prod.mk.inj heq
    exact { hp.receiveRequestMsg hsent hq with }
  | schedule draws draws' _ hschedule =>
    obtain ⟨decision, rfl, hcarry⟩ := bind_eq_ok.mp hresult.symm
    obtain ⟨r, hr, heq⟩ := map_eq_ok.mp hcarry
    obtain ⟨rfl, -⟩ := Prod.mk.inj heq
    exact { hp.allocateAll (listed_of_schedule hp.consistent.subset hschedule) hr with }
  | idle _ =>
    obtain ⟨rfl, -⟩ := Prod.mk.inj (Except.ok.inj hresult)
    exact hp

omit [LinearOrder σ] in
theorem covers_new : Covers config c .new where
  consistent := .empty
  group := by simp [new, TaskList.empty]
  priority := by simp [new]

/-! ### The lookups of the schedulers -/

omit [LinearOrder σ] in
theorem Covers.sortTasksByPriority (hp : Covers config c p)
    (hpriority : config.scheduler.isPriority = true) (label : String)
    (filter : AllocateRequest → Bool) :
    ∃ tasks, sortTasksByPriority p.taskList p.groups label filter = .ok tasks := by
  have hone : ∀ req ∈ p.taskList.taskByTime,
      ∃ priority, taskPriority p.groups req = .ok priority := by
    intro req hreq
    cases hgroup : p.groups req.group with
    | none => exact absurd hgroup (hp.group req (hp.consistent.subset req hreq))
    | some group =>
      cases hp' : group.priority with
      | none => exact absurd hp' (hp.priority hpriority _ _ hgroup)
      | some priority => exact ⟨priority, by simp only [taskPriority, hgroup, hp']⟩
  have hall : ∀ reqs : List AllocateRequest, reqs ⊆ p.taskList.taskByTime →
      ∃ tasks, (reqs.mapM fun req => (taskPriority p.groups req).map (·, req)) = .ok tasks := by
    intro reqs
    induction reqs with
    | nil => exact fun _ => ⟨[], rfl⟩
    | cons req reqs ih =>
      intro hsub
      obtain ⟨hmem, hrest⟩ := List.cons_subset.mp hsub
      obtain ⟨priority, hpriority⟩ := hone req hmem
      obtain ⟨tasks, htasks⟩ := ih hrest
      refine ⟨(priority, req) :: tasks, ?_⟩
      rw [List.mapM_cons, htasks, hpriority]
      rfl
  obtain ⟨tasks, htasks⟩ := hall _ (List.filter_subset_self _)
  exact ⟨_, by rw [Pool.sortTasksByPriority, tasksByPriority, htasks]; rfl⟩

omit [LinearOrder σ] in
theorem Covers.groupStates (hp : Covers config c p) :
    ∃ states, groupStates c p.taskList p.groups p.agents = .ok states := by
  rw [Pool.groupStates, Scheduler.calculateGroupStates, if_neg]
  · exact ⟨_, rfl⟩
  · rw [List.any_eq_true]
    rintro ⟨r, hr, hnone⟩
    obtain ⟨req, hreq, rfl⟩ := List.mem_map.mp (List.mem_of_mem_filter hr)
    cases hgroup : p.groups req.group with
    | none => exact hp.group req (hp.consistent.subset req hreq) hgroup
    | some group =>
      have hmem : (⟨req.group, c.registeredTime req.group, group.maxSlots, group.weight⟩ :
          Scheduler.Group) ∈ groupsOf c.registeredTime p.groups p.taskList := by
        refine List.mem_filterMap.mpr ⟨req.group, ?_, by rw [hgroup]; rfl⟩
        exact List.mem_dedup.mpr (List.mem_map_of_mem hreq)
      rw [Scheduler.findGroup, Option.isNone_iff_eq_none, List.find?_eq_none] at hnone
      exact hnone _ hmem (by simp)

omit [LinearOrder σ] in
theorem Covers.roundRobinStates (hp : Covers config c p) :
    ∀ state ∈ roundRobinStates p.taskList p.groups, state.group ≠ none := by
  have hcount : ∀ (unassigned : Bool) (req : AllocateRequest) (state : RoundRobinState),
      (state.count unassigned req).group = state.group := by
    intro unassigned req state
    rw [RoundRobinState.count]
    split <;> rfl
  refine forall_roundRobinStates (fun req hreq unassigned => ?_) fun req _ unassigned state h => ?_
  · rw [hcount]
    simpa using hp.group req (hp.consistent.subset req hreq)
  · rwa [hcount]

/-- In every state a resource pool reaches, the groups of all tasks are there, so no scheduler looks
    up a missing one: the priority scheduler finds the priorities of the tasks of each label and
    class, and the other two the groups of their group states. -/
theorem groups_cover_queue (config : ResourcePoolConfig) (c : Cluster σ) {p : ResourcePool}
    (h : Reach (Step config c) .new p) :
    (∀ t ∈ p.taskList.taskByHandler, ∃ group, p.groups t.group = some group) ∧
    p.taskList.taskByTime ⊆ p.taskList.taskByHandler ∧
    (config.scheduler.isPriority = true → ∀ label filter, ∃ tasks,
      sortTasksByPriority p.taskList p.groups label filter = .ok tasks) ∧
    (∃ states, groupStates c p.taskList p.groups p.agents = .ok states) ∧
    ∀ state ∈ roundRobinStates p.taskList p.groups, ∃ ref, state.group = some ref := by
  have hp : Covers config c p := h.invariant (fun _ _ _ hp hstep => hp.step hstep) covers_new
  exact ⟨fun t ht => Option.ne_none_iff_exists'.mp (hp.group t ht), hp.consistent.subset,
    hp.sortTasksByPriority, hp.groupStates,
    fun state hstate => Option.ne_none_iff_exists'.mp (hp.roundRobinStates state hstate)⟩

/-- A task that is its own group is added. -/
theorem groups_cover_queue_one_task : ∃ p, Reach (Step ⟨.priority true (some 42), 0⟩
      (numberedCluster bestFit)) .new p ∧ p.taskList.taskByHandler = [ownGroupTask 1 1] ∧
    ∀ t ∈ p.taskList.taskByHandler, ∃ group, p.groups t.group = some group := by
  have hreach : Reach (Step ⟨.priority true (some 42), 0⟩ (numberedCluster bestFit)) .new _ :=
    ⟨_, .cons (⟨rfl, [], .request (.allocateRequest (ownGroupTask 1 1) none "")⟩ :
      Step _ _ _ (.request (.allocateRequest (ownGroupTask 1 1) none "")) _) (.nil _)⟩
  exact ⟨_, hreach, rfl, (groups_cover_queue _ _ hreach).1⟩

end ResourcePool

end Determined.Pool
