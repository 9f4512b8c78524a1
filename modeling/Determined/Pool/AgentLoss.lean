import Determined.Pool.GroupCover
import Determined.Pool.Preemption

/-! Agents leave a resource pool while tasks are allocated on them.

    The allocations of a task name the agents they are on, and a removal of an agent leaves them as
    they are. Nothing that schedules or allocates looks an agent up by them, but for one: a task
    that is considered for preemption is removed from a copy of the agents of its label. So the
    pool survives the loss of agents as long as no task is considered for preemption that holds an
    allocation on an agent which is not there any more. -/

namespace Determined.Pool
open Determined.Model Determined.Schemes

variable {σ : Type} [LinearOrder σ] {c : Cluster σ} {draws : Draws}
  {taskList : TaskList ContainerAllocation} {groups : ℕ → Option Group} {agents : Agents}
  {label : String} {filter : AllocateRequest → Bool}

/-! ### Removing tasks -/

/-- The agents a task is allocated on are among these. -/
def Lodged (taskList : TaskList ContainerAllocation) (refs : List ℕ) (t : AllocateRequest) : Prop :=
  ∀ allocations, taskList.allocations t.taskActor = some allocations →
    ∀ a ∈ allocations, a.agent ∈ refs

theorem exists_removeTaskFromAgents (allocations : List ContainerAllocation) :
    ∀ agents : Agents, (∀ a ∈ allocations, a.agent ∈ agents.refs) →
      ∃ agents', removeTaskFromAgents agents allocations = .ok agents' ∧
        agents'.refs = agents.refs := by
  induction allocations with
  | nil => exact fun agents _ => ⟨agents, rfl, rfl⟩
  | cons a allocations ih =>
    intro agents h
    obtain ⟨ha, hrest⟩ := List.forall_mem_cons.mp h
    obtain ⟨agents1, h1, hrefs⟩ : ∃ agents1, removeAllocationFromAgents agents a = .ok agents1 ∧
        agents1.refs = agents.refs := by
      rw [removeAllocationFromAgents, Agents.get, if_pos ha]
      exact ⟨_, rfl, rfl⟩
    obtain ⟨agents2, h2, hrefs2⟩ := ih agents1 (hrefs ▸ hrest)
    refine ⟨agents2, ?_, hrefs2.trans hrefs⟩
    rw [removeTaskFromAgents, List.foldlM_cons]
    exact bind_eq_ok.mpr ⟨agents1, h1, h2⟩

/-- Placing a task where it fits does not fail, and keeps the agents. -/
theorem exists_addTaskToAgents (c : Cluster σ) (draws : Draws) (req : AllocateRequest)
    (agents : Agents) :
    ∃ agents', addTaskToAgents draws req (findFits c req agents) agents = .ok agents' ∧
      agents'.refs = agents.refs := by
  obtain ⟨agents', hadd, htakes⟩ := addTaskToAgents_of_fits draws
    (findFits_fits : Fits req agents (findFits c req agents))
  exact ⟨agents', hadd, htakes.refs⟩

/-- A try to preempt tasks does not fail if all that it may remove are lodged. -/
theorem exists_preemptCandidates (c : Cluster σ) (draws : Draws)
    (filter : AllocateRequest → Bool) (req : AllocateRequest) (already : List ℕ)
    {candidates : List AllocateRequest} :
    ∀ (agents : Agents) (preempted : List ℕ),
      (∀ v ∈ candidates, v.nonPreemptible = false → Lodged taskList agents.refs v) →
      ∃ preemption, preemptCandidates c draws taskList req already filter agents preempted
        candidates = .ok preemption ∧ preemption.agents.refs = agents.refs := by
  induction candidates with
  | nil => exact fun agents preempted _ => ⟨_, rfl, rfl⟩
  | cons v candidates ih =>
    intro agents preempted h
    obtain ⟨hv, hrest⟩ := List.forall_mem_cons.mp h
    rw [preemptCandidates]
    split
    · exact ih agents preempted hrest
    · rename_i hcandidate
      simp only [Bool.or_eq_true, not_or, Bool.not_eq_true] at hcandidate
      obtain ⟨agents1, hremove, hrefs⟩ := exists_removeTaskFromAgents
        ((taskList.allocations v.taskActor).getD []) agents fun a ha => by
          cases halloc : taskList.allocations v.taskActor with
          | none => simp [halloc] at ha
          | some allocations =>
            exact hv hcandidate.1.1 allocations halloc a (by simpa [halloc] using ha)
      obtain ⟨agents2, hadd, hrefs2⟩ := exists_addTaskToAgents c draws req agents1
      obtain ⟨preemption, hpreempt, hrefs'⟩ := ih agents1
        (preempted ++ [v.taskActor]) (hrefs ▸ hrest)
      cases hfits : findFits c req agents1 with
      | nil =>
        refine ⟨preemption, bind_eq_ok.mpr ⟨agents1, hremove, ?_⟩, hrefs'.trans hrefs⟩
        simpa only [hfits] using hpreempt
      | cons fit fits =>
        rw [hfits] at hadd
        refine ⟨⟨true, agents2, preempted ++ [v.taskActor]⟩, bind_eq_ok.mpr ⟨agents1, hremove, ?_⟩,
          hrefs2.trans hrefs⟩
        simp only [hfits]
        exact bind_eq_ok.mpr ⟨agents2, hadd, rfl⟩

/-! ### Scheduling does not fail -/

/-- The tasks that may be preempted for a task are lodged: those of larger priority numbers, up to
    the largest that users may specify. -/
def Preemptable (taskList : TaskList ContainerAllocation) (groups : ℕ → Option Group)
    (label : String) (filter : AllocateRequest → Bool) (refs : List ℕ) (u : AllocateRequest) :
    Prop :=
  ∀ v ∈ scheduledTasks taskList label filter, v.nonPreemptible = false →
    priorityOf groups u < priorityOf groups v →
      priorityOf groups v ≤ maxUserSchedulingPriority → Lodged taskList refs v

theorem le_of_mem_lowerPriorities {allocationPriority priority : ℤ}
    (h : priority ∈ lowerPriorities allocationPriority) : priority ≤ maxUserSchedulingPriority := by
  obtain ⟨i, -, rfl⟩ := List.mem_map.mp h
  omega

theorem exists_placeViaPreemption (c : Cluster σ) (draws : Draws) {plan : Plan}
    {req : AllocateRequest}
    (h : Preemptable taskList groups label filter plan.agents.refs req) :
    ∃ plan', placeViaPreemption c draws taskList
        (prioritized groups (scheduledTasks taskList label filter)) filter (priorityOf groups req)
        plan req = .ok plan' ∧ plan'.agents.refs = plan.agents.refs := by
  obtain ⟨agents', hadd, hrefs⟩ := exists_addTaskToAgents c draws req plan.agents
  have hcandidates : ∀ v ∈ (lowerPriorities (priorityOf groups req)).flatMap (fun priority =>
      c.latestFirst (tasksIn (prioritized groups (scheduledTasks taskList label filter)) priority)),
      v.nonPreemptible = false → Lodged taskList plan.agents.refs v := by
    intro v hv hpreemptible
    obtain ⟨priority, hpriority, hv⟩ := List.mem_flatMap.mp hv
    rw [prioritized, tasksIn_map, (c.latestFirst_perm _).mem_iff, List.mem_filter,
      beq_iff_eq] at hv
    exact h v hv.1 hpreemptible (hv.2 ▸ mem_lowerPriorities hpriority)
      (hv.2 ▸ le_of_mem_lowerPriorities hpriority)
  obtain ⟨preemption, hpreempt, hrefs'⟩ := exists_preemptCandidates c draws filter
    req plan.toRelease plan.agents [] hcandidates
  rw [placeViaPreemption]
  split
  · rename_i fit fits hfits
    rw [hfits] at hadd
    exact ⟨_, by rw [hadd]; rfl, hrefs⟩
  · refine ⟨_, map_eq_ok.mpr ⟨preemption, hpreempt, rfl⟩, ?_⟩
    split
    · exact hrefs'
    · rfl

theorem exists_foldlM_placeViaPreemption (c : Cluster σ) (draws : Draws) {priority : ℤ} {refs : List ℕ}
    {reqs : List AllocateRequest} (hpriority : ∀ u ∈ reqs, priorityOf groups u = priority)
    (h : ∀ u ∈ reqs, Preemptable taskList groups label filter refs u) :
    ∀ plan : Plan, plan.agents.refs = refs → ∃ plan',
      reqs.foldlM (placeViaPreemption c draws taskList
        (prioritized groups (scheduledTasks taskList label filter)) filter priority) plan =
          .ok plan' ∧ plan'.agents.refs = refs := by
  induction reqs with
  | nil => exact fun plan hrefs => ⟨plan, rfl, hrefs⟩
  | cons u reqs ih =>
    intro plan hrefs
    obtain ⟨hu, hrest⟩ := List.forall_mem_cons.mp h
    obtain ⟨rfl, hpriority⟩ := List.forall_mem_cons.mp hpriority
    obtain ⟨plan1, h1, hrefs1⟩ := exists_placeViaPreemption c draws (hrefs ▸ hu)
    obtain ⟨plan2, h2, hrefs2⟩ := ih hpriority hrest plan1 (hrefs1.trans hrefs)
    exact ⟨plan2, by rw [List.foldlM_cons, h1]; exact h2, hrefs2⟩

/-- A walk over a level keeps the agents. -/
theorem walk_refs (c : Cluster σ) (draws : Draws) (plan : Plan) (level : List AllocateRequest) :
    (plan.walk c draws level).agents.refs = plan.agents.refs := by
  have hrefs : ∀ (reqs : List AllocateRequest) (agents : Agents),
      (greedy (placeTask c draws) agents reqs).refs = agents.refs := by
    intro reqs
    induction reqs with
    | nil => exact fun _ => rfl
    | cons req reqs ih =>
      intro agents
      rw [greedy, ih]
      cases hplace : placeTask c draws agents req with
      | none => rfl
      | some agents1 => exact (takes_of_placeTask hplace).refs
  exact hrefs level plan.agents

/-- The levels of some priorities. -/
def levelsOf (c : Cluster σ) (groups : ℕ → Option Group) (reqs : List AllocateRequest)
    (priorities : List ℤ) : List (List AllocateRequest) :=
  priorities.map fun priority => c.oldestFirst (tasksIn (prioritized groups reqs) priority)

/-- Once the tasks of all levels may have tasks preempted for them, scheduling does not fail. -/
theorem exists_scheduleByPriority_of_all {reqs : List AllocateRequest} {refs : List ℕ}
    {priorities : List ℤ} (h : ∀ u ∈ (levelsOf c groups reqs priorities).flatten,
      Preemptable taskList groups label filter refs u) :
    ∀ {plan : Plan}, plan.agents.refs = refs → ∃ plan',
      scheduleByPriority c draws true taskList (prioritized groups reqs)
        (prioritized groups (scheduledTasks taskList label filter)) filter plan priorities =
          .ok plan' := by
  induction priorities with
  | nil => exact fun {plan} _ => ⟨plan, rfl⟩
  | cons priority priorities ih =>
    intro plan hrefs
    rw [levelsOf, List.map_cons, List.flatten_cons, List.forall_mem_append] at h
    have hwalk := (walk_refs c draws plan
      (c.oldestFirst (tasksIn (prioritized groups reqs) priority))).trans hrefs
    rw [scheduleByPriority_cons]
    split
    · exact ih h.2 hwalk
    · obtain ⟨plan1, h1, hrefs1⟩ := exists_foldlM_placeViaPreemption c draws
        (fun u hu => (priorityOf_of_passed hu).2)
        (fun u hu => h.1 u ((passed_sublist _).subset hu)) _ hwalk
      obtain ⟨plan2, h2⟩ := ih h.2 hrefs1
      exact ⟨plan2, bind_eq_ok.mpr ⟨plan1, h1, h2⟩⟩

/-- As long as whole levels are placed, only the tasks that are not placed matter. -/
theorem exists_scheduleByPriority {reqs : List AllocateRequest} {priorities : List ℤ} :
    ∀ {plan : Plan}, (levelsOf c groups reqs priorities).flatten.Nodup →
      (∀ u ∈ (levelsOf c groups reqs priorities).flatten,
        u ∉ placedByLevel (placeTask c draws) plan.agents (levelsOf c groups reqs priorities) →
          Preemptable taskList groups label filter plan.agents.refs u) →
      ∃ plan', scheduleByPriority c draws true taskList (prioritized groups reqs)
        (prioritized groups (scheduledTasks taskList label filter)) filter plan priorities =
          .ok plan' := by
  induction priorities with
  | nil => exact fun {plan} _ _ => ⟨plan, rfl⟩
  | cons priority priorities ih =>
    intro plan hnodup h
    rw [levelsOf, List.map_cons, List.flatten_cons] at hnodup
    rw [levelsOf, List.map_cons, List.flatten_cons, List.forall_mem_append, placedByLevel] at h
    obtain ⟨hlevel, hrest⟩ := h
    have hdisjoint := List.disjoint_of_nodup_append hnodup
    have hwalk := walk_refs c draws plan
      (c.oldestFirst (tasksIn (prioritized groups reqs) priority))
    rw [scheduleByPriority_cons]
    split
    · rename_i hpassed
      refine ih (List.nodup_append.mp hnodup).2.1 fun u hu hnot => ?_
      rw [hwalk]
      refine hrest u hu fun hmem => ?_
      rw [if_pos hpassed] at hmem
      rcases List.mem_append.mp hmem with hmem | hmem
      · exact hdisjoint ((placed_sublist _).subset hmem) hu
      · exact hnot hmem
    · rename_i hpassed
      rw [if_neg hpassed, List.append_nil] at hlevel hrest
      obtain ⟨plan1, h1, hrefs1⟩ := exists_foldlM_placeViaPreemption c draws
        (fun u hu => (priorityOf_of_passed hu).2)
        (fun u hu => hlevel u ((passed_sublist _).subset hu) fun hplaced =>
          disjoint_placed_passed (List.nodup_append.mp hnodup).1 hplaced hu) _ hwalk
      obtain ⟨plan2, h2⟩ := exists_scheduleByPriority_of_all (fun u hu => hrest u hu fun hplaced =>
        hdisjoint ((placed_sublist _).subset hplaced) hu) hrefs1
      exact ⟨plan2, bind_eq_ok.mpr ⟨plan1, h1, h2⟩⟩

theorem exists_scheduleByPriority_of_not_enabled {pending scheduled : List (ℤ × AllocateRequest)}
    {priorities : List ℤ} : ∀ {plan : Plan}, ∃ plan',
      scheduleByPriority c draws false taskList pending scheduled filter plan priorities =
        .ok plan' := by
  induction priorities with
  | nil => exact fun {plan} => ⟨plan, rfl⟩
  | cons priority priorities ih =>
    intro plan
    rw [scheduleByPriority_cons]
    split
    · exact ih
    · exact ⟨_, rfl⟩

omit [LinearOrder σ] in
theorem levels_nodup {reqs : List AllocateRequest} (h : reqs.Nodup) :
    (levels c groups reqs).flatten.Nodup := by
  refine List.nodup_flatten.mpr ⟨fun l hl => ?_, ?_⟩
  · obtain ⟨priority, -, rfl⟩ := List.mem_map.mp hl
    exact (c.oldestFirst_perm _).nodup_iff.mpr (h.filter _)
  · refine (levels_priorities c groups reqs).imp fun hlt => ?_
    exact List.disjoint_left.mpr fun x hx hx' => lt_irrefl _ (hlt x hx x hx')

omit [LinearOrder σ] in
theorem levelsOf_orderedPriorities (reqs : List AllocateRequest) :
    levelsOf c groups reqs (getOrderedPriorities (prioritized groups reqs)) =
      levels c groups reqs := by
  simp only [levelsOf, levels, getOrderedPriorities, prioritized, tasksIn_map, List.map_map]
  rfl

namespace ResourcePool

variable {config : ResourcePoolConfig} {p : ResourcePool}

/-- No task that the scheduler may preempt has lost an agent: whenever a pending task cannot be
    started in its turn, the allocations of the tasks that may be preempted for it are all on agents
    that the pool has under their label. -/
def NoneLost (c : Cluster σ) (p : ResourcePool) : Prop :=
  ∀ draws, ∀ label ∈ p.agents.labels, ∀ filter ∈ taskFilters,
    ∀ u ∈ pendingTasks p.taskList label filter,
      u ∉ placedByLevel (placeTask c draws) (p.agents.withLabel label)
        (levels c p.groups (pendingTasks p.taskList label filter)) →
      Preemptable p.taskList p.groups label filter (p.agents.withLabel label).refs u

theorem Covers.prioritySchedulerWithFilter (draws : Draws) (filter : AllocateRequest → Bool)
    (hp : Covers config c p)
    (hpriority : config.scheduler.isPriority = true) {preemption : Bool}
    (hlost : preemption = true → NoneLost c p) (hlabel : label ∈ p.agents.labels)
    (hfilter : filter ∈ taskFilters) : ∃ r, prioritySchedulerWithFilter c draws preemption
      p.taskList p.groups (p.agents.withLabel label) label filter = .ok r := by
  obtain ⟨tasks, htasks⟩ := hp.sortTasksByPriority hpriority label filter
  have hnodup : (pendingTasks p.taskList label filter).Nodup :=
    ((hp.consistent.sorted.imp fun hlt heq => by rw [heq] at hlt; exact lt_irrefl _ hlt).filter
      _).filter _
  obtain ⟨plan, hplan⟩ : ∃ plan, scheduleByPriority c draws preemption p.taskList
      (prioritized p.groups (pendingTasks p.taskList label filter))
      (prioritized p.groups (scheduledTasks p.taskList label filter)) filter
      ⟨p.agents.withLabel label, [], [], true⟩
      (getOrderedPriorities (prioritized p.groups (pendingTasks p.taskList label filter))) =
        .ok plan := by
    cases preemption with
    | false => exact exists_scheduleByPriority_of_not_enabled
    | true =>
      refine exists_scheduleByPriority ?_ ?_ <;> rw [levelsOf_orderedPriorities]
      · exact levels_nodup hnodup
      · exact fun u hu => hlost rfl draws label hlabel filter hfilter u (mem_levels.mp hu)
  refine ⟨(plan.toAllocate, plan.toRelease), bind_eq_ok.mpr ⟨tasks, htasks, ?_⟩⟩
  obtain rfl := sortTasksByPriority_eq htasks
  exact bind_eq_ok.mpr ⟨plan, hplan, rfl⟩

theorem Covers.prioritySchedule (hp : Covers config c p)
    (hpriority : config.scheduler.isPriority = true) {preemption : Bool}
    (hlost : preemption = true → NoneLost c p) :
    ∃ r, prioritySchedule c draws preemption p.taskList p.groups p.agents = .ok r := by
  have hall : ∀ labels ⊆ p.agents.labels, ∃ r,
      scheduleLabels c draws preemption p.taskList p.groups p.agents labels = .ok r := by
    intro labels
    induction labels with
    | nil => exact fun _ => ⟨_, rfl⟩
    | cons label labels ih =>
      intro hsub
      obtain ⟨hlabel, hlabels⟩ := List.cons_subset.mp hsub
      obtain ⟨zero, hzero⟩ := hp.prioritySchedulerWithFilter draws zeroSlotTaskFilter
        hpriority hlost hlabel (by simp [taskFilters])
      obtain ⟨nonZero, hnonZero⟩ := hp.prioritySchedulerWithFilter draws
        nonZeroSlotTaskFilter hpriority hlost hlabel (by simp [taskFilters])
      obtain ⟨rest, hrest⟩ := ih hlabels
      exact ⟨_, bind_eq_ok.mpr ⟨_, bind_eq_ok.mpr ⟨zero, hzero, bind_eq_ok.mpr
        ⟨nonZero, hnonZero, rfl⟩⟩, bind_eq_ok.mpr ⟨rest, hrest, rfl⟩⟩⟩
  exact hall _ fun _ h => h

/-- Each scheduler comes to a decision. -/
theorem Covers.schedule (hp : Covers config c p)
    (hlost : (∃ defaultPriority, config.scheduler = .priority true defaultPriority) → NoneLost c p)
    {decision : Except Fault (List AllocateRequest × List ℕ)}
    (h : p.Schedule config c draws decision) : ∃ r, decision = .ok r := by
  cases h with
  | fairShare _ hfair =>
    cases hfair with
    | error herror =>
      obtain ⟨states, hstates⟩ := hp.groupStates
      rw [hstates] at herror
      cases herror
    | ok _ _ _ => exact ⟨_, rfl⟩
  | @priority preemption defaultPriority hconfig =>
    exact hp.prioritySchedule (by rw [hconfig]; rfl) fun hp => hlost ⟨_, by rw [hconfig, hp]⟩
  | roundRobin _ hround =>
    cases hround with
    | error hmissing =>
      have hgroups := hp.roundRobinStates
      refine absurd (List.pairwise_of_forall_mem_list fun a ha b hb _ => ?_) hmissing
      exact ⟨Option.isSome_iff_ne_none.mpr (hgroups a ha),
        Option.isSome_iff_ne_none.mpr (hgroups b hb)⟩
    | ok _ _ _ => exact ⟨_, rfl⟩

/-! ### Runs -/

/-- A pool that runs, or panicked when it handled a message. -/
inductive Outcome where
  | running (p : ResourcePool)
  | crashed (msg : Message) (fault : Fault)

/-- A running pool receives a message. -/
inductive Turn (config : ResourcePoolConfig) (c : Cluster σ) : Outcome → Message → Outcome → Prop
  | handled {p p' : ResourcePool} {msg : Message} {notices : List Notice} : Sent msg →
      p.Receive config c msg (.ok (p', notices)) → Turn config c (.running p) msg (.running p')
  | panicked {p : ResourcePool} {msg : Message} {fault : Fault} : Sent msg →
      p.Receive config c msg (.error fault) → Turn config c (.running p) msg (.crashed msg fault)

/-- The pool did not panic when it scheduled and allocated, or released resources. -/
def Outcome.Survives : Outcome → Prop
  | .running _ => True
  | .crashed msg _ => msg ≠ .schedulerTick ∧ ∀ actor, msg ≠ .request (.resourcesReleased actor)

/-- A tick of a priority scheduler that preempts finds no task that lost an agent. -/
def LosesNoCandidate (config : ResourcePoolConfig) (c : Cluster σ) (x : Edge Outcome Message) :
    Prop :=
  x.event = .schedulerTick → ∀ p, x.pre = .running p →
    (∃ defaultPriority, config.scheduler = .priority true defaultPriority) → NoneLost c p

/-- A pool that runs covers its tasks, and none panicked in a tick or a release. -/
def Outcome.Good (config : ResourcePoolConfig) (c : Cluster σ) (o : Outcome) : Prop :=
  o.Survives ∧ ∀ p, o = .running p → Covers config c p

theorem Outcome.Good.turn {o o' : Outcome} {msg : Message} (ho : o.Good config c)
    (h : Turn config c o msg o') (hguard : LosesNoCandidate config c ⟨o, msg, o'⟩) :
    o'.Good config c := by
  cases h with
  | @handled p p' _ notices hsent h =>
    refine ⟨trivial, ?_⟩
    rintro _ ⟨⟩
    exact (ho.2 p rfl).step ⟨hsent, notices, h⟩
  | @panicked p _ fault hsent h =>
    refine ⟨?_, by rintro _ ⟨⟩⟩
    generalize hresult : (.error fault : Except Fault (ResourcePool × List Notice)) = result at h
    cases h with
    | agent msg => exact ⟨by simp, by simp⟩
    | request msg =>
      refine ⟨by simp, ?_⟩
      rintro actor ⟨⟩
      cases hresult
    | schedule draws draws' _ hschedule =>
      obtain ⟨decision, rfl⟩ := (ho.2 p rfl).schedule (hguard rfl p rfl) hschedule
      obtain ⟨q, notices, hall, -⟩ := p.exists_allocateAll c draws' decision.1
      simp [carryOut, hall, bind, Except.bind, Except.map] at hresult
    | idle _ => cases hresult

/-- CORRECT: a resource pool survives the loss of agents, whatever it receives, as long as at every
    tick of a priority scheduler that preempts no task lost an agent which might be preempted for a
    pending task that cannot be started: the pool never panics when it schedules, allocates and
    releases. -/
theorem agent_loss_survived (config : ResourcePoolConfig) (c : Cluster σ)
    {tr : List (Edge Outcome Message)} {o : Outcome}
    (h : Run (Turn config c) (.running .new) tr o) (hguard : ∀ x ∈ tr, LosesNoCandidate config c x) :
    ∀ x ∈ tr, x.post.Survives := by
  have hnew : (Outcome.running .new).Good config c :=
    ⟨trivial, by rintro _ ⟨⟩; exact covers_new⟩
  exact fun x hx => ((h.guarded (fun _ _ _ ho hturn hg => ho.turn hturn hg) hnew hguard).1 x hx).2.1

/-! ### A pool with a priority scheduler, evaluated -/

/-- What a pool whose priority scheduler preempts does when the devices are visited as listed. -/
def preempting : ResourcePoolConfig := ⟨.priority true (some 42), 0⟩

def receivePlain (p : ResourcePool) : Message → Except Fault ResourcePool
  | .agent msg => (p.receiveAgentMsg preempting msg).map fun p => { p with reschedule := true }
  | .request msg =>
    (p.receiveRequestMsg preempting (numberedCluster bestFit).registeredTime msg).map fun p =>
      { p with reschedule := true }
  | .schedulerTick =>
    if p.reschedule then
      (prioritySchedule (numberedCluster bestFit) plainDraws true p.taskList p.groups p.agents >>=
        p.carryOut (numberedCluster bestFit) plainDraws).map (·.1)
    else .ok p

theorem receive_plain (p : ResourcePool) (msg : Message) : ∃ r,
    p.Receive preempting (numberedCluster bestFit) msg r ∧ r.map (·.1) = receivePlain p msg := by
  cases msg with
  | agent msg =>
    refine ⟨_, .agent msg, ?_⟩
    rw [receivePlain]
    cases p.receiveAgentMsg preempting msg <;> rfl
  | request msg =>
    refine ⟨_, .request msg, ?_⟩
    rw [receivePlain]
    cases p.receiveRequestMsg preempting (numberedCluster bestFit).registeredTime msg <;> rfl
  | schedulerTick =>
    rw [receivePlain]
    cases hreschedule : p.reschedule with
    | true => exact ⟨_, .schedule plainDraws plainDraws hreschedule (.priority rfl), rfl⟩
    | false => exact ⟨_, .idle hreschedule, rfl⟩

def turnPlain : Outcome → Message → Option Outcome
  | .crashed .., _ => none
  | .running p, msg =>
    if Sent msg then
      match receivePlain p msg with
      | .ok p' => some (.running p')
      | .error fault => some (.crashed msg fault)
    else none

theorem turn_of_turnPlain (o : Outcome) (msg : Message) (o' : Outcome)
    (h : turnPlain o msg = some o') : Turn preempting (numberedCluster bestFit) o msg o' := by
  cases o with
  | crashed => cases h
  | running p =>
    obtain ⟨r, hr, heq⟩ := receive_plain p msg
    rw [turnPlain, ← heq] at h
    split at h
    · rename_i hsent
      cases r with
      | ok r => exact Option.some.inj h ▸ .handled hsent hr
      | error fault => exact Option.some.inj h ▸ .panicked hsent hr
    · cases h

/-- Each agent has one slot, and the one that a task is allocated on is removed. -/
def loseAgent : List Message :=
  [.agent (.addAgent 0 ""), .agent (.addDevice 0 onlyDevice none),
    .request (.allocateRequest (ownGroupTask 1 1) none ""),
    .request (.setGroupPriority 1 (some 50)), .schedulerTick, .agent (.removeAgent 0),
    .agent (.addAgent 3 "")]

/-- How a run ended. -/
def fault : Outcome → Option (Message × Fault)
  | .running _ => none
  | .crashed msg fault => some (msg, fault)

/-- A task of a smaller priority number waits, so the task without its agent is to be preempted. -/
theorem lost_agent_dereferenced : ∃ tr o,
    Run (Turn preempting (numberedCluster bestFit)) (.running .new) tr o ∧
      tr.map (·.event) = loseAgent ++
        [.request (.allocateRequest (ownGroupTask 2 1) none ""), .schedulerTick] ∧
      fault o = some (.schedulerTick, nilDereference) :=
  Run.exists_of_exec turn_of_turnPlain (fun r => fault r.2) (by decide +kernel)

/-- No task waits while another is scheduled. -/
def settled : Outcome → Bool
  | .running p => p.taskList.taskByTime.all (fun t => p.taskList.unassigned t.taskActor) ||
    p.taskList.taskByTime.all fun t => !p.taskList.unassigned t.taskActor
  | .crashed .. => true

theorem noneLost_of_settled {p : ResourcePool} (h : settled (.running p) = true) :
    NoneLost c p := by
  intro draws label _ filter _ u hu _ v hv
  obtain ⟨hu, -, -, hpending⟩ := mem_pendingTasks.mp hu
  obtain ⟨hv, -, -, hscheduled⟩ := mem_scheduledTasks.mp hv
  simp only [settled, Bool.or_eq_true, List.all_eq_true, Bool.not_eq_true'] at h
  rcases h with hall | hall
  · simp [hall v hv] at hscheduled
  · simp [hall u hu] at hpending

/-- Without a task that waits, the pool survives the loss of the agent. -/
theorem agent_loss_survived_without_waiting : ∃ tr o,
    Run (Turn preempting (numberedCluster bestFit)) (.running .new) tr o ∧
      tr.map (·.event) = loseAgent ++ [.schedulerTick] ∧ ∀ x ∈ tr, x.post.Survives := by
  have hexec : (exec turnPlain (.running .new) (loseAgent ++ [.schedulerTick])).map (fun r =>
      r.1.all fun x => settled x.pre) = some true := by decide +kernel
  obtain ⟨tr, o, hrun, hevents, hsettled⟩ := Run.exists_of_exec turn_of_turnPlain _ hexec
  refine ⟨tr, o, hrun, hevents, agent_loss_survived _ _ hrun fun x hx _ p hp _ => ?_⟩
  refine noneLost_of_settled (hp ▸ List.all_eq_true.mp hsettled x hx)

end ResourcePool

end Determined.Pool
