import Determined.Pool.Placement

/-! The order in which the priority scheduler starts tasks.

    The pending tasks of a label and class, by priority and within a priority by age, are walked
    greedily level by level: once a task of a level does not fit, nothing of the later levels is
    started. What preemption does afterwards to the copy of the agents decides about no task that is
    started. So a task is started only if all those of smaller priority numbers are, and where they
    are, exactly if it fits on the agents as the earlier ones left them. -/

namespace Determined.Pool
open Determined.Model Determined.Schemes

/-! ### The pending tasks by priority -/

/-- The priority of a task whose group has one. -/
def priorityOf (groups : ℕ → Option Group) (req : AllocateRequest) : ℤ :=
  ((groups req.group).bind (·.priority)).getD 0

variable {groups : ℕ → Option Group}

theorem priorityOf_of_taskPriority {req : AllocateRequest} {priority : ℤ}
    (h : taskPriority groups req = .ok priority) : priorityOf groups req = priority := by
  rw [taskPriority] at h
  split at h
  · cases h
  · rename_i group hgroup
    split at h
    · cases h
    · rename_i p hp
      obtain rfl := Except.ok.inj h
      simp [priorityOf, hgroup, hp]

theorem mapM_taskPriority {reqs : List AllocateRequest} :
    ∀ {tasks : List (ℤ × AllocateRequest)},
      (reqs.mapM fun req => (taskPriority groups req).map (·, req)) = .ok tasks →
        tasks = reqs.map fun req => (priorityOf groups req, req) := by
  induction reqs with
  | nil => intro tasks h; cases h; rfl
  | cons req reqs ih =>
    intro tasks h
    rw [List.mapM_cons, bind_eq_ok] at h
    obtain ⟨task, htask, h⟩ := h
    obtain ⟨rest, hrest, h⟩ := bind_eq_ok.mp h
    obtain rfl := Except.ok.inj h
    rw [List.map_cons, ← ih hrest]
    cases hp : taskPriority groups req with
    | error e => rw [hp] at htask; cases htask
    | ok priority =>
      rw [hp] at htask
      rw [← Except.ok.inj htask, priorityOf_of_taskPriority hp]

variable {taskList : TaskList ContainerAllocation} {label : String}
  {filter : AllocateRequest → Bool}

/-- The pending tasks of a label and class. -/
def pendingTasks (taskList : TaskList ContainerAllocation) (label : String)
    (filter : AllocateRequest → Bool) : List AllocateRequest :=
  (taskList.taskByTime.filter fun req => req.label == label && filter req).filter fun req =>
    taskList.unassigned req.taskActor

/-- The scheduled tasks of a label and class. -/
def scheduledTasks (taskList : TaskList ContainerAllocation) (label : String)
    (filter : AllocateRequest → Bool) : List AllocateRequest :=
  (taskList.taskByTime.filter fun req => req.label == label && filter req).filter fun req =>
    !taskList.unassigned req.taskActor

theorem sortTasksByPriority_eq {tasks : List (ℤ × AllocateRequest) × List (ℤ × AllocateRequest)}
    (h : sortTasksByPriority taskList groups label filter = .ok tasks) :
    tasks = ((pendingTasks taskList label filter).map fun req => (priorityOf groups req, req),
      (scheduledTasks taskList label filter).map fun req => (priorityOf groups req, req)) := by
  rw [sortTasksByPriority] at h
  cases htasks : tasksByPriority taskList groups label filter with
  | error e => rw [htasks] at h; cases h
  | ok all =>
    rw [htasks] at h
    rw [← Except.ok.inj h, mapM_taskPriority htasks, List.partition_eq_filter_filter]
    simp only [pendingTasks, scheduledTasks, List.filter_map]
    rfl

theorem mem_pendingTasks {req : AllocateRequest} :
    req ∈ pendingTasks taskList label filter ↔ req ∈ taskList.taskByTime ∧ req.label = label ∧
      filter req ∧ taskList.unassigned req.taskActor := by
  simp only [pendingTasks, List.mem_filter, Bool.and_eq_true, beq_iff_eq, and_assoc]

theorem mem_scheduledTasks {req : AllocateRequest} :
    req ∈ scheduledTasks taskList label filter ↔ req ∈ taskList.taskByTime ∧ req.label = label ∧
      filter req ∧ taskList.unassigned req.taskActor = false := by
  simp only [scheduledTasks, List.mem_filter, Bool.and_eq_true, beq_iff_eq, and_assoc,
    Bool.not_eq_true']

/-- The tasks of one priority among tasks with their priorities. -/
theorem tasksIn_map (reqs : List AllocateRequest) (priority : ℤ) :
    tasksIn (reqs.map fun req => (priorityOf groups req, req)) priority =
      reqs.filter fun req => priorityOf groups req == priority := by
  rw [tasksIn, List.filter_map, List.map_map]
  exact List.map_id' _

/-! ### The levels are the pending tasks in order -/

section Levels

variable {σ : Type} {c : Cluster σ}

/-- The levels that are walked: the pending tasks by priority, each oldest first. -/
def levels (c : Cluster σ) (groups : ℕ → Option Group) (reqs : List AllocateRequest) :
    List (List AllocateRequest) :=
  (((reqs.map (priorityOf groups)).dedup).insertionSort (· ≤ ·)).map fun priority =>
    c.oldestFirst (reqs.filter fun req => priorityOf groups req == priority)

/-- A task is considered before another: its priority number is smaller, or it is the older one of
    the same priority. -/
def Before (c : Cluster σ) (groups : ℕ → Option Group) (a b : AllocateRequest) : Prop :=
  priorityOf groups a < priorityOf groups b ∨ priorityOf groups a = priorityOf groups b ∧
    c.registeredTime a.taskActor < c.registeredTime b.taskActor

theorem mem_level {reqs : List AllocateRequest} {priority : ℤ} {req : AllocateRequest} :
    req ∈ c.oldestFirst (reqs.filter fun req => priorityOf groups req == priority) ↔
      req ∈ reqs ∧ priorityOf groups req = priority := by
  rw [(c.oldestFirst_perm _).mem_iff, List.mem_filter, beq_iff_eq]

theorem levels_priorities (c : Cluster σ) (groups : ℕ → Option Group)
    (reqs : List AllocateRequest) : (levels c groups reqs).Pairwise
    fun l l' => ∀ x ∈ l, ∀ y ∈ l', priorityOf groups x < priorityOf groups y := by
  rw [levels, List.pairwise_map]
  have hle := List.pairwise_insertionSort (· ≤ ·) (reqs.map (priorityOf groups)).dedup
  have hne : ((reqs.map (priorityOf groups)).dedup.insertionSort (· ≤ ·)).Nodup :=
    (List.perm_insertionSort _ _).nodup_iff.mpr (List.nodup_dedup _)
  refine (hle.and hne).imp ?_
  rintro p q ⟨hpq, hne⟩ x hx y hy
  rw [(mem_level.mp hx).2, (mem_level.mp hy).2]
  exact lt_of_le_of_ne hpq hne

theorem level_priority {reqs l : List AllocateRequest} (hl : l ∈ levels c groups reqs) :
    ∀ x ∈ l, ∀ y ∈ l, priorityOf groups x = priorityOf groups y := by
  obtain ⟨priority, -, rfl⟩ := List.mem_map.mp hl
  exact fun x hx y hy => (mem_level.mp hx).2.trans (mem_level.mp hy).2.symm

theorem levels_before (groups : ℕ → Option Group) {reqs : List AllocateRequest} (htimes : reqs.Pairwise fun a b =>
      c.registeredTime a.taskActor ≠ c.registeredTime b.taskActor) :
    (levels c groups reqs).flatten.Pairwise (Before c groups) := by
  refine List.pairwise_flatten.mpr ⟨fun l hl => ?_, ?_⟩
  · have hsame := level_priority hl
    obtain ⟨priority, -, rfl⟩ := List.mem_map.mp hl
    have hne : (c.oldestFirst (reqs.filter fun req => priorityOf groups req == priority)).Pairwise
        fun a b => c.registeredTime a.taskActor ≠ c.registeredTime b.taskActor :=
      ((c.oldestFirst_perm _).pairwise_iff fun h => Ne.symm h).mpr (htimes.sublist
        List.filter_sublist)
    refine ((c.oldestFirst_sorted _).and hne).imp_of_mem ?_
    rintro a b ha hb ⟨hle, hne⟩
    exact .inr ⟨hsame a ha b hb, lt_of_le_of_ne hle hne⟩
  · exact (levels_priorities c groups reqs).imp fun h x hx y hy => .inl (h x hx y hy)

theorem mem_levels {reqs : List AllocateRequest} {req : AllocateRequest} :
    req ∈ (levels c groups reqs).flatten ↔ req ∈ reqs := by
  rw [List.mem_flatten]
  constructor
  · rintro ⟨l, hl, hreq⟩
    obtain ⟨priority, -, rfl⟩ := List.mem_map.mp hl
    exact (mem_level.mp hreq).1
  · intro hreq
    refine ⟨_, List.mem_map.mpr ⟨priorityOf groups req, ?_, rfl⟩, mem_level.mpr ⟨hreq, rfl⟩⟩
    rw [List.mem_insertionSort, List.mem_dedup]
    exact List.mem_map_of_mem hreq

theorem Before.irrefl (a : AllocateRequest) : ¬ Before c groups a a := by
  rintro (h | ⟨-, h⟩) <;> exact lt_irrefl _ h

theorem Before.asymm {a b : AllocateRequest} (h : Before c groups a b) :
    ¬ Before c groups b a := by
  rcases h with h | ⟨heq, h⟩ <;> rintro (h' | ⟨heq', h'⟩) <;> omega

/-- A list in order is without repetition. -/
theorem nodup_of_before {l : List AllocateRequest} (h : l.Pairwise (Before c groups)) :
    l.Nodup := by
  refine h.imp ?_
  rintro a b hab rfl
  exact Before.irrefl a hab

/-- The pending tasks in order are the levels, one after the other. -/
theorem levels_flatten {reqs queue : List AllocateRequest} (htimes : reqs.Pairwise fun a b =>
      c.registeredTime a.taskActor ≠ c.registeredTime b.taskActor)
    (hperm : queue.Perm reqs) (hqueue : queue.Pairwise (Before c groups)) :
    (levels c groups reqs).flatten = queue := by
  have hlevels := levels_before groups htimes
  refine List.Perm.eq_of_pairwise (fun a b _ _ hab hba => absurd hba hab.asymm) hlevels hqueue ?_
  refine (List.perm_ext_iff_of_nodup (nodup_of_before hlevels) (nodup_of_before hqueue)).mpr
    fun req => ?_
  rw [mem_levels, hperm.mem_iff]

end Levels

/-! ### The tasks that are started -/

variable {σ : Type} [LinearOrder σ] {c : Cluster σ} {draws : Draws} {preemptionEnabled : Bool}

/-- What happens to the copy of the agents starts no task. -/
theorem placeViaPreemption_starts {scheduled : List (ℤ × AllocateRequest)} {priority : ℤ}
    {plan plan' : Plan} {req : AllocateRequest}
    (h : placeViaPreemption c draws taskList scheduled filter priority plan req = .ok plan') :
    plan'.toAllocate = plan.toAllocate ∧ plan'.startTasks = plan.startTasks := by
  rw [placeViaPreemption] at h
  split at h
  · obtain ⟨agents, -, rfl⟩ := map_eq_ok.mp h
    exact ⟨rfl, rfl⟩
  · obtain ⟨preemption, -, rfl⟩ := map_eq_ok.mp h
    split <;> exact ⟨rfl, rfl⟩

theorem foldlM_placeViaPreemption_starts {scheduled : List (ℤ × AllocateRequest)} {priority : ℤ}
    {reqs : List AllocateRequest} : ∀ {plan plan' : Plan},
      reqs.foldlM (placeViaPreemption c draws taskList scheduled filter priority) plan =
        .ok plan' → plan'.toAllocate = plan.toAllocate ∧ plan'.startTasks = plan.startTasks := by
  induction reqs with
  | nil => intro plan plan' h; cases h; exact ⟨rfl, rfl⟩
  | cons req reqs ih =>
    intro plan plan' h
    rw [List.foldlM_cons] at h
    obtain ⟨plan1, h1, h2⟩ := bind_eq_ok.mp h
    obtain ⟨ha1, hs1⟩ := placeViaPreemption_starts h1
    obtain ⟨ha2, hs2⟩ := ih h2
    exact ⟨ha2.trans ha1, hs2.trans hs1⟩

/-- The plan after the pending tasks of a level were tried. -/
def Plan.walk (c : Cluster σ) (draws : Draws) (plan : Plan) (level : List AllocateRequest) :
    Plan where
  agents := greedy (placeTask c draws) plan.agents level
  toAllocate := if plan.startTasks
    then plan.toAllocate ++ placed (placeTask c draws) plan.agents level else plan.toAllocate
  toRelease := plan.toRelease
  startTasks := plan.startTasks && (passed (placeTask c draws) plan.agents level).isEmpty

/-- One level: its tasks are tried, and if some do not fit, others may be preempted for them. -/
theorem scheduleByPriority_cons {pending scheduled : List (ℤ × AllocateRequest)} {plan : Plan}
    {priority : ℤ} {priorities : List ℤ} :
    scheduleByPriority c draws preemptionEnabled taskList pending scheduled filter plan
      (priority :: priorities) =
    if passed (placeTask c draws) plan.agents (c.oldestFirst (tasksIn pending priority)) = [] then
      scheduleByPriority c draws preemptionEnabled taskList pending scheduled filter
        (plan.walk c draws (c.oldestFirst (tasksIn pending priority))) priorities
    else if preemptionEnabled then
      (passed (placeTask c draws) plan.agents (c.oldestFirst (tasksIn pending priority))).foldlM
        (placeViaPreemption c draws taskList scheduled filter priority)
        (plan.walk c draws (c.oldestFirst (tasksIn pending priority))) >>= fun preempted =>
          scheduleByPriority c draws preemptionEnabled taskList pending scheduled filter preempted
            priorities
    else .ok (plan.walk c draws (c.oldestFirst (tasksIn pending priority))) := by
  rw [scheduleByPriority, trySchedulingPendingTasksInPriority_eq]
  simp only [bind, Except.bind, Plan.walk]
  by_cases hpassed :
      passed (placeTask c draws) plan.agents (c.oldestFirst (tasksIn pending priority)) = []
  · simp [hpassed]
  · have hempty := List.isEmpty_eq_false_iff.mpr hpassed
    simp only [hpassed, hempty, Bool.and_false, if_false]
    cases preemptionEnabled <;> rfl

/-- The tasks started are those placed level by level. -/
theorem scheduleByPriority_toAllocate {pending scheduled : List (ℤ × AllocateRequest)}
    {priorities : List ℤ} : ∀ {plan plan' : Plan},
      scheduleByPriority c draws preemptionEnabled taskList pending scheduled filter plan
        priorities = .ok plan' → plan'.toAllocate = plan.toAllocate ++
          if plan.startTasks then placedByLevel (placeTask c draws) plan.agents
            (priorities.map fun priority => c.oldestFirst (tasksIn pending priority))
          else [] := by
  induction priorities with
  | nil => intro plan plan' h; cases h; simp [placedByLevel]
  | cons priority priorities ih =>
    intro plan plan' h
    rw [scheduleByPriority_cons] at h
    rw [List.map_cons, placedByLevel]
    split at h
    · rename_i hpassed
      rw [ih h, if_pos hpassed]
      cases hstart : plan.startTasks <;> simp [Plan.walk, hstart, hpassed]
    · rename_i hpassed
      rw [if_neg hpassed, List.append_nil]
      split at h
      · -- Nothing is started after a level that was not placed as a whole.
        obtain ⟨plan1, h1, h⟩ := bind_eq_ok.mp h
        obtain ⟨hallocate, hstart⟩ := foldlM_placeViaPreemption_starts h1
        rw [ih h, hstart, hallocate]
        cases hstart : plan.startTasks <;> simp [Plan.walk, hstart, hpassed]
      · obtain rfl := Except.ok.inj h
        cases hstart : plan.startTasks <;> simp [Plan.walk, hstart]

theorem prioritySchedulerWithFilter_toAllocate {agents : Agents}
    {result : List AllocateRequest × List ℕ}
    (h : prioritySchedulerWithFilter c draws preemptionEnabled taskList groups agents label filter =
      .ok result) : result.1 = placedByLevel (placeTask c draws) agents
        (levels c groups (pendingTasks taskList label filter)) := by
  obtain ⟨tasks, htasks, h⟩ := bind_eq_ok.mp h
  obtain ⟨plan, hplan, h⟩ := bind_eq_ok.mp h
  obtain rfl := Except.ok.inj h
  rw [scheduleByPriority_toAllocate hplan, sortTasksByPriority_eq htasks]
  simp only [if_true, List.nil_append, getOrderedPriorities, levels, tasksIn_map, List.map_map]
  rfl

/-! ### Labels and classes -/

/-- The two classes of tasks. -/
def taskFilters : List (AllocateRequest → Bool) := [zeroSlotTaskFilter, nonZeroSlotTaskFilter]

/-- A task is of one class. -/
theorem taskFilters_unique {filter' : AllocateRequest → Bool} (hfilter : filter ∈ taskFilters)
    (hfilter' : filter' ∈ taskFilters) {req : AllocateRequest} (h : filter req) (h' : filter' req) :
    filter = filter' := by
  simp only [taskFilters, List.mem_cons, List.not_mem_nil, or_false] at hfilter hfilter'
  rcases hfilter with rfl | rfl <;> rcases hfilter' with rfl | rfl <;>
    simp_all [zeroSlotTaskFilter, nonZeroSlotTaskFilter]

/-- What the scheduler returns is what it returns for the labels and classes. -/
theorem scheduleLabels_spec {agents : Agents} {labels : List String} :
    ∀ {result : List AllocateRequest × List ℕ},
      scheduleLabels c draws preemptionEnabled taskList groups agents labels = .ok result →
        (∀ label ∈ labels, ∀ filter ∈ taskFilters, ∃ r,
          prioritySchedulerWithFilter c draws preemptionEnabled taskList groups
            (agents.withLabel label) label filter = .ok r ∧ r.1 ⊆ result.1 ∧ r.2 ⊆ result.2) ∧
        (∀ req ∈ result.1, ∃ label ∈ labels, ∃ filter ∈ taskFilters, ∃ r,
          prioritySchedulerWithFilter c draws preemptionEnabled taskList groups
            (agents.withLabel label) label filter = .ok r ∧ req ∈ r.1) ∧
        ∀ actor ∈ result.2, ∃ label ∈ labels, ∃ filter ∈ taskFilters, ∃ r,
          prioritySchedulerWithFilter c draws preemptionEnabled taskList groups
            (agents.withLabel label) label filter = .ok r ∧ actor ∈ r.2 := by
  induction labels with
  | nil => intro result h; cases h; simp
  | cons label labels ih =>
    intro result h
    obtain ⟨forLabel, hlabel, h⟩ := bind_eq_ok.mp h
    obtain ⟨rest, hrest, h⟩ := bind_eq_ok.mp h
    obtain rfl := Except.ok.inj h
    obtain ⟨zero, hzero, hlabel⟩ := bind_eq_ok.mp hlabel
    obtain ⟨nonZero, hnonZero, hlabel⟩ := bind_eq_ok.mp hlabel
    obtain rfl := Except.ok.inj hlabel
    obtain ⟨hincl, halloc, hrel⟩ := ih hrest
    have hzeroMem : zeroSlotTaskFilter ∈ taskFilters := by simp [taskFilters]
    have hnonZeroMem : nonZeroSlotTaskFilter ∈ taskFilters := by simp [taskFilters]
    refine ⟨fun label' hl filter hf => ?_, fun req hreq => ?_, fun actor hactor => ?_⟩
    · rcases List.mem_cons.mp hl with rfl | hl
      · simp only [taskFilters, List.mem_cons, List.not_mem_nil, or_false] at hf
        rcases hf with rfl | rfl
        · exact ⟨zero, hzero, by simp, by simp⟩
        · exact ⟨nonZero, hnonZero, by simp, by simp⟩
      · obtain ⟨r, hr, h1, h2⟩ := hincl label' hl filter hf
        exact ⟨r, hr, fun x hx => List.mem_append_right _ (h1 hx),
          fun x hx => List.mem_append_right _ (h2 hx)⟩
    · rcases List.mem_append.mp hreq with hreq | hreq
      · rcases List.mem_append.mp hreq with hreq | hreq
        · exact ⟨label, List.mem_cons_self .., _, hzeroMem, zero, hzero, hreq⟩
        · exact ⟨label, List.mem_cons_self .., _, hnonZeroMem, nonZero, hnonZero, hreq⟩
      · obtain ⟨label', hl, filter, hf, r, hr, hreq⟩ := halloc req hreq
        exact ⟨label', List.mem_cons_of_mem _ hl, filter, hf, r, hr, hreq⟩
    · rcases List.mem_append.mp hactor with hactor | hactor
      · rcases List.mem_append.mp hactor with hactor | hactor
        · exact ⟨label, List.mem_cons_self .., _, hzeroMem, zero, hzero, hactor⟩
        · exact ⟨label, List.mem_cons_self .., _, hnonZeroMem, nonZero, hnonZero, hactor⟩
      · obtain ⟨label', hl, filter, hf, r, hr, hactor⟩ := hrel actor hactor
        exact ⟨label', List.mem_cons_of_mem _ hl, filter, hf, r, hr, hactor⟩

/-- The tasks started are pending ones of their label and class. -/
theorem pending_of_allocated {agents : Agents} {r : List AllocateRequest × List ℕ}
    (h : prioritySchedulerWithFilter c draws preemptionEnabled taskList groups agents label filter =
      .ok r) {req : AllocateRequest} (hreq : req ∈ r.1) :
    req ∈ pendingTasks taskList label filter := by
  rw [prioritySchedulerWithFilter_toAllocate h] at hreq
  exact mem_levels.mp (placedByLevel_subset _ req hreq)

/-- Among the tasks of a label and class, the scheduler starts those placed level by level. -/
theorem mem_toAllocate_iff {agents : Agents} {result : List AllocateRequest × List ℕ}
    (h : prioritySchedule c draws preemptionEnabled taskList groups agents = .ok result)
    (hfilter : filter ∈ taskFilters) {req : AllocateRequest} (hlabel : req.label = label)
    (hclass : filter req) : req ∈ result.1 ↔
      req ∈ placedByLevel (placeTask c draws) (agents.withLabel label)
        (levels c groups (pendingTasks taskList label filter)) := by
  obtain ⟨hincl, halloc, -⟩ := scheduleLabels_spec h
  by_cases hmem : label ∈ agents.labels
  · obtain ⟨r, hr, hsub, -⟩ := hincl label hmem filter hfilter
    rw [← prioritySchedulerWithFilter_toAllocate hr]
    refine ⟨fun hreq => ?_, fun hreq => hsub hreq⟩
    obtain ⟨label', -, filter', hfilter', r', hr', hreq'⟩ := halloc req hreq
    obtain ⟨-, hlabel', hclass', -⟩ := mem_pendingTasks.mp (pending_of_allocated hr' hreq')
    obtain rfl := hlabel'.symm.trans hlabel
    obtain rfl := taskFilters_unique hfilter' hfilter hclass' hclass
    rw [hr] at hr'
    exact Except.ok.inj hr' ▸ hreq'
  · -- Without agents of the label nothing fits, and nothing is tried.
    refine iff_of_false (fun hreq => ?_) fun hreq => ?_
    · obtain ⟨label', hl, filter', -, r', hr', hreq'⟩ := halloc req hreq
      obtain ⟨-, hlabel', -⟩ := mem_pendingTasks.mp (pending_of_allocated hr' hreq')
      exact hmem (hlabel.symm.trans hlabel' ▸ hl)
    · have hrefs : (agents.withLabel label).refs = [] := by
        refine List.filter_eq_nil_iff.mpr fun ref href heq => hmem ?_
        rw [Agents.labels, List.mem_dedup]
        exact List.mem_map.mpr ⟨ref, href, by simpa using heq⟩
      rw [placedByLevel_eq_nil (placeTask_of_no_agents hrefs)] at hreq
      cases hreq

/-- The pending tasks of a label and class, in the order in which they are considered. -/
structure Queue (c : Cluster σ) (groups : ℕ → Option Group)
    (taskList : TaskList ContainerAllocation) (label : String) (filter : AllocateRequest → Bool)
    (queue : List AllocateRequest) : Prop where
  perm : queue.Perm (pendingTasks taskList label filter)
  ordered : queue.Pairwise (Before c groups)

/-- A task of the queue is started iff all the tasks of smaller priority numbers are and it fits on
    the agents as the tasks before it leave them. -/
theorem mem_toAllocate_iff_fits {agents : Agents} {result : List AllocateRequest × List ℕ}
    (htimes : taskList.taskByTime.Pairwise fun a b =>
      c.registeredTime a.taskActor ≠ c.registeredTime b.taskActor)
    (h : prioritySchedule c draws preemptionEnabled taskList groups agents = .ok result)
    (hfilter : filter ∈ taskFilters) {before after : List AllocateRequest} {req : AllocateRequest}
    (hqueue : Queue c groups taskList label filter (before ++ req :: after)) :
    req ∈ result.1 ↔
      (∀ u ∈ before, priorityOf groups u < priorityOf groups req → u ∈ result.1) ∧
        findFits c req (greedy (placeTask c draws) (agents.withLabel label) before) ≠ [] := by
  have hpending : ∀ u ∈ before ++ req :: after, u.label = label ∧ filter u := fun u hu => by
    obtain ⟨-, hlabel, hclass, -⟩ := mem_pendingTasks.mp (hqueue.perm.subset hu)
    exact ⟨hlabel, hclass⟩
  have hmem : ∀ u ∈ before ++ req :: after, (u ∈ result.1 ↔ u ∈ placedByLevel (placeTask c draws)
      (agents.withLabel label) (levels c groups (pendingTasks taskList label filter))) := fun u hu =>
    mem_toAllocate_iff h hfilter (hpending u hu).1 (hpending u hu).2
  have htimes' : (pendingTasks taskList label filter).Pairwise fun a b =>
      c.registeredTime a.taskActor ≠ c.registeredTime b.taskActor :=
    htimes.sublist (List.filter_sublist.trans List.filter_sublist)
  have hflatten := levels_flatten htimes' hqueue.perm hqueue.ordered
  have hpriorities := levels_priorities c groups (pendingTasks taskList label filter)
  have hnodup := nodup_of_before hqueue.ordered
  obtain ⟨earlier, xs, ys, later, hlevels, rfl⟩ := exists_level hflatten
  have hsame : ∀ u ∈ xs, priorityOf groups u = priorityOf groups req := fun u hu =>
    level_priority (hlevels ▸ List.mem_append_right _ (List.mem_cons_self ..)) u
      (List.mem_append_left _ hu) req (by simp)
  have hsmaller : ∀ u ∈ earlier.flatten, priorityOf groups u < priorityOf groups req := by
    intro u hu
    obtain ⟨l, hl, hu⟩ := List.mem_flatten.mp hu
    rw [hlevels] at hpriorities
    exact (List.pairwise_append.mp hpriorities).2.2 l hl _ (List.mem_cons_self ..) u hu req
      (by simp)
  rw [hmem req (by simp), hlevels,
    mem_placedByLevel_iff (by rw [← hlevels, hflatten]; exact hnodup), placeTask_isSome]
  refine and_congr_left fun _ => ⟨fun hall u hu hlt => ?_, fun hall u hu => ?_⟩
  · rcases List.mem_append.mp hu with hu' | hu'
    · rw [hmem u (List.mem_append_left _ hu), hlevels]
      exact hall u hu'
    · exact absurd (hsame u hu') (by omega)
  · have hu' : u ∈ earlier.flatten ++ xs := List.mem_append_left _ hu
    have := hall u hu' (hsmaller u hu)
    rwa [hmem u (List.mem_append_left _ hu'), hlevels] at this

omit [LinearOrder σ] in
/-- The queue of a label and class exists: it is what the scheduler's levels come to. -/
theorem exists_queue (groups : ℕ → Option Group) (htimes : taskList.taskByTime.Pairwise fun a b =>
      c.registeredTime a.taskActor ≠ c.registeredTime b.taskActor) (label : String)
    (filter : AllocateRequest → Bool) :
    ∃ queue, Queue c groups taskList label filter queue := by
  have htimes' : (pendingTasks taskList label filter).Pairwise fun a b =>
      c.registeredTime a.taskActor ≠ c.registeredTime b.taskActor :=
    htimes.sublist (List.filter_sublist.trans List.filter_sublist)
  have hordered := levels_before groups htimes'
  have hnodup : (pendingTasks taskList label filter).Nodup :=
    htimes'.imp fun hne heq => hne (congrArg (fun t => c.registeredTime t.taskActor) heq)
  refine ⟨_, (List.perm_ext_iff_of_nodup (nodup_of_before hordered) hnodup).mpr fun req =>
    mem_levels, hordered⟩

/-- The class of a task. -/
theorem exists_filter (req : AllocateRequest) : ∃ filter ∈ taskFilters, filter req = true := by
  by_cases h : req.slotsNeeded = 0
  · exact ⟨zeroSlotTaskFilter, by simp [taskFilters], by simp [zeroSlotTaskFilter, h]⟩
  · exact ⟨nonZeroSlotTaskFilter, by simp [taskFilters], by
      simp [nonZeroSlotTaskFilter, Nat.pos_of_ne_zero h]⟩

theorem filter_eq_of_class {t u : AllocateRequest} (hfilter : filter ∈ taskFilters)
    (hclass : u.slotsNeeded = 0 ↔ t.slotsNeeded = 0) (h : filter t = true) : filter u = true := by
  simp only [taskFilters, List.mem_cons, List.not_mem_nil, or_false] at hfilter
  rcases hfilter with rfl | rfl
  · simp_all [zeroSlotTaskFilter]
  · simp_all [nonZeroSlotTaskFilter, Nat.pos_iff_ne_zero]

/-- CORRECT: a task is started only if all the pending tasks of its label and class with smaller
    priority numbers are. In the order of priority and age, and as long as all tasks of smaller
    priority numbers are started, a task is started exactly if it fits on the agents as the tasks
    before it left them. -/
theorem no_priority_inversion (c : Cluster σ) (draws : Draws) (preemptionEnabled : Bool)
    (taskList : TaskList ContainerAllocation) (groups : ℕ → Option Group) (agents : Agents)
    (htimes : taskList.taskByTime.Pairwise fun a b =>
      c.registeredTime a.taskActor ≠ c.registeredTime b.taskActor)
    {toAllocate : List AllocateRequest} {toRelease : List ℕ}
    (h : prioritySchedule c draws preemptionEnabled taskList groups agents =
      .ok (toAllocate, toRelease)) :
    (∀ t ∈ toAllocate, ∀ u ∈ taskList.taskByTime, taskList.unassigned u.taskActor →
      u.label = t.label → (u.slotsNeeded = 0 ↔ t.slotsNeeded = 0) →
        priorityOf groups u < priorityOf groups t → u ∈ toAllocate) ∧
    ∀ label, ∀ filter ∈ taskFilters, ∀ before t after,
      Queue c groups taskList label filter (before ++ t :: after) → ∃ placement,
        trySchedulingPendingTasksInPriority c draws before (agents.withLabel label) =
          .ok placement ∧
        (t ∈ toAllocate ↔ findFits c t placement.agents ≠ [] ∧
          ∀ u ∈ before, priorityOf groups u < priorityOf groups t → u ∈ toAllocate) := by
  refine ⟨fun t ht u hu hpending hlabel hclass hlt => ?_,
    fun label filter hfilter before t after hqueue => ?_⟩
  · obtain ⟨filter, hfilter, htclass⟩ := exists_filter t
    obtain ⟨queue, hqueue⟩ := exists_queue groups htimes t.label filter
    have htpending : t ∈ pendingTasks taskList t.label filter := by
      have := (mem_toAllocate_iff h hfilter rfl htclass).mp ht
      exact mem_levels.mp (placedByLevel_subset _ t this)
    have hupending : u ∈ pendingTasks taskList t.label filter :=
      mem_pendingTasks.mpr ⟨hu, hlabel, filter_eq_of_class hfilter hclass htclass, hpending⟩
    obtain ⟨before, after, rfl⟩ := List.append_of_mem (hqueue.perm.mem_iff.mpr htpending)
    refine ((mem_toAllocate_iff_fits htimes h hfilter hqueue).mp ht).1 u ?_ hlt
    rcases List.mem_append.mp (hqueue.perm.mem_iff.mpr hupending) with hbefore | hafter
    · exact hbefore
    · -- What comes after `t` in the queue does not have a smaller priority number.
      rcases List.mem_cons.mp hafter with rfl | hafter
      · exact absurd hlt (lt_irrefl _)
      · have := (List.pairwise_cons.mp (List.pairwise_append.mp hqueue.ordered).2.1).1 u hafter
        rcases this with hgt | ⟨heq, -⟩ <;> omega
  · refine ⟨_, trySchedulingPendingTasksInPriority_eq _ _, ?_⟩
    rw [mem_toAllocate_iff_fits htimes h hfilter hqueue, and_comm]

/-- A task that is its own group. -/
def ownGroupTask (taskActor slotsNeeded : ℕ) : AllocateRequest :=
  ⟨⟨taskActor, slotsNeeded, "", taskActor, false⟩, "task", false⟩

/-- Tasks that wait, added one after the other. -/
def waitingTasks (reqs : List AllocateRequest) : TaskList ContainerAllocation :=
  reqs.foldl (TaskList.addTask fun actor => (actor : ℤ)) .empty

/-- An agent without a label, with as many free devices. -/
def freeAgent (slots : ℕ) : AgentState :=
  (List.range slots).foldl (fun a i => a.addDevice ⟨i, "", "", .gpu⟩ none) (.new "" 10)

/-- The priority of each group is its number. -/
def numberedGroups (group : ℕ) : Option Group := some ⟨none, 1, some group⟩

/-- Two tasks, both started: the one of the smaller priority number is among them. -/
theorem no_priority_inversion_two_tasks :
    let tasks := waitingTasks [ownGroupTask 1 1, ownGroupTask 2 1]
    prioritySchedule (numberedCluster bestFit) plainDraws true tasks numberedGroups
      (Agents.empty.add 0 (freeAgent 2)) = .ok ([ownGroupTask 1 1, ownGroupTask 2 1], []) ∧
      ∀ t ∈ [ownGroupTask 1 1, ownGroupTask 2 1], ∀ u ∈ tasks.taskByTime,
        tasks.unassigned u.taskActor → u.label = t.label →
          (u.slotsNeeded = 0 ↔ t.slotsNeeded = 0) →
            priorityOf numberedGroups u < priorityOf numberedGroups t →
              u ∈ [ownGroupTask 1 1, ownGroupTask 2 1] := by
  have hresult : prioritySchedule (numberedCluster bestFit) plainDraws true
      (waitingTasks [ownGroupTask 1 1, ownGroupTask 2 1]) numberedGroups
        (Agents.empty.add 0 (freeAgent 2)) =
          .ok ([ownGroupTask 1 1, ownGroupTask 2 1], []) := by decide +kernel
  exact ⟨hresult, (no_priority_inversion _ _ _ _ _ _ (by decide +kernel) hresult).1⟩

/-- A task of two slots waits for more than there are, so a task of a larger priority number is not
    started although it fits. -/
theorem fitting_task_not_started :
    prioritySchedule (numberedCluster bestFit) plainDraws false
      (waitingTasks [ownGroupTask 1 2, ownGroupTask 2 1]) numberedGroups
        (Agents.empty.add 0 (freeAgent 1)) = .ok ([], []) ∧
      findFits (numberedCluster bestFit) (ownGroupTask 2 1)
        ((Agents.empty.add 0 (freeAgent 1)).withLabel "") ≠ [] := by
  refine ⟨by decide +kernel, by decide +kernel⟩

end Determined.Pool
