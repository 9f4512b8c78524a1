import Determined.Pool.PriorityOrder

/-! Which tasks the priority scheduler preempts, and for whom.

    A task that did not fit in its turn is tried again once its level was walked. If it still does
    not fit, candidates of larger priority numbers are removed from a copy of the agents one by one
    until it does. Only then are the copy and the candidates removed kept, so each task that is
    released was removed for a task that then fitted, and a try that fails leaves no trace. -/

namespace Determined.Pool
open Determined.Model Determined.Schemes

variable {σ : Type} [LinearOrder σ] {c : Cluster σ} {draws : Draws}
  {taskList : TaskList ContainerAllocation} {groups : ℕ → Option Group} {agents : Agents}
  {label : String} {filter : AllocateRequest → Bool}

/-- The agents once the allocations of tasks were removed from them. -/
def removeTasks (taskList : TaskList ContainerAllocation) (agents : Agents)
    (victims : List AllocateRequest) : Except Fault Agents :=
  victims.foldlM (fun agents victim =>
    removeTaskFromAgents agents ((taskList.allocations victim.taskActor).getD [])) agents

/-! ### One try -/

/-- A candidate may be preempted. -/
def Preemptible (filter : AllocateRequest → Bool) (tasksAlreadyPreempted : List ℕ)
    (candidate : AllocateRequest) : Prop :=
  candidate.nonPreemptible = false ∧ filter candidate = true ∧
    candidate.taskActor ∉ tasksAlreadyPreempted

/-- A try removes some of the candidates, and ends either when the task fits on what is left or
    with no candidate to go. -/
theorem preemptCandidates_spec {req : AllocateRequest} {tasksAlreadyPreempted : List ℕ}
    {candidates : List AllocateRequest} :
    ∀ {agents : Agents} {preemptedTasks : List ℕ} {preemption : Preemption},
      preemptCandidates c draws taskList req tasksAlreadyPreempted filter agents preemptedTasks
        candidates = .ok preemption →
      ∃ victims cleared, victims.Sublist candidates ∧
        (∀ v ∈ victims, Preemptible filter tasksAlreadyPreempted v) ∧
        preemption.preemptedTasks = preemptedTasks ++ victims.map (·.taskActor) ∧
        removeTasks taskList agents victims = .ok cleared ∧
        (preemption.taskPlaced = true → findFits c req cleared ≠ []) := by
  induction candidates with
  | nil =>
    intro agents preemptedTasks preemption h
    obtain rfl := Except.ok.inj h
    exact ⟨[], agents, .slnil, by simp, by simp, rfl, by simp⟩
  | cons candidate candidates ih =>
    intro agents preemptedTasks preemption h
    rw [preemptCandidates] at h
    split at h
    · obtain ⟨victims, cleared, hsub, hp, heq, hremove, hfits⟩ := ih h
      exact ⟨victims, cleared, hsub.cons _, hp, heq, hremove, hfits⟩
    · rename_i hcandidate
      have hpreemptible : Preemptible filter tasksAlreadyPreempted candidate := by
        simpa [Preemptible, not_or, and_assoc] using hcandidate
      obtain ⟨agents1, hremove1, h⟩ := bind_eq_ok.mp h
      split at h
      · obtain ⟨victims, cleared, hsub, hp, heq, hremove, hfits⟩ := ih h
        refine ⟨candidate :: victims, cleared, hsub.cons_cons _, ?_, ?_, ?_, hfits⟩
        · exact List.forall_mem_cons.mpr ⟨hpreemptible, hp⟩
        · rw [heq, List.map_cons, List.append_assoc, List.singleton_append]
        · rw [removeTasks, List.foldlM_cons, hremove1]
          exact hremove
      · rename_i fit fits hfits
        obtain ⟨agents2, -, h⟩ := bind_eq_ok.mp h
        obtain rfl := Except.ok.inj h
        refine ⟨[candidate], agents1, (List.nil_sublist _).cons_cons _, ?_, rfl, ?_, fun _ => ?_⟩
        · exact List.forall_mem_singleton.mpr hpreemptible
        · rw [removeTasks, List.foldlM_cons, hremove1]
          rfl
        · simp [hfits]

theorem mem_lowerPriorities {allocationPriority priority : ℤ}
    (h : priority ∈ lowerPriorities allocationPriority) : allocationPriority < priority := by
  obtain ⟨i, hi, rfl⟩ := List.mem_map.mp h
  have := List.mem_range.mp hi
  omega

/-- The tasks a try removes, and what is left once they are removed. -/
structure Victims (c : Cluster σ) (taskList : TaskList ContainerAllocation)
    (groups : ℕ → Option Group) (label : String) (filter : AllocateRequest → Bool) (plan : Plan)
    (req : AllocateRequest) (victims : List AllocateRequest) : Prop where
  scheduled : ∀ v ∈ victims, v ∈ scheduledTasks taskList label filter
  preemptible : ∀ v ∈ victims, v.nonPreemptible = false
  lower : ∀ v ∈ victims, priorityOf groups req < priorityOf groups v
  fits : ∃ cleared, removeTasks taskList plan.agents victims = .ok cleared ∧
    findFits c req cleared ≠ []

/-- The scheduled tasks with their priorities. -/
def prioritized (groups : ℕ → Option Group) (reqs : List AllocateRequest) :
    List (ℤ × AllocateRequest) :=
  reqs.map fun req => (priorityOf groups req, req)

theorem placeViaPreemption_spec {priority : ℤ} {plan plan' : Plan} {req : AllocateRequest}
    (hpriority : priorityOf groups req = priority)
    (h : placeViaPreemption c draws taskList
      (prioritized groups (scheduledTasks taskList label filter)) filter priority plan req =
        .ok plan') : plan'.toRelease = plan.toRelease ∨
      findFits c req plan.agents = [] ∧ ∃ victims, Victims c taskList groups label filter plan req
        victims ∧ plan'.toRelease = plan.toRelease ++ victims.map (·.taskActor) := by
  rw [placeViaPreemption] at h
  split at h
  · obtain ⟨agents, -, rfl⟩ := map_eq_ok.mp h
    exact .inl rfl
  · rename_i hnofit
    obtain ⟨preemption, hpreempt, rfl⟩ := map_eq_ok.mp h
    split
    · rename_i hplaced
      obtain ⟨victims, cleared, hsub, hp, heq, hremove, hfits⟩ := preemptCandidates_spec hpreempt
      have hcandidate : ∀ v ∈ victims, v ∈ scheduledTasks taskList label filter ∧
          priorityOf groups req < priorityOf groups v := by
        intro v hv
        obtain ⟨p, hp, hv⟩ := List.mem_flatMap.mp (hsub.subset hv)
        rw [prioritized, tasksIn_map, (c.latestFirst_perm _).mem_iff, List.mem_filter,
          beq_iff_eq] at hv
        rw [hpriority, hv.2]
        exact ⟨hv.1, mem_lowerPriorities hp⟩
      refine .inr ⟨hnofit, victims, ⟨fun v hv => (hcandidate v hv).1, fun v hv => (hp v hv).1,
        fun v hv => (hcandidate v hv).2, cleared, hremove, hfits hplaced⟩, ?_⟩
      simp [heq]
    · exact .inl rfl

/-- A try that fails leaves the plan as it was. -/
theorem placeViaPreemption_of_failed {scheduled : List (ℤ × AllocateRequest)} {priority : ℤ}
    {plan : Plan} {req : AllocateRequest} {preemption : Preemption}
    (hnofit : findFits c req plan.agents = [])
    (h : trySchedulingTaskViaPreemption c draws taskList req priority plan.agents scheduled
      plan.toRelease filter = .ok preemption) (hfailed : preemption.taskPlaced = false) :
    placeViaPreemption c draws taskList scheduled filter priority plan req = .ok plan := by
  simp [placeViaPreemption, hnofit, h, hfailed, Except.map]

/-! ### The tries of a run -/

section Run

variable (c) (draws) (taskList) (groups) (label) (filter)

/-- The tries for the tasks of a list. -/
def placeAllViaPreemption (priority : ℤ) (plan : Plan) (reqs : List AllocateRequest) :
    Except Fault Plan :=
  reqs.foldlM (placeViaPreemption c draws taskList
    (prioritized groups (scheduledTasks taskList label filter)) filter priority) plan

/-- The scheduler comes to preempt tasks for a pending one: the levels before are scheduled, the
    task's own level was walked without placing it, and the others of the level that were not placed
    either were tried before it. -/
def Reaches (pending : List AllocateRequest) (start : Plan) (priorities : List ℤ)
    (req : AllocateRequest) (plan : Plan) : Prop :=
  ∃ before after level earlier later,
    priorities = before ++ priorityOf groups req :: after ∧
    scheduleByPriority c draws true taskList (prioritized groups pending)
      (prioritized groups (scheduledTasks taskList label filter)) filter start before = .ok level ∧
    passed (placeTask c draws) level.agents
      (c.oldestFirst (tasksIn (prioritized groups pending) (priorityOf groups req))) =
        earlier ++ req :: later ∧
    placeAllViaPreemption c draws taskList groups label filter (priorityOf groups req)
      (level.walk c draws
        (c.oldestFirst (tasksIn (prioritized groups pending) (priorityOf groups req))))
      earlier = .ok plan

/-- An actor is released together with the others whose removal made room for a task that was come
    to and did not fit. -/
def Justified (reached : AllocateRequest → Plan → Prop) (released : List ℕ) (actor : ℕ) : Prop :=
  ∃ req plan victims, reached req plan ∧ findFits c req plan.agents = [] ∧
    Victims c taskList groups label filter plan req victims ∧
    victims.map (·.taskActor) ⊆ released ∧ actor ∈ victims.map (·.taskActor)

end Run

theorem Justified.mono {reached reached' : AllocateRequest → Plan → Prop}
    {released released' : List ℕ} {actor : ℕ}
    (h : Justified c taskList groups label filter reached released actor)
    (hreached : ∀ req plan, reached req plan → reached' req plan) (hsub : released ⊆ released') :
    Justified c taskList groups label filter reached' released' actor := by
  obtain ⟨req, plan, victims, hreq, hnofit, hvictims, hall, hactor⟩ := h
  exact ⟨req, plan, victims, hreached _ _ hreq, hnofit, hvictims, fun x hx => hsub (hall hx),
    hactor⟩

theorem placeAllViaPreemption_cons {priority : ℤ} {plan : Plan} {req : AllocateRequest}
    {reqs : List AllocateRequest} :
    placeAllViaPreemption c draws taskList groups label filter priority plan (req :: reqs) =
      placeViaPreemption c draws taskList
        (prioritized groups (scheduledTasks taskList label filter)) filter priority plan req >>=
          fun plan => placeAllViaPreemption c draws taskList groups label filter priority plan reqs :=
  List.foldlM_cons ..

/-- What is released for the tasks of a level. -/
theorem placeAllViaPreemption_release {priority : ℤ} {reqs : List AllocateRequest}
    (hpriority : ∀ req ∈ reqs, priorityOf groups req = priority) :
    ∀ {plan plan' : Plan},
      placeAllViaPreemption c draws taskList groups label filter priority plan reqs = .ok plan' →
        plan.toRelease ⊆ plan'.toRelease ∧
        ∀ actor ∈ plan'.toRelease, actor ∈ plan.toRelease ∨
          Justified c taskList groups label filter (fun req plan1 => ∃ earlier later,
            reqs = earlier ++ req :: later ∧ placeAllViaPreemption c draws taskList groups label
              filter priority plan earlier = .ok plan1) plan'.toRelease actor := by
  induction reqs with
  | nil => intro plan plan' h; cases h; exact ⟨fun _ h => h, fun _ h => .inl h⟩
  | cons req reqs ih =>
    intro plan plan' h
    rw [placeAllViaPreemption_cons] at h
    obtain ⟨plan1, h1, h⟩ := bind_eq_ok.mp h
    obtain ⟨hsub, hlater⟩ := ih (fun r hr => hpriority r (List.mem_cons_of_mem _ hr)) h
    have hfirst := placeViaPreemption_spec (hpriority req (List.mem_cons_self ..)) h1
    have hsub1 : plan.toRelease ⊆ plan1.toRelease := by
      rcases hfirst with heq | ⟨-, victims, -, heq⟩
      · exact heq ▸ fun _ h => h
      · exact heq ▸ List.subset_append_left _ _
    refine ⟨fun x hx => hsub (hsub1 hx), fun actor hactor => ?_⟩
    rcases hlater actor hactor with hold | hjustified
    · rcases hfirst with heq | ⟨hnofit, victims, hvictims, heq⟩
      · exact .inl (heq ▸ hold)
      · rw [heq] at hold
        refine (List.mem_append.mp hold).imp_right fun hactor => ?_
        refine ⟨req, plan, victims, ⟨[], reqs, rfl, rfl⟩, hnofit, hvictims, fun x hx => ?_, hactor⟩
        exact hsub (heq ▸ List.mem_append_right _ hx)
    · refine .inr (hjustified.mono ?_ fun _ h => h)
      rintro u plan2 ⟨earlier, later, rfl, h2⟩
      refine ⟨req :: earlier, later, rfl, ?_⟩
      rw [placeAllViaPreemption_cons, h1]
      exact h2

/-- The pending tasks of a level that are not placed have the level's priority. -/
theorem priorityOf_of_passed {reqs : List AllocateRequest} {priority : ℤ} {agents : Agents}
    {req : AllocateRequest} (h : req ∈ passed (placeTask c draws) agents
      (c.oldestFirst (tasksIn (prioritized groups reqs) priority))) :
    req ∈ reqs ∧ priorityOf groups req = priority := by
  have hmem := (passed_sublist _).subset h
  rwa [prioritized, tasksIn_map, mem_level] at hmem

/-- What is released for the levels. -/
theorem scheduleByPriority_release {pending : List AllocateRequest} {priorities : List ℤ} :
    ∀ {plan plan' : Plan}, scheduleByPriority c draws true taskList (prioritized groups pending)
      (prioritized groups (scheduledTasks taskList label filter)) filter plan priorities =
        .ok plan' → plan.toRelease ⊆ plan'.toRelease ∧
      ∀ actor ∈ plan'.toRelease, actor ∈ plan.toRelease ∨
        Justified c taskList groups label filter
          (Reaches c draws taskList groups label filter pending plan priorities)
          plan'.toRelease actor := by
  induction priorities with
  | nil => intro plan plan' h; cases h; exact ⟨fun _ h => h, fun _ h => .inl h⟩
  | cons priority priorities ih =>
    intro plan plan' h
    rw [scheduleByPriority_cons] at h
    by_cases hpassed : passed (placeTask c draws) plan.agents
        (c.oldestFirst (tasksIn (prioritized groups pending) priority)) = []
    · rw [if_pos hpassed] at h
      obtain ⟨hsub, hall⟩ := ih h
      refine ⟨hsub, fun actor hactor => (hall actor hactor).imp_right fun hj =>
        hj.mono ?_ fun _ h => h⟩
      rintro u plan1 ⟨before, after, level, earlier, later, rfl, hlevel, hrest⟩
      refine ⟨priority :: before, after, level, earlier, later, rfl, ?_, hrest⟩
      rw [scheduleByPriority_cons, if_pos hpassed, hlevel]
    · rw [if_neg hpassed, if_pos rfl] at h
      obtain ⟨plan1, h1, h⟩ := bind_eq_ok.mp h
      obtain ⟨hsub1, hall1⟩ := placeAllViaPreemption_release
        (fun req hreq => (priorityOf_of_passed hreq).2) h1
      obtain ⟨hsub, hall⟩ := ih h
      refine ⟨fun x hx => hsub (hsub1 hx), fun actor hactor => ?_⟩
      rcases hall actor hactor with hold | hj
      · refine (hall1 actor hold).imp_right fun hj => hj.mono ?_ hsub
        rintro u plan2 ⟨earlier, later, hsplit, h2⟩
        have hu := priorityOf_of_passed (hsplit ▸ List.mem_append_right _ (List.mem_cons_self ..))
        rw [← hu.2] at hsplit h2
        exact ⟨[], priorities, plan, earlier, later, by rw [hu.2]; rfl, rfl, hsplit, h2⟩
      · refine .inr (hj.mono ?_ fun _ h => h)
        rintro u plan2 ⟨before, after, level, earlier, later, rfl, hlevel, hrest⟩
        refine ⟨priority :: before, after, level, earlier, later, rfl, ?_, hrest⟩
        rw [scheduleByPriority_cons, if_neg hpassed, if_pos rfl]
        exact bind_eq_ok.mpr ⟨plan1, h1, hlevel⟩

/-- Without preemption nothing is released. -/
theorem scheduleByPriority_of_not_enabled {pending scheduled : List (ℤ × AllocateRequest)}
    {priorities : List ℤ} : ∀ {plan plan' : Plan},
      scheduleByPriority c draws false taskList pending scheduled filter plan priorities =
        .ok plan' → plan'.toRelease = plan.toRelease := by
  induction priorities with
  | nil => intro plan plan' h; cases h; rfl
  | cons priority priorities ih =>
    intro plan plan' h
    rw [scheduleByPriority_cons] at h
    split at h
    · rw [ih h]
      rfl
    · obtain rfl := Except.ok.inj h
      rfl

theorem prioritySchedulerWithFilter_release {agents : Agents} {r : List AllocateRequest × List ℕ}
    (h : prioritySchedulerWithFilter c draws true taskList groups agents label filter = .ok r) :
    ∀ actor ∈ r.2, Justified c taskList groups label filter
      (fun req plan => req ∈ pendingTasks taskList label filter ∧
        Reaches c draws taskList groups label filter (pendingTasks taskList label filter)
          ⟨agents, [], [], true⟩
          (getOrderedPriorities (prioritized groups (pendingTasks taskList label filter)))
          req plan) r.2 actor := by
  obtain ⟨tasks, htasks, h⟩ := bind_eq_ok.mp h
  obtain ⟨plan, hplan, h⟩ := bind_eq_ok.mp h
  obtain rfl := Except.ok.inj h
  obtain rfl := sortTasksByPriority_eq htasks
  intro actor hactor
  rcases (scheduleByPriority_release hplan).2 actor hactor with hnone | hj
  · cases hnone
  · refine hj.mono (fun req plan hreaches => ⟨?_, hreaches⟩) fun _ h => h
    obtain ⟨before, after, level, earlier, later, -, -, hsplit, -⟩ := hreaches
    exact (priorityOf_of_passed (hsplit ▸ List.mem_append_right _ (List.mem_cons_self ..))).1

/-- Each task the priority scheduler releases is a scheduled, preemptible one of a larger priority
    number than a pending task of its label and class which did not fit, neither when its level was
    walked nor afterwards, and fits once it and others that are released are removed. Without
    preemption nothing is released, and a try that fails leaves all that is decided on. -/
theorem preemption_sound_and_atomic (c : Cluster σ) (draws : Draws) (preemptionEnabled : Bool)
    (taskList : TaskList ContainerAllocation) (groups : ℕ → Option Group) (agents : Agents)
    {toAllocate : List AllocateRequest} {toRelease : List ℕ}
    (h : prioritySchedule c draws preemptionEnabled taskList groups agents =
      .ok (toAllocate, toRelease)) :
    (∀ actor ∈ toRelease, ∃ label ∈ agents.labels, ∃ filter ∈ taskFilters,
      Justified c taskList groups label filter
        (fun req plan => req ∈ pendingTasks taskList label filter ∧
          Reaches c draws taskList groups label filter (pendingTasks taskList label filter)
            ⟨agents.withLabel label, [], [], true⟩
            (getOrderedPriorities (prioritized groups (pendingTasks taskList label filter)))
            req plan) toRelease actor) ∧
    (preemptionEnabled = false → toRelease = []) ∧
    ∀ filter scheduled priority plan req preemption, findFits c req plan.agents = [] →
      trySchedulingTaskViaPreemption c draws taskList req priority plan.agents scheduled
        plan.toRelease filter = .ok preemption → preemption.taskPlaced = false →
          placeViaPreemption c draws taskList scheduled filter priority plan req = .ok plan := by
  obtain ⟨hincl, -, hrelease⟩ := scheduleLabels_spec h
  have hdisabled : preemptionEnabled = false → toRelease = [] := by
    rintro rfl
    refine List.eq_nil_iff_forall_not_mem.mpr fun actor hactor => ?_
    obtain ⟨label, -, filter, -, r, hr, hactor⟩ := hrelease actor hactor
    obtain ⟨tasks, -, hr⟩ := bind_eq_ok.mp hr
    obtain ⟨plan, hplan, hr⟩ := bind_eq_ok.mp hr
    obtain rfl := Except.ok.inj hr
    rw [scheduleByPriority_of_not_enabled hplan] at hactor
    cases hactor
  refine ⟨fun actor hactor => ?_, hdisabled, fun filter scheduled priority plan req preemption
    hnofit htry hfailed => placeViaPreemption_of_failed hnofit htry hfailed⟩
  cases preemptionEnabled with
  | false => rw [hdisabled rfl] at hactor; cases hactor
  | true =>
    obtain ⟨label, hlabel, filter, hfilter, r, hr, hactor⟩ := hrelease actor hactor
    obtain ⟨r', hr', -, hsub⟩ := hincl label hlabel filter hfilter
    obtain rfl := Except.ok.inj (hr.symm.trans hr')
    exact ⟨label, hlabel, filter, hfilter,
      (prioritySchedulerWithFilter_release hr actor hactor).mono (fun _ _ h => h) hsub⟩

/-- The device of an agent of one slot. -/
def onlyDevice : Device := ⟨0, "", "", .gpu⟩

/-- A task waits while another runs on the only slot. -/
def oneRunning (pending running : ℕ) : TaskList ContainerAllocation :=
  (waitingTasks [ownGroupTask pending 1, ownGroupTask running 1]).setAllocations running
    [⟨0, "c", [onlyDevice]⟩]

/-- The only agent, with its only slot in use. -/
def busyAgents : Agents := Agents.empty.add 0 ((freeAgent 1).occupy [onlyDevice] "c")

/-- The running task is of the larger priority number, and released. -/
theorem preemption_sound_and_atomic_one_slot :
    prioritySchedule (numberedCluster bestFit) plainDraws true (oneRunning 1 2) numberedGroups
      busyAgents = .ok ([], [2]) ∧
      ∃ label ∈ busyAgents.labels, ∃ filter ∈ taskFilters,
        Justified (numberedCluster bestFit) (oneRunning 1 2) numberedGroups label filter
          (fun req plan => req ∈ pendingTasks (oneRunning 1 2) label filter ∧
            Reaches (numberedCluster bestFit) plainDraws (oneRunning 1 2) numberedGroups label
              filter (pendingTasks (oneRunning 1 2) label filter)
              ⟨busyAgents.withLabel label, [], [], true⟩
              (getOrderedPriorities (prioritized numberedGroups
                (pendingTasks (oneRunning 1 2) label filter))) req plan) [2] 2 := by
  have hresult : prioritySchedule (numberedCluster bestFit) plainDraws true (oneRunning 1 2)
      numberedGroups busyAgents = .ok ([], [2]) := by decide +kernel
  exact ⟨hresult, (preemption_sound_and_atomic _ _ _ _ _ _ hresult).1 2 (List.mem_singleton_self 2)⟩

end Determined.Pool
