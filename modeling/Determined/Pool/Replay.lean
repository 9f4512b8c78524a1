import Determined.Pool.Preemption
import Determined.Pool.ResourcePool

/-! The pool carries out what the priority scheduler decided on copies of its agents.

    A fit depends on counts only: the slots of the agents of the task's label and, for a zero-slot
    task, their zero-slot containers. The tasks that are started are those of one label and class
    after the other, zero-slot tasks first. So the real agents of a label agree in these counts with
    the copy of each class when its turn comes, and the replay keeps them in step. -/

namespace Determined.Pool
open Determined.Model Determined.Schemes

/-! ### Agents with the same counts -/

/-- Agents that count the same; of zero-slot containers only where these matter. -/
structure SameCounts (zeroSlot : Prop) (a b : AgentState) : Prop where
  label : a.label = b.label
  numSlots : a.numSlots = b.numSlots
  numUsedSlots : a.numUsedSlots = b.numUsedSlots
  maxZeroSlotContainers : a.maxZeroSlotContainers = b.maxZeroSlotContainers
  numZeroSlotContainers : zeroSlot → a.numZeroSlotContainers = b.numZeroSlotContainers

theorem SameCounts.refl (zeroSlot : Prop) (a : AgentState) : SameCounts zeroSlot a a :=
  ⟨rfl, rfl, rfl, rfl, fun _ => rfl⟩

theorem SameCounts.numEmptySlots {zeroSlot : Prop} {a b : AgentState}
    (h : SameCounts zeroSlot a b) : a.numEmptySlots = b.numEmptySlots := by
  rw [AgentState.numEmptySlots, AgentState.numEmptySlots, h.numSlots, h.numUsedSlots]

/-- The fitting policies score by the counts. -/
theorem SameCounts.makeFitFunction_eq {a b : AgentState} {req : AllocateRequest}
    (h : SameCounts (req.slotsNeeded = 0) a b) (policy : FittingPolicy) :
    makeFitFunction policy req a = makeFitFunction policy req b := by
  by_cases hzero : req.slotsNeeded = 0
  · cases policy <;> simp only [makeFitFunction, bestFit, worstFit, h.numUsedSlots, h.numSlots,
      h.numEmptySlots, h.maxZeroSlotContainers, h.numZeroSlotContainers hzero]
  · cases policy <;> simp only [makeFitFunction, bestFit, worstFit, hzero, ne_eq,
      not_false_eq_true, or_true, if_true, h.numSlots, h.numEmptySlots]

/-- The agents of a label count the same as the copies of them. -/
structure Agrees (zeroSlot : Prop) (label : String) (agents copy : Agents) : Prop where
  refs : agents.refs.filter (fun ref => (agents.state ref).label == label) = copy.refs
  label : ∀ ref ∈ copy.refs, (copy.state ref).label = label
  counts : ∀ ref ∈ copy.refs, SameCounts zeroSlot (agents.state ref) (copy.state ref)

variable {zeroSlot : Prop} {label : String} {agents agents' copy copy' : Agents}

theorem agrees_withLabel (zeroSlot : Prop) (label : String) (agents : Agents) :
    Agrees zeroSlot label agents (agents.withLabel label) where
  refs := rfl
  label _ href := beq_iff_eq.mp (List.mem_filter.mp href).2
  counts ref _ := .refl zeroSlot (agents.state ref)

theorem Agrees.mem (h : Agrees zeroSlot label agents copy) {ref : ℕ} (href : ref ∈ agents.refs)
    (hlabel : (agents.state ref).label = label) : ref ∈ copy.refs := by
  rw [← h.refs]
  exact List.mem_filter.mpr ⟨href, by simpa using hlabel⟩

theorem Agrees.label_eq (h : Agrees zeroSlot label agents copy) {ref : ℕ} (href : ref ∈ copy.refs) :
    (agents.state ref).label = label := (h.counts ref href).label.trans (h.label ref href)

variable {c : Cluster ℚ} {policy : FittingPolicy} {req : AllocateRequest}

/-- Such agents look the same to a task of the label and class. -/
theorem Agrees.alike (h : Agrees (req.slotsNeeded = 0) req.label agents copy)
    (hfit : c.fittingMethod = makeFitFunction policy) : Alike c req agents copy := by
  have hmem : ∀ ref ∈ agents.refs, labelSatisfied req (agents.state ref) = true →
      SameCounts (req.slotsNeeded = 0) (agents.state ref) (copy.state ref) := fun ref href hlabel =>
    h.counts ref (h.mem href (beq_iff_eq.mp hlabel).symm)
  constructor
  · have hcopy : (copy.refs.filter fun ref => labelSatisfied req (copy.state ref)) = copy.refs :=
      List.filter_eq_self.mpr fun ref href => by simp [labelSatisfied, h.label ref href]
    rw [hcopy, ← h.refs]
    refine List.Perm.of_eq (List.filter_congr fun ref _ => ?_)
    rw [labelSatisfied, Bool.beq_comm]
  · exact fun ref href hlabel => (hmem ref href hlabel).numUsedSlots
  · exact fun ref href hlabel => (hmem ref href hlabel).numEmptySlots
  · intro ref href hlabel
    have hcounts := hmem ref href hlabel
    by_cases hzero : req.slotsNeeded = 0
    · simp only [maxZeroSlotContainersSatisfied, hcounts.maxZeroSlotContainers,
        hcounts.numZeroSlotContainers hzero]
    · simp [maxZeroSlotContainersSatisfied, hzero]
  · intro ref href hlabel
    rw [hfit]
    exact (hmem ref href hlabel).makeFitFunction_eq policy

section Taking

variable {σ : Type} {fits : List (FittingState σ)} {ref : ℕ}

theorem slotsOn_eq_zero (h : ∀ fit ∈ fits, fit.agent ≠ ref ∨ fit.slots = 0) :
    slotsOn fits ref = 0 := by
  rw [slotsOn, List.sum_eq_zero]
  intro n hn
  obtain ⟨fit, hfit, rfl⟩ := List.mem_map.mp hn
  obtain ⟨hmem, hagent⟩ := List.mem_filter.mp hfit
  exact (h fit hmem).resolve_left fun hne => hne (by simpa using hagent)

theorem zeroSlotsOn_eq_zero (h : ∀ fit ∈ fits, fit.agent ≠ ref) : zeroSlotsOn fits ref = 0 := by
  rw [zeroSlotsOn, List.countP_eq_zero]
  intro fit hfit
  simp [h fit hfit]

theorem takes_refs_filter (htakes : Takes fits agents agents') (label : String) :
    agents'.refs.filter (fun ref => (agents'.state ref).label == label) =
      agents.refs.filter fun ref => (agents.state ref).label == label := by
  simp only [htakes.refs, htakes.label]

/-- Taking the same shares keeps the counts the same. -/
theorem Agrees.takes (h : Agrees zeroSlot label agents copy) (htakes : Takes fits agents agents')
    (htakes' : Takes fits copy copy') : Agrees zeroSlot label agents' copy' where
  refs := by rw [takes_refs_filter htakes, h.refs, htakes'.refs]
  label ref href := by
    rw [htakes'.label]
    exact h.label ref (htakes'.refs ▸ href)
  counts ref href := by
    have hcounts := h.counts ref (htakes'.refs ▸ href)
    constructor
    · rw [htakes.label, htakes'.label, hcounts.label]
    · rw [htakes.numSlots, htakes'.numSlots, hcounts.numSlots]
    · rw [htakes.numUsedSlots, htakes'.numUsedSlots, hcounts.numUsedSlots]
    · rw [htakes.maxZeroSlotContainers, htakes'.maxZeroSlotContainers,
        hcounts.maxZeroSlotContainers]
    · intro hzero
      rw [htakes.numZeroSlotContainers, htakes'.numZeroSlotContainers,
        hcounts.numZeroSlotContainers hzero]

/-- A task of another label, or a zero-slot one where those do not count, takes nothing. -/
theorem Agrees.frame (h : Agrees zeroSlot label agents copy) (hfits : Fits req agents fits)
    (hother : req.label ≠ label ∨ req.slotsNeeded = 0 ∧ ¬ zeroSlot)
    (htakes : Takes fits agents agents') : Agrees zeroSlot label agents' copy where
  refs := by rw [takes_refs_filter htakes, h.refs]
  label := h.label
  counts ref href := by
    have hcounts := h.counts ref href
    have hagent : req.label ≠ label → ∀ fit ∈ fits, fit.agent ≠ ref := by
      rintro hne fit hfit rfl
      exact hne ((hfits.label fit hfit).symm.trans (h.label_eq href))
    constructor
    · rw [htakes.label, hcounts.label]
    · rw [htakes.numSlots, hcounts.numSlots]
    · rw [htakes.numUsedSlots, hcounts.numUsedSlots, slotsOn_eq_zero, Nat.add_zero]
      rcases hother with hne | ⟨hzero, -⟩
      · exact fun fit hfit => .inl (hagent hne fit hfit)
      · exact fun fit hfit => .inr ((hfits.zero fit hfit).mpr hzero)
    · rw [htakes.maxZeroSlotContainers, hcounts.maxZeroSlotContainers]
    · intro hzero
      rcases hother with hne | ⟨-, hnot⟩
      · rw [htakes.numZeroSlotContainers, hcounts.numZeroSlotContainers hzero,
          zeroSlotsOn_eq_zero (hagent hne), Nat.add_zero]
      · exact absurd hzero hnot

end Taking

/-! ### Replaying a level -/

variable {draws draws' : Draws}

/-- Both place the task, and go on agreeing. -/
theorem Agrees.afterPlace (draws' : Draws)
    (h : Agrees (req.slotsNeeded = 0) req.label agents copy)
    (hfit : c.fittingMethod = makeFitFunction policy)
    (hcopy : placeTask c draws copy req = some copy') :
    ∃ agents', placeTask c draws' agents req = some agents' ∧
      Agrees (req.slotsNeeded = 0) req.label agents' copy' := by
  have heq := (h.alike hfit).findFits_eq
  have hsome : (placeTask c draws' agents req).isSome := by
    rw [placeTask_isSome, heq]
    exact (placeTask_eq_some.mp hcopy).1
  obtain ⟨agents', hagents⟩ := Option.isSome_iff_exists.mp hsome
  refine ⟨agents', hagents, h.takes (takes_of_placeTask hagents) ?_⟩
  rw [heq]
  exact takes_of_placeTask hcopy

/-- Tasks that do not count leave the agreement alone. -/
theorem Agrees.afterWalk (c : Cluster ℚ) (draws' : Draws)
    (h : Agrees zeroSlot label agents copy) {reqs : List AllocateRequest}
    (hother : ∀ req ∈ reqs, req.label ≠ label ∨ req.slotsNeeded = 0 ∧ ¬ zeroSlot) :
    Agrees zeroSlot label (greedy (placeTask c draws') agents reqs) copy := by
  induction reqs generalizing agents with
  | nil => exact h
  | cons req reqs ih =>
    rw [greedy]
    refine ih ?_ fun r hr => hother r (List.mem_cons_of_mem _ hr)
    cases hplace : placeTask c draws' agents req with
    | none => exact h
    | some agents1 =>
      exact h.frame findFits_fits (hother req (List.mem_cons_self ..)) (takes_of_placeTask hplace)

/-- The tasks of one label and class. -/
def OfClass (zeroSlot : Prop) (label : String) (reqs : List AllocateRequest) : Prop :=
  ∀ req ∈ reqs, req.label = label ∧ (zeroSlot ↔ req.slotsNeeded = 0)

/-- The real agents come to the tasks a level places as the copy came to them. -/
theorem replay_level (draws draws' : Draws) (hfit : c.fittingMethod = makeFitFunction policy)
    {reqs : List AllocateRequest} (hreqs : OfClass zeroSlot label reqs) :
    ∀ {agents copy : Agents}, Agrees zeroSlot label agents copy →
      Along (placeTask c draws') (fun real req => ∃ earlier later, reqs = earlier ++ req :: later ∧
          findFits c req (greedy (placeTask c draws) copy earlier) ≠ [] ∧
          Agrees zeroSlot label real (greedy (placeTask c draws) copy earlier)) agents
        (placed (placeTask c draws) copy reqs) ∧
      Agrees zeroSlot label
        (greedy (placeTask c draws') agents (placed (placeTask c draws) copy reqs))
        (greedy (placeTask c draws) copy reqs) := by
  induction reqs with
  | nil => exact fun h => ⟨trivial, h⟩
  | cons req reqs ih =>
    intro agents copy h
    have ih := @ih fun r hr => hreqs r (List.mem_cons_of_mem _ hr)
    obtain ⟨rfl, hzero⟩ := hreqs req (List.mem_cons_self ..)
    obtain rfl : zeroSlot = (req.slotsNeeded = 0) := propext hzero
    rw [placed, greedy]
    cases hplace : placeTask c draws copy req with
    | none =>
      obtain ⟨halong, hagrees⟩ := ih h
      refine ⟨halong.mono ?_, hagrees⟩
      rintro real r - ⟨earlier, later, rfl, hr⟩
      exact ⟨req :: earlier, later, rfl, by simpa only [greedy, hplace, Option.getD_none] using hr⟩
    | some copy1 =>
      obtain ⟨agents1, hreal, hagrees1⟩ := h.afterPlace draws' hfit hplace
      obtain ⟨halong, hagrees⟩ := ih hagrees1
      have hfits : findFits c req copy ≠ [] := (placeTask_eq_some.mp hplace).1
      simp only [Option.isSome_some, if_true, Option.getD_some, Along, greedy, hreal]
      refine ⟨⟨⟨[], reqs, rfl, hfits, h⟩, halong.mono ?_⟩, hagrees⟩
      rintro real r - ⟨earlier, later, rfl, hr⟩
      exact ⟨req :: earlier, later, rfl, by simpa only [greedy, hplace, Option.getD_some] using hr⟩

/-! ### Replaying a label and class -/

section Class

variable (c) (draws) (taskList : TaskList ContainerAllocation) (groups : ℕ → Option Group)
  (preemptionEnabled : Bool) (filter : AllocateRequest → Bool)

/-- The scheduler starts a task on a copy of the agents: the levels before were scheduled and all
    their tasks started, and of the task's own level the earlier tasks were tried. -/
def Simulates (label : String) (start : Plan) (priorities : List ℤ) (req : AllocateRequest)
    (copy : Agents) : Prop :=
  ∃ before after level earlier later placement,
    priorities = before ++ priorityOf groups req :: after ∧
    scheduleByPriority c draws preemptionEnabled taskList
      (prioritized groups (pendingTasks taskList label filter))
      (prioritized groups (scheduledTasks taskList label filter)) filter start before = .ok level ∧
    level.startTasks = true ∧
    c.oldestFirst (tasksIn (prioritized groups (pendingTasks taskList label filter))
      (priorityOf groups req)) = earlier ++ req :: later ∧
    trySchedulingPendingTasksInPriority c draws earlier level.agents = .ok placement ∧
    placement.agents = copy ∧ findFits c req copy ≠ []

end Class

variable {taskList : TaskList ContainerAllocation} {groups : ℕ → Option Group}
  {preemptionEnabled : Bool} {filter : AllocateRequest → Bool}

theorem Simulates.fits {start : Plan} {priorities : List ℤ}
    (h : Simulates c draws taskList groups preemptionEnabled filter label start priorities req
      copy) : findFits c req copy ≠ [] := by
  obtain ⟨before, after, level, earlier, later, placement, -, -, -, -, -, -, hfits⟩ := h
  exact hfits

/-- The real agents agree with a copy on which the scheduler starts the task. -/
def Replays (c : Cluster ℚ) (draws : Draws) (taskList : TaskList ContainerAllocation)
    (groups : ℕ → Option Group) (preemptionEnabled : Bool) (filter : AllocateRequest → Bool)
    (zeroSlot : Prop) (label : String) (start : Plan) (priorities : List ℤ) (real : Agents)
    (req : AllocateRequest) : Prop :=
  ∃ copy, Simulates c draws taskList groups preemptionEnabled filter label start priorities req
    copy ∧ Agrees zeroSlot label real copy

theorem ofClass_level (c : Cluster ℚ) (taskList : TaskList ContainerAllocation)
    (groups : ℕ → Option Group)
    (hclass : ∀ req, filter req = true → (zeroSlot ↔ req.slotsNeeded = 0))
    (label : String) (priority : ℤ) : OfClass zeroSlot label (c.oldestFirst
      (tasksIn (prioritized groups (pendingTasks taskList label filter)) priority)) := by
  intro req hreq
  rw [prioritized, tasksIn_map, mem_level] at hreq
  obtain ⟨-, hlabel, hfilter, -⟩ := mem_pendingTasks.mp hreq.1
  exact ⟨hlabel, hclass req hfilter⟩

/-- Nothing is started any more. -/
theorem scheduleByPriority_of_stopped {pending scheduled : List (ℤ × AllocateRequest)}
    {priorities : List ℤ} {plan plan' : Plan} (hstop : plan.startTasks = false)
    (h : scheduleByPriority c draws preemptionEnabled taskList pending scheduled filter plan
      priorities = .ok plan') : plan'.toAllocate = plan.toAllocate := by
  rw [scheduleByPriority_toAllocate h, hstop]
  simp

theorem scheduleByPriority_startTasks {pending scheduled : List (ℤ × AllocateRequest)}
    {priorities : List ℤ} : ∀ {plan plan' : Plan}, plan.startTasks = false →
      scheduleByPriority c draws preemptionEnabled taskList pending scheduled filter plan
        priorities = .ok plan' → plan'.startTasks = false := by
  induction priorities with
  | nil => intro plan plan' hstop h; cases h; exact hstop
  | cons priority priorities ih =>
    intro plan plan' hstop h
    rw [scheduleByPriority_cons] at h
    have hwalk : ∀ reqs, (plan.walk c draws reqs).startTasks = false := fun reqs => by
      rw [Plan.walk, hstop, Bool.false_and]
    split at h
    · exact ih (hwalk _) h
    · split at h
      · obtain ⟨plan1, h1, h⟩ := bind_eq_ok.mp h
        exact ih ((foldlM_placeViaPreemption_starts h1).2.trans (hwalk _)) h
      · obtain rfl := Except.ok.inj h
        exact hwalk _

/-- The tasks that are started are replayed level by level; where the copy is not changed any more
    afterwards, it still agrees at the end. -/
theorem replay_priorities (draws' : Draws) (hfit : c.fittingMethod = makeFitFunction policy)
    (hclass : ∀ req, filter req = true → (zeroSlot ↔ req.slotsNeeded = 0)) {priorities : List ℤ} :
    ∀ {plan plan' : Plan} {real : Agents}, scheduleByPriority c draws preemptionEnabled taskList
        (prioritized groups (pendingTasks taskList label filter))
        (prioritized groups (scheduledTasks taskList label filter)) filter plan priorities =
          .ok plan' → plan.startTasks = true → Agrees zeroSlot label real plan.agents →
      ∃ started, plan'.toAllocate = plan.toAllocate ++ started ∧
        OfClass zeroSlot label started ∧
        Along (placeTask c draws') (Replays c draws taskList groups preemptionEnabled filter
          zeroSlot label plan priorities) real started ∧
        (preemptionEnabled = false ∨ plan'.startTasks = true →
          Agrees zeroSlot label (greedy (placeTask c draws') real started) plan'.agents) := by
  induction priorities with
  | nil =>
    intro plan plan' real h _ hagrees
    obtain rfl := Except.ok.inj h
    exact ⟨[], (List.append_nil _).symm, by simp [OfClass], trivial, fun _ => hagrees⟩
  | cons priority priorities ih =>
    intro plan plan' real h hstart hagrees
    rw [scheduleByPriority_cons] at h
    have hlevel := ofClass_level c taskList groups hclass label priority
    obtain ⟨halong, hend⟩ := replay_level draws draws' hfit hlevel hagrees
    have hstarted : OfClass zeroSlot label (placed (placeTask c draws) plan.agents (c.oldestFirst
        (tasksIn (prioritized groups (pendingTasks taskList label filter)) priority))) :=
      fun req hreq => hlevel req ((placed_sublist _).subset hreq)
    have hfirst := halong.mono (Q := Replays c draws taskList groups preemptionEnabled filter
      zeroSlot label plan (priority :: priorities)) fun s req hreq => by
        rintro ⟨earlier, later, hsplit, hfits, hreal⟩
        have hpriority : priorityOf groups req = priority := by
          have hmem := (placed_sublist _).subset hreq
          rw [prioritized, tasksIn_map, mem_level] at hmem
          exact hmem.2
        refine ⟨_, ⟨[], priorities, plan, earlier, later, _, by rw [hpriority]; rfl, rfl, hstart,
          by rw [hpriority, hsplit], trySchedulingPendingTasksInPriority_eq _ _, rfl, hfits⟩, hreal⟩
    have hwalk : (plan.walk c draws (c.oldestFirst (tasksIn (prioritized groups
        (pendingTasks taskList label filter)) priority))).toAllocate = plan.toAllocate ++
          placed (placeTask c draws) plan.agents (c.oldestFirst (tasksIn (prioritized groups
            (pendingTasks taskList label filter)) priority)) := by
      rw [Plan.walk, if_pos hstart]
    by_cases hpassed : passed (placeTask c draws) plan.agents (c.oldestFirst (tasksIn
        (prioritized groups (pendingTasks taskList label filter)) priority)) = []
    · rw [if_pos hpassed] at h
      have hgoes : (plan.walk c draws (c.oldestFirst (tasksIn (prioritized groups
          (pendingTasks taskList label filter)) priority))).startTasks = true := by
        simp [Plan.walk, hstart, hpassed]
      obtain ⟨started, hallocate, hof, hrest, hfinal⟩ := ih h hgoes hend
      refine ⟨_ ++ started, by rw [hallocate, hwalk, List.append_assoc],
        List.forall_mem_append.mpr ⟨hstarted, hof⟩, ?_, fun hor => ?_⟩
      · refine (along_append _ _).mpr ⟨hfirst, hrest.mono ?_⟩
        rintro s req - ⟨copy, ⟨before, after, level, earlier, later, placement, rfl, hbefore,
          hrest⟩, hreal⟩
        refine ⟨copy, ⟨priority :: before, after, level, earlier, later, placement, rfl, ?_, hrest⟩,
          hreal⟩
        rw [scheduleByPriority_cons, if_pos hpassed, hbefore]
      · rw [greedy_append]
        exact hfinal hor
    · rw [if_neg hpassed] at h
      have hstop : (plan.walk c draws (c.oldestFirst (tasksIn (prioritized groups
          (pendingTasks taskList label filter)) priority))).startTasks = false := by
        simp [Plan.walk, hpassed]
      split at h
      · rename_i henabled
        obtain ⟨plan1, h1, h⟩ := bind_eq_ok.mp h
        obtain ⟨hallocate, hstop1⟩ := foldlM_placeViaPreemption_starts h1
        have hstopped := hstop1.trans hstop
        refine ⟨_, ?_, hstarted, hfirst, fun hor => ?_⟩
        · rw [scheduleByPriority_of_stopped hstopped h, hallocate, hwalk]
        · rw [scheduleByPriority_startTasks hstopped h] at hor
          simp [henabled] at hor
      · obtain rfl := Except.ok.inj h
        exact ⟨_, hwalk, hstarted, hfirst, fun _ => hend⟩

/-! ### Replaying all decisions -/

section All

variable (c) (draws) (preemptionEnabled) (taskList) (groups) (agents)

/-- The scheduler's copy before it comes to a label. -/
def copyOf (label : String) : Plan := ⟨agents.withLabel label, [], [], true⟩

/-- The priorities of the pending tasks of a label and class, in order. -/
def pendingPriorities (label : String) (filter : AllocateRequest → Bool) : List ℤ :=
  getOrderedPriorities (prioritized groups (pendingTasks taskList label filter))

/-- The scheduling loop of a label and class, on its copy of the agents. -/
def simulation (label : String) (filter : AllocateRequest → Bool) : Except Fault Plan :=
  scheduleByPriority c draws preemptionEnabled taskList
    (prioritized groups (pendingTasks taskList label filter))
    (prioritized groups (scheduledTasks taskList label filter)) filter (copyOf agents label)
    (pendingPriorities taskList groups label filter)

/-- The real agents agree with the copy of the task's label and class. -/
def ReplaysTask (real : Agents) (req : AllocateRequest) : Prop :=
  ∃ filter ∈ taskFilters, Replays c draws taskList groups preemptionEnabled filter
    (req.slotsNeeded = 0) req.label (copyOf agents req.label)
    (pendingPriorities taskList groups req.label filter) real req

end All

theorem exists_simulation {r : List AllocateRequest × List ℕ}
    (h : prioritySchedulerWithFilter c draws preemptionEnabled taskList groups
      (agents.withLabel label) label filter = .ok r) :
    ∃ plan, simulation agents c draws taskList groups preemptionEnabled label filter = .ok plan ∧
      r = (plan.toAllocate, plan.toRelease) := by
  obtain ⟨tasks, htasks, h⟩ := bind_eq_ok.mp h
  obtain ⟨plan, hplan, hr⟩ := bind_eq_ok.mp h
  obtain rfl := sortTasksByPriority_eq htasks
  exact ⟨plan, hplan, (Except.ok.inj hr).symm⟩

/-- The tasks of one label and class. -/
theorem replay_class (draws' : Draws) (zeroSlot : Prop)
    (hfit : c.fittingMethod = makeFitFunction policy)
    (hfilter : filter ∈ taskFilters)
    (hclass : ∀ req, filter req = true → (zeroSlot ↔ req.slotsNeeded = 0))
    {r : List AllocateRequest × List ℕ} (h : prioritySchedulerWithFilter c draws preemptionEnabled
      taskList groups (agents.withLabel label) label filter = .ok r) {real : Agents}
    (hagrees : Agrees zeroSlot label real (agents.withLabel label)) :
    OfClass zeroSlot label r.1 ∧
    Along (placeTask c draws')
      (ReplaysTask agents c draws taskList groups preemptionEnabled) real r.1 ∧
    ∀ plan, simulation agents c draws taskList groups preemptionEnabled label filter = .ok plan →
      preemptionEnabled = false ∨ plan.startTasks = true →
        Agrees zeroSlot label (greedy (placeTask c draws') real r.1) plan.agents := by
  obtain ⟨plan, hplan, rfl⟩ := exists_simulation h
  obtain ⟨started, hallocate, hof, halong, hend⟩ :=
    replay_priorities draws' hfit hclass hplan rfl hagrees
  obtain rfl : started = plan.toAllocate := hallocate.symm
  refine ⟨hof, halong.mono ?_, fun plan' hplan' => ?_⟩
  · intro s req hreq hreplays
    obtain ⟨rfl, hzero⟩ := hof req hreq
    obtain rfl : zeroSlot = (req.slotsNeeded = 0) := propext hzero
    exact ⟨filter, hfilter, hreplays⟩
  · obtain rfl := Except.ok.inj (hplan.symm.trans hplan')
    exact hend

/-- The tasks of all labels, one after the other. -/
theorem replay_labels (draws' : Draws) (hfit : c.fittingMethod = makeFitFunction policy) {labels : List String} :
    ∀ {result : List AllocateRequest × List ℕ} {real : Agents}, labels.Nodup →
      scheduleLabels c draws preemptionEnabled taskList groups agents labels = .ok result →
      (∀ label ∈ labels, ∀ zeroSlot, Agrees zeroSlot label real (agents.withLabel label)) →
      (∀ req ∈ result.1, req.label ∈ labels) ∧
      Along (placeTask c draws')
        (ReplaysTask agents c draws taskList groups preemptionEnabled) real result.1 ∧
      ∀ label ∈ labels, ∀ plan, simulation agents c draws taskList groups preemptionEnabled label
        nonZeroSlotTaskFilter = .ok plan → preemptionEnabled = false ∨ plan.startTasks = true →
          Agrees False label (greedy (placeTask c draws') real result.1) plan.agents := by
  induction labels with
  | nil => intro result real _ h _; cases h; simp [Along]
  | cons label labels ih =>
    intro result real hnodup h hagrees
    obtain ⟨hnew, hnodup⟩ := List.nodup_cons.mp hnodup
    obtain ⟨forLabel, hlabel, h⟩ := bind_eq_ok.mp h
    obtain ⟨rest, hrest, h⟩ := bind_eq_ok.mp h
    obtain rfl := Except.ok.inj h
    obtain ⟨zero, hzero, hlabel⟩ := bind_eq_ok.mp hlabel
    obtain ⟨nonZero, hnonZero, hlabel⟩ := bind_eq_ok.mp hlabel
    obtain rfl := Except.ok.inj hlabel
    have hhead := hagrees label (List.mem_cons_self ..)
    obtain ⟨hof, halong, -⟩ := replay_class draws' True hfit
      (by simp [taskFilters]) (by simp [zeroSlotTaskFilter]) hzero (hhead True)
    -- Zero-slot tasks take no slots, and those of a label nothing of another's agents.
    have hafter := (hhead False).afterWalk c draws' fun req hreq =>
      .inr ⟨(hof req hreq).2.mp trivial, id⟩
    obtain ⟨hof', halong', hend⟩ := replay_class draws' False hfit
      (by simp [taskFilters]) (by simp [nonZeroSlotTaskFilter]; omega) hnonZero hafter
    have hothers : ∀ label' ∈ labels, ∀ zeroSlot, Agrees zeroSlot label'
        (greedy (placeTask c draws') (greedy (placeTask c draws') real zero.1) nonZero.1)
        (agents.withLabel label') := by
      intro label' hl zeroSlot
      have hne : label ≠ label' := fun heq => hnew (heq ▸ hl)
      refine ((hagrees label' (List.mem_cons_of_mem _ hl) zeroSlot).afterWalk c draws' ?_).afterWalk c draws'
        ?_
      · exact fun req hreq => .inl ((hof req hreq).1 ▸ hne)
      · exact fun req hreq => .inl ((hof' req hreq).1 ▸ hne)
    obtain ⟨hlabels, halongs, hends⟩ := ih hnodup hrest hothers
    refine ⟨?_, ?_, ?_⟩
    · simp only [List.forall_mem_append]
      exact ⟨⟨fun req hreq => (hof req hreq).1 ▸ List.mem_cons_self ..,
        fun req hreq => (hof' req hreq).1 ▸ List.mem_cons_self ..⟩,
        fun req hreq => List.mem_cons_of_mem _ (hlabels req hreq)⟩
    · rw [along_append, along_append, greedy_append]
      exact ⟨⟨halong, halong'⟩, halongs⟩
    · rw [greedy_append, greedy_append]
      intro label' hl plan hplan hor
      rcases List.mem_cons.mp hl with rfl | hl
      · exact (hend plan hplan hor).afterWalk c draws' fun req hreq =>
          .inl fun heq => hnew (heq ▸ hlabels req hreq)
      · exact hends label' hl plan hplan hor

/-- A walk leaves the agents and their labels as they are. -/
theorem greedy_placeTask_labels (c : Cluster ℚ) (draws' : Draws) (reqs : List AllocateRequest) : ∀ agents : Agents,
    (greedy (placeTask c draws') agents reqs).refs = agents.refs ∧
      ∀ ref, ((greedy (placeTask c draws') agents reqs).state ref).label =
        (agents.state ref).label := by
  induction reqs with
  | nil => exact fun agents => ⟨rfl, fun _ => rfl⟩
  | cons req reqs ih =>
    intro agents
    rw [greedy]
    cases hplace : placeTask c draws' agents req with
    | none => exact ih agents
    | some agents1 =>
      have htakes := takes_of_placeTask hplace
      obtain ⟨hrefs, hlabels⟩ := ih agents1
      exact ⟨hrefs.trans htakes.refs, fun ref => (hlabels ref).trans (htakes.label ref)⟩

/-- Where the real agents agree with a copy, so do their free slots. -/
theorem Agrees.numEmptySlots (h : Agrees zeroSlot label
      (greedy (placeTask c draws') agents reqs) copy) {ref : ℕ} (href : ref ∈ agents.refs)
    (hlabel : (agents.state ref).label = label) :
    ((greedy (placeTask c draws') agents reqs).state ref).numEmptySlots =
      (copy.state ref).numEmptySlots := by
  obtain ⟨hrefs, hlabels⟩ := greedy_placeTask_labels c draws' reqs agents
  exact (h.counts ref (h.mem (hrefs ▸ href) ((hlabels ref).trans hlabel))).numEmptySlots

/-- CORRECT: the pool allocates every task that the priority scheduler decided to start, on the
    agents and with the slots that the scheduler's copy gave it; up to then, the free slots are the
    same on all agents of the task's label. In the end they are the same as those of the copies of
    the tasks with slots, where these are not changed after the last task is started: preemption is
    disabled, or all pending tasks are started. -/
theorem simulation_agrees_with_allocation (c : Cluster ℚ) (policy : FittingPolicy)
    (hfit : c.fittingMethod = makeFitFunction policy) (p : ResourcePool) (draws draws' : Draws)
    (preemptionEnabled : Bool) {toAllocate : List AllocateRequest} {toRelease : List ℕ}
    (h : prioritySchedule c draws preemptionEnabled p.taskList p.groups p.agents =
      .ok (toAllocate, toRelease)) :
    (∀ before req after, toAllocate = before ++ req :: after → ∃ filter ∈ taskFilters,
      ∃ q notices copy, p.allocateAll c draws' before = .ok (q, notices) ∧
        Simulates c draws p.taskList p.groups preemptionEnabled filter req.label
          (copyOf p.agents req.label) (pendingPriorities p.taskList p.groups req.label filter) req
          copy ∧
        findFits c req q.agents = findFits c req copy ∧ findFits c req copy ≠ [] ∧
        (∃ q' allocations, q.allocateResources c draws' req =
            .ok (q', [.resourcesAllocated req.taskActor allocations]) ∧
          Takes (findFits c req copy) q.agents q'.agents) ∧
        (∃ copy', addTaskToAgents draws req (findFits c req copy) copy = .ok copy' ∧
          Takes (findFits c req copy) copy copy') ∧
        ∀ ref ∈ p.agents.refs, (p.agents.state ref).label = req.label →
          (q.agents.state ref).numEmptySlots = (copy.state ref).numEmptySlots) ∧
    ∃ q notices, p.allocateAll c draws' toAllocate = .ok (q, notices) ∧
      ∀ ref ∈ p.agents.refs, ∀ plan, simulation p.agents c draws p.taskList p.groups
          preemptionEnabled (p.agents.state ref).label nonZeroSlotTaskFilter = .ok plan →
        preemptionEnabled = false ∨ plan.startTasks = true →
          (q.agents.state ref).numEmptySlots = (plan.agents.state ref).numEmptySlots := by
  obtain ⟨-, halong, hend⟩ := replay_labels draws' hfit (List.nodup_dedup _) h
    fun label _ zeroSlot => agrees_withLabel zeroSlot label p.agents
  refine ⟨fun before req after hsplit => ?_, ?_⟩
  · obtain rfl : toAllocate = before ++ req :: after := hsplit
    obtain ⟨q, notices, hall, hq⟩ :=
      p.exists_allocateAll c draws' before
    obtain ⟨filter, hfilter, copy, hsimulates, hagrees⟩ := halong.at
    have hfits := hsimulates.fits
    have heq : findFits c req q.agents = findFits c req copy :=
      ((hq ▸ hagrees).alike hfit).findFits_eq
    refine ⟨filter, hfilter, q, notices, copy, hall, hsimulates, heq, hfits, ?_,
      addTaskToAgents_of_fits draws findFits_fits, fun ref href hlabel => ?_⟩
    · rcases q.allocateResources_cases c draws' req with
        ⟨hnone, -⟩ | ⟨agents, allocations, hplace, -, hone⟩
      · have hsome : (placeTask c draws' q.agents req).isSome := placeTask_isSome.mpr (heq ▸ hfits)
        rw [hnone] at hsome
        cases hsome
      · exact ⟨_, allocations, hone, heq ▸ takes_of_placeTask hplace⟩
    · rw [hq]
      exact hagrees.numEmptySlots href hlabel
  · obtain ⟨q, notices, hall, hq⟩ :=
      p.exists_allocateAll c draws' toAllocate
    refine ⟨q, notices, hall, fun ref href plan hplan hor => ?_⟩
    rw [hq]
    refine (hend _ ?_ plan hplan hor).numEmptySlots href rfl
    exact List.mem_dedup.mpr (List.mem_map_of_mem href)

/-- Two tasks wait for the slots of one agent. -/
def twoWaiting (slots first second : ℕ) : ResourcePool where
  agents := Agents.empty.add 0 (freeAgent slots)
  taskList := waitingTasks [ownGroupTask 1 first, ownGroupTask 2 second]
  groups := numberedGroups
  reschedule := true

/-- Both tasks are started, on an agent of three slots. -/
theorem simulation_agrees_with_allocation_two_tasks :
    let p := twoWaiting 3 2 1
    prioritySchedule (numberedCluster bestFit) plainDraws false p.taskList p.groups p.agents =
      .ok ([ownGroupTask 1 2, ownGroupTask 2 1], []) ∧
    ∃ q notices, p.allocateAll (numberedCluster bestFit) plainDraws
        [ownGroupTask 1 2, ownGroupTask 2 1] = .ok (q, notices) ∧
      ∀ ref ∈ p.agents.refs, ∀ plan, simulation p.agents (numberedCluster bestFit) plainDraws
          p.taskList p.groups false (p.agents.state ref).label nonZeroSlotTaskFilter = .ok plan →
        false = false ∨ plan.startTasks = true →
          (q.agents.state ref).numEmptySlots = (plan.agents.state ref).numEmptySlots := by
  have hresult : prioritySchedule (numberedCluster bestFit) plainDraws false
      (twoWaiting 3 2 1).taskList (twoWaiting 3 2 1).groups (twoWaiting 3 2 1).agents =
        .ok ([ownGroupTask 1 2, ownGroupTask 2 1], []) := by decide +kernel
  exact ⟨hresult, (simulation_agrees_with_allocation (numberedCluster bestFit) .best rfl
    (twoWaiting 3 2 1) plainDraws plainDraws false hresult).2⟩

/-- The first task does not fit, so the second is not started, but the copy places it: it ends with
    no free slot, the real agent with one. -/
theorem copy_goes_on_without_starting :
    let p := twoWaiting 1 2 1
    prioritySchedule (numberedCluster bestFit) plainDraws true p.taskList p.groups p.agents =
      .ok ([], []) ∧
    (simulation p.agents (numberedCluster bestFit) plainDraws p.taskList p.groups true ""
      nonZeroSlotTaskFilter).map (fun plan => (plan.agents.state 0).numEmptySlots) = .ok 0 ∧
    (p.allocateAll (numberedCluster bestFit) plainDraws []).map
      (fun r => (r.1.agents.state 0).numEmptySlots) = .ok 1 := by
  decide +kernel

end Determined.Pool
