import Determined.Pool.KubernetesResourceManager

/-! Slot accounting of the Kubernetes resource manager.

    The count of a group's slots goes up when a task is allocated. At the release it should go down,
    but the task is looked up after it was removed from the list, and so it never does. The count
    is the sum over the allocated tasks exactly as long as no task that holds slots is released;
    from that equation the limits of the groups are read off. -/

namespace Determined.Pool.KubernetesResourceManager
open Determined.Schemes Determined.Model

variable (registeredTime : ℕ → ℤ) (k : KubernetesResourceManager)

/-- The slots of a task that count for a group: those of the group's allocated tasks. -/
def slotsFor (l : TaskList ℕ) (group : ℕ) (t : AllocateRequest) : ℤ :=
  if t.group = group ∧ l.unassigned t.taskActor = false then t.slotsNeeded else 0

/-- The slots needed by the tasks of a group that are currently allocated. -/
def slotsAllocated (l : TaskList ℕ) (group : ℕ) : ℤ := (l.taskByHandler.map (slotsFor l group)).sum

/-- The manager's count of each group is what its allocated tasks need. -/
def Accounted : Prop :=
  ∀ g, (k.groups g).isSome → k.slotsUsedPerGroup g = slotsAllocated k.reqList g

/-- Between the states before and after a tick no group is taken above its limit. -/
def Limited (k' : KubernetesResourceManager) : Prop :=
  ∀ g group m, k.groups g = some group → group.maxSlots = some m →
    slotsAllocated k'.reqList g ≤ max m (slotsAllocated k.reqList g)

/-- Why a task may be left waiting: its slots cannot be split over pods, or they and the slots that
    its group's allocated tasks need are more than its group's limit. -/
def Refused (t : AllocateRequest) : Prop :=
  podSlots k.maxSlotsPerPod t.slotsNeeded = none ∨
    ∃ group m, k.groups t.group = some group ∧ group.maxSlots = some m ∧
      m < slotsAllocated k.reqList t.group + t.slotsNeeded

/-- No task is left waiting without a reason. -/
def Settled : Prop :=
  ∀ t ∈ k.reqList.taskByTime, k.reqList.unassigned t.taskActor → k.Refused t

/-- The slots are accounted for, and ticks use each group's limit and keep to it. -/
structure SlotsAccounted (x : Edge KubernetesResourceManager Message) : Prop where
  accounted : x.post.Accounted
  limited : x.event = .schedulerTick → x.pre.Limited x.post
  settled : x.event = .schedulerTick → x.post.Settled

/-- Nothing allocated is given back: a task that is released holds no slots. -/
def ReleasesNoSlots (x : Edge KubernetesResourceManager Message) : Prop :=
  ∀ t ∈ x.pre.reqList.taskByHandler, x.event = .request (.resourcesReleased t.taskActor) →
    x.pre.reqList.unassigned t.taskActor ∨ t.slotsNeeded = 0

/-! ### The sum over the allocated tasks -/

section Sum

variable {l l' : TaskList ℕ} {g : ℕ}

/-- What changes for one task changes in the sum. -/
theorem slotsAllocated_eq_of_split {req : AllocateRequest} {before after : List AllocateRequest}
    (h : l.taskByHandler = before ++ req :: after)
    (h' : l'.taskByHandler = before ++ req :: after)
    (hsame : ∀ t ∈ before ++ after, slotsFor l' g t = slotsFor l g t) :
    slotsAllocated l' g = slotsAllocated l g + (slotsFor l' g req - slotsFor l g req) := by
  have hbefore : before.map (slotsFor l' g) = before.map (slotsFor l g) :=
    List.map_congr_left fun t ht => hsame t (List.mem_append_left _ ht)
  have hafter : after.map (slotsFor l' g) = after.map (slotsFor l g) :=
    List.map_congr_left fun t ht => hsame t (List.mem_append_right _ ht)
  simp only [slotsAllocated, h, h', List.map_append, List.map_cons, List.sum_append, List.sum_cons,
    hbefore, hafter]
  ring

theorem slotsFor_of_unassigned {t : AllocateRequest} (h : l.unassigned t.taskActor = true) :
    slotsFor l g t = 0 := by
  simp [slotsFor, h]

theorem slotsFor_congr {t : AllocateRequest}
    (h : l'.unassigned t.taskActor = l.unassigned t.taskActor) :
    slotsFor l' g t = slotsFor l g t := by
  rw [slotsFor, slotsFor, h]

/-- A group without tasks has no slots allocated. -/
theorem slotsAllocated_of_no_task (h : ∀ t ∈ l.taskByHandler, t.group ≠ g) :
    slotsAllocated l g = 0 := by
  refine List.sum_eq_zero fun x hx => ?_
  obtain ⟨t, ht, rfl⟩ := List.mem_map.mp hx
  simp [slotsFor, h t ht]

/-- Adding a task allocates nothing. -/
theorem slotsAllocated_addTask {registeredTime : ℕ → ℤ} (hl : l.Consistent registeredTime)
    (req : AllocateRequest) :
    slotsAllocated (l.addTask registeredTime req) g = slotsAllocated l g := by
  rw [TaskList.addTask]
  split
  · rfl
  · rename_i hnone
    have hzero := slotsFor_of_unassigned (g := g) (hl.unassigned_of_new hnone)
    simp only [slotsAllocated, List.map_append, List.sum_append, List.map_singleton,
      List.sum_singleton]
    exact (congrArg (_ + ·) hzero).trans (add_zero _)

/-- Removing a task takes what it counted for out of the sum. -/
theorem slotsAllocated_removeTask {registeredTime : ℕ → ℤ} (hl : l.Consistent registeredTime)
    {req : AllocateRequest} (hreq : req ∈ l.taskByHandler) :
    slotsAllocated (l.removeTaskByHandler registeredTime req.taskActor) g =
      slotsAllocated l g - slotsFor l g req := by
  obtain ⟨before, after, hsplit, hother⟩ := hl.split hreq
  have hfilter : l.taskByHandler.filter (·.taskActor != req.taskActor) = before ++ after := by
    have hbefore : before.filter (·.taskActor != req.taskActor) = before :=
      List.filter_eq_self.mpr fun t ht => by simpa using hother t (List.mem_append_left _ ht)
    have hafter : after.filter (·.taskActor != req.taskActor) = after :=
      List.filter_eq_self.mpr fun t ht => by simpa using hother t (List.mem_append_right _ ht)
    rw [hsplit, List.filter_append, hbefore, List.filter_cons_of_neg (by simp), hafter]
  rw [TaskList.removeTaskByHandler, hl.getTaskByHandler_eq hreq]
  have hsame : ∀ t ∈ before ++ after, slotsFor
      ⟨l.taskByTime.filter (taskComparator registeredTime · req != .eq), before ++ after,
        Function.update l.allocations req.taskActor none⟩ g t = slotsFor l g t := by
    intro t ht
    exact slotsFor_congr (TaskList.unassigned_congr (Function.update_of_ne (hother t ht) ..))
  simp only [slotsAllocated, hfilter]
  rw [List.map_congr_left hsame, hsplit]
  simp only [List.map_append, List.map_cons, List.sum_append, List.sum_cons]
  ring

/-- Allocating a waiting task adds its slots to its group. -/
theorem slotsAllocated_setAllocations {registeredTime : ℕ → ℤ} (hl : l.Consistent registeredTime)
    {req : AllocateRequest} (hreq : req ∈ l.taskByHandler)
    (hwaiting : l.unassigned req.taskActor = true) (a : ℕ) (assigned : List ℕ) :
    slotsAllocated (l.setAllocations req.taskActor (a :: assigned)) g =
      slotsAllocated l g + if req.group = g then (req.slotsNeeded : ℤ) else 0 := by
  obtain ⟨before, after, hsplit, hother⟩ := hl.split hreq
  have hsame : ∀ t ∈ before ++ after,
      slotsFor (l.setAllocations req.taskActor (a :: assigned)) g t = slotsFor l g t := fun t ht =>
    slotsFor_congr (TaskList.unassigned_setAllocations_of_ne (hother t ht) _)
  have hset : (l.setAllocations req.taskActor (a :: assigned)).taskByHandler =
      before ++ req :: after := hsplit
  rw [slotsAllocated_eq_of_split hsplit hset hsame, slotsFor_of_unassigned hwaiting]
  simp [slotsFor]

end Sum

variable {registeredTime k}

/-- What a manager keeps while nothing allocated is given back. -/
structure Kept (registeredTime : ℕ → ℤ) (k : KubernetesResourceManager) : Prop where
  consistent : k.reqList.Consistent registeredTime
  covered : ∀ t ∈ k.reqList.taskByHandler, (k.groups t.group).isSome
  accounted : ∀ g, k.slotsUsedPerGroup g = slotsAllocated k.reqList g

theorem kept_new (maxSlotsPerPod : ℕ) : Kept registeredTime (new maxSlotsPerPod) where
  consistent := .empty
  covered := by simp [new, TaskList.empty]
  accounted := by simp [new, slotsAllocated, TaskList.empty]

theorem getOrCreateGroup_reqList (handler : ℕ) :
    (k.getOrCreateGroup handler).reqList = k.reqList := by
  rw [getOrCreateGroup]
  split <;> rfl

theorem getOrCreateGroup_groups (handler g : ℕ) :
    ((k.getOrCreateGroup handler).groups g).isSome ↔ g = handler ∨ (k.groups g).isSome := by
  rw [getOrCreateGroup]
  split
  · rename_i group hgroup
    refine ⟨.inr, ?_⟩
    rintro (rfl | h)
    · simp [hgroup]
    · exact h
  · by_cases heq : g = handler <;> simp [heq]

theorem Kept.getOrCreateGroup (hk : Kept registeredTime k) (handler : ℕ) :
    Kept registeredTime (k.getOrCreateGroup handler) := by
  refine ⟨?_, fun t ht => ?_, fun g => ?_⟩
  · rw [getOrCreateGroup_reqList]
    exact hk.consistent
  · rw [getOrCreateGroup_reqList] at ht
    exact (getOrCreateGroup_groups handler t.group).mpr (.inr (hk.covered t ht))
  · rw [getOrCreateGroup_reqList, ← hk.accounted, KubernetesResourceManager.getOrCreateGroup]
    split
    · rfl
    · rename_i hnone
      by_cases heq : g = handler
      · subst heq
        simp only [Function.update_self]
        rw [hk.accounted, slotsAllocated_of_no_task]
        rintro t ht rfl
        simpa [hnone] using hk.covered t ht
      · simp only [Function.update_of_ne heq]

theorem Kept.setMaxSlots (hk : Kept registeredTime k) (handler : ℕ) (maxSlots : Option ℤ) :
    Kept registeredTime (k.setMaxSlots handler maxSlots) := by
  have hcreated := hk.getOrCreateGroup handler
  refine ⟨hcreated.consistent, fun t ht => ?_, hcreated.accounted⟩
  have := hcreated.covered t ht
  by_cases heq : t.group = handler
  · simpa [KubernetesResourceManager.setMaxSlots, heq] using heq ▸ this
  · simpa [KubernetesResourceManager.setMaxSlots, heq] using this

theorem Kept.addTask (hk : Kept registeredTime k) (msg : AllocateRequest) (group : Option ℕ)
    (newID : String) : Kept registeredTime (k.addTask registeredTime msg group newID) := by
  have hcreated := hk.getOrCreateGroup (msg.withDefaults group newID).group
  have hgroup := (getOrCreateGroup_groups (k := k) (msg.withDefaults group newID).group
    (msg.withDefaults group newID).group).mpr (.inl rfl)
  rw [KubernetesResourceManager.addTask]
  generalize msg.withDefaults group newID = req at hcreated hgroup ⊢
  generalize k.getOrCreateGroup req.group = created at hcreated hgroup ⊢
  refine ⟨hcreated.consistent.addTask req, fun t ht => ?_, fun g => ?_⟩
  · simp only [TaskList.addTask] at ht
    split at ht
    · exact hcreated.covered t ht
    · rcases List.mem_append.mp ht with ht | ht
      · exact hcreated.covered t ht
      · rw [List.mem_singleton.mp ht]
        exact hgroup
  · exact (hcreated.accounted g).trans (slotsAllocated_addTask hcreated.consistent req).symm

/-! ### Releases -/

/-- The lookup after the removal finds nothing, so the count stays as it was. -/
theorem resourcesReleased_eq (handler : ℕ) :
    k.resourcesReleased registeredTime handler =
      { k with reqList := k.reqList.removeTaskByHandler registeredTime handler } := by
  have hnone : (k.reqList.removeTaskByHandler registeredTime handler).getTaskByHandler handler =
      none := by
    rw [TaskList.removeTaskByHandler]
    split
    · assumption
    · rw [TaskList.getTaskByHandler_eq_none]
      simp
  simp only [resourcesReleased, hnone]

theorem slotsAllocated_release (hk : Kept registeredTime k) {handler g : ℕ}
    (hfree : ∀ t ∈ k.reqList.taskByHandler, t.taskActor = handler →
      k.reqList.unassigned t.taskActor ∨ t.slotsNeeded = 0) :
    slotsAllocated (k.reqList.removeTaskByHandler registeredTime handler) g =
      slotsAllocated k.reqList g := by
  cases hget : k.reqList.getTaskByHandler handler with
  | none => rw [TaskList.removeTaskByHandler, hget]
  | some req =>
    obtain ⟨hreq, rfl⟩ := TaskList.mem_of_getTaskByHandler hget
    have hzero : slotsFor k.reqList g req = 0 := by
      rcases hfree req hreq rfl with h | h
      · exact slotsFor_of_unassigned h
      · simp [slotsFor, h]
    rw [slotsAllocated_removeTask hk.consistent hreq, hzero, sub_zero]

theorem Kept.resourcesReleased (hk : Kept registeredTime k) {handler : ℕ}
    (hfree : ∀ t ∈ k.reqList.taskByHandler, t.taskActor = handler →
      k.reqList.unassigned t.taskActor ∨ t.slotsNeeded = 0) :
    Kept registeredTime (k.resourcesReleased registeredTime handler) := by
  rw [resourcesReleased_eq]
  refine ⟨hk.consistent.removeTaskByHandler handler, fun t ht => ?_, fun g => ?_⟩
  · simp only [TaskList.removeTaskByHandler] at ht
    split at ht
    · exact hk.covered t ht
    · exact hk.covered t (List.mem_of_mem_filter ht)
  · exact (hk.accounted g).trans (slotsAllocated_release hk hfree).symm

/-- Giving slots back breaks the account: the count keeps them. -/
theorem not_accounted_of_release (hk : Kept registeredTime k) {t : AllocateRequest}
    (ht : t ∈ k.reqList.taskByHandler) (hassigned : k.reqList.unassigned t.taskActor = false)
    (hslots : t.slotsNeeded ≠ 0) :
    ¬ (k.resourcesReleased registeredTime t.taskActor).Accounted := by
  intro h
  have hcount := h t.group
  rw [resourcesReleased_eq] at hcount
  have hkept := hcount (hk.covered t ht)
  rw [slotsAllocated_removeTask hk.consistent ht, ← hk.accounted] at hkept
  simp only [slotsFor, hassigned, and_self, if_true] at hkept
  omega

/-! ### Ticks -/

/-- What scheduling changes: waiting tasks may get their slots. -/
structure Scheduled (k k' : KubernetesResourceManager) : Prop where
  maxSlotsPerPod : k'.maxSlotsPerPod = k.maxSlotsPerPod
  groups : k'.groups = k.groups
  byTime : k'.reqList.taskByTime = k.reqList.taskByTime
  byHandler : k'.reqList.taskByHandler = k.reqList.taskByHandler
  assigned : ∀ h, k'.reqList.unassigned h → k.reqList.unassigned h
  monotone : ∀ g, slotsAllocated k.reqList g ≤ slotsAllocated k'.reqList g
  limited : k.Limited k'

theorem Scheduled.refl (k : KubernetesResourceManager) : Scheduled k k :=
  ⟨rfl, rfl, rfl, rfl, fun _ h => h, fun _ => le_rfl, fun _ _ _ _ _ => le_max_right ..⟩

theorem Scheduled.trans {k' k'' : KubernetesResourceManager} (h : Scheduled k k')
    (h' : Scheduled k' k'') : Scheduled k k'' where
  maxSlotsPerPod := h'.maxSlotsPerPod.trans h.maxSlotsPerPod
  groups := h'.groups.trans h.groups
  byTime := h'.byTime.trans h.byTime
  byHandler := h'.byHandler.trans h.byHandler
  assigned x hx := h.assigned x (h'.assigned x hx)
  monotone g := (h.monotone g).trans (h'.monotone g)
  limited g group m hgroup hm := by
    have h1 := h.limited g group m hgroup hm
    have h2 := h'.limited g group m (h.groups ▸ hgroup) hm
    exact h2.trans (max_le (le_max_left ..) h1)

/-- What was refused stays refused during a tick. -/
theorem Refused.scheduled {t : AllocateRequest} (h : k.Refused t) {k' : KubernetesResourceManager}
    (hs : Scheduled k k') : k'.Refused t := by
  rcases h with h | ⟨group, m, hgroup, hm, hlt⟩
  · exact .inl (by rw [hs.maxSlotsPerPod, h])
  · exact .inr ⟨group, m, by rw [hs.groups, hgroup], hm, by
      have := hs.monotone t.group
      omega⟩

theorem podSlots_ne_nil {maxSlotsPerPod slotsNeeded : ℕ} {allocations : List ℕ}
    (h : podSlots maxSlotsPerPod slotsNeeded = some allocations) : allocations ≠ [] := by
  rw [podSlots] at h
  split at h
  · split at h
    · cases h
    · rename_i hmax
      split at h
      · cases h
        simp
      · rename_i hlt
        split at h
        · cases h
        · cases h
          have : 0 < slotsNeeded / maxSlotsPerPod := Nat.div_pos (by omega) (by omega)
          simp [List.replicate_eq_nil_iff]
          omega
  · cases h
    simp

theorem scheduleTask_spec (hk : Kept registeredTime k) {t : AllocateRequest}
    (ht : t ∈ k.reqList.taskByHandler) : ∃ k', k.scheduleTask t = .ok k' ∧
      Kept registeredTime k' ∧ Scheduled k k' ∧
        (k'.reqList.unassigned t.taskActor → k'.Refused t) := by
  rw [scheduleTask]
  split
  · rename_i hwaiting
    obtain ⟨group, hgroup⟩ := Option.isSome_iff_exists.mp (hk.covered t ht)
    simp only [hgroup]
    refine ⟨_, rfl, ?_⟩
    split
    · rename_i hexceeds
      refine ⟨hk, .refl k, fun _ => .inr ?_⟩
      rw [exceeds] at hexceeds
      split at hexceeds
      · rename_i m hm
        exact ⟨group, m, hgroup, hm, by rw [← hk.accounted]; simpa using hexceeds⟩
      · cases hexceeds
    · rename_i hroom
      rw [assignResources]
      cases hpods : podSlots k.maxSlotsPerPod t.slotsNeeded with
      | none => exact ⟨hk, .refl k, fun _ => .inl hpods⟩
      | some allocations =>
        obtain ⟨a, assigned, rfl⟩ := List.exists_cons_of_ne_nil (podSlots_ne_nil hpods)
        have hsum := fun g => slotsAllocated_setAllocations (g := g) hk.consistent ht hwaiting a
          assigned
        refine ⟨⟨hk.consistent.setAllocations _ (List.mem_map_of_mem ht), hk.covered, fun g => ?_⟩,
          ⟨rfl, rfl, rfl, rfl, fun h hh => ?_, fun g => ?_, fun g group' m hgroup' hm => ?_⟩,
          fun h => ?_⟩
        · rw [hsum, ← hk.accounted]
          by_cases heq : t.group = g
          · subst heq
            simp
          · simp [heq, Function.update_of_ne (Ne.symm heq)]
        · by_cases heq : h = t.taskActor
          · exact heq ▸ hwaiting
          · rwa [TaskList.unassigned_setAllocations_of_ne heq] at hh
        · rw [hsum]
          split <;> omega
        · rw [hsum]
          split
          · -- The group's limit was checked against the count, which is the sum.
            rename_i heq
            subst heq
            rw [hgroup] at hgroup'
            cases hgroup'
            rw [exceeds, hm] at hroom
            simp only [decide_eq_true_eq, hk.accounted] at hroom
            exact le_max_of_le_left (by omega)
          · simp
        · simp at h
  · rename_i hassigned
    exact ⟨k, rfl, hk, .refl k, fun h => absurd h hassigned⟩

theorem foldlM_scheduleTask (tasks : List AllocateRequest) :
    ∀ {k : KubernetesResourceManager}, Kept registeredTime k →
      (∀ t ∈ tasks, t ∈ k.reqList.taskByHandler) → ∃ k', tasks.foldlM scheduleTask k = .ok k' ∧
        Kept registeredTime k' ∧ Scheduled k k' ∧
          ∀ t ∈ tasks, k'.reqList.unassigned t.taskActor → k'.Refused t := by
  induction tasks with
  | nil => exact fun {k} hk _ => ⟨k, rfl, hk, .refl k, by simp⟩
  | cons t tasks ih =>
    intro k hk hmem
    obtain ⟨k1, heq1, hk1, hs1, ht1⟩ := scheduleTask_spec hk (hmem t (List.mem_cons_self ..))
    have hmem1 : ∀ u ∈ tasks, u ∈ k1.reqList.taskByHandler := fun u hu =>
      hs1.byHandler ▸ hmem u (List.mem_cons_of_mem _ hu)
    obtain ⟨k2, heq2, hk2, hs2, ht2⟩ := ih hk1 hmem1
    refine ⟨k2, ?_, hk2, hs1.trans hs2, fun u hu hwaiting => ?_⟩
    · rw [List.foldlM_cons, heq1]
      exact heq2
    · rcases List.mem_cons.mp hu with rfl | hu
      · exact (ht1 (hs2.assigned _ hwaiting)).scheduled hs2
      · exact ht2 u hu hwaiting

/-! ### Runs -/

/-- What holds of a manager between messages: a manager that does not ask for scheduling is
    settled. -/
def Good (registeredTime : ℕ → ℤ) (k : KubernetesResourceManager) : Prop :=
  Kept registeredTime k ∧ (k.reschedule = false → k.Settled)

theorem good_new (maxSlotsPerPod : ℕ) : Good registeredTime (new maxSlotsPerPod) :=
  ⟨kept_new maxSlotsPerPod, fun _ => by simp [Settled, new, TaskList.empty]⟩

theorem Kept.accounts (hk : Kept registeredTime k) : k.Accounted := fun g _ => hk.accounted g

/-- A request is handled without an error, and leaves a manager that asks for scheduling. -/
theorem step_request {msg : RequestMessage} {k' : KubernetesResourceManager}
    (h : Step registeredTime k (.request msg) k') : RequestMessage.Sent msg ∧
      k' = { k.receiveRequestMsg registeredTime msg with reschedule := true } := by
  simp only [Step, step] at h
  split at h
  · exact ⟨by assumption, (Option.some.inj h).symm⟩
  · cases h

/-- A request keeps the account if it gives nothing allocated back. -/
theorem Kept.receiveRequestMsg (hk : Kept registeredTime k) {msg : RequestMessage}
    (hsent : RequestMessage.Sent msg)
    (hfree : ∀ t ∈ k.reqList.taskByHandler, msg = .resourcesReleased t.taskActor →
      k.reqList.unassigned t.taskActor ∨ t.slotsNeeded = 0) :
    Kept registeredTime (k.receiveRequestMsg registeredTime msg) := by
  cases msg with
  | groupActorStopped ref =>
    cases ref with
    | none => exact hk
    | some ref => cases hsent
  | setGroupMaxSlots handler maxSlots => exact hk.setMaxSlots handler maxSlots
  | setGroupWeight | setGroupPriority | setTaskName => exact hk
  | allocateRequest msg group newID => exact hk.addTask msg group newID
  | resourcesReleased taskActor =>
    exact hk.resourcesReleased fun t ht heq => hfree t ht (heq ▸ rfl)

/-- A tick keeps the account, keeps to the limits, and settles the tasks. -/
theorem Good.tick (hk : Good registeredTime k) {k' : KubernetesResourceManager}
    (h : Step registeredTime k .schedulerTick k') :
    Good registeredTime k' ∧ k.Limited k' ∧ k'.Settled := by
  simp only [Step, step, Message.Sent, if_true, receive] at h
  split at h
  · obtain ⟨k1, heq, hk1, hs, hrefused⟩ := foldlM_scheduleTask k.reqList.taskByTime hk.1
      hk.1.consistent.subset
    rw [schedulePendingTasks, heq] at h
    obtain rfl := Option.some.inj h
    have hsettled : k1.Settled := fun t ht => hrefused t (hs.byTime ▸ ht)
    exact ⟨⟨{ hk1 with }, fun _ => hsettled⟩, hs.limited, hsettled⟩
  · rename_i hidle
    obtain rfl := Option.some.inj h
    exact ⟨hk, (Scheduled.refl k).limited, hk.2 (by simpa using hidle)⟩

theorem Good.step (hk : Good registeredTime k) {message : Message} {k' : KubernetesResourceManager}
    (h : Step registeredTime k message k') (hfree : ReleasesNoSlots ⟨k, message, k'⟩) :
    Good registeredTime k' := by
  cases message with
  | schedulerTick => exact (hk.tick h).1
  | request msg =>
    obtain ⟨hsent, rfl⟩ := step_request h
    have hkept := hk.1.receiveRequestMsg hsent fun t ht heq => hfree t ht (heq ▸ rfl)
    exact ⟨{ hkept with }, fun hidle => by cases hidle⟩

theorem Good.slotsAccounted_iff (hk : Good registeredTime k) {message : Message}
    {k' : KubernetesResourceManager} (h : Step registeredTime k message k') :
    SlotsAccounted ⟨k, message, k'⟩ ↔ ReleasesNoSlots ⟨k, message, k'⟩ := by
  constructor
  · rintro haccounted t ht heq
    obtain rfl : message = .request (.resourcesReleased t.taskActor) := heq
    by_contra hgives
    obtain ⟨hassigned, hslots⟩ := not_or.mp hgives
    obtain ⟨-, rfl⟩ := step_request h
    exact not_accounted_of_release hk.1 ht (by simpa using hassigned) hslots haccounted.accounted
  · intro hfree
    refine ⟨(hk.step h hfree).1.accounts, ?_, ?_⟩
    · rintro rfl
      exact (hk.tick h).2.1
    · rintro rfl
      exact (hk.tick h).2.2

/-- CORRECT: along a run the slots are accounted for, and the ticks use and keep to the limits of
    the groups, iff no task that holds slots is ever released. -/
theorem slots_accounted_iff (registeredTime : ℕ → ℤ) (maxSlotsPerPod : ℕ)
    {tr : List (Edge KubernetesResourceManager Message)} {k : KubernetesResourceManager}
    (h : Run (Step registeredTime) (new maxSlotsPerPod) tr k) :
    (∀ x ∈ tr, SlotsAccounted x) ↔ ∀ x ∈ tr, ReleasesNoSlots x :=
  h.forall_iff (fun _ _ _ hk hs => hk.slotsAccounted_iff hs)
    (fun _ _ _ hk hs hfree => hk.step hs hfree) (good_new maxSlotsPerPod)

/-- Run the manager on messages, and summarise where it ends. -/
theorem exists_executed {α : Type} (maxSlotsPerPod : ℕ) (messages : List Message)
    (summary : KubernetesResourceManager → α) (v : α)
    (h : (exec (step fun actor => (actor : ℤ)) (new maxSlotsPerPod) messages).map
      (fun r => summary r.2) = some v) :
    ∃ tr k, Run (Step fun actor => (actor : ℤ)) (new maxSlotsPerPod) tr k ∧
      tr.map (·.event) = messages ∧ summary k = v :=
  Run.exists_of_exec (fun _ _ _ h => h) (fun r => summary r.2) h

/-- A task of one slot, in a group of its own choice. -/
def oneSlot (taskActor : ℕ) : AllocateRequest :=
  ⟨⟨taskActor, 1, "", 0, false⟩, "task", false⟩

/-- A group limited to one slot runs a task; after its release the next task waits forever: the
    count stays at one while nothing is allocated. -/
theorem released_slots_stay_used : ∃ tr k,
    Run (Step fun actor => (actor : ℤ)) (new 1) tr k ∧
      tr.map (·.event) = [.request (.setGroupMaxSlots 9 (some 1)),
        .request (.allocateRequest (oneSlot 1) (some 9) ""), .schedulerTick,
        .request (.resourcesReleased 1),
        .request (.allocateRequest (oneSlot 2) (some 9) ""), .schedulerTick] ∧
      ¬ k.Accounted ∧ k.reqList.unassigned 2 := by
  obtain ⟨tr, k, hrun, hevents, hsummary⟩ := exists_executed 1
    [.request (.setGroupMaxSlots 9 (some 1)),
      .request (.allocateRequest (oneSlot 1) (some 9) ""), .schedulerTick,
      .request (.resourcesReleased 1),
      .request (.allocateRequest (oneSlot 2) (some 9) ""), .schedulerTick]
    (fun k => (k.slotsUsedPerGroup 9, slotsAllocated k.reqList 9, (k.groups 9).isSome,
      k.reqList.unassigned 2)) (1, 0, true, true) (by decide +kernel)
  simp only [Prod.mk.injEq] at hsummary
  obtain ⟨hused, hallocated, hgroup, hwaiting⟩ := hsummary
  refine ⟨tr, k, hrun, hevents, fun haccounted => ?_, hwaiting⟩
  have := haccounted 9 hgroup
  omega

/-- A waiting task may be released, an allocated one not. -/
theorem slots_accounted_iff_waiting_released : ∃ tr k,
    Run (Step fun actor => (actor : ℤ)) (new 1) tr k ∧
      tr.map (·.event) = [.request (.allocateRequest (oneSlot 1) none ""),
        .request (.resourcesReleased 1), .schedulerTick] ∧
      ((∀ x ∈ tr, SlotsAccounted x) ↔ ∀ x ∈ tr, ReleasesNoSlots x) := by
  obtain ⟨tr, k, hrun, hevents, -⟩ := exists_executed 1
    [.request (.allocateRequest (oneSlot 1) none ""), .request (.resourcesReleased 1),
      .schedulerTick] (fun k => k.reqList.taskByHandler) [] (by decide +kernel)
  exact ⟨tr, k, hrun, hevents, slots_accounted_iff _ 1 hrun⟩

end Determined.Pool.KubernetesResourceManager
