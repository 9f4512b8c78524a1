import Determined.Scheduler.FairShare

/-! Allocation requests, groups and the list of tasks (`internal/resourcemanagers/task.go`,
    `group.go`, `task_list.go`).

    An actor is known by a number. A task is known by its handler, the actor that asked for
    resources. `taskByTime` is the tree set of the tasks, read in order: it keeps one task for each
    registration time and task id. The index by task id serves the summaries only and is left out,
    as are the names of tasks. -/

namespace Determined.Pool

structure AllocateRequest extends Scheduler.AllocateRequest where
  id : String
  singleAgent : Bool
  deriving DecidableEq, Repr

/-- The common state of a set of tasks that share the same scheduling restrictions. -/
structure Group where
  maxSlots : Option ℤ
  weight : ℚ
  priority : Option ℤ
  deriving DecidableEq, Repr

/-- The messages a resource manager receives from tasks and groups, and from those who watch for
    them to stop. The `Group` field of an allocation request may be nil; the id that an empty one is
    replaced with is drawn by the receiver. -/
inductive RequestMessage where
  | groupActorStopped (ref : Option ℕ)
  | setGroupMaxSlots (handler : ℕ) (maxSlots : Option ℤ)
  | setGroupWeight (handler : ℕ) (weight : ℚ)
  | setGroupPriority (handler : ℕ) (priority : Option ℤ)
  | setTaskName (taskHandler : ℕ)
  | allocateRequest (msg : AllocateRequest) (group : Option ℕ) (newID : String)
  | resourcesReleased (taskActor : ℕ)
  deriving DecidableEq, Repr

/-- The notification that a group's actor stopped is sent with its `Ref` left empty. -/
def RequestMessage.Sent : RequestMessage → Bool
  | .groupActorStopped ref => ref.isNone
  | _ => true

/-- The request as it is added to the task list. -/
def AllocateRequest.withDefaults (msg : AllocateRequest) (group : Option ℕ) (newID : String) :
    AllocateRequest :=
  { msg with
    id := if msg.id.isEmpty then newID else msg.id
    group := group.getD msg.taskActor }

/-- Tasks are ordered by the registration of their actors, those registered together by id. -/
def taskComparator (registeredTime : ℕ → ℤ) (t1 t2 : AllocateRequest) : Ordering :=
  if registeredTime t1.taskActor = registeredTime t2.taskActor then compare t1.id t2.id
  else if registeredTime t1.taskActor < registeredTime t2.taskActor then .lt else .gt

/-- All tasks, and the allocations of those that have any; `α` is what one allocation is. -/
structure TaskList (α : Type) where
  taskByTime : List AllocateRequest
  taskByHandler : List AllocateRequest
  allocations : ℕ → Option (List α)

namespace TaskList

variable {α : Type} (registeredTime : ℕ → ℤ) (l : TaskList α)

def empty : TaskList α := ⟨[], [], fun _ => none⟩

def getTaskByHandler (handler : ℕ) : Option AllocateRequest :=
  l.taskByHandler.find? (·.taskActor == handler)

/-- Add to the tree set; a task that compares equal is replaced. -/
def addByTime (req : AllocateRequest) : List AllocateRequest → List AllocateRequest
  | [] => [req]
  | t :: ts =>
    match taskComparator registeredTime t req with
    | .lt => t :: addByTime req ts
    | .eq => req :: ts
    | .gt => req :: t :: ts

def addTask (req : AllocateRequest) : TaskList α :=
  match l.getTaskByHandler req.taskActor with
  | some _ => l
  | none =>
    { l with
      taskByTime := addByTime registeredTime req l.taskByTime
      taskByHandler := l.taskByHandler ++ [req] }

def removeTaskByHandler (handler : ℕ) : TaskList α :=
  match l.getTaskByHandler handler with
  | none => l
  | some req =>
    { l with
      taskByTime := l.taskByTime.filter (taskComparator registeredTime · req != .eq)
      taskByHandler := l.taskByHandler.filter (·.taskActor != handler)
      allocations := Function.update l.allocations handler none }

def setAllocations (handler : ℕ) (assigned : List α) : TaskList α :=
  { l with allocations := Function.update l.allocations handler (some assigned) }

/-- The task has no allocation yet. -/
def unassigned (handler : ℕ) : Bool :=
  match l.allocations handler with
  | none | some [] => true
  | some (_ :: _) => false

end TaskList

/-! ### The order of the tasks -/

variable {registeredTime : ℕ → ℤ}

/-- What tasks are compared by. -/
def timeKey (registeredTime : ℕ → ℤ) (t : AllocateRequest) : ℤ ×ₗ String :=
  toLex (registeredTime t.taskActor, t.id)

theorem taskComparator_eq (t1 t2 : AllocateRequest) : taskComparator registeredTime t1 t2 =
    compare (timeKey registeredTime t1) (timeKey registeredTime t2) := by
  rw [taskComparator]
  split
  · rename_i htime
    rcases lt_trichotomy t1.id t2.id with h | h | h
    · rw [compare_lt_iff_lt.mpr h, eq_comm, compare_lt_iff_lt, Prod.Lex.lt_iff]
      exact .inr ⟨htime, h⟩
    · rw [compare_eq_iff_eq.mpr h, eq_comm, compare_eq_iff_eq, timeKey, timeKey, htime, h]
    · rw [compare_gt_iff_gt.mpr h, eq_comm, compare_gt_iff_gt, Prod.Lex.lt_iff]
      exact .inr ⟨htime.symm, h⟩
  · rename_i htime
    split
    · rename_i hlt
      rw [eq_comm, compare_lt_iff_lt, Prod.Lex.lt_iff]
      exact .inl hlt
    · rename_i hlt
      rw [eq_comm, compare_gt_iff_gt, Prod.Lex.lt_iff]
      exact .inl (lt_of_le_of_ne (not_lt.mp hlt) (Ne.symm htime))

/-- The two indexes hold the same tasks, but for those that another replaced in the tree set. -/
structure TaskList.Consistent {α : Type} (registeredTime : ℕ → ℤ) (l : TaskList α) : Prop where
  nodup : (l.taskByHandler.map (·.taskActor)).Nodup
  subset : ∀ t ∈ l.taskByTime, t ∈ l.taskByHandler
  sorted : l.taskByTime.Pairwise (timeKey registeredTime · < timeKey registeredTime ·)
  allocated : ∀ h, l.allocations h ≠ none → h ∈ l.taskByHandler.map (·.taskActor)

namespace TaskList

variable {α : Type} {l : TaskList α}

theorem mem_of_mem_addByTime {req t : AllocateRequest} {ts : List AllocateRequest}
    (h : t ∈ addByTime registeredTime req ts) : t = req ∨ t ∈ ts := by
  induction ts with
  | nil => exact .inl (List.mem_singleton.mp h)
  | cons t' ts ih =>
    rw [addByTime] at h
    split at h
    · rcases List.mem_cons.mp h with rfl | h
      · exact .inr (List.mem_cons_self ..)
      · exact (ih h).imp_right (List.mem_cons_of_mem _)
    · exact (List.mem_cons.mp h).imp_right (List.mem_cons_of_mem _)
    · exact List.mem_cons.mp h

theorem addByTime_sorted {req : AllocateRequest} {ts : List AllocateRequest}
    (h : ts.Pairwise (timeKey registeredTime · < timeKey registeredTime ·)) :
    (addByTime registeredTime req ts).Pairwise
      (timeKey registeredTime · < timeKey registeredTime ·) := by
  induction ts with
  | nil => exact List.pairwise_singleton _ _
  | cons t ts ih =>
    obtain ⟨hhead, htail⟩ := List.pairwise_cons.mp h
    rw [addByTime, taskComparator_eq]
    split
    · rename_i hlt
      refine List.pairwise_cons.mpr ⟨fun u hu => ?_, ih htail⟩
      rcases mem_of_mem_addByTime hu with rfl | hu
      · exact compare_lt_iff_lt.mp hlt
      · exact hhead u hu
    · rename_i heq
      exact List.pairwise_cons.mpr ⟨fun u hu => compare_eq_iff_eq.mp heq ▸ hhead u hu, htail⟩
    · rename_i hgt
      have hgt := compare_gt_iff_gt.mp hgt
      refine List.pairwise_cons.mpr ⟨fun u hu => ?_, h⟩
      rcases List.mem_cons.mp hu with rfl | hu
      · exact hgt
      · exact lt_trans hgt (hhead u hu)

theorem getTaskByHandler_eq_none {handler : ℕ} :
    l.getTaskByHandler handler = none ↔ handler ∉ l.taskByHandler.map (·.taskActor) := by
  simp [getTaskByHandler]

theorem mem_of_getTaskByHandler {handler : ℕ} {req : AllocateRequest}
    (h : l.getTaskByHandler handler = some req) :
    req ∈ l.taskByHandler ∧ req.taskActor = handler :=
  ⟨List.mem_of_find?_eq_some h, by simpa using List.find?_some h⟩

theorem unassigned_of_none {handler : ℕ} (h : l.allocations handler = none) :
    l.unassigned handler = true := by
  rw [unassigned, h]

namespace Consistent

theorem empty : Consistent registeredTime (empty : TaskList α) := by
  constructor <;> simp [TaskList.empty]

/-- A task is known by its handler. -/
theorem eq_of_taskActor (hl : Consistent registeredTime l) {t u : AllocateRequest}
    (ht : t ∈ l.taskByHandler) (hu : u ∈ l.taskByHandler) (h : t.taskActor = u.taskActor) :
    t = u :=
  List.inj_on_of_nodup_map hl.nodup ht hu h

theorem getTaskByHandler_eq (hl : Consistent registeredTime l) {t : AllocateRequest}
    (ht : t ∈ l.taskByHandler) : l.getTaskByHandler t.taskActor = some t := by
  cases h : l.getTaskByHandler t.taskActor with
  | none => exact absurd (List.mem_map_of_mem ht) (getTaskByHandler_eq_none.mp h)
  | some u =>
    obtain ⟨hu, heq⟩ := mem_of_getTaskByHandler h
    rw [hl.eq_of_taskActor hu ht heq]

/-- A task among the others, each of another actor. -/
theorem split (hl : Consistent registeredTime l) {req : AllocateRequest}
    (hreq : req ∈ l.taskByHandler) :
    ∃ before after, l.taskByHandler = before ++ req :: after ∧
      ∀ t ∈ before ++ after, t.taskActor ≠ req.taskActor := by
  obtain ⟨before, after, heq⟩ := List.append_of_mem hreq
  refine ⟨before, after, heq, fun t ht => ?_⟩
  have hnodup := hl.nodup
  rw [heq, List.map_append, List.map_cons, List.nodup_middle, List.nodup_cons, ← List.map_append]
    at hnodup
  exact fun h => hnodup.1 (h ▸ List.mem_map_of_mem ht)

/-- A task that was not added has no allocations. -/
theorem unassigned_of_new (hl : Consistent registeredTime l) {handler : ℕ}
    (h : l.getTaskByHandler handler = none) : l.unassigned handler = true := by
  refine unassigned_of_none ?_
  by_contra hne
  exact getTaskByHandler_eq_none.mp h (hl.allocated handler hne)

theorem addTask (hl : Consistent registeredTime l) (req : AllocateRequest) :
    Consistent registeredTime (l.addTask registeredTime req) := by
  rw [TaskList.addTask]
  split
  · exact hl
  · rename_i hnone
    have hnew := getTaskByHandler_eq_none.mp hnone
    refine ⟨?_, fun t ht => ?_, addByTime_sorted hl.sorted, fun h hh => ?_⟩
    · rw [List.map_append]
      exact List.nodup_append.mpr ⟨hl.nodup, by simp, by simpa using hnew⟩
    · rcases mem_of_mem_addByTime ht with rfl | ht
      · exact List.mem_append_right _ (List.mem_singleton_self _)
      · exact List.mem_append_left _ (hl.subset t ht)
    · rw [List.map_append]
      exact List.mem_append_left _ (hl.allocated h hh)

theorem removeTaskByHandler (hl : Consistent registeredTime l) (handler : ℕ) :
    Consistent registeredTime (l.removeTaskByHandler registeredTime handler) := by
  rw [TaskList.removeTaskByHandler]
  split
  · exact hl
  · rename_i req hreq
    obtain ⟨hmem, hactor⟩ := mem_of_getTaskByHandler hreq
    refine ⟨?_, fun t ht => ?_, hl.sorted.sublist List.filter_sublist, fun h hh => ?_⟩
    · exact hl.nodup.sublist (List.filter_sublist.map _)
    · obtain ⟨htime, hne⟩ := List.mem_filter.mp ht
      refine List.mem_filter.mpr ⟨hl.subset t htime, ?_⟩
      rw [bne_iff_ne]
      intro heq
      obtain rfl := hl.eq_of_taskActor (hl.subset t htime) hmem (heq.trans hactor.symm)
      simp [taskComparator_eq] at hne
    · have hne : h ≠ handler := by
        rintro rfl
        exact hh (Function.update_self ..)
      obtain ⟨t, ht, rfl⟩ := List.mem_map.mp (hl.allocated h (by simpa [hne] using hh))
      exact List.mem_map.mpr ⟨t, List.mem_filter.mpr ⟨ht, by simpa using hne⟩, rfl⟩

theorem setAllocations (hl : Consistent registeredTime l) {handler : ℕ} (assigned : List α)
    (hh : handler ∈ l.taskByHandler.map (·.taskActor)) :
    Consistent registeredTime (l.setAllocations handler assigned) := by
  refine ⟨hl.nodup, hl.subset, hl.sorted, fun h hne => ?_⟩
  by_cases heq : h = handler
  · exact heq ▸ hh
  · exact hl.allocated h (by simpa [TaskList.setAllocations, heq] using hne)

end Consistent

theorem unassigned_congr {l' : TaskList α} {handler : ℕ}
    (h : l'.allocations handler = l.allocations handler) :
    l'.unassigned handler = l.unassigned handler := by
  rw [unassigned, unassigned, h]

@[simp] theorem unassigned_setAllocations_self (handler : ℕ) {a : α} {assigned : List α} :
    (l.setAllocations handler (a :: assigned)).unassigned handler = false := by
  simp [unassigned, setAllocations]

theorem unassigned_setAllocations_of_ne {handler h : ℕ} (hne : h ≠ handler) (assigned : List α) :
    (l.setAllocations handler assigned).unassigned h = l.unassigned h :=
  unassigned_congr (Function.update_of_ne hne ..)

end TaskList

end Determined.Pool
