import Determined.Pool.Task
import Determined.Schemes.Run
import Determined.Schemes.TreeSet

/-! The task list with all its indexes (`internal/resourcemanagers/task_list.go`): whatever tasks are
    added, removed and assigned, the time-ordered set, the map by handler and the map by id hold the
    same tasks.

    The tree set is the one of the `gods` package, of which the list uses that it keeps to the order
    of its comparator. A map that is only read and written is a function; that of the handlers is
    measured too. The registration times of actors do not change. -/

namespace Determined.Pool
open Determined.Schemes

variable {S α : Type}

/-- Maintains all tasks in time order. -/
structure IndexedTaskList (S α : Type) where
  taskByTime : S
  taskByHandler : AList fun _ : ℕ => AllocateRequest
  taskByID : String → Option AllocateRequest
  allocations : ℕ → Option (List α)

namespace IndexedTaskList

variable (ts : TreeSet AllocateRequest S) (l : IndexedTaskList S α)

def newTaskList : IndexedTaskList S α := ⟨ts.empty, ∅, fun _ => none, fun _ => none⟩

/-- The tasks in the order in which the iterator comes to them. -/
def iterator : List AllocateRequest := ts.values l.taskByTime

def len : ℕ := l.taskByHandler.keys.length

def getTaskByHandler (handler : ℕ) : Option AllocateRequest := l.taskByHandler.lookup handler

def getTaskByID (id : String) : Option AllocateRequest := l.taskByID id

def addTask (req : AllocateRequest) : Bool × IndexedTaskList S α :=
  match l.getTaskByHandler req.taskActor with
  | some _ => (false, l)
  | none =>
    (true, { l with
      taskByTime := ts.add l.taskByTime req
      taskByHandler := l.taskByHandler.insert req.taskActor req
      taskByID := Function.update l.taskByID req.id (some req) })

def removeTaskByHandler (handler : ℕ) : Option AllocateRequest × IndexedTaskList S α :=
  match l.getTaskByHandler handler with
  | none => (none, l)
  | some req =>
    (some req, {
      taskByTime := ts.remove l.taskByTime req
      taskByHandler := l.taskByHandler.erase handler
      taskByID := Function.update l.taskByID req.id none
      allocations := Function.update l.allocations handler none })

def getAllocations (handler : ℕ) : Option (List α) := l.allocations handler

def setAllocations (handler : ℕ) (assigned : List α) : IndexedTaskList S α :=
  { l with allocations := Function.update l.allocations handler (some assigned) }

def removeAllocations (handler : ℕ) : IndexedTaskList S α :=
  { l with allocations := Function.update l.allocations handler none }

/-! ### Runs -/

/-- What is done with a task list. -/
inductive Operation (α : Type) where
  | addTask (req : AllocateRequest)
  | removeTaskByHandler (handler : ℕ)
  | setAllocations (handler : ℕ) (assigned : List α)
  | removeAllocations (handler : ℕ)
  | getTaskByHandler (handler : ℕ)
  | getTaskByID (id : String)
  | getAllocations (handler : ℕ)

/-- The list after the operation; lookups leave it as it is. -/
def perform : Operation α → IndexedTaskList S α
  | .addTask req => (l.addTask ts req).2
  | .removeTaskByHandler handler => (l.removeTaskByHandler ts handler).2
  | .setAllocations handler assigned => l.setAllocations handler assigned
  | .removeAllocations handler => l.removeAllocations handler
  | .getTaskByHandler _ | .getTaskByID _ | .getAllocations _ => l

/-- Different handlers use different task ids while listed, and only what is listed is assigned
    resources. -/
def Allowed : Operation α → Prop
  | .addTask req => ∀ h t, l.getTaskByHandler h = some t → t.id = req.id → h = req.taskActor
  | .setAllocations handler _ => (l.getTaskByHandler handler).isSome
  | _ => True

def Step (l : IndexedTaskList S α) (op : Operation α) (l' : IndexedTaskList S α) : Prop :=
  l.Allowed op ∧ l' = l.perform ts op

/-- The indexes describe the same tasks: those that are iterated over, each once, by registration time
    and then by id. Only they have allocations. -/
structure Represents (registeredTime : ℕ → ℤ) : Prop where
  handler : ∀ t, t ∈ l.iterator ts ↔ l.getTaskByHandler t.taskActor = some t
  taskActor : ∀ h t, l.getTaskByHandler h = some t → t.taskActor = h
  byID : ∀ t, t ∈ l.iterator ts ↔ l.getTaskByID t.id = some t
  id : ∀ i t, l.getTaskByID i = some t → t.id = i
  nodup : (l.iterator ts).Nodup
  len : l.len = (l.iterator ts).length
  sorted : (l.iterator ts).Pairwise fun t u => registeredTime t.taskActor < registeredTime u.taskActor ∨
    registeredTime t.taskActor = registeredTime u.taskActor ∧ t.id < u.id
  allocated : ∀ h, l.getAllocations h ≠ none → (l.getTaskByHandler h).isSome

/-- Adding a task whose handler is listed, or removing one that is not, reports so and changes
    nothing. -/
def Idle (e : Edge (IndexedTaskList S α) (Operation α)) : Prop :=
  (∀ req, e.event = .addTask req → (e.pre.getTaskByHandler req.taskActor).isSome →
    e.pre.addTask ts req = (false, e.pre) ∧ e.post = e.pre) ∧
  ∀ h, e.event = .removeTaskByHandler h → e.pre.getTaskByHandler h = none →
    e.pre.removeTaskByHandler ts h = (none, e.pre) ∧ e.post = e.pre

/-! ### The invariant -/

theorem lookup_insert_eq_ite (m : AList fun _ : ℕ => AllocateRequest) (h a : ℕ) (req : AllocateRequest) :
    (m.insert h req).lookup a = if a = h then some req else m.lookup a := by
  split
  · rename_i heq
    rw [heq, AList.lookup_insert]
  · rename_i hne
    exact AList.lookup_insert_ne hne

theorem lookup_erase_eq_ite (m : AList fun _ : ℕ => AllocateRequest) (h a : ℕ) :
    (m.erase h).lookup a = if a = h then none else m.lookup a := by
  split
  · rename_i heq
    rw [heq, AList.lookup_erase]
  · rename_i hne
    exact AList.lookup_erase_ne hne

/-- The indexes agree on the tasks; the rest follows from the order of the set. -/
structure Agrees : Prop where
  handler : ∀ t, t ∈ l.iterator ts ↔ l.getTaskByHandler t.taskActor = some t
  taskActor : ∀ h t, l.getTaskByHandler h = some t → t.taskActor = h
  byID : ∀ t, t ∈ l.iterator ts ↔ l.getTaskByID t.id = some t
  id : ∀ i t, l.getTaskByID i = some t → t.id = i
  allocated : ∀ h, l.getAllocations h ≠ none → (l.getTaskByHandler h).isSome

variable {ts l} {registeredTime : ℕ → ℤ} (hts : ts.OrderedBy (taskComparator registeredTime))

theorem addTask_of_some {req t : AllocateRequest} (h : l.getTaskByHandler req.taskActor = some t) :
    l.addTask ts req = (false, l) := by
  rw [addTask, h]

theorem addTask_of_none {req : AllocateRequest} (h : l.getTaskByHandler req.taskActor = none) :
    l.addTask ts req = (true, { l with
      taskByTime := ts.add l.taskByTime req
      taskByHandler := l.taskByHandler.insert req.taskActor req
      taskByID := Function.update l.taskByID req.id (some req) }) := by
  rw [addTask, h]

theorem removeTaskByHandler_of_some {handler : ℕ} {req : AllocateRequest}
    (h : l.getTaskByHandler handler = some req) :
    l.removeTaskByHandler ts handler = (some req, {
      taskByTime := ts.remove l.taskByTime req
      taskByHandler := l.taskByHandler.erase handler
      taskByID := Function.update l.taskByID req.id none
      allocations := Function.update l.allocations handler none }) := by
  rw [removeTaskByHandler, h]

theorem removeTaskByHandler_of_none {handler : ℕ} (h : l.getTaskByHandler handler = none) :
    l.removeTaskByHandler ts handler = (none, l) := by
  rw [removeTaskByHandler, h]

/-- Tasks that compare equal have one id. -/
theorem id_eq_of_taskComparator {t u : AllocateRequest} (h : taskComparator registeredTime t u = .eq) :
    t.id = u.id := by
  rw [taskComparator_eq, compare_eq_iff_eq] at h
  exact congrArg (fun key => (ofLex key).2) h

theorem len_eq_length (h : l.Agrees ts) (hnodup : (l.iterator ts).Nodup) :
    l.len = (l.iterator ts).length := by
  have hactors : ((l.iterator ts).map (·.taskActor)).Nodup := by
    refine (List.nodup_map_iff_inj_on hnodup).mpr fun t ht u hu heq => ?_
    have ht := (h.handler t).mp ht
    rw [heq, (h.handler u).mp hu] at ht
    exact (Option.some.inj ht).symm
  have hperm : l.taskByHandler.keys.Perm ((l.iterator ts).map (·.taskActor)) := by
    refine (List.perm_ext_iff_of_nodup l.taskByHandler.keys_nodup hactors).mpr fun a => ?_
    rw [← AList.mem_keys, ← AList.lookup_isSome, Option.isSome_iff_exists, List.mem_map]
    constructor
    · rintro ⟨t, ht⟩
      have hactor := h.taskActor a t ht
      exact ⟨t, (h.handler t).mpr (hactor.symm ▸ ht), hactor⟩
    · rintro ⟨t, ht, rfl⟩
      exact ⟨t, (h.handler t).mp ht⟩
  rw [len, hperm.length_eq, List.length_map]

include hts

theorem Agrees.represents (h : l.Agrees ts) : l.Represents ts registeredTime where
  handler := h.handler
  taskActor := h.taskActor
  byID := h.byID
  id := h.id
  nodup := hts.nodup (fun t => by rw [taskComparator_eq, compare_eq_iff_eq]) _
  len := len_eq_length h (hts.nodup (fun t => by rw [taskComparator_eq, compare_eq_iff_eq]) _)
  sorted := (hts.sorted _).imp fun {t u} hlt => by
    rw [taskComparator_eq, compare_lt_iff_lt, Prod.Lex.lt_iff] at hlt
    exact hlt
  allocated := h.allocated

theorem agrees_newTaskList : (newTaskList ts : IndexedTaskList S α).Agrees ts := by
  have hnil : ts.values ts.empty = [] := hts.values_empty
  constructor <;>
    simp [hnil, iterator, newTaskList, getTaskByHandler, getTaskByID, getAllocations]

/-- A task with a new handler and a new id is added to every index. -/
theorem Agrees.addTask (h : l.Agrees ts) {req : AllocateRequest}
    (hid : ∀ a t, l.getTaskByHandler a = some t → t.id = req.id → a = req.taskActor) :
    (l.addTask ts req).2.Agrees ts := by
  cases hreq : l.getTaskByHandler req.taskActor with
  | some t => rwa [addTask_of_some hreq]
  | none =>
    rw [addTask_of_none hreq]
    have hnew : ∀ t ∈ l.iterator ts, t.taskActor ≠ req.taskActor ∧ t.id ≠ req.id := by
      intro t ht
      have ht := (h.handler t).mp ht
      have hactor : t.taskActor ≠ req.taskActor := by
        intro heq
        rw [heq, hreq] at ht
        cases ht
      exact ⟨hactor, fun heq => hactor (hid _ t ht heq)⟩
    have hmem : ∀ t, t ∈ ts.values (ts.add l.taskByTime req) ↔ t = req ∨ t ∈ l.iterator ts := by
      intro t
      rw [hts.mem_add]
      refine or_congr_right (and_iff_left_of_imp fun ht heq => ?_)
      exact (hnew t ht).2 (id_eq_of_taskComparator heq)
    refine ⟨fun t => ?_, fun a t ht => ?_, fun t => ?_, fun i t ht => ?_, fun a ha => ?_⟩
    · rw [iterator, hmem, getTaskByHandler, lookup_insert_eq_ite, h.handler, ← getTaskByHandler]
      split
      · rename_i hactor
        rw [hactor, hreq, Option.some.injEq, eq_comm, or_iff_left (by simp)]
      · rename_i hactor
        rw [or_iff_right]
        rintro rfl
        exact hactor rfl
    · rw [getTaskByHandler, lookup_insert_eq_ite] at ht
      split at ht
      · rename_i hactor
        rw [hactor, Option.some.inj ht]
      · exact h.taskActor a t ht
    · rw [iterator, hmem]
      simp only [getTaskByID, Function.update_apply]
      split
      · rename_i heq
        rw [or_iff_left fun ht => (hnew t ht).2 heq, Option.some.injEq, eq_comm]
      · rename_i heq
        rw [h.byID, getTaskByID, or_iff_right]
        rintro rfl
        exact heq rfl
    · simp only [getTaskByID, Function.update_apply] at ht
      split at ht
      · rename_i heq
        rw [heq, Option.some.inj ht]
      · exact h.id i t ht
    · have ha := h.allocated a ha
      rw [getTaskByHandler, AList.lookup_isSome, AList.mem_insert]
      exact .inr (AList.lookup_isSome.mp ha)

omit hts in
theorem listed_of_addTask {req t : AllocateRequest} {a : ℕ}
    (h : (l.addTask ts req).2.getTaskByHandler a = some t) :
    t = req ∨ l.getTaskByHandler a = some t := by
  cases hreq : l.getTaskByHandler req.taskActor with
  | some u => exact .inr (by rwa [addTask_of_some hreq] at h)
  | none =>
    rw [addTask_of_none hreq, getTaskByHandler, lookup_insert_eq_ite] at h
    split at h
    · exact .inl (Option.some.inj h).symm
    · exact .inr h

/-- A listed task is removed from every index. -/
theorem Agrees.removeTaskByHandler (h : l.Agrees ts) (handler : ℕ) :
    (l.removeTaskByHandler ts handler).2.Agrees ts := by
  cases hreq : l.getTaskByHandler handler with
  | none => rwa [removeTaskByHandler_of_none hreq]
  | some req =>
    rw [removeTaskByHandler_of_some hreq]
    obtain rfl := h.taskActor _ _ hreq
    have hlisted := (h.handler req).mpr hreq
    have hmem : ∀ t, t ∈ ts.values (ts.remove l.taskByTime req) ↔ t ∈ l.iterator ts ∧ t ≠ req := by
      intro t
      rw [hts.mem_remove]
      refine and_congr_right fun ht => not_congr ⟨fun heq => ?_, ?_⟩
      · have ht := (h.byID t).mp ht
        rw [id_eq_of_taskComparator heq, (h.byID req).mp hlisted] at ht
        exact (Option.some.inj ht).symm
      · rintro rfl
        rw [taskComparator_eq, compare_eq_iff_eq]
    refine ⟨fun t => ?_, fun a t ht => ?_, fun t => ?_, fun i t ht => ?_, fun a ha => ?_⟩
    · rw [iterator, hmem, getTaskByHandler, lookup_erase_eq_ite, h.handler, ← getTaskByHandler]
      split
      · rename_i hactor
        rw [hactor, hreq, Option.some.injEq]
        exact iff_of_false (fun ht => ht.2 ht.1.symm) (by simp)
      · rename_i hactor
        rw [and_iff_left]
        rintro rfl
        exact hactor rfl
    · rw [getTaskByHandler, lookup_erase_eq_ite] at ht
      split at ht
      · cases ht
      · exact h.taskActor a t ht
    · rw [iterator, hmem, h.byID]
      simp only [getTaskByID, Function.update_apply]
      split
      · rename_i heq
        have hid : l.taskByID req.id = some req := (h.byID req).mp hlisted
        rw [heq, hid, Option.some.injEq]
        exact iff_of_false (fun ht => ht.2 ht.1.symm) (by simp)
      · rename_i heq
        rw [and_iff_left]
        rintro rfl
        exact heq rfl
    · simp only [getTaskByID, Function.update_apply] at ht
      split at ht
      · cases ht
      · exact h.id i t ht
    · simp only [getAllocations, Function.update_apply] at ha
      rw [getTaskByHandler, lookup_erase_eq_ite]
      split at ha
      · exact absurd rfl ha
      · rename_i hne
        rw [if_neg hne]
        exact h.allocated a ha

omit hts in
theorem Agrees.setAllocations (h : l.Agrees ts) {handler : ℕ} (assigned : List α)
    (hlisted : (l.getTaskByHandler handler).isSome) :
    (l.setAllocations handler assigned).Agrees ts := by
  refine ⟨h.handler, h.taskActor, h.byID, h.id, fun a ha => ?_⟩
  by_cases heq : a = handler
  · exact heq ▸ hlisted
  · exact h.allocated a (by simpa [getAllocations, IndexedTaskList.setAllocations, heq] using ha)

omit hts in
theorem Agrees.removeAllocations (h : l.Agrees ts) (handler : ℕ) :
    (l.removeAllocations handler).Agrees ts := by
  refine ⟨h.handler, h.taskActor, h.byID, h.id, fun a ha => ?_⟩
  by_cases heq : a = handler
  · simp [getAllocations, IndexedTaskList.removeAllocations, heq] at ha
  · exact h.allocated a (by simpa [getAllocations, IndexedTaskList.removeAllocations, heq] using ha)

theorem Agrees.step (h : l.Agrees ts) {op : Operation α} {l' : IndexedTaskList S α}
    (hstep : Step ts l op l') : l'.Agrees ts := by
  obtain ⟨hallowed, rfl⟩ := hstep
  cases op with
  | addTask req => exact h.addTask hts hallowed
  | removeTaskByHandler handler => exact h.removeTaskByHandler hts handler
  | setAllocations handler assigned => exact h.setAllocations assigned hallowed
  | removeAllocations handler => exact h.removeAllocations handler
  | getTaskByHandler _ | getTaskByID _ | getAllocations _ => exact h

omit hts in
theorem Step.idle {op : Operation α} {l' : IndexedTaskList S α} (hstep : Step ts l op l') :
    Idle ts ⟨l, op, l'⟩ := by
  obtain ⟨-, rfl⟩ := hstep
  constructor
  · rintro req rfl hsome
    obtain ⟨t, ht⟩ := Option.isSome_iff_exists.mp hsome
    have hadd : l.addTask ts req = (false, l) := addTask_of_some ht
    exact ⟨hadd, congrArg Prod.snd hadd⟩
  · rintro a rfl hnone
    have hremove : l.removeTaskByHandler ts a = (none, l) := removeTaskByHandler_of_none hnone
    exact ⟨hremove, congrArg Prod.snd hremove⟩

/-! ### The list that schedulers read -/

/-- The tasks in time order and by handler, without the index by id. -/
def toTaskList (ts : TreeSet AllocateRequest S) (l : IndexedTaskList S α) : TaskList α where
  taskByTime := l.iterator ts
  taskByHandler := (l.taskByHandler.entries.map (·.2)).reverse
  allocations := l.allocations

omit hts in
theorem insertSorted_eq_addByTime (req : AllocateRequest) (reqs : List AllocateRequest) :
    TreeSet.insertSorted (taskComparator registeredTime) req reqs =
      TaskList.addByTime registeredTime req reqs := by
  induction reqs with
  | nil => rfl
  | cons t reqs ih =>
    cases hc : taskComparator registeredTime t req <;>
      simp only [TreeSet.insertSorted, TaskList.addByTime, hc, ih]

omit hts in
/-- With one entry for each key, an erased map has the entries of the other keys. -/
theorem kerase_eq_filter {entries : List (Σ _ : ℕ, AllocateRequest)} (h : entries.NodupKeys)
    (handler : ℕ) : entries.kerase handler = entries.filter (·.1 != handler) := by
  induction entries with
  | nil => rfl
  | cons e entries ih =>
    obtain ⟨hnew, hrest⟩ := List.nodupKeys_cons.mp h
    by_cases heq : handler = e.1
    · have hall : ∀ e' ∈ entries, (e'.1 != handler) = true := by
        intro e' he'
        rw [bne_iff_ne]
        rintro hkey
        exact hnew (heq ▸ hkey ▸ List.mem_keys_of_mem he')
      rw [List.kerase_cons_eq heq, List.filter_cons_of_neg (by simp [heq]),
        List.filter_eq_self.mpr hall]
    · rw [List.kerase_cons_ne heq, ih hrest, List.filter_cons_of_pos (by simpa using Ne.symm heq)]

omit hts in
theorem getTaskByHandler_toTaskList (h : l.Agrees ts) (handler : ℕ) :
    (l.toTaskList ts).getTaskByHandler handler = l.getTaskByHandler handler := by
  have hmem : ∀ t, t ∈ (l.toTaskList ts).taskByHandler ↔ l.getTaskByHandler t.taskActor = some t := by
    intro t
    rw [toTaskList, List.mem_reverse, List.mem_map]
    constructor
    · rintro ⟨⟨a, u⟩, hu, rfl⟩
      have hu : l.getTaskByHandler a = some u := AList.mem_lookup_iff.mpr hu
      rwa [h.taskActor a u hu]
    · exact fun ht => ⟨⟨t.taskActor, t⟩, AList.mem_lookup_iff.mp ht, rfl⟩
  cases hfind : (l.toTaskList ts).getTaskByHandler handler with
  | some t =>
    obtain ⟨ht, rfl⟩ := TaskList.mem_of_getTaskByHandler hfind
    exact ((hmem t).mp ht).symm
  | none =>
    cases hlookup : l.getTaskByHandler handler with
    | none => rfl
    | some t =>
      obtain rfl := h.taskActor _ _ hlookup
      have hlisted := List.mem_map_of_mem (f := (·.taskActor)) ((hmem t).mpr hlookup)
      exact absurd hlisted (TaskList.getTaskByHandler_eq_none.mp hfind)

/-- The list refines the one that the pools keep: adding a task. -/
theorem toTaskList_addTask (h : l.Agrees ts) (req : AllocateRequest) :
    (l.addTask ts req).2.toTaskList ts = (l.toTaskList ts).addTask registeredTime req := by
  rw [TaskList.addTask, getTaskByHandler_toTaskList h]
  cases hreq : l.getTaskByHandler req.taskActor with
  | some t => rw [addTask_of_some hreq]
  | none =>
    have hnew : req.taskActor ∉ l.taskByHandler := AList.lookup_eq_none.mp hreq
    rw [addTask_of_none hreq]
    simp only [toTaskList, iterator, hts.values_add taskComparator_eq, insertSorted_eq_addByTime,
      AList.entries_insert_of_notMem hnew, List.map_cons, List.reverse_cons]

/-- And removing one. -/
theorem toTaskList_removeTaskByHandler (h : l.Agrees ts) (handler : ℕ) :
    (l.removeTaskByHandler ts handler).2.toTaskList ts =
      (l.toTaskList ts).removeTaskByHandler registeredTime handler := by
  rw [TaskList.removeTaskByHandler, getTaskByHandler_toTaskList h]
  cases hreq : l.getTaskByHandler handler with
  | none => rw [removeTaskByHandler_of_none hreq]
  | some req =>
    have hactor : ∀ e ∈ l.taskByHandler.entries, e.2.taskActor = e.1 :=
      fun e he => h.taskActor e.1 e.2 (AList.mem_lookup_iff.mpr he)
    have herase : (l.taskByHandler.erase handler).entries =
        l.taskByHandler.entries.filter fun e => e.2.taskActor != handler :=
      (kerase_eq_filter l.taskByHandler.nodupKeys handler).trans
        (List.filter_congr fun e he => by rw [hactor e he])
    rw [removeTaskByHandler_of_some hreq]
    simp only [toTaskList, iterator, hts.values_remove taskComparator_eq, herase,
      List.filter_reverse, List.filter_map]
    rfl

/-- CORRECT: whatever is done with a task list, its indexes describe the same tasks without
    duplicates, iteration is by registration time and id, only listed tasks have allocations, and
    adding a listed handler or removing an unknown one changes nothing. -/
theorem indexes_represent {tr : List (Edge (IndexedTaskList S α) (Operation α))}
    (h : Run (Step ts) (newTaskList ts) tr l) :
    l.Represents ts registeredTime ∧ ∀ e ∈ tr, e.pre.Represents ts registeredTime ∧
      e.post.Represents ts registeredTime ∧ Idle ts e := by
  obtain ⟨hedges, hend⟩ := h.invariant (fun _ _ _ hl hstep => Agrees.step hts hl hstep)
    (agrees_newTaskList hts)
  refine ⟨hend.represents hts, fun e he => ?_⟩
  exact ⟨(hedges e he).1.represents hts, (hedges e he).2.represents hts, (h.step e he).idle⟩

def oneSlot (handler : ℕ) (id : String) : AllocateRequest where
  taskActor := handler
  slotsNeeded := 1
  label := ""
  group := handler
  nonPreemptible := false
  id := id
  singleAgent := false

/-- The tasks of actors that registered together, in a sorted list. -/
def togetherRegistered : TreeSet AllocateRequest
    {ts : List AllocateRequest // ts.Pairwise fun t u => taskComparator (fun _ => 0) t u = .lt} :=
  TreeSet.sortedLists taskComparator_eq

omit hts in
theorem indexes_represent_together :
    ∃ tr, ∃ l : IndexedTaskList _ Unit, Run (Step togetherRegistered)
      (newTaskList togetherRegistered) tr l ∧
      tr.map (·.event) = [.addTask (oneSlot 1 "b"), .addTask (oneSlot 2 "a"),
        .addTask (oneSlot 2 "c"), .setAllocations 1 [()]] ∧
      l.iterator togetherRegistered = [oneSlot 2 "a", oneSlot 1 "b"] ∧
      l.Represents togetherRegistered (fun _ => 0) := by
  have hts : togetherRegistered.OrderedBy (taskComparator fun _ => 0) :=
    TreeSet.orderedBy_sortedLists taskComparator_eq
  let l₀ : IndexedTaskList _ Unit := newTaskList togetherRegistered
  let l₁ := l₀.perform togetherRegistered (.addTask (oneSlot 1 "b"))
  let l₂ := l₁.perform togetherRegistered (.addTask (oneSlot 2 "a"))
  have hlisted₁ : ∀ h t, l₁.getTaskByHandler h = some t → t = oneSlot 1 "b" :=
    fun h t ht => (listed_of_addTask ht).resolve_right (by rintro ⟨⟩)
  have hlisted₂ : ∀ h t, l₂.getTaskByHandler h = some t → t = oneSlot 2 "a" ∨ t = oneSlot 1 "b" :=
    fun h t ht => (listed_of_addTask ht).imp_right (hlisted₁ h t)
  have hrun : Run (Step togetherRegistered) l₀ _ _ :=
    .cons (e := .addTask (oneSlot 1 "b")) ⟨fun h t ht => (by cases ht), rfl⟩
      (.cons (e := .addTask (oneSlot 2 "a"))
        ⟨fun h t ht heq => absurd (hlisted₁ h t ht ▸ heq) (by decide), rfl⟩
        (.cons (e := .addTask (oneSlot 2 "c"))
          ⟨fun h t ht heq => by
            rcases hlisted₂ h t ht with rfl | rfl <;> exact absurd heq (by decide), rfl⟩
          (.cons (e := .setAllocations 1 [()]) ⟨by rfl, rfl⟩ (.nil _))))
  exact ⟨_, _, hrun, rfl, by decide +kernel, (indexes_represent hts hrun).1⟩

end IndexedTaskList

end Determined.Pool
