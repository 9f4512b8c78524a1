import Determined.Schemes.Precedes
import Determined.Kubernetes.RequestQueue

/-! Delivery of the requests to the workers.

    The queue with its cancelled entries and side tables stands for one first-in first-out list of
    requests, `live`. A request is appended to it once it can be handed out, its creation may be
    taken from the middle by a deletion, and a worker takes the first. What was handed out followed
    by what is live is therefore the list of eligible requests without the cancelled ones (`Flow`);
    the order, the exclusivity and the completeness of the delivery are read off that equation. -/

namespace Determined.Kubernetes
open Determined.Schemes

/-! ### The live queue -/

/-- What an entry still asks for. -/
def QueuedResourceRequest.request (entry : QueuedResourceRequest) : Option Request :=
  match entry.createResources, entry.deleteResources with
  | some handler, _ => some (.createKubernetesResources handler)
  | none, some handler => some (.deleteKubernetesResources handler)
  | none, none => none

/-- The requests the queue could hand out, in order. -/
def live (queue : List QueuedResourceRequest) : List Request := queue.filterMap (·.request)

/-- The entry that buffers a request. -/
def Request.entry : Request → QueuedResourceRequest
  | .createKubernetesResources handler => ⟨some handler, none⟩
  | .deleteKubernetesResources handler => ⟨none, some handler⟩

/-- The handler whose resources a request creates. -/
def Request.creation : Request → Finset ℕ
  | .createKubernetesResources handler => {handler}
  | .deleteKubernetesResources _ => ∅

@[simp] theorem Request.entry_request (r : Request) : r.entry.request = some r := by
  cases r <;> rfl

@[simp] theorem request_empty : (⟨none, none⟩ : QueuedResourceRequest).request = none := rfl

@[simp] theorem Request.mem_creation {r : Request} {h : ℕ} :
    h ∈ r.creation ↔ r = .createKubernetesResources h := by
  cases r <;> simp [Request.creation, eq_comm]

@[simp] theorem live_nil : live [] = [] := rfl

@[simp] theorem live_cons (entry : QueuedResourceRequest) (queue : List QueuedResourceRequest) :
    live (entry :: queue) = entry.request.toList ++ live queue := by
  simp only [live, List.filterMap_cons]
  cases entry.request <;> rfl

theorem live_concat (queue : List QueuedResourceRequest) (r : Request) :
    live (queue ++ [r.entry]) = live queue ++ [r] := by
  simp [live]

/-- Every entry buffers one request or is what a cancelled one left behind. -/
def Sound (queue : List QueuedResourceRequest) : Prop :=
  ∀ entry ∈ queue, entry = ⟨none, none⟩ ∨ ∃ r : Request, entry = r.entry

theorem Sound.concat {queue : List QueuedResourceRequest} (h : Sound queue) (r : Request) :
    Sound (queue ++ [r.entry]) := by
  intro entry hentry
  rcases List.mem_append.mp hentry with hentry | hentry
  · exact h entry hentry
  · exact .inr ⟨r, List.mem_singleton.mp hentry⟩

@[simp] theorem cancelEntry_empty (handler : ℕ) :
    RequestQueue.cancelEntry handler ⟨none, none⟩ = ⟨none, none⟩ := rfl

theorem cancelEntry_entry (handler : ℕ) (r : Request) :
    RequestQueue.cancelEntry handler r.entry =
      if r = .createKubernetesResources handler then ⟨none, none⟩ else r.entry := by
  cases r <;> simp [RequestQueue.cancelEntry, Request.entry]

theorem Sound.cancel {queue : List QueuedResourceRequest} (h : Sound queue) (handler : ℕ) :
    Sound (queue.map (RequestQueue.cancelEntry handler)) := by
  intro entry hentry
  obtain ⟨e, he, rfl⟩ := List.mem_map.mp hentry
  rcases h e he with rfl | ⟨r, rfl⟩
  · exact .inl rfl
  · rw [cancelEntry_entry]
    split
    · exact .inl rfl
    · exact .inr ⟨r, rfl⟩

/-- Cancelling takes the creation out of the live queue and leaves the rest as it is. -/
theorem live_cancel {queue : List QueuedResourceRequest} (h : Sound queue) (handler : ℕ) :
    live (queue.map (RequestQueue.cancelEntry handler)) =
      (live queue).filter (· ≠ .createKubernetesResources handler) := by
  induction queue with
  | nil => rfl
  | cons entry queue ih =>
    have ih := ih fun e he => h e (List.mem_cons_of_mem _ he)
    rw [List.map_cons, live_cons, live_cons, List.filter_append, ih]
    congr 1
    rcases h entry (List.mem_cons_self ..) with rfl | ⟨r, rfl⟩
    · rfl
    · rw [cancelEntry_entry]
      by_cases hr : r = .createKubernetesResources handler
      · subst hr
        simp
      · simp [hr]

/-! ### What dispatching does -/

theorem dispatch_of_live_nil {ω : Type} (worker : ω) (r : RequestQueue ω)
    {queue : List QueuedResourceRequest} (h : live queue = []) :
    RequestQueue.dispatch worker r queue =
      ({ r with queue := [], availableWorkers := r.availableWorkers ++ [worker] }, []) := by
  induction queue with
  | nil => rfl
  | cons entry queue ih =>
    obtain ⟨create, delete⟩ := entry
    cases create <;> cases delete <;>
      simp_all [QueuedResourceRequest.request, RequestQueue.dispatch]

theorem dispatch_of_live_cons {ω : Type} (worker : ω) (r : RequestQueue ω)
    {queue : List QueuedResourceRequest} {request : Request} {rest : List Request}
    (h : live queue = request :: rest) :
    ∃ queue', queue' <:+ queue ∧ live queue' = rest ∧
      RequestQueue.dispatch worker r queue =
        ({ r with
            queue := queue'
            pendingResourceCreations := r.pendingResourceCreations \ request.creation
            creationInProgress := request.creation ∪ r.creationInProgress },
          [.hand worker request]) := by
  induction queue with
  | nil => simp at h
  | cons entry queue ih =>
    obtain ⟨create, delete⟩ := entry
    cases create with
    | some handler =>
      obtain ⟨rfl, hrest⟩ := List.cons.inj h
      refine ⟨queue, List.suffix_cons _ _, hrest, ?_⟩
      rw [Request.creation, Finset.sdiff_singleton_eq_erase, ← Finset.insert_eq]
      rfl
    | none =>
      cases delete with
      | some handler =>
        obtain ⟨rfl, hrest⟩ := List.cons.inj h
        refine ⟨queue, List.suffix_cons _ _, hrest, ?_⟩
        rw [Request.creation, Finset.sdiff_empty, Finset.empty_union]
        rfl
      | none =>
        obtain ⟨queue', hsuffix, hlive, heq⟩ := ih h
        exact ⟨queue', hsuffix.trans (List.suffix_cons _ _), hlive, heq⟩

/-! ### The steps, in terms of the live queue -/

/-- The handler whose resources the worker creates, up to the queue's learning that it is done. -/
def WorkerState.creating : WorkerState → Option ℕ
  | .processing (.createKubernetesResources handler) => some handler
  | .announcing (some handler) => some handler
  | _ => none

/-- How many steps the worker itself still takes. -/
def WorkerState.weight : WorkerState → ℕ
  | .processing _ => 2
  | .announcing _ => 1
  | .idle => 0

theorem WorkerState.weight_processing (r : Request) : (processing r).weight = 2 := rfl

theorem WorkerState.weight_announcing (h : Option ℕ) : (announcing h).weight = 1 := rfl

theorem WorkerState.weight_idle : idle.weight = 0 := rfl

@[simp] theorem WorkerState.processing_creating {r : Request} {h : ℕ} :
    (WorkerState.processing r).creating = some h ↔ r = .createKubernetesResources h := by
  cases r <;> simp [WorkerState.creating]

namespace System

variable {ω : Type} (s : System ω)

/-- The requests handed out so far, in order. -/
def given : List Request := s.handed.map (·.2)

def arrive (r : Request) : System ω := { s with arrived := s.arrived ++ [r] }

/-- A request can be handed out from now on. -/
def enqueue (r : Request) : System ω :=
  { s with
    eligible := s.eligible ++ [r]
    requestQueue :=
      { s.requestQueue with
        queue := s.requestQueue.queue ++ [r.entry]
        pendingResourceCreations := r.creation ∪ s.requestQueue.pendingResourceCreations } }

/-- The worker gets the request; `queue` and `workers` are what is left. -/
def assign [DecidableEq ω] (worker : ω) (r : Request) (queue : List QueuedResourceRequest)
    (workers : List ω) : System ω :=
  { s with
    worker := Function.update s.worker worker (.processing r)
    handed := s.handed ++ [(worker, r)]
    requestQueue :=
      { s.requestQueue with
        queue := queue
        availableWorkers := workers
        pendingResourceCreations := s.requestQueue.pendingResourceCreations \ r.creation
        creationInProgress := r.creation ∪ s.requestQueue.creationInProgress } }

/-- The creation is taken out of the queue. -/
def cancel (handler : ℕ) : System ω :=
  { s with
    cancelled := s.cancelled ++ [handler]
    requestQueue :=
      { s.requestQueue with
        queue := s.requestQueue.queue.map (RequestQueue.cancelEntry handler)
        pendingResourceCreations := s.requestQueue.pendingResourceCreations.erase handler } }

/-- The deletion waits for the creation in progress. -/
def block (handler : ℕ) : System ω :=
  { s with
    waited := s.waited ++ [handler]
    requestQueue :=
      { s.requestQueue with
        blockedResourceDeletions := insert handler s.requestQueue.blockedResourceDeletions } }

/-- The worker is no longer busy, and no creation of `handler` is in progress. -/
def release [DecidableEq ω] (worker : ω) (handler : ℕ) : System ω :=
  { s with
    worker := Function.update s.worker worker .idle
    requestQueue :=
      { s.requestQueue with
        creationInProgress := s.requestQueue.creationInProgress.erase handler
        blockedResourceDeletions := s.requestQueue.blockedResourceDeletions.erase handler } }

/-- The state in which the queue looks for work for the worker that announced itself. -/
def announced [DecidableEq ω] (worker : ω) : Option ℕ → System ω
  | none => { s with worker := Function.update s.worker worker .idle }
  | some handler =>
    if handler ∈ s.requestQueue.blockedResourceDeletions then
      (s.release worker handler).enqueue (.deleteKubernetesResources handler)
    else s.release worker handler

/-- The worker is recorded as available. -/
def record (worker : ω) : System ω :=
  { s with
    requestQueue :=
      { s.requestQueue with
        queue := []
        availableWorkers := s.requestQueue.availableWorkers ++ [worker] } }

variable {s}

/-- A request that is neither cancelled nor blocked is queued or goes to the first worker that is
    recorded as available. -/
inductive Admits [DecidableEq ω] (s : System ω) (r : Request) : System ω → Prop
  | queued : s.requestQueue.availableWorkers = [] → Admits s r ((s.arrive r).enqueue r)
  | handed {worker : ω} {workers : List ω} : s.requestQueue.availableWorkers = worker :: workers →
      Admits s r (((s.arrive r).enqueue r).assign worker r s.requestQueue.queue workers)

theorem create_admits [DecidableEq ω] {h : ℕ}
    (hpending : h ∉ s.requestQueue.pendingResourceCreations) :
    Admits s (.createKubernetesResources h) (s.create h) := by
  have hsdiff : insert h s.requestQueue.pendingResourceCreations \ {h} =
      s.requestQueue.pendingResourceCreations := by
    rw [Finset.sdiff_singleton_eq_erase, Finset.erase_insert hpending]
  cases hw : s.requestQueue.availableWorkers with
  | nil =>
    have : s.create h = (s.arrive (.createKubernetesResources h)).enqueue
        (.createKubernetesResources h) := by
      simp [create, after, arrive, enqueue, RequestQueue.receiveCreateKubernetesResources, hpending,
        hw, Request.entry, Request.creation]
    exact this ▸ .queued hw
  | cons worker workers =>
    have : s.create h = ((s.arrive (.createKubernetesResources h)).enqueue
        (.createKubernetesResources h)).assign worker (.createKubernetesResources h)
          s.requestQueue.queue workers := by
      simp [create, after, sent, arrive, enqueue, assign,
        RequestQueue.receiveCreateKubernetesResources, hpending, hw, Request.creation, hsdiff]
    exact this ▸ .handed hw

theorem delete_admits [DecidableEq ω] {h : ℕ}
    (hpending : h ∉ s.requestQueue.pendingResourceCreations)
    (hprogress : h ∉ s.requestQueue.creationInProgress) :
    Admits s (.deleteKubernetesResources h) (s.delete h) := by
  cases hw : s.requestQueue.availableWorkers with
  | nil =>
    have : s.delete h = (s.arrive (.deleteKubernetesResources h)).enqueue
        (.deleteKubernetesResources h) := by
      simp [delete, after, arrive, enqueue, RequestQueue.receiveDeleteKubernetesResources, hpending,
        hprogress, hw, Request.entry, Request.creation]
    exact this ▸ .queued hw
  | cons worker workers =>
    have : s.delete h = ((s.arrive (.deleteKubernetesResources h)).enqueue
        (.deleteKubernetesResources h)).assign worker (.deleteKubernetesResources h)
          s.requestQueue.queue workers := by
      simp [delete, after, sent, arrive, enqueue, assign,
        RequestQueue.receiveDeleteKubernetesResources, hpending, hprogress, hw, Request.creation]
    exact this ▸ .handed hw

theorem delete_cancels [DecidableEq ω] {h : ℕ}
    (hpending : h ∈ s.requestQueue.pendingResourceCreations) :
    s.delete h = (s.arrive (.deleteKubernetesResources h)).cancel h := by
  simp [delete, after, sent, arrive, cancel, RequestQueue.receiveDeleteKubernetesResources,
    hpending]

theorem delete_blocks [DecidableEq ω] {h : ℕ}
    (hpending : h ∉ s.requestQueue.pendingResourceCreations)
    (hprogress : h ∈ s.requestQueue.creationInProgress) :
    s.delete h = (s.arrive (.deleteKubernetesResources h)).block h := by
  simp [delete, after, arrive, block, RequestQueue.receiveDeleteKubernetesResources, hpending,
    hprogress]

/-- The worker that announced itself is recorded as available or gets the first live request. -/
inductive Dispatches [DecidableEq ω] (s : System ω) (worker : ω) : System ω → Prop
  | recorded : live s.requestQueue.queue = [] → Dispatches s worker (s.record worker)
  | handed {r : Request} {queue : List QueuedResourceRequest} : queue <:+ s.requestQueue.queue →
      live s.requestQueue.queue = r :: live queue →
        Dispatches s worker (s.assign worker r queue s.requestQueue.availableWorkers)

theorem available_dispatches [DecidableEq ω] (worker : ω) (resourceHandler : Option ℕ) :
    Dispatches (s.announced worker resourceHandler) worker
      (s.available worker resourceHandler) := by
  have heq : s.available worker resourceHandler =
      (s.announced worker resourceHandler).after (RequestQueue.dispatch worker
        (s.announced worker resourceHandler).requestQueue
        (s.announced worker resourceHandler).requestQueue.queue) := by
    cases resourceHandler with
    | none => rfl
    | some handler =>
      simp only [available, after, announced, RequestQueue.receiveWorkerAvailable,
        RequestQueue.release]
      split
      · simp [release, enqueue, Request.creation, Request.entry]
      · rename_i hblocked
        simp [release, Finset.erase_eq_of_notMem hblocked]
  rw [heq]
  generalize s.announced worker resourceHandler = m
  cases hlive : live m.requestQueue.queue with
  | nil =>
    rw [dispatch_of_live_nil _ _ hlive]
    exact .recorded hlive
  | cons r rest =>
    obtain ⟨queue, hsuffix, rfl, hdispatch⟩ := dispatch_of_live_cons worker m.requestQueue hlive
    rw [hdispatch]
    exact .handed hsuffix hlive

/-! ### Arrivals -/

/-- The history of the arrivals is consistent. -/
structure Arrivals (s : System ω) : Prop where
  arrived_nodup : s.arrived.Nodup
  eligible_nodup : s.eligible.Nodup
  eligible_arrived : ∀ r ∈ s.eligible, r ∈ s.arrived
  created : ∀ h, Request.createKubernetesResources h ∈ s.arrived →
    Request.createKubernetesResources h ∈ s.eligible
  after_creation : ∀ h, Request.deleteKubernetesResources h ∈ s.arrived →
    Request.createKubernetesResources h ∈ s.arrived
  cancelled : ∀ h ∈ s.cancelled, Request.deleteKubernetesResources h ∈ s.arrived ∧
    Request.deleteKubernetesResources h ∉ s.eligible
  blocked : ∀ h ∈ s.requestQueue.blockedResourceDeletions,
    Request.deleteKubernetesResources h ∈ s.arrived ∧
      Request.deleteKubernetesResources h ∉ s.eligible ∧ h ∈ s.waited ∧ h ∉ s.cancelled
  resolved : ∀ h, Request.deleteKubernetesResources h ∈ s.arrived →
    Request.deleteKubernetesResources h ∈ s.eligible ∨ h ∈ s.cancelled ∨
      h ∈ s.requestQueue.blockedResourceDeletions

/-- A deletion that was not handed out in its turn. -/
def Held (s : System ω) (r : Request) : Prop :=
  ∃ h, r = .deleteKubernetesResources h ∧ (h ∈ s.waited ∨ h ∈ s.cancelled)

/-- Requests become eligible in the order in which they arrive, but for those held back. -/
def Ordered (s : System ω) : Prop :=
  ∀ x y, Precedes s.arrived x y → y ∈ s.eligible → s.Held x ∨ Precedes s.eligible x y

theorem Arrivals.start : Arrivals (start : System ω) := by
  constructor <;> simp [System.start, RequestQueue.empty]

theorem Arrivals.eligible_or_held (hs : Arrivals s) {r : Request} (hr : r ∈ s.arrived) :
    r ∈ s.eligible ∨ s.Held r := by
  cases r with
  | createKubernetesResources h => exact .inl (hs.created h hr)
  | deleteKubernetesResources h =>
    rcases hs.resolved h hr with h' | h' | h'
    · exact .inl h'
    · exact .inr ⟨h, rfl, .inr h'⟩
    · exact .inr ⟨h, rfl, .inl (hs.blocked h h').2.2.1⟩

theorem Arrivals.admit (hs : Arrivals s) {r : Request} (hnew : r ∉ s.arrived)
    (hafter : ∀ h, r = .deleteKubernetesResources h → .createKubernetesResources h ∈ s.arrived) :
    Arrivals ((s.arrive r).enqueue r) := by
  have hr : r ∉ s.eligible := fun h => hnew (hs.eligible_arrived r h)
  obtain ⟨h1, h2, h3, h4, h5, h6, h7, h8⟩ := hs
  constructor <;> simp only [arrive, enqueue]
  all_goals grind [List.nodup_append]

theorem Ordered.admit (ho : Ordered s) (hs : Arrivals s) {r : Request} (hnew : r ∉ s.arrived) :
    Ordered ((s.arrive r).enqueue r) := by
  intro x y hxy hy
  rcases precedes_concat_iff.mp hxy with hxy | ⟨hx, rfl⟩
  · have hyr : y ≠ r := fun h => hnew (h ▸ hxy.mem_right)
    have hy : y ∈ s.eligible := by
      simp only [enqueue, arrive, List.mem_append, List.mem_singleton] at hy
      exact hy.resolve_right hyr
    exact (ho x y hxy hy).imp_right fun h => h.append [r]
  · exact (hs.eligible_or_held hx).symm.imp_right precedes_concat

theorem Arrivals.cancel (hs : Arrivals s) {h : ℕ}
    (hnew : Request.deleteKubernetesResources h ∉ s.arrived)
    (hafter : Request.createKubernetesResources h ∈ s.arrived) :
    Arrivals ((s.arrive (.deleteKubernetesResources h)).cancel h) := by
  have hr : Request.deleteKubernetesResources h ∉ s.eligible :=
    fun h' => hnew (hs.eligible_arrived _ h')
  obtain ⟨h1, h2, h3, h4, h5, h6, h7, h8⟩ := hs
  constructor <;> simp only [arrive, System.cancel]
  all_goals grind [List.nodup_append]

theorem Arrivals.block (hs : Arrivals s) {h : ℕ}
    (hnew : Request.deleteKubernetesResources h ∉ s.arrived)
    (hafter : Request.createKubernetesResources h ∈ s.arrived) :
    Arrivals ((s.arrive (.deleteKubernetesResources h)).block h) := by
  have hr : Request.deleteKubernetesResources h ∉ s.eligible :=
    fun h' => hnew (hs.eligible_arrived _ h')
  obtain ⟨h1, h2, h3, h4, h5, h6, h7, h8⟩ := hs
  constructor <;> simp only [arrive, System.block]
  all_goals grind [List.nodup_append]

/-- A request that arrives without becoming eligible comes after those that are. -/
theorem Ordered.arrive (ho : Ordered s) (hs : Arrivals s) {r : Request} (hnew : r ∉ s.arrived) :
    Ordered (s.arrive r) := by
  intro x y hxy hy
  rcases precedes_concat_iff.mp hxy with hxy | ⟨-, rfl⟩
  · exact ho x y hxy hy
  · exact absurd (hs.eligible_arrived y hy) hnew

theorem Ordered.cancel (ho : Ordered s) (h : ℕ) : Ordered (s.cancel h) := by
  intro x y hxy hy
  refine (ho x y hxy hy).imp_left ?_
  rintro ⟨h', rfl, hw | hc⟩
  · exact ⟨h', rfl, .inl hw⟩
  · exact ⟨h', rfl, .inr (List.mem_append_left _ hc)⟩

theorem Ordered.block (ho : Ordered s) (h : ℕ) : Ordered (s.block h) := by
  intro x y hxy hy
  refine (ho x y hxy hy).imp_left ?_
  rintro ⟨h', rfl, hw | hc⟩
  · exact ⟨h', rfl, .inl (List.mem_append_left _ hw)⟩
  · exact ⟨h', rfl, .inr hc⟩

theorem Arrivals.announced [DecidableEq ω] (hs : Arrivals s) (worker : ω)
    (resourceHandler : Option ℕ) :
    Arrivals (s.announced worker resourceHandler) := by
  cases resourceHandler with
  | none => exact { hs with }
  | some h =>
    obtain ⟨h1, h2, h3, h4, h5, h6, h7, h8⟩ := hs
    simp only [System.announced]
    split
    · constructor <;> simp only [release, enqueue]
      all_goals grind [List.nodup_append]
    · constructor <;> simp only [release]
      all_goals grind

theorem Ordered.announced [DecidableEq ω] (ho : Ordered s) (hs : Arrivals s) (worker : ω)
    (resourceHandler : Option ℕ) : Ordered (s.announced worker resourceHandler) := by
  cases resourceHandler with
  | none => exact ho
  | some h =>
    simp only [System.announced]
    split
    · intro x y hxy hy
      rcases List.mem_append.mp hy with hy | hy
      · exact (ho x y hxy hy).imp_right fun h => h.append _
      · obtain rfl := List.mem_singleton.mp hy
        exact (hs.eligible_or_held hxy.mem_left).symm.imp_right precedes_concat
    · exact ho

/-! ### The flow of requests through the queue -/

/-- What was handed out and what is live is what became eligible and was not cancelled. -/
structure Flow (s : System ω) : Prop where
  sound : Sound s.requestQueue.queue
  pending : ∀ h, h ∈ s.requestQueue.pendingResourceCreations ↔
    Request.createKubernetesResources h ∈ live s.requestQueue.queue
  flow : s.given ++ live s.requestQueue.queue =
    s.eligible.filter (· ∉ s.cancelled.map Request.createKubernetesResources)

theorem Flow.start : Flow (start : System ω) := by
  constructor <;> simp [System.start, RequestQueue.empty, given, Sound]

theorem Flow.nodup (hf : Flow s) (hs : Arrivals s) :
    (s.given ++ live s.requestQueue.queue).Nodup :=
  hf.flow ▸ hs.eligible_nodup.filter _

theorem Flow.mem_iff (hf : Flow s) {r : Request} :
    r ∈ s.given ∨ r ∈ live s.requestQueue.queue ↔
      r ∈ s.eligible ∧ r ∉ s.cancelled.map Request.createKubernetesResources := by
  rw [← List.mem_append, hf.flow, List.mem_filter, decide_eq_true_iff]

theorem Flow.arrive (hf : Flow s) (r : Request) : Flow (s.arrive r) := { hf with }

theorem Flow.block (hf : Flow s) (h : ℕ) : Flow (s.block h) := { hf with }

theorem Flow.enqueue (hf : Flow s) {r : Request}
    (hr : r ∉ s.cancelled.map Request.createKubernetesResources) : Flow (s.enqueue r) where
  sound := hf.sound.concat r
  pending h := by
    simp [System.enqueue, live_concat, hf.pending, or_comm, eq_comm]
  flow := by
    have hflow := hf.flow
    simp only [given] at hflow
    simp only [System.enqueue, given, live_concat, ← List.append_assoc, hflow, List.filter_append]
    have hkeep : [r].filter (· ∉ s.cancelled.map Request.createKubernetesResources) = [r] :=
      List.filter_eq_self.mpr (by simpa using hr)
    exact congrArg (_ ++ ·) hkeep.symm

theorem Flow.assign [DecidableEq ω] (hf : Flow s) (hs : Arrivals s) {worker : ω} {r : Request}
    {queue : List QueuedResourceRequest} {workers : List ω} (hsound : Sound queue)
    (hlive : live s.requestQueue.queue = r :: live queue) :
    Flow (s.assign worker r queue workers) where
  sound := hsound
  pending h := by
    have hnodup := (List.nodup_append.mp (hf.nodup hs)).2.1
    rw [hlive] at hnodup
    have hr := (List.nodup_cons.mp hnodup).1
    simp only [System.assign, Finset.mem_sdiff, hf.pending, hlive, Request.mem_creation,
      List.mem_cons]
    constructor
    · rintro ⟨h' | h', hne⟩
      · exact absurd h'.symm hne
      · exact h'
    · exact fun h' => ⟨.inr h', fun heq => hr (heq ▸ h')⟩
  flow := by
    have hflow := hf.flow
    rw [hlive] at hflow
    simpa [System.assign, given] using hflow

theorem Flow.record (hf : Flow s) {worker : ω} (hlive : live s.requestQueue.queue = []) :
    Flow (s.record worker) where
  sound := by simp [System.record, Sound]
  pending h := by simp [System.record, hf.pending, hlive]
  flow := by
    have hflow := hf.flow
    rw [hlive] at hflow
    exact hflow

theorem Flow.cancel (hf : Flow s) (hs : Arrivals s) {h : ℕ}
    (hpending : h ∈ s.requestQueue.pendingResourceCreations) : Flow (s.cancel h) where
  sound := hf.sound.cancel h
  pending h' := by
    simp [System.cancel, live_cancel hf.sound, hf.pending, List.mem_filter, and_comm]
  flow := by
    have hlive := (hf.pending h).mp hpending
    have hgiven : ∀ r ∈ s.given, r ≠ .createKubernetesResources h := by
      rintro r hr rfl
      exact List.disjoint_of_nodup_append (hf.nodup hs) hr hlive
    have hfilter := congrArg (List.filter (· ≠ Request.createKubernetesResources h)) hf.flow
    rw [List.filter_append, List.filter_eq_self.mpr (by simpa using hgiven), List.filter_filter]
      at hfilter
    simp only [System.cancel, live_cancel hf.sound]
    refine hfilter.trans (List.filter_congr fun r _ => ?_)
    simp [not_or, and_comm, eq_comm]

theorem Flow.announced [DecidableEq ω] (hf : Flow s) (worker : ω) (resourceHandler : Option ℕ) :
    Flow (s.announced worker resourceHandler) := by
  cases resourceHandler with
  | none => exact { hf with }
  | some h =>
    simp only [System.announced]
    split
    · exact Flow.enqueue (s := s.release worker h) { hf with } (by simp)
    · exact { hf with }

/-! ### Who works on what -/

/-- The creations in progress are those some worker is busy with. -/
structure Staffing (s : System ω) : Prop where
  inProgress : ∀ h, h ∈ s.requestQueue.creationInProgress ↔
    ∃ worker, (s.worker worker).creating = some h
  unique : ∀ worker worker' h, (s.worker worker).creating = some h →
    (s.worker worker').creating = some h → worker = worker'
  given : ∀ worker h, (s.worker worker).creating = some h →
    .createKubernetesResources h ∈ s.given
  finished : ∀ h, .createKubernetesResources h ∈ s.given →
    h ∈ s.requestQueue.creationInProgress ∨ h ∈ s.finished
  announcing : ∀ worker h, s.worker worker = .announcing (some h) → h ∈ s.finished
  blocked : ∀ h ∈ s.requestQueue.blockedResourceDeletions, h ∈ s.requestQueue.creationInProgress
  deleted : ∀ h, Request.deleteKubernetesResources h ∈ s.eligible → h ∈ s.finished

theorem Staffing.start : Staffing (start : System ω) := by
  constructor <;> simp [System.start, RequestQueue.empty, System.given, WorkerState.creating]

theorem Staffing.arrive (ht : Staffing s) (r : Request) : Staffing (s.arrive r) := { ht with }

theorem Staffing.cancel (ht : Staffing s) (h : ℕ) : Staffing (s.cancel h) := { ht with }

theorem Staffing.record (ht : Staffing s) (worker : ω) : Staffing (s.record worker) := { ht with }

theorem Staffing.block (ht : Staffing s) {h : ℕ}
    (hprogress : h ∈ s.requestQueue.creationInProgress) : Staffing (s.block h) :=
  { ht with
    blocked := by
      intro h' hh'
      rcases Finset.mem_insert.mp hh' with rfl | hh'
      · exact hprogress
      · exact ht.blocked h' hh' }

theorem Staffing.enqueue (ht : Staffing s) {r : Request}
    (hr : ∀ h, r = .deleteKubernetesResources h → h ∈ s.finished) : Staffing (s.enqueue r) :=
  { ht with
    deleted := by
      intro h hh
      rcases List.mem_append.mp hh with hh | hh
      · exact ht.deleted h hh
      · exact hr h (List.mem_singleton.mp hh).symm }

theorem Staffing.assign [DecidableEq ω] (ht : Staffing s) {worker : ω} {r : Request}
    {queue : List QueuedResourceRequest} {workers : List ω}
    (hfree : (s.worker worker).creating = none) (hnew : r ∉ s.given) :
    Staffing (s.assign worker r queue workers) := by
  have hbusy : ∀ worker' h, (Function.update s.worker worker (.processing r) worker').creating =
      some h ↔ (worker' = worker ∧ r = .createKubernetesResources h) ∨
        (s.worker worker').creating = some h := by
    intro worker' h
    by_cases heq : worker' = worker
    · subst heq
      simp [hfree]
    · simp [heq]
  have hgiven : ∀ r', r' ∈ (s.assign worker r queue workers).given ↔ r' ∈ s.given ∨ r' = r := by
    simp [System.assign, System.given]
  constructor
  · intro h
    simp only [System.assign, hbusy, Finset.mem_union, Request.mem_creation, ht.inProgress]
    constructor
    · rintro (hr | ⟨worker', h'⟩)
      · exact ⟨worker, .inl ⟨rfl, hr⟩⟩
      · exact ⟨worker', .inr h'⟩
    · rintro ⟨worker', ⟨-, hr⟩ | h'⟩
      · exact .inl hr
      · exact .inr ⟨worker', h'⟩
  · intro w w' h hw hw'
    -- A second worker on the creation would have been given the request before.
    have hother : ∀ v, (s.worker v).creating = some h → r ≠ .createKubernetesResources h := by
      rintro v hv rfl
      exact hnew (ht.given v h hv)
    rcases (hbusy w h).mp hw with ⟨heq, hr⟩ | hw <;>
      rcases (hbusy w' h).mp hw' with ⟨heq', hr'⟩ | hw'
    · exact heq.trans heq'.symm
    · exact absurd hr (hother w' hw')
    · exact absurd hr' (hother w hw)
    · exact ht.unique w w' h hw hw'
  · intro w h hw
    rw [hgiven]
    rcases (hbusy w h).mp hw with ⟨-, hr⟩ | hw
    · exact .inr hr.symm
    · exact .inl (ht.given w h hw)
  · intro h hh
    rcases (hgiven _).mp hh with hh | hh
    · exact (ht.finished h hh).imp_left fun h' => Finset.mem_union_right _ h'
    · exact .inl (Finset.mem_union_left _ (Request.mem_creation.mpr hh.symm))
  · intro w h hw
    by_cases heq : w = worker
    · subst heq
      simp [System.assign] at hw
    · exact ht.announcing w h (by simpa [System.assign, heq] using hw)
  · intro h hh
    exact Finset.mem_union_right _ (ht.blocked h hh)
  · exact ht.deleted

/-- What the workers are busy with is all that matters. -/
theorem Staffing.congr (ht : Staffing s) {t : System ω}
    (hprogress : t.requestQueue.creationInProgress = s.requestQueue.creationInProgress)
    (hblocked : t.requestQueue.blockedResourceDeletions = s.requestQueue.blockedResourceDeletions)
    (hgiven : t.given = s.given) (heligible : t.eligible = s.eligible)
    (hfinished : s.finished ⊆ t.finished)
    (hbusy : ∀ worker, (t.worker worker).creating = (s.worker worker).creating)
    (hannouncing : ∀ worker h, t.worker worker = .announcing (some h) → h ∈ t.finished) :
    Staffing t where
  inProgress h := by rw [hprogress, ht.inProgress]; simp only [hbusy]
  unique w w' h := by simpa only [hbusy] using ht.unique w w' h
  given w h := by simpa only [hbusy, hgiven] using ht.given w h
  finished h hh := by
    rw [hprogress]
    exact (ht.finished h (hgiven ▸ hh)).imp_right fun h' => hfinished h'
  announcing := hannouncing
  blocked h hh := by
    rw [hblocked] at hh
    rw [hprogress]
    exact ht.blocked h hh
  deleted h hh := hfinished (ht.deleted h (heligible ▸ hh))

theorem Staffing.finish [DecidableEq ω] (ht : Staffing s) {worker : ω} {r : Request}
    (hworker : s.worker worker = .processing r) : Staffing (s.finish worker r) := by
  have hbusy : ∀ worker', ((s.finish worker r).worker worker').creating =
      (s.worker worker').creating := by
    intro worker'
    by_cases heq : worker' = worker
    · subst heq
      rw [hworker]
      cases r <;> simp [System.finish, WorkerState.creating]
    · cases r <;> simp [System.finish, heq]
  cases r with
  | createKubernetesResources h =>
    refine ht.congr rfl rfl rfl rfl (List.subset_append_left _ _) hbusy fun w h' hw => ?_
    by_cases heq : w = worker
    · subst heq
      simp only [System.finish, Function.update_self, WorkerState.announcing.injEq,
        Option.some.injEq] at hw
      exact List.mem_append_right _ (by simp [hw])
    · exact List.mem_append_left _ (ht.announcing w h' (by simpa [System.finish, heq] using hw))
  | deleteKubernetesResources h =>
    refine ht.congr rfl rfl rfl rfl (List.Subset.refl _) hbusy fun w h' hw => ?_
    by_cases heq : w = worker
    · subst heq
      simp [System.finish] at hw
    · exact ht.announcing w h' (by simpa [System.finish, heq] using hw)

/-- A worker that was busy with the creation of `h` and is now idle frees `h`. -/
theorem Staffing.release [DecidableEq ω] (ht : Staffing s) {worker : ω} {h : ℕ}
    (hworker : s.worker worker = .announcing (some h)) : Staffing (s.release worker h) := by
  have hbusy : ∀ worker' h', ((s.release worker h).worker worker').creating = some h' ↔
      (s.worker worker').creating = some h' ∧ h' ≠ h := by
    intro worker' h'
    by_cases heq : worker' = worker
    · subst heq
      simp only [System.release, Function.update_self, hworker, WorkerState.creating]
      grind
    · simp only [System.release, Function.update_of_ne heq, iff_self_and]
      rintro hw' rfl
      exact heq (ht.unique worker' worker h' hw' (by rw [hworker]; rfl))
  constructor
  · intro h'
    simp only [hbusy]
    simp [System.release, ht.inProgress, and_comm]
  · intro w w' h' hw hw'
    exact ht.unique w w' h' ((hbusy w h').mp hw).1 ((hbusy w' h').mp hw').1
  · intro w h' hw
    exact ht.given w h' ((hbusy w h').mp hw).1
  · intro h' hh
    by_cases heq : h' = h
    · exact .inr (heq ▸ ht.announcing worker h hworker)
    · exact (ht.finished h' hh).imp_left fun h'' => Finset.mem_erase.mpr ⟨heq, h''⟩
  · intro w h' hw
    by_cases heq : w = worker
    · subst heq
      simp [System.release] at hw
    · exact ht.announcing w h' (by simpa [System.release, heq] using hw)
  · intro h' hh
    obtain ⟨hne, hh⟩ := Finset.mem_erase.mp hh
    exact Finset.mem_erase.mpr ⟨hne, ht.blocked h' hh⟩
  · exact ht.deleted

theorem Staffing.announced [DecidableEq ω] (ht : Staffing s) {worker : ω}
    {resourceHandler : Option ℕ} (hworker : s.worker worker = .announcing resourceHandler) :
    Staffing (s.announced worker resourceHandler) := by
  cases resourceHandler with
  | none =>
    have hbusy : ∀ worker', (Function.update s.worker worker .idle worker').creating =
        (s.worker worker').creating := by
      intro worker'
      by_cases heq : worker' = worker
      · subst heq
        rw [hworker, Function.update_self]
        rfl
      · rw [Function.update_of_ne heq]
    refine ht.congr rfl rfl rfl rfl (List.Subset.refl _) hbusy fun w h' hw => ?_
    by_cases heq : w = worker
    · subst heq
      simp [System.announced] at hw
    · exact ht.announcing w h' (by simpa [System.announced, heq] using hw)
  | some h =>
    simp only [System.announced]
    split
    · refine (ht.release hworker).enqueue fun h' hh' => ?_
      obtain rfl := Request.deleteKubernetesResources.inj hh'
      exact ht.announcing worker h hworker
    · exact ht.release hworker

/-! ### The recorded workers -/

/-- The workers recorded as available are those that wait, and they wait for want of work. -/
structure Recorded (s : System ω) : Prop where
  nodup : s.requestQueue.availableWorkers.Nodup
  mem_iff : ∀ worker, worker ∈ s.requestQueue.availableWorkers ↔ s.worker worker = .idle
  empty : s.requestQueue.availableWorkers ≠ [] → live s.requestQueue.queue = []

theorem Recorded.start : Recorded (start : System ω) := by
  constructor <;> simp [System.start, RequestQueue.empty]

theorem Recorded.admit [DecidableEq ω] (hc : Recorded s) {r : Request} {t : System ω}
    (h : Admits s r t) : Recorded t := by
  cases h with
  | queued hw => exact ⟨hc.nodup, hc.mem_iff, fun h => absurd hw h⟩
  | @handed worker workers hw =>
    have hnodup := hc.nodup
    rw [hw] at hnodup
    obtain ⟨hnotMem, hnodup⟩ := List.nodup_cons.mp hnodup
    refine ⟨hnodup, fun w => ?_, fun _ => hc.empty (by simp [hw])⟩
    by_cases heq : w = worker
    · subst heq
      simp [assign, hnotMem]
    · have := hc.mem_iff w
      rw [hw, List.mem_cons] at this
      simpa [assign, arrive, enqueue, heq] using this

theorem Recorded.finish [DecidableEq ω] (hc : Recorded s) {worker : ω} {r : Request}
    (hworker : s.worker worker = .processing r) : Recorded (s.finish worker r) := by
  have hidle : ∀ w, (s.finish worker r).worker w = .idle ↔ s.worker w = .idle := by
    intro w
    by_cases heq : w = worker
    · subst heq
      cases r <;> simp [System.finish, hworker]
    · cases r <;> simp [System.finish, heq]
  cases r <;> exact ⟨hc.nodup, fun w => (hc.mem_iff w).trans (hidle w).symm, hc.empty⟩

theorem announced_worker [DecidableEq ω] (worker : ω) (resourceHandler : Option ℕ) :
    (s.announced worker resourceHandler).worker = Function.update s.worker worker .idle := by
  cases resourceHandler with
  | none => rfl
  | some h => simp only [System.announced]; split <;> rfl

theorem announced_workers [DecidableEq ω] (worker : ω) (resourceHandler : Option ℕ) :
    (s.announced worker resourceHandler).requestQueue.availableWorkers =
      s.requestQueue.availableWorkers := by
  cases resourceHandler with
  | none => rfl
  | some h => simp only [System.announced]; split <;> rfl

/-- At most one deletion is added while others wait for work. -/
theorem announced_live [DecidableEq ω] (worker : ω) (resourceHandler : Option ℕ) :
    ∃ l : List Request, l.length ≤ 1 ∧
      live (s.announced worker resourceHandler).requestQueue.queue =
        live s.requestQueue.queue ++ l := by
  cases resourceHandler with
  | none => exact ⟨[], by simp, by simp [System.announced]⟩
  | some h =>
    simp only [System.announced]
    split
    · exact ⟨[_], le_rfl, live_concat _ _⟩
    · exact ⟨[], by simp, by simp [System.release]⟩

theorem Recorded.available [DecidableEq ω] (hc : Recorded s) {worker : ω}
    {resourceHandler : Option ℕ}
    (hworker : s.worker worker = .announcing resourceHandler) {t : System ω}
    (h : Dispatches (s.announced worker resourceHandler) worker t) : Recorded t := by
  have hnotMem : worker ∉ s.requestQueue.availableWorkers := by
    rw [hc.mem_iff, hworker]
    simp
  cases h with
  | recorded hlive =>
    refine ⟨?_, fun w => ?_, fun _ => rfl⟩
    · simp only [System.record, announced_workers]
      exact List.nodup_append.mpr ⟨hc.nodup, by simp, by grind⟩
    · simp only [System.record, announced_workers, announced_worker, List.mem_append,
        List.mem_singleton]
      by_cases heq : w = worker
      · simp [heq]
      · simp [heq, hc.mem_iff]
  | @handed r queue hsuffix hlive =>
    refine ⟨?_, fun w => ?_, fun hne => ?_⟩
    · simpa only [System.assign, announced_workers] using hc.nodup
    · simp only [System.assign, announced_workers, announced_worker]
      by_cases heq : w = worker
      · simp [heq, hnotMem]
      · simp [heq, hc.mem_iff]
    · obtain ⟨l, hl, hadd⟩ := announced_live (s := s) worker resourceHandler
      rw [hc.empty (by simpa only [System.assign, announced_workers] using hne), hlive,
        List.nil_append] at hadd
      rw [← hadd, List.length_cons] at hl
      exact List.eq_nil_of_length_eq_zero (Nat.le_zero.mp (Nat.le_of_succ_le_succ hl))

/-! ### Every step keeps the books -/

structure Booked (s : System ω) : Prop where
  arrivals : Arrivals s
  ordered : Ordered s
  flow : Flow s
  staffing : Staffing s
  recorded : Recorded s

theorem Booked.start : Booked (start : System ω) where
  arrivals := .start
  ordered := by intro x y _ hy; simp [System.start] at hy
  flow := .start
  staffing := .start
  recorded := .start

theorem Booked.admits [DecidableEq ω] (hb : Booked s) {r : Request} {t : System ω}
    (h : Admits s r t) (hnew : r ∉ s.arrived)
    (hafter : ∀ h, r = .deleteKubernetesResources h →
      .createKubernetesResources h ∈ s.arrived ∧ h ∈ s.finished)
    (hcancelled : r ∉ s.cancelled.map Request.createKubernetesResources) : Booked t := by
  have harrivals := hb.arrivals.admit hnew fun h hr => (hafter h hr).1
  have hordered := hb.ordered.admit hb.arrivals hnew
  have hflow := (hb.flow.arrive r).enqueue hcancelled
  have hstaffing := (hb.staffing.arrive r).enqueue fun h hr => (hafter h hr).2
  have hrecorded := hb.recorded.admit h
  cases h with
  | queued => exact ⟨harrivals, hordered, hflow, hstaffing, hrecorded⟩
  | @handed worker workers hw =>
    have hempty : live s.requestQueue.queue = [] := hb.recorded.empty (by simp [hw])
    have hlive : live ((s.arrive r).enqueue r).requestQueue.queue =
        r :: live s.requestQueue.queue := by
      simp [arrive, enqueue, live_concat, hempty]
    have hidle : s.worker worker = .idle := (hb.recorded.mem_iff worker).mp (by simp [hw])
    have hgiven : r ∉ ((s.arrive r).enqueue r).given := fun h' =>
      List.disjoint_of_nodup_append (hflow.nodup harrivals) h' (by simp [hlive])
    refine ⟨{ harrivals with }, hordered, hflow.assign harrivals hb.flow.sound hlive,
      hstaffing.assign ?_ hgiven, hrecorded⟩
    simp [arrive, enqueue, hidle, WorkerState.creating]

/-- What has not arrived is not pending. -/
theorem Booked.not_pending (hb : Booked s) {h : ℕ}
    (hnew : Request.createKubernetesResources h ∉ s.arrived) :
    h ∉ s.requestQueue.pendingResourceCreations := by
  rw [hb.flow.pending]
  exact fun h' => hnew (hb.arrivals.eligible_arrived _ (hb.flow.mem_iff.mp (.inr h')).1)

theorem Booked.create [DecidableEq ω] (hb : Booked s) {h : ℕ}
    (hnew : Request.createKubernetesResources h ∉ s.arrived) : Booked (s.create h) := by
  have hcancelled : Request.createKubernetesResources h ∉
      s.cancelled.map Request.createKubernetesResources := by
    intro h'
    obtain ⟨h'', hc, heq⟩ := List.mem_map.mp h'
    obtain rfl := Request.createKubernetesResources.inj heq
    exact hnew (hb.arrivals.after_creation _ (hb.arrivals.cancelled _ hc).1)
  exact hb.admits (create_admits (hb.not_pending hnew)) hnew (by simp) hcancelled

/-- An arrived creation that is neither pending nor in progress is finished. -/
theorem Booked.finished (hb : Booked s) {h : ℕ}
    (hafter : Request.createKubernetesResources h ∈ s.arrived)
    (hnew : Request.deleteKubernetesResources h ∉ s.arrived)
    (hpending : h ∉ s.requestQueue.pendingResourceCreations)
    (hprogress : h ∉ s.requestQueue.creationInProgress) : h ∈ s.finished := by
  have hkept : Request.createKubernetesResources h ∉
      s.cancelled.map Request.createKubernetesResources := by
    intro h'
    obtain ⟨h'', hc, heq⟩ := List.mem_map.mp h'
    obtain rfl := Request.createKubernetesResources.inj heq
    exact hnew (hb.arrivals.cancelled _ hc).1
  rcases hb.flow.mem_iff.mpr ⟨hb.arrivals.created h hafter, hkept⟩ with hgiven | hlive
  · exact (hb.staffing.finished h hgiven).resolve_left hprogress
  · exact absurd ((hb.flow.pending h).mpr hlive) hpending

theorem Booked.delete [DecidableEq ω] (hb : Booked s) {h : ℕ}
    (hafter : Request.createKubernetesResources h ∈ s.arrived)
    (hnew : Request.deleteKubernetesResources h ∉ s.arrived) : Booked (s.delete h) := by
  by_cases hpending : h ∈ s.requestQueue.pendingResourceCreations
  · rw [delete_cancels hpending]
    refine ⟨hb.arrivals.cancel hnew hafter, (hb.ordered.arrive hb.arrivals hnew).cancel h,
      ?_, (hb.staffing.arrive _).cancel h, ?_⟩
    · exact { hb.flow.cancel hb.arrivals hpending with }
    · refine ⟨hb.recorded.nodup, hb.recorded.mem_iff, fun hne => ?_⟩
      simp [System.cancel, arrive, live_cancel hb.flow.sound, hb.recorded.empty hne]
  · by_cases hprogress : h ∈ s.requestQueue.creationInProgress
    · rw [delete_blocks hpending hprogress]
      exact ⟨hb.arrivals.block hnew hafter, (hb.ordered.arrive hb.arrivals hnew).block h,
        (hb.flow.arrive _).block h, (hb.staffing.arrive _).block hprogress,
        { hb.recorded with }⟩
    · refine hb.admits (delete_admits hpending hprogress) hnew (fun h' hh => ?_) (by simp)
      obtain rfl := Request.deleteKubernetesResources.inj hh
      exact ⟨hafter, hb.finished hafter hnew hpending hprogress⟩

theorem Booked.finish [DecidableEq ω] (hb : Booked s) {worker : ω} {r : Request}
    (hworker : s.worker worker = .processing r) : Booked (s.finish worker r) := by
  have hstaffing := hb.staffing.finish hworker
  have hrecorded := hb.recorded.finish hworker
  cases r <;>
    exact ⟨{ hb.arrivals with }, hb.ordered, { hb.flow with }, hstaffing, hrecorded⟩

theorem Booked.available [DecidableEq ω] (hb : Booked s) {worker : ω}
    {resourceHandler : Option ℕ} (hworker : s.worker worker = .announcing resourceHandler) :
    Booked (s.available worker resourceHandler) := by
  have harrivals := hb.arrivals.announced worker resourceHandler
  have hordered := hb.ordered.announced hb.arrivals worker resourceHandler
  have hflow := hb.flow.announced worker resourceHandler
  have hstaffing := hb.staffing.announced hworker
  have hdispatch := available_dispatches (s := s) worker resourceHandler
  have hrecorded := hb.recorded.available hworker hdispatch
  generalize s.available worker resourceHandler = t at hdispatch hrecorded ⊢
  cases hdispatch with
  | recorded hlive =>
    exact ⟨{ harrivals with }, hordered, hflow.record hlive, hstaffing.record worker, hrecorded⟩
  | @handed r queue hsuffix hlive =>
    have hgiven : r ∉ (s.announced worker resourceHandler).given := fun h' =>
      List.disjoint_of_nodup_append (hflow.nodup harrivals) h' (by simp [hlive])
    refine ⟨{ harrivals with }, hordered,
      hflow.assign harrivals (fun e he => hflow.sound e (hsuffix.subset he)) hlive,
      hstaffing.assign ?_ hgiven, hrecorded⟩
    rw [announced_worker, Function.update_self]
    rfl

theorem Booked.step [DecidableEq ω] (hb : Booked s) {e : Event ω} {t : System ω}
    (h : Step s e t) : Booked t := by
  cases h with
  | create hnew => exact hb.create hnew
  | delete hafter hnew => exact hb.delete hafter hnew
  | finish hworker => exact hb.finish hworker
  | available hworker => exact hb.available hworker

/-! ### What is delivered -/

/-- What holds of the deliveries in a state. -/
structure Served (s : System ω) : Prop where
  once : s.given.Nodup
  arrived : ∀ r ∈ s.given, r ∈ s.arrived
  creation : ∀ h, Request.createKubernetesResources h ∈ s.arrived →
    .createKubernetesResources h ∈ s.given ∨ h ∈ s.cancelled ∨
      .createKubernetesResources h ∈ live s.requestQueue.queue
  deletion : ∀ h, Request.deleteKubernetesResources h ∈ s.arrived →
    .deleteKubernetesResources h ∈ s.given ∨ h ∈ s.cancelled ∨
      .deleteKubernetesResources h ∈ live s.requestQueue.queue ∨
        h ∈ s.requestQueue.blockedResourceDeletions ∧
          ∃ worker, (s.worker worker).creating = some h
  /-- What is live was not handed out. -/
  waiting : ∀ r ∈ live s.requestQueue.queue, r ∉ s.given
  /-- A deletion that resolved its creation is not handed out, and neither is the creation. -/
  cancelled : ∀ h ∈ s.cancelled, Request.deleteKubernetesResources h ∈ s.arrived ∧
    ∀ r : Request, r.handler = h → r ∉ s.given ∧ r ∉ live s.requestQueue.queue
  after_creation : ∀ h, .deleteKubernetesResources h ∈ s.given → h ∈ s.finished
  order : ∀ x y, Precedes s.arrived x y → y ∈ s.given →
    s.Held x ∨ x ∈ s.cancelled.map Request.createKubernetesResources ∨ Precedes s.given x y
  idle : ∀ worker, worker ∈ s.requestQueue.availableWorkers ↔ s.worker worker = .idle
  empty : s.requestQueue.availableWorkers ≠ [] → live s.requestQueue.queue = []

theorem Flow.given_eligible (hf : Flow s) {r : Request} (hr : r ∈ s.given) : r ∈ s.eligible :=
  (hf.mem_iff.mp (.inl hr)).1

theorem Booked.served (hb : Booked s) : Served s where
  once := (List.nodup_append.mp (hb.flow.nodup hb.arrivals)).1
  arrived r hr := hb.arrivals.eligible_arrived r (hb.flow.given_eligible hr)
  creation h hh := by
    by_cases hc : h ∈ s.cancelled
    · exact .inr (.inl hc)
    · have hkept : Request.createKubernetesResources h ∉
          s.cancelled.map Request.createKubernetesResources := by simpa using hc
      rcases hb.flow.mem_iff.mpr ⟨hb.arrivals.created h hh, hkept⟩ with hgiven | hlive
      · exact .inl hgiven
      · exact .inr (.inr hlive)
  deletion h hh := by
    rcases hb.arrivals.resolved h hh with heligible | hc | hblocked
    · rcases hb.flow.mem_iff.mpr ⟨heligible, by simp⟩ with hgiven | hlive
      · exact .inl hgiven
      · exact .inr (.inr (.inl hlive))
    · exact .inr (.inl hc)
    · exact .inr (.inr (.inr ⟨hblocked, (hb.staffing.inProgress h).mp
        (hb.staffing.blocked h hblocked)⟩))
  waiting r hr hgiven := List.disjoint_of_nodup_append (hb.flow.nodup hb.arrivals) hgiven hr
  cancelled h hc := by
    obtain ⟨harrived, hnot⟩ := hb.arrivals.cancelled h hc
    refine ⟨harrived, fun r hr => not_or.mp fun hmem => ?_⟩
    obtain ⟨heligible, hkept⟩ := hb.flow.mem_iff.mp hmem
    cases r with
    | createKubernetesResources h' =>
      obtain rfl : h' = h := hr
      exact hkept (List.mem_map.mpr ⟨h', hc, rfl⟩)
    | deleteKubernetesResources h' =>
      obtain rfl : h' = h := hr
      exact hnot heligible
  after_creation h hh := hb.staffing.deleted h (hb.flow.given_eligible hh)
  order x y hxy hy := by
    by_cases hcancelled : x ∈ s.cancelled.map Request.createKubernetesResources
    · exact .inr (.inl hcancelled)
    · obtain ⟨heligible, hkept⟩ := hb.flow.mem_iff.mp (.inl hy)
      refine (hb.ordered x y hxy heligible).imp_right fun h => .inr ?_
      have hfilter := h.filter (p := (· ∉ s.cancelled.map Request.createKubernetesResources))
        (by simpa using hcancelled) (by simpa using hkept)
      rw [← hb.flow.flow] at hfilter
      exact hfilter.of_append (hb.flow.nodup hb.arrivals) hy
  idle := hb.recorded.mem_iff
  empty := hb.recorded.empty

/-- What a step may note about a deletion that is not handed out in its turn. -/
structure Noted (x : Edge (System ω) (Event ω)) : Prop where
  cancels : ∀ h ∈ x.post.cancelled, h ∉ x.pre.cancelled →
    x.event = .delete h ∧ .createKubernetesResources h ∈ live x.pre.requestQueue.queue
  waits : ∀ h ∈ x.post.waited, h ∉ x.pre.waited →
    x.event = .delete h ∧ ∃ worker, (x.pre.worker worker).creating = some h

theorem Noted.of_history {s t : System ω} {e : Event ω} (hcancelled : t.cancelled = s.cancelled)
    (hwaited : t.waited = s.waited) : Noted ⟨s, e, t⟩ where
  cancels _ hpost hpre := absurd (hcancelled ▸ hpost) hpre
  waits _ hpost hpre := absurd (hwaited ▸ hpost) hpre

theorem Admits.noted [DecidableEq ω] {r : Request} {e : Event ω} {t : System ω}
    (h : Admits s r t) : Noted ⟨s, e, t⟩ := by
  cases h <;> exact .of_history rfl rfl

theorem announced_history [DecidableEq ω] (worker : ω) (resourceHandler : Option ℕ) :
    (s.announced worker resourceHandler).cancelled = s.cancelled ∧
      (s.announced worker resourceHandler).waited = s.waited := by
  cases resourceHandler with
  | none => exact ⟨rfl, rfl⟩
  | some h => simp only [System.announced]; split <;> exact ⟨rfl, rfl⟩

theorem Booked.noted [DecidableEq ω] (hb : Booked s) {e : Event ω} {t : System ω}
    (h : Step s e t) : Noted ⟨s, e, t⟩ := by
  cases h with
  | @create h hnew => exact (create_admits (hb.not_pending hnew)).noted
  | @delete h hafter hnew =>
    by_cases hpending : h ∈ s.requestQueue.pendingResourceCreations
    · rw [delete_cancels hpending]
      refine ⟨fun h' hpost hpre => ?_, fun h' hpost hpre => absurd hpost hpre⟩
      obtain rfl := List.mem_singleton.mp ((List.mem_append.mp hpost).resolve_left hpre)
      exact ⟨rfl, (hb.flow.pending h').mp hpending⟩
    · by_cases hprogress : h ∈ s.requestQueue.creationInProgress
      · rw [delete_blocks hpending hprogress]
        refine ⟨fun h' hpost hpre => absurd hpost hpre, fun h' hpost hpre => ?_⟩
        obtain rfl := List.mem_singleton.mp ((List.mem_append.mp hpost).resolve_left hpre)
        exact ⟨rfl, (hb.staffing.inProgress h').mp hprogress⟩
      · exact (delete_admits hpending hprogress).noted
  | @finish worker r hworker => cases r <;> exact .of_history rfl rfl
  | @available worker resourceHandler hworker =>
    obtain ⟨hcancelled, hwaited⟩ := announced_history (s := s) worker resourceHandler
    have hdispatch := available_dispatches (s := s) worker resourceHandler
    generalize s.available worker resourceHandler = t at hdispatch ⊢
    cases hdispatch <;> exact .of_history hcancelled hwaited

/-! ### Nothing is left undone -/

/-- What a worker has to do before it is recorded as available, and what handing out a request and
    releasing a blocked deletion cost. -/
def work [Fintype ω] (s : System ω) : ℕ :=
  ∑ worker, (s.worker worker).weight + 3 * (live s.requestQueue.queue).length +
    3 * s.requestQueue.blockedResourceDeletions.card

theorem sum_weight [Fintype ω] [DecidableEq ω] (worker : ω → WorkerState) (w : ω)
    (v : WorkerState) : ∑ w', (Function.update worker w v w').weight + (worker w).weight =
      ∑ w', (worker w').weight + v.weight := by
  have hupdate : ∀ w', (Function.update worker w v w').weight =
      Function.update (fun w' => (worker w').weight) w v.weight w' := by
    intro w'
    exact Function.apply_update (fun _ => WorkerState.weight) worker w v w'
  simp only [hupdate]
  rw [Finset.sum_update_of_mem (Finset.mem_univ w), Finset.sdiff_singleton_eq_erase,
    ← Finset.add_sum_erase Finset.univ (fun w' => (worker w').weight) (Finset.mem_univ w)]
  omega

theorem work_finish [Fintype ω] [DecidableEq ω] {worker : ω} {r : Request}
    (hworker : s.worker worker = .processing r) : (s.finish worker r).work < s.work := by
  have hsum : ∀ resourceHandler, ∑ w', (Function.update s.worker worker
      (.announcing resourceHandler) w').weight < ∑ w', (s.worker w').weight := by
    intro resourceHandler
    have := sum_weight s.worker worker (.announcing resourceHandler)
    rw [hworker, WorkerState.weight_processing, WorkerState.weight_announcing] at this
    omega
  cases r with
  | createKubernetesResources h => have := hsum (some h); simp only [work, System.finish]; omega
  | deleteKubernetesResources h => have := hsum none; simp only [work, System.finish]; omega

/-- Learning that a worker is available takes the announcement away and adds nothing. -/
theorem work_announced [Fintype ω] [DecidableEq ω] {worker : ω} {resourceHandler : Option ℕ}
    (hworker : s.worker worker = .announcing resourceHandler) :
    (s.announced worker resourceHandler).work + 1 = s.work := by
  have hsum := sum_weight s.worker worker .idle
  rw [hworker, WorkerState.weight_announcing, WorkerState.weight_idle] at hsum
  cases resourceHandler with
  | none => simp only [work, System.announced]; omega
  | some h =>
    simp only [System.announced]
    split
    · rename_i hblocked
      have hcard := Finset.card_erase_add_one hblocked
      simp only [work, release, enqueue, live_concat, List.length_append, List.length_singleton]
      omega
    · rename_i hblocked
      simp only [work, release, Finset.erase_eq_of_notMem hblocked]
      omega

theorem work_dispatches [Fintype ω] [DecidableEq ω] {worker : ω} {t : System ω}
    (hworker : s.worker worker = .idle) (h : Dispatches s worker t) : t.work ≤ s.work := by
  cases h with
  | recorded hlive => simp [work, System.record, hlive]
  | @handed r queue hsuffix hlive =>
    have hsum := sum_weight s.worker worker (.processing r)
    rw [hworker, WorkerState.weight_processing, WorkerState.weight_idle] at hsum
    simp only [work, System.assign, hlive, List.length_cons]
    omega

theorem work_step [Fintype ω] [DecidableEq ω] {e : Event ω} {t : System ω} (h : Step s e t)
    (he : e.ofWorker) : t.work < s.work := by
  cases h with
  | create => exact he.elim
  | delete => exact he.elim
  | finish hworker => exact work_finish hworker
  | @available worker resourceHandler hworker =>
    have hannounced := work_announced hworker
    have hdispatches := work_dispatches (by rw [announced_worker, Function.update_self])
      (available_dispatches (s := s) worker resourceHandler)
    omega

theorem work_run [Fintype ω] [DecidableEq ω] {tr : List (Edge (System ω) (Event ω))}
    {t : System ω} (h : Run Step s tr t) (htr : ∀ x ∈ tr, x.event.ofWorker) :
    tr.length + t.work ≤ s.work := by
  induction h with
  | nil => simp
  | cons hs _ ih =>
    have hstep := work_step hs (htr _ (List.mem_cons_self ..))
    have := ih fun x hx => htr x (List.mem_cons_of_mem _ hx)
    simp only [List.length_cons]
    omega

/-- Once no worker can go on, every request was handed out or resolved by a cancellation. -/
theorem Booked.complete [Nonempty ω] [DecidableEq ω] (hb : Booked s)
    (hend : ∀ e t, Event.ofWorker e → ¬ Step s e t) {r : Request} (hr : r ∈ s.arrived) :
    r ∈ s.given ∨ r.handler ∈ s.cancelled := by
  have hidle : ∀ worker, s.worker worker = .idle := by
    intro worker
    cases hw : s.worker worker with
    | idle => rfl
    | processing r => exact absurd (.finish hw) (hend (.finish worker) _ trivial)
    | announcing resourceHandler => exact absurd (.available hw) (hend (.available worker) _ trivial)
  have hlive : live s.requestQueue.queue = [] := by
    obtain ⟨worker⟩ := ‹Nonempty ω›
    exact hb.recorded.empty (List.ne_nil_of_mem ((hb.recorded.mem_iff worker).mpr (hidle worker)))
  have hserved := hb.served
  cases r with
  | createKubernetesResources h =>
    rcases hserved.creation h hr with h' | h' | h'
    · exact .inl h'
    · exact .inr h'
    · simp [hlive] at h'
  | deleteKubernetesResources h =>
    rcases hserved.deletion h hr with h' | h' | h' | ⟨-, worker, hw⟩
    · exact .inl h'
    · exact .inr h'
    · simp [hlive] at h'
    · simp [hidle, WorkerState.creating] at hw

/-- Without new requests the workers stop, and leave nothing undone. -/
structure Settles [Fintype ω] [DecidableEq ω] (s : System ω) : Prop where
  bounded : ∀ tr t, Run Step s tr t → (∀ x ∈ tr, x.event.ofWorker) → tr.length ≤ s.work
  complete : ∀ tr t, Run Step s tr t → (∀ e u, Event.ofWorker e → ¬ Step t e u) →
    ∀ r ∈ t.arrived, r ∈ t.given ∨ r.handler ∈ t.cancelled

end System

/-- CORRECT: along every run of pods and workers, a deletion is taken out of its turn only by a
    queued or running creation of its handler, deliveries are exclusive and in order in every state,
    and nothing that arrived is lost. -/
theorem requests_served {ω : Type} [Fintype ω] [Nonempty ω] [DecidableEq ω]
    {tr : List (Edge (System ω) (Event ω))} {s : System ω} (h : Run Step System.start tr s) :
    (∀ x ∈ tr, System.Noted x) ∧ s.Served ∧ s.Settles := by
  have hbooked := h.invariant (I := System.Booked) (fun s e t hb hs => hb.step hs) .start
  refine ⟨fun x hx => (hbooked.1 x hx).1.noted (h.step x hx), hbooked.2.served,
    fun tr' t h' htr' => ?_, fun tr' t h' hend r hr => ?_⟩
  · have := System.work_run h' htr'
    omega
  · have ht := (h'.invariant (I := System.Booked) (fun s e t hb hs => hb.step hs) hbooked.2).2
    exact ht.complete hend hr

/-- One worker: a pod's deletion cancels its queued creation, another's waits for its own. -/
theorem requests_served_one_worker : ∃ tr s,
    Run Step (System.start : System (Fin 1)) tr s ∧
      tr.map (·.event) = [.available 0, .create 7, .create 8, .delete 8, .delete 7, .finish 0,
        .available 0] ∧
      s.handed = [(0, .createKubernetesResources 7), (0, .deleteKubernetesResources 7)] ∧
      s.cancelled = [8] ∧ (∀ x ∈ tr, System.Noted x) ∧ s.Served ∧ s.Settles := by
  have run : Run Step (System.start : System (Fin 1)) _ _ :=
    .cons (e := .available 0) (.available rfl) (
    .cons (e := .create 7) (.create (by decide)) (
    .cons (e := .create 8) (.create (by decide)) (
    .cons (e := .delete 8) (.delete (by decide) (by decide)) (
    .cons (e := .delete 7) (.delete (by decide) (by decide)) (
    .cons (e := .finish 0) (.finish rfl) (
    .cons (e := .available 0) (.available rfl) (.nil _)))))))
  exact ⟨_, _, run, rfl, by decide +kernel, by decide +kernel, requests_served run⟩

end Determined.Kubernetes
