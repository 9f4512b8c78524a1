import Determined.Schemes.Run

/-! The request queue (`internal/kubernetes/request_queue.go`) between the pods and the workers that
    create and delete Kubernetes resources (`request_workers.go`).

    A pod is known by its handler. The queue's pointer from a pending creation to its entry is read
    as the entry that creates the resources of that handler. What the requests say of pods and
    config maps is passed on unread and left out. -/

namespace Determined.Kubernetes
open Determined.Schemes

inductive Request where
  | createKubernetesResources (handler : ℕ)
  | deleteKubernetesResources (handler : ℕ)
  deriving DecidableEq, Repr

def Request.handler : Request → ℕ
  | .createKubernetesResources handler | .deleteKubernetesResources handler => handler

/-- An entry of the queue; both fields are empty if its creation was cancelled. -/
structure QueuedResourceRequest where
  createResources : Option ℕ
  deleteResources : Option ℕ
  deriving DecidableEq, Repr

structure RequestQueue (ω : Type) where
  queue : List QueuedResourceRequest
  pendingResourceCreations : Finset ℕ
  availableWorkers : List ω
  creationInProgress : Finset ℕ
  blockedResourceDeletions : Finset ℕ

/-- What the queue sends: a request to a worker, or a notice to a handler. -/
inductive Sent (ω : Type) where
  | hand (worker : ω) (request : Request)
  | resourceCreationCancelled (handler : ℕ)
  deriving DecidableEq, Repr

namespace RequestQueue

variable {ω : Type} (r : RequestQueue ω)

def empty : RequestQueue ω := ⟨[], ∅, [], ∅, ∅⟩

def receiveCreateKubernetesResources (handler : ℕ) : RequestQueue ω × List (Sent ω) :=
  if handler ∈ r.pendingResourceCreations then (r, [])
  else match r.availableWorkers with
    | worker :: workers =>
      ({ r with
          creationInProgress := insert handler r.creationInProgress
          availableWorkers := workers },
        [.hand worker (.createKubernetesResources handler)])
    | [] =>
      ({ r with
          queue := r.queue ++ [⟨some handler, none⟩]
          pendingResourceCreations := insert handler r.pendingResourceCreations }, [])

/-- Empty the pending creation's entry, wherever it is in the queue. -/
def cancelEntry (handler : ℕ) (entry : QueuedResourceRequest) : QueuedResourceRequest :=
  if entry.createResources = some handler then { entry with createResources := none } else entry

def receiveDeleteKubernetesResources (handler : ℕ) : RequestQueue ω × List (Sent ω) :=
  if handler ∈ r.pendingResourceCreations then
    ({ r with
        queue := r.queue.map (cancelEntry handler)
        pendingResourceCreations := r.pendingResourceCreations.erase handler },
      [.resourceCreationCancelled handler])
  else if handler ∈ r.creationInProgress then
    ({ r with blockedResourceDeletions := insert handler r.blockedResourceDeletions }, [])
  else match r.availableWorkers with
    | worker :: workers =>
      ({ r with availableWorkers := workers },
        [.hand worker (.deleteKubernetesResources handler)])
    | [] => ({ r with queue := r.queue ++ [⟨none, some handler⟩] }, [])

/-- The creation is no longer in progress; a deletion it blocked is queued. -/
def release (resourceHandler : Option ℕ) : RequestQueue ω :=
  match resourceHandler with
  | none => r
  | some handler =>
    { r with
      creationInProgress := r.creationInProgress.erase handler
      queue := if handler ∈ r.blockedResourceDeletions then r.queue ++ [⟨none, some handler⟩]
        else r.queue
      blockedResourceDeletions := r.blockedResourceDeletions.erase handler }

/-- Hand the next request that was not cancelled to the worker, or note that it is available. -/
def dispatch (worker : ω) (r : RequestQueue ω) :
    List QueuedResourceRequest → RequestQueue ω × List (Sent ω)
  | [] => ({ r with queue := [], availableWorkers := r.availableWorkers ++ [worker] }, [])
  | next :: rest =>
    match next.createResources, next.deleteResources with
    | some handler, _ =>
      ({ r with
          queue := rest
          pendingResourceCreations := r.pendingResourceCreations.erase handler
          creationInProgress := insert handler r.creationInProgress },
        [.hand worker (.createKubernetesResources handler)])
    | none, some handler =>
      ({ r with queue := rest }, [.hand worker (.deleteKubernetesResources handler)])
    | none, none => dispatch worker r rest

def receiveWorkerAvailable (worker : ω) (resourceHandler : Option ℕ) :
    RequestQueue ω × List (Sent ω) :=
  let released := r.release resourceHandler
  dispatch worker released released.queue

end RequestQueue

/-! ### Pods, workers and the queue -/

/-- A worker is recorded as available, works on a request, or has told the queue that it is
    available (and of which creation it is done). -/
inductive WorkerState where
  | idle
  | processing (request : Request)
  | announcing (resourceHandler : Option ℕ)
  deriving DecidableEq, Repr

/-- The queue with its workers, and what has happened so far: the requests that arrived, those of
    them that could be handed out, in that order, and those that were; the handlers whose creation
    was cancelled, those whose creation a worker is done with, and those whose deletion had to wait.
    The code reads none of this history. -/
structure System (ω : Type) where
  requestQueue : RequestQueue ω
  worker : ω → WorkerState
  arrived : List Request
  eligible : List Request
  handed : List (ω × Request)
  cancelled : List ℕ
  finished : List ℕ
  waited : List ℕ

inductive Event (ω : Type) where
  | create (handler : ℕ)
  | delete (handler : ℕ)
  | finish (worker : ω)
  | available (worker : ω)
  deriving DecidableEq, Repr

/-- A step of a worker or of its announcement. -/
def Event.ofWorker {ω : Type} : Event ω → Prop
  | .create _ | .delete _ => False
  | .finish _ | .available _ => True

namespace System

variable {ω : Type} [DecidableEq ω]

/-- Every worker announces itself at start. -/
def start : System ω := ⟨.empty, fun _ => .announcing none, [], [], [], [], [], []⟩

/-- A message of the queue takes effect. -/
def sent (s : System ω) : Sent ω → System ω
  | .hand worker request =>
    { s with
      worker := Function.update s.worker worker (.processing request)
      handed := s.handed ++ [(worker, request)] }
  | .resourceCreationCancelled handler => { s with cancelled := s.cancelled ++ [handler] }

/-- The queue has handled a message. -/
def after (s : System ω) (r : RequestQueue ω × List (Sent ω)) : System ω :=
  r.2.foldl sent { s with requestQueue := r.1 }

/-- A creation arrives. -/
def create (s : System ω) (handler : ℕ) : System ω :=
  { s with
    arrived := s.arrived ++ [Request.createKubernetesResources handler]
    eligible := s.eligible ++ [Request.createKubernetesResources handler] }.after
      (s.requestQueue.receiveCreateKubernetesResources handler)

/-- A deletion arrives: it cancels its creation, waits for it, or can be handed out. -/
def delete (s : System ω) (handler : ℕ) : System ω :=
  let request := Request.deleteKubernetesResources handler
  let q := s.requestQueue
  { s with
    arrived := s.arrived ++ [request]
    eligible := if handler ∈ q.pendingResourceCreations ∨ handler ∈ q.creationInProgress
      then s.eligible else s.eligible ++ [request]
    waited := if handler ∉ q.pendingResourceCreations ∧ handler ∈ q.creationInProgress
      then s.waited ++ [handler] else s.waited }.after
      (q.receiveDeleteKubernetesResources handler)

/-- A worker is done with its request, and tells the queue. -/
def finish (s : System ω) (worker : ω) (request : Request) : System ω :=
  match request with
  | .createKubernetesResources handler =>
    { s with
      worker := Function.update s.worker worker (.announcing (some handler))
      finished := s.finished ++ [handler] }
  | .deleteKubernetesResources _ =>
    { s with worker := Function.update s.worker worker (.announcing none) }

/-- The queue learns that a worker is available; a deletion that waited for it can be handed out. -/
def available (s : System ω) (worker : ω) (resourceHandler : Option ℕ) : System ω :=
  { s with
    worker := Function.update s.worker worker .idle
    eligible := match resourceHandler with
      | some handler =>
        if handler ∈ s.requestQueue.blockedResourceDeletions
        then s.eligible ++ [Request.deleteKubernetesResources handler] else s.eligible
      | none => s.eligible }.after
      (s.requestQueue.receiveWorkerAvailable worker resourceHandler)

end System

/-- One step: a pod's request arrives (its creation once, its deletion at most once and after it), a
    worker finishes, or an announcement arrives. -/
inductive Step {ω : Type} [DecidableEq ω] : System ω → Event ω → System ω → Prop
  | create {s : System ω} {handler : ℕ} :
      Request.createKubernetesResources handler ∉ s.arrived →
        Step s (.create handler) (s.create handler)
  | delete {s : System ω} {handler : ℕ} : Request.createKubernetesResources handler ∈ s.arrived →
      Request.deleteKubernetesResources handler ∉ s.arrived →
        Step s (.delete handler) (s.delete handler)
  | finish {s : System ω} {worker : ω} {request : Request} :
      s.worker worker = .processing request → Step s (.finish worker) (s.finish worker request)
  | available {s : System ω} {worker : ω} {resourceHandler : Option ℕ} :
      s.worker worker = .announcing resourceHandler →
        Step s (.available worker) (s.available worker resourceHandler)

end Determined.Kubernetes
