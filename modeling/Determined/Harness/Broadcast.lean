import Determined.Harness.Check
import Determined.Schemes.Run

/-! The launcher of a container and its worker processes (`determined/ipc.py`,
    `determined/layers/_worker_process.py`, `determined/exec/worker_process.py`).

    The server publishes to all workers and pulls their answers from one socket, which takes the
    messages of each worker in the order they were sent and those of different workers in any. An
    event is what one party does at a time: a worker connects, takes a broadcast, answers it or
    fails; the launcher reads a message, returns from a gather, broadcasts the next workload, or finds that
    the processes died. Metrics and the arguments of workloads are passed on unread. -/

namespace Determined.Harness
open Determined.Schemes

variable {α β μ : Type} {n : ℕ}

/-! ### Messages -/

/-- `_SerialMessage`. -/
structure SerialMessage (α : Type) where
  serial : ℕ
  payload : α

/-- What a worker pushes to the server: a `_SerialMessage` or an `_ExceptionMessage`. -/
inductive ClientMessage (α : Type)
  | serial (message : SerialMessage α)
  | exception

inductive Workload.Kind
  | runStep
  | computeValidationMetrics
  | checkpointModel
  | terminate
  deriving DecidableEq

/-- A workload and its arguments, as they are broadcast. -/
structure Request (β : Type) where
  kind : Workload.Kind
  args : β

/-- `workload.Response`. -/
inductive Response (μ : Type)
  | skipped
  | metrics (m : μ)

/-- What a worker sends. -/
inductive Payload (μ : Type)
  | connected (processId : ℕ)
  | response (r : Response μ)

def Payload.isConnected : Payload μ → Bool
  | .connected _ => true
  | .response _ => false

/-! ### Server and client -/

theorem check.eq_self (val : ℤ) (reason : Option String) : check.eq.{0} val val reason = .ok ⟨⟩ :=
  check_eq_ok (decide_eq_true rfl)

structure ZMQBroadcastServer where
  numConnections : ℕ
  sendSerial : ℕ
  recvSerial : ℕ

namespace ZMQBroadcastServer

def init (numConnections : ℕ) : ZMQBroadcastServer := ⟨numConnections, 0, 0⟩

/-- The message that is published. -/
def broadcast (server : ZMQBroadcastServer) (obj : α) : SerialMessage α × ZMQBroadcastServer :=
  (⟨server.sendSerial, obj⟩, { server with sendSerial := server.sendSerial + 1 })

/-- The payload of a message, and whether it is an `_ExceptionMessage`. -/
def recvOne (server : ZMQBroadcastServer) : ClientMessage α → Except String (Option α × Bool)
  | .exception => .ok (none, true)
  | .serial message => do
    check.eq.{0} message.serial server.recvSerial "Out-of-order client message detected"
    .ok (some message.payload, false)

theorem recvOne_out_of_order {server : ZMQBroadcastServer} {message : SerialMessage α}
    (h : message.serial ≠ server.recvSerial) :
    ∃ e, server.recvOne (.serial message) = .error e := by
  have hfails : decide ((message.serial : ℤ) = server.recvSerial) = false := by
    simpa using h
  unfold recvOne check.eq check
  simp only [hfails]
  exact ⟨_, rfl⟩

end ZMQBroadcastServer

structure ZMQBroadcastClient where
  sendSerial : ℕ
  recvSerial : ℕ

namespace ZMQBroadcastClient

def init : ZMQBroadcastClient := ⟨0, 0⟩

/-- The message that is pushed. -/
def send (client : ZMQBroadcastClient) (obj : α) : ClientMessage α × ZMQBroadcastClient :=
  (.serial ⟨client.sendSerial, obj⟩, { client with sendSerial := client.sendSerial + 1 })

def recv (client : ZMQBroadcastClient) (obj : SerialMessage α) :
    Except String (α × ZMQBroadcastClient) := do
  check.eq.{0} obj.serial client.recvSerial "Out-of-order server message detected"
  .ok (obj.payload, { client with recvSerial := client.recvSerial + 1 })

end ZMQBroadcastClient

/-! ### Workers -/

/-- A worker creates its `SubprocessReceiver`, and then its controller takes one workload after the
    other. An exception ends it; the one raised by a check of `recv` has a message. -/
inductive WorkerPhase (β : Type)
  | starting
  | waiting
  | working (request : Request β)
  | raised (check : Option String)

/-- A worker process with its two sockets: the broadcasts it has not taken yet, and what it has
    pushed and the server has not pulled yet. `sent` is all it has ever pushed. -/
structure Worker (β μ : Type) where
  client : ZMQBroadcastClient
  phase : WorkerPhase β
  inbox : List (SerialMessage (Request β))
  outbox : List (ClientMessage (Payload μ))
  sent : List (ClientMessage (Payload μ))

namespace Worker

def init : Worker β μ := ⟨.init, .starting, [], [], []⟩

/-- Push a message and go on in another phase. -/
def push (w : Worker β μ) (message : ClientMessage (Payload μ)) (phase : WorkerPhase β) :
    Worker β μ :=
  { w with phase := phase, outbox := w.outbox ++ [message], sent := w.sent ++ [message] }

/-- `client.send`. -/
def send (w : Worker β μ) (obj : Payload μ) (phase : WorkerPhase β) : Worker β μ :=
  { w.push (w.client.send obj).1 phase with client := (w.client.send obj).2 }

/-- `SubprocessReceiver.__init__`. -/
def connect (w : Worker β μ) (processId : ℕ) : Option (Worker β μ) :=
  match w.phase with
  | .starting => some (w.send (.connected processId) .waiting)
  | _ => none

/-- The next workload of the `SubprocessReceiver`. A check that fails is an exception of the
    controller, which runs in the loop over the workloads. -/
def recv (w : Worker β μ) : Option (Worker β μ) :=
  match w.phase, w.inbox with
  | .waiting, message :: inbox =>
    match w.client.recv message with
    | .ok (request, client) =>
      some { w with client := client, phase := .working request, inbox := inbox }
    | .error e => some ({ w with inbox := inbox }.push .exception (.raised (some e)))
  | _, _ => none

/-- `_respond`. -/
def respond (w : Worker β μ) (message : Response μ) : Option (Worker β μ) :=
  match w.phase with
  | .working _ => some (w.send (.response message) .waiting)
  | _ => none

/-- The controller raises an exception, at work on a workload or between two of them. -/
def raise (w : Worker β μ) : Option (Worker β μ) :=
  match w.phase with
  | .waiting | .working _ => some (w.push .exception (.raised none))
  | _ => none

end Worker

/-! ### The launcher -/

/-- What `SubprocessLauncher.run` raises. Of a check other than that of a serial number the reason
    is kept, without the values. -/
inductive LauncherError
  | workerError (message : String)
  | checkFailed (message : String)

/-- The launcher is inside `gather_with_polling`, for the startup sequence (no request) or for a
    workload, with the messages gathered so far; between two workloads; done with the last workload;
    or it has raised an error, which closes the server. -/
inductive LauncherPhase (β μ : Type)
  | gathering (request : Option (Request β)) (messages : List (Option (Payload μ)))
  | idle
  | finished
  | raised (e : LauncherError)

/-- The launcher and all workers. `returned` is what the calls of `gather_with_polling` have
    returned so far, and `responses` what was passed up for the workloads. -/
structure Lockstep (n : ℕ) (β μ : Type) where
  rank : ℕ
  server : ZMQBroadcastServer
  launcher : LauncherPhase β μ
  returned : List (List (Option (Payload μ)) × Bool)
  responses : List (Option (Response μ))
  workers : Fin n → Worker β μ

/-- The response of the chief worker: the only one that is not skipped. -/
def chiefWorkerResponse (responses : List (Option (Payload μ))) : Except String (Option μ) :=
  responses.foldlM (fun chief response => match response with
    | some (.response .skipped) => .ok chief
    | some (.response (.metrics m)) => match chief with
      | none => .ok (some m)
      | some _ => .error "Received multiple non-SkippedWorkload messages."
    | some (.connected _) | none => .error "Received non-metrics object from worker") none

/-- The end of `_send_recv_workload`. -/
def workloadResponse (rank : ℕ) (responses : List (Option (Payload μ))) :
    Except String (Response μ) :=
  match chiefWorkerResponse responses with
  | .ok (some m) => .ok (.metrics m)
  | .ok none => if 0 < rank then .ok .skipped
    else .error "Received SkippedWorkload message from chief worker."
  | .error e => .error e

namespace Lockstep

/-- All processes are started, and the launcher is in its startup sequence. -/
def init (n rank : ℕ) : Lockstep n β μ :=
  { rank := rank, server := .init n, launcher := .gathering none [], returned := []
    responses := [], workers := fun _ => .init }

/-- The workloads end with the one that terminates (the socket to the master is closed then). -/
def afterWorkload (request : Request β) : LauncherPhase β μ :=
  match request.kind with
  | .terminate => .finished
  | _ => .idle

/-- `_do_startup_message_sequence` and `_send_recv_workload` after a gather. An empty response
    (`none`) is what a terminated worker process leaves. -/
def gathered (s : Lockstep n β μ) (request : Option (Request β))
    (messages : List (Option (Payload μ))) (exceptionReceived : Bool) : Lockstep n β μ :=
  let s := { s with returned := s.returned ++ [(messages, exceptionReceived)] }
  if exceptionReceived then
    { s with launcher := .raised (.workerError "Training process died.") }
  else match request with
  | none =>
    if messages.all (fun message => (message.map Payload.isConnected).getD false) then
      { s with launcher := .idle }
    else
      { s with
        launcher := .raised (.checkFailed "Did not receive ConnectedMessage from worker.") }
  | some request => match workloadResponse s.rank messages with
    | .ok response =>
      { s with
        launcher := afterWorkload request, responses := s.responses ++ [some response] }
    | .error e => { s with launcher := .raised (.checkFailed e) }

def setWorker (s : Lockstep n β μ) (w : Fin n) (worker : Worker β μ) : Lockstep n β μ :=
  { s with workers := Function.update s.workers w worker }

/-- `gather_with_polling` finds a message of the worker first. -/
def receive (s : Lockstep n β μ) (w : Fin n) : Option (Lockstep n β μ) :=
  match s.launcher, (s.workers w).outbox with
  | .gathering request messages, message :: outbox =>
    if messages.length < s.server.numConnections then
      let s := s.setWorker w { s.workers w with outbox := outbox }
      match s.server.recvOne message with
      | .ok (payload, true) => some (s.gathered request (messages ++ [payload]) true)
      | .ok (payload, false) =>
        some { s with launcher := .gathering request (messages ++ [payload]) }
      | .error e => some { s with launcher := .raised (.checkFailed e) }
    else none
  | _, _ => none

/-- `gather_with_polling` has a message for each connection. -/
def complete (s : Lockstep n β μ) : Option (Lockstep n β μ) :=
  match s.launcher with
  | .gathering request messages =>
    if messages.length < s.server.numConnections then none
    else some ({ s with server := { s.server with recvSerial := s.server.recvSerial + 1 } }.gathered
      request messages false)
  | _ => none

/-- No message has arrived for a while, and the health check raises. -/
def unhealthy (s : Lockstep n β μ) : Option (Lockstep n β μ) :=
  match s.launcher with
  | .gathering request messages =>
    if messages.length < s.server.numConnections then
      match request with
      | some ⟨.terminate, _⟩ =>
        some { s with launcher := .finished, responses := s.responses ++ [none] }
      | _ => some { s with launcher := .raised (.workerError "Training process died.") }
    else none
  | _ => none

/-- The next workload: every worker gets the broadcast, and its responses are gathered. -/
def broadcast (s : Lockstep n β μ) (request : Request β) : Option (Lockstep n β μ) :=
  match s.launcher with
  | .idle =>
    let (message, server) := s.server.broadcast request
    some { s with
      server := server
      launcher := .gathering (some request) []
      workers := fun w => { s.workers w with inbox := (s.workers w).inbox ++ [message] } }
  | _ => none

inductive Event (n : ℕ) (β μ : Type)
  | connect (w : Fin n) (processId : ℕ)
  | recv (w : Fin n)
  | respond (w : Fin n) (message : Response μ)
  | raise (w : Fin n)
  | receive (w : Fin n)
  | complete
  | unhealthy
  | broadcast (request : Request β)

def step (s : Lockstep n β μ) : Event n β μ → Option (Lockstep n β μ)
  | .connect w processId => ((s.workers w).connect processId).map (s.setWorker w)
  | .recv w => (s.workers w).recv.map (s.setWorker w)
  | .respond w message => ((s.workers w).respond message).map (s.setWorker w)
  | .raise w => (s.workers w).raise.map (s.setWorker w)
  | .receive w => s.receive w
  | .complete => s.complete
  | .unhealthy => s.unhealthy
  | .broadcast request => s.broadcast request

/-- Any party may move next. -/
def Step (s : Lockstep n β μ) (e : Event n β μ) (t : Lockstep n β μ) : Prop := s.step e = some t

end Lockstep

end Determined.Harness
