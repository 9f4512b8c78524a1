import Determined.Schemes.Arena
import Determined.Schemes.Run

/-! The actor system: references, their inboxes, the registry of addresses and the futures of asks.

    Every actor runs on a goroutine of its own. One event of the model is what a goroutine does
    between two points where others can see it: a message enters an inbox, an actor takes the next
    one, its `Receive` returns, one step of its shutdown. Any order of events that are enabled is a
    run. `Receive` itself is arbitrary: while it runs it may create and kill children, respond, and
    end in any way, and anyone may send anything at any time. -/

namespace Determined.Actor

open Schemes

/-- Where an actor lives: its local id and those of its ancestors, innermost first. -/
abbrev Address (κ : Type*) := List κ

def rootAddress {κ : Type*} : Address κ := []

def Address.child {κ : Type*} (a : Address κ) (id : κ) : Address κ := id :: a

/-- A `*Ref`: the number of the actor, in order of creation. -/
abbrev RefId := ℕ

inductive Error (κ : Type*) where
  | raised (text : String)
  | unexpectedMessage
  | panicked
  /-- `errors.Wrapf(tErr, "error closing child: %s", id)` -/
  | closingChild (id : Address κ) (cause : Error κ)
  /-- `errors.Wrap(r.err, err.Error())` -/
  | wrapped (cause reason : Error κ)
  deriving DecidableEq, Repr

/-- What anyone can send: the exported `Ping`, or a message of the actor's own protocol. -/
inductive Payload (μ : Type*) where
  | ping
  | user (message : μ)
  deriving DecidableEq, Repr

inductive Message (κ μ : Type*) where
  | payload (p : Payload μ)
  | createChild (address : Address κ)
  | childFailed (child : RefId) (error : Error κ)
  | childStopped (child : RefId)
  | stop
  deriving DecidableEq, Repr

/-- What an ask can be answered with. -/
inductive Answer (μ : Type*) where
  | reply (message : μ)
  | ping
  | childCreated (child : RefId) (created : Bool)
  /-- `errNoResponse` -/
  | noResponse
  deriving DecidableEq, Repr

/-- A message in an inbox or in the hands of its recipient. `result` is the future of an ask. -/
structure Context (κ μ : Type*) where
  message : Message κ μ
  sender : Option RefId
  result : Option ℕ
  resultSent : Bool
  deriving DecidableEq, Repr

def Context.expectingResponse {κ μ : Type*} (c : Context κ μ) : Bool :=
  c.result.isSome && !c.resultSent

/-- Where the goroutine of an actor is. -/
inductive Phase (κ μ : Type*) where
  /-- in `Receive` with `PreStart` -/
  | starting
  /-- in `inbox.get` -/
  | receiving
  /-- in `Receive` with a message -/
  | handling (ctx : Context κ μ)
  /-- in `Receive` with the `ChildFailed` or `ChildStopped` the message brings -/
  | notified (ctx : Context κ μ)
  /-- `run` is over, `close` does not hold the lock yet -/
  | exiting
  /-- in the first loop of `close`: these children are still to be told to stop -/
  | stopping (left : List (Address κ × RefId))
  /-- in the second loop of `close`, perhaps inside `AwaitTermination` of a child -/
  | awaiting (left : List (Address κ × RefId)) (current : Option (Address κ × ℕ))
  /-- in `Receive` with `PostStop` -/
  | cleaning
  /-- the parent has been told; the listeners are being notified -/
  | releasing
  | shutdown
  deriving DecidableEq, Repr

structure Ref (κ μ : Type*) where
  address : Address κ
  parent : Option RefId
  children : List (Address κ × RefId)
  deadChildren : Finset (Address κ)
  inbox : List (Context κ μ)
  /-- `inbox.closed` -/
  closed : Bool
  err : Option (Error κ)
  /-- the calls of `AwaitTermination` that wait on a channel -/
  listeners : List ℕ
  phase : Phase κ μ
  deriving DecidableEq

/-- The future of an ask, and what its reader has fetched. A refused ask has no channel. -/
structure Response (μ : Type*) where
  source : Option RefId
  future : Option (List (Answer μ))
  fetched : Bool
  result : Option (Answer μ)
  deriving DecidableEq, Repr

def emptyResponse {μ : Type*} (source : Option RefId) : Response μ :=
  ⟨source, none, true, some .noResponse⟩

/-- Everything the response has been resolved with. -/
def Response.resolutions {μ : Type*} (r : Response μ) : List (Answer μ) :=
  r.future.getD r.result.toList

/-- A call of `AwaitTermination`: whether it got past the lock, and what it returned. -/
structure Await (κ : Type*) where
  target : RefId
  listening : Bool
  returned : List (Option (Error κ))
  deriving DecidableEq, Repr

structure System (κ μ : Type*) where
  actors : Arena (Ref κ μ)
  refs : Address κ → Option RefId
  responses : Arena (Response μ)
  awaits : Arena (Await κ)

/-- How a call of `Receive` ends. -/
inductive Ending where
  | ok
  /-- it returns `ErrUnexpectedMessage` -/
  | unexpected
  | failed (text : String)
  | panicked
  deriving DecidableEq, Repr

inductive Event (κ μ : Type*) where
  | tell (sender : Option RefId) (target : RefId) (p : Payload μ)
  | ask (sender : Option RefId) (target : RefId) (p : Payload μ)
  | stop (target : RefId)
  /-- `System.ActorOf` with the address of `id` under `parent` -/
  | actorOf (parent : Address κ) (id : κ)
  /-- someone calls `AwaitTermination` -/
  | awaitTermination (target : RefId)
  /-- that call gets the lock -/
  | enter (call : ℕ)
  /-- the sender of an ask reads its response -/
  | get (ask : ℕ)
  /-- `Context.ActorOf`, in a `Receive` of `r` -/
  | createChild (r : RefId) (id : κ)
  | kill (r : RefId) (id : κ)
  | respond (r : RefId) (message : μ)
  /-- `Receive` of `r` is over -/
  | finish (r : RefId) (ending : Ending)
  | processMessage (r : RefId)
  | close (r : RefId)
  | stopChild (r : RefId) (child : Address κ × RefId)
  | awaitChild (r : RefId) (child : Address κ × RefId)
  | reapChild (r : RefId)
  | postStop (r : RefId)
  | release (r : RefId)
  deriving DecidableEq, Repr

variable {κ μ : Type*}

section

variable [DecidableEq κ]

/-! ### One actor -/

namespace Phase

/-- `Receive` is running. -/
def inReceive : Phase κ μ → Bool
  | .starting | .handling _ | .notified _ | .cleaning => true
  | _ => false

/-- `close` holds `lLock`. -/
def locked : Phase κ μ → Bool
  | .stopping _ | .awaiting _ _ | .cleaning | .releasing => true
  | _ => false

/-- The actor has not left the loop of `run`. -/
def running : Phase κ μ → Bool
  | .starting | .receiving | .handling _ | .notified _ => true
  | _ => false

/-- The parent has been told that the actor is gone. -/
def reported : Phase κ μ → Bool
  | .releasing | .shutdown => true
  | _ => false

/-- The loops of `close` when these children are still to be stopped. -/
def stopLoop (left children : List (Address κ × RefId)) : Phase κ μ :=
  if left = [] then .awaiting children none else .stopping left

end Phase

def newRef (parent : Option RefId) (address : Address κ) : Ref κ μ :=
  ⟨address, parent, [], ∅, [], false, none, [], .starting⟩

namespace Ref

/-- What stands at the numbers no actor has been given yet. -/
def absent : Ref κ μ := ⟨rootAddress, none, [], ∅, [], true, none, [], .shutdown⟩

def child (r : Ref κ μ) (address : Address κ) : Option RefId :=
  (r.children.find? fun c => c.1 = address).map Prod.snd

/-- `inbox.tell`, and the accepting branch of `inbox.ask` -/
def add (r : Ref κ μ) (ctx : Context κ μ) : Ref κ μ :=
  if r.closed then r else { r with inbox := r.inbox ++ [ctx] }

/-- Leave the loop of `run`, with `r.err` set. -/
def exit (r : Ref κ μ) (err : Option (Error κ)) : Ref κ μ :=
  { r with err := err, phase := .exiting }

/-- The loop of `run` after `sendInternalMessage`: `errUnexpectedMessage` is ignored. -/
def afterInternal (r : Ref κ μ) : Ending → Ref κ μ
  | .ok | .unexpected => { r with phase := .receiving }
  | .failed text => r.exit (some (.raised text))
  | .panicked => r.exit (some .panicked)

/-- The loop of `run` after `Receive`: any error ends it. -/
def afterReceive (r : Ref κ μ) : Ending → Ref κ μ
  | .ok => { r with phase := .receiving }
  | .unexpected => r.exit (some .unexpectedMessage)
  | .failed text => r.exit (some (.raised text))
  | .panicked => r.exit (some .panicked)

end Ref

def Response.send (r : Response μ) (answer : Answer μ) : Response μ :=
  { r with future := r.future.map (· ++ [answer]) }

/-- `response.get`; `none`: it blocks. -/
def Response.get (r : Response μ) : Option (Response μ) :=
  if r.fetched then some r
  else match r.future with
    | some (answer :: _) => some { r with fetched := true, result := some answer }
    | _ => none

/-! ### The system -/

namespace System

variable (s : System κ μ)

/-- `NewSystemWithRoot` -/
def new : System κ μ where
  actors := Arena.add ⟨0, fun _ => Ref.absent⟩ (newRef none rootAddress)
  refs := fun _ => none
  responses := ⟨0, fun _ => emptyResponse none⟩
  awaits := ⟨0, fun _ => ⟨0, false, []⟩⟩

def ref (r : RefId) : Ref κ μ := s.actors.get r

def modify (r : RefId) (f : Ref κ μ → Ref κ μ) : System κ μ :=
  { s with actors := s.actors.modify f r }

def get (address : Address κ) : Option RefId :=
  if address = rootAddress then some 0 else s.refs address

def tell (sender : Option RefId) (target : RefId) (message : Message κ μ) : System κ μ :=
  s.modify target (·.add ⟨message, sender, none, false⟩)

/-- `inbox.ask`: refused by a closed inbox, else a future that goes with the message -/
def ask (sender : Option RefId) (target : RefId) (message : Message κ μ) : System κ μ :=
  if (s.ref target).closed then
    { s with responses := s.responses.add (emptyResponse sender) }
  else
    { s.modify target (·.add ⟨message, sender, some s.responses.size, false⟩) with
      responses := s.responses.add ⟨some target, some [], false, none⟩ }

/-- `Ref.Stop` -/
def stop (target : RefId) : System κ μ := s.tell none target .stop

/-- `Context.Respond`, where a response is expected -/
def respond (ctx : Context κ μ) (answer : Answer μ) : System κ μ :=
  match ctx.result with
  | some ask => { s with responses := s.responses.modify (·.send answer) ask }
  | none => s

/-- The deferred fallback of `processMessage`, and the drain of `inbox.close` -/
def fallback (ctx : Context κ μ) : System κ μ :=
  if ctx.expectingResponse then s.respond ctx .noResponse else s

/-- `Ref.createChild` -/
def createChild (r : RefId) (address : Address κ) : System κ μ × RefId × Bool :=
  match (s.ref r).child address with
  | some existing => (s, existing, false)
  | none =>
    let child := s.actors.size
    ({ s with
        actors := (s.actors.add (newRef (some r) address)).modify
          (fun p => { p with children := (address, child) :: p.children }) r
        refs := Function.update s.refs address (some child) }, child, true)

/-- `Ref.deleteChild` -/
def deleteChild (r : RefId) (address : Address κ) : System κ μ :=
  { s.modify r (fun p => { p with children := p.children.filter (·.1 ≠ address) }) with
    refs := Function.update s.refs address none }

/-- `Context.Kill` -/
def kill (r : RefId) (id : κ) : System κ μ :=
  let address := (s.ref r).address.child id
  match (s.ref r).child address with
  | some child =>
    (s.modify r fun p =>
      { p with
        children := p.children.filter (·.1 ≠ address)
        deadChildren := insert address p.deadChildren }).stop child
  | none => s

/-- `ChildFailed` and `ChildStopped` in `processMessage` -/
def childGone (r : RefId) (ctx : Context κ μ) (child : RefId) : System κ μ :=
  let address := (s.ref child).address
  if address ∈ (s.ref r).deadChildren then
    (s.modify r fun p => { p with deadChildren := p.deadChildren.erase address }).fallback ctx
  else
    (s.deleteChild r address).modify r fun p => { p with phase := .notified ctx }

/-- The actor `ctx` comes from has been killed by `r`. -/
def fromDeadChild (r : RefId) (ctx : Context κ μ) : Bool :=
  ctx.sender.any fun sender => (s.ref sender).address ∈ (s.ref r).deadChildren

/-- What `processMessage` does with the message it got. -/
def receive (r : RefId) (ctx : Context κ μ) : System κ μ :=
  match ctx.message with
  | .payload .ping =>
    -- `Respond` panics on a `Ping` that nobody asked
    if ctx.result.isSome then s.respond ctx .ping
    else s.modify r (·.exit (some .panicked))
  | .createChild address =>
    let (s', child, created) := s.createChild r address
    if ctx.result.isSome then s'.respond ctx (.childCreated child created)
    else s'.modify r (·.exit (some .panicked))
  | .childFailed child _ | .childStopped child => s.childGone r ctx child
  | .stop => (s.fallback ctx).modify r fun p => { p with phase := .exiting }
  | .payload (.user _) =>
    if s.fromDeadChild r ctx then s.fallback ctx
    else s.modify r fun p => { p with phase := .handling ctx }

def processMessage (r : RefId) : Option (System κ μ) :=
  match (s.ref r).phase, (s.ref r).inbox with
  | .receiving, ctx :: rest =>
    some ((s.modify r fun p => { p with inbox := rest }).receive r ctx)
  | _, _ => none

/-- `Respond` in a `Receive` that has not responded yet -/
def answer (r : RefId) (message : μ) : Option (System κ μ) :=
  match (s.ref r).phase with
  | .handling ctx =>
    if ctx.expectingResponse then
      some ((s.respond ctx (.reply message)).modify r fun p =>
        { p with phase := .handling { ctx with resultSent := true } })
    else none
  | _ => none

/-- The end of `close` before the listeners: the error of `PostStop`, and the word to the parent -/
def report (r : RefId) (failure : Option (Error κ)) : System κ μ :=
  let err := match (s.ref r).err, failure with
    | some err, some reason => some (.wrapped err reason)
    | some err, none => some err
    | none, failure => failure
  let s' := s.modify r fun p => { p with err := err, phase := .releasing }
  match (s.ref r).parent, err with
  | some parent, some err => s'.tell (some r) parent (.childFailed r err)
  | some parent, none => s'.tell (some r) parent (.childStopped r)
  | none, _ => s'

/-- `Receive` of `r` is over. A panic in `PostStop` is not recovered from. -/
def finish (r : RefId) (ending : Ending) : Option (System κ μ) :=
  match (s.ref r).phase, ending with
  | .starting, ending => some (s.modify r (·.afterInternal ending))
  | .handling ctx, ending => some ((s.fallback ctx).modify r (·.afterReceive ending))
  | .notified ctx, ending => some ((s.fallback ctx).modify r (·.afterInternal ending))
  | .cleaning, .ok | .cleaning, .unexpected => some (s.report r none)
  | .cleaning, .failed text => some (s.report r (some (.raised text)))
  | _, _ => none

/-- `close` up to its first loop: take the lock, drain the inbox -/
def close (r : RefId) : Option (System κ μ) :=
  match (s.ref r).phase with
  | .exiting =>
    some (((s.ref r).inbox.foldl fallback s).modify r fun p =>
      { p with
        inbox := []
        closed := true
        phase := Phase.stopLoop p.children p.children })
  | _ => none

def stopChild (r : RefId) (child : Address κ × RefId) : Option (System κ μ) :=
  match (s.ref r).phase with
  | .stopping left =>
    if child ∈ left then
      some ((s.modify r fun p =>
        { p with phase := Phase.stopLoop (left.erase child) p.children }).stop child.2)
    else none
  | _ => none

/-- A new call of `AwaitTermination`. -/
def await (target : RefId) : System κ μ :=
  { s with awaits := s.awaits.add ⟨target, false, []⟩ }

def awaitChild (r : RefId) (child : Address κ × RefId) : Option (System κ μ) :=
  match (s.ref r).phase with
  | .awaiting left none =>
    if child ∈ left then
      some ((s.await child.2).modify r fun p =>
        { p with phase := .awaiting (left.erase child) (some (child.1, s.awaits.size)) })
    else none
  | _ => none

/-- `AwaitTermination` of the child has returned; `deleteChild` is given the actor's own address. -/
def reapChild (r : RefId) : Option (System κ μ) :=
  match (s.ref r).phase with
  | .awaiting left (some (id, call)) =>
    match (s.awaits.get call).returned with
    | [] => none
    | failure :: _ =>
      some (((s.modify r fun p =>
        { p with
          err := match failure with
            | some err => some (.closingChild id err)
            | none => p.err
          phase := .awaiting left none })).deleteChild r (s.ref r).address)
  | _ => none

def postStop (r : RefId) : Option (System κ μ) :=
  match (s.ref r).phase with
  | .awaiting [] none => some (s.modify r fun p => { p with phase := .cleaning })
  | _ => none

/-- The call returns `err`. -/
def returnAwait (call : ℕ) (err : Option (Error κ)) : System κ μ :=
  { s with awaits := s.awaits.modify (fun a => { a with returned := a.returned ++ [err] }) call }

/-- Notify the next listener, or finish the shutdown. -/
def release (r : RefId) : Option (System κ μ) :=
  match (s.ref r).phase, (s.ref r).listeners with
  | .releasing, call :: rest =>
    some ((s.modify r fun p => { p with listeners := rest }).returnAwait call (s.ref r).err)
  | .releasing, [] => some (s.modify r fun p => { p with phase := .shutdown })
  | _, _ => none

/-- `AwaitTermination` gets the lock: it returns the error, or registers a listener. -/
def enter (call : ℕ) : Option (System κ μ) :=
  let target := (s.awaits.get call).target
  let s' := { s with awaits := s.awaits.modify (fun a => { a with listening := true }) call }
  if call < s.awaits.size ∧ (s.awaits.get call).listening = false then
    match (s.ref target).phase with
    | .shutdown => some (s'.returnAwait call (s.ref target).err)
    | .stopping _ | .awaiting _ _ | .cleaning | .releasing => none
    | _ => some (s'.modify target fun p => { p with listeners := p.listeners ++ [call] })
  else none

/-- `System.ActorOf`, up to the ask -/
def actorOf (parent : Address κ) (id : κ) : System κ μ :=
  match s.get parent with
  | some p => s.ask none p (.createChild (parent.child id))
  | none => s

def readResponse (ask : ℕ) : Option (System κ μ) :=
  (s.responses.get ask).get.map fun r => { s with responses := s.responses.modify (fun _ => r) ask }

def step : Event κ μ → Option (System κ μ)
  | .tell sender target p =>
    if target < s.actors.size then some (s.tell sender target (.payload p)) else none
  | .ask sender target p =>
    if target < s.actors.size then some (s.ask sender target (.payload p)) else none
  | .stop target => if target < s.actors.size then some (s.stop target) else none
  | .actorOf parent id => some (s.actorOf parent id)
  | .awaitTermination target => if target < s.actors.size then some (s.await target) else none
  | .enter call => s.enter call
  | .get ask => if ask < s.responses.size then s.readResponse ask else none
  | .createChild r id =>
    if (s.ref r).phase.inReceive then some (s.createChild r ((s.ref r).address.child id)).1 else none
  | .kill r id => if (s.ref r).phase.inReceive then some (s.kill r id) else none
  | .respond r message => s.answer r message
  | .finish r ending => s.finish r ending
  | .processMessage r => s.processMessage r
  | .close r => s.close r
  | .stopChild r child => s.stopChild r child
  | .awaitChild r child => s.awaitChild r child
  | .reapChild r => s.reapChild r
  | .postStop r => s.postStop r
  | .release r => s.release r

/-- One event of the actor system. -/
def Step (s : System κ μ) (e : Event κ μ) (s' : System κ μ) : Prop := s.step e = some s'

end System

end

/-! ### What the operations touch -/

namespace System

variable {s : System κ μ} {r i : RefId} {f : Ref κ μ → Ref κ μ}

@[simp] theorem ref_modify : (s.modify r f).ref i = if i = r then f (s.ref i) else s.ref i :=
  Arena.get_modify ..

@[simp] theorem modify_refs : (s.modify r f).refs = s.refs := rfl

@[simp] theorem modify_size : (s.modify r f).actors.size = s.actors.size := rfl

@[simp] theorem modify_responses : (s.modify r f).responses = s.responses := rfl

@[simp] theorem modify_awaits : (s.modify r f).awaits = s.awaits := rfl

variable {ctx : Context κ μ} {answer : Answer μ}

@[simp] theorem respond_actors : (s.respond ctx answer).actors = s.actors := by
  unfold respond
  split <;> rfl

@[simp] theorem respond_refs : (s.respond ctx answer).refs = s.refs := by
  unfold respond
  split <;> rfl

@[simp] theorem respond_awaits : (s.respond ctx answer).awaits = s.awaits := by
  unfold respond
  split <;> rfl

@[simp] theorem ref_respond : (s.respond ctx answer).ref i = s.ref i := by
  simp [ref]

@[simp] theorem fallback_actors : (s.fallback ctx).actors = s.actors := by
  unfold fallback
  split <;> simp

@[simp] theorem fallback_refs : (s.fallback ctx).refs = s.refs := by
  unfold fallback
  split <;> simp

@[simp] theorem fallback_awaits : (s.fallback ctx).awaits = s.awaits := by
  unfold fallback
  split <;> simp

@[simp] theorem ref_fallback : (s.fallback ctx).ref i = s.ref i := by
  simp [ref]

/-- Draining an inbox only resolves futures. -/
theorem drain_spec (queue : List (Context κ μ)) :
    (queue.foldl fallback s).actors = s.actors ∧ (queue.foldl fallback s).refs = s.refs ∧
      (queue.foldl fallback s).awaits = s.awaits := by
  induction queue generalizing s with
  | nil => exact ⟨rfl, rfl, rfl⟩
  | cons ctx rest ih =>
    obtain ⟨hactors, hrefs, hawaits⟩ := ih (s := s.fallback ctx)
    simp only [List.foldl_cons, hactors, hrefs, hawaits]
    simp

variable {sender : Option RefId} {target : RefId} {message : Message κ μ}

@[simp] theorem ref_tell : (s.tell sender target message).ref i =
    if i = target then (s.ref i).add ⟨message, sender, none, false⟩ else s.ref i :=
  ref_modify

/-- A refused ask leaves the inbox as it is, as does adding to a closed one. -/
@[simp] theorem ref_ask : (s.ask sender target message).ref i =
    if i = target then (s.ref i).add ⟨message, sender, some s.responses.size, false⟩
    else s.ref i := by
  unfold ask
  split
  · rename_i hclosed
    by_cases hi : i = target
    · subst hi
      simp only [if_true, Ref.add, if_pos hclosed]
      rfl
    · rw [if_neg hi]
      rfl
  · simp only [modify, ref, Arena.get_modify]

@[simp] theorem ask_refs : (s.ask sender target message).refs = s.refs := by
  unfold ask
  split <;> rfl

@[simp] theorem ask_size : (s.ask sender target message).actors.size = s.actors.size := by
  unfold ask
  split <;> rfl

@[simp] theorem ask_awaits : (s.ask sender target message).awaits = s.awaits := by
  unfold ask
  split <;> rfl

variable [DecidableEq κ] {address : Address κ}

/-- `createChild` finds the child, or gives the address to a new actor. -/
theorem createChild_cases : (s.createChild r address).1 = s ∨
    ((s.ref r).child address = none ∧
      (s.createChild r address).1.actors.size = s.actors.size + 1 ∧
      (s.createChild r address).1.refs = Function.update s.refs address (some s.actors.size) ∧
      (s.createChild r address).1.responses = s.responses ∧
      (s.createChild r address).1.awaits = s.awaits ∧
      ∀ i, (s.createChild r address).1.ref i =
        let before := if i = s.actors.size then newRef (some r) address else s.ref i
        if i = r then { before with children := (address, s.actors.size) :: before.children }
        else before) := by
  unfold createChild
  split
  · exact .inl rfl
  · rename_i hnone
    refine .inr ⟨hnone, rfl, rfl, rfl, rfl, fun i => ?_⟩
    simp only [ref, Arena.get_modify, Arena.get_add]

theorem ref_deleteChild : (s.deleteChild r address).ref i =
    if i = r then { s.ref i with children := (s.ref i).children.filter (·.1 ≠ address) }
    else s.ref i := by
  simp only [deleteChild, modify, ref, Arena.get_modify]

end System

end Determined.Actor
