import Determined.Schemes.Run

/-! The read-write coordinator (`internal/rw_coordinator.go`): clients ask over a socket for the read
    or the write lock of a resource, are sent a message when it is granted, and give it up by closing
    the socket. The coordinator sees the sockets as child actors, numbered by the requests.

    A map of actors is a finite set here, and ranging over it visits its members in some order; where
    the code stops after the first, `RangeOrder` says which that is. What the clients hold is kept
    beside the coordinator's own state, as the grants that were sent to them and not given up:
    `writeLockOwner` is one field, and says nothing of a writer it was overwritten over. -/

namespace Determined.Coordinator

/-- Per resource metadata tracking lock usage. -/
structure ResourceRWLockStatus where
  readLockOwners : Finset ℕ
  writeLockOwner : Option ℕ
  readLocksWaiting : Finset ℕ
  writeLocksWaiting : Finset ℕ
  deriving DecidableEq

def newLockStatus : ResourceRWLockStatus := ⟨∅, none, ∅, ∅⟩

/-- `rwCoordinator`: a socket's entry in `actorToLockStatusMap` points to a resource's status, so
    the resource's name stands for it. -/
structure RWCoordinator where
  resourceToLockStatusMap : String → Option ResourceRWLockStatus
  actorToLockStatusMap : ℕ → Option String
  numResourceRequests : ℕ

def newRWCoordinator : RWCoordinator := ⟨fun _ => none, fun _ => none, 0⟩

inductive Lock where | read | write
  deriving DecidableEq, Repr

/-- The message a lock is granted with. -/
def Lock.grantedMessage : Lock → String
  | .read => "read_lock_granted"
  | .write => "write_lock_granted"

/-- The grants written to sockets: to whom, and which lock. -/
abbrev Grants := Finset (ℕ × Lock)

/-- Which member ranging over a set visits first. -/
structure RangeOrder where
  first : Finset ℕ → ℕ
  mem : ∀ s : Finset ℕ, s.Nonempty → first s ∈ s

namespace ResourceRWLockStatus

def processReadLockRequests (resource : ResourceRWLockStatus) : ResourceRWLockStatus × Grants :=
  if resource.writeLockOwner ≠ none ∨ resource.writeLocksWaiting.card ≠ 0 then (resource, ∅)
  else
    ({ resource with
        readLocksWaiting := ∅
        readLockOwners := resource.readLockOwners ∪ resource.readLocksWaiting },
      resource.readLocksWaiting.image (·, Lock.read))

/-- One write lock is granted, to the first waiting. -/
def processWriteLockRequests (order : RangeOrder) (resource : ResourceRWLockStatus) :
    ResourceRWLockStatus × Grants :=
  if resource.writeLockOwner ≠ none ∧ resource.readLockOwners.card ≠ 0 then (resource, ∅)
  else if resource.writeLocksWaiting = ∅ then (resource, ∅)
  else
    ({ resource with
        writeLocksWaiting := resource.writeLocksWaiting.erase (order.first resource.writeLocksWaiting)
        writeLockOwner := some (order.first resource.writeLocksWaiting) },
      {(order.first resource.writeLocksWaiting, Lock.write)})

def processWaitingRequests (order : RangeOrder) (resource : ResourceRWLockStatus) :
    ResourceRWLockStatus × Grants :=
  let written := resource.processWriteLockRequests order
  let read := written.1.processReadLockRequests
  (read.1, written.2 ∪ read.2)

/-- A socket starts waiting for a lock. -/
def wait (ref : ℕ) (readLock : Bool) (resource : ResourceRWLockStatus) : ResourceRWLockStatus :=
  if readLock then { resource with readLocksWaiting := insert ref resource.readLocksWaiting }
  else { resource with writeLocksWaiting := insert ref resource.writeLocksWaiting }

/-- A socket gives up what it holds or waits for. -/
def giveUp (ref : ℕ) (resource : ResourceRWLockStatus) : ResourceRWLockStatus :=
  if resource.writeLockOwner = some ref then { resource with writeLockOwner := none }
  else
    { resource with
      readLockOwners := resource.readLockOwners.erase ref
      readLocksWaiting := resource.readLocksWaiting.erase ref
      writeLocksWaiting := resource.writeLocksWaiting.erase ref }

end ResourceRWLockStatus

namespace RWCoordinator

/-- The status of a resource; one that was never requested starts out free. -/
def status (r : RWCoordinator) (resource : String) : ResourceRWLockStatus :=
  (r.resourceToLockStatusMap resource).getD newLockStatus

def processResourceRequest (r : RWCoordinator) (resource : String) (readLock : Bool)
    (order : RangeOrder) : RWCoordinator × Grants :=
  let ref := r.numResourceRequests
  let processed := ((r.status resource).wait ref readLock).processWaitingRequests order
  ({ resourceToLockStatusMap :=
        Function.update r.resourceToLockStatusMap resource (some processed.1)
     actorToLockStatusMap := Function.update r.actorToLockStatusMap ref (some resource)
     numResourceRequests := r.numResourceRequests + 1 }, processed.2)

def processResourceRelease (r : RWCoordinator) (ref : ℕ) (order : RangeOrder) :
    RWCoordinator × Grants :=
  match r.actorToLockStatusMap ref with
  | none => (r, ∅)
  | some resource =>
    let processed := ((r.status resource).giveUp ref).processWaitingRequests order
    ({ r with
        resourceToLockStatusMap :=
          Function.update r.resourceToLockStatusMap resource (some processed.1)
        actorToLockStatusMap := Function.update r.actorToLockStatusMap ref none }, processed.2)

end RWCoordinator

end Determined.Coordinator
