import Determined.Model.Workload
import Determined.Schemes.Loop

/-! The fair-share scheduler's slot offers (`internal/resourcemanagers/fair_share.go`): tasks are
    collected by group (`calculateGroupStates`), and each group is offered a number of slots by
    progressive filling (`allocateSlotOffers`), with preemption of whole offers when the offers
    deadlock.

    Weights and the shares computed from them are exact rationals: rounding is not modelled. Go's
    division of zero by zero gives a share below one and is raised to one; so is `0 / 0 = 0` here. A
    group is known by its handler, as the code knows it by its pointer. -/

namespace Determined.Scheduler
open Determined.Model Determined.Schemes

/-- A request for slots by a task. -/
structure AllocateRequest where
  taskActor : ℕ
  slotsNeeded : ℕ
  label : String
  group : ℕ
  nonPreemptible : Bool
  deriving DecidableEq, Repr

/-- All tasks in time order, and the number of allocations of each that has any. -/
structure TaskList where
  tasks : List AllocateRequest
  allocations : ℕ → Option ℕ

structure Group where
  handler : ℕ
  registeredTime : ℤ
  maxSlots : Option ℤ
  weight : ℚ
  deriving DecidableEq, Repr

structure GroupState where
  group : Group
  disabled : Bool
  /-- The number of slots that the group needs to run all tasks associated with it. -/
  slotDemand : ℤ
  /-- The number of slots in use by running tasks that can potentially be freed. -/
  activeSlots : ℤ
  /-- Slots that are already allocated and cannot be terminated. -/
  presubscribedSlots : ℤ
  /-- The number of slots that were offered to the group for scheduling. -/
  offered : ℤ
  reqs : List AllocateRequest
  pendingReqs : List AllocateRequest
  allocatedReqs : List AllocateRequest
  deriving DecidableEq, Repr

/-! ### Group states -/

def newGroupState (group : Group) : GroupState :=
  ⟨group, false, 0, 0, 0, 0, [], [], []⟩

/-- Add a request to the state of its group, which is filed under the label of the group's first
    request. -/
def addReq (group : Group) (req : AllocateRequest) :
    List (String × GroupState) → List (String × GroupState)
  | [] => [(req.label, { newGroupState group with reqs := [req] })]
  | (label, state) :: states =>
    if state.group.handler = group.handler then
      (label, { state with reqs := state.reqs ++ [req] }) :: states
    else (label, state) :: addReq group req states

/-- Count a request in its group's state. -/
def countReq (allocations : ℕ → Option ℕ) (state : GroupState) (req : AllocateRequest) :
    GroupState :=
  match allocations req.taskActor with
  | none | some 0 =>
    { state with
      slotDemand := state.slotDemand + req.slotsNeeded
      pendingReqs := state.pendingReqs ++ [req] }
  | some _ =>
    { state with
      slotDemand := state.slotDemand + req.slotsNeeded
      presubscribedSlots := state.presubscribedSlots +
        if req.nonPreemptible then (req.slotsNeeded : ℤ) else 0
      allocatedReqs := state.allocatedReqs ++ [req]
      activeSlots := state.activeSlots + req.slotsNeeded }

/-- Demand is the sum of the slots needed for each schedulable task, up to `max_slots`. -/
def countReqs (allocations : ℕ → Option ℕ) (state : GroupState) : GroupState :=
  let counted := state.reqs.foldl (countReq allocations) state
  match counted.group.maxSlots with
  | none => counted
  | some maxSlots => { counted with slotDemand := min counted.slotDemand maxSlots }

/-- The group of a request. -/
def findGroup (groups : List Group) (req : AllocateRequest) : Option Group :=
  groups.find? (·.handler == req.group)

/-- File a request with the states collected so far. -/
def fileReq (groups : List Group) (states : List (String × GroupState)) (req : AllocateRequest) :
    List (String × GroupState) :=
  match findGroup groups req with
  | some group => addReq group req states
  | none => states

/-- A task that needs no slots, or more than there are, is not scheduled by group. -/
def schedulable (capacities : String → ℤ) (req : AllocateRequest) : Bool :=
  !(req.slotsNeeded == 0 || decide ((req.slotsNeeded : ℤ) > capacities req.label))

/-- The group states by label; the panic is the check that every group exists. -/
def calculateGroupStates (taskList : TaskList) (groups : List Group) (capacities : String → ℤ) :
    Except Fault (String → List GroupState) :=
  let reqs := taskList.tasks.filter (schedulable capacities)
  if reqs.any fun req => (findGroup groups req).isNone then
    .error (.panic "the group of a task must not be nil: expected true, got false")
  else .ok fun label => ((reqs.foldl (fileReq groups) []).filter (·.1 == label)).map
    (countReqs taskList.allocations ·.2)

/-! ### Slot offers -/

/-- A group state with its entry of the `preoffers` map; a missing entry reads as zero. -/
structure OfferState extends GroupState where
  preoffers : ℤ
  deriving DecidableEq, Repr

/-- The task that needs fewer slots, the earlier one if they need the same. -/
def smallerTask (smallest : Option AllocateRequest) (req : AllocateRequest) :
    Option AllocateRequest :=
  match smallest with
  | none => some req
  | some best => if req.slotsNeeded < best.slotsNeeded then some req else some best

namespace OfferState

variable (state : OfferState)

/-- The group still takes part in the filling. -/
def active : Bool := !(state.disabled || state.offered == state.slotDemand)

def smallestAllocatableTask : Option AllocateRequest := state.pendingReqs.foldl smallerTask none

/-- The group's offer does not let it start any of its tasks. -/
def deadlocked : Bool :=
  state.active && match state.smallestAllocatableTask with
    | some task => decide ((task.slotsNeeded : ℤ) > state.offered)
    | none => false

/-- Offer so many more slots, and set the pre-offers left to account for. -/
def give (slots preoffers : ℤ) : OfferState :=
  { state with preoffers := preoffers, offered := state.offered + slots }

/-- Take the whole offer away. -/
def disable : OfferState := { state with offered := 0, disabled := true }

end OfferState

/-- Account for slots that were already allocated to tasks that cannot be preempted. -/
def preoffer (state : GroupState) : OfferState :=
  if state.presubscribedSlots = 0 then ⟨state, 0⟩
  else ⟨{ state with offered := state.presubscribedSlots }, state.presubscribedSlots⟩

def getTotalWeight (states : List OfferState) : ℚ :=
  (states.map fun state =>
    if !state.disabled && decide (state.offered < state.slotDemand) then state.group.weight
    else 0).sum

/-- The three tests follow each other, each on what the one before it left. -/
def accountForPreoffers (preoffers offer : ℤ) : ℤ × ℤ :=
  if preoffers > 0 then
    let first : ℤ × ℤ := if preoffers = offer then (0, 0) else (preoffers, offer)
    let second : ℤ × ℤ := if first.1 > first.2 then (first.1 - first.2, 0) else first
    -- the pre-offers are zero by the time they are subtracted
    if second.1 < second.2 then (0, second.2 - 0) else second
  else (preoffers, offer)

/-- A minimum of one slot is fair shared in order to move progressive filling forward. -/
def calculatedFairShare (startCapacity : ℤ) (weight totalWeight : ℚ) : ℤ :=
  max 1 ⌊startCapacity * weight / totalWeight⌋

/-- The variables of the filling loop. -/
structure Filling where
  states : List OfferState
  capacity : ℤ
  totalWeight : ℚ
  statesLeft : ℤ

/-- Offer a share to one group: its new state, and the slots that are gone. -/
def offerShare (startCapacity : ℤ) (totalWeight : ℚ) (capacity : ℤ) (state : OfferState) :
    OfferState × ℤ :=
  let share := calculatedFairShare startCapacity state.group.weight totalWeight
  let offer := min (min share capacity) (state.slotDemand - state.offered)
  let accounted := accountForPreoffers state.preoffers offer
  (state.give accounted.2 accounted.1, accounted.2)

/-- One pass over the groups; `done` are those already visited. The total weight is recomputed
    whenever a group reaches its demand. -/
def fillPass (startCapacity : ℤ) (done : List OfferState) :
    List OfferState → ℤ → ℚ → ℤ → Filling
  | [], capacity, totalWeight, statesLeft => ⟨done, capacity, totalWeight, statesLeft⟩
  | state :: rest, capacity, totalWeight, statesLeft =>
    if state.active then
      let offer := offerShare startCapacity totalWeight capacity state
      if offer.1.offered = offer.1.slotDemand then
        fillPass startCapacity (done ++ [offer.1]) rest (capacity - offer.2)
          (getTotalWeight (done ++ offer.1 :: rest)) (statesLeft - 1)
      else
        fillPass startCapacity (done ++ [offer.1]) rest (capacity - offer.2) totalWeight statesLeft
    else fillPass startCapacity (done ++ [state]) rest capacity totalWeight statesLeft

def Filling.pass (f : Filling) : Filling :=
  fillPass f.capacity [] f.states f.capacity f.totalWeight f.statesLeft

/-- Progress is made whenever some group still takes part. -/
def Filling.progressMade (f : Filling) : Bool := f.states.any (·.active)

/-- The last (lowest-priority) group that cannot schedule any task, in the order of `byTime`, which
    is given by positions. -/
def Filling.deadlockedGroup (f : Filling) (byTime : List ℕ) : Option ℕ :=
  byTime.find? fun i => (f.states[i]?).any (·.deadlocked)

/-- Disable a group, and make its offered slots available for sharing again. -/
def Filling.disable (f : Filling) (i : ℕ) : Filling :=
  { states := f.states.modify i OfferState.disable
    capacity := f.capacity + ((f.states[i]?).map (·.offered)).getD 0
    totalWeight := getTotalWeight (f.states.modify i OfferState.disable)
    statesLeft := f.statesLeft - 1 }

/-- The body of the filling loop: the next state, or the states it returns. -/
def fillBody (byTime : List ℕ) (f : Filling) : Filling ⊕ List OfferState :=
  if f.statesLeft > 0 then
    let filled := f.pass
    if filled.capacity = 0 then
      match filled.deadlockedGroup byTime with
      | some i => .inl (filled.disable i)
      | none => .inr filled.states
    else if f.progressMade then .inl filled
    else .inr filled.states
  else .inr f.states

/-- `a` is sorted before `b`: by increasing slot demand, then by time. -/
def OfferState.before (a b : OfferState) : Prop :=
  a.slotDemand < b.slotDemand ∨
    a.slotDemand = b.slotDemand ∧ a.group.registeredTime < b.group.registeredTime

/-- The orders the two sorts leave the groups in. Neither sort is stable, so groups that compare
    equal come in any order; and the second compares the positions of the first's result rather than
    the groups it moves, so any order may come out of it. -/
structure SortedStates (states : List GroupState) where
  sorted : List OfferState
  sorted_perm : sorted.Perm (states.map preoffer)
  sorted_ordered : sorted.Pairwise fun a b => ¬ b.before a
  byTime : List ℕ
  byTime_perm : byTime.Perm (List.range sorted.length)

variable {states : List GroupState}

/-- The variables when the loop is entered. -/
def SortedStates.start (order : SortedStates states) (capacity : ℤ) : Filling where
  states := order.sorted
  capacity := capacity - (states.map (·.presubscribedSlots)).sum
  totalWeight := getTotalWeight order.sorted
  statesLeft := order.sorted.length

/-- The states with the offers they return with. -/
def AllocateSlotOffers (order : SortedStates states) (capacity : ℤ) (offers : List OfferState) :
    Prop := Returns (fillBody order.byTime) (order.start capacity) offers

end Determined.Scheduler
