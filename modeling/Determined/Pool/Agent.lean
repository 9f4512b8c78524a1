import Determined.Pool.Task
import Determined.Model.Workload

/-! The scheduler's state of the agents (`internal/resourcemanagers/agent.go`, `pkg/device`).

    An agent is known by its actor, a number, and `Agents` is the map from actors to agent states
    with its keys in the order of some iteration. The order in which Go walks the devices of an
    agent is not fixed: each walk is given one (`Draw`). Container ids are drawn anew each time, so
    a zero-slot container is always added to those of its agent. -/

namespace Determined.Pool
open Determined.Model

/-- The types of devices; `zeroSlot` stands for the CPUs of agents where only GPUs are modelled. -/
inductive DeviceType where | cpu | gpu | zeroSlot
  deriving DecidableEq, Repr

structure Device where
  id : ℤ
  brand : String
  uuid : String
  type : DeviceType
  deriving DecidableEq, Repr

abbrev ContainerID := String

/-- The `devices` map is given by its keys and the container of each. -/
structure AgentState where
  label : String
  devices : List Device
  container : Device → Option ContainerID
  zeroSlotContainers : List ContainerID
  maxZeroSlotContainers : ℤ
  nodup : devices.Nodup

/-- What is not fixed by the arguments of an allocation: the id of the new container and the order
    in which the devices are visited. -/
structure Draw where
  id : ContainerID
  visit : List Device → List Device
  perm : ∀ devices, (visit devices).Perm devices

namespace AgentState

variable (a : AgentState)

def new (label : String) (maxZeroSlotContainers : ℤ) : AgentState :=
  ⟨label, [], fun _ => none, [], maxZeroSlotContainers, List.nodup_nil⟩

def numSlots : ℕ := a.devices.length

/-- The slots that have been allocated to containers. -/
def numUsedSlots : ℕ := a.devices.countP fun d => (a.container d).isSome

/-- The slots that have not been allocated to containers. -/
def numEmptySlots : ℕ := a.numSlots - a.numUsedSlots

def numZeroSlotContainers : ℕ := a.zeroSlotContainers.length

/-- Put the container on these devices. -/
def occupy (devices : List Device) (id : ContainerID) : AgentState :=
  { a with container := fun d => if d ∈ devices then some id else a.container d }

/-- Take whatever there is off the devices that meet a condition. -/
def vacate (p : Device → Bool) : AgentState :=
  { a with container := fun d => if p d then none else a.container d }

/-- Allocate the first free devices that are visited. -/
def allocateFreeDevices (draw : Draw) (slots : ℕ) : Except Fault (AgentState × List Device) :=
  if slots = 0 then .ok ({ a with zeroSlotContainers := draw.id :: a.zeroSlotContainers }, [])
  else
    let devices := ((draw.visit a.devices).filter fun d => (a.container d).isNone).take slots
    if devices.length = slots then .ok (a.occupy devices draw.id, devices)
    else .error (.panic "not enough devices: expected true, got false")

def deallocateDevice (type : DeviceType) (id : ContainerID) (d : Device) :
    Except Fault AgentState :=
  if type = .zeroSlot then
    .ok { a with zeroSlotContainers := a.zeroSlotContainers.filter (· != id) }
  else if d ∉ a.devices then
    .error (.panic "error freeing device, device not found: expected true, got false")
  else if a.container d = none then
    .error (.panic "error freeing device, device not assigned: expected true, got false")
  else .ok (a.vacate (· == d))

def addDevice (d : Device) (containerID : Option ContainerID) : AgentState :=
  { a with
    devices := if d ∈ a.devices then a.devices else a.devices ++ [d]
    container := Function.update a.container d containerID
    nodup := by
      split
      · exact a.nodup
      · rename_i h
        rw [← List.concat_eq_append]
        exact a.nodup.concat h }

def removeDevice (d : Device) : AgentState :=
  { a with
    devices := a.devices.erase d
    nodup := a.nodup.erase d }

/-! ### Counting slots -/

variable {a}

theorem numUsedSlots_le : a.numUsedSlots ≤ a.numSlots := List.countP_le_length

/-- The empty slots are the devices without a container. -/
theorem numEmptySlots_eq :
    a.numEmptySlots = a.devices.countP fun d => (a.container d).isNone := by
  have hsum := List.length_eq_countP_add_countP (fun d => (a.container d).isSome) (l := a.devices)
  have hnone : a.devices.countP (fun d => ¬ (a.container d).isSome = true) =
      a.devices.countP fun d => (a.container d).isNone :=
    List.countP_congr fun d _ => by cases a.container d <;> simp
  rw [hnone] at hsum
  rw [numEmptySlots, numSlots, numUsedSlots]
  omega

theorem numUsedSlots_eq_zero : a.numUsedSlots = 0 ↔ a.numEmptySlots = a.numSlots := by
  have := numUsedSlots_le (a := a)
  rw [numEmptySlots]
  omega

end AgentState

/-! ### Allocation -/

variable {a a' : AgentState} {draw : Draw} {slots : ℕ} {devices : List Device}

/-- What an allocation of slots does: it occupies so many free devices. -/
theorem allocateFreeDevices_eq_ok (hslots : slots ≠ 0)
    (h : a.allocateFreeDevices draw slots = .ok (a', devices)) :
    a' = a.occupy devices draw.id ∧ devices.length = slots ∧ devices.Nodup ∧
      ∀ d ∈ devices, d ∈ a.devices ∧ a.container d = none := by
  simp only [AgentState.allocateFreeDevices, hslots, if_false] at h
  split at h
  · rename_i hlength
    obtain ⟨rfl, rfl⟩ := Prod.mk.inj (Except.ok.inj h)
    refine ⟨rfl, hlength, ?_, fun d hd => ?_⟩
    · have hnodup := (draw.perm a.devices).nodup_iff.mpr a.nodup
      exact (hnodup.filter _).sublist (List.take_sublist ..)
    · obtain ⟨hvisit, hfree⟩ := List.mem_filter.mp (List.mem_of_mem_take hd)
      exact ⟨(draw.perm a.devices).mem_iff.mp hvisit, by simpa using hfree⟩
  · cases h

/-- There is no shortage as long as the empty slots suffice. -/
theorem allocateFreeDevices_of_le (draw : Draw) (h : slots ≤ a.numEmptySlots) :
    ∃ a' devices, a.allocateFreeDevices draw slots = .ok (a', devices) := by
  rw [AgentState.allocateFreeDevices]
  split
  · exact ⟨_, _, rfl⟩
  · have hcount : ((draw.visit a.devices).filter fun d => (a.container d).isNone).length =
        a.numEmptySlots := by
      rw [← List.countP_eq_length_filter, (draw.perm a.devices).countP_eq,
        AgentState.numEmptySlots_eq]
    rw [if_pos (by rw [List.length_take, hcount]; omega)]
    exact ⟨_, _, rfl⟩

/-- Occupying free devices takes them from the empty slots. -/
theorem numUsedSlots_occupy {id : ContainerID} (hnodup : devices.Nodup)
    (hfree : ∀ d ∈ devices, d ∈ a.devices ∧ a.container d = none) :
    (a.occupy devices id).numUsedSlots = a.numUsedSlots + devices.length := by
  have hperm : (a.devices.filter (· ∈ devices)).Perm devices := by
    refine (List.perm_ext_iff_of_nodup (a.nodup.filter _) hnodup).mpr fun d => ?_
    rw [List.mem_filter, decide_eq_true_iff]
    exact and_iff_right_of_imp fun hd => (hfree d hd).1
  have hlength : devices.length = a.devices.countP (· ∈ devices) := by
    rw [List.countP_eq_length_filter, hperm.length_eq]
  rw [hlength, AgentState.numUsedSlots, AgentState.numUsedSlots]
  simp only [AgentState.occupy]
  have hsplit : ∀ l : List Device, (∀ d ∈ l, d ∈ devices → a.container d = none) →
      l.countP (fun d => (if d ∈ devices then some id else a.container d).isSome) =
        l.countP (fun d => (a.container d).isSome) + l.countP (· ∈ devices) := by
    intro l hl
    induction l with
    | nil => rfl
    | cons d l ih =>
      have ih := ih fun e he => hl e (List.mem_cons_of_mem _ he)
      simp only [List.countP_cons, ih]
      by_cases hd : d ∈ devices
      · simp [hd, hl d (List.mem_cons_self ..) hd]
        omega
      · simp [hd]
        omega
  exact hsplit a.devices fun d _ hd => (hfree d hd).2

/-- An allocation takes its slots from the empty ones, or is one more zero-slot container. -/
theorem allocateFreeDevices_counts
    (h : a.allocateFreeDevices draw slots = .ok (a', devices)) :
    a'.label = a.label ∧ a'.numSlots = a.numSlots ∧
      a'.maxZeroSlotContainers = a.maxZeroSlotContainers ∧
      a'.numUsedSlots = a.numUsedSlots + slots ∧
      a'.numZeroSlotContainers = a.numZeroSlotContainers + if slots = 0 then 1 else 0 := by
  by_cases hslots : slots = 0
  · subst hslots
    simp only [AgentState.allocateFreeDevices, if_true, Except.ok.injEq, Prod.mk.injEq] at h
    obtain ⟨rfl, -⟩ := h
    exact ⟨rfl, rfl, rfl, rfl, rfl⟩
  · obtain ⟨rfl, hlength, hnodup, hfree⟩ := allocateFreeDevices_eq_ok hslots h
    rw [if_neg hslots, numUsedSlots_occupy hnodup hfree, hlength]
    exact ⟨rfl, rfl, rfl, rfl, rfl⟩

end Determined.Pool
