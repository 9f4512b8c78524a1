import Determined.Schemes.Greedy
import Determined.Pool.Priority

/-! What placing a task does to the agents: it never fails on a fit, and takes from each agent the
    slots of its share. Trying the pending tasks of a list is then a greedy walk. -/

namespace Determined.Pool
open Determined.Model Determined.Schemes

variable {σ : Type}

/-- The slots that a fit takes from an agent. -/
def slotsOn (fits : List (FittingState σ)) (ref : ℕ) : ℕ :=
  ((fits.filter (·.agent == ref)).map (·.slots)).sum

/-- The zero-slot containers that a fit puts on an agent. -/
def zeroSlotsOn (fits : List (FittingState σ)) (ref : ℕ) : ℕ :=
  fits.countP fun fit => fit.agent == ref && fit.slots == 0

/-- The agents after their shares of a fit were taken. -/
structure Takes (fits : List (FittingState σ)) (agents agents' : Agents) : Prop where
  refs : agents'.refs = agents.refs
  label : ∀ ref, (agents'.state ref).label = (agents.state ref).label
  numSlots : ∀ ref, (agents'.state ref).numSlots = (agents.state ref).numSlots
  maxZeroSlotContainers : ∀ ref,
    (agents'.state ref).maxZeroSlotContainers = (agents.state ref).maxZeroSlotContainers
  numUsedSlots : ∀ ref,
    (agents'.state ref).numUsedSlots = (agents.state ref).numUsedSlots + slotsOn fits ref
  numZeroSlotContainers : ∀ ref, (agents'.state ref).numZeroSlotContainers =
    (agents.state ref).numZeroSlotContainers + zeroSlotsOn fits ref

/-- One share is taken from one agent. -/
theorem takes_addFitToAgents (draws : Draws) (req : AllocateRequest) {agents : Agents}
    {fit : FittingState σ} (hroom : fit.slots ≤ (agents.state fit.agent).numEmptySlots) :
    ∃ agents', addFitToAgents draws req agents fit = .ok agents' ∧ Takes [fit] agents agents' ∧
      ∀ ref, ref ≠ fit.agent → agents'.state ref = agents.state ref := by
  obtain ⟨a, devices, halloc⟩ :=
    allocateFreeDevices_of_le (draws req.taskActor fit.agent) hroom
  obtain ⟨hlabel, hslots, hmax, hused, hzero⟩ := allocateFreeDevices_counts halloc
  refine ⟨agents.set fit.agent a, by simp [addFitToAgents, halloc, Except.map], ?_, fun ref hne =>
    Function.update_of_ne hne ..⟩
  have hother : ∀ ref, ref ≠ fit.agent → slotsOn [fit] ref = 0 ∧ zeroSlotsOn [fit] ref = 0 := by
    intro ref hne
    simp [slotsOn, zeroSlotsOn, Ne.symm hne]
  constructor
  · rfl
  all_goals
    intro ref
    by_cases heq : ref = fit.agent
    · subst heq
      simp [Agents.set, slotsOn, zeroSlotsOn, hlabel, hslots, hmax, hused, hzero, List.countP_cons]
    · simp [Agents.set, heq, hother ref heq]

/-- Taking the shares one after the other. -/
theorem takes_cons {fit : FittingState σ} {fits : List (FittingState σ)}
    {agents agents' agents'' : Agents} (h : Takes [fit] agents agents')
    (h' : Takes fits agents' agents'') : Takes (fit :: fits) agents agents'' := by
  have hslots : ∀ ref, slotsOn (fit :: fits) ref = slotsOn [fit] ref + slotsOn fits ref := by
    intro ref
    rw [slotsOn, slotsOn, slotsOn, ← List.sum_append, ← List.map_append, ← List.filter_append,
      List.singleton_append]
  have hzero : ∀ ref,
      zeroSlotsOn (fit :: fits) ref = zeroSlotsOn [fit] ref + zeroSlotsOn fits ref := by
    intro ref
    rw [zeroSlotsOn, zeroSlotsOn, zeroSlotsOn, ← List.countP_append, List.singleton_append]
  exact ⟨h'.refs.trans h.refs, fun ref => (h'.label ref).trans (h.label ref),
    fun ref => (h'.numSlots ref).trans (h.numSlots ref),
    fun ref => (h'.maxZeroSlotContainers ref).trans (h.maxZeroSlotContainers ref),
    fun ref => by rw [h'.numUsedSlots, h.numUsedSlots, hslots, Nat.add_assoc],
    fun ref => by rw [h'.numZeroSlotContainers, h.numZeroSlotContainers, hzero, Nat.add_assoc]⟩

theorem takes_nil (agents : Agents) : Takes ([] : List (FittingState σ)) agents agents :=
  ⟨rfl, fun _ => rfl, fun _ => rfl, fun _ => rfl, fun _ => rfl, fun _ => rfl⟩

theorem takes_foldlM {draws : Draws} {req : AllocateRequest} (fits : List (FittingState σ)) :
    ∀ {agents : Agents}, (fits.map (·.agent)).Nodup →
      (∀ fit ∈ fits, fit.slots ≤ (agents.state fit.agent).numEmptySlots) →
        ∃ agents', addTaskToAgents draws req fits agents = .ok agents' ∧
          Takes fits agents agents' := by
  induction fits with
  | nil => exact fun {agents} _ _ => ⟨agents, rfl, takes_nil agents⟩
  | cons fit fits ih =>
    intro agents hnodup hroom
    obtain ⟨hnew, hnodup⟩ := List.nodup_cons.mp hnodup
    obtain ⟨agents1, hadd, htakes, hother⟩ :=
      takes_addFitToAgents draws req (hroom fit (List.mem_cons_self ..))
    obtain ⟨agents2, hadd', htakes'⟩ := ih hnodup fun f hf => by
      have hne : f.agent ≠ fit.agent := fun h => hnew (List.mem_map.mpr ⟨f, hf, h⟩)
      rw [hother f.agent hne]
      exact hroom f (List.mem_cons_of_mem _ hf)
    refine ⟨agents2, ?_, takes_cons htakes htakes'⟩
    rw [addTaskToAgents, List.foldlM_cons, hadd]
    exact hadd'

/-- A task is always placed where it fits. -/
theorem addTaskToAgents_of_fits (draws : Draws) {req : AllocateRequest} {agents : Agents}
    {fits : List (FittingState σ)} (h : Fits req agents fits) :
    ∃ agents', addTaskToAgents draws req fits agents = .ok agents' ∧ Takes fits agents agents' :=
  takes_foldlM fits h.nodup h.room

/-! ### Placing tasks one after the other -/

variable [LinearOrder σ] (c : Cluster σ) (draws : Draws)

/-- Place a task if it fits. -/
def placeTask (agents : Agents) (req : AllocateRequest) : Option Agents :=
  match findFits c req agents with
  | [] => none
  | fit :: fits => (addTaskToAgents draws req (fit :: fits) agents).toOption

variable {c draws}

/-- A task is placed iff it fits, and then takes its fit. -/
theorem placeTask_isSome {agents : Agents} {req : AllocateRequest} :
    (placeTask c draws agents req).isSome ↔ findFits c req agents ≠ [] := by
  have hfits : Fits req agents (findFits c req agents) := findFits_fits
  rw [placeTask]
  generalize findFits c req agents = fits at hfits ⊢
  cases fits with
  | nil => simp
  | cons fit fits =>
    obtain ⟨agents', hadd, -⟩ := addTaskToAgents_of_fits draws hfits
    simp [hadd, Except.toOption]

/-- Without agents nothing is placed. -/
theorem placeTask_of_no_agents {agents : Agents} (h : agents.refs = []) (req : AllocateRequest) :
    placeTask c draws agents req = none := by
  rw [← Option.not_isSome_iff_eq_none, placeTask_isSome, not_not]
  refine List.eq_nil_iff_forall_not_mem.mpr fun fit hfit => ?_
  have := findFits_fits.mem fit hfit
  simp [h] at this

theorem placeTask_eq_some {agents agents' : Agents} {req : AllocateRequest} :
    placeTask c draws agents req = some agents' ↔
      findFits c req agents ≠ [] ∧
        addTaskToAgents draws req (findFits c req agents) agents = .ok agents' := by
  rw [placeTask]
  generalize findFits c req agents = fits
  cases fits with
  | nil => simp
  | cons fit fits =>
    cases h : addTaskToAgents draws req (fit :: fits) agents <;> simp [h, Except.toOption]

theorem takes_of_placeTask {agents agents' : Agents} {req : AllocateRequest}
    (h : placeTask c draws agents req = some agents') :
    Takes (findFits c req agents) agents agents' := by
  obtain ⟨-, hadd⟩ := placeTask_eq_some.mp h
  obtain ⟨agents'', hadd', htakes⟩ :=
    addTaskToAgents_of_fits draws (findFits_fits : Fits req agents (findFits c req agents))
  rw [hadd] at hadd'
  exact Except.ok.inj hadd' ▸ htakes

theorem trySchedulingPendingTask_eq (placement : Placement) (req : AllocateRequest) :
    trySchedulingPendingTask c draws placement req =
      .ok (match placeTask c draws placement.agents req with
        | some agents => ⟨agents, placement.successful ++ [req], placement.unsuccessful⟩
        | none => { placement with unsuccessful := placement.unsuccessful ++ [req] }) := by
  have hfits : Fits req placement.agents (findFits c req placement.agents) := findFits_fits
  rw [trySchedulingPendingTask, placeTask]
  generalize findFits c req placement.agents = fits at hfits ⊢
  cases fits with
  | nil => rfl
  | cons fit fits =>
    obtain ⟨agents', hadd, -⟩ := addTaskToAgents_of_fits draws hfits
    simp [hadd, Except.toOption, Except.map]

theorem foldlM_trySchedulingPendingTask (reqs : List AllocateRequest) :
    ∀ placement : Placement, reqs.foldlM (trySchedulingPendingTask c draws) placement =
      .ok ⟨greedy (placeTask c draws) placement.agents reqs,
        placement.successful ++ placed (placeTask c draws) placement.agents reqs,
        placement.unsuccessful ++ passed (placeTask c draws) placement.agents reqs⟩ := by
  induction reqs with
  | nil => intro placement; simp [greedy, placed, passed, pure, Except.pure]
  | cons req reqs ih =>
    intro placement
    rw [List.foldlM_cons, trySchedulingPendingTask_eq]
    cases h : placeTask c draws placement.agents req with
    | none => simp [bind, Except.bind, ih, greedy, placed, passed, h]
    | some agents => simp [bind, Except.bind, ih, greedy, placed, passed, h]

/-- Trying the pending tasks is a greedy walk, and never fails. -/
theorem trySchedulingPendingTasksInPriority_eq (reqs : List AllocateRequest) (agents : Agents) :
    trySchedulingPendingTasksInPriority c draws reqs agents =
      .ok ⟨greedy (placeTask c draws) agents reqs, placed (placeTask c draws) agents reqs,
        passed (placeTask c draws) agents reqs⟩ := by
  simp [trySchedulingPendingTasksInPriority, foldlM_trySchedulingPendingTask]

end Determined.Pool
