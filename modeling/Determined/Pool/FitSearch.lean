import Determined.Pool.Fitting

/-! What `findFits` finds: a single agent that can run the whole task, or else the fewest idle
    agents of one size that the task can be split over.

    The scores are those of a `SoftConstraint`, numbers that are compared as such. -/

namespace Determined.Pool
open Determined.Model

/-- All hard constraints are satisfied. -/
def isViable (req : AllocateRequest) (a : AgentState)
    (constraints : List (AllocateRequest → AgentState → Bool)) : Bool :=
  constraints.all fun hard => hard req a

/-- The agent can run the whole task. -/
structure RunsAlone (req : AllocateRequest) (a : AgentState) : Prop where
  label : a.label = req.label
  room : req.slotsNeeded ≤ a.numEmptySlots
  zeroSlot : req.slotsNeeded = 0 → (a.numZeroSlotContainers : ℤ) < a.maxZeroSlotContainers

/-- The agents with a matching label, no used slot and so many slots. -/
def idleAgents (req : AllocateRequest) (agents : Agents) (size : ℕ) : List ℕ :=
  agents.refs.filter fun ref => (agents.state ref).label == req.label &&
    (agents.state ref).numUsedSlots == 0 && (agents.state ref).numSlots == size

/-- The task can be split over idle agents with so many slots. -/
structure Splits (req : AllocateRequest) (agents : Agents) (size : ℕ) : Prop where
  many : 1 < req.slotsNeeded
  several : req.singleAgent = false
  pos : 0 < size
  divides : size ∣ req.slotsNeeded
  enough : req.slotsNeeded / size ≤ (idleAgents req agents size).length

variable {σ : Type} [LinearOrder σ] {c : Cluster σ} {req : AllocateRequest} {agents : Agents}

/-! ### One agent -/

theorem runsAlone_iff {a : AgentState} : RunsAlone req a ↔ isViable req a
    [slotsSatisfied, maxZeroSlotContainersSatisfied, labelSatisfied] = true := by
  simp only [isViable, List.all_cons, List.all_nil, Bool.and_true, Bool.and_eq_true, slotsSatisfied,
    labelSatisfied, decide_eq_true_eq, beq_iff_eq]
  have hzero : maxZeroSlotContainersSatisfied req a = true ↔
      (req.slotsNeeded = 0 → (a.numZeroSlotContainers : ℤ) < a.maxZeroSlotContainers) := by
    rw [maxZeroSlotContainersSatisfied]
    split_ifs with hslots hmax
    · simp [hslots, hmax]
    · simp [hslots]
    · simp [hslots]
  rw [hzero]
  exact ⟨fun h => ⟨h.room, h.zeroSlot, h.label.symm⟩, fun h => ⟨h.2.2.symm, h.1, h.2.1⟩⟩

/-- What `worstFit` and `bestFit` divide by is positive for such an agent, so that its scores are
    numbers. -/
theorem RunsAlone.divisors_pos {a : AgentState} (h : RunsAlone req a) :
    (a.numUsedSlots ≠ 0 ∨ req.slotsNeeded ≠ 0 → 0 < a.numSlots) ∧
      (req.slotsNeeded = 0 → 0 < a.maxZeroSlotContainers ∧
        0 < a.maxZeroSlotContainers - a.numZeroSlotContainers) := by
  have hused := AgentState.numUsedSlots_le (a := a)
  have hroom := h.room
  rw [AgentState.numEmptySlots] at hroom
  refine ⟨by omega, fun hslots => ?_⟩
  have := h.zeroSlot hslots
  omega

/-- The shared search fails only if no agent can run the task alone. -/
theorem findSharedAgentFit_eq_none :
    findSharedAgentFit c req agents = none ↔
      ¬ ∃ ref ∈ agents.refs, RunsAlone req (agents.state ref) := by
  have hlength := (@candidates_perm _ _ c req agents fun ref =>
    slotsSatisfied req (agents.state ref) && maxZeroSlotContainersSatisfied req (agents.state ref) &&
      labelSatisfied req (agents.state ref)).length_eq
  rw [findSharedAgentFit, Option.map_eq_none_iff, List.head?_eq_none_iff, ← List.length_eq_zero_iff,
    ← List.length_map (f := FittingState.agent), hlength, List.length_eq_zero_iff,
    List.filter_eq_nil_iff]
  simp [runsAlone_iff, isViable, and_assoc]

theorem findSharedAgentFit_eq_some {fit : FittingState σ}
    (h : findSharedAgentFit c req agents = some fit) : fit.agent ∈ agents.refs ∧
      RunsAlone req (agents.state fit.agent) ∧ fit.slots = req.slotsNeeded := by
  obtain ⟨fit', hhead, rfl⟩ := Option.map_eq_some_iff.mp h
  obtain ⟨hmem, hviable⟩ := mem_candidates (List.mem_of_mem_head? hhead)
  refine ⟨hmem, runsAlone_iff.mpr ?_, rfl⟩
  simpa [isViable, and_assoc] using hviable

/-! ### Several agents -/

theorem mem_idleAgents {ref size : ℕ} : ref ∈ idleAgents req agents size ↔
    ref ∈ agents.refs ∧ (agents.state ref).label = req.label ∧
      (agents.state ref).numUsedSlots = 0 ∧ (agents.state ref).numSlots = size := by
  simp [idleAgents, and_assoc]

/-- The agents that the dedicated search looks at. -/
def unusedAgents (req : AllocateRequest) (agents : Agents) : List ℕ :=
  agents.refs.filter fun ref =>
    labelSatisfied req (agents.state ref) && agentSlotUnusedSatisfied req (agents.state ref)

/-- An unused agent has as many slots as empty slots. -/
theorem filter_unusedAgents (size : ℕ) :
    ((unusedAgents req agents).filter fun ref => (agents.state ref).numEmptySlots == size) =
      idleAgents req agents size := by
  rw [unusedAgents, List.filter_filter]
  refine List.filter_congr fun ref _ => ?_
  rw [Bool.eq_iff_iff]
  simp only [labelSatisfied, agentSlotUnusedSatisfied, Bool.and_eq_true, beq_iff_eq,
    eq_comm (a := req.label)]
  constructor
  · rintro ⟨hsize, hlabel, hused⟩
    exact ⟨⟨hlabel, hused⟩, AgentState.numUsedSlots_eq_zero.mp hused ▸ hsize⟩
  · rintro ⟨⟨hlabel, hused⟩, hsize⟩
    exact ⟨(AgentState.numUsedSlots_eq_zero.mp hused).trans hsize, hlabel, hused⟩

theorem count_unusedAgents (size : ℕ) :
    ((unusedAgents req agents).map fun ref => (agents.state ref).numEmptySlots).count size =
      (idleAgents req agents size).length := by
  rw [← filter_unusedAgents, List.count, List.countP_map, List.countP_eq_length_filter]
  rfl

/-- The largest number that passes a test is found first. -/
theorem find?_largest {p : ℕ → Bool} {l : List ℕ} {n m : ℕ}
    (h : (l.insertionSort (· ≥ ·)).find? p = some n) (hm : m ∈ l) (hp : p m = true) : m ≤ n := by
  obtain ⟨-, before, after, heq, hnone⟩ := List.find?_eq_some_iff_append.mp h
  have hsorted : (l.insertionSort (· ≥ ·)).Pairwise (· ≥ ·) := List.pairwise_insertionSort _ l
  have hmem : m ∈ l.insertionSort (· ≥ ·) := (List.mem_insertionSort _).mpr hm
  rw [heq] at hsorted hmem
  rcases List.mem_append.mp hmem with hmem | hmem
  · simpa [hp] using hnone m hmem
  · rcases List.mem_cons.mp hmem with rfl | hmem
    · exact le_rfl
    · exact (List.pairwise_cons.mp (List.pairwise_append.mp hsorted).2.1).1 m hmem

/-- The test of the dedicated search for a number of slots. -/
theorem splits_iff (hmany : 1 < req.slotsNeeded) (hseveral : req.singleAgent = false) {size : ℕ} :
    Splits req agents size ↔ size ≠ 0 ∧ req.slotsNeeded % size = 0 ∧
      req.slotsNeeded ≤ (idleAgents req agents size).length * size := by
  constructor
  · rintro ⟨-, -, hpos, hdvd, henough⟩
    refine ⟨hpos.ne', Nat.mod_eq_zero_of_dvd hdvd, ?_⟩
    calc req.slotsNeeded = req.slotsNeeded / size * size := (Nat.div_mul_cancel hdvd).symm
      _ ≤ _ := Nat.mul_le_mul_right size henough
  · rintro ⟨hne, hmod, henough⟩
    exact ⟨hmany, hseveral, Nat.pos_of_ne_zero hne, Nat.dvd_of_mod_eq_zero hmod,
      Nat.div_le_of_le_mul (Nat.mul_comm size _ ▸ henough)⟩

/-- The dedicated search chooses the largest size that the task can be split by, if there is one. -/
theorem findDedicatedAgentFits_spec (c : Cluster σ) (hmany : 1 < req.slotsNeeded)
    (hseveral : req.singleAgent = false) :
    (findDedicatedAgentFits c req agents = [] ∧ ∀ size, ¬ Splits req agents size) ∨
      ∃ size, Splits req agents size ∧ (∀ size', Splits req agents size' → size' ≤ size) ∧
        (findDedicatedAgentFits c req agents).length = req.slotsNeeded / size ∧
        ∀ fit ∈ findDedicatedAgentFits c req agents,
          fit.agent ∈ idleAgents req agents size ∧ fit.slots = size := by
  have htest : ∀ size, Splits req agents size ↔ (decide (size ≠ 0) &&
      req.slotsNeeded % size == 0 && decide (((unusedAgents req agents).map fun ref =>
        (agents.state ref).numEmptySlots).count size * size ≥ req.slotsNeeded)) = true := by
    intro size
    rw [splits_iff hmany hseveral, count_unusedAgents]
    simp [and_assoc]
  have hcounted : ∀ size, Splits req agents size → size ∈
      ((unusedAgents req agents).map fun ref => (agents.state ref).numEmptySlots).dedup := by
    intro size hsize
    have henough := ((splits_iff hmany hseveral).mp hsize).2.2
    rw [List.mem_dedup, ← List.count_pos_iff, count_unusedAgents]
    refine Nat.pos_of_ne_zero fun hzero => ?_
    rw [hzero] at henough
    omega
  unfold findDedicatedAgentFits
  dsimp only
  split
  · rename_i hfind
    refine .inl ⟨rfl, fun size hsize => ?_⟩
    have hno := List.find?_eq_none.mp hfind size ((List.mem_insertionSort _).mpr (hcounted size hsize))
    exact hno ((htest size).mp hsize)
  · rename_i size hfind
    have htested := List.find?_some hfind
    have hsize : Splits req agents size := (htest size).mpr htested
    refine .inr ⟨size, hsize, fun size' hsize' => ?_, ?_, ?_⟩
    · refine find?_largest hfind (hcounted size' hsize') ?_
      exact (htest size').mp hsize'
    · have hlen := @length_candidates _ _ agents c req (fun ref =>
        labelSatisfied req (agents.state ref) && agentSlotUnusedSatisfied req (agents.state ref)) size
      rw [List.length_map, List.length_take, hlen, Nat.min_eq_left]
      exact hsize.enough.trans (count_unusedAgents size).ge
    · intro fit hfit
      obtain ⟨fit', hfit', rfl⟩ := List.mem_map.mp hfit
      obtain ⟨hmem, hviable⟩ := mem_candidates (List.mem_of_mem_take hfit')
      obtain ⟨hviable, hempty⟩ := Bool.and_eq_true .. |>.mp hviable
      refine ⟨?_, Nat.div_div_self hsize.divides (by omega)⟩
      rw [← filter_unusedAgents]
      exact List.mem_filter.mpr ⟨List.mem_filter.mpr ⟨hmem, hviable⟩, hempty⟩

/-! ### The whole search -/

/-- CORRECT: a placement is found exactly if some agent can run the task alone, or if the task can be
    split; one agent is preferred, and otherwise the fewest agents. -/
theorem findFits_complete (c : Cluster σ) (req : AllocateRequest) (agents : Agents) :
    (findFits c req agents ≠ [] ↔ (∃ ref ∈ agents.refs, RunsAlone req (agents.state ref)) ∨
      ∃ size, Splits req agents size) ∧
    ((∃ ref ∈ agents.refs, RunsAlone req (agents.state ref)) → ∃ fit, findFits c req agents = [fit] ∧
      fit.agent ∈ agents.refs ∧ RunsAlone req (agents.state fit.agent) ∧
        fit.slots = req.slotsNeeded) ∧
    ((¬ ∃ ref ∈ agents.refs, RunsAlone req (agents.state ref)) → findFits c req agents ≠ [] →
      ∃ size, Splits req agents size ∧
        (findFits c req agents).length = req.slotsNeeded / size ∧
        (∀ fit ∈ findFits c req agents, fit.agent ∈ idleAgents req agents size ∧ fit.slots = size) ∧
        ∀ size', Splits req agents size' → req.slotsNeeded / size ≤ req.slotsNeeded / size') := by
  cases hshared : findSharedAgentFit c req agents with
  | some fit =>
    obtain ⟨hmem, halone, hslots⟩ := findSharedAgentFit_eq_some hshared
    have hfits : findFits c req agents = [fit] := by rw [findFits, hshared]
    have hex : ∃ ref ∈ agents.refs, RunsAlone req (agents.state ref) := ⟨fit.agent, hmem, halone⟩
    refine ⟨⟨fun _ => .inl hex, fun _ => by simp [hfits]⟩, fun _ => ⟨fit, hfits, hmem, halone, hslots⟩,
      fun hno => absurd hex hno⟩
  | none =>
    have hno := findSharedAgentFit_eq_none.mp hshared
    by_cases hmany : req.singleAgent = false ∧ 1 < req.slotsNeeded
    · obtain ⟨hseveral, hmany⟩ := hmany
      have hfits : findFits c req agents = findDedicatedAgentFits c req agents := by
        simp [findFits, hshared, hseveral, hmany]
      rw [hfits]
      have hspec := @findDedicatedAgentFits_spec _ _ _ agents c hmany hseveral
      rcases hspec with ⟨hnil, hnone⟩ | ⟨size, hsize, hlargest, hlength, hall⟩
      · refine ⟨?_, fun hex => absurd hex hno, fun _ hne => absurd hnil hne⟩
        simp only [hnil, ne_eq, not_true_eq_false, false_iff, not_or, not_exists]
        exact ⟨not_exists.mp hno, hnone⟩
      · have hpos : 0 < req.slotsNeeded / size :=
          Nat.div_pos (Nat.le_of_dvd (by omega) hsize.divides) hsize.pos
        refine ⟨⟨fun _ => .inr ⟨size, hsize⟩, fun _ hnil => ?_⟩, fun hex => absurd hex hno,
          fun _ _ => ⟨size, hsize, hlength, hall, fun size' hsize' => ?_⟩⟩
        · rw [hnil, List.length_nil] at hlength
          omega
        · exact Nat.div_le_div_left (hlargest size' hsize') hsize'.pos
    · have hfits : findFits c req agents = [] := by
        rw [findFits, hshared]
        refine if_pos ?_
        simp only [Bool.or_eq_true, decide_eq_true_eq]
        rw [not_and_or, Bool.not_eq_false, not_lt] at hmany
        exact hmany
      rw [hfits]
      refine ⟨?_, fun hex => absurd hex hno, fun _ hne => absurd rfl hne⟩
      simp only [ne_eq, not_true_eq_false, false_iff, not_or]
      refine ⟨hno, ?_⟩
      rintro ⟨size, hsize⟩
      exact hmany ⟨hsize.several, hsize.many⟩

/-- Whatever order the agents are walked in, the sort of their candidates comes out the same. -/
theorem candidates_unique {p : ℕ → Bool} {l : List (FittingState σ)}
    (hperm : l.Perm (candidates c req agents p)) (hsorted : l.Pairwise fun a b => less c b a = false) :
    l = candidates c req agents p := by
  refine List.Perm.eq_of_pairwise (fun a b ha hb hab hba => ?_)
    (hsorted.imp fun h => not_less_iff.mp (by simp [h])) (candidates_sorted p) hperm
  have hrank := le_antisymm hab hba
  simp only [rank, EmbeddingLike.apply_eq_iff_eq, Prod.mk.injEq] at hrank
  exact List.inj_on_of_nodup_map (candidates_nodup p) (hperm.mem_iff.mp ha) hb
    (c.address_injective hrank.2.2)

omit [LinearOrder σ] in
/-- Agents look the same in whatever order they are listed. -/
theorem alike_of_perm (c : Cluster σ) (req : AllocateRequest) {agents' : Agents}
    (hperm : agents'.refs.Perm agents.refs)
    (hstate : ∀ ref ∈ agents.refs, agents'.state ref = agents.state ref) :
    Alike c req agents' agents := by
  have hstate' : ∀ ref ∈ agents'.refs, agents'.state ref = agents.state ref :=
    fun ref href => hstate ref (hperm.mem_iff.mp href)
  refine ⟨?_, fun ref href _ => by rw [hstate' ref href], fun ref href _ => by rw [hstate' ref href],
    fun ref href _ => by rw [hstate' ref href], fun ref href _ => by rw [hstate' ref href]⟩
  rw [List.filter_congr fun ref href => by rw [hstate' ref href]]
  exact hperm.filter _

/-- CORRECT: fits are on different agents that satisfy the hard constraints of the search that found
    them, they provide the slots needed and can be allocated, and they do not depend on the order in
    which the agents are walked. -/
theorem findFits_sound (c : Cluster σ) (req : AllocateRequest) (agents : Agents) :
    ((findFits c req agents).map (·.agent)).Nodup ∧
    (findFits c req agents ≠ [] → ((findFits c req agents).map (·.slots)).sum = req.slotsNeeded) ∧
    ((∃ fit, findFits c req agents = [fit] ∧ isViable req (agents.state fit.agent)
        [slotsSatisfied, maxZeroSlotContainersSatisfied, labelSatisfied] = true) ∨
      ∀ fit ∈ findFits c req agents, isViable req (agents.state fit.agent)
        [labelSatisfied, agentSlotUnusedSatisfied] = true) ∧
    (∀ fit ∈ findFits c req agents, fit.agent ∈ agents.refs ∧
      fit.slots ≤ (agents.state fit.agent).numEmptySlots ∧
      ∀ draw, ∃ a' devices,
        (agents.state fit.agent).allocateFreeDevices draw fit.slots = .ok (a', devices)) ∧
    ∀ agents' : Agents, agents'.refs.Perm agents.refs →
      (∀ ref ∈ agents.refs, agents'.state ref = agents.state ref) →
        findFits c req agents' = findFits c req agents := by
  have hfits : Fits req agents (findFits c req agents) := findFits_fits
  refine ⟨hfits.nodup, hfits.sum, ?_, fun fit hfit => ⟨hfits.mem fit hfit, hfits.room fit hfit,
    fun draw => allocateFreeDevices_of_le draw (hfits.room fit hfit)⟩, fun agents' hperm hstate => ?_⟩
  · obtain ⟨-, halone, hsplit⟩ := findFits_complete c req agents
    by_cases hex : ∃ ref ∈ agents.refs, RunsAlone req (agents.state ref)
    · obtain ⟨fit, hone, -, hviable, -⟩ := halone hex
      exact .inl ⟨fit, hone, runsAlone_iff.mp hviable⟩
    · refine .inr fun fit hfit => ?_
      obtain ⟨size, -, -, hidle, -⟩ := hsplit hex (List.ne_nil_of_mem hfit)
      obtain ⟨-, hlabel, hused, -⟩ := mem_idleAgents.mp (hidle fit hfit).1
      simp [isViable, labelSatisfied, agentSlotUnusedSatisfied, hlabel, hused]
  · exact (alike_of_perm c req hperm hstate).findFits_eq

end Determined.Pool
