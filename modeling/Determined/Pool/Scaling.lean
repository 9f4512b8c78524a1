import Mathlib.Algebra.Order.Floor.Div
import Determined.Pool.Fitting

/-! How many instances a pool asks for (`internal/resourcemanagers/scaling.go`).

    The number is worked out from the tasks that have no allocation yet, by arithmetic on their
    slots and those of an instance, while the scheduler places a task by a search over the agents.
    The two agree on a list of tasks when those that are counted carry no label and, if they have to
    stay on one agent, fit into one instance. -/

namespace Determined.Pool

variable {α : Type}

/-- What the loop over the tasks adds up. -/
structure Demand where
  slotSum : ℕ
  allTasks : ℕ
  zeroSlotTasks : ℕ
  deriving DecidableEq, Repr

/-- A task whose slots neither fit into one instance nor fill several is left out. -/
def Demand.count (slotsPerAgent : ℕ) (d : Demand) (t : AllocateRequest) : Demand :=
  if t.slotsNeeded = 0 then
    { d with zeroSlotTasks := d.zeroSlotTasks + 1, allTasks := d.allTasks + 1 }
  else if slotsPerAgent = 0 then d
  else if t.slotsNeeded ≤ slotsPerAgent then
    { d with slotSum := d.slotSum + t.slotsNeeded, allTasks := d.allTasks + 1 }
  else if t.slotsNeeded % slotsPerAgent = 0 then
    { d with slotSum := d.slotSum + t.slotsNeeded, allTasks := d.allTasks + 1 }
  else d

/-- A task that is already allocated is skipped. -/
def demand (l : TaskList α) (slotsPerAgent : ℕ) : Demand :=
  l.taskByTime.foldl
    (fun d t => if (l.allocations t.taskActor).isSome then d else d.count slotsPerAgent t) ⟨0, 0, 0⟩

/-- The new instances for the pending tasks. Neither the slots of an instance type nor the limit of
    zero-slot tasks, which the configuration checks, is negative. -/
def calculateDesiredNewAgentNum (l : TaskList α) (slotsPerAgent maxZeroSlotTasksPerAgent : ℕ) : ℕ :=
  let d := demand l slotsPerAgent
  let numAgentByZeroSlot :=
    if d.zeroSlotTasks = 0 then 0
    else if maxZeroSlotTasksPerAgent = 0 then 0
    else (d.zeroSlotTasks + maxZeroSlotTasksPerAgent - 1) / maxZeroSlotTasksPerAgent
  let numAgentBySlot :=
    if d.slotSum = 0 then 0
    else if slotsPerAgent = 0 then 0
    else (d.slotSum + slotsPerAgent - 1) / slotsPerAgent
  max numAgentByZeroSlot numAgentBySlot

/-! ### The tasks that are counted -/

/-- The tasks that have no allocation. -/
def TaskList.pending (l : TaskList α) : List AllocateRequest :=
  l.taskByTime.filter fun t => (l.allocations t.taskActor).isNone

/-- The task counts towards the number: its slots fit into one instance or fill several, or it
    needs none and there is room for such tasks. -/
def Counted (slotsPerAgent maxZeroSlotTasksPerAgent : ℕ) (t : AllocateRequest) : Prop :=
  if t.slotsNeeded = 0 then maxZeroSlotTasksPerAgent ≠ 0
  else t.slotsNeeded ≤ slotsPerAgent ∨ slotsPerAgent ∣ t.slotsNeeded

instance (n m : ℕ) (t : AllocateRequest) : Decidable (Counted n m t) := by
  unfold Counted
  infer_instance

/-- The slots that a task adds to the sum. -/
def slotsCounted (slotsPerAgent : ℕ) (t : AllocateRequest) : ℕ :=
  if t.slotsNeeded ≤ slotsPerAgent ∨ slotsPerAgent ∣ t.slotsNeeded then t.slotsNeeded else 0

variable {n m : ℕ}

theorem zeroSlotTasks_count (d : Demand) (t : AllocateRequest) : (d.count n t).zeroSlotTasks =
    d.zeroSlotTasks + if t.slotsNeeded = 0 then 1 else 0 := by
  rw [Demand.count]
  split_ifs <;> rfl

theorem slotSum_count (d : Demand) (t : AllocateRequest) :
    (d.count n t).slotSum = d.slotSum + slotsCounted n t := by
  rw [Demand.count, slotsCounted]
  simp only [Nat.dvd_iff_mod_eq_zero]
  split_ifs <;> (simp_all; try omega)

variable (l : TaskList α)

theorem demand_eq : demand l n = l.pending.foldl (Demand.count n) ⟨0, 0, 0⟩ := by
  rw [demand, TaskList.pending, List.foldl_filter]
  congr 1
  funext d t
  cases l.allocations t.taskActor <;> rfl

theorem zeroSlotTasks_demand :
    (demand l n).zeroSlotTasks = l.pending.countP fun t => t.slotsNeeded = 0 := by
  have hfold : ∀ (ts : List AllocateRequest) (d : Demand), (ts.foldl (Demand.count n) d).zeroSlotTasks
      = d.zeroSlotTasks + ts.countP fun t => t.slotsNeeded = 0 := by
    intro ts
    induction ts with
    | nil => intro d; rfl
    | cons t ts ih =>
      intro d
      rw [List.foldl_cons, ih, zeroSlotTasks_count, List.countP_cons]
      simp only [decide_eq_true_eq]
      omega
  rw [demand_eq, hfold, Nat.zero_add]

theorem slotSum_demand : (demand l n).slotSum = (l.pending.map (slotsCounted n)).sum := by
  have hfold : ∀ (ts : List AllocateRequest) (d : Demand), (ts.foldl (Demand.count n) d).slotSum
      = d.slotSum + (ts.map (slotsCounted n)).sum := by
    intro ts
    induction ts with
    | nil => intro d; rfl
    | cons t ts ih =>
      intro d
      rw [List.foldl_cons, ih, slotSum_count, List.map_cons, List.sum_cons, Nat.add_assoc]
  rw [demand_eq, hfold, Nat.zero_add]

/-- The instances that the zero-slot tasks and the slots of the others fill, rounded up. -/
theorem calculateDesiredNewAgentNum_eq : calculateDesiredNewAgentNum l n m =
    max ((l.pending.countP fun t => t.slotsNeeded = 0) ⌈/⌉ m)
      ((l.pending.map (slotsCounted n)).sum ⌈/⌉ n) := by
  have hceil : ∀ a b : ℕ, (if a = 0 then 0 else if b = 0 then 0 else (a + b - 1) / b) = a ⌈/⌉ b := by
    intro a b
    rcases Nat.eq_zero_or_pos b with rfl | hb
    · simp
    · rw [Nat.ceilDiv_eq_add_pred_div, if_neg hb.ne']
      split
      · rename_i ha
        rw [ha, Nat.zero_add, Nat.div_eq_of_lt (by omega)]
      · rfl
  simp only [calculateDesiredNewAgentNum, hceil, zeroSlotTasks_demand, slotSum_demand]

/-- The number is positive as soon as a pending task counts. -/
theorem calculateDesiredNewAgentNum_pos :
    0 < calculateDesiredNewAgentNum l n m ↔ ∃ t ∈ l.pending, Counted n m t := by
  have hceil : ∀ a b : ℕ, 0 < a ⌈/⌉ b ↔ 0 < a ∧ 0 < b := by
    intro a b
    rcases Nat.eq_zero_or_pos b with rfl | hb
    · simp
    · rw [Nat.pos_iff_ne_zero, Ne, ← Nat.le_zero, ceilDiv_le_iff_le_smul hb]
      simp [hb, Nat.pos_iff_ne_zero]
  rw [calculateDesiredNewAgentNum_eq, lt_max_iff, hceil, hceil, List.countP_pos_iff]
  constructor
  · rintro (⟨⟨t, ht, hzero⟩, hm⟩ | ⟨hsum, hn⟩)
    · refine ⟨t, ht, ?_⟩
      rw [Counted, if_pos (by simpa using hzero)]
      exact hm.ne'
    · obtain ⟨s, hs, hpos⟩ := List.sum_pos_iff_exists_pos_nat.mp hsum
      obtain ⟨t, ht, rfl⟩ := List.mem_map.mp hs
      refine ⟨t, ht, ?_⟩
      rw [slotsCounted] at hpos
      split at hpos
      · rename_i hfit
        rwa [Counted, if_neg hpos.ne']
      · exact absurd hpos (lt_irrefl 0)
  · rintro ⟨t, ht, hcounted⟩
    rw [Counted] at hcounted
    split at hcounted
    · rename_i hzero
      exact .inl ⟨⟨t, ht, by simpa using hzero⟩, Nat.pos_of_ne_zero hcounted⟩
    · rename_i hslots
      refine .inr ⟨List.sum_pos_iff_exists_pos_nat.mpr ⟨_, List.mem_map_of_mem ht, ?_⟩, ?_⟩
      · rw [slotsCounted, if_pos hcounted]
        exact Nat.pos_of_ne_zero hslots
      · rcases hcounted with hle | hdvd
        · omega
        · exact Nat.pos_of_dvd_of_pos hdvd (Nat.pos_of_ne_zero hslots)

/-! ### Fresh agents -/

/-- An unlabelled agent of this type on which nothing runs. -/
structure Fresh (slotsPerAgent maxZeroSlotTasksPerAgent : ℕ) (a : AgentState) : Prop where
  label : a.label = ""
  slots : a.numSlots = slotsPerAgent
  unused : a.numUsedSlots = 0
  idle : a.numZeroSlotContainers = 0
  maxZeroSlotContainers : a.maxZeroSlotContainers = maxZeroSlotTasksPerAgent

variable {σ : Type} [LinearOrder σ] {c : Cluster σ} {t : AllocateRequest} {agents : Agents}

/-- The task fits onto fresh agents of this type, however many beyond some number there are. -/
def Placeable (c : Cluster σ) (slotsPerAgent maxZeroSlotTasksPerAgent : ℕ) (t : AllocateRequest) :
    Prop :=
  ∃ k, ∀ agents : Agents,
    (∀ ref ∈ agents.refs, Fresh slotsPerAgent maxZeroSlotTasksPerAgent (agents.state ref)) →
      k ≤ agents.refs.length → findFits c t agents ≠ []

theorem Fresh.numEmptySlots {a : AgentState} (h : Fresh n m a) : a.numEmptySlots = n := by
  rw [AgentState.numUsedSlots_eq_zero.mp h.unused, h.slots]

theorem candidates_eq_nil {p : ℕ → Bool} :
    candidates c t agents p = [] ↔ ∀ ref ∈ agents.refs, ¬ p ref := by
  have hlength : (candidates c t agents p).length = (agents.refs.filter p).length := by
    simpa using (candidates_perm p : ((candidates c t agents p).map (·.agent)).Perm _).length_eq
  rw [← List.length_eq_zero_iff, hlength, List.length_eq_zero_iff, List.filter_eq_nil_iff]

section
variable (hfresh : ∀ ref ∈ agents.refs, Fresh n m (agents.state ref))

include hfresh

/-- A task shares a fresh agent if its slots fit into an instance of the type. -/
theorem findSharedAgentFit_fresh : findSharedAgentFit c t agents ≠ none ↔ agents.refs ≠ [] ∧
    t.label = "" ∧ t.slotsNeeded ≤ n ∧ (t.slotsNeeded = 0 → m ≠ 0) := by
  have hviable : ∀ ref ∈ agents.refs, (slotsSatisfied t (agents.state ref) &&
      maxZeroSlotContainersSatisfied t (agents.state ref) && labelSatisfied t (agents.state ref)) =
        true ↔ t.label = "" ∧ t.slotsNeeded ≤ n ∧ (t.slotsNeeded = 0 → m ≠ 0) := by
    intro ref href
    have h := hfresh ref href
    simp only [slotsSatisfied, h.numEmptySlots, maxZeroSlotContainersSatisfied, h.idle,
      h.maxZeroSlotContainers, labelSatisfied, h.label]
    by_cases hzero : t.slotsNeeded = 0
    · simp [hzero, Nat.pos_iff_ne_zero, and_comm]
    · simp [hzero, and_comm]
  rw [findSharedAgentFit, Ne, Option.map_eq_none_iff, List.head?_eq_none_iff, candidates_eq_nil]
  constructor
  · intro h
    simp only [not_forall, not_not] at h
    obtain ⟨ref, href, hp⟩ := h
    exact ⟨List.ne_nil_of_mem href, (hviable ref href).mp hp⟩
  · rintro ⟨hne, hp⟩ h
    obtain ⟨ref, href⟩ := List.exists_mem_of_ne_nil _ hne
    exact h ref href ((hviable ref href).mpr hp)

/-- A task spread over fresh agents fills them. -/
theorem findDedicatedAgentFits_fresh (hslots : t.slotsNeeded ≠ 0) :
    findDedicatedAgentFits c t agents ≠ [] ↔
      t.label = "" ∧ n ∣ t.slotsNeeded ∧ t.slotsNeeded ≤ agents.refs.length * n := by
  have hviable : (agents.refs.filter fun ref => labelSatisfied t (agents.state ref) &&
      agentSlotUnusedSatisfied t (agents.state ref)) = if t.label = "" then agents.refs else [] := by
    split
    · rename_i hlabel
      refine List.filter_eq_self.mpr fun ref href => ?_
      have h := hfresh ref href
      simp [labelSatisfied, agentSlotUnusedSatisfied, h.unused, h.label, hlabel]
    · rename_i hlabel
      refine List.filter_eq_nil_iff.mpr fun ref href => ?_
      simp [labelSatisfied, (hfresh ref href).label, hlabel]
  have hempty : agents.refs.map (fun ref => (agents.state ref).numEmptySlots) =
      List.replicate agents.refs.length n := by
    rw [List.map_congr_left fun ref href => (hfresh ref href).numEmptySlots, List.map_const']
  simp only [findDedicatedAgentFits, hviable]
  constructor
  · intro hfits
    split at hfits
    · exact absurd rfl hfits
    · rename_i k hfind
      have hk := List.find?_some hfind
      have hmem := List.mem_of_find?_eq_some hfind
      simp only [Bool.and_eq_true, decide_eq_true_eq, beq_iff_eq] at hk
      rw [List.mem_insertionSort, List.mem_dedup] at hmem
      split at hmem
      · rename_i hlabel
        rw [if_pos hlabel, hempty] at hk
        obtain rfl := (List.mem_replicate.mp (hempty ▸ hmem)).2
        rw [List.count_replicate_self] at hk
        exact ⟨hlabel, Nat.dvd_of_mod_eq_zero hk.1.2, hk.2⟩
      · simp at hmem
  · rintro ⟨hlabel, hdvd, hle⟩
    have hn : n ≠ 0 := by
      rintro rfl
      exact hslots (Nat.zero_dvd.mp hdvd)
    have hlen : agents.refs.length ≠ 0 := by
      intro hzero
      rw [hzero, Nat.zero_mul] at hle
      omega
    rw [if_pos hlabel, hempty, List.replicate_dedup hlen]
    have hfind : ([n].insertionSort (· ≥ ·)).find? (fun k => decide (k ≠ 0) &&
        t.slotsNeeded % k == 0 && decide
          (((List.replicate agents.refs.length n).count k) * k ≥ t.slotsNeeded)) = some n := by
      simp [hn, Nat.mod_eq_zero_of_dvd hdvd, hle]
    rw [hfind]
    simp only [ne_eq, List.map_eq_nil_iff, List.take_eq_nil_iff, candidates_eq_nil, not_or]
    refine ⟨?_, fun hnone => ?_⟩
    · exact (Nat.div_pos (Nat.le_of_dvd (Nat.pos_of_ne_zero hslots) hdvd)
        (Nat.pos_of_ne_zero hn)).ne'
    · obtain ⟨ref, href⟩ := List.exists_mem_of_length_pos (Nat.pos_of_ne_zero hlen)
      have h := hfresh ref href
      refine hnone ref href ?_
      simp [labelSatisfied, agentSlotUnusedSatisfied, h.unused, h.label, hlabel, h.numEmptySlots]

/-- What fits onto so many fresh agents of the type. -/
theorem findFits_fresh : findFits c t agents ≠ [] ↔ agents.refs ≠ [] ∧ t.label = "" ∧
    (t.slotsNeeded ≤ n ∧ (t.slotsNeeded = 0 → m ≠ 0) ∨
      t.singleAgent = false ∧ n ∣ t.slotsNeeded ∧ t.slotsNeeded ≤ agents.refs.length * n ∧
        t.slotsNeeded ≠ 0) := by
  have hshared := findSharedAgentFit_fresh (c := c) (t := t) hfresh
  rw [findFits]
  cases h : findSharedAgentFit c t agents with
  | some fit =>
    obtain ⟨hne, hlabel, hfit⟩ := hshared.mp (by simp [h])
    simp only [ne_eq, List.cons_ne_nil, not_false_eq_true, true_iff]
    exact ⟨hne, hlabel, .inl hfit⟩
  | none =>
    have hnot : ¬ (agents.refs ≠ [] ∧ t.label = "" ∧ t.slotsNeeded ≤ n ∧
        (t.slotsNeeded = 0 → m ≠ 0)) := fun hfit => hshared.mpr hfit h
    by_cases hone : t.singleAgent || decide (t.slotsNeeded ≤ 1)
    · simp only [hone, if_true, ne_eq, not_true, false_iff]
      rintro ⟨hne, hlabel, hfit | ⟨hmulti, hdvd, -, hslots⟩⟩
      · exact hnot ⟨hne, hlabel, hfit⟩
      · -- A single slot that an instance divides fits into it.
        have hle : t.slotsNeeded ≤ 1 := by simpa [hmulti] using hone
        have hn := Nat.pos_of_dvd_of_pos hdvd (Nat.pos_of_ne_zero hslots)
        exact hnot ⟨hne, hlabel, hle.trans hn, fun hzero => absurd hzero hslots⟩
    · have hmany : t.singleAgent = false ∧ 1 < t.slotsNeeded := by simpa using hone
      simp only [hone, Bool.false_eq_true, if_false]
      rw [findDedicatedAgentFits_fresh hfresh (by omega)]
      constructor
      · rintro ⟨hlabel, hdvd, hle⟩
        refine ⟨?_, hlabel, .inr ⟨hmany.1, hdvd, hle, by omega⟩⟩
        rintro hnil
        rw [hnil, List.length_nil, Nat.zero_mul] at hle
        omega
      · rintro ⟨hne, hlabel, hfit | ⟨-, hdvd, hle, -⟩⟩
        · exact absurd ⟨hne, hlabel, hfit⟩ hnot
        · exact ⟨hlabel, hdvd, hle⟩

end

/-- An agent with its slots numbered. -/
def freshAgent (slotsPerAgent maxZeroSlotTasksPerAgent : ℕ) : AgentState where
  label := ""
  devices := (List.range slotsPerAgent).map fun i : ℕ => ⟨(i : ℤ), "", "", .gpu⟩
  container _ := none
  zeroSlotContainers := []
  maxZeroSlotContainers := maxZeroSlotTasksPerAgent
  nodup := List.nodup_range.map fun i j h => by simpa using h

theorem freshAgent_fresh : Fresh n m (freshAgent n m) := by
  constructor <;> simp [freshAgent, AgentState.numSlots, AgentState.numUsedSlots,
    AgentState.numZeroSlotContainers]

/-- A task is placed on enough fresh agents if it carries no label, and either fits into one of them
    or fills several and may be spread. -/
theorem placeable_iff : Placeable c n m t ↔ t.label = "" ∧
    (t.slotsNeeded ≤ n ∧ (t.slotsNeeded = 0 → m ≠ 0) ∨
      t.singleAgent = false ∧ n ∣ t.slotsNeeded ∧ t.slotsNeeded ≠ 0) := by
  constructor
  · rintro ⟨k, hk⟩
    have hfits := hk ⟨List.range k, fun _ => freshAgent n m, List.nodup_range⟩
      (fun _ _ => freshAgent_fresh) (by simp)
    obtain ⟨-, hlabel, hfit⟩ := (findFits_fresh fun _ _ => freshAgent_fresh).mp hfits
    exact ⟨hlabel, hfit.imp_right fun ⟨hmulti, hdvd, _, hslots⟩ => ⟨hmulti, hdvd, hslots⟩⟩
  · rintro ⟨hlabel, hfit⟩
    refine ⟨t.slotsNeeded + 1, fun agents hfresh hk => (findFits_fresh hfresh).mpr
      ⟨List.ne_nil_of_length_pos (by omega), hlabel, hfit.imp_right ?_⟩⟩
    rintro ⟨hmulti, hdvd, hslots⟩
    have hn := Nat.pos_of_dvd_of_pos hdvd (Nat.pos_of_ne_zero hslots)
    have hle := Nat.le_mul_of_pos_right agents.refs.length hn
    exact ⟨hmulti, hdvd, by omega, hslots⟩

/-! ### Scaling and fitting -/

/-- What can be placed is counted. -/
theorem counted_of_placeable (h : Placeable c n m t) : Counted n m t := by
  obtain ⟨-, hfit⟩ := placeable_iff.mp h
  rw [Counted]
  split
  · rename_i hzero
    rcases hfit with ⟨-, hm⟩ | ⟨-, -, hslots⟩
    · exact hm hzero
    · exact absurd hzero hslots
  · exact hfit.imp And.left fun hfit => hfit.2.1

/-- A counted task is placed unless it carries a label, or is to stay on an agent that is too
    small for it. -/
theorem placeable_iff_of_counted (h : Counted n m t) :
    Placeable c n m t ↔ t.label = "" ∧ (t.singleAgent → t.slotsNeeded ≤ n) := by
  rw [placeable_iff, and_congr_right_iff]
  intro _
  rw [Counted] at h
  split at h
  · rename_i hzero
    simp [hzero, h]
  · rename_i hslots
    cases hsingle : t.singleAgent <;> simp [hslots, h]

/-- CORRECT: the pool asks for instances exactly when a pending task could be placed on enough of
    them, and every task it counts could be, if and only if the pending tasks whose slots suit the
    instances are unlabelled and do not have to stay on an agent smaller than they are. -/
theorem calculateDesiredNewAgentNum_agrees_iff (c : Cluster σ) (l : TaskList α) (n m : ℕ) :
    ((0 < calculateDesiredNewAgentNum l n m ↔ ∃ t ∈ l.pending, Placeable c n m t) ∧
        ∀ t ∈ l.pending, Counted n m t → Placeable c n m t) ↔
      ∀ t ∈ l.pending, Counted n m t → t.label = "" ∧ (t.singleAgent → t.slotsNeeded ≤ n) := by
  constructor
  · rintro ⟨-, hplaceable⟩ t ht hcounted
    exact (placeable_iff_of_counted hcounted).mp (hplaceable t ht hcounted)
  · intro h
    have hplaceable : ∀ t ∈ l.pending, Counted n m t → Placeable c n m t := fun t ht hcounted =>
      (placeable_iff_of_counted hcounted).mpr (h t ht hcounted)
    refine ⟨?_, hplaceable⟩
    rw [calculateDesiredNewAgentNum_pos]
    exact ⟨fun ⟨t, ht, hcounted⟩ => ⟨t, ht, hplaceable t ht hcounted⟩,
      fun ⟨t, ht, hfit⟩ => ⟨t, ht, counted_of_placeable hfit⟩⟩

/-- The only task asks for four slots on a single agent. -/
def singleAgentTasks : TaskList Unit :=
  let task : AllocateRequest := ⟨⟨0, 4, "", 0, false⟩, "command", true⟩
  ⟨[task], [task], fun _ => none⟩

/-- Two instances of two slots each are asked for, on which the task is never placed. -/
theorem calculateDesiredNewAgentNum_single_agent :
    calculateDesiredNewAgentNum singleAgentTasks 2 100 = 2 ∧
      ¬ ((0 < calculateDesiredNewAgentNum singleAgentTasks 2 100 ↔ ∃ t ∈ singleAgentTasks.pending,
          Placeable (numberedCluster bestFit) 2 100 t) ∧
        ∀ t ∈ singleAgentTasks.pending, Counted 2 100 t →
          Placeable (numberedCluster bestFit) 2 100 t) := by
  refine ⟨by decide, fun ⟨hiff, _⟩ => ?_⟩
  simp only [placeable_iff] at hiff
  revert hiff
  decide

end Determined.Pool
