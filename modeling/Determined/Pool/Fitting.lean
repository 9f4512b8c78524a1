import Determined.Pool.Agent

/-! Fitting a task onto agents (`internal/resourcemanagers/fitting.go`, `fitting_methods.go`).

    A score is a value of any linear order; those of `bestFit` and `worstFit` are exact rationals
    (rounding is not modelled). The hash of a string is a parameter, as the code takes it from a
    library. Candidates are sorted by score, hash distance and address, and addresses differ, so the
    order in which the agents are walked does not matter. -/

namespace Determined.Pool
open Determined.Model

/-- The map of the agents; `refs` are its keys. -/
structure Agents where
  refs : List ℕ
  state : ℕ → AgentState
  nodup : refs.Nodup

/-- What stays the same while a pool runs. The sorts by time are those of the scheduler: they are
    not stable, so tasks registered together come in any order. -/
structure Cluster (σ : Type) where
  registeredTime : ℕ → ℤ
  address : ℕ → String
  stringHashNumber : String → UInt64
  fittingMethod : AllocateRequest → AgentState → σ
  oldestFirst : List AllocateRequest → List AllocateRequest
  latestFirst : List AllocateRequest → List AllocateRequest
  address_injective : Function.Injective address
  oldestFirst_perm : ∀ l, (oldestFirst l).Perm l
  oldestFirst_sorted : ∀ l, (oldestFirst l).Pairwise fun a b =>
    registeredTime a.taskActor ≤ registeredTime b.taskActor
  latestFirst_perm : ∀ l, (latestFirst l).Perm l
  latestFirst_sorted : ∀ l, (latestFirst l).Pairwise fun a b =>
    registeredTime b.taskActor ≤ registeredTime a.taskActor

/-- Actors are registered in the order of their numbers, and all strings hash to zero. -/
def numberedCluster {σ : Type} (fittingMethod : AllocateRequest → AgentState → σ) : Cluster σ where
  registeredTime actor := actor
  address actor := String.ofList (List.replicate actor 'a')
  stringHashNumber _ := 0
  fittingMethod := fittingMethod
  oldestFirst := List.insertionSort fun a b => a.taskActor ≤ b.taskActor
  latestFirst := List.insertionSort fun a b => b.taskActor ≤ a.taskActor
  address_injective := fun a b h => by simpa using congrArg String.length h
  oldestFirst_perm := List.perm_insertionSort _
  oldestFirst_sorted l := by
    have htotal : Std.Total fun a b : AllocateRequest => a.taskActor ≤ b.taskActor :=
      ⟨fun a b => le_total a.taskActor b.taskActor⟩
    have htrans : IsTrans AllocateRequest fun a b => a.taskActor ≤ b.taskActor :=
      ⟨fun a b d => le_trans⟩
    exact (List.pairwise_insertionSort _ l).imp fun h => Int.ofNat_le.mpr h
  latestFirst_perm := List.perm_insertionSort _
  latestFirst_sorted l := by
    have htotal : Std.Total fun a b : AllocateRequest => b.taskActor ≤ a.taskActor :=
      ⟨fun a b => le_total b.taskActor a.taskActor⟩
    have htrans : IsTrans AllocateRequest fun a b => b.taskActor ≤ a.taskActor :=
      ⟨fun a b d hab hbd => le_trans hbd hab⟩
    exact (List.pairwise_insertionSort _ l).imp fun h => Int.ofNat_le.mpr h

namespace Agents

variable (agents : Agents)

def empty : Agents := ⟨[], fun _ => .new "" 0, List.nodup_nil⟩

def get (ref : ℕ) : Option AgentState := if ref ∈ agents.refs then some (agents.state ref) else none

/-- Change the state of an agent of the map. -/
def set (ref : ℕ) (a : AgentState) : Agents :=
  { agents with state := Function.update agents.state ref a }

/-- Put an agent into the map. -/
def add (ref : ℕ) (a : AgentState) : Agents where
  refs := if ref ∈ agents.refs then agents.refs else agents.refs ++ [ref]
  state := Function.update agents.state ref a
  nodup := by
    split
    · exact agents.nodup
    · rename_i h
      rw [← List.concat_eq_append]
      exact agents.nodup.concat h

def remove (ref : ℕ) : Agents :=
  { agents with
    refs := agents.refs.erase ref
    nodup := agents.nodup.erase ref }

/-- The agents of one label. -/
def withLabel (label : String) : Agents :=
  { agents with
    refs := agents.refs.filter fun ref => (agents.state ref).label == label
    nodup := agents.nodup.filter _ }

def labels : List String := (agents.refs.map fun ref => (agents.state ref).label).dedup

end Agents

/-! ### Constraints -/

def slotsSatisfied (req : AllocateRequest) (a : AgentState) : Bool :=
  decide (req.slotsNeeded ≤ a.numEmptySlots)

def labelSatisfied (req : AllocateRequest) (a : AgentState) : Bool := req.label == a.label

def maxZeroSlotContainersSatisfied (req : AllocateRequest) (a : AgentState) : Bool :=
  if req.slotsNeeded = 0 then
    if a.maxZeroSlotContainers = 0 then false
    else decide ((a.numZeroSlotContainers : ℤ) < a.maxZeroSlotContainers)
  else true

def agentSlotUnusedSatisfied (_ : AllocateRequest) (a : AgentState) : Bool := a.numUsedSlots == 0

/-- Prefer the agent that is both most utilized and offers the fewest slots. -/
def bestFit (req : AllocateRequest) (a : AgentState) : ℚ :=
  if a.numUsedSlots ≠ 0 ∨ req.slotsNeeded ≠ 0 then 1 / (1 + a.numEmptySlots)
  else if a.maxZeroSlotContainers = 0 then 0
  else 1 / (1 + (a.maxZeroSlotContainers - a.numZeroSlotContainers))

/-- Prefer the agent that is least utilized. -/
def worstFit (req : AllocateRequest) (a : AgentState) : ℚ :=
  if a.numUsedSlots ≠ 0 ∨ req.slotsNeeded ≠ 0 then a.numEmptySlots / a.numSlots
  else if a.maxZeroSlotContainers = 0 then 0
  else (a.maxZeroSlotContainers - a.numZeroSlotContainers) / a.maxZeroSlotContainers

/-- The fitting policies of the configuration. -/
inductive FittingPolicy where | best | worst
  deriving DecidableEq, Repr

def makeFitFunction : FittingPolicy → AllocateRequest → AgentState → ℚ
  | .best => bestFit
  | .worst => worstFit

/-! ### Candidates -/

structure FittingState (σ : Type) where
  agent : ℕ
  score : σ
  hashDistance : UInt64
  slots : ℕ
  deriving DecidableEq, Repr

variable {σ : Type} [LinearOrder σ] (c : Cluster σ)

/-- The difference wraps around, as for any unsigned number. -/
def hashDistance (req : AllocateRequest) (ref : ℕ) : UInt64 :=
  c.stringHashNumber req.id - c.stringHashNumber (c.address ref)

/-- Ties of the score are broken by the hash distance, and its ties by the address. -/
def less (a b : FittingState σ) : Bool :=
  if a.score > b.score then true
  else if a.score < b.score then false
  else if a.hashDistance < b.hashDistance then true
  else if a.hashDistance > b.hashDistance then false
  else decide (c.address a.agent < c.address b.agent)

/-- The candidates in order. -/
def candidates (req : AllocateRequest) (agents : Agents) (p : ℕ → Bool) : List (FittingState σ) :=
  ((agents.refs.filter p).map fun ref =>
    ⟨ref, c.fittingMethod req (agents.state ref), hashDistance c req ref, 0⟩).insertionSort
      fun a b => !less c b a

def findSharedAgentFit (req : AllocateRequest) (agents : Agents) : Option (FittingState σ) :=
  let viable := fun ref => slotsSatisfied req (agents.state ref) &&
    maxZeroSlotContainersSatisfied req (agents.state ref) && labelSatisfied req (agents.state ref)
  (candidates c req agents viable).head?.map fun fit => { fit with slots := req.slotsNeeded }

/-- Multi-agent tasks receive all the slots of every agent they are scheduled on, and the largest
    agents whose slots divide the task's are preferred. -/
def findDedicatedAgentFits (req : AllocateRequest) (agents : Agents) : List (FittingState σ) :=
  let viable := fun ref => labelSatisfied req (agents.state ref) &&
    agentSlotUnusedSatisfied req (agents.state ref)
  let emptySlots := (agents.refs.filter viable).map fun ref => (agents.state ref).numEmptySlots
  let numSlots := emptySlots.dedup.insertionSort (· ≥ ·)
  match numSlots.find? fun n => decide (n ≠ 0) && req.slotsNeeded % n == 0 &&
      decide (emptySlots.count n * n ≥ req.slotsNeeded) with
  | none => []
  | some candidateNumSlots =>
    let numContainers := req.slotsNeeded / candidateNumSlots
    ((candidates c req agents fun ref =>
      viable ref && (agents.state ref).numEmptySlots == candidateNumSlots).take numContainers).map
        fun fit => { fit with slots := req.slotsNeeded / numContainers }

def findFits (req : AllocateRequest) (agents : Agents) : List (FittingState σ) :=
  match findSharedAgentFit c req agents with
  | some fit => [fit]
  | none =>
    if req.singleAgent || decide (req.slotsNeeded ≤ 1) then []
    else findDedicatedAgentFits c req agents

/-! ### What a fit is -/

/-- Agents of the task's label with room for their share of its slots. -/
structure Fits (req : AllocateRequest) (agents : Agents) (fits : List (FittingState σ)) : Prop where
  nodup : (fits.map (·.agent)).Nodup
  mem : ∀ fit ∈ fits, fit.agent ∈ agents.refs
  label : ∀ fit ∈ fits, (agents.state fit.agent).label = req.label
  room : ∀ fit ∈ fits, fit.slots ≤ (agents.state fit.agent).numEmptySlots
  zero : ∀ fit ∈ fits, fit.slots = 0 ↔ req.slotsNeeded = 0
  sum : fits ≠ [] → (fits.map (·.slots)).sum = req.slotsNeeded

variable {c} {req : AllocateRequest} {agents : Agents}

theorem candidates_perm (p : ℕ → Bool) :
    ((candidates c req agents p).map (·.agent)).Perm (agents.refs.filter p) := by
  have hsort := ((List.perm_insertionSort (fun a b => !less c b a)
    ((agents.refs.filter p).map fun ref => (⟨ref, c.fittingMethod req (agents.state ref),
      hashDistance c req ref, 0⟩ : FittingState σ))).map (·.agent))
  rw [List.map_map] at hsort
  simpa [candidates, Function.comp_def] using hsort

theorem mem_candidates {p : ℕ → Bool} {fit : FittingState σ}
    (h : fit ∈ candidates c req agents p) : fit.agent ∈ agents.refs ∧ p fit.agent := by
  have hperm : ((candidates c req agents p).map (·.agent)).Perm (agents.refs.filter p) :=
    candidates_perm p
  have := hperm.mem_iff.mp (List.mem_map_of_mem h)
  exact List.mem_filter.mp this

theorem candidates_nodup (p : ℕ → Bool) : ((candidates c req agents p).map (·.agent)).Nodup :=
  (candidates_perm p).nodup_iff.mpr (agents.nodup.filter p)

theorem fits_of_shared {fit : FittingState σ} (h : findSharedAgentFit c req agents = some fit) :
    Fits req agents [fit] := by
  obtain ⟨fit', hhead, rfl⟩ := Option.map_eq_some_iff.mp h
  obtain ⟨hmem, hviable⟩ := mem_candidates (List.mem_of_mem_head? hhead)
  simp only [Bool.and_eq_true, slotsSatisfied, labelSatisfied, decide_eq_true_eq,
    beq_iff_eq] at hviable
  constructor <;> simp [hmem, hviable.2.symm, hviable.1.1]

/-- The candidates with `n` empty slots are as many as the agents counted for `n`. -/
theorem length_candidates (c : Cluster σ) (req : AllocateRequest) (p : ℕ → Bool) (n : ℕ) :
    (candidates c req agents fun ref => p ref && (agents.state ref).numEmptySlots == n).length =
      ((agents.refs.filter p).map fun ref => (agents.state ref).numEmptySlots).count n := by
  have hperm : ((candidates c req agents fun ref => p ref &&
      (agents.state ref).numEmptySlots == n).map (·.agent)).length =
        (agents.refs.filter fun ref => p ref && (agents.state ref).numEmptySlots == n).length :=
    (candidates_perm _).length_eq
  rw [List.length_map] at hperm
  rw [hperm, List.count, List.countP_map, List.countP_eq_length_filter, List.filter_filter]
  simp only [Function.comp_def, Bool.and_comm]

theorem fits_of_dedicated (hslots : req.slotsNeeded ≠ 0) :
    Fits req agents (findDedicatedAgentFits c req agents) := by
  simp only [findDedicatedAgentFits]
  split
  · constructor <;> simp
  · rename_i n hfind
    have hn := List.find?_some hfind
    simp only [Bool.and_eq_true, decide_eq_true_eq, beq_iff_eq] at hn
    obtain ⟨⟨hpos, hdvd⟩, hcount⟩ := hn
    obtain ⟨k, hk⟩ := Nat.dvd_of_mod_eq_zero hdvd
    have hk0 : k ≠ 0 := by rintro rfl; simp_all
    -- The task is split over `k` agents with `n` slots each.
    have hcontainers : req.slotsNeeded / n = k := by
      rw [hk, Nat.mul_div_cancel_left k (Nat.pos_of_ne_zero hpos)]
    have hshare : req.slotsNeeded / k = n := by
      rw [hk, Nat.mul_div_cancel n (Nat.pos_of_ne_zero hk0)]
    rw [hcontainers, hshare]
    rw [← length_candidates c req] at hcount
    generalize hl : candidates c req agents (fun ref =>
      (labelSatisfied req (agents.state ref) && agentSlotUnusedSatisfied req (agents.state ref)) &&
        (agents.state ref).numEmptySlots == n) = l at hcount
    have hlen : k ≤ l.length := by
      rw [hk, Nat.mul_comm n k] at hcount
      exact Nat.le_of_mul_le_mul_right hcount (Nat.pos_of_ne_zero hpos)
    have hmem : ∀ fit ∈ l, fit.agent ∈ agents.refs ∧ (agents.state fit.agent).label = req.label ∧
        (agents.state fit.agent).numEmptySlots = n := by
      intro fit hfit
      obtain ⟨href, hviable⟩ := mem_candidates (hl ▸ hfit)
      simp only [Bool.and_eq_true, labelSatisfied, beq_iff_eq] at hviable
      exact ⟨href, hviable.1.1.symm, hviable.2⟩
    have hnodup : (l.map (·.agent)).Nodup := hl ▸ candidates_nodup _
    constructor
    · rw [List.map_map]
      exact hnodup.sublist ((List.take_sublist k l).map _)
    · rintro fit hfit
      obtain ⟨fit', hfit', rfl⟩ := List.mem_map.mp hfit
      exact (hmem fit' (List.mem_of_mem_take hfit')).1
    · rintro fit hfit
      obtain ⟨fit', hfit', rfl⟩ := List.mem_map.mp hfit
      exact (hmem fit' (List.mem_of_mem_take hfit')).2.1
    · rintro fit hfit
      obtain ⟨fit', hfit', rfl⟩ := List.mem_map.mp hfit
      exact (hmem fit' (List.mem_of_mem_take hfit')).2.2.ge
    · rintro fit hfit
      obtain ⟨fit', -, rfl⟩ := List.mem_map.mp hfit
      exact iff_of_false hpos hslots
    · intro _
      simp [List.map_map, Function.comp_def, hlen, hk, Nat.mul_comm]

theorem findFits_fits : Fits req agents (findFits c req agents) := by
  rw [findFits]
  split
  · rename_i fit hfit
    exact fits_of_shared hfit
  · split
    · constructor <;> simp
    · rename_i hmany
      simp only [Bool.or_eq_true, decide_eq_true_eq, not_or, not_le] at hmany
      exact fits_of_dedicated (by omega)

/-! ### What a fit depends on -/

/-- What candidates are compared by. -/
def rank (c : Cluster σ) (fit : FittingState σ) : σᵒᵈ ×ₗ ℕ ×ₗ String :=
  toLex (OrderDual.toDual fit.score, toLex (fit.hashDistance.toNat, c.address fit.agent))

theorem less_iff {a b : FittingState σ} : less c a b = true ↔ rank c a < rank c b := by
  rw [less, rank, rank, Prod.Lex.toLex_lt_toLex, Prod.Lex.toLex_lt_toLex]
  rcases lt_trichotomy a.score b.score with h | h | h
  · simp [h, h.not_gt, h.ne]
  · rcases lt_trichotomy a.hashDistance.toNat b.hashDistance.toNat with h' | h' | h'
    · simp [h, h', UInt64.lt_iff_toNat_lt]
    · simp [h, h', UInt64.lt_iff_toNat_lt]
    · simp [h, h', h'.not_gt, h'.ne', UInt64.lt_iff_toNat_lt]
  · simp [h]

theorem not_less_iff {a b : FittingState σ} : (!less c b a) = true ↔ rank c a ≤ rank c b := by
  rw [Bool.not_eq_true', ← Bool.not_eq_true, less_iff, not_lt]

theorem candidates_sorted (p : ℕ → Bool) :
    (candidates c req agents p).Pairwise fun a b => rank c a ≤ rank c b := by
  have htotal : Std.Total fun a b : FittingState σ => (!less c b a) = true :=
    ⟨fun a b => by simpa only [not_less_iff] using le_total (rank c a) (rank c b)⟩
  have htrans : IsTrans (FittingState σ) fun a b => (!less c b a) = true :=
    ⟨fun a b d => by simpa only [not_less_iff] using le_trans⟩
  exact (List.pairwise_insertionSort _ _).imp not_less_iff.mp

/-- The candidates are the same, whatever the order in which the agents are walked. -/
theorem candidates_congr {agents' : Agents} {p p' : ℕ → Bool}
    (hperm : (agents.refs.filter p).Perm (agents'.refs.filter p'))
    (hscore : ∀ ref ∈ agents.refs.filter p,
      c.fittingMethod req (agents.state ref) = c.fittingMethod req (agents'.state ref)) :
    candidates c req agents p = candidates c req agents' p' := by
  refine List.Perm.eq_of_pairwise (fun a b ha hb hab hba => ?_) (candidates_sorted p)
    (candidates_sorted p') ?_
  · have hslots : ∀ {agents : Agents} {p : ℕ → Bool} {fit : FittingState σ},
        fit ∈ candidates c req agents p → fit.slots = 0 := by
      intro agents p fit hfit
      rw [candidates, List.mem_insertionSort] at hfit
      obtain ⟨ref, -, rfl⟩ := List.mem_map.mp hfit
      rfl
    have hrank := le_antisymm hab hba
    simp only [rank, EmbeddingLike.apply_eq_iff_eq, Prod.mk.injEq] at hrank
    obtain ⟨hscore, hhash, haddress⟩ := hrank
    obtain ⟨agent, score, hash, slots⟩ := a
    obtain ⟨agent', score', hash', slots'⟩ := b
    obtain rfl := c.address_injective haddress
    obtain rfl := UInt64.toNat_inj.mp hhash
    obtain rfl : score = score' := hscore
    obtain rfl : slots = 0 := hslots ha
    obtain rfl : slots' = 0 := hslots hb
    rfl
  · refine (List.perm_insertionSort _ _).trans (List.Perm.trans ?_
      (List.perm_insertionSort _ _).symm)
    have hmap : (agents.refs.filter p).map (fun ref => (⟨ref,
        c.fittingMethod req (agents.state ref), hashDistance c req ref, 0⟩ : FittingState σ)) =
          (agents.refs.filter p).map fun ref =>
            ⟨ref, c.fittingMethod req (agents'.state ref), hashDistance c req ref, 0⟩ :=
      List.map_congr_left fun ref href => by rw [hscore ref href]
    rw [hmap]
    exact hperm.map _

/-- The agents look the same to a task: those of its label have the same slots, used and empty,
    serve zero-slot tasks alike, and are scored alike. -/
structure Alike (c : Cluster σ) (req : AllocateRequest) (agents agents' : Agents) : Prop where
  perm : (agents.refs.filter fun ref => labelSatisfied req (agents.state ref)).Perm
    (agents'.refs.filter fun ref => labelSatisfied req (agents'.state ref))
  used : ∀ ref ∈ agents.refs, labelSatisfied req (agents.state ref) →
    (agents.state ref).numUsedSlots = (agents'.state ref).numUsedSlots
  empty : ∀ ref ∈ agents.refs, labelSatisfied req (agents.state ref) →
    (agents.state ref).numEmptySlots = (agents'.state ref).numEmptySlots
  zeroSlot : ∀ ref ∈ agents.refs, labelSatisfied req (agents.state ref) →
    maxZeroSlotContainersSatisfied req (agents.state ref) =
      maxZeroSlotContainersSatisfied req (agents'.state ref)
  score : ∀ ref ∈ agents.refs, labelSatisfied req (agents.state ref) →
    c.fittingMethod req (agents.state ref) = c.fittingMethod req (agents'.state ref)

namespace Alike

variable {agents' : Agents} (h : Alike c req agents agents')

include h

omit [LinearOrder σ] in
/-- Of the agents of the task's label, the same meet conditions that look the same. -/
theorem filter {q : AgentState → Bool}
    (hq : ∀ ref ∈ agents.refs, labelSatisfied req (agents.state ref) →
      q (agents.state ref) = q (agents'.state ref)) :
    (agents.refs.filter fun ref => labelSatisfied req (agents.state ref) &&
        q (agents.state ref)).Perm
      (agents'.refs.filter fun ref => labelSatisfied req (agents'.state ref) &&
        q (agents'.state ref)) := by
  have hsplit : ∀ agents : Agents, (agents.refs.filter fun ref =>
      labelSatisfied req (agents.state ref) && q (agents.state ref)) =
        (agents.refs.filter fun ref => labelSatisfied req (agents.state ref)).filter
          fun ref => q (agents.state ref) := fun agents => by
    rw [List.filter_filter]
    simp only [Bool.and_comm]
  rw [hsplit, hsplit, List.filter_congr fun ref href => ?_]
  · exact h.perm.filter _
  · obtain ⟨hmem, hlabel⟩ := List.mem_filter.mp href
    exact hq ref hmem hlabel

theorem candidates_eq {q : AgentState → Bool}
    (hq : ∀ ref ∈ agents.refs, labelSatisfied req (agents.state ref) →
      q (agents.state ref) = q (agents'.state ref)) :
    candidates c req agents (fun ref => labelSatisfied req (agents.state ref) &&
        q (agents.state ref)) =
      candidates c req agents' (fun ref => labelSatisfied req (agents'.state ref) &&
        q (agents'.state ref)) := by
  refine candidates_congr (h.filter hq) fun ref href => ?_
  obtain ⟨hmem, hviable⟩ := List.mem_filter.mp href
  exact h.score ref hmem (by simp_all)

theorem findSharedAgentFit_eq :
    findSharedAgentFit c req agents = findSharedAgentFit c req agents' := by
  have heq := h.candidates_eq (q := fun a => slotsSatisfied req a &&
    maxZeroSlotContainersSatisfied req a) fun ref hmem hlabel => by
      rw [slotsSatisfied, slotsSatisfied, h.empty ref hmem hlabel, h.zeroSlot ref hmem hlabel]
  simp only [findSharedAgentFit, Bool.and_comm _ (labelSatisfied req _)]
  rw [heq]

theorem findDedicatedAgentFits_eq :
    findDedicatedAgentFits c req agents = findDedicatedAgentFits c req agents' := by
  have hunused : ∀ ref ∈ agents.refs, labelSatisfied req (agents.state ref) →
      agentSlotUnusedSatisfied req (agents.state ref) =
        agentSlotUnusedSatisfied req (agents'.state ref) := fun ref hmem hlabel => by
    rw [agentSlotUnusedSatisfied, agentSlotUnusedSatisfied, h.used ref hmem hlabel]
  have hempty : ((agents.refs.filter fun ref => labelSatisfied req (agents.state ref) &&
      agentSlotUnusedSatisfied req (agents.state ref)).map fun ref =>
        (agents.state ref).numEmptySlots).Perm
      ((agents'.refs.filter fun ref => labelSatisfied req (agents'.state ref) &&
        agentSlotUnusedSatisfied req (agents'.state ref)).map fun ref =>
          (agents'.state ref).numEmptySlots) := by
    rw [List.map_congr_left fun ref href => ?_]
    · exact (h.filter hunused).map _
    · obtain ⟨hmem, hviable⟩ := List.mem_filter.mp href
      exact h.empty ref hmem (by simp_all)
  have hsorted : ∀ {l l' : List ℕ}, l.Perm l' →
      l.dedup.insertionSort (· ≥ ·) = l'.dedup.insertionSort (· ≥ ·) := fun hperm =>
    List.Perm.eq_of_pairwise' (List.pairwise_insertionSort _ _) (List.pairwise_insertionSort _ _)
      ((List.perm_insertionSort _ _).trans (hperm.dedup.trans (List.perm_insertionSort _ _).symm))
  have hcandidates : ∀ n, candidates c req agents (fun ref =>
      (labelSatisfied req (agents.state ref) && agentSlotUnusedSatisfied req (agents.state ref)) &&
        (agents.state ref).numEmptySlots == n) = candidates c req agents' (fun ref =>
      (labelSatisfied req (agents'.state ref) && agentSlotUnusedSatisfied req (agents'.state ref))
        && (agents'.state ref).numEmptySlots == n) := by
    intro n
    simp only [Bool.and_assoc]
    exact h.candidates_eq (q := fun a => agentSlotUnusedSatisfied req a && a.numEmptySlots == n)
      fun ref hmem hlabel => by rw [hunused ref hmem hlabel, h.empty ref hmem hlabel]
  simp only [findDedicatedAgentFits, hsorted hempty, hempty.count_eq, hcandidates]

/-- A task fits the same way onto agents that look the same to it. -/
theorem findFits_eq : findFits c req agents = findFits c req agents' := by
  rw [findFits, findFits, h.findSharedAgentFit_eq, h.findDedicatedAgentFits_eq]

end Alike

end Determined.Pool
