import Determined.Searcher.AsyncHalving
import Determined.Searcher.SyncHalvingCompletion

/-! The tables of rungs that the three constructors of the halving searches build are well formed.
    What the rungs need climbs to the maximum length: the divisions do not grow with the divisor's
    exponent, so the maxima taken with the rung below change nothing. What the rungs of a
    synchronous search start with descends, by the ladder of `SyncHalvingCompletion`. -/

namespace Determined.Searcher
open Determined.Model

variable {ι : Type}

/-! ### The units that rungs need -/

/-- So many rungs need ever more units, and the top one the maximum length. -/
structure UnitsClimb (maxLength : Length) (numRungs : ℤ) (rungs : List (Rung ι)) : Prop where
  length : rungs.length = numRungs
  positive : ∀ rung ∈ rungs, 0 < rung.unitsNeeded.units
  climb : rungs.IsChain fun lower upper => lower.unitsNeeded.units ≤ upper.unitsNeeded.units
  top : rungs.getLast?.map (·.unitsNeeded) = some maxLength

/-- The maximum length, divided for a rung of so many. -/
def dividedLength (maxLength : Length) (divisor : ℚ) (numRungs id : ℕ) : Length :=
  ⟨maxLength.unit, max ⌊maxLength.units / divisor ^ (numRungs - id - 1)⌋ 1⟩

theorem rungUnits_eq {config : SyncHalvingConfig} (hmax : 0 < config.maxLength.units)
    (hd : 1 < config.divisor) (id : ℕ) : rungUnits config id =
      dividedLength config.maxLength config.divisor config.numRungs.toNat id := by
  have hpos : 0 < compound config id := pow_pos (by linarith) _
  have hnonneg : 0 ≤ (config.maxLength.units : ℚ) / compound config id :=
    div_nonneg (by exact_mod_cast hmax.le) hpos.le
  rw [rungUnits, toInt_of_nonneg hnonneg, dividedLength, compound]

theorem dividedLength_le_succ {maxLength : Length} {divisor : ℚ} (hmax : 0 < maxLength.units)
    (hd : 1 < divisor) (numRungs id : ℕ) :
    (dividedLength maxLength divisor numRungs id).units ≤
      (dividedLength maxLength divisor numRungs (id + 1)).units := by
  have hpos : 0 < divisor ^ (numRungs - (id + 1) - 1) := pow_pos (by linarith) _
  have hle : divisor ^ (numRungs - (id + 1) - 1) ≤ divisor ^ (numRungs - id - 1) :=
    pow_le_pow_right₀ hd.le (by omega)
  have hmax' : (0 : ℚ) ≤ maxLength.units := by exact_mod_cast hmax.le
  exact max_le_max (Int.floor_le_floor (div_le_div_of_nonneg_left hmax' hpos hle)) le_rfl

theorem dividedLength_top {maxLength : Length} (hmax : 0 < maxLength.units) (divisor : ℚ) (n : ℕ) :
    dividedLength maxLength divisor (n + 1) n = maxLength := by
  have hzero : n + 1 - n - 1 = 0 := by omega
  have hone : max maxLength.units 1 = maxLength.units := max_eq_left hmax
  rw [dividedLength, hzero, pow_zero, div_one, Int.floor_intCast, hone]

/-- Rungs that need the divided lengths. -/
theorem unitsClimb_of_map {maxLength : Length} {divisor : ℚ} {numRungs : ℤ} {rungs : List (Rung ι)}
    (hmax : 0 < maxLength.units) (hnum : 1 ≤ numRungs) (hd : 1 < divisor)
    (h : rungs.map (·.unitsNeeded) =
      (List.range numRungs.toNat).map (dividedLength maxLength divisor numRungs.toNat)) :
    UnitsClimb maxLength numRungs rungs := by
  obtain ⟨n, hn⟩ : ∃ n : ℕ, numRungs.toNat = n + 1 := ⟨numRungs.toNat - 1, by omega⟩
  refine ⟨?_, fun rung hr => ?_, ?_, ?_⟩
  · have hlen := congrArg List.length h
    rw [List.length_map, List.length_map, List.length_range] at hlen
    omega
  · have hmem : rung.unitsNeeded ∈ rungs.map (·.unitsNeeded) := List.mem_map_of_mem hr
    rw [h] at hmem
    obtain ⟨id, -, hid⟩ := List.mem_map.mp hmem
    rw [← hid]
    exact Int.zero_lt_one.trans_le (le_max_right ..)
  · have hchain : ((List.range numRungs.toNat).map
        (dividedLength maxLength divisor numRungs.toNat)).IsChain
          fun lower upper => lower.units ≤ upper.units := by
      rw [List.isChain_map, hn, List.isChain_range]
      exact fun id _ => dividedLength_le_succ hmax hd _ id
    rw [← h, List.isChain_map] at hchain
    exact hchain
  · rw [← List.getLast?_map, h, hn, List.range_succ, List.map_append, List.map_singleton,
      List.getLast?_concat, dividedLength_top hmax]

/-- The chain reads only the units of its rungs. -/
theorem isChain_of_unitsNeeded_eq {cur cur' : Rung ι} {rungs : List (Rung ι)}
    (hcur : cur'.unitsNeeded = cur.unitsNeeded)
    (h : (cur :: rungs).IsChain fun lower upper =>
      lower.unitsNeeded.units ≤ upper.unitsNeeded.units) :
    (cur' :: rungs).IsChain fun lower upper =>
      lower.unitsNeeded.units ≤ upper.unitsNeeded.units := by
  cases rungs with
  | nil => exact List.isChain_singleton _
  | cons next rungs =>
    rw [List.isChain_cons_cons] at h ⊢
    exact ⟨hcur ▸ h.1, h.2⟩

/-- Where the rungs need ever more units already, the maxima taken change nothing. -/
theorem map_unitsNeeded_scaleRungs (multiplier : ℚ) (rungs : List (Rung ι)) : ∀ {prev : Rung ι},
    (prev :: rungs).IsChain (fun lower upper => lower.unitsNeeded.units ≤ upper.unitsNeeded.units) →
      (scaleRungs multiplier prev rungs).map (·.unitsNeeded) =
        (prev :: rungs).map (·.unitsNeeded) := by
  induction rungs with
  | nil => exact fun _ => rfl
  | cons cur rungs ih =>
    intro prev hchain
    rw [List.isChain_cons_cons] at hchain
    have hrest := @ih (newRung cur.unitsNeeded
      (max (min (toInt (multiplier * cur.startTrials)) prev.startTrials) 1))
      (isChain_of_unitsNeeded_eq (by rfl) hchain.2)
    rw [scaleRungs, List.map_cons, max_eq_left hchain.1]
    exact congrArg (prev.unitsNeeded :: ·) hrest

theorem map_unitsNeeded_linkRungs (rungs : List (Rung ι)) : ∀ {prev : Rung ι},
    (prev :: rungs).IsChain (fun lower upper => lower.unitsNeeded.units ≤ upper.unitsNeeded.units) →
      (linkRungs prev rungs).map (·.unitsNeeded) = (prev :: rungs).map (·.unitsNeeded) := by
  induction rungs with
  | nil => exact fun _ => rfl
  | cons cur rungs ih =>
    intro prev hchain
    rw [List.isChain_cons_cons] at hchain
    have hrest := @ih (newRung cur.unitsNeeded (max cur.startTrials prev.promoteTrials))
      (isChain_of_unitsNeeded_eq (by rfl) hchain.2)
    rw [linkRungs, List.map_cons, max_eq_left hchain.1]
    exact congrArg (prev.unitsNeeded :: ·) hrest

section Configured

variable {config : SyncHalvingConfig} (hmax : 0 < config.maxLength.units)
  (hnum : 1 ≤ config.numRungs) (hd : 1 < config.divisor)
include hmax hnum hd

/-- The lengths divided for the rungs climb, however many trials each is to start with, and so they
    do in rungs that need the same. -/
theorem unitsClimb_of_unlinked (startTrials : ℕ → ℤ) {rungs : List (Rung ι)}
    (h : ((List.range config.numRungs.toNat).map fun id =>
        newRung (ι := ι) (rungUnits config id) (startTrials id)).IsChain
          (fun lower upper => lower.unitsNeeded.units ≤ upper.unitsNeeded.units) →
      rungs.map (·.unitsNeeded) = ((List.range config.numRungs.toNat).map fun id =>
        newRung (ι := ι) (rungUnits config id) (startTrials id)).map (·.unitsNeeded)) :
    UnitsClimb config.maxLength config.numRungs rungs := by
  have hmap : ((List.range config.numRungs.toNat).map fun id =>
      newRung (ι := ι) (rungUnits config id) (startTrials id)).map (·.unitsNeeded) =
        (List.range config.numRungs.toNat).map
          (dividedLength config.maxLength config.divisor config.numRungs.toNat) := by
    rw [List.map_map]
    exact List.map_congr_left fun id _ => rungUnits_eq hmax hd id
  have hclimb := unitsClimb_of_map hmax hnum hd hmap
  exact unitsClimb_of_map hmax hnum hd ((h hclimb.climb).trans hmap)

theorem unitsClimb_newSyncHalvingSearch :
    UnitsClimb config.maxLength config.numRungs (newSyncHalvingSearch (ι := ι) config).rungs := by
  refine unitsClimb_of_unlinked hmax hnum hd (fun id => max (toInt (compound config id)) 1) ?_
  rw [newSyncHalvingSearch]
  generalize (List.map _ (List.range config.numRungs.toNat)) = unscaled
  intro hchain
  cases unscaled with
  | nil => rfl
  | cons first rest =>
    exact map_unitsNeeded_scaleRungs _ rest (isChain_of_unitsNeeded_eq (by rfl) hchain)

theorem unitsClimb_newSyncHalvingSimpleSearch (trials : ℤ) :
    UnitsClimb config.maxLength config.numRungs
      (newSyncHalvingSimpleSearch (ι := ι) config trials).rungs := by
  refine unitsClimb_of_unlinked hmax hnum hd
    (fun id => max (toInt (trials / config.divisor ^ id)) 1) ?_
  rw [newSyncHalvingSimpleSearch]
  generalize (List.map _ (List.range config.numRungs.toNat)) = unlinked
  intro hchain
  cases unlinked with
  | nil => rfl
  | cons first rest => exact map_unitsNeeded_linkRungs rest hchain

end Configured

/-! ### The trials that rungs start with -/

/-- Each rung starts with some trials, and promotes what the next starts with: no more than it starts
    with itself. The top rung promotes none. -/
structure TrialsDescend (rungs : List (Rung ι)) : Prop where
  positive : ∀ rung ∈ rungs, 0 < rung.startTrials
  descend : rungs.IsChain fun lower upper => upper.startTrials ≤ lower.startTrials
  promote : rungs.IsChain fun lower upper => lower.promoteTrials = upper.startTrials
  top : rungs.getLast?.map (·.promoteTrials) = some 0

theorem Ladder.trialsDescend {rungs : List (Rung ι)} (h : Ladder rungs)
    (hstart : 1 ≤ (rungs.getD 0 default).startTrials) : TrialsDescend rungs := by
  induction rungs with
  | nil => exact h.elim
  | cons rung rungs ih =>
    cases rungs with
    | nil =>
      refine ⟨fun r hr => ?_, List.isChain_singleton _, List.isChain_singleton _,
        congrArg some h.2⟩
      rw [List.mem_singleton.mp hr]
      exact Int.zero_lt_one.trans_le hstart
    | cons next rungs =>
      obtain ⟨-, hnext, hone, hle, hrest⟩ := h
      have hdescend := ih hrest (hone.trans hnext.le)
      refine ⟨fun r hr => ?_, ?_, ?_, hdescend.top⟩
      · rcases List.mem_cons.mp hr with rfl | hr
        · exact Int.zero_lt_one.trans_le hstart
        · exact hdescend.positive r hr
      · exact List.isChain_cons_cons.mpr ⟨hnext.symm.le.trans hle, hdescend.descend⟩
      · exact List.isChain_cons_cons.mpr ⟨hnext, hdescend.promote⟩

/-- Three rungs up to nine batches, with a divisor of three. -/
def threeRungs : SyncHalvingConfig where
  metric := "loss"
  smallerIsBetter := true
  numRungs := 3
  maxLength := ⟨.batches, 9⟩
  budget := ⟨.batches, 27⟩
  divisor := 3

end Determined.Searcher
