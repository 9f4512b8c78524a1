import Determined.Searcher.SearchMethod
import Determined.Model.SearcherConfig

/-! The rungs of the halving searches (`pkg/searcher/sha.go`), and the binary search that finds the
    place of a metric in them (`sort.Search`). -/

namespace Determined.Searcher
open Determined.Model

/-- The number of steps is at most the length of the interval. -/
def searchFrom (p : ℕ → Bool) : ℕ → ℕ → ℕ → ℕ
  | 0, i, _ => i
  | steps + 1, i, j =>
    if i < j then
      if p ((i + j) / 2) then searchFrom p steps i ((i + j) / 2)
      else searchFrom p steps ((i + j) / 2 + 1) j
    else i

/-- Go's `sort.Search`: binary search in `[0, n)`. -/
def sortSearch (n : ℕ) (p : ℕ → Bool) : ℕ := searchFrom p n 0 n

theorem searchFrom_le (p : ℕ → Bool) (steps : ℕ) : ∀ {i j : ℕ}, i ≤ j →
    searchFrom p steps i j ≤ j := by
  induction steps with
  | zero => exact fun h => h
  | succ steps ih =>
    intro i j h
    rw [searchFrom]
    split
    · split
      · exact (ih (by omega)).trans (by omega)
      · exact ih (by omega)
    · exact h

theorem sortSearch_le (n : ℕ) (p : ℕ → Bool) : sortSearch n p ≤ n := searchFrom_le p n (Nat.zero_le n)

theorem searchFrom_spec {p : ℕ → Bool} {n : ℕ}
    (hp : ∀ i j, i ≤ j → j < n → p i = true → p j = true) (steps : ℕ) : ∀ {i j : ℕ},
      i ≤ j → j ≤ n → j ≤ i + steps → (∀ k < i, p k = false) → (∀ k, j ≤ k → k < n → p k = true) →
      (∀ k < searchFrom p steps i j, p k = false) ∧
        ∀ k, searchFrom p steps i j ≤ k → k < n → p k = true := by
  induction steps with
  | zero =>
    intro i j hij hj hsteps hlow hhigh
    rw [searchFrom]
    exact ⟨hlow, fun k hk => hhigh k (by omega)⟩
  | succ steps ih =>
    intro i j hij hj hsteps hlow hhigh
    rw [searchFrom]
    split
    · split
      · rename_i hmid
        exact ih (by omega) (by omega) (by omega) hlow fun k hk hkn => hp _ k hk hkn hmid
      · rename_i hmid
        refine ih (by omega) hj (by omega) (fun k hk => ?_) hhigh
        refine Bool.eq_false_iff.mpr fun hpk => hmid (hp k _ (by omega) (by omega) hpk)
    · exact ⟨hlow, fun k hk => hhigh k (by omega)⟩

/-- If `p` stays true once it is, the search finds where it becomes true. -/
theorem sortSearch_spec {p : ℕ → Bool} {n : ℕ}
    (hp : ∀ i j, i ≤ j → j < n → p i = true → p j = true) :
    (∀ k < sortSearch n p, p k = false) ∧ ∀ k, sortSearch n p ≤ k → k < n → p k = true :=
  searchFrom_spec hp n (Nat.zero_le n) le_rfl (by omega) (by simp) (by omega)

structure TrialMetric (ι : Type) where
  requestID : ι
  metric : ℚ
  promoted : Bool
  deriving DecidableEq, Repr

/-- A set of trials that are to be trained for the same number of units. -/
structure Rung (ι : Type) where
  unitsNeeded : Length
  metrics : List (TrialMetric ι)
  startTrials : ℤ
  promoteTrials : ℤ
  outstandingTrials : ℤ
  deriving DecidableEq, Repr

instance {ι : Type} : Inhabited (Rung ι) := ⟨⟨⟨.batches, 0⟩, [], 0, 0, 0⟩⟩

namespace Rung

variable {ι : Type} (rung : Rung ι)

/-- The trials with a metric in the rung. -/
def ids : List ι := rung.metrics.map (·.requestID)

/-- The place of a metric in the sorted list. -/
def insertIndex (metric : ℚ) : ℕ :=
  sortSearch rung.metrics.length fun i => (rung.metrics[i]?).any fun tm => decide (metric < tm.metric)

theorem insertIndex_le (metric : ℚ) : rung.insertIndex metric ≤ rung.metrics.length :=
  sortSearch_le _ _

/-- The metrics are in order. -/
def Sorted : Prop := rung.metrics.Pairwise fun tm tm' => tm.metric ≤ tm'.metric

variable {rung} in
/-- A metric is placed behind those that are as good, before those that are worse. -/
theorem insertIndex_spec (h : rung.Sorted) (metric : ℚ) :
    (∀ tm ∈ rung.metrics.take (rung.insertIndex metric), tm.metric ≤ metric) ∧
      ∀ tm ∈ rung.metrics.drop (rung.insertIndex metric), metric < tm.metric := by
  obtain ⟨hbefore, hafter⟩ := sortSearch_spec (n := rung.metrics.length)
    (p := fun i => (rung.metrics[i]?).any fun tm => decide (metric < tm.metric)) (by
      intro i j hij hj hi
      rcases Nat.eq_or_lt_of_le hij with rfl | hlt
      · exact hi
      · have hle := List.pairwise_iff_getElem.mp h i j (by omega) hj hlt
        simp only [List.getElem?_eq_getElem (show i < rung.metrics.length by omega),
          List.getElem?_eq_getElem hj, Option.any_some, decide_eq_true_eq] at hi ⊢
        exact hi.trans_le hle)
  change ∀ k < rung.insertIndex metric, _ at hbefore
  change ∀ k, rung.insertIndex metric ≤ k → _ at hafter
  refine ⟨fun tm htm => ?_, fun tm htm => ?_⟩
  · obtain ⟨i, hi, rfl⟩ := List.mem_take_iff_getElem.mp htm
    have hat := hbefore i (by omega)
    rw [List.getElem?_eq_getElem (by omega)] at hat
    simpa using hat
  · obtain ⟨i, hi, rfl⟩ := List.mem_drop_iff_getElem.mp htm
    have hat := hafter (rung.insertIndex metric + i) (Nat.le_add_right ..) (by omega)
    rw [List.getElem?_eq_getElem (by omega)] at hat
    simpa using hat

end Rung

/-- The worst possible metric (`math.MaxFloat64`), which an exited trial is given. -/
def exitedMetricValue : ℚ := (2 ^ 53 - 1) * 2 ^ 971

/-- Go's conversion of a float to an integer, towards zero. -/
def toInt (q : ℚ) : ℤ := if 0 ≤ q then ⌊q⌋ else ⌈q⌉

theorem toInt_of_nonneg {q : ℚ} (h : 0 ≤ q) : toInt q = ⌊q⌋ := if_pos h

theorem toInt_mono : Monotone toInt := by
  intro a b h
  unfold toInt
  split <;> split
  · exact Int.floor_mono h
  · rename_i ha hb
    exact absurd (ha.trans h) hb
  · rename_i ha hb
    exact (Int.ceil_le.mpr (by push_cast; linarith)).trans (Int.floor_nonneg.mpr hb)
  · exact Int.ceil_mono h

/-- A validation's metric, so that smaller is better. -/
def extractMetric (name : String) (smallerIsBetter : Bool) (metrics : ValidationMetrics) :
    Except Fault ℚ := do
  let metric ← metrics.metric name
  return if smallerIsBetter then metric else -metric

end Determined.Searcher
