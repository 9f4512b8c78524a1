import Determined.Schemes.Run

/-! Training lengths (`pkg/model/length.go`): a number of records, batches or epochs, converted to
    batches by truncation (`toNearestBatch`) and compared with a number of batches up to one batch
    (`equalWithinBatch`). Go's `int` is ℤ and its division truncates (`Int.tdiv`).

    For a length of at least one batch the two agree: the first number of batches that
    `equalWithinBatch` accepts is the one `toNearestBatch` computes. Below one batch they do not,
    since zero batches already count as equal. -/

namespace Determined.Model

/-- The type of unit for specifying lengths. -/
inductive LengthUnit where | records | batches | epochs
  deriving DecidableEq, Repr

/-- The context for switching the unit of a length freely. -/
structure UnitContext where
  defaultUnit : LengthUnit
  globalBatchSize : ℤ
  recordsPerEpoch : ℤ
  deriving DecidableEq, Repr

/-- A training duration in terms of records, batches or epochs. -/
structure Length where
  unit : LengthUnit
  units : ℤ
  deriving DecidableEq, Repr

def newLengthInRecords (records : ℤ) : Length := ⟨.records, records⟩

def newLengthInBatches (batches : ℤ) : Length := ⟨.batches, batches⟩

def newLengthInEpochs (epochs : ℤ) : Length := ⟨.epochs, epochs⟩

/-- Convert a training length to the nearest batch, truncating what is left of a batch. -/
def Length.toNearestBatch (l : Length) (ctx : UnitContext) : ℤ :=
  match l.unit with
  | .records => l.units.tdiv ctx.globalBatchSize
  | .batches => l.units
  | .epochs => (l.units * ctx.recordsPerEpoch).tdiv ctx.globalBatchSize

/-- Whether the length and the batches are equal within one batch size. -/
def Length.equalWithinBatch (l : Length) (batches : ℤ) (ctx : UnitContext) : Bool :=
  match l.unit with
  | .records => |l.units - batches * ctx.globalBatchSize| < ctx.globalBatchSize
  | .batches => l.units == batches
  | .epochs =>
    |l.units * ctx.recordsPerEpoch - batches * ctx.globalBatchSize| < ctx.globalBatchSize

/-! ### Truncation against equality within a batch -/

/-- A nonnegative number of records is within one batch of its truncation to batches. -/
theorem within_tdiv {v g : ℤ} (hv : 0 ≤ v) (hg : 0 < g) : |v - v.tdiv g * g| < g := by
  rw [Int.tdiv_eq_ediv_of_nonneg hv, abs_lt]
  have hmod := Int.emod_add_mul_ediv v g
  have hnn := Int.emod_nonneg v hg.ne'
  have hlt := Int.emod_lt_of_pos v hg
  have hcomm : v / g * g = g * (v / g) := mul_comm ..
  constructor <;> omega

/-- A positive length is equal within one batch to the batches it truncates to. -/
theorem Length.equalWithinBatch_toNearestBatch {l : Length} {ctx : UnitContext}
    (hl : 0 ≤ l.units) (hg : 0 < ctx.globalBatchSize) (hr : 0 < ctx.recordsPerEpoch) :
    l.equalWithinBatch (l.toNearestBatch ctx) ctx = true := by
  unfold Length.equalWithinBatch Length.toNearestBatch
  cases l.unit with
  | records => simpa using within_tdiv hl hg
  | batches => simp
  | epochs => simpa using within_tdiv (mul_nonneg hl hr.le) hg

/-- A positive length of less than one batch is equal within one batch to a single batch. -/
theorem Length.equalWithinBatch_one {l : Length} {ctx : UnitContext}
    (hl : 0 < l.units) (hg : 0 < ctx.globalBatchSize) (hr : 0 < ctx.recordsPerEpoch)
    (h0 : l.toNearestBatch ctx ≤ 0) : l.equalWithinBatch 1 ctx = true := by
  have sub : ∀ {v : ℤ}, 0 < v → v.tdiv ctx.globalBatchSize ≤ 0 →
      |v - 1 * ctx.globalBatchSize| < ctx.globalBatchSize := by
    intro v hv hd
    rw [Int.tdiv_eq_ediv_of_nonneg hv.le] at hd
    have hlt : v < ctx.globalBatchSize := by
      by_contra hge
      have := Int.ediv_le_ediv hg (not_lt.mp hge)
      rw [Int.ediv_self hg.ne'] at this
      omega
    rw [abs_lt]
    constructor <;> omega
  unfold Length.toNearestBatch at h0
  unfold Length.equalWithinBatch
  cases hu : l.unit with
  | records => simp only [hu] at h0; simpa using sub hl h0
  | batches => simp only [hu] at h0; omega
  | epochs => simp only [hu] at h0; simpa using sub (mul_pos hl hr) h0

/-! ### The number of batches a length is equal to -/

/-- A positive length that the context can convert to batches. -/
structure Length.Positive (l : Length) (ctx : UnitContext) : Prop where
  units : 0 < l.units
  globalBatchSize : l.unit ≠ .batches → 0 < ctx.globalBatchSize
  recordsPerEpoch : l.unit = .epochs → 0 < ctx.recordsPerEpoch

/-- A length of at least one batch. -/
structure Length.AtLeastOneBatch (l : Length) (ctx : UnitContext) : Prop where
  batches : 1 ≤ l.toNearestBatch ctx
  globalBatchSize : l.unit ≠ .batches → 0 < ctx.globalBatchSize

/-- Up to the batches they truncate to, records are within one batch of those only. -/
theorem within_iff {v g n : ℤ} (hg : 0 < g) (hq : 1 ≤ v.tdiv g) (hn : n ≤ v.tdiv g) :
    |v - n * g| < g ↔ n = v.tdiv g := by
  have hv : 0 ≤ v := by
    by_contra hneg
    have hneg' := Int.tdiv_nonneg (a := -v) (b := g) (by omega) hg.le
    rw [Int.neg_tdiv] at hneg'
    omega
  constructor
  · intro h
    have hlt : v < (n + 1) * g := by linarith [(abs_lt.mp h).2]
    rw [Int.tdiv_eq_ediv_of_nonneg hv] at hn ⊢
    have := Int.ediv_lt_of_lt_mul hg hlt
    omega
  · rintro rfl
    exact within_tdiv hv hg

theorem Length.AtLeastOneBatch.equalWithinBatch_iff {l : Length} {ctx : UnitContext} {n : ℤ}
    (h : l.AtLeastOneBatch ctx) (hn : n ≤ l.toNearestBatch ctx) :
    l.equalWithinBatch n ctx = true ↔ n = l.toNearestBatch ctx := by
  obtain ⟨hq, hg⟩ := h
  unfold Length.toNearestBatch at hq hn ⊢
  unfold Length.equalWithinBatch
  cases hu : l.unit with
  | records =>
    simp only [hu] at hq hn
    simpa using within_iff (hg (by simp [hu])) hq hn
  | batches => exact beq_iff_eq.trans eq_comm
  | epochs =>
    simp only [hu] at hq hn
    simpa using within_iff (hg (by simp [hu])) hq hn

theorem Length.AtLeastOneBatch.units_ne_zero {l : Length} {ctx : UnitContext}
    (h : l.AtLeastOneBatch ctx) : l.units ≠ 0 := by
  intro h0
  have hq := h.batches
  unfold Length.toNearestBatch at hq
  rw [h0] at hq
  cases hu : l.unit <;> simp [hu] at hq

/-- A positive length is first equal to the batches it truncates to, or to one. -/
theorem Length.Positive.equalWithinBatch_iff {l : Length} {ctx : UnitContext} {n : ℤ}
    (h : l.Positive ctx) (h1 : 1 ≤ n) (hn : n ≤ max 1 (l.toNearestBatch ctx)) :
    l.equalWithinBatch n ctx = true ↔ n = max 1 (l.toNearestBatch ctx) := by
  by_cases hq : 1 ≤ l.toNearestBatch ctx
  · have hbatch : l.AtLeastOneBatch ctx := ⟨hq, h.globalBatchSize⟩
    rw [max_eq_right hq] at hn ⊢
    exact hbatch.equalWithinBatch_iff hn
  · rw [max_eq_left (by omega)] at hn ⊢
    obtain rfl : n = 1 := le_antisymm hn h1
    -- less than one batch is within one batch of it
    have hsub : ∀ {v : ℤ}, 0 < v → 0 < ctx.globalBatchSize →
        ¬ 1 ≤ v.tdiv ctx.globalBatchSize → |v - 1 * ctx.globalBatchSize| < ctx.globalBatchSize := by
      intro v hv hg hd
      rw [Int.tdiv_eq_ediv_of_nonneg hv.le, Int.le_ediv_iff_mul_le hg] at hd
      rw [abs_lt]
      constructor <;> omega
    simp only [iff_true]
    unfold Length.toNearestBatch at hq
    unfold Length.equalWithinBatch
    cases hu : l.unit with
    | records =>
      simp only [hu] at hq
      simpa using hsub h.units (h.globalBatchSize (by simp [hu])) hq
    | batches =>
      simp only [hu] at hq
      exact absurd h.units (by omega)
    | epochs =>
      simp only [hu] at hq
      simpa using hsub (mul_pos h.units (h.recordsPerEpoch hu))
        (h.globalBatchSize (by simp [hu])) hq

end Determined.Model
