import Determined.Searcher.GridPoints
import Determined.Searcher.Nprand
import Mathlib.Analysis.SpecialFunctions.Pow.Continuity

/-! Random samples of the hyperparameters (`pkg/searcher/hyperparameters.go`), and how population
    based training explores the neighborhood of one (`exploreParams` in `pkg/searcher/pbt.go`).

    Floats are elements of an ordered field; the bounds are about the reals. -/

namespace Determined.Searcher

open Determined.Model Determined.Nprand Determined.Schemes

variable {α K : Type}

/-- A value of a hyperparameter, an `interface{}`. -/
inductive Value (α K : Type) where
  | nil
  | given (val : α)
  | int (val : Int64)
  | float (val : K)
  deriving DecidableEq

/-- What floats are computed with, beside the operations of a field. -/
structure FloatOps (K : Type) where
  /-- `math.Pow`. -/
  pow : K → K → K
  /-- What the conversion to int makes of an integral float that is out of range; the language
      leaves this open. -/
  overflow : ℤ → Int64

/-- `int(f)` for an integral `f`. -/
def FloatOps.toInt (ops : FloatOps K) (f : ℤ) : Int64 :=
  if -2 ^ 63 ≤ f ∧ f < 2 ^ 63 then .ofInt f else ops.overflow f

/-- Explore the neighborhood of a trial. -/
structure PBTExploreConfig where
  resampleProbability : ℚ
  perturbFactor : ℚ

/-! ### Samples -/

section Samples

variable [Field K] [LinearOrder K]

/-- `vals[i]`. -/
def index (vals : List α) (i : Int64) : Draws K α :=
  match if i < 0 then none else vals[i.toInt.toNat]? with
  | some val => pure val
  | none => fun _ => .error (.panic "index out of range")

def sampleOne (ops : FloatOps K) : Hyperparameter α → Draws K (Value α K)
  | .const val => pure (.given val)
  | .int p => do return .int (p.minval + (← intn (p.maxval - p.minval)))
  | .double p => do return .float (← uniform p.minval p.maxval)
  | .log p => do return .float (ops.pow p.base (← uniform p.minval p.maxval))
  | .categorical vals => do return .given (← index vals (← intn (.ofNat vals.length)))

def sampleAll (ops : FloatOps K) (h : Hyperparameters α) : Draws K (HparamSample (Value α K)) :=
  h.each.mapM fun param => do return (param.1, ← sampleOne ops param.2)

/-! ### Exploration -/

/-- The two clamps have the same body. -/
def clamp {T : Type} [LT T] [DecidableLT T] (val minval maxval : T) : T :=
  if val < minval then minval else if maxval < val then maxval else val

def intClamp (val minval maxval : Int64) : Int64 := clamp val minval maxval

def doubleClamp (val minval maxval : K) : K := clamp val minval maxval

variable [FloorRing K]

/-- Perturb the value by some multiplicative factor. -/
def perturb (ops : FloatOps K) (decrease : Bool) (multiplier : K) :
    Hyperparameter α → Value α K → Draws K (Value α K)
  | .int h, .int val =>
    let perturbed := if decrease then ⌊(val.toInt : K) * multiplier⌋ else ⌈(val.toInt : K) * multiplier⌉
    pure (.int (intClamp (ops.toInt perturbed) h.minval h.maxval))
  | .double h, .float val => pure (.float (doubleClamp (val * multiplier) h.minval h.maxval))
  | .log h, .float val =>
    let minval := ops.pow h.base h.minval
    let maxval := ops.pow h.base h.maxval
    pure (.float (doubleClamp (val * multiplier) minval maxval))
  | .const _, val => pure val
  | .categorical _, val => pure val
  | _, _ => fun _ => .error (.panic "interface conversion")

/-- Resample a parameter anew, or perturb it from its previous value. -/
def exploreOne (ops : FloatOps K) (s : PBTExploreConfig) (sampler : Hyperparameter α)
    (val : Value α K) : Draws K (Value α K) := do
  let resample ← unitInterval
  if resample < s.resampleProbability then sampleOne ops sampler
  else
    let coin ← unitInterval
    let decrease := decide (coin < 0.5)
    let multiplier : K := if decrease then 1 - s.perturbFactor else 1 + s.perturbFactor
    perturb ops decrease multiplier sampler val

def exploreParams (ops : FloatOps K) (s : PBTExploreConfig) (h : Hyperparameters α)
    (old : HparamSample (Value α K)) : Draws K (HparamSample (Value α K)) :=
  h.each.mapM fun param => do
    return (param.1, ← exploreOne ops s param.2 ((old.lookup param.1).getD .nil))

/-- The samples that a search comes to: one that was sampled, and each one that was explored from
    such a sample. -/
inductive Derived (ops : FloatOps K) (s : PBTExploreConfig) (h : Hyperparameters α) :
    HparamSample (Value α K) → Prop
  | sample {words words' : List UInt32} {new : HparamSample (Value α K)} :
    sampleAll ops h words = .ok (new, words') → Derived ops s h new
  | explore {words words' : List UInt32} {old new : HparamSample (Value α K)} :
    Derived ops s h old → exploreParams ops s h old words = .ok (new, words') → Derived ops s h new

end Samples

/-! ### One value for each hyperparameter -/

theorem mem_each_iff {h : Hyperparameters α} {param : String × Hyperparameter α} :
    param ∈ h.each ↔ param ∈ h.entries := (List.mergeSort_perm _ _).mem_iff

theorem each_nodup (h : Hyperparameters α) : (h.each.map Prod.fst).Nodup :=
  ((List.mergeSort_perm _ _).map _).nodup_iff.mpr h.nodup

/-- With one entry for each parameter, under its name, the name finds the entry. -/
theorem lookup_of_forall₂ {β V : Type} {P : β → V → Prop} {params : List (String × β)}
    {sample : List (String × V)}
    (h : List.Forall₂ (fun param entry => entry.1 = param.1 ∧ P param.2 entry.2) params sample)
    (hnodup : (params.map Prod.fst).Nodup) {param : String × β} (hmem : param ∈ params) :
    ∃ val, sample.lookup param.1 = some val ∧ P param.2 val := by
  induction h with
  | nil => cases hmem
  | @cons first entry params sample hfirst _ ih =>
    obtain ⟨name, val⟩ := entry
    obtain ⟨rfl, hP⟩ := hfirst
    rw [List.map_cons, List.nodup_cons] at hnodup
    rcases List.mem_cons.mp hmem with rfl | hrest
    · exact ⟨val, List.lookup_cons_self, hP⟩
    · have hne : (param.1 == first.1) = false :=
        beq_false_of_ne fun heq => hnodup.1 (heq ▸ List.mem_map_of_mem hrest)
      rw [List.lookup_cons, hne]
      exact ih hnodup.2 hrest

/-- What a computation for each hyperparameter returns is found under its name. -/
theorem ensures_each {h : Hyperparameters α} {V : Type}
    {f : String × Hyperparameter α → Draws K V} {P : Hyperparameter α → V → Prop}
    (hf : ∀ param ∈ h.entries, Ensures (f param) (P param.2)) :
    Ensures (h.each.mapM fun param => do return (param.1, ← f param) : Draws K (HparamSample V))
      fun sample => ∀ param ∈ h.entries, ∃ val, sample.lookup param.1 = some val ∧ P param.2 val := by
  refine (ensures_mapM (R := fun param entry => entry.1 = param.1 ∧ P param.2 entry.2)
    fun param hparam => ?_).mono fun sample hsample param hparam => ?_
  · exact (hf param (mem_each_iff.mp hparam)).bind fun val hval => ensures_pure ⟨rfl, hval⟩
  · exact lookup_of_forall₂ hsample (each_nodup h) (mem_each_iff.mpr hparam)

/-! ### Bounds -/

theorem clamp_cases {T : Type} [LT T] [DecidableLT T] (val minval maxval : T) :
    clamp val minval maxval = minval ∨ clamp val minval maxval = maxval ∨
      (clamp val minval maxval = val ∧ ¬val < minval ∧ ¬maxval < val) := by
  rw [clamp]
  split_ifs with hmin hmax
  · exact .inl rfl
  · exact .inr (.inl rfl)
  · exact .inr (.inr ⟨rfl, hmin, hmax⟩)

theorem intClamp_mem {minval maxval : Int64} (h : minval < maxval) (val : Int64) :
    minval ≤ intClamp val minval maxval ∧ intClamp val minval maxval ≤ maxval := by
  rw [intClamp]
  rcases clamp_cases val minval maxval with heq | heq | ⟨heq, hmin, hmax⟩
  · rw [heq]
    exact ⟨Int64.le_refl _, Int64.le_of_lt h⟩
  · rw [heq]
    exact ⟨Int64.le_of_lt h, Int64.le_refl _⟩
  · rw [heq]
    exact ⟨Int64.not_lt.mp hmin, Int64.not_lt.mp hmax⟩

/-- A clamped value is between the bounds, also when these are in the wrong order. -/
theorem doubleClamp_mem [LinearOrder K] (val minval maxval : K) :
    clamp val minval maxval ∈ Set.uIcc minval maxval := by
  rcases clamp_cases val minval maxval with heq | heq | ⟨heq, hmin, hmax⟩
  · rw [heq]
    exact Set.left_mem_uIcc
  · rw [heq]
    exact Set.right_mem_uIcc
  · rw [heq]
    exact Set.mem_uIcc_of_le (not_lt.mp hmin) (not_lt.mp hmax)

/-- The value is one that the configuration declares. The minimum and the maximum of a logarithmic
    hyperparameter are exponents of its base. -/
def Within : Hyperparameter α → Value α ℝ → Prop
  | .const c, val => val = .given c
  | .int p, val => ∃ i, val = .int i ∧ p.minval ≤ i ∧ i ≤ p.maxval
  | .double p, val => ∃ x : ℝ, val = .float x ∧ p.minval ≤ x ∧ x ≤ p.maxval
  | .log p, val => ∃ e : ℝ, val = .float ((p.base : ℝ) ^ e) ∧ p.minval ≤ e ∧ e ≤ p.maxval
  | .categorical vals, val => ∃ c ∈ vals, val = .given c

/-- Exact arithmetic. -/
noncomputable def exactOps (overflow : ℤ → Int64) : FloatOps ℝ where
  pow := fun base exponent => base ^ exponent
  overflow := overflow

/-- The powers with exponents of an interval fill the interval between those of its ends. -/
theorem exists_exponent {base minval maxval x : ℝ} (hbase : 0 < base) (h : minval ≤ maxval)
    (hx : x ∈ Set.uIcc (base ^ minval) (base ^ maxval)) :
    ∃ e, x = base ^ e ∧ minval ≤ e ∧ e ≤ maxval := by
  obtain ⟨e, he, rfl⟩ := intermediate_value_uIcc
    (Real.continuous_const_rpow hbase.ne').continuousOn hx
  rw [Set.uIcc_of_le h] at he
  exact ⟨e, rfl, he⟩

/-! ### What validation accepts -/

theorem int_lt_of_validate {p : IntHyperparameter} (h : p.validate = []) :
    p.minval < p.maxval := Int64.lt_iff_toInt_lt.mpr (Int.sub_pos.mp (range_pos h))

theorem double_lt_of_validate {p : DoubleHyperparameter} (h : p.validate = []) :
    p.minval < p.maxval := by
  rw [DoubleHyperparameter.validate, check.greaterThan, List.append_eq_nil_iff, check_eq_nil] at h
  exact of_decide_eq_true h.1

theorem log_lt_of_validate {p : LogHyperparameter} (h : p.validate = []) :
    p.minval < p.maxval ∧ 0 < p.base := by
  rw [LogHyperparameter.validate, check.greaterThan, check.greaterThan, List.append_eq_nil_iff,
    List.append_eq_nil_iff, check_eq_nil, check_eq_nil] at h
  exact ⟨of_decide_eq_true h.1.1, of_decide_eq_true h.1.2⟩

/-- The range of an interval is not empty, but it may overflow. -/
theorem range_ne_zero {minval maxval : Int64} (hlt : minval < maxval) : maxval - minval ≠ 0 := by
  intro h
  obtain rfl : maxval = minval := by
    rw [← Int64.sub_add_cancel maxval minval, h, Int64.zero_add]
  exact Int64.lt_irrefl hlt

/-- Where the range does not overflow, its sum with what is drawn below it does not. -/
theorem add_intn_mem {minval maxval r : Int64} (hlt : minval < maxval)
    (hrange : 0 < maxval - minval) (h : 0 ≤ r) (hr : r < maxval - minval) :
    minval ≤ minval + r ∧ minval + r ≤ maxval := by
  rw [Int64.lt_iff_toInt_lt] at hlt
  rw [Int64.lt_iff_toInt_lt, Int64.toInt_sub, Int64.toInt_zero] at hrange
  rw [Int64.le_iff_toInt_le, Int64.toInt_zero] at h
  rw [Int64.lt_iff_toInt_lt, Int64.toInt_sub] at hr
  have hmin := minval.le_toInt
  have hmax := maxval.toInt_lt
  have hsmall : maxval.toInt - minval.toInt < 2 ^ 63 := by
    by_contra hbig
    have := bmod_of_le (not_lt.mp hbig)
    omega
  rw [Int.bmod_eq_of_le (by omega) (by omega)] at hr
  rw [Int64.le_iff_toInt_le, Int64.le_iff_toInt_le, Int64.toInt_add,
    Int.bmod_eq_of_le (by omega) (by omega)]
  omega

/-! ### What is sampled and explored -/

theorem index_mem [Field K] [LinearOrder K] (vals : List α) (i : Int64) :
    Ensures (index (K := K) vals i) (· ∈ vals) := by
  rw [index]
  split
  case h_1 val hval =>
    refine ensures_pure ?_
    split_ifs at hval
    exact List.mem_of_getElem? hval
  case h_2 => exact ensures_throw _

variable {overflow : ℤ → Int64}

theorem sampleOne_within {p : Hyperparameter α} (hvalid : p.validate = []) :
    Ensures (sampleOne (exactOps overflow) p) (Within p) := by
  cases p with
  | const c => exact ensures_pure rfl
  | int p =>
    have hlt := int_lt_of_validate hvalid
    refine (intn_mem (range_ne_zero hlt)).bind fun r hr => ensures_pure ?_
    exact ⟨_, rfl, add_intn_mem hlt hr.1 hr.2.1 hr.2.2⟩
  | double p =>
    exact (uniform_mem _ _).bind fun x hx => ensures_pure ⟨x, rfl, hx.1, hx.2.le⟩
  | log p =>
    exact (uniform_mem _ _).bind fun e he => ensures_pure ⟨e, rfl, he.1, he.2.le⟩
  | categorical vals =>
    refine (ensures_any _).bind fun i _ => (index_mem vals i).bind fun c hc => ensures_pure ?_
    exact ⟨c, hc, rfl⟩

theorem perturb_within {p : Hyperparameter α} (hvalid : p.validate = []) {val : Value α ℝ}
    (hval : Within p val) (decrease : Bool) (multiplier : ℝ) :
    Ensures (perturb (exactOps overflow) decrease multiplier p val) (Within p) := by
  cases p with
  | const c => exact ensures_pure hval
  | int p =>
    obtain ⟨i, rfl, -, -⟩ := hval
    exact ensures_pure ⟨_, rfl, intClamp_mem (int_lt_of_validate hvalid) _⟩
  | double p =>
    obtain ⟨x, rfl, -, -⟩ := hval
    have hlt := double_lt_of_validate hvalid
    refine ensures_pure ⟨_, rfl, ?_⟩
    have hmem := doubleClamp_mem (x * multiplier) (p.minval : ℝ) p.maxval
    rw [Set.uIcc_of_le (by exact_mod_cast hlt.le)] at hmem
    exact hmem
  | log p =>
    obtain ⟨e, rfl, -, -⟩ := hval
    have hlt := log_lt_of_validate hvalid
    obtain ⟨e', heq, he'⟩ := exists_exponent (by exact_mod_cast hlt.2) (by exact_mod_cast hlt.1.le)
      (doubleClamp_mem ((p.base : ℝ) ^ e * multiplier) ((p.base : ℝ) ^ (p.minval : ℝ))
        ((p.base : ℝ) ^ (p.maxval : ℝ)))
    exact ensures_pure ⟨e', congrArg _ heq, he'⟩
  | categorical vals => exact ensures_pure hval

theorem exploreOne_within {p : Hyperparameter α} (hvalid : p.validate = []) {val : Value α ℝ}
    (hval : Within p val) (s : PBTExploreConfig) :
    Ensures (exploreOne (exactOps overflow) s p val) (Within p) := by
  refine (ensures_any _).bind fun resample _ => ?_
  split_ifs
  · exact sampleOne_within hvalid
  · exact (ensures_any _).bind fun coin _ => perturb_within hvalid hval _ _

/-- CORRECT: however long a chain of explorations, each value stays within what is declared for its
    hyperparameter, if that was accepted by validation. -/
theorem derived_within (overflow : ℤ → Int64) (s : PBTExploreConfig) (h : Hyperparameters α)
    (hvalid : ∀ param ∈ h.entries, param.2.validate = []) (sample : HparamSample (Value α ℝ))
    (hsample : Derived (exactOps overflow) s h sample) :
    ∀ param ∈ h.entries, ∃ val, sample.lookup param.1 = some val ∧ Within param.2 val := by
  induction hsample with
  | sample hnew => exact ensures_each (fun param hparam => sampleOne_within (hvalid param hparam)) _ _ _ hnew
  | @explore words words' old new hold hnew ih =>
    refine ensures_each (fun param hparam => ?_) _ _ _ hnew
    obtain ⟨val, hval, hwithin⟩ := ih param hparam
    rw [hval]
    exact exploreOne_within (hvalid param hparam) hwithin s

/-- With a base of at least one, the minimum and the maximum are those of the powers. -/
theorem within_log_of_one_le {p : LogHyperparameter} (hbase : 1 ≤ p.base) {val : Value α ℝ}
    (h : Within (.log p) val) :
    ∃ x : ℝ, val = .float x ∧ (p.base : ℝ) ^ (p.minval : ℝ) ≤ x ∧ x ≤ (p.base : ℝ) ^ (p.maxval : ℝ) := by
  obtain ⟨e, rfl, hmin, hmax⟩ := h
  have hone : (1 : ℝ) ≤ p.base := by exact_mod_cast hbase
  exact ⟨_, rfl, Real.rpow_le_rpow_of_exponent_le hone hmin,
    Real.rpow_le_rpow_of_exponent_le hone hmax⟩

/-- An integer between 1 and 10. -/
def units : Hyperparameters String where
  entries := [("units", .int ⟨1, 10, none⟩)]
  nodup := by decide

/-- 5 is sampled, and 4 explored from it. -/
theorem derived_within_units :
    Derived (exactOps fun _ => 0) ⟨0, 1 / 5⟩ units [("units", .int 4)] ∧
      ∀ param ∈ units.entries, ∃ val, List.lookup param.1 [("units", .int 4)] = some val ∧
        Within param.2 val := by
  have heach : units.each = units.entries := List.mergeSort_singleton _
  have hsample : sampleAll (exactOps fun _ => 0) units [4] = .ok ([("units", .int 5)], []) := by
    rw [sampleAll, heach]
    rfl
  have hexplore : exploreParams (exactOps fun _ => 0) ⟨0, 1 / 5⟩ units [("units", .int 5)]
      [0, 0, 0, 0] = .ok ([("units", .int 4)], []) := by
    have hunit (words : List UInt32) :
        unitInterval (K := ℝ) (0 :: 0 :: words) = .ok (0, words) := by
      change Except.ok ((((0 : UInt32) >>> 5).toNat * (1 <<< 26 : ℕ) + ((0 : UInt32) >>> 6).toNat : ℝ) /
        (1 <<< 53 : ℕ), words) = _
      norm_num
    have hfloor : ⌊(((5 : Int64).toInt : ℤ) : ℝ) * (1 - ((1 / 5 : ℚ) : ℝ))⌋ = 4 := by
      have hfive : (5 : Int64).toInt = 5 := rfl
      rw [Int.floor_eq_iff, hfive]
      norm_num
    have hone : exploreOne (exactOps fun _ => 0) ⟨0, 1 / 5⟩
        (.int ⟨1, 10, none⟩ : Hyperparameter String) (.int 5) [0, 0, 0, 0] = .ok (.int 4, []) := by
      rw [exploreOne, bind_of_eq_ok (hunit _), if_neg (by norm_num), bind_of_eq_ok (hunit _)]
      have hcoin : decide ((0 : ℝ) < 0.5) = true := by norm_num
      simp only [hcoin, if_true, perturb, hfloor]
      rfl
    rw [exploreParams, heach]
    refine (bind_of_eq_ok (r := ("units", .int 4)) ?_).trans rfl
    exact bind_of_eq_ok hone
  have hderived := Derived.explore (.sample hsample) hexplore
  exact ⟨hderived, derived_within _ _ units (by decide) _ hderived⟩

end Determined.Searcher
