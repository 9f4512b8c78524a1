import Determined.Searcher.Grid

/-! The number of trials of a grid search, as it is validated and as the grid has points
    (`pkg/model/experiment_config.go`, `pkg/searcher/grid.go`).

    The validation clamps the count of an integer one lower than the grid does, and its product wraps
    around. A range of more integers than fit in an `int` makes the grid panic, except that of all
    integers, whose number wraps around to zero. -/

namespace Determined.Searcher
open Determined.Model

variable {α : Type}

/-! ### Sizes of the axes -/

/-- How far the ends of the interval are apart. -/
def range (p : IntHyperparameter) : ℤ := p.maxval.toInt - p.minval.toInt

/-- A number of grid points is read from every hyperparameter, and those of an integer can be
    counted. -/
def Narrow : Hyperparameter α → Prop
  | .int p => range p < 2 ^ 63 - 1
  | _ => True

/-- The integers from the least one to the greatest one. -/
def Full : Hyperparameter α → Prop
  | .int p => range p = 2 ^ 64 - 1
  | _ => False

/-- The count of an integer is not above the distance of its ends, which is one less than the
    number of possible values. -/
def Fits : Hyperparameter α → Prop
  | .int p => ∀ count, p.count = some count → count.toInt ≤ range p
  | _ => True

/-- The number that the validation multiplies by, before it is an `int`. -/
def number : Hyperparameter α → ℤ
  | .categorical vals => vals.length
  | h => (h.mult.getD 1).toInt

theorem mult_toInt (h : Hyperparameter α) :
    (h.mult.getD 1).toInt = (number h).bmod (2 ^ 64) := by
  cases h with
  | categorical vals => simp [Hyperparameter.mult, number, Int64.size]
  | _ => exact (Int.bmod_eq_of_le (Int64.le_toInt _) (Int64.toInt_lt _)).symm

theorem gridTrials_toInt (h : Hyperparameters α) :
    (gridTrials h).toInt = ((h.each.map fun e => number e.2).prod).bmod (2 ^ 64) := by
  have hfold : ∀ (es : List (String × Hyperparameter α)) (acc : Int64),
      (es.foldl (fun gridTrials param => gridTrials * param.2.mult.getD 1) acc).toInt =
        (acc.toInt * (es.map fun e => number e.2).prod).bmod (2 ^ 64) := by
    intro es
    induction es with
    | nil =>
      intro acc
      rw [List.map_nil, List.prod_nil, mul_one]
      exact (Int.bmod_eq_of_le (Int64.le_toInt acc) (Int64.toInt_lt acc)).symm
    | cons e es ih =>
      intro acc
      rw [List.foldl_cons, ih, Int64.toInt_mul, mult_toInt, Int.bmod_mul_bmod, List.map_cons,
        List.prod_cons, mul_right_comm, Int.mul_bmod_bmod]
      congr 1
      ring
  rw [gridTrials, hfold]
  simp

/-- Every combination has one value of each axis. -/
theorem length_cartesianProduct {V : Type} {axes : List (String × List V)} (h : axes ≠ []) :
    (cartesianProduct axes).length = (axes.map fun axis => axis.2.length).prod := by
  induction axes with
  | nil => exact absurd rfl h
  | cons axis right ih =>
    obtain ⟨name, left⟩ := axis
    cases right with
    | nil => simp [cartesianProduct]
    | cons next right =>
      rw [cartesianProduct, List.map_cons, List.prod_cons, ← ih (List.cons_ne_nil _ _)]
      · simp [List.length_flatMap]
      · exact fun h => nomatch h

theorem mapM_eq_some_iff {β γ : Type} {f : β → Option γ} {l : List β} {ys : List γ} (d : γ) :
    l.mapM f = some ys ↔ (∀ x ∈ l, f x ≠ none) ∧ l.map (fun x => (f x).getD d) = ys := by
  induction l generalizing ys with
  | nil => simp [eq_comm]
  | cons x l ih =>
    rw [List.mapM_cons, Option.bind_eq_bind, List.forall_mem_cons, List.map_cons]
    cases f x with
    | none => simp
    | some y =>
      rw [Option.bind_some, Option.bind_eq_bind, Option.bind_eq_some_iff]
      constructor
      · rintro ⟨zs, hzs, ⟨⟩⟩
        obtain ⟨hsome, rfl⟩ := ih.mp hzs
        exact ⟨⟨Option.some_ne_none y, hsome⟩, rfl⟩
      · rintro ⟨⟨-, hsome⟩, rfl⟩
        exact ⟨_, ih.mpr ⟨hsome, rfl⟩, rfl⟩

/-- The values that a hyperparameter has on the grid. -/
def axis (e : String × Hyperparameter α) : String × List (SampleValue α) :=
  (e.1, (grid e.2).getD [])

/-- The points of the grid are the combinations of the values of its axes. -/
theorem newHyperparameterGrid_eq_some_iff {h : Hyperparameters α}
    {points : List (HparamSample (SampleValue α))} :
    newHyperparameterGrid h = some points ↔
      (∀ e ∈ h.each, grid e.2 ≠ none) ∧ cartesianProduct (h.each.map axis) = points := by
  have hnone : ∀ e : String × Hyperparameter α,
      ((grid e.2).map fun values => (e.1, values)) ≠ none ↔ grid e.2 ≠ none := fun e => by
    rw [Ne, Option.map_eq_none_iff]
  have haxis : (∀ e ∈ h.each, grid e.2 ≠ none) → (h.each.map fun e =>
      ((grid e.2).map fun values => (e.1, values)).getD ("", [])) = h.each.map axis := by
    intro hsome
    refine List.map_congr_left fun e he => ?_
    obtain ⟨values, hvalues⟩ := Option.ne_none_iff_exists'.mp (hsome e he)
    rw [axis, hvalues]
    rfl
  rw [newHyperparameterGrid, Option.bind_eq_bind, Option.bind_eq_some_iff]
  simp only [mapM_eq_some_iff ("", []), hnone]
  constructor
  · rintro ⟨axes, ⟨hsome, rfl⟩, hpoints⟩
    exact ⟨hsome, by rw [← haxis hsome]; exact Option.some.inj hpoints⟩
  · rintro ⟨hsome, rfl⟩
    exact ⟨_, ⟨hsome, rfl⟩, by rw [haxis hsome]; rfl⟩

theorem length_points (es : List (String × Hyperparameter α)) (h : es ≠ []) :
    ((cartesianProduct (es.map axis)).length : ℤ) =
      (es.map fun e => ((axis e).2.length : ℤ)).prod := by
  rw [length_cartesianProduct (by simpa using h), List.map_map]
  push_cast
  rw [List.map_map]
  rfl

/-! ### One axis -/

theorem countPositive_eq_nil {count : Int64} :
    check.countPositive (some count) = [] ↔ 0 < count.toInt := by
  simp [check.countPositive, check.greaterThan, Int64.lt_iff_toInt_lt]

theorem makeVals_of_pos {V : Type} {count : Int64} (h : 0 < count.toInt) (value : ℕ → V) :
    ∃ values, makeVals count value = some values ∧ (values.length : ℤ) = count.toInt := by
  refine ⟨_, if_pos (Int64.le_iff_toInt_le.mpr (by simpa using h.le)), ?_⟩
  rw [List.length_map, List.length_range, Int.toNat_of_nonneg h.le]

/-- The distance of the ends as the code computes it. -/
theorem sub_toInt (p : IntHyperparameter) :
    (p.maxval - p.minval).toInt = (range p).bmod (2 ^ 64) := Int64.toInt_sub ..

theorem range_pos {p : IntHyperparameter} (h : p.validate = []) : 0 < range p := by
  simp only [IntHyperparameter.validate, List.append_eq_nil_iff, check.greaterThan, check_eq_nil,
    decide_eq_true_eq, Int64.lt_iff_toInt_lt] at h
  rw [range]
  omega

theorem range_lt (p : IntHyperparameter) : range p < 2 ^ 64 := by
  have hmax := Int64.toInt_lt p.maxval
  have hmin := Int64.le_toInt p.minval
  rw [range]
  omega

theorem count_pos {p : IntHyperparameter} (h : p.validate = []) {count : Int64}
    (hcount : p.count = some count) : 0 < count.toInt := by
  rw [IntHyperparameter.validate, List.append_eq_nil_iff, hcount] at h
  exact countPositive_eq_nil.mp h.2

/-- The count is clamped to the size of the range, if that is an `int`. -/
theorem clampCount_toInt {p : IntHyperparameter} (h : p.validate = []) (count : Int64) :
    (range p < 2 ^ 63 - 1 → (clampCount p count).toInt = min count.toInt (range p + 1)) ∧
      (2 ^ 63 - 1 ≤ range p →
        (clampCount p count).toInt = min count.toInt (range p + 1 - 2 ^ 64)) := by
  have hmin : (clampCount p count).toInt = min count.toInt (p.maxval - p.minval + 1).toInt := by
    change (if count ≤ p.maxval - p.minval + 1 then count else p.maxval - p.minval + 1).toInt = _
    rw [min_def]
    split_ifs with h₁ h₂ h₂
    · rfl
    · exact absurd (Int64.le_iff_toInt_le.mp h₁) h₂
    · exact absurd (Int64.le_iff_toInt_le.mpr h₂) h₁
    · rfl
  have hpos := range_pos h
  have hlt := range_lt p
  have hadd : (p.maxval - p.minval + 1).toInt = (range p + 1).bmod (2 ^ 64) := by
    rw [Int64.toInt_add, sub_toInt, Int.bmod_add_bmod]
    rfl
  constructor
  · intro hnarrow
    rw [hmin, hadd, Int.bmod_eq_of_le (by omega) (by omega)]
  · intro hwide
    have hwrap : (range p + 1).bmod (2 ^ 64) = range p + 1 - 2 ^ 64 := by
      rw [← Int.sub_bmod_right, Int.bmod_eq_of_le (by omega) (by omega)]
      rfl
    rw [hmin, hadd, hwrap]

theorem makeVals_counted {V : Type} {count : Option Int64} {h : Hyperparameter α}
    (hmult : h.mult = count) (hnumber : number h = (h.mult.getD 1).toInt)
    (hcount : h.mult ≠ none) (hvalid : check.countPositive count = []) (hfits : Fits h)
    (value : Int64 → ℕ → V) : ∃ values, (count.bind fun c => makeVals c (value c)) = some values ∧
      1 ≤ number h ∧ number h ≤ values.length ∧ (number h = values.length ↔ Fits h) := by
  obtain ⟨c, hc⟩ := Option.ne_none_iff_exists'.mp hcount
  rw [hc] at hmult
  rw [← hmult] at hvalid
  have hpos := countPositive_eq_nil.mp hvalid
  obtain ⟨values, hvalues, hlength⟩ := makeVals_of_pos hpos (value c)
  rw [hc] at hnumber
  refine ⟨values, by rw [← hmult]; exact hvalues, ?_, ?_, ?_⟩
  · rw [hnumber]
    exact hpos
  · rw [hnumber, hlength]
    exact le_rfl
  · rw [hnumber, hlength]
    exact iff_of_true rfl hfits

theorem exists_count {p : IntHyperparameter} (h : (.int p : Hyperparameter α).mult ≠ none) :
    ∃ c, p.count = some c := by
  cases hc : p.count with
  | none => simp [Hyperparameter.mult, hc] at h
  | some c => exact ⟨c, rfl⟩

/-- A narrow axis has at least as many values as the validation counts, and as many if and only if
    its count is not clamped. -/
theorem grid_narrow {h : Hyperparameter α} (hvalid : h.validate = []) (hcount : h.mult ≠ none)
    (hnarrow : Narrow h) : ∃ values, grid h = some values ∧ 1 ≤ number h ∧
      number h ≤ values.length ∧ (number h = values.length ↔ Fits h) := by
  cases h with
  | const val => exact ⟨_, rfl, le_rfl, le_rfl, by simp [Fits, number, Hyperparameter.mult]⟩
  | int p =>
    obtain ⟨c, hc⟩ := exists_count hcount
    have hc₀ := count_pos hvalid hc
    have hpos := range_pos hvalid
    have hclamp := (clampCount_toInt hvalid c).1 hnarrow
    have hsub : (p.maxval - p.minval).toInt = range p := by
      rw [sub_toInt, Int.bmod_eq_of_le (by omega) (by simp only [Narrow] at hnarrow; omega)]
    have hnumber : number (.int p : Hyperparameter α) = min c.toInt (range p) := by
      simp only [number, Hyperparameter.mult, hc, Option.map_some, Option.getD_some,
        gt_iff_lt, Int64.lt_iff_toInt_lt, hsub]
      split_ifs with h
      · rw [hsub, min_eq_right h.le]
      · rw [min_eq_left (not_lt.mp h)]
    obtain ⟨values, hvalues, hlength⟩ :=
      makeVals_of_pos (by rw [hclamp]; omega : 0 < (clampCount p c).toInt)
        fun i => (.int (gridInt p (clampCount p c) i) : SampleValue α)
    refine ⟨values, ?_, ?_, ?_, ?_⟩
    · rw [grid, hc]
      exact hvalues
    · rw [hnumber]
      omega
    · rw [hnumber, hlength, hclamp]
      omega
    · rw [hnumber, hlength, hclamp, Fits]
      constructor
      · intro heq count hcount
        obtain rfl := Option.some.inj (hc.symm.trans hcount)
        omega
      · intro hfits
        have := hfits c hc
        omega
  | double p =>
    exact makeVals_counted rfl rfl hcount (List.append_eq_nil_iff.mp hvalid).2 trivial _
  | log p =>
    exact makeVals_counted rfl rfl hcount (List.append_eq_nil_iff.mp hvalid).2 trivial _
  | categorical vals =>
    have hlength : 0 < vals.length := by
      simpa [Hyperparameter.validate, check.greaterThan] using hvalid
    refine ⟨_, rfl, ?_, ?_, ?_⟩
    · rw [number]
      omega
    · rw [number, List.length_map]
    · rw [number, List.length_map]
      exact iff_of_true rfl trivial

/-- The range of all integers has no values, since its size wraps around. -/
theorem grid_full {h : Hyperparameter α} (hvalid : h.validate = []) (hcount : h.mult ≠ none)
    (hfull : Full h) : grid h = some [] := by
  cases h with
  | int p =>
    obtain ⟨c, hc⟩ := exists_count hcount
    have hc₀ := count_pos hvalid hc
    simp only [Full] at hfull
    have hclamp := (clampCount_toInt hvalid c).2 (by omega)
    have hzero : (clampCount p c).toInt = 0 := by
      rw [hclamp]
      omega
    rw [grid, hc]
    change makeVals _ _ = _
    rw [makeVals, if_pos (Int64.le_iff_toInt_le.mpr (by simp [hzero])), hzero]
    rfl
  | _ => cases hfull

/-- A wide range has a negative size, which no slice can have. -/
theorem grid_wide {h : Hyperparameter α} (hvalid : h.validate = []) (hcount : h.mult ≠ none)
    (hnarrow : ¬ Narrow h) (hfull : ¬ Full h) : grid h = none := by
  cases h with
  | int p =>
    obtain ⟨c, hc⟩ := exists_count hcount
    have hlt := range_lt p
    simp only [Narrow, Full] at hnarrow hfull
    have hclamp := (clampCount_toInt hvalid c).2 (by omega)
    have hneg : (clampCount p c).toInt < 0 := by
      rw [hclamp]
      omega
    rw [grid, hc]
    change makeVals _ _ = _
    rw [makeVals, if_neg]
    rw [Int64.le_iff_toInt_le]
    simpa using hneg
  | _ => exact absurd trivial hnarrow

theorem not_narrow {h : Hyperparameter α} (hfull : Full h) : ¬ Narrow h := by
  cases h with
  | int p =>
    simp only [Full, Narrow] at hfull ⊢
    omega
  | _ => cases hfull

/-! ### The whole grid -/

/-- No count is clamped by the validation and the product is an `int`; or one range is that of all
    integers, the grid has no points, and the product wraps around to zero. -/
def SizesAgree (h : Hyperparameters α) : Prop :=
  h.each ≠ [] ∧
    ((∀ e ∈ h.each, Narrow e.2 ∧ Fits e.2) ∧ (h.each.map fun e => number e.2).prod < 2 ^ 63 ∨
      (∃ e ∈ h.each, Full e.2) ∧ (∀ e ∈ h.each, Narrow e.2 ∨ Full e.2) ∧
        2 ^ 64 ∣ (h.each.map fun e => number e.2).prod)

/-- A product of factors that are no smaller is no smaller, and equal only if all factors are. -/
theorem prod_eq_iff {β : Type} {f g : β → ℤ} {l : List β}
    (h : ∀ x ∈ l, 1 ≤ f x ∧ f x ≤ g x) :
    1 ≤ (l.map f).prod ∧ (l.map f).prod ≤ (l.map g).prod ∧
      ((l.map f).prod = (l.map g).prod ↔ ∀ x ∈ l, f x = g x) := by
  induction l with
  | nil => simp
  | cons x l ih =>
    rw [List.forall_mem_cons] at h
    obtain ⟨⟨hx, hxy⟩, hl⟩ := h
    obtain ⟨hone, hle, hiff⟩ := ih hl
    simp only [List.map_cons, List.prod_cons, List.forall_mem_cons]
    refine ⟨one_le_mul_of_one_le_of_one_le hx hone, ?_, ?_⟩
    · exact mul_le_mul hxy hle (by omega) (by omega)
    · rw [← hiff]
      constructor
      · intro heq
        have hfirst : f x = g x := by
          by_contra hne
          have hlt : f x < g x := lt_of_le_of_ne hxy hne
          nlinarith
        refine ⟨hfirst, ?_⟩
        rw [hfirst] at heq
        exact mul_left_cancel₀ (by omega) heq
      · rintro ⟨hfirst, hrest⟩
        rw [hfirst, hrest]

theorem bmod_le {x : ℤ} (h : 0 ≤ x) : x.bmod (2 ^ 64) ≤ x := by
  have hmod : x % (2 ^ 64 : ℕ) ≤ x := by
    have := Int.emod_add_mul_ediv x (2 ^ 64 : ℕ)
    have := Int.ediv_nonneg h (by positivity : (0 : ℤ) ≤ (2 ^ 64 : ℕ))
    nlinarith
  rw [Int.bmod_def]
  split
  · exact hmod
  · exact (sub_le_self _ (by positivity)).trans hmod

/-- CORRECT: the validation computes the number of points that the grid has exactly if no count is
    clamped and the product is an `int`, or both come to zero. -/
theorem gridTrials_eq_iff (h : Hyperparameters α) (hvalid : ∀ e ∈ h.each, e.2.validate = [])
    (hcounts : noCountParams h = []) :
    (∃ points, newHyperparameterGrid h = some points ∧ (gridTrials h).toInt = points.length) ↔
      SizesAgree h := by
  have hcount : ∀ e ∈ h.each, e.2.mult ≠ none := by
    intro e he hnone
    rw [noCountParams, List.map_eq_nil_iff, List.filter_eq_nil_iff] at hcounts
    exact hcounts e he (by rw [hnone]; rfl)
  rw [gridTrials_toInt, SizesAgree]
  simp only [newHyperparameterGrid_eq_some_iff]
  rcases eq_or_ne h.each [] with hnil | hne
  · rw [hnil]
    simp [cartesianProduct]
  by_cases hwide : ∃ e ∈ h.each, ¬ Narrow e.2 ∧ ¬ Full e.2
  · obtain ⟨e, he, hnarrow, hfull⟩ := hwide
    refine iff_of_false ?_ ?_
    · rintro ⟨points, ⟨hsome, -⟩, -⟩
      exact hsome e he (grid_wide (hvalid e he) (hcount e he) hnarrow hfull)
    · rintro ⟨-, ⟨hall, -⟩ | ⟨-, hall, -⟩⟩
      · exact hnarrow (hall e he).1
      · exact (hall e he).elim hnarrow hfull
  push Not at hwide
  have hsome : ∀ e ∈ h.each, grid e.2 ≠ none := by
    intro e he
    by_cases hnarrow : Narrow e.2
    · obtain ⟨values, hvalues, -⟩ := grid_narrow (hvalid e he) (hcount e he) hnarrow
      rw [hvalues]
      exact Option.some_ne_none _
    · rw [grid_full (hvalid e he) (hcount e he) (hwide e he hnarrow)]
      exact Option.some_ne_none _
  have hlhs : (∃ points, ((∀ e ∈ h.each, grid e.2 ≠ none) ∧
      cartesianProduct (h.each.map axis) = points) ∧
        ((h.each.map fun e => number e.2).prod).bmod (2 ^ 64) = points.length) ↔
      ((h.each.map fun e => number e.2).prod).bmod (2 ^ 64) =
        (h.each.map fun e => ((axis e).2.length : ℤ)).prod := by
    rw [← length_points _ hne]
    exact ⟨fun ⟨_, ⟨_, hpoints⟩, heq⟩ => hpoints ▸ heq, fun heq => ⟨_, ⟨hsome, rfl⟩, heq⟩⟩
  rw [hlhs]
  by_cases hfull : ∃ e ∈ h.each, Full e.2
  · -- The grid has no points.
    obtain ⟨e, he, hfull⟩ := hfull
    have hzero : (h.each.map fun e => ((axis e).2.length : ℤ)).prod = 0 := by
      refine List.prod_eq_zero (List.mem_map.mpr ⟨e, he, ?_⟩)
      rw [axis, grid_full (hvalid e he) (hcount e he) hfull]
      rfl
    rw [hzero]
    constructor
    · intro hbmod
      refine ⟨hne, .inr ⟨⟨e, he, hfull⟩, fun e he => ?_, Int.dvd_of_bmod_eq_zero hbmod⟩⟩
      exact or_iff_not_imp_left.mpr (hwide e he)
    · rintro ⟨-, ⟨hall, -⟩ | ⟨-, -, hdvd⟩⟩
      · exact absurd (hall e he).1 (not_narrow hfull)
      · exact Int.bmod_eq_zero_of_dvd hdvd
  · -- Each factor of the validation is at most the number of values on its axis.
    have hnarrow : ∀ e ∈ h.each, Narrow e.2 := fun e he => by
      by_contra hnarrow
      exact hfull ⟨e, he, hwide e he hnarrow⟩
    have hspec : ∀ e ∈ h.each, 1 ≤ number e.2 ∧ number e.2 ≤ ((axis e).2.length : ℤ) ∧
        (number e.2 = ((axis e).2.length : ℤ) ↔ Fits e.2) := fun e he => by
      obtain ⟨values, hvalues, hone, hle, hiff⟩ :=
        grid_narrow (hvalid e he) (hcount e he) (hnarrow e he)
      rw [axis, hvalues]
      exact ⟨hone, hle, hiff⟩
    obtain ⟨hone, hle, hiff⟩ := prod_eq_iff fun e he => ⟨(hspec e he).1, (hspec e he).2.1⟩
    have hwrap := bmod_le (by omega : 0 ≤ (h.each.map fun e => number e.2).prod)
    constructor
    · intro hbmod
      have heq := le_antisymm hle (hbmod ▸ hwrap)
      have hlt := Int.bmod_lt (x := (h.each.map fun e => number e.2).prod)
        (by positivity : 0 < 2 ^ 64)
      refine ⟨hne, .inl ⟨fun e he => ⟨hnarrow e he, (hspec e he).2.2.mp (hiff.mp heq e he)⟩, ?_⟩⟩
      rw [hbmod, ← heq] at hlt
      simpa using hlt
    · rintro ⟨-, ⟨hall, hlt⟩ | ⟨⟨e, he, hf⟩, -⟩⟩
      · rw [← hiff.mpr fun e he => (hspec e he).2.2.mpr (hall e he).2]
        exact Int.bmod_eq_of_le (by omega) (by omega)
      · exact absurd ⟨e, he, hf⟩ hfull

/-- Two integers with a count of two. -/
def bothEnds : Hyperparameters ℚ := ⟨[("layers", .int ⟨1, 2, some 2⟩)], List.nodup_singleton _⟩

/-- The validation computes one trial for a grid of two points. -/
theorem gridTrials_bothEnds :
    (∀ e ∈ bothEnds.each, e.2.validate = []) ∧ noCountParams bothEnds = [] ∧
      (newHyperparameterGrid bothEnds).map List.length = some 2 ∧
        (gridTrials bothEnds).toInt = 1 := by
  decide +kernel

/-- Three of five integers, and a constant. -/
def threeLayers : Hyperparameters ℚ :=
  ⟨[("global_batch_size", .const 32), ("layers", .int ⟨1, 5, some 3⟩)], by decide⟩

theorem each_threeLayers : threeLayers.each = threeLayers.entries :=
  List.mergeSort_of_pairwise (by decide)

theorem gridTrials_eq_iff_three : ∃ points, newHyperparameterGrid threeLayers = some points ∧
    (gridTrials threeLayers).toInt = points.length := by
  refine (gridTrials_eq_iff threeLayers ?_ ?_).mpr ?_
  · rw [each_threeLayers]
    decide +kernel
  · rw [noCountParams, each_threeLayers]
    decide +kernel
  · rw [SizesAgree, each_threeLayers]
    refine ⟨List.cons_ne_nil _ _, .inl ⟨?_, by decide⟩⟩
    simp only [threeLayers, List.forall_mem_cons, List.not_mem_nil, false_implies, implies_true,
      and_true]
    refine ⟨⟨trivial, trivial⟩, ?_, ?_⟩
    · rw [Narrow]
      decide
    · rintro count ⟨⟩
      decide

end Determined.Searcher
