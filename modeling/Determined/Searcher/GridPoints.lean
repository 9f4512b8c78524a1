import Determined.Searcher.GridSize

/-! The points of the grid (`pkg/searcher/grid.go`): every combination of the values of the axes,
    and the values of an integer hyperparameter, which are spread over its range. -/

namespace Determined.Searcher
open Determined.Model

/-! ### Combinations -/

section Combinations

variable {V : Type}

/-- One value from each axis, under its name. -/
def Combines : List (String × List V) → HparamSample V → Prop :=
  List.Forall₂ fun axis entry => entry.1 = axis.1 ∧ entry.2 ∈ axis.2

theorem insert_of_not_mem {sample : HparamSample V} {name : String} (value : V)
    (h : name ∉ sample.map Prod.fst) : sample.insert name value = (name, value) :: sample := by
  rw [HparamSample.insert, List.filter_eq_self.mpr]
  intro entry hentry
  have hne : entry.1 ≠ name := fun heq => h (heq ▸ List.mem_map_of_mem hentry)
  simpa using hne

theorem Combines.names {axes : List (String × List V)} {sample : HparamSample V}
    (h : Combines axes sample) : sample.map Prod.fst = axes.map Prod.fst := by
  induction h with
  | nil => rfl
  | cons hfirst _ ih => rw [List.map_cons, List.map_cons, hfirst.1, ih]

/-- Every combination is in the product, and nothing else. -/
theorem mem_cartesianProduct_iff {axes : List (String × List V)} (hne : axes ≠ [])
    (hnodup : (axes.map Prod.fst).Nodup) (sample : HparamSample V) :
    sample ∈ cartesianProduct axes ↔ Combines axes sample := by
  induction axes generalizing sample with
  | nil => exact absurd rfl hne
  | cons axis right ih =>
    obtain ⟨name, left⟩ := axis
    rw [List.map_cons, List.nodup_cons] at hnodup
    cases right with
    | nil =>
      rw [cartesianProduct, List.mem_map]
      constructor
      · rintro ⟨value, hvalue, rfl⟩
        exact .cons ⟨rfl, hvalue⟩ .nil
      · rintro (_ | ⟨⟨hname, hvalue⟩, ⟨⟩⟩)
        exact ⟨_, hvalue, congrArg ([·]) (Prod.ext hname.symm rfl)⟩
    | cons next right =>
      have hright := ih (List.cons_ne_nil _ _) hnodup.2
      rw [cartesianProduct, List.mem_flatMap]
      · constructor
        · rintro ⟨value, hvalue, hsample⟩
          obtain ⟨rest, hrest, rfl⟩ := List.mem_map.mp hsample
          have hcombines := (hright rest).mp hrest
          rw [insert_of_not_mem value (by rw [hcombines.names]; exact hnodup.1)]
          exact .cons ⟨rfl, hvalue⟩ hcombines
        · rintro (_ | ⟨⟨hname, hvalue⟩, hcombines⟩)
          rename_i entry rest
          refine ⟨entry.2, hvalue, List.mem_map.mpr ⟨rest, (hright rest).mpr hcombines, ?_⟩⟩
          have hnot : name ∉ rest.map Prod.fst := by
            rw [Combines.names hcombines]
            exact hnodup.1
          rw [insert_of_not_mem _ hnot]
          exact congrArg (· :: rest) (Prod.ext hname.symm rfl)
      · exact List.cons_ne_nil next right

variable [DecidableEq V]

/-- In how many ways a sample takes one value from each axis. -/
def ways (axes : List (String × List V)) (sample : HparamSample V) : ℕ :=
  (List.zipWith (fun axis entry => axis.2.count entry.2) axes sample).prod

theorem sum_map_ite (left : List V) (value : V) (n : ℕ) :
    (left.map fun lValue => if lValue = value then n else 0).sum = left.count value * n := by
  induction left with
  | nil => simp
  | cons lValue left ih =>
    rw [List.map_cons, List.sum_cons, ih, List.count_cons]
    by_cases h : lValue = value <;> simp [h, Nat.succ_mul, Nat.add_comm]

/-- The samples that begin with a value are those with this value in front. -/
theorem count_map_insert {samples : List (HparamSample V)} {name : String} {value lValue : V}
    {rest : HparamSample V} (hnot : ∀ s ∈ samples, name ∉ s.map Prod.fst) :
    (samples.map fun rValue => rValue.insert name lValue).count ((name, value) :: rest) =
      if lValue = value then samples.count rest else 0 := by
  rw [List.map_congr_left fun s hs => insert_of_not_mem lValue (hnot s hs)]
  split_ifs with h
  · rw [h]
    exact List.count_map_of_injective _ _ (List.cons_injective) _
  · rw [List.count_eq_zero]
    intro hmem
    obtain ⟨s, -, hs⟩ := List.mem_map.mp hmem
    exact h (Prod.mk.inj (List.cons.inj hs).1).2

/-- A combination is in the product as often as it can be made. -/
theorem count_cartesianProduct {axes : List (String × List V)}
    (hnodup : (axes.map Prod.fst).Nodup) {sample : HparamSample V} (h : Combines axes sample)
    (hne : axes ≠ []) : (cartesianProduct axes).count sample = ways axes sample := by
  induction h with
  | nil => exact absurd rfl hne
  | @cons axis entry right rest hfirst hrest ih =>
    obtain ⟨name, left⟩ := axis
    obtain ⟨_, value⟩ := entry
    obtain ⟨hname, hvalue⟩ := hfirst
    obtain rfl : name = _ := hname.symm
    rw [List.map_cons, List.nodup_cons] at hnodup
    rw [ways, List.zipWith_cons_cons, List.prod_cons, ← ways]
    cases hrest with
    | nil =>
      have hinjective : Function.Injective fun lValue : V => [(name, lValue)] := by
        intro x y hxy
        exact (Prod.mk.inj (List.cons.inj hxy).1).2
      rw [cartesianProduct]
      refine (List.count_map_of_injective left _ hinjective value).trans ?_
      rw [ways, List.zipWith_nil_left, List.prod_nil, mul_one]
    | @cons next entry right rest hnext hrest =>
      rw [cartesianProduct]
      · rw [List.count_flatMap, ← ih hnodup.2 (List.cons_ne_nil _ _), ← sum_map_ite]
        congr 1
        refine List.map_congr_left fun lValue _ => count_map_insert fun s hs => ?_
        rw [((mem_cartesianProduct_iff (List.cons_ne_nil _ _) hnodup.2 s).mp hs).names]
        exact hnodup.1
      · exact List.cons_ne_nil next right

end Combinations

/-! ### Rounding -/

/-- An integer is at most the rounded number just if it is at most half below the number; half is
    too much for a negative number. -/
theorem le_mathRound_iff {n : ℤ} {q : ℚ} :
    n ≤ mathRound q ↔ if 0 < n then (n : ℚ) - 1 / 2 ≤ q else (n : ℚ) - 1 / 2 < q := by
  rw [mathRound]
  by_cases hq : 0 ≤ q
  · rw [if_pos hq, Int.le_floor]
    split_ifs with hn
    · exact (sub_le_iff_le_add).symm
    · have hn' : (n : ℚ) ≤ 0 := by exact_mod_cast not_lt.mp hn
      exact iff_of_true (by linarith) (by linarith)
  · rw [if_neg hq, Int.le_ceil_iff]
    split_ifs with hn
    · have hn' : (1 : ℚ) ≤ n := by exact_mod_cast hn
      exact iff_of_false (by linarith) (by linarith)
    · constructor <;> intro h <;> linarith

theorem mathRound_intCast (n : ℤ) : mathRound n = n := by
  refine le_antisymm ?_ ?_
  · by_contra h
    have hle := le_mathRound_iff.mp (show n + 1 ≤ mathRound n by omega)
    split_ifs at hle <;> push_cast at hle <;> linarith
  · rw [le_mathRound_iff]
    split_ifs <;> linarith

theorem mathRound_mono {x y : ℚ} (h : x ≤ y) : mathRound x ≤ mathRound y := by
  have hx := le_mathRound_iff.mp (le_refl (mathRound x))
  rw [le_mathRound_iff]
  split_ifs at hx ⊢ <;> linarith

/-- Numbers that are one apart are rounded to different integers. -/
theorem mathRound_add_one_le {x y : ℚ} (h : x + 1 ≤ y) : mathRound x + 1 ≤ mathRound y := by
  have hx := le_mathRound_iff.mp (le_refl (mathRound x))
  rw [le_mathRound_iff]
  push_cast
  split_ifs at hx ⊢ <;> linarith

/-! ### The values of an integer -/

/-- What a valid integer hyperparameter with a clamped count of two or more comes to. -/
structure Spread (p : IntHyperparameter) (count : Int64) : Prop where
  two : 2 ≤ count.toInt
  narrow : range p < 2 ^ 63 - 1
  le : count.toInt - 1 ≤ range p

theorem spread_clampCount {p : IntHyperparameter} (hvalid : p.validate = []) {count : Int64}
    (htwo : 2 ≤ (clampCount p count).toInt) : Spread p (clampCount p count) := by
  have hlt := range_lt p
  obtain ⟨hnarrow, hwide⟩ := clampCount_toInt hvalid count
  have h : range p < 2 ^ 63 - 1 := by
    by_contra hge
    have := hwide (not_lt.mp hge)
    omega
  have := hnarrow h
  exact ⟨htwo, h, by omega⟩

variable {p : IntHyperparameter} {count : Int64}

theorem gridInt_eq (hp : 0 < range p) (hspread : Spread p count) {i : ℕ}
    (hi : (i : ℤ) < count.toInt) : gridInt p count i = mathRound (p.minval.toInt +
      ((i * range p).bmod (2 ^ 64) : ℤ) / ((count.toInt - 1 : ℤ) : ℚ)) := by
  obtain ⟨htwo, hnarrow, hle⟩ := hspread
  have hone : count ≠ 1 := by
    rintro rfl
    exact absurd htwo (by decide)
  have hlt := Int64.toInt_lt count
  have hindex : (Int64.ofNat i).toInt = i := Int64.toInt_ofNat_of_lt (by omega)
  have hsub : (p.maxval - p.minval).toInt = range p := by
    rw [sub_toInt, Int.bmod_eq_of_le (by omega) (by omega)]
  have hcount : (count - 1).toInt = count.toInt - 1 := by
    rw [Int64.toInt_sub, Int64.toInt_one, Int.bmod_eq_of_le (by omega) (by omega)]
  rw [gridInt, if_neg hone, Int64.toInt_mul, hindex, hsub, hcount]

/-- The number in front of the rounding, where the product is an `int`. -/
def point (p : IntHyperparameter) (count : Int64) (i : ℕ) : ℚ :=
  p.minval.toInt + (i * range p : ℤ) / ((count.toInt - 1 : ℤ) : ℚ)

theorem gridInt_eq_of_lt (hp : 0 < range p) (hspread : Spread p count)
    (hfits : (count.toInt - 1) * range p < 2 ^ 63) {i : ℕ} (hi : (i : ℤ) < count.toInt) :
    gridInt p count i = mathRound (point p count i) := by
  have hle : (i : ℤ) * range p ≤ (count.toInt - 1) * range p :=
    mul_le_mul_of_nonneg_right (by omega) hp.le
  have hnn : 0 ≤ (i : ℤ) * range p := by positivity
  rw [gridInt_eq hp hspread hi, point, Int.bmod_eq_of_le (by omega) (by omega)]

theorem point_zero (p : IntHyperparameter) (count : Int64) :
    point p count 0 = p.minval.toInt := by
  simp [point]

theorem point_last (hspread : Spread p count) :
    point p count (count.toInt - 1).toNat = p.maxval.toInt := by
  have htwo := hspread.two
  have hne : ((count.toInt - 1 : ℤ) : ℚ) ≠ 0 := by
    have : count.toInt - 1 ≠ 0 := by omega
    exact_mod_cast this
  rw [point, Int.toNat_of_nonneg (by omega), Int.cast_mul, mul_div_assoc, mul_comm,
    div_mul_cancel₀ _ hne, range]
  push_cast
  ring

/-- The points are at least one apart. -/
theorem point_succ (hspread : Spread p count) {i j : ℕ} (hij : i < j) :
    point p count i + 1 ≤ point p count j := by
  obtain ⟨htwo, -, hle⟩ := hspread
  have hpos : (0 : ℚ) < ((count.toInt - 1 : ℤ) : ℚ) := by
    have : 0 < count.toInt - 1 := by omega
    exact_mod_cast this
  have hstep : ((count.toInt - 1 : ℤ) : ℚ) ≤ (j - i : ℤ) * range p := by
    have : count.toInt - 1 ≤ (j - i : ℤ) * range p :=
      hle.trans (le_mul_of_one_le_left (by omega) (by omega))
    exact_mod_cast this
  rw [point, point, add_assoc, add_le_add_iff_left, ← le_sub_iff_add_le', ← sub_div,
    le_div_iff₀ hpos, one_mul]
  push_cast at hstep ⊢
  linarith

theorem bmod_of_le {x : ℤ} (h : 2 ^ 63 ≤ x) : x.bmod (2 ^ 64) ≤ x - 2 ^ 64 := by
  have hlt := Int.bmod_lt (x := x) (by positivity : 0 < 2 ^ 64)
  have heq := Int.bmod_eq_self_sub_mul_bdiv x (2 ^ 64)
  generalize x.bmod (2 ^ 64) = b at hlt heq ⊢
  generalize x.bdiv (2 ^ 64) = d at heq
  push_cast at hlt heq
  have hpos : 0 < d := by
    by_contra hle
    omega
  omega

/-- The last value falls short of the greatest one if its product wraps around. -/
theorem gridInt_last_lt (hp : 0 < range p) (hspread : Spread p count)
    (hwrap : 2 ^ 63 ≤ (count.toInt - 1) * range p) :
    gridInt p count (count.toInt - 1).toNat < p.maxval.toInt := by
  have hlast := point_last hspread
  obtain ⟨htwo, hnarrow, hle⟩ := hspread
  have hindex : ((count.toInt - 1).toNat : ℤ) = count.toInt - 1 := Int.toNat_of_nonneg (by omega)
  have hpos : (0 : ℚ) < ((count.toInt - 1 : ℤ) : ℚ) := by
    have : 0 < count.toInt - 1 := by omega
    exact_mod_cast this
  have hbmod : (((count.toInt - 1) * range p).bmod (2 ^ 64) : ℚ) ≤
      ((count.toInt - 1) * range p : ℤ) - ((count.toInt - 1 : ℤ) : ℚ) := by
    have := bmod_of_le hwrap
    have : ((count.toInt - 1) * range p).bmod (2 ^ 64) ≤
        (count.toInt - 1) * range p - (count.toInt - 1) := by omega
    exact_mod_cast this
  rw [gridInt_eq hp ⟨htwo, hnarrow, hle⟩ (by omega), hindex]
  have hbelow : (p.minval.toInt : ℚ) + (((count.toInt - 1) * range p).bmod (2 ^ 64) : ℤ) /
      ((count.toInt - 1 : ℤ) : ℚ) ≤ (p.maxval.toInt - 1 : ℤ) := by
    rw [point, hindex] at hlast
    have hdiv := div_le_div_of_nonneg_right hbmod hpos.le
    rw [sub_div, div_self hpos.ne'] at hdiv
    push_cast at hlast hdiv ⊢
    linarith
  have hround := mathRound_mono hbelow
  rw [mathRound_intCast] at hround
  omega

/-- The values on the axis of a valid integer with a clamped count of two or more. -/
theorem grid_int {α : Type} {p : IntHyperparameter} {count : Int64} (hcount : p.count = some count)
    (htwo : 2 ≤ (clampCount p count).toInt) : grid (.int p : Hyperparameter α) =
      some (((List.range (clampCount p count).toInt.toNat).map
        (gridInt p (clampCount p count))).map .int) := by
  rw [grid, hcount]
  change makeVals _ _ = _
  rw [makeVals, if_pos (Int64.le_iff_toInt_le.mpr (by simp only [Int64.toInt_zero]; omega)),
    List.map_map]
  rfl

/-- The values are strictly increasing, lie within the range and contain both ends. -/
structure Covers (p : IntHyperparameter) (values : List ℤ) : Prop where
  increasing : values.Pairwise (· < ·)
  within : ∀ v ∈ values, p.minval.toInt ≤ v ∧ v ≤ p.maxval.toInt
  minval : p.minval.toInt ∈ values
  maxval : p.maxval.toInt ∈ values

theorem pairwise_range_iff {f : ℕ → ℤ} {n : ℕ} :
    ((List.range n).map f).Pairwise (· < ·) ↔ ∀ i j, i < j → j < n → f i < f j := by
  rw [List.pairwise_map, List.pairwise_iff_getElem]
  constructor
  · intro h i j hij hj
    have := h i j (by simp; omega) (by simpa using hj) hij
    simpa using this
  · intro h i j hi hj hij
    rw [List.length_range] at hj
    simpa using h i j hij hj

theorem covers_iff (hp : 0 < range p) (hspread : Spread p count) :
    Covers p ((List.range count.toInt.toNat).map (gridInt p count)) ↔
      (count.toInt - 1) * range p < 2 ^ 63 := by
  have htwo := hspread.two
  constructor
  · intro hcovers
    by_contra hwrap
    have hlast := gridInt_last_lt hp hspread (not_lt.mp hwrap)
    obtain ⟨i, hi, hmax⟩ := List.mem_map.mp hcovers.maxval
    rw [List.mem_range] at hi
    rcases eq_or_ne i (count.toInt - 1).toNat with rfl | hne
    · exact hlast.ne hmax
    · have := pairwise_range_iff.mp hcovers.increasing i (count.toInt - 1).toNat (by omega)
        (by omega)
      omega
  · intro hfits
    have hvalue : ∀ i, i < count.toInt.toNat →
        gridInt p count i = mathRound (point p count i) := fun i hi =>
      gridInt_eq_of_lt hp hspread hfits (by omega)
    have hfirst : gridInt p count 0 = p.minval.toInt := by
      rw [hvalue 0 (by omega), point_zero, mathRound_intCast]
    have hend : gridInt p count (count.toInt - 1).toNat = p.maxval.toInt := by
      rw [hvalue _ (by omega), point_last hspread, mathRound_intCast]
    have hincreasing : ∀ i j, i < j → j < count.toInt.toNat →
        gridInt p count i < gridInt p count j := by
      intro i j hij hj
      rw [hvalue i (by omega), hvalue j hj]
      exact mathRound_add_one_le (point_succ hspread hij)
    refine ⟨pairwise_range_iff.mpr hincreasing, ?_, ?_, ?_⟩
    · intro v hv
      obtain ⟨i, hi, rfl⟩ := List.mem_map.mp hv
      rw [List.mem_range] at hi
      constructor
      · rcases Nat.eq_zero_or_pos i with rfl | hpos
        · exact hfirst.ge
        · exact hfirst ▸ (hincreasing 0 i hpos hi).le
      · rcases eq_or_ne i (count.toInt - 1).toNat with rfl | hne
        · exact hend.le
        · exact hend ▸ (hincreasing i (count.toInt - 1).toNat (by omega) (by omega)).le
    · exact List.mem_map.mpr ⟨0, List.mem_range.mpr (by omega), hfirst⟩
    · exact List.mem_map.mpr ⟨_, List.mem_range.mpr (by omega), hend⟩

/-- CORRECT: the product of distinctly named axes has each combination of their values as often as it
    can be made; and the axis of an integer covers its range exactly if the products of the indices
    and the range are `int`s. -/
theorem grid_enumerates_iff {V : Type} [DecidableEq V] (axes : List (String × List V))
    (sample : HparamSample V) (α : Type) (p : IntHyperparameter) (count : Int64) :
    (axes ≠ [] → (axes.map Prod.fst).Nodup →
      (sample ∈ cartesianProduct axes ↔ Combines axes sample) ∧
        (Combines axes sample → (cartesianProduct axes).count sample = ways axes sample)) ∧
    (p.validate = [] → p.count = some count → 2 ≤ (clampCount p count).toInt →
      ((∃ values, grid (.int p : Hyperparameter α) = some (values.map .int) ∧ Covers p values) ↔
        ((clampCount p count).toInt - 1) * range p < 2 ^ 63)) := by
  refine ⟨fun hne hnodup => ⟨mem_cartesianProduct_iff hne hnodup sample,
    fun h => count_cartesianProduct hnodup h hne⟩, fun hvalid hcount htwo => ?_⟩
  rw [grid_int hcount htwo, ← covers_iff (range_pos hvalid) (spread_clampCount hvalid htwo)]
  constructor
  · rintro ⟨values, hvalues, hcovers⟩
    have hinjective : Function.Injective (SampleValue.int : ℤ → SampleValue α) :=
      fun _ _ h => SampleValue.int.inj h
    rwa [hinjective.list_map (Option.some.inj hvalues)]
  · exact fun h => ⟨_, rfl, h⟩

/-- Three of the integers from one to five. -/
theorem grid_enumerates_iff_three :
    (cartesianProduct [("a", [1, 2]), ("b", [3, 4])]).count [("a", 1), ("b", 4)] = 1 ∧
      ∃ values, grid (.int ⟨1, 5, some 3⟩ : Hyperparameter ℚ) = some (values.map .int) ∧
        Covers ⟨1, 5, some 3⟩ values := by
  refine ⟨?_, ?_⟩
  · refine (((grid_enumerates_iff _ _ ℚ ⟨1, 5, some 3⟩ 3).1
      (List.cons_ne_nil _ _) (by decide)).2 ?_).trans (by decide)
    exact .cons ⟨rfl, by decide⟩ (.cons ⟨rfl, by decide⟩ .nil)
  · refine ((grid_enumerates_iff ([] : List (String × List ℕ)) [] ℚ ⟨1, 5, some 3⟩ 3).2
      (by decide) rfl (by decide)).mpr ?_
    rw [range]
    decide

/-- Four integers from zero to `2 ^ 62`: the third one is negative. -/
theorem grid_wraps_around :
    let p : IntHyperparameter := ⟨0, 4611686018427387904, some 4⟩
    p.validate = [] ∧ clampCount p 4 = 4 ∧
      ∀ values, grid (.int p : Hyperparameter ℚ) = some (values.map .int) → ¬ Covers p values := by
  refine ⟨by decide, by decide, fun values hvalues hcovers => ?_⟩
  have hgrid : grid (.int ⟨0, 4611686018427387904, some 4⟩ : Hyperparameter ℚ) =
      some [.int 0, .int 1537228672809129301, .int (-3074457345618258603),
        .int (-1537228672809129301)] := by
    decide +kernel
  have hmem : (-3074457345618258603 : ℤ) ∈ values := by
    rw [hgrid] at hvalues
    have := Option.some.inj hvalues
    have hin : (SampleValue.int (-3074457345618258603) : SampleValue ℚ) ∈ values.map .int := by
      rw [← this]
      simp
    obtain ⟨v, hv, hv'⟩ := List.mem_map.mp hin
    exact SampleValue.int.inj hv' ▸ hv
  have hle := (hcovers.within _ hmem).1
  exact absurd hle (by decide)

end Determined.Searcher
