import Determined.Searcher.MersenneTwister
import Determined.Searcher.Nprand

/-! Bounded random integers (`Intn` and `Int64n` of `pkg/nprand/nprand.go`) on the words that the
    generator gives: the mask is the smallest that covers the limit, the rejection loop ends in every
    state of the generator, and every value below the bound is drawn in some state. A bound of zero is
    let through: one below it is the largest limit there is. -/

namespace Determined.Nprand
open Determined.Schemes

variable {K β : Type}

/-- A random int64 in `[0, n)`. -/
def int64n (n : Int64) : Draws K Int64 :=
  if n < 0 then fun _ => .error (.panic ("nprand Int64n: n " ++ toString n ++ " < 0"))
  else do return (← bitsLimit (n.toUInt64 - 1)).toInt64

/-- The state after so many words. -/
def State.advance (n : ℕ) (s : State) : State := (fun s => s.bits32.2)^[n] s

/-- The computation returns this value on the next words of the generator. -/
def State.Returns (s : State) (d : Draws K β) (r : β) : Prop := ∃ n, d (s.words n) = .ok (r, [])

/-- The computation panics, as it draws or before. -/
def State.Panics (s : State) (d : Draws K β) : Prop :=
  ∃ n halt, d (s.words n) = .error halt ∧ halt ≠ .words

/-! ### The mask -/

/-- A bit is set if one of so many bits of the limit from there on is. -/
def Smeared (d : ℕ) (limit m : UInt64) : Prop :=
  ∀ i, m.toNat.testBit i = true ↔ ∃ j < d, limit.toNat.testBit (i + j) = true

theorem Smeared.double {d : ℕ} {limit m k : UInt64} (h : Smeared d limit m) (hk : k.toNat = d)
    (hd : d < 64) : Smeared (d + d) limit (m ||| m >>> k) := by
  intro i
  rw [UInt64.toNat_or, UInt64.toNat_shiftRight, hk, Nat.mod_eq_of_lt hd, Nat.testBit_or,
    Nat.testBit_shiftRight, Bool.or_eq_true, h, h]
  constructor
  · rintro (⟨j, hj, hbit⟩ | ⟨j, hj, hbit⟩)
    · exact ⟨j, by omega, hbit⟩
    · exact ⟨d + j, by omega, by rwa [← Nat.add_assoc, Nat.add_comm i d]⟩
  · rintro ⟨j, hj, hbit⟩
    by_cases hjd : j < d
    · exact .inl ⟨j, hjd, hbit⟩
    · exact .inr ⟨j - d, by omega, by rwa [(by omega : d + i + (j - d) = i + j)]⟩

theorem smeared_mask (limit : UInt64) : Smeared 64 limit (mask limit) := by
  have h₀ : Smeared 1 limit limit := by
    intro i
    constructor
    · exact fun h => ⟨0, Nat.one_pos, h⟩
    · rintro ⟨j, hj, h⟩
      obtain rfl : j = 0 := by omega
      exact h
  have h₁ := h₀.double (k := 1) rfl (by decide)
  have h₂ := h₁.double (k := 2) rfl (by decide)
  have h₃ := h₂.double (k := 4) rfl (by decide)
  have h₄ := h₃.double (k := 8) rfl (by decide)
  have h₅ := h₄.double (k := 16) rfl (by decide)
  exact h₅.double (k := 32) rfl (by decide)

/-- The mask has as many bits as the limit. -/
theorem toNat_mask (limit : UInt64) : (mask limit).toNat = 2 ^ limit.toNat.size - 1 := by
  refine Nat.eq_of_testBit_eq fun i => ?_
  rw [Nat.testBit_two_pow_sub_one, Bool.eq_iff_iff, smeared_mask limit i, decide_eq_true_iff,
    Nat.lt_size]
  constructor
  · rintro ⟨j, -, hbit⟩
    exact (Nat.pow_le_pow_right two_pos (Nat.le_add_right i j)).trans (Nat.ge_two_pow_of_testBit hbit)
  · intro h
    obtain ⟨j, hj, hbit⟩ := Nat.exists_ge_and_testBit_of_ge_two_pow h
    obtain ⟨k, rfl⟩ := Nat.exists_eq_add_of_le hj
    have hlt : i + k < 64 := by
      have hpow := (Nat.ge_two_pow_of_testBit hbit).trans_lt limit.toNat_lt
      exact (Nat.pow_lt_pow_iff_right (by decide)).mp hpow
    exact ⟨k, by omega, hbit⟩

/-- The mask is the smallest of its kind that covers the limit. -/
theorem isLeast_mask (limit : UInt64) :
    IsLeast {m : ℕ | (∃ k, m = 2 ^ k - 1) ∧ limit.toNat ≤ m} (mask limit).toNat := by
  rw [toNat_mask]
  refine ⟨⟨⟨_, rfl⟩, Nat.le_sub_one_of_lt (Nat.lt_size_self _)⟩, ?_⟩
  rintro m ⟨⟨k, rfl⟩, hle⟩
  have hlt : limit.toNat < 2 ^ k := by
    have := Nat.two_pow_pos k
    omega
  exact Nat.sub_le_sub_right (Nat.pow_le_pow_right two_pos (Nat.size_le.mpr hlt)) 1

/-- What is drawn without the top bit of the limit is within the limit. -/
theorem and_mask_le {limit val : UInt64} (hlimit : limit ≠ 0)
    (hbit : val.toNat.testBit (limit.toNat.size - 1) = false) : val &&& mask limit ≤ limit := by
  have hsize : 0 < limit.toNat.size := by
    rw [Nat.size_pos]
    exact Nat.pos_of_ne_zero fun h => hlimit (UInt64.toNat_inj.mp h)
  have htop : 2 ^ (limit.toNat.size - 1) ≤ limit.toNat := Nat.lt_size.mp (by omega)
  rw [UInt64.le_iff_toNat_le, UInt64.toNat_and, toNat_mask, Nat.and_two_pow_sub_one_eq_mod]
  refine (Nat.lt_pow_two_of_testBit _ fun i hi => ?_).le.trans htop
  rw [Nat.testBit_mod_two_pow]
  by_cases heq : i = limit.toNat.size - 1
  · rw [heq, hbit, Bool.and_false]
  · rw [decide_eq_false (by omega), Bool.false_and]

/-- A value within the limit is let through by the mask. -/
theorem and_mask_eq {limit val : UInt64} (h : val ≤ limit) : val &&& mask limit = val := by
  rw [← UInt64.toNat_inj, UInt64.toNat_and, toNat_mask]
  exact Nat.and_two_pow_sub_one_of_lt_two_pow
    ((UInt64.le_iff_toNat_le.mp h).trans_lt (Nat.lt_size_self _))

/-! ### The loops end -/

theorem Follows.advance {x : ℕ → UInt32} (hx : Recurs x) (i : ℕ) : ∀ {t : ℕ} {s : State},
    Follows x t s → Follows x (t + i) (s.advance i) := by
  induction i with
  | zero => exact fun h => h
  | succ i ih =>
    intro t s h
    have hrest := ih (h.bits32 hx).2
    rwa [Nat.add_assoc, Nat.add_comm 1 i] at hrest

theorem draw32_returns (limit : UInt64) (i : ℕ) : ∀ {s : State},
    (s.advance i).bits32.1.toUInt64 &&& mask limit ≤ limit →
      ∃ r, s.Returns (draw32 (K := K) limit) r := by
  induction i with
  | zero =>
    intro s h
    exact ⟨_, 1, if_pos h⟩
  | succ i ih =>
    intro s h
    by_cases hfirst : s.bits32.1.toUInt64 &&& mask limit ≤ limit
    · exact ⟨_, 1, if_pos hfirst⟩
    · obtain ⟨r, n, hn⟩ := ih (s := s.bits32.2) h
      exact ⟨r, n + 1, (if_neg hfirst).trans hn⟩

theorem draw64_returns (limit : UInt64) (i : ℕ) : ∀ {s : State},
    ((s.advance (2 * i)).bits32.1.toUInt64 <<< 32 |||
      (s.advance (2 * i + 1)).bits32.1.toUInt64) &&& mask limit ≤ limit →
      ∃ r, s.Returns (draw64 (K := K) limit) r := by
  induction i with
  | zero =>
    intro s h
    exact ⟨_, 2, if_pos h⟩
  | succ i ih =>
    intro s h
    by_cases hfirst : (s.bits32.1.toUInt64 <<< 32 ||| s.bits32.2.bits32.1.toUInt64) &&&
        mask limit ≤ limit
    · exact ⟨_, 2, if_pos hfirst⟩
    · obtain ⟨r, n, hn⟩ := ih (s := s.bits32.2.bits32.2) h
      exact ⟨r, n + 2, (if_neg hfirst).trans hn⟩

/-- The bits of two words put together. -/
theorem testBit_joined (upper lower : UInt32) (i : ℕ) :
    (upper.toUInt64 <<< 32 ||| lower.toUInt64).toNat.testBit i =
      if i < 32 then lower.toNat.testBit i else upper.toNat.testBit (i - 32) := by
  have hshift : (upper.toUInt64 <<< 32).toNat = upper.toNat <<< 32 % 2 ^ 64 := rfl
  rw [UInt64.toNat_or, hshift, UInt32.toNat_toUInt64, Nat.testBit_or, Nat.testBit_mod_two_pow,
    Nat.testBit_shiftLeft]
  split
  · rename_i hi
    rw [decide_eq_false (by omega : ¬ i ≥ 32), Bool.false_and, Bool.and_false, Bool.false_or]
  · rename_i hi
    have hlower : lower.toNat.testBit i = false :=
      Nat.testBit_lt_two_pow (lower.toNat_lt.trans_le (Nat.pow_le_pow_right two_pos (by omega)))
    rw [hlower, Bool.or_false, decide_eq_true (by omega : i ≥ 32), Bool.true_and]
    by_cases h64 : i < 64
    · rw [decide_eq_true h64, Bool.true_and]
    · have hupper : upper.toNat.testBit (i - 32) = false :=
        Nat.testBit_lt_two_pow (upper.toNat_lt.trans_le (Nat.pow_le_pow_right two_pos (by omega)))
      rw [hupper, Bool.and_false]

/-- Every rejection loop ends, whatever the state of the generator. -/
theorem bitsLimit_returns (limit : UInt64) (s : State) :
    ∃ r, s.Returns (bitsLimit (K := K) limit) r := by
  obtain ⟨x, t, hx, hs⟩ := exists_follows s
  rw [bitsLimit]
  split_ifs with hzero hsmall
  · exact ⟨0, 0, rfl⟩
  · obtain ⟨n, hn⟩ := exists_testBit_false hx t (limit.toNat.size - 1)
    refine draw32_returns limit n (and_mask_le hzero ?_)
    rwa [((hs.advance hx n).bits32 hx).1, UInt32.toNat_toUInt64]
  · obtain ⟨n, hn⟩ := exists_testBit_false_everySecond hx t (limit.toNat.size - 1 - 32)
    refine draw64_returns limit n (and_mask_le hzero ?_)
    have hsize : 32 < limit.toNat.size := by
      rw [UInt64.le_iff_toNat_le, not_le] at hsmall
      exact Nat.lt_size.mpr hsmall
    rwa [testBit_joined, if_neg (by omega), ((hs.advance hx (2 * n)).bits32 hx).1]

/-- Drawing may run out of the words given, and stops for no other reason. -/
theorem bitsLimit_error {limit : UInt64} {words : List UInt32} {halt : Halt K}
    (h : bitsLimit limit words = .error halt) : halt = .words := by
  have h32 : ∀ words, draw32 limit words = .error halt → halt = .words := by
    intro words
    induction words with
    | nil => rintro ⟨⟩; rfl
    | cons w words ih =>
      intro h
      rw [draw32] at h
      split_ifs at h
      exact ih h
  have h64 : ∀ words, draw64 limit words = .error halt → halt = .words := by
    intro words
    fun_induction draw64 (K := K) limit words with
    | case1 upper lower words val hle => rintro ⟨⟩
    | case2 upper lower words val hlt ih => exact ih
    | case3 words hpair => rintro ⟨⟩; rfl
  rw [bitsLimit] at h
  split_ifs at h
  · cases h
  · exact h32 words h
  · exact h64 words h

/-! ### Every value is drawn -/

theorem State.words_of_two {s : State} {v w : UInt32} (h : s.words 2 = [v, w]) : s.words 1 = [v] := by
  have hv : s.bits32.1 = v := (List.cons.inj h).1
  rw [words, hv]
  rfl

/-- Some state gives any value within the limit. -/
theorem bitsLimit_occurs {limit val : UInt64} (hval : val ≤ limit) :
    ∃ s : State, s.Returns (bitsLimit (K := K) limit) val := by
  have hle := UInt64.le_iff_toNat_le.mp hval
  have hmask := and_mask_eq hval
  rw [bitsLimit]
  split_ifs with hzero hsmall
  · have hval0 : val = 0 := by
      rw [hzero] at hle
      exact UInt64.toNat_inj.mp (Nat.le_zero.mp hle)
    exact ⟨State.new 0, 0, by rw [hval0]; rfl⟩
  · obtain ⟨s, hs⟩ := exists_words val.toUInt32 0
    have hword : val.toUInt32.toUInt64 = val := by
      have hlt : val.toNat < 2 ^ 32 := by
        have := UInt64.le_iff_toNat_le.mp hsmall
        have hmax : (0xffffffff : UInt64).toNat = 2 ^ 32 - 1 := rfl
        omega
      rw [← UInt64.toNat_inj, UInt32.toNat_toUInt64, UInt64.toNat_toUInt32, Nat.mod_eq_of_lt hlt]
    refine ⟨s, 1, ?_⟩
    rw [State.words_of_two hs, draw32, hword, hmask, if_pos hval]
  · have hjoin : (val >>> 32).toUInt32.toUInt64 <<< 32 ||| val.toUInt32.toUInt64 = val := by
      have hupper : (val >>> 32).toNat = val.toNat >>> 32 := rfl
      refine UInt64.toNat_inj.mp (Nat.eq_of_testBit_eq fun i => ?_)
      rw [testBit_joined, UInt64.toNat_toUInt32, UInt64.toNat_toUInt32, hupper,
        Nat.testBit_mod_two_pow, Nat.testBit_mod_two_pow, Nat.testBit_shiftRight]
      split
      · rename_i hi
        rw [decide_eq_true hi, Bool.true_and]
      · rename_i hi
        rw [(by omega : 32 + (i - 32) = i)]
        by_cases h64 : i < 64
        · rw [decide_eq_true (by omega), Bool.true_and]
        · have hbit : val.toNat.testBit i = false := Nat.testBit_lt_two_pow
            (val.toNat_lt.trans_le (Nat.pow_le_pow_right two_pos (by omega)))
          rw [hbit, Bool.and_false]
    obtain ⟨s, hs⟩ := exists_words (val >>> 32).toUInt32 val.toUInt32
    refine ⟨s, 2, ?_⟩
    rw [hs, draw64]
    simp only [hjoin, hmask, if_pos hval]

/-! ### Bounded integers -/

/-- What is promised of a draw below a bound: in every state of the generator it returns a value in
    `[0, n)` if the bound is positive, and fails otherwise; and every value below the bound occurs. -/
structure Bounded (n : Int64) (d : Draws K Int64) : Prop where
  returns : 0 < n → ∀ s : State, ∃ r, s.Returns d r
  range : 0 < n → ∀ (s : State) r, s.Returns d r → 0 ≤ r ∧ r < n
  fails : ¬ 0 < n → ∀ s : State, s.Panics d
  occurs : ∀ r, 0 ≤ r → r < n → ∃ s : State, s.Returns d r

/-- A draw below a bound that panics on negative bounds only. -/
def belowBound (n : Int64) (halt : Halt K) : Draws K Int64 :=
  if n < 0 then fun _ => .error halt
  else do return (← bitsLimit (n.toUInt64 - 1)).toInt64

theorem returns_toInt64 {s : State} {limit r : UInt64} (h : s.Returns (bitsLimit (K := K) limit) r) :
    s.Returns (do return (← bitsLimit (K := K) limit).toInt64) r.toInt64 := by
  obtain ⟨n, hn⟩ := h
  exact ⟨n, bind_of_eq_ok hn⟩

theorem toUInt64_le_sub_one {r n : Int64} (hr : 0 ≤ r) (hlt : r < n) :
    r.toUInt64 ≤ n.toUInt64 - 1 := by
  have hn := Int64.le_of_lt (Int64.lt_of_le_of_lt hr hlt)
  have hrnat : (r.toUInt64.toNat : ℤ) = r.toInt := by
    rw [Int64.toNat_toUInt64_of_le hr, Int64.cast_toNatClampNeg _ hr]
  have hnnat : (n.toUInt64.toNat : ℤ) = n.toInt := by
    rw [Int64.toNat_toUInt64_of_le hn, Int64.cast_toNatClampNeg _ hn]
  have hlt' : r.toInt < n.toInt := Int64.lt_iff_toInt_lt.mp hlt
  have hone : (1 : UInt64) ≤ n.toUInt64 := by
    rw [UInt64.le_iff_toNat_le]
    change 1 ≤ n.toUInt64.toNat
    omega
  rw [UInt64.le_iff_toNat_le, UInt64.toNat_sub_of_le _ _ hone]
  change r.toUInt64.toNat ≤ n.toUInt64.toNat - 1
  omega

theorem belowBound_mem {n : Int64} (hn : 0 < n) (halt : Halt K) :
    Ensures (belowBound n halt) fun r => 0 ≤ r ∧ r < n := by
  rw [belowBound, if_neg (Int64.not_lt.mpr (Int64.le_of_lt hn))]
  exact (bitsLimit_le _).bind fun r hr => ensures_pure (toInt64_mem hn hr)

/-- With zero for a bound, it draws from all values there are. -/
theorem belowBound_zero_not_panics (halt : Halt K) (s : State) :
    ¬ s.Panics (belowBound 0 halt) := by
  rintro ⟨n, halt', hn, hne⟩
  rw [belowBound, if_neg (by decide)] at hn
  cases hdraw : bitsLimit (K := K) ((0 : Int64).toUInt64 - 1) (s.words n) with
  | ok out =>
    rw [bind_of_eq_ok hdraw] at hn
    cases hn
  | error e =>
    have hbind : ((bitsLimit (K := K) ((0 : Int64).toUInt64 - 1) >>= fun r => pure r.toInt64) :
        Draws K Int64) (s.words n) = .error e := by
      change (bitsLimit (K := K) ((0 : Int64).toUInt64 - 1) (s.words n) >>= fun x => _) = _
      rw [hdraw]
      rfl
    rw [hbind, Except.error.injEq] at hn
    exact hne (hn ▸ bitsLimit_error hdraw)

theorem bounded_belowBound {n : Int64} (hn : n ≠ 0) {halt : Halt K} (hhalt : halt ≠ .words) :
    Bounded n (belowBound n halt) := by
  refine ⟨fun hpos s => ?_, fun hpos s r hr => ?_, fun hneg s => ?_, fun r hr hlt => ?_⟩
  · obtain ⟨r, hr⟩ := bitsLimit_returns (K := K) (n.toUInt64 - 1) s
    rw [belowBound, if_neg (Int64.not_lt.mpr (Int64.le_of_lt hpos))]
    exact ⟨_, returns_toInt64 hr⟩
  · obtain ⟨k, hk⟩ := hr
    exact belowBound_mem hpos halt _ _ _ hk
  · have hlt : n < 0 := Int64.lt_of_le_of_ne (Int64.not_lt.mp hneg) hn
    refine ⟨0, halt, ?_, hhalt⟩
    rw [belowBound, if_pos hlt]
  · have hval := toUInt64_le_sub_one hr hlt
    obtain ⟨s, hs⟩ := bitsLimit_occurs (K := K) hval
    refine ⟨s, ?_⟩
    rw [belowBound, if_neg (Int64.not_lt.mpr (Int64.le_of_lt (Int64.lt_of_le_of_lt hr hlt)))]
    exact returns_toInt64 hs

/-- CORRECT: `Intn` and `Int64n` keep what is promised of them, and the mask is the smallest that
    covers the limit, for every bound but zero; zero they take for a bound on nothing. -/
theorem bounded_iff (n : Int64) : (Bounded n (intn (K := K) n) ∧ Bounded n (int64n (K := K) n) ∧
    ∀ limit : UInt64, IsLeast {m : ℕ | (∃ k, m = 2 ^ k - 1) ∧ limit.toNat ≤ m} (mask limit).toNat) ↔
      n ≠ 0 := by
  constructor
  · rintro ⟨h, -, -⟩ rfl
    exact belowBound_zero_not_panics _ (State.new 0) (h.fails (by decide) (State.new 0))
  · intro hn
    exact ⟨bounded_belowBound hn (by rintro ⟨⟩), bounded_belowBound hn (by rintro ⟨⟩), isLeast_mask⟩

/-- A bound of zero is refused on a freshly seeded generator no more than on any other. -/
theorem intn_zero_returns : ¬ ∀ n : Int64, ¬ 0 < n → (State.new 42).Panics (intn (K := ℚ) n) :=
  fun h => belowBound_zero_not_panics _ _ (h 0 (by decide))

end Determined.Nprand
