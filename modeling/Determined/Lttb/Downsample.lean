import Mathlib

/-! Downsampling a series of points (`internal/lttb/lttb.go`).

    The arithmetic is exact, over an ordered field. Reading or writing a slice out of its range is a
    panic, and then there is no result. The indices in the loop are never negative, so converting
    one from a number rounds it down. -/

namespace Determined.Lttb

structure Point (K : Type*) where
  x : K
  y : K
  deriving DecidableEq, Repr

variable {K : Type*} [Field K] [LinearOrder K] [FloorSemiring K]

/-- Where the bucket `i` begins: the first point comes before the first bucket. -/
def bucketStart (every : K) (i : ℕ) : ℕ := ⌊(i : K) * every⌋₊ + 1

/-- Adding the coordinates of a point. -/
def addPoint (data : List (Point K)) (total : Point K) (j : ℕ) : Option (Point K) := do
  let p ← data[j]?
  return ⟨total.x + p.x, total.y + p.y⟩

/-- The average of the points in a range. -/
def average (data : List (Point K)) (start stop : ℕ) : Option (Point K) := do
  let total ← (List.range' start (stop - start)).foldlM (addPoint data) ⟨0, 0⟩
  return ⟨total.x / (stop - start : ℤ), total.y / (stop - start : ℤ)⟩

/-- The area of the triangle of three points. -/
def triangleArea (a b avg : Point K) : K :=
  |(a.x - avg.x) * (b.y - a.y) - (a.x - b.x) * (avg.y - a.y)| * (1 / 2)

/-- The largest area so far, its point, and its index. -/
structure Best (K : Type*) where
  maxArea : K
  maxAreaPoint : Point K
  nextA : ℕ

def Best.consider (data : List (Point K)) (a avg : Point K) (best : Best K) (j : ℕ) :
    Option (Best K) := do
  let p ← data[j]?
  let area := triangleArea a p avg
  return if best.maxArea < area then ⟨area, p, j⟩ else best

/-- The loop over the points of a bucket. -/
def pick (data : List (Point K)) (a avg : Point K) (nextA start stop : ℕ) : Option (Best K) :=
  (List.range' start (stop - start)).foldlM (Best.consider data a avg) ⟨-1, ⟨0, 0⟩, nextA⟩

/-- Writing an element of a slice. -/
def write (l : List (Point K)) (i : ℕ) (p : Point K) : Option (List (Point K)) :=
  if i < l.length then some (l.set i p) else none

structure State (K : Type*) where
  a : ℕ
  nextA : ℕ
  sampled : List (Point K)
  sampledIndex : ℕ

/-- One turn of the loop: the point picked from the bucket `i`. -/
def turn (data : List (Point K)) (every : K) (s : State K) (i : ℕ) : Option (State K) := do
  let avg ← average data (bucketStart every (i + 1))
    (min (bucketStart every (i + 2)) data.length)
  let a ← data[s.a]?
  let best ← pick data a avg s.nextA (bucketStart every i) (bucketStart every (i + 1))
  let sampled ← write s.sampled s.sampledIndex best.maxAreaPoint
  return ⟨best.nextA, best.nextA, sampled, s.sampledIndex + 1⟩

/-- The size of a bucket. -/
def bucketSize (dataLength threshold : ℕ) : K := ((dataLength : K) - 2) / ((threshold : K) - 2)

def downsample (data : List (Point K)) (threshold : ℕ) : Option (List (Point K)) :=
  let dataLength := data.length
  if dataLength ≤ threshold ∨ threshold = 0 then some data
  else do
    let every : K := bucketSize dataLength threshold
    let sampled := List.replicate threshold (⟨0, 0⟩ : Point K)
    let first ← data[0]?
    let sampled ← write sampled 0 first
    let s ← (List.range (threshold - 2)).foldlM (turn data every) ⟨0, 0, sampled, 1⟩
    let last ← data[dataLength - 1]?
    write s.sampled s.sampledIndex last

/-- A sample of the points, by their indices: they increase, the first and the last point are among
    them, and so is one of every bucket in between. -/
structure Sample (data : List (Point K)) (threshold : ℕ) (sampled : List (Point K))
    (indices : List ℕ) : Prop where
  length : indices.length = threshold
  points : sampled.map some = indices.map (data[·]?)
  increasing : indices.Pairwise (· < ·)
  first : indices.head? = some 0
  last : indices.getLast? = some (data.length - 1)
  bucket : ∀ i < threshold - 2, ∃! j, j ∈ indices ∧
    bucketStart (bucketSize data.length threshold : K) i ≤ j ∧
      j < bucketStart (bucketSize data.length threshold : K) (i + 1)

/-! ### The buckets -/

section Buckets

variable [IsStrictOrderedRing K] {n t : ℕ}

theorem one_lt_bucketSize (ht : 3 ≤ t) (hn : t < n) : (1 : K) < bucketSize n t := by
  have ht' : (3 : K) ≤ t := by exact_mod_cast ht
  have hn' : (t : K) < n := by exact_mod_cast hn
  rw [bucketSize, lt_div_iff₀ (by linarith)]
  linarith

/-- The first bucket begins after the first point. -/
theorem bucketStart_zero (every : K) : bucketStart every 0 = 1 := by
  simp [bucketStart]

/-- Every bucket has a point. -/
theorem bucketStart_lt {every : K} (h : 1 < every) (i : ℕ) :
    bucketStart every i < bucketStart every (i + 1) := by
  have hle : (i : K) * every + 1 ≤ ((i + 1 : ℕ) : K) * every := by
    push_cast
    linarith
  have hnonneg : (0 : K) ≤ (i : K) * every := mul_nonneg (Nat.cast_nonneg i) (by linarith)
  have hfloor := Nat.floor_le_floor hle
  rw [Nat.floor_add_one hnonneg] at hfloor
  simp only [bucketStart]
  omega

theorem bucketStart_le {every : K} (h : 1 < every) {i j : ℕ} (hij : i ≤ j) :
    bucketStart every i ≤ bucketStart every j :=
  (strictMono_nat_of_lt_succ (bucketStart_lt h)).monotone hij

/-- The last bucket ends before the last point. -/
theorem bucketStart_last (ht : 3 ≤ t) (hn : t < n) :
    bucketStart (bucketSize n t : K) (t - 2) = n - 1 := by
  have hne : ((t : K) - 2) ≠ 0 := by
    have : (3 : K) ≤ t := by exact_mod_cast ht
    linarith
  have hcast : ((t - 2 : ℕ) : K) = (t : K) - 2 := by
    rw [Nat.cast_sub (by omega)]
    rfl
  have hprod : ((t - 2 : ℕ) : K) * bucketSize n t = ((n - 2 : ℕ) : K) := by
    rw [hcast, bucketSize, mul_div_cancel₀ _ hne, Nat.cast_sub (by omega)]
    rfl
  rw [bucketStart, hprod, Nat.floor_natCast]
  omega

/-- The average of a turn is over one point at least. -/
theorem average_range_nonempty (hn : t < n) {i : ℕ} (hi : i < t - 2) :
    bucketStart (bucketSize n t : K) (i + 1) < min (bucketStart (bucketSize n t : K) (i + 2)) n := by
  have hevery := one_lt_bucketSize (K := K) (show 3 ≤ t by omega) hn
  have hlast := bucketStart_le hevery (show i + 1 ≤ t - 2 by omega)
  rw [bucketStart_last (by omega) hn] at hlast
  exact lt_min (bucketStart_lt hevery (i + 1)) (by omega)

end Buckets

/-! ### One turn -/

omit [Field K] [LinearOrder K] [FloorSemiring K] in
theorem get_of_lt {data : List (Point K)} {j : ℕ} (h : j < data.length) : ∃ p, data[j]? = some p :=
  ⟨_, List.getElem?_eq_getElem h⟩

omit [LinearOrder K] [FloorSemiring K] in
/-- A range within the data has an average. -/
theorem average_eq_some {data : List (Point K)} (start : ℕ) {stop : ℕ} (h : stop ≤ data.length) :
    ∃ avg, average data start stop = some avg := by
  have hfold : ∀ (js : List ℕ) (total : Point K), (∀ j ∈ js, j < data.length) →
      ∃ total', js.foldlM (addPoint data) total = some total' := by
    intro js
    induction js with
    | nil => exact fun total _ => ⟨total, rfl⟩
    | cons j js ih =>
      intro total hjs
      obtain ⟨p, hp⟩ := get_of_lt (hjs j (List.mem_cons_self ..))
      obtain ⟨total', htotal⟩ := ih ⟨total.x + p.x, total.y + p.y⟩
        fun j hj => hjs j (List.mem_cons_of_mem _ hj)
      exact ⟨total', by simp [List.foldlM_cons, addPoint, hp, htotal]⟩
  obtain ⟨total, htotal⟩ := hfold (List.range' start (stop - start)) ⟨0, 0⟩ fun j hj => by
    have := List.mem_range'_1.mp hj
    omega
  exact ⟨_, by rw [average, htotal]; rfl⟩

theorem triangleArea_nonneg [IsStrictOrderedRing K] (a b avg : Point K) :
    0 ≤ triangleArea a b avg :=
  mul_nonneg (abs_nonneg _) (by norm_num)

omit [FloorSemiring K] in
/-- What is best among some points is one of them, or what was best before. -/
theorem foldlM_consider {data : List (Point K)} (a avg : Point K) (js : List ℕ) :
    ∀ best : Best K, (∀ j ∈ js, j < data.length) →
      ∃ best', js.foldlM (Best.consider data a avg) best = some best' ∧
        (best' = best ∨ best'.nextA ∈ js ∧ data[best'.nextA]? = some best'.maxAreaPoint) ∧
        best.maxArea ≤ best'.maxArea ∧
        ∀ j ∈ js, ∀ p, data[j]? = some p → triangleArea a p avg ≤ best'.maxArea := by
  induction js with
  | nil => exact fun best _ => ⟨best, rfl, .inl rfl, le_rfl, by simp⟩
  | cons j js ih =>
    intro best hjs
    obtain ⟨p, hp⟩ := get_of_lt (hjs j (List.mem_cons_self ..))
    obtain ⟨best', hbest, hwhich, hle, hall⟩ :=
      ih (if best.maxArea < triangleArea a p avg then ⟨triangleArea a p avg, p, j⟩ else best)
        fun j hj => hjs j (List.mem_cons_of_mem _ hj)
    have hthis : best.maxArea ≤ best'.maxArea ∧ triangleArea a p avg ≤ best'.maxArea := by
      split at hle
      · next hlt => exact ⟨hlt.le.trans hle, hle⟩
      · next hge => exact ⟨hle, (not_lt.mp hge).trans hle⟩
    refine ⟨best', by simp [List.foldlM_cons, Best.consider, hp, hbest], ?_, hthis.1, ?_⟩
    · rcases hwhich with rfl | ⟨hmem, hpoint⟩
      · split
        · exact .inr ⟨List.mem_cons_self .., hp⟩
        · exact .inl rfl
      · exact .inr ⟨List.mem_cons_of_mem _ hmem, hpoint⟩
    · intro j' hj' p' hp'
      rcases List.mem_cons.mp hj' with rfl | hj'
      · cases hp.symm.trans hp'
        exact hthis.2
      · exact hall j' hj' p' hp'

/-- From a bucket with a point one of its points is picked, and no other has a larger area. -/
theorem pick_eq_some [IsStrictOrderedRing K] {data : List (Point K)} (a avg : Point K) (nextA : ℕ)
    {start stop : ℕ} (hlt : start < stop) (hstop : stop ≤ data.length) :
    ∃ best, pick data a avg nextA start stop = some best ∧ start ≤ best.nextA ∧
      best.nextA < stop ∧ data[best.nextA]? = some best.maxAreaPoint ∧
      ∀ j, start ≤ j → j < stop → ∀ p, data[j]? = some p →
        triangleArea a p avg ≤ best.maxArea := by
  have hmem : ∀ j, j ∈ List.range' start (stop - start) ↔ start ≤ j ∧ j < stop := by
    intro j
    rw [List.mem_range'_1]
    omega
  obtain ⟨best, hbest, hwhich, _, hall⟩ :=
    foldlM_consider a avg (List.range' start (stop - start)) ⟨-1, ⟨0, 0⟩, nextA⟩
      fun j hj => ((hmem j).mp hj).2.trans_le hstop
  obtain ⟨p, hp⟩ := get_of_lt (hlt.trans_le hstop)
  have harea := hall start ((hmem start).mpr ⟨le_rfl, hlt⟩) p hp
  have hpicked := hwhich.resolve_left fun h => by
    have := triangleArea_nonneg a p avg
    rw [h] at harea
    norm_num at harea
    linarith
  obtain ⟨hlow, hhigh⟩ := (hmem best.nextA).mp hpicked.1
  exact ⟨best, hbest, hlow, hhigh, hpicked.2, fun j hlow hhigh =>
    hall j ((hmem j).mpr ⟨hlow, hhigh⟩)⟩

/-- What was sampled from the first point on and from the buckets before the bucket `i`. -/
structure Taken (data : List (Point K)) (t : ℕ) (every : K) (i : ℕ) (s : State K)
    (indices : List ℕ) : Prop where
  length : indices.length = i + 1
  sampled : ∃ picked : List (Point K), picked.map some = indices.map (data[·]?) ∧
    s.sampled = picked ++ List.replicate (t - (i + 1)) ⟨0, 0⟩
  index : s.sampledIndex = i + 1
  inRange : s.a < data.length
  increasing : indices.Pairwise (· < ·)
  first : indices.head? = some 0
  before : ∀ j ∈ indices, j < bucketStart every i
  bucket : ∀ i' < i, ∃! j, j ∈ indices ∧ bucketStart every i' ≤ j ∧ j < bucketStart every (i' + 1)

omit [LinearOrder K] [FloorSemiring K] in
/-- Writing the next element. -/
theorem write_next {picked : List (Point K)} {t i : ℕ} (hlength : picked.length = i) (hi : i < t)
    (p : Point K) :
    write (picked ++ List.replicate (t - i) ⟨0, 0⟩) i p
      = some ((picked ++ [p]) ++ List.replicate (t - (i + 1)) ⟨0, 0⟩) := by
  have hlt : i < (picked ++ List.replicate (t - i) (⟨0, 0⟩ : Point K)).length := by
    rw [List.length_append, List.length_replicate]
    omega
  rw [write, if_pos hlt, List.set_append_right _ _ hlength.le, hlength, Nat.sub_self,
    show t - i = t - (i + 1) + 1 by omega, List.replicate_succ, List.set_cons_zero,
    List.append_assoc]
  rfl

/-- What is in a list that increases up to a bound, and one more. -/
theorem existsUnique_snoc {indices : List ℕ} {low high k : ℕ}
    (h : ∃! j, j ∈ indices ∧ low ≤ j ∧ j < high) (hk : high ≤ k) :
    ∃! j, j ∈ indices ++ [k] ∧ low ≤ j ∧ j < high := by
  obtain ⟨j, ⟨hj, hlow, hhigh⟩, hunique⟩ := h
  refine ⟨j, ⟨List.mem_append_left _ hj, hlow, hhigh⟩, fun j' h' => ?_⟩
  obtain ⟨hj', hlow', hhigh'⟩ := h'
  rcases List.mem_append.mp hj' with hj' | hj'
  · exact hunique j' ⟨hj', hlow', hhigh'⟩
  · obtain rfl := List.mem_singleton.mp hj'
    omega

/-- Step lemma: a turn takes one point from its bucket. -/
theorem Taken.turn [IsStrictOrderedRing K] {data : List (Point K)} {t i : ℕ}
    (hn : t < data.length) (hi : i < t - 2) {s : State K} {indices : List ℕ}
    (h : Taken data t (bucketSize data.length t) i s indices) :
    ∃ s' k, turn data (bucketSize data.length t) s i = some s' ∧
      Taken data t (bucketSize data.length t) (i + 1) s' (indices ++ [k]) := by
  have ht : 3 ≤ t := by omega
  have hevery := one_lt_bucketSize (K := K) ht hn
  have hend : bucketStart (bucketSize data.length t : K) (i + 1) ≤ data.length - 1 := by
    rw [← bucketStart_last (K := K) ht hn]
    exact bucketStart_le hevery (by omega)
  have hbucket := bucketStart_lt hevery i
  obtain ⟨avg, havg⟩ := average_eq_some (bucketStart (bucketSize data.length t : K) (i + 1))
    (min_le_right (bucketStart (bucketSize data.length t : K) (i + 2)) data.length)
  obtain ⟨a, ha⟩ := get_of_lt h.inRange
  have hstop : bucketStart (bucketSize data.length t : K) (i + 1) ≤ data.length := by omega
  obtain ⟨best, hbest, hlow, hhigh, hpoint, _⟩ := pick_eq_some a avg s.nextA hbucket hstop
  obtain ⟨picked, hpicked, hsampled⟩ := h.sampled
  have hlength : picked.length = i + 1 := by
    have := congrArg List.length hpicked
    rw [List.length_map, List.length_map, h.length] at this
    exact this
  have hwrite := write_next hlength (show i + 1 < t by omega) best.maxAreaPoint
  refine ⟨⟨best.nextA, best.nextA,
    (picked ++ [best.maxAreaPoint]) ++ List.replicate (t - (i + 2)) ⟨0, 0⟩, i + 2⟩, best.nextA,
    ?_, ?_⟩
  · simp only [Lttb.turn, havg, ha, hbest, Option.bind_eq_bind, Option.bind_some, hsampled, h.index,
      hwrite]
    rfl
  · refine ⟨by rw [List.length_append, h.length]; rfl, ⟨_, ?_, rfl⟩, rfl,
      by simp only []; omega, ?_, ?_, ?_, ?_⟩
    · rw [List.map_append, List.map_append, hpicked, List.map_singleton, List.map_singleton, hpoint]
    · refine List.pairwise_append.mpr ⟨h.increasing, List.pairwise_singleton _ _, ?_⟩
      intro j hj k hk
      rw [List.mem_singleton.mp hk]
      exact (h.before j hj).trans_le hlow
    · rw [List.head?_append, h.first]
      rfl
    · intro j hj
      rcases List.mem_append.mp hj with hj | hj
      · exact (h.before j hj).trans hbucket
      · rw [List.mem_singleton.mp hj]
        exact hhigh
    · intro i' hi'
      by_cases hlast : i' = i
      · subst hlast
        refine ⟨best.nextA, ⟨by simp, hlow, hhigh⟩, fun j hj => ?_⟩
        obtain ⟨hmem, hlow', _⟩ := hj
        rcases List.mem_append.mp hmem with hmem | hmem
        · have := h.before j hmem
          omega
        · exact List.mem_singleton.mp hmem
      · exact existsUnique_snoc (h.bucket i' (by omega))
          ((bucketStart_le hevery (by omega)).trans hlow)

/-- Run lemma: the turns take one point from each of their buckets. -/
theorem turns_taken [IsStrictOrderedRing K] {data : List (Point K)} {t : ℕ}
    (hn : t < data.length) {s : State K}
    (h : Taken data t (bucketSize data.length t) 0 s [0]) :
    ∀ m ≤ t - 2, ∃ s' indices,
      (List.range m).foldlM (turn data (bucketSize data.length t)) s = some s' ∧
        Taken data t (bucketSize data.length t) m s' indices := by
  intro m
  induction m with
  | zero => exact fun _ => ⟨s, [0], rfl, h⟩
  | succ m ih =>
    intro hm
    obtain ⟨s', indices, hrun, htaken⟩ := ih (by omega)
    obtain ⟨s'', k, hturn, htaken'⟩ := htaken.turn hn (by omega)
    refine ⟨s'', indices ++ [k], ?_, htaken'⟩
    rw [List.range_succ, List.foldlM_append, hrun]
    simp [List.foldlM_cons, hturn]

/-! ### Downsampling -/

/-- The last point completes a sample. -/
theorem Taken.sample [IsStrictOrderedRing K] {data : List (Point K)} {t : ℕ} (ht : 2 ≤ t)
    (hn : t < data.length) {s : State K} {indices : List ℕ}
    (h : Taken data t (bucketSize data.length t) (t - 2) s indices) {last : Point K}
    (hlast : data[data.length - 1]? = some last) :
    ∃ sampled, write s.sampled s.sampledIndex last = some sampled ∧
      Sample data t sampled (indices ++ [data.length - 1]) := by
  obtain ⟨picked, hpicked, hsampled⟩ := h.sampled
  have hlength : picked.length = t - 2 + 1 := by
    have := congrArg List.length hpicked
    rw [List.length_map, List.length_map, h.length] at this
    exact this
  have hend : bucketStart (bucketSize data.length t : K) (t - 2) ≤ data.length - 1 := by
    by_cases ht3 : 3 ≤ t
    · exact (bucketStart_last ht3 hn).le
    · rw [show t - 2 = 0 by omega, bucketStart_zero]
      omega
  refine ⟨picked ++ [last], ?_, ?_, ?_, ?_, ?_, ?_, fun i hi => ?_⟩
  · rw [hsampled, h.index, write_next hlength (by omega), show t - (t - 2 + 1 + 1) = 0 by omega,
      List.replicate_zero, List.append_nil]
  · rw [List.length_append, h.length, List.length_singleton]
    omega
  · rw [List.map_append, List.map_append, hpicked, List.map_singleton, List.map_singleton, hlast]
  · refine List.pairwise_append.mpr ⟨h.increasing, List.pairwise_singleton _ _, ?_⟩
    intro j hj k hk
    rw [List.mem_singleton.mp hk]
    exact (h.before j hj).trans_le hend
  · rw [List.head?_append, h.first]
    rfl
  · rw [List.getLast?_append]
    rfl
  · refine existsUnique_snoc (h.bucket i hi) (le_trans ?_ hend)
    exact bucketStart_le (one_lt_bucketSize (by omega) hn) (by omega)

theorem downsample_sample [IsStrictOrderedRing K] {data : List (Point K)} {t : ℕ} (ht : 2 ≤ t)
    (hn : t < data.length) :
    ∃ sampled indices, downsample data t = some sampled ∧ Sample data t sampled indices := by
  obtain ⟨first, hfirst⟩ := get_of_lt (show 0 < data.length by omega)
  obtain ⟨last, hlast⟩ := get_of_lt (show data.length - 1 < data.length by omega)
  have hwrite : write (List.replicate t ⟨0, 0⟩) 0 first
      = some ([first] ++ List.replicate (t - 1) ⟨0, 0⟩) := by
    have hnil : ([] : List (Point K)).length = 0 := rfl
    exact write_next hnil (show 0 < t by omega) first
  have hstart : Taken data t (bucketSize data.length t) 0
      ⟨0, 0, [first] ++ List.replicate (t - 1) ⟨0, 0⟩, 1⟩ [0] := by
    refine ⟨rfl, ⟨[first], by simp [hfirst], rfl⟩, rfl, by simp only []; omega,
      List.pairwise_singleton _ _, rfl, fun j hj => ?_, by simp⟩
    rw [List.mem_singleton.mp hj, bucketStart_zero]
    exact Nat.one_pos
  obtain ⟨s, indices, hrun, htaken⟩ := turns_taken hn hstart (t - 2) le_rfl
  obtain ⟨sampled, hsampled, hsample⟩ := htaken.sample ht hn hlast
  refine ⟨sampled, _, ?_, hsample⟩
  rw [downsample, if_neg (by omega)]
  simp only [hfirst, hwrite, hrun, hlast, hsampled, Option.bind_eq_bind, Option.bind_some]

/-- The series is returned as it is, or a sample of it is. -/
def Downsampled (data : List (Point K)) (threshold : ℕ) : Prop :=
  if data.length ≤ threshold ∨ threshold = 0 then downsample data threshold = some data
  else ∃ sampled indices, downsample data threshold = some sampled ∧
    Sample data threshold sampled indices

/-- CORRECT: downsampling does what it should, and does not panic, exactly when the threshold is not
    one or the series has at most one point. -/
theorem downsample_iff [IsStrictOrderedRing K] (data : List (Point K)) (threshold : ℕ) :
    Downsampled data threshold ↔ threshold ≠ 1 ∨ data.length ≤ 1 := by
  simp only [Downsampled]
  split
  · next h =>
    refine iff_of_true ?_ (by omega)
    rw [downsample, if_pos h]
  · next h =>
    by_cases hone : threshold = 1
    · refine iff_of_false ?_ (by omega)
      rintro ⟨sampled, indices, hsampled, _⟩
      subst hone
      obtain ⟨first, hfirst⟩ := get_of_lt (show 0 < data.length by omega)
      obtain ⟨last, hlast⟩ := get_of_lt (show data.length - 1 < data.length by omega)
      rw [downsample, if_neg h] at hsampled
      simp [hfirst, hlast, write] at hsampled
    · exact iff_of_true (downsample_sample (by omega) (by omega)) (.inl hone)

theorem downsample_iff_peak :
    Downsampled [(⟨0, 0⟩ : Point ℚ), ⟨1, 5⟩, ⟨2, 1⟩, ⟨3, 2⟩] 3 :=
  (downsample_iff [⟨0, 0⟩, ⟨1, 5⟩, ⟨2, 1⟩, ⟨3, 2⟩] 3).mpr (.inl (by decide))

/-- Two points and a threshold of one: the second write is out of range. -/
theorem threshold_one_panics : downsample [(⟨0, 0⟩ : Point ℚ), ⟨1, 1⟩] 1 = none := by
  simp [downsample, write]

end Determined.Lttb
