import Determined.Schemes.MaxMin
import Determined.Scheduler.Limits

/-! Progressive filling for groups of equal weight whose pending tasks need one slot each.

    A pass goes through the groups by increasing need. As long as it satisfies them, the share grows:
    the total weight is recomputed without the satisfied group, but the slots shared are still those
    the pass started with (`satisfied`). The first group it cannot satisfy fixes the share, and all
    groups from there on are offered that share while slots last. So the slots already given to the
    satisfied groups are shared a second time, and where they are missing at the end (`evenPass`
    fails), the groups there fall short by more than one slot. Deadlock breaking does nothing here: a
    group it disables has no slots. The main result is `max_min_fair_iff`. -/

namespace Determined.Scheduler
open Determined.Model Determined.Schemes

/-! ### What a pass does, in terms of the groups' needs -/

/-- The share of one of `n` groups of weight `w` that are short of their demand. -/
def shareOf (w : ℚ) (startCapacity : ℤ) (n : ℕ) : ℤ :=
  calculatedFairShare startCapacity w (n * w)

/-- The needs a pass satisfies before it comes to one it cannot: the last of them, the slots left,
    and the needs from there on. -/
def satisfied (w : ℚ) (startCapacity : ℤ) : ℤ → ℤ → List ℤ → ℤ × ℤ × List ℤ
  | last, capacity, [] => (last, capacity, [])
  | last, capacity, need :: rest =>
    if need ≤ min (shareOf w startCapacity (rest.length + 1)) capacity then
      satisfied w startCapacity need (capacity - need) rest
    else (last, capacity, need :: rest)

/-- Whether a pass leaves the groups it cannot satisfy on one level: the slots left cover the share
    of each, or what they fall short by shows in no more than one slot. -/
def evenPass (w : ℚ) (p : ℤ × List ℤ) : Bool :=
  let (last, capacity, rest) := satisfied w p.1 0 p.1 p.2
  let share := shareOf w p.1 rest.length
  decide (rest.length * share ≤ capacity) ||
    decide (max last (min share capacity) ≤ 1 + max 0 (capacity - (rest.length - 1) * share))

/-- The slots and the needs a pass leaves for the next; none if the slots run out. -/
def nextPass (w : ℚ) (p : ℤ × List ℤ) : ℤ × List ℤ :=
  let (_, capacity, rest) := satisfied w p.1 0 p.1 p.2
  let share := shareOf w p.1 rest.length
  if rest.length * share ≤ capacity then
    (capacity - rest.length * share, rest.map (· - share))
  else (0, [])

theorem shareOf_pos (w : ℚ) (startCapacity : ℤ) (n : ℕ) : 1 ≤ shareOf w startCapacity n :=
  calculatedFairShare_pos _ _ _

theorem satisfied_zeros (w : ℚ) (startCapacity : ℤ) {capacity : ℤ} (hc : 0 ≤ capacity) (n : ℕ)
    (needs : List ℤ) :
    satisfied w startCapacity 0 capacity (List.replicate n 0 ++ needs) =
      satisfied w startCapacity 0 capacity needs := by
  induction n with
  | zero => rfl
  | succ n ih =>
    have hle : (0 : ℤ) ≤ shareOf w startCapacity ((List.replicate n 0 ++ needs).length + 1) := by
      have := shareOf_pos w startCapacity ((List.replicate n 0 ++ needs).length + 1)
      omega
    rw [List.replicate_succ, List.cons_append, satisfied, if_pos (le_min hle hc), sub_zero, ih]

/-- Groups that need nothing make no difference. -/
theorem evenPass_zeros (w : ℚ) {capacity : ℤ} (hc : 0 ≤ capacity) (n : ℕ) (needs : List ℤ) :
    evenPass w (capacity, List.replicate n 0 ++ needs) = evenPass w (capacity, needs) := by
  simp only [evenPass, satisfied_zeros w capacity hc]

theorem nextPass_zeros (w : ℚ) {capacity : ℤ} (hc : 0 ≤ capacity) (n : ℕ) (needs : List ℤ) :
    nextPass w (capacity, List.replicate n 0 ++ needs) = nextPass w (capacity, needs) := by
  simp only [nextPass, satisfied_zeros w capacity hc]

/-- All passes that start from these slots and needs are even. -/
def FillsEvenly (w : ℚ) (p : ℤ × List ℤ) : Prop := ∀ i : ℕ, evenPass w ((nextPass w)^[i] p) = true

theorem fillsEvenly_iff (w : ℚ) (p : ℤ × List ℤ) :
    FillsEvenly w p ↔ evenPass w p = true ∧ FillsEvenly w (nextPass w p) := by
  constructor
  · exact fun h => ⟨h 0, fun i => by simpa using h (i + 1)⟩
  · rintro ⟨h0, h⟩ (_ | i)
    · exact h0
    · simpa using h i

theorem fillsEvenly_zeros (w : ℚ) {capacity : ℤ} (hc : 0 ≤ capacity) (n : ℕ) (needs : List ℤ) :
    FillsEvenly w (capacity, List.replicate n 0 ++ needs) ↔ FillsEvenly w (capacity, needs) := by
  rw [fillsEvenly_iff, evenPass_zeros w hc, nextPass_zeros w hc, ← fillsEvenly_iff]

theorem fillsEvenly_nil (w : ℚ) {capacity : ℤ} (hc : 0 ≤ capacity) :
    FillsEvenly w (capacity, []) := by
  have hfix : nextPass w (capacity, []) = (capacity, []) := by simp [nextPass, satisfied, hc]
  intro i
  rw [Function.iterate_fixed hfix]
  simp [evenPass, satisfied, hc]

/-- Once the slots are gone, so are the passes. -/
theorem fillsEvenly_zero_capacity (w : ℚ) {needs : List ℤ} (hpos : ∀ need ∈ needs, 0 < need) :
    FillsEvenly w (0, needs) := by
  cases needs with
  | nil => exact fillsEvenly_nil w (le_refl _)
  | cons need rest =>
    have hshare := shareOf_pos w 0 (rest.length + 1)
    have hneed := hpos need (List.mem_cons_self ..)
    have hsat : satisfied w 0 0 0 (need :: rest) = (0, 0, need :: rest) := by
      rw [satisfied, if_neg (by omega)]
    have hlen : ¬ ((need :: rest).length : ℤ) * shareOf w 0 (need :: rest).length ≤ 0 := by
      rw [not_le]
      exact mul_pos (by simp) (by simpa using lt_of_lt_of_le one_pos hshare)
    rw [fillsEvenly_iff]
    constructor
    · simp only [evenPass, hsat, Bool.or_eq_true, decide_eq_true_eq]
      have := shareOf_pos w 0 (need :: rest).length
      omega
    · have hnext : nextPass w (0, need :: rest) = (0, []) := by
        simp only [nextPass, hsat, if_neg hlen]
      rw [hnext]
      exact fillsEvenly_nil w (le_refl _)

/-! ### One pass over the groups -/

/-- What the group is short of its demand. -/
def OfferState.need (st : OfferState) : ℤ := st.slotDemand - st.offered

/-- Offer the group its demand. -/
def OfferState.fill (st : OfferState) : OfferState := { st with offered := st.slotDemand }

/-- A group with weight `w`, nothing presubscribed and one-slot pending tasks. -/
structure OfferState.Plain (w : ℚ) (st : OfferState) : Prop where
  weight : st.group.weight = w
  enabled : st.disabled = false
  preoffers : st.preoffers = 0
  presubscribed : st.presubscribedSlots = 0
  oneSlot : ∀ req ∈ st.pendingReqs, req.slotsNeeded = 1

/-- The groups that count for the total weight. -/
def shortCount (states : List OfferState) : ℕ := states.countP fun st => decide (0 < st.need)

variable {w : ℚ} {st : OfferState} {l done : List OfferState} {capacity : ℤ}

theorem getTotalWeight_eq (h : ∀ st ∈ l, st.Plain w) : getTotalWeight l = shortCount l * w := by
  induction l with
  | nil => simp [getTotalWeight, shortCount]
  | cons st rest ih =>
    obtain ⟨hst, hrest⟩ := List.forall_mem_cons.mp h
    have hcond : (!st.disabled && decide (st.offered < st.slotDemand)) = decide (0 < st.need) := by
      rw [hst.enabled, OfferState.need]
      simp
    simp only [getTotalWeight, shortCount, List.map_cons, List.sum_cons, List.countP_cons, hcond]
      at ih ⊢
    rw [ih hrest, hst.weight]
    split
    · push_cast; ring
    · simp

theorem plain_give (h : st.Plain w) (slots : ℤ) : (st.give slots 0).Plain w :=
  ⟨h.weight, h.enabled, rfl, h.presubscribed, h.oneSlot⟩

theorem plain_fill (h : st.Plain w) : st.fill.Plain w :=
  ⟨h.weight, h.enabled, h.preoffers, h.presubscribed, h.oneSlot⟩

theorem active_iff_need (h : st.Plain w) : st.active = true ↔ st.need ≠ 0 := by
  rw [OfferState.active_iff, OfferState.need, sub_ne_zero]
  exact ⟨fun hh => Ne.symm hh.2, fun hh => ⟨h.enabled, Ne.symm hh⟩⟩

/-- A plain group takes its whole offer. -/
theorem offerShare_plain (h : st.Plain w) (startCapacity : ℤ) (totalWeight : ℚ) :
    offerShare startCapacity totalWeight capacity st =
      (st.give (min (min (calculatedFairShare startCapacity w totalWeight) capacity) st.need) 0,
        min (min (calculatedFairShare startCapacity w totalWeight) capacity) st.need) := by
  unfold offerShare
  simp only [h.weight, h.preoffers, accountForPreoffers_of_nonpos (le_refl 0), OfferState.need]

theorem fill_of_met (h : st.need = 0) : st.fill = st := by
  have heq : st.slotDemand = st.offered := sub_eq_zero.mp h
  exact congrArg (fun offered => ({ st with offered := offered } : OfferState)) heq

theorem give_zero (h : st.preoffers = 0) : st.give 0 0 = st := by
  rw [OfferState.give, add_zero, ← h]

theorem give_need (h : st.Plain w) : st.give st.need 0 = st.fill := by
  simp only [OfferState.give, OfferState.fill, OfferState.need, ← h.preoffers]
  congr 2
  ring

/-- The groups from the first one a pass cannot satisfy: one share each, while slots last. -/
def levels (share : ℤ) : ℤ → List OfferState → List OfferState
  | _, [] => []
  | capacity, st :: rest =>
    st.give (min share capacity) 0 :: levels share (capacity - min share capacity) rest

/-- The slots that are left then. -/
def levelsLeft (share : ℤ) : ℤ → List OfferState → ℤ
  | capacity, [] => capacity
  | capacity, _ :: rest => levelsLeft share (capacity - min share capacity) rest

/-- Second part of a pass: no group is satisfied, so the share stays. -/
theorem fillPass_levels {startCapacity : ℤ} {n : ℕ} {statesLeft : ℤ} :
    ∀ (l done : List OfferState) (capacity : ℤ), (∀ st ∈ l, st.Plain w) → 0 ≤ capacity →
      (∀ st ∈ l, min (shareOf w startCapacity n) capacity < st.need) →
      fillPass startCapacity done l capacity (n * w) statesLeft =
        ⟨done ++ levels (shareOf w startCapacity n) capacity l,
          levelsLeft (shareOf w startCapacity n) capacity l, n * w, statesLeft⟩ := by
  intro l
  induction l with
  | nil => intro done capacity _ _ _; simp [fillPass, levels, levelsLeft]
  | cons st rest ih =>
    intro done capacity hplain hc hneed
    obtain ⟨hst, hrest⟩ := List.forall_mem_cons.mp hplain
    obtain ⟨hlt, hneed⟩ := List.forall_mem_cons.mp hneed
    have hshare := shareOf_pos w startCapacity n
    have hmin : min (min (shareOf w startCapacity n) capacity) st.need =
        min (shareOf w startCapacity n) capacity := min_eq_left hlt.le
    have ha : st.active = true := (active_iff_need hst).mpr (by omega)
    have hoff : offerShare startCapacity (n * w) capacity st =
        (st.give (min (shareOf w startCapacity n) capacity) 0,
          min (shareOf w startCapacity n) capacity) := by
      rw [offerShare_plain hst]
      exact Prod.ext (by rw [← shareOf, hmin]) (by rw [← shareOf, hmin])
    have hshort : (st.give (min (shareOf w startCapacity n) capacity) 0).offered ≠
        (st.give (min (shareOf w startCapacity n) capacity) 0).slotDemand := by
      simp only [OfferState.give, OfferState.need] at hlt ⊢
      omega
    unfold fillPass
    rw [if_pos ha, hoff]
    dsimp only
    rw [if_neg hshort, ih _ _ hrest (by omega) (fun st' hst' => ?_)]
    · simp [levels, levelsLeft]
    · have := hneed st' hst'
      omega

theorem shortCount_of_met (h : ∀ st ∈ l, st.need ≤ 0) : shortCount l = 0 := by
  rw [shortCount, List.countP_eq_zero]
  intro st hst
  simpa using h st hst

theorem shortCount_of_short (h : ∀ st ∈ l, 0 < st.need) : shortCount l = l.length := by
  rw [shortCount, List.countP_eq_length]
  intro st hst
  simpa using h st hst

/-- A group whose need its offer covers is filled, and the total weight recomputed without it. -/
theorem fillPass_met {startCapacity statesLeft : ℤ} (hst : st.Plain w) (hl : ∀ st ∈ l, st.Plain w)
    (hdone : ∀ st ∈ done, st.Plain w ∧ st.need ≤ 0) (hne : st.need ≠ 0)
    (hfits : st.need ≤ min (shareOf w startCapacity (shortCount (st :: l))) capacity) :
    fillPass startCapacity done (st :: l) capacity (shortCount (st :: l) * w) statesLeft =
      fillPass startCapacity (done ++ [st.fill]) l (capacity - st.need) (shortCount l * w)
        (statesLeft - 1) := by
  have hoff : offerShare startCapacity (shortCount (st :: l) * w) capacity st =
      (st.fill, st.need) := by
    rw [offerShare_plain hst, ← shareOf, min_eq_right hfits, give_need hst]
  have htotal : getTotalWeight (done ++ st.fill :: l) = shortCount l * w := by
    have hzero : shortCount (done ++ [st.fill]) = 0 := by
      refine shortCount_of_met fun x hx => ?_
      rcases List.mem_append.mp hx with hx | hx
      · exact (hdone x hx).2
      · rw [List.mem_singleton.mp hx]
        simp [OfferState.need, OfferState.fill]
    have happend : done ++ st.fill :: l = (done ++ [st.fill]) ++ l := by simp
    rw [happend, getTotalWeight_eq (w := w)]
    · rw [shortCount, List.countP_append, ← shortCount, ← shortCount, hzero, zero_add]
    · intro x hx
      rcases List.mem_append.mp hx with hx | hx
      · rcases List.mem_append.mp hx with hx | hx
        · exact (hdone x hx).1
        · rw [List.mem_singleton.mp hx]; exact plain_fill hst
      · exact hl x hx
  rw [fillPass, if_pos ((active_iff_need hst).mpr hne), hoff]
  have hfull : st.fill.offered = st.fill.slotDemand := rfl
  dsimp only
  rw [if_pos hfull, htotal]

/-- How a pass splits the groups, given the last need it satisfied before: those it satisfies, and
    those from the first it cannot satisfy on. -/
structure Splits (w : ℚ) (startCapacity last capacity : ℤ) (l met rest : List OfferState)
    (last' capacity' : ℤ) : Prop where
  split : l = met ++ rest
  satisfied : satisfied w startCapacity last capacity (l.map (·.need)) =
    (last', capacity', rest.map (·.need))
  left : 0 ≤ capacity'
  spent : capacity' = capacity - (met.map (·.need)).sum
  last : last' = (met.map (·.need)).getLastD last
  short : ∀ st ∈ rest, min (shareOf w startCapacity rest.length) capacity' < st.need

/-- First part of a pass: the groups whose need the share covers are satisfied one after another. -/
theorem fillPass_satisfied (startCapacity : ℤ) :
    ∀ (l done : List OfferState) (last capacity statesLeft : ℤ), (∀ st ∈ l, st.Plain w) →
      (∀ st ∈ done, st.Plain w ∧ st.need ≤ 0) → 0 ≤ capacity →
      (l.map (·.need)).Pairwise (· ≤ ·) →
      ∃ met rest last' capacity' statesLeft',
        Splits w startCapacity last capacity l met rest last' capacity' ∧
          fillPass startCapacity done l capacity (shortCount l * w) statesLeft =
            fillPass startCapacity (done ++ met.map OfferState.fill) rest capacity'
              (shortCount rest * w) statesLeft' := by
  intro l
  induction l with
  | nil =>
    intro done last capacity statesLeft _ _ hc _
    refine ⟨[], [], last, capacity, statesLeft, ⟨rfl, rfl, hc, ?_, rfl, ?_⟩, ?_⟩ <;> simp
  | cons st rest ih =>
    intro done last capacity statesLeft hplain hdone hc hsorted
    obtain ⟨hst, hrest⟩ := List.forall_mem_cons.mp hplain
    obtain ⟨hle, hsorted'⟩ := List.pairwise_cons.mp hsorted
    have hle' : ∀ st' ∈ rest, st.need ≤ st'.need :=
      fun st' hst' => hle _ (List.mem_map_of_mem hst')
    have hshare := shareOf_pos w startCapacity (rest.length + 1)
    have hfill : st.fill.Plain w ∧ st.fill.need ≤ 0 :=
      ⟨plain_fill hst, by simp [OfferState.need, OfferState.fill]⟩
    -- what is left to show once this group is satisfied
    have hgo : st.need ≤ min (shareOf w startCapacity (rest.length + 1)) capacity →
        ∀ statesLeft', (fillPass startCapacity done (st :: rest) capacity
          (shortCount (st :: rest) * w) statesLeft = fillPass startCapacity (done ++ [st.fill]) rest
            (capacity - st.need) (shortCount rest * w) statesLeft') →
        ∃ met rest' last' capacity' statesLeft',
          Splits w startCapacity last capacity (st :: rest) met rest' last' capacity' ∧
            fillPass startCapacity done (st :: rest) capacity (shortCount (st :: rest) * w)
              statesLeft = fillPass startCapacity (done ++ met.map OfferState.fill) rest' capacity'
                (shortCount rest' * w) statesLeft' := by
      intro hfits statesLeft' heq
      have hdone' : ∀ x ∈ done ++ [st.fill], x.Plain w ∧ x.need ≤ 0 := by
        intro x hx
        rcases List.mem_append.mp hx with hx | hx
        · exact hdone x hx
        · rw [List.mem_singleton.mp hx]; exact hfill
      obtain ⟨met, rest', last', capacity', statesLeft'', hsplit, hpass⟩ :=
        ih (done ++ [st.fill]) st.need (capacity - st.need) statesLeft' hrest hdone' (by omega)
          hsorted'
      refine ⟨st :: met, rest', last', capacity', statesLeft'', ⟨?_, ?_, hsplit.left, ?_, ?_,
        hsplit.short⟩, ?_⟩
      · rw [hsplit.split, List.cons_append]
      · rw [List.map_cons, satisfied, List.length_map, if_pos hfits, hsplit.satisfied]
      · rw [hsplit.spent, List.map_cons, List.sum_cons]
        omega
      · rw [hsplit.last, List.map_cons, List.getLastD_cons]
      · rw [heq, hpass]
        simp
    rcases lt_trichotomy st.need 0 with hneg | hzero | hpos
    · -- a negative need is always met, and did not count for the total weight
      have hshare' := shareOf_pos w startCapacity (shortCount (st :: rest))
      exact hgo (by omega) _ (fillPass_met hst hrest hdone hneg.ne (by omega))
    · -- a group that needs nothing is passed over
      have hna : ¬ st.active = true := by
        rw [active_iff_need hst]
        exact not_not.mpr hzero
      have hcount : shortCount (st :: rest) = shortCount rest := by simp [shortCount, hzero]
      refine hgo (by omega) statesLeft ?_
      rw [fillPass, if_neg hna, fill_of_met hzero, hzero, sub_zero, hcount]
    · have hall : ∀ x ∈ st :: rest, 0 < x.need :=
        List.forall_mem_cons.mpr ⟨hpos, fun x hx => lt_of_lt_of_le hpos (hle' x hx)⟩
      have hcount : shortCount (st :: rest) = rest.length + 1 := shortCount_of_short hall
      by_cases hfits : st.need ≤ min (shareOf w startCapacity (rest.length + 1)) capacity
      · exact hgo hfits _ (fillPass_met hst hrest hdone hpos.ne' (hcount ▸ hfits))
      · refine ⟨[], st :: rest, last, capacity, statesLeft, ⟨rfl, ?_, hc, by simp, rfl, ?_⟩, ?_⟩
        · rw [List.map_cons, satisfied, List.length_map, if_neg hfits]
        · rw [not_le] at hfits
          exact List.forall_mem_cons.mpr
            ⟨hfits, fun x hx => lt_of_lt_of_le hfits (hle' x hx)⟩
        · simp

/-! ### The levels a pass leaves -/

section Levels

variable {share : ℤ}

theorem levelsLeft_eq (hs : 1 ≤ share) : ∀ (l : List OfferState) {capacity : ℤ}, 0 ≤ capacity →
    levelsLeft share capacity l = max 0 (capacity - l.length * share)
  | [], capacity, hc => by simpa [levelsLeft] using hc
  | _ :: rest, capacity, hc => by
    rw [levelsLeft, levelsLeft_eq hs rest (by omega), List.length_cons]
    have hlen : (0 : ℤ) ≤ rest.length * share := mul_nonneg (by omega) (by omega)
    push_cast
    rw [add_mul, one_mul]
    omega

/-- If the slots cover a share each, everybody gets one. -/
theorem levels_covered (hs : 1 ≤ share) : ∀ (l : List OfferState) {capacity : ℤ},
    l.length * share ≤ capacity → levels share capacity l = l.map (·.give share 0)
  | [], _, _ => rfl
  | st :: rest, capacity, hc => by
    rw [List.length_cons] at hc
    push_cast at hc
    rw [add_mul, one_mul] at hc
    have hlen : (0 : ℤ) ≤ rest.length * share := mul_nonneg (by omega) (by omega)
    rw [levels, min_eq_left (by omega), levels_covered hs rest (by omega), List.map_cons]

/-- The least that is given out: what is left for the last group. -/
def leastLevel (share capacity : ℤ) (n : ℕ) : ℤ := max 0 (min share (capacity - (n - 1) * share))

theorem leastLevel_succ (hs : 1 ≤ share) {n : ℕ} {capacity : ℤ} (hc : 0 ≤ capacity) :
    leastLevel share (capacity - min share capacity) (n + 1) =
      leastLevel share capacity (n + 2) := by
  unfold leastLevel
  have hlen : (0 : ℤ) ≤ n * share := mul_nonneg (by omega) (by omega)
  push_cast
  have h1 : ((n : ℤ) + 1 - 1) * share = n * share := by ring
  have h2 : ((n : ℤ) + 2 - 1) * share = n * share + share := by ring
  rw [h1, h2]
  omega

theorem leastLevel_le (hs : 1 ≤ share) {n : ℕ} {capacity : ℤ} (hc : 0 ≤ capacity) :
    leastLevel share capacity (n + 1) ≤ min share capacity := by
  unfold leastLevel
  have hlen : (0 : ℤ) ≤ n * share := mul_nonneg (by omega) (by omega)
  push_cast
  rw [add_sub_cancel_right]
  omega

/-- What is given out lies between what is left for the last group and what the first is given. -/
theorem mem_levels (hs : 1 ≤ share) : ∀ (l : List OfferState) {capacity : ℤ}, 0 ≤ capacity →
    ∀ st' ∈ levels share capacity l, ∃ st ∈ l, ∃ x, st' = st.give x 0 ∧
      leastLevel share capacity l.length ≤ x ∧ x ≤ min share capacity
  | [], _, _, st', h => by simp [levels] at h
  | st :: rest, capacity, hc, st', h => by
    rcases List.mem_cons.mp h with rfl | h
    · exact ⟨st, List.mem_cons_self .., _, rfl, leastLevel_le hs hc, le_refl _⟩
    · obtain ⟨st₀, hst₀, x, rfl, hle, hlt⟩ := mem_levels hs rest (by omega) st' h
      refine ⟨st₀, List.mem_cons_of_mem _ hst₀, x, rfl, ?_, by omega⟩
      cases rest with
      | nil => cases hst₀
      | cons st₁ rest => rwa [List.length_cons, leastLevel_succ hs hc] at hle

/-- The first group is given the most. -/
theorem first_mem_levels {st : OfferState} {rest : List OfferState} {capacity : ℤ} :
    st.give (min share capacity) 0 ∈ levels share capacity (st :: rest) := List.mem_cons_self ..

/-- Some group is given the least. -/
theorem least_mem_levels (hs : 1 ≤ share) : ∀ (l : List OfferState) {capacity : ℤ}, 0 ≤ capacity →
    l ≠ [] → ∃ st ∈ l, st.give (leastLevel share capacity l.length) 0 ∈ levels share capacity l
  | [], _, _, h => absurd rfl h
  | [st], capacity, hc, _ => by
    refine ⟨st, by simp, ?_⟩
    have : leastLevel share capacity [st].length = min share capacity := by
      simp only [leastLevel, List.length_singleton]
      push_cast
      rw [zero_mul]
      omega
    rw [this]
    exact first_mem_levels
  | st :: st₁ :: rest, capacity, hc, _ => by
    obtain ⟨st₀, hst₀, hmem⟩ := least_mem_levels hs (st₁ :: rest)
      (show 0 ≤ capacity - min share capacity by omega) (by simp)
    refine ⟨st₀, List.mem_cons_of_mem _ hst₀, List.mem_cons_of_mem _ ?_⟩
    rwa [List.length_cons, leastLevel_succ hs hc] at hmem

end Levels

/-! ### Out of slots -/

/-- What an offer comes to: what the group demands and what it is offered. -/
def OfferState.outcome (st : OfferState) : ℤ × ℤ := (st.slotDemand, st.offered)

/-- The slots are gone, and no group is above its demand. -/
structure Frozen (f : Filling) : Prop where
  capacity : f.capacity = 0
  preoffers : ∀ st ∈ f.states, st.preoffers = 0
  need : ∀ st ∈ f.states, 0 ≤ st.need
  offered : ∀ st ∈ f.states, st.need ≠ 0 → 0 ≤ st.offered
  oneSlot : ∀ st ∈ f.states, ∀ req ∈ st.pendingReqs, req.slotsNeeded = 1

theorem smallestAllocatableTask_mem {st : OfferState} {req : AllocateRequest}
    (h : st.smallestAllocatableTask = some req) : req ∈ st.pendingReqs := by
  have hfold : ∀ (reqs : List AllocateRequest) (best : Option AllocateRequest),
      reqs.foldl smallerTask best = some req → best = some req ∨ req ∈ reqs := by
    intro reqs
    induction reqs with
    | nil => exact fun best h => .inl h
    | cons x reqs ih =>
      intro best h
      rcases ih _ h with hx | hx
      · unfold smallerTask at hx
        split at hx
        · cases hx; exact .inr (List.mem_cons_self ..)
        · split at hx
          · cases hx; exact .inr (List.mem_cons_self ..)
          · exact .inl hx
      · exact .inr (List.mem_cons_of_mem _ hx)
  rcases hfold st.pendingReqs none h with hx | hx
  · cases hx
  · exact hx

/-- Without slots a pass changes nothing. -/
theorem Pass.frozen {startCapacity capacity capacity' : ℤ} {l l' : List OfferState}
    (h : Pass startCapacity l capacity l' capacity') (hc : capacity = 0)
    (hpre : ∀ st ∈ l, st.preoffers = 0) (hneed : ∀ st ∈ l, 0 ≤ st.need) :
    l' = l ∧ capacity' = 0 := by
  induction h with
  | nil => exact ⟨rfl, hc⟩
  | skip _ _ ih =>
    obtain ⟨rfl, hc'⟩ := ih hc (fun x hx => hpre x (List.mem_cons_of_mem _ hx))
      (fun x hx => hneed x (List.mem_cons_of_mem _ hx))
    exact ⟨rfl, hc'⟩
  | @offer st rest rest' c c' totalWeight ha _ ih =>
    have hshare := calculatedFairShare_pos startCapacity st.group.weight totalWeight
    have hn := hneed st (List.mem_cons_self ..)
    have hp := hpre st (List.mem_cons_self ..)
    have hoff : offerShare startCapacity totalWeight c st = (st, 0) := by
      have hmin : min (min (calculatedFairShare startCapacity st.group.weight totalWeight) c)
          (st.slotDemand - st.offered) = 0 := by
        simp only [OfferState.need] at hn
        omega
      simp only [offerShare, hmin, hp, accountForPreoffers_of_nonpos (le_refl 0), give_zero hp]
    rw [hoff] at ih ⊢
    obtain ⟨rfl, hc'⟩ := ih (by simpa using hc) (fun x hx => hpre x (List.mem_cons_of_mem _ hx))
      (fun x hx => hneed x (List.mem_cons_of_mem _ hx))
    exact ⟨rfl, hc'⟩

/-- A pass changes nothing if no group takes part. -/
theorem Pass.inactive {startCapacity capacity capacity' : ℤ} {l l' : List OfferState}
    (h : Pass startCapacity l capacity l' capacity') (hna : ∀ st ∈ l, st.active = false) :
    l' = l := by
  induction h with
  | nil => rfl
  | skip _ _ ih => rw [ih fun x hx => hna x (List.mem_cons_of_mem _ hx)]
  | offer _ ha _ _ =>
    rw [hna _ (List.mem_cons_self ..)] at ha
    cases ha

/-- A pass presubscribes nothing. -/
theorem Pass.unsubscribed {startCapacity capacity capacity' : ℤ} {l l' : List OfferState}
    (h : Pass startCapacity l capacity l' capacity')
    (hpre : ∀ st ∈ l, st.presubscribedSlots = 0) : ∀ st ∈ l', st.presubscribedSlots = 0 := by
  induction h with
  | nil => exact hpre
  | skip _ _ ih =>
    obtain ⟨hst, hrest⟩ := List.forall_mem_cons.mp hpre
    exact List.forall_mem_cons.mpr ⟨hst, ih hrest⟩
  | offer _ _ _ ih =>
    obtain ⟨hst, hrest⟩ := List.forall_mem_cons.mp hpre
    exact List.forall_mem_cons.mpr ⟨hst, ih hrest⟩

variable {f t : Filling} {byTime : List ℕ} {offers : List OfferState}

theorem Frozen.pass (h : Frozen f) : Frozen f.pass ∧ f.pass.states = f.states := by
  obtain ⟨hstates, hc⟩ := f.pass_spec.1.frozen h.capacity h.preoffers h.need
  refine ⟨⟨hc, ?_, ?_, ?_, ?_⟩, hstates⟩ <;> rw [hstates]
  exacts [h.preoffers, h.need, h.offered, h.oneSlot]

/-- A group that cannot run a one-slot task was offered nothing: disabling it changes nothing. -/
theorem Frozen.disable (h : Frozen f) {i : ℕ} (hi : f.deadlockedGroup byTime = some i) :
    Frozen (f.disable i) ∧
      (f.disable i).states.map OfferState.outcome = f.states.map OfferState.outcome := by
  obtain ⟨before, st, after, hstates, hst, hdead, hstates', hcap'⟩ := deadlockedGroup_spec hi
  have hmem : st ∈ f.states := List.mem_of_getElem? hst
  have hzero : st.offered = 0 := by
    have ha := OfferState.active_of_deadlocked hdead
    have hne : st.need ≠ 0 := by
      have := (OfferState.active_iff.mp ha).2
      simp only [OfferState.need]
      omega
    have hnn := h.offered st hmem hne
    rw [OfferState.deadlocked, ha, Bool.true_and] at hdead
    split at hdead
    · rename_i req hreq
      have hone := h.oneSlot st hmem req (smallestAllocatableTask_mem hreq)
      have := of_decide_eq_true hdead
      omega
    · cases hdead
  have hout : st.disable.outcome = st.outcome := by
    simp [OfferState.outcome, OfferState.disable, hzero]
  have hneed : st.disable.need = st.need := by
    simp [OfferState.need, OfferState.disable, hzero]
  have keeps : ∀ {P : OfferState → Prop}, (P st → P st.disable) → (∀ x ∈ f.states, P x) →
      ∀ x ∈ (f.disable i).states, P x := by
    intro P hP hall x hx
    rw [hstates] at hall
    rw [hstates'] at hx
    rcases List.mem_append.mp hx with hx | hx
    · exact hall x (List.mem_append_left _ hx)
    · rcases List.mem_cons.mp hx with rfl | hx
      · exact hP (hall st (by simp))
      · exact hall x (List.mem_append_right _ (List.mem_cons_of_mem _ hx))
  refine ⟨⟨?_, ?_, ?_, ?_, ?_⟩, ?_⟩
  · rw [hcap', h.capacity, hzero]
    rfl
  · exact keeps (fun hp => hp) h.preoffers
  · exact keeps (fun hp => hneed ▸ hp) h.need
  · exact keeps (fun _ _ => le_refl _) h.offered
  · exact keeps (fun hp => hp) h.oneSlot
  · rw [hstates', hstates, List.map_append, List.map_append, List.map_cons, List.map_cons, hout]

theorem frozen_of_plain (hc : f.capacity = 0) (hplain : ∀ st ∈ f.states, st.Plain w)
    (hoff : ∀ st ∈ f.states, st.need = 0 ∨ 0 < st.need ∧ 0 ≤ st.offered) : Frozen f where
  capacity := hc
  preoffers st hst := (hplain st hst).preoffers
  need st hst := by
    have := hoff st hst
    omega
  offered st hst hne := by
    have := hoff st hst
    omega
  oneSlot st hst := (hplain st hst).oneSlot

/-- Once the slots are gone, the offers are what the loop returns. -/
theorem Frozen.returns (h : Frozen f) (hr : Returns (fillBody byTime) f offers) :
    offers.map OfferState.outcome = f.states.map OfferState.outcome := by
  refine hr.invariant
    (I := fun g => Frozen g ∧ g.states.map OfferState.outcome = f.states.map OfferState.outcome)
    (P := fun r => r.map OfferState.outcome = f.states.map OfferState.outcome) ?_ ?_ ⟨h, rfl⟩
  · rintro g t ⟨hg, hout⟩ hb
    obtain ⟨hpass, hsame⟩ := hg.pass
    rcases fillBody_inl hb with ⟨-, i, hi, rfl⟩ | ⟨hcap, -, -⟩
    · obtain ⟨hdis, hout'⟩ := hpass.disable hi
      exact ⟨hdis, by rw [hout', hsame, hout]⟩
    · exact absurd hpass.capacity hcap
  · rintro g r ⟨hg, hout⟩ hb
    rcases fillBody_inr hb with ⟨rfl, -⟩ | rfl
    · exact hout
    · rw [hg.pass.2, hout]

/-! ### From pass to pass -/

/-- The fewer groups are short, the larger the share of each. -/
theorem shareOf_anti (w : ℚ) {startCapacity : ℤ} (hS : 0 ≤ startCapacity) {m n : ℕ} (hm : 1 ≤ m)
    (hmn : m ≤ n) : shareOf w startCapacity n ≤ shareOf w startCapacity m := by
  unfold shareOf calculatedFairShare
  refine max_le_max (le_refl _) (Int.floor_mono ?_)
  rcases eq_or_ne w 0 with rfl | hw
  · simp
  · rw [mul_div_mul_right _ _ hw, mul_div_mul_right _ _ hw]
    have hm' : (0 : ℚ) < m := by exact_mod_cast hm
    have hmn' : (m : ℚ) ≤ n := by exact_mod_cast hmn
    exact div_le_div_of_nonneg_left (by exact_mod_cast hS) hm' hmn'

/-- No need is satisfied beyond the share of the groups that are left. -/
theorem satisfied_last_le (w : ℚ) {startCapacity : ℤ} (hS : 0 ≤ startCapacity) :
    ∀ (needs : List ℤ) {last capacity last' capacity' : ℤ} {rest : List ℤ},
      satisfied w startCapacity last capacity needs = (last', capacity', rest) → rest ≠ [] →
        last' ≤ max last (shareOf w startCapacity rest.length) ∧ rest.length ≤ needs.length
  | [], _, _, _, _, _, h, hne => by cases h; exact absurd rfl hne
  | need :: needs, last, capacity, last', capacity', rest, h, hne => by
    rw [satisfied] at h
    split at h
    · rename_i hfits
      obtain ⟨hle, hlen⟩ := satisfied_last_le w hS needs h hne
      have hpos : 1 ≤ rest.length := List.length_pos_iff.mpr hne
      have hanti : shareOf w startCapacity (needs.length + 1) ≤ shareOf w startCapacity rest.length :=
        shareOf_anti w hS hpos (Nat.le_succ_of_le hlen)
      have hn : need ≤ shareOf w startCapacity (needs.length + 1) := hfits.trans (min_le_left _ _)
      exact ⟨by omega, by simpa using Nat.le_succ_of_le hlen⟩
    · cases h
      exact ⟨le_max_left _ _, le_refl _⟩

/-- Groups on a level: those short of their demand are all offered `a`, the others no more. -/
structure Leveled (w : ℚ) (a : ℤ) (l : List OfferState) : Prop where
  plain : ∀ st ∈ l, st.Plain w
  sorted : (l.map (·.need)).Pairwise (· ≤ ·)
  short : ∀ st ∈ l, st.need ≠ 0 → st.offered = a
  met : ∀ st ∈ l, st.need = 0 → st.offered ≤ a

variable {a last' capacity' startCapacity total : ℤ} {met rest : List OfferState}

/-- The satisfied groups reach at most the last satisfied need above the level, and one reaches
    it. -/
theorem Leveled.met_demand (h : Leveled w a l)
    (hsp : Splits w startCapacity 0 startCapacity l met rest last' capacity') :
    (∀ st ∈ met, st.slotDemand ≤ a + max 0 last') ∧
      (0 < last' → ∃ st ∈ met, st.slotDemand = a + last') := by
  have hmem : ∀ st ∈ met, st ∈ l := fun st hst => hsp.split ▸ List.mem_append_left _ hst
  have hsorted : (met.map (·.need)).Pairwise (· ≤ ·) := by
    have := h.sorted
    rw [hsp.split, List.map_append] at this
    exact (List.pairwise_append.mp this).1
  rcases List.eq_nil_or_concat met with rfl | ⟨init, final, rfl⟩
  · refine ⟨by simp, fun hlast => ?_⟩
    rw [hsp.last] at hlast
    simp at hlast
  · have hlast : last' = final.need := by rw [hsp.last]; simp
    have hneed : ∀ st ∈ init.concat final, st.need ≤ last' := by
      intro st hst
      rw [List.concat_eq_append] at hst hsorted
      rw [hlast]
      rcases List.mem_append.mp hst with hst | hst
      · rw [List.map_append] at hsorted
        exact (List.pairwise_append.mp hsorted).2.2 _ (List.mem_map_of_mem hst) _ (by simp)
      · rw [List.mem_singleton.mp hst]
    constructor
    · intro st hst
      have hle := hneed st hst
      rcases eq_or_ne st.need 0 with h0 | h0
      · have := h.met st (hmem st hst) h0
        simp only [OfferState.need] at h0
        omega
      · have := h.short st (hmem st hst) h0
        simp only [OfferState.need] at hle
        omega
    · intro hpos
      have hfin : final ∈ init.concat final := by simp
      refine ⟨final, hfin, ?_⟩
      have := h.short final (hmem _ hfin) (by omega)
      simp only [OfferState.need] at hlast
      omega

/-- A filling of plain groups on a level. -/
structure Filling.Even (w : ℚ) (a total : ℤ) (f : Filling) : Prop where
  ok : f.Ok total
  leveled : Leveled w a f.states
  weight : f.totalWeight = shortCount f.states * w

/-- What a pass comes to. -/
theorem Filling.Even.pass_eq (h : f.Even w a total) : ∃ met rest last' capacity' statesLeft',
    Splits w f.capacity 0 f.capacity f.states met rest last' capacity' ∧
      f.pass = ⟨met.map OfferState.fill ++
          levels (shareOf w f.capacity rest.length) capacity' rest,
        levelsLeft (shareOf w f.capacity rest.length) capacity' rest, rest.length * w,
        statesLeft'⟩ := by
  obtain ⟨met, rest, last', capacity', statesLeft', hsp, hpass⟩ :=
    fillPass_satisfied f.capacity f.states [] 0 f.capacity f.statesLeft h.leveled.plain (by simp) h.ok.left
      h.leveled.sorted
  have hshare := shareOf_pos w f.capacity rest.length
  have hleft := hsp.left
  have hcount : shortCount rest = rest.length := by
    refine shortCount_of_short fun st hst => ?_
    have := hsp.short st hst
    omega
  have hplain : ∀ st ∈ rest, st.Plain w :=
    fun st hst => h.leveled.plain st (hsp.split ▸ List.mem_append_right _ hst)
  refine ⟨met, rest, last', capacity', statesLeft', hsp, ?_⟩
  rw [Filling.pass, h.weight, hpass, hcount, List.nil_append,
    fillPass_levels rest _ _ hplain hsp.left hsp.short]

section AfterPass

variable (hL : Leveled w a l) (hsp : Splits w startCapacity 0 startCapacity l met rest last' capacity')

include hL hsp in
/-- The groups from the first that is not satisfied are all short, and on the level. -/
theorem rest_spec : ∀ st ∈ rest, st.Plain w ∧ 0 < st.need ∧ st.offered = a := by
  intro st hst
  have hmem : st ∈ l := hsp.split ▸ List.mem_append_right _ hst
  have hshare := shareOf_pos w startCapacity rest.length
  have hleft := hsp.left
  have hneed := hsp.short st hst
  exact ⟨hL.plain st hmem, by omega, hL.short st hmem (by omega)⟩

/-- The states a pass leaves if the slots cover all shares. -/
def covered (w : ℚ) (startCapacity : ℤ) (met rest : List OfferState) : List OfferState :=
  met.map OfferState.fill ++ rest.map (·.give (shareOf w startCapacity rest.length) 0)

theorem covered_needs (w : ℚ) (startCapacity : ℤ) (met rest : List OfferState) :
    (covered w startCapacity met rest).map (·.need) = List.replicate met.length 0 ++
      (rest.map (·.need)).map (· - shareOf w startCapacity rest.length) := by
  rw [covered, List.map_append, List.map_map, List.map_map, List.map_map]
  congr 1
  · refine List.eq_replicate_iff.mpr ⟨by simp, fun x hx => ?_⟩
    obtain ⟨st, -, rfl⟩ := List.mem_map.mp hx
    simp [OfferState.need, OfferState.fill]
  · refine List.map_congr_left fun st _ => ?_
    simp only [Function.comp_apply, OfferState.need, OfferState.give]
    ring

include hsp in
/-- A covered share does not meet the need of a group that was not satisfied. -/
theorem need_give_pos (hcov : rest.length * shareOf w startCapacity rest.length ≤ capacity') :
    ∀ st ∈ rest, 0 < (st.give (shareOf w startCapacity rest.length) 0).need := by
  intro st hst
  have hshare := shareOf_pos w startCapacity rest.length
  have hpos : 1 ≤ rest.length := List.length_pos_of_mem hst
  have hle : shareOf w startCapacity rest.length ≤ capacity' := by
    refine le_trans ?_ hcov
    exact le_mul_of_one_le_left (by omega) (by exact_mod_cast hpos)
  have := hsp.short st hst
  simp only [OfferState.need, OfferState.give] at this ⊢
  omega

include hL hsp in
/-- They are on a higher level. -/
theorem leveled_covered (hS : 0 ≤ startCapacity) (hne : rest ≠ [])
    (hcov : rest.length * shareOf w startCapacity rest.length ≤ capacity') :
    Leveled w (a + shareOf w startCapacity rest.length) (covered w startCapacity met rest) := by
  have hrest := rest_spec hL hsp
  obtain ⟨hmet, -⟩ := hL.met_demand hsp
  have hshare := shareOf_pos w startCapacity rest.length
  have hlast : last' ≤ max 0 (shareOf w startCapacity rest.length) := by
    have := (satisfied_last_le w hS _ hsp.satisfied (by simpa using hne)).1
    rwa [List.length_map] at this
  have hgive := need_give_pos hsp hcov
  refine ⟨?_, ?_, ?_, ?_⟩
  · intro st hst
    rcases List.mem_append.mp hst with hst | hst
    · obtain ⟨x, hx, rfl⟩ := List.mem_map.mp hst
      exact plain_fill (hL.plain x (hsp.split ▸ List.mem_append_left _ hx))
    · obtain ⟨x, hx, rfl⟩ := List.mem_map.mp hst
      exact plain_give (hrest x hx).1 _
  · have hsorted := hL.sorted
    rw [hsp.split, List.map_append] at hsorted
    rw [covered_needs]
    refine List.pairwise_append.mpr ⟨List.pairwise_replicate.mpr (.inr (le_refl _)), ?_, ?_⟩
    · exact (List.pairwise_append.mp hsorted).2.1.map _ fun x y hxy => by omega
    · intro x hx y hy
      rw [List.eq_of_mem_replicate hx]
      obtain ⟨need, hneed, rfl⟩ := List.mem_map.mp hy
      obtain ⟨st, hst, rfl⟩ := List.mem_map.mp hneed
      have := hgive st hst
      simp only [OfferState.need, OfferState.give] at this ⊢
      omega
  · intro st hst hneed
    rcases List.mem_append.mp hst with hst | hst
    · obtain ⟨x, -, rfl⟩ := List.mem_map.mp hst
      simp [OfferState.need, OfferState.fill] at hneed
    · obtain ⟨x, hx, rfl⟩ := List.mem_map.mp hst
      rw [OfferState.give, (hrest x hx).2.2]
  · intro st hst hneed
    rcases List.mem_append.mp hst with hst | hst
    · obtain ⟨x, hx, rfl⟩ := List.mem_map.mp hst
      have := hmet x hx
      simp only [OfferState.fill]
      omega
    · obtain ⟨x, hx, rfl⟩ := List.mem_map.mp hst
      exact absurd hneed (hgive x hx).ne'

include hL hsp in
/-- What the groups of the second part are offered: short of their demand, between the least and the
    most of a level. -/
theorem levels_spec : ∀ st ∈ levels (shareOf w startCapacity rest.length) capacity' rest,
    ∃ x, st.offered = a + x ∧ a + x < st.slotDemand ∧
      leastLevel (shareOf w startCapacity rest.length) capacity' rest.length ≤ x ∧
      x ≤ min (shareOf w startCapacity rest.length) capacity' := by
  intro st hst
  obtain ⟨st₀, hst₀, x, rfl, hle, hlt⟩ := mem_levels (shareOf_pos _ _ _) rest hsp.left st hst
  obtain ⟨-, -, hoff⟩ := rest_spec hL hsp st₀ hst₀
  have hneed := hsp.short st₀ hst₀
  refine ⟨x, by rw [OfferState.give, hoff], ?_, hle, hlt⟩
  simp only [OfferState.need, OfferState.give] at hneed ⊢
  omega

include hL hsp in
/-- A pass that runs out of slots divides them fairly iff it is even. -/
theorem maxMinFair_iff_of_shortage (hne : rest ≠ [])
    (hshort : capacity' < rest.length * shareOf w startCapacity rest.length)
    (hsum : offeredSum (met.map OfferState.fill ++
      levels (shareOf w startCapacity rest.length) capacity' rest) = total) :
    MaxMinFair (met.map OfferState.fill ++
        levels (shareOf w startCapacity rest.length) capacity' rest)
      (·.slotDemand) (·.offered) total ↔
      max last' (min (shareOf w startCapacity rest.length) capacity') ≤
        1 + max 0 (capacity' - (rest.length - 1) * shareOf w startCapacity rest.length) := by
  have hshare := shareOf_pos w startCapacity rest.length
  have hspec := levels_spec hL hsp
  have hleft := hsp.left
  obtain ⟨hmet, hex⟩ := hL.met_demand hsp
  have hleast : leastLevel (shareOf w startCapacity rest.length) capacity' rest.length =
      max 0 (capacity' - (rest.length - 1) * shareOf w startCapacity rest.length) := by
    unfold leastLevel
    have hmul : (rest.length : ℤ) * shareOf w startCapacity rest.length =
        (rest.length - 1) * shareOf w startCapacity rest.length +
          shareOf w startCapacity rest.length := by ring
    omega
  rw [← hleast, maxMinFair_iff_of_least
    (a + leastLevel (shareOf w startCapacity rest.length) capacity' rest.length) hsum]
  · constructor
    · intro hall
      have hfirst : a + min (shareOf w startCapacity rest.length) capacity' ≤
          a + leastLevel (shareOf w startCapacity rest.length) capacity' rest.length + 1 := by
        cases rest with
        | nil => exact absurd rfl hne
        | cons st rest =>
          have hoff := (rest_spec hL hsp st (List.mem_cons_self ..)).2.2
          have := hall _ (List.mem_append_right _ first_mem_levels)
          rwa [OfferState.give, hoff] at this
      have hlast : 0 < last' → a + last' ≤
          a + leastLevel (shareOf w startCapacity rest.length) capacity' rest.length + 1 := by
        intro hpos
        obtain ⟨st, hst, hdem⟩ := hex hpos
        have := hall _ (List.mem_append_left _ (List.mem_map_of_mem hst))
        rwa [OfferState.fill, hdem] at this
      omega
    · intro hle st hst
      rcases List.mem_append.mp hst with hst | hst
      · obtain ⟨x, hx, rfl⟩ := List.mem_map.mp hst
        have := hmet x hx
        simp only [OfferState.fill]
        omega
      · obtain ⟨x, hoff, -, -, hx⟩ := hspec st hst
        omega
  · intro st hst
    rcases List.mem_append.mp hst with hst | hst
    · obtain ⟨x, -, rfl⟩ := List.mem_map.mp hst
      exact le_refl _
    · obtain ⟨x, hoff, hlt, -, -⟩ := hspec st hst
      omega
  · intro st hst hlt
    rcases List.mem_append.mp hst with hst | hst
    · obtain ⟨x, -, rfl⟩ := List.mem_map.mp hst
      exact absurd hlt (lt_irrefl _)
    · obtain ⟨x, hoff, -, hx, -⟩ := hspec st hst
      omega
  · obtain ⟨st₀, hst₀, hmem⟩ := least_mem_levels hshare rest hleft hne
    obtain ⟨x, hoff, hlt, -, -⟩ := hspec _ hmem
    have hoff₀ := (rest_spec hL hsp st₀ hst₀).2.2
    refine ⟨_, List.mem_append_right _ hmem, by omega, ?_⟩
    rw [OfferState.give, hoff₀]

end AfterPass

/-- The states a pass leaves if the slots cover all shares. -/
theorem pass_states_covered
    (hcov : rest.length * shareOf w startCapacity rest.length ≤ capacity') :
    met.map OfferState.fill ++ levels (shareOf w startCapacity rest.length) capacity' rest =
      covered w startCapacity met rest := by
  rw [levels_covered (shareOf_pos _ _ _) _ hcov, covered]

theorem shortCount_covered
    (hgive : ∀ st ∈ rest, 0 < (st.give (shareOf w startCapacity rest.length) 0).need) :
    shortCount (covered w startCapacity met rest) = rest.length := by
  have hmet : shortCount (met.map OfferState.fill) = 0 := by
    refine shortCount_of_met fun st hst => ?_
    obtain ⟨x, -, rfl⟩ := List.mem_map.mp hst
    simp [OfferState.need, OfferState.fill]
  have hrest : shortCount (rest.map (·.give (shareOf w startCapacity rest.length) 0)) =
      rest.length := by
    rw [shortCount_of_short, List.length_map]
    simpa using hgive
  rw [covered, shortCount, List.countP_append, ← shortCount, ← shortCount, hmet, hrest, zero_add]

/-! ### The whole loop -/

/-- Fairness only depends on what is demanded and offered. -/
theorem maxMinFair_of_outcome {l' : List OfferState}
    (h : l.map OfferState.outcome = l'.map OfferState.outcome) :
    MaxMinFair l (·.slotDemand) (·.offered) total ↔
      MaxMinFair l' (·.slotDemand) (·.offered) total := by
  have hmap : ∀ l : List OfferState,
      MaxMinFair (l.map OfferState.outcome) Prod.fst Prod.snd total ↔
        MaxMinFair l (·.slotDemand) (·.offered) total := fun l => maxMinFair_map _
  rw [← hmap, h, hmap]

/-- Groups on a level that share all the slots share them fairly. -/
theorem Leveled.fair (h : Leveled w a l) (hneed : ∀ st ∈ l, 0 ≤ st.need)
    (hex : ∃ st ∈ l, st.need ≠ 0) (hsum : offeredSum l = total) :
    MaxMinFair l (·.slotDemand) (·.offered) total := by
  have hne : ∀ st : OfferState, st.offered < st.slotDemand → st.need ≠ 0 := by
    intro st hlt
    rw [OfferState.need]
    omega
  refine (maxMinFair_iff_of_least a hsum ?_ ?_ ?_).mpr ?_
  · intro st hst
    have := hneed st hst
    rw [OfferState.need] at this
    omega
  · exact fun st hst hlt => (h.short st hst (hne st hlt)).ge
  · obtain ⟨st, hst, h0⟩ := hex
    have := hneed st hst
    rw [OfferState.need] at this h0
    exact ⟨st, hst, by omega, h.short st hst h0⟩
  · intro st hst
    rcases eq_or_ne st.need 0 with h0 | h0
    · have := h.met st hst h0
      omega
    · have := h.short st hst h0
      omega

/-- Groups that are all satisfied stay what they are, and the loop returns them. -/
theorem returns_of_met (hplain : ∀ st ∈ f.states, st.Plain w) (hmet : ∀ st ∈ f.states, st.need = 0)
    (hr : Returns (fillBody byTime) f offers) : offers = f.states := by
  have hna : ∀ st ∈ f.states, st.active = false := by
    intro st hst
    rw [Bool.eq_false_iff, Ne, active_iff_need (hplain st hst)]
    exact not_not.mpr (hmet st hst)
  have hpass : f.pass.states = f.states := f.pass_spec.1.inactive hna
  rcases hr with hb | ⟨hb, -⟩
  · rcases fillBody_inr hb with ⟨rfl, -⟩ | rfl
    · rfl
    · exact hpass
  · rcases fillBody_inl hb with ⟨-, i, hi, -⟩ | ⟨-, hprog, -⟩
    · obtain ⟨before, st, after, hstates, -, hdead, -⟩ := deadlockedGroup_spec hi
      have hmem : st ∈ f.states := by simp [← hpass, hstates]
      have := OfferState.active_of_deadlocked hdead
      rw [hna st hmem] at this
      cases this
    · obtain ⟨st, hst, ha⟩ := List.any_eq_true.mp hprog
      rw [hna st hst] at ha
      cases ha

/-- If a pass uses up the slots, the loop returns its offers. -/
theorem returns_of_frozen_pass (hok : f.Ok total) (hact : 0 < activeCount f.states)
    (hfrozen : Frozen f.pass) (hr : Returns (fillBody byTime) f offers) :
    offers.map OfferState.outcome = f.pass.states.map OfferState.outcome := by
  have hcounts := hok.counts
  rcases hr with hb | ⟨hb, hr⟩
  · rcases fillBody_inr hb with ⟨-, hleft⟩ | rfl
    · omega
    · rfl
  · rcases fillBody_inl hb with ⟨-, i, hi, rfl⟩ | ⟨hcap, -⟩
    · obtain ⟨hdis, hout⟩ := hfrozen.disable hi
      rw [hdis.returns hr, hout]
    · exact absurd hfrozen.capacity hcap

/-- A pass that satisfies all groups. -/
theorem Filling.Even.fair_of_satisfied (h : f.Even w a total)
    (hsp : Splits w f.capacity 0 f.capacity f.states met [] last' capacity')
    (hpass : f.pass.states = met.map OfferState.fill)
    (hr : Returns (fillBody byTime) f offers) :
    MaxMinFair offers (·.slotDemand) (·.offered) total := by
  have hfilled : ∀ st ∈ met.map OfferState.fill, st.need = 0 := by
    intro st hst
    obtain ⟨x, -, rfl⟩ := List.mem_map.mp hst
    simp [OfferState.need, OfferState.fill]
  have hplain : ∀ st ∈ f.pass.states, st.Plain w := by
    intro st hst
    rw [hpass] at hst
    obtain ⟨x, hx, rfl⟩ := List.mem_map.mp hst
    exact plain_fill (h.leveled.plain x (by simp [hsp.split, hx]))
  have hdone : ∀ g : Filling, g.Ok total → (∀ st ∈ g.states, st.need = 0) →
      MaxMinFair g.states (·.slotDemand) (·.offered) total := by
    intro g hok hneed
    have hsum := hok.conserves
    have hleft := hok.left
    rw [offeredSum] at hsum
    exact maxMinFair_of_satisfied (by omega) fun st hst => (sub_eq_zero.mp (hneed st hst)).symm
  have hpassed := hdone f.pass h.ok.pass (hpass ▸ hfilled)
  rcases hr with hb | ⟨hb, hr⟩
  · rcases fillBody_inr hb with ⟨rfl, hleft⟩ | rfl
    · refine hdone f h.ok fun st hst => ?_
      have hcounts := h.ok.counts
      by_contra hne
      have : 0 < activeCount f.states := progressMade_iff.mp
        (List.any_eq_true.mpr ⟨st, hst, (active_iff_need (h.leveled.plain st hst)).mpr hne⟩)
      omega
    · exact hpassed
  · rcases fillBody_inl hb with ⟨-, i, hi, -⟩ | ⟨-, -, rfl⟩
    · obtain ⟨before, st, after, hstates, -, hdead, -⟩ := deadlockedGroup_spec hi
      have hmem : st ∈ f.pass.states := by simp [hstates]
      have := (active_iff_need (hplain st hmem)).mp (OfferState.active_of_deadlocked hdead)
      exact absurd (hfilled st (hpass ▸ hmem)) this
    · rw [returns_of_met hplain (hpass ▸ hfilled) hr]
      exact hpassed

/-- A pass that leaves the slots short of the shares. -/
theorem Filling.Even.fair_of_shortage (h : f.Even w a total) (ha : 0 ≤ a)
    (hsp : Splits w f.capacity 0 f.capacity f.states met rest last' capacity')
    (hpass : f.pass.states = met.map OfferState.fill ++
      levels (shareOf w f.capacity rest.length) capacity' rest)
    (hcap : f.pass.capacity = levelsLeft (shareOf w f.capacity rest.length) capacity' rest)
    (hne : rest ≠ []) (hshort : capacity' < rest.length * shareOf w f.capacity rest.length)
    (hr : Returns (fillBody byTime) f offers) :
    MaxMinFair offers (·.slotDemand) (·.offered) total ↔
      max last' (min (shareOf w f.capacity rest.length) capacity') ≤
        1 + max 0 (capacity' - (rest.length - 1) * shareOf w f.capacity rest.length) := by
  have hleft := hsp.left
  have hzero : f.pass.capacity = 0 := by
    rw [hcap, levelsLeft_eq (shareOf_pos _ _ _) _ hleft]
    omega
  have hplain : ∀ st ∈ f.pass.states, st.Plain w := by
    intro st hst
    rw [hpass] at hst
    rcases List.mem_append.mp hst with hst | hst
    · obtain ⟨x, hx, rfl⟩ := List.mem_map.mp hst
      exact plain_fill (h.leveled.plain x (by simp [hsp.split, hx]))
    · obtain ⟨x, hx, _, rfl, -⟩ := mem_levels (shareOf_pos _ _ _) rest hleft st hst
      exact plain_give (h.leveled.plain x (by simp [hsp.split, hx])) _
  have hoff : ∀ st ∈ f.pass.states, st.need = 0 ∨ 0 < st.need ∧ 0 ≤ st.offered := by
    intro st hst
    rw [hpass] at hst
    rcases List.mem_append.mp hst with hst | hst
    · obtain ⟨x, hx, rfl⟩ := List.mem_map.mp hst
      exact .inl (by simp [OfferState.need, OfferState.fill])
    · obtain ⟨x, hx, hlt, hle, -⟩ := levels_spec h.leveled hsp st hst
      have : 0 ≤ leastLevel (shareOf w f.capacity rest.length) capacity' rest.length :=
        le_max_left _ _
      rw [OfferState.need]
      omega
  have hfrozen := frozen_of_plain hzero hplain hoff
  have hact : 0 < activeCount f.states := by
    obtain ⟨st, hst⟩ := List.exists_mem_of_ne_nil rest hne
    obtain ⟨hp, hneed, -⟩ := rest_spec h.leveled hsp st hst
    exact progressMade_iff.mp (List.any_eq_true.mpr
      ⟨st, by simp [hsp.split, hst], (active_iff_need hp).mpr hneed.ne'⟩)
  rw [maxMinFair_of_outcome (returns_of_frozen_pass h.ok hact hfrozen hr), hpass]
  refine maxMinFair_iff_of_shortage h.leveled hsp hne hshort ?_
  have := h.ok.pass.conserves
  rw [hzero, hpass] at this
  omega

/-- A pass whose slots cover all shares leaves an even filling on a higher level. -/
theorem Filling.Even.pass_covered (h : f.Even w a total) {statesLeft : ℤ}
    (hsp : Splits w f.capacity 0 f.capacity f.states met rest last' capacity')
    (hpass : f.pass = ⟨met.map OfferState.fill ++
        levels (shareOf w f.capacity rest.length) capacity' rest,
      levelsLeft (shareOf w f.capacity rest.length) capacity' rest, rest.length * w, statesLeft⟩)
    (hne : rest ≠ []) (hcov : rest.length * shareOf w f.capacity rest.length ≤ capacity') :
    f.pass.Even w (a + shareOf w f.capacity rest.length) total ∧
      f.pass.states = covered w f.capacity met rest ∧
      f.pass.capacity = capacity' - rest.length * shareOf w f.capacity rest.length := by
  have hstates : f.pass.states = covered w f.capacity met rest := by
    rw [hpass]
    exact pass_states_covered hcov
  refine ⟨⟨h.ok.pass, ?_, ?_⟩, hstates, ?_⟩
  · rw [hstates]
    exact leveled_covered h.leveled hsp h.ok.left hne hcov
  · rw [hstates, shortCount_covered (need_give_pos hsp hcov), hpass]
  · rw [hpass]
    dsimp only
    rw [levelsLeft_eq (shareOf_pos _ _ _) _ hsp.left]
    omega

/-- What is left to a pass after one whose slots covered all shares. -/
theorem fillsEvenly_covered {capacity : ℤ} {needs : List ℤ} (met : List OfferState)
    (hsat : satisfied w capacity 0 capacity needs = (last', capacity', rest.map (·.need)))
    (hcov : rest.length * shareOf w capacity rest.length ≤ capacity') :
    FillsEvenly w (capacity, needs) ↔
      FillsEvenly w (capacity' - rest.length * shareOf w capacity rest.length,
        (covered w capacity met rest).map (·.need)) := by
  have heven : evenPass w (capacity, needs) = true := by
    simp only [evenPass, hsat, List.length_map, hcov, decide_true, Bool.true_or]
  have hnext : nextPass w (capacity, needs) =
      (capacity' - rest.length * shareOf w capacity rest.length,
        (rest.map (·.need)).map (· - shareOf w capacity rest.length)) := by
    simp only [nextPass, hsat, List.length_map, if_pos hcov]
  rw [fillsEvenly_iff, hnext, covered_needs, fillsEvenly_zeros w (by omega)]
  exact and_iff_right heven

/-- A pass whose slots cover all shares and are gone then. -/
theorem Filling.Even.fair_of_exhausted (h : f.Even w a total) (ha : 0 ≤ a)
    (heven : f.pass.Even w (a + shareOf w f.capacity rest.length) total)
    (hstates : f.pass.states = covered w f.capacity met rest) (hzero : f.pass.capacity = 0)
    (hgive : ∀ st ∈ rest, 0 < (st.give (shareOf w f.capacity rest.length) 0).need)
    (hne : rest ≠ []) (hact : 0 < activeCount f.states) (hr : Returns (fillBody byTime) f offers) :
    MaxMinFair offers (·.slotDemand) (·.offered) total ∧
      FillsEvenly w (f.pass.capacity, f.pass.states.map (·.need)) := by
  have hshare := shareOf_pos w f.capacity rest.length
  have hneed : ∀ st ∈ f.pass.states, 0 ≤ st.need := by
    intro st hst
    rw [hstates] at hst
    rcases List.mem_append.mp hst with hst | hst
    · obtain ⟨x, -, rfl⟩ := List.mem_map.mp hst
      simp [OfferState.need, OfferState.fill]
    · obtain ⟨x, hx, rfl⟩ := List.mem_map.mp hst
      exact (hgive x hx).le
  have hfrozen : Frozen f.pass := by
    refine frozen_of_plain hzero heven.leveled.plain fun st hst => ?_
    rcases eq_or_ne st.need 0 with h0 | h0
    · exact .inl h0
    · have := heven.leveled.short st hst h0
      have := hneed st hst
      exact .inr (by omega)
  have hsum : offeredSum f.pass.states = total := by
    have := heven.ok.conserves
    omega
  constructor
  · rw [maxMinFair_of_outcome (returns_of_frozen_pass h.ok hact hfrozen hr)]
    obtain ⟨st, hst⟩ := List.exists_mem_of_ne_nil rest hne
    refine heven.leveled.fair hneed ⟨_, ?_, (hgive st hst).ne'⟩ hsum
    rw [hstates]
    exact List.mem_append_right _ (List.mem_map_of_mem hst)
  · rw [hzero, hstates, covered_needs, fillsEvenly_zeros w (le_refl _)]
    refine fillsEvenly_zero_capacity w fun need hneed => ?_
    obtain ⟨x, hx, rfl⟩ := List.mem_map.mp hneed
    obtain ⟨st, hst, rfl⟩ := List.mem_map.mp hx
    have := hgive st hst
    simp only [OfferState.need, OfferState.give] at this ⊢
    omega

/-- One iteration: a pass either leaves an even filling on a higher level, or decides whether the
    division is fair. -/
theorem Filling.Even.fair_iff_of (h : f.Even w a total) (ha : 0 ≤ a)
    (hr : Returns (fillBody byTime) f offers)
    (ih : ∀ t, fillBody byTime f = .inl t → ∀ a', t.Even w a' total → 0 ≤ a' →
      (MaxMinFair offers (·.slotDemand) (·.offered) total ↔
        FillsEvenly w (t.capacity, t.states.map (·.need)))) :
    MaxMinFair offers (·.slotDemand) (·.offered) total ↔
      FillsEvenly w (f.capacity, f.states.map (·.need)) := by
  obtain ⟨met, rest, last', capacity', statesLeft, hsp, hpass⟩ := h.pass_eq
  have hsat := hsp.satisfied
  have hleft := hsp.left
  rcases eq_or_ne rest [] with rfl | hne
  · -- all groups are satisfied
    have hfair : MaxMinFair offers (·.slotDemand) (·.offered) total := by
      refine h.fair_of_satisfied hsp ?_ hr
      rw [hpass]
      simp [levels]
    refine iff_of_true hfair ?_
    have hzeros := (fillsEvenly_zeros w hleft met.length []).mpr (fillsEvenly_nil w hleft)
    rw [fillsEvenly_covered met hsat (by simpa using hleft), covered_needs]
    simpa using hzeros
  · have hact : 0 < activeCount f.states := by
      obtain ⟨st, hst⟩ := List.exists_mem_of_ne_nil rest hne
      obtain ⟨hp, hneed, -⟩ := rest_spec h.leveled hsp st hst
      exact progressMade_iff.mp (List.any_eq_true.mpr
        ⟨st, by simp [hsp.split, hst], (active_iff_need hp).mpr hneed.ne'⟩)
    by_cases hcov : rest.length * shareOf w f.capacity rest.length ≤ capacity'
    · obtain ⟨heven, hstates, hcap⟩ := h.pass_covered hsp hpass hne hcov
      have hshare := shareOf_pos w f.capacity rest.length
      rw [fillsEvenly_covered met hsat hcov, ← hcap, ← hstates]
      by_cases hzero : f.pass.capacity = 0
      · obtain ⟨hfair, hfills⟩ :=
          h.fair_of_exhausted ha heven hstates hzero (need_give_pos hsp hcov) hne hact hr
        exact iff_of_true hfair hfills
      · have hcounts := h.ok.counts
        have hb : fillBody byTime f = .inl f.pass := by
          unfold fillBody
          rw [if_pos (by omega)]
          simp [hzero, progressMade_iff.mpr hact]
        exact ih f.pass hb _ heven (by omega)
    · -- the slots do not cover the shares
      have hshort := not_le.mp hcov
      rw [h.fair_of_shortage ha hsp (by rw [hpass]) (by rw [hpass]) hne hshort hr]
      have hnext : nextPass w (f.capacity, f.states.map (·.need)) = (0, []) := by
        simp only [nextPass, hsat, List.length_map, if_neg hcov]
      rw [fillsEvenly_iff, hnext]
      simp only [evenPass, hsat, List.length_map, hcov, decide_false, Bool.false_or,
        decide_eq_true_eq, fillsEvenly_nil w (le_refl 0), and_true]

/-- From a filling on a level, the loop returns a fair division iff every pass is even. -/
theorem Filling.Even.fair_iff (h : f.Even w a total) (ha : 0 ≤ a)
    (hr : Returns (fillBody byTime) f offers) :
    MaxMinFair offers (·.slotDemand) (·.offered) total ↔
      FillsEvenly w (f.capacity, f.states.map (·.need)) := by
  induction hr generalizing a with
  | stop hb => exact h.fair_iff_of ha (.stop hb) fun t hb' => by rw [hb] at hb'; cases hb'
  | next hb hr ih =>
    refine h.fair_iff_of ha (.next hb hr) fun t hb' a' ht ha' => ?_
    cases hb.symm.trans hb'
    exact ih ht ha'

/-! ### From the group states on -/

/-- Without presubscribed slots the filling returns. -/
theorem returns_of_unsubscribed (hok : f.Ok total)
    (hpre : ∀ st ∈ f.states, st.presubscribedSlots = 0) :
    ∃ offers, Returns (fillBody byTime) f offers := by
  refine returns_of_rank (I := fun g => g.Ok total ∧ ∀ st ∈ g.states, st.presubscribedSlots = 0)
    Filling.rank ?_ ⟨hok, hpre⟩
  rintro g t ⟨hok, hpre⟩ hb
  have hpass : ∀ st ∈ g.pass.states, st.presubscribedSlots = 0 :=
    g.pass_spec.1.unsubscribed hpre
  have htake : g.takesPresubscribed byTime = false := by
    rw [Filling.takesPresubscribed, Bool.and_eq_false_iff]
    refine .inr (Bool.eq_false_iff.mpr fun hany => ?_)
    obtain ⟨i, -, hi⟩ := Option.any_eq_true .. |>.mp hany
    obtain ⟨st, hst, hne⟩ := Option.any_eq_true .. |>.mp hi
    simp [hpass st (List.mem_of_getElem? hst)] at hne
  have hend : g.endless = false := by
    refine Bool.eq_false_iff.mpr fun hend => ?_
    obtain ⟨-, hcount, hall⟩ := endless_iff.mp hend
    obtain ⟨st, hst, ha⟩ := List.any_eq_true.mp (progressMade_iff.mpr hcount)
    exact (OfferState.stuck_iff.mp (hall st hst ha)).2.2 (hpre st hst)
  obtain ⟨hok', hlt⟩ := hok.next htake hend hb
  refine ⟨⟨hok', ?_⟩, hlt⟩
  rcases fillBody_inl hb with ⟨-, i, hi, rfl⟩ | ⟨-, -, rfl⟩
  · obtain ⟨before, st, after, hstates, -, -, hstates', -⟩ := deadlockedGroup_spec hi
    rw [hstates', List.forall_mem_append, List.forall_mem_cons]
    rw [hstates, List.forall_mem_append, List.forall_mem_cons] at hpass
    exact hpass
  · exact hpass

variable {groupStates : List GroupState}

/-- The needs a filling starts with, in the order it goes through the groups. -/
theorem SortedStates.needs_eq (order : SortedStates groupStates)
    (hpre : ∀ st ∈ groupStates, st.presubscribedSlots = 0)
    (hfresh : ∀ st ∈ groupStates, st.Fresh) :
    order.sorted.map (·.need) = (groupStates.map (·.slotDemand)).insertionSort (· ≤ ·) := by
  have hneed : ∀ st ∈ order.sorted, st.need = st.slotDemand := by
    intro st hst
    obtain ⟨g, hg, rfl⟩ := List.mem_map.mp (order.sorted_perm.mem_iff.mp hst)
    rw [OfferState.need, preoffer_offered (hfresh g hg), hpre g hg, sub_zero]
  have hdemand : ∀ g ∈ groupStates, (preoffer g).slotDemand = g.slotDemand := by
    intro g hg
    rw [preoffer, if_pos (hpre g hg)]
  rw [List.map_congr_left hneed]
  refine List.Perm.eq_of_pairwise' (r := (· ≤ ·)) ?_ (List.pairwise_insertionSort _ _) ?_
  · refine List.pairwise_map.mpr (order.sorted_ordered.imp fun {x y} hn => ?_)
    rw [OfferState.before] at hn
    omega
  · refine (order.sorted_perm.map _).trans ?_
    rw [List.map_map, List.map_congr_left (g := (·.slotDemand)) hdemand]
    exact (List.perm_insertionSort _ _).symm

/-- A group of weight one with so many one-slot tasks pending. -/
def waiting (handler demand : ℕ) : GroupState where
  group := ⟨handler, handler, none, 1⟩
  disabled := false
  slotDemand := demand
  activeSlots := 0
  presubscribedSlots := 0
  offered := 0
  reqs := (List.range demand).map fun task => ⟨task, 1, "", handler, false⟩
  pendingReqs := (List.range demand).map fun task => ⟨task, 1, "", handler, false⟩
  allocatedReqs := []

/-- What fair division asks of a group state. -/
def GroupState.OneSlotTasks (st : GroupState) : Prop :=
  st.Fresh ∧ st.group.weight = 1 ∧ st.presubscribedSlots = 0 ∧
    ∀ req ∈ st.pendingReqs, req.slotsNeeded = 1

theorem oneSlotTasks_waiting (handler demand : ℕ) : (waiting handler demand).OneSlotTasks := by
  refine ⟨⟨rfl, rfl, le_refl _⟩, rfl, rfl, fun req hreq => ?_⟩
  obtain ⟨task, -, rfl⟩ := List.mem_map.mp hreq
  rfl

/-- Groups listed by increasing demand are filled in that order. -/
def listed {states : List GroupState}
    (h : (states.map preoffer).Pairwise fun a b => ¬ b.before a) : SortedStates states where
  sorted := states.map preoffer
  sorted_perm := .refl _
  sorted_ordered := h
  byTime := List.range (states.map preoffer).length
  byTime_perm := .refl _

instance (a b : OfferState) : Decidable (a.before b) :=
  inferInstanceAs (Decidable (_ ∨ _))

def fourWaiting : List GroupState := [waiting 0 1, waiting 1 1, waiting 2 12, waiting 3 12]

end Determined.Scheduler
