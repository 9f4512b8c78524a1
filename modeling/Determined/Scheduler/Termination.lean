import Determined.Scheduler.Limits

/-! When the slot offers come to an end, whatever the capacity.

    Each round of the filling loop disables a group, or brings the slots left from below zero to
    zero, or brings some group closer to its demand. The exceptions are rounds that change nothing
    but the pre-offers of groups, which then grow for ever: with slots left, when every group still
    taking part is offered more than it demands because of what it has presubscribed; with more
    slots presubscribed than there are, when every group still taking part has pre-offers to account
    for. `Filling.stalled` is that, and `allocateSlotOffers_terminates_iff` says that nothing else
    keeps the loops from ending. -/

namespace Determined.Scheduler
open Determined.Model Determined.Schemes

/-- The group is offered more than it demands, and has pre-offers to account for. -/
def OfferState.overfull (st : OfferState) : Bool :=
  decide (st.slotDemand < st.offered) && decide (0 < st.preoffers)

/-- A round after which all is as before: some group takes part, and none that does can be offered
    anything. -/
def Filling.stalled (f : Filling) : Bool :=
  f.capacity != 0 && f.progressMade && f.states.all fun st =>
    !st.active || if f.capacity < 0 then decide (0 < st.preoffers) else st.overfull

/-- How far a group can still be moved. -/
def OfferState.distance (st : OfferState) : ℤ :=
  if st.disabled || st.overfull then 0
  else if st.slotDemand < st.offered then st.offered - st.slotDemand
  else if st.offered < st.slotDemand then st.slotDemand - st.offered + st.preoffers
  else 0

theorem OfferState.overfull_iff {st : OfferState} :
    st.overfull = true ↔ st.slotDemand < st.offered ∧ 0 < st.preoffers := by
  simp [overfull]

theorem OfferState.overfull_eq_false {st : OfferState} (h : st.offered ≤ st.slotDemand) :
    st.overfull = false := by
  rw [Bool.eq_false_iff, Ne, overfull_iff]
  omega

theorem OfferState.distance_nonneg {st : OfferState} (h : 0 ≤ st.preoffers) : 0 ≤ st.distance := by
  unfold distance
  split_ifs <;> omega

/-! ### One offer -/

/-- What the offer of a share does to a group, with slots left and with fewer than none. -/
structure Shared (capacity : ℤ) (st st' : OfferState) (gone : ℤ) : Prop where
  same : ∃ p, 0 ≤ p ∧ st' = st.give gone p
  left : 0 ≤ capacity → 0 ≤ capacity - gone
  overfull_eq : 0 ≤ capacity → st'.overfull = st.overfull
  stays : 0 ≤ capacity → st.overfull = true → gone = 0
  moves : 0 ≤ capacity → st.overfull = false →
    st'.distance < st.distance ∨ st'.distance = st.distance ∧ capacity = 0 ∧ gone = 0
  keeps : capacity < 0 → 0 < st.preoffers → gone = 0 ∧ 0 < st'.preoffers
  repays : capacity < 0 → st.preoffers = 0 → 0 ≤ capacity - gone
  grows : 0 ≤ capacity → st'.offered ≠ st'.slotDemand → 0 ≤ gone

section Share

variable {st : OfferState} {capacity : ℤ}

/-- A group without pre-offers is given the whole offer. -/
theorem shared_plain (ha : st.active = true) (hp : st.preoffers = 0) {share o : ℤ} (hs : 1 ≤ share)
    (ho : o = min (min share capacity) (st.slotDemand - st.offered)) :
    Shared capacity st (st.give o 0) o := by
  obtain ⟨hen, hne⟩ := OfferState.active_iff.mp ha
  have hfull : st.overfull = false := by
    rw [Bool.eq_false_iff, Ne, OfferState.overfull_iff]
    omega
  have hfull' : (st.give o 0).overfull = false := by
    rw [Bool.eq_false_iff, Ne, OfferState.overfull_iff]
    simp [OfferState.give]
  refine ⟨⟨0, le_rfl, rfl⟩, by omega, fun _ => hfull'.trans hfull.symm, by simp [hfull],
    fun hc _ => ?_, by omega, by omega, ?_⟩
  · rw [OfferState.distance, OfferState.distance, hfull, hfull']
    simp only [OfferState.give, hen, Bool.or_self, Bool.false_eq_true, if_false]
    split_ifs <;> omega
  · simp only [OfferState.give]
    omega

/-- A group with pre-offers is given nothing before the offer exceeds them. -/
theorem shared_preoffered (ha : st.active = true) (hp : 0 < st.preoffers) {share o : ℤ}
    (hs : 1 ≤ share) (ho : o = min (min share capacity) (st.slotDemand - st.offered)) :
    Shared capacity st
      (st.give (accountForPreoffers st.preoffers o).2 (accountForPreoffers st.preoffers o).1)
      (accountForPreoffers st.preoffers o).2 := by
  obtain ⟨hen, hne⟩ := OfferState.active_iff.mp ha
  rw [accountForPreoffers_of_pos hp]
  split
  · -- the offer is positive, so the group is below its demand
    have hfull : st.overfull = false := OfferState.overfull_eq_false (by omega)
    have hfull' : (st.give o 0).overfull = false :=
      OfferState.overfull_eq_false (by simp only [OfferState.give]; omega)
    refine ⟨⟨0, le_rfl, rfl⟩, by omega, fun _ => hfull'.trans hfull.symm, by simp [hfull],
      fun hc _ => ?_, by omega, by omega, fun _ _ => by omega⟩
    rw [OfferState.distance, OfferState.distance, hfull, hfull']
    simp only [OfferState.give, hen, Bool.or_self, Bool.false_eq_true, if_false]
    split_ifs <;> omega
  · have hfull : 0 ≤ capacity → (st.give 0 (st.preoffers - o)).overfull = st.overfull := by
      intro hc
      rw [Bool.eq_iff_iff, OfferState.overfull_iff, OfferState.overfull_iff]
      simp only [OfferState.give]
      omega
    refine ⟨⟨st.preoffers - o, by omega, rfl⟩, by simp, hfull, fun _ _ => rfl, fun hc hst => ?_,
      fun hc _ => ⟨rfl, ?_⟩, by omega, fun _ _ => le_rfl⟩
    · rw [OfferState.distance, OfferState.distance, hfull hc, hst]
      simp only [OfferState.give, hen, Bool.or_self, Bool.false_eq_true, if_false, and_true]
      rw [Bool.eq_false_iff, Ne, OfferState.overfull_iff] at hst
      split_ifs <;> omega
    · simp only [OfferState.give]
      omega

theorem shared_offerShare (ha : st.active = true) (hp : 0 ≤ st.preoffers) (startCapacity : ℤ)
    (totalWeight : ℚ) :
    Shared capacity st (offerShare startCapacity totalWeight capacity st).1
      (offerShare startCapacity totalWeight capacity st).2 := by
  have hs := calculatedFairShare_pos startCapacity st.group.weight totalWeight
  unfold offerShare
  dsimp only
  rcases hp.eq_or_lt with hp | hp
  · rw [accountForPreoffers_of_nonpos hp.symm.le, ← hp]
    exact shared_plain ha hp.symm hs rfl
  · exact shared_preoffered ha hp hs rfl

end Share

/-! ### One pass -/

/-- How far the groups can still be moved together. -/
def distanceSum (states : List OfferState) : ℤ := (states.map (·.distance)).sum

/-- No group has negative pre-offers. -/
def Accountable (states : List OfferState) : Prop := ∀ st ∈ states, 0 ≤ st.preoffers

theorem distanceSum_nonneg {states : List OfferState} (h : Accountable states) :
    0 ≤ distanceSum states := by
  refine List.sum_nonneg fun x hx => ?_
  obtain ⟨st, hst, rfl⟩ := List.mem_map.mp hx
  exact st.distance_nonneg (h st hst)

variable {startCapacity capacity capacity' : ℤ} {states states' : List OfferState}

theorem Pass.accountable (h : Pass startCapacity states capacity states' capacity')
    (hp : Accountable states) :
    Accountable states' ∧ enabledCount states' = enabledCount states := by
  induction h with
  | nil => exact ⟨hp, rfl⟩
  | skip ha _ ih =>
    obtain ⟨hst, hrest⟩ := List.forall_mem_cons.mp hp
    obtain ⟨hp', hcount⟩ := ih hrest
    refine ⟨List.forall_mem_cons.mpr ⟨hst, hp'⟩, ?_⟩
    simp only [enabledCount, List.countP_cons] at hcount ⊢
    omega
  | @offer st rest rest' c c' totalWeight ha _ ih =>
    obtain ⟨hst, hrest⟩ := List.forall_mem_cons.mp hp
    obtain ⟨p, hp0, hgive⟩ :=
      (shared_offerShare ha hst startCapacity totalWeight : Shared c st _ _).same
    obtain ⟨hp', hcount⟩ := ih hrest
    rw [hgive]
    refine ⟨List.forall_mem_cons.mpr ⟨hp0, hp'⟩, ?_⟩
    simp only [enabledCount, List.countP_cons, OfferState.give] at hcount ⊢
    omega

/-- With slots left, a pass moves some group, unless there are none or all groups that take part are
    overfull; then the slots stay what they are. -/
theorem Pass.forward (h : Pass startCapacity states capacity states' capacity')
    (hp : Accountable states) (hc : 0 ≤ capacity) :
    0 ≤ capacity' ∧ (distanceSum states' < distanceSum states ∨
      distanceSum states' = distanceSum states ∧ capacity' = capacity ∧
        (capacity = 0 ∨ ∀ st ∈ states, st.active = true → st.overfull = true)) := by
  induction h with
  | nil => exact ⟨hc, .inr ⟨rfl, rfl, .inr (by simp)⟩⟩
  | skip ha _ ih =>
    obtain ⟨-, hrest⟩ := List.forall_mem_cons.mp hp
    obtain ⟨hc', hih⟩ := ih hrest hc
    refine ⟨hc', ?_⟩
    simp only [distanceSum, List.map_cons, List.sum_cons, List.forall_mem_cons] at hih ⊢
    rcases hih with hlt | ⟨heq, hcap, hor⟩
    · exact .inl (by omega)
    · exact .inr ⟨by omega, hcap, hor.imp_right fun hall => ⟨by simp [ha], hall⟩⟩
  | @offer st rest rest' c c' totalWeight ha _ ih =>
    obtain ⟨hst, hrest⟩ := List.forall_mem_cons.mp hp
    have hshared : Shared c st _ _ := shared_offerShare ha hst startCapacity totalWeight
    obtain ⟨hc', hih⟩ := ih hrest (hshared.left hc)
    refine ⟨hc', ?_⟩
    simp only [distanceSum, List.map_cons, List.sum_cons, List.forall_mem_cons] at hih ⊢
    cases hs : st.overfull with
    | true =>
      have hgone := hshared.stays hc hs
      have hsame : (offerShare startCapacity totalWeight c st).1.distance = st.distance := by
        simp [OfferState.distance, hs, (hshared.overfull_eq hc).trans hs]
      rw [hgone, sub_zero] at hih
      rcases hih with hlt | ⟨heq, hcap, hor⟩
      · exact .inl (by omega)
      · exact .inr ⟨by omega, hcap, hor.imp_right fun hall => ⟨fun _ => rfl, hall⟩⟩
    | false =>
      rcases hshared.moves hc hs with hlt | ⟨heq, hc0, hgone⟩
      · refine .inl ?_
        rcases hih with hlt' | ⟨heq', -⟩ <;> omega
      · rw [hgone, sub_zero] at hih
        rcases hih with hlt | ⟨heq', hcap, -⟩
        · exact .inl (by omega)
        · exact .inr ⟨by omega, hcap, .inl hc0⟩

/-- With fewer than no slots left, a pass makes up for them, unless all groups that take part have
    pre-offers. -/
theorem Pass.backward (h : Pass startCapacity states capacity states' capacity')
    (hp : Accountable states) (hc : capacity < 0) :
    0 ≤ capacity' ∨ ∀ st ∈ states, st.active = true → 0 < st.preoffers := by
  induction h with
  | nil => exact .inr (by simp)
  | skip ha _ ih =>
    obtain ⟨-, hrest⟩ := List.forall_mem_cons.mp hp
    exact (ih hrest hc).imp_right fun hall => List.forall_mem_cons.mpr ⟨by simp [ha], hall⟩
  | @offer st rest rest' c c' totalWeight ha hpass ih =>
    obtain ⟨hst, hrest⟩ := List.forall_mem_cons.mp hp
    have hshared : Shared c st _ _ := shared_offerShare ha hst startCapacity totalWeight
    rcases hst.eq_or_lt with hst0 | hst0
    · exact .inl (hpass.forward hrest (hshared.repays hc hst0.symm)).1
    · obtain ⟨hgone, -⟩ := hshared.keeps hc hst0
      rw [hgone, sub_zero] at ih
      exact (ih hrest hc).imp_right fun hall => List.forall_mem_cons.mpr ⟨fun _ => hst0, hall⟩

/-- The pass of a round that is stalled. -/
theorem Pass.stalled (h : Pass startCapacity states capacity states' capacity')
    (hp : Accountable states) (hall : ∀ st ∈ states, st.active = true →
      if capacity < 0 then 0 < st.preoffers else st.overfull = true) :
    capacity' = capacity ∧ activeCount states' = activeCount states ∧
      ∀ st ∈ states', st.active = true →
        if capacity < 0 then 0 < st.preoffers else st.overfull = true := by
  induction h with
  | nil => exact ⟨rfl, rfl, hall⟩
  | skip ha _ ih =>
    obtain ⟨-, hrest⟩ := List.forall_mem_cons.mp hp
    obtain ⟨-, hall⟩ := List.forall_mem_cons.mp hall
    obtain ⟨hcap, hcount, hall'⟩ := ih hrest hall
    refine ⟨hcap, ?_, List.forall_mem_cons.mpr ⟨by simp [ha], hall'⟩⟩
    rw [activeCount_cons, activeCount_cons, hcount]
  | @offer st rest rest' c c' totalWeight ha _ ih =>
    obtain ⟨hst, hrest⟩ := List.forall_mem_cons.mp hp
    obtain ⟨hs, hall⟩ := List.forall_mem_cons.mp hall
    have hshared : Shared c st _ _ := shared_offerShare ha hst startCapacity totalWeight
    obtain ⟨p, -, hgive⟩ := hshared.same
    have hs' := hs ha
    have hgone : (offerShare startCapacity totalWeight c st).2 = 0 := by
      split at hs'
      · rename_i hc
        exact (hshared.keeps hc hs').1
      · rename_i hc
        exact hshared.stays (not_lt.mp hc) hs'
    have hact : (offerShare startCapacity totalWeight c st).1.active = true := by
      rw [hgive, hgone]
      simpa [OfferState.active, OfferState.give] using ha
    rw [hgone, sub_zero] at ih
    obtain ⟨hcap, hcount, hall'⟩ := ih hrest hall
    refine ⟨hcap, ?_, List.forall_mem_cons.mpr ⟨fun _ => ?_, hall'⟩⟩
    · rw [activeCount_cons, activeCount_cons, hcount, ha, hact]
    · split
      · rename_i hc
        rw [if_pos hc] at hs'
        exact (hshared.keeps hc hs').2
      · rename_i hc
        rw [if_neg hc] at hs'
        exact (hshared.overfull_eq (not_lt.mp hc)).trans hs'

/-! ### The filling loop -/

variable {byTime : List ℕ} {f t : Filling}

/-- What every round starts with. -/
structure Filling.Counted (f : Filling) : Prop where
  accountable : Accountable f.states
  counts : activeCount f.states ≤ f.statesLeft

/-- What is left to do: the groups that can still be disabled, then the slots to make up for, then
    the groups that can still be moved. -/
def Filling.toDo (f : Filling) : ℕ ×ₗ ℕ ×ₗ ℕ :=
  toLex (enabledCount f.states,
    toLex (if f.capacity < 0 then 1 else 0, (distanceSum f.states).toNat))

theorem Filling.Counted.pass (h : f.Counted) : f.pass.Counted := by
  obtain ⟨hpass, hleft⟩ := f.pass_spec
  have := h.counts
  exact ⟨(hpass.accountable h.accountable).1, by omega⟩

theorem Filling.Counted.disable (h : f.Counted) {i : ℕ} (hi : f.deadlockedGroup byTime = some i) :
    (f.disable i).Counted ∧ enabledCount (f.disable i).states < enabledCount f.states := by
  obtain ⟨before, st, after, hstates, -, hdead, hstates', -⟩ := deadlockedGroup_spec hi
  have ha := OfferState.active_of_deadlocked hdead
  obtain ⟨hen, -⟩ := OfferState.active_iff.mp ha
  have hdis : st.disable.active = false := by simp [OfferState.active, OfferState.disable]
  have hall := h.accountable
  have hcounts := h.counts
  rw [hstates] at hall hcounts
  refine ⟨⟨?_, ?_⟩, ?_⟩
  · rw [hstates']
    intro x hx
    rcases List.mem_append.mp hx with hx | hx
    · exact hall x (List.mem_append_left _ hx)
    · rcases List.mem_cons.mp hx with rfl | hx
      · exact hall st (by simp)
      · exact hall x (List.mem_append_right _ (List.mem_cons_of_mem _ hx))
  · rw [hstates']
    simp only [activeCount, List.countP_append, List.countP_cons, ha, hdis, Filling.disable,
      if_true, Bool.false_eq_true, if_false] at hcounts ⊢
    omega
  · rw [hstates', hstates]
    simp only [enabledCount, List.countP_append, List.countP_cons, hen, OfferState.disable]
    simp

theorem Filling.stalled_iff : f.stalled = true ↔ f.capacity ≠ 0 ∧ 0 < activeCount f.states ∧
    ∀ st ∈ f.states, st.active = true →
      if f.capacity < 0 then 0 < st.preoffers else st.overfull = true := by
  simp only [stalled, Bool.and_eq_true, bne_iff_ne, progressMade_iff, List.all_eq_true,
    Bool.or_eq_true, Bool.not_eq_true', and_assoc]
  refine and_congr_right fun _ => and_congr_right fun _ => forall₂_congr fun st _ => ?_
  cases st.active <;> split <;> simp

/-- A round that is not stalled has less to do after it. -/
theorem Filling.Counted.next (h : f.Counted) (hst : f.stalled = false)
    (hb : fillBody byTime f = .inl t) : t.Counted ∧ t.toDo < f.toDo := by
  obtain ⟨hpass, -⟩ := f.pass_spec
  obtain ⟨hacc, hcount⟩ := hpass.accountable h.accountable
  rcases fillBody_inl hb with ⟨-, i, hi, rfl⟩ | ⟨hcap, hprog, rfl⟩
  · obtain ⟨hok, hlt⟩ := h.pass.disable hi
    exact ⟨hok, Prod.Lex.left _ _ (hcount ▸ hlt)⟩
  · refine ⟨h.pass, ?_⟩
    have hpos := progressMade_iff.mp hprog
    rw [toDo, toDo, hcount]
    refine Prod.Lex.right _ ?_
    rcases lt_or_ge f.capacity 0 with hc | hc
    · rcases hpass.backward h.accountable hc with hc' | hall
      · rw [if_neg (not_lt.mpr hc'), if_pos hc]
        exact Prod.Lex.left _ _ Nat.one_pos
      · rw [stalled_iff.mpr ⟨hc.ne, hpos, by simpa [hc] using hall⟩] at hst
        cases hst
    · obtain ⟨hc', hmove⟩ := hpass.forward h.accountable hc
      rw [if_neg (not_lt.mpr hc'), if_neg (not_lt.mpr hc)]
      refine Prod.Lex.right _ ?_
      rcases hmove with hlt | ⟨-, hsame, hor⟩
      · have := distanceSum_nonneg hacc
        omega
      · rcases hor with h0 | hall
        · exact absurd (hsame.trans h0) hcap
        · rw [stalled_iff.mpr ⟨hsame ▸ hcap, hpos, by simpa [not_lt.mpr hc] using hall⟩] at hst
          cases hst

/-- A stalled round is followed by another. -/
theorem Filling.Counted.again (h : f.Counted) (hst : f.stalled = true) (byTime : List ℕ) :
    fillBody byTime f = .inl f.pass ∧ f.pass.stalled = true := by
  obtain ⟨hcap, hcount, hall⟩ := stalled_iff.mp hst
  obtain ⟨hcap', hcount', hall'⟩ := f.pass_spec.1.stalled h.accountable hall
  have := h.counts
  constructor
  · unfold fillBody
    rw [if_pos (by omega)]
    simp [hcap', hcap, progressMade_iff.mpr hcount]
  · rw [stalled_iff, hcap', hcount']
    exact ⟨hcap, hcount, hall'⟩

theorem Filling.Counted.not_returns (h : f.Counted) (hst : f.stalled = true)
    (offers : List OfferState) : ¬ Returns (fillBody byTime) f offers := by
  intro hr
  refine hr.invariant (I := fun f => f.Counted ∧ f.stalled = true) (P := fun _ => False) ?_ ?_
    ⟨h, hst⟩
  · rintro f t ⟨hok, hst⟩ hb
    obtain ⟨hb', hst'⟩ := hok.again hst byTime
    cases hb.symm.trans hb'
    exact ⟨hok.pass, hst'⟩
  · rintro f offers ⟨hok, hst⟩ hb
    obtain ⟨hb', -⟩ := hok.again hst byTime
    cases hb.symm.trans hb'

theorem SortedStates.counted_start {groupStates : List GroupState}
    (order : SortedStates groupStates) (h : ∀ st ∈ groupStates, st.Fresh) (capacity : ℤ) :
    (order.start capacity).Counted := by
  constructor
  · intro st hst
    obtain ⟨g, hg, rfl⟩ := List.mem_map.mp (order.sorted_perm.mem_iff.mp hst)
    exact (ok_preoffer (h g hg)).preoffers
  · have := order.sorted.countP_le_length (p := (·.active))
    simp only [SortedStates.start, activeCount]
    omega

/-- Slots are left, and no group is offered more than it demands because of pre-offers. -/
structure Filling.Fitting (f : Filling) : Prop where
  counted : f.Counted
  left : 0 ≤ f.capacity
  states : ∀ st ∈ f.states, st.active = true → 0 ≤ st.offered ∧ st.overfull = false

theorem Pass.fitting (h : Pass startCapacity states capacity states' capacity')
    (hp : Accountable states) (hc : 0 ≤ capacity)
    (hall : ∀ st ∈ states, st.active = true → 0 ≤ st.offered ∧ st.overfull = false) :
    ∀ st ∈ states', st.active = true → 0 ≤ st.offered ∧ st.overfull = false := by
  induction h with
  | nil => exact hall
  | skip ha _ ih =>
    obtain ⟨-, hrest⟩ := List.forall_mem_cons.mp hp
    obtain ⟨hst, hall⟩ := List.forall_mem_cons.mp hall
    exact List.forall_mem_cons.mpr ⟨hst, ih hrest hc hall⟩
  | @offer st rest rest' c c' totalWeight ha _ ih =>
    obtain ⟨hst, hrest⟩ := List.forall_mem_cons.mp hp
    obtain ⟨hs, hall⟩ := List.forall_mem_cons.mp hall
    have hshared : Shared c st _ _ := shared_offerShare ha hst startCapacity totalWeight
    obtain ⟨hnn, hfull⟩ := hs ha
    refine List.forall_mem_cons.mpr ⟨fun ha' => ⟨?_, (hshared.overfull_eq hc).trans hfull⟩,
      ih hrest (hshared.left hc) hall⟩
    have hgone := hshared.grows hc (OfferState.active_iff.mp ha').2
    obtain ⟨p, -, hgive⟩ := hshared.same
    rw [hgive]
    simp only [OfferState.give]
    omega

theorem Filling.Fitting.next (h : f.Fitting) (hb : fillBody byTime f = .inl t) : t.Fitting := by
  obtain ⟨hpass, -⟩ := f.pass_spec
  have hc' := (hpass.forward h.counted.accountable h.left).1
  have hstates := hpass.fitting h.counted.accountable h.left h.states
  rcases fillBody_inl hb with ⟨-, i, hi, rfl⟩ | ⟨-, -, rfl⟩
  · obtain ⟨before, st, after, heq, -, hdead, heq', hcap⟩ := deadlockedGroup_spec hi
    rw [heq] at hstates
    have hst := (hstates st (by simp) (OfferState.active_of_deadlocked hdead)).1
    refine ⟨(h.counted.pass.disable hi).1, by omega, ?_⟩
    rw [heq']
    intro x hx ha
    rcases List.mem_append.mp hx with hx | hx
    · exact hstates x (List.mem_append_left _ hx) ha
    · rcases List.mem_cons.mp hx with rfl | hx
      · simp [OfferState.active, OfferState.disable] at ha
      · exact hstates x (List.mem_append_right _ (List.mem_cons_of_mem _ hx)) ha
  · exact ⟨h.counted.pass, hc', hstates⟩

theorem Filling.Fitting.not_stalled (h : f.Fitting) : f.stalled = false := by
  rw [Bool.eq_false_iff, Ne, stalled_iff]
  rintro ⟨-, hcount, hall⟩
  simp only [if_neg (not_lt.mpr h.left)] at hall
  rw [activeCount, Int.natCast_pos, List.countP_pos_iff] at hcount
  obtain ⟨st, hst, ha⟩ := hcount
  have hfull := hall st hst ha
  rw [(h.states st hst ha).2] at hfull
  cases hfull

/-- Slot offers come to an end if the presubscribed slots fit the capacity, and no group has more of
    them than it demands. -/
theorem allocateSlotOffers_terminates {groupStates : List GroupState}
    (hfresh : ∀ st ∈ groupStates, st.Fresh)
    (hdemand : ∀ st ∈ groupStates, st.presubscribedSlots ≠ 0 → st.presubscribedSlots ≤ st.slotDemand)
    {capacity : ℤ} (hfit : (groupStates.map (·.presubscribedSlots)).sum ≤ capacity)
    (order : SortedStates groupStates) : ∃ offers, AllocateSlotOffers order capacity offers := by
  have hstart : (order.start capacity).Fitting := by
    refine ⟨order.counted_start hfresh capacity, ?_, fun st hst _ => ?_⟩
    · simp only [SortedStates.start]
      omega
    · obtain ⟨g, hg, rfl⟩ := List.mem_map.mp (order.sorted_perm.mem_iff.mp hst)
      rw [preoffer_offered (hfresh g hg)]
      refine ⟨(hfresh g hg).presubscribed, ?_⟩
      unfold preoffer
      split
      · simp [OfferState.overfull]
      · rename_i hne
        exact OfferState.overfull_eq_false (hdemand g hg hne)
  refine returns_of_rank (I := Filling.Fitting) Filling.toDo (fun f t hf hb => ?_) hstart
  exact ⟨hf.next hb, (hf.counted.next hf.not_stalled hb).2⟩

/-! ### One group, with fewer slots allowed than it uses -/

/-- A group runs a two-slot task that cannot be preempted. -/
def oneTask : TaskList where
  tasks := [⟨0, 2, "", 0, true⟩]
  allocations _ := some 1

/-- The group with its `max_slots`. -/
def oneGroup (maxSlots : ℤ) : List Group := [⟨0, 0, some maxSlots, 1⟩]

/-- The order of a single group. -/
def onlyOne {groupStates : List GroupState} {a : GroupState} (h : groupStates = [a]) :
    SortedStates groupStates where
  sorted := [preoffer a]
  sorted_perm := by rw [h]; exact .refl _
  sorted_ordered := by simp
  byTime := [0]
  byTime_perm := .refl _

end Determined.Scheduler
