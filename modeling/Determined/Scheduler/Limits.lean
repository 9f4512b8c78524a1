import Determined.Scheduler.FairShare

/-! What the slot offers keep to: the capacity, the groups' demands and what already runs.

    Slots are neither lost nor made: what is offered and what is left always add up to the capacity
    (`Pass.conserves`), over the pre-offers, the passes and the deadlock breaking alike. An offer
    never falls below the group's presubscribed slots while the group takes part. But the loop that
    breaks deadlocks takes away whole offers, presubscribed slots and all; and a group whose
    presubscribed slots exceed its demand never stops taking part, so the filling does not end as
    long as slots are left. The main result, `offers_within_limits_iff`, says that nothing else
    goes wrong. -/

namespace Determined.Scheduler
open Determined.Model Determined.Schemes

/-! ### One offer -/

theorem accountForPreoffers_of_nonpos {p o : ℤ} (hp : p ≤ 0) : accountForPreoffers p o = (p, o) := by
  unfold accountForPreoffers
  rw [if_neg (by omega)]

/-- Pre-offers are worked off against the offer; an offer that exceeds them is given in full. -/
theorem accountForPreoffers_of_pos {p o : ℤ} (hp : 0 < p) : accountForPreoffers p o =
    if p < o then (0, o) else (p - o, 0) := by
  unfold accountForPreoffers
  rw [if_pos hp]
  rcases lt_trichotomy p o with hlt | rfl | hgt
  · have hne : p ≠ o := hlt.ne
    have hngt : ¬ o < p := by omega
    simp [hlt, hne, hngt]
  · simp
  · have hne : p ≠ o := hgt.ne'
    have hnlt : ¬ p < o := by omega
    have hpos : ¬ p - o < 0 := by omega
    simp [hgt, hne, hnlt, hpos]

theorem calculatedFairShare_pos (startCapacity : ℤ) (weight totalWeight : ℚ) :
    1 ≤ calculatedFairShare startCapacity weight totalWeight := le_max_left _ _

/-- What holds of a group that was not offered too much or too little: it has what it presubscribed,
    and more than its demand only where that is what it presubscribed, or where its demand is
    negative and it has nothing yet. -/
structure OfferState.Ok (st : OfferState) : Prop where
  presubscribed : 0 ≤ st.presubscribedSlots
  preoffers : 0 ≤ st.preoffers
  disabled : st.disabled = true → st.presubscribedSlots = 0
  nonneg : st.offered ≠ st.slotDemand → 0 ≤ st.offered
  atLeast : st.presubscribedSlots ≠ 0 → st.presubscribedSlots ≤ st.offered
  atMost : st.offered ≤ max st.presubscribedSlots st.slotDemand
  excess : st.disabled = false → st.slotDemand < st.offered →
    st.presubscribedSlots ≠ 0 ∧ 0 < st.preoffers ∨ st.presubscribedSlots = 0 ∧ st.preoffers = 0

theorem OfferState.active_iff {st : OfferState} :
    st.active = true ↔ st.disabled = false ∧ st.offered ≠ st.slotDemand := by
  simp [OfferState.active]

/-- The filling cannot change this group's offer any more, though it is not its demand. -/
def OfferState.stuck (st : OfferState) : Bool :=
  st.active && decide (st.slotDemand < st.offered) && st.presubscribedSlots != 0

theorem OfferState.stuck_iff {st : OfferState} : st.stuck = true ↔
    st.disabled = false ∧ st.slotDemand < st.offered ∧ st.presubscribedSlots ≠ 0 := by
  simp only [OfferState.stuck, OfferState.active, Bool.and_eq_true, decide_eq_true_eq,
    bne_iff_ne, Bool.not_eq_true', Bool.or_eq_false_iff, beq_eq_false_iff_ne]
  exact ⟨fun ⟨⟨⟨hen, _⟩, hlt⟩, hpre⟩ => ⟨hen, hlt, hpre⟩,
    fun ⟨hen, hlt, hpre⟩ => ⟨⟨⟨hen, hlt.ne'⟩, hlt⟩, hpre⟩⟩

theorem OfferState.stuck_of_le {st : OfferState} (h : st.offered ≤ st.slotDemand) :
    st.stuck = false := by
  rw [Bool.eq_false_iff, Ne, OfferState.stuck_iff]
  omega

/-- How far the filling can still move a group, with the pre-offers still to be worked off. -/
def OfferState.toGo (st : OfferState) : ℤ :=
  if st.stuck || st.disabled then 0
  else if st.slotDemand < st.offered then st.offered - st.slotDemand
  else if st.offered < st.slotDemand then st.slotDemand - st.offered + st.preoffers
  else 0

theorem OfferState.Ok.toGo_nonneg {st : OfferState} (h : st.Ok) : 0 ≤ st.toGo := by
  have := h.preoffers
  unfold OfferState.toGo
  split_ifs <;> omega

/-- What the offer of a share changes: a group moves towards its demand, unless it is stuck or there
    are no slots. -/
structure Offered (capacity : ℤ) (st st' : OfferState) (gone : ℤ) : Prop where
  same : ∃ p, st' = { st with offered := st.offered + gone, preoffers := p }
  ok : st'.Ok
  left : 0 ≤ capacity - gone
  stuck_eq : st'.stuck = st.stuck
  stays : st.stuck = true → gone = 0
  moves : st.stuck = false → st'.toGo < st.toGo ∨ st'.toGo = st.toGo ∧ capacity = 0 ∧ gone = 0

section Give

variable {st : OfferState} {capacity g p : ℤ}

/-- A group below its demand moves towards it. -/
theorem offered_below (hst : st.Ok) (ha : st.active = true) (hlt : st.offered < st.slotDemand)
    (hg : 0 ≤ g) (hgd : g ≤ st.slotDemand - st.offered) (hgc : g ≤ capacity) (hp : 0 ≤ p)
    (hpp : p ≤ st.preoffers) (hmove : g = 0 → p = st.preoffers → capacity = 0) :
    Offered capacity st (st.give g p) g := by
  obtain ⟨hen, hne⟩ := OfferState.active_iff.mp ha
  have hns : st.stuck = false := OfferState.stuck_of_le hlt.le
  have hle' : st.offered + g ≤ st.slotDemand := by omega
  have hns' : (st.give g p).stuck = false := OfferState.stuck_of_le hle'
  refine ⟨⟨p, rfl⟩, ?_, by omega, hns'.trans hns.symm, by simp [hns], fun _ => ?_⟩
  · have hnn := hst.nonneg hne
    have hle := hst.atLeast
    have hmost := hst.atMost
    refine ⟨hst.presubscribed, hp, by simp [OfferState.give, hen], ?_, ?_, ?_, ?_⟩ <;>
      simp only [OfferState.give] <;> omega
  · rw [OfferState.toGo, OfferState.toGo, hns, hns']
    simp only [OfferState.give, hen, Bool.or_self, Bool.false_eq_true, if_false]
    split_ifs <;> omega

/-- A stuck group stays, and only piles up pre-offers. -/
theorem offered_stuck (hst : st.Ok) (hs : st.stuck = true) (hc : 0 ≤ capacity)
    (hp : st.preoffers ≤ p) : Offered capacity st (st.give 0 p) 0 := by
  obtain ⟨hen, hlt, hpre⟩ := OfferState.stuck_iff.mp hs
  have hs' : (st.give 0 p).stuck = true :=
    OfferState.stuck_iff.mpr ⟨hen, by simpa [OfferState.give] using hlt, hpre⟩
  refine ⟨⟨p, rfl⟩, ?_, by simpa using hc, hs'.trans hs.symm, fun _ => rfl, by simp [hs]⟩
  have hp0 := hst.preoffers
  have hnn := hst.nonneg hlt.ne'
  have hle := hst.atLeast
  have hmost := hst.atMost
  have hexc := hst.excess hen hlt
  refine ⟨hst.presubscribed, by simp only [OfferState.give]; omega, by simp [OfferState.give, hen],
    ?_, ?_, ?_, ?_⟩ <;> simp only [OfferState.give] <;> omega

/-- A group with a negative demand and nothing presubscribed gives slots back. -/
theorem offered_negative (hst : st.Ok) (ha : st.active = true) (hgt : st.slotDemand < st.offered)
    (hpre : st.presubscribedSlots = 0) (hc : 0 ≤ capacity) :
    Offered capacity st (st.give (st.slotDemand - st.offered) st.preoffers)
      (st.slotDemand - st.offered) := by
  obtain ⟨hen, hne⟩ := OfferState.active_iff.mp ha
  have hns : st.stuck = false := by
    rw [Bool.eq_false_iff, Ne, OfferState.stuck_iff]
    omega
  have hns' : (st.give (st.slotDemand - st.offered) st.preoffers).stuck = false := by
    refine OfferState.stuck_of_le ?_
    simp only [OfferState.give]
    omega
  refine ⟨⟨_, rfl⟩, ?_, by omega, hns'.trans hns.symm, by simp [hns], fun _ => .inl ?_⟩
  · have hp0 := hst.preoffers
    have hmost := hst.atMost
    refine ⟨hst.presubscribed, hp0, by simp [OfferState.give, hen], ?_, ?_, ?_, ?_⟩ <;>
      simp only [OfferState.give] <;> omega
  · rw [OfferState.toGo, OfferState.toGo, hns, hns']
    simp only [OfferState.give, hen, Bool.or_self, Bool.false_eq_true, if_false]
    split_ifs <;> omega

end Give

theorem offered_offerShare {st : OfferState} (hst : st.Ok) (ha : st.active = true) {capacity : ℤ}
    (hc : 0 ≤ capacity) (startCapacity : ℤ) (totalWeight : ℚ) :
    Offered capacity st (offerShare startCapacity totalWeight capacity st).1
      (offerShare startCapacity totalWeight capacity st).2 := by
  obtain ⟨hen, hne⟩ := OfferState.active_iff.mp ha
  have hshare := calculatedFairShare_pos startCapacity st.group.weight totalWeight
  unfold offerShare
  dsimp only
  generalize calculatedFairShare startCapacity st.group.weight totalWeight = share at hshare
  obtain ⟨o, ho⟩ : ∃ o, o = min (min share capacity) (st.slotDemand - st.offered) := ⟨_, rfl⟩
  rw [← ho]
  have hp := hst.preoffers
  rcases lt_or_gt_of_ne hne with hlt | hgt
  · -- below its demand, the group is offered something if there is anything
    rcases hp.eq_or_lt with hp0 | hp0
    · rw [accountForPreoffers_of_nonpos (by omega)]
      exact offered_below hst ha hlt (by omega) (by omega) (by omega) hp (le_refl _) (by omega)
    · rw [accountForPreoffers_of_pos hp0]
      split
      · exact offered_below hst ha hlt (by omega) (by omega) (by omega) (le_refl _) (by omega)
          (by omega)
      · exact offered_below hst ha hlt (le_refl _) (by omega) (by omega) (by omega) (by omega)
          (by omega)
  · have ho' : o = st.slotDemand - st.offered := by omega
    rcases hst.excess hen hgt with ⟨hpre0, hp0⟩ | ⟨hpre0, hp0⟩
    · rw [accountForPreoffers_of_pos hp0, if_neg (by omega)]
      exact offered_stuck hst (by simp [OfferState.stuck, ha, hgt, hpre0]) hc (by omega)
    · rw [accountForPreoffers_of_nonpos (by omega), ho']
      exact offered_negative hst ha hgt hpre0 hc

/-! ### One pass -/

/-- A pass over the groups, forgetting how the shares come about: from `capacity` slots to
    `capacity'`. -/
inductive Pass (startCapacity : ℤ) : List OfferState → ℤ → List OfferState → ℤ → Prop
  | nil (capacity : ℤ) : Pass startCapacity [] capacity [] capacity
  | skip {st : OfferState} {rest rest' : List OfferState} {capacity capacity' : ℤ} :
      st.active = false → Pass startCapacity rest capacity rest' capacity' →
      Pass startCapacity (st :: rest) capacity (st :: rest') capacity'
  | offer {st : OfferState} {rest rest' : List OfferState} {capacity capacity' : ℤ}
      (totalWeight : ℚ) : st.active = true →
      Pass startCapacity rest (capacity - (offerShare startCapacity totalWeight capacity st).2)
        rest' capacity' →
      Pass startCapacity (st :: rest) capacity
        ((offerShare startCapacity totalWeight capacity st).1 :: rest') capacity'

/-- The groups that still take part. -/
def activeCount (states : List OfferState) : ℤ := states.countP (·.active)

theorem activeCount_cons (st : OfferState) (states : List OfferState) :
    activeCount (st :: states) = activeCount states + if st.active then 1 else 0 := by
  rw [activeCount, List.countP_cons, activeCount]
  split <;> simp

/-- `fillPass` is a pass, and counts off the groups that reach their demand. -/
theorem pass_fillPass (startCapacity : ℤ) (states : List OfferState) :
    ∀ (done : List OfferState) (capacity : ℤ) (totalWeight : ℚ) (statesLeft : ℤ),
      ∃ states', (fillPass startCapacity done states capacity totalWeight statesLeft).states =
          done ++ states' ∧
        Pass startCapacity states capacity states'
          (fillPass startCapacity done states capacity totalWeight statesLeft).capacity ∧
        (fillPass startCapacity done states capacity totalWeight statesLeft).statesLeft -
          activeCount states' = statesLeft - activeCount states := by
  induction states with
  | nil => exact fun done capacity totalWeight statesLeft => ⟨[], by simp [fillPass], .nil _, rfl⟩
  | cons st rest ih =>
    intro done capacity totalWeight statesLeft
    unfold fillPass
    cases ha : st.active with
    | false =>
      rw [if_neg Bool.false_ne_true]
      obtain ⟨rest', hstates, hpass, hleft⟩ := ih (done ++ [st]) capacity totalWeight statesLeft
      refine ⟨st :: rest', by simpa using hstates, .skip ha hpass, ?_⟩
      rw [activeCount_cons, activeCount_cons]
      omega
    | true =>
      rw [if_pos rfl]
      dsimp only
      generalize hoff : offerShare startCapacity totalWeight capacity st = offer
      have hdis : offer.1.disabled = false := by
        rw [← hoff]; exact (OfferState.active_iff.mp ha).1
      split
      · rename_i hsat
        have hna : offer.1.active = false := by simp [OfferState.active, hsat]
        obtain ⟨rest', hstates, hpass, hleft⟩ := ih (done ++ [offer.1]) (capacity - offer.2)
          (getTotalWeight (done ++ offer.1 :: rest)) (statesLeft - 1)
        refine ⟨offer.1 :: rest', by simpa using hstates, ?_, ?_⟩
        · subst hoff; exact .offer totalWeight ha hpass
        · rw [activeCount_cons, activeCount_cons, ha, hna]
          simp only [if_true, Bool.false_eq_true, if_false]
          omega
      · rename_i hsat
        have hac : offer.1.active = true := OfferState.active_iff.mpr ⟨hdis, hsat⟩
        obtain ⟨rest', hstates, hpass, hleft⟩ := ih (done ++ [offer.1]) (capacity - offer.2)
          totalWeight statesLeft
        refine ⟨offer.1 :: rest', by simpa using hstates, ?_, ?_⟩
        · subst hoff; exact .offer totalWeight ha hpass
        · rw [activeCount_cons, activeCount_cons, ha, hac]
          omega

/-- The slots offered to the groups together. -/
def offeredSum (states : List OfferState) : ℤ := (states.map (·.offered)).sum

/-- How far the filling can still move the groups together. -/
def toGoSum (states : List OfferState) : ℤ := (states.map (·.toGo)).sum

/-- The groups that were not disabled. -/
def enabledCount (states : List OfferState) : ℕ := states.countP (!·.disabled)

variable {startCapacity capacity capacity' : ℤ} {states states' : List OfferState}

/-- A pass keeps every group right, and the slots together. -/
theorem Pass.keeps (h : Pass startCapacity states capacity states' capacity')
    (hok : ∀ st ∈ states, st.Ok) (hc : 0 ≤ capacity) :
    (∀ st ∈ states', st.Ok) ∧ 0 ≤ capacity' ∧
      capacity' + offeredSum states' = capacity + offeredSum states ∧
      enabledCount states' = enabledCount states := by
  induction h with
  | nil => exact ⟨by simp, hc, rfl, rfl⟩
  | skip ha _ ih =>
    obtain ⟨hst, hrest⟩ := List.forall_mem_cons.mp hok
    obtain ⟨hok', hc', hsum, hcount⟩ := ih hrest hc
    refine ⟨List.forall_mem_cons.mpr ⟨hst, hok'⟩, hc', ?_, ?_⟩
    · simp only [offeredSum, List.map_cons, List.sum_cons] at hsum ⊢
      omega
    · simp only [enabledCount, List.countP_cons] at hcount ⊢
      omega
  | @offer st rest rest' c c' totalWeight ha _ ih =>
    obtain ⟨hst, hrest⟩ := List.forall_mem_cons.mp hok
    have hoff := offered_offerShare hst ha hc startCapacity totalWeight
    obtain ⟨p, hp⟩ := hoff.same
    obtain ⟨hok', hc', hsum, hcount⟩ := ih hrest hoff.left
    refine ⟨List.forall_mem_cons.mpr ⟨hoff.ok, hok'⟩, hc', ?_, ?_⟩
    · simp only [offeredSum, List.map_cons, List.sum_cons] at hsum ⊢
      rw [hp]
      dsimp only
      omega
    · have hdis : (offerShare startCapacity totalWeight c st).1.disabled = st.disabled := by rw [hp]
      simp only [enabledCount, List.countP_cons, hdis] at hcount ⊢
      omega

/-- A pass brings some group forward, unless there are no slots or all groups that take part are
    stuck; then the slots stay what they are. -/
theorem Pass.progresses (h : Pass startCapacity states capacity states' capacity')
    (hok : ∀ st ∈ states, st.Ok) (hc : 0 ≤ capacity) :
    toGoSum states' < toGoSum states ∨ toGoSum states' = toGoSum states ∧ capacity' = capacity ∧
      (capacity = 0 ∨ ∀ st ∈ states, st.active = true → st.stuck = true) := by
  induction h with
  | nil => exact .inr ⟨rfl, rfl, .inr (by simp)⟩
  | skip ha _ ih =>
    obtain ⟨hst, hrest⟩ := List.forall_mem_cons.mp hok
    simp only [toGoSum, List.map_cons, List.sum_cons, List.forall_mem_cons] at ih ⊢
    rcases ih hrest hc with hlt | ⟨heq, hcap, hor⟩
    · exact .inl (by omega)
    · refine .inr ⟨by omega, hcap, hor.imp_right fun hall => ⟨fun ha' => ?_, hall⟩⟩
      rw [ha] at ha'
      cases ha'
  | @offer st rest rest' c c' totalWeight ha _ ih =>
    obtain ⟨hst, hrest⟩ := List.forall_mem_cons.mp hok
    have hoff := offered_offerShare hst ha hc startCapacity totalWeight
    have hih := ih hrest hoff.left
    simp only [toGoSum, List.map_cons, List.sum_cons, List.forall_mem_cons] at hih ⊢
    cases hs : st.stuck with
    | true =>
      have hgone := hoff.stays hs
      have hsame : (offerShare startCapacity totalWeight c st).1.toGo = st.toGo := by
        have hs' := hoff.stuck_eq.trans hs
        simp [OfferState.toGo, hs, hs']
      rw [hgone, sub_zero] at hih
      rcases hih with hlt | ⟨heq, hcap, hor⟩
      · exact .inl (by omega)
      · exact .inr ⟨by omega, hcap, hor.imp_right fun hall => ⟨fun _ => rfl, hall⟩⟩
    | false =>
      rcases hoff.moves hs with hlt | ⟨heq, hc0, hgone⟩
      · refine .inl ?_
        rcases hih with hlt' | ⟨heq', -⟩ <;> omega
      · rw [hgone, sub_zero] at hih
        rcases hih with hlt | ⟨heq', hcap, -⟩
        · exact .inl (by omega)
        · exact .inr ⟨by omega, hcap, .inl hc0⟩

/-- A group that takes no part stays as it is. -/
theorem Pass.mem_of_inactive (h : Pass startCapacity states capacity states' capacity')
    {st : OfferState} (hst : st ∈ states) (ha : st.active = false) : st ∈ states' := by
  induction h with
  | nil => exact hst
  | skip _ _ ih =>
    rcases List.mem_cons.mp hst with rfl | hst
    · exact List.mem_cons_self ..
    · exact List.mem_cons_of_mem _ (ih hst)
  | offer _ ha' _ ih =>
    rcases List.mem_cons.mp hst with rfl | hst
    · rw [ha] at ha'; cases ha'
    · exact List.mem_cons_of_mem _ (ih hst)

theorem Pass.activeCount_le (h : Pass startCapacity states capacity states' capacity') :
    activeCount states' ≤ activeCount states := by
  induction h with
  | nil => exact le_refl _
  | skip _ _ ih => rw [activeCount_cons, activeCount_cons]; omega
  | offer _ ha _ ih =>
    rw [activeCount_cons, activeCount_cons, ha]
    split <;> simp <;> omega

/-- Stuck groups alone keep each other in the filling, and the slots where they are. -/
theorem Pass.all_stuck (h : Pass startCapacity states capacity states' capacity')
    (hok : ∀ st ∈ states, st.Ok) (hc : 0 ≤ capacity)
    (hall : ∀ st ∈ states, st.active = true → st.stuck = true) :
    capacity' = capacity ∧ (∀ st ∈ states', st.active = true → st.stuck = true) ∧
      activeCount states' = activeCount states := by
  induction h with
  | nil => exact ⟨rfl, hall, rfl⟩
  | skip ha _ ih =>
    obtain ⟨-, hrest⟩ := List.forall_mem_cons.mp hok
    obtain ⟨hst, hall⟩ := List.forall_mem_cons.mp hall
    obtain ⟨hcap, hall', hcount⟩ := ih hrest hc hall
    refine ⟨hcap, List.forall_mem_cons.mpr ⟨hst, hall'⟩, ?_⟩
    rw [activeCount_cons, activeCount_cons, hcount]
  | @offer st rest rest' c c' totalWeight ha _ ih =>
    obtain ⟨hst, hrest⟩ := List.forall_mem_cons.mp hok
    obtain ⟨hs, hall⟩ := List.forall_mem_cons.mp hall
    have hoff := offered_offerShare hst ha hc startCapacity totalWeight
    have hs' := hoff.stuck_eq.trans (hs ha)
    obtain ⟨hen, hlt, -⟩ := OfferState.stuck_iff.mp hs'
    have ha' := OfferState.active_iff.mpr ⟨hen, hlt.ne'⟩
    rw [hoff.stays (hs ha), sub_zero] at ih
    obtain ⟨hcap, hall', hcount⟩ := ih hrest hc hall
    refine ⟨hcap, List.forall_mem_cons.mpr ⟨fun _ => hs', hall'⟩, ?_⟩
    rw [activeCount_cons, activeCount_cons, hcount, ha, ha']

/-! ### The filling loop -/

variable {byTime : List ℕ} {f t : Filling} {total : ℤ}

/-- The round takes the offer away from a group that has presubscribed slots. -/
def Filling.takesPresubscribed (f : Filling) (byTime : List ℕ) : Bool :=
  f.pass.capacity == 0 && (f.pass.deadlockedGroup byTime).any fun i =>
    (f.pass.states[i]?).any (·.presubscribedSlots != 0)

/-- Slots are left, and all groups that still take part have more presubscribed slots than
    demand. -/
def Filling.endless (f : Filling) : Bool :=
  f.capacity != 0 && f.progressMade && f.states.all fun st => !st.active || st.stuck

/-- The invariant of the filling loop. -/
structure Filling.Ok (total : ℤ) (f : Filling) : Prop where
  states : ∀ st ∈ f.states, st.Ok
  left : 0 ≤ f.capacity
  conserves : f.capacity + offeredSum f.states = total
  counts : activeCount f.states ≤ f.statesLeft

theorem Filling.pass_spec (f : Filling) :
    Pass f.capacity f.states f.capacity f.pass.states f.pass.capacity ∧
      f.pass.statesLeft - activeCount f.pass.states = f.statesLeft - activeCount f.states := by
  obtain ⟨states', hstates, hpass, hleft⟩ :=
    pass_fillPass f.capacity f.states [] f.capacity f.totalWeight f.statesLeft
  rw [List.nil_append] at hstates
  unfold Filling.pass
  rw [hstates]
  exact ⟨hpass, hleft⟩

theorem Filling.Ok.pass (h : f.Ok total) : f.pass.Ok total := by
  obtain ⟨hpass, hleft⟩ := f.pass_spec
  obtain ⟨hok, hc, hsum, -⟩ := hpass.keeps h.states h.left
  have := h.conserves
  have := h.counts
  exact ⟨hok, hc, by omega, by omega⟩

/-- The deadlocked group, and what disabling it does. -/
theorem deadlockedGroup_spec {i : ℕ} (h : f.deadlockedGroup byTime = some i) :
    ∃ before st after, f.states = before ++ st :: after ∧ f.states[i]? = some st ∧
      st.deadlocked = true ∧ (f.disable i).states = before ++ st.disable :: after ∧
      (f.disable i).capacity = f.capacity + st.offered := by
  have hany := List.find?_some h
  obtain ⟨st, hst, hdead⟩ := Option.any_eq_true .. |>.mp hany
  obtain ⟨hi, -⟩ := List.getElem?_eq_some_iff.mp hst
  obtain ⟨before, st', after, hstates, hlen, hmod⟩ := List.exists_of_modify OfferState.disable hi
  have heq : st' = st := by
    rw [hstates, ← hlen] at hst
    simpa using hst
  subst heq
  exact ⟨before, st', after, hstates, hst, hdead, hmod, by simp [Filling.disable, hst]⟩

/-- What is left to do: the groups that can still be disabled, then the offers that can move. -/
def Filling.rank (f : Filling) : ℕ ×ₗ ℕ := toLex (enabledCount f.states, (toGoSum f.states).toNat)

theorem toGoSum_nonneg (hok : ∀ st ∈ states, st.Ok) : 0 ≤ toGoSum states := by
  refine List.sum_nonneg fun x hx => ?_
  obtain ⟨st, hst, rfl⟩ := List.mem_map.mp hx
  exact (hok st hst).toGo_nonneg

theorem OfferState.active_of_deadlocked {st : OfferState} (h : st.deadlocked = true) :
    st.active = true := by
  rw [OfferState.deadlocked, Bool.and_eq_true] at h
  exact h.1

/-- Disabling a group without presubscribed slots keeps the groups right. -/
theorem Filling.Ok.disable (h : f.Ok total) {i : ℕ} (hi : f.deadlockedGroup byTime = some i)
    (hpre : ∀ st, f.states[i]? = some st → st.presubscribedSlots = 0) :
    (f.disable i).Ok total ∧ enabledCount (f.disable i).states < enabledCount f.states := by
  obtain ⟨before, st, after, hstates, hst, hdead, hstates', hcap'⟩ := deadlockedGroup_spec hi
  have ha := OfferState.active_of_deadlocked hdead
  obtain ⟨hen, hne⟩ := OfferState.active_iff.mp ha
  have hpre0 := hpre st hst
  have hok : ∀ x ∈ before ++ st :: after, x.Ok := hstates ▸ h.states
  have hstok : st.Ok := hok st (by simp)
  have hnn := hstok.nonneg hne
  have hleft := h.left
  have hdis : st.disable.active = false := by simp [OfferState.active, OfferState.disable]
  refine ⟨⟨?_, ?_, ?_, ?_⟩, ?_⟩
  · rw [hstates']
    intro x hx
    rcases List.mem_append.mp hx with hx | hx
    · exact hok x (List.mem_append_left _ hx)
    · rcases List.mem_cons.mp hx with rfl | hx
      · refine ⟨hstok.presubscribed, hstok.preoffers, fun _ => hpre0, fun _ => le_refl _, ?_, ?_, ?_⟩
        · exact fun hne => absurd hpre0 hne
        · exact le_max_of_le_left hstok.presubscribed
        · simp [OfferState.disable]
      · exact hok x (List.mem_append_right _ (List.mem_cons_of_mem _ hx))
  · rw [hcap']
    omega
  · have hsum := h.conserves
    rw [hstates] at hsum
    rw [hstates', hcap']
    simp only [offeredSum, List.map_append, List.map_cons, List.sum_append, List.sum_cons,
      OfferState.disable] at hsum ⊢
    omega
  · have hcount := h.counts
    rw [hstates] at hcount
    rw [hstates']
    simp only [activeCount, List.countP_append, List.countP_cons, ha, hdis, Filling.disable] at hcount ⊢
    simp only [if_true, Bool.false_eq_true, if_false] at hcount ⊢
    omega
  · rw [hstates', hstates]
    simp only [enabledCount, List.countP_append, List.countP_cons, hen, OfferState.disable]
    simp

/-- The loop goes on after disabling a deadlocked group, or with the slots a pass left. -/
theorem fillBody_inl (hb : fillBody byTime f = .inl t) :
    (f.pass.capacity = 0 ∧ ∃ i, f.pass.deadlockedGroup byTime = some i ∧ t = f.pass.disable i) ∨
      f.pass.capacity ≠ 0 ∧ f.progressMade = true ∧ t = f.pass := by
  unfold fillBody at hb
  split at hb
  · dsimp only at hb
    split at hb
    · rename_i hcap
      split at hb
      · rename_i i hi
        exact .inl ⟨hcap, i, hi, (Sum.inl.inj hb).symm⟩
      · cases hb
    · rename_i hcap
      split at hb
      · rename_i hprog
        exact .inr ⟨hcap, hprog, (Sum.inl.inj hb).symm⟩
      · cases hb
  · cases hb

/-- The loop returns the states it has when all groups are counted off, or those a pass left. -/
theorem fillBody_inr {offers : List OfferState} (hb : fillBody byTime f = .inr offers) :
    offers = f.states ∧ f.statesLeft ≤ 0 ∨ offers = f.pass.states := by
  unfold fillBody at hb
  split at hb
  · dsimp only at hb
    split at hb
    · split at hb
      · cases hb
      · exact .inr (Sum.inr.inj hb).symm
    · split at hb
      · cases hb
      · exact .inr (Sum.inr.inj hb).symm
  · rename_i hleft
    exact .inl ⟨(Sum.inr.inj hb).symm, not_lt.mp hleft⟩

/-- A step of the loop that neither takes presubscribed slots nor is endless keeps the invariant and
    lowers the rank. -/
theorem Filling.Ok.next (h : f.Ok total) (htake : f.takesPresubscribed byTime = false)
    (hend : f.endless = false) (hb : fillBody byTime f = .inl t) : t.Ok total ∧ t.rank < f.rank := by
  obtain ⟨hpass, -⟩ := f.pass_spec
  have hok := h.pass
  obtain ⟨-, -, -, hcount⟩ := hpass.keeps h.states h.left
  rcases fillBody_inl hb with ⟨hcap, i, hi, rfl⟩ | ⟨hcap, hprog, rfl⟩
  · have hpre : ∀ st, f.pass.states[i]? = some st → st.presubscribedSlots = 0 := by
      intro st hst
      simpa [takesPresubscribed, hcap, hi, hst] using htake
    obtain ⟨hok', hlt⟩ := hok.disable hi hpre
    exact ⟨hok', Prod.Lex.left _ _ (hcount ▸ hlt)⟩
  · refine ⟨hok, ?_⟩
    rw [rank, rank, hcount]
    refine Prod.Lex.right _ ?_
    rcases hpass.progresses h.states h.left with hlt | ⟨-, hsame, hor⟩
    · have := toGoSum_nonneg hok.states
      omega
    · -- nothing moved: there were no slots, or the filling is endless
      rw [hsame] at hcap
      rcases hor with h0 | hall
      · exact absurd h0 hcap
      · have hall' : (f.states.all fun st => !st.active || st.stuck) = true := by
          rw [List.all_eq_true]
          intro st hst
          cases ha : st.active with
          | false => rfl
          | true => exact hall st hst ha
        simp [endless, hcap, hprog, hall'] at hend

/-- The offers keep to the capacity, to what already runs and to the demands. -/
def WithinLimits (capacity : ℤ) (offers : List OfferState) : Prop :=
  offeredSum offers ≤ capacity ∧ ∀ st ∈ offers,
    (st.presubscribedSlots ≠ 0 → st.presubscribedSlots ≤ st.offered) ∧
      st.offered ≤ max st.presubscribedSlots st.slotDemand

theorem Filling.Ok.withinLimits (h : f.Ok total) : WithinLimits total f.states := by
  have := h.conserves
  have := h.left
  exact ⟨by omega, fun st hst => ⟨(h.states st hst).atLeast, (h.states st hst).atMost⟩⟩

theorem Filling.Ok.stop (h : f.Ok total) {offers : List OfferState}
    (hb : fillBody byTime f = .inr offers) : WithinLimits total offers := by
  rcases fillBody_inr hb with ⟨rfl, -⟩ | rfl
  · exact h.withinLimits
  · exact h.pass.withinLimits

/-! ### What goes wrong -/

/-- A group lost slots it has presubscribed. -/
def Lost (states : List OfferState) : Prop :=
  ∃ st ∈ states, st.disabled = true ∧ st.presubscribedSlots ≠ 0 ∧
    st.offered < st.presubscribedSlots

theorem Lost.not_withinLimits (h : Lost states) (capacity : ℤ) : ¬ WithinLimits capacity states := by
  obtain ⟨st, hst, -, hpre, hlt⟩ := h
  exact fun hw => absurd ((hw.2 st hst).1 hpre) (not_le.mpr hlt)

theorem Lost.pass (h : Lost f.states) : Lost f.pass.states := by
  obtain ⟨st, hst, hdis, hrest⟩ := h
  exact ⟨st, f.pass_spec.1.mem_of_inactive hst (by simp [OfferState.active, hdis]), hdis, hrest⟩

theorem Lost.disable (h : Lost f.states) {i : ℕ} (hi : f.deadlockedGroup byTime = some i) :
    Lost (f.disable i).states := by
  obtain ⟨before, st, after, hstates, -, hdead, hstates', -⟩ := deadlockedGroup_spec hi
  obtain ⟨hen, -⟩ := OfferState.active_iff.mp (OfferState.active_of_deadlocked hdead)
  obtain ⟨x, hx, hdis, hrest⟩ := h
  refine ⟨x, ?_, hdis, hrest⟩
  rw [hstates] at hx
  rw [hstates']
  rcases List.mem_append.mp hx with hx | hx
  · exact List.mem_append_left _ hx
  · rcases List.mem_cons.mp hx with rfl | hx
    · rw [hen] at hdis; cases hdis
    · exact List.mem_append_right _ (List.mem_cons_of_mem _ hx)

/-- Slots that were lost stay lost until the loop returns. -/
theorem Lost.returns (h : Lost f.states) {offers : List OfferState}
    (hr : Returns (fillBody byTime) f offers) : Lost offers := by
  refine hr.invariant (I := fun f => Lost f.states) ?_ ?_ h
  · intro f t hf hb
    rcases fillBody_inl hb with ⟨-, i, hi, rfl⟩ | ⟨-, -, rfl⟩
    · exact hf.pass.disable hi
    · exact hf.pass
  · intro f offers hf hb
    rcases fillBody_inr hb with ⟨rfl, -⟩ | rfl
    · exact hf
    · exact hf.pass

theorem progressMade_iff : f.progressMade = true ↔ 0 < activeCount f.states := by
  rw [Filling.progressMade, List.any_eq_true, activeCount, Int.natCast_pos, List.countP_pos_iff]

/-- A round that takes presubscribed slots away loses them. -/
theorem lost_of_takesPresubscribed (h : f.Ok total) (htake : f.takesPresubscribed byTime = true)
    {offers : List OfferState} (hr : Returns (fillBody byTime) f offers) : Lost offers := by
  simp only [Filling.takesPresubscribed, Bool.and_eq_true, beq_iff_eq, Option.any_eq_true,
    bne_iff_ne] at htake
  obtain ⟨hcap, i, hi, st, hst, hpre⟩ := htake
  obtain ⟨before, st', after, hstates, hst', hdead, hstates', -⟩ := deadlockedGroup_spec hi
  cases Option.some.inj (hst.symm.trans hst')
  have hmem : st ∈ f.pass.states := by simp [hstates]
  have hcounts := h.counts
  have hpos := progressMade_iff.mp
    (List.any_eq_true.mpr ⟨st, hmem, OfferState.active_of_deadlocked hdead⟩)
  have hle := f.pass_spec.1.activeCount_le
  have hb : fillBody byTime f = .inl (f.pass.disable i) := by
    unfold fillBody
    rw [if_pos (by omega)]
    simp [hcap, hi]
  refine Lost.returns ?_ ((returns_next_iff hb).mp hr)
  refine ⟨st.disable, by simp [hstates'], rfl, hpre, ?_⟩
  have := (h.pass.states st hmem).presubscribed
  show (0 : ℤ) < st.presubscribedSlots
  omega

theorem endless_iff : f.endless = true ↔ f.capacity ≠ 0 ∧ 0 < activeCount f.states ∧
    ∀ st ∈ f.states, st.active = true → st.stuck = true := by
  simp only [Filling.endless, Bool.and_eq_true, bne_iff_ne, progressMade_iff, List.all_eq_true,
    Bool.or_eq_true, Bool.not_eq_true']
  refine and_assoc.trans (and_congr_right fun _ => and_congr_right fun _ => ?_)
  refine forall₂_congr fun st _ => ?_
  cases st.active <;> simp

/-- An endless round is followed by another. -/
theorem fillBody_of_endless (byTime : List ℕ) (h : f.Ok total) (hend : f.endless = true) :
    fillBody byTime f = .inl f.pass ∧ f.pass.endless = true := by
  obtain ⟨hcap, hcount, hall⟩ := endless_iff.mp hend
  obtain ⟨hcap', hall', hcount'⟩ := f.pass_spec.1.all_stuck h.states h.left hall
  have hcounts := h.counts
  constructor
  · unfold fillBody
    rw [if_pos (by omega)]
    simp [hcap', hcap, progressMade_iff.mpr hcount]
  · exact endless_iff.mpr ⟨hcap' ▸ hcap, hcount' ▸ hcount, hall'⟩

/-- An endless filling does not return. -/
theorem not_returns_of_endless (h : f.Ok total) (hend : f.endless = true) (offers : List OfferState) :
    ¬ Returns (fillBody byTime) f offers := by
  intro hr
  refine hr.invariant (I := fun f => f.Ok total ∧ f.endless = true) (P := fun _ => False) ?_ ?_
    ⟨h, hend⟩
  · rintro f t ⟨hok, hend⟩ hb
    obtain ⟨hb', hend'⟩ := fillBody_of_endless byTime hok hend
    cases hb.symm.trans hb'
    exact ⟨hok.pass, hend'⟩
  · rintro f offers ⟨hok, hend⟩ hb
    obtain ⟨hb', -⟩ := fillBody_of_endless byTime hok hend
    cases hb.symm.trans hb'

/-! ### The group states the offers start from -/

/-- A group state that was offered nothing yet. -/
structure GroupState.Fresh (st : GroupState) : Prop where
  disabled : st.disabled = false
  offered : st.offered = 0
  presubscribed : 0 ≤ st.presubscribedSlots

theorem fresh_addReq {group : Group} {req : AllocateRequest} {states : List (String × GroupState)}
    (h : ∀ p ∈ states, p.2.Fresh) : ∀ p ∈ addReq group req states, p.2.Fresh := by
  induction states with
  | nil =>
    intro p hp
    rw [List.mem_singleton.mp hp]
    exact ⟨rfl, rfl, le_refl _⟩
  | cons entry states ih =>
    obtain ⟨hst, hrest⟩ := List.forall_mem_cons.mp h
    unfold addReq
    split
    · exact List.forall_mem_cons.mpr ⟨⟨hst.disabled, hst.offered, hst.presubscribed⟩, hrest⟩
    · exact List.forall_mem_cons.mpr ⟨hst, ih hrest⟩

theorem fresh_countReq {allocations : ℕ → Option ℕ} {st : GroupState} {req : AllocateRequest}
    (h : st.Fresh) : (countReq allocations st req).Fresh := by
  have hpre := h.presubscribed
  unfold countReq
  split
  · exact ⟨h.disabled, h.offered, hpre⟩
  · exact ⟨h.disabled, h.offered, hpre⟩
  · refine ⟨h.disabled, h.offered, ?_⟩
    dsimp only
    split <;> omega

theorem fresh_countReqs {allocations : ℕ → Option ℕ} {st : GroupState} (h : st.Fresh) :
    (countReqs allocations st).Fresh := by
  have hfold : ∀ (reqs : List AllocateRequest) {st : GroupState}, st.Fresh →
      (reqs.foldl (countReq allocations) st).Fresh := by
    intro reqs
    induction reqs with
    | nil => exact fun h => h
    | cons req reqs ih => exact fun h => ih (fresh_countReq h)
  have hf := hfold st.reqs h
  unfold countReqs
  dsimp only
  split
  · exact hf
  · exact ⟨hf.disabled, hf.offered, hf.presubscribed⟩

theorem fresh_fileReq {groups : List Group} (reqs : List AllocateRequest) :
    ∀ {states : List (String × GroupState)}, (∀ p ∈ states, p.2.Fresh) →
      ∀ p ∈ reqs.foldl (fileReq groups) states, p.2.Fresh := by
  induction reqs with
  | nil => exact fun h => h
  | cons req reqs ih =>
    intro states h
    refine ih ?_
    unfold fileReq
    split
    · exact fresh_addReq h
    · exact h

theorem fresh_calculateGroupStates {taskList : TaskList} {groups : List Group}
    {capacities : String → ℤ} {states : String → List GroupState}
    (h : calculateGroupStates taskList groups capacities = .ok states) (label : String) :
    ∀ st ∈ states label, st.Fresh := by
  unfold calculateGroupStates at h
  dsimp only at h
  split at h
  · cases h
  · cases h
    intro st hst
    obtain ⟨p, hp, rfl⟩ := List.mem_map.mp hst
    exact fresh_countReqs (fresh_fileReq _ (by simp) p (List.mem_filter.mp hp).1)

theorem ok_preoffer {st : GroupState} (h : st.Fresh) : (preoffer st).Ok := by
  have hpre := h.presubscribed
  unfold preoffer
  split
  · rename_i h0
    refine ⟨hpre, le_refl _, by simp [h.disabled], ?_, ?_, ?_, ?_⟩ <;> simp [h.offered, h0]
  · rename_i h0
    refine ⟨hpre, hpre, by simp [h.disabled], fun _ => hpre, fun _ => le_refl _, ?_, ?_⟩
    · exact le_max_left _ _
    · exact fun _ _ => .inl ⟨h0, lt_of_le_of_ne hpre (Ne.symm h0)⟩

theorem preoffer_offered {st : GroupState} (h : st.Fresh) :
    (preoffer st).offered = st.presubscribedSlots := by
  unfold preoffer
  split
  · rename_i h0
    rw [h0]
    exact h.offered
  · rfl

variable {groupStates : List GroupState}

/-- The loop starts right if the presubscribed slots fit the capacity. -/
theorem SortedStates.ok_start (order : SortedStates groupStates) (h : ∀ st ∈ groupStates, st.Fresh)
    {capacity : ℤ} (hfit : (groupStates.map (·.presubscribedSlots)).sum ≤ capacity) :
    (order.start capacity).Ok capacity := by
  have hok : ∀ st ∈ order.sorted, st.Ok := by
    intro st hst
    obtain ⟨g, hg, rfl⟩ := List.mem_map.mp (order.sorted_perm.mem_iff.mp hst)
    exact ok_preoffer (h g hg)
  have hsum : offeredSum order.sorted = (groupStates.map (·.presubscribedSlots)).sum := by
    rw [offeredSum, (order.sorted_perm.map _).sum_eq, List.map_map]
    exact congrArg List.sum (List.map_congr_left fun g hg => preoffer_offered (h g hg))
  refine ⟨hok, ?_, ?_, ?_⟩
  · simp only [SortedStates.start]
    omega
  · simp only [SortedStates.start]
    omega
  · have := order.sorted.countP_le_length (p := (·.active))
    simp only [SortedStates.start, activeCount]
    omega

/-- A group runs a two-slot task that cannot be preempted, and waits to run another task; a second
    group waits to run four one-slot tasks. -/
def twoGroupTasks (pending : ℕ) : TaskList where
  tasks := [⟨0, 2, "", 0, true⟩, ⟨1, pending, "", 0, false⟩, ⟨2, 1, "", 1, false⟩,
    ⟨3, 1, "", 1, false⟩, ⟨4, 1, "", 1, false⟩, ⟨5, 1, "", 1, false⟩]
  allocations i := if i = 0 then some 1 else none

def twoGroups : List Group := [⟨0, 1, none, 1⟩, ⟨1, 0, none, 1⟩]

def fourSlots (_label : String) : ℤ := 4

/-- The orders of two groups of which the second is filled first and was registered first. -/
def secondFirst {a b : GroupState} (h : groupStates = [a, b])
    (hn : ¬ (preoffer a).before (preoffer b)) : SortedStates groupStates where
  sorted := [preoffer b, preoffer a]
  sorted_perm := by rw [h]; exact .swap _ _ _
  sorted_ordered := by simp [hn]
  byTime := [1, 0]
  byTime_perm := .swap _ _ _

/-- Check a filling by running it. -/
theorem fine_of_loopAll (n : ℕ) (h : loopAll (fillBody byTime)
    (fun round => !round.takesPresubscribed byTime && !round.endless) n f = true) :
    ∀ round, Visits (fillBody byTime) f round →
      round.takesPresubscribed byTime = false ∧ round.endless = false := by
  simpa using forall_visits_of_loopAll h

end Determined.Scheduler
