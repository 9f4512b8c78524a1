import Determined.Provisioner.ScaleDecider

/-! The bounds that the decisions of the provisioner keep.

    The instances selected for termination are a set that is filled: first with the stopped and the
    long disconnected instances, then with long idle ones while more than the minimum are left, then
    with others while more than the maximum are left. What is left is counted by subtracting the
    size of the whole selection from the number of instances that are running or starting. The
    stopped instances are in the selection but not among those, so that with any of them too few
    others are selected. -/

namespace Determined.Provisioner
open Determined.Schemes

/-! ### The selection as a set -/

/-- The instances of a selection. -/
def Selection.ids (sel : Selection) : Finset String := sel.keys.toFinset

namespace Selection

variable {sel : Selection}

theorem card_ids : sel.ids.card = sel.keys.length := List.toFinset_card_of_nodup sel.keys_nodup

theorem mem_ids {id : String} : id ∈ sel.ids ↔ id ∈ sel := by
  rw [ids, List.mem_toFinset, AList.mem_keys]

@[simp] theorem ids_empty : ids ∅ = ∅ := rfl

@[simp] theorem ids_insert (id : String) (reason : Reason) :
    ids (sel.insert id reason) = insert id sel.ids := by
  ext x
  rw [mem_ids, AList.mem_insert, Finset.mem_insert, mem_ids]

end Selection

namespace ScaleDecider

variable {sel : Selection} {total bound : ℕ} {reason : Reason} {ids : List String}

theorem ids_terminateAll : (terminateAll reason ids sel).ids = sel.ids ∪ ids.toFinset := by
  induction ids generalizing sel with
  | nil => simp [terminateAll]
  | cons id ids ih =>
    rw [terminateAll, List.foldl_cons, ← terminateAll, ih, Selection.ids_insert, List.toFinset_cons,
      Finset.insert_union, Finset.union_insert]

theorem reason_terminateAll {id : String} {r : Reason}
    (h : (terminateAll reason ids sel).lookup id = some r) :
    r = reason ∨ sel.lookup id = some r := by
  induction ids generalizing sel with
  | nil => exact .inr h
  | cons i ids ih =>
    rcases ih h with hr | hr
    · exact .inl hr
    · by_cases hid : id = i
      · subst hid
        rw [AList.lookup_insert] at hr
        exact .inl (Option.some.inj hr).symm
      · rw [AList.lookup_insert_ne hid] at hr
        exact .inr hr

/-- The loop fills the selection up to what exceeds the bound. -/
theorem ids_terminateAbove : (terminateAbove total bound reason ids sel).1.ids =
    fill (total - bound) ids sel.ids := by
  induction ids generalizing sel with
  | nil => rfl
  | cons id ids ih =>
    rw [terminateAbove, fill, Selection.card_ids]
    by_cases h : sel.keys.length < total - bound
    · rw [if_pos (by omega), if_pos h, ih, Selection.ids_insert]
    · rw [if_neg (by omega), if_neg h]

/-- Nothing is selected once enough is. -/
theorem terminateAbove_of_le (h : total - bound ≤ sel.ids.card) :
    terminateAbove total bound reason ids sel = (sel, []) := by
  cases ids with
  | nil => rfl
  | cons id ids =>
    rw [Selection.card_ids] at h
    rw [terminateAbove, if_neg (by omega)]

/-! ### The instances by their status -/

variable {s : ScaleDecider} {now : ℤ} {p q : Status → Bool}

/-- The snapshot is the listing, in another order if it was not replaced. -/
theorem updateInstanceSnapshot_perm (s : ScaleDecider) (listing : Listing) :
    (s.updateInstanceSnapshot listing).1.instanceSnapshot.instances.Perm listing.instances := by
  rw [updateInstanceSnapshot]
  split
  · rfl
  · rename_i hlength
    split
    · rfl
    · rename_i hany
      have hsub : listing.instances ⊆ s.instanceSnapshot.instances := by
        intro inst hinst
        simp only [List.any_eq_true, not_exists, not_and, bne_iff_ne, ne_eq, not_not] at hany
        exact List.mem_of_find?_eq_some (hany inst hinst)
      have hnodup := List.Nodup.of_map _ listing.nodup
      exact ((hnodup.subperm hsub).perm_of_length_le (by omega)).symm

theorem idsWith_nodup (s : ScaleDecider) (now : ℤ) (p : Status → Bool) : (s.idsWith now p).Nodup :=
  s.instanceSnapshot.nodup.sublist (List.filter_sublist.map _)

theorem card_idsWith : (s.idsWith now p).toFinset.card =
    s.instanceSnapshot.instances.countP fun inst => p (s.status now inst) := by
  rw [List.toFinset_card_of_nodup (s.idsWith_nodup now p), idsWith, List.length_map,
    List.countP_eq_length_filter]

theorem mem_idsWith {id : String} : id ∈ s.idsWith now p ↔
    ∃ inst ∈ s.instanceSnapshot.instances, p (s.status now inst) = true ∧ inst.id = id := by
  simp [idsWith, and_assoc]

theorem idsWith_subset (h : ∀ st, p st = true → q st = true) :
    (s.idsWith now p).toFinset ⊆ (s.idsWith now q).toFinset := by
  intro id hid
  rw [List.mem_toFinset, mem_idsWith] at hid ⊢
  obtain ⟨inst, hinst, hp, rfl⟩ := hid
  exact ⟨inst, hinst, h _ hp, rfl⟩

/-- An instance has one status. -/
theorem idsWith_disjoint (h : ∀ st, p st = true → q st = true → False) :
    Disjoint (s.idsWith now p).toFinset (s.idsWith now q).toFinset := by
  rw [Finset.disjoint_left]
  intro id hp hq
  rw [List.mem_toFinset, mem_idsWith] at hp hq
  obtain ⟨inst, hinst, hp, rfl⟩ := hp
  obtain ⟨inst', hinst', hq, hid⟩ := hq
  obtain rfl := List.inj_on_of_nodup_map s.instanceSnapshot.nodup hinst' hinst hid
  exact h _ hp hq

theorem keys_timesOf (since : Status → Option ℤ) :
    (s.timesOf now since).map (·.1) = s.idsWith now fun st => (since st).isSome := by
  rw [timesOf, idsWith]
  induction s.instanceSnapshot.instances with
  | nil => rfl
  | cons inst l ih =>
    rw [List.filterMap_cons, List.filter_cons]
    cases since (s.status now inst) <;> simp [ih]

end ScaleDecider

/-! ### Counting what is left -/

section
variable {I S D L P : Finset String} {m M : ℕ} {long requested rest : List String}

/-- The instances that are selected: `I` are those that count, of which `D` are long disconnected,
    `L` long idle and `P` requested, and `S` are the stopped ones. -/
structure Filled (I S D L P : Finset String) (m M : ℕ) (T₁ T₂ T : Finset String) : Prop where
  stopped : Disjoint S I
  disconnected : D ⊆ I
  idle : L ⊆ I
  requested : P ⊆ I
  disconnected_idle : Disjoint D L
  requested_disconnected : Disjoint P D
  requested_idle : Disjoint P L
  long : ∃ l : List String, l.toFinset = L ∧ T₁ = fill (I.card - m) l (S ∪ D)
  pending : ∃ l : List String, l.toFinset = P ∧ T₂ = fill (I.card - M) l T₁
  rest : ∃ l : List String, l.toFinset = I ∧ T = fill (I.card - M) l T₂

namespace Filled

variable {T₁ T₂ T : Finset String} (h : Filled I S D L P m M T₁ T₂ T)

include h

theorem card_stopped_disconnected : (S ∪ D).card = S.card + D.card :=
  Finset.card_union_of_disjoint (h.stopped.mono_right h.disconnected)

theorem card_long :
    T₁.card = max (S.card + D.card) (min (I.card - m) (S.card + D.card + L.card)) := by
  obtain ⟨l, rfl, rfl⟩ := h.long
  have hdisj : Disjoint (S ∪ D) l.toFinset :=
    Finset.disjoint_union_left.mpr ⟨h.stopped.mono_right h.idle, h.disconnected_idle⟩
  rw [card_fill, Finset.card_union_of_disjoint hdisj, h.card_stopped_disconnected]

theorem subset_long : S ∪ D ⊆ T₁ := by
  obtain ⟨l, -, rfl⟩ := h.long
  exact subset_fill

theorem long_subset : T₁ ⊆ S ∪ D ∪ L := by
  obtain ⟨l, rfl, rfl⟩ := h.long
  exact fill_subset

theorem long_subset_pending : T₁ ⊆ T₂ := by
  obtain ⟨l, -, rfl⟩ := h.pending
  exact subset_fill

theorem pending_subset : T₂ ⊆ T₁ ∪ P := by
  obtain ⟨l, rfl, rfl⟩ := h.pending
  exact fill_subset

theorem pending_subset_rest : T₂ ⊆ T := by
  obtain ⟨l, -, rfl⟩ := h.rest
  exact subset_fill

theorem stopped_subset : S ⊆ T :=
  Finset.subset_union_left.trans
    (h.subset_long.trans (h.long_subset_pending.trans h.pending_subset_rest))

/-- Nothing but stopped instances and those that count are selected. -/
theorem subset : T ⊆ S ∪ I := by
  obtain ⟨l, rfl, rfl⟩ := h.rest
  have hD := h.disconnected
  have hL := h.idle
  have hP := h.requested
  have h₁ := h.long_subset
  have h₂ := h.pending_subset
  refine fill_subset.trans (Finset.union_subset (h₂.trans (Finset.union_subset (h₁.trans ?_) ?_))
    Finset.subset_union_right)
  · exact Finset.union_subset (Finset.union_subset_union_right hD)
      (hL.trans Finset.subset_union_right)
  · exact hP.trans Finset.subset_union_right

/-- The selection grows to what exceeds the maximum, unless it is larger already. -/
theorem card_eq : T.card = max T₁.card (I.card - M) := by
  obtain ⟨l, -, rfl⟩ := h.pending
  obtain ⟨l', hrest, rfl⟩ := h.rest
  have hcard : I.card ≤ (T₁ ∪ (l ++ l').toFinset).card := by
    refine Finset.card_le_card ?_
    rw [List.toFinset_append, hrest]
    exact Finset.subset_union_right.trans Finset.subset_union_right
  rw [← fill_append, card_fill]
  omega

/-- What is left falls short of the difference of the sizes by the stopped instances. -/
theorem card_left (U : Finset String) (hS : S ⊆ U) (hU : U ⊆ S ∪ I) :
    (I \ U).card + U.card = I.card + S.card := by
  have hsplit : U = S ∪ U ∩ I := by
    rw [Finset.union_inter_distrib_left, Finset.union_eq_right.mpr hS,
      Finset.inter_eq_left.mpr hU]
  have hdisj : Disjoint S (U ∩ I) := h.stopped.mono_right Finset.inter_subset_right
  have hcard : U.card = S.card + (U ∩ I).card := by
    rw [← Finset.card_union_of_disjoint hdisj, ← hsplit]
  have hinter := Finset.card_sdiff_add_card_inter I U
  rw [Finset.inter_comm] at hinter
  omega

/-- No requested instance is idle or disconnected. -/
theorem disjoint_requested : Disjoint T₁ P := by
  refine Disjoint.mono_left h.long_subset ?_
  rw [Finset.disjoint_union_left, Finset.disjoint_union_left]
  exact ⟨⟨h.stopped.mono_right h.requested, h.requested_disconnected.symm⟩, h.requested_idle.symm⟩

/-- The requested instances are the first that are in excess: they are all selected, or nothing
    else is. -/
theorem requested_first : P ⊆ T ∨ T ⊆ T₁ ∪ P ∧ I.card - M < T₁.card + P.card := by
  by_cases hP : P ⊆ T
  · exact .inl hP
  · have hroom : I.card - M ≤ T₂.card := by
      obtain ⟨l, rfl, rfl⟩ := h.pending
      exact subset_fill_or_le.resolve_left fun hall => hP (hall.trans h.pending_subset_rest)
    have heq : T = T₂ := by
      obtain ⟨l, -, rfl⟩ := h.rest
      exact fill_of_le hroom
    have hssubset : T₂ ⊂ T₁ ∪ P := by
      refine ⟨h.pending_subset, fun hsub => hP ?_⟩
      rw [heq]
      exact Finset.subset_union_right.trans hsub
    have hcard := Finset.card_lt_card hssubset
    rw [Finset.card_union_of_disjoint h.disjoint_requested] at hcard
    exact .inr ⟨heq ▸ h.pending_subset, by omega⟩

/-- How many of the instances that are not only requested are left. -/
theorem card_live : ((I \ P) \ T).card = min (I.card + S.card - T.card)
    (I.card + S.card - T₁.card - P.card) := by
  have hlong : T₁ ⊆ T := h.long_subset_pending.trans h.pending_subset_rest
  have hunion := Finset.card_union_of_disjoint h.disjoint_requested
  rcases h.requested_first with hP | ⟨hT, -⟩
  · have hsdiff : (I \ P) \ T = I \ T := by
      rw [sdiff_sdiff, sup_eq_right.mpr hP]
    have hleft := h.card_left T h.stopped_subset h.subset
    have hle := Finset.card_le_card (Finset.union_subset hlong hP)
    rw [hsdiff]
    omega
  · have hsdiff : (I \ P) \ T = (I \ T₁) \ P := by
      refine Finset.Subset.antisymm ?_ ?_
      · rw [sdiff_sdiff, sdiff_sdiff, sup_comm]
        exact sdiff_le_sdiff_left (sup_le_sup_right hlong P)
      · rw [sdiff_sdiff, sdiff_sdiff]
        exact sdiff_le_sdiff_left (sup_le le_sup_right hT)
    have hleft := h.card_left T₁ (Finset.subset_union_left.trans h.subset_long)
      (hlong.trans h.subset)
    have hsub : P ⊆ I \ T₁ := fun id hid => Finset.mem_sdiff.mpr
      ⟨h.requested hid, Finset.disjoint_right.mp h.disjoint_requested hid⟩
    have hle := Finset.card_le_card hT
    rw [hsdiff, Finset.card_sdiff_of_subset hsub]
    omega

theorem card_left_eq : (I \ T).card + T.card = I.card + S.card :=
  h.card_left T h.stopped_subset h.subset

omit h in
theorem card_live_le : ((I \ P) \ T).card ≤ I.card :=
  Finset.card_le_card (Finset.sdiff_subset.trans Finset.sdiff_subset)

/-- More than the maximum are left only where stopped instances are taken for others. -/
theorem card_live_le_iff (hI : M < I.card) : ((I \ P) \ T).card ≤ M ↔ S.card = 0 ∨
    I.card ≤ M + P.card + D.card + min L.card (I.card - m - S.card - D.card) := by
  have hleft := h.card_left_eq
  have hT := h.card_eq
  have hT₁ : T₁.card = S.card + D.card + min L.card (I.card - m - S.card - D.card) := by
    have := h.card_long
    omega
  rw [h.card_live]
  generalize min L.card (I.card - m - S.card - D.card) = idle at *
  omega

/-- Where not too many are selected from the start, the minimum is left. -/
theorem le_card_left (hm : m ≤ M) (hlt : (S ∪ D).card < I.card - m) : m ≤ (I \ T).card := by
  have hleft := h.card_left_eq
  have hT := h.card_eq
  have hT₁ : T₁.card ≤ I.card - m := by
    have := h.card_long
    have := h.card_stopped_disconnected
    omega
  omega

end Filled

end

namespace ScaleDecider

variable {s : ScaleDecider} {now : ℤ} {w : Walk}

/-- The ids of some of the instances that have been in a status since some time. -/
theorem toFinset_visit_subset {reason : Reason} {since : Status → Option ℤ}
    {keep : String × ℤ → Bool} (h : ∀ st, (since st).isSome = true → st.isCounted = true) :
    (w.visit reason (((s.timesOf now since).filter keep).map (·.1))).toFinset ⊆
      (s.idsWith now (·.isCounted)).toFinset := by
  refine subset_trans ?_ (idsWith_subset h)
  rw [List.toFinset_eq_of_perm _ _ (w.visit_perm ..), ← keys_timesOf]
  intro id hid
  rw [List.mem_toFinset] at hid ⊢
  exact (List.filter_sublist.map _).subset hid

theorem length_instances (s : ScaleDecider) (now : ℤ) :
    (s.calculateInstanceStates now).instances.length =
      (s.idsWith now (·.isCounted)).toFinset.card := by
  rw [card_idsWith, List.countP_eq_length_filter]
  rfl

/-- The decision to terminate fills the selection step by step. -/
theorem ids_findInstancesToTerminate (s : ScaleDecider) (now : ℤ) (w : Walk) :
    ∃ rest : List String, rest.toFinset = (s.idsWith now (·.isCounted)).toFinset ∧
      ((s.calculateInstanceStates now).findInstancesToTerminate w).2.ids =
        fill ((s.idsWith now (·.isCounted)).toFinset.card - s.config.maxInstanceNum) rest
          (fill ((s.idsWith now (·.isCounted)).toFinset.card - s.config.maxInstanceNum)
            (w.visit .instanceNumberExceedsMaximum (s.idsWith now (· == .requested)))
            (fill ((s.idsWith now (·.isCounted)).toFinset.card - s.config.minInstanceNum)
              (w.visit .longIdleInstances (s.idsWith now (·.isLongIdle)))
              ((s.idsWith now (· == .stopped)).toFinset ∪
                (s.idsWith now (·.isLongDisconnected)).toFinset))) := by
  have hlatest : ((w.latestFirst (s.calculateInstanceStates now).instances).map (·.id)).toFinset =
      (s.idsWith now (·.isCounted)).toFinset :=
    List.toFinset_eq_of_perm _ _ ((w.latestFirst_perm _).map _)
  simp only [findInstancesToTerminate, ids_terminateAbove, ids_terminateAll, length_instances,
    Selection.ids_empty, Finset.empty_union]
  refine ⟨_ ++ (_ ++ _), ?_, (fill_append.trans fill_append).symm⟩
  rw [List.toFinset_append, List.toFinset_append, hlatest]
  refine (congrArg _ (Finset.union_eq_right.mpr (toFinset_visit_subset fun st hst => ?_))).trans
    (Finset.union_eq_right.mpr (toFinset_visit_subset fun st hst => ?_))
  · cases st <;> simp_all [Status.disconnectedSince, Status.isCounted]
  · cases st <;> simp_all [Status.idleSince, Status.isCounted]

theorem findInstancesToTerminate_filled (s : ScaleDecider) (now : ℤ) (w : Walk) :
    ∃ T₁ T₂, Filled (s.idsWith now (·.isCounted)).toFinset (s.idsWith now (· == .stopped)).toFinset
      (s.idsWith now (·.isLongDisconnected)).toFinset (s.idsWith now (·.isLongIdle)).toFinset
      (s.idsWith now (· == .requested)).toFinset s.config.minInstanceNum s.config.maxInstanceNum
      T₁ T₂ ((s.calculateInstanceStates now).findInstancesToTerminate w).2.ids := by
  obtain ⟨rest, hrest, hids⟩ := ids_findInstancesToTerminate s now w
  have hvisit : ∀ reason ids, (w.visit reason ids).toFinset = ids.toFinset := fun reason ids =>
    List.toFinset_eq_of_perm _ _ (w.visit_perm reason ids)
  refine ⟨_, _, ?_, ?_, ?_, ?_, ?_, ?_, ?_, ⟨_, hvisit .., rfl⟩, ⟨_, hvisit .., rfl⟩,
    ⟨rest, hrest, hids⟩⟩
  · exact idsWith_disjoint fun st hp hq => by cases st <;> simp_all [Status.isCounted]
  · exact idsWith_subset fun st hp => by cases st <;> simp_all [Status.isLongDisconnected, Status.isCounted]
  · exact idsWith_subset fun st hp => by cases st <;> simp_all [Status.isLongIdle, Status.isCounted]
  · exact idsWith_subset fun st hp => by cases st <;> simp_all [Status.isCounted]
  · exact idsWith_disjoint fun st hp hq => by
      cases st <;> simp_all [Status.isLongDisconnected, Status.isLongIdle]
  · exact idsWith_disjoint fun st hp hq => by cases st <;> simp_all [Status.isLongDisconnected]
  · exact idsWith_disjoint fun st hp hq => by cases st <;> simp_all [Status.isLongIdle]

/-! ### What a decision keeps -/

/-- How many instances of a listing the decider finds in a status. -/
def countOf (s : ScaleDecider) (listing : Listing) (now : ℤ) (p : Status → Bool) : ℕ :=
  listing.instances.countP fun inst => p (s.status now inst)

theorem status_updateInstanceSnapshot (s : ScaleDecider) (listing : Listing) (now : ℤ)
    (inst : Instance) :
    (s.updateInstanceSnapshot listing).1.status now inst = s.status now inst := by
  rw [updateInstanceSnapshot]
  split_ifs <;> rfl

theorem config_updateInstanceSnapshot (s : ScaleDecider) (listing : Listing) :
    (s.updateInstanceSnapshot listing).1.config = s.config := by
  rw [updateInstanceSnapshot]
  split_ifs <;> rfl

/-- The sets of the decider are as large as the listing says. -/
theorem card_idsWith_updateInstanceSnapshot (listing : Listing) :
    ((s.updateInstanceSnapshot listing).1.idsWith now p).toFinset.card =
      s.countOf listing now p := by
  rw [card_idsWith, (updateInstanceSnapshot_perm s listing).countP_eq, countOf]
  simp only [status_updateInstanceSnapshot]

end ScaleDecider

/-- The instance is starting or running. -/
def Instance.isLive (inst : Instance) : Bool := inst.state == .starting || inst.state == .running

/-- The instance is starting or running, or has been requested. -/
def Instance.isCounted (inst : Instance) : Bool :=
  inst.isLive || inst.state == .spotRequestPendingAWS

/-- How many of the instances that meet a condition are not selected. -/
def Listing.left (listing : Listing) (p : Instance → Bool) (toTerminate : Selection) : ℕ :=
  listing.instances.countP fun inst => p inst && decide (inst.id ∉ toTerminate)

namespace ScaleDecider

variable {s : ScaleDecider} {now : ℤ} {w : Walk} {listing : Listing}

/-- The cluster is inside its bounds: with what is launched there are not more instances than the
    maximum, and not less than the minimum are left where idle or excess ones are terminated. -/
structure Decision.KeepsBounds (d : Decision) (config : Config) (listing : Listing) : Prop where
  atMost : (listing.left Instance.isLive d.toTerminate : ℤ) + d.numToLaunch ≤ config.maxInstanceNum
  atLeast : (∃ id, d.toTerminate.lookup id = some .longIdleInstances ∨
    d.toTerminate.lookup id = some .instanceNumberExceedsMaximum) →
      config.minInstanceNum ≤ listing.left Instance.isCounted d.toTerminate
  nodup : d.toTerminate.keys.Nodup

theorem isCounted_status (inst : Instance) : (s.status now inst).isCounted = inst.isCounted := by
  rw [status, Instance.isCounted, Instance.isLive]
  cases inst.state <;> simp only <;> (try split_ifs) <;> (try split) <;> rfl

theorem isRequested_status (inst : Instance) :
    (s.status now inst == .requested) = (inst.state == .spotRequestPendingAWS) := by
  rw [status]
  cases inst.state <;> simp only <;> (try split_ifs) <;> (try split) <;> rfl

/-- What is left of the instances that meet a condition is a difference of sets. -/
theorem left_eq (hperm : s.instanceSnapshot.instances.Perm listing.instances) (p : Instance → Bool)
    (toTerminate : Selection) : listing.left p toTerminate =
      (((s.instanceSnapshot.instances.filter p).map (·.id)).toFinset \ toTerminate.ids).card := by
  have hids : ((s.instanceSnapshot.instances.filter p).map (·.id)).toFinset \ toTerminate.ids =
      ((s.instanceSnapshot.instances.filter fun inst =>
        p inst && decide (inst.id ∉ toTerminate)).map (·.id)).toFinset := by
    ext id
    simp only [Finset.mem_sdiff, List.mem_toFinset, List.mem_map, List.mem_filter,
      Selection.mem_ids, Bool.and_eq_true, decide_eq_true_eq]
    constructor
    · rintro ⟨⟨inst, ⟨hinst, hp⟩, rfl⟩, hnot⟩
      exact ⟨inst, ⟨hinst, hp, hnot⟩, rfl⟩
    · rintro ⟨inst, ⟨hinst, hp, hnot⟩, rfl⟩
      exact ⟨⟨inst, ⟨hinst, hp⟩, rfl⟩, hnot⟩
  rw [hids, List.toFinset_card_of_nodup
    (s.instanceSnapshot.nodup.sublist (List.filter_sublist.map _)), List.length_map,
    ← List.countP_eq_length_filter, hperm.countP_eq, Listing.left]

theorem left_isCounted (hperm : s.instanceSnapshot.instances.Perm listing.instances)
    (toTerminate : Selection) : listing.left Instance.isCounted toTerminate =
      ((s.idsWith now (·.isCounted)).toFinset \ toTerminate.ids).card := by
  rw [left_eq hperm, idsWith]
  simp only [isCounted_status]

theorem left_isLive (hperm : s.instanceSnapshot.instances.Perm listing.instances)
    (toTerminate : Selection) : listing.left Instance.isLive toTerminate =
      (((s.idsWith now (·.isCounted)).toFinset \ (s.idsWith now (· == .requested)).toFinset) \
        toTerminate.ids).card := by
  have hlive : ((s.instanceSnapshot.instances.filter Instance.isLive).map (·.id)).toFinset =
      (s.idsWith now (·.isCounted)).toFinset \ (s.idsWith now (· == .requested)).toFinset := by
    ext id
    simp only [Finset.mem_sdiff, List.mem_toFinset, mem_idsWith, isCounted_status,
      isRequested_status, List.mem_map, List.mem_filter]
    constructor
    · rintro ⟨inst, ⟨hinst, hlive⟩, rfl⟩
      refine ⟨⟨inst, hinst, by simp [Instance.isCounted, hlive], rfl⟩, ?_⟩
      rintro ⟨inst', hinst', hrequested, hid⟩
      obtain rfl := List.inj_on_of_nodup_map s.instanceSnapshot.nodup hinst' hinst hid
      rw [beq_iff_eq] at hrequested
      simp [Instance.isLive, hrequested] at hlive
    · rintro ⟨⟨inst, hinst, hcounted, rfl⟩, hnot⟩
      refine ⟨inst, ⟨hinst, ?_⟩, rfl⟩
      rw [Instance.isCounted, Bool.or_eq_true] at hcounted
      exact hcounted.resolve_right fun hrequested => hnot ⟨inst, hinst, hrequested, rfl⟩
  rw [left_eq hperm, hlive]

/-! ### When the bounds are kept -/

/-- No instance is stopped, or no more than the maximum would be left without those that are only
    requested, long disconnected or, down to the minimum, long idle. -/
def Fits (s : ScaleDecider) (listing : Listing) (now : ℤ) : Prop :=
  s.countOf listing now (· == .stopped) = 0 ∨
    s.countOf listing now (·.isCounted) ≤ s.config.maxInstanceNum +
      s.countOf listing now (· == .requested) + s.countOf listing now (·.isLongDisconnected) +
        min (s.countOf listing now (·.isLongIdle)) (s.countOf listing now (·.isCounted) -
          s.config.minInstanceNum - s.countOf listing now (· == .stopped) -
            s.countOf listing now (·.isLongDisconnected))

instance (s : ScaleDecider) (listing : Listing) (now : ℤ) : Decidable (s.Fits listing now) := by
  unfold Fits
  infer_instance

/-- Where no more than the minimum would be left, nothing but stopped and long disconnected
    instances is selected. -/
theorem findInstancesToTerminate_of_le {s : ScaleDecider}
    (h : s.instances.length - s.config.minInstanceNum ≤ (terminateAll .longDisconnectedInstances
      s.longDisconnected (terminateAll .stoppedInstances s.stopped ∅)).ids.card) :
    (s.findInstancesToTerminate w).2 = terminateAll .longDisconnectedInstances s.longDisconnected
      (terminateAll .stoppedInstances s.stopped ∅) := by
  have hmax := (Nat.sub_le_sub_left s.config.min_le_max s.instances.length).trans h
  simp only [findInstancesToTerminate, terminateAbove_of_le h, terminateAbove_of_le hmax]

/-- An idle or excess instance is selected only while more than the minimum are left. -/
theorem lt_of_lookup {s : ScaleDecider} {id : String}
    (h : (s.findInstancesToTerminate w).2.lookup id = some .longIdleInstances ∨
      (s.findInstancesToTerminate w).2.lookup id = some .instanceNumberExceedsMaximum) :
    (s.stopped.toFinset ∪ s.longDisconnected.toFinset).card <
      s.instances.length - s.config.minInstanceNum := by
  by_contra hle
  have hbase := findInstancesToTerminate_of_le (s := s) (w := w) (by
    rw [ids_terminateAll, ids_terminateAll, Selection.ids_empty, Finset.empty_union]
    exact not_lt.mp hle)
  rw [hbase] at h
  have hreason : ∀ r, (terminateAll .longDisconnectedInstances s.longDisconnected
      (terminateAll .stoppedInstances s.stopped ∅)).lookup id = some r →
        r = .longDisconnectedInstances ∨ r = .stoppedInstances := by
    intro r hr
    rcases reason_terminateAll hr with rfl | hr
    · exact .inl rfl
    · rcases reason_terminateAll hr with rfl | hr
      · exact .inr rfl
      · simp at hr
  rcases h with h | h <;> simpa using hreason _ h

theorem numToLaunch_eq (s : ScaleDecider) (now : ℤ) (w : Walk) :
    ((s.calculateInstanceStates now).findInstancesToTerminate w).1.calculateNumInstancesToLaunch =
      max 0 (max (min
        (s.desiredNewInstances - (s.calculateInstanceStates now).recentlyLaunched.length)
        (s.config.maxInstanceNum - (s.idsWith now (·.isCounted)).toFinset.card))
        (s.config.minInstanceNum - (s.idsWith now (·.isCounted)).toFinset.card)) := by
  rw [← length_instances]
  rfl

/-- With fewer instances than the maximum, those that are launched do not exceed it. -/
theorem numToLaunch_le (hle : (s.idsWith now (·.isCounted)).toFinset.card ≤ s.config.maxInstanceNum) :
    ((s.calculateInstanceStates now).findInstancesToTerminate w).1.calculateNumInstancesToLaunch ≤
      s.config.maxInstanceNum - (s.idsWith now (·.isCounted)).toFinset.card := by
  have := s.config.min_le_max
  rw [numToLaunch_eq]
  omega

/-- With more instances than the maximum, none are launched. -/
theorem numToLaunch_eq_zero
    (hlt : s.config.maxInstanceNum < (s.idsWith now (·.isCounted)).toFinset.card) :
    ((s.calculateInstanceStates now).findInstancesToTerminate w).1.calculateNumInstancesToLaunch =
      0 := by
  have := s.config.min_le_max
  rw [numToLaunch_eq]
  omega

/-- With what is launched the maximum is kept, unless stopped instances were taken for others. -/
theorem left_add_numToLaunch_le_iff
    (hperm : s.instanceSnapshot.instances.Perm listing.instances) (now : ℤ) (w : Walk) :
    (listing.left Instance.isLive
        ((s.calculateInstanceStates now).findInstancesToTerminate w).2 : ℤ) +
      ((s.calculateInstanceStates now).findInstancesToTerminate w).1.calculateNumInstancesToLaunch ≤
        s.config.maxInstanceNum ↔
    (s.idsWith now (· == .stopped)).toFinset.card = 0 ∨
      (s.idsWith now (·.isCounted)).toFinset.card ≤ s.config.maxInstanceNum +
        (s.idsWith now (· == .requested)).toFinset.card +
          (s.idsWith now (·.isLongDisconnected)).toFinset.card +
            min (s.idsWith now (·.isLongIdle)).toFinset.card
              ((s.idsWith now (·.isCounted)).toFinset.card - s.config.minInstanceNum -
                (s.idsWith now (· == .stopped)).toFinset.card -
                  (s.idsWith now (·.isLongDisconnected)).toFinset.card) := by
  obtain ⟨T₁, T₂, hfilled⟩ := findInstancesToTerminate_filled s now w
  rw [left_isLive hperm]
  rcases Nat.lt_or_ge s.config.maxInstanceNum (s.idsWith now (·.isCounted)).toFinset.card with h | h
  · rw [numToLaunch_eq_zero h, add_zero, Int.ofNat_le]
    exact hfilled.card_live_le_iff h
  · have hlaunch := numToLaunch_le (w := w) h
    have hlive : _ ≤ _ := Filled.card_live_le (I := (s.idsWith now (·.isCounted)).toFinset)
      (P := (s.idsWith now (· == .requested)).toFinset)
      (T := ((s.calculateInstanceStates now).findInstancesToTerminate w).2.ids)
    exact iff_of_true (by omega) (.inr (by omega))

/-- A decision keeps the bounds exactly if the stopped instances do not get in the way. -/
theorem provision_keepsBounds_iff (s : ScaleDecider) (listing : Listing) (now : ℤ) (w : Walk) :
    (s.provision listing now w).2.KeepsBounds s.config listing ↔ s.Fits listing now := by
  have hperm := updateInstanceSnapshot_perm s listing
  have hconfig := config_updateInstanceSnapshot s listing
  have hcard : ∀ p, ((s.updateInstanceSnapshot listing).1.idsWith now p).toFinset.card =
      s.countOf listing now p := fun p => card_idsWith_updateInstanceSnapshot listing
  rw [provision, Fits, ← hconfig]
  simp only [← hcard]
  generalize (s.updateInstanceSnapshot listing).1 = u at hperm
  have hatMost := left_add_numToLaunch_le_iff hperm now w
  refine ⟨fun h => hatMost.mp h.atMost, fun hfits => ⟨hatMost.mpr hfits, ?_, AList.keys_nodup _⟩⟩
  rintro ⟨id, hid⟩
  obtain ⟨T₁, T₂, hfilled⟩ := findInstancesToTerminate_filled u now w
  have hlt := lt_of_lookup hid
  rw [length_instances] at hlt
  have hle := hfilled.le_card_left u.config.min_le_max hlt
  rwa [← left_isCounted hperm] at hle

/-! ### Runs -/

theorem config_step {t : ScaleDecider} {e : Event} (h : Step s e t) : t.config = s.config := by
  cases h with
  | scalingInfo desired agents => rfl
  | listFailed => rfl
  | provision listing now w => exact config_updateInstanceSnapshot s listing

theorem decision_eq {t : ScaleDecider} {d : Decision} (h : Step s (.provision listing now w d) t) :
    d = (s.provision listing now w).2 := by
  cases h
  rfl

/-- CORRECT: in every run, a decision keeps the cluster inside the bounds of its configuration if
    and only if the instances listed meet the condition at that time. -/
theorem decisions_keepBounds_iff (config : Config) {tr : List (Edge ScaleDecider Event)}
    {t : ScaleDecider} (hrun : Run Step (newScaleDecider config) tr t) :
    ∀ x ∈ tr, ∀ listing now w d, x.event = .provision listing now w d →
      (d.KeepsBounds config listing ↔ x.pre.Fits listing now) := by
  intro x hx listing now w d hevent
  have hconfig : x.pre.config = config := ((hrun.invariant (I := fun s => s.config = config)
    (fun s e t hs hst => (config_step hst).trans hs) rfl).1 x hx).1
  have hstep := hrun.step x hx
  rw [hevent] at hstep
  rw [decision_eq hstep, ← hconfig]
  exact provision_keepsBounds_iff x.pre listing now w

/-- At most one instance is to run. -/
def oneInstance : Config where
  maxIdlePeriod := 10
  maxStartingPeriod := 10
  maxDisconnectPeriod := 10
  minInstanceNum := 0
  maxInstanceNum := 1
  maxInstanceNum_pos := by decide
  min_le_max := by decide

/-- Maps are walked in the order of their entries. -/
def inOrder : Walk where
  visit _ ids := ids
  latestFirst := List.insertionSort fun a b => b.launchTime ≤ a.launchTime
  visit_perm _ _ := List.Perm.refl _
  latestFirst_perm := List.perm_insertionSort _
  latestFirst_sorted l := by
    have htotal : Std.Total fun a b : Instance => b.launchTime ≤ a.launchTime :=
      ⟨fun a b => le_total b.launchTime a.launchTime⟩
    have htrans : IsTrans Instance fun a b => b.launchTime ≤ a.launchTime :=
      ⟨fun a b d hab hbd => le_trans hbd hab⟩
    exact List.pairwise_insertionSort _ _

/-- Two instances are running. -/
def twoRunning : Listing where
  instances := [⟨"a", 0, "a", .running⟩, ⟨"b", 1, "b", .running⟩]
  nodup := by decide

theorem decisions_keepBounds_two_running :
    ((newScaleDecider oneInstance).provision twoRunning 2 inOrder).2.KeepsBounds
      oneInstance twoRunning :=
  (decisions_keepBounds_iff oneInstance (.cons (.provision _ twoRunning 2 inOrder) (.nil _)) _
    (List.mem_singleton_self _) twoRunning 2 inOrder _ rfl).mpr (by decide +kernel)

/-- Two instances are running, and a third is stopped. -/
def twoRunningOneStopped : Listing where
  instances := [⟨"a", 0, "a", .running⟩, ⟨"b", 1, "b", .running⟩, ⟨"c", 1, "c", .stopped⟩]
  nodup := by decide

/-- Only the stopped instance is terminated, and two are left where one is allowed. -/
theorem decisions_stopped_instance :
    ∃ tr t, Run Step (newScaleDecider oneInstance) tr t ∧ ∃ x ∈ tr, ∃ listing now w d,
      x.event = .provision listing now w d ∧ ¬ d.KeepsBounds oneInstance listing :=
  ⟨_, _, .cons (.provision _ twoRunningOneStopped 2 inOrder) (.nil _), _,
    List.mem_singleton_self _, twoRunningOneStopped, 2, inOrder, _, rfl,
    fun h => absurd h.atMost (by decide +kernel)⟩

end ScaleDecider

end Determined.Provisioner
