import Determined.Searcher.ExperimentRuns
import Determined.Searcher.SyncHalving

/-! What a synchronous halving search does with a result: the trials a rung has promoted are the
    first of its sorted results, as many of them as no result to come can displace, and the rungs
    above hold those trials and no others (`Ranked`). -/

namespace Determined.Searcher
open Determined.Model

variable {ι : Type}

/-! ### One rung -/

namespace Rung

variable (rung : Rung ι)

/-- How many trials have been promoted: those that stay ahead of every trial to come. -/
def numPromoted : ℕ := (rung.metrics.length + rung.promoteTrials - rung.startTrials).toNat

/-- The promoted trials. -/
def promotedIDs : List ι := rung.ids.take rung.numPromoted

/-- All trials of the rung have reported. -/
def full : Bool := decide (rung.metrics.length = rung.startTrials)

@[simp] theorem length_ids : rung.ids.length = rung.metrics.length := List.length_map ..

theorem full_iff : rung.full = true ↔ rung.metrics.length = rung.startTrials := decide_eq_true_iff

/-- The trial that a new result promotes, if any: itself if it is among the first, else the next of
    those that have reported. -/
def nextPromoted (r : ι) (metric : ℚ) : Option ι :=
  if rung.metrics.length + 1 + rung.promoteTrials ≤ rung.startTrials then none
  else if rung.insertIndex metric ≤ rung.numPromoted then some r
  else rung.ids[rung.numPromoted]?

end Rung

/-- Inserting at the front part or behind it, the front part grows by one. -/
theorem take_insertIdx_perm {α : Type} {l : List α} {x : α} {i c : ℕ} (hi : i ≤ l.length)
    (hc : c ≤ l.length) : ∃ q, (if i ≤ c then some x else l[c]?) = some q ∧
      ((l.insertIdx i x).take (c + 1)).Perm (q :: l.take c) := by
  by_cases h : i ≤ c
  · refine ⟨x, if_pos h, ?_⟩
    have htake : (l.insertIdx i x).take (c + 1) = (l.take c).insertIdx i x :=
      List.ext_getElem (by grind) (by grind)
    rw [htake]
    exact List.perm_insertIdx x _ (by rw [List.length_take]; omega)
  · have hlt : c < l.length := by omega
    refine ⟨l[c], by rw [if_neg h, List.getElem?_eq_getElem hlt], ?_⟩
    rw [List.take_insertIdx_eq_take_of_le _ _ _ _ (by omega), List.take_succ_eq_append_getElem hlt]
    exact List.perm_append_singleton _ _

namespace Rung

variable {rung : Rung ι} {r : ι} {metric : ℚ}

/-- The rung after a new result: one more promotion is decided, or none yet. -/
theorem promotionsSync_spec (hp : rung.promoteTrials ≤ rung.startTrials) : ∃ metrics,
      (rung.promotionsSync r metric).1 = { rung with metrics := metrics } ∧
      (rung.promotionsSync r metric).1.ids.Perm (r :: rung.ids) ∧
      (rung.promotionsSync r metric).2 = rung.nextPromoted r metric ∧
      (rung.promotionsSync r metric).1.promotedIDs.Perm
        ((rung.nextPromoted r metric).toList ++ rung.promotedIDs) := by
  have hi := rung.insertIndex_le metric
  have hlen : (rung.metrics.insertIdx (rung.insertIndex metric) ⟨r, metric, false⟩).length =
      rung.metrics.length + 1 := List.length_insertIdx_of_le_length hi _
  have hids : (rung.promotionsSync r metric).1.ids = rung.ids.insertIdx (rung.insertIndex metric) r := by
    rw [ids, promotionsSync, List.map_insertIdx]
    rfl
  refine ⟨_, rfl, ?_, ?_, ?_⟩
  · rw [hids]
    exact List.perm_insertIdx r _ (by rwa [length_ids])
  · simp only [promotionsSync, nextPromoted, hlen]
    by_cases hnone : rung.metrics.length + 1 + rung.promoteTrials ≤ rung.startTrials
    · rw [if_pos hnone, if_pos (by push_cast; omega)]
    · have hnum : (rung.numPromoted : ℤ) =
          rung.metrics.length + rung.promoteTrials - rung.startTrials := by
        rw [numPromoted, Int.toNat_of_nonneg (by omega)]
      rw [if_neg hnone, if_neg (by push_cast; omega)]
      by_cases hself : rung.insertIndex metric ≤ rung.numPromoted
      · rw [if_pos hself, if_pos (by push_cast; omega)]
      · have hat : (((rung.metrics.length + 1 : ℕ) + rung.promoteTrials - rung.startTrials - 1 : ℤ)).toNat
            = rung.numPromoted := by
          rw [numPromoted]
          push_cast
          congr 1
          ring
        rw [if_neg hself, if_neg (by push_cast; omega), hat,
          List.getElem?_insertIdx_of_lt (by omega), ids, List.getElem?_map]
  · have hnum : (rung.promotionsSync r metric).1.numPromoted =
        (rung.metrics.length + 1 + rung.promoteTrials - rung.startTrials).toNat := by
      simp only [numPromoted, promotionsSync, hlen]
      push_cast
      rfl
    rw [promotedIDs, hnum, hids, promotedIDs, nextPromoted]
    by_cases hnone : rung.metrics.length + 1 + rung.promoteTrials ≤ rung.startTrials
    · have h0 : rung.numPromoted = 0 := Int.toNat_eq_zero.mpr (by omega)
      rw [if_pos hnone, Int.toNat_eq_zero.mpr (by omega), h0]
      exact List.Perm.refl _
    · have hsucc : (rung.metrics.length + 1 + rung.promoteTrials - rung.startTrials).toNat =
          rung.numPromoted + 1 := by
        rw [numPromoted]
        omega
      obtain ⟨q, hq, hperm⟩ := take_insertIdx_perm (x := r) (i := rung.insertIndex metric)
        (c := rung.numPromoted) (l := rung.ids) (by rwa [length_ids]) (by
          rw [length_ids, numPromoted]
          omega)
      rw [if_neg hnone, hsucc, hq]
      exact hperm

/-- A trial that a result promotes has reported, and was not promoted before. -/
theorem nextPromoted_spec {q : ι} (hnodup : rung.ids.Nodup) (hr : r ∉ rung.ids)
    (hq : rung.nextPromoted r metric = some q) :
    (q = r ∨ q ∈ rung.ids) ∧ q ∉ rung.promotedIDs := by
  unfold nextPromoted at hq
  split at hq
  · cases hq
  · split at hq
    · cases hq
      exact ⟨.inl rfl, fun h => hr (List.mem_of_mem_take h)⟩
    · obtain ⟨hlt, rfl⟩ := List.getElem?_eq_some_iff.mp hq
      refine ⟨.inr (List.getElem_mem hlt), fun hmem => ?_⟩
      obtain ⟨i, hi, heq⟩ := List.mem_take_iff_getElem.mp hmem
      have := (hnodup.getElem_inj_iff).mp heq
      omega

end Rung

/-! ### All rungs -/

namespace SyncHalvingSearch

/-- Each rung promotes as many trials as the next starts with: at least one, and no more than it
    starts with itself. -/
structure Shaped (s : SyncHalvingSearch ι) : Prop where
  numRungs : s.config.numRungs = s.rungs.length
  pos : 0 < s.rungs.length
  next : ∀ k, k + 1 < s.rungs.length →
    (s.rung k).promoteTrials = (s.rung (k + 1)).startTrials ∧ 1 ≤ (s.rung k).promoteTrials ∧
      (s.rung k).promoteTrials ≤ (s.rung k).startTrials
  top : (s.rung (s.rungs.length - 1)).promoteTrials = 0

theorem Shaped.isTop_iff {s : SyncHalvingSearch ι} (h : s.Shaped) (k : ℕ) :
    s.isTop k = true ↔ k + 1 = s.rungs.length := by
  rw [isTop, decide_eq_true_iff, h.numRungs]
  omega

/-- A rung has promoted the trials that are in the rungs above it. -/
structure Ranked (X : Finset ι) (s : SyncHalvingSearch ι) : Prop where
  shaped : s.Shaped
  started : (X.card : ℤ) = (s.rung 0).startTrials
  below : ∀ r ∈ X, s.trialRungs r < s.rungs.length
  nodup : ∀ k, (s.rung k).ids.Nodup
  reported : ∀ k, ∀ r ∈ (s.rung k).ids, r ∈ X ∧ k ≤ s.trialRungs r
  promoted : ∀ k, k + 1 < s.rungs.length → ∀ r ∈ X,
    (k < s.trialRungs r ↔ r ∈ (s.rung k).promotedIDs)
  top : (s.rung (s.rungs.length - 1)).metrics = []

/-- The trials that have reached a rung. -/
def reached (X : Finset ι) (s : SyncHalvingSearch ι) (k : ℕ) : Finset ι :=
  X.filter fun r => k ≤ s.trialRungs r

namespace Ranked

variable {X : Finset ι} {s : SyncHalvingSearch ι} {k : ℕ}

theorem card_reached_succ (h : Ranked X s) (hk : k + 1 < s.rungs.length) :
    (reached X s (k + 1)).card = (s.rung k).numPromoted := by
  classical
  have hset : reached X s (k + 1) = (s.rung k).promotedIDs.toFinset := by
    ext r
    rw [reached, Finset.mem_filter, List.mem_toFinset]
    constructor
    · rintro ⟨hr, hlt⟩
      exact (h.promoted k hk r hr).mp hlt
    · intro hr
      have hX := (h.reported k r (List.mem_of_mem_take hr)).1
      exact ⟨hX, (h.promoted k hk r hX).mpr hr⟩
  have hnodup : (s.rung k).promotedIDs.Nodup := (h.nodup k).sublist (List.take_sublist ..)
  rw [hset, List.toFinset_card_of_nodup hnodup, Rung.promotedIDs, List.length_take, Rung.length_ids,
    Rung.numPromoted]
  have := (h.shaped.next k hk).2.2
  omega

theorem length_le_card (h : Ranked X s) : (s.rung k).metrics.length ≤ (reached X s k).card := by
  classical
  rw [← Rung.length_ids, ← List.toFinset_card_of_nodup (h.nodup k)]
  refine Finset.card_le_card fun r hr => ?_
  exact Finset.mem_filter.mpr (h.reported k r (List.mem_toFinset.mp hr))

/-- No rung is sent more trials than it starts with. -/
theorem card_reached_le (h : Ranked X s) :
    ∀ {k : ℕ}, k < s.rungs.length → ((reached X s k).card : ℤ) ≤ (s.rung k).startTrials
  | 0, _ => by
    rw [← h.started]
    exact_mod_cast Finset.card_filter_le _ _
  | k + 1, hk => by
    have hlen := h.length_le_card (k := k)
    have hle := h.card_reached_le (k := k) (by omega)
    obtain ⟨hnext, hone, -⟩ := h.shaped.next k hk
    rw [h.card_reached_succ hk, ← hnext, Rung.numPromoted]
    omega

/-- A rung in which a trial has not reported is not full. -/
theorem length_lt (h : Ranked X s) {r : ι} (hr : r ∈ X) (hnot : r ∉ (s.rung (s.trialRungs r)).ids) :
    ((s.rung (s.trialRungs r)).metrics.length : ℤ) < (s.rung (s.trialRungs r)).startTrials := by
  classical
  refine lt_of_lt_of_le ?_ (h.card_reached_le (h.below r hr))
  rw [← Rung.length_ids, ← List.toFinset_card_of_nodup (h.nodup _)]
  have hss : (s.rung (s.trialRungs r)).ids.toFinset ⊂ reached X s (s.trialRungs r) := by
    refine Finset.ssubset_iff_subset_ne.mpr ⟨fun x hx => ?_, fun heq => hnot ?_⟩
    · exact Finset.mem_filter.mpr (h.reported _ x (List.mem_toFinset.mp hx))
    · rw [← List.mem_toFinset, heq]
      exact Finset.mem_filter.mpr ⟨hr, le_rfl⟩
  exact_mod_cast Finset.card_lt_card hss

end Ranked

variable [DecidableEq ι]

/-- What recording a metric leaves. -/
structure Recorded (s : SyncHalvingSearch ι) (r : ι) (metric : ℚ) (s' : SyncHalvingSearch ι)
    (promoted : Option ι) : Prop where
  next : promoted = (s.rung (s.trialRungs r)).nextPromoted r metric
  config : s'.config = s.config
  exited : s'.earlyExitTrials = s.earlyExitTrials
  length : s'.rungs.length = s.rungs.length
  rung : ∃ metrics, s'.rung (s.trialRungs r) = { s.rung (s.trialRungs r) with metrics := metrics }
  ids : (s'.rung (s.trialRungs r)).ids.Perm (r :: (s.rung (s.trialRungs r)).ids)
  promotedIDs : (s'.rung (s.trialRungs r)).promotedIDs.Perm
    (promoted.toList ++ (s.rung (s.trialRungs r)).promotedIDs)
  other : ∀ k, k ≠ s.trialRungs r → s'.rung k = s.rung k
  trialRungs : s'.trialRungs = fun x =>
    if promoted = some x then s.trialRungs r + 1 else s.trialRungs x

/-- Only the rung of the trial changes, and the trial it promotes is sent up. -/
theorem recordMetric_eq (s : SyncHalvingSearch ι) (r : ι) (metric : ℚ) :
    s.recordMetric r metric =
      let promotions := (s.rung (s.trialRungs r)).promotionsSync r metric
      ({ s with
          rungs := s.rungs.set (s.trialRungs r) promotions.1
          trialRungs := fun x => if promotions.2 = some x then s.trialRungs r + 1
            else s.trialRungs x }, promotions.2) := by
  unfold recordMetric
  dsimp only
  split
  · rename_i heq
    simp [heq]
  · rename_i q heq
    rw [heq]
    congr 2
    funext x
    simp [Function.update_apply, eq_comm]

theorem recorded_recordMetric {s : SyncHalvingSearch ι} {r : ι} (metric : ℚ)
    (hlt : s.trialRungs r < s.rungs.length)
    (hp : (s.rung (s.trialRungs r)).promoteTrials ≤ (s.rung (s.trialRungs r)).startTrials) :
    Recorded s r metric (s.recordMetric r metric).1 (s.recordMetric r metric).2 := by
  obtain ⟨metrics, hmetrics, hids, hnext, hpromoted⟩ := Rung.promotionsSync_spec hp
  have hself : (s.recordMetric r metric).1.rung (s.trialRungs r) =
      ((s.rung (s.trialRungs r)).promotionsSync r metric).1 := by
    rw [recordMetric_eq]
    simp [rung, hlt]
  have hsnd : (s.recordMetric r metric).2 = (s.rung (s.trialRungs r)).nextPromoted r metric := by
    rw [recordMetric_eq, ← hnext]
  refine ⟨hsnd, ?_, ?_, ?_, ⟨metrics, hself.trans hmetrics⟩, ?_, ?_, fun k hk => ?_, ?_⟩
  · rw [recordMetric_eq]
  · rw [recordMetric_eq]
  · rw [recordMetric_eq, List.length_set]
  · rw [hself]
    exact hids
  · rw [hself, hsnd]
    exact hpromoted
  · rw [recordMetric_eq]
    simp [rung, List.getD_eq_getElem?_getD, hk.symm]
  · rw [hsnd, ← hnext, recordMetric_eq]

namespace Recorded

variable {X : Finset ι} {s s' : SyncHalvingSearch ι} {r q : ι} {metric : ℚ} {promoted : Option ι}

theorem trials (hrec : Recorded s r metric s' promoted) (k : ℕ) :
    (s'.rung k).startTrials = (s.rung k).startTrials ∧
      (s'.rung k).promoteTrials = (s.rung k).promoteTrials := by
  by_cases hk : k = s.trialRungs r
  · obtain ⟨metrics, hm⟩ := hrec.rung
    rw [hk, hm]
    exact ⟨rfl, rfl⟩
  · rw [hrec.other k hk]
    exact ⟨rfl, rfl⟩

theorem shaped (hrec : Recorded s r metric s' promoted) (h : s.Shaped) : s'.Shaped where
  numRungs := by rw [hrec.config, hrec.length, h.numRungs]
  pos := by rw [hrec.length]; exact h.pos
  next k hk := by
    rw [hrec.length] at hk
    rw [(hrec.trials k).1, (hrec.trials k).2, (hrec.trials (k + 1)).1]
    exact h.next k hk
  top := by rw [hrec.length, (hrec.trials _).2, h.top]

/-- The promoted trial was in the rung of the trial that reported. -/
theorem promoted_spec (hrec : Recorded s r metric s' (some q)) (h : Ranked X s) (hr : r ∈ X)
    (hk : s.trialRungs r + 1 < s.rungs.length)
    (hnot : r ∉ (s.rung (s.trialRungs r)).ids) :
    q ∈ X ∧ s.trialRungs q = s.trialRungs r ∧ (q = r ∨ q ∈ (s.rung (s.trialRungs r)).ids) := by
  obtain ⟨hq, hnew⟩ := Rung.nextPromoted_spec (h.nodup _) hnot hrec.next.symm
  refine hq.elim (fun heq => ?_) fun hmem => ?_
  · subst heq
    exact ⟨hr, rfl, .inl rfl⟩
  · obtain ⟨hX, hle⟩ := h.reported _ q hmem
    refine ⟨hX, le_antisymm ?_ hle, .inr hmem⟩
    exact not_lt.mp fun hlt => hnew ((h.promoted _ hk q hX).mp hlt)

/-- A trial's rung is the same, or one up. -/
theorem trialRungs_le (hrec : Recorded s r metric s' promoted) (h : Ranked X s) (hr : r ∈ X)
    (hk : s.trialRungs r + 1 < s.rungs.length) (hnot : r ∉ (s.rung (s.trialRungs r)).ids) (x : ι) :
    s.trialRungs x ≤ s'.trialRungs x := by
  rw [hrec.trialRungs]
  dsimp only
  split
  · rename_i hx
    subst hx
    rw [(hrec.promoted_spec h hr hk hnot).2.1]
    exact Nat.le_succ _
  · exact le_rfl

/-- Recording a result in a rung below the top keeps the rungs ranked. -/
theorem ranked (hrec : Recorded s r metric s' promoted) (h : Ranked X s) (hr : r ∈ X)
    (hk : s.trialRungs r + 1 < s.rungs.length) (hnot : r ∉ (s.rung (s.trialRungs r)).ids) :
    Ranked X s' := by
  have hle := hrec.trialRungs_le h hr hk hnot
  refine ⟨hrec.shaped h.shaped, ?_, fun x hx => ?_, fun k => ?_, fun k x hx => ?_,
    fun k hk' x hx => ?_, ?_⟩
  · rw [(hrec.trials 0).1, h.started]
  · rw [hrec.length, hrec.trialRungs]
    dsimp only
    split
    · exact hk
    · exact h.below x hx
  · by_cases hkr : k = s.trialRungs r
    · rw [hkr]
      exact hrec.ids.nodup_iff.mpr (List.nodup_cons.mpr ⟨hnot, h.nodup _⟩)
    · rw [hrec.other k hkr]
      exact h.nodup k
  · by_cases hkr : k = s.trialRungs r
    · rw [hkr, hrec.ids.mem_iff, List.mem_cons] at hx
      rcases hx with rfl | hx
      · exact ⟨hr, hkr ▸ hle x⟩
      · exact ⟨(h.reported _ x hx).1, hkr ▸ (h.reported _ x hx).2.trans (hle x)⟩
    · rw [hrec.other k hkr] at hx
      exact ⟨(h.reported k x hx).1, (h.reported k x hx).2.trans (hle x)⟩
  · rw [hrec.length] at hk'
    rw [hrec.trialRungs]
    dsimp only
    by_cases hkr : k = s.trialRungs r
    · rw [hkr, hrec.promotedIDs.mem_iff, List.mem_append, Option.mem_toList,
        ← h.promoted _ hk x hx]
      split
      · rename_i hp
        simp [hp]
      · rename_i hp
        simp [hp]
    · rw [hrec.other k hkr, ← h.promoted k hk' x hx]
      split
      · rename_i hp
        subst hp
        rw [(hrec.promoted_spec h hr hk hnot).2.1]
        omega
      · rfl
  · rw [hrec.length, hrec.other _ (by omega), h.top]

end Recorded

end SyncHalvingSearch

end Determined.Searcher
