import Determined.Searcher.AsyncHalving
import Determined.Searcher.ExperimentRuns

/-! The rungs of asynchronous halving: each trial has one metric in every rung below its own, and
    `outstandingTrials` counts those that have none in their own yet (`Placed`).

    A completed validation, or an early exit, keeps that if its trial has no metric in its rung; and
    it is the only way a trial can come to have two. -/

namespace Determined.Searcher
open Determined.Model Determined.Schemes

variable {ι : Type}

/-! ### One rung -/

/-- The trials of a list of metrics. -/
def metricIDs (l : List (TrialMetric ι)) : List ι := l.map (·.requestID)

section Promotions

variable {l l' : List (TrialMetric ι)} {r q : ι} {metric : ℚ} {i : ℕ} {t : TrialMetric ι}

theorem metricIDs_insertIdx (promoted : Bool) (hi : i ≤ l.length) :
    (metricIDs (l.insertIdx i ⟨r, metric, promoted⟩)).Perm (r :: metricIDs l) := by
  rw [metricIDs, List.map_insertIdx]
  exact List.perm_insertIdx _ _ (by rwa [List.length_map])

/-- Marking a trial as promoted leaves the ids. -/
theorem metricIDs_set (h : l[i]? = some t) :
    metricIDs (l.set i { t with promoted := true }) = metricIDs l := by
  obtain ⟨hi, rfl⟩ := List.getElem?_eq_some_iff.mp h
  rw [metricIDs, List.map_set]
  have hi' : i < (l.map (·.requestID)).length := by simpa using hi
  have hself : (l.map (·.requestID))[i] = l[i].requestID := List.getElem_map ..
  rw [← hself, List.set_getElem_self, metricIDs]

/-- The other entries of a list with one entry marked are those of other trials. -/
theorem mem_set_promoted (h : l[i]? = some t) (hnodup : (metricIDs l).Nodup) :
    ∀ tm ∈ l.set i { t with promoted := true }, tm = { t with promoted := true } ∨
      tm ∈ l ∧ tm.requestID ≠ t.requestID := by
  obtain ⟨hi, rfl⟩ := List.getElem?_eq_some_iff.mp h
  intro tm htm
  obtain ⟨j, hj, rfl⟩ := List.mem_iff_getElem.mp htm
  rw [List.length_set] at hj
  rw [List.getElem_set]
  split
  · exact .inl rfl
  · rename_i hne
    refine .inr ⟨List.getElem_mem _, fun heq => hne ?_⟩
    rw [metricIDs] at hnodup
    have hi' : i < (l.map (·.requestID)).length := by simpa using hi
    have hj' : j < (l.map (·.requestID)).length := by simpa using hj
    have hsame : (l.map (·.requestID))[i] = (l.map (·.requestID))[j] := by simpa using heq.symm
    exact hnodup.getElem_inj_iff.mp hsame

/-- What a metric of `r` does to the metrics of a rung, and whom it promotes. -/
structure Promotions (l : List (TrialMetric ι)) (r : ι) (l' : List (TrialMetric ι))
    (promoted : Option ι) : Prop where
  ids : (metricIDs l').Perm (r :: metricIDs l)
  entry : (metricIDs l).Nodup → r ∉ metricIDs l → ∀ tm' ∈ l',
    tm'.requestID = r ∧ (tm'.promoted = true ↔ promoted = some r) ∨
      ∃ tm ∈ l, tm.requestID = tm'.requestID ∧
        (tm'.promoted = true ↔ tm.promoted = true ∨ promoted = some tm.requestID)
  chosen : ∀ q, promoted = some q → q = r ∨ ∃ tm ∈ l, tm.requestID = q ∧ tm.promoted = false

/-- The metric is inserted, and the trial itself promoted if `promoteNow`. -/
theorem promotions_insert (promoteNow : Bool) (hi : i ≤ l.length) :
    Promotions l r (l.insertIdx i ⟨r, metric, promoteNow⟩)
      (if promoteNow then some r else none) where
  ids := metricIDs_insertIdx _ hi
  entry hnodup hr tm' htm' := by
    rcases List.eq_or_mem_of_mem_insertIdx htm' with rfl | htm
    · refine .inl ⟨rfl, ?_⟩
      cases promoteNow <;> simp
    · refine .inr ⟨tm', htm, rfl, ?_⟩
      have hne : r ≠ tm'.requestID := fun heq => hr (heq ▸ List.mem_map_of_mem htm)
      cases promoteNow <;> simp [hne]
  chosen q hq := by
    cases promoteNow
    · cases hq
    · exact .inl (Option.some.inj hq).symm

/-- The metric is inserted, and some unpromoted trial promoted. -/
theorem promotions_set {j : ℕ} (hp : t.promoted = false) (hi : i ≤ l.length)
    (h : (l.insertIdx i ⟨r, metric, false⟩)[j]? = some t) :
    Promotions l r ((l.insertIdx i ⟨r, metric, false⟩).set j { t with promoted := true })
      (some t.requestID) where
  ids := by
    rw [metricIDs_set h]
    exact metricIDs_insertIdx _ hi
  entry hnodup hr tm' htm' := by
    have hn : (metricIDs (l.insertIdx i ⟨r, metric, false⟩)).Nodup :=
      (metricIDs_insertIdx false hi).nodup_iff.mpr (List.nodup_cons.mpr ⟨hr, hnodup⟩)
    rcases mem_set_promoted h hn tm' htm' with rfl | ⟨hmem, hne⟩
    · rcases List.eq_or_mem_of_mem_insertIdx (List.mem_of_getElem? h) with rfl | htm
      · exact .inl ⟨rfl, by simp⟩
      · exact .inr ⟨t, htm, rfl, by simp⟩
    · rcases List.eq_or_mem_of_mem_insertIdx hmem with rfl | htm
      · exact .inl ⟨rfl, by simp [hne.symm]⟩
      · exact .inr ⟨tm', htm, rfl, by simp [hne.symm]⟩
  chosen q hq := by
    cases hq
    rcases List.eq_or_mem_of_mem_insertIdx (List.mem_of_getElem? h) with rfl | htm
    · exact .inl rfl
    · exact .inr ⟨t, htm, rfl, hp⟩

/-- `promotionsAsync` changes nothing but the metrics. -/
theorem promotionsAsync_spec (rung : Rung ι) (r : ι) (metric divisor : ℚ) :
    ∃ l', (rung.promotionsAsync r metric divisor).1 = { rung with metrics := l' } ∧
      Promotions rung.metrics r l' (rung.promotionsAsync r metric divisor).2 := by
  unfold Rung.promotionsAsync
  have hi := rung.insertIndex_le metric
  dsimp only
  split
  · rename_i hnow
    rw [hnow]
    exact ⟨_, rfl, promotions_insert true hi⟩
  · rename_i hnow
    rw [Bool.not_eq_true] at hnow
    rw [hnow]
    split
    · rename_i t ht
      split
      · rename_i hcond
        exact ⟨_, rfl, promotions_set hcond.2 hi ht⟩
      · exact ⟨_, rfl, promotions_insert false hi⟩
    · exact ⟨_, rfl, promotions_insert false hi⟩

end Promotions

namespace AsyncHalvingSearch

section Rungs

variable {s : AsyncHalvingSearch ι} {i j : ℕ} {f : Rung ι → Rung ι}

@[simp] theorem modifyRung_length : (s.modifyRung i f).rungs.length = s.rungs.length :=
  List.length_modify ..

theorem rung_eq_getElem {k : ℕ} (hk : k < s.rungs.length) : s.rung k = s.rungs[k] := by
  simp [rung, List.getD, hk]

theorem rung_modifyRung_same (h : i < s.rungs.length) :
    (s.modifyRung i f).rung i = f (s.rung i) := by
  simp [rung, modifyRung, List.getD, h]

theorem rung_modifyRung_ne (h : j ≠ i) : (s.modifyRung i f).rung j = s.rung j := by
  simp [rung, modifyRung, List.getD, h.symm]

/-- The rung after its metrics were changed. -/
theorem rung_recorded {k : ℕ} (hk : k < s.rungs.length) (f : Rung ι → Rung ι)
    (l' : List (TrialMetric ι))
    (hf : f { s.rung k with outstandingTrials := (s.rung k).outstandingTrials - 1 } =
      { s.rung k with outstandingTrials := (s.rung k).outstandingTrials - 1, metrics := l' }) (j : ℕ) :
    ((s.modifyRung k fun rung =>
      { rung with outstandingTrials := rung.outstandingTrials - 1 }).modifyRung k f).rung j =
      { s.rung j with
        metrics := if j = k then l' else (s.rung j).metrics
        outstandingTrials := (s.rung j).outstandingTrials - if j = k then 1 else 0 } := by
  rcases eq_or_ne j k with rfl | hne
  · rw [rung_modifyRung_same (by simpa using hk), rung_modifyRung_same hk, hf, if_pos rfl, if_pos rfl]
  · rw [rung_modifyRung_ne hne, rung_modifyRung_ne hne, if_neg hne, if_neg hne, sub_zero]

end Rungs

/-- The search has as many rungs as configured. -/
def Shaped (s : AsyncHalvingSearch ι) : Prop :=
  0 < s.rungs.length ∧ (s.rungs.length : ℤ) = s.config.numRungs

theorem Shaped.isTop_iff {s : AsyncHalvingSearch ι} (h : s.Shaped) (i : ℕ) :
    s.isTop i = true ↔ i + 1 = s.rungs.length := by
  rw [isTop, decide_eq_true_eq, ← h.2]
  omega

variable [DecidableEq ι]

/-! ### Recording a metric -/

/-- What `recordMetric` changes: the trial's rung `k`, and the rung and count of the trial it
    promotes. -/
structure Recorded (s : AsyncHalvingSearch ι) (r : ι) (metric : ℚ) (s' : AsyncHalvingSearch ι)
    (promoted : Option ι) : Prop where
  frame : ∃ rungs trialRungs, s' = { s with rungs := rungs, trialRungs := trialRungs }
  length : s'.rungs.length = s.rungs.length
  other : ∀ j, j ≠ s.rungOf r → (s'.rung j).metrics = (s.rung j).metrics
  outstanding : ∀ j < s.rungs.length, (s'.rung j).outstandingTrials =
    (s.rung j).outstandingTrials - (if j = s.rungOf r then 1 else 0) +
      if promoted.isSome ∧ j = s.rungOf r + 1 then 1 else 0
  top : s.rungOf r + 1 = s.rungs.length → promoted = none ∧
    (s'.rung (s.rungOf r)).metrics = (s.rung (s.rungOf r)).metrics ++ [⟨r, metric, false⟩]
  below : s.rungOf r + 1 < s.rungs.length →
    Promotions (s.rung (s.rungOf r)).metrics r (s'.rung (s.rungOf r)).metrics promoted
  trialRungs : s'.trialRungs = match promoted with
    | some q => s.trialRungs.insert q (s.rungOf r + 1)
    | none => s.trialRungs

variable {s s' : AsyncHalvingSearch ι} {r q : ι} {promoted : Option ι} {metric : ℚ} {i : ℕ}

/-- Sending a trial to a rung adds one to its count, and nothing else to the rungs. -/
theorem rung_sendTo (h : i < s.rungs.length) (j : ℕ) : (s.sendTo i q).rung j = { s.rung j with
    outstandingTrials := (s.rung j).outstandingTrials + if j = i then 1 else 0 } := by
  have heq : (s.sendTo i q).rung j = (s.modifyRung i fun rung =>
    { rung with outstandingTrials := rung.outstandingTrials + 1 }).rung j := rfl
  rw [heq]
  rcases eq_or_ne j i with rfl | hne
  · rw [rung_modifyRung_same h, if_pos rfl]
  · rw [rung_modifyRung_ne hne, if_neg hne, add_zero]

theorem recorded_recordMetric (h : s.Shaped) (hr : s.rungOf r < s.rungs.length) (metric : ℚ) :
    Recorded s r metric (s.recordMetric r metric).1 (s.recordMetric r metric).2 := by
  unfold recordMetric
  dsimp only
  split
  · rename_i ht
    have ht' : s.rungOf r + 1 = s.rungs.length := (h.isTop_iff _).mp ht
    have hrung := rung_recorded hr (fun rung =>
      { rung with metrics := rung.metrics ++ [⟨r, metric, false⟩] }) _ rfl
    refine ⟨⟨_, _, rfl⟩, by simp, fun j hj => ?_, fun j _ => ?_, fun _ => ⟨rfl, ?_⟩,
      fun hlt => by omega, rfl⟩
    · rw [hrung, if_neg hj]
    · rw [hrung]
      simp
    · rw [hrung, if_pos rfl]
  · rename_i ht
    have ht' : s.rungOf r + 1 < s.rungs.length := by
      have : s.rungOf r + 1 ≠ s.rungs.length := fun heq => ht ((h.isTop_iff _).mpr heq)
      omega
    generalize hp : Rung.promotionsAsync _ r metric _ = promotions
    obtain ⟨l', hl', hprom⟩ := promotionsAsync_spec ((s.modifyRung (s.rungOf r) fun rung =>
      { rung with outstandingTrials := rung.outstandingTrials - 1 }).rung (s.rungOf r)) r metric
      s.config.divisor
    have hp' := hp
    rw [rung_modifyRung_same hr] at hl' hprom hp'
    have hp'' : Rung.promotionsAsync { s.rung (s.rungOf r) with
      outstandingTrials := (s.rung (s.rungOf r)).outstandingTrials - 1 } r metric
        s.config.divisor = promotions := hp'
    rw [hp''] at hl' hprom
    have hrung := rung_recorded hr (fun _ => promotions.1) l' (by rw [hl'])
    obtain ⟨rung', promoted⟩ := promotions
    cases promoted with
    | none =>
      refine ⟨⟨_, _, rfl⟩, by simp, fun j hj => ?_, fun j _ => ?_, fun heq => by omega, fun _ => ?_,
        rfl⟩
      · rw [hrung, if_neg hj]
      · rw [hrung]
        simp
      · rw [hrung, if_pos rfl]
        exact hprom
    | some q =>
      have hsend := rung_sendTo (q := q) (s := (s.modifyRung (s.rungOf r) fun rung =>
        { rung with outstandingTrials := rung.outstandingTrials - 1 }).modifyRung (s.rungOf r)
          fun _ => rung') (i := s.rungOf r + 1) (by simpa using ht')
      dsimp only
      refine ⟨⟨_, _, rfl⟩, ?_, fun j hj => ?_, fun j _ => ?_, fun heq => by omega, fun _ => ?_, rfl⟩
      · rw [sendTo, modifyRung_length]
        exact (modifyRung_length.trans modifyRung_length)
      · rw [hsend, hrung, if_neg hj]
      · rw [hsend, hrung]
        simp
      · rw [hsend, hrung, if_pos rfl]
        exact hprom

/-! ### Where the trials are -/

/-- The trials sent to rung `k` that have no metric there. -/
def waiting (X : Finset ι) (s : AsyncHalvingSearch ι) (k : ℕ) : Finset ι :=
  X.filter fun r => s.rungOf r = k ∧ r ∉ metricIDs (s.rung k).metrics

/-- The trials `X` in the first `b` rungs, all of them or all but the top one: one metric for each
    trial in the rungs below its own, and the others counted. -/
structure Placed (X : Finset ι) (b : ℕ) (s : AsyncHalvingSearch ι) : Prop where
  shaped : s.Shaped
  bound : b ≤ s.rungs.length ∧ s.rungs.length ≤ b + 1
  known : ∀ r ∈ X, r ∈ s.trialRungs
  inRange : ∀ r ∈ X, s.rungOf r < s.rungs.length
  nodup : ∀ k < b, (metricIDs (s.rung k).metrics).Nodup
  entry : ∀ k < b, ∀ tm ∈ (s.rung k).metrics, tm.requestID ∈ X ∧ k ≤ s.rungOf tm.requestID ∧
    (k + 1 < s.rungs.length → (tm.promoted = true ↔ k < s.rungOf tm.requestID))
  below : ∀ r ∈ X, ∀ k < s.rungOf r, r ∈ metricIDs (s.rung k).metrics
  outstanding : ∀ k < b, (s.rung k).outstandingTrials = (waiting X s k).card

variable {X : Finset ι} {b : ℕ}

namespace Recorded

variable (hrec : Recorded s r metric s' promoted)
include hrec

theorem rungOf_eq (x : ι) :
    s'.rungOf x = if promoted = some x then s.rungOf r + 1 else s.rungOf x := by
  rw [rungOf, hrec.trialRungs]
  cases promoted with
  | none => simp [rungOf]
  | some q =>
    rcases eq_or_ne q x with rfl | hne
    · simp
    · simp [AList.lookup_insert_ne hne.symm, hne, rungOf]

theorem ids_perm (hr : s.rungOf r < s.rungs.length) :
    (metricIDs (s'.rung (s.rungOf r)).metrics).Perm
      (r :: metricIDs (s.rung (s.rungOf r)).metrics) := by
  rcases Nat.lt_or_ge (s.rungOf r + 1) s.rungs.length with hlt | hge
  · exact (hrec.below hlt).ids
  · rw [(hrec.top (by omega)).2, metricIDs, List.map_append]
    exact List.perm_append_singleton _ _

theorem mem_ids (hr : s.rungOf r < s.rungs.length) (j : ℕ) (x : ι) :
    x ∈ metricIDs (s'.rung j).metrics ↔
      j = s.rungOf r ∧ x = r ∨ x ∈ metricIDs (s.rung j).metrics := by
  rcases eq_or_ne j (s.rungOf r) with rfl | hne
  · rw [(hrec.ids_perm hr).mem_iff, List.mem_cons]
    simp
  · rw [hrec.other j hne]
    simp [hne]

/-- The promoted trial was in the rung, and not promoted yet. -/
theorem promoted_spec (h : Placed X b s) (hr : r ∈ X) (hq : promoted = some q) :
    q ∈ X ∧ s.rungOf q = s.rungOf r ∧ s.rungOf r + 1 < s.rungs.length ∧
      (q = r ∨ q ∈ metricIDs (s.rung (s.rungOf r)).metrics) := by
  have hlt : s.rungOf r + 1 < s.rungs.length := by
    by_contra hge
    have := h.inRange r hr
    rw [(hrec.top (by omega)).1] at hq
    cases hq
  have hbound := h.bound
  rcases (hrec.below hlt).chosen q hq with rfl | ⟨tm, htm, rfl, hp⟩
  · exact ⟨hr, rfl, hlt, .inl rfl⟩
  · obtain ⟨hX, hle, hiff⟩ := h.entry _ (by omega) tm htm
    have hnot : ¬ s.rungOf r < s.rungOf tm.requestID := by
      rw [← hiff hlt, hp]
      exact Bool.false_ne_true
    exact ⟨hX, by omega, hlt, .inr (List.mem_map_of_mem htm)⟩

theorem waiting_self (h : Placed X b s) (hr : r ∈ X) :
    waiting X s' (s.rungOf r) = (waiting X s (s.rungOf r)).erase r := by
  ext x
  simp only [waiting, Finset.mem_filter, Finset.mem_erase, hrec.mem_ids (h.inRange r hr),
    hrec.rungOf_eq, true_and, not_or]
  by_cases hp : promoted = some x
  · obtain ⟨-, -, -, hor⟩ := hrec.promoted_spec h hr hp
    rw [if_pos hp]
    constructor
    · rintro ⟨-, heq, -⟩
      omega
    · rintro ⟨hne, -, -, hn⟩
      exact (hor.elim hne hn).elim
  · rw [if_neg hp]
    tauto

/-- It has no metric in the next rung. -/
theorem promoted_next (h : Placed X b s) (hr : r ∈ X) (hq : promoted = some q)
    (hb : s.rungOf r + 1 < b) : q ∉ metricIDs (s.rung (s.rungOf r + 1)).metrics := by
  obtain ⟨-, heq, -⟩ := hrec.promoted_spec h hr hq
  intro hmem
  obtain ⟨tm, htm, rfl⟩ := List.mem_map.mp hmem
  have := (h.entry _ hb tm htm).2.1
  omega

theorem waiting_next (h : Placed X b s) (hr : r ∈ X) (hq : promoted = some q)
    (hb : s.rungOf r + 1 < b) :
    waiting X s' (s.rungOf r + 1) = insert q (waiting X s (s.rungOf r + 1)) := by
  obtain ⟨hX, heq, hlt, -⟩ := hrec.promoted_spec h hr hq
  have hnext := hrec.promoted_next h hr hq hb
  have hne : s.rungOf r + 1 ≠ s.rungOf r := by omega
  ext x
  simp only [waiting, Finset.mem_filter, Finset.mem_insert, hrec.mem_ids (h.inRange r hr),
    hrec.rungOf_eq, hne, false_and, false_or, hq, Option.some.injEq]
  rcases eq_or_ne q x with rfl | hqx
  · simp [hX, hnext]
  · simp [hqx, hqx.symm]

theorem waiting_other (h : Placed X b s) (hr : r ∈ X) {j : ℕ} (hj : j ≠ s.rungOf r)
    (hj' : promoted.isSome = true → j ≠ s.rungOf r + 1) : waiting X s' j = waiting X s j := by
  ext x
  simp only [waiting, Finset.mem_filter, hrec.mem_ids (h.inRange r hr), hrec.rungOf_eq, hj,
    false_and, false_or]
  by_cases hp : promoted = some x
  · obtain ⟨-, heq, -⟩ := hrec.promoted_spec h hr hp
    have := hj' (by simp [hp])
    rw [if_pos hp]
    constructor
    · rintro ⟨-, heq', -⟩; omega
    · rintro ⟨-, heq', -⟩; omega
  · rw [if_neg hp]

theorem placed_of_mem (h : Placed X b s) (hr : r ∈ X)
    (hnew : s.rungOf r < b → r ∉ metricIDs (s.rung (s.rungOf r)).metrics) : Placed X b s' := by
  have hin := h.inRange r hr
  obtain ⟨rungs, trialRungs, heq⟩ := hrec.frame
  have hrung : ∀ x, s'.rungOf x = if promoted = some x then s.rungOf r + 1 else s.rungOf x :=
    hrec.rungOf_eq
  have hle : ∀ x, s.rungOf x ≤ s'.rungOf x := by
    intro x
    rw [hrung]
    split
    · rename_i hq
      have := (hrec.promoted_spec h hr hq).2.1
      omega
    · exact le_refl _
  refine ⟨⟨?_, ?_⟩, ?_, ?_, ?_, ?_, ?_, ?_, ?_⟩
  · rw [hrec.length]
    exact h.shaped.1
  · rw [hrec.length, heq]
    exact h.shaped.2
  · rw [hrec.length]
    exact h.bound
  · intro x hx
    rw [hrec.trialRungs]
    cases promoted with
    | none => exact h.known x hx
    | some q => exact (AList.mem_insert _).mpr (.inr (h.known x hx))
  · intro x hx
    rw [hrec.length, hrung]
    split
    · rename_i hq
      exact (hrec.promoted_spec h hr hq).2.2.1
    · exact h.inRange x hx
  · intro k hk
    rcases eq_or_ne k (s.rungOf r) with rfl | hne
    · exact (hrec.ids_perm hin).nodup_iff.mpr (List.nodup_cons.mpr ⟨hnew hk, h.nodup _ hk⟩)
    · rw [hrec.other k hne]
      exact h.nodup k hk
  · intro k hk tm htm
    rw [hrec.length]
    rcases eq_or_ne k (s.rungOf r) with rfl | hne
    · rcases Nat.lt_or_ge (s.rungOf r + 1) s.rungs.length with hlt | hge
      · rcases (hrec.below hlt).entry (h.nodup _ hk) (hnew hk) tm htm with
          ⟨hid, hiff⟩ | ⟨tm₀, htm₀, hid, hiff⟩
        · refine ⟨hid ▸ hr, hid ▸ hle r, fun _ => hiff.trans ?_⟩
          rw [hid, hrung]
          split <;> simp_all
        · obtain ⟨hX, hle', hiff₀⟩ := h.entry _ hk tm₀ htm₀
          rw [hid] at hX hle' hiff₀ hiff
          refine ⟨hX, hle'.trans (hle _), fun _ => ?_⟩
          rw [hiff, hiff₀ hlt, hrung]
          split <;> simp_all
      · rw [(hrec.top (by omega)).2] at htm
        rcases List.mem_append.mp htm with htm | htm
        · obtain ⟨hX, hle', -⟩ := h.entry _ hk tm htm
          exact ⟨hX, hle'.trans (hle _), fun hlt => by omega⟩
        · rw [List.mem_singleton.mp htm]
          exact ⟨hr, hle r, fun hlt => by omega⟩
    · rw [hrec.other k hne] at htm
      obtain ⟨hX, hle', hiff⟩ := h.entry k hk tm htm
      refine ⟨hX, hle'.trans (hle _), fun hlt => (hiff hlt).trans ?_⟩
      rw [hrung]
      split
      · rename_i hq
        have := (hrec.promoted_spec h hr hq).2.1
        omega
      · exact Iff.rfl
  · intro x hx k hk
    rw [hrec.mem_ids hin]
    rw [hrung] at hk
    split at hk
    · rename_i hq
      obtain ⟨-, hrq, -, hor⟩ := hrec.promoted_spec h hr hq
      rcases Nat.lt_succ_iff_lt_or_eq.mp hk with hlt | rfl
      · exact .inr (h.below x hx k (by omega))
      · exact hor.imp (fun h => ⟨rfl, h⟩) id
    · exact .inr (h.below x hx k hk)
  · intro k hk
    have hbound := h.bound
    rw [hrec.outstanding k (by omega), h.outstanding k hk]
    rcases eq_or_ne k (s.rungOf r) with rfl | hne
    · have hmem : r ∈ waiting X s (s.rungOf r) :=
        Finset.mem_filter.mpr ⟨hr, rfl, hnew hk⟩
      have hpos := Finset.card_pos.mpr ⟨r, hmem⟩
      rw [hrec.waiting_self h hr, Finset.card_erase_of_mem hmem]
      simp
      omega
    · by_cases hnext : promoted.isSome = true ∧ k = s.rungOf r + 1
      · obtain ⟨q, hq⟩ := Option.isSome_iff_exists.mp hnext.1
        obtain ⟨-, hrq, -⟩ := hrec.promoted_spec h hr hq
        obtain ⟨-, rfl⟩ := hnext
        have hnot : q ∉ waiting X s (s.rungOf r + 1) := by
          rw [waiting, Finset.mem_filter]
          omega
        rw [hrec.waiting_next h hr hq hk, Finset.card_insert_of_notMem hnot]
        simp [hq]
      · rw [hrec.waiting_other h hr hne fun hsome heq => hnext ⟨hsome, heq⟩, if_neg hne, if_neg hnext]
        simp

/-- A metric in a rung that is not counted changes nothing. -/
theorem placed_of_top (h : Placed X b s) (hb : b ≤ s.rungOf r) (hin : s.rungOf r < s.rungs.length) :
    Placed X b s' := by
  have hbound := h.bound
  obtain ⟨rfl, -⟩ := hrec.top (by omega)
  obtain ⟨rungs, trialRungs, heq⟩ := hrec.frame
  have htrials : s'.trialRungs = s.trialRungs := hrec.trialRungs
  have hrung : s'.rungOf = s.rungOf := by
    funext x
    rw [rungOf, htrials, rungOf]
  have hmetrics : ∀ k < b, (s'.rung k).metrics = (s.rung k).metrics :=
    fun k hk => hrec.other k (by omega)
  refine ⟨⟨?_, ?_⟩, ?_, ?_, ?_, ?_, ?_, ?_, ?_⟩
  · rw [hrec.length]
    exact h.shaped.1
  · rw [hrec.length, heq]
    exact h.shaped.2
  · rw [hrec.length]
    exact h.bound
  · rw [htrials]
    exact h.known
  · rw [hrec.length, hrung]
    exact h.inRange
  · intro k hk
    rw [hmetrics k hk]
    exact h.nodup k hk
  · intro k hk
    rw [hmetrics k hk, hrec.length, hrung]
    exact h.entry k hk
  · intro x hx k hk
    rw [hrung] at hk
    have := h.inRange x hx
    rw [hmetrics k (by omega)]
    exact h.below x hx k hk
  · intro k hk
    have hne : k ≠ s.rungOf r := by omega
    have hwait : waiting X s' k = waiting X s k := by
      simp only [waiting, hrung, hmetrics k hk]
    rw [hrec.outstanding k (by omega), hwait, h.outstanding k hk, if_neg hne]
    simp

/-- Recording a metric of a trial that has none in its rung keeps the rungs right. -/
theorem placed (h : Placed X b s) (hin : s.rungOf r < s.rungs.length)
    (hnew : s.rungOf r < b → r ∈ X ∧ r ∉ metricIDs (s.rung (s.rungOf r)).metrics) :
    Placed X b s' := by
  rcases Nat.lt_or_ge (s.rungOf r) b with hlt | hge
  · exact hrec.placed_of_mem h (hnew hlt).1 fun hb => (hnew hb).2
  · exact hrec.placed_of_top h hge hin

end Recorded

/-! ### Promotions -/

/-- To show `Q` of what a metric of `r` comes to, find a `P` that is handed on to each exited trial
    that is promoted in turn. The rungs left suffice. -/
theorem promoteWithin_rule {rand : Rand ι} {P : AsyncHalvingSearch ι → ι → ℚ → Prop}
    {Q : Outcome (AsyncHalvingSearch ι) ι → Prop}
    (hP : ∀ s r metric, P s r metric → s.Shaped ∧ s.rungOf r < s.rungs.length)
    (hnext : ∀ s r metric s' q, P s r metric → Recorded s r metric s' (some q) →
      q ∈ s.earlyExitTrials → P s' q exitedMetricValue)
    (hsend : ∀ s r metric s' q units, P s r metric → Recorded s r metric s' (some q) →
      q ∉ s.earlyExitTrials → Q (s'.finishPromotion rand [newTrain q units, newValidate q] true))
    (hstay : ∀ s r metric s', P s r metric → Recorded s r metric s' none →
      s.rungOf r + 1 < s.rungs.length ∨ r ∈ s.earlyExitTrials → Q (s'.finishPromotion rand [] false))
    (hclose : ∀ s r metric s', P s r metric → Recorded s r metric s' none →
      s.rungOf r + 1 = s.rungs.length → r ∉ s.earlyExitTrials →
      Q ({ s' with closedTrials := insert r s'.closedTrials }.finishPromotion rand [.close r] false))
    (n : ℕ) : ∀ {s : AsyncHalvingSearch ι} {r : ι} {metric : ℚ}, P s r metric →
      s.rungs.length ≤ n + s.rungOf r + 1 → Q (promoteWithin n s rand r metric) := by
  have hbody : ∀ n, (∀ m, n = m + 1 → ∀ {s : AsyncHalvingSearch ι} {r : ι} {metric : ℚ},
      P s r metric → s.rungs.length ≤ m + s.rungOf r + 1 → Q (promoteWithin m s rand r metric)) →
      ∀ {s : AsyncHalvingSearch ι} {r : ι} {metric : ℚ}, P s r metric →
        s.rungs.length ≤ n + s.rungOf r + 1 → Q (promoteWithin n s rand r metric) := by
    intro n ih s r metric hs hn
    obtain ⟨hshaped, hin⟩ := hP s r metric hs
    have hrec := recorded_recordMetric (r := r) (s := s) hshaped hin metric
    generalize hrecorded : s.recordMetric r metric = recorded at hrec
    obtain ⟨s', promoted⟩ := recorded
    dsimp only at hrec
    obtain ⟨rungs, trialRungs, heq⟩ := hrec.frame
    have hexits : s'.earlyExitTrials = s.earlyExitTrials := by rw [heq]
    have htop : s'.isTop (s.rungOf r) = s.isTop (s.rungOf r) := by rw [heq]; rfl
    unfold promoteWithin
    simp only [hrecorded]
    cases promoted with
    | none =>
      dsimp only
      split
      · rename_i hcond
        rw [hexits, htop, hshaped.isTop_iff] at hcond
        exact hclose s r metric s' hs hrec hcond.1 hcond.2
      · rename_i hcond
        rw [hexits, htop, hshaped.isTop_iff] at hcond
        refine hstay s r metric s' hs hrec ?_
        by_cases hr : r ∈ s.earlyExitTrials
        · exact .inr hr
        · have : s.rungOf r + 1 ≠ s.rungs.length := fun h => hcond ⟨h, hr⟩
          exact .inl (by omega)
    | some q =>
      dsimp only
      rw [hexits]
      split
      · rename_i hq
        exact hsend s r metric s' q _ hs hrec hq
      · rename_i hq
        have hlt : s.rungOf r + 1 < s.rungs.length := by
          by_contra hge
          have := (hrec.top (by omega)).1
          cases this
        have hrung : s'.rungOf q = s.rungOf r + 1 := by
          rw [hrec.rungOf_eq, if_pos rfl]
        cases n with
        | zero => omega
        | succ m =>
          refine ih m rfl (hnext s r metric s' q hs hrec (not_not.mp hq)) ?_
          rw [hrec.length, hrung]
          omega
  induction n with
  | zero => exact hbody 0 fun m hm => by cases hm
  | succ n ih => exact hbody (n + 1) fun m hm => by cases hm; exact ih

/-! ### Creating and closing trials -/

/-- Closing out a list of metrics: every trial in it that was not promoted is closed now, or was, or
    has exited. -/
theorem foldl_closeOut (l : List (TrialMetric ι)) : ∀ (ops : List (Operation ι)) (closed : Finset ι),
    ∃ closing : List ι, l.foldl s.closeOut (ops, closed) =
        (ops ++ closing.map .close, closed ∪ closing.toFinset) ∧
      (∀ q ∈ closing, q ∉ closed ∧ q ∉ s.earlyExitTrials ∧
        ∃ tm ∈ l, tm.requestID = q ∧ tm.promoted = false) ∧
      ∀ tm ∈ l, tm.promoted = true ∨ tm.requestID ∈ closed ∪ closing.toFinset ∨
        tm.requestID ∈ s.earlyExitTrials := by
  induction l with
  | nil => exact fun ops closed => ⟨[], by simp⟩
  | cons tm l ih =>
    intro ops closed
    rw [List.foldl_cons, closeOut]
    split
    · rename_i hcond
      obtain ⟨hp, hc, he⟩ := hcond
      obtain ⟨closing, hfold, hclosing, hall⟩ :=
        ih (ops ++ [.close tm.requestID]) (insert tm.requestID closed)
      refine ⟨tm.requestID :: closing, ?_, ?_, ?_⟩
      · rw [hfold]
        simp [Finset.insert_union, Finset.union_insert]
      · intro q hq
        rcases List.mem_cons.mp hq with rfl | hq
        · exact ⟨hc, he, tm, List.mem_cons_self .., rfl, hp⟩
        · obtain ⟨hqc, hqe, tm', htm', hid, hp'⟩ := hclosing q hq
          exact ⟨fun h => hqc (Finset.mem_insert_of_mem h), hqe, tm', List.mem_cons_of_mem _ htm', hid,
            hp'⟩
      · intro tm' htm'
        rcases List.mem_cons.mp htm' with rfl | htm'
        · simp
        · simpa [or_assoc, or_left_comm] using hall tm' htm'
    · rename_i hcond
      obtain ⟨closing, hfold, hclosing, hall⟩ := ih ops closed
      refine ⟨closing, hfold, fun q hq => ?_, fun tm' htm' => ?_⟩
      · obtain ⟨hqc, hqe, tm', htm', hid⟩ := hclosing q hq
        exact ⟨hqc, hqe, tm', List.mem_cons_of_mem _ htm', hid⟩
      · rcases List.mem_cons.mp htm' with rfl | htm'
        · by_cases hp : tm'.promoted = true
          · exact .inl hp
          · by_cases hc : tm'.requestID ∈ closed
            · exact .inr (.inl (Finset.mem_union_left _ hc))
            · by_cases he : tm'.requestID ∈ s.earlyExitTrials
              · exact .inr (.inr he)
              · exact absurd ⟨by simpa using hp, hc, he⟩ hcond
        · exact hall tm' htm'

/-- How a metric's processing ends: perhaps a new trial, and trials to close. -/
structure Finished (s : AsyncHalvingSearch ι) (rand : Rand ι) (ops : List (Operation ι))
    (added created : Bool) (closing : List ι) (out : Outcome (AsyncHalvingSearch ι) ι) : Prop where
  ops_eq : out.ops = ops ++ (if created then (s.createTrial rand).ops else []) ++ closing.map .close
  rand_eq : out.rand = if created then (newCreate rand).2 else rand
  method_eq : out.method = { s with
    trialRungs := if created then s.trialRungs.insert (newCreate rand).1.requestID 0 else s.trialRungs
    closedTrials := s.closedTrials ∪ closing.toFinset }
  created_iff : created = true ↔
    added = false ∧ (s.trialRungs.keys.length - s.invalidTrials : ℤ) < s.maxTrials
  closing_spec : ∀ q ∈ closing, q ∉ s.closedTrials ∧ q ∉ s.earlyExitTrials ∧
    ∃ k < s.rungs.length, ∃ tm ∈ (s.rung k).metrics, tm.requestID = q ∧ tm.promoted = false
  closedOut : ((s.rung 0).metrics.length : ℤ) = s.maxTrials → ∀ k < s.rungs.length,
    (∀ j ≤ k, (s.rung j).outstandingTrials ≤ 0) → ∀ tm ∈ (s.rung k).metrics,
      tm.promoted = true ∨ tm.requestID ∈ out.method.closedTrials ∨ tm.requestID ∈ s.earlyExitTrials

theorem mem_takeWhile_of_forall {α : Type} {p : α → Bool} {l : List α} {k : ℕ} (hk : k < l.length)
    (h : ∀ j (hj : j ≤ k), p (l.get ⟨j, by omega⟩) = true) : l[k] ∈ l.takeWhile p := by
  induction l generalizing k with
  | nil => cases hk
  | cons a l ih =>
    have ha : p a = true := h 0 (Nat.zero_le k)
    rw [List.takeWhile_cons, if_pos ha]
    cases k with
    | zero => exact List.mem_cons_self ..
    | succ k =>
      refine List.mem_cons_of_mem _ (ih (by simpa using hk) fun j hj => ?_)
      exact h (j + 1) (by omega)

/-- Which trials closing out the rungs closes. -/
theorem closeOutRungs_spec (s : AsyncHalvingSearch ι) : ∃ closing : List ι,
    s.closeOutRungs = (closing.map .close,
      { s with closedTrials := s.closedTrials ∪ closing.toFinset }) ∧
      (∀ q ∈ closing, q ∉ s.closedTrials ∧ q ∉ s.earlyExitTrials ∧
        ∃ k < s.rungs.length, ∃ tm ∈ (s.rung k).metrics, tm.requestID = q ∧ tm.promoted = false) ∧
      ∀ k < s.rungs.length, (∀ j ≤ k, (s.rung j).outstandingTrials ≤ 0) → ∀ tm ∈ (s.rung k).metrics,
        tm.promoted = true ∨ tm.requestID ∈ s.closedTrials ∪ closing.toFinset ∨
          tm.requestID ∈ s.earlyExitTrials := by
  obtain ⟨closing, hfold, hclosing, hall⟩ := s.foldl_closeOut
    ((s.rungs.takeWhile fun rung : Rung ι => decide (rung.outstandingTrials ≤ 0)).flatMap
      fun rung : Rung ι => rung.metrics) [] s.closedTrials
  refine ⟨closing, ?_, fun q hq => ?_, fun k hk hopen tm htm => hall tm ?_⟩
  · simp [closeOutRungs, hfold]
  · obtain ⟨hc, he, tm, htm, hid, hp⟩ := hclosing q hq
    obtain ⟨rung, hrung, htm⟩ := List.mem_flatMap.mp htm
    obtain ⟨k, hk, rfl⟩ := List.mem_iff_getElem.mp ((List.takeWhile_sublist _).subset hrung)
    exact ⟨hc, he, k, hk, tm, by rwa [rung_eq_getElem hk], hid, hp⟩
  · refine List.mem_flatMap.mpr ⟨s.rungs[k], mem_takeWhile_of_forall hk fun j hj => ?_, ?_⟩
    · have := hopen j hj
      rw [rung_eq_getElem (by omega)] at this
      exact decide_eq_true this
    · rwa [rung_eq_getElem hk] at htm

theorem finished_finishPromotion (s : AsyncHalvingSearch ι) (rand : Rand ι)
    (ops : List (Operation ι)) (added : Bool) :
    ∃ created closing, Finished s rand ops added created closing (s.finishPromotion rand ops added) := by
  obtain ⟨created, hcreated⟩ : ∃ created : Bool, created = true ↔
      added = false ∧ (s.trialRungs.keys.length - s.invalidTrials : ℤ) < s.maxTrials :=
    ⟨decide _, decide_eq_true_iff⟩
  obtain ⟨t, ht⟩ : ∃ t : AsyncHalvingSearch ι, t = { s with
      trialRungs := if created = true then s.trialRungs.insert (newCreate rand).1.requestID 0
        else s.trialRungs } :=
    ⟨_, rfl⟩
  have hout : (if added = false ∧ (s.trialRungs.keys.length - s.invalidTrials : ℤ) < s.maxTrials
      then s.createTrial rand else ⟨[], s, rand⟩) =
      ⟨if created = true then (s.createTrial rand).ops else [], t,
        if created = true then (newCreate rand).2 else rand⟩ := by
    rw [ht]
    split
    · rename_i hcond
      rw [hcreated.mpr hcond]
      rfl
    · rename_i hcond
      have : created = false := by
        rw [Bool.eq_false_iff]
        exact fun h => hcond (hcreated.mp h)
      rw [this]
      rfl
  unfold finishPromotion
  dsimp only
  rw [hout]
  dsimp only
  by_cases hfull : ((t.rung 0).metrics.length : ℤ) = t.maxTrials
  · rw [if_pos hfull]
    obtain ⟨closing, heq, hclosing, hall⟩ := t.closeOutRungs_spec
    rw [heq]
    rw [ht] at hclosing hall ⊢
    exact ⟨created, closing, rfl, rfl, rfl, hcreated, hclosing, fun _ => hall⟩
  · rw [if_neg hfull]
    rw [ht] at hfull ⊢
    exact ⟨created, [], by simp, rfl, by simp, hcreated, by simp, fun heq => absurd heq hfull⟩

end AsyncHalvingSearch

end Determined.Searcher
