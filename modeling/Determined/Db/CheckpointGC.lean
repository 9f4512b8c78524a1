import Determined.Db.Checkpoints

/-! What garbage collection keeps.

    A policy protects the first of the checkpoints in some order: the latest of a trial, or those
    with the best metric of a trial or of the experiment. The query ranks all checkpoints instead,
    those without a metric last. A rank only gets better when others are deleted, so that what is
    kept is kept again. -/

namespace Determined.Db
open Determined.Schemes

namespace Database

variable (db : Database) (e : Experiment) (const : Const)

/-! ### What the policies protect -/

/-- The completed checkpoints of a trial of the experiment. -/
def ofTrial (trial : ℤ) : List Checkpoint := (db.completed e).filter (·.trialId == trial)

/-- The latest checkpoints. -/
def latest (n : ℕ) (rows : List Checkpoint) : List Checkpoint := (sortOn stepKey rows).take n

def withMetric (rows : List Checkpoint) : List Checkpoint :=
  rows.filter fun c => (db.metricOf const.metricName c).isSome

/-- The signed metric, ties broken by the id. -/
def bestKey (c : Checkpoint) : ℚ ×ₗ ℤ :=
  toLex (const.sign * (db.metricOf const.metricName c).getD 0, c.id)

/-- The best checkpoints by their metric. -/
def best (n : ℕ) (rows : List Checkpoint) : List Checkpoint :=
  (sortOn (db.bestKey const) (db.withMetric const rows)).take n

/-- The checkpoint is one that some trial was started from. -/
def WarmStart (c : Checkpoint) : Prop := ∃ t ∈ db.trials, t.warmStartCheckpointId = some c.id

/-- What is not to be deleted. -/
def Protected (experimentBest trialBest trialLatest : ℕ) (c : Checkpoint) : Prop :=
  c ∈ latest trialLatest (db.ofTrial e c.trialId) ∨
    c ∈ db.best const trialBest (db.ofTrial e c.trialId) ∨
      c ∈ db.best const experimentBest (db.completed e) ∨ db.WarmStart c

/-! ### Ranks -/

variable {db e const} {c : Checkpoint} {rows : List Checkpoint} {n : ℕ}

theorem nodup_completed_ids : ((db.completed e).map (·.id)).Nodup :=
  db.checkpoints_pkey.sublist (List.filter_sublist.map _)

theorem nodup_ofTrial_steps (trial : ℤ) : ((db.ofTrial e trial).map stepKey).Nodup := by
  have hsub : (db.ofTrial e trial).Sublist db.checkpoints :=
    List.filter_sublist.trans List.filter_sublist
  have hpairs := db.checkpoints_trial_step_unique.sublist (hsub.map _)
  have htrial : (db.ofTrial e trial).map (fun c => (c.trialId, c.stepId)) =
      ((db.ofTrial e trial).map stepKey).map fun step => (trial, OrderDual.ofDual step) := by
    rw [List.map_map]
    refine List.map_congr_left fun c hc => ?_
    have : c.trialId = trial := by simpa using (List.mem_filter.mp hc).2
    simp [stepKey, this]
  rw [htrial] at hpairs
  exact hpairs.of_map _

theorem trialOrderRank_le_iff (hc : c ∈ db.completed e) :
    db.trialOrderRank e c ≤ n ↔ c ∈ latest n (db.ofTrial e c.trialId) :=
  rankOn_le_iff (nodup_ofTrial_steps c.trialId) (List.mem_filter.mpr ⟨hc, beq_self_eq_true _⟩)

theorem mem_of_mem_best (h : c ∈ db.best const n rows) :
    c ∈ rows ∧ (db.metricOf const.metricName c).isSome :=
  List.mem_filter.mp (sortOn_perm.mem_iff.mp (List.mem_of_mem_take h))

/-- Checkpoints without a metric come after the others, and those are ranked by the metric. -/
theorem metricKey_lt_iff {c' : Checkpoint} (hc : (db.metricOf const.metricName c).isSome) :
    db.metricKey const c' < db.metricKey const c ↔
      (db.metricOf const.metricName c').isSome ∧ db.bestKey const c' < db.bestKey const c := by
  obtain ⟨x, hx⟩ := Option.isSome_iff_exists.mp hc
  rw [metricKey, metricKey, bestKey, bestKey, hx, Prod.Lex.toLex_lt_toLex, Prod.Lex.toLex_lt_toLex]
  cases h : db.metricOf const.metricName c' with
  | none =>
    simp only [Option.map_none, Option.map_some, nullsLast, not_top_lt, WithTop.top_ne_coe,
      Option.isSome_none, Bool.false_eq_true, false_and, or_self]
  | some y =>
    simp only [Option.map_some, nullsLast, WithTop.coe_lt_coe, WithTop.coe_inj, Option.isSome_some,
      Option.getD_some, true_and]

/-- Of the checkpoints with a metric, the best are those of the first ranks. -/
theorem rankOn_metricKey_le_iff (hids : (rows.map (·.id)).Nodup) (hc : c ∈ rows)
    (hmetric : (db.metricOf const.metricName c).isSome) :
    rankOn (db.metricKey const) rows c ≤ n ↔ c ∈ db.best const n rows := by
  have hrank : rankOn (db.metricKey const) rows c =
      rankOn (db.bestKey const) (db.withMetric const rows) c := by
    rw [rankOn, rankOn, withMetric, List.countP_filter]
    congr 1
    refine List.countP_congr fun c' _ => ?_
    simp only [Bool.and_eq_true, decide_eq_true_eq, metricKey_lt_iff hmetric]
    exact and_comm
  have hkeys : ((db.withMetric const rows).map (db.bestKey const)).Nodup := by
    have hsub : ((db.withMetric const rows).map (·.id)).Nodup :=
      hids.sublist (List.filter_sublist.map _)
    refine List.Nodup.of_map (fun key : ℚ ×ₗ ℤ => (ofLex key).2) ?_
    rwa [List.map_map]
  rw [hrank]
  exact rankOn_le_iff hkeys (List.mem_filter.mpr ⟨hc, hmetric⟩)

/-! ### What is selected -/

theorem exceeds_iff {rank : ℕ} : exceeds rank (some (n : ℤ)) = true ↔ ¬ rank ≤ n := by
  simp [exceeds]

variable {experimentBest trialBest trialLatest : ℕ}

/-- A checkpoint is selected if no policy protects it. -/
theorem mem_selectedCheckpoints (hexperiment : const.experimentBest = some (experimentBest : ℤ))
    (htrial : const.trialBest = some (trialBest : ℤ))
    (hlatest : const.trialLatest = some (trialLatest : ℤ)) :
    c ∈ db.selectedCheckpoints e const ↔
      c ∈ db.completed e ∧ ¬ db.Protected e const experimentBest trialBest trialLatest c := by
  rw [selectedCheckpoints, List.mem_filter]
  refine and_congr_right fun hc => ?_
  have hwarm : (db.trials.filter fun t => t.warmStartCheckpointId == some c.id).length = 0 ↔
      ¬ db.WarmStart c := by
    rw [List.length_eq_zero_iff, List.filter_eq_nil_iff, WarmStart]
    simp
  have hbest : (db.metricOf const.metricName c).isSome →
      (db.experimentRank e const c ≤ experimentBest ↔
        c ∈ db.best const experimentBest (db.completed e)) ∧
      (db.trialRank e const c ≤ trialBest ↔
        c ∈ db.best const trialBest (db.ofTrial e c.trialId)) := fun hmetric =>
    ⟨rankOn_metricKey_le_iff nodup_completed_ids hc hmetric,
      rankOn_metricKey_le_iff (nodup_completed_ids.sublist (List.filter_sublist.map _))
        (List.mem_filter.mpr ⟨hc, beq_self_eq_true _⟩) hmetric⟩
  have hnone : (db.metricOf const.metricName c).isSome = false →
      c ∉ db.best const experimentBest (db.completed e) ∧
        c ∉ db.best const trialBest (db.ofTrial e c.trialId) := fun hmetric =>
    ⟨fun h => by simp [(mem_of_mem_best h).2] at hmetric,
      fun h => by simp [(mem_of_mem_best h).2] at hmetric⟩
  simp only [hexperiment, htrial, hlatest, Option.isSome_some, Bool.or_self, Bool.true_and,
    Bool.and_eq_true, Bool.or_eq_true, decide_eq_true_eq, exceeds_iff, hwarm,
    trialOrderRank_le_iff hc, Protected, not_or]
  cases hmetric : (db.metricOf const.metricName c).isSome with
  | true =>
    obtain ⟨hE, hT⟩ := hbest hmetric
    have hisNone : ¬ (db.metricOf const.metricName c).isNone = true := by
      simpa [Option.isSome_iff_ne_none] using hmetric
    simp only [hE, hT, hisNone]
    tauto
  | false =>
    obtain ⟨hE, hT⟩ := hnone hmetric
    have hisNone : (db.metricOf const.metricName c).isNone = true := by
      simpa using hmetric
    simp only [hE, hT, hisNone, or_true]
    tauto

/-! ### How many are protected -/

theorem nodup_completed : (db.completed e).Nodup := List.Nodup.of_map _ nodup_completed_ids

theorem latest_spec (hrows : rows.Nodup) (n : ℕ) :
    (latest n rows).Nodup ∧ (latest n rows).length = min n rows.length := by
  have hperm : (sortOn stepKey rows).Perm rows := sortOn_perm
  refine ⟨(hperm.nodup_iff.mpr hrows).sublist (List.take_sublist ..), ?_⟩
  rw [latest, List.length_take, hperm.length_eq]

theorem best_spec (hrows : rows.Nodup) (n : ℕ) : (db.best const n rows).Nodup ∧
    (db.best const n rows).length = min n (db.withMetric const rows).length := by
  have hperm : (sortOn (db.bestKey const) (db.withMetric const rows)).Perm
      (db.withMetric const rows) := sortOn_perm
  have hmetric : (db.withMetric const rows).Nodup := hrows.filter _
  refine ⟨(hperm.nodup_iff.mpr hmetric).sublist (List.take_sublist ..), ?_⟩
  rw [best, List.length_take, hperm.length_eq]

/-! ### Collecting again -/

/-- What is marked as deleted is no longer among the completed checkpoints. -/
theorem completed_markDeleted (selected : List Checkpoint) :
    (db.markDeleted selected).completed e =
      (db.completed e).filter fun c => decide (c.id ∉ selected.map (·.id)) := by
  have hmarked : ∀ c : Checkpoint, (decide ((c.marked selected).state = .completed) &&
      db.trials.any fun t => decide ((c.marked selected).trialId = t.id) &&
        decide (t.experimentId = e.id)) = (decide (c.id ∉ selected.map (·.id)) &&
      (decide (c.state = .completed) && db.trials.any fun t =>
        decide (c.trialId = t.id) && decide (t.experimentId = e.id))) := by
    intro c
    rw [Checkpoint.marked_trialId, Checkpoint.marked]
    by_cases hmem : c.id ∈ selected.map (·.id)
    · rw [if_pos hmem, decide_eq_false (not_not.mpr hmem)]
      rfl
    · rw [if_neg hmem, decide_eq_true hmem, Bool.true_and]
  rw [completed, completed, List.filter_filter, markDeleted, List.filter_map]
  simp only [Function.comp_def, hmarked]
  rw [List.map_congr_left fun c hc => ?_, List.map_id]
  have hnot : c.id ∉ selected.map (·.id) := by
    simpa using (Bool.and_eq_true_iff.mp (List.mem_filter.mp hc).2).1
  rw [Checkpoint.marked, if_neg hnot, id]

theorem exceeds_mono {rank rank' : ℕ} {n : Option ℤ} (hle : rank' ≤ rank)
    (h : exceeds rank' n = true) : exceeds rank n = true := by
  cases n with
  | none => simp [exceeds] at h
  | some n =>
    simp only [exceeds, Option.any_some, decide_eq_true_eq] at h ⊢
    omega

/-- What is left after a collection is not selected by another one. -/
theorem selectedCheckpoints_markDeleted :
    (db.markDeleted (db.selectedCheckpoints e const)).selectedCheckpoints e const = [] := by
  have hsub : ((db.markDeleted (db.selectedCheckpoints e const)).completed e).Sublist
      (db.completed e) := by
    rw [completed_markDeleted]
    exact List.filter_sublist
  rw [selectedCheckpoints, List.filter_eq_nil_iff]
  intro c hc hselected
  have hcompleted := hsub.subset hc
  rw [completed_markDeleted, List.mem_filter] at hc
  have hnot : c ∉ db.selectedCheckpoints e const := fun hmem => by
    have := hc.2
    simp only [decide_eq_true_eq] at this
    exact this (List.mem_map_of_mem hmem)
  refine hnot (List.mem_filter.mpr ⟨hcompleted, ?_⟩)
  simp only [Bool.and_eq_true, Bool.or_eq_true] at hselected ⊢
  obtain ⟨⟨⟨hpolicy, hwarm⟩, horder⟩, hrank⟩ := hselected
  refine ⟨⟨⟨hpolicy, hwarm⟩, exceeds_mono (rankOn_mono (hsub.filter _)) horder⟩, ?_⟩
  exact hrank.imp_left fun ⟨hE, hT⟩ =>
    ⟨exceeds_mono (rankOn_mono hsub) hE, exceeds_mono (rankOn_mono (hsub.filter _)) hT⟩

/-! ### Collection -/

/-- The order of the ids is that of the output only. -/
theorem mem_collected {experimentBest trialBest trialLatest : Option ℤ} {delete : Bool} :
    c ∈ (db.experimentCheckpointsToGCRaw e experimentBest trialBest trialLatest delete).2.2 ↔
      c ∈ db.selectedCheckpoints e (e.const experimentBest trialBest trialLatest) :=
  sortOn_perm.mem_iff

/-- CORRECT: a collection selects the completed checkpoints that no policy protects and from which
    no trial was started. The best policies protect as many checkpoints as they say, or all that
    have a metric, and the latest policy as many as it says, or all of the trial. A second
    collection selects nothing. -/
theorem collection_keeps_protected (db : Database) (e : Experiment)
    (argBest argTrialBest argLatest : Option ℤ) {experimentBest trialBest trialLatest : ℕ}
    (hexperiment : (e.const argBest argTrialBest argLatest).experimentBest =
      some (experimentBest : ℤ))
    (htrial : (e.const argBest argTrialBest argLatest).trialBest = some (trialBest : ℤ))
    (hlatest : (e.const argBest argTrialBest argLatest).trialLatest = some (trialLatest : ℤ)) :
    (∀ delete c, c ∈ (db.experimentCheckpointsToGCRaw e argBest argTrialBest argLatest
        delete).2.2 ↔ c ∈ db.completed e ∧ ¬ db.Protected e (e.const argBest argTrialBest argLatest)
          experimentBest trialBest trialLatest c) ∧
      (∀ trial, (latest trialLatest (db.ofTrial e trial)).Nodup ∧
        (latest trialLatest (db.ofTrial e trial)).length =
          min trialLatest (db.ofTrial e trial).length) ∧
      (∀ const trial, (db.best const trialBest (db.ofTrial e trial)).Nodup ∧
        (db.best const trialBest (db.ofTrial e trial)).length =
          min trialBest (db.withMetric const (db.ofTrial e trial)).length) ∧
      (∀ const, (db.best const experimentBest (db.completed e)).Nodup ∧
        (db.best const experimentBest (db.completed e)).length =
          min experimentBest (db.withMetric const (db.completed e)).length) ∧
      ∀ delete, ((db.experimentCheckpointsToGCRaw e argBest argTrialBest argLatest
        true).1.experimentCheckpointsToGCRaw e argBest argTrialBest argLatest delete).2.2 = [] := by
  refine ⟨fun delete c => ?_, fun trial => latest_spec (nodup_completed.filter _) _,
    fun const trial => best_spec (nodup_completed.filter _) _,
    fun const => best_spec nodup_completed _, fun delete => ?_⟩
  · rw [mem_collected, mem_selectedCheckpoints hexperiment htrial hlatest]
  · rw [List.eq_nil_iff_forall_not_mem]
    intro c hc
    rw [mem_collected] at hc
    rw [experimentCheckpointsToGCRaw, if_pos rfl, selectedCheckpoints_markDeleted] at hc
    simp at hc

/-- Of three checkpoints the second has the best metric and the third none. -/
def threeCheckpoints : Database where
  checkpoints := [⟨1, 1, 1, .completed⟩, ⟨2, 1, 2, .completed⟩, ⟨3, 1, 3, .completed⟩]
  trials := [⟨1, 1, none⟩]
  validations := [⟨1, 1, fun _ => some 3⟩, ⟨1, 2, fun _ => some 1⟩, ⟨1, 3, fun _ => none⟩]
  checkpoints_pkey := by decide
  checkpoints_trial_step_unique := by decide
  trials_pkey := by decide
  validations_trial_step_unique := by decide

/-- One best checkpoint of the experiment and the latest of each trial are to be kept. -/
def keepOne : Experiment := ⟨1, "loss", none, some 1, some 0, some 1⟩

theorem collection_keeps_protected_three :
    ⟨2, 1, 2, .completed⟩ ∉
        (threeCheckpoints.experimentCheckpointsToGCRaw keepOne none none none true).2.2 ∧
      ((threeCheckpoints.experimentCheckpointsToGCRaw keepOne none none none
        true).1.experimentCheckpointsToGCRaw keepOne none none none true).2.2 = [] := by
  obtain ⟨hselected, -, -, -, hagain⟩ := collection_keeps_protected threeCheckpoints keepOne none
    none none rfl rfl rfl
  refine ⟨fun h => ((hselected true _).mp h).2 (.inr (.inr (.inl ?_))), hagain true⟩
  decide +kernel

/-- The only checkpoint has not been validated. -/
def oneUnvalidated : Database where
  checkpoints := [⟨1, 1, 1, .completed⟩]
  trials := [⟨1, 1, none⟩]
  validations := []
  checkpoints_pkey := by decide
  checkpoints_trial_step_unique := by decide
  trials_pkey := by decide
  validations_trial_step_unique := by decide

/-- The latest checkpoint of a trial is kept though no checkpoint has a metric. -/
theorem latest_without_metric :
    (oneUnvalidated.experimentCheckpointsToGCRaw keepOne none none none true).2.2 = [] ∧
      (latest 1 (oneUnvalidated.ofTrial keepOne 1)).length ≠
        min 1 (oneUnvalidated.withMetric (keepOne.const none none none)
          (oneUnvalidated.ofTrial keepOne 1)).length := by
  decide +kernel

end Database

end Determined.Db
