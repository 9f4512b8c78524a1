import Determined.Searcher.SyncHalvingRuns

/-! Every run of a synchronous halving search in which no trial is stranded completes: the invariant
    of `SyncHalvingRuns` holds from the start on, and leaves nothing to be done. -/

namespace Determined.Searcher
open Determined.Model Determined.Schemes

variable {ι : Type}

/-! ### The rungs a search starts with -/

/-- Rungs without results that promote what the next one starts with. -/
def Ladder : List (Rung ι) → Prop
  | [] => False
  | [rung] => rung.metrics = [] ∧ rung.promoteTrials = 0
  | rung :: next :: rungs => rung.metrics = [] ∧ rung.promoteTrials = next.startTrials ∧
      1 ≤ rung.promoteTrials ∧ rung.promoteTrials ≤ rung.startTrials ∧ Ladder (next :: rungs)

theorem Ladder.getD {rungs : List (Rung ι)} (h : Ladder rungs) : 0 < rungs.length ∧
    (∀ k, (rungs.getD k default).metrics = []) ∧
    (∀ k, k + 1 < rungs.length →
      (rungs.getD k default).promoteTrials = (rungs.getD (k + 1) default).startTrials ∧
      1 ≤ (rungs.getD k default).promoteTrials ∧
      (rungs.getD k default).promoteTrials ≤ (rungs.getD k default).startTrials) ∧
    (rungs.getD (rungs.length - 1) default).promoteTrials = 0 := by
  induction rungs with
  | nil => exact h.elim
  | cons rung rungs ih =>
    cases rungs with
    | nil =>
      obtain ⟨hm, hp⟩ := h
      refine ⟨Nat.one_pos, fun k => ?_, fun k hk => ?_, hp⟩
      · cases k with
        | zero => exact hm
        | succ k => rfl
      · simp at hk
    | cons next rungs =>
      obtain ⟨hm, hnext, hone, hle, hrest⟩ := h
      obtain ⟨-, hms, hnexts, htop⟩ := ih hrest
      refine ⟨by simp, fun k => ?_, fun k hk => ?_, htop⟩
      · cases k with
        | zero => exact hm
        | succ k => exact hms k
      · cases k with
        | zero => exact ⟨hnext, hone, hle⟩
        | succ k => exact hnexts k (by simpa using hk)

theorem scaleRungs_start (multiplier : ℚ) (prev : Rung ι) (rungs : List (Rung ι)) :
    ((scaleRungs multiplier prev rungs).getD 0 default).startTrials = prev.startTrials := by
  cases rungs <;> rfl

theorem length_scaleRungs (multiplier : ℚ) (rungs : List (Rung ι)) : ∀ prev : Rung ι,
    (scaleRungs multiplier prev rungs).length = rungs.length + 1 := by
  induction rungs with
  | nil => exact fun _ => rfl
  | cons cur rungs ih =>
    intro prev
    rw [scaleRungs, List.length_cons, ih, List.length_cons]

theorem linkRungs_start (prev : Rung ι) (rungs : List (Rung ι)) :
    ((linkRungs prev rungs).getD 0 default).startTrials = prev.startTrials := by
  cases rungs <;> rfl

theorem length_linkRungs (rungs : List (Rung ι)) : ∀ prev : Rung ι,
    (linkRungs prev rungs).length = rungs.length + 1 := by
  induction rungs with
  | nil => exact fun _ => rfl
  | cons cur rungs ih =>
    intro prev
    rw [linkRungs, List.length_cons, ih, List.length_cons]

theorem ladder_scaleRungs (multiplier : ℚ) (rungs : List (Rung ι)) : ∀ {prev : Rung ι},
    prev.metrics = [] → prev.promoteTrials = 0 → 1 ≤ prev.startTrials →
      Ladder (scaleRungs multiplier prev rungs) := by
  induction rungs with
  | nil => exact fun hm hp _ => ⟨hm, hp⟩
  | cons cur rungs ih =>
    intro prev hm hp hone
    have hladder : Ladder (scaleRungs multiplier (newRung ⟨cur.unitsNeeded.unit,
      max cur.unitsNeeded.units prev.unitsNeeded.units⟩
      (max (min (toInt (multiplier * cur.startTrials)) prev.startTrials) 1)) rungs) :=
      ih rfl rfl (le_max_right ..)
    have hstart := scaleRungs_start multiplier (newRung ⟨cur.unitsNeeded.unit,
      max cur.unitsNeeded.units prev.unitsNeeded.units⟩
      (max (min (toInt (multiplier * cur.startTrials)) prev.startTrials) 1)) rungs
    rw [scaleRungs]
    revert hladder hstart
    generalize scaleRungs multiplier (newRung _ _) rungs = next
    intro hladder hstart
    cases next with
    | nil => exact hladder.elim
    | cons next rungs =>
      exact ⟨hm, hstart.symm, le_max_right .., max_le (min_le_right ..) hone, hladder⟩

theorem ladder_linkRungs (rungs : List (Rung ι)) : ∀ {prev : Rung ι},
    (∀ rung ∈ prev :: rungs, rung.metrics = [] ∧ rung.promoteTrials = 0 ∧ 1 ≤ rung.startTrials) →
    List.IsChain (fun a b : Rung ι => b.startTrials ≤ a.startTrials) (prev :: rungs) →
      Ladder (linkRungs prev rungs) := by
  induction rungs with
  | nil => exact fun h _ => ⟨(h _ (List.mem_cons_self ..)).1, (h _ (List.mem_cons_self ..)).2.1⟩
  | cons cur rungs ih =>
    intro prev h hchain
    obtain ⟨hm, hp, hone⟩ := h prev (List.mem_cons_self ..)
    obtain ⟨-, -, hcur⟩ := h cur (List.mem_cons_of_mem _ (List.mem_cons_self ..))
    rw [List.isChain_cons_cons] at hchain
    have hstart : max cur.startTrials prev.promoteTrials = cur.startTrials :=
      max_eq_left (hp ▸ (by omega))
    have hrest : ∀ rung ∈ newRung ⟨cur.unitsNeeded.unit, max cur.unitsNeeded.units
        prev.unitsNeeded.units⟩ cur.startTrials :: rungs,
        rung.metrics = [] ∧ rung.promoteTrials = 0 ∧ 1 ≤ rung.startTrials := by
      intro rung hr
      rcases List.mem_cons.mp hr with rfl | hr
      · exact ⟨rfl, rfl, hcur⟩
      · exact h rung (by simp [hr])
    have hchain' : List.IsChain (fun a b : Rung ι => b.startTrials ≤ a.startTrials)
        (newRung ⟨cur.unitsNeeded.unit, max cur.unitsNeeded.units prev.unitsNeeded.units⟩
          cur.startTrials :: rungs) := by
      cases rungs with
      | nil => exact List.isChain_singleton _
      | cons next rungs =>
        rw [List.isChain_cons_cons] at hchain ⊢
        exact hchain.2
    have hladder := ih hrest hchain'
    have hfirst := linkRungs_start (newRung ⟨cur.unitsNeeded.unit, max cur.unitsNeeded.units
      prev.unitsNeeded.units⟩ cur.startTrials) rungs
    rw [linkRungs, hstart]
    revert hladder hfirst
    generalize linkRungs (newRung _ _) rungs = next
    intro hladder hfirst
    cases next with
    | nil => exact hladder.elim
    | cons next rungs => exact ⟨hm, hfirst.symm, hcur, hchain.1, hladder⟩

/-- Dividing by the divisor once more leaves no more trials. -/
theorem startTrials_antitone {divisor : ℚ} (hd : 1 < divisor) (trials : ℤ) (id : ℕ) :
    max (toInt (trials / divisor ^ (id + 1))) 1 ≤ max (toInt (trials / divisor ^ id)) 1 := by
  have hpos : ∀ n : ℕ, 0 < divisor ^ n := fun n => pow_pos (by linarith) n
  rcases le_or_gt 0 trials with ht | ht
  · refine max_le_max (toInt_mono ?_) le_rfl
    have hle : divisor ^ id ≤ divisor ^ (id + 1) := pow_le_pow_right₀ hd.le (Nat.le_succ id)
    exact div_le_div_of_nonneg_left (by exact_mod_cast ht) (hpos id) hle
  · have hneg : toInt (trials / divisor ^ (id + 1)) ≤ 0 := by
      have h0 : toInt 0 = 0 := by simp [toInt]
      rw [← h0]
      exact toInt_mono (div_nonpos_of_nonpos_of_nonneg (by exact_mod_cast ht.le) (hpos _).le)
    exact max_le (hneg.trans (by positivity)) (le_max_right ..)

/-- A search as one of the constructors builds it, with at least one rung and a divisor above one. -/
def Built (s : SyncHalvingSearch ι) : Prop := ∃ config : SyncHalvingConfig,
  1 ≤ config.numRungs ∧ 1 < config.divisor ∧
    (s = newSyncHalvingSearch config ∨ ∃ trials, s = newSyncHalvingSimpleSearch config trials)

theorem Built.ladder {s : SyncHalvingSearch ι} (h : Built s) (hstart : 1 ≤ (s.rung 0).startTrials) :
    Ladder s.rungs ∧ s.config.numRungs = s.rungs.length ∧ s.trialRungs = (fun _ => 0) ∧
      s.earlyExitTrials = ∅ := by
  obtain ⟨config, hnum, hd, hs | ⟨trials, hs⟩⟩ := h
  · rw [newSyncHalvingSearch] at hs
    have hlen : ((List.range config.numRungs.toNat).map fun id => newRung (ι := ι)
        (rungUnits config id) (max (toInt (compound config id)) 1)).length = config.numRungs.toNat := by
      simp
    have hall : ∀ rung ∈ (List.range config.numRungs.toNat).map fun id => newRung (ι := ι)
        (rungUnits config id) (max (toInt (compound config id)) 1),
        rung.metrics = [] ∧ rung.promoteTrials = 0 := by
      intro rung hr
      obtain ⟨id, -, rfl⟩ := List.mem_map.mp hr
      exact ⟨rfl, rfl⟩
    revert hs hlen hall
    generalize (List.map _ (List.range config.numRungs.toNat)) = unscaled
    intro hs hlen hall
    cases unscaled with
    | nil =>
      rw [List.length_nil] at hlen
      omega
    | cons first rest =>
      subst hs
      obtain ⟨hm, hp⟩ := hall first (List.mem_cons_self ..)
      refine ⟨ladder_scaleRungs _ rest hm hp ?_, ?_, rfl, rfl⟩
      · rw [SyncHalvingSearch.rung] at hstart
        exact hstart.trans (scaleRungs_start ..).le
      · rw [length_scaleRungs, ← List.length_cons, hlen]
        exact (Int.toNat_of_nonneg (by omega : 0 ≤ config.numRungs)).symm
  · rw [newSyncHalvingSimpleSearch] at hs
    have hlen : ((List.range config.numRungs.toNat).map fun id => newRung (ι := ι)
        (rungUnits config id) (max (toInt (trials / config.divisor ^ id)) 1)).length =
        config.numRungs.toNat := by simp
    have hall : ∀ rung ∈ (List.range config.numRungs.toNat).map fun id => newRung (ι := ι)
        (rungUnits config id) (max (toInt (trials / config.divisor ^ id)) 1),
        rung.metrics = [] ∧ rung.promoteTrials = 0 ∧ 1 ≤ rung.startTrials := by
      intro rung hr
      obtain ⟨id, -, rfl⟩ := List.mem_map.mp hr
      exact ⟨rfl, rfl, le_max_right ..⟩
    have hchain : List.IsChain (fun a b : Rung ι => b.startTrials ≤ a.startTrials)
        ((List.range config.numRungs.toNat).map fun id => newRung (ι := ι)
          (rungUnits config id) (max (toInt (trials / config.divisor ^ id)) 1)) := by
      rw [List.isChain_map, List.isChain_range]
      exact fun id _ => startTrials_antitone hd trials id
    revert hs hlen hall hchain
    generalize (List.map _ (List.range config.numRungs.toNat)) = unlinked
    intro hs hlen hall hchain
    cases unlinked with
    | nil =>
      rw [List.length_nil] at hlen
      omega
    | cons first rest =>
      subst hs
      refine ⟨ladder_linkRungs rest hall hchain, ?_, rfl, rfl⟩
      rw [length_linkRungs, ← List.length_cons, hlen]
      exact (Int.toNat_of_nonneg (by omega : 0 ≤ config.numRungs)).symm

/-! ### What trials send, and what a search bears -/

variable [DecidableEq ι]

namespace SyncHalvingSearch

variable (s : SyncHalvingSearch ι)

/-- The metric that the search reads off a validation. -/
def reported : OpMetrics → Option ℚ
  | .validation (some metrics) =>
    (extractMetric s.config.metric s.config.smallerIsBetter metrics).toOption
  | _ => none

omit [DecidableEq ι] in
theorem reported_eq_some {s : SyncHalvingSearch ι} {metrics : OpMetrics} {metric : ℚ} :
    s.reported metrics = some metric ↔ ∃ m, metrics = .validation (some m) ∧
      extractMetric s.config.metric s.config.smallerIsBetter m = .ok metric := by
  unfold reported
  split
  · rename_i m
    cases hm : extractMetric s.config.metric s.config.smallerIsBetter m <;> simp [Except.toOption, hm]
  · rename_i hne
    constructor
    · intro hn
      cases hn
    · rintro ⟨m, rfl, -⟩
      exact absurd rfl (hne m)

/-- A message that strands no trial; and a trial does not exit once its result is in the rung. -/
def bears : Message ι → Bool
  | .trialCompletedOperation (.validate r) metrics =>
    (s.reported metrics).all fun metric => !strands s.rungs.length s (s.trialRungs r) r metric
  | .trialExitedEarly r _ =>
    decide (r ∉ (s.rung (s.trialRungs r)).ids) &&
      !strands s.rungs.length { s with earlyExitTrials := insert r s.earlyExitTrials }
        (s.trialRungs r) r exitedMetricValue
  | _ => true

end SyncHalvingSearch

namespace Experiment

variable (e : Experiment (SyncHalvingSearch ι) ι)

/-- Trials do what they are asked to or exit early, and validations report the metric: at most
    `math.MaxFloat64`, once smaller is better. -/
def reporting (msg : Message ι) : Bool :=
  e.expected msg && match msg with
    | .trialCompletedOperation (.validate _) metrics =>
      (e.searcher.method.reported metrics).any fun metric => decide (metric ≤ exitedMetricValue)
    | _ => true

/-- No requested operation is outstanding. -/
def Quiet : Prop := ∀ r ∈ e.trials.ids, (e.trial r).trialID.isSome = true ∧
  ((e.trial r).gone = true ∨ (e.trial r).ops = [] ∧ (e.trial r).closing = false)

instance : Decidable e.Quiet := inferInstanceAs (Decidable (∀ r ∈ e.trials.ids,
  (e.trial r).trialID.isSome = true ∧
    ((e.trial r).gone = true ∨ (e.trial r).ops = [] ∧ (e.trial r).closing = false)))

/-- The trials that a rung has promoted. -/
def promotedFrom (k : ℕ) : Finset ι :=
  e.trials.ids.toFinset.filter fun r => k < e.searcher.method.trialRungs r

/-- Every trial has been closed or has exited, and every rung promoted as many trials as it should. -/
structure Completed : Prop where
  gone : ∀ r ∈ e.trials.ids, (e.trial r).gone = true
  promoted : ∀ k < e.searcher.method.rungs.length,
    ((e.promotedFrom k).card : ℤ) = (e.searcher.method.rung k).promoteTrials

end Experiment

/-! ### Steps -/

namespace SyncHalvingSearch

section Steps

variable {X : Finset ι} {s : SyncHalvingSearch ι} {T T' : ι → TrialState ι} {r : ι} {handled : Option ι}

omit [DecidableEq ι] in
/-- The trial ids do not matter. -/
theorem Attends.congr_trials (h : Attends X s T handled)
    (hT : ∀ x, (T' x).ops = (T x).ops ∧ (T' x).closing = (T x).closing ∧
      (T' x).exits = (T x).exits ∧ (T' x).closed = (T x).closed) : Attends X s T' handled := by
  refine ⟨fun x => ?_, fun x => ?_, fun x => ?_, fun x => ?_, fun x => ?_⟩
  · rw [(hT x).2.2.1]
    exact h.exited x
  · rw [(hT x).2.2.1, (hT x).2.1, (hT x).2.2.2]
    exact h.closed x
  · rw [(hT x).2.2.1, Busy, (hT x).1, (hT x).2.1]
    exact h.awaited x
  · rw [(hT x).2.2.1, (hT x).1, (hT x).2.1]
    exact h.waiting x
  · rw [(hT x).2.2.1, Busy, (hT x).1, (hT x).2.1]
    exact h.top x

omit [DecidableEq ι] in
/-- A trial that has something to do has no result in its rung. -/
theorem Attends.busy (h : Attends X s T none) (hs : Ranked X s) (hr : r ∈ X)
    (hlive : (T r).exits = []) (hops : (T r).ops ≠ []) :
    r ∉ (s.rung (s.trialRungs r)).ids ∧ Busy (T r) r := by
  have hnot : r ∉ (s.rung (s.trialRungs r)).ids := fun hmem => hops (h.waiting r hr hmem hlive).1
  refine ⟨hnot, ?_⟩
  have hbelow := hs.below r hr
  by_cases htop : s.trialRungs r + 1 = s.rungs.length
  · exact (h.top r hr (by simp) htop hlive).resolve_right fun hnil => hops hnil.1
  · exact (h.awaited r hr (by simp) (by omega) hnot).2

omit [DecidableEq ι] in
/-- One trial is handled or keeps its duties, and the others are left alone. -/
theorem Attends.change (h : Attends X s T none) (hT : ∀ x, x ≠ r → T' x = T x)
    (hexits : (T' r).exits = (T r).exits)
    (hclosed : (T' r).closed = true → (T' r).exits ≠ [] ∨ (T' r).closing = true)
    (hbusy : handled = some r ∨ (Busy (T r) r → (T r).exits = [] → Busy (T' r) r))
    (hdone : (T r).exits = [] → (T r).ops = [] →
      (T' r).ops = [] ∧ (T' r).closing = (T r).closing) : Attends X s T' handled := by
  refine ⟨fun x hx => ?_, fun x hx hc => ?_, fun x hx hne hlt hnot => ?_, fun x hx hmem hlive => ?_,
    fun x hx hne htop hlive => ?_⟩
  all_goals rcases eq_or_ne x r with rfl | hxr
  · rw [hexits]
    exact h.exited x hx
  · rw [hT x hxr]
    exact h.exited x hx
  · exact hclosed hc
  · rw [hT x hxr] at hc ⊢
    exact h.closed x hx hc
  · obtain ⟨hlive, hb⟩ := h.awaited x hx (by simp) hlt hnot
    exact ⟨hexits.trans hlive, hbusy.resolve_left hne hb hlive⟩
  · rw [hT x hxr]
    exact h.awaited x hx (by simp) hlt hnot
  · rw [hexits] at hlive
    obtain ⟨hops, hclosing⟩ := h.waiting x hx hmem hlive
    obtain ⟨hops', hclosing'⟩ := hdone hlive hops
    exact ⟨hops', hclosing' ▸ hclosing⟩
  · rw [hT x hxr] at hlive ⊢
    exact h.waiting x hx hmem hlive
  · rw [hexits] at hlive
    rcases h.top x hx (by simp) htop hlive with hb | ⟨hops, hclosing⟩
    · exact .inl (hbusy.resolve_left hne hb hlive)
    · obtain ⟨hops', hclosing'⟩ := hdone hlive hops
      exact .inr ⟨hops', hclosing' ▸ hclosing⟩
  · rw [hT x hxr] at hlive ⊢
    exact h.top x hx (by simp) htop hlive

/-- A trial without a result exits, and is handled. -/
theorem Attends.exit (h : Attends X s T none) (hT : ∀ x, x ≠ r → T' x = T x)
    (hexits : (T' r).exits ≠ []) :
    Attends X { s with earlyExitTrials := insert r s.earlyExitTrials } T' (some r) := by
  refine ⟨fun x hx => ?_, fun x hx hc => ?_, fun x hx hne hlt hnot => ?_, fun x hx hmem hlive => ?_,
    fun x hx hne htop hlive => ?_⟩
  all_goals rcases eq_or_ne x r with rfl | hxr
  · simpa using hexits
  · rw [hT x hxr, ← h.exited x hx]
    simp [hxr]
  · exact .inl hexits
  · rw [hT x hxr] at hc ⊢
    exact h.closed x hx hc
  · exact absurd rfl hne
  · rw [hT x hxr]
    exact h.awaited x hx (by simp) hlt hnot
  · exact absurd hlive hexits
  · rw [hT x hxr] at hlive ⊢
    exact h.waiting x hx hmem hlive
  · exact absurd rfl hne
  · rw [hT x hxr] at hlive ⊢
    exact h.top x hx (by simp) htop hlive

end Steps

end SyncHalvingSearch

namespace Experiment

variable {e f : Experiment (SyncHalvingSearch ι) ι} {msg : Message ι}

open SyncHalvingSearch

/-- The invariant of a search that strands no trial. -/
structure InProgress (e : Experiment (SyncHalvingSearch ι) ι) : Prop where
  sound : e.Sound
  ranked : Ranked e.trials.ids.toFinset e.searcher.method
  attends : Attends e.trials.ids.toFinset e.searcher.method e.trial none

/-- A trial stops when it has exited or is asked to close with nothing left to do. -/
theorem InProgress.childStopped (h : e.InProgress) {r : ι}
    (hok : e.reporting (.childStopped r) = true) :
    Attends e.trials.ids.toFinset e.searcher.method (e.trials.note (.childStopped r)).trial none := by
  obtain ⟨hexp, -⟩ := Bool.and_eq_true_iff.mp hok
  have hdone : (e.trial r).exits ≠ [] ∨ (e.trial r).closing = true := by
    simp only [expected, Bool.or_eq_true, Bool.not_eq_true', List.isEmpty_eq_false_iff,
      Bool.and_eq_true] at hexp
    exact hexp.imp_right (·.1)
  refine h.attends.change (r := r) (fun x hx => Trials.note_trial_ne hx) ?_ ?_
    (.inr fun hb hlive => ?_) ?_
  · rw [Trials.note, Trials.modify_trial_same]
    rfl
  · intro _
    rw [Trials.note, Trials.modify_trial_same]
    exact hdone
  · have hclosing := hdone.resolve_left fun hne => hne hlive
    rw [hb.1] at hclosing
    cases hclosing
  · intro _ _
    rw [Trials.note, Trials.modify_trial_same]
    exact ⟨rfl, rfl⟩

/-- A trial that completes an operation has not exited, and has no result in its rung. -/
theorem InProgress.completes (h : e.InProgress) {op : Runnable ι} {metrics : OpMetrics}
    (ha : e.alive (.trialCompletedOperation op metrics) = true)
    (hok : e.reporting (.trialCompletedOperation op metrics) = true) :
    ((e.trial op.requestID).exits = [] ∧ (e.trial op.requestID).closed = false ∧
      (e.trial op.requestID).ops.head? = some op) ∧
    op.requestID ∉ (e.searcher.method.rung (e.searcher.method.trialRungs op.requestID)).ids ∧
    Busy (e.trial op.requestID) op.requestID := by
  have hX := List.mem_toFinset.mpr (h.sound.sender ha).1
  obtain ⟨hexp, -⟩ := Bool.and_eq_true_iff.mp hok
  simp only [expected, Bool.and_eq_true, Bool.not_eq_true', decide_eq_true_eq, TrialState.gone,
    Bool.or_eq_false_iff, Bool.not_eq_false', List.isEmpty_iff] at hexp
  obtain ⟨⟨hopen, hlive⟩, hhead⟩ := hexp
  refine ⟨⟨hlive, hopen, hhead⟩, h.attends.busy h.ranked hX hlive fun hnil => ?_⟩
  rw [hnil] at hhead
  cases hhead

/-- The trial of a completed operation goes on with the next, or waits for what its result brings. -/
theorem InProgress.completed (h : e.InProgress) {op : Runnable ι} {metrics : OpMetrics}
    (ha : e.alive (.trialCompletedOperation op metrics) = true)
    (hok : e.reporting (.trialCompletedOperation op metrics) = true) :
    (∃ l, op = .train op.requestID l ∧ Attends e.trials.ids.toFinset e.searcher.method
      (e.trials.note (.trialCompletedOperation op metrics)).trial none) ∨
    op = .validate op.requestID ∧
      Idle ((e.trials.note (.trialCompletedOperation op metrics)).trial op.requestID) ∧
      Attends e.trials.ids.toFinset e.searcher.method
        (e.trials.note (.trialCompletedOperation op metrics)).trial (some op.requestID) := by
  obtain ⟨⟨hlive, hopen, hhead⟩, -, hclosing, hops⟩ := h.completes ha hok
  have hnote : (e.trials.note (.trialCompletedOperation op metrics)).trial op.requestID =
      { e.trial op.requestID with ops := (e.trial op.requestID).ops.tail } := by
    rw [Trials.note, Trials.modify_trial_same]
    exact if_pos hhead
  have hchange : ∀ handled, handled = some op.requestID ∨ (Busy (e.trial op.requestID) op.requestID →
      Busy ((e.trials.note (.trialCompletedOperation op metrics)).trial op.requestID)
        op.requestID) → Attends e.trials.ids.toFinset e.searcher.method
        (e.trials.note (.trialCompletedOperation op metrics)).trial handled := by
    intro handled hh
    refine h.attends.change (r := op.requestID) (fun x hx => Trials.note_trial_ne hx)
      (by rw [hnote]) ?_ (hh.imp_right fun hb hbusy _ => hb hbusy) ?_
    · rw [hnote, hopen]
      exact fun hc => Bool.noConfusion hc
    · intro _ hnil
      rw [hnil] at hhead
      cases hhead
  rcases hops with hops | ⟨l, hops⟩
  · rw [hops] at hhead hnote
    refine .inr ⟨(Option.some.inj hhead).symm, ?_, hchange _ (.inl rfl)⟩
    rw [hnote]
    exact ⟨rfl, hclosing⟩
  · rw [hops] at hhead hnote
    refine .inl ⟨l, (Option.some.inj hhead).symm, hchange _ (.inr fun _ => ?_)⟩
    rw [hnote]
    exact ⟨hclosing, .inl rfl⟩

/-- What the method answers to a message of a trial: nothing fails. -/
theorem InProgress.answered (h : e.InProgress) (ha : e.alive msg = true)
    (hok : e.reporting msg = true) (hb : e.searcher.method.bears msg = true) :
    ∃ out, syncHalvingMethod.answer e.searcher.method e.searcher.rand msg = .ok out ∧
      Handled e.trials.ids.toFinset (e.trials.note msg).trial e.searcher.method.config out.ops
        out.method := by
  have hX := List.mem_toFinset.mpr (h.sound.sender ha).1
  have hignore : Attends e.trials.ids.toFinset e.searcher.method (e.trials.note msg).trial none →
      Handled e.trials.ids.toFinset (e.trials.note msg).trial e.searcher.method.config
        [] e.searcher.method := by
    intro hatt
    refine ⟨h.ranked, ?_, .nil _, rfl⟩
    simpa only [asked_nil, closes_nil, TrialState.relay_nothing] using hatt
  cases msg with
  | trialCreated create id =>
    refine ⟨⟨[], e.searcher.method, e.searcher.rand⟩, rfl, hignore ?_⟩
    refine h.attends.congr_trials fun x => ?_
    rcases eq_or_ne x create.requestID with rfl | hne
    · simp [Trials.note, Trials.modify, trial]
    · simp [Trials.note, Trials.modify, trial, hne]
  | trialCompletedWorkload r msg units =>
    exact ⟨⟨[], e.searcher.method, e.searcher.rand⟩, rfl, hignore h.attends⟩
  | childStopped r =>
    exact ⟨⟨[], e.searcher.method, e.searcher.rand⟩, rfl, hignore (h.childStopped hok)⟩
  | trialCompletedOperation op metrics =>
    obtain ⟨-, hnot, -⟩ := h.completes ha hok
    rcases h.completed ha hok with ⟨l, hop, hatt⟩ | ⟨hop, hidle, hatt⟩
    · refine ⟨⟨[], e.searcher.method, e.searcher.rand⟩, ?_, hignore hatt⟩
      rw [SearchMethod.answer, hop]
      rfl
    · obtain ⟨-, hrep⟩ := Bool.and_eq_true_iff.mp hok
      rw [hop] at hrep hb
      simp only [Option.any_eq_true] at hrep
      obtain ⟨metric, hmetric, -⟩ := hrep
      rw [bears, hmetric, Option.all_some, Bool.not_eq_true'] at hb
      obtain ⟨ops, s', hpromote, hhandled⟩ := promoteWithin_spec _ h.ranked hatt hX hnot
        (fun _ => hidle) (by omega) hb
      refine ⟨⟨ops, s', e.searcher.rand⟩, ?_, hhandled⟩
      obtain ⟨metrics', rfl, hextract⟩ := reported_eq_some.mp hmetric
      rw [SearchMethod.answer, hop]
      exact bind_eq_ok.mpr ⟨metric, hextract, bind_eq_ok.mpr ⟨(ops, s'), hpromote, rfl⟩⟩
  | trialExitedEarly r reason =>
    rw [bears, Bool.and_eq_true, decide_eq_true_eq, Bool.not_eq_true'] at hb
    have hexits : ((e.trials.note (.trialExitedEarly r reason)).trial r).exits ≠ [] := by
      rw [Trials.note, Trials.modify_trial_same]
      simp
    have hatt := h.attends.exit (fun x hx => Trials.note_trial_ne hx) hexits
    have hranked : Ranked e.trials.ids.toFinset { e.searcher.method with
      earlyExitTrials := insert r e.searcher.method.earlyExitTrials } :=
      h.ranked.congr rfl rfl rfl
    obtain ⟨ops, s', hpromote, hhandled⟩ := promoteWithin_spec e.searcher.method.rungs.length hranked
      hatt hX hb.1 (fun hlive => absurd hlive hexits) (by dsimp only; omega) hb.2
    refine ⟨⟨ops, s', e.searcher.rand⟩, ?_, hhandled⟩
    exact bind_eq_ok.mpr ⟨(ops, s'), hpromote, rfl⟩

/-- Operations for existing trials are acceptable. -/
theorem InProgress.accepts (h : e.InProgress) {ops : List (Operation ι)}
    (hasks : Asks e.trials.ids.toFinset ops) : e.trials.Accepts ops := by
  refine ⟨?_, fun r hr => ?_⟩
  · rw [hasks.creates, List.append_nil]
    exact h.sound.nodup
  · rw [hasks.creates, List.append_nil]
    exact List.mem_toFinset.mp (hasks.known r hr)

/-- A step keeps the invariant. -/
theorem InProgress.step (h : e.InProgress) (hst : Step syncHalvingMethod reporting e msg f)
    (hb : e.searcher.method.bears msg = true) : f.InProgress := by
  obtain ⟨ha, hok, out, hr⟩ := received_of_step h.sound.linked hst
  obtain ⟨out', hans, hhandled⟩ := h.answered ha hok hb
  cases hr.answer.symm.trans hans
  have hids : f.trials.ids = e.trials.ids := by
    rw [hr.ids, hhandled.asks.creates, List.map_nil, List.append_nil]
  have htrial : f.trial = fun x =>
      ((e.trials.note msg).trial x).relay (asked x out.ops) (closes x out.ops) :=
    funext fun x => hr.trial x
  refine ⟨h.sound.step hr ha (h.accepts hhandled.asks), ?_, ?_⟩
  · rw [hids, hr.method]
    exact hhandled.ranked
  · rw [hids, hr.method, htrial]
    exact hhandled.attends

/-! ### The start -/

/-- The trials that are created, and what they are to do. -/
theorem createTrials_spec (s : SyncHalvingSearch ι) (n : ℕ) : ∀ rand : Rand ι,
    (creates (s.createTrials n rand).1).length = n ∧
    (∀ c ∈ creates (s.createTrials n rand).1, ∃ i, rand.pos ≤ i ∧ c.requestID = rand.draw i) ∧
    ((creates (s.createTrials n rand).1).map (·.requestID)).Nodup ∧
    ∀ x, closes x (s.createTrials n rand).1 = false ∧ asked x (s.createTrials n rand).1 =
      if x ∈ (creates (s.createTrials n rand).1).map (·.requestID) then
        [.train x (s.rung 0).unitsNeeded, .validate x] else [] := by
  induction n with
  | zero =>
    intro rand
    simp [SyncHalvingSearch.createTrials]
  | succ n ih =>
    intro rand
    obtain ⟨hlen, hdrawn, hnodup, hasked⟩ := ih (newCreate rand).2
    have hnew : (newCreate rand).1.requestID ∉
        (creates (s.createTrials n (newCreate rand).2).1).map (·.requestID) := by
      intro hmem
      obtain ⟨c, hc, heq⟩ := List.mem_map.mp hmem
      obtain ⟨i, hi, hci⟩ := hdrawn c hc
      have hpos : i = rand.pos := rand.fresh (hci.symm.trans heq)
      have : rand.pos + 1 ≤ i := hi
      omega
    rw [SyncHalvingSearch.createTrials]
    refine ⟨by simp [newTrain, newValidate, hlen], ?_, ?_, fun x => ?_⟩
    · simp only [newTrain, newValidate, creates_create, creates_runnable, List.forall_mem_cons]
      refine ⟨⟨rand.pos, le_rfl, rfl⟩, fun c hc => ?_⟩
      obtain ⟨i, hi, hci⟩ := hdrawn c hc
      exact ⟨i, Nat.le_of_succ_le hi, hci⟩
    · simp only [newTrain, newValidate, creates_create, creates_runnable, List.map_cons]
      exact List.nodup_cons.mpr ⟨hnew, hnodup⟩
    · obtain ⟨hcloses, hx⟩ := hasked x
      refine ⟨by simp [newTrain, newValidate, hcloses], ?_⟩
      simp only [newTrain, newValidate, creates_create, creates_runnable, List.map_cons,
        asked_create, asked_runnable, Runnable.requestID, List.mem_cons, hx]
      rcases eq_or_ne x (newCreate rand).1.requestID with rfl | hne
      · rw [if_pos rfl, if_pos rfl, if_neg hnew, if_pos (.inl rfl)]
      · simp [hne, hne.symm]

/-- A search starts in progress. -/
theorem InProgress.start {s : SyncHalvingSearch ι} (hs : Built s)
    (hstart : 1 ≤ (s.rung 0).startTrials) {rand : Rand ι}
    (h : Experiment.start syncHalvingMethod rand s = .ok e) : e.InProgress := by
  obtain ⟨hladder, hnum, hrungs, hexits⟩ := hs.ladder hstart
  obtain ⟨hpos, hmetrics, hnext, htop⟩ := hladder.getD
  obtain ⟨out, hout, hmethod, -, -, hreq, htrial⟩ := start_spec h
  obtain ⟨bottom, rungs, hcons⟩ : ∃ bottom rungs, s.rungs = bottom :: rungs :=
    List.exists_cons_of_length_pos hpos
  have hbottom : s.rung 0 = bottom := by rw [SyncHalvingSearch.rung, hcons]; rfl
  have hout' : out = ⟨(s.createTrials (s.rung 0).startTrials.toNat rand).1, s,
      (s.createTrials (s.rung 0).startTrials.toNat rand).2⟩ := by
    have hinit : s.initialOperations rand = .ok out := hout
    rw [SyncHalvingSearch.initialOperations, hcons] at hinit
    rw [hbottom]
    exact (Except.ok.inj hinit).symm
  subst hout'
  dsimp only at hmethod hreq htrial hout
  obtain ⟨hlen, -, hnodup, hasked⟩ := createTrials_spec s (s.rung 0).startTrials.toNat rand
  have hids : e.trials.ids = (creates (s.createTrials (s.rung 0).startTrials.toNat rand).1).map
      (·.requestID) := by rw [Trials.ids, hreq]
  have hempty : ∀ k, (s.rung k).ids = [] := fun k => by
    rw [Rung.ids, SyncHalvingSearch.rung, hmetrics k, List.map_nil]
  have hbusy : ∀ r ∈ e.trials.ids, (e.trial r).exits = [] ∧ (e.trial r).closed = false ∧
      Busy (e.trial r) r := by
    intro r hr
    rw [htrial, (hasked r).1, (hasked r).2, if_pos (hids ▸ hr)]
    exact ⟨rfl, rfl, rfl, .inr ⟨_, rfl⟩⟩
  refine ⟨?_, ?_, ?_⟩
  · refine Sound.start h hout ⟨?_, fun r hr => ?_⟩ ?_
    · exact hnodup
    · rcases hr with hr | hr
      · rw [(hasked r).2] at hr
        split at hr
        · assumption
        · exact absurd rfl hr
      · rw [(hasked r).1] at hr
        cases hr
    · intro hnil
      rw [hnil, List.length_nil] at hlen
      omega
  · rw [hmethod]
    refine ⟨⟨hnum, hpos, hnext, htop⟩, ?_, fun r _ => ?_, fun k => ?_, fun k r hr => ?_,
      fun k hk r _ => ?_, hmetrics _⟩
    · rw [List.toFinset_card_of_nodup (hids ▸ hnodup), hids, List.length_map, hlen]
      omega
    · rw [hrungs]
      exact hpos
    · rw [hempty]
      exact List.nodup_nil
    · rw [hempty] at hr
      cases hr
    · rw [hrungs, Rung.promotedIDs, hempty, List.take_nil]
      simp
  · rw [hmethod]
    refine ⟨fun r hr => ?_, fun r hr hc => ?_, fun r hr _ _ _ => ?_, fun r _ hmem => ?_,
      fun r hr _ _ _ => ?_⟩
    · rw [hexits, (hbusy r (List.mem_toFinset.mp hr)).1]
      simp
    · rw [(hbusy r (List.mem_toFinset.mp hr)).2.1] at hc
      cases hc
    · exact ⟨(hbusy r (List.mem_toFinset.mp hr)).1, (hbusy r (List.mem_toFinset.mp hr)).2.2⟩
    · rw [hempty] at hmem
      cases hmem
    · exact .inl (hbusy r (List.mem_toFinset.mp hr)).2.2

/-! ### The end -/

omit [DecidableEq ι] in
/-- A trial that has something to do, or is asked to close, is gone once nothing is outstanding. -/
theorem Quiet.gone (hq : e.Quiet) {r : ι} (hr : r ∈ e.trials.ids)
    (h : (e.trial r).ops ≠ [] ∨ (e.trial r).closing = true) : (e.trial r).gone = true := by
  refine (hq r hr).2.resolve_right fun ⟨hops, hclosing⟩ => ?_
  rcases h with h | h
  · exact h hops
  · rw [hclosing] at h
    cases h

theorem InProgress.not_busy (h : e.InProgress) (hq : e.Quiet) {r : ι} (hr : r ∈ e.trials.ids)
    (hlive : (e.trial r).exits = []) : ¬ Busy (e.trial r) r := by
  rintro ⟨hclosing, hops⟩
  have hgone := hq.gone hr (.inl (by rcases hops with hops | ⟨l, hops⟩ <;> simp [hops]))
  simp only [TrialState.gone, hlive, List.isEmpty_nil, Bool.not_true, Bool.or_false] at hgone
  rcases h.attends.closed r (List.mem_toFinset.mpr hr) hgone with hex | hex
  · exact hex hlive
  · rw [hclosing] at hex
    cases hex

/-- Once nothing is outstanding, every trial that a rung below the top was sent has reported. -/
theorem InProgress.reported (h : e.InProgress) (hq : e.Quiet) {k : ℕ}
    (hk : k + 1 < e.searcher.method.rungs.length) {r : ι} (hr : r ∈ e.trials.ids)
    (hle : k ≤ e.searcher.method.trialRungs r) : r ∈ (e.searcher.method.rung k).ids := by
  have hX := List.mem_toFinset.mpr hr
  rcases Nat.lt_or_eq_of_le hle with hlt | rfl
  · exact List.mem_of_mem_take ((h.ranked.promoted k hk r hX).mp hlt)
  · by_contra hnot
    obtain ⟨hlive, hbusy⟩ := h.attends.awaited r hX (by simp) hk hnot
    exact h.not_busy hq hr hlive hbusy

/-- Then each rung has got as many trials as it starts with. -/
theorem InProgress.filled (h : e.InProgress) (hq : e.Quiet) :
    ∀ {k : ℕ}, k < e.searcher.method.rungs.length →
      ((reached e.trials.ids.toFinset e.searcher.method k).card : ℤ) =
        (e.searcher.method.rung k).startTrials ∧
      (k + 1 < e.searcher.method.rungs.length → ((e.searcher.method.rung k).metrics.length : ℤ) =
        (e.searcher.method.rung k).startTrials) := by
  have hlen : ∀ k, k + 1 < e.searcher.method.rungs.length →
      (e.searcher.method.rung k).metrics.length =
        (reached e.trials.ids.toFinset e.searcher.method k).card := by
    intro k hk
    rw [← Rung.length_ids, ← List.toFinset_card_of_nodup (h.ranked.nodup k)]
    congr 1
    ext r
    rw [List.mem_toFinset, reached, Finset.mem_filter]
    refine ⟨h.ranked.reported k r, fun hr => h.reported hq hk (List.mem_toFinset.mp hr.1) hr.2⟩
  intro k
  induction k with
  | zero =>
    intro _
    have hall : reached e.trials.ids.toFinset e.searcher.method 0 = e.trials.ids.toFinset :=
      Finset.filter_true_of_mem fun r _ => Nat.zero_le _
    refine ⟨by rw [hall, h.ranked.started], fun hk => ?_⟩
    rw [hlen 0 hk, hall, h.ranked.started]
  | succ k ih =>
    intro hk
    obtain ⟨-, hfull⟩ := ih (by omega)
    obtain ⟨hnext, hone, -⟩ := h.ranked.shaped.next k hk
    have hcard : ((reached e.trials.ids.toFinset e.searcher.method (k + 1)).card : ℤ) =
        (e.searcher.method.rung (k + 1)).startTrials := by
      rw [h.ranked.card_reached_succ hk, Rung.numPromoted, hfull hk, ← hnext]
      omega
    refine ⟨hcard, fun hk' => ?_⟩
    rw [hlen (k + 1) hk', hcard]

/-- A search in progress with nothing outstanding has completed. -/
theorem InProgress.finished (h : e.InProgress) (hq : e.Quiet) : e.Completed := by
  refine ⟨fun r hr => ?_, fun k hk => ?_⟩
  · have hX := List.mem_toFinset.mpr hr
    by_cases hlive : (e.trial r).exits = []
    · have hbelow := h.ranked.below r hX
      refine hq.gone hr (.inr ?_)
      by_cases htop : e.searcher.method.trialRungs r + 1 = e.searcher.method.rungs.length
      · exact ((h.attends.top r hX (by simp) htop hlive).resolve_left
          (h.not_busy hq hr hlive)).2
      · have hk : e.searcher.method.trialRungs r + 1 < e.searcher.method.rungs.length := by omega
        refine (h.attends.waiting r hX (h.reported hq hk hr le_rfl) hlive).2.mpr ?_
        exact (Rung.full_iff _).mpr ((h.filled hq hbelow).2 hk)
    · simp [TrialState.gone, hlive]
  · have hset : e.promotedFrom k = reached e.trials.ids.toFinset e.searcher.method (k + 1) := rfl
    rw [hset]
    by_cases htop : k + 1 < e.searcher.method.rungs.length
    · rw [(h.filled hq htop).1, (h.ranked.shaped.next k htop).1]
    · have hnone : reached e.trials.ids.toFinset e.searcher.method (k + 1) = ∅ :=
        Finset.filter_false_of_mem fun r hr => by
          have := h.ranked.below r hr
          omega
      have hk' : k = e.searcher.method.rungs.length - 1 := by omega
      rw [hnone, hk', h.ranked.shaped.top]
      rfl

/-! ### Two trials, one of which is promoted -/

/-- Two trials in the bottom rung, one of which is promoted. -/
def twoTrials : SyncHalvingSearch ℕ :=
  newSyncHalvingSimpleSearch ⟨"loss", true, 2, newLengthInBatches 2, newLengthInBatches 0, 2⟩ 2

theorem built_twoTrials : Built twoTrials :=
  ⟨_, by decide, by decide +kernel, .inr ⟨2, rfl⟩⟩

/-- The request ids are drawn in order. -/
def counter : Rand ℕ := ⟨id, Function.injective_id, 0⟩

/-- The search of two trials, running for a while. -/
def twoTrialsRun (msgs : List (Message ℕ)) :
    Option (List (Edge (Experiment (SyncHalvingSearch ℕ) ℕ) (Message ℕ)) ×
      Experiment (SyncHalvingSearch ℕ) ℕ) :=
  (start syncHalvingMethod counter twoTrials).toOption.bind fun e =>
    exec (receive syncHalvingMethod reporting) e msgs

theorem twoTrialsRun_spec {α : Type} {v : α} (msgs : List (Message ℕ))
    (summary : List (Edge (Experiment (SyncHalvingSearch ℕ) ℕ) (Message ℕ)) ×
      Experiment (SyncHalvingSearch ℕ) ℕ → α) (h : (twoTrialsRun msgs).map summary = some v) :
    ∃ e tr f, start syncHalvingMethod counter twoTrials = .ok e ∧
      Run (Step syncHalvingMethod reporting) e tr f ∧ summary (tr, f) = v := by
  obtain ⟨p, hp, hv⟩ := Option.map_eq_some_iff.mp h
  obtain ⟨e, he, hexec⟩ := Option.bind_eq_some_iff.mp hp
  have hcomputed : (exec (receive syncHalvingMethod reporting) e msgs).map summary = some v := by
    rw [hexec]
    exact congrArg some hv
  obtain ⟨tr, f, hrun, -, hsum⟩ := Run.exists_of_exec (fun _ _ _ h => h) summary hcomputed
  refine ⟨e, tr, f, ?_, hrun, hsum⟩
  cases hstart : start syncHalvingMethod counter twoTrials with
  | error fault => rw [hstart] at he; cases he
  | ok e' => rw [hstart] at he; cases he; rfl

/-- CORRECT: in every run of a synchronous halving search whose messages strand no trial, no callback
    fails, and once no operation is outstanding every trial has been closed or has exited and every
    rung has promoted `promoteTrials` trials. -/
theorem sync_halving_completes {s : SyncHalvingSearch ι} (hs : Built s)
    (hstart : 1 ≤ (s.rung 0).startTrials) {rand : Rand ι} {e f : Experiment (SyncHalvingSearch ι) ι}
    {tr : List (Edge (Experiment (SyncHalvingSearch ι) ι) (Message ι))}
    (h0 : Experiment.start syncHalvingMethod rand s = .ok e)
    (hrun : Run (Step syncHalvingMethod reporting) e tr f)
    (hb : ∀ x ∈ tr, x.pre.searcher.method.bears x.event = true) :
    (f.Quiet → f.Completed) ∧ ∀ msg, f.alive msg = true → f.reporting msg = true →
      f.searcher.method.bears msg = true → ∃ g, Step syncHalvingMethod reporting f msg g := by
  have hf : f.InProgress := (hrun.guarded
    (G := fun x => x.pre.searcher.method.bears x.event = true)
    (fun _ _ _ h hst hb => h.step hst hb) (InProgress.start hs hstart h0) hb).2
  refine ⟨hf.finished, fun msg ha hok hbears => ?_⟩
  obtain ⟨out, hans, -⟩ := hf.answered ha hok hbears
  exact step_of_answer hf.sound.linked ha hok hans

/-- Both trials exit: the search completes. -/
theorem sync_halving_completes_after_exits : ∃ e tr f,
    start syncHalvingMethod counter twoTrials = .ok e ∧
    Run (Step syncHalvingMethod reporting) e tr f ∧ tr.length = 4 ∧ f.Completed := by
  obtain ⟨e, tr, f, he, hrun, hsum⟩ := twoTrialsRun_spec
    [.trialCreated ⟨0, none⟩ 10, .trialCreated ⟨1, none⟩ 11, .trialExitedEarly 0 .errored,
      .trialExitedEarly 1 .userCanceled]
    (fun p => (p.1.length, p.1.all fun x => x.pre.searcher.method.bears x.event, decide p.2.Quiet))
    (v := (4, true, true)) (by decide +kernel)
  simp only [Prod.mk.injEq, List.all_eq_true, decide_eq_true_eq] at hsum
  obtain ⟨hlen, hbears, hquiet⟩ := hsum
  exact ⟨e, tr, f, he, hrun, hlen,
    (sync_halving_completes built_twoTrials (by decide +kernel) he hrun hbears).1 hquiet⟩

/-- The first trial exits, and the second reports the worst possible metric: the exited trial is
    promoted, and the second one is never closed. -/
theorem loser_left_open : ¬ ∀ s : SyncHalvingSearch ℕ, Built s → 1 ≤ (s.rung 0).startTrials →
    ∀ (rand : Rand ℕ) (e f : Experiment (SyncHalvingSearch ℕ) ℕ)
      (tr : List (Edge (Experiment (SyncHalvingSearch ℕ) ℕ) (Message ℕ))),
      start syncHalvingMethod rand s = .ok e → Run (Step syncHalvingMethod reporting) e tr f →
        f.Quiet → f.Completed := by
  intro hall
  obtain ⟨e, tr, f, he, hrun, hsum⟩ := twoTrialsRun_spec
    [.trialCreated ⟨0, none⟩ 10, .trialCreated ⟨1, none⟩ 11, .trialExitedEarly 0 .errored,
      .trialCompletedOperation (.train 1 (newLengthInBatches 1)) .none,
      .trialCompletedOperation (.validate 1)
        (.validation (some ⟨1, [("loss", .float exitedMetricValue)]⟩))]
    (fun p => (decide p.2.Quiet, p.2.trials.ids.map fun r => (p.2.trial r).gone))
    (v := (true, [true, false])) (by decide +kernel)
  simp only [Prod.mk.injEq, decide_eq_true_eq] at hsum
  have hgone := (hall twoTrials built_twoTrials (by decide +kernel) counter e f tr he hrun
    hsum.1).gone
  have hmem : false ∈ f.trials.ids.map fun r => (f.trial r).gone := by
    rw [hsum.2]
    simp
  obtain ⟨r, hr, hopen⟩ := List.mem_map.mp hmem
  rw [hgone r hr] at hopen
  cases hopen

end Experiment

end Determined.Searcher
