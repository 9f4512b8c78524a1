import Determined.Searcher.AdaptiveBudget

/-! Asynchronous halving keeps its parallelism: as many trials as it starts with have work until the
    last trial is requested, and never more.

    The trials with work are those without a metric in their rung (`Busy`). A validation, or an early
    exit, takes one away and gives work to one other: to the trial that is promoted in the end, or to
    a new one. -/

namespace Determined.Searcher
open Determined.Model Determined.Schemes

variable {ι : Type} [DecidableEq ι]

/-- The trials that operations give work to. -/
def tasked (ops : List (Operation ι)) : Finset ι :=
  (ops.filterMap fun | .runnable op => some op.requestID | _ => none).toFinset

section Tasked

variable {ops ops' : List (Operation ι)}

@[simp] theorem tasked_nil : tasked ([] : List (Operation ι)) = ∅ := rfl
@[simp] theorem tasked_create (c : Create ι) : tasked (.create c :: ops) = tasked ops := rfl
@[simp] theorem tasked_close (r : ι) : tasked (.close r :: ops) = tasked ops := rfl
@[simp] theorem tasked_append : tasked (ops ++ ops') = tasked ops ∪ tasked ops' := by
  simp [tasked, List.filterMap_append]

@[simp] theorem tasked_runnable (op : Runnable ι) :
    tasked (.runnable op :: ops) = insert op.requestID (tasked ops) := by
  simp [tasked]

@[simp] theorem tasked_train (r : ι) (length : Length) :
    tasked (newTrain r length :: newValidate r :: ops) = insert r (tasked ops) := by
  simp [newTrain, newValidate, Runnable.requestID]

@[simp] theorem tasked_map_close (closing : List ι) :
    tasked (closing.map Operation.close) = ∅ := by
  induction closing with
  | nil => rfl
  | cons q closing ih => exact ih

end Tasked

namespace AsyncHalvingSearch

variable {s s' : AsyncHalvingSearch ι} {rand : Rand ι} {r q : ι} {metric : ℚ} {promoted : Option ι}
  {X O : Finset ι} {R : List ι} {M : ℤ}

/-- The trials `O` with work, of the requested ones `R`: those not created yet, and the created ones
    `X` that have no metric in their rung. -/
structure Busy (M : ℤ) (X : Finset ι) (R : List ι) (O : Finset ι) (s : AsyncHalvingSearch ι) :
    Prop where
  placed : Placed X s.rungs.length s
  maxTrials : s.maxTrials = M
  valid : s.invalidTrials = 0
  count : s.trialRungs.keys.length = R.length
  known : ∀ r, r ∈ s.trialRungs ↔ r ∈ R
  created : ∀ r ∈ X, r ∈ R
  within : ∀ r ∈ O, r ∈ R
  unmeasured : ∀ r ∈ X, r ∈ O ↔ r ∉ metricIDs (s.rung (s.rungOf r)).metrics
  uncreated : ∀ r ∈ R, r ∉ X → r ∈ O ∧ s.rungOf r = 0

/-- A trial with work that reports has no work any more, but the one promoted has. -/
theorem Busy.record (h : Busy M X R O s) (hrec : Recorded s r metric s' promoted) (hr : r ∈ X)
    (hO : r ∈ O) : Busy M X R (promoted.toFinset ∪ O.erase r) s' ∧
      ∀ q, promoted = some q → q ∈ X ∧ q ∉ O.erase r := by
  have hin := h.placed.inRange r hr
  have hpromoted : ∀ q, promoted = some q → q ∈ X ∧ q ∉ O.erase r := by
    intro q hq
    obtain ⟨hX, hrung, -, rfl | hmem⟩ := hrec.promoted_spec h.placed hr hq
    · exact ⟨hX, Finset.notMem_erase _ _⟩
    · refine ⟨hX, fun hqO => ?_⟩
      exact (h.unmeasured q hX).mp (Finset.mem_of_mem_erase hqO) (hrung ▸ hmem)
  obtain ⟨rungs, trialRungs, heq⟩ := hrec.frame
  have hmem : ∀ x, x ∈ s'.trialRungs ↔ x ∈ s.trialRungs := by
    intro x
    rw [hrec.trialRungs]
    cases promoted with
    | none => exact Iff.rfl
    | some q =>
      have hq := (h.known q).mpr (h.created q (hpromoted q rfl).1)
      rw [AList.mem_insert]
      exact ⟨fun hx => hx.elim (fun hx => hx ▸ hq) id, .inr⟩
  refine ⟨⟨?_, ?_, ?_, ?_, ?_, h.created, ?_, ?_, ?_⟩, hpromoted⟩
  · rw [hrec.length]
    exact hrec.placed h.placed hin fun _ => ⟨hr, (h.unmeasured r hr).mp hO⟩
  · rw [heq]
    exact h.maxTrials
  · rw [heq]
    exact h.valid
  · rw [hrec.trialRungs, ← h.count]
    cases promoted with
    | none => rfl
    | some q =>
      exact (length_keys_insert _).trans
        (if_pos ((h.known q).mpr (h.created q (hpromoted q rfl).1)))
  · exact fun x => (hmem x).trans (h.known x)
  · intro x hx
    rcases Finset.mem_union.mp hx with hx | hx
    · exact h.created x (hpromoted x (Option.mem_toFinset.mp hx)).1
    · exact h.within x (Finset.mem_of_mem_erase hx)
  · intro x hx
    rw [hrec.rungOf_eq, hrec.mem_ids hin, Finset.mem_union, Option.mem_toFinset]
    split
    · rename_i hp
      obtain ⟨-, -, hlt, -⟩ := hrec.promoted_spec h.placed hr hp
      have hnext := hrec.promoted_next h.placed hr hp hlt
      simp [hp, hnext]
    · rename_i hp
      simp only [Option.mem_def, hp, false_or, Finset.mem_erase, h.unmeasured x hx, not_or, not_and]
      refine and_congr_left fun _ => ⟨fun hne _ => hne, fun hne heq => hne ?_ heq⟩
      rw [heq]
  · intro x hx hxX
    obtain ⟨hxO, hrung⟩ := h.uncreated x hx hxX
    have hne : x ≠ r := fun heq => hxX (heq ▸ hr)
    have hp : promoted ≠ some x := fun hp => hxX (hpromoted x hp).1
    refine ⟨Finset.mem_union_right _ (Finset.mem_erase.mpr ⟨hne, hxO⟩), ?_⟩
    rw [hrec.rungOf_eq, if_neg hp, hrung]

/-- Only the rungs, and in which of them the trials are, matter. -/
theorem Busy.congr (h : Busy M X R O s) (hrungs : s'.rungs = s.rungs)
    (hconfig : s'.config = s.config) (hmax : s'.maxTrials = s.maxTrials)
    (hinvalid : s'.invalidTrials = s.invalidTrials) (htrials : s'.trialRungs = s.trialRungs) :
    Busy M X R O s' := by
  obtain ⟨config, rungs, trialRungs, exited, closed, maxTrials, completed, invalid⟩ := s
  obtain ⟨config', rungs', trialRungs', exited', closed', maxTrials', completed', invalid'⟩ := s'
  cases hrungs
  cases hconfig
  cases hmax
  cases hinvalid
  cases htrials
  have hp := h.placed
  exact ⟨⟨hp.1, hp.2, hp.3, hp.4, hp.5, hp.6, hp.7, hp.8⟩, h.2, h.3, h.4, h.5, h.6, h.7, h.8, h.9⟩

/-- Entering a trial that is not created yet leaves the created ones where they are. -/
theorem Busy.enter (h : Busy M X R O s) (hq : q ∉ X) :
    Placed X s.rungs.length { s with trialRungs := s.trialRungs.insert q 0 } := by
  have hrung : ∀ x ∈ X, ({ s with trialRungs := s.trialRungs.insert q 0 } :
      AsyncHalvingSearch ι).rungOf x = s.rungOf x := by
    intro x hx
    have hne : x ≠ q := fun heq => hq (heq ▸ hx)
    simp [rungOf, AList.lookup_insert_ne hne]
  have hp := h.placed
  refine ⟨hp.shaped, hp.bound, fun x hx => ?_, fun x hx => ?_, hp.nodup, fun k hk tm htm => ?_,
    fun x hx k hk => ?_, fun k hk => ?_⟩
  · exact (AList.mem_insert _).mpr (.inr (hp.known x hx))
  · rw [hrung x hx]
    exact hp.inRange x hx
  · rw [hrung _ (hp.entry k hk tm htm).1]
    exact hp.entry k hk tm htm
  · rw [hrung x hx] at hk
    exact hp.below x hx k hk
  · refine (hp.outstanding k hk).trans (congrArg (fun X : Finset ι => (X.card : ℤ)) ?_)
    refine Finset.filter_congr fun x hx => ?_
    rw [hrung x hx]
    rfl

/-- A new trial has work. -/
theorem Busy.create (h : Busy M X R O s) (hq : q ∉ R) :
    Busy M X (R ++ [q]) (insert q O) { s with trialRungs := s.trialRungs.insert q 0 } where
  placed := h.enter fun hX => hq (h.created q hX)
  maxTrials := h.maxTrials
  valid := h.valid
  count := by
    rw [length_keys_insert, if_neg fun hmem => hq ((h.known q).mp hmem), h.count,
      List.length_append, List.length_singleton]
  known x := by
    rw [AList.mem_insert, h.known, List.mem_append, List.mem_singleton, or_comm]
  created x hx := List.mem_append_left _ (h.created x hx)
  within x hx := by
    rcases Finset.mem_insert.mp hx with rfl | hx
    · exact List.mem_append_right _ (List.mem_singleton_self _)
    · exact List.mem_append_left _ (h.within x hx)
  unmeasured x hx := by
    have hne : x ≠ q := fun heq => hq (heq ▸ h.created x hx)
    rw [Finset.mem_insert, h.unmeasured x hx]
    simp [hne, rungOf, AList.lookup_insert_ne hne, rung]
  uncreated x hx hxX := by
    by_cases hxq : x = q
    · subst hxq
      exact ⟨Finset.mem_insert_self _ _, by simp [rungOf]⟩
    · have hxR : x ∈ R := by simpa [hxq] using hx
      obtain ⟨hxO, hrung⟩ := h.uncreated x hxR hxX
      exact ⟨Finset.mem_insert_of_mem hxO, by simpa [rungOf, AList.lookup_insert_ne hxq] using hrung⟩

/-- The search once a trial is created, in the bottom rung. -/
def withCreated (s : AsyncHalvingSearch ι) (r : ι) : AsyncHalvingSearch ι :=
  { s.modifyRung 0 fun rung => { rung with outstandingTrials := rung.outstandingTrials + 1 } with
      trialRungs := s.trialRungs.insert r 0 }

theorem withCreated_length : (s.withCreated r).rungs.length = s.rungs.length := modifyRung_length

theorem withCreated_rungOf (hr : s.rungOf r = 0) (x : ι) : (s.withCreated r).rungOf x = s.rungOf x := by
  rcases eq_or_ne x r with rfl | hne
  · rw [hr]
    simp [withCreated, rungOf]
  · simp [withCreated, rungOf, AList.lookup_insert_ne hne]

theorem withCreated_rung (h : 0 < s.rungs.length) (k : ℕ) : (s.withCreated r).rung k =
    { s.rung k with outstandingTrials := (s.rung k).outstandingTrials + if k = 0 then 1 else 0 } := by
  have heq : (s.withCreated r).rung k = (s.modifyRung 0 fun rung =>
    { rung with outstandingTrials := rung.outstandingTrials + 1 }).rung k := rfl
  rw [heq]
  rcases eq_or_ne k 0 with rfl | hne
  · rw [rung_modifyRung_same h, if_pos rfl]
  · rw [rung_modifyRung_ne hne, if_neg hne, add_zero]

/-- A created trial waits in the bottom rung. -/
theorem waiting_withCreated (hpos : 0 < s.rungs.length) (hr : s.rungOf r = 0) {k : ℕ}
    (hnew : r ∉ metricIDs (s.rung k).metrics) : waiting (insert r X) (s.withCreated r) k =
      if k = 0 then insert r (waiting X s k) else waiting X s k := by
  simp only [waiting, Finset.filter_insert, withCreated_rungOf hr, withCreated_rung hpos, hr]
  rcases eq_or_ne k 0 with rfl | hne
  · simp [hnew]
  · simp [hne, hne.symm]

/-- A trial that is created later has no metric yet. -/
theorem Placed.notMem_ids {b : ℕ} (h : Placed X b s) (hr : r ∉ X) {k : ℕ} (hk : k < b) :
    r ∉ metricIDs (s.rung k).metrics := by
  intro hmem
  obtain ⟨tm, htm, rfl⟩ := List.mem_map.mp hmem
  exact hr (h.entry k hk tm htm).1

theorem Placed.withCreated (h : Placed X s.rungs.length s) (hX : r ∉ X) (hr : s.rungOf r = 0) :
    Placed (insert r X) s.rungs.length (s.withCreated r) := by
  have hpos := h.shaped.1
  refine ⟨⟨?_, ?_⟩, ?_, ?_, ?_, ?_, ?_, ?_, ?_⟩
  · rw [withCreated_length]
    exact hpos
  · rw [withCreated_length]
    exact h.shaped.2
  · rw [withCreated_length]
    exact ⟨le_rfl, Nat.le_succ _⟩
  · intro x hx
    refine (AList.mem_insert _).mpr ?_
    rcases Finset.mem_insert.mp hx with rfl | hx
    · exact .inl rfl
    · exact .inr (h.known x hx)
  · intro x hx
    rw [withCreated_length, withCreated_rungOf hr]
    rcases Finset.mem_insert.mp hx with rfl | hx
    · rw [hr]
      exact hpos
    · exact h.inRange x hx
  · intro k hk
    rw [withCreated_rung hpos]
    exact h.nodup k hk
  · intro k hk tm htm
    rw [withCreated_rung hpos] at htm
    obtain ⟨hmem, hle, hiff⟩ := h.entry k hk tm htm
    rw [withCreated_length, withCreated_rungOf hr]
    exact ⟨Finset.mem_insert_of_mem hmem, hle, hiff⟩
  · intro x hx k hk
    rw [withCreated_rungOf hr] at hk
    rw [withCreated_rung hpos]
    rcases Finset.mem_insert.mp hx with rfl | hx
    · rw [hr] at hk
      cases hk
    · exact h.below x hx k hk
  · intro k hk
    rw [waiting_withCreated hpos hr (h.notMem_ids hX hk), withCreated_rung hpos]
    dsimp only
    rw [h.outstanding k hk]
    split
    · have hnot : r ∉ waiting X s k := fun hmem => hX (Finset.mem_filter.mp hmem).1
      rw [Finset.card_insert_of_notMem hnot]
      push_cast
      rfl
    · rw [add_zero]

/-- A requested trial that is created has work as before. -/
theorem Busy.withCreated (h : Busy M X R O s) (hr : r ∈ R) (hX : r ∉ X) :
    Busy M (insert r X) R O (s.withCreated r) := by
  obtain ⟨hO, hr0⟩ := h.uncreated r hr hX
  have hpos := h.placed.shaped.1
  refine ⟨?_, h.maxTrials, h.valid, ?_, ?_, ?_, h.within, ?_, ?_⟩
  · rw [withCreated_length]
    exact h.placed.withCreated hX hr0
  · rw [← h.count]
    exact (length_keys_insert _).trans (if_pos ((h.known r).mpr hr))
  · intro x
    refine (AList.mem_insert _).trans ?_
    exact ⟨fun hx => hx.elim (fun hx => hx ▸ hr) (h.known x).mp, fun hx => .inr ((h.known x).mpr hx)⟩
  · intro x hx
    rcases Finset.mem_insert.mp hx with rfl | hx
    · exact hr
    · exact h.created x hx
  · intro x hx
    rw [withCreated_rungOf hr0, withCreated_rung hpos]
    rcases Finset.mem_insert.mp hx with rfl | hx
    · rw [hr0]
      exact ⟨fun _ => h.placed.notMem_ids hX hpos, fun _ => hO⟩
    · exact h.unmeasured x hx
  · intro x hx hxX
    rw [withCreated_rungOf hr0]
    exact h.uncreated x hx fun hmem => hxX (Finset.mem_insert_of_mem hmem)

/-- What an answer gives work to: at most one trial that had none, and one while there are fewer
    than the maximum. -/
structure Answered (M : ℤ) (X : Finset ι) (R : List ι) (O : Finset ι)
    (out : Outcome (AsyncHalvingSearch ι) ι) : Prop where
  busy : Busy M X (R ++ (creates out.ops).map (·.requestID)) (tasked out.ops ∪ O) out.method
  idle : ∀ q ∈ tasked out.ops, q ∉ O
  atMost : (tasked out.ops).card ≤ 1
  exactly : (R.length : ℤ) < M → (tasked out.ops).card = 1

theorem Busy.finish {ops : List (Operation ι)} {added : Bool} (h : Busy M X R (tasked ops ∪ O) s)
    (hfresh : (newCreate rand).1.requestID ∉ R) (hcreates : creates ops = [])
    (hidle : ∀ q ∈ tasked ops, q ∉ O) (hcard : (tasked ops).card = if added then 1 else 0) :
    Answered M X R O (s.finishPromotion rand ops added) := by
  obtain ⟨created, closing, hfin⟩ := s.finished_finishPromotion rand ops added
  generalize s.finishPromotion rand ops added = out at hfin ⊢
  have hcreated := hfin.created_iff
  rw [h.count, h.valid, h.maxTrials, sub_zero] at hcreated
  cases created with
  | false =>
    have hops : tasked out.ops = tasked ops := by rw [hfin.ops_eq]; simp
    have hnone : creates out.ops = [] := by rw [hfin.ops_eq]; simp [hcreates, creates_map_close]
    refine ⟨?_, ?_, ?_, fun hlt => ?_⟩
    · rw [hops, hnone, hfin.method_eq, List.map_nil, List.append_nil]
      exact h.congr rfl rfl rfl rfl rfl
    · rw [hops]
      exact hidle
    · rw [hops, hcard]
      split <;> omega
    · rw [hops, hcard, if_pos]
      by_contra hno
      exact absurd (hcreated.mpr ⟨by simpa using hno, hlt⟩) Bool.false_ne_true
  | true =>
    obtain ⟨hadded, -⟩ := hcreated.mp rfl
    have hnone : tasked ops = ∅ := by
      rw [← Finset.card_eq_zero, hcard, hadded]
      rfl
    have hops : tasked out.ops = {(newCreate rand).1.requestID} := by
      rw [hfin.ops_eq]
      simp [hnone, createTrial]
    have hnew : (creates out.ops).map (·.requestID) = [(newCreate rand).1.requestID] := by
      rw [hfin.ops_eq]
      simp [hcreates, creates_map_close, createTrial, newTrain, newValidate]
    refine ⟨?_, ?_, ?_, fun _ => ?_⟩
    · rw [hops, hnew, hfin.method_eq]
      rw [hnone, Finset.empty_union] at h
      exact (h.create hfresh).congr rfl rfl rfl rfl rfl
    · intro q hq hO
      rw [hops, Finset.mem_singleton] at hq
      exact hfresh (hq ▸ h.within q (Finset.mem_union_right _ hO))
    · rw [hops, Finset.card_singleton]
    · rw [hops, Finset.card_singleton]

/-- A report of a trial with work is answered, whichever exited trials are promoted on the way. -/
theorem Busy.promoteAsync (h : Busy M X R O s) (hfresh : (newCreate rand).1.requestID ∉ R)
    (hr : r ∈ X) (hO : r ∈ O) (metric : ℚ) :
    Answered M X R (O.erase r) (s.promoteAsync rand r metric) := by
  have hstart : Busy M X R (insert r (O.erase r)) s ∧ r ∈ X ∧ r ∉ O.erase r := by
    rw [Finset.insert_erase hO]
    exact ⟨h, hr, Finset.notMem_erase _ _⟩
  refine promoteWithin_rule (Q := Answered M X R (O.erase r))
    (P := fun s' r' _ => Busy M X R (insert r' (O.erase r)) s' ∧ r' ∈ X ∧ r' ∉ O.erase r)
    ?_ ?_ ?_ ?_ ?_ _ hstart (by omega)
  · rintro s' r' - ⟨hb, hr', -⟩
    exact ⟨hb.placed.shaped, hb.placed.inRange r' hr'⟩
  · rintro s' r' metric' s'' q ⟨hb, hr', hn⟩ hrec -
    obtain ⟨hb', hq⟩ := hb.record hrec hr' (Finset.mem_insert_self _ _)
    rw [Finset.erase_insert hn] at hb' hq
    obtain ⟨hqX, hqO⟩ := hq q rfl
    exact ⟨by simpa using hb', hqX, hqO⟩
  · rintro s' r' metric' s'' q units ⟨hb, hr', hn⟩ hrec -
    obtain ⟨hb', hq⟩ := hb.record hrec hr' (Finset.mem_insert_self _ _)
    rw [Finset.erase_insert hn] at hb' hq
    obtain ⟨-, hqO⟩ := hq q rfl
    exact Busy.finish (by simpa using hb') hfresh rfl (by simpa using hqO) (by simp)
  · rintro s' r' metric' s'' ⟨hb, hr', hn⟩ hrec -
    obtain ⟨hb', -⟩ := hb.record hrec hr' (Finset.mem_insert_self _ _)
    rw [Finset.erase_insert hn] at hb'
    exact Busy.finish (by simpa using hb') hfresh rfl (by simp) (by simp)
  · rintro s' r' metric' s'' ⟨hb, hr', hn⟩ hrec - -
    obtain ⟨hb', -⟩ := hb.record hrec hr' (Finset.mem_insert_self _ _)
    rw [Finset.erase_insert hn] at hb'
    have hb'' : Busy M X R _ { s'' with closedTrials := insert r' s''.closedTrials } :=
      hb'.congr rfl rfl rfl rfl rfl
    exact Busy.finish (by simpa using hb'') hfresh rfl (by simp) (by simp)

/-- A new search has no trials. -/
theorem busy_new {config : AsyncHalvingConfig} (h : 0 < config.numRungs) :
    Busy config.maxTrials ∅ [] ∅ (newAsyncHalvingSearch (ι := ι) config) := by
  have hlen : (newAsyncHalvingSearch (ι := ι) config).rungs.length = config.numRungs.toNat := by
    simp [newAsyncHalvingSearch]
  have hempty : ∀ k, ((newAsyncHalvingSearch (ι := ι) config).rung k).metrics = [] ∧
      ((newAsyncHalvingSearch (ι := ι) config).rung k).outstandingTrials = 0 := by
    intro k
    rw [rung, newAsyncHalvingSearch, List.getD_eq_getElem?_getD, List.getElem?_map]
    cases (List.range config.numRungs.toNat)[k]? <;> exact ⟨rfl, rfl⟩
  refine ⟨⟨⟨?_, ?_⟩, ⟨le_rfl, Nat.le_succ _⟩, by simp, by simp, fun k _ => ?_, fun k _ tm htm => ?_,
    by simp, fun k _ => ?_⟩, rfl, rfl, rfl, fun r => ?_, by simp, by simp, by simp, by simp⟩
  · rw [hlen]
    omega
  · rw [hlen]
    exact Int.toNat_of_nonneg h.le
  · rw [(hempty k).1]
    exact List.nodup_nil
  · rw [(hempty k).1] at htm
    cases htm
  · rw [(hempty k).2]
    rfl
  · simp [newAsyncHalvingSearch]

/-- The initial operations give work to the trials they create. -/
theorem Busy.createTrials (n : ℕ) : ∀ {s : AsyncHalvingSearch ι} {rand : Rand ι} {R : List ι}
    {O : Finset ι}, Busy M X R O s → (∀ r ∈ R, ∃ i < rand.pos, rand.draw i = r) →
      Busy M X (R ++ (creates (createTrials n s rand).ops).map (·.requestID))
        (tasked (createTrials n s rand).ops ∪ O) (createTrials n s rand).method ∧
      (tasked (createTrials n s rand).ops).card = n ∧
      (creates (createTrials n s rand).ops).length = n ∧
      ∀ q ∈ tasked (createTrials n s rand).ops, q ∉ O := by
  induction n with
  | zero => exact fun {s rand R O} h _ => ⟨by simpa [AsyncHalvingSearch.createTrials] using h, rfl, rfl,
      by simp [AsyncHalvingSearch.createTrials]⟩
  | succ n ih =>
    intro s rand R O h hdrawn
    have hfresh : (newCreate rand).1.requestID ∉ R := by
      intro hmem
      obtain ⟨i, hi, heq⟩ := hdrawn _ hmem
      exact absurd (rand.fresh heq) (by omega)
    have hnew := h.create hfresh
    have hdrawn' : ∀ r ∈ R ++ [(newCreate rand).1.requestID],
        ∃ i < (newCreate rand).2.pos, (newCreate rand).2.draw i = r := by
      intro r hr
      rcases List.mem_append.mp hr with hr | hr
      · obtain ⟨i, hi, heq⟩ := hdrawn r hr
        exact ⟨i, Nat.lt_succ_of_lt hi, heq⟩
      · rw [List.mem_singleton.mp hr]
        exact ⟨rand.pos, Nat.lt_succ_self _, rfl⟩
    obtain ⟨hbusy, hcard, hlen, hidle⟩ := ih hnew hdrawn'
    have hunfold : AsyncHalvingSearch.createTrials (n + 1) s rand =
        { AsyncHalvingSearch.createTrials n
            { s with trialRungs := s.trialRungs.insert (newCreate rand).1.requestID 0 }
            (newCreate rand).2 with
          ops := (s.createTrial rand).ops ++ (AsyncHalvingSearch.createTrials n
            { s with trialRungs := s.trialRungs.insert (newCreate rand).1.requestID 0 }
            (newCreate rand).2).ops } := rfl
    generalize AsyncHalvingSearch.createTrials n _ (newCreate rand).2 = out at *
    have htasked : tasked ((s.createTrial rand).ops ++ out.ops) =
        insert (newCreate rand).1.requestID (tasked out.ops) := by
      rw [Finset.insert_eq]
      simp [createTrial]
    have hcreates : creates ((s.createTrial rand).ops ++ out.ops) =
        (newCreate rand).1 :: creates out.ops := by
      simp [createTrial, newTrain, newValidate]
    rw [hunfold]
    dsimp only
    rw [htasked, hcreates]
    refine ⟨?_, ?_, by rw [List.length_cons, hlen], fun q hq hO => ?_⟩
    · rw [List.map_cons, Finset.insert_union, ← Finset.union_insert]
      simpa using hbusy
    · rw [Finset.card_insert_of_notMem fun hmem => hidle _ hmem (Finset.mem_insert_self _ _), hcard]
    · rcases Finset.mem_insert.mp hq with rfl | hq
      · exact hfresh (h.within _ hO)
      · exact hidle q hq (Finset.mem_insert_of_mem hO)

end AsyncHalvingSearch

/-! ### Runs -/

/-- A search under way, with the trials requested and created so far, and those that were given a
    training and a validation and have not reported since. -/
structure HalvingRun (ι : Type) where
  search : AsyncHalvingSearch ι
  rand : Rand ι
  requested : List ι
  created : Finset ι
  outstanding : Finset ι

namespace HalvingRun

/-- The trial that is done with its work: it validated, or exited early. -/
def reporter : Call ι → Option ι
  | .validationCompleted r _ _ | .trialExitedEarly r _ => some r
  | _ => none

/-- Each trial is created once, before the searcher hears of it by its trial id, and only trials with
    outstanding work report, none of them that its hyperparameters are invalid. -/
def admits (run : HalvingRun ι) (call : Call ι) : Bool :=
  decide (call.requestID ∈ run.requested) && match call with
    | .trialCreated r => decide (r ∉ run.created)
    | .validationCompleted r _ _ => decide (r ∈ run.created ∧ r ∈ run.outstanding)
    | .trialExitedEarly r reason =>
      decide (r ∈ run.created ∧ r ∈ run.outstanding) && decide (reason ≠ .invalidHP)
    | _ => true

/-- What an event leaves of the run. -/
def after (run : HalvingRun ι) (call : Call ι) (out : Outcome (AsyncHalvingSearch ι) ι) :
    HalvingRun ι where
  search := out.method
  rand := out.rand
  requested := run.requested ++ (creates out.ops).map (·.requestID)
  created := match call with
    | .trialCreated r => insert r run.created
    | _ => run.created
  outstanding := tasked out.ops ∪ run.outstanding \ (reporter call).toFinset

def next (run : HalvingRun ι) (call : Call ι) : Option (HalvingRun ι) :=
  if run.admits call then
    match asyncHalvingMethod.call run.search run.rand call with
    | .ok out => some (run.after call out)
    | .error _ => none
  else none

def Step (run : HalvingRun ι) (call : Call ι) (run' : HalvingRun ι) : Prop := run.next call = some run'

/-- The run after the initial operations. -/
def start (config : AsyncHalvingConfig) (rand : Rand ι) : Except Fault (HalvingRun ι) := do
  let out ← asyncHalvingMethod.initialOperations (newAsyncHalvingSearch config) rand
  return ⟨out.method, out.rand, (creates out.ops).map (·.requestID), ∅, tasked out.ops⟩

variable {run run' : HalvingRun ι} {call : Call ι} {M : ℤ} {N : ℕ}

/-- As many trials as at the start have work, until the last one is requested. -/
structure Parallel (M : ℤ) (N : ℕ) (run : HalvingRun ι) : Prop where
  busy : run.search.Busy M run.created run.requested run.outstanding
  budgeted : AsyncHalvingSearch.Budgeted ⟨M, run.requested, 0⟩ run.search run.rand
  atMost : run.outstanding.card ≤ N
  exactly : (run.requested.length : ℤ) < M → run.outstanding.card = N

theorem step_spec (h : Step run call run') : run.admits call = true ∧ ∃ out,
    asyncHalvingMethod.call run.search run.rand call = .ok out ∧ run' = run.after call out := by
  unfold Step next at h
  split at h
  · rename_i hadmits
    split at h
    · rename_i out hout
      cases h
      exact ⟨hadmits, out, hout, rfl⟩
    · cases h
  · cases h

/-- A callback that answers with no operations and keeps who has work. -/
theorem Parallel.quiet (h : Parallel M N run) {out : Outcome (AsyncHalvingSearch ι) ι}
    (hops : out.ops = []) (hcall : reporter call = none)
    (hbusy : out.method.Busy M (run.after call out).created run.requested run.outstanding)
    (hbudgeted : AsyncHalvingSearch.Budgeted ⟨M, (run.after call out).requested, 0⟩ out.method
      out.rand) : Parallel M N (run.after call out) := by
  have hreq : (run.after call out).requested = run.requested := by simp [after, hops]
  have hout : (run.after call out).outstanding = run.outstanding := by simp [after, hops, hcall]
  refine ⟨?_, hbudgeted, ?_, ?_⟩
  · rw [hreq, hout]
    exact hbusy
  · rw [hout]
    exact h.atMost
  · rw [hreq, hout]
    exact h.exactly

/-- The answer to a report keeps as many trials at work, unless the last one has been requested. -/
theorem Parallel.answered (h : Parallel M N run) {out : Outcome (AsyncHalvingSearch ι) ι} {r : ι}
    (hcall : reporter call = some r) (hO : r ∈ run.outstanding)
    (hout : AsyncHalvingSearch.Answered M run.created run.requested (run.outstanding.erase r) out)
    (hbudgeted : AsyncHalvingSearch.Budgeted ⟨M, (run.after call out).requested, 0⟩ out.method
      out.rand) : Parallel M N (run.after call out) := by
  have hcreated : (run.after call out).created = run.created := by
    cases call with
    | trialCreated r => cases hcall
    | _ => rfl
  have hset : (run.after call out).outstanding = tasked out.ops ∪ run.outstanding.erase r := by
    simp [after, hcall, Finset.sdiff_singleton_eq_erase]
  have hcard : (run.after call out).outstanding.card + 1 =
      (tasked out.ops).card + run.outstanding.card := by
    have hpos := Finset.card_pos.mpr ⟨r, hO⟩
    rw [hset, Finset.card_union_of_disjoint (Finset.disjoint_left.mpr hout.idle),
      Finset.card_erase_of_mem hO]
    omega
  have hle := hout.atMost
  have hN := h.atMost
  refine ⟨?_, hbudgeted, by omega, fun hlt => ?_⟩
  · rw [hcreated, hset]
    exact hout.busy
  · have hlt' : (run.requested.length : ℤ) < M := by
      simp only [after, List.length_append] at hlt
      push_cast at hlt
      omega
    have hone := hout.exactly hlt'
    have heq := h.exactly hlt'
    omega

/-- Step lemma: an event keeps the parallelism. -/
theorem parallel_step (run : HalvingRun ι) (call : Call ι) (run' : HalvingRun ι)
    (h : Parallel M N run) (hst : Step run call run') : Parallel M N run' := by
  obtain ⟨hadmits, out, hout, rfl⟩ := step_spec hst
  obtain ⟨hmem, hcond⟩ := Bool.and_eq_true_iff.mp hadmits
  obtain ⟨-, hkept⟩ := AsyncHalvingSearch.keeps.call h.budgeted (of_decide_eq_true hmem) hout
  have hfresh : (newCreate run.rand).1.requestID ∉ run.requested := by
    intro hnew
    obtain ⟨i, hi, heq⟩ := h.budgeted.drawn _ hnew
    exact absurd (run.rand.fresh heq) (by omega)
  cases call with
  | trialCreated r =>
    have hr : r ∈ run.requested := of_decide_eq_true hmem
    have hX : r ∉ run.created := of_decide_eq_true hcond
    cases hout
    exact h.quiet rfl rfl (h.busy.withCreated hr hX) hkept
  | trainCompleted r train =>
    cases hout
    exact h.quiet rfl rfl h.busy hkept
  | checkpointCompleted r checkpoint metrics =>
    cases hout
    exact h.quiet rfl rfl h.busy hkept
  | trialClosed r =>
    cases hout
    exact h.quiet rfl rfl (h.busy.congr rfl rfl rfl rfl rfl) hkept
  | validationCompleted r validate metrics =>
    obtain ⟨hX, hO⟩ := of_decide_eq_true hcond
    obtain ⟨metric, -, heq⟩ := bind_eq_ok.mp hout
    cases heq
    exact h.answered rfl hO (h.busy.promoteAsync hfresh hX hO metric) hkept
  | trialExitedEarly r reason =>
    obtain ⟨hwork, hreason⟩ := Bool.and_eq_true_iff.mp hcond
    obtain ⟨hX, hO⟩ := of_decide_eq_true hwork
    have hexited : AsyncHalvingSearch.Busy M run.created run.requested run.outstanding
        { run.search with
          earlyExitTrials := insert r run.search.earlyExitTrials
          closedTrials := insert r run.search.closedTrials } :=
      h.busy.congr rfl rfl rfl rfl rfl
    cases reason with
    | invalidHP => exact absurd rfl (of_decide_eq_true hreason)
    | _ =>
      cases hout
      exact h.answered rfl hO (hexited.promoteAsync hfresh hX hO exitedMetricValue) hkept

/-- CORRECT: in a run of a valid search without invalid hyperparameters, as many trials as were
    requested at the start have outstanding work as long as fewer than the maximum are requested, and
    at no time more. -/
theorem parallelism_kept (config : AsyncHalvingConfig) (hvalid : config.validate = [])
    (rand : Rand ι) {first run : HalvingRun ι} {tr : List (Edge (HalvingRun ι) (Call ι))}
    (h0 : start config rand = .ok first) (h : Run Step first tr run) :
    run.outstanding.card ≤ first.requested.length ∧
      ((run.requested.length : ℤ) < config.maxTrials →
        run.outstanding.card = first.requested.length) := by
  obtain ⟨-, htrials, -, hrungs, -⟩ := AsyncHalvingConfig.validate_iff.mp hvalid
  obtain ⟨out, hout, heq⟩ := bind_eq_ok.mp h0
  cases heq
  have hparallel : Parallel config.maxTrials ((creates out.ops).map (·.requestID)).length
      ⟨out.method, out.rand, (creates out.ops).map (·.requestID), ∅, tasked out.ops⟩ := by
    obtain ⟨-, hbudgeted⟩ := AsyncHalvingSearch.opens htrials rand out hout
    cases hout
    have hdrawn : ∀ r ∈ ([] : List ι), ∃ i < rand.pos, rand.draw i = r := by simp
    obtain ⟨hbusy, hcard, hlen, -⟩ := AsyncHalvingSearch.Busy.createTrials
      (newAsyncHalvingSearch (ι := ι) config).maxConcurrentTrials.toNat
      (AsyncHalvingSearch.busy_new hrungs) hdrawn
    rw [List.nil_append, Finset.union_empty] at hbusy
    have heq := hcard.trans hlen.symm
    rw [← List.length_map (f := (·.requestID))] at heq
    exact ⟨hbusy, hbudgeted, heq.le, fun _ => heq⟩
  obtain ⟨-, hrun⟩ := h.invariant parallel_step hparallel
  exact ⟨hrun.atMost, hrun.exactly⟩

/-- Two rungs, and two of at most four trials at a time. -/
def twoAtATime : AsyncHalvingConfig := ⟨"loss", true, 2, newLengthInBatches 4, 4, 2, 2⟩

/-- The first trial validates, and is promoted when the second one exits. -/
def validatesThenExits : List (Call ℕ) :=
  [.trialCreated 0, .trialCreated 1, .validationCompleted 0 (.validate 0) ⟨1, [("loss", .float 3)]⟩,
    .trialExitedEarly 1 .errored]

theorem parallelism_kept_two : ∃ (first run : HalvingRun ℕ) (tr : List (Edge (HalvingRun ℕ) (Call ℕ))),
    start twoAtATime ⟨id, Function.injective_id, 0⟩ = .ok first ∧ Run Step first tr run ∧
      tr.map (·.event) = validatesThenExits ∧ first.requested.length = 2 ∧
      run.outstanding.card = 2 := by
  have hexec : ((start twoAtATime ⟨id, Function.injective_id, 0⟩).toOption.bind
      fun first : HalvingRun ℕ => (exec next first validatesThenExits).map fun r =>
        (first.requested.length, r.2.requested.length)) = some (2, 3) := by decide +kernel
  obtain ⟨first, hfirst, hexec⟩ := Option.bind_eq_some_iff.mp hexec
  have h0 : start twoAtATime ⟨id, Function.injective_id, 0⟩ = .ok first := by
    cases hs : start (ι := ℕ) twoAtATime ⟨id, Function.injective_id, 0⟩ with
    | error fault => rw [hs] at hfirst; cases hfirst
    | ok first' => rw [hs] at hfirst; cases hfirst; rfl
  obtain ⟨tr, run, hrun, hev, hlen⟩ := Run.exists_of_exec (fun _ _ _ h => h) _ hexec
  obtain ⟨hfirst, hrequested⟩ := Prod.mk.inj hlen
  refine ⟨first, run, tr, h0, hrun, hev, hfirst, ?_⟩
  rw [← hfirst]
  refine (parallelism_kept twoAtATime (by decide) _ h0 hrun).2 ?_
  rw [hrequested]
  decide

end HalvingRun

end Determined.Searcher
