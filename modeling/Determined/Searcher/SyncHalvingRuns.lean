import Determined.Searcher.SyncHalvingRungs

/-! Whole runs of a synchronous halving search: once all requested operations are done, every trial
    has been closed or has exited, and each rung has promoted as many trials as it should.

    Two things go wrong. A trial that exits after its result is in the rung gets a second one there.
    And when a rung's last result promotes a trial that has exited, the trials it does not promote
    are never closed: that matters if one of them has not exited, which takes a trial that reports
    the worst possible metric itself (`strands`). -/

namespace Determined.Searcher
open Determined.Model Determined.Schemes

variable {ι : Type} [DecidableEq ι]

namespace SyncHalvingSearch

/-- A result in the rung with this index is its last and promotes a trial that has exited, while one
    that is not promoted has not exited; or the promoted trial's worst possible result does so in a
    rung above. -/
def strands : ℕ → SyncHalvingSearch ι → ℕ → ι → ℚ → Bool
  | rungsLeft, s, k, r, metric =>
    let rung := s.rung k
    match rung.nextPromoted r metric with
    | none => false
    | some q =>
      !s.isTop k && decide (q ∈ s.earlyExitTrials) &&
        (decide ((rung.metrics.length : ℤ) + 1 = rung.startTrials) &&
            (r :: rung.ids).any (fun x => decide (x ∉ s.earlyExitTrials ∧ x ∉ rung.promotedIDs)) ||
          match rungsLeft with
          | 0 => false
          | rungsLeft + 1 => strands rungsLeft s (k + 1) q exitedMetricValue)

/-- Only the rungs from the first one on matter, and who has exited. -/
theorem strands_congr {s s' : SyncHalvingSearch ι} (hc : s'.config = s.config)
    (he : s'.earlyExitTrials = s.earlyExitTrials) : ∀ (rungsLeft : ℕ) {k : ℕ} {r : ι} {metric : ℚ},
    (∀ j, k ≤ j → s'.rung j = s.rung j) →
      strands rungsLeft s' k r metric = strands rungsLeft s k r metric
  | 0, k, r, metric, h => by
    unfold strands
    simp only [h k le_rfl, isTop, hc, he]
  | rungsLeft + 1, k, r, metric, h => by
    unfold strands
    simp only [h k le_rfl, isTop, hc, he]
    split
    · rfl
    · rw [strands_congr hc he rungsLeft fun j hj => h j (by omega)]

/-! ### Closing trials -/

section Close

variable {α : Type} (f : α → ι)

omit [DecidableEq ι] in
@[simp] theorem creates_map_close (l : List α) : creates (l.map fun a => Operation.close (f a)) = [] := by
  induction l with
  | nil => rfl
  | cons a l ih => exact ih

@[simp] theorem asked_map_close (x : ι) (l : List α) :
    asked x (l.map fun a => Operation.close (f a)) = [] := by
  induction l with
  | nil => rfl
  | cons a l ih => exact ih

theorem closes_map_close (x : ι) (l : List α) :
    closes x (l.map fun a => Operation.close (f a)) = true ↔ x ∈ l.map f := by
  simp [closes, eq_comm]

end Close

omit [DecidableEq ι] in
theorem mem_drop_iff_notMem_take {l : List ι} (h : l.Nodup) (n : ℕ) (x : ι) :
    x ∈ l.drop n ↔ x ∈ l ∧ x ∉ l.take n := by
  refine ⟨fun hx => ⟨List.mem_of_mem_drop hx, fun ht => List.disjoint_take_drop h le_rfl ht hx⟩,
    fun ⟨hx, ht⟩ => ?_⟩
  rw [← List.take_append_drop n l, List.mem_append] at hx
  exact hx.resolve_left ht

/-! ### What the trials are doing -/

/-- The trial has a validation to do, maybe after some training. -/
def Busy (t : TrialState ι) (r : ι) : Prop :=
  t.closing = false ∧ (t.ops = [.validate r] ∨ ∃ l, t.ops = [.train r l, .validate r])

/-- The trial has nothing to do. -/
def Idle (t : TrialState ι) : Prop := t.ops = [] ∧ t.closing = false

/-- A trial without a result in its rung works on one, and a trial with one waits until the rung is
    full; only the trial being handled (`handled`) is somewhere else. -/
structure Attends (X : Finset ι) (s : SyncHalvingSearch ι) (T : ι → TrialState ι)
    (handled : Option ι) : Prop where
  exited : ∀ r ∈ X, r ∈ s.earlyExitTrials ↔ (T r).exits ≠ []
  closed : ∀ r ∈ X, (T r).closed = true → (T r).exits ≠ [] ∨ (T r).closing = true
  awaited : ∀ r ∈ X, handled ≠ some r → s.trialRungs r + 1 < s.rungs.length →
    r ∉ (s.rung (s.trialRungs r)).ids → (T r).exits = [] ∧ Busy (T r) r
  waiting : ∀ r ∈ X, r ∈ (s.rung (s.trialRungs r)).ids → (T r).exits = [] →
    (T r).ops = [] ∧ ((T r).closing = true ↔ (s.rung (s.trialRungs r)).full = true)
  top : ∀ r ∈ X, handled ≠ some r → s.trialRungs r + 1 = s.rungs.length → (T r).exits = [] →
    Busy (T r) r ∨ (T r).ops = [] ∧ (T r).closing = true

/-- Operations for trials that exist. -/
structure Asks (X : Finset ι) (ops : List (Operation ι)) : Prop where
  creates : creates ops = []
  known : ∀ x, asked x ops ≠ [] ∨ closes x ops = true → x ∈ X

theorem Asks.nil (X : Finset ι) : Asks X [] := ⟨rfl, fun x h => by simp at h⟩

section Handle

variable {X : Finset ι} {s s' : SyncHalvingSearch ι} {T : ι → TrialState ι} {r q : ι} {metric : ℚ}

omit [DecidableEq ι] in
/-- A rung with a trial still to report is not full, so none of its trials is asked to close. -/
theorem Attends.open (h : Attends X s T (some r)) (hs : Ranked X s) (hr : r ∈ X)
    (hnot : r ∉ (s.rung (s.trialRungs r)).ids) (hidle : (T r).exits = [] → Idle (T r)) {x : ι}
    (hx : x = r ∨ x ∈ (s.rung (s.trialRungs r)).ids) (hrung : s.trialRungs x = s.trialRungs r)
    (hlive : (T x).exits = []) : Idle (T x) := by
  rcases hx with rfl | hx
  · exact hidle hlive
  · rw [← hrung] at hx
    obtain ⟨hops, hclosing⟩ := h.waiting x (hs.reported _ x hx).1 hx hlive
    refine ⟨hops, ?_⟩
    rw [Bool.eq_false_iff, Ne, hclosing, hrung, Rung.full_iff]
    exact (hs.length_lt hr hnot).ne

/-- After the result, a trial of the rung that was not promoted is the one that reported, or was
    there before. -/
theorem Recorded.stays {promoted : Option ι} (hrec : Recorded s r metric s' promoted)
    (hs : Ranked X s) (hr : r ∈ X) (hk : s.trialRungs r + 1 < s.rungs.length)
    (hnot : r ∉ (s.rung (s.trialRungs r)).ids) {x : ι}
    (hmem : x ∈ (s'.rung (s'.trialRungs x)).ids) : s'.trialRungs x = s.trialRungs x ∧
      (s.trialRungs x = s.trialRungs r ∧ (x = r ∨ x ∈ (s.rung (s.trialRungs r)).ids) ∨
        s.trialRungs x ≠ s.trialRungs r ∧ x ∈ (s.rung (s.trialRungs x)).ids) := by
  have hsame : s'.trialRungs x = s.trialRungs x := by
    rw [hrec.trialRungs]
    refine if_neg fun hp => ?_
    subst hp
    obtain ⟨-, hrung, -⟩ := hrec.promoted_spec hs hr hk hnot
    rw [hrec.trialRungs] at hmem
    dsimp only at hmem
    rw [if_pos rfl, hrec.other _ (by omega)] at hmem
    have := (hs.reported _ x hmem).2
    omega
  refine ⟨hsame, ?_⟩
  rw [hsame] at hmem
  by_cases hxr : s.trialRungs x = s.trialRungs r
  · rw [hxr, hrec.ids.mem_iff, List.mem_cons] at hmem
    exact .inl ⟨hxr, hmem⟩
  · rw [hrec.other _ hxr] at hmem
    exact .inr ⟨hxr, hmem⟩

/-- A trial without a result after it, other than the promoted one, had none before. -/
theorem Recorded.missing {promoted : Option ι} (hrec : Recorded s r metric s' promoted) {x : ι}
    (hx : promoted ≠ some x) (hmem : x ∉ (s'.rung (s'.trialRungs x)).ids) :
    s'.trialRungs x = s.trialRungs x ∧ x ≠ r ∧ x ∉ (s.rung (s.trialRungs x)).ids := by
  have hsame : s'.trialRungs x = s.trialRungs x := by
    rw [hrec.trialRungs]
    exact if_neg hx
  rw [hsame] at hmem
  refine ⟨hsame, ?_⟩
  by_cases hxr : s.trialRungs x = s.trialRungs r
  · rw [hxr, hrec.ids.mem_iff, List.mem_cons, not_or] at hmem
    rw [hxr]
    exact hmem
  · rw [hrec.other _ hxr] at hmem
    exact ⟨fun heq => hxr (heq ▸ rfl), hmem⟩

/-- Recording a result, with what then is asked of the trials of the rung and of the promoted one. -/
theorem Attends.record {promoted : Option ι} {T' : ι → TrialState ι} {handled : Option ι}
    (h : Attends X s T (some r)) (hs : Ranked X s) (hr : r ∈ X)
    (hk : s.trialRungs r + 1 < s.rungs.length) (hnot : r ∉ (s.rung (s.trialRungs r)).ids)
    (hidle : (T r).exits = [] → Idle (T r)) (hrec : Recorded s r metric s' promoted)
    (hexits : ∀ x, (T' x).exits = (T x).exits)
    (hclosed : ∀ x, (T' x).closed = (T x).closed ∧ ((T x).closing = true → (T' x).closing = true))
    (hrung : ∀ x, x ∈ (s'.rung (s.trialRungs r)).ids → promoted ≠ some x → (T x).exits = [] →
      Idle (T x) → s.trialRungs x = s.trialRungs r → (T' x).ops = [] ∧
        ((T' x).closing = true ↔ (s'.rung (s.trialRungs r)).full = true))
    (hother : ∀ x, promoted ≠ some x → (s.trialRungs x = s.trialRungs r →
      x ∉ (s'.rung (s.trialRungs r)).ids) → T' x = T x)
    (hpromoted : ∀ q, promoted = some q → handled ≠ some q →
      (T q).exits = [] ∧ (Idle (T q) → Busy (T' q) q)) :
    Attends X s' T' handled := by
  have hopen := fun {x} => h.open hs hr hnot hidle (x := x)
  have hbusy : ∀ q, promoted = some q → handled ≠ some q → (T q).exits = [] ∧ Busy (T' q) q := by
    intro q hq hne
    obtain ⟨hlive, hb⟩ := hpromoted q hq hne
    subst hq
    obtain ⟨-, hqr, hin⟩ := hrec.promoted_spec hs hr hk hnot
    exact ⟨hlive, hb (hopen hin hqr hlive)⟩
  refine ⟨fun x hx => ?_, fun x hx hc => ?_, fun x hx hne hlt hmem => ?_, fun x hx hmem hlive => ?_,
    fun x hx hne htop hlive => ?_⟩
  · rw [hrec.exited, hexits]
    exact h.exited x hx
  · rw [(hclosed x).1] at hc
    rw [hexits]
    exact (h.closed x hx hc).imp_right (hclosed x).2
  · rw [hexits]
    by_cases hp : promoted = some x
    · exact hbusy x hp hne
    · obtain ⟨hsame, hxr, hbefore⟩ := hrec.missing hp hmem
      rw [hother x hp fun heq => by rwa [hsame, heq] at hmem]
      rw [hsame, hrec.length] at hlt
      exact h.awaited x hx (fun heq => hxr (Option.some.inj heq).symm) hlt hbefore
  · rw [hexits] at hlive
    obtain ⟨hsame, ⟨hxr, hin⟩ | ⟨hxr, hin⟩⟩ := hrec.stays hs hr hk hnot hmem
    · have hp : promoted ≠ some x := by
        intro hp
        rw [hrec.trialRungs] at hsame
        dsimp only at hsame
        rw [if_pos hp, hxr] at hsame
        omega
      rw [hsame, hxr] at hmem ⊢
      exact hrung x hmem hp hlive (hopen hin hxr hlive) hxr
    · have hp : promoted ≠ some x := by
        rintro rfl
        exact hxr (hrec.promoted_spec hs hr hk hnot).2.1
      rw [hother x hp fun heq => absurd heq hxr, hsame, hrec.other _ hxr]
      exact h.waiting x hx hin hlive
  · rw [hexits] at hlive
    by_cases hp : promoted = some x
    · exact .inl (hbusy x hp hne).2
    · have hsame : s'.trialRungs x = s.trialRungs x := by
        rw [hrec.trialRungs]
        exact if_neg hp
      rw [hsame, hrec.length] at htop
      have hxr : s.trialRungs x ≠ s.trialRungs r := by omega
      rw [hother x hp fun heq => absurd heq hxr]
      exact h.top x hx (fun heq => hxr (Option.some.inj heq ▸ rfl)) htop hlive

/-- The operations for a trial that was promoted, and for those that were not if the rung is full. -/
theorem closeLosers_spec (hs : Ranked X s) {k : ℕ} (hk : k + 1 < s.rungs.length) (length : Length) :
    ∃ ops s',
      s.closeLosers k [newTrain q length, newValidate q] = .ok (ops, s') ∧
      s'.config = s.config ∧ s'.rungs = s.rungs ∧ s'.trialRungs = s.trialRungs ∧
      s'.earlyExitTrials = s.earlyExitTrials ∧ creates ops = [] ∧
      (∀ x, asked x ops = if x = q then [.train q length, .validate q] else []) ∧
      ∀ x, closes x ops = true ↔ (s.rung k).full = true ∧ x ∈ (s.rung k).ids ∧
        x ∉ (s.rung k).promotedIDs ∧ x ∉ s.earlyExitTrials := by
  have hlen : ((s.rung k).metrics.length : ℤ) ≤ (s.rung k).startTrials :=
    le_trans (by exact_mod_cast hs.length_le_card) (hs.card_reached_le (by omega))
  have hasked : ∀ x, asked x [newTrain q length, newValidate q] =
      if x = q then [.train q length, .validate q] else [] := by
    intro x
    simp only [newTrain, newValidate, asked_runnable, Runnable.requestID, asked_nil, eq_comm (a := q)]
    split <;> rfl
  rw [closeLosers, if_neg (by omega)]
  by_cases hfull : ((s.rung k).metrics.length : ℤ) = (s.rung k).startTrials
  · rw [if_pos hfull]
    refine ⟨_, _, rfl, rfl, rfl, rfl, rfl, ?_, fun x => ?_, fun x => ?_⟩
    · rw [creates_append, creates_map_close]
      rfl
    · rw [asked_append, asked_map_close, List.append_nil, hasked]
    · have hnum : (s.rung k).promoteTrials.toNat = (s.rung k).numPromoted := by
        rw [Rung.numPromoted]
        congr 1
        omega
      have hclose : closes x [newTrain q length, newValidate q] = false := by
        simp [newTrain, newValidate]
      rw [closes_append, hclose, Bool.false_or, closes_map_close, hnum]
      have hdrop : x ∈ (s.rung k).ids.drop (s.rung k).numPromoted ↔
          x ∈ (s.rung k).ids ∧ x ∉ (s.rung k).promotedIDs :=
        mem_drop_iff_notMem_take (hs.nodup k) _ x
      rw [← and_assoc (a := x ∈ _), ← hdrop, Rung.ids, ← List.map_drop]
      simp only [Rung.full_iff, hfull, true_and, List.mem_map, List.mem_filter, decide_eq_true_eq]
      constructor
      · rintro ⟨tm, ⟨htm, hne⟩, rfl⟩
        exact ⟨⟨tm, htm, rfl⟩, hne⟩
      · rintro ⟨⟨tm, htm, rfl⟩, hne⟩
        exact ⟨tm, ⟨htm, hne⟩, rfl⟩
  · rw [if_neg hfull]
    refine ⟨_, _, rfl, rfl, rfl, rfl, rfl, rfl, hasked, fun x => ?_⟩
    simp [newTrain, newValidate, Rung.full_iff, hfull]

omit [DecidableEq ι] in
theorem Ranked.congr (h : Ranked X s) (hc : s'.config = s.config) (hrungs : s'.rungs = s.rungs)
    (ht : s'.trialRungs = s.trialRungs) : Ranked X s' := by
  have hrung : ∀ k, s'.rung k = s.rung k := fun k => by rw [rung, hrungs, rung]
  refine ⟨⟨?_, ?_, fun k => ?_, ?_⟩, ?_, fun x => ?_, fun k => ?_, fun k x => ?_, fun k hk x => ?_, ?_⟩
  · rw [hc, hrungs, h.shaped.numRungs]
  · rw [hrungs]
    exact h.shaped.pos
  · rw [hrungs, hrung, hrung]
    exact h.shaped.next k
  · rw [hrungs, hrung, h.shaped.top]
  · rw [hrung, h.started]
  · rw [hrungs, ht]
    exact h.below x
  · rw [hrung]
    exact h.nodup k
  · rw [hrung, ht]
    exact h.reported k x
  · rw [hrung, ht]
    rw [hrungs] at hk
    exact h.promoted k hk x
  · rw [hrungs, hrung, h.top]

omit [DecidableEq ι] in
theorem Attends.congr {handled : Option ι} (h : Attends X s T handled)
    (he : s'.earlyExitTrials = s.earlyExitTrials) (hrungs : s'.rungs = s.rungs)
    (ht : s'.trialRungs = s.trialRungs) : Attends X s' T handled := by
  have hrung : ∀ k, s'.rung k = s.rung k := fun k => by rw [rung, hrungs, rung]
  refine ⟨fun x => ?_, h.closed, fun x => ?_, fun x => ?_, fun x => ?_⟩
  · rw [he]
    exact h.exited x
  · rw [hrung, hrungs, ht]
    exact h.awaited x
  · rw [hrung, ht]
    exact h.waiting x
  · rw [hrungs, ht]
    exact h.top x

/-- A result in the top rung closes the trial, unless it has exited. -/
theorem Attends.finish (h : Attends X s T (some r)) (hr : r ∈ X)
    (htop : s.trialRungs r + 1 = s.rungs.length) (hmetrics : (s.rung (s.trialRungs r)).metrics = [])
    (hidle : (T r).exits = [] → Idle (T r)) {ops : List (Operation ι)}
    (hops : ops = if r ∈ s.earlyExitTrials then [] else [.close r]) :
    Attends X s (fun x => (T x).relay (asked x ops) (closes x ops)) none := by
  have hnone : ∀ x, x ≠ r → (T x).relay (asked x ops) (closes x ops) = T x := by
    intro x hx
    rw [hops]
    split <;> simp [hx]
  have hself : (T r).exits = [] → ((T r).relay (asked r ops) (closes r ops)).ops = [] ∧
      ((T r).relay (asked r ops) (closes r ops)).closing = true := by
    intro hlive
    obtain ⟨hnil, -⟩ := hidle hlive
    have hne : r ∉ s.earlyExitTrials := fun he => (h.exited r hr).mp he hlive
    rw [hops, if_neg hne]
    simp [TrialState.relay, hnil]
  refine ⟨h.exited, fun x hx hc => ?_, fun x hx _ hlt hmem => ?_, fun x hx hmem hlive => ?_,
    fun x hx _ ht hlive => ?_⟩
  · exact (h.closed x hx hc).imp_right fun hcl => by simp [TrialState.relay, hcl]
  · have hxr : x ≠ r := by
      rintro rfl
      omega
    rw [hnone x hxr]
    exact h.awaited x hx (fun heq => hxr (Option.some.inj heq).symm) hlt hmem
  · have hxr : x ≠ r := by
      rintro rfl
      rw [Rung.ids, hmetrics] at hmem
      cases hmem
    rw [hnone x hxr] at hlive ⊢
    exact h.waiting x hx hmem hlive
  · by_cases hxr : x = r
    · subst hxr
      exact .inr (hself hlive)
    · rw [hnone x hxr] at hlive ⊢
      exact h.top x hx (fun heq => hxr (Option.some.inj heq).symm) ht hlive

/-- A handled result leaves the rungs ranked and every trial attended to. -/
structure Handled (X : Finset ι) (T : ι → TrialState ι) (config : SyncHalvingConfig)
    (ops : List (Operation ι)) (s' : SyncHalvingSearch ι) : Prop where
  ranked : Ranked X s'
  attends : Attends X s' (fun x => (T x).relay (asked x ops) (closes x ops)) none
  asks : Asks X ops
  config : s'.config = config

theorem handled_top (hs : Ranked X s) (h : Attends X s T (some r)) (hr : r ∈ X)
    (htop : s.trialRungs r + 1 = s.rungs.length) (hidle : (T r).exits = [] → Idle (T r)) :
    Handled X T s.config (if r ∈ s.earlyExitTrials then [] else [.close r])
      { s with trialsCompleted := s.trialsCompleted + 1 } where
  ranked := hs.congr rfl rfl rfl
  attends := by
    have hk : s.rungs.length - 1 = s.trialRungs r := by omega
    exact (h.finish hr htop (hk ▸ hs.top) hidle rfl).congr rfl rfl rfl
  asks := by
    split
    · exact .nil X
    · refine ⟨rfl, fun x hx => ?_⟩
      rcases hx with hx | hx
      · simp at hx
      · simp only [closes_close, closes_nil, Bool.or_false, decide_eq_true_eq] at hx
        exact hx ▸ hr
  config := rfl

omit [DecidableEq ι] in
theorem Recorded.full_iff [DecidableEq ι] {promoted : Option ι}
    (hrec : Recorded s r metric s' promoted) : (s'.rung (s.trialRungs r)).full = true ↔
      ((s.rung (s.trialRungs r)).metrics.length : ℤ) + 1 = (s.rung (s.trialRungs r)).startTrials := by
  have hlen := hrec.ids.length_eq
  rw [List.length_cons, Rung.length_ids, Rung.length_ids] at hlen
  rw [Rung.full_iff, hlen, (hrec.trials _).1]
  push_cast
  rfl

section Below

variable (hs : Ranked X s) (h : Attends X s T (some r)) (hr : r ∈ X)
  (hk : s.trialRungs r + 1 < s.rungs.length) (hnot : r ∉ (s.rung (s.trialRungs r)).ids)
  (hidle : (T r).exits = [] → Idle (T r))

include hs h hr hk hnot hidle

/-- Too few results for a promotion: the trial waits. -/
theorem handled_none (hrec : Recorded s r metric s' none) : Handled X T s.config [] s' where
  ranked := hrec.ranked hs hr hk hnot
  attends := by
    simp only [asked_nil, closes_nil, TrialState.relay_nothing]
    refine h.record hs hr hk hnot hidle hrec (fun _ => rfl) (fun _ => ⟨rfl, id⟩)
      (fun x _ _ _ hx _ => ⟨hx.1, ?_⟩) (fun _ _ _ => rfl) (fun q hq => by cases hq)
    have hnext := hrec.next
    have hone := (hs.shaped.next _ hk).2.1
    have hfull : ¬ (s'.rung (s.trialRungs r)).full = true := by
      rw [hrec.full_iff]
      intro hfull
      rw [Rung.nextPromoted, if_neg (by omega)] at hnext
      split at hnext
      · cases hnext
      · rename_i hi
        have hle := (s.rung (s.trialRungs r)).insertIndex_le metric
        have := List.getElem?_eq_none_iff.mp hnext.symm
        rw [Rung.length_ids] at this
        omega
    simp [hx.2, hfull]
  asks := .nil X
  config := hrec.config

/-- The promoted trial has exited, and none that has not is left behind: it climbs on. -/
theorem Attends.climb (hrec : Recorded s r metric s' (some q))
    (hleft : ((s.rung (s.trialRungs r)).metrics.length : ℤ) + 1 =
      (s.rung (s.trialRungs r)).startTrials → ∀ x ∈ r :: (s.rung (s.trialRungs r)).ids,
        x ∉ (s.rung (s.trialRungs r)).promotedIDs → x ∈ s.earlyExitTrials) :
    Attends X s' T (some q) := by
  refine h.record hs hr hk hnot hidle hrec (fun _ => rfl) (fun _ => ⟨rfl, id⟩)
    (fun x hmem _ hlive hx hrung => ⟨hx.1, ?_⟩) (fun _ _ _ => rfl)
    (fun q' hq' hne => absurd hq' hne)
  have hX := ((hrec.ranked hs hr hk hnot).reported _ x hmem).1
  have hfull : ¬ (s'.rung (s.trialRungs r)).full = true := by
    rw [hrec.full_iff]
    intro hfull
    refine (h.exited x hX).mp (hleft hfull x (hrec.ids.mem_iff.mp hmem) fun hp => ?_) hlive
    have := (hs.promoted _ hk x hX).mpr hp
    omega
  simp [hx.2, hfull]

/-- The promoted trial trains on, and the others close if the rung is full. -/
theorem handled_live (hrec : Recorded s r metric s' (some q)) (hq : q ∉ s.earlyExitTrials)
    (length : Length) : ∃ ops s'',
      s'.closeLosers (s.trialRungs r) [newTrain q length, newValidate q] = .ok (ops, s'') ∧
        Handled X T s.config ops s'' := by
  have hs' := hrec.ranked hs hr hk hnot
  have hk' : s.trialRungs r + 1 < s'.rungs.length := by rwa [hrec.length]
  obtain ⟨hqX, hqr, -⟩ := hrec.promoted_spec hs hr hk hnot
  obtain ⟨ops, s'', hok, hc, hrungs, ht, he, hcreates, hasked, hcloses⟩ :=
    closeLosers_spec hs' hk' length (q := q)
  have hqp : q ∈ (s'.rung (s.trialRungs r)).promotedIDs :=
    hrec.promotedIDs.mem_iff.mpr (List.mem_cons_self ..)
  have hlive : (T q).exits = [] := by
    by_contra hne
    exact hq ((h.exited q hqX).mpr hne)
  have hnothing : ∀ x, x ≠ q → asked x ops = [] := fun x hx => by rw [hasked, if_neg hx]
  refine ⟨ops, s'', hok, hs'.congr hc hrungs ht, ?_, ⟨hcreates, fun x hx => ?_⟩, hc.trans hrec.config⟩
  · refine Attends.congr ?_ he hrungs ht
    refine h.record hs hr hk hnot hidle hrec (fun _ => rfl) (fun x => ⟨rfl, fun hcl => ?_⟩)
      (fun x hmem hp hx hidle' hrung => ?_) (fun x hp hx => ?_) (fun q' hq' _ => ?_)
    · simp [TrialState.relay, hcl]
    · have hX := (hs'.reported _ x hmem).1
      rw [hnothing x fun heq => hp (heq ▸ rfl)]
      refine ⟨by simp [TrialState.relay, hidle'.1], ?_⟩
      have hnp : x ∉ (s'.rung (s.trialRungs r)).promotedIDs := by
        rw [hrec.promotedIDs.mem_iff, List.mem_append, Option.mem_toList,
          ← hs.promoted _ hk x hX, not_or]
        exact ⟨hp, by omega⟩
      have hne : x ∉ s'.earlyExitTrials := by
        rw [hrec.exited]
        exact fun hin => (h.exited x hX).mp hin hx
      simp only [TrialState.relay, hidle'.2, Bool.false_or, hcloses]
      exact ⟨fun hcl => hcl.1, fun hf => ⟨hf, hmem, hnp, hne⟩⟩
    · have hclose : closes x ops = false := by
        rw [Bool.eq_false_iff, Ne, hcloses]
        rintro ⟨-, hmem, hnp, -⟩
        have hX := hs'.reported _ x hmem
        have hle := (hs'.promoted _ hk' x hX.1).not.mpr hnp
        rw [hrec.trialRungs] at hle hX
        dsimp only at hle hX
        rw [if_neg hp] at hle hX
        exact hx (by omega) hmem
      rw [hnothing x fun heq => hp (heq ▸ rfl), hclose, TrialState.relay_nothing]
    · cases hq'
      refine ⟨hlive, fun hidle' => ?_⟩
      have hclose : closes q ops = false := by
        rw [Bool.eq_false_iff, Ne, hcloses]
        exact fun hcl => hcl.2.2.1 hqp
      have hopen : (T q).closed = false := by
        rw [Bool.eq_false_iff]
        intro hcl
        rcases h.closed q hqX hcl with hex | hex
        · exact hex hlive
        · rw [hidle'.2] at hex
          cases hex
      refine ⟨by simp [TrialState.relay, hidle'.2, hclose], .inr ⟨length, ?_⟩⟩
      rw [hasked, if_pos rfl]
      simp [TrialState.relay, TrialState.gone, hopen, hlive, hidle'.1]
  · rcases hx with hx | hx
    · rw [hasked] at hx
      split at hx
      · rename_i heq
        exact heq ▸ hqX
      · exact absurd rfl hx
    · exact (hs'.reported _ x ((hcloses x).mp hx).2.1).1

end Below

/-- A result that strands no trial is handled, whatever it promotes: an exited trial climbs until a
    rung promotes none, promotes one that has not exited, or is the top one. -/
theorem promoteWithin_spec (rungsLeft : ℕ) : ∀ {s : SyncHalvingSearch ι} {r : ι} {metric : ℚ},
    Ranked X s → Attends X s T (some r) → r ∈ X → r ∉ (s.rung (s.trialRungs r)).ids →
    ((T r).exits = [] → Idle (T r)) → s.rungs.length ≤ s.trialRungs r + rungsLeft + 1 →
    strands rungsLeft s (s.trialRungs r) r metric = false →
    ∃ ops s', promoteWithin rungsLeft s r metric = .ok (ops, s') ∧ Handled X T s.config ops s' := by
  induction rungsLeft with
  | zero =>
    intro s r metric hs h hr hnot hidle hleft hstrands
    have htop : s.trialRungs r + 1 = s.rungs.length := by
      have := hs.below r hr
      omega
    refine ⟨_, _, ?_, handled_top hs h hr htop hidle⟩
    rw [promoteWithin, if_pos ((hs.shaped.isTop_iff _).mpr htop)]
  | succ rungsLeft ih =>
    intro s r metric hs h hr hnot hidle hleft hstrands
    by_cases htop : s.trialRungs r + 1 = s.rungs.length
    · refine ⟨_, _, ?_, handled_top hs h hr htop hidle⟩
      rw [promoteWithin, if_pos ((hs.shaped.isTop_iff _).mpr htop)]
    have hbelow := hs.below r hr
    have hk : s.trialRungs r + 1 < s.rungs.length := by omega
    have hnottop : s.isTop (s.trialRungs r) = false := by
      rw [Bool.eq_false_iff, Ne, hs.shaped.isTop_iff]
      exact htop
    have hrec := recorded_recordMetric metric hbelow (hs.shaped.next _ hk).2.2
    rw [promoteWithin, hnottop]
    dsimp only
    rw [if_neg Bool.false_ne_true]
    split
    · rename_i hnone
      rw [hnone] at hrec
      exact ⟨_, _, rfl, handled_none hs h hr hk hnot hidle hrec⟩
    · rename_i q hsome
      rw [hsome] at hrec
      by_cases hq : q ∈ s.earlyExitTrials
      · rw [if_neg (not_not.mpr hq)]
        rw [strands, ← hrec.next] at hstrands
        simp only [hnottop, hq, Bool.not_false, decide_true, Bool.true_and,
          Bool.or_eq_false_iff] at hstrands
        obtain ⟨hhere, habove⟩ := hstrands
        obtain ⟨hqX, hqr, -⟩ := hrec.promoted_spec hs hr hk hnot
        have hqk : (s.recordMetric r metric).1.trialRungs q = s.trialRungs r + 1 := by
          rw [hrec.trialRungs]
          exact if_pos rfl
        have hs' := hrec.ranked hs hr hk hnot
        have hexited : (T q).exits ≠ [] := (h.exited q hqX).mp hq
        have hclimb := h.climb hs hr hk hnot hidle hrec fun hfull x hx hp => by
          by_contra hne
          rw [decide_eq_true hfull, Bool.true_and, List.any_eq_false] at hhere
          exact hhere x hx (decide_eq_true ⟨hne, hp⟩)
        have hqnot : q ∉ ((s.recordMetric r metric).1.rung
            ((s.recordMetric r metric).1.trialRungs q)).ids := by
          rw [hqk, hrec.other _ (by omega)]
          intro hmem
          have := (hs.reported _ q hmem).2
          omega
        obtain ⟨ops, s', hok, hhandled⟩ := ih hs' hclimb hqX hqnot
          (fun hlive => absurd hlive hexited) (by rw [hqk, hrec.length]; omega) (by
            rw [hqk, strands_congr hrec.config hrec.exited rungsLeft fun j hj => hrec.other j (by omega)]
            exact habove)
        rw [hrec.config] at hhandled
        exact ⟨ops, s', hok, hhandled⟩
      · rw [if_pos hq]
        exact handled_live hs h hr hk hnot hidle hrec hq _

end Handle

end SyncHalvingSearch

end Determined.Searcher
