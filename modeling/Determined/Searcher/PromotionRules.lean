import Determined.Schemes.Ranking
import Determined.Searcher.AsyncHalvingRungs
import Determined.Searcher.SyncHalvingRungs

/-! What the promotion rules of the halving searches promote over a whole sequence of results.

    The asynchronous rule keeps the front of the rung promoted: a new result either belongs to the
    front and is promoted itself, or it lets the front grow by at most one place, which is the place
    of the one trial that is then promoted. The synchronous rule promotes the trials that no result
    to come can push out of the best ones, one with each result from the first that decides any. -/

namespace Determined.Searcher
open Determined.Model Determined.Schemes

variable {ι : Type}

/-! ### The asynchronous rule -/

/-- Feed results to a rung one after the other; what each insertion returns, in order. -/
def Rung.feedAsync (divisor : ℚ) (rung : Rung ι) : List (ι × ℚ) → Rung ι × List (Option ι)
  | [] => (rung, [])
  | (r, metric) :: rest =>
    let promotions := rung.promotionsAsync r metric divisor
    let fed := Rung.feedAsync divisor promotions.1 rest
    (fed.1, promotions.2 :: fed.2)

theorem numPromote_succ {divisor : ℚ} (h : 1 < divisor) (n : ℕ) :
    numPromote divisor n ≤ numPromote divisor (n + 1) ∧
      numPromote divisor (n + 1) ≤ numPromote divisor n + 1 := by
  have hpos : (0 : ℚ) < divisor := by linarith
  refine ⟨Nat.floor_mono (by gcongr; simp), ?_⟩
  have hdiv : ((n + 1 : ℕ) : ℚ) / divisor ≤ n / divisor + 1 := by
    rw [← sub_nonneg]
    have : (n : ℚ) / divisor + 1 - ((n + 1 : ℕ) : ℚ) / divisor = (divisor - 1) / divisor := by
      push_cast
      field_simp
      ring
    rw [this]
    exact div_nonneg (by linarith) hpos.le
  calc numPromote divisor (n + 1) ≤ ⌊(n : ℚ) / divisor + 1⌋₊ := Nat.floor_mono hdiv
    _ = numPromote divisor n + 1 := Nat.floor_add_one (by positivity)

theorem numPromote_le {divisor : ℚ} (h : 1 < divisor) (n : ℕ) : numPromote divisor n ≤ n := by
  induction n with
  | zero => simp [numPromote]
  | succ n ih => exact (numPromote_succ h n).2.trans (Nat.succ_le_succ ih)

/-- The metrics after an insertion are those before, with the new one at its place. -/
theorem metrics_promotionsAsync (rung : Rung ι) (r : ι) (metric divisor : ℚ) :
    (rung.promotionsAsync r metric divisor).1.metrics.map (·.metric) =
      (rung.metrics.map (·.metric)).insertIdx (rung.insertIndex metric) metric := by
  have hset : ∀ {l : List (TrialMetric ι)} {i : ℕ} {t : TrialMetric ι}, l[i]? = some t →
      (l.set i { t with promoted := true }).map (·.metric) = l.map (·.metric) := by
    intro l i t ht
    obtain ⟨hi, rfl⟩ := List.getElem?_eq_some_iff.mp ht
    exact List.ext_getElem (by simp) (by grind)
  unfold Rung.promotionsAsync
  dsimp only
  split
  · exact List.map_insertIdx ..
  · split
    · rename_i t ht
      split
      · exact (hset ht).trans (List.map_insertIdx ..)
      · exact List.map_insertIdx ..
    · exact List.map_insertIdx ..

theorem sorted_iff (rung : Rung ι) : rung.Sorted ↔ (rung.metrics.map (·.metric)).Pairwise (· ≤ ·) :=
  List.pairwise_map.symm

theorem sorted_promotionsAsync {rung : Rung ι} (h : rung.Sorted) (r : ι) (metric divisor : ℚ) :
    (rung.promotionsAsync r metric divisor).1.Sorted := by
  obtain ⟨hbefore, hafter⟩ := Rung.insertIndex_spec h metric
  rw [sorted_iff, metrics_promotionsAsync]
  refine pairwise_insertIdx ((sorted_iff rung).mp h) ?_ (fun x hx => ?_) fun x hx => ?_
  · simpa using rung.insertIndex_le metric
  · rw [← List.map_take] at hx
    obtain ⟨tm, htm, rfl⟩ := List.mem_map.mp hx
    exact hbefore tm htm
  · rw [← List.map_drop] at hx
    obtain ⟨tm, htm, rfl⟩ := List.mem_map.mp hx
    exact (hafter tm htm).le

/-- The trials at the front of the rung, as many as should have been promoted, have been. -/
def Rung.FrontPromoted (divisor : ℚ) (rung : Rung ι) : Prop :=
  ∀ tm ∈ rung.metrics.take (numPromote divisor rung.metrics.length), tm.promoted = true

/-- One promotion with each insertion is enough to keep the front promoted. -/
theorem frontPromoted_promotionsAsync {rung : Rung ι} {divisor : ℚ} (hd : 1 < divisor)
    (h : rung.FrontPromoted divisor) (r : ι) (metric : ℚ) :
    (rung.promotionsAsync r metric divisor).1.FrontPromoted divisor := by
  obtain ⟨hmono, hstep⟩ := numPromote_succ hd rung.metrics.length
  have hle := numPromote_le hd rung.metrics.length
  have hi := rung.insertIndex_le metric
  have hlen : ∀ promoted, (rung.metrics.insertIdx (rung.insertIndex metric)
      ⟨r, metric, promoted⟩).length = rung.metrics.length + 1 := fun _ =>
    List.length_insertIdx_of_le_length hi _
  unfold Rung.FrontPromoted at h ⊢
  unfold Rung.promotionsAsync
  generalize rung.insertIndex metric = i at *
  generalize hold : numPromote divisor rung.metrics.length = old at *
  generalize hnew : numPromote divisor (rung.metrics.length + 1) = new at *
  dsimp only
  split
  · -- the new trial belongs to the front
    rename_i hnow
    rw [decide_eq_true_eq] at hnow
    intro tm htm
    dsimp only at htm
    rw [hlen, hnew] at htm
    obtain ⟨q, hq, hperm⟩ := take_insertIdx_perm (l := rung.metrics) (c := new - 1)
      (x := ⟨r, metric, decide (i < new)⟩) hi (by omega)
    rw [if_pos (by omega)] at hq
    obtain rfl := Option.some.inj hq
    rw [show new - 1 + 1 = new by omega] at hperm
    rcases List.mem_cons.mp (hperm.mem_iff.mp htm) with rfl | hmem
    · exact decide_eq_true hnow
    · exact h tm (List.take_subset_take_left _ (by omega) hmem)
  · rename_i hnow
    rw [decide_eq_true_eq, not_lt] at hnow
    -- only the trial at the place the front grew by can lack its promotion
    have hfront : ∀ j < new, ∀ tm,
        (rung.metrics.insertIdx i ⟨r, metric, decide (i < new)⟩)[j]? = some tm →
          tm.promoted = true ∨ new ≠ old ∧ j = old := by
      intro j hj tm htm
      rw [List.getElem?_insertIdx_of_lt (by omega)] at htm
      by_cases hjold : j = old
      · exact .inr ⟨by omega, hjold⟩
      · obtain ⟨hjl, rfl⟩ := List.getElem?_eq_some_iff.mp htm
        exact .inl (h _ (List.mem_take_iff_getElem.mpr ⟨j, by omega, rfl⟩))
    have hmem : ∀ {l : List (TrialMetric ι)} {tm}, tm ∈ l.take new → ∃ j < new, l[j]? = some tm := by
      intro l tm htm
      obtain ⟨j, hj, rfl⟩ := List.mem_take_iff_getElem.mp htm
      exact ⟨j, by omega, List.getElem?_eq_getElem (by omega)⟩
    split
    · rename_i t ht
      split
      · intro tm htm
        dsimp only at htm
        rw [List.length_set, hlen, hnew] at htm
        obtain ⟨j, hj, hget⟩ := hmem htm
        rw [List.getElem?_set] at hget
        split at hget
        · split at hget
          · exact Option.some.inj hget ▸ rfl
          · cases hget
        · rcases hfront j hj tm hget with hp | ⟨-, heq⟩
          · exact hp
          · omega
      · rename_i hcond
        intro tm htm
        dsimp only at htm
        rw [hlen, hnew] at htm
        obtain ⟨j, hj, hget⟩ := hmem htm
        rcases hfront j hj tm hget with hp | ⟨hne, rfl⟩
        · exact hp
        · rw [ht] at hget
          obtain rfl := Option.some.inj hget
          by_contra hp
          exact hcond ⟨hne, by simpa using hp⟩
    · rename_i hnone
      rw [List.getElem?_eq_none_iff, hlen] at hnone
      omega

/-- What a sequence of insertions keeps, given the trials promoted so far. -/
structure Rung.FedAsync (divisor : ℚ) (rung : Rung ι) (promoted : List ι) : Prop where
  sorted : rung.Sorted
  front : rung.FrontPromoted divisor
  distinct : rung.ids.Nodup
  once : promoted.Nodup
  marked : ∀ tm ∈ rung.metrics, tm.promoted = true ↔ tm.requestID ∈ promoted
  known : ∀ r ∈ promoted, r ∈ rung.ids

theorem Rung.FedAsync.insert {divisor : ℚ} (hd : 1 < divisor) {rung : Rung ι} {promoted : List ι}
    (h : rung.FedAsync divisor promoted) {r : ι} (hr : r ∉ rung.ids) (metric : ℚ) :
    (rung.promotionsAsync r metric divisor).1.FedAsync divisor
      (promoted ++ (rung.promotionsAsync r metric divisor).2.toList) := by
  have hsorted := sorted_promotionsAsync h.sorted r metric divisor
  have hfront := frontPromoted_promotionsAsync hd h.front r metric
  obtain ⟨l', heq, hp⟩ := promotionsAsync_spec rung r metric divisor
  generalize rung.promotionsAsync r metric divisor = out at *
  obtain ⟨rung', q⟩ := out
  obtain rfl : rung' = { rung with metrics := l' } := heq
  have hids : (Rung.ids { rung with metrics := l' }).Perm (r :: rung.ids) := hp.ids
  -- whoever is promoted now was not promoted before
  have hfresh : ∀ x, q = some x → x ∉ promoted := by
    intro x hx hmem
    rcases hp.chosen x hx with rfl | ⟨tm, htm, rfl, hnot⟩
    · exact hr (h.known x hmem)
    · rw [(h.marked tm htm).mpr hmem] at hnot
      cases hnot
  refine ⟨hsorted, hfront, ?_, ?_, ?_, ?_⟩
  · exact hids.nodup_iff.mpr (List.nodup_cons.mpr ⟨hr, h.distinct⟩)
  · refine List.nodup_append.mpr ⟨h.once, by cases q <;> simp, ?_⟩
    rintro a ha b hb rfl
    rw [Option.mem_toList] at hb
    exact hfresh a hb ha
  · intro tm htm
    rw [List.mem_append, Option.mem_toList]
    rcases hp.entry h.distinct hr tm htm with ⟨rfl, hiff⟩ | ⟨tm', htm', hid, hiff⟩
    · rw [hiff]
      exact ⟨.inr, fun hor => hor.resolve_left fun hmem => hr (h.known _ hmem)⟩
    · rw [hiff, h.marked tm' htm', hid]
  · intro x hx
    rw [hids.mem_iff, List.mem_cons]
    rcases List.mem_append.mp hx with hx | hx
    · exact .inr (h.known x hx)
    · rw [Option.mem_toList] at hx
      rcases hp.chosen x hx with rfl | ⟨tm, htm, rfl, -⟩
      · exact .inl rfl
      · exact .inr (List.mem_map_of_mem htm)

theorem Rung.FedAsync.feed {divisor : ℚ} (hd : 1 < divisor) {results : List (ι × ℚ)} :
    ∀ {rung : Rung ι} {promoted : List ι}, rung.FedAsync divisor promoted →
      (rung.ids ++ results.map (·.1)).Nodup →
      (rung.feedAsync divisor results).1.FedAsync divisor
          (promoted ++ (rung.feedAsync divisor results).2.reduceOption) ∧
        (rung.feedAsync divisor results).1.ids.Perm (rung.ids ++ results.map (·.1)) ∧
        (rung.feedAsync divisor results).2.length = results.length := by
  induction results with
  | nil =>
    intro rung promoted h _
    simpa [Rung.feedAsync, List.reduceOption] using h
  | cons result results ih =>
    intro rung promoted h hnodup
    obtain ⟨r, metric⟩ := result
    have hperm : (rung.promotionsAsync r metric divisor).1.ids.Perm (r :: rung.ids) := by
      obtain ⟨l', heq, hp⟩ := promotionsAsync_spec rung r metric divisor
      rw [heq]
      exact hp.ids
    have hall : ((rung.promotionsAsync r metric divisor).1.ids ++ results.map (·.1)).Perm
        (rung.ids ++ ((r, metric) :: results).map (·.1)) := by
      rw [List.map_cons]
      exact (hperm.append_right _).trans List.perm_middle.symm
    have hr : r ∉ rung.ids := fun hmem =>
      (List.nodup_append.mp hnodup).2.2 r hmem r (by simp) rfl
    obtain ⟨hfed, hids, hlen⟩ := ih (h.insert hd hr metric) (hall.nodup_iff.mpr hnodup)
    refine ⟨?_, hids.trans hall, by simp [Rung.feedAsync, hlen]⟩
    have hreturned : (rung.feedAsync divisor ((r, metric) :: results)).2.reduceOption =
        (rung.promotionsAsync r metric divisor).2.toList ++
          (Rung.feedAsync divisor (rung.promotionsAsync r metric divisor).1 results).2.reduceOption := by
      rw [Rung.feedAsync]
      cases (rung.promotionsAsync r metric divisor).2 <;> simp
    rw [hreturned, ← List.append_assoc]
    exact hfed

/-- CORRECT: fed any results of different trials, a rung stays sorted, promotes a trial at most once
    and at most one with each insertion, and has always promoted all trials at its front, one for
    each full share of `divisor` trials. -/
theorem promotionsAsync_keeps_front {rung : Rung ι} (hempty : rung.metrics = []) {divisor : ℚ}
    (hd : 1 < divisor) {results : List (ι × ℚ)} (hdistinct : (results.map (·.1)).Nodup) :
    let fed := rung.feedAsync divisor results
    fed.1.Sorted ∧ fed.1.ids.Perm (results.map (·.1)) ∧ fed.2.length = results.length ∧
      fed.2.reduceOption.Nodup ∧
      ∀ r ∈ fed.1.ids.take (numPromote divisor results.length), r ∈ fed.2.reduceOption := by
  have hids : rung.ids = [] := by simp [Rung.ids, hempty]
  have hstart : rung.FedAsync divisor [] := by
    refine ⟨?_, ?_, ?_, List.nodup_nil, ?_, ?_⟩ <;>
      simp [Rung.Sorted, Rung.FrontPromoted, Rung.ids, hempty]
  obtain ⟨hfed, hperm, hlen⟩ := hstart.feed hd (by simpa [hids] using hdistinct)
  rw [hids, List.nil_append] at hperm
  rw [List.nil_append] at hfed
  refine ⟨hfed.sorted, hperm, hlen, hfed.once, fun r hr => ?_⟩
  have hcount : (rung.feedAsync divisor results).1.metrics.length = results.length := by
    simpa using hperm.length_eq
  rw [Rung.ids, ← List.map_take, ← hcount] at hr
  obtain ⟨tm, htm, rfl⟩ := List.mem_map.mp hr
  exact (hfed.marked tm (List.mem_of_mem_take htm)).mp (hfed.front tm htm)

/-- A rung no trial has reported to. -/
def emptyRung (startTrials promoteTrials : ℤ) : Rung ℕ :=
  ⟨⟨.batches, 1⟩, [], startTrials, promoteTrials, 0⟩

theorem promotionsAsync_keeps_front_two :
    let fed := (emptyRung 0 0).feedAsync 2 [(0, 3), (1, 1)]
    fed.1.Sorted ∧ fed.1.ids.Perm [0, 1] ∧ fed.2.length = 2 ∧ fed.2.reduceOption.Nodup ∧
      ∀ r ∈ fed.1.ids.take (numPromote 2 2), r ∈ fed.2.reduceOption :=
  promotionsAsync_keeps_front rfl (by norm_num) (by decide)

/-! ### The synchronous rule -/

/-- Feed results to a rung one after the other; what each insertion returns, in order. -/
def Rung.feedSync (rung : Rung ι) : List (ι × ℚ) → Rung ι × List (Option ι)
  | [] => (rung, [])
  | (r, metric) :: rest =>
    let promotions := rung.promotionsSync r metric
    let fed := Rung.feedSync promotions.1 rest
    (fed.1, promotions.2 :: fed.2)

/-- Result `j` beats result `i`: it is better, or as good and was there before. -/
def Ahead (metrics : List ℚ) (j i : ℕ) : Prop :=
  metrics.getD j 0 < metrics.getD i 0 ∨ metrics.getD j 0 = metrics.getD i 0 ∧ j < i

instance (metrics : List ℚ) : DecidableRel (Ahead metrics) := fun _ _ =>
  inferInstanceAs (Decidable (_ ∨ _))

/-- How many results beat result `i`. -/
def standing (metrics : List ℚ) (i : ℕ) : ℕ :=
  (List.range metrics.length).countP fun j => Ahead metrics j i

theorem ahead_irrefl (metrics : List ℚ) (i : ℕ) : ¬Ahead metrics i i := by
  rintro (h | ⟨-, h⟩)
  · exact lt_irrefl _ h
  · exact lt_irrefl _ h

theorem ahead_asymm (metrics : List ℚ) (i j : ℕ) (h : Ahead metrics i j) : ¬Ahead metrics j i := by
  rintro (h' | ⟨h', hlt'⟩) <;> rcases h with h | ⟨h, hlt⟩
  · exact lt_asymm h h'
  · exact h'.ne h.symm
  · exact h.ne h'.symm
  · exact lt_asymm hlt hlt'

theorem ahead_append {metrics : List ℚ} (more : List ℚ) {i j : ℕ} (hi : i < metrics.length)
    (hj : j < metrics.length) : Ahead (metrics ++ more) j i ↔ Ahead metrics j i := by
  simp only [Ahead, List.getD_eq_getElem?_getD, List.getElem?_append_left hi,
    List.getElem?_append_left hj]

/-- Results that are all better than one push it back by their number. -/
theorem standing_append_better {metrics : List ℚ} {i : ℕ} (hi : i < metrics.length) {best : ℚ}
    (hbest : best < metrics.getD i 0) (n : ℕ) :
    standing (metrics ++ List.replicate n best) i = standing metrics i + n := by
  unfold standing
  rw [List.length_append, List.length_replicate, List.range_add, List.countP_append]
  congr 1
  · refine List.countP_congr fun j hj => ?_
    simp only [decide_eq_true_eq]
    exact ahead_append _ hi (List.mem_range.mp hj)
  · rw [List.countP_eq_length.mpr, List.length_map, List.length_range]
    intro j hj
    obtain ⟨k, hk, rfl⟩ := List.mem_map.mp hj
    rw [decide_eq_true_eq]
    refine .inl ?_
    rw [List.getD_eq_getElem?_getD, List.getElem?_append_right (Nat.le_add_right ..),
      Nat.add_sub_cancel_left, List.getElem?_replicate_of_lt (List.mem_range.mp hk),
      List.getD_eq_getElem?_getD, List.getElem?_append_left hi, ← List.getD_eq_getElem?_getD]
    exact hbest

/-- The metrics of a rung are the results, in the order of their standing. -/
structure Rung.Ranks (rung : Rung ι) (results : List (ι × ℚ)) (order : List ℕ) : Prop where
  sorted : rung.Sorted
  perm : order.Perm (List.range results.length)
  ahead : order.Pairwise (Ahead (results.map (·.2)))
  entries : rung.metrics.map (fun tm => some (tm.requestID, tm.metric)) = order.map (results[·]?)

/-- The trial at a place of the rung is the one with that many results ahead of it. -/
theorem Rung.Ranks.mem_take {rung : Rung ι} {results : List (ι × ℚ)} {order : List ℕ}
    (h : rung.Ranks results order) (hdistinct : (results.map (·.1)).Nodup) {i : ℕ} {r : ι} {metric : ℚ}
    (hr : results[i]? = some (r, metric)) (c : ℕ) :
    r ∈ rung.ids.take c ↔ standing (results.map (·.2)) i < c := by
  have hstanding : ∀ p (hp : p < order.length), standing (results.map (·.2)) order[p] = p := by
    intro p hp
    rw [standing, List.length_map, ← h.perm.countP_eq]
    exact countP_ahead (ahead_irrefl _) (ahead_asymm _) h.ahead hp
  have hat : ∀ p : ℕ, (rung.ids[p]?).map some = (order[p]?).map fun j => (results[j]?).map Prod.fst := by
    intro p
    have hentry := congrArg (fun l => (l[p]?).map (Option.map Prod.fst)) h.entries
    simpa [Rung.ids, Function.comp_def] using hentry
  have hri : (results.map (·.1))[i]? = some r := by simp [hr]
  have hi : i < (results.map (·.1)).length := (List.getElem?_eq_some_iff.mp hri).1
  constructor
  · intro hmem
    obtain ⟨p, hp, hpr⟩ := List.mem_take_iff_getElem.mp hmem
    have hplace := hat p
    rw [List.getElem?_eq_getElem (by omega), hpr, Option.map_some] at hplace
    obtain ⟨j, hj, hjr⟩ := Option.map_eq_some_iff.mp hplace.symm
    obtain rfl : i = j :=
      (List.getElem?_inj hi hdistinct).mp (by rw [hri, List.getElem?_map, hjr])
    obtain ⟨hpo, rfl⟩ := List.getElem?_eq_some_iff.mp hj
    rw [hstanding p hpo]
    omega
  · intro hlt
    have hmem : i ∈ order := h.perm.mem_iff.mpr (List.mem_range.mpr (by simpa using hi))
    obtain ⟨p, hp, rfl⟩ := List.mem_iff_getElem.mp hmem
    rw [hstanding p hp] at hlt
    have hplace := hat p
    rw [List.getElem?_eq_getElem hp, Option.map_some, hr, Option.map_some] at hplace
    obtain ⟨x, hx, hxr⟩ := Option.map_eq_some_iff.mp hplace
    obtain rfl := Option.some.inj hxr
    obtain ⟨hpi, rfl⟩ := List.getElem?_eq_some_iff.mp hx
    exact List.mem_take_iff_getElem.mpr ⟨p, by omega, rfl⟩

theorem getD_metrics {results : List (ι × ℚ)} {j : ℕ} {r : ι} {metric : ℚ}
    (h : results[j]? = some (r, metric)) : (results.map (·.2)).getD j 0 = metric := by
  simp [List.getD_eq_getElem?_getD, h]

theorem Rung.Ranks.insert {rung : Rung ι} {results : List (ι × ℚ)} {order : List ℕ}
    (h : rung.Ranks results order) (r : ι) (metric : ℚ) :
    (rung.promotionsSync r metric).1.Ranks (results ++ [(r, metric)])
      (order.insertIdx (rung.insertIndex metric) results.length) := by
  obtain ⟨hbefore, hafter⟩ := Rung.insertIndex_spec h.sorted metric
  have hi := rung.insertIndex_le metric
  have hlen : order.length = rung.metrics.length := by simpa using (congrArg List.length h.entries).symm
  have hnew : (results ++ [(r, metric)])[results.length]? = some (r, metric) := by simp
  have hold : ∀ j < results.length, (results ++ [(r, metric)])[j]? = results[j]? := fun j hj =>
    List.getElem?_append_left hj
  -- a result's number and its entry stand at the same place
  have hentry : ∀ {js : List ℕ} {tms : List (TrialMetric ι)},
      tms.map (fun tm => some (tm.requestID, tm.metric)) = js.map (results[·]?) →
        ∀ j ∈ js, ∃ tm ∈ tms, results[j]? = some (tm.requestID, tm.metric) := by
    intro js tms heq j hj
    have hmem : results[j]? ∈ js.map (results[·]?) := List.mem_map_of_mem hj
    rw [← heq] at hmem
    obtain ⟨tm, htm, hres⟩ := List.mem_map.mp hmem
    exact ⟨tm, htm, hres.symm⟩
  refine ⟨?_, ?_, ?_, ?_⟩
  · exact pairwise_insertIdx h.sorted hi hbefore fun tm htm => (hafter tm htm).le
  · rw [List.length_append, List.length_singleton, List.range_succ]
    exact (List.perm_insertIdx _ _ (by omega)).trans
      ((h.perm.cons _).trans (List.perm_append_singleton _ _).symm)
  · have hlt : ∀ j ∈ order, j < (results.map (·.2)).length := fun j hj => by
      simpa using h.perm.mem_iff.mp hj
    rw [List.map_append]
    refine pairwise_insertIdx ?_ (by omega) (fun j hj => ?_) fun j hj => ?_
    · exact h.ahead.imp_of_mem fun hj hk hjk => (ahead_append _ (hlt _ hk) (hlt _ hj)).mpr hjk
    · obtain ⟨tm, htm, hres⟩ := hentry (by rw [List.map_take, h.entries, List.map_take]) j hj
      have hjlt := (List.getElem?_eq_some_iff.mp hres).1
      have hx := getD_metrics ((hold j hjlt).trans hres)
      have hy := getD_metrics hnew
      rw [← List.map_append, Ahead, hx, hy]
      rcases (hbefore tm htm).lt_or_eq with hless | heq
      · exact .inl hless
      · exact .inr ⟨heq, hjlt⟩
    · obtain ⟨tm, htm, hres⟩ := hentry (by rw [List.map_drop, h.entries, List.map_drop]) j hj
      have hjlt := (List.getElem?_eq_some_iff.mp hres).1
      have hx := getD_metrics ((hold j hjlt).trans hres)
      have hy := getD_metrics hnew
      rw [← List.map_append, Ahead, hx, hy]
      exact .inl (hafter tm htm)
  · rw [Rung.promotionsSync, List.map_insertIdx, List.map_insertIdx, h.entries, hnew]
    congr 1
    refine List.map_congr_left fun j hj => (hold j ?_).symm
    simpa using h.perm.mem_iff.mp hj

/-- What feeding results to a rung does to it, and what it returns. -/
theorem Rung.feedSync_spec {results : List (ι × ℚ)} : ∀ {rung : Rung ι} {seen : List (ι × ℚ)}
    {order : List ℕ}, rung.promoteTrials ≤ rung.startTrials → rung.Ranks seen order →
      (∃ order', (rung.feedSync results).1.Ranks (seen ++ results) order') ∧
        (rung.feedSync results).1.startTrials = rung.startTrials ∧
        (rung.feedSync results).1.promoteTrials = rung.promoteTrials ∧
        (rung.feedSync results).1.ids.Perm (rung.ids ++ results.map (·.1)) ∧
        (rung.feedSync results).1.promotedIDs.Perm
          (rung.promotedIDs ++ (rung.feedSync results).2.reduceOption) := by
  induction results with
  | nil =>
    intro rung seen order _ h
    exact ⟨⟨order, by simpa [Rung.feedSync] using h⟩, rfl, rfl, by simp [Rung.feedSync],
      by simp [Rung.feedSync, List.reduceOption]⟩
  | cons result results ih =>
    intro rung seen order hp h
    obtain ⟨r, metric⟩ := result
    obtain ⟨metrics, heq, hids, hnext, hpromoted⟩ :=
      Rung.promotionsSync_spec (r := r) hp
    have hinsert := h.insert r metric
    have hreturned : (rung.feedSync ((r, metric) :: results)).2.reduceOption =
        (rung.promotionsSync r metric).2.toList ++
          (Rung.feedSync (rung.promotionsSync r metric).1 results).2.reduceOption := by
      rw [Rung.feedSync]
      cases (rung.promotionsSync r metric).2 <;> simp
    have hstart : (rung.promotionsSync r metric).1.startTrials = rung.startTrials := by rw [heq]
    have hprom : (rung.promotionsSync r metric).1.promoteTrials = rung.promoteTrials := by rw [heq]
    obtain ⟨⟨order', hranks⟩, hs, hpr, hperm, hret⟩ := ih (by rw [hstart, hprom]; exact hp) hinsert
    refine ⟨⟨order', ?_⟩, hs.trans hstart, hpr.trans hprom, ?_, ?_⟩
    · simpa [Rung.feedSync] using hranks
    · exact (hperm.trans (hids.append_right _)).trans List.perm_middle.symm
    · rw [hreturned, hnext]
      refine hret.trans ((hpromoted.append_right _).trans ?_)
      rw [← List.append_assoc]
      exact List.Perm.append_right _ List.perm_append_comm

/-- What the first insertions return depends on their results only. -/
theorem Rung.feedSync_take (results : List (ι × ℚ)) : ∀ (rung : Rung ι) (n : ℕ),
    (rung.feedSync (results.take n)).2 = (rung.feedSync results).2.take n := by
  induction results with
  | nil => simp [Rung.feedSync]
  | cons result results ih =>
    intro rung n
    obtain ⟨r, metric⟩ := result
    cases n with
    | zero => simp [Rung.feedSync]
    | succ n => simp only [List.take_succ_cons, Rung.feedSync, ih]

theorem Rung.length_feedSync (results : List (ι × ℚ)) : ∀ rung : Rung ι,
    (rung.feedSync results).2.length = results.length := by
  induction results with
  | nil => exact fun _ => rfl
  | cons result results ih =>
    intro rung
    simp [Rung.feedSync, ih]

/-- After some results, the trials returned are those that so many results to come cannot displace. -/
theorem Rung.mem_returned {rung : Rung ι} (hempty : rung.metrics = [])
    (hp : rung.promoteTrials ≤ rung.startTrials) {results : List (ι × ℚ)}
    (hdistinct : (results.map (·.1)).Nodup) :
    (rung.feedSync results).2.reduceOption.Nodup ∧
      (∀ r ∈ (rung.feedSync results).2.reduceOption, r ∈ results.map (·.1)) ∧
      ∀ i r metric, results[i]? = some (r, metric) →
        (r ∈ (rung.feedSync results).2.reduceOption ↔
          (standing (results.map (·.2)) i : ℤ) + rung.startTrials <
            results.length + rung.promoteTrials) := by
  have hstart : rung.Ranks [] [] := by
    refine ⟨?_, ?_, ?_, ?_⟩ <;> simp [Rung.Sorted, hempty]
  have hids : rung.ids = [] := by simp [Rung.ids, hempty]
  obtain ⟨⟨order, hranks⟩, hs, hpr, hperm, hret⟩ := Rung.feedSync_spec hp hstart
  rw [hids, List.nil_append] at hperm
  have hnone : rung.promotedIDs = [] := by simp [Rung.promotedIDs, hids]
  rw [hnone, List.nil_append] at hret
  rw [List.nil_append] at hranks
  have hcount : (rung.feedSync results).1.metrics.length = results.length := by
    simpa using hperm.length_eq
  refine ⟨?_, fun r hr => ?_, fun i r metric hr => ?_⟩
  · exact hret.nodup_iff.mp ((hperm.nodup_iff.mpr hdistinct).sublist (List.take_sublist ..))
  · exact hperm.mem_iff.mp (List.mem_of_mem_take (hret.mem_iff.mpr hr))
  · rw [← hret.mem_iff, Rung.promotedIDs, hranks.mem_take hdistinct hr, Rung.numPromoted, hs, hpr,
      hcount]
    omega

/-- CORRECT: fed the results of all its trials, a rung returns the best `promoteTrials` of them, the
    earlier of two equal ones first, each once and at most one with each insertion; and it has
    returned a trial as soon as no metrics to come could keep it from being among them. -/
theorem promotionsSync_returns_best {rung : Rung ι} (hempty : rung.metrics = [])
    (hp : rung.promoteTrials ≤ rung.startTrials) {results : List (ι × ℚ)}
    (hlen : (results.length : ℤ) = rung.startTrials) (hdistinct : (results.map (·.1)).Nodup) :
    let returned := (rung.feedSync results).2
    let metrics := results.map (·.2)
    returned.length = results.length ∧ returned.reduceOption.Nodup ∧
      (∀ r, r ∈ returned.reduceOption ↔ ∃ i metric, results[i]? = some (r, metric) ∧
        (standing metrics i : ℤ) < rung.promoteTrials) ∧
      ∀ n ≤ results.length, ∀ i < n, ∀ r metric, results[i]? = some (r, metric) →
        (∀ more : List ℚ, n + more.length = results.length →
          (standing (metrics.take n ++ more) i : ℤ) < rung.promoteTrials) →
        r ∈ (returned.take n).reduceOption := by
  obtain ⟨honce, hknown, hall⟩ := Rung.mem_returned hempty hp hdistinct
  refine ⟨Rung.length_feedSync results rung, honce, fun r => ⟨fun hr => ?_, ?_⟩, ?_⟩
  · obtain ⟨⟨q, metric⟩, hmem, rfl⟩ := List.mem_map.mp (hknown r hr)
    obtain ⟨i, hi⟩ := List.getElem?_of_mem hmem
    have hlt := (hall i q metric hi).mp hr
    exact ⟨i, metric, hi, by omega⟩
  · rintro ⟨i, metric, hi, hlt⟩
    exact (hall i r metric hi).mpr (by omega)
  · intro n hn i hi r metric hr hsafe
    have hdist : ((results.take n).map (·.1)).Nodup := by
      rw [List.map_take]
      exact hdistinct.sublist (List.take_sublist ..)
    have hri : (results.take n)[i]? = some (r, metric) := by rw [List.getElem?_take_of_lt hi, hr]
    rw [← Rung.feedSync_take]
    refine ((Rung.mem_returned hempty hp hdist).2.2 i r metric hri).mpr ?_
    -- all results to come could be better than this one
    have hworst := hsafe (List.replicate (results.length - n) (metric - 1)) (by
      rw [List.length_replicate]
      omega)
    rw [← List.map_take, standing_append_better (by simpa using ⟨hi, (List.getElem?_eq_some_iff.mp hr).1⟩)
      (by rw [getD_metrics hri]; linarith)] at hworst
    rw [List.length_take, Nat.min_eq_left hn]
    push_cast at hworst ⊢
    omega

theorem promotionsSync_returns_best_two :
    let returned := ((emptyRung 2 1).feedSync [(0, 3), (1, 1)]).2
    returned.length = 2 ∧ returned.reduceOption.Nodup ∧
      (∀ r, r ∈ returned.reduceOption ↔ ∃ i metric, [(0, (3 : ℚ)), (1, 1)][i]? = some (r, metric) ∧
        (standing [3, 1] i : ℤ) < 1) ∧
      ∀ n ≤ 2, ∀ i < n, ∀ r metric, [(0, (3 : ℚ)), (1, 1)][i]? = some (r, metric) →
        (∀ more : List ℚ, n + more.length = 2 → (standing ([3, 1].take n ++ more) i : ℤ) < 1) →
        r ∈ (returned.take n).reduceOption :=
  promotionsSync_returns_best rfl (by decide) rfl (by decide)

end Determined.Searcher
