import Determined.Pytorch.Samplers

/-! Validation metrics of a distributed PyTorch trial (`determined/pytorch/_pytorch_trial.py`,
    `determined/pytorch/_reducer.py`, `determined/ipc.py`).

    Every process evaluates its shard of the validation batches and reduces the metrics of these;
    the chief gathers the results as the messages of the workers arrive and reduces them again. The
    messages arrive in any order, so every theorem is about all their orders. -/

namespace Determined.Pytorch

open Determined.Harness Determined.Schemes

variable {β : Type}

/-! ### Reducers -/

/-- A method for reducing evaluation metrics. -/
inductive Reducer where
  | AVG
  | SUM
  | MAX
  | MIN
  deriving DecidableEq

/-- Stack values that are not none at all. -/
def np.stack (arrays : List ℚ) : Except String (List ℚ) :=
  if arrays = [] then .error "need at least one array to stack" else .ok arrays

def np.average (a : List ℚ) (weights : Option (List ℤ)) : Except String ℚ :=
  match weights with
  | none => .ok (a.sum / a.length)
  | some weights =>
    if weights.sum = 0 then .error "Weights sum to zero, can't be normalized"
    else .ok ((List.zipWith (fun (x : ℚ) (w : ℤ) => x * w) a weights).sum / weights.sum)

def np.max (a : List ℚ) : Except String ℚ :=
  match a.max? with
  | some m => .ok m
  | none => .error "zero-size array to reduction operation maximum which has no identity"

def np.min (a : List ℚ) : Except String ℚ :=
  match a.min? with
  | some m => .ok m
  | none => .error "zero-size array to reduction operation minimum which has no identity"

def Reducer.reduce_metrics (reducer : Reducer) (metrics : List ℚ) (num_batches : Option (List ℤ)) :
    Except String ℚ :=
  match reducer with
  | .AVG => do
    let _ ← (match num_batches with
      | some num_batches =>
        if num_batches = [] then .ok () else check.eq metrics.length num_batches.length none
      | none => .ok ())
    np.average metrics num_batches
  | .SUM => .ok metrics.sum
  | .MAX => np.max metrics
  | .MIN => np.min metrics

/-! ### Gathering the metrics -/

/-- Metrics by name. -/
abbrev Metrics := List (String × ℚ)

def Metrics.get (metrics : Metrics) (name : String) : Except String ℚ :=
  match metrics.lookup name with
  | some value => .ok value
  | none => .error s!"KeyError: {name}"

/-- What a worker sends to the chief. -/
structure MetricsInfo where
  metrics : Metrics
  num_batches : ℤ
  deriving DecidableEq

inductive Message where
  | serial (serial : ℕ) (payload : MetricsInfo)
  | exception
  deriving DecidableEq

/-- Receive one message and confirm that it is in-order. -/
def recv_one (recv_serial : ℕ) : Message → Except String (Option MetricsInfo)
  | .exception => .ok none
  | .serial serial payload => do
    check.eq serial recv_serial (some "Out-of-order client message detected")
    return some payload

/-- Gather a message from each connection; `polls` are the messages in the order in which they
    arrive, with a `none` for each time that nothing arrived for a second. With too few of them the
    chief is still waiting. -/
def gather_with_polling (num_connections recv_serial : ℕ) :
    List (Option MetricsInfo) → List (Option Message) →
      Except String (List (Option MetricsInfo) × Bool)
  | messages, [] =>
    if messages.length < num_connections then .error "waiting" else .ok (messages, false)
  | messages, poll :: polls =>
    if messages.length < num_connections then
      match poll with
      | none => gather_with_polling num_connections recv_serial messages polls
      | some message => do
        let payload ← recv_one recv_serial message
        if message = .exception then .ok (messages ++ [payload], true)
        else gather_with_polling num_connections recv_serial (messages ++ [payload]) polls
    else .ok (messages, false)

/-! ### The validation -/

/-- What the processes of a trial have in common when they validate. -/
structure Validation (β : Type) where
  /-- The batch sampler of `build_validation_data_loader()`. -/
  base : BaseSampler β
  evaluate_batch : β → Metrics
  /-- The names of the metrics, the same for all batches. -/
  keys : List String
  metrics_reducers : String → Reducer
  /-- `hvd.size()`. -/
  size : ℕ
  keys_evaluate_batch : ∀ batch, (evaluate_batch batch).map Prod.fst = keys

namespace Validation

variable (v : Validation β)

/-- The batches that the validation loader of a process yields in the `k`-th validation: see
    `batches_spec`. -/
def batches (k rank : ℕ) : List β := Generator.everyNth v.size rank 0 (v.base.batches k)

/-- The metrics that one process reports of its batches. -/
def reduce_batches (batches : List β) : Except String Metrics :=
  v.keys.mapM fun name => do
    let metrics ← np.stack (← batches.mapM fun batch => (v.evaluate_batch batch).get name)
    return (name, ← (v.metrics_reducers name).reduce_metrics metrics none)

/-- What the worker of this rank sends to the chief. -/
def worker_info (k rank : ℕ) : Except String MetricsInfo := do
  return ⟨← v.reduce_batches (v.batches k rank), v.base.shard v.size rank⟩

/-- The chief's metrics lists, and the number of batches per process. -/
def combine_metrics_across_processes (metrics : Metrics) (num_batches : ℤ) (recv_serial : ℕ)
    (polls : List (Option Message)) : Except String (List (String × List ℚ) × List ℤ) := do
  let (messages, _) ← gather_with_polling (v.size - 1) recv_serial [] polls
  let worker_metrics ← messages.mapM fun
    | some info => .ok info
    | none => .error "'NoneType' object has no attribute 'metrics'"
  let metrics_lists ← metrics.mapM fun (metric_name, value) => do
    let values ← worker_metrics.mapM fun worker_metric => worker_metric.metrics.get metric_name
    return (metric_name, value :: values)
  return (metrics_lists, num_batches :: worker_metrics.map (·.num_batches))

/-- What the chief reports. -/
def chief_metrics (k recv_serial : ℕ) (polls : List (Option Message)) : Except String Metrics := do
  let metrics ← v.reduce_batches (v.batches k 0)
  let (combined_metrics, batches_per_process) ←
    v.combine_metrics_across_processes metrics (v.base.shard v.size 0) recv_serial polls
  v.keys.mapM fun name => do
    match combined_metrics.lookup name with
    | some values =>
      return (name, ← (v.metrics_reducers name).reduce_metrics values (some batches_per_process))
    | none => .error s!"KeyError: {name}"

end Validation

/-! ### Reducing in two levels -/

/-- What a reducer makes of values that are not none at all. -/
def Reducer.reduced (reducer : Reducer) (values : List ℚ) : ℚ :=
  match reducer with
  | .AVG => values.sum / values.length
  | .SUM => values.sum
  | .MAX => values.max?.getD 0
  | .MIN => values.min?.getD 0

variable {reducer : Reducer} {values : List ℚ} {shards : List (List ℚ)}

theorem Reducer.reduce_metrics_eq (hne : values ≠ []) :
    reducer.reduce_metrics values none = .ok (reducer.reduced values) := by
  cases reducer with
  | AVG => rfl
  | SUM => rfl
  | MAX =>
    obtain ⟨m, hm⟩ := Option.isSome_iff_exists.mp (List.isSome_max?_iff.mpr hne)
    simp [Reducer.reduce_metrics, np.max, Reducer.reduced, hm]
  | MIN =>
    obtain ⟨m, hm⟩ := Option.isSome_iff_exists.mp (List.isSome_min?_iff.mpr hne)
    simp [Reducer.reduce_metrics, np.min, Reducer.reduced, hm]

theorem max?_getD_eq_iff (hne : values ≠ []) {m : ℚ} :
    values.max?.getD 0 = m ↔ m ∈ values ∧ ∀ x ∈ values, x ≤ m := by
  obtain ⟨m', hm'⟩ := Option.isSome_iff_exists.mp (List.isSome_max?_iff.mpr hne)
  rw [hm', Option.getD_some, ← List.max?_eq_some_iff, hm', Option.some_inj]

theorem min?_getD_eq_iff (hne : values ≠ []) {m : ℚ} :
    values.min?.getD 0 = m ↔ m ∈ values ∧ ∀ x ∈ values, m ≤ x := by
  obtain ⟨m', hm'⟩ := Option.isSome_iff_exists.mp (List.isSome_min?_iff.mpr hne)
  rw [hm', Option.getD_some, ← List.min?_eq_some_iff, hm', Option.some_inj]

/-- The order of the values is of no importance. -/
theorem Reducer.reduced_perm {values' : List ℚ} (h : values.Perm values') :
    reducer.reduced values = reducer.reduced values' := by
  rcases eq_or_ne values [] with rfl | hne
  · rw [List.nil_perm.mp h]
  · have hne' : values' ≠ [] := fun h' => hne (List.perm_nil.mp (h' ▸ h))
    cases reducer with
    | AVG => rw [Reducer.reduced, Reducer.reduced, h.sum_eq, h.length_eq]
    | SUM => exact h.sum_eq
    | MAX =>
      refine (max?_getD_eq_iff hne).mpr ?_
      simp only [h.mem_iff]
      exact (max?_getD_eq_iff hne').mp rfl
    | MIN =>
      refine (min?_getD_eq_iff hne).mpr ?_
      simp only [h.mem_iff]
      exact (min?_getD_eq_iff hne').mp rfl

/-- The averages, weighted by the number of values they stand for, add up to the sum. -/
theorem sum_averages (hne : ∀ shard ∈ shards, shard ≠ []) :
    (List.zipWith (fun (x : ℚ) (w : ℤ) => x * w) (shards.map fun l => l.sum / l.length)
      (shards.map fun l => (l.length : ℤ))).sum = shards.flatten.sum := by
  induction shards with
  | nil => rfl
  | cons shard shards ih =>
    have hlen : (shard.length : ℚ) ≠ 0 := by
      have := List.length_pos_iff.mpr (hne shard (List.mem_cons_self ..))
      exact_mod_cast this.ne'
    rw [List.map_cons, List.map_cons, List.zipWith_cons_cons, List.sum_cons, List.flatten_cons,
      List.sum_append, ih fun l hl => hne l (List.mem_cons_of_mem _ hl), Int.cast_natCast,
      div_mul_cancel₀ _ hlen]

theorem sum_lengths (shards : List (List ℚ)) :
    (shards.map fun l => (l.length : ℤ)).sum = shards.flatten.length := by
  induction shards with
  | nil => rfl
  | cons shard shards ih => simp [ih]

/-- The best of the bests of the shards is the best of all their values, whatever is better. -/
theorem best_flatten {R : ℚ → ℚ → Prop} {f : List ℚ → ℚ}
    (hf : ∀ l, l ≠ [] → ∀ m, f l = m ↔ m ∈ l ∧ ∀ x ∈ l, R x m)
    (hflat : shards.flatten ≠ []) (hne : ∀ shard ∈ shards, shard ≠ []) :
    f (shards.map f) = f shards.flatten := by
  have hmap : shards.map f ≠ [] := by
    intro h
    exact hflat (by rw [List.map_eq_nil_iff.mp h]; rfl)
  obtain ⟨hmem, hle⟩ := (hf _ hflat _).mp rfl
  refine (hf _ hmap _).mpr ⟨?_, fun m hm => ?_⟩
  · obtain ⟨l, hl, hml⟩ := List.mem_flatten.mp hmem
    refine List.mem_map.mpr ⟨l, hl, (hf l (hne l hl) _).mpr ⟨hml, fun x hx => ?_⟩⟩
    exact hle x (List.mem_flatten.mpr ⟨l, hl, hx⟩)
  · obtain ⟨l, hl, rfl⟩ := List.mem_map.mp hm
    obtain ⟨hml, -⟩ := (hf l (hne l hl) _).mp rfl
    exact hle _ (List.mem_flatten.mpr ⟨l, hl, hml⟩)

/-- Reducing the shards and then their results is reducing all the values. -/
theorem Reducer.reduce_metrics_shards (hshards : shards ≠ [])
    (hne : ∀ shard ∈ shards, shard ≠ []) :
    reducer.reduce_metrics (shards.map reducer.reduced)
      (some (shards.map fun l => (l.length : ℤ))) = .ok (reducer.reduced shards.flatten) := by
  have hmap : shards.map reducer.reduced ≠ [] := by simpa using hshards
  obtain ⟨shard, hshard⟩ := List.exists_mem_of_ne_nil _ hshards
  have hflat : shards.flatten ≠ [] := by
    intro h
    exact hne shard hshard (List.flatten_eq_nil_iff.mp h shard hshard)
  cases reducer with
  | AVG =>
    have hpos : ¬ (shards.map fun l => (l.length : ℤ)).sum = 0 := by
      rw [sum_lengths]
      have := List.length_pos_iff.mpr hflat
      omega
    have hcheck : check.eq (shards.map Reducer.AVG.reduced).length
        (shards.map fun l => (l.length : ℤ)).length none = .ok () :=
      check_eq_ok (by simp)
    have hsum : (List.zipWith (fun (x : ℚ) (w : ℤ) => x * w) (shards.map Reducer.AVG.reduced)
        (shards.map fun l => (l.length : ℤ))).sum = shards.flatten.sum := sum_averages hne
    have haverage : np.average (shards.map Reducer.AVG.reduced)
        (some (shards.map fun l => (l.length : ℤ))) = .ok (Reducer.AVG.reduced shards.flatten) := by
      rw [np.average, if_neg hpos, hsum, sum_lengths, Int.cast_natCast]
      rfl
    have hweights : ¬ (shards.map fun l => (l.length : ℤ)) = [] := by simpa using hshards
    rw [Reducer.reduce_metrics]
    simp only [hweights, if_false, hcheck, haverage]
    rfl
  | SUM =>
    rw [Reducer.reduce_metrics, Reducer.reduced, List.sum_flatten]
    rfl
  | MAX =>
    exact (Reducer.reduce_metrics_eq hmap : Reducer.MAX.reduce_metrics _ none = _).trans
      (congrArg Except.ok (best_flatten (fun _ h _ => max?_getD_eq_iff h) hflat hne))
  | MIN =>
    exact (Reducer.reduce_metrics_eq hmap : Reducer.MIN.reduce_metrics _ none = _).trans
      (congrArg Except.ok (best_flatten (fun _ h _ => min?_getD_eq_iff h) hflat hne))

/-! ### The processes together -/

namespace Validation

variable {v : Validation β} {k rank : ℕ} {name : String}

/-- The metric of this name of a batch. -/
def value (v : Validation β) (name : String) (batch : β) : ℚ :=
  ((v.evaluate_batch batch).lookup name).getD 0

/-- What one process makes of its batches. -/
def reduced (v : Validation β) (name : String) (batches : List β) : ℚ :=
  (v.metrics_reducers name).reduced (batches.map (v.value name))

theorem lookup_of_mem {γ : Type} {l : List (String × γ)} (h : name ∈ l.map Prod.fst) :
    ∃ value, l.lookup name = some value := by
  induction l with
  | nil => cases h
  | cons x l ih =>
    rw [List.lookup_cons]
    by_cases hx : name = x.1
    · exact ⟨x.2, by simp [hx]⟩
    · rw [beq_eq_false_iff_ne.mpr hx]
      exact ih ((List.mem_cons.mp h).resolve_left hx)

theorem lookup_map {γ : Type} {keys : List String} (f : String → γ) (h : name ∈ keys) :
    (keys.map fun key => (key, f key)).lookup name = some (f name) := by
  induction keys with
  | nil => cases h
  | cons key keys ih =>
    rw [List.map_cons, List.lookup_cons]
    by_cases hkey : name = key
    · simp [hkey]
    · rw [beq_eq_false_iff_ne.mpr hkey]
      exact ih ((List.mem_cons.mp h).resolve_left hkey)

theorem get_eq_ok (hname : name ∈ v.keys) (batch : β) :
    (v.evaluate_batch batch).get name = .ok (v.value name batch) := by
  rw [← v.keys_evaluate_batch batch] at hname
  obtain ⟨x, hx⟩ := lookup_of_mem hname
  rw [Metrics.get, value, hx]
  rfl

/-- The validation loader of a process yields its batches, and its length is their number. -/
theorem batches_spec (hr : rank < v.size) (k : ℕ) :
    ∃ s, adapt_batch_sampler v.base.batch_sampler false 0 v.size rank = .ok s ∧
      (s.iter k).Exhausts (s.iter k).start (v.batches k rank) ∧
      s.len = v.base.shard v.size rank := by
  obtain ⟨s, hs, hadapts, hlen⟩ := adapt_batch_sampler_spec v.base.batch_sampler false 0 hr
  rw [shard_cast] at hlen
  exact ⟨s, hs, hadapts.exhausts k _ (Generator.ofList_exhausts _ _), by simpa using hlen⟩

theorem reduce_batches_spec {batches : List β} (hne : batches ≠ []) :
    v.reduce_batches batches = .ok (v.keys.map fun name => (name, v.reduced name batches)) := by
  refine mapM_eq_ok fun name hname => ?_
  have hvalues : (batches.mapM fun batch => (v.evaluate_batch batch).get name) =
      .ok (batches.map (v.value name)) := mapM_eq_ok fun batch _ => get_eq_ok hname batch
  have hmap : batches.map (v.value name) ≠ [] := by simpa using hne
  have hstack : np.stack (batches.map (v.value name)) = .ok (batches.map (v.value name)) := by
    rw [np.stack, if_neg hmap]
  simp only [hvalues, ok_bind, hstack, Reducer.reduce_metrics_eq hmap]
  rfl

/-- The chief has gathered all the messages when the last one is there. -/
theorem gather_spec {num_connections serial : ℕ} {infos : List MetricsInfo}
    {messages : List (Option MetricsInfo)} {polls : List (Option Message)}
    (hpolls : polls.filterMap id = infos.map (.serial serial))
    (hlen : messages.length + infos.length = num_connections) :
    gather_with_polling num_connections serial messages polls =
      .ok (messages ++ infos.map some, false) := by
  induction polls generalizing messages infos with
  | nil =>
    obtain rfl : infos = [] := by simpa using hpolls.symm
    rw [gather_with_polling, if_neg (by simp at hlen; omega)]
    simp
  | cons poll polls ih =>
    cases poll with
    | none =>
      rw [gather_with_polling]
      split_ifs with hlt
      · exact ih hpolls hlen
      · obtain rfl : infos = [] := List.length_eq_zero_iff.mp (by omega)
        simp
    | some message =>
      cases infos with
      | nil => simp at hpolls
      | cons info infos =>
        rw [List.filterMap_cons_some (rfl : id (some message) = some message), List.map_cons, List.cons.injEq] at hpolls
        obtain ⟨rfl, hpolls⟩ := hpolls
        have hrecv : recv_one serial (.serial serial info) = .ok (some info) := by
          rw [recv_one, check.eq, check_eq_ok (by simp)]
          rfl
        have hlen' : (messages ++ [some info]).length + infos.length = num_connections := by
          simp only [List.length_append, List.length_cons, List.length_nil] at hlen ⊢
          omega
        rw [gather_with_polling, if_pos (by rw [List.length_cons] at hlen; omega)]
        simp only [hrecv, ok_bind, reduceCtorEq, if_false, ih hpolls hlen']
        simp

/-- The message of a worker that has a batch. -/
def info (v : Validation β) (k rank : ℕ) : MetricsInfo where
  metrics := v.keys.map fun name => (name, v.reduced name (v.batches k rank))
  num_batches := v.base.shard v.size rank

theorem batches_ne_nil (hr : rank < v.size) (hpos : 0 < v.base.shard v.size rank) (k : ℕ) :
    v.batches k rank ≠ [] := by
  intro h
  have := length_everyNth_batches v.base hr k
  rw [batches] at h
  rw [h, List.length_nil] at this
  omega

theorem worker_info_spec (hr : rank < v.size) (hpos : 0 < v.base.shard v.size rank) (k : ℕ) :
    v.worker_info k rank = .ok (v.info k rank) := by
  rw [worker_info, reduce_batches_spec (batches_ne_nil hr hpos k)]
  rfl

/-- What the chief has of a metric, and of how many batches, once the messages of `order` are
    there. -/
theorem combine_spec {order : List ℕ} (horder : order.length = v.size - 1) {serial : ℕ}
    {polls : List (Option Message)}
    (hpolls : polls.filterMap id = (order.map (v.info k)).map (.serial serial)) :
    v.combine_metrics_across_processes (v.info k 0).metrics (v.info k 0).num_batches serial polls =
      .ok (v.keys.map fun name =>
          (name, (0 :: order).map fun rank => v.reduced name (v.batches k rank)),
        (0 :: order).map fun rank => (v.base.shard v.size rank : ℤ)) := by
  have hgather : gather_with_polling (v.size - 1) serial [] polls =
      .ok ([] ++ (order.map (v.info k)).map some, false) :=
    gather_spec hpolls (by rw [List.length_nil, List.length_map, horder, Nat.zero_add])
  have hworkers : ((order.map (v.info k)).map some).mapM (fun
      | some info => .ok info
      | none => .error "'NoneType' object has no attribute 'metrics'") =
      (.ok (order.map (v.info k)) : Except String (List MetricsInfo)) := by
    rw [List.map_map, List.mapM_map]
    exact mapM_eq_ok fun rank _ => rfl
  have hlists : (v.info k 0).metrics.mapM (fun (metric_name, value) => do
      let values ← (order.map (v.info k)).mapM fun worker => worker.metrics.get metric_name
      return (metric_name, value :: values)) =
      (.ok (v.keys.map fun name =>
        (name, (0 :: order).map fun rank => v.reduced name (v.batches k rank))) :
          Except String (List (String × List ℚ))) := by
    rw [info, List.mapM_map]
    refine mapM_eq_ok fun name hname => ?_
    have hvalues : (order.map (v.info k)).mapM (fun worker => worker.metrics.get name) =
        .ok (order.map fun rank => v.reduced name (v.batches k rank)) := by
      rw [List.mapM_map]
      refine mapM_eq_ok fun rank _ => ?_
      have hlookup := lookup_map (fun name => v.reduced name (v.batches k rank)) hname
      simp only [Function.comp_apply, info, Metrics.get, hlookup]
    simp only [Function.comp_apply, hvalues, ok_bind]
    rfl
  rw [combine_metrics_across_processes, hgather]
  simp only [ok_bind, List.nil_append, hworkers, hlists]
  simp [info]
  rfl

/-- The shards of a metric are all its values, in another order. -/
theorem shards_perm {order : List ℕ} (horder : order.Perm (List.range' 1 (v.size - 1)))
    (hsize : 0 < v.size) (k : ℕ) :
    (((0 :: order).map (v.batches k)).flatten).Perm (v.base.batches k) := by
  have hrange : (0 :: order).Perm (List.range v.size) := by
    rw [List.range_eq_range', ← Nat.sub_add_cancel hsize, List.range'_succ]
    exact horder.cons 0
  calc ((0 :: order).map (v.batches k)).flatten
    List.Perm _ ((List.range v.size).map (v.batches k)).flatten := (hrange.map _).flatten
    List.Perm _ (v.base.batches k) := Generator.flatMap_everyNth_perm hsize 0 _

/-- CORRECT: whatever the order in which the messages of the workers arrive, and whatever comes
    between them, the chief reports what a single process reports of all the batches. -/
theorem chief_metrics_eq_single (v : Validation β) (hsize : 0 < v.size)
    (hbatches : ∀ rank < v.size, 0 < v.base.shard v.size rank) (k serial : ℕ) {order : List ℕ}
    (horder : order.Perm (List.range' 1 (v.size - 1))) :
    ∃ infos, order.mapM (v.worker_info k) = .ok infos ∧
      ∀ polls : List (Option Message), polls.filterMap id = infos.map (.serial serial) →
        ∃ metrics, v.chief_metrics k serial polls = .ok metrics ∧
          v.reduce_batches (v.base.batches k) = .ok metrics := by
  have hrank : ∀ rank ∈ 0 :: order, rank < v.size := by
    intro rank hmem
    rcases List.mem_cons.mp hmem with rfl | hmem
    · exact hsize
    · have := List.mem_range'_1.mp (horder.mem_iff.mp hmem)
      omega
  have hne : ∀ rank ∈ 0 :: order, v.batches k rank ≠ [] := fun rank hmem =>
    batches_ne_nil (hrank rank hmem) (hbatches rank (hrank rank hmem)) k
  refine ⟨order.map (v.info k), mapM_eq_ok fun rank hmem => ?_, fun polls hpolls => ?_⟩
  · have hr := hrank rank (List.mem_cons_of_mem _ hmem)
    exact worker_info_spec hr (hbatches rank hr) k
  have hall : v.base.batches k ≠ [] := by
    intro h
    have hperm := shards_perm horder hsize k
    rw [h, List.perm_nil, List.flatten_eq_nil_iff] at hperm
    exact hne 0 (List.mem_cons_self ..) (hperm _ (by simp))
  refine ⟨_, ?_, reduce_batches_spec hall⟩
  have hchief : v.reduce_batches (v.batches k 0) = .ok (v.info k 0).metrics :=
    reduce_batches_spec (hne 0 (List.mem_cons_self ..))
  have hcombine : v.combine_metrics_across_processes (v.info k 0).metrics
      (v.base.shard v.size 0) serial polls = .ok (_, _) :=
    combine_spec (by rw [horder.length_eq, List.length_range']) hpolls
  rw [chief_metrics, hchief, ok_bind, hcombine, ok_bind]
  refine mapM_eq_ok fun name hname => ?_
  -- Of this metric there is one shard of values from each process, the chief's first.
  let shards := (0 :: order).map fun rank => (v.batches k rank).map (v.value name)
  have hshards : ∀ shard ∈ shards, shard ≠ [] := by
    intro shard hshard
    obtain ⟨rank, hmem, rfl⟩ := List.mem_map.mp hshard
    simpa using hne rank hmem
  have hvalues : ((0 :: order).map fun rank => v.reduced name (v.batches k rank)) =
      shards.map (v.metrics_reducers name).reduced := by
    rw [List.map_map]
    rfl
  have hweights : ((0 :: order).map fun rank => (v.base.shard v.size rank : ℤ)) =
      shards.map fun l => (l.length : ℤ) := by
    rw [List.map_map]
    refine List.map_congr_left fun rank hmem => ?_
    rw [Function.comp_apply, List.length_map, batches,
      length_everyNth_batches v.base (hrank rank hmem)]
  have hflatten : shards.flatten.Perm ((v.base.batches k).map (v.value name)) := by
    have hperm := (shards_perm horder hsize k).map (v.value name)
    rw [List.map_flatten, List.map_map] at hperm
    exact hperm
  have hlookup := lookup_map
    (fun name => (0 :: order).map fun rank => v.reduced name (v.batches k rank)) hname
  have hreduce : (v.metrics_reducers name).reduce_metrics
      (shards.map (v.metrics_reducers name).reduced)
      (some (shards.map fun l => (l.length : ℤ))) = .ok (v.reduced name (v.base.batches k)) :=
    (Reducer.reduce_metrics_shards (List.cons_ne_nil _ _) hshards).trans
      (congrArg Except.ok (Reducer.reduced_perm hflatten))
  simp only [hlookup, hvalues, hweights, hreduce, ok_bind]
  rfl

/-- Two processes validate three batches, and the worker's message comes after a second. -/
theorem chief_metrics_eq_single_two :
    ∃ infos, [1].mapM (worker_info (β := ℚ) ⟨⟨fun _ => [1, 2, 6], 3, fun _ => rfl⟩,
        fun batch => [("loss", batch)], ["loss"], fun _ => .AVG, 2, fun _ => rfl⟩ 0) = .ok infos ∧
      ∀ polls : List (Option Message), polls.filterMap id = infos.map (.serial 0) →
        ∃ metrics, chief_metrics (β := ℚ) ⟨⟨fun _ => [1, 2, 6], 3, fun _ => rfl⟩,
            fun batch => [("loss", batch)], ["loss"], fun _ => .AVG, 2, fun _ => rfl⟩
            0 0 polls = .ok metrics ∧
          reduce_batches (β := ℚ) ⟨⟨fun _ => [1, 2, 6], 3, fun _ => rfl⟩,
            fun batch => [("loss", batch)], ["loss"], fun _ => .AVG, 2, fun _ => rfl⟩
            [1, 2, 6] = .ok metrics :=
  chief_metrics_eq_single _ (by decide) (by decide) 0 0 (by decide)

end Validation
end Determined.Pytorch
