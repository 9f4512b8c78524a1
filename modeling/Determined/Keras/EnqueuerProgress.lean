import Determined.Keras.Enqueuer

/-! The parallel enqueuer yields what the worker-less one yields.

    In every run, what was yielded so far is the beginning of what the worker-less enqueuer yields
    (`Inv.yielded`), and from every state of a run the epoch can be finished: as long as it is not,
    some party has an action that leaves less work to do (`Inv.progress`). -/

namespace Determined.Keras.ParallelEnqueuer

open Determined.Schemes

variable {ι δ σ : Type} {cfg : Loader ι δ σ} {s t : ParallelEnqueuer ι δ σ} {asked : List ι} {s₀ : σ}

/-! ### What the worker-less enqueuer yields -/

theorem flatMap_epochs (cfg : Loader ι δ σ) (s₀ : σ) (m : ℕ) :
    ((List.range m).flatMap fun j => (cfg.yield_epoch (cfg.epochs s₀ j).2).1.map cfg.sequence) =
      (cfg.epochs s₀ m).1.map cfg.sequence := by
  induction m with
  | zero => rfl
  | succ m ih =>
    rw [List.range_succ, List.flatMap_append, List.flatMap_singleton, ih, Loader.epochs,
      List.map_append]

theorem workerless_nth_iff (cfg : Loader ι δ σ) (s₀ : σ) {k : ℕ} {d : δ} :
    (cfg.workerless s₀).Nth (cfg.workerless s₀).start k d ↔
      ∃ m, ((cfg.epochs s₀ m).1.map cfg.sequence)[k]? = some d := by
  simp only [← flatMap_epochs]
  exact Generator.cycle_nth_iff_rounds fun m => Generator.ofList_exhausts _ _

/-! ### What a run has yielded -/

theorem InEpoch.prefix (h : InEpoch cfg s₀ s asked) :
    asked <+: (cfg.epochs s₀ (s.epoch_ends + 1)).1 := by
  rw [InEpoch] at h
  split at h
  · exact ⟨_, h.1⟩
  · exact ⟨[], by rw [List.append_nil]; exact h.1⟩

theorem AtPc.prefix (h : AtPc cfg s₀ s asked) :
    asked <+: (cfg.epochs s₀ (s.epoch_ends + 1)).1 := by
  have hbetween : Between cfg s₀ s asked → asked <+: (cfg.epochs s₀ (s.epoch_ends + 1)).1 :=
    fun h => ⟨(cfg.yield_epoch (cfg.epochs s₀ s.epoch_ends).2).1, by rw [h.all_asked]; rfl⟩
  rw [AtPc] at h
  cases hp : s.pc <;> simp only [hp] at h
  · exact hbetween h
  · exact h.epoch.prefix
  · exact h.epoch.prefix
  · exact h.epoch.prefix
  · exact hbetween h

/-- What was yielded is the beginning of the data of the epochs. -/
theorem Inv.yielded (h : Inv cfg s₀ s) :
    s.yielded <+: (cfg.epochs s₀ (s.epoch_ends + 1)).1.map cfg.sequence := by
  obtain ⟨asked, hflight, hpc⟩ := h
  rw [hflight.yielded]
  exact ((List.take_prefix _ _).trans hpc.prefix).map _

/-- Between two epochs the data of the epochs so far was yielded. -/
theorem Inv.yielded_epochs (h : Inv cfg s₀ s) (hp : s.pc = .epoch_start ∨ s.pc = .finished) :
    s.yielded = (cfg.epochs s₀ s.epoch_ends).1.map cfg.sequence := by
  obtain ⟨asked, hflight, hpc⟩ := h
  have hbetween : Between cfg s₀ s asked := by
    rw [AtPc] at hpc
    rcases hp with hp | hp <;> rw [hp] at hpc <;> exact hpc
  rw [hflight.yielded, hbetween.yielded, List.take_length, hbetween.all_asked]

/-- The number of requests whose data is not yet yielded is bounded. -/
theorem Inv.in_flight_le (h : Inv cfg s₀ s) : s.in_flight.length ≤ cfg.max_queue_size := by
  obtain ⟨asked, hflight, hpc⟩ := h
  rw [hflight.in_flight.length_eq, List.length_range']
  have hle := hflight.yielded_le
  rw [AtPc] at hpc
  cases hp : s.pc <;> simp only [hp] at hpc
  · rw [hpc.yielded]
    omega
  · have := hpc.bound
    rwa [hpc.requested, List.length_range'] at this
  · have := hpc.bound
    rw [hpc.requested, List.length_range', hpc.next] at this
    omega
  · have := hpc.bound
    rwa [hpc.requested, List.length_range'] at this
  · rw [hpc.yielded]
    omega

/-! ### Progress -/

/-- The indices that are still to be requested in this epoch, or in the next one. -/
def ahead (cfg : Loader ι δ σ) (s : ParallelEnqueuer ι δ σ) : List ι :=
  match s.pc with
  | .epoch_start => (cfg.yield_epoch s.sampler).1
  | .finished => (cfg.yield_epoch s.sampler).1
  | _ => s.index_iter.getD []

/-- What the main thread has to do before it comes to the next request. -/
def Pc.rank : Pc → ℕ
  | .epoch_start => 3
  | .loop => 2
  | .waiting _ => 1
  | .suspended => 3
  | .finished => 4
  | .failed => 0

/-- The work that is left: each request goes through the queue, a worker, the answers and what was
    received before its data is yielded. -/
def work_left (cfg : Loader ι δ σ) (s : ParallelEnqueuer ι δ σ) : ℕ :=
  Pc.rank s.pc + 8 * (s.ahead cfg).length + 7 * s.queries.length +
    6 * (s.workers.filterMap Worker.reading).length + 5 * s.answers.length + 4 * s.received.length

/-- The step from `s` to `t` ends an epoch or leaves less to do in it. -/
def Progresses (cfg : Loader ι δ σ) (s t : ParallelEnqueuer ι δ σ) : Prop :=
  t.stopped = false ∧ t.workers.length = s.workers.length ∧
    ((t.epoch_ends = s.epoch_ends + 1 ∧ (t.pc = .epoch_start ∨ t.pc = .finished)) ∨
      (t.epoch_ends = s.epoch_ends ∧ work_left cfg t < work_left cfg s))

theorem filterMap_set_length {α : Type} (f : α → Option ℕ) {l : List α} {j : ℕ} {w : α}
    (h : l[j]? = some w) (w' : α) :
    ((l.set j w').filterMap f).length + (f w).toList.length =
      (l.filterMap f).length + (f w').toList.length := by
  have hperm : ((l.set j w').filterMap f ++ (f w).toList).Perm
      (l.filterMap f ++ (f w').toList) := by
    refine List.perm_iff_count.mpr fun o => ?_
    rw [List.count_append, List.count_append]
    exact count_filterMap_set f h w' o
  simpa using hperm.length_eq

/-- A worker that reads the sequence can answer. -/
theorem busy_progresses (hstop : s.stopped = false) {j order : ℕ} {i : ι} {target : ℕ}
    (hp : s.pc = .waiting target) (hj : s.workers[j]? = some (.busy i order)) :
    ∃ t, step cfg s (.work j) = some t ∧ Progresses cfg s t := by
  simp only [step, work, hj]
  refine ⟨_, rfl, hstop, List.length_set, .inr ⟨rfl, ?_⟩⟩
  have hset := filterMap_set_length Worker.reading hj .idle
  simp only [Worker.reading, Option.toList_some, Option.toList_none, List.length_nil,
    List.length_singleton] at hset
  simp only [work_left, ahead, hp, List.length_append, List.length_singleton]
  omega

/-- A worker that is idle can take a request. -/
theorem idle_progresses (hstop : s.stopped = false) {j order : ℕ} {i : ι} {target : ℕ}
    {queries : List (Option (ι × ℕ))} (hp : s.pc = .waiting target)
    (hj : s.workers[j]? = some .idle) (hqueries : s.queries = some (i, order) :: queries) :
    ∃ t, step cfg s (.work j) = some t ∧ Progresses cfg s t := by
  simp only [step, work, hj, hqueries]
  refine ⟨_, rfl, hstop, List.length_set, .inr ⟨rfl, ?_⟩⟩
  have hset := filterMap_set_length Worker.reading hj (.busy i order)
  simp only [Worker.reading, Option.toList_some, Option.toList_none, List.length_nil,
    List.length_singleton] at hset
  simp only [work_left, ahead, hp, hqueries, List.length_cons]
  omega

theorem mem_in_flight_cases {o : ℕ} (h : o ∈ s.in_flight) :
    (∃ i, some (i, o) ∈ s.queries) ∨ (∃ i, .busy i o ∈ s.workers) ∨
      (∃ d, some (d, o) ∈ s.answers) ∨ ∃ d, (o, d) ∈ s.received := by
  rw [in_flight, List.mem_append, List.mem_append, List.mem_append] at h
  rcases h with ((h | h) | h) | h
  · obtain ⟨query, hmem, ho⟩ := List.mem_filterMap.mp h
    obtain ⟨⟨i, o'⟩, rfl, rfl⟩ := Option.map_eq_some_iff.mp ho
    exact .inl ⟨i, hmem⟩
  · obtain ⟨worker, hmem, ho⟩ := List.mem_filterMap.mp h
    cases worker with
    | busy i o' =>
      cases ho
      exact .inr (.inl ⟨i, hmem⟩)
    | idle => cases ho
    | exited => cases ho
  · obtain ⟨answer, hmem, ho⟩ := List.mem_filterMap.mp h
    obtain ⟨⟨d, o'⟩, rfl, rfl⟩ := Option.map_eq_some_iff.mp ho
    exact .inr (.inr (.inl ⟨d, hmem⟩))
  · obtain ⟨⟨o', d⟩, hmem, rfl⟩ := List.mem_map.mp h
    exact .inr (.inr (.inr ⟨d, hmem⟩))

theorem step_main (hstop : s.stopped = false) : step cfg s .main = main cfg s := by
  rw [step, hstop]
  rfl

/-- The data of the next request is there, and the main thread yields it. -/
theorem yield_progresses (hflight : Flight cfg s asked) {target : ℕ}
    (hp : s.pc = .waiting target) (hpc : Waits cfg s₀ s asked target) (hstop : s.stopped = false)
    {data : δ} (hdata : s.received.lookup target = some data) :
    ∃ t, step cfg s .main = some t ∧ Progresses cfg s t := by
  obtain rfl := hpc.next
  obtain ⟨more, iter, sampler, heq, -, -, hiter⟩ :=
    fill_requests_spec (hflight.yield hdata .suspended)
        (show InEpoch cfg s₀ _ asked from hpc.epoch)
      (by rw [List.length_append, List.length_singleton]; exact hpc.requested)
      (Nat.le_of_lt hpc.bound)
  rw [step_main hstop, main, hp]
  simp only [hdata, fill_requests_yielded]
  refine ⟨_, rfl, by rw [heq]; exact hstop, by rw [heq]; rfl, .inr ⟨by rw [heq]; rfl, ?_⟩⟩
  have hreceived := (perm_cons_eraseP hdata).length_eq
  have hmore : (s.index_iter.getD []).length = more.length + (iter.getD []).length := by
    rw [← List.length_append, ← hiter]
  rw [List.length_cons] at hreceived
  rw [heq]
  simp only [work_left, ahead, hp, Pc.rank, requesting, List.length_append, List.length_map,
    List.length_zipIdx]
  omega

/-- An answer has come, and the main thread receives it. -/
theorem receive_progresses (hflight : Flight cfg s asked) {target : ℕ}
    (hp : s.pc = .waiting target) (hstop : s.stopped = false)
    (hnone : s.received.lookup target = none) (hanswers : s.answers ≠ []) :
    ∃ t, step cfg s .main = some t ∧ Progresses cfg s t := by
  rw [step_main hstop, main, hp]
  cases ha : s.answers with
  | nil => exact absurd ha hanswers
  | cons answer answers =>
    cases answer with
    | none =>
      obtain ⟨-, hnever, -⟩ := hflight.running hstop
      rw [ha] at hnever
      exact absurd (List.mem_cons_self ..) hnever
    | some answer =>
      simp only [hnone]
      refine ⟨_, rfl, hstop, rfl, .inr ⟨rfl, ?_⟩⟩
      have hreceived : (s.receive answer.2 answer.1).length ≤ s.received.length + 1 := by
        rw [receive, List.length_cons]
        exact Nat.succ_le_succ List.length_eraseP_le
      simp only [work_left, ahead, hp, ha, List.length_cons]
      omega

/-- While the main thread waits, either it can go on or a worker can. -/
theorem waiting_progresses (hflight : Flight cfg s asked) {target : ℕ}
    (hp : s.pc = .waiting target) (hpc : Waits cfg s₀ s asked target) (hstop : s.stopped = false)
    (hworkers : 0 < s.workers.length) : ∃ e t, step cfg s e = some t ∧ Progresses cfg s t := by
  cases hdata : s.received.lookup target with
  | some data => exact ⟨_, yield_progresses hflight hp hpc hstop hdata⟩
  | none =>
    by_cases hanswers : s.answers = []
    · have hmem : target ∈ s.in_flight := by
        rw [hflight.in_flight.mem_iff, List.mem_range'_1]
        have := hpc.next
        have := hpc.target_lt
        omega
      by_cases hbusy : ∃ i o, .busy i o ∈ s.workers
      · obtain ⟨i, o, hbusy⟩ := hbusy
        obtain ⟨j, hj⟩ := List.mem_iff_getElem?.mp hbusy
        exact ⟨_, busy_progresses hstop hp hj⟩
      · obtain ⟨hq, -, hw⟩ := hflight.running hstop
        rcases mem_in_flight_cases hmem with ⟨i, hi⟩ | ⟨i, hi⟩ | ⟨d, hd⟩ | ⟨d, hd⟩
        · -- Every worker is idle, and the first request of the queue waits for one.
          have hidle : s.workers[0]? = some .idle := by
            have hfirst := List.getElem?_eq_getElem hworkers
            have hmem₀ := List.mem_of_getElem? hfirst
            cases hworker : s.workers[0] with
            | idle => rw [hfirst, hworker]
            | busy i o => exact absurd ⟨i, o, hworker ▸ hmem₀⟩ hbusy
            | exited => exact absurd (hworker ▸ hmem₀) hw
          cases hqueries : s.queries with
          | nil =>
            rw [hqueries] at hi
            cases hi
          | cons query queries =>
            cases query with
            | none =>
              rw [hqueries] at hq
              exact absurd (List.mem_cons_self ..) hq
            | some query => exact ⟨_, idle_progresses hstop hp hidle hqueries⟩
        · exact absurd ⟨i, target, hi⟩ hbusy
        · rw [hanswers] at hd
          cases hd
        · have := List.lookup_eq_none_iff.mp hdata _ hd
          simp at this
    · exact ⟨_, receive_progresses hflight hp hstop hdata hanswers⟩

/-- In every state of a run some party has an action that ends the epoch or leaves less to do. -/
theorem exists_progresses (h : Inv cfg s₀ s) (hstop : s.stopped = false)
    (hworkers : 0 < s.workers.length) :
    ∃ e t, step cfg s e = some t ∧ Progresses cfg s t := by
  obtain ⟨asked, hflight, hpc⟩ := h
  rw [AtPc] at hpc
  cases hp : s.pc with
  | epoch_start =>
    simp only [hp] at hpc
    have hstep : main cfg s = some { fill_requests cfg
        { s with index_iter := some (cfg.yield_epoch s.sampler).1 } with pc := .loop } := by
      rw [main]
      split
      case h_1 => rfl
      all_goals simp_all
    have hstart : InEpoch cfg s₀ { s with index_iter := some (cfg.yield_epoch s.sampler).1 } asked := by
      refine ⟨?_, hpc.sampler⟩
      rw [hpc.all_asked, hpc.sampler]
      rfl
    obtain ⟨more, iter, sampler, heq, -, -, hiter⟩ :=
      fill_requests_spec (s := { s with index_iter := some (cfg.yield_epoch s.sampler).1 })
        ⟨hflight.1, hflight.2, hflight.3, hflight.4, hflight.5, hflight.6, hflight.7, hflight.8,
          hflight.9⟩ hstart (by rw [hpc.requested, hpc.yielded, Nat.sub_self]; rfl)
        (by rw [hpc.requested]; exact Nat.zero_le _)
    have hmore : (cfg.yield_epoch s.sampler).1.length = more.length + (iter.getD []).length := by
      rw [← List.length_append, ← hiter]
      rfl
    rw [← step_main hstop] at hstep
    refine ⟨.main, _, hstep, by rw [heq]; exact hstop, by rw [heq]; rfl, .inr ⟨by rw [heq]; rfl, ?_⟩⟩
    rw [heq]
    simp only [work_left, ahead, hp, Pc.rank, requesting, List.length_append, List.length_map,
      List.length_zipIdx]
    omega
  | loop =>
    cases hreq : s.requested with
    | nil =>
      refine ⟨.main, ?_⟩
      rw [step_main hstop, main, hp]
      simp only [hreq]
      refine ⟨_, rfl, hstop, rfl, .inl ⟨rfl, ?_⟩⟩
      cases cfg.repeats <;> simp
    | cons target requested =>
      refine ⟨.main, ?_⟩
      rw [step_main hstop, main, hp]
      simp only [hreq]
      refine ⟨_, rfl, hstop, rfl, .inr ⟨rfl, ?_⟩⟩
      simp only [work_left, ahead, hp, Pc.rank]
      omega
  | waiting target =>
    simp only [hp] at hpc
    exact waiting_progresses hflight hp hpc hstop hworkers
  | suspended =>
    refine ⟨.main, ?_⟩
    rw [step_main hstop, main, hp]
    refine ⟨_, rfl, hstop, rfl, .inr ⟨rfl, ?_⟩⟩
    simp only [work_left, ahead, hp, Pc.rank]
    omega
  | finished =>
    refine ⟨.data, ?_⟩
    rw [step, if_pos ⟨hstop, hp⟩]
    refine ⟨_, rfl, hstop, rfl, .inr ⟨rfl, ?_⟩⟩
    simp only [work_left, ahead, hp, Pc.rank]
    omega
  | failed => simp only [hp] at hpc

/-! ### The workers -/

theorem fill_requests_workers (s : ParallelEnqueuer ι δ σ) :
    (fill_requests cfg s).workers = s.workers := by
  have hfill : ∀ (is : List ι) (s : ParallelEnqueuer ι δ σ), (fill cfg s is).workers = s.workers := by
    intro is
    induction is with
    | nil =>
      intro s
      rw [fill]
      split_ifs <;> rfl
    | cons i is ih =>
      intro s
      rw [fill]
      split_ifs
      · exact ih _
      · rfl
  rw [fill_requests]
  split
  · rfl
  · exact hfill _ _

theorem main_workers (hmain : main cfg s = some t) : t.workers = s.workers := by
  rw [main] at hmain
  split at hmain
  case h_1 => exact (Option.some.inj hmain) ▸ fill_requests_workers _
  case h_2 => split at hmain <;> cases hmain <;> rfl
  case h_3 =>
    split at hmain
    case h_1 => exact (Option.some.inj hmain) ▸ fill_requests_workers _
    case h_2 => split at hmain <;> cases hmain <;> rfl
  case h_4 => exact (Option.some.inj hmain) ▸ rfl
  case h_5 => cases hmain
  case h_6 => cases hmain

theorem work_workers_length {j : ℕ} (hwork : work cfg s j = some t) :
    t.workers.length = s.workers.length := by
  rw [work] at hwork
  split at hwork
  · split at hwork <;> cases hwork
    · exact List.length_set
    · exact List.length_set
  · cases hwork
    exact List.length_set
  · cases hwork

/-! ### Runs -/

/-- One action of one of the parties. -/
def Step (cfg : Loader ι δ σ) (s : ParallelEnqueuer ι δ σ) (e : Event)
    (t : ParallelEnqueuer ι δ σ) : Prop := step cfg s e = some t

theorem Inv.init (cfg : Loader ι δ σ) (s₀ : σ) (workers : ℕ) : Inv cfg s₀ (init s₀ workers) := by
  have hreading : (List.replicate workers Worker.idle).filterMap (Worker.reading (ι := ι)) = [] := by
    rw [List.filterMap_eq_nil_iff]
    intro w hw
    rw [List.eq_of_mem_replicate hw]
    rfl
  refine ⟨[], ⟨rfl, le_rfl, rfl, ?_, ?_, ?_, ?_, ?_, ?_⟩, ⟨rfl, rfl, rfl, rfl⟩⟩
  · simp [in_flight, ParallelEnqueuer.init, hreading]
  · intro i o h
    cases h
  · intro i o h
    cases List.eq_of_mem_replicate h
  · intro d o h
    cases h
  · intro o d h
    cases h
  · refine fun _ => ⟨List.not_mem_nil, List.not_mem_nil, fun h => ?_⟩
    cases List.eq_of_mem_replicate h

theorem Inv.run (hmax : 0 < cfg.max_queue_size) {tr : List (Edge (ParallelEnqueuer ι δ σ) Event)}
    (h : Inv cfg s₀ s) (hrun : Run (Step cfg) s tr t) : Inv cfg s₀ t :=
  (hrun.invariant (fun _ _ _ h hstep => h.step hmax hstep) h).2

theorem step_workers_length {e : Event} (hstep : step cfg s e = some t) :
    t.workers.length = s.workers.length := by
  cases e with
  | main =>
    rw [step] at hstep
    split_ifs at hstep
    exact congrArg _ (main_workers hstep)
  | work j => exact work_workers_length hstep
  | data =>
    rw [step] at hstep
    split_ifs at hstep
    cases hstep
    rfl
  | stop =>
    rw [step] at hstep
    split_ifs at hstep
    cases hstep
    rfl

/-- The number of workers never changes. -/
theorem run_workers_length {tr : List (Edge (ParallelEnqueuer ι δ σ) Event)}
    (hrun : Run (Step cfg) s tr t) : t.workers.length = s.workers.length :=
  (hrun.invariant (I := fun u => u.workers.length = s.workers.length)
    (fun _ _ _ h hstep => (step_workers_length hstep).trans h) rfl).2

/-- From every state of a run the epoch can be finished. -/
theorem epoch_finishes (hmax : 0 < cfg.max_queue_size) (h : Inv cfg s₀ s) (hstop : s.stopped = false)
    (hworkers : 0 < s.workers.length) : ∃ tr t, Run (Step cfg) s tr t ∧ t.stopped = false ∧
      t.workers.length = s.workers.length ∧ t.epoch_ends = s.epoch_ends + 1 ∧
      (t.pc = .epoch_start ∨ t.pc = .finished) := by
  induction hn : work_left cfg s using Nat.strong_induction_on generalizing s with
  | _ n ih =>
    subst hn
    obtain ⟨e, u, hstep, hu, hlen, hends | ⟨hends, hlt⟩⟩ :=
      exists_progresses h hstop hworkers
    · exact ⟨_, u, .cons hstep (.nil u), hu, hlen, hends⟩
    · obtain ⟨tr, t, hrun, ht, htlen, htends, hpc⟩ :=
        ih _ hlt (h.step hmax hstep) hu (hlen ▸ hworkers) rfl
      exact ⟨_, t, .cons hstep hrun, ht, htlen.trans hlen, by rw [htends, hends], hpc⟩

/-- From every state of a run any number of further epochs can be finished. -/
theorem epochs_finish (hmax : 0 < cfg.max_queue_size) (h : Inv cfg s₀ s) (hstop : s.stopped = false)
    (hworkers : 0 < s.workers.length) (m : ℕ) : ∃ tr t, Run (Step cfg) s tr t ∧
      t.epoch_ends = s.epoch_ends + (m + 1) ∧ (t.pc = .epoch_start ∨ t.pc = .finished) := by
  induction m generalizing s with
  | zero =>
    obtain ⟨tr, t, hrun, -, -, hends, hpc⟩ := epoch_finishes hmax h hstop hworkers
    exact ⟨tr, t, hrun, hends, hpc⟩
  | succ m ih =>
    obtain ⟨tr, u, hrun, hu, hlen, hends, -⟩ := epoch_finishes hmax h hstop hworkers
    obtain ⟨tr', t, hrun', hends', hpc⟩ := ih (h.run hmax hrun) hu (hlen ▸ hworkers)
    exact ⟨_, t, hrun.append hrun', by omega, hpc⟩

theorem epochs_prefix (cfg : Loader ι δ σ) (s₀ : σ) (m n : ℕ) :
    (cfg.epochs s₀ m).1 <+: (cfg.epochs s₀ (m + n)).1 := by
  induction n with
  | zero => exact List.prefix_rfl
  | succ n ih => exact ih.trans ⟨_, rfl⟩

/-- CORRECT: in every interleaving of the workers and the main thread, what is yielded is what the
    worker-less enqueuer yields, in the same places; at most `max_queue_size` requests are
    outstanding; and until it is stopped, the enqueuer can go on to yield all that the worker-less
    one yields. -/
theorem yields_as_workerless (hmax : 0 < cfg.max_queue_size) {workers : ℕ} (hworkers : 0 < workers)
    {tr : List (Edge (ParallelEnqueuer ι δ σ) Event)}
    (hrun : Run (Step cfg) (init s₀ workers) tr t) :
    (∀ k d, t.yielded[k]? = some d → (cfg.workerless s₀).Nth (cfg.workerless s₀).start k d) ∧
    t.in_flight.length ≤ cfg.max_queue_size ∧
    (t.stopped = false → ∀ k d, (cfg.workerless s₀).Nth (cfg.workerless s₀).start k d →
      ∃ tr' t', Run (Step cfg) t tr' t' ∧ t'.yielded[k]? = some d) := by
  have hinv := (Inv.init cfg s₀ workers).run hmax hrun
  refine ⟨fun k d hk => ?_, hinv.in_flight_le, fun hstop k d hk => ?_⟩
  · obtain ⟨rest, hrest⟩ := hinv.yielded
    obtain ⟨hlt, -⟩ := List.getElem?_eq_some_iff.mp hk
    refine (workerless_nth_iff cfg s₀).mpr ⟨t.epoch_ends + 1, ?_⟩
    rw [← hrest, List.getElem?_append_left hlt, hk]
  · obtain ⟨m, hm⟩ := (workerless_nth_iff cfg s₀).mp hk
    have hlen : t.workers.length = workers :=
      (run_workers_length hrun).trans List.length_replicate
    obtain ⟨tr', t', hrun', hends, hpc⟩ := epochs_finish hmax hinv hstop (hlen ▸ hworkers) m
    refine ⟨tr', t', hrun', ?_⟩
    rw [(hinv.run hmax hrun').yielded_epochs hpc, hends]
    obtain ⟨rest, hrest⟩ := epochs_prefix cfg s₀ m (t.epoch_ends + 1)
    obtain ⟨hlt, -⟩ := List.getElem?_eq_some_iff.mp hm
    rw [show t.epoch_ends + (m + 1) = m + (t.epoch_ends + 1) by omega, ← hrest, List.map_append,
      List.getElem?_append_left hlt, hm]

/-- A sequence of two batches, read in order in every epoch. -/
def twoBatches : Loader ℕ ℕ Unit where
  yield_epoch := fun _ => ([0, 1], ())
  sequence := fun i => 10 + i
  repeats := true
  max_queue_size := 2

/-- The second of two workers answers first. -/
theorem yields_as_workerless_two : ∃ tr t, Run (Step twoBatches) (init () 2) tr t ∧
    t.yielded = [10] ∧
    (∀ k d, t.yielded[k]? = some d →
      (twoBatches.workerless ()).Nth (twoBatches.workerless ()).start k d) ∧
    t.in_flight.length ≤ 2 ∧
    (t.stopped = false → ∀ k d, (twoBatches.workerless ()).Nth (twoBatches.workerless ()).start k d →
      ∃ tr' t', Run (Step twoBatches) t tr' t' ∧ t'.yielded[k]? = some d) := by
  have hexec : (exec (step twoBatches) (init () 2)
      [.main, .main, .work 0, .work 1, .work 1, .work 0, .main, .main, .main]).map
      (fun r => r.2.yielded) = some [10] := by decide
  obtain ⟨tr, t, hrun, -, hyielded⟩ := Run.exists_of_exec (fun _ _ _ h => h) _ hexec
  exact ⟨tr, t, hrun, hyielded, yields_as_workerless (by decide) (by decide) hrun⟩

end Determined.Keras.ParallelEnqueuer
