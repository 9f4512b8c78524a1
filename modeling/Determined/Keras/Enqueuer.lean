import Determined.Schemes.Generator
import Determined.Schemes.Run

/-! The enqueuers that read the batches of a Keras Sequence (`determined/keras/_enqueuer.py`).

    The worker-less enqueuer reads them on the main thread, a generator. The parallel one sends
    requests through a queue to its workers, which answer them in any order; the main thread puts
    the answers back in order. The parallel enqueuer is a transition system: an event is one action
    of the main thread or of one worker, and a run is any interleaving of these. -/

namespace Determined.Keras

open Determined.Schemes

variable {ι δ σ : Type}

/-- What the enqueuers are built from. -/
structure Loader (ι δ σ : Type) where
  /-- What `sampler.yield_epoch()` yields, and the sampler after that. -/
  yield_epoch : σ → List ι × σ
  sequence : ι → δ
  repeats : Bool
  max_queue_size : ℕ

namespace Loader

variable (cfg : Loader ι δ σ)

/-- The indices of the first `m` epochs, and the sampler after them. -/
def epochs (s : σ) : ℕ → List ι × σ
  | 0 => ([], s)
  | m + 1 => ((epochs s m).1 ++ (cfg.yield_epoch (epochs s m).2).1,
      (cfg.yield_epoch (epochs s m).2).2)

/-! ### Without workers -/

/-- One pass of the loop in `_WorkerlessEnqueuer.data`. -/
def workerless_epoch (s : σ) : Generator δ := .ofList ((cfg.yield_epoch s).1.map cfg.sequence)

/-- All that a worker-less enqueuer yields: in one call of `data()` if it repeats, and in one call
    for each epoch otherwise. -/
def workerless (s : σ) : Generator δ :=
  .cycle fun m => cfg.workerless_epoch (cfg.epochs s m).2

end Loader

/-! ### With workers -/

/-- Where a worker is in its loop. -/
inductive Worker (ι : Type) where
  /-- At `queries.get()`. -/
  | idle
  /-- It reads the sequence. -/
  | busy (i : ι) (order : ℕ)
  | exited
  deriving DecidableEq

/-- The order of the request that a worker reads the data of. -/
def Worker.reading : Worker ι → Option ℕ
  | .busy _ order => some order
  | _ => none

/-- Where the generator `data()` is. -/
inductive Pc where
  /-- Before an epoch. -/
  | epoch_start
  /-- At `while len(self.requested)`. -/
  | loop
  /-- In the loop that waits for the next in-order data. -/
  | waiting (target : ℕ)
  /-- At `yield data`. -/
  | suspended
  | finished
  /-- A data loading worker finished unexpectedly. -/
  | failed
  deriving DecidableEq

/-- The state of a parallel enqueuer, with what it has yielded so far and the number of times that
    `sequence.on_epoch_end()` was called. -/
structure ParallelEnqueuer (ι δ σ : Type) where
  sampler : σ
  order : ℕ
  requested : List ℕ
  received : List (ℕ × δ)
  index_iter : Option (List ι)
  queries : List (Option (ι × ℕ))
  answers : List (Option (δ × ℕ))
  workers : List (Worker ι)
  pc : Pc
  stopped : Bool
  epoch_ends : ℕ
  yielded : List δ

namespace ParallelEnqueuer

variable (cfg : Loader ι δ σ)

/-- A new enqueuer, once it is started. -/
def init (sampler : σ) (workers : ℕ) : ParallelEnqueuer ι δ σ where
  sampler := sampler
  order := 0
  requested := []
  received := []
  index_iter := none
  queries := []
  answers := []
  workers := List.replicate workers .idle
  pc := .epoch_start
  stopped := false
  epoch_ends := 0
  yielded := []

/-- Request the indices that the iterator still yields, until the queue is full. An iterator that
    is exhausted ends the epoch of the sampler. -/
def fill (s : ParallelEnqueuer ι δ σ) : List ι → ParallelEnqueuer ι δ σ
  | [] =>
    if s.requested.length < cfg.max_queue_size then
      { s with index_iter := none, sampler := (cfg.yield_epoch s.sampler).2 }
    else { s with index_iter := some [] }
  | i :: is =>
    if s.requested.length < cfg.max_queue_size then
      fill { s with
        queries := s.queries ++ [some (i, s.order)]
        requested := s.requested ++ [s.order]
        order := s.order + 1 } is
    else { s with index_iter := some (i :: is) }

def fill_requests (s : ParallelEnqueuer ι δ σ) : ParallelEnqueuer ι δ σ :=
  match s.index_iter with
  | none => s
  | some is => fill cfg s is

/-- `self.received[order] = data`. -/
def receive (s : ParallelEnqueuer ι δ σ) (order : ℕ) (data : δ) : List (ℕ × δ) :=
  (order, data) :: s.received.eraseP fun x => x.1 == order

/-- The next action of the main thread; `none` while it is blocked, or when it has returned. -/
def main (s : ParallelEnqueuer ι δ σ) : Option (ParallelEnqueuer ι δ σ) :=
  match s.pc with
  | .epoch_start =>
    some { fill_requests cfg { s with index_iter := some (cfg.yield_epoch s.sampler).1 } with
      pc := .loop }
  | .loop =>
    match s.requested with
    | [] => some { s with
        epoch_ends := s.epoch_ends + 1
        pc := if cfg.repeats then .epoch_start else .finished }
    | target :: requested => some { s with requested := requested, pc := .waiting target }
  | .waiting target =>
    match s.received.lookup target with
    | some data => some { fill_requests cfg { s with
          received := s.received.eraseP fun x => x.1 == target } with
        yielded := s.yielded ++ [data]
        pc := .suspended }
    | none =>
      match s.answers with
      | [] => none
      | none :: answers => some { s with answers := answers, pc := .failed }
      | some (data, order) :: answers =>
        some { s with answers := answers, received := s.receive order data }
  | .suspended => some { s with pc := .loop }
  | .finished => none
  | .failed => none

/-- The next action of a worker. -/
def work (s : ParallelEnqueuer ι δ σ) (j : ℕ) : Option (ParallelEnqueuer ι δ σ) :=
  match s.workers[j]? with
  | some .idle =>
    match s.queries with
    | [] => none
    | none :: queries => some { s with
        queries := queries
        answers := s.answers ++ [none]
        workers := s.workers.set j .exited }
    | some (i, order) :: queries => some { s with
        queries := queries
        workers := s.workers.set j (.busy i order) }
  | some (.busy i order) => some { s with
      answers := s.answers ++ [some (cfg.sequence i, order)]
      workers := s.workers.set j .idle }
  | _ => none

/-- An action of a party; the consumer asks for the next batch as part of `main`. -/
inductive Event where
  | main
  | work (j : ℕ)
  /-- `data()` is called again. -/
  | data
  | stop
  deriving DecidableEq

/-- After `stop()` there are no more calls to `data()`. -/
def step (s : ParallelEnqueuer ι δ σ) : Event → Option (ParallelEnqueuer ι δ σ)
  | .main => if s.stopped then none else main cfg s
  | .work j => work cfg s j
  | .data =>
    if s.stopped = false ∧ s.pc = .finished then some { s with pc := .epoch_start } else none
  | .stop =>
    if s.stopped then none
    else some { s with
      stopped := true
      queries := s.queries ++ List.replicate s.workers.length none }

/-- The orders of the requests whose data is not yet yielded: asked, being read, answered and
    received. -/
def in_flight (s : ParallelEnqueuer ι δ σ) : List ℕ :=
  s.queries.filterMap (Option.map Prod.snd) ++
  s.workers.filterMap Worker.reading ++
  s.answers.filterMap (Option.map Prod.snd) ++
  s.received.map Prod.fst

/-! ### Filling the queue -/

variable {cfg : Loader ι δ σ} {s t : ParallelEnqueuer ι δ σ} {asked : List ι} {s₀ : σ}

/-- Request the indices `more`. -/
def requesting (s : ParallelEnqueuer ι δ σ) (more : List ι) : ParallelEnqueuer ι δ σ :=
  { s with
    queries := s.queries ++ (more.zipIdx s.order).map some
    requested := s.requested ++ List.range' s.order more.length
    order := s.order + more.length }

theorem fill_spec {is : List ι} (hle : s.requested.length ≤ cfg.max_queue_size) :
    ∃ more rest, is = more ++ rest ∧ s.requested.length + more.length ≤ cfg.max_queue_size ∧
      ((rest = [] ∧ fill cfg s is = { s.requesting more with
          index_iter := none, sampler := (cfg.yield_epoch s.sampler).2 }) ∨
        (s.requested.length + more.length = cfg.max_queue_size ∧
          fill cfg s is = { s.requesting more with index_iter := some rest })) := by
  induction is generalizing s with
  | nil =>
    refine ⟨[], [], rfl, hle, ?_⟩
    rw [fill]
    split_ifs with hlt
    · exact .inl ⟨rfl, by simp [requesting]⟩
    · exact .inr ⟨by simp; omega, by simp [requesting]⟩
  | cons i is ih =>
    rw [fill]
    split_ifs with hlt
    · obtain ⟨more, rest, rfl, hmore, hfill⟩ := ih (s := { s with
        queries := s.queries ++ [some (i, s.order)]
        requested := s.requested ++ [s.order]
        order := s.order + 1 }) (by simp; omega)
      have hreq : ({ s with
          queries := s.queries ++ [some (i, s.order)]
          requested := s.requested ++ [s.order]
          order := s.order + 1 } : ParallelEnqueuer ι δ σ).requesting more =
          s.requesting (i :: more) := by
        simp [requesting, List.range'_succ, List.zipIdx_cons]
        omega
      rw [hreq] at hfill
      simp only [List.length_append, List.length_singleton] at hmore hfill
      refine ⟨i :: more, rest, rfl, by rw [List.length_cons]; omega, ?_⟩
      rcases hfill with ⟨hrest, hfill⟩ | ⟨hlen, hfill⟩
      · exact .inl ⟨hrest, hfill⟩
      · exact .inr ⟨by rw [List.length_cons]; omega, hfill⟩
    · exact ⟨[], i :: is, rfl, hle, .inr ⟨by simp; omega, by simp [requesting]⟩⟩

/-- Filling the queue does not look at what was yielded. -/
theorem fill_requests_yielded (l : List δ) (p : Pc) :
    ({ fill_requests cfg s with yielded := l, pc := p } : ParallelEnqueuer ι δ σ) =
      fill_requests cfg { s with yielded := l, pc := p } := by
  have hfill : ∀ (is : List ι) (s : ParallelEnqueuer ι δ σ),
      ({ fill cfg s is with yielded := l, pc := p } : ParallelEnqueuer ι δ σ) =
        fill cfg { s with yielded := l, pc := p } is := by
    intro is
    induction is with
    | nil =>
      intro s
      simp only [fill]
      split_ifs <;> rfl
    | cons i is ih =>
      intro s
      simp only [fill]
      split_ifs
      · exact ih _
      · rfl
  cases hiter : s.index_iter with
  | none => simp only [fill_requests, hiter]
  | some is =>
    simpa only [fill_requests, hiter] using hfill is s

/-! ### What is in flight -/

/-- The requests so far are those of `asked`; the data of the first ones was yielded, in order, and
    each of the others is in flight exactly once, with the index or the data that belongs to it. -/
structure Flight (cfg : Loader ι δ σ) (s : ParallelEnqueuer ι δ σ) (asked : List ι) : Prop where
  order : s.order = asked.length
  yielded_le : s.yielded.length ≤ asked.length
  yielded : s.yielded = (asked.take s.yielded.length).map cfg.sequence
  in_flight : s.in_flight.Perm
    (List.range' s.yielded.length (asked.length - s.yielded.length))
  queries : ∀ i o, some (i, o) ∈ s.queries → asked[o]? = some i
  workers : ∀ i o, .busy i o ∈ s.workers → asked[o]? = some i
  answers : ∀ d o, some (d, o) ∈ s.answers → asked[o]?.map cfg.sequence = some d
  received : ∀ o d, (o, d) ∈ s.received → asked[o]?.map cfg.sequence = some d
  running : s.stopped = false → none ∉ s.queries ∧ none ∉ s.answers ∧ .exited ∉ s.workers

theorem getElem?_append_of_eq_some {α : Type} {l l' : List α} {o : ℕ} {a : α}
    (h : l[o]? = some a) : (l ++ l')[o]? = some a := by
  obtain ⟨hlt, -⟩ := List.getElem?_eq_some_iff.mp h
  rw [List.getElem?_append_left hlt, h]

theorem map_append_of_eq_some {o : ℕ} {d : δ} {more : List ι}
    (h : asked[o]?.map cfg.sequence = some d) :
    (asked ++ more)[o]?.map cfg.sequence = some d := by
  obtain ⟨i, hi, rfl⟩ := Option.map_eq_some_iff.mp h
  rw [getElem?_append_of_eq_some hi, Option.map_some]

theorem in_flight_requesting (s : ParallelEnqueuer ι δ σ) (more : List ι) :
    (s.requesting more).in_flight.Perm (s.in_flight ++ List.range' s.order more.length) := by
  have hmore : ((more.zipIdx s.order).map some).filterMap (Option.map Prod.snd) =
      List.range' s.order more.length := by
    rw [List.filterMap_map, ← List.zipIdx_map_snd]
    exact congrFun List.filterMap_eq_map (more.zipIdx s.order)
  refine List.perm_iff_count.mpr fun o => ?_
  simp only [in_flight, ParallelEnqueuer.requesting, List.filterMap_append, hmore,
    List.count_append]
  omega

theorem Flight.requesting (h : Flight cfg s asked) (more : List ι) :
    Flight cfg (s.requesting more) (asked ++ more) := by
  have hle := h.yielded_le
  refine ⟨?_, ?_, ?_, ?_, ?_, ?_, ?_, ?_, ?_⟩
  · rw [ParallelEnqueuer.requesting, List.length_append, h.order]
  · rw [List.length_append]
    exact hle.trans (Nat.le_add_right _ _)
  · exact h.yielded.trans (congrArg _ (List.take_append_of_le_length hle).symm)
  · refine (in_flight_requesting s more).trans ((h.in_flight.append_right _).trans ?_)
    have hend : s.order = s.yielded.length + 1 * (asked.length - s.yielded.length) := by
      rw [h.order]
      omega
    rw [hend, List.range'_append, List.length_append, ← Nat.sub_add_comm hle]
    exact List.Perm.refl _
  · intro i o hmem
    rcases List.mem_append.mp hmem with hmem | hmem
    · exact getElem?_append_of_eq_some (h.queries i o hmem)
    · rw [h.order] at hmem
      obtain ⟨x, hx, hio⟩ := List.mem_map.mp hmem
      cases hio
      rw [List.mem_zipIdx_iff_le_and_getElem?_sub] at hx
      rw [List.getElem?_append_right hx.1]
      exact hx.2
  · exact fun i o hmem => getElem?_append_of_eq_some (h.workers i o hmem)
  · exact fun d o hmem => map_append_of_eq_some (h.answers d o hmem)
  · exact fun o d hmem => map_append_of_eq_some (h.received o d hmem)
  · intro hstop
    obtain ⟨hq, ha, hw⟩ := h.running hstop
    refine ⟨fun hmem => ?_, ha, hw⟩
    rcases List.mem_append.mp hmem with hmem | hmem
    · exact hq hmem
    · simp at hmem

/-! ### Where the main thread is -/

/-- The indices asked for and those that the iterator still yields are those of the epochs so far
    and this one. -/
def InEpoch (cfg : Loader ι δ σ) (s₀ : σ) (s : ParallelEnqueuer ι δ σ) (asked : List ι) : Prop :=
  match s.index_iter with
  | some rest => asked ++ rest = (cfg.epochs s₀ (s.epoch_ends + 1)).1 ∧
      s.sampler = (cfg.epochs s₀ s.epoch_ends).2
  | none => asked = (cfg.epochs s₀ (s.epoch_ends + 1)).1 ∧
      s.sampler = (cfg.epochs s₀ (s.epoch_ends + 1)).2

/-- In an epoch, with as many requests as there may be. -/
structure Ready (cfg : Loader ι δ σ) (s₀ : σ) (s : ParallelEnqueuer ι δ σ) (asked : List ι) :
    Prop where
  epoch : InEpoch cfg s₀ s asked
  requested : s.requested = List.range' s.yielded.length (asked.length - s.yielded.length)
  bound : s.requested.length ≤ cfg.max_queue_size
  full : s.index_iter = none ∨ s.requested.length = cfg.max_queue_size

/-- In an epoch, waiting for the data of the next request. -/
structure Waits (cfg : Loader ι δ σ) (s₀ : σ) (s : ParallelEnqueuer ι δ σ) (asked : List ι)
    (target : ℕ) : Prop where
  epoch : InEpoch cfg s₀ s asked
  next : target = s.yielded.length
  target_lt : target < asked.length
  requested : s.requested = List.range' (target + 1) (asked.length - (target + 1))
  bound : s.requested.length < cfg.max_queue_size

/-- Between two epochs. -/
structure Between (cfg : Loader ι δ σ) (s₀ : σ) (s : ParallelEnqueuer ι δ σ) (asked : List ι) :
    Prop where
  all_asked : asked = (cfg.epochs s₀ s.epoch_ends).1
  sampler : s.sampler = (cfg.epochs s₀ s.epoch_ends).2
  requested : s.requested = []
  yielded : s.yielded.length = asked.length

def AtPc (cfg : Loader ι δ σ) (s₀ : σ) (s : ParallelEnqueuer ι δ σ) (asked : List ι) : Prop :=
  match s.pc with
  | .epoch_start => Between cfg s₀ s asked
  | .loop => Ready cfg s₀ s asked
  | .waiting target => Waits cfg s₀ s asked target
  | .suspended => Ready cfg s₀ s asked
  | .finished => Between cfg s₀ s asked
  | .failed => False

/-- The invariant of every run. -/
def Inv (cfg : Loader ι δ σ) (s₀ : σ) (s : ParallelEnqueuer ι δ σ) : Prop :=
  ∃ asked, Flight cfg s asked ∧ AtPc cfg s₀ s asked

theorem fill_requests_spec (h : Flight cfg s asked) (hepoch : InEpoch cfg s₀ s asked)
    (hreq : s.requested = List.range' s.yielded.length (asked.length - s.yielded.length))
    (hbound : s.requested.length ≤ cfg.max_queue_size) :
    ∃ more iter sampler,
      fill_requests cfg s = { s.requesting more with index_iter := iter, sampler := sampler } ∧
      Flight cfg (fill_requests cfg s) (asked ++ more) ∧
      Ready cfg s₀ (fill_requests cfg s) (asked ++ more) ∧
      s.index_iter.getD [] = more ++ iter.getD [] := by
  have hrange : ∀ more : List ι, (s.requesting more).requested =
      List.range' s.yielded.length ((asked ++ more).length - s.yielded.length) := by
    intro more
    have hle := h.yielded_le
    have hend : s.order = s.yielded.length + 1 * (asked.length - s.yielded.length) := by
      rw [h.order]
      omega
    rw [requesting, hreq, hend, List.range'_append, List.length_append, ← Nat.sub_add_comm hle]
  cases hiter : s.index_iter with
  | none =>
    have hfill : fill_requests cfg s = s := by rw [fill_requests, hiter]
    refine ⟨[], none, s.sampler, ?_, ?_, ?_, rfl⟩
    · rw [hfill]
      simp [requesting, ← hiter]
    · rw [hfill, List.append_nil]
      exact h
    · rw [hfill, List.append_nil]
      exact ⟨hepoch, hreq, hbound, .inl hiter⟩
  | some is =>
    have hfill : fill_requests cfg s = fill cfg s is := by rw [fill_requests, hiter]
    rw [InEpoch, hiter] at hepoch
    obtain ⟨hasked, hsampler⟩ := hepoch
    obtain ⟨more, rest, rfl, hmore, hspec⟩ := @fill_spec _ _ _ cfg s is hbound
    have hlength : (s.requesting more).requested.length = s.requested.length + more.length := by
      simp [requesting]
    have hflight := h.requesting more
    rw [← List.append_assoc] at hasked
    rcases hspec with ⟨rfl, heq⟩ | ⟨hfull, heq⟩
    · rw [List.append_nil] at hasked
      refine ⟨more, none, _, hfill.trans heq, ?_, ?_, by simp⟩
      · rw [hfill, heq]
        exact ⟨hflight.1, hflight.2, hflight.3, hflight.4, hflight.5, hflight.6, hflight.7,
          hflight.8, hflight.9⟩
      · rw [hfill, heq]
        refine ⟨⟨hasked, ?_⟩, hrange more, hlength.trans_le hmore, .inl rfl⟩
        rw [hsampler]
        rfl
    · refine ⟨more, some rest, s.sampler, hfill.trans heq, ?_, ?_, by simp⟩
      · rw [hfill, heq]
        exact ⟨hflight.1, hflight.2, hflight.3, hflight.4, hflight.5, hflight.6, hflight.7,
          hflight.8, hflight.9⟩
      · rw [hfill, heq]
        exact ⟨⟨hasked, hsampler⟩, hrange more, hlength.trans_le hmore, .inr (hlength.trans hfull)⟩

/-! ### What one action preserves -/

theorem Flight.nodup (h : Flight cfg s asked) : s.in_flight.Nodup :=
  h.in_flight.nodup_iff.mpr List.nodup_range'

/-- The entry of a key, put in front of the others. -/
theorem perm_cons_eraseP {l : List (ℕ × δ)} {o : ℕ} {d : δ} (h : l.lookup o = some d) :
    l.Perm ((o, d) :: l.eraseP fun x => x.1 == o) := by
  induction l with
  | nil => cases h
  | cons x l ih =>
    rw [List.lookup_cons] at h
    by_cases hx : o = x.1
    · rw [beq_iff_eq.mpr hx] at h
      cases h
      subst hx
      simp
    · rw [beq_eq_false_iff_ne.mpr hx] at h
      rw [List.eraseP_cons_of_neg (by simpa using fun h => hx h.symm)]
      exact ((ih h).cons x).trans (List.Perm.swap _ _ _)

/-- Taking the data of the next request out of what was received, and yielding it. -/
theorem Flight.yield (h : Flight cfg s asked) {data : δ}
    (hdata : s.received.lookup s.yielded.length = some data) (p : Pc) :
    Flight cfg { s with
      received := s.received.eraseP fun x => x.1 == s.yielded.length
      yielded := s.yielded ++ [data]
      pc := p } asked := by
  have hperm := perm_cons_eraseP hdata
  have hmem := h.received _ _ (hperm.mem_iff.mpr (List.mem_cons_self ..))
  obtain ⟨i, hi, rfl⟩ := Option.map_eq_some_iff.mp hmem
  obtain ⟨hlt, hi'⟩ := List.getElem?_eq_some_iff.mp hi
  refine ⟨h.order, ?_, ?_, ?_, h.queries, h.workers, h.answers, fun o d hod => ?_, h.running⟩
  · rw [List.length_append, List.length_singleton]
    exact hlt
  · have htake : asked.take (s.yielded.length + 1) = asked.take s.yielded.length ++ [i] := by
      rw [List.take_succ_eq_append_getElem hlt, hi']
    rw [List.length_append, List.length_singleton, htake, List.map_append, ← h.yielded]
    rfl
  · have hflight := h.in_flight
    have hlen : asked.length - s.yielded.length = asked.length - (s.yielded.length + 1) + 1 := by
      omega
    rw [hlen, List.range'_succ] at hflight
    rw [List.length_append, List.length_singleton]
    refine List.Perm.cons_inv (a := s.yielded.length) (List.Perm.trans ?_ hflight)
    refine List.perm_iff_count.mpr fun o => ?_
    have hcount := List.perm_iff_count.mp (hperm.map Prod.fst) o
    rw [List.map_cons] at hcount
    simp only [ParallelEnqueuer.in_flight, List.count_append, List.count_cons] at hcount ⊢
    omega
  · exact h.received o d (List.mem_of_mem_eraseP hod)

/-- Receiving an answer, whichever it is. -/
theorem Flight.receive (h : Flight cfg s asked) {data : δ} {o : ℕ}
    {answers : List (Option (δ × ℕ))} (hanswers : s.answers = some (data, o) :: answers) :
    Flight cfg { s with answers := answers, received := s.receive o data } asked := by
  have hnodup := h.nodup
  have hfresh : o ∉ s.received.map Prod.fst := by
    intro hmem
    rw [ParallelEnqueuer.in_flight, List.nodup_append] at hnodup
    refine hnodup.2.2 o ?_ o hmem rfl
    rw [hanswers]
    simp
  have herase : (s.received.eraseP fun x => x.1 == o) = s.received := by
    refine List.eraseP_of_forall_not fun x hx hxo => hfresh ?_
    exact List.mem_map.mpr ⟨x, hx, by simpa using hxo⟩
  refine ⟨h.order, h.yielded_le, h.yielded, ?_, h.queries, h.workers, fun d o' hmem => ?_,
    fun o' d hmem => ?_, fun hstop => ?_⟩
  · refine List.Perm.trans (List.perm_iff_count.mpr fun o' => ?_) h.in_flight
    simp only [ParallelEnqueuer.in_flight, ParallelEnqueuer.receive, herase, hanswers, List.map_cons,
      List.filterMap_cons_some (rfl : Option.map Prod.snd (some (data, o)) = some o),
      List.count_append, List.count_cons]
    omega
  · exact h.answers d o' (by rw [hanswers]; exact List.mem_cons_of_mem _ hmem)
  · rw [ParallelEnqueuer.receive, herase] at hmem
    rcases List.mem_cons.mp hmem with hmem | hmem
    · cases hmem
      exact h.answers data o (by rw [hanswers]; exact List.mem_cons_self ..)
    · exact h.received o' d hmem
  · obtain ⟨hq, ha, hw⟩ := h.running hstop
    rw [hanswers] at ha
    exact ⟨hq, fun hmem => ha (List.mem_cons_of_mem _ hmem), hw⟩

theorem filterMap_cons_toList {α γ : Type} (f : α → Option γ) (a : α) (l : List α) :
    (a :: l).filterMap f = (f a).toList ++ l.filterMap f := by
  cases hf : f a with
  | none => rw [List.filterMap_cons_none hf]; rfl
  | some b => rw [List.filterMap_cons_some hf]; rfl

theorem count_filterMap_set {α : Type} (f : α → Option ℕ) {l : List α} {j : ℕ} {w : α}
    (h : l[j]? = some w) (w' : α) (o : ℕ) :
    ((l.set j w').filterMap f).count o + (f w).toList.count o =
      (l.filterMap f).count o + (f w').toList.count o := by
  induction l generalizing j with
  | nil => cases h
  | cons a l ih =>
    rcases j with _ | j
    · cases h
      rw [List.set_cons_zero, filterMap_cons_toList, filterMap_cons_toList, List.count_append,
        List.count_append]
      omega
    · have hrest := ih (j := j) h
      rw [List.set_cons_succ, filterMap_cons_toList, filterMap_cons_toList, List.count_append,
        List.count_append]
      omega

/-- A worker takes a request or answers one. -/
theorem Flight.work (h : Flight cfg s asked) {j : ℕ} (hwork : work cfg s j = some t) :
    Flight cfg t asked := by
  rw [ParallelEnqueuer.work] at hwork
  cases hj : s.workers[j]? with
  | none => rw [hj] at hwork; cases hwork
  | some worker =>
    have hmemj := List.mem_of_getElem? hj
    rw [hj] at hwork
    cases worker with
    | exited => cases hwork
    | idle =>
      cases hqueries : s.queries with
      | nil => simp [hqueries] at hwork
      | cons query queries =>
        have hset := count_filterMap_set Worker.reading hj
        cases query with
        | none =>
          simp only [hqueries, Option.some_inj] at hwork
          subst hwork
          refine ⟨h.order, h.yielded_le, h.yielded, ?_, fun i o hmem => ?_, fun i o hmem => ?_,
            fun d o hmem => ?_, h.received, fun hstop => ?_⟩
          · refine List.Perm.trans (List.perm_iff_count.mpr fun o => ?_) h.in_flight
            have := hset .exited o
            simp only [ParallelEnqueuer.in_flight, hqueries, filterMap_cons_toList,
              List.filterMap_append, List.count_append, Worker.reading, Option.map_none,
              Option.toList_none, List.count_nil, List.filterMap_nil] at this ⊢
            omega
          · exact h.queries i o (by rw [hqueries]; exact List.mem_cons_of_mem _ hmem)
          · rcases List.mem_or_eq_of_mem_set hmem with hmem | hmem
            · exact h.workers i o hmem
            · cases hmem
          · rcases List.mem_append.mp hmem with hmem | hmem
            · exact h.answers d o hmem
            · simp at hmem
          · obtain ⟨hq, -, -⟩ := h.running hstop
            rw [hqueries] at hq
            exact absurd (List.mem_cons_self ..) hq
        | some query =>
          obtain ⟨i, order⟩ := query
          simp only [hqueries, Option.some_inj] at hwork
          subst hwork
          refine ⟨h.order, h.yielded_le, h.yielded, ?_, fun i o hmem => ?_, fun i' o hmem => ?_,
            h.answers, h.received, fun hstop => ?_⟩
          · refine List.Perm.trans (List.perm_iff_count.mpr fun o => ?_) h.in_flight
            have := hset (.busy i order) o
            simp only [ParallelEnqueuer.in_flight, hqueries, filterMap_cons_toList,
              List.count_append, Worker.reading, Option.map_some, Option.toList_some,
              Option.toList_none, List.count_nil] at this ⊢
            omega
          · exact h.queries i o (by rw [hqueries]; exact List.mem_cons_of_mem _ hmem)
          · rcases List.mem_or_eq_of_mem_set hmem with hmem | hmem
            · exact h.workers i' o hmem
            · cases hmem
              exact h.queries i order (by rw [hqueries]; exact List.mem_cons_self ..)
          · obtain ⟨hq, ha, hw⟩ := h.running hstop
            rw [hqueries] at hq
            refine ⟨fun hmem => hq (List.mem_cons_of_mem _ hmem), ha, fun hmem => ?_⟩
            rcases List.mem_or_eq_of_mem_set hmem with hmem | hmem
            · exact hw hmem
            · cases hmem
    | busy i order =>
      have hset := count_filterMap_set Worker.reading hj
      simp only [Option.some_inj] at hwork
      subst hwork
      have hi := h.workers i order hmemj
      refine ⟨h.order, h.yielded_le, h.yielded, ?_, h.queries, fun i' o hmem => ?_,
        fun d o hmem => ?_, h.received, fun hstop => ?_⟩
      · refine List.Perm.trans (List.perm_iff_count.mpr fun o => ?_) h.in_flight
        have := hset .idle o
        simp only [ParallelEnqueuer.in_flight, filterMap_cons_toList, List.filterMap_append,
          List.count_append, Worker.reading, Option.map_some, Option.toList_some,
          Option.toList_none, List.count_nil, List.filterMap_nil, List.append_nil] at this ⊢
        omega
      · rcases List.mem_or_eq_of_mem_set hmem with hmem | hmem
        · exact h.workers i' o hmem
        · cases hmem
      · rcases List.mem_append.mp hmem with hmem | hmem
        · exact h.answers d o hmem
        · cases List.mem_singleton.mp hmem
          rw [hi, Option.map_some]
      · obtain ⟨hq, ha, hw⟩ := h.running hstop
        refine ⟨hq, fun hmem => ?_, fun hmem => ?_⟩
        · rcases List.mem_append.mp hmem with hmem | hmem
          · exact ha hmem
          · cases List.mem_singleton.mp hmem
        · rcases List.mem_or_eq_of_mem_set hmem with hmem | hmem
          · exact hw hmem
          · cases hmem

theorem work_frame {j : ℕ} (hwork : work cfg s j = some t) : ∃ queries answers workers,
    t = { s with queries := queries, answers := answers, workers := workers } := by
  rw [work] at hwork
  split at hwork
  · split at hwork
    · cases hwork
    · cases hwork
      exact ⟨_, _, _, rfl⟩
    · cases hwork
      exact ⟨_, _, _, rfl⟩
  · cases hwork
    exact ⟨_, _, _, rfl⟩
  · cases hwork

/-- What the main thread can do. -/
theorem main_cases (hmain : main cfg s = some t) :
    (s.pc = .epoch_start ∧
      t = { fill_requests cfg { s with index_iter := some (cfg.yield_epoch s.sampler).1 } with
        pc := .loop }) ∨
    (s.pc = .loop ∧ s.requested = [] ∧ t = { s with
        epoch_ends := s.epoch_ends + 1
        pc := if cfg.repeats then .epoch_start else .finished }) ∨
    (s.pc = .loop ∧ ∃ target requested, s.requested = target :: requested ∧
      t = { s with requested := requested, pc := .waiting target }) ∨
    (∃ target data, s.pc = .waiting target ∧ s.received.lookup target = some data ∧
      t = fill_requests cfg { s with
        received := s.received.eraseP fun x => x.1 == target
        yielded := s.yielded ++ [data]
        pc := .suspended }) ∨
    ((∃ target, s.pc = .waiting target) ∧ none ∈ s.answers) ∨
    (∃ target data order answers, s.pc = .waiting target ∧
      s.answers = some (data, order) :: answers ∧
      t = { s with answers := answers, received := s.receive order data }) ∨
    (s.pc = .suspended ∧ t = { s with pc := .loop }) := by
  rw [main] at hmain
  split at hmain
  case h_1 hp => exact .inl ⟨hp, (Option.some.inj hmain).symm⟩
  case h_2 hp =>
    split at hmain
    case h_1 hreq => exact .inr (.inl ⟨hp, hreq, (Option.some.inj hmain).symm⟩)
    case h_2 target requested hreq =>
      exact .inr (.inr (.inl ⟨hp, target, requested, hreq, (Option.some.inj hmain).symm⟩))
  case h_3 target hp =>
    split at hmain
    case h_1 data hlookup =>
      exact .inr (.inr (.inr (.inl ⟨target, data, hp, hlookup,
        (Option.some.inj hmain).symm.trans (fill_requests_yielded _ _)⟩)))
    case h_2 =>
      split at hmain
      case h_1 => cases hmain
      case h_2 hanswers =>
        exact .inr (.inr (.inr (.inr (.inl ⟨⟨target, hp⟩, by rw [hanswers]; simp⟩))))
      case h_3 data order answers hanswers =>
        exact .inr (.inr (.inr (.inr (.inr (.inl ⟨target, data, order, answers, hp, hanswers,
          (Option.some.inj hmain).symm⟩)))))
  case h_4 hp =>
    exact .inr (.inr (.inr (.inr (.inr (.inr ⟨hp, (Option.some.inj hmain).symm⟩)))))
  case h_5 => cases hmain
  case h_6 => cases hmain

/-- An epoch starts. -/
theorem Between.start (h : Flight cfg s asked) (hpc : Between cfg s₀ s asked) : Inv cfg s₀
    { fill_requests cfg { s with index_iter := some (cfg.yield_epoch s.sampler).1 } with
      pc := .loop } := by
  have hstart : InEpoch cfg s₀ { s with index_iter := some (cfg.yield_epoch s.sampler).1 } asked := by
    refine ⟨?_, hpc.sampler⟩
    rw [hpc.all_asked, hpc.sampler]
    rfl
  obtain ⟨more, iter, sampler, -, hflight, hready, -⟩ :=
    fill_requests_spec (s := { s with index_iter := some (cfg.yield_epoch s.sampler).1 })
      ⟨h.1, h.2, h.3, h.4, h.5, h.6, h.7, h.8, h.9⟩ hstart
      (by rw [hpc.requested, hpc.yielded, Nat.sub_self]; rfl)
      (by rw [hpc.requested]; exact Nat.zero_le _)
  refine ⟨asked ++ more, ⟨hflight.1, hflight.2, hflight.3, hflight.4, hflight.5, hflight.6,
    hflight.7, hflight.8, hflight.9⟩, ⟨hready.1, hready.2, hready.3, hready.4⟩⟩

/-- With no request left the epoch is over. -/
theorem Ready.between (h : Flight cfg s asked) (hpc : Ready cfg s₀ s asked)
    (hmax : 0 < cfg.max_queue_size) (hnil : s.requested = []) {p : Pc} :
    Between cfg s₀ { s with epoch_ends := s.epoch_ends + 1, pc := p } asked := by
  have hiter : s.index_iter = none := by
    rcases hpc.full with hnone | hfull
    · exact hnone
    · rw [hnil] at hfull
      exact absurd hfull (Nat.ne_of_lt hmax)
  have hepoch := hpc.epoch
  rw [InEpoch, hiter] at hepoch
  refine ⟨hepoch.1, hepoch.2, hnil, ?_⟩
  have hreq := hpc.requested
  rw [hnil] at hreq
  have hzero := List.range'_eq_nil_iff.mp hreq.symm
  exact le_antisymm h.yielded_le (Nat.le_of_sub_eq_zero hzero)

/-- The next request is waited for. -/
theorem Ready.waits (hpc : Ready cfg s₀ s asked) {target : ℕ}
    {requested : List ℕ} (hcons : s.requested = target :: requested) :
    Waits cfg s₀ { s with requested := requested, pc := .waiting target } asked target := by
  have hreq := hpc.requested
  have hbound := hpc.bound
  rw [hcons, List.length_cons] at hbound
  rw [hcons] at hreq
  obtain ⟨n, hn⟩ : ∃ n, asked.length - s.yielded.length = n + 1 := by
    refine Nat.exists_eq_succ_of_ne_zero fun hzero => ?_
    rw [hzero] at hreq
    cases hreq
  rw [hn, List.range'_succ, List.cons.injEq] at hreq
  obtain ⟨rfl, rfl⟩ := hreq
  refine ⟨hpc.epoch, rfl, by omega, ?_, hbound⟩
  rw [show asked.length - (s.yielded.length + 1) = n by omega]

/-- The data of the next request is there. -/
theorem Waits.yields (h : Flight cfg s asked) {target : ℕ} (hpc : Waits cfg s₀ s asked target)
    {data : δ} (hdata : s.received.lookup target = some data) :
    Inv cfg s₀ (fill_requests cfg { s with
      received := s.received.eraseP fun x => x.1 == target
      yielded := s.yielded ++ [data]
      pc := .suspended }) := by
  obtain rfl := hpc.next
  have hlength : (s.yielded ++ [data]).length = s.yielded.length + 1 := by simp
  obtain ⟨more, iter, sampler, heq, hflight, hready, -⟩ :=
    fill_requests_spec (h.yield hdata .suspended) (show InEpoch cfg s₀ _ asked from hpc.epoch)
      (by rw [hlength]; exact hpc.requested) (Nat.le_of_lt hpc.bound)
  refine ⟨asked ++ more, hflight, ?_⟩
  have hsuspended : (fill_requests cfg { s with
      received := s.received.eraseP fun x => x.1 == s.yielded.length
      yielded := s.yielded ++ [data]
      pc := .suspended }).pc = .suspended := by
    rw [heq]
    rfl
  rw [AtPc, hsuspended]
  exact hready

theorem Inv.main (hmax : 0 < cfg.max_queue_size) (h : Inv cfg s₀ s) (hstop : s.stopped = false)
    (hmain : main cfg s = some t) : Inv cfg s₀ t := by
  obtain ⟨asked, hflight, hpc⟩ := h
  rw [AtPc] at hpc
  rcases main_cases hmain with ⟨hp, rfl⟩ | ⟨hp, hreq, rfl⟩ | ⟨hp, target, requested, hreq, rfl⟩ |
    ⟨target, data, hp, hdata, rfl⟩ | ⟨⟨target, hp⟩, hnone⟩ |
    ⟨target, data, order, answers, hp, hanswers, rfl⟩ | ⟨hp, rfl⟩
  all_goals rw [hp] at hpc
  · exact hpc.start hflight
  · have hbetween := hpc.between hflight hmax hreq
      (p := if cfg.repeats then .epoch_start else .finished)
    refine ⟨asked, ⟨hflight.1, hflight.2, hflight.3, hflight.4, hflight.5, hflight.6,
      hflight.7, hflight.8, hflight.9⟩, ?_⟩
    rw [AtPc]
    cases hr : cfg.repeats <;> simp only [hr, if_true, Bool.false_eq_true, if_false] at hbetween ⊢
    · exact hbetween
    · exact hbetween
  · exact ⟨asked, ⟨hflight.1, hflight.2, hflight.3, hflight.4, hflight.5, hflight.6, hflight.7,
      hflight.8, hflight.9⟩, hpc.waits hreq⟩
  · exact hpc.yields hflight hdata
  · exact absurd hnone (hflight.running hstop).2.1
  · refine ⟨asked, hflight.receive hanswers, ?_⟩
    rw [AtPc]
    simp only [hp]
    exact ⟨hpc.1, hpc.2, hpc.3, hpc.4, hpc.5⟩
  · exact ⟨asked, ⟨hflight.1, hflight.2, hflight.3, hflight.4, hflight.5, hflight.6, hflight.7,
      hflight.8, hflight.9⟩, ⟨hpc.1, hpc.2, hpc.3, hpc.4⟩⟩

/-- What the workers and `stop` change is of no importance to the main thread. -/
theorem AtPc.others (h : AtPc cfg s₀ s asked) (queries : List (Option (ι × ℕ)))
    (answers : List (Option (δ × ℕ))) (workers : List (Worker ι)) (stopped : Bool) :
    AtPc cfg s₀ { s with
      queries := queries, answers := answers, workers := workers, stopped := stopped } asked := by
  rw [AtPc] at h ⊢
  cases hp : s.pc <;> simp only [hp] at h ⊢
  · exact ⟨h.1, h.2, h.3, h.4⟩
  · exact ⟨h.1, h.2, h.3, h.4⟩
  · exact ⟨h.1, h.2, h.3, h.4, h.5⟩
  · exact ⟨h.1, h.2, h.3, h.4⟩
  · exact ⟨h.1, h.2, h.3, h.4⟩

/-- The messages that `stop` sends carry no request. -/
theorem Flight.stop (h : Flight cfg s asked) : Flight cfg { s with
    stopped := true
    queries := s.queries ++ List.replicate s.workers.length none } asked := by
  have hnone : (List.replicate s.workers.length none).filterMap
      (Option.map (Prod.snd : ι × ℕ → ℕ)) = [] := by
    rw [List.filterMap_eq_nil_iff]
    intro q hq
    rw [List.eq_of_mem_replicate hq]
    rfl
  refine ⟨h.order, h.yielded_le, h.yielded, ?_, fun i o hmem => ?_, h.workers, h.answers,
    h.received, fun hstop => by cases hstop⟩
  · have hflight := h.in_flight
    rwa [ParallelEnqueuer.in_flight, List.filterMap_append, hnone, List.append_nil]
  · rcases List.mem_append.mp hmem with hmem | hmem
    · exact h.queries i o hmem
    · cases List.eq_of_mem_replicate hmem

theorem Inv.step (hmax : 0 < cfg.max_queue_size) (h : Inv cfg s₀ s) {e : Event}
    (hstep : step cfg s e = some t) : Inv cfg s₀ t := by
  cases e with
  | main =>
    rw [ParallelEnqueuer.step] at hstep
    split_ifs at hstep with hstop
    exact h.main hmax (by simpa using hstop) hstep
  | work j =>
    obtain ⟨asked, hflight, hpc⟩ := h
    refine ⟨asked, hflight.work hstep, ?_⟩
    obtain ⟨queries, answers, workers, rfl⟩ := work_frame hstep
    exact hpc.others _ _ _ _
  | data =>
    rw [ParallelEnqueuer.step] at hstep
    split_ifs at hstep with hfinished
    cases hstep
    obtain ⟨asked, hflight, hpc⟩ := h
    rw [AtPc, hfinished.2] at hpc
    exact ⟨asked, ⟨hflight.1, hflight.2, hflight.3, hflight.4, hflight.5, hflight.6, hflight.7,
      hflight.8, hflight.9⟩, ⟨hpc.1, hpc.2, hpc.3, hpc.4⟩⟩
  | stop =>
    rw [ParallelEnqueuer.step] at hstep
    split_ifs at hstep
    cases hstep
    obtain ⟨asked, hflight, hpc⟩ := h
    refine ⟨asked, hflight.stop, ?_⟩
    exact hpc.others _ _ _ _

end ParallelEnqueuer
end Determined.Keras
