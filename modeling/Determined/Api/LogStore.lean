import Determined.Api.Pagination

/-! Streaming the logs of a trial (`LogStoreProcessor` of `internal/api/logs.go`, `TrialLogs` of
    `internal/api_trials.go`, `internal/db/postgres_trial_logs.go`).

    The store is the list of the trial's logs that pass the filters of the request, as they were
    added. A query sorts them by their time stamps; logs with one time stamp come in the order they
    were added. What else happens around a tick of the processor is an input: the logs added since
    the tick before, whether the request was canceled, and the errors of the calls it makes. -/

namespace Determined.Api
open Determined.Schemes

inductive OrderBy where
  | unspecified | asc | desc
  deriving DecidableEq, Repr

structure TrialLog where
  id : ℕ
  timestamp : ℤ
  message : String
  deriving DecidableEq, Repr

/-- One log may come before another. -/
def OrderBy.le : OrderBy → TrialLog → TrialLog → Prop
  | .unspecified, a, b | .asc, a, b => a.timestamp ≤ b.timestamp
  | .desc, a, b => b.timestamp ≤ a.timestamp

instance (order : OrderBy) : DecidableRel order.le := fun _ _ => by
  cases order <;> exact inferInstanceAs (Decidable (_ ≤ _))

/-- The logs in the order asked for. -/
def sorted (order : OrderBy) (store : List TrialLog) : List TrialLog :=
  store.insertionSort order.le

/-- `TrialLogs` of the database: the logs of a query with an offset and a limit. -/
def queryLogs (order : OrderBy) (store : List TrialLog) (offset limit : ℤ) : List TrialLog :=
  ((sorted order store).drop offset.toNat).take limit.toNat

structure TrialLogsRequest where
  offset : ℤ
  limit : ℤ
  follow : Bool
  orderBy : OrderBy
  deriving DecidableEq, Repr

inductive Status where
  | running
  | stopped
  | failed (message : String)
  deriving DecidableEq, Repr

/-- A processor, with the store it fetches from and the batches it has handed out. -/
structure LogStoreProcessor where
  store : List TrialLog
  req : LogsRequest
  sent : List (List TrialLog)
  status : Status

/-- What happens around a tick: the logs added before it, whether the context is canceled before and
    after the fetch, an error of the fetch, the answer of the check for termination, and an error of
    handing out the batch, with how many logs of it were handed out. -/
structure Tick where
  appended : List TrialLog
  canceled : Bool
  fetchError : Option String
  terminate : Except String Bool
  canceledAfter : Bool
  processError : Option (ℕ × String)

/-- The `fetch` of `TrialLogs`. -/
def fetch (batchSize : ℕ) (order : OrderBy) (store : List TrialLog) (lr : LogsRequest) :
    List TrialLog :=
  if lr.follow = true ∨ batchSize < lr.limit then queryLogs order store lr.offset batchSize
  else if lr.limit ≤ 0 then []
  else queryLogs order store lr.offset lr.limit

/-- `Receive` of a tick, by a processor that is still running. -/
def LogStoreProcessor.receive (batchSize : ℕ) (order : OrderBy) (l : LogStoreProcessor)
    (t : Tick) : LogStoreProcessor :=
  if t.canceled then { l with status := .stopped }
  else
    match t.fetchError with
    | some err => { l with status := .failed ("failed to fetch logs: " ++ err) }
    | none =>
      match fetch batchSize order l.store l.req with
      | [] =>
        if !l.req.follow then { l with status := .stopped }
        else
          match t.terminate with
          | .error err =>
            { l with status := .failed ("failed to check the termination status.: " ++ err) }
          | .ok true => { l with status := .stopped }
          | .ok false => l
      | log :: logs =>
        if t.canceledAfter then { l with status := .stopped }
        else
          let batch := log :: logs
          let req := { l.req with
            limit := l.req.limit - batch.length, offset := l.req.offset + batch.length }
          match t.processError with
          | some (n, err) =>
            { l with
              req, sent := l.sent ++ [batch.take n]
              status := .failed ("failed while processing batch: " ++ err) }
          | none =>
            { l with
              req, sent := l.sent ++ [batch]
              status := if !req.follow && req.limit ≤ 0 then .stopped else l.status }

/-- Logs are added, and then the processor gets its tick if it is still running. -/
def LogStoreProcessor.tick (batchSize : ℕ) (order : OrderBy) (l : LogStoreProcessor) (t : Tick) :
    LogStoreProcessor :=
  if l.status = .running then
    { l with store := l.store ++ t.appended }.receive batchSize order t
  else l

def LogStoreProcessor.run (batchSize : ℕ) (order : OrderBy) (l : LogStoreProcessor)
    (ts : List Tick) : LogStoreProcessor := ts.foldl (tick batchSize order) l

/-- `TrialLogs` of the API server, up to the start of the processor. -/
def trialLogs (store : List TrialLog) (req : TrialLogsRequest) : Except Fault LogStoreProcessor :=
  if ¬ 0 ≤ req.limit then .error (.invalidArgument "Limit must be >= 0")
  else if ¬ (req.limit = 0 ∨ req.follow = false) then
    .error (.invalidArgument "Limit cannot be specified when following")
  else
    match effectiveOffsetNLimit req.offset req.limit store.length with
    | none => .error .panic
    | some (offset, limit) => .ok ⟨store, ⟨offset, limit, req.follow⟩, [], .running⟩

/-! ### Adding logs -/

/-- What is added comes, in the order asked for, after all that is stored. -/
def ComesAfter (order : OrderBy) (store new : List TrialLog) : Prop :=
  ∀ a ∈ store, ∀ b ∈ new, order.le a b

theorem orderedInsert_append (order : OrderBy) (a : TrialLog) (l l' : List TrialLog)
    (h : ∀ b ∈ l', order.le a b) :
    (l ++ l').orderedInsert order.le a = l.orderedInsert order.le a ++ l' := by
  induction l with
  | nil =>
    cases l' with
    | nil => rfl
    | cons b l' => simp [h b (List.mem_cons_self ..)]
  | cons c l ih =>
    rw [List.cons_append, List.orderedInsert_cons, List.orderedInsert_cons, ih]
    split <;> rfl

/-- Logs that come after what is stored are added at the end. -/
theorem sorted_append {order : OrderBy} {store new : List TrialLog}
    (h : ComesAfter order store new) :
    sorted order (store ++ new) = sorted order store ++ sorted order new := by
  induction store with
  | nil => rfl
  | cons a store ih =>
    have hrest : ComesAfter order store new := fun b hb => h b (List.mem_cons_of_mem _ hb)
    have hnew : ∀ b ∈ sorted order new, order.le a b := fun b hb =>
      h a (List.mem_cons_self ..) b ((List.mem_insertionSort order.le).mp hb)
    rw [sorted, List.cons_append, List.insertionSort_cons, ← sorted, ih hrest,
      orderedInsert_append order a _ _ hnew]
    rfl

@[simp] theorem length_sorted (order : OrderBy) (store : List TrialLog) :
    (sorted order store).length = store.length :=
  List.length_insertionSort order.le store

/-! ### One tick -/

theorem queryLogs_eq (order : OrderBy) (store : List TrialLog) (i : ℕ) (limit : ℤ) :
    ∃ j, queryLogs order store i limit = between (sorted order store) i j ∧ i ≤ j ∧
      (j : ℤ) ≤ i + max limit 0 ∧ (i < j → j ≤ store.length) ∧
      (i = j → store.length ≤ i ∨ limit ≤ 0) := by
  have hlength : (queryLogs order store i limit).length = min limit.toNat (store.length - i) := by
    simp [queryLogs]
  refine ⟨i + (queryLogs order store i limit).length, ?_, by omega, by omega, by omega, by omega⟩
  rw [between, Nat.add_sub_cancel_left, hlength, queryLogs, Int.toNat_natCast,
    List.take_eq_take_iff, List.length_drop, length_sorted]
  omega

/-- What is fetched is a part of the logs, within the limit unless the request follows; and it is
    empty only at the end of the logs or of the limit. -/
theorem fetch_eq {batchSize : ℕ} (hbatch : 0 < batchSize) (order : OrderBy)
    (store : List TrialLog) (lr : LogsRequest) {i : ℕ} (hoffset : lr.offset = i) :
    ∃ j, fetch batchSize order store lr = between (sorted order store) i j ∧ i ≤ j ∧
      (i < j → j ≤ store.length) ∧ (lr.follow = false → (j : ℤ) ≤ i + max lr.limit 0) ∧
      (i = j → store.length ≤ i ∨ lr.follow = false ∧ lr.limit ≤ 0) := by
  simp only [fetch, hoffset]
  by_cases hfull : lr.follow = true ∨ batchSize < lr.limit
  · obtain ⟨j, hj, hij, hle, hlast, hempty⟩ := queryLogs_eq order store i batchSize
    rw [if_pos hfull]
    refine ⟨j, hj, hij, hlast, fun hfollow => ?_, fun h => .inl ?_⟩
    · have := hfull.resolve_left (by simp [hfollow])
      omega
    · have := hempty h
      omega
  · have hfollow : lr.follow = false := by
      simpa using (not_or.mp hfull).1
    rw [if_neg hfull]
    by_cases hlimit : lr.limit ≤ 0
    · rw [if_pos hlimit]
      exact ⟨i, by simp, le_rfl, by omega, fun _ => by omega, fun _ => .inr ⟨hfollow, hlimit⟩⟩
    · obtain ⟨j, hj, hij, hle, hlast, hempty⟩ := queryLogs_eq order store i lr.limit
      rw [if_neg hlimit]
      exact ⟨j, hj, hij, hlast, fun _ => hle, fun h => by have := hempty h; omega⟩

/-- Nothing goes wrong around a tick, and nobody cancels the request. -/
structure Tick.Smooth (t : Tick) : Prop where
  canceled : t.canceled = false
  fetchError : t.fetchError = none
  terminate : ∃ b, t.terminate = .ok b
  canceledAfter : t.canceledAfter = false
  processError : t.processError = none

/-- What a tick can do to a running processor at offset `i`. -/
inductive Ticked (order : OrderBy) (l : LogStoreProcessor) (t : Tick) (i : ℕ) :
    LogStoreProcessor → Prop
  | idle : l.req.follow = true → Ticked order l t i l
  | ended (status : Status) :
      (t.canceled = false → t.canceledAfter = false → status = .stopped →
        l.store.length ≤ i ∨ l.req.follow = false ∧ l.req.limit ≤ 0) →
      (t.Smooth → status = .stopped) → status ≠ .running → Ticked order l t i { l with status }
  | broken (j : ℕ) (req : LogsRequest) (message : String) :
      ¬ t.Smooth → i ≤ j → j ≤ l.store.length → req.follow = l.req.follow →
      (l.req.follow = false → (j : ℤ) ≤ i + max l.req.limit 0) →
      Ticked order l t i
        { l with
          req, sent := l.sent ++ [between (sorted order l.store) i j], status := .failed message }
  | handedOut (j : ℕ) :
      i < j → j ≤ l.store.length → (l.req.follow = false → (j : ℤ) ≤ i + max l.req.limit 0) →
      Ticked order l t i
        { l with
          req := { l.req with limit := l.req.limit - (j - i), offset := j }
          sent := l.sent ++ [between (sorted order l.store) i j]
          status := if !l.req.follow && l.req.limit - (j - i) ≤ 0 then .stopped else l.status }

theorem receive_ticked {batchSize : ℕ} (hbatch : 0 < batchSize) (order : OrderBy)
    (l : LogStoreProcessor) (t : Tick) {i : ℕ} (hoffset : l.req.offset = i) :
    Ticked order l t i (l.receive batchSize order t) := by
  obtain ⟨j, hj, hij, hlast, hlimit, hempty⟩ := fetch_eq hbatch order l.store l.req hoffset
  simp only [LogStoreProcessor.receive]
  by_cases hcanceled : t.canceled = true
  · rw [if_pos hcanceled]
    exact .ended .stopped (fun h => by simp [hcanceled] at h) (fun _ => rfl) (by simp)
  rw [if_neg hcanceled]
  cases herror : t.fetchError with
  | some err =>
    exact .ended (.failed _) (by simp) (fun h => by simp [h.fetchError] at herror) (by simp)
  | none =>
    simp only []
    rw [hj]
    cases hlogs : between (sorted order l.store) i j with
    | nil =>
      have hij' : i = j := by
        by_contra hne
        have hlength := length_between (sorted order l.store) (i := i) (j := j)
          (by rw [length_sorted]; exact hlast (by omega))
        rw [hlogs, List.length_nil] at hlength
        omega
      have hdone := hempty hij'
      simp only []
      cases hfollow : l.req.follow with
      | false =>
        exact .ended .stopped (fun _ _ _ => hfollow ▸ hdone) (fun _ => rfl) (by simp)
      | true =>
        simp only [Bool.not_true, Bool.false_eq_true, if_false]
        cases hterminate : t.terminate with
        | error err =>
          refine .ended (.failed _) (by simp) (fun h => ?_) (by simp)
          obtain ⟨b, hb⟩ := h.terminate
          simp [hb] at hterminate
        | ok b =>
          cases b with
          | true => exact .ended .stopped (fun _ _ _ => hfollow ▸ hdone) (fun _ => rfl) (by simp)
          | false => exact .idle hfollow
    | cons log logs =>
      have hlt : i < j := by
        by_contra hge
        rw [between_eq_nil _ (by omega)] at hlogs
        cases hlogs
      have hlength := length_between (sorted order l.store) (i := i) (j := j)
        (by rw [length_sorted]; exact hlast hlt)
      rw [hlogs] at hlength
      simp only []
      by_cases hafter : t.canceledAfter = true
      · rw [if_pos hafter]
        exact .ended .stopped (fun _ h => by simp [hafter] at h) (fun _ => rfl) (by simp)
      rw [if_neg hafter, hlength, hoffset]
      cases hprocess : t.processError with
      | some failure =>
        obtain ⟨n, err⟩ := failure
        simp only [← hlogs, take_between]
        exact .broken (min j (i + n)) _ _ (fun h => by simp [h.processError] at hprocess) (by omega)
          (by have := hlast hlt; omega) rfl fun h => by have := hlimit h; omega
      | none =>
        have hcast : ((j - i : ℕ) : ℤ) = j - i := by omega
        have hhanded := @Ticked.handedOut order l t i j hlt (hlast hlt) hlimit
        simp only [← hlogs, hcast, show (i : ℤ) + (j - i) = j by omega]
        exact hhanded

/-! ### The whole request -/

/-- How far a processor got that began at `off` with the limit `lim`, when there were `total` logs. -/
structure Progress (order : OrderBy) (off : ℕ) (lim : ℤ) (follow : Bool) (total : ℕ)
    (l : LogStoreProcessor) (k : ℕ) : Prop where
  reads : Reads (sorted order l.store) off l.sent k
  follows : l.req.follow = follow
  stored : total ≤ l.store.length
  bound : follow = false → (k : ℤ) ≤ off + max lim 0
  running : l.status = .running → l.req.offset = k ∧ l.req.limit = lim - (k - off)

/-- The logs added at each tick come after those stored before it. -/
def InOrder (order : OrderBy) : List TrialLog → List Tick → Prop
  | _, [] => True
  | store, t :: ts => ComesAfter order store t.appended ∧ InOrder order (store ++ t.appended) ts

theorem inOrder_snoc (order : OrderBy) (store : List TrialLog) (ts : List Tick) (t : Tick) :
    InOrder order store (ts ++ [t]) ↔
      InOrder order store ts ∧ ComesAfter order (store ++ ts.flatMap (·.appended)) t.appended := by
  induction ts generalizing store with
  | nil => simp [InOrder]
  | cons t' ts ih => simp [InOrder, ih, and_assoc, List.append_assoc]

variable {batchSize : ℕ} {order : OrderBy} {off : ℕ} {lim : ℤ} {follow : Bool} {total : ℕ}
  {l : LogStoreProcessor} {k : ℕ}

/-- Logs that come after the others leave a processor where it is. -/
theorem Progress.append (h : Progress order off lim follow total l k) {new : List TrialLog}
    (hnew : ComesAfter order l.store new) :
    Progress order off lim follow total { l with store := l.store ++ new } k where
  reads := by
    rw [sorted_append hnew]
    exact h.reads.grow (List.prefix_append _ _)
  follows := h.follows
  stored := by
    have := h.stored
    rw [List.length_append]
    omega
  bound := h.bound
  running := h.running

/-- Step lemma: a tick takes a processor on, and without cancellation it stops only at the end of the
    logs or of the limit. -/
theorem Progress.receive (hbatch : 0 < batchSize) (h : Progress order off lim follow total l k)
    (hrunning : l.status = .running) (t : Tick) :
    ∃ k', Progress order off lim follow total (l.receive batchSize order t) k' ∧ k ≤ k' ∧
      (l.receive batchSize order t).store = l.store ∧
      (t.canceled = false → t.canceledAfter = false →
        (l.receive batchSize order t).status = .stopped →
          (follow = true → l.store.length ≤ k') ∧
          (follow = false → l.store.length ≤ k' ∨ off + lim ≤ k')) ∧
      (t.Smooth → follow = false →
        (l.receive batchSize order t).status = .stopped ∨
          (l.receive batchSize order t).status = .running ∧ k < k') := by
  obtain ⟨hoffset, hlimit⟩ := h.running hrunning
  have hticked := receive_ticked hbatch order l t hoffset
  generalize l.receive batchSize order t = l' at hticked ⊢
  cases hticked with
  | idle hfollow =>
    refine ⟨k, h, le_rfl, rfl, fun _ _ hstopped => ?_, fun _ hnot => ?_⟩
    · rw [hrunning] at hstopped
      cases hstopped
    · rw [← h.follows, hfollow] at hnot
      cases hnot
  | ended status hend hsmooth hnot =>
    refine ⟨k, ⟨h.reads, h.follows, h.stored, h.bound, fun hrun => absurd hrun hnot⟩, le_rfl, rfl,
      fun hc hc' hstopped => ?_, fun hs _ => .inl (hsmooth hs)⟩
    have hdone := hend hc hc' hstopped
    rw [h.follows, hlimit] at hdone
    refine ⟨fun hfollow => hdone.resolve_right (by simp [hfollow]), fun _ => ?_⟩
    rcases hdone with hdone | ⟨_, hdone⟩
    · exact .inl hdone
    · exact .inr (by omega)
  | broken j req message hnot hkj hj hfollow hbound =>
    refine ⟨j, ⟨?_, hfollow.trans h.follows, h.stored, fun hf => ?_, by simp⟩, hkj, rfl, by simp,
      fun hs => absurd hs hnot⟩
    · exact h.reads.append (.cons hkj (by rw [length_sorted]; exact hj) (.nil j))
    · have hle := hbound (h.follows.trans hf)
      have := h.bound hf
      rw [hlimit] at hle
      omega
  | handedOut j hkj hj hbound =>
    refine ⟨j, ⟨?_, h.follows, h.stored, fun hf => ?_, fun _ => ⟨rfl, ?_⟩⟩, hkj.le, rfl,
      fun _ _ hstopped => ?_, fun _ hf => ?_⟩
    · exact h.reads.append (.cons hkj.le (by rw [length_sorted]; exact hj) (.nil j))
    · have hle := hbound (h.follows.trans hf)
      have := h.bound hf
      rw [hlimit] at hle
      omega
    · simp only [hlimit]
      omega
    · simp only [hrunning, h.follows, hlimit] at hstopped
      cases hf : follow with
      | true => simp [hf] at hstopped
      | false =>
        simp only [hf, Bool.not_false, Bool.true_and, decide_eq_true_eq] at hstopped
        refine ⟨by simp, fun _ => .inr ?_⟩
        split at hstopped
        · omega
        · cases hstopped
    · simp only [hrunning]
      split
      · exact .inl rfl
      · exact .inr ⟨rfl, hkj⟩

theorem run_of_not_running (h : l.status ≠ .running) (ts : List Tick) :
    l.run batchSize order ts = l := by
  induction ts with
  | nil => rfl
  | cons t ts ih =>
    rw [LogStoreProcessor.run, List.foldl_cons, LogStoreProcessor.tick, if_neg h]
    exact ih

/-- Run lemma: as the step lemma, for all the ticks of a request. -/
theorem Progress.run (hbatch : 0 < batchSize) (ts : List Tick) :
    ∀ {l : LogStoreProcessor} {k : ℕ}, Progress order off lim follow total l k →
      InOrder order l.store ts → l.status = .running →
      ∃ k', Progress order off lim follow total (l.run batchSize order ts) k' ∧ k ≤ k' ∧
        sorted order l.store <+: sorted order (l.run batchSize order ts).store ∧
        ((∀ t ∈ ts, t.canceled = false ∧ t.canceledAfter = false) →
          (l.run batchSize order ts).status = .stopped →
            (follow = true → (l.run batchSize order ts).store.length ≤ k') ∧
            (follow = false → (l.run batchSize order ts).store.length ≤ k' ∨ off + lim ≤ k')) ∧
        ((∀ t ∈ ts, t.Smooth) → follow = false → (l.run batchSize order ts).status = .stopped ∨
          (l.run batchSize order ts).status = .running ∧ k + ts.length ≤ k') := by
  induction ts with
  | nil =>
    intro l k h _ hrunning
    refine ⟨k, h, le_rfl, List.prefix_refl _, fun _ hstopped => ?_, fun _ _ =>
      .inr ⟨hrunning, by simp⟩⟩
    rw [LogStoreProcessor.run, List.foldl_nil, hrunning] at hstopped
    cases hstopped
  | cons t ts ih =>
    intro l k h hordered hrunning
    obtain ⟨hnew, hordered⟩ := hordered
    obtain ⟨k₁, h₁, hk, hstore, hstop, hsmooth⟩ := (h.append hnew).receive hbatch hrunning t
    have hgrow : sorted order l.store <+:
        sorted order ({ l with store := l.store ++ t.appended }.receive batchSize order t).store := by
      rw [hstore, sorted_append hnew]
      exact List.prefix_append _ _
    have hrun : l.run batchSize order (t :: ts)
        = ({ l with store := l.store ++ t.appended }.receive batchSize order t).run
            batchSize order ts := by
      rw [LogStoreProcessor.run, List.foldl_cons, LogStoreProcessor.tick, if_pos hrunning]
      rfl
    rw [hrun]
    generalize { l with store := l.store ++ t.appended }.receive batchSize order t = l₁ at *
    by_cases hgoes : l₁.status = .running
    · obtain ⟨k', h', hk', hgrow', hstop', hsmooth'⟩ := ih h₁ (by rw [hstore]; exact hordered) hgoes
      refine ⟨k', h', hk.trans hk', hgrow.trans hgrow', fun hc => hstop' fun t ht =>
        hc t (List.mem_cons_of_mem _ ht), fun hs hf => ?_⟩
      have hfirst := hsmooth (hs t (List.mem_cons_self ..)) hf
      rw [hgoes] at hfirst
      have hlt : k < k₁ := (hfirst.resolve_left (by simp)).2
      rcases hsmooth' (fun t ht => hs t (List.mem_cons_of_mem _ ht)) hf with hend | ⟨hend, hle⟩
      · exact .inl hend
      · exact .inr ⟨hend, by rw [List.length_cons]; omega⟩
    · rw [run_of_not_running hgoes]
      refine ⟨k₁, h₁, hk, hgrow, fun hc hstopped => ?_, fun hs hf => ?_⟩
      · obtain ⟨hc, hc'⟩ := hc t (List.mem_cons_self ..)
        rw [hstore]
        exact hstop hc hc' hstopped
      · exact .inl ((hsmooth (hs t (List.mem_cons_self ..)) hf).resolve_right
          fun hgo => hgoes hgo.1)

/-- The processor that `TrialLogs` starts. -/
theorem trialLogs_eq_ok {store : List TrialLog} {req : TrialLogsRequest} {l : LogStoreProcessor}
    (h : trialLogs store req = .ok l) :
    0 ≤ req.limit ∧ ∃ off : ℕ, ∃ lim : ℤ, effectiveOffset req.offset store.length = off ∧
      l = ⟨store, ⟨off, lim, req.follow⟩, [], .running⟩ ∧
      off + lim = if req.limit = 0 then (store.length : ℤ)
        else min (off + req.limit) store.length := by
  simp only [trialLogs] at h
  split at h
  · cases h
  split at h
  · cases h
  next hlimit _ =>
  refine ⟨by omega, ?_⟩
  obtain ⟨off, hoff⟩ := Int.eq_ofNat_of_zero_le (effectiveOffset_nonneg req.offset store.length)
  simp only [effectiveOffsetNLimit, effectiveLimit, hoff] at h
  rw [if_neg (by omega), if_neg (by omega)] at h
  split_ifs at h with hall
  all_goals
    cases h
    refine ⟨off, _, hoff, rfl, ?_⟩
    split <;> omega

/-- A quiet tick. -/
def quietTick (appended : List TrialLog) (terminate : Bool) : Tick :=
  ⟨appended, false, none, .ok terminate, false, none⟩

end Determined.Api
