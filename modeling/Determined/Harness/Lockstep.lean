import Determined.Harness.Broadcast

/-! The launcher and its workers stay in lockstep.

    What a worker has sent numbers itself: its messages are its answers to one broadcast after the
    other, so it is at most one message ahead of the broadcasts it has taken, and an exception comes
    last. The server has read of every worker the messages of the rounds it has gathered, and in the
    round under way one more of each worker it has heard (`Reading`). Such a worker cannot answer the
    next broadcast before there is one, so that what is read next belongs to this round. -/

namespace Determined.Harness
open Determined.Schemes

variable {β μ : Type} {n : ℕ}

namespace Worker

/-- The worker's `k`-th message has this payload. -/
def Sent (w : Worker β μ) (k : ℕ) (p : Payload μ) : Prop := w.sent[k]? = some (.serial ⟨k, p⟩)

/-- How many messages a worker has sent for the broadcasts it has taken. An exception may come in
    place of an answer, or unasked. -/
def InPhase (w : Worker β μ) : Prop :=
  match w.phase with
  | .starting => w.sent.length = 0 ∧ w.client.recvSerial = 0 ∧ w.client.sendSerial = 0
  | .waiting => w.sent.length = w.client.recvSerial + 1 ∧ w.client.sendSerial = w.sent.length
  | .working _ => w.sent.length = w.client.recvSerial ∧ w.client.sendSerial = w.sent.length
  | .raised none => .exception ∈ w.sent ∧
    (w.sent.length = w.client.recvSerial + 1 ∨ w.sent.length = w.client.recvSerial + 2)
  | .raised (some _) => False

/-- A worker after so many broadcasts. -/
structure Ok (w : Worker β μ) (broadcasts : ℕ) : Prop where
  numbered : ∀ (i : ℕ) m, w.sent[i]? = some (.serial m) → m.serial = i ∧ i ≤ w.client.recvSerial
  last : ∀ i : ℕ, w.sent[i]? = some .exception → i + 1 = w.sent.length ∧ w.phase = .raised none
  inbox : w.inbox.map (·.serial) =
    List.range' w.client.recvSerial (broadcasts - w.client.recvSerial)
  behind : w.client.recvSerial ≤ broadcasts
  phase : w.InPhase

/-- The worker has sent some more. -/
def Grows (w w' : Worker β μ) : Prop :=
  ∃ l, w'.sent = w.sent ++ l ∧ w'.outbox = w.outbox ++ l

theorem Grows.sent {w w' : Worker β μ} (h : Grows w w') {k : ℕ} {p : Payload μ} (hk : w.Sent k p) :
    w'.Sent k p := by
  obtain ⟨l, hsent, -⟩ := h
  unfold Sent at hk ⊢
  have hlt := (List.getElem?_eq_some_iff.mp hk).1
  rw [hsent, List.getElem?_append_left hlt, hk]

theorem Grows.drop {w w' : Worker β μ} (h : Grows w w') {c : ℕ} (hc : c ≤ w.sent.length)
    (hdrop : w.outbox = w.sent.drop c) :
    c ≤ w'.sent.length ∧ w'.outbox = w'.sent.drop c := by
  obtain ⟨l, hsent, hout⟩ := h
  rw [hsent, hout, hdrop, List.drop_append_of_le_length hc, List.length_append]
  exact ⟨by omega, rfl⟩

variable {w w' : Worker β μ} {b : ℕ}

theorem getElem?_snoc_cases {α : Type} {l : List α} {x y : α} {i : ℕ}
    (h : (l ++ [x])[i]? = some y) : l[i]? = some y ∨ i = l.length ∧ y = x := by
  rw [List.getElem?_append] at h
  split at h
  · exact .inl h
  · rename_i hi
    obtain ⟨hlt, hx⟩ := List.getElem?_eq_some_iff.mp h
    simp only [List.length_cons, List.length_nil] at hlt
    have h0 : i - l.length = 0 := by omega
    simp only [h0, List.getElem_cons_zero] at hx
    exact .inr ⟨by omega, hx.symm⟩

theorem Ok.push_serial {m : SerialMessage (Payload μ)} {phase : WorkerPhase β}
    {client : ZMQBroadcastClient} (h : w.Ok b) (hnot : w.phase ≠ .raised none)
    (hserial : m.serial = w.sent.length) (hle : w.sent.length ≤ w.client.recvSerial)
    (hrecv : client.recvSerial = w.client.recvSerial)
    (hphase : InPhase { w.push (.serial m) phase with client := client }) :
    Ok { w.push (.serial m) phase with client := client } b where
  numbered i m' hi := by
    simp only [hrecv]
    rcases getElem?_snoc_cases hi with hi | ⟨rfl, hm⟩
    · exact h.numbered i m' hi
    · cases hm
      exact ⟨hserial, hle⟩
  last i hi := by
    rcases getElem?_snoc_cases hi with hi | ⟨-, hm⟩
    · exact absurd (h.last i hi).2 hnot
    · cases hm
  inbox := by simp only [hrecv]; exact h.inbox
  behind := by simp only [hrecv]; exact h.behind
  phase := hphase

theorem Ok.push_exception (h : w.Ok b) (hnot : w.phase ≠ .raised none)
    (hphase : InPhase (w.push .exception (.raised none))) :
    (w.push .exception (.raised none)).Ok b where
  numbered i m' hi := by
    rcases getElem?_snoc_cases hi with hi | ⟨-, hm⟩
    · exact h.numbered i m' hi
    · cases hm
  last i hi := by
    rcases getElem?_snoc_cases hi with hi | ⟨rfl, -⟩
    · exact absurd (h.last i hi).2 hnot
    · exact ⟨by simp [push], rfl⟩
  inbox := h.inbox
  behind := h.behind
  phase := hphase

/-! ### What a worker does -/

theorem Ok.connect {pid : ℕ} (h : w.Ok b) (hw : w.connect pid = some w') :
    w'.Ok b ∧ Grows w w' := by
  have hin := h.phase
  unfold Worker.connect at hw
  split at hw
  · rename_i hphase
    cases hw
    simp only [InPhase, hphase] at hin
    obtain ⟨hlen, hrecv, hsend⟩ := hin
    refine ⟨h.push_serial (by simp [hphase]) ?_ ?_ rfl ?_, _, rfl, rfl⟩
    · rw [hlen, hsend]
    · omega
    · simp only [InPhase, push, ZMQBroadcastClient.send, List.length_append, List.length_cons,
        List.length_nil]
      omega
  · cases hw

theorem Ok.respond {r : Response μ} (h : w.Ok b) (hw : w.respond r = some w') :
    w'.Ok b ∧ Grows w w' := by
  have hin := h.phase
  unfold Worker.respond at hw
  split at hw
  · rename_i request hphase
    cases hw
    simp only [InPhase, hphase] at hin
    obtain ⟨hlen, hsend⟩ := hin
    refine ⟨h.push_serial (by simp [hphase]) hsend hlen.le rfl ?_, _, rfl, rfl⟩
    simp only [InPhase, push, ZMQBroadcastClient.send, List.length_append, List.length_cons,
      List.length_nil]
    omega
  · cases hw

theorem Ok.raise (h : w.Ok b) (hw : w.raise = some w') : w'.Ok b ∧ Grows w w' := by
  have hin := h.phase
  unfold Worker.raise at hw
  split at hw
  · rename_i hphase
    cases hw
    simp only [InPhase, hphase] at hin
    refine ⟨h.push_exception (by simp [hphase]) ⟨by simp [push], ?_⟩, _, rfl, rfl⟩
    simp only [push, List.length_append, List.length_cons, List.length_nil]
    omega
  · rename_i request hphase
    cases hw
    simp only [InPhase, hphase] at hin
    refine ⟨h.push_exception (by simp [hphase]) ⟨by simp [push], ?_⟩, _, rfl, rfl⟩
    simp only [push, List.length_append, List.length_cons, List.length_nil]
    omega
  · cases hw

/-- The next broadcast in the inbox is the next one the client expects. -/
theorem Ok.recv_ok {m : SerialMessage (Request β)} {rest : List (SerialMessage (Request β))}
    (h : w.Ok b) (hinbox : w.inbox = m :: rest) :
    w.client.recv m =
        .ok (m.payload, { w.client with recvSerial := w.client.recvSerial + 1 }) ∧
      w.client.recvSerial < b ∧
      rest.map (·.serial) =
        List.range' (w.client.recvSerial + 1) (b - (w.client.recvSerial + 1)) := by
  have hin := h.inbox
  have hbehind := h.behind
  rw [hinbox, List.map_cons] at hin
  have hlt : w.client.recvSerial < b := by
    by_contra hge
    rw [show b - w.client.recvSerial = 0 by omega] at hin
    simp at hin
  rw [show b - w.client.recvSerial = (b - (w.client.recvSerial + 1)) + 1 by omega,
    List.range'_succ, List.cons.injEq] at hin
  refine ⟨?_, hlt, hin.2⟩
  rw [ZMQBroadcastClient.recv, hin.1, check.eq_self, ok_bind]

theorem Ok.recv (h : w.Ok b) (hw : w.recv = some w') : w'.Ok b ∧ Grows w w' := by
  have hin := h.phase
  unfold Worker.recv at hw
  split at hw
  · rename_i m rest hphase hinbox
    obtain ⟨hok, hlt, hrest⟩ := h.recv_ok hinbox
    simp only [hok] at hw
    cases hw
    simp only [InPhase, hphase] at hin
    refine ⟨⟨fun i m' hi => ?_, fun i hi => ?_, hrest, hlt, ?_⟩, [], by simp, by simp⟩
    · obtain ⟨hserial, hle⟩ := h.numbered i m' hi
      exact ⟨hserial, Nat.le_succ_of_le hle⟩
    · have := (h.last i hi).2
      rw [hphase] at this
      cases this
    · simp only [InPhase]
      exact hin
  · cases hw

/-- One more broadcast. -/
theorem Ok.broadcast {request : Request β} (h : w.Ok b) :
    Ok { w with inbox := w.inbox ++ [⟨b, request⟩] } (b + 1) where
  numbered := h.numbered
  last := h.last
  inbox := by
    have hbehind := h.behind
    rw [List.map_append, h.inbox, show b + 1 - w.client.recvSerial = (b - w.client.recvSerial) + 1
      by omega, List.range'_concat]
    simp only [List.map_cons, List.map_nil, Nat.one_mul]
    rw [show w.client.recvSerial + (b - w.client.recvSerial) = b by omega]
  behind := by have := h.behind; simp only; omega
  phase := h.phase

/-- The worker is at most two messages ahead of the broadcasts it has taken. -/
theorem Ok.length_le (h : w.Ok b) : w.sent.length ≤ w.client.recvSerial + 2 := by
  have hin := h.phase
  unfold InPhase at hin
  split at hin
  · omega
  · omega
  · omega
  · omega
  · exact hin.elim

end Worker

/-! ### Rounds -/

/-- Moves that a worker has left until the next broadcast, and what the launcher has to read. -/
def Worker.work (w : Worker β μ) : ℕ :=
  w.outbox.length + 3 * w.inbox.length + match w.phase with
    | .starting | .working _ => 4
    | .waiting => 2
    | .raised _ => 0

def LauncherPhase.work : LauncherPhase β μ → ℕ
  | .gathering _ _ => 1
  | .idle | .finished | .raised _ => 0

namespace Lockstep

variable {s t : Lockstep n β μ} {e : Event n β μ} {w : Fin n}

/-- The messages are the `k`-th messages of the senders. -/
def FromRound (s : Lockstep n β μ) (k : ℕ) (messages : List (Option (Payload μ)))
    (senders : List (Fin n)) : Prop :=
  List.Forall₂ (fun m w => ∃ p, m = some p ∧ (s.workers w).Sent k p) messages senders

/-- The messages are the `k`-th message of every worker, each once. -/
def IsRound (s : Lockstep n β μ) (k : ℕ) (messages : List (Option (Payload μ))) : Prop :=
  ∃ senders : List (Fin n), senders.Perm (List.finRange n) ∧ s.FromRound k messages senders

/-- Of the senders the server has read one message more than `r`, of the others `r`. -/
def Reading (s : Lockstep n β μ) (r : ℕ) (senders : List (Fin n)) : Prop :=
  ∀ w, (r + if w ∈ senders then 1 else 0) ≤ (s.workers w).sent.length ∧
    (s.workers w).outbox = (s.workers w).sent.drop (r + if w ∈ senders then 1 else 0)

/-- An exception was reported, by the gather under way. -/
def Reported (s : Lockstep n β μ) (k : ℕ) (messages : List (Option (Payload μ))) : Prop :=
  k = s.server.recvSerial ∧ s.server.sendSerial = s.server.recvSerial ∧
    (∃ read, messages = read ++ [none]) ∧ ∃ w, .exception ∈ (s.workers w).sent

/-- Between two gathers one more has returned than was broadcast. -/
def InPhase (s : Lockstep n β μ) : Prop :=
  match s.launcher with
  | .gathering _ messages => s.server.sendSerial = s.server.recvSerial ∧
    s.returned.length = s.server.recvSerial ∧
    ∃ senders, senders.Nodup ∧ s.FromRound s.server.recvSerial messages senders ∧
      s.Reading s.server.recvSerial senders
  | .idle => s.server.recvSerial = s.server.sendSerial + 1 ∧
    s.returned.length = s.server.recvSerial ∧ s.Reading s.server.recvSerial []
  | .finished | .raised _ => True

structure Inv (s : Lockstep n β μ) : Prop where
  connections : s.server.numConnections = n
  worker : ∀ w, (s.workers w).Ok s.server.sendSerial
  heard : ∀ w, ∀ k < s.server.recvSerial, ∃ p, (s.workers w).Sent k p
  succeeded : ∀ k messages, s.returned[k]? = some (messages, false) →
    k < s.server.recvSerial ∧ s.IsRound k messages
  failed : ∀ k messages, s.returned[k]? = some (messages, true) → s.Reported k messages
  phase : s.InPhase

/-- What was sent stays sent. -/
def Extends (s t : Lockstep n β μ) : Prop :=
  ∀ w, ∃ l, (t.workers w).sent = (s.workers w).sent ++ l

theorem Extends.sent (h : Extends s t) {k : ℕ} {p : Payload μ} (hk : (s.workers w).Sent k p) :
    (t.workers w).Sent k p := by
  obtain ⟨l, hsent⟩ := h w
  unfold Worker.Sent at hk ⊢
  rw [hsent, List.getElem?_append_left (List.getElem?_eq_some_iff.mp hk).1, hk]

theorem Extends.fromRound (h : Extends s t) {k : ℕ} {messages : List (Option (Payload μ))}
    {senders : List (Fin n)} (hk : s.FromRound k messages senders) :
    t.FromRound k messages senders :=
  hk.imp fun _ _ ⟨p, hm, hp⟩ => ⟨p, hm, h.sent hp⟩

theorem Extends.isRound (h : Extends s t) {k : ℕ} {messages : List (Option (Payload μ))}
    (hk : s.IsRound k messages) : t.IsRound k messages := by
  obtain ⟨senders, hperm, hround⟩ := hk
  exact ⟨senders, hperm, h.fromRound hround⟩

theorem Extends.reported (h : Extends s t) (hserver : t.server = s.server) {k : ℕ}
    {messages : List (Option (Payload μ))} (hk : s.Reported k messages) :
    t.Reported k messages := by
  obtain ⟨hr, hb, hread, w, hw⟩ := hk
  obtain ⟨l, hsent⟩ := h w
  refine ⟨by rw [hserver, hr], by rw [hserver, hb], hread, w, ?_⟩
  rw [hsent]
  exact List.mem_append_left _ hw

theorem Extends.of_workers (h : t.workers = s.workers) : Extends s t :=
  fun w => ⟨[], by rw [h, List.append_nil]⟩

theorem init_inv (rank : ℕ) : Inv (init n rank : Lockstep n β μ) where
  connections := rfl
  worker w :=
    { numbered := by simp [init, Worker.init]
      last := by simp [init, Worker.init]
      inbox := rfl
      behind := le_rfl
      phase := ⟨rfl, rfl, rfl⟩ }
  heard w k hk := absurd hk (Nat.not_lt_zero _)
  succeeded := by simp [init]
  failed := by simp [init]
  phase := ⟨rfl, rfl, [], List.nodup_nil, .nil, fun w => ⟨Nat.zero_le _, rfl⟩⟩

/-! ### Steps of a worker -/

theorem setWorker_workers {worker : Worker β μ} (v : Fin n) :
    (s.setWorker w worker).workers v = if v = w then worker else s.workers v := by
  simp only [setWorker, Function.update_apply]

theorem Extends.setWorker {worker : Worker β μ} (hgrows : (s.workers w).Grows worker) :
    Extends s (s.setWorker w worker) := by
  intro v
  rw [setWorker_workers]
  by_cases hv : v = w
  · subst hv
    obtain ⟨l, hsent, -⟩ := hgrows
    exact ⟨l, by rw [if_pos rfl, hsent]⟩
  · exact ⟨[], by rw [if_neg hv, List.append_nil]⟩

theorem Reading.setWorker {r : ℕ} {senders : List (Fin n)} {worker : Worker β μ}
    (h : s.Reading r senders) (hgrows : (s.workers w).Grows worker) :
    (s.setWorker w worker).Reading r senders := by
  intro v
  rw [setWorker_workers]
  by_cases hv : v = w
  · subst hv
    rw [if_pos rfl]
    exact hgrows.drop (h v).1 (h v).2
  · rw [if_neg hv]
    exact h v

theorem Inv.setWorker {worker : Worker β μ} (h : s.Inv)
    (hw : worker.Ok s.server.sendSerial ∧ (s.workers w).Grows worker) :
    (s.setWorker w worker).Inv where
  connections := h.connections
  worker v := by
    rw [setWorker_workers]
    by_cases hv : v = w
    · rw [if_pos hv]
      exact hw.1
    · rw [if_neg hv]
      exact h.worker v
  heard v k hk := by
    obtain ⟨p, hp⟩ := h.heard v k hk
    exact ⟨p, (Extends.setWorker hw.2).sent hp⟩
  succeeded k messages hk := by
    obtain ⟨hlt, hround⟩ := h.succeeded k messages hk
    exact ⟨hlt, (Extends.setWorker hw.2).isRound hround⟩
  failed k messages hk := (Extends.setWorker hw.2).reported rfl (h.failed k messages hk)
  phase := by
    have hphase := h.phase
    unfold InPhase at hphase ⊢
    change match s.launcher with
      | .gathering _ messages => _
      | .idle => _
      | .finished | .raised _ => True
    split at hphase
    · obtain ⟨hb, hlen, senders, hnodup, hround, hreading⟩ := hphase
      exact ⟨hb, hlen, senders, hnodup, (Extends.setWorker hw.2).fromRound hround,
        hreading.setWorker hw.2⟩
    · exact ⟨hphase.1, hphase.2.1, hphase.2.2.setWorker hw.2⟩
    · trivial
    · trivial

/-! ### Steps of the launcher -/

/-- What is read next is an exception, or belongs to the round of a worker not heard in it yet. -/
theorem Reading.next {r : ℕ} {senders : List (Fin n)} {m : ClientMessage (Payload μ)}
    {rest : List (ClientMessage (Payload μ))} (h : s.Reading r senders)
    (hok : (s.workers w).Ok r) (hout : (s.workers w).outbox = m :: rest) :
    (m = .exception ∧ .exception ∈ (s.workers w).sent) ∨
      (w ∉ senders ∧ ∃ p, m = .serial ⟨r, p⟩ ∧ (s.workers w).Sent r p) := by
  obtain ⟨hle, hdrop⟩ := h w
  rw [hout] at hdrop
  have hget : (s.workers w).sent[r + if w ∈ senders then 1 else 0]? = some m := by
    rw [← Nat.add_zero (r + _), ← List.getElem?_drop, ← hdrop, List.getElem?_cons_zero]
  cases m with
  | exception => exact .inl ⟨rfl, List.mem_of_getElem? hget⟩
  | serial m =>
    obtain ⟨hserial, hbound⟩ := hok.numbered _ m hget
    have hbehind := hok.behind
    have hnot : w ∉ senders := by
      intro hmem
      rw [if_pos hmem] at hbound
      omega
    rw [if_neg hnot, Nat.add_zero] at hget hserial
    obtain ⟨serial, p⟩ := m
    subst hserial
    exact .inr ⟨hnot, p, rfl, hget⟩

/-- Reading a message moves its sender by one. -/
theorem Reading.read {r : ℕ} {senders : List (Fin n)} {m : ClientMessage (Payload μ)}
    {rest : List (ClientMessage (Payload μ))} (h : s.Reading r senders)
    (hout : (s.workers w).outbox = m :: rest) (hnot : w ∉ senders) :
    (s.setWorker w { s.workers w with outbox := rest }).Reading r (senders ++ [w]) := by
  intro v
  rw [setWorker_workers]
  obtain ⟨hle, hdrop⟩ := h v
  by_cases hv : v = w
  · subst hv
    rw [if_neg hnot, Nat.add_zero] at hle hdrop
    rw [hout] at hdrop
    have hlt : r < (s.workers v).sent.length := by
      by_contra hge
      rw [List.drop_eq_nil_of_le (by omega)] at hdrop
      cases hdrop
    rw [List.drop_eq_getElem_cons hlt] at hdrop
    simp only [↓reduceIte, List.mem_append, List.mem_singleton, or_true]
    exact ⟨hlt, (List.cons.inj hdrop).2⟩
  · simp only [List.mem_append, List.mem_singleton, hv, or_false]
    exact ⟨hle, hdrop⟩

/-- After a gather the launcher is not in one, and if it goes on there was no exception. -/
theorem gathered_spec (request : Option (Request β)) (messages : List (Option (Payload μ)))
    (exceptionReceived : Bool) :
    ∃ launcher responses, s.gathered request messages exceptionReceived =
        { s with
          returned := s.returned ++ [(messages, exceptionReceived)]
          launcher := launcher
          responses := responses } ∧
      (launcher = .idle ∧ exceptionReceived = false ∨ launcher = .finished ∨
        ∃ e, launcher = .raised e) := by
  unfold gathered
  cases exceptionReceived with
  | true => exact ⟨_, _, rfl, .inr (.inr ⟨_, rfl⟩)⟩
  | false =>
    cases request with
    | none =>
      simp only [Bool.false_eq_true, if_false]
      split
      · exact ⟨_, _, rfl, .inl ⟨rfl, trivial⟩⟩
      · exact ⟨_, _, rfl, .inr (.inr ⟨_, rfl⟩)⟩
    | some request =>
      simp only [Bool.false_eq_true, if_false]
      split
      · refine ⟨_, _, rfl, ?_⟩
        unfold afterWorkload
        split
        · exact .inr (.inl rfl)
        · exact .inl ⟨rfl, trivial⟩
      · exact ⟨_, _, rfl, .inr (.inr ⟨_, rfl⟩)⟩

theorem returned_gathered {request : Option (Request β)} {messages : List (Option (Payload μ))}
    {exceptionReceived : Bool} : (s.gathered request messages exceptionReceived).returned =
      s.returned ++ [(messages, exceptionReceived)] := by
  obtain ⟨launcher, responses, heq, -⟩ :=
    gathered_spec (s := s) request messages exceptionReceived
  rw [heq]

/-- A message is read inside a gather, and its serial number is checked. -/
theorem receive_cases (h : s.receive w = some t) :
    ∃ request messages m rest, s.launcher = .gathering request messages ∧
      messages.length < s.server.numConnections ∧ (s.workers w).outbox = m :: rest ∧
      ((m = .exception ∧
          t = (s.setWorker w { s.workers w with outbox := rest }).gathered request
            (messages ++ [none]) true) ∨
        (∃ p, m = .serial ⟨s.server.recvSerial, p⟩ ∧
          t = { s.setWorker w { s.workers w with outbox := rest } with
                launcher := .gathering request (messages ++ [some p]) }) ∨
        ∃ m', m = .serial m' ∧ m'.serial ≠ s.server.recvSerial ∧
          ∃ e, t = { s.setWorker w { s.workers w with outbox := rest } with
                     launcher := .raised e }) := by
  unfold receive at h
  split at h
  · rename_i request messages m rest hlauncher hout
    split at h
    · rename_i hlt
      refine ⟨request, messages, m, rest, hlauncher, hlt, hout, ?_⟩
      cases m with
      | exception =>
        simp only [ZMQBroadcastServer.recvOne, Option.some.injEq] at h
        exact .inl ⟨rfl, h.symm⟩
      | serial m =>
        by_cases hserial : m.serial = s.server.recvSerial
        · obtain ⟨serial, p⟩ := m
          subst hserial
          simp only [setWorker, ZMQBroadcastServer.recvOne, check.eq_self, ok_bind,
            Option.some.injEq] at h
          exact .inr (.inl ⟨p, rfl, h.symm⟩)
        · obtain ⟨error, herror⟩ := ZMQBroadcastServer.recvOne_out_of_order hserial
          simp only [setWorker, herror, Option.some.injEq] at h
          exact .inr (.inr ⟨m, rfl, hserial, _, h.symm⟩)
    · cases h
  · cases h

/-- A worker's message is taken from its socket. -/
theorem Extends.read {rest : List (ClientMessage (Payload μ))} :
    Extends s (s.setWorker w { s.workers w with outbox := rest }) := by
  intro v
  rw [setWorker_workers]
  refine ⟨[], ?_⟩
  split
  · rename_i hv
    rw [hv, List.append_nil]
  · rw [List.append_nil]

theorem Inv.ok_read {rest : List (ClientMessage (Payload μ))} (h : s.Inv) (v : Fin n) :
    ((s.setWorker w { s.workers w with outbox := rest }).workers v).Ok s.server.sendSerial := by
  rw [setWorker_workers]
  split
  · obtain ⟨hnumbered, hlast, hinbox, hbehind, hphase⟩ := h.worker w
    exact ⟨hnumbered, hlast, hinbox, hbehind, hphase⟩
  · exact h.worker v

/-- The check of a serial number never fails, and what is read next is as `receive_cases` says. -/
theorem Inv.receive (h : s.Inv) (hr : s.receive w = some t) : t.Inv := by
  obtain ⟨request, messages, m, rest, hlauncher, -, hout, hcases⟩ := receive_cases hr
  have hphase := h.phase
  simp only [InPhase, hlauncher] at hphase
  obtain ⟨hb, hlen, senders, hnodup, hround, hreading⟩ := hphase
  have hext : Extends s (s.setWorker w { s.workers w with outbox := rest }) := .read
  have hsucceeded : ∀ k ms, s.returned[k]? = some (ms, false) → k < s.server.recvSerial ∧
      (s.setWorker w { s.workers w with outbox := rest }).IsRound k ms := fun k ms hk =>
    ⟨(h.succeeded k ms hk).1, hext.isRound (h.succeeded k ms hk).2⟩
  have hheard : ∀ v, ∀ k < s.server.recvSerial, ∃ p,
      ((s.setWorker w { s.workers w with outbox := rest }).workers v).Sent k p := fun v k hk =>
    (h.heard v k hk).imp fun p hp => hext.sent hp
  have hnext := hreading.next (hb ▸ h.worker w) hout
  rcases hcases with ⟨rfl, rfl⟩ | ⟨p, rfl, rfl⟩ | ⟨m', rfl, hserial, -⟩
  · have hsent : .exception ∈ (s.workers w).sent := by
      rcases hnext with ⟨-, hsent⟩ | ⟨-, p, hm, -⟩
      · exact hsent
      · cases hm
    have hreported : (s.setWorker w { s.workers w with outbox := rest }).Reported
        s.server.recvSerial (messages ++ [none]) :=
      hext.reported rfl ⟨rfl, hb, ⟨messages, rfl⟩, w, hsent⟩
    obtain ⟨launcher, responses, heq, hafter⟩ :=
      gathered_spec (s := s.setWorker w { s.workers w with outbox := rest }) request
        (messages ++ [none]) true
    rw [heq]
    refine ⟨h.connections, h.ok_read, hheard, fun k ms hk => ?_, fun k ms hk => ?_, ?_⟩
    · rcases Worker.getElem?_snoc_cases hk with hk | ⟨-, hm⟩
      · exact hsucceeded k ms hk
      · cases hm
    · rcases Worker.getElem?_snoc_cases hk with hk | ⟨rfl, hm⟩
      · exact hext.reported rfl (h.failed k ms hk)
      · cases hm
        have hlen' : (s.setWorker w { s.workers w with outbox := rest }).returned.length =
          s.server.recvSerial := hlen
        rw [hlen']
        exact hreported
    · rcases hafter with ⟨-, hfalse⟩ | rfl | ⟨e, rfl⟩
      · cases hfalse
      · trivial
      · trivial
  · refine ⟨h.connections, h.ok_read, hheard, hsucceeded,
      fun k ms hk => hext.reported rfl (h.failed k ms hk), ?_⟩
    obtain ⟨hm, -⟩ | ⟨hnot, q, hm, hsent⟩ := hnext
    · cases hm
    · cases hm
      refine ⟨hb, hlen, senders ++ [w], ?_, ?_, hreading.read hout hnot⟩
      · exact List.nodup_append.mpr ⟨hnodup, List.nodup_singleton w, fun a ha c hc => by
          rw [List.mem_singleton.mp hc]
          exact fun heq => hnot (heq ▸ ha)⟩
      · exact List.rel_append (hext.fromRound hround) (.cons ⟨p, rfl, hext.sent hsent⟩ .nil)
  · exfalso
    obtain ⟨hm, -⟩ | ⟨-, q, hm, -⟩ := hnext
    · cases hm
    · cases hm
      exact hserial rfl

/-- With a message for each connection, every worker was heard. -/
theorem perm_finRange {senders : List (Fin n)} (hnodup : senders.Nodup)
    (hlen : n ≤ senders.length) : senders.Perm (List.finRange n) := by
  refine (List.perm_ext_iff_of_nodup hnodup (List.nodup_finRange n)).mpr fun w => ?_
  have hcard : senders.toFinset = Finset.univ := by
    refine Finset.eq_univ_of_card _ (le_antisymm (Finset.card_le_univ _) ?_)
    rw [List.toFinset_card_of_nodup hnodup, Fintype.card_fin]
    exact hlen
  have hw : w ∈ senders := List.mem_toFinset.mp (hcard ▸ Finset.mem_univ w)
  simp only [hw, List.mem_finRange]

theorem complete_cases (h : s.complete = some t) :
    ∃ request messages, s.launcher = .gathering request messages ∧
      s.server.numConnections ≤ messages.length ∧
      t = { s with server := { s.server with recvSerial := s.server.recvSerial + 1 } }.gathered
        request messages false := by
  unfold complete at h
  split at h
  · rename_i request messages hlauncher
    split at h
    · cases h
    · rename_i hge
      cases h
      exact ⟨request, messages, hlauncher, Nat.le_of_not_lt hge, rfl⟩
  · cases h

theorem Inv.complete (h : s.Inv) (hc : s.complete = some t) : t.Inv := by
  obtain ⟨request, messages, hlauncher, hge, rfl⟩ := complete_cases hc
  have hphase := h.phase
  simp only [InPhase, hlauncher] at hphase
  obtain ⟨hb, hlen, senders, hnodup, hround, hreading⟩ := hphase
  have hperm : senders.Perm (List.finRange n) := by
    refine perm_finRange hnodup ?_
    rw [← hround.length_eq, ← h.connections]
    exact hge
  have hall : ∀ w, w ∈ senders := fun w => hperm.mem_iff.mpr (List.mem_finRange w)
  obtain ⟨launcher, responses, heq, hafter⟩ :=
    gathered_spec (s := { s with server := { s.server with
      recvSerial := s.server.recvSerial + 1 } }) request messages false
  rw [heq]
  refine ⟨h.connections, h.worker, fun w k hk => ?_, fun k ms hk => ?_, fun k ms hk => ?_, ?_⟩
  · rcases Nat.lt_succ_iff_lt_or_eq.mp hk with hk | rfl
    · exact h.heard w k hk
    · obtain ⟨m, -, p, -, hp⟩ : ∃ m ∈ messages, ∃ p, m = some p ∧
          (s.workers w).Sent s.server.recvSerial p := by
        obtain ⟨i, hi, hw⟩ := List.getElem_of_mem (hall w)
        have hi' : i < messages.length := by rw [hround.length_eq]; exact hi
        obtain ⟨p, hm, hp⟩ := hround.get hi' hi
        refine ⟨messages[i], List.getElem_mem hi', p, hm, ?_⟩
        rw [← hw]
        exact hp
      exact ⟨p, hp⟩
  · rcases Worker.getElem?_snoc_cases hk with hk | ⟨rfl, hm⟩
    · exact ⟨Nat.lt_succ_of_lt (h.succeeded k ms hk).1, (h.succeeded k ms hk).2⟩
    · cases hm
      refine ⟨?_, senders, hperm, ?_⟩
      · simp only [hlen]
        omega
      · have hlen' : s.returned.length = s.server.recvSerial := hlen
        simp only [hlen']
        exact hround
  · rcases Worker.getElem?_snoc_cases hk with hk | ⟨-, hm⟩
    · have hlt := (List.getElem?_eq_some_iff.mp hk).1
      have hr := (h.failed k ms hk).1
      simp only [] at hlt
      omega
    · cases hm
  · rcases hafter with ⟨rfl, -⟩ | rfl | ⟨e, rfl⟩
    · refine ⟨by simp only [hb], by simp [hlen], fun w => ?_⟩
      have hw := hreading w
      rw [if_pos (hall w)] at hw
      simpa using hw
    · trivial
    · trivial

theorem unhealthy_cases (h : s.unhealthy = some t) :
    (∃ request messages, s.launcher = .gathering request messages) ∧
      ∃ launcher responses, t = { s with launcher := launcher, responses := responses } ∧
        (launcher = .finished ∨ ∃ e, launcher = .raised e) := by
  unfold unhealthy at h
  split at h
  · rename_i request messages hlauncher
    refine ⟨⟨request, messages, hlauncher⟩, ?_⟩
    split at h
    · split at h
      · cases h
        exact ⟨_, _, rfl, .inl rfl⟩
      · cases h
        exact ⟨_, _, rfl, .inr ⟨_, rfl⟩⟩
    · cases h
  · cases h

theorem Inv.unhealthy (h : s.Inv) (hu : s.unhealthy = some t) : t.Inv := by
  obtain ⟨-, launcher, responses, rfl, hafter⟩ := unhealthy_cases hu
  refine ⟨h.connections, h.worker, h.heard, h.succeeded, h.failed, ?_⟩
  rcases hafter with rfl | ⟨e, rfl⟩
  · trivial
  · trivial

theorem Inv.broadcast {request : Request β} (h : s.Inv) (hb : s.broadcast request = some t) :
    t.Inv := by
  have hphase := h.phase
  unfold Lockstep.broadcast at hb
  split at hb
  · rename_i hlauncher
    simp only [InPhase, hlauncher] at hphase
    obtain ⟨hserial, hlen, hreading⟩ := hphase
    simp only [ZMQBroadcastServer.broadcast, Option.some.injEq] at hb
    subst hb
    refine ⟨h.connections, fun w => (h.worker w).broadcast, h.heard, h.succeeded,
      fun k ms hk => ?_, hserial.symm, hlen, [], List.nodup_nil, .nil, hreading⟩
    have hlt := (List.getElem?_eq_some_iff.mp hk).1
    have hr := (h.failed k ms hk).1
    simp only [] at hlt
    omega
  · cases hb

/-- Every step keeps the invariant. -/
theorem Inv.step (h : s.Inv) (hs : Step s e t) : t.Inv := by
  unfold Step Lockstep.step at hs
  cases e with
  | connect w pid =>
    obtain ⟨worker, hw, rfl⟩ := Option.map_eq_some_iff.mp hs
    exact h.setWorker ((h.worker w).connect hw)
  | recv w =>
    obtain ⟨worker, hw, rfl⟩ := Option.map_eq_some_iff.mp hs
    exact h.setWorker ((h.worker w).recv hw)
  | respond w r =>
    obtain ⟨worker, hw, rfl⟩ := Option.map_eq_some_iff.mp hs
    exact h.setWorker ((h.worker w).respond hw)
  | raise w =>
    obtain ⟨worker, hw, rfl⟩ := Option.map_eq_some_iff.mp hs
    exact h.setWorker ((h.worker w).raise hw)
  | receive w => exact h.receive hs
  | complete => exact h.complete hs
  | unhealthy => exact h.unhealthy hs
  | broadcast request => exact h.broadcast hs

theorem reach_inv {rank : ℕ} (h : Reach Step (init n rank) s) : s.Inv :=
  h.invariant (fun _ _ _ hinv hs => hinv.step hs) (init_inv rank)

/-! ### Progress -/

/-- Moves that are left until the next broadcast. -/
def work (s : Lockstep n β μ) : ℕ := ∑ w, (s.workers w).work + s.launcher.work

/-- Only a broadcast makes new work. -/
def Event.isBroadcast : Event n β μ → Bool
  | .broadcast _ => true
  | _ => false

/-- What happens without an exception or a failed health check. -/
def Event.regular : Event n β μ → Bool
  | .connect _ _ | .recv _ | .respond _ _ | .receive _ | .complete => true
  | .raise _ | .unhealthy | .broadcast _ => false

theorem work_connect {w w' : Worker β μ} {pid : ℕ} (h : w.connect pid = some w') :
    w'.work < w.work := by
  unfold Worker.connect at h
  split at h
  · rename_i hphase
    cases h
    simp [Worker.work, hphase, Worker.send, Worker.push]
    omega
  · cases h

theorem work_recv {w w' : Worker β μ} (h : w.recv = some w') :
    w'.work < w.work := by
  unfold Worker.recv at h
  split at h
  · rename_i hphase hinbox
    split at h
    · cases h
      simp [Worker.work, hphase, hinbox]
      omega
    · cases h
      simp [Worker.work, hphase, hinbox, Worker.push]
      omega
  · cases h

theorem work_respond {w w' : Worker β μ} {r : Response μ} (h : w.respond r = some w') :
    w'.work < w.work := by
  unfold Worker.respond at h
  split at h
  · rename_i hphase
    cases h
    simp [Worker.work, hphase, Worker.send, Worker.push]
    omega
  · cases h

theorem work_raise {w w' : Worker β μ} (h : w.raise = some w') :
    w'.work < w.work := by
  unfold Worker.raise at h
  split at h
  · rename_i hphase
    cases h
    simp [Worker.work, hphase, Worker.push]
    omega
  · rename_i hphase
    cases h
    simp [Worker.work, hphase, Worker.push]
    omega
  · cases h

theorem work_setWorker {worker : Worker β μ} (h : worker.work < (s.workers w).work) :
    (s.setWorker w worker).work < s.work := by
  have hsum : ∑ v, ((s.setWorker w worker).workers v).work < ∑ v, (s.workers v).work := by
    refine Finset.sum_lt_sum (fun v _ => ?_) ⟨w, Finset.mem_univ w, ?_⟩
    · rw [setWorker_workers]
      split
      · rename_i hv
        rw [hv]
        exact h.le
      · exact le_rfl
    · rw [setWorker_workers, if_pos rfl]
      exact h
  unfold work
  exact Nat.add_lt_add_right hsum _

theorem work_gathered {request : Option (Request β)} {messages : List (Option (Payload μ))}
    {exceptionReceived : Bool} :
    (s.gathered request messages exceptionReceived).work = ∑ w, (s.workers w).work := by
  obtain ⟨launcher, responses, heq, hafter⟩ :=
    gathered_spec (s := s) request messages exceptionReceived
  rw [heq]
  rcases hafter with ⟨rfl, -⟩ | rfl | ⟨e, rfl⟩ <;> rfl

/-- Every event but a broadcast leaves less to do, so that only finitely many come before the next
    broadcast. -/
theorem work_step (hs : Step s e t) (hnot : e.isBroadcast = false) : t.work < s.work := by
  unfold Step step at hs
  cases e with
  | connect w pid =>
    obtain ⟨worker, hw, rfl⟩ := Option.map_eq_some_iff.mp hs
    exact work_setWorker (work_connect hw)
  | recv w =>
    obtain ⟨worker, hw, rfl⟩ := Option.map_eq_some_iff.mp hs
    exact work_setWorker (work_recv hw)
  | respond w r =>
    obtain ⟨worker, hw, rfl⟩ := Option.map_eq_some_iff.mp hs
    exact work_setWorker (work_respond hw)
  | raise w =>
    obtain ⟨worker, hw, rfl⟩ := Option.map_eq_some_iff.mp hs
    exact work_setWorker (work_raise hw)
  | receive w =>
    obtain ⟨request, messages, m, rest, hlauncher, -, hout, hcases⟩ := receive_cases hs
    have hless : (s.setWorker w { s.workers w with outbox := rest }).work < s.work := by
      refine work_setWorker ?_
      simp only [Worker.work, hout, List.length_cons]
      omega
    refine lt_of_le_of_lt ?_ hless
    rcases hcases with ⟨-, rfl⟩ | ⟨p, -, rfl⟩ | ⟨m', -, -, error, rfl⟩
    · rw [work_gathered]
      exact Nat.le_add_right _ _
    · simp [work, setWorker, LauncherPhase.work, hlauncher]
    · simp [work, setWorker, LauncherPhase.work]
  | complete =>
    obtain ⟨request, messages, hlauncher, -, rfl⟩ := complete_cases hs
    rw [work_gathered]
    simp only [work, hlauncher, LauncherPhase.work]
    omega
  | unhealthy =>
    obtain ⟨⟨request, messages, hlauncher⟩, launcher, responses, rfl, hafter⟩ := unhealthy_cases hs
    have hzero : launcher.work = 0 := by
      rcases hafter with rfl | ⟨e, rfl⟩ <;> rfl
    simp only [work, hlauncher, hzero]
    exact Nat.lt_succ_self _
  | broadcast request => cases hnot

/-- Between two broadcasts only finitely much happens. -/
theorem run_length_le {tr : List (Edge (Lockstep n β μ) (Event n β μ))} (hrun : Run Step s tr t)
    (hnot : ∀ x ∈ tr, x.event.isBroadcast = false) : tr.length + t.work ≤ s.work := by
  induction hrun with
  | nil _ => simp
  | cons hs _ ih =>
    have hless := work_step hs (hnot _ (List.mem_cons_self ..))
    have hrest := ih fun x hx => hnot x (List.mem_cons_of_mem _ hx)
    rw [List.length_cons]
    omega

/-- Inside a gather, what is left to read or to answer can be read or answered next. -/
theorem Inv.can_move (h : s.Inv) {request : Option (Request β)}
    {messages : List (Option (Payload μ))} (hlauncher : s.launcher = .gathering request messages) :
    ∃ e t, Event.regular e = true ∧ Step s e t := by
  have hphase := h.phase
  simp only [InPhase, hlauncher] at hphase
  obtain ⟨hb, -, senders, hnodup, hround, hreading⟩ := hphase
  by_cases hlt : messages.length < s.server.numConnections
  · obtain ⟨w, hw⟩ : ∃ w, w ∉ senders := by
      by_contra hall
      push Not at hall
      have hcard : Finset.univ ⊆ senders.toFinset := fun w _ => List.mem_toFinset.mpr (hall w)
      have hle := (Finset.card_le_card hcard).trans senders.toFinset_card_le
      rw [Finset.card_univ, Fintype.card_fin, ← hround.length_eq, ← h.connections] at hle
      omega
    obtain ⟨hle, hdrop⟩ := hreading w
    rw [if_neg hw, Nat.add_zero] at hle hdrop
    cases hout : (s.workers w).outbox with
    | cons m rest =>
      have hread : ∃ t, s.receive w = some t := by
        simp only [Lockstep.receive, hlauncher, hout, if_pos hlt]
        split
        · exact ⟨_, rfl⟩
        · exact ⟨_, rfl⟩
        · exact ⟨_, rfl⟩
      obtain ⟨t, ht⟩ := hread
      exact ⟨.receive w, t, rfl, ht⟩
    | nil =>
      rw [hout] at hdrop
      have hlen : (s.workers w).sent.length = s.server.recvSerial :=
        le_antisymm (List.drop_eq_nil_iff.mp hdrop.symm) hle
      have hin := (h.worker w).phase
      unfold Worker.InPhase at hin
      split at hin
      · rename_i hp
        obtain ⟨worker, hworker⟩ : ∃ worker, (s.workers w).connect 0 = some worker := by
          simp only [Worker.connect, hp]
          exact ⟨_, rfl⟩
        exact ⟨.connect w 0, s.setWorker w worker, rfl,
          Option.map_eq_some_iff.mpr ⟨_, hworker, rfl⟩⟩
      · rename_i hp
        have hbox := congrArg List.length (h.worker w).inbox
        rw [List.length_map, List.length_range'] at hbox
        cases hinbox : (s.workers w).inbox with
        | nil =>
          rw [hinbox, List.length_nil] at hbox
          omega
        | cons m rest =>
          obtain ⟨worker, hworker⟩ : ∃ worker, (s.workers w).recv = some worker := by
            simp only [Worker.recv, hp, hinbox, ((h.worker w).recv_ok hinbox).1]
            exact ⟨_, rfl⟩
          exact ⟨.recv w, s.setWorker w worker, rfl, Option.map_eq_some_iff.mpr ⟨_, hworker, rfl⟩⟩
      · rename_i hp
        obtain ⟨worker, hworker⟩ : ∃ worker, (s.workers w).respond .skipped = some worker := by
          simp only [Worker.respond, hp]
          exact ⟨_, rfl⟩
        exact ⟨.respond w .skipped, s.setWorker w worker, rfl,
          Option.map_eq_some_iff.mpr ⟨_, hworker, rfl⟩⟩
      · -- an exception would be among the messages that were read in earlier rounds
        exfalso
        obtain ⟨i, hi, hget⟩ := List.getElem_of_mem hin.1
        obtain ⟨p, hp⟩ := h.heard w i (hlen ▸ hi)
        rw [Worker.Sent, List.getElem?_eq_getElem hi, hget] at hp
        cases hp
      · exact hin.elim
  · obtain ⟨t, ht⟩ : ∃ t, s.complete = some t := by
      simp only [Lockstep.complete, hlauncher, if_neg hlt]
      exact ⟨_, rfl⟩
    exact ⟨.complete, t, rfl, ht⟩

/-- A regular step inside a gather stays in it or returns from it. -/
theorem Inv.stays_or_returns (h : s.Inv) {request : Option (Request β)}
    {messages : List (Option (Payload μ))} (hlauncher : s.launcher = .gathering request messages)
    (he : Event.regular e = true) (hs : Step s e t) :
    ((∃ request messages, t.launcher = .gathering request messages) ∧
        t.returned = s.returned) ∨ t.returned.length = s.returned.length + 1 := by
  unfold Step Lockstep.step at hs
  cases e with
  | connect w pid =>
    obtain ⟨worker, -, rfl⟩ := Option.map_eq_some_iff.mp hs
    exact .inl ⟨⟨request, messages, hlauncher⟩, rfl⟩
  | recv w =>
    obtain ⟨worker, -, rfl⟩ := Option.map_eq_some_iff.mp hs
    exact .inl ⟨⟨request, messages, hlauncher⟩, rfl⟩
  | respond w r =>
    obtain ⟨worker, -, rfl⟩ := Option.map_eq_some_iff.mp hs
    exact .inl ⟨⟨request, messages, hlauncher⟩, rfl⟩
  | raise w => cases he
  | receive w =>
    obtain ⟨request', messages', m, rest, hlauncher', -, hout, hcases⟩ := receive_cases hs
    have hphase := h.phase
    simp only [InPhase, hlauncher'] at hphase
    obtain ⟨hb, -, senders, -, -, hreading⟩ := hphase
    rcases hcases with ⟨-, rfl⟩ | ⟨p, -, rfl⟩ | ⟨m', rfl, hserial, -⟩
    · right
      rw [returned_gathered, List.length_append]
      rfl
    · exact .inl ⟨⟨_, _, rfl⟩, rfl⟩
    · rcases hreading.next (hb ▸ h.worker w) hout with ⟨hm, -⟩ | ⟨-, q, hm, -⟩
      · cases hm
      · cases hm
        exact absurd rfl hserial
  | complete =>
    obtain ⟨request', messages', -, -, rfl⟩ := complete_cases hs
    right
    rw [returned_gathered, List.length_append]
    rfl
  | unhealthy => cases he
  | broadcast request => cases he

theorem Event.not_broadcast_of_regular (he : Event.regular e = true) : e.isBroadcast = false := by
  cases e with
  | broadcast request => cases he
  | _ => rfl

/-- Without exceptions a gather returns, whatever is done next. -/
theorem Inv.gather_returns {k : ℕ} : ∀ {s : Lockstep n β μ}, s.Inv → s.work < k →
    ∀ {request messages}, s.launcher = .gathering request messages →
    ∃ tr t, Run Step s tr t ∧ (∀ x ∈ tr, Event.regular x.event = true) ∧
      t.returned.length = s.returned.length + 1 := by
  induction k with
  | zero => exact fun _ hk => absurd hk (Nat.not_lt_zero _)
  | succ k ih =>
    intro s h hk request messages hlauncher
    obtain ⟨e, t, he, hs⟩ := h.can_move hlauncher
    rcases h.stays_or_returns hlauncher he hs with ⟨⟨request', messages', ht⟩, hreturned⟩ | hlen
    · have hless := work_step hs (Event.not_broadcast_of_regular he)
      obtain ⟨tr, u, hrun, hregular, hlen⟩ := ih (h.step hs) (by omega) ht
      refine ⟨_, u, .cons hs hrun, fun x hx => ?_, by rw [hlen, hreturned]⟩
      rcases List.mem_cons.mp hx with rfl | hx
      · exact he
      · exact hregular x hx
    · refine ⟨_, t, .cons hs (.nil t), fun x hx => ?_, hlen⟩
      rw [List.mem_singleton.mp hx]
      exact he

/-! ### Lockstep -/

/-- The checks of the serial numbers hold for what can be read next. -/
def InOrder (s : Lockstep n β μ) : Prop :=
  (∀ w m rest, (s.workers w).inbox = m :: rest → ∃ r, (s.workers w).client.recv m = .ok r) ∧
    ∀ request messages w m rest, s.launcher = .gathering request messages →
      (s.workers w).outbox = m :: rest → ∃ r, s.server.recvOne m = .ok r

theorem Inv.inOrder (h : s.Inv) : s.InOrder := by
  refine ⟨fun w m rest hinbox => ⟨_, ((h.worker w).recv_ok hinbox).1⟩, ?_⟩
  intro request messages w m rest hlauncher hout
  have hphase := h.phase
  simp only [InPhase, hlauncher] at hphase
  obtain ⟨hb, -, senders, -, -, hreading⟩ := hphase
  rcases hreading.next (hb ▸ h.worker w) hout with ⟨rfl, -⟩ | ⟨-, p, rfl, -⟩
  · exact ⟨_, rfl⟩
  · simp only [ZMQBroadcastServer.recvOne, check.eq_self, ok_bind]
    exact ⟨_, rfl⟩

/-- The gather that reports an exception is the last one. -/
theorem Inv.failed_last (h : s.Inv) {k : ℕ} {messages : List (Option (Payload μ))}
    (hk : s.returned[k]? = some (messages, true)) : k + 1 = s.returned.length := by
  have hlt := (List.getElem?_eq_some_iff.mp hk).1
  have hr := (h.failed k messages hk).1
  refine le_antisymm hlt (Nat.le_of_not_lt fun hlonger => ?_)
  obtain ⟨⟨ms, b⟩, hget⟩ : ∃ r, s.returned[k + 1]? = some r :=
    ⟨_, List.getElem?_eq_getElem hlonger⟩
  cases b with
  | false => have := (h.succeeded (k + 1) ms hget).1; omega
  | true => have := (h.failed (k + 1) ms hget).1; omega

/-- An exception is reported by the gather of the message it stands for, or by the one before if the
    worker raised it unasked. -/
theorem Inv.exception_round (h : s.Inv) {m k : ℕ} {messages : List (Option (Payload μ))}
    (hm : (s.workers w).sent[m]? = some .exception) :
    (s.returned[k]? = some (messages, false) → k < m) ∧
      (s.returned[k]? = some (messages, true) →
        k = m ∨ k + 1 = m ∧ (s.workers w).client.recvSerial < m) := by
  have hge : s.server.recvSerial ≤ m := by
    by_contra hlt
    obtain ⟨p, hp⟩ := h.heard w m (Nat.lt_of_not_le hlt)
    rw [Worker.Sent, hm] at hp
    cases hp
  refine ⟨fun hk => lt_of_lt_of_le (h.succeeded k messages hk).1 hge, fun hk => ?_⟩
  obtain ⟨hr, hb, -⟩ := h.failed k messages hk
  have hlast := ((h.worker w).last m hm).1
  have hlen := (h.worker w).length_le
  have hbehind := (h.worker w).behind
  by_cases hkm : k = m
  · exact .inl hkm
  · exact .inr (by omega)

/-- CORRECT: in every run, the checks of the serial numbers hold; what the `k`-th gather returns
    without an exception is the `k`-th message of every worker, each once; an exception is reported
    by the last gather, only if it was sent, and in the round whose message it stands for; and a
    gather can always be brought to return, with only finitely much that can happen before. -/
theorem stays_in_lockstep {rank : ℕ} (hreach : Reach Step (init n rank) s) :
    s.InOrder ∧
      (∀ k messages, s.returned[k]? = some (messages, false) → s.IsRound k messages) ∧
      (∀ k messages, s.returned[k]? = some (messages, true) → k + 1 = s.returned.length ∧
        (∃ read, messages = read ++ [none]) ∧ ∃ w, .exception ∈ (s.workers w).sent) ∧
      (∀ w m k messages, (s.workers w).sent[m]? = some .exception →
        (s.returned[k]? = some (messages, false) → k < m) ∧
        (s.returned[k]? = some (messages, true) →
          k = m ∨ k + 1 = m ∧ (s.workers w).client.recvSerial < m)) ∧
      (∀ request messages, s.launcher = .gathering request messages →
        ∃ tr t, Run Step s tr t ∧ (∀ x ∈ tr, Event.regular x.event = true) ∧
          t.returned.length = s.returned.length + 1) ∧
      ∀ tr t, Run Step s tr t → (∀ x ∈ tr, x.event.isBroadcast = false) → tr.length ≤ s.work := by
  have h := reach_inv hreach
  refine ⟨h.inOrder, fun k ms hk => (h.succeeded k ms hk).2, fun k ms hk => ?_,
    fun w m k ms hm => h.exception_round hm, fun request ms hl => ?_, fun tr t hrun hnot => ?_⟩
  · obtain ⟨-, -, hread, hsent⟩ := h.failed k ms hk
    exact ⟨h.failed_last hk, hread, hsent⟩
  · exact h.gather_returns (Nat.lt_succ_self _) hl
  · exact le_trans (Nat.le_add_right _ _) (run_length_le hrun hnot)

/-- Two workers connect, the second is heard first, and then the first fails. -/
theorem stays_in_lockstep_pair : ∃ s : Lockstep 2 Unit Unit, Reach Step (init 2 0) s ∧
    s.returned.map (fun r => (r.1.length, r.2)) = [(2, false), (1, true)] ∧ s.InOrder := by
  obtain ⟨tr, s, hrun, -, hreturned⟩ := Run.exists_of_exec (fun _ _ _ h => h)
    (fun r => r.2.returned.map (fun r => (r.1.length, r.2)))
    (show (exec step (init 2 0 : Lockstep 2 Unit Unit) [.connect 0 10, .connect 1 11, .receive 1,
      .receive 0, .complete, .broadcast ⟨.runStep, ()⟩, .recv 0, .raise 0, .receive 0]).map _ =
        some [(2, false), (1, true)] from rfl)
  exact ⟨s, ⟨tr, hrun⟩, hreturned, (stays_in_lockstep ⟨tr, hrun⟩).1⟩

end Lockstep

end Determined.Harness
