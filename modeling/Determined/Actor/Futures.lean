import Determined.Actor.Registry

/-! Every ask is answered exactly once.

    The answer to an ask is owed by the message that carries its future: while that is in an inbox or
    in the hands of its recipient, the ask has no answer, and it gets one as the message goes. So for
    each ask the number of messages that owe it an answer and the number of answers it has got add up
    to one, whatever happens, with a refused ask having its answer from the start (`Inv.once`). An
    actor that owes something has not drained its inbox yet, and has a way to get rid of it. -/

namespace Determined.Actor

open Schemes

variable {κ μ : Type*}

/-- The ask that a message in hand has to answer still. -/
def Context.owes (c : Context κ μ) : Option ℕ := if c.resultSent then none else c.result

/-- The message that `Receive` is at work on. -/
def Phase.context : Phase κ μ → Option (Context κ μ)
  | .handling ctx | .notified ctx => some ctx
  | _ => none

namespace Ref

def hands (r : Ref κ μ) : List (Context κ μ) := r.phase.context.toList ++ r.inbox

end Ref

/-- How often the messages owe an answer to this ask. -/
def owed (queue : List (Context κ μ)) (a : ℕ) : ℕ := (queue.filterMap Context.owes).count a

@[simp] theorem owed_nil (a : ℕ) : owed ([] : List (Context κ μ)) a = 0 := rfl

theorem owed_append (queue queue' : List (Context κ μ)) (a : ℕ) :
    owed (queue ++ queue') a = owed queue a + owed queue' a := by
  simp [owed, List.filterMap_append, List.count_append]

theorem owed_cons (c : Context κ μ) (queue : List (Context κ μ)) (a : ℕ) :
    owed (c :: queue) a = owed [c] a + owed queue a :=
  owed_append [c] queue a

theorem owed_singleton (c : Context κ μ) (a : ℕ) : owed [c] a = if c.owes = some a then 1 else 0 := by
  unfold owed
  cases h : c.owes with
  | none => simp [h]
  | some b => simp [h, List.count_singleton]

theorem owed_of_result_none {c : Context κ μ} (h : c.result = none) (a : ℕ) : owed [c] a = 0 := by
  have howes : c.owes = none := by simp [Context.owes, h]
  rw [owed_singleton, howes]
  rfl

theorem Context.owes_of_fresh {c : Context κ μ} (h : c.resultSent = false) : c.owes = c.result := by
  simp [owes, h]

/-- One actor lets go of the messages of the queue, and takes in no ask. -/
structure Settles (queue : List (Context κ μ)) (r r' : Ref κ μ) : Prop where
  hands : ∀ c ∈ r'.hands, c.result = none ∨ ∃ c' ∈ r.hands, c'.result = c.result
  owed : ∀ a, owed r'.hands a + Actor.owed queue a = Actor.owed r.hands a
  fresh : (∀ c ∈ r.inbox, c.resultSent = false) → ∀ c ∈ r'.inbox, c.resultSent = false
  drained : (r.phase.began → r.closed ∧ r.inbox = []) → r'.phase.began → r'.closed ∧ r'.inbox = []
  shutdown : r.phase = .shutdown → r'.phase = .shutdown

abbrev Quiet (r r' : Ref κ μ) : Prop := Settles [] r r'

theorem Quiet.refl (r : Ref κ μ) : Quiet r r :=
  ⟨fun c hc => .inr ⟨c, hc, rfl⟩, fun _ => rfl, id, id, id⟩

theorem Quiet.owed_eq {r r' : Ref κ μ} (h : Quiet r r') (a : ℕ) :
    Actor.owed r'.hands a = Actor.owed r.hands a :=
  h.owed a

theorem Settles.then_quiet {queue : List (Context κ μ)} {r r' r'' : Ref κ μ}
    (h : Settles queue r r') (h' : Quiet r' r'') : Settles queue r r'' where
  hands c hc := by
    rcases h'.hands c hc with hnone | ⟨c', hc', heq⟩
    · exact .inl hnone
    · rw [← heq]
      exact h.hands c' hc'
  owed a := by
    have := h.owed a
    have := h'.owed a
    rw [owed_nil] at this
    omega
  fresh := h'.fresh ∘ h.fresh
  drained := h'.drained ∘ h.drained
  shutdown := h'.shutdown ∘ h.shutdown

/-- What the hands, the inbox and the phase do not show. -/
theorem Quiet.of_eq {r r' : Ref κ μ} (hinbox : r'.inbox = r.inbox) (hclosed : r'.closed = r.closed)
    (hphase : r'.phase = r.phase) : Quiet r r' := by
  have hhands : r'.hands = r.hands := by rw [Ref.hands, Ref.hands, hinbox, hphase]
  exact ⟨fun c hc => .inr ⟨c, hhands ▸ hc, rfl⟩, fun a => by rw [hhands]; rfl,
    fun h => by rwa [hinbox], fun h => by rwa [hphase, hclosed, hinbox], fun h => by rwa [hphase]⟩

/-- A message without a future comes in. -/
theorem Quiet.add (r : Ref κ μ) (sender : Option RefId) (message : Message κ μ) :
    Quiet r (r.add ⟨message, sender, none, false⟩) := by
  unfold Ref.add
  split
  · exact .refl r
  · rename_i hopen
    refine ⟨fun c hc => ?_, fun a => ?_, fun h c hc => ?_, fun h hbegan => ?_, id⟩
    · simp only [Ref.hands, List.mem_append, List.mem_singleton] at hc ⊢
      rcases hc with hc | hc | rfl
      · exact .inr ⟨c, .inl hc, rfl⟩
      · exact .inr ⟨c, .inr hc, rfl⟩
      · exact .inl rfl
    · simp only [Ref.hands, owed_append, owed_nil]
      rw [owed_of_result_none (c := ⟨message, sender, none, false⟩) rfl]
      omega
    · rcases List.mem_append.mp hc with hc | hc
      · exact h c hc
      · rw [List.mem_singleton.mp hc]
    · exact absurd (h hbegan).1 hopen

/-- Work goes on without a message in hand. -/
theorem Quiet.phase {r r' : Ref κ μ} (hinbox : r'.inbox = r.inbox) (hclosed : r'.closed = r.closed)
    (hcontext : r.phase.context = none) (hcontext' : r'.phase.context = none)
    (hbegan : r'.phase.began → r.phase.began) (hshutdown : r.phase ≠ .shutdown) : Quiet r r' := by
  have hhands : r'.hands = r.hands := by rw [Ref.hands, Ref.hands, hinbox, hcontext, hcontext']
  exact ⟨fun c hc => .inr ⟨c, hhands ▸ hc, rfl⟩, fun a => by rw [hhands]; rfl,
    fun h => by rwa [hinbox], fun h hb => by rw [hclosed, hinbox]; exact h (hbegan hb),
    fun h => absurd h hshutdown⟩

/-- `Receive` is over, and its message was answered. -/
theorem Settles.handled {r r' : Ref κ μ} {ctx : Context κ μ} (hctx : r.phase.context = some ctx)
    (hinbox : r'.inbox = r.inbox) (hcontext' : r'.phase.context = none)
    (hbegan' : r'.phase.began = false) : Settles [ctx] r r' := by
  have hhands : r.hands = ctx :: r'.hands := by
    rw [Ref.hands, Ref.hands, hctx, hcontext', hinbox]
    rfl
  refine ⟨fun c hc => .inr ⟨c, ?_, rfl⟩, fun a => ?_, fun h => by rwa [hinbox], fun _ hb => ?_,
    fun hshutdown => ?_⟩
  · rw [hhands]
    exact List.mem_cons_of_mem _ hc
  · rw [hhands, owed_cons ctx r'.hands]
    omega
  · rw [hbegan'] at hb
    cases hb
  · rw [hshutdown] at hctx
    cases hctx

/-- A message is taken from the inbox and answered. -/
theorem Settles.taken {r r' : Ref κ μ} {ctx : Context κ μ} {rest : List (Context κ μ)}
    (hphase : r.phase = .receiving) (hqueue : r.inbox = ctx :: rest) (hinbox : r'.inbox = rest)
    (hcontext' : r'.phase.context = none) (hbegan' : r'.phase.began = false) :
    Settles [ctx] r r' := by
  have hhands : r.hands = ctx :: r'.hands := by
    rw [Ref.hands, Ref.hands, hphase, hcontext', hinbox, hqueue]
    rfl
  refine ⟨fun c hc => .inr ⟨c, ?_, rfl⟩, fun a => ?_, fun h c hc => h c ?_, fun _ hb => ?_,
    fun hshutdown => ?_⟩
  · rw [hhands]
    exact List.mem_cons_of_mem _ hc
  · rw [hhands, owed_cons ctx r'.hands]
    omega
  · rw [hqueue]
    rw [hinbox] at hc
    exact List.mem_cons_of_mem _ hc
  · rw [hbegan'] at hb
    cases hb
  · rw [hphase] at hshutdown
    cases hshutdown

/-- A message is taken from the inbox for `Receive`. -/
theorem Quiet.taken {r r' : Ref κ μ} {ctx : Context κ μ} {rest : List (Context κ μ)}
    (hphase : r.phase = .receiving) (hqueue : r.inbox = ctx :: rest) (hinbox : r'.inbox = rest)
    (hcontext' : r'.phase.context = some ctx) : Quiet r r' := by
  have hhands : r'.hands = r.hands := by
    rw [Ref.hands, Ref.hands, hphase, hcontext', hinbox, hqueue]
    rfl
  refine ⟨fun c hc => .inr ⟨c, hhands ▸ hc, rfl⟩, fun a => by rw [hhands]; rfl, fun h c hc => h c ?_,
    fun _ hb => ?_, fun hshutdown => ?_⟩
  · rw [hqueue]
    rw [hinbox] at hc
    exact List.mem_cons_of_mem _ hc
  · cases h : r'.phase <;> simp_all [Phase.context, Phase.began]
  · rw [hphase] at hshutdown
    cases hshutdown

/-- `inbox.close` -/
theorem Settles.closed {r r' : Ref κ μ} (hphase : r.phase = .exiting) (hinbox : r'.inbox = [])
    (hclosed : r'.closed = true) (hcontext' : r'.phase.context = none) :
    Settles r.inbox r r' := by
  have hhands : r.hands = r.inbox := by
    rw [Ref.hands, hphase]
    rfl
  have hhands' : r'.hands = [] := by
    rw [Ref.hands, hcontext', hinbox]
    rfl
  refine ⟨fun c hc => ?_, fun a => ?_, fun _ c hc => ?_, fun _ _ => ⟨hclosed, hinbox⟩,
    fun hshutdown => ?_⟩
  · rw [hhands'] at hc
    cases hc
  · rw [hhands, hhands', owed_nil, Nat.zero_add]
  · rw [hinbox] at hc
    cases hc
  · rw [hphase] at hshutdown
    cases hshutdown

namespace System

/-- How often an answer to the ask is owed. -/
def pending (s : System κ μ) (a : ℕ) : ℕ := s.actors.total fun r => owed r.hands a

def resolved (s : System κ μ) (a : ℕ) : ℕ := (s.responses.get a).resolutions.length

/-- The future of a message is one that somebody waits for. -/
def Accepted (s : System κ μ) (c : Context κ μ) : Prop :=
  ∀ a, c.result = some a → a < s.responses.size ∧ (s.responses.get a).future.isSome

theorem Accepted.add {s : System κ μ} {c : Context κ μ} (h : s.Accepted c) (r : Response μ) :
    ∀ a, c.result = some a →
      a < (s.responses.add r).size ∧ ((s.responses.add r).get a).future.isSome := by
  intro a ha
  obtain ⟨hlt, hfuture⟩ := h a ha
  rw [Arena.size_add, Arena.get_add_of_lt _ _ hlt]
  exact ⟨by omega, hfuture⟩

/-- The messages of the queue have been answered. -/
structure Resolves (queue : List (Context κ μ)) (s s' : System κ μ) : Prop where
  size : s'.responses.size = s.responses.size
  future : ∀ a, (s'.responses.get a).future.isSome = (s.responses.get a).future.isSome
  result : ∀ a, (s'.responses.get a).result = (s.responses.get a).result
  resolved : ∀ a, s'.resolved a = s.resolved a + owed queue a

variable {s s' s'' : System κ μ} {queue queue' : List (Context κ μ)} {ctx : Context κ μ}

theorem Resolves.of_eq (h : s'.responses = s.responses) : Resolves [] s s' :=
  ⟨by rw [h], fun a => by rw [h], fun a => by rw [h], fun a => by simp [System.resolved, h]⟩

theorem Resolves.trans (h : Resolves queue s s') (h' : Resolves queue' s' s'') :
    Resolves (queue ++ queue') s s'' where
  size := h'.size.trans h.size
  future a := (h'.future a).trans (h.future a)
  result a := (h'.result a).trans (h.result a)
  resolved a := by rw [h'.resolved, h.resolved, owed_append, Nat.add_assoc]

theorem Resolves.modify {r : RefId} {f : Ref κ μ → Ref κ μ} (h : Resolves queue s s') :
    Resolves queue s (s'.modify r f) :=
  ⟨h.size, h.future, h.result, h.resolved⟩

theorem Resolves.of_modify {r : RefId} {f : Ref κ μ → Ref κ μ}
    (h : Resolves queue (s.modify r f) s') : Resolves queue s s' :=
  ⟨h.size, h.future, h.result, h.resolved⟩

/-- Nobody waits for an answer to the message. -/
theorem Resolves.unasked (hres : s'.responses = s.responses) (hctx : ctx.result = none) :
    Resolves [ctx] s s' :=
  ⟨by rw [hres], fun a => by rw [hres], fun a => by rw [hres], fun a => by
    rw [owed_of_result_none hctx]
    simp [System.resolved, hres]⟩

theorem Resolves.accepted (h : Resolves queue s s') (hctx : s.Accepted ctx) : s'.Accepted ctx :=
  fun a ha => by
    rw [h.size, h.future]
    exact hctx a ha

/-- Answering a message whose ask has no answer yet. -/
theorem Resolves.respond (hctx : s.Accepted ctx) (howes : ctx.owes = ctx.result)
    (answer : Answer μ) : Resolves [ctx] s (s.respond ctx answer) := by
  unfold System.respond
  cases hresult : ctx.result with
  | none =>
    refine ⟨rfl, fun _ => rfl, fun _ => rfl, fun a => ?_⟩
    rw [owed_of_result_none hresult]
    rfl
  | some b =>
    obtain ⟨-, hfuture⟩ := hctx b hresult
    obtain ⟨answers, hanswers⟩ := Option.isSome_iff_exists.mp hfuture
    refine ⟨rfl, fun a => ?_, fun a => ?_, fun a => ?_⟩
    · exact Arena.get_modify_congr s.responses (·.send answer)
        (fun r : Response μ => r.future.isSome) (by simp [Response.send])
    · exact Arena.get_modify_congr s.responses (·.send answer)
        (fun r : Response μ => r.result) rfl
    · rw [owed_singleton, howes, hresult]
      simp only [System.resolved, Arena.get_modify]
      by_cases hab : a = b
      · subst hab
        simp [Response.send, Response.resolutions, hanswers]
      · have hba : ¬ b = a := fun h => hab h.symm
        simp [hab, hba]

/-- The fallback answers what is owed, and nothing else. -/
theorem Resolves.fallback (hctx : s.Accepted ctx) : Resolves [ctx] s (s.fallback ctx) := by
  unfold System.fallback
  by_cases hsent : ctx.resultSent
  · have hnot : ctx.expectingResponse = false := by simp [Context.expectingResponse, hsent]
    have howes : ctx.owes = none := by simp [Context.owes, hsent]
    rw [hnot]
    refine ⟨rfl, fun _ => rfl, fun _ => rfl, fun a => ?_⟩
    rw [owed_singleton, howes]
    rfl
  · have howes : ctx.owes = ctx.result := by simp [Context.owes, hsent]
    by_cases hresult : ctx.result = none
    · have hnot : ctx.expectingResponse = false := by simp [Context.expectingResponse, hresult]
      rw [hnot]
      refine ⟨rfl, fun _ => rfl, fun _ => rfl, fun a => ?_⟩
      rw [owed_of_result_none hresult]
      rfl
    · have hexpecting : ctx.expectingResponse = true := by
        simp [Context.expectingResponse, hsent, Option.isSome_iff_ne_none.mpr hresult]
      rw [if_pos hexpecting]
      exact .respond hctx howes _

theorem Resolves.drain (h : ∀ c ∈ queue, s.Accepted c) : Resolves queue s (queue.foldl System.fallback s) := by
  induction queue generalizing s with
  | nil => exact .of_eq rfl
  | cons c rest ih =>
    have hfirst := Resolves.fallback (h c (List.mem_cons_self ..))
    exact hfirst.trans (ih fun c' hc' => hfirst.accepted (h c' (List.mem_cons_of_mem _ hc')))

end System

/-! ### The invariant -/

/-- What an actor has in hand can be answered, and nothing is left after the inbox was closed. -/
structure RefOk (s : System κ μ) (r : Ref κ μ) : Prop where
  accepted : ∀ c ∈ r.hands, s.Accepted c
  fresh : ∀ c ∈ r.inbox, c.resultSent = false
  drained : r.phase.began → r.closed ∧ r.inbox = []

structure FuturesInv (s : System κ μ) : Prop where
  root : 0 < s.actors.size
  registered : ∀ a i, s.refs a = some i → i < s.actors.size
  outside : ∀ i, s.actors.size ≤ i → (s.ref i).phase = .shutdown
  ok : ∀ i, RefOk s (s.ref i)
  once : ∀ a < s.responses.size, s.pending a + s.resolved a = 1
  refused : ∀ a < s.responses.size, (s.responses.get a).future = none →
    (s.responses.get a).result = some .noResponse

namespace FuturesInv

open Determined.Actor.System

variable {s s' : System κ μ} {r : RefId} {queue : List (Context κ μ)}

theorem lt_size (h : FuturesInv s) (hr : (s.ref r).phase ≠ .shutdown) : r < s.actors.size :=
  Nat.lt_of_not_le fun hle => hr (h.outside r hle)

/-- Nobody owes an answer to an ask that is still to come. -/
theorem owed_eq_zero (h : FuturesInv s) (i : RefId) {a : ℕ} (ha : s.responses.size ≤ a) :
    owed (s.ref i).hands a = 0 := by
  refine List.count_eq_zero.mpr fun hmem => ?_
  obtain ⟨c, hc, howes⟩ := List.mem_filterMap.mp hmem
  have hresult : c.result = some a := by
    unfold Context.owes at howes
    split at howes
    · cases howes
    · exact howes
  have := ((h.ok i).accepted c hc a hresult).1
  omega

/-- One actor lets go of some messages, and these are answered. -/
theorem change (h : FuturesInv s) (hsize : s'.actors.size = s.actors.size)
    (hrefs : ∀ a i, s'.refs a = some i → i < s.actors.size) (hres : Resolves queue s s')
    (hother : ∀ i, i ≠ r → Quiet (s.ref i) (s'.ref i)) (hr : Settles queue (s.ref r) (s'.ref r))
    (hrun : (s.ref r).phase ≠ .shutdown) : FuturesInv s' := by
  have hall : ∀ i, ∃ q, Settles q (s.ref i) (s'.ref i) := fun i => by
    by_cases hi : i = r
    · exact ⟨queue, hi ▸ hr⟩
    · exact ⟨[], hother i hi⟩
  refine ⟨hsize ▸ h.root, hsize ▸ hrefs, fun i hi => ?_, fun i => ?_, fun a ha => ?_,
    fun a ha hfuture => ?_⟩
  · obtain ⟨q, hq⟩ := hall i
    exact hq.shutdown (h.outside i (hsize ▸ hi))
  · obtain ⟨q, hq⟩ := hall i
    obtain ⟨haccepted, hfresh, hdrained⟩ := h.ok i
    refine ⟨fun c hc => ?_, hq.fresh hfresh, hq.drained hdrained⟩
    rcases hq.hands c hc with hnone | ⟨c', hc', heq⟩
    · intro a ha
      rw [hnone] at ha
      cases ha
    · intro a ha
      exact hres.accepted (haccepted c' hc') a (heq.trans ha)
  · rw [hres.size] at ha
    have htotal := Arena.total_update (fun r : Ref κ μ => owed r.hands a) hsize
      (fun i hi => (hother i hi).owed_eq a) (h.lt_size hrun)
    have hsettled := hr.owed a
    have honce := h.once a ha
    rw [hres.resolved]
    unfold pending at honce ⊢
    simp only [ref] at hsettled
    omega
  · rw [hres.size] at ha
    have hnone := hres.future a
    rw [hfuture] at hnone
    rw [hres.result]
    exact h.refused a ha (Option.not_isSome_iff_eq_none.mp (by rw [← hnone]; simp))

/-- Nothing happens to the asks. -/
theorem quiet (h : FuturesInv s) (hsize : s'.actors.size = s.actors.size)
    (hrefs : ∀ a i, s'.refs a = some i → i < s.actors.size) (hres : s'.responses = s.responses)
    (hall : ∀ i, Quiet (s.ref i) (s'.ref i)) : FuturesInv s' := by
  refine ⟨hsize ▸ h.root, hsize ▸ hrefs, fun i hi => ?_, fun i => ?_, fun a ha => ?_, ?_⟩
  · exact (hall i).shutdown (h.outside i (hsize ▸ hi))
  · obtain ⟨haccepted, hfresh, hdrained⟩ := h.ok i
    refine ⟨fun c hc => ?_, (hall i).fresh hfresh, (hall i).drained hdrained⟩
    rcases (hall i).hands c hc with hnone | ⟨c', hc', heq⟩
    · intro a ha
      rw [hnone] at ha
      cases ha
    · intro a ha
      exact (Resolves.of_eq hres).accepted (haccepted c' hc') a (heq.trans ha)
  · have htotal : s'.pending a = s.pending a :=
      Arena.total_congr _ hsize fun i => (hall i).owed_eq a
    rw [hres] at ha
    rw [htotal, System.resolved, hres]
    exact h.once a ha
  · rw [hres]
    exact h.refused

/-- One actor changes, and the asks do not notice. -/
theorem modify (h : FuturesInv s) {f : Ref κ μ → Ref κ μ} (hf : Quiet (s.ref r) (f (s.ref r))) :
    FuturesInv (s.modify r f) := by
  refine h.quiet rfl h.registered rfl fun i => ?_
  rw [ref_modify]
  split
  · rename_i hi
    subst hi
    exact hf
  · exact .refl _

theorem tell (h : FuturesInv s) (sender : Option RefId) (target : RefId) (message : Message κ μ) :
    FuturesInv (s.tell sender target message) :=
  h.modify (.add _ sender message)

theorem of_awaits (h : FuturesInv s) (hactors : s'.actors = s.actors) (hrefs : s'.refs = s.refs)
    (hres : s'.responses = s.responses) : FuturesInv s' := by
  refine h.quiet (by rw [hactors]) (hrefs ▸ h.registered) hres fun i => ?_
  have href : s'.ref i = s.ref i := by simp only [ref, hactors]
  rw [href]
  exact .refl _

/-- A new ask: refused at once, or owed by the target from now on. -/
theorem ask (h : FuturesInv s) {sender : Option RefId} {target : RefId} (message : Message κ μ)
    (htarget : target < s.actors.size) : FuturesInv (s.ask sender target message) := by
  have hzero : ∀ i, owed (s.ref i).hands s.responses.size = 0 := fun i => h.owed_eq_zero i le_rfl
  have hpending : s.pending s.responses.size = 0 := by
    unfold pending Arena.total
    exact Finset.sum_eq_zero fun i _ => hzero i
  by_cases hclosed : (s.ref target).closed
  · have hask : s.ask sender target message =
        { s with responses := s.responses.add (emptyResponse sender) } := by
      rw [System.ask, if_pos hclosed]
    rw [hask]
    refine ⟨h.root, h.registered, h.outside, fun i => ?_, fun a ha => ?_, fun a ha hnone => ?_⟩
    · obtain ⟨haccepted, hfresh, hdrained⟩ := h.ok i
      exact ⟨fun c hc => (haccepted c hc).add _, hfresh, hdrained⟩
    · simp only [Arena.size_add] at ha
      simp only [System.resolved, Arena.get_add]
      split
      · rename_i heq
        subst heq
        exact Nat.add_eq_right.mpr hpending
      · exact h.once a (by omega)
    · simp only [Arena.size_add] at ha
      simp only [Arena.get_add] at hnone ⊢
      split
      · rfl
      · rename_i hne
        rw [if_neg hne] at hnone
        exact h.refused a (by omega) hnone
  · have hbegan : ¬ (s.ref target).phase.began := fun hb => hclosed ((h.ok target).drained hb).1
    have hres : (s.ask sender target message).responses =
        s.responses.add ⟨some target, some [], false, none⟩ := by
      rw [System.ask, if_neg hclosed]
    have href : ∀ i, (s.ask sender target message).ref i = if i = target then
        { s.ref i with
          inbox := (s.ref i).inbox ++ [⟨message, sender, some s.responses.size, false⟩] }
        else s.ref i := by
      intro i
      rw [ref_ask]
      by_cases hi : i = target
      · subst hi
        rw [if_pos rfl, if_pos rfl, Ref.add, if_neg hclosed]
      · rw [if_neg hi, if_neg hi]
    have hlater : ∀ c, s.Accepted c → (s.ask sender target message).Accepted c := by
      intro c hc
      rw [System.Accepted, hres]
      exact hc.add _
    have hnew : (s.ask sender target message).Accepted
        ⟨message, sender, some s.responses.size, false⟩ := by
      rintro a ⟨⟩
      rw [hres, Arena.get_add_self]
      exact ⟨by simp, rfl⟩
    refine ⟨by rw [ask_size]; exact h.root, by rw [ask_refs, ask_size]; exact h.registered,
      fun i hi => ?_, fun i => ?_, fun a ha => ?_, fun a ha hnone => ?_⟩
    · rw [ask_size] at hi
      rw [href]
      split
      · exact h.outside i hi
      · exact h.outside i hi
    · obtain ⟨haccepted, hfresh, hdrained⟩ := h.ok i
      rw [href]
      split
      · rename_i hi
        subst hi
        refine ⟨fun c hc => ?_, fun c hc => ?_, fun hb => absurd hb hbegan⟩
        · simp only [Ref.hands, List.mem_append, List.mem_singleton] at hc
          rcases hc with hc | hc | rfl
          · exact hlater c (haccepted c (List.mem_append_left _ hc))
          · exact hlater c (haccepted c (List.mem_append_right _ hc))
          · exact hnew
        · rcases List.mem_append.mp hc with hc | hc
          · exact hfresh c hc
          · rw [List.mem_singleton.mp hc]
      · exact ⟨fun c hc => hlater c (haccepted c hc), hfresh, hdrained⟩
    · rw [hres, Arena.size_add] at ha
      have htotal : (s.ask sender target message).actors.total (fun r => owed r.hands a) +
            owed (s.actors.get target).hands a =
          s.actors.total (fun r => owed r.hands a) +
            owed ((s.ask sender target message).actors.get target).hands a :=
        Arena.total_update (fun r : Ref κ μ => owed r.hands a) ask_size
          (fun i hi => congrArg (fun r : Ref κ μ => owed r.hands a) ((href i).trans (if_neg hi)))
          htarget
      have htarget' : owed ((s.ask sender target message).actors.get target).hands a =
          owed (s.actors.get target).hands a + if a = s.responses.size then 1 else 0 := by
        have := href target
        rw [if_pos rfl] at this
        simp only [ref] at this
        rw [this]
        simp only [Ref.hands, owed_append, owed_singleton, Context.owes_of_fresh,
          Option.some.injEq, eq_comm (a := s.responses.size), Nat.add_assoc]
      simp only [System.resolved, hres, Arena.get_add]
      unfold pending at hpending ⊢
      split
      · rename_i heq
        subst heq
        rw [if_pos rfl] at htarget'
        simp only [Response.resolutions, Option.getD_some, List.length_nil]
        omega
      · rename_i hne
        rw [if_neg hne] at htarget'
        have honce := h.once a (by omega)
        unfold pending System.resolved at honce
        omega
    · rw [hres] at ha hnone ⊢
      simp only [Arena.size_add] at ha
      simp only [Arena.get_add] at hnone ⊢
      split
      · rename_i heq
        rw [if_pos heq] at hnone
        cases hnone
      · rename_i hne
        rw [if_neg hne] at hnone
        exact h.refused a (by omega) hnone

theorem readResponse (h : FuturesInv s) {a : ℕ} (hs : s.readResponse a = some s') :
    FuturesInv s' := by
  obtain ⟨response, hget, rfl⟩ := Option.map_eq_some_iff.mp hs
  have hfuture : response.future = (s.responses.get a).future := by
    unfold Response.get at hget
    split at hget
    · cases hget
      rfl
    · split at hget
      · cases hget
        rfl
      · cases hget
  have hresult : response.future = none → response = s.responses.get a := by
    intro hnone
    unfold Response.get at hget
    split at hget
    · exact (Option.some.inj hget).symm
    · split at hget
      · rename_i answer rest hsome
        rw [hfuture, hsome] at hnone
        cases hnone
      · cases hget
  have hsame : ∀ b, ((s.responses.modify (fun _ => response) a).get b).future =
      (s.responses.get b).future := fun b => by
    rw [Arena.get_modify]
    split
    · rename_i hb
      rw [hb, hfuture]
    · rfl
  have hkept : ∀ b, ((s.responses.modify (fun _ => response) a).get b).future = none →
      (s.responses.modify (fun _ => response) a).get b = s.responses.get b := fun b hb => by
    rw [Arena.get_modify] at hb ⊢
    split
    · rename_i heq
      rw [if_pos heq] at hb
      rw [heq, hresult hb]
    · rfl
  refine ⟨h.root, h.registered, h.outside, fun i => ?_, fun b hb => ?_, fun b hb hnone => ?_⟩
  · obtain ⟨haccepted, hfresh, hdrained⟩ := h.ok i
    refine ⟨fun c hc b hb => ?_, hfresh, hdrained⟩
    obtain ⟨hlt, hsome⟩ := haccepted c hc b hb
    exact ⟨hlt, by rw [hsame]; exact hsome⟩
  · have hres : (s.responses.modify (fun _ => response) a |>.get b).resolutions =
        (s.responses.get b).resolutions := by
      cases hb : (s.responses.get b).future with
      | none => rw [hkept b (by rw [hsame, hb])]
      | some answers => simp only [Response.resolutions, hsame, hb, Option.getD_some]
    unfold System.resolved
    rw [hres]
    exact h.once b hb
  · rw [hkept b hnone]
    exact h.refused b hb (by rw [← hsame b]; exact hnone)

/-- `Context.Respond` in a `Receive`. -/
theorem answer (h : FuturesInv s) {message : μ} (hs : s.answer r message = some s') :
    FuturesInv s' := by
  unfold System.answer at hs
  split at hs
  · rename_i ctx hphase
    split at hs
    · rename_i hexpecting
      cases hs
      have hctx : (s.ref r).phase.context = some ctx := by rw [hphase]; rfl
      have hhands : ctx ∈ (s.ref r).hands := by simp [Ref.hands, hctx]
      have hfresh : ctx.resultSent = false := by
        simp only [Context.expectingResponse, Bool.and_eq_true, Bool.not_eq_true'] at hexpecting
        exact hexpecting.2
      have hres := Resolves.respond ((h.ok r).accepted ctx hhands)
        (Context.owes_of_fresh hfresh) (.reply message)
      have hdone : owed [{ ctx with resultSent := true }] = owed ([] : List (Context κ μ)) :=
        funext fun a => by simp [owed_singleton, Context.owes]
      refine h.change (r := r) (by simp) (by simpa using h.registered) hres.modify
        (fun i hi => ?_) ?_ (by simp [hphase])
      · rw [ref_modify, if_neg hi, ref_respond]
        exact .refl _
      · rw [ref_modify, if_pos rfl, ref_respond]
        refine ⟨fun c hc => ?_, fun a => ?_, id, fun _ hb => ?_, fun hsh => ?_⟩
        · simp only [Ref.hands, Phase.context, Option.toList_some, List.mem_append,
            List.mem_singleton] at hc
          rcases hc with rfl | hc
          · exact .inr ⟨ctx, hhands, rfl⟩
          · exact .inr ⟨c, by simp [Ref.hands, hc], rfl⟩
        · simp only [Ref.hands, hphase, Phase.context, Option.toList_some, owed_append, hdone,
            owed_nil]
          omega
        · cases hb
        · rw [hphase] at hsh
          cases hsh
    · cases hs
  · cases hs

theorem report (h : FuturesInv s) (hphase : (s.ref r).phase = .cleaning)
    (failure : Option (Error κ)) : FuturesInv (s.report r failure) := by
  have hmodify : ∀ err, FuturesInv (s.modify r fun p => { p with err := err, phase := .releasing }) :=
    fun err => h.modify (.phase rfl rfl (by rw [hphase]; rfl) rfl (fun _ => by rw [hphase]; rfl)
      (by simp [hphase]))
  unfold System.report
  simp only []
  split
  · exact (hmodify _).tell _ _ _
  · exact (hmodify _).tell _ _ _
  · exact hmodify _

/-- The message at the head of the inbox was answered at once. -/
theorem taken (h : FuturesInv s) {ctx : Context κ μ} {rest : List (Context κ μ)}
    (hphase : (s.ref r).phase = .receiving) (hinbox : (s.ref r).inbox = ctx :: rest)
    (hres : Resolves [ctx] s s') (hsize : s'.actors.size = s.actors.size)
    (hrefs : ∀ a i, s'.refs a = some i → i < s.actors.size)
    (hother : ∀ i, i ≠ r → Quiet (s.ref i) (s'.ref i)) (hrest : (s'.ref r).inbox = rest)
    (hafter : (s'.ref r).phase = .receiving ∨ (s'.ref r).phase = .exiting) : FuturesInv s' := by
  refine h.change (r := r) hsize hrefs hres hother ?_ (by simp [hphase])
  refine .taken hphase hinbox hrest ?_ ?_
  · rcases hafter with hp | hp <;> rw [hp] <;> rfl
  · rcases hafter with hp | hp <;> rw [hp] <;> rfl

/-- A `Receive` with a message is over; what it has not answered the fallback does. -/
theorem handled (h : FuturesInv s) {ctx : Context κ μ} {f : Ref κ μ → Ref κ μ}
    (hctx : (s.ref r).phase.context = some ctx) (hinbox : ∀ p, (f p).inbox = p.inbox)
    (hf : ∀ p, (f p).phase = .receiving ∨ (f p).phase = .exiting) :
    FuturesInv ((s.fallback ctx).modify r f) := by
  have hhands : ctx ∈ (s.ref r).hands := by simp [Ref.hands, hctx]
  have hrun : (s.ref r).phase ≠ .shutdown := by
    intro hsh
    rw [hsh] at hctx
    cases hctx
  refine h.change (r := r) (by simp) (by simpa using h.registered)
    (Resolves.fallback ((h.ok r).accepted ctx hhands)).modify (fun i hi => ?_) ?_ hrun
  · rw [ref_modify, if_neg hi, ref_fallback]
    exact .refl _
  · rw [ref_modify, if_pos rfl, ref_fallback]
    refine .handled hctx (hinbox _) ?_ ?_
    · rcases hf (s.ref r) with hp | hp <;> rw [hp] <;> rfl
    · rcases hf (s.ref r) with hp | hp <;> rw [hp] <;> rfl

theorem afterReceive_phase (ending : Ending) (p : Ref κ μ) :
    (p.afterReceive ending).phase = .receiving ∨ (p.afterReceive ending).phase = .exiting := by
  cases ending
  · exact .inl rfl
  · exact .inr rfl
  · exact .inr rfl
  · exact .inr rfl

theorem afterInternal_phase (ending : Ending) (p : Ref κ μ) :
    (p.afterInternal ending).phase = .receiving ∨ (p.afterInternal ending).phase = .exiting := by
  cases ending
  · exact .inl rfl
  · exact .inl rfl
  · exact .inr rfl
  · exact .inr rfl

theorem finish (h : FuturesInv s) {ending : Ending} (hs : s.finish r ending = some s') :
    FuturesInv s' := by
  have hreceive : ∀ p : Ref κ μ, (p.afterReceive ending).inbox = p.inbox := fun p => by
    cases ending <;> rfl
  have hinternal : ∀ p : Ref κ μ, (p.afterInternal ending).inbox = p.inbox := fun p => by
    cases ending <;> rfl
  have hclosed : ∀ p : Ref κ μ, (p.afterInternal ending).closed = p.closed := fun p => by
    cases ending <;> rfl
  have hafter : ∀ p : Ref κ μ, _ := afterInternal_phase ending
  unfold System.finish at hs
  split at hs
  · rename_i hphase
    cases hs
    refine h.modify (.phase (hinternal _) (hclosed _) (by rw [hphase]; rfl) ?_ (fun hb => ?_)
      (by simp [hphase]))
    · rcases hafter (s.ref r) with hp | hp <;> rw [hp] <;> rfl
    · rcases hafter (s.ref r) with hp | hp <;> rw [hp] at hb <;> cases hb
  · rename_i ctx hphase
    cases hs
    exact h.handled (by rw [hphase]; rfl) hreceive (afterReceive_phase _)
  · rename_i ctx hphase
    cases hs
    exact h.handled (by rw [hphase]; rfl) hinternal hafter
  · rename_i hphase
    cases hs
    exact h.report hphase _
  · rename_i hphase
    cases hs
    exact h.report hphase _
  · rename_i hphase
    cases hs
    exact h.report hphase _
  · cases hs

variable [DecidableEq κ]

omit [DecidableEq κ] in
theorem hands_newRef (parent : Option RefId) (address : Address κ) :
    (newRef parent address : Ref κ μ).hands = [] := rfl

theorem createChild (h : FuturesInv s) {r : RefId} (address : Address κ) :
    FuturesInv (s.createChild r address).1 := by
  rcases (System.createChild_cases : (s.createChild r address).1 = s ∨ _) with
    heq | ⟨-, hsize, hrefs, hres, -, href⟩
  · rw [heq]
    exact h
  · have hnew : ∀ i, RefOk s ((s.createChild r address).1.ref i) ∧
        (i ≠ s.actors.size →
          owed ((s.createChild r address).1.ref i).hands = owed (s.ref i).hands ∧
          ((s.createChild r address).1.ref i).phase = (s.ref i).phase) := by
      intro i
      have hbefore : RefOk s (if i = s.actors.size then newRef (some r) address else s.ref i) := by
        split
        · exact ⟨by simp [hands_newRef], by simp [newRef], by simp [newRef, Phase.began]⟩
        · exact h.ok i
      rw [href i]
      simp only []
      split
      · exact ⟨⟨hbefore.accepted, hbefore.fresh, hbefore.drained⟩, fun hi => by
          rw [if_neg hi]
          exact ⟨rfl, rfl⟩⟩
      · exact ⟨hbefore, fun hi => by
          rw [if_neg hi]
          exact ⟨rfl, rfl⟩⟩
    have haccepted : ∀ c, s.Accepted c → (s.createChild r address).1.Accepted c := fun c hc =>
      (Resolves.of_eq hres).accepted hc
    refine ⟨by omega, fun a i hi => ?_, fun i hi => ?_, fun i => ?_, fun a ha => ?_, ?_⟩
    · rw [hrefs, Function.update_apply] at hi
      rw [hsize]
      split at hi
      · cases hi
        exact Nat.lt_succ_self _
      · exact Nat.lt_succ_of_lt (h.registered a i hi)
    · have hne : i ≠ s.actors.size := by omega
      rw [((hnew i).2 hne).2]
      exact h.outside i (by omega)
    · obtain ⟨ha, hfresh, hdrained⟩ := (hnew i).1
      exact ⟨fun c hc => haccepted c (ha c hc), hfresh, hdrained⟩
    · rw [hres] at ha
      have htotal : (s.createChild r address).1.pending a = s.pending a := by
        have hzero : owed ((s.createChild r address).1.ref s.actors.size).hands a = 0 := by
          rw [href, if_pos rfl]
          simp only []
          split <;> rfl
        unfold pending Arena.total
        rw [hsize, Finset.sum_range_succ]
        change _ + owed ((s.createChild r address).1.ref s.actors.size).hands a = _
        rw [hzero, Nat.add_zero]
        refine Finset.sum_congr rfl fun i hi => ?_
        have hne : i ≠ s.actors.size := (Finset.mem_range.mp hi).ne
        exact congrFun ((hnew i).2 hne).1 a
      rw [htotal, System.resolved, hres]
      exact h.once a ha
    · rw [hres]
      exact h.refused

theorem deleteChild_refs (r : RefId) {address a : Address κ} {i : RefId}
    (hi : (s.deleteChild r address).refs a = some i) : s.refs a = some i := by
  simp only [System.deleteChild, Function.update_apply] at hi
  split at hi
  · cases hi
  · exact hi

theorem quiet_deleteChild (r : RefId) (address : Address κ) (i : RefId) :
    Quiet (s.ref i) ((s.deleteChild r address).ref i) := by
  rw [ref_deleteChild]
  split
  · exact .of_eq rfl rfl rfl
  · exact .refl _

theorem kill (h : FuturesInv s) (r : RefId) (id : κ) : FuturesInv (s.kill r id) := by
  unfold System.kill
  simp only []
  split
  · exact (h.modify (.of_eq rfl rfl rfl)).tell _ _ _
  · exact h

theorem respond_createChild (ctx : Context κ μ) (answer : Answer μ) (address : Address κ) :
    (s.createChild r address).1.respond ctx answer =
      ((s.respond ctx answer).createChild r address).1 := by
  unfold System.respond
  split
  · simp only [System.createChild, ref]
    split <;> rfl
  · rfl

theorem processMessage (h : FuturesInv s) (hs : s.processMessage r = some s') : FuturesInv s' := by
  unfold System.processMessage at hs
  split at hs
  · rename_i ctx rest hphase hinbox
    have hctx : s.Accepted ctx := (h.ok r).accepted ctx (by simp [Ref.hands, hinbox])
    have howes : ctx.owes = ctx.result :=
      Context.owes_of_fresh ((h.ok r).fresh ctx (by simp [hinbox]))
    have hctx' : ∀ f : Ref κ μ → Ref κ μ, (s.modify r f).Accepted ctx := fun _ => hctx
    have hrun : r < s.actors.size := h.lt_size (by simp [hphase])
    have hother : ∀ (f : Ref κ μ → Ref κ μ) (i : RefId), i ≠ r →
        Quiet (s.ref i) ((s.modify r f).ref i) := fun f i hi => by
      rw [ref_modify, if_neg hi]
      exact .refl _
    have hpop := fun i hi => hother (fun p => { p with inbox := rest }) i hi
    have hrespond : ∀ answer, FuturesInv
        ((s.modify r fun p => { p with inbox := rest }).respond ctx answer) := fun answer => by
      refine h.taken hphase hinbox (.of_modify (.respond (hctx' _) howes answer)) (by simp)
        (by simpa using h.registered) (fun i hi => ?_) (by simp) (by simp [hphase])
      rw [ref_respond]
      exact hpop i hi
    have hunasked : ctx.result = none → FuturesInv (s.modify r fun p => { p with inbox := rest }) :=
      fun hnone => h.taken hphase hinbox (.unasked rfl hnone) rfl h.registered hpop (by simp)
        (by simp [hphase])
    have hfallback : ∀ t : System κ μ, t.actors.size = s.actors.size → t.refs = s.refs →
        t.responses = s.responses → (∀ i, i ≠ r → Quiet (s.ref i) (t.ref i)) →
        (t.ref r).inbox = rest → (t.ref r).phase = .receiving → FuturesInv (t.fallback ctx) := by
      intro t hsize hrefs hresponses hall hrest hafter
      have hres : Resolves [ctx] s (t.fallback ctx) := by
        have ht : Resolves [ctx] t (t.fallback ctx) :=
          .fallback ((Resolves.of_eq hresponses).accepted hctx)
        exact (Resolves.of_eq hresponses).trans ht
      refine h.taken hphase hinbox hres (by simpa using hsize) ?_ (fun i hi => ?_) ?_ ?_
      · rw [fallback_refs, hrefs]
        exact h.registered
      · rw [ref_fallback]
        exact hall i hi
      · rw [ref_fallback, hrest]
      · rw [ref_fallback]
        exact .inl hafter
    have hgone : ∀ child, FuturesInv
        ((s.modify r fun p => { p with inbox := rest }).childGone r ctx child) := by
      intro child
      unfold System.childGone
      simp only []
      split
      · refine hfallback _ rfl rfl rfl (fun i hi => ?_) (by simp) (by simp [hphase])
        rw [ref_modify, if_neg hi]
        exact hpop i hi
      · refine h.quiet rfl (fun a i hi => ?_) rfl fun i => ?_
        · exact h.registered a i (deleteChild_refs r hi)
        · by_cases hi : i = r
          · subst hi
            refine .taken hphase hinbox ?_ ?_
            · simp [ref_deleteChild]
            · simp [Phase.context]
          · rw [ref_modify, if_neg hi, ref_deleteChild, if_neg hi]
            exact hpop i hi
    cases hs
    unfold System.receive
    cases hmessage : ctx.message with
    | payload p =>
      cases p with
      | ping =>
        simp only []
        split
        · exact hrespond _
        · rename_i hnone
          refine (hunasked (Option.not_isSome_iff_eq_none.mp hnone)).modify ?_
          exact .phase rfl rfl (by simp [hphase, Phase.context]) rfl nofun (by simp [hphase])
      | user m =>
        simp only []
        split
        · exact hfallback _ rfl rfl rfl hpop (by simp) (by simp [hphase])
        · refine h.quiet rfl h.registered rfl fun i => ?_
          by_cases hi : i = r
          · subst hi
            refine .taken hphase hinbox ?_ ?_
            · simp
            · simp [Phase.context]
          · rw [ref_modify, if_neg hi]
            exact hpop i hi
    | createChild address =>
      simp only []
      split
      · rw [respond_createChild]
        exact (hrespond _).createChild address
      · rename_i hnone
        refine ((hunasked (Option.not_isSome_iff_eq_none.mp hnone)).createChild address).modify ?_
        have hp : (((s.modify r fun p => { p with inbox := rest }).createChild r address).1.ref
            r).phase = .receiving := by
          rw [phase_createChild (by simpa using hrun)]
          simp [hphase]
        exact .phase rfl rfl (by rw [hp]; rfl) rfl nofun (by simp [hp])
    | childFailed child err => exact hgone child
    | childStopped child => exact hgone child
    | stop =>
      refine h.taken hphase hinbox (.modify (.of_modify (.fallback (hctx' _)))) (by simp)
        (by simpa using h.registered) (fun i hi => ?_) (by simp) (by simp)
      rw [ref_modify, if_neg hi, ref_fallback]
      exact hpop i hi
  · cases hs

omit [DecidableEq κ] in
theorem close (h : FuturesInv s) (hs : s.close r = some s') : FuturesInv s' := by
  unfold System.close at hs
  split at hs
  · rename_i hphase
    cases hs
    have hhands : (s.ref r).hands = (s.ref r).inbox := by
      rw [Ref.hands, hphase]
      rfl
    have hres : Resolves (s.ref r).inbox s ((s.ref r).inbox.foldl System.fallback s) :=
      .drain fun c hc => (h.ok r).accepted c (by rw [hhands]; exact hc)
    obtain ⟨hactors, hrefs, -⟩ := drain_spec (s := s) (s.ref r).inbox
    have href : ∀ i, ((s.ref r).inbox.foldl System.fallback s).ref i = s.ref i := fun i => by
      change ((s.ref r).inbox.foldl System.fallback s).actors.get i = s.actors.get i
      rw [hactors]
    refine h.change (r := r) (by simp [hactors]) ?_ hres.modify (fun i hi => ?_) ?_
      (by simp [hphase])
    · rw [modify_refs, hrefs]
      exact h.registered
    · rw [ref_modify, if_neg hi, href]
      exact .refl _
    · rw [ref_modify, if_pos rfl, href]
      refine .closed hphase rfl rfl ?_
      unfold Phase.stopLoop
      split <;> rfl
  · cases hs

/-- Every step keeps the number of answers owed and given. -/
theorem step {e : Event κ μ} (h : FuturesInv s) (hs : Step s e s') : FuturesInv s' := by
  have hawaits : ∀ awaits, FuturesInv { s with awaits := awaits } := fun _ =>
    h.of_awaits rfl rfl rfl
  unfold System.Step System.step at hs
  cases e with
  | tell sender target p =>
    simp only [Option.ite_none_right_eq_some, Option.some.injEq] at hs
    exact hs.2 ▸ h.tell _ _ _
  | ask sender target p =>
    simp only [Option.ite_none_right_eq_some, Option.some.injEq] at hs
    exact hs.2 ▸ h.ask _ hs.1
  | stop target =>
    simp only [Option.ite_none_right_eq_some, Option.some.injEq] at hs
    exact hs.2 ▸ h.tell _ _ _
  | actorOf parent id =>
    cases hs
    unfold System.actorOf
    split
    · rename_i p hp
      refine h.ask _ ?_
      unfold System.get at hp
      split at hp
      · cases hp
        exact h.root
      · exact h.registered _ _ hp
    · exact h
  | awaitTermination target =>
    simp only [Option.ite_none_right_eq_some, Option.some.injEq] at hs
    exact hs.2 ▸ hawaits _
  | enter call =>
    simp only [System.enter] at hs
    split at hs
    · split at hs
      · cases hs
        exact hawaits _
      · cases hs
      · cases hs
      · cases hs
      · cases hs
      · cases hs
        refine (hawaits _).modify ?_
        exact .of_eq rfl rfl rfl
    · cases hs
  | get a =>
    simp only [Option.ite_none_right_eq_some] at hs
    exact h.readResponse hs.2
  | createChild r id =>
    simp only [Option.ite_none_right_eq_some, Option.some.injEq] at hs
    exact hs.2 ▸ h.createChild _
  | kill r id =>
    simp only [Option.ite_none_right_eq_some, Option.some.injEq] at hs
    exact hs.2 ▸ h.kill _ _
  | respond r message => exact h.answer hs
  | finish r ending => exact h.finish hs
  | processMessage r => exact h.processMessage hs
  | close r => exact h.close hs
  | stopChild r child =>
    simp only [System.stopChild] at hs
    split at hs
    · rename_i left hphase
      split at hs
      · cases hs
        refine (h.modify (.phase rfl rfl ?_ ?_ (fun _ => ?_) (by simp [hphase]))).tell _ _ _
        · rw [hphase]; rfl
        · unfold Phase.stopLoop; split <;> rfl
        · rw [hphase]; rfl
      · cases hs
    · cases hs
  | awaitChild r child =>
    simp only [System.awaitChild] at hs
    split at hs
    · rename_i left hphase
      split at hs
      · cases hs
        refine (hawaits _).modify (.phase rfl rfl ?_ rfl (fun _ => ?_) ?_)
        · change (s.ref r).phase.context = none
          rw [hphase]; rfl
        · change (s.ref r).phase.began = true
          rw [hphase]; rfl
        · change (s.ref r).phase ≠ .shutdown
          simp [hphase]
      · cases hs
    · cases hs
  | reapChild r =>
    simp only [System.reapChild] at hs
    split at hs
    · rename_i left id call hphase
      split at hs
      · cases hs
      · cases hs
        refine FuturesInv.quiet (s := s) h rfl ?_ rfl fun i => ?_
        · exact fun a i hi => h.registered a i (deleteChild_refs r hi)
        · refine Settles.then_quiet ?_ (quiet_deleteChild r _ i)
          rw [ref_modify]
          split
          · rename_i hi
            subst hi
            exact Quiet.phase rfl rfl (by rw [hphase]; rfl) rfl (fun _ => by rw [hphase]; rfl)
              (by simp [hphase])
          · exact Quiet.refl _
    · cases hs
  | postStop r =>
    simp only [System.postStop] at hs
    split at hs
    · rename_i hphase
      cases hs
      exact h.modify (.phase rfl rfl (by rw [hphase]; rfl) rfl (fun _ => by rw [hphase]; rfl)
        (by simp [hphase]))
    · cases hs
  | release r =>
    simp only [System.release] at hs
    split at hs
    · rename_i call rest hphase hlisteners
      cases hs
      have hmodify : FuturesInv (s.modify r fun p => { p with listeners := rest }) :=
        h.modify (.of_eq rfl rfl rfl)
      exact hmodify.of_awaits rfl rfl rfl
    · rename_i hphase _
      cases hs
      exact h.modify (.phase rfl rfl (by rw [hphase]; rfl) rfl (fun _ => by rw [hphase]; rfl)
        (by simp [hphase]))
    · cases hs

end FuturesInv

/-! ### Progress -/

/-- What a goroutine does in `run`, up to the end of `inbox.close`. -/
def Event.inRun : Event κ μ → Bool
  | .finish _ _ | .processMessage _ | .close _ => true
  | _ => false

/-- Moves left until the inbox is empty, if no more messages come. -/
def Phase.load : Phase κ μ → ℕ
  | .starting | .exiting => 1
  | .handling _ | .notified _ => 2
  | _ => 0

@[simp] theorem Phase.load_starting : (starting : Phase κ μ).load = 1 := rfl

@[simp] theorem Phase.load_receiving : (receiving : Phase κ μ).load = 0 := rfl

@[simp] theorem Phase.load_handling (ctx : Context κ μ) : (handling ctx).load = 2 := rfl

@[simp] theorem Phase.load_notified (ctx : Context κ μ) : (notified ctx).load = 2 := rfl

@[simp] theorem Phase.load_exiting : (exiting : Phase κ μ).load = 1 := rfl

@[simp] theorem Phase.load_stopLoop [DecidableEq κ] (left children : List (Address κ × RefId)) :
    (stopLoop left children : Phase κ μ).load = 0 := by
  unfold stopLoop
  split <;> rfl

def Ref.load (r : Ref κ μ) : ℕ := 3 * r.inbox.length + r.phase.load

namespace System

variable {s s' : System κ μ} {r : RefId}

def load (s : System κ μ) : ℕ := s.actors.total Ref.load

theorem load_modify_le {f : Ref κ μ → Ref κ μ} (k : ℕ)
    (h : (f (s.ref r)).load ≤ (s.ref r).load + k) : (s.modify r f).load ≤ s.load + k :=
  Arena.total_modify_le _ _ _ h

theorem load_modify {f : Ref κ μ → Ref κ μ} (hr : r < s.actors.size) :
    (s.modify r f).load + (s.ref r).load = s.load + (f (s.ref r)).load := by
  have hsum : (s.modify r f).actors.total Ref.load + (s.actors.get r).load =
      s.actors.total Ref.load + ((s.modify r f).actors.get r).load :=
    Arena.total_update Ref.load rfl (fun j hj => congrArg Ref.load
      (ref_modify.trans (if_neg hj))) hr
  have hget : (s.modify r f).actors.get r = f (s.ref r) := ref_modify.trans (if_pos rfl)
  rw [hget] at hsum
  exact hsum

theorem load_of_actors (h : s'.actors = s.actors) : s'.load = s.load := by rw [load, load, h]

variable [DecidableEq κ]

theorem load_createChild (address : Address κ) :
    (s.createChild r address).1.load ≤ s.load + 1 := by
  unfold createChild
  split
  · exact Nat.le_add_right _ _
  · refine (Arena.total_modify_le (k := 0) _ _ _ le_rfl).trans ?_
    rw [Arena.total_add]
    rfl

/-- Receiving a message makes at most two more moves. -/
theorem load_receive (ctx : Context κ μ) :
    (s.receive r ctx).load ≤ s.load + 2 := by
  have hgone : ∀ child, (s.childGone r ctx child).load ≤ s.load + 2 := by
    intro child
    unfold childGone
    simp only []
    split
    · rw [load_of_actors (fallback_actors ..)]
      exact load_modify_le 2 (Nat.le_add_right _ _)
    · have hdelete : (s.deleteChild r (s.ref child).address).load ≤ s.load + 0 :=
        load_modify_le 0 le_rfl
      refine le_trans (load_modify_le 2 ?_) (Nat.add_le_add_right hdelete 2)
      rw [ref_deleteChild, if_pos rfl]
      simp [Ref.load, Phase.load]
  unfold receive
  cases ctx.message with
  | payload p =>
    cases p with
    | ping =>
      simp only []
      split
      · rw [load_of_actors (respond_actors ..)]
        exact Nat.le_add_right _ _
      · exact load_modify_le 2 (by simp only [Ref.load, Ref.exit, Phase.load]; omega)
    | user m =>
      simp only []
      split
      · rw [load_of_actors (fallback_actors ..)]
        exact Nat.le_add_right _ _
      · exact load_modify_le 2 (by simp [Ref.load, Phase.load])
  | createChild address =>
    simp only []
    have hcreate := load_createChild (s := s) (r := r) address
    split
    · rw [load_of_actors (respond_actors ..)]
      omega
    · refine le_trans (load_modify_le 1 ?_) (Nat.add_le_add_right hcreate 1)
      simp only [Ref.load, Ref.exit, Phase.load]
      omega
  | childFailed child err => exact hgone child
  | childStopped child => exact hgone child
  | stop =>
    simp only []
    have hfallback := load_of_actors (fallback_actors : (s.fallback ctx).actors = s.actors)
    rw [← hfallback]
    exact load_modify_le 2 (by simp only [ref_fallback, Ref.load, Phase.load]; omega)

omit [DecidableEq κ] in
theorem respond_size (ctx : Context κ μ) (answer : Answer μ) :
    (s.respond ctx answer).responses.size = s.responses.size := by
  unfold respond
  split <;> rfl

omit [DecidableEq κ] in
theorem fallback_size (ctx : Context κ μ) :
    (s.fallback ctx).responses.size = s.responses.size := by
  unfold fallback
  split
  · exact respond_size ctx _
  · rfl

omit [DecidableEq κ] in
theorem drain_size (queue : List (Context κ μ)) :
    (queue.foldl fallback s).responses.size = s.responses.size := by
  induction queue generalizing s with
  | nil => rfl
  | cons ctx rest ih => rw [List.foldl_cons, ih, fallback_size]

omit [DecidableEq κ] in
theorem report_size (failure : Option (Error κ)) :
    (s.report r failure).responses.size = s.responses.size := by
  unfold report
  simp only []
  split <;> rfl

theorem createChild_responses (address : Address κ) :
    (s.createChild r address).1.responses = s.responses := by
  unfold createChild
  split <;> rfl

theorem receive_size (ctx : Context κ μ) :
    (s.receive r ctx).responses.size = s.responses.size := by
  have hgone : ∀ child, (s.childGone r ctx child).responses.size = s.responses.size := by
    intro child
    unfold childGone
    simp only []
    split
    · exact fallback_size ctx
    · rfl
  unfold receive
  cases ctx.message with
  | payload p =>
    cases p with
    | ping =>
      simp only []
      split
      · exact respond_size ctx _
      · rfl
    | user m =>
      simp only []
      split
      · exact fallback_size ctx
      · rfl
  | createChild address =>
    simp only []
    split
    · rw [respond_size, createChild_responses]
    · rw [modify_responses, createChild_responses]
  | childFailed child err => exact hgone child
  | childStopped child => exact hgone child
  | stop => exact fallback_size ctx

/-- A goroutine in `run` asks nothing. -/
theorem responses_size {e : Event κ μ} (he : e.inRun = true) (hs : Step s e s') :
    s'.responses.size = s.responses.size := by
  unfold Step System.step at hs
  cases e with
  | finish r ending =>
    simp only [System.finish] at hs
    split at hs
    · cases hs
      rfl
    · cases hs
      exact fallback_size _
    · cases hs
      exact fallback_size _
    · cases hs
      exact report_size _
    · cases hs
      exact report_size _
    · cases hs
      exact report_size _
    · cases hs
  | processMessage r =>
    simp only [System.processMessage] at hs
    split at hs
    · cases hs
      rw [receive_size]
      rfl
    · cases hs
  | close r =>
    simp only [System.close] at hs
    split at hs
    · cases hs
      exact drain_size _
    · cases hs
  | _ => cases he

end System

namespace FuturesInv

open Determined.Actor.System

variable {s s' : System κ μ}

/-- An actor that owes an answer has a move, which leaves less to do. -/
theorem has_move [DecidableEq κ] (h : FuturesInv s) {r : RefId} {a : ℕ}
    (howed : 0 < owed (s.ref r).hands a) :
    ∃ e s', Step s e s' ∧ e.inRun = true ∧ s'.load < s.load := by
  have hrun : (s.ref r).phase ≠ .shutdown → r < s.actors.size := h.lt_size
  -- a message that was handled frees two moves
  have hfinish : ∀ {ctx : Context κ μ} {f : Ref κ μ → Ref κ μ},
      (s.ref r).phase.load = 2 → (f (s.ref r)).inbox = (s.ref r).inbox →
      (f (s.ref r)).phase = .receiving → r < s.actors.size →
      ((s.fallback ctx).modify r f).load < s.load := by
    intro ctx f hload hinbox hafter hlt
    have hfallback := load_of_actors (fallback_actors : (s.fallback ctx).actors = s.actors)
    have hsum := load_modify (s := s.fallback ctx) (f := f) (r := r) (by simpa using hlt)
    simp only [ref_fallback, Ref.load, hinbox, hafter, hload, Phase.load_receiving] at hsum
    omega
  have hdone : (s.ref r).phase.began → (s.ref r).phase.context = none → False := by
    intro hbegan hcontext
    rw [Ref.hands, hcontext, ((h.ok r).drained hbegan).2] at howed
    cases howed
  cases hphase : (s.ref r).phase with
  | starting =>
    have hstep : s.finish r .ok = some (s.modify r (·.afterInternal .ok)) := by
      simp only [System.finish, hphase]
    refine ⟨.finish r .ok, _, hstep, rfl, ?_⟩
    have hsum := load_modify (f := fun p : Ref κ μ => p.afterInternal .ok)
      (hrun (by simp [hphase]))
    have hafter : ((s.ref r).afterInternal .ok).load = 3 * (s.ref r).inbox.length := rfl
    have hbefore : (s.ref r).load = 3 * (s.ref r).inbox.length + 1 := by rw [Ref.load, hphase]; rfl
    omega
  | receiving =>
    cases hinbox : (s.ref r).inbox with
    | nil =>
      rw [Ref.hands, hphase, hinbox] at howed
      cases howed
    | cons ctx rest =>
      have hstep : s.processMessage r =
          some ((s.modify r fun p => { p with inbox := rest }).receive r ctx) := by
        simp only [System.processMessage, hphase, hinbox]
      refine ⟨.processMessage r, _, hstep, rfl, ?_⟩
      have hsum := load_modify (f := fun p : Ref κ μ => { p with inbox := rest })
        (hrun (by simp [hphase]))
      have hreceive := load_receive (s := s.modify r fun p => { p with inbox := rest }) (r := r) ctx
      simp only [Ref.load, hinbox, List.length_cons] at hsum
      omega
  | handling ctx =>
    have hstep : s.finish r .ok = some ((s.fallback ctx).modify r (·.afterReceive .ok)) := by
      simp only [System.finish, hphase]
    exact ⟨.finish r .ok, _, hstep, rfl,
      hfinish (by simp [hphase]) rfl rfl (hrun (by simp [hphase]))⟩
  | notified ctx =>
    have hstep : s.finish r .ok = some ((s.fallback ctx).modify r (·.afterInternal .ok)) := by
      simp only [System.finish, hphase]
    exact ⟨.finish r .ok, _, hstep, rfl,
      hfinish (by simp [hphase]) rfl rfl (hrun (by simp [hphase]))⟩
  | exiting =>
    obtain ⟨s', hs'⟩ : ∃ s', s.close r = some s' := by
      simp only [System.close, hphase]
      exact ⟨_, rfl⟩
    refine ⟨.close r, s', hs', rfl, ?_⟩
    simp only [System.close, hphase, Option.some.injEq] at hs'
    subst hs'
    obtain ⟨hactors, -, -⟩ := drain_spec (s := s) (s.ref r).inbox
    have hload := load_of_actors hactors
    have href : ((s.ref r).inbox.foldl System.fallback s).ref r = s.ref r := by
      change ((s.ref r).inbox.foldl System.fallback s).actors.get r = s.actors.get r
      rw [hactors]
    have hsum := load_modify (s := (s.ref r).inbox.foldl System.fallback s) (r := r)
      (f := fun p => { p with
        inbox := []
        closed := true
        phase := Phase.stopLoop p.children p.children })
      (by rw [hactors]; exact hrun (by simp [hphase]))
    simp only [href, Ref.load, hphase, Phase.load_stopLoop, Phase.load_exiting,
      List.length_nil] at hsum
    omega
  | stopping left => exact (hdone (by rw [hphase]; rfl) (by rw [hphase]; rfl)).elim
  | awaiting left current => exact (hdone (by rw [hphase]; rfl) (by rw [hphase]; rfl)).elim
  | cleaning => exact (hdone (by rw [hphase]; rfl) (by rw [hphase]; rfl)).elim
  | releasing => exact (hdone (by rw [hphase]; rfl) (by rw [hphase]; rfl)).elim
  | shutdown => exact (hdone (by rw [hphase]; rfl) (by rw [hphase]; rfl)).elim

theorem new_inv [DecidableEq κ] : FuturesInv (new : System κ μ) where
  root := Nat.zero_lt_one
  registered a i hi := by cases hi
  outside i hi := by
    have hne : i ≠ 0 := by
      rintro rfl
      exact absurd hi (Nat.not_le_of_lt Nat.zero_lt_one)
    simp [ref, new, Arena.get_add, hne, Ref.absent]
  ok i := by
    have hhands : ((new : System κ μ).ref i).hands = [] ∧ ((new : System κ μ).ref i).inbox = [] ∧
        (((new : System κ μ).ref i).phase.began → ((new : System κ μ).ref i).closed) := by
      simp only [ref, new, Arena.get_add]
      split
      · exact ⟨rfl, rfl, fun hb => by cases hb⟩
      · exact ⟨rfl, rfl, fun _ => rfl⟩
    refine ⟨fun c hc => ?_, fun c hc => ?_, fun hb => ⟨hhands.2.2 hb, hhands.2.1⟩⟩
    · rw [hhands.1] at hc
      cases hc
    · rw [hhands.2.1] at hc
      cases hc
  once a ha := by cases ha
  refused a ha := by cases ha

/-- Whatever is owed can be answered by the actors on their own. -/
theorem answerable [DecidableEq κ] {a k : ℕ} : ∀ {s : System κ μ}, FuturesInv s → s.load < k →
    a < s.responses.size →
    ∃ tr t, Run Step s tr t ∧ (∀ x ∈ tr, x.event.inRun = true) ∧ t.resolved a = 1 := by
  induction k with
  | zero => exact fun _ hk => absurd hk (Nat.not_lt_zero _)
  | succ k ih =>
    intro s h hk ha
    have honce := h.once a ha
    by_cases hresolved : s.resolved a = 1
    · exact ⟨[], s, .nil s, by simp, hresolved⟩
    · obtain ⟨r, -, howed⟩ := Arena.exists_of_total_pos (t := s.actors)
        (p := fun r : Ref κ μ => owed r.hands a) (by unfold pending at honce; omega)
      obtain ⟨e, s', hs, he, hless⟩ := h.has_move howed
      obtain ⟨tr, t, hrun, hall, ht⟩ := ih (h.step hs) (by omega)
        (by rw [responses_size he hs]; exact ha)
      refine ⟨_, t, .cons hs hrun, fun x hx => ?_, ht⟩
      rcases List.mem_cons.mp hx with rfl | hx
      · exact he
      · exact hall x hx

/-- CORRECT: in every reachable state, an ask has been answered once and nobody owes it an answer, or
    it has not been answered and one message owes it an answer; a refused ask has the answer that
    there is none; and whatever is owed is answered if the goroutines in `run` go on. -/
theorem asks_answered_once [DecidableEq κ] (hreach : Reach Step new s) {a : ℕ}
    (ha : a < s.responses.size) :
    ((s.responses.get a).resolutions.length = 1 ∧ s.pending a = 0 ∨
        (s.responses.get a).resolutions = [] ∧ s.pending a = 1) ∧
      ((s.responses.get a).future = none → (s.responses.get a).resolutions = [.noResponse]) ∧
      ∃ tr t, Run Step s tr t ∧ (∀ x ∈ tr, x.event.inRun = true) ∧
        (t.responses.get a).resolutions.length = 1 := by
  have h : FuturesInv s := hreach.invariant (fun _ _ _ hinv hs => hinv.step hs) new_inv
  have honce := h.once a ha
  refine ⟨?_, fun hfuture => ?_, h.answerable (Nat.lt_succ_self _) ha⟩
  · unfold System.resolved at honce
    rcases Nat.eq_zero_or_pos (s.responses.get a).resolutions.length with hzero | hpos
    · exact .inr ⟨List.eq_nil_of_length_eq_zero hzero, by omega⟩
    · exact .inl ⟨by omega, by omega⟩
  · rw [Response.resolutions, hfuture, h.refused a ha hfuture]
    rfl

/-- One ask is answered, and one waits in the inbox. -/
theorem asks_answered_once_of_two : ∃ s : System ℕ ℕ, Reach Step new s ∧
    (s.responses.get 0).resolutions = [.reply 8] ∧
    ∃ tr t, Run Step s tr t ∧ (∀ x ∈ tr, x.event.inRun = true) ∧
      (t.responses.get 1).resolutions.length = 1 := by
  obtain ⟨tr, s, hrun, -, hsize⟩ := Run.exists_of_exec (fun _ _ _ h => h)
    (fun r => (r.2.responses.size, (r.2.responses.get 0).resolutions))
    (show (exec System.step (new : System ℕ ℕ) [.finish 0 .ok, .ask none 0 (.user 7),
      .ask none 0 .ping, .processMessage 0, .respond 0 8, .finish 0 .ok]).map _ =
        some (2, [.reply 8]) from rfl)
  obtain ⟨htwo, hreply⟩ := Prod.mk.inj hsize
  have hone : 1 < s.responses.size := by
    rw [show s.responses.size = 2 from htwo]
    decide
  exact ⟨s, ⟨tr, hrun⟩, hreply, (asks_answered_once ⟨tr, hrun⟩ hone).2.2⟩

end FuturesInv

end Determined.Actor
