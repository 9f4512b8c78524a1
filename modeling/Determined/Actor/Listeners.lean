import Determined.Actor.Registry

/-! Every caller of `AwaitTermination` is released once, with the actor's final error.

    A call that gets the lock before the shutdown is listed by the actor until it is notified; one
    that gets it afterwards returns at once, and in between nobody gets it. What either is told is
    `err`, which is not written any more once the actor has reported its end (`Still.frozen`). -/

namespace Determined.Actor

open Schemes

variable {κ μ : Type*}

/-- The children that the loops of `close` have before them. -/
def Phase.left : Phase κ μ → List (Address κ × RefId)
  | .stopping left => left
  | .awaiting left _ => left
  | _ => []

/-- Every child that the actor may still tell to stop or wait for. -/
def Ref.kids (r : Ref κ μ) : List (Address κ × RefId) := r.children ++ r.phase.left

/-- What callers of `AwaitTermination` cannot see a difference between. -/
structure Still (r r' : Ref κ μ) : Prop where
  listeners : r'.listeners = r.listeners
  frozen : r.phase.reported → r'.phase.reported ∧ r'.err = r.err
  shutdown : r'.phase = .shutdown ↔ r.phase = .shutdown
  kids : ∀ k ∈ r'.kids, k ∈ r.kids

theorem Still.refl (r : Ref κ μ) : Still r r := ⟨rfl, fun h => ⟨h, rfl⟩, Iff.rfl, fun _ => id⟩

theorem Still.trans {r r' r'' : Ref κ μ} (h : Still r r') (h' : Still r' r'') : Still r r'' where
  listeners := h'.listeners.trans h.listeners
  frozen hr := by
    obtain ⟨hr', herr⟩ := h.frozen hr
    obtain ⟨hr'', herr'⟩ := h'.frozen hr'
    exact ⟨hr'', herr'.trans herr⟩
  shutdown := h'.shutdown.trans h.shutdown
  kids k hk := h.kids k (h'.kids k hk)

theorem Still.add (r : Ref κ μ) (ctx : Context κ μ) : Still r (r.add ctx) := by
  unfold Ref.add
  split
  · exact .refl r
  · exact ⟨rfl, fun h => ⟨h, rfl⟩, Iff.rfl, fun _ => id⟩

/-- Children are removed. -/
theorem Still.sub {r r' : Ref κ μ} (hlisteners : r'.listeners = r.listeners)
    (hphase : r'.phase = r.phase) (herr : r'.err = r.err)
    (hchildren : ∀ k ∈ r'.children, k ∈ r.children) : Still r r' := by
  refine ⟨hlisteners, fun h => ⟨by rwa [hphase], herr⟩, by rw [hphase], fun k hk => ?_⟩
  rcases List.mem_append.mp hk with hk | hk
  · exact List.mem_append_left _ (hchildren k hk)
  · rw [hphase] at hk
    exact List.mem_append_right _ hk

/-- An actor that has not reported its end goes on, but not to its end. -/
theorem Still.phase {r r' : Ref κ μ} (hlisteners : r'.listeners = r.listeners)
    (hreported : r.phase.reported = false) (hshutdown : r'.phase ≠ .shutdown)
    (hchildren : r'.children = r.children) (hleft : ∀ k ∈ r'.phase.left, k ∈ r.kids) :
    Still r r' := by
  refine ⟨hlisteners, fun h => ?_, ⟨fun h => absurd h hshutdown, fun h => ?_⟩, fun k hk => ?_⟩
  · rw [hreported] at h
    cases h
  · rw [h] at hreported
    cases hreported
  · rcases List.mem_append.mp hk with hk | hk
    · rw [hchildren] at hk
      exact List.mem_append_left _ hk
    · exact hleft k hk

/-- Where a call of `AwaitTermination` stands with its target. -/
structure AwaitOk (a : Await κ) (call : ℕ) (target : Ref κ μ) : Prop where
  waiting : a.listening = false → a.returned = []
  entered : a.listening = true → a.returned = [] ∧ call ∈ target.listeners ∨
    a.returned = [target.err] ∧ target.phase.reported

structure AwaitsInv (s : System κ μ) : Prop where
  outside : ∀ i, s.actors.size ≤ i → (s.ref i).phase = .shutdown
  kids : ∀ i, ∀ k ∈ (s.ref i).kids, k.2 < s.actors.size
  listed : ∀ i, ∀ c ∈ (s.ref i).listeners, c < s.awaits.size ∧ (s.awaits.get c).target = i ∧
    (s.awaits.get c).listening = true ∧ (s.awaits.get c).returned = []
  once : ∀ i, (s.ref i).listeners.Nodup
  done : ∀ i, (s.ref i).phase = .shutdown → (s.ref i).listeners = []
  target : ∀ c < s.awaits.size, (s.awaits.get c).target < s.actors.size
  ok : ∀ c < s.awaits.size, AwaitOk (s.awaits.get c) c (s.ref (s.awaits.get c).target)

namespace AwaitsInv

open Determined.Actor.System

variable {s s' : System κ μ} {r : RefId}

/-- Nobody who waits can tell the difference. -/
theorem still (h : AwaitsInv s) (hsize : s'.actors.size = s.actors.size)
    (hawaits : s'.awaits = s.awaits) (hall : ∀ i, Still (s.ref i) (s'.ref i)) : AwaitsInv s' where
  outside i hi := (hall i).shutdown.mpr (h.outside i (hsize ▸ hi))
  kids i k hk := by
    rw [hsize]
    exact h.kids i k ((hall i).kids k hk)
  listed i c hc := by
    rw [(hall i).listeners] at hc
    rw [hawaits]
    exact h.listed i c hc
  once i := by
    rw [(hall i).listeners]
    exact h.once i
  done i hi := by
    rw [(hall i).listeners]
    exact h.done i ((hall i).shutdown.mp hi)
  target c hc := by
    rw [hawaits] at hc ⊢
    rw [hsize]
    exact h.target c hc
  ok c hc := by
    rw [hawaits] at hc ⊢
    obtain ⟨hwaiting, hentered⟩ := h.ok c hc
    refine ⟨hwaiting, fun hl => ?_⟩
    rcases hentered hl with ⟨hreturned, hmem⟩ | ⟨hreturned, hreported⟩
    · exact .inl ⟨hreturned, by rw [(hall _).listeners]; exact hmem⟩
    · obtain ⟨hreported', herr⟩ := (hall (s.awaits.get c).target).frozen hreported
      exact .inr ⟨by rw [herr, hreturned], hreported'⟩

theorem modify (h : AwaitsInv s) {f : Ref κ μ → Ref κ μ} (hf : Still (s.ref r) (f (s.ref r))) :
    AwaitsInv (s.modify r f) := by
  refine h.still rfl rfl fun i => ?_
  rw [ref_modify]
  split
  · rename_i hi
    subst hi
    exact hf
  · exact .refl _

theorem tell (h : AwaitsInv s) (sender : Option RefId) (target : RefId) (message : Message κ μ) :
    AwaitsInv (s.tell sender target message) :=
  h.modify (.add _ _)

theorem ask (h : AwaitsInv s) (sender : Option RefId) (target : RefId) (message : Message κ μ) :
    AwaitsInv (s.ask sender target message) := by
  refine h.still ask_size ask_awaits fun i => ?_
  rw [ref_ask]
  split
  · exact .add _ _
  · exact .refl _

theorem of_actors (h : AwaitsInv s) (hactors : s'.actors = s.actors)
    (hawaits : s'.awaits = s.awaits) : AwaitsInv s' := by
  refine h.still (by rw [hactors]) hawaits fun i => ?_
  have href : s'.ref i = s.ref i := by simp only [ref, hactors]
  rw [href]
  exact .refl _

/-- A new call. -/
theorem await (h : AwaitsInv s) {target : RefId} (htarget : target < s.actors.size) :
    AwaitsInv (s.await target) where
  outside := h.outside
  kids := h.kids
  listed i c hc := by
    obtain ⟨hlt, hrest⟩ := h.listed i c hc
    simp only [System.await, Arena.size_add]
    rw [Arena.get_add_of_lt _ _ hlt]
    exact ⟨Nat.lt_succ_of_lt hlt, hrest⟩
  once := h.once
  done := h.done
  target c hc := by
    simp only [System.await, Arena.size_add] at hc ⊢
    rw [Arena.get_add]
    split
    · exact htarget
    · exact h.target c (by omega)
  ok c hc := by
    simp only [System.await, Arena.size_add] at hc ⊢
    rw [Arena.get_add]
    split
    · exact ⟨fun _ => rfl, nofun⟩
    · exact h.ok c (by omega)

theorem returnAwait_awaits (call : ℕ) (err : Option (Error κ)) :
    (s.returnAwait call err).awaits =
      s.awaits.modify (fun a => { a with returned := a.returned ++ [err] }) call := rfl

theorem ref_returnAwait (call : ℕ) (err : Option (Error κ)) (i : RefId) :
    (s.returnAwait call err).ref i = s.ref i := rfl

/-- One call changes, and whether its target lists it. -/
theorem update (h : AwaitsInv s) {call : ℕ} (hcall : call < s.awaits.size)
    (hsize : s'.actors.size = s.actors.size) (hcalls : s'.awaits.size = s.awaits.size)
    (hother : ∀ c, c ≠ call → s'.awaits.get c = s.awaits.get c)
    (htarget : (s'.awaits.get call).target = (s.awaits.get call).target)
    (hsame : ∀ i, (s'.ref i).phase = (s.ref i).phase ∧ (s'.ref i).err = (s.ref i).err ∧
      (s'.ref i).children = (s.ref i).children)
    (hlists : ∀ i c, c ≠ call → (c ∈ (s'.ref i).listeners ↔ c ∈ (s.ref i).listeners))
    (honce : ∀ i, (s'.ref i).listeners.Nodup)
    (hlisted : ∀ i, call ∈ (s'.ref i).listeners → (s.awaits.get call).target = i ∧
      (s'.awaits.get call).listening = true ∧ (s'.awaits.get call).returned = [])
    (hdone : ∀ i, (s.ref i).phase = .shutdown → (s'.ref i).listeners = [])
    (hok : AwaitOk (s'.awaits.get call) call (s'.ref (s.awaits.get call).target)) :
    AwaitsInv s' where
  outside i hi := by
    rw [(hsame i).1]
    exact h.outside i (hsize ▸ hi)
  kids i k hk := by
    rw [Ref.kids, (hsame i).1, (hsame i).2.2] at hk
    rw [hsize]
    exact h.kids i k hk
  listed i c hc := by
    by_cases heq : c = call
    · subst heq
      obtain ⟨ht, hlistening, hreturned⟩ := hlisted i hc
      exact ⟨hcalls ▸ hcall, htarget.trans ht, hlistening, hreturned⟩
    · rw [hcalls, hother c heq]
      exact h.listed i c ((hlists i c heq).mp hc)
  once := honce
  done i hi := by
    rw [(hsame i).1] at hi
    exact hdone i hi
  target c hc := by
    rw [hcalls] at hc
    rw [hsize]
    by_cases heq : c = call
    · rw [heq, htarget]
      exact h.target call hcall
    · rw [hother c heq]
      exact h.target c hc
  ok c hc := by
    rw [hcalls] at hc
    by_cases heq : c = call
    · rw [heq, htarget]
      exact hok
    · rw [hother c heq]
      obtain ⟨hwaiting, hentered⟩ := h.ok c hc
      refine ⟨hwaiting, fun hl => ?_⟩
      rw [(hsame _).1, (hsame _).2.1, hlists _ c heq]
      exact hentered hl

/-- A call is listed, or returns at once if the shutdown is over. -/
theorem enter (h : AwaitsInv s) {call : ℕ} (hs : s.enter call = some s') : AwaitsInv s' := by
  unfold System.enter at hs
  simp only [] at hs
  split at hs
  · rename_i hcall
    obtain ⟨hlt, hnot⟩ := hcall
    have hunlisted : ∀ i, call ∉ (s.ref i).listeners := fun i hmem => by
      have := (h.listed i call hmem).2.2.1
      rw [hnot] at this
      cases this
    have hnone := (h.ok call hlt).waiting hnot
    -- the call is listed: the target is not shut down, nor does it hold the lock
    have hlist : (s.ref (s.awaits.get call).target).phase ≠ .shutdown → AwaitsInv
        ({ s with awaits := s.awaits.modify (fun a => { a with listening := true }) call }.modify
          (s.awaits.get call).target
          (fun p => { p with listeners := p.listeners ++ [call] })) := by
      intro hrun
      refine h.update hlt rfl rfl (fun c hc => ?_) ?_ (fun i => ?_) (fun i c hc => ?_)
        (fun i => ?_) (fun i hi => ?_) (fun i hi => ?_) ⟨?_, ?_⟩
      · rw [modify_awaits, Arena.get_modify_of_ne _ _ hc]
      · rw [modify_awaits, Arena.get_modify_self]
      · rw [ref_modify]
        split
        · exact ⟨rfl, rfl, rfl⟩
        · exact ⟨rfl, rfl, rfl⟩
      · rw [ref_modify]
        split
        · simp only [List.mem_append, List.mem_singleton, hc, or_false]
          rfl
        · rfl
      · rw [ref_modify]
        split
        · exact List.nodup_append.mpr ⟨h.once i, List.nodup_singleton _, fun a ha b hb => by
            rw [List.mem_singleton.mp hb]
            exact fun heq => hunlisted i (heq ▸ ha)⟩
        · exact h.once i
      · rw [modify_awaits, Arena.get_modify_self]
        rw [ref_modify] at hi
        split at hi
        · rename_i heq
          exact ⟨heq.symm, rfl, hnone⟩
        · exact absurd hi (hunlisted i)
      · rw [ref_modify]
        split
        · rename_i heq
          rw [heq] at hi
          exact absurd hi hrun
        · exact h.done i hi
      · rw [modify_awaits, Arena.get_modify_self]
        nofun
      · rw [modify_awaits, Arena.get_modify_self, ref_modify, if_pos rfl]
        exact fun _ => .inl ⟨hnone, List.mem_append_right _ (List.mem_singleton.mpr rfl)⟩
    split at hs
    · rename_i hphase
      cases hs
      refine h.update hlt rfl rfl (fun c hc => ?_) ?_ (fun i => ⟨rfl, rfl, rfl⟩)
        (fun i c hc => Iff.rfl) h.once (fun i hi => absurd hi (hunlisted i)) h.done ⟨?_, ?_⟩
      · simp only [returnAwait]
        rw [Arena.get_modify_of_ne _ _ hc, Arena.get_modify_of_ne _ _ hc]
      · simp only [returnAwait, Arena.get_modify_self]
      · simp only [returnAwait, Arena.get_modify_self]
        nofun
      · simp only [returnAwait, Arena.get_modify_self, hnone, List.nil_append]
        exact fun _ => .inr ⟨rfl, by
          change (s.ref (s.awaits.get call).target).phase.reported = true
          rw [hphase]
          rfl⟩
    · cases hs
    · cases hs
    · cases hs
    · cases hs
    · rename_i hshutdown _ _ _ _
      cases hs
      exact hlist hshutdown
  · cases hs

/-- The next listener is notified; after the last the shutdown is over. -/
theorem release (h : AwaitsInv s) (hs : s.release r = some s') : AwaitsInv s' := by
  unfold System.release at hs
  split at hs
  · rename_i call rest hphase hlisteners
    cases hs
    obtain ⟨hcall, htarget, hlistening, hreturned⟩ := h.listed r call (by simp [hlisteners])
    have hnodup := h.once r
    rw [hlisteners] at hnodup
    have hnot : call ∉ rest := (List.nodup_cons.mp hnodup).1
    have hrest : ∀ i, ((s.modify r fun p => { p with listeners := rest }).returnAwait call
        (s.ref r).err).ref i = if i = r then { s.ref i with listeners := rest } else s.ref i :=
      fun i => by rw [ref_returnAwait, ref_modify]
    refine h.update hcall rfl rfl (fun c hc => ?_) ?_ (fun i => ?_) (fun i c hc => ?_)
      (fun i => ?_) (fun i hi => ?_) (fun i hi => ?_) ⟨?_, ?_⟩
    · rw [returnAwait_awaits, Arena.get_modify_of_ne _ _ hc, modify_awaits]
    · rw [returnAwait_awaits, Arena.get_modify_self, modify_awaits]
    · rw [hrest]
      split
      · exact ⟨rfl, rfl, rfl⟩
      · exact ⟨rfl, rfl, rfl⟩
    · rw [hrest]
      split
      · rename_i heq
        rw [heq, hlisteners]
        simp [hc]
      · rfl
    · rw [hrest]
      split
      · exact (List.nodup_cons.mp hnodup).2
      · exact h.once i
    · rw [hrest] at hi
      split at hi
      · exact absurd hi hnot
      · rename_i hne
        exact absurd (htarget.symm.trans (h.listed i call hi).2.1) fun heq => hne heq.symm
    · rw [hrest]
      split
      · rename_i heq
        rw [heq, hphase] at hi
        cases hi
      · exact h.done i hi
    · rw [returnAwait_awaits, Arena.get_modify_self, modify_awaits]
      intro hl
      rw [hlistening] at hl
      cases hl
    · rw [returnAwait_awaits, Arena.get_modify_self, modify_awaits, htarget, hrest, if_pos rfl]
      exact fun _ => .inr ⟨by rw [hreturned]; rfl, by rw [hphase]; rfl⟩
  · rename_i hphase hlisteners
    cases hs
    have hafter : ∀ i, ((s.modify r fun p => { p with phase := .shutdown }).ref i).listeners =
        (s.ref i).listeners := fun i => by
      rw [ref_modify]
      split <;> rfl
    refine ⟨fun i hi => ?_, fun i k hk => h.kids i k ?_, fun i c hc => ?_, fun i => ?_,
      fun i hi => ?_, h.target, fun c hc => ?_⟩
    · rw [ref_modify]
      split
      · rfl
      · exact h.outside i hi
    · rw [ref_modify] at hk
      split at hk
      · rcases List.mem_append.mp hk with hk | hk
        · exact List.mem_append_left _ hk
        · cases hk
      · exact hk
    · rw [hafter] at hc
      exact h.listed i c hc
    · rw [hafter]
      exact h.once i
    · rw [hafter]
      rw [ref_modify] at hi
      split at hi
      · rename_i heq
        rw [heq, hlisteners]
      · exact h.done i hi
    · obtain ⟨hwaiting, hentered⟩ := h.ok c hc
      refine ⟨hwaiting, fun hl => ?_⟩
      rw [modify_awaits, hafter]
      refine (hentered hl).imp id fun ⟨hreturned, hreported⟩ => ?_
      rw [ref_modify]
      split
      · exact ⟨hreturned, rfl⟩
      · exact ⟨hreturned, hreported⟩
  · cases hs

/-! ### The other steps -/

theorem respond (h : AwaitsInv s) (ctx : Context κ μ) (answer : Answer μ) :
    AwaitsInv (s.respond ctx answer) :=
  h.of_actors respond_actors respond_awaits

theorem fallback (h : AwaitsInv s) (ctx : Context κ μ) : AwaitsInv (s.fallback ctx) :=
  h.of_actors fallback_actors fallback_awaits

theorem report (h : AwaitsInv s) (hphase : (s.ref r).phase = .cleaning)
    (failure : Option (Error κ)) : AwaitsInv (s.report r failure) := by
  have hmodify : ∀ err, AwaitsInv (s.modify r fun p => { p with err := err, phase := .releasing }) :=
    fun err => h.modify (.phase rfl (by rw [hphase]; rfl) nofun rfl nofun)
  unfold System.report
  simp only []
  split
  · exact (hmodify _).tell _ _ _
  · exact (hmodify _).tell _ _ _
  · exact hmodify _

/-- The phase is one in which nothing of `close` has happened. -/
theorem modify_run (h : AwaitsInv s) {f : Ref κ μ → Ref κ μ}
    (hreported : (s.ref r).phase.reported = false)
    (hlisteners : ∀ p : Ref κ μ, (f p).listeners = p.listeners)
    (hchildren : ∀ p : Ref κ μ, (f p).children = p.children)
    (hphase : (f (s.ref r)).phase ≠ .shutdown) (hleft : (f (s.ref r)).phase.left = []) :
    AwaitsInv (s.modify r f) := by
  refine h.modify (.phase (hlisteners _) hreported hphase (hchildren _) fun k hk => ?_)
  rw [hleft] at hk
  cases hk

theorem finish (h : AwaitsInv s) {ending : Ending} (hs : s.finish r ending = some s') :
    AwaitsInv s' := by
  have hreceive : ∀ t : System κ μ, AwaitsInv t → (t.ref r).phase.reported = false →
      AwaitsInv (t.modify r (·.afterReceive ending)) := fun t ht hreported => by
    cases ending <;> exact ht.modify_run hreported (fun _ => rfl) (fun _ => rfl) nofun rfl
  have hinternal : ∀ t : System κ μ, AwaitsInv t → (t.ref r).phase.reported = false →
      AwaitsInv (t.modify r (·.afterInternal ending)) := fun t ht hreported => by
    cases ending <;> exact ht.modify_run hreported (fun _ => rfl) (fun _ => rfl) nofun rfl
  unfold System.finish at hs
  split at hs
  · rename_i hphase
    cases hs
    exact hinternal s h (by rw [hphase]; rfl)
  · rename_i hphase
    cases hs
    exact hreceive _ (h.fallback _) (by rw [ref_fallback, hphase]; rfl)
  · rename_i hphase
    cases hs
    exact hinternal _ (h.fallback _) (by rw [ref_fallback, hphase]; rfl)
  · rename_i hphase
    cases hs
    exact h.report hphase _
  · rename_i hphase
    cases hs
    exact h.report hphase _
  · rename_i hphase
    cases hs
    exact h.report hphase _
  · cases hs

theorem answer (h : AwaitsInv s) {message : μ} (hs : s.answer r message = some s') :
    AwaitsInv s' := by
  unfold System.answer at hs
  split at hs
  · rename_i ctx hphase
    split at hs
    · cases hs
      exact (h.respond _ _).modify_run (by rw [ref_respond, hphase]; rfl) (fun _ => rfl)
        (fun _ => rfl) nofun rfl
    · cases hs
  · cases hs

/-- A resource is not released before it is taken: `close` has the lock from its start. -/
theorem close [DecidableEq κ] (h : AwaitsInv s) (hs : s.close r = some s') : AwaitsInv s' := by
  unfold System.close at hs
  split at hs
  · rename_i hphase
    cases hs
    obtain ⟨hactors, -, hawaits⟩ := drain_spec (s := s) (s.ref r).inbox
    have href : ((s.ref r).inbox.foldl System.fallback s).ref r = s.ref r := by
      change ((s.ref r).inbox.foldl System.fallback s).actors.get r = s.actors.get r
      rw [hactors]
    refine (h.of_actors hactors hawaits).modify (.phase rfl ?_ ?_ rfl fun k hk => ?_)
    · rw [href, hphase]
      rfl
    · unfold Phase.stopLoop
      split <;> nofun
    · refine List.mem_append_left _ ?_
      unfold Phase.stopLoop at hk
      split at hk
      · exact hk
      · exact hk
  · cases hs

variable [DecidableEq κ]

theorem deleteChild (h : AwaitsInv s) (address : Address κ) : AwaitsInv (s.deleteChild r address) := by
  refine h.still rfl rfl fun i => ?_
  rw [ref_deleteChild]
  split
  · exact .sub rfl rfl rfl fun k hk => List.mem_of_mem_filter hk
  · exact .refl _

theorem kill (h : AwaitsInv s) (id : κ) : AwaitsInv (s.kill r id) := by
  unfold System.kill
  simp only []
  split
  · exact (h.modify (.sub rfl rfl rfl fun k hk => List.mem_of_mem_filter hk)).tell _ _ _
  · exact h

theorem createChild (h : AwaitsInv s) (address : Address κ) :
    AwaitsInv (s.createChild r address).1 := by
  rcases (System.createChild_cases : (s.createChild r address).1 = s ∨ _) with
    heq | ⟨-, hsize, -, -, hawaits, href⟩
  · rw [heq]
    exact h
  · have hsame : ∀ i, i ≠ s.actors.size →
        ((s.createChild r address).1.ref i).phase = (s.ref i).phase ∧
        ((s.createChild r address).1.ref i).err = (s.ref i).err ∧
        ((s.createChild r address).1.ref i).listeners = (s.ref i).listeners ∧
        ∀ k ∈ ((s.createChild r address).1.ref i).kids,
          k ∈ (s.ref i).kids ∨ k.2 = s.actors.size := by
      intro i hi
      rw [href]
      simp only [if_neg hi]
      split
      · refine ⟨rfl, rfl, rfl, fun k hk => ?_⟩
        rcases List.mem_cons.mp hk with rfl | hk
        · exact .inr rfl
        · exact .inl hk
      · exact ⟨rfl, rfl, rfl, fun k hk => .inl hk⟩
    have hnew : ((s.createChild r address).1.ref s.actors.size).phase = .starting ∧
        ((s.createChild r address).1.ref s.actors.size).listeners = [] ∧
        ∀ k ∈ ((s.createChild r address).1.ref s.actors.size).kids, k.2 = s.actors.size := by
      rw [href, if_pos rfl]
      simp only []
      split
      · refine ⟨rfl, rfl, fun k hk => ?_⟩
        rcases List.mem_cons.mp hk with rfl | hk
        · rfl
        · cases hk
      · exact ⟨rfl, rfl, nofun⟩
    refine ⟨fun i hi => ?_, fun i k hk => ?_, fun i c hc => ?_, fun i => ?_, fun i hi => ?_,
      fun c hc => ?_, fun c hc => ?_⟩
    · rw [hsize] at hi
      rw [(hsame i (Nat.ne_of_gt hi)).1]
      exact h.outside i (Nat.le_of_succ_le hi)
    · rw [hsize]
      by_cases hi : i = s.actors.size
      · rw [hi] at hk
        rw [hnew.2.2 k hk]
        exact Nat.lt_succ_self _
      · rcases (hsame i hi).2.2.2 k hk with hk | hk
        · exact Nat.lt_succ_of_lt (h.kids i k hk)
        · rw [hk]
          exact Nat.lt_succ_self _
    · by_cases hi : i = s.actors.size
      · rw [hi, hnew.2.1] at hc
        cases hc
      · rw [(hsame i hi).2.2.1] at hc
        rw [hawaits]
        exact h.listed i c hc
    · by_cases hi : i = s.actors.size
      · rw [hi, hnew.2.1]
        exact List.nodup_nil
      · rw [(hsame i hi).2.2.1]
        exact h.once i
    · by_cases hne : i = s.actors.size
      · rw [hne, hnew.2.1]
      · rw [(hsame i hne).1] at hi
        rw [(hsame i hne).2.2.1]
        exact h.done i hi
    · rw [hawaits] at hc ⊢
      rw [hsize]
      exact Nat.lt_succ_of_lt (h.target c hc)
    · rw [hawaits] at hc ⊢
      obtain ⟨hwaiting, hentered⟩ := h.ok c hc
      have hne := (h.target c hc).ne
      refine ⟨hwaiting, fun hl => ?_⟩
      rw [(hsame _ hne).1, (hsame _ hne).2.1, (hsame _ hne).2.2.1]
      exact hentered hl

theorem receive (h : AwaitsInv s) (hphase : (s.ref r).phase = .receiving) (ctx : Context κ μ) :
    AwaitsInv (s.receive r ctx) := by
  have hreported : (s.ref r).phase.reported = false := by rw [hphase]; rfl
  have hexit : ∀ err, AwaitsInv (s.modify r (·.exit err)) := fun err =>
    h.modify_run hreported (fun _ => rfl) (fun _ => rfl) nofun rfl
  have hgone : ∀ child, AwaitsInv (s.childGone r ctx child) := by
    intro child
    unfold System.childGone
    simp only []
    split
    · exact (h.modify (.sub rfl rfl rfl fun k hk => hk)).fallback ctx
    · refine (h.deleteChild _).modify_run ?_ (fun _ => rfl) (fun _ => rfl) nofun rfl
      rw [ref_deleteChild, if_pos rfl]
      exact hreported
  unfold System.receive
  cases ctx.message with
  | payload p =>
    cases p with
    | ping =>
      simp only []
      split
      · exact h.respond _ _
      · exact hexit _
    | user m =>
      simp only []
      split
      · exact h.fallback _
      · exact h.modify_run hreported (fun _ => rfl) (fun _ => rfl) nofun rfl
  | createChild address =>
    simp only []
    split
    · exact (h.createChild address).respond _ _
    · have hlt : r < s.actors.size := Nat.lt_of_not_le fun hle => by
        rw [h.outside r hle] at hphase
        cases hphase
      refine (h.createChild address).modify_run ?_ (fun _ => rfl) (fun _ => rfl) nofun rfl
      rw [phase_createChild hlt]
      exact hreported
  | childFailed child err => exact hgone child
  | childStopped child => exact hgone child
  | stop =>
    refine (h.fallback ctx).modify_run ?_ (fun _ => rfl) (fun _ => rfl) nofun rfl
    rw [ref_fallback]
    exact hreported

/-- Every step keeps what callers of `AwaitTermination` rely on. -/
theorem step {e : Event κ μ} (h : AwaitsInv s) (hs : Step s e s') : AwaitsInv s' := by
  unfold System.Step System.step at hs
  cases e with
  | tell sender target p =>
    simp only [Option.ite_none_right_eq_some, Option.some.injEq] at hs
    exact hs.2 ▸ h.tell _ _ _
  | ask sender target p =>
    simp only [Option.ite_none_right_eq_some, Option.some.injEq] at hs
    exact hs.2 ▸ h.ask _ _ _
  | stop target =>
    simp only [Option.ite_none_right_eq_some, Option.some.injEq] at hs
    exact hs.2 ▸ h.tell _ _ _
  | actorOf parent id =>
    cases hs
    unfold System.actorOf
    split
    · exact h.ask _ _ _
    · exact h
  | awaitTermination target =>
    simp only [Option.ite_none_right_eq_some, Option.some.injEq] at hs
    exact hs.2 ▸ h.await hs.1
  | enter call => exact h.enter hs
  | get a =>
    simp only [Option.ite_none_right_eq_some] at hs
    obtain ⟨response, -, rfl⟩ := Option.map_eq_some_iff.mp hs.2
    exact h.of_actors rfl rfl
  | createChild r id =>
    simp only [Option.ite_none_right_eq_some, Option.some.injEq] at hs
    exact hs.2 ▸ h.createChild _
  | kill r id =>
    simp only [Option.ite_none_right_eq_some, Option.some.injEq] at hs
    exact hs.2 ▸ h.kill _
  | respond r message => exact h.answer hs
  | finish r ending => exact h.finish hs
  | processMessage r =>
    simp only [System.processMessage] at hs
    split at hs
    · rename_i ctx rest hphase hinbox
      cases hs
      refine receive (h.modify (.sub rfl rfl rfl fun k hk => hk)) ?_ ctx
      rw [ref_modify, if_pos rfl]
      exact hphase
    · cases hs
  | close r => exact h.close hs
  | stopChild r child =>
    simp only [System.stopChild] at hs
    split at hs
    · rename_i left hphase
      split at hs
      · cases hs
        refine (h.modify (.phase rfl (by rw [hphase]; rfl) ?_ rfl fun k hk => ?_)).tell _ _ _
        · unfold Phase.stopLoop
          split <;> nofun
        · unfold Phase.stopLoop at hk
          split at hk
          · exact List.mem_append_left _ hk
          · refine List.mem_append_right _ ?_
            rw [hphase]
            exact List.mem_of_mem_erase hk
      · cases hs
    · cases hs
  | awaitChild r child =>
    simp only [System.awaitChild] at hs
    split at hs
    · rename_i left hphase
      split at hs
      · rename_i hchild
        cases hs
        have hkid : child ∈ (s.ref r).kids := by
          refine List.mem_append_right _ ?_
          rw [hphase]
          exact hchild
        refine (h.await (h.kids r child hkid)).modify (.phase rfl ?_ nofun rfl fun k hk => ?_)
        · change (s.ref r).phase.reported = false
          rw [hphase]
          rfl
        · refine List.mem_append_right _ ?_
          change k ∈ (s.ref r).phase.left
          rw [hphase]
          exact List.mem_of_mem_erase hk
      · cases hs
    · cases hs
  | reapChild r =>
    simp only [System.reapChild] at hs
    split at hs
    · rename_i left id call hphase
      split at hs
      · cases hs
      · cases hs
        refine (h.modify (.phase rfl (by rw [hphase]; rfl) (fun hp => by cases hp) rfl
          fun k hk => ?_)).deleteChild _
        refine List.mem_append_right _ ?_
        rw [hphase]
        exact hk
    · cases hs
  | postStop r =>
    simp only [System.postStop] at hs
    split at hs
    · rename_i hphase
      cases hs
      exact h.modify (.phase rfl (by rw [hphase]; rfl) nofun rfl fun k hk => by cases hk)
    · cases hs
  | release r => exact h.release hs

omit [DecidableEq κ] in
theorem new_inv : AwaitsInv (new : System κ μ) where
  outside i hi := by
    have hne : i ≠ 0 := by
      rintro rfl
      exact absurd hi (Nat.not_le_of_lt Nat.zero_lt_one)
    simp [ref, new, Arena.get_add, hne, Ref.absent]
  kids i k hk := by
    have hnone : ((new : System κ μ).ref i).kids = [] := by
      simp only [ref, new, Arena.get_add]
      split <;> rfl
    rw [hnone] at hk
    cases hk
  listed i c hc := by
    have hnone : ((new : System κ μ).ref i).listeners = [] := by
      simp only [ref, new, Arena.get_add]
      split <;> rfl
    rw [hnone] at hc
    cases hc
  once i := by
    have hnone : ((new : System κ μ).ref i).listeners = [] := by
      simp only [ref, new, Arena.get_add]
      split <;> rfl
    rw [hnone]
    exact List.nodup_nil
  done i _ := by
    simp only [ref, new, Arena.get_add]
    split <;> rfl
  target c hc := by cases hc
  ok c hc := by cases hc

end AwaitsInv

/-! ### The final error -/

/-- What an actor has reported stays as it is. -/
def Frozen (s s' : System κ μ) : Prop :=
  s.actors.size ≤ s'.actors.size ∧ ∀ i < s.actors.size, (s.ref i).phase.reported →
    (s'.ref i).phase.reported ∧ (s'.ref i).err = (s.ref i).err

namespace Frozen

open Determined.Actor.System

variable {s s' s'' : System κ μ} {r : RefId}

theorem refl (s : System κ μ) : Frozen s s := ⟨le_rfl, fun _ _ h => ⟨h, rfl⟩⟩

theorem trans (h : Frozen s s') (h' : Frozen s' s'') : Frozen s s'' := by
  refine ⟨h.1.trans h'.1, fun i hi hr => ?_⟩
  obtain ⟨hr', herr⟩ := h.2 i hi hr
  obtain ⟨hr'', herr'⟩ := h'.2 i (lt_of_lt_of_le hi h.1) hr'
  exact ⟨hr'', herr'.trans herr⟩

/-- One actor changes that has not reported its end. -/
theorem modify {f : Ref κ μ → Ref κ μ} (hr : (s.ref r).phase.reported = false) :
    Frozen s (s.modify r f) := by
  refine ⟨le_rfl, fun i _ hreported => ?_⟩
  rw [ref_modify]
  split
  · rename_i hi
    rw [hi, hr] at hreported
    cases hreported
  · exact ⟨hreported, rfl⟩

/-- A change of neither the phase nor the error. -/
theorem aside {f : Ref κ μ → Ref κ μ} (hf : ∀ p : Ref κ μ, (f p).phase = p.phase ∧ (f p).err = p.err) :
    Frozen s (s.modify r f) := by
  refine ⟨le_rfl, fun i _ hreported => ?_⟩
  rw [ref_modify]
  split
  · rw [(hf _).1, (hf _).2]
    exact ⟨hreported, rfl⟩
  · exact ⟨hreported, rfl⟩

theorem of_actors (h : s'.actors = s.actors) : Frozen s s' := by
  refine ⟨by rw [h], fun i _ hreported => ?_⟩
  have href : s'.ref i = s.ref i := by simp only [ref, h]
  rw [href]
  exact ⟨hreported, rfl⟩

theorem add_same (ctx : Context κ μ) (p : Ref κ μ) :
    (p.add ctx).phase = p.phase ∧ (p.add ctx).err = p.err := by
  unfold Ref.add
  split
  · exact ⟨rfl, rfl⟩
  · exact ⟨rfl, rfl⟩

theorem tell (sender : Option RefId) (target : RefId) (message : Message κ μ) :
    Frozen s (s.tell sender target message) :=
  aside (add_same _)

theorem ask (sender : Option RefId) (target : RefId) (message : Message κ μ) :
    Frozen s (s.ask sender target message) := by
  refine ⟨by rw [ask_size], fun i _ hreported => ?_⟩
  rw [ref_ask]
  split
  · rw [(add_same _ _).1, (add_same _ _).2]
    exact ⟨hreported, rfl⟩
  · exact ⟨hreported, rfl⟩

theorem respond (ctx : Context κ μ) (answer : Answer μ) : Frozen s (s.respond ctx answer) :=
  of_actors respond_actors

theorem fallback (ctx : Context κ μ) : Frozen s (s.fallback ctx) := of_actors fallback_actors

theorem report (hr : (s.ref r).phase.reported = false) (failure : Option (Error κ)) :
    Frozen s (s.report r failure) := by
  unfold System.report
  simp only []
  split
  · exact (modify hr).trans (tell _ _ _)
  · exact (modify hr).trans (tell _ _ _)
  · exact modify hr

theorem finish {ending : Ending} (hs : s.finish r ending = some s') : Frozen s s' := by
  unfold System.finish at hs
  split at hs
  · rename_i hphase
    cases hs
    exact modify (by rw [hphase]; rfl)
  · rename_i hphase
    cases hs
    exact (fallback _).trans (modify (by rw [ref_fallback, hphase]; rfl))
  · rename_i hphase
    cases hs
    exact (fallback _).trans (modify (by rw [ref_fallback, hphase]; rfl))
  · rename_i hphase
    cases hs
    exact report (by rw [hphase]; rfl) _
  · rename_i hphase
    cases hs
    exact report (by rw [hphase]; rfl) _
  · rename_i hphase
    cases hs
    exact report (by rw [hphase]; rfl) _
  · cases hs

variable [DecidableEq κ]

theorem deleteChild (address : Address κ) : Frozen s (s.deleteChild r address) := by
  refine ⟨le_rfl, fun i _ hreported => ?_⟩
  rw [ref_deleteChild]
  split
  · exact ⟨hreported, rfl⟩
  · exact ⟨hreported, rfl⟩

theorem createChild (address : Address κ) : Frozen s (s.createChild r address).1 := by
  rcases (System.createChild_cases : (s.createChild r address).1 = s ∨ _) with
    heq | ⟨-, hsize, -, -, -, href⟩
  · rw [heq]
    exact refl s
  · refine ⟨by rw [hsize]; exact Nat.le_succ _, fun i hi hreported => ?_⟩
    rw [href]
    simp only [if_neg hi.ne]
    split
    · exact ⟨hreported, rfl⟩
    · exact ⟨hreported, rfl⟩

theorem kill (id : κ) : Frozen s (s.kill r id) := by
  unfold System.kill
  simp only []
  split
  · refine (aside ?_).trans (tell _ _ _)
    exact fun _ => ⟨rfl, rfl⟩
  · exact refl s

theorem receive (hr : (s.ref r).phase.reported = false) (hlt : r < s.actors.size)
    (ctx : Context κ μ) : Frozen s (s.receive r ctx) := by
  have hgone : ∀ child, Frozen s (s.childGone r ctx child) := by
    intro child
    unfold System.childGone
    simp only []
    split
    · refine (aside ?_).trans (fallback ctx)
      exact fun _ => ⟨rfl, rfl⟩
    · refine (deleteChild _).trans (modify ?_)
      rw [ref_deleteChild, if_pos rfl]
      exact hr
  unfold System.receive
  cases ctx.message with
  | payload p =>
    cases p with
    | ping =>
      simp only []
      split
      · exact respond _ _
      · exact modify hr
    | user m =>
      simp only []
      split
      · exact fallback _
      · exact modify hr
  | createChild address =>
    simp only []
    split
    · exact (createChild address).trans (respond _ _)
    · refine (createChild address).trans (modify ?_)
      rw [phase_createChild hlt]
      exact hr
  | childFailed child err => exact hgone child
  | childStopped child => exact hgone child
  | stop =>
    refine (fallback ctx).trans (modify ?_)
    rw [ref_fallback]
    exact hr

theorem step {e : Event κ μ} (h : AwaitsInv s) (hs : Step s e s') : Frozen s s' := by
  unfold System.Step System.step at hs
  cases e with
  | tell sender target p =>
    simp only [Option.ite_none_right_eq_some, Option.some.injEq] at hs
    exact hs.2 ▸ tell _ _ _
  | ask sender target p =>
    simp only [Option.ite_none_right_eq_some, Option.some.injEq] at hs
    exact hs.2 ▸ ask _ _ _
  | stop target =>
    simp only [Option.ite_none_right_eq_some, Option.some.injEq] at hs
    exact hs.2 ▸ tell _ _ _
  | actorOf parent id =>
    cases hs
    unfold System.actorOf
    split
    · exact ask _ _ _
    · exact refl s
  | awaitTermination target =>
    simp only [Option.ite_none_right_eq_some, Option.some.injEq] at hs
    exact hs.2 ▸ of_actors rfl
  | enter call =>
    simp only [System.enter] at hs
    split at hs
    · split at hs
      · cases hs
        exact of_actors rfl
      · cases hs
      · cases hs
      · cases hs
      · cases hs
      · cases hs
        refine (of_actors ?_).trans (aside ?_)
        · rfl
        · exact fun _ => ⟨rfl, rfl⟩
    · cases hs
  | get a =>
    simp only [Option.ite_none_right_eq_some] at hs
    obtain ⟨response, -, rfl⟩ := Option.map_eq_some_iff.mp hs.2
    exact of_actors rfl
  | createChild r id =>
    simp only [Option.ite_none_right_eq_some, Option.some.injEq] at hs
    exact hs.2 ▸ createChild _
  | kill r id =>
    simp only [Option.ite_none_right_eq_some, Option.some.injEq] at hs
    exact hs.2 ▸ kill _
  | respond r message =>
    simp only [System.answer] at hs
    split at hs
    · rename_i ctx hphase
      split at hs
      · cases hs
        exact (respond _ _).trans (modify (by rw [ref_respond, hphase]; rfl))
      · cases hs
    · cases hs
  | finish r ending => exact finish hs
  | processMessage r =>
    simp only [System.processMessage] at hs
    split at hs
    · rename_i ctx rest hphase hinbox
      cases hs
      have hlt : r < s.actors.size := Nat.lt_of_not_le fun hle => by
        rw [h.outside r hle] at hphase
        cases hphase
      have hpop := aside (s := s) (r := r) (f := fun p => { p with inbox := rest })
        fun _ => ⟨rfl, rfl⟩
      have hreceive := receive (s := s.modify r fun p => { p with inbox := rest }) (r := r)
        (by rw [ref_modify, if_pos rfl, hphase]; rfl) hlt ctx
      exact hpop.trans hreceive
    · cases hs
  | close r =>
    simp only [System.close] at hs
    split at hs
    · rename_i hphase
      cases hs
      obtain ⟨hactors, -, -⟩ := drain_spec (s := s) (s.ref r).inbox
      refine (of_actors hactors).trans (modify ?_)
      change (((s.ref r).inbox.foldl System.fallback s).actors.get r).phase.reported = false
      rw [hactors]
      change (s.ref r).phase.reported = false
      rw [hphase]
      rfl
    · cases hs
  | stopChild r child =>
    simp only [System.stopChild] at hs
    split at hs
    · rename_i left hphase
      split at hs
      · cases hs
        exact (modify (by rw [hphase]; rfl)).trans (tell _ _ _)
      · cases hs
    · cases hs
  | awaitChild r child =>
    simp only [System.awaitChild] at hs
    split at hs
    · rename_i left hphase
      split at hs
      · cases hs
        refine (of_actors ?_).trans (modify ?_)
        · rfl
        change (s.ref r).phase.reported = false
        rw [hphase]
        rfl
      · cases hs
    · cases hs
  | reapChild r =>
    simp only [System.reapChild] at hs
    split at hs
    · rename_i left id call hphase
      split at hs
      · cases hs
      · cases hs
        exact (modify (by rw [hphase]; rfl)).trans (deleteChild _)
    · cases hs
  | postStop r =>
    simp only [System.postStop] at hs
    split at hs
    · rename_i hphase
      cases hs
      exact modify (by rw [hphase]; rfl)
    · cases hs
  | release r =>
    simp only [System.release] at hs
    split at hs
    · rename_i call rest hphase hlisteners
      cases hs
      have hlist := aside (s := s) (r := r) (f := fun p => { p with listeners := rest })
        fun _ => ⟨rfl, rfl⟩
      exact hlist.trans (of_actors rfl)
    · rename_i hphase _
      cases hs
      refine ⟨le_rfl, fun i _ hreported => ?_⟩
      rw [ref_modify]
      split
      · exact ⟨rfl, rfl⟩
      · exact ⟨hreported, rfl⟩
    · cases hs

theorem run {tr : List (Edge (System κ μ) (Event κ μ))} (h : AwaitsInv s)
    (hrun : Run Step s tr s') : Frozen s s' := by
  induction hrun with
  | nil s => exact refl s
  | cons hs _ ih => exact (step h hs).trans (ih (h.step hs))

end Frozen

/-! ### Release -/

namespace AwaitsInv

open Determined.Actor.System

variable [DecidableEq κ] {s : System κ μ} {r : RefId}

/-- The listeners are notified one after the other. -/
theorem released (h : AwaitsInv s) {l : List ℕ} {c : ℕ} (hphase : (s.ref r).phase = .releasing)
    (hl : (s.ref r).listeners = l) (hc : c ∈ l) :
    ∃ tr t, Run Step s tr t ∧ (∀ x ∈ tr, x.event = .release r) ∧
      (t.awaits.get c).returned = [(s.ref r).err] := by
  induction l generalizing s with
  | nil => cases hc
  | cons call rest ih =>
    have hstep : s.release r = some ((s.modify r fun p => { p with listeners := rest }).returnAwait
        call (s.ref r).err) := by
      simp only [System.release, hphase, hl]
    have hs : Step s (.release r) ((s.modify r fun p => { p with listeners := rest }).returnAwait
        call (s.ref r).err) := hstep
    by_cases heq : c = call
    · refine ⟨_, _, .cons hs (.nil _), fun x hx => by rw [List.mem_singleton.mp hx], ?_⟩
      have hreturned := (h.listed r call (by rw [hl]; exact List.mem_cons_self ..)).2.2.2
      rw [heq, returnAwait_awaits, Arena.get_modify_self, modify_awaits, hreturned]
      rfl
    · have hafter : ((s.modify r fun p => { p with listeners := rest }).returnAwait call
          (s.ref r).err).ref r = { s.ref r with listeners := rest } := by
        rw [ref_returnAwait, ref_modify, if_pos rfl]
      obtain ⟨tr, t, hrun, hall, ht⟩ := ih (h.step hs) (by rw [hafter, hphase]) (by rw [hafter])
        ((List.mem_cons.mp hc).resolve_left heq)
      refine ⟨_, t, .cons hs hrun, fun x hx => ?_, ?_⟩
      · rcases List.mem_cons.mp hx with rfl | hx
        · rfl
        · exact hall x hx
      · rw [ht, hafter]

/-- CORRECT: in every reachable state, a call of `AwaitTermination` has not returned, or it has
    returned once, with the error of an actor that has reported its end, which never changes after
    that. A call that is listed is released by the end of the shutdown, and one that comes later
    returns as soon as it has the lock. -/
theorem awaits_released_once (hreach : Reach Step new s) {c : ℕ} (hc : c < s.awaits.size)
    (ht : (s.awaits.get c).target = r) :
    ((s.awaits.get c).returned = [] ∨
        (s.awaits.get c).returned = [(s.ref r).err] ∧ (s.ref r).phase.reported) ∧
      ((s.awaits.get c).listening = true → (s.ref r).phase = .shutdown →
        (s.awaits.get c).returned = [(s.ref r).err]) ∧
      ((s.awaits.get c).listening = true → (s.ref r).phase = .releasing →
        (s.awaits.get c).returned = [(s.ref r).err] ∨
        ∃ tr t, Run Step s tr t ∧ (∀ x ∈ tr, x.event = .release r) ∧
          (t.awaits.get c).returned = [(s.ref r).err]) ∧
      ((s.awaits.get c).listening = false → (s.ref r).phase = .shutdown →
        ∃ t, Step s (.enter c) t ∧ (t.awaits.get c).returned = [(s.ref r).err]) ∧
      ((s.ref r).phase.reported → ∀ tr t, Run Step s tr t →
        (t.ref r).phase.reported ∧ (t.ref r).err = (s.ref r).err) := by
  have h : AwaitsInv s := hreach.invariant (fun _ _ _ hinv hs => hinv.step hs) new_inv
  obtain ⟨hwaiting, hentered⟩ := h.ok c hc
  rw [ht] at hentered
  refine ⟨?_, fun hl hphase => ?_, fun hl hphase => ?_, fun hl hphase => ?_,
    fun hreported tr t hrun => ?_⟩
  · cases hl : (s.awaits.get c).listening with
    | false => exact .inl (hwaiting hl)
    | true => exact (hentered hl).imp (·.1) id
  · rcases hentered hl with ⟨-, hmem⟩ | ⟨hreturned, -⟩
    · rw [h.done r hphase] at hmem
      cases hmem
    · exact hreturned
  · rcases hentered hl with ⟨-, hmem⟩ | ⟨hreturned, -⟩
    · exact .inr (h.released hphase rfl hmem)
    · exact .inl hreturned
  · obtain ⟨t, hstep, hawaits⟩ : ∃ t, s.enter c = some t ∧ t.awaits =
        (s.awaits.modify (fun a => { a with listening := true }) c).modify
          (fun a => { a with returned := a.returned ++ [(s.ref r).err] }) c := by
      simp only [System.enter, ht, hphase, hc, hl, and_self, if_true]
      exact ⟨_, rfl, rfl⟩
    refine ⟨t, hstep, ?_⟩
    rw [hawaits, Arena.get_modify_self, Arena.get_modify_self, hwaiting hl]
    rfl
  · exact (Frozen.run h hrun).2 r (ht ▸ h.target c hc) hreported

/-- One call comes before the shutdown, and one after it. -/
theorem awaits_released_once_of_two : ∃ s : System ℕ ℕ, Reach Step new s ∧
    (s.awaits.get 0).returned = [some (.raised "boom")] ∧
    ∃ t, Step s (.enter 1) t ∧ (t.awaits.get 1).returned = [some (.raised "boom")] := by
  obtain ⟨tr, s, hrun, -, hsummary⟩ := Run.exists_of_exec (fun _ _ _ h => h)
    (fun r => ((r.2.awaits.size, (r.2.awaits.get 0).returned), (r.2.awaits.get 1).target,
      (r.2.awaits.get 1).listening, (r.2.ref 0).phase, (r.2.ref 0).err))
    (show (exec System.step (new : System ℕ ℕ) [.awaitTermination 0, .enter 0,
      .finish 0 (.failed "boom"), .close 0, .postStop 0, .finish 0 .ok, .release 0, .release 0,
      .awaitTermination 0]).map _ =
        some ((2, [some (.raised "boom")]), 0, false, .shutdown, some (.raised "boom")) from rfl)
  obtain ⟨⟨hsize, hreturned⟩, htarget, hlistening, hphase, herr⟩ :
      ((s.awaits.size = 2 ∧ (s.awaits.get 0).returned = [some (.raised "boom")]) ∧
        (s.awaits.get 1).target = 0 ∧ (s.awaits.get 1).listening = false ∧
        (s.ref 0).phase = .shutdown ∧ (s.ref 0).err = some (.raised "boom")) := by
    simpa only [Prod.mk.injEq] using hsummary
  have hone : 1 < s.awaits.size := by
    rw [hsize]
    decide
  have henter := (awaits_released_once ⟨tr, hrun⟩ hone htarget).2.2.2.1 hlistening hphase
  rw [herr] at henter
  exact ⟨s, ⟨tr, hrun⟩, hreturned, henter⟩

end AwaitsInv

end Determined.Actor
