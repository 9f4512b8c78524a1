import Determined.Actor.Listeners

/-! The registry over whole runs.

    On the path that `Actor.Registry` describes every step keeps `Agrees`, so that the registry and
    the tree agree whenever all notifications have been processed, and an actor that still runs is
    never hidden by another one at its address. -/

namespace Determined.Actor

open Schemes

variable {κ μ : Type*}

/-- The step does not leave the path: no child is killed, nobody with children closes, and nobody
    creates a child in `PostStop`. -/
def OnPath [DecidableEq κ] (x : Edge (System κ μ) (Event κ μ)) : Prop :=
  match x.event with
  | .kill r id => (x.pre.ref r).child ((x.pre.ref r).address.child id) = none
  | .close r => (x.pre.ref r).children = []
  | .createChild r _ => (x.pre.ref r).phase ≠ .cleaning
  | _ => True

instance [DecidableEq κ] [DecidableEq μ] :
    DecidablePred (OnPath : Edge (System κ μ) (Event κ μ) → Prop) := fun ⟨_, e, _⟩ => by
  cases e <;> dsimp only [OnPath] <;> infer_instance

/-- A change of phase, error and listeners that neither starts nor ends a shutdown. -/
theorem Similar.moves (r : Ref κ μ) {err : Option (Error κ)} {listeners : List ℕ}
    {phase : Phase κ μ} (hbegan : phase.began = r.phase.began)
    (hreported : phase.reported = r.phase.reported)
    (hchildless : r.phase.childless → phase.childless) :
    Similar r { r with err := err, listeners := listeners, phase := phase } :=
  ⟨rfl, rfl, rfl, rfl, rfl, hbegan, hreported, hchildless, rfl, fun _ => .inl⟩

namespace Agrees

open Determined.Actor.System

variable {s s' : System κ μ} {r i : RefId}

theorem respond (h : Agrees s) (ctx : Context κ μ) (answer : Answer μ) :
    Agrees (s.respond ctx answer) :=
  h.of_actors respond_actors respond_refs

theorem fallback (h : Agrees s) (ctx : Context κ μ) : Agrees (s.fallback ctx) :=
  h.of_actors fallback_actors fallback_refs

/-- An actor is the child of one parent. -/
theorem parent_unique (h : Agrees s) {p q : RefId} {a b : Address κ}
    (hp : (a, i) ∈ (s.ref p).children) (hq : (b, i) ∈ (s.ref q).children) : p = q := by
  obtain ⟨-, -, -, hparent, -⟩ := h.child p a i hp
  obtain ⟨-, -, -, hparent', -⟩ := h.child q b i hq
  exact Option.some.inj (hparent.symm.trans hparent')

/-- An address that a parent has no child at is free: a second actor at the parent's address would be
    the parent itself. -/
theorem free_of_child_none [DecidableEq κ] (h : Agrees s) (hr : r < s.actors.size)
    (hbegan : (s.ref r).phase.began = false) {a : Address κ} {id : κ}
    (ha : a = (s.ref r).address.child id) (hnone : (s.ref r).child a = none) (p i : RefId) :
    (a, i) ∉ (s.ref p).children := by
  intro hi
  obtain ⟨-, -, -, -, id', ha'⟩ := h.child p a i hi
  have hp : (s.ref p).phase.began = false := h.kept p (List.ne_nil_of_mem hi)
  have haddr : (s.ref p).address = (s.ref r).address := by
    rw [ha] at ha'
    exact (List.cons.inj ha').2.symm
  have hpr : p = r := h.unique (h.size_of_child hi) hr (Phase.reported_of_began hp)
    (Phase.reported_of_began hbegan) haddr
  subst hpr
  simp only [Ref.child, Option.map_eq_none_iff, List.find?_eq_none, decide_eq_true_eq] at hnone
  exact hnone _ hi rfl

/-- A child is created under a free address. -/
theorem createChild [DecidableEq κ] (h : Agrees s) (hr : r < s.actors.size)
    (hbegan : (s.ref r).phase.began = false) {a : Address κ} {id : κ}
    (ha : a = (s.ref r).address.child id) : Agrees (s.createChild r a).1 := by
  rcases (System.createChild_cases : (s.createChild r a).1 = s ∨ _) with heq |
    ⟨hnone, hsize, hrefs, -, -, href⟩
  · rwa [heq]
  have hfree := h.free_of_child_none hr hbegan ha hnone
  generalize (s.createChild r a).1 = s' at *
  generalize hn : s.actors.size = n at *
  have hne : r ≠ n := ne_of_lt hr
  have hnew : ∀ {i}, i ≠ n → i ≠ r → s'.ref i = s.ref i := fun h₁ h₂ => by
    simp [href, h₁, h₂]
  have hself : s'.ref r = { s.ref r with children := (a, n) :: (s.ref r).children } := by
    simp [href, hne]
  have hchild : s'.ref n = newRef (some r) a := by
    simp [href, hne.symm]
  have hlt : ∀ {p b j}, (b, j) ∈ (s.ref p).children → p < j ∧ j < n := by
    intro p b j hj
    obtain ⟨h₁, h₂, -⟩ := h.child p b j hj
    exact ⟨h₁, hn ▸ h₂⟩
  have hmem : ∀ p b j, (b, j) ∈ (s'.ref p).children ↔
      (b, j) ∈ (s.ref p).children ∨ (p = r ∧ b = a ∧ j = n) := by
    intro p b j
    by_cases hpn : p = n
    · subst hpn
      have hold : (b, j) ∉ (s.ref p).children := fun hj =>
        Nat.lt_asymm (hlt hj).1 (hlt hj).2
      simp [hchild, newRef, hne.symm, hold]
    · by_cases hpr : p = r
      · subst hpr
        simp [hself, or_comm]
      · simp [hnew hpn hpr, hpr]
  have hsame : ∀ i, i ≠ n → (s'.ref i).phase = (s.ref i).phase ∧
      (s'.ref i).closed = (s.ref i).closed ∧ (s'.ref i).address = (s.ref i).address ∧
      (s'.ref i).parent = (s.ref i).parent ∧ (s'.ref i).notices = (s.ref i).notices ∧
      (s'.ref i).orders = (s.ref i).orders ∧ (s'.ref i).deadChildren = (s.ref i).deadChildren := by
    intro i hi
    by_cases hir : i = r
    · subst hir
      rw [hself]
      exact ⟨rfl, rfl, rfl, rfl, rfl, rfl, rfl⟩
    · rw [hnew hi hir]
      exact ⟨rfl, rfl, rfl, rfl, rfl, rfl, rfl⟩
  simp only [imp_and, forall_and] at hsame
  obtain ⟨hphases, hclosed, haddress, hparents, hwords, horders, hdead⟩ := hsame
  have hnewPhase : (s'.ref n).phase = .starting := by rw [hchild]; rfl
  have hzero : 0 ≠ n := Nat.ne_of_lt (lt_of_le_of_lt (Nat.zero_le r) hr)
  have hnotices : (s'.ref n).notices = [] ∧ (s'.ref n).orders = [] := by
    rw [hchild]
    exact ⟨rfl, rfl⟩
  refine ⟨?_, fun b j => ?_, fun p b j hj => ?_, fun p hp => ?_, fun p => ?_, fun p hp => ?_,
    fun p => ?_, ?_, fun j hj h0 hrep => ?_, fun p c hc => ?_, fun p => ?_, fun p b c hc hrep => ?_,
    fun p b hb => ?_⟩
  · rw [haddress 0 hzero, h.root]
  · rw [hrefs, Function.update_apply]
    split
    · rename_i hb
      subst hb
      constructor
      · rintro hj
        obtain rfl := Option.some.inj hj
        exact ⟨r, (hmem _ _ _).mpr (.inr ⟨rfl, rfl, rfl⟩)⟩
      · rintro ⟨p, hp⟩
        rcases (hmem p b j).mp hp with hp | ⟨-, -, rfl⟩
        · exact absurd hp (hfree p j)
        · rfl
    · rename_i hb
      rw [h.registered]
      refine exists_congr fun p => ?_
      rw [hmem]
      simp [hb]
  · rcases (hmem p b j).mp hj with hj | ⟨rfl, rfl, rfl⟩
    · obtain ⟨hpj, hjn⟩ := hlt hj
      obtain ⟨-, -, haddr, hparent, hid⟩ := h.child p b j hj
      have hpn : p ≠ n := Nat.ne_of_lt (Nat.lt_trans hpj hjn)
      rw [hsize, haddress j hjn.ne, hparents j hjn.ne, haddress p hpn]
      exact ⟨hpj, Nat.lt_succ_of_lt hjn, haddr, hparent, hid⟩
    · rw [hsize, hchild, haddress p hne]
      exact ⟨hr, Nat.lt_succ_self _, rfl, rfl, id, ha⟩
  · by_cases hpn : p = n
    · rw [hpn, hnewPhase]
      rfl
    · rw [hphases p hpn]
      by_cases hpr : p = r
      · rw [hpr, hbegan]
      · rw [hnew hpn hpr] at hp
        exact h.kept p hp
  · by_cases hpn : p = n
    · rw [hpn, hnewPhase]
      rfl
    · rw [hphases p hpn]
      exact h.childless p
  · by_cases hpn : p = n
    · rw [hpn, hchild]
      rfl
    · rw [hphases p hpn] at hp
      rw [hclosed p hpn]
      exact h.accepting p hp
  · by_cases hpn : p = n
    · rw [hpn, hchild]
      rfl
    · rw [hdead p hpn]
      exact h.spared p
  · rw [hparents 0 hzero]
    exact h.orphan
  · by_cases hjn : j = n
    · subst hjn
      rw [hchild]
      exact ⟨r, (hmem _ _ _).mpr (.inr ⟨rfl, rfl, rfl⟩)⟩
    · rw [hphases j hjn] at hrep
      rw [haddress j hjn]
      have hj' : j < n := Nat.lt_of_le_of_ne (Nat.le_of_lt_succ (lt_of_lt_of_eq hj hsize)) hjn
      obtain ⟨p, hp⟩ := h.present j (hn ▸ hj') h0 hrep
      exact ⟨p, (hmem _ _ _).mpr (.inl hp)⟩
  · by_cases hpn : p = n
    · rw [hpn, hnotices.1] at hc
      cases hc
    · rw [hwords p hpn] at hc
      obtain ⟨hmemc, hrep⟩ := h.notice p c hc
      have hcn : c ≠ n := (hlt hmemc).2.ne
      rw [haddress c hcn, hphases c hcn]
      exact ⟨(hmem _ _ _).mpr (.inl hmemc), hrep⟩
  · by_cases hpn : p = n
    · rw [hpn, hnotices.1]
      exact List.nodup_nil
    · rw [hwords p hpn]
      exact h.once p
  · rcases (hmem p b c).mp hc with hc | ⟨-, -, rfl⟩
    · obtain ⟨hpc, hcn⟩ := hlt hc
      have hpn : p ≠ n := Nat.ne_of_lt (Nat.lt_trans hpc hcn)
      rw [hphases c hcn.ne] at hrep
      rw [hwords p hpn]
      exact h.noticed p b c hc hrep
    · rw [hnewPhase] at hrep
      cases hrep
  · by_cases hpn : p = n
    · rw [hpn, hnotices.2] at hb
      cases hb
    · rw [horders p hpn] at hb
      rw [haddress p hpn]
      exact h.orders p b hb

/-- A word that a child is gone is processed: the child leaves the map and the registry. -/
theorem gone [DecidableEq κ] (h : Agrees s) {c : RefId} {ctx : Context κ μ}
    {rest : List (Context κ μ)} (hphase : (s.ref r).phase = .receiving)
    (hinbox : (s.ref r).inbox = ctx :: rest) (hctx : ctx.message.gone = some c) :
    Agrees ((s.modify r fun p => { p with inbox := rest }).childGone r ctx c) := by
  have hnotices : (s.ref r).notices = c :: rest.filterMap (·.message.gone) := by
    simp only [Ref.notices, hinbox, List.filterMap_cons, hctx]
  obtain ⟨hmem, hrep⟩ := h.notice r c (by rw [hnotices]; exact List.mem_cons_self ..)
  have honce := h.once r
  rw [hnotices] at honce
  have haddr : ((s.modify r fun p => { p with inbox := rest }).ref c).address =
      (s.ref c).address := by
    rw [ref_modify]
    split <;> rfl
  have hspared : ((s.modify r fun p => { p with inbox := rest }).ref r).deadChildren = ∅ := by
    rw [ref_modify, if_pos rfl]
    exact h.spared r
  unfold System.childGone
  simp only [haddr, hspared, Finset.notMem_empty, if_false]
  generalize hs' : ((s.modify r fun p => { p with inbox := rest }).deleteChild r
    (s.ref c).address).modify r (fun p => { p with phase := .notified ctx }) = s'
  have hrefs : s'.refs = Function.update s.refs (s.ref c).address none := by rw [← hs']; rfl
  have hsize : s'.actors.size = s.actors.size := by rw [← hs']; rfl
  have hother : ∀ i, i ≠ r → s'.ref i = s.ref i := fun i hi => by
    rw [← hs', ref_modify, if_neg hi, ref_deleteChild, if_neg hi, ref_modify, if_neg hi]
  have hself : s'.ref r = { s.ref r with
      inbox := rest
      children := (s.ref r).children.filter (·.1 ≠ (s.ref c).address)
      phase := .notified ctx } := by
    rw [← hs', ref_modify, if_pos rfl, ref_deleteChild, if_pos rfl, ref_modify, if_pos rfl]
  -- nobody else has a child at the address of the one that is gone
  have hkids : ∀ p b j, (b, j) ∈ (s'.ref p).children ↔
      (b, j) ∈ (s.ref p).children ∧ b ≠ (s.ref c).address := by
    intro p b j
    by_cases hp : p = r
    · rw [hp, hself]
      simp
    · rw [hother p hp]
      refine ⟨fun hj => ⟨hj, fun hb => ?_⟩, fun hj => hj.1⟩
      rw [hb] at hj
      rw [h.functional hj hmem] at hj
      exact hp (h.parent_unique hj hmem)
  have hsame : ∀ i, (s'.ref i).phase.began = (s.ref i).phase.began ∧
      (s'.ref i).phase.reported = (s.ref i).phase.reported ∧
      (s'.ref i).closed = (s.ref i).closed ∧ (s'.ref i).address = (s.ref i).address ∧
      (s'.ref i).parent = (s.ref i).parent ∧
      (s'.ref i).deadChildren = (s.ref i).deadChildren := by
    intro i
    by_cases hi : i = r
    · rw [hi, hself, hphase]
      exact ⟨rfl, rfl, rfl, rfl, rfl, rfl⟩
    · rw [hother i hi]
      exact ⟨rfl, rfl, rfl, rfl, rfl, rfl⟩
  simp only [forall_and] at hsame
  obtain ⟨hbegan, hreported, hclosed, haddress, hparents, hdead⟩ := hsame
  have hleft : (s'.ref r).notices = rest.filterMap (·.message.gone) := by
    rw [hself]
    rfl
  -- a child that is still there is not the one that is gone
  have hstay : ∀ p b j, (b, j) ∈ (s'.ref p).children → j ≠ c := by
    intro p b j hj hjc
    obtain ⟨hj, hb⟩ := (hkids p b j).mp hj
    obtain ⟨-, -, haddr, -⟩ := h.child p b j hj
    exact hb (by rw [← haddr, hjc])
  refine ⟨?_, fun b j => ?_, fun p b j hj => ?_, fun p hp => ?_, fun p => ?_, fun p hp => ?_,
    fun p => ?_, ?_, fun j hj h0 hlive => ?_, fun p d hd => ?_, fun p => ?_,
    fun p b d hd hdrep => ?_, fun p b hb => ?_⟩
  · rw [haddress 0, h.root]
  · rw [hrefs, Function.update_apply]
    split
    · rename_i hb
      constructor
      · intro hj
        cases hj
      · rintro ⟨p, hp⟩
        exact absurd hb ((hkids p b j).mp hp).2
    · rename_i hb
      rw [h.registered]
      exact exists_congr fun p => by rw [hkids, and_iff_left hb]
  · obtain ⟨hj, -⟩ := (hkids p b j).mp hj
    rw [hsize, haddress j, hparents j, haddress p]
    exact h.child p b j hj
  · rw [hbegan p]
    obtain ⟨k, hk⟩ := List.exists_mem_of_ne_nil _ hp
    exact h.kept p (List.ne_nil_of_mem ((hkids p k.1 k.2).mp hk).1)
  · by_cases hp : p = r
    · rw [hp, hself]
      rfl
    · rw [hother p hp]
      exact h.childless p
  · rw [hbegan p] at hp
    rw [hclosed p, h.accepting p hp]
  · rw [hdead p, h.spared p]
  · rw [hparents 0, h.orphan]
  · rw [hsize] at hj
    rw [hreported j] at hlive
    obtain ⟨p, hp⟩ := h.present j hj h0 hlive
    refine ⟨p, ?_⟩
    rw [haddress j, hkids]
    refine ⟨hp, fun hb => ?_⟩
    rw [hb] at hp
    rw [h.functional hp hmem, hrep] at hlive
    cases hlive
  · have hd' : d ∈ (s.ref p).notices ∧ d ≠ c := by
      by_cases hp : p = r
      · rw [hp, hleft] at hd
        rw [hp, hnotices]
        exact ⟨List.mem_cons_of_mem _ hd, fun hdc => (List.nodup_cons.mp honce).1 (hdc ▸ hd)⟩
      · rw [hother p hp] at hd
        refine ⟨hd, fun hdc => ?_⟩
        obtain ⟨hk, -⟩ := h.notice p d hd
        rw [hdc] at hk
        exact hp (h.parent_unique hk hmem)
    obtain ⟨hk, hdrep⟩ := h.notice p d hd'.1
    rw [haddress d, hreported d, hkids]
    refine ⟨⟨hk, fun hb => hd'.2 ?_⟩, hdrep⟩
    rw [hb] at hk
    exact h.functional hk hmem
  · by_cases hp : p = r
    · rw [hp, hleft]
      exact (List.nodup_cons.mp honce).2
    · rw [hother p hp]
      exact h.once p
  · have hdc := hstay p b d hd
    obtain ⟨hd, -⟩ := (hkids p b d).mp hd
    rw [hreported d] at hdrep
    have hmemd := h.noticed p b d hd hdrep
    by_cases hp : p = r
    · rw [hp, hnotices] at hmemd
      rw [hp, hleft]
      exact (List.mem_cons.mp hmemd).resolve_left hdc
    · rw [hother p hp]
      exact hmemd
  · rw [haddress p]
    by_cases hp : p = r
    · rw [hp, hself] at hb
      rw [hp]
      refine h.orders r b ?_
      unfold Ref.orders
      rw [hinbox]
      exact (List.sublist_cons_self ctx rest).filterMap _ |>.subset hb
    · rw [hother p hp] at hb
      exact h.orders p b hb

/-- Who has not reported its end is in the map of its parent. -/
theorem mem_children_of_parent (h : Agrees s) (hr : r < s.actors.size)
    (hlive : (s.ref r).phase.reported = false) {p : RefId} (hparent : (s.ref r).parent = some p) :
    ((s.ref r).address, r) ∈ (s.ref p).children := by
  have hr0 : r ≠ 0 := by
    rintro rfl
    rw [h.orphan] at hparent
    cases hparent
  obtain ⟨q, hq⟩ := h.present r hr hr0 hlive
  obtain ⟨-, -, -, hparent', -⟩ := h.child q _ r hq
  rwa [Option.some.inj (hparent.symm.trans hparent')]

/-- The actor reports its end: the word waits at its parent, which has it as a child still. -/
theorem ends (h : Agrees s) (hr : r < s.actors.size) (hlive : (s.ref r).phase.reported = false)
    (hsize : s'.actors.size = s.actors.size) (hrefs : s'.refs = s.refs)
    (hsame : ∀ i, (s'.ref i).children = (s.ref i).children ∧
      (s'.ref i).phase.began = (s.ref i).phase.began ∧ (s'.ref i).closed = (s.ref i).closed ∧
      (s'.ref i).address = (s.ref i).address ∧ (s'.ref i).parent = (s.ref i).parent ∧
      (s'.ref i).deadChildren = (s.ref i).deadChildren ∧ (s'.ref i).orders = (s.ref i).orders)
    (hchildless : ∀ i, (s'.ref i).phase.childless)
    (hreported : ∀ i, i ≠ r → (s'.ref i).phase.reported = (s.ref i).phase.reported)
    (hdone : (s'.ref r).phase.reported = true)
    (hnotices : ∀ i, (s'.ref i).notices =
      (s.ref i).notices ++ if (s.ref r).parent = some i then [r] else []) : Agrees s' := by
  simp only [forall_and] at hsame
  obtain ⟨hkids, hbegan, hclosed, haddress, hparents, hdead, horders⟩ := hsame
  -- no word about the actor was waiting before
  have hfresh : ∀ q, r ∉ (s.ref q).notices := fun q hmem => by
    have := (h.notice q r hmem).2
    rw [hlive] at this
    cases this
  refine ⟨?_, fun a i => ?_, fun q a i hi => ?_, fun q hq => ?_, hchildless, fun q hq => ?_,
    fun q => ?_, ?_, fun i hi h0 hrep => ?_, fun q c hc => ?_, fun q => ?_, fun q a c hc hrep => ?_,
    fun q a ha => ?_⟩
  · rw [haddress 0, h.root]
  · rw [hrefs, h.registered]
    exact exists_congr fun q => by rw [hkids q]
  · rw [hkids q] at hi
    rw [hsize, haddress i, hparents i, haddress q]
    exact h.child q a i hi
  · rw [hkids q] at hq
    rw [hbegan q, h.kept q hq]
  · rw [hbegan q] at hq
    rw [hclosed q, h.accepting q hq]
  · rw [hdead q, h.spared q]
  · rw [hparents 0, h.orphan]
  · have hir : i ≠ r := by
      rintro rfl
      rw [hdone] at hrep
      cases hrep
    rw [hreported i hir] at hrep
    obtain ⟨q, hq⟩ := h.present i (hsize ▸ hi) h0 hrep
    exact ⟨q, by rw [haddress i, hkids q]; exact hq⟩
  · rw [hnotices, List.mem_append] at hc
    rw [haddress c, hkids q]
    rcases hc with hc | hc
    · obtain ⟨hk, hrep⟩ := h.notice q c hc
      have hcr : c ≠ r := fun heq => hfresh q (heq ▸ hc)
      exact ⟨hk, by rw [hreported c hcr, hrep]⟩
    · split at hc
      · rename_i hparent
        rw [List.mem_singleton.mp hc]
        exact ⟨h.mem_children_of_parent hr hlive hparent, hdone⟩
      · cases hc
  · rw [hnotices]
    split
    · exact List.nodup_append.mpr ⟨h.once q, List.nodup_singleton r, fun a ha b hb => by
        rw [List.mem_singleton.mp hb]
        exact fun heq => hfresh q (heq ▸ ha)⟩
    · rw [List.append_nil]
      exact h.once q
  · rw [hkids q] at hc
    rw [hnotices, List.mem_append]
    by_cases hcr : c = r
    · right
      rw [hcr] at hc ⊢
      rw [if_pos (h.child q a r hc).2.2.2.1]
      exact List.mem_singleton.mpr rfl
    · left
      rw [hreported c hcr] at hrep
      exact h.noticed q a c hc hrep
  · rw [horders q] at ha
    rw [haddress q]
    exact h.orders q a ha

/-- A parent that has the actor as a child takes the word in. -/
theorem tells (h : Agrees s) (hr : r < s.actors.size) (hphase : (s.ref r).phase = .cleaning)
    {err : Option (Error κ)} {message : Message κ μ} {p : RefId} (hgone : message.gone = some r)
    (horder : message.order = none) (hparent : (s.ref r).parent = some p) :
    Agrees ((s.modify r fun q => { q with err := err, phase := .releasing }).tell (some r) p
      message) := by
  have hlive : (s.ref r).phase.reported = false := by rw [hphase]; rfl
  have hp := h.mem_children_of_parent hr hlive hparent
  have hpr : p ≠ r := Nat.ne_of_lt (h.child p _ r hp).1
  have hopen : (s.ref p).closed = false := h.accepting p (h.kept p (List.ne_nil_of_mem hp))
  generalize hs' : (s.modify r fun q => { q with err := err, phase := .releasing }).tell (some r) p
    message = s'
  have hself : s'.ref r = { s.ref r with err := err, phase := .releasing } := by
    rw [← hs', ref_tell, if_neg hpr.symm, ref_modify, if_pos rfl]
  have hboss : s'.ref p =
      { s.ref p with inbox := (s.ref p).inbox ++ [⟨message, some r, none, false⟩] } := by
    rw [← hs', ref_tell, if_pos rfl, ref_modify, if_neg hpr, Ref.add, if_neg (by simp [hopen])]
  have hother : ∀ i, i ≠ r → i ≠ p → s'.ref i = s.ref i := fun i hi hip => by
    rw [← hs', ref_tell, if_neg hip, ref_modify, if_neg hi]
  refine h.ends hr hlive (by rw [← hs']; rfl) (by rw [← hs']; rfl) (fun i => ?_) (fun i => ?_)
    (fun i hi => ?_) (by rw [hself]; rfl) (fun i => ?_)
  · by_cases hi : i = r
    · rw [hi, hself, hphase]
      exact ⟨rfl, rfl, rfl, rfl, rfl, rfl, rfl⟩
    · by_cases hip : i = p
      · rw [hip, hboss]
        refine ⟨rfl, rfl, rfl, rfl, rfl, rfl, ?_⟩
        simp [Ref.orders, horder]
      · rw [hother i hi hip]
        exact ⟨rfl, rfl, rfl, rfl, rfl, rfl, rfl⟩
  · by_cases hi : i = r
    · rw [hi, hself]
      rfl
    · by_cases hip : i = p
      · rw [hip, hboss]
        exact h.childless p
      · rw [hother i hi hip]
        exact h.childless i
  · by_cases hip : i = p
    · rw [hip, hboss]
    · rw [hother i hi hip]
  · rw [hparent]
    by_cases hip : i = p
    · rw [hip, if_pos rfl, hboss]
      simp [Ref.notices, hgone]
    · rw [if_neg fun heq => hip (Option.some.inj heq).symm, List.append_nil]
      by_cases hi : i = r
      · rw [hi, hself]
        rfl
      · rw [hother i hi hip]

/-- The root has nobody to tell. -/
theorem tells_nobody (h : Agrees s) (hr : r < s.actors.size) (hphase : (s.ref r).phase = .cleaning)
    {err : Option (Error κ)} (hparent : (s.ref r).parent = none) :
    Agrees (s.modify r fun q => { q with err := err, phase := .releasing }) := by
  have hother : ∀ i, i ≠ r →
      (s.modify r fun q => { q with err := err, phase := .releasing }).ref i = s.ref i :=
    fun i hi => by rw [ref_modify, if_neg hi]
  have hself : (s.modify r fun q => { q with err := err, phase := .releasing }).ref r =
      { s.ref r with err := err, phase := .releasing } := by rw [ref_modify, if_pos rfl]
  refine h.ends hr (by rw [hphase]; rfl) rfl rfl (fun i => ?_) (fun i => ?_)
    (fun i hi => by rw [hother i hi]) (by rw [hself]; rfl) (fun i => ?_)
  · by_cases hi : i = r
    · rw [hi, hself, hphase]
      exact ⟨rfl, rfl, rfl, rfl, rfl, rfl, rfl⟩
    · rw [hother i hi]
      exact ⟨rfl, rfl, rfl, rfl, rfl, rfl, rfl⟩
  · by_cases hi : i = r
    · rw [hi, hself]
      rfl
    · rw [hother i hi]
      exact h.childless i
  · rw [hparent, if_neg nofun, List.append_nil]
    by_cases hi : i = r
    · rw [hi, hself]
      rfl
    · rw [hother i hi]

theorem report (h : Agrees s) (hr : r < s.actors.size) (hphase : (s.ref r).phase = .cleaning)
    (failure : Option (Error κ)) : Agrees (s.report r failure) := by
  unfold System.report
  simp only []
  split
  · rename_i hparent _
    exact h.tells hr hphase rfl rfl hparent
  · rename_i hparent _
    exact h.tells hr hphase rfl rfl hparent
  · rename_i hparent
    exact h.tells_nobody hr hphase hparent

/-- An actor without children starts to close. -/
theorem closes (h : Agrees s) (hphase : (s.ref r).phase = .exiting)
    (hnone : (s.ref r).children = []) {f : Ref κ μ → Ref κ μ} (hf : f (s.ref r) =
      { s.ref r with inbox := [], closed := true, phase := .awaiting [] none }) :
    Agrees (s.modify r f) := by
  generalize hs' : s.modify r f = s'
  have hself : s'.ref r =
      { s.ref r with inbox := [], closed := true, phase := .awaiting [] none } := by
    rw [← hs', ref_modify, if_pos rfl, hf]
  have hother : ∀ i, i ≠ r → s'.ref i = s.ref i := fun i hi => by
    rw [← hs', ref_modify, if_neg hi]
  have hsize : s'.actors.size = s.actors.size := by rw [← hs']; rfl
  have hrefs : s'.refs = s.refs := by rw [← hs']; rfl
  have hsame : ∀ i, (s'.ref i).children = (s.ref i).children ∧
      (s'.ref i).phase.reported = (s.ref i).phase.reported ∧
      (s'.ref i).address = (s.ref i).address ∧ (s'.ref i).parent = (s.ref i).parent ∧
      (s'.ref i).deadChildren = (s.ref i).deadChildren := by
    intro i
    by_cases hi : i = r
    · rw [hi, hself, hphase]
      exact ⟨rfl, rfl, rfl, rfl, rfl⟩
    · rw [hother i hi]
      exact ⟨rfl, rfl, rfl, rfl, rfl⟩
  simp only [forall_and] at hsame
  obtain ⟨hkids, hreported, haddress, hparents, hdead⟩ := hsame
  have hempty : (s'.ref r).notices = [] ∧ (s'.ref r).orders = [] := by
    rw [hself]
    exact ⟨rfl, rfl⟩
  have hbusy : ∀ q a i, (a, i) ∈ (s'.ref q).children → q ≠ r := by
    rintro q a i hi rfl
    rw [hkids q, hnone] at hi
    cases hi
  refine ⟨?_, fun a i => ?_, fun q a i hi => ?_, fun q hq => ?_, fun q => ?_, fun q hq => ?_,
    fun q => ?_, ?_, fun i hi h0 hrep => ?_, fun q c hc => ?_, fun q => ?_, fun q a c hc hrep => ?_,
    fun q a ha => ?_⟩
  · rw [haddress 0, h.root]
  · rw [hrefs, h.registered]
    exact exists_congr fun q => by rw [hkids q]
  · rw [hkids q] at hi
    rw [hsize, haddress i, hparents i, haddress q]
    exact h.child q a i hi
  · obtain ⟨k, hk⟩ := List.exists_mem_of_ne_nil _ hq
    have hqr := hbusy q k.1 k.2 hk
    rw [hother q hqr] at hq ⊢
    exact h.kept q hq
  · by_cases hq : q = r
    · rw [hq, hself]
      rfl
    · rw [hother q hq]
      exact h.childless q
  · by_cases hqr : q = r
    · rw [hqr, hself] at hq
      cases hq
    · rw [hother q hqr] at hq ⊢
      exact h.accepting q hq
  · rw [hdead q, h.spared q]
  · rw [hparents 0, h.orphan]
  · rw [hreported i] at hrep
    obtain ⟨q, hq⟩ := h.present i (hsize ▸ hi) h0 hrep
    exact ⟨q, by rw [haddress i, hkids q]; exact hq⟩
  · have hqr : q ≠ r := by
      rintro rfl
      rw [hempty.1] at hc
      cases hc
    rw [hother q hqr] at hc ⊢
    rw [haddress c, hreported c]
    exact h.notice q c hc
  · by_cases hq : q = r
    · rw [hq, hempty.1]
      exact List.nodup_nil
    · rw [hother q hq]
      exact h.once q
  · have hqr := hbusy q a c hc
    rw [hother q hqr] at hc ⊢
    rw [hreported c] at hrep
    exact h.noticed q a c hc hrep
  · by_cases hq : q = r
    · rw [hq, hempty.2] at ha
      cases ha
    · rw [hother q hq] at ha ⊢
      exact h.orders q a ha

theorem close [DecidableEq κ] (h : Agrees s) (hs : s.close r = some s')
    (hnone : (s.ref r).children = []) : Agrees s' := by
  unfold System.close at hs
  split at hs
  · rename_i hphase
    cases hs
    obtain ⟨hactors, hrefs, -⟩ := drain_spec (s := s) (s.ref r).inbox
    have href : ((s.ref r).inbox.foldl System.fallback s).ref r = s.ref r := by
      change ((s.ref r).inbox.foldl System.fallback s).actors.get r = s.actors.get r
      rw [hactors]
    refine (h.of_actors hactors hrefs).closes (by rw [href, hphase]) (by rw [href, hnone]) ?_
    have hloop : (Phase.stopLoop (s.ref r).children (s.ref r).children : Phase κ μ) =
        .awaiting [] none := by
      rw [hnone]
      rfl
    simp only [href, hloop]
  · cases hs

/-- Before a shutdown the phase may change to any other. -/
theorem goes_on (h : Agrees s) {err : Option (Error κ)} {phase : Phase κ μ}
    (hbefore : (s.ref r).phase.began = false) (hafter : phase.began = false)
    (hchildless : phase.childless = true) :
    Agrees (s.modify r fun p => { p with err := err, phase := phase }) :=
  h.modify (.moves _ (by rw [hbefore, hafter])
    (by rw [Phase.reported_of_began hbefore, Phase.reported_of_began hafter]) fun _ => hchildless)

theorem exit (h : Agrees s) {err : Option (Error κ)} (hbefore : (s.ref r).phase.began = false) :
    Agrees (s.modify r (·.exit err)) :=
  h.goes_on hbefore rfl rfl

theorem sets (h : Agrees s) {phase : Phase κ μ}
    (hbefore : (s.ref r).phase.began = false) (hafter : phase.began = false)
    (hchildless : phase.childless = true) :
    Agrees (s.modify r fun p => { p with phase := phase }) :=
  h.modify (.phase _ (by rw [hbefore, hafter])
    (by rw [Phase.reported_of_began hbefore, Phase.reported_of_began hafter]) fun _ => hchildless)

theorem finish (h : Agrees s) (hr : (s.ref r).phase = .cleaning → r < s.actors.size)
    {ending : Ending} (hs : s.finish r ending = some s') : Agrees s' := by
  have hreceive : ∀ t : System κ μ, Agrees t → (t.ref r).phase.began = false →
      Agrees (t.modify r (·.afterReceive ending)) := fun t ht hbegan => by
    cases ending
    · exact ht.sets hbegan rfl rfl
    · exact ht.exit hbegan
    · exact ht.exit hbegan
    · exact ht.exit hbegan
  have hinternal : ∀ t : System κ μ, Agrees t → (t.ref r).phase.began = false →
      Agrees (t.modify r (·.afterInternal ending)) := fun t ht hbegan => by
    cases ending
    · exact ht.sets hbegan rfl rfl
    · exact ht.sets hbegan rfl rfl
    · exact ht.exit hbegan
    · exact ht.exit hbegan
  unfold System.finish at hs
  split at hs
  · rename_i hphase
    cases hs
    exact hinternal s h (by rw [hphase]; rfl)
  · rename_i hphase
    cases hs
    exact hreceive _ (h.fallback _) (by rw [ref_fallback, hphase]; rfl)
  · rename_i hphase
    cases hs
    exact hinternal _ (h.fallback _) (by rw [ref_fallback, hphase]; rfl)
  · rename_i hphase
    cases hs
    exact h.report (hr hphase) hphase _
  · rename_i hphase
    cases hs
    exact h.report (hr hphase) hphase _
  · rename_i hphase
    cases hs
    exact h.report (hr hphase) hphase _
  · cases hs

/-! ### Whole runs -/

variable [DecidableEq κ]

theorem processMessage (h : Agrees s) (hr : r < s.actors.size)
    (hs : s.processMessage r = some s') : Agrees s' := by
  unfold System.processMessage at hs
  split at hs
  · rename_i ctx rest hphase hinbox
    cases hs
    have hpop : ctx.message.gone = none → Agrees (s.modify r fun p => { p with inbox := rest }) :=
      fun hgone => h.modify (.pop hinbox hgone)
    have hafter : ((s.modify r fun p => { p with inbox := rest }).ref r).phase.began = false := by
      rw [ref_modify, if_pos rfl]
      change (s.ref r).phase.began = false
      rw [hphase]
      rfl
    unfold System.receive
    cases hmessage : ctx.message with
    | payload p =>
      have hagrees := hpop (by rw [hmessage]; rfl)
      cases p with
      | ping =>
        simp only []
        split
        · exact hagrees.respond _ _
        · exact hagrees.exit hafter
      | user m =>
        simp only []
        split
        · exact hagrees.fallback _
        · exact hagrees.sets hafter rfl rfl
    | createChild address =>
      have hagrees := hpop (by rw [hmessage]; rfl)
      obtain ⟨id, hid⟩ := h.orders r address (by simp [Ref.orders, hinbox, hmessage, Message.order])
      have haddr : address =
          ((s.modify r fun p => { p with inbox := rest }).ref r).address.child id := by
        rw [hid, ref_modify, if_pos rfl]
      have hcreate := hagrees.createChild hr hafter haddr
      have hkept : (((s.modify r fun p => { p with inbox := rest }).createChild r
          address).1.ref r).phase =
          ((s.modify r fun p => { p with inbox := rest }).ref r).phase := phase_createChild hr
      simp only []
      split
      · exact hcreate.respond _ _
      · refine hcreate.exit ?_
        rw [hkept]
        exact hafter
    | childFailed child err => exact h.gone hphase hinbox (by rw [hmessage]; rfl)
    | childStopped child => exact h.gone hphase hinbox (by rw [hmessage]; rfl)
    | stop =>
      refine ((hpop (by rw [hmessage]; rfl)).fallback ctx).sets ?_ rfl rfl
      rw [ref_fallback]
      exact hafter
  · cases hs

/-- Every step on the path keeps the registry and the tree in agreement. -/
theorem step {e : Event κ μ} (h : Agrees s) (hout : ∀ i, s.actors.size ≤ i →
      (s.ref i).phase = .shutdown) (hs : Step s e s') (hpath : OnPath ⟨s, e, s'⟩) : Agrees s' := by
  have hrun : ∀ {r}, (s.ref r).phase ≠ .shutdown → r < s.actors.size := fun hr =>
    Nat.lt_of_not_le fun hle => hr (hout _ hle)
  have hloop : ∀ r, (s.ref r).phase.childless := h.childless
  unfold System.Step System.step at hs
  cases e with
  | tell sender target p =>
    simp only [Option.ite_none_right_eq_some, Option.some.injEq] at hs
    exact hs.2 ▸ h.tell rfl rfl
  | ask sender target p =>
    simp only [Option.ite_none_right_eq_some, Option.some.injEq] at hs
    exact hs.2 ▸ h.ask rfl nofun
  | stop target =>
    simp only [Option.ite_none_right_eq_some, Option.some.injEq] at hs
    exact hs.2 ▸ h.tell rfl rfl
  | actorOf parent id =>
    cases hs
    unfold System.actorOf
    split
    · rename_i p hp
      refine h.ask rfl fun a ha => ⟨id, ?_⟩
      obtain rfl := Option.some.inj ha
      have haddr : (s.ref p).address = parent := by
        unfold System.get at hp
        split at hp
        · rename_i hroot
          cases hp
          rw [h.root, hroot]
        · obtain ⟨q, hq⟩ := (h.registered _ _).mp hp
          exact (h.child q _ p hq).2.2.1
      rw [haddr]
    · exact h
  | awaitTermination target =>
    simp only [Option.ite_none_right_eq_some, Option.some.injEq] at hs
    exact hs.2 ▸ h.of_actors rfl rfl
  | enter call =>
    simp only [System.enter] at hs
    split at hs
    · split at hs
      · cases hs
        exact h.of_actors rfl rfl
      · cases hs
      · cases hs
      · cases hs
      · cases hs
      · cases hs
        have hlist : Agrees (s.modify (s.awaits.get call).target
            fun p => { p with listeners := p.listeners ++ [call] }) :=
          h.modify (.moves _ rfl rfl id)
        exact hlist.of_actors rfl rfl
    · cases hs
  | get a =>
    simp only [Option.ite_none_right_eq_some] at hs
    obtain ⟨response, -, rfl⟩ := Option.map_eq_some_iff.mp hs.2
    exact h.of_actors rfl rfl
  | createChild r id =>
    simp only [Option.ite_none_right_eq_some, Option.some.injEq] at hs
    obtain ⟨hin, rfl⟩ := hs
    have hlt : r < s.actors.size := hrun fun hp => by
      rw [hp] at hin
      cases hin
    have hbegan : (s.ref r).phase.began = false := by
      cases hp : (s.ref r).phase with
      | cleaning => exact absurd hp hpath
      | starting | handling ctx | notified ctx => rfl
      | receiving | exiting | stopping left | awaiting left current | releasing | shutdown =>
        rw [hp] at hin
        cases hin
    exact h.createChild hlt hbegan rfl
  | kill r id =>
    simp only [Option.ite_none_right_eq_some, Option.some.injEq] at hs
    obtain ⟨-, rfl⟩ := hs
    have hnone : (s.ref r).child ((s.ref r).address.child id) = none := hpath
    simp only [System.kill, hnone]
    exact h
  | respond r message =>
    simp only [System.answer] at hs
    split at hs
    · rename_i ctx hphase
      split at hs
      · cases hs
        refine (h.respond ctx _).sets ?_ rfl rfl
        rw [ref_respond, hphase]
        rfl
      · cases hs
    · cases hs
  | finish r ending => exact h.finish (fun hp => hrun (by simp [hp])) hs
  | processMessage r =>
    refine h.processMessage (hrun fun hp => ?_) hs
    simp only [System.processMessage, hp] at hs
    cases hs
  | close r => exact h.close hs hpath
  | stopChild r child =>
    simp only [System.stopChild] at hs
    split at hs
    · rename_i left hphase
      have := hloop r
      rw [hphase] at this
      cases this
    · cases hs
  | awaitChild r child =>
    simp only [System.awaitChild] at hs
    split at hs
    · rename_i left hphase
      have hempty := hloop r
      rw [hphase] at hempty
      simp only [Phase.childless, Option.isNone_none, Bool.and_true, List.isEmpty_iff] at hempty
      simp [hempty] at hs
    · cases hs
  | reapChild r =>
    simp only [System.reapChild] at hs
    split at hs
    · rename_i left id call hphase
      have := hloop r
      rw [hphase] at this
      simp [Phase.childless] at this
    · cases hs
  | postStop r =>
    simp only [System.postStop] at hs
    split at hs
    · rename_i hphase
      cases hs
      exact h.modify (.phase _ (by rw [hphase]; rfl) (by rw [hphase]; rfl) fun _ => rfl)
    · cases hs
  | release r =>
    simp only [System.release] at hs
    split at hs
    · rename_i call rest hphase hlisteners
      cases hs
      have hlist : Agrees (s.modify r fun p => { p with listeners := rest }) :=
        h.modify (.moves _ rfl rfl id)
      exact hlist.of_actors rfl rfl
    · rename_i hphase _
      cases hs
      exact h.modify (.phase _ (by rw [hphase]; rfl) (by rw [hphase]; rfl) fun _ => rfl)
    · cases hs

omit [DecidableEq κ] in
theorem of_new : Agrees (new : System κ μ) := by
  have href : ∀ i, (new : System κ μ).ref i =
      if i = 0 then newRef none rootAddress else Ref.absent := fun i => Arena.get_add ..
  have hempty : ∀ i, ((new : System κ μ).ref i).children = [] ∧
      ((new : System κ μ).ref i).inbox = [] ∧ ((new : System κ μ).ref i).deadChildren = ∅ ∧
      ((new : System κ μ).ref i).phase.childless ∧
      (((new : System κ μ).ref i).phase.began = false →
        ((new : System κ μ).ref i).closed = false) := by
    intro i
    rw [href]
    split
    · exact ⟨rfl, rfl, rfl, rfl, fun _ => rfl⟩
    · exact ⟨rfl, rfl, rfl, rfl, fun hb => by cases hb⟩
  have hnone : ∀ p a i, (a, i) ∉ ((new : System κ μ).ref p).children := fun p a i hi => by
    rw [(hempty p).1] at hi
    cases hi
  have hnotices : ∀ p, ((new : System κ μ).ref p).notices = [] := fun p => by
    simp [Ref.notices, (hempty p).2.1]
  have horders : ∀ p, ((new : System κ μ).ref p).orders = [] := fun p => by
    simp [Ref.orders, (hempty p).2.1]
  have hregistered : ∀ a i, (new : System κ μ).refs a = some i ↔
      ∃ p, (a, i) ∈ ((new : System κ μ).ref p).children := by
    intro a i
    constructor
    · intro hi
      cases hi
    · rintro ⟨p, hp⟩
      exact absurd hp (hnone p a i)
  exact {
    root := by rw [href, if_pos rfl]; rfl
    registered := hregistered
    child := fun p a i hi => absurd hi (hnone p a i)
    kept := fun p hp => absurd (hempty p).1 hp
    childless := fun p => (hempty p).2.2.2.1
    accepting := fun p => (hempty p).2.2.2.2
    spared := fun p => (hempty p).2.2.1
    orphan := by rw [href, if_pos rfl]; rfl
    present := fun i hi h0 => absurd (Nat.lt_one_iff.mp hi) h0
    notice := fun p c hc => by rw [hnotices p] at hc; cases hc
    once := fun p => by rw [hnotices p]; exact List.nodup_nil
    noticed := fun p a c hc => absurd hc (hnone p a c)
    orders := fun p a ha => by rw [horders p] at ha; cases ha }

theorem of_run {tr : List (Edge (System κ μ) (Event κ μ))} (hrun : Run Step new tr s)
    (hpath : ∀ x ∈ tr, OnPath x) : Agrees s := by
  have hguarded := hrun.guarded (I := fun t => Agrees t ∧ AwaitsInv t) (G := OnPath)
    (fun _ _ _ hinv hs hx => ⟨hinv.1.step hinv.2.outside hs hx, hinv.2.step hs⟩)
    ⟨of_new, AwaitsInv.new_inv⟩ hpath
  exact hguarded.2.1

/-- A registered actor is in the map of a parent that does not close, and either it has not reported
    its end or its parent has the word in its inbox. -/
theorem get_cases (h : Agrees s) {a : Address κ} (ha : a ≠ rootAddress) (hget : s.get a = some r) :
    (s.ref r).address = a ∧ ∃ p, (s.ref r).parent = some p ∧ (s.ref p).phase.began = false ∧
      (a, r) ∈ (s.ref p).children ∧
      ((s.ref r).phase.reported = false ∨ r ∈ (s.ref p).notices) := by
  rw [System.get, if_neg ha, h.registered] at hget
  obtain ⟨p, hp⟩ := hget
  obtain ⟨-, -, haddr, hparent, -⟩ := h.child p a r hp
  refine ⟨haddr, p, hparent, h.kept p (List.ne_nil_of_mem hp), hp, ?_⟩
  cases hrep : (s.ref r).phase.reported with
  | false => exact .inl rfl
  | true => exact .inr (h.noticed p a r hp hrep)

/-- When all notifications have been processed, the registry is the tree of live actors. -/
theorem get_iff (h : Agrees s) (hsettled : s.Settled) {a : Address κ} (ha : a ≠ rootAddress) :
    s.get a = some r ↔ s.LiveChild a r := by
  refine ⟨fun hget => ?_, fun ⟨_, _, p, _, _, hp⟩ => ?_⟩
  · obtain ⟨haddr, p, hparent, hbegan, hp, hwaits⟩ := h.get_cases ha hget
    have hsize := h.size_of_child hp
    obtain ⟨-, hrsize, -⟩ := h.child p a r hp
    have hlive : (s.ref p).phase.running ∧ (s.ref p).notices = [] := by
      rcases hsettled p hsize with hp | hp
      · exact hp
      · rw [Phase.reported_of_began hbegan] at hp
        cases hp
    refine ⟨⟨hrsize, ?_⟩, haddr, p, hparent, ⟨hsize, hlive.1⟩, hp⟩
    rcases hsettled r hrsize with hr | hr
    · exact hr.1
    · rcases hwaits with hwaits | hwaits
      · rw [hr] at hwaits
        cases hwaits
      · rw [hlive.2] at hwaits
        cases hwaits
  · rw [System.get, if_neg ha, h.registered]
    exact ⟨p, hp⟩

end Agrees

end Determined.Actor
