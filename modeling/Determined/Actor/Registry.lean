import Determined.Actor.System

/-! The registry of addresses against the tree of actors.

    A parent enters a child in its own map and in the registry in one step, and takes it out of both
    when it processes the word that the child is gone. In between the registry and the maps say the
    same, whatever else happens, as long as nobody leaves this path: `Kill` takes the child out of
    the map only, a shutdown that still has children drops the words that would have removed them
    (and calls `deleteChild` with its own address), and a child created in `PostStop` outlives its
    parent. `Agrees` is the invariant of the runs that stay on the path. -/

namespace Determined.Actor

open Schemes

variable {κ μ : Type*}

/-- The child a notification is about. -/
def Message.gone : Message κ μ → Option RefId
  | .childFailed child _ | .childStopped child => some child
  | _ => none

/-- The address a `createChild` message asks for. -/
def Message.order : Message κ μ → Option (Address κ)
  | .createChild address => some address
  | _ => none

/-- The children whose end waits in the inbox. -/
def Ref.notices (r : Ref κ μ) : List RefId := r.inbox.filterMap (·.message.gone)

def Ref.orders (r : Ref κ μ) : List (Address κ) := r.inbox.filterMap (·.message.order)

namespace Phase

/-- `close` has started. -/
def began : Phase κ μ → Bool
  | .starting | .receiving | .handling _ | .notified _ | .exiting => false
  | _ => true

/-- The loops of `close` have no child to go through. -/
def childless : Phase κ μ → Bool
  | .stopping _ => false
  | .awaiting left current => left.isEmpty && current.isNone
  | _ => true

theorem began_of_reported {phase : Phase κ μ} (h : phase.reported) : phase.began := by
  cases phase <;> simp_all [reported, began]

theorem reported_of_began {phase : Phase κ μ} (h : phase.began = false) :
    phase.reported = false := by
  cases phase <;> simp_all [reported, began]

end Phase

namespace System

/-- An actor that still processes messages. -/
def Live (s : System κ μ) (r : RefId) : Prop :=
  r < s.actors.size ∧ (s.ref r).phase.running

/-- All notifications have been processed: nobody is on its way out, and no live actor has one in
    its inbox. -/
def Settled (s : System κ μ) : Prop :=
  ∀ r < s.actors.size,
    ((s.ref r).phase.running ∧ (s.ref r).notices = []) ∨ (s.ref r).phase.reported

/-- `r` is the live child of a live parent, at this address. -/
def LiveChild (s : System κ μ) (address : Address κ) (r : RefId) : Prop :=
  s.Live r ∧ (s.ref r).address = address ∧
    ∃ p, (s.ref r).parent = some p ∧ s.Live p ∧ (address, r) ∈ (s.ref p).children

/-- `p` is above `r` in the tree. -/
def Above (s : System κ μ) : RefId → RefId → Prop :=
  Relation.TransGen fun p r => (s.ref r).parent = some p

/-- Creating a child is not seen in the phase of anyone. -/
theorem phase_createChild [DecidableEq κ] {s : System κ μ} {r i : RefId} {address : Address κ}
    (hi : i < s.actors.size) : ((s.createChild r address).1.ref i).phase = (s.ref i).phase := by
  rcases (System.createChild_cases : (s.createChild r address).1 = s ∨ _) with
    heq | ⟨-, -, -, -, -, href⟩
  · rw [heq]
  · rw [href]
    simp only [if_neg hi.ne]
    split <;> rfl

end System

/-- The registry and the maps of children say the same. -/
structure Agrees (s : System κ μ) : Prop where
  root : (s.ref 0).address = rootAddress
  registered : ∀ a i, s.refs a = some i ↔ ∃ p, (a, i) ∈ (s.ref p).children
  child : ∀ p a i, (a, i) ∈ (s.ref p).children → p < i ∧ i < s.actors.size ∧
    (s.ref i).address = a ∧ (s.ref i).parent = some p ∧ ∃ id, a = (s.ref p).address.child id
  kept : ∀ p, (s.ref p).children ≠ [] → (s.ref p).phase.began = false
  childless : ∀ p, (s.ref p).phase.childless
  accepting : ∀ p, (s.ref p).phase.began = false → (s.ref p).closed = false
  spared : ∀ p, (s.ref p).deadChildren = ∅
  orphan : (s.ref 0).parent = none
  present : ∀ i < s.actors.size, i ≠ 0 → (s.ref i).phase.reported = false →
    ∃ p, ((s.ref i).address, i) ∈ (s.ref p).children
  notice : ∀ p, ∀ c ∈ (s.ref p).notices,
    ((s.ref c).address, c) ∈ (s.ref p).children ∧ (s.ref c).phase.reported
  once : ∀ p, (s.ref p).notices.Nodup
  noticed : ∀ p a c, (a, c) ∈ (s.ref p).children → (s.ref c).phase.reported →
    c ∈ (s.ref p).notices
  orders : ∀ p, ∀ a ∈ (s.ref p).orders, ∃ id, a = (s.ref p).address.child id

/-- Two states of an actor that the tree cannot tell apart. -/
structure Similar (r r' : Ref κ μ) : Prop where
  address : r'.address = r.address
  parent : r'.parent = r.parent
  children : r'.children = r.children
  deadChildren : r'.deadChildren = r.deadChildren
  closed : r'.closed = r.closed
  began : r'.phase.began = r.phase.began
  reported : r'.phase.reported = r.phase.reported
  childless : r.phase.childless → r'.phase.childless
  notices : r'.notices = r.notices
  orders : ∀ a ∈ r'.orders, a ∈ r.orders ∨ ∃ id, a = r.address.child id

theorem Similar.refl (r : Ref κ μ) : Similar r r :=
  ⟨rfl, rfl, rfl, rfl, rfl, rfl, rfl, id, rfl, fun _ => .inl⟩

theorem Similar.trans {r r' r'' : Ref κ μ} (h : Similar r r') (h' : Similar r' r'') :
    Similar r r'' where
  address := h'.address.trans h.address
  parent := h'.parent.trans h.parent
  children := h'.children.trans h.children
  deadChildren := h'.deadChildren.trans h.deadChildren
  closed := h'.closed.trans h.closed
  began := h'.began.trans h.began
  reported := h'.reported.trans h.reported
  childless := h'.childless ∘ h.childless
  notices := h'.notices.trans h.notices
  orders a ha := by
    rcases h'.orders a ha with ha | ⟨id, ha⟩
    · exact h.orders a ha
    · exact .inr ⟨id, by rw [ha, h.address]⟩

/-- A message that is no notification, and orders no child but an own one, makes no difference. -/
theorem Similar.add (r : Ref κ μ) {ctx : Context κ μ} (hgone : ctx.message.gone = none)
    (horder : ∀ a, ctx.message.order = some a → ∃ id, a = r.address.child id) :
    Similar r (r.add ctx) := by
  unfold Ref.add
  split
  · exact .refl r
  · refine ⟨rfl, rfl, rfl, rfl, rfl, rfl, rfl, id, ?_, fun a ha => ?_⟩
    · simp [Ref.notices, hgone]
    · simp only [Ref.orders, List.filterMap_append, List.mem_append] at ha
      rcases ha with ha | ha
      · exact .inl ha
      · exact .inr (horder a (by simpa using ha))

theorem Similar.pop {r : Ref κ μ} {ctx : Context κ μ} {rest : List (Context κ μ)}
    (h : r.inbox = ctx :: rest) (hgone : ctx.message.gone = none) :
    Similar r { r with inbox := rest } := by
  refine ⟨rfl, rfl, rfl, rfl, rfl, rfl, rfl, id, ?_, fun a ha => .inl ?_⟩
  · simp [Ref.notices, h, hgone]
  · unfold Ref.orders
    rw [h]
    exact (List.sublist_cons_self ctx rest).filterMap _ |>.subset ha

/-- A change of phase that neither starts nor ends a shutdown. -/
theorem Similar.phase (r : Ref κ μ) {phase : Phase κ μ} (hbegan : phase.began = r.phase.began)
    (hreported : phase.reported = r.phase.reported)
    (hchildless : r.phase.childless → phase.childless) : Similar r { r with phase := phase } :=
  ⟨rfl, rfl, rfl, rfl, rfl, hbegan, hreported, hchildless, rfl, fun _ => .inl⟩

namespace Agrees

variable {s s' : System κ μ} {r i : RefId}

/-- What the tree cannot tell apart, the invariant cannot. -/
theorem similar (h : Agrees s) (hsim : ∀ i, Similar (s.ref i) (s'.ref i))
    (hrefs : s'.refs = s.refs) (hsize : s'.actors.size = s.actors.size) : Agrees s' where
  root := by rw [(hsim 0).address, h.root]
  registered a i := by
    rw [hrefs, h.registered]
    exact exists_congr fun p => by rw [(hsim p).children]
  child p a i hi := by
    rw [(hsim p).children] at hi
    rw [hsize, (hsim i).address, (hsim i).parent, (hsim p).address]
    exact h.child p a i hi
  kept p hp := by
    rw [(hsim p).children] at hp
    rw [(hsim p).began, h.kept p hp]
  childless p := (hsim p).childless (h.childless p)
  accepting p hp := by
    rw [(hsim p).began] at hp
    rw [(hsim p).closed, h.accepting p hp]
  spared p := by rw [(hsim p).deadChildren, h.spared p]
  orphan := by rw [(hsim 0).parent, h.orphan]
  present i hi h0 hrep := by
    rw [hsize] at hi
    rw [(hsim i).reported] at hrep
    obtain ⟨p, hp⟩ := h.present i hi h0 hrep
    exact ⟨p, by rwa [(hsim i).address, (hsim p).children]⟩
  notice p c hc := by
    rw [(hsim p).notices] at hc
    rw [(hsim c).address, (hsim p).children, (hsim c).reported]
    exact h.notice p c hc
  once p := by rw [(hsim p).notices]; exact h.once p
  noticed p a c hc hrep := by
    rw [(hsim p).children] at hc
    rw [(hsim c).reported] at hrep
    rw [(hsim p).notices]
    exact h.noticed p a c hc hrep
  orders p a ha := by
    rw [(hsim p).address]
    rcases (hsim p).orders a ha with ha | ha
    · exact h.orders p a ha
    · exact ha

/-- One actor changes in a way the tree does not see. -/
theorem modify (h : Agrees s) {f : Ref κ μ → Ref κ μ} (hf : Similar (s.ref r) (f (s.ref r))) :
    Agrees (s.modify r f) := by
  refine h.similar (fun i => ?_) rfl rfl
  rw [System.ref_modify]
  split
  · rename_i hi
    subst hi
    exact hf
  · exact .refl _

theorem of_actors (h : Agrees s) (hactors : s'.actors = s.actors) (hrefs : s'.refs = s.refs) :
    Agrees s' := by
  refine h.similar (fun i => ?_) hrefs (by rw [hactors])
  simp only [System.ref, hactors]
  exact .refl _

theorem ask (h : Agrees s) {sender : Option RefId} {message : Message κ μ}
    (hgone : message.gone = none)
    (horder : ∀ a, message.order = some a → ∃ id, a = (s.ref r).address.child id) :
    Agrees (s.ask sender r message) := by
  refine h.similar (fun i => ?_) System.ask_refs System.ask_size
  rw [System.ref_ask]
  split
  · rename_i hi
    subst hi
    exact .add _ hgone horder
  · exact .refl _

theorem tell (h : Agrees s) {sender : Option RefId} {message : Message κ μ}
    (hgone : message.gone = none) (horder : message.order = none) :
    Agrees (s.tell sender r message) :=
  h.modify (.add _ hgone (by simp [horder]))

/-! ### Who is registered -/

theorem address_ne_root (h : Agrees s) {p : RefId} {a : Address κ} (hi : (a, i) ∈ (s.ref p).children) :
    a ≠ rootAddress := by
  obtain ⟨-, -, -, -, id, ha⟩ := h.child p a i hi
  rw [ha]
  exact List.cons_ne_nil _ _

/-- An actor that has not reported its end is the one registered at its address. -/
theorem get_address [DecidableEq κ] (h : Agrees s) (hi : i < s.actors.size)
    (hrep : (s.ref i).phase.reported = false) : s.get (s.ref i).address = some i := by
  unfold System.get
  by_cases h0 : i = 0
  · subst h0
    rw [if_pos h.root]
  · obtain ⟨p, hp⟩ := h.present i hi h0 hrep
    rw [if_neg (h.address_ne_root hp), h.registered]
    exact ⟨p, hp⟩

theorem unique [DecidableEq κ] (h : Agrees s) {j : RefId} (hi : i < s.actors.size)
    (hj : j < s.actors.size) (hri : (s.ref i).phase.reported = false)
    (hrj : (s.ref j).phase.reported = false) (haddr : (s.ref i).address = (s.ref j).address) :
    i = j := by
  have hget := h.get_address hi hri
  rw [haddr, h.get_address hj hrj] at hget
  exact (Option.some.inj hget).symm

theorem size_of_child (h : Agrees s) {p : RefId} {a : Address κ} (hi : (a, i) ∈ (s.ref p).children) :
    p < s.actors.size := by
  obtain ⟨hlt, hsize, -⟩ := h.child p a i hi
  exact hlt.trans hsize

/-- Two children at one address are one. -/
theorem functional (h : Agrees s) {p q : RefId} {a : Address κ} {j : RefId}
    (hi : (a, i) ∈ (s.ref p).children) (hj : (a, j) ∈ (s.ref q).children) : i = j :=
  Option.some.inj (((h.registered a i).mpr ⟨p, hi⟩).symm.trans ((h.registered a j).mpr ⟨q, hj⟩))

end Agrees

end Determined.Actor
