import Determined.Actor.System
import Determined.Actor.URL

/-! Actor addresses as they are written (`pkg/actor/address.go`): a path of the ids of an actor's
    ancestors and its own, with a slash before each. An address is built by parsing a URL or by
    joining paths, and is taken apart by the functions of `path` and `strings`.

    Written out, an address is the rooted path of its components (`located`); what the functions do
    to the text they so do to the list of components. -/

namespace Determined.Actor
open Schemes Schemes.Path

inductive Panic where
  | text (msg : String)
  | parse (err : URL.ParseError)
  deriving DecidableEq, Repr

/-- The location of an actor within an actor system. -/
structure WrittenAddress where
  path : Path
  deriving DecidableEq, Repr

namespace WrittenAddress

/-! ### Paths and strings -/

/-- Go's `path.Dir`: what stands up to the last slash, cleaned. -/
def dir (p : Path) : Path := clean (p.rdropWhile (· != '/'))

/-- Go's `path.Base`: the last name, once slashes behind it are removed. -/
def base (p : Path) : Path :=
  if p = [] then ['.']
  else
    let name := (p.rdropWhile (· == '/')).rtakeWhile (· != '/')
    if name = [] then ['/'] else name

/-- `strings.SplitN` at slashes, for a positive number of parts. -/
def splitN : ℕ → Path → List Path
  | 0, _ => []
  | 1, s => [s]
  | n + 2, s =>
    if s.contains '/' then
      s.takeWhile (· != '/') :: splitN (n + 1) ((s.dropWhile (· != '/')).drop 1)
    else [s]

def trimPrefix (s pre : Path) : Path := if pre.isPrefixOf s then s.drop pre.length else s

/-! ### Addresses -/

def rootAddress : WrittenAddress := ⟨['/']⟩

/-- A new address with the provided path components, each of which must be URL-safe. -/
def addr (rawPath : List Path) : Except Panic WrittenAddress :=
  if rawPath = [] then .error (.text "must have a non-empty address")
  else if rawPath.any (·.contains '/') then
    .error (.text "address path parts cannot contain a slash")
  else
    match URL.parse ('/' :: ['/'].intercalate rawPath) with
    | .error err => .error (.parse err)
    | .ok parsed => .ok ⟨parsed.string⟩

variable (a address : WrittenAddress)

def parent : WrittenAddress := ⟨dir a.path⟩

def child (id : Path) : Except Panic WrittenAddress :=
  if id.contains '/' then .error (.text "address path parts cannot contain a slash")
  else .ok ⟨a.path.join id⟩

/-- `Local`: the local ID of the actor relative to the parent's ID space. -/
def localID : Path := base a.path

def isAncestorOf : Bool :=
  if a = rootAddress then decide (a ≠ address)
  else (a.path ++ ['/']).isPrefixOf address.path

/-- The closest child address that is also an ancestor of the provided address, or that address. -/
def nextParent : Except Panic WrittenAddress :=
  if a.isAncestorOf address then
    let trimmed := if a ≠ rootAddress then trimPrefix address.path a.path else address.path
    match (splitN 3 trimmed)[1]? with
    | none => .error (.text "index out of range")
    | some nextParentID => a.child nextParentID
  else .error (.text ("cannot fetch next parent for address: " ++ String.ofList a.path ++
    " is not an ancestor of " ++ String.ofList address.path))

/-- `nextParent`, applied so many times. -/
def descend : ℕ → WrittenAddress → WrittenAddress → Except Panic WrittenAddress
  | 0, a, _ => .ok a
  | k + 1, a, address => (a.nextParent address).bind (descend k · address)

/-- A component of an address: a name that is URL-safe. -/
structure Component (e : Path) : Prop extends IsName e where
  safe : URL.isSafe e = true

/-- The address of some components; that of none is the root. -/
def addressOf (ps : List Path) : Except Panic WrittenAddress :=
  if ps = [] then .ok rootAddress else addr ps

/-! ### Components written out -/

/-- The components with a slash before each. -/
def located (es : List Path) : WrittenAddress := ⟨rooted 1 es⟩

variable {es ps qs rs : List Path} {e q r : Path}

theorem slash_intercalate (h : es ≠ []) : '/' :: ['/'].intercalate es = Path.text es := by
  induction es with
  | nil => exact absurd rfl h
  | cons e es ih =>
    cases es with
    | nil => simp [Path.text]
    | cons f es =>
      have ih := ih (List.cons_ne_nil f es)
      rw [List.intercalate_cons_cons, List.append_assoc, List.singleton_append, ih]
      rfl

theorem located_path (h : es ≠ []) : (located es).path = Path.text es := rooted_one h

theorem located_injective (hps : ∀ e ∈ ps, IsName e) (hqs : ∀ e ∈ qs, IsName e)
    (h : located ps = located qs) : ps = qs := by
  have hroute := congrArg (fun a : WrittenAddress => a.path.route) h
  simp only [located, route_rooted hps, route_rooted hqs, Route.mk.injEq, true_and] at hroute
  exact hroute

theorem located_eq_root (hps : ∀ e ∈ ps, IsName e) : located ps = rootAddress ↔ ps = [] :=
  ⟨fun h => @located_injective ps [] hps (by simp) h, fun h => h ▸ rfl⟩

theorem unescape_text (hes : ∀ e ∈ es, Component e) :
    ∃ bytes, URL.unescape (Path.text es) = some bytes := by
  induction es with
  | nil => exact ⟨[], rfl⟩
  | cons e es ih =>
    obtain ⟨he, hes⟩ := List.forall_mem_cons.mp hes
    obtain ⟨tail, htail⟩ := ih hes
    obtain ⟨-, bytes, hbytes⟩ := URL.isSafe_spec he.safe
    have hname : URL.unescape (e ++ Path.text es) = some (bytes ++ tail) := by
      rw [URL.unescape_append hbytes, htail, Option.map_some]
    refine ⟨String.utf8EncodeChar '/' ++ (bytes ++ tail), ?_⟩
    rw [Path.text, List.flatMap_cons, List.cons_append, URL.unescape_of_ne (by decide)]
    exact congrArg _ hname

theorem parse_text (hes : ∀ e ∈ es, Component e) (h : es ≠ []) :
    ∃ u, URL.parse (Path.text es) = .ok u ∧ u.string = Path.text es := by
  obtain ⟨bytes, hbytes⟩ := unescape_text hes
  refine URL.string_parse ?_ (fun c hc => ?_) hbytes
  · obtain ⟨e, es, rfl⟩ := List.exists_cons_of_ne_nil h
    have he := hes e (List.mem_cons_self ..)
    obtain ⟨c, e', rfl⟩ := List.exists_cons_of_ne_nil he.ne_nil
    exact ⟨c, e' ++ Path.text es, rfl, fun heq => he.slash (heq ▸ List.mem_cons_self ..)⟩
  · obtain ⟨e, he, hc⟩ := List.mem_flatMap.mp hc
    rcases List.mem_cons.mp hc with rfl | hc
    · exact .inr rfl
    · exact .inl ((URL.isSafe_spec (hes e he).safe).1 c hc)

/-- Safe components are parsed and printed as they are joined. -/
theorem addr_eq (hes : ∀ e ∈ es, Component e) (h : es ≠ []) : addr es = .ok (located es) := by
  have hslash : es.any (·.contains '/') = false := by
    rw [List.any_eq_false]
    exact fun e he => by simpa using (hes e he).slash
  obtain ⟨u, hu, hstring⟩ := parse_text hes h
  rw [addr, if_neg h, hslash, if_neg Bool.false_ne_true, slash_intercalate h, hu]
  simp only [hstring, located, rooted_one h]

theorem addressOf_eq (hes : ∀ e ∈ es, Component e) : addressOf es = .ok (located es) := by
  rw [addressOf]
  split
  · rename_i h
    rw [h]
    rfl
  · rename_i h
    exact addr_eq hes h

/-! ### What the functions do to components -/

/-- A path is split behind its last slash. -/
theorem rdropWhile_name {p : Path} (hq : '/' ∉ q) :
    (p ++ '/' :: q).rdropWhile (· != '/') = p ++ ['/'] := by
  have hall : ∀ c ∈ q.reverse, (c != '/') = true := fun c hc => by
    rw [bne_iff_ne]
    rintro rfl
    exact hq (List.mem_reverse.mp hc)
  rw [List.rdropWhile, List.reverse_append, List.reverse_cons, List.append_assoc,
    List.singleton_append, List.dropWhile_append_of_pos hall, List.dropWhile_cons_of_neg (by simp),
    List.reverse_cons, List.reverse_reverse]

theorem rtakeWhile_name {p : Path} (hq : '/' ∉ q) :
    (p ++ '/' :: q).rtakeWhile (· != '/') = q := by
  have hall : ∀ c ∈ q.reverse, (c != '/') = true := fun c hc => by
    rw [bne_iff_ne]
    rintro rfl
    exact hq (List.mem_reverse.mp hc)
  rw [List.rtakeWhile, List.reverse_append, List.reverse_cons, List.append_assoc,
    List.singleton_append, List.takeWhile_append_of_pos hall, List.takeWhile_cons_of_neg (by simp),
    List.append_nil, List.reverse_reverse]

theorem located_concat (ps : List Path) (q : Path) :
    (located (ps ++ [q])).path = Path.text ps ++ '/' :: q := by
  rw [located_path (by simp), text_append]
  simp [Path.text]

theorem child_located (hps : ∀ e ∈ ps, IsName e) (hq : IsName q) :
    (located ps).child q = .ok (located (ps ++ [q])) := by
  have hslash : q.contains '/' = false := by simpa using hq.slash
  have hne : rooted 1 ps ≠ [] := by
    cases ps <;> simp [rooted]
  have habs : isAbs (rooted 1 ps ++ '/' :: q) = true := by
    cases ps <;> simp [rooted, isAbs]
  have hroute : (rooted 1 ps ++ '/' :: q).route = ⟨0, ps ++ [q]⟩ := by
    rw [route_append, route_rooted hps, route, hq.elements, List.foldl_cons, List.foldl_nil,
      Route.step, if_neg hq.ne_dots]
    simp [Route.comp, Route.here]
  rw [child, hslash, if_neg Bool.false_ne_true, located, located, Path.join, if_neg hne, clean, habs,
    if_pos rfl, hroute]

theorem parent_located (hps : ∀ e ∈ ps, IsName e) (hq : IsName q) :
    (located (ps ++ [q])).parent = located ps := by
  have habs : isAbs (Path.text ps ++ ['/']) = true := by
    cases ps <;> simp [Path.text, isAbs]
  have hroute : (Path.text ps ++ ['/']).route = ⟨0, ps⟩ := by
    rw [route, elements_append, elements_nil, List.append_nil, elements_text hps,
      foldl_step_names hps]
    rfl
  rw [parent, located_concat, dir, rdropWhile_name hq.slash, clean, habs, if_pos rfl, hroute, located]

theorem localID_located (ps : List Path) (hq : IsName q) : (located (ps ++ [q])).localID = q := by
  obtain ⟨q', c, hq'⟩ := List.eq_nil_or_concat q |>.resolve_left hq.ne_nil
  have hc : c ≠ '/' := by
    rintro rfl
    exact hq.slash (by rw [hq', List.concat_eq_append]; simp)
  have hslashes : (Path.text ps ++ '/' :: q).rdropWhile (· == '/') = Path.text ps ++ '/' :: q := by
    rw [hq', List.concat_eq_append, ← List.cons_append, ← List.append_assoc]
    exact List.rdropWhile_concat_neg _ _ _ (by simpa using hc)
  rw [localID, located_concat, base, if_neg (by simp), hslashes, rtakeWhile_name hq.slash]
  exact if_neg hq.ne_nil

theorem isAncestorOf_located (hps : ∀ e ∈ ps, IsName e) (hqs : ∀ e ∈ qs, IsName e) :
    (located ps).isAncestorOf (located qs) = true ↔ ps <+: qs ∧ ps ≠ qs := by
  rw [isAncestorOf]
  split
  · rename_i hroot
    obtain rfl := (located_eq_root hps).mp hroot
    rw [decide_eq_true_iff]
    refine ⟨fun hne => ⟨List.nil_prefix, fun heq => hne (heq ▸ rfl)⟩, fun h heq => ?_⟩
    exact h.2 (located_injective hps hqs heq)
  · rename_i hroot
    have hne : ps ≠ [] := fun h => hroot ((located_eq_root hps).mpr h)
    rw [List.isPrefixOf_iff_prefix, located_path hne]
    constructor
    · rintro ⟨rest, hrest⟩
      rw [List.append_assoc, List.singleton_append] at hrest
      have hqne : qs ≠ [] := by
        rintro rfl
        obtain ⟨e, es, rfl⟩ := List.exists_cons_of_ne_nil hne
        have hlen := congrArg List.length hrest
        simp [Path.text, located, rooted] at hlen
      rw [located_path hqne] at hrest
      refine ⟨prefix_of_text (fun e he => (hps e he).slash) (fun e he => (hqs e he).slash)
        (.inr ⟨rest, rfl⟩) hrest.symm, ?_⟩
      rintro rfl
      simp at hrest
    · rintro ⟨⟨rs, rfl⟩, hneq⟩
      obtain ⟨r, rs, rfl⟩ := List.exists_cons_of_ne_nil (l := rs) (by rintro rfl; simp at hneq)
      rw [located_path (by simp), text_append]
      exact ⟨r ++ Path.text rs, by simp [Path.text]⟩

/-- The part behind the first slash of the text is the first component. -/
theorem splitN_text (hr : '/' ∉ r) (rs : List Path) :
    (splitN 3 (Path.text (r :: rs)))[1]? = some r := by
  have hcons : Path.text (r :: rs) = '/' :: (r ++ Path.text rs) := rfl
  have hsplit : (splitN 2 (r ++ Path.text rs))[0]? = some r := by
    rw [splitN]
    split
    · rw [takeWhile_name hr (text_eq_nil_or rs)]
      rfl
    · rename_i hnone
      rcases text_eq_nil_or rs with hnil | ⟨p, hp⟩
      · rw [hnil, List.append_nil]
        rfl
      · rw [hp] at hnone
        simp at hnone
  rw [hcons, splitN, if_pos (by simp)]
  simpa using hsplit

theorem nextParent_located (hps : ∀ e ∈ ps ++ r :: rs, IsName e) :
    (located ps).nextParent (located (ps ++ r :: rs)) = .ok (located (ps ++ [r])) := by
  obtain ⟨hps', hrs⟩ := List.forall_mem_append.mp hps
  have hr := hrs r (List.mem_cons_self ..)
  have hancestor := (isAncestorOf_located hps' hps).mpr ⟨List.prefix_append .., by simp⟩
  have htrimmed : (if located ps ≠ rootAddress then
      trimPrefix (located (ps ++ r :: rs)).path (located ps).path
      else (located (ps ++ r :: rs)).path) = Path.text (r :: rs) := by
    have htext : (located (ps ++ r :: rs)).path = Path.text ps ++ Path.text (r :: rs) := by
      rw [located_path (by simp), text_append]
    split
    · rename_i hroot
      have hne : ps ≠ [] := fun h => hroot ((located_eq_root hps').mpr h)
      rw [trimPrefix, htext, located_path hne,
        if_pos (List.isPrefixOf_iff_prefix.mpr (List.prefix_append ..)), List.drop_left]
    · rename_i hroot
      obtain rfl := (located_eq_root hps').mp (not_not.mp hroot)
      exact htext
  rw [nextParent, if_pos hancestor, htrimmed]
  simp only [splitN_text hr.slash]
  exact child_located hps' hr

/-- Each step down goes on by one component. -/
theorem descend_located (hps : ∀ e ∈ ps ++ rs, IsName e) (k : ℕ) (hk : k ≤ rs.length) :
    descend k (located ps) (located (ps ++ rs)) = .ok (located (ps ++ rs.take k)) := by
  induction k generalizing ps rs with
  | zero => simp [descend]
  | succ k ih =>
    cases rs with
    | nil => simp at hk
    | cons r rs =>
      have hcons : ps ++ r :: rs = ps ++ [r] ++ rs := List.append_cons ..
      have hrest := ih (hcons ▸ hps) (by simpa using hk)
      rw [descend, nextParent_located hps, Except.bind, hcons, hrest, List.take_succ_cons,
        ← List.append_cons]

/-- Below its end there is nowhere to go. -/
theorem descend_of_length_lt (hps : ∀ e ∈ ps ++ rs, IsName e) {k : ℕ} (hk : rs.length < k) :
    ∃ err, descend k (located ps) (located (ps ++ rs)) = .error err := by
  induction k generalizing ps rs with
  | zero => omega
  | succ k ih =>
    cases rs with
    | nil =>
      have hancestor : (located ps).isAncestorOf (located ps) = false := by
        rw [Bool.eq_false_iff, ne_eq, isAncestorOf_located (by simpa using hps) (by simpa using hps)]
        exact fun h => h.2 rfl
      rw [List.append_nil, descend, nextParent, hancestor, if_neg Bool.false_ne_true]
      exact ⟨_, rfl⟩
    | cons r rs =>
      have hcons : ps ++ r :: rs = ps ++ [r] ++ rs := List.append_cons ..
      obtain ⟨err, herr⟩ := ih (hcons ▸ hps) (by simpa using hk)
      refine ⟨err, ?_⟩
      rw [descend, nextParent_located hps, Except.bind, hcons, herr]

/-- So many steps lead to the descendant as there are components between them. -/
theorem descend_eq_iff (hps : ∀ e ∈ ps ++ rs, IsName e) (k : ℕ) :
    descend k (located ps) (located (ps ++ rs)) = .ok (located (ps ++ rs)) ↔ k = rs.length := by
  rcases le_or_gt k rs.length with hk | hk
  · rw [descend_located hps k hk, Except.ok.injEq]
    constructor
    · intro heq
      have hnames : ∀ e ∈ ps ++ rs.take k, IsName e := fun e he => by
        rcases List.mem_append.mp he with he | he
        · exact hps e (List.mem_append_left _ he)
        · exact hps e (List.mem_append_right _ (List.mem_of_mem_take he))
      have htake := List.append_cancel_left (located_injective hnames hps heq)
      have hlen := congrArg List.length htake
      rw [List.length_take] at hlen
      omega
    · rintro rfl
      rw [List.take_length]
  · obtain ⟨err, herr⟩ := descend_of_length_lt hps hk
    rw [herr]
    exact iff_of_false (by simp) (by omega)

/-! ### The algebra of addresses -/

/-- The address of an actor as the actor system knows it, written out. -/
def written (a : Address Path) : WrittenAddress := located a.reverse

/-- Children in the actor system are children by their written address. -/
theorem written_child {a : Address Path} (ha : ∀ e ∈ a, IsName e) (hq : IsName q) :
    (written a).child q = .ok (written (a.child q)) := by
  rw [written, child_located (by simpa using ha) hq, written, Address.child, List.reverse_cons]

/-- CORRECT: with the root for no components, an address one component longer is the child of the
    shorter one, which is its parent, and the component is its local id; addresses are told apart by
    their components; one is an ancestor of another if its components are a proper prefix of the
    other's; and `nextParent` gets from it to the other in as many steps as there are components
    between them, and in no other number. -/
theorem address_algebra :
    (∀ ps q, (∀ e ∈ ps ++ [q], Component e) → ∃ a address, addressOf ps = .ok a ∧
      addr (ps ++ [q]) = .ok address ∧ a.child q = .ok address ∧ address.parent = a ∧
        address.localID = q) ∧
    (∀ ps qs, (∀ e ∈ ps, Component e) → (∀ e ∈ qs, Component e) → addressOf ps = addressOf qs →
      ps = qs) ∧
    (∀ ps qs a address, (∀ e ∈ ps, Component e) → (∀ e ∈ qs, Component e) → addressOf ps = .ok a →
      addressOf qs = .ok address → (a.isAncestorOf address = true ↔ ps <+: qs ∧ ps ≠ qs)) ∧
    ∀ ps rs a address, (∀ e ∈ ps ++ rs, Component e) → addressOf ps = .ok a →
      addressOf (ps ++ rs) = .ok address → ∀ k, descend k a address = .ok address ↔ k = rs.length := by
  refine ⟨fun ps q h => ?_, fun ps qs hps hqs heq => ?_, fun ps qs a address hps hqs ha hb => ?_,
    fun ps rs a address h ha hb k => ?_⟩
  · obtain ⟨hps, hq⟩ := List.forall_mem_append.mp h
    have hnames : ∀ e ∈ ps, IsName e := fun e he => (hps e he).toIsName
    have hname := (hq q (List.mem_singleton_self q)).toIsName
    exact ⟨located ps, located (ps ++ [q]), addressOf_eq hps, addr_eq h (by simp),
      child_located hnames hname, parent_located hnames hname, localID_located ps hname⟩
  · rw [addressOf_eq hps, addressOf_eq hqs, Except.ok.injEq] at heq
    exact located_injective (fun e he => (hps e he).toIsName) (fun e he => (hqs e he).toIsName) heq
  · rw [addressOf_eq hps, Except.ok.injEq] at ha
    rw [addressOf_eq hqs, Except.ok.injEq] at hb
    subst ha hb
    exact isAncestorOf_located (fun e he => (hps e he).toIsName) fun e he => (hqs e he).toIsName
  · have hps : ∀ e ∈ ps, Component e := fun e he => h e (List.mem_append_left _ he)
    rw [addressOf_eq hps, Except.ok.injEq] at ha
    rw [addressOf_eq h, Except.ok.injEq] at hb
    subst ha hb
    exact descend_eq_iff (fun e he => (h e he).toIsName) k

theorem address_algebra_grand : ∃ a address,
    addr ["grand".toList, "parent".toList, "child".toList] = .ok address ∧
    addressOf ["grand".toList] = .ok a ∧ a.isAncestorOf address = true ∧
    ∀ k, descend k a address = .ok address ↔ k = 2 := by
  have hgrand : Component "grand".toList :=
    ⟨⟨by decide, by decide, by decide, by decide⟩, by decide⟩
  have hparent : Component "parent".toList :=
    ⟨⟨by decide, by decide, by decide, by decide⟩, by decide⟩
  have hchild : Component "child".toList :=
    ⟨⟨by decide, by decide, by decide, by decide⟩, by decide⟩
  have hps : ∀ e ∈ ["grand".toList], Component e := by simpa using hgrand
  have hqs : ∀ e ∈ ["grand".toList] ++ ["parent".toList, "child".toList], Component e := by
    simpa using ⟨hgrand, hparent, hchild⟩
  refine ⟨located ["grand".toList], located ["grand".toList, "parent".toList, "child".toList],
    addr_eq hqs (by simp), addressOf_eq hps, ?_, ?_⟩
  · refine (address_algebra.2.2.1 _ _ _ _ hps hqs (addressOf_eq hps) (addressOf_eq hqs)).mpr ⟨?_, ?_⟩
    · exact List.prefix_append ..
    · simp
  · exact address_algebra.2.2.2 _ _ _ _ hqs (addressOf_eq hps) (addressOf_eq hqs)

/-- There is no address of no components that could have a child. -/
theorem addr_nil_childless : ¬ ∀ ps q, (∀ e ∈ ps ++ [q], Component e) →
    addr (ps ++ [q]) = (addr ps).bind (·.child q) := by
  intro h
  have hq : ∀ e ∈ ([] : List Path) ++ [['a']], Component e := by
    intro e he
    obtain rfl := List.mem_singleton.mp he
    exact ⟨⟨by decide, by decide, by decide, by decide⟩, by decide⟩
  have hchild := h [] ['a'] hq
  rw [addr_eq hq (by simp)] at hchild
  simp [addr, Except.bind] at hchild

end WrittenAddress

end Determined.Actor
