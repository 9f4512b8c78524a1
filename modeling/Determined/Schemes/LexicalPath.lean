import Mathlib

/-! Paths as they are read: names between slashes, with no look at a file system.

    What a path amounts to is its *route*: some steps up, then the names on the way down. Routes
    compose as paths are joined. A cleaned path is its route written out, and for rooted paths the
    question whether one lies below another is about the names; a prefix of the text says so only if
    it ends where a name ends. -/

namespace Determined.Schemes

abbrev Path := List Char

/-- The names of a path, without those that stand for the directory itself. -/
def Path.elements (p : Path) : List Path := (p.splitOn '/').filter fun e => e ≠ [] ∧ e ≠ ['.']

/-- Steps up from where a path starts, and the names on the way down from there. -/
structure Route where
  up : ℕ
  down : List Path
  deriving DecidableEq, Repr

namespace Route

def here : Route := ⟨0, []⟩

/-- Go on by one name. -/
def step (r : Route) (e : Path) : Route :=
  if e = ['.', '.'] then
    if r.down = [] then { r with up := r.up + 1 } else { r with down := r.down.dropLast }
  else { r with down := r.down ++ [e] }

/-- Go on by another route. -/
def comp (r s : Route) : Route where
  up := r.up + (s.up - r.down.length)
  down := r.down.take (r.down.length - s.up) ++ s.down

@[simp] theorem comp_here (r : Route) : r.comp here = r := by
  simp [comp, here]

theorem step_comp (r s : Route) (e : Path) : (r.comp s).step e = r.comp (s.step e) := by
  rw [step, step]
  split
  · rcases s with ⟨up, down⟩
    rcases down.eq_nil_or_concat with rfl | ⟨down, d, rfl⟩
    · simp only [comp, List.append_nil, if_true, List.take_eq_nil_iff]
      rcases r with ⟨up', down'⟩
      simp only
      by_cases hdown : down'.length ≤ up
      · rw [if_pos (.inl (by omega))]
        simp only [mk.injEq]
        refine ⟨by omega, ?_⟩
        rw [Nat.sub_eq_zero_of_le hdown, Nat.sub_eq_zero_of_le (by omega)]
      · have hne : ¬ (down'.length - up = 0 ∨ down' = []) := by
          rintro (h | rfl)
          · omega
          · simp at hdown
        rw [if_neg hne]
        simp only [mk.injEq]
        refine ⟨by omega, ?_⟩
        rw [List.dropLast_eq_take, List.take_take, List.length_take]
        congr 1
        omega
    · simp [comp, List.dropLast_append_of_ne_nil]
  · simp [comp]

theorem foldl_step (r s : Route) (es : List Path) :
    es.foldl step (r.comp s) = r.comp (es.foldl step s) := by
  induction es generalizing s with
  | nil => rfl
  | cons e es ih => rw [List.foldl_cons, List.foldl_cons, step_comp, ih]

end Route

namespace Path

/-- The route that a path describes. -/
def route (p : Path) : Route := p.elements.foldl Route.step .here

theorem elements_append (p q : Path) : (p ++ '/' :: q).elements = p.elements ++ q.elements := by
  rw [elements, List.splitOn_append_cons_self, List.filter_append, elements, elements]

/-- The route of a path below another. -/
theorem route_append (p q : Path) : (p ++ '/' :: q).route = p.route.comp q.route := by
  rw [route, elements_append, List.foldl_append, ← route]
  conv_lhs => rw [← p.route.comp_here]
  rw [Route.foldl_step, ← route]

/-! ### Names -/

/-- A name proper: not empty, without a slash, and no dot or dots that have a meaning. -/
structure IsName (e : Path) : Prop where
  ne_nil : e ≠ []
  ne_dot : e ≠ ['.']
  ne_dots : e ≠ ['.', '.']
  slash : '/' ∉ e

theorem notMem_of_mem_splitOn {p e : Path} (h : e ∈ p.splitOn '/') : '/' ∉ e := by
  induction p generalizing e with
  | nil => simp_all
  | cons c p ih =>
    rw [List.splitOn_cons_eq_if_modifyHead] at h
    split at h
    · rcases List.mem_cons.mp h with rfl | h
      · simp
      · exact ih h
    · rename_i hc
      obtain ⟨d, ds, hd⟩ := List.exists_cons_of_ne_nil (List.splitOn_ne_nil '/' p)
      rw [hd, List.modifyHead_cons] at h
      rcases List.mem_cons.mp h with rfl | h
      · rw [List.mem_cons, not_or]
        exact ⟨fun h => hc (beq_iff_eq.mpr h.symm), ih (hd ▸ List.mem_cons_self ..)⟩
      · exact ih (hd ▸ List.mem_cons_of_mem _ h)

theorem isName_down_step {r : Route} {e : Path} (hr : ∀ d ∈ r.down, IsName d) (hnil : e ≠ [])
    (hdot : e ≠ ['.']) (hslash : '/' ∉ e) : ∀ d ∈ (r.step e).down, IsName d := by
  intro d hd
  rw [Route.step] at hd
  split at hd
  · split at hd
    · exact hr d hd
    · exact hr d (List.mem_of_mem_dropLast hd)
  · rename_i hdots
    rcases List.mem_append.mp hd with hd | hd
    · exact hr d hd
    · obtain rfl := List.mem_singleton.mp hd
      exact ⟨hnil, hdot, hdots, hslash⟩

/-- The way down goes by names. -/
theorem isName_down (p : Path) : ∀ d ∈ p.route.down, IsName d := by
  have hfold : ∀ (es : List Path) (r : Route), (∀ e ∈ es, e ≠ [] ∧ e ≠ ['.'] ∧ '/' ∉ e) →
      (∀ d ∈ r.down, IsName d) → ∀ d ∈ (es.foldl Route.step r).down, IsName d := by
    intro es
    induction es with
    | nil => exact fun r _ hr => hr
    | cons e es ih =>
      intro r hes hr
      obtain ⟨⟨hnil, hdot, hslash⟩, hes⟩ := List.forall_mem_cons.mp hes
      exact ih _ hes (isName_down_step hr hnil hdot hslash)
  refine hfold p.elements .here (fun e he => ?_) (by simp [Route.here])
  obtain ⟨hsplit, hne⟩ := List.mem_filter.mp he
  have hne : e ≠ [] ∧ e ≠ ['.'] := by simpa using hne
  exact ⟨hne.1, hne.2, notMem_of_mem_splitOn hsplit⟩

/-! ### Written paths -/

/-- The names with a slash before each. -/
def text (es : List Path) : Path := es.flatMap ('/' :: ·)

/-- A rooted path, written with a number of slashes at its front. -/
def rooted (slashes : ℕ) : List Path → Path
  | [] => List.replicate slashes '/'
  | e :: es => List.replicate slashes '/' ++ e ++ text es

/-- A path that is not rooted. -/
def unrooted (r : Route) : Path :=
  if r = .here then ['.']
  else ['/'].intercalate (List.replicate r.up ['.', '.'] ++ r.down)

def isAbs (p : Path) : Bool := p.head? == some '/'

/-- The shortest path that is read the same way. At the root there is no way up. -/
def clean (p : Path) : Path := if isAbs p then rooted 1 p.route.down else unrooted p.route

/-- What is left of two ways down after they part. -/
def parting : List Path → List Path → List Path × List Path
  | e :: es, f :: fs => if e = f then parting es fs else (e :: es, f :: fs)
  | es, fs => (es, fs)

/-- How to get from a rooted path to another one: up to where they part, then down. There is no
    way to one that is rooted from one that is not. -/
def relative (base target : Path) : Option Path :=
  if base.isAbs then
    let left := parting base.route.down target.route.down
    some (unrooted ⟨left.1.length, left.2⟩)
  else none

/-- Two paths with a slash between them, cleaned. -/
def join (p q : Path) : Path :=
  if p = [] then if q = [] then [] else clean q else clean (p ++ '/' :: q)

variable {es fs : List Path} {e f : Path}

theorem text_append : text (es ++ fs) = text es ++ text fs := by
  rw [text, List.flatMap_append, text, text]

theorem rooted_cons (slashes : ℕ) :
    rooted (slashes + 1) (e :: es) = List.replicate slashes '/' ++ text (e :: es) := by
  rw [rooted, List.replicate_succ', List.append_assoc, List.append_assoc]
  rfl

theorem rooted_one (h : es ≠ []) : rooted 1 es = text es := by
  obtain ⟨e, es, rfl⟩ := List.exists_cons_of_ne_nil h
  exact rooted_cons 0

@[simp] theorem elements_nil : elements [] = [] := by
  simp [elements]

theorem elements_slash (p : Path) : elements ('/' :: p) = p.elements := by
  simpa using elements_append [] p

theorem elements_slashes (slashes : ℕ) (p : Path) :
    elements (List.replicate slashes '/' ++ p) = p.elements := by
  induction slashes with
  | zero => rfl
  | succ slashes ih => rw [List.replicate_succ, List.cons_append, elements_slash, ih]

theorem IsName.elements (h : IsName e) : e.elements = [e] := by
  rw [Path.elements, List.splitOn_eq_singleton h.slash]
  simp [h.ne_nil, h.ne_dot]

theorem elements_text (hes : ∀ e ∈ es, IsName e) : (text es).elements = es := by
  induction es using List.reverseRecOn with
  | nil => simp [text]
  | append_singleton es e ih =>
    obtain ⟨hes, he⟩ := List.forall_mem_append.mp hes
    have htext : text (es ++ [e]) = text es ++ '/' :: e := by simp [text]
    rw [htext, elements_append, ih hes, (he e (List.mem_singleton_self e)).elements]

theorem elements_rooted (hes : ∀ e ∈ es, IsName e) (slashes : ℕ) :
    (rooted (slashes + 1) es).elements = es := by
  cases es with
  | nil =>
    rw [rooted, ← List.append_nil (List.replicate _ _), elements_slashes, elements_nil]
  | cons e es => rw [rooted_cons, elements_slashes, elements_text hes]

theorem foldl_step_names (hes : ∀ e ∈ es, IsName e) (r : Route) :
    es.foldl Route.step r = ⟨r.up, r.down ++ es⟩ := by
  induction es generalizing r with
  | nil => simp
  | cons e es ih =>
    obtain ⟨he, hes⟩ := List.forall_mem_cons.mp hes
    rw [List.foldl_cons, ih hes, Route.step, if_neg he.ne_dots]
    simp

/-- A written route is read as it was. -/
theorem route_rooted (hes : ∀ e ∈ es, IsName e) (slashes : ℕ) :
    (rooted (slashes + 1) es).route = ⟨0, es⟩ := by
  rw [route, elements_rooted hes, foldl_step_names hes]
  rfl

theorem foldl_step_ups (up : ℕ) :
    (List.replicate up ['.', '.']).foldl Route.step .here = ⟨up, []⟩ := by
  induction up with
  | zero => rfl
  | succ up ih => rw [List.replicate_succ', List.foldl_append, ih]; rfl

theorem route_unrooted {r : Route} (h : ∀ e ∈ r.down, IsName e) : (unrooted r).route = r := by
  rw [unrooted]
  split
  · rename_i hr
    rw [hr]
    rfl
  · rename_i hr
    have hne : List.replicate r.up ['.', '.'] ++ r.down ≠ [] := by
      intro hnil
      obtain ⟨hup, hdown⟩ := List.append_eq_nil_iff.mp hnil
      obtain ⟨up, down⟩ := r
      simp_all [Route.here]
    have hmem : ∀ e ∈ List.replicate r.up ['.', '.'] ++ r.down, '/' ∉ e ∧ e ≠ [] ∧ e ≠ ['.'] := by
      intro e he
      rcases List.mem_append.mp he with he | he
      · obtain rfl := (List.mem_replicate.mp he).2
        simp
      · exact ⟨(h e he).slash, (h e he).ne_nil, (h e he).ne_dot⟩
    rw [route, elements, List.splitOn_intercalate _ (fun e he => (hmem e he).1) hne,
      List.filter_eq_self.mpr fun e he => by simpa using (hmem e he).2, List.foldl_append,
      foldl_step_ups, foldl_step_names h]
    simp

theorem isAbs_rooted (slashes : ℕ) : (rooted (slashes + 1) es).isAbs = true := by
  cases es <;> simp [rooted, isAbs, List.replicate_succ]

theorem exists_intercalate_cons (e : Path) (es : List Path) :
    ∃ p, ['/'].intercalate (e :: es) = e ++ p := by
  cases es with
  | nil => exact ⟨[], by simp⟩
  | cons f fs => exact ⟨_, by rw [List.intercalate_cons_cons, List.append_assoc]⟩

/-- The text of a path that is not rooted starts with a name or with dots. -/
theorem unrooted_eq {r : Route} (h : ∀ e ∈ r.down, IsName e) :
    ∃ c p, unrooted r = c :: p ∧ c ≠ '/' ∧ (0 < r.up → ['.', '.'] <+: unrooted r) := by
  obtain ⟨up, down⟩ := r
  rw [unrooted]
  split
  · rename_i hr
    cases hr
    exact ⟨'.', [], rfl, by decide, fun h => absurd h (lt_irrefl 0)⟩
  · cases up with
    | succ up =>
      obtain ⟨p, hp⟩ := exists_intercalate_cons ['.', '.'] (List.replicate up ['.', '.'] ++ down)
      exact ⟨'.', '.' :: p, hp, by decide, fun _ => ⟨p, hp.symm⟩⟩
    | zero =>
      cases down with
      | nil => contradiction
      | cons e es =>
        have he := h e (List.mem_cons_self ..)
        obtain ⟨c, e', rfl⟩ := List.exists_cons_of_ne_nil he.ne_nil
        have hc : c ≠ '/' := fun h => he.slash (h ▸ List.mem_cons_self ..)
        obtain ⟨p, hp⟩ := exists_intercalate_cons (c :: e') es
        exact ⟨c, e' ++ p, hp, hc, fun h => absurd h (lt_irrefl 0)⟩

theorem isAbs_unrooted {r : Route} (h : ∀ e ∈ r.down, IsName e) : (unrooted r).isAbs = false := by
  obtain ⟨c, p, heq, hc, -⟩ := unrooted_eq h
  rw [heq, isAbs, List.head?_cons]
  simpa using hc

/-! ### The way from one path to another -/

theorem parting_spec (es fs : List Path) : ∃ common,
    es = common ++ (parting es fs).1 ∧ fs = common ++ (parting es fs).2 := by
  fun_induction parting es fs with
  | case1 es e fs ih =>
    obtain ⟨common, hes, hfs⟩ := ih
    exact ⟨e :: common, by rw [List.cons_append, ← hes], by rw [List.cons_append, ← hfs]⟩
  | case2 e es f fs h => exact ⟨[], rfl, rfl⟩
  | case3 es fs h => exact ⟨[], rfl, rfl⟩

/-- Nothing is left of the first way if the second goes on from its end. -/
theorem parting_eq_nil_iff (es fs : List Path) : (parting es fs).1 = [] ↔ es <+: fs := by
  fun_induction parting es fs with
  | case1 es e fs ih => rw [ih, List.prefix_cons_inj]
  | case2 e es f fs h => simp [h]
  | case3 es fs h =>
    cases es with
    | nil => simp
    | cons e es =>
      cases fs with
      | nil => simp
      | cons f fs => exact absurd rfl (h e es f fs rfl)

/-! ### Prefixes -/

/-- What is written after a name starts with a slash. -/
theorem text_eq_nil_or (es : List Path) : text es = [] ∨ ∃ p, text es = '/' :: p := by
  cases es with
  | nil => exact .inl rfl
  | cons e es => exact .inr ⟨e ++ text es, rfl⟩

/-- A name ends at the first slash. -/
theorem takeWhile_name {p : Path} (he : '/' ∉ e) (hp : p = [] ∨ ∃ q, p = '/' :: q) :
    (e ++ p).takeWhile (· != '/') = e := by
  have hall : ∀ c ∈ e, (c != '/') = true := fun c hc => by
    rw [bne_iff_ne]
    rintro rfl
    exact he hc
  rw [List.takeWhile_append_of_pos hall]
  rcases hp with rfl | ⟨q, rfl⟩ <;> simp

/-- A prefix of the text that ends where a name ends is a prefix of the names. -/
theorem prefix_of_text (hes : ∀ e ∈ es, '/' ∉ e) (hfs : ∀ f ∈ fs, '/' ∉ f) {rest : Path}
    (hrest : rest = [] ∨ ∃ p, rest = '/' :: p) (h : text fs = text es ++ rest) : es <+: fs := by
  induction es generalizing fs with
  | nil => exact List.nil_prefix
  | cons e es ih =>
    cases fs with
    | nil => simp [text] at h
    | cons f fs =>
      obtain ⟨he, hes'⟩ := List.forall_mem_cons.mp hes
      obtain ⟨hf, hfs'⟩ := List.forall_mem_cons.mp hfs
      have hcons : f ++ text fs = e ++ (text es ++ rest) := by
        simpa [text] using h
      have htail : text es ++ rest = [] ∨ ∃ p, text es ++ rest = '/' :: p := by
        rcases text_eq_nil_or es with hnil | ⟨p, hp⟩
        · rwa [hnil, List.nil_append]
        · exact .inr ⟨p ++ rest, by rw [hp]; rfl⟩
      have heq : f = e := by
        rw [← takeWhile_name hf (text_eq_nil_or fs), hcons, takeWhile_name he htail]
      subst heq
      exact List.cons_prefix_cons.mpr ⟨rfl, ih hes' hfs' (List.append_cancel_left hcons)⟩

/-- Below a directory other than the root, a path goes on with a slash. -/
theorem text_of_prefix (h : es <+: fs) :
    ∃ rest, (rest = [] ∨ ∃ p, rest = '/' :: p) ∧ text fs = text es ++ rest := by
  obtain ⟨gs, rfl⟩ := h
  exact ⟨text gs, text_eq_nil_or gs, text_append⟩

/-- One text goes on from another in the middle of a name. -/
def GoesOn (p q : Path) : Prop := ∃ c rest, c ≠ '/' ∧ q = p ++ c :: rest

theorem GoesOn.isPrefix {p q : Path} (h : GoesOn p q) : p <+: q := by
  obtain ⟨c, rest, -, rfl⟩ := h
  exact List.prefix_append p (c :: rest)

theorem takeWhile_slashes {p : Path} (he : IsName e) (slashes : ℕ) :
    (List.replicate slashes '/' ++ (e ++ p)).takeWhile (· == '/') =
      List.replicate slashes '/' := by
  obtain ⟨c, e', rfl⟩ := List.exists_cons_of_ne_nil he.ne_nil
  have hc : c ≠ '/' := fun h => he.slash (h ▸ List.mem_cons_self ..)
  rw [List.takeWhile_append_of_pos (by simp), List.cons_append,
    List.takeWhile_cons_of_neg (by simpa using hc), List.append_nil]

/-- Rooted paths one of which is a prefix of the other start with the same slashes, unless the
    shorter one is the root. -/
theorem text_of_rooted {j k : ℕ} {rest : Path} (he : IsName e) (hfs : ∀ f ∈ fs, IsName f)
    (h : rooted (j + 1) fs = rooted (k + 1) (e :: es) ++ rest) :
    text fs = text (e :: es) ++ rest := by
  rw [rooted, List.append_assoc, List.append_assoc] at h
  have hk := takeWhile_slashes (p := text es ++ rest) he (k + 1)
  rw [← h] at hk
  cases fs with
  | nil =>
    rw [rooted, List.takeWhile_eq_self_iff.mpr (by simp)] at hk
    rw [rooted, hk] at h
    have hnil := List.self_eq_append_right.mp h
    exact absurd (List.append_eq_nil_iff.mp hnil).1 he.ne_nil
  | cons f fs =>
    have hf := hfs f (List.mem_cons_self ..)
    rw [rooted, List.append_assoc, takeWhile_slashes hf] at hk
    rw [rooted, List.append_assoc, hk] at h
    have htail := List.append_cancel_left h
    change '/' :: (f ++ text fs) = '/' :: (e ++ text es) ++ rest
    rw [htail, List.cons_append, List.append_assoc]

theorem rooted_eq_append (slashes : ℕ) (es : List Path) :
    rooted (slashes + 1) es = List.replicate slashes '/' ++ rooted 1 es := by
  cases es with
  | nil => exact List.replicate_succ'
  | cons e es => rw [rooted_cons, rooted_cons 0]; rfl

theorem root_prefix (slashes : ℕ) : rooted 1 [] <+: rooted (slashes + 1) es := by
  obtain ⟨p, hp⟩ : ∃ p, rooted (slashes + 1) es = '/' :: p := by
    cases es with
    | nil => exact ⟨_, rfl⟩
    | cons e es => exact ⟨_, rfl⟩
  exact ⟨p, hp.symm⟩

/-- Slashes at the front are part of a prefix; only the root may have fewer. -/
theorem slashes_of_prefix {j k : ℕ} (hes : ∀ e ∈ es, IsName e) (hfs : ∀ f ∈ fs, IsName f)
    (h : rooted (k + 1) es <+: rooted (j + 1) fs) : k = j ∨ es = [] ∧ k ≤ j := by
  obtain ⟨rest, hrest⟩ := h
  have hfront : (rooted (j + 1) fs).takeWhile (· == '/') = List.replicate (j + 1) '/' := by
    cases fs with
    | nil => exact List.takeWhile_eq_self_iff.mpr (by simp [rooted])
    | cons f fs =>
      rw [rooted, List.append_assoc, takeWhile_slashes (hfs f (List.mem_cons_self ..))]
  rw [← hrest] at hfront
  cases es with
  | nil =>
    rw [rooted, List.takeWhile_append_of_pos (by simp)] at hfront
    have hlength := congrArg List.length hfront
    rw [List.length_append, List.length_replicate, List.length_replicate] at hlength
    exact .inr ⟨rfl, by omega⟩
  | cons e es =>
    rw [rooted, List.append_assoc, List.append_assoc,
      takeWhile_slashes (hes e (List.mem_cons_self ..))] at hfront
    have hlength := congrArg List.length hfront
    rw [List.length_replicate, List.length_replicate] at hlength
    exact .inl (by omega)

/-- A rooted path whose text starts with that of another one, not the root, lies below it
    if and only if it does not go on in the middle of a name. -/
theorem prefix_iff_not_goesOn {j k : ℕ} (hes : ∀ e ∈ es, IsName e) (hfs : ∀ f ∈ fs, IsName f)
    (hne : es ≠ []) (h : rooted (k + 1) es <+: rooted (j + 1) fs) :
    es <+: fs ↔ ¬ GoesOn (rooted (k + 1) es) (rooted (j + 1) fs) := by
  obtain ⟨rest, hrest⟩ := h
  obtain ⟨e, es, rfl⟩ := List.exists_cons_of_ne_nil hne
  have htext := text_of_rooted (hes e (List.mem_cons_self ..)) hfs hrest.symm
  constructor
  · rintro hprefix ⟨c, rest', hc, hgoes⟩
    obtain ⟨rest'', hends, htext'⟩ := text_of_prefix hprefix
    obtain rfl : rest = rest'' := List.append_cancel_left (htext.symm.trans htext')
    obtain rfl : rest = c :: rest' := List.append_cancel_left (hrest.trans hgoes)
    rcases hends with hnil | ⟨p, hp⟩
    · cases hnil
    · exact hc (List.cons.inj hp).1
  · intro hgoes
    refine prefix_of_text (fun e he => (hes e he).slash) (fun f hf => (hfs f hf).slash) ?_ htext
    cases rest with
    | nil => exact .inl rfl
    | cons c rest =>
      refine .inr ⟨rest, ?_⟩
      by_contra hc
      exact hgoes ⟨c, rest, fun h => hc (by rw [h]), hrest.symm⟩

end Path

end Determined.Schemes
