import Mathlib

/-! Generators: values that are computed one by one, as they are asked for.

    A generator is a state and what it does next: hand over a value, work on, or finish. `Yields`
    collects what it hands over on the way from one state to another, `Nth` reads off one value,
    and `Exhausts` says that nothing follows. A generator that works on for ever hands over nothing
    more and is never exhausted. Generators are deterministic (`Yields.prefix_or`), so each of the
    combinators below is settled by one lemma about `Yields`. -/

namespace Determined.Schemes

/-- What a generator does next. -/
inductive Pull (σ β : Type) where
  | yield (b : β) (s : σ)
  /-- It works on without handing over a value. -/
  | skip (s : σ)
  | done

/-- A generator of values in `β`. -/
structure Generator (β : Type) where
  State : Type
  start : State
  next : State → Pull State β

namespace Generator

variable {β : Type} {g : Generator β} {s t u : g.State} {bs cs : List β} {b : β} {k m n r : ℕ}

/-- From `s` to `t` the generator hands over the values `bs`. -/
inductive Yields (g : Generator β) : g.State → List β → g.State → Prop
  | nil (s : g.State) : Yields g s [] s
  | skip {s t u : g.State} {bs : List β} :
      g.next s = .skip t → Yields g t bs u → Yields g s bs u
  | yield {s t u : g.State} {b : β} {bs : List β} :
      g.next s = .yield b t → Yields g t bs u → Yields g s (b :: bs) u

/-- The values that `s` still hands over are `bs`, and then the generator finishes. -/
def Exhausts (g : Generator β) (s : g.State) (bs : List β) : Prop :=
  ∃ t, g.Yields s bs t ∧ g.next t = .done

/-- The `k`-th value that `s` hands over is `b`. -/
def Nth (g : Generator β) (s : g.State) (k : ℕ) (b : β) : Prop :=
  ∃ bs t, g.Yields s bs t ∧ bs[k]? = some b

theorem Yields.append (h : g.Yields s bs t) (h' : g.Yields t cs u) :
    g.Yields s (bs ++ cs) u := by
  induction h with
  | nil _ => exact h'
  | skip hn _ ih => exact .skip hn (ih h')
  | yield hn _ ih => exact .yield hn (ih h')

/-- Of two ways to go on from one state, one continues the other. -/
theorem Yields.prefix_or (h : g.Yields s bs t) (h' : g.Yields s cs u) :
    (∃ ds, cs = bs ++ ds ∧ g.Yields t ds u) ∨ ∃ ds, bs = cs ++ ds ∧ g.Yields u ds t := by
  induction h generalizing cs u with
  | nil _ => exact .inl ⟨cs, rfl, h'⟩
  | skip hn hrest ih =>
    cases h' with
    | nil _ => exact .inr ⟨_, rfl, .skip hn hrest⟩
    | skip hn' hrest' =>
      rw [hn] at hn'
      cases hn'
      exact ih hrest'
    | yield hn' _ =>
      rw [hn] at hn'
      cases hn'
  | yield hn hrest ih =>
    cases h' with
    | nil _ => exact .inr ⟨_, rfl, .yield hn hrest⟩
    | skip hn' _ =>
      rw [hn] at hn'
      cases hn'
    | yield hn' hrest' =>
      rw [hn] at hn'
      cases hn'
      rcases ih hrest' with ⟨ds, rfl, hds⟩ | ⟨ds, rfl, hds⟩
      · exact .inl ⟨ds, rfl, hds⟩
      · exact .inr ⟨ds, rfl, hds⟩

theorem Yields.nil_of_done (h : g.Yields s bs t) (hd : g.next s = .done) : bs = [] := by
  cases h with
  | nil _ => rfl
  | skip hn _ => rw [hd] at hn; cases hn
  | yield hn _ => rw [hd] at hn; cases hn

/-! ### The values by their positions -/

/-- What was handed over so far are the first values. -/
theorem Yields.nth_iff (h : g.Yields s bs t) (hk : k < bs.length) :
    g.Nth s k b ↔ bs[k]? = some b := by
  constructor
  · rintro ⟨cs, u, hcs, hb⟩
    rcases h.prefix_or hcs with ⟨ds, rfl, -⟩ | ⟨ds, rfl, -⟩
    · rwa [List.getElem?_append_left hk] at hb
    · obtain ⟨hlt, -⟩ := List.getElem?_eq_some_iff.mp hb
      rwa [List.getElem?_append_left hlt]
  · exact fun hb => ⟨bs, t, h, hb⟩

/-- What comes after them comes from where they lead to. -/
theorem Yields.nth_add_iff (h : g.Yields s bs t) : g.Nth s (bs.length + k) b ↔ g.Nth t k b := by
  constructor
  · rintro ⟨cs, u, hcs, hb⟩
    rcases h.prefix_or hcs with ⟨ds, rfl, hds⟩ | ⟨ds, rfl, -⟩
    · rw [List.getElem?_append_right (by omega), Nat.add_sub_cancel_left] at hb
      exact ⟨ds, u, hds, hb⟩
    · obtain ⟨hlt, -⟩ := List.getElem?_eq_some_iff.mp hb
      simp only [List.length_append] at hlt
      omega
  · rintro ⟨cs, u, hcs, hb⟩
    refine ⟨bs ++ cs, u, h.append hcs, ?_⟩
    rwa [List.getElem?_append_right (by omega), Nat.add_sub_cancel_left]

theorem Exhausts.nth_iff (h : g.Exhausts s bs) : g.Nth s k b ↔ bs[k]? = some b := by
  obtain ⟨t, ht, hd⟩ := h
  constructor
  · rintro ⟨cs, u, hcs, hb⟩
    rcases ht.prefix_or hcs with ⟨ds, rfl, hds⟩ | ⟨ds, rfl, -⟩
    · rw [hds.nil_of_done hd, List.append_nil] at hb
      exact hb
    · obtain ⟨hlt, -⟩ := List.getElem?_eq_some_iff.mp hb
      rwa [List.getElem?_append_left hlt]
  · exact fun hb => ⟨bs, t, ht, hb⟩

/-- A generator is exhausted by one list of values. -/
theorem Exhausts.unique (h : g.Exhausts s bs) (h' : g.Exhausts s cs) : bs = cs := by
  refine List.ext_getElem? fun k => Option.ext fun b => ?_
  rw [← h.nth_iff, h'.nth_iff]

/-! ### The values of a list -/

/-- Hand over the values of a list. -/
def ofList (l : List β) : Generator β where
  State := List β
  start := l
  next
    | [] => .done
    | b :: bs => .yield b bs

theorem ofList_exhausts (l l' : List β) : (ofList l).Exhausts l' l' := by
  refine ⟨[], ?_, rfl⟩
  induction l' with
  | nil => exact .nil (g := ofList l) []
  | cons b bs ih => exact .yield rfl ih

/-! ### Leaving the first values out -/

/-- Leave out the first `m` values. -/
def drop (m : ℕ) (g : Generator β) : Generator β where
  State := ℕ × g.State
  start := (m, g.start)
  next := fun (m, s) => match g.next s with
    | .yield b t => if m = 0 then .yield b (0, t) else .skip (m - 1, t)
    | .skip t => .skip (m, t)
    | .done => .done

theorem drop_next (m₀ : ℕ) : (drop m₀ g).next (m, s) = match g.next s with
    | .yield b t => if m = 0 then .yield b (0, t) else .skip (m - 1, t)
    | .skip t => .skip (m, t)
    | .done => .done := rfl

theorem Yields.drop (m₀ : ℕ) (h : g.Yields s bs t) :
    (drop m₀ g).Yields (m, s) (bs.drop m) (m - bs.length, t) := by
  induction h generalizing m with
  | nil s => simpa using Yields.nil (g := Generator.drop m₀ g) (m, s)
  | skip hn _ ih => exact .skip (t := (m, _)) (by rw [drop_next, hn]) ih
  | @yield s t u b bs hn _ ih =>
    rcases m with _ | m
    · refine .yield (t := (0, t)) (by rw [drop_next, hn]; rfl) ?_
      simpa using ih (m := 0)
    · refine .skip (t := (m, t)) (by rw [drop_next, hn]; rfl) ?_
      simpa using ih

theorem Yields.of_drop {m₀ : ℕ} {x y : (Generator.drop m₀ g).State}
    (h : (Generator.drop m₀ g).Yields x bs y) :
    ∃ cs, g.Yields x.2 cs y.2 ∧ bs = cs.drop x.1 := by
  induction h with
  | nil x => exact ⟨[], .nil _, by simp⟩
  | @skip x y z bs hn _ ih =>
    obtain ⟨m, s⟩ := x
    obtain ⟨cs, hcs, rfl⟩ := ih
    rw [drop_next] at hn
    cases hs : g.next s with
    | done => rw [hs] at hn; cases hn
    | skip t =>
      rw [hs] at hn
      cases hn
      exact ⟨cs, .skip hs hcs, rfl⟩
    | yield b t =>
      rw [hs] at hn
      rcases m with _ | m
      · cases hn
      · cases hn
        exact ⟨b :: cs, .yield hs hcs, by simp⟩
  | @yield x y z b bs hn _ ih =>
    obtain ⟨m, s⟩ := x
    obtain ⟨cs, hcs, rfl⟩ := ih
    rw [drop_next] at hn
    cases hs : g.next s with
    | done => rw [hs] at hn; cases hn
    | skip t => rw [hs] at hn; cases hn
    | yield b' t =>
      rw [hs] at hn
      rcases m with _ | m
      · cases hn
        exact ⟨b :: cs, .yield hs hcs, by simp⟩
      · cases hn

theorem drop_nth_iff (m : ℕ) (g : Generator β) :
    (drop m g).Nth (drop m g).start k b ↔ g.Nth g.start (m + k) b := by
  constructor
  · rintro ⟨bs, y, hbs, hb⟩
    obtain ⟨cs, hcs, rfl⟩ := hbs.of_drop
    exact ⟨cs, y.2, hcs, by rwa [List.getElem?_drop] at hb⟩
  · rintro ⟨bs, t, hbs, hb⟩
    exact ⟨bs.drop m, _, hbs.drop m, by rwa [List.getElem?_drop]⟩

theorem Exhausts.drop (m : ℕ) (h : g.Exhausts g.start bs) :
    (drop m g).Exhausts (Generator.drop m g).start (bs.drop m) := by
  obtain ⟨t, ht, hd⟩ := h
  exact ⟨_, ht.drop m, by rw [drop_next, hd]⟩

/-! ### Every n-th value -/

/-- Every `n`-th value, from the `r`-th on. -/
def stride (n r : ℕ) (g : Generator β) : Generator β where
  State := ℕ × g.State
  start := (0, g.start)
  next := fun (i, s) => match g.next s with
    | .yield b t => if i % n = r then .yield b (i + 1, t) else .skip (i + 1, t)
    | .skip t => .skip (i, t)
    | .done => .done

/-- Every `n`-th value of a list that starts at position `i`. -/
def everyNth (n r : ℕ) : ℕ → List β → List β
  | _, [] => []
  | i, b :: bs => if i % n = r then b :: everyNth n r (i + 1) bs else everyNth n r (i + 1) bs

theorem stride_next {i : ℕ} : (stride n r g).next (i, s) = match g.next s with
    | .yield b t => if i % n = r then .yield b (i + 1, t) else .skip (i + 1, t)
    | .skip t => .skip (i, t)
    | .done => .done := rfl

theorem Yields.stride {i : ℕ} (h : g.Yields s bs t) :
    (stride n r g).Yields (i, s) (everyNth n r i bs) (i + bs.length, t) := by
  induction h generalizing i with
  | nil s => exact .nil (g := Generator.stride n r g) (i, s)
  | skip hn _ ih => exact .skip (t := (i, _)) (by rw [stride_next, hn]) ih
  | @yield s t u b bs hn _ ih =>
    have ih := ih (i := i + 1)
    rw [Nat.add_right_comm] at ih
    rw [everyNth]
    split_ifs with hi
    · exact .yield (t := (i + 1, t)) (by rw [stride_next, hn]; simp [hi]) ih
    · exact .skip (t := (i + 1, t)) (by rw [stride_next, hn]; simp [hi]) ih

theorem Yields.of_stride {x y : (Generator.stride n r g).State}
    (h : (Generator.stride n r g).Yields x bs y) :
    ∃ cs, g.Yields x.2 cs y.2 ∧ bs = everyNth n r x.1 cs := by
  induction h with
  | nil x => exact ⟨[], .nil _, rfl⟩
  | @skip x y z bs hn _ ih =>
    obtain ⟨i, s⟩ := x
    obtain ⟨cs, hcs, rfl⟩ := ih
    rw [stride_next] at hn
    cases hs : g.next s with
    | done => rw [hs] at hn; cases hn
    | skip t =>
      rw [hs] at hn
      cases hn
      exact ⟨cs, .skip hs hcs, rfl⟩
    | yield b t =>
      rw [hs] at hn
      dsimp only at hn
      split_ifs at hn with hi
      cases hn
      exact ⟨b :: cs, .yield hs hcs, by simp [everyNth, hi]⟩
  | @yield x y z b bs hn _ ih =>
    obtain ⟨i, s⟩ := x
    obtain ⟨cs, hcs, rfl⟩ := ih
    rw [stride_next] at hn
    cases hs : g.next s with
    | done => rw [hs] at hn; cases hn
    | skip t => rw [hs] at hn; cases hn
    | yield b' t =>
      rw [hs] at hn
      dsimp only at hn
      split_ifs at hn with hi
      cases hn
      exact ⟨b :: cs, .yield hs hcs, by simp [everyNth, hi]⟩

/-- The values kept of a list whose first kept position is `d` further on. -/
theorem everyNth_getElem?_of {i d : ℕ} (hi : (i + d) % n = r) (hd : d < n) (l : List β) (k : ℕ) :
    (everyNth n r i l)[k]? = l[d + n * k]? := by
  induction l generalizing i d k with
  | nil => simp [everyNth]
  | cons b l ih =>
    rcases d with _ | d
    · rw [everyNth, if_pos (by simpa using hi)]
      rcases k with _ | k
      · simp
      · obtain ⟨n', rfl⟩ : ∃ n', n = n' + 1 := ⟨n - 1, by omega⟩
        have hn : (i + 1 + n') % (n' + 1) = r := by
          rw [Nat.add_right_comm, Nat.add_assoc, Nat.add_mod_right]
          simpa using hi
        rw [List.getElem?_cons_succ, ih hn (by omega), Nat.mul_succ,
          show 0 + ((n' + 1) * k + (n' + 1)) = n' + (n' + 1) * k + 1 by omega,
          List.getElem?_cons_succ]
    · have hne : i % n ≠ r := by
        intro h
        have hmod : (i + 0) % n = (i + (d + 1)) % n := by rw [Nat.add_zero, h, hi]
        have := Nat.ModEq.add_left_cancel' i hmod
        rw [Nat.ModEq, Nat.zero_mod, Nat.mod_eq_of_lt hd] at this
        omega
      rw [everyNth, if_neg hne, ih (d := d) (by rw [← hi]; congr 1; omega) (by omega),
        Nat.add_right_comm, List.getElem?_cons_succ]

theorem everyNth_getElem? (hr : r < n) (l : List β) (k : ℕ) :
    (everyNth n r 0 l)[k]? = l[r + n * k]? :=
  everyNth_getElem?_of (by rw [Nat.zero_add, Nat.mod_eq_of_lt hr]) hr l k

theorem stride_nth_iff (hr : r < n) (g : Generator β) :
    (stride n r g).Nth (stride n r g).start k b ↔ g.Nth g.start (r + n * k) b := by
  constructor
  · rintro ⟨bs, y, hbs, hb⟩
    obtain ⟨cs, hcs, rfl⟩ := hbs.of_stride
    exact ⟨cs, y.2, hcs, by rwa [← everyNth_getElem? hr]⟩
  · rintro ⟨bs, t, hbs, hb⟩
    exact ⟨everyNth n r 0 bs, _, hbs.stride, by rwa [everyNth_getElem? hr]⟩

theorem Exhausts.stride (h : g.Exhausts g.start bs) :
    (stride n r g).Exhausts (Generator.stride n r g).start (everyNth n r 0 bs) := by
  obtain ⟨t, ht, hd⟩ := h
  exact ⟨_, ht.stride, by rw [stride_next, hd]⟩

/-- The number of positions below `l` that are `r` and a multiple of `n`. -/
theorem lt_shard_iff {l : ℕ} (hr : r < n) :
    k < l / n + (if l % n > r then 1 else 0) ↔ r + n * k < l := by
  have hl := Nat.div_add_mod l n
  have hlt := Nat.mod_lt l (by omega : n > 0)
  constructor
  · intro hk
    by_cases hkl : k < l / n
    · have : n * (k + 1) ≤ n * (l / n) := Nat.mul_le_mul_left n hkl
      rw [Nat.mul_succ] at this
      omega
    · split_ifs at hk with hgt
      · obtain rfl : k = l / n := by omega
        omega
      · omega
  · intro hk
    have hle : k ≤ l / n := by
      rw [Nat.le_div_iff_mul_le (by omega), Nat.mul_comm]
      omega
    rcases Nat.lt_or_eq_of_le hle with hlt' | rfl
    · omega
    · rw [if_pos (by omega)]
      omega

theorem length_everyNth (hr : r < n) (l : List β) :
    (everyNth n r 0 l).length = l.length / n + (if l.length % n > r then 1 else 0) := by
  have hiff : ∀ k, k < (everyNth n r 0 l).length ↔
      k < l.length / n + (if l.length % n > r then 1 else 0) := by
    intro k
    rw [lt_shard_iff hr, ← not_le, ← not_le, ← List.getElem?_eq_none_iff, everyNth_getElem? hr,
      List.getElem?_eq_none_iff]
  exact le_antisymm (Nat.le_of_not_lt fun h => by simpa using (hiff _).mp h)
    (Nat.le_of_not_lt fun h => by simpa using (hiff _).mpr h)

theorem flatMap_range_single (b : β) {j : ℕ} (hj : j < n) :
    ((List.range n).flatMap fun r => if j = r then [b] else []) = [b] := by
  induction n with
  | zero => omega
  | succ n ih =>
    rw [List.range_succ, List.flatMap_append, List.flatMap_singleton]
    rcases Nat.lt_succ_iff_lt_or_eq.mp hj with hj | rfl
    · rw [ih hj, if_neg (by omega), List.append_nil]
    · have : ((List.range j).flatMap fun r => if j = r then [b] else []) = [] := by
        rw [List.flatMap_eq_nil_iff]
        intro r hr
        rw [if_neg (by have := List.mem_range.mp hr; omega)]
      rw [this, if_pos rfl, List.nil_append]

/-- The shards of a list are the list, in another order. -/
theorem flatMap_everyNth_perm (hn : 0 < n) (i : ℕ) (l : List β) :
    ((List.range n).flatMap fun r => everyNth n r i l).Perm l := by
  induction l generalizing i with
  | nil => simp [everyNth]
  | cons b l ih =>
    have hcons : ∀ r, everyNth n r i (b :: l) =
        (if i % n = r then [b] else []) ++ everyNth n r (i + 1) l := by
      intro r
      rw [everyNth]
      split_ifs <;> rfl
    have hb := flatMap_range_single b (Nat.mod_lt i hn)
    calc ((List.range n).flatMap fun r => everyNth n r i (b :: l))
        = (List.range n).flatMap fun r =>
            (if i % n = r then [b] else []) ++ everyNth n r (i + 1) l := by simp only [hcons]
      List.Perm _ ((List.range n).flatMap (fun r => if i % n = r then [b] else []) ++
          (List.range n).flatMap fun r => everyNth n r (i + 1) l) :=
        (List.flatMap_append_perm _ _ _).symm
      List.Perm _ (b :: l) := by rw [hb]; exact (ih (i + 1)).cons b

/-! ### One generator after another -/

/-- Run the generators of a sequence one after another. -/
def cycle (gs : ℕ → Generator β) : Generator β where
  State := Σ j, (gs j).State
  start := ⟨0, (gs 0).start⟩
  next := fun ⟨j, s⟩ => match (gs j).next s with
    | .yield b t => .yield b ⟨j, t⟩
    | .skip t => .skip ⟨j, t⟩
    | .done => .skip ⟨j + 1, (gs (j + 1)).start⟩

section cycle

variable {gs : ℕ → Generator β} {ls : ℕ → List β} {len : ℕ}

theorem cycle_next (j : ℕ) (s : (gs j).State) : (cycle gs).next ⟨j, s⟩ = match (gs j).next s with
    | .yield b t => .yield b ⟨j, t⟩
    | .skip t => .skip ⟨j, t⟩
    | .done => .skip ⟨j + 1, (gs (j + 1)).start⟩ := rfl

theorem Yields.cycle {j : ℕ} {s t : (gs j).State} (h : (gs j).Yields s bs t) :
    (cycle gs).Yields ⟨j, s⟩ bs ⟨j, t⟩ := by
  induction h with
  | nil s => exact .nil (g := Generator.cycle gs) ⟨j, s⟩
  | skip hn _ ih =>
    refine .skip ?_ ih
    rw [cycle_next, hn]
  | yield hn _ ih =>
    refine .yield ?_ ih
    rw [cycle_next, hn]

/-- One round of the cycle. -/
theorem Exhausts.cycle {j : ℕ} {s : (gs j).State} (h : (gs j).Exhausts s bs) :
    (cycle gs).Yields ⟨j, s⟩ bs ⟨j + 1, (gs (j + 1)).start⟩ := by
  obtain ⟨t, ht, hd⟩ := h
  have hnext : (Generator.cycle gs).Yields ⟨j, t⟩ [] ⟨j + 1, (gs (j + 1)).start⟩ := by
    refine .skip ?_ (.nil (g := Generator.cycle gs) _)
    rw [cycle_next, hd]
  simpa using ht.cycle.append hnext

theorem cycle_rounds (h : ∀ j, (gs j).Exhausts (gs j).start (ls j)) (j : ℕ) :
    (cycle gs).Yields (cycle gs).start ((List.range j).flatMap ls) ⟨j, (gs j).start⟩ := by
  induction j with
  | zero => exact .nil (g := Generator.cycle gs) _
  | succ j ih =>
    rw [List.range_succ, List.flatMap_append, List.flatMap_singleton]
    exact ih.append (h j).cycle

theorem length_rounds (hlen : ∀ j, (ls j).length = len) (j : ℕ) :
    ((List.range j).flatMap ls).length = len * j := by
  simp [List.length_flatMap, hlen, Nat.mul_comm]

/-- What the cycle hands over from within a round is the beginning of the rest of this round and the
    rounds after it. -/
theorem cycle_yields_prefix (h : ∀ j, (gs j).Exhausts (gs j).start (ls j)) {x y : (cycle gs).State}
    {l : List β} (hx : (gs x.1).Exhausts x.2 l) (hy : (cycle gs).Yields x bs y) :
    ∃ n, bs <+: l ++ (List.range' (x.1 + 1) n).flatMap ls := by
  induction hy generalizing l with
  | nil x => exact ⟨0, List.nil_prefix⟩
  | @skip x y z bs hn _ ih =>
    obtain ⟨j, s⟩ := x
    obtain ⟨t, ht, hd⟩ := hx
    rw [cycle_next] at hn
    cases hs : (gs j).next s with
    | yield b t' => rw [hs] at hn; cases hn
    | done =>
      rw [hs] at hn
      cases hn
      obtain rfl := ht.nil_of_done hs
      obtain ⟨n, hn⟩ := ih (h (j + 1))
      exact ⟨n + 1, by rwa [List.range'_succ, List.flatMap_cons]⟩
    | skip t' =>
      rw [hs] at hn
      cases hn
      cases ht with
      | nil _ => rw [hd] at hs; cases hs
      | skip hn' hrest =>
        rw [hs] at hn'
        cases hn'
        exact ih ⟨t, hrest, hd⟩
      | yield hn' _ => rw [hs] at hn'; cases hn'
  | @yield x y z b bs hn _ ih =>
    obtain ⟨j, s⟩ := x
    obtain ⟨t, ht, hd⟩ := hx
    rw [cycle_next] at hn
    cases hs : (gs j).next s with
    | done => rw [hs] at hn; cases hn
    | skip t' => rw [hs] at hn; cases hn
    | yield b' t' =>
      rw [hs] at hn
      cases hn
      cases ht with
      | nil _ => rw [hd] at hs; cases hs
      | skip hn' _ => rw [hs] at hn'; cases hn'
      | yield hn' hrest =>
        rw [hs] at hn'
        cases hn'
        obtain ⟨n, hn⟩ := ih ⟨t, hrest, hd⟩
        exact ⟨n, by rw [List.cons_append]; exact List.cons_prefix_cons.mpr ⟨rfl, hn⟩⟩

/-- The values of a cycle are those of its rounds. -/
theorem cycle_nth_iff_rounds (h : ∀ j, (gs j).Exhausts (gs j).start (ls j)) :
    (cycle gs).Nth (cycle gs).start k b ↔ ∃ n, ((List.range n).flatMap ls)[k]? = some b := by
  constructor
  · rintro ⟨bs, y, hbs, hb⟩
    obtain ⟨n, hn⟩ := cycle_yields_prefix h (h 0) hbs
    refine ⟨n + 1, ?_⟩
    rw [List.range_eq_range', List.range'_succ, List.flatMap_cons]
    obtain ⟨rest, hrest⟩ := hn
    obtain ⟨hk, -⟩ := List.getElem?_eq_some_iff.mp hb
    exact hrest ▸ (List.getElem?_append_left hk).trans hb
  · rintro ⟨n, hn⟩
    exact ⟨_, _, cycle_rounds h n, hn⟩

/-- Where every round has `len` values, the value at position `k` is the one at `k % len` of round
    `k / len`. -/
theorem cycle_nth_iff (h : ∀ j, (gs j).Exhausts (gs j).start (ls j))
    (hlen : ∀ j, (ls j).length = len) :
    (cycle gs).Nth (cycle gs).start k b ↔ (ls (k / len))[k % len]? = some b := by
  rcases Nat.eq_zero_or_pos len with rfl | hpos
  · have hnil : ls = fun _ => [] := funext fun j => List.length_eq_zero_iff.mp (hlen j)
    rw [cycle_nth_iff_rounds h, hnil]
    simp
  · have hround := (h (k / len)).cycle
    have hk : k % len < (ls (k / len)).length := by
      rw [hlen]
      exact Nat.mod_lt k hpos
    rw [← hround.nth_iff hk, ← (cycle_rounds h (k / len)).nth_add_iff, length_rounds hlen,
      Nat.div_add_mod]

end cycle

end Generator
end Determined.Schemes
