import Determined.Searcher.Adaptive
import Determined.Searcher.AsyncHalvingRungs
import Determined.Searcher.SyncHalvingCompletion

/-! The trial budget of the adaptive searches.

    The brackets of a search share its trials. Rounding down leaves some over, which the first bracket
    gets; but each bracket gets at least one trial, and when that is more than its share the search
    may come to have more trials than configured. What the brackets got is what the search requests,
    with one more for each trial that turns out to have invalid hyperparameters. -/

namespace Determined.Searcher
open Determined.Model

variable {ι σ : Type}

/-! ### Dividing up the trials -/

section Division

variable {divisor : ℚ} {brackets : List ℤ} {trials : ℤ}

theorem length_rungsBetween (first last : ℤ) :
    ((rungsBetween first last).length : ℤ) = max (last + 1 - first) 0 := by
  rw [rungsBetween, List.length_map, List.length_range]
  omega

/-- Every valid mode has brackets. -/
theorem parseAdaptiveMode_spec {mode : AdaptiveMode}
    (h : mode ∈ [aggressiveMode, standardMode, conservativeMode]) :
    ∃ modeFunc, parseAdaptiveMode mode = .ok modeFunc ∧
      ∀ maxRungs, 1 ≤ maxRungs → modeFunc maxRungs ≠ [] ∧ ∀ n ∈ modeFunc maxRungs, 1 ≤ n := by
  have hbetween : ∀ first last : ℤ, 1 ≤ first → first ≤ last → rungsBetween first last ≠ [] ∧
      ∀ n ∈ rungsBetween first last, 1 ≤ n := by
    intro first last hfirst hle
    refine ⟨fun hnil => ?_, fun n hn => ?_⟩
    · have := length_rungsBetween first last
      rw [hnil, List.length_nil] at this
      omega
    · obtain ⟨i, -, rfl⟩ := List.mem_map.mp hn
      omega
  simp only [List.mem_cons, List.not_mem_nil, or_false] at h
  rcases h with rfl | rfl | rfl
  · exact ⟨_, rfl, fun maxRungs hm => ⟨by simp, by simpa using hm⟩⟩
  · refine ⟨_, rfl, fun maxRungs hm => hbetween _ _ ?_ ?_⟩ <;>
      rw [Int.tdiv_eq_ediv_of_nonneg (by omega)] <;> omega
  · exact ⟨_, rfl, fun maxRungs hm => hbetween _ _ le_rfl hm⟩

theorem sortBrackets_perm (brackets : List ℤ) : (sortBrackets brackets).Perm brackets :=
  List.perm_insertionSort _ _

theorem floorLog_nonneg (divisor : ℚ) (n : ℤ) : 0 ≤ floorLog divisor n := Int.natCast_nonneg _

/-- A valid configuration has brackets. -/
theorem ashaBrackets_ne_nil {config : AdaptiveASHAConfig} (h : config.validate = [])
    (hb : ashaBrackets config = .ok brackets) : brackets ≠ [] := by
  obtain ⟨-, -, -, hmode, hrungs, -⟩ := AdaptiveASHAConfig.validate_iff.mp h
  obtain ⟨modeFunc, hparse, hmodes⟩ := parseAdaptiveMode_spec hmode
  obtain ⟨modeFunc', hparse', hrest⟩ := bind_eq_ok.mp hb
  cases hparse.symm.trans hparse'
  have hne : ∀ l : List ℤ, l ≠ [] → sortBrackets l ≠ [] := fun l hl hnil =>
    hl ((hnil ▸ sortBrackets_perm l).nil_eq.symm)
  split at hrest
  · cases hrest
    refine hne _ (hmodes _ ?_).1
    have := floorLog_nonneg config.divisor config.maxLength.units
    have := floorLog_nonneg config.divisor config.maxTrials
    omega
  · rename_i hgiven
    cases hrest
    exact hne _ hgiven

theorem mem_allocated {n : ℤ} (h : n ∈ allocated trials divisor brackets) : 1 ≤ n := by
  obtain ⟨numRungs, -, rfl⟩ := List.mem_map.mp h
  exact le_max_right _ _

theorem length_allocated (trials : ℤ) (divisor : ℚ) (brackets : List ℤ) :
    (allocated trials divisor brackets).length = brackets.length :=
  List.length_map _

/-- What the brackets get: at least one trial each, and at least the trials configured. -/
theorem getBracketMaxTrials_spec {numbers : List ℤ}
    (h : getBracketMaxTrials trials divisor brackets = .ok numbers) :
    numbers.length = brackets.length ∧ (∀ n ∈ numbers, 1 ≤ n) ∧
      numbers.sum = max trials (allocated trials divisor brackets).sum := by
  unfold getBracketMaxTrials at h
  split at h
  · cases h
  · rename_i first rest halloc
    cases h
    have hone : ∀ n ∈ first :: rest, 1 ≤ n := fun n hn => mem_allocated (halloc ▸ hn)
    have hlen := length_allocated trials divisor brackets
    rw [halloc] at hlen
    refine ⟨hlen, ?_, ?_⟩
    · rintro n (_ | ⟨_, hn⟩)
      · have := hone first (List.mem_cons_self ..)
        omega
      · exact hone n (List.mem_cons_of_mem _ hn)
    · rw [halloc, List.sum_cons, List.sum_cons]
      omega

/-- The shares add up to the trials configured, unless they are nothing. -/
theorem sum_bracketShare (trials : ℤ) (hd : 0 < divisor) (hne : brackets ≠ [])
    (hpos : ∀ n ∈ brackets, 0 ≤ n) :
    (∀ n ∈ brackets, bracketShare trials divisor brackets n = 0) ∨
      (brackets.map (bracketShare trials divisor brackets)).sum = trials := by
  by_cases hzero : 0 ∈ brackets
  · exact .inl fun n _ => if_pos hzero
  · right
    have hweight : ∀ n ∈ brackets, 0 < bracketWeight divisor n := by
      intro n hn
      have hn0 : n ≠ 0 := fun h => hzero (h ▸ hn)
      have : (0 : ℚ) < n := by
        exact_mod_cast lt_of_le_of_ne (hpos n hn) hn0.symm
      exact div_pos (zpow_pos hd _) this
    have htotal : 0 < (brackets.map (bracketWeight divisor)).sum := by
      refine List.sum_pos _ (fun x hx => ?_) (by simpa using hne)
      obtain ⟨n, hn, rfl⟩ := List.mem_map.mp hx
      exact hweight n hn
    have hshare : bracketShare trials divisor brackets = fun n =>
        bracketWeight divisor n * (trials / (brackets.map (bracketWeight divisor)).sum) := by
      funext n
      rw [bracketShare, if_neg hzero, div_mul_eq_mul_div, mul_div_assoc]
    rw [hshare, List.sum_map_mul_right, mul_div_cancel₀ _ htotal.ne']

theorem bracketShare_nonneg (hd : 0 < divisor) (ht : 0 < trials) (hpos : ∀ n ∈ brackets, 0 ≤ n)
    {n : ℤ} (hn : n ∈ brackets) : 0 ≤ bracketShare trials divisor brackets n := by
  have hweight : ∀ n ∈ brackets, 0 ≤ bracketWeight divisor n := fun n hn =>
    div_nonneg (zpow_pos hd _).le (by exact_mod_cast hpos n hn)
  unfold bracketShare
  split
  · exact le_rfl
  · refine mul_nonneg (div_nonneg (hweight n hn) (List.sum_nonneg fun x hx => ?_))
      (by exact_mod_cast ht.le)
    obtain ⟨n', hn', rfl⟩ := List.mem_map.mp hx
    exact hweight n' hn'

/-- Rounding shares down, but not to less than one, adds less than one for each share below one. -/
theorem sum_max_toInt_le (shares : List ℚ) (h : ∀ q ∈ shares, 0 ≤ q) :
    ((shares.map fun q => max (toInt q) 1).sum : ℚ) ≤
      shares.sum + shares.length - if ∃ q ∈ shares, 1 ≤ q then 1 else 0 := by
  induction shares with
  | nil => simp
  | cons q shares ih =>
    have hq : (0 : ℚ) ≤ q := h q (List.mem_cons_self ..)
    have hrest := ih fun x hx => h x (List.mem_cons_of_mem _ hx)
    have hfloor : ((⌊q⌋ : ℤ) : ℚ) ≤ q := Int.floor_le q
    simp only [List.map_cons, List.sum_cons, List.length_cons, toInt_of_nonneg hq,
      List.exists_mem_cons_iff, Int.cast_add, Int.cast_max, Int.cast_one, Nat.cast_add, Nat.cast_one]
    by_cases hone : 1 ≤ q
    · have h1 : (1 : ℚ) ≤ ⌊q⌋ := by exact_mod_cast Int.le_floor.mpr (by exact_mod_cast hone)
      rw [max_eq_left h1, if_pos (.inl hone)]
      split at hrest <;> linarith
    · have h1 : ((⌊q⌋ : ℤ) : ℚ) ≤ 1 := by linarith
      rw [max_eq_right h1]
      simp only [hone, false_or]
      split at hrest <;> rename_i hex
      · rw [if_pos hex]
        linarith
      · rw [if_neg hex]
        linarith

/-- The minimum of one trial per bracket adds less than one trial per bracket. -/
theorem sum_allocated_lt (hd : 0 < divisor) (ht : 0 < trials) (hne : brackets ≠ [])
    (hpos : ∀ n ∈ brackets, 0 ≤ n) :
    (allocated trials divisor brackets).sum < trials + brackets.length := by
  have hshares := sum_max_toInt_le (brackets.map (bracketShare trials divisor brackets))
    (fun q hq => by
      obtain ⟨n, hn, rfl⟩ := List.mem_map.mp hq
      exact bracketShare_nonneg hd ht hpos hn)
  rw [List.map_map, List.length_map] at hshares
  by_cases hex : ∃ q ∈ brackets.map (bracketShare trials divisor brackets), 1 ≤ q
  · rw [if_pos hex] at hshares
    rcases sum_bracketShare trials hd hne hpos with hzero | hsum
    · obtain ⟨q, hq, hone⟩ := hex
      obtain ⟨n, hn, rfl⟩ := List.mem_map.mp hq
      rw [hzero n hn] at hone
      norm_num at hone
    · rw [hsum] at hshares
      have : ((allocated trials divisor brackets).sum : ℚ) < (trials + brackets.length : ℤ) := by
        rw [Int.cast_add, Int.cast_natCast]
        exact lt_of_le_of_lt hshares (by linarith)
      exact_mod_cast this
  · -- every bracket gets exactly one trial
    have hall : ∀ n ∈ allocated trials divisor brackets, n = 1 := by
      intro n hn
      obtain ⟨numRungs, hb, rfl⟩ := List.mem_map.mp hn
      have hlt : bracketShare trials divisor brackets numRungs < 1 :=
        not_le.mp fun hle => hex ⟨_, List.mem_map_of_mem hb, hle⟩
      rw [toInt_of_nonneg (bracketShare_nonneg hd ht hpos hb)]
      exact max_eq_right (Int.floor_le_iff.mpr (by push_cast; linarith))
    rw [List.eq_replicate_of_mem hall, List.sum_replicate, length_allocated]
    simp
    omega

/-- Shares of at least one trial each are not exceeded. -/
theorem sum_allocated_le (hd : 0 < divisor) (hne : brackets ≠ []) (hpos : ∀ n ∈ brackets, 0 ≤ n)
    (hone : ∀ n ∈ brackets, 1 ≤ bracketShare trials divisor brackets n) :
    (allocated trials divisor brackets).sum ≤ trials := by
  rcases sum_bracketShare trials hd hne hpos with hzero | hsum
  · obtain ⟨n, hn⟩ := List.exists_mem_of_ne_nil _ hne
    have := hone n hn
    rw [hzero n hn] at this
    norm_num at this
  · have hle : ((allocated trials divisor brackets).sum : ℚ) ≤ trials := by
      rw [← hsum, allocated, Int.cast_list_sum, List.map_map]
      refine List.sum_le_sum fun n hn => ?_
      have h1 := hone n hn
      rw [Function.comp_apply, toInt_of_nonneg (by linarith),
        max_eq_left (Int.le_floor.mpr (by exact_mod_cast h1))]
      exact Int.floor_le _
    exact_mod_cast hle

/-- Spreading a remainder over the first brackets adds it to the sum. -/
theorem sum_spread {remainder : ℤ} (h : 0 ≤ remainder) (count : ℤ) (n : ℕ) :
    ((List.range n).map fun (i : ℕ) => if i < remainder then count + 1 else count).sum =
      n * count + min (n : ℤ) remainder := by
  induction n with
  | zero => simp [h]
  | succ n ih =>
    rw [List.range_succ, List.map_append, List.sum_append, ih]
    simp only [List.map_cons, List.map_nil, List.sum_cons, List.sum_nil]
    push_cast
    rw [add_mul]
    split <;> omega

/-- Dividing evenly loses nothing. -/
theorem sum_spread_division {total : ℤ} (h : 0 ≤ total) {n : ℕ} (hn : 0 < n) :
    ((List.range n).map fun (i : ℕ) => if i < total.tmod n then total.tdiv n + 1
      else total.tdiv n).sum = total := by
  have hpos : (0 : ℤ) < n := by exact_mod_cast hn
  have hmod := Int.tmod_eq_emod_of_nonneg h (b := n)
  have hlt := Int.emod_lt_of_pos total hpos
  have hnonneg := Int.emod_nonneg total hpos.ne'
  rw [sum_spread (by omega), min_eq_right (by omega)]
  have := Int.mul_tdiv_add_tmod total n
  omega

theorem length_getBracketMaxConcurrentTrials (limit : ℤ) (divisor : ℚ) (numbers : List ℤ) :
    (getBracketMaxConcurrentTrials limit divisor numbers).length = numbers.length := by
  unfold getBracketMaxConcurrentTrials
  split <;> simp

/-- The limits of the brackets are positive, and add up to the configured one if there is one for
    each bracket. -/
theorem getBracketMaxConcurrentTrials_spec {limit : ℤ} {numbers : List ℤ} (hd : 1 ≤ divisor)
    (hl : 0 ≤ limit) (hne : numbers ≠ []) :
    (∀ l ∈ getBracketMaxConcurrentTrials limit divisor numbers, 1 ≤ l) ∧
      (limit ≠ 0 → (getBracketMaxConcurrentTrials limit divisor numbers).sum =
        max limit numbers.length) := by
  have hlen : 0 < numbers.length := List.length_pos_iff.mpr hne
  unfold getBracketMaxConcurrentTrials
  split
  · rename_i hzero
    refine ⟨fun l hl => ?_, fun h => absurd hzero h⟩
    have hdiv : 1 ≤ toInt divisor := by
      rw [toInt_of_nonneg (by linarith)]
      exact Int.le_floor.mpr (by exact_mod_cast hd)
    rw [(List.mem_replicate.mp hl).2]
    exact hdiv.trans (le_max_right _ _)
  · refine ⟨fun l hl => ?_, fun _ => sum_spread_division (by omega) hlen⟩
    obtain ⟨i, -, rfl⟩ := List.mem_map.mp hl
    have hone : (1 : ℤ) ≤ (max limit numbers.length).tdiv numbers.length := by
      rw [Int.tdiv_eq_ediv_of_nonneg (by omega)]
      exact (Int.le_ediv_iff_mul_le (by omega)).mpr (by omega)
    split <;> omega

/-- The trials of the simple search, divided evenly, with one for each bracket at least. -/
theorem sum_maxTrials (ht : 0 < trials) {n : ℕ} (hn : 0 < n) :
    ((List.range n).map fun (i : ℕ) => max (maxTrials trials n i) 1).sum = max trials n := by
  have hpos : (0 : ℤ) < n := by exact_mod_cast hn
  rcases le_or_gt (n : ℤ) trials with hle | (hlt : trials < n)
  · rw [max_eq_left hle]
    refine (congrArg List.sum (List.map_congr_left fun i _ => ?_)).trans
      (sum_spread_division ht.le hn)
    have hone : (1 : ℤ) ≤ trials.tdiv n := by
      rw [Int.tdiv_eq_ediv_of_nonneg ht.le]
      exact (Int.le_ediv_iff_mul_le hpos).mpr (by omega)
    have hbracket : 1 ≤ maxTrials trials n i := by
      unfold maxTrials
      split <;> omega
    exact max_eq_left hbracket
  · have hzero : trials.tdiv n = 0 := by
      rw [Int.tdiv_eq_ediv_of_nonneg ht.le]
      exact Int.ediv_eq_zero_of_lt ht.le hlt
    have hall : ∀ i : ℕ, max (maxTrials trials n i) 1 = 1 := by
      intro i
      have hbracket : maxTrials trials n i ≤ 1 := by
        unfold maxTrials
        rw [hzero]
        split <;> omega
      exact max_eq_right hbracket
    simp only [hall, List.map_const', List.length_range, List.sum_replicate, nsmul_eq_mul, mul_one]
    exact (max_eq_right hlt.le).symm

end Division

/-! ### Keeping account of the sub-searches -/

/-- A later random state of the same search. -/
def Rand.Precedes (rand rand' : Rand ι) : Prop := rand'.draw = rand.draw ∧ rand.pos ≤ rand'.pos

theorem Rand.Precedes.refl (rand : Rand ι) : rand.Precedes rand := ⟨rfl, le_rfl⟩

theorem Rand.Precedes.trans {rand rand' rand'' : Rand ι} (h : rand.Precedes rand')
    (h' : rand'.Precedes rand'') : rand.Precedes rand'' :=
  ⟨h'.1.trans h.1, h.2.trans h'.2⟩

/-- The call reports a trial with invalid hyperparameters. -/
def Call.invalidHP : Call ι → Bool
  | .trialExitedEarly _ .invalidHP => true
  | _ => false

/-- What a search may request, what it has requested, and how often it has been told of invalid
    hyperparameters. -/
structure Account (ι : Type) where
  budget : ℤ
  ids : List ι
  invalid : ℕ

namespace Account

/-- Enter the operations that come of a call. -/
def enter (acc : Account ι) (call : Call ι) (ops : List (Operation ι)) : Account ι :=
  { acc with
    ids := acc.ids ++ (creates ops).map (·.requestID)
    invalid := acc.invalid + if call.invalidHP then 1 else 0 }

/-- What is requested stays within the budget, but for replacements of invalid trials. -/
def Within (acc : Account ι) : Prop := (acc.ids.length : ℤ) ≤ acc.budget + acc.invalid

theorem sum_modify {α : Type} {i : ℕ} {a : α} (f : α → α) (g : α → ℕ) (c : ℕ)
    (hg : g (f a) = g a + c) : ∀ {l : List α}, l[i]? = some a →
      ((l.modify i f).map g).sum = (l.map g).sum + c := by
  induction i with
  | zero =>
    intro l h
    cases l with
    | nil => cases h
    | cons b l =>
      cases h
      rw [List.modify_zero_cons, List.map_cons, List.sum_cons, hg, List.map_cons, List.sum_cons]
      omega
  | succ i ih =>
    intro l h
    cases l with
    | nil => cases h
    | cons b l =>
      rw [List.modify_succ_cons, List.map_cons, List.sum_cons, ih h, List.map_cons, List.sum_cons]
      omega

theorem sum_within {accounts : List (Account ι)} (h : ∀ acc ∈ accounts, acc.Within) :
    (((accounts.map (·.ids.length)).sum : ℕ) : ℤ) ≤
      (accounts.map (·.budget)).sum + ((accounts.map (·.invalid)).sum : ℕ) := by
  induction accounts with
  | nil => simp
  | cons acc accounts ih =>
    have hacc := h acc (List.mem_cons_self ..)
    have hrest := ih fun x hx => h x (List.mem_cons_of_mem _ hx)
    rw [Within] at hacc
    simp only [List.map_cons, List.sum_cons, Nat.cast_add] at hrest ⊢
    omega

end Account

/-- An account `I` of a search method that is kept right by its callbacks, and while other search
    methods draw random numbers. -/
structure SearchMethod.Keeps (m : SearchMethod σ ι) (I : Account ι → σ → Rand ι → Prop) :
    Prop where
  later : ∀ {acc : Account ι} {s : σ} {rand rand' : Rand ι}, I acc s rand → rand.Precedes rand' →
    I acc s rand'
  call : ∀ {acc : Account ι} {s : σ} {rand : Rand ι} {call : Call ι} {out : Outcome σ ι},
    I acc s rand → call.requestID ∈ acc.ids → m.call s rand call = .ok out →
      rand.Precedes out.rand ∧ I (acc.enter call out.ops) out.method out.rand

/-- The search starts with such an account. -/
def SearchMethod.Opens (m : SearchMethod σ ι) (I : Account ι → σ → Rand ι → Prop) (budget : ℤ)
    (s : σ) : Prop :=
  ∀ (rand : Rand ι) (out : Outcome σ ι), m.initialOperations s rand = .ok out →
    rand.Precedes out.rand ∧ I ⟨budget, (creates out.ops).map (·.requestID), 0⟩ out.method out.rand

namespace TournamentSearch

variable [DecidableEq ι] {m : SearchMethod σ ι} {I : Account ι → σ → Rand ι → Prop}
  {s t : TournamentSearch σ ι} {rand : Rand ι} {accounts : List (Account ι)}

/-- Each sub-search has its account, with all the trials that the table says it has created. -/
structure Accounted (m : SearchMethod σ ι) (I : Account ι → σ → Rand ι → Prop)
    (s : TournamentSearch σ ι) (rand : Rand ι) (accounts : List (Account ι)) : Prop where
  length : s.subSearches.length = accounts.length
  each : ∀ (i : ℕ) (sub : SubSearch σ ι) (acc : Account ι), s.subSearches[i]? = some sub →
    accounts[i]? = some acc → sub.method = m ∧ I acc sub.state rand ∧
      ∀ r, s.trialTable r = some i → r ∈ acc.ids

/-- A call is entered in the account of the trial's creator. -/
theorem Accounted.call (hm : m.Keeps I) (h : Accounted m I s rand accounts) {call : Call ι}
    {out : Outcome (TournamentSearch σ ι) ι} (hout : tournamentMethod.call s rand call = .ok out) :
    ∃ i acc, accounts[i]? = some acc ∧
      Accounted m I out.method out.rand (accounts.modify i (·.enter call out.ops)) := by
  have hturn : tournamentMethod.Takes s ⟨call, rand, out.ops, out.rand⟩ out.method := hout
  obtain ⟨i, sub, state, htable, hsub, htakes, hsubs, htable'⟩ := takes_spec hturn
  have hlt := (List.getElem?_eq_some_iff.mp hsub).1
  obtain ⟨acc, hacc⟩ : ∃ acc, accounts[i]? = some acc :=
    ⟨_, List.getElem?_eq_getElem (h.length.symm ▸ hlt)⟩
  obtain ⟨hmethod, hI, hids⟩ := h.each i sub _ hsub hacc
  obtain ⟨hlater, hI'⟩ := hm.call hI (hids _ htable) (by rw [← hmethod]; exact htakes)
  have hset : out.method.subSearches = s.subSearches.set i { sub with state := state } := by
    refine List.ext_getElem? fun j => ?_
    rw [hsubs, List.getElem?_set, if_pos hlt]
  refine ⟨i, acc, hacc, ?_, fun j sub' acc' hsub' hacc' => ?_⟩
  · rw [hset, List.length_set, List.length_modify, h.length]
  · rw [hsubs] at hsub'
    by_cases hij : i = j
    · subst hij
      rw [if_pos rfl] at hsub'
      rw [List.getElem?_modify_eq, hacc] at hacc'
      cases hsub'
      cases hacc'
      refine ⟨hmethod, hI', fun r hr => ?_⟩
      rw [htable'] at hr
      split at hr
      · rename_i hmem
        exact List.mem_append_right _ hmem
      · exact List.mem_append_left _ (hids r hr)
    · rw [if_neg hij] at hsub'
      rw [List.getElem?_modify_ne _ _ hij] at hacc'
      obtain ⟨hmethod', hI'', hids'⟩ := h.each j sub' acc' hsub' hacc'
      refine ⟨hmethod', hm.later hI'' hlater, fun r hr => hids' r ?_⟩
      rw [htable'] at hr
      split at hr
      · exact absurd (Option.some.inj hr) hij
      · exact hr

/-- The accounts after some calls: they add up to what was requested. -/
theorem Accounted.play (hm : m.Keeps I) {calls : List (Call ι)} :
    ∀ {s t : TournamentSearch σ ι} {rand : Rand ι} {accounts : List (Account ι)}
      {turns : List (Turn ι)}, Accounted m I s rand accounts →
      tournamentMethod.play s rand calls = .ok (turns, t) → ∃ accounts' rand',
        Accounted m I t rand' accounts' ∧ accounts'.map (·.budget) = accounts.map (·.budget) ∧
        (accounts'.map (·.ids.length)).sum =
          (accounts.map (·.ids.length)).sum + (creates (turns.flatMap (·.ops))).length ∧
        (accounts'.map (·.invalid)).sum =
          (accounts.map (·.invalid)).sum + calls.countP Call.invalidHP := by
  induction calls with
  | nil =>
    intro s t rand accounts turns h hplay
    cases hplay
    exact ⟨accounts, rand, h, rfl, by simp, by simp⟩
  | cons call calls ih =>
    intro s t rand accounts turns h hplay
    obtain ⟨out, hout, hrest⟩ := bind_eq_ok.mp hplay
    obtain ⟨⟨turns', t'⟩, hplay', heq⟩ := bind_eq_ok.mp hrest
    cases heq
    obtain ⟨i, acc, hacc, h'⟩ := h.call hm hout
    obtain ⟨accounts', rand', hf, hbudget, hids, hinvalid⟩ := ih h' hplay'
    refine ⟨accounts', rand', hf, ?_, ?_, ?_⟩
    · rw [hbudget]
      refine List.ext_getElem? fun j => ?_
      rw [List.getElem?_map, List.getElem?_modify, List.getElem?_map]
      cases accounts[j]? with
      | none => rfl
      | some acc' => by_cases hij : i = j <;> simp [hij, Account.enter]
    · rw [hids, Account.sum_modify _ _ (creates out.ops).length (by simp [Account.enter]) hacc]
      simp [add_assoc]
    · rw [hinvalid, Account.sum_modify _ _ (if call.invalidHP then 1 else 0) rfl hacc,
        List.countP_cons]
      omega

omit [DecidableEq ι] in
/-- The accounts that sub-searches open when they start. -/
theorem Started.opens {budget : σ → ℤ} (hm : m.Keeps I) {rand' : Rand ι}
    {subs : List (SubSearch σ ι)} {outs : List (Outcome σ ι)}
    (hsubs : ∀ sub ∈ subs, sub.method = m ∧ m.Opens I (budget sub.state) sub.state)
    (h : Started rand subs outs rand') : rand.Precedes rand' ∧
      ∀ (i : ℕ) (sub : SubSearch σ ι) (out : Outcome σ ι), subs[i]? = some sub →
        outs[i]? = some out →
          I ⟨budget sub.state, (creates out.ops).map (·.requestID), 0⟩ out.method rand' := by
  induction h with
  | nil rand => exact ⟨.refl rand, fun i sub out hsub => by simp at hsub⟩
  | @cons rand rand' sub subs out outs hout _ ih =>
    obtain ⟨hmethod, hopens⟩ := hsubs sub (List.mem_cons_self ..)
    obtain ⟨hlater, hI⟩ := hopens rand out (hmethod ▸ hout)
    obtain ⟨hlater', hrest⟩ := ih fun x hx => hsubs x (List.mem_cons_of_mem _ hx)
    refine ⟨hlater.trans hlater', fun i sub' out' hsub' hout' => ?_⟩
    cases i with
    | zero =>
      cases hsub'
      cases hout'
      exact hm.later hI hlater'
    | succ i => exact hrest i sub' out' hsub' hout'

omit [DecidableEq ι] in
theorem mem_issuedFrom {outs : List (Outcome σ ι)} {i : ℕ} {ops : List (Operation ι)} :
    ∀ {n : ℕ}, (i, ops) ∈ issuedFrom n outs →
      ∃ out, n ≤ i ∧ outs[i - n]? = some out ∧ out.ops = ops := by
  induction outs with
  | nil => exact fun h => by cases h
  | cons out outs ih =>
    intro n h
    rcases List.mem_cons.mp h with heq | h
    · cases heq
      exact ⟨out, le_rfl, by simp, rfl⟩
    · obtain ⟨out', hle, hout', hops⟩ := ih h
      refine ⟨out', by omega, ?_, hops⟩
      rw [show i - n = i - (n + 1) + 1 by omega, List.getElem?_cons_succ]
      exact hout'

omit [DecidableEq ι] in
theorem length_creates_flatMap (outs : List (Outcome σ ι)) :
    (creates (outs.flatMap (·.ops))).length =
      (outs.map fun out => (creates out.ops).length).sum := by
  induction outs with
  | nil => rfl
  | cons out outs ih => simpa using ih

/-- The accounts after the initial operations: they add up to what was requested. -/
theorem Accounted.start {budget : σ → ℤ} (hm : m.Keeps I) {subs : List (SubSearch σ ι)}
    (hsubs : ∀ sub ∈ subs, sub.method = m ∧ m.Opens I (budget sub.state) sub.state)
    {out : Outcome (TournamentSearch σ ι) ι}
    (h : tournamentMethod.initialOperations (newTournamentSearch subs) rand = .ok out) :
    ∃ accounts, Accounted m I out.method out.rand accounts ∧
      accounts.map (·.budget) = subs.map (budget ·.state) ∧
      (accounts.map (·.ids.length)).sum = (creates out.ops).length ∧
      (accounts.map (·.invalid)).sum = 0 := by
  obtain ⟨outs, hstarted, hops, hfrom, -, htable⟩ := startNext_spec subs 0 h
  have hlen := hstarted.length_eq
  obtain ⟨-, hopens⟩ := hstarted.opens hm hsubs
  have hall : out.method.subSearches = subs.mapIdx fun j sub => resume sub outs[j]? := by
    refine List.ext_getElem? fun j => ?_
    rw [hfrom j (Nat.zero_le j), List.getElem?_mapIdx]
    rfl
  refine ⟨(subs.zip outs).map fun p =>
    ⟨budget p.1.state, (creates p.2.ops).map (·.requestID), 0⟩,
    ⟨?_, fun i sub acc hsub hacc => ?_⟩, ?_, ?_, ?_⟩
  · rw [List.length_map, List.length_zip, hlen, min_self, hall, List.length_mapIdx]
  · rw [hall, List.getElem?_mapIdx] at hsub
    obtain ⟨sub', hsub', rfl⟩ := Option.map_eq_some_iff.mp hsub
    rw [List.getElem?_map] at hacc
    obtain ⟨⟨sub'', first⟩, hp, rfl⟩ := Option.map_eq_some_iff.mp hacc
    obtain ⟨hsub'', hfirst⟩ := List.getElem?_zip_eq_some.mp hp
    cases hsub'.symm.trans hsub''
    rw [hfirst]
    refine ⟨(hsubs sub'' (List.mem_of_getElem? hsub')).1, hopens i sub'' first hsub' hfirst,
      fun r hr => ?_⟩
    rw [htable] at hr
    obtain ⟨ops, hissued, c, hc, rfl⟩ := creator_spec (hr ▸ Option.or_none.symm)
    obtain ⟨out', -, hout', rfl⟩ := mem_issuedFrom hissued
    rw [Nat.sub_zero, hfirst] at hout'
    cases hout'
    exact List.mem_map_of_mem hc
  · have hfst : (subs.zip outs).map Prod.fst = subs := List.map_fst_zip hlen.ge
    rw [List.map_map]
    conv_rhs => rw [← hfst, List.map_map]
    rfl
  · have hsnd : (subs.zip outs).map Prod.snd = outs := List.map_snd_zip hlen.le
    rw [hops, List.nil_append, length_creates_flatMap, List.map_map]
    conv_rhs => rw [← hsnd, List.map_map]
    simp [Function.comp_def]
  · rw [List.map_map]
    simp [Function.comp_def]

end TournamentSearch

/-- The trials that a search requests: initially, and in answer to the calls. -/
def SearchMethod.Requests (m : SearchMethod σ ι) (s : σ) (calls : List (Call ι))
    (requested : List (Create ι)) : Prop :=
  ∃ rand out turns t, m.initialOperations s rand = .ok out ∧
    m.play out.method out.rand calls = .ok (turns, t) ∧
      requested = creates (out.ops ++ turns.flatMap (·.ops))

namespace TournamentSearch

variable [DecidableEq ι] {m : SearchMethod σ ι} {I : Account ι → σ → Rand ι → Prop}
  {calls : List (Call ι)} {requested : List (Create ι)}

/-- What a tournament requests is entered in the accounts of its sub-searches. -/
theorem requests_spec (budget : σ → ℤ) (hm : m.Keeps I) {subs : List (SubSearch σ ι)}
    (hsubs : ∀ sub ∈ subs, sub.method = m ∧ m.Opens I (budget sub.state) sub.state)
    (h : tournamentMethod.Requests (newTournamentSearch subs) calls requested) :
    ∃ accounts : List (Account ι), (∀ acc ∈ accounts, ∃ s rand, I acc s rand) ∧
      accounts.map (·.budget) = subs.map (budget ·.state) ∧
      (accounts.map (·.ids.length)).sum = requested.length ∧
      (accounts.map (·.invalid)).sum = calls.countP Call.invalidHP := by
  obtain ⟨rand, out, turns, t, hout, hplay, rfl⟩ := h
  obtain ⟨opened, hopened, hbudget, hids, hinvalid⟩ := Accounted.start hm hsubs hout
  obtain ⟨accounts, rand', hacc, hbudget', hids', hinvalid'⟩ := hopened.play hm hplay
  refine ⟨accounts, fun acc hmem => ?_, hbudget'.trans hbudget, ?_, ?_⟩
  · obtain ⟨i, hi⟩ := List.mem_iff_getElem?.mp hmem
    have hlt := (List.getElem?_eq_some_iff.mp hi).1
    rw [← hacc.length] at hlt
    exact ⟨_, _, (hacc.each i _ acc (List.getElem?_eq_getElem hlt) hi).2.1⟩
  · rw [hids', hids, creates_append, List.length_append]
  · rw [hinvalid', hinvalid, Nat.zero_add]

end TournamentSearch

/-! ### Asynchronous halving -/

namespace AsyncHalvingSearch

variable [DecidableEq ι] {s : AsyncHalvingSearch ι} {acc : Account ι} {rand : Rand ι} {r : ι}

/-- The search has entered each trial it has created once, and has created no more than its maximum
    but for replacements. -/
structure Budgeted (acc : Account ι) (s : AsyncHalvingSearch ι) (rand : Rand ι) : Prop where
  maxTrials : s.maxTrials = acc.budget
  invalid : s.invalidTrials = acc.invalid
  count : s.trialRungs.keys.length = acc.ids.length
  entered : ∀ r, r ∈ s.trialRungs ↔ r ∈ acc.ids
  reported : ∀ i, ∀ tm ∈ (s.rung i).metrics, tm.requestID ∈ acc.ids
  drawn : ∀ r ∈ acc.ids, ∃ i < rand.pos, rand.draw i = r
  within : acc.Within

omit [DecidableEq ι] in
/-- Only the trials, the rungs and two counts matter. -/
theorem Budgeted.congr {s' : AsyncHalvingSearch ι} (h : Budgeted acc s rand)
    (hrungs : s'.rungs = s.rungs) (htrials : s'.trialRungs = s.trialRungs)
    (hmax : s'.maxTrials = s.maxTrials) (hinvalid : s'.invalidTrials = s.invalidTrials) :
    Budgeted acc s' rand where
  maxTrials := hmax.trans h.maxTrials
  invalid := hinvalid.trans h.invalid
  count := by rw [htrials, h.count]
  entered := by rw [htrials]; exact h.entered
  reported i := by rw [rung, hrungs]; exact h.reported i
  drawn := h.drawn
  within := h.within

theorem length_keys_insert {m : AList fun _ : ι => ℕ} (n : ℕ) :
    (m.insert r n).keys.length = if r ∈ m then m.keys.length else m.keys.length + 1 := by
  rw [AList.keys_insert, List.length_cons]
  split
  · rename_i hmem
    have := List.length_pos_of_mem (AList.mem_keys.mpr hmem)
    rw [List.length_erase_of_mem (AList.mem_keys.mpr hmem)]
    omega
  · rename_i hmem
    rw [List.erase_of_not_mem fun h => hmem (AList.mem_keys.mp h)]

/-- A trial is moved to another rung. -/
theorem Budgeted.move (h : Budgeted acc s rand) (hr : r ∈ acc.ids) (n : ℕ) :
    Budgeted acc { s with trialRungs := s.trialRungs.insert r n } rand where
  maxTrials := h.maxTrials
  invalid := h.invalid
  count := by rw [length_keys_insert, if_pos ((h.entered r).mpr hr), h.count]
  entered x := by
    rw [AList.mem_insert, h.entered]
    exact ⟨fun hx => hx.elim (fun heq => heq ▸ hr) id, .inr⟩
  reported := h.reported
  drawn := h.drawn
  within := h.within

omit [DecidableEq ι] in
/-- The rungs are changed, with metrics of known trials. -/
theorem Budgeted.modifyRung (h : Budgeted acc s rand) (i : ℕ) {f : Rung ι → Rung ι}
    (hf : ∀ tm ∈ (f (s.rung i)).metrics, tm.requestID ∈ acc.ids) :
    Budgeted acc (s.modifyRung i f) rand where
  maxTrials := h.maxTrials
  invalid := h.invalid
  count := h.count
  entered := h.entered
  reported j tm htm := by
    by_cases hij : j = i ∧ i < s.rungs.length
    · obtain ⟨rfl, hlt⟩ := hij
      rw [rung_modifyRung_same hlt] at htm
      exact hf tm htm
    · refine h.reported j tm ?_
      by_cases hj : j = i
      · have hge : s.rungs.length ≤ j := by
          by_contra hlt
          exact hij ⟨hj, by omega⟩
        simpa [rung, List.getD, List.getElem?_eq_none, hge] using htm
      · rwa [rung_modifyRung_ne hj] at htm
  drawn := h.drawn
  within := h.within

/-- A metric of a known trial promotes a known trial, if any. -/
theorem Budgeted.recordMetric (h : Budgeted acc s rand) (hr : r ∈ acc.ids) (metric : ℚ) :
    Budgeted acc (s.recordMetric r metric).1 rand ∧
      ∀ q, (s.recordMetric r metric).2 = some q → q ∈ acc.ids := by
  have hout := h.modifyRung (s.rungOf r) (f := fun rung =>
    { rung with outstandingTrials := rung.outstandingTrials - 1 }) (h.reported _)
  unfold AsyncHalvingSearch.recordMetric
  dsimp only
  split
  · refine ⟨hout.modifyRung _ fun tm htm => ?_, fun q hq => by cases hq⟩
    rcases List.mem_append.mp htm with htm | htm
    · exact hout.reported _ tm htm
    · rw [List.mem_singleton.mp htm]
      exact hr
  · generalize s.modifyRung (s.rungOf r) _ = s' at hout ⊢
    obtain ⟨l', hl', hprom⟩ := promotionsAsync_spec (s'.rung (s.rungOf r)) r metric
      s'.config.divisor
    generalize (s'.rung (s.rungOf r)).promotionsAsync r metric s'.config.divisor = promotions
      at hl' hprom ⊢
    obtain ⟨rung', promoted⟩ := promotions
    cases hl'
    have hrec := hout.modifyRung (s.rungOf r) (f := fun _ => { s'.rung (s.rungOf r) with metrics := l' })
      fun tm htm => by
        rcases List.mem_cons.mp (hprom.ids.subset (List.mem_map_of_mem htm)) with heq | hmem
        · rw [heq]
          exact hr
        · obtain ⟨tm', htm', heq⟩ := List.mem_map.mp hmem
          exact heq ▸ hout.reported _ tm' htm'
    cases promoted with
    | none => exact ⟨hrec, fun q hq => by cases hq⟩
    | some q =>
      have hq : q ∈ acc.ids := by
        rcases hprom.chosen q rfl with rfl | ⟨tm, htm, rfl, -⟩
        · exact hr
        · exact hout.reported _ tm htm
      refine ⟨(hrec.move hq _).modifyRung _ ((hrec.move hq _).reported _), fun q' hq' => ?_⟩
      cases hq'
      exact hq

/-- A trial is created while there are fewer than the maximum. -/
theorem Budgeted.create (h : Budgeted acc s rand)
    (hlt : (acc.ids.length : ℤ) < acc.budget + acc.invalid) :
    Budgeted { acc with ids := acc.ids ++ [(newCreate rand).1.requestID] }
      { s with trialRungs := s.trialRungs.insert (newCreate rand).1.requestID 0 } (newCreate rand).2 := by
  have hnew : (newCreate rand).1.requestID ∉ s.trialRungs := by
    rw [h.entered]
    intro hmem
    obtain ⟨i, hi, heq⟩ := h.drawn _ hmem
    exact absurd (rand.fresh heq) (by omega)
  refine ⟨h.maxTrials, h.invalid, ?_, fun x => ?_, fun i tm htm => ?_, fun x hx => ?_, ?_⟩
  · rw [length_keys_insert, if_neg hnew, h.count, List.length_append]
    rfl
  · rw [AList.mem_insert, h.entered, List.mem_append, List.mem_singleton, or_comm]
  · exact List.mem_append_left _ (h.reported i tm htm)
  · rcases List.mem_append.mp hx with hx | hx
    · obtain ⟨i, hi, heq⟩ := h.drawn x hx
      exact ⟨i, Nat.lt_succ_of_lt hi, heq⟩
    · rw [List.mem_singleton.mp hx]
      exact ⟨rand.pos, Nat.lt_succ_self _, rfl⟩
  · rw [Account.Within, List.length_append]
    dsimp only
    rw [List.length_singleton]
    push_cast
    omega

omit [DecidableEq ι] in
theorem precedes_newCreate (rand : Rand ι) : rand.Precedes (newCreate rand).2 :=
  ⟨rfl, Nat.le_succ _⟩

/-- The operations of a callback that a known trial is the reason of are entered. -/
def Accounts (acc : Account ι) (rand : Rand ι) (out : Outcome (AsyncHalvingSearch ι) ι) : Prop :=
  rand.Precedes out.rand ∧
    Budgeted { acc with ids := acc.ids ++ (creates out.ops).map (·.requestID) } out.method out.rand

omit [DecidableEq ι] in
theorem creates_map_close (closing : List ι) : creates (closing.map Operation.close) = [] := by
  induction closing with
  | nil => rfl
  | cons q closing ih => exact ih

/-- The end of a promotion creates a trial only below the maximum. -/
theorem Budgeted.finishPromotion (h : Budgeted acc s rand) {ops : List (Operation ι)}
    (hops : creates ops = []) (added : Bool) :
    Accounts acc rand (s.finishPromotion rand ops added) := by
  obtain ⟨created, closing, hfin⟩ := s.finished_finishPromotion rand ops added
  generalize s.finishPromotion rand ops added = out at hfin ⊢
  have hrest : Budgeted { acc with ids := acc.ids ++ (creates out.ops).map (·.requestID) }
      { out.method with closedTrials := s.closedTrials } out.rand := by
    rw [hfin.method_eq, hfin.ops_eq, hfin.rand_eq, creates_append, creates_append, hops, creates_map_close]
    cases hcreated : created with
    | false => simpa using h
    | true =>
      have hlt := (hfin.created_iff.mp hcreated).2
      rw [h.count, h.invalid, h.maxTrials] at hlt
      exact h.create (by omega)
  refine ⟨?_, ⟨hrest.maxTrials, hrest.invalid, hrest.count, hrest.entered, hrest.reported,
    hrest.drawn, hrest.within⟩⟩
  rw [hfin.rand_eq]
  split
  · exact precedes_newCreate rand
  · exact .refl rand

/-- A metric of a known trial is accounted for. -/
theorem Budgeted.promoteWithin (rungsLeft : ℕ) {s : AsyncHalvingSearch ι} (h : Budgeted acc s rand)
    {r : ι} (hr : r ∈ acc.ids) (metric : ℚ) :
    Accounts acc rand (promoteWithin rungsLeft s rand r metric) := by
  obtain ⟨hrec, hq⟩ := h.recordMetric hr metric
  unfold AsyncHalvingSearch.promoteWithin
  dsimp only
  split
  · split
    · refine Budgeted.finishPromotion ?_ rfl false
      exact hrec.congr rfl rfl rfl rfl
    · exact hrec.finishPromotion rfl false
  · rename_i q hsome
    split
    · exact hrec.finishPromotion rfl true
    · cases rungsLeft with
      | zero => exact ⟨.refl rand, by simpa using hrec⟩
      | succ rungsLeft => exact hrec.promoteWithin rungsLeft (hq q hsome) exitedMetricValue
termination_by rungsLeft

theorem mem_dropFirst {tm : TrialMetric ι} {metrics : List (TrialMetric ι)}
    (h : tm ∈ dropFirst r metrics) : tm ∈ metrics := by
  unfold dropFirst at h
  split at h
  · split at h
    · exact List.mem_cons_of_mem _ h
    · exact h
  · exact h

/-- A trial with invalid hyperparameters is replaced. -/
theorem Budgeted.replace (h : Budgeted acc s rand) (rungs : List (Rung ι))
    (hrungs : ∀ i, ∀ tm ∈ (rungs.getD i default).metrics, tm ∈ (s.rung i).metrics) :
    Budgeted { acc with
        ids := acc.ids ++ [(newCreate rand).1.requestID]
        invalid := acc.invalid + 1 }
      { s with
        invalidTrials := s.invalidTrials + 1
        rungs := rungs
        trialRungs := s.trialRungs.insert (newCreate rand).1.requestID 0 } (newCreate rand).2 := by
  have hwithin : (acc.ids.length : ℤ) ≤ acc.budget + acc.invalid := h.within
  have hinv : Budgeted { acc with invalid := acc.invalid + 1 }
      { s with invalidTrials := s.invalidTrials + 1, rungs := rungs } rand := by
    refine ⟨h.maxTrials, ?_, h.count, h.entered, fun i tm htm => h.reported i tm (hrungs i tm htm),
      h.drawn, ?_⟩
    · rw [h.invalid, Nat.cast_succ]
    · show (acc.ids.length : ℤ) ≤ acc.budget + (acc.invalid + 1 : ℕ)
      omega
  refine hinv.create ?_
  show (acc.ids.length : ℤ) < acc.budget + (acc.invalid + 1 : ℕ)
  omega

theorem keeps : asyncHalvingMethod.Keeps (Budgeted (ι := ι)) where
  later {acc s rand rand'} h hlater :=
    ⟨h.maxTrials, h.invalid, h.count, h.entered, h.reported, fun r hr => by
      obtain ⟨i, hi, heq⟩ := h.drawn r hr
      exact ⟨i, hi.trans_le hlater.2, by rw [hlater.1, heq]⟩, h.within⟩
  call {acc s rand call out} h hr hout := by
    have hsame : Budgeted { acc with ids := acc.ids ++ [] } s rand := by simpa using h
    cases call with
    | trialCreated r =>
      cases hout
      have hmod := hsame.modifyRung 0 (f := fun rung =>
        { rung with outstandingTrials := rung.outstandingTrials + 1 }) (hsame.reported 0)
      exact ⟨.refl rand, hmod.move (List.mem_append_left _ hr) 0⟩
    | trainCompleted r train =>
      cases hout
      exact ⟨.refl rand, hsame⟩
    | checkpointCompleted r checkpoint metrics =>
      cases hout
      exact ⟨.refl rand, hsame⟩
    | validationCompleted r validate metrics =>
      obtain ⟨metric, -, heq⟩ := bind_eq_ok.mp hout
      cases heq
      exact h.promoteWithin _ hr metric
    | trialClosed r =>
      cases hout
      exact ⟨.refl rand, hsame.congr rfl rfl rfl rfl⟩
    | trialExitedEarly r reason =>
      have hexited : Budgeted acc { s with
          earlyExitTrials := insert r s.earlyExitTrials
          closedTrials := insert r s.closedTrials } rand := h.congr rfl rfl rfl rfl
      cases reason with
      | invalidHP =>
        cases hout
        refine ⟨precedes_newCreate rand, hexited.replace _ fun i tm htm => ?_⟩
        rw [List.getD_eq_getElem?_getD, List.getElem?_mapIdx] at htm
        rw [rung, List.getD_eq_getElem?_getD]
        cases hi : s.rungs[i]? with
        | none => simpa [hi] using htm
        | some rung =>
          rw [hi, Option.map_some, Option.getD_some] at htm
          split at htm
          · exact mem_dropFirst htm
          · exact htm
      | _ =>
        cases hout
        exact hexited.promoteWithin _ hr exitedMetricValue

omit [DecidableEq ι] in
theorem maxConcurrentTrials_le (h : 1 ≤ s.config.maxTrials) :
    s.maxConcurrentTrials ≤ s.config.maxTrials := by
  unfold maxConcurrentTrials
  split
  · exact min_le_right _ _
  · exact max_le (min_le_right _ _) h

/-- The initial operations create no more trials than the maximum. -/
theorem opens {config : AsyncHalvingConfig} (h : 1 ≤ config.maxTrials) :
    asyncHalvingMethod.Opens Budgeted config.maxTrials (newAsyncHalvingSearch (ι := ι) config) := by
  intro rand out hout
  cases hout
  have hcreate : ∀ (n : ℕ) {s : AsyncHalvingSearch ι} {rand : Rand ι} {acc : Account ι},
      Budgeted acc s rand → (acc.ids.length + n : ℤ) ≤ acc.budget + acc.invalid →
        Accounts acc rand (createTrials n s rand) := by
    intro n
    induction n with
    | zero => exact fun {s rand acc} h _ => ⟨.refl rand, by simpa [createTrials] using h⟩
    | succ n ih =>
      intro s rand acc h hle
      push_cast at hle
      obtain ⟨hlater, hrest⟩ := ih (h.create (by omega)) (by
        rw [List.length_append, List.length_singleton]
        push_cast
        omega)
      refine ⟨(precedes_newCreate rand).trans hlater, ?_⟩
      rw [createTrials]
      simpa [createTrial, newTrain, newValidate] using hrest
  have hempty : ∀ i, ((newAsyncHalvingSearch (ι := ι) config).rung i).metrics = [] := by
    intro i
    rw [rung, newAsyncHalvingSearch, List.getD_eq_getElem?_getD, List.getElem?_map]
    cases (List.range config.numRungs.toNat)[i]? <;> rfl
  have hstart : Budgeted ⟨config.maxTrials, [], 0⟩ (newAsyncHalvingSearch (ι := ι) config) rand := by
    refine ⟨rfl, rfl, rfl, fun r => ?_, fun i tm htm => ?_, fun r hr => (by cases hr), ?_⟩
    · simp [newAsyncHalvingSearch]
    · rw [hempty] at htm
      cases htm
    · rw [Account.Within]
      simp
      omega
  have hle : (newAsyncHalvingSearch (ι := ι) config).maxConcurrentTrials ≤ config.maxTrials :=
    maxConcurrentTrials_le h
  refine hcreate _ hstart ?_
  simp
  omega

end AsyncHalvingSearch

/-! ### Synchronous halving -/

namespace SyncHalvingSearch

variable [DecidableEq ι]

/-- The search has created as many trials as it starts with. -/
def Budgeted (acc : Account ι) (_ : SyncHalvingSearch ι) (_ : Rand ι) : Prop :=
  (acc.ids.length : ℤ) = acc.budget

theorem creates_promoteWithin (rungsLeft : ℕ) {s : SyncHalvingSearch ι} {r : ι} {metric : ℚ}
    {out : List (Operation ι) × SyncHalvingSearch ι}
    (h : promoteWithin rungsLeft s r metric = .ok out) : creates out.1 = [] := by
  unfold promoteWithin at h
  dsimp only at h
  split at h
  · cases h
    split <;> rfl
  · split at h
    · cases h
      rfl
    · split at h
      · unfold closeLosers at h
        dsimp only at h
        split at h
        · cases h
        · split at h
          · cases h
            simp [newTrain, newValidate, creates]
          · cases h
            rfl
      · cases rungsLeft with
        | zero =>
          cases h
          rfl
        | succ rungsLeft => exact creates_promoteWithin rungsLeft h
termination_by rungsLeft

/-- Only the initial operations create trials. -/
theorem keeps : syncHalvingMethod.Keeps (Budgeted (ι := ι)) where
  later h _ := h
  call {acc s rand call out} h _ hout := by
    have hnone : rand.Precedes out.rand ∧ creates out.ops = [] := by
      cases call with
      | validationCompleted r validate metrics =>
        obtain ⟨metric, -, hpromote⟩ := bind_eq_ok.mp hout
        obtain ⟨p, hp, heq⟩ := bind_eq_ok.mp hpromote
        cases heq
        exact ⟨.refl rand, creates_promoteWithin _ hp⟩
      | trialExitedEarly r reason =>
        obtain ⟨p, hp, heq⟩ := bind_eq_ok.mp hout
        cases heq
        exact ⟨.refl rand, creates_promoteWithin _ hp⟩
      | _ =>
        cases hout
        exact ⟨.refl rand, rfl⟩
    refine ⟨hnone.1, ?_⟩
    rw [Budgeted, Account.enter, hnone.2]
    simpa [Budgeted] using h

theorem opens {s : SyncHalvingSearch ι} (h : 0 ≤ (s.rung 0).startTrials) :
    syncHalvingMethod.Opens Budgeted (s.rung 0).startTrials s := by
  intro rand out hout
  have hcreate : ∀ (n : ℕ) (rand : Rand ι), rand.Precedes (s.createTrials n rand).2 ∧
      (creates (s.createTrials n rand).1).length = n := by
    intro n
    induction n with
    | zero => exact fun rand => ⟨.refl rand, rfl⟩
    | succ n ih =>
      intro rand
      obtain ⟨hlater, hlen⟩ := ih (newCreate rand).2
      refine ⟨⟨hlater.1, (Nat.le_succ _).trans hlater.2⟩, ?_⟩
      rw [createTrials, creates_create, newTrain, newValidate, creates_runnable, creates_runnable,
        List.length_cons, hlen]
  have hout' : s.initialOperations rand = .ok out := hout
  unfold initialOperations at hout'
  split at hout'
  · cases hout'
  · rename_i bottom rest hrungs
    cases hout'
    obtain ⟨hlater, hlen⟩ := hcreate bottom.startTrials.toNat rand
    refine ⟨hlater, ?_⟩
    rw [rung, hrungs, List.getD_cons_zero] at h ⊢
    rw [Budgeted, List.length_map, hlen, Int.toNat_of_nonneg h]

end SyncHalvingSearch

/-! ### The searches -/

section Searches

variable [DecidableEq ι]

/-- The configuration of a bracket. -/
def bracketConfig (config : AdaptiveASHAConfig) (numRungs maxTrials maxConcurrentTrials : ℤ) :
    AsyncHalvingConfig where
  metric := config.metric
  smallerIsBetter := config.smallerIsBetter
  numRungs := numRungs
  maxLength := config.maxLength
  maxTrials := maxTrials
  divisor := config.divisor
  maxConcurrentTrials := maxConcurrentTrials

theorem mapM_newBracket {config : AdaptiveASHAConfig} : ∀ {l : List (ℤ × ℤ × ℤ)}
    {methods : List (SubSearch (AsyncHalvingSearch ι) ι)},
    l.mapM (fun b => newBracket config b.1 b.2.1 b.2.2) = .ok methods → (∀ b ∈ l, 0 ≤ b.1) ∧
      methods = l.map fun b => ⟨asyncHalvingMethod,
        newAsyncHalvingSearch (bracketConfig config b.1 b.2.1 b.2.2)⟩ := by
  intro l
  induction l with
  | nil =>
    intro methods h
    cases h
    exact ⟨by simp, rfl⟩
  | cons b l ih =>
    intro methods h
    rw [List.mapM_cons] at h
    obtain ⟨first, hfirst, hrest⟩ := bind_eq_ok.mp h
    obtain ⟨rest, hrest', heq⟩ := bind_eq_ok.mp hrest
    cases heq
    obtain ⟨hpos, rfl⟩ := ih hrest'
    unfold newBracket at hfirst
    split at hfirst
    · cases hfirst
    · rename_i hb
      cases hfirst
      refine ⟨fun b' hb' => ?_, rfl⟩
      rcases List.mem_cons.mp hb' with rfl | hb'
      · exact not_lt.mp hb
      · exact hpos b' hb'

/-- What the brackets of an asynchronous search are given. -/
theorem newAdaptiveASHASearch_spec {config : AdaptiveASHAConfig}
    {s : TournamentSearch (AsyncHalvingSearch ι) ι} (h : newAdaptiveASHASearch config = .ok s) :
    ∃ (brackets numbers : List ℤ) (l : List (ℤ × ℤ × ℤ)), ashaBrackets config = .ok brackets ∧
      (∀ b ∈ brackets, 0 ≤ b) ∧
      getBracketMaxTrials config.maxTrials config.divisor brackets = .ok numbers ∧
      l.map (·.1) = brackets ∧ l.map (·.2.1) = numbers ∧
      l.map (·.2.2) =
        getBracketMaxConcurrentTrials config.maxConcurrentTrials config.divisor numbers ∧
      s = newTournamentSearch (l.map fun b => ⟨asyncHalvingMethod,
        newAsyncHalvingSearch (bracketConfig config b.1 b.2.1 b.2.2)⟩) := by
  obtain ⟨brackets, hbrackets, hrest⟩ := bind_eq_ok.mp h
  obtain ⟨numbers, hnumbers, hrest'⟩ := bind_eq_ok.mp hrest
  obtain ⟨methods, hmethods, heq⟩ := bind_eq_ok.mp hrest'
  cases heq
  obtain ⟨hpos, rfl⟩ := mapM_newBracket hmethods
  have hlen := (getBracketMaxTrials_spec hnumbers).1
  have hlimits := length_getBracketMaxConcurrentTrials config.maxConcurrentTrials config.divisor numbers
  have hfst : (brackets.zip (numbers.zip (getBracketMaxConcurrentTrials config.maxConcurrentTrials
      config.divisor numbers))).map Prod.fst = brackets :=
    List.map_fst_zip (by rw [List.length_zip, hlimits, min_self, hlen])
  have hsnd : (brackets.zip (numbers.zip (getBracketMaxConcurrentTrials config.maxConcurrentTrials
      config.divisor numbers))).map Prod.snd = numbers.zip (getBracketMaxConcurrentTrials
        config.maxConcurrentTrials config.divisor numbers) :=
    List.map_snd_zip (by rw [List.length_zip, hlimits, min_self, hlen])
  refine ⟨brackets, numbers, _, hbrackets, fun b hb => ?_, hnumbers, hfst, ?_, ?_, rfl⟩
  · rw [← hfst] at hb
    obtain ⟨p, hp, rfl⟩ := List.mem_map.mp hb
    exact hpos p hp
  · rw [← Function.comp_def, ← List.map_map, hsnd]
    exact List.map_fst_zip hlimits.ge
  · rw [← Function.comp_def, ← List.map_map, hsnd]
    exact List.map_snd_zip hlimits.le

/-- The numbers of trials handed to the brackets of an asynchronous search, and their limits. -/
def TournamentSearch.maxTrials (s : TournamentSearch (AsyncHalvingSearch ι) ι) : List ℤ :=
  s.subSearches.map (·.state.config.maxTrials)

def TournamentSearch.maxConcurrentTrials (s : TournamentSearch (AsyncHalvingSearch ι) ι) : List ℤ :=
  s.subSearches.map (·.state.config.maxConcurrentTrials)

/-- The numbers of trials handed to the brackets of a simple search. -/
def TournamentSearch.startTrials (s : TournamentSearch (SyncHalvingSearch ι) ι) : List ℤ :=
  s.subSearches.map fun sub => (sub.state.rung 0).startTrials

omit [DecidableEq ι] in
/-- A simple search starts with the trials it is given. -/
theorem startTrials_simple {config : SyncHalvingConfig} {trials : ℤ} (hr : 1 ≤ config.numRungs)
    (ht : 1 ≤ trials) :
    ((newSyncHalvingSimpleSearch (ι := ι) config trials).rung 0).startTrials = trials := by
  obtain ⟨n, hn⟩ : ∃ n, config.numRungs.toNat = n + 1 := ⟨config.numRungs.toNat - 1, by omega⟩
  rw [SyncHalvingSearch.rung, newSyncHalvingSimpleSearch]
  dsimp only
  rw [hn, List.range_succ_eq_map, List.map_cons]
  dsimp only
  rw [linkRungs_start, newRung]
  dsimp only
  rw [pow_zero, div_one, toInt_of_nonneg (by exact_mod_cast (by omega : 0 ≤ trials)), Int.floor_intCast]
  omega

/-- What the brackets of a simple search are given. -/
theorem newAdaptiveSimpleSearch_spec {config : AdaptiveSimpleConfig} (hv : config.validate = [])
    {s : TournamentSearch (SyncHalvingSearch ι) ι} (h : newAdaptiveSimpleSearch config = .ok s) :
    s = newTournamentSearch s.subSearches ∧ (∀ sub ∈ s.subSearches, sub.method = syncHalvingMethod) ∧
      (∀ n ∈ s.startTrials, 1 ≤ n) ∧
      s.startTrials.sum = max config.maxTrials s.subSearches.length := by
  obtain ⟨-, htrials, -, -, hmode, hrungs⟩ := AdaptiveSimpleConfig.validate_iff.mp hv
  obtain ⟨modeFunc, hparse, hmodes⟩ := parseAdaptiveMode_spec hmode
  obtain ⟨modeFunc', hparse', hrest⟩ := bind_eq_ok.mp h
  cases hparse.symm.trans hparse'
  cases hrest
  obtain ⟨hne, hone⟩ := hmodes config.maxRungs hrungs
  have hperm := sortBrackets_perm (modeFunc config.maxRungs)
  have hone' : ∀ b ∈ sortBrackets (modeFunc config.maxRungs), 1 ≤ b := fun b hb =>
    hone b (hperm.subset hb)
  have hlen : 0 < (sortBrackets (modeFunc config.maxRungs)).length := by
    rw [hperm.length_eq]
    exact List.length_pos_iff.mpr hne
  generalize sortBrackets (modeFunc config.maxRungs) = brackets at hone' hlen ⊢
  have hstart : ∀ t : TournamentSearch (SyncHalvingSearch ι) ι,
      t = newTournamentSearch (brackets.mapIdx fun i numRungs => ⟨syncHalvingMethod,
        newSyncHalvingSimpleSearch ⟨config.metric, config.smallerIsBetter, numRungs,
          config.maxLength, ⟨.records, 0⟩, config.divisor⟩
          (max (maxTrials config.maxTrials brackets.length i) 1)⟩) →
      t.startTrials = (List.range brackets.length).map
        fun (i : ℕ) => max (maxTrials config.maxTrials brackets.length i) 1 := by
    rintro t rfl
    refine List.ext_getElem? fun i => ?_
    rw [TournamentSearch.startTrials, newTournamentSearch]
    rw [List.getElem?_map, List.getElem?_mapIdx, List.getElem?_map]
    rcases lt_or_ge i brackets.length with hi | hi
    · rw [List.getElem?_eq_getElem hi, List.getElem?_range hi]
      exact congrArg some (startTrials_simple (hone' _ (List.getElem_mem hi)) (le_max_right _ _))
    · rw [List.getElem?_eq_none hi, List.getElem?_eq_none (by simpa using hi)]
      rfl
  refine ⟨rfl, fun sub hsub => ?_, fun n hn => ?_, ?_⟩
  · obtain ⟨i, hi, rfl⟩ := List.mem_mapIdx.mp hsub
    rfl
  · rw [hstart _ rfl] at hn
    obtain ⟨i, -, rfl⟩ := List.mem_map.mp hn
    exact le_max_right _ _
  · rw [hstart _ rfl, sum_maxTrials htrials hlen]
    simp [newTournamentSearch]

end Searches

/-- Sixteen trials, with a limit of three. -/
def sixteenTrials : AdaptiveASHAConfig where
  metric := "loss"
  smallerIsBetter := true
  maxLength := newLengthInBatches 100
  maxTrials := 16
  bracketRungs := []
  divisor := 4
  mode := standardMode
  maxRungs := 5
  maxConcurrentTrials := 3

theorem exists_of_trials (config : AdaptiveASHAConfig) (trials limits : List ℤ)
    (h : (newAdaptiveASHASearch (ι := ℕ) config).toOption.map
      (fun s => (s.maxTrials, s.maxConcurrentTrials)) = some (trials, limits)) :
    ∃ s : TournamentSearch (AsyncHalvingSearch ℕ) ℕ, newAdaptiveASHASearch config = .ok s ∧
      s.maxTrials = trials ∧ s.maxConcurrentTrials = limits := by
  cases hs : newAdaptiveASHASearch (ι := ℕ) config with
  | error fault =>
    rw [hs] at h
    cases h
  | ok s =>
    rw [hs] at h
    simp only [Except.toOption, Option.map_some, Option.some.injEq, Prod.mk.injEq] at h
    exact ⟨s, rfl, h.1, h.2⟩

end Determined.Searcher
