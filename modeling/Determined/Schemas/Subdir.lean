import Determined.Schemes.LexicalPath

/-! The `a_is_subdir_of_b` check of the schema extensions, in the master
    (`pkg/schemas/extensions/compare_properties.go`) and in the client
    (`determined_common/schemas/extensions.py`). -/

namespace Determined.Schemas
open Determined.Schemes

/-- Python keeps two slashes at the front of a path, but not three. -/
def initialSlashes (p : Path) : ℕ :=
  if "//".toList.isPrefixOf p && !"///".toList.isPrefixOf p then 2 else 1

def normpath (p : Path) : Path :=
  if p.isAbs then Path.rooted (initialSlashes p) p.route.down else Path.unrooted p.route

/-- The check is the same in both languages, but for how they normalize paths. -/
def checkSubdir (norm : Path → Path) (a b : Path) : Bool :=
  let aPath := norm a
  let bPath := norm b
  if aPath.isAbs then bPath.isPrefixOf aPath
  else !"..".toList.isPrefixOf aPath

/-- The check of the master. -/
def isSubdir (a b : Path) : Bool := checkSubdir Path.clean a b

/-- The check of the client. -/
def isSubdirPython (a b : Path) : Bool := checkSubdir normpath a b

/-! ### What is accepted -/

/-- An absolute path is a directory or lies below it; another one does not climb. -/
def Below (a b : Path) : Prop :=
  if a.isAbs then b.isAbs ∧ b.route.down <+: a.route.down else a.route.up = 0

/-- Paths are written as their routes, with some slashes at the front of a rooted one. -/
def Normalizes (norm : Path → Path) : Prop :=
  ∀ p, ∃ k, norm p = if p.isAbs then Path.rooted (k + 1) p.route.down else Path.unrooted p.route

theorem normalizes_clean : Normalizes Path.clean := fun _ => ⟨0, rfl⟩

theorem normalizes_normpath : Normalizes normpath := by
  intro p
  rw [normpath, initialSlashes]
  split_ifs
  exacts [⟨1, rfl⟩, ⟨0, rfl⟩, ⟨0, rfl⟩]

variable {norm : Path → Path} {a b : Path}

theorem Normalizes.isAbs (hnorm : Normalizes norm) (p : Path) : (norm p).isAbs = p.isAbs := by
  obtain ⟨k, hk⟩ := hnorm p
  rw [hk]
  cases h : p.isAbs
  · exact Path.isAbs_unrooted p.isName_down
  · exact Path.isAbs_rooted k

/-- What does not start with a slash is no prefix of what does. -/
theorem Normalizes.not_prefix (hnorm : Normalizes norm) (ha : a.isAbs = true)
    (hb : b.isAbs = false) : ¬ norm b <+: norm a := by
  rintro ⟨rest, hrest⟩
  obtain ⟨c, p, hc, hslash, -⟩ := Path.unrooted_eq b.isName_down
  obtain ⟨k, hk⟩ := hnorm b
  have hroot := hnorm.isAbs a
  rw [hb] at hk
  rw [← hrest, hk, ha] at hroot
  simp only [Bool.false_eq_true, if_false, hc, List.cons_append, Path.isAbs,
    List.head?_cons] at hroot
  exact hslash (Option.some.inj (beq_iff_eq.mp hroot))

/-- CORRECT: the check accepts a path only if it is below the other one, unless it goes on from that
    one in the middle of a name. -/
theorem checkSubdir_sound_iff (hnorm : Normalizes norm) (a b : Path) :
    (checkSubdir norm a b = true → Below a b) ↔
      ¬ (a.isAbs = true ∧ b.route.down ≠ [] ∧ Path.GoesOn (norm b) (norm a)) := by
  obtain ⟨j, ha⟩ := hnorm a
  obtain ⟨k, hb⟩ := hnorm b
  simp only [checkSubdir, hnorm.isAbs, Below]
  cases habs : a.isAbs with
  | false =>
    rw [habs] at ha
    simp only [Bool.false_eq_true, if_false, false_and, not_false_eq_true, iff_true] at ha ⊢
    intro haccepted
    by_contra hup
    obtain ⟨-, -, -, -, hdots⟩ := Path.unrooted_eq a.isName_down
    have hprefix := List.isPrefixOf_iff_prefix.mpr (hdots (Nat.pos_of_ne_zero hup))
    rw [ha] at haccepted
    simp_all
  | true =>
    rw [habs] at ha
    simp only [if_true, true_and, List.isPrefixOf_iff_prefix] at ha ⊢
    cases hbabs : b.isAbs with
    | false =>
      have hnot := hnorm.not_prefix habs hbabs
      exact iff_of_true (fun h => absurd h hnot) fun ⟨_, hgoes⟩ => hnot hgoes.isPrefix
    | true =>
      rw [hbabs] at hb
      simp only [if_true, true_and] at hb ⊢
      by_cases hdown : b.route.down = []
      · simp [hdown]
      · have hiff : norm b <+: norm a → (b.route.down <+: a.route.down ↔
            ¬ Path.GoesOn (norm b) (norm a)) := by
          rw [ha, hb]
          exact Path.prefix_iff_not_goesOn b.isName_down a.isName_down hdown
        constructor
        · rintro hsound ⟨-, hgoes⟩
          exact (hiff hgoes.isPrefix).mp (hsound hgoes.isPrefix) hgoes
        · intro hnot hprefix
          exact (hiff hprefix).mpr fun hgoes => hnot ⟨hdown, hgoes⟩

/-! ### Slashes at the front -/

/-- Only one of two absolute paths starts with two slashes, and the check of the master, which drops
    one of them, accepts; the client accepts too if the other path is the root. -/
def SlashesAlike (a b : Path) : Prop :=
  a.isAbs = true → initialSlashes a = initialSlashes b ∨ ¬ b.clean <+: a.clean ∨
    b.clean = ['/'] ∧ initialSlashes b = 1

theorem initialSlashes_eq (p : Path) : ∃ k ≤ 1, initialSlashes p = k + 1 := by
  rw [initialSlashes]
  split
  exacts [⟨1, le_rfl, rfl⟩, ⟨0, zero_le_one, rfl⟩]

/-- The two languages check alike exactly in these cases. -/
theorem isSubdir_agrees_iff (a b : Path) :
    isSubdir a b = isSubdirPython a b ↔ SlashesAlike a b := by
  simp only [isSubdir, isSubdirPython, checkSubdir, SlashesAlike, normalizes_clean.isAbs,
    normalizes_normpath.isAbs]
  cases ha : a.isAbs with
  | false => simp [Path.clean, normpath, ha]
  | true =>
    simp only [if_true, true_implies]
    rw [Bool.eq_iff_iff, List.isPrefixOf_iff_prefix, List.isPrefixOf_iff_prefix]
    cases hb : b.isAbs with
    | false =>
      have hgo := normalizes_clean.not_prefix ha hb
      exact iff_of_true (iff_of_false hgo (normalizes_normpath.not_prefix ha hb))
        (.inr (.inl hgo))
    | true =>
      obtain ⟨j, hj₁, hj⟩ := initialSlashes_eq a
      obtain ⟨k, -, hk⟩ := initialSlashes_eq b
      simp only [Path.clean, normpath, ha, hb, if_true, hj, hk]
      rcases eq_or_ne j k with rfl | hne
      · rw [Path.rooted_eq_append j, Path.rooted_eq_append j, List.prefix_append_right_inj]
        simp
      · have hroot : Path.rooted 1 b.route.down = ['/'] ↔ b.route.down = [] := by
          cases hdown : b.route.down with
          | nil => simp [Path.rooted]
          | cons e es =>
            have hname := b.isName_down e (hdown ▸ List.mem_cons_self ..)
            simp [Path.rooted, hname.ne_nil]
        rw [hroot]
        constructor
        · intro hiff
          by_cases hgo : Path.rooted 1 b.route.down <+: Path.rooted 1 a.route.down
          · rcases Path.slashes_of_prefix b.isName_down a.isName_down (hiff.mp hgo) with h | h
            · exact absurd h.symm hne
            · exact .inr (.inr ⟨h.1, by omega⟩)
          · exact .inr (.inl hgo)
        · rintro (h | hgo | ⟨hdown, hk⟩)
          · omega
          · refine iff_of_false hgo fun hpython => ?_
            rcases Path.slashes_of_prefix b.isName_down a.isName_down hpython with h | h
            · exact hne h.symm
            · rw [h.1] at hgo
              exact hgo (Path.root_prefix 0)
          · obtain rfl : k = 0 := by omega
            rw [hdown]
            exact iff_of_true (Path.root_prefix 0) (Path.root_prefix j)

end Determined.Schemas
