import Determined.Model.StorageConfig
import Determined.Schemas.Subdir

/-! Shared storage and its mount.

    The directory that a storage path names on the host is mounted with the host path, and the
    container is told where to find it there. That this is inside the mount is checked by comparing
    prefixes of text, which a sibling directory passes whose name starts like that of the host
    path; so does a relative path that leaves the host path and leads back to a directory named so. -/

namespace Determined.Model
open Determined.Schemes

/-- The names on the way to the mount point. -/
def mountDir : List Path := defaultSharedFSContainerPath.route.down

namespace SharedFSConfig

variable (s : SharedFSConfig)

/-- The names on the way to the host directory that is mounted. -/
def hostDir : List Path := s.hostPath.route.down

/-- The names on the way to the host directory that is used. -/
def storageDir : List Path :=
  match s.storagePath with
  | none => s.hostDir
  | some storagePath =>
    if storagePath.isAbs then storagePath.route.down
    else (s.hostPath ++ '/' :: storagePath).route.down

/-- The container uses the image of the host directory under the mount. -/
def InMount : Prop :=
  ∃ rest, s.pathInContainer = .ok (Path.rooted 1 (mountDir ++ rest)) ∧
    s.storageDir = s.hostDir ++ rest

/-- An absolute storage path is below the host path, name by name. A relative one does not climb,
    unless what it descends to is named like the mount, as the host directory is. -/
def StaysBelow : Prop :=
  match s.storagePath with
  | none => True
  | some storagePath =>
    if storagePath.isAbs then s.hostDir <+: storagePath.route.down
    else storagePath.route.up = 0 ∨ mountDir <+: storagePath.route.down ∧
      s.hostDir.take (s.hostDir.length - storagePath.route.up) ++ mountDir = s.hostDir

instance : Decidable s.StaysBelow := by
  unfold StaysBelow
  split <;> infer_instance

variable {s}

theorem isAbs_of_validate (h : s.validate = []) : s.hostPath.isAbs = true := by
  rw [validate] at h
  split at h
  · simp at h
  · rename_i habs
    simpa using habs

/-- What is joined to the mount point is read below it. -/
theorem join_mount {p : Path} {r : Route} (h : p.route = r) :
    Path.join defaultSharedFSContainerPath p =
      Path.rooted 1 (mountDir.take (mountDir.length - r.up) ++ r.down) := by
  subst h
  have habs : Path.isAbs (defaultSharedFSContainerPath ++ '/' :: p) = true := rfl
  rw [Path.join, if_neg (by decide), Path.clean, if_pos habs, Path.route_append]
  rfl

theorem rooted_injective {es fs : List Path} (hes : ∀ e ∈ es, Path.IsName e)
    (hfs : ∀ f ∈ fs, Path.IsName f) (h : Path.rooted 1 es = Path.rooted 1 fs) : es = fs := by
  have hroute := congrArg Path.route h
  rw [Path.route_rooted hes, Path.route_rooted hfs] at hroute
  exact (Route.mk.inj hroute).2

theorem length_mountDir : mountDir.length = 1 := rfl

theorem isName_mountDir : ∀ e ∈ mountDir, Path.IsName e := Path.isName_down _

theorem isName_storageDir (s : SharedFSConfig) : ∀ e ∈ s.storageDir, Path.IsName e := by
  rw [storageDir, hostDir]
  split
  · exact Path.isName_down _
  · split
    · exact Path.isName_down _
    · exact Path.isName_down _

/-- What is found in the container is compared name by name. -/
theorem inMount_iff_of_eq {es : List Path} (hes : ∀ e ∈ es, Path.IsName e)
    (h : s.pathInContainer = .ok (Path.rooted 1 es)) :
    s.InMount ↔ ∃ rest, es = mountDir ++ rest ∧ s.storageDir = s.hostDir ++ rest := by
  rw [InMount, h]
  refine exists_congr fun rest => and_congr_left fun hstorage => ?_
  have hrest : ∀ e ∈ mountDir ++ rest, Path.IsName e := by
    intro e he
    rcases List.mem_append.mp he with he | he
    · exact isName_mountDir e he
    · exact s.isName_storageDir e (hstorage ▸ List.mem_append_right _ he)
  exact ⟨fun heq => rooted_injective hes hrest (Except.ok.inj heq), fun heq => by rw [heq]⟩

theorem inMount_iff_of_isAbs {p : Path} (hhost : s.hostPath.isAbs = true)
    (hstorage : s.storagePath = some p) (habs : p.isAbs = true) :
    s.InMount ↔ s.hostDir <+: p.route.down := by
  obtain ⟨common, hbase, htarget⟩ := Path.parting_spec s.hostPath.route.down p.route.down
  have hleft := Path.parting_eq_nil_iff s.hostPath.route.down p.route.down
  generalize hparting : Path.parting s.hostPath.route.down p.route.down = left at *
  have hnames : ∀ e ∈ left.2, Path.IsName e := fun e he =>
    p.isName_down e (htarget ▸ List.mem_append_right _ he)
  have hroute : (Path.unrooted ⟨left.1.length, left.2⟩).route = ⟨left.1.length, left.2⟩ :=
    Path.route_unrooted hnames
  have hpath : s.pathInContainer =
      .ok (Path.rooted 1 (mountDir.take (mountDir.length - left.1.length) ++ left.2)) := by
    simp only [pathInContainer, hstorage, habs, if_true, Path.relative, hhost, hparting,
      join_mount hroute]
  have hes : ∀ e ∈ mountDir.take (mountDir.length - left.1.length) ++ left.2, Path.IsName e := by
    intro e he
    rcases List.mem_append.mp he with he | he
    · exact isName_mountDir e (List.mem_of_mem_take he)
    · exact hnames e he
  have hdir : s.storageDir = p.route.down := by
    simp only [storageDir, hstorage, habs, if_true]
  rw [inMount_iff_of_eq hes hpath, hdir]
  constructor
  · rintro ⟨rest, -, hrest⟩
    exact ⟨rest, hrest.symm⟩
  · intro hprefix
    have hnil := hleft.mpr hprefix
    refine ⟨left.2, by simp [hnil], ?_⟩
    rw [hnil, List.append_nil] at hbase
    rw [hostDir, hbase]
    exact htarget

theorem inMount_iff_of_not_isAbs {p : Path} (hstorage : s.storagePath = some p)
    (habs : p.isAbs = false) : s.InMount ↔ p.route.up = 0 ∨ mountDir <+: p.route.down ∧
      s.hostDir.take (s.hostDir.length - p.route.up) ++ mountDir = s.hostDir := by
  have hpath : s.pathInContainer =
      .ok (Path.rooted 1 (mountDir.take (mountDir.length - p.route.up) ++ p.route.down)) := by
    simp only [pathInContainer, hstorage, habs, Bool.false_eq_true, if_false, join_mount rfl]
  have hes : ∀ e ∈ mountDir.take (mountDir.length - p.route.up) ++ p.route.down,
      Path.IsName e := by
    intro e he
    rcases List.mem_append.mp he with he | he
    · exact isName_mountDir e (List.mem_of_mem_take he)
    · exact p.isName_down e he
  have hdir : s.storageDir =
      s.hostDir.take (s.hostDir.length - p.route.up) ++ p.route.down := by
    simp only [storageDir, hstorage, habs, Bool.false_eq_true, if_false, Path.route_append]
    rfl
  rw [inMount_iff_of_eq hes hpath, hdir, length_mountDir]
  by_cases hup : p.route.up = 0
  · simp only [hup, Nat.sub_zero, true_or, iff_true, List.take_length]
    exact ⟨p.route.down, by rw [← length_mountDir, List.take_length], rfl⟩
  · have hzero : 1 - p.route.up = 0 := by omega
    simp only [hup, false_or, hzero, List.take_zero, List.nil_append]
    constructor
    · rintro ⟨rest, hdown, hrest⟩
      rw [hdown, ← List.append_assoc] at hrest
      exact ⟨⟨rest, hdown.symm⟩, List.append_cancel_right hrest⟩
    · rintro ⟨⟨rest, hdown⟩, hhost⟩
      refine ⟨rest, hdown.symm, ?_⟩
      rw [← hdown, ← List.append_assoc, hhost]

theorem inMount_iff (h : s.validate = []) : s.InMount ↔ s.StaysBelow := by
  rw [StaysBelow]
  split
  · rename_i hstorage
    simp only [InMount, storageDir, pathInContainer, hstorage, iff_true]
    exact ⟨[], by decide +kernel, (List.append_nil _).symm⟩
  · rename_i p hstorage
    split
    · rename_i habs
      exact inMount_iff_of_isAbs (isAbs_of_validate h) hstorage habs
    · rename_i habs
      exact inMount_iff_of_not_isAbs hstorage (by simpa using habs)

end SharedFSConfig

open Determined.Schemas

/-- CORRECT: shared storage stays inside its mount exactly if the storage path stays below the host
    path, and the checks of a subdirectory are sound exactly where no path goes on from the base in
    the middle of a name. -/
theorem paths_contained_iff (s : SharedFSConfig) (a b : Path) :
    (s.validate = [] → (s.InMount ↔ s.StaysBelow)) ∧
      ((isSubdir a b = true → Below a b) ↔
        ¬ (a.isAbs = true ∧ b.route.down ≠ [] ∧ Path.GoesOn b.clean a.clean)) ∧
      ((isSubdirPython a b = true → Below a b) ↔
        ¬ (a.isAbs = true ∧ b.route.down ≠ [] ∧ Path.GoesOn (normpath b) (normpath a))) :=
  ⟨SharedFSConfig.inMount_iff, checkSubdir_sound_iff normalizes_clean a b,
    checkSubdir_sound_iff normalizes_normpath a b⟩

/-- Checkpoints are stored in a directory of the host path. -/
def nestedStorage : SharedFSConfig := ⟨"/host".toList, some "/host/./checkpoints".toList⟩

theorem paths_contained_nested :
    nestedStorage.InMount ∧ Below "/host/a".toList "/host".toList := by
  obtain ⟨hmount, hbelow, _⟩ :=
    paths_contained_iff nestedStorage "/host/a".toList "/host".toList
  refine ⟨(hmount (by decide +kernel)).mpr (by decide +kernel), hbelow.mpr ?_ (by decide +kernel)⟩
  rintro ⟨_, _, c, rest, hc, h⟩
  have hcancel : "/host".toList ++ c :: rest = "/host".toList ++ "/a".toList := h.symm
  exact hc (List.cons.inj (List.append_cancel_left hcancel)).1

/-- Checkpoints are stored in a sibling of the host path. -/
def siblingStorage : SharedFSConfig := ⟨"/host".toList, some "/hostile".toList⟩

/-- The sibling is accepted, and the container is told to use a directory outside the mount. -/
theorem sibling_outside_mount : siblingStorage.validate = [] ∧
    siblingStorage.pathInContainer = .ok "/hostile".toList ∧ ¬ siblingStorage.InMount ∧
      isSubdir "/hostile".toList "/host".toList = true ∧
        isSubdirPython "/hostile".toList "/host".toList = true ∧
          ¬ Below "/hostile".toList "/host".toList := by
  have hvalid : siblingStorage.validate = [] := by decide +kernel
  refine ⟨hvalid, by decide +kernel, ?_, by decide +kernel, by decide +kernel, ?_⟩
  · rw [SharedFSConfig.inMount_iff hvalid]
    decide +kernel
  · rw [Below]
    decide +kernel

end Determined.Model
