import Playground.Library.Runs
import Playground.RustAnalyzer.ReferenceCrates

/-!
# Loading the local files

`load_local_files` gives every file of the local crate an id and stores the texts under the ids. The id
of a file that is new is the one after the last id of the source roots, which are replaced after the
loop only: two new files get the same one. Every file with the name `lib` gets the id `0`, in whichever
directory it is. `loadsLocalFiles_iff` says when each path has its own id and text.

Not formalized here: what reads the files.
-/

set_option autoImplicit false
set_option relaxedAutoImplicit false

namespace Playground.RustAnalyzer

open Library

/-! ### Names -/

/-- The name of a path is that of the root of a crate. -/
def NameAndExtension.IsLib (vfs : NameAndExtension) (path : VfsPath) : Prop :=
  ∃ extension, vfs.nameAndExtension path = some ("lib".toList, extension)

theorem isLib_getCratePath (vfs : NameAndExtension) (name : Str) :
    vfs.IsLib (getCratePath name) :=
  vfs.name_crate name

/-! ### File sets -/

section Sets

variable [FileSets]

@[simp] theorem fileForPath_insert (fileSet : FileSet) (fileId : FileId) (path other : VfsPath) :
    (fileSet.insert fileId path).fileForPath other =
      if other = path then some fileId else fileSet.fileForPath other :=
  FileSets.fileForPath_insert fileSet fileId path other

@[simp] theorem fileForPath_default (path : VfsPath) :
    FileSet.default.fileForPath path = none :=
  FileSets.fileForPath_default path

@[simp] theorem mem_iter_insert {fileSet : FileSet} {fileId other : FileId} {path : VfsPath} :
    other ∈ (fileSet.insert fileId path).iter ↔ other = fileId ∨ other ∈ fileSet.iter :=
  FileSets.mem_iter_insert fileSet fileId path other

@[simp] theorem notMem_iter_default (fileId : FileId) : fileId ∉ FileSet.default.iter :=
  FileSets.notMem_iter_default fileId

/-- A set of files that have been inserted one after the other, with the ids of their paths. -/
theorem fileForPath_foldl (fileIdOf : VfsPath → FileId) (files : List (Str × Str))
    (start : FileSet) (path : VfsPath) :
    (files.foldl (fun fileSet file ↦ fileSet.insert (fileIdOf file.1) file.1) start).fileForPath path
      = if path ∈ files.map Prod.fst then some (fileIdOf path) else start.fileForPath path := by
  induction files generalizing start with
  | nil => simp
  | cons file rest ih =>
    rw [List.foldl_cons, ih, fileForPath_insert, List.map_cons]
    by_cases hrest : path ∈ rest.map Prod.fst
    · rw [if_pos hrest, if_pos (List.mem_cons_of_mem _ hrest)]
    · by_cases heq : path = file.1
      · subst heq
        simp [hrest]
      · simp [hrest, heq]

theorem mem_iter_foldl (fileIdOf : VfsPath → FileId) (files : List (Str × Str)) (start : FileSet)
    (fileId : FileId) :
    fileId ∈ (files.foldl (fun fileSet file ↦ fileSet.insert (fileIdOf file.1) file.1) start).iter ↔
      (∃ file ∈ files, fileIdOf file.1 = fileId) ∨ fileId ∈ start.iter := by
  induction files generalizing start with
  | nil => simp
  | cons file rest ih =>
    rw [List.foldl_cons, ih, mem_iter_insert, List.exists_mem_cons_iff, @eq_comm _ fileId,
      or_assoc, or_left_comm]

/-- The files of a source root that is created are one. -/
theorem fileForPath_createSourceRoot {name : Str} {fileId found : FileId} {path : VfsPath}
    (hfound : (createSourceRoot name fileId).fileForPath path = some found) :
    path = getCratePath name ∧ found = fileId := by
  rw [createSourceRoot, fileForPath_insert] at hfound
  split_ifs at hfound with heq
  · exact ⟨heq, (Option.some.inj hfound).symm⟩
  · rw [fileForPath_default] at hfound
    cases hfound

theorem mem_iter_createSourceRoot {name : Str} {fileId other : FileId} :
    other ∈ (createSourceRoot name fileId).iter ↔ other = fileId := by
  simp [createSourceRoot]

/-- A path that is found in a source root has an id of that root. -/
def FileSet.Consistent (fileSet : FileSet) : Prop :=
  ∀ path fileId, fileSet.fileForPath path = some fileId → fileId ∈ fileSet.iter

theorem consistent_createSourceRoot (name : Str) (fileId : FileId) :
    (createSourceRoot name fileId).Consistent := by
  intro path found hfound
  rw [mem_iter_createSourceRoot]
  exact (fileForPath_createSourceRoot hfound).2

end Sets

section Worlds

variable [FileSets] [CrateGraphs]

/-! ### Ids -/

/-- The id of a file with the name `lib`. -/
theorem localFileId_of_isLib {vfs : NameAndExtension} (world : WorldState) {path : VfsPath}
    (hlib : vfs.IsLib path) : world.localFileId vfs path = localFileId₀ := by
  obtain ⟨extension, hname⟩ := hlib
  rw [WorldState.localFileId, hname]
  exact if_pos rfl

/-- The id of another file. -/
theorem localFileId_of_not_isLib {vfs : NameAndExtension} (world : WorldState) {path : VfsPath}
    (hlib : ¬ vfs.IsLib path) :
    world.localFileId vfs path = (world.fileIdFromPath path).getD world.nextFileId := by
  unfold WorldState.localFileId
  split
  · next name extension hname =>
    refine if_neg fun heq ↦ hlib ⟨extension, ?_⟩
    rw [hname, heq]
  · rfl

/-- The last id is at least every other one. -/
theorem le_lastFileId {world : WorldState} {root : FileSet} (hroot : root ∈ world.sourceRoots)
    {fileId : FileId} (hmem : fileId ∈ root.iter) : fileId ≤ world.lastFileId := by
  have hle : fileId ≤ root.iter.sup id := Finset.le_sup (f := id) hmem
  unfold WorldState.lastFileId
  generalize world.sourceRoots = roots at hroot
  induction roots with
  | nil => cases hroot
  | cons first rest ih =>
    rw [List.map_cons, List.foldr_cons]
    rcases List.mem_cons.mp hroot with rfl | hrest
    · exact hle.trans (le_max_left _ _)
    · exact (ih hrest).trans (le_max_right _ _)

/-- The next id is that of no file. -/
theorem nextFileId_notMem {world : WorldState} {root : FileSet}
    (hroot : root ∈ world.sourceRoots) : world.nextFileId ∉ root.iter := by
  intro hmem
  exact Nat.not_succ_le_self _ (le_lastFileId hroot hmem)

/-- The next id is not that of the root of the local crate. -/
theorem nextFileId_ne (world : WorldState) : world.nextFileId ≠ localFileId₀ :=
  Nat.succ_ne_zero _

/-- What holds of the ids in every world: a dependency has files with the name `lib` only, none of
which has the id `0` or one of a local file, and no other local file has the id `0`. -/
structure Allocated (vfs : NameAndExtension) (world : WorldState) : Prop where
  consistent : ∀ root ∈ world.sourceRoots, root.Consistent
  local_ne : ∀ root ∈ world.sourceRoots.head?, ∀ path, ¬ vfs.IsLib path →
    root.fileForPath path ≠ some localFileId₀
  isLib : ∀ root ∈ world.sourceRoots.tail, ∀ path fileId,
    root.fileForPath path = some fileId → vfs.IsLib path
  dependency_ne : ∀ root ∈ world.sourceRoots.tail, localFileId₀ ∉ root.iter
  disjoint : ∀ root ∈ world.sourceRoots.head?, ∀ dependency ∈ world.sourceRoots.tail,
    Disjoint root.iter dependency.iter

/-- A path that is found is found in the first source root, or it is that of a dependency. -/
theorem fileIdFromPath_eq_some {vfs : NameAndExtension} {world : WorldState}
    (hallocated : Allocated vfs world) {root : FileSet} {dependencies : List FileSet}
    (hroots : world.sourceRoots = root :: dependencies) {path : VfsPath} (hlib : ¬ vfs.IsLib path) :
    world.fileIdFromPath path = root.fileForPath path := by
  rw [WorldState.fileIdFromPath, if_neg (by simp [hroots]), hroots, List.findSome?_cons]
  split
  · next fileId hfound => rw [hfound]
  · next hnone =>
    rw [hnone, List.findSome?_eq_none_iff]
    intro dependency hmem
    by_contra hfound
    obtain ⟨fileId, hfileId⟩ := Option.ne_none_iff_exists'.mp hfound
    have htail : dependency ∈ world.sourceRoots.tail := by rwa [hroots]
    exact hlib (hallocated.isLib dependency htail path fileId hfileId)

/-- A local file does not get the id of a dependency. -/
theorem localFileId_notMem {vfs : NameAndExtension} {world : WorldState}
    (hallocated : Allocated vfs world) {root dependency : FileSet} {dependencies : List FileSet}
    (hroots : world.sourceRoots = root :: dependencies) (hmem : dependency ∈ dependencies)
    (path : VfsPath) : world.localFileId vfs path ∉ dependency.iter := by
  have htail : dependency ∈ world.sourceRoots.tail := by rwa [hroots]
  by_cases hlib : vfs.IsLib path
  · rw [localFileId_of_isLib world hlib]
    exact hallocated.dependency_ne dependency htail
  · rw [localFileId_of_not_isLib world hlib, fileIdFromPath_eq_some hallocated hroots hlib]
    cases hfound : root.fileForPath path with
    | none => exact nextFileId_notMem (List.mem_of_mem_tail htail)
    | some fileId =>
      have hhead : root ∈ world.sourceRoots.head? := by rw [hroots]; rfl
      have hroot : root ∈ world.sourceRoots := by rw [hroots]; exact List.mem_cons_self
      have hfileId := hallocated.consistent root hroot path fileId hfound
      exact Finset.disjoint_left.mp (hallocated.disjoint root hhead dependency htail) hfileId

/-- Only the root of the crate has the id `0`. -/
theorem localFileId_ne {vfs : NameAndExtension} {world : WorldState}
    (hallocated : Allocated vfs world) (hroots : world.sourceRoots ≠ []) {path : VfsPath}
    (hlib : ¬ vfs.IsLib path) : world.localFileId vfs path ≠ localFileId₀ := by
  obtain ⟨root, dependencies, hcons⟩ := List.exists_cons_of_ne_nil hroots
  have hhead : root ∈ world.sourceRoots.head? := by rw [hcons]; rfl
  rw [localFileId_of_not_isLib world hlib, fileIdFromPath_eq_some hallocated hcons hlib]
  cases hfound : root.fileForPath path with
  | none => exact nextFileId_ne world
  | some fileId =>
    rintro rfl
    exact hallocated.local_ne root hhead path hlib hfound

/-! ### What a call keeps -/

/-- A dependency that is added has the next id. -/
theorem allocated_append {vfs : NameAndExtension} {world after : WorldState}
    (hallocated : Allocated vfs world) {name : Str}
    (hroots : after.sourceRoots =
      world.sourceRoots ++ [createSourceRoot name world.nextFileId]) : Allocated vfs after := by
  have hlast : ∀ root ∈ [createSourceRoot name world.nextFileId],
      root.Consistent ∧ (∀ path fileId, root.fileForPath path = some fileId → vfs.IsLib path) ∧
        localFileId₀ ∉ root.iter := by
    intro root hroot
    rw [List.mem_singleton.mp hroot]
    refine ⟨consistent_createSourceRoot name _, fun path fileId hfound ↦ ?_, ?_⟩
    · rw [(fileForPath_createSourceRoot hfound).1]
      exact isLib_getCratePath vfs name
    · rw [mem_iter_createSourceRoot]
      exact (nextFileId_ne world).symm
  cases hold : world.sourceRoots with
  | nil =>
    rw [hold, List.nil_append] at hroots
    exact {
      consistent := by
        rw [hroots]
        exact fun root hroot ↦ (hlast root hroot).1
      local_ne := by
        rw [hroots]
        rintro root hroot path hlib hfound
        obtain rfl : createSourceRoot name world.nextFileId = root := Option.some.inj hroot
        exact hlib ((hlast _ List.mem_cons_self).2.1 path _ hfound)
      isLib := by simp [hroots]
      dependency_ne := by simp [hroots]
      disjoint := by simp [hroots] }
  | cons first dependencies =>
    have htail : after.sourceRoots.tail =
        world.sourceRoots.tail ++ [createSourceRoot name world.nextFileId] := by
      rw [hroots, hold]
      rfl
    have hhead : after.sourceRoots.head? = world.sourceRoots.head? := by
      rw [hroots, hold]
      rfl
    exact {
      consistent := by
        rw [hroots]
        exact List.forall_mem_append.mpr
          ⟨hallocated.consistent, fun root hroot ↦ (hlast root hroot).1⟩
      local_ne := by
        rw [hhead]
        exact hallocated.local_ne
      isLib := by
        rw [htail]
        exact List.forall_mem_append.mpr
          ⟨hallocated.isLib, fun root hroot ↦ (hlast root hroot).2.1⟩
      dependency_ne := by
        rw [htail]
        exact List.forall_mem_append.mpr
          ⟨hallocated.dependency_ne, fun root hroot ↦ (hlast root hroot).2.2⟩
      disjoint := by
        rw [hhead, htail]
        intro root hroot
        refine List.forall_mem_append.mpr ⟨hallocated.disjoint root hroot, fun dependency hmem ↦ ?_⟩
        rw [List.mem_singleton.mp hmem, Finset.disjoint_left]
        intro fileId hfileId hnew
        rw [mem_iter_createSourceRoot] at hnew
        rw [hnew] at hfileId
        exact nextFileId_notMem (List.mem_of_mem_head? hroot) hfileId }

/-- Loading the default crates starts over. -/
theorem allocated_loadDefaultCrates {vfs : NameAndExtension} {world after : WorldState}
    {coreLib allocLib stdLib : Str}
    (hafter : world.loadDefaultCrates coreLib allocLib stdLib = some after) :
    Allocated vfs after := by
  have hroots : after.sourceRoots = [createSourceRoot localName localFileId₀,
      createSourceRoot coreName 1, createSourceRoot allocName 2,
      createSourceRoot stdName 3] := by
    simp only [WorldState.loadDefaultCrates, Option.bind_eq_bind, Option.bind_eq_some_iff] at hafter
    obtain ⟨_, -, _, -, _, -, _, -, _, -, _, -, hafter⟩ := hafter
    rw [← Option.some.inj hafter]
  have hall : ∀ root ∈ after.sourceRoots, ∃ name fileId, root = createSourceRoot name fileId := by
    rw [hroots]
    simp
  have htail : ∀ root ∈ after.sourceRoots.tail, ∃ name fileId,
      fileId ≠ localFileId₀ ∧ root = createSourceRoot name fileId := by
    rw [hroots, List.tail_cons]
    refine List.forall_mem_cons.mpr ⟨⟨_, 1, by decide, rfl⟩, List.forall_mem_cons.mpr
      ⟨⟨_, 2, by decide, rfl⟩, List.forall_mem_cons.mpr ⟨⟨_, 3, by decide, rfl⟩, nofun⟩⟩⟩
  have hdependency : ∀ root ∈ after.sourceRoots.tail, localFileId₀ ∉ root.iter := by
    intro root hroot
    obtain ⟨name, fileId, hne, rfl⟩ := htail root hroot
    rw [mem_iter_createSourceRoot]
    exact hne.symm
  have hlib : ∀ root ∈ after.sourceRoots, ∀ path fileId,
      root.fileForPath path = some fileId → vfs.IsLib path := by
    intro root hroot path found hfound
    obtain ⟨name, fileId, rfl⟩ := hall root hroot
    rw [(fileForPath_createSourceRoot hfound).1]
    exact isLib_getCratePath vfs name
  exact {
    consistent := by
      intro root hroot
      obtain ⟨name, fileId, rfl⟩ := hall root hroot
      exact consistent_createSourceRoot name fileId
    local_ne := fun root hroot path hnot hfound ↦
      hnot (hlib root (List.mem_of_mem_head? hroot) path _ hfound)
    isLib := fun root hroot ↦ hlib root (List.mem_of_mem_tail hroot)
    dependency_ne := hdependency
    disjoint := by
      rw [hroots]
      rintro root hroot dependency hmem
      obtain rfl : createSourceRoot _ localFileId₀ = root := Option.some.inj hroot
      rw [Finset.disjoint_left]
      intro fileId hfileId hshared
      rw [mem_iter_createSourceRoot.mp hfileId] at hshared
      exact hdependency dependency (by rwa [hroots]) hshared }

/-- The files of the local crate are replaced. -/
theorem loadLocalFiles_eq_some {vfs : NameAndExtension} {world after : WorldState}
    {files : List (Str × Str)} (hafter : world.loadLocalFiles vfs files = some after) :
    (∀ file ∈ files, file.1.head? = some '/') ∧ ∃ root dependencies,
      world.sourceRoots = root :: dependencies ∧ after = { world with
        sourceRoots := files.foldl (fun fileSet file ↦
          fileSet.insert (world.localFileId vfs file.1) file.1) FileSet.default :: dependencies
        texts := writeAll world.texts
          (files.map fun file ↦ (world.localFileId vfs file.1, file.2)) } := by
  unfold WorldState.loadLocalFiles at hafter
  split at hafter
  · next hall =>
    refine ⟨by simpa using hall, ?_⟩
    dsimp only at hafter
    split at hafter
    · cases hafter
    · next root dependencies hroots =>
      exact ⟨root, dependencies, hroots, (Option.some.inj hafter).symm⟩
  · cases hafter

theorem allocated_loadLocalFiles {vfs : NameAndExtension} {world after : WorldState}
    (hallocated : Allocated vfs world) {files : List (Str × Str)}
    (hafter : world.loadLocalFiles vfs files = some after) : Allocated vfs after := by
  obtain ⟨-, root, dependencies, hroots, rfl⟩ := loadLocalFiles_eq_some hafter
  have htail : dependencies = world.sourceRoots.tail := by rw [hroots]; rfl
  have hroot : ∀ dependency ∈ dependencies, dependency ∈ world.sourceRoots := by
    intro dependency hmem
    rw [hroots]
    exact List.mem_cons_of_mem _ hmem
  constructor
  · refine List.forall_mem_cons.mpr ⟨fun path fileId hfound ↦ ?_, fun dependency hmem ↦
      hallocated.consistent dependency (hroot dependency hmem)⟩
    rw [fileForPath_foldl] at hfound
    rw [mem_iter_foldl]
    split_ifs at hfound with hpath
    · obtain ⟨file, hfile, rfl⟩ := List.mem_map.mp hpath
      exact Or.inl ⟨file, hfile, Option.some.inj hfound⟩
    · rw [fileForPath_default] at hfound
      cases hfound
  · rintro first hfirst path hlib hfound
    obtain rfl := Option.some.inj hfirst
    rw [fileForPath_foldl] at hfound
    split_ifs at hfound with hpath
    · exact localFileId_ne hallocated (by simp [hroots]) hlib (Option.some.inj hfound)
    · rw [fileForPath_default] at hfound
      cases hfound
  · exact fun dependency hmem ↦ hallocated.isLib dependency (htail ▸ hmem)
  · exact fun dependency hmem ↦ hallocated.dependency_ne dependency (htail ▸ hmem)
  · rintro first hfirst dependency hmem
    obtain rfl := Option.some.inj hfirst
    rw [Finset.disjoint_left]
    intro fileId hfileId
    rw [mem_iter_foldl] at hfileId
    rcases hfileId with ⟨file, -, rfl⟩ | hnone
    · exact localFileId_notMem hallocated hroots hmem file.1
    · exact absurd hnone (notMem_iter_default fileId)

/-- An edge concerns the graph only. -/
theorem sourceRoots_addDepTo {world after : WorldState} {crateId : CrateId} {name : Str}
    (hafter : world.addDepTo crateId name = some after) :
    after.sourceRoots = world.sourceRoots := by
  simp only [WorldState.addDepTo, Option.bind_eq_bind, Option.bind_eq_some_iff] at hafter
  obtain ⟨_, -, _, -, _, -, hafter⟩ := hafter
  rw [← Option.some.inj hafter]

theorem sourceRoots_addManifestDep {crateId : CrateId} {state after : WorldState × List Str}
    {name : Str} (hafter : WorldState.addManifestDep crateId state name = some after) :
    after.1.sourceRoots = state.1.sourceRoots := by
  unfold WorldState.addManifestDep at hafter
  dsimp only at hafter
  split at hafter
  · simp only [Option.bind_eq_bind, Option.bind_eq_some_iff] at hafter
    obtain ⟨text, -, hafter⟩ := hafter
    split_ifs at hafter
    · obtain ⟨world, hworld, rfl⟩ := Option.map_eq_some_iff.mp hafter
      exact sourceRoots_addDepTo hworld
    · rw [← Option.some.inj hafter]
  · rw [← Option.some.inj hafter]

theorem sourceRoots_addNeededDep {name : Str} {crateId : CrateId}
    {state after : WorldState × List (Str × List Str)} {entry : Str × List Str}
    (hafter : WorldState.addNeededDep name crateId state entry = some after) :
    after.1.sourceRoots = state.1.sourceRoots := by
  unfold WorldState.addNeededDep at hafter
  dsimp only at hafter
  split_ifs at hafter
  · simp only [Option.bind_eq_bind, Option.bind_eq_some_iff] at hafter
    obtain ⟨_, -, _, -, _, -, hafter⟩ := hafter
    rw [← Option.some.inj hafter]
  · rw [← Option.some.inj hafter]

/-- A dependency is there already, or it is added behind the others. -/
theorem sourceRoots_loadDependency {world after : WorldState} {name : Str} {code : Option Str}
    {manifest : Option Manifest} {transitive : Bool} {needed : List Str}
    (hafter : world.loadDependency name code manifest transitive = some (after, needed)) :
    after.sourceRoots = world.sourceRoots ∨ after.sourceRoots =
      world.sourceRoots ++ [createSourceRoot name world.nextFileId] := by
  simp only [WorldState.loadDependency, Option.bind_eq_bind, Option.bind_eq_some_iff] at hafter
  obtain ⟨⟨found, fileId, crateId⟩, hfound, loaded, hloaded, ⟨listed, neededDeps⟩, hlisted,
    ⟨still, stillNeeded⟩, hstill, hafter⟩ := hafter
  have hdefault : loaded.sourceRoots = found.sourceRoots := by
    unfold WorldState.addDefaultDeps at hloaded
    split_ifs at hloaded
    · exact foldlM_invariant (motive := fun other ↦ other.sourceRoots = found.sourceRoots)
        (fun _ _ _ hbefore hstep ↦ (sourceRoots_addDepTo hstep).trans hbefore) hloaded rfl
    · rw [← Option.some.inj hloaded]
  have hmanifest : listed.sourceRoots = loaded.sourceRoots :=
    foldlM_invariant (motive := fun other ↦ other.1.sourceRoots = loaded.sourceRoots)
      (fun _ _ _ hbefore hstep ↦ (sourceRoots_addManifestDep hstep).trans hbefore) hlisted rfl
  have hneeded : still.sourceRoots = listed.sourceRoots :=
    foldlM_invariant (motive := fun other ↦ other.1.sourceRoots = listed.sourceRoots)
      (fun _ _ _ hbefore hstep ↦ (sourceRoots_addNeededDep hstep).trans hbefore) hstill rfl
  have hsame : after.sourceRoots = found.sourceRoots := by
    rw [← (Prod.mk.inj (Option.some.inj hafter)).1]
    exact hneeded.trans (hmanifest.trans hdefault)
  rw [hsame]
  unfold WorldState.findOrAddCrate at hfound
  split at hfound
  · left
    simp only [Option.bind_eq_bind, Option.bind_eq_some_iff] at hfound
    obtain ⟨_, -, hfound⟩ := hfound
    rw [← (Prod.mk.inj (Option.some.inj hfound)).1]
  · right
    simp only [Option.bind_eq_bind, Option.bind_eq_some_iff] at hfound
    obtain ⟨_, -, hfound⟩ := hfound
    rw [← (Prod.mk.inj (Option.some.inj hfound)).1]

/-- The invariant concerns the source roots only. -/
theorem Allocated.of_sourceRoots {vfs : NameAndExtension} {world after : WorldState}
    (hallocated : Allocated vfs world) (hroots : after.sourceRoots = world.sourceRoots) :
    Allocated vfs after := by
  constructor
  all_goals rw [hroots]
  · exact hallocated.consistent
  · exact hallocated.local_ne
  · exact hallocated.isLib
  · exact hallocated.dependency_ne
  · exact hallocated.disjoint

/-- Changing a text leaves the source roots alone. -/
theorem sourceRoots_update {world after : WorldState} {path content : Str}
    (hafter : world.update path content = some after) :
    after.sourceRoots = world.sourceRoots := by
  unfold WorldState.update at hafter
  split at hafter
  · split at hafter
    · rw [← Option.some.inj hafter]
    · split at hafter
      · cases hafter
      · rw [← Option.some.inj hafter]
  · cases hafter

/-- Every call keeps the invariant. -/
theorem allocated_step {vfs : NameAndExtension} {world after : WorldState} {operation : Operation}
    (hallocated : Allocated vfs world) (hafter : world.step vfs operation = some after) :
    Allocated vfs after := by
  cases operation with
  | loadDefaultCrates coreLib allocLib stdLib => exact allocated_loadDefaultCrates hafter
  | loadLocalFiles files => exact allocated_loadLocalFiles hallocated hafter
  | loadDependency name code manifest transitive =>
    obtain ⟨⟨loaded, needed⟩, hloaded, rfl⟩ := Option.map_eq_some_iff.mp hafter
    rcases sourceRoots_loadDependency hloaded with hsame | happended
    · exact hallocated.of_sourceRoots hsame
    · exact allocated_append hallocated happended
  | update path content => exact hallocated.of_sourceRoots (sourceRoots_update hafter)

/-- The invariant holds in every world. -/
theorem allocated_of_run {vfs : NameAndExtension} {operations : List Operation}
    {world : WorldState}
    (hrun : Run (StepsTo (WorldState.step vfs)) WorldState.new operations world) :
    Allocated vfs world := by
  refine hrun.invariant (fun before operation after hbefore hstep ↦
    allocated_step hbefore hstep) ?_
  constructor
  all_goals simp [WorldState.new]

/-! ### Loading -/

/-- Every path has an id of its own, which no dependency has and under which its text is stored. -/
def WorldState.LoadsLocalFiles (after : WorldState) (files : List (Str × Str)) : Prop :=
  ∀ file ∈ files, ∃ fileId, after.fileIdFromPath file.1 = some fileId ∧
    (∀ other ∈ files, other.1 ≠ file.1 → after.fileIdFromPath other.1 ≠ some fileId) ∧
    (∀ dependency ∈ after.sourceRoots.tail, fileId ∉ dependency.iter) ∧
    after.texts.lookup fileId = some file.2

/-- There is a source root to be replaced, the paths begin with a slash, only one has the name `lib`,
and any two others are found under different ids, where one at most is not found at all. -/
def Distinguished (vfs : NameAndExtension) (world : WorldState) (files : List (Str × Str)) :
    Prop :=
  world.sourceRoots ≠ [] ∧ (∀ file ∈ files, file.1.head? = some '/') ∧
    ∀ first ∈ files, ∀ second ∈ files, first.1 ≠ second.1 →
      (vfs.IsLib first.1 ↔ vfs.IsLib second.1) → ¬ vfs.IsLib first.1 ∧
        world.fileIdFromPath first.1 ≠ world.fileIdFromPath second.1

/-- What a path is given is where it is found. -/
theorem fileIdFromPath_loadLocalFiles {vfs : NameAndExtension} {world after : WorldState}
    {files : List (Str × Str)} (hafter : world.loadLocalFiles vfs files = some after)
    {file : Str × Str} (hfile : file ∈ files) :
    after.fileIdFromPath file.1 = some (world.localFileId vfs file.1) := by
  obtain ⟨-, root, dependencies, -, rfl⟩ := loadLocalFiles_eq_some hafter
  rw [WorldState.fileIdFromPath, if_neg (by simp)]
  dsimp only
  rw [List.findSome?_cons, fileForPath_foldl, if_pos (List.mem_map_of_mem hfile)]

/-- Different paths get different ids exactly if they can be told apart beforehand. -/
theorem localFileId_injOn_iff {vfs : NameAndExtension} {world : WorldState}
    (hallocated : Allocated vfs world) (hroots : world.sourceRoots ≠ []) {first second : VfsPath} :
    world.localFileId vfs first ≠ world.localFileId vfs second ↔
      ((vfs.IsLib first ↔ vfs.IsLib second) → ¬ vfs.IsLib first ∧
        world.fileIdFromPath first ≠ world.fileIdFromPath second) := by
  obtain ⟨root, dependencies, hcons⟩ := List.exists_cons_of_ne_nil hroots
  have hroot : root ∈ world.sourceRoots := by rw [hcons]; exact List.mem_cons_self
  by_cases hfirst : vfs.IsLib first
  · by_cases hsecond : vfs.IsLib second
    · rw [localFileId_of_isLib world hfirst, localFileId_of_isLib world hsecond]
      simp [hfirst, hsecond]
    · rw [localFileId_of_isLib world hfirst]
      have hne := localFileId_ne hallocated hroots hsecond
      simp [hfirst, hsecond, hne.symm]
  · by_cases hsecond : vfs.IsLib second
    · rw [localFileId_of_isLib world hsecond]
      have hne := localFileId_ne hallocated hroots hfirst
      simp [hfirst, hsecond, hne]
    · have hfresh : ∀ path fileId, root.fileForPath path = some fileId →
          fileId ≠ world.nextFileId := by
        rintro path fileId hfound rfl
        exact nextFileId_notMem hroot (hallocated.consistent root hroot path _ hfound)
      simp only [hfirst, hsecond, not_false_eq_true, true_and, iff_self, forall_const]
      rw [localFileId_of_not_isLib world hfirst, localFileId_of_not_isLib world hsecond,
        fileIdFromPath_eq_some hallocated hcons hfirst,
        fileIdFromPath_eq_some hallocated hcons hsecond]
      cases hone : root.fileForPath first with
      | none =>
        cases htwo : root.fileForPath second with
        | none => simp
        | some other => simp [(hfresh second other htwo).symm]
      | some fileId =>
        cases htwo : root.fileForPath second with
        | none => simp [hfresh first fileId hone]
        | some other => simp

/-- In every world that is reached, loading files with different paths gives each its own id and text
exactly if the paths can be told apart beforehand. -/
theorem loadsLocalFiles_iff {vfs : NameAndExtension} {operations : List Operation}
    {world : WorldState}
    (hrun : Run (StepsTo (WorldState.step vfs)) WorldState.new operations world)
    {files : List (Str × Str)} (hpaths : (files.map Prod.fst).Nodup) :
    (∃ after, world.loadLocalFiles vfs files = some after ∧ after.LoadsLocalFiles files) ↔
      Distinguished vfs world files := by
  have hallocated := allocated_of_run hrun
  constructor
  · rintro ⟨after, hafter, hloads⟩
    obtain ⟨hslash, root, dependencies, hcons, -⟩ := loadLocalFiles_eq_some hafter
    have hroots : world.sourceRoots ≠ [] := by simp [hcons]
    refine ⟨hroots, hslash, fun first hfirst second hsecond hne ↦ ?_⟩
    apply (localFileId_injOn_iff hallocated hroots).mp
    obtain ⟨fileId, hfileId, hothers, -⟩ := hloads first hfirst
    have hother := hothers second hsecond hne.symm
    rw [fileIdFromPath_loadLocalFiles hafter hfirst] at hfileId
    rw [fileIdFromPath_loadLocalFiles hafter hsecond, ← hfileId] at hother
    exact fun heq ↦ hother (congrArg some heq.symm)
  · rintro ⟨hroots, hslash, hapart⟩
    obtain ⟨root, dependencies, hcons⟩ := List.exists_cons_of_ne_nil hroots
    have hinjective : ∀ first ∈ files, ∀ second ∈ files, first.1 ≠ second.1 →
        world.localFileId vfs first.1 ≠ world.localFileId vfs second.1 :=
      fun first hfirst second hsecond hne ↦ (localFileId_injOn_iff hallocated hroots).mpr
        (hapart first hfirst second hsecond hne)
    obtain ⟨after, hafter⟩ : ∃ after, world.loadLocalFiles vfs files = some after := by
      unfold WorldState.loadLocalFiles
      rw [if_pos (by simpa using hslash)]
      dsimp only
      rw [hcons]
      exact ⟨_, rfl⟩
    refine ⟨after, hafter, fun file hfile ↦ ?_⟩
    refine ⟨_, fileIdFromPath_loadLocalFiles hafter hfile, fun other hother hne ↦ ?_, ?_, ?_⟩
    · rw [fileIdFromPath_loadLocalFiles hafter hother]
      exact fun heq ↦ hinjective other hother file hfile hne (Option.some.inj heq)
    · obtain ⟨-, first, rest, hfirst, rfl⟩ := loadLocalFiles_eq_some hafter
      exact fun dependency hmem ↦ localFileId_notMem hallocated hfirst hmem file.1
    · obtain ⟨-, first, rest, -, rfl⟩ := loadLocalFiles_eq_some hafter
      apply lookup_writeAll_of_mem
      · rw [List.map_map]
        refine List.Nodup.map_on (fun one hone two htwo heq ↦ ?_) (List.Nodup.of_map _ hpaths)
        by_contra hne
        refine hinjective one hone two htwo (fun hsame ↦ hne ?_) heq
        exact List.inj_on_of_nodup_map hpaths hone htwo hsame
      · exact List.mem_map_of_mem hfile

end Worlds

/-! ### Two new files -/

/-- The name of a virtual path is what is between its last slash and the last dot behind it, unless
nothing is. -/
def virtualPathName (path : VfsPath) : Option (Str × Option Str) :=
  let filePath := if path.getLast? = some '/' then path.dropLast else path
  let fileName := (filePath.reverse.takeWhile (· ≠ '/')).reverse
  let extension := (fileName.reverse.takeWhile (· ≠ '.')).reverse
  let stem := (fileName.reverse.dropWhile (· ≠ '.')).tail.reverse
  if fileName = [] then none
  else if stem = [] then some (fileName, none)
  else some (stem, some extension)

theorem virtualPathName_crate (crate : Str) :
    virtualPathName ('/' :: crate ++ "/src/lib.rs".toList) =
      some ("lib".toList, some "rs".toList) := by
  have hpath : "/src/lib.rs".toList = "/src/".toList ++ ['l', 'i', 'b', '.', 'r', 's'] := rfl
  have hlast : ('/' :: crate ++ "/src/lib.rs".toList).getLast? = some 's' := by
    rw [hpath, ← List.append_assoc, List.getLast?_append_of_ne_nil _ (by decide)]
    rfl
  have hname : (('/' :: crate ++ "/src/lib.rs".toList).reverse.takeWhile (· ≠ '/')).reverse =
      ['l', 'i', 'b', '.', 'r', 's'] := by
    rw [List.reverse_append]
    rfl
  have hslash : ('/' :: crate ++ "/src/lib.rs".toList).getLast? ≠ some '/' := by
    rw [hlast]
    decide
  unfold virtualPathName
  simp only [if_neg hslash, hname]
  rfl

/-- The names of virtual paths. -/
def virtualPaths : NameAndExtension where
  nameAndExtension := virtualPathName
  name_crate := fun crate ↦ ⟨some "rs".toList, virtualPathName_crate crate⟩

local instance : FileSets := referenceFileSets

local instance : CrateGraphs := referenceCrateGraphs

/-- The world with the default crates. -/
def defaultWorld : WorldState :=
  (WorldState.new.loadDefaultCrates [] [] []).getD WorldState.new

theorem run_defaultWorld : Run (StepsTo (WorldState.step virtualPaths)) WorldState.new
    [.loadDefaultCrates [] [] []] defaultWorld :=
  Run.single rfl

/-- The root of the crate and one new file have their own ids and texts. -/
theorem loadsLocalFiles_iff_one_new :
    ∃ after, defaultWorld.loadLocalFiles virtualPaths
        [("/solpg/src/lib.rs".toList, "mod a;".toList), ("/solpg/src/a.rs".toList, [])] = some after ∧
      after.LoadsLocalFiles
        [("/solpg/src/lib.rs".toList, "mod a;".toList), ("/solpg/src/a.rs".toList, [])] := by
  have hlib : virtualPaths.IsLib "/solpg/src/lib.rs".toList := ⟨some "rs".toList, by decide⟩
  have hnot : ¬ virtualPaths.IsLib "/solpg/src/a.rs".toList := by
    rintro ⟨extension, hname⟩
    have hother : virtualPaths.nameAndExtension "/solpg/src/a.rs".toList =
      some ("a".toList, some "rs".toList) := by decide
    rw [hother] at hname
    exact absurd (Prod.mk.inj (Option.some.inj hname)).1 (by decide)
  refine (loadsLocalFiles_iff run_defaultWorld (by decide)).mpr ⟨by decide, by decide, ?_⟩
  intro first hfirst second hsecond hne hiff
  simp only [List.mem_cons, List.not_mem_nil, or_false] at hfirst hsecond
  rcases hfirst with rfl | rfl
  · rcases hsecond with rfl | rfl
    · exact absurd rfl hne
    · exact absurd (hiff.mp hlib) hnot
  · rcases hsecond with rfl | rfl
    · exact absurd (hiff.mpr hlib) hnot
    · exact absurd rfl hne

/-- Two new files get one id. -/
theorem not_loadsLocalFiles_two_new :
    Run (StepsTo (WorldState.step virtualPaths)) WorldState.new [.loadDefaultCrates [] [] []]
        defaultWorld ∧
      ¬ ∃ after, defaultWorld.loadLocalFiles virtualPaths
          [("/solpg/src/a.rs".toList, "1".toList), ("/solpg/src/b.rs".toList, "2".toList)] =
            some after ∧
        after.LoadsLocalFiles
          [("/solpg/src/a.rs".toList, "1".toList), ("/solpg/src/b.rs".toList, "2".toList)] := by
  refine ⟨run_defaultWorld, ?_⟩
  rintro ⟨after, hafter, hloads⟩
  obtain ⟨fileId, hfileId, hothers, -⟩ := hloads _ List.mem_cons_self
  refine hothers _ (List.mem_cons_of_mem _ List.mem_cons_self) (by decide) ?_
  rw [← hfileId, fileIdFromPath_loadLocalFiles hafter List.mem_cons_self,
    fileIdFromPath_loadLocalFiles hafter (List.mem_cons_of_mem _ List.mem_cons_self)]
  decide

end Playground.RustAnalyzer
