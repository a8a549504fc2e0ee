import Playground.Explorer.Metadata

/-!
# Removing a directory

`PgFs.removeDir` with `recursive` (`client/src/utils/pg/explorer/fs.ts`). `recursivelyRmdir` removes the
children of a directory one after the other, a file and an empty directory by one call and any other
directory by going into it, and then the directory, after it has been read again. On a disk of a lawful
file system, where a directory is only removed when there is nothing in it, the recursion comes to its
end and leaves the disk without the directory and what is below it, and otherwise as it was
(`removeDir_eq_ok`).
-/

set_option autoImplicit false
set_option relaxedAutoImplicit false

namespace Playground.Explorer

open Library

variable {F : Type} {system : FileSystem F} {content : F → Content}

/-! ### One child -/

/-- The body of the loop of `recursivelyRmdir`. -/
def removeChild (system : FileSystem F) (fuel : ℕ) (currentPath : Str) (childName : Str) :
    Action F Unit := do
  let childPath := currentPath ++ childName
  let metadata ← PgFs.getMetadata system childPath
  if metadata = .folder then do
    let childDir ← PgFs.readDir system childPath
    if childDir = [] then onDisk fun disk ↦ system.rmdir disk childPath
    else PgFs.recursivelyRmdir system fuel childDir (childPath ++ ['/'])
  else PgFs.removeFile system childPath

/-- The subtrees at several places below a place taken away. -/
def removeChildren (before : Content) (place : List Component) (names : List Component) : Content :=
  fun other ↦ if ∃ name ∈ names, place ++ [name] <+: other then none else before other

/-- The names are those of the entries in a directory. -/
def AreEntries (before : Content) (place : List Component) (names : List Component) : Prop :=
  names.Nodup ∧ ∀ name, name ∈ names ↔ before (place ++ [name]) ≠ none

/-- Every entry below a place is at most so many levels down. -/
def NotDeeper (before : Content) (levels : ℕ) : Prop :=
  ∀ place, before place ≠ none → place.length ≤ levels

/-- What `recursivelyRmdir` does with a bound: it removes every directory that is not too high for the
bound. -/
def RemovesDirs (system : FileSystem F) (content : F → Content) (fuel : ℕ) : Prop :=
  ∀ (state : State F) (path : Str) (place names : List Component), IsFullPath path →
    path.getLast? = some '/' → resolve path = some place → place ≠ [] →
      content state.disk place = some .folder → AreEntries (content state.disk) place names →
        NotDeeper (content state.disk) (place.length + fuel) →
          ∃ disk, PgFs.recursivelyRmdir system (fuel + 1) names path state =
              .ok () { state with disk } ∧
            content disk = (content state.disk).remove place

/-- What has been taken away has made nothing deeper. -/
theorem NotDeeper.remove {before : Content} {levels : ℕ} (hwithin : NotDeeper before levels)
    (place : List Component) : NotDeeper (before.remove place) levels := by
  intro other hother
  refine hwithin other fun hnone ↦ hother ?_
  rw [Content.remove]
  split
  · rfl
  · exact hnone

/-- The names in a directory that is read. -/
theorem exists_areEntries (hlawful : system.Lawful content) {disk : F} {path : Str}
    {place : List Component} (hplace : resolve path = some place)
    (hfolder : content disk place = some .folder) :
    ∃ names, system.readdir disk path = .ok names ∧ AreEntries (content disk) place names := by
  obtain ⟨names, hread, hnodup, hnames⟩ := hlawful.readdir_found hplace hfolder
  exact ⟨names, hread, hnodup, hnames⟩

/-- A directory without entries. -/
theorem AreEntries.none_of_nil {before : Content} {place : List Component}
    (hentries : AreEntries before place []) (name : Component) : before (place ++ [name]) = none := by
  by_contra hfound
  exact absurd ((hentries.2 name).mpr hfound) List.not_mem_nil

/-- An empty directory is removed by one call. -/
theorem rmdir_eq_ok (hlawful : system.Lawful content) {state : State F} {path : Str}
    {place : List Component} (hplace : resolve path = some place) (hne : place ≠ [])
    (hfolder : content state.disk place = some .folder)
    (hempty : ∀ name, content state.disk (place ++ [name]) = none) :
    ∃ disk, onDisk (fun disk ↦ system.rmdir disk path) state = .ok () { state with disk } ∧
      content disk = (content state.disk).remove place := by
  obtain ⟨disk, hrmdir⟩ := hlawful.rmdir_succeeds hplace hne hfolder hempty
  refine ⟨disk, onDisk_eq_ok.mpr ⟨disk, hrmdir, rfl⟩, ?_⟩
  rw [(hlawful.rmdir_effect hplace hrmdir).2.2, hlawful.update_eq_remove hempty]

/-- A child is removed with what is below it. -/
theorem removeChild_eq_ok (hlawful : system.Lawful content) {fuel : ℕ}
    (hremoves : ∀ less < fuel, RemovesDirs system content less) {state : State F} {path : Str}
    {place : List Component} (hfull : IsFullPath path) (hslash : path.getLast? = some '/')
    (hplace : resolve path = some place) {name : Component}
    (hentry : content state.disk (place ++ [name]) ≠ none)
    (hwithin : NotDeeper (content state.disk) (place.length + fuel)) :
    ∃ disk, removeChild system fuel path name state = .ok () { state with disk } ∧
      content disk = (content state.disk).remove (place ++ [name]) := by
  have hname : IsComponent name := hlawful.isComponent hentry
  obtain ⟨front, hfront⟩ := exists_eq_append_slash hslash
  have hchildFull : IsFullPath (path ++ name) := isFullPath_append hfull name
  have hchildPlace : resolve (path ++ name) = some (place ++ [name]) := by
    have hfrontPlace : resolve front = some place := by
      rw [← resolve_append_trailing, ← hfront, hplace]
    rw [hfront, List.append_assoc, List.singleton_append,
      resolve_append_slash_name front hname.2.2.2, hfrontPlace, Option.bind_some,
      resolveStep_of_isComponent hname]
  have hne : place ++ [name] ≠ [] := by simp
  cases hnode : content state.disk (place ++ [name]) with
  | none => exact absurd hnode hentry
  | some node =>
    have hstat := getMetadata_of_isFullPath hchildFull (hlawful.stat_found hchildPlace hnode)
    cases node with
    | file data =>
      obtain ⟨disk, hunlink⟩ := hlawful.unlink_succeeds hchildPlace hnode
      have hempty : ∀ below, content state.disk (place ++ [name] ++ [below]) = none := by
        intro below
        refine hlawful.none_below ?_ (List.cons_ne_nil below [])
        rw [hnode]
        exact fun heq ↦ by cases heq
      refine ⟨disk, bind_eq_ok.mpr ⟨_, state, hstat, ?_⟩, ?_⟩
      · exact bind_eq_ok.mpr ⟨_, state, convertToFullPath_of_isFullPath hchildFull state,
          onDisk_eq_ok.mpr ⟨disk, hunlink, rfl⟩⟩
      · rw [(hlawful.unlink_effect hchildPlace hunlink).2, hlawful.update_eq_remove hempty]
    | folder =>
      obtain ⟨childDir, hread, hentries⟩ := exists_areEntries hlawful hchildPlace hnode
      have hdir := readDir_of_isFullPath hchildFull hread
      by_cases hempty : childDir = []
      · rw [hempty] at hentries
        obtain ⟨disk, hrmdir, hdisk⟩ := @rmdir_eq_ok _ _ _ hlawful state _ _ hchildPlace hne hnode
          hentries.none_of_nil
        refine ⟨disk, bind_eq_ok.mpr ⟨_, state, hstat, ?_⟩, hdisk⟩
        exact bind_eq_ok.mpr ⟨childDir, state, hdir, by rwa [if_pos hempty]⟩
      · obtain ⟨first, hfirst⟩ := List.exists_mem_of_ne_nil childDir hempty
        have hdeep := hwithin _ ((hentries.2 first).mp hfirst)
        simp only [List.length_append, List.length_singleton] at hdeep
        obtain ⟨less, rfl⟩ : ∃ less, fuel = less + 1 := ⟨fuel - 1, by omega⟩
        have hlevels : NotDeeper (content state.disk) ((place ++ [name]).length + less) := by
          intro other hother
          have hle := hwithin other hother
          rw [List.length_append, List.length_singleton]
          omega
        obtain ⟨disk, hrun, hdisk⟩ := hremoves less (Nat.lt_succ_self less) state
          (path ++ name ++ ['/']) _ childDir (isFullPath_append hchildFull _) List.getLast?_concat
          (by rw [resolve_append_trailing, hchildPlace]) hne hnode hentries hlevels
        refine ⟨disk, bind_eq_ok.mpr ⟨_, state, hstat, ?_⟩, hdisk⟩
        exact bind_eq_ok.mpr ⟨childDir, state, hdir, by rwa [if_neg hempty]⟩

/-! ### All children -/

/-- The children are removed one after the other. -/
theorem forM_removeChild_eq_ok (hlawful : system.Lawful content) {fuel : ℕ}
    (hremoves : ∀ less < fuel, RemovesDirs system content less) {path : Str}
    {place : List Component} (hfull : IsFullPath path) (hslash : path.getLast? = some '/')
    (hplace : resolve path = some place) {names : List Component} (hnodup : names.Nodup) :
    ∀ state : State F, (∀ name ∈ names, content state.disk (place ++ [name]) ≠ none) →
      NotDeeper (content state.disk) (place.length + fuel) →
        ∃ disk, names.forM (removeChild system fuel path) state = .ok () { state with disk } ∧
          content disk = removeChildren (content state.disk) place names := by
  induction names with
  | nil =>
    intro state _ _
    refine ⟨state.disk, rfl, ?_⟩
    funext other
    simp [removeChildren]
  | cons name rest ih =>
    obtain ⟨hnot, hrest⟩ := List.nodup_cons.mp hnodup
    intro state hentries hwithin
    obtain ⟨first, hfirst, hremoved⟩ := removeChild_eq_ok hlawful hremoves hfull hslash hplace
      (hentries name List.mem_cons_self) hwithin
    have hothers : ∀ other ∈ rest, content first (place ++ [other]) ≠ none := by
      intro other hother
      have hne : ¬ place ++ [name] <+: place ++ [other] := by
        intro hprefix
        obtain ⟨tail, htail⟩ := (List.prefix_append_right_inj place).mp hprefix
        exact hnot ((List.cons.inj htail).1 ▸ hother)
      rw [hremoved, Content.remove, if_neg hne]
      exact hentries other (List.mem_cons_of_mem _ hother)
    obtain ⟨disk, hloop, hall⟩ := ih hrest { state with disk := first } hothers
      (by rw [hremoved]; exact hwithin.remove _)
    refine ⟨disk, bind_eq_ok.mpr ⟨(), _, hfirst, hloop⟩, ?_⟩
    rw [hall]
    funext other
    dsimp only
    rw [removeChildren, removeChildren, hremoved, Content.remove]
    by_cases hname : place ++ [name] <+: other
    · simp [hname]
    · simp [hname]

/-- With all its children, nothing is left in a directory. -/
theorem removeChildren_child {before : Content} {place names : List Component}
    (hentries : AreEntries before place names) (name : Component) :
    removeChildren before place names (place ++ [name]) = none := by
  rw [removeChildren]
  by_cases hname : name ∈ names
  · rw [if_pos ⟨name, hname, List.prefix_refl _⟩]
  · split
    · rfl
    · by_contra hfound
      exact hname ((hentries.2 name).mpr hfound)

/-- A directory is not below its children. -/
theorem removeChildren_self (before : Content) (place names : List Component) :
    removeChildren before place names place = before place := by
  have hnone : ¬ ∃ name ∈ names, place ++ [name] <+: place := by
    rintro ⟨name, -, hprefix⟩
    have hlength := hprefix.length_le
    rw [List.length_append, List.length_singleton] at hlength
    omega
  rw [removeChildren, if_neg hnone]

/-- Without its children and itself a directory is gone with everything below it. -/
theorem remove_removeChildren {before : Content} (place names : List Component) :
    (removeChildren before place names).remove place = before.remove place := by
  funext other
  rw [Content.remove, Content.remove]
  by_cases hplace : place <+: other
  · rw [if_pos hplace, if_pos hplace]
  · have hnone : ¬ ∃ name ∈ names, place ++ [name] <+: other := by
      rintro ⟨name, -, hprefix⟩
      exact hplace ((List.prefix_append place [name]).trans hprefix)
    rw [if_neg hplace, if_neg hplace, removeChildren, if_neg hnone]

/-! ### The directory -/

/-- Every directory is removed with what is below it, by a recursion that is as deep as the directory is
high. -/
theorem recursivelyRmdir_eq_ok (hlawful : system.Lawful content) (fuel : ℕ) :
    RemovesDirs system content fuel := by
  induction fuel using Nat.strong_induction_on with
  | _ fuel ih =>
    intro state path place names hfull hslash hplace hne hfolder hentries hwithin
    by_cases hempty : names = []
    · rw [hempty] at hentries
      obtain ⟨disk, hrmdir, hdisk⟩ := rmdir_eq_ok hlawful hplace hne hfolder hentries.none_of_nil
      refine ⟨disk, ?_, hdisk⟩
      rw [PgFs.recursivelyRmdir, if_pos hempty]
      exact hrmdir
    · obtain ⟨cleared, hloop, hcleared⟩ := forM_removeChild_eq_ok hlawful ih hfull hslash hplace
        hentries.1 state (fun name hname ↦ (hentries.2 name).mp hname) hwithin
      have hstill : content cleared place = some .folder := by
        rw [hcleared, removeChildren_self, hfolder]
      have hnothing : ∀ name, content cleared (place ++ [name]) = none := by
        rw [hcleared]
        exact removeChildren_child hentries
      obtain ⟨rest, hread, hrest⟩ := exists_areEntries hlawful hplace hstill
      have hnil : rest = [] := by
        refine List.eq_nil_iff_forall_not_mem.mpr fun name hname ↦ ?_
        exact (hrest.2 name).mp hname (hnothing name)
      obtain ⟨disk, hrmdir, hdisk⟩ := @rmdir_eq_ok _ _ _ hlawful { state with disk := cleared } _ _
        hplace hne hstill hnothing
      refine ⟨disk, ?_, ?_⟩
      · rw [PgFs.recursivelyRmdir, if_neg hempty]
        refine bind_eq_ok.mpr ⟨(), _, hloop, ?_⟩
        refine bind_eq_ok.mpr ⟨rest, _, readDir_of_isFullPath hfull hread, ?_⟩
        rw [hnil]
        exact hrmdir
      · rw [hdisk]
        dsimp only
        rw [hcleared, remove_removeChildren]

/-- The path of the project is absolute. -/
theorem isFullPath_getProjectRootPath {state : State F} {root : Str}
    (hroot : state.getProjectRootPath = .ok root) : IsFullPath root := by
  unfold State.getProjectRootPath State.currentWorkspacePath at hroot
  split at hroot
  · obtain rfl := Except.ok.inj hroot
    exact List.prefix_refl _
  · split at hroot
    · cases hroot
    · cases hroot
    · obtain rfl := Except.ok.inj hroot
      exact isFullPath_append (isFullPath_appendSlash (List.prefix_refl _)) _

/-- A path with a slash at its end still has one as a full path, which begins at the root. -/
theorem slash_of_convertToFullPath {state : State F} {path fullPath : Str}
    (hslash : path.getLast? = some '/') (hfull : state.convertToFullPath path = .ok fullPath) :
    IsFullPath fullPath ∧ fullPath.getLast? = some '/' := by
  by_cases hroot : rootDirPath <+: path
  · rw [State.convertToFullPath, if_pos hroot] at hfull
    obtain rfl := Except.ok.inj hfull
    exact ⟨hroot, hslash⟩
  · rw [State.convertToFullPath, if_neg hroot] at hfull
    have hwithout : withoutPreSlash path = path := by
      unfold withoutPreSlash
      split
      · next rest => exact absurd ⟨rest, rfl⟩ hroot
      · rfl
    cases hproject : state.getProjectRootPath with
    | error error =>
      rw [hproject] at hfull
      cases hfull
    | ok root =>
      rw [hproject] at hfull
      obtain rfl : joinPaths root path = fullPath := Except.ok.inj hfull
      have hprojectFull := isFullPath_appendSlash (isFullPath_getProjectRootPath hproject)
      rw [joinPaths, hwithout]
      refine ⟨isFullPath_append hprojectFull _, ?_⟩
      rw [List.getLast?_append, hslash, Option.some_or]

/-- Assumes: a lawful file system. Removing a directory recursively comes to its end without an error,
and leaves the disk without the directory and everything below it, and otherwise as it was. -/
theorem removeDir_eq_ok (hlawful : system.Lawful content) {state : State F} {path fullPath : Str}
    {place : List Component} (hslash : path.getLast? = some '/')
    (hfull : state.convertToFullPath path = .ok fullPath) (hplace : resolve fullPath = some place)
    (hne : place ≠ []) (hfolder : content state.disk place = some .folder) :
    ∃ disk, PgFs.removeDir system path true state = .ok () { state with disk } ∧
      content disk = (content state.disk).remove place := by
  obtain ⟨hroot, hend⟩ := slash_of_convertToFullPath hslash hfull
  obtain ⟨names, hread, hentries⟩ := exists_areEntries hlawful hplace hfolder
  have hwithin : NotDeeper (content state.disk) (place.length + system.height state.disk) :=
    fun other hother ↦ (hlawful.length_le hother).trans (Nat.le_add_left _ _)
  obtain ⟨disk, hrun, hdisk⟩ := recursivelyRmdir_eq_ok hlawful (system.height state.disk) state
    fullPath place names hroot hend hplace hne hfolder hentries hwithin
  refine ⟨disk, ?_, hdisk⟩
  refine bind_eq_ok.mpr ⟨fullPath, state, convertToFullPath_eq_ok.mpr ⟨hfull, rfl⟩, ?_⟩
  rw [if_pos rfl]
  refine bind_eq_ok.mpr ⟨names, state, readDir_of_isFullPath hroot hread, ?_⟩
  exact bind_eq_ok.mpr ⟨state, state, rfl, hrun⟩

/-- The folder of a file in a workspace is removed. -/
theorem removeDir_workspaceWith :
    ∃ disk, PgFs.removeDir fileTrees "src/".toList true (workspaceWith "src/a.ts") =
        .ok () { workspaceWith "src/a.ts" with disk } ∧
      disk.content = (workspaceWith "src/a.ts").disk.content.remove ["ws".toList, "src".toList] := by
  have hfull : (workspaceWith "src/a.ts").convertToFullPath "src/".toList =
      .ok "/ws/src/".toList := by decide +kernel
  exact removeDir_eq_ok lawful_fileTrees (by decide) hfull (by decide +kernel) (by decide)
    (by decide +kernel)

end Playground.Explorer
