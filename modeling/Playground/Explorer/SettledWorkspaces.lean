import Playground.Explorer.Inits
import Playground.Explorer.NewWorkspaces

/-!
# Settled workspaces

What holds of the explorer between two operations on workspaces. `newWorkspace`, `switchWorkspace`,
`renameWorkspace` and `deleteWorkspace` of `PgExplorer` each change the names of the workspaces first and
then switch to one of them, which saves the config and loads the files of the workspace. A workspace whose
files cannot be loaded is deleted, and deleting it switches again.

`Opened` says that no name is there twice, that the current one is one of them, that the config on the
disk is what the explorer has in memory, and that the folder of the current workspace is on the disk. Only
the last switch matters for the config: what is written after it is metadata (`Robust.saveMeta`). Deleting
removes more than the current name exactly if the workspace that it switches to cannot be set up
(`deleted_of_deleteWorkspace`).

Not formalized here: operations on items between those on workspaces.
-/

set_option autoImplicit false
set_option relaxedAutoImplicit false

namespace Playground.Explorer

open Library

variable {F : Type} {system : FileSystem F} {json : Json} {content : F → Content}

/-! ### What writing leaves alone -/

/-- The property outlives a folder that is created where nothing is, and a file that is written to one
of some places. -/
structure Robust (content : F → Content) (writes : List Component → Prop) (property : State F → Prop) :
    Prop where
  folder : ∀ (state : State F) (disk : F) (place : List Component), property state →
    content state.disk place = none →
      content disk = Function.update (content state.disk) place (some .folder) →
        property { state with disk }
  file : ∀ (state : State F) (disk : F) (place : List Component) (data : Str), property state →
    writes place → content state.disk place ≠ some .folder →
      content disk = Function.update (content state.disk) place (some (.file data)) →
        property { state with disk }

section Robust

variable {writes : List Component → Prop} {property : State F → Prop}

/-- A call that changes the disk keeps a property if the new disk has it. -/
theorem keeps_onDisk {call : F → Except FsError F}
    (hcall : ∀ (state : State F) (disk : F), property state → call state.disk = .ok disk →
      property { state with disk }) : Keeps property (onDisk call) := by
  intro state hstate
  unfold Explorer.onDisk
  cases hrun : call state.disk with
  | error error => exact hstate
  | ok disk => exact hcall state disk hstate hrun

/-- A folder is created. -/
theorem Robust.mkdir (hrobust : Robust content writes property) (hlawful : system.Lawful content)
    (henclosed : system.Enclosed) (path : Str) :
    Keeps property (onDisk fun disk ↦ system.mkdir disk path) := by
  refine keeps_onDisk fun state disk hstate hmkdir ↦ ?_
  cases hplace : resolve path with
  | none =>
    obtain ⟨error, herror⟩ := @henclosed.mkdir state.disk path hplace
    exact absurd (hmkdir.symm.trans herror) (by simp)
  | some place =>
    obtain ⟨hnone, hwritten⟩ := hlawful.mkdir_effect hplace hmkdir
    exact hrobust.folder state disk place hstate hnone hwritten

/-- The folders of a path are created. -/
theorem Robust.createDirs (hrobust : Robust content writes property) (hlawful : system.Lawful content)
    (henclosed : system.Enclosed) (folders : List Str) :
    ∀ currentPath : Str, Keeps property (PgFs.createDirs system currentPath folders) := by
  induction folders with
  | nil => exact fun _ ↦ Keeps.pure ()
  | cons folder rest ih =>
    intro currentPath
    refine Keeps.bind (keeps_itemExists _) fun found ↦ Keeps.bind ?_ fun _ ↦ ih _
    exact keeps_runIf fun _ ↦ hrobust.mkdir hlawful henclosed _

/-- A folder is created with those above it. -/
theorem Robust.createDir (hrobust : Robust content writes property) (hlawful : system.Lawful content)
    (henclosed : system.Enclosed) (path : Str) (createParents : Bool) :
    Keeps property (PgFs.createDir system path createParents) := by
  refine Keeps.bind (keeps_convertToFullPath path) fun path ↦ Keeps.ite (fun _ ↦ ?_) fun _ ↦ ?_
  · exact hrobust.createDirs hlawful henclosed _ _
  · exact hrobust.mkdir hlawful henclosed _

/-- A file is written to one of the places. -/
theorem Robust.writeFile (hrobust : Robust content writes property) (hlawful : system.Lawful content)
    (henclosed : system.Enclosed) {path : Str}
    (hwrites : ∀ (state : State F) (fullPath : Str) (place : List Component),
      state.convertToFullPath path = .ok fullPath → resolve fullPath = some place → writes place)
    (data : Str) (createParents : Bool) :
    Keeps property (PgFs.writeFile system path data createParents) := by
  refine Triple.bind (fun fullPath state ↦ property state ∧
    ∃ before : State F, before.convertToFullPath path = .ok fullPath) ?_ fun fullPath ↦ ?_
  · intro state hstate
    have hkept := @keeps_convertToFullPath _ property path state hstate
    cases hrun : convertToFullPath path state with
    | ok value after =>
      obtain ⟨hfull, rfl⟩ := convertToFullPath_eq_ok.mp hrun
      exact ⟨hstate, state, hfull⟩
    | error error after =>
      rw [hrun] at hkept
      exact hkept
  · rintro state ⟨hstate, before, hfull⟩
    refine (Keeps.bind (keeps_runIf fun _ ↦ hrobust.createDir hlawful henclosed _ _)
      fun _ ↦ keeps_onDisk fun state disk hstate hwrite ↦ ?_) state hstate
    cases hplace : resolve fullPath with
    | none =>
      obtain ⟨error, herror⟩ := @henclosed.writeFile state.disk fullPath data hplace
      exact absurd (hwrite.symm.trans herror) (by simp)
    | some place =>
      obtain ⟨hfolder, hwritten⟩ := hlawful.writeFile_effect hplace hwrite
      exact hrobust.file state disk place data hstate (hwrites before fullPath place hfull hplace)
        hfolder hwritten

/-- The metadata file has its name in every workspace. -/
theorem place_metadataPath (state : State F) {fullPath : Str} {place : List Component}
    (hfull : state.convertToFullPath metadataPath = .ok fullPath)
    (hplace : resolve fullPath = some place) : ∃ above, place = above ++ [metadataFile] := by
  have hrelative : ¬ rootDirPath <+: metadataPath := by decide
  rw [State.convertToFullPath, if_neg hrelative] at hfull
  cases hroot : state.getProjectRootPath with
  | error error =>
    rw [hroot] at hfull
    cases hfull
  | ok root =>
    rw [hroot] at hfull
    have hjoin : fullPath = (appendSlash root ++ metadataDir) ++ '/' :: metadataFile := by
      have hmetadata : withoutPreSlash metadataPath = metadataDir ++ '/' :: metadataFile := by decide
      have hfull : joinPaths root metadataPath = fullPath := Except.ok.inj hfull
      rw [← hfull]
      unfold joinPaths
      rw [hmetadata, List.append_assoc]
    rw [hjoin, resolve_append_slash_name _ (by decide)] at hplace
    obtain ⟨above, -, hstep⟩ := Option.bind_eq_some_iff.mp hplace
    rw [resolveStep_of_isComponent (by decide)] at hstep
    exact ⟨above, (Option.some.inj hstep).symm⟩

/-- The metadata is saved. -/
theorem Robust.saveMeta (hrobust : Robust content writes property) (hlawful : system.Lawful content)
    (henclosed : system.Enclosed) (hwrites : ∀ above, writes (above ++ [metadataFile])) :
    Keeps property (saveMeta system json) := by
  refine Keeps.get_bind fun state ↦ ?_
  split
  · exact Keeps.pure ()
  · exact Keeps.pure ()
  · refine Keeps.ite (fun _ ↦ Keeps.pure ()) fun _ ↦ Keeps.bind (keeps_evaluate _) fun root ↦
      Keeps.ite (fun _ ↦ Keeps.pure ()) fun _ ↦ Keeps.bind (keeps_evaluate _) fun metaFile ↦ ?_
    refine hrobust.writeFile hlawful henclosed (fun before fullPath place hfull hplace ↦ ?_) _ _
    obtain ⟨above, rfl⟩ := place_metadataPath before hfull hplace
    exact hwrites above

end Robust

/-! ### Between two operations -/

/-- No name is there twice, and the current one is one of them, if there are any. -/
structure Workspaces.Valid (workspaces : Workspaces) : Prop where
  nodup : workspaces.allNames.Nodup
  current : ∀ name, workspaces.currentName = some name → name ∈ workspaces.allNames
  none : workspaces.currentName = none → workspaces.allNames = []

/-- The workspaces are known and valid, and the config on the disk is what the explorer has in memory. -/
structure Settled (json : Json) (content : F → Content) (state : State F) : Prop where
  persistent : state.isTemporary = false
  known : state.hasWorkspace = true
  valid : state.workspaces.Valid
  stored : content state.disk [configDir, configFile] =
    some (.file (json.stringifyWorkspaces state.workspaces))

/-- What holds between two operations: besides, the folder of the current workspace is on the disk. -/
structure Opened (json : Json) (content : F → Content) (state : State F) : Prop
    extends Settled json content state where
  rooted : ∀ name, state.workspaces.currentName = some name → name ≠ [] ∧
    ∃ place, resolve (workspacePath name) = some place ∧ content state.disk place = some .folder

/-- The mode and the names. -/
structure Knows (workspaces : Workspaces) (state : State F) : Prop where
  persistent : state.isTemporary = false
  known : state.hasWorkspace = true
  workspaces_eq : state.workspaces = workspaces

section Frames

variable {workspaces : Workspaces}

theorem blind_knows : Blind (Knows (F := F) workspaces) :=
  fun _ _ hstate ↦ ⟨hstate.persistent, hstate.known, hstate.workspaces_eq⟩

/-- The property does not depend on the items, the tabs and what is announced. -/
def BlindToItems (property : State F → Prop) : Prop :=
  ∀ state explorer opened, property state → property { state with explorer, opened }

theorem BlindToItems.blindToExplorer {property : State F → Prop} (hblind : BlindToItems property) :
    BlindToExplorer property :=
  fun state explorer hstate ↦ hblind state explorer state.opened hstate

theorem blindToItems_knows : BlindToItems (Knows (F := F) workspaces) :=
  fun _ _ _ hstate ↦ ⟨hstate.persistent, hstate.known, hstate.workspaces_eq⟩

theorem blindToItems_settled : BlindToItems (Settled json content) :=
  fun _ _ _ hstate ↦ ⟨hstate.persistent, hstate.known, hstate.valid, hstate.stored⟩

theorem blindToItems_opened : BlindToItems (Opened json content) :=
  fun state explorer opened hstate ↦
    ⟨blindToItems_settled state explorer opened hstate.toSettled, hstate.rooted⟩

/-- Nothing but the config is written over the config, and a folder stays a folder. -/
theorem robust_opened :
    Robust content (fun place ↦ place ≠ [configDir, configFile]) (Opened json content) := by
  have hkeep : ∀ (state : State F) (disk : F) (place : List Component) (node : Node),
      Opened json content state → content state.disk place ≠ some .folder →
        place ≠ [configDir, configFile] →
          content disk = Function.update (content state.disk) place (some node) →
            Opened json content { state with disk } := by
    intro state disk place node hstate hfolder hne hwritten
    refine ⟨⟨hstate.persistent, hstate.known, hstate.valid, ?_⟩, fun name hname ↦ ?_⟩
    · show content disk [configDir, configFile] = _
      rw [hwritten, Function.update_of_ne (Ne.symm hne)]
      exact hstate.stored
    · obtain ⟨hname, root, hroot, hrooted⟩ := hstate.rooted name hname
      refine ⟨hname, root, hroot, ?_⟩
      show content disk root = _
      rw [hwritten, Function.update_of_ne]
      · exact hrooted
      · rintro rfl
        exact hfolder hrooted
  constructor
  · intro state disk place hstate hnone hwritten
    refine hkeep state disk place .folder hstate (by simp [hnone]) ?_ hwritten
    rintro rfl
    exact absurd (hstate.stored.symm.trans hnone) (by simp)
  · intro state disk place data hstate hne hfolder hwritten
    exact hkeep state disk place (.file data) hstate hfolder hne hwritten

/-- A folder stays a folder whatever is written. -/
theorem robust_folder (place : List Component) :
    Robust content (fun _ ↦ True) fun state : State F ↦ content state.disk place = some .folder := by
  have hkeep : ∀ (state : State F) (disk : F) (other : List Component) (node : Node),
      content state.disk place = some .folder → content state.disk other ≠ some .folder →
        content disk = Function.update (content state.disk) other (some node) →
          content disk place = some .folder := by
    intro state disk other node hfolder hother hwritten
    rw [hwritten, Function.update_of_ne]
    · exact hfolder
    · rintro rfl
      exact hother hfolder
  constructor
  · intro state disk other hstate hnone hwritten
    exact hkeep state disk other .folder hstate (by simp [hnone]) hwritten
  · intro state disk other data hstate _ hother hwritten
    exact hkeep state disk other (.file data) hstate hother hwritten

/-- The metadata file is not the config. -/
theorem metadata_ne_config (above : List Component) :
    above ++ [metadataFile] ≠ [configDir, configFile] := by
  intro heq
  have hlast := congrArg List.getLast? heq
  rw [List.getLast?_concat] at hlast
  exact absurd hlast (by decide)

/-- Saving the metadata keeps what holds between two operations. -/
theorem keeps_opened_saveMeta (hlawful : system.Lawful content) (henclosed : system.Enclosed) :
    Keeps (Opened json content) (saveMeta system json) :=
  robust_opened.saveMeta hlawful henclosed metadata_ne_config

/-- Deleting an item changes the items and the tabs, and what is announced. -/
theorem deleteItem_frame (state : State F) (fullPath : Str) :
    ∃ explorer opened, state.deleteItem fullPath = { state with explorer, opened } := by
  have hclose : ∀ (state : State F) (path : Str),
      ∃ explorer opened, state.closeFile path = { state with explorer, opened } := by
    intro state path
    have hleave : ∃ explorer opened, state.leaveFile path = { state with explorer, opened } := by
      unfold State.leaveFile
      split
      · split
        · obtain ⟨explorer, opened, heq, -⟩ := openFile_frame state _
          exact ⟨explorer, opened, heq⟩
        · exact ⟨_, _, rfl⟩
      · exact ⟨_, _, rfl⟩
    obtain ⟨explorer, opened, hleft⟩ := hleave
    unfold State.closeFile
    rw [hleft]
    split
    · exact ⟨_, _, rfl⟩
    · exact ⟨_, _, rfl⟩
  have hforget : ∀ (paths : List Str) (state : State F),
      ∃ explorer opened, paths.foldl State.forget state = { state with explorer, opened } := by
    intro paths
    induction paths with
    | nil => exact fun state ↦ ⟨_, _, rfl⟩
    | cons path rest ih =>
      intro state
      obtain ⟨explorer, opened, hfirst⟩ := hclose { state with
        explorer := { state.explorer with files := state.explorer.files.erase path } } path
      obtain ⟨explorer', opened', hrest⟩ := ih (state.forget path)
      refine ⟨explorer', opened', ?_⟩
      rw [List.foldl_cons, hrest, State.forget, hfirst]
  obtain ⟨explorer, opened, hforgot⟩ := hforget (state.explorer.pathsBelow fullPath) state
  unfold State.deleteItem
  dsimp only
  rw [hforgot]
  split
  · split
    · obtain ⟨explorer', opened', heq, -⟩ := openFile_frame
        { state with explorer := explorer.writeFolder (getParentPathFromPath fullPath), opened } _
      exact ⟨explorer', opened', heq⟩
    · exact ⟨_, _, rfl⟩
  · exact ⟨_, _, rfl⟩

/-- Opening the default file keeps such a property if saving the metadata does. -/
theorem BlindToItems.openDefaultFile {property : State F → Prop} (hblind : BlindToItems property)
    (hsave : Keeps property (saveMeta system json)) (defaultOpenFile : Option Str) :
    Keeps property (openDefaultFile system json defaultOpenFile) := by
  unfold Explorer.openDefaultFile
  split
  · refine Keeps.bind (Keeps.bind (keeps_convertToFullPath _) fun fullPath state hstate ↦ ?_)
      fun _ ↦ hsave
    show property (state.openFile fullPath)
    obtain ⟨explorer, opened, heq, -⟩ := openFile_frame state fullPath
    rw [heq]
    exact hblind state explorer opened hstate
  · exact fun state hstate ↦ hblind state state.explorer _ hstate

/-- Deleting an item keeps such a property if it does not look at the disk. -/
theorem BlindToItems.deleteItem {property : State F → Prop} (hitems : BlindToItems property)
    (hblind : Blind property) (path : Str) : Keeps property (deleteItem system json path) := by
  refine Keeps.bind (keeps_convertToFullPath path) fun fullPath ↦ Keeps.bind (keeps_evaluate _)
    fun srcPath ↦ Keeps.bind (keeps_throwIf _ _) fun _ ↦ Keeps.get_bind fun state ↦
      Keeps.bind (keeps_runIf fun _ ↦ hblind.removeItem _) fun _ ↦
        Keeps.bind ?_ fun _ ↦ hblind.saveMeta
  intro state hstate
  show property (state.deleteItem fullPath)
  obtain ⟨explorer, opened, heq⟩ := deleteItem_frame state fullPath
  rw [heq]
  exact hitems state explorer opened hstate

/-- Renaming an item keeps the mode and the names. -/
theorem keeps_knows_renameItem (oldPath newPath : Str) (opts : RenameItemOptions) :
    Keeps (Knows (F := F) workspaces) (renameItem system json oldPath newPath opts) := by
  refine Keeps.bind (keeps_convertToFullPath _) fun oldPath ↦ Keeps.bind (keeps_convertToFullPath _)
    fun newPath ↦ Keeps.ite (fun _ ↦ Keeps.pure ()) fun _ ↦ ?_
  refine Keeps.bind (keeps_throwIf _ _) fun _ ↦ Keeps.bind (keeps_evaluate _) fun srcPath ↦
    Keeps.bind (keeps_throwIf _ _) fun _ ↦ Keeps.bind (keeps_throwIf _ _) fun _ ↦
      Keeps.get_bind fun state ↦ Keeps.bind (keeps_throwIf _ _) fun _ ↦
        Keeps.bind (keeps_runIf fun _ ↦ blind_knows.rename _ _) fun _ ↦ Keeps.bind ?_ fun _ ↦
          Keeps.bind ?_ fun _ ↦ blind_knows.saveMeta
  · exact fun state hstate ↦ blindToItems_knows state _ state.opened hstate
  · exact fun state hstate ↦ ⟨hstate.persistent, hstate.known, hstate.workspaces_eq⟩

end Frames

/-! ### Entering a workspace -/

section Enter

/-- A change of the workspaces that does not throw. -/
theorem changeWorkspaces_eq_ok {change : Workspaces → Except Error Workspaces} {state after : State F}
    {result : Unit} : changeWorkspaces change state = .ok result after ↔
      ∃ workspaces, change state.workspaces = .ok workspaces ∧
        { state with workspaces } = after := by
  unfold changeWorkspaces
  cases change state.workspaces with
  | ok workspaces => simp
  | error error => simp

variable {workspaces : Workspaces}

/-- The config is at its place. -/
theorem resolve_workspacesConfigPath : resolve workspacesConfigPath = some [configDir, configFile] := by
  decide

/-- Saving the workspaces writes the config. -/
theorem stored_of_saveWorkspaces (hlawful : system.Lawful content) {before after : State F}
    (hbefore : Knows workspaces before) (hsave : saveWorkspaces system json before = .ok () after) :
    Knows workspaces after ∧ content after.disk [configDir, configFile] =
      some (.file (json.stringifyWorkspaces workspaces)) := by
  refine ⟨Triple.of_ok blind_knows.saveWorkspaces hbefore hsave, ?_⟩
  unfold saveWorkspaces at hsave
  rw [get_bind_apply, runIf, if_pos hbefore.known] at hsave
  obtain ⟨path, middle, hpath, hsave⟩ := bind_eq_ok.mp hsave
  obtain ⟨hfull, rfl⟩ := convertToFullPath_eq_ok.mp hpath
  rw [State.convertToFullPath_of_root before (by decide)] at hfull
  obtain rfl := Except.ok.inj hfull
  obtain ⟨_, created, hcreate, hwrite⟩ := bind_eq_ok.mp hsave
  obtain ⟨disk, hdisk, rfl⟩ := onDisk_eq_ok.mp hwrite
  have hwritten := (hlawful.writeFile_effect resolve_workspacesConfigPath hdisk).2
  show content disk [configDir, configFile] = _
  rw [hwritten, Function.update_self, hbefore.workspaces_eq]

/-- Entering a workspace settles the workspaces if the names are valid with the one that is entered. -/
theorem settled_of_enterWorkspace (hlawful : system.Lawful content) {before entered : State F}
    {name : Str} (hbefore : Knows workspaces before) (hvalid : (workspaces.setCurrentName name).Valid)
    (henter : enterWorkspace system json name before = .ok () entered) :
    Settled json content entered ∧ entered.workspaces = workspaces.setCurrentName name := by
  obtain ⟨_, saved, hsave, henter⟩ := bind_eq_ok.mp henter
  obtain ⟨_, changed, hchange, henter⟩ := bind_eq_ok.mp henter
  have hsaved : Knows workspaces saved := Triple.of_ok blind_knows.saveMeta hbefore hsave
  have hchanged : changed = { saved with workspaces := saved.workspaces.setCurrentName name } := by
    obtain ⟨changedWorkspaces, hworkspaces, rfl⟩ := changeWorkspaces_eq_ok.mp hchange
    obtain rfl := Except.ok.inj hworkspaces
    rfl
  have hknows : Knows (workspaces.setCurrentName name) changed := by
    rw [hchanged]
    refine ⟨hsaved.persistent, hsaved.known, ?_⟩
    show saved.workspaces.setCurrentName name = _
    rw [hsaved.workspaces_eq]
  obtain ⟨hentered, hstored⟩ := stored_of_saveWorkspaces hlawful hknows henter
  refine ⟨⟨hentered.persistent, hentered.known, ?_, ?_⟩, hentered.workspaces_eq⟩
  · rw [hentered.workspaces_eq]
    exact hvalid
  · rw [hentered.workspaces_eq]
    exact hstored

/-- The state in which the files of a workspace are loaded. -/
def State.emptied (state : State F) : State F :=
  { state with explorer := { state.explorer with files := .empty } }

/-- A workspace whose files have been loaded has its folder on the disk. -/
theorem rooted_of_loadFiles (hlawful : system.Lawful content) (henclosed : system.Enclosed)
    {state loaded : State F} {name : Str} (hcurrent : state.currentWorkspaceName = some name)
    (hload : loadFiles system state = .ok () loaded) :
    name ≠ [] ∧ ∃ place, resolve (workspacePath name) = some place ∧
      content state.disk place = some .folder := by
  obtain ⟨root, middle, hpath, hload⟩ := bind_eq_ok.mp hload
  obtain ⟨hroot, rfl⟩ : state.currentWorkspacePath = .ok root ∧ state = middle :=
    evaluate_eq_ok.mp hpath
  have hne : name ≠ [] := by
    rintro rfl
    unfold State.currentWorkspacePath at hroot
    rw [hcurrent] at hroot
    cases hroot
  obtain rfl : workspacePath name = root :=
    Except.ok.inj ((currentWorkspacePath_eq_ok hcurrent hne).symm.trans hroot)
  refine ⟨hne, ?_⟩
  rw [get_bind_apply, setupFiles] at hload
  obtain ⟨names, read, hread, -⟩ := bind_eq_ok.mp hload
  obtain ⟨path, middle, hpath, hread⟩ := bind_eq_ok.mp hread
  obtain ⟨hfull, rfl⟩ := convertToFullPath_eq_ok.mp hpath
  have hisFull := (isFullPath_of_currentWorkspacePath hroot).1
  rw [state.convertToFullPath_of_root hisFull] at hfull
  obtain rfl := Except.ok.inj hfull
  obtain ⟨hread, -⟩ := readDisk_eq_ok.mp hread
  cases hplace : resolve (workspacePath name) with
  | none =>
    obtain ⟨error, herror⟩ := @henclosed.readdir state.disk _ hplace
    exact absurd (hread.symm.trans herror) (by simp)
  | some place =>
    refine ⟨place, rfl, ?_⟩
    by_contra hfolder
    obtain ⟨error, herror⟩ := hlawful.readdir_missing hplace hfolder
    exact absurd (hread.symm.trans herror) (by simp)

/-- Initializing a workspace loads its files, or deletes it, and then reads its metadata if there is
anything. -/
theorem initCurrentWorkspaceWith_returns {deleteWorkspace : Action F Unit} {entered after : State F}
    (hinit : initCurrentWorkspaceWith system json deleteWorkspace entered = .ok () after) :
    ∃ ready, (loadFiles system entered.emptied = .ok () ready ∨ ∃ error failed,
        loadFiles system entered.emptied = .error error failed ∧
          deleteWorkspace failed = .ok () ready) ∧
      (after = ready ∨ loadMeta system json ready = .ok () after) := by
  unfold initCurrentWorkspaceWith at hinit
  rw [get_bind_apply] at hinit
  obtain ⟨_, checked, hcheck, hinit⟩ := bind_eq_ok.mp hinit
  obtain ⟨-, rfl⟩ := throwIf_eq_ok.mp hcheck
  obtain ⟨_, emptied, hemptied, hinit⟩ := bind_eq_ok.mp hinit
  obtain rfl : entered.emptied = emptied := modify_eq_ok.mp hemptied
  obtain ⟨_, ready, hready, hinit⟩ := bind_eq_ok.mp hinit
  refine ⟨ready, tryCatch_eq_ok.mp hready, ?_⟩
  rw [get_bind_apply] at hinit
  by_cases hnothing : ready.explorer.files.keys = [] ∧ ready.allWorkspaceNames.getD [] = []
  · rw [if_pos hnothing] at hinit
    exact Or.inl (pure_eq_ok.mp hinit).2.symm
  · rw [if_neg hnothing] at hinit
    exact Or.inr hinit

/-- What a switch has come to: the files of the workspace that has been entered are loaded and the names
are those of then, or it has been deleted and the names are those that the deletion has left. -/
inductive Switched (system : FileSystem F) (json : Json) (content : F → Content)
    (deleteWorkspace : Action F Unit) (entered : State F) (workspaces : Workspaces) : Prop
  | loaded (loaded : State F) (hload : loadFiles system entered.emptied = .ok () loaded)
      (hnames : workspaces = entered.workspaces)
  | deleted (error : Error) (failed deleted : State F)
      (hload : loadFiles system entered.emptied = .error error failed)
      (hsettled : Settled json content failed) (hfailed : failed.workspaces = entered.workspaces)
      (hdelete : deleteWorkspace failed = .ok () deleted) (hnames : workspaces = deleted.workspaces)

/-- Assumes: a lawful file system, names that are valid with the one that is entered, and a deletion that
leaves what holds between two operations. So does the switch. -/
theorem opened_of_switchWorkspaceWith (hlawful : system.Lawful content) (henclosed : system.Enclosed)
    {deleteWorkspace : Action F Unit} {before after : State F} {name : Str}
    {defaultOpenFile : Option Str} (hbefore : Knows workspaces before)
    (hvalid : (workspaces.setCurrentName name).Valid)
    (hdelete : ∀ failed deleted, Settled json content failed →
      deleteWorkspace failed = .ok () deleted → Opened json content deleted)
    (hswitch : switchWorkspaceWith system json deleteWorkspace name defaultOpenFile before =
      .ok () after) :
    Opened json content after ∧ ∃ entered, enterWorkspace system json name before = .ok () entered ∧
      Settled json content entered ∧ entered.workspaces = workspaces.setCurrentName name ∧
        Switched system json content deleteWorkspace entered after.workspaces := by
  obtain ⟨_, entered, henter, hswitch⟩ := bind_eq_ok.mp hswitch
  obtain ⟨_, ready, hinit, hswitch⟩ := bind_eq_ok.mp hswitch
  obtain ⟨_, opened, hopen, hswitch⟩ := bind_eq_ok.mp hswitch
  obtain rfl := modify_eq_ok.mp hswitch
  obtain ⟨hsettled, hnames⟩ := settled_of_enterWorkspace hlawful hbefore hvalid henter
  obtain ⟨loaded, hloaded, hready⟩ := initCurrentWorkspaceWith_returns hinit
  -- what is done after the files have been loaded keeps what holds then, and the names
  have hlater : Opened json content loaded → Opened json content opened := by
    intro hloaded
    have hkept : Opened json content ready := by
      rcases hready with rfl | hmeta
      · exact hloaded
      · exact Triple.of_ok blindToItems_opened.blindToExplorer.loadMeta hloaded hmeta
    exact Triple.of_ok (blindToItems_opened.openDefaultFile
      (keeps_opened_saveMeta hlawful henclosed) _) hkept hopen
  have hsame : Opened json content loaded → opened.workspaces = loaded.workspaces := by
    intro hloaded
    have hknows : Knows loaded.workspaces loaded := ⟨hloaded.persistent, hloaded.known, rfl⟩
    have hkept : Knows loaded.workspaces ready := by
      rcases hready with rfl | hmeta
      · exact hknows
      · exact Triple.of_ok blindToItems_knows.blindToExplorer.loadMeta hknows hmeta
    exact (Triple.of_ok (blindToItems_knows.openDefaultFile blind_knows.saveMeta _) hkept
      hopen).workspaces_eq
  have hemptied : Settled json content entered.emptied :=
    blindToItems_settled entered _ entered.opened hsettled
  have hopened : Opened json content loaded ∧
      Switched system json content deleteWorkspace entered loaded.workspaces := by
    rcases hloaded with hload | ⟨error, failed, hload, hdeleted⟩
    · have hkept : Settled json content loaded :=
        Triple.of_ok blindToItems_settled.blindToExplorer.loadFiles hemptied hload
      have hknows : Knows entered.workspaces loaded :=
        Triple.of_ok blindToItems_knows.blindToExplorer.loadFiles
          ⟨hemptied.persistent, hemptied.known, rfl⟩ hload
      refine ⟨⟨hkept, fun current hcurrent ↦ ?_⟩, .loaded loaded hload hknows.workspaces_eq⟩
      have hname : entered.emptied.currentWorkspaceName = some current := by
        rw [State.currentWorkspaceName, if_pos hemptied.known, ← hcurrent, hknows.workspaces_eq]
        rfl
      obtain ⟨hne, place, hplace, hfolder⟩ := rooted_of_loadFiles hlawful henclosed hname hload
      refine ⟨hne, place, hplace, ?_⟩
      have hblind : BlindToExplorer fun state : State F ↦ content state.disk place = some .folder :=
        fun _ _ hstate ↦ hstate
      exact Triple.of_ok hblind.loadFiles hfolder hload
    · have hkept : Settled json content failed :=
        Triple.of_error blindToItems_settled.blindToExplorer.loadFiles hemptied hload
      have hknows : Knows entered.workspaces failed :=
        Triple.of_error blindToItems_knows.blindToExplorer.loadFiles
          ⟨hemptied.persistent, hemptied.known, rfl⟩ hload
      exact ⟨hdelete failed loaded hkept hdeleted,
        .deleted error failed loaded hload hkept hknows.workspaces_eq hdeleted rfl⟩
  have hfinish := hlater hopened.1
  refine ⟨⟨⟨hfinish.persistent, hfinish.known, hfinish.valid, hfinish.stored⟩, hfinish.rooted⟩,
    entered, henter, hsettled, hnames, ?_⟩
  show Switched system json content deleteWorkspace entered opened.workspaces
  rw [hsame hopened.1]
  exact hopened.2

end Enter

/-! ### Deleting -/

section Delete

/-- The part of `deleteWorkspace` before the switch. -/
def deleteCurrent (system : FileSystem F) (json : Json) : Action F Unit := do
  let state ← get
  throwIf (!state.hasWorkspace) WorkspaceError.notFound
  let root ← currentWorkspacePath
  deleteItem system json root
  let state ← get
  changeWorkspaces fun workspaces ↦ .ok (workspaces.delete (state.currentWorkspaceName.getD []))

/-- A deletion deletes the current workspace, and then switches to the last one or saves the config. -/
theorem deleteWorkspaceWithin_returns {bound : ℕ} {before after : State F}
    (hdelete : deleteWorkspaceWithin system json (bound + 1) before = .ok () after) :
    ∃ removed, deleteCurrent system json before = .ok () removed ∧
      match removed.workspaces.allNames.getLast? with
      | some lastWorkspace => switchWorkspaceWith system json (deleteWorkspaceWithin system json bound)
          lastWorkspace none removed = .ok () after
      | none => saveWorkspaces system json { removed with workspaces := ⟨[], none⟩ } = .ok () after := by
  rw [deleteWorkspaceWithin, get_bind_apply] at hdelete
  obtain ⟨_, checked, hcheck, hdelete⟩ := bind_eq_ok.mp hdelete
  obtain ⟨root, rooted, hroot, hdelete⟩ := bind_eq_ok.mp hdelete
  obtain ⟨_, emptied, hitem, hdelete⟩ := bind_eq_ok.mp hdelete
  rw [get_bind_apply] at hdelete
  obtain ⟨_, removed, hremove, hdelete⟩ := bind_eq_ok.mp hdelete
  refine ⟨removed, ?_, ?_⟩
  · rw [deleteCurrent, get_bind_apply]
    refine bind_eq_ok.mpr ⟨_, checked, hcheck, bind_eq_ok.mpr ⟨root, rooted, hroot, ?_⟩⟩
    exact bind_eq_ok.mpr ⟨_, emptied, hitem, hremove⟩
  · obtain ⟨workspaces, hworkspaces, rfl⟩ := changeWorkspaces_eq_ok.mp hremove
    obtain rfl := Except.ok.inj hworkspaces
    change match (emptied.workspaces.delete
        (emptied.currentWorkspaceName.getD [])).allNames.getLast? with
      | some lastWorkspace => switchWorkspaceWith system json (deleteWorkspaceWithin system json bound)
          lastWorkspace none _ = .ok () after
      | none => _
    cases hlast : (emptied.workspaces.delete
        (emptied.currentWorkspaceName.getD [])).allNames.getLast? with
    | some lastWorkspace =>
      rw [hlast] at hdelete
      exact hdelete
    | none =>
      rw [hlast] at hdelete
      obtain ⟨_, cleared, hclear, hsave⟩ := bind_eq_ok.mp hdelete
      obtain ⟨workspaces, hworkspaces, rfl⟩ := changeWorkspaces_eq_ok.mp hclear
      obtain rfl := Except.ok.inj hworkspaces
      exact hsave

/-- The current workspace is taken off the names. -/
theorem knows_deleteCurrent {before removed : State F} (hbefore : Knows before.workspaces before)
    (hdelete : deleteCurrent system json before = .ok () removed) :
    ∃ name, before.workspaces.currentName = some name ∧
      Knows (before.workspaces.delete name) removed := by
  rw [deleteCurrent, get_bind_apply] at hdelete
  obtain ⟨_, checked, hcheck, hdelete⟩ := bind_eq_ok.mp hdelete
  obtain ⟨-, rfl⟩ := throwIf_eq_ok.mp hcheck
  obtain ⟨root, rooted, hpath, hdelete⟩ := bind_eq_ok.mp hdelete
  obtain ⟨hroot, rfl⟩ : before.currentWorkspacePath = .ok root ∧ before = rooted :=
    evaluate_eq_ok.mp hpath
  obtain ⟨_, emptied, hitem, hdelete⟩ := bind_eq_ok.mp hdelete
  rw [get_bind_apply] at hdelete
  have hemptied : Knows before.workspaces emptied :=
    Triple.of_ok (blindToItems_knows.deleteItem blind_knows root) hbefore hitem
  have hname : before.currentWorkspaceName = before.workspaces.currentName := if_pos hbefore.known
  cases hcurrent : before.workspaces.currentName with
  | none =>
    unfold State.currentWorkspacePath at hroot
    rw [hname, hcurrent] at hroot
    cases hroot
  | some name =>
    refine ⟨name, rfl, ?_⟩
    have hsame : emptied.currentWorkspaceName.getD [] = name := by
      rw [State.currentWorkspaceName, if_pos hemptied.known, hemptied.workspaces_eq, hcurrent]
      rfl
    obtain ⟨workspaces, hworkspaces, rfl⟩ := changeWorkspaces_eq_ok.mp hdelete
    obtain rfl := Except.ok.inj hworkspaces
    refine ⟨hemptied.persistent, hemptied.known, ?_⟩
    show emptied.workspaces.delete (emptied.currentWorkspaceName.getD []) = _
    rw [hsame, hemptied.workspaces_eq]

/-- The workspace that a deletion switches to can be set up. -/
def SetsUpNext (system : FileSystem F) (json : Json) (before : State F) : Prop :=
  ∀ removed lastWorkspace entered error failed, deleteCurrent system json before = .ok () removed →
    removed.workspaces.allNames.getLast? = some lastWorkspace →
      enterWorkspace system json lastWorkspace removed = .ok () entered →
        loadFiles system entered.emptied ≠ .error error failed

/-- The workspace that a deletion switches to is the one that it enters. -/
theorem setsUpNext_iff {before removed entered : State F} {lastWorkspace : Str}
    (hremove : deleteCurrent system json before = .ok () removed)
    (hlast : removed.workspaces.allNames.getLast? = some lastWorkspace)
    (henter : enterWorkspace system json lastWorkspace removed = .ok () entered) :
    SetsUpNext system json before ↔
      ∀ error failed, loadFiles system entered.emptied ≠ .error error failed := by
  constructor
  · exact fun hnext error failed ↦ hnext _ _ _ error failed hremove hlast henter
  · intro hload removed' last' entered' error failed hremove' hlast' henter'
    have hremoved := hremove.symm.trans hremove'
    injection hremoved with _ hremoved
    subst hremoved
    obtain rfl := Option.some.inj (hlast.symm.trans hlast')
    have hentered := henter.symm.trans henter'
    injection hentered with _ hentered
    subst hentered
    exact hload error failed

/-- What a deletion has come to: the names that are left are the others, or the first ones of them, and
they are all the others exactly if the workspace that it switches to can be set up. -/
structure Deleted (system : FileSystem F) (json : Json) (content : F → Content) (before after : State F)
    (name : Str) : Prop where
  opened : Opened json content after
  names : after.workspaces.allNames <+: before.workspaces.allNames.filter fun other ↦ other ≠ name
  only : after.workspaces.allNames = (before.workspaces.allNames.filter fun other ↦ other ≠ name) ↔
    SetsUpNext system json before

/-- Names that are there once are valid with the last of them as the current one. -/
theorem valid_setCurrentName_last {workspaces : Workspaces} {lastWorkspace : Str}
    (hnodup : workspaces.allNames.Nodup)
    (hlast : workspaces.allNames.getLast? = some lastWorkspace) :
    workspaces.setCurrentName lastWorkspace = ⟨workspaces.allNames, some lastWorkspace⟩ ∧
      (workspaces.setCurrentName lastWorkspace).Valid := by
  have hmem : lastWorkspace ∈ workspaces.allNames := List.mem_of_getLast? hlast
  rw [setCurrentName_of_mem hmem]
  refine ⟨rfl, hnodup, ?_, ?_⟩
  · rintro name ⟨⟩
    exact hmem
  · intro hnone
    cases hnone

/-- Without the last name the names are the first ones. -/
theorem filter_ne_last {names : List Str} {lastWorkspace : Str} (hnodup : names.Nodup)
    (hlast : names.getLast? = some lastWorkspace) :
    names.filter (fun other ↦ other ≠ lastWorkspace) = names.dropLast := by
  obtain ⟨first, rfl⟩ := List.getLast?_eq_some_iff.mp hlast
  rw [List.nodup_append] at hnodup
  rw [List.dropLast_concat, List.filter_append, List.filter_eq_self.mpr]
  · simp
  · intro other hother
    have hne := hnodup.2.2 other hother lastWorkspace (List.mem_singleton_self _)
    simpa using hne

/-- Assumes: a lawful file system. A deletion that returns leaves what holds between two operations. The
induction is on the number of workspaces that may be deleted. -/
theorem deleted_of_deleteWorkspaceWithin (hlawful : system.Lawful content)
    (henclosed : system.Enclosed) (bound : ℕ) :
    ∀ {before after : State F}, Settled json content before →
      deleteWorkspaceWithin system json bound before = .ok () after →
        ∃ name, before.workspaces.currentName = some name ∧
          Deleted system json content before after name := by
  induction bound with
  | zero => exact fun _ hdelete ↦ absurd hdelete throw_ne_ok
  | succ bound ih =>
    intro before after hbefore hdelete
    obtain ⟨removed, hremove, hnext⟩ := deleteWorkspaceWithin_returns hdelete
    obtain ⟨name, hcurrent, hremoved⟩ :=
      knows_deleteCurrent ⟨hbefore.persistent, hbefore.known, rfl⟩ hremove
    refine ⟨name, hcurrent, ?_⟩
    have hnodup : (before.workspaces.delete name).allNames.Nodup :=
      hbefore.valid.nodup.filter _
    rw [hremoved.workspaces_eq] at hnext
    cases hlast : (before.workspaces.delete name).allNames.getLast? with
    | none =>
      -- there is nothing to switch to: the config is saved without names
      rw [hlast] at hnext
      have hnone : (before.workspaces.delete name).allNames = [] := List.getLast?_eq_none_iff.mp hlast
      have hcleared : Knows ⟨[], none⟩ { removed with workspaces := ⟨[], none⟩ } :=
        ⟨hremoved.persistent, hremoved.known, rfl⟩
      obtain ⟨hafter, hstored⟩ := stored_of_saveWorkspaces hlawful hcleared hnext
      have hnames : after.workspaces.allNames =
          before.workspaces.allNames.filter fun other ↦ other ≠ name := by
        rw [hafter.workspaces_eq]
        exact hnone.symm
      refine ⟨⟨⟨hafter.persistent, hafter.known, ?_, ?_⟩, ?_⟩, hnames ▸ List.prefix_rfl,
        iff_of_true hnames ?_⟩
      · rw [hafter.workspaces_eq]
        exact ⟨List.nodup_nil, fun _ hsome ↦ (nomatch hsome), fun _ ↦ rfl⟩
      · rw [hafter.workspaces_eq]
        exact hstored
      · intro current hsome
        rw [hafter.workspaces_eq] at hsome
        cases hsome
      · intro other lastWorkspace entered error failed hother hsome
        obtain rfl : removed = other := by
          have hsame := hremove.symm.trans hother
          injection hsame
        rw [hremoved.workspaces_eq, hlast] at hsome
        cases hsome
    | some lastWorkspace =>
      rw [hlast] at hnext
      obtain ⟨hset, hvalid⟩ := valid_setCurrentName_last hnodup hlast
      obtain ⟨hopened, entered, henter, hentered, hnames, hswitched⟩ :=
        opened_of_switchWorkspaceWith hlawful henclosed hremoved hvalid
          (fun failed deleted hfailed hdeleted ↦ by
            obtain ⟨other, -, hother⟩ := ih hfailed hdeleted
            exact hother.opened) hnext
      rw [hset] at hnames
      cases hswitched with
      | loaded loaded hload hsame =>
        have hall : after.workspaces.allNames =
            before.workspaces.allNames.filter fun other ↦ other ≠ name := by
          rw [hsame, hnames]
          rfl
        refine ⟨hopened, hall ▸ List.prefix_rfl, iff_of_true hall ?_⟩
        rw [setsUpNext_iff hremove (hremoved.workspaces_eq ▸ hlast) henter]
        intro error failed herror
        exact absurd (hload.symm.trans herror) (by simp)
      | deleted error failed deleted hload hsettled hfailed hdeleted hsame =>
        obtain ⟨other, hother, hfewer⟩ := ih hsettled hdeleted
        rw [hfailed, hnames] at hother
        obtain rfl : lastWorkspace = other := Option.some.inj hother
        have hprefix : after.workspaces.allNames <+:
            (before.workspaces.delete name).allNames.dropLast := by
          have hleft := hfewer.names
          rw [hfailed, hnames] at hleft
          rw [hsame, ← filter_ne_last hnodup hlast]
          exact hleft
        refine ⟨hopened, hprefix.trans (List.dropLast_prefix _), iff_of_false ?_ ?_⟩
        · intro hall
          have hlength := hprefix.length_le
          rw [List.length_dropLast, hall] at hlength
          have hpositive : 0 < (before.workspaces.delete name).allNames.length :=
            List.length_pos_of_mem (List.mem_of_getLast? hlast)
          change (before.workspaces.delete name).allNames.length ≤ _ at hlength
          omega
        · rw [setsUpNext_iff hremove (hremoved.workspaces_eq ▸ hlast) henter]
          exact fun hnever ↦ hnever error failed hload

/-- A deletion leaves what holds between two operations. -/
theorem deleted_of_deleteWorkspace (hlawful : system.Lawful content) (henclosed : system.Enclosed)
    {before after : State F} (hbefore : Settled json content before)
    (hdelete : deleteWorkspace system json before = .ok () after) :
    ∃ name, before.workspaces.currentName = some name ∧
      Deleted system json content before after name := by
  rw [deleteWorkspace, get_bind_apply] at hdelete
  exact deleted_of_deleteWorkspaceWithin hlawful henclosed _ hbefore hdelete

/-- A switch leaves what holds between two operations. -/
theorem opened_of_switchWorkspace (hlawful : system.Lawful content) (henclosed : system.Enclosed)
    {workspaces : Workspaces} {before after : State F} {name : Str} {defaultOpenFile : Option Str}
    (hbefore : Knows workspaces before) (hvalid : (workspaces.setCurrentName name).Valid)
    (hswitch : switchWorkspace system json name defaultOpenFile before = .ok () after) :
    Opened json content after ∧ ∃ entered, enterWorkspace system json name before = .ok () entered ∧
      Settled json content entered ∧ entered.workspaces = workspaces.setCurrentName name ∧
        Switched system json content (deleteWorkspace system json) entered after.workspaces := by
  refine opened_of_switchWorkspaceWith hlawful henclosed hbefore hvalid ?_ hswitch
  intro failed deleted hfailed hdelete
  obtain ⟨name, -, hdeleted⟩ := deleted_of_deleteWorkspace hlawful henclosed hfailed hdelete
  exact hdeleted.opened

end Delete

end Playground.Explorer
