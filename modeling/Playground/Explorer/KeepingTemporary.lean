import Playground.Explorer.DroppedNames
import Playground.Explorer.PortableProjects
import Playground.Explorer.RestoredTabs

/-!
# Keeping a temporary project

`PgExplorer.newWorkspace` with `fromTemporary` makes a workspace of a temporary project: it moves the
paths of the state below the workspace, writes the files to the disk, and switches to the workspace,
which saves the metadata and loads everything again. `KeepsProject` says what should have become of the
project: the same files with the same contents, in memory and on the disk, the same tabs and the same
current file, all under their new paths.

The project is kept exactly if it is portable and its current file is the last tab (`keepsProject_iff`).
The state in which everything has been written (`MovedTo`) is followed through the switch, in which the
metadata of a project with items is saved and read back, and the folder of a project without items has to
be there already.
-/

set_option autoImplicit false
set_option relaxedAutoImplicit false

namespace Playground.Explorer

open Library

variable {F : Type} {system : FileSystem F} {json : Json} {content : F → Content}

/-! ### Temporary projects -/

/-- A temporary project: the paths of its items begin at the root, and its tabs are valid and files. -/
structure TemporaryProject (state : State F) : Prop where
  temporary : state.isTemporary = true
  full : ∀ path ∈ state.explorer.files.keys, IsFullPath path
  items : ∀ path ∈ state.explorer.files.keys, state.explorer.files.item path ≠ none
  tabs : state.explorer.ValidTabs
  tabFiles : ∀ tab ∈ state.explorer.tabs, state.explorer.files.content tab ≠ none

/-- The workspace has the files, the tabs and the current file of the temporary project, under their
new paths. -/
structure KeepsProject (content : F → Content) (name : Component) (before after : State F) : Prop where
  persistent : after.isTemporary = false
  current : after.currentWorkspaceName = some name
  memory : ∀ path data, after.explorer.files.content path = some data ↔
    ∃ source, movedPath name source = path ∧ before.explorer.files.content source = some data
  disk : ∀ below data, below ≠ [metadataDir, metadataFile] →
    (content after.disk (name :: below) = some (.file data) ↔ ∃ source,
      resolve (movedPath name source) = some (name :: below) ∧
        before.explorer.files.content source = some data)
  tabs : after.explorer.tabs = before.explorer.tabs.map (movedPath name)
  currentFile : after.explorer.currentFilePath =
    before.explorer.currentFilePath.map (movedPath name)

/-! ### The parts of `newWorkspace` -/

section Parts

variable {state after : State F} {name : Str}

/-- A call that keeps a temporary project under a valid name. -/
theorem newWorkspaceFromTemporary_of_newWorkspace (htemporary : state.isTemporary = true)
    (hrun : newWorkspace system json name keepTemporary state = .ok () after) :
    isWorkspaceNameValid (trim name) = true ∧
      newWorkspaceFromTemporary system json (trim name) state = .ok () after := by
  obtain ⟨checked, start, hcheck, hrest⟩ := bind_eq_ok.mp hrun
  obtain ⟨hvalid, rfl⟩ := throwIf_eq_ok.mp hcheck
  have hkeep : (keepTemporary.fromTemporary && state.isTemporary) = true := by
    rw [htemporary]
    rfl
  rw [get_bind_apply, if_pos hkeep] at hrest
  refine ⟨?_, hrest⟩
  simpa [keepTemporary] using hvalid

/-- Assumes: a lawful file system whose calls fail above the root. Initializing the workspaces reads
and writes the config. -/
theorem initWorkspaces_writes (hlawful : system.Lawful content) (henclosed : system.Enclosed)
    (hrun : initWorkspaces system json state = .ok () after) :
    HiddenFree (content state.disk) [] configDir configFile ∧
      ∃ disk workspaces data, after = { state with disk, hasWorkspace := true, workspaces } ∧
        content disk = addHidden (content state.disk) [] configDir configFile data := by
  unfold initWorkspaces at hrun
  rw [get_bind_apply] at hrun
  obtain ⟨workspaces, middle, hread, hrest⟩ := bind_eq_ok.mp hrun
  obtain rfl : middle = state := by
    have hkeeps : Keeps (fun current : State F ↦ current = state) (PgFs.readToJSONOrDefault system
        json.parseWorkspaces workspacesConfigPath state.workspaces) :=
      keeps_readToJSONOrDefault _ _ _
    exact hkeeps.of_ok rfl hread
  obtain ⟨changed, known, hknown, hsave⟩ := bind_eq_ok.mp hrest
  obtain rfl : { middle with hasWorkspace := true, workspaces } = known :=
    (modify_eq_ok.mp hknown)
  have hwrite := hsave
  unfold saveWorkspaces at hwrite
  rw [get_bind_apply, runIf, if_pos rfl] at hwrite
  obtain ⟨written, -, hwrites⟩ := writeFile_returns hlawful henclosed
    (State.convertToFullPath_of_root _ (by decide)) resolve_workspacesConfigPath hwrite
  have hfree : HiddenFree (content middle.disk) [] configDir configFile := by
    refine ⟨fun data hdata ↦ ?_, hwrites.free⟩
    -- a file in the place of the folder would still be there
    have hfolder : content written [configDir] = some .folder := by
      apply hlawful.parent
      rw [List.singleton_append, hwrites.written]
      exact Option.some_ne_none _
    have hkept := hwrites.others [configDir] (by decide)
    have hsome : fileAt (content middle.disk) [configDir] = some data := fileAt_eq_some.mpr hdata
    rw [fileAt_of_folder hfolder] at hkept
    exact absurd (hkept.trans hsome) (Option.some_ne_none data).symm
  obtain ⟨disk, hstored, hcontent⟩ := @saveWorkspaces_eq_ok _ system json content
    { middle with hasWorkspace := true, workspaces } hlawful hfree rfl
  rw [hstored] at hsave
  obtain rfl : { middle with disk, hasWorkspace := true, workspaces } = after := by
    injection hsave
  exact ⟨hfree, disk, workspaces, _, rfl, hcontent⟩

/-- The state in which a temporary project is written to the disk. -/
def State.movedTo (state : State F) (disk : F) (names : List Str) (name : Str) : State F :=
  { state with
    disk
    isTemporary := false
    hasWorkspace := true
    workspaces := ⟨names ++ [name], some name⟩
    explorer := state.explorer.moveBelow name }

/-- Assumes: a lawful file system whose calls fail above the root. The steps of keeping a temporary
project. -/
theorem newWorkspaceFromTemporary_returns (hlawful : system.Lawful content)
    (henclosed : system.Enclosed)
    (hrun : newWorkspaceFromTemporary system json name state = .ok () after) :
    HiddenFree (content state.disk) [] configDir configFile ∧ ∃ disk names data, ∃ written : State F,
      content disk = addHidden (content state.disk) [] configDir configFile data ∧
        writeAllFromState system (state.movedTo disk names name) = .ok () written ∧
        switchWorkspace system json name none written = .ok () after := by
  obtain ⟨_, shown, hshown, hrest⟩ := bind_eq_ok.mp hrun
  obtain rfl : { state with isTemporary := false } = shown := modify_eq_ok.mp hshown
  obtain ⟨_, known, hknown, hrest⟩ := bind_eq_ok.mp hrest
  obtain ⟨hfree, disk, workspaces, data, rfl, hwrites⟩ := initWorkspaces_writes hlawful henclosed hknown
  obtain ⟨_, named, hnamed, hrest⟩ := bind_eq_ok.mp hrest
  obtain ⟨added, hadded, rfl⟩ := changeWorkspaces_eq_ok.mp hnamed
  obtain ⟨_, moved, hmoved, hrest⟩ := bind_eq_ok.mp hrest
  obtain ⟨_, written, hwritten, hswitch⟩ := bind_eq_ok.mp hrest
  have hnames : added = ⟨workspaces.allNames ++ [name], some name⟩ := by
    rw [Workspaces.new] at hadded
    split at hadded
    · cases hadded
    · exact (Except.ok.inj hadded).symm
  subst hnames
  obtain rfl : state.movedTo disk workspaces.allNames name = moved := modify_eq_ok.mp hmoved
  exact ⟨hfree, disk, workspaces.allNames, data, written, hwrites, hwritten, hswitch⟩

end Parts

/-! ### The project that has been written -/

section Written

variable {name : Component} {state moved after : State F} {files : ExplorerFiles}

/-- The state of a temporary project whose items have been moved and written to the disk. -/
structure MovedTo (content : F → Content) (name : Component) (state moved : State F)
    (files : ExplorerFiles) : Prop where
  temporary : moved.isTemporary = false
  workspace : moved.hasWorkspace = true
  current : moved.workspaces.currentName = some name
  listed : name ∈ moved.workspaces.allNames
  explorer : moved.explorer =
    { state.explorer with files }.setTabs (state.explorer.tabs.map (movedPath name))
  entries : files.entries = state.explorer.movedItems name
  configFolder : content moved.disk [configDir] = some .folder
  configData : fileAt (content moved.disk) [configDir, configFile] ≠ none
  data : ∀ below, fileAt (content moved.disk) (name :: below) =
    (lastWritten (state.explorer.movedItems name) (name :: below)).or
      (fileAt (content state.disk) (name :: below))
  folder : files.keys = [] → content moved.disk [name] = content state.disk [name]

/-- Assumes: a lawful file system whose calls fail above the root. A temporary project is moved and
written to the disk before its workspace is switched to. -/
theorem exists_movedTo (hlawful : system.Lawful content) (henclosed : system.Enclosed)
    (hname : IsComponent name) (hdot : '.' ∉ name)
    (hfull : ∀ path ∈ state.explorer.files.keys, IsFullPath path)
    (hrun : newWorkspaceFromTemporary system json name state = .ok () after) :
    ∃ moved files, MovedTo content name state moved files ∧
      switchWorkspace system json name none moved = .ok () after := by
  obtain ⟨hfree, disk, names, config, moved, hconfig, hwriteAll, hswitch⟩ :=
    newWorkspaceFromTemporary_returns hlawful henclosed hrun
  obtain ⟨files, hentries, hmove⟩ := entries_moveBelow hname hfull
  have hfiles : (state.movedTo disk names name).explorer.files = files := congrArg _ hmove
  have hpaths : ∀ path ∈ (state.movedTo disk names name).explorer.files.keys, IsFullPath path := by
    rw [hfiles]
    intro path hpath
    rw [OrderedMap.keys, hentries] at hpath
    obtain ⟨source, hsource, rfl⟩ := exists_source_of_mem_movedEntries hpath
    obtain ⟨rest, rfl⟩ := exists_eq_cons_slash (hfull source hsource)
    rw [movedPath_cons hname]
    exact isFullPath_append (isFullPath_workspacePath name) rest
  obtain ⟨last, rfl, hwrites⟩ := writeAllFromState_returns hlawful henclosed hpaths hwriteAll
  have hknown : WritesEntries (state.explorer.movedItems name) (content disk) (content last) := by
    rwa [hfiles, hentries] at hwrites
  have hne : name ≠ configDir := by
    rintro rfl
    exact hdot (by decide)
  have hconfigFile : content disk [configDir, configFile] = some (.file config) := by
    rw [hconfig]
    exact addHidden_file_self
  have hconfigDir : content disk [configDir] = some .folder := by
    apply hlawful.parent
    rw [List.singleton_append, hconfigFile]
    exact Option.some_ne_none _
  refine ⟨_, files, ?_, hswitch⟩
  refine ⟨rfl, rfl, rfl, List.mem_append_right _ List.mem_cons_self, hmove, hentries,
    hknown.folders _ hconfigDir, ?_, ?_, ?_⟩
  · rw [hknown.data, fileAt_eq_some.mpr hconfigFile]
    exact fun hnone ↦ Option.some_ne_none _ (Option.or_eq_none_iff.mp hnone).2
  · intro below
    have hplace : name :: below ≠ [] ++ [configDir, configFile] :=
      fun heq ↦ hne (List.cons.inj heq).1
    rw [← fileAt_addHidden hfree hplace, ← hconfig]
    exact hknown.data (name :: below)
  · intro hkeys
    -- the loop over no keys leaves the state as it is
    have hsame : content last = content disk := by
      unfold writeAllFromState at hwriteAll
      rw [get_bind_apply, hfiles, hkeys] at hwriteAll
      obtain ⟨-, hlast⟩ := pure_eq_ok.mp hwriteAll
      exact (congrArg (fun written : State F ↦ content written.disk) hlast).symm
    change content last [name] = _
    rw [hsame, hconfig]
    exact addHidden_of_ne (fun heq ↦ hne (List.cons.inj heq).1) (fun heq ↦ hne (List.cons.inj heq).1)

theorem MovedTo.files_eq (hmoved : MovedTo content name state moved files) :
    moved.explorer.files = files := by
  rw [hmoved.explorer]
  rfl

theorem MovedTo.currentWorkspaceName_eq (hmoved : MovedTo content name state moved files) :
    moved.currentWorkspaceName = some name := by
  rw [State.currentWorkspaceName, if_pos hmoved.workspace, hmoved.current]

/-- The root of the project is the folder of the workspace. -/
theorem MovedTo.currentWorkspacePath_eq (hname : IsComponent name)
    (hmoved : MovedTo content name state moved files) :
    moved.currentWorkspacePath = .ok (workspacePath name) :=
  currentWorkspacePath_eq_ok hmoved.currentWorkspaceName_eq hname.1

/-- The root stays the same when the workspace is entered. -/
theorem MovedTo.currentWorkspacePath_entered (hname : IsComponent name)
    (hmoved : MovedTo content name state moved files) {disk : F} {loaded : ExplorerFiles} :
    ((moved.entered disk name).withFiles loaded).currentWorkspacePath = .ok (workspacePath name) := by
  refine currentWorkspacePath_eq_ok ?_ hname.1
  change (moved.entered disk name).currentWorkspaceName = some name
  rw [State.currentWorkspaceName, State.entered, setCurrentName_of_mem hmoved.listed,
    if_pos hmoved.workspace]

/-- A file that is there is in the way of no hidden file. -/
theorem hiddenFree_of_fileAt {place : List Component} {dir file : Component} {before : Content}
    (hdir : ∀ data, before (place ++ [dir]) ≠ some (.file data))
    (hfile : fileAt before (place ++ [dir, file]) ≠ none) : HiddenFree before place dir file :=
  ⟨hdir, fun hfolder ↦ hfile (fileAt_of_folder hfolder)⟩

/-- The data of a file is that of an item with some position. -/
theorem content_eq_some_iff {path data : Str} : files.content path = some data ↔
    ∃ itemMeta, files.lookup path = some (some ⟨some data, itemMeta⟩) := by
  rw [ExplorerFiles.content, ExplorerFiles.item]
  cases files.lookup path with
  | none => simp
  | some item =>
    cases item with
    | none => simp
    | some info =>
      obtain ⟨content, itemMeta⟩ := info
      simp

end Written

/-! ### The workspace that is loaded again -/

section Loaded

variable {name : Component} {state moved : State F} {files loaded : ExplorerFiles} {disk : F}
  {metaFile : List ItemMetaEntry}

/-- The state in which a call ends has the files of the project exactly if its folder has them, and they
are moved to paths that are loaded again. -/
theorem MovedTo.keepsFiles_iff (hlawful : system.Lawful content) (hname : IsComponent name)
    (hmoved : MovedTo content name state moved files)
    (hloaded : Loaded (content disk) (workspacePath name) [name] .empty loaded) :
    ((∀ path data, (moved.switched disk name loaded metaFile).explorer.files.content path = some data ↔
        ∃ source, movedPath name source = path ∧ state.explorer.files.content source = some data) ∧
      HoldsFiles name state.explorer.files fun below ↦ fileAt (content disk) (name :: below)) ↔
    (∀ path, state.explorer.files.content path ≠ none → IsLoadedAgain name path) ∧
      HoldsFiles name state.explorer.files fun below ↦ fileAt (content disk) (name :: below) := by
  have hplace := resolve_workspacePath hname
  obtain ⟨-, -, place, hplace', hstored⟩ := @shows_switched _ content moved name disk loaded metaFile
    [name] hmoved.workspace hmoved.temporary hmoved.listed hplace hloaded
  obtain rfl : [name] = place := Option.some.inj (hplace.symm.trans hplace')
  -- a file is loaded if there is data in its place, which is reached through valid names
  have hlisted : ∀ path data,
      (moved.switched disk name loaded metaFile).explorer.files.content path = some data ↔
        ∃ names : List Component, (∀ other ∈ names, isItemNameValid other = true) ∧
          itemPath (workspacePath name) names = path ∧
            fileAt (content disk) (name :: names) = some data := by
    intro path data
    rw [content_eq_some_iff, hstored.listed]
    exact lists_iff_fileAt
  have hcomponents : ∀ {names : List Component} {data : Str},
      fileAt (content disk) (name :: names) = some data → ∀ other ∈ names, IsComponent other := by
    intro names data hdata
    refine @isComponent_of_mem _ _ content disk hlawful [name] names ?_
    rw [List.singleton_append, fileAt_eq_some.mp hdata]
    exact Option.some_ne_none _
  refine and_congr_left fun hholds ↦ ⟨fun hmemory path hpath ↦ ?_, fun hnamed path data ↦ ?_⟩
  · obtain ⟨data, hdata⟩ := Option.ne_none_iff_exists'.mp hpath
    obtain ⟨names, hvalid, hsame, hfound⟩ := (hlisted _ data).mp ((hmemory _ data).mpr ⟨path, rfl, hdata⟩)
    exact ⟨names, fun other hother ↦ ⟨hcomponents hfound other hother, hvalid other hother⟩, hsame⟩
  · rw [hlisted]
    constructor
    · rintro ⟨names, hvalid, rfl, hfound⟩
      obtain ⟨source, hsource, hdata⟩ := (hholds names data (ne_metadata_of_valid hvalid)).mp hfound
      obtain ⟨others, hothers, hsame⟩ := hnamed source (by simp [hdata])
      rw [resolve_moved hname (fun other hother ↦ (hothers other hother).1) hsame] at hsource
      obtain rfl : others = names := (List.cons.inj (Option.some.inj hsource)).2
      exact ⟨source, hsame.symm, hdata⟩
    · rintro ⟨source, rfl, hdata⟩
      obtain ⟨names, hnames, hsame⟩ := hnamed source (by simp [hdata])
      have hvalid := fun other hother ↦ (hnames other hother).2
      have hplaced := resolve_moved hname (fun other hother ↦ (hnames other hother).1) hsame
      exact ⟨names, hvalid, hsame,
        (hholds names data (ne_metadata_of_valid hvalid)).mpr ⟨source, hplaced, hdata⟩⟩

/-- The tabs and the current file under their new paths. -/
structure KeepsTabs (name : Str) (before after : ExplorerState) : Prop where
  tabs : after.tabs = before.tabs.map (movedPath name)
  currentFile : after.currentFilePath = before.currentFilePath.map (movedPath name)

/-- Assumes: a lawful file system. The state in which a call ends keeps the project exactly if the files
are kept in its folder and loaded again, and the tabs and the current file are kept. -/
theorem MovedTo.keepsProject_iff_loaded (hlawful : system.Lawful content) (hname : IsComponent name)
    (hfull : ∀ path ∈ state.explorer.files.keys, IsFullPath path)
    (hmoved : MovedTo content name state moved files)
    (hdata : ∀ below, below ≠ [metadataDir, metadataFile] →
      fileAt (content disk) (name :: below) = fileAt (content moved.disk) (name :: below))
    (hloaded : Loaded (content disk) (workspacePath name) [name] .empty loaded) :
    KeepsProject content name state (moved.switched disk name loaded metaFile) ↔
      PortableFiles (content state.disk) name state.explorer ∧
        KeepsTabs name state.explorer (moved.switched disk name loaded metaFile).explorer := by
  have hshows := @shows_switched _ content moved name disk loaded metaFile [name] hmoved.workspace
    hmoved.temporary hmoved.listed (resolve_workspacePath hname) hloaded
  have hfiles := @MovedTo.keepsFiles_iff _ system content name state moved files loaded disk metaFile
    hlawful hname hmoved hloaded
  have hholds := fun hnamed ↦ @holdsFiles_iff name (content state.disk) state.explorer hname hfull hnamed
    (fun below ↦ fileAt (content disk) (name :: below))
    fun below hbelow ↦ (hdata below hbelow).trans (hmoved.data below)
  constructor
  · intro hkeeps
    obtain ⟨hnamed, hkept⟩ := hfiles.mp ⟨hkeeps.memory, fun below data hbelow ↦
      fileAt_eq_some.trans (hkeeps.disk below data hbelow)⟩
    exact ⟨(hholds hnamed).mp hkept, hkeeps.tabs, hkeeps.currentFile⟩
  · rintro ⟨hportable, htabs, hcurrent⟩
    obtain ⟨hmemory, hdisk⟩ :=
      hfiles.mpr ⟨hportable.named, (hholds hportable.named).mpr hportable⟩
    exact ⟨hshows.persistent, hshows.current, hmemory, fun below data hbelow ↦
      fileAt_eq_some.symm.trans (hdisk below data hbelow), htabs, hcurrent⟩

end Loaded

/-! ### Projects with items -/

section Items

variable {name : Component} {state moved after : State F} {files loaded : ExplorerFiles} {disk : F}
  {path : Str}

/-- A path that is loaded again lies under the workspace. -/
theorem IsLoadedAgain.liesUnder (hname : IsComponent name) (hpath : IsLoadedAgain name path) :
    LiesUnder (workspacePath name) (movedPath name path) := by
  obtain ⟨names, hnames, hmoved⟩ := hpath
  rw [← hmoved]
  rcases List.eq_nil_or_concat' names with rfl | ⟨front, last, rfl⟩
  · exact ⟨[], (List.append_nil _).symm, by simp⟩
  have hlast : IsComponent last := (hnames last (List.mem_append_right _ List.mem_cons_self)).1
  have hfront : ∀ other ∈ front, IsComponent other :=
    fun other hother ↦ (hnames other (List.mem_append_left _ hother)).1
  rw [itemPath_concat (isFullPath_workspacePath name) hfront hlast,
    appendSlash_of_getLast? (getLast?_workspacePath hname)]
  refine ⟨_, rfl, ?_⟩
  -- the first name begins with no slash
  have hhead : ∀ (first : Component) (rest : Str), IsComponent first →
      (first ++ rest).head? ≠ some '/' := by
    rintro first rest ⟨hne, -, -, hslash⟩ heq
    rw [List.head?_append_of_ne_nil _ hne, List.head?_eq_some_head hne] at heq
    exact hslash (Option.some.inj heq ▸ List.head_mem hne)
  cases front with
  | nil =>
    rw [List.map_nil, List.flatten_nil, List.nil_append]
    exact hhead last _ hlast
  | cons first rest =>
    rw [List.map_cons, List.flatten_cons, List.append_assoc, List.append_assoc, List.append_assoc]
    exact hhead first _ (hfront first List.mem_cons_self)

/-- Assumes: valid tabs with full paths, which are moved below the workspace. What is read back are the
tabs under their new paths exactly if none is moved onto a path that is still to come, and with them the
current file exactly if it is the last tab. -/
theorem MovedTo.keepsTabs_iff (hname : IsComponent name) (hmoved : MovedTo content name state moved files)
    (hvalid : state.explorer.ValidTabs) (hfull : ∀ tab ∈ state.explorer.tabs, IsFullPath tab)
    (hunder : ∀ tab ∈ state.explorer.tabs, LiesUnder (workspacePath name) (movedPath name tab)) :
    KeepsTabs name state.explorer (moved.switched disk name loaded
        (moved.explorer.entries.map (reread (workspacePath name)))).explorer ↔
      (∀ tab ∈ state.explorer.tabs,
        movedPath name tab ∈ (state.explorer.movedItems name).map Prod.fst) ∧
      LastIsCurrent name state.explorer := by
  have htabs : moved.explorer.tabs = state.explorer.tabs.map (movedPath name) := by
    rw [hmoved.explorer]
    exact tabs_setTabs_movedPath hname hvalid.nodup hfull
  have hmovedValid : moved.explorer.ValidTabs := by
    rw [hmoved.explorer]
    exact validTabs_setTabs_movedPath hname hvalid hfull
  have hmovedUnder : ∀ tab ∈ moved.explorer.tabs, LiesUnder (workspacePath name) tab := by
    rw [htabs]
    exact List.forall_mem_map.mpr hunder
  have hroot := getLast?_workspacePath hname
  have hback := tabs_applyMeta_reread_iff hroot hmovedUnder { moved.explorer with files := loaded }
    hmovedValid.nodup
  have hkeys : (∀ tab ∈ moved.explorer.tabs, tab ∈ moved.explorer.files.keys) ↔
      ∀ tab ∈ state.explorer.tabs,
        movedPath name tab ∈ (state.explorer.movedItems name).map Prod.fst := by
    rw [htabs, List.forall_mem_map, hmoved.files_eq, OrderedMap.keys, hmoved.entries]
  have hcurrent := @currentFilePath_setTabs_movedPath_iff name state.explorer files hname hvalid hfull
  rw [← hmoved.explorer] at hcurrent
  rw [hkeys, htabs] at hback
  constructor
  · rintro ⟨hkept, hcurrentFile⟩
    refine ⟨hback.mp hkept, hcurrent.mp ?_⟩
    rw [← hcurrentFile]
    exact (currentFilePath_applyMeta_reread hroot hmovedUnder _ hmovedValid
      (hkeys.mpr (hback.mp hkept))).symm
  · rintro ⟨hkept, hlast⟩
    refine ⟨hback.mpr hkept, ?_⟩
    rw [← hcurrent.mpr hlast]
    exact currentFilePath_applyMeta_reread hroot hmovedUnder _ hmovedValid (hkeys.mpr hkept)

/-- Assumes: full paths with items. So are the paths that they are moved to, below the workspace. -/
theorem MovedTo.keys_of_items (hname : IsComponent name) (hmoved : MovedTo content name state moved files)
    (hfull : ∀ path ∈ state.explorer.files.keys, IsFullPath path)
    (hitems : ∀ path ∈ state.explorer.files.keys, state.explorer.files.item path ≠ none) :
    ∀ path ∈ moved.explorer.files.keys,
      workspacePath name <+: path ∧ moved.explorer.files.item path ≠ none := by
  have hentries : ∀ entry ∈ state.explorer.files.entries, entry.2 ≠ none := by
    rintro ⟨source, item⟩ hentry
    have hitem := hitems source (List.mem_map_of_mem hentry)
    rw [ExplorerFiles.item, OrderedMap.lookup_eq_some_iff.mpr hentry] at hitem
    exact hitem
  intro path hpath
  rw [hmoved.files_eq] at hpath ⊢
  obtain ⟨item, hitem⟩ := OrderedMap.mem_keys_iff.mp hpath
  have hentry : (path, item) ∈ state.explorer.movedItems name :=
    hmoved.entries ▸ OrderedMap.lookup_eq_some_iff.mp hitem
  constructor
  · obtain ⟨source, hsource, rfl⟩ :=
      exists_source_of_mem_movedEntries (List.mem_map_of_mem (f := Prod.fst) hentry)
    obtain ⟨rest, rfl⟩ := exists_eq_cons_slash (hfull source hsource)
    rw [movedPath_cons hname]
    exact List.prefix_append _ _
  · rw [ExplorerFiles.item, hitem]
    exact item_ne_none_of_mem_movedEntries hentries (fun _ hcarried ↦ absurd hcarried List.not_mem_nil)
      _ hentry

/-- Nothing is in the way of the config. -/
theorem MovedTo.configFree (hmoved : MovedTo content name state moved files) :
    HiddenFree (content moved.disk) [] configDir configFile := by
  refine hiddenFree_of_fileAt (fun data hdata ↦ ?_) hmoved.configData
  rw [List.nil_append, hmoved.configFolder] at hdata
  cases hdata

/-- The folder of the config stays where it is when a file of the workspace is written. -/
theorem MovedTo.configFree_of_writesFile (hmoved : MovedTo content name state moved files)
    {place : List Component} {text : Str} {saved : Content}
    (hwrites : WritesFile (content moved.disk) place text saved)
    (hplace : place ≠ [configDir, configFile]) : HiddenFree saved [] configDir configFile := by
  refine hiddenFree_of_fileAt (fun data hdata ↦ ?_) ?_
  · rw [List.nil_append, hwrites.folders _ hmoved.configFolder] at hdata
    cases hdata
  · rw [List.nil_append, hwrites.others _ hplace.symm]
    exact hmoved.configData

/-- Assumes: a lawful file system whose calls fail above the root, a `JSON` that reads back what it
writes, and full paths with items. The switch saves the metadata of the project, and reads it back. -/
theorem MovedTo.exists_switched_of_keys (hlawful : system.Lawful content)
    (henclosed : system.Enclosed) (hjson : json.RoundTrips) (hname : IsComponent name) (hdot : '.' ∉ name)
    (hmoved : MovedTo content name state moved files)
    (hfull : ∀ path ∈ state.explorer.files.keys, IsFullPath path)
    (hitems : ∀ path ∈ state.explorer.files.keys, state.explorer.files.item path ≠ none)
    (hkeys : state.explorer.files.keys ≠ [])
    (hswitch : switchWorkspace system json name none moved = .ok () after) :
    ∃ disk loaded, (∀ below, below ≠ [metadataDir, metadataFile] →
        fileAt (content disk) (name :: below) = fileAt (content moved.disk) (name :: below)) ∧
      Loaded (content disk) (workspacePath name) [name] .empty loaded ∧
      after = moved.switched disk name loaded
        (moved.explorer.entries.map (reread (workspacePath name))) := by
  have hplace := resolve_workspacePath hname
  have hroot := hmoved.currentWorkspacePath_eq hname
  have hpaths := hmoved.keys_of_items hname hfull hitems
  have hmovedKeys : moved.explorer.files.keys ≠ [] := by
    rw [hmoved.files_eq, OrderedMap.keys, hmoved.entries]
    exact mt List.map_eq_nil_iff.mp (movedEntries_ne_nil (mt List.map_eq_nil_iff.mpr hkeys))
  -- the metadata is written
  obtain ⟨_, entered, henter, -⟩ := bind_eq_ok.mp hswitch
  obtain ⟨_, saved, hsave, -⟩ := bind_eq_ok.mp henter
  have hwrite := hsave
  rw [saveMeta_eq_writeFile hmoved.temporary hroot hmovedKeys (fun path hpath ↦ (hpaths path hpath).1)
    (fun path hpath ↦ (hpaths path hpath).2)] at hwrite
  obtain ⟨last, rfl, hwrites⟩ := writeFile_returns hlawful henclosed
    (convertToFullPath_metadataPath hmoved.temporary hroot)
    (resolve_metadataPath (getLast?_workspacePath hname) hplace) hwrite
  have hconfigFree : HiddenFree (content last) [] configDir configFile :=
    hmoved.configFree_of_writesFile hwrites (by simp)
  have hfolder : content last [name] = some .folder := by
    refine @FileSystem.Lawful.folder_of_below _ _ _ hlawful last [name] [metadataDir, metadataFile]
      (List.cons_ne_nil _ _) ?_
    rw [hwrites.written]
    exact Option.some_ne_none _
  -- and the workspace is entered and loaded
  obtain ⟨disk, loaded, metaFile, hconfig, hloaded, hmeta, hrun⟩ := switchWorkspace_eq_ok hlawful hsave
    hconfigFree hplace hfolder hmoved.workspace hmoved.temporary hmoved.listed hname.1
  have hdata : ∀ below, fileAt (content disk) (name :: below) = fileAt (content last) (name :: below) := by
    intro below
    have hne : name :: below ≠ [] ++ [configDir, configFile] := by
      intro heq
      have hdir : name = configDir := (List.cons.inj heq).1
      exact hdot (hdir ▸ by decide)
    rw [hconfig, fileAt_addHidden hconfigFree hne]
  have hfile : content disk ([name] ++ [metadataDir, metadataFile]) =
      some (.file (json.stringifyMeta (relativeEntries (workspacePath name) moved.explorer))) := by
    rw [← fileAt_eq_some, List.singleton_append, hdata, fileAt_eq_some]
    exact hwrites.written
  have hread := @readMeta_of_file _ system json content ((moved.entered disk name).withFiles loaded)
    (workspacePath name) [name] hlawful hplace hmoved.temporary
    (hmoved.currentWorkspacePath_entered hname) _ hfile
  rw [hread] at hmeta
  obtain rfl : moved.explorer.entries.map (reread (workspacePath name)) = metaFile := by
    rw [← fullEntries_relativeEntries hjson]
    injection hmeta
  refine ⟨disk, loaded, fun below hbelow ↦ ?_, hloaded, ?_⟩
  · rw [hdata, hwrites.others]
    exact fun heq ↦ hbelow (List.cons.inj heq).2
  · rw [hrun] at hswitch
    injection hswitch with _ hafter
    exact hafter.symm

end Items

/-! ### Projects without items -/

section Empty

variable {name : Component} {state moved after : State F} {files loaded : ExplorerFiles} {disk : F}

/-- Assumes: a lawful file system that reads nothing but files. Where there is no metadata file, no entries
are read. -/
theorem readMeta_of_no_file (hreads : system.ReadsFilesOnly content) {root : Str} {place : List Component}
    (hplace : resolve root = some place) (htemporary : state.isTemporary = false)
    (hroot : state.currentWorkspacePath = .ok root)
    (hfile : fileAt (content state.disk) (place ++ [metadataDir, metadataFile]) = none) :
    readMeta system json state = .ok [] state := by
  have hslash := (isFullPath_of_currentWorkspacePath hroot).2
  obtain ⟨error, hread⟩ := hreads.readFile (resolve_metadataPath hslash hplace)
    fun data hdata ↦ Option.some_ne_none data ((fileAt_eq_some.mpr hdata).symm.trans hfile)
  have hfound : PgFs.readToString system metadataPath state = .error (.fs error) state := by
    refine bind_eq_error.mpr (.inr ⟨root ++ metadataPath, state,
      convertToFullPath_eq_ok.mpr ⟨convertToFullPath_metadataPath htemporary hroot, rfl⟩, ?_⟩)
    rw [readDisk, evaluate, hread]
    rfl
  have hparsed : PgFs.readToJSONOrDefault system json.parseMeta metadataPath (.entries []) state =
      .ok (.entries []) state := by
    have hfailed : (do
        let data ← PgFs.readToString system metadataPath
        pure ((json.parseMeta data).getD (.entries [])) : Action F MetaFile) state =
          .error (.fs error) state :=
      bind_eq_error.mpr (.inl hfound)
    change EStateM.tryCatch _ _ state = _
    rw [EStateM.tryCatch, hfailed]
    rfl
  exact bind_eq_ok.mpr ⟨_, state, hparsed, rfl⟩

/-- Assumes: a lawful file system that reads nothing but files, and whose calls fail above the root. Without
items nothing is written, and the switch loads what has been in the folder of the workspace. -/
theorem MovedTo.exists_switched_of_no_keys (hlawful : system.Lawful content)
    (hreads : system.ReadsFilesOnly content) (hname : IsComponent name) (hdot : '.' ∉ name)
    (hmoved : MovedTo content name state moved files) (hkeys : files.keys = [])
    (hfolder : content state.disk [name] = some .folder)
    (hswitch : switchWorkspace system json name none moved = .ok () after) :
    ∃ disk loaded, (∀ below, fileAt (content disk) (name :: below) =
        fileAt (content moved.disk) (name :: below)) ∧
      Loaded (content disk) (workspacePath name) [name] .empty loaded ∧
      after = moved.switched disk name loaded
        (((fileAt (content disk) [name, metadataDir, metadataFile]).map
          (fullEntries json (workspacePath name))).getD []) := by
  have hplace := resolve_workspacePath hname
  have hne : ∀ below, name :: below ≠ [] ++ [configDir, configFile] := by
    intro below heq
    have hdir : name = configDir := (List.cons.inj heq).1
    exact hdot (hdir ▸ by decide)
  have hmovedKeys : moved.explorer.files.keys = [] := by rw [hmoved.files_eq, hkeys]
  have hsave : saveMeta system json moved = .ok () { moved with disk := moved.disk } :=
    saveMeta_of_no_files hmovedKeys
  have hfound : content moved.disk [name] = some .folder := (hmoved.folder hkeys).trans hfolder
  obtain ⟨disk, loaded, metaFile, hconfig, hloaded, hmeta, hrun⟩ := switchWorkspace_eq_ok hlawful hsave
    hmoved.configFree hplace hfound hmoved.workspace hmoved.temporary hmoved.listed hname.1
  have hroot := @MovedTo.currentWorkspacePath_entered _ content name state moved files hname hmoved disk
    loaded
  obtain rfl : ((fileAt (content disk) [name, metadataDir, metadataFile]).map
      (fullEntries json (workspacePath name))).getD [] = metaFile := by
    cases hfile : fileAt (content disk) [name, metadataDir, metadataFile] with
    | none =>
      rw [@readMeta_of_no_file _ system json content ((moved.entered disk name).withFiles loaded) hreads _
        [name] hplace hmoved.temporary hroot hfile] at hmeta
      injection hmeta
    | some data =>
      rw [@readMeta_of_file _ system json content ((moved.entered disk name).withFiles loaded) _ [name]
        hlawful hplace hmoved.temporary hroot data (fileAt_eq_some.mp hfile)] at hmeta
      injection hmeta
  refine ⟨disk, loaded, fun below ↦ ?_, hloaded, ?_⟩
  · rw [hconfig, fileAt_addHidden hmoved.configFree (hne below)]
  · rw [hrun] at hswitch
    injection hswitch with _ hafter
    exact hafter.symm

/-- Assumes: a lawful file system whose calls fail above the root. Without items, a project is kept only
if the folder of the workspace is there. -/
theorem MovedTo.folder_of_keepsProject (hlawful : system.Lawful content) (henclosed : system.Enclosed)
    (hname : IsComponent name) (hdot : '.' ∉ name) (hmoved : MovedTo content name state moved files)
    (hkeys : files.keys = []) (hkeeps : KeepsProject content name state after)
    (hswitch : switchWorkspace system json name none moved = .ok () after) :
    content state.disk [name] = some .folder := by
  have hmovedKeys : moved.explorer.files.keys = [] := by rw [hmoved.files_eq, hkeys]
  have hsave : saveMeta system json moved = .ok () { moved with disk := moved.disk } :=
    saveMeta_of_no_files hmovedKeys
  obtain ⟨disk, henter, hconfig⟩ := enterWorkspace_eq_ok hlawful hsave hmoved.configFree
    hmoved.workspace name
  have hentered : (moved.entered disk name).workspaces.currentName = some name := by
    rw [State.entered, setCurrentName_of_mem hmoved.listed]
  have hafter : after.workspaces.currentName = some name := by
    have hcurrent := hkeeps.current
    rw [State.currentWorkspaceName, Option.ite_none_right_eq_some] at hcurrent
    exact hcurrent.2
  have hknows : Knows (moved.entered disk name).workspaces (moved.entered disk name) :=
    ⟨hmoved.temporary, hmoved.workspace, rfl⟩
  obtain ⟨place, hplace, hfolder⟩ :=
    folder_of_switchWorkspace hlawful henclosed hknows hentered henter hswitch hafter
  obtain rfl : [name] = place := Option.some.inj ((resolve_workspacePath hname).symm.trans hplace)
  have hne : name ≠ configDir := by
    rintro rfl
    exact hdot (by decide)
  rw [← hmoved.folder hkeys, ← hfolder]
  change _ = content disk [name]
  rw [hconfig]
  exact (addHidden_of_ne (fun heq ↦ hne (List.cons.inj heq).1) (fun heq ↦ hne (List.cons.inj heq).1)).symm

/-- Without tabs there is no current file. -/
theorem currentFilePath_of_no_tabs {explorer : ExplorerState} (htabs : explorer.tabs = []) :
    explorer.currentFilePath = none := by
  rw [ExplorerState.currentFilePath, htabs, arrayAt_nil]

/-- Where no tabs are to be kept, none may be read. -/
theorem keepsTabs_iff_of_no_tabs {metaFile : List ItemMetaEntry} (htabs : state.explorer.tabs = []) :
    KeepsTabs name state.explorer (moved.switched disk name loaded metaFile).explorer ↔
      metaFile.filter ItemMetaEntry.isTabs = [] := by
  have hread : (moved.switched disk name loaded metaFile).explorer.tabs =
    distinct ((metaFile.filter ItemMetaEntry.isTabs).map ItemMetaEntry.path) := rfl
  constructor
  · intro hkeeps
    have hnone := hkeeps.tabs
    rw [hread, htabs, List.map_nil] at hnone
    rw [← List.map_eq_nil_iff, List.eq_nil_iff_forall_not_mem]
    intro path hpath
    exact absurd (hnone ▸ mem_distinct.mpr hpath) List.not_mem_nil
  · intro hnone
    have hempty : (moved.switched disk name loaded metaFile).explorer.tabs = [] := by
      rw [hread, hnone]
      rfl
    refine ⟨?_, ?_⟩
    · rw [hempty, htabs]
      rfl
    · rw [currentFilePath_of_no_tabs hempty, currentFilePath_of_no_tabs htabs]
      rfl

end Empty

/-! ### Which projects are kept -/

section Keep

variable {state moved after : State F} {files : ExplorerFiles}

/-- A tab of a temporary project is a path of its files. -/
theorem TemporaryProject.mem_keys_of_mem_tabs (hproject : TemporaryProject state) {tab : Str}
    (htab : tab ∈ state.explorer.tabs) : tab ∈ state.explorer.files.keys :=
  mem_keys_of_content (hproject.tabFiles tab htab)

/-- Assumes: a lawful file system whose calls fail above the root, and a `JSON` that reads back what it
writes. A project with items is kept exactly if it is portable and its current file is the last tab. -/
theorem MovedTo.keepsProject_iff_of_keys {name : Component} (hlawful : system.Lawful content)
    (henclosed : system.Enclosed) (hjson : json.RoundTrips) (hname : IsComponent name) (hdot : '.' ∉ name)
    (hproject : TemporaryProject state) (hmoved : MovedTo content name state moved files)
    (hkeys : state.explorer.files.keys ≠ [])
    (hswitch : switchWorkspace system json name none moved = .ok () after) :
    KeepsProject content name state after ↔
      Portable json (content state.disk) name state.explorer ∧ LastIsCurrent name state.explorer := by
  obtain ⟨disk, loaded, hdata, hloaded, rfl⟩ := hmoved.exists_switched_of_keys hlawful henclosed hjson
    hname hdot hproject.full hproject.items hkeys hswitch
  rw [hmoved.keepsProject_iff_loaded hlawful hname hproject.full hdata hloaded]
  have htabs := fun hnamed ↦ @MovedTo.keepsTabs_iff _ content name state moved files loaded disk hname
    hmoved hproject.tabs (fun tab htab ↦ hproject.full tab (hproject.mem_keys_of_mem_tabs htab)) hnamed
  have hunder : ∀ {before : Content}, PortableFiles before name state.explorer →
      ∀ tab ∈ state.explorer.tabs, LiesUnder (workspacePath name) (movedPath name tab) :=
    fun hportable tab htab ↦ (hportable.named tab (hproject.tabFiles tab htab)).liesUnder hname
  constructor
  · rintro ⟨hportable, hkept⟩
    obtain ⟨hfree, hlast⟩ := (htabs (hunder hportable)).mp hkept
    exact ⟨⟨hportable, hfree, fun hempty ↦ absurd hempty hkeys⟩, hlast⟩
  · rintro ⟨hportable, hlast⟩
    exact ⟨hportable.toPortableFiles,
      (htabs (hunder hportable.toPortableFiles)).mpr ⟨hportable.tabs, hlast⟩⟩

/-- Assumes: a lawful file system that reads nothing but files, and whose calls fail above the root. A
project without items is kept exactly if it is portable; there is no current file. -/
theorem MovedTo.keepsProject_iff_of_no_keys {name : Component} (hlawful : system.Lawful content)
    (henclosed : system.Enclosed) (hreads : system.ReadsFilesOnly content) (hname : IsComponent name)
    (hdot : '.' ∉ name) (hproject : TemporaryProject state)
    (hmoved : MovedTo content name state moved files) (hkeys : state.explorer.files.keys = [])
    (hswitch : switchWorkspace system json name none moved = .ok () after) :
    KeepsProject content name state after ↔
      Portable json (content state.disk) name state.explorer ∧ LastIsCurrent name state.explorer := by
  have hentries : state.explorer.files.entries = [] := List.map_eq_nil_iff.mp hkeys
  have hitems : state.explorer.movedItems name = [] := by
    rw [ExplorerState.movedItems, hentries]
    rfl
  have hfiles : files.keys = [] := by
    rw [OrderedMap.keys, hmoved.entries, hitems]
    rfl
  have htabs : state.explorer.tabs = [] := List.eq_nil_iff_forall_not_mem.mpr fun tab htab ↦
    absurd (hkeys ▸ hproject.mem_keys_of_mem_tabs htab) List.not_mem_nil
  have hlast : LastIsCurrent name state.explorer := by
    have hnone := currentFilePath_of_no_tabs htabs
    refine ⟨by rw [hnone, htabs]; rfl, fun current hcurrent ↦ ?_⟩
    rw [hnone] at hcurrent
    cases hcurrent
  -- nothing is kept unless the folder of the workspace is there
  have hrest : content state.disk [name] = some .folder →
      (KeepsProject content name state after ↔ PortableFiles (content state.disk) name state.explorer ∧
        ∀ data, fileAt (content state.disk) [name, metadataDir, metadataFile] = some data →
          (fullEntries json (workspacePath name) data).filter ItemMetaEntry.isTabs = []) := by
    intro hfolder
    obtain ⟨disk, loaded, hdata, hloaded, rfl⟩ :=
      hmoved.exists_switched_of_no_keys hlawful hreads hname hdot hfiles hfolder hswitch
    have hmeta : fileAt (content disk) [name, metadataDir, metadataFile] =
        fileAt (content state.disk) [name, metadataDir, metadataFile] := by
      rw [hdata, hmoved.data, hitems]
      rfl
    rw [hmoved.keepsProject_iff_loaded hlawful hname hproject.full (fun below _ ↦ hdata below) hloaded,
      keepsTabs_iff_of_no_tabs htabs, hmeta]
    refine and_congr_right fun _ ↦ ?_
    cases fileAt (content state.disk) [name, metadataDir, metadataFile] with
    | none => simp
    | some data => simp
  constructor
  · intro hkeeps
    have hfolder := hmoved.folder_of_keepsProject hlawful henclosed hname hdot hfiles hkeeps hswitch
    obtain ⟨hportable, hmetadata⟩ := (hrest hfolder).mp hkeeps
    refine ⟨⟨hportable, fun tab htab ↦ ?_, fun _ ↦ ⟨hfolder, hmetadata⟩⟩, hlast⟩
    exact absurd (htabs ▸ htab) List.not_mem_nil
  · rintro ⟨hportable, -⟩
    obtain ⟨hfolder, hmetadata⟩ := hportable.empty hkeys
    exact (hrest hfolder).mpr ⟨hportable.toPortableFiles, hmetadata⟩

/-- Assumes: a lawful file system that reads nothing but files, and whose calls fail above the root, a
`JSON` that reads back what it writes, and a temporary project. A call of `newWorkspace` that returns keeps
the project exactly if its files and tabs can be moved to the folder of the workspace, as those of a plain
project can, and the current file is the last tab. -/
theorem keepsProject_iff {name : Str} (hlawful : system.Lawful content) (henclosed : system.Enclosed)
    (hreads : system.ReadsFilesOnly content) (hjson : json.RoundTrips) (hproject : TemporaryProject state)
    (hrun : newWorkspace system json name keepTemporary state = .ok () after) :
    (KeepsProject content (trim name) state after ↔
      Portable json (content state.disk) (trim name) state.explorer ∧
        LastIsCurrent (trim name) state.explorer) ∧
    (Plain (content state.disk) (trim name) state.explorer.files →
      Portable json (content state.disk) (trim name) state.explorer) := by
  obtain ⟨hvalid, hkeep⟩ := newWorkspaceFromTemporary_of_newWorkspace hproject.temporary hrun
  obtain ⟨hname, hdot, -⟩ := isComponent_of_isWorkspaceNameValid hvalid
  obtain ⟨moved, files, hmoved, hswitch⟩ :=
    exists_movedTo hlawful henclosed hname hdot hproject.full hkeep
  refine ⟨?_, fun hplain ↦ hplain.portable hname json hproject.tabFiles⟩
  by_cases hkeys : state.explorer.files.keys = []
  · exact hmoved.keepsProject_iff_of_no_keys hlawful henclosed hreads hname hdot hproject hkeys hswitch
  · exact hmoved.keepsProject_iff_of_keys hlawful henclosed hjson hname hdot hproject hkeys hswitch

end Keep

/-! ### Projects of one and of two files -/

/-- The project of one file, its path, and the call that keeps it. -/
theorem importedProject_eq :
    importedProject.isTemporary = true ∧
      importedProject.explorer.files.keys = ["/src/main.cs".toList] ∧
      importedProject.explorer.files.item "/src/main.cs".toList =
        some ⟨some "class Main;".toList, none⟩ ∧
      importedProject.explorer.tabs = ["/src/main.cs".toList] ∧
      importedProject.explorer.currentIndex = 0 ∧
      itemPath rootDirPath ["src".toList, "main.cs".toList] = "/src/main.cs".toList ∧
      (∀ name ∈ ["src".toList, "main.cs".toList], IsComponent name ∧ isItemNameValid name = true) ∧
      IsFilePath (movedPath (trim "w".toList) "/src/main.cs".toList) ∧
      movedPath (trim "w".toList) "/src/main.cs".toList ≠ "/src/main.cs".toList ∧
      returns (newWorkspace fileTrees referenceJson "w".toList keepTemporary importedProject) =
        true := by
  decide +kernel

theorem content_importedProject :
    importedProject.explorer.files.content "/src/main.cs".toList ≠ none := by
  rw [ExplorerFiles.content, importedProject_eq.2.2.1]
  exact Option.some_ne_none _

theorem temporaryProject_importedProject : TemporaryProject importedProject where
  temporary := importedProject_eq.1
  full := by
    rw [importedProject_eq.2.1]
    exact List.forall_mem_singleton.mpr ⟨"src/main.cs".toList, rfl⟩
  items := by
    rw [importedProject_eq.2.1]
    refine List.forall_mem_singleton.mpr ?_
    rw [importedProject_eq.2.2.1]
    exact Option.some_ne_none _
  tabs := by
    obtain ⟨-, -, -, htabs, hindex, -⟩ := importedProject_eq
    refine ⟨?_, .inr ?_⟩
    · rw [htabs]
      exact List.nodup_singleton _
    · rw [htabs, hindex]
      exact ⟨le_rfl, Int.zero_lt_one⟩
  tabFiles := by
    rw [importedProject_eq.2.2.2.1]
    exact List.forall_mem_singleton.mpr content_importedProject

theorem plain_importedProject :
    Plain importedProject.disk.content (trim "w".toList) importedProject.explorer.files where
  nonempty := by
    rw [importedProject_eq.2.1]
    exact List.cons_ne_nil _ _
  named path hcontent := by
    obtain ⟨-, hkeys, -, -, -, hpath, hnames, -⟩ := importedProject_eq
    have hkey := mem_keys_of_content hcontent
    rw [hkeys] at hkey
    rw [List.mem_singleton.mp hkey]
    exact ⟨["src".toList], "main.cs".toList, hnames, hpath⟩
  dotted := by
    obtain ⟨-, -, -, -, -, -, -, hfile, -⟩ := importedProject_eq
    rw [importedProject_eq.2.1]
    exact List.forall_mem_singleton.mpr (iff_of_true content_importedProject hfile)
  apart := by
    rw [importedProject_eq.2.1]
    exact List.pairwise_singleton _ _
  free _ hbelow := absurd rfl hbelow

/-- A project of one file is kept. -/
theorem keepsProject_iff_importedProject :
    ∃ after, newWorkspace fileTrees referenceJson "w".toList keepTemporary importedProject =
        .ok () after ∧ KeepsProject FileTree.content (trim "w".toList) importedProject after := by
  obtain ⟨-, -, -, htabs, hindex, -, -, -, hmoved, hreturns⟩ := importedProject_eq
  have hrun := eq_ok_finalState hreturns
  have hcurrent : importedProject.explorer.currentFilePath = some "/src/main.cs".toList := by
    rw [ExplorerState.currentFilePath, htabs, hindex]
    rfl
  have hiff := keepsProject_iff lawful_fileTrees enclosed_fileTrees readsFilesOnly_fileTrees
    referenceJson_roundTrips temporaryProject_importedProject hrun
  refine ⟨_, hrun, hiff.1.mpr ⟨hiff.2 plain_importedProject, ?_, ?_⟩⟩
  · rw [hcurrent, htabs]
    rfl
  · rw [hcurrent, htabs]
    rintro current ⟨⟩ hmem
    exact hmoved (List.mem_singleton.mp hmem).symm

/-- A project of two open files, the first of which is the current one. -/
def twoOpenFiles : State FileTree :=
  finalState ((do
    init fileTrees emptyJson (some (convertToExplorerFiles
      [("src/a.cs".toList, "class A;".toList), ("src/b.cs".toList, "class B;".toList)])) none
    openFile "/src/b.cs".toList
    openFile "/src/a.cs".toList : Action FileTree Unit) temporaryProject)

/-- The project of two files, and what becomes of its current file. -/
theorem twoOpenFiles_eq :
    twoOpenFiles.isTemporary = true ∧
      twoOpenFiles.explorer.files.keys = ["/src/a.cs".toList, "/src/b.cs".toList] ∧
      (∀ path ∈ ["/src/a.cs".toList, "/src/b.cs".toList],
        (twoOpenFiles.explorer.files.content path).isSome = true) ∧
      twoOpenFiles.explorer.tabs = ["/src/a.cs".toList, "/src/b.cs".toList] ∧
      twoOpenFiles.explorer.currentIndex = 0 ∧
      returns (newWorkspace fileTrees referenceJson "w".toList keepTemporary twoOpenFiles) = true ∧
      (finalState (newWorkspace fileTrees referenceJson "w".toList keepTemporary
        twoOpenFiles)).explorer.currentFilePath ≠
          twoOpenFiles.explorer.currentFilePath.map (movedPath (trim "w".toList)) := by
  decide +kernel

theorem temporaryProject_twoOpenFiles : TemporaryProject twoOpenFiles := by
  obtain ⟨htemporary, hkeys, hcontent, htabs, hindex, -⟩ := twoOpenFiles_eq
  have hfiles : ∀ path ∈ ["/src/a.cs".toList, "/src/b.cs".toList],
      twoOpenFiles.explorer.files.content path ≠ none :=
    fun path hpath ↦ Option.isSome_iff_ne_none.mp (hcontent path hpath)
  refine ⟨htemporary, ?_, ?_, ⟨?_, .inr ?_⟩, ?_⟩
  · rw [hkeys]
    exact List.forall_mem_cons.mpr ⟨⟨"src/a.cs".toList, rfl⟩,
      List.forall_mem_singleton.mpr ⟨"src/b.cs".toList, rfl⟩⟩
  · rw [hkeys]
    intro path hpath hitem
    apply hfiles path hpath
    rw [ExplorerFiles.content, hitem]
    rfl
  · rw [htabs]
    exact List.nodup_cons.mpr ⟨by decide, List.nodup_singleton _⟩
  · rw [htabs, hindex]
    exact ⟨le_rfl, by decide⟩
  · rwa [htabs]

/-- The current file is not always kept: of two tabs the last one becomes the current one. -/
theorem not_keepsProject_twoOpenFiles :
    ¬ ∀ (state after : State FileTree) (name : Str), TemporaryProject state →
      newWorkspace fileTrees referenceJson name keepTemporary state = .ok () after →
        KeepsProject FileTree.content (trim name) state after := by
  intro hall
  obtain ⟨-, -, -, -, -, hreturns, hcurrent⟩ := twoOpenFiles_eq
  exact hcurrent (hall _ _ _ temporaryProject_twoOpenFiles (eq_ok_finalState hreturns)).currentFile

end Playground.Explorer
