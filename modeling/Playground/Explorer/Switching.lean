import Playground.Explorer.Metadata

/-!
# Switching between workspaces

What `switchWorkspace` does with a workspace that is on the disk. The metadata of the workspace that
is left and the config are hidden files, so writing them takes no workspace off the disk
(`HoldsWorkspaces`), and the files of the workspace that is entered are loaded as they are there.
`switchWorkspace_eq_ok` gives the state in which the call returns, and `shows_switched` says that this
state shows the workspace.
-/

set_option autoImplicit false
set_option relaxedAutoImplicit false

namespace Playground.Explorer

open Library

variable {F : Type} {system : FileSystem F} {json : Json} {content : F → Content}

/-! ### The workspaces on the disk -/

/-- The path of the workspace with a name. -/
def workspacePath (name : Str) : Str :=
  joinPaths rootDirPath (appendSlash name)

theorem currentWorkspacePath_eq_ok {state : State F} {name : Str}
    (hcurrent : state.currentWorkspaceName = some name) (hne : name ≠ []) :
    state.currentWorkspacePath = .ok (workspacePath name) := by
  obtain ⟨first, rest, rfl⟩ := List.exists_cons_of_ne_nil hne
  rw [State.currentWorkspacePath, hcurrent]
  rfl

/-- The hidden folder of the explorer. -/
def configDir : Component :=
  ".config".toList

/-- The name of the config of the workspaces. -/
def configFile : Component :=
  "workspaces.json".toList

/-- The workspaces have names and are on the disk, one of them is the current one if there is one, and
nothing is in the way of the config. -/
structure HoldsWorkspaces (content : Content) (workspaces : Workspaces) : Prop where
  configFree : HiddenFree content [] configDir configFile
  current : ∀ name, workspaces.currentName = some name → name ∈ workspaces.allNames
  onDisk : ∀ name ∈ workspaces.allNames,
    name ≠ [] ∧ ∃ place, OnDisk content (workspacePath name) place

/-- A disk after at most one hidden file of the explorer has been written. -/
inductive HiddenWrite (before : Content) : Content → Prop
  | same : HiddenWrite before before
  | metadata (place : List Component) (data : Str)
      (hfree : HiddenFree before place metadataDir metadataFile) :
      HiddenWrite before (addHidden before place metadataDir metadataFile data)
  | config (data : Str) (hfree : HiddenFree before [] configDir configFile) :
      HiddenWrite before (addHidden before [] configDir configFile data)

section Holds

variable {before after : Content} {workspaces : Workspaces}

/-- Assumes: a lawful file system. The place of a workspace on the disk is a folder. -/
theorem OnDisk.folder (hlawful : system.Lawful content) {disk : F} {root : Str}
    {place : List Component} (hdisk : OnDisk (content disk) root place) :
    content disk place = some .folder := by
  obtain ⟨place', hplace', hfolder⟩ := hdisk.folderPath.exists_place hlawful
  rwa [Option.some.inj (hdisk.resolve_eq.symm.trans hplace')]

theorem OnDisk.hiddenFree {root : Str} {place : List Component} (hdisk : OnDisk before root place) :
    HiddenFree before place metadataDir metadataFile :=
  ⟨hdisk.dirKind, hdisk.fileKind⟩

/-- Hidden files that are written are in the way of no hidden file. -/
theorem HiddenWrite.hiddenFree (hwrite : HiddenWrite before after) {place : List Component}
    {dir file : Component} (hfree : HiddenFree before place dir file)
    (hmetadata : dir ≠ metadataFile ∧ file ≠ metadataDir)
    (hconfig : dir ≠ configFile ∧ file ≠ configDir) : HiddenFree after place dir file := by
  cases hwrite with
  | same => exact hfree
  | metadata other data hother => exact hfree.addHidden hmetadata.1 hmetadata.2
  | config data hother => exact hfree.addHidden hconfig.1 hconfig.2

/-- A workspace stays on the disk when hidden files are written. -/
theorem HiddenWrite.onDisk (hwrite : HiddenWrite before after) {root : Str}
    {place : List Component} (hdisk : OnDisk before root place) : OnDisk after root place := by
  have hfree := hwrite.hiddenFree hdisk.hiddenFree (by decide) (by decide)
  have hpath : FolderPath after root := by
    cases hwrite with
    | same => exact hdisk.folderPath
    | metadata other data hother => exact hdisk.folderPath.addHidden hother
    | config data hother => exact hdisk.folderPath.addHidden hother
  exact ⟨hpath, hdisk.resolve_eq, hfree.dirKind, hfree.fileKind⟩

theorem HoldsWorkspaces.hiddenWrite (hholds : HoldsWorkspaces before workspaces)
    (hwrite : HiddenWrite before after) : HoldsWorkspaces after workspaces := by
  refine ⟨hwrite.hiddenFree hholds.configFree (by decide) (by decide), hholds.current, ?_⟩
  intro name hname
  obtain ⟨hne, place, hdisk⟩ := hholds.onDisk name hname
  exact ⟨hne, place, hwrite.onDisk hdisk⟩

theorem setCurrentName_of_mem {name : Str} (hname : name ∈ workspaces.allNames) :
    workspaces.setCurrentName name = ⟨workspaces.allNames, some name⟩ :=
  if_pos hname

theorem HoldsWorkspaces.setCurrentName (hholds : HoldsWorkspaces before workspaces) {name : Str}
    (hname : name ∈ workspaces.allNames) :
    HoldsWorkspaces before (workspaces.setCurrentName name) := by
  rw [setCurrentName_of_mem hname]
  refine ⟨hholds.configFree, ?_, hholds.onDisk⟩
  rintro other ⟨⟩
  exact hname

end Holds

/-! ### The files of a workspace -/

/-- The files are those that are loaded of a folder: a file with its content, and a folder if it is
empty. Their editor positions are not on the disk. -/
structure AreStored (content : Content) (folder : Str) (place : List Component)
    (files : ExplorerFiles) : Prop where
  listed : ∀ path text, (∃ itemMeta, files.lookup path = some (some ⟨text, itemMeta⟩)) ↔
    Lists content folder place path ⟨text, none⟩
  items : ∀ path ∈ files.keys, files.item path ≠ none

/-- The explorer shows a workspace with the files that are on the disk. -/
structure ShowsWorkspace (content : F → Content) (state : State F) (name : Str) : Prop where
  persistent : state.isTemporary = false
  current : state.currentWorkspaceName = some name
  files : ∃ place, resolve (workspacePath name) = some place ∧
    AreStored (content state.disk) (workspacePath name) place state.explorer.files

section Stored

/-- An item that is loaded has no position. -/
theorem Lists.itemMeta_eq {before : Content} {folder path : Str} {place : List Component}
    {item : ItemInfo} (hlists : Lists before folder place path item) : item.itemMeta = none := by
  obtain ⟨names, -, -, ⟨data, -, rfl⟩ | ⟨-, -, rfl⟩⟩ := hlists
  · rfl
  · rfl

/-- What has been loaded into no files is what is on the disk. -/
theorem Loaded.areStored {before : Content} {folder : Str} {place : List Component}
    {files : ExplorerFiles} (hloaded : Loaded before folder place .empty files) :
    AreStored before folder place files := by
  have hfound : ∀ path item, files.lookup path = some item →
      ∃ listed, item = some listed ∧ Lists before folder place path listed := by
    intro path item hlookup
    by_cases hlists : ∃ listed, Lists before folder place path listed
    · obtain ⟨listed, hlisted⟩ := hlists
      have hsame := (hloaded.listed path listed hlisted).symm.trans hlookup
      exact ⟨listed, (Option.some.inj hsame).symm, hlisted⟩
    · have hnone := hloaded.others path fun item hitem ↦ hlists ⟨item, hitem⟩
      rw [hlookup] at hnone
      cases hnone
  constructor
  · intro path text
    constructor
    · rintro ⟨itemMeta, hlookup⟩
      obtain ⟨listed, hitem, hlisted⟩ := hfound path _ hlookup
      obtain rfl := Option.some.inj hitem
      obtain rfl : itemMeta = none := hlisted.itemMeta_eq
      exact hlisted
    · exact fun hlisted ↦ ⟨none, hloaded.listed path _ hlisted⟩
  · intro path hpath hitem
    obtain ⟨item, hlookup⟩ := OrderedMap.mem_keys_iff.mp hpath
    obtain ⟨listed, rfl, -⟩ := hfound path item hlookup
    rw [ExplorerFiles.item, hlookup] at hitem
    cases hitem

/-- Positions that are taken over change no file. -/
theorem AreStored.takePosition {before : Content} {folder : Str} {place : List Component}
    {files : ExplorerFiles} (hstored : AreStored before folder place files) (entry : ItemMetaEntry) :
    AreStored before folder place (files.takePosition entry) := by
  unfold ExplorerFiles.takePosition
  split
  · next data itemMeta hitem =>
    have hlookup : files.lookup entry.path = some (some ⟨some data, itemMeta⟩) := by
      rw [ExplorerFiles.item] at hitem
      exact Option.join_eq_some_iff.mp hitem
    constructor
    · intro path text
      rw [← hstored.listed]
      by_cases hpath : path = entry.path
      · subst hpath
        rw [OrderedMap.lookup_set_self, hlookup]
        simp [eq_comm]
      · rw [OrderedMap.lookup_set_of_ne _ _ hpath]
    · intro path hpath hnone
      by_cases hsame : path = entry.path
      · subst hsame
        rw [ExplorerFiles.item, OrderedMap.lookup_set_self] at hnone
        cases hnone
      · rw [ExplorerFiles.item, OrderedMap.lookup_set_of_ne _ _ hsame] at hnone
        have hkey := (OrderedMap.mem_keys_set.mp hpath).resolve_left hsame
        exact hstored.items path hkey hnone
  · exact hstored

theorem AreStored.applyMeta {before : Content} {folder : Str} {place : List Component}
    {explorer : ExplorerState} (hstored : AreStored before folder place explorer.files)
    (metaFile : List ItemMetaEntry) :
    AreStored before folder place (explorer.applyMeta metaFile).files := by
  have hloop : ∀ (entries : List ItemMetaEntry) (files : ExplorerFiles),
      AreStored before folder place files →
        AreStored before folder place (entries.foldl ExplorerFiles.takePosition files) := by
    intro entries
    induction entries with
    | nil => exact fun _ hfiles ↦ hfiles
    | cons entry rest ih => exact fun files hfiles ↦ ih _ (hfiles.takePosition entry)
  rw [files_applyMeta]
  exact hloop metaFile explorer.files hstored

end Stored

/-! ### The parts of a switch -/

section Switch

variable {state : State F} {name : Str}

/-- Without files there is no metadata to save. -/
theorem saveMeta_of_no_files (hkeys : state.explorer.files.keys = []) :
    saveMeta system json state = .ok () state := by
  unfold saveMeta
  rw [get_bind_apply]
  simp only [if_pos hkeys]
  cases state.currentWorkspaceName with
  | none => rfl
  | some current => cases current <;> rfl

/-- Without a current workspace no metadata is saved. -/
theorem saveMeta_of_no_current (hcurrent : state.currentWorkspaceName = none) :
    saveMeta system json state = .ok () state := by
  unfold saveMeta
  rw [get_bind_apply, hcurrent]
  rfl

/-- No metadata is saved if there is a path outside the current workspace. -/
theorem saveMeta_of_outside (hcurrent : state.currentWorkspaceName = some name) (hne : name ≠ [])
    {path : Str} (hpath : path ∈ state.explorer.files.keys) (houtside : ¬ workspacePath name <+: path) :
    saveMeta system json state = .ok () state := by
  have hroot := currentWorkspacePath_eq_ok hcurrent hne
  have hany : (state.explorer.files.keys.any fun path ↦ !decide (workspacePath name <+: path)) =
      true :=
    List.any_eq_true.mpr ⟨path, hpath, by simpa using houtside⟩
  obtain ⟨first, rest, rfl⟩ := List.exists_cons_of_ne_nil hne
  unfold saveMeta
  rw [get_bind_apply]
  simp only [hcurrent, if_neg (List.ne_nil_of_mem hpath)]
  refine bind_eq_ok.mpr ⟨_, state, evaluate_eq_ok.mpr ⟨hroot, rfl⟩, ?_⟩
  rw [if_pos hany]
  rfl

/-- `saveMeta` of a workspace on the disk returns, and writes its metadata at most. -/
theorem saveMeta_of_current (hlawful : system.Lawful content)
    (hcurrent : state.currentWorkspaceName = some name) (hne : name ≠ []) {place : List Component}
    (hdisk : OnDisk (content state.disk) (workspacePath name) place)
    (htemporary : state.isTemporary = false)
    (hitems : ∀ path ∈ state.explorer.files.keys, state.explorer.files.item path ≠ none) :
    ∃ disk, saveMeta system json state = .ok () { state with disk } ∧
      (content disk = content state.disk ∨ ∃ data,
        content disk = addHidden (content state.disk) place metadataDir metadataFile data) := by
  by_cases hkeys : state.explorer.files.keys = []
  · exact ⟨state.disk, saveMeta_of_no_files hkeys, .inl rfl⟩
  by_cases hunder : ∀ path ∈ state.explorer.files.keys, workspacePath name <+: path
  · obtain ⟨disk, hrun, hwritten⟩ := @saveMeta_eq_ok _ system json content _ _ _ hlawful hdisk
      htemporary (currentWorkspacePath_eq_ok hcurrent hne) hkeys hunder hitems
    exact ⟨disk, hrun, .inr ⟨_, hwritten⟩⟩
  · push Not at hunder
    obtain ⟨path, hpath, houtside⟩ := hunder
    exact ⟨state.disk, saveMeta_of_outside hcurrent hne hpath houtside, .inl rfl⟩

/-- The current workspace is one of the workspaces on the disk. -/
theorem HoldsWorkspaces.mem_of_current {before : Content}
    (hholds : HoldsWorkspaces before state.workspaces)
    (hcurrent : state.currentWorkspaceName = some name) : name ∈ state.workspaces.allNames := by
  apply hholds.current
  unfold State.currentWorkspaceName at hcurrent
  split at hcurrent
  · exact hcurrent
  · cases hcurrent

/-- `saveMeta` returns where the workspaces are on the disk, and writes a hidden file at most. -/
theorem saveMeta_returns (hlawful : system.Lawful content)
    (hholds : HoldsWorkspaces (content state.disk) state.workspaces)
    (htemporary : state.isTemporary = false)
    (hitems : ∀ path ∈ state.explorer.files.keys, state.explorer.files.item path ≠ none) :
    ∃ disk, saveMeta system json state = .ok () { state with disk } ∧
      HiddenWrite (content state.disk) (content disk) := by
  cases hcurrent : state.currentWorkspaceName with
  | none => exact ⟨state.disk, saveMeta_of_no_current hcurrent, .same⟩
  | some current =>
    obtain ⟨hne, place, hdisk⟩ := hholds.onDisk current (hholds.mem_of_current hcurrent)
    obtain ⟨disk, hrun, hwritten⟩ := @saveMeta_of_current _ system json content _ _ hlawful hcurrent
      hne place hdisk htemporary hitems
    refine ⟨disk, hrun, ?_⟩
    rcases hwritten with hsame | ⟨data, hmeta⟩
    · rw [hsame]
      exact .same
    · rw [hmeta]
      exact .metadata place data hdisk.hiddenFree

/-- The config is written to its hidden file. -/
theorem saveWorkspaces_eq_ok (hlawful : system.Lawful content)
    (hfree : HiddenFree (content state.disk) [] configDir configFile)
    (hworkspace : state.hasWorkspace = true) :
    ∃ disk, saveWorkspaces system json state = .ok () { state with disk } ∧
      content disk = addHidden (content state.disk) [] configDir configFile
        (json.stringifyWorkspaces state.workspaces) := by
  have hroot : IsFullPath ([] ++ ['/']) := ⟨[], rfl⟩
  obtain ⟨disk, hwrite, hwritten⟩ := writeFile_hidden hlawful hroot trivial rfl (by decide)
    (by decide) (by decide) hfree.dirKind hfree.fileKind
    (json.stringifyWorkspaces state.workspaces)
  refine ⟨disk, ?_, hwritten⟩
  have hpath : workspacesConfigPath = [] ++ '/' :: configDir ++ '/' :: configFile := by decide
  unfold saveWorkspaces
  rw [get_bind_apply, hpath, runIf, if_pos hworkspace]
  exact hwrite

/-- The state in which a workspace has been entered. -/
def State.entered (state : State F) (disk : F) (name : Str) : State F :=
  { state with disk, workspaces := state.workspaces.setCurrentName name }

/-- Entering a workspace saves the metadata of the one that is left and the config. -/
theorem enterWorkspace_eq_ok (hlawful : system.Lawful content) {saved : F}
    (hsave : saveMeta system json state = .ok () { state with disk := saved })
    (hfree : HiddenFree (content saved) [] configDir configFile)
    (hworkspace : state.hasWorkspace = true) (name : Str) :
    ∃ disk, enterWorkspace system json name state = .ok () (state.entered disk name) ∧
      content disk = addHidden (content saved) [] configDir configFile
        (json.stringifyWorkspaces (state.workspaces.setCurrentName name)) := by
  obtain ⟨disk, hrun, hwritten⟩ := @saveWorkspaces_eq_ok _ system json content
    (state.entered saved name) hlawful hfree hworkspace
  exact ⟨disk, bind_eq_ok.mpr ⟨(), _, hsave, bind_eq_ok.mpr ⟨(), state.entered saved name, rfl, hrun⟩⟩,
    hwritten⟩

/-- Reading with a default always returns. -/
theorem readToJSONOrDefault_returns {α : Type} (parse : Str → Option α) (path : Str)
    (defaultValue : α) (state : State F) :
    ∃ value, PgFs.readToJSONOrDefault system parse path defaultValue state = .ok value state := by
  have hkeeps : Keeps (fun other ↦ other = state) (do
      let data ← PgFs.readToString system path
      pure ((parse data).getD defaultValue) : Action F α) :=
    Keeps.bind (keeps_readToString path) fun _ ↦ Keeps.pure _
  have hrun := hkeeps state rfl
  cases hread : (do
      let data ← PgFs.readToString system path
      pure ((parse data).getD defaultValue) : Action F α) state with
  | ok value after =>
    rw [hread] at hrun
    refine ⟨value, ?_⟩
    change EStateM.tryCatch _ _ state = _
    rw [EStateM.tryCatch, hread, show after = state from hrun]
  | error error after =>
    rw [hread] at hrun
    refine ⟨defaultValue, ?_⟩
    change EStateM.tryCatch _ _ state = _
    rw [EStateM.tryCatch, hread, show after = state from hrun]
    rfl

/-- The metadata of a workspace can always be read. -/
theorem readMeta_returns (htemporary : state.isTemporary = false) {root : Str}
    (hroot : state.currentWorkspacePath = .ok root) :
    ∃ metaFile, readMeta system json state = .ok metaFile state := by
  obtain ⟨metaFile, hread⟩ := @readToJSONOrDefault_returns _ system _ json.parseMeta metadataPath
    (.entries []) state
  have hentry : ∀ entry ∈ metaFile.toEntries, ∃ value : ItemMetaEntry, (do
      let path ← convertToFullPath entry.path
      pure { entry with path } : Action F ItemMetaEntry) state = .ok value state := by
    intro entry _
    obtain ⟨fullPath, hfull⟩ : ∃ fullPath, state.convertToFullPath entry.path = .ok fullPath := by
      unfold State.convertToFullPath
      by_cases hpath : rootDirPath <+: entry.path
      · rw [if_pos hpath]
        exact ⟨_, rfl⟩
      · rw [if_neg hpath, State.getProjectRootPath, htemporary, hroot]
        exact ⟨_, rfl⟩
    exact ⟨_, bind_eq_ok.mpr ⟨fullPath, state, convertToFullPath_eq_ok.mpr ⟨hfull, rfl⟩, rfl⟩⟩
  obtain ⟨values, hvalues⟩ := mapM_returns hentry
  exact ⟨values, bind_eq_ok.mpr ⟨metaFile, state, hread, hvalues⟩⟩

/-- The state in which a workspace has been initialized. -/
def State.initialized (state : State F) (files : ExplorerFiles) (metaFile : List ItemMetaEntry) :
    State F :=
  { state.withFiles files with explorer := (state.withFiles files).explorer.applyMeta metaFile }

/-- Initializing a workspace that is on the disk loads its files and takes over its metadata. -/
theorem initCurrentWorkspace_eq_ok (hlawful : system.Lawful content)
    (htemporary : state.isTemporary = false) (hcurrent : state.currentWorkspaceName = some name)
    (hname : name ∈ state.workspaces.allNames) (hne : name ≠ []) {place : List Component}
    (hplace : resolve (workspacePath name) = some place)
    (hfolder : content state.disk place = some .folder) :
    ∃ files metaFile, Loaded (content state.disk) (workspacePath name) place .empty files ∧
      readMeta system json (state.withFiles files) = .ok metaFile (state.withFiles files) ∧
      initCurrentWorkspace system json state = .ok () (state.initialized files metaFile) := by
  have hroot := currentWorkspacePath_eq_ok hcurrent hne
  have hworkspace : state.hasWorkspace = true := by
    by_contra hnone
    rw [State.currentWorkspaceName, if_neg hnone] at hcurrent
    cases hcurrent
  obtain ⟨files, hload, hloaded⟩ := @loadFiles_eq_ok _ system content (state.withFiles .empty) _ _
    hlawful hroot hplace hfolder
  obtain ⟨metaFile, hmeta⟩ := @readMeta_returns _ system json (state.withFiles files) htemporary _
    hroot
  refine ⟨files, metaFile, hloaded, hmeta, ?_⟩
  refine initCurrentWorkspaceWith_eq_ok (deleteWorkspace system json) hworkspace hload ?_ hmeta
  rintro ⟨-, hnames⟩
  change (if state.hasWorkspace then some state.workspaces.allNames else none).getD [] = [] at hnames
  rw [if_pos hworkspace] at hnames
  rw [Option.getD_some] at hnames
  rw [hnames] at hname
  cases hname

/-- The state in which a switch has ended. -/
def State.switched (state : State F) (disk : F) (name : Str) (files : ExplorerFiles)
    (metaFile : List ItemMetaEntry) : State F :=
  { ((state.entered disk name).initialized files metaFile).dispatchOnDidOpenFile with
    initializedWorkspaceName := some name }

/-- Assumes: a lawful file system. Switching to a workspace whose folder is on the disk loads its files,
and takes over the metadata that is on the disk. -/
theorem switchWorkspace_eq_ok (hlawful : system.Lawful content) {saved : F}
    (hsave : saveMeta system json state = .ok () { state with disk := saved })
    (hfree : HiddenFree (content saved) [] configDir configFile) {place : List Component}
    (hplace : resolve (workspacePath name) = some place) (hfound : content saved place = some .folder)
    (hworkspace : state.hasWorkspace = true) (htemporary : state.isTemporary = false)
    (hname : name ∈ state.workspaces.allNames) (hne : name ≠ []) :
    ∃ disk files metaFile,
      content disk = addHidden (content saved) [] configDir configFile
        (json.stringifyWorkspaces (state.workspaces.setCurrentName name)) ∧
      Loaded (content disk) (workspacePath name) place .empty files ∧
      readMeta system json ((state.entered disk name).withFiles files) =
        .ok metaFile ((state.entered disk name).withFiles files) ∧
      switchWorkspace system json name none state =
        .ok () (state.switched disk name files metaFile) := by
  obtain ⟨disk, henter, hwritten⟩ := @enterWorkspace_eq_ok _ system json content state hlawful saved
    hsave hfree hworkspace name
  have hfolder : content disk place = some .folder := by
    rw [hwritten]
    exact addHidden_folder hfree hfound
  have hcurrent : (state.entered disk name).currentWorkspaceName = some name := by
    rw [State.currentWorkspaceName, State.entered, setCurrentName_of_mem hname, if_pos hworkspace]
  have hentered : name ∈ (state.entered disk name).workspaces.allNames := by
    rw [State.entered, setCurrentName_of_mem hname]
    exact hname
  obtain ⟨files, metaFile, hloaded, hmeta, hinit⟩ := @initCurrentWorkspace_eq_ok _ system json
    content (state.entered disk name) name hlawful htemporary hcurrent hentered hne place hplace hfolder
  refine ⟨disk, files, metaFile, hwritten, hloaded, hmeta, ?_⟩
  exact bind_eq_ok.mpr ⟨(), _, henter, bind_eq_ok.mpr ⟨(), _, hinit, rfl⟩⟩

/-- After a switch the explorer shows the workspace. -/
theorem shows_switched {disk : F} {files : ExplorerFiles} {metaFile : List ItemMetaEntry}
    {place : List Component} (hworkspace : state.hasWorkspace = true)
    (htemporary : state.isTemporary = false) (hname : name ∈ state.workspaces.allNames)
    (hplace : resolve (workspacePath name) = some place)
    (hloaded : Loaded (content disk) (workspacePath name) place .empty files) :
    ShowsWorkspace content (state.switched disk name files metaFile) name := by
  refine ⟨htemporary, ?_, place, hplace, ?_⟩
  · change (state.entered disk name).currentWorkspaceName = some name
    rw [State.currentWorkspaceName, State.entered, setCurrentName_of_mem hname, if_pos hworkspace]
  · exact hloaded.areStored.applyMeta metaFile

end Switch

end Playground.Explorer
