import Playground.Explorer.Items

/-!
# Workspaces

The methods of `PgExplorer` (`client/src/utils/pg/explorer/explorer.ts`) that create, initialize,
switch, rename and delete workspaces, and `PgGithub.import` (`client/src/utils/pg/github.ts`), which
creates them under names that are not checked.

Initializing a workspace that cannot be read deletes it, and deleting a workspace switches to
another one, which is initialized in turn. Each deletion removes a name, so the number of names
bounds the recursion (`deleteWorkspaceWithin`).

Not formalized here: the events; the migration of the legacy `explorer` key of `localStorage`; in
`PgGithub.import`, the parsing of the URL and the download, whose results are arguments.
-/

set_option autoImplicit false
set_option relaxedAutoImplicit false

namespace Playground.Explorer

open Library

variable {F : Type} (system : FileSystem F) (json : Json)

/-- `TupleFiles`. -/
abbrev TupleFiles := List (Str × Str)

/-- Change the workspaces, or throw. -/
def changeWorkspaces (change : Workspaces → Except Error Workspaces) : Action F Unit :=
  fun state ↦
    match change state.workspaces with
    | .ok workspaces => .ok () { state with workspaces }
    | .error error => .error error state

/-- `PgExplorer._saveWorkspaces`. -/
def saveWorkspaces : Action F Unit := do
  let state ← get
  runIf state.hasWorkspace (PgFs.writeFile system workspacesConfigPath
    (json.stringifyWorkspaces ⟨state.workspaces.allNames, state.workspaces.currentName⟩) true)

/-- `PgExplorer._initWorkspaces`. A config that cannot be read is `PgWorkspace.DEFAULT`. -/
def initWorkspaces : Action F Unit := do
  let state ← get
  let workspaces ← PgFs.readToJSONOrDefault system json.parseWorkspaces workspacesConfigPath
    state.workspaces
  modify fun state ↦ { state with hasWorkspace := true, workspaces }
  saveWorkspaces system json

/-! ### Initializing -/

/-- `PgExplorer.getCanonicalPath`. -/
def getCanonicalPath (path : Str) : Action F Str := do
  let path ← convertToFullPath path
  match getItemTypeFromPath path with
  | .file => pure path
  | .folder => pure (appendSlash path)

/-- Load a file into the state; a file that cannot be read is left out. -/
def loadFile (path : Str) : Action F Unit :=
  tryCatch (do
    let content ← PgFs.readToString system path
    modifyExplorer fun explorer ↦
      { explorer with files := explorer.files.set path (some ⟨some content, none⟩) }) fun _ ↦ pure ()

/-- `setupFiles` of `PgExplorer._initCurrentWorkspace`. -/
def setupFiles : ℕ → Str → Action F Unit
  | 0, _ => throw .outOfFuel
  | fuel + 1, path => do
    let itemNames ← PgFs.readDir system path
    if itemNames = [] then modifyExplorer fun explorer ↦ explorer.writeFolder path
    else do
      let subItemPaths ← (itemNames.filter isItemNameValid).mapM fun itemName ↦
        getCanonicalPath (joinPaths path itemName)
      subItemPaths.forM fun subItemPath ↦ do
        let metadata ← PgFs.getMetadata system subItemPath
        if metadata = .file then loadFile system subItemPath else setupFiles fuel subItemPath

/-- The files of the current workspace, loaded from the file system. -/
def loadFiles : Action F Unit := do
  let root ← currentWorkspacePath
  let state ← get
  setupFiles system (system.height state.disk + 1) root

/-- The metadata file as a list of entries. -/
def MetaFile.toEntries : MetaFile → List ItemMetaEntry
  | .entries metaFile => metaFile
  | .old metaFile => metaFile.entries.map fun (path, itemMeta) ↦
      ⟨path, itemMeta.tabs, itemMeta.current, itemMeta.position⟩

/-- The index of the file that the metadata lists as the current one. -/
def metaIndex (tabs : List Str) (metaFile : List ItemMetaEntry) : ℤ :=
  match metaFile.find? ItemMetaEntry.isCurrent with
  | some current => indexOf tabs current.path
  | none => -1

/-- Take over the tabs, the current file and the positions of the metadata. -/
def ExplorerState.applyMeta (explorer : ExplorerState) (metaFile : List ItemMetaEntry) :
    ExplorerState :=
  let tabbed := explorer.setTabs ((metaFile.filter ItemMetaEntry.isTabs).map ItemMetaEntry.path)
  { tabbed with
    currentIndex := metaIndex tabbed.tabs metaFile
    files := metaFile.foldl
      (fun files entry ↦
        match files.item entry.path with
        | some ⟨some content, _⟩ => files.set entry.path (some ⟨some content, some ⟨entry.position⟩⟩)
        | _ => files) tabbed.files }

/-- The metadata of the current workspace in the file system, with full paths. -/
def readMeta : Action F (List ItemMetaEntry) := do
  let metaFile ← PgFs.readToJSONOrDefault system json.parseMeta metadataPath (.entries [])
  metaFile.toEntries.mapM fun entry ↦ do
    let path ← convertToFullPath entry.path
    pure { entry with path }

/-- Load the metadata of the current workspace from the file system. -/
def loadMeta : Action F Unit := do
  let fullPathMetaFile ← readMeta system json
  modifyExplorer fun explorer ↦ explorer.applyMeta fullPathMetaFile

/-- `PgExplorer._initCurrentWorkspace`. -/
def initCurrentWorkspaceWith (deleteWorkspace : Action F Unit) : Action F Unit := do
  let state ← get
  throwIf (!state.hasWorkspace) WorkspaceError.notFound
  modifyExplorer fun explorer ↦ { explorer with files := .empty }
  tryCatch (loadFiles system) fun _ ↦ deleteWorkspace
  let state ← get
  if state.explorer.files.keys = [] ∧ state.allWorkspaceNames.getD [] = [] then pure ()
  else loadMeta system json

/-- The part of `switchWorkspace` before the workspace is initialized. -/
def enterWorkspace (name : Str) : Action F Unit := do
  saveMeta system json
  changeWorkspaces fun workspaces ↦ .ok (workspaces.setCurrentName name)
  saveWorkspaces system json

/-- The part of `switchWorkspace` after the workspace has been initialized: open the default file if
one has been specified, or announce the current one. -/
def openDefaultFile (defaultOpenFile : Option Str) : Action F Unit :=
  match defaultOpenFile.filter fun path ↦ path ≠ [] with
  | some path => do
    openFile path
    saveMeta system json
  | none => modify State.dispatchOnDidOpenFile

/-- `PgExplorer.switchWorkspace`. -/
def switchWorkspaceWith (deleteWorkspace : Action F Unit) (name : Str)
    (defaultOpenFile : Option Str) : Action F Unit := do
  enterWorkspace system json name
  initCurrentWorkspaceWith system json deleteWorkspace
  openDefaultFile system json defaultOpenFile
  modify fun state ↦ { state with initializedWorkspaceName := some name }

/-! ### Deleting, switching, initializing -/

/-- `PgExplorer.deleteWorkspace`, with a bound on the workspaces that it deletes. -/
def deleteWorkspaceWithin : ℕ → Action F Unit
  | 0 => throw .outOfFuel
  | bound + 1 => do
    let state ← get
    throwIf (!state.hasWorkspace) WorkspaceError.notFound
    let root ← currentWorkspacePath
    deleteItem system json root
    let state ← get
    let name := state.currentWorkspaceName.getD []
    changeWorkspaces fun workspaces ↦ .ok (workspaces.delete name)
    match (state.workspaces.delete name).allNames.getLast? with
    | some lastWorkspace =>
      switchWorkspaceWith system json (deleteWorkspaceWithin bound) lastWorkspace none
    | none => do
      changeWorkspaces fun _ ↦ .ok ⟨[], none⟩
      saveWorkspaces system json

/-- `PgExplorer.deleteWorkspace`. -/
def deleteWorkspace : Action F Unit := do
  let state ← get
  deleteWorkspaceWithin system json (state.workspaces.allNames.length + 1)

/-- `PgExplorer._initCurrentWorkspace`, with the deletion that repairs it. -/
def initCurrentWorkspace : Action F Unit :=
  initCurrentWorkspaceWith system json (deleteWorkspace system json)

/-- `PgExplorer.switchWorkspace`. -/
def switchWorkspace (name : Str) (defaultOpenFile : Option Str) : Action F Unit :=
  switchWorkspaceWith system json (deleteWorkspace system json) name defaultOpenFile

/-- `PgExplorer.renameWorkspace`. -/
def renameWorkspace (newName : Str) : Action F Unit := do
  let newName := trim newName
  let state ← get
  throwIf (!state.hasWorkspace) WorkspaceError.notFound
  let root ← currentWorkspacePath
  throwIf (!isWorkspaceNameValid newName) WorkspaceError.invalidName
  throwIf (newName ∈ state.workspaces.allNames) WorkspaceError.alreadyExists
  let newPath := replaceFirst root (state.currentWorkspaceName.getD []) newName
  renameItem system json root newPath ⟨true, false⟩
  changeWorkspaces fun workspaces ↦ workspaces.rename newName
  switchWorkspace system json newName none

/-! ### Creating -/

/-- `PgExplorer._getDefaultOpenFile` of tuple files. -/
def getDefaultOpenFile (files : TupleFiles) : Option Str :=
  ((files.find? fun file ↦ "lib.rs".toList <:+ file.1).or files.head?).map Prod.fst

/-- The options of `newWorkspace`. -/
structure NewWorkspaceOptions where
  files : Option TupleFiles
  defaultOpenFile : Option Str
  fromTemporary : Bool
  skipNameValidation : Bool

/-- Move the paths of a temporary project, which begin at the root, below a workspace. -/
def ExplorerState.moveBelow (explorer : ExplorerState) (name : Str) : ExplorerState :=
  let getFullPath (path : Str) := joinPaths (joinPaths rootDirPath name) path
  let moved := explorer.files.keys.foldl
    (fun explorer path ↦
      if path ∈ explorer.files.keys then
        { explorer with
          files := (explorer.files.erase path).set (getFullPath path) (explorer.files.item path) }
      else explorer) explorer
  moved.setTabs (moved.tabs.map getFullPath)

/-- `PgExplorer._writeAllFromState`. -/
def writeAllFromState : Action F Unit := do
  let state ← get
  state.explorer.files.keys.forM fun path ↦
    match getItemTypeFromPath path with
    | .file =>
      PgFs.writeFile system path
        (((state.explorer.files.item path).bind ItemInfo.content).getD []) true
    | .folder => PgFs.createDir system path true

/-- The part of `newWorkspace` that keeps a temporary project. -/
def newWorkspaceFromTemporary (name : Str) : Action F Unit := do
  modify fun state ↦ { state with isTemporary := false }
  initWorkspaces system json
  changeWorkspaces fun workspaces ↦ workspaces.new name
  modifyExplorer fun explorer ↦ explorer.moveBelow name
  writeAllFromState system
  switchWorkspace system json name none

/-- The part of `newWorkspace` that creates a workspace from files. -/
def newWorkspaceFromFiles (name : Str) (opts : NewWorkspaceOptions) : Action F Unit := do
  let state ← get
  throwIf (!state.hasWorkspace) WorkspaceError.notFound
  changeWorkspaces fun workspaces ↦ workspaces.new name
  (opts.files.getD []).forM fun file ↦ PgFs.writeFile system file.1 file.2 true
  switchWorkspace system json name
    (opts.defaultOpenFile.or (opts.files.bind getDefaultOpenFile))

/-- `PgExplorer.newWorkspace`. -/
def newWorkspace (name : Str) (opts : NewWorkspaceOptions) : Action F Unit := do
  let name := trim name
  throwIf (!opts.skipNameValidation && !isWorkspaceNameValid name) WorkspaceError.invalidName
  let state ← get
  if opts.fromTemporary && state.isTemporary then newWorkspaceFromTemporary system json name
  else newWorkspaceFromFiles system json name opts

/-- `PgGithub.import`, given what the URL parses to and the files of the repository. -/
def importGithub (owner repo path : Str) (convertedFiles : TupleFiles) : Action F Unit := do
  let githubWorkspaceName :=
    "github-".toList ++ owner ++ '/' :: repo ++ '/' :: path
  let state ← get
  if githubWorkspaceName ∈ state.allWorkspaceNames.getD [] then
    switchWorkspace system json githubWorkspaceName none
  else newWorkspace system json githubWorkspaceName ⟨some convertedFiles, none, false, true⟩

/-! ### `init` -/

/-- `PgExplorer._convertToExplorerFiles`. -/
def convertToExplorerFiles (tupleFiles : TupleFiles) : ExplorerFiles :=
  tupleFiles.foldl
    (fun files file ↦ files.set (joinPaths rootDirPath file.1) (some ⟨some file.2, none⟩)) .empty

/-- `PgExplorer._convertToTupleFiles`. -/
def convertToTupleFiles (files : ExplorerFiles) : TupleFiles :=
  files.keys.filterMap fun path ↦
    ((files.item path).bind ItemInfo.content).map fun content ↦ (path, content)

/-- The part of `init` that shows a temporary project. -/
def initTemporary (files : ExplorerFiles) : Action F Unit := do
  modify fun state ↦
    { state with
      isTemporary := true
      hasWorkspace := false
      explorer := { getDefaultState with files } }
  match getDefaultOpenFile (convertToTupleFiles files) with
  | some currentFilePath => openFile currentFilePath
  | none => pure ()

/-- The part of `init` that opens a workspace. -/
def initPersistent (name : Option Str) : Action F Unit := do
  modify fun state ↦ { state with isTemporary := false }
  let state ← get
  runIf (!state.hasWorkspace) (initWorkspaces system json)
  let state ← get
  match name.or state.currentWorkspaceName with
  | some workspaceName =>
    if workspaceName ≠ [] ∧ workspaceName ∈ state.workspaces.allNames then
      switchWorkspace system json workspaceName none
    else if state.workspaces.allNames = [] then modifyExplorer fun _ ↦ getDefaultState
    else pure ()
  | none =>
    if state.workspaces.allNames = [] then modifyExplorer fun _ ↦ getDefaultState else pure ()

/-- `PgExplorer.init`. A name that has not been set is `null`, which equals no `undefined` name. -/
def init (files : Option ExplorerFiles) (name : Option Str) : Action F Unit := do
  let state ← get
  match files with
  | some files => initTemporary files
  | none =>
    if state.initializedWorkspaceName.isSome ∧
        state.initializedWorkspaceName = name.or state.currentWorkspaceName then pure ()
    else initPersistent system json name

end Playground.Explorer
