import Mathlib.Data.List.Sort
import Playground.Explorer.Fs

/-!
# Tabs and items

The methods of `PgExplorer` (`client/src/utils/pg/explorer/explorer.ts`) that open, close and
reorder tabs or note an editor position, and those that create, rename and delete items: `openFile`,
`closeFile`, `setTabs`, `saveEditorPosition`, `newItem`, `renameItem`, `deleteItem`, with `saveMeta`,
which ends the last three. Each of these changes the file system first and the state afterwards.

A `for (const path in files)` loop visits the keys that are there when it begins, and skips a key
that has gone when its turn comes.

Not formalized here: the events other than `onDidOpenFile`.
-/

set_option autoImplicit false
set_option relaxedAutoImplicit false

namespace Playground.Explorer

open Library

variable {F : Type} (system : FileSystem F) (json : Json)

/-! ### Tabs -/

/-- Add a path to the tabs if it has not been added yet, and make it the current one. -/
def ExplorerState.showTab (explorer : ExplorerState) (path : Str) : ExplorerState :=
  let tabs := if path ∈ explorer.tabs then explorer.tabs else explorer.tabs ++ [path]
  { explorer with tabs, currentIndex := indexOf tabs path }

/-- `PgExplorer.openFile` of a full path. -/
def State.openFile (state : State F) (path : Str) : State F :=
  if state.explorer.currentFilePath = some path then state
  else { state with explorer := state.explorer.showTab path }.dispatchOnDidOpenFile

/-- `PgExplorer.openFile`. -/
def openFile (path : Str) : Action F Unit := do
  let path ← convertToFullPath path
  modify fun state ↦ state.openFile path

/-- Remove a path from the tabs and read the current index off the file that is at the old one. -/
def ExplorerState.spliceTab (explorer : ExplorerState) (path : Str) : ExplorerState :=
  let spliced := { explorer with tabs := spliceOne explorer.tabs (indexOf explorer.tabs path) }
  { spliced with
    currentIndex :=
      match spliced.currentFilePath with
      | some current => indexOf spliced.tabs current
      | none => -1 }

/-- The tab that `closeFile` opens when it closes the current file. -/
def ExplorerState.pathToOpen (explorer : ExplorerState) : Option Str :=
  (arrayAt explorer.tabs (explorer.currentIndex + 1)).or (arrayAt explorer.tabs (-2))

/-- The part of `closeFile` that leaves the current file if it is the one to be closed. -/
def State.leaveFile (state : State F) (path : Str) : State F :=
  if state.explorer.currentFilePath = some path then
    match state.explorer.pathToOpen with
    | some pathToOpen => state.openFile pathToOpen
    | none => state
  else state

/-- `PgExplorer.closeFile` of a full path. The tabs are full paths, and not empty. -/
def State.closeFile (state : State F) (path : Str) : State F :=
  if (state.leaveFile path).explorer.currentFilePath.isSome then
    { state.leaveFile path with explorer := (state.leaveFile path).explorer.spliceTab path }
  else state.leaveFile path

/-- `PgExplorer.closeFile`. -/
def closeFile (path : Str) : Action F Unit := do
  let path ← convertToFullPath path
  modify fun state ↦ state.closeFile path

/-- `PgExplorer.setTabs`. -/
def ExplorerState.setTabs (explorer : ExplorerState) (tabs : List Str) : ExplorerState :=
  { explorer with
    tabs := distinct tabs
    currentIndex :=
      match explorer.currentFilePath with
      | some currentPath => indexOf (distinct tabs) currentPath
      | none => explorer.currentIndex }

/-- `PgExplorer.setTabs`, as a method. -/
def setTabs (tabs : List Str) : Action F Unit :=
  modifyExplorer fun explorer ↦ explorer.setTabs tabs

/-- `PgExplorer.saveEditorPosition`. -/
def saveEditorPosition (path : Str) (position : Position) : Action F Unit := do
  let path ← convertToFullPath path
  let state ← get
  match state.explorer.files.item path with
  | none => throw .typeError
  | some item => modifyExplorer fun explorer ↦
      { explorer with
        files := explorer.files.set path (some { item with itemMeta := some ⟨some position⟩ }) }

/-! ### Metadata -/

/-- `PgExplorer.getRelativePath`. -/
def State.getRelativePath (state : State F) (fullPath : Str) : Except Error Str :=
  if state.isTemporary then .ok (fullPath.drop 1)
  else state.currentWorkspacePath.map fun root ↦ replaceFirst fullPath root []

/-- The metadata of one path, with the path that the explorer has for it. -/
def State.metaEntry (state : State F) (path : Str) : Except Error ItemMetaEntry :=
  match state.explorer.files.item path with
  | none => .error .typeError
  | some item => .ok {
      path
      isTabs := path ∈ state.explorer.tabs
      isCurrent := state.explorer.currentFilePath = some path
      position := item.itemMeta.bind ItemMeta.position }

/-- The entries with the tabs first, in tab order. The comparison of the source orders two files
that are not in the tabs both ways; their order is read nowhere. -/
def sortMeta (tabs : List Str) (metaFile : List ItemMetaEntry) : List ItemMetaEntry :=
  (metaFile.filter ItemMetaEntry.isTabs).insertionSort
      (fun first second ↦ indexOf tabs first.path ≤ indexOf tabs second.path) ++
    metaFile.filter fun entry ↦ !entry.isTabs

/-- The contents of the metadata file. -/
def State.metaFile (state : State F) : Except Error (List ItemMetaEntry) := do
  let metaFile ← state.explorer.files.keys.mapM state.metaEntry
  (sortMeta state.explorer.tabs metaFile).mapM fun entry ↦ do
    let path ← state.getRelativePath entry.path
    pure { entry with path }

/-- `PgExplorer.saveMeta`. -/
def saveMeta : Action F Unit := do
  let state ← get
  let paths := state.explorer.files.keys
  match state.currentWorkspaceName with
  | none | some [] => pure ()
  | some _ =>
    if paths = [] then pure ()
    else do
      let root ← currentWorkspacePath
      if paths.any fun path ↦ !decide (root <+: path) then pure ()
      else do
        let metaFile ← evaluate State.metaFile
        PgFs.writeFile system metadataPath (json.stringifyMeta metaFile) true

/-! ### New items -/

/-- `openOptions` of `newItem`. -/
structure OpenOptions where
  dontOpen : Bool
  onlyRefreshIfAlreadyOpen : Bool

/-- The options of `newItem`. -/
structure NewItemOptions where
  skipNameValidation : Bool
  override : Bool
  openOptions : Option OpenOptions

/-- The options of a call without options. -/
def NewItemOptions.none : NewItemOptions :=
  ⟨false, false, .none⟩

/-- Write the content of a file to the state, keeping its metadata. -/
def ExplorerState.writeFile (explorer : ExplorerState) (path content : Str) : ExplorerState :=
  let itemMeta := ((explorer.files.item path).bind ItemInfo.itemMeta).getD ⟨none⟩
  { explorer with files := explorer.files.set path (some ⟨some content, some itemMeta⟩) }

/-- Write an item without content to the state. -/
def ExplorerState.writeFolder (explorer : ExplorerState) (path : Str) : ExplorerState :=
  { explorer with files := explorer.files.set path (some .empty) }

/-- The part of `newItem` that opens the new file. -/
def State.openNewFile (state : State F) (fullPath : Str) (opts : NewItemOptions) : State F :=
  let isCurrentFile := state.explorer.currentFilePath = some fullPath
  let closed := if opts.override ∧ isCurrentFile then state.closeFile fullPath else state
  if opts.openOptions.isNone ∨ isCurrentFile then closed.openFile fullPath else closed

/-- The change of the state in `newItem`, for a file. -/
def State.createFile (state : State F) (fullPath content : Str) (opts : NewItemOptions) : State F :=
  let created := { state with explorer := state.explorer.writeFile fullPath content }
  if opts.openOptions.all OpenOptions.onlyRefreshIfAlreadyOpen then
    created.openNewFile fullPath opts
  else created

/-- The part of `newItem` that creates the item. -/
def createItem (fullPath content : Str) (opts : NewItemOptions) : Action F Unit := do
  let state ← get
  match getItemTypeFromPath fullPath with
  | .file => do
    runIf (!state.isTemporary) (PgFs.writeFile system fullPath content true)
    modify fun state ↦ state.createFile fullPath content opts
  | .folder => do
    runIf (!state.isTemporary) (PgFs.createDir system fullPath false)
    modifyExplorer fun explorer ↦ explorer.writeFolder fullPath

/-- `PgExplorer.newItem`. -/
def newItem (path content : Str) (opts : NewItemOptions) : Action F Unit := do
  let fullPath ← convertToFullPath path
  throwIf (!opts.skipNameValidation && !isItemNameValid (getItemNameFromPath fullPath))
    ItemError.invalidName
  let state ← get
  throwIf ((state.explorer.files.item fullPath).isSome && !opts.override) ItemError.alreadyExists
  createItem system fullPath content opts
  saveMeta system json

/-! ### Renaming -/

/-- `PgExplorer.getCurrentSrcPath`. -/
def State.getCurrentSrcPath (state : State F) : Except Error Str :=
  state.getProjectRootPath.map fun root ↦ appendSlash (joinPaths root srcDirname)

/-- The item that `getFolderContent` lists for a path below the folder: the name between the folder
and the next slash. -/
def childName (folder itemPath : Str) : Str :=
  let rest := itemPath.drop folder.length
  let part :=
    match splitFirst folder rest with
    | some (before, _) => before
    | none => rest
  part.takeWhile fun char ↦ char != '/'

/-- `PgExplorer.getFolderContent` of a full path: the names of the files and of the folders. -/
def ExplorerState.getFolderContent (explorer : ExplorerState) (path : Str) :
    List Str × List Str :=
  let folder := appendSlash path
  let names := (explorer.files.keys.filter fun itemPath ↦ folder <+: itemPath).map (childName folder)
  let items := distinct (names.filter fun name ↦ name ≠ [])
  (items.filter fun name ↦ '.' ∈ name, items.filter fun name ↦ '.' ∉ name)

/-- The options of `renameItem`. -/
structure RenameItemOptions where
  skipNameValidation : Bool
  override : Bool

/-- The options of a call without options. -/
def RenameItemOptions.none : RenameItemOptions :=
  ⟨false, false⟩

/-- `rename` of `PgExplorer.renameItem`: the item moves to the new path, and a tab of a file with
it. -/
def ExplorerState.rename (explorer : ExplorerState) (oldPath newPath : Str) : ExplorerState where
  files := (explorer.files.erase oldPath).set newPath (explorer.files.item oldPath)
  tabs :=
    match getItemTypeFromPath newPath with
    | .file =>
      if oldPath ∈ explorer.tabs then explorer.tabs.set (explorer.tabs.idxOf oldPath) newPath
      else explorer.tabs
    | .folder => explorer.tabs
  currentIndex := explorer.currentIndex

/-- Where renaming a folder takes a path below it. -/
def childPath (oldPath newPath path : Str) : Str :=
  replaceFirst path oldPath
    (if oldPath.getLast? = some '/' then appendSlash newPath else newPath)

/-- One round of the loop of `PgExplorer.renameItem` over the items of a folder. -/
def ExplorerState.renameBelow (oldPath newPath : Str) (explorer : ExplorerState) (path : Str) :
    ExplorerState :=
  if path ∈ explorer.files.keys ∧ oldPath <+: path then
    explorer.rename path (childPath oldPath newPath path)
  else explorer

/-- The loop of `PgExplorer.renameItem` over the items of a folder. -/
def ExplorerState.renameFolder (explorer : ExplorerState) (oldPath newPath : Str) : ExplorerState :=
  explorer.files.keys.foldl (ExplorerState.renameBelow oldPath newPath) explorer

/-- The change of the state in `PgExplorer.renameItem`. -/
def ExplorerState.renameItem (explorer : ExplorerState) (oldPath newPath : Str)
    (opts : RenameItemOptions) : ExplorerState :=
  let renamed :=
    match getItemTypeFromPath oldPath with
    | .file => (explorer.rename oldPath newPath).writeFolder (getParentPathFromPath oldPath)
    | .folder => explorer.renameFolder oldPath newPath
  if opts.override then renamed.setTabs renamed.tabs else renamed

/-- Whether something is at the new path of `renameItem`. -/
def State.newPathExists (state : State F) (itemType : ItemType) (newPath : Str) : Bool :=
  match itemType with
  | .file => (state.getFile newPath).isSome
  | .folder =>
    let content := state.explorer.getFolderContent newPath
    0 < content.1.length || 0 < content.2.length

/-- `PgExplorer.renameItem` after the paths have been found to differ. -/
def moveItem (oldPath newPath : Str) (opts : RenameItemOptions) : Action F Unit := do
  throwIf (!opts.skipNameValidation && !isItemNameValid newPath) ItemError.invalidName
  let srcPath ← evaluate State.getCurrentSrcPath
  throwIf (isPathsEqual oldPath srcPath) ItemError.srcRename
  let itemType := getItemTypeFromPath oldPath
  throwIf (itemType ≠ getItemTypeFromPath newPath) ItemError.typeMismatch
  let state ← get
  throwIf (!opts.override && state.newPathExists itemType newPath) ItemError.alreadyExists
  runIf (!state.isTemporary) (PgFs.rename system oldPath newPath)
  modifyExplorer fun explorer ↦ explorer.renameItem oldPath newPath opts
  modify State.dispatchOnDidOpenFile
  saveMeta system json

/-- `PgExplorer.renameItem`. -/
def renameItem (oldPath newPath : Str) (opts : RenameItemOptions) : Action F Unit := do
  let oldPath ← convertToFullPath oldPath
  let newPath ← convertToFullPath newPath
  if isPathsEqual newPath oldPath then pure ()
  else moveItem system json oldPath newPath opts

/-! ### Deleting -/

/-- Delete an item from the file system. -/
def removeItem (fullPath : Str) : Action F Unit := do
  let metadata ← PgFs.getMetadata system fullPath
  if metadata = .file then PgFs.removeFile system fullPath
  else PgFs.removeDir system fullPath true

/-- Remove a path from the state and close its tab. -/
def State.forget (state : State F) (path : Str) : State F :=
  { state with
    explorer := { state.explorer with files := state.explorer.files.erase path } }.closeFile path

/-- The paths that `deleteItem` removes from the state: those that begin with its path. -/
def ExplorerState.pathsBelow (explorer : ExplorerState) (fullPath : Str) : List Str :=
  explorer.files.keys.filter fun path ↦ fullPath <+: path

/-- The change of the state in `PgExplorer.deleteItem`. The loop removes no key but the one it is
at. -/
def State.deleteItem (state : State F) (fullPath : Str) : State F :=
  let forgotten := (state.explorer.pathsBelow fullPath).foldl State.forget state
  let deleted :=
    { forgotten with
      explorer := forgotten.explorer.writeFolder (getParentPathFromPath fullPath) }
  if state.explorer.currentFilePath.any fun current ↦ fullPath <+: current then
    match arrayAt deleted.explorer.tabs (-1) with
    | some lastTabPath => deleted.openFile lastTabPath
    | none => deleted
  else deleted

/-- `PgExplorer.deleteItem`. -/
def deleteItem (path : Str) : Action F Unit := do
  let fullPath ← convertToFullPath path
  let srcPath ← evaluate State.getCurrentSrcPath
  throwIf (isPathsEqual fullPath srcPath) ItemError.srcDelete
  let state ← get
  runIf (!state.isTemporary) (removeItem system fullPath)
  modify fun state ↦ state.deleteItem fullPath
  saveMeta system json

end Playground.Explorer
