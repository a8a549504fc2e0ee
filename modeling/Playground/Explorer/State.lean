import Playground.Library.FileSystem
import Playground.Library.OrderedMap
import Playground.Explorer.Paths

/-!
# The state of the explorer

`client/src/utils/pg/explorer/types.ts`, `workspace.ts` and the static fields and getters of
`PgExplorer`. A method is an action on the state that may throw (`Action`); what it has changed
before it throws stays changed. The file system and `JSON` are parameters: `FileSystem` is the
interface of `lightning-fs`, and `Json` the two directions of `JSON` on the two values that the
explorer stores.

`opened` records the last file handed to `dispatchOnDidOpenFile`. No branch reads it.

Not formalized here: the other events, which carry no data that a claim is about, and the legacy
`explorer` key of `localStorage`, which is taken to be absent.
-/

set_option autoImplicit false
set_option relaxedAutoImplicit false

namespace Playground.Explorer

open Library

/-! ### Errors -/

/-- What a method throws: an `Error` with a message, an error of the file system, a `TypeError` of
the runtime. `outOfFuel` is thrown by no method: it marks a recursion of the model that has used up
its bound. -/
inductive Error
  | message (text : String)
  | fs (error : FsError)
  | typeError
  | outOfFuel
  deriving DecidableEq

namespace ItemError

/-- `ItemError.ALREADY_EXISTS`. -/
def alreadyExists : Error := .message "Already exists"

/-- `ItemError.INVALID_NAME`. -/
def invalidName : Error := .message "Invalid name"

/-- `ItemError.TYPE_MISMATCH`. -/
def typeMismatch : Error := .message "Types don't match"

/-- `ItemError.SRC_DELETE`. -/
def srcDelete : Error := .message "Cannot delete src folder"

/-- `ItemError.SRC_RENAME`. -/
def srcRename : Error := .message "Cannot rename src folder"

end ItemError

namespace WorkspaceError

/-- `WorkspaceError.ALREADY_EXISTS`. -/
def alreadyExists : Error := .message "Already exists"

/-- `WorkspaceError.INVALID_NAME`. -/
def invalidName : Error := .message "Invalid name"

/-- `WorkspaceError.NOT_FOUND`. -/
def notFound : Error := .message "Workspace not found"

/-- `WorkspaceError.CURRENT_NOT_FOUND`. -/
def currentNotFound : Error := .message "Current workspace not found"

end WorkspaceError

/-! ### Data -/

/-- `Position`. -/
structure Position where
  topLineNumber : ℕ
  cursorFrom : ℕ
  cursorTo : ℕ
  deriving DecidableEq

/-- `ItemMeta`. -/
structure ItemMeta where
  position : Option Position
  deriving DecidableEq

/-- `ItemInfo`. -/
structure ItemInfo where
  content : Option Str
  itemMeta : Option ItemMeta
  deriving DecidableEq

/-- The item `{}`. -/
def ItemInfo.empty : ItemInfo :=
  ⟨none, none⟩

/-- `FullFile`. -/
structure FullFile extends ItemInfo where
  path : Str
  deriving DecidableEq

/-- `ExplorerFiles`. A key may be there with the value `undefined`. -/
abbrev ExplorerFiles := OrderedMap Str (Option ItemInfo)

/-- The item that an access to a path yields. -/
def ExplorerFiles.item (files : ExplorerFiles) (path : Str) : Option ItemInfo :=
  (files.lookup path).join

/-- `Explorer`. -/
structure ExplorerState where
  files : ExplorerFiles
  tabs : List Str
  currentIndex : ℤ
  deriving DecidableEq

/-- `PgExplorer._getDefaultState`. -/
def getDefaultState : ExplorerState where
  files := .empty
  tabs := []
  currentIndex := -1

/-- `PgExplorer.currentFilePath`. -/
def ExplorerState.currentFilePath (explorer : ExplorerState) : Option Str :=
  arrayAt explorer.tabs explorer.currentIndex

/-- An entry of `ItemMetaFile`; an optional flag that is missing is `false`. -/
structure ItemMetaEntry where
  path : Str
  isTabs : Bool
  isCurrent : Bool
  position : Option Position
  deriving DecidableEq

/-- An entry of the old form of the metadata file. -/
structure OldItemMeta where
  current : Bool
  tabs : Bool
  position : Option Position
  deriving DecidableEq

/-- What the metadata file holds. -/
inductive MetaFile
  | entries (metaFile : List ItemMetaEntry)
  | old (metaFile : OrderedMap Str OldItemMeta)

/-! ### `PgWorkspace` -/

/-- `Workspaces`. -/
structure Workspaces where
  allNames : List Str
  currentName : Option Str
  deriving DecidableEq

namespace Workspaces

/-- `PgWorkspace.DEFAULT`, as the module initializes it. -/
def initial : Workspaces :=
  ⟨[], none⟩

/-- `PgWorkspace.setCurrentName`. -/
def setCurrentName (workspaces : Workspaces) (name : Str) : Workspaces :=
  if name ∈ workspaces.allNames then { workspaces with currentName := some name } else workspaces

/-- `PgWorkspace.new`. -/
def new (workspaces : Workspaces) (name : Str) : Except Error Workspaces :=
  if name ∈ workspaces.allNames then .error WorkspaceError.alreadyExists
  else .ok ⟨workspaces.allNames ++ [name], some name⟩

/-- `PgWorkspace.delete`. -/
def delete (workspaces : Workspaces) (name : Str) : Workspaces :=
  { workspaces with allNames := workspaces.allNames.filter fun other ↦ other ≠ name }

/-- `PgWorkspace.rename`. -/
def rename (workspaces : Workspaces) (newName : Str) : Except Error Workspaces :=
  if newName ∈ workspaces.allNames then .error WorkspaceError.alreadyExists
  else .ok {
    allNames := workspaces.allNames.map fun name ↦
      if some name = workspaces.currentName then newName else name
    currentName := some newName }

end Workspaces

/-- `PgWorkspace.WORKSPACES_CONFIG_PATH`. -/
def workspacesConfigPath : Str :=
  "/.config/workspaces.json".toList

/-- `PgWorkspace.METADATA_PATH`. -/
def metadataPath : Str :=
  ".workspace/metadata.json".toList

/-- `JSON` on the values that the explorer stores. -/
structure Json where
  stringifyMeta : List ItemMetaEntry → Str
  parseMeta : Str → Option MetaFile
  stringifyWorkspaces : Workspaces → Str
  parseWorkspaces : Str → Option Workspaces

/-! ### `PgExplorer` -/

/-- The static fields of `PgExplorer`. Every `PgWorkspace` works on the object
`PgWorkspace.DEFAULT`, which its constructor takes by reference: `workspaces` is that object, and
`hasWorkspace` says whether `_workspace` is set. -/
structure State (F : Type) where
  disk : F
  explorer : ExplorerState
  isTemporary : Bool
  hasWorkspace : Bool
  workspaces : Workspaces
  initializedWorkspaceName : Option Str
  opened : Option (Option FullFile)

/-- A method of `PgExplorer`. -/
abbrev Action (F α : Type) := EStateM Error (State F) α

namespace State

variable {F : Type} (state : State F)

/-- `PgExplorer.currentWorkspaceName`. -/
def currentWorkspaceName : Option Str :=
  if state.hasWorkspace then state.workspaces.currentName else none

/-- `PgExplorer.allWorkspaceNames`. -/
def allWorkspaceNames : Option (List Str) :=
  if state.hasWorkspace then some state.workspaces.allNames else none

/-- `PgExplorer.currentWorkspacePath`; the empty name counts as none. -/
def currentWorkspacePath : Except Error Str :=
  match state.currentWorkspaceName with
  | none | some [] => .error WorkspaceError.currentNotFound
  | some name => .ok (joinPaths rootDirPath (appendSlash name))

/-- `PgExplorer.getProjectRootPath`. -/
def getProjectRootPath : Except Error Str :=
  if state.isTemporary then .ok rootDirPath else state.currentWorkspacePath

/-- `PgExplorer.convertToFullPath`. -/
def convertToFullPath (path : Str) : Except Error Str :=
  if rootDirPath <+: path then .ok path
  else state.getProjectRootPath.map fun root ↦ joinPaths root path

/-- `PgExplorer.getFile` of a full path. -/
def getFile (path : Str) : Option FullFile :=
  (state.explorer.files.item path).map fun item ↦ { item with path }

/-- `PgExplorer.getCurrentFile`. -/
def getCurrentFile : Option FullFile :=
  state.explorer.currentFilePath.bind state.getFile

/-- `PgExplorerEvent.dispatchOnDidOpenFile` of the current file. -/
def dispatchOnDidOpenFile : State F :=
  { state with opened := some state.getCurrentFile }

end State

/-- Read a value that may have to be thrown. -/
def evaluate {F α : Type} (value : State F → Except Error α) : Action F α := fun state ↦
  match value state with
  | .ok result => .ok result state
  | .error error => .error error state

/-- `PgExplorer.convertToFullPath`, as a method. -/
def convertToFullPath {F : Type} (path : Str) : Action F Str :=
  evaluate fun state ↦ state.convertToFullPath path

/-- `PgExplorer.currentWorkspacePath`, as a method. -/
def currentWorkspacePath {F : Type} : Action F Str :=
  evaluate State.currentWorkspacePath

/-- Throw an error if a condition holds. -/
def throwIf {F : Type} (condition : Bool) (error : Error) : Action F Unit :=
  if condition then throw error else pure ()

/-- Run an action if a condition holds. -/
def runIf {F : Type} (condition : Bool) (action : Action F Unit) : Action F Unit :=
  if condition then action else pure ()

/-- Change the explorer state. -/
def modifyExplorer {F : Type} (change : ExplorerState → ExplorerState) : Action F Unit :=
  modify fun state ↦ { state with explorer := change state.explorer }


end Playground.Explorer
