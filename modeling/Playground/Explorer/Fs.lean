import Playground.Explorer.State

/-!
# `PgFs`

`client/src/utils/pg/explorer/fs.ts`, the methods through which the explorer reaches its file
system. A call of the file system that fails throws and leaves the disk as it was.

`removeDir` recurses over a directory tree; the bound of the recursion is the height of the disk.

Not formalized here: the log line of `exists`.
-/

set_option autoImplicit false
set_option relaxedAutoImplicit false

namespace Playground.Explorer

open Library

variable {F : Type} (system : FileSystem F)

/-! ### Calls of the file system -/

/-- A call that changes the disk. -/
def onDisk (call : F → Except FsError F) : Action F Unit := fun state ↦
  match call state.disk with
  | .ok disk => .ok () { state with disk }
  | .error error => .error (.fs error) state

/-- A call that reads the disk. -/
def readDisk {α : Type} (call : F → Except FsError α) : Action F α :=
  evaluate fun state ↦ (call state.disk).mapError .fs

namespace PgFs

/-- `PgFs.getMetadata`. -/
def getMetadata (path : Str) : Action F NodeKind := do
  let path ← convertToFullPath path
  readDisk fun disk ↦ system.stat disk path

/-- `PgFs.exists`. -/
def itemExists (path : Str) : Action F Bool := do
  let path ← convertToFullPath path
  tryCatch (do
    let _ ← getMetadata system path
    pure true) fun error ↦
      match error with
      | .fs .enoent | .fs .enotdir => pure false
      | error => throw error

/-- The loop of `PgFs.createDir` over the folders of a path. -/
def createDirs (currentPath : Str) : List Str → Action F Unit
  | [] => pure ()
  | folder :: rest => do
    let currentPath := currentPath ++ '/' :: folder
    let found ← itemExists system currentPath
    runIf (!found) (onDisk fun disk ↦ system.mkdir disk currentPath)
    createDirs currentPath rest

/-- `PgFs.createDir`. -/
def createDir (path : Str) (createParents : Bool) : Action F Unit := do
  let path ← convertToFullPath path
  if createParents then createDirs system [] ((path.splitOn '/').dropLast.drop 1)
  else onDisk fun disk ↦ system.mkdir disk path

/-- `PgFs.writeFile`. -/
def writeFile (path data : Str) (createParents : Bool) : Action F Unit := do
  let path ← convertToFullPath path
  runIf createParents (createDir system (getParentPathFromPath path) true)
  onDisk fun disk ↦ system.writeFile disk path data

/-- `PgFs.readToString`. -/
def readToString (path : Str) : Action F Str := do
  let path ← convertToFullPath path
  readDisk fun disk ↦ system.readFile disk path

/-- `PgFs.readToJSONOrDefault`, for a direction of `JSON.parse`. -/
def readToJSONOrDefault {α : Type} (parse : Str → Option α) (path : Str) (defaultValue : α) :
    Action F α :=
  tryCatch (do
    let data ← readToString system path
    pure ((parse data).getD defaultValue)) fun _ ↦ pure defaultValue

/-- `PgFs.rename`. -/
def rename (oldPath newPath : Str) : Action F Unit := do
  let oldPath ← convertToFullPath oldPath
  let newPath ← convertToFullPath newPath
  onDisk fun disk ↦ system.rename disk oldPath newPath

/-- `PgFs.removeFile`. -/
def removeFile (path : Str) : Action F Unit := do
  let path ← convertToFullPath path
  onDisk fun disk ↦ system.unlink disk path

/-- `PgFs.readDir`. -/
def readDir (path : Str) : Action F (List Str) := do
  let path ← convertToFullPath path
  readDisk fun disk ↦ system.readdir disk path

/-- `recursivelyRmdir` of `PgFs.removeDir`. -/
def recursivelyRmdir : ℕ → List Str → Str → Action F Unit
  | 0, _, _ => throw .outOfFuel
  | fuel + 1, dir, currentPath =>
    if dir = [] then onDisk fun disk ↦ system.rmdir disk currentPath
    else do
      dir.forM fun childName ↦ do
        let childPath := currentPath ++ childName
        let metadata ← getMetadata system childPath
        if metadata = .folder then do
          let childDir ← readDir system childPath
          if childDir = [] then onDisk fun disk ↦ system.rmdir disk childPath
          else recursivelyRmdir fuel childDir (childPath ++ ['/'])
        else removeFile system childPath
      let rest ← readDir system currentPath
      runIf rest.isEmpty (onDisk fun disk ↦ system.rmdir disk currentPath)

/-- `PgFs.removeDir`. -/
def removeDir (path : Str) (recursive : Bool) : Action F Unit := do
  let path ← convertToFullPath path
  if recursive then do
    let dir ← readDir system path
    let state ← get
    recursivelyRmdir system (system.height state.disk + 1) dir path
  else onDisk fun disk ↦ system.rmdir disk path

end PgFs

end Playground.Explorer
