import Playground.Library.JavaScript

/-!
# Paths and names

The path methods of `client/src/utils/pg/common.ts` and the utilities of
`client/src/utils/pg/explorer/explorer.ts`. A path is a string; what kind of item it denotes is read
off its last name, which is a file's if it contains a dot.

Not formalized here: the methods that go through the document's elements.
-/

set_option autoImplicit false
set_option relaxedAutoImplicit false

namespace Playground.Explorer

open Library

/-! ### `PgCommon` -/

/-- `PgCommon.appendSlash`. -/
def appendSlash (text : Str) : Str :=
  if text = [] then []
  else text ++ if text.getLast? = some '/' then [] else ['/']

/-- `PgCommon.withoutPreSlash`. -/
def withoutPreSlash : Str → Str
  | '/' :: rest => rest
  | text => text

/-- `PgCommon.joinPaths` of two paths; more are joined from the left. -/
def joinPaths (first second : Str) : Str :=
  appendSlash first ++ withoutPreSlash second

/-- `PgCommon.isPathsEqual`. -/
def isPathsEqual (first second : Str) : Bool :=
  appendSlash first = appendSlash second

/-! ### `PgExplorer.PATHS` -/

/-- `ROOT_DIR_PATH`. -/
def rootDirPath : Str :=
  "/".toList

/-- `SRC_DIRNAME`. -/
def srcDirname : Str :=
  "src".toList

/-- `CLIENT_DIRNAME`. -/
def clientDirname : Str :=
  "client".toList

/-- `TESTS_DIRNAME`. -/
def testsDirname : Str :=
  "tests".toList

/-! ### Items -/

/-- What an item is. -/
inductive ItemType
  | file
  | folder
  deriving DecidableEq

/-- `PgExplorer.getItemNameFromPath`. -/
def getItemNameFromPath (path : Str) : Str :=
  let items := path.splitOn '/'
  (if path.getLast? = some '/' then arrayAt items (-2) else arrayAt items (-1)).getD []

/-- `PgExplorer.getItemTypeFromName`. -/
def getItemTypeFromName (itemName : Str) : ItemType :=
  if '.' ∈ itemName then .file else .folder

/-- `PgExplorer.getItemTypeFromPath`. -/
def getItemTypeFromPath (path : Str) : ItemType :=
  getItemTypeFromName (getItemNameFromPath path)

/-- `PgExplorer.getParentPathFromPath`. The last name of a file's path and the one before the last
of a folder's are left out, the others are joined, the first one being empty when the path is
absolute. -/
def getParentPathFromPath (path : Str) : Str :=
  let names := path.splitOn '/'
  let others :=
    match getItemTypeFromPath path with
    | .file => names.eraseIdx (names.length - 1)
    | .folder => if names.length < 2 then names else names.eraseIdx (names.length - 2)
  match others with
  | [] => []
  | first :: rest =>
    appendSlash (rest.foldl
      (fun parentPath itemName ↦
        if itemName = [] then parentPath else parentPath ++ '/' :: itemName) first)

/-- `PgExplorer.isItemNameValid`. The regular expression is not anchored at the end, so that it looks
at the first character only: a word character, or one of the range from the dot to the slash, and no
dot. -/
def isItemNameValid (name : Str) : Bool :=
  (match name with
    | [] => false
    | first :: _ => first != '.' && (isWordChar first || first == '/')) &&
  !decide ("//".toList <:+: name) && !decide ("..".toList <:+: name) &&
  name.getLast? != some '/' && name.getLast? != some '.'

/-- `PgExplorer.isWorkspaceNameValid`: `/^(?!\s)[\w\s-]+$/`. -/
def isWorkspaceNameValid (name : Str) : Bool :=
  (match name with
    | [] => false
    | first :: _ => !isSpaceChar first) &&
  name.all fun char ↦ isWordChar char || isSpaceChar char || char == '-'

/-! ### Languages -/

/-- `PgExplorer.getExtensionFromPath`: the last part of the path, preceded by `test` if the part
before is that. -/
def getExtensionFromPath (path : Str) : Str :=
  let parts := path.splitOn '.'
  let kept := (parts.reverse.zipIdx.filter fun (part, index) ↦
    index = 0 || (index = 1 && part = "test".toList)).map Prod.fst
  ['.'].intercalate kept.reverse

/-- `Lang`. -/
inductive Lang
  | python
  | javascript
  | typescript
  | javascriptTest
  | typescriptTest
  | json
  | csharp
  | protobuf
  deriving DecidableEq

/-- `PgExplorer.getLanguageFromPath`. -/
def getLanguageFromPath (path : Str) : Option Lang :=
  let extension := getExtensionFromPath path
  if extension = "py".toList then some .python
  else if extension = "js".toList then some .javascript
  else if extension = "ts".toList then some .typescript
  else if extension = "test.js".toList then some .javascriptTest
  else if extension = "test.ts".toList then some .typescriptTest
  else if extension = "json".toList then some .json
  else if extension = "cs".toList then some .csharp
  else if extension = "proto".toList then some .protobuf
  else none

/-- `PgExplorer.isFileJsLike`. -/
def isFileJsLike (path : Str) : Bool :=
  match getLanguageFromPath path with
  | some .javascript | some .typescript | some .javascriptTest | some .typescriptTest => true
  | _ => false

example : getParentPathFromPath "/ws/src/main.cs".toList = "/ws/src/".toList := by decide +kernel

example : isFileJsLike "/ws/tests/a.test.ts".toList := by decide +kernel

end Playground.Explorer
