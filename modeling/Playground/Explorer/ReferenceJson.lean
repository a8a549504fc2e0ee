import Playground.Library.Json
import Playground.Explorer.State

/-!
# A JSON for the explorer

`Json.RoundTrips` is what is relied on in `JSON`: everything that is written is read back. It can be
met: `referenceJson` writes the metadata and the
workspaces as `JSON.stringify` does, a field that is `undefined` being left out, and reads a text as
`JSON.parse` does.

Not formalized here: values of another shape than those that are written.
-/

set_option autoImplicit false
set_option relaxedAutoImplicit false

namespace Playground.Explorer

open Library

/-- Everything that is written is read back. -/
structure Json.RoundTrips (json : Json) : Prop where
  parseMeta_stringifyMeta : ∀ entries, json.parseMeta (json.stringifyMeta entries) =
    some (.entries entries)
  parseWorkspaces_stringifyWorkspaces : ∀ workspaces,
    json.parseWorkspaces (json.stringifyWorkspaces workspaces) = some workspaces

/-! ### Metadata -/

/-- A position as a JSON value. -/
def positionJson (position : Position) : Library.Json :=
  .object
    [("topLineNumber".toList, .number position.topLineNumber),
      ("cursor".toList, .object [("from".toList, .number position.cursorFrom),
        ("to".toList, .number position.cursorTo)])]

/-- The members of an object. -/
def readObject : Library.Json → Option (List (List Char × Library.Json))
  | .object members => some members
  | _ => none

/-- The elements of an array. -/
def readArray : Library.Json → Option (List Library.Json)
  | .array elements => some elements
  | _ => none

/-- The position of a JSON value. -/
def readPosition (value : Library.Json) : Option Position := do
  let members ← readObject value
  let topLineNumber ← (Library.Json.member members "topLineNumber").bind Library.Json.readNumber
  let cursor ← (Library.Json.member members "cursor").bind readObject
  let cursorFrom ← (Library.Json.member cursor "from").bind Library.Json.readNumber
  let cursorTo ← (Library.Json.member cursor "to").bind Library.Json.readNumber
  some ⟨topLineNumber, cursorFrom, cursorTo⟩

/-- An entry of the metadata as a JSON value. -/
def entryJson (entry : ItemMetaEntry) : Library.Json :=
  .object
    ([("path".toList, .string entry.path), ("isTabs".toList, .bool entry.isTabs),
        ("isCurrent".toList, .bool entry.isCurrent)] ++
      entry.position.toList.map fun position ↦ ("position".toList, positionJson position))

/-- A flag that may be left out. -/
def readFlag (members : List (List Char × Library.Json)) (name : String) : Bool :=
  ((Library.Json.member members name).bind Library.Json.readBool).getD false

/-- The entry of a JSON value. -/
def readEntry (value : Library.Json) : Option ItemMetaEntry := do
  let members ← readObject value
  let path ← (Library.Json.member members "path").bind Library.Json.readString
  some ⟨path, readFlag members "isTabs", readFlag members "isCurrent",
    (Library.Json.member members "position").bind readPosition⟩

/-- The value of a member of the old metadata. -/
def readOldItem (value : Library.Json) : Option OldItemMeta := do
  let members ← readObject value
  some ⟨readFlag members "current", readFlag members "tabs",
    (Library.Json.member members "position").bind readPosition⟩

/-- The metadata of a JSON value, in the new form or in the old. -/
def readMetaFile : Library.Json → Option MetaFile
  | .array elements => (elements.mapM readEntry).map .entries
  | .object members => do
    let items ← members.mapM fun member ↦ (readOldItem member.2).map fun item ↦ (member.1, item)
    some (.old (items.foldl (fun map item ↦ map.set item.1 item.2) .empty))
  | _ => none

/-! ### Workspaces -/

/-- The workspaces as a JSON value. -/
def workspacesJson (workspaces : Workspaces) : Library.Json :=
  .object
    ((workspaces.currentName.toList.map fun name ↦ ("currentName".toList, .string name)) ++
      [("allNames".toList, .array (workspaces.allNames.map .string))])

/-- The workspaces of a JSON value. -/
def readWorkspaces (value : Library.Json) : Option Workspaces := do
  let members ← readObject value
  let elements ← (Library.Json.member members "allNames").bind readArray
  let allNames ← elements.mapM Library.Json.readString
  some ⟨allNames, (Library.Json.member members "currentName").bind Library.Json.readString⟩

/-! ### The texts -/

/-- `JSON` on the values that the explorer stores. -/
def referenceJson : Json where
  stringifyMeta entries := Library.Json.print (.array (entries.map entryJson))
  parseMeta text := (Library.Json.parse text).bind readMetaFile
  stringifyWorkspaces workspaces := Library.Json.print (workspacesJson workspaces)
  parseWorkspaces text := (Library.Json.parse text).bind readWorkspaces

/-- What reads back every element reads back a list. -/
theorem mapM_map_eq_some {α β : Type} {write : α → β} {read : β → Option α}
    (hread : ∀ value, read (write value) = some value) (values : List α) :
    (values.map write).mapM read = some values := by
  induction values with
  | nil => rfl
  | cons first rest ih => rw [List.map_cons, List.mapM_cons, hread, ih]; rfl

theorem readPosition_positionJson (position : Position) :
    readPosition (positionJson position) = some position := by
  simp (disch := simp) only [readPosition, positionJson, readObject, Library.Json.member_self,
    Library.Json.member_of_ne, Library.Json.readNumber, Option.bind_eq_bind, Option.bind_some]

/-- A flag is read behind members with other names. -/
theorem readFlag_self (name : String) (value : Bool) (rest : List (List Char × Library.Json)) :
    readFlag ((name.toList, .bool value) :: rest) name = value := by
  rw [readFlag, Library.Json.member_self]
  rfl

theorem readFlag_of_ne {other name : String} (hne : other ≠ name) (value : Library.Json)
    (rest : List (List Char × Library.Json)) :
    readFlag ((other.toList, value) :: rest) name = readFlag rest name := by
  rw [readFlag, readFlag, Library.Json.member_of_ne hne]

theorem readEntry_entryJson (entry : ItemMetaEntry) : readEntry (entryJson entry) = some entry := by
  obtain ⟨path, isTabs, isCurrent, position⟩ := entry
  cases position with
  | none =>
    simp (disch := simp) only [readEntry, entryJson, readObject, readFlag_self, readFlag_of_ne,
      Library.Json.member_self, Library.Json.member_of_ne, Library.Json.member_nil,
      Library.Json.readString, Option.toList_none, List.map_nil, List.append_nil,
      Option.bind_eq_bind, Option.bind_some, Option.bind_none]
  | some position =>
    simp (disch := simp) only [readEntry, entryJson, readObject, readFlag_self, readFlag_of_ne,
      Library.Json.member_self, Library.Json.member_of_ne, Library.Json.readString,
      Option.toList_some, List.map_cons, List.map_nil, List.cons_append, List.nil_append,
      Option.bind_eq_bind, Option.bind_some, readPosition_positionJson]

theorem readWorkspaces_workspacesJson (workspaces : Workspaces) :
    readWorkspaces (workspacesJson workspaces) = some workspaces := by
  obtain ⟨allNames, currentName⟩ := workspaces
  have hnames : (allNames.map Library.Json.string).mapM Library.Json.readString = some allNames :=
    @mapM_map_eq_some _ _ Library.Json.string Library.Json.readString (fun _ ↦ rfl) allNames
  cases currentName with
  | none =>
    simp (disch := simp) only [readWorkspaces, workspacesJson, readObject, readArray,
      Library.Json.member_self, Library.Json.member_of_ne, Library.Json.member_nil, hnames,
      Option.toList_none, List.map_nil, List.nil_append, Option.bind_eq_bind, Option.bind_some,
      Option.bind_none]
  | some name =>
    simp (disch := simp) only [readWorkspaces, workspacesJson, readObject, readArray,
      Library.Json.member_self, Library.Json.member_of_ne, hnames, Library.Json.readString,
      Option.toList_some, List.map_cons, List.map_nil, List.cons_append, List.nil_append,
      Option.bind_eq_bind, Option.bind_some]

/-- Everything that is written is read back. -/
theorem referenceJson_roundTrips : referenceJson.RoundTrips where
  parseMeta_stringifyMeta entries := by
    change (Library.Json.parse (Library.Json.print _)).bind readMetaFile = _
    rw [Library.Json.parse_print, Option.bind_some]
    change ((entries.map entryJson).mapM readEntry).map MetaFile.entries = _
    rw [mapM_map_eq_some readEntry_entryJson]
    rfl
  parseWorkspaces_stringifyWorkspaces workspaces := by
    change (Library.Json.parse (Library.Json.print _)).bind readWorkspaces = _
    rw [Library.Json.parse_print, Option.bind_some, readWorkspaces_workspacesJson]

end Playground.Explorer
