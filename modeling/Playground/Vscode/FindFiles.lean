import Playground.Client.ImportSyntax
import Playground.Library.FileSystem
import Playground.Library.Regex

/-!
# Files of a workspace

`findFiles` of `vscode/src/utils/fs.ts`: the search of the directories of a workspace for the paths that a regular
expression matches. A name in which one of the regular expressions of `_EXCLUDE_REGEX` matches is skipped, with all
below it. They are looked for anywhere in a name, except that a dot is looked for at its beginning.

`findFiles_eq_filter` says which items are found: those that are reached by names that are not skipped, and match.

Not formalized here: symbolic links.
-/

set_option autoImplicit false
set_option relaxedAutoImplicit false

namespace Playground.Vscode

open Library Regex Client

/-! ### Directories -/

/-- What a directory lists, entry by entry. -/
inductive Listing
  | empty
  | file (name : Str) (rest : Listing)
  | directory (name : Str) (inside rest : Listing)

/-- `vscode.FileType`. -/
inductive FileType
  | file
  | directory
  deriving DecidableEq

/-- A place in a workspace: the names of the directories from that of the workspace on, and its own. -/
structure Place where
  dirs : List Str
  name : Str
  deriving DecidableEq

/-- The names that lead to a place. -/
def Place.names (place : Place) : List Str :=
  place.dirs ++ [place.name]

/-- The places of what is listed in a directory and below, with what is there. -/
def Listing.places (dirs : List Str) : Listing → List (Place × FileType)
  | empty => []
  | file name rest => (⟨dirs, name⟩, .file) :: rest.places dirs
  | directory name inside rest =>
    (⟨dirs, name⟩, .directory) :: inside.places (dirs ++ [name]) ++ rest.places dirs

/-- The names are those of entries. -/
def Listing.Named : Listing → Prop
  | empty => True
  | file name rest => IsComponent name ∧ rest.Named
  | directory name inside rest => IsComponent name ∧ inside.Named ∧ rest.Named

/-- The names that lead to what is listed are those of entries. -/
theorem Listing.Named.isComponent {listing : Listing} (hnamed : listing.Named) {dirs : List Str}
    (hdirs : ∀ name ∈ dirs, IsComponent name) :
    ∀ item ∈ listing.places dirs, ∀ name ∈ item.1.names, IsComponent name := by
  have hnames : ∀ {name : Str} {dirs : List Str}, IsComponent name → (∀ name ∈ dirs, IsComponent name) →
      ∀ other ∈ dirs ++ [name], IsComponent other := by
    intro name dirs hname hdirs other hother
    rcases List.mem_append.mp hother with hdir | hlast
    · exact hdirs other hdir
    · exact List.mem_singleton.mp hlast ▸ hname
  induction listing generalizing dirs with
  | empty => exact nofun
  | file name rest ih =>
    intro item hitem
    rcases List.mem_cons.mp hitem with rfl | hrest
    · exact hnames hnamed.1 hdirs
    · exact ih hnamed.2 hdirs item hrest
  | directory name inside rest ihInside ihRest =>
    intro item hitem
    rcases List.mem_append.mp hitem with hhere | hrest
    · rcases List.mem_cons.mp hhere with rfl | hinside
      · exact hnames hnamed.1 hdirs
      · exact ihInside hnamed.2.1 (hnames hnamed.1 hdirs) item hinside
    · exact ihRest hnamed.2.2 hdirs item hrest

/-! ### Search -/

/-- `PATHS.DIRS.NODE_MODULES`. -/
def nodeModules : Str :=
  "node_modules".toList

/-- `PATHS.DIRS.TARGET`. -/
def target : Str :=
  "target".toList

/-- `PATHS.DIRS.TESTS`. -/
def tests : Str :=
  "tests".toList

/-- The regular expressions of `_EXCLUDE_REGEX` behind the first one. In the names of the Python files the dot is any
character. -/
def excludeRegexes : List Regex :=
  [literal nodeModules, literal target, literal tests,
    seq (literal "__init__".toList) (seq (chars isDot) (literal "py".toList)),
    seq (literal "prelude".toList) (seq (chars isDot) (literal "py".toList))]

/-- A name that is skipped: the first regular expression is `/^\./`. -/
def isExcluded (name : Str) : Bool :=
  name.head? = some '.' || excludeRegexes.any fun regex ↦ (regex.search name).isSome

/-- `findFiles`, with what matches and the directory that is searched. -/
def findFiles (matching : Place → Bool) (dirs : List Str) : Listing → List (Place × FileType)
  | .empty => []
  | .file name rest =>
    (if isExcluded name then [] else if matching ⟨dirs, name⟩ then [(⟨dirs, name⟩, .file)] else []) ++
      findFiles matching dirs rest
  | .directory name inside rest =>
    (if isExcluded name then []
      else (if matching ⟨dirs, name⟩ then [(⟨dirs, name⟩, .directory)] else []) ++
        findFiles matching (dirs ++ [name]) inside) ++
      findFiles matching dirs rest

/-- No name that leads to a place is skipped. -/
def Place.isReached (place : Place) : Bool :=
  place.names.all fun name ↦ !isExcluded name

/-- Below a directory all places are reached by its names. -/
theorem prefix_dirs_of_mem_places {listing : Listing} {dirs : List Str} :
    ∀ item ∈ listing.places dirs, dirs <+: item.1.dirs := by
  induction listing generalizing dirs with
  | empty => exact nofun
  | file name rest ih =>
    intro item hitem
    rcases List.mem_cons.mp hitem with rfl | hrest
    · exact List.prefix_rfl
    · exact ih item hrest
  | directory name inside rest ihInside ihRest =>
    intro item hitem
    rcases List.mem_append.mp hitem with hhere | hrest
    · rcases List.mem_cons.mp hhere with rfl | hinside
      · exact List.prefix_rfl
      · exact (List.prefix_append _ _).trans (ihInside item hinside)
    · exact ihRest item hrest

/-- Below a directory that is skipped nothing is reached. -/
theorem isReached_eq_false {listing : Listing} {dirs : List Str} {name : Str} (hname : isExcluded name = true) :
    ∀ item ∈ listing.places (dirs ++ [name]), item.1.isReached = false := by
  intro item hitem
  have hmem : name ∈ item.1.dirs :=
    (prefix_dirs_of_mem_places item hitem).subset (List.mem_append_right _ (List.mem_singleton.mpr rfl))
  refine List.all_eq_false.mpr ⟨name, List.mem_append_left _ hmem, ?_⟩
  rw [hname, Bool.not_true]
  exact Bool.false_ne_true

/-- In a directory that is reached, a place is reached whose name is not skipped. -/
theorem isReached_mk {dirs : List Str} (hdirs : ∀ name ∈ dirs, isExcluded name = false) (name : Str) :
    (Place.mk dirs name).isReached = !isExcluded name := by
  have hall : (dirs.all fun name ↦ !isExcluded name) = true :=
    List.all_eq_true.mpr fun other hother ↦ by rw [hdirs other hother, Bool.not_false]
  rw [Place.isReached, Place.names, List.all_append, hall, Bool.true_and, List.all_cons, List.all_nil, Bool.and_true]

/-- The items that are found are those that are reached and match, in the order of the listing. -/
theorem findFiles_eq_filter (matching : Place → Bool) (listing : Listing) {dirs : List Str}
    (hdirs : ∀ name ∈ dirs, isExcluded name = false) :
    findFiles matching dirs listing =
      (listing.places dirs).filter fun item ↦ item.1.isReached && matching item.1 := by
  induction listing generalizing dirs with
  | empty => rfl
  | file name rest ih =>
    rw [findFiles, Listing.places, ih hdirs, List.filter_cons, isReached_mk hdirs]
    cases isExcluded name <;> cases matching ⟨dirs, name⟩ <;> rfl
  | directory name inside rest ihInside ihRest =>
    rw [findFiles, Listing.places, ihRest hdirs, List.filter_append, List.filter_cons, isReached_mk hdirs]
    congr 1
    cases hname : isExcluded name with
    | true =>
      rw [if_pos rfl, Bool.not_true, Bool.false_and, if_neg Bool.false_ne_true]
      refine (List.filter_eq_nil_iff.mpr fun item hitem ↦ ?_).symm
      rw [isReached_eq_false hname item hitem, Bool.false_and]
      exact Bool.false_ne_true
    | false =>
      have hinside : ∀ other ∈ dirs ++ [name], isExcluded other = false := by
        intro other hother
        rcases List.mem_append.mp hother with hdir | hlast
        · exact hdirs other hdir
        · exact List.mem_singleton.mp hlast ▸ hname
      rw [if_neg Bool.false_ne_true, ihInside hinside]
      cases matching ⟨dirs, name⟩ <;> rfl

end Playground.Vscode
