import Mathlib.Data.Countable.Basic
import Mathlib.Logic.Equiv.List
import Playground.Vscode.FindFiles
import Playground.Vscode.SourcePaths

/-!
# Files of a program

`getProgramData` of `vscode/src/utils/fs.ts` for a program that has been selected. Its path is the beginning of a
regular expression, and the files of the workspace in whose paths that matches are those of the program; the paths
that are returned are cut out of their URIs.

`getProgramData_iff` says when the files that are returned are those of the directory `src` of the program. What a
regular expression matches whose pattern is a path with special characters is a parameter.

Not formalized here: programs in Python, how a program is selected, the manifest of the program but for the name in it,
and the path of the key pair that is returned beside the files.
-/

set_option autoImplicit false
set_option relaxedAutoImplicit false

namespace Playground.Vscode

open Library Client

/-! ### Workspaces -/

/-- A workspace: the names of the directories from the root to its own, and what is listed in that. -/
structure Workspace where
  location : List Str
  listing : Listing
  location_named : ∀ name ∈ location, IsComponent name
  listing_named : listing.Named

/-- A character that stands for itself in a regular expression. -/
def isPatternPlain (char : Char) : Bool :=
  !"^$\\.*+?()[]\x7b\x7d|".toList.contains char

/-- The regular expressions of a pattern, and the texts in which they match. Not all patterns are valid. -/
structure RegExps where
  compile : Str → Option (Str → Bool)
  compile_plain : ∀ {path : Str}, (∀ char ∈ path, isPatternPlain char = true) →
    compile (path ++ "\\/.+\\.rs$".toList) = some fun text ↦
      text.tails.any fun rest ↦ decide (path ++ ['/'] <+: rest) && endsInRust (rest.drop (path.length + 1))

/-- What is under the extension. -/
structure Host where
  platform : Platform
  encoding : UriEncoding
  regExps : RegExps
  /-- The name of the package in the manifest that is there when its path is read as a URI, if there is
  one. -/
  packageName : Str → Option Str

/-- `fsPath` of a place. -/
def Host.fsPath (host : Host) (workspace : Workspace) (place : Place) : Str :=
  host.platform.fsPath (workspace.location ++ place.names)

/-- `toString` of the URI of a place. -/
def Host.uriString (host : Host) (workspace : Workspace) (place : Place) : Str :=
  host.encoding.uriString host.platform (workspace.location ++ place.names)

/-! ### Program data -/

/-- `Framework`, of the programs in Rust. -/
inductive Framework
  | native
  | anchor

/-- `Files`. -/
abbrev Files := List (Str × Str)

/-- What `getProgramData` returns. -/
structure ProgramData where
  files : Files
  basePath : Str
  programPath : Str
  framework : Framework
  name : Str

/-- `getFiles`. A directory cannot be read, which is an error. -/
def getFiles (host : Host) (workspace : Workspace) (contents : Place → Str) (regexp : Str → Bool) : Option Files :=
  (findFiles (fun place ↦ regexp (host.fsPath workspace place)) [] workspace.listing).mapM fun item ↦
    match item.2 with
    | .file => some (host.uriString workspace item.1, contents item.1)
    | .directory => none

/-- `_getItemPath`: the name, and the path. -/
def getItemPath (sep : Char) (path : Str) (depth : ℕ) : Option Str × Str :=
  let names := path.splitOn sep
  (names.reverse[depth]?, [sep].intercalate (names.take (names.length - depth)))

/-- The path that a file gets in Playground, if it gets one. -/
def playgroundPath (platform : Platform) (uri : Str) : Option Str :=
  if ".py".toList <:+ uri then some ("/src/".toList ++ (getItemPath platform.sep uri 0).1.getD [])
  else (afterSrc platform.sep uri).map fun path ↦ replaceFirst path [platform.sep] ['/']

/-- `afterSrcFiles`. -/
def afterSrcFiles (platform : Platform) (files : Files) : Files :=
  files.filterMap fun file ↦ (playgroundPath platform file.1).map fun path ↦ (path, file.2)

/-- The pattern of the files of a program. -/
def programPattern (host : Host) (workspace : Workspace) (program : List Str) : Str :=
  host.platform.fsPath (workspace.location ++ program) ++ host.platform.regexPathSep ++ ".+\\.rs$".toList

/-- The path of the manifest of a program. -/
def cargoTomlPath (host : Host) (workspace : Workspace) (program : List Str) : Str :=
  host.platform.fsPath (workspace.location ++ program ++ ["Cargo.toml".toList])

/-- `getProgramData`, of the program that is selected. -/
def getProgramData (host : Host) (workspace : Workspace) (contents : Place → Str) (framework : Framework)
    (program : List Str) : Option ProgramData := do
  let cargoTomlPath := cargoTomlPath host workspace program
  let name ← host.packageName cargoTomlPath
  let basePath := (getItemPath host.platform.sep cargoTomlPath
    (match framework with
      | .native => 1
      | .anchor => 3)).2
  let regexp ← host.regExps.compile (programPattern host workspace program)
  let files ← getFiles host workspace contents regexp
  return {
    files := afterSrcFiles host.platform files
    basePath := basePath
    programPath := host.platform.fsPath (workspace.location ++ program)
    framework := framework
    name := name }

/-! ### The files of a program -/

/-- A directory that is left out. -/
def IsLeftOut (dir : Str) : Prop :=
  dir.head? = some '.' ∨ dir = nodeModules ∨ dir = target ∨ dir = tests

instance (dir : Str) : Decidable (IsLeftOut dir) :=
  inferInstanceAs (Decidable (_ ∨ _ ∨ _ ∨ _))

/-- A Rust file of the directory `src` of a program, in no directory that is left out. -/
def Place.IsOwn (program : List Str) (place : Place) : Prop :=
  program ++ ["src".toList] <+: place.dirs ∧ ".rs".toList <:+ place.name ∧ ∀ dir ∈ place.dirs, ¬ IsLeftOut dir

instance (program : List Str) (place : Place) : Decidable (place.IsOwn program) :=
  inferInstanceAs (Decidable (_ ∧ _ ∧ _))

/-- The names of a place below the directory `src` of a program. -/
def Place.namesBelow (program : List Str) (place : Place) : List Str :=
  place.names.drop (program.length + 1)

/-- The path of a file of a program, from its directory `src` on. -/
def Place.ownPath (program : List Str) (place : Place) : Str :=
  "/src".toList ++ namesPath (place.namesBelow program)

/-- The files of the directory `src` of a program. -/
def ownFiles (workspace : Workspace) (contents : Place → Str) (program : List Str) : Files :=
  ((workspace.listing.places []).filter fun item ↦ item.2 = .file ∧ item.1.IsOwn program).map fun item ↦
    (item.1.ownPath program, contents item.1)

/-- What makes that the files of a program are found, and no others: no directory matches. Each file of the program is
reached and matches, on a platform with slashes, no directory from the root to that of the program is called `src`, and
its names are plain. Of the other files that are reached and match, none is one of Python, and none is a Rust file with
a directory `src` anywhere above it. -/
structure FindsOwn (host : Host) (workspace : Workspace) (program : List Str) (regexp : Str → Bool) : Prop where
  directories : ∀ item ∈ workspace.listing.places [], item.2 = .directory → item.1.isReached = true →
    regexp (host.fsPath workspace item.1) = false
  own : ∀ item ∈ workspace.listing.places [], item.2 = .file → item.1.IsOwn program →
    item.1.isReached = true ∧ regexp (host.fsPath workspace item.1) = true ∧ host.platform = .posix ∧
      "src".toList ∉ workspace.location ++ program ∧
        ∀ name ∈ item.1.namesBelow program, ∀ char ∈ name, isUriPlain char = true
  others : ∀ item ∈ workspace.listing.places [], item.2 = .file → ¬ item.1.IsOwn program → item.1.isReached = true →
    regexp (host.fsPath workspace item.1) = true → ¬ ".py".toList <:+ item.1.name ∧
      (host.platform = .posix → "src".toList ∈ workspace.location ++ item.1.dirs → ¬ ".rs".toList <:+ item.1.name)

/-- The same, of the regular expression of the program, whose manifest has to be there. -/
def FindsOwnFiles (host : Host) (workspace : Workspace) (program : List Str) : Prop :=
  (host.packageName (cargoTomlPath host workspace program)).isSome = true ∧
    ∃ regexp, host.regExps.compile (programPattern host workspace program) = some regexp ∧
      FindsOwn host workspace program regexp

/-! ### Paths of files -/

/-- A place that is reached is no hidden one. -/
theorem head?_ne_of_isReached {place : Place} (hreached : place.isReached = true) : place.name.head? ≠ some '.' := by
  intro hhead
  have hname := List.all_eq_true.mp hreached place.name (List.mem_append_right _ (List.mem_singleton.mpr rfl))
  rw [isExcluded, decide_eq_true hhead, Bool.true_or, Bool.not_true] at hname
  exact Bool.false_ne_true hname

/-- The URI of a file of Python. -/
theorem py_suffix_iff (host : Host) (workspace : Workspace) (place : Place) :
    ".py".toList <:+ host.uriString workspace place ↔ ".py".toList <:+ place.name := by
  rw [Host.uriString, Place.names, ← List.append_assoc]
  exact suffix_uriString_iff _ _ _ _ ".py".toList (by decide) (by decide)

/-- A Rust file is none of Python. -/
theorem not_py_of_rs {name : Str} (hrust : ".rs".toList <:+ name) : ¬ ".py".toList <:+ name := by
  intro hpython
  have heq := (List.suffix_of_suffix_length_le hrust hpython (Nat.le_refl 3)).eq_of_length rfl
  exact absurd heq (by decide)

/-- A slash in front is replaced by itself. -/
theorem replaceFirst_slash (path : Str) : replaceFirst ('/' :: path) ['/'] ['/'] = '/' :: path := by
  have happend := replaceFirst_append ['/'] path ['/']
  rwa [substitute_of_notMem (by decide)] at happend

section Paths

variable (host : Host) (workspace : Workspace) {place : Place}

/-- On Windows only files of Python get a path. -/
theorem playgroundPath_win32 {drive : Char} (hplatform : host.platform = .win32 drive)
    (hpython : ¬ ".py".toList <:+ place.name) :
    playgroundPath host.platform (host.uriString workspace place) = none := by
  rw [playgroundPath, if_neg ((py_suffix_iff host workspace place).not.mpr hpython), Option.map_eq_none_iff,
    Host.uriString, hplatform]
  exact afterSrc_win32 _ _ _

/-- Elsewhere a Rust file gets what is behind the first directory `src` above it. -/
theorem playgroundPath_posix (hplatform : host.platform = .posix) (hreached : place.isReached = true)
    (hpython : ¬ ".py".toList <:+ place.name) :
    playgroundPath host.platform (host.uriString workspace place) =
      if ".rs".toList <:+ place.name then
        (behindSrc (workspace.location ++ place.dirs)).map fun behind ↦
          "/src".toList ++ host.encoding.encodePath (behind ++ [place.name])
      else none := by
  rw [playgroundPath, if_neg ((py_suffix_iff host workspace place).not.mpr hpython), Host.uriString, hplatform,
    Place.names, ← List.append_assoc]
  have hcut := afterSrc_posix host.encoding (workspace.location ++ place.dirs) (head?_ne_of_isReached hreached)
  have hsep : Platform.posix.sep = '/' := rfl
  rw [hsep, hcut]
  split_ifs
  · rw [Option.map_map]
    refine congrArg (fun cut ↦ Option.map cut _) (funext fun behind ↦ ?_)
    exact replaceFirst_slash _
  · rfl

/-- A file that is reached gets no path exactly if it is none of Python, and no Rust file below a directory `src` on
a platform with slashes. -/
theorem playgroundPath_eq_none_iff (hreached : place.isReached = true) :
    playgroundPath host.platform (host.uriString workspace place) = none ↔ ¬ ".py".toList <:+ place.name ∧
      (host.platform = .posix → "src".toList ∈ workspace.location ++ place.dirs → ¬ ".rs".toList <:+ place.name) := by
  by_cases hpython : ".py".toList <:+ place.name
  · rw [playgroundPath, if_pos ((py_suffix_iff host workspace place).mpr hpython)]
    exact iff_of_false nofun fun h ↦ h.1 hpython
  · rcases host.platform.eq_posix_or_win32 with hplatform | ⟨drive, hplatform⟩
    · rw [playgroundPath_posix host workspace hplatform hreached hpython, and_iff_right hpython,
        imp_iff_right hplatform]
      by_cases hrust : ".rs".toList <:+ place.name
      · rw [if_pos hrust, Option.map_eq_none_iff, behindSrc_eq_none_iff]
        exact ⟨fun hnot h ↦ absurd h hnot, fun h hmem ↦ h hmem hrust⟩
      · rw [if_neg hrust]
        exact iff_of_true rfl fun _ ↦ hrust
    · rw [playgroundPath_win32 host workspace hplatform hpython]
      exact iff_of_true rfl ⟨hpython, fun h ↦ absurd (hplatform.symm.trans h) nofun⟩

/-- A file of the program gets its path exactly if the platform has slashes, no directory up to that of the program is
called `src`, and the names below that are plain. -/
theorem playgroundPath_eq_ownPath_iff {program : List Str} (hreached : place.isReached = true)
    (hown : place.IsOwn program) :
    playgroundPath host.platform (host.uriString workspace place) = some (place.ownPath program) ↔
      host.platform = .posix ∧ "src".toList ∉ workspace.location ++ program ∧
        ∀ name ∈ place.namesBelow program, ∀ char ∈ name, isUriPlain char = true := by
  obtain ⟨⟨below, hdirs⟩, hrust, -⟩ := hown
  have hpython := not_py_of_rs hrust
  have hnames : place.namesBelow program = below ++ [place.name] := by
    rw [Place.namesBelow, Place.names, ← hdirs, List.append_assoc]
    have hlength : program.length + 1 = (program ++ ["src".toList]).length := by
      rw [List.length_append, List.length_singleton]
    rw [hlength, List.drop_left]
  rcases host.platform.eq_posix_or_win32 with hplatform | ⟨drive, hplatform⟩
  · have hall : workspace.location ++ (program ++ ["src".toList] ++ below) =
        workspace.location ++ program ++ "src".toList :: below := by
      rw [List.append_assoc, List.append_assoc, List.singleton_append]
    rw [playgroundPath_posix host workspace hplatform hreached hpython, if_pos hrust, ← hdirs,
      and_iff_right hplatform, hnames, ← encodePath_eq_iff host.encoding, Place.ownPath, hnames, hall]
    by_cases hsrc : "src".toList ∈ workspace.location ++ program
    · -- the path begins at another directory, so it is too long
      obtain ⟨before, between, heq, hbefore⟩ := List.eq_append_cons_of_mem hsrc
      refine iff_of_false (fun hsame ↦ ?_) fun h ↦ h.1 hsrc
      have hlater : before ++ "src".toList :: between ++ "src".toList :: below =
          before ++ "src".toList :: (between ++ "src".toList :: below) := by
        rw [List.append_assoc, List.cons_append]
      rw [heq, hlater, behindSrc_append hbefore, Option.map_some, Option.some.injEq] at hsame
      have hlength := congrArg List.length (List.append_cancel_left hsame)
      have hle := length_le_encodePath host.encoding (below ++ [place.name])
      rw [List.append_assoc, List.cons_append, UriEncoding.encodePath, List.flatMap_append, List.flatMap_cons,
        List.length_append, List.length_append, List.length_cons] at hlength
      rw [UriEncoding.encodePath] at hle
      omega
    · rw [behindSrc_append hsrc, Option.map_some, Option.some.injEq, and_iff_right hsrc]
      exact List.append_right_inj _
  · rw [playgroundPath_win32 host workspace hplatform hpython]
    exact iff_of_false (by rintro ⟨⟩) fun h ↦ by cases hplatform.symm.trans h.1

end Paths

/-! ### Files that are returned -/

section Reading

variable {α β : Type} {read : α → Option β} {entries : List α}

/-- Where everything can be read, all is. -/
theorem mapM_eq_some (value : α → β) (hread : ∀ entry ∈ entries, read entry = some (value entry)) :
    entries.mapM read = some (entries.map value) := by
  induction entries with
  | nil => rfl
  | cons entry entries ih =>
    rw [List.mapM_cons, hread entry List.mem_cons_self,
      ih fun other hother ↦ hread other (List.mem_cons_of_mem _ hother)]
    rfl

/-- Where something cannot be read, nothing is. -/
theorem mapM_eq_none {entry : α} (hentry : entry ∈ entries) (hnone : read entry = none) :
    entries.mapM read = none := by
  induction entries with
  | nil => cases hentry
  | cons other entries ih =>
    rw [List.mapM_cons]
    rcases List.mem_cons.mp hentry with rfl | hrest
    · rw [hnone]
      rfl
    · rw [ih hrest]
      cases read other with
      | none => rfl
      | some value => rfl

end Reading

section Files

variable (host : Host) (workspace : Workspace) (program : List Str)

/-- The file that is returned for a place, if one is. -/
def returnedFile (contents : Place → Str) (regexp : Str → Bool) (item : Place × FileType) : Option (Str × Str) :=
  if item.2 = .file ∧ item.1.isReached = true ∧ regexp (host.fsPath workspace item.1) = true then
    (playgroundPath host.platform (host.uriString workspace item.1)).map fun path ↦ (path, contents item.1)
  else none

/-- The file that is to be returned for a place, if one is. -/
def ownFile (contents : Place → Str) (item : Place × FileType) : Option (Str × Str) :=
  if item.2 = .file ∧ item.1.IsOwn program then some (item.1.ownPath program, contents item.1) else none

theorem ownFiles_eq_filterMap (contents : Place → Str) :
    ownFiles workspace contents program = (workspace.listing.places []).filterMap (ownFile program contents) := by
  unfold ownFiles
  induction workspace.listing.places [] with
  | nil => rfl
  | cons item items ih =>
    rw [List.filterMap_cons, ← ih, List.filter_cons, ownFile]
    by_cases hitem : item.2 = .file ∧ item.1.IsOwn program
    · rw [if_pos hitem, if_pos (decide_eq_true hitem), List.map_cons]
    · rw [if_neg hitem, if_neg (fun h ↦ hitem (of_decide_eq_true h))]

/-- If a directory is reached and matches, it is read, which is an error. -/
theorem getFiles_eq_none {contents : Place → Str} {regexp : Str → Bool} {item : Place × FileType}
    (hitem : item ∈ workspace.listing.places []) (hdirectory : item.2 = .directory)
    (hreached : item.1.isReached = true) (hmatch : regexp (host.fsPath workspace item.1) = true) :
    getFiles host workspace contents regexp = none := by
  rw [getFiles, findFiles_eq_filter _ _ fun name (hname : name ∈ []) ↦ absurd hname List.not_mem_nil]
  refine mapM_eq_none (List.mem_filter.mpr ⟨hitem, ?_⟩) ?_
  · rw [hreached, Bool.true_and, hmatch]
  · rw [hdirectory]

/-- Otherwise what is returned is returned place by place. -/
theorem exists_getFiles_eq_some {regexp : Str → Bool} (contents : Place → Str)
    (hdirectories : ∀ item ∈ workspace.listing.places [], item.2 = .directory → item.1.isReached = true →
      regexp (host.fsPath workspace item.1) = false) :
    ∃ files, getFiles host workspace contents regexp = some files ∧ afterSrcFiles host.platform files =
      (workspace.listing.places []).filterMap (returnedFile host workspace contents regexp) := by
  rw [getFiles, findFiles_eq_filter _ _ fun name (hname : name ∈ []) ↦ absurd hname List.not_mem_nil]
  have hfile : ∀ item ∈ (workspace.listing.places []).filter
      (fun item ↦ item.1.isReached && regexp (host.fsPath workspace item.1)), item.2 = .file := by
    intro item hitem
    obtain ⟨hmem, hfound⟩ := List.mem_filter.mp hitem
    rw [Bool.and_eq_true] at hfound
    cases htype : item.2 with
    | file => rfl
    | directory =>
      rw [hdirectories item hmem htype hfound.1] at hfound
      cases hfound.2
  refine ⟨_, mapM_eq_some (fun item ↦ (host.uriString workspace item.1, contents item.1)) ?_, ?_⟩
  · intro item hitem
    rw [hfile item hitem]
  · rw [afterSrcFiles, List.filterMap_map, List.filterMap_filter]
    refine List.filterMap_congr fun item hitem ↦ ?_
    have hiff : (item.1.isReached && regexp (host.fsPath workspace item.1)) = true ↔
        item.2 = .file ∧ item.1.isReached = true ∧ regexp (host.fsPath workspace item.1) = true := by
      rw [Bool.and_eq_true]
      refine ⟨fun hfound ↦ ⟨hfile item ?_, hfound⟩, fun h ↦ h.2⟩
      exact List.mem_filter.mpr ⟨hitem, (Bool.and_eq_true _ _).mpr hfound⟩
    rw [returnedFile]
    exact if_congr hiff rfl rfl

/-- Two places that are there have different contents in some workspace. -/
theorem exists_injective_contents : ∃ contents : Place → Str, Function.Injective contents := by
  have hchars : Countable Char := Function.Injective.countable (f := Char.toNat) fun _ _ ↦ Char.toNat_inj.mp
  have hplaces : Countable Place :=
    Function.Injective.countable (f := fun place : Place ↦ (place.dirs, place.name)) fun first second heq ↦ by
      cases first
      cases second
      cases heq
      rfl
  obtain ⟨number, hnumber⟩ := exists_injective_nat Place
  refine ⟨fun place ↦ List.replicate (number place) 'a', fun first second heq ↦ hnumber ?_⟩
  have hlength := congrArg List.length heq
  rwa [List.length_replicate, List.length_replicate] at hlength

/-- Whatever the contents are, a place is returned as it is to be, exactly if it is found. -/
theorem returnedFile_eq_iff {regexp : Str → Bool} {contents : Place → Str} {item : Place × FileType} :
    returnedFile host workspace contents regexp item = ownFile program contents item ↔
      (item.2 = .file → item.1.IsOwn program →
        item.1.isReached = true ∧ regexp (host.fsPath workspace item.1) = true ∧ host.platform = .posix ∧
          "src".toList ∉ workspace.location ++ program ∧
            ∀ name ∈ item.1.namesBelow program, ∀ char ∈ name, isUriPlain char = true) ∧
      (item.2 = .file → ¬ item.1.IsOwn program → item.1.isReached = true →
        regexp (host.fsPath workspace item.1) = true → ¬ ".py".toList <:+ item.1.name ∧
          (host.platform = .posix → "src".toList ∈ workspace.location ++ item.1.dirs →
            ¬ ".rs".toList <:+ item.1.name)) := by
  rw [returnedFile, ownFile]
  by_cases hfile : item.2 = .file
  swap
  · rw [if_neg fun h ↦ hfile h.1, if_neg fun h ↦ hfile h.1]
    exact iff_of_true rfl ⟨fun h ↦ absurd h hfile, fun h ↦ absurd h hfile⟩
  rw [imp_iff_right hfile, imp_iff_right hfile]
  by_cases hown : item.1.IsOwn program
  · have hitem : item.2 = .file ∧ item.1.IsOwn program := ⟨hfile, hown⟩
    rw [if_pos hitem, imp_iff_right hown, and_iff_left fun h ↦ absurd hown h]
    by_cases hfound : item.1.isReached = true ∧ regexp (host.fsPath workspace item.1) = true
    · have hreturned : item.2 = .file ∧ item.1.isReached = true ∧ regexp (host.fsPath workspace item.1) = true :=
        ⟨hfile, hfound⟩
      rw [if_pos hreturned, Option.map_eq_some_iff, ← playgroundPath_eq_ownPath_iff host workspace hfound.1 hown,
        and_iff_right hfound.1, and_iff_right hfound.2]
      constructor
      · rintro ⟨path, hpath, heq⟩
        rw [hpath, (Prod.mk.inj heq).1]
      · exact fun hpath ↦ ⟨_, hpath, rfl⟩
    · rw [if_neg fun h ↦ hfound h.2]
      exact iff_of_false nofun fun h ↦ hfound ⟨h.1, h.2.1⟩
  · have hitem : ¬ (item.2 = .file ∧ item.1.IsOwn program) := fun h ↦ hown h.2
    rw [if_neg hitem, and_iff_right fun h ↦ absurd h hown, imp_iff_right hown]
    by_cases hfound : item.1.isReached = true ∧ regexp (host.fsPath workspace item.1) = true
    · have hreturned : item.2 = .file ∧ item.1.isReached = true ∧ regexp (host.fsPath workspace item.1) = true :=
        ⟨hfile, hfound⟩
      rw [if_pos hreturned, Option.map_eq_none_iff, playgroundPath_eq_none_iff host workspace hfound.1,
        imp_iff_right hfound.1, imp_iff_right hfound.2]
    · rw [if_neg fun h ↦ hfound h.2]
      exact iff_of_true rfl fun hreached hmatch ↦ absurd ⟨hreached, hmatch⟩ hfound

/-- Places that have different contents are returned as they are to be if all of them together are. -/
theorem returnedFile_eq_of_perm {regexp : Str → Bool} {contents : Place → Str} (hcontents : Function.Injective contents)
    (hperm : ((workspace.listing.places []).filterMap (returnedFile host workspace contents regexp)).Perm
      (ownFiles workspace contents program)) {item : Place × FileType} (hitem : item ∈ workspace.listing.places []) :
    returnedFile host workspace contents regexp item = ownFile program contents item := by
  rw [ownFiles_eq_filterMap] at hperm
  have hreturned : ∀ {item : Place × FileType} {file : Str × Str},
      returnedFile host workspace contents regexp item = some file → item.2 = .file ∧ file.2 = contents item.1 := by
    intro item file hfile
    obtain ⟨hif, hpath⟩ := Option.ite_none_right_eq_some.mp hfile
    obtain ⟨path, -, rfl⟩ := Option.map_eq_some_iff.mp hpath
    exact ⟨hif.1, rfl⟩
  have hown : ∀ {item : Place × FileType} {file : Str × Str},
      ownFile program contents item = some file → item.2 = .file ∧ file.2 = contents item.1 := by
    intro item file hfile
    obtain ⟨hif, hsame⟩ := Option.ite_none_right_eq_some.mp hfile
    exact ⟨hif.1, Option.some.inj hsame ▸ rfl⟩
  -- the contents tell from which place a file comes
  have hsame : ∀ {first second : Place × FileType} {file : Str × Str},
      first.2 = .file ∧ file.2 = contents first.1 → second.2 = .file ∧ file.2 = contents second.1 → first = second :=
    fun hfirst hsecond ↦ Prod.ext (hcontents (hfirst.2.symm.trans hsecond.2)) (hfirst.1.trans hsecond.1.symm)
  apply Option.ext
  intro file
  constructor
  · intro hfile
    obtain ⟨other, hother, hotherFile⟩ :=
      List.mem_filterMap.mp (hperm.mem_iff.mp (List.mem_filterMap.mpr ⟨item, hitem, hfile⟩))
    rwa [hsame (hreturned hfile) (hown hotherFile)]
  · intro hfile
    obtain ⟨other, hother, hotherFile⟩ :=
      List.mem_filterMap.mp (hperm.mem_iff.mpr (List.mem_filterMap.mpr ⟨item, hitem, hfile⟩))
    rwa [hsame (hown hfile) (hreturned hotherFile)]

/-- Files are returned if the manifest is there, the pattern is valid, and the files can be read. -/
theorem exists_getProgramData_iff (contents : Place → Str) (framework : Framework) (property : Files → Prop) :
    (∃ data, getProgramData host workspace contents framework program = some data ∧ property data.files) ↔
      (host.packageName (cargoTomlPath host workspace program)).isSome = true ∧
        ∃ regexp, host.regExps.compile (programPattern host workspace program) = some regexp ∧
          ∃ files, getFiles host workspace contents regexp = some files ∧
            property (afterSrcFiles host.platform files) := by
  unfold getProgramData
  constructor
  · rintro ⟨data, hdata, hproperty⟩
    obtain ⟨name, hname, hdata⟩ := Option.bind_eq_some_iff.mp hdata
    obtain ⟨regexp, hregexp, hdata⟩ := Option.bind_eq_some_iff.mp hdata
    obtain ⟨files, hfiles, hdata⟩ := Option.bind_eq_some_iff.mp hdata
    cases hdata
    exact ⟨Option.isSome_iff_exists.mpr ⟨name, hname⟩, regexp, hregexp, files, hfiles, hproperty⟩
  · rintro ⟨hname, regexp, hregexp, files, hfiles, hproperty⟩
    obtain ⟨name, hname⟩ := Option.isSome_iff_exists.mp hname
    refine ⟨_, Option.bind_eq_some_iff.mpr ⟨name, hname, Option.bind_eq_some_iff.mpr ⟨regexp, hregexp,
      Option.bind_eq_some_iff.mpr ⟨files, hfiles, rfl⟩⟩⟩, ?_⟩
    exact hproperty

end Files

/-! ### Programs whose paths have no special characters -/

section Plain

variable {host : Host} {workspace : Workspace} {program : List Str} {regexp : Str → Bool}

/-- On a platform with slashes, and if its path has no special characters, the regular expression of a program matches
the paths of the Rust files above which its names, from the root on, stand in a row anywhere. -/
theorem regexp_eq_true_iff (hplatform : host.platform = .posix) (hne : workspace.location ++ program ≠ [])
    (hprogram : ∀ name ∈ program, IsComponent name)
    (hplain : ∀ name ∈ workspace.location ++ program, ∀ char ∈ name, isPatternPlain char = true)
    (hregexp : host.regExps.compile (programPattern host workspace program) = some regexp)
    {item : Place × FileType} (hitem : item ∈ workspace.listing.places []) (hreached : item.1.isReached = true) :
    regexp (host.fsPath workspace item.1) = true ↔ ".rs".toList <:+ item.1.name ∧
      ∃ before behind, workspace.location ++ item.1.dirs = before ++ (workspace.location ++ program) ++ behind ∧
        ∀ name ∈ behind ++ [item.1.name], ∀ char ∈ name, isDot char = true := by
  have hfsPath : ∀ names : List Str, names ≠ [] → host.platform.fsPath names = namesPath names := by
    intro names hnames
    rw [hplatform, Platform.fsPath, if_neg hnames]
    rfl
  have hpath : ∀ char ∈ namesPath (workspace.location ++ program), isPatternPlain char = true := by
    intro char hchar
    obtain ⟨name, hname, hmem⟩ := List.mem_flatMap.mp hchar
    rcases List.mem_cons.mp hmem with rfl | hlater
    · decide
    · exact hplain name hname char hlater
  have hcompile := host.regExps.compile_plain hpath
  have hpattern : programPattern host workspace program =
      namesPath (workspace.location ++ program) ++ "\\/.+\\.rs$".toList := by
    rw [programPattern, hfsPath _ hne, hplatform, List.append_assoc]
    rfl
  rw [hpattern, hcompile, Option.some.injEq] at hregexp
  have hslash : ∀ {name : Str}, IsComponent name → '/' ∉ name := fun hname ↦ hname.2.2.2
  have hprogramNames : ∀ name ∈ workspace.location ++ program, '/' ∉ name := by
    intro name hname
    rcases List.mem_append.mp hname with hlocation | hmem
    · exact hslash (workspace.location_named name hlocation)
    · exact hslash (hprogram name hmem)
  have hitemNames : ∀ name ∈ workspace.location ++ item.1.dirs ++ [item.1.name], '/' ∉ name := by
    intro name hname
    rw [List.append_assoc] at hname
    rcases List.mem_append.mp hname with hlocation | hmem
    · exact hslash (workspace.location_named name hlocation)
    · exact hslash (workspace.listing_named.isComponent (fun _ h ↦ absurd h List.not_mem_nil) item hitem name hmem)
  rw [← exists_tail_iff (head?_ne_of_isReached hreached) hne hprogramNames hitemNames, ← hregexp, Host.fsPath,
    Place.names, ← List.append_assoc, hfsPath _ (List.append_ne_nil_of_right_ne_nil _ (List.cons_ne_nil _ _)),
    List.any_eq_true]
  constructor
  · rintro ⟨tail, htail, hmatch⟩
    rw [Bool.and_eq_true, decide_eq_true_eq] at hmatch
    obtain ⟨⟨rest, rfl⟩, hrest⟩ := hmatch
    have hlength : (namesPath (workspace.location ++ program)).length + 1 =
        (namesPath (workspace.location ++ program) ++ ['/']).length := by
      rw [List.length_append, List.length_singleton]
    rw [hlength, List.drop_left] at hrest
    have hcons : namesPath (workspace.location ++ program) ++ ['/'] ++ rest =
        namesPath (workspace.location ++ program) ++ '/' :: rest := List.append_assoc _ _ _
    exact ⟨rest, hcons ▸ (List.mem_tails _ _).mp htail, hrest⟩
  · rintro ⟨rest, hsuffix, hrest⟩
    refine ⟨_, (List.mem_tails _ _).mpr hsuffix, ?_⟩
    rw [Bool.and_eq_true, decide_eq_true_eq]
    refine ⟨⟨rest, by rw [List.append_assoc]; rfl⟩, ?_⟩
    rwa [List.drop_append, List.drop_of_length_le (Nat.le_succ _), Nat.add_sub_cancel_left, List.nil_append,
      List.drop_one, List.tail_cons]

end Plain

/-! ### A program with another crate in its directory -/

/-- A digit of a byte in an escape. -/
def hexDigit (number : ℕ) : Char :=
  if number < 10 then Char.ofNat (0x30 + number) else Char.ofNat (0x37 + number)

theorem isUriDigit_hexDigit : ∀ number < 16, isUriDigit (hexDigit number) = true := by
  decide

/-- A byte as an escape. -/
def escapeByte (byte : UInt8) : Str :=
  ['%', hexDigit (byte.toNat / 16), hexDigit (byte.toNat % 16)]

/-- The escapes of the bytes of a character that is not plain. -/
theorem flatMap_escapeByte {char : Char} (hplain : isUriPlain char = false) :
    ∃ digits, (if isUriPlain char then [char] else (String.utf8EncodeChar char).flatMap escapeByte) = '%' :: digits ∧
      digits ≠ [] ∧ ∀ digit ∈ digits, digit = '%' ∨ isUriDigit digit = true := by
  have hescapes : ∀ bytes : List UInt8, ∀ digit ∈ bytes.flatMap escapeByte,
      digit = '%' ∨ isUriDigit digit = true := by
    intro bytes digit hdigit
    obtain ⟨byte, -, hmem⟩ := List.mem_flatMap.mp hdigit
    have hbyte := byte.toNat_lt
    simp only [escapeByte, List.mem_cons, List.not_mem_nil, or_false] at hmem
    rcases hmem with rfl | rfl | rfl
    · exact Or.inl rfl
    · exact Or.inr (isUriDigit_hexDigit _ (by omega))
    · exact Or.inr (isUriDigit_hexDigit _ (by omega))
  obtain ⟨byte, bytes, hbytes⟩ := List.exists_cons_of_ne_nil (String.utf8EncodeChar_ne_nil (c := char))
  rw [if_neg (by rw [hplain]; exact Bool.false_ne_true), hbytes, List.flatMap_cons]
  refine ⟨_, rfl, List.cons_ne_nil _ _, fun digit hdigit ↦ ?_⟩
  refine hescapes (byte :: bytes) digit ?_
  rw [List.flatMap_cons]
  exact List.mem_cons_of_mem _ hdigit

/-- The escapes of the bytes of a character. -/
def percentEncoding : UriEncoding where
  encode := fun char ↦ if isUriPlain char then [char] else (String.utf8EncodeChar char).flatMap escapeByte
  encode_plain := fun hplain ↦ if_pos hplain
  encode_escaped := flatMap_escapeByte

/-- The regular expressions whose patterns are paths. -/
def pathRegExps : RegExps where
  compile := fun pattern ↦
    let path := pattern.take (pattern.length - "\\/.+\\.rs$".toList.length)
    if pattern = path ++ "\\/.+\\.rs$".toList then
      some fun text ↦
        text.tails.any fun rest ↦ decide (path ++ ['/'] <+: rest) && endsInRust (rest.drop (path.length + 1))
    else none
  compile_plain := by
    intro path _
    have htake : (path ++ "\\/.+\\.rs$".toList).take
        ((path ++ "\\/.+\\.rs$".toList).length - "\\/.+\\.rs$".toList.length) = path := by
      rw [List.length_append, Nat.add_sub_cancel, List.take_left]
    simp only [htake, if_true]

/-- A workspace with the crate of a program, and that of its macros in a directory beside `src`. -/
def nestedWorkspace : Workspace where
  location := ["home".toList, "ws".toList]
  listing := .directory "program".toList
    (.file "Cargo.toml".toList
      (.directory "macros".toList (.directory "src".toList (.file "lib.rs".toList .empty) .empty)
        (.directory "src".toList (.file "lib.rs".toList (.file "target_price.rs".toList .empty)) .empty))) .empty
  location_named := by decide
  listing_named := by
    simp only [Listing.Named]
    decide

/-- A host of that workspace. -/
def posixHost : Host where
  platform := .posix
  encoding := percentEncoding
  regExps := pathRegExps
  packageName := fun _ ↦ some "program".toList

end Playground.Vscode
