import Playground.Explorer.MovingBelow

/-!
# Portable projects

When a temporary project is kept, its files are moved below the folder of the workspace, written there, and
loaded again. `Portable` says of a project when its files and its tabs survive this: the files are moved to
paths that are loaded again, what is written last to a place or else has been there is the file that is moved
there (`holdsFiles_iff`), and no tab is moved onto a path that is still to come. A project is portable if it
is `Plain` (`Plain.portable`): exactly its files have names with a dot, no path is moved onto one that is
still to come, and the folder of the workspace holds nothing else.
-/

set_option autoImplicit false
set_option relaxedAutoImplicit false

namespace Playground.Explorer

open Library

/-! ### Which projects are portable -/

/-- The path is that of an item at the root, which is reached through names that are loaded. -/
def IsItemPath (path : Str) : Prop :=
  ∃ names : List Component, ∃ name : Component,
    (∀ other ∈ names ++ [name], IsComponent other ∧ isItemNameValid other = true) ∧
      itemPath rootDirPath (names ++ [name]) = path

/-- The path is moved to one of the workspace that is loaded again, through valid names. -/
def IsLoadedAgain (name : Component) (path : Str) : Prop :=
  ∃ names : List Component, (∀ other ∈ names, IsComponent other ∧ isItemNameValid other = true) ∧
    itemPath (workspacePath name) names = movedPath name path

/-- A file of the project with some data is moved to a place in the folder of the workspace. -/
def IsMovedTo (name : Component) (files : ExplorerFiles) (below : List Component) (data : Str) : Prop :=
  ∃ source, resolve (movedPath name source) = some (name :: below) ∧ files.content source = some data

/-- Outside the metadata, the files in the folder of the workspace are those that are moved there. -/
def HoldsFiles (name : Component) (files : ExplorerFiles) (found : List Component → Option Str) : Prop :=
  ∀ below data, below ≠ [metadataDir, metadataFile] →
    (found below = some data ↔ IsMovedTo name files below data)

/-- The items of a project under their new paths. -/
def ExplorerState.movedItems (explorer : ExplorerState) (name : Str) : List (Str × Option ItemInfo) :=
  movedEntries name explorer.files.entries []

/-- The files can be moved to the folder of a workspace. -/
structure PortableFiles (before : Content) (name : Component) (explorer : ExplorerState) : Prop where
  /-- Files are moved to paths that are loaded again. -/
  named : ∀ path, explorer.files.content path ≠ none → IsLoadedAgain name path
  /-- What is written last to a place is the file that is moved there. -/
  written : ∀ below data, below ≠ [metadataDir, metadataFile] →
    lastWritten (explorer.movedItems name) (name :: below) = some data →
      IsMovedTo name explorer.files below data
  /-- Where nothing is written there is what is moved there. -/
  unwritten : ∀ below, below ≠ [metadataDir, metadataFile] →
    lastWritten (explorer.movedItems name) (name :: below) = none →
      ∀ data, fileAt before (name :: below) = some data ↔ IsMovedTo name explorer.files below data

/-- The files and the tabs can be moved to the folder of a workspace. -/
structure Portable (json : Json) (before : Content) (name : Component) (explorer : ExplorerState) : Prop
    extends PortableFiles before name explorer where
  /-- No tab is moved onto a path that is still to come. -/
  tabs : ∀ tab ∈ explorer.tabs, movedPath name tab ∈ (explorer.movedItems name).map Prod.fst
  /-- Where nothing is moved, the folder is there already, and its metadata lists no tabs. -/
  empty : explorer.files.keys = [] → before [name] = some .folder ∧
    ∀ data, fileAt before [name, metadataDir, metadataFile] = some data →
      (fullEntries json (workspacePath name) data).filter ItemMetaEntry.isTabs = []

/-- A project that is moved as it is: there is an item, the names of its files are loaded from the disk,
exactly the files have names with a dot, no path is moved onto one that is still to come, and what is in
the folder already are files that are written over. -/
structure Plain (before : Content) (name : Component) (files : ExplorerFiles) : Prop where
  nonempty : files.keys ≠ []
  named : ∀ path, files.content path ≠ none → IsItemPath path
  dotted : ∀ path ∈ files.keys, files.content path ≠ none ↔ IsFilePath (movedPath name path)
  apart : MovesApart name files.keys
  free : ∀ below, fileAt before (name :: below) ≠ none → below = [metadataDir, metadataFile] ∨
    ∃ data, IsMovedTo name files below data

/-! ### The files of the folder -/

section Portable

variable {name : Component} {before : Content} {explorer : ExplorerState} {path data other : Str}
  {below : List Component}

/-- The path of an item at the root is moved to that of an item of the workspace. -/
theorem IsItemPath.moved (hname : IsComponent name) (hpath : IsItemPath path) :
    IsLoadedAgain name path := by
  obtain ⟨names, last, hvalid, rfl⟩ := hpath
  exact ⟨names ++ [last], hvalid,
    (movedPath_itemPath (by simp) (fun other hother ↦ (hvalid other hother).1) hname).symm⟩

/-- Valid names do not lead to the metadata. -/
theorem ne_metadata_of_valid {names : List Component}
    (hvalid : ∀ other ∈ names, isItemNameValid other = true) :
    names ≠ [metadataDir, metadataFile] := by
  rintro rfl
  exact absurd (hvalid metadataDir List.mem_cons_self) (by decide)

/-- The path of an item of the workspace denotes the place of the item. -/
theorem resolve_moved (hname : IsComponent name) {names : List Component}
    (hnames : ∀ other ∈ names, IsComponent other)
    (hpath : itemPath (workspacePath name) names = movedPath name path) :
    resolve (movedPath name path) = some (name :: names) := by
  rw [← hpath]
  exact resolve_itemPath hnames (isFullPath_workspacePath name) (resolve_workspacePath hname)

/-- Assumes: files that are moved to paths that are loaded again. One file is moved to a place. -/
theorem IsMovedTo.unique (hname : IsComponent name)
    (hfull : ∀ path ∈ explorer.files.keys, IsFullPath path)
    (hnamed : ∀ path, explorer.files.content path ≠ none → IsLoadedAgain name path)
    (hdata : IsMovedTo name explorer.files below data)
    (hother : IsMovedTo name explorer.files below other) : data = other := by
  obtain ⟨source, hplace, hcontent⟩ := hdata
  obtain ⟨source', hplace', hcontent'⟩ := hother
  have hsome : explorer.files.content source ≠ none := by simp [hcontent]
  have hsome' : explorer.files.content source' ≠ none := by simp [hcontent']
  obtain ⟨names, hnames, hpath⟩ := hnamed source hsome
  obtain ⟨names', hnames', hpath'⟩ := hnamed source' hsome'
  rw [resolve_moved hname (fun other hother ↦ (hnames other hother).1) hpath] at hplace
  rw [resolve_moved hname (fun other hother ↦ (hnames' other hother).1) hpath'] at hplace'
  obtain rfl : names = names' :=
    (List.cons.inj (Option.some.inj hplace)).2.trans (List.cons.inj (Option.some.inj hplace')).2.symm
  have hsource := movedPath_injective hname (hfull source (mem_keys_of_content hsome))
    (hfull source' (mem_keys_of_content hsome')) (hpath.symm.trans hpath')
  rw [hsource, hcontent'] at hcontent
  exact (Option.some.inj hcontent).symm

/-- Assumes: files that are moved to paths that are loaded again. The folder of the workspace holds the
files of the project exactly if what is written last, or else has been there, is what is moved there. -/
theorem holdsFiles_iff (hname : IsComponent name)
    (hfull : ∀ path ∈ explorer.files.keys, IsFullPath path)
    (hnamed : ∀ path, explorer.files.content path ≠ none → IsLoadedAgain name path)
    {found : List Component → Option Str} (hfound : ∀ below, below ≠ [metadataDir, metadataFile] →
      found below =
        (lastWritten (explorer.movedItems name) (name :: below)).or (fileAt before (name :: below))) :
    HoldsFiles name explorer.files found ↔ PortableFiles before name explorer := by
  constructor
  · intro hholds
    refine ⟨hnamed, fun below data hbelow hlast ↦ ?_, fun below hbelow hlast data ↦ ?_⟩
    · rw [← hholds below data hbelow, hfound below hbelow, hlast]
      rfl
    · rw [← hholds below data hbelow, hfound below hbelow, hlast, Option.none_or]
  · intro hportable below data hbelow
    rw [hfound below hbelow]
    cases hlast : lastWritten (explorer.movedItems name) (name :: below) with
    | none => rw [Option.none_or, hportable.unwritten below hbelow hlast data]
    | some text =>
      have htext := hportable.written below text hbelow hlast
      rw [Option.some_or, Option.some.injEq]
      constructor
      · rintro rfl
        exact htext
      · exact fun hdata ↦ htext.unique hname hfull hnamed hdata

/-- Assumes: tabs that are files. A plain project is portable. -/
theorem Plain.portable (hname : IsComponent name) (json : Json)
    (htabs : ∀ tab ∈ explorer.tabs, explorer.files.content tab ≠ none)
    (hplain : Plain before name explorer.files) : Portable json before name explorer := by
  have hitems : explorer.movedItems name =
      explorer.files.entries.map fun entry ↦ (movedPath name entry.1, entry.2) :=
    movedEntries_eq_map hplain.apart
  have hwritten : ∀ below data, lastWritten (explorer.movedItems name) (name :: below) = some data →
      IsMovedTo name explorer.files below data := by
    intro below data hlast
    obtain ⟨entry, hentry, hfile, hplace, hdata⟩ := exists_of_lastWritten hlast
    rw [hitems] at hentry
    obtain ⟨⟨source, item⟩, hsource, rfl⟩ := List.mem_map.mp hentry
    have hcontent : explorer.files.content source = item.bind ItemInfo.content := by
      rw [ExplorerFiles.content, ExplorerFiles.item, OrderedMap.lookup_eq_some_iff.mpr hsource]
      rfl
    obtain ⟨text, htext⟩ := Option.ne_none_iff_exists'.mp
      ((hplain.dotted source (List.mem_map_of_mem hsource)).mpr hfile)
    dsimp only at hdata
    rw [← hcontent, htext, Option.getD_some] at hdata
    exact ⟨source, hplace, hdata ▸ htext⟩
  have hlast : ∀ below data, IsMovedTo name explorer.files below data →
      lastWritten (explorer.movedItems name) (name :: below) ≠ none := by
    rintro below data ⟨source, hplace, hcontent⟩ hnone
    have hsome : explorer.files.content source ≠ none := by simp [hcontent]
    have hkey : source ∈ explorer.files.keys := mem_keys_of_content hsome
    obtain ⟨item, hitem⟩ := OrderedMap.mem_keys_iff.mp hkey
    have hmem : (movedPath name source, item) ∈ explorer.movedItems name := by
      rw [hitems]
      exact List.mem_map_of_mem (OrderedMap.lookup_eq_some_iff.mp hitem)
    have hwrite : writtenAt (name :: below) (movedPath name source, item) ≠ none := by
      rw [writtenAt, if_pos ⟨(hplain.dotted source hkey).mp hsome, hplace⟩]
      exact Option.some_ne_none _
    exact hwrite (List.filterMap_eq_nil_iff.mp (List.getLast?_eq_none_iff.mp hnone) _ hmem)
  refine ⟨⟨fun path hpath ↦ (hplain.named path hpath).moved hname,
    fun below data _ hdata ↦ hwritten below data hdata, fun below hbelow hnone data ↦ ?_⟩,
    fun tab htab ↦ ?_, fun hempty ↦ absurd hempty hplain.nonempty⟩
  · constructor
    · intro hdata
      obtain ⟨text, htext⟩ := (hplain.free below (by simp [hdata])).resolve_left hbelow
      exact absurd hnone (hlast below text htext)
    · exact fun hdata ↦ absurd hnone (hlast below data hdata)
  · rw [hitems, List.map_map]
    obtain ⟨entry, hentry, rfl⟩ := List.mem_map.mp (mem_keys_of_content (htabs tab htab))
    exact List.mem_map_of_mem hentry

end Portable

end Playground.Explorer
