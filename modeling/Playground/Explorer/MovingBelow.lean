import Playground.Explorer.ParentPaths
import Playground.Explorer.WorkspaceRuns
import Playground.Explorer.WritingFiles

/-!
# Moving a temporary project below a workspace

`PgExplorer.newWorkspace` with `fromTemporary` moves every key of the files below the path of the
workspace, while it iterates over them, and then hands the moved tabs to `setTabs`. An item that is moved
onto a path that is still to come takes the place of the item there, and is moved once more
(`movedEntries`); if there is no such path (`MovesApart`), the files are those of before under their new
paths (`movedEntries_eq_map`). `setTabs` looks the current file up under its old path, which as a rule is
none of the moved tabs, so that the last tab becomes the current one: the current file is kept exactly if
it is the last tab (`currentFilePath_setTabs_movedPath_iff`).
-/

set_option autoImplicit false
set_option relaxedAutoImplicit false

namespace Playground.Explorer

open Library

/-! ### Paths -/

/-- `getFullPath` of `newWorkspace`. -/
def movedPath (name path : Str) : Str :=
  joinPaths (joinPaths rootDirPath name) path

section Paths

variable {name : Component} {path other : Str}

/-- The path of a workspace has its name between two slashes. -/
theorem workspacePath_eq (hname : IsComponent name) : workspacePath name = '/' :: name ++ ['/'] := by
  have happend : appendSlash name = name ++ ['/'] := by
    rw [appendSlash, if_neg hname.1, if_neg]
    exact getLast?_append_ne hname []
  have hpre : withoutPreSlash (name ++ ['/']) = name ++ ['/'] := by
    obtain ⟨first, rest, rfl⟩ := List.exists_cons_of_ne_nil hname.1
    have hfirst : first ≠ '/' := fun heq ↦ hname.2.2.2 (heq ▸ List.mem_cons_self)
    rw [List.cons_append]
    unfold withoutPreSlash
    split
    · next heq => exact absurd (List.cons.inj heq).1 hfirst
    · rfl
  rw [workspacePath, happend, joinPaths, hpre]
  rfl

theorem isFullPath_workspacePath (name : Str) : IsFullPath (workspacePath name) :=
  ⟨_, rfl⟩

theorem getLast?_workspacePath (hname : IsComponent name) :
    (workspacePath name).getLast? = some '/' := by
  rw [workspacePath_eq hname, List.getLast?_concat]

/-- A full path is moved by putting that of the workspace in the place of its slash. -/
theorem movedPath_cons (hname : IsComponent name) (rest : Str) :
    movedPath name ('/' :: rest) = workspacePath name ++ rest := by
  have hjoin : joinPaths rootDirPath name = '/' :: name := by
    rw [joinPaths, withoutPreSlash_of_isComponent hname]
    rfl
  have hlast : ('/' :: name).getLast? ≠ some '/' := getLast?_append_ne hname ['/']
  have happend : appendSlash ('/' :: name) = '/' :: name ++ ['/'] := by
    rw [appendSlash, if_neg (List.cons_ne_nil _ _), if_neg hlast]
  rw [movedPath, hjoin, joinPaths, happend, workspacePath_eq hname]
  rfl

theorem exists_eq_cons_slash (hfull : IsFullPath path) : ∃ rest, path = '/' :: rest := by
  obtain ⟨rest, hrest⟩ := hfull
  exact ⟨rest, hrest.symm⟩

/-- Different full paths stay different. -/
theorem movedPath_injective (hname : IsComponent name) (hpath : IsFullPath path)
    (hother : IsFullPath other) (hsame : movedPath name path = movedPath name other) :
    path = other := by
  obtain ⟨rest, rfl⟩ := exists_eq_cons_slash hpath
  obtain ⟨others, rfl⟩ := exists_eq_cons_slash hother
  rw [movedPath_cons hname, movedPath_cons hname, List.append_cancel_left_eq] at hsame
  rw [hsame]

/-- A full path is moved to a longer one. -/
theorem movedPath_ne (hname : IsComponent name) (hpath : IsFullPath path) :
    movedPath name path ≠ path := by
  obtain ⟨rest, rfl⟩ := exists_eq_cons_slash hpath
  intro hsame
  have hlength := congrArg List.length hsame
  rw [movedPath_cons hname, workspacePath_eq hname] at hlength
  simp only [List.length_append, List.length_cons, List.length_nil] at hlength
  omega

/-- The path of an item below a folder ends in the same way for every folder. -/
theorem itemPath_concat {folder : Str} {names : List Component} (hfull : IsFullPath folder)
    (hnames : ∀ other ∈ names, IsComponent other) (hname : IsComponent name) :
    itemPath folder (names ++ [name]) = appendSlash folder ++
      ((names.map fun other ↦ other ++ ['/']).flatten ++ name ++ if '.' ∈ name then [] else ['/']) := by
  have hitem : IsFullPath (itemPath folder names) := isFullPath_itemPath hnames hfull
  have hfold : itemPath folder (names ++ [name]) =
      canonicalPath (joinPaths (itemPath folder names) name) := by
    rw [itemPath, List.foldl_append]
    rfl
  rw [hfold, canonicalPath_joinPaths hitem.ne_nil hname, appendSlash_itemPath hnames hfull]
  simp only [List.append_assoc]

/-- The path of an item at the root is moved to that of the item in the workspace. -/
theorem movedPath_itemPath {names : List Component} (hne : names ≠ [])
    (hnames : ∀ other ∈ names, IsComponent other) (hname : IsComponent name) :
    movedPath name (itemPath rootDirPath names) = itemPath (workspacePath name) names := by
  obtain ⟨front, last, rfl⟩ := (List.eq_nil_or_concat' names).resolve_left hne
  have hfront : ∀ other ∈ front, IsComponent other :=
    fun other hother ↦ hnames other (List.mem_append_left _ hother)
  have hlast : IsComponent last := hnames last (List.mem_append_right _ List.mem_cons_self)
  have hroot : IsFullPath rootDirPath := List.prefix_refl _
  have hslash : appendSlash rootDirPath = rootDirPath := appendSlash_of_getLast? rfl
  rw [itemPath_concat hroot hfront hlast, itemPath_concat (isFullPath_workspacePath name) hfront hlast,
    hslash, appendSlash_of_getLast? (getLast?_workspacePath hname)]
  exact movedPath_cons hname _

end Paths

/-! ### The loop over the keys -/

/-- The body of the loop of `newWorkspace`. -/
def ExplorerState.moveKey (name : Str) (explorer : ExplorerState) (path : Str) : ExplorerState :=
  if path ∈ explorer.files.keys then
    { explorer with
      files := (explorer.files.erase path).set (movedPath name path) (explorer.files.item path) }
  else explorer

/-- No path is moved onto one that is still to come. -/
def MovesApart (name : Str) (paths : List Str) : Prop :=
  paths.Pairwise fun path other ↦ movedPath name path ≠ other

instance (name : Str) (paths : List Str) : Decidable (MovesApart name paths) :=
  inferInstanceAs (Decidable (List.Pairwise _ _))

/-- The item that is found under a path when its turn comes: the last one that has been moved there. -/
def carriedItem (carried : List (Str × Option ItemInfo)) (entry : Str × Option ItemInfo) : Option ItemInfo :=
  (carried.lookup entry.1).getD entry.2

theorem carriedItem_cons (key : Str) (item : Option ItemInfo) (carried : List (Str × Option ItemInfo))
    (entry : Str × Option ItemInfo) :
    carriedItem ((key, item) :: carried) entry = if entry.1 = key then item else carriedItem carried entry := by
  rw [carriedItem, List.lookup_cons, carriedItem]
  by_cases hkey : entry.1 = key
  · simp [hkey]
  · simp [hkey, beq_false_of_ne hkey]

/-- What becomes of the entries, of which some have been moved onto the keys of others. -/
def movedEntries (name : Str) :
    List (Str × Option ItemInfo) → List (Str × Option ItemInfo) → List (Str × Option ItemInfo)
  | [], _ => []
  | entry :: rest, carried =>
    if movedPath name entry.1 ∈ rest.map Prod.fst then
      movedEntries name rest ((movedPath name entry.1, carriedItem carried entry) :: carried)
    else (movedPath name entry.1, carriedItem carried entry) :: movedEntries name rest carried

section Entries

variable {name : Str} {entries carried : List (Str × Option ItemInfo)}

/-- The keys are those of before, moved. -/
theorem exists_source_of_mem_movedEntries {path : Str}
    (hpath : path ∈ (movedEntries name entries carried).map Prod.fst) :
    ∃ source ∈ entries.map Prod.fst, movedPath name source = path := by
  induction entries generalizing carried with
  | nil => exact absurd hpath List.not_mem_nil
  | cons entry rest ih =>
    rw [movedEntries] at hpath
    split at hpath
    · obtain ⟨source, hsource, hmoved⟩ := ih hpath
      exact ⟨source, List.mem_cons_of_mem _ hsource, hmoved⟩
    · rcases List.mem_cons.mp hpath with rfl | hpath
      · exact ⟨entry.1, List.mem_cons_self, rfl⟩
      · obtain ⟨source, hsource, hmoved⟩ := ih hpath
        exact ⟨source, List.mem_cons_of_mem _ hsource, hmoved⟩

/-- The last of the entries is moved. -/
theorem movedEntries_ne_nil (hne : entries ≠ []) : movedEntries name entries carried ≠ [] := by
  induction entries generalizing carried with
  | nil => exact absurd rfl hne
  | cons entry rest ih =>
    rw [movedEntries]
    split
    · next hmem => exact ih fun hrest ↦ absurd (hrest ▸ hmem) List.not_mem_nil
    · exact List.cons_ne_nil _ _

/-- The items are those of before. -/
theorem item_ne_none_of_mem_movedEntries (hitems : ∀ entry ∈ entries, entry.2 ≠ none)
    (hcarried : ∀ entry ∈ carried, entry.2 ≠ none) :
    ∀ entry ∈ movedEntries name entries carried, entry.2 ≠ none := by
  induction entries generalizing carried with
  | nil => exact fun entry hentry ↦ absurd hentry List.not_mem_nil
  | cons entry rest ih =>
    have hitem : carriedItem carried entry ≠ none := by
      rw [carriedItem]
      cases hlookup : carried.lookup entry.1 with
      | none => exact hitems entry List.mem_cons_self
      | some item =>
        obtain ⟨front, back, rfl, -⟩ := List.lookup_eq_some_iff.mp hlookup
        exact hcarried (entry.1, item) (List.mem_append_right front List.mem_cons_self)
    have hrest := fun other hother ↦ hitems other (List.mem_cons_of_mem _ hother)
    rw [movedEntries]
    split
    · exact ih hrest (List.forall_mem_cons.mpr ⟨hitem, hcarried⟩)
    · exact List.forall_mem_cons.mpr ⟨hitem, ih hrest hcarried⟩

/-- Where no path is moved onto one that is still to come, every item is found under its new path. -/
theorem movedEntries_eq_map (hapart : MovesApart name (entries.map Prod.fst)) :
    movedEntries name entries [] = entries.map fun entry ↦ (movedPath name entry.1, entry.2) := by
  induction entries with
  | nil => rfl
  | cons entry rest ih =>
    obtain ⟨hfirst, hrest⟩ := List.pairwise_cons.mp hapart
    rw [movedEntries, if_neg fun hmem ↦ hfirst _ hmem rfl, ih hrest]
    rfl

end Entries

section Loop

variable {name : Component} {explorer : ExplorerState} {path : Str}

/-- The part of the state that the loop changes. -/
theorem moveBelow_eq (name : Str) (explorer : ExplorerState) :
    explorer.moveBelow name =
      (explorer.files.keys.foldl (ExplorerState.moveKey name) explorer).setTabs
        ((explorer.files.keys.foldl (ExplorerState.moveKey name) explorer).tabs.map
          (movedPath name)) :=
  rfl

/-- A round of the loop takes the first entry away and writes its item to the new path. -/
theorem moveKey_of_cons (explorer : ExplorerState) {item : Option ItemInfo}
    {rest : List (Str × Option ItemInfo)} (hentries : explorer.files.entries = (path, item) :: rest) :
    ∃ files, explorer.moveKey name path = { explorer with files } ∧
      files.entries = if movedPath name path ∈ rest.map Prod.fst then
          rest.map fun entry ↦ if entry.1 = movedPath name path then (movedPath name path, item) else entry
        else rest ++ [(movedPath name path, item)] := by
  have hkeys : path ∈ explorer.files.keys := by
    rw [OrderedMap.keys, hentries]
    exact List.mem_cons_self
  have herase := OrderedMap.entries_erase_of_cons hentries
  have hitem : explorer.files.item path = item := by
    rw [ExplorerFiles.item, OrderedMap.lookup, hentries, OrderedMap.lookup_cons_eq_ite, if_pos rfl]
    rfl
  have hiff : movedPath name path ∈ (explorer.files.erase path).keys ↔
      movedPath name path ∈ rest.map Prod.fst := by
    rw [OrderedMap.keys, herase]
  refine ⟨_, if_pos hkeys, ?_⟩
  rw [hitem]
  split
  · next hmem => rw [OrderedMap.entries_set_of_mem (hiff.mpr hmem), herase]
  · next hmem => rw [OrderedMap.entries_set_of_notMem (mt hiff.mp hmem), herase]

/-- Assumes: full paths. The loop over the first entries, of which some have taken the items of others,
takes them away and puts them at the end under their new paths. -/
theorem foldl_moveKey (hname : IsComponent name) {entries : List (Str × Option ItemInfo)}
    (hfull : ∀ entry ∈ entries, IsFullPath entry.1) (hnodup : (entries.map Prod.fst).Nodup) :
    ∀ (explorer : ExplorerState) (carried moved : List (Str × Option ItemInfo)),
      explorer.files.entries =
          (entries.map fun entry ↦ (entry.1, carriedItem carried entry)) ++ moved →
        (∀ entry ∈ entries, movedPath name entry.1 ∉ moved.map Prod.fst) →
          ∃ files, (entries.map Prod.fst).foldl (ExplorerState.moveKey name) explorer =
              { explorer with files } ∧
            files.entries = moved ++ movedEntries name entries carried := by
  induction entries with
  | nil =>
    intro explorer carried moved hentries _
    exact ⟨explorer.files, rfl, by rw [hentries, movedEntries, List.append_nil]; rfl⟩
  | cons entry rest ih =>
    intro explorer carried moved hentries hfree
    rw [List.map_cons, List.nodup_cons] at hnodup
    have hfullRest := fun other hother ↦ hfull other (List.mem_cons_of_mem _ hother)
    have hfreeRest := fun other hother ↦ hfree other (List.mem_cons_of_mem _ hother)
    have hkeys : ((rest.map fun other ↦ (other.1, carriedItem carried other)) ++ moved).map Prod.fst =
        rest.map Prod.fst ++ moved.map Prod.fst := by
      rw [List.map_append, List.map_map]
      rfl
    have hmem : movedPath name entry.1 ∈ ((rest.map fun other ↦ (other.1, carriedItem carried other)) ++
        moved).map Prod.fst ↔ movedPath name entry.1 ∈ rest.map Prod.fst := by
      rw [hkeys, List.mem_append, or_iff_left (hfree entry List.mem_cons_self)]
    have hcons : explorer.files.entries = (entry.1, carriedItem carried entry) ::
        ((rest.map fun other ↦ (other.1, carriedItem carried other)) ++ moved) := hentries
    obtain ⟨files, hmove, hmoved⟩ := moveKey_of_cons explorer hcons
    rw [movedEntries]
    by_cases hcollides : movedPath name entry.1 ∈ rest.map Prod.fst
    · -- the item takes the place of that under a path that is still to come
      rw [if_pos (hmem.mpr hcollides)] at hmoved
      have hreplaced : files.entries = (rest.map fun other ↦ (other.1, carriedItem
          ((movedPath name entry.1, carriedItem carried entry) :: carried) other)) ++ moved := by
        rw [hmoved, List.map_append, List.map_map]
        refine congrArg₂ (· ++ ·) (List.map_congr_left fun other _ ↦ ?_) ?_
        · rw [Function.comp_apply, carriedItem_cons]
          by_cases hsame : other.1 = movedPath name entry.1
          · rw [if_pos hsame, if_pos hsame, hsame]
          · rw [if_neg hsame, if_neg hsame]
        · refine (List.map_congr_left fun other hother ↦ if_neg ?_).trans (List.map_id moved)
          exact fun hsame ↦ hfree entry List.mem_cons_self (hsame ▸ List.mem_map_of_mem hother)
      obtain ⟨last, hrun, hlast⟩ := ih hfullRest hnodup.2 { explorer with files } _ _ hreplaced hfreeRest
      refine ⟨last, ?_, ?_⟩
      · rw [List.map_cons, List.foldl_cons, hmove]
        exact hrun
      · rw [hlast, if_pos hcollides]
    · rw [if_neg (mt hmem.mp hcollides), List.append_assoc] at hmoved
      have hlater : ∀ other ∈ rest, movedPath name other.1 ∉
          (moved ++ [(movedPath name entry.1, carriedItem carried entry)]).map Prod.fst := by
        intro other hother
        rw [List.map_append, List.mem_append, not_or]
        refine ⟨hfreeRest other hother, fun hsame ↦ hnodup.1 ?_⟩
        have hpath := movedPath_injective hname (hfullRest other hother)
          (hfull entry List.mem_cons_self) (List.mem_singleton.mp hsame)
        rw [← hpath]
        exact List.mem_map_of_mem hother
      obtain ⟨last, hrun, hlast⟩ := ih hfullRest hnodup.2 { explorer with files } _ _ hmoved hlater
      refine ⟨last, ?_, ?_⟩
      · rw [List.map_cons, List.foldl_cons, hmove]
        exact hrun
      · rw [hlast, if_neg hcollides, List.append_assoc]
        rfl

/-- Assumes: full paths. The files become the moved entries, and the tabs are moved. -/
theorem entries_moveBelow (hname : IsComponent name)
    (hfull : ∀ path ∈ explorer.files.keys, IsFullPath path) :
    ∃ files, files.entries = movedEntries name explorer.files.entries [] ∧
      explorer.moveBelow name =
        { explorer with files }.setTabs (explorer.tabs.map (movedPath name)) := by
  have hstart : explorer.files.entries =
      (explorer.files.entries.map fun entry ↦ (entry.1, carriedItem [] entry)) ++ [] := by
    rw [List.append_nil]
    exact (List.map_id _).symm
  obtain ⟨files, hrun, hentries⟩ := foldl_moveKey hname
    (fun entry hentry ↦ hfull entry.1 (List.mem_map_of_mem hentry)) explorer.files.nodup
    explorer [] [] hstart (fun _ _ ↦ List.not_mem_nil)
  refine ⟨files, hentries, ?_⟩
  rw [moveBelow_eq]
  rw [OrderedMap.keys, hrun]

end Loop

/-! ### What has been moved -/

/-- The current file is the last tab, and its path is none to which a tab is moved. -/
structure LastIsCurrent (name : Str) (explorer : ExplorerState) : Prop where
  last : explorer.currentFilePath = explorer.tabs.getLast?
  unmoved : ∀ current, explorer.currentFilePath = some current →
    current ∉ explorer.tabs.map (movedPath name)

section Moved

variable {name : Component} {explorer : ExplorerState} {files : ExplorerFiles}

/-- Different tabs stay different. -/
theorem nodup_map_movedPath (hname : IsComponent name) (hnodup : explorer.tabs.Nodup)
    (htabs : ∀ tab ∈ explorer.tabs, IsFullPath tab) :
    (explorer.tabs.map (movedPath name)).Nodup :=
  hnodup.map_on fun _ htab _ hother hsame ↦
    movedPath_injective hname (htabs _ htab) (htabs _ hother) hsame

/-- The tabs keep their order. -/
theorem tabs_setTabs_movedPath (hname : IsComponent name) (hnodup : explorer.tabs.Nodup)
    (htabs : ∀ tab ∈ explorer.tabs, IsFullPath tab) :
    ({ explorer with files }.setTabs (explorer.tabs.map (movedPath name))).tabs =
      explorer.tabs.map (movedPath name) :=
  distinct_of_nodup (nodup_map_movedPath hname hnodup htabs)

/-- The moved tabs are valid. -/
theorem validTabs_setTabs_movedPath (hname : IsComponent name) (hvalid : explorer.ValidTabs)
    (htabs : ∀ tab ∈ explorer.tabs, IsFullPath tab) :
    ({ explorer with files }.setTabs (explorer.tabs.map (movedPath name))).ValidTabs := by
  refine ⟨nodup_distinct _, ?_⟩
  rw [tabs_setTabs_movedPath hname hvalid.nodup htabs]
  have hcurrent : ExplorerState.currentFilePath { explorer with files } =
    explorer.currentFilePath := rfl
  unfold ExplorerState.setTabs
  rw [hcurrent, distinct_of_nodup (nodup_map_movedPath hname hvalid.nodup htabs)]
  cases explorer.currentFilePath with
  | none => exact @index_of_map_tabs explorer _ _ hvalid rfl
  | some current =>
    by_cases hmoved : current ∈ explorer.tabs.map (movedPath name)
    · exact .inr (indexOf_bounds hmoved)
    · exact .inl (indexOf_of_notMem hmoved)

/-- Assumes: valid tabs with full paths. The current file is kept exactly if it is the last tab, and no
tab is moved to its path. -/
theorem currentFilePath_setTabs_movedPath_iff (hname : IsComponent name) (hvalid : explorer.ValidTabs)
    (htabs : ∀ tab ∈ explorer.tabs, IsFullPath tab) :
    ({ explorer with files }.setTabs (explorer.tabs.map (movedPath name))).currentFilePath =
        explorer.currentFilePath.map (movedPath name) ↔ LastIsCurrent name explorer := by
  have hsame : ExplorerState.currentFilePath { explorer with files } =
    explorer.currentFilePath := rfl
  rw [ExplorerState.currentFilePath, tabs_setTabs_movedPath hname hvalid.nodup htabs]
  unfold ExplorerState.setTabs
  rw [hsame, distinct_of_nodup (nodup_map_movedPath hname hvalid.nodup htabs)]
  cases hcurrent : explorer.currentFilePath with
  | none =>
    have hnil : explorer.tabs = [] := by
      by_contra hne
      obtain ⟨current, hsome⟩ := hvalid.exists_currentFilePath hne
      rw [hcurrent] at hsome
      cases hsome
    have hlast : LastIsCurrent name explorer := by
      refine ⟨by rw [hcurrent, hnil]; rfl, fun current hsome ↦ ?_⟩
      rw [hcurrent] at hsome
      cases hsome
    rw [hnil, List.map_nil, arrayAt_nil]
    exact iff_of_true rfl hlast
  | some current =>
    have hfull : IsFullPath current := htabs current (mem_tabs_of_currentFilePath hcurrent)
    by_cases hmoved : current ∈ explorer.tabs.map (movedPath name)
    · -- the old path is that of another tab, which becomes the current one
      refine iff_of_false ?_ fun hlast ↦ hlast.unmoved current hcurrent hmoved
      rw [arrayAt_indexOf hmoved]
      exact fun heq ↦ movedPath_ne hname hfull (Option.some.inj heq).symm
    · dsimp only
      rw [indexOf_of_notMem hmoved, arrayAt_neg_one, List.getLast?_map]
      constructor
      · intro hlast
        refine ⟨?_, fun other hother ↦ ?_⟩
        · obtain ⟨tab, htab, hpath⟩ := Option.map_eq_some_iff.mp hlast
          rw [hcurrent, htab, movedPath_injective hname (htabs tab (List.mem_of_getLast? htab)) hfull
            hpath]
        · rw [hcurrent] at hother
          rwa [← Option.some.inj hother]
      · intro hlast
        rw [← hlast.last, hcurrent]

end Moved

end Playground.Explorer
