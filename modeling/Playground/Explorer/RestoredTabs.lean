import Playground.Explorer.Switching

/-!
# Tabs that are read back

The metadata file lists an entry for every path, relative to the workspace. A relative path that begins with
a slash is taken for a full one when it is read (`reread`), but this changes neither the tabs nor the
current file as long as the tabs themselves lie under the workspace: what is read back are the tabs that
are keys of the files (`tabs_applyMeta_reread_iff`), and with all of them the current file
(`currentFilePath_applyMeta_reread`).
-/

set_option autoImplicit false
set_option relaxedAutoImplicit false

namespace Playground.Explorer

open Library

variable {json : Json} {root : Str} {explorer : ExplorerState}

/-- What an entry with a full path is read back as. -/
def reread (root : Str) (entry : ItemMetaEntry) : ItemMetaEntry :=
  { entry with
    path := if rootDirPath <+: entry.path.drop root.length then entry.path.drop root.length
      else joinPaths root (entry.path.drop root.length) }

theorem fullEntries_relativeEntries (hjson : json.RoundTrips) (explorer : ExplorerState) :
    fullEntries json root (json.stringifyMeta (relativeEntries root explorer)) =
      explorer.entries.map (reread root) := by
  rw [fullEntries, hjson.parseMeta_stringifyMeta, Option.getD_some, MetaFile.toEntries, relativeEntries,
    List.map_map]
  rfl

/-- A path that lies under the workspace is read back. -/
theorem reread_of_liesUnder (hroot : root.getLast? = some '/') {entry : ItemMetaEntry}
    (hunder : LiesUnder root entry.path) : reread root entry = entry := by
  obtain ⟨rest, hpath, hrest⟩ := hunder
  have hdrop : entry.path.drop root.length = rest := by rw [hpath, List.drop_left]
  rw [reread, hdrop, if_neg (not_isFullPath_of_head hrest), joinPaths_relative hroot hrest, ← hpath]

/-- The tabs that are listed are those that are keys of the files. -/
theorem mem_paths_isTabs {path : Str} :
    path ∈ (explorer.entries.filter ItemMetaEntry.isTabs).map ItemMetaEntry.path ↔
      path ∈ explorer.tabs ∧ path ∈ explorer.files.keys := by
  simp only [List.mem_map, List.mem_filter, mem_entries]
  constructor
  · rintro ⟨_, ⟨⟨key, hkey, rfl⟩, htab⟩, rfl⟩
    exact ⟨of_decide_eq_true htab, hkey⟩
  · rintro ⟨htab, hkey⟩
    exact ⟨explorer.entry path, ⟨⟨path, hkey, rfl⟩, decide_eq_true htab⟩, rfl⟩

section Reread

variable (hroot : root.getLast? = some '/') (hunder : ∀ tab ∈ explorer.tabs, LiesUnder root tab)
include hroot hunder

/-- The entries of the tabs are read back. -/
theorem filter_isTabs_reread :
    (explorer.entries.map (reread root)).filter ItemMetaEntry.isTabs =
      explorer.entries.filter ItemMetaEntry.isTabs := by
  rw [List.filter_map]
  refine (List.map_congr_left fun entry hentry ↦ ?_).trans (List.map_id _)
  obtain ⟨hlisted, htab⟩ := List.mem_filter.mp hentry
  obtain ⟨path, -, rfl⟩ := mem_entries.mp hlisted
  exact reread_of_liesUnder hroot (hunder path (of_decide_eq_true htab))

/-- The entry of the current file is read back. -/
theorem metaIndex_reread (tabs : List Str) :
    metaIndex tabs (explorer.entries.map (reread root)) = metaIndex tabs explorer.entries := by
  have hflag : ItemMetaEntry.isCurrent ∘ reread root = ItemMetaEntry.isCurrent := rfl
  rw [metaIndex, metaIndex, List.find?_map, hflag]
  cases hfind : explorer.entries.find? ItemMetaEntry.isCurrent with
  | none => rfl
  | some entry =>
    obtain ⟨path, -, rfl⟩ := mem_entries.mp (List.mem_of_find?_eq_some hfind)
    have hflagged : (explorer.entry path).isCurrent = true := List.find?_some hfind
    have hcurrent : explorer.currentFilePath = some path := of_decide_eq_true hflagged
    have hsame : reread root (explorer.entry path) = explorer.entry path :=
      reread_of_liesUnder hroot (hunder path (mem_tabs_of_currentFilePath hcurrent))
    rw [Option.map_some, hsame]

/-- All tabs are read back exactly if they are keys of the files. -/
theorem tabs_applyMeta_reread_iff (loaded : ExplorerState) (hnodup : explorer.tabs.Nodup) :
    (loaded.applyMeta (explorer.entries.map (reread root))).tabs = explorer.tabs ↔
      ∀ tab ∈ explorer.tabs, tab ∈ explorer.files.keys := by
  change distinct (((explorer.entries.map (reread root)).filter ItemMetaEntry.isTabs).map
    ItemMetaEntry.path) = _ ↔ _
  rw [filter_isTabs_reread hroot hunder]
  constructor
  · intro hsame tab htab
    rw [← hsame, mem_distinct] at htab
    exact (mem_paths_isTabs.mp htab).2
  · intro hkeys
    rw [paths_entries hnodup hkeys, distinct_of_nodup hnodup]

/-- If all tabs are read back, the current file is. -/
theorem currentFilePath_applyMeta_reread (loaded : ExplorerState) (hvalid : explorer.ValidTabs)
    (hkeys : ∀ tab ∈ explorer.tabs, tab ∈ explorer.files.keys) :
    (loaded.applyMeta (explorer.entries.map (reread root))).currentFilePath =
      explorer.currentFilePath := by
  have hcurrent : explorer.currentFilePath = none → explorer.tabs = [] := by
    intro hnone
    by_contra hne
    obtain ⟨current, hsome⟩ := hvalid.exists_currentFilePath hne
    rw [hnone] at hsome
    cases hsome
  obtain ⟨htabs, hpath⟩ := applyMeta_entries loaded hvalid.nodup hkeys hcurrent
  have hreread := (tabs_applyMeta_reread_iff hroot hunder loaded hvalid.nodup).mpr hkeys
  rw [← hpath, ExplorerState.currentFilePath, ExplorerState.currentFilePath, hreread, htabs]
  congr 1
  change metaIndex (loaded.applyMeta _).tabs _ = metaIndex (loaded.applyMeta _).tabs _
  rw [hreread, htabs]
  exact metaIndex_reread hroot hunder explorer.tabs

end Reread

end Playground.Explorer
