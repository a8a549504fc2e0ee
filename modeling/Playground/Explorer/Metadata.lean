import Playground.Explorer.TabRuns
import Playground.Explorer.HiddenFiles
import Playground.Explorer.ReferenceJson

/-!
# Saving and restoring the tabs

`saveMeta` writes the tabs, the current file and the editor positions to a file of the workspace, and
`_initCurrentWorkspace` reads them back. The file lists one entry for every path, the tabs first and in
tab order; paths are written relative to the workspace and made full again when they are read.

A relative path that begins with a slash is taken for a full one when it is read. So the round trip
asks that no path of the workspace goes on with a second slash (`LiesUnder`); `saveMeta_restores` is
the round trip of such a workspace.
-/

set_option autoImplicit false
set_option relaxedAutoImplicit false

namespace Playground.Explorer

open Library

variable {F : Type} {system : FileSystem F} {json : Json} {content : F → Content}

/-! ### The entries -/

/-- The editor position of the file at a path. -/
def ExplorerFiles.position (files : ExplorerFiles) (path : Str) : Option Position :=
  ((files.item path).bind ItemInfo.itemMeta).bind ItemMeta.position

/-- The entry of a path in the metadata, with the path that the explorer has for it. -/
def ExplorerState.entry (explorer : ExplorerState) (path : Str) : ItemMetaEntry where
  path
  isTabs := path ∈ explorer.tabs
  isCurrent := explorer.currentFilePath = some path
  position := explorer.files.position path

/-- The entries of the metadata, with the paths that the explorer has for them. -/
def ExplorerState.entries (explorer : ExplorerState) : List ItemMetaEntry :=
  sortMeta explorer.tabs (explorer.files.keys.map explorer.entry)

section Entries

variable {explorer : ExplorerState}

theorem mem_sortMeta {tabs : List Str} {metaFile : List ItemMetaEntry} {entry : ItemMetaEntry} :
    entry ∈ sortMeta tabs metaFile ↔ entry ∈ metaFile := by
  rw [sortMeta, List.mem_append, List.mem_insertionSort, List.mem_filter, List.mem_filter]
  cases entry.isTabs <;> simp

/-- There is an entry for every path. -/
theorem mem_entries {entry : ItemMetaEntry} :
    entry ∈ explorer.entries ↔ ∃ path ∈ explorer.files.keys, explorer.entry path = entry := by
  rw [ExplorerState.entries, mem_sortMeta, List.mem_map]

/-- The entries of the tabs have the tabs as their paths, in tab order. -/
theorem paths_entries (hnodup : explorer.tabs.Nodup)
    (htabs : ∀ tab ∈ explorer.tabs, tab ∈ explorer.files.keys) :
    ((explorer.entries.filter ItemMetaEntry.isTabs).map ItemMetaEntry.path) = explorer.tabs := by
  let order (first second : ItemMetaEntry) : Prop :=
    indexOf explorer.tabs first.path ≤ indexOf explorer.tabs second.path
  let listed : List ItemMetaEntry := explorer.files.keys.map explorer.entry
  let sorted := (listed.filter ItemMetaEntry.isTabs).insertionSort order
  have hentries : explorer.entries.filter ItemMetaEntry.isTabs = sorted := by
    have hsorted : sorted.filter ItemMetaEntry.isTabs = sorted := by
      refine List.filter_eq_self.mpr fun entry hentry ↦ ?_
      exact (List.mem_filter.mp ((List.mem_insertionSort _).mp hentry)).2
    have hothers : (listed.filter fun entry ↦ !entry.isTabs).filter ItemMetaEntry.isTabs = [] := by
      refine List.filter_eq_nil_iff.mpr fun entry hentry ↦ ?_
      have hnot := (List.mem_filter.mp hentry).2
      rw [Bool.not_eq_true'] at hnot
      rw [hnot]
      exact Bool.false_ne_true
    rw [ExplorerState.entries, sortMeta, List.filter_append, hothers, List.append_nil]
    exact hsorted
  have hkeys : listed.map ItemMetaEntry.path = explorer.files.keys := by
    simp [listed, Function.comp_def, ExplorerState.entry]
  have hperm : (sorted.map ItemMetaEntry.path).Perm explorer.tabs := by
    refine ((List.perm_insertionSort order _).map _).trans ?_
    refine (List.perm_ext_iff_of_nodup ?_ hnodup).mpr fun path ↦ ?_
    · refine List.Nodup.sublist (List.filter_sublist.map ItemMetaEntry.path) ?_
      rw [hkeys]
      exact explorer.files.nodup_keys
    · simp only [listed, List.mem_map, List.mem_filter]
      constructor
      · rintro ⟨_, ⟨⟨key, -, rfl⟩, htab⟩, rfl⟩
        exact of_decide_eq_true htab
      · intro htab
        exact ⟨explorer.entry path, ⟨⟨path, htabs path htab, rfl⟩, decide_eq_true htab⟩, rfl⟩
  have hsorted : (sorted.map ItemMetaEntry.path).Pairwise
      fun first second ↦ indexOf explorer.tabs first ≤ indexOf explorer.tabs second := by
    have htotal : Std.Total order := ⟨fun first second ↦ Int.le_total _ _⟩
    have htrans : IsTrans ItemMetaEntry order := ⟨fun _ _ _ ↦ Int.le_trans⟩
    exact List.pairwise_map.mpr (List.pairwise_insertionSort order _)
  have htabsSorted : explorer.tabs.Pairwise
      fun first second ↦ indexOf explorer.tabs first ≤ indexOf explorer.tabs second := by
    refine List.pairwise_iff_getElem.mpr fun first second hfirst hsecond hlt ↦ ?_
    rw [indexOf_of_getElem? hnodup (List.getElem?_eq_getElem hfirst),
      indexOf_of_getElem? hnodup (List.getElem?_eq_getElem hsecond)]
    exact Int.ofNat_le.mpr hlt.le
  rw [hentries]
  refine List.Perm.eq_of_pairwise ?_ hsorted htabsSorted hperm
  intro first second hfirst hsecond hle hge
  have hfirstTab := arrayAt_indexOf (hperm.mem_iff.mp hfirst)
  rw [Int.le_antisymm hle hge, arrayAt_indexOf hsecond] at hfirstTab
  exact (Option.some.inj hfirstTab).symm

/-- The index of the current file is that of the file that is current. -/
theorem metaIndex_entries
    (hcurrent : ∀ path, explorer.currentFilePath = some path → path ∈ explorer.files.keys) :
    metaIndex explorer.tabs explorer.entries =
      match explorer.currentFilePath with
      | some path => indexOf explorer.tabs path
      | none => -1 := by
  have hisCurrent : ∀ path, (explorer.entry path).isCurrent = true ↔
      explorer.currentFilePath = some path := fun path ↦ decide_eq_true_iff
  cases hpath : explorer.currentFilePath with
  | none =>
    have hnone : explorer.entries.find? ItemMetaEntry.isCurrent = none := by
      refine List.find?_eq_none.mpr fun entry hentry htrue ↦ ?_
      obtain ⟨path, -, rfl⟩ := mem_entries.mp hentry
      rw [hisCurrent, hpath] at htrue
      cases htrue
    rw [metaIndex, hnone]
  | some current =>
    have hsome : (explorer.entries.find? ItemMetaEntry.isCurrent).isSome = true :=
      List.find?_isSome.mpr ⟨explorer.entry current,
        mem_entries.mpr ⟨current, hcurrent current hpath, rfl⟩, (hisCurrent current).mpr hpath⟩
    obtain ⟨entry, hfind⟩ := Option.isSome_iff_exists.mp hsome
    obtain ⟨path, -, rfl⟩ := mem_entries.mp (List.mem_of_find?_eq_some hfind)
    have hsame := (hisCurrent path).mp (List.find?_some hfind)
    rw [hpath, Option.some_inj] at hsame
    rw [metaIndex, hfind]
    exact congrArg (indexOf explorer.tabs) hsame.symm

/-- The position that the entries give to a path: the last one counts. -/
def lastPosition (metaFile : List ItemMetaEntry) (before : Option Position) (path : Str) :
    Option Position :=
  metaFile.foldl (fun position entry ↦ if entry.path = path then entry.position else position) before

/-- The position of an item with content is that of an entry for its path. -/
theorem position_takePosition (files : ExplorerFiles) (entry : ItemMetaEntry) {path : Str}
    (hcontent : files.content path ≠ none) :
    (files.takePosition entry).position path =
      if entry.path = path then entry.position else files.position path := by
  by_cases hpath : path = entry.path
  · subst hpath
    rw [if_pos rfl, ExplorerFiles.position, item_takePosition_self]
    split
    · rfl
    · next hnone =>
      obtain ⟨content, hsome⟩ := Option.ne_none_iff_exists'.mp hcontent
      obtain ⟨item, hitem, hitemContent⟩ := Option.bind_eq_some_iff.mp hsome
      exact absurd (hitem.trans (by rw [← hitemContent])) (hnone content item.itemMeta)
  · rw [if_neg (Ne.symm hpath), ExplorerFiles.position, item_takePosition_of_ne hpath]
    rfl

/-- Taking over metadata gives the files that are listed their positions. -/
theorem position_applyMeta (loaded : ExplorerState) (metaFile : List ItemMetaEntry) {path : Str}
    (hcontent : loaded.files.content path ≠ none) :
    (loaded.applyMeta metaFile).files.position path =
      lastPosition metaFile (loaded.files.position path) path := by
  have hloop : ∀ (entries : List ItemMetaEntry) (files : ExplorerFiles),
      files.content path ≠ none →
        ExplorerFiles.position (entries.foldl ExplorerFiles.takePosition files) path =
          lastPosition entries (files.position path) path := by
    intro entries
    induction entries with
    | nil => exact fun files _ ↦ rfl
    | cons entry rest ih =>
      intro files hfile
      have hkept : (files.takePosition entry).content path ≠ none := by
        rwa [content_takePosition]
      rw [List.foldl_cons, ih _ hkept, position_takePosition files entry hfile]
      rfl
  exact hloop metaFile loaded.files hcontent

/-- The entries give every path the position that it has. -/
theorem lastPosition_entries (path : Str) :
    lastPosition explorer.entries none path = explorer.files.position path := by
  have hloop : ∀ (entries : List ItemMetaEntry) (before : Option Position),
      (∀ entry ∈ entries, entry.position = explorer.files.position entry.path) →
        lastPosition entries before path =
          if path ∈ entries.map ItemMetaEntry.path then explorer.files.position path else before := by
    intro entries
    induction entries with
    | nil => exact fun before _ ↦ (if_neg List.not_mem_nil).symm
    | cons entry rest ih =>
      intro before hentries
      have hrest := ih (if entry.path = path then entry.position else before)
        fun other hother ↦ hentries other (List.mem_cons_of_mem _ hother)
      refine hrest.trans ?_
      rw [List.map_cons]
      by_cases hmem : path ∈ rest.map ItemMetaEntry.path
      · rw [if_pos hmem, if_pos (List.mem_cons_of_mem _ hmem)]
      · rw [if_neg hmem]
        by_cases hpath : entry.path = path
        · rw [if_pos hpath, hentries entry List.mem_cons_self, hpath, if_pos List.mem_cons_self]
        · rw [if_neg hpath, if_neg fun hcons ↦
            (List.mem_cons.mp hcons).elim (fun heq ↦ hpath heq.symm) hmem]
  have hentries : ∀ entry ∈ explorer.entries,
      entry.position = explorer.files.position entry.path := by
    intro entry hentry
    obtain ⟨_, _, rfl⟩ := mem_entries.mp hentry
    rfl
  rw [hloop explorer.entries none hentries]
  by_cases hlisted : path ∈ explorer.entries.map ItemMetaEntry.path
  · rw [if_pos hlisted]
  · have hnotKey : path ∉ explorer.files.keys := fun hkey ↦
      hlisted (List.mem_map.mpr ⟨_, mem_entries.mpr ⟨path, hkey, rfl⟩, rfl⟩)
    rw [if_neg hlisted, ExplorerFiles.position, ExplorerFiles.item,
      OrderedMap.lookup_eq_none_iff.mpr hnotKey]
    rfl

/-- Assumes: the tabs and the current file have entries. Taking over the entries restores the tabs,
the current file and the positions. -/
theorem applyMeta_entries (loaded : ExplorerState) (hnodup : explorer.tabs.Nodup)
    (htabs : ∀ tab ∈ explorer.tabs, tab ∈ explorer.files.keys)
    (hcurrent : explorer.currentFilePath = none → explorer.tabs = []) :
    (loaded.applyMeta explorer.entries).tabs = explorer.tabs ∧
      (loaded.applyMeta explorer.entries).currentFilePath = explorer.currentFilePath := by
  have hrestored : (loaded.applyMeta explorer.entries).tabs = explorer.tabs := by
    change distinct ((explorer.entries.filter ItemMetaEntry.isTabs).map ItemMetaEntry.path) = _
    rw [paths_entries hnodup htabs, distinct_of_nodup hnodup]
  refine ⟨hrestored, ?_⟩
  have hindex : (loaded.applyMeta explorer.entries).currentIndex =
      metaIndex explorer.tabs explorer.entries := by
    rw [← hrestored]
    rfl
  rw [ExplorerState.currentFilePath, hrestored, hindex,
    metaIndex_entries fun path hpath ↦ htabs path (mem_tabs_of_currentFilePath hpath)]
  cases hpath : explorer.currentFilePath with
  | none => rw [hcurrent hpath, arrayAt_nil]
  | some path => exact arrayAt_indexOf (mem_tabs_of_currentFilePath hpath)

end Entries

/-! ### Paths in the metadata -/

/-- The path is that of the folder followed by a relative path. -/
def LiesUnder (root path : Str) : Prop :=
  ∃ rest, path = root ++ rest ∧ rest.head? ≠ some '/'

section Workspace

variable {state : State F} {root : Str}

/-- The path of a workspace is a full path, and ends with a slash. -/
theorem isFullPath_of_currentWorkspacePath (hroot : state.currentWorkspacePath = .ok root) :
    IsFullPath root ∧ root.getLast? = some '/' := by
  have hjoin : ∀ name : Str, name ≠ [] → IsFullPath (joinPaths rootDirPath (appendSlash name)) ∧
      (joinPaths rootDirPath (appendSlash name)).getLast? = some '/' := by
    intro name hname
    have hlast := getLast?_appendSlash hname
    refine ⟨⟨_, rfl⟩, ?_⟩
    change (['/'] ++ withoutPreSlash (appendSlash name)).getLast? = some '/'
    rw [List.getLast?_append]
    generalize appendSlash name = path at hlast ⊢
    unfold withoutPreSlash
    split
    · next rest =>
      cases rest with
      | nil => rfl
      | cons first rest =>
        rw [List.getLast?_cons_cons] at hlast
        rw [hlast]
        rfl
    · rw [hlast]
      rfl
  unfold State.currentWorkspacePath at hroot
  split at hroot
  · cases hroot
  · cases hroot
  · next name hne _ =>
    obtain rfl := Except.ok.inj hroot
    exact hjoin name fun heq ↦ hne heq

/-- Relative to the workspace a path is what follows the path of the workspace. -/
theorem getRelativePath_append (htemporary : state.isTemporary = false)
    (hroot : state.currentWorkspacePath = .ok root) (rest : Str) :
    state.getRelativePath (root ++ rest) = .ok rest := by
  rw [State.getRelativePath, htemporary, hroot]
  change Except.ok (replaceFirst (root ++ rest) root []) = _
  rw [replaceFirst_append]
  rfl

theorem not_isFullPath_of_head {rest : Str} (hrest : rest.head? ≠ some '/') :
    ¬ rootDirPath <+: rest := by
  rintro ⟨tail, rfl⟩
  exact hrest rfl

/-- A relative path is joined to a folder by appending it. -/
theorem joinPaths_relative (hroot : root.getLast? = some '/') {rest : Str}
    (hrest : rest.head? ≠ some '/') : joinPaths root rest = root ++ rest := by
  have hpre : withoutPreSlash rest = rest := by
    cases rest with
    | nil => rfl
    | cons first tail =>
      unfold withoutPreSlash
      split
      · next heq => exact absurd (congrArg some (List.cons.inj heq).1) hrest
      · rfl
  rw [joinPaths, appendSlash_of_getLast? hroot, hpre]

/-- A relative path is made full again. -/
theorem convertToFullPath_relative (htemporary : state.isTemporary = false)
    (hroot : state.currentWorkspacePath = .ok root) {rest : Str} (hrest : rest.head? ≠ some '/') :
    state.convertToFullPath rest = .ok (root ++ rest) := by
  rw [State.convertToFullPath, if_neg (not_isFullPath_of_head hrest), State.getProjectRootPath,
    htemporary, hroot]
  change Except.ok (joinPaths root rest) = _
  rw [joinPaths_relative (isFullPath_of_currentWorkspacePath hroot).2 hrest]

end Workspace

/-! ### The metadata file -/

/-- The hidden folder of a workspace. -/
def metadataDir : Component :=
  ".workspace".toList

/-- The name of the metadata file. -/
def metadataFile : Component :=
  "metadata.json".toList

/-- The folder of a workspace is on the disk, and no other kind of entry is in the way of its
metadata. -/
structure OnDisk (content : Content) (root : Str) (place : List Component) : Prop where
  folderPath : FolderPath content root
  resolve_eq : resolve root = some place
  dirKind : ∀ data, content (place ++ [metadataDir]) ≠ some (.file data)
  fileKind : content (place ++ [metadataDir, metadataFile]) ≠ some .folder

/-- The entries of the metadata with relative paths. -/
def relativeEntries (root : Str) (explorer : ExplorerState) : List ItemMetaEntry :=
  explorer.entries.map fun entry ↦ { entry with path := entry.path.drop root.length }

/-- A loop that fails nowhere. -/
theorem mapM_except_eq_ok {ε α β : Type} {entries : List α} {body : α → Except ε β} {value : α → β}
    (hbody : ∀ entry ∈ entries, body entry = .ok (value entry)) :
    entries.mapM body = .ok (entries.map value) := by
  induction entries with
  | nil => rfl
  | cons first rest ih =>
    rw [List.mapM_cons, hbody first List.mem_cons_self,
      ih fun entry hentry ↦ hbody entry (List.mem_cons_of_mem _ hentry)]
    rfl

section Save

variable {state : State F} {root : Str} {place : List Component}

/-- Writing to a path is writing to the full path. -/
theorem writeFile_of_convertToFullPath {path fullPath : Str}
    (hpath : state.convertToFullPath path = .ok fullPath) (hfull : IsFullPath fullPath) (data : Str)
    (createParents : Bool) :
    PgFs.writeFile system path data createParents state =
      PgFs.writeFile system fullPath data createParents state := by
  have hfirst : convertToFullPath path state = .ok fullPath state :=
    convertToFullPath_eq_ok.mpr ⟨hpath, rfl⟩
  change EStateM.bind (convertToFullPath path) _ state =
    EStateM.bind (convertToFullPath fullPath) _ state
  rw [EStateM.bind, EStateM.bind, hfirst, convertToFullPath_of_isFullPath hfull]

/-- The metadata of a state whose paths are those of items below the workspace. -/
theorem metaFile_eq_ok (htemporary : state.isTemporary = false)
    (hroot : state.currentWorkspacePath = .ok root)
    (hunder : ∀ path ∈ state.explorer.files.keys, root <+: path)
    (hitems : ∀ path ∈ state.explorer.files.keys, state.explorer.files.item path ≠ none) :
    state.metaFile = .ok (relativeEntries root state.explorer) := by
  have hentries : state.explorer.files.keys.mapM state.metaEntry =
      .ok (state.explorer.files.keys.map state.explorer.entry) := by
    refine mapM_except_eq_ok fun path hpath ↦ ?_
    obtain ⟨item, hitem⟩ := Option.ne_none_iff_exists'.mp (hitems path hpath)
    simp [State.metaEntry, hitem, ExplorerState.entry, ExplorerFiles.position]
  have hrelative : (sortMeta state.explorer.tabs
      (state.explorer.files.keys.map state.explorer.entry)).mapM (fun entry ↦ do
        let path ← state.getRelativePath entry.path
        pure { entry with path }) = Except.ok (relativeEntries root state.explorer) := by
    refine mapM_except_eq_ok fun entry hentry ↦ ?_
    obtain ⟨path, hpath, rfl⟩ := mem_entries.mp hentry
    obtain ⟨rest, rfl⟩ := hunder path hpath
    change (state.getRelativePath (root ++ rest) >>= _) = _
    rw [getRelativePath_append htemporary hroot]
    simp [ExplorerState.entry]
  unfold State.metaFile
  rw [hentries]
  exact hrelative

/-- The full path of the metadata file. -/
theorem convertToFullPath_metadataPath (htemporary : state.isTemporary = false)
    (hroot : state.currentWorkspacePath = .ok root) :
    state.convertToFullPath metadataPath = .ok (root ++ metadataPath) :=
  convertToFullPath_relative htemporary hroot (by decide)

/-- `saveMeta` of paths below the workspace writes the entries to the metadata file. -/
theorem saveMeta_eq_writeFile (htemporary : state.isTemporary = false)
    (hroot : state.currentWorkspacePath = .ok root) (hkeys : state.explorer.files.keys ≠ [])
    (hunder : ∀ path ∈ state.explorer.files.keys, root <+: path)
    (hitems : ∀ path ∈ state.explorer.files.keys, state.explorer.files.item path ≠ none) :
    saveMeta system json state = PgFs.writeFile system metadataPath
      (json.stringifyMeta (relativeEntries root state.explorer)) true state := by
  have hvalid : ¬ (state.explorer.files.keys.any fun path ↦ !decide (root <+: path)) = true := by
    rw [List.any_eq_true]
    rintro ⟨path, hmem, hnot⟩
    rw [Bool.not_eq_true', decide_eq_false_iff_not] at hnot
    exact hnot (hunder path hmem)
  obtain ⟨first, rest, hname⟩ : ∃ first rest, state.currentWorkspaceName = some (first :: rest) := by
    unfold State.currentWorkspacePath at hroot
    split at hroot
    · cases hroot
    · cases hroot
    · next name hne hname =>
      obtain ⟨first, rest, rfl⟩ := List.exists_cons_of_ne_nil hne
      exact ⟨first, rest, hname⟩
  have hfirst : currentWorkspacePath state = .ok root state := evaluate_eq_ok.mpr ⟨hroot, rfl⟩
  have hsecond : evaluate State.metaFile state = .ok (relativeEntries root state.explorer) state :=
    evaluate_eq_ok.mpr ⟨metaFile_eq_ok htemporary hroot hunder hitems, rfl⟩
  unfold saveMeta
  rw [get_bind_apply]
  simp only [hname, if_neg hkeys]
  change EStateM.bind currentWorkspacePath _ state = _
  rw [EStateM.bind, hfirst]
  dsimp only
  rw [if_neg hvalid]
  change EStateM.bind (evaluate State.metaFile) _ state = _
  rw [EStateM.bind, hsecond]

/-- Assumes: a lawful file system. `saveMeta` writes the entries to the metadata file and changes
nothing else. -/
theorem saveMeta_eq_ok (hlawful : system.Lawful content) (hdisk : OnDisk (content state.disk) root place)
    (htemporary : state.isTemporary = false) (hroot : state.currentWorkspacePath = .ok root)
    (hkeys : state.explorer.files.keys ≠ [])
    (hunder : ∀ path ∈ state.explorer.files.keys, root <+: path)
    (hitems : ∀ path ∈ state.explorer.files.keys, state.explorer.files.item path ≠ none) :
    ∃ disk, saveMeta system json state = .ok () { state with disk } ∧
      content disk = addHidden (content state.disk) place metadataDir metadataFile
        (json.stringifyMeta (relativeEntries root state.explorer)) := by
  obtain ⟨hfull, hslash⟩ := isFullPath_of_currentWorkspacePath hroot
  obtain ⟨front, rfl⟩ := exists_eq_append_slash hslash
  have hparts : pathParts (front ++ ['/']) = pathParts front := by
    rw [pathParts, List.splitOn_append_cons_self, List.filter_append, pathParts]
    simp
  have hfront : FolderPath (content state.disk) front := by
    have hpath := hdisk.folderPath
    rwa [FolderPath, hparts] at hpath
  have hplace : resolve front = some place := by
    rw [← hdisk.resolve_eq, resolve_append_trailing]
  have hpath : front ++ ['/'] ++ metadataPath =
      front ++ '/' :: metadataDir ++ '/' :: metadataFile := by
    rw [List.append_assoc, List.append_assoc]
    rfl
  have hmetaFull : IsFullPath (front ++ '/' :: metadataDir ++ '/' :: metadataFile) :=
    hpath ▸ isFullPath_append hfull metadataPath
  obtain ⟨disk, hwrite, hwritten⟩ := writeFile_hidden hlawful hfull hfront hplace (by decide)
    (by decide) (by decide) hdisk.dirKind hdisk.fileKind
    (json.stringifyMeta (relativeEntries (front ++ ['/']) state.explorer))
  refine ⟨disk, ?_, hwritten⟩
  have hconvert := convertToFullPath_metadataPath htemporary hroot
  rw [hpath] at hconvert
  rw [saveMeta_eq_writeFile htemporary hroot hkeys hunder hitems,
    writeFile_of_convertToFullPath hconvert hmetaFull]
  exact hwrite

/-- The entries that the text of a metadata file lists, with full paths. -/
def fullEntries (json : Json) (root data : Str) : List ItemMetaEntry :=
  ((json.parseMeta data).getD (.entries [])).toEntries.map fun entry ↦
    { entry with
      path := if rootDirPath <+: entry.path then entry.path else joinPaths root entry.path }

/-- Relative entries that have been written are read with full paths. -/
theorem fullEntries_stringifyMeta (hjson : json.RoundTrips) (hroot : root.getLast? = some '/')
    {entries : List ItemMetaEntry} (hentries : ∀ entry ∈ entries, entry.path.head? ≠ some '/') :
    fullEntries json root (json.stringifyMeta entries) =
      entries.map fun entry ↦ { entry with path := root ++ entry.path } := by
  rw [fullEntries, hjson.parseMeta_stringifyMeta]
  refine List.map_congr_left fun entry hentry ↦ ?_
  rw [if_neg (not_isFullPath_of_head (hentries entry hentry)),
    joinPaths_relative hroot (hentries entry hentry)]

/-- The place of the metadata file. -/
theorem resolve_metadataPath (hroot : root.getLast? = some '/') (hplace : resolve root = some place) :
    resolve (root ++ metadataPath) = some (place ++ [metadataDir, metadataFile]) := by
  obtain ⟨front, rfl⟩ := exists_eq_append_slash hroot
  rw [resolve_append_trailing] at hplace
  have hsplit : front ++ ['/'] ++ metadataPath =
      front ++ '/' :: metadataDir ++ '/' :: metadataFile := by
    rw [List.append_assoc, List.append_assoc]
    rfl
  have hdir : IsComponent metadataDir := by decide
  have hname : IsComponent metadataFile := by decide
  rw [hsplit, resolve_append_slash_name _ hname.2.2.2, resolve_append_slash_name _ hdir.2.2.2,
    hplace, Option.bind_some, resolveStep_of_isComponent hdir, Option.bind_some,
    resolveStep_of_isComponent hname, List.append_assoc]
  rfl

/-- Assumes: a lawful file system. The entries of a metadata file are read, with full paths. -/
theorem readMeta_of_file (hlawful : system.Lawful content) (hplace : resolve root = some place)
    (htemporary : state.isTemporary = false) (hroot : state.currentWorkspacePath = .ok root)
    {data : Str} (hfile : content state.disk (place ++ [metadataDir, metadataFile]) =
      some (.file data)) :
    readMeta system json state = .ok (fullEntries json root data) state := by
  have hslash := (isFullPath_of_currentWorkspacePath hroot).2
  have hread : PgFs.readToString system metadataPath state = .ok data state :=
    bind_eq_ok.mpr ⟨root ++ metadataPath, state,
      convertToFullPath_eq_ok.mpr ⟨convertToFullPath_metadataPath htemporary hroot, rfl⟩,
      readDisk_eq_ok.mpr
        ⟨hlawful.readFile_found (resolve_metadataPath hslash hplace) hfile, rfl⟩⟩
  have hparsed : PgFs.readToJSONOrDefault system json.parseMeta metadataPath (.entries []) state =
      .ok ((json.parseMeta data).getD (.entries [])) state := by
    have hdata : (do
        let data ← PgFs.readToString system metadataPath
        pure ((json.parseMeta data).getD (.entries [])) : Action F MetaFile) state =
          .ok ((json.parseMeta data).getD (.entries [])) state :=
      bind_eq_ok.mpr ⟨_, state, hread, rfl⟩
    change EStateM.tryCatch _ _ state = _
    rw [EStateM.tryCatch, hdata]
  refine bind_eq_ok.mpr ⟨_, state, hparsed, ?_⟩
  refine mapM_eq_ok fun entry _ ↦ ?_
  refine bind_eq_ok.mpr ⟨_, state, convertToFullPath_eq_ok.mpr ⟨?_, rfl⟩, rfl⟩
  unfold State.convertToFullPath
  split
  · rfl
  · rw [State.getProjectRootPath, htemporary, hroot]
    rfl

/-- The relative entries of paths below the workspace are the entries. -/
theorem map_relativeEntries {explorer : ExplorerState}
    (hunder : ∀ path ∈ explorer.files.keys, LiesUnder root path) :
    (∀ entry ∈ relativeEntries root explorer, entry.path.head? ≠ some '/') ∧
      ((relativeEntries root explorer).map fun entry ↦ { entry with path := root ++ entry.path }) =
        explorer.entries := by
  constructor
  · intro entry hentry
    obtain ⟨full, hfull, rfl⟩ := List.mem_map.mp hentry
    obtain ⟨path, hpath, rfl⟩ := mem_entries.mp hfull
    obtain ⟨rest, rfl, hrest⟩ := hunder path hpath
    simpa [ExplorerState.entry] using hrest
  · rw [relativeEntries, List.map_map]
    refine (List.map_congr_left fun entry hentry ↦ ?_).trans (List.map_id _)
    obtain ⟨path, hpath, rfl⟩ := mem_entries.mp hentry
    obtain ⟨rest, rfl, -⟩ := hunder path hpath
    simp [ExplorerState.entry]

/-- Assumes: a lawful file system. The files of a workspace that is on the disk are loaded. -/
theorem loadFiles_eq_ok (hlawful : system.Lawful content) (hroot : state.currentWorkspacePath = .ok root)
    (hplace : resolve root = some place) (hfolder : content state.disk place = some .folder) :
    ∃ files, loadFiles system state = .ok () (state.withFiles files) ∧
      Loaded (content state.disk) root place state.explorer.files files := by
  have hfull := (isFullPath_of_currentWorkspacePath hroot).1
  obtain ⟨files, hrun, hloaded⟩ := setupFiles_eq_ok hlawful (system.height state.disk + 1) state root
    place hfull hplace hfolder (by omega)
  refine ⟨files, bind_eq_ok.mpr ⟨root, state, evaluate_eq_ok.mpr ⟨hroot, rfl⟩, ?_⟩, hloaded⟩
  rw [get_bind_apply]
  exact hrun

end Save

/-! ### The hidden folder -/

section Hidden

variable {disk before : Content} {place : List Component} {data : List Char}

/-- A place reached through valid names is not in the hidden folder. -/
theorem addHidden_of_valid {names : List Component}
    (hvalid : ∀ name ∈ names, isItemNameValid name = true) :
    addHidden before place metadataDir metadataFile data (place ++ names) =
      before (place ++ names) := by
  have hdir : isItemNameValid metadataDir = false := by decide
  have hne : ∀ rest, place ++ names ≠ place ++ metadataDir :: rest := by
    intro rest heq
    have hnames := List.append_cancel_left heq
    have hmem := hvalid metadataDir (hnames ▸ List.mem_cons_self)
    rw [hdir] at hmem
    cases hmem
  rw [addHidden, Function.update_of_ne (hne _), addFolder, Function.update_of_ne (hne _)]

/-- The hidden folder is no item of the workspace. -/
theorem lists_file_addHidden_iff {root path : Str} {text : Str} :
    Lists (addHidden before place metadataDir metadataFile data) root place path ⟨some text, none⟩ ↔
      Lists before root place path ⟨some text, none⟩ := by
  have hshows : ∀ (content : Content) (found : List Component),
      Shows content found ⟨some text, none⟩ ↔ content found = some (.file text) := by
    intro content found
    constructor
    · rintro (⟨data, hfile, hitem⟩ | ⟨-, -, hitem⟩)
      · cases hitem
        exact hfile
      · cases hitem
    · exact fun hfile ↦ .inl ⟨text, hfile, rfl⟩
  unfold Lists
  refine exists_congr fun names ↦ and_congr_right fun hvalid ↦ and_congr_right fun _ ↦ ?_
  rw [hshows, hshows, addHidden_of_valid hvalid]

end Hidden

/-- What has been loaded has no positions yet. -/
theorem position_of_loaded {before : Content} {root : Str} {place : List Component}
    {files : ExplorerFiles} (hloaded : Loaded before root place .empty files) (path : Str) :
    files.position path = none := by
  by_cases hlists : ∃ item, Lists before root place path item
  · obtain ⟨item, names, hvalid, hpath, hshows⟩ := hlists
    have hlookup := hloaded.listed path item ⟨names, hvalid, hpath, hshows⟩
    rw [ExplorerFiles.position, ExplorerFiles.item, hlookup]
    rcases hshows with ⟨data, -, rfl⟩ | ⟨-, -, rfl⟩
    · rfl
    · rfl
  · have hlookup := hloaded.others path fun item hitem ↦ hlists ⟨item, hitem⟩
    rw [ExplorerFiles.position, ExplorerFiles.item, hlookup]
    rfl

/-- Assumes: a lawful file system, and a `JSON` that reads back what it writes. A workspace that is on
the disk, whose tabs are distinct keys of its files, with a current file if there are tabs, and whose
paths lie under it, is saved by `saveMeta` so that `_initCurrentWorkspace` restores the tabs in their
order, the current file, and the position of every file; and every file below the workspace on the
disk before is a file of the restored state. -/
theorem saveMeta_restores (hlawful : system.Lawful content) (hjson : json.RoundTrips)
    {state : State F} {root : Str} {place : List Component}
    (hdisk : OnDisk (content state.disk) root place) (htemporary : state.isTemporary = false)
    (hroot : state.currentWorkspacePath = .ok root) (hnodup : state.explorer.tabs.Nodup)
    (htabs : ∀ tab ∈ state.explorer.tabs, tab ∈ state.explorer.files.keys)
    (hcurrent : state.explorer.currentFilePath = none →
      state.explorer.tabs = [] ∧ state.explorer.files.keys ≠ [])
    (hunder : ∀ path ∈ state.explorer.files.keys, LiesUnder root path)
    (hitems : ∀ path ∈ state.explorer.files.keys, state.explorer.files.item path ≠ none) :
    ∃ saved after, saveMeta system json state = .ok () saved ∧
      initCurrentWorkspace system json saved = .ok () after ∧
      after.explorer.tabs = state.explorer.tabs ∧
      after.explorer.currentFilePath = state.explorer.currentFilePath ∧
      (∀ path, after.explorer.files.content path ≠ none →
        after.explorer.files.position path = state.explorer.files.position path) ∧
      ∀ path data, Lists (content state.disk) root place path ⟨some data, none⟩ →
        after.explorer.files.content path = some data := by
  have hkeys : state.explorer.files.keys ≠ [] := by
    cases hpath : state.explorer.currentFilePath with
    | none => exact (hcurrent hpath).2
    | some path =>
      exact List.ne_nil_of_mem (htabs path (mem_tabs_of_currentFilePath hpath))
  have hprefix : ∀ path ∈ state.explorer.files.keys, root <+: path := by
    intro path hpath
    obtain ⟨rest, rfl, -⟩ := hunder path hpath
    exact List.prefix_append root rest
  obtain ⟨disk, hsave, hwritten⟩ := @saveMeta_eq_ok _ system json content _ _ _ hlawful hdisk htemporary hroot hkeys
    hprefix hitems
  let saved : State F := { state with disk }
  let emptied : State F := { saved with explorer := { saved.explorer with files := .empty } }
  have hfolder : content disk place = some .folder := by
    obtain ⟨place', hplace', hfolder⟩ := hdisk.folderPath.exists_place hlawful
    obtain rfl := Option.some.inj (hdisk.resolve_eq.symm.trans hplace')
    have hkept := @addHidden_of_valid (content state.disk) place
      (json.stringifyMeta (relativeEntries root state.explorer)) [] (by simp)
    rw [List.append_nil] at hkept
    rw [hwritten, hkept, hfolder]
  have hemptied : emptied.currentWorkspacePath = .ok root := hroot
  obtain ⟨files, hload, hloaded⟩ := loadFiles_eq_ok hlawful hemptied hdisk.resolve_eq hfolder
  have hfile : content disk (place ++ [metadataDir, metadataFile]) =
      some (.file (json.stringifyMeta (relativeEntries root state.explorer))) := by
    rw [hwritten, addHidden_file_self]
  obtain ⟨hrelative, hentries⟩ := map_relativeEntries hunder
  have hmeta : readMeta system json (emptied.withFiles files) =
      .ok state.explorer.entries (emptied.withFiles files) := by
    have hslash := (isFullPath_of_currentWorkspacePath hroot).2
    rw [← hentries, ← fullEntries_stringifyMeta hjson hslash hrelative]
    exact @readMeta_of_file _ system json content (emptied.withFiles files) root place hlawful
      hdisk.resolve_eq htemporary hroot _ hfile
  have hlists : ∀ path data, Lists (content state.disk) root place path ⟨some data, none⟩ →
      files.content path = some data := by
    intro path data hlists
    rw [← lists_file_addHidden_iff, ← hwritten] at hlists
    rw [ExplorerFiles.content, ExplorerFiles.item, hloaded.listed path _ hlists]
    rfl
  have hworkspace : saved.hasWorkspace = true := by
    by_contra hnone
    rw [State.currentWorkspacePath, State.currentWorkspaceName, if_neg hnone] at hroot
    cases hroot
  have hinit := @initCurrentWorkspaceWith_of_loaded _ _ json (deleteWorkspace system json) _ _
    hworkspace hload
  by_cases hnames : (emptied.withFiles files).explorer.files.keys = [] ∧
      (emptied.withFiles files).allWorkspaceNames.getD [] = []
  · rw [if_pos hnames] at hinit
    have hempty : ∀ path, files.content path = none := by
      intro path
      have hkeysNil : files.keys = [] := hnames.1
      have hnone : files.lookup path = none :=
        OrderedMap.lookup_eq_none_iff.mpr (by rw [hkeysNil]; exact List.not_mem_nil)
      rw [ExplorerFiles.content, ExplorerFiles.item, hnone]
      rfl
    exact ⟨saved, emptied.withFiles files, hsave, hinit, rfl, rfl,
      fun path hcontent ↦ absurd (hempty path) hcontent, hlists⟩
  · have hinit := initCurrentWorkspaceWith_eq_ok (deleteWorkspace system json) hworkspace hload hnames
      hmeta
    obtain ⟨hrestoredTabs, hrestoredCurrent⟩ := applyMeta_entries (emptied.withFiles files).explorer
      hnodup htabs fun hnone ↦ (hcurrent hnone).1
    refine ⟨saved, _, hsave, hinit, hrestoredTabs, hrestoredCurrent, fun path hcontent ↦ ?_,
      fun path data hlisted ↦ ?_⟩
    · rw [content_applyMeta] at hcontent
      have hposition : files.position path = none := position_of_loaded hloaded path
      rw [position_applyMeta _ _ hcontent]
      change lastPosition _ (files.position path) path = _
      rw [hposition, lastPosition_entries]
    · rw [content_applyMeta]
      exact hlists path data hlisted

/-! ### A workspace with a file -/

/-- A workspace `ws` whose folder is empty. -/
def emptyWorkspace : State FileTree :=
  finalState (PgFs.createDir fileTrees "/ws/".toList true
    { disk := .empty
      explorer := getDefaultState
      isTemporary := false
      hasWorkspace := true
      workspaces := ⟨["ws".toList], some "ws".toList⟩
      initializedWorkspaceName := none
      opened := none })

/-- The workspace after a file has been created. -/
def workspaceWith (path : String) : State FileTree :=
  finalState (newItem fileTrees referenceJson path.toList "let a;".toList .none emptyWorkspace)

/-- The place of the workspace `ws`. -/
def workspacePlace : List Component :=
  ["ws".toList]

/-- The folder of the workspace is on the disk. -/
theorem onDisk_workspaceWith :
    OnDisk (workspaceWith "a.ts").disk.content "/ws/".toList workspacePlace where
  folderPath := by
    have hparts : pathParts "/ws/".toList = workspacePlace := by decide +kernel
    have hstep : resolveStep [] "ws".toList = some workspacePlace := by decide +kernel
    have hfolder : (workspaceWith "a.ts").disk.content workspacePlace = some .folder := by
      decide +kernel
    rw [FolderPath, hparts]
    exact ⟨workspacePlace, hstep, hfolder, trivial⟩
  resolve_eq := by decide +kernel
  dirKind := by
    intro data hfile
    have hfolder : (workspaceWith "a.ts").disk.content (workspacePlace ++ [metadataDir]) =
        some .folder := by
      decide +kernel
    rw [hfolder] at hfile
    cases hfile
  fileKind := by
    intro hfolder
    have hkind : ((workspaceWith "a.ts").disk.content
        (workspacePlace ++ [metadataDir, metadataFile])).map Node.kind = some .file := by
      decide +kernel
    rw [hfolder] at hkind
    cases hkind

/-- A workspace with one file, which is open, is saved and restored. -/
theorem saveMeta_restores_workspaceWith :
    ∃ saved after, saveMeta fileTrees referenceJson (workspaceWith "a.ts") = .ok () saved ∧
      initCurrentWorkspace fileTrees referenceJson saved = .ok () after ∧
      after.explorer.tabs = ["/ws/a.ts".toList] := by
  have hkeys : (workspaceWith "a.ts").explorer.files.keys = ["/ws/a.ts".toList] := by decide +kernel
  have htabs : (workspaceWith "a.ts").explorer.tabs = ["/ws/a.ts".toList] := by decide +kernel
  have hitem : (workspaceWith "a.ts").explorer.files.item "/ws/a.ts".toList ≠ none := by
    decide +kernel
  obtain ⟨saved, after, hsave, hinit, hrestored, -⟩ :=
    saveMeta_restores lawful_fileTrees referenceJson_roundTrips onDisk_workspaceWith
      (by decide +kernel) (by decide +kernel) (by decide +kernel)
      (by rw [hkeys, htabs]; exact fun _ ↦ id)
      (by intro hnone; exact absurd hnone (by decide +kernel))
      (by
        rw [hkeys]
        intro path hpath
        exact ⟨"a.ts".toList, List.mem_singleton.mp hpath, by decide⟩)
      (by
        rw [hkeys]
        intro path hpath
        rw [List.mem_singleton.mp hpath]
        exact hitem)
  exact ⟨saved, after, hsave, hinit, hrestored.trans htabs⟩

/-- Tabs are not restored wherever the paths begin with that of the workspace: a file that is created
under the path `/ws//a.ts` has the relative path `/a.ts`, which is taken for a full path. -/
theorem not_restores_of_slash :
    ¬ ∀ (state : State FileTree) (root : Str) (saved after : State FileTree),
      state.isTemporary = false → state.currentWorkspacePath = .ok root →
        state.explorer.tabs.Nodup →
        (∀ tab ∈ state.explorer.tabs, tab ∈ state.explorer.files.keys) →
        (∃ current ∈ state.explorer.tabs, state.explorer.currentFilePath = some current) →
        (∀ path ∈ state.explorer.files.keys, root <+: path) →
        saveMeta fileTrees referenceJson state = .ok () saved →
        initCurrentWorkspace fileTrees referenceJson saved = .ok () after →
          after.explorer.tabs = state.explorer.tabs := by
  intro hall
  have hkeys : (workspaceWith "/ws//a.ts").explorer.files.keys = ["/ws//a.ts".toList] := by
    decide +kernel
  have htabs : (workspaceWith "/ws//a.ts").explorer.tabs = ["/ws//a.ts".toList] := by
    decide +kernel
  have hcurrent : (workspaceWith "/ws//a.ts").explorer.currentFilePath =
      some "/ws//a.ts".toList := by
    decide +kernel
  have hprefix : "/ws/".toList <+: "/ws//a.ts".toList := by decide
  have hsave : saveMeta fileTrees referenceJson (workspaceWith "/ws//a.ts") =
      .ok () (finalState (saveMeta fileTrees referenceJson (workspaceWith "/ws//a.ts"))) :=
    eq_ok_finalState (by decide +kernel)
  have hinit : initCurrentWorkspace fileTrees referenceJson
      (finalState (saveMeta fileTrees referenceJson (workspaceWith "/ws//a.ts"))) =
      .ok () (finalState (initCurrentWorkspace fileTrees referenceJson
        (finalState (saveMeta fileTrees referenceJson (workspaceWith "/ws//a.ts"))))) :=
    eq_ok_finalState (by decide +kernel)
  have hrestored := hall _ "/ws/".toList _ _ (by decide +kernel) (by decide +kernel)
    (by decide +kernel) (by rw [hkeys, htabs]; exact fun _ ↦ id)
    ⟨"/ws//a.ts".toList, by rw [htabs]; exact List.mem_cons_self, hcurrent⟩
    (by
      rw [hkeys]
      intro path hpath
      rw [List.mem_singleton.mp hpath]
      exact hprefix)
    hsave hinit
  rw [htabs] at hrestored
  exact absurd hrestored (by decide +kernel)

end Playground.Explorer
