import Playground.Explorer.FolderRename
import Playground.Explorer.Tabs

/-!
# The tabs under new, renamed and deleted items

What `newItem`, `renameItem` and `deleteItem` do to `TabsConsistent`. A new file always keeps it:
the file that `newItem` closes to refresh it is opened again at once. Renaming announces the current
file at the end, so that only the files behind the tabs are at stake (`RenameSafe`). Deleting closes
every path that it removes, tab or not, and opens the last tab afterwards if the current file is
among them (`DeleteSafe`).
-/

set_option autoImplicit false
set_option relaxedAutoImplicit false

namespace Playground.Explorer

open Library

variable {F : Type} {state : State F}

/-! ### The state without its files -/

/-- Writing an item without content keeps the tabs consistent if it is not an open tab. -/
theorem tabsConsistent_writeFolder {path : Str} (hconsistent : TabsConsistent state)
    (hpath : path ∉ state.explorer.tabs) :
    TabsConsistent { state with explorer := state.explorer.writeFolder path } where
  valid := ⟨hconsistent.valid.nodup, hconsistent.valid.index⟩
  hasContent := by
    intro tab htab
    have hne : tab ≠ path := by
      rintro rfl
      exact hpath htab
    change ((OrderedMap.lookup (state.explorer.files.set path _) tab).join).bind _ ≠ none
    rw [OrderedMap.lookup_set_of_ne _ _ hne]
    exact hconsistent.hasContent tab htab
  announced := hconsistent.announced

/-- Writing a file keeps the tabs consistent. -/
theorem tabsConsistent_writeFile (path content : Str) (hconsistent : TabsConsistent state) :
    TabsConsistent { state with explorer := state.explorer.writeFile path content } where
  valid := ⟨hconsistent.valid.nodup, hconsistent.valid.index⟩
  hasContent := by
    intro tab htab
    change ((OrderedMap.lookup (state.explorer.files.set path _) tab).join).bind _ ≠ none
    by_cases hne : tab = path
    · rw [hne, OrderedMap.lookup_set_self]
      exact Option.some_ne_none content
    · rw [OrderedMap.lookup_set_of_ne _ _ hne]
      exact hconsistent.hasContent tab htab
  announced := hconsistent.announced

/-- A file that has been written has content. -/
theorem content_writeFile (explorer : ExplorerState) (path content : Str) :
    (explorer.writeFile path content).files.content path = some content := by
  change ((OrderedMap.lookup (explorer.files.set path _) path).join).bind _ = _
  rw [OrderedMap.lookup_set_self]
  rfl

/-! ### New items -/

/-- Opening the new file keeps the tabs consistent. -/
theorem tabsConsistent_openNewFile {path : Str} {opts : NewItemOptions}
    (hconsistent : TabsConsistent state)
    (hcontent : state.explorer.files.content path ≠ none) :
    TabsConsistent (state.openNewFile path opts) := by
  unfold State.openNewFile
  by_cases hcurrent : state.explorer.currentFilePath = some path
  · simp only [hcurrent, and_true, or_true, if_true]
    by_cases hoverride : opts.override = true
    · -- the current file is closed, and no tab any more when it is opened again
      rw [if_pos hoverride]
      have hvalid := validTabs_closeFile hconsistent.valid path
      have hmem := fun tab ↦ @mem_tabs_of_closeFile F state path hconsistent.valid tab
      refine tabsConsistent_openFile hvalid (fun tab htab ↦ ?_) ?_ fun hstill ↦ ?_
      · rw [files_closeFile]
        exact hconsistent.hasContent tab (hmem tab htab).1
      · rwa [files_closeFile]
      · exact absurd rfl (hmem path (mem_tabs_of_currentFilePath hstill)).2
    · rw [if_neg hoverride]
      exact tabsConsistent_openFile hconsistent.valid hconsistent.hasContent hcontent
        fun _ ↦ hconsistent.announced
  · simp only [hcurrent, and_false, or_false, if_false]
    by_cases hopen : opts.openOptions.isNone = true
    · rw [if_pos hopen]
      exact tabsConsistent_openFile hconsistent.valid hconsistent.hasContent hcontent
        fun _ ↦ hconsistent.announced
    · rwa [if_neg hopen]

/-- A new file keeps the tabs consistent. -/
theorem tabsConsistent_createFile {path content : Str} {opts : NewItemOptions}
    (hconsistent : TabsConsistent state) :
    TabsConsistent (state.createFile path content opts) := by
  have hcreated := tabsConsistent_writeFile path content hconsistent
  unfold State.createFile
  by_cases hopen : opts.openOptions.all OpenOptions.onlyRefreshIfAlreadyOpen = true
  · simp only [if_pos hopen]
    refine tabsConsistent_openNewFile hcreated ?_
    rw [content_writeFile]
    exact Option.some_ne_none content
  · simpa only [if_neg hopen] using hcreated

/-! ### Deleting -/

/-- Closing the paths one after the other, each removed from the files before, is safe each time. -/
def ForgetsSafely : State F → List Str → Prop
  | _, [] => True
  | state, path :: rest => state.explorer.CloseSafe path ∧ ForgetsSafely (state.forget path) rest

instance : ∀ (paths : List Str) (state : State F), Decidable (ForgetsSafely state paths)
  | [], _ => inferInstanceAs (Decidable True)
  | path :: rest, state =>
    have := instDecidableForgetsSafely rest (state.forget path)
    inferInstanceAs (Decidable (_ ∧ _))

/-- Deleting a path leaves the tabs consistent: its parent folder is not an open tab, and either
every closing is safe, or the current file is deleted and what is current after the closings is not
the last tab, which is then opened. -/
def State.DeleteSafe (state : State F) (fullPath : Str) : Prop :=
  getParentPathFromPath fullPath ∉ state.explorer.tabs ∧
    (ForgetsSafely state (state.explorer.pathsBelow fullPath) ∨
      (∃ current, state.explorer.currentFilePath = some current ∧ fullPath <+: current) ∧
        let forgotten := ((state.explorer.pathsBelow fullPath).foldl State.forget state).explorer
        forgotten.currentFilePath ≠ forgotten.tabs.getLast?)

/-- The tabs are valid, and files with content. -/
structure TabsAreFiles (state : State F) : Prop where
  valid : state.explorer.ValidTabs
  hasContent : ∀ tab ∈ state.explorer.tabs, state.explorer.files.content tab ≠ none

theorem TabsConsistent.tabsAreFiles (hconsistent : TabsConsistent state) : TabsAreFiles state :=
  ⟨hconsistent.valid, hconsistent.hasContent⟩

/-- The content of another path after one has been erased. -/
theorem content_erase_of_ne {files : ExplorerFiles} {path other : Str} (hne : other ≠ path) :
    ExplorerFiles.content (files.erase path) other = files.content other := by
  change ((OrderedMap.lookup (files.erase path) other).join).bind _ = _
  rw [OrderedMap.lookup_erase, if_neg hne]
  rfl

/-- Forgetting a path keeps the other tabs' files. -/
theorem tabsAreFiles_forget (hfiles : TabsAreFiles state) (path : Str) :
    TabsAreFiles (state.forget path) := by
  have hvalid : ExplorerState.ValidTabs
      { state.explorer with files := state.explorer.files.erase path } :=
    ⟨hfiles.valid.nodup, hfiles.valid.index⟩
  refine ⟨validTabs_closeFile hvalid path, fun tab htab ↦ ?_⟩
  obtain ⟨hmem, hne⟩ := mem_tabs_of_closeFile hvalid htab
  rw [State.forget, files_closeFile, content_erase_of_ne hne]
  exact hfiles.hasContent tab hmem

/-- Forgetting a path where closing it is safe leaves the announced file the current one. -/
theorem announced_forget {path : Str} (hfiles : TabsAreFiles state) (hannounced : state.Announced)
    (hsafe : state.explorer.CloseSafe path) : (state.forget path).Announced := by
  have hvalid : ExplorerState.ValidTabs
      { state.explorer with files := state.explorer.files.erase path } :=
    ⟨hfiles.valid.nodup, hfiles.valid.index⟩
  refine announced_closeFile hvalid (fun tab htab hne ↦ ?_) hannounced hsafe
  rw [content_erase_of_ne hne]
  exact hfiles.hasContent tab htab

/-- The tabs left after some paths have been forgotten were there before. -/
theorem mem_tabs_of_foldl_forget {paths : List Str} :
    ∀ {state : State F}, TabsAreFiles state → ∀ {tab : Str},
      tab ∈ (paths.foldl State.forget state).explorer.tabs → tab ∈ state.explorer.tabs := by
  induction paths with
  | nil => exact fun _ _ htab ↦ htab
  | cons path rest ih =>
    intro state hfiles tab htab
    have hnext := ih (tabsAreFiles_forget hfiles path) htab
    have hvalid : ExplorerState.ValidTabs
        { state.explorer with files := state.explorer.files.erase path } :=
      ⟨hfiles.valid.nodup, hfiles.valid.index⟩
    exact (mem_tabs_of_closeFile hvalid hnext).1

theorem tabsAreFiles_foldl_forget {paths : List Str} :
    ∀ {state : State F}, TabsAreFiles state →
      TabsAreFiles (paths.foldl State.forget state) := by
  induction paths with
  | nil => exact fun hfiles ↦ hfiles
  | cons path rest ih => exact fun hfiles ↦ ih (tabsAreFiles_forget hfiles path)

theorem announced_foldl_forget {paths : List Str} :
    ∀ {state : State F}, TabsAreFiles state → state.Announced → ForgetsSafely state paths →
      (paths.foldl State.forget state).Announced := by
  induction paths with
  | nil => exact fun _ hannounced _ ↦ hannounced
  | cons path rest ih =>
    intro state hfiles hannounced hsafe
    exact ih (tabsAreFiles_forget hfiles path) (announced_forget hfiles hannounced hsafe.1) hsafe.2

/-- Assumes: the last tab is opened if the current file has been deleted. Deleting an item keeps the
tabs consistent where that is safe. -/
theorem tabsConsistent_deleteItem {fullPath : Str} (hconsistent : TabsConsistent state)
    (hsafe : state.DeleteSafe fullPath) : TabsConsistent (state.deleteItem fullPath) := by
  obtain ⟨hparent, hclosings⟩ := hsafe
  let forgotten := (state.explorer.pathsBelow fullPath).foldl State.forget state
  have hfiles : TabsAreFiles forgotten := tabsAreFiles_foldl_forget hconsistent.tabsAreFiles
  have hparent' : getParentPathFromPath fullPath ∉ forgotten.explorer.tabs := fun hmem ↦
    hparent (mem_tabs_of_foldl_forget hconsistent.tabsAreFiles hmem)
  let deleted : State F :=
    { forgotten with
      explorer := forgotten.explorer.writeFolder (getParentPathFromPath fullPath) }
  have hannouncedOf : forgotten.Announced → TabsConsistent deleted := fun hannounced ↦
    tabsConsistent_writeFolder ⟨hfiles.valid, hfiles.hasContent, hannounced⟩ hparent'
  have hcontent : ∀ tab ∈ deleted.explorer.tabs, deleted.explorer.files.content tab ≠ none := by
    intro tab htab
    have hne : tab ≠ getParentPathFromPath fullPath := by
      rintro rfl
      exact hparent' htab
    change ((OrderedMap.lookup (forgotten.explorer.files.set _ _) tab).join).bind _ ≠ none
    rw [OrderedMap.lookup_set_of_ne _ _ hne]
    exact hfiles.hasContent tab htab
  have hvalid : deleted.explorer.ValidTabs := ⟨hfiles.valid.nodup, hfiles.valid.index⟩
  unfold State.deleteItem
  dsimp only
  by_cases hbelow : state.explorer.currentFilePath.any fun current ↦ fullPath <+: current
  · rw [if_pos hbelow, arrayAt_neg_one]
    cases hlast : deleted.explorer.tabs.getLast? with
    | none =>
      have hnil : deleted.explorer.tabs = [] := List.getLast?_eq_none_iff.mp hlast
      exact ⟨hvalid, hcontent, fun hne ↦ absurd hnil hne⟩
    | some last =>
      refine tabsConsistent_openFile hvalid hcontent
        (hcontent last (List.mem_of_getLast? hlast)) fun hcurrent ↦ ?_
      rcases hclosings with hclosings | ⟨-, hmoved⟩
      · exact (hannouncedOf (announced_foldl_forget hconsistent.tabsAreFiles
          hconsistent.announced hclosings)).announced
      · exact absurd (hcurrent.trans hlast.symm) hmoved
  · rw [if_neg hbelow]
    rcases hclosings with hclosings | ⟨⟨current, hcurrent, hprefix⟩, -⟩
    · exact hannouncedOf (announced_foldl_forget hconsistent.tabsAreFiles
        hconsistent.announced hclosings)
    · exact absurd (by simp [hcurrent, hprefix]) hbelow

/-! ### Reordering -/

/-- Reordering the tabs keeps them consistent. -/
theorem tabsConsistent_setTabs {tabs : List Str} (hconsistent : TabsConsistent state)
    (hperm : tabs.Perm state.explorer.tabs) :
    TabsConsistent { state with explorer := state.explorer.setTabs tabs } := by
  have hmem : ∀ tab, tab ∈ distinct tabs ↔ tab ∈ state.explorer.tabs := fun tab ↦
    mem_distinct.trans hperm.mem_iff
  by_cases hnil : state.explorer.tabs = []
  · have hempty : tabs = [] := List.perm_nil.mp (hnil ▸ hperm)
    have hcurrent := currentFilePath_of_tabs_nil hnil
    have hindex : state.explorer.currentIndex = -1 := by
      rcases hconsistent.valid.index with hindex | ⟨hzero, hlt⟩
      · exact hindex
      · rw [hnil, List.length_nil] at hlt
        omega
    simp only [ExplorerState.setTabs, hcurrent, hempty]
    exact ⟨⟨nodup_distinct [], .inl hindex⟩, fun tab htab ↦ by simp at htab,
      fun hne ↦ absurd rfl hne⟩
  · obtain ⟨current, hcurrent⟩ := hconsistent.valid.exists_currentFilePath hnil
    have hcurrentMem := (hmem current).mpr (mem_tabs_of_currentFilePath hcurrent)
    simp only [ExplorerState.setTabs, hcurrent]
    refine ⟨validTabs_of_indexOf (nodup_distinct tabs) hcurrentMem, fun tab htab ↦ ?_, fun _ ↦ ?_⟩
    · exact hconsistent.hasContent tab ((hmem tab).mp htab)
    · obtain ⟨file, hopened, hfile⟩ := hconsistent.announced hnil
      refine ⟨file, hopened, ?_⟩
      rw [← hfile, hcurrent]
      exact arrayAt_indexOf hcurrentMem

/-! ### Renaming -/

/-- Renaming leaves the open tabs files with content. For a file: no open tab is the parent folder
of the old path, which becomes an item without content, and an open tab that is replaced is replaced
by a file with content. For a folder: every open tab below it is a file under its new path, no new
path is itself below the folder, and an open tab is replaced by files with content only, and by
another open tab only with the option `override`, which closes the duplicate. -/
def ExplorerState.RenameSafe (explorer : ExplorerState) (oldPath newPath : Str)
    (opts : RenameItemOptions) : Prop :=
  match getItemTypeFromPath oldPath with
  | .file =>
    (∀ tab ∈ explorer.tabs,
      (if tab = oldPath then newPath else tab) ≠ getParentPathFromPath oldPath) ∧
    (newPath ∈ explorer.tabs → explorer.files.content oldPath ≠ none)
  | .folder =>
    explorer.TabsStayFiles oldPath newPath ∧ explorer.RenameFree oldPath newPath ∧
    ∀ key ∈ explorer.files.keys, oldPath <+: key →
      childPath oldPath newPath key ∈ explorer.tabs →
        explorer.files.content key ≠ none ∧ (opts.override = true ∨ key ∉ explorer.tabs)

section Rename

variable {explorer : ExplorerState} {oldPath newPath : Str} {opts : RenameItemOptions}

/-- A path with content is a key. -/
theorem mem_keys_of_content {files : ExplorerFiles} {path : Str} (hcontent : files.content path ≠ none) :
    path ∈ files.keys := by
  by_contra hkey
  rw [← OrderedMap.lookup_eq_none_iff] at hkey
  exact hcontent (by simp [ExplorerFiles.content, ExplorerFiles.item, hkey])

/-- Renaming tabs one by one keeps a valid index. -/
theorem index_of_map_tabs {tabs : List Str} {move : Str → Str} (hvalid : explorer.ValidTabs)
    (htabs : tabs = explorer.tabs.map move) :
    explorer.currentIndex = -1 ∨ 0 ≤ explorer.currentIndex ∧ explorer.currentIndex < tabs.length := by
  rw [htabs, List.length_map]
  exact hvalid.index

/-- Closing duplicate tabs leaves valid ones. -/
theorem validTabs_setTabs
    (hindex : explorer.currentIndex = -1 ∨
      0 ≤ explorer.currentIndex ∧ explorer.currentIndex < explorer.tabs.length) :
    (explorer.setTabs explorer.tabs).ValidTabs := by
  refine ⟨nodup_distinct _, ?_⟩
  unfold ExplorerState.setTabs
  cases hcurrent : explorer.currentFilePath with
  | none =>
    rcases hindex with hindex | ⟨hzero, hlt⟩
    · exact .inl hindex
    · rw [ExplorerState.currentFilePath, arrayAt, if_pos hzero,
        List.getElem?_eq_none_iff] at hcurrent
      omega
  | some current =>
    exact .inr (indexOf_bounds (mem_distinct.mpr (mem_tabs_of_currentFilePath hcurrent)))

/-- Announcing the current file makes the tabs consistent if they are valid and files. -/
theorem tabsConsistent_dispatchOnDidOpenFile (hfiles : TabsAreFiles state) :
    TabsConsistent state.dispatchOnDidOpenFile := by
  refine ⟨hfiles.valid, hfiles.hasContent, fun htabs ↦ ?_⟩
  obtain ⟨current, hcurrent⟩ := hfiles.valid.exists_currentFilePath htabs
  obtain ⟨content, hcontent⟩ := Option.ne_none_iff_exists'.mp
    (hfiles.hasContent current (mem_tabs_of_currentFilePath hcurrent))
  exact announced_dispatchOnDidOpenFile hcurrent hcontent htabs

/-- The tabs and the files behind them after a renaming, before duplicates are closed. -/
structure RenamedTabs (renamed : ExplorerState) (override : Bool) : Prop where
  index : renamed.currentIndex = -1 ∨
    0 ≤ renamed.currentIndex ∧ renamed.currentIndex < renamed.tabs.length
  nodup : override = false → renamed.tabs.Nodup
  hasContent : ∀ tab ∈ renamed.tabs, renamed.files.content tab ≠ none

/-- Renaming a file where that is safe. -/
theorem renamedTabs_file (hvalid : explorer.ValidTabs)
    (hcontent : ∀ tab ∈ explorer.tabs, explorer.files.content tab ≠ none)
    (htype : getItemTypeFromPath newPath = .file) (hold : getItemTypeFromPath oldPath = .file)
    (hsafe : explorer.RenameSafe oldPath newPath opts)
    (hfree : opts.override = false → explorer.files.item newPath = none) :
    RenamedTabs ((explorer.rename oldPath newPath).writeFolder
      (getParentPathFromPath oldPath)) opts.override := by
  simp only [ExplorerState.RenameSafe, hold] at hsafe
  obtain ⟨hparent, hreplaced⟩ := hsafe
  have htabs : (explorer.rename oldPath newPath).tabs =
      explorer.tabs.map fun tab ↦ if tab = oldPath then newPath else tab :=
    tabs_rename (List.nodup_iff_count_le_one.mp hvalid.nodup oldPath) fun _ ↦ htype
  have hnewTab : opts.override = false → newPath ∉ explorer.tabs := fun hoverride hmem ↦
    hcontent newPath hmem (by rw [ExplorerFiles.content, hfree hoverride]; rfl)
  have hindex := index_of_map_tabs hvalid htabs
  refine ⟨hindex, fun hoverride ↦ ?_, fun moved hmoved ↦ ?_⟩
  · change (explorer.rename oldPath newPath).tabs.Nodup
    rw [htabs]
    refine hvalid.nodup.map_on fun first hfirst second hsecond heq ↦ ?_
    have hnot := hnewTab hoverride
    by_cases hone : first = oldPath <;> by_cases htwo : second = oldPath
    · rw [hone, htwo]
    · rw [if_pos hone, if_neg htwo] at heq
      exact absurd (heq ▸ hsecond) hnot
    · rw [if_neg hone, if_pos htwo] at heq
      exact absurd (heq ▸ hfirst) hnot
    · rwa [if_neg hone, if_neg htwo] at heq
  · change moved ∈ (explorer.rename oldPath newPath).tabs at hmoved
    rw [htabs, List.mem_map] at hmoved
    obtain ⟨tab, htab, rfl⟩ := hmoved
    change ((OrderedMap.lookup
      ((explorer.rename oldPath newPath).files.set _ _) _).join).bind _ ≠ none
    rw [OrderedMap.lookup_set_of_ne _ _ (hparent tab htab), lookup_rename]
    by_cases htabOld : tab = oldPath
    · subst htabOld
      rw [if_pos rfl, if_pos rfl]
      exact hcontent tab htab
    · rw [if_neg htabOld]
      by_cases htabNew : tab = newPath
      · subst htabNew
        rw [if_pos rfl]
        exact hreplaced htab
      · rw [if_neg htabNew, if_neg htabOld]
        exact hcontent tab htab

/-- Renaming a folder where that is safe. -/
theorem renamedTabs_folder (hvalid : explorer.ValidTabs)
    (hcontent : ∀ tab ∈ explorer.tabs, explorer.files.content tab ≠ none)
    (hold : getItemTypeFromPath oldPath = .folder)
    (hsafe : explorer.RenameSafe oldPath newPath opts) :
    RenamedTabs (explorer.renameFolder oldPath newPath) opts.override := by
  simp only [ExplorerState.RenameSafe, hold] at hsafe
  obtain ⟨hfiles, hfree, hreplaced⟩ := hsafe
  have hrenamed := renamed_renameFolder hvalid.nodup hfree hfiles
  have hkey : ∀ tab ∈ explorer.tabs, tab ∈ explorer.files.keys := fun tab htab ↦
    mem_keys_of_content (hcontent tab htab)
  refine ⟨?_, fun hoverride ↦ ?_, fun moved hmoved ↦ ?_⟩
  · rw [hrenamed.index]
    exact index_of_map_tabs hvalid hrenamed.tabs
  · rw [hrenamed.tabs]
    refine hvalid.nodup.map_on fun first hfirst second hsecond heq ↦ ?_
    have hnew : ∀ key ∈ explorer.tabs, oldPath <+: key →
        childPath oldPath newPath key ∉ explorer.tabs := by
      intro key hkeyTab hprefix hmem
      rcases (hreplaced key (hkey key hkeyTab) hprefix hmem).2 with h | h
      · rw [hoverride] at h
        cases h
      · exact h hkeyTab
    by_cases hone : oldPath <+: first <;> by_cases htwo : oldPath <+: second
    · rw [if_pos ⟨hkey first hfirst, hone⟩, if_pos ⟨hkey second hsecond, htwo⟩] at heq
      exact childPath_injective hone htwo heq
    · rw [if_pos ⟨hkey first hfirst, hone⟩, if_neg fun h ↦ htwo h.2] at heq
      exact absurd (heq ▸ hsecond) (hnew first hfirst hone)
    · rw [if_neg fun h ↦ hone h.2, if_pos ⟨hkey second hsecond, htwo⟩] at heq
      exact absurd (heq ▸ hfirst) (hnew second hsecond htwo)
    · rwa [if_neg fun h ↦ hone h.2, if_neg fun h ↦ htwo h.2] at heq
  · rw [hrenamed.tabs, List.mem_map] at hmoved
    obtain ⟨tab, htab, rfl⟩ := hmoved
    by_cases hprefix : oldPath <+: tab
    · rw [if_pos ⟨hkey tab htab, hprefix⟩, ExplorerFiles.content, ExplorerFiles.item,
        hrenamed.child tab (hkey tab htab) hprefix]
      exact hcontent tab htab
    · rw [if_neg fun h ↦ hprefix h.2]
      by_cases hover : ∃ key ∈ explorer.files.keys,
          oldPath <+: key ∧ childPath oldPath newPath key = tab
      · obtain ⟨key, hkeyMem, hbelow, rfl⟩ := hover
        rw [ExplorerFiles.content, ExplorerFiles.item, hrenamed.child key hkeyMem hbelow]
        exact (hreplaced key hkeyMem hbelow htab).1
      · rw [ExplorerFiles.content, ExplorerFiles.item, hrenamed.other tab
          fun key hkeyMem hbelow heq ↦ hover ⟨key, hkeyMem, hbelow, heq⟩, if_neg fun h ↦ hprefix h.2]
        exact hcontent tab htab

/-- Renaming an item where that is safe leaves valid tabs that are files. -/
theorem tabsAreFiles_renameItem (hfiles : TabsAreFiles state)
    (htype : getItemTypeFromPath oldPath = getItemTypeFromPath newPath)
    (hsafe : state.explorer.RenameSafe oldPath newPath opts)
    (hfree : opts.override = false →
      state.newPathExists (getItemTypeFromPath oldPath) newPath = false) :
    TabsAreFiles { state with explorer := state.explorer.renameItem oldPath newPath opts } := by
  have hrenamed : ∃ renamed : ExplorerState, RenamedTabs renamed opts.override ∧
      state.explorer.renameItem oldPath newPath opts =
        if opts.override then renamed.setTabs renamed.tabs else renamed := by
    unfold ExplorerState.renameItem
    cases hold : getItemTypeFromPath oldPath with
    | file =>
      refine ⟨_, renamedTabs_file hfiles.valid hfiles.hasContent (htype ▸ hold) hold hsafe
        fun hoverride ↦ ?_, rfl⟩
      have hexists := hfree hoverride
      rw [hold] at hexists
      simpa [State.newPathExists, State.getFile] using hexists
    | folder => exact ⟨_, renamedTabs_folder hfiles.valid hfiles.hasContent hold hsafe, rfl⟩
  obtain ⟨renamed, htabs, heq⟩ := hrenamed
  rw [heq]
  by_cases hoverride : opts.override = true
  · rw [if_pos hoverride]
    refine ⟨validTabs_setTabs htabs.index, fun tab htab ↦ ?_⟩
    exact htabs.hasContent tab (mem_distinct.mp htab)
  · rw [if_neg hoverride]
    exact ⟨⟨htabs.nodup (Bool.not_eq_true _ ▸ hoverride), htabs.index⟩, htabs.hasContent⟩

end Rename

end Playground.Explorer
