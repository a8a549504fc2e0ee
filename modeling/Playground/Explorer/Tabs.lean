import Playground.Explorer.Items

/-!
# The tabs and the announced file

`ExplorerState.ValidTabs` is what the list of tabs and the current index are to be among themselves, and
`TabsConsistent` adds the files and the announced file: every tab is a file with content, and
whenever a tab is open the file last handed to `onDidOpenFile` is the one that `currentFilePath`
denotes.

Opening a file and reordering the tabs keep all of it. Closing a file keeps the first part;
`closeFile` reads the current path again after it has removed the tab, and by then the old index may
point to another tab, which becomes the current file without being announced. `CloseSafe` says from
the tabs and the index before the call when that does not happen (`announced_closeFile`).
-/

set_option autoImplicit false
set_option relaxedAutoImplicit false

namespace Playground.Explorer

open Library

variable {F : Type}

/-- The content of the file at a path. -/
def ExplorerFiles.content (files : ExplorerFiles) (path : Str) : Option Str :=
  (files.item path).bind ItemInfo.content

/-- The tabs are distinct, and the current index is `-1` or that of a tab. -/
structure ExplorerState.ValidTabs (explorer : ExplorerState) : Prop where
  nodup : explorer.tabs.Nodup
  index : explorer.currentIndex = -1 ∨
    0 ≤ explorer.currentIndex ∧ explorer.currentIndex < explorer.tabs.length

/-- While a tab is open, the file last announced is the current one. -/
def State.Announced (state : State F) : Prop :=
  state.explorer.tabs ≠ [] → ∃ file : FullFile,
    state.opened = some (some file) ∧ state.explorer.currentFilePath = some file.path

/-- The tabs are distinct files with content, the current index is `-1` or that of a tab, and while
a tab is open the file last announced is the current one. -/
structure TabsConsistent (state : State F) : Prop where
  valid : state.explorer.ValidTabs
  hasContent : ∀ tab ∈ state.explorer.tabs, state.explorer.files.content tab ≠ none
  announced : state.Announced

/-- Closing a path leaves the announced file the current one: the current file is closed at one of
the last two places, or with the index `-1`; another tab is closed to the right of the current one,
or while the last tab is the current one; a path that is not in the tabs is closed while the current
one is not the last. -/
def ExplorerState.CloseSafe (explorer : ExplorerState) (path : Str) : Prop :=
  if explorer.currentFilePath = some path then
    explorer.currentIndex = -1 ∨ (explorer.tabs.length : ℤ) ≤ explorer.currentIndex + 2
  else if path ∈ explorer.tabs then
    explorer.currentIndex ≤ indexOf explorer.tabs path ∨
      explorer.currentIndex + 1 = explorer.tabs.length
  else
    explorer.tabs.length ≤ 1 ∨
      0 ≤ explorer.currentIndex ∧ explorer.currentIndex + 1 < explorer.tabs.length

instance (explorer : ExplorerState) (path : Str) : Decidable (explorer.CloseSafe path) := by
  unfold ExplorerState.CloseSafe
  infer_instance

/-! ### The current file -/

section Current

variable {explorer : ExplorerState}

/-- The current file is a tab. -/
theorem mem_tabs_of_currentFilePath {path : Str} (hcurrent : explorer.currentFilePath = some path) :
    path ∈ explorer.tabs :=
  mem_of_arrayAt hcurrent

/-- Assumes: a valid index. There is a current file as soon as there is a tab. -/
theorem ExplorerState.ValidTabs.exists_currentFilePath (hvalid : explorer.ValidTabs)
    (htabs : explorer.tabs ≠ []) : ∃ path, explorer.currentFilePath = some path := by
  rw [ExplorerState.currentFilePath]
  rcases hvalid.index with hindex | ⟨hzero, hlt⟩
  · rw [hindex, arrayAt_neg_one, List.getLast?_eq_some_getLast htabs]
    exact ⟨_, rfl⟩
  · rw [arrayAt, if_pos hzero, List.getElem?_eq_getElem (by omega)]
    exact ⟨_, rfl⟩

/-- Without tabs there is no current file. -/
theorem currentFilePath_of_tabs_nil (htabs : explorer.tabs = []) :
    explorer.currentFilePath = none := by
  rw [ExplorerState.currentFilePath, htabs, arrayAt_nil]

/-- Assumes: a valid index. The place of the current file in the tabs: the index, or the last place if
the index is `-1`. -/
theorem ExplorerState.ValidTabs.exists_place (hvalid : explorer.ValidTabs) {path : Str}
    (hcurrent : explorer.currentFilePath = some path) :
    ∃ place : ℕ, explorer.tabs[place]? = some path ∧
      (explorer.currentIndex = place ∨
        explorer.currentIndex = -1 ∧ place + 1 = explorer.tabs.length) := by
  rw [ExplorerState.currentFilePath] at hcurrent
  rcases hvalid.index with hindex | ⟨hzero, -⟩
  · rw [hindex, arrayAt_neg_one, List.getLast?_eq_getElem?] at hcurrent
    have hlt := (List.getElem?_eq_some_iff.mp hcurrent).1
    exact ⟨explorer.tabs.length - 1, hcurrent, .inr ⟨hindex, by omega⟩⟩
  · rw [arrayAt, if_pos hzero] at hcurrent
    exact ⟨explorer.currentIndex.toNat, hcurrent, .inl (Int.toNat_of_nonneg hzero).symm⟩

/-- An index that is looked up is a valid one. -/
theorem validTabs_of_indexOf {tabs : List Str} {path : Str} {files : ExplorerFiles}
    (hnodup : tabs.Nodup) (hpath : path ∈ tabs) :
    ExplorerState.ValidTabs ⟨files, tabs, indexOf tabs path⟩ :=
  ⟨hnodup, .inr (indexOf_bounds hpath)⟩

end Current

/-! ### Opening -/

section Opening

variable {state : State F} {path : Str}

/-- Showing a tab keeps the files. -/
@[simp] theorem files_showTab (explorer : ExplorerState) (path : Str) :
    (explorer.showTab path).files = explorer.files :=
  rfl

/-- The tabs after one has been shown. -/
theorem mem_tabs_showTab {explorer : ExplorerState} {tab : Str} :
    tab ∈ (explorer.showTab path).tabs ↔ tab = path ∨ tab ∈ explorer.tabs := by
  change tab ∈ (if path ∈ explorer.tabs then explorer.tabs else explorer.tabs ++ [path]) ↔ _
  by_cases hpath : path ∈ explorer.tabs
  · rw [if_pos hpath]
    exact ⟨.inr, fun h ↦ h.elim (fun heq ↦ heq ▸ hpath) id⟩
  · rw [if_neg hpath, List.mem_append, List.mem_singleton, or_comm]

theorem tabs_showTab_of_mem {explorer : ExplorerState} (hpath : path ∈ explorer.tabs) :
    (explorer.showTab path).tabs = explorer.tabs :=
  if_pos hpath

/-- The shown tab is the current one. -/
theorem currentFilePath_showTab (explorer : ExplorerState) (path : Str) :
    (explorer.showTab path).currentFilePath = some path :=
  arrayAt_indexOf (mem_tabs_showTab.mpr (.inl rfl))

theorem validTabs_showTab {explorer : ExplorerState} (hvalid : explorer.ValidTabs) (path : Str) :
    (explorer.showTab path).ValidTabs := by
  refine validTabs_of_indexOf ?_ (mem_tabs_showTab.mpr (.inl rfl))
  by_cases hpath : path ∈ explorer.tabs
  · rw [if_pos hpath]
    exact hvalid.nodup
  · rw [if_neg hpath]
    exact List.Nodup.append hvalid.nodup (List.nodup_singleton path)
      (List.disjoint_singleton.mpr hpath)

/-- Announcing the current file changes nothing in the explorer. -/
@[simp] theorem explorer_dispatchOnDidOpenFile (state : State F) :
    state.dispatchOnDidOpenFile.explorer = state.explorer :=
  rfl

/-- The current file is announced if it is there. -/
theorem announced_dispatchOnDidOpenFile {current : Str} {content : Str}
    (hcurrent : state.explorer.currentFilePath = some current)
    (hcontent : state.explorer.files.content current = some content) :
    state.dispatchOnDidOpenFile.Announced := by
  obtain ⟨item, hitem, -⟩ := Option.bind_eq_some_iff.mp hcontent
  intro _
  refine ⟨{ item with path := current }, ?_, hcurrent⟩
  change some state.getCurrentFile = _
  rw [State.getCurrentFile, hcurrent, Option.bind_some, State.getFile, hitem]
  rfl

/-- Opening a file keeps the files. -/
@[simp] theorem files_openFile (state : State F) (path : Str) :
    (state.openFile path).explorer.files = state.explorer.files := by
  unfold State.openFile
  split <;> rfl

/-- The opened file is the current one. -/
theorem currentFilePath_openFile (state : State F) (path : Str) :
    (state.openFile path).explorer.currentFilePath = some path := by
  unfold State.openFile
  by_cases hcurrent : state.explorer.currentFilePath = some path
  · rw [if_pos hcurrent, hcurrent]
  · rw [if_neg hcurrent]
    exact currentFilePath_showTab state.explorer path

theorem mem_tabs_openFile {tab : Str} :
    tab ∈ (state.openFile path).explorer.tabs ↔ tab = path ∨ tab ∈ state.explorer.tabs := by
  unfold State.openFile
  by_cases hcurrent : state.explorer.currentFilePath = some path
  · rw [if_pos hcurrent]
    have hpath := mem_tabs_of_currentFilePath hcurrent
    exact ⟨.inr, fun h ↦ h.elim (fun heq ↦ heq ▸ hpath) id⟩
  · rw [if_neg hcurrent]
    exact mem_tabs_showTab

theorem validTabs_openFile (hvalid : state.explorer.ValidTabs) (path : Str) :
    (state.openFile path).explorer.ValidTabs := by
  unfold State.openFile
  split
  · exact hvalid
  · exact validTabs_showTab hvalid path

/-- A file that was not the current one has been announced when it is opened. -/
theorem announced_openFile {content : Str}
    (hcontent : state.explorer.files.content path = some content)
    (hannounced : state.explorer.currentFilePath = some path → state.Announced) :
    (state.openFile path).Announced := by
  unfold State.openFile
  by_cases hcurrent : state.explorer.currentFilePath = some path
  · rw [if_pos hcurrent]
    exact hannounced hcurrent
  · rw [if_neg hcurrent]
    exact announced_dispatchOnDidOpenFile (currentFilePath_showTab state.explorer path) hcontent

/-- Opening a file with content keeps the tabs consistent, and makes them so if only the announced
file was wrong and another file is opened. -/
theorem tabsConsistent_openFile (hvalid : state.explorer.ValidTabs)
    (htabs : ∀ tab ∈ state.explorer.tabs, state.explorer.files.content tab ≠ none)
    (hcontent : state.explorer.files.content path ≠ none)
    (hannounced : state.explorer.currentFilePath = some path → state.Announced) :
    TabsConsistent (state.openFile path) := by
  obtain ⟨content, hsome⟩ := Option.ne_none_iff_exists'.mp hcontent
  refine ⟨validTabs_openFile hvalid path, fun tab htab ↦ ?_, announced_openFile hsome hannounced⟩
  rw [files_openFile]
  rcases mem_tabs_openFile.mp htab with rfl | htab
  · exact hcontent
  · exact htabs tab htab

end Opening

/-! ### Closing -/

section Closing

variable {explorer : ExplorerState} {path : Str}

/-- The tabs after one has been spliced out. -/
theorem tabs_spliceTab (explorer : ExplorerState) (path : Str) :
    (explorer.spliceTab path).tabs = spliceOne explorer.tabs (indexOf explorer.tabs path) :=
  rfl

/-- After a tab has been spliced out, the current file is what the old index points to then, or
else the last tab. -/
theorem currentFilePath_spliceTab (explorer : ExplorerState) (path : Str) :
    (explorer.spliceTab path).currentFilePath =
      (arrayAt (explorer.spliceTab path).tabs explorer.currentIndex).or
        (explorer.spliceTab path).tabs.getLast? := by
  unfold ExplorerState.spliceTab ExplorerState.currentFilePath
  dsimp only
  cases hcurrent : arrayAt (spliceOne explorer.tabs (indexOf explorer.tabs path))
      explorer.currentIndex with
  | none => exact arrayAt_neg_one _
  | some current => exact arrayAt_indexOf (mem_of_arrayAt hcurrent)

theorem validTabs_spliceTab (hvalid : explorer.ValidTabs) (path : Str) :
    (explorer.spliceTab path).ValidTabs := by
  let spliced := spliceOne explorer.tabs (indexOf explorer.tabs path)
  have hnodup : spliced.Nodup := hvalid.nodup.sublist (spliceOne_sublist _ _)
  refine ⟨hnodup, ?_⟩
  unfold ExplorerState.spliceTab ExplorerState.currentFilePath
  dsimp only
  cases hcurrent : arrayAt (spliceOne explorer.tabs (indexOf explorer.tabs path))
      explorer.currentIndex with
  | none => exact .inl rfl
  | some current => exact .inr (indexOf_bounds (mem_of_arrayAt hcurrent))

/-- Assumes: distinct tabs. The current file stays the current one when a tab to its right is
spliced out. -/
theorem currentFilePath_spliceTab_of_lt (hnodup : explorer.tabs.Nodup) {place index : ℕ}
    {current : Str} (hplace : explorer.tabs[place]? = some path)
    (hindex : explorer.currentIndex = index) (hcurrent : explorer.tabs[index]? = some current)
    (hlt : index < place) : (explorer.spliceTab path).currentFilePath = some current := by
  rw [currentFilePath_spliceTab, tabs_spliceTab, hindex, arrayAt_natCast,
    getElem?_spliceOne hnodup hplace, if_pos hlt, hcurrent, Option.some_or]

/-- Assumes: distinct tabs. When another tab is spliced out and the old index points to none after
that, the last tab is the current file. -/
theorem currentFilePath_spliceTab_of_last (hnodup : explorer.tabs.Nodup) {place : ℕ}
    {current : Str} (hplace : explorer.tabs[place]? = some path)
    (hcurrent : explorer.tabs.getLast? = some current) (hne : path ≠ current)
    (hindex : explorer.currentIndex = -1 ∨ explorer.currentIndex + 1 = explorer.tabs.length) :
    (explorer.spliceTab path).currentFilePath = some current := by
  have hpath : path ∈ explorer.tabs := List.mem_of_getElem? hplace
  have hlength := length_spliceOne hpath
  have hplaceLt : place < explorer.tabs.length := (List.getElem?_eq_some_iff.mp hplace).1
  rw [List.getLast?_eq_getElem?] at hcurrent
  have hplaceNe : place ≠ explorer.tabs.length - 1 := by
    rintro rfl
    exact hne (Option.some.inj (hplace.symm.trans hcurrent))
  have hlast : (explorer.spliceTab path).tabs.getLast? = some current := by
    have hnext : explorer.tabs.length - 1 - 1 + 1 = explorer.tabs.length - 1 := by omega
    rw [List.getLast?_eq_getElem?, tabs_spliceTab, hlength, getElem?_spliceOne hnodup hplace,
      if_neg (by omega), hnext, hcurrent]
  rw [currentFilePath_spliceTab, hlast]
  rcases hindex with hindex | hindex
  · rw [hindex, arrayAt_neg_one, hlast, Option.some_or]
  · obtain ⟨index, hnat⟩ : ∃ index : ℕ, explorer.currentIndex = index :=
      ⟨explorer.tabs.length - 1, by omega⟩
    rw [hnat, arrayAt_natCast, tabs_spliceTab, List.getElem?_eq_none (by omega), Option.none_or]

end Closing

/-! ### Closing a file -/

section CloseFile

variable {state : State F} {path : Str}

/-- Assumes: distinct tabs. Opening another tab moves the index only. -/
theorem explorer_openFile_of_place (hnodup : state.explorer.tabs.Nodup) {place : ℕ}
    (hplace : state.explorer.tabs[place]? = some path)
    (hcurrent : state.explorer.currentFilePath ≠ some path) :
    (state.openFile path).explorer = ⟨state.explorer.files, state.explorer.tabs, place⟩ := by
  have hpath : path ∈ state.explorer.tabs := List.mem_of_getElem? hplace
  have hindex : indexOf state.explorer.tabs path = place := indexOf_of_getElem? hnodup hplace
  rw [State.openFile, if_neg hcurrent, explorer_dispatchOnDidOpenFile, ExplorerState.showTab]
  simp only [if_pos hpath, hindex]

/-- The tab that `closeFile` opens is one of the tabs. -/
theorem mem_tabs_of_pathToOpen {explorer : ExplorerState} {pathToOpen : Str}
    (hopen : explorer.pathToOpen = some pathToOpen) : pathToOpen ∈ explorer.tabs := by
  rcases Option.or_eq_some_iff.mp hopen with h | h
  · exact mem_of_arrayAt h
  · exact mem_of_arrayAt h.2

/-- Leaving the current file keeps the files. -/
@[simp] theorem files_leaveFile (state : State F) (path : Str) :
    (state.leaveFile path).explorer.files = state.explorer.files := by
  unfold State.leaveFile
  split
  · split
    · exact files_openFile _ _
    · rfl
  · rfl

/-- Leaving the current file keeps the tabs. -/
theorem tabs_leaveFile (state : State F) (path : Str) :
    (state.leaveFile path).explorer.tabs = state.explorer.tabs := by
  unfold State.leaveFile
  split
  · split
    · next pathToOpen hopen =>
      unfold State.openFile
      split
      · rfl
      · exact tabs_showTab_of_mem (mem_tabs_of_pathToOpen hopen)
    · rfl
  · rfl

theorem validTabs_leaveFile (hvalid : state.explorer.ValidTabs) (path : Str) :
    (state.leaveFile path).explorer.ValidTabs := by
  unfold State.leaveFile
  split
  · split
    · exact validTabs_openFile hvalid _
    · exact hvalid
  · exact hvalid

/-- Assumes: every other tab has content. The file that is opened when the current one is left is
announced. -/
theorem announced_leaveFile
    (htabs : ∀ tab ∈ state.explorer.tabs, tab ≠ path → state.explorer.files.content tab ≠ none)
    (hannounced : state.Announced) : (state.leaveFile path).Announced := by
  unfold State.leaveFile
  by_cases hcurrent : state.explorer.currentFilePath = some path
  · rw [if_pos hcurrent]
    cases hopen : state.explorer.pathToOpen with
    | none => exact hannounced
    | some pathToOpen =>
      by_cases hself : pathToOpen = path
      · rw [hself]
        change (state.openFile path).Announced
        rwa [State.openFile, if_pos hcurrent]
      · obtain ⟨content, hcontent⟩ := Option.ne_none_iff_exists'.mp
          (htabs pathToOpen (mem_tabs_of_pathToOpen hopen) hself)
        exact announced_openFile hcontent fun _ ↦ hannounced
  · rwa [if_neg hcurrent]

/-- Closing a file keeps the files. -/
@[simp] theorem files_closeFile (state : State F) (path : Str) :
    (state.closeFile path).explorer.files = state.explorer.files := by
  have hleft := files_leaveFile state path
  unfold State.closeFile
  split
  · exact hleft
  · exact hleft

theorem validTabs_closeFile (hvalid : state.explorer.ValidTabs) (path : Str) :
    (state.closeFile path).explorer.ValidTabs := by
  have hleft := validTabs_leaveFile hvalid path
  unfold State.closeFile
  split
  · exact validTabs_spliceTab hleft path
  · exact hleft

/-- A tab that is left after a file has been closed is another one that was there before. -/
theorem mem_tabs_of_closeFile (hvalid : state.explorer.ValidTabs) {tab : Str}
    (htab : tab ∈ (state.closeFile path).explorer.tabs) :
    tab ∈ state.explorer.tabs ∧ tab ≠ path := by
  have hleft := tabs_leaveFile state path
  unfold State.closeFile at htab
  split at htab
  · change tab ∈ spliceOne (state.leaveFile path).explorer.tabs
      (indexOf (state.leaveFile path).explorer.tabs path) at htab
    rw [hleft] at htab
    refine ⟨(spliceOne_sublist _ _).mem htab, ?_⟩
    rintro rfl
    exact notMem_spliceOne hvalid.nodup tab htab
  · next hnone =>
    by_cases htabs : state.explorer.tabs = []
    · rw [hleft, htabs] at htab
      cases htab
    · have hvalidLeft := validTabs_leaveFile hvalid path
      obtain ⟨current, hcurrent⟩ :=
        hvalidLeft.exists_currentFilePath (by rwa [hleft])
      exact absurd (by rw [hcurrent]; rfl) hnone

/-- Assumes: distinct tabs. Two places with one tab are one place. -/
theorem place_inj {tabs : List Str} (hnodup : tabs.Nodup) {first second : ℕ} {tab : Str}
    (hfirst : tabs[first]? = some tab) (hsecond : tabs[second]? = some tab) : first = second := by
  have hindex := (indexOf_of_getElem? hnodup hfirst).symm.trans (indexOf_of_getElem? hnodup hsecond)
  exact_mod_cast hindex

/-- Where `closeFile` goes when it closes the current file, if that is safe and not the only tab:
to a tab on the left of it or to the last one. -/
theorem exists_left_of_current (hvalid : state.explorer.ValidTabs) {place : ℕ}
    (hplace : state.explorer.tabs[place]? = some path)
    (hcurrent : state.explorer.currentFilePath = some path)
    (hsafe : state.explorer.currentIndex = -1 ∨
      (state.explorer.tabs.length : ℤ) ≤ state.explorer.currentIndex + 2)
    (hlength : 2 ≤ state.explorer.tabs.length) :
    ∃ (target : ℕ) (pathToOpen : Str), state.explorer.tabs[target]? = some pathToOpen ∧
      (target < place ∨ place < target ∧ target + 1 = state.explorer.tabs.length) ∧
      (state.leaveFile path).explorer = ⟨state.explorer.files, state.explorer.tabs, target⟩ := by
  obtain ⟨found, hfound, hindex⟩ := hvalid.exists_place hcurrent
  obtain rfl := place_inj hvalid.nodup hfound hplace
  have hlt := (List.getElem?_eq_some_iff.mp hfound).1
  have hopen : ∃ (target : ℕ) (pathToOpen : Str), state.explorer.tabs[target]? = some pathToOpen ∧
      (target < found ∨ found < target ∧ target + 1 = state.explorer.tabs.length) ∧
      state.explorer.pathToOpen = some pathToOpen := by
    rcases hindex with hindex | ⟨hindex, hlast⟩
    · by_cases hnext : found + 1 < state.explorer.tabs.length
      · -- the last but one: the tab on the right is opened
        refine ⟨found + 1, state.explorer.tabs[found + 1], List.getElem?_eq_getElem hnext,
          .inr ⟨by omega, by omega⟩, ?_⟩
        have hcast : (found : ℤ) + 1 = ((found + 1 : ℕ) : ℤ) := by push_cast; rfl
        rw [ExplorerState.pathToOpen, hindex, hcast, arrayAt_natCast,
          List.getElem?_eq_getElem hnext, Option.some_or]
      · -- the last: there is no tab on the right
        have hprev : found - 1 < state.explorer.tabs.length := by omega
        refine ⟨found - 1, state.explorer.tabs[found - 1], List.getElem?_eq_getElem hprev,
          .inl (by omega), ?_⟩
        have hcast : (found : ℤ) + 1 = ((found + 1 : ℕ) : ℤ) := by push_cast; rfl
        have htwo : ((state.explorer.tabs.length : ℤ) + -2).toNat = found - 1 := by omega
        rw [ExplorerState.pathToOpen, hindex, hcast, arrayAt_natCast,
          List.getElem?_eq_none (by omega), Option.none_or, arrayAt, if_neg (by omega),
          if_pos (by omega), htwo, List.getElem?_eq_getElem hprev]
    · -- the index `-1`, whose successor is that of the first tab
      refine ⟨0, state.explorer.tabs[0], List.getElem?_eq_getElem (by omega), .inl (by omega), ?_⟩
      rw [ExplorerState.pathToOpen, hindex, arrayAt, if_pos (by omega)]
      change (state.explorer.tabs[0]?).or _ = _
      rw [List.getElem?_eq_getElem (by omega), Option.some_or]
  obtain ⟨target, pathToOpen, htarget, hside, hopen⟩ := hopen
  refine ⟨target, pathToOpen, htarget, hside, ?_⟩
  rw [State.leaveFile, if_pos hcurrent, hopen]
  refine explorer_openFile_of_place hvalid.nodup htarget ?_
  rw [hcurrent]
  intro heq
  rw [← Option.some.inj heq] at htarget
  have := place_inj hvalid.nodup htarget hfound
  omega

/-- Assumes: distinct tabs. Splicing out the current index's place leaves another tab current as it
was. -/
theorem currentFilePath_spliceTab_of_ne (explorer : ExplorerState) (hnodup : explorer.tabs.Nodup)
    {place target : ℕ} {current : Str} (hplace : explorer.tabs[place]? = some path)
    (hindex : explorer.currentIndex = target) (htarget : explorer.tabs[target]? = some current)
    (hside : target < place ∨ place < target ∧ target + 1 = explorer.tabs.length) :
    (explorer.spliceTab path).currentFilePath = some current := by
  rcases hside with hlt | ⟨hlt, hlast⟩
  · exact currentFilePath_spliceTab_of_lt hnodup hplace hindex htarget hlt
  · have htargetLast : explorer.tabs.getLast? = some current := by
      rw [List.getLast?_eq_getElem?, ← htarget]
      congr 1
      omega
    refine currentFilePath_spliceTab_of_last hnodup hplace htargetLast ?_ (.inr (by omega))
    rintro rfl
    have := place_inj hnodup hplace htarget
    omega

/-- The current file, as it is when the tab is spliced out, stays the current one. -/
theorem currentFilePath_spliceTab_of_safe (hvalid : state.explorer.ValidTabs)
    (hsafe : state.explorer.CloseSafe path)
    (htabs : spliceOne state.explorer.tabs (indexOf state.explorer.tabs path) ≠ []) :
    ((state.leaveFile path).explorer.spliceTab path).currentFilePath =
      (state.leaveFile path).explorer.currentFilePath := by
  have hnodup := hvalid.nodup
  have hlengthPos := List.length_pos_iff.mpr htabs
  have hne : state.explorer.tabs ≠ [] := fun hnil ↦ htabs (by rw [hnil]; rfl)
  obtain ⟨current, hcurrent⟩ := hvalid.exists_currentFilePath hne
  obtain ⟨found, hfound, hindex⟩ := hvalid.exists_place hcurrent
  unfold ExplorerState.CloseSafe at hsafe
  by_cases hself : current = path
  · -- the current file is closed
    subst hself
    rw [if_pos hcurrent] at hsafe
    have hlength : 2 ≤ state.explorer.tabs.length := by
      have hspliced := length_spliceOne (List.mem_of_getElem? hfound)
      omega
    obtain ⟨target, pathToOpen, htarget, hside, hleft⟩ :=
      exists_left_of_current hvalid hfound hcurrent hsafe hlength
    rw [hleft]
    refine (currentFilePath_spliceTab_of_ne ⟨_, state.explorer.tabs, target⟩ hnodup hfound rfl
      htarget hside).trans ?_
    change _ = arrayAt state.explorer.tabs target
    rw [arrayAt_natCast, htarget]
  · have hother : state.explorer.currentFilePath ≠ some path := by
      rw [hcurrent]
      exact fun heq ↦ hself (Option.some.inj heq)
    rw [if_neg hother] at hsafe
    rw [State.leaveFile, if_neg hother, hcurrent]
    by_cases hpath : path ∈ state.explorer.tabs
    · -- another tab is closed
      rw [if_pos hpath] at hsafe
      obtain ⟨place, hplace⟩ := List.mem_iff_getElem?.mp hpath
      rw [indexOf_of_getElem? hnodup hplace] at hsafe
      have hplaceNe : found ≠ place := by
        rintro rfl
        exact hself (Option.some.inj (hfound.symm.trans hplace))
      rcases hindex with hindex | ⟨hindex, hlast⟩
      · exact currentFilePath_spliceTab_of_ne _ hnodup hplace hindex hfound (by omega)
      · refine currentFilePath_spliceTab_of_last hnodup hplace ?_ (Ne.symm hself) (.inl hindex)
        rw [List.getLast?_eq_getElem?, ← hfound]
        congr 1
        omega
    · -- the path is not a tab, and the last tab is spliced out instead
      rw [if_neg hpath] at hsafe
      have hdrop := spliceOne_indexOf_of_notMem hpath
      rw [hdrop, List.length_dropLast] at hlengthPos
      rcases hsafe with hshort | ⟨hzero, hlt⟩
      · omega
      · have hnat : state.explorer.currentIndex = found := by omega
        rw [currentFilePath_spliceTab, tabs_spliceTab, hdrop, hnat, arrayAt_natCast,
          List.getElem?_dropLast, if_pos (by omega), hfound, Option.some_or]

/-- Assumes: every other tab has content. Closing a file where that is safe leaves the announced
file the current one. -/
theorem announced_closeFile (hvalid : state.explorer.ValidTabs)
    (htabs : ∀ tab ∈ state.explorer.tabs, tab ≠ path → state.explorer.files.content tab ≠ none)
    (hannounced : state.Announced) (hsafe : state.explorer.CloseSafe path) :
    (state.closeFile path).Announced := by
  have hleft := announced_leaveFile htabs hannounced
  rw [State.closeFile]
  by_cases hcurrent : (state.leaveFile path).explorer.currentFilePath.isSome
  · rw [if_pos hcurrent]
    intro hrest
    change spliceOne (state.leaveFile path).explorer.tabs _ ≠ [] at hrest
    rw [tabs_leaveFile] at hrest
    have hne : (state.leaveFile path).explorer.tabs ≠ [] := by
      rw [tabs_leaveFile]
      exact fun hnil ↦ hrest (by rw [hnil]; rfl)
    obtain ⟨file, hopened, hfile⟩ := hleft hne
    refine ⟨file, hopened, ?_⟩
    rw [← hfile]
    exact currentFilePath_spliceTab_of_safe hvalid hsafe hrest
  · rwa [if_neg hcurrent]

end CloseFile

end Playground.Explorer
