import Playground.Explorer.Tabs

/-!
# Closing a file

`Closed` is what `PgExplorer.closeFile` is for: the tab of the path goes, the other tabs stay in order,
and the current file stays the current one; if it is the one that is closed, the tab on its right takes
its place, or the one on its left if it was the last.

The method removes the tab first and reads the current path again afterwards, through the index of
before. When the tabs have moved below that index, it denotes another tab, and a path that is no tab has
the index `-1`, which removes the last tab. `ClosesInOrder` says from the tabs and the index before the
call when this does no harm, and `closed_closeFile_iff` that the method does what it is for exactly then.
The current index may be any integer that denotes a tab, counted from either end.
-/

set_option autoImplicit false
set_option relaxedAutoImplicit false

namespace Playground.Explorer

open Library

variable {F : Type}

/-- The tab on the right of a path, or the one on its left if it is the last. -/
def ExplorerState.neighbour (explorer : ExplorerState) (path : Str) : Option Str :=
  let place := explorer.tabs.idxOf path
  if place + 1 < explorer.tabs.length then explorer.tabs[place + 1]?
  else if place = 0 then none
  else explorer.tabs[place - 1]?

/-- A path has been closed: its tab has gone, and the current file is the one it was or, if that was
closed, its neighbour. -/
structure ExplorerState.Closed (before after : ExplorerState) (path : Str) : Prop where
  tabs : after.tabs = before.tabs.filter fun tab ↦ tab ≠ path
  current : after.currentFilePath =
    if before.currentFilePath = some path then before.neighbour path else before.currentFilePath

/-- The path is a tab. If it is the current one, it is one of the last two, and with the index `-1` there
are at most two. If another tab is the current one, an index from the start denotes one on the left of
the path or the last one, an index from the end one on its right, unless there are two tabs. -/
def ExplorerState.ClosesInOrder (explorer : ExplorerState) (path : Str) : Prop :=
  path ∈ explorer.tabs ∧
    if explorer.currentFilePath = some path then
      if explorer.currentIndex = -1 then explorer.tabs.length ≤ 2
      else explorer.tabs.length ≤ explorer.tabs.idxOf path + 2
    else if 0 ≤ explorer.currentIndex then
      explorer.currentIndex < explorer.tabs.idxOf path ∨
        explorer.currentIndex + 1 = explorer.tabs.length
    else
      (explorer.tabs.idxOf path : ℤ) < explorer.tabs.length + explorer.currentIndex ∨
        explorer.tabs.length = 2

instance (explorer : ExplorerState) (path : Str) : Decidable (explorer.ClosesInOrder path) := by
  unfold ExplorerState.ClosesInOrder
  infer_instance

/-! ### Places -/

section Places

variable {explorer : ExplorerState} {path current : Str}

/-- The place of the current file, which the index counts from the start or from the end. -/
theorem exists_place_of_currentFilePath (hcurrent : explorer.currentFilePath = some current) :
    ∃ place : ℕ, explorer.tabs[place]? = some current ∧
      (explorer.currentIndex = place ∨
        explorer.currentIndex = (place : ℤ) - explorer.tabs.length) := by
  unfold ExplorerState.currentFilePath arrayAt at hcurrent
  split at hcurrent
  · exact ⟨explorer.currentIndex.toNat, hcurrent, .inl (by omega)⟩
  · split at hcurrent
    · exact ⟨(explorer.tabs.length + explorer.currentIndex).toNat, hcurrent, .inr (by omega)⟩
    · cases hcurrent

/-- Assumes: distinct tabs. Tabs are the same at two places only if the places are. -/
theorem getElem?_tabs_eq_iff (hnodup : explorer.tabs.Nodup) {first second : ℕ}
    (hlt : second < explorer.tabs.length) :
    explorer.tabs[first]? = explorer.tabs[second]? ↔ first = second := by
  refine ⟨fun heq ↦ ?_, fun heq ↦ by rw [heq]⟩
  exact ((List.getElem?_inj hlt hnodup).mp heq.symm).symm

/-- Where an index from the start points to after a tab has been removed. -/
theorem currentFilePath_spliceTab_of_start (hnodup : explorer.tabs.Nodup) {place index : ℕ}
    (hplace : explorer.tabs[place]? = some path) (hindex : explorer.currentIndex = index)
    (hlt : index < explorer.tabs.length) (hne : index ≠ place) :
    (explorer.spliceTab path).currentFilePath =
      explorer.tabs[if index < place ∨ index + 1 = explorer.tabs.length then index
        else index + 1]? := by
  have hplaceLt := (List.getElem?_eq_some_iff.mp hplace).1
  have hlength := length_spliceOne (List.mem_of_getElem? hplace)
  rw [currentFilePath_spliceTab, tabs_spliceTab, hindex, arrayAt_natCast, List.getLast?_eq_getElem?,
    hlength, getElem?_spliceOne hnodup hplace, getElem?_spliceOne hnodup hplace]
  by_cases hleft : index < place
  · rw [if_pos hleft, if_pos (Or.inl hleft), List.getElem?_eq_getElem hlt, Option.some_or]
  · rw [if_neg hleft]
    by_cases hlast : index + 1 = explorer.tabs.length
    · have hprevious : explorer.tabs.length - 1 - 1 + 1 = index := by omega
      rw [if_pos (Or.inr hlast), List.getElem?_eq_none (by omega), Option.none_or,
        if_neg (by omega), hprevious]
    · rw [if_neg (by omega), List.getElem?_eq_getElem (by omega), Option.some_or,
        if_neg (by omega), List.getElem?_eq_getElem]

/-- Where an index from the end points to after a tab has been removed. -/
theorem currentFilePath_spliceTab_of_end (hnodup : explorer.tabs.Nodup) {place index : ℕ}
    (hplace : explorer.tabs[place]? = some path)
    (hindex : explorer.currentIndex = (index : ℤ) - explorer.tabs.length)
    (hlt : index < explorer.tabs.length) (hne : index ≠ place) :
    (explorer.spliceTab path).currentFilePath =
      explorer.tabs[if place < index then index
        else if index = 0 then
          if place + 1 = explorer.tabs.length then explorer.tabs.length - 2
          else explorer.tabs.length - 1
        else index - 1]? := by
  have hplaceLt := (List.getElem?_eq_some_iff.mp hplace).1
  have hlength := length_spliceOne (List.mem_of_getElem? hplace)
  rw [currentFilePath_spliceTab, tabs_spliceTab, hindex, arrayAt, if_neg (by omega), hlength,
    List.getLast?_eq_getElem?, hlength]
  by_cases hzero : index = 0
  · have hright : ¬ place < index := by omega
    rw [if_neg (by omega), Option.none_or, getElem?_spliceOne hnodup hplace, if_neg hright,
      if_pos hzero]
    by_cases hlast : place + 1 = explorer.tabs.length
    · have hleft : explorer.tabs.length - 1 - 1 < place := by omega
      rw [if_pos hleft, if_pos hlast]
      congr 1
    · have hleft : ¬ explorer.tabs.length - 1 - 1 < place := by omega
      have hplaceEq : explorer.tabs.length - 1 - 1 + 1 = explorer.tabs.length - 1 := by omega
      rw [if_neg hleft, if_neg hlast, hplaceEq]
  · have hbefore : (((explorer.tabs.length - 1 : ℕ) : ℤ) +
        ((index : ℤ) - explorer.tabs.length)).toNat = index - 1 := by omega
    rw [if_pos (by omega), hbefore, getElem?_spliceOne hnodup hplace]
    by_cases hleft : place < index
    · rw [if_neg (by omega), Nat.sub_add_cancel (by omega), if_pos hleft,
        List.getElem?_eq_getElem hlt, Option.some_or]
    · have hbelow : index - 1 < explorer.tabs.length := by omega
      rw [if_pos (by omega), if_neg hleft, if_neg hzero, List.getElem?_eq_getElem hbelow,
        Option.some_or]

end Places

/-! ### Leaving the current file -/

section Leaving

variable {state : State F} {path : Str}

/-- While there is a current file, closing splices the tab out after the current one has been left. -/
theorem explorer_closeFile (hcurrent : state.explorer.currentFilePath ≠ none) :
    (state.closeFile path).explorer = (state.leaveFile path).explorer.spliceTab path := by
  have hleft : (state.leaveFile path).explorer.currentFilePath.isSome := by
    rw [Option.isSome_iff_ne_none]
    unfold State.leaveFile
    split
    · split
      · rw [currentFilePath_openFile]
        exact Option.some_ne_none _
      · exact hcurrent
    · exact hcurrent
  rw [State.closeFile, if_pos hleft]

/-- The tab that is opened when the current one is left and there is another one: the one on its right,
or the one on its left if it is the last, unless the index is `-1`, whose successor is that of the first
tab. -/
theorem pathToOpen_eq {explorer : ExplorerState} {place : ℕ}
    (hlt : place < explorer.tabs.length) (hlength : 2 ≤ explorer.tabs.length)
    (hindex : explorer.currentIndex = place ∨
      explorer.currentIndex = (place : ℤ) - explorer.tabs.length) :
    explorer.pathToOpen = explorer.tabs[if place + 1 < explorer.tabs.length then place + 1
      else if explorer.currentIndex = -1 then 0 else place - 1]? := by
  by_cases hnext : place + 1 < explorer.tabs.length
  · have hat : arrayAt explorer.tabs (explorer.currentIndex + 1) = explorer.tabs[place + 1]? := by
      rcases hindex with hindex | hindex
      · rw [hindex]
        exact arrayAt_natCast _ (place + 1)
      · have hplace : ((explorer.tabs.length : ℤ) + ((place : ℤ) - explorer.tabs.length + 1)).toNat =
            place + 1 := by omega
        rw [hindex, arrayAt, if_neg (by omega), if_pos (by omega), hplace]
    rw [ExplorerState.pathToOpen, hat, if_pos hnext, List.getElem?_eq_getElem hnext, Option.some_or]
  · rw [if_neg hnext, ExplorerState.pathToOpen]
    rcases hindex with hindex | hindex
    · have hbefore : ((explorer.tabs.length : ℤ) + -2).toNat = place - 1 := by omega
      have hnone : arrayAt explorer.tabs ((place : ℤ) + 1) = none :=
        (arrayAt_natCast _ (place + 1)).trans (List.getElem?_eq_none (by omega))
      rw [if_neg (by omega), hindex, hnone, Option.none_or, arrayAt, if_neg (by omega),
        if_pos (by omega), hbefore]
    · have hminus : explorer.currentIndex = -1 := by omega
      rw [if_pos hminus, hminus]
      change (explorer.tabs[0]?).or _ = _
      rw [List.getElem?_eq_getElem (by omega), Option.some_or]

/-- The only tab is closed: no tab is left, and no current file. -/
theorem closed_of_single (hcurrent : state.explorer.currentFilePath = some path)
    (hlength : state.explorer.tabs.length = 1) :
    state.explorer.Closed (state.closeFile path).explorer path := by
  have htabs : state.explorer.tabs = [path] := by
    obtain ⟨tab, htab⟩ := List.length_eq_one_iff.mp hlength
    have hmem := mem_tabs_of_currentFilePath hcurrent
    rw [htab, List.mem_singleton] at hmem
    rw [htab, hmem]
  have hafter : (state.closeFile path).explorer.tabs = [] := by
    rw [explorer_closeFile (by rw [hcurrent]; exact Option.some_ne_none _), tabs_spliceTab,
      tabs_leaveFile, spliceOne_indexOf (mem_tabs_of_currentFilePath hcurrent), htabs]
    simp
  refine ⟨by rw [hafter, htabs, List.filter_cons_of_neg (by simp), List.filter_nil], ?_⟩
  rw [currentFilePath_of_tabs_nil hafter, if_pos hcurrent, ExplorerState.neighbour, htabs]
  simp

end Leaving

/-! ### Closing -/

section Closing

variable {state : State F} {path : Str}

/-- Assumes: distinct tabs. The current file is closed, and there is another tab. -/
theorem closed_current_iff (hnodup : state.explorer.tabs.Nodup)
    (hcurrent : state.explorer.currentFilePath = some path)
    (hlength : 2 ≤ state.explorer.tabs.length) :
    (state.closeFile path).explorer.currentFilePath = state.explorer.neighbour path ↔
      if state.explorer.currentIndex = -1 then state.explorer.tabs.length ≤ 2
      else state.explorer.tabs.length ≤ state.explorer.tabs.idxOf path + 2 := by
  obtain ⟨place, hplace, hindex⟩ := exists_place_of_currentFilePath hcurrent
  obtain ⟨hlt, hpath⟩ := List.getElem?_eq_some_iff.mp hplace
  have hidx : state.explorer.tabs.idxOf path = place := by rw [← hpath, hnodup.idxOf_getElem]
  obtain ⟨target, htarget⟩ : ∃ target : ℕ, target =
      if place + 1 < state.explorer.tabs.length then place + 1
      else if state.explorer.currentIndex = -1 then 0 else place - 1 := ⟨_, rfl⟩
  have htargetLt : target < state.explorer.tabs.length := by
    rw [htarget]
    split
    · assumption
    · split <;> omega
  have htargetNe : target ≠ place := by
    rw [htarget]
    split
    · omega
    · split <;> omega
  have hleft : (state.leaveFile path).explorer =
      ⟨state.explorer.files, state.explorer.tabs, target⟩ := by
    have hopen : state.explorer.pathToOpen = some state.explorer.tabs[target] :=
      (pathToOpen_eq hlt hlength hindex).trans
        ((congrArg _ htarget.symm).trans (List.getElem?_eq_getElem htargetLt))
    rw [State.leaveFile, if_pos hcurrent, hopen]
    refine explorer_openFile_of_place hnodup (List.getElem?_eq_getElem htargetLt) ?_
    rw [hcurrent]
    intro heq
    have hsame : state.explorer.tabs[place]? = state.explorer.tabs[target]? := by
      rw [hplace, heq, List.getElem?_eq_getElem htargetLt]
    exact htargetNe ((getElem?_tabs_eq_iff hnodup htargetLt).mp hsame).symm
  have hafter := @currentFilePath_spliceTab_of_start
    ⟨state.explorer.files, state.explorer.tabs, target⟩ path hnodup place target hplace rfl
    htargetLt htargetNe
  have hneighbour : state.explorer.neighbour path = state.explorer.tabs[
      if place + 1 < state.explorer.tabs.length then place + 1 else place - 1]? := by
    rw [ExplorerState.neighbour, hidx]
    by_cases hnext : place + 1 < state.explorer.tabs.length
    · rw [if_pos hnext, if_pos hnext]
    · rw [if_neg hnext, if_neg hnext, if_neg (by omega)]
  rw [explorer_closeFile (by rw [hcurrent]; exact Option.some_ne_none _), hleft, hafter, hneighbour,
    getElem?_tabs_eq_iff hnodup (by split <;> omega), hidx]
  change (if target < place ∨ target + 1 = state.explorer.tabs.length then target
    else target + 1) = _ ↔ _
  by_cases hnext : place + 1 < state.explorer.tabs.length
  · rw [if_pos hnext] at htarget
    have hminus : state.explorer.currentIndex ≠ -1 := by omega
    rw [htarget, if_pos hnext, if_neg hminus]
    split <;> omega
  · rw [if_neg hnext] at htarget
    rw [if_neg hnext]
    by_cases hminus : state.explorer.currentIndex = -1
    · rw [if_pos hminus] at htarget
      rw [htarget, if_pos hminus]
      split <;> omega
    · rw [if_neg hminus] at htarget
      rw [htarget, if_neg hminus]
      split <;> omega

/-- Assumes: distinct tabs. A tab is closed that is not the current file. -/
theorem closed_other_iff (hnodup : state.explorer.tabs.Nodup) {current : Str}
    (hcurrent : state.explorer.currentFilePath = some current) (hne : current ≠ path)
    (hpath : path ∈ state.explorer.tabs) :
    (state.closeFile path).explorer.currentFilePath = some current ↔
      if 0 ≤ state.explorer.currentIndex then
        state.explorer.currentIndex < state.explorer.tabs.idxOf path ∨
          state.explorer.currentIndex + 1 = state.explorer.tabs.length
      else
        (state.explorer.tabs.idxOf path : ℤ) <
            state.explorer.tabs.length + state.explorer.currentIndex ∨
          state.explorer.tabs.length = 2 := by
  have hother : state.explorer.currentFilePath ≠ some path := by
    rw [hcurrent]
    exact fun heq ↦ hne (Option.some.inj heq)
  obtain ⟨index, hfound, hindex⟩ := exists_place_of_currentFilePath hcurrent
  have hlt := (List.getElem?_eq_some_iff.mp hfound).1
  have hplaceLt := List.idxOf_lt_length_of_mem hpath
  have hplace : state.explorer.tabs[state.explorer.tabs.idxOf path]? = some path := by
    rw [List.getElem?_eq_getElem hplaceLt, List.getElem_idxOf]
  have hplaceNe : index ≠ state.explorer.tabs.idxOf path := by
    intro heq
    rw [heq, hplace] at hfound
    exact hne (Option.some.inj hfound).symm
  have hleave : state.leaveFile path = state := if_neg hother
  rw [explorer_closeFile (by rw [hcurrent]; exact Option.some_ne_none _), hleave, ← hfound]
  rcases hindex with hindex | hindex
  · have hzero : 0 ≤ state.explorer.currentIndex := by omega
    rw [currentFilePath_spliceTab_of_start hnodup hplace hindex hlt hplaceNe,
      getElem?_tabs_eq_iff hnodup hlt, if_pos hzero]
    split <;> omega
  · have hneg : ¬ 0 ≤ state.explorer.currentIndex := by omega
    rw [currentFilePath_spliceTab_of_end hnodup hplace hindex hlt hplaceNe,
      getElem?_tabs_eq_iff hnodup hlt, if_neg hneg]
    split
    · omega
    · split
      · split <;> omega
      · omega

/-- Assumes: distinct tabs. While a tab is the current one, closing a path does what it is for exactly if
the path closes in order. -/
theorem closed_iff_closesInOrder (hnodup : state.explorer.tabs.Nodup)
    (hcurrent : state.explorer.currentFilePath ≠ none) :
    state.explorer.Closed (state.closeFile path).explorer path ↔
      state.explorer.ClosesInOrder path := by
  obtain ⟨current, hsome⟩ := Option.ne_none_iff_exists'.mp hcurrent
  have hne := List.ne_nil_of_mem (mem_tabs_of_currentFilePath hsome)
  have htabs : (state.closeFile path).explorer.tabs =
      spliceOne state.explorer.tabs (indexOf state.explorer.tabs path) := by
    rw [explorer_closeFile hcurrent, tabs_spliceTab, tabs_leaveFile]
  by_cases hpath : path ∈ state.explorer.tabs
  · rw [spliceOne_eq_filter hnodup hpath] at htabs
    have hiff : state.explorer.Closed (state.closeFile path).explorer path ↔
        (state.closeFile path).explorer.currentFilePath =
          if state.explorer.currentFilePath = some path then state.explorer.neighbour path
          else state.explorer.currentFilePath :=
      ⟨ExplorerState.Closed.current, fun h ↦ ⟨htabs, h⟩⟩
    rw [ExplorerState.ClosesInOrder, and_iff_right hpath]
    by_cases hself : state.explorer.currentFilePath = some path
    · rw [if_pos hself]
      by_cases hlength : state.explorer.tabs.length = 1
      · refine iff_of_true (closed_of_single hself hlength) ?_
        split <;> omega
      · have hpos := List.length_pos_iff.mpr hne
        rw [hiff, if_pos hself]
        exact closed_current_iff hnodup hself (by omega)
    · have hother : current ≠ path := fun heq ↦ hself (heq ▸ hsome)
      rw [hiff, if_neg hself, if_neg hself, hsome]
      exact closed_other_iff hnodup hsome hother hpath
  · refine iff_of_false (fun hclosed ↦ ?_) fun horder ↦ hpath horder.1
    have heq := hclosed.tabs
    have hkept : ∀ tab ∈ state.explorer.tabs, decide (tab ≠ path) = true :=
      fun tab htab ↦ decide_eq_true fun hsame ↦ hpath (hsame ▸ htab)
    rw [htabs, spliceOne_indexOf_of_notMem hpath, List.filter_eq_self.mpr hkept] at heq
    have hshorter := congrArg List.length heq
    rw [List.length_dropLast] at hshorter
    have hpos := List.length_pos_iff.mpr hne
    omega

end Closing

/-- Assumes: distinct tabs, one of which is the current file. A call of `closeFile` closes its path, the
full path of what it is given, exactly if that closes in order. -/
theorem closed_closeFile_iff {state : State F} {path fullPath : Str}
    (hnodup : state.explorer.tabs.Nodup) (hcurrent : state.explorer.currentFilePath ≠ none)
    (hfull : state.convertToFullPath path = .ok fullPath) :
    ∃ after, closeFile path state = .ok () after ∧
      (state.explorer.Closed after.explorer fullPath ↔
        state.explorer.ClosesInOrder fullPath) := by
  have hcall : closeFile path state = .ok () (state.closeFile fullPath) := by
    change EStateM.bind (convertToFullPath path) _ state = _
    simp only [EStateM.bind, convertToFullPath, evaluate, hfull]
    rfl
  exact ⟨_, hcall, closed_iff_closesInOrder hnodup hcurrent⟩

/-- A temporary project without files whose tabs are those given. -/
def stateWithTabs (tabs : List Str) (currentIndex : ℤ) : State Unit where
  disk := ()
  explorer := ⟨.empty, tabs, currentIndex⟩
  isTemporary := true
  hasWorkspace := false
  workspaces := .initial
  initializedWorkspaceName := none
  opened := none

/-- The second of three tabs is closed while it is the current one. -/
theorem closed_closeFile_iff_second_of_three :
    ∃ after, closeFile "/b.py".toList
        (stateWithTabs ["/a.py".toList, "/b.py".toList, "/c.py".toList] 1) = .ok () after ∧
      (stateWithTabs ["/a.py".toList, "/b.py".toList, "/c.py".toList] 1).explorer.Closed
        after.explorer "/b.py".toList := by
  obtain ⟨after, hcall, hiff⟩ := @closed_closeFile_iff _
    (stateWithTabs ["/a.py".toList, "/b.py".toList, "/c.py".toList] 1) "/b.py".toList _
    (by decide) (by decide) rfl
  exact ⟨after, hcall, hiff.mpr (by decide)⟩

/-- The first of three tabs is the current file. When it is closed, the third becomes the current
file, not the one on its right. -/
theorem not_closed_closeFile_first_of_three :
    ¬ ∀ (state : State Unit) (path : Str), state.explorer.tabs.Nodup →
      state.explorer.currentFilePath ≠ none → rootDirPath <+: path →
        ∃ after, closeFile path state = .ok () after ∧
          state.explorer.Closed after.explorer path := by
  intro hall
  obtain ⟨after, hcall, hclosed⟩ := hall
    (stateWithTabs ["/a.py".toList, "/b.py".toList, "/c.py".toList] 0) "/a.py".toList (by decide)
    (by decide) (by decide)
  have hafter : after = (stateWithTabs ["/a.py".toList, "/b.py".toList, "/c.py".toList] 0).closeFile
      "/a.py".toList := by
    cases hcall
    rfl
  have hcurrent := hclosed.current
  rw [hafter] at hcurrent
  exact absurd hcurrent (by decide)

end Playground.Explorer
