import Playground.Explorer.Closing
import Playground.Explorer.TabRuns

/-!
# Deleting an item

`Deleted` is what `PgExplorer.deleteItem` is for: the item goes with what is below it and with the tabs
of the files that go, the folder that it was in is there, and everything else stays as it was.

What goes is what begins with the path. That is more than the item when it is a file and the name of
another item begins with its path. The tabs are closed one path after the other, and closing a path that
is no tab removes the last tab. The folder that is added back is the one that `getParentPathFromPath`
finds, which is not the parent of an item at the root, nor of a folder with a dot in its name.
`DeletesInOrder` says from the state before the call when none of this does harm, and
`deleted_deleteItem_iff` that an item is deleted exactly then.
-/

set_option autoImplicit false
set_option relaxedAutoImplicit false

namespace Playground.Explorer

open Library

variable {F : Type} {system : FileSystem F} {json : Json}

/-- The path is the item, or is below it if it is a folder. -/
def Within (item path : Str) : Prop :=
  path = item ∨ item.getLast? = some '/' ∧ item <+: path

instance (item path : Str) : Decidable (Within item path) := by
  unfold Within
  infer_instance

/-- The folder that an item is in: its path up to the slash before its name. -/
def parentFolder (item : Str) : Str :=
  let withoutSlash := if item.getLast? = some '/' then item.dropLast else item
  (withoutSlash.reverse.dropWhile (· ≠ '/')).reverse

/-- An item has been deleted: what is within it has gone, its parent is there, everything else is as it
was, and the tabs are those of before but for the files that have gone. -/
structure ExplorerState.Deleted (before after : ExplorerState) (item : Str) : Prop where
  removed : ∀ path, Within item path → path ∉ after.files.keys
  parent : parentFolder item ∈ after.files.keys
  others : ∀ path, ¬ Within item path → path ≠ parentFolder item →
    after.files.lookup path = before.files.lookup path
  tabs : after.tabs = before.tabs.filter fun tab ↦
    ¬ (tab ∈ before.files.keys ∧ Within item tab)

/-- Adding back the folder that `getParentPathFromPath` finds does what adding back the parent does: it is
the parent, or it is another item, which is an empty one already, and the parent is there as well. -/
def ExplorerState.ParentAdded (explorer : ExplorerState) (item : Str) : Prop :=
  getParentPathFromPath item = parentFolder item ∧ ¬ Within item (parentFolder item) ∨
    ¬ Within item (getParentPathFromPath item) ∧
      explorer.files.lookup (getParentPathFromPath item) = some (some .empty) ∧
      parentFolder item ∈ explorer.files.keys ∧ ¬ Within item (parentFolder item)

/-- No path of another item begins with the item's path. The paths that do are all tabs, or all tabs are
such paths. The folder that is added back is the parent. -/
structure ExplorerState.DeletesInOrder (explorer : ExplorerState) (item : Str) : Prop where
  within : ∀ path ∈ explorer.pathsBelow item, Within item path
  tabs : (∀ path ∈ explorer.pathsBelow item, path ∈ explorer.tabs) ∨
    ∀ tab ∈ explorer.tabs, tab ∈ explorer.pathsBelow item
  parent : explorer.ParentAdded item

/-! ### Closing the tabs -/

section Tabs

variable {state : State F}

/-- Closing a path splices it out of the tabs. -/
theorem tabs_closeFile (hvalid : state.explorer.ValidTabs) (path : Str) :
    (state.closeFile path).explorer.tabs =
      spliceOne state.explorer.tabs (indexOf state.explorer.tabs path) := by
  by_cases htabs : state.explorer.tabs = []
  · have hnone := currentFilePath_of_tabs_nil htabs
    have hleft : state.leaveFile path = state :=
      if_neg (by rw [hnone]; exact (Option.some_ne_none path).symm)
    rw [State.closeFile, hleft, hnone, htabs]
    exact htabs
  · obtain ⟨current, hcurrent⟩ := hvalid.exists_currentFilePath htabs
    rw [explorer_closeFile (by rw [hcurrent]; exact Option.some_ne_none _), tabs_spliceTab,
      tabs_leaveFile]

/-- Forgetting paths splices them out of the tabs one after the other. -/
theorem tabs_foldl_forget (hvalid : state.explorer.ValidTabs) (paths : List Str) :
    (paths.foldl State.forget state).explorer.tabs = spliceEach state.explorer.tabs paths ∧
      (paths.foldl State.forget state).explorer.ValidTabs := by
  induction paths generalizing state with
  | nil => exact ⟨rfl, hvalid⟩
  | cons path rest ih =>
    have herased : ({ state with
        explorer := { state.explorer with files := state.explorer.files.erase path } } :
          State F).explorer.ValidTabs := ⟨hvalid.nodup, hvalid.index⟩
    obtain ⟨htabs, hrest⟩ := ih (validTabs_closeFile herased path)
    refine ⟨htabs.trans ?_, hrest⟩
    rw [tabs_closeFile herased]
    rfl

/-- Forgetting paths removes them from the files. -/
theorem lookup_foldl_forget (paths : List Str) (path : Str) :
    (paths.foldl State.forget state).explorer.files.lookup path =
      if path ∈ paths then none else state.explorer.files.lookup path := by
  induction paths generalizing state with
  | nil => simp
  | cons first rest ih =>
    rw [List.foldl_cons, ih, State.forget, files_closeFile, OrderedMap.lookup_erase]
    by_cases hrest : path ∈ rest
    · rw [if_pos hrest, if_pos (List.mem_cons_of_mem _ hrest)]
    · rw [if_neg hrest]
      simp only [List.mem_cons, hrest, or_false]

end Tabs

/-! ### Lengths -/

/-- A path that begins with the item's path and is not longer is within the item. -/
theorem within_of_prefix {item path : Str} (hlength : path.length ≤ item.length)
    (hstart : item <+: path) : Within item path :=
  .inl (hstart.eq_of_length_le hlength).symm

theorem length_appendSlash_le (text : Str) : (appendSlash text).length ≤ text.length + 1 := by
  unfold appendSlash
  split
  · simp
  · split <;> simp

/-- A name more makes a text longer by its length and a slash. -/
theorem length_splitOn (path : Str) :
    ((path.splitOn '/').map fun name ↦ name.length + 1).sum = path.length + 1 := by
  have hjoined : ∀ names : List Str, names ≠ [] →
      (names.map fun name ↦ name.length + 1).sum = (['/'].intercalate names).length + 1 := by
    intro names hnames
    induction names with
    | nil => exact absurd rfl hnames
    | cons first rest ih =>
      cases rest with
      | nil => simp
      | cons next others =>
        rw [List.map_cons, List.sum_cons, ih (List.cons_ne_nil _ _), List.intercalate_cons_cons]
        simp only [List.length_append, List.length_cons, List.length_nil]
        omega
  rw [hjoined _ (List.splitOn_ne_nil '/' path), List.intercalate_splitOn]

/-- The parent that is found is not longer than an absolute path. -/
theorem length_getParentPathFromPath {path : Str} (hslash : '/' ∈ path) :
    (getParentPathFromPath path).length ≤ path.length := by
  have hjoin : ∀ (rest : List Str) (first : Str),
      (rest.foldl (fun parentPath itemName ↦
        if itemName = [] then parentPath else parentPath ++ '/' :: itemName) first).length ≤
      first.length + (rest.map fun name ↦ name.length + 1).sum := by
    intro rest
    induction rest with
    | nil => simp
    | cons name rest ih =>
      intro first
      rw [List.foldl_cons, List.map_cons, List.sum_cons]
      refine (ih _).trans ?_
      split
      · omega
      · simp only [List.length_append, List.length_cons]
        omega
  have hnames := length_splitOn path
  have htwo : 2 ≤ (path.splitOn '/').length := by
    by_contra hfew
    have hne := List.length_pos_iff.mpr (List.splitOn_ne_nil '/' path)
    obtain ⟨name, hname⟩ := List.length_eq_one_iff.mp (by omega : (path.splitOn '/').length = 1)
    have hpath := @List.intercalate_splitOn _ path _ _ '/'
    rw [hname, List.intercalate_singleton] at hpath
    have hmem : name ∈ path.splitOn '/' := by
      rw [hname]
      exact List.mem_singleton_self name
    exact not_mem_of_mem_splitOn name hmem (hpath ▸ hslash)
  have herased : ∀ index < (path.splitOn '/').length,
      (((path.splitOn '/').eraseIdx index).map fun name ↦ name.length + 1).sum ≤ path.length := by
    intro index hindex
    have hsum := ((List.getElem_cons_eraseIdx_perm hindex).map fun name ↦ name.length + 1).sum_nat
    rw [hnames, List.map_cons, List.sum_cons] at hsum
    omega
  have hothers : ∀ (first : Str) (rest : List Str),
      ((first :: rest).map fun name ↦ name.length + 1).sum ≤ path.length →
      (appendSlash (rest.foldl (fun parentPath itemName ↦
        if itemName = [] then parentPath else parentPath ++ '/' :: itemName) first)).length ≤
          path.length := by
    intro first rest hsum
    rw [List.map_cons, List.sum_cons] at hsum
    have happended := length_appendSlash_le (rest.foldl (fun parentPath itemName ↦
      if itemName = [] then parentPath else parentPath ++ '/' :: itemName) first)
    have hjoined := hjoin rest first
    exact happended.trans ((Nat.succ_le_succ hjoined).trans (by omega))
  have hlast := herased ((path.splitOn '/').length - 1) (by omega)
  have hsecond := herased ((path.splitOn '/').length - 2) (by omega)
  unfold getParentPathFromPath
  dsimp only
  rw [if_neg (Nat.not_lt.mpr htwo)]
  -- what is left out is one of the last two names
  cases getItemTypeFromPath path with
  | file =>
    cases hnames : (path.splitOn '/').eraseIdx ((path.splitOn '/').length - 1) with
    | nil => exact Nat.zero_le _
    | cons first rest => exact hothers first rest (hnames ▸ hlast)
  | folder =>
    cases hnames : (path.splitOn '/').eraseIdx ((path.splitOn '/').length - 2) with
    | nil => exact Nat.zero_le _
    | cons first rest => exact hothers first rest (hnames ▸ hsecond)

theorem length_parentFolder (item : Str) : (parentFolder item).length ≤ item.length := by
  have hdrop : ∀ text : Str, ((text.reverse.dropWhile (· ≠ '/')).reverse).length ≤ text.length := by
    intro text
    rw [List.length_reverse]
    exact (List.dropWhile_sublist _).length_le.trans (by rw [List.length_reverse])
  refine (hdrop _).trans ?_
  split
  · rw [List.length_dropLast]
    omega
  · exact Nat.le_refl _

/-! ### The state after an item has been deleted -/

section Delete

variable {state : State F} {item : Str}

/-- The items after one has been deleted. -/
theorem lookup_deleteItem (state : State F) (item path : Str) :
    (state.deleteItem item).explorer.files.lookup path =
      if path = getParentPathFromPath item then some (some .empty)
      else if item <+: path then none
      else state.explorer.files.lookup path := by
  have hdeleted : ((((state.explorer.pathsBelow item).foldl State.forget state).explorer.writeFolder
      (getParentPathFromPath item)).files).lookup path =
        if path = getParentPathFromPath item then some (some .empty)
        else if item <+: path then none
        else state.explorer.files.lookup path := by
    rw [ExplorerState.writeFolder, OrderedMap.lookup_set, lookup_foldl_forget]
    by_cases hstart : item <+: path
    · rw [if_pos hstart]
      by_cases hkey : path ∈ state.explorer.files.keys
      · have hbelow : path ∈ state.explorer.pathsBelow item :=
          List.mem_filter.mpr ⟨hkey, decide_eq_true hstart⟩
        rw [if_pos hbelow]
      · rw [OrderedMap.lookup_eq_none_iff.mpr hkey, ite_self]
    · have hbelow : path ∉ state.explorer.pathsBelow item :=
        fun hmem ↦ hstart (of_decide_eq_true (List.mem_filter.mp hmem).2)
      rw [if_neg hbelow, if_neg hstart]
  unfold State.deleteItem
  simp only
  split
  · split
    · rw [files_openFile]
      exact hdeleted
    · exact hdeleted
  · exact hdeleted

/-- The tabs after an item has been deleted. -/
theorem tabs_deleteItem (hvalid : state.explorer.ValidTabs) (item : Str) :
    (state.deleteItem item).explorer.tabs =
      spliceEach state.explorer.tabs (state.explorer.pathsBelow item) := by
  obtain ⟨htabs, -⟩ := tabs_foldl_forget hvalid (state.explorer.pathsBelow item)
  unfold State.deleteItem
  simp only
  split
  · split
    · next lastTabPath hlast =>
      unfold State.openFile
      split
      · exact htabs
      · exact (tabs_showTab_of_mem (mem_of_arrayAt hlast)).trans htabs
    · exact htabs
  · exact htabs

/-- Assumes: an absolute path. No path that begins with the item's and is not within the item is the
parent, or is found to be. -/
theorem within_of_eq_parent (hslash : '/' ∈ item) {path : Str}
    (hpath : path = parentFolder item ∨ path = getParentPathFromPath item)
    (hstart : item <+: path) : Within item path := by
  refine within_of_prefix ?_ hstart
  rcases hpath with rfl | rfl
  · exact length_parentFolder item
  · exact length_getParentPathFromPath hslash

/-- What begins with the path is within it. -/
theorem prefix_of_within {path : Str} (hwithin : Within item path) : item <+: path := by
  rcases hwithin with rfl | ⟨-, hstart⟩
  · exact List.prefix_refl _
  · exact hstart

/-- The parent is found to be what it is, or what is found is there already. -/
theorem parentAdded_of_deleted (hdeleted : state.explorer.Deleted (state.deleteItem item).explorer item) :
    state.explorer.ParentAdded item := by
  have hadded : getParentPathFromPath item ∈ (state.deleteItem item).explorer.files.keys :=
    OrderedMap.mem_keys_iff.mpr ⟨some .empty, (lookup_deleteItem state item _).trans (if_pos rfl)⟩
  have hparent : ¬ Within item (parentFolder item) := fun h ↦ hdeleted.removed _ h hdeleted.parent
  by_cases heq : getParentPathFromPath item = parentFolder item
  · exact .inl ⟨heq, hparent⟩
  · have hfound : ¬ Within item (getParentPathFromPath item) :=
      fun h ↦ hdeleted.removed _ h hadded
    have hsame := hdeleted.others _ hfound heq
    rw [lookup_deleteItem, if_pos rfl] at hsame
    refine .inr ⟨hfound, hsame.symm, ?_, hparent⟩
    obtain ⟨value, hvalue⟩ := OrderedMap.mem_keys_iff.mp hdeleted.parent
    rw [lookup_deleteItem, if_neg (Ne.symm heq)] at hvalue
    split at hvalue
    · cases hvalue
    · exact OrderedMap.mem_keys_of_lookup hvalue

/-- Assumes: an absolute path, and valid tabs. An item is deleted exactly if it is deleted in order. -/
theorem deleted_iff_deletesInOrder (hvalid : state.explorer.ValidTabs) (hslash : '/' ∈ item) :
    state.explorer.Deleted (state.deleteItem item).explorer item ↔
      state.explorer.DeletesInOrder item := by
  have hbelowNodup : (state.explorer.pathsBelow item).Nodup :=
    state.explorer.files.nodup_keys.filter _
  have hbelow : ∀ path, path ∈ state.explorer.pathsBelow item ↔
      path ∈ state.explorer.files.keys ∧ item <+: path := by
    intro path
    rw [ExplorerState.pathsBelow, List.mem_filter, decide_eq_true_iff]
  have htabs : (∀ path ∈ state.explorer.pathsBelow item, Within item path) →
      ((state.deleteItem item).explorer.tabs = state.explorer.tabs.filter (fun tab ↦
          ¬ (tab ∈ state.explorer.files.keys ∧ Within item tab)) ↔
        (∀ path ∈ state.explorer.pathsBelow item, path ∈ state.explorer.tabs) ∨
          ∀ tab ∈ state.explorer.tabs, tab ∈ state.explorer.pathsBelow item) := by
    intro hwithin
    rw [tabs_deleteItem hvalid]
    refine spliceEach_eq_filter_iff hvalid.nodup hbelowNodup fun tab _ ↦ ?_
    rw [decide_eq_true_iff, hbelow]
    refine not_congr (and_congr_right fun hkey ↦ ⟨prefix_of_within, fun hstart ↦ ?_⟩)
    exact hwithin tab ((hbelow tab).mpr ⟨hkey, hstart⟩)
  constructor
  · intro hdeleted
    have hwithin : ∀ path ∈ state.explorer.pathsBelow item, Within item path := by
      intro path hpath
      obtain ⟨hkey, hstart⟩ := (hbelow path).mp hpath
      by_contra hnot
      have hother : path ≠ parentFolder item ∧ path ≠ getParentPathFromPath item :=
        ⟨fun heq ↦ hnot (within_of_eq_parent hslash (.inl heq) hstart),
          fun heq ↦ hnot (within_of_eq_parent hslash (.inr heq) hstart)⟩
      have hsame := hdeleted.others path hnot hother.1
      rw [lookup_deleteItem, if_neg hother.2, if_pos hstart] at hsame
      exact OrderedMap.lookup_eq_none_iff.mp hsame.symm hkey
    exact ⟨hwithin, (htabs hwithin).mp hdeleted.tabs, parentAdded_of_deleted hdeleted⟩
  · intro horder
    have hlookup := lookup_deleteItem state item
    refine ⟨fun path hwithin hkey ↦ ?_, ?_, fun path hnot hne ↦ ?_,
      (htabs horder.within).mpr horder.tabs⟩
    · obtain ⟨value, hvalue⟩ := OrderedMap.mem_keys_iff.mp hkey
      have hne : path ≠ getParentPathFromPath item := by
        rintro rfl
        rcases horder.parent with ⟨heq, hparent⟩ | ⟨hparent, -⟩
        · exact hparent (heq ▸ hwithin)
        · exact hparent hwithin
      rw [hlookup, if_neg hne, if_pos (prefix_of_within hwithin)] at hvalue
      cases hvalue
    · rw [OrderedMap.mem_keys_iff]
      by_cases heq : parentFolder item = getParentPathFromPath item
      · exact ⟨_, (hlookup _).trans (if_pos heq)⟩
      · rcases horder.parent with ⟨hsame, -⟩ | ⟨-, -, hkey, hparent⟩
        · exact absurd hsame.symm heq
        · obtain ⟨value, hvalue⟩ := OrderedMap.mem_keys_iff.mp hkey
          refine ⟨value, ?_⟩
          rw [hlookup, if_neg heq, if_neg, hvalue]
          exact fun hstart ↦ hparent (within_of_eq_parent hslash (.inl rfl) hstart)
    · rw [hlookup]
      by_cases heq : path = getParentPathFromPath item
      · rcases horder.parent with ⟨hsame, -⟩ | ⟨-, hempty, -⟩
        · exact absurd (heq.trans hsame) hne
        · rw [if_pos heq, heq, hempty]
      · rw [if_neg heq]
        by_cases hkey : path ∈ state.explorer.files.keys
        · have hstart : ¬ item <+: path :=
            fun hstart ↦ hnot (horder.within path ((hbelow path).mpr ⟨hkey, hstart⟩))
          rw [if_neg hstart]
        · rw [OrderedMap.lookup_eq_none_iff.mpr hkey, ite_self]

end Delete

/-! ### Calls of `deleteItem` -/

section Calls

variable {state after : State F}

/-- A full path is absolute. -/
theorem slash_mem_of_convertToFullPath {path fullPath : Str}
    (hfull : state.convertToFullPath path = .ok fullPath) : '/' ∈ fullPath := by
  have hjoin : ∀ first second : Str, '/' ∈ first → '/' ∈ joinPaths first second := by
    intro first second hfirst
    refine List.mem_append_left _ ?_
    unfold appendSlash
    split
    · next hnil => rw [hnil] at hfirst; cases hfirst
    · exact List.mem_append_left _ hfirst
  have hroot : '/' ∈ rootDirPath := by decide
  unfold State.convertToFullPath at hfull
  split at hfull
  · next hstart =>
    cases hfull
    exact hstart.subset hroot
  · unfold State.getProjectRootPath at hfull
    split at hfull
    · cases hfull
      exact hjoin _ _ hroot
    · cases hpath : state.currentWorkspacePath with
      | error error => rw [hpath] at hfull; cases hfull
      | ok root =>
        rw [hpath] at hfull
        cases hfull
        refine hjoin _ _ ?_
        unfold State.currentWorkspacePath at hpath
        split at hpath
        · cases hpath
        · cases hpath
        · cases hpath
          exact hjoin _ _ hroot

/-- A call of `deleteItem` that succeeds deletes the item from the state. -/
theorem explorer_of_deleteItem_ok {path fullPath : Str}
    (hfull : state.convertToFullPath path = .ok fullPath)
    (hcall : deleteItem system json path state = .ok () after) :
    ∃ removed, SameBut state removed ∧
      after.explorer = (removed.deleteItem fullPath).explorer := by
  unfold deleteItem at hcall
  obtain ⟨found, _, hfound, hcall⟩ := bind_eq_ok.mp hcall
  obtain ⟨hsame, rfl⟩ := convertToFullPath_eq_ok.mp hfound
  obtain rfl : fullPath = found := Except.ok.inj (hfull.symm.trans hsame)
  obtain ⟨srcPath, _, hsrc, hcall⟩ := bind_eq_ok.mp hcall
  obtain ⟨-, rfl⟩ := evaluate_eq_ok.mp hsrc
  obtain ⟨_, _, hcheck, hcall⟩ := bind_eq_ok.mp hcall
  obtain ⟨-, rfl⟩ := throwIf_eq_ok.mp hcheck
  rw [get_bind_apply] at hcall
  obtain ⟨_, removed, hremove, hcall⟩ := bind_eq_ok.mp hcall
  have hkept : Keeps (SameBut state) (runIf (!state.isTemporary) (removeItem system fullPath)) :=
    keeps_runIf fun _ ↦ (blind_sameBut state).removeItem fullPath
  have hremoved : SameBut state removed := Triple.of_ok hkept (show SameBut state state from rfl) hremove
  obtain ⟨_, _, hmodify, hsave⟩ := bind_eq_ok.mp hcall
  obtain rfl := modify_eq_ok.mp hmodify
  have hblind : Blind fun other : State F ↦
      other.explorer = (removed.deleteItem fullPath).explorer := fun _ _ h ↦ h
  have hsaved : Keeps _ (saveMeta system json) := hblind.saveMeta
  exact ⟨removed, hremoved, Triple.of_ok hsaved rfl hsave⟩

end Calls

/-- Assumes: valid tabs. A call of `deleteItem` that succeeds deletes the item, the full path of what it
is given, exactly if that is deleted in order. -/
theorem deleted_deleteItem_iff {state after : State F} {path fullPath : Str}
    (hvalid : state.explorer.ValidTabs) (hfull : state.convertToFullPath path = .ok fullPath)
    (hcall : deleteItem system json path state = .ok () after) :
    state.explorer.Deleted after.explorer fullPath ↔ state.explorer.DeletesInOrder fullPath := by
  obtain ⟨removed, hremoved, hafter⟩ := explorer_of_deleteItem_ok hfull hcall
  have hexplorer : removed.explorer = state.explorer := by rw [hremoved]
  rw [hafter, ← hexplorer]
  exact deleted_iff_deletesInOrder (hexplorer ▸ hvalid) (slash_mem_of_convertToFullPath hfull)

/-- A temporary project with empty files at the given paths. -/
def projectWith (paths tabs : List Str) (currentIndex : ℤ) : State FileTree :=
  { temporaryProject with
    explorer := ⟨paths.foldl (fun files path ↦ files.set path (some ⟨some [], some ⟨none⟩⟩)) .empty,
      tabs, currentIndex⟩ }

/-- The state after an item has been deleted from a temporary project. -/
def afterDelete (state : State FileTree) (path : Str) : State FileTree :=
  finalState (deleteItem fileTrees emptyJson path state)

/-- An open file is deleted, and the other one stays. -/
theorem deleted_deleteItem_iff_open_file :
    (projectWith ["/src/a.py".toList, "/src/b.py".toList]
        ["/src/a.py".toList, "/src/b.py".toList] 0).explorer.Deleted
      (afterDelete (projectWith ["/src/a.py".toList, "/src/b.py".toList]
        ["/src/a.py".toList, "/src/b.py".toList] 0) "/src/a.py".toList).explorer "/src/a.py".toList :=
  (@deleted_deleteItem_iff _ fileTrees emptyJson _ _ _ _ ⟨by decide, .inr (by decide)⟩ (by rfl)
    (eq_ok_finalState (by decide))).mpr
      ⟨by decide, .inl (by decide), .inl ⟨by decide, by decide⟩⟩

/-- Deleting a file that is not open closes the tab of another one. -/
theorem not_deleted_of_closed_file :
    ¬ ∀ (state after : State FileTree) (path : Str), state.explorer.ValidTabs →
      path ∈ state.explorer.files.keys → rootDirPath <+: path →
        deleteItem fileTrees emptyJson path state = .ok () after →
          state.explorer.Deleted after.explorer path := by
  intro hall
  have hdeleted := hall (projectWith ["/src/a.py".toList, "/src/b.py".toList] ["/src/a.py".toList] 0)
    _ "/src/b.py".toList ⟨by decide, .inr (by decide)⟩ (by decide) (by decide)
    (eq_ok_finalState (by decide))
  exact absurd hdeleted.tabs (by decide)

end Playground.Explorer
