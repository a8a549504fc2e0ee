import Mathlib.Tactic.Ring
import Playground.Explorer.Items

/-!
# Renaming the items of a folder

`renameItem` renames a folder key by key. `lookup_renameFolder_child` and
`lookup_renameFolder_of_ne` say what the loop does to the files as a whole, and `tabs_renameFolder`
what it does to the tabs, as long as no new path is itself a path below the folder. Two paths below
a folder never get the same new path, whatever the replacement patterns in the new name stand for
(`childPath_injective`): what they add depends on the rest of the path only through its length and
stands before it.
-/

set_option autoImplicit false
set_option relaxedAutoImplicit false

namespace Playground.Explorer

open Library

/-! ### New paths -/

/-- The length of a replacement depends on the text after the match through its length only. -/
theorem length_substitute (found before replacement : Str) :
    ∃ fixed factor : ℕ, ∀ after : Str,
      (substitute found before after replacement).length = fixed + factor * after.length := by
  induction replacement using substitute.induct with
  | case1 rest ih =>
    obtain ⟨fixed, factor, hlength⟩ := ih
    refine ⟨fixed + 1, factor, fun after ↦ ?_⟩
    rw [substitute, List.length_cons, hlength]
    omega
  | case2 rest ih =>
    obtain ⟨fixed, factor, hlength⟩ := ih
    refine ⟨found.length + fixed, factor, fun after ↦ ?_⟩
    rw [substitute, List.length_append, hlength]
    omega
  | case3 rest ih =>
    obtain ⟨fixed, factor, hlength⟩ := ih
    refine ⟨before.length + fixed, factor, fun after ↦ ?_⟩
    rw [substitute, List.length_append, hlength]
    omega
  | case4 rest ih =>
    obtain ⟨fixed, factor, hlength⟩ := ih
    refine ⟨fixed, factor + 1, fun after ↦ ?_⟩
    rw [substitute, List.length_append, hlength]
    ring
  | case5 char rest _ _ _ _ ih =>
    obtain ⟨fixed, factor, hlength⟩ := ih
    refine ⟨fixed + 1, factor, fun after ↦ ?_⟩
    rw [substitute, List.length_cons, hlength]
    · omega
    all_goals assumption
  | case6 => exact ⟨0, 0, fun after ↦ by simp [substitute]⟩

/-- Paths below a folder keep what they have below it. -/
theorem childPath_append (oldPath newPath rest : Str) :
    childPath oldPath newPath (oldPath ++ rest) =
      substitute oldPath [] rest
        (if oldPath.getLast? = some '/' then appendSlash newPath else newPath) ++ rest :=
  replaceFirst_append _ _ _

/-- Paths below a folder get different new paths. -/
theorem childPath_injective {oldPath newPath first second : Str} (hfirst : oldPath <+: first)
    (hsecond : oldPath <+: second)
    (heq : childPath oldPath newPath first = childPath oldPath newPath second) :
    first = second := by
  obtain ⟨rest, rfl⟩ := hfirst
  obtain ⟨other, rfl⟩ := hsecond
  rw [childPath_append, childPath_append] at heq
  obtain ⟨fixed, factor, hlength⟩ := length_substitute oldPath []
    (if oldPath.getLast? = some '/' then appendSlash newPath else newPath)
  have htotal := congrArg List.length heq
  rw [List.length_append, List.length_append, hlength, hlength] at htotal
  have hsame : rest.length = other.length := by
    have hfactor : (factor + 1) * rest.length = (factor + 1) * other.length := by
      rw [add_mul, add_mul, one_mul, one_mul]
      omega
    exact Nat.eq_of_mul_eq_mul_left (Nat.succ_pos factor) hfactor
  rw [(List.append_inj' heq hsame).2]

/-! ### One path -/

/-- The tab of one path replaced by that of another. -/
theorem set_idxOf_eq_map {tabs : List Str} {oldPath : Str} (newPath : Str)
    (hcount : tabs.count oldPath ≤ 1) :
    (if oldPath ∈ tabs then tabs.set (tabs.idxOf oldPath) newPath else tabs) =
      tabs.map fun tab ↦ if tab = oldPath then newPath else tab := by
  have hmap : ∀ {others : List Str}, oldPath ∉ others →
      (others.map fun tab ↦ if tab = oldPath then newPath else tab) = others := by
    intro others hnot
    refine (List.map_congr_left fun tab htab ↦ if_neg ?_).trans (List.map_id' others)
    rintro rfl
    exact hnot htab
  induction tabs with
  | nil => rfl
  | cons tab rest ih =>
    by_cases htab : tab = oldPath
    · subst htab
      have hrest : tab ∉ rest := by
        rw [List.count_cons_self] at hcount
        exact List.count_eq_zero.mp (by omega)
      rw [if_pos List.mem_cons_self, List.idxOf_cons_self, List.set_cons_zero, List.map_cons,
        if_pos rfl, hmap hrest]
    · rw [List.count_cons_of_ne htab] at hcount
      rw [List.map_cons, if_neg htab, ← ih hcount]
      by_cases hmem : oldPath ∈ rest
      · rw [if_pos (List.mem_cons_of_mem _ hmem), if_pos hmem, List.idxOf_cons_ne rest htab,
          List.set_cons_succ]
      · have hnot : oldPath ∉ tab :: rest := by
          rw [List.mem_cons, not_or]
          exact ⟨fun heq ↦ htab heq.symm, hmem⟩
        rw [if_neg hnot, if_neg hmem]

/-- Assumes: the old path is at most once in the tabs, and there only as a file. Renaming one path
renames its tab. -/
theorem tabs_rename {explorer : ExplorerState} {oldPath newPath : Str}
    (hcount : explorer.tabs.count oldPath ≤ 1)
    (htype : oldPath ∈ explorer.tabs → getItemTypeFromPath newPath = .file) :
    (explorer.rename oldPath newPath).tabs =
      explorer.tabs.map fun tab ↦ if tab = oldPath then newPath else tab := by
  rw [← set_idxOf_eq_map newPath hcount]
  unfold ExplorerState.rename
  dsimp only
  by_cases hmem : oldPath ∈ explorer.tabs
  · rw [if_pos hmem, htype hmem]
  · rw [if_neg hmem]
    cases getItemTypeFromPath newPath with
    | file => rfl
    | folder => rfl

/-- The files after one path has been renamed. -/
theorem lookup_rename (explorer : ExplorerState) (oldPath newPath path : Str) :
    (explorer.rename oldPath newPath).files.lookup path =
      if path = newPath then some (explorer.files.item oldPath)
      else if path = oldPath then none else explorer.files.lookup path := by
  change ((explorer.files.erase oldPath).set newPath _).lookup path = _
  rw [OrderedMap.lookup_set, OrderedMap.lookup_erase]

/-! ### The loop -/

section Loop

variable {oldPath newPath : Str} {start explorer : ExplorerState}

/-- No new path is a path below the folder. -/
def ExplorerState.RenameFree (explorer : ExplorerState) (oldPath newPath : Str) : Prop :=
  ∀ key ∈ explorer.files.keys, ∀ other ∈ explorer.files.keys,
    oldPath <+: key → oldPath <+: other → childPath oldPath newPath key ≠ other

/-- Every open tab below the folder is a file under its new path. -/
def ExplorerState.TabsStayFiles (explorer : ExplorerState) (oldPath newPath : Str) : Prop :=
  ∀ tab ∈ explorer.tabs, oldPath <+: tab →
    getItemTypeFromPath (childPath oldPath newPath tab) = .file

/-- What the loop has done after the keys `visited`. -/
structure Renamed (oldPath newPath : Str) (start : ExplorerState) (visited : List Str)
    (explorer : ExplorerState) : Prop where
  child : ∀ key ∈ visited, oldPath <+: key →
    explorer.files.lookup (childPath oldPath newPath key) = some (start.files.item key)
  other : ∀ path, (∀ key ∈ visited, oldPath <+: key → childPath oldPath newPath key ≠ path) →
    explorer.files.lookup path =
      if path ∈ visited ∧ oldPath <+: path then none else start.files.lookup path
  tabs : explorer.tabs = start.tabs.map fun tab ↦
    if tab ∈ visited ∧ oldPath <+: tab then childPath oldPath newPath tab else tab
  index : explorer.currentIndex = start.currentIndex

/-- Before the loop nothing has been done. -/
theorem Renamed.nil (oldPath newPath : Str) (start : ExplorerState) :
    Renamed oldPath newPath start [] start where
  child := by simp
  other := by simp
  tabs := by simp
  index := rfl

/-- A key that is not below the folder is left alone. -/
theorem Renamed.skip {visited : List Str} {key : Str}
    (hrenamed : Renamed oldPath newPath start visited explorer) (hbelow : ¬ oldPath <+: key) :
    Renamed oldPath newPath start (visited ++ [key]) explorer := by
  have hiff : ∀ path : Str, path ∈ visited ++ [key] ∧ oldPath <+: path ↔
      path ∈ visited ∧ oldPath <+: path := by
    intro path
    rw [List.mem_append, List.mem_singleton]
    constructor
    · rintro ⟨hmem | rfl, hpath⟩
      · exact ⟨hmem, hpath⟩
      · exact absurd hpath hbelow
    · rintro ⟨hmem, hpath⟩
      exact ⟨.inl hmem, hpath⟩
  refine ⟨fun other hother hpath ↦ ?_, fun path hpath ↦ ?_, ?_, hrenamed.index⟩
  · exact hrenamed.child other ((hiff other).mp ⟨hother, hpath⟩).1 hpath
  · rw [hrenamed.other path fun other hother hprefix ↦
      hpath other (List.mem_append_left _ hother) hprefix]
    simp only [hiff]
  · rw [hrenamed.tabs]
    simp only [hiff]

/-- A key below the folder is renamed, with its tab. -/
theorem Renamed.rename {visited : List Str} {key : Str}
    (hrenamed : Renamed oldPath newPath start visited explorer)
    (hvisited : ∀ other ∈ visited, other ∈ start.files.keys) (hkey : key ∈ start.files.keys)
    (hnew : key ∉ visited) (hbelow : oldPath <+: key) (hnodup : start.tabs.Nodup)
    (hfree : start.RenameFree oldPath newPath) (hfiles : start.TabsStayFiles oldPath newPath) :
    Renamed oldPath newPath start (visited ++ [key])
      (explorer.rename key (childPath oldPath newPath key)) := by
  -- the new paths of the keys visited so far are neither the key nor its new path
  have hchild : ∀ other ∈ visited, oldPath <+: other →
      childPath oldPath newPath other ≠ key ∧
        childPath oldPath newPath other ≠ childPath oldPath newPath key := by
    intro other hother hprefix
    refine ⟨hfree other (hvisited other hother) key hkey hprefix hbelow, fun heq ↦ hnew ?_⟩
    rwa [← childPath_injective hprefix hbelow heq]
  have hself : childPath oldPath newPath key ≠ key := hfree key hkey key hkey hbelow hbelow
  have hlookup : explorer.files.lookup key = start.files.lookup key := by
    rw [hrenamed.other key fun other hother hprefix ↦ (hchild other hother hprefix).1,
      if_neg fun h ↦ hnew h.1]
  have hitem : explorer.files.item key = start.files.item key := by
    rw [ExplorerFiles.item, ExplorerFiles.item, hlookup]
  -- where a tab is after the keys visited so far
  have hmoved : ∀ tab : Str,
      ((if tab ∈ visited ∧ oldPath <+: tab then childPath oldPath newPath tab else tab) = key) ↔
        tab = key := by
    intro tab
    by_cases htab : tab ∈ visited ∧ oldPath <+: tab
    · rw [if_pos htab]
      constructor
      · exact fun heq ↦ absurd heq (hchild tab htab.1 htab.2).1
      · rintro rfl
        exact absurd htab.1 hnew
    · rw [if_neg htab]
  have htabs : (explorer.rename key (childPath oldPath newPath key)).tabs =
      explorer.tabs.map fun tab ↦ if tab = key then childPath oldPath newPath key else tab := by
    refine tabs_rename ?_ fun hmem ↦ ?_
    · rw [hrenamed.tabs, List.count_eq_countP, List.countP_map]
      refine le_trans (List.countP_mono_left fun tab _ htab ↦ ?_)
        (List.nodup_iff_count_le_one.mp hnodup key)
      simpa [hmoved] using htab
    · rw [hrenamed.tabs, List.mem_map] at hmem
      obtain ⟨tab, htab, heq⟩ := hmem
      rw [hmoved] at heq
      exact hfiles key (heq ▸ htab) hbelow
  refine ⟨fun other hother hprefix ↦ ?_, fun path hpath ↦ ?_, ?_, hrenamed.index⟩
  · rw [lookup_rename]
    rcases List.mem_append.mp hother with hother | hother
    · rw [if_neg (hchild other hother hprefix).2, if_neg (hchild other hother hprefix).1]
      exact hrenamed.child other hother hprefix
    · rw [List.mem_singleton.mp hother, if_pos rfl, hitem]
  · have hne : path ≠ childPath oldPath newPath key :=
      (hpath key (List.mem_append_right _ List.mem_cons_self) hbelow).symm
    rw [lookup_rename, if_neg hne]
    by_cases hpathKey : path = key
    · rw [if_pos hpathKey, if_pos]
      exact ⟨by simp [hpathKey], hpathKey ▸ hbelow⟩
    · rw [if_neg hpathKey, hrenamed.other path fun other hother hprefix ↦
        hpath other (List.mem_append_left _ hother) hprefix]
      simp [hpathKey]
  · rw [htabs, hrenamed.tabs, List.map_map]
    refine List.map_congr_left fun tab htab ↦ ?_
    simp only [Function.comp_apply, hmoved]
    by_cases htabKey : tab = key
    · subst htabKey
      rw [if_pos rfl, if_pos ⟨by simp, hbelow⟩]
    · rw [if_neg htabKey]
      simp [htabKey]

/-- Assumes: distinct tabs, and no new path among the paths below the folder. What the whole loop
does. -/
theorem renamed_renameFolder (hnodup : start.tabs.Nodup)
    (hfree : start.RenameFree oldPath newPath) (hfiles : start.TabsStayFiles oldPath newPath) :
    Renamed oldPath newPath start start.files.keys (start.renameFolder oldPath newPath) := by
  have hloop : ∀ (rest visited : List Str) (explorer : ExplorerState),
      start.files.keys = visited ++ rest → Renamed oldPath newPath start visited explorer →
      Renamed oldPath newPath start start.files.keys
        (rest.foldl (ExplorerState.renameBelow oldPath newPath) explorer) := by
    intro rest
    induction rest with
    | nil =>
      intro visited explorer hkeys hrenamed
      rw [hkeys, List.append_nil]
      exact hrenamed
    | cons key rest ih =>
      intro visited explorer hkeys hrenamed
      have hkey : key ∈ start.files.keys := by simp [hkeys]
      have hvisited : ∀ other ∈ visited, other ∈ start.files.keys := fun other hother ↦ by
        simp [hkeys, hother]
      have hnew : key ∉ visited := by
        have hdistinct := start.files.nodup_keys
        rw [hkeys] at hdistinct
        exact fun hmem ↦ (List.nodup_append.mp hdistinct).2.2 key hmem key List.mem_cons_self rfl
      refine ih (visited ++ [key]) _ (by simp [hkeys]) ?_
      by_cases hbelow : oldPath <+: key
      · have hpresent : key ∈ explorer.files.keys := by
          obtain ⟨value, hvalue⟩ := OrderedMap.mem_keys_iff.mp hkey
          refine OrderedMap.mem_keys_iff.mpr ⟨value, ?_⟩
          rw [hrenamed.other key fun other hother hprefix ↦
            hfree other (hvisited other hother) key hkey hprefix hbelow, if_neg fun h ↦ hnew h.1,
            hvalue]
        rw [ExplorerState.renameBelow, if_pos ⟨hpresent, hbelow⟩]
        exact hrenamed.rename hvisited hkey hnew hbelow hnodup hfree hfiles
      · rw [ExplorerState.renameBelow, if_neg fun h ↦ hbelow h.2]
        exact hrenamed.skip hbelow
  exact hloop start.files.keys [] start rfl (Renamed.nil oldPath newPath start)

end Loop

end Playground.Explorer
