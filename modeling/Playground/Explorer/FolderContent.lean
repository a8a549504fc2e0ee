import Playground.Explorer.Metadata

/-!
# The content of a folder

`PgExplorer.getFolderContent` (`client/src/utils/pg/explorer/explorer.ts`) lists the children of a folder:
of every path that begins with that of the folder, the name up to the next slash. A child is there as a
path of its own or because there is a path below it (`IsChild`). Every child is listed once and nothing
else is, also where the path of the folder occurs again in that of an item (`mem_getFolderContent`). A
child is listed as a file if its name has a dot, whatever it is: `listsChildren_iff` says when that is
right.
-/

set_option autoImplicit false
set_option relaxedAutoImplicit false

namespace Playground.Explorer

open Library

variable {explorer : ExplorerState} {folder : Str}

/-! ### Children -/

/-- A name in a folder: an item has its path, or one that goes on with a slash. -/
def IsChild (explorer : ExplorerState) (folder : Str) (name : Component) : Prop :=
  (name ≠ [] ∧ '/' ∉ name) ∧
    ∃ rest, appendSlash folder ++ name ++ rest ∈ explorer.files.keys ∧ (rest = [] ∨ ['/'] <+: rest)

/-- The child is a file: an item with its path has a content. -/
def IsFileChild (explorer : ExplorerState) (folder : Str) (name : Component) : Prop :=
  ∃ path item, (path = appendSlash folder ++ name ∨ path = appendSlash folder ++ name ++ ['/']) ∧
    explorer.files.item path = some item ∧ item.content ≠ none

/-- Every child of a folder is listed once, nothing else is, and those that are files are listed as
files. -/
structure ListsChildren (explorer : ExplorerState) (folder : Str) : Prop where
  nodup : ((explorer.getFolderContent folder).1 ++ (explorer.getFolderContent folder).2).Nodup
  listed (name : Component) :
    name ∈ (explorer.getFolderContent folder).1 ++ (explorer.getFolderContent folder).2 ↔
      IsChild explorer folder name
  files (name : Component) :
    name ∈ (explorer.getFolderContent folder).1 ↔
      IsChild explorer folder name ∧ IsFileChild explorer folder name

/-! ### The name after the folder -/

/-- The first name is not changed by what comes after a slash. -/
theorem takeWhile_append_slash (before after : Str) :
    (before ++ '/' :: after).takeWhile (fun char ↦ char != '/') =
      before.takeWhile fun char ↦ char != '/' := by
  induction before with
  | nil => rfl
  | cons char rest ih =>
    by_cases hchar : char = '/'
    · simp [hchar]
    · simp [hchar, ih]

/-- The name that is listed for a path below a folder goes up to the next slash: where the path of the
folder, which begins with a slash, occurs again, it does not begin before that. -/
theorem childName_append (hfull : IsFullPath folder) (rest : Str) :
    childName folder (folder ++ rest) = rest.takeWhile fun char ↦ char != '/' := by
  obtain ⟨tail, htail⟩ := hfull
  rw [childName, List.drop_left]
  cases hsplit : splitFirst folder rest with
  | none => rfl
  | some parts =>
    obtain ⟨before, after⟩ := parts
    have hrest := eq_append_of_splitFirst hsplit
    have hslash : rest = before ++ '/' :: (tail ++ after) := by
      rw [hrest, ← htail, List.append_assoc]
      rfl
    dsimp only
    rw [hslash, takeWhile_append_slash]

/-- The first name of a text, by what it is followed by. -/
theorem takeWhile_eq_iff {name text : Str} (hslash : '/' ∉ name) :
    text.takeWhile (fun char ↦ char != '/') = name ↔
      ∃ rest, text = name ++ rest ∧ (rest = [] ∨ ['/'] <+: rest) := by
  constructor
  · rintro rfl
    refine ⟨text.dropWhile fun char ↦ char != '/', (List.takeWhile_append_dropWhile).symm, ?_⟩
    cases hdrop : text.dropWhile fun char ↦ char != '/' with
    | nil => exact .inl rfl
    | cons char rest =>
      have hhead := List.head?_dropWhile_not (fun char ↦ char != '/') text
      rw [hdrop] at hhead
      have hchar : char = '/' := by simpa using hhead
      exact .inr ⟨rest, by rw [hchar]; rfl⟩
  · rintro ⟨rest, rfl, hrest⟩
    have hall : ∀ char ∈ name, (char != '/') = true := by
      intro char hchar
      rw [bne_iff_ne]
      exact fun heq ↦ hslash (heq ▸ hchar)
    rw [List.takeWhile_append_of_pos hall]
    rcases hrest with rfl | ⟨more, rfl⟩
    · rw [List.takeWhile_nil, List.append_nil]
    · simp

/-! ### The listing -/

/-- The names that are listed, files and folders together. -/
def ExplorerState.childNames (explorer : ExplorerState) (folder : Str) : List Component :=
  distinct (((explorer.files.keys.filter fun itemPath ↦ appendSlash folder <+: itemPath).map
    (childName (appendSlash folder))).filter fun name ↦ name ≠ [])

theorem getFolderContent_eq (explorer : ExplorerState) (folder : Str) :
    explorer.getFolderContent folder =
      ((explorer.childNames folder).filter fun name ↦ '.' ∈ name,
        (explorer.childNames folder).filter fun name ↦ '.' ∉ name) :=
  rfl

/-- The names that are listed are those of the children. -/
theorem mem_childNames (hfull : IsFullPath folder) (name : Component) :
    name ∈ explorer.childNames folder ↔ IsChild explorer folder name := by
  have hslashFull := isFullPath_appendSlash hfull
  rw [ExplorerState.childNames, mem_distinct, List.mem_filter, List.mem_map]
  constructor
  · rintro ⟨⟨itemPath, hmem, rfl⟩, hne⟩
    obtain ⟨hkey, hprefix⟩ := List.mem_filter.mp hmem
    obtain ⟨rest, rfl⟩ := of_decide_eq_true hprefix
    rw [childName_append hslashFull] at hne ⊢
    have hslash : '/' ∉ rest.takeWhile fun char ↦ char != '/' := by
      intro hchar
      simpa using List.mem_takeWhile_imp hchar
    obtain ⟨more, hmore, hend⟩ := (takeWhile_eq_iff hslash).mp rfl
    refine ⟨⟨of_decide_eq_true hne, hslash⟩, more, ?_, hend⟩
    rwa [List.append_assoc, ← hmore]
  · rintro ⟨⟨hne, hslash⟩, rest, hkey, hend⟩
    refine ⟨⟨appendSlash folder ++ name ++ rest, List.mem_filter.mpr ⟨hkey, ?_⟩, ?_⟩, ?_⟩
    · rw [decide_eq_true_iff, List.append_assoc]
      exact List.prefix_append _ _
    · rw [List.append_assoc, childName_append hslashFull]
      exact (takeWhile_eq_iff hslash).mpr ⟨rest, rfl, hend⟩
    · exact decide_eq_true hne

/-- Every child is listed, and nothing else. -/
theorem mem_getFolderContent (hfull : IsFullPath folder) (name : Component) :
    name ∈ (explorer.getFolderContent folder).1 ++ (explorer.getFolderContent folder).2 ↔
      IsChild explorer folder name := by
  rw [getFolderContent_eq, List.mem_append, List.mem_filter, List.mem_filter, ← mem_childNames hfull]
  by_cases hdot : '.' ∈ name
  · simp [hdot]
  · simp [hdot]

/-- No name is listed twice. -/
theorem nodup_getFolderContent (explorer : ExplorerState) (folder : Str) :
    ((explorer.getFolderContent folder).1 ++ (explorer.getFolderContent folder).2).Nodup := by
  have hnodup : (explorer.childNames folder).Nodup := nodup_distinct _
  rw [getFolderContent_eq]
  refine List.nodup_append.mpr ⟨hnodup.filter _, hnodup.filter _, ?_⟩
  rintro first hfirst second hsecond rfl
  have hdot := of_decide_eq_true (List.mem_filter.mp hfirst).2
  exact of_decide_eq_true (List.mem_filter.mp hsecond).2 hdot

/-- The children of a folder are listed as what they are if and only if those whose names have a dot are
the files. -/
theorem listsChildren_iff (hfull : IsFullPath folder) :
    ListsChildren explorer folder ↔
      ∀ name, IsChild explorer folder name → ('.' ∈ name ↔ IsFileChild explorer folder name) := by
  have hfiles : ∀ name, name ∈ (explorer.getFolderContent folder).1 ↔
      IsChild explorer folder name ∧ '.' ∈ name := by
    intro name
    rw [getFolderContent_eq, List.mem_filter, mem_childNames hfull, decide_eq_true_iff]
  constructor
  · intro hlists name hchild
    have hkind := (hfiles name).symm.trans (hlists.files name)
    exact ⟨fun hdot ↦ (hkind.mp ⟨hchild, hdot⟩).2, fun hfile ↦ (hkind.mpr ⟨hchild, hfile⟩).2⟩
  · intro hkinds
    refine ⟨nodup_getFolderContent explorer folder, mem_getFolderContent hfull, fun name ↦ ?_⟩
    rw [hfiles]
    exact and_congr_right (hkinds name)

/-- No child is a file if no item has its path. -/
theorem not_isFileChild {name : Component}
    (hfile : explorer.files.item (appendSlash folder ++ name) = none)
    (hfolder : explorer.files.item (appendSlash folder ++ name ++ ['/']) = none) :
    ¬ IsFileChild explorer folder name := by
  rintro ⟨path, item, rfl | rfl, hitem, -⟩
  · exact absurd (hfile.symm.trans hitem) nofun
  · exact absurd (hfolder.symm.trans hitem) nofun

/-- A workspace with a file, and another one in a folder. -/
def workspaceWithFolder : State FileTree :=
  finalState (newItem fileTrees referenceJson "src/b.ts".toList [] .none (workspaceWith "a.ts"))

/-- The file and the folder are listed as what they are. -/
theorem listsChildren_iff_workspaceWithFolder :
    (workspaceWithFolder.explorer.getFolderContent "/ws/".toList =
        (["a.ts".toList], ["src".toList])) ∧
      ListsChildren workspaceWithFolder.explorer "/ws/".toList := by
  have hfull : IsFullPath "/ws/".toList := ⟨"ws/".toList, rfl⟩
  have hnames : workspaceWithFolder.explorer.childNames "/ws/".toList =
      ["a.ts".toList, "src".toList] := by
    decide +kernel
  have hitem : (workspaceWithFolder.explorer.files.item "/ws/a.ts".toList).bind ItemInfo.content =
      some "let a;".toList := by
    decide +kernel
  obtain ⟨item, hitem, hcontent⟩ := Option.bind_eq_some_iff.mp hitem
  refine ⟨by decide +kernel, (listsChildren_iff hfull).mpr fun name hchild ↦ ?_⟩
  rw [← mem_childNames hfull, hnames] at hchild
  rcases List.mem_pair.mp hchild with rfl | rfl
  · exact iff_of_true (by decide) ⟨_, item, .inl rfl, hitem, by rw [hcontent]; exact nofun⟩
  · exact iff_of_false (by decide) (not_isFileChild (by decide +kernel) (by decide +kernel))

/-- A folder with a dot in its name, in which a file has been created, is listed as a file. -/
theorem not_listsChildren_dotted_folder :
    ¬ ListsChildren (workspaceWith "v1.0/a.ts").explorer "/ws/".toList := by
  intro hlists
  have hlisted : "v1.0".toList ∈
      ((workspaceWith "v1.0/a.ts").explorer.getFolderContent "/ws/".toList).1 := by decide +kernel
  exact not_isFileChild (by decide +kernel) (by decide +kernel) ((hlists.files _).mp hlisted).2

end Playground.Explorer
