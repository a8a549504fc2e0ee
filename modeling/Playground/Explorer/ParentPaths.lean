import Playground.Explorer.HiddenFiles

/-!
# The path of the containing directory

`PgExplorer.getParentPathFromPath` (`client/src/utils/pg/explorer/explorer.ts`) leaves out the last name
of a path and joins the others. Which of the parts of the path is the last name depends on what the path
denotes, which is read off a dot in the name; and the path that is joined of no names is empty, to which
no slash is appended. `hasParent_iff` states of which paths the result is the path of the containing
directory.
-/

set_option autoImplicit false
set_option relaxedAutoImplicit false

namespace Playground.Explorer

open Library

/-! ### Canonical paths -/

/-- What follows the name of an item in its path. -/
def slashOf : ItemType → Str
  | .file => []
  | .folder => ['/']

/-- The absolute path of an item that is not the root: the directories that lead to it, and its name. -/
def pathOf (kind : ItemType) (directories : List Component) (name : Component) : Str :=
  joinNames (directories ++ [name]) ++ slashOf kind

/-- The name of an item or of a directory. -/
def IsItemName (name : Component) : Prop :=
  name ≠ [] ∧ '/' ∉ name

/-- The parent path is that of the containing directory, with a slash, and joined with the name it is the
path again. -/
def HasParent (kind : ItemType) (directories : List Component) (name : Component) : Prop :=
  let path := pathOf kind directories name
  getParentPathFromPath path = joinNames directories ++ ['/'] ∧
    joinPaths (getParentPathFromPath path) (getItemNameFromPath path) ++ slashOf kind = path

section Names

variable {directories : List Component} {name : Component}

/-- The parts of a path: the empty one before the first slash, the names, and the empty one behind a
trailing slash. -/
theorem splitOn_pathOf (kind : ItemType)
    (hnames : ∀ other ∈ directories ++ [name], IsItemName other) :
    (pathOf kind directories name).splitOn '/' =
      [] :: (directories ++ name :: match kind with
        | .file => []
        | .folder => [[]]) := by
  have hslash : ∀ other ∈ directories ++ [name], '/' ∉ other :=
    fun other hother ↦ (hnames other hother).2
  cases kind with
  | file =>
    rw [pathOf, slashOf, List.append_nil, splitOn_joinNames hslash]
  | folder =>
    rw [pathOf, slashOf, List.splitOn_append_cons_self, splitOn_joinNames hslash, List.splitOn_nil,
      List.cons_append, List.append_assoc]
    rfl

/-- The name is read off the path. -/
theorem getItemNameFromPath_pathOf (kind : ItemType)
    (hnames : ∀ other ∈ directories ++ [name], IsItemName other) :
    getItemNameFromPath (pathOf kind directories name) = name := by
  obtain ⟨hne, hslash⟩ := hnames name (List.mem_append_right _ List.mem_cons_self)
  rw [getItemNameFromPath, splitOn_pathOf kind hnames]
  cases kind with
  | file =>
    have hlast : (pathOf .file directories name).getLast? ≠ some '/' := by
      rw [pathOf, slashOf, List.append_nil, joinNames_concat, List.getLast?_append,
        List.getLast?_cons, List.getLast?_eq_some_getLast hne, Option.getD_some, Option.some_or]
      exact fun heq ↦ hslash (Option.some.inj heq ▸ List.getLast_mem hne)
    rw [if_neg hlast, arrayAt_neg_one, ← List.cons_append, List.getLast?_concat, Option.getD_some]
  | folder =>
    have hlast : (pathOf .folder directories name).getLast? = some '/' := List.getLast?_concat
    have hsecond : arrayAt ([] :: (directories ++ [name, []])) (-2) = some name := by
      have hindex : (((directories.length + 3 : ℕ) : ℤ) + -2).toNat = directories.length + 1 := by
        omega
      have hlength : ([] :: (directories ++ [name, []])).length = directories.length + 3 := by simp
      rw [arrayAt, if_neg (by omega), if_pos (by omega), hlength, hindex, List.getElem?_cons_succ,
        List.getElem?_append_right le_rfl, Nat.sub_self]
      rfl
    rw [if_pos hlast, hsecond, Option.getD_some]

/-- What is left of the parts of a path is joined. -/
theorem appendSlash_foldl_itemName {kept : List Component} (hkept : ∀ other ∈ kept, other ≠ [])
    (rest : List Component) (hrest : rest = [] ∨ rest = [[]]) :
    appendSlash ((kept ++ rest).foldl (fun parentPath itemName ↦
        if itemName = [] then parentPath else parentPath ++ '/' :: itemName) []) =
      appendSlash (joinNames kept) := by
  have hfilter : (kept ++ rest).filter (fun part ↦ part ≠ []) = kept := by
    have hself : kept.filter (fun part ↦ part ≠ []) = kept :=
      List.filter_eq_self.mpr fun other hother ↦ decide_eq_true (hkept other hother)
    rw [List.filter_append, hself]
    rcases hrest with rfl | rfl
    · rw [List.filter_nil, List.append_nil]
    · simp
  rw [foldl_itemName, hfilter, List.nil_append]

/-- Joined names get a slash, unless there is none of them. -/
theorem appendSlash_joinNames (hnames : ∀ other ∈ directories, IsItemName other) :
    appendSlash (joinNames directories) =
      if directories = [] then [] else joinNames directories ++ ['/'] := by
  induction directories using List.reverseRecOn with
  | nil => rfl
  | append_singleton front last _ =>
    obtain ⟨hne, hslash⟩ := hnames last (List.mem_append_right _ List.mem_cons_self)
    have hlast : (joinNames (front ++ [last])).getLast? ≠ some '/' := by
      rw [joinNames_concat, List.getLast?_append, List.getLast?_cons,
        List.getLast?_eq_some_getLast hne, Option.getD_some, Option.some_or]
      exact fun heq ↦ hslash (Option.some.inj heq ▸ List.getLast_mem hne)
    have hsome : joinNames (front ++ [last]) ≠ [] := by
      rw [joinNames_concat]
      exact List.append_ne_nil_of_right_ne_nil _ (List.cons_ne_nil _ _)
    rw [appendSlash, if_neg hsome, if_neg hlast, if_neg (by simp)]

/-! ### Parent paths -/

/-- The type of an item is read off its name. -/
theorem getItemTypeFromPath_pathOf (kind : ItemType)
    (hnames : ∀ other ∈ directories ++ [name], IsItemName other) :
    getItemTypeFromPath (pathOf kind directories name) = getItemTypeFromName name := by
  rw [getItemTypeFromPath, getItemNameFromPath_pathOf kind hnames]

/-- The last part is left out where the name has a dot. -/
theorem getParentPathFromPath_of_dot (kind : ItemType)
    (hnames : ∀ other ∈ directories ++ [name], IsItemName other)
    (htype : getItemTypeFromName name = .file) :
    getParentPathFromPath (pathOf kind directories name) =
      match kind with
      | .file => appendSlash (joinNames directories)
      | .folder => appendSlash (joinNames (directories ++ [name])) := by
  have hne : ∀ other ∈ directories ++ [name], other ≠ [] := fun other hother ↦ (hnames other hother).1
  rw [getParentPathFromPath, getItemTypeFromPath_pathOf kind hnames, htype,
    splitOn_pathOf kind hnames]
  cases kind with
  | file =>
    have hothers : ([] :: (directories ++ [name])).eraseIdx
        (([] :: (directories ++ [name])).length - 1) = [] :: directories := by
      rw [List.eraseIdx_length_sub_one, ← List.cons_append, List.dropLast_concat]
    dsimp only
    rw [hothers]
    have hjoined := appendSlash_foldl_itemName
      (fun other hother ↦ hne other (List.mem_append_left _ hother)) [] (.inl rfl)
    rwa [List.append_nil] at hjoined
  | folder =>
    have hothers : ([] :: (directories ++ [name, []])).eraseIdx
        (([] :: (directories ++ [name, []])).length - 1) = [] :: (directories ++ [name]) := by
      have hsplit : [] :: (directories ++ [name, []]) = ([] :: (directories ++ [name])) ++ [[]] := by
        simp
      rw [List.eraseIdx_length_sub_one, hsplit, List.dropLast_concat]
    dsimp only
    rw [hothers]
    have hjoined := appendSlash_foldl_itemName hne [] (.inl rfl)
    rwa [List.append_nil] at hjoined

/-- The part before the last one is left out where the name has no dot: the name of a folder. -/
theorem getParentPathFromPath_folder (hnames : ∀ other ∈ directories ++ [name], IsItemName other)
    (htype : getItemTypeFromName name = .folder) :
    getParentPathFromPath (pathOf .folder directories name) = appendSlash (joinNames directories) := by
  have hlength : ([] :: (directories ++ [name, []])).length = directories.length + 3 := by simp
  have hothers : ([] :: (directories ++ [name, []])).eraseIdx (directories.length + 3 - 2) =
      [] :: (directories ++ [[]]) := by
    have hindex : directories.length + 3 - 2 = directories.length + 1 := by omega
    rw [hindex, List.eraseIdx_cons_succ, List.eraseIdx_append_of_length_le le_rfl, Nat.sub_self]
    rfl
  rw [getParentPathFromPath, getItemTypeFromPath_pathOf _ hnames, htype, splitOn_pathOf _ hnames]
  dsimp only
  rw [hlength, if_neg (by omega), hothers]
  exact appendSlash_foldl_itemName
    (fun other hother ↦ (hnames other (List.mem_append_left _ hother)).1) [[]] (.inr rfl)

/-- Of a file without a dot in a directory, the name of the directory is left out. -/
theorem getParentPathFromPath_undotted {last : Component}
    (hnames : ∀ other ∈ directories ++ [last] ++ [name], IsItemName other)
    (htype : getItemTypeFromName name = .folder) :
    getParentPathFromPath (pathOf .file (directories ++ [last]) name) =
      appendSlash (joinNames (directories ++ [name])) := by
  have hsplit : [] :: (directories ++ [last] ++ [name]) = [] :: (directories ++ [last, name]) := by simp
  have hlength : ([] :: (directories ++ [last, name])).length = directories.length + 3 := by simp
  have hothers : ([] :: (directories ++ [last, name])).eraseIdx (directories.length + 3 - 2) =
      [] :: (directories ++ [name]) := by
    have hindex : directories.length + 3 - 2 = directories.length + 1 := by omega
    rw [hindex, List.eraseIdx_cons_succ, List.eraseIdx_append_of_length_le le_rfl, Nat.sub_self]
    rfl
  have hne : ∀ other ∈ directories ++ [name], other ≠ [] := by
    intro other hother
    refine (hnames other ?_).1
    rcases List.mem_append.mp hother with hmem | hmem
    · exact List.mem_append_left _ (List.mem_append_left _ hmem)
    · exact List.mem_append_right _ hmem
  rw [getParentPathFromPath, getItemTypeFromPath_pathOf _ hnames, htype, splitOn_pathOf _ hnames]
  dsimp only
  rw [hsplit, hlength, if_neg (by omega), hothers]
  have hjoined := appendSlash_foldl_itemName hne [] (.inl rfl)
  rwa [List.append_nil] at hjoined

/-- Of a file without a dot at the root, the name itself is taken for the directory. -/
theorem getParentPathFromPath_undotted_root (hname : IsItemName name)
    (htype : getItemTypeFromName name = .folder) :
    getParentPathFromPath (pathOf .file [] name) = name ++ ['/'] := by
  have hnames : ∀ other ∈ [] ++ [name], IsItemName other := by
    intro other hother
    rwa [List.mem_singleton.mp hother]
  have hlast : name.getLast? ≠ some '/' := fun heq ↦ hname.2 (List.mem_of_getLast? heq)
  rw [getParentPathFromPath, getItemTypeFromPath_pathOf _ hnames, htype, splitOn_pathOf _ hnames]
  change appendSlash name = _
  rw [appendSlash, if_neg hname.1, if_neg hlast]

/-- The joined names determine the last one. -/
theorem joinNames_concat_inj {first second : Component} :
    joinNames (directories ++ [first]) = joinNames (directories ++ [second]) ↔ first = second := by
  rw [joinNames_concat, joinNames_concat, List.append_cancel_left_eq, List.cons_eq_cons]
  simp

/-- A parent path that is joined of the directories is that of the containing directory exactly if there
are some. -/
theorem appendSlash_joinNames_eq_iff (hnames : ∀ other ∈ directories, IsItemName other) :
    appendSlash (joinNames directories) = joinNames directories ++ ['/'] ↔ directories ≠ [] := by
  rw [appendSlash_joinNames hnames]
  by_cases hempty : directories = []
  · rw [if_pos hempty]
    simp [hempty]
  · rw [if_neg hempty]
    simp [hempty]

/-- When the parent path is that of the containing directory. -/
theorem getParentPathFromPath_eq_iff (kind : ItemType)
    (hnames : ∀ other ∈ directories ++ [name], IsItemName other) :
    getParentPathFromPath (pathOf kind directories name) = joinNames directories ++ ['/'] ↔
      directories ≠ [] ∧
        (getItemTypeFromName name = kind ∨ kind = .file ∧ directories.getLast? = some name) := by
  have hdirectories : ∀ other ∈ directories, IsItemName other :=
    fun other hother ↦ hnames other (List.mem_append_left _ hother)
  have hname : IsItemName name := hnames name (List.mem_append_right _ List.mem_cons_self)
  cases htype : getItemTypeFromName name with
  | file =>
    rw [getParentPathFromPath_of_dot kind hnames htype]
    cases kind with
    | file =>
      dsimp only
      rw [appendSlash_joinNames_eq_iff hdirectories]
      simp
    | folder =>
      dsimp only
      rw [appendSlash_joinNames hnames, if_neg (by simp), joinNames_concat]
      simp
  | folder =>
    cases kind with
    | file =>
      induction directories using List.reverseRecOn with
      | nil =>
        rw [getParentPathFromPath_undotted_root hname htype]
        simpa [joinNames] using hname.1
      | append_singleton front last _ =>
        have hsome : ∀ other ∈ front ++ [name], IsItemName other := by
          intro other hother
          rcases List.mem_append.mp hother with hmem | hmem
          · exact hdirectories other (List.mem_append_left _ hmem)
          · rwa [List.mem_singleton.mp hmem]
        rw [getParentPathFromPath_undotted hnames htype, appendSlash_joinNames hsome, if_neg (by simp),
          List.append_cancel_right_eq, joinNames_concat_inj, List.getLast?_concat, eq_comm]
        simp
    | folder =>
      rw [getParentPathFromPath_folder hnames htype, appendSlash_joinNames_eq_iff hdirectories]
      simp

/-- The name without its slash, joined with the containing directory, is the path. -/
theorem joinPaths_containing (kind : ItemType) (hname : IsItemName name) :
    joinPaths (joinNames directories ++ ['/']) name ++ slashOf kind = pathOf kind directories name := by
  have hfirst : withoutPreSlash name = name := by
    cases name with
    | nil => rfl
    | cons first rest =>
      have hne : first ≠ '/' := fun heq ↦ hname.2 (heq ▸ List.mem_cons_self)
      unfold withoutPreSlash
      split
      · next heq => exact absurd (List.cons.inj heq).1 hne
      · rfl
  rw [joinPaths, hfirst, appendSlash_of_getLast? List.getLast?_concat, pathOf, joinNames_concat,
    List.append_assoc (joinNames directories), List.singleton_append]

/-- The parent path is that of the containing directory, and gives the path back with the name, if and
only if the item is not at the root, and its name has a dot exactly if it is a file, or else it is a file
in a directory of the same name. -/
theorem hasParent_iff (kind : ItemType)
    (hnames : ∀ other ∈ directories ++ [name], IsItemName other) :
    HasParent kind directories name ↔
      directories ≠ [] ∧
        (getItemTypeFromName name = kind ∨ kind = .file ∧ directories.getLast? = some name) := by
  rw [← getParentPathFromPath_eq_iff kind hnames]
  refine ⟨fun hparent ↦ hparent.1, fun hparent ↦ ⟨hparent, ?_⟩⟩
  rw [hparent, getItemNameFromPath_pathOf kind hnames]
  exact joinPaths_containing kind (hnames name (List.mem_append_right _ List.mem_cons_self))

end Names

/-- A file in the folder of a workspace. -/
theorem hasParent_iff_nested : HasParent .file ["ws".toList, "src".toList] "main.cs".toList := by
  refine (hasParent_iff .file fun other hother ↦ ?_).mpr ⟨by decide, by decide⟩
  rcases List.mem_cons.mp hother with rfl | hother
  · exact ⟨by decide, by decide⟩
  · rcases List.mem_cons.mp hother with rfl | hother
    · exact ⟨by decide, by decide⟩
    · rw [List.mem_singleton.mp hother]
      exact ⟨by decide, by decide⟩

/-- The parent path of a folder at the root is empty. -/
theorem not_hasParent_root : ¬ HasParent .folder [] "src".toList := by
  intro hparent
  exact absurd hparent.1 (by decide)

end Playground.Explorer
