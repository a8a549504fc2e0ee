import Playground.Explorer.Paths
import Playground.Library.FileSystem

/-!
# The paths of the items below a folder

The paths under which `PgExplorer` lists the items of a folder: the names on the way to the item are
joined with slashes, and the path of an item whose name has no dot ends with a slash (`itemPath`).
Different items have different paths (`itemPath_injective`), and every path denotes the place of its
item (`resolve_itemPath`).
-/

set_option autoImplicit false
set_option relaxedAutoImplicit false

namespace Playground.Explorer

open Library

/-! ### Slashes -/

/-- A path that begins at the root. -/
def IsFullPath (path : Str) : Prop :=
  rootDirPath <+: path

theorem isFullPath_append {path : Str} (hfull : IsFullPath path) (rest : Str) :
    IsFullPath (path ++ rest) :=
  hfull.trans (List.prefix_append path rest)

theorem IsFullPath.ne_nil {path : Str} (hfull : IsFullPath path) : path ≠ [] := by
  rintro rfl
  exact absurd (List.prefix_nil.mp hfull) (by decide)

theorem appendSlash_of_getLast? {path : Str} (hslash : path.getLast? = some '/') :
    appendSlash path = path := by
  have hne : path ≠ [] := by
    rintro rfl
    cases hslash
  rw [appendSlash, if_neg hne, if_pos hslash, List.append_nil]

/-- With a slash appended, a path that is not empty ends with one. -/
theorem getLast?_appendSlash {path : Str} (hne : path ≠ []) :
    (appendSlash path).getLast? = some '/' := by
  rw [appendSlash, if_neg hne]
  split
  · next hslash => rwa [List.append_nil]
  · rw [List.getLast?_append]
    rfl

theorem isFullPath_appendSlash {path : Str} (hfull : IsFullPath path) :
    IsFullPath (appendSlash path) := by
  rw [appendSlash, if_neg hfull.ne_nil]
  exact isFullPath_append hfull _

/-- A path that ends with a slash goes on after it. -/
theorem exists_eq_append_slash {path : Str} (hslash : path.getLast? = some '/') :
    ∃ front, path = front ++ ['/'] :=
  ⟨path.dropLast, (List.dropLast_append_getLast? _ hslash).symm⟩

@[simp] theorem resolve_appendSlash (path : Str) : resolve (appendSlash path) = resolve path := by
  unfold appendSlash
  split
  · next hempty => rw [hempty]
  · split
    · rw [List.append_nil]
    · rw [resolve_append_trailing]

/-- A component has no slash to be left out at its front. -/
theorem withoutPreSlash_of_isComponent {name : Component} (hname : IsComponent name) :
    withoutPreSlash name = name := by
  obtain ⟨-, -, -, hslash⟩ := hname
  cases name with
  | nil => rfl
  | cons first rest =>
    have hfirst : first ≠ '/' := fun heq ↦ hslash (heq ▸ List.mem_cons_self)
    unfold withoutPreSlash
    split
    · next heq => exact absurd (List.cons.inj heq).1 hfirst
    · rfl

/-! ### Names -/

/-- A path that ends with a component does not end with a slash. -/
theorem getLast?_append_ne {name : Component} (hname : IsComponent name) (folder : Str) :
    (folder ++ name).getLast? ≠ some '/' := by
  obtain ⟨hne, -, -, hslash⟩ := hname
  intro heq
  rw [List.getLast?_append, List.getLast?_eq_some_getLast hne, Option.some_or] at heq
  exact hslash (Option.some.inj heq ▸ List.getLast_mem hne)

/-- The name of an item below a folder. -/
theorem getItemNameFromPath_append {folder : Str} {name : Component}
    (hfolder : folder.getLast? = some '/') (hname : IsComponent name) :
    getItemNameFromPath (folder ++ name) = name := by
  obtain ⟨front, rfl⟩ := exists_eq_append_slash hfolder
  have hsplit : (front ++ ['/'] ++ name).splitOn '/' = front.splitOn '/' ++ [name] := by
    rw [List.append_assoc, List.singleton_append, List.splitOn_append_cons_self,
      List.splitOn_eq_singleton hname.2.2.2]
  unfold getItemNameFromPath
  dsimp only
  rw [if_neg (getLast?_append_ne hname _), arrayAt_neg_one, hsplit, List.getLast?_concat,
    Option.getD_some]

/-- Where the name of an item has a dot the item is a file, and else a folder. -/
theorem getItemTypeFromPath_append {folder : Str} {name : Component}
    (hfolder : folder.getLast? = some '/') (hname : IsComponent name) :
    getItemTypeFromPath (folder ++ name) = getItemTypeFromName name := by
  rw [getItemTypeFromPath, getItemNameFromPath_append hfolder hname]

/-! ### Items -/

/-- The path that `getCanonicalPath` makes of a full path. -/
def canonicalPath (path : Str) : Str :=
  match getItemTypeFromPath path with
  | .file => path
  | .folder => appendSlash path

/-- The path of an item that is reached from a folder through some names. -/
def itemPath (folder : Str) (names : List Component) : Str :=
  names.foldl (fun path name ↦ canonicalPath (joinPaths path name)) folder

@[simp] theorem itemPath_nil (folder : Str) : itemPath folder [] = folder :=
  rfl

theorem itemPath_cons (folder : Str) (name : Component) (names : List Component) :
    itemPath folder (name :: names) = itemPath (canonicalPath (joinPaths folder name)) names :=
  rfl

/-- The path of an item in a folder. -/
theorem canonicalPath_joinPaths {folder : Str} {name : Component} (hfolder : folder ≠ [])
    (hname : IsComponent name) :
    canonicalPath (joinPaths folder name) =
      appendSlash folder ++ name ++ if '.' ∈ name then [] else ['/'] := by
  have hslash := getLast?_appendSlash hfolder
  have hjoin : joinPaths folder name = appendSlash folder ++ name := by
    rw [joinPaths, withoutPreSlash_of_isComponent hname]
  have hne : appendSlash folder ++ name ≠ [] := by
    simp [hname.1]
  rw [canonicalPath, hjoin, getItemTypeFromPath_append hslash hname, getItemTypeFromName]
  by_cases hdot : '.' ∈ name
  · rw [if_pos hdot, if_pos hdot, List.append_nil]
  · rw [if_neg hdot, if_neg hdot]
    dsimp only
    rw [appendSlash.eq_1 (appendSlash folder ++ name), if_neg hne,
      if_neg (getLast?_append_ne hname _)]

theorem isFullPath_canonicalPath_joinPaths {folder : Str} {name : Component}
    (hfull : IsFullPath folder) (hname : IsComponent name) :
    IsFullPath (canonicalPath (joinPaths folder name)) := by
  rw [canonicalPath_joinPaths hfull.ne_nil hname, List.append_assoc]
  exact isFullPath_append (isFullPath_appendSlash hfull) _

/-- With a slash appended, the path of an item in a folder has its name between two slashes. -/
theorem appendSlash_canonicalPath_joinPaths {folder : Str} {name : Component} (hfolder : folder ≠ [])
    (hname : IsComponent name) :
    appendSlash (canonicalPath (joinPaths folder name)) = appendSlash folder ++ (name ++ ['/']) := by
  rw [canonicalPath_joinPaths hfolder hname]
  by_cases hdot : '.' ∈ name
  · have hne : appendSlash folder ++ name ≠ [] := by simp [hname.1]
    rw [if_pos hdot, List.append_nil, appendSlash.eq_1 (appendSlash folder ++ name), if_neg hne,
      if_neg (getLast?_append_ne hname _), List.append_assoc]
  · rw [if_neg hdot, appendSlash_of_getLast? (by simp), List.append_assoc]

/-- The path of an item in a folder denotes its place. -/
theorem resolve_canonicalPath_joinPaths {folder : Str} {name : Component} {place : List Component}
    (hfolder : folder ≠ []) (hname : IsComponent name) (hplace : resolve folder = some place) :
    resolve (canonicalPath (joinPaths folder name)) = some (place ++ [name]) := by
  obtain ⟨front, hfront⟩ := exists_eq_append_slash (getLast?_appendSlash hfolder)
  have hresolve : resolve front = some place := by
    rw [← hplace, ← resolve_appendSlash folder, hfront, resolve_append_trailing]
  rw [← resolve_appendSlash, appendSlash_canonicalPath_joinPaths hfolder hname, hfront,
    ← List.append_assoc, resolve_append_trailing, List.append_assoc, List.singleton_append,
    resolve_append_slash_name front hname.2.2.2, hresolve, Option.bind_some,
    resolveStep_of_isComponent hname]

section Names

variable {names : List Component}

theorem isFullPath_itemPath (hnames : ∀ name ∈ names, IsComponent name) :
    ∀ {folder : Str}, IsFullPath folder → IsFullPath (itemPath folder names) := by
  induction names with
  | nil => exact fun hfull ↦ hfull
  | cons name rest ih =>
    intro folder hfull
    exact ih (fun other hother ↦ hnames other (List.mem_cons_of_mem _ hother))
      (isFullPath_canonicalPath_joinPaths hfull (hnames name List.mem_cons_self))

/-- With a slash appended, the path of an item is that of the folder and the names, each with a
slash. -/
theorem appendSlash_itemPath (hnames : ∀ name ∈ names, IsComponent name) :
    ∀ {folder : Str}, IsFullPath folder →
      appendSlash (itemPath folder names) =
        appendSlash folder ++ (names.map fun name ↦ name ++ ['/']).flatten := by
  induction names with
  | nil => exact fun _ ↦ (List.append_nil _).symm
  | cons name rest ih =>
    intro folder hfull
    have hname := hnames name List.mem_cons_self
    rw [itemPath_cons, ih (fun other hother ↦ hnames other (List.mem_cons_of_mem _ hother))
      (isFullPath_canonicalPath_joinPaths hfull hname),
      appendSlash_canonicalPath_joinPaths hfull.ne_nil hname, List.append_assoc]
    rfl

/-- The path of an item denotes its place. -/
theorem resolve_itemPath (hnames : ∀ name ∈ names, IsComponent name) :
    ∀ {folder : Str} {place : List Component}, IsFullPath folder → resolve folder = some place →
      resolve (itemPath folder names) = some (place ++ names) := by
  induction names with
  | nil =>
    intro folder place _ hplace
    rw [List.append_nil]
    exact hplace
  | cons name rest ih =>
    intro folder place hfull hplace
    have hname := hnames name List.mem_cons_self
    rw [itemPath_cons, ih (fun other hother ↦ hnames other (List.mem_cons_of_mem _ hother))
      (isFullPath_canonicalPath_joinPaths hfull hname)
      (resolve_canonicalPath_joinPaths hfull.ne_nil hname hplace), List.append_assoc,
      List.singleton_append]

end Names

/-- Names without slashes can be read off their concatenation with slashes. -/
theorem flatten_slash_injective : ∀ {names others : List Component},
    (∀ name ∈ names, '/' ∉ name) → (∀ name ∈ others, '/' ∉ name) →
      (names.map fun name ↦ name ++ ['/']).flatten = (others.map fun name ↦ name ++ ['/']).flatten →
        names = others := by
  intro names
  induction names with
  | nil =>
    intro others _ _ hsame
    cases others with
    | nil => rfl
    | cons other others => simp at hsame
  | cons name names ih =>
    intro others hnames hothers hsame
    cases others with
    | nil => simp at hsame
    | cons other others =>
      simp only [List.map_cons, List.flatten_cons, List.append_assoc, List.singleton_append] at hsame
      obtain ⟨rfl, hrest⟩ := eq_of_append_slash (hnames name List.mem_cons_self)
        (hothers other List.mem_cons_self) hsame
      rw [ih (fun name hname ↦ hnames name (List.mem_cons_of_mem _ hname))
        (fun name hname ↦ hothers name (List.mem_cons_of_mem _ hname)) hrest]

/-- Different items have different paths. -/
theorem itemPath_injective {folder : Str} (hfull : IsFullPath folder) {names others : List Component}
    (hnames : ∀ name ∈ names, IsComponent name) (hothers : ∀ name ∈ others, IsComponent name)
    (hsame : itemPath folder names = itemPath folder others) : names = others := by
  have hslashes := congrArg appendSlash hsame
  rw [appendSlash_itemPath hnames hfull, appendSlash_itemPath hothers hfull,
    List.append_cancel_left_eq] at hslashes
  exact flatten_slash_injective (fun name hname ↦ (hnames name hname).2.2.2)
    (fun name hname ↦ (hothers name hname).2.2.2) hslashes

end Playground.Explorer
