import Playground.Library.FileSystem
import Mathlib.Data.List.Dedup

/-!
# A reference file system

`FileTree` is a disk given by its content: a function from places to entries, with a list that
contains every place in use and with the proofs that the content is a tree. `fileTrees` are the
calls on such disks, `lawful_fileTrees` that they are those of a hierarchical file system. It
instantiates the laws on concrete disks; nothing else rests on how it is built.
-/

set_option autoImplicit false
set_option relaxedAutoImplicit false

namespace Playground.Library

/-- A disk given by its content. -/
structure FileTree where
  content : Content
  places : List (List Component)
  root : content [] = some .folder
  parent : ∀ above name, content (above ++ [name]) ≠ none → content above = some .folder
  isComponent : ∀ above name, content (above ++ [name]) ≠ none → IsComponent name
  mem_places : ∀ place, content place ≠ none → place ∈ places

namespace FileTree

/-- The disk that holds the root folder only. -/
def empty : FileTree where
  content := fun place ↦ if place = [] then some .folder else none
  places := [[]]
  root := rfl
  parent := fun above name hfound ↦ absurd (if_neg (by simp)) hfound
  isComponent := fun above name hfound ↦ absurd (if_neg (by simp)) hfound
  mem_places := by
    intro place hfound
    by_cases hplace : place = []
    · simp [hplace]
    · exact absurd (if_neg hplace) hfound

variable (tree : FileTree)

/-- Nothing lies below a place that is not a folder. -/
theorem none_of_not_folder {above : List Component} (habove : tree.content above ≠ some .folder)
    (name : Component) : tree.content (above ++ [name]) = none := by
  by_contra hfound
  exact habove (tree.parent above name hfound)

/-- The place has something directly below it. -/
def HasChild (place : List Component) : Prop :=
  ∃ found ∈ tree.places, found ≠ [] ∧ found.dropLast = place ∧ tree.content found ≠ none

instance (place : List Component) : Decidable (tree.HasChild place) :=
  inferInstanceAs (Decidable (∃ found ∈ tree.places, _ ∧ _ ∧ _))

theorem hasChild_iff {place : List Component} :
    tree.HasChild place ↔ ∃ name, tree.content (place ++ [name]) ≠ none := by
  constructor
  · rintro ⟨found, -, hne, rfl, hfound⟩
    refine ⟨found.getLast hne, ?_⟩
    rwa [List.dropLast_append_getLast hne]
  · rintro ⟨name, hname⟩
    exact ⟨place ++ [name], tree.mem_places _ hname, by simp, by simp, hname⟩

/-- The names of the entries directly below a place. -/
def names (place : List Component) : List Component :=
  (tree.places.filterMap fun found ↦
    if found ≠ [] ∧ found.dropLast = place ∧ tree.content found ≠ none then found.getLast?
    else none).dedup

theorem mem_names {place : List Component} {name : Component} :
    name ∈ tree.names place ↔ tree.content (place ++ [name]) ≠ none := by
  rw [names, List.mem_dedup, List.mem_filterMap]
  constructor
  · rintro ⟨found, -, hfound⟩
    by_cases hchild : found ≠ [] ∧ found.dropLast = place ∧ tree.content found ≠ none
    · obtain ⟨hne, rfl, hcontent⟩ := hchild
      rw [if_pos ⟨hne, rfl, hcontent⟩, List.getLast?_eq_some_getLast hne,
        Option.some.injEq] at hfound
      rwa [← hfound, List.dropLast_append_getLast hne]
    · rw [if_neg hchild] at hfound
      cases hfound
  · intro hname
    refine ⟨place ++ [name], tree.mem_places _ hname, ?_⟩
    rw [if_pos ⟨by simp, by simp, hname⟩]
    simp

/-! ### Writing one place -/

/-- Put an entry at a place that lies in a folder and holds no folder. -/
def put (place : List Component) (node : Node) (hfolder : Content.InFolder tree.content place)
    (hname : ∀ name ∈ place, IsComponent name) (hplace : tree.content place ≠ some .folder) :
    FileTree where
  content := Function.update tree.content place (some node)
  places := place :: tree.places
  root := by rw [Function.update_of_ne hfolder.1.symm, tree.root]
  parent := by
    intro above name hfound
    have habove : tree.content above = some .folder := by
      by_cases heq : above ++ [name] = place
      · rw [← heq] at hfolder
        simpa using hfolder.2
      · rw [Function.update_of_ne heq] at hfound
        exact tree.parent above name hfound
    have hne : above ≠ place := by
      rintro rfl
      exact hplace habove
    rwa [Function.update_of_ne hne]
  isComponent := by
    intro above name hfound
    by_cases heq : above ++ [name] = place
    · exact hname name (by simp [← heq])
    · rw [Function.update_of_ne heq] at hfound
      exact tree.isComponent above name hfound
  mem_places := by
    intro other hfound
    by_cases heq : other = place
    · simp [heq]
    · rw [Function.update_of_ne heq] at hfound
      exact List.mem_cons_of_mem _ (tree.mem_places other hfound)

/-- Remove the entry at a place with nothing below it. -/
def remove (place : List Component) (hne : place ≠ [])
    (hempty : ∀ name, tree.content (place ++ [name]) = none) : FileTree where
  content := Function.update tree.content place none
  places := tree.places
  root := by rw [Function.update_of_ne hne.symm, tree.root]
  parent := by
    intro above name hfound
    by_cases heq : above ++ [name] = place
    · rw [heq, Function.update_self] at hfound
      exact absurd rfl hfound
    · rw [Function.update_of_ne heq] at hfound
      by_cases habove : above = place
      · rw [habove] at hfound
        exact absurd (hempty name) hfound
      · rw [Function.update_of_ne habove]
        exact tree.parent above name hfound
  isComponent := by
    intro above name hfound
    by_cases heq : above ++ [name] = place
    · rw [heq, Function.update_self] at hfound
      exact absurd rfl hfound
    · rw [Function.update_of_ne heq] at hfound
      exact tree.isComponent above name hfound
  mem_places := by
    intro other hfound
    by_cases heq : other = place
    · rw [heq, Function.update_self] at hfound
      exact absurd rfl hfound
    · rw [Function.update_of_ne heq] at hfound
      exact tree.mem_places other hfound

/-! ### Moving a subtree -/

/-- Move a subtree to a place in a folder outside it. -/
def moveTo (source target : List Component) (hsource : source ≠ [])
    (hfolder : Content.InFolder tree.content target) (hname : ∀ name ∈ target, IsComponent name)
    (houtside : ¬ source <+: target) : FileTree where
  content := Content.move tree.content source target
  places := tree.places ++ tree.places.map fun place ↦ target ++ place.drop source.length
  root := by
    have htarget : ¬ target <+: [] := fun h ↦ hfolder.1 (List.prefix_nil.mp h)
    have hnil : ¬ source <+: [] := fun h ↦ hsource (List.prefix_nil.mp h)
    rw [Content.move, if_neg htarget, if_neg hnil, tree.root]
  parent := by
    intro above name hfound
    by_cases hbelow : target <+: above
    · obtain ⟨rest, rfl⟩ := hbelow
      rw [Content.move, if_pos (by rw [List.append_assoc]; exact List.prefix_append _ _),
        List.append_assoc, List.drop_left, ← List.append_assoc] at hfound
      rw [Content.move, if_pos (List.prefix_append _ _), List.drop_left]
      exact tree.parent _ name hfound
    · by_cases htarget : above ++ [name] = target
      · have habove : above = target.dropLast := by simp [← htarget]
        have hout : ¬ source <+: above := fun h ↦
          houtside (h.trans (by rw [habove]; exact List.dropLast_prefix target))
        rw [Content.move, if_neg hbelow, if_neg hout, habove]
        exact hfolder.2
      · have hstill : ¬ target <+: above ++ [name] := by
          intro h
          rcases List.prefix_concat_iff.mp h with h | h
          · exact htarget h.symm
          · exact hbelow h
        rw [Content.move, if_neg hstill] at hfound
        by_cases hsrc : source <+: above ++ [name]
        · rw [if_pos hsrc] at hfound
          exact absurd rfl hfound
        · rw [if_neg hsrc] at hfound
          have hout : ¬ source <+: above := fun h ↦ hsrc (h.trans (List.prefix_append _ _))
          rw [Content.move, if_neg hbelow, if_neg hout]
          exact tree.parent above name hfound
  isComponent := by
    intro above name hfound
    by_cases hbelow : target <+: above ++ [name]
    · by_cases htarget : above ++ [name] = target
      · exact hname name (by simp [← htarget])
      · rcases List.prefix_concat_iff.mp hbelow with h | ⟨rest, rfl⟩
        · exact absurd h.symm htarget
        · rw [Content.move, if_pos hbelow, List.append_assoc, List.drop_left,
            ← List.append_assoc] at hfound
          exact tree.isComponent _ name hfound
    · rw [Content.move, if_neg hbelow] at hfound
      by_cases hsrc : source <+: above ++ [name]
      · rw [if_pos hsrc] at hfound
        exact absurd rfl hfound
      · rw [if_neg hsrc] at hfound
        exact tree.isComponent above name hfound
  mem_places := by
    intro place hfound
    rw [List.mem_append, List.mem_map]
    by_cases hbelow : target <+: place
    · obtain ⟨rest, rfl⟩ := hbelow
      rw [Content.move, if_pos (List.prefix_append _ _), List.drop_left] at hfound
      exact .inr ⟨source ++ rest, tree.mem_places _ hfound, by simp⟩
    · rw [Content.move, if_neg hbelow] at hfound
      by_cases hsrc : source <+: place
      · rw [if_pos hsrc] at hfound
        exact absurd rfl hfound
      · rw [if_neg hsrc] at hfound
        exact .inl (tree.mem_places place hfound)

/-! ### The calls -/

instance (content : Content) (place : List Component) : Decidable (content.InFolder place) :=
  inferInstanceAs (Decidable (_ ∧ _))

/-- `writeFile` on a disk given by its content. -/
def writeFile (path data : List Char) : Except FsError FileTree :=
  match hplace : resolve path with
  | none => .error .other
  | some place =>
    if hok : Content.InFolder tree.content place ∧ tree.content place ≠ some .folder then
      .ok (tree.put place (.file data) hok.1 (isComponent_of_mem_resolve hplace) hok.2)
    else .error .other

/-- `mkdir` on a disk given by its content. -/
def mkdir (path : List Char) : Except FsError FileTree :=
  match hplace : resolve path with
  | none => .error .other
  | some place =>
    if hok : Content.InFolder tree.content place ∧ tree.content place = none then
      .ok (tree.put place .folder hok.1 (isComponent_of_mem_resolve hplace) (by simp [hok.2]))
    else .error .other

/-- `unlink` on a disk given by its content. -/
def unlink (path : List Char) : Except FsError FileTree :=
  match resolve path with
  | none => .error .other
  | some place =>
    match hplace : tree.content place with
    | some (.file _) =>
      .ok (tree.remove place (fun hroot ↦ by simp [hroot, tree.root] at hplace)
        (tree.none_of_not_folder (by simp [hplace])))
    | some .folder => .error .other
    | none => .error .enoent

/-- `rmdir` on a disk given by its content. -/
def rmdir (path : List Char) : Except FsError FileTree :=
  match resolve path with
  | none => .error .other
  | some place =>
    if hok : place ≠ [] ∧ tree.content place = some .folder ∧ ¬ tree.HasChild place then
      .ok (tree.remove place hok.1 fun name ↦ by
        by_contra hname
        exact hok.2.2 (tree.hasChild_iff.mpr ⟨name, hname⟩))
    else .error .other

/-- What `rename` accepts as its new place: nothing is there, or a file to be replaced by a file,
or an empty folder to be replaced by a folder. -/
def MayReplace (source target : List Component) : Prop :=
  match tree.content source, tree.content target with
  | some _, none => True
  | some (.file _), some (.file _) => True
  | some .folder, some .folder => ¬ tree.HasChild target
  | _, _ => False

instance (source target : List Component) : Decidable (tree.MayReplace source target) := by
  unfold MayReplace
  split <;> infer_instance

theorem content_ne_none_of_mayReplace {source target : List Component}
    (hreplace : tree.MayReplace source target) : tree.content source ≠ none := by
  intro hnone
  simp [MayReplace, hnone] at hreplace

/-- `rename` on a disk given by its content. -/
def rename (path newPath : List Char) : Except FsError FileTree :=
  match resolve path with
  | none => .error .other
  | some source =>
    match htarget : resolve newPath with
    | none => .error .other
    | some target =>
      if hok : source ≠ [] ∧ Content.InFolder tree.content target ∧ ¬ source <+: target ∧
          tree.MayReplace source target then
        .ok (tree.moveTo source target hok.1 hok.2.1 (isComponent_of_mem_resolve htarget) hok.2.2.1)
      else .error .other

/-- A bound on the length of the places in use. -/
def height : ℕ :=
  tree.places.foldr (fun place bound ↦ max place.length bound) 0

theorem length_le_height {place : List Component} (hfound : tree.content place ≠ none) :
    place.length ≤ tree.height := by
  have hmem := tree.mem_places place hfound
  unfold height
  generalize tree.places = places at hmem
  induction places with
  | nil => cases hmem
  | cons first rest ih =>
    rw [List.foldr_cons]
    rcases List.mem_cons.mp hmem with rfl | hrest
    · exact le_max_left _ _
    · exact (ih hrest).trans (le_max_right _ _)

end FileTree

/-- The file system whose disks are given by their content. -/
def fileTrees : FileSystem FileTree where
  stat tree path :=
    match (resolve path).bind tree.content with
    | some node => .ok node.kind
    | none => .error .enoent
  readdir tree path :=
    match resolve path with
    | none => .error .other
    | some place =>
      if tree.content place = some .folder then .ok (tree.names place) else .error .enotdir
  readFile tree path :=
    match (resolve path).bind tree.content with
    | some (.file data) => .ok data
    | some .folder => .error .other
    | none => .error .enoent
  writeFile := FileTree.writeFile
  mkdir := FileTree.mkdir
  unlink := FileTree.unlink
  rmdir := FileTree.rmdir
  rename := FileTree.rename
  height := FileTree.height

namespace FileTree

variable {tree after : FileTree} {path newPath data : List Char} {place source target : List Component}

theorem writeFile_eq_ok (hplace : resolve path = some place)
    (hwrite : tree.writeFile path data = .ok after) :
    tree.content place ≠ some .folder ∧
      after.content = Function.update tree.content place (some (.file data)) := by
  unfold writeFile at hwrite
  split at hwrite
  · cases hwrite
  · next found hfound =>
    obtain rfl := Option.some.inj (hfound.symm.trans hplace)
    split at hwrite
    · next hok =>
      obtain rfl := Except.ok.inj hwrite
      exact ⟨hok.2, rfl⟩
    · cases hwrite

theorem writeFile_succeeds (data : List Char) (hplace : resolve path = some place)
    (hfolder : Content.InFolder tree.content place) (hfile : tree.content place ≠ some .folder) :
    ∃ after, tree.writeFile path data = .ok after := by
  unfold writeFile
  split
  · simp_all
  · next found hfound =>
    obtain rfl := Option.some.inj (hfound.symm.trans hplace)
    rw [dif_pos ⟨hfolder, hfile⟩]
    exact ⟨_, rfl⟩

theorem mkdir_eq_ok (hplace : resolve path = some place) (hmkdir : tree.mkdir path = .ok after) :
    tree.content place = none ∧
      after.content = Function.update tree.content place (some .folder) := by
  unfold mkdir at hmkdir
  split at hmkdir
  · cases hmkdir
  · next found hfound =>
    obtain rfl := Option.some.inj (hfound.symm.trans hplace)
    split at hmkdir
    · next hok =>
      obtain rfl := Except.ok.inj hmkdir
      exact ⟨hok.2, rfl⟩
    · cases hmkdir

theorem mkdir_succeeds (hplace : resolve path = some place)
    (hfolder : Content.InFolder tree.content place) (hnone : tree.content place = none) :
    ∃ after, tree.mkdir path = .ok after := by
  unfold mkdir
  split
  · simp_all
  · next found hfound =>
    obtain rfl := Option.some.inj (hfound.symm.trans hplace)
    rw [dif_pos ⟨hfolder, hnone⟩]
    exact ⟨_, rfl⟩

theorem unlink_eq_ok (hplace : resolve path = some place) (hunlink : tree.unlink path = .ok after) :
    (∃ data, tree.content place = some (.file data)) ∧
      after.content = Function.update tree.content place none := by
  simp only [unlink, hplace] at hunlink
  split at hunlink
  · next data hdata =>
    obtain rfl := Except.ok.inj hunlink
    exact ⟨⟨data, hdata⟩, rfl⟩
  · cases hunlink
  · cases hunlink

theorem unlink_succeeds (hplace : resolve path = some place)
    (hfile : tree.content place = some (.file data)) : ∃ after, tree.unlink path = .ok after := by
  simp only [unlink, hplace]
  split
  · exact ⟨_, rfl⟩
  · simp_all
  · simp_all

theorem rmdir_eq_ok (hplace : resolve path = some place) (hrmdir : tree.rmdir path = .ok after) :
    tree.content place = some .folder ∧ (∀ name, tree.content (place ++ [name]) = none) ∧
      after.content = Function.update tree.content place none := by
  simp only [rmdir, hplace] at hrmdir
  split at hrmdir
  · next hok =>
    obtain rfl := Except.ok.inj hrmdir
    refine ⟨hok.2.1, fun name ↦ ?_, rfl⟩
    by_contra hname
    exact hok.2.2 (tree.hasChild_iff.mpr ⟨name, hname⟩)
  · cases hrmdir

theorem rmdir_succeeds (hplace : resolve path = some place) (hne : place ≠ [])
    (hfolder : tree.content place = some .folder)
    (hempty : ∀ name, tree.content (place ++ [name]) = none) :
    ∃ after, tree.rmdir path = .ok after := by
  have hchild : ¬ tree.HasChild place := by
    rw [hasChild_iff]
    rintro ⟨name, hname⟩
    exact hname (hempty name)
  simp only [rmdir, hplace]
  rw [dif_pos ⟨hne, hfolder, hchild⟩]
  exact ⟨_, rfl⟩

theorem rename_eq_ok (hsource : resolve path = some source) (htarget : resolve newPath = some target)
    (hrename : tree.rename path newPath = .ok after) :
    source ≠ [] ∧ tree.content source ≠ none ∧ (source = target ∨ ¬ source <+: target) ∧
      after.content = Content.move tree.content source target := by
  simp only [rename, hsource] at hrename
  split at hrename
  · cases hrename
  · next found hfound =>
    obtain rfl := Option.some.inj (hfound.symm.trans htarget)
    split at hrename
    · next hok =>
      obtain rfl := Except.ok.inj hrename
      exact ⟨hok.1, tree.content_ne_none_of_mayReplace hok.2.2.2, .inr hok.2.2.1, rfl⟩
    · cases hrename

theorem rename_succeeds (hsource : resolve path = some source)
    (htarget : resolve newPath = some target) (hne : source ≠ [])
    (hfound : tree.content source ≠ none) (houtside : ¬ source <+: target)
    (hfolder : Content.InFolder tree.content target) (hnone : tree.content target = none) :
    ∃ after, tree.rename path newPath = .ok after := by
  have hreplace : tree.MayReplace source target := by
    obtain ⟨node, hnode⟩ := Option.ne_none_iff_exists'.mp hfound
    simp [MayReplace, hnode, hnone]
  simp only [rename, hsource]
  split
  · simp_all
  · next found hfound =>
    obtain rfl := Option.some.inj (hfound.symm.trans htarget)
    rw [dif_pos ⟨hne, hfolder, houtside, hreplace⟩]
    exact ⟨_, rfl⟩

end FileTree

/-- Disks given by their content obey the laws. -/
theorem lawful_fileTrees : fileTrees.Lawful FileTree.content where
  root disk := disk.root
  parent {disk above name} := disk.parent above name
  isComponent {disk above name} := disk.isComponent above name
  length_le {disk place} := disk.length_le_height
  stat_found {disk path place node} hplace hnode := by
    simp [fileTrees, hplace, hnode]
  stat_missing {disk path place} hplace hnone := by
    simp [fileTrees, hplace, hnone]
  readdir_found {disk path place} hplace hfolder := by
    refine ⟨disk.names place, ?_, List.nodup_dedup _, fun name ↦ disk.mem_names⟩
    simp [fileTrees, hplace, hfolder]
  readdir_missing {disk path place} hplace hfolder := by
    simp [fileTrees, hplace, hfolder]
  readFile_found {disk path place data} hplace hfile := by
    simp [fileTrees, hplace, hfile]
  writeFile_effect := FileTree.writeFile_eq_ok
  writeFile_succeeds := FileTree.writeFile_succeeds
  mkdir_effect := FileTree.mkdir_eq_ok
  mkdir_succeeds := FileTree.mkdir_succeeds
  unlink_effect := FileTree.unlink_eq_ok
  unlink_succeeds := FileTree.unlink_succeeds
  rmdir_effect := FileTree.rmdir_eq_ok
  rmdir_succeeds := FileTree.rmdir_succeeds
  rename_effect := FileTree.rename_eq_ok
  rename_succeeds := FileTree.rename_succeeds

/-- It reads nothing but files. -/
theorem readsFilesOnly_fileTrees : fileTrees.ReadsFilesOnly FileTree.content where
  readFile {disk path place} hplace hfile := by
    cases hnode : disk.content place with
    | none => exact ⟨.enoent, by simp [fileTrees, hplace, hnode]⟩
    | some node =>
      cases node with
      | folder => exact ⟨.other, by simp [fileTrees, hplace, hnode]⟩
      | file data => exact absurd hnode (hfile data)

/-- Its calls on a path that climbs above the root fail. -/
theorem enclosed_fileTrees : fileTrees.Enclosed where
  readdir {disk path} hpath := by
    refine ⟨.other, ?_⟩
    simp [fileTrees, hpath]
  writeFile {disk path data} hpath := by
    refine ⟨.other, ?_⟩
    show FileTree.writeFile disk path data = .error .other
    rw [FileTree.writeFile]
    split
    · rfl
    · next place hplace => exact absurd (hpath.symm.trans hplace) (by simp)
  mkdir {disk path} hpath := by
    refine ⟨.other, ?_⟩
    show FileTree.mkdir disk path = .error .other
    rw [FileTree.mkdir]
    split
    · rfl
    · next place hplace => exact absurd (hpath.symm.trans hplace) (by simp)
  rename {disk path newPath} hpath := by
    refine ⟨.other, ?_⟩
    show FileTree.rename disk path newPath = .error .other
    rw [FileTree.rename]
    split
    · rfl
    · next source hsource =>
      split
      · rfl
      · next target htarget =>
        rcases hpath with hpath | hpath
        · exact absurd (hpath.symm.trans hsource) (by simp)
        · exact absurd (hpath.symm.trans htarget) (by simp)

end Playground.Library
