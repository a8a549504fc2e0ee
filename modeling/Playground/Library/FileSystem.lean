import Mathlib.Data.List.Basic
import Mathlib.Data.List.Infix
import Mathlib.Logic.Function.Basic

/-!
# Hierarchical file systems

`resolve` is what an absolute path denotes: the components below the root, after empty components
and `.` are dropped and `..` is taken back. A path that climbs above the root denotes nothing.

`FileSystem` lists the calls of a file system whose disk is a value: a call that changes something
returns the new disk, a call that fails leaves the old one. `FileSystem.Lawful` says what makes it
hierarchical. `node` is the content of a disk, from places to folders and files. Below a folder only
there are entries, a call reads or changes the place its path resolves to and no other, and renaming
moves the whole subtree. What a call does is stated of the calls that succeed; the calls that have
to succeed are the ones whose preconditions hold. Renaming onto an existing entry may fail or
replace it.

Not formalized here: permissions, links, times, and the order of a directory listing.
-/

set_option autoImplicit false
set_option relaxedAutoImplicit false

namespace Playground.Library

/-! ### Paths -/

/-- A component of a path. -/
abbrev Component := List Char

/-- A string that can be the name of an entry. -/
def IsComponent (name : Component) : Prop :=
  name ≠ [] ∧ name ≠ ['.'] ∧ name ≠ ['.', '.'] ∧ '/' ∉ name

instance (name : Component) : Decidable (IsComponent name) :=
  inferInstanceAs (Decidable (_ ∧ _ ∧ _ ∧ _))

/-- Follow one component from a place. -/
def resolveStep (above : List Component) (component : Component) : Option (List Component) :=
  if component = [] ∨ component = ['.'] then some above
  else if component = ['.', '.'] then if above = [] then none else some above.dropLast
  else some (above ++ [component])

/-- The place that an absolute path denotes, as the components below the root. -/
def resolve (path : List Char) : Option (List Component) :=
  (path.splitOn '/').foldlM resolveStep []

/-- A path goes on from the place where its first part ends. -/
theorem resolve_append_slash (first second : List Char) :
    resolve (first ++ '/' :: second) =
      (resolve first).bind fun above ↦ (second.splitOn '/').foldlM resolveStep above := by
  rw [resolve, List.splitOn_append_cons_self, List.foldlM_append]
  rfl

/-- A part without slashes ends at the first slash. -/
theorem eq_of_append_slash {first second rest other : List Char} (hfirst : '/' ∉ first) (hsecond : '/' ∉ second)
    (hsame : first ++ '/' :: rest = second ++ '/' :: other) : first = second ∧ rest = other := by
  have hsplit := congrArg (List.splitOn '/') hsame
  rw [List.splitOn_append_cons_self, List.splitOn_append_cons_self, List.splitOn_eq_singleton hfirst,
    List.splitOn_eq_singleton hsecond] at hsplit
  obtain rfl := (List.cons.inj hsplit).1
  exact ⟨rfl, (List.cons.inj (List.append_cancel_left hsame)).2⟩

/-- A name after a slash is one step. -/
theorem resolve_append_slash_name (path : List Char) {name : Component} (hname : '/' ∉ name) :
    resolve (path ++ '/' :: name) = (resolve path).bind fun above ↦ resolveStep above name := by
  rw [resolve_append_slash, List.splitOn_eq_singleton hname]
  congr 1
  funext above
  simp

/-- A trailing slash makes no difference. -/
@[simp] theorem resolve_append_trailing (path : List Char) :
    resolve (path ++ ['/']) = resolve path := by
  rw [resolve_append_slash_name path (List.not_mem_nil)]
  cases hpath : resolve path with
  | none => rfl
  | some above => simp [resolveStep]

/-- A component leads one level down. -/
theorem resolveStep_of_isComponent {name : Component} (hname : IsComponent name)
    (above : List Component) : resolveStep above name = some (above ++ [name]) := by
  obtain ⟨hempty, hdot, hdots, -⟩ := hname
  simp [resolveStep, hempty, hdot, hdots]

/-- The parts of a split string do not contain the separator. -/
theorem not_mem_of_mem_splitOn {separator : Char} {text : List Char} :
    ∀ part ∈ text.splitOn separator, separator ∉ part := by
  induction text with
  | nil => simp
  | cons first rest ih =>
    rw [List.splitOn_cons_eq_if_modifyHead]
    by_cases hfirst : first = separator
    · simpa [hfirst] using ih
    · obtain ⟨head, tail, hsplit⟩ :=
        List.exists_cons_of_ne_nil (List.splitOn_ne_nil separator rest)
      rw [hsplit] at ih
      simp only [beq_iff_eq, hfirst, if_false, hsplit, List.modifyHead_cons, List.mem_cons,
        forall_eq_or_imp, not_or] at ih ⊢
      exact ⟨⟨fun heq ↦ hfirst heq.symm, ih.1⟩, ih.2⟩

/-- Assumes: a part without slashes. One step from a place with proper components leads to a place
with proper components. -/
theorem isComponent_of_resolveStep {above found : List Component} {part : Component}
    (habove : ∀ name ∈ above, IsComponent name) (hpart : '/' ∉ part)
    (hstep : resolveStep above part = some found) : ∀ name ∈ found, IsComponent name := by
  unfold resolveStep at hstep
  by_cases hskip : part = [] ∨ part = ['.']
  · rw [if_pos hskip] at hstep
    rwa [← Option.some.inj hstep]
  · rw [if_neg hskip] at hstep
    by_cases hup : part = ['.', '.']
    · simp only [if_pos hup, Option.ite_none_left_eq_some] at hstep
      intro name hname
      rw [← Option.some.inj hstep.2] at hname
      exact habove name (List.mem_of_mem_dropLast hname)
    · rw [if_neg hup] at hstep
      intro name hname
      rw [← Option.some.inj hstep, List.mem_append, List.mem_singleton] at hname
      rcases hname with hname | rfl
      · exact habove name hname
      · exact ⟨fun h ↦ hskip (.inl h), fun h ↦ hskip (.inr h), hup, hpart⟩

/-- Every component of a place is one. -/
theorem isComponent_of_mem_resolve {path : List Char} {place : List Component}
    (hplace : resolve path = some place) : ∀ name ∈ place, IsComponent name := by
  have hwalk : ∀ (parts above : List Component), (∀ part ∈ parts, '/' ∉ part) →
      (∀ name ∈ above, IsComponent name) → ∀ {found}, parts.foldlM resolveStep above = some found →
        ∀ name ∈ found, IsComponent name := by
    intro parts
    induction parts with
    | nil =>
      intro above _ habove found hfound
      obtain rfl : above = found := by simpa using hfound
      exact habove
    | cons part rest ih =>
      intro above hslash habove found hfound
      rw [List.foldlM_cons] at hfound
      obtain ⟨next, hstep, hrest⟩ := Option.bind_eq_some_iff.mp hfound
      have hnext := isComponent_of_resolveStep habove (hslash part List.mem_cons_self) hstep
      exact ih next (fun other hother ↦ hslash other (List.mem_cons_of_mem _ hother)) hnext hrest
  exact hwalk _ [] not_mem_of_mem_splitOn (by simp) hplace

/-! ### Disks -/

/-- What a place holds. -/
inductive Node
  | folder
  | file (data : List Char)
  deriving DecidableEq

/-- Whether an entry is a folder or a file. -/
inductive NodeKind
  | folder
  | file
  deriving DecidableEq

/-- The kind of an entry. -/
def Node.kind : Node → NodeKind
  | .folder => .folder
  | .file _ => .file

/-- Why a call fails: the entry does not exist, something above it is not a folder, or another
reason. -/
inductive FsError
  | enoent
  | enotdir
  | other
  deriving DecidableEq

/-- The calls of a file system, on disks of type `F`. `height` bounds the depth of the entries. -/
structure FileSystem (F : Type) where
  stat : F → List Char → Except FsError NodeKind
  readdir : F → List Char → Except FsError (List Component)
  readFile : F → List Char → Except FsError (List Char)
  writeFile : F → List Char → List Char → Except FsError F
  mkdir : F → List Char → Except FsError F
  unlink : F → List Char → Except FsError F
  rmdir : F → List Char → Except FsError F
  rename : F → List Char → List Char → Except FsError F
  height : F → ℕ

/-- The content of a disk: what each place holds. -/
abbrev Content := List Component → Option Node

/-- The subtree at one place moved to another. -/
def Content.move (content : Content) (source target : List Component) : Content := fun place ↦
  if target <+: place then content (source ++ place.drop target.length)
  else if source <+: place then none
  else content place

/-- The subtree at a place taken away. -/
def Content.remove (content : Content) (place : List Component) : Content := fun other ↦
  if place <+: other then none else content other

/-- A place that a new entry can be written to: it lies in a folder. -/
def Content.InFolder (content : Content) (place : List Component) : Prop :=
  place ≠ [] ∧ content place.dropLast = some .folder

/-- The laws of a hierarchical file system. -/
structure FileSystem.Lawful {F : Type} (system : FileSystem F) (content : F → Content) : Prop where
  root (disk : F) : content disk [] = some .folder
  parent {disk : F} {above : List Component} {name : Component} :
    content disk (above ++ [name]) ≠ none → content disk above = some .folder
  isComponent {disk : F} {above : List Component} {name : Component} :
    content disk (above ++ [name]) ≠ none → IsComponent name
  length_le {disk : F} {place : List Component} :
    content disk place ≠ none → place.length ≤ system.height disk
  stat_found {disk : F} {path : List Char} {place : List Component} {node : Node} :
    resolve path = some place → content disk place = some node →
      system.stat disk path = .ok node.kind
  stat_missing {disk : F} {path : List Char} {place : List Component} :
    resolve path = some place → content disk place = none →
      system.stat disk path = .error .enoent ∨ system.stat disk path = .error .enotdir
  readdir_found {disk : F} {path : List Char} {place : List Component} :
    resolve path = some place → content disk place = some .folder →
      ∃ names, system.readdir disk path = .ok names ∧ names.Nodup ∧
        ∀ name, name ∈ names ↔ content disk (place ++ [name]) ≠ none
  readdir_missing {disk : F} {path : List Char} {place : List Component} :
    resolve path = some place → content disk place ≠ some .folder →
      ∃ error, system.readdir disk path = .error error
  readFile_found {disk : F} {path : List Char} {place : List Component} {data : List Char} :
    resolve path = some place → content disk place = some (.file data) →
      system.readFile disk path = .ok data
  writeFile_effect {disk after : F} {path data : List Char} {place : List Component} :
    resolve path = some place → system.writeFile disk path data = .ok after →
      content disk place ≠ some .folder ∧
        content after = Function.update (content disk) place (some (.file data))
  writeFile_succeeds {disk : F} {path : List Char} {place : List Component} (data : List Char) :
    resolve path = some place → (content disk).InFolder place →
      content disk place ≠ some .folder → ∃ after, system.writeFile disk path data = .ok after
  mkdir_effect {disk after : F} {path : List Char} {place : List Component} :
    resolve path = some place → system.mkdir disk path = .ok after →
      content disk place = none ∧
        content after = Function.update (content disk) place (some .folder)
  mkdir_succeeds {disk : F} {path : List Char} {place : List Component} :
    resolve path = some place → (content disk).InFolder place → content disk place = none →
      ∃ after, system.mkdir disk path = .ok after
  unlink_effect {disk after : F} {path : List Char} {place : List Component} :
    resolve path = some place → system.unlink disk path = .ok after →
      (∃ data, content disk place = some (.file data)) ∧
        content after = Function.update (content disk) place none
  unlink_succeeds {disk : F} {path data : List Char} {place : List Component} :
    resolve path = some place → content disk place = some (.file data) →
      ∃ after, system.unlink disk path = .ok after
  rmdir_effect {disk after : F} {path : List Char} {place : List Component} :
    resolve path = some place → system.rmdir disk path = .ok after →
      content disk place = some .folder ∧ (∀ name, content disk (place ++ [name]) = none) ∧
        content after = Function.update (content disk) place none
  rmdir_succeeds {disk : F} {path : List Char} {place : List Component} :
    resolve path = some place → place ≠ [] → content disk place = some .folder →
      (∀ name, content disk (place ++ [name]) = none) → ∃ after, system.rmdir disk path = .ok after
  rename_effect {disk after : F} {path newPath : List Char} {source target : List Component} :
    resolve path = some source → resolve newPath = some target →
      system.rename disk path newPath = .ok after →
      source ≠ [] ∧ content disk source ≠ none ∧ (source = target ∨ ¬ source <+: target) ∧
        content after = (content disk).move source target
  rename_succeeds {disk : F} {path newPath : List Char} {source target : List Component} :
    resolve path = some source → resolve newPath = some target → source ≠ [] →
      content disk source ≠ none → ¬ source <+: target → (content disk).InFolder target →
      content disk target = none → ∃ after, system.rename disk path newPath = .ok after

/-- A call on a path that climbs above the root fails. -/
structure FileSystem.Enclosed {F : Type} (system : FileSystem F) : Prop where
  readdir {disk : F} {path : List Char} : resolve path = none →
    ∃ error, system.readdir disk path = .error error
  writeFile {disk : F} {path data : List Char} : resolve path = none →
    ∃ error, system.writeFile disk path data = .error error
  mkdir {disk : F} {path : List Char} : resolve path = none →
    ∃ error, system.mkdir disk path = .error error
  rename {disk : F} {path newPath : List Char} : resolve path = none ∨ resolve newPath = none →
    ∃ error, system.rename disk path newPath = .error error

/-- Reading what is no file fails. -/
structure FileSystem.ReadsFilesOnly {F : Type} (system : FileSystem F) (content : F → Content) : Prop where
  readFile {disk : F} {path : List Char} {place : List Component} : resolve path = some place →
    (∀ data, content disk place ≠ some (.file data)) → ∃ error, system.readFile disk path = .error error

namespace FileSystem.Lawful

variable {F : Type} {system : FileSystem F} {content : F → Content}

/-- Everything above an entry is a folder. -/
theorem folder_of_below (hlawful : system.Lawful content) {disk : F} {above : List Component} :
    ∀ {rest : List Component}, rest ≠ [] → content disk (above ++ rest) ≠ none →
      content disk above = some .folder := by
  intro rest
  induction rest using List.reverseRecOn with
  | nil => exact fun hrest ↦ absurd rfl hrest
  | append_singleton front name ih =>
    intro _ hfound
    rw [← List.append_assoc] at hfound
    have hfront := hlawful.parent hfound
    by_cases hempty : front = []
    · rwa [hempty, List.append_nil] at hfront
    · exact ih hempty (by rw [hfront]; exact Option.some_ne_none _)

/-- There is nothing below a place that is not a folder. -/
theorem none_below (hlawful : system.Lawful content) {disk : F} {above rest : List Component}
    (habove : content disk above ≠ some .folder) (hrest : rest ≠ []) :
    content disk (above ++ rest) = none := by
  by_contra hfound
  exact habove (hlawful.folder_of_below hrest hfound)

/-- Where there is nothing below an entry, taking the entry away takes its subtree away. -/
theorem update_eq_remove (hlawful : system.Lawful content) {disk : F} {place : List Component}
    (hempty : ∀ name, content disk (place ++ [name]) = none) :
    Function.update (content disk) place none = (content disk).remove place := by
  have hbelow : ∀ rest, rest ≠ [] → content disk (place ++ rest) = none := by
    intro rest hrest
    cases rest with
    | nil => exact absurd rfl hrest
    | cons name rest =>
      by_cases hlast : rest = []
      · rw [hlast]
        exact hempty name
      · have hname : content disk (place ++ [name]) ≠ some .folder := by
          rw [hempty name]
          exact fun heq ↦ by cases heq
        have hnone := hlawful.none_below hname hlast
        rwa [List.append_assoc] at hnone
  funext other
  by_cases hsame : other = place
  · rw [hsame, Function.update_self, Content.remove, if_pos (List.prefix_refl _)]
  · rw [Function.update_of_ne hsame, Content.remove]
    split
    · next hprefix =>
      obtain ⟨rest, rfl⟩ := hprefix
      exact hbelow rest fun hrest ↦ hsame (by rw [hrest, List.append_nil])
    · rfl

end FileSystem.Lawful

end Playground.Library
