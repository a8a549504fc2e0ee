import Playground.Explorer.DiskFrames
import Playground.Explorer.ItemPaths

/-!
# Loading a workspace

What `_initCurrentWorkspace` loads. An item below a folder is loaded if every name on the way to it is
valid: a file with its content, a folder if it is empty (`Lists`). `Loaded` says that the items of a
folder have been loaded and nothing else has changed. On a disk of a lawful file system, loading a
folder that is there always returns, with exactly these items (`setupFiles_eq_ok`).
-/

set_option autoImplicit false
set_option relaxedAutoImplicit false

namespace Playground.Explorer

open Library

/-! ### What is loaded -/

/-- The item that is loaded for a place: the file there, or the folder if it is empty. -/
def Shows (content : Content) (place : List Component) (item : ItemInfo) : Prop :=
  (∃ data, content place = some (.file data) ∧ item = ⟨some data, none⟩) ∨
    content place = some .folder ∧ (∀ name, content (place ++ [name]) = none) ∧ item = .empty

/-- An item below a folder is loaded under a path. -/
def Lists (content : Content) (folder : Str) (place : List Component) (path : Str)
    (item : ItemInfo) : Prop :=
  ∃ names : List Component, (∀ name ∈ names, isItemNameValid name = true) ∧
    itemPath folder names = path ∧ Shows content (place ++ names) item

/-- The items below a folder have been loaded, and every other path is as before. -/
structure Loaded (content : Content) (folder : Str) (place : List Component)
    (before after : ExplorerFiles) : Prop where
  listed : ∀ path item, Lists content folder place path item → after.lookup path = some (some item)
  others : ∀ path, (∀ item, ¬ Lists content folder place path item) →
    after.lookup path = before.lookup path

theorem Shows.ne_none {content : Content} {place : List Component} {item : ItemInfo}
    (hshows : Shows content place item) : content place ≠ none := by
  rcases hshows with ⟨data, hfile, -⟩ | ⟨hfolder, -, -⟩
  · rw [hfile]
    exact Option.some_ne_none _
  · rw [hfolder]
    exact Option.some_ne_none _

/-- One item is loaded for a place. -/
theorem Shows.unique {content : Content} {place : List Component} {item other : ItemInfo}
    (hshows : Shows content place item) (hother : Shows content place other) : item = other := by
  rcases hshows with ⟨data, hfile, rfl⟩ | ⟨hfolder, -, rfl⟩
  · rcases hother with ⟨data', hfile', rfl⟩ | ⟨hfolder', -, -⟩
    · rw [hfile] at hfile'
      cases hfile'
      rfl
    · rw [hfile] at hfolder'
      cases hfolder'
  · rcases hother with ⟨data', hfile', -⟩ | ⟨-, -, rfl⟩
    · rw [hfolder] at hfile'
      cases hfile'
    · rfl

/-- What is loaded of a folder: the folder itself if it is empty, and what is loaded of its items. -/
theorem lists_iff {content : Content} {folder : Str} {place : List Component} {path : Str}
    {item : ItemInfo} :
    Lists content folder place path item ↔
      folder = path ∧ Shows content place item ∨
        ∃ name, isItemNameValid name = true ∧
          Lists content (canonicalPath (joinPaths folder name)) (place ++ [name]) path item := by
  constructor
  · rintro ⟨names, hvalid, hpath, hshows⟩
    cases names with
    | nil => exact .inl ⟨hpath, by rwa [List.append_nil] at hshows⟩
    | cons name rest =>
      refine .inr ⟨name, hvalid name List.mem_cons_self, rest, ?_, hpath, ?_⟩
      · exact fun other hother ↦ hvalid other (List.mem_cons_of_mem _ hother)
      · rwa [List.append_assoc]
  · rintro (⟨hpath, hshows⟩ | ⟨name, hname, rest, hvalid, hpath, hshows⟩)
    · exact ⟨[], by simp, hpath, by rwa [List.append_nil]⟩
    · refine ⟨name :: rest, ?_, hpath, by rwa [List.append_assoc] at hshows⟩
      exact List.forall_mem_cons.mpr ⟨hname, hvalid⟩

section Lawful

variable {F : Type} {system : FileSystem F} {content : F → Content} {disk : F}

/-- Assumes: a lawful file system. The names on the way to an entry are components. -/
theorem isComponent_of_mem (hlawful : system.Lawful content) {place names : List Component}
    (hfound : content disk (place ++ names) ≠ none) : ∀ name ∈ names, IsComponent name := by
  intro name hname
  obtain ⟨above, below, rfl⟩ := List.append_of_mem hname
  have hentry : content disk (place ++ above ++ [name]) ≠ none := by
    by_cases hbelow : below = []
    · rwa [hbelow, ← List.append_assoc] at hfound
    · rw [@FileSystem.Lawful.folder_of_below _ _ _ hlawful _ _ below hbelow (by simpa using hfound)]
      exact Option.some_ne_none _
  exact hlawful.isComponent hentry

/-- Assumes: a lawful file system. A path lists one item. -/
theorem Lists.unique (hlawful : system.Lawful content) {folder path : Str}
    {place : List Component} (hfull : IsFullPath folder) {item other : ItemInfo}
    (hlists : Lists (content disk) folder place path item)
    (hother : Lists (content disk) folder place path other) : item = other := by
  obtain ⟨names, -, hnames, hshows⟩ := hlists
  obtain ⟨others, -, hothers, hshows'⟩ := hother
  have hsame : names = others :=
    itemPath_injective hfull (isComponent_of_mem hlawful hshows.ne_none)
      (isComponent_of_mem hlawful hshows'.ne_none) (hnames.trans hothers.symm)
  subst hsame
  exact hshows.unique hshows'

/-- Assumes: a lawful file system. Of a file nothing is loaded but the file. -/
theorem lists_file_iff (hlawful : system.Lawful content) {folder path : Str}
    {place : List Component} {data : List Char} (hfile : content disk place = some (.file data))
    {item : ItemInfo} :
    Lists (content disk) folder place path item ↔ folder = path ∧ item = ⟨some data, none⟩ := by
  have hshows : Shows (content disk) place item ↔ item = ⟨some data, none⟩ := by
    constructor
    · exact fun hshows ↦ hshows.unique (.inl ⟨data, hfile, rfl⟩)
    · exact fun hitem ↦ .inl ⟨data, hfile, hitem⟩
  constructor
  · rintro ⟨names, -, hpath, hnames⟩
    cases names with
    | nil => exact ⟨hpath, hshows.mp (by rwa [List.append_nil] at hnames)⟩
    | cons name rest =>
      refine absurd (hlawful.none_below ?_ (List.cons_ne_nil name rest)) hnames.ne_none
      rw [hfile]
      exact fun heq ↦ by cases heq
  · rintro ⟨hpath, hitem⟩
    exact lists_iff.mpr (.inl ⟨hpath, hshows.mpr hitem⟩)

/-- Assumes: a lawful file system. Of an empty folder the folder is loaded. -/
theorem lists_emptyFolder_iff (hlawful : system.Lawful content) {folder path : Str}
    {place : List Component} (hfolder : content disk place = some .folder)
    (hempty : ∀ name, content disk (place ++ [name]) = none) {item : ItemInfo} :
    Lists (content disk) folder place path item ↔ folder = path ∧ item = .empty := by
  have hshows : Shows (content disk) place .empty := .inr ⟨hfolder, hempty, rfl⟩
  constructor
  · intro hlists
    rcases lists_iff.mp hlists with ⟨hpath, hitem⟩ | ⟨name, -, rest, -, -, hbelow⟩
    · exact ⟨hpath, hitem.unique hshows⟩
    · have hchild : content disk (place ++ [name]) ≠ some .folder := by
        rw [hempty name]
        exact fun heq ↦ by cases heq
      by_cases hrest : rest = []
      · rw [hrest, List.append_nil] at hbelow
        exact absurd (hempty name) hbelow.ne_none
      · exact absurd (hlawful.none_below hchild hrest) hbelow.ne_none
  · rintro ⟨hpath, rfl⟩
    exact lists_iff.mpr (.inl ⟨hpath, hshows⟩)

/-- Of a folder with an entry the items in it are loaded, but not the folder itself. -/
theorem lists_folder_iff {content : Content} {folder path : Str} {place : List Component}
    (hfolder : content place = some .folder) {child : Component}
    (hchild : content (place ++ [child]) ≠ none) {item : ItemInfo} :
    Lists content folder place path item ↔
      ∃ name, isItemNameValid name = true ∧
        Lists content (canonicalPath (joinPaths folder name)) (place ++ [name]) path item := by
  rw [lists_iff]
  constructor
  · rintro (⟨-, ⟨data, hfile, -⟩ | ⟨-, hnone, -⟩⟩ | hbelow)
    · rw [hfolder] at hfile
      cases hfile
    · exact absurd (hnone child) hchild
    · exact hbelow
  · exact .inr

end Lawful

/-! ### Calls on full paths -/

section Calls

variable {F : Type} {system : FileSystem F} {content : F → Content} {state : State F}

/-- The state with other files. -/
def State.withFiles (state : State F) (files : ExplorerFiles) : State F :=
  { state with explorer := { state.explorer with files } }

theorem convertToFullPath_of_isFullPath {path : Str} (hfull : IsFullPath path) (state : State F) :
    convertToFullPath path state = .ok path state :=
  convertToFullPath_eq_ok.mpr ⟨state.convertToFullPath_of_root hfull, rfl⟩

theorem getMetadata_of_isFullPath {path : Str} {kind : NodeKind} (hfull : IsFullPath path)
    (hstat : system.stat state.disk path = .ok kind) :
    PgFs.getMetadata system path state = .ok kind state :=
  bind_eq_ok.mpr ⟨path, state, convertToFullPath_of_isFullPath hfull state,
    readDisk_eq_ok.mpr ⟨hstat, rfl⟩⟩

theorem readToString_of_isFullPath {path data : Str} (hfull : IsFullPath path)
    (hread : system.readFile state.disk path = .ok data) :
    PgFs.readToString system path state = .ok data state :=
  bind_eq_ok.mpr ⟨path, state, convertToFullPath_of_isFullPath hfull state,
    readDisk_eq_ok.mpr ⟨hread, rfl⟩⟩

theorem readDir_of_isFullPath {path : Str} {names : List Component} (hfull : IsFullPath path)
    (hread : system.readdir state.disk path = .ok names) :
    PgFs.readDir system path state = .ok names state :=
  bind_eq_ok.mpr ⟨path, state, convertToFullPath_of_isFullPath hfull state,
    readDisk_eq_ok.mpr ⟨hread, rfl⟩⟩

theorem getCanonicalPath_of_isFullPath {path : Str} (hfull : IsFullPath path) (state : State F) :
    getCanonicalPath path state = .ok (canonicalPath path) state := by
  refine bind_eq_ok.mpr ⟨path, state, convertToFullPath_of_isFullPath hfull state, ?_⟩
  unfold canonicalPath
  cases getItemTypeFromPath path <;> rfl

/-- A file that can be read is loaded. -/
theorem loadFile_of_isFullPath {path data : Str} (hfull : IsFullPath path)
    (hread : system.readFile state.disk path = .ok data) :
    loadFile system path state =
      .ok () (state.withFiles (state.explorer.files.set path (some ⟨some data, none⟩))) := by
  change EStateM.tryCatch (PgFs.readToString system path >>= _) _ state = _
  have hload : (PgFs.readToString system path >>= fun content ↦
      modifyExplorer fun explorer ↦
        { explorer with files := explorer.files.set path (some ⟨some content, none⟩) }) state =
      .ok () (state.withFiles (state.explorer.files.set path (some ⟨some data, none⟩))) :=
    bind_eq_ok.mpr ⟨data, state, readToString_of_isFullPath hfull hread, rfl⟩
  rw [EStateM.tryCatch, hload]

end Calls

/-! ### The loader -/

section Setup

variable {F : Type} {system : FileSystem F} {content : F → Content}

/-- The body of the loop of `setupFiles`. -/
def setupItem (system : FileSystem F) (fuel : ℕ) (subItemPath : Str) : Action F Unit := do
  let metadata ← PgFs.getMetadata system subItemPath
  if metadata = .file then loadFile system subItemPath else setupFiles system fuel subItemPath

/-- What `setupFiles` does with a bound: it loads every folder that is there and not too deep for the
bound. -/
def SetsUp (system : FileSystem F) (content : F → Content) (fuel : ℕ) : Prop :=
  ∀ (state : State F) (folder : Str) (place : List Component), IsFullPath folder →
    resolve folder = some place → content state.disk place = some .folder →
      system.height state.disk < fuel + place.length →
        ∃ files, setupFiles system fuel folder state = .ok () (state.withFiles files) ∧
          Loaded (content state.disk) folder place state.explorer.files files

/-- Assumes: a lawful file system, and that the bound is enough for the folders below. One round of
the loop loads an item of the folder. -/
theorem setupItem_eq_ok (hlawful : system.Lawful content) {fuel : ℕ}
    (hsetup : SetsUp system content fuel) {state : State F} {folder : Str}
    {place : List Component} {name : Component} (hfull : IsFullPath folder)
    (hplace : resolve folder = some place)
    (hheight : system.height state.disk < fuel + (place ++ [name]).length)
    (hentry : content state.disk (place ++ [name]) ≠ none) :
    ∃ files, setupItem system fuel (canonicalPath (joinPaths folder name)) state =
        .ok () (state.withFiles files) ∧
      Loaded (content state.disk) (canonicalPath (joinPaths folder name)) (place ++ [name])
        state.explorer.files files := by
  have hname := hlawful.isComponent hentry
  have hsubFull := isFullPath_canonicalPath_joinPaths hfull hname
  have hsubPlace := resolve_canonicalPath_joinPaths hfull.ne_nil hname hplace
  cases hnode : content state.disk (place ++ [name]) with
  | none => exact absurd hnode hentry
  | some node =>
    have hstat := getMetadata_of_isFullPath hsubFull (hlawful.stat_found hsubPlace hnode)
    cases node with
    | folder =>
      obtain ⟨files, hrun, hloaded⟩ := hsetup state _ _ hsubFull hsubPlace hnode hheight
      exact ⟨files, bind_eq_ok.mpr ⟨_, state, hstat, hrun⟩, hloaded⟩
    | file data =>
      have hread := hlawful.readFile_found hsubPlace hnode
      refine ⟨_, bind_eq_ok.mpr ⟨_, state, hstat, loadFile_of_isFullPath hsubFull hread⟩, ?_, ?_⟩
      · intro path item hlists
        obtain ⟨rfl, rfl⟩ := (lists_file_iff hlawful hnode).mp hlists
        exact OrderedMap.lookup_set_self _ _ _
      · intro path hnot
        refine OrderedMap.lookup_set_of_ne _ _ fun heq ↦ ?_
        exact hnot _ ((lists_file_iff hlawful hnode).mpr ⟨heq.symm, rfl⟩)

/-- Assumes: a lawful file system, and that the bound is enough for the folders below. The loop loads
the items of the folder that it is given. -/
theorem forM_setupItem_eq_ok (hlawful : system.Lawful content) {fuel : ℕ}
    (hsetup : SetsUp system content fuel) {folder : Str} {place : List Component}
    (hfull : IsFullPath folder) (hplace : resolve folder = some place) {names : List Component}
    (hvalid : ∀ name ∈ names, isItemNameValid name = true) :
    ∀ state : State F, system.height state.disk < fuel + 1 + place.length →
      (∀ name ∈ names, content state.disk (place ++ [name]) ≠ none) →
      ∃ files, (names.map fun name ↦ canonicalPath (joinPaths folder name)).forM
          (setupItem system fuel) state = .ok () (state.withFiles files) ∧
        (∀ name ∈ names, ∀ path item, Lists (content state.disk)
          (canonicalPath (joinPaths folder name)) (place ++ [name]) path item →
            files.lookup path = some (some item)) ∧
        ∀ path, (∀ name ∈ names, ∀ item, ¬ Lists (content state.disk)
          (canonicalPath (joinPaths folder name)) (place ++ [name]) path item) →
            files.lookup path = state.explorer.files.lookup path := by
  induction names with
  | nil => exact fun state _ _ ↦ ⟨state.explorer.files, rfl, by simp, fun _ _ ↦ rfl⟩
  | cons name rest ih =>
    intro state hheight hentries
    have hname : system.height state.disk < fuel + (place ++ [name]).length := by
      rw [List.length_append, List.length_singleton]
      omega
    obtain ⟨first, hfirst, hloaded⟩ := setupItem_eq_ok hlawful hsetup hfull hplace hname
      (hentries name List.mem_cons_self)
    obtain ⟨files, hrest, hlisted, hothers⟩ := ih
      (fun other hother ↦ hvalid other (List.mem_cons_of_mem _ hother)) (state.withFiles first)
      hheight fun other hother ↦ hentries other (List.mem_cons_of_mem _ hother)
    refine ⟨files, bind_eq_ok.mpr ⟨(), _, hfirst, hrest⟩, ?_, ?_⟩
    · intro other hother path item hlists
      have hparent : ∀ {later : Component} {found : ItemInfo}, later ∈ name :: rest →
          Lists (content state.disk) (canonicalPath (joinPaths folder later)) (place ++ [later])
            path found → Lists (content state.disk) folder place path found :=
        fun hlater hfound ↦ lists_iff.mpr (.inr ⟨_, hvalid _ hlater, hfound⟩)
      by_cases hlater : ∃ later ∈ rest, ∃ found, Lists (content state.disk)
          (canonicalPath (joinPaths folder later)) (place ++ [later]) path found
      · obtain ⟨later, hmem, found, hfound⟩ := hlater
        have hsame := (hparent (List.mem_cons_of_mem _ hmem) hfound).unique hlawful hfull
          (hparent hother hlists)
        rw [← hsame]
        exact hlisted later hmem path found hfound
      · have hnot : ∀ later ∈ rest, ∀ found, ¬ Lists (content state.disk)
            (canonicalPath (joinPaths folder later)) (place ++ [later]) path found :=
          fun later hmem found hfound ↦ hlater ⟨later, hmem, found, hfound⟩
        rw [hothers path hnot]
        rcases List.mem_cons.mp hother with rfl | hmem
        · exact hloaded.listed path item hlists
        · exact absurd hlists (hnot other hmem item)
    · intro path hnot
      rw [hothers path fun other hother ↦ hnot other (List.mem_cons_of_mem _ hother)]
      exact hloaded.others path (hnot name List.mem_cons_self)

/-- Assumes: a lawful file system. A folder that is there is loaded, with the items below it and
nothing else, if the bound is larger than the depth that is left. -/
theorem setupFiles_eq_ok (hlawful : system.Lawful content) (fuel : ℕ) :
    SetsUp system content fuel := by
  induction fuel with
  | zero =>
    intro state folder place _ _ hfolder hheight
    have hle := @FileSystem.Lawful.length_le _ _ _ hlawful state.disk place (by simp [hfolder])
    omega
  | succ fuel ih =>
    intro state folder place hfull hplace hfolder hheight
    obtain ⟨names, hread, -, hnames⟩ := hlawful.readdir_found hplace hfolder
    have hdir := readDir_of_isFullPath hfull hread
    by_cases hempty : names = []
    · have hnone : ∀ name, content state.disk (place ++ [name]) = none := by
        intro name
        by_contra hchild
        exact absurd ((hnames name).mpr hchild) (by simp [hempty])
      refine ⟨_, bind_eq_ok.mpr ⟨names, state, hdir, by rw [if_pos hempty]; rfl⟩, ?_, ?_⟩
      · intro path item hlists
        obtain ⟨rfl, rfl⟩ := (lists_emptyFolder_iff hlawful hfolder hnone).mp hlists
        exact OrderedMap.lookup_set_self _ _ _
      · intro path hnot
        refine OrderedMap.lookup_set_of_ne _ _ fun heq ↦ ?_
        exact hnot _ ((lists_emptyFolder_iff hlawful hfolder hnone).mpr ⟨heq.symm, rfl⟩)
    · have hchild : ∀ name ∈ names, content state.disk (place ++ [name]) ≠ none :=
        fun name hname ↦ (hnames name).mp hname
      have hvalid : ∀ name ∈ names.filter isItemNameValid, isItemNameValid name = true :=
        fun name hname ↦ (List.mem_filter.mp hname).2
      obtain ⟨files, hloop, hlisted, hothers⟩ := forM_setupItem_eq_ok hlawful ih hfull hplace hvalid
        state hheight fun name hname ↦ hchild name (List.mem_filter.mp hname).1
      have hpaths : ((names.filter isItemNameValid).mapM fun itemName ↦
          getCanonicalPath (joinPaths folder itemName)) state =
            .ok ((names.filter isItemNameValid).map fun name ↦ canonicalPath (joinPaths folder name))
              state := by
        refine mapM_eq_ok fun name _ ↦ getCanonicalPath_of_isFullPath ?_ state
        exact isFullPath_append (isFullPath_appendSlash hfull) _
      refine ⟨files, bind_eq_ok.mpr ⟨names, state, hdir, ?_⟩, ?_, ?_⟩
      · rw [if_neg hempty]
        exact bind_eq_ok.mpr ⟨_, state, hpaths, hloop⟩
      · intro path item hlists
        obtain ⟨first, hfirst⟩ := List.exists_mem_of_ne_nil names hempty
        obtain ⟨name, hname, hbelow⟩ := (lists_folder_iff hfolder (hchild first hfirst)).mp hlists
        have hentry : content state.disk (place ++ [name]) ≠ none := by
          obtain ⟨rest, -, -, hshows⟩ := hbelow
          by_cases hrest : rest = []
          · rw [hrest, List.append_nil] at hshows
            exact hshows.ne_none
          · rw [hlawful.folder_of_below hrest hshows.ne_none]
            exact Option.some_ne_none _
        exact hlisted name (List.mem_filter.mpr ⟨(hnames name).mpr hentry, hname⟩) path item hbelow
      · intro path hnot
        exact hothers path fun name hname item hbelow ↦
          hnot item (lists_iff.mpr (.inr ⟨name, (List.mem_filter.mp hname).2, hbelow⟩))

end Setup

end Playground.Explorer
