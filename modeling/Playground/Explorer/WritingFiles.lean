import Playground.Explorer.SettledWorkspaces

/-!
# Writing the files of the state

`PgExplorer._writeAllFromState` writes the items of the state to the disk, one after another: a file
with the folders above it, a folder with those above it. A write that returns puts the file in its
place and leaves the data of all other files alone (`WritesFile`), and creating folders leaves the data
of every file alone (`AddsFolders`). Once the loop has returned, each place holds what has been written
there last (`lastWritten`), and elsewhere what it held before (`writeAllFromState_returns`).

Not formalized here: what a write that throws leaves on the disk.
-/

set_option autoImplicit false
set_option relaxedAutoImplicit false

namespace Playground.Explorer

open Library

variable {F : Type} {system : FileSystem F} {json : Json} {content : F → Content}

/-! ### The data of the files -/

/-- The data of the file at a place. -/
def fileAt (content : Content) (place : List Component) : Option Str :=
  match content place with
  | some (.file data) => some data
  | _ => none

theorem fileAt_eq_some {content : Content} {place : List Component} {data : Str} :
    fileAt content place = some data ↔ content place = some (.file data) := by
  unfold fileAt
  split
  · next found hfound => simp [hfound]
  · next hother => exact iff_of_false (by simp) (hother data)

theorem fileAt_of_folder {content : Content} {place : List Component}
    (hfolder : content place = some .folder) : fileAt content place = none := by
  rw [fileAt, hfolder]

/-- The data of the files only depends on what is at their places. -/
theorem fileAt_congr {content other : Content} {place : List Component}
    (hsame : content place = other place) : fileAt content place = fileAt other place := by
  rw [fileAt, fileAt, hsame]

/-- A hidden file that is written leaves the data of all other files alone. -/
theorem fileAt_addHidden {before : Content} {place other : List Component} {dir file : Component}
    {data : Str} (hfree : HiddenFree before place dir file) (hother : other ≠ place ++ [dir, file]) :
    fileAt (addHidden before place dir file data) other = fileAt before other := by
  by_cases hdir : other = place ++ [dir]
  · have hfolder : addHidden before place dir file data other = some .folder := by
      rw [addHidden, Function.update_of_ne hother, hdir, addFolder, Function.update_self]
    have hnone : fileAt before other = none := by
      by_contra hsome
      obtain ⟨text, htext⟩ := Option.ne_none_iff_exists'.mp hsome
      exact hfree.dirKind text (hdir ▸ fileAt_eq_some.mp htext)
    rw [fileAt_of_folder hfolder, hnone]
  · exact fileAt_congr (addHidden_of_ne hdir hother)

/-- The files that are loaded of a folder are those that are reached through valid names. -/
theorem lists_iff_fileAt {content : Content} {folder path text : Str} {place : List Component} :
    Lists content folder place path ⟨some text, none⟩ ↔ ∃ names : List Component,
      (∀ name ∈ names, isItemNameValid name = true) ∧ itemPath folder names = path ∧
        fileAt content (place ++ names) = some text := by
  unfold Lists
  refine exists_congr fun names ↦ and_congr_right fun _ ↦ and_congr_right fun _ ↦ ?_
  rw [fileAt_eq_some]
  constructor
  · rintro (⟨data, hfile, hitem⟩ | ⟨-, -, hitem⟩)
    · cases hitem
      exact hfile
    · cases hitem
  · exact fun hfile ↦ .inl ⟨text, hfile, rfl⟩

/-- Folders have been added, and nothing has been taken away. -/
structure AddsFolders (before after : Content) : Prop where
  data : ∀ place, fileAt after place = fileAt before place
  folders : ∀ place, before place = some .folder → after place = some .folder

/-- A file has been written, folders have been added, and nothing else has been taken away. -/
structure WritesFile (before : Content) (place : List Component) (data : Str) (after : Content) :
    Prop where
  free : before place ≠ some .folder
  written : after place = some (.file data)
  others : ∀ other, other ≠ place → fileAt after other = fileAt before other
  folders : ∀ other, before other = some .folder → after other = some .folder

theorem AddsFolders.refl (before : Content) : AddsFolders before before :=
  ⟨fun _ ↦ rfl, fun _ hfolder ↦ hfolder⟩

/-- A folder that is created where nothing is takes nothing away. -/
theorem AddsFolders.update {before after : Content} (hadds : AddsFolders before after)
    {place : List Component} (hnone : after place = none) :
    AddsFolders before (Function.update after place (some .folder)) := by
  constructor
  · intro other
    rw [← hadds.data other]
    by_cases hother : other = place
    · rw [hother, fileAt, fileAt, Function.update_self, hnone]
    · exact fileAt_congr (Function.update_of_ne hother _ _)
  · intro other hfolder
    by_cases hother : other = place
    · rw [hother, Function.update_self]
    · rw [Function.update_of_ne hother, hadds.folders other hfolder]

/-- A file that is written after folders have been added. -/
theorem AddsFolders.writesFile {before middle : Content} (hadds : AddsFolders before middle)
    {place : List Component} (hfree : middle place ≠ some .folder) (data : Str) :
    WritesFile before place data (Function.update middle place (some (.file data))) := by
  refine ⟨fun hfolder ↦ hfree (hadds.folders place hfolder), Function.update_self _ _ _, ?_, ?_⟩
  · intro other hother
    rw [← hadds.data other]
    exact fileAt_congr (Function.update_of_ne hother _ _)
  · intro other hfolder
    have hother : other ≠ place := by
      rintro rfl
      exact hfree (hadds.folders other hfolder)
    rw [Function.update_of_ne hother, hadds.folders other hfolder]

/-! ### `PgFs` -/

section Calls

variable {state after : State F} {path : Str}

/-- Having added folders only is a property that creating folders keeps. -/
theorem robust_addsFolders (before : Content) :
    Robust content (fun _ ↦ False)
      fun state : State F ↦ AddsFolders before (content state.disk) where
  folder _ _ _ hadds hnone hwritten := by
    show AddsFolders before (content _)
    rw [hwritten]
    exact hadds.update hnone
  file _ _ _ _ _ hwrites := absurd hwrites id

/-- Assumes: a lawful file system whose calls fail above the root. A call of `createDir` that returns
has changed nothing but the disk, to which it has added folders. -/
theorem createDir_returns (hlawful : system.Lawful content) (henclosed : system.Enclosed)
    {createParents : Bool} (hrun : PgFs.createDir system path createParents state = .ok () after) :
    ∃ disk, after = { state with disk } ∧ AddsFolders (content state.disk) (content disk) := by
  have hsame : SameBut state after :=
    Triple.of_ok ((blind_sameBut state).createDir path createParents)
      (show SameBut state state from rfl) hrun
  have hadds : AddsFolders (content state.disk) (content after.disk) :=
    Triple.of_ok
      ((robust_addsFolders (content state.disk)).createDir hlawful henclosed path createParents)
      (AddsFolders.refl _) hrun
  exact ⟨after.disk, hsame, hadds⟩

/-- Assumes: a lawful file system whose calls fail above the root. A call of `writeFile` that returns
has changed nothing but the disk, to which it has written the file. -/
theorem writeFile_returns (hlawful : system.Lawful content) (henclosed : system.Enclosed)
    {fullPath : Str} {place : List Component} (hfull : state.convertToFullPath path = .ok fullPath)
    (hplace : resolve fullPath = some place) {data : Str}
    (hrun : PgFs.writeFile system path data true state = .ok () after) :
    ∃ disk, after = { state with disk } ∧
      WritesFile (content state.disk) place data (content disk) := by
  obtain ⟨converted, start, hconvert, hrest⟩ := bind_eq_ok.mp hrun
  obtain ⟨hconverted, rfl⟩ := convertToFullPath_eq_ok.mp hconvert
  obtain rfl : fullPath = converted := Except.ok.inj (hfull.symm.trans hconverted)
  obtain ⟨done, middle, hcreate, hwrite⟩ := bind_eq_ok.mp hrest
  obtain ⟨created, rfl, hadds⟩ := createDir_returns hlawful henclosed hcreate
  obtain ⟨disk, hwritten, rfl⟩ := onDisk_eq_ok.mp hwrite
  obtain ⟨hfree, heffect⟩ := hlawful.writeFile_effect hplace hwritten
  refine ⟨disk, rfl, ?_⟩
  rw [heffect]
  exact hadds.writesFile hfree data

end Calls

/-! ### The loop -/

/-- Whether `_writeAllFromState` writes a file for a path. -/
def IsFilePath (path : Str) : Prop :=
  getItemTypeFromPath path = .file

instance (path : Str) : Decidable (IsFilePath path) :=
  inferInstanceAs (Decidable (getItemTypeFromPath path = .file))

/-- What is written to a place of an entry: the content of its item, if it is written there as a file. -/
def writtenAt (place : List Component) (entry : Str × Option ItemInfo) : Option Str :=
  if IsFilePath entry.1 ∧ resolve entry.1 = some place then
    some ((entry.2.bind ItemInfo.content).getD [])
  else none

/-- What is written to a place last. -/
def lastWritten (entries : List (Str × Option ItemInfo)) (place : List Component) : Option Str :=
  (entries.filterMap (writtenAt place)).getLast?

theorem lastWritten_cons (entry : Str × Option ItemInfo) (rest : List (Str × Option ItemInfo))
    (place : List Component) :
    lastWritten (entry :: rest) place = (lastWritten rest place).or (writtenAt place entry) := by
  rw [lastWritten, List.filterMap_cons, lastWritten]
  cases writtenAt place entry with
  | none => rw [Option.or_none]
  | some text =>
    dsimp only
    rw [List.getLast?_cons]
    cases (rest.filterMap (writtenAt place)).getLast? with
    | none => rfl
    | some last => rfl

theorem lastWritten_singleton (entry : Str × Option ItemInfo) (place : List Component) :
    lastWritten [entry] place = writtenAt place entry := by
  rw [lastWritten_cons]
  rfl

/-- Some entry has been written to the place last. -/
theorem exists_of_lastWritten {entries : List (Str × Option ItemInfo)} {place : List Component} {text : Str}
    (hlast : lastWritten entries place = some text) :
    ∃ entry ∈ entries, IsFilePath entry.1 ∧ resolve entry.1 = some place ∧
      (entry.2.bind ItemInfo.content).getD [] = text := by
  obtain ⟨entry, hentry, hwritten⟩ := List.mem_filterMap.mp (List.mem_of_getLast? hlast)
  rw [writtenAt, Option.ite_none_right_eq_some] at hwritten
  exact ⟨entry, hentry, hwritten.1.1, hwritten.1.2, Option.some.inj hwritten.2⟩

/-- Every place holds what has been written there last, and elsewhere the data of the files is as
before. -/
structure WritesEntries (entries : List (Str × Option ItemInfo)) (before after : Content) : Prop where
  data : ∀ place, fileAt after place = (lastWritten entries place).or (fileAt before place)
  folders : ∀ place, before place = some .folder → after place = some .folder

/-- The body of the loop of `_writeAllFromState`. -/
def writeItem (system : FileSystem F) (files : ExplorerFiles) (path : Str) : Action F Unit :=
  match getItemTypeFromPath path with
  | .file =>
    PgFs.writeFile system path (((files.item path).bind ItemInfo.content).getD []) true
  | .folder => PgFs.createDir system path true

section Loop

variable {state after : State F} {files : ExplorerFiles}

/-- Assumes: a file system whose calls fail above the root. A file that has been written has a place. -/
theorem resolve_ne_none_of_writeFile (henclosed : system.Enclosed) {path data : Str}
    (hfull : IsFullPath path) (hrun : PgFs.writeFile system path data true state = .ok () after) :
    resolve path ≠ none := by
  intro hnone
  obtain ⟨converted, start, hconvert, hrest⟩ := bind_eq_ok.mp hrun
  obtain ⟨hconverted, rfl⟩ := convertToFullPath_eq_ok.mp hconvert
  obtain rfl : path = converted :=
    Except.ok.inj ((state.convertToFullPath_of_root hfull).symm.trans hconverted)
  obtain ⟨done, middle, -, hwrite⟩ := bind_eq_ok.mp hrest
  obtain ⟨disk, hwritten, -⟩ := onDisk_eq_ok.mp hwrite
  obtain ⟨error, herror⟩ := @henclosed.writeFile middle.disk path data hnone
  rw [herror] at hwritten
  cases hwritten

/-- Assumes: a lawful file system whose calls fail above the root. One round of the loop writes the
item at a path. -/
theorem writeItem_returns (hlawful : system.Lawful content) (henclosed : system.Enclosed)
    {entry : Str × Option ItemInfo} (hfull : IsFullPath entry.1) (hitem : files.item entry.1 = entry.2)
    (hrun : writeItem system files entry.1 state = .ok () after) :
    ∃ disk, after = { state with disk } ∧
      WritesEntries [entry] (content state.disk) (content disk) := by
  unfold writeItem at hrun
  cases htype : getItemTypeFromPath entry.1 with
  | file =>
    rw [htype, hitem] at hrun
    obtain ⟨place, hplace⟩ :=
      Option.ne_none_iff_exists'.mp (resolve_ne_none_of_writeFile henclosed hfull hrun)
    obtain ⟨disk, hafter, hwrites⟩ := writeFile_returns hlawful henclosed
      (state.convertToFullPath_of_root hfull) hplace hrun
    refine ⟨disk, hafter, fun other ↦ ?_, hwrites.folders⟩
    rw [lastWritten_singleton, writtenAt]
    by_cases hother : other = place
    · subst hother
      rw [if_pos ⟨htype, hplace⟩, fileAt_eq_some.mpr hwrites.written]
      rfl
    · rw [if_neg fun hwritten ↦ hother (Option.some.inj (hwritten.2.symm.trans hplace)),
        hwrites.others other hother]
      rfl
  | folder =>
    rw [htype] at hrun
    obtain ⟨disk, hafter, hadds⟩ := createDir_returns hlawful henclosed hrun
    have hnot : ¬ IsFilePath entry.1 := by
      rw [IsFilePath, htype]
      exact fun heq ↦ by cases heq
    refine ⟨disk, hafter, fun place ↦ ?_, hadds.folders⟩
    rw [lastWritten_singleton, writtenAt, if_neg fun hwritten ↦ hnot hwritten.1, hadds.data]
    rfl

/-- What is written later counts. -/
theorem WritesEntries.cons {entry : Str × Option ItemInfo} {rest : List (Str × Option ItemInfo)}
    {before middle last : Content} (hfirst : WritesEntries [entry] before middle)
    (hrest : WritesEntries rest middle last) : WritesEntries (entry :: rest) before last := by
  refine ⟨fun place ↦ ?_, fun place hfolder ↦ hrest.folders place (hfirst.folders place hfolder)⟩
  rw [hrest.data, hfirst.data, lastWritten_singleton, lastWritten_cons, Option.or_assoc]

/-- Assumes: a lawful file system whose calls fail above the root, and full paths. The loop writes the
items of its entries. -/
theorem forM_writeItem_returns (hlawful : system.Lawful content) (henclosed : system.Enclosed)
    {entries : List (Str × Option ItemInfo)} (hfull : ∀ entry ∈ entries, IsFullPath entry.1)
    (hitems : ∀ entry ∈ entries, files.item entry.1 = entry.2) :
    ∀ {state : State F}, (entries.map Prod.fst).forM (writeItem system files) state = .ok () after →
      ∃ disk, after = { state with disk } ∧
        WritesEntries entries (content state.disk) (content disk) := by
  induction entries with
  | nil =>
    intro state hrun
    obtain ⟨-, rfl⟩ := pure_eq_ok.mp hrun
    exact ⟨state.disk, rfl, fun _ ↦ rfl, fun _ hfolder ↦ hfolder⟩
  | cons entry rest ih =>
    intro state hrun
    obtain ⟨done, middle, hfirst, hrest⟩ := bind_eq_ok.mp hrun
    obtain ⟨written, rfl, hwritten⟩ := writeItem_returns hlawful henclosed
      (hfull entry List.mem_cons_self) (hitems entry List.mem_cons_self) hfirst
    obtain ⟨disk, rfl, hwrites⟩ := ih (fun other hother ↦ hfull other (List.mem_cons_of_mem _ hother))
      (fun other hother ↦ hitems other (List.mem_cons_of_mem _ hother)) hrest
    exact ⟨disk, rfl, hwritten.cons hwrites⟩

/-- Assumes: a lawful file system whose calls fail above the root, and full paths. A call of
`_writeAllFromState` that returns has written the items of the state. -/
theorem writeAllFromState_returns (hlawful : system.Lawful content) (henclosed : system.Enclosed)
    (hfull : ∀ path ∈ state.explorer.files.keys, IsFullPath path)
    (hrun : writeAllFromState system state = .ok () after) :
    ∃ disk, after = { state with disk } ∧
      WritesEntries state.explorer.files.entries (content state.disk) (content disk) := by
  unfold writeAllFromState at hrun
  rw [get_bind_apply] at hrun
  refine forM_writeItem_returns hlawful henclosed
    (fun entry hentry ↦ hfull entry.1 (List.mem_map_of_mem hentry)) (fun entry hentry ↦ ?_) hrun
  rw [ExplorerFiles.item, OrderedMap.lookup_eq_some_iff.mpr hentry]
  rfl

end Loop

end Playground.Explorer
