import Playground.Monaco.Editor
import Playground.Library.FileTree

/-!
# Automatic saving

The timer's callback reads the current path and the shown text when it fires. Two properties are
asked of it: the text that is saved to a path is that of the path's own model (`SavesOwnText`), and
once no save is pending every edit of a file that still exists has been saved, in the state and on
the disk (`EditsSaved`).

The first is lost where the explorer's current file is not the announced one, which closing a file
may bring about (`ExplorerState.CloseSafe`). The second is lost where the timer fires after another
file has been opened (`editsSaved_fire_iff`), since only the current file is saved, and where a model
with unsaved edits is disposed. `guard` leaves these out; a run that meets it keeps
`EditorConsistent`, which holds both properties (`saved_of_run`).
-/

set_option autoImplicit false
set_option relaxedAutoImplicit false

namespace Playground.Monaco

open Library Explorer

variable {F U : Type} [DecidableEq U] {system : FileSystem F} {content : F → Content}
  {monaco : Api U}

/-! ### The properties -/

/-- The text of a path's own model. -/
def Editor.modelOf (monaco : Api U) (editor : Editor F U) (path : Str) : Option Str :=
  editor.buffers.models.lookup (monaco.parse path)

/-- The latest edit of a file has not been saved. -/
def Editor.Unsaved (editor : Editor F U) (path value : Str) : Prop :=
  editor.edits.lookup path = some value ∧
    editor.explorer.explorer.files.content path ≠ some value

/-- What the timer's callback saves to a path is the text of the path's own model. -/
def SavesOwnText (monaco : Api U) (editor : Editor F U) : Prop :=
  ∀ path value, editor.saveArgs = some (path, value) → editor.modelOf monaco path = some value

/-- The latest edit of every file that exists is its content, in the state and, unless the project is
temporary, on the disk. -/
def EditsSaved (content : F → Content) (editor : Editor F U) : Prop :=
  ∀ path value, editor.edits.lookup path = some value →
    editor.explorer.explorer.files.content path ≠ none →
    editor.explorer.explorer.files.content path = some value ∧
      (editor.explorer.isTemporary = false → ∃ place, resolve path = some place ∧
        content editor.explorer.disk place = some (.file value))

/-- The files of the explorer have full paths that are those of their URIs, and unless the project is
temporary they are on the disk, in different places. -/
structure FilesWritten (content : F → Content) (monaco : Api U) (state : State F) : Prop where
  absolute : ∀ path, state.explorer.files.content path ≠ none → rootDirPath <+: path
  parsed : ∀ path, state.explorer.files.content path ≠ none →
    monaco.path (monaco.parse path) = path
  written : state.isTemporary = false → ∀ path value,
    state.explorer.files.content path = some value →
      ∃ place, resolve path = some place ∧ content state.disk place = some (.file value)
  apart : state.isTemporary = false → ∀ first second,
    state.explorer.files.content first ≠ none → state.explorer.files.content second ≠ none →
      resolve first = resolve second → first = second

/-- When an event loses no edit and redirects none: the timer fires while no file but the current
one has unsaved edits; a file that is opened disposes no model with unsaved edits; a file is closed
where the announced file stays the current one. -/
def guard (editor : Editor F U) : Event → Prop
  | .edit _ => True
  | .openFile path =>
    ∀ fullPath, editor.explorer.convertToFullPath path = .ok fullPath →
      ∀ other value, editor.Unsaved other value → disposes fullPath other value = false
  | .closeFile path =>
    ∀ fullPath, editor.explorer.convertToFullPath path = .ok fullPath →
      editor.explorer.explorer.CloseSafe fullPath ∧
        ∀ pathToOpen, editor.explorer.explorer.currentFilePath = some fullPath →
          editor.explorer.explorer.pathToOpen = some pathToOpen →
            ∀ other value, editor.Unsaved other value → disposes pathToOpen other value = false
  | .fire =>
    ∀ path value, editor.Unsaved path value →
      editor.explorer.explorer.currentFilePath = some path

/-- The invariant: the tabs and the files are as they should be, the editor shows the current file,
every model belongs to the path it was created for, the model of an edited file holds its latest
edit, and without a pending save nothing is unsaved. -/
structure EditorConsistent (content : F → Content) (monaco : Api U) (editor : Editor F U) :
    Prop where
  tabs : TabsConsistent editor.explorer
  files : FilesWritten content monaco editor.explorer
  own : ∀ uri ∈ editor.buffers.models.keys, monaco.parse (monaco.path uri) = uri
  attached : ∀ uri, editor.buffers.model = some uri → uri ∈ editor.buffers.models.keys
  shown : ∀ path, editor.explorer.explorer.currentFilePath = some path →
    editor.buffers.model = some (monaco.parse path)
  known : ∀ path value, editor.edits.lookup path = some value →
    monaco.path (monaco.parse path) = path ∧ monaco.value value = value
  latest : ∀ path value, editor.edits.lookup path = some value →
    editor.modelOf monaco path = some value ∨
      editor.modelOf monaco path = none ∧
        editor.explorer.explorer.files.content path = some value
  idle : editor.pending = false → ∀ path value, ¬ editor.Unsaved path value

/-! ### The handler -/

section Handler

variable {buffers : Buffers U} {curFile : FullFile} {text : Str}

/-- A model is disposed, or keeps its text. -/
theorem lookup_disposeModels (buffers : Buffers U) (curPath : Str) (uri : U) :
    (buffers.disposeModels monaco curPath).models.lookup uri =
      (buffers.models.lookup uri).filter fun value ↦
        !disposes curPath (monaco.path uri) value :=
  OrderedMap.lookup_filter _ _ uri

theorem mem_keys_of_disposeModels {curPath : Str} {uri : U}
    (huri : uri ∈ (buffers.disposeModels monaco curPath).models.keys) :
    uri ∈ buffers.models.keys := by
  obtain ⟨value, hvalue⟩ := OrderedMap.mem_keys_iff.mp huri
  rw [lookup_disposeModels, Option.filter_eq_some_iff] at hvalue
  exact OrderedMap.mem_keys_of_lookup hvalue.1

/-- The model of the opened file itself is not disposed. -/
theorem disposes_self (path value : Str) : disposes path path value = false := by
  simp [disposes]

/-- Assumes: every model belongs to the path it was created for, and the path of the file is that of
its URI. The handler shows the file's own model, which keeps its text if it is there; of the other
models it disposes some. -/
theorem onDidOpenFile_some (hown : ∀ uri ∈ buffers.models.keys, monaco.parse (monaco.path uri) = uri)
    (hparsed : monaco.path (monaco.parse curFile.path) = curFile.path)
    (hcontent : curFile.content = some text) :
    (buffers.onDidOpenFile monaco (some curFile)).model = some (monaco.parse curFile.path) ∧
      ∀ uri, (buffers.onDidOpenFile monaco (some curFile)).models.lookup uri =
        if uri = monaco.parse curFile.path then
          some ((buffers.models.lookup uri).getD (monaco.value text))
        else (buffers.models.lookup uri).filter fun value ↦
          !disposes curFile.path (monaco.path uri) value := by
  let kept := buffers.disposeModels monaco curFile.path
  have hself : kept.models.lookup (monaco.parse curFile.path) =
      buffers.models.lookup (monaco.parse curFile.path) := by
    rw [lookup_disposeModels, hparsed]
    cases buffers.models.lookup (monaco.parse curFile.path) with
    | none => rfl
    | some value => simp [Option.filter, disposes_self]
  have hother : ∀ uri, kept.models.lookup uri = (buffers.models.lookup uri).filter fun value ↦
      !disposes curFile.path (monaco.path uri) value :=
    fun uri ↦ lookup_disposeModels buffers curFile.path uri
  change (kept.showModel monaco curFile).model = _ ∧
    ∀ uri, (kept.showModel monaco curFile).models.lookup uri = _
  unfold Buffers.showModel
  cases hfind : kept.models.keys.find? fun uri ↦ monaco.path uri = curFile.path with
  | some uri =>
    have hpath : monaco.path uri = curFile.path := by simpa using List.find?_some hfind
    have hmem : uri ∈ kept.models.keys := List.mem_of_find?_eq_some hfind
    have huri : uri = monaco.parse curFile.path := by
      rw [← hown uri (mem_keys_of_disposeModels hmem), hpath]
    subst huri
    obtain ⟨value, hvalue⟩ := OrderedMap.mem_keys_iff.mp hmem
    refine ⟨rfl, fun other ↦ ?_⟩
    by_cases hne : other = monaco.parse curFile.path
    · rw [if_pos hne, hne, ← hself, hvalue, Option.getD_some]
    · rw [if_neg hne]
      exact hother other
  | none =>
    have hnotMem : monaco.parse curFile.path ∉ kept.models.keys := fun hmem ↦ by
      have hnone := List.find?_eq_none.mp hfind _ hmem
      simp [hparsed] at hnone
    simp only [hcontent, Option.getD_some, if_neg hnotMem]
    refine ⟨trivial, fun other ↦ ?_⟩
    rw [OrderedMap.lookup_set]
    by_cases hne : other = monaco.parse curFile.path
    · rw [if_pos hne, if_pos hne, hne, ← hself, OrderedMap.lookup_eq_none_iff.mpr hnotMem,
        Option.getD_none]
    · rw [if_neg hne, if_neg hne]
      exact hother other

end Handler

/-! ### Opening and closing -/

section Switching

variable {editor : Editor F U} {path : Str}

/-- The current file, as the handler gets it. -/
theorem exists_getCurrentFile {state : State F} {text : Str}
    (hcurrent : state.explorer.currentFilePath = some path)
    (htext : state.explorer.files.content path = some text) :
    ∃ file, state.getCurrentFile = some file ∧ file.path = path ∧ file.content = some text := by
  obtain ⟨item, hitem, hcontent⟩ := Option.bind_eq_some_iff.mp htext
  refine ⟨{ item with path }, ?_, rfl, hcontent⟩
  rw [State.getCurrentFile, hcurrent, Option.bind_some, State.getFile, hitem]
  rfl

/-- Opening a file changes neither the disk nor the kind of the project. -/
theorem disk_openFile (state : State F) (path : Str) :
    (state.openFile path).disk = state.disk ∧
      (state.openFile path).isTemporary = state.isTemporary := by
  unfold State.openFile
  split <;> exact ⟨rfl, rfl⟩

omit [DecidableEq U] in
theorem FilesWritten.of_eq {before after : State F} (hfiles : FilesWritten content monaco before)
    (hsame : after.explorer.files = before.explorer.files) (hdisk : after.disk = before.disk)
    (htemporary : after.isTemporary = before.isTemporary) : FilesWritten content monaco after := by
  refine ⟨?_, ?_, ?_, ?_⟩
  · rw [hsame]
    exact hfiles.absolute
  · rw [hsame]
    exact hfiles.parsed
  · rw [hsame, hdisk, htemporary]
    exact hfiles.written
  · rw [hsame, htemporary]
    exact hfiles.apart

omit [DecidableEq U] in
/-- Opening a file leaves the files and the disk as they are. -/
theorem FilesWritten.openFile {state : State F} (hfiles : FilesWritten content monaco state)
    (path : Str) : FilesWritten content monaco (state.openFile path) :=
  hfiles.of_eq (files_openFile state path) (disk_openFile state path).1 (disk_openFile state path).2

/-- The model of an edited file still holds the latest edit after the handler has run, if that is not
disposed unsaved: the handler creates a model from what has been saved. -/
theorem EditorConsistent.latest_onDidOpenFile (hconsistent : EditorConsistent content monaco editor)
    {file : FullFile} {text other value : Str}
    (hparsed : monaco.path (monaco.parse file.path) = file.path)
    (hcontent : file.content = some text)
    (htext : editor.explorer.explorer.files.content file.path = some text)
    (hsafe : editor.Unsaved other value → disposes file.path other value = false)
    (hedit : editor.edits.lookup other = some value) :
    (editor.buffers.onDidOpenFile monaco (some file)).models.lookup (monaco.parse other) =
        some value ∨
      (editor.buffers.onDidOpenFile monaco (some file)).models.lookup (monaco.parse other) = none ∧
        editor.explorer.explorer.files.content other = some value := by
  obtain ⟨hknown, hvalue⟩ := hconsistent.known other value hedit
  have hlatest := hconsistent.latest other value hedit
  rw [(onDidOpenFile_some hconsistent.own hparsed hcontent).2]
  change (editor.buffers.models.lookup (monaco.parse other) = some value ∨
    editor.buffers.models.lookup (monaco.parse other) = none ∧ _) at hlatest
  by_cases hself : other = file.path
  · subst hself
    rw [if_pos rfl]
    rcases hlatest with hold | ⟨hnone, hsaved⟩
    · rw [hold, Option.getD_some]
      exact .inl rfl
    · rw [htext, Option.some_inj] at hsaved
      rw [hnone, Option.getD_none, hsaved, hvalue]
      exact .inl rfl
  · have hne : monaco.parse other ≠ monaco.parse file.path := fun heq ↦
      hself (by rw [← hknown, heq, hparsed])
    rw [if_neg hne, hknown]
    rcases hlatest with hold | ⟨hnone, hsaved⟩
    · rw [hold]
      by_cases hdisposed : disposes file.path other value = true
      · refine .inr ⟨by simp [Option.filter, hdisposed], ?_⟩
        by_contra hunsaved
        rw [hsafe ⟨hedit, hunsaved⟩] at hdisposed
        cases hdisposed
      · exact .inl (by simp [Option.filter, hdisposed])
    · rw [hnone]
      exact .inr ⟨rfl, hsaved⟩

/-- Opening a file whose handler disposes no model with unsaved edits keeps the invariant. -/
theorem EditorConsistent.openFullPath (hconsistent : EditorConsistent content monaco editor)
    (hexists : editor.explorer.explorer.files.content path ≠ none)
    (hsafe : ∀ other value, editor.Unsaved other value → disposes path other value = false) :
    EditorConsistent content monaco (editor.openFullPath monaco path) := by
  unfold Editor.openFullPath
  by_cases hcurrent : editor.explorer.explorer.currentFilePath = some path
  · rwa [if_pos hcurrent]
  rw [if_neg hcurrent]
  obtain ⟨text, htext⟩ := Option.ne_none_iff_exists'.mp hexists
  obtain ⟨file, hfile, rfl, hcontent⟩ := exists_getCurrentFile
    (currentFilePath_openFile editor.explorer path) ((files_openFile _ path).symm ▸ htext)
  have hparsed := hconsistent.files.parsed file.path hexists
  obtain ⟨hmodel, hlookup⟩ := onDidOpenFile_some hconsistent.own hparsed hcontent
  rw [hfile]
  refine ⟨?_, hconsistent.files.openFile file.path, fun uri huri ↦ ?_, fun uri huri ↦ ?_,
    fun other hother ↦ ?_, hconsistent.known, fun other value hedit ↦ ?_, fun hidle other value ↦ ?_⟩
  · exact tabsConsistent_openFile hconsistent.tabs.valid hconsistent.tabs.hasContent hexists
      fun _ ↦ hconsistent.tabs.announced
  · obtain ⟨value, hvalue⟩ := OrderedMap.mem_keys_iff.mp huri
    by_cases hself : uri = monaco.parse file.path
    · rw [hself, hparsed]
    · rw [hlookup uri, if_neg hself, Option.filter_eq_some_iff] at hvalue
      exact hconsistent.own uri (OrderedMap.mem_keys_of_lookup hvalue.1)
  · rw [hmodel] at huri
    obtain rfl := Option.some.inj huri
    exact OrderedMap.mem_keys_of_lookup ((hlookup _).trans (if_pos rfl))
  · rw [currentFilePath_openFile] at hother
    rw [← Option.some.inj hother]
    exact hmodel
  · change (editor.buffers.onDidOpenFile monaco (some file)).models.lookup _ = some value ∨
      (editor.buffers.onDidOpenFile monaco (some file)).models.lookup _ = none ∧
        (editor.explorer.openFile file.path).explorer.files.content other = some value
    rw [files_openFile]
    exact hconsistent.latest_onDidOpenFile hparsed hcontent htext (hsafe other value) hedit
  · rintro ⟨hedit, hunsaved⟩
    refine hconsistent.idle hidle other value ⟨hedit, fun hsaved ↦ hunsaved ?_⟩
    change (editor.explorer.openFile file.path).explorer.files.content other = some value
    rwa [files_openFile]

/-- Leaving the current file keeps the invariant. -/
theorem EditorConsistent.leaveFile (hconsistent : EditorConsistent content monaco editor)
    (hsafe : ∀ pathToOpen, editor.explorer.explorer.currentFilePath = some path →
      editor.explorer.explorer.pathToOpen = some pathToOpen →
        ∀ other value, editor.Unsaved other value → disposes pathToOpen other value = false) :
    EditorConsistent content monaco (editor.leaveFile monaco path) := by
  unfold Editor.leaveFile
  by_cases hcurrent : editor.explorer.explorer.currentFilePath = some path
  · rw [if_pos hcurrent]
    cases hopen : editor.explorer.explorer.pathToOpen with
    | none => exact hconsistent
    | some pathToOpen =>
      have htab := mem_tabs_of_pathToOpen hopen
      exact hconsistent.openFullPath (hconsistent.tabs.hasContent pathToOpen htab)
        (hsafe pathToOpen hcurrent hopen)
  · rwa [if_neg hcurrent]

/-- Removing a tab keeps the disk, the kind of the project and the announced file. -/
theorem closeFile_frame (state : State F) (path : Str) :
    (state.closeFile path).disk = (state.leaveFile path).disk ∧
      (state.closeFile path).isTemporary = (state.leaveFile path).isTemporary ∧
      (state.closeFile path).opened = (state.leaveFile path).opened ∧
      (state.closeFile path).explorer.files = (state.leaveFile path).explorer.files := by
  unfold State.closeFile
  split <;> exact ⟨rfl, rfl, rfl, rfl⟩

/-- A tab that is left after another has been removed was there before. -/
theorem tabs_leaveFile_ne_nil {state : State F}
    (htabs : (state.closeFile path).explorer.tabs ≠ []) :
    (state.leaveFile path).explorer.tabs ≠ [] := by
  intro hnil
  apply htabs
  unfold State.closeFile
  split
  · change spliceOne (state.leaveFile path).explorer.tabs _ = []
    rw [hnil]
    rfl
  · exact hnil

/-- Closing a file where the announced file stays the current one keeps the invariant. -/
theorem EditorConsistent.closeFullPath (hconsistent : EditorConsistent content monaco editor)
    (hclose : editor.explorer.explorer.CloseSafe path)
    (hsafe : ∀ pathToOpen, editor.explorer.explorer.currentFilePath = some path →
      editor.explorer.explorer.pathToOpen = some pathToOpen →
        ∀ other value, editor.Unsaved other value → disposes pathToOpen other value = false) :
    EditorConsistent content monaco (editor.closeFullPath monaco path) := by
  have hleft := hconsistent.leaveFile hsafe
  have hexplorer := explorer_leaveFile monaco editor path
  obtain ⟨hdisk, htemporary, hopened, hfiles⟩ := closeFile_frame editor.explorer path
  rw [← hexplorer] at hdisk htemporary hopened hfiles
  have htabs : TabsConsistent (editor.explorer.closeFile path) := by
    refine ⟨validTabs_closeFile hconsistent.tabs.valid path, fun tab htab ↦ ?_, ?_⟩
    · rw [files_closeFile]
      exact hconsistent.tabs.hasContent tab (mem_tabs_of_closeFile hconsistent.tabs.valid htab).1
    · exact announced_closeFile hconsistent.tabs.valid
        (fun tab htab _ ↦ hconsistent.tabs.hasContent tab htab) hconsistent.tabs.announced hclose
  refine ⟨htabs, hleft.files.of_eq hfiles hdisk htemporary, hleft.own, hleft.attached,
    fun other hother ↦ ?_, hleft.known, fun other value hedit ↦ ?_, fun hidle other value ↦ ?_⟩
  · -- the announced file is the current one before and after the tab is removed
    have hne := List.ne_nil_of_mem (mem_tabs_of_currentFilePath hother)
    obtain ⟨file, hfile, hcurrent⟩ := htabs.announced hne
    have hneLeft := tabs_leaveFile_ne_nil hne
    rw [← hexplorer] at hneLeft
    obtain ⟨shown, hshown, hbefore⟩ := hleft.tabs.announced hneLeft
    rw [hopened, hshown, Option.some_inj, Option.some_inj] at hfile
    have heq : other = shown.path := by
      rw [hfile]
      exact Option.some.inj (hother.symm.trans hcurrent)
    rw [heq]
    exact hleft.shown shown.path hbefore
  · change (editor.leaveFile monaco path).modelOf monaco other = some value ∨
      (editor.leaveFile monaco path).modelOf monaco other = none ∧
        (editor.explorer.closeFile path).explorer.files.content other = some value
    rw [hfiles]
    exact hleft.latest other value hedit
  · rintro ⟨hedit, hunsaved⟩
    refine hleft.idle hidle other value ⟨hedit, fun hsaved ↦ hunsaved ?_⟩
    change (editor.explorer.closeFile path).explorer.files.content other = some value
    rwa [hfiles]

end Switching

/-! ### Editing -/

/-- An edit of the shown model keeps the invariant. -/
theorem EditorConsistent.edit {editor : Editor F U}
    (hconsistent : EditorConsistent content monaco editor) {uri : U} {value : Str}
    (hmodel : editor.buffers.model = some uri) (hvalue : monaco.value value = value) :
    EditorConsistent content monaco (editor.edit monaco uri value) := by
  have huri := hconsistent.own uri (hconsistent.attached uri hmodel)
  refine ⟨hconsistent.tabs, hconsistent.files, fun other hother ↦ ?_, fun other hother ↦ ?_,
    hconsistent.shown, fun path text hedit ↦ ?_, fun path text hedit ↦ ?_, fun hidle ↦ by cases hidle⟩
  · rcases OrderedMap.mem_keys_set.mp hother with rfl | hother
    · exact huri
    · exact hconsistent.own other hother
  · exact OrderedMap.mem_keys_set.mpr (.inr (hconsistent.attached other hother))
  · change (editor.edits.set (monaco.path uri) value).lookup path = some text at hedit
    rw [OrderedMap.lookup_set] at hedit
    by_cases hpath : path = monaco.path uri
    · rw [if_pos hpath, Option.some_inj] at hedit
      rw [hpath, huri, ← hedit]
      exact ⟨rfl, hvalue⟩
    · rw [if_neg hpath] at hedit
      exact hconsistent.known path text hedit
  · change (editor.edits.set (monaco.path uri) value).lookup path = some text at hedit
    change (editor.buffers.models.set uri value).lookup (monaco.parse path) = some text ∨
      (editor.buffers.models.set uri value).lookup (monaco.parse path) = none ∧ _
    rw [OrderedMap.lookup_set] at hedit
    by_cases hpath : path = monaco.path uri
    · rw [if_pos hpath] at hedit
      rw [hpath, huri, OrderedMap.lookup_set_self]
      exact .inl hedit
    · rw [if_neg hpath] at hedit
      have hne : monaco.parse path ≠ uri := fun heq ↦
        hpath (by rw [← heq, (hconsistent.known path text hedit).1])
      rw [OrderedMap.lookup_set_of_ne _ _ hne]
      exact hconsistent.latest path text hedit

/-! ### Saving -/

section Saving

variable {state : State F} {path value : Str} {item : ItemInfo}

/-- The state when a text has been saved to an item of the files. -/
def savedState (state : State F) (path value : Str) (item : ItemInfo) : State F :=
  { state with
    explorer :=
      { state.explorer with
        files := state.explorer.files.set path (some { item with content := some value }) } }

/-- Assumes: a full path to an item. `saveFileToState` changes the content of the item. -/
theorem saveFileToState_eq (hroot : rootDirPath <+: path)
    (hitem : state.explorer.files.item path = some item) :
    saveFileToState path value state = .ok () (savedState state path value item) := by
  have hconvert := state.convertToFullPath_of_root hroot
  refine bind_eq_ok.mpr ⟨path, state, convertToFullPath_eq_ok.mpr ⟨hconvert, rfl⟩, ?_⟩
  rw [modifyExplorer, modify_eq_ok]
  simp only [hitem, savedState]

/-- The contents after a text has been saved. -/
theorem content_savedState (other : Str) :
    (savedState state path value item).explorer.files.content other =
      if other = path then some value else state.explorer.files.content other := by
  change (((state.explorer.files.set path _).lookup other).join).bind _ = _
  rw [OrderedMap.lookup_set]
  by_cases hother : other = path
  · rw [if_pos hother, if_pos hother]
    rfl
  · rw [if_neg hother, if_neg hother]
    rfl

/-- Assumes: a full path to a file that is on the disk unless the project is temporary. The callback
returns; it has saved the text in the state and, unless the project is temporary, on the disk. -/
theorem autoSave_eq (hlawful : system.Lawful content) (hroot : rootDirPath <+: path)
    (hitem : state.explorer.files.item path = some item)
    (hwritten : state.isTemporary = false → ∃ place data, resolve path = some place ∧
      content state.disk place = some (.file data)) :
    ∃ disk, autoSave system path value state =
        .ok () { savedState state path value item with disk } ∧
      (state.isTemporary = false → ∃ place, resolve path = some place ∧
        content disk = Function.update (content state.disk) place (some (.file value))) := by
  have hsave := @saveFileToState_eq _ state path value item hroot hitem
  by_cases htemporary : state.isTemporary = true
  · refine ⟨state.disk, bind_eq_ok.mpr ⟨(), _, hsave, ?_⟩, fun hpersistent ↦ ?_⟩
    · rw [get_bind_apply]
      change runIf (!state.isTemporary) _ _ = _
      rw [htemporary]
      rfl
    · rw [htemporary] at hpersistent
      cases hpersistent
  · rw [Bool.not_eq_true] at htemporary
    obtain ⟨place, data, hplace, hfile⟩ := hwritten htemporary
    have hfolder : (content state.disk).InFolder place := by
      rcases List.eq_nil_or_concat place with rfl | ⟨above, name, rfl⟩
      · rw [hlawful.root] at hfile
        cases hfile
      · refine ⟨by simp, ?_⟩
        rw [List.concat_eq_append] at hfile ⊢
        rw [List.dropLast_concat]
        exact hlawful.parent (by rw [hfile]; exact Option.some_ne_none _)
    have hnotFolder : content state.disk place ≠ some .folder := by
      rw [hfile]
      exact fun heq ↦ by cases heq
    obtain ⟨disk, hwrite⟩ := hlawful.writeFile_succeeds value hplace hfolder hnotFolder
    refine ⟨disk, bind_eq_ok.mpr ⟨(), _, hsave, ?_⟩, fun _ ↦
      ⟨place, hplace, (hlawful.writeFile_effect hplace hwrite).2⟩⟩
    rw [get_bind_apply]
    change runIf (!state.isTemporary) _ _ = _
    rw [htemporary]
    have hconvert := (savedState state path value item).convertToFullPath_of_root hroot
    have hrun : PgFs.writeFile system path value false (savedState state path value item) =
        .ok () { savedState state path value item with disk } := by
      refine bind_eq_ok.mpr ⟨path, savedState state path value item,
        convertToFullPath_eq_ok.mpr ⟨hconvert, rfl⟩, bind_eq_ok.mpr ⟨(), _, rfl, ?_⟩⟩
      exact onDisk_eq_ok.mpr ⟨disk, hwrite, rfl⟩
    change EStateM.tryCatch (PgFs.writeFile system path value false) _ _ = _
    rw [EStateM.tryCatch, hrun]

/-- Saving to a file makes no file and loses none. -/
theorem content_savedState_ne_none (hexists : state.explorer.files.content path ≠ none)
    (other : Str) : (savedState state path value item).explorer.files.content other ≠ none ↔
      state.explorer.files.content other ≠ none := by
  rw [content_savedState]
  by_cases hother : other = path
  · rw [if_pos hother, hother]
    exact ⟨fun _ ↦ hexists, fun _ ↦ Option.some_ne_none _⟩
  · rw [if_neg hother]

/-- Saving to a file keeps the tabs consistent. -/
theorem tabsConsistent_savedState (hconsistent : TabsConsistent state)
    (hexists : state.explorer.files.content path ≠ none) (disk : F) :
    TabsConsistent { savedState state path value item with disk } :=
  ⟨⟨hconsistent.valid.nodup, hconsistent.valid.index⟩, fun tab htab ↦
    (content_savedState_ne_none hexists tab).mpr (hconsistent.hasContent tab htab),
    hconsistent.announced⟩

omit [DecidableEq U] in
/-- Saving to a file, in the state and on the disk, keeps the files written. -/
theorem FilesWritten.savedState (hfiles : FilesWritten content monaco state)
    (hexists : state.explorer.files.content path ≠ none) {disk : F}
    (hdisk : state.isTemporary = false → ∃ place, resolve path = some place ∧
      content disk = Function.update (content state.disk) place (some (.file value))) :
    FilesWritten content monaco { savedState state path value item with disk } := by
  have hsame := @content_savedState_ne_none _ _ _ value item hexists
  refine ⟨fun other hother ↦ hfiles.absolute other ((hsame other).mp hother),
    fun other hother ↦ hfiles.parsed other ((hsame other).mp hother),
    fun htemporary other text htext ↦ ?_, fun htemporary first second hfirst hsecond ↦
      hfiles.apart htemporary first second ((hsame first).mp hfirst) ((hsame second).mp hsecond)⟩
  obtain ⟨place, hplace, hupdate⟩ := hdisk htemporary
  change (Monaco.savedState state path value item).explorer.files.content other = some text at htext
  change ∃ found, resolve other = some found ∧ content disk found = some (.file text)
  rw [content_savedState] at htext
  by_cases hother : other = path
  · rw [if_pos hother, Option.some_inj] at htext
    refine ⟨place, by rw [hother, hplace], ?_⟩
    rw [hupdate, Function.update_self, htext]
  · rw [if_neg hother] at htext
    obtain ⟨found, hfound, hcontent⟩ := hfiles.written htemporary other text htext
    refine ⟨found, hfound, ?_⟩
    have hapart : found ≠ place := by
      rintro rfl
      refine hother (hfiles.apart htemporary other path ?_ hexists (hfound.trans hplace.symm))
      rw [htext]
      exact Option.some_ne_none _
    rwa [hupdate, Function.update_of_ne hapart]

end Saving

/-! ### The timer -/

section Timer

variable {editor : Editor F U}

/-- What is saved is the current file with the text of its own model. -/
theorem EditorConsistent.exists_saveArgs (hconsistent : EditorConsistent content monaco editor)
    {path : Str} (hcurrent : editor.explorer.explorer.currentFilePath = some path) :
    ∃ value, editor.saveArgs = some (path, value) ∧ editor.modelOf monaco path = some value := by
  have hexists := hconsistent.tabs.hasContent path (mem_tabs_of_currentFilePath hcurrent)
  have hshown := hconsistent.shown path hcurrent
  obtain ⟨value, hvalue⟩ := OrderedMap.mem_keys_iff.mp (hconsistent.attached _ hshown)
  refine ⟨value, ?_, hvalue⟩
  have htext : editor.getValue = value := by
    rw [Editor.getValue, hshown, Option.bind_some, hvalue, Option.getD_some]
  cases path with
  | nil =>
    have hroot := hconsistent.files.absolute [] hexists
    exact absurd (List.prefix_nil.mp hroot) (by decide)
  | cons first rest =>
    unfold Editor.saveArgs
    rw [hcurrent, htext]

theorem saveArgs_of_no_current (hcurrent : editor.explorer.explorer.currentFilePath = none) :
    editor.saveArgs = none := by
  unfold Editor.saveArgs
  rw [hcurrent]

theorem EditorConsistent.savesOwnText (hconsistent : EditorConsistent content monaco editor) :
    SavesOwnText monaco editor := by
  intro path value hargs
  cases hcurrent : editor.explorer.explorer.currentFilePath with
  | none =>
    rw [saveArgs_of_no_current hcurrent] at hargs
    cases hargs
  | some current =>
    obtain ⟨text, hsave, hown⟩ := hconsistent.exists_saveArgs hcurrent
    rw [hsave, Option.some_inj, Prod.mk.injEq] at hargs
    rw [← hargs.1, ← hargs.2]
    exact hown

/-- Without a pending save every edit has been saved. -/
theorem EditorConsistent.editsSaved (hconsistent : EditorConsistent content monaco editor)
    (hidle : editor.pending = false) : EditsSaved content editor := by
  intro path value hedit hexists
  have hsaved : editor.explorer.explorer.files.content path = some value := by
    by_contra hunsaved
    exact hconsistent.idle hidle path value ⟨hedit, hunsaved⟩
  exact ⟨hsaved, fun htemporary ↦ hconsistent.files.written htemporary path value hsaved⟩

/-- What the timer does: nothing without a current file, and else the text of the current file's
model becomes its content. -/
theorem EditorConsistent.fire_eq (hconsistent : EditorConsistent content monaco editor)
    (hlawful : system.Lawful content) :
    (editor.explorer.explorer.currentFilePath = none ∧
        editor.fire system = { editor with pending := false }) ∨
      ∃ path value item disk, editor.explorer.explorer.currentFilePath = some path ∧
        editor.modelOf monaco path = some value ∧
        editor.explorer.explorer.files.content path ≠ none ∧
        (editor.explorer.isTemporary = false → ∃ place, resolve path = some place ∧
          content disk =
            Function.update (content editor.explorer.disk) place (some (.file value))) ∧
        editor.fire system =
          { editor with
            explorer := { savedState editor.explorer path value item with disk }
            pending := false } := by
  cases hcurrent : editor.explorer.explorer.currentFilePath with
  | none =>
    refine .inl ⟨rfl, ?_⟩
    unfold Editor.fire
    rw [saveArgs_of_no_current hcurrent]
  | some path =>
    obtain ⟨value, hargs, hown⟩ := hconsistent.exists_saveArgs hcurrent
    have hexists := hconsistent.tabs.hasContent path (mem_tabs_of_currentFilePath hcurrent)
    obtain ⟨text, htext⟩ := Option.ne_none_iff_exists'.mp hexists
    obtain ⟨item, hitem, -⟩ := Option.bind_eq_some_iff.mp htext
    have hwritten : editor.explorer.isTemporary = false → ∃ place data,
        resolve path = some place ∧ content editor.explorer.disk place = some (.file data) := by
      intro htemporary
      obtain ⟨place, hplace, hfile⟩ := hconsistent.files.written htemporary path text htext
      exact ⟨place, text, hplace, hfile⟩
    obtain ⟨disk, hrun, hdisk⟩ := @autoSave_eq _ system content _ path value item hlawful
      (hconsistent.files.absolute path hexists) hitem hwritten
    refine .inr ⟨path, value, item, disk, rfl, hown, hexists, hdisk, ?_⟩
    unfold Editor.fire
    rw [hargs]
    change { editor with explorer := finalState (autoSave system path value editor.explorer),
                         pending := false } = _
    rw [hrun]
    rfl

/-- Assumes: the timer saves the text of the path's own model. The latest edit of a file is its
content afterwards exactly if it was before or the file is the one that is saved. -/
theorem EditorConsistent.content_savedState_iff (hconsistent : EditorConsistent content monaco editor)
    {path value other text : Str} {item : ItemInfo} (hown : editor.modelOf monaco path = some value)
    (hedit : editor.edits.lookup other = some text) :
    (savedState editor.explorer path value item).explorer.files.content other = some text ↔
      other = path ∨ editor.explorer.explorer.files.content other = some text := by
  rw [content_savedState]
  by_cases hother : other = path
  · rw [if_pos hother]
    refine ⟨fun _ ↦ .inl hother, fun _ ↦ ?_⟩
    rcases hconsistent.latest other text hedit with hold | ⟨hnone, -⟩
    · rw [hother, hown] at hold
      exact hold
    · rw [hother, hown] at hnone
      cases hnone
  · rw [if_neg hother]
    exact ⟨.inr, fun h ↦ h.resolve_left hother⟩

/-- Firing while no other file has unsaved edits keeps the invariant. -/
theorem EditorConsistent.fire (hconsistent : EditorConsistent content monaco editor)
    (hlawful : system.Lawful content) (hguard : guard editor .fire) :
    EditorConsistent content monaco (editor.fire system) := by
  rcases hconsistent.fire_eq hlawful with
    ⟨hnone, heq⟩ | ⟨path, value, item, disk, hcurrent, hown, hexists, hdisk, heq⟩
  · rw [heq]
    refine ⟨hconsistent.tabs, hconsistent.files, hconsistent.own, hconsistent.attached,
      hconsistent.shown, hconsistent.known, hconsistent.latest, fun _ other text hunsaved ↦ ?_⟩
    have hcurrent := hguard other text hunsaved
    rw [hnone] at hcurrent
    cases hcurrent
  · rw [heq]
    refine ⟨tabsConsistent_savedState hconsistent.tabs hexists disk,
      hconsistent.files.savedState hexists hdisk, hconsistent.own, hconsistent.attached,
      hconsistent.shown, hconsistent.known, fun other text hedit ↦ ?_,
      fun _ other text hunsaved ↦ ?_⟩
    · change editor.modelOf monaco other = some text ∨ editor.modelOf monaco other = none ∧
        (savedState editor.explorer path value item).explorer.files.content other = some text
      rw [hconsistent.content_savedState_iff hown hedit]
      exact (hconsistent.latest other text hedit).imp_right fun hsaved ↦ ⟨hsaved.1, .inr hsaved.2⟩
    · obtain ⟨hedit, hdiffers⟩ := hunsaved
      apply hdiffers
      change (savedState editor.explorer path value item).explorer.files.content other = some text
      rw [hconsistent.content_savedState_iff hown hedit]
      by_contra hneither
      rw [not_or] at hneither
      rw [hguard other text ⟨hedit, hneither.2⟩, Option.some_inj] at hcurrent
      exact hneither.1 hcurrent

/-- After the timer has fired every edit of an existing file has been saved exactly if no file but
the current one had unsaved edits. -/
theorem editsSaved_fire_iff (hconsistent : EditorConsistent content monaco editor)
    (hlawful : system.Lawful content) :
    EditsSaved content (editor.fire system) ↔
      ∀ path value, editor.Unsaved path value →
        editor.explorer.explorer.files.content path ≠ none →
          editor.explorer.explorer.currentFilePath = some path := by
  rcases hconsistent.fire_eq hlawful with
    ⟨hnone, heq⟩ | ⟨path, value, item, disk, hcurrent, hown, hexists, hdisk, heq⟩
  · rw [heq, hnone]
    constructor
    · intro hsaved other text hunsaved hother
      exact absurd (hsaved other text hunsaved.1 hother).1 hunsaved.2
    · intro hguard other text hedit hother
      have hsaved : editor.explorer.explorer.files.content other = some text := by
        by_contra hunsaved
        cases hguard other text ⟨hedit, hunsaved⟩ hother
      exact ⟨hsaved, fun htemporary ↦ hconsistent.files.written htemporary other text hsaved⟩
  · have hfiles := @FilesWritten.savedState _ _ _ _ _ _ value item hconsistent.files hexists _ hdisk
    have hsame := @content_savedState_ne_none _ _ _ value item hexists
    rw [heq, hcurrent]
    constructor
    · intro hsaved other text hunsaved hother
      have hafter := (hsaved other text hunsaved.1 ((hsame other).mpr hother)).1
      rcases (hconsistent.content_savedState_iff hown hunsaved.1).mp hafter with hself | hbefore
      · rw [hself]
      · exact absurd hbefore hunsaved.2
    · intro hguard other text hedit hother
      have hsaved := (@EditorConsistent.content_savedState_iff _ _ _ _ _ _ hconsistent _ _ _ _ item hown hedit).mpr (by
        by_cases hbefore : editor.explorer.explorer.files.content other = some text
        · exact .inr hbefore
        · have hself := hguard other text ⟨hedit, hbefore⟩ ((hsame other).mp hother)
          exact .inl (Option.some.inj hself).symm)
      exact ⟨hsaved, fun htemporary ↦ hfiles.written htemporary other text hsaved⟩

end Timer

/-! ### Runs -/

/-- One event that meets the guard keeps the invariant. -/
theorem EditorConsistent.step {before after : Editor F U} {event : Event}
    (hconsistent : EditorConsistent content monaco before) (hlawful : system.Lawful content)
    (hguard : guard before event) (hstep : Step system monaco before event after) :
    EditorConsistent content monaco after := by
  cases hstep with
  | edit hmodel hvalue => exact hconsistent.edit hmodel hvalue
  | openFile hfull hexists => exact hconsistent.openFullPath hexists (hguard _ hfull)
  | closeFile hfull => exact hconsistent.closeFullPath (hguard _ hfull).1 (hguard _ hfull).2
  | fire _ => exact hconsistent.fire hlawful hguard

/-- Without edits the invariant is about the tabs, the files and the models only. -/
theorem editorConsistent_of_no_edits {editor : Editor F U} (hedits : editor.edits = .empty)
    (htabs : TabsConsistent editor.explorer) (hfiles : FilesWritten content monaco editor.explorer)
    (hown : ∀ uri ∈ editor.buffers.models.keys, monaco.parse (monaco.path uri) = uri)
    (hattached : ∀ uri, editor.buffers.model = some uri → uri ∈ editor.buffers.models.keys)
    (hshown : ∀ path, editor.explorer.explorer.currentFilePath = some path →
      editor.buffers.model = some (monaco.parse path)) :
    EditorConsistent content monaco editor := by
  have hnone : ∀ path value, editor.edits.lookup path ≠ some value := by
    intro path value
    rw [hedits]
    exact (Option.some_ne_none value).symm
  exact ⟨htabs, hfiles, hown, hattached, hshown,
    fun path value hedit ↦ absurd hedit (hnone path value),
    fun path value hedit ↦ absurd hedit (hnone path value),
    fun _ path value hunsaved ↦ hnone path value hunsaved.1⟩

/-- The editor is consistent when it has been mounted. -/
theorem editorConsistent_mount {start : State F} (htabs : TabsConsistent start)
    (hfiles : FilesWritten content monaco start) :
    EditorConsistent content monaco (mount monaco start) := by
  cases hcurrent : start.explorer.currentFilePath with
  | none =>
    have hbuffers : (mount monaco start).buffers = ⟨.empty, none⟩ := by
      rw [mount, State.getCurrentFile, hcurrent]
      rfl
    refine editorConsistent_of_no_edits rfl htabs hfiles (fun uri huri ↦ ?_) (fun uri huri ↦ ?_)
      fun path hpath ↦ ?_
    · rw [hbuffers] at huri
      cases huri
    · rw [hbuffers] at huri
      cases huri
    · exact absurd (hcurrent.symm.trans hpath) (Option.some_ne_none path).symm
  | some path =>
    have hexists := htabs.hasContent path (mem_tabs_of_currentFilePath hcurrent)
    obtain ⟨text, htext⟩ := Option.ne_none_iff_exists'.mp hexists
    obtain ⟨file, hfile, rfl, hcontent⟩ := exists_getCurrentFile hcurrent htext
    have hbuffers : (mount monaco start).buffers =
        Buffers.onDidOpenFile monaco ⟨.empty, none⟩ (some file) := by
      rw [mount, hfile]
    have hparsed := hfiles.parsed file.path hexists
    obtain ⟨hmodel, hlookup⟩ := @onDidOpenFile_some _ _ _ ⟨.empty, none⟩ _ _
      (fun uri huri ↦ by cases huri) hparsed hcontent
    rw [← hbuffers] at hmodel hlookup
    refine editorConsistent_of_no_edits rfl htabs hfiles (fun uri huri ↦ ?_) (fun uri huri ↦ ?_)
      fun path hpath ↦ ?_
    · obtain ⟨value, hvalue⟩ := OrderedMap.mem_keys_iff.mp huri
      by_cases hself : uri = monaco.parse file.path
      · rw [hself, hparsed]
      · rw [hlookup uri, if_neg hself] at hvalue
        cases hvalue
    · rw [hmodel] at huri
      obtain rfl := Option.some.inj huri
      exact OrderedMap.mem_keys_of_lookup ((hlookup _).trans (if_pos rfl))
    · rw [hmodel, Option.some.inj (hpath.symm.trans hcurrent)]

/-- Assumes: a lawful file system, consistent tabs and written files when the editor is mounted. A
run whose events all meet the guard only ever saves the text of a path's own model, and once no save
is pending every edit of a file that exists has been saved. -/
theorem saved_of_run (hlawful : system.Lawful content) {start : State F}
    (htabs : TabsConsistent start) (hfiles : FilesWritten content monaco start)
    {events : List Event} {finish : Editor F U}
    (hrun : Run (Guarded (Step system monaco) guard) (mount monaco start) events finish) :
    SavesOwnText monaco finish ∧ (finish.pending = false → EditsSaved content finish) := by
  have hfinish : EditorConsistent content monaco finish :=
    hrun.invariant_guarded
      (fun _ _ _ hbefore hguard hstep ↦ hbefore.step hlawful hguard hstep)
      (editorConsistent_mount htabs hfiles)
  exact ⟨hfinish.savesOwnText, hfinish.editsSaved⟩

/-! ### Two files of a temporary project -/

/-- A `monaco` whose URIs are the paths, and that takes texts over as they are. -/
def plainApi : Api Str :=
  ⟨id, id, id⟩

/-- The editor of a temporary project with three files, the last of which is open. -/
def threeFiles : Editor FileTree Str :=
  mount plainApi (afterCalls temporaryProject createThree)

/-- The editor after the open file has been edited. -/
def editedFile : Editor FileTree Str :=
  threeFiles.edit plainApi "/c.ts".toList "let x;".toList

theorem step_editedFile :
    Step fileTrees plainApi threeFiles (.edit "let x;".toList) editedFile :=
  .edit (by decide +kernel) rfl

/-- An edit gets lost: after it has been made another file is opened, and the timer fires. -/
theorem not_editsSaved_of_openFile :
    ¬ ∀ events finish, Run (Step fileTrees plainApi) threeFiles events finish →
      SavesOwnText plainApi finish ∧
        (finish.pending = false → EditsSaved FileTree.content finish) := by
  intro hall
  let opened := editedFile.openFullPath plainApi "/a.ts".toList
  have hopen : Step fileTrees plainApi editedFile (.openFile "/a.ts".toList) opened :=
    .openFile (State.convertToFullPath_of_root _ (by decide)) (by decide +kernel)
  have hfire : Step fileTrees plainApi opened .fire (opened.fire fileTrees) :=
    .fire (by decide +kernel)
  have hrun : Run (Step fileTrees plainApi) threeFiles
      [.edit "let x;".toList, .openFile "/a.ts".toList, .fire] (opened.fire fileTrees) :=
    .cons step_editedFile (.cons hopen (.single hfire))
  have hpending : (opened.fire fileTrees).pending = false := by decide +kernel
  have hedit : (opened.fire fileTrees).edits.lookup "/c.ts".toList = some "let x;".toList := by
    decide +kernel
  have hcontent : (opened.fire fileTrees).explorer.explorer.files.content "/c.ts".toList =
      some [] := by
    decide +kernel
  have hsaved := ((hall _ _ hrun).2 hpending _ _ hedit (by rw [hcontent]; exact nofun)).1
  rw [hcontent] at hsaved
  exact absurd hsaved (by decide)

/-- The edit is saved if the timer fires before. -/
theorem saved_of_run_editedFile :
    SavesOwnText plainApi (editedFile.fire fileTrees) ∧
      ((editedFile.fire fileTrees).pending = false →
        EditsSaved FileTree.content (editedFile.fire fileTrees)) := by
  have hfiles : FilesWritten FileTree.content plainApi (afterCalls temporaryProject createThree) := by
    have htemporary : (afterCalls temporaryProject createThree).isTemporary ≠ false := by
      decide +kernel
    have habsolute : ∀ path ∈ (afterCalls temporaryProject createThree).explorer.files.keys,
        rootDirPath <+: path := by
      decide +kernel
    refine ⟨fun path hpath ↦ ?_, fun _ _ ↦ rfl, fun h ↦ absurd h htemporary,
      fun h ↦ absurd h htemporary⟩
    obtain ⟨text, htext⟩ := Option.ne_none_iff_exists'.mp hpath
    obtain ⟨item, hitem, -⟩ := Option.bind_eq_some_iff.mp htext
    exact habsolute path (OrderedMap.mem_keys_of_lookup (Option.join_eq_some_iff.mp hitem))
  have hguard : guard editedFile .fire := by
    intro path value hunsaved
    have hkeys : ∀ path ∈ editedFile.edits.keys,
        editedFile.explorer.explorer.currentFilePath = some path := by
      decide +kernel
    exact hkeys path (OrderedMap.mem_keys_of_lookup hunsaved.1)
  have hedit : Guarded (Step fileTrees plainApi) guard threeFiles (.edit "let x;".toList)
      editedFile :=
    ⟨trivial, step_editedFile⟩
  have hfire : Guarded (Step fileTrees plainApi) guard editedFile .fire
      (editedFile.fire fileTrees) :=
    ⟨hguard, .fire (by decide +kernel)⟩
  exact saved_of_run lawful_fileTrees tabsConsistent_createThree hfiles
    (.cons hedit (.single hfire))

end Playground.Monaco
