import Playground.Explorer.DiskFrames
import Playground.Explorer.TabItems
import Playground.Library.FileTree
import Playground.Library.Runs

/-!
# The tabs in every run

`Step` is one call of a method that concerns the tabs, from any state and with any outcome: a call
that throws is a step as well. `guard` says from the state before the call when it leaves the tabs
consistent, method by method, and `tabsConsistent_of_run` proves that a run whose calls all meet it
leaves them so in every state. `not_tabsConsistent_of_closeFile` is a run that does not: three files
are created, the first is opened and closed again.
-/

set_option autoImplicit false
set_option relaxedAutoImplicit false

namespace Playground.Explorer

open Library

variable {F : Type} (system : FileSystem F) (json : Json)

/-! ### Calls -/

/-- The methods that concern the tabs. -/
inductive Call
  | openFile (path : Str)
  | closeFile (path : Str)
  | setTabs (tabs : List Str)
  | newItem (path content : Str) (opts : NewItemOptions)
  | renameItem (oldPath newPath : Str) (opts : RenameItemOptions)
  | deleteItem (path : Str)
  | switchWorkspace (name : Str) (defaultOpenFile : Option Str)

/-- The method that is called. -/
def perform : Call → Action F Unit
  | .openFile path => openFile path
  | .closeFile path => closeFile path
  | .setTabs tabs => setTabs tabs
  | .newItem path content opts => newItem system json path content opts
  | .renameItem oldPath newPath opts => renameItem system json oldPath newPath opts
  | .deleteItem path => deleteItem system json path
  | .switchWorkspace name defaultOpenFile => switchWorkspace system json name defaultOpenFile

/-- What the callers guarantee: `openFile` gets a file that exists, `setTabs` the tabs in another
order. -/
def Call.Admissible (state : State F) : Call → Prop
  | .openFile path =>
    ∀ fullPath, state.convertToFullPath path = .ok fullPath →
      state.explorer.files.content fullPath ≠ none
  | .setTabs tabs => tabs.Perm state.explorer.tabs
  | _ => True

/-- One call, whether it returns or throws. -/
def Step (before : State F) (call : Call) (after : State F) : Prop :=
  call.Admissible before ∧ after = finalState (perform system json call before)

/-! ### Guards -/

/-- The checks of `renameItem` pass. -/
structure State.AcceptsRename (state : State F) (oldPath newPath : Str) (opts : RenameItemOptions) :
    Prop where
  differ : isPathsEqual newPath oldPath = false
  validName : (!opts.skipNameValidation && !isItemNameValid newPath) = false
  notSrc : ∀ srcPath, state.getCurrentSrcPath = .ok srcPath → isPathsEqual oldPath srcPath = false
  sameType : getItemTypeFromPath oldPath = getItemTypeFromPath newPath
  free : opts.override = false →
    state.newPathExists (getItemTypeFromPath oldPath) newPath = false

/-- Switching to a workspace leaves the tabs consistent: its directory and its metadata can be read,
and every file that the metadata lists as a tab is loaded from the directory. A default file is
loaded too, and has been announced already if it is the one that the metadata lists as current. -/
def State.SwitchSafe (state : State F) (name : Str) (defaultOpenFile : Option Str) : Prop :=
  ∀ entered, enterWorkspace system json name state = .ok () entered →
    ∃ loaded, loadFiles system
        { entered with explorer := { entered.explorer with files := .empty } } = .ok () loaded ∧
      ¬ (loaded.explorer.files.keys = [] ∧ loaded.allWorkspaceNames.getD [] = []) ∧
      ∃ metaFile, readMeta system json loaded = .ok metaFile loaded ∧
        (∀ entry ∈ metaFile, entry.isTabs = true →
          loaded.explorer.files.content entry.path ≠ none) ∧
        ∀ path, defaultOpenFile = some path → path ≠ [] →
          ∃ fullPath, loaded.convertToFullPath path = .ok fullPath ∧
            loaded.explorer.files.content fullPath ≠ none ∧
            ((loaded.explorer.applyMeta metaFile).currentFilePath = some fullPath →
              ∃ file, loaded.opened = some (some file) ∧ file.path = fullPath)

/-- When a call leaves the tabs consistent. -/
def guard (state : State F) : Call → Prop
  | .openFile _ | .setTabs _ => True
  | .closeFile path =>
    ∀ fullPath, state.convertToFullPath path = .ok fullPath → state.explorer.CloseSafe fullPath
  | .newItem path _ opts =>
    ∀ fullPath, state.convertToFullPath path = .ok fullPath → opts.override = true →
      getItemTypeFromPath fullPath = .folder → fullPath ∉ state.explorer.tabs
  | .renameItem oldPath newPath opts =>
    ∀ fullOldPath fullNewPath, state.convertToFullPath oldPath = .ok fullOldPath →
      state.convertToFullPath newPath = .ok fullNewPath →
      state.AcceptsRename fullOldPath fullNewPath opts →
        state.explorer.RenameSafe fullOldPath fullNewPath opts
  | .deleteItem path =>
    ∀ fullPath srcPath, state.convertToFullPath path = .ok fullPath →
      state.getCurrentSrcPath = .ok srcPath → isPathsEqual fullPath srcPath = false →
        state.DeleteSafe fullPath
  | .switchWorkspace name defaultOpenFile => state.SwitchSafe system json name defaultOpenFile

/-! ### The disk does not matter -/

theorem blind_tabsConsistent : Blind (TabsConsistent (F := F)) :=
  fun _ _ hconsistent ↦ ⟨hconsistent.valid, hconsistent.hasContent, hconsistent.announced⟩

theorem openFile_withDisk (state : State F) (disk : F) (path : Str) :
    State.openFile { state with disk } path = { state.openFile path with disk } := by
  unfold State.openFile
  split <;> rfl

theorem leaveFile_withDisk (state : State F) (disk : F) (path : Str) :
    State.leaveFile { state with disk } path = { state.leaveFile path with disk } := by
  by_cases hcurrent : state.explorer.currentFilePath = some path
  · cases hopen : state.explorer.pathToOpen with
    | none => simp [State.leaveFile, hcurrent, hopen]
    | some pathToOpen => simp [State.leaveFile, hcurrent, hopen, openFile_withDisk]
  · simp [State.leaveFile, hcurrent]

theorem forget_withDisk (state : State F) (disk : F) (path : Str) :
    State.forget { state with disk } path = { state.forget path with disk } := by
  let erased : State F :=
    { state with explorer := { state.explorer with files := state.explorer.files.erase path } }
  change State.closeFile { erased with disk } path = { erased.closeFile path with disk }
  unfold State.closeFile
  rw [leaveFile_withDisk erased disk path]
  by_cases hcurrent : (erased.leaveFile path).explorer.currentFilePath.isSome
  · simp only [if_pos hcurrent]
  · simp only [if_neg hcurrent]

theorem foldl_forget_withDisk (disk : F) (paths : List Str) :
    ∀ state : State F, paths.foldl State.forget { state with disk } =
      { paths.foldl State.forget state with disk } := by
  induction paths with
  | nil => exact fun _ ↦ rfl
  | cons path rest ih =>
    intro state
    rw [List.foldl_cons, List.foldl_cons, forget_withDisk, ih]

theorem blind_forgetsSafely (paths : List Str) :
    Blind fun state : State F ↦ ForgetsSafely state paths := by
  induction paths with
  | nil => exact fun _ _ _ ↦ trivial
  | cons path rest ih =>
    intro state disk hsafe
    refine ⟨hsafe.1, ?_⟩
    rw [forget_withDisk]
    exact ih _ disk hsafe.2

theorem blind_deleteSafe (fullPath : Str) :
    Blind fun state : State F ↦ state.DeleteSafe fullPath := by
  rintro state disk ⟨hparent, hclosings⟩
  refine ⟨hparent, hclosings.imp (blind_forgetsSafely _ state disk) fun hmoved ↦ ?_⟩
  refine ⟨hmoved.1, ?_⟩
  have hfold := foldl_forget_withDisk disk (state.explorer.pathsBelow fullPath) state
  change (((state.explorer.pathsBelow fullPath).foldl State.forget
    { state with disk }).explorer.currentFilePath) ≠ _
  rw [hfold]
  exact hmoved.2

/-! ### One call -/

variable {system json} {start : State F}

/-- A run from a state ends as its triple says. -/
theorem tabsConsistent_of_triple {action : Action F Unit}
    (htriple : Triple (fun state ↦ state = start) action (fun _ ↦ TabsConsistent) TabsConsistent) :
    TabsConsistent (finalState (action start)) := by
  have hrun := htriple start rfl
  cases haction : action start with
  | ok value after =>
    rw [haction] at hrun
    exact hrun
  | error error after =>
    rw [haction] at hrun
    exact hrun

/-- Evaluating first, in a state with consistent tabs. -/
theorem triple_evaluate_bind {α : Type} (hconsistent : TabsConsistent start)
    {value : State F → Except Error α} {next : α → Action F Unit}
    (hnext : ∀ result, value start = .ok result →
      Triple (fun state ↦ state = start) (next result) (fun _ ↦ TabsConsistent) TabsConsistent) :
    Triple (fun state ↦ state = start) (evaluate value >>= next) (fun _ ↦ TabsConsistent)
      TabsConsistent := by
  refine Triple.bind (fun result state ↦ state = start ∧ value start = .ok result) ?_ fun result ↦ ?_
  · exact (triple_evaluate value).weaken (fun _ h ↦ h) (fun _ _ h ↦ h) fun _ h ↦ h ▸ hconsistent
  · rintro state ⟨rfl, hresult⟩
    exact hnext result hresult state rfl

/-- A check first, in a state with consistent tabs. -/
theorem triple_throwIf_bind (hconsistent : TabsConsistent start) {condition : Bool} {error : Error}
    {next : Action F Unit}
    (hnext : condition = false →
      Triple (fun state ↦ state = start) next (fun _ ↦ TabsConsistent) TabsConsistent) :
    Triple (fun state ↦ state = start) (throwIf condition error >>= fun _ ↦ next)
      (fun _ ↦ TabsConsistent) TabsConsistent := by
  refine Triple.bind (fun _ state ↦ state = start ∧ condition = false) ?_ fun _ ↦ ?_
  · exact (triple_throwIf condition error).weaken (fun _ h ↦ h) (fun _ _ h ↦ h)
      fun _ h ↦ h ▸ hconsistent
  · rintro state ⟨rfl, hcondition⟩
    exact hnext hcondition state rfl

/-- A change of the disk first, in a state with consistent tabs. -/
theorem triple_keeps_bind (hconsistent : TabsConsistent start) {action next : Action F Unit}
    (hkeeps : Keeps (SameBut start) action)
    (hnext : Triple (SameBut start) next (fun _ ↦ TabsConsistent) TabsConsistent) :
    Triple (fun state ↦ state = start) (action >>= fun _ ↦ next) (fun _ ↦ TabsConsistent)
      TabsConsistent :=
  Triple.bind (fun _ ↦ SameBut start)
    ((triple_of_keeps hkeeps).weaken (fun _ h ↦ h) (fun _ _ h ↦ h)
      fun _ hsame ↦ blind_tabsConsistent.of_sameBut hsame hconsistent)
    fun _ ↦ hnext

theorem tabsConsistent_openFile_call (hconsistent : TabsConsistent start) {path : Str}
    (hadmissible : (Call.openFile path).Admissible start) :
    TabsConsistent (finalState ((openFile path : Action F Unit) start)) := by
  refine tabsConsistent_of_triple (triple_evaluate_bind hconsistent fun fullPath hfull ↦ ?_)
  refine Triple.modify ?_
  rintro state rfl
  exact tabsConsistent_openFile hconsistent.valid hconsistent.hasContent (hadmissible fullPath hfull)
    fun _ ↦ hconsistent.announced

theorem tabsConsistent_closeFile_call (hconsistent : TabsConsistent start) {path : Str}
    (hguard : guard system json start (.closeFile path)) :
    TabsConsistent (finalState ((closeFile path : Action F Unit) start)) := by
  refine tabsConsistent_of_triple (triple_evaluate_bind hconsistent fun fullPath hfull ↦ ?_)
  refine Triple.modify ?_
  rintro state rfl
  refine ⟨validTabs_closeFile hconsistent.valid fullPath, fun tab htab ↦ ?_, ?_⟩
  · rw [files_closeFile]
    exact hconsistent.hasContent tab (mem_tabs_of_closeFile hconsistent.valid htab).1
  · exact announced_closeFile hconsistent.valid (fun tab htab _ ↦ hconsistent.hasContent tab htab)
      hconsistent.announced (hguard fullPath hfull)

theorem keeps_saveMeta_tabsConsistent :
    Keeps TabsConsistent (saveMeta system json) :=
  blind_tabsConsistent.saveMeta

theorem tabsConsistent_newItem_call (hconsistent : TabsConsistent start) {path content : Str}
    {opts : NewItemOptions} (hguard : guard system json start (.newItem path content opts)) :
    TabsConsistent (finalState (newItem system json path content opts start)) := by
  refine tabsConsistent_of_triple (triple_evaluate_bind hconsistent fun fullPath hfull ↦
    triple_throwIf_bind hconsistent fun _ ↦ Triple.get_bind ?_)
  rintro state rfl
  refine triple_throwIf_bind hconsistent fun hexists ↦
    Triple.bind (fun _ ↦ TabsConsistent) (Triple.get_bind ?_) fun _ ↦ keeps_saveMeta_tabsConsistent
  rintro state rfl
  cases htype : getItemTypeFromPath fullPath with
  | file =>
    refine triple_keeps_bind hconsistent
      (keeps_runIf fun _ ↦ (blind_sameBut state).writeFile _ _ _) (Triple.modify fun after hafter ↦ ?_)
    exact tabsConsistent_createFile (blind_tabsConsistent.of_sameBut hafter hconsistent)
  | folder =>
    have hnot : fullPath ∉ state.explorer.tabs := by
      intro hmem
      by_cases hoverride : opts.override = true
      · exact hguard fullPath hfull hoverride htype hmem
      · obtain ⟨text, htext⟩ := Option.ne_none_iff_exists'.mp (hconsistent.hasContent fullPath hmem)
        obtain ⟨item, hitem, -⟩ := Option.bind_eq_some_iff.mp htext
        simp [hitem, hoverride] at hexists
    refine triple_keeps_bind hconsistent
      (keeps_runIf fun _ ↦ (blind_sameBut state).createDir _ _) (Triple.modify fun after hafter ↦ ?_)
    have hexplorer : after.explorer = state.explorer := by rw [hafter]
    refine tabsConsistent_writeFolder (blind_tabsConsistent.of_sameBut hafter hconsistent) ?_
    rwa [hexplorer]

theorem tabsConsistent_deleteItem_call (hconsistent : TabsConsistent start) {path : Str}
    (hguard : guard system json start (.deleteItem path)) :
    TabsConsistent (finalState (deleteItem system json path start)) := by
  refine tabsConsistent_of_triple (triple_evaluate_bind hconsistent fun fullPath hfull ↦
    triple_evaluate_bind hconsistent fun srcPath hsrc ↦
    triple_throwIf_bind hconsistent fun hnotSrc ↦ Triple.get_bind ?_)
  rintro state rfl
  have hsafe := hguard fullPath srcPath hfull hsrc hnotSrc
  refine triple_keeps_bind hconsistent (keeps_runIf fun _ ↦ (blind_sameBut state).removeItem _)
    (Triple.bind (fun _ ↦ TabsConsistent) (Triple.modify fun after hafter ↦ ?_)
      fun _ ↦ keeps_saveMeta_tabsConsistent)
  exact tabsConsistent_deleteItem (blind_tabsConsistent.of_sameBut hafter hconsistent)
    ((blind_deleteSafe fullPath).of_sameBut hafter hsafe)

theorem tabsConsistent_setTabs_call (hconsistent : TabsConsistent start) {tabs : List Str}
    (hadmissible : (Call.setTabs tabs).Admissible start) :
    TabsConsistent (finalState ((setTabs tabs : Action F Unit) start)) :=
  tabsConsistent_setTabs hconsistent hadmissible

theorem tabsConsistent_renameItem_call (hconsistent : TabsConsistent start) {oldPath newPath : Str}
    {opts : RenameItemOptions} (hguard : guard system json start (.renameItem oldPath newPath opts)) :
    TabsConsistent (finalState (renameItem system json oldPath newPath opts start)) := by
  refine tabsConsistent_of_triple (triple_evaluate_bind hconsistent fun fullOldPath hold ↦
    triple_evaluate_bind hconsistent fun fullNewPath hnew ↦ Triple.ite (fun _ ↦ ?_) fun hdiffer ↦ ?_)
  · exact Triple.pure fun state hstate ↦ hstate ▸ hconsistent
  refine triple_throwIf_bind hconsistent fun hname ↦ triple_evaluate_bind hconsistent fun srcPath hsrc ↦
    triple_throwIf_bind hconsistent fun hnotSrc ↦ triple_throwIf_bind hconsistent fun htype ↦
    Triple.get_bind ?_
  rintro state rfl
  refine triple_throwIf_bind hconsistent fun hexists ↦ triple_keeps_bind hconsistent
    (keeps_runIf fun _ ↦ (blind_sameBut state).rename _ _) ?_
  have hsameType : getItemTypeFromPath fullOldPath = getItemTypeFromPath fullNewPath := by
    simpa using htype
  have hfree : opts.override = false →
      state.newPathExists (getItemTypeFromPath fullOldPath) fullNewPath = false := fun hoverride ↦ by
    simpa [hoverride] using hexists
  have hsafe : state.explorer.RenameSafe fullOldPath fullNewPath opts := by
    refine hguard fullOldPath fullNewPath hold hnew ⟨?_, hname, fun other hother ↦ ?_, hsameType, hfree⟩
    · simpa using hdiffer
    · rw [hsrc] at hother
      obtain rfl := Except.ok.inj hother
      exact hnotSrc
  refine Triple.bind (fun _ ↦ TabsAreFiles) (Triple.modify fun after hafter ↦ ?_) fun _ ↦
    Triple.bind (fun _ ↦ TabsConsistent) (Triple.modify fun after hafter ↦ ?_) fun _ ↦
      keeps_saveMeta_tabsConsistent
  · obtain ⟨disk, rfl⟩ : ∃ disk, after = { state with disk } := ⟨_, hafter⟩
    have hfiles := (blind_tabsConsistent state disk hconsistent).tabsAreFiles
    exact tabsAreFiles_renameItem hfiles hsameType hsafe hfree
  · exact tabsConsistent_dispatchOnDidOpenFile hafter

/-! ### Switching -/

/-- Take over the position of one entry of the metadata. -/
def ExplorerFiles.takePosition (files : ExplorerFiles) (entry : ItemMetaEntry) : ExplorerFiles :=
  match files.item entry.path with
  | some ⟨some content, _⟩ => files.set entry.path (some ⟨some content, some ⟨entry.position⟩⟩)
  | _ => files

/-- Taking over metadata takes over the position of every entry. -/
theorem files_applyMeta (explorer : ExplorerState) (metaFile : List ItemMetaEntry) :
    (explorer.applyMeta metaFile).files =
      metaFile.foldl ExplorerFiles.takePosition explorer.files :=
  rfl

theorem item_takePosition_of_ne {files : ExplorerFiles} {entry : ItemMetaEntry} {path : Str}
    (hpath : path ≠ entry.path) : (files.takePosition entry).item path = files.item path := by
  unfold ExplorerFiles.takePosition
  split
  · rw [ExplorerFiles.item, OrderedMap.lookup_set_of_ne _ _ hpath]
    rfl
  · rfl

/-- The item of an entry keeps its content, and where it has one it has the position of the entry. -/
theorem item_takePosition_self (files : ExplorerFiles) (entry : ItemMetaEntry) :
    (files.takePosition entry).item entry.path =
      match files.item entry.path with
      | some ⟨some content, _⟩ => some ⟨some content, some ⟨entry.position⟩⟩
      | item => item := by
  unfold ExplorerFiles.takePosition
  split
  · next hitem =>
    rw [ExplorerFiles.item, OrderedMap.lookup_set_self]
    rfl
  · next hnone =>
    cases hitem : files.item entry.path with
    | none => rfl
    | some item =>
      obtain ⟨content, itemMeta⟩ := item
      cases content with
      | none => rfl
      | some content => exact absurd hitem (hnone content itemMeta)

theorem content_takePosition (files : ExplorerFiles) (entry : ItemMetaEntry) (path : Str) :
    (files.takePosition entry).content path = files.content path := by
  by_cases hpath : path = entry.path
  · subst hpath
    rw [ExplorerFiles.content, ExplorerFiles.content, item_takePosition_self]
    split
    · next hitem =>
      rw [hitem]
      rfl
    · rfl
  · rw [ExplorerFiles.content, ExplorerFiles.content, item_takePosition_of_ne hpath]

/-- Taking over metadata does not change contents. -/
theorem content_applyMeta (explorer : ExplorerState) (metaFile : List ItemMetaEntry) (path : Str) :
    (explorer.applyMeta metaFile).files.content path = explorer.files.content path := by
  have hloop : ∀ (entries : List ItemMetaEntry) (files : ExplorerFiles),
      ExplorerFiles.content (entries.foldl ExplorerFiles.takePosition files) path =
        files.content path := by
    intro entries
    induction entries with
    | nil => exact fun _ ↦ rfl
    | cons entry rest ih => exact fun files ↦ (ih _).trans (content_takePosition files entry path)
  exact hloop metaFile explorer.files

/-- The tabs that the metadata lists. -/
theorem mem_tabs_applyMeta {explorer : ExplorerState} {metaFile : List ItemMetaEntry} {tab : Str} :
    tab ∈ (explorer.applyMeta metaFile).tabs ↔
      ∃ entry ∈ metaFile, entry.isTabs = true ∧ entry.path = tab := by
  change tab ∈ distinct ((metaFile.filter ItemMetaEntry.isTabs).map ItemMetaEntry.path) ↔ _
  rw [mem_distinct, List.mem_map]
  simp only [List.mem_filter, and_assoc]

/-- The tabs that the metadata lists are valid. -/
theorem validTabs_applyMeta (explorer : ExplorerState) (metaFile : List ItemMetaEntry) :
    (explorer.applyMeta metaFile).ValidTabs := by
  refine ⟨nodup_distinct _, ?_⟩
  change metaIndex (explorer.applyMeta metaFile).tabs metaFile = -1 ∨
    0 ≤ metaIndex (explorer.applyMeta metaFile).tabs metaFile ∧
      metaIndex (explorer.applyMeta metaFile).tabs metaFile < (explorer.applyMeta metaFile).tabs.length
  unfold metaIndex
  cases metaFile.find? ItemMetaEntry.isCurrent with
  | none => exact .inl rfl
  | some current =>
    by_cases hcurrent : current.path ∈ (explorer.applyMeta metaFile).tabs
    · exact .inr (indexOf_bounds hcurrent)
    · exact .inl (indexOf_of_notMem hcurrent)

/-- Announcing after a switch makes the tabs consistent if they are files. -/
theorem tabsConsistent_openDefaultFile {defaultOpenFile : Option Str}
    (hfiles : TabsAreFiles start)
    (hdefault : ∀ path, defaultOpenFile = some path → path ≠ [] →
      ∃ fullPath, start.convertToFullPath path = .ok fullPath ∧
        start.explorer.files.content fullPath ≠ none ∧
        (start.explorer.currentFilePath = some fullPath →
          ∃ file, start.opened = some (some file) ∧ file.path = fullPath)) :
    Triple (fun state ↦ state = start) (openDefaultFile system json defaultOpenFile)
      (fun _ ↦ TabsConsistent) TabsConsistent := by
  unfold openDefaultFile
  cases hfilter : defaultOpenFile.filter fun path ↦ path ≠ [] with
  | none =>
    refine Triple.modify ?_
    rintro state rfl
    exact tabsConsistent_dispatchOnDidOpenFile hfiles
  | some path =>
    obtain ⟨hpath, hne⟩ := Option.filter_eq_some_iff.mp hfilter
    obtain ⟨fullPath, hfull, hcontent, hannounced⟩ := hdefault path hpath (by simpa using hne)
    refine Triple.bind (fun _ ↦ TabsConsistent) ?_ fun _ ↦ keeps_saveMeta_tabsConsistent
    have hopen : (openFile path : Action F Unit) start = .ok () (start.openFile fullPath) := by
      change EStateM.bind (evaluate _) _ start = _
      simp only [EStateM.bind, evaluate, hfull]
      rfl
    rintro state rfl
    rw [hopen]
    refine tabsConsistent_openFile hfiles.valid hfiles.hasContent hcontent fun hcurrent ↦ ?_
    obtain ⟨file, hopened, hfile⟩ := hannounced hcurrent
    exact fun _ ↦ ⟨file, hopened, by rw [hcurrent, hfile]⟩

theorem keeps_enterWorkspace (system : FileSystem F) (json : Json) (name : Str) :
    Keeps TabsConsistent (enterWorkspace system json name) := by
  refine Keeps.bind keeps_saveMeta_tabsConsistent fun _ ↦ Keeps.bind ?_ fun _ ↦ ?_
  · exact fun _ hstate ↦ ⟨hstate.valid, hstate.hasContent, hstate.announced⟩
  · exact blind_tabsConsistent.saveWorkspaces

/-- Initializing a workspace whose files have been loaded goes on to its metadata, unless there is
nothing at all. -/
theorem initCurrentWorkspaceWith_of_loaded (deleteWorkspace : Action F Unit)
    {entered loaded : State F} (hworkspace : entered.hasWorkspace = true)
    (hload : loadFiles system
      { entered with explorer := { entered.explorer with files := .empty } } = .ok () loaded) :
    initCurrentWorkspaceWith system json deleteWorkspace entered =
      (if loaded.explorer.files.keys = [] ∧ loaded.allWorkspaceNames.getD [] = [] then pure ()
        else loadMeta system json : Action F Unit) loaded := by
  have hcaught : (tryCatch (loadFiles system) fun _ ↦ deleteWorkspace : Action F Unit)
      { entered with explorer := { entered.explorer with files := .empty } } = .ok () loaded := by
    change EStateM.tryCatch (loadFiles system) _ _ = _
    rw [EStateM.tryCatch, hload]
  unfold initCurrentWorkspaceWith
  rw [get_bind_apply]
  change EStateM.bind (throwIf (!entered.hasWorkspace) _) _ entered = _
  rw [hworkspace]
  change EStateM.bind (tryCatch (loadFiles system) fun _ ↦ deleteWorkspace) _
    { entered with explorer := { entered.explorer with files := .empty } } = _
  rw [EStateM.bind, hcaught]
  rfl

/-- Initializing a workspace that can be read takes over its files, and the tabs of its metadata. -/
theorem initCurrentWorkspaceWith_eq_ok (deleteWorkspace : Action F Unit) {entered loaded : State F}
    {metaFile : List ItemMetaEntry} (hworkspace : entered.hasWorkspace = true)
    (hload : loadFiles system
      { entered with explorer := { entered.explorer with files := .empty } } = .ok () loaded)
    (hnames : ¬ (loaded.explorer.files.keys = [] ∧ loaded.allWorkspaceNames.getD [] = []))
    (hmeta : readMeta system json loaded = .ok metaFile loaded) :
    initCurrentWorkspaceWith system json deleteWorkspace entered =
      .ok () { loaded with explorer := loaded.explorer.applyMeta metaFile } := by
  rw [initCurrentWorkspaceWith_of_loaded deleteWorkspace hworkspace hload, if_neg hnames]
  change EStateM.bind (readMeta system json) _ loaded = _
  rw [EStateM.bind, hmeta]
  rfl

/-- Without workspaces there is nothing to initialize. -/
theorem initCurrentWorkspaceWith_eq_error (deleteWorkspace : Action F Unit) {entered : State F}
    (hworkspace : entered.hasWorkspace = false) :
    initCurrentWorkspaceWith system json deleteWorkspace entered =
      .error WorkspaceError.notFound entered := by
  unfold initCurrentWorkspaceWith
  rw [get_bind_apply]
  change EStateM.bind (throwIf (!entered.hasWorkspace) _) _ entered = _
  rw [hworkspace]
  rfl

/-- Initializing the workspace that has been entered, and announcing its current file. -/
theorem tabsConsistent_of_entered {name : Str} {defaultOpenFile : Option Str} {entered : State F}
    (hguard : start.SwitchSafe system json name defaultOpenFile)
    (henter : enterWorkspace system json name start = .ok () entered)
    (hentered : TabsConsistent entered) :
    Triple (fun state ↦ state = entered)
      (initCurrentWorkspaceWith system json (deleteWorkspace system json) >>= fun _ ↦
        openDefaultFile system json defaultOpenFile >>= fun _ ↦
          modify fun state ↦ { state with initializedWorkspaceName := some name })
      (fun _ ↦ TabsConsistent) TabsConsistent := by
  obtain ⟨loaded, hload, hnames, metaFile, hmeta, htabs, hdefault⟩ := hguard entered henter
  let applied : State F := { loaded with explorer := loaded.explorer.applyMeta metaFile }
  refine Triple.bind (fun _ state ↦ state = applied) ?_ fun _ ↦
    Triple.bind (fun _ ↦ TabsConsistent) ?_ fun _ ↦
      Triple.modify fun state hstate ↦ ⟨hstate.valid, hstate.hasContent, hstate.announced⟩
  · rintro state rfl
    by_cases hworkspace : state.hasWorkspace = true
    · rw [initCurrentWorkspaceWith_eq_ok _ hworkspace hload hnames hmeta]
    · rw [initCurrentWorkspaceWith_eq_error _ (Bool.not_eq_true _ ▸ hworkspace)]
      exact hentered
  · have hcontent : ∀ path, applied.explorer.files.content path =
        loaded.explorer.files.content path := content_applyMeta _ _
    refine tabsConsistent_openDefaultFile ⟨validTabs_applyMeta _ _, fun tab htab ↦ ?_⟩
      fun path hpath hne ↦ ?_
    · obtain ⟨entry, hentry, hisTabs, rfl⟩ := mem_tabs_applyMeta.mp htab
      rw [hcontent]
      exact htabs entry hentry hisTabs
    · obtain ⟨fullPath, hfull, hloaded, hannounced⟩ := hdefault path hpath hne
      exact ⟨fullPath, hfull, by rwa [hcontent], hannounced⟩

theorem tabsConsistent_switchWorkspace_call (hconsistent : TabsConsistent start) {name : Str}
    {defaultOpenFile : Option Str}
    (hguard : guard system json start (.switchWorkspace name defaultOpenFile)) :
    TabsConsistent (finalState (switchWorkspace system json name defaultOpenFile start)) := by
  refine tabsConsistent_of_triple (Triple.bind
    (fun _ entered ↦ TabsConsistent entered ∧
      enterWorkspace system json name start = .ok () entered) ?_ fun _ ↦ ?_)
  · rintro state rfl
    have hrun := keeps_enterWorkspace system json name state hconsistent
    cases henter : enterWorkspace system json name state with
    | ok value entered =>
      rw [henter] at hrun
      exact ⟨hrun, rfl⟩
    | error error after =>
      rw [henter] at hrun
      exact hrun
  · rintro entered ⟨hentered, henter⟩
    exact tabsConsistent_of_entered hguard henter hentered entered rfl

/-! ### Runs -/

/-- One call that meets the guard keeps the tabs consistent. -/
theorem tabsConsistent_step {before after : State F} {call : Call}
    (hconsistent : TabsConsistent before) (hguard : guard system json before call)
    (hstep : Step system json before call after) : TabsConsistent after := by
  obtain ⟨hadmissible, rfl⟩ := hstep
  cases call with
  | openFile path => exact tabsConsistent_openFile_call hconsistent hadmissible
  | closeFile path => exact tabsConsistent_closeFile_call hconsistent hguard
  | setTabs tabs => exact tabsConsistent_setTabs_call hconsistent hadmissible
  | newItem path content opts => exact tabsConsistent_newItem_call hconsistent hguard
  | renameItem oldPath newPath opts => exact tabsConsistent_renameItem_call hconsistent hguard
  | deleteItem path => exact tabsConsistent_deleteItem_call hconsistent hguard
  | switchWorkspace name defaultOpenFile =>
    exact tabsConsistent_switchWorkspace_call hconsistent hguard

/-- A run whose calls all meet the guard leaves the tabs consistent in every state. -/
theorem tabsConsistent_of_run {finish : State F} {calls : List Call}
    (hrun : Run (Guarded (Step system json) (guard system json)) start calls finish)
    (hstart : TabsConsistent start) : TabsConsistent finish :=
  hrun.invariant_guarded (fun _ _ _ hbefore hguard hstep ↦ tabsConsistent_step hbefore hguard hstep)
    hstart

/-! ### Runs on a temporary project -/

/-- A `JSON` for projects that store nothing. -/
def emptyJson : Json :=
  ⟨fun _ ↦ [], fun _ ↦ none, fun _ ↦ [], fun _ ↦ none⟩

/-- A temporary project without files. -/
def temporaryProject : State FileTree where
  disk := .empty
  explorer := getDefaultState
  isTemporary := true
  hasWorkspace := false
  workspaces := .initial
  initializedWorkspaceName := none
  opened := none

theorem tabsConsistent_temporaryProject : TabsConsistent temporaryProject where
  valid := ⟨List.nodup_nil, .inl rfl⟩
  hasContent := fun _ htab ↦ by cases htab
  announced := fun htabs ↦ absurd rfl htabs

/-- The state after some calls. -/
def afterCalls (state : State FileTree) (calls : List Call) : State FileTree :=
  calls.foldl (fun state call ↦ finalState (perform fileTrees emptyJson call state)) state

/-- One more call is one more step. -/
theorem step_afterCalls {state : State FileTree} {calls : List Call} {call : Call}
    (hadmissible : call.Admissible (afterCalls state calls)) :
    Step fileTrees emptyJson (afterCalls state calls) call (afterCalls state (calls ++ [call])) := by
  refine ⟨hadmissible, ?_⟩
  rw [afterCalls, List.foldl_append]
  rfl

/-- Create a file without content. -/
def create (name : String) : Call :=
  .newItem name.toList [] .none

/-- Create three files without content. -/
def createThree : List Call :=
  [create "a.ts"] ++ [create "b.ts"] ++ [create "c.ts"]

/-- Creating files meets every guard. -/
theorem run_createThree :
    Run (Guarded (Step fileTrees emptyJson) (guard fileTrees emptyJson)) temporaryProject
      createThree (afterCalls temporaryProject createThree) := by
  have hcreate : ∀ (calls : List Call) (name : String),
      Guarded (Step fileTrees emptyJson) (guard fileTrees emptyJson)
        (afterCalls temporaryProject calls) (create name)
        (afterCalls temporaryProject (calls ++ [create name])) := by
    intro calls name
    refine ⟨fun fullPath _ hoverride ↦ ?_, step_afterCalls trivial⟩
    cases hoverride
  exact .snoc (.snoc (.single (hcreate [] _)) (hcreate _ _)) (hcreate _ _)

/-- The three files are consistent tabs. -/
theorem tabsConsistent_createThree : TabsConsistent (afterCalls temporaryProject createThree) :=
  run_createThree.invariant_guarded
    (fun _ _ _ hbefore hguard hstep ↦ tabsConsistent_step hbefore hguard hstep)
    tabsConsistent_temporaryProject

/-- The tabs do not stay consistent: with the tabs `a.ts`, `b.ts`, `c.ts` and the first the current
one, closing it announces `b.ts` and leaves `c.ts` the current file. -/
theorem not_tabsConsistent_of_closeFile :
    ¬ ∀ calls finish, Run (Step fileTrees emptyJson) temporaryProject calls finish →
      TabsConsistent finish := by
  intro hall
  have hadmissible : (Call.openFile "a.ts".toList).Admissible
      (afterCalls temporaryProject createThree) := by
    intro fullPath hfull
    have hpath : "/a.ts".toList = fullPath := Except.ok.inj hfull
    rw [← hpath]
    decide +kernel
  have hcreated : Run (Step fileTrees emptyJson) temporaryProject createThree
      (afterCalls temporaryProject createThree) :=
    run_createThree.mono fun _ _ _ hstep ↦ hstep.2
  have hrun : Run (Step fileTrees emptyJson) temporaryProject
      (createThree ++ [.openFile "a.ts".toList] ++ [.closeFile "a.ts".toList])
      (afterCalls temporaryProject
        (createThree ++ [.openFile "a.ts".toList] ++ [.closeFile "a.ts".toList])) :=
    (hcreated.snoc (step_afterCalls hadmissible)).snoc (step_afterCalls trivial)
  have hopened : (afterCalls temporaryProject
      (createThree ++ [.openFile "a.ts".toList] ++ [.closeFile "a.ts".toList])).opened.map
      (Option.map FullFile.path) = some (some "/b.ts".toList) := by
    decide +kernel
  have hcurrent : (afterCalls temporaryProject
      (createThree ++ [.openFile "a.ts".toList] ++
        [.closeFile "a.ts".toList])).explorer.currentFilePath = some "/c.ts".toList := by
    decide +kernel
  obtain ⟨file, hfile, hpath⟩ := (hall _ _ hrun).announced (by decide +kernel)
  rw [hfile, Option.map_some, Option.map_some, Option.some_inj, Option.some_inj] at hopened
  rw [hcurrent, hopened, Option.some_inj] at hpath
  exact absurd hpath (by decide +kernel)

/-- With the last of the three files current, closing the first leaves the tabs consistent. -/
theorem tabsConsistent_of_run_closeFile :
    TabsConsistent (afterCalls temporaryProject (createThree ++ [.closeFile "a.ts".toList])) := by
  have hguard : guard fileTrees emptyJson (afterCalls temporaryProject createThree)
      (.closeFile "a.ts".toList) := by
    intro fullPath hfull
    have hpath : "/a.ts".toList = fullPath := Except.ok.inj hfull
    rw [← hpath]
    decide +kernel
  exact tabsConsistent_of_run (run_createThree.snoc ⟨hguard, step_afterCalls trivial⟩)
    tabsConsistent_temporaryProject

end Playground.Explorer
