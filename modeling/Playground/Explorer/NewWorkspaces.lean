import Playground.Explorer.TabRuns

/-!
# A failed `newWorkspace`

`newWorkspace` checks the name, and where the workspace is not made from a temporary project also
that there are workspaces and that the name is free, before it changes anything (`Rejects`). A call
that these checks reject leaves the state as it was. A call that throws later does not: a temporary
project is no longer temporary by then, and otherwise the new name has been added to the workspaces.

Only the initialization of the new workspace can take the name away again, when the files of the
workspace cannot be read, so that it deletes the workspace and then throws (`InitializationFails`).
-/

set_option autoImplicit false
set_option relaxedAutoImplicit false

namespace Playground.Explorer

open Library

variable {F : Type} {system : FileSystem F} {json : Json}

/-! ### What changes neither the mode nor the names -/

/-- The property does not depend on the items and the tabs. -/
def BlindToExplorer (property : State F → Prop) : Prop :=
  ∀ state explorer, property state → property { state with explorer }

section Frames

variable {property : State F → Prop}

theorem BlindToExplorer.loadFile (hblind : BlindToExplorer property) (path : Str) :
    Keeps property (loadFile system path) := by
  refine Keeps.tryCatch (Keeps.bind (keeps_readToString path) fun content ↦ ?_) fun _ ↦ Keeps.pure ()
  exact fun state hstate ↦ hblind state _ hstate

theorem BlindToExplorer.setupFiles (hblind : BlindToExplorer property) (fuel : ℕ) :
    ∀ path : Str, Keeps property (setupFiles system fuel path) := by
  induction fuel with
  | zero => exact fun _ ↦ Keeps.throw _
  | succ fuel ih =>
    intro path
    refine Keeps.bind (keeps_readDir path) fun itemNames ↦ Keeps.ite (fun _ ↦ ?_) fun _ ↦ ?_
    · exact fun state hstate ↦ hblind state _ hstate
    · refine Keeps.bind (Keeps.mapM fun itemName _ ↦ ?_) fun subItemPaths ↦
        Keeps.forM fun subItemPath _ ↦ ?_
      · refine Keeps.bind (keeps_convertToFullPath _) fun fullPath ↦ ?_
        cases getItemTypeFromPath fullPath with
        | file => exact Keeps.pure _
        | folder => exact Keeps.pure _
      · refine Keeps.bind (keeps_getMetadata _) fun metadata ↦ Keeps.ite (fun _ ↦ ?_) fun _ ↦ ih _
        exact hblind.loadFile _

theorem BlindToExplorer.loadFiles (hblind : BlindToExplorer property) :
    Keeps property (loadFiles system) :=
  Keeps.bind (keeps_evaluate _) fun _ ↦ Keeps.get_bind fun _ ↦ hblind.setupFiles _ _

theorem keeps_readMeta : Keeps property (readMeta system json) := by
  refine Keeps.bind (keeps_readToJSONOrDefault _ _ _) fun metaFile ↦ Keeps.mapM fun entry _ ↦ ?_
  exact Keeps.bind (keeps_convertToFullPath _) fun _ ↦ Keeps.pure _

theorem BlindToExplorer.loadMeta (hblind : BlindToExplorer property) :
    Keeps property (loadMeta system json) :=
  Keeps.bind keeps_readMeta fun _ state hstate ↦ hblind state _ hstate

end Frames

/-- The property depends on whether the project is temporary only. -/
theorem keeps_mode_of_modify {flag : Bool} {change : State F → State F}
    (hchange : ∀ state, (change state).isTemporary = state.isTemporary) :
    Keeps (fun state ↦ state.isTemporary = flag) (modify change : Action F Unit) :=
  fun state hstate ↦ (hchange state).trans hstate

section Mode

variable {flag : Bool}

theorem blind_mode (flag : Bool) : Blind fun state : State F ↦ state.isTemporary = flag :=
  fun _ _ hstate ↦ hstate

theorem blindToExplorer_mode (flag : Bool) :
    BlindToExplorer fun state : State F ↦ state.isTemporary = flag :=
  fun _ _ hstate ↦ hstate

theorem keeps_mode_changeWorkspaces (change : Workspaces → Except Error Workspaces) :
    Keeps (fun state : State F ↦ state.isTemporary = flag) (changeWorkspaces change) := by
  intro state hstate
  unfold changeWorkspaces
  cases change state.workspaces with
  | ok workspaces => exact hstate
  | error error => exact hstate

theorem mode_openFile (state : State F) (path : Str) :
    (state.openFile path).isTemporary = state.isTemporary := by
  unfold State.openFile
  split <;> rfl

theorem mode_closeFile (state : State F) (path : Str) :
    (state.closeFile path).isTemporary = state.isTemporary := by
  have hleave : (state.leaveFile path).isTemporary = state.isTemporary := by
    unfold State.leaveFile
    split
    · split
      · exact mode_openFile _ _
      · rfl
    · rfl
  unfold State.closeFile
  split
  · exact hleave
  · exact hleave

theorem mode_deleteItem (state : State F) (fullPath : Str) :
    (state.deleteItem fullPath).isTemporary = state.isTemporary := by
  have hforget : ∀ (paths : List Str) (state : State F),
      (paths.foldl State.forget state).isTemporary = state.isTemporary := by
    intro paths
    induction paths with
    | nil => exact fun _ ↦ rfl
    | cons path rest ih => exact fun state ↦ (ih _).trans (mode_closeFile _ path)
  unfold State.deleteItem
  dsimp only
  split
  · split
    · exact (mode_openFile _ _).trans (hforget _ _)
    · exact hforget _ _
  · exact hforget _ _

theorem keeps_mode_openFile (path : Str) :
    Keeps (fun state : State F ↦ state.isTemporary = flag) (openFile path) :=
  Keeps.bind (keeps_convertToFullPath path) fun _ ↦ keeps_mode_of_modify fun _ ↦ mode_openFile _ _

theorem keeps_mode_deleteItem (path : Str) :
    Keeps (fun state : State F ↦ state.isTemporary = flag) (deleteItem system json path) := by
  refine Keeps.bind (keeps_convertToFullPath path) fun fullPath ↦ Keeps.bind (keeps_evaluate _)
    fun srcPath ↦ Keeps.bind (keeps_throwIf _ _) fun _ ↦ Keeps.get_bind fun state ↦
      Keeps.bind (keeps_runIf fun _ ↦ (blind_mode flag).removeItem _) fun _ ↦
        Keeps.bind ?_ fun _ ↦ (blind_mode flag).saveMeta
  exact keeps_mode_of_modify fun _ ↦ mode_deleteItem _ _

theorem keeps_mode_enterWorkspace (name : Str) :
    Keeps (fun state : State F ↦ state.isTemporary = flag) (enterWorkspace system json name) :=
  Keeps.bind (blind_mode flag).saveMeta fun _ ↦ Keeps.bind (keeps_mode_changeWorkspaces _) fun _ ↦
    (blind_mode flag).saveWorkspaces

theorem keeps_mode_switchWorkspaceWith {deleteWorkspace : Action F Unit}
    (hdelete : Keeps (fun state : State F ↦ state.isTemporary = flag) deleteWorkspace) (name : Str)
    (defaultOpenFile : Option Str) :
    Keeps (fun state : State F ↦ state.isTemporary = flag)
      (switchWorkspaceWith system json deleteWorkspace name defaultOpenFile) := by
  refine Keeps.bind (keeps_mode_enterWorkspace name) fun _ ↦ Keeps.bind ?_ fun _ ↦
    Keeps.bind ?_ fun _ ↦ keeps_mode_of_modify fun _ ↦ rfl
  · refine Keeps.get_bind fun state ↦ Keeps.bind (keeps_throwIf _ _) fun _ ↦ Keeps.bind ?_ fun _ ↦
      Keeps.bind ?_ fun _ ↦ Keeps.get_bind fun state ↦ Keeps.ite (fun _ ↦ Keeps.pure ()) fun _ ↦ ?_
    · exact keeps_mode_of_modify fun _ ↦ rfl
    · exact Keeps.tryCatch (blindToExplorer_mode flag).loadFiles fun _ ↦ hdelete
    · exact (blindToExplorer_mode flag).loadMeta
  · unfold openDefaultFile
    split
    · exact Keeps.bind (keeps_mode_openFile _) fun _ ↦ (blind_mode flag).saveMeta
    · exact keeps_mode_of_modify fun _ ↦ rfl

theorem keeps_mode_deleteWorkspaceWithin (bound : ℕ) :
    Keeps (fun state : State F ↦ state.isTemporary = flag)
      (deleteWorkspaceWithin system json bound) := by
  induction bound with
  | zero => exact Keeps.throw _
  | succ bound ih =>
    refine Keeps.get_bind fun state ↦ Keeps.bind (keeps_throwIf _ _) fun _ ↦
      Keeps.bind (keeps_evaluate _) fun root ↦ Keeps.bind (keeps_mode_deleteItem root) fun _ ↦
        Keeps.get_bind fun state ↦ Keeps.bind (keeps_mode_changeWorkspaces _) fun _ ↦ ?_
    split
    · exact keeps_mode_switchWorkspaceWith ih _ none
    · exact Keeps.bind (keeps_mode_changeWorkspaces _) fun _ ↦ (blind_mode flag).saveWorkspaces

/-- Switching never makes a project temporary. -/
theorem keeps_mode_switchWorkspace (name : Str) (defaultOpenFile : Option Str) :
    Keeps (fun state : State F ↦ state.isTemporary = flag)
      (switchWorkspace system json name defaultOpenFile) :=
  keeps_mode_switchWorkspaceWith (Keeps.get_bind fun _ ↦ keeps_mode_deleteWorkspaceWithin _) name _

theorem keeps_mode_initWorkspaces :
    Keeps (fun state : State F ↦ state.isTemporary = flag) (initWorkspaces system json) := by
  refine Keeps.get_bind fun state ↦ Keeps.bind (keeps_readToJSONOrDefault _ _ _) fun workspaces ↦
    Keeps.bind ?_ fun _ ↦ (blind_mode flag).saveWorkspaces
  exact keeps_mode_of_modify fun _ ↦ rfl

theorem keeps_mode_writeAllFromState :
    Keeps (fun state : State F ↦ state.isTemporary = flag) (writeAllFromState system) := by
  refine Keeps.get_bind fun state ↦ Keeps.forM fun path _ ↦ ?_
  split
  · exact (blind_mode flag).writeFile _ _ _
  · exact (blind_mode flag).createDir _ _

end Mode

/-! ### What keeps the new name -/

section Named

variable {name : Str}

/-- There are workspaces, and the name is one of them. -/
def HasName (name : Str) (state : State F) : Prop :=
  state.hasWorkspace = true ∧ name ∈ state.workspaces.allNames

theorem blind_hasName : Blind (HasName (F := F) name) :=
  fun _ _ hstate ↦ hstate

theorem blindToExplorer_hasName : BlindToExplorer (HasName (F := F) name) :=
  fun _ _ hstate ↦ hstate

theorem hasName_openFile {state : State F} (hname : HasName name state) (path : Str) :
    HasName name (state.openFile path) := by
  unfold State.openFile
  split
  · exact hname
  · exact hname

/-- Entering a workspace takes no name away. -/
theorem keeps_hasName_enterWorkspace (other : Str) :
    Keeps (HasName name) (enterWorkspace system json other) := by
  refine Keeps.bind blind_hasName.saveMeta fun _ ↦ Keeps.bind ?_ fun _ ↦ blind_hasName.saveWorkspaces
  rintro state ⟨hworkspace, hmem⟩
  change HasName name { state with workspaces := state.workspaces.setCurrentName other }
  refine ⟨hworkspace, ?_⟩
  unfold Workspaces.setCurrentName
  split
  · exact hmem
  · exact hmem

/-- Initializing a workspace takes no name away if its files can be loaded. -/
theorem triple_hasName_initCurrentWorkspaceWith {entered : State F} (hentered : HasName name entered)
    (deleteWorkspace : Action F Unit)
    (hload : ∀ error failed, loadFiles system
      { entered with explorer := { entered.explorer with files := .empty } } ≠ .error error failed) :
    Triple (fun state ↦ state = entered) (initCurrentWorkspaceWith system json deleteWorkspace)
      (fun _ ↦ HasName name) (HasName name) := by
  let emptied : State F :=
    { entered with explorer := { entered.explorer with files := .empty } }
  refine Triple.get_bind fun state hstate ↦ Triple.bind (fun _ state ↦ state = entered) ?_ fun _ ↦
    Triple.bind (fun _ state ↦ state = emptied) ?_ fun _ ↦ Triple.bind (fun _ ↦ HasName name) ?_
      fun _ ↦ ?_
  · rw [hstate]
    exact (triple_throwIf _ _).weaken (fun _ h ↦ h) (fun _ _ h ↦ h.1) fun _ h ↦ h ▸ hentered
  · refine Triple.modify fun state hstate ↦ ?_
    rw [hstate]
  · refine Triple.tryCatch (fun _ ↦ False) ?_ fun _ _ hfalse ↦ hfalse.elim
    rintro state rfl
    have hkept := @BlindToExplorer.loadFiles _ system _ blindToExplorer_hasName
      emptied hentered
    cases hrun : loadFiles system emptied with
    | ok value loaded =>
      rw [hrun] at hkept
      exact hkept
    | error error failed => exact absurd hrun (hload error failed)
  · refine Triple.get_bind fun loaded hloaded ↦ Triple.ite (fun _ ↦ ?_) fun _ ↦ ?_
    · exact Triple.pure fun _ h ↦ h ▸ hloaded
    · rintro state rfl
      exact blindToExplorer_hasName.loadMeta state hloaded

theorem keeps_hasName_openDefaultFile (defaultOpenFile : Option Str) :
    Keeps (HasName name) (openDefaultFile system json defaultOpenFile) := by
  unfold openDefaultFile
  split
  · refine Keeps.bind (Keeps.bind (keeps_convertToFullPath _) fun path ↦ ?_) fun _ ↦
      blind_hasName.saveMeta
    exact fun state hstate ↦ hasName_openFile hstate path
  · exact fun state hstate ↦ hstate

end Named

/-! ### The failures -/

/-- What a failed call has to leave as it was: whether the project is temporary, the current name and
the names of the workspaces, the files and the tabs. -/
structure Unchanged (before after : State F) : Prop where
  isTemporary : after.isTemporary = before.isTemporary
  currentWorkspaceName : after.currentWorkspaceName = before.currentWorkspaceName
  allWorkspaceNames : after.allWorkspaceNames = before.allWorkspaceNames
  files : after.explorer.files = before.explorer.files
  tabs : after.explorer.tabs = before.explorer.tabs

/-- `newWorkspace` is rejected before it changes anything: the name is not valid, or the workspace is
not made from a temporary project and there are no workspaces or the name is taken. -/
def Rejects (state : State F) (name : Str) (opts : NewWorkspaceOptions) : Prop :=
  opts.skipNameValidation = false ∧ isWorkspaceNameValid (trim name) = false ∨
    ¬ (opts.fromTemporary = true ∧ state.isTemporary = true) ∧
      (state.hasWorkspace = false ∨ trim name ∈ state.workspaces.allNames)

/-- The files of the new workspace cannot be loaded after they have been written. -/
def InitializationFails (system : FileSystem F) (json : Json) (state : State F) (name : Str)
    (opts : NewWorkspaceOptions) : Prop :=
  ∃ created written entered error failed,
    changeWorkspaces (fun workspaces ↦ workspaces.new (trim name)) state = .ok () created ∧
      (opts.files.getD []).forM (fun file ↦ PgFs.writeFile system file.1 file.2 true) created =
        .ok () written ∧
      enterWorkspace system json (trim name) written = .ok () entered ∧
      loadFiles system { entered with explorer := { entered.explorer with files := .empty } } =
        .error error failed

section Failures

variable {state after : State F} {name : Str} {opts : NewWorkspaceOptions} {error : Error}

theorem nameCheck_eq_false
    (hname : ¬ (opts.skipNameValidation = false ∧ isWorkspaceNameValid (trim name) = false)) :
    (!opts.skipNameValidation && !isWorkspaceNameValid (trim name)) = false := by
  rw [Bool.eq_false_iff]
  intro hboth
  rw [Bool.and_eq_true_iff, Bool.not_eq_true', Bool.not_eq_true'] at hboth
  exact hname hboth

/-- A call that the checks reject changes nothing at all. -/
theorem newWorkspace_of_rejects (hrejects : Rejects state name opts) :
    ∃ error, newWorkspace system json name opts state = .error error state := by
  unfold newWorkspace
  by_cases hname : opts.skipNameValidation = false ∧ isWorkspaceNameValid (trim name) = false
  · refine ⟨WorkspaceError.invalidName, ?_⟩
    simp only [hname.1, hname.2]
    rfl
  · rcases hrejects with hinvalid | ⟨htemporary, hreject⟩
    · exact absurd hinvalid hname
    · have hcheck := nameCheck_eq_false hname
      have hfiles : (opts.fromTemporary && state.isTemporary) = false :=
        Bool.eq_false_iff.mpr fun hboth ↦ htemporary (Bool.and_eq_true_iff.mp hboth)
      obtain ⟨error, hthrow⟩ : ∃ error,
          newWorkspaceFromFiles system json (trim name) opts state = .error error state := by
        unfold newWorkspaceFromFiles
        cases hworkspace : state.hasWorkspace with
        | false =>
          refine ⟨WorkspaceError.notFound, bind_eq_error.mpr (.inr ⟨state, state, rfl, ?_⟩)⟩
          rw [hworkspace]
          rfl
        | true =>
          have hmem : trim name ∈ state.workspaces.allNames :=
            hreject.resolve_left (by simp [hworkspace])
          refine ⟨WorkspaceError.alreadyExists, bind_eq_error.mpr (.inr ⟨state, state, rfl, ?_⟩)⟩
          rw [hworkspace]
          refine bind_eq_error.mpr (.inr ⟨(), state, rfl, bind_eq_error.mpr (.inl ?_)⟩)
          simp [changeWorkspaces, Workspaces.new, hmem]
      refine ⟨error, bind_eq_error.mpr (.inr ⟨(), state, ?_, ?_⟩)⟩
      · rw [hcheck]
        rfl
      · refine bind_eq_error.mpr (.inr ⟨state, state, rfl, ?_⟩)
        rw [hfiles]
        exact hthrow

/-- After the first step of keeping a temporary project, the project is no longer temporary, whatever
fails. -/
theorem isTemporary_of_newWorkspaceFromTemporary
    (hthrow : newWorkspaceFromTemporary system json (trim name) state = .error error after) :
    after.isTemporary = false := by
  have hkeeps : Triple (fun current : State F ↦ current = state)
      (newWorkspaceFromTemporary system json (trim name)) (fun _ _ ↦ True)
      (fun current ↦ current.isTemporary = false) := by
    refine Triple.bind (fun _ current ↦ current.isTemporary = false) (Triple.modify fun _ _ ↦ rfl)
      fun _ ↦ ?_
    have hrest : Keeps (fun current : State F ↦ current.isTemporary = false) (do
        initWorkspaces system json
        changeWorkspaces fun workspaces ↦ workspaces.new (trim name)
        modifyExplorer fun explorer ↦ explorer.moveBelow (trim name)
        writeAllFromState system
        switchWorkspace system json (trim name) none) :=
      Keeps.bind keeps_mode_initWorkspaces fun _ ↦ Keeps.bind (keeps_mode_changeWorkspaces _) fun _ ↦
        Keeps.bind (keeps_mode_of_modify fun _ ↦ rfl) fun _ ↦
          Keeps.bind keeps_mode_writeAllFromState fun _ ↦ keeps_mode_switchWorkspace _ _
    exact hrest.weaken (fun _ h ↦ h) (fun _ _ _ ↦ trivial) fun _ h ↦ h
  have hrun := hkeeps state rfl
  rwa [hthrow] at hrun

/-- A call that makes a workspace from files and fails after the checks leaves the new name, unless
the files cannot be loaded. -/
theorem hasName_of_newWorkspaceFromFiles (hworkspace : state.hasWorkspace = true)
    (hfree : trim name ∉ state.workspaces.allNames)
    (hload : ¬ InitializationFails system json state name opts)
    (hthrow : newWorkspaceFromFiles system json (trim name) opts state = .error error after) :
    HasName (trim name) after := by
  let created : State F :=
    { state with workspaces := ⟨state.workspaces.allNames ++ [trim name], some (trim name)⟩ }
  have hcreate : changeWorkspaces (fun workspaces ↦ workspaces.new (trim name)) state =
      .ok () created := by
    simp [changeWorkspaces, Workspaces.new, hfree, created]
  have hcreated : HasName (trim name) created :=
    ⟨hworkspace, List.mem_append_right _ List.mem_cons_self⟩
  let writing : Action F Unit :=
    (opts.files.getD []).forM fun file ↦ PgFs.writeFile system file.1 file.2 true
  have hwriting : Keeps (HasName (trim name)) writing :=
    Keeps.forM fun file _ ↦ blind_hasName.writeFile _ _ _
  have hsteps : Triple (fun current ↦ current = state)
      (newWorkspaceFromFiles system json (trim name) opts) (fun _ _ ↦ True)
      (HasName (trim name)) := by
    refine Triple.get_bind fun current hcurrent ↦ ?_
    rw [hcurrent]
    refine Triple.bind (fun _ current ↦ current = state) ?_ fun _ ↦
      Triple.bind (fun _ current ↦ current = created) ?_ fun _ ↦
        Triple.bind (fun _ current ↦ HasName (trim name) current ∧
          writing created = .ok () current) ?_ fun _ ↦ ?_
    · rintro _ rfl
      rw [hworkspace]
      rfl
    · rintro _ rfl
      rw [hcreate]
    · exact hwriting.run hcreated
    · rintro written ⟨hwritten, hwrite⟩
      refine Triple.bind (fun _ current ↦ HasName (trim name) current ∧
        enterWorkspace system json (trim name) written = .ok () current)
          ((keeps_hasName_enterWorkspace _).run hwritten) (fun _ ↦ ?_) written rfl
      rintro entered ⟨hentered, henter⟩
      have hload' : ∀ error failed, loadFiles system
          { entered with explorer := { entered.explorer with files := .empty } } ≠
            .error error failed := fun error failed hfailed ↦
        hload ⟨created, written, entered, error, failed, hcreate, hwrite, henter, hfailed⟩
      have hfinish : Keeps (HasName (trim name)) (do
          openDefaultFile system json (opts.defaultOpenFile.or (opts.files.bind getDefaultOpenFile))
          modify fun state ↦ { state with initializedWorkspaceName := some (trim name) }) :=
        Keeps.bind (keeps_hasName_openDefaultFile _) fun _ _ hstate ↦ hstate
      exact Triple.bind (fun _ ↦ HasName (trim name))
        (triple_hasName_initCurrentWorkspaceWith hentered _ hload')
        (fun _ ↦ hfinish.weaken (fun _ h ↦ h) (fun _ _ _ ↦ trivial) fun _ h ↦ h) entered rfl
  have hrun := hsteps state rfl
  rwa [hthrow] at hrun

/-- A call that throws leaves the state as it was if the checks have rejected it, and only then: a
temporary project is changed by every other failure, and other calls by every other failure but that
of loading the files of the new workspace, after which the workspace may have been deleted again. -/
theorem newWorkspace_unchanged_iff
    (hthrow : newWorkspace system json name opts state = .error error after) :
    (Rejects state name opts → after = state) ∧
      (opts.fromTemporary = true ∧ state.isTemporary = true ∨
          ¬ InitializationFails system json state name opts →
        (Unchanged state after ↔ Rejects state name opts)) := by
  have hkept : Rejects state name opts → after = state := by
    intro hrejects
    obtain ⟨_, hrejected⟩ := @newWorkspace_of_rejects _ system json _ _ _ hrejects
    rw [hthrow] at hrejected
    cases hrejected
    rfl
  refine ⟨hkept, fun hcase ↦ ⟨fun hunchanged ↦ ?_, fun hrejects ↦ ?_⟩⟩
  · by_contra hnot
    obtain ⟨hname, hfree⟩ := not_or.mp hnot
    rcases bind_eq_error.mp hthrow with hinvalid | ⟨_, middle, hvalid, hthrow⟩
    · rw [nameCheck_eq_false hname] at hinvalid
      cases hinvalid
    rw [nameCheck_eq_false hname] at hvalid
    obtain rfl : state = middle := (pure_eq_ok.mp hvalid).2
    rw [get_bind_apply] at hthrow
    by_cases htemporary : opts.fromTemporary = true ∧ state.isTemporary = true
    · rw [if_pos (Bool.and_eq_true_iff.mpr htemporary)] at hthrow
      have hmode := isTemporary_of_newWorkspaceFromTemporary hthrow
      rw [hunchanged.isTemporary, htemporary.2] at hmode
      cases hmode
    · rw [if_neg (fun hboth ↦ htemporary (Bool.and_eq_true_iff.mp hboth))] at hthrow
      have hopen := not_or.mp fun hreject ↦ hfree ⟨htemporary, hreject⟩
      have hworkspace : state.hasWorkspace = true := Bool.not_eq_false _ ▸ hopen.1
      obtain ⟨hafter, hmem⟩ := hasName_of_newWorkspaceFromFiles hworkspace hopen.2
        (hcase.resolve_left htemporary) hthrow
      have hnames := hunchanged.allWorkspaceNames
      simp only [State.allWorkspaceNames, hafter, hworkspace, if_true, Option.some_inj] at hnames
      exact hopen.2 (hnames ▸ hmem)
  · rw [hkept hrejects]
    exact ⟨rfl, rfl, rfl, rfl, rfl⟩

end Failures

/-! ### A temporary project -/

/-- The options of a call that keeps a temporary project. -/
def keepTemporary : NewWorkspaceOptions :=
  ⟨none, none, true, false⟩

/-- A project of one file, shown without being saved, to somebody who has a workspace `a`. -/
def importedProject : State FileTree :=
  finalState (init fileTrees emptyJson
    (some (convertToExplorerFiles [("src/main.cs".toList, "class Main;".toList)])) none
    { temporaryProject with
      isTemporary := false
      hasWorkspace := true
      workspaces := ⟨["a".toList], some "a".toList⟩ })

/-- A name that is not valid leaves the project as it was. -/
theorem newWorkspace_unchanged_iff_invalidName :
    ∃ error after,
      newWorkspace fileTrees emptyJson "a/b".toList keepTemporary importedProject =
        .error error after ∧ Unchanged importedProject after := by
  have hrejects : Rejects importedProject "a/b".toList keepTemporary := .inl ⟨rfl, by decide +kernel⟩
  obtain ⟨error, hthrow⟩ := @newWorkspace_of_rejects _ fileTrees emptyJson _ _ _ hrejects
  refine ⟨error, importedProject, hthrow, ?_⟩
  exact ((newWorkspace_unchanged_iff hthrow).2 (.inl (by decide +kernel))).mpr hrejects

/-- A failed call does not leave the state as it was: a temporary project that is kept under a name
that is taken is no longer temporary afterwards. -/
theorem not_unchanged_of_takenName :
    ¬ ∀ (state : State FileTree) (name : Str) (opts : NewWorkspaceOptions) (error : Error)
      (after : State FileTree), newWorkspace fileTrees emptyJson name opts state =
        .error error after → Unchanged state after := by
  intro hall
  have hthrows : returns (newWorkspace fileTrees emptyJson "a".toList keepTemporary
      importedProject) = false := by
    decide +kernel
  have hmode : (finalState (newWorkspace fileTrees emptyJson "a".toList keepTemporary
      importedProject)).isTemporary = false := by
    decide +kernel
  cases hrun : newWorkspace fileTrees emptyJson "a".toList keepTemporary importedProject with
  | error error after =>
    have hunchanged := (hall _ _ _ _ _ hrun).isTemporary
    have htemporary : importedProject.isTemporary = true := by decide +kernel
    rw [hrun] at hmode
    exact absurd (htemporary.symm.trans (hunchanged.symm.trans hmode)) Bool.noConfusion
  | ok value after =>
    rw [hrun] at hthrows
    cases hthrows

end Playground.Explorer
