import Playground.Explorer.Metadata

/-!
# Operations that fail

`newItem`, `renameItem` and `deleteItem` of `PgExplorer` (`client/src/utils/pg/explorer/explorer.ts`)
check their arguments, change the file system, change the state, and save the metadata at the end, in
this order. `ItemOperation.perform` is the operation without the last step, so that what it throws is
thrown by one of its checks or by one of its own calls of the file system, and `run_eq_perform` says that
the operation is this followed by the last step. Whatever a call of the file system does before it fails
in a recursion, and whichever it is, the state is left as it was but for the disk (`sameBut_of_error`).
-/

set_option autoImplicit false
set_option relaxedAutoImplicit false

namespace Playground.Explorer

open Library

variable {F : Type} (system : FileSystem F) (json : Json)

/-! ### Operations -/

/-- A call that changes an item. -/
inductive ItemOperation
  | newItem (path content : Str) (opts : NewItemOptions)
  | renameItem (oldPath newPath : Str) (opts : RenameItemOptions)
  | deleteItem (path : Str)

/-- The call. -/
def ItemOperation.run : ItemOperation → Action F Unit
  | .newItem path content opts => Explorer.newItem system json path content opts
  | .renameItem oldPath newPath opts => Explorer.renameItem system json oldPath newPath opts
  | .deleteItem path => Explorer.deleteItem system json path

/-- The call up to the saving of the metadata, and whether the metadata is to be saved: it is not when an
item is renamed to its own path. -/
def ItemOperation.perform : ItemOperation → Action F Bool
  | .newItem path content opts => do
    let fullPath ← convertToFullPath path
    throwIf (!opts.skipNameValidation && !isItemNameValid (getItemNameFromPath fullPath))
      ItemError.invalidName
    let state ← get
    throwIf ((state.explorer.files.item fullPath).isSome && !opts.override) ItemError.alreadyExists
    createItem system fullPath content opts
    pure true
  | .renameItem oldPath newPath opts => do
    let oldPath ← convertToFullPath oldPath
    let newPath ← convertToFullPath newPath
    if isPathsEqual newPath oldPath then pure false
    else do
      throwIf (!opts.skipNameValidation && !isItemNameValid newPath) ItemError.invalidName
      let srcPath ← evaluate State.getCurrentSrcPath
      throwIf (isPathsEqual oldPath srcPath) ItemError.srcRename
      let itemType := getItemTypeFromPath oldPath
      throwIf (itemType ≠ getItemTypeFromPath newPath) ItemError.typeMismatch
      let state ← get
      throwIf (!opts.override && state.newPathExists itemType newPath) ItemError.alreadyExists
      runIf (!state.isTemporary) (PgFs.rename system oldPath newPath)
      modifyExplorer fun explorer ↦ explorer.renameItem oldPath newPath opts
      modify State.dispatchOnDidOpenFile
      pure true
  | .deleteItem path => do
    let fullPath ← convertToFullPath path
    let srcPath ← evaluate State.getCurrentSrcPath
    throwIf (isPathsEqual fullPath srcPath) ItemError.srcDelete
    let state ← get
    runIf (!state.isTemporary) (removeItem system fullPath)
    modify fun state ↦ state.deleteItem fullPath
    pure true

/-- An operation is what it performs, and the saving of the metadata. -/
theorem run_eq_perform (operation : ItemOperation) :
    operation.run system json = (do
      let saves ← operation.perform system
      runIf saves (saveMeta system json)) := by
  cases operation with
  | newItem path content opts =>
    simp only [ItemOperation.run, ItemOperation.perform, newItem, bind_assoc, pure_bind]
    rfl
  | renameItem oldPath newPath opts =>
    simp only [ItemOperation.run, ItemOperation.perform, renameItem, bind_assoc]
    congr 1
    funext oldPath
    congr 1
    funext newPath
    by_cases hsame : isPathsEqual newPath oldPath
    · rw [if_pos hsame, if_pos hsame]
      rfl
    · rw [if_neg hsame, if_neg hsame]
      simp only [moveItem, bind_assoc, pure_bind]
      rfl
  | deleteItem path =>
    simp only [ItemOperation.run, ItemOperation.perform, deleteItem, bind_assoc, pure_bind]
    rfl

/-! ### Failures -/

variable {system json} {start : State F}

/-- An action that fails leaves the state as it was but for the disk, if it starts from a state that
differs from another one in the disk at most. -/
def FailsSafely {α : Type} (action : Action F α) : Prop :=
  ∀ start : State F, Triple (SameBut start) action (fun _ _ ↦ True) (SameBut start)

/-- Steps that change the disk at most come before steps that fail safely. -/
theorem FailsSafely.bind {α β : Type} {action : Action F α} {next : α → Action F β}
    (hfirst : ∀ start : State F, Keeps (SameBut start) action)
    (hnext : ∀ value, FailsSafely (next value)) : FailsSafely (action >>= next) :=
  fun start ↦ Triple.bind (fun _ ↦ SameBut start) (hfirst start) fun value ↦ hnext value start

theorem FailsSafely.get_bind {α : Type} {next : State F → Action F α}
    (hnext : ∀ state, FailsSafely (next state)) : FailsSafely (get >>= next) :=
  fun start state hstate ↦ hnext state start state hstate

/-- What always returns does not fail. -/
theorem FailsSafely.of_returns {α : Type} {action : Action F α}
    (hreturns : ∀ state, ∃ value after, action state = .ok value after) : FailsSafely action := by
  intro start state _
  obtain ⟨value, after, hrun⟩ := hreturns state
  rw [hrun]
  exact trivial

/-- After the last step that may fail, the state may change. -/
theorem FailsSafely.bind_returns {α β : Type} {action : Action F α} {next : α → Action F β}
    (hfirst : FailsSafely action)
    (hnext : ∀ value state, ∃ result after, next value state = .ok result after) :
    FailsSafely (action >>= next) := by
  intro start
  refine Triple.bind (fun _ _ ↦ True) (hfirst start) fun value state _ ↦ ?_
  obtain ⟨result, after, hrun⟩ := hnext value state
  rw [hrun]
  exact trivial

/-- The item is written to the file system before it is written to the state. -/
theorem failsSafely_createItem (fullPath content : Str) (opts : NewItemOptions) :
    FailsSafely (createItem system fullPath content opts) := by
  refine FailsSafely.get_bind fun state ↦ ?_
  split
  · refine FailsSafely.bind (fun start ↦ keeps_runIf fun _ ↦ ?_) fun _ ↦
      FailsSafely.of_returns fun state ↦ ⟨_, _, rfl⟩
    exact (blind_sameBut start).writeFile _ _ _
  · refine FailsSafely.bind (fun start ↦ keeps_runIf fun _ ↦ ?_) fun _ ↦
      FailsSafely.of_returns fun state ↦ ⟨_, _, rfl⟩
    exact (blind_sameBut start).createDir _ _

/-- Every operation fails safely, up to the saving of the metadata. -/
theorem failsSafely_perform (operation : ItemOperation) :
    FailsSafely (operation.perform system) := by
  have hpath : ∀ (path : Str) (start : State F),
      Keeps (SameBut start) (convertToFullPath path) := fun path _ ↦ keeps_convertToFullPath path
  have hcheck : ∀ (condition : Bool) (error : Error) (start : State F),
      Keeps (SameBut start) (throwIf condition error) :=
    fun condition error _ ↦ keeps_throwIf condition error
  have hsrc : ∀ start : State F, Keeps (SameBut start) (evaluate State.getCurrentSrcPath) :=
    fun _ ↦ keeps_evaluate _
  cases operation with
  | newItem path content opts =>
    refine FailsSafely.bind (hpath path) fun fullPath ↦ ?_
    refine FailsSafely.bind (hcheck _ _) fun _ ↦ FailsSafely.get_bind fun state ↦ ?_
    refine FailsSafely.bind (hcheck _ _) fun _ ↦ ?_
    exact (failsSafely_createItem fullPath content opts).bind_returns fun _ state ↦ ⟨true, state, rfl⟩
  | renameItem oldPath newPath opts =>
    refine FailsSafely.bind (hpath oldPath) fun oldPath ↦ ?_
    refine FailsSafely.bind (hpath newPath) fun newPath ↦ ?_
    by_cases hsame : isPathsEqual newPath oldPath
    · rw [if_pos hsame]
      exact FailsSafely.of_returns fun state ↦ ⟨false, state, rfl⟩
    · rw [if_neg hsame]
      refine FailsSafely.bind (hcheck _ _) fun _ ↦ FailsSafely.bind hsrc fun srcPath ↦ ?_
      refine FailsSafely.bind (hcheck _ _) fun _ ↦ FailsSafely.bind (hcheck _ _) fun _ ↦ ?_
      refine FailsSafely.get_bind fun state ↦ FailsSafely.bind (hcheck _ _) fun _ ↦ ?_
      refine FailsSafely.bind (fun start ↦ keeps_runIf fun _ ↦ ?_) fun _ ↦
        FailsSafely.of_returns fun state ↦ ⟨_, _, rfl⟩
      exact (blind_sameBut start).rename _ _
  | deleteItem path =>
    refine FailsSafely.bind (hpath path) fun fullPath ↦ FailsSafely.bind hsrc fun srcPath ↦ ?_
    refine FailsSafely.bind (hcheck _ _) fun _ ↦ FailsSafely.get_bind fun state ↦ ?_
    refine FailsSafely.bind (fun start ↦ keeps_runIf fun _ ↦ ?_) fun _ ↦
      FailsSafely.of_returns fun state ↦ ⟨_, _, rfl⟩
    exact (blind_sameBut start).removeItem _

/-- What fails safely leaves the state as it was but for the disk. -/
theorem FailsSafely.sameBut {α : Type} {action : Action F α} (hsafely : FailsSafely action)
    {state after : State F} {error : Error} (herror : action state = .error error after) :
    SameBut state after :=
  (hsafely state).of_error (show SameBut state state from rfl) herror

/-- Where a check of an operation or one of its own calls of the file system fails, the operation throws
the error, and the files, the tabs and the current file are exactly as before: nothing but the disk has
changed. -/
theorem memory_of_failed_operation {operation : ItemOperation} {state after : State F} {error : Error}
    (herror : operation.perform system state = .error error after) :
    operation.run system json state = .error error after ∧
      after.explorer = state.explorer ∧ after = { state with disk := after.disk } := by
  have hsame : SameBut state after := (failsSafely_perform operation).sameBut herror
  refine ⟨?_, ?_, hsame⟩
  · rw [run_eq_perform]
    exact bind_eq_error.mpr (.inl herror)
  · rw [hsame]

/-- A file that is to be deleted and is not there. -/
theorem memory_of_failed_operation_missing_file :
    (ItemOperation.deleteItem "a.ts".toList).run fileTrees referenceJson emptyWorkspace =
        .error (.fs .enoent) emptyWorkspace ∧
      emptyWorkspace.explorer = emptyWorkspace.explorer ∧
        emptyWorkspace = { emptyWorkspace with disk := emptyWorkspace.disk } := by
  have herror : (ItemOperation.deleteItem "a.ts".toList).perform fileTrees emptyWorkspace =
      .error (.fs .enoent) emptyWorkspace := by
    rfl
  exact memory_of_failed_operation herror

end Playground.Explorer
