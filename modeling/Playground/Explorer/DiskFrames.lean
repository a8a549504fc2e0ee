import Playground.Explorer.Workspaces
import Playground.Library.Program

/-!
# What the file system methods leave alone

The methods of `PgFs` change the disk and nothing else. `Blind` is a property of the state that does
not look at the disk; every such property is kept by them, also where they throw, and by `saveMeta`,
which only writes the metadata.
-/

set_option autoImplicit false
set_option relaxedAutoImplicit false

namespace Playground.Explorer

open Library

variable {F : Type} (system : FileSystem F) (json : Json)

/-- The property does not depend on the disk. -/
def Blind (property : State F → Prop) : Prop :=
  ∀ state disk, property state → property { state with disk }

variable {system json} {property : State F → Prop}

/-! ### Runs that return -/

section Ok

variable {state after : State F}

/-- Evaluating returns the value, if it is one, and leaves the state alone. -/
@[simp] theorem evaluate_eq_ok {α : Type} {value : State F → Except Error α} {result : α} :
    evaluate value state = .ok result after ↔ value state = .ok result ∧ state = after := by
  unfold evaluate
  cases value state with
  | ok other => simp
  | error error => simp

@[simp] theorem convertToFullPath_eq_ok {path fullPath : Str} :
    convertToFullPath path state = .ok fullPath after ↔
      state.convertToFullPath path = .ok fullPath ∧ state = after :=
  evaluate_eq_ok

/-- A check is passed by a condition that does not hold. -/
@[simp] theorem throwIf_eq_ok {condition : Bool} {error : Error} {result : Unit} :
    throwIf condition error state = .ok result after ↔ condition = false ∧ state = after := by
  cases condition with
  | false => exact (pure_eq_ok).trans (by simp)
  | true => exact iff_of_false throw_ne_ok (by simp)

/-- A full path is left alone. -/
theorem State.convertToFullPath_of_root (state : State F) {path : Str} (hroot : rootDirPath <+: path) :
    state.convertToFullPath path = .ok path :=
  if_pos hroot

/-- A call that changes the disk returns with the new disk. -/
@[simp] theorem onDisk_eq_ok {call : F → Except FsError F} {result : Unit} :
    onDisk call state = .ok result after ↔
      ∃ disk, call state.disk = .ok disk ∧ { state with disk } = after := by
  unfold onDisk
  cases call state.disk with
  | ok disk => simp
  | error error => simp

/-- A call that reads the disk returns what it has read. -/
@[simp] theorem readDisk_eq_ok {α : Type} {call : F → Except FsError α} {result : α} :
    readDisk call state = .ok result after ↔ call state.disk = .ok result ∧ state = after := by
  rw [readDisk, evaluate_eq_ok]
  cases call state.disk <;> simp [Except.mapError]

end Ok

/-- Evaluating keeps every property. -/
theorem keeps_evaluate {α : Type} (value : State F → Except Error α) :
    Keeps property (evaluate value) := by
  intro state hstate
  unfold evaluate
  cases value state with
  | ok result => exact hstate
  | error error => exact hstate

theorem keeps_convertToFullPath (path : Str) : Keeps property (convertToFullPath path) :=
  keeps_evaluate _

theorem keeps_throwIf (condition : Bool) (error : Error) :
    Keeps property (throwIf condition error) :=
  Keeps.ite (fun _ ↦ Keeps.throw error) fun _ ↦ Keeps.pure ()

theorem keeps_runIf {condition : Bool} {action : Action F Unit}
    (haction : condition = true → Keeps property action) :
    Keeps property (runIf condition action) :=
  Keeps.ite haction fun _ ↦ Keeps.pure ()

theorem keeps_readDisk {α : Type} (call : F → Except FsError α) :
    Keeps property (readDisk call) :=
  keeps_evaluate _

theorem Blind.onDisk (hblind : Blind property) (call : F → Except FsError F) :
    Keeps property (onDisk call) := by
  intro state hstate
  unfold Explorer.onDisk
  cases call state.disk with
  | ok disk => exact hblind state disk hstate
  | error error => exact hstate

/-! ### `PgFs` -/

theorem keeps_getMetadata (path : Str) : Keeps property (PgFs.getMetadata system path) :=
  Keeps.bind (keeps_convertToFullPath path) fun _ ↦ keeps_readDisk _

theorem keeps_itemExists (path : Str) : Keeps property (PgFs.itemExists system path) := by
  refine Keeps.bind (keeps_convertToFullPath path) fun path ↦ Keeps.tryCatch ?_ fun error ↦ ?_
  · exact Keeps.bind (keeps_getMetadata path) fun _ ↦ Keeps.pure true
  · split
    · exact Keeps.pure false
    · exact Keeps.pure false
    · exact Keeps.throw _

theorem keeps_readToString (path : Str) : Keeps property (PgFs.readToString system path) :=
  Keeps.bind (keeps_convertToFullPath path) fun _ ↦ keeps_readDisk _

theorem keeps_readDir (path : Str) : Keeps property (PgFs.readDir system path) :=
  Keeps.bind (keeps_convertToFullPath path) fun _ ↦ keeps_readDisk _

theorem keeps_readToJSONOrDefault {α : Type} (parse : Str → Option α) (path : Str)
    (defaultValue : α) :
    Keeps property (PgFs.readToJSONOrDefault system parse path defaultValue) := by
  refine Keeps.tryCatch (Keeps.bind (keeps_readToString path) fun _ ↦ ?_) fun _ ↦ ?_
  · exact Keeps.pure _
  · exact Keeps.pure defaultValue

theorem Blind.createDirs (hblind : Blind property) (folders : List Str) :
    ∀ currentPath : Str, Keeps property (PgFs.createDirs system currentPath folders) := by
  induction folders with
  | nil => exact fun _ ↦ Keeps.pure ()
  | cons folder rest ih =>
    intro currentPath
    refine Keeps.bind (keeps_itemExists _) fun found ↦ Keeps.bind ?_ fun _ ↦ ih _
    exact keeps_runIf fun _ ↦ hblind.onDisk _

theorem Blind.createDir (hblind : Blind property) (path : Str) (createParents : Bool) :
    Keeps property (PgFs.createDir system path createParents) := by
  refine Keeps.bind (keeps_convertToFullPath path) fun path ↦ Keeps.ite (fun _ ↦ ?_) fun _ ↦ ?_
  · exact hblind.createDirs _ _
  · exact hblind.onDisk _

theorem Blind.writeFile (hblind : Blind property) (path data : Str) (createParents : Bool) :
    Keeps property (PgFs.writeFile system path data createParents) := by
  refine Keeps.bind (keeps_convertToFullPath path) fun path ↦ Keeps.bind ?_ fun _ ↦ ?_
  · exact keeps_runIf fun _ ↦ hblind.createDir _ _
  · exact hblind.onDisk _

theorem Blind.rename (hblind : Blind property) (oldPath newPath : Str) :
    Keeps property (PgFs.rename system oldPath newPath) := by
  refine Keeps.bind (keeps_convertToFullPath oldPath) fun _ ↦
    Keeps.bind (keeps_convertToFullPath newPath) fun _ ↦ ?_
  exact hblind.onDisk _

theorem Blind.removeFile (hblind : Blind property) (path : Str) :
    Keeps property (PgFs.removeFile system path) :=
  Keeps.bind (keeps_convertToFullPath path) fun _ ↦ hblind.onDisk _

theorem Blind.recursivelyRmdir (hblind : Blind property) (fuel : ℕ) :
    ∀ (dir : List Str) (currentPath : Str),
      Keeps property (PgFs.recursivelyRmdir system fuel dir currentPath) := by
  induction fuel with
  | zero => exact fun _ _ ↦ Keeps.throw _
  | succ fuel ih =>
    intro dir currentPath
    refine Keeps.ite (fun _ ↦ hblind.onDisk _) fun _ ↦ Keeps.bind (Keeps.forM fun childName _ ↦ ?_)
      fun _ ↦ Keeps.bind (keeps_readDir _) fun rest ↦ keeps_runIf fun _ ↦ hblind.onDisk _
    refine Keeps.bind (keeps_getMetadata _) fun metadata ↦ Keeps.ite (fun _ ↦ ?_) fun _ ↦ ?_
    · refine Keeps.bind (keeps_readDir _) fun childDir ↦ Keeps.ite (fun _ ↦ ?_) fun _ ↦ ih _ _
      exact hblind.onDisk _
    · exact hblind.removeFile _

theorem Blind.removeDir (hblind : Blind property) (path : Str) (recursive : Bool) :
    Keeps property (PgFs.removeDir system path recursive) := by
  refine Keeps.bind (keeps_convertToFullPath path) fun path ↦ Keeps.ite (fun _ ↦ ?_) fun _ ↦ ?_
  · refine Keeps.bind (keeps_readDir path) fun dir ↦ Keeps.get_bind fun state ↦ ?_
    exact hblind.recursivelyRmdir _ _ _
  · exact hblind.onDisk _

/-! ### `PgExplorer` -/

theorem Blind.saveMeta (hblind : Blind property) : Keeps property (saveMeta system json) := by
  refine Keeps.get_bind fun state ↦ ?_
  split
  · exact Keeps.pure ()
  · exact Keeps.pure ()
  · refine Keeps.ite (fun _ ↦ Keeps.pure ()) fun _ ↦ Keeps.bind (keeps_evaluate _) fun root ↦
      Keeps.ite (fun _ ↦ Keeps.pure ()) fun _ ↦ Keeps.bind (keeps_evaluate _) fun metaFile ↦ ?_
    exact hblind.writeFile _ _ _

theorem Blind.saveWorkspaces (hblind : Blind property) :
    Keeps property (saveWorkspaces system json) :=
  Keeps.get_bind fun _ ↦ keeps_runIf fun _ ↦ hblind.writeFile _ _ _

theorem Blind.removeItem (hblind : Blind property) (fullPath : Str) :
    Keeps property (removeItem system fullPath) := by
  refine Keeps.bind (keeps_getMetadata fullPath) fun metadata ↦ Keeps.ite (fun _ ↦ ?_) fun _ ↦ ?_
  · exact hblind.removeFile _
  · exact hblind.removeDir _ _

/-! ### Runs from one state -/

section Runs

variable {start : State F}

/-- The state differs from the start in the disk at most. -/
def SameBut (start state : State F) : Prop :=
  state = { start with disk := state.disk }

theorem blind_sameBut (start : State F) : Blind (SameBut start) := by
  intro state disk hstate
  rw [SameBut] at hstate ⊢
  rw [hstate]

/-- A property that does not look at the disk carries over. -/
theorem Blind.of_sameBut (hblind : Blind property) {state : State F}
    (hsame : SameBut start state) (hstart : property start) : property state := by
  rw [hsame]
  exact hblind start state.disk hstart

/-- Evaluating from a known state. -/
theorem triple_evaluate {α : Type} (value : State F → Except Error α) :
    Triple (fun state ↦ state = start) (evaluate value)
      (fun result state ↦ state = start ∧ value start = .ok result) (fun state ↦ state = start) := by
  rintro state rfl
  unfold evaluate
  cases value state with
  | ok result => exact ⟨rfl, rfl⟩
  | error error => rfl

/-- A check passed from a known state. -/
theorem triple_throwIf (condition : Bool) (error : Error) :
    Triple (fun state : State F ↦ state = start) (throwIf condition error)
      (fun _ state ↦ state = start ∧ condition = false) (fun state ↦ state = start) := by
  rintro state rfl
  cases condition with
  | false => exact ⟨rfl, rfl⟩
  | true => rfl

/-- An action that changes the disk only. -/
theorem triple_of_keeps {action : Action F Unit} (hkeeps : Keeps (SameBut start) action) :
    Triple (fun state ↦ state = start) action (fun _ ↦ SameBut start) (SameBut start) := by
  rintro state rfl
  exact hkeeps state rfl

end Runs

end Playground.Explorer
