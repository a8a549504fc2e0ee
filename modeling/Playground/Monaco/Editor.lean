import Playground.Explorer.TabRuns

/-!
# The editor

`client/src/components/Editor/Monaco/Monaco.tsx`: the handler of `onDidOpenFile`, the handler of
`onDidChangeModelContent` with its timer, and the timer's callback. The editor shows one of its
models, each a text under a URI; `Api` is what the component relies on of the `monaco` package.

The three kinds of events are edits of the shown model (`edit`), calls of `openFile` and `closeFile`
of the explorer, which hand the file they open to the handler (`openFile`, `closeFile`), and the
timer (`fire`). There is one timer: an edit clears it and sets it again.

`edits` records the latest edit of each file. No branch reads it.

Not formalized here: positions, languages and themes, the listeners for renamed and deleted items,
and unmounting. The timer's callback writes the file in one step.
-/

set_option autoImplicit false
set_option relaxedAutoImplicit false

namespace Playground.Monaco

open Library Explorer

/-- What is used of the `monaco` package: `Uri.parse`, the path of a URI, and the value that a model
has that was created from a text. -/
structure Api (U : Type) where
  parse : Str → U
  path : U → Str
  value : Str → Str

/-- The models, and the one that the editor shows. -/
structure Buffers (U : Type) where
  models : OrderedMap U Str
  model : Option U

/-- The editor, the explorer, and whether a save is pending. -/
structure Editor (F U : Type) where
  explorer : State F
  buffers : Buffers U
  pending : Bool
  edits : OrderedMap Str Str

variable {F U : Type} [DecidableEq U] (system : FileSystem F) (monaco : Api U)

/-! ### Files -/

/-- Whether the handler disposes a model when a file is opened: both are JS-like, the model is in the
client or tests directory, and it contains no `import`. -/
def disposes (curPath modelPath value : Str) : Bool :=
  isFileJsLike curPath &&
    ((decide (clientDirname <:+: modelPath) || decide (testsDirname <:+: modelPath)) &&
      isFileJsLike modelPath && decide (modelPath ≠ curPath) &&
      !decide ("import".toList <:+: value))

/-- Dispose the models that an opened file does not go with. The editor lets a disposed model go. -/
def Buffers.disposeModels (buffers : Buffers U) (curPath : Str) : Buffers U :=
  let models := buffers.models.filter fun uri value ↦ !disposes curPath (monaco.path uri) value
  ⟨models, buffers.model.filter fun uri ↦ (models.lookup uri).isSome⟩

/-- Show the model of a file, which is created if there is none yet: an undefined content makes an empty
model. `createModel` throws if there is a model under the URI. -/
def Buffers.showModel (buffers : Buffers U) (curFile : FullFile) : Buffers U :=
  match buffers.models.keys.find? fun uri ↦ monaco.path uri = curFile.path with
  | some uri => ⟨buffers.models, some uri⟩
  | none =>
    if monaco.parse curFile.path ∈ buffers.models.keys then buffers
    else ⟨buffers.models.set (monaco.parse curFile.path) (monaco.value (curFile.content.getD [])),
      some (monaco.parse curFile.path)⟩

/-- The handler of `onDidOpenFile`. -/
def Buffers.onDidOpenFile (buffers : Buffers U) : Option FullFile → Buffers U
  | none => buffers
  | some curFile => (buffers.disposeModels monaco curFile.path).showModel monaco curFile

/-- `PgExplorer.openFile` of a full path, with the handler that it runs. -/
def Editor.openFullPath (editor : Editor F U) (path : Str) : Editor F U :=
  if editor.explorer.explorer.currentFilePath = some path then editor
  else
    { editor with
      explorer := editor.explorer.openFile path
      buffers :=
        editor.buffers.onDidOpenFile monaco (editor.explorer.openFile path).getCurrentFile }

/-- The part of `PgExplorer.closeFile` that leaves the current file, with the handler that it
runs. -/
def Editor.leaveFile (editor : Editor F U) (path : Str) : Editor F U :=
  if editor.explorer.explorer.currentFilePath = some path then
    match editor.explorer.explorer.pathToOpen with
    | some pathToOpen => editor.openFullPath monaco pathToOpen
    | none => editor
  else editor

/-- `PgExplorer.closeFile` of a full path: `closeFile` of the explorer, and the handler if it opens
another file. -/
def Editor.closeFullPath (editor : Editor F U) (path : Str) : Editor F U :=
  { editor.leaveFile monaco path with explorer := editor.explorer.closeFile path }

/-! ### Saving -/

/-- `editor.getValue`. -/
def Editor.getValue (editor : Editor F U) : Str :=
  (editor.buffers.model.bind editor.buffers.models.lookup).getD []

/-- `PgExplorer.saveFileToState`. -/
def saveFileToState (path content : Str) : Action F Unit := do
  let path ← convertToFullPath path
  modifyExplorer fun explorer ↦
    match explorer.files.item path with
    | some item =>
      { explorer with files := explorer.files.set path (some { item with content := some content }) }
    | none => explorer

/-- The timer's callback, from where the path and the text have been read. -/
def autoSave (path content : Str) : Action F Unit := do
  saveFileToState path content
  let state ← get
  runIf (!state.isTemporary)
    (tryCatch (PgFs.writeFile system path content false) fun _ ↦ pure ())

/-- The path and the text that the timer's callback saves; without a current file there are none. -/
def Editor.saveArgs (editor : Editor F U) : Option (Str × Str) :=
  match editor.explorer.explorer.currentFilePath with
  | none | some [] => none
  | some path => some (path, editor.getValue)

/-! ### Events -/

/-- The timer fires. -/
def Editor.fire (editor : Editor F U) : Editor F U :=
  match editor.saveArgs with
  | none => { editor with pending := false }
  | some (path, content) =>
    { editor with
      explorer := finalState (autoSave system path content editor.explorer)
      pending := false }

/-- The shown model is changed to a text. -/
def Editor.edit (editor : Editor F U) (uri : U) (value : Str) : Editor F U :=
  { editor with
    buffers := ⟨editor.buffers.models.set uri value, editor.buffers.model⟩
    pending := true
    edits := editor.edits.set (monaco.path uri) value }

/-- The editor when it has been mounted: the handler runs with the current file. -/
def mount (explorer : State F) : Editor F U where
  explorer
  buffers := Buffers.onDidOpenFile monaco ⟨.empty, none⟩ explorer.getCurrentFile
  pending := false
  edits := .empty

/-- The events. -/
inductive Event
  | edit (value : Str)
  | openFile (path : Str)
  | closeFile (path : Str)
  | fire

/-- One event. An edit needs a shown model, and its text is the value of a model; `openFile` gets a
file that exists; the timer fires only if it has been set. -/
inductive Step : Editor F U → Event → Editor F U → Prop
  | edit {editor : Editor F U} {uri : U} {value : Str} (hmodel : editor.buffers.model = some uri)
      (hvalue : monaco.value value = value) : Step editor (.edit value) (editor.edit monaco uri value)
  | openFile {editor : Editor F U} {path fullPath : Str}
      (hfull : editor.explorer.convertToFullPath path = .ok fullPath)
      (hexists : editor.explorer.explorer.files.content fullPath ≠ none) :
      Step editor (.openFile path) (editor.openFullPath monaco fullPath)
  | closeFile {editor : Editor F U} {path fullPath : Str}
      (hfull : editor.explorer.convertToFullPath path = .ok fullPath) :
      Step editor (.closeFile path) (editor.closeFullPath monaco fullPath)
  | fire {editor : Editor F U} (hpending : editor.pending = true) :
      Step editor .fire (editor.fire system)

/-! ### The explorer -/

/-- Opening a file with the handler is opening it in the explorer. -/
@[simp] theorem explorer_openFullPath (editor : Editor F U) (path : Str) :
    (editor.openFullPath monaco path).explorer = editor.explorer.openFile path := by
  unfold Editor.openFullPath
  by_cases hcurrent : editor.explorer.explorer.currentFilePath = some path
  · rw [if_pos hcurrent, State.openFile, if_pos hcurrent]
  · rw [if_neg hcurrent]

/-- Leaving the current file with the handler is leaving it in the explorer. -/
theorem explorer_leaveFile (editor : Editor F U) (path : Str) :
    (editor.leaveFile monaco path).explorer = editor.explorer.leaveFile path := by
  unfold Editor.leaveFile State.leaveFile
  by_cases hcurrent : editor.explorer.explorer.currentFilePath = some path
  · rw [if_pos hcurrent, if_pos hcurrent]
    cases editor.explorer.explorer.pathToOpen with
    | none => rfl
    | some pathToOpen => exact explorer_openFullPath monaco editor pathToOpen
  · rw [if_neg hcurrent, if_neg hcurrent]

end Playground.Monaco
