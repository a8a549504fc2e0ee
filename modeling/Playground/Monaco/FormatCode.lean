import Playground.Library.TextDocument
import Playground.Monaco.AutoSave

/-!
# Formatting code

`formatJSTS` of `client/src/components/Editor/Monaco/Monaco.tsx`. A request reads the text and the model
that the editor shows, waits for the two modules of the formatter, and then has the editor replace its text
up to the end of the model that was read. The editor may show another model by then, or the same model with
another text.

A session is an editor with the requests that wait. Its events are those of the editor, in any order with
the steps of the requests. `resumptions` records what the requests have done to the models. No branch reads
it.

A request changes only the model it has read, and only if its text is still the one that was read
(`FormatsOwn`), in every run in which a request that goes on finds that model shown and that text in it, if
it has anything to put there (`formatsOwn_of_run`).

Not formalized here: where the cursor is put, the undo stack, and the line that is printed for a request
from the terminal. The terminators of models, which one-line texts do not show, come with the event.
-/

set_option autoImplicit false
set_option relaxedAutoImplicit false

namespace Playground.Monaco

open Library Explorer

/-- The module that a request waits for: `prettier/standalone`, then `prettier/parser-typescript`. -/
inductive Awaited
  | standalone
  | parserTypescript
  deriving DecidableEq

/-- A request: the text and the model that it has read, whether that model has been disposed since, and
what it waits for. -/
structure Request (U : Type) where
  currentContent : Str
  model : U
  disposed : Bool
  awaited : Awaited
  deriving DecidableEq

/-- What a request that went on did to the models. -/
structure Resumption (U : Type) where
  request : Request U
  before : OrderedMap U Str
  after : OrderedMap U Str

/-- The editor, and the requests that wait. -/
structure FormatSession (F U : Type) where
  editor : Editor F U
  requests : List (Request U)
  resumptions : List (Resumption U)

variable {F U : Type} [DecidableEq U] (system : FileSystem F) (monaco : Api U)
  (formatWithCursor : Str → ℕ → Option (Str × ℕ))

/-- A text as a document. -/
def documentOf (text eol : Str) : Document Char :=
  ⟨splitLines text, eol, splitLines_ne_nil text⟩

/-- The text of a model. -/
def Editor.textOf (editor : Editor F U) (uri : U) : Str :=
  (editor.buffers.models.lookup uri).getD []

/-- What the formatter gives for a request; the cursor is where the editor has it. -/
def Editor.formatted (editor : Editor F U) (request : Request U) (pos : TextPosition) (eol : Str) :
    Option (Str × ℕ) :=
  formatWithCursor request.currentContent
    ((documentOf (editor.textOf request.model) eol).offsetAt pos)

/-- `formatJSTS` behind its imports. A disposed model throws when it is asked for the offset, and an editor
without a model executes no edits. -/
def Editor.resume (editor : Editor F U) (request : Request U) (pos : TextPosition)
    (modelEol shownEol : Str) : Editor F U :=
  if request.disposed then editor
  else
    match editor.formatted formatWithCursor request pos modelEol with
    | none => editor
    | some (formatted, _) =>
      let model := documentOf (editor.textOf request.model) modelEol
      let endLineNumber := model.lineCount
      let endColumn := ((model.line endLineNumber).getD []).length + 1
      match editor.buffers.model with
      | none => editor
      | some shown =>
        editor.edit monaco shown
          ((documentOf (editor.textOf shown) shownEol).replaceRange ⟨1, 0⟩ ⟨endLineNumber, endColumn⟩
            (splitLines formatted)).text

/-- A request after an event of the editor, which may have disposed its model. -/
def Request.afterEvent (request : Request U) (editor : Editor F U) : Request U :=
  { request with disposed := request.disposed || (editor.buffers.models.lookup request.model).isNone }

/-- The editor with nothing to wait for. -/
def FormatSession.idle (editor : Editor F U) : FormatSession F U :=
  ⟨editor, [], []⟩

/-- The events: those of the editor, a request, a module that has been loaded, and a request that goes on
with a position of the cursor and the terminators of its model and of the one that is shown. -/
inductive FormatEvent
  | editor (event : Event)
  | format
  | load (index : ℕ)
  | resume (index : ℕ) (pos : TextPosition) (modelEol shownEol : Str)

/-- One event. A request needs a current file that is JS-like, and a model that is shown. -/
inductive FormatStep : FormatSession F U → FormatEvent → FormatSession F U → Prop
  | editor {session : FormatSession F U} {event : Event} {after : Editor F U}
      (hstep : Step system monaco session.editor event after) :
      FormatStep session (.editor event)
        ⟨after, session.requests.map (Request.afterEvent · after), session.resumptions⟩
  | format {session : FormatSession F U} {path : Str} {uri : U}
      (hcurrent : session.editor.explorer.explorer.currentFilePath = some path)
      (hjs : isFileJsLike path = true) (hmodel : session.editor.buffers.model = some uri) :
      FormatStep session .format
        { session with
          requests := session.requests ++ [⟨session.editor.getValue, uri, false, .standalone⟩] }
  | load {session : FormatSession F U} {index : ℕ} {request : Request U}
      (hrequest : session.requests[index]? = some request) (hawaited : request.awaited = .standalone) :
      FormatStep session (.load index)
        { session with
          requests := session.requests.set index { request with awaited := .parserTypescript } }
  | resume {session : FormatSession F U} {index : ℕ} {request : Request U} {pos : TextPosition}
      {modelEol shownEol : Str} (hrequest : session.requests[index]? = some request)
      (hawaited : request.awaited = .parserTypescript) :
      FormatStep session (.resume index pos modelEol shownEol)
        ⟨session.editor.resume monaco formatWithCursor request pos modelEol shownEol,
          session.requests.eraseIdx index,
          session.resumptions ++ [⟨request, session.editor.buffers.models,
            (session.editor.resume monaco formatWithCursor request pos modelEol
              shownEol).buffers.models⟩]⟩

/-! ### What a request may change -/

/-- A request changed no model but the one it had read, and that one only with the text it had read. -/
def Resumption.ChangedOwn (resumption : Resumption U) : Prop :=
  ∀ uri, resumption.after.lookup uri ≠ resumption.before.lookup uri →
    uri = resumption.request.model ∧
      resumption.before.lookup uri = some resumption.request.currentContent

/-- Every request changed only what it had read. -/
def FormatsOwn (session : FormatSession F U) : Prop :=
  ∀ resumption ∈ session.resumptions, resumption.ChangedOwn

/-- When a request does as it should: it has nothing to put anywhere, because its model has been disposed or
the formatter fails or no model is shown, or the shown model is the one it has read, with the same text. -/
def formatGuard (session : FormatSession F U) : FormatEvent → Prop
  | .resume index pos modelEol _ =>
    ∀ request, session.requests[index]? = some request →
      request.disposed = true ∨
        session.editor.formatted formatWithCursor request pos modelEol = none ∨
        ∀ shown, session.editor.buffers.model = some shown →
          shown = request.model ∧
            session.editor.buffers.models.lookup shown = some request.currentContent
  | _ => True

variable {system monaco formatWithCursor}

/-- A request that goes on does nothing, or changes the text of the shown model. -/
theorem resume_eq_or {editor : Editor F U} {request : Request U} {pos : TextPosition}
    {modelEol shownEol : Str} :
    editor.resume monaco formatWithCursor request pos modelEol shownEol = editor ∨
      request.disposed = false ∧
        editor.formatted formatWithCursor request pos modelEol ≠ none ∧
        ∃ shown text, editor.buffers.model = some shown ∧
          editor.resume monaco formatWithCursor request pos modelEol shownEol =
            editor.edit monaco shown text := by
  unfold Editor.resume
  cases hdisposed : request.disposed with
  | true => exact .inl (if_pos rfl)
  | false =>
    rw [if_neg Bool.false_ne_true]
    cases hformatted : editor.formatted formatWithCursor request pos modelEol with
    | none => exact .inl rfl
    | some result =>
      cases hshown : editor.buffers.model with
      | none => exact .inl rfl
      | some shown => exact .inr ⟨rfl, Option.some_ne_none result, shown, _, rfl, rfl⟩

/-- A request that meets the guard changes only what it has read. -/
theorem changedOwn_resume {session : FormatSession F U} {index : ℕ} {request : Request U}
    {pos : TextPosition} {modelEol shownEol : Str}
    (hrequest : session.requests[index]? = some request)
    (hguard : formatGuard formatWithCursor session (.resume index pos modelEol shownEol)) :
    Resumption.ChangedOwn ⟨request, session.editor.buffers.models,
      (session.editor.resume monaco formatWithCursor request pos modelEol
        shownEol).buffers.models⟩ := by
  intro uri hchanged
  change (session.editor.resume monaco formatWithCursor request pos modelEol
    shownEol).buffers.models.lookup uri ≠ session.editor.buffers.models.lookup uri at hchanged
  change uri = request.model ∧
    session.editor.buffers.models.lookup uri = some request.currentContent
  rcases @resume_eq_or _ _ _ monaco formatWithCursor session.editor request pos modelEol shownEol with
    heq | ⟨hdisposed, hformatted, shown, text, hshown, heq⟩
  · rw [heq] at hchanged
    exact absurd rfl hchanged
  · have huri : uri = shown := by
      by_contra hne
      rw [heq] at hchanged
      exact hchanged (OrderedMap.lookup_set_of_ne _ _ hne)
    rcases hguard request hrequest with hgone | hfails | hown
    · rw [hdisposed] at hgone
      cases hgone
    · exact absurd hfails hformatted
    · rw [huri]
      exact hown shown hshown

/-- One event that meets the guard adds no request that changed what it had not read. -/
theorem FormatsOwn.step {before after : FormatSession F U} {event : FormatEvent}
    (hbefore : FormatsOwn before) (hguard : formatGuard formatWithCursor before event)
    (hstep : FormatStep system monaco formatWithCursor before event after) : FormatsOwn after := by
  cases hstep with
  | editor _ => exact hbefore
  | format _ _ _ => exact hbefore
  | load _ _ => exact hbefore
  | resume hrequest _ =>
    intro resumption hmem
    rcases List.mem_append.mp hmem with hold | hnew
    · exact hbefore resumption hold
    · rw [List.mem_singleton.mp hnew]
      exact changedOwn_resume hrequest hguard

/-- In every run in which a request that goes on has nothing to put anywhere, or finds the model it has read
shown with the text it has read, requests only change what they have read. -/
theorem formatsOwn_of_run {start : Editor F U} {events : List FormatEvent}
    {finish : FormatSession F U}
    (hrun : Run (Guarded (FormatStep system monaco formatWithCursor) (formatGuard formatWithCursor))
      (.idle start) events finish) : FormatsOwn finish :=
  hrun.invariant_guarded (fun _ _ _ hbefore hguard hstep ↦ hbefore.step hguard hstep)
    fun _ hmem ↦ absurd hmem List.not_mem_nil

/-! ### A statement without a line break -/

/-- What the formatter does with a statement that only lacks its line break. -/
def endLine (content : Str) (cursorOffset : ℕ) : Option (Str × ℕ) :=
  some (content ++ ['\n'], cursorOffset)

/-- The request that is made in the edited file. -/
def readRequest (awaited : Awaited) : Request Str :=
  ⟨"let x;".toList, "/c.ts".toList, false, awaited⟩

/-- The editor while the request waits. -/
def waiting (editor : Editor FileTree Str) (awaited : Awaited) : FormatSession FileTree Str :=
  ⟨editor, [readRequest awaited], []⟩

/-- The editor after the request has gone on, with the cursor at the end of the statement. -/
def resumed (editor : Editor FileTree Str) : FormatSession FileTree Str :=
  let after := editor.resume plainApi endLine (readRequest .parserTypescript) ⟨1, 7⟩ ['\n'] ['\n']
  ⟨after, [], [⟨readRequest .parserTypescript, editor.buffers.models, after.buffers.models⟩]⟩

section Steps

variable {editor : Editor FileTree Str}

theorem formatStep_editedFile :
    FormatStep fileTrees plainApi endLine (.idle editedFile) .format
      (waiting editedFile .standalone) :=
  have hcurrent : editedFile.explorer.explorer.currentFilePath = some "/c.ts".toList := by decide +kernel
  .format hcurrent (by decide +kernel) (by decide +kernel)

theorem formatStep_waiting :
    FormatStep fileTrees plainApi endLine (waiting editor .standalone) (.load 0)
      (waiting editor .parserTypescript) :=
  have hrequest : (waiting editor .standalone).requests[0]? = some (readRequest .standalone) := rfl
  .load hrequest rfl

theorem formatStep_resumed :
    FormatStep fileTrees plainApi endLine (waiting editor .parserTypescript)
      (.resume 0 ⟨1, 7⟩ ['\n'] ['\n']) (resumed editor) :=
  have hrequest : (waiting editor .parserTypescript).requests[0]? = some (readRequest .parserTypescript) := rfl
  .resume hrequest rfl

end Steps

/-- Another file is opened while the request waits. -/
def openedOther : Editor FileTree Str :=
  editedFile.openFullPath plainApi "/a.ts".toList

theorem formatStep_openedOther :
    FormatStep fileTrees plainApi endLine (waiting editedFile .standalone)
      (.editor (.openFile "/a.ts".toList)) (waiting openedOther .standalone) := by
  have hkept : (waiting editedFile .standalone).requests.map (Request.afterEvent · openedOther) =
      [readRequest .standalone] := by
    decide +kernel
  have hstep : Step fileTrees plainApi editedFile (.openFile "/a.ts".toList) openedOther :=
    .openFile (State.convertToFullPath_of_root _ (by decide)) (by decide +kernel)
  have hsession := @FormatStep.editor _ _ _ fileTrees plainApi endLine
    (waiting editedFile .standalone) _ _ hstep
  rwa [hkept] at hsession

/-- The edited file is opened again. -/
def openedAgain : Editor FileTree Str :=
  openedOther.openFullPath plainApi "/c.ts".toList

theorem formatStep_openedAgain :
    FormatStep fileTrees plainApi endLine (waiting openedOther .parserTypescript)
      (.editor (.openFile "/c.ts".toList)) (waiting openedAgain .parserTypescript) := by
  have hkept : (waiting openedOther .parserTypescript).requests.map
      (Request.afterEvent · openedAgain) = [readRequest .parserTypescript] := by
    decide +kernel
  have hstep : Step fileTrees plainApi openedOther (.openFile "/c.ts".toList) openedAgain :=
    .openFile (State.convertToFullPath_of_root _ (by decide)) (by decide +kernel)
  have hsession := @FormatStep.editor _ _ _ fileTrees plainApi endLine
    (waiting openedOther .parserTypescript) _ _ hstep
  rwa [hkept] at hsession

/-- A request formats its file if that is shown again when it goes on. -/
theorem formatsOwn_of_run_openedAgain :
    FormatsOwn (resumed openedAgain) ∧
      (resumed openedAgain).editor.buffers.models.lookup "/c.ts".toList = some "let x;\n".toList := by
  have hguard : formatGuard endLine (waiting openedAgain .parserTypescript)
      (.resume 0 ⟨1, 7⟩ ['\n'] ['\n']) := by
    intro request hrequest
    obtain rfl := Option.some.inj hrequest
    refine .inr (.inr fun shown hshown ↦ ?_)
    have hmodel : openedAgain.buffers.model = some "/c.ts".toList := by decide +kernel
    obtain rfl := Option.some.inj (hmodel.symm.trans hshown)
    exact ⟨rfl, by decide +kernel⟩
  have hrun : Run (Guarded (FormatStep fileTrees plainApi endLine) (formatGuard endLine))
      (.idle editedFile)
      [.format, .editor (.openFile "/a.ts".toList), .load 0, .editor (.openFile "/c.ts".toList),
        .resume 0 ⟨1, 7⟩ ['\n'] ['\n']] (resumed openedAgain) :=
    .cons ⟨trivial, formatStep_editedFile⟩ (.cons ⟨trivial, formatStep_openedOther⟩
      (.cons ⟨trivial, formatStep_waiting⟩ (.cons ⟨trivial, formatStep_openedAgain⟩
        (.single ⟨hguard, formatStep_resumed⟩))))
  exact ⟨formatsOwn_of_run hrun, by decide +kernel⟩

/-- A file that is opened while the request waits gets the formatted text. -/
theorem not_formatsOwn_of_openFile :
    ¬ ∀ events finish, Run (FormatStep fileTrees plainApi endLine) (.idle editedFile) events finish →
      FormatsOwn finish := by
  intro hall
  have hown := hall _ _ (.cons formatStep_editedFile
    (.cons formatStep_openedOther (.cons formatStep_waiting (.single formatStep_resumed)))) _
    (List.mem_singleton.mpr rfl) "/a.ts".toList
  have hchanged : (resumed openedOther).editor.buffers.models.lookup "/a.ts".toList ≠
      openedOther.buffers.models.lookup "/a.ts".toList := by
    decide +kernel
  exact absurd (hown hchanged).1 (by decide)

end Playground.Monaco
