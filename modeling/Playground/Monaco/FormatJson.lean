import Playground.Library.JavaScript
import Playground.Library.JsonText
import Playground.Library.TextDocument

/-!
# Formatting JSON

`formatJSON` of `client/src/components/Editor/Monaco/Monaco.tsx`. The text of the editor is replaced by its
pretty-printed form. The lines before and behind the cursor's line are read to find the cursor's place in
the new text, and a line that there is not makes `getLineContent` throw: formatting works exactly if the
cursor is neither in the first nor in the last line (`formatsJson_iff`).

The model is a document, `JsonApi` what is used of `JSON`. An edit of the whole text puts the terminators of
the model between the new lines.

Not formalized here: a request without a model or a cursor, which does nothing, and the undo stack.
-/

set_option autoImplicit false
set_option relaxedAutoImplicit false

namespace Playground.Monaco

open Library JsonText

/-- What is used of `JSON`: `JSON.parse`, which may throw, and `JSON.stringify` with an indentation of two
(`PgCommon.prettyJSON`). -/
structure JsonApi (V : Type) where
  parse : Str → Option V
  prettyJSON : V → Str

variable {V : Type} (json : JsonApi V)

/-- `indexOf` with a position to start from. -/
def searchFrom (text searchText : Str) (start : ℕ) : Option ℕ :=
  (List.range (text.length + 1)).find? fun index ↦
    decide (start ≤ index ∧ searchText <+: text.drop index)

/-- The offset at which the cursor is put: the search text is found exactly once, or the offset stays what
it was. -/
def relocate (formattedCode searchText : Str) (cursorOffset searchOffset : ℕ) : ℕ :=
  match searchFrom formattedCode searchText 0 with
  | none => cursorOffset
  | some searchIndex =>
    match searchFrom formattedCode searchText (searchIndex + searchText.length) with
    | some _ => cursorOffset
    | none => searchIndex + cursorOffset - searchOffset

/-- `formatJSON`, by the model and the position that it leaves, or `none` where it throws. -/
def formatJSON (model : Document Char) (pos : TextPosition) :
    Option (Document Char × TextPosition) := do
  let cursorOffset := model.offsetAt pos
  let currentLine ← model.line pos.lineNumber
  let beforeLine ← model.line (pos.lineNumber - 1)
  let afterLine ← model.line (pos.lineNumber + 1)
  let searchText := [beforeLine, currentLine, afterLine].foldl (fun acc cur ↦ acc ++ cur ++ ['\n']) []
  let parsed ← json.parse model.text
  let formattedCode := json.prettyJSON parsed
  let cursorOffset := relocate formattedCode searchText cursorOffset
    (model.offsetAt ⟨pos.lineNumber - 1, 0⟩)
  let endLineNumber := model.lineCount
  let lastLine ← model.line endLineNumber
  let endColumn := lastLine.length + 1
  let formatted := model.replaceRange ⟨1, 0⟩ ⟨endLineNumber, endColumn⟩ (splitLines formattedCode)
  some (formatted, formatted.clamp (formatted.positionAt cursorOffset))

/-- What formatting should do with a document: it does not throw, the lines are those of the pretty-printed
form, and the cursor is at an offset of the new text. -/
def FormatsJson (model : Document Char) (parsed : V) (pos : TextPosition) : Prop :=
  ∃ formatted cursor, formatJSON json model pos = some (formatted, cursor) ∧
    formatted.lines = splitLines (json.prettyJSON parsed) ∧
    formatted.terminator = model.terminator ∧ formatted.Valid cursor ∧
    formatted.offsetAt cursor ≤ formatted.text.length

variable {json}

/-- Formatting throws if there is no line before the cursor's line, or none behind it. -/
theorem formatJSON_eq_none {model : Document Char} {pos : TextPosition}
    (hmissing : model.line (pos.lineNumber - 1) = none ∨ model.line (pos.lineNumber + 1) = none) :
    formatJSON json model pos = none := by
  unfold formatJSON
  cases model.line pos.lineNumber with
  | none => rfl
  | some currentLine =>
    rcases hmissing with hbefore | hafter
    · simp [hbefore]
    · cases model.line (pos.lineNumber - 1) with
      | none => rfl
      | some beforeLine => simp [hafter]

/-- Formatting replaces everything if the cursor's line has one before it and one behind it. -/
theorem formatJSON_eq_some {model : Document Char} {pos : TextPosition} {parsed : V}
    (hparsed : json.parse model.text = some parsed)
    (hcurrent : (model.line pos.lineNumber).isSome)
    (hbefore : (model.line (pos.lineNumber - 1)).isSome)
    (hafter : (model.line (pos.lineNumber + 1)).isSome) :
    ∃ resultPos, formatJSON json model pos =
      some (⟨splitLines (json.prettyJSON parsed), model.terminator, splitLines_ne_nil _⟩,
        Document.clamp ⟨splitLines (json.prettyJSON parsed), model.terminator, splitLines_ne_nil _⟩
          resultPos) := by
  obtain ⟨currentLine, hcurrent⟩ := Option.isSome_iff_exists.mp hcurrent
  obtain ⟨beforeLine, hbefore⟩ := Option.isSome_iff_exists.mp hbefore
  obtain ⟨afterLine, hafter⟩ := Option.isSome_iff_exists.mp hafter
  have hwhole := model.replaceRange_whole (splitLines_ne_nil (json.prettyJSON parsed))
  rw [Document.lastPosition] at hwhole
  rw [formatJSON, hcurrent, hbefore, hafter, hparsed]
  dsimp only [Option.bind_eq_bind, Option.bind_some]
  rw [Document.line_lineCount, Option.bind_some, hwhole]
  exact ⟨_, rfl⟩

/-- Formatting a document of valid JSON with the cursor at a position of it works exactly if the cursor is
neither in the first nor in the last line. -/
theorem formatsJson_iff {model : Document Char} {pos : TextPosition} {parsed : V}
    (hparsed : json.parse model.text = some parsed) (hpos : model.Valid pos) :
    FormatsJson json model parsed pos ↔ 1 < pos.lineNumber ∧ pos.lineNumber < model.lineCount := by
  obtain ⟨line, hline, -, -⟩ := hpos
  have hcurrent : (model.line pos.lineNumber).isSome := Option.isSome_iff_exists.mpr ⟨line, hline⟩
  constructor
  · rintro ⟨formatted, cursor, hformat, -, -, -, -⟩
    by_contra hedge
    have hmissing : model.line (pos.lineNumber - 1) = none ∨ model.line (pos.lineNumber + 1) = none := by
      rw [← Option.not_isSome_iff_eq_none, ← Option.not_isSome_iff_eq_none, Document.isSome_line_iff,
        Document.isSome_line_iff]
      omega
    rw [formatJSON_eq_none hmissing] at hformat
    cases hformat
  · rintro ⟨hfirst, hlast⟩
    have hbefore : (model.line (pos.lineNumber - 1)).isSome :=
      Document.isSome_line_iff.mpr ⟨by omega, by omega⟩
    have hafter : (model.line (pos.lineNumber + 1)).isSome :=
      Document.isSome_line_iff.mpr ⟨by omega, by omega⟩
    obtain ⟨resultPos, hformat⟩ := formatJSON_eq_some hparsed hcurrent hbefore hafter
    exact ⟨_, _, hformat, rfl, rfl, Document.valid_clamp resultPos, Document.offsetAt_le _⟩

/-! ### Empty arrays -/

/-- `JSON`, as far as the pretty-printed form of an empty array goes. -/
def arrayApi : JsonApi JsonTree where
  parse := JsonText.parse
  prettyJSON
    | .array [] => "[]".toList
    | _ => []

/-- An empty array with blank lines in it. -/
def spacedArray : Document Char :=
  ⟨["[".toList, [], "]".toList], ['\n'], List.cons_ne_nil _ _⟩

/-- An empty array on one line. -/
def flatArray : Document Char :=
  ⟨["[]".toList], ['\n'], List.cons_ne_nil _ _⟩

/-- With the cursor between the brackets' lines an empty array is formatted. -/
theorem formatsJson_iff_spacedArray :
    FormatsJson arrayApi spacedArray (.array []) ⟨2, 1⟩ ↔ 1 < 2 ∧ 2 < 3 :=
  have hpos : spacedArray.Valid ⟨2, 1⟩ := ⟨[], by rfl, le_rfl, le_rfl⟩
  formatsJson_iff (by rfl) hpos

/-- Formatting an empty array on one line throws. -/
theorem not_formatsJson_flatArray :
    ¬ ∀ (model : Document Char) (parsed : JsonTree) (pos : TextPosition),
      arrayApi.parse model.text = some parsed → model.Valid pos →
      FormatsJson arrayApi model parsed pos := by
  intro hformats
  obtain ⟨formatted, cursor, hformat, -⟩ :=
    hformats flatArray (.array []) ⟨1, 1⟩ (by rfl) ⟨"[]".toList, by rfl, le_rfl, by decide⟩
  rw [formatJSON_eq_none (Or.inl rfl)] at hformat
  cases hformat

end Playground.Monaco
