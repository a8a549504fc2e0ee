import Mathlib.Algebra.GroupWithZero.Nat
import Mathlib.Algebra.Order.BigOperators.Group.List
import Mathlib.Algebra.Order.Group.Nat

/-!
# Documents of lines

A document is a list of lines, of which there is at least one, and the terminator that stands between two
of them. Lines and columns are counted from one. A position that the document does not have is taken for
the nearest one that it has (`clamp`), and only the content of a line is asked for with a number that must
be right (`line`).

Replacing a range joins what stands before it, the lines put in its place, and what stands behind it.
Replacing from the first position to the last leaves the lines put in (`replaceRange_whole`).
-/

set_option autoImplicit false
set_option relaxedAutoImplicit false

namespace Playground.Library

/-- The number of a line and of a column in it. -/
structure TextPosition where
  lineNumber : ℕ
  column : ℕ
  deriving DecidableEq

/-- Lines, and what stands between two of them. -/
@[ext]
structure Document (α : Type*) where
  lines : List (List α)
  terminator : List α
  lines_ne_nil : lines ≠ []

/-- The lines of a text: `\r\n`, `\r` and `\n` end one. -/
def splitLines : List Char → List (List Char)
  | [] => [[]]
  | '\r' :: '\n' :: rest => [] :: splitLines rest
  | char :: rest =>
    if char = '\r' ∨ char = '\n' then [] :: splitLines rest
    else
      match splitLines rest with
      | [] => [[char]]
      | line :: others => (char :: line) :: others

/-- A text has a line. -/
theorem splitLines_ne_nil (text : List Char) : splitLines text ≠ [] := by
  unfold splitLines
  split
  · exact List.cons_ne_nil _ _
  · exact List.cons_ne_nil _ _
  · split
    · exact List.cons_ne_nil _ _
    · split <;> exact List.cons_ne_nil _ _

/-! ### Joining lines -/

/-- The last of some lines goes on with the first of others. -/
def joinLines {α : Type*} : List (List α) → List (List α) → List (List α)
  | [], after => after
  | [line], [] => [line]
  | [line], next :: after => (line ++ next) :: after
  | line :: next :: before, after => line :: joinLines (next :: before) after

section Joining

variable {α : Type*}

/-- Lines that are joined to lines are lines. -/
theorem joinLines_ne_nil {before after : List (List α)} (hafter : after ≠ []) :
    joinLines before after ≠ [] := by
  unfold joinLines
  split
  · exact hafter
  · exact List.cons_ne_nil _ _
  · exact List.cons_ne_nil _ _
  · exact List.cons_ne_nil _ _

/-- An empty line in front changes nothing. -/
theorem joinLines_nil_left {after : List (List α)} (hafter : after ≠ []) :
    joinLines [[]] after = after := by
  cases after with
  | nil => exact absurd rfl hafter
  | cons line rest => rfl

/-- An empty line behind changes nothing. -/
theorem joinLines_nil_right {before : List (List α)} (hbefore : before ≠ []) :
    joinLines before [[]] = before := by
  induction before with
  | nil => exact absurd rfl hbefore
  | cons line rest ih =>
    cases rest with
    | nil => exact congrArg (· :: []) (List.append_nil line)
    | cons next rest => exact congrArg (line :: ·) (ih (List.cons_ne_nil _ _))

end Joining

/-- The characters of the lines before a line, and those of the line, are all in the text. -/
theorem sum_take_add_length_le {α : Type*} (terminator : List α) {lines : List (List α)} :
    ∀ {index : ℕ} {line : List α}, lines[index]? = some line →
      ((lines.take index).map fun line ↦ line.length + terminator.length).sum + line.length ≤
        (List.intercalate terminator lines).length := by
  induction lines with
  | nil =>
    intro index line hline
    simp at hline
  | cons first rest ih =>
    intro index line hline
    cases rest with
    | nil =>
      cases index with
      | zero =>
        obtain rfl := Option.some.inj hline
        simp
      | succ index => simp at hline
    | cons next rest =>
      rw [List.intercalate_cons_cons, List.length_append, List.length_append]
      cases index with
      | zero =>
        obtain rfl := Option.some.inj hline
        simp only [List.take_zero, List.map_nil, List.sum_nil]
        omega
      | succ index =>
        have hrest := @ih index line hline
        rw [List.take_succ_cons, List.map_cons, List.sum_cons]
        omega

namespace Document

variable {α : Type*} (document : Document α)

/-! ### Positions -/

/-- The text of a document. -/
def text : List α :=
  List.intercalate document.terminator document.lines

/-- The line with a number, which must be that of a line. -/
def line (number : ℕ) : Option (List α) :=
  if number = 0 then none else document.lines[number - 1]?

/-- The number of lines. -/
def lineCount : ℕ :=
  document.lines.length

/-- The last position. -/
def lastPosition : TextPosition :=
  ⟨document.lineCount, (document.lines.getLast document.lines_ne_nil).length + 1⟩

/-- A position that a document has. -/
def Valid (position : TextPosition) : Prop :=
  ∃ line, document.line position.lineNumber = some line ∧ 1 ≤ position.column ∧
    position.column ≤ line.length + 1

/-- The nearest position that a document has. -/
def clamp (position : TextPosition) : TextPosition :=
  if position.lineNumber = 0 then ⟨1, 1⟩
  else
    match document.line position.lineNumber with
    | none => document.lastPosition
    | some line => ⟨position.lineNumber, min (max position.column 1) (line.length + 1)⟩

/-- The number of characters before a position. -/
def offsetAt (position : TextPosition) : ℕ :=
  let position := document.clamp position
  ((document.lines.take (position.lineNumber - 1)).map fun line ↦
    line.length + document.terminator.length).sum + (position.column - 1)

/-- The position behind some characters of lines, the first of which has a number. -/
def positionIn (terminatorLength : ℕ) : List (List α) → ℕ → ℕ → TextPosition
  | line :: next :: rest, number, offset =>
    if offset < line.length + terminatorLength then ⟨number, offset + 1⟩
    else positionIn terminatorLength (next :: rest) (number + 1)
      (offset - (line.length + terminatorLength))
  | _, number, offset => ⟨number, offset + 1⟩

/-- The position behind a number of characters, as far as there are so many. -/
def positionAt (offset : ℕ) : TextPosition :=
  positionIn document.terminator.length document.lines 1 (min offset document.text.length)

/-- Replace what stands between two positions by lines. -/
def replaceRange (start stop : TextPosition) (inserted : List (List α)) : Document α :=
  let first := document.clamp start
  let last := document.clamp stop
  let before := document.lines.take (first.lineNumber - 1) ++
    [((document.line first.lineNumber).getD []).take (first.column - 1)]
  let after := ((document.line last.lineNumber).getD []).drop (last.column - 1) ::
    document.lines.drop last.lineNumber
  ⟨joinLines (joinLines before inserted) after, document.terminator,
    joinLines_ne_nil (List.cons_ne_nil _ _)⟩

variable {document}

/-- A document has its first line. -/
theorem exists_line_one : ∃ line, document.line 1 = some line := by
  cases hlines : document.lines with
  | nil => exact absurd hlines document.lines_ne_nil
  | cons line rest => exact ⟨line, by simp [Document.line, hlines]⟩

/-- A document has a line exactly if the number is between one and the number of lines. -/
theorem isSome_line_iff {number : ℕ} :
    (document.line number).isSome ↔ 1 ≤ number ∧ number ≤ document.lineCount := by
  unfold Document.line lineCount
  split
  next hzero => simp [hzero]
  next hne =>
    rw [Option.isSome_iff_ne_none, ne_eq, List.getElem?_eq_none_iff]
    omega

/-- The last line of a document. -/
theorem line_lineCount :
    document.line document.lineCount = some (document.lines.getLast document.lines_ne_nil) := by
  have hpos : 0 < document.lines.length := List.length_pos_of_ne_nil document.lines_ne_nil
  rw [Document.line, lineCount, if_neg hpos.ne', ← List.getLast?_eq_getElem?,
    List.getLast?_eq_some_getLast]

/-- The last position is one. -/
theorem valid_lastPosition : document.Valid document.lastPosition :=
  ⟨_, line_lineCount, Nat.succ_pos _, le_rfl⟩

/-- A clamped position is one that the document has. -/
theorem valid_clamp (position : TextPosition) : document.Valid (document.clamp position) := by
  unfold clamp
  split
  · obtain ⟨line, hline⟩ := document.exists_line_one
    exact ⟨line, hline, le_rfl, Nat.succ_pos _⟩
  · split
    next => exact valid_lastPosition
    next line hline =>
      refine ⟨line, hline, ?_, min_le_right _ _⟩
      exact le_min (le_max_right _ _) (Nat.succ_pos _)

/-- A position that the document has is clamped to itself. -/
theorem clamp_of_valid {position : TextPosition} (hvalid : document.Valid position) :
    document.clamp position = position := by
  obtain ⟨line, hline, hone, hle⟩ := hvalid
  have hne : position.lineNumber ≠ 0 := by
    intro hzero
    simp [Document.line, hzero] at hline
  rw [clamp, if_neg hne, hline]
  dsimp only
  rw [max_eq_left hone, min_eq_left hle]

/-- Replacing everything leaves the lines that are put in. -/
theorem replaceRange_whole {inserted : List (List α)} (hinserted : inserted ≠ []) :
    document.replaceRange ⟨1, 0⟩ document.lastPosition inserted =
      ⟨inserted, document.terminator, hinserted⟩ := by
  have hstart : document.clamp ⟨1, 0⟩ = ⟨1, 1⟩ := by
    obtain ⟨line, hline⟩ := document.exists_line_one
    rw [clamp, if_neg Nat.one_ne_zero, hline]
    dsimp only
    rw [max_eq_right (Nat.zero_le 1), min_eq_left (Nat.succ_pos _)]
  have hlines : (document.replaceRange ⟨1, 0⟩ document.lastPosition inserted).lines = inserted := by
    simp only [replaceRange, hstart, clamp_of_valid valid_lastPosition]
    simp only [lastPosition, line_lineCount, Option.getD_some, Nat.add_sub_cancel, List.drop_length,
      Nat.sub_self, List.take_zero, List.nil_append]
    rw [lineCount, List.drop_length, joinLines_nil_left hinserted, joinLines_nil_right hinserted]
  exact Document.ext hlines rfl

/-- There are not more characters before a position than in the text. -/
theorem offsetAt_le (position : TextPosition) :
    document.offsetAt position ≤ document.text.length := by
  obtain ⟨line, hline, hone, hle⟩ := document.valid_clamp position
  have hindex : document.lines[(document.clamp position).lineNumber - 1]? = some line := by
    unfold Document.line at hline
    split at hline
    · cases hline
    · exact hline
  have hsum := sum_take_add_length_le document.terminator hindex
  unfold offsetAt text
  dsimp only
  omega

end Document

end Playground.Library
