import Playground.Library.Edits
import Playground.Library.JavaScript
import Mathlib.Algebra.Order.BigOperators.Group.List
import Mathlib.Algebra.Order.Group.Nat
import Mathlib.Data.List.TakeWhile

/-!
# Completion items for the editor

`completion_item` of `src/wasm/rust-analyzer/src/to_proto.rs`. The text edit of a completion item is a list of
replacements. The editor gets one main edit, and additional ones beside it. The loop goes through the
replacements: one that is the source range of the item, or is not in it, becomes the main edit; one that is in
it should be split in two; every main edit overwrites the one before it.

The replacement that is to be split starts behind the start of the source range, so that the first of the two
ranges is out of order and `TextRange::new` panics (`addAtom_eq_none`). A completion item comes over with its
whole text edit exactly if no replacement is in the source range without being it, and the last one is the
only one that changes anything (`keepsEdit_iff`).

A range is two offsets in order, and a position is a line and a column, which `line_index` finds for an offset.
Offsets and columns count bytes, and the document is the list of what they count. The editor's columns are no
bytes: where a line has characters of more than one byte, its positions are others than those that it is given
here.

Not formalized here: `markdown_string` and `LineIndex::new`, which are parameters, and numbers that do not fit
into 32 bits.
-/

set_option autoImplicit false
set_option relaxedAutoImplicit false

namespace Playground.RustAnalyzer.ToProto

open Library

/-! ### Positions -/

/-- `ide::LineIndex`: the line and the column of an offset, which is found again from them. -/
structure LineIndex where
  lineCol : ℕ → ℕ × ℕ
  offset : ℕ × ℕ → ℕ
  offset_lineCol : ∀ position, offset (lineCol position) = position

/-- `return_types::Range`. -/
structure Range where
  startLineNumber : ℕ
  startColumn : ℕ
  endLineNumber : ℕ
  endColumn : ℕ
  deriving DecidableEq

/-- `return_types::TextEdit`. -/
structure TextEdit where
  range : Range
  text : Str
  deriving DecidableEq

/-- `text_range`. -/
def textRange (range : TextRange) (lineIndex : LineIndex) : Range :=
  let start := lineIndex.lineCol range.start
  let stop := lineIndex.lineCol range.stop
  ⟨start.1 + 1, start.2 + 1, stop.1 + 1, stop.2 + 1⟩

/-- `text_edit`. -/
def textEdit (indel : Indel Char) (lineIndex : LineIndex) : TextEdit :=
  ⟨textRange indel.delete lineIndex, indel.insert⟩

/-! ### Kinds and texts -/

/-- `ide::SymbolKind`. -/
inductive SymbolKind
  | attributeSymbol | builtinAttr | const | constParam | derive | enum | field | function | impl | label
  | lifetimeParam | localSymbol | macroSymbol | moduleSymbol | selfParam | selfType | static | struct
  | trait | typeAlias | typeParam | toolModule | union | valueParam | variant
  deriving DecidableEq

/-- `ide::CompletionItemKind`. -/
inductive CompletionItemKind
  | binding | builtinType | keyword | snippet | method | unresolvedReference
  | symbolKind (it : SymbolKind)
  deriving DecidableEq

/-- `return_types::CompletionItemKind`, as far as it is used. -/
inductive ItemKind
  | method | function | field | variable_ | struct | interface | moduleItem | value | constant | enum
  | keyword | typeParameter | user | snippet
  deriving DecidableEq

/-- `completion_item_kind`. -/
def completionItemKind : CompletionItemKind → ItemKind
  | .binding => .variable_
  | .builtinType => .struct
  | .keyword => .keyword
  | .snippet => .snippet
  | .method => .method
  | .unresolvedReference => .user
  | .symbolKind it =>
    match it with
    | .attributeSymbol | .builtinAttr | .derive | .function | .macroSymbol => .function
    | .const | .constParam | .label => .constant
    | .enum => .enum
    | .field => .field
    | .impl | .trait => .interface
    | .lifetimeParam | .selfType | .typeParam | .valueParam => .typeParameter
    | .localSymbol => .variable_
    | .moduleSymbol | .toolModule => .moduleItem
    | .selfParam | .static | .typeAlias => .value
    | .struct | .union => .struct
    | .variant => .user

/-- `return_types::CompletionItemInsertTextRule`, as far as it is used. -/
inductive InsertTextRule
  | none
  | insertAsSnippet
  deriving DecidableEq

/-! ### Completion items -/

/-- `ide::TextEdit`: replacements that are sorted and do not overlap. -/
structure ItemEdit where
  indels : List (Indel Char)
  disjoint : DisjointIndels indels

/-- `ide::CompletionItem`. -/
structure Item where
  kind : CompletionItemKind
  label : Str
  sourceRange : TextRange
  textEdit : ItemEdit
  detail : Option Str
  isSnippet : Bool
  documentation : Option Str
  lookup : Str

/-- `return_types::CompletionItem`. -/
structure CompletionItem where
  label : Str
  range : Range
  kind : ItemKind
  detail : Option Str
  insertText : Str
  insertTextRules : InsertTextRule
  documentation : Option Str
  filterText : Str
  additionalTextEdits : List TextEdit

variable (markdownString : Str → Str) (newLineIndex : Str → LineIndex)

/-- One turn of the loop of `completion_item`: the additional edits and the main edit so far, and a
replacement. A failed assertion panics, and so does `TextRange::new`. -/
def addAtom (sourceRange : TextRange) (lineIndex : LineIndex) (edits : List TextEdit × Option TextEdit)
    (atomEdit : Indel Char) : Option (List TextEdit × Option TextEdit) :=
  if sourceRange.containsRange atomEdit.delete then
    if atomEdit.delete = sourceRange then some (edits.1, some (textEdit atomEdit lineIndex))
    else if sourceRange.stop = atomEdit.delete.stop then do
      let range1 ← TextRange.new atomEdit.delete.start sourceRange.start
      let range2 := sourceRange
      let edit1 : Indel Char := ⟨[], range1⟩
      let edit2 : Indel Char := ⟨atomEdit.insert, range2⟩
      some (edits.1 ++ [textEdit edit1 lineIndex], some (textEdit edit2 lineIndex))
    else none
  else some (edits.1, some (textEdit atomEdit lineIndex))

/-- `completion_item`, or `none` where it panics. -/
def completionItem (item : Item) (lineIndex : LineIndex) : Option CompletionItem := do
  let (additionalTextEdits, edit) ←
    item.textEdit.indels.foldlM (addAtom item.sourceRange lineIndex) ([], none)
  let { range, text } ← edit
  some {
    kind := completionItemKind item.kind
    label := item.label
    range
    detail := item.detail
    insertText := text
    insertTextRules := if item.isSnippet then .insertAsSnippet else .none
    documentation := item.documentation.map markdownString
    filterText := item.lookup
    additionalTextEdits }

/-- The editor replaces a range of a document. -/
def TextEdit.apply (lineIndex : LineIndex) (edit : TextEdit) (document : Str) : Str :=
  replaceSlice (lineIndex.offset (edit.range.startLineNumber - 1, edit.range.startColumn - 1))
    (lineIndex.offset (edit.range.endLineNumber - 1, edit.range.endColumn - 1)) edit.text document

/-- The editor makes several edits, the one that starts last first. -/
def applyTextEdits (lineIndex : LineIndex) (document : Str) (edits : List TextEdit) : Str :=
  (edits.mergeSort fun first second ↦
    decide (lineIndex.offset (first.range.startLineNumber - 1, first.range.startColumn - 1) ≤
      lineIndex.offset (second.range.startLineNumber - 1, second.range.startColumn - 1))).foldr
    (TextEdit.apply lineIndex) document

/-- The document after the main edit and the additional ones of a converted item. -/
def CompletionItem.apply (item : CompletionItem) (lineIndex : LineIndex) (document : Str) : Str :=
  applyTextEdits lineIndex document (⟨item.range, item.insertText⟩ :: item.additionalTextEdits)

/-- What the conversion should do: it does not panic, and the edits of the converted item make of every
document that has the ranges what the text edit of the item makes of it. -/
def KeepsEdit (item : Item) : Prop :=
  ∀ document : Str, (∀ indel ∈ item.textEdit.indels, indel.delete.stop ≤ document.length) →
    ∃ converted, completionItem markdownString item (newLineIndex document) = some converted ∧
      converted.apply (newLineIndex document) document = applyIndels document item.textEdit.indels

/-- A text edit that one replacement can stand for: none is in the source range without being it, and only
the last one may change anything. -/
def LastOnly (item : Item) : Prop :=
  (∀ indel ∈ item.textEdit.indels, item.sourceRange.containsRange indel.delete = true →
    indel.delete = item.sourceRange) ∧
  ∃ front last, item.textEdit.indels = front ++ [last] ∧ ∀ indel ∈ front, indel.Trivial

variable {markdownString newLineIndex}

/-- The edit made of a replacement does what the replacement does. -/
theorem apply_textEdit (indel : Indel Char) (lineIndex : LineIndex) (document : Str) :
    (textEdit indel lineIndex).apply lineIndex document = indel.apply document := by
  change replaceSlice
    (lineIndex.offset (lineIndex.lineCol indel.delete.start))
    (lineIndex.offset (lineIndex.lineCol indel.delete.stop)) indel.insert document = indel.apply document
  rw [lineIndex.offset_lineCol, lineIndex.offset_lineCol]
  rfl

/-! ### The loop -/

section Loop

variable {sourceRange : TextRange} {lineIndex : LineIndex} {indels : List (Indel Char)}

/-- A replacement in the source range that is not the source range makes the conversion panic. -/
theorem addAtom_eq_none {indel : Indel Char} (hin : sourceRange.containsRange indel.delete = true)
    (hne : indel.delete ≠ sourceRange) (edits : List TextEdit × Option TextEdit) :
    addAtom sourceRange lineIndex edits indel = none := by
  rw [addAtom, if_pos hin, if_neg hne]
  split
  next hstop =>
    have hstart : ¬ indel.delete.start ≤ sourceRange.start := by
      intro hle
      rw [TextRange.containsRange, decide_eq_true_eq] at hin
      exact hne (TextRange.ext (Nat.le_antisymm hle hin.1) hstop.symm)
    rw [TextRange.new, dif_neg hstart]
    rfl
  next => rfl

/-- Any other replacement becomes the main edit. -/
theorem addAtom_eq_some {indel : Indel Char}
    (hin : sourceRange.containsRange indel.delete = true → indel.delete = sourceRange)
    (edits : List TextEdit × Option TextEdit) :
    addAtom sourceRange lineIndex edits indel = some (edits.1, some (textEdit indel lineIndex)) := by
  unfold addAtom
  split
  next hcontains => rw [if_pos (hin hcontains)]
  next => rfl

/-- The loop panics exactly if a replacement is in the source range without being it; else it leaves no
additional edits, and the last replacement as the main edit. -/
theorem foldlM_addAtom (additional : List TextEdit) (main : Option TextEdit) :
    indels.foldlM (addAtom sourceRange lineIndex) (additional, main) =
      if ∀ indel ∈ indels, sourceRange.containsRange indel.delete = true → indel.delete = sourceRange then
        some (additional, (indels.getLast?.map (textEdit · lineIndex)).or main)
      else none := by
  induction indels generalizing main with
  | nil => rfl
  | cons indel rest ih =>
    rw [List.foldlM_cons]
    by_cases hin : sourceRange.containsRange indel.delete = true → indel.delete = sourceRange
    · rw [addAtom_eq_some hin]
      change rest.foldlM (addAtom sourceRange lineIndex) (additional, some (textEdit indel lineIndex)) = _
      rw [ih]
      have hall : (∀ other ∈ rest, sourceRange.containsRange other.delete = true →
          other.delete = sourceRange) ↔ ∀ other ∈ indel :: rest,
            sourceRange.containsRange other.delete = true → other.delete = sourceRange := by
        rw [List.forall_mem_cons]
        exact (and_iff_right hin).symm
      refine if_congr hall ?_ rfl
      cases rest using List.reverseRecOn with
      | nil => rfl
      | append_singleton front last =>
        rw [← List.cons_append, List.getLast?_concat, List.getLast?_concat]
        rfl
    · obtain ⟨hcontains, hne⟩ := Classical.not_imp.mp hin
      rw [addAtom_eq_none hcontains hne, if_neg fun hall ↦ hin (hall indel List.mem_cons_self)]
      rfl

end Loop

/-! ### Whole items -/

/-- A converted item has the last replacement as its main edit, and no additional ones. -/
theorem completionItem_eq_some {item : Item} {lineIndex : LineIndex} {front : List (Indel Char)}
    {last : Indel Char} (hindels : item.textEdit.indels = front ++ [last]) {converted : CompletionItem}
    (hconverted : completionItem markdownString item lineIndex = some converted) :
    (∀ indel ∈ item.textEdit.indels, item.sourceRange.containsRange indel.delete = true →
        indel.delete = item.sourceRange) ∧
      ∀ document, converted.apply lineIndex document = last.apply document := by
  unfold completionItem at hconverted
  rw [foldlM_addAtom] at hconverted
  by_cases hin : ∀ indel ∈ item.textEdit.indels,
      item.sourceRange.containsRange indel.delete = true → indel.delete = item.sourceRange
  · rw [if_pos hin, hindels, List.getLast?_concat] at hconverted
    obtain rfl := Option.some.inj hconverted
    refine ⟨hin, fun document ↦ ?_⟩
    change applyTextEdits lineIndex document [textEdit last lineIndex] = _
    rw [applyTextEdits, List.mergeSort_singleton]
    exact apply_textEdit last lineIndex document
  · rw [if_neg hin] at hconverted
    cases hconverted

/-- Without a replacement in the source range that is not the source range, an item is converted. -/
theorem exists_completionItem {item : Item} (lineIndex : LineIndex) {front : List (Indel Char)}
    {last : Indel Char} (hindels : item.textEdit.indels = front ++ [last])
    (hin : ∀ indel ∈ item.textEdit.indels, item.sourceRange.containsRange indel.delete = true →
      indel.delete = item.sourceRange) :
    ∃ converted, completionItem markdownString item lineIndex = some converted := by
  unfold completionItem
  rw [foldlM_addAtom, if_pos hin, hindels, List.getLast?_concat]
  exact ⟨_, rfl⟩

/-- A conversion keeps the whole text edit exactly if no replacement is in the source range without being
it, and the last one is the only one that changes anything. -/
theorem keepsEdit_iff (item : Item) : KeepsEdit markdownString newLineIndex item ↔ LastOnly item := by
  constructor
  · intro hkeeps
    let count := (item.textEdit.indels.map fun indel ↦ indel.delete.stop).sum
    have hinside : ∀ indel ∈ item.textEdit.indels, indel.delete.stop ≤ count := fun indel hindel ↦
      List.le_sum_of_mem (List.mem_map_of_mem hindel)
    have hconverts : ∀ letter, ∃ converted,
        completionItem markdownString item (newLineIndex (List.replicate count letter)) =
            some converted ∧
          converted.apply (newLineIndex (List.replicate count letter)) (List.replicate count letter) =
            applyIndels (List.replicate count letter) item.textEdit.indels := fun letter ↦
      hkeeps _ fun indel hindel ↦ (hinside indel hindel).trans_eq List.length_replicate.symm
    rcases List.eq_nil_or_concat item.textEdit.indels with hnil | ⟨front, last, hindels⟩
    · obtain ⟨converted, hconverted, -⟩ := hconverts 'a'
      rw [completionItem, hnil] at hconverted
      cases hconverted
    · rw [List.concat_eq_append] at hindels
      have hlast : ∀ letter, applyIndels (List.replicate count letter) (front ++ [last]) =
          applyIndels (List.replicate count letter) [last] := by
        intro letter
        obtain ⟨converted, hconverted, happly⟩ := hconverts letter
        rw [← hindels, ← happly, (completionItem_eq_some hindels hconverted).2 _]
        rfl
      have hdisjoint := item.textEdit.disjoint
      rw [hindels] at hdisjoint hinside
      obtain ⟨converted, hconverted, -⟩ := hconverts 'a'
      exact ⟨(completionItem_eq_some hindels hconverted).1, front, last, hindels,
        trivial_of_applyIndels_eq (by decide : 'a' ≠ 'b') hdisjoint hinside hlast⟩
  · rintro ⟨hin, front, last, hindels, htrivial⟩ document -
    obtain ⟨converted, hconverted⟩ := exists_completionItem (newLineIndex document) hindels hin
    refine ⟨converted, hconverted, ?_⟩
    rw [(completionItem_eq_some hindels hconverted).2 _, hindels, applyIndels_append_of_trivial htrivial]
    rfl

/-- The offsets at which the lines of a text start. -/
def lineStarts (text : Str) : List ℕ :=
  0 :: ((List.range text.length).filter fun offset ↦ text[offset]? = some '\n').map Nat.succ

/-- The starts that are not behind an offset. -/
def startsUpTo (text : Str) (offset : ℕ) : List ℕ :=
  (lineStarts text).takeWhile fun start ↦ decide (start ≤ offset)

/-- The last line that starts at an offset or before it starts there or before it. -/
theorem lastStart_le (text : Str) (offset : ℕ) :
    (lineStarts text).getD ((startsUpTo text offset).length - 1) 0 ≤ offset := by
  have hpos : 0 < (startsUpTo text offset).length := by
    rw [startsUpTo, lineStarts, List.takeWhile_cons_of_pos (by simp)]
    exact Nat.succ_pos _
  have hline : (startsUpTo text offset).length - 1 < (startsUpTo text offset).length :=
    Nat.sub_lt hpos Nat.one_pos
  have hmem := List.mem_takeWhile_imp (List.getElem_mem hline)
  rw [List.getD_eq_getElem?_getD,
    List.prefix_iff_getElem?.mp (List.takeWhile_prefix _) _ hline, Option.getD_some]
  exact of_decide_eq_true hmem

/-- The index of the lines of a text: a position is the last line that starts at the offset or before it, and
the distance from its start. -/
def lineIndexOf (text : Str) : LineIndex where
  lineCol offset :=
    let line := (startsUpTo text offset).length - 1
    (line, offset - (lineStarts text).getD line 0)
  offset position := (lineStarts text).getD position.1 0 + position.2
  offset_lineCol offset := Nat.add_sub_of_le (lastStart_le text offset)

/-- A completion of two characters of which the second one is replaced. -/
def halfItem : Item where
  kind := .keyword
  label := "if".toList
  sourceRange := ⟨0, 2, by decide⟩
  textEdit := ⟨[⟨"f".toList, ⟨1, 2, by decide⟩⟩], List.pairwise_singleton _ _⟩
  detail := none
  isSnippet := false
  documentation := none
  lookup := "if".toList

/-- A replacement that lies in the source range and ends where it ends makes the conversion panic. -/
theorem not_keepsEdit_halfItem :
    ¬ ∀ item : Item, (∃ indel ∈ item.textEdit.indels,
        (indel.delete.containsRange item.sourceRange = true ∨
            item.sourceRange.containsRange indel.delete = true) ∧
          indel.delete.stop = item.sourceRange.stop) →
      KeepsEdit id lineIndexOf item := by
  intro hall
  obtain ⟨converted, hconverted, -⟩ := hall halfItem
    ⟨_, List.mem_singleton.mpr rfl, .inr (by decide), rfl⟩ "of".toList (by decide)
  have hindels : halfItem.textEdit.indels = [] ++ [⟨"f".toList, ⟨1, 2, by decide⟩⟩] := rfl
  have hsource := (completionItem_eq_some hindels hconverted).1 _ (List.mem_singleton.mpr rfl) (by decide)
  exact absurd hsource (by decide)

end Playground.RustAnalyzer.ToProto
