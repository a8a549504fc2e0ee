import Playground.Terminal.LineEditing

/-!
# Printing a list in columns

`PgTty.printWide` (`client/src/utils/pg/terminal/tty.ts`), with which TAB shows what an input can be
completed to. The columns are those that fit into the width of the terminal, and the rows those that are
needed for so many columns. Where not even the widest item fits, no column is left, the number of rows is
a quotient by zero, and the loop goes on without printing an item: `printsAll_iff` says that all items
are printed, row by row, exactly if the widest one fits with its padding.

Not formalized here: how a line that has been printed is written to the screen.
-/

set_option autoImplicit false
set_option relaxedAutoImplicit false

namespace Playground.Terminal

open Library

/-! ### The loops -/

/-- The width of a column. -/
def itemWidth (items : List Units) (padding : ℕ) : ℕ :=
  items.foldl (fun width item ↦ max width item.length) 0 + padding

/-- An item with blanks up to the width of the column. -/
def padItem (width : ℕ) (item : Units) : Units :=
  item ++ List.replicate (width - item.length) 0x20

/-- `wideRows`, where there are items; `none` stands for the infinite quotient by no columns. If the
width of a column is zero, the number of columns is infinite or no number and that of rows zero or no
number, with which the loop ends at once. -/
def wideRows (count cols width : ℕ) : Option ℕ :=
  if width = 0 then some 0
  else if cols / width = 0 then none
  else some ((count + (cols / width - 1)) / (cols / width))

/-- The inner loop, which prepares so many columns: the row, and the index after it. -/
def prepareColumns (items : List Units) (width : ℕ) : ℕ → Units → ℕ → Units × ℕ
  | 0, rowStr, index => (rowStr, index)
  | cols + 1, rowStr, index =>
    match items[index]? with
    | some item => prepareColumns items width cols (rowStr ++ padItem width item) (index + 1)
    | none => prepareColumns items width cols rowStr index

/-- The outer loop, from a row and an index on: the lines that are printed. `none` says that the rounds
given have not been enough. -/
def printRows (items : List Units) (width wideCols : ℕ) (wideRows : Option ℕ) :
    ℕ → ℕ → ℕ → Option (List Units)
  | 0, row, _ => if wideRows.all fun rows ↦ decide (row < rows) then none else some []
  | rounds + 1, row, index =>
    if wideRows.all fun rows ↦ decide (row < rows) then
      let (rowStr, index) := prepareColumns items width wideCols [] index
      (printRows items width wideCols wideRows rounds (row + 1) index).map (rowStr :: ·)
    else some []

/-- `PgTty.printWide`, with so many rounds of its outer loop. -/
def printWide (cols rounds : ℕ) (items : List Units) (padding : ℕ) : Option (List Units) :=
  if items = [] then some [[]]
  else
    let width := itemWidth items padding
    printRows items width (cols / width) (wideRows items.length cols width) rounds 0 0

example : printWide 10 2 [units "ab", units "c", units "d"] 2 =
    some [units "ab  c   ", units "d   "] := by decide

/-! ### What is printed -/

/-- A row with its items. -/
def renderRow (width : ℕ) (row : List Units) : Units :=
  (row.map (padItem width)).flatten

/-- The lines show every item once, in order, row by row. -/
def ShowsAll (items : List Units) (width : ℕ) (lines : List Units) : Prop :=
  ∃ rows : List (List Units), lines = rows.map (renderRow width) ∧ rows.flatten = items

/-- The printing comes to an end, and what is printed shows every item. -/
def PrintsAll (cols : ℕ) (items : List Units) (padding : ℕ) : Prop :=
  ∃ rounds lines, printWide cols rounds items padding = some lines ∧
    ShowsAll items (itemWidth items padding) lines

/-- One row takes the next items, as many as there are columns. -/
theorem prepareColumns_eq (items : List Units) (width : ℕ) :
    ∀ (cols : ℕ) (rowStr : Units) {index : ℕ}, index ≤ items.length →
      prepareColumns items width cols rowStr index =
        (rowStr ++ renderRow width ((items.drop index).take cols), min items.length (index + cols)) := by
  intro cols
  induction cols with
  | zero =>
    intro rowStr index hindex
    rw [prepareColumns, List.take_zero, Nat.add_zero, Nat.min_eq_right hindex]
    simp [renderRow]
  | succ cols ih =>
    intro rowStr index hindex
    by_cases hlt : index < items.length
    · have hitem : items[index]? = some items[index] := List.getElem?_eq_getElem hlt
      have hdrop : items.drop index = items[index] :: items.drop (index + 1) :=
        List.drop_eq_getElem_cons hlt
      have hnext : index + 1 + cols = index + (cols + 1) := by omega
      rw [prepareColumns, hitem]
      dsimp only
      rw [ih _ (by omega), hdrop, List.take_succ_cons, hnext]
      simp [renderRow, List.append_assoc]
    · have hnone : items[index]? = none := List.getElem?_eq_none (by omega)
      have hdrop : items.drop index = [] := List.drop_eq_nil_of_le (by omega)
      have hmin : ∀ more, min items.length (index + more) = items.length := fun more ↦ by omega
      rw [prepareColumns, hnone]
      dsimp only
      rw [ih _ hindex, hdrop, hmin, hmin, List.take_nil, List.take_nil]

/-- Enough rows show all items from an index on. -/
theorem printRows_eq (items : List Units) (width wideCols rows : ℕ) :
    ∀ (left row : ℕ) {index : ℕ}, row + left = rows → index ≤ items.length →
      items.length ≤ index + left * wideCols →
        ∃ chunks : List (List Units), chunks.flatten = items.drop index ∧
          printRows items width wideCols (some rows) left row index =
            some (chunks.map (renderRow width)) := by
  intro left
  induction left with
  | zero =>
    intro row index hrows hindex henough
    have hdrop : items.drop index = [] := List.drop_eq_nil_of_le (by omega)
    refine ⟨[], by rw [hdrop]; rfl, ?_⟩
    simp [printRows, show ¬ row < rows by omega]
  | succ left ih =>
    intro row index hrows hindex henough
    have hmore : items.length ≤ min items.length (index + wideCols) + left * wideCols := by
      rw [Nat.succ_mul] at henough
      omega
    obtain ⟨chunks, hchunks, hprinted⟩ :=
      ih (row + 1) (by omega) (Nat.min_le_left _ (index + wideCols)) hmore
    refine ⟨(items.drop index).take wideCols :: chunks, ?_, ?_⟩
    · have hrest : items.drop (min items.length (index + wideCols)) =
          (items.drop index).drop wideCols := by
        rw [List.drop_drop]
        by_cases hle : index + wideCols ≤ items.length
        · rw [Nat.min_eq_right hle]
        · rw [Nat.min_eq_left (by omega), List.drop_length, List.drop_eq_nil_of_le (by omega)]
      rw [List.flatten_cons, hchunks, hrest, List.take_append_drop]
    · have hcontinue : ((some rows).all fun rows ↦ decide (row < rows)) = true := by
        simpa using (by omega : row < rows)
      rw [printRows, if_pos hcontinue, prepareColumns_eq items width wideCols [] hindex]
      dsimp only
      rw [hprinted, List.nil_append]
      rfl

/-- Without a last row the loop does not end. -/
theorem printRows_none (items : List Units) (width wideCols : ℕ) :
    ∀ rounds row index : ℕ, printRows items width wideCols none rounds row index = none := by
  intro rounds
  induction rounds with
  | zero => exact fun _ _ ↦ rfl
  | succ rounds ih =>
    intro row index
    change Option.map _ (printRows items width wideCols none rounds (row + 1) _) = none
    rw [ih]
    rfl

/-- Every item is printed exactly once, in order and row by row, if and only if the columns have a width
and the widest item fits with its padding. -/
theorem printsAll_iff (cols : ℕ) {items : List Units} (hitems : items ≠ []) (padding : ℕ) :
    PrintsAll cols items padding ↔
      0 < itemWidth items padding ∧ itemWidth items padding ≤ cols := by
  have hcount : 0 < items.length := List.length_pos_iff.mpr hitems
  constructor
  · rintro ⟨rounds, lines, hprinted, rows, hlines, hrows⟩
    rw [printWide, if_neg hitems] at hprinted
    by_contra hcondition
    by_cases hzero : itemWidth items padding = 0
    · have hnothing : lines = [] := by
        rw [hzero] at hprinted
        cases rounds with
        | zero => simpa [wideRows, printRows] using hprinted.symm
        | succ rounds => simpa [wideRows, printRows] using hprinted.symm
      have hempty : rows = [] := by
        rw [hnothing] at hlines
        exact List.map_eq_nil_iff.mp hlines.symm
      rw [hempty] at hrows
      exact hitems hrows.symm
    · have hnarrow : cols / itemWidth items padding = 0 :=
        Nat.div_eq_of_lt (by omega)
      have hendless : wideRows items.length cols (itemWidth items padding) = none := by
        rw [wideRows, if_neg hzero, if_pos hnarrow]
      dsimp only at hprinted
      rw [hendless, printRows_none] at hprinted
      cases hprinted
  · rintro ⟨hpositive, hfits⟩
    have hcols : 0 < cols / itemWidth items padding := Nat.div_pos hfits hpositive
    generalize hwide : cols / itemWidth items padding = wideCols at hcols
    have hrows : wideRows items.length cols (itemWidth items padding) =
        some ((items.length + (wideCols - 1)) / wideCols) := by
      rw [wideRows, hwide, if_neg (by omega), if_neg (by omega)]
    have henough : items.length ≤ 0 + (items.length + (wideCols - 1)) / wideCols * wideCols := by
      have hdiv := Nat.div_add_mod (items.length + (wideCols - 1)) wideCols
      have hmod := Nat.mod_lt (items.length + (wideCols - 1)) hcols
      rw [Nat.mul_comm] at hdiv
      omega
    obtain ⟨rows, hall, hprinted⟩ := printRows_eq items (itemWidth items padding) wideCols _
      _ 0 (Nat.zero_add _) (Nat.zero_le _) henough
    refine ⟨(items.length + (wideCols - 1)) / wideCols, _, ?_, rows, rfl, hall⟩
    rw [printWide, if_neg hitems]
    dsimp only
    rw [hrows, hwide]
    exact hprinted

/-- Three items on a terminal on which two of them fit in a row. -/
theorem printsAll_iff_two_rows : PrintsAll 10 [units "ab", units "c", units "d"] 2 :=
  (printsAll_iff 10 (by decide) 2).mpr (by decide)

/-- An item that is as wide as the terminal is never printed. -/
theorem not_printsAll_wide_item : ¬ PrintsAll 5 [units "build"] 2 := by
  rintro ⟨rounds, lines, hprinted, -⟩
  have hnone : printWide 5 rounds [units "build"] 2 = none :=
    printRows_none [units "build"] 7 0 rounds 0 0
  rw [hnone] at hprinted
  cases hprinted

end Playground.Terminal
