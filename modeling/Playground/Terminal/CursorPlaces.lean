import Playground.Library.WrappedText
import Playground.Terminal.LineEditing

/-!
# Where the cursor is on the screen

`PgTty` (`client/src/utils/pg/terminal/tty.ts`) works out in which row and column of the screen an offset
of the input is shown (`_offsetToColRow`), how many rows the input takes (`_countLines`), and from both
how to get to the last row and to erase one row after the other (`clearInput`). The loop of
`_offsetToColRow` puts the character that finds its row full into no column of the next row, so that
every row but the first holds one character more for the loop than on the screen, where a text is shown as
`Library.shown` says. `isPlaced_iff` states of which texts and offsets the loop is right.

Not formalized here: characters that take two columns, or none, and the rows that have left the screen at
its top.
-/

set_option autoImplicit false
set_option relaxedAutoImplicit false

namespace Playground.Terminal

open Library

/-! ### `PgTty` -/

/-- The newline. -/
def isLineFeed (unit : CodeUnit) : Bool :=
  unit = 0x0A

/-- One round of the loop of `_offsetToColRow`. -/
def nextColRow (maxCols : ℕ) (place : Place) (chr : Option CodeUnit) : Place :=
  if chr.any isLineFeed then ⟨place.row + 1, 0⟩
  else if maxCols < place.col + 1 then ⟨place.row + 1, 0⟩
  else ⟨place.row, place.col + 1⟩

/-- `PgTty._offsetToColRow`. -/
def offsetToColRow (input : Units) (offset maxCols : ℕ) : Place :=
  (List.range offset).foldl (fun place index ↦ nextColRow maxCols place input[index]?) ⟨0, 0⟩

/-- `PgTty._countLines`. -/
def countLines (input : Units) (maxCols : ℕ) : ℕ :=
  (offsetToColRow input input.length maxCols).row + 1

/-- `PgTty._applyPrompts`. -/
def applyPrompts (promptPrefix continuationPromptPrefix input : Units) : Units :=
  promptPrefix ++ input.flatMap fun unit ↦
    if isLineFeed unit then unit :: continuationPromptPrefix else [unit]

/-- `PgTty._applyPromptOffset`. -/
def applyPromptOffset (promptPrefix continuationPromptPrefix input : Units) (offset : ℤ) : ℕ :=
  (applyPrompts promptPrefix continuationPromptPrefix (substring input 0 offset)).length

/-- What `clearInput` writes: to the next row, to the one before, or to the start of the row to erase
it. -/
inductive Control
  | nextRow
  | previousRow
  | eraseRow

/-- The body of `clearInput`, for the text on the screen and the place of the cursor in it. The loop to
the last row is not entered when it counts to a negative number. -/
def clearPrompt (currentPrompt : Units) (promptCursor maxCols : ℕ) : List Control :=
  let allRows := countLines currentPrompt maxCols
  let row := (offsetToColRow currentPrompt promptCursor maxCols).row
  List.replicate (allRows - row - 1) .nextRow ++
    .eraseRow :: (List.replicate (allRows - 1) [.previousRow, .eraseRow]).flatten

/-- `PgTty.clearInput`. -/
def Tty.clearInput (tty : Tty) (promptPrefix continuationPromptPrefix : Units) (maxCols : ℕ) :
    List Control :=
  clearPrompt (applyPrompts promptPrefix continuationPromptPrefix tty.input)
    (applyPromptOffset promptPrefix continuationPromptPrefix tty.input tty.cursor) maxCols

/-- The rows that are erased, with the cursor in some row at first. -/
def erasedRows : ℤ → List Control → List ℤ
  | _, [] => []
  | row, .nextRow :: rest => erasedRows (row + 1) rest
  | row, .previousRow :: rest => erasedRows (row - 1) rest
  | row, .eraseRow :: rest => row :: erasedRows row rest

/-! ### The loop -/

/-- How often the loop wraps a line, and the column in which it ends for the loop. -/
theorem offsetToColRow_eq_placeBy (maxCols : ℕ) {input : Units} {offset : ℕ}
    (hoffset : offset ≤ input.length) :
    offsetToColRow input offset maxCols =
      placeBy (· / (maxCols + 1)) (· % (maxCols + 1))
        (lineLengths isLineFeed (input.take offset)) := by
  have hloop : offsetToColRow input offset maxCols =
      (input.take offset).foldl (fun place unit ↦ nextColRow maxCols place (some unit)) ⟨0, 0⟩ := by
    induction offset with
    | zero => rfl
    | succ offset ih =>
      have hlt : offset < input.length := by omega
      have hunit : input[offset]? = some input[offset] := List.getElem?_eq_getElem hlt
      rw [offsetToColRow, List.range_succ, List.foldl_append, List.take_add_one, hunit,
        List.foldl_append, ← ih (by omega)]
      simp only [List.foldl_cons, List.foldl_nil, Option.toList_some, hunit]
      rfl
  rw [hloop]
  refine @foldl_eq_placeBy _ isLineFeed (· / (maxCols + 1)) (· % (maxCols + 1)) _
    (Nat.zero_div _) (Nat.zero_mod _) ?_ ?_ _
  · intro row length unit hunit
    rw [nextColRow, Option.any_some, if_pos hunit]
  · intro row length unit hunit
    rw [nextColRow, Option.any_some, hunit, if_neg Bool.false_ne_true]
    have hmod : length % (maxCols + 1) < maxCols + 1 := Nat.mod_lt _ (Nat.succ_pos maxCols)
    have hdiv := Nat.div_add_mod length (maxCols + 1)
    by_cases hfull : maxCols < length % (maxCols + 1) + 1
    · have hnext : length + 1 = (maxCols + 1) * (length / (maxCols + 1) + 1) := by
        rw [Nat.mul_succ]
        omega
      rw [if_pos hfull, hnext, Nat.mul_div_cancel_left _ (Nat.succ_pos maxCols), Nat.mul_mod_right]
      rfl
    · have hnext : length + 1 = length % (maxCols + 1) + 1 + (maxCols + 1) * (length / (maxCols + 1)) := by
        omega
      have hsmall : length % (maxCols + 1) + 1 < maxCols + 1 := by omega
      rw [if_neg hfull, hnext, Nat.add_mul_div_left _ _ (Nat.succ_pos maxCols),
        Nat.add_mul_mod_self_left, Nat.div_eq_of_lt hsmall, Nat.mod_eq_of_lt hsmall, Nat.zero_add]

/-- The loop wraps a line as often as the screen does if the rows it counts for the line can hold it. -/
theorem div_eq_wraps_iff {maxCols : ℕ} (hcols : 0 < maxCols) (length : ℕ) :
    length / (maxCols + 1) = wraps maxCols length ↔
      length ≤ (length / (maxCols + 1) + 1) * maxCols := by
  by_cases hempty : length = 0
  · simp [hempty, wraps]
  · have hlength : 0 < length := Nat.pos_of_ne_zero hempty
    have hlow : length / (maxCols + 1) * maxCols < length := by
      have hle := Nat.div_mul_le_self length (maxCols + 1)
      rw [Nat.mul_add, Nat.mul_one] at hle
      generalize length / (maxCols + 1) = wrapped at hle
      rcases Nat.eq_zero_or_pos wrapped with rfl | hpositive
      · rwa [Nat.zero_mul]
      · omega
    rw [eq_comm, wraps_eq_iff hcols hlength]
    exact ⟨fun h ↦ h.2, fun h ↦ ⟨hlow, h⟩⟩

/-- The loop does not wrap a line more often than the screen. -/
theorem div_le_wraps {maxCols : ℕ} (hcols : 0 < maxCols) (length : ℕ) :
    length / (maxCols + 1) ≤ wraps maxCols length := by
  rw [wraps, Nat.le_div_iff_mul_le hcols]
  have hle := Nat.div_mul_le_self length (maxCols + 1)
  rw [Nat.mul_add, Nat.mul_one] at hle
  generalize length / (maxCols + 1) = wrapped at hle
  rcases Nat.eq_zero_or_pos wrapped with rfl | hpositive
  · rw [Nat.zero_mul]
    exact Nat.zero_le _
  · omega

/-- The loop and the screen put the end of a line at the same place if the line is in its first row. -/
theorem mod_eq_column_iff {maxCols length : ℕ}
    (hwraps : length / (maxCols + 1) = wraps maxCols length) :
    length % (maxCols + 1) = column maxCols length ↔ length ≤ maxCols := by
  have hdiv := Nat.div_add_mod length (maxCols + 1)
  have hcolumn := wraps_mul_add_column maxCols length
  rw [← hwraps, Nat.mul_comm] at hcolumn
  rw [Nat.add_mul, Nat.one_mul] at hdiv
  constructor
  · intro hsame
    have hzero : length / (maxCols + 1) = 0 := by omega
    have hlt := (Nat.div_eq_zero_iff_lt (Nat.succ_pos maxCols)).mp hzero
    omega
  · intro hshort
    have hzero : length / (maxCols + 1) = 0 := Nat.div_eq_of_lt (by omega)
    rw [hzero] at hdiv hcolumn
    omega

/-! ### The screen -/

/-- The rows that are erased by the moves of `clearInput`. -/
theorem mem_erasedRows (start : ℤ) (moves more : ℕ) (row : ℤ) :
    row ∈ erasedRows start (List.replicate moves .nextRow ++
        .eraseRow :: (List.replicate more [.previousRow, .eraseRow]).flatten) ↔
      start + moves - more ≤ row ∧ row ≤ start + moves := by
  have hup : ∀ (more : ℕ) (start : ℤ),
      row ∈ erasedRows start (List.replicate more [.previousRow, .eraseRow]).flatten ↔
        start - more ≤ row ∧ row < start := by
    intro more
    induction more with
    | zero =>
      intro start
      simp only [List.replicate_zero, List.flatten_nil, erasedRows, List.not_mem_nil, false_iff]
      omega
    | succ more ih =>
      intro start
      have hstep : erasedRows start (List.replicate (more + 1) [.previousRow, .eraseRow]).flatten =
          (start - 1) ::
            erasedRows (start - 1) (List.replicate more [.previousRow, .eraseRow]).flatten := by
        rw [List.replicate_succ, List.flatten_cons]
        rfl
      rw [hstep, List.mem_cons, ih]
      omega
  induction moves generalizing start with
  | zero =>
    rw [List.replicate_zero, List.nil_append, erasedRows, List.mem_cons, hup]
    omega
  | succ moves ih =>
    refine (ih (start + 1)).trans ?_
    omega

/-- The text up to an offset is shown where the loop says, a text takes the rows that are counted, and
these are the ones that are erased. -/
structure IsPlaced (input : Units) (offset maxCols : ℕ) : Prop where
  place : offsetToColRow input offset maxCols = shown isLineFeed maxCols (input.take offset)
  characters : (∀ unit ∈ input.take offset, isLineFeed unit = false) →
    (offsetToColRow input offset maxCols).row * maxCols +
        (offsetToColRow input offset maxCols).col = offset ∧
      (offsetToColRow input offset maxCols).col ≤ maxCols
  rows : countLines input maxCols = rowsOccupied isLineFeed maxCols input
  cleared : ∀ row : ℤ,
    row ∈ erasedRows (shown isLineFeed maxCols (input.take offset)).row
        (clearPrompt input offset maxCols) ↔
      0 ≤ row ∧ row < rowsOccupied isLineFeed maxCols input

/-- The lines that have ended before an offset are lines of the text. -/
theorem mem_all_of_mem_ended {input : Units} {offset length : ℕ}
    (hlength : length ∈ (lineLengths isLineFeed (input.take offset)).ended) :
    length ∈ (lineLengths isLineFeed input).all := by
  have hstart := ended_prefix_append isLineFeed (input.take offset) (input.drop offset)
  rw [List.take_append_drop] at hstart
  exact List.mem_append_left _ (hstart.subset hlength)

/-- The rows are counted right exactly if every line fits into the rows that are counted for it. -/
theorem countLines_eq_iff (input : Units) {maxCols : ℕ} (hcols : 0 < maxCols) :
    countLines input maxCols = rowsOccupied isLineFeed maxCols input ↔
      ∀ length ∈ (lineLengths isLineFeed input).all,
        length ≤ (length / (maxCols + 1) + 1) * maxCols := by
  rw [countLines, rowsOccupied, offsetToColRow_eq_placeBy maxCols le_rfl, List.take_length,
    shown_eq_placeBy isLineFeed hcols, Nat.add_right_cancel_iff,
    row_placeBy_eq_iff (div_le_wraps hcols)]
  exact forall₂_congr fun length _ ↦ div_eq_wraps_iff hcols length

/-- Everything is placed right if and only if the line is not longer than a row up to the offset, and
every line of the text fits into the rows that are counted for it. -/
theorem isPlaced_iff {input : Units} {offset maxCols : ℕ} (hoffset : offset ≤ input.length)
    (hcols : 1 ≤ maxCols) :
    IsPlaced input offset maxCols ↔
      (lineLengths isLineFeed (input.take offset)).last ≤ maxCols ∧
        ∀ length ∈ (lineLengths isLineFeed input).all,
          length ≤ (length / (maxCols + 1) + 1) * maxCols := by
  have hloop := offsetToColRow_eq_placeBy maxCols hoffset
  have hscreen := shown_eq_placeBy isLineFeed hcols (input.take offset)
  constructor
  · rintro ⟨hplace, -, hrows, -⟩
    refine ⟨?_, (countLines_eq_iff input hcols).mp hrows⟩
    rw [hloop, hscreen] at hplace
    have hwraps := (row_placeBy_eq_iff (div_le_wraps hcols)).mp (congrArg Place.row hplace) _
      (List.mem_append_right _ List.mem_cons_self)
    exact (mod_eq_column_iff hwraps).mp (congrArg Place.col hplace)
  · rintro ⟨hshort, hlines⟩
    have hlast : (lineLengths isLineFeed (input.take offset)).last / (maxCols + 1) =
        wraps maxCols (lineLengths isLineFeed (input.take offset)).last := by
      refine (div_eq_wraps_iff hcols _).mpr (hshort.trans ?_)
      exact Nat.le_mul_of_pos_left _ (Nat.succ_pos _)
    have hall : ∀ length ∈ (lineLengths isLineFeed (input.take offset)).all,
        length / (maxCols + 1) = wraps maxCols length := by
      intro length hlength
      rcases List.mem_append.mp hlength with hended | hmem
      · exact (div_eq_wraps_iff hcols _).mpr (hlines length (mem_all_of_mem_ended hended))
      · rw [List.mem_singleton.mp hmem]
        exact hlast
    have hplace : offsetToColRow input offset maxCols =
        shown isLineFeed maxCols (input.take offset) := by
      rw [hloop, hscreen, Place.mk.injEq]
      exact ⟨(row_placeBy_eq_iff (div_le_wraps hcols)).mpr hall,
        (mod_eq_column_iff hlast).mpr hshort⟩
    have hrows := (countLines_eq_iff input hcols).mpr hlines
    refine ⟨hplace, fun htext ↦ ?_, hrows, fun row ↦ ?_⟩
    · have hheld := shown_of_forall isLineFeed hcols htext
      rwa [← hplace, List.length_take, Nat.min_eq_left hoffset] at hheld
    · have hbelow : (shown isLineFeed maxCols (input.take offset)).row ≤
          (shown isLineFeed maxCols input).row := by
        have happend := row_shown_le_append isLineFeed maxCols (input.take offset) (input.drop offset)
        rwa [List.take_append_drop] at happend
      rw [clearPrompt, hrows, hplace]
      refine (mem_erasedRows _ _ _ _).trans ?_
      unfold rowsOccupied
      omega

/-- The second of two lines, the first of which fills a row. -/
theorem isPlaced_iff_two_lines : IsPlaced (units "abc\nde") 6 3 :=
  (isPlaced_iff (by decide) (by decide)).mpr (by decide)

/-- The fourth character on a screen of three columns is in the first column of the second row, and the
loop puts the cursor before it. -/
theorem not_isPlaced_wrapped : ¬ IsPlaced (units "abcd") 4 3 := by
  intro hplaced
  exact absurd hplaced.place (by decide)

end Playground.Terminal
