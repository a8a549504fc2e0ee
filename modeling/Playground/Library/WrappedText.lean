import Mathlib.Algebra.Order.BigOperators.Group.List
import Mathlib.Algebra.Order.Group.Nat
import Mathlib.Data.List.Induction
import Mathlib.Tactic.Ring

/-!
# Text on a screen

A text is shown on a screen of some width. A newline goes to the start of the next row, and a character
that finds its row full goes to the next row with what follows it: a full row is left only when there is
one more character (`showNext`). What a row holds depends on the lengths of the lines alone, the lines
that have ended and the one that has not (`lineLengths`), so that a rule by which lines are wrapped is
given by two functions of the length of a line: how often it has been wrapped, and in which column it ends
(`placeBy`). For the screen these are `wraps` and `column` (`shown_eq_placeBy`), with
`row * width + column` the number of characters of the line (`wraps_mul_add_column`).
-/

set_option autoImplicit false
set_option relaxedAutoImplicit false

namespace Playground.Library

/-! ### Rows and columns -/

/-- A row and a column. -/
structure Place where
  row : ℕ
  col : ℕ
  deriving DecidableEq

variable {α : Type*} (isNewline : α → Bool)

/-- Where the next character leads on a screen of some width. -/
def showNext (width : ℕ) (place : Place) (char : α) : Place :=
  if isNewline char then ⟨place.row + 1, 0⟩
  else if place.col < width then ⟨place.row, place.col + 1⟩
  else ⟨place.row + 1, 1⟩

/-- Where a text ends on a screen of some width. -/
def shown (width : ℕ) (text : List α) : Place :=
  text.foldl (showNext isNewline width) ⟨0, 0⟩

/-- The number of rows that a text occupies. -/
def rowsOccupied (width : ℕ) (text : List α) : ℕ :=
  (shown isNewline width text).row + 1

/-- More text does not end in a row above. -/
theorem row_shown_le_append (width : ℕ) (text rest : List α) :
    (shown isNewline width text).row ≤ (shown isNewline width (text ++ rest)).row := by
  have hnext : ∀ (place : Place) (char : α),
      place.row ≤ (showNext isNewline width place char).row := by
    intro place char
    unfold showNext
    split
    · exact Nat.le_succ _
    · split
      · exact le_rfl
      · exact Nat.le_succ _
  induction rest using List.reverseRecOn with
  | nil => rw [List.append_nil]
  | append_singleton front char ih =>
    have hconcat : shown isNewline width (text ++ (front ++ [char])) =
        showNext isNewline width (shown isNewline width (text ++ front)) char := by
      simp [shown, List.foldl_append]
    rw [hconcat]
    exact ih.trans (hnext _ _)

/-! ### Lines -/

/-- The lengths of the lines that have ended, and of the one that has not. -/
structure LineLengths where
  ended : List ℕ
  last : ℕ

/-- One more character. -/
def LineLengths.next (lengths : LineLengths) (char : α) : LineLengths :=
  if isNewline char then ⟨lengths.ended ++ [lengths.last], 0⟩ else ⟨lengths.ended, lengths.last + 1⟩

/-- The lengths of the lines of a text. -/
def lineLengths (text : List α) : LineLengths :=
  text.foldl (LineLengths.next isNewline) ⟨[], 0⟩

/-- All lines, the last one with them. -/
def LineLengths.all (lengths : LineLengths) : List ℕ :=
  lengths.ended ++ [lengths.last]

theorem lineLengths_concat (text : List α) (char : α) :
    lineLengths isNewline (text ++ [char]) = (lineLengths isNewline text).next isNewline char := by
  simp [lineLengths, List.foldl_append]

/-- The lines that have ended stay. -/
theorem ended_prefix_append (text rest : List α) :
    (lineLengths isNewline text).ended <+: (lineLengths isNewline (text ++ rest)).ended := by
  induction rest using List.reverseRecOn with
  | nil => exact (List.append_nil text).symm ▸ List.prefix_refl _
  | append_singleton front char ih =>
    rw [← List.append_assoc, lineLengths_concat, LineLengths.next]
    by_cases hnewline : isNewline char
    · rw [if_pos hnewline]
      exact ih.trans (List.prefix_append _ _)
    · rw [if_neg hnewline]
      exact ih

/-- A text without newlines is one line. -/
theorem lineLengths_of_forall {text : List α} (htext : ∀ char ∈ text, isNewline char = false) :
    lineLengths isNewline text = ⟨[], text.length⟩ := by
  induction text using List.reverseRecOn with
  | nil => rfl
  | append_singleton front char ih =>
    have hfront := ih fun other hother ↦ htext other (List.mem_append_left _ hother)
    have hchar := htext char (List.mem_append_right _ List.mem_cons_self)
    rw [lineLengths_concat, hfront, LineLengths.next, hchar, List.length_append]
    rfl

/-! ### Rules by which lines are wrapped -/

/-- Where lines of some lengths end, if a line of a length is wrapped so often and ends in such a
column. -/
def placeBy (wraps column : ℕ → ℕ) (lengths : LineLengths) : Place :=
  ⟨(lengths.ended.map fun length ↦ wraps length + 1).sum + wraps lengths.last, column lengths.last⟩

/-- A rule that says where the next character of a line leads gives the place of every text. -/
theorem foldl_eq_placeBy {wraps column : ℕ → ℕ} {next : Place → α → Place}
    (hwraps : wraps 0 = 0) (hcolumn : column 0 = 0)
    (hnewline : ∀ row length char, isNewline char = true →
      next ⟨row + wraps length, column length⟩ char = ⟨row + wraps length + 1, 0⟩)
    (hnext : ∀ row length char, isNewline char = false →
      next ⟨row + wraps length, column length⟩ char =
        ⟨row + wraps (length + 1), column (length + 1)⟩) (text : List α) :
    text.foldl next ⟨0, 0⟩ = placeBy wraps column (lineLengths isNewline text) := by
  induction text using List.reverseRecOn with
  | nil => simp [placeBy, lineLengths, hwraps, hcolumn]
  | append_singleton front char ih =>
    rw [List.foldl_append, ih, List.foldl_cons, List.foldl_nil, lineLengths_concat, LineLengths.next]
    cases hchar : isNewline char with
    | true =>
      rw [if_pos rfl, placeBy, hnewline _ _ _ hchar, placeBy]
      simp [hwraps, hcolumn, Nat.add_assoc]
    | false =>
      rw [if_neg (by simp), placeBy, hnext _ _ _ hchar, placeBy]

/-- Lines of which each is wrapped at most as often are wrapped as often together exactly if each of them
is. -/
theorem sum_wraps_eq_iff {first second : ℕ → ℕ} {lengths : List ℕ}
    (hle : ∀ length ∈ lengths, first length ≤ second length) :
    (lengths.map fun length ↦ first length + 1).sum =
        (lengths.map fun length ↦ second length + 1).sum ↔
      ∀ length ∈ lengths, first length = second length := by
  induction lengths with
  | nil => simp
  | cons length rest ih =>
    have hlength := hle length List.mem_cons_self
    have hrest : ∀ other ∈ rest, first other ≤ second other :=
      fun other hother ↦ hle other (List.mem_cons_of_mem _ hother)
    have hsum : (rest.map fun length ↦ first length + 1).sum ≤
        (rest.map fun length ↦ second length + 1).sum :=
      List.sum_le_sum fun other hother ↦ Nat.add_le_add_right (hrest other hother) 1
    rw [List.forall_mem_cons, ← ih hrest, List.map_cons, List.map_cons, List.sum_cons, List.sum_cons]
    omega

/-- Two rules of which the first wraps no line more often give the same row exactly if they wrap every
line as often. -/
theorem row_placeBy_eq_iff {first second column other : ℕ → ℕ} {lengths : LineLengths}
    (hle : ∀ length, first length ≤ second length) :
    (placeBy first column lengths).row = (placeBy second other lengths).row ↔
      ∀ length ∈ lengths.all, first length = second length := by
  rw [← sum_wraps_eq_iff fun length _ ↦ hle length, LineLengths.all]
  simp only [placeBy, List.map_append, List.map_cons, List.map_nil, List.sum_append, List.sum_cons,
    List.sum_nil]
  omega

/-! ### The rule of the screen -/

/-- How often a line is wrapped: not before there is one character too many. -/
def wraps (width length : ℕ) : ℕ :=
  (length - 1) / width

/-- The column in which a line ends. -/
def column (width length : ℕ) : ℕ :=
  length - wraps width length * width

/-- The rows and the column hold the characters of the line. -/
theorem wraps_mul_add_column (width length : ℕ) :
    wraps width length * width + column width length = length := by
  have hle := Nat.div_mul_le_self (length - 1) width
  unfold column wraps
  omega

theorem column_le {width : ℕ} (hwidth : 0 < width) (length : ℕ) : column width length ≤ width := by
  have hdiv := Nat.div_add_mod (length - 1) width
  have hmod := Nat.mod_lt (length - 1) hwidth
  rw [Nat.mul_comm] at hdiv
  unfold column wraps
  omega

/-- The number of wraps, by what the rows can hold. -/
theorem wraps_eq_iff {width length count : ℕ} (hwidth : 0 < width) (hlength : 0 < length) :
    wraps width length = count ↔ count * width < length ∧ length ≤ (count + 1) * width := by
  rw [wraps, Nat.div_eq_iff hwidth, Nat.add_mul]
  omega

/-- One more character of a line. -/
theorem wraps_succ {width : ℕ} (hwidth : 0 < width) (length : ℕ) :
    wraps width (length + 1) = wraps width length + if column width length < width then 0 else 1 := by
  have hsplit := wraps_mul_add_column width length
  have hcolumn := column_le hwidth length
  have hone : (wraps width length + 1) * width = wraps width length * width + width :=
    Nat.succ_mul _ _
  have htwo : (wraps width length + 1 + 1) * width = (wraps width length + 1) * width + width :=
    Nat.succ_mul _ _
  by_cases hfree : column width length < width
  · rw [if_pos hfree, wraps_eq_iff hwidth (Nat.succ_pos length)]
    simp only [Nat.add_zero]
    omega
  · rw [if_neg hfree, wraps_eq_iff hwidth (Nat.succ_pos length)]
    omega

/-- The screen wraps by this rule. -/
theorem shown_eq_placeBy {width : ℕ} (hwidth : 0 < width) (text : List α) :
    shown isNewline width text =
      placeBy (wraps width) (column width) (lineLengths isNewline text) := by
  have hzero : wraps width 0 = 0 := Nat.zero_div width
  refine foldl_eq_placeBy isNewline hzero (by simp [column]) ?_ ?_ text
  · intro row length char hchar
    rw [showNext, if_pos hchar]
  · intro row length char hchar
    have hsucc := wraps_succ hwidth length
    have hbefore := wraps_mul_add_column width length
    have hafter := wraps_mul_add_column width (length + 1)
    have hcolumn := column_le hwidth length
    rw [showNext, hchar, if_neg Bool.false_ne_true]
    by_cases hfree : column width length < width
    · rw [if_pos hfree] at hsucc ⊢
      rw [hsucc, Nat.add_zero] at hafter
      rw [hsucc, Nat.add_zero]
      congr 1
      change column width length + 1 = column width (length + 1)
      omega
    · rw [if_neg hfree] at hsucc ⊢
      rw [hsucc, Nat.add_mul, Nat.one_mul] at hafter
      rw [hsucc]
      congr 1
      omega

/-- A text without newlines: the rows and the column hold its characters. -/
theorem shown_of_forall {width : ℕ} (hwidth : 0 < width) {text : List α}
    (htext : ∀ char ∈ text, isNewline char = false) :
    (shown isNewline width text).row * width + (shown isNewline width text).col = text.length ∧
      (shown isNewline width text).col ≤ width := by
  rw [shown_eq_placeBy isNewline hwidth, lineLengths_of_forall isNewline htext, placeBy]
  simpa using ⟨wraps_mul_add_column width text.length, column_le hwidth text.length⟩

end Playground.Library
