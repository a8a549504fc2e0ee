import Mathlib.Data.List.Basic
import Mathlib.Data.List.Find
import Mathlib.Data.List.Range

/-!
# A line of text with a cursor

A line that is being edited is the text before the cursor and the text after it. What a key does is
stated on the two parts: what is typed is put between them, a deletion takes from one of them and leaves
the other as it is, and a move shifts the boundary between them. A word is a maximal run of letters, the
letters being given by a predicate; a move by a word looks at one position after the other until it
comes to one where a word starts or ends.

`findLast_filter_range` and `find_filter_range'` say that the position found so is the nearest one in
the list of all positions at which a word starts, or ends.
-/

set_option autoImplicit false
set_option relaxedAutoImplicit false

namespace Playground.Library

variable {α : Type*}

/-! ### Words -/

/-- There is a letter at a position. -/
def letterAt (isLetter : α → Bool) (text : List α) (position : ℕ) : Bool :=
  text[position]?.any isLetter

/-- A word starts at a position. -/
def startsWord (isLetter : α → Bool) (text : List α) (position : ℕ) : Bool :=
  letterAt isLetter text position &&
    (position = 0 || !letterAt isLetter text (position - 1))

/-- A word ends at a position. -/
def endsWord (isLetter : α → Bool) (text : List α) (position : ℕ) : Bool :=
  position ≠ 0 && letterAt isLetter text (position - 1) && !letterAt isLetter text position

/-- The nearest position before one at which a word starts, or the start of the text. -/
def wordStartBefore (isLetter : α → Bool) (text : List α) (position : ℕ) : ℕ :=
  ((List.range position).reverse.find? (startsWord isLetter text)).getD 0

/-- The nearest position after one at which a word ends, or the end of the text. -/
def wordEndAfter (isLetter : α → Bool) (text : List α) (position : ℕ) : ℕ :=
  ((List.range' (position + 1) (text.length - position)).find?
    (endsWord isLetter text)).getD text.length

/-- The last of the positions up to a bound that have a property and are below a limit. -/
theorem findLast_filter_range (property : ℕ → Bool) {limit bound : ℕ} (hlimit : limit ≤ bound) :
    (((List.range bound).filter property).reverse.find? fun position ↦ decide (position < limit)) =
      (List.range limit).reverse.find? property := by
  obtain ⟨more, rfl⟩ := Nat.exists_eq_add_of_le hlimit
  have hlow : ∀ position ∈ (List.range limit).reverse,
      decide (property position = true ∧ decide (position < limit) = true) = property position := by
    intro position hmem
    simp only [List.mem_reverse, List.mem_range] at hmem
    simp [hmem]
  have hhigh : ((List.range more).map (limit + ·)).reverse.find?
      (fun position ↦ decide (property position = true ∧ decide (position < limit) = true)) =
        none := by
    rw [List.find?_eq_none]
    intro position hmem
    simp only [List.mem_reverse, List.mem_map, List.mem_range] at hmem
    obtain ⟨offset, -, rfl⟩ := hmem
    simp
  rw [← List.filter_reverse, List.find?_filter, List.range_add, List.reverse_append,
    List.find?_append, hhigh, Option.none_or]
  exact List.find?_congr hlow

/-- The first of the positions up to a bound that have a property and are above a limit. -/
theorem find_filter_range' (property : ℕ → Bool) {limit bound : ℕ} (hlimit : limit ≤ bound) :
    (((List.range' 0 (bound + 1)).filter property).find? fun position ↦ decide (limit < position)) =
      (List.range' (limit + 1) (bound - limit)).find? property := by
  obtain ⟨more, rfl⟩ := Nat.exists_eq_add_of_le hlimit
  have hsplit : List.range' 0 (limit + more + 1) =
      List.range' 0 (limit + 1) ++ List.range' (limit + 1) more := by
    have happend := @List.range'_append_1 0 (limit + 1) more
    rw [Nat.zero_add] at happend
    rw [happend, Nat.add_right_comm]
  have hlow : (List.range' 0 (limit + 1)).find?
      (fun position ↦ decide (property position = true ∧ decide (limit < position) = true)) =
        none := by
    rw [List.find?_eq_none]
    intro position hmem
    rw [List.mem_range'_1] at hmem
    have hnot : ¬ limit < position := by omega
    simp [hnot]
  have hhigh : ∀ position ∈ List.range' (limit + 1) more,
      decide (property position = true ∧ decide (limit < position) = true) = property position := by
    intro position hmem
    rw [List.mem_range'_1] at hmem
    have habove : limit < position := by omega
    simp [habove]
  rw [List.find?_filter, hsplit, List.find?_append, hlow, Option.none_or, Nat.add_sub_cancel_left]
  exact List.find?_congr hhigh

/-! ### Lines -/

/-- A line that is being edited: the text before the cursor and the text after it. -/
structure Line (α : Type*) where
  before : List α
  after : List α
  deriving DecidableEq

namespace Line

/-- The whole text. -/
def text (line : Line α) : List α :=
  line.before ++ line.after

/-- The position of the cursor. -/
def position (line : Line α) : ℕ :=
  line.before.length

/-- The cursor is put at a position of a text. -/
def cut (text : List α) (position : ℕ) : Line α :=
  ⟨text.take position, text.drop position⟩

/-- Something is typed. -/
def insert (line : Line α) (typed : List α) : Line α :=
  ⟨line.before ++ typed, line.after⟩

/-- What is before the cursor is deleted. -/
def backspace (line : Line α) : Line α :=
  ⟨line.before.dropLast, line.after⟩

/-- What is after the cursor is deleted. -/
def delete (line : Line α) : Line α :=
  ⟨line.before, line.after.tail⟩

/-- One to the left. -/
def left (line : Line α) : Line α :=
  ⟨line.before.dropLast, line.before.getLast?.toList ++ line.after⟩

/-- One to the right. -/
def right (line : Line α) : Line α :=
  ⟨line.before ++ line.after.head?.toList, line.after.tail⟩

/-- To the start. -/
def home (line : Line α) : Line α :=
  ⟨[], line.text⟩

/-- To the end. -/
def last (line : Line α) : Line α :=
  ⟨line.text, []⟩

/-- Everything before the cursor is deleted. -/
def deleteToStart (line : Line α) : Line α :=
  ⟨[], line.after⟩

/-- Everything after the cursor is deleted. -/
def deleteToEnd (line : Line α) : Line α :=
  ⟨line.before, []⟩

/-- To the nearest start of a word on the left. -/
def wordLeft (isLetter : α → Bool) (line : Line α) : Line α :=
  cut line.text (wordStartBefore isLetter line.text line.position)

/-- To the nearest end of a word on the right. -/
def wordRight (isLetter : α → Bool) (line : Line α) : Line α :=
  cut line.text (wordEndAfter isLetter line.text line.position)

/-- What is between the nearest start of a word on the left and the cursor is deleted. -/
def deleteWord (isLetter : α → Bool) (line : Line α) : Line α :=
  ⟨line.text.take (wordStartBefore isLetter line.text line.position), line.after⟩

/-- The whole line is replaced, and the cursor is at its end. -/
def replace (_ : Line α) (text : List α) : Line α :=
  ⟨text, []⟩

/-- The cursor is in the text. -/
theorem position_le (line : Line α) : line.position ≤ line.text.length := by
  rw [position, text, List.length_append]
  exact Nat.le_add_right _ _

/-- Cutting a text keeps it. -/
theorem text_cut (text : List α) (position : ℕ) : (cut text position).text = text :=
  List.take_append_drop position text

/-- Cutting a text puts the cursor where it is cut. -/
theorem position_cut {text : List α} {position : ℕ} (hposition : position ≤ text.length) :
    (cut text position).position = position :=
  List.length_take_of_le hposition

end Line

/-- A word that starts before a position starts before it. -/
theorem wordStartBefore_le (isLetter : α → Bool) (text : List α) (position : ℕ) :
    wordStartBefore isLetter text position ≤ position := by
  rw [wordStartBefore]
  cases hfind : (List.range position).reverse.find? (startsWord isLetter text) with
  | none => exact Nat.zero_le _
  | some found =>
    have hmem := List.mem_of_find?_eq_some hfind
    rw [List.mem_reverse, List.mem_range] at hmem
    exact hmem.le

/-- A word ends in the text. -/
theorem wordEndAfter_le (isLetter : α → Bool) {text : List α} {position : ℕ}
    (hposition : position ≤ text.length) :
    wordEndAfter isLetter text position ≤ text.length := by
  rw [wordEndAfter]
  cases hfind : (List.range' (position + 1) (text.length - position)).find?
      (endsWord isLetter text) with
  | none => exact le_rfl
  | some found =>
    have hmem := List.mem_of_find?_eq_some hfind
    rw [List.mem_range'_1] at hmem
    show found ≤ text.length
    omega

end Playground.Library
