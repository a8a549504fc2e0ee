import Playground.Library.JavaScript
import Playground.Library.LineEditor

/-!
# Line editing

`client/src/utils/pg/terminal/shell.ts`, `tty.ts`, `shell-history.ts` and `shell-utils.ts`. While the
prompt is active, what arrives from the terminal is a key or pasted text. `PgShell._handleData` handles
one key, with `PgTty.setInput`, `setCursor` and `setCursorDirectly`, which set the input and the cursor
one after the other; `handleTermData` takes pasted text apart.

A `Line` has no input and cursor but the text before the cursor and the text after it. What the keys do to
the input and the cursor is what they do to the line that these show (`ttyOf`).

Strings are lists of UTF-16 code units here, since positions count these. Not formalized here: what is
written to the screen, completion (TAB) and what happens to an input that is completed, after which the
prompt is not active; `none` stands for these two.
-/

set_option autoImplicit false
set_option relaxedAutoImplicit false

namespace Playground.Terminal

open Library

/-! ### Strings -/

/-- A UTF-16 code unit. -/
abbrev CodeUnit := UInt16

/-- A string. -/
abbrev Units := List CodeUnit

/-- The character of a code unit that is not a surrogate. -/
def toChar (unit : CodeUnit) : Char :=
  Char.ofNat unit.toNat

/-- The code units of a text in ASCII. -/
def units (text : String) : Units :=
  text.toList.map fun char ↦ char.toNat.toUInt16

/-- `String.prototype.substring`, with both of its arguments. -/
def substring (text : Units) (start stop : ℤ) : Units :=
  let first := min start.toNat text.length
  let second := min stop.toNat text.length
  (text.take (max first second)).drop (min first second)

/-- `String.prototype.substring`, with its first argument. -/
def substringFrom (text : Units) (start : ℤ) : Units :=
  text.drop start.toNat

/-- `String.prototype.trim`. -/
def trimUnits (text : Units) : Units :=
  ((text.dropWhile fun unit ↦ isSpaceChar (toChar unit)).reverse.dropWhile
    fun unit ↦ isSpaceChar (toChar unit)).reverse

/-- `Array.from`: the code points of a string. -/
def codePoints : Units → List Units
  | [] => []
  | [unit] => [[unit]]
  | first :: second :: rest =>
    if 0xD800 ≤ first ∧ first ≤ 0xDBFF ∧ 0xDC00 ≤ second ∧ second ≤ 0xDFFF then
      [first, second] :: codePoints rest
    else [first] :: codePoints (second :: rest)

/-- `data.replace(/[\r\n]+/g, "\r")`. `inside` says that the character before is a line end. -/
def normalizeNewlines (inside : Bool) : Units → Units
  | [] => []
  | unit :: rest =>
    if unit = 0x0D ∨ unit = 0x0A then
      if inside then normalizeNewlines true rest else 0x0D :: normalizeNewlines true rest
    else unit :: normalizeNewlines false rest

/-! ### `shell-utils.ts` -/

/-- The class `\w`. -/
def isWordUnit (unit : CodeUnit) : Bool :=
  isWordChar (toChar unit)

/-- The matches of `/\w+/g`, each with its index and its length. `run` is the length of the match that
the characters before `index` have begun. -/
def matchWords (index run : ℕ) : Units → List (ℕ × ℕ)
  | [] => if run = 0 then [] else [(index - run, run)]
  | unit :: rest =>
    if isWordUnit unit then matchWords (index + 1) (run + 1) rest
    else (if run = 0 then [] else [(index - run, run)]) ++ matchWords (index + 1) 0 rest

/-- `wordBoundaries`. -/
def wordBoundaries (input : Units) (leftSide : Bool) : List ℕ :=
  (matchWords 0 0 input).map fun (index, length) ↦ if leftSide then index else index + length

/-- `closestLeftBoundary`. -/
def closestLeftBoundary (input : Units) (offset : ℤ) : ℕ :=
  ((wordBoundaries input true).reverse.find? fun boundary : ℕ ↦ (boundary : ℤ) < offset).getD 0

/-- `closestRightBoundary`. -/
def closestRightBoundary (input : Units) (offset : ℤ) : ℕ :=
  ((wordBoundaries input false).find? fun boundary : ℕ ↦ offset < (boundary : ℤ)).getD input.length

/-- The last of the parts into which `/(\|\||\||&&)/` splits a string. -/
def lastPart (part : Units) : Units → Units
  | [] => part
  | [unit] => if unit = 0x7C then [] else part ++ [unit]
  | first :: second :: rest =>
    if first = 0x7C then if second = 0x7C then lastPart [] rest else lastPart [] (second :: rest)
    else if first = 0x26 ∧ second = 0x26 then lastPart [] rest
    else lastPart (part ++ [first]) (second :: rest)

/-- `isIncompleteInput`. -/
def isIncompleteInput (input : Units) : Bool :=
  if trimUnits input = [] then false
  else if input.count 0x27 % 2 ≠ 0 then true
  else if input.count 0x22 % 2 ≠ 0 then true
  else if trimUnits (lastPart [] input) = [] then true
  else if [0x5C] <:+ input ∧ ¬ [0x5C, 0x5C] <:+ input then true
  else false

/-! ### `PgShellHistory` -/

/-- `PgShellHistory`. No entry is empty, and the cursor is not beyond the end of the entries. -/
structure History where
  size : ℕ
  cursor : ℕ
  entries : List Units
  nonempty : ∀ entry ∈ entries, entry ≠ []
  inside : cursor ≤ entries.length

/-- A new history. -/
def History.empty (size : ℕ) : History where
  size := size
  cursor := 0
  entries := []
  nonempty := by simp
  inside := Nat.le_refl _

/-- The entries without an entry, which is what an entry that is pushed again does to them unless it is
the last. -/
def withoutDuplicate (entries : List Units) (entry : Units) : List Units :=
  if entry ∈ entries then
    let index := entries.idxOf entry
    entries.take index ++ entries.drop (if index = entries.length - 1 then index else index + 1)
  else entries

/-- The entries with an entry at their end. -/
def withLast (entries : List Units) (entry : Units) : List Units :=
  if entries.getLast? = some entry then entries else entries ++ [entry]

/-- An entry that is pushed is one of the entries, and nothing else comes to them. -/
theorem mem_withLast {entries : List Units} {entry other : Units}
    (hother : other ∈ withLast (withoutDuplicate entries entry) entry) :
    other ∈ entries ∨ other = entry := by
  have hduplicate : ∀ item ∈ withoutDuplicate entries entry, item ∈ entries := by
    intro item hitem
    by_cases hmem : entry ∈ entries
    · rw [withoutDuplicate, if_pos hmem] at hitem
      rcases List.mem_append.mp hitem with hitem | hitem
      · exact List.mem_of_mem_take hitem
      · exact List.mem_of_mem_drop hitem
    · rwa [withoutDuplicate, if_neg hmem] at hitem
  by_cases hlast : (withoutDuplicate entries entry).getLast? = some entry
  · rw [withLast, if_pos hlast] at hother
    exact Or.inl (hduplicate other hother)
  · rw [withLast, if_neg hlast] at hother
    rcases List.mem_append.mp hother with hother | hother
    · exact Or.inl (hduplicate other hother)
    · exact Or.inr (List.mem_singleton.mp hother)

/-- `PgShellHistory.push`. -/
def History.push (history : History) (entry : Units) : History :=
  if hskip : entry = [] ∨ entry = units "!!" then history
  else
    let pushed := withLast (withoutDuplicate history.entries entry) entry
    let kept := if history.size < pushed.length then pushed.drop 1 else pushed
    { history with
      entries := kept
      cursor := kept.length
      nonempty := by
        intro other hother
        have hmem : other ∈ pushed := by
          by_cases hsize : history.size < pushed.length
          · rw [show kept = pushed.drop 1 from if_pos hsize] at hother
            exact List.mem_of_mem_drop hother
          · rwa [show kept = pushed from if_neg hsize] at hother
        rcases mem_withLast hmem with hold | hnew
        · exact history.nonempty other hold
        · exact hnew ▸ (not_or.mp hskip).1
      inside := Nat.le_refl _ }

/-- `PgShellHistory.getPrevious`. -/
def History.getPrevious (history : History) : Option Units × History :=
  let index := history.cursor - 1
  (if index < history.entries.length then history.entries[index]? else none,
    { history with cursor := index, inside := Nat.le_trans (Nat.sub_le _ _) history.inside })

/-- `PgShellHistory.getNext`. -/
def History.getNext (history : History) : Option Units × History :=
  let index := min history.entries.length (history.cursor + 1)
  (if index ≤ history.entries.length then history.entries[index]? else none,
    { history with cursor := index, inside := Nat.min_le_left _ _ })

/-! ### `PgTty` -/

/-- The input and the cursor of `PgTty`. The cursor is an integer: nothing keeps `setCursorDirectly`
from setting it outside the input. -/
structure Tty where
  input : Units
  cursor : ℤ
  deriving DecidableEq

/-- `PgTty.setInput`. -/
def Tty.setInput (tty : Tty) (newInput : Units) : Tty where
  input := newInput
  cursor := if (newInput.length : ℤ) < tty.cursor then newInput.length else tty.cursor

/-- `PgTty.setCursorDirectly`. -/
def Tty.setCursorDirectly (tty : Tty) (newCursor : ℤ) : Tty :=
  { tty with cursor := newCursor }

/-- `PgTty.setCursor`. -/
def Tty.setCursor (tty : Tty) (newCursor : ℤ) : Tty :=
  let raised := if newCursor < 0 then 0 else newCursor
  tty.setCursorDirectly (if (tty.input.length : ℤ) < raised then tty.input.length else raised)

/-- `PgShell._handleCursorMove`. -/
def handleCursorMove (tty : Tty) (dir : ℤ) : Tty :=
  if 0 < dir then tty.setCursorDirectly (tty.cursor + min dir (tty.input.length - tty.cursor))
  else if dir < 0 then tty.setCursorDirectly (tty.cursor + max dir (-tty.cursor))
  else tty

/-- `PgShell._handleCursorInsert`. -/
def handleCursorInsert (tty : Tty) (data : Units) : Tty :=
  let newInput := substring tty.input 0 tty.cursor ++ data ++ substringFrom tty.input tty.cursor
  (tty.setCursorDirectly (tty.cursor + data.length)).setInput newInput

/-- `PgShell._handleCursorErase`. -/
def handleCursorErase (tty : Tty) (backspace : Bool) : Tty :=
  if backspace then
    if tty.cursor ≤ 0 then tty
    else
      let newInput := substring tty.input 0 (tty.cursor - 1) ++ substringFrom tty.input tty.cursor
      (tty.setCursorDirectly (tty.cursor - 1)).setInput newInput
  else tty.setInput (substring tty.input 0 tty.cursor ++ substringFrom tty.input (tty.cursor + 1))

/-! ### Keys -/

/-- The keys that `_handleData` tells apart. -/
inductive Key
  | up
  | down
  | left
  | right
  | delete
  | endKey
  | home
  | altLeft
  | altRight
  | ctrlBackspace
  | enter
  | backspace
  | tab
  | ctrlG
  | ctrlK
  | ctrlU
  deriving DecidableEq

/-- The cases of the ANSI escape sequences. -/
def escapeKeys : List (Units × Key) :=
  [(units "[A", .up), (units "[B", .down), (units "[D", .left), (units "[C", .right),
    (units "[3~", .delete), (units "[F", .endKey), (units "[H", .home), (units "b", .altLeft),
    (units "f", .altRight), ([0x7F], .ctrlBackspace)]

/-- The cases of the special characters: Enter, Backspace, and Ctrl with H, D, I (which is TAB), A, B, E,
F, G, K, N, P and U. -/
def specialKeys : List (Units × Key) :=
  [([0x0D], .enter), ([0x7F], .backspace), ([0x08], .backspace), ([0x04], .backspace), ([0x09], .tab),
    ([0x01], .home), ([0x02], .left), ([0x05], .endKey), ([0x06], .right), ([0x07], .ctrlG),
    ([0x0B], .ctrlK), ([0x0E], .down), ([0x10], .up), ([0x15], .ctrlU)]

/-- What a `switch` finds in its cases. -/
def keyOf (cases : List (Units × Key)) (data : Units) : Option Key :=
  (cases.find? fun entry ↦ entry.1 = data).map Prod.snd

/-- What `_handleData` sees in its data: a key, nothing that it knows, or something to be typed. -/
inductive Datum
  | key (key : Key)
  | unknown
  | typed (text : Units)
  deriving DecidableEq

/-- The tests of `_handleData` on its data. -/
def readData (data : Units) : Datum :=
  match data with
  | [] => .typed []
  | ord :: rest =>
    if ord = 0x1B then (keyOf escapeKeys rest).elim .unknown .key
    else if ord < 32 ∨ ord = 0x7F then (keyOf specialKeys data).elim .unknown .key
    else .typed data

/-- The shell with its active prompt. -/
structure Shell where
  tty : Tty
  history : History

/-- The input is set, and the cursor put at its end. -/
def Shell.setLine (shell : Shell) (value : Units) (history : History) : Shell where
  tty := (shell.tty.setInput value).setCursor value.length
  history := history

/-- The branches of `_handleData`. -/
def handleKey (shell : Shell) (key : Key) : Option Shell :=
  let tty := shell.tty
  match key with
  | .up =>
    let (value, history) := shell.history.getPrevious
    -- neither `undefined` nor an empty entry is set
    match value with
    | none | some [] => some { shell with history := history }
    | some value => some (shell.setLine value history)
  | .down =>
    let (value, history) := shell.history.getNext
    some (shell.setLine (value.getD []) history)
  | .left => some { shell with tty := handleCursorMove tty (-1) }
  | .right => some { shell with tty := handleCursorMove tty 1 }
  | .delete => some { shell with tty := handleCursorErase tty false }
  | .endKey => some { shell with tty := tty.setCursor tty.input.length }
  | .home => some { shell with tty := tty.setCursor 0 }
  | .altLeft => some { shell with tty := tty.setCursor (closestLeftBoundary tty.input tty.cursor) }
  | .altRight => some { shell with tty := tty.setCursor (closestRightBoundary tty.input tty.cursor) }
  | .ctrlBackspace =>
    let offset := closestLeftBoundary tty.input tty.cursor
    let newInput := substring tty.input 0 offset ++ substringFrom tty.input tty.cursor
    some { shell with tty := (tty.setInput newInput).setCursor offset }
  | .enter =>
    if isIncompleteInput tty.input then some { shell with tty := handleCursorInsert tty [0x0A] }
    else none
  | .backspace => some { shell with tty := handleCursorErase tty true }
  | .tab => none
  | .ctrlG =>
    let (_, history) := shell.history.getPrevious
    some ⟨tty.setInput [], history⟩
  | .ctrlK =>
    let tty := tty.setInput (substring tty.input 0 tty.cursor)
    some { shell with tty := tty.setCursor tty.input.length }
  | .ctrlU => some { shell with tty := (tty.setInput (substringFrom tty.input tty.cursor)).setCursor 0 }

/-- `PgShell._handleData`, while the prompt is active. -/
def handleData (shell : Shell) (data : Units) : Option Shell :=
  match readData data with
  | .key key => handleKey shell key
  | .unknown => some shell
  | .typed text => some { shell with tty := handleCursorInsert shell.tty text }

/-- The pieces in which `handleTermData` hands over its data: what looks like a pasted input is
expanded. -/
def expand (data : Units) : List Units :=
  if 3 < data.length ∧ data.head? ≠ some 0x1B then codePoints (normalizeNewlines false data)
  else [data]

/-- `PgShell.handleTermData`, while the prompt is active. -/
def handleTermData (shell : Shell) (data : Units) : Option Shell :=
  (expand data).foldlM handleData shell

/-- The prompt has been activated. -/
def prompted (history : History) : Shell where
  tty := ⟨[], 0⟩
  history := history

/-! ### The line that is shown -/

/-- The input and the cursor that show a line. -/
def ttyOf (line : Line CodeUnit) : Tty where
  input := line.text
  cursor := line.position

/-- The input up to the cursor. -/
theorem substring_cursor (line : Line CodeUnit) :
    substring (ttyOf line).input 0 (ttyOf line).cursor = line.before := by
  simp [substring, ttyOf, Line.text, Line.position]

/-- The input up to the character before the cursor. -/
theorem substring_cursor_sub_one (line : Line CodeUnit) :
    substring (ttyOf line).input 0 ((ttyOf line).cursor - 1) = line.before.dropLast := by
  have hnat : ((line.before.length : ℤ) - 1).toNat = line.before.length - 1 := by omega
  have hle : line.before.length - 1 ≤ line.before.length + line.after.length := by omega
  simp [substring, ttyOf, Line.text, Line.position, hnat, hle, List.dropLast_eq_take,
    List.take_append_of_le_length]

/-- The input from the cursor on. -/
theorem substringFrom_cursor (line : Line CodeUnit) :
    substringFrom (ttyOf line).input (ttyOf line).cursor = line.after := by
  simp [substringFrom, ttyOf, Line.text, Line.position]

/-- The input from the character after the cursor on. -/
theorem substringFrom_cursor_add_one (line : Line CodeUnit) :
    substringFrom (ttyOf line).input ((ttyOf line).cursor + 1) = line.after.tail := by
  have hnat : ((line.before.length : ℤ) + 1).toNat = line.before.length + 1 := by omega
  simp [substringFrom, ttyOf, Line.text, Line.position, hnat, List.drop_append]

/-- The input up to a position in it. -/
theorem substring_position {text : Units} {position : ℕ} (hposition : position ≤ text.length) :
    substring text 0 position = text.take position := by
  simp [substring, hposition]

/-! ### The setters -/

/-- Setting an input around a cursor that is set first. -/
theorem setInput_setCursorDirectly (tty : Tty) (line : Line CodeUnit) :
    (tty.setCursorDirectly line.position).setInput line.text = ttyOf line := by
  have hposition := line.position_le
  have hnot : ¬ (line.text.length : ℤ) < line.position := by omega
  simp [Tty.setInput, Tty.setCursorDirectly, ttyOf, hnot]

/-- Setting a cursor in an input that is set first. -/
theorem setCursor_setInput (tty : Tty) (line : Line CodeUnit) :
    (tty.setInput line.text).setCursor line.position = ttyOf line := by
  have hposition := line.position_le
  have hnot : ¬ (line.text.length : ℤ) < line.position := by omega
  have hneg : ¬ (line.position : ℤ) < 0 := by omega
  simp [Tty.setInput, Tty.setCursor, Tty.setCursorDirectly, ttyOf, hnot, hneg]

/-- Setting a cursor in the same input. -/
theorem setCursor_ttyOf (line other : Line CodeUnit) (htext : line.text = other.text) :
    (ttyOf line).setCursor other.position = ttyOf other := by
  have hsame : ttyOf line = (ttyOf line).setInput other.text := by
    have hposition := line.position_le
    rw [htext] at hposition
    have hnot : ¬ (other.text.length : ℤ) < line.position := by omega
    simp [Tty.setInput, ttyOf, hnot, htext]
  rw [hsame]
  exact setCursor_setInput _ other

/-! ### What the keys do -/

/-- Something is typed. -/
theorem handleCursorInsert_ttyOf (line : Line CodeUnit) (data : Units) :
    handleCursorInsert (ttyOf line) data = ttyOf (line.insert data) := by
  have hposition : (ttyOf line).cursor + (data.length : ℤ) = (line.insert data).position := by
    simp [ttyOf, Line.position, Line.insert]
  rw [handleCursorInsert, substring_cursor, substringFrom_cursor, hposition]
  exact setInput_setCursorDirectly _ (line.insert data)

/-- Backspace. -/
theorem handleCursorErase_true_ttyOf (line : Line CodeUnit) :
    handleCursorErase (ttyOf line) true = ttyOf line.backspace := by
  rw [handleCursorErase, if_pos rfl]
  by_cases hstart : (ttyOf line).cursor ≤ 0
  · have hbefore : line.before = [] := by
      have hlength : (line.before.length : ℤ) ≤ 0 := hstart
      exact List.length_eq_zero_iff.mp (by omega)
    rw [if_pos hstart]
    have hsame : line.backspace = line := by
      rw [Line.backspace, hbefore, List.dropLast_nil, ← hbefore]
    rw [hsame]
  · have hposition : (ttyOf line).cursor - 1 = line.backspace.position := by
      have hlength : ¬ (line.before.length : ℤ) ≤ 0 := hstart
      show (line.before.length : ℤ) - 1 = line.before.dropLast.length
      rw [List.length_dropLast]
      omega
    rw [if_neg hstart, substring_cursor_sub_one, substringFrom_cursor, hposition]
    exact setInput_setCursorDirectly _ line.backspace

/-- Delete. -/
theorem handleCursorErase_false_ttyOf (line : Line CodeUnit) :
    handleCursorErase (ttyOf line) false = ttyOf line.delete := by
  rw [handleCursorErase, if_neg Bool.false_ne_true, substring_cursor, substringFrom_cursor_add_one]
  exact setInput_setCursorDirectly (ttyOf line) line.delete

/-- The left arrow. -/
theorem handleCursorMove_left_ttyOf (line : Line CodeUnit) :
    handleCursorMove (ttyOf line) (-1) = ttyOf line.left := by
  obtain ⟨before, after⟩ := line
  rcases List.eq_nil_or_concat before with rfl | ⟨first, char, rfl⟩
  · rfl
  · simp only [handleCursorMove, Tty.setCursorDirectly, ttyOf, Line.text, Line.position, Line.left,
      List.concat_eq_append, List.dropLast_concat, List.getLast?_concat, Option.toList_some,
      List.append_assoc, List.length_append, List.length_singleton]
    have hcursor : ((first.length + 1 : ℕ) : ℤ) + max (-1) (-((first.length + 1 : ℕ) : ℤ)) =
        first.length := by omega
    rw [if_neg (by decide), if_pos (by decide), hcursor]

/-- The right arrow. -/
theorem handleCursorMove_right_ttyOf (line : Line CodeUnit) :
    handleCursorMove (ttyOf line) 1 = ttyOf line.right := by
  obtain ⟨before, after⟩ := line
  cases after with
  | nil => simp [handleCursorMove, Tty.setCursorDirectly, ttyOf, Line.text, Line.position, Line.right]
  | cons char rest =>
    have hmin : min (1 : ℤ) (((before ++ char :: rest).length : ℤ) - before.length) = 1 := by
      rw [List.length_append, List.length_cons]
      omega
    simp only [handleCursorMove, Tty.setCursorDirectly, ttyOf, Line.text, Line.position, hmin]
    simp [Line.right]

/-! ### Words -/

/-- The characters from an index on, one at a time. -/
theorem letterAt_of_drop {text rest : Units} {index : ℕ} {unit : CodeUnit}
    (hdrop : text.drop index = unit :: rest) :
    letterAt isWordUnit text index = isWordUnit unit ∧ text.drop (index + 1) = rest := by
  constructor
  · have hget : text[index]? = some unit := by
      rw [← List.head?_drop, hdrop, List.head?_cons]
    rw [letterAt, hget, Option.any_some]
  · rw [← List.drop_drop, hdrop, List.drop_one, List.tail_cons]

/-- What the matches of `/\w+/g` from an index on begin with: `run` is the length of the match that ends
there. -/
structure Matching (text : Units) (index run : ℕ) (rest : Units) : Prop where
  drop : text.drop index = rest
  run_le : run ≤ index
  run_pos : 0 < run ↔ index ≠ 0 ∧ letterAt isWordUnit text (index - 1) = true

/-- A letter makes the match longer. -/
theorem Matching.letter {text rest : Units} {index run : ℕ} {unit : CodeUnit}
    (hmatching : Matching text index run (unit :: rest)) (hunit : isWordUnit unit = true) :
    Matching text (index + 1) (run + 1) rest where
  drop := (letterAt_of_drop hmatching.drop).2
  run_le := Nat.succ_le_succ hmatching.run_le
  run_pos := by
    have hletter := (letterAt_of_drop hmatching.drop).1
    simp [hletter, hunit]

/-- Another character ends the match. -/
theorem Matching.other {text rest : Units} {index run : ℕ} {unit : CodeUnit}
    (hmatching : Matching text index run (unit :: rest)) (hunit : isWordUnit unit = false) :
    Matching text (index + 1) 0 rest where
  drop := (letterAt_of_drop hmatching.drop).2
  run_le := Nat.zero_le _
  run_pos := by
    have hletter := (letterAt_of_drop hmatching.drop).1
    simp [hletter, hunit]

/-- A match has begun at a letter exactly if no word starts there. -/
theorem Matching.startsWord {text rest : Units} {index run : ℕ} (hmatching : Matching text index run rest)
    (hletter : letterAt isWordUnit text index = true) :
    startsWord isWordUnit text index = decide (run = 0) := by
  have hrun := hmatching.run_pos
  by_cases hzero : run = 0
  · have hnot : ¬ (index ≠ 0 ∧ letterAt isWordUnit text (index - 1) = true) := by
      rw [← hrun]
      omega
    by_cases hindex : index = 0 <;> simp_all [Library.startsWord]
  · have hbefore := hrun.mp (Nat.pos_of_ne_zero hzero)
    simp [Library.startsWord, hbefore.1, hbefore.2, hzero]

/-- A match has begun where there is no letter exactly if a word ends there. -/
theorem Matching.endsWord {text rest : Units} {index run : ℕ} (hmatching : Matching text index run rest)
    (hletter : letterAt isWordUnit text index = false) :
    endsWord isWordUnit text index = decide (run ≠ 0) := by
  have hrun := hmatching.run_pos
  by_cases hzero : run = 0
  · have hnot : ¬ (index ≠ 0 ∧ letterAt isWordUnit text (index - 1) = true) := by
      rw [← hrun]
      omega
    by_cases hindex : index = 0 <;> simp_all [Library.endsWord]
  · have hbefore := hrun.mp (Nat.pos_of_ne_zero hzero)
    simp [Library.endsWord, hbefore.1, hbefore.2, hzero, hletter]

/-- The indices of the matches are the positions at which words start. -/
theorem index_matchWords {text : Units} : ∀ {rest : Units} {index run : ℕ},
    Matching text index run rest → (matchWords index run rest).map Prod.fst =
      (if run = 0 then [] else [index - run]) ++
        (List.range' index rest.length).filter (startsWord isWordUnit text) := by
  intro rest
  induction rest with
  | nil =>
    intro index run _
    by_cases hrun : run = 0 <;> simp [matchWords, hrun]
  | cons unit rest ih =>
    intro index run hmatching
    have hletter := (letterAt_of_drop hmatching.drop).1
    by_cases hunit : isWordUnit unit = true
    · rw [matchWords, if_pos hunit, ih (hmatching.letter hunit), List.length_cons, List.range'_succ,
        List.filter_cons, hmatching.startsWord (hletter.trans hunit), if_neg (Nat.succ_ne_zero run)]
      by_cases hzero : run = 0 <;> simp [hzero]
    · have hother : isWordUnit unit = false := Bool.eq_false_iff.mpr hunit
      have hstart : startsWord isWordUnit text index = false := by
        simp [startsWord, hletter, hother]
      rw [matchWords, if_neg hunit, List.map_append, ih (hmatching.other hother), List.length_cons,
        List.range'_succ, List.filter_cons, hstart]
      by_cases hzero : run = 0 <;> simp [hzero]

/-- The ends of the matches are the positions at which words end. -/
theorem end_matchWords {text : Units} : ∀ {rest : Units} {index run : ℕ},
    Matching text index run rest →
      (matchWords index run rest).map (fun found ↦ found.1 + found.2) =
        (List.range' index (rest.length + 1)).filter (endsWord isWordUnit text) := by
  intro rest
  induction rest with
  | nil =>
    intro index run hmatching
    have hletter : letterAt isWordUnit text index = false := by
      have hlength : text.length ≤ index := List.drop_eq_nil_iff.mp hmatching.drop
      simp [letterAt, List.getElem?_eq_none hlength]
    rw [matchWords, List.length_nil, Nat.zero_add, List.range'_one, List.filter_singleton,
      hmatching.endsWord hletter]
    by_cases hzero : run = 0 <;> simp [hzero, Nat.sub_add_cancel hmatching.run_le]
  | cons unit rest ih =>
    intro index run hmatching
    have hletter := (letterAt_of_drop hmatching.drop).1
    rw [List.length_cons, List.range'_succ, List.filter_cons]
    by_cases hunit : isWordUnit unit = true
    · have hend : endsWord isWordUnit text index = false := by
        simp [endsWord, hletter, hunit]
      rw [matchWords, if_pos hunit, ih (hmatching.letter hunit), hend, if_neg Bool.false_ne_true]
    · have hother : isWordUnit unit = false := Bool.eq_false_iff.mpr hunit
      rw [matchWords, if_neg hunit, List.map_append, ih (hmatching.other hother),
        hmatching.endsWord (hletter.trans hother)]
      by_cases hzero : run = 0 <;> simp [hzero, Nat.sub_add_cancel hmatching.run_le]

/-- Before the first match. -/
theorem matching_zero (text : Units) : Matching text 0 0 text where
  drop := List.drop_zero
  run_le := le_rfl
  run_pos := by simp

/-- The boundary that `closestLeftBoundary` finds is the nearest start of a word. -/
theorem closestLeftBoundary_eq {text : Units} {position : ℕ} (hposition : position ≤ text.length) :
    closestLeftBoundary text position = wordStartBefore isWordUnit text position := by
  have hstarts : wordBoundaries text true =
      (List.range text.length).filter (startsWord isWordUnit text) := by
    have hindices := index_matchWords (matching_zero text)
    rw [if_pos rfl, List.nil_append, ← List.range_eq_range'] at hindices
    exact hindices
  simp only [closestLeftBoundary, wordStartBefore, hstarts, Int.ofNat_lt]
  rw [findLast_filter_range (startsWord isWordUnit text) hposition]

/-- The boundary that `closestRightBoundary` finds is the nearest end of a word. -/
theorem closestRightBoundary_eq {text : Units} {position : ℕ} (hposition : position ≤ text.length) :
    closestRightBoundary text position = wordEndAfter isWordUnit text position := by
  have hends : wordBoundaries text false =
      (List.range' 0 (text.length + 1)).filter (endsWord isWordUnit text) :=
    end_matchWords (matching_zero text)
  simp only [closestRightBoundary, wordEndAfter, hends, Int.ofNat_lt]
  rw [find_filter_range' (endsWord isWordUnit text) hposition]

/-! ### Keys that set the cursor after the input -/

/-- To the nearest start of a word on the left. -/
theorem setCursor_closestLeftBoundary (line : Line CodeUnit) :
    (ttyOf line).setCursor (closestLeftBoundary (ttyOf line).input (ttyOf line).cursor) =
      ttyOf (line.wordLeft isWordUnit) := by
  have hle := (wordStartBefore_le isWordUnit line.text line.position).trans line.position_le
  have hboundary : closestLeftBoundary (ttyOf line).input (ttyOf line).cursor =
      (line.wordLeft isWordUnit).position :=
    (closestLeftBoundary_eq line.position_le).trans (Line.position_cut hle).symm
  rw [hboundary]
  exact setCursor_ttyOf line _ (Line.text_cut _ _).symm

/-- To the nearest end of a word on the right. -/
theorem setCursor_closestRightBoundary (line : Line CodeUnit) :
    (ttyOf line).setCursor (closestRightBoundary (ttyOf line).input (ttyOf line).cursor) =
      ttyOf (line.wordRight isWordUnit) := by
  have hboundary : closestRightBoundary (ttyOf line).input (ttyOf line).cursor =
      (line.wordRight isWordUnit).position :=
    (closestRightBoundary_eq line.position_le).trans
      (Line.position_cut (wordEndAfter_le isWordUnit line.position_le)).symm
  rw [hboundary]
  exact setCursor_ttyOf line _ (Line.text_cut _ _).symm

/-- The word on the left is deleted. -/
theorem ctrlBackspace_ttyOf (line : Line CodeUnit) :
    ((ttyOf line).setInput (substring (ttyOf line).input 0
        (closestLeftBoundary (ttyOf line).input (ttyOf line).cursor) ++
          substringFrom (ttyOf line).input (ttyOf line).cursor)).setCursor
        (closestLeftBoundary (ttyOf line).input (ttyOf line).cursor) =
      ttyOf (line.deleteWord isWordUnit) := by
  have hboundary : closestLeftBoundary (ttyOf line).input (ttyOf line).cursor =
      wordStartBefore isWordUnit line.text line.position := closestLeftBoundary_eq line.position_le
  have hle := (wordStartBefore_le isWordUnit line.text line.position).trans line.position_le
  have hposition : (line.deleteWord isWordUnit).position =
      wordStartBefore isWordUnit line.text line.position := List.length_take_of_le hle
  rw [hboundary, substringFrom_cursor, ← hposition]
  have hbefore : substring (ttyOf line).input 0 (line.deleteWord isWordUnit).position =
      (line.deleteWord isWordUnit).before := by
    rw [hposition]
    exact substring_position hle
  rw [hbefore]
  exact setCursor_setInput (ttyOf line) (line.deleteWord isWordUnit)

/-- A line is replaced. -/
theorem setLine_eq (shell : Shell) (line : Line CodeUnit) (value : Units) (history : History) :
    shell.setLine value history = ⟨ttyOf (line.replace value), history⟩ := by
  have hline := setCursor_setInput shell.tty (line.replace value)
  rw [show (line.replace value).text = value from List.append_nil value] at hline
  rw [Shell.setLine]
  exact congrArg (Shell.mk · history) hline

/-- The line is deleted. -/
theorem setInput_nil_ttyOf (line : Line CodeUnit) : (ttyOf line).setInput [] = ttyOf (line.replace []) := by
  by_cases hzero : line.before = [] <;> simp [Tty.setInput, ttyOf, Line.text, Line.position, Line.replace,
    hzero, List.length_pos_iff]

/-- What is after the cursor is deleted. -/
theorem ctrlK_ttyOf (line : Line CodeUnit) :
    let tty := (ttyOf line).setInput (substring (ttyOf line).input 0 (ttyOf line).cursor)
    tty.setCursor tty.input.length = ttyOf line.deleteToEnd := by
  have hset := setCursor_setInput (ttyOf line) line.deleteToEnd
  rw [show line.deleteToEnd.text = line.before from List.append_nil _, ← substring_cursor] at hset
  have hlength : ((substring (ttyOf line).input 0 (ttyOf line).cursor).length : ℤ) =
      line.deleteToEnd.position := by
    rw [substring_cursor]
    rfl
  exact (congrArg _ hlength).trans hset

/-- What is before the cursor is deleted. -/
theorem ctrlU_ttyOf (line : Line CodeUnit) :
    ((ttyOf line).setInput (substringFrom (ttyOf line).input (ttyOf line).cursor)).setCursor 0 =
      ttyOf line.deleteToStart := by
  have hset := setCursor_setInput (ttyOf line) line.deleteToStart
  rw [show line.deleteToStart.text = line.after from rfl, ← substringFrom_cursor] at hset
  exact hset

/-- An entry of the history is not empty. -/
theorem getPrevious_ne_nil {history : History} {value : Units}
    (hvalue : history.getPrevious.1 = some value) : value ≠ [] := by
  rw [History.getPrevious, Option.ite_none_right_eq_some] at hvalue
  exact history.nonempty value (List.mem_of_getElem? hvalue.2)

end Playground.Terminal
