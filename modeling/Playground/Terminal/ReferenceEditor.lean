import Mathlib.Data.List.SplitBy
import Playground.Library.Runs
import Playground.Terminal.HistoryNavigation
import Playground.Terminal.IncompleteInput

/-!
# The reference editor

A line editor that has no input and cursor but the text before the cursor and the text after it, and that
takes nothing from the code: it says for itself which data the keys of a terminal send (`keyboard`), into
which pieces pasted text falls (`pieces`), what the letters of words are (`isLetter`), which entry of the
history a key brings back (a `Navigator`) and whether Enter goes on with the input on a new line (`goesOn`).

`handleTermData_eq_reference` proves that the input and the cursor of the shell are those of the line of
the reference editor along every sequence of data, so that the cursor is always in the input. The code's
reading of its data, its two steps of taking pasted text apart, its history and its test of the input
agree with the reference one by one on the way there.

Not formalized here: completion (TAB) and what happens to an input that is completed; `none` stands for
these two.
-/

set_option autoImplicit false
set_option relaxedAutoImplicit false

namespace Playground.Terminal

open Library

/-! ### The keys of a terminal -/

/-- The character that Ctrl and a letter type. -/
def control (letter : Char) : CodeUnit :=
  (letter.toNat - 64).toUInt16

/-- The character that Escape types, which is Ctrl and an opening bracket. -/
def escape : CodeUnit :=
  control '['

/-- The character that Backspace types. -/
def rubout : CodeUnit :=
  0x7F

/-- The data that the keys of a terminal send: the arrows, Delete, End and Home, Alt with the letters of
a move by a word, Ctrl with Backspace, and then Enter, Backspace, TAB and Ctrl with a letter. -/
def keyboard : List (Units × Key) :=
  [(escape :: units "[A", .up), (escape :: units "[B", .down), (escape :: units "[D", .left),
    (escape :: units "[C", .right), (escape :: units "[3~", .delete), (escape :: units "[F", .endKey),
    (escape :: units "[H", .home), (escape :: units "b", .altLeft), (escape :: units "f", .altRight),
    ([escape, rubout], .ctrlBackspace),
    ([control 'M'], .enter), ([rubout], .backspace), ([control 'H'], .backspace),
    ([control 'D'], .backspace), ([control 'I'], .tab), ([control 'A'], .home), ([control 'B'], .left),
    ([control 'E'], .endKey), ([control 'F'], .right), ([control 'G'], .ctrlG), ([control 'K'], .ctrlK),
    ([control 'N'], .down), ([control 'P'], .up), ([control 'U'], .ctrlU)]

/-- A character that is not printed. -/
def isControl (unit : CodeUnit) : Bool :=
  unit < 0x20 || unit = rubout

/-- A letter of a word: a digit, a letter of the Latin alphabet or a low line. -/
def isLetter (unit : CodeUnit) : Bool :=
  (0x30 ≤ unit && unit ≤ 0x39) || (0x41 ≤ unit && unit ≤ 0x5A) || unit = 0x5F || (0x61 ≤ unit && unit ≤ 0x7A)

/-! ### Pasted text -/

/-- A line end. -/
def isLineEnd (unit : CodeUnit) : Bool :=
  unit = control 'M' || unit = control 'J'

/-- The first half of a surrogate pair. -/
def isHighSurrogate (unit : CodeUnit) : Bool :=
  unit.toNat / 0x400 = 0x36

/-- The second half of a surrogate pair. -/
def isLowSurrogate (unit : CodeUnit) : Bool :=
  unit.toNat / 0x400 = 0x37

/-- Two neighbours that are in one piece of pasted text: the halves of a surrogate pair, or line ends. -/
def isJoined (first second : CodeUnit) : Bool :=
  (isHighSurrogate first && isLowSurrogate second) || (isLineEnd first && isLineEnd second)

/-- What a piece of pasted text types: line ends are one Enter, however many they are. -/
def typedPiece (piece : Units) : Units :=
  if piece.any isLineEnd then [control 'M'] else piece

/-- The pieces in which data is typed. Text of more than three units that is no escape sequence has been
pasted, and is typed one character after the other. -/
def pieces (data : Units) : List Units :=
  if 3 < data.length ∧ data.head? ≠ some escape then (data.splitBy isJoined).map typedPiece else [data]

/-! ### Enter -/

/-- A blank. -/
def isBlank (unit : CodeUnit) : Bool :=
  isSpaceChar (toChar unit)

/-- What an operator still waits for: whether nothing but blanks has come since the start or the last
operator, and whether an ampersand has just come that may be the first one of `&&`. -/
def awaiting : Bool × Bool → CodeUnit → Bool × Bool
  | (waits, ampersand), unit =>
    if unit = 0x7C then (true, false)
    else if unit = 0x26 then (ampersand, !ampersand)
    else (waits && isBlank unit, false)

/-- Enter goes on with a text on a new line: it is not blank, and an odd number of quotes of a kind is in
it, an operator waits at its end, or just one backslash is there. -/
def goesOn (text : Units) : Bool :=
  !text.all isBlank &&
    (text.count 0x27 % 2 = 1 || text.count 0x22 % 2 = 1 || (text.foldl awaiting (true, false)).1 ||
      trailingBackslashes text = 1)

/-! ### The editor -/

/-- The reference editor: a line, and the place in the history. -/
structure Editor where
  line : Line CodeUnit
  navigator : Navigator Units

namespace Editor

/-- An empty line. -/
def new (navigator : Navigator Units) : Editor where
  line := ⟨[], []⟩
  navigator := navigator

/-- What a key does to the line. -/
def press (editor : Editor) (key : Key) : Option Editor :=
  let line := editor.line
  match key with
  | .up =>
    let navigator := editor.navigator.previous
    some ⟨navigator.shown.elim line line.replace, navigator⟩
  | .down =>
    let navigator := editor.navigator.next
    some ⟨line.replace (navigator.shown.getD []), navigator⟩
  | .left => some { editor with line := line.left }
  | .right => some { editor with line := line.right }
  | .delete => some { editor with line := line.delete }
  | .endKey => some { editor with line := line.last }
  | .home => some { editor with line := line.home }
  | .altLeft => some { editor with line := line.wordLeft isLetter }
  | .altRight => some { editor with line := line.wordRight isLetter }
  | .ctrlBackspace => some { editor with line := line.deleteWord isLetter }
  | .enter => if goesOn line.text then some { editor with line := line.insert [control 'J'] } else none
  | .backspace => some { editor with line := line.backspace }
  | .tab => none
  | .ctrlG => some ⟨line.replace [], editor.navigator.previous⟩
  | .ctrlK => some { editor with line := line.deleteToEnd }
  | .ctrlU => some { editor with line := line.deleteToStart }

/-- What a piece of data does to the line: it is that of a key, it is not printed, or it is typed. -/
def handle (editor : Editor) (data : Units) : Option Editor :=
  match keyboard.lookup data with
  | some key => editor.press key
  | none => some (if data.head?.any isControl then editor else { editor with line := editor.line.insert data })

/-- What the data that arrives from the terminal does to the line. -/
def handleAll (editor : Editor) (data : Units) : Option Editor :=
  (pieces data).foldlM handle editor

end Editor

/-! ### The code reads the keys of a terminal -/

theorem escape_eq : escape = 0x1B :=
  rfl

/-- A `switch` looks its data up in its cases. -/
theorem keyOf_eq_lookup (cases : List (Units × Key)) (data : Units) : keyOf cases data = cases.lookup data := by
  induction cases with
  | nil => rfl
  | cons entry cases ih =>
    obtain ⟨units, key⟩ := entry
    rw [keyOf] at ih ⊢
    rw [List.find?_cons, List.lookup_cons]
    by_cases heq : units = data
    · simp [heq]
    · rw [decide_eq_false heq, beq_false_of_ne (Ne.symm heq)]
      exact ih

/-- The cases of the escape sequences and those of the special characters are the keys of a terminal. -/
theorem keyboard_eq :
    keyboard = escapeKeys.map (fun entry ↦ (escape :: entry.1, entry.2)) ++ specialKeys :=
  rfl

/-- A prefix makes no difference to what is looked up. -/
theorem lookup_map_cons (cases : List (Units × Key)) (first : CodeUnit) (data : Units) :
    (cases.map fun entry ↦ (first :: entry.1, entry.2)).lookup (first :: data) = cases.lookup data := by
  induction cases with
  | nil => rfl
  | cons entry cases ih =>
    rw [List.map_cons, List.lookup_cons, List.lookup_cons, ih, List.cons_beq_cons, beq_self_eq_true, Bool.true_and]

/-- What begins otherwise is not found. -/
theorem lookup_map_cons_of_ne (cases : List (Units × Key)) {first : CodeUnit} {data : Units}
    (hne : data.head? ≠ some first) :
    (cases.map fun entry ↦ (first :: entry.1, entry.2)).lookup data = none := by
  rw [List.lookup_eq_none_iff]
  intro entry hentry
  obtain ⟨other, -, rfl⟩ := List.mem_map.mp hentry
  rw [bne_iff_ne]
  rintro rfl
  exact hne rfl

/-- No special character is Escape. -/
theorem lookup_specialKeys_escape (rest : Units) : specialKeys.lookup (escape :: rest) = none := by
  rw [List.lookup_eq_none_iff]
  intro entry hentry
  have hfirst : ∀ entry ∈ specialKeys, entry.1.head? ≠ some escape := by decide
  rw [bne_iff_ne]
  intro heq
  exact hfirst entry hentry (heq ▸ rfl)

/-- Data is read as the key that sends it; other data is not known if it begins with a character that is
not printed, and typed if it does not. -/
theorem readData_eq (data : Units) :
    readData data =
      (keyboard.lookup data).elim (if data.head?.any isControl then .unknown else .typed data) .key := by
  rw [keyboard_eq, List.lookup_append]
  cases data with
  | nil => rfl
  | cons ord rest =>
    rw [readData, keyOf_eq_lookup, keyOf_eq_lookup]
    by_cases hescape : ord = escape
    · rw [hescape, lookup_map_cons, lookup_specialKeys_escape, Option.or_none, if_pos escape_eq]
      cases escapeKeys.lookup rest with
      | none => rfl
      | some key => rfl
    · rw [if_neg (escape_eq ▸ hescape), lookup_map_cons_of_ne _ (by simpa using hescape), Option.none_or]
      have hcontrol : (ord < 32 ∨ ord = 0x7F) ↔ isControl ord = true := by
        rw [isControl, Bool.or_eq_true, decide_eq_true_eq, decide_eq_true_eq]
        rfl
      by_cases hprinted : isControl ord = true
      · rw [if_pos (hcontrol.mpr hprinted), List.head?_cons, Option.any_some, if_pos hprinted]
      · rw [if_neg fun h ↦ hprinted (hcontrol.mp h), List.head?_cons, Option.any_some, if_neg hprinted]
        have hnone : specialKeys.lookup (ord :: rest) = none := by
          rw [List.lookup_eq_none_iff]
          intro entry hentry
          have hfirst : ∀ entry ∈ specialKeys, entry.1.head?.all isControl := by decide
          rw [bne_iff_ne]
          intro heq
          exact hprinted (by simpa [← heq] using hfirst entry hentry)
        rw [hnone]
        rfl

/-- A surrogate has no character, and another unit has its own. -/
theorem toNat_toChar (unit : CodeUnit) :
    (toChar unit).toNat = if unit.toNat.isValidChar then unit.toNat else 0 := by
  by_cases hvalid : unit.toNat.isValidChar
  · have hchar : toChar unit = Char.ofNatAux unit.toNat hvalid := dif_pos hvalid
    rw [if_pos hvalid, hchar]
    rfl
  · have hchar : toChar unit = '\x00' := dif_neg hvalid
    rw [if_neg hvalid, hchar]
    rfl

/-- The letters of words are the characters of `\w`. -/
theorem isLetter_eq_isWordUnit : isLetter = isWordUnit := by
  funext unit
  rw [Bool.eq_iff_iff, isWordUnit, isWordChar_iff, toNat_toChar, isLetter]
  simp only [Bool.or_eq_true, Bool.and_eq_true, decide_eq_true_eq, UInt16.le_iff_toNat_le, ← UInt16.toNat_inj]
  change ((48 ≤ unit.toNat ∧ unit.toNat ≤ 57 ∨ 65 ≤ unit.toNat ∧ unit.toNat ≤ 90) ∨ unit.toNat = 95) ∨
    97 ≤ unit.toNat ∧ unit.toNat ≤ 122 ↔ _
  split
  · omega
  · next hinvalid =>
    -- what is no character is a surrogate
    rw [Nat.isValidChar] at hinvalid
    omega

/-! ### The code takes pasted text apart -/

theorem isLineEnd_iff (unit : CodeUnit) : isLineEnd unit = true ↔ unit = 0x0D ∨ unit = 0x0A := by
  rw [isLineEnd, Bool.or_eq_true, decide_eq_true_eq, decide_eq_true_eq]
  rfl

/-- Line ends that follow another one are left out. -/
theorem normalizeNewlines_true (text : Units) :
    normalizeNewlines true text = normalizeNewlines false (text.dropWhile isLineEnd) := by
  induction text with
  | nil => rfl
  | cons unit rest ih =>
    by_cases hend : isLineEnd unit = true
    · have hcode := (isLineEnd_iff unit).mp hend
      rw [normalizeNewlines, if_pos hcode, if_pos rfl, List.dropWhile_cons_of_pos hend, ih]
    · have hcode := mt (isLineEnd_iff unit).mpr hend
      rw [List.dropWhile_cons_of_neg hend, normalizeNewlines, normalizeNewlines, if_neg hcode, if_neg hcode]

theorem isHighSurrogate_iff (unit : CodeUnit) :
    isHighSurrogate unit = true ↔ 0xD800 ≤ unit ∧ unit ≤ 0xDBFF := by
  rw [isHighSurrogate, decide_eq_true_eq, UInt16.le_iff_toNat_le, UInt16.le_iff_toNat_le]
  have hlow : (0xD800 : CodeUnit).toNat = 0xD800 := rfl
  have hhigh : (0xDBFF : CodeUnit).toNat = 0xDBFF := rfl
  omega

theorem isLowSurrogate_iff (unit : CodeUnit) :
    isLowSurrogate unit = true ↔ 0xDC00 ≤ unit ∧ unit ≤ 0xDFFF := by
  rw [isLowSurrogate, decide_eq_true_eq, UInt16.le_iff_toNat_le, UInt16.le_iff_toNat_le]
  have hlow : (0xDC00 : CodeUnit).toNat = 0xDC00 := rfl
  have hhigh : (0xDFFF : CodeUnit).toNat = 0xDFFF := rfl
  omega

/-- The halves of a surrogate pair are one code point. -/
theorem codePoints_pair {first second : CodeUnit} (hfirst : isHighSurrogate first = true)
    (hsecond : isLowSurrogate second = true) (rest : Units) :
    codePoints (first :: second :: rest) = [first, second] :: codePoints rest := by
  obtain ⟨hle, hge⟩ := (isHighSurrogate_iff first).mp hfirst
  rw [codePoints, if_pos ⟨hle, hge, (isLowSurrogate_iff second).mp hsecond⟩]

/-- A unit that is not the first half of a surrogate pair is a code point. -/
theorem codePoints_cons {first : CodeUnit} {rest : Units}
    (hpair : ¬ (isHighSurrogate first = true ∧ ∃ second ∈ rest.head?, isLowSurrogate second = true)) :
    codePoints (first :: rest) = [first] :: codePoints rest := by
  cases rest with
  | nil => rfl
  | cons second rest =>
    rw [codePoints, if_neg]
    rintro ⟨hle, hge, hsecond⟩
    exact hpair ⟨(isHighSurrogate_iff first).mpr ⟨hle, hge⟩, second, rfl, (isLowSurrogate_iff second).mpr hsecond⟩

/-- A line end is no surrogate. -/
theorem not_isHighSurrogate_of_isLineEnd {unit : CodeUnit} (hend : isLineEnd unit = true) :
    isHighSurrogate unit = false := by
  rcases (isLineEnd_iff unit).mp hend with rfl | rfl
  · rfl
  · rfl

theorem not_isLineEnd_of_isLowSurrogate {unit : CodeUnit} (hlow : isLowSurrogate unit = true) :
    isLineEnd unit = false := by
  by_contra hend
  rcases (isLineEnd_iff unit).mp (Bool.not_eq_false _ ▸ hend) with rfl | rfl
  · cases hlow
  · cases hlow

/-- The second half of a surrogate pair is not the first half of one. -/
theorem not_isHighSurrogate_of_isLowSurrogate {unit : CodeUnit} (hlow : isLowSurrogate unit = true) :
    isHighSurrogate unit = false := by
  rw [isLowSurrogate, decide_eq_true_eq] at hlow
  rw [isHighSurrogate, hlow]
  rfl

/-- The line ends at the front of pasted text are one piece. -/
theorem splitBy_lineEnds {first : CodeUnit} {rest : Units} (hfirst : isLineEnd first = true) :
    (first :: rest).splitBy isJoined =
      (first :: rest.takeWhile isLineEnd) :: (rest.dropWhile isLineEnd).splitBy isJoined := by
  have hends : ∀ unit ∈ first :: rest.takeWhile isLineEnd, isLineEnd unit = true :=
    List.forall_mem_cons.mpr ⟨hfirst, fun unit hunit ↦ List.mem_takeWhile_imp hunit⟩
  have hchain : (first :: rest.takeWhile isLineEnd).IsChain fun one other ↦ isJoined one other = true := by
    refine (List.pairwise_of_forall_mem_list fun one hone other hother ↦ ?_).isChain
    simp [isJoined, hends one hone, hends other hother]
  have happend := @List.splitBy_append _ isJoined (first :: rest.takeWhile isLineEnd)
    (rest.dropWhile isLineEnd) fun last hlast next hnext ↦ by
      have hend := hends last (List.mem_of_getLast? hlast)
      have hother : isLineEnd next = false := by
        have hnot := List.head?_dropWhile_not isLineEnd rest
        rw [Option.mem_def.mp hnext] at hnot
        exact hnot
      rw [isJoined, not_isHighSurrogate_of_isLineEnd hend, hother, Bool.false_and, Bool.and_false]
      rfl
  rw [List.splitBy_of_isChain (List.cons_ne_nil _ _) hchain, List.cons_append,
    List.takeWhile_append_dropWhile] at happend
  exact happend

/-- A surrogate pair at the front of pasted text is one piece. -/
theorem splitBy_pair {first second : CodeUnit} (hfirst : isHighSurrogate first = true)
    (hsecond : isLowSurrogate second = true) (rest : Units) :
    (first :: second :: rest).splitBy isJoined = [first, second] :: rest.splitBy isJoined := by
  have hchain : [first, second].IsChain fun one other ↦ isJoined one other = true := by
    simp [isJoined, hfirst, hsecond]
  have happend := @List.splitBy_append _ isJoined [first, second] rest fun last hlast next _ ↦ by
    obtain rfl : second = last := Option.some.inj hlast
    rw [isJoined, not_isHighSurrogate_of_isLowSurrogate hsecond, not_isLineEnd_of_isLowSurrogate hsecond,
      Bool.false_and, Bool.false_and]
    rfl
  rwa [List.splitBy_of_isChain (List.cons_ne_nil _ _) hchain] at happend

/-- A character that is not joined with the next one is a piece. -/
theorem splitBy_single {first : CodeUnit} {rest : Units}
    (hnot : ∀ second ∈ rest.head?, isJoined first second = false) :
    (first :: rest).splitBy isJoined = [first] :: rest.splitBy isJoined :=
  @List.splitBy_append _ isJoined [first] rest fun last hlast next hnext ↦ by
    obtain rfl := Option.some.inj hlast
    exact hnot next hnext

/-- Taking out line ends makes no other first character. -/
theorem head?_normalizeNewlines (text : Units) {unit : CodeUnit} (hend : isLineEnd unit = false)
    (hunit : unit ∈ (normalizeNewlines false text).head?) : unit ∈ text.head? := by
  cases text with
  | nil => exact hunit
  | cons first rest =>
    by_cases hfirst : first = 0x0D ∨ first = 0x0A
    · rw [normalizeNewlines, if_pos hfirst, if_neg Bool.false_ne_true] at hunit
      obtain rfl := Option.some.inj hunit
      cases hend
    · rwa [normalizeNewlines, if_neg hfirst] at hunit

/-- Pasted text falls into the pieces of the reference. -/
theorem codePoints_normalizeNewlines (text : Units) :
    codePoints (normalizeNewlines false text) = (text.splitBy isJoined).map typedPiece := by
  obtain ⟨bound, hbound⟩ : ∃ bound, text.length ≤ bound := ⟨_, le_rfl⟩
  induction bound generalizing text with
  | zero =>
    obtain rfl := List.length_eq_zero_iff.mp (Nat.le_zero.mp hbound)
    rfl
  | succ bound ih =>
    cases text with
    | nil => rfl
    | cons first rest =>
    have hrest : rest.length ≤ bound := Nat.le_of_succ_le_succ hbound
    by_cases hend : isLineEnd first = true
    · have htyped : typedPiece (first :: rest.takeWhile isLineEnd) = [control 'M'] := by
        simp [typedPiece, hend]
      rw [normalizeNewlines, if_pos ((isLineEnd_iff first).mp hend), if_neg Bool.false_ne_true,
        normalizeNewlines_true, codePoints_cons (by rintro ⟨⟨⟩, -⟩), splitBy_lineEnds hend, List.map_cons, htyped,
        ih _ ((List.length_dropWhile_le _ _).trans hrest)]
      rfl
    have htyped : typedPiece [first] = [first] := by simp [typedPiece, hend]
    rw [normalizeNewlines, if_neg (mt (isLineEnd_iff first).mpr hend)]
    by_cases hpair : isHighSurrogate first = true ∧ ∃ second ∈ rest.head?, isLowSurrogate second = true
    · obtain ⟨hfirst, second, hhead, hsecond⟩ := hpair
      obtain ⟨after, rfl⟩ := List.head?_eq_some_iff.mp hhead
      have hother := not_isLineEnd_of_isLowSurrogate hsecond
      rw [normalizeNewlines, if_neg (mt (isLineEnd_iff second).mpr (Bool.eq_false_iff.mp hother)),
        codePoints_pair hfirst hsecond, splitBy_pair hfirst hsecond, List.map_cons,
        ih after ((Nat.le_succ _).trans hrest)]
      simp [typedPiece, hend, hother]
    · have hcode : ¬ (isHighSurrogate first = true ∧
          ∃ second ∈ (normalizeNewlines false rest).head?, isLowSurrogate second = true) := by
        rintro ⟨hfirst, second, hsecond, hlow⟩
        exact hpair ⟨hfirst, second,
          head?_normalizeNewlines rest (not_isLineEnd_of_isLowSurrogate hlow) hsecond, hlow⟩
      have hjoined : ∀ second ∈ rest.head?, isJoined first second = false := by
        intro second hsecond
        rw [isJoined, Bool.eq_false_iff.mpr hend, Bool.false_and, Bool.or_false, Bool.and_eq_false_iff]
        by_contra hnot
        rw [not_or, Bool.not_eq_false, Bool.not_eq_false] at hnot
        exact hpair ⟨hnot.1, second, hsecond, hnot.2⟩
      rw [codePoints_cons hcode, splitBy_single hjoined, List.map_cons, htyped, ih rest hrest]

/-- The code takes data apart as the reference does. -/
theorem expand_eq_pieces (data : Units) : expand data = pieces data := by
  rw [expand, pieces, codePoints_normalizeNewlines]
  rfl

/-! ### The code tests the input -/

theorem trimUnits_eq_nil_iff (text : Units) : trimUnits text = [] ↔ text.all isBlank = true := by
  rw [trimUnits, List.reverse_eq_nil_iff, List.dropWhile_eq_nil_iff, List.all_eq_true]
  constructor
  · intro hall unit hunit
    by_contra hblank
    have hkept : text.dropWhile (fun unit ↦ isSpaceChar (toChar unit)) ≠ [] :=
      fun hnil ↦ hblank (List.dropWhile_eq_nil_iff.mp hnil unit hunit)
    have hhead := List.head_dropWhile_not (fun unit ↦ isSpaceChar (toChar unit)) hkept
    rw [hall _ (List.mem_reverse.mpr (List.head_mem hkept))] at hhead
    cases hhead
  · intro hall unit hunit
    exact hall unit ((List.dropWhile_sublist _).subset (List.mem_reverse.mp hunit))

/-- One more character, if it is neither a bar nor an ampersand. -/
theorem awaiting_other (state : Bool × Bool) {unit : CodeUnit} (hbar : unit ≠ 0x7C) (hampersand : unit ≠ 0x26) :
    awaiting state unit = (state.1 && isBlank unit, false) := by
  rw [awaiting, if_neg hbar, if_neg hampersand]

/-- Whether an ampersand has just come makes a difference to another ampersand only. -/
theorem awaiting_of_ne (waits ampersand : Bool) {unit : CodeUnit} (hampersand : unit ≠ 0x26) :
    awaiting (waits, ampersand) unit = awaiting (waits, false) unit := by
  by_cases hbar : unit = 0x7C
  · rw [awaiting, awaiting, if_pos hbar, if_pos hbar]
  · rw [awaiting_other _ hbar hampersand, awaiting_other _ hbar hampersand]

/-- The text after the last operator is blank exactly if an operator, or the start, still waits. -/
theorem lastPart_blank (part text : Units) :
    (lastPart part text).all isBlank = (text.foldl awaiting (part.all isBlank, false)).1 := by
  have hampersand : ∀ part : Units, (part ++ [0x26]).all isBlank = false := fun part ↦ by
    rw [List.all_append]
    exact Bool.and_false _
  fun_induction lastPart part text with
  | case1 part => rfl
  | case2 part => rfl
  | case3 part unit hbar =>
    by_cases hunit : unit = 0x26
    · rw [hunit, hampersand]
      rfl
    · rw [List.foldl_cons, awaiting_other _ hbar hunit, List.all_append, List.foldl_nil]
      simp
  | case4 part rest ih => exact ih
  | case5 part second rest hbar ih => exact ih
  | case6 part first second rest hbar hboth ih =>
    obtain ⟨rfl, rfl⟩ := hboth
    exact ih
  | case7 part first second rest hbar hboth ih =>
    rw [ih, List.foldl_cons, List.foldl_cons, List.foldl_cons]
    by_cases hfirst : first = 0x26
    · have hsecond : second ≠ 0x26 := fun heq ↦ hboth ⟨hfirst, heq⟩
      rw [hfirst, hampersand, ← awaiting_of_ne false true hsecond]
      rfl
    · rw [awaiting_other _ hbar hfirst, List.all_append]
      simp

/-- The code goes on with an input on a new line exactly if the reference does. -/
theorem isIncompleteInput_eq_goesOn (input : Units) : isIncompleteInput input = goesOn input := by
  rw [goesOn]
  by_cases hblank : trimUnits input = []
  · rw [isIncompleteInput, if_pos hblank, (trimUnits_eq_nil_iff input).mp hblank]
    rfl
  · have hends : EndsBlank input ↔ (input.foldl awaiting (true, false)).1 = true := by
      rw [EndsBlank, trimUnits_eq_nil_iff, lastPart_blank]
      rfl
    rw [Bool.eq_false_iff.mpr (mt (trimUnits_eq_nil_iff input).mpr hblank), Bool.not_false, Bool.true_and,
      Bool.eq_iff_iff, isIncompleteInput_eq_true hblank, hends]
    simp only [Bool.or_eq_true, decide_eq_true_eq, or_assoc]

/-! ### The shell and the reference editor -/

/-- A shell shows what an editor holds: its input and its cursor show the line, and its history stands
where the navigator of the editor does. -/
structure Shows (shell : Shell) (editor : Editor) : Prop where
  tty : shell.tty = ttyOf editor.line
  history : shell.history.StandsAt editor.navigator

/-- A new line is shown. -/
theorem Shows.withLine {shell : Shell} {editor : Editor} (hshows : Shows shell editor) {tty : Tty}
    {line : Line CodeUnit} (htty : tty = ttyOf line) :
    Option.Rel Shows (some { shell with tty := tty }) (some { editor with line := line }) :=
  .some ⟨htty, hshows.history⟩

/-- Every key does to the input and the cursor what it does to the line. -/
theorem Shows.handleKey {shell : Shell} {editor : Editor} (hshows : Shows shell editor) (key : Key) :
    Option.Rel Shows (handleKey shell key) (editor.press key) := by
  obtain ⟨tty, history⟩ := shell
  obtain rfl : tty = ttyOf editor.line := hshows.tty
  obtain ⟨hprevious, hback⟩ := hshows.history.previous
  obtain ⟨hnext, hforth⟩ := hshows.history.next
  dsimp only at hprevious hback hnext hforth
  cases key with
  | up =>
    rw [Terminal.handleKey, Editor.press]
    dsimp only
    rw [← hprevious]
    cases hvalue : history.getPrevious.1 with
    | none => exact .some ⟨rfl, hback⟩
    | some value =>
      obtain ⟨unit, rest, rfl⟩ := List.exists_cons_of_ne_nil (getPrevious_ne_nil hvalue)
      dsimp only
      rw [setLine_eq _ editor.line]
      exact .some ⟨rfl, hback⟩
  | down =>
    rw [Terminal.handleKey, Editor.press]
    dsimp only
    rw [← hnext, setLine_eq _ editor.line]
    exact .some ⟨rfl, hforth⟩
  | left => exact hshows.withLine (handleCursorMove_left_ttyOf editor.line)
  | right => exact hshows.withLine (handleCursorMove_right_ttyOf editor.line)
  | delete => exact hshows.withLine (handleCursorErase_false_ttyOf editor.line)
  | backspace => exact hshows.withLine (handleCursorErase_true_ttyOf editor.line)
  | endKey => exact hshows.withLine (setCursor_ttyOf editor.line editor.line.last (List.append_nil _).symm)
  | home => exact hshows.withLine (setCursor_ttyOf editor.line editor.line.home rfl)
  | altLeft =>
    rw [Editor.press, isLetter_eq_isWordUnit]
    exact hshows.withLine (setCursor_closestLeftBoundary editor.line)
  | altRight =>
    rw [Editor.press, isLetter_eq_isWordUnit]
    exact hshows.withLine (setCursor_closestRightBoundary editor.line)
  | ctrlBackspace =>
    rw [Editor.press, isLetter_eq_isWordUnit]
    exact hshows.withLine (ctrlBackspace_ttyOf editor.line)
  | enter =>
    rw [Terminal.handleKey, Editor.press]
    dsimp only
    rw [show (ttyOf editor.line).input = editor.line.text from rfl, isIncompleteInput_eq_goesOn]
    split
    · exact hshows.withLine (handleCursorInsert_ttyOf editor.line [0x0A])
    · exact .none
  | tab => exact .none
  | ctrlG => exact .some ⟨setInput_nil_ttyOf editor.line, hback⟩
  | ctrlK => exact hshows.withLine (ctrlK_ttyOf editor.line)
  | ctrlU => exact hshows.withLine (ctrlU_ttyOf editor.line)

/-- A piece of data does to the input and the cursor what it does to the line. -/
theorem Shows.handleData {shell : Shell} {editor : Editor} (hshows : Shows shell editor) (data : Units) :
    Option.Rel Shows (handleData shell data) (editor.handle data) := by
  rw [Terminal.handleData, Editor.handle, readData_eq]
  cases keyboard.lookup data with
  | some key => exact hshows.handleKey key
  | none =>
    rw [Option.elim_none]
    by_cases hcontrol : data.head?.any isControl = true
    · rw [if_pos hcontrol]
      exact .some (by rw [if_pos hcontrol]; exact hshows)
    · obtain ⟨tty, history⟩ := shell
      obtain rfl : tty = ttyOf editor.line := hshows.tty
      rw [if_neg hcontrol]
      exact .some (by rw [if_neg hcontrol]; exact ⟨handleCursorInsert_ttyOf editor.line data, hshows.history⟩)

/-- What arrives from the terminal does to the input and the cursor what it does to the line. -/
theorem Shows.handleTermData {shell : Shell} {editor : Editor} (hshows : Shows shell editor) (data : Units) :
    Option.Rel Shows (handleTermData shell data) (editor.handleAll data) := by
  rw [Terminal.handleTermData, Editor.handleAll, expand_eq_pieces]
  exact foldlM_rel (fun piece _ _ hpiece ↦ hpiece.handleData piece) (pieces data) hshows

/-- Along every sequence of data that arrives while the prompt is active, the input and the cursor are
those of the line that the reference editor has, and so the cursor is in the input. -/
theorem handleTermData_eq_reference (history : History) (chunks : List Units) :
    (chunks.foldlM handleTermData (prompted history)).map Shell.tty =
        (chunks.foldlM Editor.handleAll (Editor.new history.navigator)).map (fun editor ↦ ttyOf editor.line) ∧
      ∀ shell, chunks.foldlM handleTermData (prompted history) = some shell →
        0 ≤ shell.tty.cursor ∧ shell.tty.cursor ≤ shell.tty.input.length := by
  have hstart : Shows (prompted history) (Editor.new history.navigator) := ⟨rfl, history.standsAt_navigator⟩
  have hall := foldlM_rel (fun data _ _ hshows ↦ Shows.handleTermData hshows data) chunks hstart
  generalize chunks.foldlM handleTermData (prompted history) = shells at hall ⊢
  generalize chunks.foldlM Editor.handleAll (Editor.new history.navigator) = editors at hall ⊢
  cases hall with
  | none => exact ⟨rfl, fun shell hshell ↦ absurd hshell (Option.some_ne_none shell).symm⟩
  | @some shell editor hshows =>
    refine ⟨congrArg some hshows.tty, fun other hother ↦ ?_⟩
    obtain rfl := Option.some.inj hother
    rw [hshows.tty]
    exact ⟨Int.natCast_nonneg _, Int.ofNat_le.mpr editor.line.position_le⟩

/-- The last entry of the history is taken, something is typed before its only word, two lines are pasted at
the end, the first of which ends with an operator, and the cursor goes two to the left. -/
def session : List Units :=
  [units "\x1b[A", units "\x1bb", units "re", units "\x1b[F", units " --all |\r\ntee out", [0x02], [0x02]]

/-- The input and the cursor after this session, which the reference editor has, too. -/
theorem handleTermData_eq_reference_session :
    ∃ shell, session.foldlM handleTermData (prompted ((History.empty 30).push (units "build"))) = some shell ∧
      shell.tty = ⟨units "rebuild --all |\ntee out", 21⟩ ∧
      (session.foldlM Editor.handleAll
          (Editor.new ((History.empty 30).push (units "build")).navigator)).map (fun editor ↦ ttyOf editor.line) =
        some shell.tty ∧
      0 ≤ shell.tty.cursor ∧ shell.tty.cursor ≤ shell.tty.input.length := by
  have hrun : (session.foldlM handleTermData (prompted ((History.empty 30).push (units "build")))).map Shell.tty =
      some ⟨units "rebuild --all |\ntee out", 21⟩ := by
    decide +kernel
  obtain ⟨hsame, hinside⟩ := handleTermData_eq_reference ((History.empty 30).push (units "build")) session
  obtain ⟨shell, hshell, htty⟩ := Option.map_eq_some_iff.mp hrun
  refine ⟨shell, hshell, htty, ?_, hinside shell hshell⟩
  rw [← hsame, hshell]
  rfl

end Playground.Terminal
