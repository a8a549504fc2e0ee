import Playground.Library.Double
import Playground.Library.ParseInt

/-!
# Reading JSON

`JSON.parse`, which also reads what `Json.print` does not make: blanks between the tokens, numbers with a
sign, a fraction or an exponent, and all escapes of characters. A number is kept as it was written
(`NumberLiteral`); `NumberLiteral.value` is the number it stands for before it is rounded.

The reader is given fuel. Any fuel above twice the length of the text comes to the same (`readValue_fuel`),
because every part that is read makes the text shorter. `parseInt` finds no number in a text that is read as
a string or an array, and in one that is read as a number the digits before the point
(`parseInt_of_readNumber`).

Not formalized here: escaped surrogates, and which of two members with the same key is kept.
-/

set_option autoImplicit false
set_option relaxedAutoImplicit false

namespace Playground.Library.JsonText

/-! ### Tokens -/

/-- A number as it was written: its sign, the digits before and behind the point, and the exponent. -/
structure NumberLiteral where
  negative : Bool
  digits : Str
  fraction : Str
  exponent : ℤ

/-- The number that a literal stands for. -/
def NumberLiteral.value (literal : NumberLiteral) : ℚ :=
  signed literal.negative (Json.readDigits (literal.digits ++ literal.fraction)) *
    10 ^ (literal.exponent - literal.fraction.length)

/-- The digits before the point, with the sign. -/
def NumberLiteral.integerPart (literal : NumberLiteral) : ℤ :=
  signed literal.negative (Json.readDigits literal.digits)

/-- The blanks that are allowed between tokens. -/
def isBlank (char : Char) : Bool :=
  char = ' ' || char = '\t' || char = '\n' || char = '\r'

/-- What follows the blanks at the beginning of a text. -/
def skipBlanks (text : Str) : Str :=
  text.dropWhile isBlank

/-- The digits behind a point, if there is one. -/
def readFraction : Str → Option (Str × Str)
  | '.' :: rest =>
    if rest.takeWhile Char.isDigit = [] then none
    else some (rest.takeWhile Char.isDigit, rest.dropWhile Char.isDigit)
  | text => some ([], text)

/-- The exponent, if there is one. -/
def readExponent : Str → Option (ℤ × Str)
  | char :: rest =>
    if char = 'e' ∨ char = 'E' then
      if (readSign rest).2.takeWhile Char.isDigit = [] then none
      else some (signed (readSign rest).1 (Json.readDigits ((readSign rest).2.takeWhile Char.isDigit)),
        (readSign rest).2.dropWhile Char.isDigit)
    else some (0, char :: rest)
  | [] => some (0, [])

/-- A minus sign, and what follows it. -/
def readMinus : Str → Bool × Str
  | '-' :: rest => (true, rest)
  | text => (false, text)

/-- A number. Its digits do not begin with a zero unless that is the only one. -/
def readNumber (text : Str) : Option (NumberLiteral × Str) :=
  let negative := (readMinus text).1
  let digits := (readMinus text).2.takeWhile Char.isDigit
  if digits = [] ∨ (digits.head? = some '0' ∧ digits ≠ ['0']) then none
  else do
    let (fraction, rest) ← readFraction ((readMinus text).2.dropWhile Char.isDigit)
    let (exponent, rest) ← readExponent rest
    some ({ negative, digits, fraction, exponent }, rest)

/-- The character of a short escape. -/
def unescape (char : Char) : Option Char :=
  if char = '"' ∨ char = '\\' ∨ char = '/' then some char
  else if char = 'b' then some (Char.ofNat 8)
  else if char = 'f' then some (Char.ofNat 12)
  else if char = 'n' then some '\n'
  else if char = 'r' then some '\r'
  else if char = 't' then some '\t'
  else none

/-- A string behind its opening quote. -/
def readString : Str → Option (Str × Str)
  | '"' :: rest => some ([], rest)
  | '\\' :: 'u' :: a :: b :: c :: d :: rest =>
    if [a, b, c, d].all isHexDigit then
      (readString rest).map fun read ↦ (Char.ofNat (readHexDigits [a, b, c, d]) :: read.1, read.2)
    else none
  | '\\' :: char :: rest => do
    let char ← unescape char
    let (value, rest) ← readString rest
    some (char :: value, rest)
  | char :: rest =>
    if char.toNat < 32 then none
    else (readString rest).map fun read ↦ (char :: read.1, read.2)
  | [] => none

/-! ### Values -/

/-- A value as it was written. -/
inductive JsonTree
  | null
  | boolean (value : Bool)
  | number (literal : NumberLiteral)
  | string (value : Str)
  | array (elements : List JsonTree)
  | object (members : List (Str × JsonTree))

/-- A key with its colon, behind the opening quote. -/
def readKey (text : Str) : Option (Str × Str) := do
  let (key, rest) ← readString text
  match skipBlanks rest with
  | ':' :: rest => some (key, rest)
  | _ => none

mutual

/-- Read a value. -/
def readValue : ℕ → Str → Option (JsonTree × Str)
  | 0, _ => none
  | fuel + 1, text =>
    match skipBlanks text with
    | 'n' :: 'u' :: 'l' :: 'l' :: rest => some (.null, rest)
    | 't' :: 'r' :: 'u' :: 'e' :: rest => some (.boolean true, rest)
    | 'f' :: 'a' :: 'l' :: 's' :: 'e' :: rest => some (.boolean false, rest)
    | '"' :: rest => (readString rest).map fun read ↦ (.string read.1, read.2)
    | '[' :: rest => (readArray fuel rest).map fun read ↦ (.array read.1, read.2)
    | '{' :: rest => (readObject fuel rest).map fun read ↦ (.object read.1, read.2)
    | text => (readNumber text).map fun read ↦ (.number read.1, read.2)

/-- Read the elements of an array behind its opening bracket. -/
def readArray : ℕ → Str → Option (List JsonTree × Str)
  | 0, _ => none
  | fuel + 1, text =>
    match skipBlanks text with
    | ']' :: rest => some ([], rest)
    | text => do
      let (first, rest) ← readValue fuel text
      let (others, rest) ← readElements fuel rest
      some (first :: others, rest)

/-- Read the elements behind the first one. -/
def readElements : ℕ → Str → Option (List JsonTree × Str)
  | 0, _ => none
  | fuel + 1, text =>
    match skipBlanks text with
    | ']' :: rest => some ([], rest)
    | ',' :: rest => do
      let (next, rest) ← readValue fuel rest
      let (others, rest) ← readElements fuel rest
      some (next :: others, rest)
    | _ => none

/-- Read the members of an object behind its opening brace. -/
def readObject : ℕ → Str → Option (List (Str × JsonTree) × Str)
  | 0, _ => none
  | fuel + 1, text =>
    match skipBlanks text with
    | '}' :: rest => some ([], rest)
    | '"' :: rest => do
      let (key, rest) ← readKey rest
      let (first, rest) ← readValue fuel rest
      let (others, rest) ← readMembers fuel rest
      some ((key, first) :: others, rest)
    | _ => none

/-- Read the members behind the first one. -/
def readMembers : ℕ → Str → Option (List (Str × JsonTree) × Str)
  | 0, _ => none
  | fuel + 1, text =>
    match skipBlanks text with
    | '}' :: rest => some ([], rest)
    | ',' :: rest =>
      match skipBlanks rest with
      | '"' :: rest => do
        let (key, rest) ← readKey rest
        let (next, rest) ← readValue fuel rest
        let (others, rest) ← readMembers fuel rest
        some ((key, next) :: others, rest)
      | _ => none
    | _ => none

end

/-- `JSON.parse`: a text that is one value and nothing else. -/
def parse (text : Str) : Option JsonTree :=
  match readValue (2 * text.length + 1) text with
  | some (value, rest) => if skipBlanks rest = [] then some value else none
  | none => none

/-! ### What is read makes the text shorter -/

section Lengths

variable {fuel : ℕ} {text rest : Str}

theorem length_skipBlanks_le (text : Str) : (skipBlanks text).length ≤ text.length :=
  List.length_dropWhile_le _ _

theorem length_readFraction_le {fraction : Str} (hread : readFraction text = some (fraction, rest)) :
    rest.length ≤ text.length := by
  unfold readFraction at hread
  split at hread
  · next digits =>
    split at hread
    · cases hread
    · obtain ⟨-, rfl⟩ := Prod.mk.inj (Option.some.inj hread)
      exact (List.length_dropWhile_le _ _).trans (Nat.le_succ _)
  · obtain ⟨-, rfl⟩ := Prod.mk.inj (Option.some.inj hread)
    exact le_rfl

theorem length_readSign_le (text : Str) : (readSign text).2.length ≤ text.length := by
  unfold readSign
  split <;> simp

theorem length_readExponent_le {exponent : ℤ} (hread : readExponent text = some (exponent, rest)) :
    rest.length ≤ text.length := by
  unfold readExponent at hread
  split at hread
  · next char tail =>
    split at hread
    · split at hread
      · cases hread
      · obtain ⟨-, rfl⟩ := Prod.mk.inj (Option.some.inj hread)
        have hdrop := List.length_dropWhile_le Char.isDigit (readSign tail).2
        have hsign := length_readSign_le tail
        rw [List.length_cons]
        omega
    · obtain ⟨-, rfl⟩ := Prod.mk.inj (Option.some.inj hread)
      exact le_rfl
  · obtain ⟨-, rfl⟩ := Prod.mk.inj (Option.some.inj hread)
    exact le_rfl

theorem length_readMinus_le (text : Str) : (readMinus text).2.length ≤ text.length := by
  unfold readMinus
  split <;> simp

/-- The parts of a number that has been read. -/
theorem readNumber_eq_some {literal : NumberLiteral} (hread : readNumber text = some (literal, rest)) :
    literal.negative = (readMinus text).1 ∧
      literal.digits = (readMinus text).2.takeWhile Char.isDigit ∧ literal.digits ≠ [] ∧
      (literal.digits.head? = some '0' → literal.digits = ['0']) ∧
      ∃ middle, readFraction ((readMinus text).2.dropWhile Char.isDigit) =
          some (literal.fraction, middle) ∧
        readExponent middle = some (literal.exponent, rest) := by
  unfold readNumber at hread
  simp only at hread
  split at hread
  · cases hread
  · next hdigits =>
    rw [not_or, not_and, not_ne_iff] at hdigits
    obtain ⟨⟨fraction, middle⟩, hfraction, hread⟩ := Option.bind_eq_some_iff.mp hread
    obtain ⟨⟨exponent, after⟩, hexponent, hread⟩ := Option.bind_eq_some_iff.mp hread
    obtain ⟨rfl, rfl⟩ := Prod.mk.inj (Option.some.inj hread)
    exact ⟨rfl, rfl, hdigits.1, hdigits.2, middle, hfraction, hexponent⟩

theorem length_readNumber_lt {literal : NumberLiteral}
    (hread : readNumber text = some (literal, rest)) : rest.length < text.length := by
  obtain ⟨-, hdigits, hnonempty, -, middle, hfraction, hexponent⟩ := readNumber_eq_some hread
  have hminus := length_readMinus_le text
  have hsplit := congrArg List.length
    (List.takeWhile_append_dropWhile (p := Char.isDigit) (l := (readMinus text).2))
  rw [List.length_append, ← hdigits] at hsplit
  have hpos := List.length_pos_iff.mpr hnonempty
  have hmiddle := length_readFraction_le hfraction
  have hrest := length_readExponent_le hexponent
  omega

theorem length_readString_lt {value : Str} (hread : readString text = some (value, rest)) :
    rest.length < text.length := by
  induction text using readString.induct generalizing value rest with
  | case1 tail =>
    obtain ⟨-, rfl⟩ := Prod.mk.inj (Option.some.inj hread)
    exact Nat.lt_succ_self _
  | case2 a b c d tail hhex ih =>
    rw [readString, if_pos hhex] at hread
    obtain ⟨⟨read, after⟩, hsome, hread⟩ := Option.map_eq_some_iff.mp hread
    obtain ⟨-, rfl⟩ := Prod.mk.inj hread
    have hlt := ih hsome
    simp only [List.length_cons]
    omega
  | case3 a b c d tail hhex =>
    rw [readString, if_neg hhex] at hread
    cases hread
  | case4 char tail hother ih =>
    rw [readString] at hread
    · obtain ⟨unescaped, -, hread⟩ := Option.bind_eq_some_iff.mp hread
      obtain ⟨⟨read, after⟩, hsome, hread⟩ := Option.bind_eq_some_iff.mp hread
      obtain ⟨-, rfl⟩ := Prod.mk.inj (Option.some.inj hread)
      have hlt := ih hsome
      simp only [List.length_cons]
      omega
    · exact hother
  | case5 char tail hquote hhex hescape hcontrol =>
    rw [readString, if_pos hcontrol] at hread
    · cases hread
    all_goals assumption
  | case6 char tail hquote hhex hescape hcontrol ih =>
    rw [readString, if_neg hcontrol] at hread
    · obtain ⟨⟨read, after⟩, hsome, hread⟩ := Option.map_eq_some_iff.mp hread
      obtain ⟨-, rfl⟩ := Prod.mk.inj hread
      exact (ih hsome).trans (Nat.lt_succ_self _)
    all_goals assumption
  | case7 => cases hread

theorem length_readKey_lt {key : Str} (hread : readKey text = some (key, rest)) :
    rest.length < text.length := by
  obtain ⟨⟨read, after⟩, hstring, hread⟩ := Option.bind_eq_some_iff.mp hread
  have hlt := length_readString_lt hstring
  simp only at hread
  split at hread
  · next colon hcolon =>
    obtain ⟨-, rfl⟩ := Prod.mk.inj (Option.some.inj hread)
    have hblanks := length_skipBlanks_le after
    rw [hcolon, List.length_cons] at hblanks
    omega
  · cases hread

/-- With some fuel, whatever is read makes the text shorter. -/
structure Shrinks (fuel : ℕ) : Prop where
  value : ∀ {text rest : Str} {value}, readValue fuel text = some (value, rest) →
    rest.length < text.length
  array : ∀ {text rest : Str} {elements}, readArray fuel text = some (elements, rest) →
    rest.length < text.length
  elements : ∀ {text rest : Str} {elements}, readElements fuel text = some (elements, rest) →
    rest.length < text.length
  object : ∀ {text rest : Str} {members}, readObject fuel text = some (members, rest) →
    rest.length < text.length
  members : ∀ {text rest : Str} {members}, readMembers fuel text = some (members, rest) →
    rest.length < text.length

/-- What follows a character behind blanks is shorter. -/
theorem length_lt_of_skipBlanks {char : Char} (htext : skipBlanks text = char :: rest) :
    rest.length < text.length := by
  have hblanks := length_skipBlanks_le text
  rw [htext, List.length_cons] at hblanks
  omega

theorem Shrinks.readValue_succ (ih : Shrinks fuel) {value : JsonTree}
    (hread : readValue (fuel + 1) text = some (value, rest)) : rest.length < text.length := by
  have hblanks := length_skipBlanks_le text
  rw [readValue] at hread
  split at hread
  · next tail htext =>
    obtain ⟨-, rfl⟩ := Prod.mk.inj (Option.some.inj hread)
    simp only [htext, List.length_cons] at hblanks
    omega
  · next tail htext =>
    obtain ⟨-, rfl⟩ := Prod.mk.inj (Option.some.inj hread)
    simp only [htext, List.length_cons] at hblanks
    omega
  · next tail htext =>
    obtain ⟨-, rfl⟩ := Prod.mk.inj (Option.some.inj hread)
    simp only [htext, List.length_cons] at hblanks
    omega
  · next tail htext =>
    obtain ⟨⟨string, after⟩, hstring, hread⟩ := Option.map_eq_some_iff.mp hread
    obtain ⟨-, rfl⟩ := Prod.mk.inj hread
    exact (length_readString_lt hstring).trans (length_lt_of_skipBlanks htext)
  · next tail htext =>
    obtain ⟨⟨elements, after⟩, harray, hread⟩ := Option.map_eq_some_iff.mp hread
    obtain ⟨-, rfl⟩ := Prod.mk.inj hread
    exact (ih.array harray).trans (length_lt_of_skipBlanks htext)
  · next tail htext =>
    obtain ⟨⟨members, after⟩, hobject, hread⟩ := Option.map_eq_some_iff.mp hread
    obtain ⟨-, rfl⟩ := Prod.mk.inj hread
    exact (ih.object hobject).trans (length_lt_of_skipBlanks htext)
  · obtain ⟨⟨literal, after⟩, hnumber, hread⟩ := Option.map_eq_some_iff.mp hread
    obtain ⟨-, rfl⟩ := Prod.mk.inj hread
    exact (length_readNumber_lt hnumber).trans_le hblanks

/-- Whatever is read makes the text shorter. -/
theorem shrinks (fuel : ℕ) : Shrinks fuel := by
  induction fuel with
  | zero => exact ⟨nofun, nofun, nofun, nofun, nofun⟩
  | succ fuel ih =>
    refine ⟨ih.readValue_succ, ?_, ?_, ?_, ?_⟩
    · intro text rest elements hread
      have hblanks := length_skipBlanks_le text
      rw [readArray] at hread
      split at hread
      · next tail htext =>
        obtain ⟨-, rfl⟩ := Prod.mk.inj (Option.some.inj hread)
        exact length_lt_of_skipBlanks htext
      · obtain ⟨⟨first, middle⟩, hfirst, hread⟩ := Option.bind_eq_some_iff.mp hread
        obtain ⟨⟨others, after⟩, hothers, hread⟩ := Option.bind_eq_some_iff.mp hread
        obtain ⟨-, rfl⟩ := Prod.mk.inj (Option.some.inj hread)
        exact ((ih.elements hothers).trans (ih.value hfirst)).trans_le hblanks
    · intro text rest elements hread
      rw [readElements] at hread
      split at hread
      · next tail htext =>
        obtain ⟨-, rfl⟩ := Prod.mk.inj (Option.some.inj hread)
        exact length_lt_of_skipBlanks htext
      · next tail htext =>
        obtain ⟨⟨next, middle⟩, hnext, hread⟩ := Option.bind_eq_some_iff.mp hread
        obtain ⟨⟨others, after⟩, hothers, hread⟩ := Option.bind_eq_some_iff.mp hread
        obtain ⟨-, rfl⟩ := Prod.mk.inj (Option.some.inj hread)
        exact ((ih.elements hothers).trans (ih.value hnext)).trans (length_lt_of_skipBlanks htext)
      · cases hread
    · intro text rest members hread
      rw [readObject] at hread
      split at hread
      · next tail htext =>
        obtain ⟨-, rfl⟩ := Prod.mk.inj (Option.some.inj hread)
        exact length_lt_of_skipBlanks htext
      · next tail htext =>
        obtain ⟨⟨key, colon⟩, hkey, hread⟩ := Option.bind_eq_some_iff.mp hread
        obtain ⟨⟨first, middle⟩, hfirst, hread⟩ := Option.bind_eq_some_iff.mp hread
        obtain ⟨⟨others, after⟩, hothers, hread⟩ := Option.bind_eq_some_iff.mp hread
        obtain ⟨-, rfl⟩ := Prod.mk.inj (Option.some.inj hread)
        have hmiddle := (ih.members hothers).trans (ih.value hfirst)
        exact (hmiddle.trans (length_readKey_lt hkey)).trans (length_lt_of_skipBlanks htext)
      · cases hread
    · intro text rest members hread
      rw [readMembers] at hread
      split at hread
      · next tail htext =>
        obtain ⟨-, rfl⟩ := Prod.mk.inj (Option.some.inj hread)
        exact length_lt_of_skipBlanks htext
      · next tail htext =>
        split at hread
        · next quoted hquoted =>
          obtain ⟨⟨key, colon⟩, hkey, hread⟩ := Option.bind_eq_some_iff.mp hread
          obtain ⟨⟨next, middle⟩, hnext, hread⟩ := Option.bind_eq_some_iff.mp hread
          obtain ⟨⟨others, after⟩, hothers, hread⟩ := Option.bind_eq_some_iff.mp hread
          obtain ⟨-, rfl⟩ := Prod.mk.inj (Option.some.inj hread)
          have hmiddle := (ih.members hothers).trans (ih.value hnext)
          have hcolon := (hmiddle.trans (length_readKey_lt hkey)).trans (length_lt_of_skipBlanks hquoted)
          exact hcolon.trans (length_lt_of_skipBlanks htext)
        · cases hread
      · cases hread

end Lengths

/-! ### Fuel -/

/-- With some fuel that is more than the text is long, one more unit changes nothing. -/
structure Sufficient (fuel : ℕ) : Prop where
  value : ∀ {text : Str}, 2 * text.length < fuel → readValue (fuel + 1) text = readValue fuel text
  array : ∀ {text : Str}, 2 * text.length + 1 < fuel → readArray (fuel + 1) text = readArray fuel text
  elements : ∀ {text : Str}, 2 * text.length < fuel →
    readElements (fuel + 1) text = readElements fuel text
  object : ∀ {text : Str}, 2 * text.length < fuel → readObject (fuel + 1) text = readObject fuel text
  members : ∀ {text : Str}, 2 * text.length < fuel →
    readMembers (fuel + 1) text = readMembers fuel text

section Fuel

variable {fuel : ℕ}

/-- The rest of a sequence has to agree where the first part leads. -/
theorem bind_congr_of_eq_some {α β : Type} {first : Option α} {next other : α → Option β}
    (hnext : ∀ value, first = some value → next value = other value) :
    first >>= next = first >>= other :=
  Option.bind_congr fun value hvalue ↦ hnext value hvalue

/-- A value and what follows it are read alike with more fuel. -/
theorem Sufficient.bind_value (ih : Sufficient fuel) {β : Type} {text : Str}
    (hlength : 2 * text.length < fuel) {next other : JsonTree × Str → Option β}
    (hnext : ∀ value rest, rest.length < text.length → next (value, rest) = other (value, rest)) :
    readValue (fuel + 1) text >>= next = readValue fuel text >>= other := by
  rw [ih.value hlength]
  refine bind_congr_of_eq_some fun read hread ↦ ?_
  obtain ⟨value, rest⟩ := read
  exact hnext value rest ((shrinks fuel).value hread)

theorem Sufficient.readValue_succ (ih : Sufficient fuel) {text : Str}
    (hlength : 2 * text.length < fuel + 1) :
    readValue (fuel + 1 + 1) text = readValue (fuel + 1) text := by
  rw [readValue, readValue]
  have hblanks := length_skipBlanks_le text
  generalize skipBlanks text = trimmed at hblanks
  split
  any_goals rfl
  · next tail =>
    rw [List.length_cons] at hblanks
    rw [ih.array (by omega)]
  · next tail =>
    rw [List.length_cons] at hblanks
    rw [ih.object (by omega)]

theorem Sufficient.readArray_succ (ih : Sufficient fuel) {text : Str}
    (hlength : 2 * text.length + 1 < fuel + 1) :
    readArray (fuel + 1 + 1) text = readArray (fuel + 1) text := by
  rw [readArray, readArray]
  have hblanks := length_skipBlanks_le text
  generalize skipBlanks text = trimmed at hblanks
  split
  · rfl
  · refine ih.bind_value (by omega) fun first rest hrest ↦ ?_
    simp only
    rw [ih.elements (by omega)]

theorem Sufficient.readElements_succ (ih : Sufficient fuel) {text : Str}
    (hlength : 2 * text.length < fuel + 1) :
    readElements (fuel + 1 + 1) text = readElements (fuel + 1) text := by
  rw [readElements, readElements]
  have hblanks := length_skipBlanks_le text
  generalize skipBlanks text = trimmed at hblanks
  split
  · rfl
  · next tail =>
    rw [List.length_cons] at hblanks
    refine ih.bind_value (by omega) fun next rest hrest ↦ ?_
    simp only
    rw [ih.elements (by omega)]
  · rfl

theorem Sufficient.readObject_succ (ih : Sufficient fuel) {text : Str}
    (hlength : 2 * text.length < fuel + 1) :
    readObject (fuel + 1 + 1) text = readObject (fuel + 1) text := by
  rw [readObject, readObject]
  have hblanks := length_skipBlanks_le text
  generalize skipBlanks text = trimmed at hblanks
  split
  · rfl
  · next tail =>
    rw [List.length_cons] at hblanks
    refine bind_congr_of_eq_some fun read hkey ↦ ?_
    obtain ⟨key, colon⟩ := read
    have hcolon := length_readKey_lt hkey
    refine ih.bind_value (by omega) fun first rest hrest ↦ ?_
    simp only
    rw [ih.members (by omega)]
  · rfl

theorem Sufficient.readMembers_succ (ih : Sufficient fuel) {text : Str}
    (hlength : 2 * text.length < fuel + 1) :
    readMembers (fuel + 1 + 1) text = readMembers (fuel + 1) text := by
  rw [readMembers, readMembers]
  have hblanks := length_skipBlanks_le text
  generalize skipBlanks text = trimmed at hblanks
  split
  · rfl
  · next tail =>
    rw [List.length_cons] at hblanks
    have hquote := length_skipBlanks_le tail
    generalize skipBlanks tail = quoted at hquote
    split
    · next rest =>
      rw [List.length_cons] at hquote
      refine bind_congr_of_eq_some fun read hkey ↦ ?_
      obtain ⟨key, colon⟩ := read
      have hcolon := length_readKey_lt hkey
      refine ih.bind_value (by omega) fun next rest hrest ↦ ?_
      simp only
      rw [ih.members (by omega)]
    · rfl
  · rfl

theorem sufficient (fuel : ℕ) : Sufficient fuel := by
  induction fuel with
  | zero => exact ⟨nofun, nofun, nofun, nofun, nofun⟩
  | succ fuel ih =>
    exact ⟨ih.readValue_succ, ih.readArray_succ, ih.readElements_succ, ih.readObject_succ,
      ih.readMembers_succ⟩

/-- Any fuel above twice the length of the text comes to the same. -/
theorem readValue_fuel {text : Str} (hfuel : 2 * text.length < fuel) :
    readValue fuel text = readValue (2 * text.length + 1) text := by
  induction fuel, hfuel using Nat.le_induction with
  | base => rfl
  | succ fuel hfuel ih => rw [(sufficient fuel).value hfuel, ih]

end Fuel

/-! ### Values by their first character -/

section First

variable {fuel : ℕ} {text rest : Str}

theorem readNumber_of_readValue {literal : NumberLiteral}
    (hread : readValue fuel text = some (.number literal, rest)) :
    readNumber (skipBlanks text) = some (literal, rest) := by
  cases fuel with
  | zero => cases hread
  | succ fuel =>
    rw [readValue] at hread
    split at hread
    any_goals cases hread
    any_goals
      obtain ⟨_, _, hread⟩ := Option.map_eq_some_iff.mp hread
      obtain ⟨hvalue, rfl⟩ := Prod.mk.inj hread
      cases hvalue
    assumption

theorem skipBlanks_of_readString {value : Str}
    (hread : readValue fuel text = some (.string value, rest)) :
    ∃ tail, skipBlanks text = '"' :: tail := by
  cases fuel with
  | zero => cases hread
  | succ fuel =>
    rw [readValue] at hread
    split at hread
    any_goals cases hread
    any_goals
      obtain ⟨_, _, hread⟩ := Option.map_eq_some_iff.mp hread
      obtain ⟨hvalue, -⟩ := Prod.mk.inj hread
      cases hvalue
    exact ⟨_, by assumption⟩

theorem skipBlanks_of_readArray {elements : List JsonTree}
    (hread : readValue fuel text = some (.array elements, rest)) :
    ∃ tail, skipBlanks text = '[' :: tail ∧ readArray (fuel - 1) tail = some (elements, rest) := by
  cases fuel with
  | zero => cases hread
  | succ fuel =>
    rw [readValue] at hread
    split at hread
    any_goals cases hread
    any_goals
      obtain ⟨_, _, hread⟩ := Option.map_eq_some_iff.mp hread
      obtain ⟨hvalue, rfl⟩ := Prod.mk.inj hread
      cases hvalue
    exact ⟨_, by assumption, by assumption⟩

end First

/-! ### What `parseInt` makes of a value -/

/-- The blanks of JSON are blanks. -/
theorem isSpaceChar_of_isBlank {char : Char} (hblank : isBlank char = true) :
    isSpaceChar char = true := by
  simp only [isBlank, Bool.or_eq_true, decide_eq_true_eq] at hblank
  rcases hblank with ((rfl | rfl) | rfl) | rfl <;> rfl

theorem parseInt_skipBlanks (text : Str) : parseInt (skipBlanks text) = parseInt text := by
  have hdrop : (skipBlanks text).dropWhile isSpaceChar = text.dropWhile isSpaceChar := by
    induction text with
    | nil => rfl
    | cons char rest ih =>
      by_cases hblank : isBlank char = true
      · rw [skipBlanks, List.dropWhile_cons_of_pos hblank,
          List.dropWhile_cons_of_pos (isSpaceChar_of_isBlank hblank)]
        exact ih
      · rw [skipBlanks, List.dropWhile_cons_of_neg hblank]
  rw [parseInt, parseInt, afterSign, afterSign, hdrop]

/-- A text that begins with something else than a blank, a sign or a digit is no number. -/
theorem parseInt_eq_none {char : Char} {rest : Str} (hblank : isSpaceChar char = false)
    (hminus : char ≠ '-') (hplus : char ≠ '+') (hdigit : char.isDigit = false) :
    parseInt (char :: rest) = none := by
  have hsign : readSign (char :: rest) = (false, char :: rest) := by
    unfold readSign
    split
    · next heq => exact absurd (List.cons.inj heq).1 hminus
    · next heq => exact absurd (List.cons.inj heq).1 hplus
    · rfl
  have hhex : hexPrefix (char :: rest) = none := by
    unfold hexPrefix
    split
    · next heq =>
      obtain ⟨rfl, -⟩ := List.cons.inj heq
      cases hdigit
    · next heq =>
      obtain ⟨rfl, -⟩ := List.cons.inj heq
      cases hdigit
    · rfl
  rw [parseInt, afterSign, List.dropWhile_cons_of_neg (by simp [hblank]), hsign, readUnsigned, hhex]
  simp [hdigit]

/-- What follows the digits of a number is no digit, and no mark of a hexadecimal number either if the
number is not followed by one. -/
theorem hexPrefix_of_readNumber {text rest : Str} {literal : NumberLiteral}
    (hread : readNumber text = some (literal, rest))
    (hrest : ∀ char ∈ rest.head?, char ≠ 'x' ∧ char ≠ 'X') : hexPrefix (readMinus text).2 = none := by
  obtain ⟨-, -, -, -, middle, hfraction, hexponent⟩ := readNumber_eq_some hread
  have hmark : ∀ char tail, (char = 'x' ∨ char = 'X') → (readMinus text).2 ≠ '0' :: char :: tail := by
    intro char tail hchar heq
    have hdigit : char.isDigit = false := by rcases hchar with rfl | rfl <;> rfl
    have hpoint : char ≠ '.' := by rcases hchar with rfl | rfl <;> decide
    have hsmall : ¬ (char = 'e' ∨ char = 'E') := by rcases hchar with rfl | rfl <;> decide
    rw [heq, List.dropWhile_cons_of_pos (by decide), List.dropWhile_cons_of_neg (by simp [hdigit]),
      readFraction] at hfraction
    · obtain ⟨-, rfl⟩ := Prod.mk.inj (Option.some.inj hfraction)
      rw [readExponent, if_neg hsmall] at hexponent
      obtain ⟨-, rfl⟩ := Prod.mk.inj (Option.some.inj hexponent)
      have hhead := hrest char rfl
      exact hchar.elim hhead.1 hhead.2
    · intro digits hcons
      exact hpoint (List.cons.inj hcons).1
  unfold hexPrefix
  split
  · next tail heq => exact absurd heq (hmark 'x' tail (.inl rfl))
  · next tail heq => exact absurd heq (hmark 'X' tail (.inr rfl))
  · rfl

/-- The sign of a number is read, and there are no blanks in front of it. -/
theorem readSign_of_readNumber {text rest : Str} {literal : NumberLiteral}
    (hread : readNumber text = some (literal, rest)) :
    readSign (text.dropWhile isSpaceChar) = readMinus text := by
  obtain ⟨-, hdigits, hnonempty, -⟩ := readNumber_eq_some hread
  cases text with
  | nil => exact absurd hdigits hnonempty
  | cons char tail =>
    by_cases hminus : char = '-'
    · subst hminus
      rfl
    · have hmatch : readMinus (char :: tail) = (false, char :: tail) := by
        unfold readMinus
        split
        · next heq => exact absurd (List.cons.inj heq).1 hminus
        · rfl
      rw [hmatch] at hdigits ⊢
      have hdigit : char.isDigit = true := by
        by_contra hother
        rw [List.takeWhile_cons_of_neg hother] at hdigits
        exact hnonempty hdigits
      have hplus : char ≠ '+' := by
        rintro rfl
        cases hdigit
      rw [List.dropWhile_cons_of_neg (by simp [isSpaceChar_of_isDigit hdigit])]
      unfold readSign
      split
      · next heq => exact absurd (List.cons.inj heq).1 hminus
      · next heq => exact absurd (List.cons.inj heq).1 hplus
      · rfl

/-- `parseInt` reads the digits before the point. -/
theorem parseInt_of_readNumber {text rest : Str} {literal : NumberLiteral}
    (hread : readNumber text = some (literal, rest))
    (hrest : ∀ char ∈ rest.head?, char ≠ 'x' ∧ char ≠ 'X') :
    parseInt text = some literal.integerPart := by
  have hhex := hexPrefix_of_readNumber hread hrest
  have hsign := readSign_of_readNumber hread
  obtain ⟨hnegative, hdigits, hnonempty, -⟩ := readNumber_eq_some hread
  rw [parseInt, afterSign, hsign, readUnsigned, hhex]
  rw [hdigits] at hnonempty
  simp only [if_neg hnonempty, Option.map_some]
  rw [NumberLiteral.integerPart, hnegative, hdigits]

/-! A closing bracket behind a text is no part of its number. -/

theorem dropWhile_append_bracket (text : Str) :
    (text ++ [']']).dropWhile isSpaceChar = text.dropWhile isSpaceChar ++ [']'] := by
  induction text with
  | nil => rfl
  | cons char rest ih =>
    by_cases hblank : isSpaceChar char = true
    · rw [List.cons_append, List.dropWhile_cons_of_pos hblank, List.dropWhile_cons_of_pos hblank, ih]
    · rw [List.cons_append, List.dropWhile_cons_of_neg hblank, List.dropWhile_cons_of_neg hblank]
      rfl

theorem readSign_append_bracket (text : Str) :
    readSign (text ++ [']']) = ((readSign text).1, (readSign text).2 ++ [']']) := by
  cases text with
  | nil => rfl
  | cons char rest =>
    by_cases hminus : char = '-'
    · subst hminus
      rfl
    · by_cases hplus : char = '+'
      · subst hplus
        rfl
      · simp [readSign, hminus, hplus]

theorem takeWhile_append_bracket {digit : Char → Bool} (hbracket : digit ']' = false) (text : Str) :
    (text ++ [']']).takeWhile digit = text.takeWhile digit := by
  rw [List.takeWhile_append]
  split
  · next hall =>
    rw [List.takeWhile_cons_of_neg (by simp [hbracket]), List.append_nil]
    exact ((List.takeWhile_prefix digit).eq_of_length hall).symm
  · rfl

theorem hexPrefix_append_bracket (text : Str) :
    hexPrefix (text ++ [']']) = (hexPrefix text).map (· ++ [']']) := by
  rcases text with _ | ⟨first, _ | ⟨second, rest⟩⟩
  · rfl
  · simp [hexPrefix]
  · by_cases hzero : first = '0'
    · subst hzero
      by_cases hsmall : second = 'x'
      · subst hsmall
        rfl
      · by_cases hlarge : second = 'X'
        · subst hlarge
          rfl
        · simp [hexPrefix, hsmall, hlarge]
    · simp [hexPrefix, hzero]

theorem parseInt_append_bracket (text : Str) : parseInt (text ++ [']']) = parseInt text := by
  have hunsigned : ∀ text : Str, readUnsigned (text ++ [']']) = readUnsigned text := by
    intro text
    rw [readUnsigned, readUnsigned, hexPrefix_append_bracket]
    have hdigits := takeWhile_append_bracket (show Char.isDigit ']' = false from rfl) text
    have hhexDigits := takeWhile_append_bracket (show isHexDigit ']' = false from rfl)
    cases hexPrefix text with
    | none => simp only [Option.map_none, hdigits]
    | some rest => simp only [Option.map_some, hhexDigits]
  rw [parseInt, parseInt, afterSign, afterSign, dropWhile_append_bracket, readSign_append_bracket,
    hunsigned]

end Playground.Library.JsonText
