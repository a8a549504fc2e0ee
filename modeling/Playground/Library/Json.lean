import Mathlib.Data.Nat.Digits.Defs
import Mathlib.Data.List.TakeWhile

/-!
# JSON texts

A JSON value is a tree whose objects are lists of members in the order of the text. `print` is the
compact text of a value, without blanks, and `parse` reads such a text back. `parse_print` is the
round trip: the printed text of a value is read back as that value.

The parser goes from left to right and hands on what it has not read. It is given as many steps as the
text is long, which is enough because every step but the last reads a character.

Not formalized here: blanks between tokens, the short escapes of control characters, and numbers with
a sign, a fraction or an exponent, none of which the printer makes.
-/

set_option autoImplicit false
set_option relaxedAutoImplicit false

namespace Playground.Library

/-- A JSON value. -/
inductive Json
  | null
  | bool (value : Bool)
  | number (value : ℕ)
  | string (value : List Char)
  | array (elements : List Json)
  | object (members : List (List Char × Json))

namespace Json

/-! ### Tokens -/

/-- The character of a digit. -/
def digitChar (digit : ℕ) : Char :=
  Char.ofNat (48 + digit)

/-- The decimal digits of a number, the most significant first. -/
def printNumber (value : ℕ) : List Char :=
  if value = 0 then ['0'] else (Nat.digits 10 value).reverse.map digitChar

/-- The number that digits stand for. -/
def readDigits (digits : List Char) : ℕ :=
  digits.foldl (fun value digit ↦ 10 * value + (digit.toNat - 48)) 0

/-- A hexadecimal digit. -/
def hexChar (digit : ℕ) : Char :=
  if digit < 10 then Char.ofNat (48 + digit) else Char.ofNat (87 + digit)

/-- The value of a hexadecimal digit. -/
def readHex (digit : Char) : ℕ :=
  if digit.toNat < 58 then digit.toNat - 48 else digit.toNat - 87

/-- A character of a string, escaped where it has to be. -/
def escapeChar (char : Char) : List Char :=
  if char = '"' then ['\\', '"']
  else if char = '\\' then ['\\', '\\']
  else if char.toNat < 32 then
    ['\\', 'u', '0', '0', hexChar (char.toNat / 16), hexChar (char.toNat % 16)]
  else [char]

/-- The characters of a string behind its opening quote. -/
def printStringTail (value : List Char) : List Char :=
  value.flatMap escapeChar ++ ['"']

/-- Read a string behind its opening quote. -/
def readStringTail : List Char → Option (List Char × List Char)
  | '"' :: rest => some ([], rest)
  | '\\' :: '"' :: rest => (readStringTail rest).map fun read ↦ ('"' :: read.1, read.2)
  | '\\' :: '\\' :: rest => (readStringTail rest).map fun read ↦ ('\\' :: read.1, read.2)
  | '\\' :: 'u' :: '0' :: '0' :: high :: low :: rest =>
    (readStringTail rest).map fun read ↦
      (Char.ofNat (16 * readHex high + readHex low) :: read.1, read.2)
  | '\\' :: _ => none
  | char :: rest => (readStringTail rest).map fun read ↦ (char :: read.1, read.2)
  | [] => none

/-! ### Values -/

mutual

/-- The text of a value. -/
def print : Json → List Char
  | null => ['n', 'u', 'l', 'l']
  | bool true => ['t', 'r', 'u', 'e']
  | bool false => ['f', 'a', 'l', 's', 'e']
  | number value => printNumber value
  | string value => '"' :: printStringTail value
  | array [] => ['[', ']']
  | array (first :: rest) => '[' :: (print first ++ printElements rest)
  | object [] => ['{', '}']
  | object ((key, first) :: rest) =>
    '{' :: '"' :: (printStringTail key ++ ':' :: (print first ++ printMembers rest))

/-- The text of the elements behind the first one, up to the closing bracket. -/
def printElements : List Json → List Char
  | [] => [']']
  | next :: rest => ',' :: (print next ++ printElements rest)

/-- The text of the members behind the first one, up to the closing brace. -/
def printMembers : List (List Char × Json) → List Char
  | [] => ['}']
  | (key, next) :: rest =>
    ',' :: '"' :: (printStringTail key ++ ':' :: (print next ++ printMembers rest))

end

/-- Read a key with its colon, behind the opening quote. -/
def readKey (text : List Char) : Option (List Char × List Char) :=
  match readStringTail text with
  | some (key, ':' :: rest) => some (key, rest)
  | _ => none

mutual

/-- Read a value, in a bounded number of steps. -/
def readValue : ℕ → List Char → Option (Json × List Char)
  | 0, _ => none
  | steps + 1, text =>
    match text with
    | 'n' :: 'u' :: 'l' :: 'l' :: rest => some (null, rest)
    | 't' :: 'r' :: 'u' :: 'e' :: rest => some (bool true, rest)
    | 'f' :: 'a' :: 'l' :: 's' :: 'e' :: rest => some (bool false, rest)
    | '"' :: rest => (readStringTail rest).map fun read ↦ (string read.1, read.2)
    | '[' :: ']' :: rest => some (array [], rest)
    | '[' :: rest => do
      let (first, rest) ← readValue steps rest
      let (elements, rest) ← readElements steps rest
      some (array (first :: elements), rest)
    | '{' :: '}' :: rest => some (object [], rest)
    | '{' :: '"' :: rest => do
      let (key, rest) ← readKey rest
      let (first, rest) ← readValue steps rest
      let (members, rest) ← readMembers steps rest
      some (object ((key, first) :: members), rest)
    | _ =>
      let digits := text.takeWhile Char.isDigit
      if digits = [] then none else some (number (readDigits digits), text.dropWhile Char.isDigit)

/-- Read the elements behind the first one. -/
def readElements : ℕ → List Char → Option (List Json × List Char)
  | 0, _ => none
  | steps + 1, text =>
    match text with
    | ']' :: rest => some ([], rest)
    | ',' :: rest => do
      let (next, rest) ← readValue steps rest
      let (elements, rest) ← readElements steps rest
      some (next :: elements, rest)
    | _ => none

/-- Read the members behind the first one. -/
def readMembers : ℕ → List Char → Option (List (List Char × Json) × List Char)
  | 0, _ => none
  | steps + 1, text =>
    match text with
    | '}' :: rest => some ([], rest)
    | ',' :: '"' :: rest => do
      let (key, rest) ← readKey rest
      let (next, rest) ← readValue steps rest
      let (members, rest) ← readMembers steps rest
      some ((key, next) :: members, rest)
    | _ => none

end

/-- Read a text that is one value and nothing else. -/
def parse (text : List Char) : Option Json :=
  match readValue text.length text with
  | some (value, []) => some value
  | _ => none

/-! ### Reading tokens back -/

/-- The value and the kind of a digit character. -/
theorem digitChar_spec :
    ∀ digit < 10, (digitChar digit).toNat - 48 = digit ∧ (digitChar digit).isDigit = true := by
  decide

/-- The hexadecimal digits are read back. -/
theorem readHex_hexChar : ∀ digit < 16, readHex (hexChar digit) = digit := by
  decide

/-- Digits in their printed order stand for the number they are the digits of. -/
theorem readDigits_printNumber (value : ℕ) : readDigits (printNumber value) = value := by
  unfold printNumber readDigits
  split
  next hzero => simp [hzero]
  next =>
    rw [List.foldl_map, List.foldl_reverse]
    have hfold : ∀ digits : List ℕ, (∀ digit ∈ digits, digit < 10) →
        digits.foldr (fun digit value ↦ 10 * value + ((digitChar digit).toNat - 48)) 0 =
          Nat.ofDigits 10 digits := by
      intro digits hdigits
      induction digits with
      | nil => rfl
      | cons digit rest ih =>
        have hrest := ih fun other hother ↦ hdigits other (List.mem_cons_of_mem _ hother)
        have hdigit := (digitChar_spec digit (hdigits digit List.mem_cons_self)).1
        rw [List.foldr_cons, hrest, hdigit, Nat.ofDigits_cons, Nat.add_comm]
    rw [hfold _ fun digit hdigit ↦ Nat.digits_lt_base (by omega) hdigit, Nat.ofDigits_digits]

/-- A printed number consists of digits, and of at least one. -/
theorem printNumber_digits (value : ℕ) :
    (∀ char ∈ printNumber value, char.isDigit = true) ∧ printNumber value ≠ [] := by
  unfold printNumber
  split
  next => simp
  next hne =>
    constructor
    · intro char hchar
      obtain ⟨digit, hdigit, rfl⟩ := List.mem_map.mp hchar
      exact (digitChar_spec digit
        (Nat.digits_lt_base (by omega) (List.mem_reverse.mp hdigit))).2
    · simpa [Nat.digits_eq_nil_iff_eq_zero] using hne

/-- What follows a number does not go on with a digit. -/
def EndsNumber (rest : List Char) : Prop :=
  ∀ char ∈ rest.head?, char.isDigit = false

/-- Digits are taken up to their end. -/
theorem takeWhile_digits {digits rest : List Char} (hdigits : ∀ char ∈ digits, char.isDigit = true)
    (hrest : EndsNumber rest) :
    (digits ++ rest).takeWhile Char.isDigit = digits ∧
      (digits ++ rest).dropWhile Char.isDigit = rest := by
  have hend : rest.takeWhile Char.isDigit = [] ∧ rest.dropWhile Char.isDigit = rest := by
    cases rest with
    | nil => exact ⟨rfl, rfl⟩
    | cons char rest =>
      have hchar : char.isDigit = false := hrest char rfl
      simp [hchar]
  constructor
  · rw [List.takeWhile_append_of_pos hdigits, hend.1, List.append_nil]
  · rw [List.dropWhile_append_of_pos hdigits, hend.2]

/-- An escaped character is read back. -/
theorem readStringTail_escapeChar (char : Char) (rest : List Char) :
    readStringTail (escapeChar char ++ rest) =
      (readStringTail rest).map fun read ↦ (char :: read.1, read.2) := by
  unfold escapeChar
  by_cases hquote : char = '"'
  · subst hquote
    simp [readStringTail]
  by_cases hslash : char = '\\'
  · subst hslash
    simp [readStringTail]
  by_cases hcontrol : char.toNat < 32
  · have hhigh := readHex_hexChar (char.toNat / 16) (by omega)
    have hlow := readHex_hexChar (char.toNat % 16) (by omega)
    have hvalue : 16 * (char.toNat / 16) + char.toNat % 16 = char.toNat := Nat.div_add_mod _ _
    simp [hquote, hslash, hcontrol, readStringTail, hhigh, hlow, hvalue]
  · simp only [hquote, hslash, hcontrol, if_false, List.singleton_append]
    rw [readStringTail.eq_def]
    split <;> simp_all

/-- A printed string is read back. -/
theorem readStringTail_print (value rest : List Char) :
    readStringTail (printStringTail value ++ rest) = some (value, rest) := by
  induction value with
  | nil => simp [printStringTail, readStringTail]
  | cons char value ih =>
    have hsplit : printStringTail (char :: value) ++ rest =
        escapeChar char ++ (printStringTail value ++ rest) := by
      simp [printStringTail]
    rw [hsplit, readStringTail_escapeChar, ih]
    rfl

/-- A printed key is read back. -/
theorem readKey_print (key rest : List Char) :
    readKey (printStringTail key ++ ':' :: rest) = some (key, rest) := by
  simp only [readKey, readStringTail_print]

/-! ### Reading values back -/

/-- What follows an element or a member does not go on with a digit. -/
theorem endsNumber_cons {char : Char} (hchar : char.isDigit = false) (rest : List Char) :
    EndsNumber (char :: rest) := by
  intro other hother
  obtain rfl : char = other := by simpa using hother
  exact hchar

theorem endsNumber_printElements (elements : List Json) (rest : List Char) :
    EndsNumber (printElements elements ++ rest) := by
  cases elements <;> exact endsNumber_cons rfl _

theorem endsNumber_printMembers (members : List (List Char × Json)) (rest : List Char) :
    EndsNumber (printMembers members ++ rest) := by
  cases members with
  | nil => exact endsNumber_cons rfl _
  | cons member members => exact endsNumber_cons rfl _

/-- A digit is none of the characters that other values begin with. -/
theorem readValue_digit {steps : ℕ} {char : Char} (hchar : char.isDigit = true) (text : List Char) :
    readValue (steps + 1) (char :: text) =
      some (number (readDigits ((char :: text).takeWhile Char.isDigit)),
        (char :: text).dropWhile Char.isDigit) := by
  have hnonempty : (char :: text).takeWhile Char.isDigit ≠ [] := by simp [hchar]
  rw [readValue]
  · simp only [hnonempty, if_false]
  all_goals
    intro rest heq
    obtain ⟨rfl, -⟩ := List.cons.inj heq
    exact absurd hchar (by decide)

/-- No value begins with a closing bracket. -/
theorem print_eq_cons (value : Json) : ∃ char text, print value = char :: text ∧ char ≠ ']' := by
  cases value with
  | null => exact ⟨_, _, by rw [print], by decide⟩
  | bool value => cases value <;> exact ⟨_, _, by rw [print], by decide⟩
  | number value =>
    obtain ⟨hdigits, hne⟩ := printNumber_digits value
    obtain ⟨char, text, hprint⟩ := List.exists_cons_of_ne_nil hne
    refine ⟨char, text, by rw [print, hprint], ?_⟩
    rintro rfl
    exact absurd (hdigits ']' (by simp [hprint])) (by decide)
  | string value => exact ⟨_, _, by rw [print], by decide⟩
  | array elements => cases elements <;> exact ⟨_, _, by rw [print], by decide⟩
  | object members =>
    cases members with
    | nil => exact ⟨_, _, by rw [print], by decide⟩
    | cons member members => exact ⟨_, _, by rw [print], by decide⟩

mutual

/-- A printed value is read back, with as many steps as its text is long. -/
theorem readValue_print : ∀ (value : Json) {steps : ℕ} {rest : List Char},
    (print value).length ≤ steps → EndsNumber rest →
      readValue steps (print value ++ rest) = some (value, rest)
  | null, 0, _, hsteps, _ => by simp [print] at hsteps
  | null, steps + 1, rest, _, _ => by simp [print, readValue]
  | bool true, 0, _, hsteps, _ => by simp [print] at hsteps
  | bool true, steps + 1, rest, _, _ => by simp [print, readValue]
  | bool false, 0, _, hsteps, _ => by simp [print] at hsteps
  | bool false, steps + 1, rest, _, _ => by simp [print, readValue]
  | number value, 0, _, hsteps, _ => by
    have hne := (printNumber_digits value).2
    simp [print, hne] at hsteps
  | number value, steps + 1, rest, _, hrest => by
    obtain ⟨hdigits, hne⟩ := printNumber_digits value
    obtain ⟨char, digits, hprint⟩ := List.exists_cons_of_ne_nil hne
    obtain ⟨htake, hdrop⟩ := takeWhile_digits hdigits hrest
    have hchar : char.isDigit = true := hdigits char (by simp [hprint])
    rw [print, hprint, List.cons_append, readValue_digit hchar, ← List.cons_append, ← hprint, htake,
      hdrop, readDigits_printNumber]
  | string value, 0, _, hsteps, _ => by simp [print] at hsteps
  | string value, steps + 1, rest, _, _ => by
    simp [print, readValue, readStringTail_print]
  | array [], 0, _, hsteps, _ => by simp [print] at hsteps
  | array [], steps + 1, rest, _, _ => by simp [print, readValue]
  | array (first :: elements), 0, _, hsteps, _ => by simp [print] at hsteps
  | array (first :: elements), steps + 1, rest, hsteps, hrest => by
    simp only [print, List.length_cons, List.length_append] at hsteps
    have hfirst := @readValue_print first steps (printElements elements ++ rest) (by omega)
      (endsNumber_printElements elements rest)
    have helements := @readElements_print elements steps rest (by omega)
    obtain ⟨char, text, hprint, hchar⟩ := print_eq_cons first
    have hopen : readValue (steps + 1) ('[' :: (print first ++ (printElements elements ++ rest))) =
        (readValue steps (print first ++ (printElements elements ++ rest))).bind fun read ↦
          (readElements steps read.2).bind fun others ↦
            some (array (read.1 :: others.1), others.2) := by
      rw [hprint, List.cons_append, readValue]
      · rfl
      · intro tail heq
        exact hchar (List.cons.inj heq).1
    rw [print, List.cons_append, List.append_assoc, hopen, hfirst, Option.bind_some, helements,
      Option.bind_some]
  | object [], 0, _, hsteps, _ => by simp [print] at hsteps
  | object [], steps + 1, rest, _, _ => by simp [print, readValue]
  | object ((key, first) :: members), 0, _, hsteps, _ => by simp [print] at hsteps
  | object ((key, first) :: members), steps + 1, rest, hsteps, hrest => by
    simp only [print, List.length_cons, List.length_append] at hsteps
    have hfirst := @readValue_print first steps (printMembers members ++ rest) (by omega)
      (endsNumber_printMembers members rest)
    have hmembers := @readMembers_print members steps rest (by omega)
    simp [print, readValue, readKey_print, hfirst, hmembers]

/-- Printed elements are read back. -/
theorem readElements_print : ∀ (elements : List Json) {steps : ℕ} {rest : List Char},
    (printElements elements).length ≤ steps →
      readElements steps (printElements elements ++ rest) = some (elements, rest)
  | [], 0, _, hsteps => by simp [printElements] at hsteps
  | [], steps + 1, rest, _ => by simp [printElements, readElements]
  | next :: elements, 0, _, hsteps => by simp [printElements] at hsteps
  | next :: elements, steps + 1, rest, hsteps => by
    simp only [printElements, List.length_cons, List.length_append] at hsteps
    have hnext := @readValue_print next steps (printElements elements ++ rest) (by omega)
      (endsNumber_printElements elements rest)
    have helements := @readElements_print elements steps rest (by omega)
    simp [printElements, readElements, hnext, helements]

/-- Printed members are read back. -/
theorem readMembers_print : ∀ (members : List (List Char × Json)) {steps : ℕ} {rest : List Char},
    (printMembers members).length ≤ steps →
      readMembers steps (printMembers members ++ rest) = some (members, rest)
  | [], 0, _, hsteps => by simp [printMembers] at hsteps
  | [], steps + 1, rest, _ => by simp [printMembers, readMembers]
  | (key, next) :: members, 0, _, hsteps => by simp [printMembers] at hsteps
  | (key, next) :: members, steps + 1, rest, hsteps => by
    simp only [printMembers, List.length_cons, List.length_append] at hsteps
    have hnext := @readValue_print next steps (printMembers members ++ rest) (by omega)
      (endsNumber_printMembers members rest)
    have hmembers := @readMembers_print members steps rest (by omega)
    simp [printMembers, readMembers, readKey_print, hnext, hmembers]

end

/-- The printed text of a value is read back as that value. -/
theorem parse_print (value : Json) : parse (print value) = some value := by
  have hread := @readValue_print value (print value).length [] (Nat.le_refl _) (by simp [EndsNumber])
  rw [List.append_nil] at hread
  rw [parse, hread]

/-! ### Reading values -/

/-- The member of an object with a name. -/
def member (members : List (List Char × Json)) (name : String) : Option Json :=
  (members.find? fun entry ↦ entry.1 = name.toList).map Prod.snd

/-- The first member of an object is found under its name. -/
theorem member_self (name : String) (value : Json) (rest : List (List Char × Json)) :
    member ((name.toList, value) :: rest) name = some value := by
  rw [member, List.find?_cons_of_pos (by simp), Option.map_some]

/-- A member with another name is passed over. -/
theorem member_of_ne {other name : String} (hne : other ≠ name) (value : Json)
    (rest : List (List Char × Json)) :
    member ((other.toList, value) :: rest) name = member rest name := by
  have hlist : other.toList ≠ name.toList := fun heq ↦ hne (String.toList_inj.mp heq)
  rw [member, member, List.find?_cons_of_neg (by simpa using hlist)]

/-- An object without members has none with a name. -/
theorem member_nil (name : String) : member [] name = none :=
  rfl

/-- The truth value of a JSON value. -/
def readBool : Json → Option Bool
  | .bool value => some value
  | _ => none

/-- The number of a JSON value. -/
def readNumber : Json → Option ℕ
  | .number value => some value
  | _ => none

/-- The string of a JSON value. -/
def readString : Json → Option (List Char)
  | .string value => some value
  | _ => none

end Json

end Playground.Library
