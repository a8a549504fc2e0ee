import Playground.Library.JavaScript
import Playground.Library.Json

/-!
# `parseInt`

The number at the beginning of a text, after blanks and a sign: the longest row of digits, hexadecimal
ones after `0x`. There is none where no digit is found; JavaScript has `NaN` for that.

Not formalized here: the rounding of numbers above `2 ^ 53`.
-/

set_option autoImplicit false
set_option relaxedAutoImplicit false

namespace Playground.Library

/-- A number with its sign. -/
def signed (negative : Bool) (value : ℕ) : ℤ :=
  if negative then -value else value

/-- The text of a sign that is not omitted if it is negative. -/
def signText (negative : Bool) : Str :=
  if negative then ['-'] else []

/-- A sign, and what follows it. -/
def readSign : Str → Bool × Str
  | '-' :: rest => (true, rest)
  | '+' :: rest => (false, rest)
  | text => (false, text)

/-- A hexadecimal digit. -/
def isHexDigit (char : Char) : Bool :=
  char.isDigit || ('a' ≤ char && char ≤ 'f') || ('A' ≤ char && char ≤ 'F')

/-- The value of a hexadecimal digit. -/
def hexValue (char : Char) : ℕ :=
  if char.isDigit then char.toNat - 48
  else if 'a' ≤ char then char.toNat - 87
  else char.toNat - 55

/-- The number that hexadecimal digits stand for. -/
def readHexDigits (digits : Str) : ℕ :=
  digits.foldl (fun value digit ↦ 16 * value + hexValue digit) 0

/-- What follows a prefix that makes a number hexadecimal. -/
def hexPrefix : Str → Option Str
  | '0' :: 'x' :: rest => some rest
  | '0' :: 'X' :: rest => some rest
  | _ => none

/-- The number that a text without a sign begins with. -/
def readUnsigned (text : Str) : Option ℕ :=
  match hexPrefix text with
  | some rest =>
    if rest.takeWhile isHexDigit = [] then none else some (readHexDigits (rest.takeWhile isHexDigit))
  | none =>
    if text.takeWhile Char.isDigit = [] then none
    else some (Json.readDigits (text.takeWhile Char.isDigit))

/-- What follows the blanks and the sign at the beginning of a text. -/
def afterSign (text : Str) : Str :=
  (readSign (text.dropWhile isSpaceChar)).2

/-- `parseInt` without a radix. -/
def parseInt (text : Str) : Option ℤ :=
  (readUnsigned (afterSign text)).map (signed (readSign (text.dropWhile isSpaceChar)).1)

/-! ### Digits -/

/-- The digits of a number and those after them. -/
theorem readDigits_append (digits others : Str) :
    Json.readDigits (digits ++ others) =
      Json.readDigits digits * 10 ^ others.length + Json.readDigits others := by
  have hfrom : ∀ (start : ℕ), others.foldl (fun value digit ↦ 10 * value + (digit.toNat - 48)) start =
      start * 10 ^ others.length +
        others.foldl (fun value digit ↦ 10 * value + (digit.toNat - 48)) 0 := by
    induction others with
    | nil => exact fun start ↦ by simp
    | cons digit rest ih =>
      intro start
      rw [List.foldl_cons, List.foldl_cons, ih, ih (10 * 0 + _), List.length_cons, pow_succ]
      ring
  rw [Json.readDigits, List.foldl_append, hfrom]
  rfl

/-- Digits that stand for zero are zeros. -/
theorem readDigits_eq_zero_iff {digits : Str} (hdigits : ∀ char ∈ digits, char.isDigit = true) :
    Json.readDigits digits = 0 ↔ ∀ char ∈ digits, char = '0' := by
  induction digits with
  | nil => simp [Json.readDigits]
  | cons digit rest ih =>
    rw [List.forall_mem_cons] at hdigits
    have hsplit := readDigits_append [digit] rest
    have hfirst : Json.readDigits [digit] = 0 ↔ digit = '0' := by
      have hbounds := Char.isDigit_iff_toNat.mp hdigits.1
      have hvalue : Json.readDigits [digit] = digit.toNat - 48 := by simp [Json.readDigits]
      rw [hvalue, ← Char.toNat_inj]
      have hzero : '0'.toNat = 48 := rfl
      omega
    have hpos : 0 < 10 ^ rest.length := Nat.pow_pos (by decide)
    rw [List.singleton_append] at hsplit
    rw [hsplit, Nat.add_eq_zero_iff, Nat.mul_eq_zero, or_iff_left hpos.ne', hfirst,
      ih hdigits.2, List.forall_mem_cons]

/-- More digits leave the number exactly if there are none, or all are zeros. -/
theorem readDigits_append_eq_iff {digits others : Str} (hdigits : ∀ char ∈ digits, char.isDigit = true)
    (hothers : ∀ char ∈ others, char.isDigit = true) :
    Json.readDigits (digits ++ others) = Json.readDigits digits ↔
      others = [] ∨ ∀ char ∈ digits ++ others, char = '0' := by
  rw [readDigits_append]
  cases others with
  | nil => simp [Json.readDigits]
  | cons other rest =>
    have hten : 10 ≤ 10 ^ (other :: rest).length := by
      rw [List.length_cons, pow_succ]
      have hpos : 0 < 10 ^ rest.length := Nat.pow_pos (by decide)
      omega
    rw [or_iff_right (List.cons_ne_nil _ _), List.forall_mem_append,
      ← readDigits_eq_zero_iff hdigits, ← readDigits_eq_zero_iff hothers]
    constructor
    · intro heq
      have hle := Nat.mul_le_mul_left (Json.readDigits digits) hten
      omega
    · rintro ⟨hzero, hrest⟩
      rw [hzero, hrest, Nat.zero_mul]

/-! ### Texts with blanks -/

/-- A text without its blanks. -/
def strip (text : Str) : Str :=
  text.filter fun char ↦ !isSpaceChar char

/-- A digit is no blank. -/
theorem isSpaceChar_of_isDigit {char : Char} (hdigit : char.isDigit = true) :
    isSpaceChar char = false := by
  have hbounds := Char.isDigit_iff_toNat.mp hdigit
  have hzero : '0'.toNat = 48 := rfl
  have hnine : '9'.toNat = 57 := rfl
  have hlow : 48 ≤ char.toNat := hbounds.1
  have hhigh : char.toNat ≤ 57 := hbounds.2
  rw [isSpaceChar, Bool.or_eq_false_iff]
  constructor
  · rw [List.contains_eq_mem, decide_eq_false_iff_not]
    simp only [List.mem_cons, List.not_mem_nil, or_false]
    omega
  · rw [Bool.and_eq_false_iff, decide_eq_false_iff_not]
    exact .inl (by omega)

/-- Blanks at the beginning do not count. -/
theorem strip_dropWhile (text : Str) : strip (text.dropWhile isSpaceChar) = strip text := by
  induction text with
  | nil => rfl
  | cons char rest ih =>
    by_cases hblank : isSpaceChar char = true
    · rw [List.dropWhile_cons_of_pos hblank, ih, strip, strip, List.filter_cons_of_neg (by simp [hblank])]
    · rw [List.dropWhile_cons_of_neg hblank]

section Signed

variable {text digits : Str} {negative : Bool}

/-- The sign and the digits are found, whatever blanks there are. -/
theorem readSign_of_strip (hstrip : strip text = signText negative ++ digits)
    (hdigits : ∀ char ∈ digits, char.isDigit = true) :
    (readSign (text.dropWhile isSpaceChar)).1 = negative ∧ strip (afterSign text) = digits := by
  have hrest := (strip_dropWhile text).trans hstrip
  unfold afterSign
  cases htext : text.dropWhile isSpaceChar with
  | nil =>
    rw [htext] at hrest
    cases negative with
    | true => cases hrest
    | false => exact ⟨rfl, hrest⟩
  | cons char rest =>
    have hblank : isSpaceChar char = false := by
      have hhead := List.head?_dropWhile_not isSpaceChar text
      rw [htext] at hhead
      simpa using hhead
    rw [htext, strip, List.filter_cons_of_pos (by simp [hblank])] at hrest
    cases negative with
    | true =>
      obtain ⟨rfl, hdigits'⟩ := List.cons.inj hrest
      exact ⟨rfl, hdigits'⟩
    | false =>
      have hmem : char ∈ signText false ++ digits := hrest ▸ List.mem_cons_self
      have hchar : char.isDigit = true := hdigits char hmem
      have hsign : readSign (char :: rest) = (false, char :: rest) := by
        unfold readSign
        split
        · next heq =>
          obtain ⟨rfl, -⟩ := List.cons.inj heq
          cases hchar
        · next heq =>
          obtain ⟨rfl, -⟩ := List.cons.inj heq
          cases hchar
        · rfl
      rw [hsign]
      refine ⟨rfl, ?_⟩
      rw [strip, List.filter_cons_of_pos (by simp [hblank])]
      exact hrest

/-- Only the digits up to the first blank are read. -/
theorem parseInt_of_strip (hstrip : strip text = signText negative ++ digits)
    (hdigits : ∀ char ∈ digits, char.isDigit = true) :
    parseInt text =
      if (afterSign text).takeWhile Char.isDigit = [] then none
      else some (signed negative (Json.readDigits ((afterSign text).takeWhile Char.isDigit))) := by
  obtain ⟨hsign, hafter⟩ := readSign_of_strip hstrip hdigits
  have hchars : ∀ char ∈ afterSign text, isSpaceChar char = false → char.isDigit = true := by
    intro char hmem hblank
    apply hdigits
    rw [← hafter, strip, List.mem_filter]
    exact ⟨hmem, by rw [hblank]; rfl⟩
  have hhex : hexPrefix (afterSign text) = none := by
    unfold hexPrefix
    split
    · next heq =>
      have hx := hchars 'x' (heq ▸ by simp) (by decide)
      cases hx
    · next heq =>
      have hx := hchars 'X' (heq ▸ by simp) (by decide)
      cases hx
    · rfl
  rw [parseInt, readUnsigned, hhex, hsign]
  show Option.map (signed negative) (if _ then none else some _) = _
  split <;> rfl

/-- The digits are those up to the first blank, and those after it. -/
theorem takeWhile_append_strip (text : Str) :
    strip text = text.takeWhile Char.isDigit ++ strip (text.dropWhile Char.isDigit) := by
  have hdigits : strip (text.takeWhile Char.isDigit) = text.takeWhile Char.isDigit := by
    rw [strip, List.filter_eq_self]
    intro char hchar
    rw [isSpaceChar_of_isDigit (List.mem_takeWhile_imp hchar)]
    rfl
  conv_lhs => rw [← List.takeWhile_append_dropWhile (p := Char.isDigit) (l := text)]
  rw [strip, List.filter_append]
  exact congrArg (· ++ _) hdigits

end Signed

end Playground.Library
