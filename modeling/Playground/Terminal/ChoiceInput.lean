import Playground.Library.JsonText

/-!
# Choosing by index

`waitForUserInput` of `client/src/utils/pg/terminal/terminal.ts` lets the user choose an item of a list by its
index, or several ones. The default validator reads the input as the elements of a JSON array, and takes the
text of each element for a number. What is returned is read again: as a JSON array if several indices may be
given, and with `parseInt` otherwise.

The two readings differ where an element is not written as a number (`"1"`, `[1]`), and where a number has an
exponent or is rounded (`1e1`, `10e-1`). `returnsIndices_iff` says of which inputs the right indices are returned.

Not formalized here: the prompt and what is printed, confirmations, and validators that are passed to the
function.
-/

set_option autoImplicit false
set_option relaxedAutoImplicit false

namespace Playground.PgTerm

open Library JsonText Double

/-! ### The texts of values -/

/-- What is thrown while an input is validated. -/
inductive Thrown
  | syntaxError
  | typeError

mutual

/-- `toString` of a value that has been parsed. Nothing that has been parsed can be called. -/
def toText : JsonTree → Except Thrown Str
  | .null => .error .typeError
  | .boolean true => .ok "true".toList
  | .boolean false => .ok "false".toList
  | .number literal => .ok (numberText (toDouble literal.value))
  | .string value => .ok value
  | .array elements => (elementTexts elements).map fun texts ↦ [','].intercalate texts
  | .object members =>
    if "toString".toList ∈ members.map Prod.fst then .error .typeError
    else .ok "[object Object]".toList

/-- The texts that an array joins. That of `null` is empty. -/
def elementTexts : List JsonTree → Except Thrown (List Str)
  | [] => .ok []
  | .null :: rest => do
    let texts ← elementTexts rest
    pure ([] :: texts)
  | value :: rest => do
    let text ← toText value
    let texts ← elementTexts rest
    pure (text :: texts)

end

/-- The integer that a text stands for, if it consists of digits behind an optional minus sign. -/
def readIntText (text : Str) : Option ℤ :=
  if (readMinus text).2 ≠ [] ∧ ∀ char ∈ (readMinus text).2, char.isDigit = true then
    some (signed (readMinus text).1 (Json.readDigits (readMinus text).2))
  else none

/-- The number that is compared: a number itself, and of other values the one that their text stands for. -/
def comparedNumber (value : JsonTree) (integer : ℤ) : Double :=
  match value with
  | .number literal => toDouble literal.value
  | _ => toDouble integer

/-- The number of a value that the validator checks. There is none if `isInt` fails. -/
def checkedNumber (value : JsonTree) : Except Thrown (Option Double) := do
  let text ← toText value
  pure ((readIntText text).map (comparedNumber value))

/-- A number lies between two others. -/
def IsBetween (low high : ℚ) (number : Double) : Prop :=
  match number with
  | finite value => low ≤ value ∧ value ≤ high
  | infinite _ => False

instance decidableIsBetween (low high : ℚ) : DecidablePred (IsBetween low high) := fun number ↦ by
  cases number <;> unfold IsBetween <;> infer_instance

/-! ### The validator and the result -/

/-- The options of `waitForUserInput` with a choice. -/
structure ChoiceOptions where
  items : List Str
  allowMultiple : Bool
  allowEmpty : Bool
  default : Option Str

/-- `choiceMaxLength`. -/
def choiceMaxLength (options : ChoiceOptions) : ℚ :=
  options.items.length - 1

/-- The test of one element. -/
def isChoice (options : ChoiceOptions) (value : JsonTree) : Except Thrown Bool := do
  match ← checkedNumber value with
  | none => pure false
  | some number => pure (decide (IsBetween 0 (choiceMaxLength options) number))

/-- `parsed.every`. -/
def everyChoice (options : ChoiceOptions) : List JsonTree → Except Thrown Bool
  | [] => pure true
  | value :: rest => do
    if ← isChoice options value then everyChoice options rest else pure false

/-- The elements as which an input is parsed. -/
def parsedElements (input : Str) : Option (List JsonTree) :=
  match parse ('[' :: (input ++ [']'])) with
  | some (.array elements) => some elements
  | _ => none

/-- The default validator. -/
def validator (options : ChoiceOptions) (input : Str) : Except Thrown Bool :=
  match parsedElements input with
  | none => .error .syntaxError
  | some parsed =>
    if options.allowMultiple = true ∨ parsed.length = 1 then everyChoice options parsed
    else pure false

/-- What is returned: a number, which may be `NaN`, or a list. -/
inductive Answer
  | number (value : Option ℤ)
  | list (values : List JsonTree)

/-- The value that is returned for an input. -/
def returnValue (options : ChoiceOptions) (userInput : Str) : Option Answer :=
  if options.allowMultiple then (parsedElements userInput).map .list
  else some (.number (parseInt userInput))

/-- `waitForUserInput` with what the user types: the value that is returned, if the user is not asked
again. -/
def waitForUserInput (options : ChoiceOptions) (typed : Str) : Option Answer :=
  let userInput := if typed = [] then options.default.getD [] else typed
  if userInput = [] then
    if options.allowEmpty then returnValue options userInput else none
  else
    match validator options userInput with
    | .ok true => returnValue options userInput
    | _ => none

/-! ### Indices -/

/-- The value is written as a number that is an index of the items, and checked as such. -/
def IsIndex (options : ChoiceOptions) (value : JsonTree) (index : ℕ) : Prop :=
  (∃ literal, value = .number literal) ∧ index < options.items.length ∧
    checkedNumber value = .ok (some (finite index))

/-- Whatever is returned for an input is an index of the items, the one that was checked, or a list of such
indices if several may be given. -/
def ReturnsIndices (options : ChoiceOptions) (typed : Str) : Prop :=
  ∀ answer, waitForUserInput options typed = some answer →
    (options.allowMultiple = false → ∃ index < options.items.length,
      answer = .number (some (index : ℤ)) ∧ ∃ value, parsedElements typed = some [value] ∧
        checkedNumber value = .ok (some (finite index))) ∧
    (options.allowMultiple = true → ∃ values, answer = .list values ∧
      ∀ value ∈ values, ∃ index, IsIndex options value index)

/-- If the validator accepts an input, then its elements are written as numbers, and where only one is
returned the number is, rounded, that of the digits before the point. -/
def IsPlainChoice (options : ChoiceOptions) (typed : Str) : Prop :=
  validator options typed = .ok true → ∃ parsed, parsedElements typed = some parsed ∧
    ∀ value ∈ parsed, ∃ literal, value = .number literal ∧
      (options.allowMultiple = false → toDouble literal.value = finite literal.integerPart)

/-! ### What the validator accepts -/

section Validator

variable {options : ChoiceOptions} {value : JsonTree}

/-- An element that is accepted is checked as a number between the bounds. -/
theorem isChoice_eq_ok_true (haccepts : isChoice options value = .ok true) :
    ∃ number, checkedNumber value = .ok (some number) ∧
      IsBetween 0 (choiceMaxLength options) number := by
  unfold isChoice at haccepts
  cases hchecked : checkedNumber value with
  | error thrown =>
    rw [hchecked] at haccepts
    cases haccepts
  | ok number =>
    rw [hchecked] at haccepts
    cases number with
    | none => cases haccepts
    | some number => exact ⟨number, rfl, of_decide_eq_true (Except.ok.inj haccepts)⟩

theorem isChoice_of_checkedNumber {number : Double} (hchecked : checkedNumber value = .ok (some number))
    (hbetween : IsBetween 0 (choiceMaxLength options) number) : isChoice options value = .ok true := by
  unfold isChoice
  rw [hchecked]
  exact congrArg Except.ok (decide_eq_true hbetween)

/-- If all are accepted, each is. -/
theorem isChoice_of_everyChoice {parsed : List JsonTree}
    (haccepts : everyChoice options parsed = .ok true) :
    ∀ value ∈ parsed, isChoice options value = .ok true := by
  induction parsed with
  | nil => exact fun value hmem ↦ absurd hmem List.not_mem_nil
  | cons first rest ih =>
    rw [everyChoice] at haccepts
    cases hfirst : isChoice options first with
    | error thrown =>
      rw [hfirst] at haccepts
      cases haccepts
    | ok accepted =>
      rw [hfirst] at haccepts
      cases accepted with
      | false => cases haccepts
      | true => exact List.forall_mem_cons.mpr ⟨hfirst, ih haccepts⟩

/-- What the validator accepts is parsed to elements that it accepts. -/
theorem validator_eq_ok_true {input : Str} (haccepts : validator options input = .ok true) :
    ∃ parsed, parsedElements input = some parsed ∧
      (options.allowMultiple = true ∨ parsed.length = 1) ∧
      ∀ value ∈ parsed, isChoice options value = .ok true := by
  unfold validator at haccepts
  split at haccepts
  · cases haccepts
  · next parsed hparsed =>
    split at haccepts
    · next hlength => exact ⟨parsed, hparsed, hlength, isChoice_of_everyChoice haccepts⟩
    · cases haccepts

/-- A text that is taken for an integer consists of digits and a minus sign. -/
theorem plain_of_readIntText {text : Str} (hinteger : (readIntText text).isSome = true) :
    ∀ char ∈ text, char.isDigit = true ∨ char = '-' := by
  unfold readIntText at hinteger
  split at hinteger
  · next hdigits =>
    intro char hchar
    unfold readMinus at hdigits
    split at hdigits
    · rcases List.mem_cons.mp hchar with rfl | hrest
      · exact .inr rfl
      · exact .inl (hdigits.2 char hrest)
    · exact .inl (hdigits.2 char hchar)
  · cases hinteger

theorem checkedNumber_number (literal : NumberLiteral) : checkedNumber (.number literal) =
    .ok ((readIntText (numberText (toDouble literal.value))).map fun _ ↦ toDouble literal.value) := by
  rw [checkedNumber, toText]
  rfl

/-- The number of a literal that is accepted is an index. -/
theorem exists_index_of_isChoice {literal : NumberLiteral}
    (haccepts : isChoice options (.number literal) = .ok true) : ∃ index < options.items.length,
      toDouble literal.value = finite index ∧
        checkedNumber (.number literal) = .ok (some (finite index)) := by
  obtain ⟨number, hchecked, hbetween⟩ := isChoice_eq_ok_true haccepts
  rw [checkedNumber_number] at hchecked ⊢
  obtain ⟨integer, hinteger, rfl⟩ := Option.map_eq_some_iff.mp (Except.ok.inj hchecked)
  generalize toDouble literal.value = double at hbetween hinteger hchecked
  cases double with
  | infinite negative => exact absurd hbetween id
  | finite value =>
    obtain ⟨hlow, hhigh⟩ := hbetween
    obtain ⟨whole, rfl⟩ := exists_intCast_of_numberText
      (plain_of_readIntText (Option.isSome_iff_exists.mpr ⟨integer, hinteger⟩))
    obtain ⟨index, rfl⟩ := Int.eq_ofNat_of_zero_le (Int.cast_nonneg_iff.mp hlow)
    have hcast : ((Int.ofNat index : ℤ) : ℚ) = (index : ℚ) := Int.cast_natCast index
    refine ⟨index, ?_, congrArg finite hcast, hcast ▸ hchecked⟩
    rw [choiceMaxLength, Int.cast_natCast, le_sub_iff_add_le] at hhigh
    exact_mod_cast hhigh

end Validator

/-! ### What is returned -/

section Result

variable {options : ChoiceOptions} {typed : Str}

/-- What is parsed has been read between the brackets. -/
theorem readArray_of_parsedElements {parsed : List JsonTree}
    (hparsed : parsedElements typed = some parsed) :
    ∃ fuel rest, readArray fuel (typed ++ [']']) = some (parsed, rest) := by
  unfold parsedElements parse at hparsed
  cases hread : readValue (2 * ('[' :: (typed ++ [']'])).length + 1) ('[' :: (typed ++ [']'])) with
  | none =>
    rw [hread] at hparsed
    cases hparsed
  | some read =>
    obtain ⟨tree, rest⟩ := read
    rw [hread] at hparsed
    simp only at hparsed
    split at hparsed
    · next elements htree =>
      obtain rfl := Option.some.inj hparsed
      split at htree
      · obtain rfl := Option.some.inj htree
        obtain ⟨tail, htail, harray⟩ := skipBlanks_of_readArray hread
        obtain rfl := (List.cons.inj htail).2
        exact ⟨_, rest, harray⟩
      · cases htree
    · cases hparsed

/-- The only element of an input, and what follows it. -/
theorem readValue_of_parsedElements {value : JsonTree}
    (hparsed : parsedElements typed = some [value]) : ∃ fuel rest,
      readValue fuel (skipBlanks (typed ++ [']'])) = some (value, rest) ∧
        ∃ tail, skipBlanks rest = ']' :: tail := by
  obtain ⟨fuel, rest, harray⟩ := readArray_of_parsedElements hparsed
  cases fuel with
  | zero => cases harray
  | succ fuel =>
    rw [readArray] at harray
    split at harray
    · cases harray
    · obtain ⟨⟨first, middle⟩, hfirst, harray⟩ := Option.bind_eq_some_iff.mp harray
      obtain ⟨⟨others, after⟩, hothers, harray⟩ := Option.bind_eq_some_iff.mp harray
      obtain ⟨hcons, -⟩ := Prod.mk.inj (Option.some.inj harray)
      obtain ⟨rfl, rfl⟩ := List.cons.inj hcons
      refine ⟨fuel, middle, hfirst, ?_⟩
      cases fuel with
      | zero => cases hothers
      | succ fuel =>
        rw [readElements] at hothers
        split at hothers
        · next tail htail => exact ⟨tail, htail⟩
        · obtain ⟨⟨next, more⟩, -, hothers⟩ := Option.bind_eq_some_iff.mp hothers
          obtain ⟨⟨rest, last⟩, -, hothers⟩ := Option.bind_eq_some_iff.mp hothers
          obtain ⟨hcons, -⟩ := Prod.mk.inj (Option.some.inj hothers)
          cases hcons
        · cases hothers

/-- What the input is read as by `parseInt` is seen behind the blanks. -/
theorem parseInt_eq_skipBlanks (typed : Str) :
    parseInt typed = parseInt (skipBlanks (skipBlanks (typed ++ [']']))) := by
  rw [parseInt_skipBlanks, parseInt_skipBlanks, parseInt_append_bracket]

/-- Of a number `parseInt` reads the digits before the point. -/
theorem parseInt_of_number {literal : NumberLiteral}
    (hparsed : parsedElements typed = some [.number literal]) :
    parseInt typed = some literal.integerPart := by
  obtain ⟨fuel, rest, hread, tail, htail⟩ := readValue_of_parsedElements hparsed
  rw [parseInt_eq_skipBlanks]
  refine parseInt_of_readNumber (readNumber_of_readValue hread) fun char hchar ↦ ?_
  -- The number is followed by a blank or by the bracket.
  cases rest with
  | nil => cases hchar
  | cons first others =>
    obtain rfl := Option.some.inj hchar
    have hends : isBlank first = true ∨ first = ']' := by
      by_cases hblank : isBlank first = true
      · exact .inl hblank
      · rw [skipBlanks, List.dropWhile_cons_of_neg hblank] at htail
        exact .inr (List.cons.inj htail).1
    rcases hends with hblank | rfl
    · constructor
      · rintro rfl
        cases hblank
      · rintro rfl
        cases hblank
    · exact ⟨by decide, by decide⟩

theorem parseInt_of_string {value : Str} (hparsed : parsedElements typed = some [.string value]) :
    parseInt typed = none := by
  obtain ⟨fuel, rest, hread, -⟩ := readValue_of_parsedElements hparsed
  obtain ⟨tail, htail⟩ := skipBlanks_of_readString hread
  rw [parseInt_eq_skipBlanks, htail]
  exact parseInt_eq_none rfl (by decide) (by decide) rfl

theorem parseInt_of_array {elements : List JsonTree}
    (hparsed : parsedElements typed = some [.array elements]) : parseInt typed = none := by
  obtain ⟨fuel, rest, hread, -⟩ := readValue_of_parsedElements hparsed
  obtain ⟨tail, htail, -⟩ := skipBlanks_of_readArray hread
  rw [parseInt_eq_skipBlanks, htail]
  exact parseInt_eq_none rfl (by decide) (by decide) rfl

/-- Only numbers, strings and arrays are checked as numbers. -/
theorem cases_of_checkedNumber {value : JsonTree} {number : Double}
    (hchecked : checkedNumber value = .ok (some number)) : (∃ literal, value = .number literal) ∨
      (∃ text, value = .string text) ∨ ∃ elements, value = .array elements := by
  cases value with
  | number literal => exact .inl ⟨literal, rfl⟩
  | string text => exact .inr (.inl ⟨text, rfl⟩)
  | array elements => exact .inr (.inr ⟨elements, rfl⟩)
  | null => cases hchecked
  | boolean value => cases value <;> cases hchecked
  | object members =>
    unfold checkedNumber toText at hchecked
    split at hchecked <;> cases hchecked

/-- What is returned for an input that is not empty. -/
theorem waitForUserInput_eq_some_iff (htyped : typed ≠ []) {answer : Answer} :
    waitForUserInput options typed = some answer ↔
      validator options typed = .ok true ∧ returnValue options typed = some answer := by
  unfold waitForUserInput
  simp only [if_neg htyped]
  split
  · next haccepts => simp [haccepts]
  · next hrejects =>
    rw [iff_false_left (Option.some_ne_none _).symm, not_and]
    exact fun haccepts ↦ absurd haccepts hrejects

/-- With one choice the right index is returned exactly if the input is plain. -/
theorem returnsIndices_single_iff (htyped : typed ≠ []) (hsingle : options.allowMultiple = false) :
    ReturnsIndices options typed ↔ IsPlainChoice options typed := by
  have hreturned : returnValue options typed = some (.number (parseInt typed)) := by
    rw [returnValue, hsingle]
    rfl
  constructor
  · intro hreturns haccepts
    obtain ⟨hfirst, -⟩ := hreturns _
      ((waitForUserInput_eq_some_iff htyped).mpr ⟨haccepts, hreturned⟩)
    obtain ⟨index, -, hanswer, value, hparsed, hchecked⟩ := hfirst hsingle
    have hindex : parseInt typed = some (index : ℤ) := Answer.number.inj hanswer
    refine ⟨[value], hparsed, List.forall_mem_singleton.mpr ?_⟩
    rcases cases_of_checkedNumber hchecked with ⟨literal, rfl⟩ | ⟨text, rfl⟩ | ⟨elements, rfl⟩
    · refine ⟨literal, rfl, fun _ ↦ ?_⟩
      rw [parseInt_of_number hparsed] at hindex
      rw [checkedNumber_number] at hchecked
      obtain ⟨_, -, hdouble⟩ := Option.map_eq_some_iff.mp (Except.ok.inj hchecked)
      rw [hdouble, Option.some.inj hindex, Int.cast_natCast]
    · rw [parseInt_of_string hparsed] at hindex
      cases hindex
    · rw [parseInt_of_array hparsed] at hindex
      cases hindex
  · intro hplain answer hanswer
    obtain ⟨haccepts, hvalue⟩ := (waitForUserInput_eq_some_iff htyped).mp hanswer
    obtain rfl := Option.some.inj (hreturned.symm.trans hvalue)
    refine ⟨fun _ ↦ ?_, fun hmultiple ↦ absurd (hsingle.symm.trans hmultiple) Bool.false_ne_true⟩
    obtain ⟨parsed, hparsed, hlength, hchoices⟩ := validator_eq_ok_true haccepts
    obtain ⟨others, hothers, hliterals⟩ := hplain haccepts
    obtain rfl := Option.some.inj (hparsed.symm.trans hothers)
    obtain ⟨value, rfl⟩ := List.length_eq_one_iff.mp
      (hlength.resolve_left fun hmultiple ↦ absurd (hsingle.symm.trans hmultiple) Bool.false_ne_true)
    obtain ⟨literal, rfl, hinteger⟩ := hliterals value (List.mem_singleton_self value)
    obtain ⟨index, hlt, hdouble, hchecked⟩ :=
      exists_index_of_isChoice (hchoices _ (List.mem_singleton_self _))
    have hpart : literal.integerPart = index := by
      have hcast : (literal.integerPart : ℚ) = ((index : ℤ) : ℚ) := by
        rw [Int.cast_natCast]
        exact Double.finite.inj ((hinteger hsingle).symm.trans hdouble)
      exact Int.cast_injective hcast
    refine ⟨index, hlt, ?_, .number literal, hparsed, hchecked⟩
    rw [parseInt_of_number hparsed, hpart]

/-- With several choices indices are returned exactly if the input is plain. -/
theorem returnsIndices_multiple_iff (htyped : typed ≠ []) (hmultiple : options.allowMultiple = true) :
    ReturnsIndices options typed ↔ IsPlainChoice options typed := by
  have hreturned : returnValue options typed = (parsedElements typed).map .list := by
    rw [returnValue, hmultiple]
    rfl
  constructor
  · intro hreturns haccepts
    obtain ⟨parsed, hparsed, -, -⟩ := validator_eq_ok_true haccepts
    rw [hparsed] at hreturned
    obtain ⟨-, hlist⟩ := hreturns _
      ((waitForUserInput_eq_some_iff htyped).mpr ⟨haccepts, hreturned⟩)
    obtain ⟨values, hanswer, hindices⟩ := hlist hmultiple
    obtain rfl := Answer.list.inj hanswer
    refine ⟨parsed, hparsed, fun value hvalue ↦ ?_⟩
    obtain ⟨_, ⟨literal, hliteral⟩, -⟩ := hindices value hvalue
    exact ⟨literal, hliteral, fun hsingle ↦
      absurd (hsingle.symm.trans hmultiple) Bool.false_ne_true⟩
  · intro hplain answer hanswer
    obtain ⟨haccepts, hvalue⟩ := (waitForUserInput_eq_some_iff htyped).mp hanswer
    refine ⟨fun hsingle ↦ absurd (hsingle.symm.trans hmultiple) Bool.false_ne_true, fun _ ↦ ?_⟩
    obtain ⟨parsed, hparsed, -, hchoices⟩ := validator_eq_ok_true haccepts
    obtain ⟨others, hothers, hliterals⟩ := hplain haccepts
    obtain rfl := Option.some.inj (hparsed.symm.trans hothers)
    rw [hreturned, hparsed] at hvalue
    refine ⟨parsed, (Option.some.inj hvalue).symm, fun value hmem ↦ ?_⟩
    obtain ⟨literal, rfl, -⟩ := hliterals value hmem
    obtain ⟨index, hlt, -, hchecked⟩ := exists_index_of_isChoice (hchoices _ hmem)
    exact ⟨index, ⟨literal, rfl⟩, hlt, hchecked⟩

/-- Whatever is accepted of what the user types is returned as the indices that were checked exactly if it
is plain: every element is written as a number, and where only one may be given its value, rounded, is that
of the digits before its point. -/
theorem returnsIndices_iff (htyped : typed ≠ []) :
    ReturnsIndices options typed ↔ IsPlainChoice options typed := by
  cases hmultiple : options.allowMultiple with
  | false => exact returnsIndices_single_iff htyped hmultiple
  | true => exact returnsIndices_multiple_iff htyped hmultiple

end Result

/-- Two items, of which one is to be chosen. -/
def oneOfTwo : ChoiceOptions where
  items := ["first".toList, "second".toList]
  allowMultiple := false
  allowEmpty := false
  default := none

/-- The input `0` is plain, so what is returned for it is the first index. -/
theorem returnsIndices_zero : ReturnsIndices oneOfTwo ['0'] := by
  refine (returnsIndices_iff (List.cons_ne_nil _ _)).mpr fun _ ↦ ?_
  refine ⟨[.number ⟨false, ['0'], [], 0⟩], by rfl, List.forall_mem_singleton.mpr ⟨_, rfl, fun _ ↦ ?_⟩⟩
  have hvalue : NumberLiteral.value ⟨false, ['0'], [], 0⟩ = 0 := by
    simp [NumberLiteral.value, signed, Json.readDigits]
  have hinteger : NumberLiteral.integerPart ⟨false, ['0'], [], 0⟩ = 0 := by rfl
  rw [hvalue, hinteger, toDouble_zero, Int.cast_zero]

/-- Not every input that is accepted is returned as an index: for `"0"` in quotes `NaN` is returned. -/
theorem not_returnsIndices : ¬ ∀ (options : ChoiceOptions) (typed : Str), typed ≠ [] →
    ReturnsIndices options typed := by
  intro hall
  have hparsed : parsedElements ['"', '0', '"'] = some [.string ['0']] := by rfl
  have hchecked : checkedNumber (.string ['0']) = .ok (some (finite 0)) := by
    show Except.ok (some (toDouble ((0 : ℤ) : ℚ))) = _
    rw [Int.cast_zero, toDouble_zero]
  have hbetween : IsBetween 0 (choiceMaxLength oneOfTwo) (finite 0) := by
    refine ⟨le_rfl, ?_⟩
    norm_num [choiceMaxLength, oneOfTwo]
  have haccepts : validator oneOfTwo ['"', '0', '"'] = .ok true := by
    rw [validator, hparsed]
    show everyChoice oneOfTwo [.string ['0']] = .ok true
    rw [everyChoice, isChoice_of_checkedNumber hchecked hbetween]
    rfl
  have hanswer : waitForUserInput oneOfTwo ['"', '0', '"'] = some (.number none) :=
    (waitForUserInput_eq_some_iff (List.cons_ne_nil _ _)).mpr ⟨haccepts, by rfl⟩
  obtain ⟨hsingle, -⟩ := hall oneOfTwo _ (List.cons_ne_nil _ _) _ hanswer
  obtain ⟨index, -, hindex, -⟩ := hsingle rfl
  cases hindex

end Playground.PgTerm
