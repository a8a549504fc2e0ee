import Mathlib.Data.Set.Function
import Playground.Library.Bytes
import Playground.Library.ParseInt

/-!
# The integers of an IDL

The integer types `u8` to `i128` of `client/src/utils/pg/program-interaction/idl-types.ts`. A text is
checked by way of `bn.js`, which strips all blanks, and then read again: by `parseInt`, which stops at the
first blank, or for eight bytes and more by `bn.js` once more (`parse`). The bytes of a value are those of
its magnitude, except for the types of one byte (`toBuffer`).

`parsesSoundly_iff` says for which texts what is parsed is what has been checked, and
`encodes_iff_and_injective_iff` which values are encoded as their two's complement, and for which types
different values have different bytes.

What the code relies on of `bn.js` is in `BigNumber`, for the bytes of a number, and `BigNumber.Lawful`, for
its digits. Not formalized here: the values that are generated at random.
-/

set_option autoImplicit false
set_option relaxedAutoImplicit false

namespace Playground.PgProgramInteraction

open Library

/-! ### The types -/

/-- The integer types. -/
inductive IntegerType
  | u8
  | u16
  | u32
  | u64
  | u128
  | i8
  | i16
  | i32
  | i64
  | i128
  deriving DecidableEq

/-- `new BN(text)` of `bn.js`, which throws with a message, and `toArrayLike(Buffer, "le", len)`, which gives
the bytes of the magnitude if they fit. -/
structure BigNumber where
  new : Str → Except Str ℤ
  toArrayLike : ℤ → ℕ → Except Str (List UInt8)
  toArrayLike_of_lt : ∀ (bn : ℤ) (len : ℕ), bn.natAbs < 256 ^ len →
    toArrayLike bn len = .ok (bytesOf len bn.natAbs)

/-- `new BN(new Array(len).fill(0xff))`. -/
def allOnes (len : ℕ) : ℤ :=
  256 ^ len - 1

/-- `divn(2)` of it. -/
def intMax (len : ℕ) : ℤ :=
  allOnes len / 2

variable (bigNumber : BigNumber)

/-- `assertUint`. The number that has been checked is not returned by the code, which reads it again. -/
def assertUint (value : Str) (len : ℕ) : Except Str ℤ :=
  if value = [] then .error "Cannot be empty".toList
  else
    match bigNumber.new value with
    | .error message => .error message
    | .ok bn =>
      if bn < 0 then .error ("uint cannot be negative: ".toList ++ value)
      else if bn > allOnes len then .error (value ++ " is not within range".toList)
      else .ok bn

/-- `assertInt`. -/
def assertInt (value : Str) (len : ℕ) : Except Str ℤ :=
  if value = [] then .error "Cannot be empty".toList
  else
    match bigNumber.new value with
    | .error message => .error message
    | .ok bn =>
      if bn > intMax len ∨ bn < -(intMax len + 1) then .error (value ++ " is not within range".toList)
      else .ok bn

/-- `parse`. A value is a number or a `BN`; the number `NaN` is `none`. -/
def IntegerType.parse (value : Str) : IntegerType → Except Str (Option ℤ)
  | u8 => do
    let _ ← assertUint bigNumber value 1
    return parseInt value
  | u16 => do
    let _ ← assertUint bigNumber value 2
    return parseInt value
  | u32 => do
    let _ ← assertUint bigNumber value 4
    return parseInt value
  | u64 => do
    let _ ← assertUint bigNumber value 8
    some <$> bigNumber.new value
  | u128 => do
    let _ ← assertUint bigNumber value 16
    some <$> bigNumber.new value
  | i8 => do
    let _ ← assertInt bigNumber value 1
    return parseInt value
  | i16 => do
    let _ ← assertInt bigNumber value 2
    return parseInt value
  | i32 => do
    let _ ← assertInt bigNumber value 4
    return parseInt value
  | i64 => do
    let _ ← assertInt bigNumber value 8
    some <$> bigNumber.new value
  | i128 => do
    let _ ← assertInt bigNumber value 16
    some <$> bigNumber.new value

/-- `Buffer.from([value])`: the lowest byte of a number, and zero for `NaN`. -/
def bufferFrom (value : Option ℤ) : List UInt8 :=
  [UInt8.ofNat ((value.getD 0) % 256).toNat]

/-- `new BN(value).toArrayLike(Buffer, "le", len)`. The `BN` of `NaN` is zero. -/
def bnToBuffer (value : Option ℤ) (len : ℕ) : Except Str (List UInt8) :=
  bigNumber.toArrayLike (value.getD 0) len

/-- `toBuffer`. -/
def IntegerType.toBuffer (value : Option ℤ) : IntegerType → Except Str (List UInt8)
  | u8 => .ok (bufferFrom value)
  | u16 => bnToBuffer bigNumber value 2
  | u32 => bnToBuffer bigNumber value 4
  | u64 => bnToBuffer bigNumber value 8
  | u128 => bnToBuffer bigNumber value 16
  | i8 => .ok (bufferFrom value)
  | i16 => bnToBuffer bigNumber value 2
  | i32 => bnToBuffer bigNumber value 4
  | i64 => bnToBuffer bigNumber value 8
  | i128 => bnToBuffer bigNumber value 16

/-! ### What the types are -/

namespace IntegerType

/-- The number of bytes. -/
def len : IntegerType → ℕ
  | u8 | i8 => 1
  | u16 | i16 => 2
  | u32 | i32 => 4
  | u64 | i64 => 8
  | u128 | i128 => 16

/-- The signed types. -/
def isSigned : IntegerType → Bool
  | i8 | i16 | i32 | i64 | i128 => true
  | _ => false

/-- The types whose values are `BN`s. -/
def isBig (type : IntegerType) : Bool :=
  8 ≤ type.len

/-- The values of a type. -/
def InRange (type : IntegerType) (value : ℤ) : Prop :=
  if type.isSigned then -256 ^ type.len ≤ 2 * value ∧ 2 * value < 256 ^ type.len
  else 0 ≤ value ∧ value < 256 ^ type.len

instance (type : IntegerType) (value : ℤ) : Decidable (type.InRange value) := by
  unfold InRange
  infer_instance

/-- A value of a type. -/
abbrev Value (type : IntegerType) := {value : ℤ // type.InRange value}

end IntegerType

/-! ### Big numbers -/

/-- What the code relies on: blanks are stripped, and what is left is a sign and digits in base ten. What
comes of no digits is left open. -/
structure BigNumber.Lawful : Prop where
  blanks : ∀ text : Str, bigNumber.new text = bigNumber.new (strip text)
  digits : ∀ (negative : Bool) (digits : Str), digits ≠ [] → (∀ char ∈ digits, char.isDigit = true) →
    bigNumber.new (signText negative ++ digits) = .ok (signed negative (Json.readDigits digits))
  rejects : ∀ (text : Str) (value : ℤ), (∀ char ∈ text, isSpaceChar char = false) →
    bigNumber.new text = .ok value → ∃ (negative : Bool) (digits : Str),
      text = signText negative ++ digits ∧ ∀ char ∈ digits, char.isDigit = true

/-- A minus sign, and what follows it. -/
def readMinus : Str → Bool × Str
  | '-' :: rest => (true, rest)
  | text => (false, text)

/-- The number that a text without blanks stands for. No digits are zero. -/
def readDecimal (text : Str) : Except Str ℤ :=
  if (readMinus text).2.all Char.isDigit then
    .ok (signed (readMinus text).1 (Json.readDigits (readMinus text).2))
  else .error "Invalid character".toList

/-- Big numbers that are read so. -/
def referenceBigNumber : BigNumber where
  new text := readDecimal (strip text)
  toArrayLike bn len :=
    if bn.natAbs < 256 ^ len then .ok (bytesOf len bn.natAbs)
    else .error "byte array longer than desired length".toList
  toArrayLike_of_lt _ _ hfits := if_pos hfits

/-! ### Parsing -/

/-- The check of a type. -/
def IntegerType.check (type : IntegerType) (value : Str) : Except Str ℤ :=
  if type.isSigned then assertInt bigNumber value type.len else assertUint bigNumber value type.len

/-- A text has one row of digits, with blanks around it and a sign before it; or it has several ones and
all are zeros. -/
def IsPlain (text : Str) : Prop :=
  (afterSign text).takeWhile Char.isDigit ≠ [] ∧
    ((∀ char ∈ (afterSign text).dropWhile Char.isDigit, isSpaceChar char = true) ∨
      ∀ char ∈ afterSign text, isSpaceChar char = true ∨ char = '0')

instance (text : Str) : Decidable (IsPlain text) := by
  unfold IsPlain
  infer_instance

/-- What is parsed is an integer of the type, and the one that has been checked. -/
def ParsesSoundly (type : IntegerType) (text : Str) : Prop :=
  ∀ value, type.parse bigNumber text = .ok value →
    ∃ integer, value = some integer ∧ type.InRange integer ∧ bigNumber.new text = .ok integer

variable {bigNumber}

/-- `assertUint` lets the numbers through that fit. -/
theorem assertUint_eq_ok_iff {text : Str} {len : ℕ} {bn : ℤ} :
    assertUint bigNumber text len = .ok bn ↔
      text ≠ [] ∧ bigNumber.new text = .ok bn ∧ 0 ≤ bn ∧ bn < 256 ^ len := by
  unfold assertUint
  by_cases hempty : text = []
  · simp [hempty]
  rw [if_neg hempty, and_iff_right hempty]
  cases hnew : bigNumber.new text with
  | error message => simp
  | ok number =>
    show (if number < 0 then _ else if number > 256 ^ len - 1 then _ else Except.ok number) =
      Except.ok bn ↔ _
    rw [Except.ok.injEq]
    by_cases hneg : number < 0
    · rw [if_pos hneg]
      refine iff_of_false nofun ?_
      rintro ⟨rfl, hnonneg, -⟩
      omega
    · rw [if_neg hneg]
      by_cases hgreat : number > 256 ^ len - 1
      · rw [if_pos hgreat]
        refine iff_of_false nofun ?_
        rintro ⟨rfl, -, hlt⟩
        omega
      · rw [if_neg hgreat, Except.ok.injEq]
        refine (and_iff_left_of_imp ?_).symm
        rintro rfl
        omega

/-- `assertInt` lets the numbers through of which there are as many negative ones as others. -/
theorem assertInt_eq_ok_iff {text : Str} {len : ℕ} (hlen : 0 < len) {bn : ℤ} :
    assertInt bigNumber text len = .ok bn ↔
      text ≠ [] ∧ bigNumber.new text = .ok bn ∧ -256 ^ len ≤ 2 * bn ∧ 2 * bn < 256 ^ len := by
  obtain ⟨half, hhalf⟩ : ∃ half : ℤ, (256 : ℤ) ^ len = 2 * half := by
    obtain ⟨rest, rfl⟩ := Nat.exists_eq_add_of_lt hlen
    refine ⟨128 * 256 ^ (0 + rest), ?_⟩
    rw [pow_succ]
    ring
  have hrange : ∀ number : ℤ, number > intMax len ∨ number < -(intMax len + 1) ↔
      ¬ (-256 ^ len ≤ 2 * number ∧ 2 * number < 256 ^ len) := by
    intro number
    rw [intMax, allOnes, hhalf]
    omega
  unfold assertInt
  by_cases hempty : text = []
  · simp [hempty]
  rw [if_neg hempty, and_iff_right hempty]
  cases hnew : bigNumber.new text with
  | error message => simp
  | ok number =>
    show (if number > intMax len ∨ number < -(intMax len + 1) then _ else Except.ok number) =
      Except.ok bn ↔ _
    rw [Except.ok.injEq]
    by_cases hout : number > intMax len ∨ number < -(intMax len + 1)
    · rw [if_pos hout]
      refine iff_of_false nofun ?_
      rintro ⟨rfl, hin⟩
      exact (hrange number).mp hout hin
    · rw [if_neg hout, Except.ok.injEq]
      refine (and_iff_left_of_imp ?_).symm
      rintro rfl
      exact not_not.mp (mt (hrange number).mpr hout)

/-- The check of a type lets its values through. -/
theorem check_eq_ok_iff {type : IntegerType} {text : Str} {bn : ℤ} :
    type.check bigNumber text = .ok bn ↔
      text ≠ [] ∧ bigNumber.new text = .ok bn ∧ type.InRange bn := by
  have hlen : 0 < type.len := by cases type <;> decide
  unfold IntegerType.check IntegerType.InRange
  by_cases hsigned : type.isSigned = true
  · rw [if_pos hsigned, if_pos hsigned]
    exact assertInt_eq_ok_iff hlen
  · rw [if_neg hsigned, if_neg hsigned]
    exact assertUint_eq_ok_iff

/-- A text is checked, and read again. -/
theorem parse_eq (type : IntegerType) (text : Str) :
    type.parse bigNumber text = type.check bigNumber text >>= fun _ ↦
      if type.isBig then some <$> bigNumber.new text else .ok (parseInt text) := by
  cases type <;> rfl

/-- A text that is checked is a sign and digits, but for its blanks. -/
theorem BigNumber.Lawful.strip_eq (hlawful : bigNumber.Lawful) {text : Str} {bn : ℤ}
    (hnew : bigNumber.new text = .ok bn) : ∃ (negative : Bool) (digits : Str),
      strip text = signText negative ++ digits ∧ (∀ char ∈ digits, char.isDigit = true) ∧
        (digits ≠ [] → bn = signed negative (Json.readDigits digits)) := by
  have hstrip : bigNumber.new (strip text) = .ok bn := (hlawful.blanks text).symm.trans hnew
  have hblanks : ∀ char ∈ strip text, isSpaceChar char = false := by
    intro char hchar
    simpa using (List.mem_filter.mp hchar).2
  obtain ⟨negative, digits, heq, hdigits⟩ := hlawful.rejects _ bn hblanks hstrip
  refine ⟨negative, digits, heq, hdigits, fun hne ↦ ?_⟩
  rw [heq, hlawful.digits negative digits hne hdigits] at hstrip
  exact (Except.ok.inj hstrip).symm

theorem signed_inj {negative : Bool} {first second : ℕ} :
    signed negative first = signed negative second ↔ first = second := by
  unfold signed
  split <;> omega

/-- A text that is checked is read as the number that has been checked exactly if it is plain. -/
theorem parseInt_eq_iff (hlawful : bigNumber.Lawful) {text : Str} {bn : ℤ}
    (hnew : bigNumber.new text = .ok bn) : parseInt text = some bn ↔ IsPlain text := by
  obtain ⟨negative, digits, hstrip, hdigits, hvalue⟩ := hlawful.strip_eq hnew
  have hafter := (readSign_of_strip hstrip hdigits).2
  have hsplit := takeWhile_append_strip (afterSign text)
  rw [hafter] at hsplit
  rw [parseInt_of_strip hstrip hdigits, IsPlain]
  generalize hrow : (afterSign text).takeWhile Char.isDigit = row at *
  by_cases hempty : row = []
  · rw [if_pos hempty]
    exact iff_of_false nofun fun h ↦ h.1 hempty
  · have hne : digits ≠ [] := hsplit ▸ List.append_ne_nil_of_left_ne_nil hempty _
    have hboth : ∀ char ∈ row ++ strip ((afterSign text).dropWhile Char.isDigit),
        char.isDigit = true := hsplit ▸ hdigits
    rw [List.forall_mem_append] at hboth
    have hblank : strip ((afterSign text).dropWhile Char.isDigit) = [] ↔
        ∀ char ∈ (afterSign text).dropWhile Char.isDigit, isSpaceChar char = true := by
      rw [strip, List.filter_eq_nil_iff]
      simp
    have hzeros : (∀ char ∈ row ++ strip ((afterSign text).dropWhile Char.isDigit), char = '0') ↔
        ∀ char ∈ afterSign text, isSpaceChar char = true ∨ char = '0' := by
      rw [← hsplit, ← hafter]
      simp only [strip, List.mem_filter, Bool.not_eq_true', and_imp]
      exact forall₂_congr fun char _ ↦ by rw [← Bool.not_eq_true, or_iff_not_imp_left]
    rw [if_neg hempty, and_iff_right hempty, Option.some.injEq, hvalue hne, signed_inj, hsplit,
      eq_comm, readDigits_append_eq_iff hboth.1 hboth.2, hblank, hzeros]

/-- A text that is accepted is read as the number that has been checked exactly if it is plain, or the type
has eight bytes or more. -/
theorem parsesSoundly_iff (hlawful : bigNumber.Lawful) (type : IntegerType) (text : Str) :
    ParsesSoundly bigNumber type text ↔
      ((∃ bn, type.check bigNumber text = .ok bn) → type.isBig = true ∨ IsPlain text) := by
  unfold ParsesSoundly
  rw [parse_eq]
  cases hcheck : type.check bigNumber text with
  | error message => exact iff_of_true (fun value hvalue ↦ nomatch hvalue) fun h ↦ nomatch h
  | ok bn =>
    obtain ⟨-, hnew, hrange⟩ := check_eq_ok_iff.mp hcheck
    rw [forall_prop_of_true ⟨bn, rfl⟩]
    show (∀ value, (if type.isBig then some <$> bigNumber.new text else .ok (parseInt text)) =
      Except.ok value → _) ↔ _
    rw [hnew]
    by_cases hbig : type.isBig = true
    · rw [if_pos hbig]
      refine iff_of_true (fun value hvalue ↦ ?_) (.inl hbig)
      exact ⟨bn, (Except.ok.inj hvalue).symm, hrange, rfl⟩
    · rw [if_neg hbig, or_iff_right hbig, ← parseInt_eq_iff hlawful hnew]
      constructor
      · intro hall
        obtain ⟨integer, hinteger, -, heq⟩ := hall _ rfl
        rw [hinteger, Except.ok.inj heq]
      · intro hparse value hvalue
        exact ⟨bn, (Except.ok.inj hvalue).symm.trans hparse, hrange, rfl⟩

/-- A text is a sign and what follows it. -/
theorem signText_readMinus (text : Str) :
    signText (readMinus text).1 ++ (readMinus text).2 = text := by
  unfold readMinus
  split <;> rfl

/-- A sign before digits is read. -/
theorem readMinus_signText (negative : Bool) {digits : Str}
    (hdigits : ∀ char ∈ digits, char.isDigit = true) :
    readMinus (signText negative ++ digits) = (negative, digits) := by
  cases negative with
  | true => rfl
  | false =>
    show readMinus digits = (false, digits)
    unfold readMinus
    split
    · next rest =>
      have hminus := hdigits '-' List.mem_cons_self
      cases hminus
    · rfl

/-- Big numbers can be read so. -/
theorem lawful_referenceBigNumber : referenceBigNumber.Lawful := by
  have hself : ∀ text : Str, (∀ char ∈ text, isSpaceChar char = false) → strip text = text := by
    intro text hblanks
    rw [strip, List.filter_eq_self]
    intro char hchar
    rw [hblanks char hchar]
    rfl
  constructor
  · intro text
    have htwice : strip (strip text) = strip text :=
      hself _ fun char hchar ↦ by simpa using (List.mem_filter.mp hchar).2
    exact congrArg readDecimal htwice.symm
  · intro negative digits hne hdigits
    have hblanks : ∀ char ∈ signText negative ++ digits, isSpaceChar char = false := by
      rw [List.forall_mem_append]
      refine ⟨fun char hchar ↦ ?_, fun char hchar ↦ isSpaceChar_of_isDigit (hdigits char hchar)⟩
      cases negative with
      | true =>
        obtain rfl := List.mem_singleton.mp hchar
        decide
      | false => cases hchar
    show readDecimal (strip (signText negative ++ digits)) = _
    rw [hself _ hblanks, readDecimal, readMinus_signText negative hdigits]
    exact if_pos (List.all_eq_true.mpr hdigits)
  · intro text value hblanks hnew
    replace hnew : readDecimal (strip text) = .ok value := hnew
    rw [hself text hblanks, readDecimal] at hnew
    refine ⟨(readMinus text).1, (readMinus text).2, (signText_readMinus text).symm, ?_⟩
    by_contra hnot
    rw [if_neg fun hall ↦ hnot (List.all_eq_true.mp hall)] at hnew
    cases hnew

/-- Blanks around the digits do no harm. -/
theorem parsesSoundly_iff_blank :
    IntegerType.u16.parse referenceBigNumber " 12 ".toList = .ok (some 12) ∧
      ParsesSoundly referenceBigNumber .u16 " 12 ".toList :=
  ⟨by decide +kernel, (parsesSoundly_iff lawful_referenceBigNumber .u16 _).mpr fun _ ↦
    .inr (by decide +kernel)⟩

/-- The text `1 2` is checked as twelve, and read as one. -/
theorem not_parsesSoundly :
    ¬ ∀ bigNumber : BigNumber, bigNumber.Lawful → ∀ (type : IntegerType) (text : Str),
      ParsesSoundly bigNumber type text := by
  intro hall
  obtain ⟨integer, hinteger, -, hnew⟩ :=
    hall referenceBigNumber lawful_referenceBigNumber .u8 "1 2".toList (some 1) (by decide +kernel)
  obtain rfl := Option.some.inj hinteger
  have htwelve : referenceBigNumber.new "1 2".toList = .ok 12 := by decide +kernel
  rw [htwelve] at hnew
  cases hnew

/-! ### Encoding -/

/-- The bytes of a value are its two's complement. -/
def Encodes (bigNumber : BigNumber) (type : IntegerType) (value : ℤ) : Prop :=
  type.toBuffer bigNumber (some value) = .ok (twosComplement type.len value)

/-- The magnitude of a value fits. -/
theorem IntegerType.InRange.natAbs_lt {type : IntegerType} {value : ℤ} (hrange : type.InRange value) :
    value.natAbs < 256 ^ type.len := by
  have hcast : ((256 ^ type.len : ℕ) : ℤ) = 256 ^ type.len := by norm_cast
  have hpos := pow_width_pos type.len
  unfold InRange at hrange
  split at hrange
  · omega
  · omega

/-- Two values of a type are not too far from each other. -/
theorem IntegerType.InRange.sub_lt {type : IntegerType} {first second : ℤ}
    (hfirst : type.InRange first) (hsecond : type.InRange second) :
    first - second < 256 ^ type.len := by
  unfold InRange at hfirst hsecond
  by_cases hsigned : type.isSigned = true
  · rw [if_pos hsigned] at hfirst hsecond
    omega
  · rw [if_neg hsigned] at hfirst hsecond
    omega

/-- A type has one byte, or its values are encoded by way of `bn.js`. -/
theorem toBuffer_eq (type : IntegerType) (value : ℤ) (hrange : type.InRange value) :
    type.toBuffer bigNumber (some value) =
      .ok (if type.len = 1 then twosComplement 1 value else bytesOf type.len value.natAbs) := by
  have hfits := hrange.natAbs_lt
  cases type with
  | u8 => rfl
  | i8 => rfl
  | _ => exact bigNumber.toArrayLike_of_lt _ _ hfits

/-- A value is encoded as its two's complement exactly if it is not negative, or the least one of its type,
or has one byte. -/
theorem encodes_iff {type : IntegerType} (value : type.Value) :
    Encodes bigNumber type value ↔ 0 ≤ value.1 ∨ 2 * value.1 = -256 ^ type.len ∨ type.len = 1 := by
  rw [Encodes, toBuffer_eq type value.1 value.2, Except.ok.injEq]
  by_cases hone : type.len = 1
  · rw [if_pos hone, hone]
    exact iff_of_true rfl (.inr (.inr rfl))
  · rw [if_neg hone, bytesOf_natAbs_eq_twosComplement_iff value.2.natAbs_lt]
    constructor
    · rintro (hnonneg | hleast)
      · exact .inl hnonneg
      · exact .inr (.inl hleast)
    · rintro (hnonneg | hleast | hlen)
      · exact .inl hnonneg
      · exact .inr hleast
      · exact absurd hlen hone

/-- Different values of a type have different bytes exactly if it has one byte or is unsigned. -/
theorem injOn_toBuffer_iff (type : IntegerType) :
    (∀ first second : type.Value,
      type.toBuffer bigNumber (some first.1) = type.toBuffer bigNumber (some second.1) →
        first = second) ↔ type.isSigned = false ∨ type.len = 1 := by
  have hpos := pow_width_pos type.len
  constructor
  · intro hinjective
    by_contra hnot
    obtain ⟨hsigned, hlen⟩ := not_or.mp hnot
    rw [Bool.not_eq_false] at hsigned
    have hwide : (256 : ℤ) ≤ 256 ^ type.len := by
      cases type <;> decide
    have hone : type.InRange 1 := by
      rw [IntegerType.InRange, if_pos hsigned]
      omega
    have hminus : type.InRange (-1) := by
      rw [IntegerType.InRange, if_pos hsigned]
      omega
    have hsame := hinjective ⟨1, hone⟩ ⟨-1, hminus⟩ (by
      rw [toBuffer_eq type 1 hone, toBuffer_eq type (-1) hminus, if_neg hlen, if_neg hlen]
      rfl)
    cases congrArg Subtype.val hsame
  · rintro hcase ⟨first, hfirst⟩ ⟨second, hsecond⟩ hsame
    apply Subtype.ext
    show first = second
    rw [toBuffer_eq type first hfirst, toBuffer_eq type second hsecond, Except.ok.injEq] at hsame
    by_cases hone : type.len = 1
    · rw [if_pos hone, if_pos hone, ← hone] at hsame
      exact twosComplement_injOn (hfirst.sub_lt hsecond) (hsecond.sub_lt hfirst) hsame
    · have hunsigned := hcase.resolve_right hone
      rw [if_neg hone, if_neg hone, bytesOf_inj hfirst.natAbs_lt hsecond.natAbs_lt] at hsame
      rw [IntegerType.InRange, hunsigned, if_neg Bool.false_ne_true] at hfirst hsecond
      omega

/-- Which values are encoded as their two's complement, and of which types different values have different
bytes. -/
theorem encodes_iff_and_injective_iff (bigNumber : BigNumber) (type : IntegerType) :
    (∀ value : type.Value,
      Encodes bigNumber type value ↔ 0 ≤ value.1 ∨ 2 * value.1 = -256 ^ type.len ∨ type.len = 1) ∧
    ((∀ first second : type.Value,
      type.toBuffer bigNumber (some first.1) = type.toBuffer bigNumber (some second.1) →
        first = second) ↔ type.isSigned = false ∨ type.len = 1) :=
  ⟨encodes_iff, injOn_toBuffer_iff type⟩

/-- The bytes of minus one are those of one. -/
theorem not_encodes :
    ¬ ∀ (bigNumber : BigNumber) (type : IntegerType) (value : type.Value), Encodes bigNumber type value := by
  intro hall
  have hminus := hall referenceBigNumber .i16 ⟨-1, by decide⟩
  have hone : IntegerType.i16.toBuffer referenceBigNumber (some (-1)) = .ok [1, 0] := by decide
  have htwos : twosComplement 2 (-1) = [255, 255] := by decide +kernel
  replace hminus : IntegerType.i16.toBuffer referenceBigNumber (some (-1)) =
    .ok (twosComplement 2 (-1)) := hminus
  rw [hone, htwos] at hminus
  exact absurd hminus (by decide)

end Playground.PgProgramInteraction
