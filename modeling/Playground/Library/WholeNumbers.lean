import Playground.Library.Double

/-!
# Whole numbers of double precision

Two whole numbers of double precision have different texts (`numberText_natCast_injective`): seventeen
decimal digits are enough to tell a number from its neighbours (`toDouble_of_near`), a whole number has no
digits behind the point, and its digits and their exponent can be read off its text.

Sums are rounded at each addition (`Double.add`), and quotients once. As long as a sum is below 2⁵³ nothing
is rounded in it, and its quotient by a count is not carried over a whole number (`ceil_div_of_lt`).

Not formalized here: sums of infinities of different signs, which are no numbers.
-/

set_option autoImplicit false
set_option relaxedAutoImplicit false

namespace Playground.Library

namespace Double

/-! ### Neighbours -/

/-- A number that is less than a half away from an integer is rounded to it. -/
theorem roundHalfEven_of_near {value : ℚ} {integer : ℤ} (hnear : |value - integer| < 1 / 2) :
    roundHalfEven value = integer := by
  have hround := abs_le.mp (abs_roundHalfEven_sub_le value)
  have hnear := abs_lt.mp hnear
  have hlt : (roundHalfEven value : ℚ) < ((integer + 1 : ℤ) : ℚ) := by
    push_cast
    linarith
  have hgt : ((integer - 1 : ℤ) : ℚ) < roundHalfEven value := by
    push_cast
    linarith
  have hlt := Int.cast_lt.mp hlt
  have hgt := Int.cast_lt.mp hgt
  omega

/-- The last digit of a number of one at least. -/
theorem lastExponent_of_one_le {value : ℚ} (hone : 1 ≤ value) : lastExponent value = Int.log 2 value - 52 := by
  have hlog : 0 ≤ Int.log 2 value := by
    rw [← Int.log_one_right (R := ℚ) 2]
    exact Int.log_mono_right zero_lt_one hone
  rw [lastExponent, abs_of_pos (zero_lt_one.trans_le hone), max_eq_left (by omega)]

/-- What is near enough to a number of double precision is less than the next power of two. -/
theorem lt_zpow_of_near {value number : ℚ} {digits last : ℤ} (hvalue : value = digits * 2 ^ last)
    (hdigits : digits < 2 ^ 53) (hnear : number < value + value / 2 ^ 54) : number < 2 ^ (last + 53) := by
  have hpow : (0 : ℚ) < 2 ^ last := zpow_pos two_pos _
  have hle : (digits : ℚ) ≤ 2 ^ 53 - 1 := by exact_mod_cast Int.le_sub_one_of_lt hdigits
  calc number < digits * (1 + 1 / 2 ^ 54) * 2 ^ last := by
        rw [hvalue] at hnear
        exact hnear.trans_le (le_of_eq (by ring))
    _ ≤ (2 ^ 53 - 1) * (1 + 1 / 2 ^ 54) * 2 ^ last := by gcongr
    _ ≤ 2 ^ 53 * 2 ^ last := mul_le_mul_of_nonneg_right (by norm_num) hpow.le
    _ = 2 ^ (last + 53) := by
        rw [zpow_add₀ two_ne_zero, mul_comm]
        rfl

/-- The power of two that is next to a number is no less than what the number is near to. -/
theorem le_zpow_of_near {value number : ℚ} {digits last exponent : ℤ} (hvalue : value = digits * 2 ^ last)
    (hdigits : 2 ^ 52 ≤ digits) (hlt : digits < 2 ^ 53) (hnear : value - value / 2 ^ 54 < number)
    (hnumber : number < 2 ^ exponent) : value ≤ 2 ^ exponent := by
  have hpow : (0 : ℚ) < 2 ^ last := zpow_pos two_pos _
  have hle : (2 : ℚ) ^ 52 ≤ digits := by exact_mod_cast hdigits
  have hlt : (digits : ℚ) < 2 ^ 53 := by exact_mod_cast hlt
  -- the power has no digits behind the last one of the number
  have hexponent : last ≤ exponent := by
    have hbelow : (2 : ℚ) ^ last < 2 ^ exponent := by
      refine lt_trans ?_ (hnear.trans hnumber)
      rw [hvalue]
      have hscaled : (1 : ℚ) < digits * (1 - 1 / 2 ^ 54) := by
        refine lt_of_lt_of_le ?_ (mul_le_mul_of_nonneg_right hle (by norm_num))
        norm_num
      calc (2 : ℚ) ^ last = 1 * 2 ^ last := (one_mul _).symm
        _ < digits * (1 - 1 / 2 ^ 54) * 2 ^ last := mul_lt_mul_of_pos_right hscaled hpow
        _ = digits * 2 ^ last - digits * 2 ^ last / 2 ^ 54 := by ring
    exact ((zpow_lt_zpow_iff_right₀ one_lt_two).mp hbelow).le
  obtain ⟨power, hpower⟩ := Int.eq_ofNat_of_zero_le (sub_nonneg.mpr hexponent)
  have hwhole : (2 : ℚ) ^ exponent = ((2 ^ power : ℤ) : ℚ) * 2 ^ last := by
    rw [eq_add_of_sub_eq hpower, zpow_add₀ two_ne_zero, zpow_natCast]
    push_cast
    rfl
  by_contra hgreater
  rw [not_le, hwhole, hvalue, mul_lt_mul_iff_left₀ hpow, Int.cast_lt] at hgreater
  have hstep : ((2 ^ power : ℤ) : ℚ) + 1 ≤ digits := by exact_mod_cast hgreater
  have hhalf : value / 2 ^ 54 < 2 ^ last / 2 := by
    rw [hvalue]
    calc (digits : ℚ) * 2 ^ last / 2 ^ 54 < 2 ^ 53 * 2 ^ last / 2 ^ 54 := by gcongr
      _ = 2 ^ last / 2 := by ring
  have hgap : (2 : ℚ) ^ exponent + 2 ^ last ≤ value := by
    rw [hwhole, hvalue, ← add_one_mul]
    exact mul_le_mul_of_nonneg_right hstep hpow.le
  linarith

/-- A number that is near enough to one of double precision is rounded to it. -/
theorem toDouble_of_near {value number : ℚ} (hdouble : toDouble value = finite value) (hone : 1 ≤ value)
    (hnear : |number - value| < value / 2 ^ 54) : toDouble number = finite value := by
  obtain ⟨hbelow, habove⟩ := abs_lt.mp hnear
  have hpos : 0 < value := zero_lt_one.trans_le hone
  have hnumber : 0 < number := by
    have hsmall : value / 2 ^ 54 < value := div_lt_self hpos (by norm_num)
    linarith
  obtain ⟨hvalue, hfits⟩ := toDouble_eq_finite hdouble
  generalize hdigits : roundHalfEven (value / 2 ^ lastExponent value) = digits at hvalue
  have hlast := lastExponent_of_one_le hone
  have hpow : (0 : ℚ) < 2 ^ lastExponent value := zpow_pos two_pos _
  have hscale : (digits : ℚ) = value / 2 ^ lastExponent value := eq_div_of_mul_eq hpow.ne' hvalue.symm
  have hleast : (2 : ℤ) ^ 52 ≤ digits := by
    have hlog := Int.zpow_log_le_self (R := ℚ) one_lt_two hpos
    rw [Nat.cast_two] at hlog
    have hle : (2 : ℚ) ^ 52 ≤ digits := by
      rw [hscale, le_div_iff₀ hpow, hlast, ← zpow_natCast, ← zpow_add₀ two_ne_zero]
      exact (le_of_eq (by congr 1; push_cast; ring)).trans hlog
    exact_mod_cast hle
  have hgreatest : digits < 2 ^ 53 := by
    have hlog := Int.lt_zpow_succ_log_self (R := ℚ) one_lt_two value
    rw [Nat.cast_two] at hlog
    have hlt : (digits : ℚ) < 2 ^ 53 := by
      rw [hscale, div_lt_iff₀ hpow, hlast, ← zpow_natCast, ← zpow_add₀ two_ne_zero]
      exact hlog.trans_le (le_of_eq (by congr 1; push_cast; ring))
    exact_mod_cast hlt
  -- the number has a digit at the last place of the value, and its own last digit is small enough
  have hless : lastExponent number ≤ lastExponent value := by
    have hlt := (Int.lt_zpow_iff_log_lt (R := ℚ) one_lt_two hnumber).mp
      (by rw [Nat.cast_two]; exact lt_zpow_of_near hvalue hgreatest (by linarith))
    have hzero : (0 : ℤ) ≤ Int.log 2 value := by
      rw [← Int.log_one_right (R := ℚ) 2]
      exact Int.log_mono_right zero_lt_one hone
    rw [lastExponent, abs_of_pos hnumber]
    omega
  have hwide : value ≤ 2 ^ (lastExponent number + 53) := by
    have hnext := Int.lt_zpow_succ_log_self (R := ℚ) one_lt_two number
    rw [Nat.cast_two] at hnext
    refine (le_zpow_of_near hvalue hleast hgreatest (by linarith) hnext).trans
      (zpow_le_zpow_right₀ one_le_two ?_)
    rw [lastExponent, abs_of_pos hnumber]
    omega
  obtain ⟨power, hpower⟩ := Int.eq_ofNat_of_zero_le (sub_nonneg.mpr hless)
  have hunit : (0 : ℚ) < 2 ^ lastExponent number := zpow_pos two_pos _
  have hwhole : value = ((digits * 2 ^ power : ℤ) : ℚ) * 2 ^ lastExponent number := by
    rw [hvalue, eq_add_of_sub_eq hpower, zpow_add₀ two_ne_zero, zpow_natCast]
    push_cast
    ring
  have hround : roundHalfEven (number / 2 ^ lastExponent number) = digits * 2 ^ power := by
    refine roundHalfEven_of_near ?_
    have hquotient : ((digits * 2 ^ power : ℤ) : ℚ) = value / 2 ^ lastExponent number :=
      eq_div_of_mul_eq hunit.ne' hwhole.symm
    rw [hquotient, ← sub_div, abs_div, abs_of_pos hunit, div_lt_iff₀ hunit]
    rw [zpow_add₀ two_ne_zero] at hwide
    have hfifty : (2 : ℚ) ^ (53 : ℤ) = 2 ^ 53 := rfl
    rw [hfifty] at hwide
    linarith
  unfold toDouble
  simp only [hround, ← hwhole]
  exact if_neg (not_le.mpr hfits)

/-! ### Digits -/

/-- The digits that `shortestDigits` looks at with so many more than one of them. -/
def candidateDigits (value : ℚ) (more : ℕ) : Option (ℕ × ℤ) :=
  let scale : ℚ := 10 ^ (Int.log 10 value - more)
  ([roundHalfEven (value / scale), ⌊value / scale⌋, ⌊value / scale⌋ + 1].find? fun digits : ℤ ↦
    decide (toDouble (digits * scale) = finite value)).map fun digits ↦
      (digits.toNat, Int.log 10 value - more)

theorem shortestDigits_eq (value : ℚ) :
    shortestDigits value = (List.range 17).findSome? (candidateDigits value) := by
  unfold shortestDigits candidateDigits
  rfl

/-- Digits are found if the nearest ones are rounded to the number. -/
theorem isSome_candidateDigits {value : ℚ} {more : ℕ}
    (hnearest : toDouble (roundHalfEven (value / 10 ^ (Int.log 10 value - more)) *
      10 ^ (Int.log 10 value - more)) = finite value) : (candidateDigits value more).isSome = true := by
  unfold candidateDigits
  dsimp only
  rw [List.find?_cons, decide_eq_true hnearest]
  rfl

/-- Seventeen digits are enough. -/
theorem isSome_shortestDigits {value : ℚ} (hdouble : toDouble value = finite value) (hone : 1 ≤ value) :
    (shortestDigits value).isSome = true := by
  rw [shortestDigits_eq, List.findSome?_isSome_iff]
  refine ⟨16, by decide, isSome_candidateDigits (toDouble_of_near hdouble hone ?_)⟩
  have hpos : 0 < value := zero_lt_one.trans_le hone
  have hscale : (0 : ℚ) < 10 ^ (Int.log 10 value - (16 : ℕ)) := zpow_pos (by norm_num) _
  have hlog := Int.zpow_log_le_self (R := ℚ) (by decide : 1 < 10) hpos
  have hsixteen : (10 : ℚ) ^ (Int.log 10 value - (16 : ℕ)) * 10 ^ 16 ≤ value := by
    rw [← zpow_natCast, ← zpow_add₀ (by norm_num), sub_add_cancel]
    exact_mod_cast hlog
  have hround := mul_le_mul_of_nonneg_right
    (abs_roundHalfEven_sub_le (value / 10 ^ (Int.log 10 value - (16 : ℕ)))) hscale.le
  rw [← abs_of_pos hscale, ← abs_mul, abs_of_pos hscale, sub_mul, div_mul_cancel₀ _ hscale.ne'] at hround
  refine hround.trans_lt ?_
  generalize (10 : ℚ) ^ (Int.log 10 value - (16 : ℕ)) = scale at hscale hsixteen
  calc 1 / 2 * scale < scale * 10 ^ 16 / 2 ^ 54 := by
        rw [lt_div_iff₀ (by norm_num)]
        linarith
    _ ≤ value / 2 ^ 54 := by gcongr

/-- A whole number has no digits behind the point. -/
theorem exponent_nonneg {value : ℕ} (hdouble : toDouble value = finite value) {digits : ℕ}
    {exponent : ℤ} (hshortest : shortestDigits value = some (digits, exponent)) : 0 ≤ exponent := by
  rw [shortestDigits_eq, List.findSome?_eq_some_iff] at hshortest
  obtain ⟨before, more, after, hrange, hmore, hnone⟩ := hshortest
  have hplaces : exponent = Int.log 10 (value : ℚ) - more := by
    obtain ⟨found, -, hpair⟩ := Option.map_eq_some_iff.mp hmore
    exact (Prod.mk.inj hpair).2.symm
  rw [hplaces, sub_nonneg]
  by_contra hbehind
  rw [not_le] at hbehind
  have hlog : Int.log 10 (value : ℚ) = (Nat.log 10 value : ℤ) := Int.log_natCast 10 value
  -- as many digits as there are before the point have been looked at before
  have hmem : Nat.log 10 value ∈ before := by
    rw [List.range_eq_range', List.range'_eq_append_iff] at hrange
    obtain ⟨count, -, rfl, hrest⟩ := hrange
    rw [eq_comm, List.range'_eq_cons_iff] at hrest
    rw [List.mem_range'_1]
    omega
  have hexact : toDouble (roundHalfEven ((value : ℚ) / 10 ^ (Int.log 10 (value : ℚ) - (Nat.log 10 value : ℕ))) *
      10 ^ (Int.log 10 (value : ℚ) - (Nat.log 10 value : ℕ))) = finite value := by
    rw [hlog, sub_self, zpow_zero, div_one, mul_one]
    have hcast := roundHalfEven_intCast value
    rw [Int.cast_natCast] at hcast
    rw [hcast]
    exact_mod_cast hdouble
  have hsome := isSome_candidateDigits hexact
  rw [hnone _ hmem] at hsome
  cases hsome

/-! ### Texts -/

/-- Different numbers have different digits. -/
theorem printNumber_injective : Function.Injective Json.printNumber := by
  intro first second heq
  rw [← Json.readDigits_printNumber first, heq, Json.readDigits_printNumber]

/-- Zeros behind the digits of a number stand for powers of ten. -/
theorem readDigits_append_zeros (digits : List Char) (power : ℕ) :
    Json.readDigits (digits ++ List.replicate power '0') = Json.readDigits digits * 10 ^ power := by
  induction power with
  | zero => rw [List.replicate_zero, List.append_nil, pow_zero, mul_one]
  | succ power ih =>
    rw [List.replicate_succ', ← List.append_assoc, Json.readDigits, List.foldl_append]
    change 10 * Json.readDigits (digits ++ List.replicate power '0') + 0 = _
    rw [ih, pow_succ]
    ring

/-- The digits in front of an exponent: there is a point behind the first of several. -/
def mantissaText (digits : List Char) : List Char :=
  digits.take 1 ++ if digits.length = 1 then [] else ['.'] ++ digits.drop 1

/-- The digits are read off without the point. -/
theorem filter_mantissaText {digits : List Char} (hdigits : ∀ char ∈ digits, char.isDigit = true) :
    (mantissaText digits).filter Char.isDigit = digits := by
  have hall : digits.filter Char.isDigit = digits := List.filter_eq_self.mpr hdigits
  rw [mantissaText, List.filter_append]
  split
  · next hone =>
    rw [List.filter_nil, List.append_nil, List.take_of_length_le hone.le, hall]
  · rw [List.singleton_append, List.filter_cons_of_neg (by decide), ← List.filter_append,
      List.take_append_drop, hall]

/-- There is no exponent among the digits. -/
theorem notMem_mantissaText (number : ℕ) : 'e' ∉ mantissaText (Json.printNumber number) := by
  have hdigits := (Json.printNumber_digits number).1
  intro hmem
  rcases List.mem_append.mp hmem with hmem | hmem
  · exact absurd (hdigits 'e' (List.mem_of_mem_take hmem)) (by decide)
  · split at hmem
    · exact List.not_mem_nil hmem
    · rcases List.mem_append.mp hmem with hmem | hmem
      · exact absurd (List.mem_singleton.mp hmem) (by decide)
      · exact absurd (hdigits 'e' (List.mem_of_mem_drop hmem)) (by decide)

/-- The text of a number that is not negative. -/
theorem numberText_of_nonneg {value : ℚ} (hnonneg : 0 ≤ value) :
    numberText (finite value) = if value = 0 then ['0'] else positiveText value := by
  unfold numberText
  simp only [if_neg (not_lt.mpr hnonneg)]

/-- The text of a whole number: its digits with zeros behind them, or with an exponent. -/
theorem exists_digits_of_numberText {value : ℕ} (hdouble : toDouble value = finite value) :
    ∃ digits power : ℕ, toDouble (digits * 10 ^ power) = finite value ∧
      (numberText (finite value) = Json.printNumber digits ++ List.replicate power '0' ∨
        numberText (finite value) = mantissaText (Json.printNumber digits) ++
          'e' :: '+' :: Json.printNumber ((Json.printNumber digits).length + power - 1)) := by
  rcases Nat.eq_zero_or_pos value with rfl | hpos
  · refine ⟨0, 0, by rw [pow_zero, mul_one]; exact hdouble, .inl ?_⟩
    rw [numberText_of_nonneg (Nat.cast_nonneg 0), if_pos Nat.cast_zero]
    rfl
  have hone : (1 : ℚ) ≤ value := Nat.one_le_cast.mpr hpos
  obtain ⟨⟨digits, exponent⟩, hshortest⟩ := Option.isSome_iff_exists.mp (isSome_shortestDigits hdouble hone)
  obtain ⟨power, rfl⟩ := Int.eq_ofNat_of_zero_le (exponent_nonneg hdouble hshortest)
  have hvalue := toDouble_of_shortestDigits (zero_lt_one.trans_le hone) hshortest
  rw [zpow_natCast] at hvalue
  refine ⟨digits, power, hvalue, ?_⟩
  rw [numberText_of_nonneg (Nat.cast_nonneg value), if_neg (zero_lt_one.trans_le hone).ne']
  unfold positiveText
  rw [hshortest]
  dsimp only
  have hlength := List.length_pos_iff.mpr (Json.printNumber_digits digits).2
  by_cases hshort : 0 ≤ (power : ℤ) ∧ ((Json.printNumber digits).length : ℤ) + power ≤ 21
  · rw [if_pos hshort]
    exact .inl rfl
  · have hpoint : ¬ ((Json.printNumber digits).length : ℤ) + power ≤ 21 := fun h ↦ hshort ⟨Int.natCast_nonneg _, h⟩
    have hpositive : 0 < ((Json.printNumber digits).length : ℤ) + power := by omega
    rw [if_neg hshort, if_neg fun h ↦ hpoint h.2, if_neg (by omega), if_pos hpositive]
    right
    have hnat : (((Json.printNumber digits).length : ℤ) + power - 1).natAbs =
        (Json.printNumber digits).length + power - 1 := by omega
    rw [hnat, mantissaText]
    simp only [List.append_assoc, List.cons_append, List.nil_append]

/-- Different whole numbers have different texts. -/
theorem numberText_natCast_injective {first second : ℕ} (hfirst : toDouble first = finite first)
    (hsecond : toDouble second = finite second)
    (heq : numberText (finite first) = numberText (finite second)) : first = second := by
  obtain ⟨digits, power, hvalue, htext⟩ := exists_digits_of_numberText hfirst
  obtain ⟨digits', power', hvalue', htext'⟩ := exists_digits_of_numberText hsecond
  -- the digits and their exponent are read off the text, and are rounded to the number
  have hsame : digits * 10 ^ power = digits' * 10 ^ power' → first = second := by
    intro hdigits
    have hcast : (digits : ℚ) * 10 ^ power = digits' * 10 ^ power' := by exact_mod_cast hdigits
    rw [hcast, hvalue'] at hvalue
    exact_mod_cast (Double.finite.inj hvalue).symm
  have hnoLetter : ∀ number power : ℕ, 'e' ∉ Json.printNumber number ++ List.replicate power '0' := by
    intro number power hmem
    rcases List.mem_append.mp hmem with hmem | hmem
    · exact absurd ((Json.printNumber_digits number).1 'e' hmem) (by decide)
    · exact absurd (List.eq_of_mem_replicate hmem) (by decide)
  have hletter : ∀ front back : List Char, 'e' ∈ front ++ 'e' :: back := fun front back ↦
    List.mem_append_right front List.mem_cons_self
  rcases htext with htext | htext <;> rcases htext' with htext' | htext'
  · refine hsame ?_
    rw [← Json.readDigits_printNumber digits, ← Json.readDigits_printNumber digits', ← readDigits_append_zeros,
      ← readDigits_append_zeros, ← htext, ← htext', heq]
  · exact absurd (hletter _ _) (htext' ▸ heq ▸ htext ▸ hnoLetter digits power)
  · exact absurd (hletter _ _) (htext ▸ heq.symm ▸ htext' ▸ hnoLetter digits' power')
  · rw [htext, htext'] at heq
    have hback : 'e' ∉ '+' :: Json.printNumber ((Json.printNumber digits).length + power - 1) := by
      intro hmem
      rcases List.mem_cons.mp hmem with heq | hmem
      · exact absurd heq (by decide)
      · exact absurd ((Json.printNumber_digits _).1 'e' hmem) (by decide)
    obtain ⟨hmantissa, -, hexponent⟩ :=
      (List.append_cons_inj_of_notMem (notMem_mantissaText digits) hback).mp heq
    have hdigits : Json.printNumber digits = Json.printNumber digits' := by
      rw [← filter_mantissaText (Json.printNumber_digits digits).1, hmantissa,
        filter_mantissaText (Json.printNumber_digits digits').1]
    have hpower := printNumber_injective (List.cons.inj hexponent).2
    have hlength := List.length_pos_iff.mpr (Json.printNumber_digits digits).2
    rw [← hdigits] at hpower
    refine hsame ?_
    rw [printNumber_injective hdigits, show power = power' by omega]

/-! ### Sums and quotients -/

/-- The sum of a number of double precision and one that is finite. -/
def add : Double → ℚ → Double
  | finite value, other => toDouble (value + other)
  | infinite negative, _ => infinite negative

/-- The quotient of a number of double precision and a count that is not zero. -/
def div : Double → ℕ → Double
  | finite value, count => toDouble (value / count)
  | infinite negative, _ => infinite negative

/-- `Math.ceil`. -/
def ceil : Double → Double
  | finite value => finite ⌈value⌉
  | infinite negative => infinite negative

/-- Nothing is rounded in a sum of whole numbers that is small enough. -/
theorem foldl_add_of_lt {values : List ℕ} {first : ℕ} (hsmall : first + values.sum < 2 ^ 53) :
    values.foldl (fun sum value ↦ sum.add value) (finite first) = finite ((first + values.sum : ℕ) : ℚ) := by
  induction values generalizing first with
  | nil => rfl
  | cons value values ih =>
    rw [List.sum_cons, ← Nat.add_assoc] at hsmall
    have hexact : (finite first).add value = finite ((first + value : ℕ) : ℚ) := by
      have hinteger := toDouble_of_integer (first + value : ℕ) (by
        rw [abs_of_nonneg (Int.natCast_nonneg _)]
        exact_mod_cast (Nat.le_add_right _ _).trans_lt hsmall)
      rw [add, ← Nat.cast_add]
      exact_mod_cast hinteger
    rw [List.foldl_cons, hexact, ih hsmall, List.sum_cons, Nat.add_assoc]

/-- Different quotients by a count are one part in it away from each other at least. -/
theorem one_div_le_div_sub {first second : ℤ} {count : ℕ} (hlt : first < second) :
    (1 : ℚ) / count ≤ second / count - first / count := by
  rw [← sub_div]
  have hone : (1 : ℚ) ≤ second - first := by
    have hle : ((first + 1 : ℤ) : ℚ) ≤ second := Int.cast_le.mpr hlt
    push_cast at hle
    linarith
  gcongr

/-- How far a quotient is moved by rounding. -/
theorem abs_round_div_sub_lt {sum count : ℕ} (hpos : 0 < sum) (hsum : sum < 2 ^ 53) (hcount : 0 < count)
    (hsmall : count ≤ 2 ^ 53) :
    |(roundHalfEven ((sum : ℚ) / count / 2 ^ lastExponent (sum / count)) : ℚ) *
      2 ^ lastExponent (sum / count) - sum / count| < 1 / count := by
  have hcountPos : (0 : ℚ) < count := Nat.cast_pos.mpr hcount
  have hvalue : (0 : ℚ) < sum / count := div_pos (Nat.cast_pos.mpr hpos) hcountPos
  have hpow : (0 : ℚ) < 2 ^ lastExponent ((sum : ℚ) / count) := zpow_pos two_pos _
  have hlast := two_zpow_lastExponent_le hvalue
  have herror := mul_le_mul_of_nonneg_right
    (abs_roundHalfEven_sub_le ((sum : ℚ) / count / 2 ^ lastExponent ((sum : ℚ) / count))) hpow.le
  rw [← abs_of_pos hpow, ← abs_mul, abs_of_pos hpow, sub_mul, div_mul_cancel₀ _ hpow.ne'] at herror
  refine herror.trans_lt ?_
  have hscaled : (sum : ℚ) / count ≤ (2 ^ 53 - 1) * (1 / count) := by
    rw [mul_one_div]
    have hle : (sum : ℚ) + 1 ≤ 2 ^ 53 := by exact_mod_cast hsum
    have hpred := le_sub_iff_add_le.mpr hle
    gcongr
  have hpart : (1 : ℚ) / 2 ^ 53 ≤ 1 / count :=
    one_div_le_one_div_of_le hcountPos (by exact_mod_cast hsmall)
  have htiny : (1 : ℚ) / 2 ^ 1074 < 1 / 2 ^ 106 :=
    one_div_lt_one_div_of_lt (by positivity) (pow_lt_pow_right₀ one_lt_two (by decide))
  generalize (1 : ℚ) / 2 ^ 1074 = tiny at hlast htiny
  generalize (2 : ℚ) ^ lastExponent ((sum : ℚ) / count) = unit at hlast
  generalize (1 : ℚ) / count = part at hscaled hpart ⊢
  norm_num at hscaled hpart htiny hlast ⊢
  linarith

/-- A number and what it is rounded to have the same whole numbers above them. -/
def KeepsCeil (value : ℚ) : Double → Prop
  | finite rounded => ∀ whole : ℤ, value ≤ whole ↔ rounded ≤ whole
  | infinite _ => False

theorem ceil_eq_iff {value : ℚ} {rounded : Double} :
    rounded.ceil = finite ⌈value⌉ ↔ KeepsCeil value rounded := by
  cases rounded with
  | finite rounded =>
    rw [ceil, Double.finite.injEq, Int.cast_inj, KeepsCeil]
    simp only [← Int.ceil_le]
    exact ⟨fun heq whole ↦ by rw [heq], fun hiff ↦ eq_of_forall_ge_iff fun whole ↦ (hiff whole).symm⟩
  | infinite negative =>
    rw [ceil, KeepsCeil, iff_false]
    exact Double.noConfusion

/-- The quotient of a small sum by a count is not carried over a whole number by rounding. -/
theorem keepsCeil_div {sum count : ℕ} (hsum : sum < 2 ^ 53) (hcount : 0 < count) (hsmall : count ≤ 2 ^ 53) :
    KeepsCeil (sum / count) ((finite sum).div count) := by
  have hcountPos : (0 : ℚ) < count := Nat.cast_pos.mpr hcount
  rcases Nat.eq_zero_or_pos sum with rfl | hpos
  · rw [div, Nat.cast_zero, zero_div, toDouble_zero]
    exact fun whole ↦ Iff.rfl
  have herror := abs_lt.mp (abs_round_div_sub_lt hpos hsum hcount hsmall)
  have hpart : (1 : ℚ) / count ≤ 1 := (div_le_one hcountPos).mpr (Nat.one_le_cast.mpr hcount)
  have hle : (sum : ℚ) / count ≤ sum := div_le_self (Nat.cast_nonneg sum) (Nat.one_le_cast.mpr hcount)
  have hsmallSum : (sum : ℚ) < 2 ^ 53 := by exact_mod_cast hsum
  have hnonneg : (0 : ℚ) ≤ sum / count := div_nonneg (Nat.cast_nonneg sum) hcountPos.le
  generalize hrounded : (roundHalfEven ((sum : ℚ) / count / 2 ^ lastExponent ((sum : ℚ) / count)) : ℚ) *
    2 ^ lastExponent ((sum : ℚ) / count) = rounded at herror
  have hfinite : toDouble (sum / count) = finite rounded := by
    have hbound : |rounded| < 2 ^ 53 + 1 := abs_lt.mpr ⟨by linarith, by linarith⟩
    have hfits : (2 : ℚ) ^ 53 + 1 < 2 ^ 1024 :=
      (by norm_num : (2 : ℚ) ^ 53 + 1 ≤ 2 ^ 54).trans_lt (pow_lt_pow_right₀ one_lt_two (by decide))
    unfold toDouble
    simp only [hrounded]
    exact if_neg (not_le.mpr (hbound.trans hfits))
  rw [div, hfinite]
  intro whole
  have hquotient : (whole : ℚ) = ((whole * count : ℤ) : ℚ) / count := by
    push_cast
    rw [mul_div_cancel_right₀ _ hcountPos.ne']
  rcases lt_trichotomy (sum : ℤ) (whole * count) with hlt | heq | hgt
  · have hgap := @one_div_le_div_sub _ _ count hlt
    rw [← hquotient, Int.cast_natCast] at hgap
    have hcount := one_div_pos.mpr hcountPos
    exact iff_of_true (by linarith) (by linarith)
  · -- the quotient is a whole number, and is not rounded
    have hexact : (sum : ℚ) / count = whole := by rw [hquotient, ← heq, Int.cast_natCast]
    rw [hexact, toDouble_of_integer whole] at hfinite
    · rw [hexact, Double.finite.inj hfinite]
    · rw [← Int.cast_lt (R := ℚ), Int.cast_abs, ← hexact, abs_of_nonneg hnonneg]
      exact_mod_cast hle.trans_lt hsmallSum
  · have hgap := @one_div_le_div_sub _ _ count hgt
    rw [← hquotient, Int.cast_natCast] at hgap
    have hcount := one_div_pos.mpr hcountPos
    exact iff_of_false (by linarith) (by linarith)

end Double

end Playground.Library
