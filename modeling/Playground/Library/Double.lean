import Mathlib.Data.Int.Log
import Mathlib.Data.Rat.Floor
import Mathlib.Tactic.NormNum
import Mathlib.Tactic.Positivity
import Playground.Library.Json

/-!
# Numbers of double precision

A number is rounded to the nearest one of 53 binary digits, to the even one of two that are equally near
(`toDouble`). Integers are rounded to integers (`toDouble_intCast`), so a number whose shortest text consists
of digits alone is an integer (`exists_intCast_of_numberText`).

Not formalized here: the difference between `0` and `-0`, and `NaN`.
-/

set_option autoImplicit false
set_option relaxedAutoImplicit false

namespace Playground.Library

/-- A number of double precision. -/
inductive Double
  | finite (value : ℚ)
  | infinite (negative : Bool)
  deriving DecidableEq

namespace Double

/-! ### Rounding -/

/-- The nearest integer, and the even one of two that are equally near. -/
def roundHalfEven (value : ℚ) : ℤ :=
  if value - ⌊value⌋ < 1 / 2 then ⌊value⌋
  else if 1 / 2 < value - ⌊value⌋ then ⌊value⌋ + 1
  else if ⌊value⌋ % 2 = 0 then ⌊value⌋
  else ⌊value⌋ + 1

/-- The binary exponent of the last digit of a number. -/
def lastExponent (value : ℚ) : ℤ :=
  max (Int.log 2 |value|) (-1022) - 52

/-- The number of double precision that is nearest to a number. -/
def toDouble (value : ℚ) : Double :=
  let rounded : ℚ := roundHalfEven (value / 2 ^ lastExponent value) * 2 ^ lastExponent value
  if (2 : ℚ) ^ 1024 ≤ |rounded| then infinite (decide (rounded < 0)) else finite rounded

/-- An integer is rounded to itself. -/
theorem roundHalfEven_intCast (value : ℤ) : roundHalfEven value = value := by
  rw [roundHalfEven, Int.floor_intCast, sub_self]
  exact if_pos (by norm_num)

theorem toDouble_zero : toDouble 0 = finite 0 := by
  have hzero : roundHalfEven (0 / 2 ^ lastExponent 0) = 0 := by
    rw [zero_div]
    exact_mod_cast roundHalfEven_intCast 0
  unfold toDouble
  simp only [hzero, Int.cast_zero, zero_mul, abs_zero]
  exact if_neg (not_le.mpr (by positivity))

/-- Integers are rounded to integers. -/
theorem toDouble_intCast {value : ℤ} {rounded : ℚ} (hrounded : toDouble value = finite rounded) :
    ∃ integer : ℤ, rounded = integer := by
  have hvalue : rounded = roundHalfEven (value / 2 ^ lastExponent value) * 2 ^ lastExponent value := by
    unfold toDouble at hrounded
    simp only at hrounded
    split at hrounded
    · cases hrounded
    · exact (Double.finite.inj hrounded).symm
  rcases le_total 0 (lastExponent value) with hexponent | hexponent
  · -- The last digit counts a whole number.
    obtain ⟨power, hpower⟩ := Int.eq_ofNat_of_zero_le hexponent
    refine ⟨roundHalfEven (value / 2 ^ lastExponent value) * 2 ^ power, ?_⟩
    rw [hvalue, hpower]
    push_cast
    rw [zpow_natCast]
  · -- The last digit is behind the point: nothing has to be rounded.
    obtain ⟨power, hpower⟩ := Int.eq_ofNat_of_zero_le (neg_nonneg.mpr hexponent)
    have hscale : (value : ℚ) / 2 ^ lastExponent value = ((value * 2 ^ power : ℤ) : ℚ) := by
      rw [div_eq_mul_inv, ← zpow_neg, hpower, zpow_natCast]
      push_cast
      rfl
    refine ⟨value, ?_⟩
    rw [hvalue, hscale, roundHalfEven_intCast, ← hscale]
    exact div_mul_cancel₀ _ (zpow_ne_zero _ two_ne_zero)

/-! ### Numbers that are not changed -/

/-- Rounding moves a number by a half at most. -/
theorem abs_roundHalfEven_sub_le (value : ℚ) : |(roundHalfEven value : ℚ) - value| ≤ 1 / 2 := by
  have hfloor := Int.floor_le value
  have hfract := Int.lt_floor_add_one value
  rw [abs_le]
  unfold roundHalfEven
  split_ifs <;> push_cast <;> constructor <;> linarith

/-- What is not negative is not negative after rounding. -/
theorem roundHalfEven_nonneg {value : ℚ} (hnonneg : 0 ≤ value) : 0 ≤ roundHalfEven value := by
  have hfloor := Int.floor_nonneg.mpr hnonneg
  unfold roundHalfEven
  split_ifs <;> omega

/-- An integer is not passed by rounding. -/
theorem roundHalfEven_le {value : ℚ} {bound : ℤ} (hle : value ≤ bound) : roundHalfEven value ≤ bound := by
  have habs := (abs_le.mp (abs_roundHalfEven_sub_le value)).2
  have hlt : (roundHalfEven value : ℚ) < ((bound + 1 : ℤ) : ℚ) := by
    push_cast
    linarith
  exact Int.lt_add_one_iff.mp (Int.cast_lt.mp hlt)

/-- An integer is not passed by rounding, from above. -/
theorem le_roundHalfEven {value : ℚ} {bound : ℤ} (hle : bound ≤ value) : bound ≤ roundHalfEven value := by
  have habs := (abs_le.mp (abs_roundHalfEven_sub_le value)).1
  have hlt : ((bound - 1 : ℤ) : ℚ) < roundHalfEven value := by
    push_cast
    linarith
  have := Int.cast_lt.mp hlt
  omega

/-- A rounded number is the rounded number of its last digits. -/
theorem toDouble_eq_finite {value rounded : ℚ} (hrounded : toDouble value = finite rounded) :
    rounded = roundHalfEven (value / 2 ^ lastExponent value) * 2 ^ lastExponent value ∧
      |rounded| < 2 ^ 1024 := by
  unfold toDouble at hrounded
  simp only at hrounded
  split at hrounded
  · cases hrounded
  · next hsmall =>
    obtain rfl := Double.finite.inj hrounded
    exact ⟨rfl, not_le.mp hsmall⟩

/-- A number without digits behind the last one is not changed by rounding. -/
theorem toDouble_of_whole {value : ℚ} (digits : ℤ) (hvalue : value = digits * 2 ^ lastExponent value)
    (hfits : |value| < 2 ^ 1024) : toDouble value = finite value := by
  have hpow : (2 : ℚ) ^ lastExponent value ≠ 0 := zpow_ne_zero _ two_ne_zero
  have hround : (roundHalfEven (value / 2 ^ lastExponent value) : ℚ) * 2 ^ lastExponent value = value := by
    rw [(eq_div_of_mul_eq hpow hvalue.symm).symm, roundHalfEven_intCast, ← hvalue]
  unfold toDouble
  simp only [hround]
  exact if_neg (not_le.mpr hfits)

/-- A number of 53 binary digits is not changed by rounding. -/
theorem toDouble_of_digits {digits : ℤ} (exponent : ℤ) (hdigits : |digits| < 2 ^ 53)
    (hexponent : -1074 ≤ exponent) (hfits : |(digits : ℚ) * 2 ^ exponent| < 2 ^ 1024) :
    toDouble (digits * 2 ^ exponent) = finite (digits * 2 ^ exponent) := by
  rcases eq_or_ne digits 0 with rfl | hne
  · rw [Int.cast_zero, zero_mul, toDouble_zero]
  have hpow : (0 : ℚ) < 2 ^ exponent := zpow_pos two_pos _
  have hpos : 0 < |(digits : ℚ) * 2 ^ exponent| :=
    abs_pos.mpr (mul_ne_zero (Int.cast_ne_zero.mpr hne) hpow.ne')
  have hlt : |(digits : ℚ) * 2 ^ exponent| < (2 : ℕ) ^ (exponent + 53) := by
    have hcast : |(digits : ℚ)| < 2 ^ 53 := by exact_mod_cast hdigits
    rw [abs_mul, abs_of_pos hpow, Nat.cast_two, zpow_add₀ two_ne_zero, mul_comm]
    exact mul_lt_mul_of_pos_left (by exact_mod_cast hcast) hpow
  have hlog := (Int.lt_zpow_iff_log_lt (R := ℚ) one_lt_two hpos).mp hlt
  have hlast : lastExponent ((digits : ℚ) * 2 ^ exponent) ≤ exponent := by
    unfold lastExponent
    omega
  obtain ⟨power, hpower⟩ := Int.eq_ofNat_of_zero_le (sub_nonneg.mpr hlast)
  refine toDouble_of_whole (digits * 2 ^ power) ?_ hfits
  push_cast
  rw [mul_assoc, ← zpow_natCast, ← zpow_add₀ two_ne_zero, ← hpower, sub_add_cancel]

/-- The digits of a rounded number. -/
theorem exists_digits_of_toDouble {value rounded : ℚ} (hrounded : toDouble value = finite rounded) :
    ∃ digits exponent : ℤ, rounded = digits * 2 ^ exponent ∧ |digits| < 2 ^ 53 ∧ -1074 ≤ exponent := by
  obtain ⟨heq, -⟩ := toDouble_eq_finite hrounded
  have hpow : (0 : ℚ) < 2 ^ lastExponent value := zpow_pos two_pos _
  have hlast : -1074 ≤ lastExponent value := by
    unfold lastExponent
    omega
  have hscaled : |value / 2 ^ lastExponent value| ≤ 2 ^ 53 := by
    rw [abs_div, abs_of_pos hpow, div_le_iff₀ hpow, ← zpow_natCast, ← zpow_add₀ two_ne_zero]
    refine (Int.lt_zpow_succ_log_self one_lt_two |value|).le.trans ?_
    rw [Nat.cast_two]
    refine zpow_le_zpow_right₀ one_le_two ?_
    unfold lastExponent
    push_cast
    omega
  have hdigits : |roundHalfEven (value / 2 ^ lastExponent value)| ≤ 2 ^ 53 := by
    rw [abs_le] at hscaled ⊢
    exact ⟨le_roundHalfEven (by exact_mod_cast hscaled.1), roundHalfEven_le (by exact_mod_cast hscaled.2)⟩
  rcases hdigits.lt_or_eq with hlt | hfull
  · exact ⟨_, _, heq, hlt, hlast⟩
  · -- The digits have been rounded up to one more: the last one of them is zero.
    obtain ⟨half, hhalf, habs⟩ : ∃ half : ℤ,
        roundHalfEven (value / 2 ^ lastExponent value) = half * 2 ∧ |half| < 2 ^ 53 := by
      rcases abs_eq (by norm_num : (0 : ℤ) ≤ 2 ^ 53) |>.mp hfull with heq | heq
      · exact ⟨2 ^ 52, by rw [heq]; norm_num, by norm_num⟩
      · exact ⟨-2 ^ 52, by rw [heq]; norm_num, by norm_num⟩
    refine ⟨half, lastExponent value + 1, ?_, habs, by omega⟩
    rw [heq, hhalf, zpow_add_one₀ two_ne_zero]
    push_cast
    ring

/-- Rounding twice is rounding once. -/
theorem toDouble_toDouble {value rounded : ℚ} (hrounded : toDouble value = finite rounded) :
    toDouble rounded = finite rounded := by
  obtain ⟨-, hfits⟩ := toDouble_eq_finite hrounded
  obtain ⟨digits, exponent, rfl, hdigits, hexponent⟩ := exists_digits_of_toDouble hrounded
  exact toDouble_of_digits exponent hdigits hexponent hfits

/-- An integer of 53 binary digits is not changed by rounding. -/
theorem toDouble_of_integer (value : ℤ) (hvalue : |value| < 2 ^ 53) : toDouble value = finite value := by
  have hcast : |(value : ℚ)| < 2 ^ 53 := by exact_mod_cast hvalue
  have hdigits := toDouble_of_digits 0 hvalue (by decide) (by
    rw [zpow_zero, mul_one]
    exact hcast.trans (pow_lt_pow_right₀ one_lt_two (by decide)))
  rwa [zpow_zero, mul_one] at hdigits

/-- A number below one is below it by one digit at least. -/
theorem le_of_toDouble_of_lt_one {value : ℚ} (hdouble : toDouble value = finite value) (hlt : value < 1) :
    value ≤ 1 - 1 / 2 ^ 53 := by
  obtain ⟨digits, exponent, heq, hdigits, -⟩ := exists_digits_of_toDouble hdouble
  have hcast : |(digits : ℚ)| < 2 ^ 53 := by exact_mod_cast hdigits
  rcases le_or_gt (-53) exponent with hexponent | hexponent
  · obtain ⟨power, hpower⟩ := Int.eq_ofNat_of_zero_le (neg_le_iff_add_nonneg.mp hexponent)
    have hscaled : value * 2 ^ 53 = ((digits * 2 ^ power : ℤ) : ℚ) := by
      have hzpow : (2 : ℚ) ^ exponent * 2 ^ 53 = 2 ^ power := by
        rw [← zpow_natCast, ← zpow_natCast, ← zpow_add₀ two_ne_zero]
        exact congrArg _ hpower
      rw [heq, mul_assoc, hzpow]
      push_cast
      rfl
    have hwhole : digits * 2 ^ power < 2 ^ 53 := by
      rw [← Int.cast_lt (R := ℚ), ← hscaled]
      push_cast
      linarith
    have hpred : ((digits * 2 ^ power : ℤ) : ℚ) ≤ 2 ^ 53 - 1 := by
      exact_mod_cast Int.le_sub_one_of_lt hwhole
    rw [← hscaled] at hpred
    linarith
  · have hsmall : (2 : ℚ) ^ exponent ≤ 1 / 2 ^ 54 := by
      rw [one_div, ← zpow_natCast, ← zpow_neg]
      exact zpow_le_zpow_right₀ one_le_two (by push_cast; omega)
    have hpow : (0 : ℚ) < 2 ^ exponent := zpow_pos two_pos _
    calc value = digits * 2 ^ exponent := heq
      _ ≤ 2 ^ 53 * 2 ^ exponent := mul_le_mul_of_nonneg_right ((le_abs_self _).trans hcast.le) hpow.le
      _ ≤ 2 ^ 53 * (1 / 2 ^ 54) := mul_le_mul_of_nonneg_left hsmall (by positivity)
      _ ≤ 1 - 1 / 2 ^ 53 := by norm_num

/-- The last digit of a number is small beside it. -/
theorem two_zpow_lastExponent_le {value : ℚ} (hpos : 0 < value) :
    (2 : ℚ) ^ lastExponent value ≤ value / 2 ^ 52 + 1 / 2 ^ 1074 := by
  have hlog : (2 : ℚ) ^ Int.log 2 |value| ≤ value := by
    have hself := Int.zpow_log_le_self (R := ℚ) one_lt_two (abs_pos.mpr hpos.ne')
    rw [abs_of_pos hpos, Nat.cast_two] at hself
    rwa [abs_of_pos hpos]
  unfold lastExponent
  rcases max_cases (Int.log 2 |value|) (-1022) with ⟨hmax, -⟩ | ⟨hmax, -⟩
  · rw [hmax, zpow_sub₀ two_ne_zero]
    have hdiv := div_le_div_of_nonneg_right hlog (by positivity : (0 : ℚ) ≤ 2 ^ 52)
    have hextra : (0 : ℚ) ≤ 1 / 2 ^ 1074 := by positivity
    exact (le_add_of_nonneg_right hextra).trans' (by exact_mod_cast hdiv)
  · rw [hmax, show (-1022 - 52 : ℤ) = -((1074 : ℕ) : ℤ) from rfl, zpow_neg, zpow_natCast, one_div]
    exact le_add_of_nonneg_left (by positivity)

/-- A random number below one, times a count, is below the count after rounding. -/
theorem exists_toDouble_mul_lt {random : ℚ} (hnonneg : 0 ≤ random) (hlt : random < 1)
    (hdouble : toDouble random = finite random) {count : ℕ} (hcount : 0 < count) (hsmall : count ≤ 2 ^ 53) :
    ∃ product, toDouble (random * count) = finite product ∧ 0 ≤ product ∧ product < count := by
  have hcountPos : (0 : ℚ) < count := Nat.cast_pos.mpr hcount
  rcases hnonneg.eq_or_lt with rfl | hpos
  · exact ⟨0, by rw [zero_mul, toDouble_zero], le_rfl, hcountPos⟩
  have hvalue : 0 < random * count := mul_pos hpos hcountPos
  have hpow : (0 : ℚ) < 2 ^ lastExponent (random * count) := zpow_pos two_pos _
  generalize hrounded : (roundHalfEven (random * count / 2 ^ lastExponent (random * count)) : ℚ) *
    2 ^ lastExponent (random * count) = rounded
  have hroundedNonneg : 0 ≤ rounded := by
    rw [← hrounded]
    exact mul_nonneg (Int.cast_nonneg (roundHalfEven_nonneg (div_pos hvalue hpow).le)) hpow.le
  have hbelow : rounded < count := by
    have herror := (abs_le.mp (abs_roundHalfEven_sub_le
      (random * count / 2 ^ lastExponent (random * count)))).2
    have hscaled := mul_le_mul_of_nonneg_right herror hpow.le
    rw [sub_mul, hrounded, div_mul_cancel₀ _ hpow.ne'] at hscaled
    have hlast := two_zpow_lastExponent_le hvalue
    have hone : (1 : ℚ) ≤ count := Nat.one_le_cast.mpr hcount
    have hrandom := mul_le_mul_of_nonneg_right (le_of_toDouble_of_lt_one hdouble hlt) hcountPos.le
    have htiny : (1 : ℚ) / 2 ^ 1074 < 1 / 2 ^ 106 :=
      one_div_lt_one_div_of_lt (by positivity) (pow_lt_pow_right₀ one_lt_two (by decide))
    generalize (1 : ℚ) / 2 ^ 1074 = tiny at hlast htiny
    -- The error is less than what the factor is below one.
    linarith
  refine ⟨rounded, ?_, hroundedNonneg, hbelow⟩
  unfold toDouble
  simp only [hrounded, abs_of_nonneg hroundedNonneg]
  refine if_neg (not_le.mpr (hbelow.trans_le ?_))
  calc (count : ℚ) ≤ 2 ^ 53 := by exact_mod_cast hsmall
    _ ≤ 2 ^ 1024 := pow_le_pow_right₀ one_le_two (by decide)

/-! ### Texts -/

/-- The shortest digits that stand for a positive number, with their exponent: those nearest to it among
the digits that are rounded to it. -/
def shortestDigits (value : ℚ) : Option (ℕ × ℤ) :=
  let leading := Int.log 10 value
  (List.range 17).findSome? fun more ↦
    let scale : ℚ := 10 ^ (leading - more)
    ([roundHalfEven (value / scale), ⌊value / scale⌋, ⌊value / scale⌋ + 1].find? fun digits : ℤ ↦
      decide (toDouble (digits * scale) = finite value)).map fun digits ↦ (digits.toNat, leading - more)

/-- The text of a positive number. Seventeen digits are always enough. -/
def positiveText (value : ℚ) : List Char :=
  match shortestDigits value with
  | none => "NaN".toList
  | some (digits, exponent) =>
    let text := Json.printNumber digits
    let point : ℤ := text.length + exponent
    if 0 ≤ exponent ∧ point ≤ 21 then text ++ List.replicate exponent.toNat '0'
    else if 0 < point ∧ point ≤ 21 then
      text.take point.toNat ++ ['.'] ++ text.drop point.toNat
    else if -6 < point ∧ point ≤ 0 then
      "0.".toList ++ List.replicate (-point).toNat '0' ++ text
    else
      text.take 1 ++ (if text.length = 1 then [] else ['.'] ++ text.drop 1) ++ ['e'] ++
        (if 0 < point then ['+'] else ['-']) ++ Json.printNumber (point - 1).natAbs

/-- `Number.prototype.toString`. -/
def numberText : Double → List Char
  | infinite true => "-Infinity".toList
  | infinite false => "Infinity".toList
  | finite value =>
    if value = 0 then ['0']
    else if value < 0 then '-' :: positiveText (-value)
    else positiveText value

/-- The shortest digits are rounded to the number. -/
theorem toDouble_of_shortestDigits {value : ℚ} (hpos : 0 < value) {digits : ℕ} {exponent : ℤ}
    (hshortest : shortestDigits value = some (digits, exponent)) :
    toDouble (digits * 10 ^ exponent) = finite value := by
  obtain ⟨more, _, hmore⟩ := List.exists_of_findSome?_eq_some hshortest
  obtain ⟨candidate, hfind, hpair⟩ := Option.map_eq_some_iff.mp hmore
  obtain ⟨rfl, rfl⟩ := Prod.mk.inj hpair
  have hcandidate := List.find?_some hfind
  have hmem := List.mem_of_find?_eq_some hfind
  simp only [decide_eq_true_eq] at hcandidate
  have hscale : (0 : ℚ) < 10 ^ (Int.log 10 value - more) := zpow_pos (by norm_num) _
  have hfloor : 0 ≤ ⌊value / 10 ^ (Int.log 10 value - more)⌋ :=
    Int.floor_nonneg.mpr (div_pos hpos hscale).le
  have hnonneg : 0 ≤ candidate := by
    simp only [List.mem_cons, List.not_mem_nil, or_false] at hmem
    rcases hmem with rfl | rfl | rfl
    · unfold roundHalfEven
      split_ifs <;> omega
    · exact hfloor
    · omega
  have hcast : ((candidate.toNat : ℕ) : ℚ) = (candidate : ℚ) := by
    exact_mod_cast congrArg (Int.cast (R := ℚ)) (Int.toNat_of_nonneg hnonneg)
  rw [hcast]
  exact hcandidate

/-- A positive number whose text has no point and no exponent is an integer. -/
theorem exists_intCast_of_positiveText {value : ℚ} (hpos : 0 < value)
    (hplain : ∀ char ∈ positiveText value, char.isDigit = true ∨ char = '-') :
    ∃ integer : ℤ, value = integer := by
  unfold positiveText at hplain
  split at hplain
  · exact absurd (hplain 'N' (by decide)) (by decide)
  · next digits exponent hshortest =>
    simp only at hplain
    split at hplain
    · next hinteger =>
      obtain ⟨power, hpower⟩ := Int.eq_ofNat_of_zero_le hinteger.1
      have hdouble := toDouble_of_shortestDigits hpos hshortest
      have hcast : (digits : ℚ) * 10 ^ exponent = ((digits * 10 ^ power : ℤ) : ℚ) := by
        rw [hpower, zpow_natCast]
        push_cast
        rfl
      rw [hcast] at hdouble
      exact toDouble_intCast hdouble
    · split at hplain
      · exact absurd (hplain '.' (by simp)) (by decide)
      · split at hplain
        · exact absurd (hplain '.' (by simp)) (by decide)
        · exact absurd (hplain 'e' (by simp)) (by decide)

/-- A number whose text consists of digits, possibly behind a minus sign, is an integer. -/
theorem exists_intCast_of_numberText {value : ℚ}
    (hplain : ∀ char ∈ numberText (finite value), char.isDigit = true ∨ char = '-') :
    ∃ integer : ℤ, value = integer := by
  unfold numberText at hplain
  simp only at hplain
  split at hplain
  · next hzero => exact ⟨0, by rw [hzero, Int.cast_zero]⟩
  · next hzero =>
    split at hplain
    · next hnegative =>
      obtain ⟨integer, hvalue⟩ := exists_intCast_of_positiveText (neg_pos.mpr hnegative)
        fun char hchar ↦ hplain char (List.mem_cons_of_mem _ hchar)
      exact ⟨-integer, by rw [Int.cast_neg, ← hvalue, neg_neg]⟩
    · next hnegative =>
      exact exists_intCast_of_positiveText (lt_of_le_of_ne (not_lt.mp hnegative) (Ne.symm hzero)) hplain

end Double

end Playground.Library
