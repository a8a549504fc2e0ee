import Playground.Common.RandomBigInt
import Playground.ProgramInteraction.Integers

/-!
# Random values of the integer types

`generateRandomUint` and `generateRandomInt` of `client/src/utils/pg/program-interaction/idl-types.ts`: the text
of a random integer between the least and the greatest one of a number of bytes. The checks of the types let it
through (`accepts_generateRandom`).
-/

set_option autoImplicit false
set_option relaxedAutoImplicit false

namespace Playground.PgProgramInteraction

open Library

/-- `toString` of a `bigint`. -/
def bigintText (value : ℤ) : Str :=
  signText (decide (value < 0)) ++ Json.printNumber value.natAbs

/-- `generateRandomUint`. -/
def generateRandomUint (random : ℕ → PgCommon.RandomNumber) (len : ℕ) : Option Str :=
  bigintText <$> PgCommon.generateRandomBigInt random 0 (allOnes len)

/-- `generateRandomInt`. -/
def generateRandomInt (random : ℕ → PgCommon.RandomNumber) (len : ℕ) : Option Str :=
  let max := allOnes len / 2
  bigintText <$> PgCommon.generateRandomBigInt random (-(max + 1)) max

variable {bigNumber : BigNumber}

theorem bigintText_ne_nil (value : ℤ) : bigintText value ≠ [] :=
  List.append_ne_nil_of_right_ne_nil _ (Json.printNumber_digits value.natAbs).2

/-- The text of an integer is read as it. -/
theorem BigNumber.Lawful.new_bigintText (hlawful : bigNumber.Lawful) (value : ℤ) :
    bigNumber.new (bigintText value) = .ok value := by
  obtain ⟨hdigits, hne⟩ := Json.printNumber_digits value.natAbs
  rw [bigintText, hlawful.digits _ _ hne hdigits, Json.readDigits_printNumber]
  refine congrArg Except.ok ?_
  unfold signed
  by_cases hneg : value < 0
  · rw [if_pos (decide_eq_true hneg)]
    omega
  · rw [if_neg (by simpa using hneg)]
    omega

/-- The greatest integer of no bytes is zero. -/
theorem allOnes_nonneg (len : ℕ) : 0 ≤ allOnes len := by
  have hpos := pow_width_pos len
  unfold allOnes
  omega

/-- The text of a random unsigned integer is accepted. -/
theorem accepts_generateRandomUint (hlawful : bigNumber.Lawful) (random : ℕ → PgCommon.RandomNumber)
    (len : ℕ) :
    ∃ text value, generateRandomUint random len = some text ∧ assertUint bigNumber text len = .ok value := by
  obtain ⟨value, hvalue, hnonneg, hle⟩ :=
    PgCommon.exists_generateRandomBigInt random (allOnes_nonneg len)
  refine ⟨bigintText value, value, by rw [generateRandomUint, hvalue]; rfl, ?_⟩
  refine assertUint_eq_ok_iff.mpr ⟨bigintText_ne_nil value, hlawful.new_bigintText value, hnonneg, ?_⟩
  exact Int.lt_of_le_sub_one hle

/-- The text of a random signed integer is accepted. -/
theorem accepts_generateRandomInt (hlawful : bigNumber.Lawful) (random : ℕ → PgCommon.RandomNumber)
    (len : ℕ) :
    ∃ text value, generateRandomInt random len = some text ∧ assertInt bigNumber text len = .ok value := by
  have hmax : 0 ≤ allOnes len / 2 := Int.ediv_nonneg (allOnes_nonneg len) (by decide)
  obtain ⟨value, hvalue, hleast, hgreatest⟩ := PgCommon.exists_generateRandomBigInt random
    (by omega : -(allOnes len / 2 + 1) ≤ allOnes len / 2)
  refine ⟨bigintText value, value, by rw [generateRandomInt, hvalue]; rfl, ?_⟩
  unfold assertInt intMax
  rw [if_neg (bigintText_ne_nil value), hlawful.new_bigintText value]
  exact if_neg (not_or.mpr ⟨not_lt.mpr hgreatest, not_lt.mpr hleast⟩)

/-- A random integer lies between its bounds, and the check of its type lets its text through, for every number
of bytes and whatever `Math.random` returns. -/
theorem accepts_generateRandom (hlawful : bigNumber.Lawful) (random : ℕ → PgCommon.RandomNumber) :
    (∀ min max : ℤ, min ≤ max → ∃ value,
      PgCommon.generateRandomBigInt random min max = some value ∧ min ≤ value ∧ value ≤ max) ∧
    (∀ len, ∃ text value,
      generateRandomUint random len = some text ∧ assertUint bigNumber text len = .ok value) ∧
    ∀ len, ∃ text value,
      generateRandomInt random len = some text ∧ assertInt bigNumber text len = .ok value :=
  ⟨fun _ _ hle ↦ PgCommon.exists_generateRandomBigInt random hle, accepts_generateRandomUint hlawful random,
    accepts_generateRandomInt hlawful random⟩

/-- Fewer than sixteen sixteenths are less than one. -/
theorem sixteenths_lt_one {count : ℕ} (hcount : count < 16) : (count : ℚ) * 2 ^ (-4 : ℤ) < 1 := by
  have hlt : (count : ℚ) < 2 ^ (4 : ℤ) := by
    norm_num
    exact_mod_cast hcount
  rw [zpow_neg, ← div_eq_mul_inv, div_lt_one (by positivity)]
  exact hlt

/-- Random numbers that change from call to call, all of them sixteenths. -/
def sixteenths (index : ℕ) : PgCommon.RandomNumber where
  value := ((5 * index + 3) % 16 : ℕ) * 2 ^ (-4 : ℤ)
  nonneg := by positivity
  lt_one := sixteenths_lt_one (Nat.mod_lt _ (by decide))
  double := by
    have hcount : (5 * index + 3) % 16 < 16 := Nat.mod_lt _ (by decide)
    have hdigits : |(((5 * index + 3) % 16 : ℕ) : ℤ)| < 2 ^ 53 := by
      rw [Nat.abs_cast]
      omega
    refine Double.toDouble_of_digits (-4) hdigits (by decide) ?_
    rw [abs_of_nonneg (by positivity), Int.cast_natCast]
    exact (sixteenths_lt_one hcount).trans (one_lt_pow₀ one_lt_two (by decide))

/-- If `Math.random` returns one sixteenth after the other. -/
theorem accepts_generateRandom_sixteenths :
    generateRandomUint sixteenths 2 = some "32816".toList ∧
    (∀ min max : ℤ, min ≤ max → ∃ value,
      PgCommon.generateRandomBigInt sixteenths min max = some value ∧ min ≤ value ∧ value ≤ max) ∧
    (∀ len, ∃ text value, generateRandomUint sixteenths len = some text ∧
      assertUint referenceBigNumber text len = .ok value) ∧
    ∀ len, ∃ text value, generateRandomInt sixteenths len = some text ∧
      assertInt referenceBigNumber text len = .ok value :=
  ⟨by decide +kernel, accepts_generateRandom lawful_referenceBigNumber sixteenths⟩

end Playground.PgProgramInteraction
