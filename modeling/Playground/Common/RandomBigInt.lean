import Playground.Library.Bytes
import Playground.Library.Double

/-!
# Random integers

`PgCommon.generateRandomInt` and `PgCommon.generateRandomBigInt` of `client/src/utils/pg/common.ts`. The
difference of the bounds is put into eight bytes, and a number that is not greater than it is drawn for each
byte that is not zero. Put together again, these are not greater than the difference
(`exists_generateRandomBigInt`).

`Math.random` may return any number of double precision from zero to one, without one (`RandomNumber`), and all
that is computed from it is rounded. The eight bytes are those of a machine that puts the least one first.
-/

set_option autoImplicit false
set_option relaxedAutoImplicit false

namespace Playground.PgCommon

open Library Library.Double

/-- What `Math.random()` returns. -/
structure RandomNumber where
  value : ℚ
  nonneg : 0 ≤ value
  lt_one : value < 1
  double : toDouble value = finite value

/-- A number that can be made a `bigint`, if it is an integer. -/
def finiteValue : Double → Option ℚ
  | .finite value => some value
  | .infinite _ => none

/-- `PgCommon.generateRandomInt`. There is nothing for a number that is too great for double precision. -/
def generateRandomInt (random : RandomNumber) (min max : ℚ) : Option ℤ := do
  let difference ← finiteValue (toDouble (max - min))
  let count ← finiteValue (toDouble (difference + 1))
  let product ← finiteValue (toDouble (random.value * count))
  let sum ← finiteValue (toDouble (product + min))
  return ⌊sum⌋

/-- The function that is given to `reduce` by `PgCommon.generateRandomBigInt`. The number of calls of
`Math.random` is kept beside the sum. -/
def addRandomByte (random : ℕ → RandomNumber) (acc : ℤ × ℕ) (cur : UInt8 × ℕ) : Option (ℤ × ℕ) :=
  if cur.1 = 0 then some acc
  else do
    let drawn ← generateRandomInt (random acc.2) 0 cur.1.toNat
    return (acc.1 + drawn * 2 ^ (8 * cur.2), acc.2 + 1)

/-- `PgCommon.generateRandomBigInt`, from what the calls of `Math.random` return. -/
def generateRandomBigInt (random : ℕ → RandomNumber) (min max : ℤ) : Option ℤ := do
  let acc ← (twosComplement 8 (max - min)).zipIdx.foldlM (addRandomByte random) (0, 0)
  return acc.1 + min

/-- A random integer from zero to a small number lies between them. -/
theorem exists_generateRandomInt (random : RandomNumber) (max : ℕ) (hmax : max < 2 ^ 52) :
    ∃ drawn, generateRandomInt random 0 max = some drawn ∧ 0 ≤ drawn ∧ drawn ≤ max := by
  obtain ⟨product, hproduct, hnonneg, hlt⟩ := exists_toDouble_mul_lt random.nonneg random.lt_one random.double
    (Nat.succ_pos max) (by omega)
  have hdifference : toDouble ((max : ℚ) - 0) = finite max := by
    rw [sub_zero]
    exact_mod_cast toDouble_of_integer max (by rw [Nat.abs_cast]; omega)
  have hcount : toDouble ((max : ℚ) + 1) = finite ((max + 1 : ℕ) : ℚ) := by
    exact_mod_cast toDouble_of_integer (max + 1 : ℕ) (by rw [Nat.abs_cast]; omega)
  have hsum : toDouble (product + 0) = finite product := by
    rw [add_zero]
    exact toDouble_toDouble hproduct
  refine ⟨⌊product⌋, ?_, Int.floor_nonneg.mpr hnonneg, ?_⟩
  · unfold generateRandomInt
    rw [hdifference]
    show (finiteValue (toDouble ((max : ℚ) + 1))).bind _ = _
    rw [hcount]
    show (finiteValue (toDouble (random.value * ((max + 1 : ℕ) : ℚ)))).bind _ = _
    rw [hproduct]
    show (finiteValue (toDouble (product + 0))).bind _ = _
    rw [hsum]
    rfl
  · rw [← Int.lt_add_one_iff, Int.floor_lt]
    exact_mod_cast hlt

/-- A byte adds no more than what it stands for. -/
theorem exists_addRandomByte (random : ℕ → RandomNumber) (acc : ℤ × ℕ) (byte : UInt8) (index : ℕ) :
    ∃ next, addRandomByte random acc (byte, index) = some next ∧ acc.1 ≤ next.1 ∧
      next.1 ≤ acc.1 + byte.toNat * 256 ^ index := by
  have hweight : (2 : ℤ) ^ (8 * index) = 256 ^ index := by
    rw [pow_mul]
    norm_num
  have hpos : (0 : ℤ) < 256 ^ index := pow_width_pos index
  unfold addRandomByte
  by_cases hzero : byte = 0
  · refine ⟨acc, if_pos hzero, le_rfl, ?_⟩
    rw [hzero, UInt8.toNat_zero, Nat.cast_zero, zero_mul, add_zero]
  · obtain ⟨drawn, hdrawn, hnonneg, hle⟩ := exists_generateRandomInt (random acc.2) byte.toNat
      (byte.toNat_lt.trans (by norm_num))
    refine ⟨(acc.1 + drawn * 2 ^ (8 * index), acc.2 + 1), ?_, ?_, ?_⟩
    · rw [if_neg hzero]
      show (generateRandomInt (random acc.2) 0 byte.toNat).bind _ = _
      rw [hdrawn]
      rfl
    · rw [hweight]
      exact le_add_of_nonneg_right (mul_nonneg hnonneg hpos.le)
    · rw [hweight]
      exact add_le_add_right (mul_le_mul_of_nonneg_right hle hpos.le) _

/-- The bytes add no more than the number that they stand for. -/
theorem exists_foldlM_addRandomByte (random : ℕ → RandomNumber) (bytes : List UInt8) (index : ℕ)
    (acc : ℤ × ℕ) :
    ∃ last, (bytes.zipIdx index).foldlM (addRandomByte random) acc = some last ∧ acc.1 ≤ last.1 ∧
      last.1 ≤ acc.1 + 256 ^ index * (Nat.ofDigits 256 (bytes.map UInt8.toNat) : ℕ) := by
  induction bytes generalizing index acc with
  | nil => exact ⟨acc, rfl, le_rfl, by simp⟩
  | cons byte bytes ih =>
    obtain ⟨next, hnext, hfirst, hsecond⟩ := exists_addRandomByte random acc byte index
    obtain ⟨last, hlast, hthird, hfourth⟩ := ih (index + 1) next
    refine ⟨last, ?_, hfirst.trans hthird, hfourth.trans ?_⟩
    · rw [List.zipIdx_cons, List.foldlM_cons, hnext]
      exact hlast
    · rw [List.map_cons, Nat.ofDigits_cons, pow_succ]
      push_cast
      linarith

/-- A random integer lies between its bounds, whatever `Math.random` returns and however far they are from each
other. -/
theorem exists_generateRandomBigInt (random : ℕ → RandomNumber) {min max : ℤ} (hle : min ≤ max) :
    ∃ value, generateRandomBigInt random min max = some value ∧ min ≤ value ∧ value ≤ max := by
  obtain ⟨last, hlast, hnonneg, hbound⟩ :=
    exists_foldlM_addRandomByte random (twosComplement 8 (max - min)) 0 (0, 0)
  have hpow := pow_width_pos 8
  have hmod : ((Nat.ofDigits 256 ((twosComplement 8 (max - min)).map UInt8.toNat) : ℕ) : ℤ) ≤ max - min := by
    rw [twosComplement, ofDigits_bytesOf, Nat.mod_eq_of_lt (toNat_emod_lt 8 (max - min)),
      Int.toNat_of_nonneg (Int.emod_nonneg _ hpow.ne')]
    omega
  refine ⟨last.1 + min, ?_, by omega, by omega⟩
  unfold generateRandomBigInt
  rw [hlast]
  rfl

end Playground.PgCommon
