import Mathlib.Algebra.Order.Group.Abs
import Mathlib.Data.Int.ModEq
import Mathlib.Data.Nat.Digits.Defs
import Mathlib.Order.Interval.Set.Basic

/-!
# Bytes of numbers

`bytesOf width value` are the lowest bytes of a number, the least significant first; different numbers
that fit have different bytes. The two's complement of an integer are the bytes of its remainder.
-/

set_option autoImplicit false
set_option relaxedAutoImplicit false

namespace Playground.Library

/-- The lowest bytes of a number, the least significant first. -/
def bytesOf : ℕ → ℕ → List UInt8
  | 0, _ => []
  | width + 1, value => UInt8.ofNat value :: bytesOf width (value / 256)

/-- The two's complement of an integer. -/
def twosComplement (width : ℕ) (value : ℤ) : List UInt8 :=
  bytesOf width (value % 256 ^ width).toNat

theorem pow_width_pos (width : ℕ) : (0 : ℤ) < 256 ^ width :=
  Int.pow_pos (by decide)

/-- Numbers that fit are told apart by their bytes. -/
theorem bytesOf_inj {width first second : ℕ} (hfirst : first < 256 ^ width)
    (hsecond : second < 256 ^ width) :
    bytesOf width first = bytesOf width second ↔ first = second := by
  induction width generalizing first second with
  | zero =>
    rw [pow_zero, Nat.lt_one_iff] at hfirst hsecond
    simp [hfirst, hsecond]
  | succ width ih =>
    rw [pow_succ] at hfirst hsecond
    rw [bytesOf, bytesOf, List.cons.injEq, ih (by omega) (by omega), ← UInt8.toNat_inj,
      UInt8.toNat_ofNat', UInt8.toNat_ofNat']
    omega

/-- A number is read from its lowest bytes up to multiples of what they hold. -/
theorem ofDigits_bytesOf (width value : ℕ) :
    Nat.ofDigits 256 ((bytesOf width value).map UInt8.toNat) = value % 256 ^ width := by
  induction width generalizing value with
  | zero => rw [pow_zero, Nat.mod_one, bytesOf, List.map_nil, Nat.ofDigits_nil]
  | succ width ih =>
    rw [bytesOf, List.map_cons, Nat.ofDigits_cons, ih, Nat.pow_succ' (m := 256), UInt8.toNat_ofNat']
    exact Nat.mod_mul.symm

/-- The remainder of an integer fits. -/
theorem toNat_emod_lt (width : ℕ) (value : ℤ) : (value % 256 ^ width).toNat < 256 ^ width := by
  have hpos := pow_width_pos width
  have hlt := Int.emod_lt_of_pos value hpos
  have hnonneg := Int.emod_nonneg value hpos.ne'
  rw [Int.toNat_lt hnonneg]
  exact_mod_cast hlt

/-- Integers are told apart by their two's complements up to multiples of what the width holds. -/
theorem twosComplement_inj {width : ℕ} {first second : ℤ} :
    twosComplement width first = twosComplement width second ↔
      first % 256 ^ width = second % 256 ^ width := by
  have hpos := pow_width_pos width
  rw [twosComplement, twosComplement, bytesOf_inj (toNat_emod_lt width first)
    (toNat_emod_lt width second)]
  have hfirst := Int.emod_nonneg first hpos.ne'
  have hsecond := Int.emod_nonneg second hpos.ne'
  omega

/-- Integers that are not too far from each other are told apart by their two's complements. -/
theorem twosComplement_injOn {width : ℕ} {first second : ℤ} (hbelow : first - second < 256 ^ width)
    (habove : second - first < 256 ^ width)
    (hequal : twosComplement width first = twosComplement width second) : first = second := by
  rw [twosComplement_inj] at hequal
  have hdvd : (256 : ℤ) ^ width ∣ first - second := Int.ModEq.dvd (Eq.symm hequal)
  have habs : |first - second| < 256 ^ width := abs_lt.mpr ⟨by omega, hbelow⟩
  exact sub_eq_zero.mp (Int.eq_zero_of_abs_lt_dvd hdvd habs)

/-- The bytes of a magnitude are the two's complement exactly if the integer is its remainder. -/
theorem bytesOf_natAbs_eq_twosComplement_iff {width : ℕ} {value : ℤ}
    (hfits : value.natAbs < 256 ^ width) :
    bytesOf width value.natAbs = twosComplement width value ↔
      0 ≤ value ∨ 2 * value = - 256 ^ width := by
  have hpos := pow_width_pos width
  have hlt : (value.natAbs : ℤ) < 256 ^ width := by exact_mod_cast hfits
  rw [twosComplement, bytesOf_inj hfits (toNat_emod_lt width value)]
  rcases le_or_gt 0 value with hnonneg | hneg
  · have hself : value % 256 ^ width = value := Int.emod_eq_of_lt hnonneg (by omega)
    rw [hself]
    omega
  · have hrest : value % 256 ^ width = value + 256 ^ width := by
      rw [← Int.add_emod_right, Int.emod_eq_of_lt (by omega) (by omega)]
    rw [hrest]
    omega

end Playground.Library
