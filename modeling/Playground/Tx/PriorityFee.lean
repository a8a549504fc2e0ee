import Mathlib.Data.Char
import Mathlib.Data.List.Lex
import Mathlib.Algebra.Order.BigOperators.Group.List
import Playground.Library.Ranks
import Playground.Library.WholeNumbers

/-!
# The priority fee

`PgTx._getPriorityFee` of `client/src/utils/pg/tx/tx.ts`. The fees of the last slots are sorted and their
extremes, their average and their median are cached for a minute. `sort` without a comparison sorts
numbers by their texts, so that `9` comes after `10` and the entry in the middle may be any of the fees;
and `reduce` without an initial value throws if there are no fees. Fees, their sums and the average are
numbers of double precision: what is added is rounded at each addition, and the average before it is
rounded up. `answers_iff` says for which fees what is answered is right all the same.

Not formalized here: the request for the fees, and the limit of the number of arguments of `Math.min`.
-/

set_option autoImplicit false
set_option relaxedAutoImplicit false

namespace Playground.PgTx

open Library

/-! ### The fees -/

/-- `prioritizationFee`: a whole number of double precision. -/
abbrev Fee : Type :=
  { value : ℕ // Double.toDouble value = .finite value }

/-- The text of a fee. -/
def Fee.text (fee : Fee) : List Char :=
  Double.numberText (.finite fee.val)

/-- `PriorityFeeInfo`. -/
@[ext] structure PriorityFeeInfo where
  min : Double
  max : Double
  average : Double
  median : Option Double
  timestamp : ℕ
  deriving DecidableEq

/-- What is thrown: the reduction of an empty array without an initial value. -/
inductive Error
  | typeError
  deriving DecidableEq

/-- `sort` without a comparison: by the texts of the numbers. -/
def sortByText (fees : List Fee) : List Fee :=
  fees.insertionSort fun first second ↦ first.text ≤ second.text

/-- `Math.min`. -/
def mathMin (fees : List Fee) : Double :=
  fees.min?.elim (.infinite false) fun fee ↦ .finite fee.val

/-- `Math.max`. -/
def mathMax (fees : List Fee) : Double :=
  fees.max?.elim (.infinite true) fun fee ↦ .finite fee.val

/-- `reduce` with the sum, without an initial value. -/
def reduceSum : List Fee → Except Error Double
  | [] => .error .typeError
  | first :: rest => .ok (rest.foldl (fun acc cur ↦ acc.add cur.val) (.finite first.val))

/-- The information on the fees that have been requested. -/
def priorityFeeInfo (result : List Fee) (timestamp : ℕ) : Except Error PriorityFeeInfo := do
  let fees := sortByText result
  let sum ← reduceSum fees
  return {
    min := mathMin fees
    max := mathMax fees
    average := (sum.div fees.length).ceil
    median := fees[fees.length / 2]?.map fun fee ↦ .finite fee.val
    timestamp }

/-- What has been cached is not used any more. -/
def isExpired (cached : Option PriorityFeeInfo) (timestamp : ℕ) : Bool :=
  match cached with
  | none => true
  | some info => info.timestamp + 60 < timestamp

/-- `PgTx._getPriorityFee`. What is returned is what is cached from then on. -/
def getPriorityFee (cached : Option PriorityFeeInfo) (timestamp : ℕ) (result : List Fee) :
    Except Error PriorityFeeInfo :=
  match cached with
  | none => priorityFeeInfo result timestamp
  | some info =>
    if isExpired cached timestamp then priorityFeeInfo result timestamp else .ok info

/-! ### What the information is to be -/

/-- The sum of the fees, without any rounding. -/
def total (fees : List Fee) : ℕ :=
  (fees.map Subtype.val).sum

/-- No more than half of the fees are smaller, and no more than half are greater. -/
def IsMedian (fees : List Fee) (fee : Fee) : Prop :=
  fee ∈ fees ∧ 2 * (fees.countP (· < fee)) ≤ fees.length ∧
    2 * (fees.countP (fee < ·)) ≤ fees.length

instance (fees : List Fee) (fee : Fee) : Decidable (IsMedian fees fee) := by
  unfold IsMedian
  infer_instance

/-- The information on fees. -/
structure Summarizes (fees : List Fee) (info : PriorityFeeInfo) (min max median : Fee) (average : ℕ) :
    Prop where
  info_min : info.min = .finite min.val
  info_max : info.max = .finite max.val
  info_median : info.median = some (.finite median.val)
  info_average : info.average = .finite average
  min_mem : min ∈ fees
  max_mem : max ∈ fees
  bounds : ∀ fee ∈ fees, min ≤ fee ∧ fee ≤ max
  isMedian : IsMedian fees median
  /-- The average is rounded up. -/
  average_le_iff : ∀ bound : ℕ, average ≤ bound ↔ total fees ≤ bound * fees.length
  median_bounds : min ≤ median ∧ median ≤ max
  average_bounds : min.val ≤ average ∧ average ≤ max.val

/-- What a call is to answer: the information on the fees that it has requested, or what is cached. -/
def Answers (cached : Option PriorityFeeInfo) (timestamp : ℕ) (result : List Fee) : Prop :=
  if isExpired cached timestamp then
    ∃ info min max median average, getPriorityFee cached timestamp result = .ok info ∧
      info.timestamp = timestamp ∧ Summarizes result info min max median average
  else ∃ info, cached = some info ∧ getPriorityFee cached timestamp result = .ok info

/-- A fee that is in the middle by its text, and in the middle. -/
def IsMiddle (fees : List Fee) (fee : Fee) : Prop :=
  IsMedian fees fee ∧ HasRank Fee.text fees (fees.length / 2) fee

instance (fees : List Fee) (fee : Fee) : Decidable (IsMiddle fees fee) := by
  unfold IsMiddle
  infer_instance

/-- The fees added in the order of their texts, each sum rounded. -/
def roundedTotal (fees : List Fee) : Double :=
  (sortByText fees).foldl (fun acc cur ↦ acc.add cur.val) (.finite 0)

/-- The roundings of the sums and of their quotient do not pass a whole number. -/
def KeepsAverage (fees : List Fee) : Prop :=
  Double.KeepsCeil (total fees / fees.length) ((roundedTotal fees).div fees.length)

/-! ### What the code answers -/

/-- Different fees have different texts. -/
theorem text_injective : Function.Injective Fee.text := fun first second heq ↦
  Subtype.ext (Double.numberText_natCast_injective first.property second.property heq)

theorem perm_sortByText (fees : List Fee) : (sortByText fees).Perm fees :=
  List.perm_insertionSort _ _

theorem sortByText_ne_nil {fees : List Fee} (hne : fees ≠ []) : sortByText fees ≠ [] := fun heq ↦
  hne (heq ▸ perm_sortByText fees).nil_eq.symm

/-- Without fees the reduction throws. -/
theorem priorityFeeInfo_nil (timestamp : ℕ) : priorityFeeInfo [] timestamp = .error .typeError :=
  rfl

/-- Adding to nothing is starting with the first fee. -/
theorem reduceSum_of_ne_nil {fees : List Fee} (hne : fees ≠ []) :
    reduceSum fees = .ok (fees.foldl (fun acc cur ↦ acc.add cur.val) (.finite 0)) := by
  cases fees with
  | nil => exact absurd rfl hne
  | cons first rest =>
    rw [reduceSum, List.foldl_cons, Double.add, zero_add, first.property]

/-- What is answered for some fees. -/
theorem priorityFeeInfo_of_ne_nil {fees : List Fee} (hne : fees ≠ []) (timestamp : ℕ) :
    priorityFeeInfo fees timestamp = .ok {
      min := mathMin (sortByText fees)
      max := mathMax (sortByText fees)
      average := ((roundedTotal fees).div fees.length).ceil
      median := (sortByText fees)[fees.length / 2]?.map fun fee ↦ .finite fee.val
      timestamp } := by
  rw [priorityFeeInfo, reduceSum_of_ne_nil (sortByText_ne_nil hne), ← (perm_sortByText fees).length_eq]
  rfl

/-- The least and the greatest of the fees. -/
theorem exists_min_max {fees : List Fee} (hne : fees ≠ []) :
    ∃ min max : Fee, mathMin (sortByText fees) = .finite min.val ∧
      mathMax (sortByText fees) = .finite max.val ∧ min ∈ fees ∧ max ∈ fees ∧
        ∀ fee ∈ fees, min ≤ fee ∧ fee ≤ max := by
  have hperm := perm_sortByText fees
  have hsorted := sortByText_ne_nil hne
  obtain ⟨min, hmin⟩ := Option.isSome_iff_exists.mp (List.isSome_min?_iff.mpr hsorted)
  obtain ⟨max, hmax⟩ := Option.isSome_iff_exists.mp (List.isSome_max?_iff.mpr hsorted)
  obtain ⟨hminMem, hminLe⟩ := List.min?_eq_some_iff.mp hmin
  obtain ⟨hmaxMem, hmaxLe⟩ := List.max?_eq_some_iff.mp hmax
  refine ⟨min, max, ?_, ?_, hperm.mem_iff.mp hminMem, hperm.mem_iff.mp hmaxMem, fun fee hfee ↦
    ⟨hminLe fee (hperm.mem_iff.mpr hfee), hmaxLe fee (hperm.mem_iff.mpr hfee)⟩⟩
  · rw [mathMin, hmin]
    rfl
  · rw [mathMax, hmax]
    rfl

/-- The average, rounded up, is the least number that times their number is their sum at least. -/
theorem ceil_average_le_iff {fees : List Fee} (hne : fees ≠ []) (bound : ℕ) :
    ⌈(total fees : ℚ) / fees.length⌉ ≤ bound ↔ total fees ≤ bound * fees.length := by
  have hlength : (0 : ℚ) < fees.length := Nat.cast_pos.mpr (List.length_pos_iff.mpr hne)
  rw [Int.ceil_le, div_le_iff₀ hlength]
  exact_mod_cast Iff.rfl

/-- Bounds of the fees are bounds of what their average is. -/
theorem average_bounds {fees : List Fee} (hne : fees ≠ []) {min max : Fee}
    (hbounds : ∀ fee ∈ fees, min ≤ fee ∧ fee ≤ max) {average : ℕ}
    (haverage : ∀ bound : ℕ, average ≤ bound ↔ total fees ≤ bound * fees.length) :
    min.val ≤ average ∧ average ≤ max.val := by
  have hlength : 0 < fees.length := List.length_pos_iff.mpr hne
  have hvalues : ∀ value ∈ fees.map Subtype.val, min.val ≤ value ∧ value ≤ max.val := by
    intro value hvalue
    obtain ⟨fee, hfee, rfl⟩ := List.mem_map.mp hvalue
    exact hbounds fee hfee
  have hleast := List.card_nsmul_le_sum _ min.val fun value hvalue ↦ (hvalues value hvalue).1
  have hgreatest := List.sum_le_card_nsmul _ max.val fun value hvalue ↦ (hvalues value hvalue).2
  rw [List.length_map, nsmul_eq_mul, mul_comm] at hleast hgreatest
  exact ⟨Nat.le_of_mul_le_mul_right (hleast.trans ((haverage average).mp le_rfl)) hlength,
    (haverage max.val).mpr hgreatest⟩

/-- The average that is answered is that of the fees exactly if the roundings keep it. -/
theorem exists_average_iff {fees : List Fee} (hne : fees ≠ []) :
    (∃ average : ℕ, ((roundedTotal fees).div fees.length).ceil = .finite average ∧
      ∀ bound : ℕ, average ≤ bound ↔ total fees ≤ bound * fees.length) ↔ KeepsAverage fees := by
  have hnonneg : 0 ≤ ⌈(total fees : ℚ) / fees.length⌉ :=
    Int.ceil_nonneg (div_nonneg (Nat.cast_nonneg _) (Nat.cast_nonneg _))
  obtain ⟨exact, hexact⟩ := Int.eq_ofNat_of_zero_le hnonneg
  have hbound : ∀ bound : ℕ, exact ≤ bound ↔ total fees ≤ bound * fees.length := by
    intro bound
    rw [← ceil_average_le_iff hne, hexact]
    exact Int.ofNat_le.symm
  rw [KeepsAverage, ← Double.ceil_eq_iff, hexact, Int.cast_natCast]
  constructor
  · rintro ⟨average, heq, haverage⟩
    rw [heq, eq_of_forall_ge_iff fun bound ↦ (haverage bound).trans (hbound bound).symm]
  · exact fun heq ↦ ⟨exact, heq, hbound⟩

/-- The entry in the middle of the texts. -/
theorem getElem?_sortByText_eq_some_iff {fees : List Fee} {place : ℕ} {fee : Fee} :
    (sortByText fees)[place]? = some fee ↔ fee ∈ fees ∧ HasRank Fee.text fees place fee :=
  getElem?_insertionSort_eq_some_iff text_injective

/-- What is answered to some fees is right exactly if the fee in the middle of the texts is a median and
the roundings keep the average. -/
theorem summarizes_iff {fees : List Fee} (hne : fees ≠ []) (timestamp : ℕ) :
    (∃ info min max median average, priorityFeeInfo fees timestamp = .ok info ∧
      info.timestamp = timestamp ∧ Summarizes fees info min max median average) ↔
        (∃ fee, IsMiddle fees fee) ∧ KeepsAverage fees := by
  rw [priorityFeeInfo_of_ne_nil hne, ← exists_average_iff hne]
  constructor
  · rintro ⟨info, min, max, median, average, hinfo, -, hsummary⟩
    obtain rfl := Except.ok.inj hinfo
    obtain ⟨fee, hfee, hvalue⟩ := Option.map_eq_some_iff.mp hsummary.info_median
    obtain rfl : fee = median := Subtype.ext (Nat.cast_injective (Double.finite.inj hvalue))
    exact ⟨⟨fee, hsummary.isMedian, (getElem?_sortByText_eq_some_iff.mp hfee).2⟩,
      average, hsummary.info_average, hsummary.average_le_iff⟩
  · rintro ⟨⟨fee, hmedian, hrank⟩, average, heq, haverage⟩
    obtain ⟨min, max, hmin, hmax, hminMem, hmaxMem, hbounds⟩ := exists_min_max hne
    refine ⟨_, min, max, fee, average, rfl, rfl, ?_⟩
    exact {
      info_min := hmin
      info_max := hmax
      info_median :=
        Option.map_eq_some_iff.mpr ⟨fee, getElem?_sortByText_eq_some_iff.mpr ⟨hmedian.1, hrank⟩, rfl⟩
      info_average := heq
      min_mem := hminMem
      max_mem := hmaxMem
      bounds := hbounds
      isMedian := hmedian
      average_le_iff := haverage
      median_bounds := hbounds fee hmedian.1
      average_bounds := average_bounds hne hbounds haverage }

/-- Fees whose sum is small enough are added and divided without passing a whole number. -/
theorem keepsAverage_of_lt {fees : List Fee} (hne : fees ≠ []) (hsum : total fees < 2 ^ 53)
    (hlength : fees.length < 2 ^ 32) : KeepsAverage fees := by
  have hperm := (perm_sortByText fees).map Subtype.val
  have hrounded : roundedTotal fees = .finite (total fees) := by
    have hadd := @Double.foldl_add_of_lt ((sortByText fees).map Subtype.val) 0
      (by rwa [Nat.zero_add, hperm.sum_eq])
    rw [List.foldl_map, Nat.cast_zero, Nat.zero_add, hperm.sum_eq] at hadd
    exact hadd
  rw [KeepsAverage, hrounded]
  exact Double.keepsCeil_div hsum (List.length_pos_iff.mpr hne) (by omega)

/-- A fee that is small enough not to be rounded. -/
def smallFee (value : ℕ) (hsmall : value < 2 ^ 53) : Fee :=
  ⟨value, by exact_mod_cast Double.toDouble_of_integer value (by
    rw [abs_of_nonneg (Int.natCast_nonneg _)]
    exact_mod_cast hsmall)⟩

/-- The sum of `2` and `2 ^ 53 - 1` is rounded to `2 ^ 53`, whose half is a whole number. -/
example : ¬ KeepsAverage [smallFee 2 (by decide), smallFee (2 ^ 53 - 1) (by decide)] := by
  rw [KeepsAverage, ← Double.ceil_eq_iff]
  decide +kernel

end Playground.PgTx
