import Mathlib.Algebra.BigOperators.Group.List.Basic
import Mathlib.Algebra.GroupWithZero.Nat
import Mathlib.Data.List.Count

/-!
# Replacements in a text

An indel replaces a range of a text by another text. Indels that are sorted and do not overlap are applied
from the last to the first, so that each finds its range where it was in the original (`take_applyIndels`).

If leaving out some of them makes no difference to any text, they replace nothing by nothing
(`trivial_of_applyIndels_eq`): a text of one letter that none of them inserts shows what they delete, and
what they insert.
-/

set_option autoImplicit false
set_option relaxedAutoImplicit false

namespace Playground.Library

/-- A range of offsets. -/
@[ext]
structure TextRange where
  start : ℕ
  stop : ℕ
  start_le_stop : start ≤ stop
  deriving DecidableEq

/-- The range between two offsets, if they are in order. -/
def TextRange.new (start stop : ℕ) : Option TextRange :=
  if hle : start ≤ stop then some ⟨start, stop, hle⟩ else none

/-- A range contains another one. -/
def TextRange.containsRange (range other : TextRange) : Bool :=
  decide (range.start ≤ other.start ∧ other.stop ≤ range.stop)

/-- The replacement of a range. -/
structure Indel (α : Type*) where
  insert : List α
  delete : TextRange
  deriving DecidableEq

variable {α : Type*}

/-- A text with another one between two offsets. -/
def replaceSlice (start stop : ℕ) (inserted text : List α) : List α :=
  text.take start ++ inserted ++ text.drop stop

/-- A text after a replacement. -/
def Indel.apply (indel : Indel α) (text : List α) : List α :=
  replaceSlice indel.delete.start indel.delete.stop indel.insert text

/-- Each replacement ends before the next one starts. -/
def DisjointIndels (indels : List (Indel α)) : Prop :=
  indels.Pairwise fun first second ↦ first.delete.stop ≤ second.delete.start

/-- A text after replacements, the last of which is made first. -/
def applyIndels (text : List α) (indels : List (Indel α)) : List α :=
  indels.foldr Indel.apply text

/-- A replacement of nothing by nothing. -/
def Indel.Trivial (indel : Indel α) : Prop :=
  indel.delete.start = indel.delete.stop ∧ indel.insert = []

/-- Replacing nothing by nothing changes no text. -/
theorem Indel.Trivial.apply_eq {indel : Indel α} (htrivial : indel.Trivial) (text : List α) :
    indel.apply text = text := by
  rw [Indel.apply, replaceSlice, htrivial.1, htrivial.2, List.append_nil, List.take_append_drop]

/-- Replacements of nothing by nothing change no text. -/
theorem applyIndels_append_of_trivial {front : List (Indel α)} (htrivial : ∀ indel ∈ front, indel.Trivial)
    (rest : List (Indel α)) (text : List α) :
    applyIndels text (front ++ rest) = applyIndels text rest := by
  induction front with
  | nil => rfl
  | cons indel front ih =>
    have hfront := ih fun other hother ↦ htrivial other (List.mem_cons_of_mem _ hother)
    change indel.apply (applyIndels text (front ++ rest)) = _
    rw [(htrivial indel List.mem_cons_self).apply_eq, hfront]

/-! ### What is deleted and inserted -/

/-- Replacements leave what is before them. -/
theorem take_applyIndels {text : List α} {indels : List (Indel α)} {count : ℕ}
    (hcount : count ≤ text.length) (hindels : ∀ indel ∈ indels, count ≤ indel.delete.start) :
    (applyIndels text indels).take count = text.take count := by
  induction indels with
  | nil => rfl
  | cons indel rest ih =>
    have hrest := ih fun other hother ↦ hindels other (List.mem_cons_of_mem _ hother)
    have hstart := hindels indel List.mem_cons_self
    have hlength : count ≤ (applyIndels text rest).length := by
      have hle := congrArg List.length hrest
      rw [List.length_take, List.length_take] at hle
      omega
    change (replaceSlice indel.delete.start indel.delete.stop indel.insert
      (applyIndels text rest)).take count = _
    rw [replaceSlice, List.append_assoc, List.take_append_of_le_length, List.take_take,
      Nat.min_eq_left hstart, hrest]
    rw [List.length_take]
    omega

/-- The part of a text that a replacement deletes. -/
def Indel.slice (indel : Indel α) (text : List α) : List α :=
  (text.take indel.delete.stop).drop indel.delete.start

variable [DecidableEq α]

/-- A replacement takes the letters of its range away, and adds those that it inserts. -/
theorem Indel.count_apply (indel : Indel α) (text : List α) (letter : α) :
    (indel.apply text).count letter + (indel.slice text).count letter =
      text.count letter + indel.insert.count letter := by
  have hsplit : text.take indel.delete.start ++ indel.slice text = text.take indel.delete.stop := by
    have htake : text.take indel.delete.start =
        (text.take indel.delete.stop).take indel.delete.start := by
      rw [List.take_take, Nat.min_eq_left indel.delete.start_le_stop]
    rw [htake, Indel.slice, List.take_append_drop]
  have htext : text.count letter =
      (text.take indel.delete.stop).count letter + (text.drop indel.delete.stop).count letter := by
    rw [← List.count_append, List.take_append_drop]
  rw [htext, ← hsplit, Indel.apply, replaceSlice, List.count_append, List.count_append,
    List.count_append]
  omega

/-- The letters of a text after replacements. -/
theorem count_applyIndels {text : List α} {indels : List (Indel α)} (hdisjoint : DisjointIndels indels)
    (hinside : ∀ indel ∈ indels, indel.delete.stop ≤ text.length) (letter : α) :
    (applyIndels text indels).count letter +
        (indels.map fun indel ↦ (indel.slice text).count letter).sum =
      text.count letter + (indels.map fun indel ↦ indel.insert.count letter).sum := by
  induction indels with
  | nil => rfl
  | cons indel rest ih =>
    obtain ⟨hfirst, hrest⟩ := List.pairwise_cons.mp hdisjoint
    have hsum := ih hrest fun other hother ↦ hinside other (List.mem_cons_of_mem _ hother)
    have hslice : indel.slice (applyIndels text rest) = indel.slice text :=
      congrArg (List.drop indel.delete.start)
        (take_applyIndels (hinside indel List.mem_cons_self) hfirst)
    have hcount := indel.count_apply (applyIndels text rest) letter
    rw [hslice] at hcount
    change (indel.apply (applyIndels text rest)).count letter + _ = _
    rw [List.map_cons, List.sum_cons, List.map_cons, List.sum_cons]
    omega

omit [DecidableEq α] in
/-- The letters deleted of a text of one letter. -/
theorem Indel.slice_replicate {indel : Indel α} {count : ℕ} (hinside : indel.delete.stop ≤ count)
    (letter : α) : indel.slice (List.replicate count letter) =
      List.replicate (indel.delete.stop - indel.delete.start) letter := by
  rw [Indel.slice, List.take_replicate, List.drop_replicate, Nat.min_eq_left hinside]

/-- Assumes: two letters. Replacements that make no difference to any long enough text, whatever comes behind
them, replace nothing by nothing. -/
theorem trivial_of_applyIndels_eq {front rest : List (Indel α)} {first second : α}
    (hne : first ≠ second) (hdisjoint : DisjointIndels (front ++ rest)) {count : ℕ}
    (hinside : ∀ indel ∈ front ++ rest, indel.delete.stop ≤ count)
    (hsame : ∀ letter, applyIndels (List.replicate count letter) (front ++ rest) =
      applyIndels (List.replicate count letter) rest) :
    ∀ indel ∈ front, indel.Trivial := by
  have hbalance : ∀ letter other : α,
      (front.map fun indel ↦ (indel.slice (List.replicate count letter)).count other).sum =
        (front.map fun indel ↦ indel.insert.count other).sum := by
    intro letter other
    have hlength : (List.replicate count letter).length = count := List.length_replicate
    have hall := count_applyIndels hdisjoint
      (fun indel hmem ↦ (hinside indel hmem).trans_eq hlength.symm) other
    have hrest := count_applyIndels (List.pairwise_append.mp hdisjoint).2.1
      (fun indel hmem ↦ (hinside indel (List.mem_append_right _ hmem)).trans_eq hlength.symm) other
    rw [hsame letter, List.map_append, List.sum_append, List.map_append, List.sum_append] at hall
    omega
  have hinsert : ∀ other, (front.map fun indel ↦ indel.insert.count other).sum = 0 := by
    intro other
    obtain ⟨letter, hletter⟩ : ∃ letter, letter ≠ other := by
      by_cases heq : first = other
      · exact ⟨second, fun h ↦ hne (heq.trans h.symm)⟩
      · exact ⟨first, heq⟩
    rw [← hbalance letter other, List.sum_eq_zero_iff_forall_eq_nat]
    intro value hvalue
    obtain ⟨indel, hindel, rfl⟩ := List.mem_map.mp hvalue
    rw [Indel.slice_replicate (hinside indel (List.mem_append_left _ hindel)), List.count_replicate,
      if_neg (by simpa using hletter)]
  intro indel hindel
  have hdeleted := (hbalance first first).trans (hinsert first)
  rw [List.sum_eq_zero_iff_forall_eq_nat] at hdeleted
  have hzero := hdeleted _ (List.mem_map_of_mem hindel)
  rw [Indel.slice_replicate (hinside indel (List.mem_append_left _ hindel)),
    List.count_replicate_self] at hzero
  have hordered := indel.delete.start_le_stop
  refine ⟨by omega, ?_⟩
  refine List.eq_nil_iff_forall_not_mem.mpr fun other hother ↦ ?_
  have hcount := List.sum_eq_zero_iff_forall_eq_nat.mp (hinsert other) _ (List.mem_map_of_mem hindel)
  exact absurd (List.count_pos_iff.mpr hother) (by omega)

end Playground.Library
