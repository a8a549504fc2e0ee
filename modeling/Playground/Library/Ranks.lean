import Mathlib.Data.List.Sort
import Mathlib.Order.Basic

/-!
# The place of an entry in a sorted list

In a list that is sorted by a key, an entry is at a place exactly if at most so many entries come before
it by their keys, and more than so many come before it or are the entry (`HasRank`). What counts is the
same for every order of the entries, so that the entry at a place of the sorted list is found in the list
that has been sorted (`getElem?_insertionSort_eq_some_iff`).
-/

set_option autoImplicit false
set_option relaxedAutoImplicit false

namespace Playground.Library

variable {α β : Type*} [LinearOrder β] {key : α → β} {entries : List α} {place : ℕ} {entry : α}

/-- By its key, an entry may stand at a place when the entries are sorted. -/
def HasRank (key : α → β) (entries : List α) (place : ℕ) (entry : α) : Prop :=
  (entries.countP fun other ↦ key other < key entry) ≤ place ∧
    place < entries.countP fun other ↦ key other ≤ key entry

instance (key : α → β) (entries : List α) (place : ℕ) (entry : α) :
    Decidable (HasRank key entries place entry) := by
  unfold HasRank
  infer_instance

/-- What counts does not depend on the order of the entries. -/
theorem hasRank_of_perm {others : List α} (hperm : entries.Perm others) :
    HasRank key entries place entry ↔ HasRank key others place entry := by
  rw [HasRank, HasRank, hperm.countP_eq, hperm.countP_eq]

/-- Nothing is smaller than what all entries are at least. -/
theorem countP_lt_eq_zero (hleast : ∀ other ∈ entries, key entry ≤ key other) :
    (entries.countP fun other ↦ key other < key entry) = 0 := by
  rw [List.countP_eq_zero]
  intro other hother
  simpa using hleast other hother

/-- The entry at a place of a sorted list. -/
theorem getElem?_eq_some_iff_hasRank (hkey : Function.Injective key)
    (hsorted : entries.Pairwise fun first second ↦ key first ≤ key second) :
    entries[place]? = some entry ↔ entry ∈ entries ∧ HasRank key entries place entry := by
  induction entries generalizing place with
  | nil => simp
  | cons first rest ih =>
    rw [List.pairwise_cons] at hsorted
    have hfirst : ∀ other ∈ first :: rest, key first ≤ key other :=
      List.forall_mem_cons.mpr ⟨le_rfl, hsorted.1⟩
    unfold HasRank at ih ⊢
    rw [List.countP_cons, List.countP_cons]
    simp only [decide_eq_true_eq]
    cases place with
    | zero =>
      rw [List.getElem?_cons_zero, Option.some.injEq]
      constructor
      · intro heq
        subst heq
        rw [countP_lt_eq_zero hsorted.1, if_neg (lt_irrefl _), if_pos le_rfl]
        exact ⟨List.mem_cons_self, le_rfl, Nat.succ_pos _⟩
      · rintro ⟨hmem, hbelow, -⟩
        have hnot : ¬ key first < key entry := by
          intro hlt
          rw [if_pos hlt] at hbelow
          omega
        exact hkey (le_antisymm (hfirst entry hmem) (not_lt.mp hnot))
    | succ place =>
      rw [List.getElem?_cons_succ, ih hsorted.2]
      constructor
      · rintro ⟨hmem, hbelow, habove⟩
        refine ⟨List.mem_cons_of_mem _ hmem, ?_, ?_⟩
        · split <;> omega
        · rw [if_pos (hsorted.1 entry hmem)]
          omega
      · rintro ⟨hmem, hbelow, habove⟩
        rw [if_pos (hfirst entry hmem)] at habove
        by_cases hlt : key first < key entry
        · rw [if_pos hlt] at hbelow
          have hne : entry ≠ first := fun heq ↦ lt_irrefl _ (heq ▸ hlt)
          exact ⟨(List.mem_cons.mp hmem).resolve_left hne, by omega, by omega⟩
        · -- the entry is the first one and comes again in the rest
          obtain rfl : first = entry := hkey (le_antisymm (hfirst entry hmem) (not_lt.mp hlt))
          have hpos : 0 < rest.countP fun other ↦ key other ≤ key first := by omega
          obtain ⟨other, hother, hle⟩ := List.countP_pos_iff.mp hpos
          have heq : other = first :=
            hkey (le_antisymm (of_decide_eq_true hle) (hsorted.1 other hother))
          refine ⟨heq ▸ hother, ?_, by omega⟩
          rw [countP_lt_eq_zero hsorted.1]
          exact Nat.zero_le _

/-- The entry at a place after sorting. -/
theorem getElem?_insertionSort_eq_some_iff (hkey : Function.Injective key) :
    (entries.insertionSort fun first second ↦ key first ≤ key second)[place]? = some entry ↔
      entry ∈ entries ∧ HasRank key entries place entry := by
  have htotal : IsTotal α fun first second ↦ key first ≤ key second :=
    ⟨fun first second ↦ le_total (key first) (key second)⟩
  have htrans : IsTrans α fun first second ↦ key first ≤ key second :=
    ⟨fun first second third ↦ le_trans⟩
  have hperm := List.perm_insertionSort (fun first second ↦ key first ≤ key second) entries
  rw [getElem?_eq_some_iff_hasRank hkey (List.pairwise_insertionSort _ entries), hperm.mem_iff,
    hasRank_of_perm hperm]

end Playground.Library
