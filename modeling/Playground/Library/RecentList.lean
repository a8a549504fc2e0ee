import Mathlib.Data.List.Dedup
import Mathlib.Data.List.DropRight

/-!
# What has been used last

`recent size uses` are the last `size` distinct ones of what has been used, in the order of their last
use. One more use takes an entry out of them, puts it at their end and leaves out the oldest one if there
are too many (`recent_concat`).

A `Navigator` goes back and forth in a list from its end: so many steps back is the entry that is so far
from the end, and no step back is none. It does not go back beyond the oldest entry.
-/

set_option autoImplicit false
set_option relaxedAutoImplicit false

namespace Playground.Library

variable {α : Type*}

/-! ### The last uses -/

section Recent

variable [DecidableEq α]

/-- The last distinct ones, in the order of their last use. -/
def recent (size : ℕ) (uses : List α) : List α :=
  uses.dedup.rtake size

theorem nodup_recent (size : ℕ) (uses : List α) : (recent size uses).Nodup :=
  (List.nodup_dedup uses).sublist (List.drop_sublist _ _)

/-- What is used again moves to the end. -/
theorem dedup_concat (uses : List α) (entry : α) :
    (uses ++ [entry]).dedup = uses.dedup.erase entry ++ [entry] := by
  induction uses with
  | nil => rfl
  | cons first rest ih =>
    rw [List.cons_append]
    by_cases hrest : first ∈ rest
    · rw [List.dedup_cons_of_mem (List.mem_append_left _ hrest), List.dedup_cons_of_mem hrest, ih]
    · rw [List.dedup_cons_of_notMem hrest]
      by_cases hentry : first = entry
      · have hmem : first ∈ rest ++ [entry] := by rw [hentry]; simp
        have hnot : entry ∉ rest.dedup := by rwa [List.mem_dedup, ← hentry]
        rw [List.dedup_cons_of_mem hmem, ih, List.erase_of_not_mem hnot, hentry,
          List.erase_cons_head]
      · have hnot : first ∉ rest ++ [entry] := by simp [hrest, hentry]
        rw [List.dedup_cons_of_notMem hnot, ih, List.erase_cons_tail (by simpa using hentry),
          List.cons_append]

omit [DecidableEq α] in
/-- What is long enough hides what is before it. -/
theorem rtake_append_of_le {size : ℕ} (before : List α) {entries : List α}
    (hsize : size ≤ entries.length) : (before ++ entries).rtake size = entries.rtake size := by
  have hdrop : (before ++ entries).length - size = before.length + (entries.length - size) := by
    rw [List.length_append]
    omega
  rw [List.rtake, hdrop, List.drop_append, List.rtake]
  simp

omit [DecidableEq α] in
theorem length_rtake (size : ℕ) (entries : List α) :
    (entries.rtake size).length = min size entries.length := by
  rw [List.rtake, List.length_drop]
  omega

/-- The last ones of distinct ones, after one of them has moved to the end. -/
theorem rtake_erase_concat {entries : List α} (hnodup : entries.Nodup) (size : ℕ) (entry : α) :
    (entries.erase entry ++ [entry]).rtake size =
      ((entries.rtake size).erase entry ++ [entry]).rtake size := by
  obtain ⟨before, hsplit⟩ : ∃ before, before ++ entries.rtake size = entries :=
    ⟨_, List.take_append_drop _ _⟩
  by_cases hbefore : before = []
  · rw [hbefore, List.nil_append] at hsplit
    rw [hsplit]
  have hlength : (entries.rtake size).length = size := by
    have htotal := congrArg List.length hsplit
    have hpositive := List.length_pos_iff.mpr hbefore
    rw [List.length_append] at htotal
    have hmin := length_rtake size entries
    omega
  by_cases hentry : entry ∈ entries.rtake size
  · have hnot : entry ∉ before := by
      rw [← hsplit] at hnodup
      exact fun hmem ↦ (List.nodup_append.mp hnodup).2.2 entry hmem entry hentry rfl
    have hmoved : ((entries.rtake size).erase entry ++ [entry]).length = size := by
      rw [List.length_append, List.length_erase_of_mem hentry, List.length_singleton]
      have := List.length_pos_of_mem hentry
      omega
    nth_rewrite 1 [← hsplit]
    rw [List.erase_append_right _ hnot, List.append_assoc, rtake_append_of_le before hmoved.ge]
  · have herase : entries.erase entry = before.erase entry ++ entries.rtake size := by
      nth_rewrite 1 [← hsplit]
      by_cases hmem : entry ∈ before
      · exact List.erase_append_left _ hmem
      · rw [List.erase_append_right _ hmem, List.erase_of_not_mem hentry,
          List.erase_of_not_mem hmem]
    have hlong : size ≤ (entries.rtake size ++ [entry]).length := by
      rw [List.length_append]
      omega
    rw [herase, List.append_assoc, List.erase_of_not_mem hentry, rtake_append_of_le _ hlong]

omit [DecidableEq α] in
/-- The last ones of at most one too many. -/
theorem rtake_of_length_le_succ {size : ℕ} {entries : List α} (hlength : entries.length ≤ size + 1) :
    entries.rtake size = if size < entries.length then entries.drop 1 else entries := by
  by_cases hlong : size < entries.length
  · have hone : entries.length - size = 1 := by omega
    rw [if_pos hlong, List.rtake, hone]
  · have hzero : entries.length - size = 0 := by omega
    rw [if_neg hlong, List.rtake, hzero, List.drop_zero]

/-- The others of distinct ones. -/
theorem erase_eq_filter_ne {entries : List α} (hnodup : entries.Nodup) (entry : α) :
    entries.erase entry = entries.filter fun other ↦ other ≠ entry := by
  rw [hnodup.erase_eq_filter]
  exact List.filter_congr fun other _ ↦ by by_cases heq : other = entry <;> simp [heq]

/-- One more use: the entry goes to the end, and the oldest one goes if there are too many. -/
theorem recent_concat (size : ℕ) (uses : List α) (entry : α) :
    recent size (uses ++ [entry]) =
      let moved := ((recent size uses).filter fun other ↦ other ≠ entry) ++ [entry]
      if size < moved.length then moved.drop 1 else moved := by
  have hlength : ((recent size uses).erase entry ++ [entry]).length ≤ size + 1 := by
    have herase := (List.erase_sublist (a := entry) (l := recent size uses)).length_le
    have hrecent := length_rtake size uses.dedup
    rw [List.length_append, List.length_singleton]
    unfold recent at herase ⊢
    omega
  rw [← erase_eq_filter_ne (nodup_recent size uses), recent, dedup_concat,
    rtake_erase_concat (List.nodup_dedup uses)]
  exact rtake_of_length_le_succ hlength

end Recent

/-! ### Going back and forth -/

/-- So many steps back from the end of a list. -/
structure Navigator (α : Type*) where
  entries : List α
  back : ℕ
  inside : back ≤ entries.length

namespace Navigator

/-- At the end of a list. -/
def atEnd (entries : List α) : Navigator α :=
  ⟨entries, 0, Nat.zero_le _⟩

/-- The entry that is so many steps back, the newest one being one step back. -/
def shown (navigator : Navigator α) : Option α :=
  if navigator.back = 0 then none else navigator.entries.reverse[navigator.back - 1]?

/-- One step back, but not beyond the oldest entry. -/
def previous (navigator : Navigator α) : Navigator α :=
  ⟨navigator.entries, min navigator.entries.length (navigator.back + 1), Nat.min_le_left _ _⟩

/-- One step forth, but not beyond the end. -/
def next (navigator : Navigator α) : Navigator α :=
  ⟨navigator.entries, navigator.back - 1, (Nat.sub_le _ _).trans navigator.inside⟩

/-- What is shown, counted from the front. -/
theorem shown_eq_getElem? (navigator : Navigator α) :
    navigator.shown = navigator.entries[navigator.entries.length - navigator.back]? := by
  have hinside := navigator.inside
  unfold shown
  by_cases hback : navigator.back = 0
  · rw [if_pos hback, hback, Nat.sub_zero, List.getElem?_eq_none le_rfl]
  · have hindex : navigator.entries.length - 1 - (navigator.back - 1) =
        navigator.entries.length - navigator.back := by omega
    rw [if_neg hback, List.getElem?_reverse (by omega), hindex]

end Navigator

end Playground.Library
