import Playground.Library.OrderedMap

/-!
# Lists of entries

The entries of an object in the order in which they are enumerated, with distinct keys: the value of a
key, the keys, and what setting the value of a key makes of them.
-/

set_option autoImplicit false
set_option relaxedAutoImplicit false

namespace Playground.Library.Entries

variable {κ β : Type} [DecidableEq κ] {entries : List (κ × β)} {key other : κ} {value : β}

/-- The value of the first entry with a key. -/
def find (entries : List (κ × β)) (key : κ) : Option β :=
  entries.lookup key

@[simp] theorem find_nil : find ([] : List (κ × β)) key = none :=
  rfl

theorem find_cons (entry : κ × β) (rest : List (κ × β)) (key : κ) :
    find (entry :: rest) key = if key = entry.1 then some entry.2 else find rest key :=
  OrderedMap.lookup_cons_eq_ite entry rest key

/-- What is found is listed. -/
theorem mem_of_find (hfind : find entries key = some value) : (key, value) ∈ entries := by
  induction entries with
  | nil => cases hfind
  | cons entry rest ih =>
    rw [find_cons] at hfind
    split at hfind
    · next hkey =>
      obtain rfl := Option.some.inj hfind
      exact hkey ▸ List.mem_cons_self
    · exact List.mem_cons_of_mem _ (ih hfind)

/-- Among distinct keys a key has the value that is listed with it. -/
theorem find_eq_some_iff (hnodup : (entries.map Prod.fst).Nodup) :
    find entries key = some value ↔ (key, value) ∈ entries := by
  refine ⟨mem_of_find, fun hmem ↦ ?_⟩
  induction entries with
  | nil => exact absurd hmem List.not_mem_nil
  | cons entry rest ih =>
    rw [List.map_cons, List.nodup_cons] at hnodup
    rw [find_cons]
    rcases List.mem_cons.mp hmem with rfl | hrest
    · exact if_pos rfl
    · have hne : key ≠ entry.1 :=
        fun heq ↦ hnodup.1 (heq ▸ List.mem_map_of_mem (f := Prod.fst) hrest)
      rw [if_neg hne, ih hnodup.2 hrest]

/-- A key is found exactly if it is listed. -/
theorem find_eq_none_iff : find entries key = none ↔ key ∉ entries.map Prod.fst := by
  induction entries with
  | nil => simp
  | cons entry rest ih =>
    rw [find_cons, List.map_cons, List.mem_cons, not_or, ← ih]
    by_cases hkey : key = entry.1
    · simp [hkey]
    · simp [hkey]

theorem find_isSome_iff : (∃ value, find entries key = some value) ↔ key ∈ entries.map Prod.fst := by
  rw [← not_iff_not, ← find_eq_none_iff, Option.eq_none_iff_forall_ne_some, not_exists]

end Playground.Library.Entries
