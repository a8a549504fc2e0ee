import Mathlib.Algebra.GroupWithZero.Nat
import Mathlib.Data.Finmap
import Mathlib.Algebra.BigOperators.Group.List.Basic
import Mathlib.Algebra.BigOperators.Group.Multiset.Basic

/-!
# Totals over lists and finite maps, and bulk writes

A measure on values has a total over a list and over a finite map. Replacing one value changes the
total by the difference of the two measures; stated without subtraction, so that it holds in `ℕ`, the
new total and the old measure add up to the old total and the new measure (`sum_map_set`,
`total_insert`).

`writeAll` writes a list of bindings to a finite map one after the other, the last binding of a key
winning. When the keys are distinct, the bookkeeping of the single write carries over to the list
(`total_writeAll`). When they are not, a binding whose key comes again is counted in the list and
lost in the map: what the map then gains or loses against the list is the difference that the
`shadowed` bindings would have made (`total_writeAll_eq_iff`).
-/

set_option autoImplicit false
set_option relaxedAutoImplicit false

namespace Playground.Library

/-! ### Lists -/

section List

variable {α : Type*}

/-- A member of a list has a last index. -/
theorem exists_last_index {entries : List α} {entry : α} (hmem : entry ∈ entries) :
    ∃ index, entries[index]? = some entry ∧ entry ∉ entries.drop (index + 1) := by
  obtain ⟨after, before, hsplit, hnot⟩ := List.eq_append_cons_of_mem (List.mem_reverse.mpr hmem)
  have hentries : entries = before.reverse ++ entry :: after.reverse := by
    rw [← List.reverse_reverse entries, hsplit]
    simp
  refine ⟨before.length, ?_, ?_⟩
  · simp [hentries]
  · have hnone : before.reverse.drop (before.length + 1) = [] := List.drop_eq_nil_of_le (by simp)
    simpa [hentries, List.drop_append, hnone] using hnot

/-- Replacing an entry of a list trades its measure for that of the new entry. -/
theorem sum_map_set (measure : α → ℕ) {entries : List α} (new : α) :
    ∀ {index : ℕ} {old : α}, entries[index]? = some old →
      ((entries.set index new).map measure).sum + measure old =
        (entries.map measure).sum + measure new := by
  induction entries with
  | nil =>
    intro index old hold
    simp at hold
  | cons first rest ih =>
    intro index old hold
    cases index with
    | zero =>
      obtain rfl : first = old := by simpa using hold
      simp only [List.set_cons_zero, List.map_cons, List.sum_cons]
      omega
    | succ index =>
      have hrest := ih (show rest[index]? = some old by simpa using hold)
      simp only [List.set_cons_succ, List.map_cons, List.sum_cons]
      omega

end List

/-! ### Finite maps -/

section Finmap

variable {κ β : Type*}

/-- A finite map from keys to values of one type. -/
abbrev Store (κ β : Type*) := Finmap fun _ : κ ↦ β

/-- The total of a measure over the values of a finite map. -/
def total (measure : β → ℕ) (store : Store κ β) : ℕ :=
  (store.entries.map fun entry ↦ measure entry.2).sum

variable [DecidableEq κ]

/-- Write a list of bindings to a finite map, one after the other. -/
def writeAll (store : Store κ β) (bindings : List (κ × β)) : Store κ β :=
  bindings.foldl (fun written binding ↦ written.insert binding.1 binding.2) store

@[simp] theorem writeAll_nil (store : Store κ β) : writeAll store [] = store :=
  rfl

@[simp] theorem writeAll_cons (store : Store κ β) (binding : κ × β) (rest : List (κ × β)) :
    writeAll store (binding :: rest) = writeAll (store.insert binding.1 binding.2) rest :=
  rfl

/-- A key that no binding names keeps its value. -/
theorem lookup_writeAll_of_notMem {bindings : List (κ × β)} {key : κ} :
    ∀ {store : Store κ β}, key ∉ bindings.map Prod.fst →
      (writeAll store bindings).lookup key = store.lookup key := by
  induction bindings with
  | nil => exact fun _ ↦ rfl
  | cons binding rest ih =>
    intro store hkey
    simp only [List.map_cons, List.mem_cons, not_or] at hkey
    rw [writeAll_cons, ih hkey.2, Finmap.lookup_insert_of_ne _ hkey.1]

/-- A key ends up with the value of its last binding. -/
theorem lookup_writeAll_of_getElem? (store : Store κ β) {bindings : List (κ × β)} {index : ℕ}
    {key : κ} {value : β} (hget : bindings[index]? = some (key, value))
    (hlast : key ∉ (bindings.map Prod.fst).drop (index + 1)) :
    (writeAll store bindings).lookup key = some value := by
  obtain ⟨hlt, hbinding⟩ := List.getElem?_eq_some_iff.mp hget
  have hsplit : bindings.take index ++ (key, value) :: bindings.drop (index + 1) = bindings := by
    rw [← hbinding, ← List.drop_eq_getElem_cons hlt, List.take_append_drop]
  rw [← List.map_drop] at hlast
  rw [← hsplit, writeAll, List.foldl_append]
  exact (lookup_writeAll_of_notMem hlast).trans (Finmap.lookup_insert _)

/-- Where the keys are distinct, each key ends up with its own binding. -/
theorem lookup_writeAll_of_mem {bindings : List (κ × β)} {key : κ} {value : β} :
    ∀ {store : Store κ β}, (bindings.map Prod.fst).Nodup → (key, value) ∈ bindings →
      (writeAll store bindings).lookup key = some value := by
  induction bindings with
  | nil => exact fun _ hmem ↦ absurd hmem List.not_mem_nil
  | cons binding rest ih =>
    intro store hnodup hmem
    obtain ⟨hfirst, hrest⟩ := List.nodup_cons.mp hnodup
    rw [writeAll_cons]
    rcases List.mem_cons.mp hmem with rfl | hmem
    · rw [lookup_writeAll_of_notMem hfirst, Finmap.lookup_insert]
    · exact ih hrest hmem

/-- Writing a key trades the measure of its old value for that of the new one. -/
theorem total_insert (measure : β → ℕ) (store : Store κ β) (key : κ) (value : β) :
    total measure (store.insert key value) + (store.lookup key).elim 0 measure =
      total measure store + measure value := by
  induction store using Finmap.induction_on with
  | _ bindings =>
    rw [Finmap.insert_toFinmap, Finmap.lookup_toFinmap]
    simp only [total, AList.toFinmap_entries, AList.entries_insert, Multiset.map_coe,
      Multiset.sum_coe, List.map_cons, List.sum_cons]
    cases hlookup : bindings.lookup key with
    | none =>
      have hkey : key ∉ bindings.entries.keys := AList.lookup_eq_none.mp hlookup
      simp only [List.kerase_of_notMem_keys hkey, Option.elim_none]
      omega
    | some old =>
      have hmem : ⟨key, old⟩ ∈ bindings.entries := AList.mem_lookup_iff.mp hlookup
      obtain ⟨found, before, after, -, hentries, hkerase⟩ :=
        List.exists_of_kerase (List.mem_keys_of_mem hmem)
      have hfound : ⟨key, found⟩ ∈ bindings.entries := hentries ▸ List.mem_append_right _
        List.mem_cons_self
      obtain rfl : found = old := bindings.nodupKeys.eq_of_mk_mem hfound hmem
      rw [hkerase, hentries]
      simp only [List.map_append, List.map_cons, List.sum_append, List.sum_cons,
        Option.elim_some]
      omega

/-- Writing bindings of distinct keys trades the measures of the old values of those keys for those
of the new ones. -/
theorem total_writeAll (measure : β → ℕ) {bindings : List (κ × β)} :
    ∀ {store : Store κ β}, (bindings.map Prod.fst).Nodup →
      total measure (writeAll store bindings) +
          (bindings.map fun binding ↦ (store.lookup binding.1).elim 0 measure).sum =
        total measure store + (bindings.map fun binding ↦ measure binding.2).sum := by
  induction bindings with
  | nil => simp
  | cons binding rest ih =>
    intro store hnodup
    obtain ⟨hfirst, hrest⟩ := List.nodup_cons.mp hnodup
    have hone := total_insert measure store binding.1 binding.2
    have hall := @ih (store.insert binding.1 binding.2) hrest
    have hold : (rest.map fun other ↦
          ((store.insert binding.1 binding.2).lookup other.1).elim 0 measure) =
        rest.map fun other ↦ (store.lookup other.1).elim 0 measure := by
      refine List.map_congr_left fun other hother ↦ ?_
      have hne : other.1 ≠ binding.1 := by
        rintro heq
        exact hfirst (heq ▸ List.mem_map_of_mem hother)
      rw [Finmap.lookup_insert_of_ne _ hne]
    rw [hold] at hall
    simp only [writeAll_cons, List.map_cons, List.sum_cons]
    omega

/-- The bindings of a list whose key comes again. -/
def shadowed : List (κ × β) → List (κ × β)
  | [] => []
  | binding :: rest =>
    if binding.1 ∈ rest.map Prod.fst then binding :: shadowed rest else shadowed rest

/-- The last binding of every key of a list. -/
def latest : List (κ × β) → List (κ × β)
  | [] => []
  | binding :: rest =>
    if binding.1 ∈ rest.map Prod.fst then latest rest else binding :: latest rest

/-- The last bindings have the keys of the list. -/
theorem mem_keys_latest {bindings : List (κ × β)} {key : κ} :
    key ∈ (latest bindings).map Prod.fst ↔ key ∈ bindings.map Prod.fst := by
  induction bindings with
  | nil => rfl
  | cons binding rest ih =>
    unfold latest
    split
    next hagain =>
      rw [ih, List.map_cons, List.mem_cons]
      exact ⟨.inr, fun hkey ↦ hkey.elim (fun heq ↦ heq ▸ hagain) id⟩
    next => rw [List.map_cons, List.mem_cons, ih, List.map_cons, List.mem_cons]

/-- The last bindings have distinct keys. -/
theorem nodup_keys_latest (bindings : List (κ × β)) : ((latest bindings).map Prod.fst).Nodup := by
  induction bindings with
  | nil => exact List.nodup_nil
  | cons binding rest ih =>
    unfold latest
    split
    next => exact ih
    next hlast => exact List.nodup_cons.mpr ⟨fun hkey ↦ hlast (mem_keys_latest.mp hkey), ih⟩

/-- A list of distinct keys shadows nothing. -/
theorem shadowed_eq_nil {bindings : List (κ × β)} (hnodup : (bindings.map Prod.fst).Nodup) :
    shadowed bindings = [] := by
  induction bindings with
  | nil => rfl
  | cons binding rest ih =>
    obtain ⟨hfirst, hrest⟩ := List.nodup_cons.mp hnodup
    rw [shadowed, if_neg hfirst, ih hrest]

/-- Every binding is shadowed or the last one of its key. -/
theorem sum_shadowed_add_sum_latest (measure : κ × β → ℕ) (bindings : List (κ × β)) :
    ((shadowed bindings).map measure).sum + ((latest bindings).map measure).sum =
      (bindings.map measure).sum := by
  induction bindings with
  | nil => rfl
  | cons binding rest ih =>
    unfold shadowed latest
    split
    all_goals
      simp only [List.map_cons, List.sum_cons]
      omega

/-- Writing a key that is written again changes nothing. -/
theorem writeAll_insert_of_mem {bindings : List (κ × β)} {key : κ} (value : β) :
    ∀ {store : Store κ β}, key ∈ bindings.map Prod.fst →
      writeAll (store.insert key value) bindings = writeAll store bindings := by
  induction bindings with
  | nil => exact fun hkey ↦ absurd hkey List.not_mem_nil
  | cons binding rest ih =>
    intro store hkey
    rw [writeAll_cons, writeAll_cons]
    by_cases heq : key = binding.1
    · subst heq
      rw [Finmap.insert_insert]
    · rw [Finmap.insert_insert_of_ne _ heq]
      exact ih ((List.mem_cons.mp hkey).resolve_left heq)

/-- Only the last binding of every key is left in the map. -/
theorem writeAll_latest (bindings : List (κ × β)) :
    ∀ store : Store κ β, writeAll store (latest bindings) = writeAll store bindings := by
  induction bindings with
  | nil => exact fun _ ↦ rfl
  | cons binding rest ih =>
    intro store
    unfold latest
    split
    next hagain => rw [ih, writeAll_cons, writeAll_insert_of_mem _ hagain]
    next => rw [writeAll_cons, writeAll_cons, ih]

/-- A value after a bulk write is one that was written, or the old one. -/
theorem mem_of_lookup_writeAll {bindings : List (κ × β)} {key : κ} {value : β} :
    ∀ {store : Store κ β}, (writeAll store bindings).lookup key = some value →
      (key, value) ∈ bindings ∨ store.lookup key = some value := by
  induction bindings with
  | nil => exact fun hlookup ↦ .inr hlookup
  | cons binding rest ih =>
    intro store hlookup
    rcases ih hlookup with hmem | hlookup
    · exact .inl (List.mem_cons_of_mem _ hmem)
    · by_cases heq : key = binding.1
      · subst heq
        rw [Finmap.lookup_insert] at hlookup
        obtain rfl := Option.some.inj hlookup
        exact .inl List.mem_cons_self
      · exact .inr (by rwa [Finmap.lookup_insert_of_ne _ heq] at hlookup)

/-- A map is made again of its entries. -/
theorem writeAll_empty_eq {store : Store κ β}
    {bindings : List (κ × β)} (hnodup : (bindings.map Prod.fst).Nodup)
    (hentries : ∀ key value, (key, value) ∈ bindings ↔ store.lookup key = some value) :
    writeAll ∅ bindings = store := by
  apply Finmap.ext_lookup
  intro key
  cases hlookup : store.lookup key with
  | some value => exact lookup_writeAll_of_mem hnodup ((hentries key value).mpr hlookup)
  | none =>
    have hnotMem : key ∉ bindings.map Prod.fst := by
      intro hmem
      obtain ⟨⟨_, value⟩, hentry, rfl⟩ := List.mem_map.mp hmem
      rw [(hentries _ _).mp hentry] at hlookup
      cases hlookup
    rw [lookup_writeAll_of_notMem hnotMem, Finmap.lookup_empty]

/-- The bindings of an empty map to which distinct keys have been written. -/
theorem lookup_writeAll_empty {bindings : List (κ × β)}
    (hnodup : (bindings.map Prod.fst).Nodup) (key : κ) (value : β) :
    (writeAll (∅ : Store κ β) bindings).lookup key = some value ↔ (key, value) ∈ bindings := by
  constructor
  · intro hlookup
    rcases mem_of_lookup_writeAll hlookup with hmem | hempty
    · exact hmem
    · cases hempty
  · exact lookup_writeAll_of_mem hnodup

/-- Writing the same bindings a second time changes nothing. -/
theorem writeAll_writeAll (store : Store κ β) (bindings : List (κ × β)) :
    writeAll (writeAll store bindings) bindings = writeAll store bindings := by
  apply Finmap.ext_lookup
  intro key
  by_cases hmem : key ∈ bindings.map Prod.fst
  · obtain ⟨index, hkey, hlast⟩ := exists_last_index hmem
    rw [List.getElem?_map, Option.map_eq_some_iff] at hkey
    obtain ⟨⟨_, value⟩, hbinding, rfl⟩ := hkey
    rw [lookup_writeAll_of_getElem? _ hbinding hlast, lookup_writeAll_of_getElem? _ hbinding hlast]
  · exact lookup_writeAll_of_notMem hmem

/-- After a bulk write a key has its last binding, or the old value where none names it. -/
theorem lookup_writeAll_eq_some {store : Store κ β} {bindings : List (κ × β)} {key : κ}
    {value : β} :
    (writeAll store bindings).lookup key = some value ↔
      (key, value) ∈ latest bindings ∨
        key ∉ bindings.map Prod.fst ∧ store.lookup key = some value := by
  rw [← writeAll_latest]
  by_cases hkey : key ∈ bindings.map Prod.fst
  · obtain ⟨⟨_, last⟩, hlast, rfl⟩ := List.mem_map.mp (mem_keys_latest.mpr hkey)
    rw [lookup_writeAll_of_mem (nodup_keys_latest bindings) hlast]
    constructor
    · rintro hvalue
      exact Or.inl (Option.some.inj hvalue ▸ hlast)
    · rintro (hmem | ⟨hnotMem, -⟩)
      · have hboth := @lookup_writeAll_of_mem _ _ _ _ _ _ store (nodup_keys_latest bindings) hmem
        rwa [lookup_writeAll_of_mem (nodup_keys_latest bindings) hlast] at hboth
      · exact absurd hkey hnotMem
  · have hlatest : key ∉ (latest bindings).map Prod.fst := fun hmem ↦
      hkey (mem_keys_latest.mp hmem)
    rw [lookup_writeAll_of_notMem hlatest]
    constructor
    · exact fun hvalue ↦ Or.inr ⟨hkey, hvalue⟩
    · rintro (hmem | ⟨-, hvalue⟩)
      · exact absurd (List.mem_map_of_mem hmem) hlatest
      · exact hvalue

/-- A bulk write whose bindings have on the whole the measure of the values they replace keeps the
total of the map exactly if the shadowed bindings have. -/
theorem total_writeAll_eq_iff (measure : β → ℕ) {store : Store κ β} {bindings : List (κ × β)}
    (hbalanced : (bindings.map fun binding ↦ measure binding.2).sum =
      (bindings.map fun binding ↦ (store.lookup binding.1).elim 0 measure).sum) :
    total measure (writeAll store bindings) = total measure store ↔
      ((shadowed bindings).map fun binding ↦ measure binding.2).sum =
        ((shadowed bindings).map fun binding ↦ (store.lookup binding.1).elim 0 measure).sum := by
  have htotal := @total_writeAll _ _ _ measure _ store (nodup_keys_latest bindings)
  rw [writeAll_latest] at htotal
  have hnew := sum_shadowed_add_sum_latest (fun binding ↦ measure binding.2) bindings
  have hold := sum_shadowed_add_sum_latest
    (fun binding ↦ (store.lookup binding.1).elim 0 measure) bindings
  omega

end Finmap

end Playground.Library
