import Mathlib.Data.List.Basic
import Mathlib.Data.List.Nodup

/-!
# Insertion-ordered maps

An `OrderedMap` is what a JavaScript object with string keys is: a finite map that remembers the
order in which its keys were added. Writing to a key that is there keeps its place, writing to a new
key adds it at the end, and a key that is erased and written again comes last. The entries carry the
proof that no key is listed twice. `lookup_set`, `lookup_erase` and the membership lemmas of the key
list say what the three operations do to every key.

Not formalized here: the keys that JavaScript moves to the front of an enumeration because they are
array indices.
-/

set_option autoImplicit false
set_option relaxedAutoImplicit false

namespace Playground.Library

/-- A finite map together with the order in which its keys were added. -/
structure OrderedMap (κ β : Type*) where
  entries : List (κ × β)
  nodup : (entries.map Prod.fst).Nodup

namespace OrderedMap

variable {κ β : Type*}

/-- The keys, in the order of an enumeration. -/
def keys (map : OrderedMap κ β) : List κ :=
  map.entries.map Prod.fst

/-- The map without entries. -/
def empty : OrderedMap κ β :=
  ⟨[], List.nodup_nil⟩

theorem nodup_keys (map : OrderedMap κ β) : map.keys.Nodup :=
  map.nodup

@[simp] theorem keys_empty : (empty : OrderedMap κ β).keys = [] :=
  rfl

variable [DecidableEq κ]

instance [DecidableEq β] : DecidableEq (OrderedMap κ β) := fun first second ↦
  decidable_of_iff (first.entries = second.entries) (by
    cases first
    cases second
    simp)

/-- The value of a key. -/
def lookup (map : OrderedMap κ β) (key : κ) : Option β :=
  map.entries.lookup key

theorem lookup_cons_eq_ite (entry : κ × β) (rest : List (κ × β)) (key : κ) :
    (entry :: rest).lookup key = if key = entry.1 then some entry.2 else rest.lookup key := by
  rw [List.lookup_cons]
  by_cases hkey : key = entry.1
  · simp [hkey]
  · simp [hkey, beq_false_of_ne hkey]

/-- The entries with the value of a key replaced, or with a new entry at the end. -/
def setEntries (entries : List (κ × β)) (key : κ) (value : β) : List (κ × β) :=
  match entries with
  | [] => [(key, value)]
  | entry :: rest =>
    if entry.1 = key then (key, value) :: rest else entry :: setEntries rest key value

theorem mem_map_fst_setEntries {entries : List (κ × β)} {key : κ} {value : β} {other : κ} :
    other ∈ (setEntries entries key value).map Prod.fst ↔
      other = key ∨ other ∈ entries.map Prod.fst := by
  induction entries with
  | nil => simp [setEntries]
  | cons entry rest ih =>
    by_cases hentry : entry.1 = key
    · simp [setEntries, hentry]
    · simp only [setEntries, hentry, if_false, List.map_cons, List.mem_cons, ih]
      tauto

theorem nodup_setEntries {entries : List (κ × β)} (hnodup : (entries.map Prod.fst).Nodup)
    (key : κ) (value : β) : ((setEntries entries key value).map Prod.fst).Nodup := by
  induction entries with
  | nil => simp [setEntries]
  | cons entry rest ih =>
    rw [List.map_cons, List.nodup_cons] at hnodup
    by_cases hentry : entry.1 = key
    · subst hentry
      simpa [setEntries] using hnodup
    · have hhead : entry.1 ∉ (setEntries rest key value).map Prod.fst := by
        rw [mem_map_fst_setEntries]
        exact not_or.mpr ⟨hentry, hnodup.1⟩
      simp only [setEntries, hentry, if_false, List.map_cons]
      exact List.nodup_cons.mpr ⟨hhead, ih hnodup.2⟩

/-- Write a value to a key. -/
def set (map : OrderedMap κ β) (key : κ) (value : β) : OrderedMap κ β :=
  ⟨setEntries map.entries key value, nodup_setEntries map.nodup key value⟩

/-- Remove a key. -/
def erase (map : OrderedMap κ β) (key : κ) : OrderedMap κ β :=
  ⟨map.entries.filter fun entry ↦ entry.1 ≠ key,
    map.nodup.sublist (List.Sublist.map Prod.fst List.filter_sublist)⟩

/-- Keep the entries that meet a condition. -/
def filter (map : OrderedMap κ β) (keep : κ → β → Bool) : OrderedMap κ β :=
  ⟨map.entries.filter fun entry ↦ keep entry.1 entry.2,
    map.nodup.sublist (List.Sublist.map Prod.fst List.filter_sublist)⟩

@[simp] theorem lookup_empty (key : κ) : (empty : OrderedMap κ β).lookup key = none :=
  rfl

/-- After a write the key has the new value and every other key the value it had. -/
theorem lookup_set (map : OrderedMap κ β) (key : κ) (value : β) (other : κ) :
    (map.set key value).lookup other = if other = key then some value else map.lookup other := by
  change (setEntries map.entries key value).lookup other = _
  rw [lookup]
  induction map.entries with
  | nil => rw [setEntries, lookup_cons_eq_ite]
  | cons entry rest ih =>
    by_cases hentry : entry.1 = key
    · subst hentry
      simp only [setEntries, if_true, lookup_cons_eq_ite]
      split <;> rfl
    · simp only [setEntries, hentry, if_false, lookup_cons_eq_ite, ih]
      by_cases hother : other = entry.1
      · simp [hother, hentry]
      · simp [hother]

@[simp] theorem lookup_set_self (map : OrderedMap κ β) (key : κ) (value : β) :
    (map.set key value).lookup key = some value := by
  rw [lookup_set, if_pos rfl]

theorem lookup_set_of_ne (map : OrderedMap κ β) {key other : κ} (value : β) (hother : other ≠ key) :
    (map.set key value).lookup other = map.lookup other := by
  rw [lookup_set, if_neg hother]

/-- An erased key has no value, and every other key the value it had. -/
theorem lookup_erase (map : OrderedMap κ β) (key other : κ) :
    (map.erase key).lookup other = if other = key then none else map.lookup other := by
  change (map.entries.filter fun entry ↦ entry.1 ≠ key).lookup other = _
  rw [lookup]
  induction map.entries with
  | nil => simp
  | cons entry rest ih =>
    by_cases hentry : entry.1 = key
    · rw [List.filter_cons_of_neg (by simpa using hentry), ih, lookup_cons_eq_ite, hentry]
      split <;> rfl
    · rw [List.filter_cons_of_pos (by simpa using hentry), lookup_cons_eq_ite, ih,
        lookup_cons_eq_ite]
      by_cases hother : other = entry.1
      · simp [hother, hentry]
      · simp [hother]

theorem lookup_filter_entries (keep : κ → β → Bool) (key : κ) {entries : List (κ × β)}
    (hnodup : (entries.map Prod.fst).Nodup) :
    (entries.filter fun entry ↦ keep entry.1 entry.2).lookup key =
      (entries.lookup key).filter (keep key) := by
  induction entries with
  | nil => rfl
  | cons entry rest ih =>
    rw [List.map_cons, List.nodup_cons] at hnodup
    have hrest := ih hnodup.2
    by_cases hkey : key = entry.1
    · subst hkey
      have hnone : rest.lookup entry.1 = none := by
        rw [List.lookup_eq_none_iff]
        intro other hother
        rw [bne_iff_ne]
        rintro heq
        exact hnodup.1 (heq ▸ List.mem_map_of_mem hother)
      by_cases hkeep : keep entry.1 entry.2 = true
      · rw [List.filter_cons_of_pos (by simpa using hkeep), lookup_cons_eq_ite,
          lookup_cons_eq_ite]
        simp [hkeep, Option.filter]
      · rw [List.filter_cons_of_neg (by simpa using hkeep), hrest, lookup_cons_eq_ite, hnone]
        simp [hkeep, Option.filter]
    · rw [List.filter_cons, lookup_cons_eq_ite, if_neg hkey, ← hrest]
      split
      · rw [lookup_cons_eq_ite, if_neg hkey]
      · rfl

/-- A key of a filtered map has the value it had if that meets the condition, and none otherwise. -/
theorem lookup_filter (map : OrderedMap κ β) (keep : κ → β → Bool) (key : κ) :
    (map.filter keep).lookup key = (map.lookup key).filter (keep key) :=
  lookup_filter_entries keep key map.nodup

/-- A key is listed exactly if it has a value. -/
theorem mem_keys_iff {map : OrderedMap κ β} {key : κ} :
    key ∈ map.keys ↔ ∃ value, map.lookup key = some value := by
  change key ∈ map.entries.map Prod.fst ↔ ∃ value, map.entries.lookup key = some value
  induction map.entries with
  | nil => simp
  | cons entry rest ih =>
    by_cases hkey : key = entry.1
    · simp [hkey, lookup_cons_eq_ite]
    · simp [lookup_cons_eq_ite, hkey, ← ih]

/-- A key has the value with which it is listed. -/
theorem lookup_eq_some_iff {map : OrderedMap κ β} {key : κ} {value : β} :
    map.lookup key = some value ↔ (key, value) ∈ map.entries := by
  have hlookup : ∀ entries : List (κ × β), (entries.map Prod.fst).Nodup →
      (entries.lookup key = some value ↔ (key, value) ∈ entries) := by
    intro entries
    induction entries with
    | nil => simp
    | cons entry rest ih =>
      intro hnodup
      rw [List.map_cons, List.nodup_cons] at hnodup
      rw [lookup_cons_eq_ite, List.mem_cons]
      by_cases hkey : key = entry.1
      · have hrest : (key, value) ∉ rest := fun hmem ↦ hnodup.1 (hkey ▸ List.mem_map_of_mem hmem)
        rw [if_pos hkey, or_iff_left hrest, Option.some.injEq, Prod.ext_iff]
        exact ⟨fun heq ↦ ⟨hkey, heq.symm⟩, fun heq ↦ heq.2.symm⟩
      · rw [if_neg hkey, ih hnodup.2, or_iff_right fun heq ↦ hkey (congrArg Prod.fst heq)]
  exact hlookup map.entries map.nodup

theorem mem_keys_of_lookup {map : OrderedMap κ β} {key : κ} {value : β}
    (hlookup : map.lookup key = some value) : key ∈ map.keys :=
  mem_keys_iff.mpr ⟨value, hlookup⟩

theorem lookup_eq_none_iff {map : OrderedMap κ β} {key : κ} :
    map.lookup key = none ↔ key ∉ map.keys := by
  rw [mem_keys_iff, Option.eq_none_iff_forall_ne_some, not_exists]

@[simp] theorem mem_keys_set {map : OrderedMap κ β} {key other : κ} {value : β} :
    other ∈ (map.set key value).keys ↔ other = key ∨ other ∈ map.keys :=
  mem_map_fst_setEntries

@[simp] theorem mem_keys_erase {map : OrderedMap κ β} {key other : κ} :
    other ∈ (map.erase key).keys ↔ other ≠ key ∧ other ∈ map.keys := by
  rw [mem_keys_iff, lookup_erase, mem_keys_iff]
  by_cases hother : other = key <;> simp [hother]

/-- Erasing the first key leaves the other entries. -/
theorem entries_erase_of_cons {map : OrderedMap κ β} {key : κ} {value : β} {rest : List (κ × β)}
    (hentries : map.entries = (key, value) :: rest) :
    (map.erase key).entries = rest := by
  have hnodup := map.nodup
  rw [hentries, List.map_cons, List.nodup_cons] at hnodup
  rw [erase]
  simp only [hentries]
  rw [List.filter_cons_of_neg (by simp), List.filter_eq_self]
  intro entry hentry
  have hmem : entry.1 ∈ rest.map Prod.fst := List.mem_map_of_mem hentry
  have hne : entry.1 ≠ key := fun heq ↦ hnodup.1 (heq ▸ hmem)
  simpa using hne

/-- A new key is added at the end. -/
theorem entries_set_of_notMem {map : OrderedMap κ β} {key : κ} {value : β} (hkey : key ∉ map.keys) :
    (map.set key value).entries = map.entries ++ [(key, value)] := by
  have hset : ∀ entries : List (κ × β), key ∉ entries.map Prod.fst →
      setEntries entries key value = entries ++ [(key, value)] := by
    intro entries
    induction entries with
    | nil => exact fun _ ↦ rfl
    | cons entry rest ih =>
      intro hnot
      rw [List.map_cons, List.mem_cons, not_or] at hnot
      rw [setEntries, if_neg (Ne.symm hnot.1), ih hnot.2, List.cons_append]
  exact hset map.entries hkey

/-- A key that is there keeps its place. -/
theorem entries_set_of_mem {map : OrderedMap κ β} {key : κ} {value : β} (hkey : key ∈ map.keys) :
    (map.set key value).entries =
      map.entries.map fun entry ↦ if entry.1 = key then (key, value) else entry := by
  have hset : ∀ entries : List (κ × β), (entries.map Prod.fst).Nodup → key ∈ entries.map Prod.fst →
      setEntries entries key value = entries.map fun entry ↦ if entry.1 = key then (key, value) else entry := by
    intro entries
    induction entries with
    | nil => exact fun _ hmem ↦ absurd hmem List.not_mem_nil
    | cons entry rest ih =>
      intro hnodup hmem
      rw [List.map_cons, List.nodup_cons] at hnodup
      rw [setEntries, List.map_cons]
      by_cases hentry : entry.1 = key
      · have hrest : (rest.map fun other ↦ if other.1 = key then (key, value) else other) = rest := by
          refine (List.map_congr_left fun other hother ↦ if_neg ?_).trans (List.map_id rest)
          exact fun heq ↦ hnodup.1 (hentry.trans heq.symm ▸ List.mem_map_of_mem hother)
        rw [if_pos hentry, if_pos hentry, hrest]
      · rw [if_neg hentry, if_neg hentry,
          ih hnodup.2 ((List.mem_cons.mp hmem).resolve_left fun heq ↦ hentry heq.symm)]
  exact hset map.entries map.nodup hkey

/-- The map that entries are written to one after the other. -/
def ofEntries (entries : List (κ × β)) : OrderedMap κ β :=
  entries.foldl (fun map entry ↦ map.set entry.1 entry.2) empty

/-- The entries of a map give it back. -/
theorem ofEntries_entries (map : OrderedMap κ β) : ofEntries map.entries = map := by
  have hfold : ∀ (entries : List (κ × β)) (front : OrderedMap κ β),
      ((front.entries ++ entries).map Prod.fst).Nodup →
        (entries.foldl (fun map entry ↦ map.set entry.1 entry.2) front).entries =
          front.entries ++ entries := by
    intro entries
    induction entries with
    | nil => exact fun front _ ↦ (List.append_nil _).symm
    | cons entry rest ih =>
      intro front hnodup
      have hkey : entry.1 ∉ front.keys := by
        rw [List.map_append, List.nodup_append] at hnodup
        exact fun hmem ↦ hnodup.2.2 _ hmem _ (List.mem_map_of_mem List.mem_cons_self) rfl
      have hset : (front.set entry.1 entry.2).entries = front.entries ++ [entry] :=
        entries_set_of_notMem hkey
      rw [List.foldl_cons, ih _ (by rwa [hset, List.append_assoc]), hset, List.append_assoc]
      rfl
  have hentries := hfold map.entries empty map.nodup
  rcases map with ⟨entries, hnodup⟩
  rcases hmap : ofEntries entries with ⟨others, hnodupOthers⟩
  have hothers : others = entries := (congrArg OrderedMap.entries hmap).symm.trans hentries
  subst hothers
  rfl

end OrderedMap

end Playground.Library
