import Mathlib.Data.List.Pairwise
import Mathlib.Order.Lattice

/-!
# Sorted maps

A `SortedMap` is a finite map whose entries are kept in the order of their keys, each key once. `get` is the value of
a key, `before` the last entry whose key is less than a given one, `last` the last entry of all.

`latest` is the value of the greatest key that does not exceed a given one, which is what looking a key up and then
looking before it comes to (`latest_eq`). Caching what it is at a key (`latest_insert_of_latest`) and removing what
is before a cached key (`latest_dropBelow`) make no difference to it from that key on, and a value at a key behind
all others is what it is from there on (`latest_insert_of_last`).
-/

set_option autoImplicit false
set_option relaxedAutoImplicit false

namespace Playground.Library

/-- A finite map whose entries are in the order of their keys. -/
structure SortedMap (κ β : Type*) [LinearOrder κ] where
  entries : List (κ × β)
  sorted : entries.Pairwise fun first second ↦ first.1 < second.1

namespace SortedMap

variable {κ β : Type*} [LinearOrder κ]

instance [DecidableEq β] : DecidableEq (SortedMap κ β) := fun first second ↦
  decidable_of_iff (first.entries = second.entries) (by
    cases first
    cases second
    rw [SortedMap.mk.injEq])

/-- The map without entries. -/
def empty : SortedMap κ β :=
  ⟨[], List.Pairwise.nil⟩

/-- The map with one entry. -/
def singleton (key : κ) (value : β) : SortedMap κ β :=
  ⟨[(key, value)], List.pairwise_singleton _ _⟩

/-- Whether there is no entry. -/
def isEmpty (map : SortedMap κ β) : Bool :=
  map.entries.isEmpty

/-- The value of a key. -/
def get (map : SortedMap κ β) (key : κ) : Option β :=
  (map.entries.find? fun entry ↦ entry.1 = key).map Prod.snd

/-- The last entry. -/
def last (map : SortedMap κ β) : Option (κ × β) :=
  map.entries.getLast?

/-- The last entry whose key is less than a key. -/
def before (map : SortedMap κ β) (key : κ) : Option (κ × β) :=
  (map.entries.filter fun entry ↦ entry.1 < key).getLast?

/-- The entries from a key on. -/
def dropBelow (map : SortedMap κ β) (key : κ) : SortedMap κ β :=
  ⟨map.entries.filter fun entry ↦ key ≤ entry.1, map.sorted.filter _⟩

/-- The entries with one written among them. -/
def insertEntry (key : κ) (value : β) : List (κ × β) → List (κ × β)
  | [] => [(key, value)]
  | entry :: rest =>
    if key < entry.1 then (key, value) :: entry :: rest
    else if key = entry.1 then (key, value) :: rest
    else entry :: insertEntry key value rest

/-- The entries after a write are the new one and those of other keys. -/
theorem mem_insertEntry {key : κ} {value : β} {entries : List (κ × β)}
    (hsorted : entries.Pairwise fun first second ↦ first.1 < second.1) {entry : κ × β} :
    entry ∈ insertEntry key value entries ↔ entry = (key, value) ∨ entry ∈ entries ∧ entry.1 ≠ key := by
  induction entries with
  | nil => rw [insertEntry, List.mem_singleton, iff_self_or]; exact fun h ↦ absurd h.1 List.not_mem_nil
  | cons first rest ih =>
    rw [List.pairwise_cons] at hsorted
    rw [insertEntry]
    rcases lt_trichotomy key first.1 with hlt | heq | hgt
    · have hne : ∀ other ∈ first :: rest, other.1 ≠ key := by
        rw [List.forall_mem_cons]
        exact ⟨hlt.ne', fun other hother ↦ (hlt.trans (hsorted.1 other hother)).ne'⟩
      rw [if_pos hlt, List.mem_cons]
      exact or_congr_right ⟨fun h ↦ ⟨h, hne _ h⟩, And.left⟩
    · have hne : ∀ other ∈ rest, other.1 ≠ key := fun other hother ↦ (heq ▸ hsorted.1 other hother).ne'
      rw [if_neg heq.not_lt, if_pos heq, List.mem_cons, List.mem_cons]
      refine or_congr_right ⟨fun h ↦ ⟨Or.inr h, hne _ h⟩, fun h ↦ h.1.resolve_left ?_⟩
      rintro rfl
      exact h.2 heq.symm
    · rw [if_neg hgt.not_gt, if_neg hgt.ne', List.mem_cons, List.mem_cons, ih hsorted.2]
      constructor
      · rintro (rfl | hnew | ⟨hmem, hne⟩)
        · exact Or.inr ⟨Or.inl rfl, hgt.ne⟩
        · exact Or.inl hnew
        · exact Or.inr ⟨Or.inr hmem, hne⟩
      · rintro (hnew | ⟨hfirst | hmem, hne⟩)
        · exact Or.inr (Or.inl hnew)
        · exact Or.inl hfirst
        · exact Or.inr (Or.inr ⟨hmem, hne⟩)

/-- A write keeps the order. -/
theorem sorted_insertEntry {key : κ} {value : β} {entries : List (κ × β)}
    (hsorted : entries.Pairwise fun first second ↦ first.1 < second.1) :
    (insertEntry key value entries).Pairwise fun first second ↦ first.1 < second.1 := by
  induction entries with
  | nil => exact List.pairwise_singleton _ _
  | cons first rest ih =>
    have hall := hsorted
    rw [List.pairwise_cons] at hsorted
    rw [insertEntry]
    split_ifs with hlt heq
    · refine List.pairwise_cons.mpr ⟨?_, hall⟩
      rw [List.forall_mem_cons]
      exact ⟨hlt, fun other hother ↦ hlt.trans (hsorted.1 other hother)⟩
    · exact List.pairwise_cons.mpr ⟨fun other hother ↦ heq ▸ hsorted.1 other hother, hsorted.2⟩
    · refine List.pairwise_cons.mpr ⟨fun other hother ↦ ?_, ih hsorted.2⟩
      rcases (mem_insertEntry hsorted.2).mp hother with rfl | ⟨hmem, -⟩
      · exact lt_of_le_of_ne (not_lt.mp hlt) (Ne.symm heq)
      · exact hsorted.1 other hmem

/-- Write an entry. -/
def insert (map : SortedMap κ β) (key : κ) (value : β) : SortedMap κ β :=
  ⟨insertEntry key value map.entries, sorted_insertEntry map.sorted⟩

/-- The value of the greatest key that does not exceed a key. -/
def latest (map : SortedMap κ β) (key : κ) : Option β :=
  ((map.entries.filter fun entry ↦ entry.1 ≤ key).getLast?).map Prod.snd

variable {map : SortedMap κ β} {key other : κ} {value : β}

/-- The last entry of sorted ones is the one that no other exceeds. -/
theorem getLast?_eq_some_iff {entries : List (κ × β)}
    (hsorted : entries.Pairwise fun first second ↦ first.1 < second.1) {entry : κ × β} :
    entries.getLast? = some entry ↔ entry ∈ entries ∧ ∀ other ∈ entries, other.1 ≤ entry.1 := by
  rcases List.eq_nil_or_concat entries with rfl | ⟨front, final, rfl⟩
  · exact iff_of_false (by rintro ⟨⟩) fun h ↦ absurd h.1 List.not_mem_nil
  rw [List.concat_eq_append] at hsorted ⊢
  rw [List.getLast?_concat, Option.some.injEq]
  have hbefore : ∀ other ∈ front, other.1 < final.1 := fun other hother ↦
    (List.pairwise_append.mp hsorted).2.2 other hother final (List.mem_singleton.mpr rfl)
  constructor
  · rintro rfl
    refine ⟨List.mem_append_right _ (List.mem_singleton.mpr rfl), fun other hother ↦ ?_⟩
    rcases List.mem_append.mp hother with hother | hother
    · exact (hbefore other hother).le
    · exact (List.mem_singleton.mp hother ▸ le_refl _)
  · rintro ⟨hmem, hmax⟩
    rcases List.mem_append.mp hmem with hfront | hfinal
    · exact absurd (hmax final (List.mem_append_right _ (List.mem_singleton.mpr rfl))) (hbefore entry hfront).not_ge
    · exact (List.mem_singleton.mp hfinal).symm

/-- A key has the value of its entry. -/
theorem get_eq_some_iff : map.get key = some value ↔ (key, value) ∈ map.entries := by
  obtain ⟨entries, hsorted⟩ := map
  change (entries.find? fun entry ↦ entry.1 = key).map Prod.snd = some value ↔ (key, value) ∈ entries
  induction entries with
  | nil => exact iff_of_false (by rintro ⟨⟩) List.not_mem_nil
  | cons first rest ih =>
    rw [List.pairwise_cons] at hsorted
    rw [List.find?_cons, List.mem_cons]
    by_cases hkey : first.1 = key
    · rw [decide_eq_true hkey, Option.map_some, Option.some.injEq]
      constructor
      · rintro rfl
        exact Or.inl (Prod.ext hkey.symm rfl)
      · rintro (heq | hmem)
        · rw [← heq]
        · exact absurd hkey (hsorted.1 _ hmem).ne
    · rw [decide_eq_false hkey, ih hsorted.2, or_iff_right]
      rintro rfl
      exact hkey rfl

/-- A key that has a value is the key of one entry. -/
theorem value_unique {first second : β} (hfirst : (key, first) ∈ map.entries) (hsecond : (key, second) ∈ map.entries) :
    first = second :=
  Option.some.inj ((get_eq_some_iff.mpr hfirst).symm.trans (get_eq_some_iff.mpr hsecond))

/-- What the value of the greatest key is that does not exceed a key. -/
theorem latest_eq_some_iff : map.latest key = some value ↔
    ∃ found ≤ key, (found, value) ∈ map.entries ∧ ∀ entry ∈ map.entries, entry.1 ≤ key → entry.1 ≤ found := by
  rw [latest, Option.map_eq_some_iff]
  constructor
  · rintro ⟨⟨found, other⟩, hlast, rfl⟩
    obtain ⟨hmem, hmax⟩ := (getLast?_eq_some_iff (map.sorted.filter _)).mp hlast
    obtain ⟨hentry, hle⟩ := List.mem_filter.mp hmem
    exact ⟨found, of_decide_eq_true hle, hentry,
      fun entry hmem hle ↦ hmax entry (List.mem_filter.mpr ⟨hmem, decide_eq_true hle⟩)⟩
  · rintro ⟨found, hle, hmem, hmax⟩
    refine ⟨(found, value), (getLast?_eq_some_iff (map.sorted.filter _)).mpr
      ⟨List.mem_filter.mpr ⟨hmem, decide_eq_true hle⟩, fun entry hentry ↦ ?_⟩, rfl⟩
    obtain ⟨hentry, hle⟩ := List.mem_filter.mp hentry
    exact hmax entry hentry (of_decide_eq_true hle)

/-- Looking a key up, and then before it. -/
theorem latest_eq : map.latest key = (map.get key).or ((map.before key).map Prod.snd) := by
  refine Option.ext fun value ↦ ?_
  rw [latest_eq_some_iff]
  cases hget : map.get key with
  | some found =>
    have hmem := get_eq_some_iff.mp hget
    rw [Option.some_or, Option.some.injEq]
    constructor
    · rintro ⟨other, hle, hother, hmax⟩
      obtain rfl := le_antisymm hle (hmax _ hmem le_rfl)
      exact value_unique hmem hother
    · rintro rfl
      exact ⟨key, le_rfl, hmem, fun _ _ ↦ id⟩
  | none =>
    have hkey : ∀ entry ∈ map.entries, entry.1 ≤ key ↔ entry.1 < key := fun entry hentry ↦
      ⟨fun hle ↦ lt_of_le_of_ne hle fun heq ↦ Option.some_ne_none _
        ((get_eq_some_iff.mpr (heq ▸ hentry : (key, entry.2) ∈ map.entries)).symm.trans hget), le_of_lt⟩
    have hfilter : (map.entries.filter fun entry ↦ entry.1 < key) = map.entries.filter fun entry ↦ entry.1 ≤ key :=
      List.filter_congr fun entry hentry ↦ decide_eq_decide.mpr (hkey entry hentry).symm
    rw [Option.none_or, before, hfilter, ← latest_eq_some_iff, latest]

/-- The entries after a write. -/
theorem mem_insert {entry : κ × β} :
    entry ∈ (map.insert key value).entries ↔ entry = (key, value) ∨ entry ∈ map.entries ∧ entry.1 ≠ key :=
  mem_insertEntry map.sorted

/-- The entries from a key on. -/
theorem mem_dropBelow {entry : κ × β} :
    entry ∈ (map.dropBelow key).entries ↔ entry ∈ map.entries ∧ key ≤ entry.1 :=
  List.mem_filter.trans (and_congr_right fun _ ↦ decide_eq_true_iff)

/-- Caching the value that a key has from a key before it makes no difference from the key on. -/
theorem latest_insert_of_latest (hlatest : map.latest key = some value) (hle : key ≤ other) :
    (map.insert key value).latest other = map.latest other := by
  obtain ⟨found, hfound, hmem, hmax⟩ := latest_eq_some_iff.mp hlatest
  refine Option.ext fun result ↦ ?_
  rw [latest_eq_some_iff, latest_eq_some_iff]
  constructor
  · rintro ⟨last, hlast, hentry, hgreatest⟩
    rcases mem_insert.mp hentry with heq | ⟨hentry, hne⟩
    · obtain ⟨rfl, rfl⟩ := Prod.mk.inj heq
      refine ⟨found, hfound.trans hle, hmem, fun entry hentry hother ↦ hmax entry hentry ?_⟩
      by_cases hkey : entry.1 = last
      · exact hkey.le
      · exact hgreatest entry (mem_insert.mpr (Or.inr ⟨hentry, hkey⟩)) hother
    · refine ⟨last, hlast, hentry, fun entry hentry hother ↦ ?_⟩
      by_cases hkey : entry.1 = key
      · exact hkey ▸ hgreatest _ (mem_insert.mpr (Or.inl rfl)) hle
      · exact hgreatest entry (mem_insert.mpr (Or.inr ⟨hentry, hkey⟩)) hother
  · rintro ⟨last, hlast, hentry, hgreatest⟩
    rcases le_or_gt last key with hbefore | hbehind
    · -- nothing is between the found key and the other one
      obtain rfl := le_antisymm (hmax _ hentry hbefore) (hgreatest _ hmem (hfound.trans hle))
      obtain rfl := value_unique hmem hentry
      refine ⟨key, hle, mem_insert.mpr (Or.inl rfl), fun entry hentry hother ↦ ?_⟩
      rcases mem_insert.mp hentry with rfl | ⟨hentry, -⟩
      · exact le_rfl
      · exact (hgreatest entry hentry hother).trans hbefore
    · refine ⟨last, hlast, mem_insert.mpr (Or.inr ⟨hentry, hbehind.ne'⟩), fun entry hentry hother ↦ ?_⟩
      rcases mem_insert.mp hentry with rfl | ⟨hentry, -⟩
      · exact hbehind.le
      · exact hgreatest entry hentry hother

/-- Removing what is before a key that is there makes no difference from the key on. -/
theorem latest_dropBelow (hmem : (key, value) ∈ map.entries) (hle : key ≤ other) :
    (map.dropBelow key).latest other = map.latest other := by
  refine Option.ext fun result ↦ ?_
  rw [latest_eq_some_iff, latest_eq_some_iff]
  constructor
  · rintro ⟨last, hlast, hentry, hgreatest⟩
    obtain ⟨hentry, hkey⟩ := mem_dropBelow.mp hentry
    refine ⟨last, hlast, hentry, fun entry hentry hother ↦ ?_⟩
    rcases le_total key entry.1 with habove | hbelow
    · exact hgreatest entry (mem_dropBelow.mpr ⟨hentry, habove⟩) hother
    · exact hbelow.trans hkey
  · rintro ⟨last, hlast, hentry, hgreatest⟩
    exact ⟨last, hlast, mem_dropBelow.mpr ⟨hentry, hgreatest _ hmem hle⟩,
      fun entry hentry ↦ hgreatest entry (mem_dropBelow.mp hentry).1⟩

/-- A value at a key behind all others is what there is from that key on, and makes no difference before it. -/
theorem latest_insert_of_last (hlast : ∀ entry ∈ map.entries, entry.1 < key) :
    (map.insert key value).latest other = if key ≤ other then some value else map.latest other := by
  refine Option.ext fun result ↦ ?_
  rw [latest_eq_some_iff]
  split_ifs with hle
  · rw [Option.some.injEq]
    constructor
    · rintro ⟨found, -, hentry, hgreatest⟩
      rcases mem_insert.mp hentry with heq | ⟨hentry, -⟩
      · exact (Prod.mk.inj heq).2.symm
      · exact absurd (hgreatest _ (mem_insert.mpr (Or.inl rfl)) hle) (hlast _ hentry).not_ge
    · rintro rfl
      refine ⟨key, hle, mem_insert.mpr (Or.inl rfl), fun entry hentry _ ↦ ?_⟩
      rcases mem_insert.mp hentry with rfl | ⟨hentry, -⟩
      · exact le_rfl
      · exact (hlast entry hentry).le
  · rw [latest_eq_some_iff]
    constructor
    · rintro ⟨found, hfound, hentry, hgreatest⟩
      rcases mem_insert.mp hentry with heq | ⟨hentry, -⟩
      · exact absurd ((Prod.mk.inj heq).1 ▸ hfound) hle
      · exact ⟨found, hfound, hentry, fun entry hentry ↦
          hgreatest entry (mem_insert.mpr (Or.inr ⟨hentry, (hlast entry hentry).ne⟩))⟩
    · rintro ⟨found, hfound, hentry, hgreatest⟩
      refine ⟨found, hfound, mem_insert.mpr (Or.inr ⟨hentry, (hlast _ hentry).ne⟩), fun entry hentry hother ↦ ?_⟩
      rcases mem_insert.mp hentry with rfl | ⟨hentry, -⟩
      · exact absurd hother hle
      · exact hgreatest entry hentry hother

end SortedMap

end Playground.Library
