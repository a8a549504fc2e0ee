import Mathlib.Data.List.Basic
import Mathlib.Data.List.Infix
import Mathlib.Data.List.Dedup
import Mathlib.Data.List.Perm.Subperm

/-!
# Strings and arrays of JavaScript

A string is the list of its characters; `startsWith` and `includes` are the prefix and infix
relations of lists. `replaceFirst` is `String.prototype.replace` with a string as its pattern: the
first occurrence is replaced, and the replacement may refer to the match and to what surrounds it by
the patterns that begin with `$` (`substitute`). `arrayAt`, `indexOf` and `spliceOne` are the array
methods that take or return indices, with the readings that JavaScript gives to negative ones.

Not formalized here: UTF-16 code units, and regular expressions beyond the classes of single
characters.
-/

set_option autoImplicit false
set_option relaxedAutoImplicit false

namespace Playground.Library

/-- A string. -/
abbrev Str := List Char

/-- What is said of the characters of a text is decided character by character of the text. -/
instance decidableForallMemText {property : Char → Prop} [DecidablePred property] (text : Str) :
    Decidable (∀ char ∈ text, property char) :=
  List.decidableBAll property text

instance decidableExistsMemText {property : Char → Prop} [DecidablePred property] (text : Str) :
    Decidable (∃ char ∈ text, property char) :=
  List.decidableBEx property text

/-- `includes` of an array of strings. -/
instance (text : Str) (entries : List Str) : Decidable (text ∈ entries) :=
  List.instDecidableMemOfLawfulBEq text entries

/-! ### Characters -/

/-- The class `\w`. -/
def isWordChar (char : Char) : Bool :=
  char.isAlphanum || char == '_'

/-- The codes of the characters of words. -/
theorem isWordChar_iff (char : Char) :
    isWordChar char = true ↔ 48 ≤ char.toNat ∧ char.toNat ≤ 57 ∨ 65 ≤ char.toNat ∧ char.toNat ≤ 90 ∨
      char.toNat = 95 ∨ 97 ≤ char.toNat ∧ char.toNat ≤ 122 := by
  have hlow : char = '_' ↔ char.toNat = 95 := ⟨fun h ↦ h ▸ rfl, fun h ↦ Char.ext (UInt32.toNat_inj.mp h)⟩
  have hword : isWordChar char = (((decide (char.val ≥ 65 ∧ char.val ≤ 90) ||
      (char.val ≥ 97 && char.val ≤ 122)) || (char.val ≥ 48 && char.val ≤ 57)) || char == '_') := rfl
  rw [hword]
  simp only [Bool.or_eq_true, Bool.and_eq_true, decide_eq_true_eq, beq_iff_eq, hlow, UInt32.le_iff_toNat_le]
  change ((65 ≤ char.toNat ∧ char.toNat ≤ 90 ∨ 97 ≤ char.toNat ∧ char.toNat ≤ 122) ∨
    48 ≤ char.toNat ∧ char.toNat ≤ 57) ∨ char.toNat = 95 ↔ _
  omega

/-- The class `\s`, the characters that `trim` removes. -/
def isSpaceChar (char : Char) : Bool :=
  [0x9, 0xA, 0xB, 0xC, 0xD, 0x20, 0xA0, 0x1680, 0x2028, 0x2029, 0x202F, 0x205F, 0x3000,
    0xFEFF].contains char.toNat || (0x2000 ≤ char.toNat && char.toNat ≤ 0x200A)

/-- `String.prototype.trim`. -/
def trim (text : Str) : Str :=
  ((text.dropWhile isSpaceChar).reverse.dropWhile isSpaceChar).reverse

/-- A text that does not begin with a blank is left alone by `trimStart`. -/
theorem dropWhile_isSpaceChar_eq_self {text : Str}
    (hhead : ∀ char ∈ text.head?, isSpaceChar char = false) : text.dropWhile isSpaceChar = text := by
  cases text with
  | nil => rfl
  | cons char rest => rw [List.dropWhile_cons_of_neg (by simp [hhead char rfl])]

/-- Blanks are removed. -/
theorem trim_eq_nil {text : Str} (htext : ∀ char ∈ text, isSpaceChar char = true) : trim text = [] := by
  have hdrop := @List.dropWhile_append_of_pos _ _ _ [] htext
  rw [List.append_nil, List.dropWhile_nil] at hdrop
  rw [trim, hdrop]
  rfl

/-- Blanks around a text that neither begins nor ends with one are removed. -/
theorem trim_append_append {before text behind : Str} (hbefore : ∀ char ∈ before, isSpaceChar char = true)
    (hbehind : ∀ char ∈ behind, isSpaceChar char = true) (hne : text ≠ [])
    (hhead : ∀ char ∈ text.head?, isSpaceChar char = false)
    (hlast : ∀ char ∈ text.getLast?, isSpaceChar char = false) : trim (before ++ text ++ behind) = text := by
  have hstart : ∀ char ∈ (text ++ behind).head?, isSpaceChar char = false := by
    rwa [List.head?_append_of_ne_nil _ hne]
  have hreverse : ∀ char ∈ behind.reverse, isSpaceChar char = true :=
    fun char hchar ↦ hbehind char (List.mem_reverse.mp hchar)
  have hend : ∀ char ∈ text.reverse.head?, isSpaceChar char = false := by
    rwa [List.head?_reverse]
  rw [trim, List.append_assoc, List.dropWhile_append_of_pos hbefore, dropWhile_isSpaceChar_eq_self hstart,
    List.reverse_append, List.dropWhile_append_of_pos hreverse, dropWhile_isSpaceChar_eq_self hend,
    List.reverse_reverse]

/-- A text that neither begins nor ends with a blank is left alone. -/
theorem trim_eq_self {text : Str} (hhead : ∀ char ∈ text.head?, isSpaceChar char = false)
    (hlast : ∀ char ∈ text.getLast?, isSpaceChar char = false) : trim text = text := by
  have hreverse : ∀ char ∈ text.reverse.head?, isSpaceChar char = false := by
    rwa [List.head?_reverse]
  rw [trim, dropWhile_isSpaceChar_eq_self hhead, dropWhile_isSpaceChar_eq_self hreverse,
    List.reverse_reverse]

/-! ### Replacing -/

/-- The text before and the text after the first occurrence of a pattern. -/
def splitFirst (pattern : Str) : Str → Option (Str × Str)
  | [] => if pattern = [] then some ([], []) else none
  | char :: rest =>
    if pattern <+: char :: rest then some ([], (char :: rest).drop pattern.length)
    else (splitFirst pattern rest).map fun parts ↦ (char :: parts.1, parts.2)

/-- What a replacement stands for, given the match and the text before and after it: a dollar sign
followed by a dollar sign, an ampersand, a backquote or an apostrophe is a pattern, every other
character is itself. -/
def substitute (found before after : Str) : Str → Str
  | '$' :: '$' :: rest => '$' :: substitute found before after rest
  | '$' :: '&' :: rest => found ++ substitute found before after rest
  | '$' :: '\x60' :: rest => before ++ substitute found before after rest
  | '$' :: '\x27' :: rest => after ++ substitute found before after rest
  | char :: rest => char :: substitute found before after rest
  | [] => []

/-- `String.prototype.replace` with a string as its pattern. -/
def replaceFirst (text pattern replacement : Str) : Str :=
  match splitFirst pattern text with
  | none => text
  | some (before, after) => before ++ substitute pattern before after replacement ++ after

/-- A replacement without dollar signs stands for itself. -/
theorem substitute_of_notMem {found before after replacement : Str} (hdollar : '$' ∉ replacement) :
    substitute found before after replacement = replacement := by
  induction replacement with
  | nil => rfl
  | cons char rest ih =>
    have hchar : char ≠ '$' := fun heq ↦ hdollar (by simp [heq])
    have hrest : '$' ∉ rest := fun hmem ↦ hdollar (List.mem_cons_of_mem _ hmem)
    rw [substitute.eq_5 _ _ _ _ _ (by simp [hchar]) (by simp [hchar]) (by simp [hchar])
      (by simp [hchar]), ih hrest]

/-- The first occurrence of a prefix is at the start. -/
theorem splitFirst_append (pattern rest : Str) :
    splitFirst pattern (pattern ++ rest) = some ([], rest) := by
  cases pattern with
  | nil => cases rest <;> simp [splitFirst]
  | cons char pattern =>
    have hprefix : (char :: pattern) <+: char :: (pattern ++ rest) := ⟨rest, rfl⟩
    rw [List.cons_append, splitFirst, if_pos hprefix, ← List.cons_append, List.drop_left]

/-- Replacing a prefix. -/
theorem replaceFirst_append (pattern rest replacement : Str) :
    replaceFirst (pattern ++ rest) pattern replacement =
      substitute pattern [] rest replacement ++ rest := by
  rw [replaceFirst, splitFirst_append]
  rfl

/-- The first occurrence of a pattern that does not begin earlier. -/
theorem splitFirst_append_append {pattern before : Str} (after : Str)
    (hnone : ¬ pattern <:+: before ++ pattern.dropLast) :
    splitFirst pattern (before ++ (pattern ++ after)) = some (before, after) := by
  induction before with
  | nil => exact splitFirst_append pattern after
  | cons char rest ih =>
    have hrest : ¬ pattern <:+: rest ++ pattern.dropLast :=
      fun h ↦ hnone (h.trans (List.suffix_cons _ _).isInfix)
    have hprefix : ¬ pattern <+: char :: (rest ++ (pattern ++ after)) := by
      intro hprefix
      have hother : char :: rest ++ pattern.dropLast <+: char :: (rest ++ (pattern ++ after)) := by
        rw [List.cons_append, List.cons_prefix_cons, List.prefix_append_right_inj]
        exact ⟨rfl, (List.dropLast_prefix pattern).trans (List.prefix_append _ _)⟩
      have hlength : pattern.length ≤ (char :: rest ++ pattern.dropLast).length := by
        simp only [List.length_append, List.length_cons, List.length_dropLast]
        omega
      exact hnone (List.prefix_of_prefix_length_le hprefix hother hlength).isInfix
    rw [List.cons_append, splitFirst, if_neg hprefix, ih hrest, Option.map_some]

/-- What is found is where it is found. -/
theorem eq_append_of_splitFirst {pattern text before after : Str}
    (hsplit : splitFirst pattern text = some (before, after)) : text = before ++ pattern ++ after := by
  induction text generalizing before with
  | nil =>
    rw [splitFirst] at hsplit
    split at hsplit
    · next hempty =>
      obtain ⟨rfl, rfl⟩ := Prod.mk.inj (Option.some.inj hsplit)
      rw [hempty]
      rfl
    · cases hsplit
  | cons char rest ih =>
    rw [splitFirst] at hsplit
    split at hsplit
    · next hprefix =>
      obtain ⟨rfl, rfl⟩ := Prod.mk.inj (Option.some.inj hsplit)
      rw [List.nil_append]
      exact (List.prefix_append_drop hprefix)
    · obtain ⟨parts, hparts, hpair⟩ := Option.map_eq_some_iff.mp hsplit
      obtain ⟨rfl, rfl⟩ := Prod.mk.inj hpair
      rw [ih hparts]
      rfl

/-- A pattern that does not occur is not found. -/
theorem splitFirst_eq_none {pattern text : Str} (hnone : ¬ pattern <:+: text) :
    splitFirst pattern text = none := by
  induction text with
  | nil =>
    have hpattern : pattern ≠ [] := by
      rintro rfl
      exact hnone (List.infix_refl [])
    simp [splitFirst, hpattern]
  | cons char rest ih =>
    have hprefix : ¬ pattern <+: char :: rest := fun h ↦ hnone h.isInfix
    have hrest : ¬ pattern <:+: rest := fun h ↦ hnone (h.trans (List.suffix_cons _ _).isInfix)
    rw [splitFirst, if_neg hprefix, ih hrest, Option.map_none]

/-- A text without a character that occurs between two others occurs in one of them. -/
theorem infix_or_infix_of_infix_append_cons {pattern before after : Str} {separator : Char}
    (hseparator : separator ∉ pattern) (hoccurs : pattern <:+: before ++ separator :: after) :
    pattern <:+: before ∨ pattern <:+: after := by
  obtain ⟨left, right, heq⟩ := hoccurs
  rcases List.append_eq_append_iff.mp heq with ⟨more, hbefore, -⟩ | ⟨more, hleft, hright⟩
  · exact Or.inl ⟨left, more, hbefore.symm⟩
  · cases more with
    | nil =>
      rw [List.append_nil] at hleft
      exact Or.inl ⟨left, [], by rw [List.append_nil, hleft]⟩
    | cons first more =>
      obtain ⟨rfl, rfl⟩ := List.cons.inj hright
      rcases List.append_eq_append_iff.mp hleft with ⟨other, -, hpattern⟩ | ⟨other, -, hother⟩
      · exact absurd (by rw [hpattern]; simp) hseparator
      · cases other with
        | nil => exact absurd (by rw [← List.nil_append pattern, ← hother]; simp) hseparator
        | cons next other =>
          obtain ⟨-, rfl⟩ := List.cons.inj hother
          exact Or.inr ⟨other, right, rfl⟩

/-! ### Arrays -/

variable {α : Type*}

/-- `Array.prototype.at`: a negative index counts from the end. -/
def arrayAt (entries : List α) (index : ℤ) : Option α :=
  if 0 ≤ index then entries[index.toNat]?
  else if 0 ≤ entries.length + index then entries[(entries.length + index).toNat]?
  else none

@[simp] theorem arrayAt_nil (index : ℤ) : arrayAt ([] : List α) index = none := by
  simp [arrayAt]

@[simp] theorem arrayAt_natCast (entries : List α) (index : ℕ) :
    arrayAt entries index = entries[index]? := by
  simp [arrayAt]

/-- The index `-1` is that of the last entry. -/
@[simp] theorem arrayAt_neg_one (entries : List α) : arrayAt entries (-1) = entries.getLast? := by
  cases hlength : entries.length with
  | zero => simp [List.length_eq_zero_iff.mp hlength]
  | succ length =>
    have hindex : (((length + 1 : ℕ) : ℤ) + -1).toNat = length := by omega
    rw [arrayAt, if_neg (by omega), if_pos (by omega), hlength, hindex, List.getLast?_eq_getElem?,
      hlength, Nat.add_sub_cancel]

/-- What is found at an index is an entry. -/
theorem mem_of_arrayAt {entries : List α} {index : ℤ} {entry : α}
    (hentry : arrayAt entries index = some entry) : entry ∈ entries := by
  unfold arrayAt at hentry
  split at hentry
  · exact List.mem_of_getElem? hentry
  · split at hentry
    · exact List.mem_of_getElem? hentry
    · cases hentry

variable [DecidableEq α]

/-- `Array.prototype.indexOf`: the first index of an entry, or `-1`. -/
def indexOf (entries : List α) (entry : α) : ℤ :=
  if entry ∈ entries then entries.idxOf entry else -1

theorem indexOf_of_mem {entries : List α} {entry : α} (hentry : entry ∈ entries) :
    indexOf entries entry = entries.idxOf entry :=
  if_pos hentry

theorem indexOf_of_notMem {entries : List α} {entry : α} (hentry : entry ∉ entries) :
    indexOf entries entry = -1 :=
  if_neg hentry

/-- The index of an entry is within bounds. -/
theorem indexOf_bounds {entries : List α} {entry : α} (hentry : entry ∈ entries) :
    0 ≤ indexOf entries entry ∧ indexOf entries entry < entries.length := by
  rw [indexOf_of_mem hentry]
  exact ⟨Int.natCast_nonneg _, Int.ofNat_lt.mpr (List.idxOf_lt_length_of_mem hentry)⟩

/-- Where an entry of distinct ones is, is its index. -/
theorem indexOf_of_getElem? {entries : List α} {entry : α} (hnodup : entries.Nodup) {place : ℕ}
    (hplace : entries[place]? = some entry) : indexOf entries entry = place := by
  obtain ⟨hlt, hentry⟩ := List.getElem?_eq_some_iff.mp hplace
  rw [indexOf_of_mem (List.mem_of_getElem? hplace), ← hentry, hnodup.idxOf_getElem]

/-- An entry is found at its index. -/
theorem arrayAt_indexOf {entries : List α} {entry : α} (hentry : entry ∈ entries) :
    arrayAt entries (indexOf entries entry) = some entry := by
  rw [indexOf_of_mem hentry, arrayAt_natCast,
    List.getElem?_eq_getElem (List.idxOf_lt_length_of_mem hentry), List.getElem_idxOf]

/-- `[...new Set(entries)]`: the first occurrence of every entry. -/
def distinct (entries : List α) : List α :=
  entries.reverse.dedup.reverse

@[simp] theorem mem_distinct {entries : List α} {entry : α} :
    entry ∈ distinct entries ↔ entry ∈ entries := by
  simp [distinct]

theorem nodup_distinct (entries : List α) : (distinct entries).Nodup :=
  List.nodup_reverse.mpr (List.nodup_dedup _)

theorem distinct_of_nodup {entries : List α} (hnodup : entries.Nodup) :
    distinct entries = entries := by
  rw [distinct, (List.nodup_reverse.mpr hnodup).dedup, List.reverse_reverse]

omit [DecidableEq α] in
/-- `splice(index, 1)`: the entry at the index is removed, a negative index counting from the
end. -/
def spliceOne (entries : List α) (index : ℤ) : List α :=
  entries.eraseIdx (if 0 ≤ index then index else max (entries.length + index) 0).toNat

/-- Splicing out the index of an entry removes the entry. -/
theorem spliceOne_indexOf {entries : List α} {entry : α} (hentry : entry ∈ entries) :
    spliceOne entries (indexOf entries entry) = entries.erase entry := by
  rw [indexOf_of_mem hentry, spliceOne, if_pos (by omega), List.erase_eq_eraseIdx_of_idxOf rfl]
  rfl

/-- Splicing out an entry of distinct ones leaves the others. -/
theorem spliceOne_eq_filter {entries : List α} (hnodup : entries.Nodup) {entry : α}
    (hentry : entry ∈ entries) :
    spliceOne entries (indexOf entries entry) = entries.filter fun other ↦ other ≠ entry := by
  rw [spliceOne_indexOf hentry, hnodup.erase_eq_filter]
  exact List.filter_congr fun other _ ↦ by by_cases heq : other = entry <;> simp [heq]

/-- Splicing out the index of a missing entry removes the last entry. -/
theorem spliceOne_indexOf_of_notMem {entries : List α} {entry : α} (hentry : entry ∉ entries) :
    spliceOne entries (indexOf entries entry) = entries.dropLast := by
  have hindex : (max ((entries.length : ℤ) + -1) 0).toNat = entries.length - 1 := by omega
  rw [indexOf_of_notMem hentry, spliceOne, if_neg (by omega), hindex, List.eraseIdx_length_sub_one]

/-- What is left after an entry has been spliced out, index by index. -/
theorem getElem?_spliceOne {entries : List α} {entry : α} (hnodup : entries.Nodup) {place : ℕ}
    (hplace : entries[place]? = some entry) (index : ℕ) :
    (spliceOne entries (indexOf entries entry))[index]? =
      if index < place then entries[index]? else entries[index + 1]? := by
  rw [indexOf_of_getElem? hnodup hplace, spliceOne, if_pos (Int.natCast_nonneg place),
    Int.toNat_natCast, List.getElem?_eraseIdx]

theorem length_spliceOne {entries : List α} {entry : α} (hentry : entry ∈ entries) :
    (spliceOne entries (indexOf entries entry)).length = entries.length - 1 := by
  rw [spliceOne_indexOf hentry, List.length_erase_of_mem hentry]

omit [DecidableEq α] in
/-- Splicing out one entry leaves a part of the list. -/
theorem spliceOne_sublist (entries : List α) (index : ℤ) :
    (spliceOne entries index).Sublist entries :=
  List.eraseIdx_sublist entries _

/-- Splicing out the index of an entry leaves none of it. -/
theorem notMem_spliceOne {entries : List α} (hnodup : entries.Nodup) (entry : α) :
    entry ∉ spliceOne entries (indexOf entries entry) := by
  by_cases hentry : entry ∈ entries
  · rw [spliceOne_indexOf hentry]
    exact hnodup.not_mem_erase
  · rw [spliceOne_indexOf_of_notMem hentry]
    exact fun hmem ↦ hentry (List.mem_of_mem_dropLast hmem)

/-! ### Splicing out several entries -/

/-- `splice(indexOf(entry), 1)` for one entry after the other. -/
def spliceEach (entries removed : List α) : List α :=
  removed.foldl (fun rest entry ↦ spliceOne rest (indexOf rest entry)) entries

/-- One entry goes, whichever it is. -/
theorem length_spliceOne_indexOf (entries : List α) (entry : α) :
    (spliceOne entries (indexOf entries entry)).length = entries.length - 1 := by
  by_cases hentry : entry ∈ entries
  · exact length_spliceOne hentry
  · rw [spliceOne_indexOf_of_notMem hentry, List.length_dropLast]

theorem length_spliceEach (entries removed : List α) :
    (spliceEach entries removed).length = entries.length - removed.length := by
  induction removed generalizing entries with
  | nil => rfl
  | cons entry rest ih =>
    refine (ih _).trans ?_
    rw [length_spliceOne_indexOf, List.length_cons]
    omega

/-- Splicing out entries that are all there leaves the others. -/
theorem spliceEach_eq_filter {entries removed : List α} (hnodup : entries.Nodup)
    (hremoved : removed.Nodup) (hall : ∀ entry ∈ removed, entry ∈ entries) :
    spliceEach entries removed = entries.filter fun entry ↦ entry ∉ removed := by
  induction removed generalizing entries with
  | nil => simp [spliceEach]
  | cons entry rest ih =>
    obtain ⟨hnot, hrest⟩ := List.nodup_cons.mp hremoved
    have hentry := hall entry List.mem_cons_self
    have hstep : spliceEach entries (entry :: rest) =
        spliceEach (entries.filter fun other ↦ other ≠ entry) rest :=
      congrArg (spliceEach · rest) (spliceOne_eq_filter hnodup hentry)
    rw [hstep, ih (hnodup.filter _) hrest, List.filter_filter]
    · refine List.filter_congr fun other _ ↦ ?_
      by_cases heq : other = entry <;> simp [heq]
    · intro other hother
      have hne : other ≠ entry := fun heq ↦ hnot (heq ▸ hother)
      exact List.mem_filter.mpr ⟨hall other (List.mem_cons_of_mem _ hother), by simpa using hne⟩

/-- Splicing out entries leaves the others exactly if all of them are there, or nothing else is. -/
theorem spliceEach_eq_filter_iff {entries removed : List α} (hnodup : entries.Nodup)
    (hremoved : removed.Nodup) {keep : α → Bool}
    (hkeep : ∀ entry ∈ entries, keep entry = true ↔ entry ∉ removed) :
    spliceEach entries removed = entries.filter keep ↔
      (∀ entry ∈ removed, entry ∈ entries) ∨ ∀ entry ∈ entries, entry ∈ removed := by
  have hsame : entries.filter keep = entries.filter fun entry ↦ entry ∉ removed :=
    List.filter_congr fun entry hentry ↦
      Bool.eq_iff_iff.mpr ((hkeep entry hentry).trans decide_eq_true_iff.symm)
  rw [hsame]
  have hsplit := entries.length_eq_length_filter_add fun entry ↦ decide (entry ∈ removed)
  have hnot : (entries.filter fun entry ↦ !decide (entry ∈ removed)) =
      entries.filter fun entry ↦ entry ∉ removed :=
    List.filter_congr fun entry _ ↦ by simp
  rw [hnot] at hsplit
  have hsubperm : (entries.filter fun entry ↦ decide (entry ∈ removed)).Subperm removed :=
    List.subperm_of_subset (hnodup.filter _) fun entry hentry ↦ by
      simpa using (List.mem_filter.mp hentry).2
  constructor
  · intro heq
    have hlength := congrArg List.length heq
    rw [length_spliceEach] at hlength
    by_cases hfew : removed.length ≤ entries.length
    · left
      intro entry hentry
      have hperm := hsubperm.perm_of_length_le (by omega)
      exact (List.mem_filter.mp (hperm.mem_iff.mpr hentry)).1
    · right
      intro entry hentry
      have hnil : (entries.filter fun entry ↦ entry ∉ removed) = [] :=
        List.length_eq_zero_iff.mp (by omega)
      by_contra hkept
      have hmem : entry ∈ entries.filter fun entry ↦ entry ∉ removed :=
        List.mem_filter.mpr ⟨hentry, by simpa using hkept⟩
      rw [hnil] at hmem
      cases hmem
  · rintro (hall | hall)
    · exact spliceEach_eq_filter hnodup hremoved hall
    · have hlength : entries.length ≤ removed.length :=
        (List.subperm_of_subset hnodup hall).length_le
      have hnil : spliceEach entries removed = [] := by
        rw [← List.length_eq_zero_iff, length_spliceEach]
        omega
      rw [hnil, eq_comm, List.filter_eq_nil_iff]
      intro entry hentry
      simpa using hall entry hentry

end Playground.Library
