import Mathlib
import Playground.Library.JavaScript

/-!
# Names in kebab case

The conversions of `client/src/utils/pg/common.ts` by way of kebab case: `toKebabFromCamel` puts a dash before each
character that is its own capital letter, a digit too, `toPascalFromKebab` takes all dashes out again, and
`toTitleFromKebab` replaces the first one by a blank.

An identifier is converted to kebab case and back without loss (`convertsBack_of_isIdentifier`), and to its words
in a title exactly if it has not more than two of them (`converts_iff`).

Not formalized here: the capital letters of characters that are not ASCII.
-/

set_option autoImplicit false
set_option relaxedAutoImplicit false

namespace Playground.PgCommon

open Library

/-! ### Conversions -/

/-- `PgCommon.toCamelFromPascal`. There is no first character of an empty text, which is an error. -/
def toCamelFromPascal : Str → Option Str
  | [] => none
  | first :: rest => some (first.toLower :: rest)

/-- `PgCommon.capitalize`. -/
def capitalize : Str → Option Str
  | [] => none
  | first :: rest => some (first.toUpper :: rest)

/-- The characters that get a dash before them in kebab case. -/
def isMarked (letter : Char) : Bool :=
  letter = letter.toUpper

/-- A character in kebab case. -/
def kebabLetter (letter : Char) : Str :=
  if isMarked letter then ['-', letter.toLower] else [letter]

/-- `PgCommon.toKebabFromCamel`. Nothing can be reduced to a text, which is an error. -/
def toKebabFromCamel (text : Str) : Option Str :=
  if text = [] then none else some (text.flatMap kebabLetter)

/-- `replace` of a dash and a character of `\w`, with the flag `g` or without it, by what depends on the
character. -/
def replaceDashed (isGlobal : Bool) (replacement : Char → Str) : Str → Str
  | [] => []
  | [char] => [char]
  | char :: next :: rest =>
    if char = '-' ∧ isWordChar next then
      replacement next ++ if isGlobal then replaceDashed isGlobal replacement rest else rest
    else char :: replaceDashed isGlobal replacement (next :: rest)

/-- `PgCommon.toTitleFromKebab`, without the flag `g`. -/
def toTitleFromKebab : Str → Option Str
  | [] => none
  | first :: rest => some (first.toUpper :: replaceDashed false (fun letter ↦ [' ', letter.toUpper]) rest)

/-- `PgCommon.toTitleFromCamel`. -/
def toTitleFromCamel (text : Str) : Option Str := do
  toTitleFromKebab (← toKebabFromCamel text)

/-- `PgCommon.toPascalFromKebab`. -/
def toPascalFromKebab (text : Str) : Option Str := do
  return replaceDashed true (fun letter ↦ [letter.toUpper]) (← capitalize text)

/-- `PgCommon.toKebabFromTitle`. -/
def toKebabFromTitle (text : Str) : Str :=
  ['-'].intercalate ((text.splitOn ' ').map fun word ↦ word.map Char.toLower)

/-! ### What they are to do -/

/-- The form `[a-z][A-Za-z0-9]*`. -/
def IsIdentifier (text : Str) : Prop :=
  ∃ first rest, text = first :: rest ∧ first.isLower = true ∧ ∀ letter ∈ rest, letter.isAlphanum = true

/-- The words of a text, from the one that has been begun. -/
def wordsFrom (word : Str) : Str → List Str
  | [] => [word]
  | letter :: rest => if isMarked letter then word :: wordsFrom [letter] rest else wordsFrom (word ++ [letter]) rest

/-- The words of a text. One begins with each marked character. -/
def words : Str → List Str
  | [] => []
  | first :: rest => wordsFrom [first] rest

/-- A text is what comes of it by way of kebab case. -/
def ConvertsBack (text : Str) : Prop :=
  (do toCamelFromPascal (← toPascalFromKebab (← toKebabFromCamel text))) = some text

/-- The title of a text consists of its words with capital letters and blanks between them, without a dash. -/
def ConvertsToTitle (text : Str) : Prop :=
  ∃ title, toTitleFromCamel text = some title ∧
    List.intercalate [' '] <$> (words text).mapM capitalize = some title ∧ '-' ∉ title

/-! ### Letters -/

/-- The letters and digits are among the first characters. -/
theorem exists_ofNat_of_isAlphanum {letter : Char} (halphanum : letter.isAlphanum = true) :
    ∃ code < 128, letter = Char.ofNat code := by
  have hcode : letter.toNat < 128 := by
    have hcases := halphanum
    simp only [Char.isAlphanum, Char.isAlpha, Char.isUpper, Char.isLower, Char.isDigit, Bool.or_eq_true,
      Bool.and_eq_true, decide_eq_true_eq, UInt32.le_iff_toNat_le] at hcases
    rcases hcases with (⟨-, hle⟩ | ⟨-, hle⟩) | ⟨-, hle⟩
    · exact hle.trans_lt (by decide)
    · exact hle.trans_lt (by decide)
    · exact hle.trans_lt (by decide)
  exact ⟨letter.toNat, hcode, (Char.ofNat_toNat letter).symm⟩

/-- A small letter is not marked and is the one of its capital letter; a marked character is the capital letter of its
small letter; no capital letter is a dash, and each small letter is a character of words. -/
theorem cases_of_isAlphanum {letter : Char} (halphanum : letter.isAlphanum = true) :
    (letter.isLower = true → isMarked letter = false ∧ letter.toUpper.toLower = letter) ∧
      (isMarked letter = true → letter.toLower.toUpper = letter) ∧ letter.toUpper ≠ '-' ∧
        isWordChar letter.toLower = true := by
  obtain ⟨code, hcode, rfl⟩ := exists_ofNat_of_isAlphanum halphanum
  have hall : ∀ code < 128, (Char.ofNat code).isAlphanum = true →
      ((Char.ofNat code).isLower = true →
          isMarked (Char.ofNat code) = false ∧ (Char.ofNat code).toUpper.toLower = Char.ofNat code) ∧
        (isMarked (Char.ofNat code) = true → (Char.ofNat code).toLower.toUpper = Char.ofNat code) ∧
          (Char.ofNat code).toUpper ≠ '-' ∧ isWordChar (Char.ofNat code).toLower = true := by
    decide +kernel
  exact hall code hcode halphanum

theorem isAlphanum_of_isLower {letter : Char} (hlower : letter.isLower = true) :
    letter.isAlphanum = true := by
  rw [Char.isAlphanum, Char.isAlpha, hlower, Bool.or_true, Bool.true_or]

theorem isMarked_of_isLower {letter : Char} (hlower : letter.isLower = true) : isMarked letter = false :=
  ((cases_of_isAlphanum (isAlphanum_of_isLower hlower)).1 hlower).1

/-- A small letter is the one of its capital letter. -/
theorem toLower_toUpper_of_isLower {letter : Char} (hlower : letter.isLower = true) :
    letter.toUpper.toLower = letter :=
  ((cases_of_isAlphanum (isAlphanum_of_isLower hlower)).1 hlower).2

theorem toUpper_ne_dash {letter : Char} (halphanum : letter.isAlphanum = true) : letter.toUpper ≠ '-' :=
  (cases_of_isAlphanum halphanum).2.2.1

theorem ne_dash_of_isAlphanum {letter : Char} (halphanum : letter.isAlphanum = true) : letter ≠ '-' := by
  rintro rfl
  cases halphanum

/-- A marked character is its own capital letter. -/
theorem toUpper_eq_of_isMarked {letter : Char} (hmarked : isMarked letter = true) : letter.toUpper = letter :=
  (of_decide_eq_true hmarked).symm

/-- A marked character is the capital letter of its small letter. -/
theorem toUpper_toLower_of_isMarked {letter : Char} (halphanum : letter.isAlphanum = true)
    (hmarked : isMarked letter = true) : letter.toLower.toUpper = letter :=
  (cases_of_isAlphanum halphanum).2.1 hmarked

theorem isWordChar_toLower {letter : Char} (halphanum : letter.isAlphanum = true) :
    isWordChar letter.toLower = true :=
  (cases_of_isAlphanum halphanum).2.2.2

/-! ### Dashes -/

variable {isGlobal : Bool} {replacement : Char → Str}

theorem replaceDashed_cons_of_ne {char : Char} (hchar : char ≠ '-') (rest : Str) :
    replaceDashed isGlobal replacement (char :: rest) = char :: replaceDashed isGlobal replacement rest := by
  cases rest with
  | nil => rfl
  | cons next rest => exact if_neg fun h ↦ hchar h.1

theorem replaceDashed_dash {next : Char} (hnext : isWordChar next = true) (rest : Str) :
    replaceDashed isGlobal replacement ('-' :: next :: rest) =
      replacement next ++ if isGlobal then replaceDashed isGlobal replacement rest else rest :=
  if_pos ⟨rfl, hnext⟩

/-- All dashes are taken out again. -/
theorem replaceDashed_true_flatMap {rest : Str} (hrest : ∀ letter ∈ rest, letter.isAlphanum = true) :
    replaceDashed true (fun letter ↦ [letter.toUpper]) (rest.flatMap kebabLetter) = rest := by
  induction rest with
  | nil => rfl
  | cons letter rest ih =>
    obtain ⟨hletter, hmore⟩ := List.forall_mem_cons.mp hrest
    rw [List.flatMap_cons, kebabLetter]
    by_cases hmarked : isMarked letter = true
    · rw [if_pos hmarked, List.cons_append, List.singleton_append,
        replaceDashed_dash (isWordChar_toLower hletter), if_pos rfl, ih hmore,
        toUpper_toLower_of_isMarked hletter hmarked]
      rfl
    · rw [if_neg hmarked, List.singleton_append, replaceDashed_cons_of_ne (ne_dash_of_isAlphanum hletter), ih hmore]

/-- The words of what follows, with a blank before each. -/
def titleLetter (letter : Char) : Str :=
  if isMarked letter then [' ', letter] else [letter]

/-- Without marked characters there is nothing to replace. -/
theorem flatMap_eq_self_of_unmarked {spell : Char → Str} (hspell : ∀ letter, isMarked letter = false →
    spell letter = [letter]) {rest : Str} (hrest : rest.countP isMarked = 0) : rest.flatMap spell = rest := by
  rw [List.countP_eq_zero] at hrest
  calc rest.flatMap spell = rest.flatMap fun letter ↦ [letter] :=
        List.flatMap_congr fun letter hletter ↦ hspell letter (Bool.eq_false_iff.mpr (hrest letter hletter))
    _ = rest := List.flatMap_singleton' rest

/-- In kebab case there is a dash for each marked character. -/
theorem dash_mem_flatMap_iff {rest : Str} (hrest : ∀ letter ∈ rest, letter.isAlphanum = true) :
    '-' ∈ rest.flatMap kebabLetter ↔ rest.countP isMarked ≠ 0 := by
  rw [Ne, List.countP_eq_zero, List.mem_flatMap]
  push Not
  refine exists_congr fun letter ↦ and_congr_right fun hletter ↦ ?_
  unfold kebabLetter
  by_cases hmarked : isMarked letter = true
  · simp [hmarked]
  · simp [hmarked, (ne_dash_of_isAlphanum (hrest letter hletter)).symm]

/-- If only the first dash is replaced, no dash is left exactly if there was not more than one, and then the words
have blanks between them. -/
theorem replaceDashed_false_flatMap {rest : Str} (hrest : ∀ letter ∈ rest, letter.isAlphanum = true) :
    ('-' ∉ replaceDashed false (fun letter ↦ [' ', letter.toUpper]) (rest.flatMap kebabLetter) ↔
        rest.countP isMarked ≤ 1) ∧
      (rest.countP isMarked ≤ 1 →
        replaceDashed false (fun letter ↦ [' ', letter.toUpper]) (rest.flatMap kebabLetter) =
          rest.flatMap titleLetter) := by
  induction rest with
  | nil => exact ⟨by simp [replaceDashed], fun _ ↦ rfl⟩
  | cons letter rest ih =>
    obtain ⟨hletter, hmore⟩ := List.forall_mem_cons.mp hrest
    rw [List.flatMap_cons, List.flatMap_cons, List.countP_cons, kebabLetter, titleLetter]
    by_cases hmarked : isMarked letter = true
    · rw [if_pos hmarked, if_pos hmarked, if_pos hmarked]
      have hreplace : replaceDashed false (fun letter ↦ [' ', letter.toUpper])
          ('-' :: letter.toLower :: rest.flatMap kebabLetter) = ' ' :: letter :: rest.flatMap kebabLetter := by
        rw [replaceDashed_dash (isWordChar_toLower hletter), if_neg Bool.false_ne_true,
          toUpper_toLower_of_isMarked hletter hmarked]
        rfl
      rw [List.cons_append, List.singleton_append, hreplace, List.mem_cons, List.mem_cons, dash_mem_flatMap_iff hmore]
      have hne := (ne_dash_of_isAlphanum hletter).symm
      have hblank : '-' ≠ ' ' := by decide
      refine ⟨by simp [hne, hblank], fun hcount ↦ ?_⟩
      have hnone : rest.countP isMarked = 0 := by omega
      rw [flatMap_eq_self_of_unmarked (fun _ h ↦ by simp [kebabLetter, h]) hnone,
        flatMap_eq_self_of_unmarked (fun _ h ↦ by simp [titleLetter, h]) hnone]
      rfl
    · rw [if_neg hmarked, if_neg hmarked, if_neg hmarked]
      rw [List.singleton_append, replaceDashed_cons_of_ne (ne_dash_of_isAlphanum hletter), List.mem_cons]
      obtain ⟨hdash, htitle⟩ := ih hmore
      refine ⟨?_, fun hcount ↦ congrArg _ (htitle hcount)⟩
      rw [not_or, and_iff_right (ne_dash_of_isAlphanum hletter).symm, Nat.add_zero]
      exact hdash

/-- The words of a title, one after the other. -/
theorem mapM_capitalize_wordsFrom (first : Char) (more rest : Str) :
    ∃ capitalized, (wordsFrom (first :: more) rest).mapM capitalize = some capitalized ∧ capitalized ≠ [] ∧
      List.intercalate [' '] capitalized = first.toUpper :: more ++ rest.flatMap titleLetter := by
  induction rest generalizing first more with
  | nil => exact ⟨[first.toUpper :: more], rfl, List.cons_ne_nil _ _, by simp⟩
  | cons letter rest ih =>
    rw [wordsFrom, List.flatMap_cons, titleLetter]
    by_cases hmarked : isMarked letter = true
    · obtain ⟨capitalized, hmap, hne, hjoin⟩ := ih letter []
      rw [if_pos hmarked, if_pos hmarked]
      refine ⟨(first.toUpper :: more) :: capitalized, ?_, List.cons_ne_nil _ _, ?_⟩
      · rw [List.mapM_cons, hmap]
        rfl
      · obtain ⟨word, others, rfl⟩ := List.exists_cons_of_ne_nil hne
        rw [List.intercalate_cons_cons, hjoin, toUpper_eq_of_isMarked hmarked]
        simp
    · obtain ⟨capitalized, hmap, hne, hjoin⟩ := ih first (more ++ [letter])
      rw [if_neg hmarked, if_neg hmarked]
      exact ⟨capitalized, hmap, hne, by simp [hjoin]⟩

/-! ### Identifiers -/

/-- An identifier in kebab case. -/
theorem toKebabFromCamel_eq {first : Char} (hfirst : first.isLower = true) (rest : Str) :
    toKebabFromCamel (first :: rest) = some (first :: rest.flatMap kebabLetter) := by
  have hunmarked : isMarked first = false := isMarked_of_isLower hfirst
  rw [toKebabFromCamel, if_neg (List.cons_ne_nil _ _), List.flatMap_cons, kebabLetter, hunmarked]
  rfl

/-- An identifier is converted to kebab case and back without loss. -/
theorem convertsBack_of_isIdentifier {text : Str} (htext : IsIdentifier text) : ConvertsBack text := by
  obtain ⟨first, rest, rfl, hfirst, hrest⟩ := htext
  have hpascal : toPascalFromKebab (first :: rest.flatMap kebabLetter) = some (first.toUpper :: rest) := by
    show some (replaceDashed true _ (first.toUpper :: rest.flatMap kebabLetter)) = _
    rw [replaceDashed_cons_of_ne (toUpper_ne_dash (isAlphanum_of_isLower hfirst)), replaceDashed_true_flatMap hrest]
  unfold ConvertsBack
  rw [toKebabFromCamel_eq hfirst]
  show (toPascalFromKebab (first :: rest.flatMap kebabLetter)).bind toCamelFromPascal = _
  rw [hpascal]
  show some (first.toUpper.toLower :: rest) = _
  rw [toLower_toUpper_of_isLower hfirst]

/-- An identifier is converted back, and to its words in a title, exactly if not more than one of its characters is
marked. -/
theorem converts_iff {text : Str} (htext : IsIdentifier text) :
    ConvertsBack text ∧ ConvertsToTitle text ↔ text.countP isMarked ≤ 1 := by
  rw [and_iff_right (convertsBack_of_isIdentifier htext)]
  obtain ⟨first, rest, rfl, hfirst, hrest⟩ := htext
  obtain ⟨hdash, htitle⟩ := replaceDashed_false_flatMap hrest
  obtain ⟨capitalized, hmap, -, hjoin⟩ := mapM_capitalize_wordsFrom first [] rest
  have hconverted : toTitleFromCamel (first :: rest) = some (first.toUpper ::
      replaceDashed false (fun letter ↦ [' ', letter.toUpper]) (rest.flatMap kebabLetter)) := by
    unfold toTitleFromCamel
    rw [toKebabFromCamel_eq hfirst]
    rfl
  have hwords : List.intercalate [' '] <$> (words (first :: rest)).mapM capitalize =
      some (first.toUpper :: rest.flatMap titleLetter) := by
    rw [words, hmap]
    exact congrArg some hjoin
  have hunmarked : isMarked first = false := isMarked_of_isLower hfirst
  rw [List.countP_cons_of_neg (by rw [hunmarked]; exact Bool.false_ne_true)]
  unfold ConvertsToTitle
  rw [hconverted, hwords]
  constructor
  · rintro ⟨title, htitleEq, -, hnone⟩
    obtain rfl := Option.some.inj htitleEq
    exact hdash.mp fun hmem ↦ hnone (List.mem_cons_of_mem _ hmem)
  · intro hcount
    refine ⟨_, rfl, by rw [htitle hcount], ?_⟩
    rw [List.mem_cons, not_or]
    exact ⟨(toUpper_ne_dash (isAlphanum_of_isLower hfirst)).symm, hdash.mpr hcount⟩

theorem isIdentifier_noDocs : IsIdentifier "noDocs".toList :=
  ⟨'n', "oDocs".toList, rfl, rfl, by decide +kernel⟩

/-- Of two words. -/
theorem converts_iff_noDocs :
    ConvertsBack "noDocs".toList ∧ ConvertsToTitle "noDocs".toList ↔ "noDocs".toList.countP isMarked ≤ 1 :=
  converts_iff isIdentifier_noDocs

/-- Of three words, the second dash is left: the title of `aBC` is `A B-c`. -/
theorem not_converts_threeWords :
    ¬ ∀ text : Str, IsIdentifier text → ConvertsBack text ∧ ConvertsToTitle text := by
  intro hall
  obtain ⟨-, title, htitle, -, hdash⟩ := hall "aBC".toList ⟨'a', "BC".toList, rfl, rfl, by decide +kernel⟩
  obtain rfl : "A B-c".toList = title := Option.some.inj htitle
  exact hdash (by decide)

end Playground.PgCommon
