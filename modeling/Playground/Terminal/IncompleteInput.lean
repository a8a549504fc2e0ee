import Mathlib.Data.List.Induction
import Playground.Terminal.LineEditing

/-!
# Incomplete inputs

`isIncompleteInput` (`client/src/utils/pg/terminal/shell-utils.ts`) decides whether Enter goes on with
the input on a new line. It counts the quotes of each kind, looks at the text after the last operator, and
at the last two characters. What an incomplete input is, is said by a lexer (`Lexed`): a quote inside the
other kind of quotes or after a backslash is skipped, and an operator is one outside quotations only.

The tests of the code go wrong in known ways. A quote that is skipped is counted, an operator that is
skipped is found, and three backslashes at the end are taken for an even number. `isIncompleteInput_iff`
states of which inputs the outcome is right all the same.
-/

set_option autoImplicit false
set_option relaxedAutoImplicit false

namespace Playground.Terminal

open Library

/-! ### Quoting -/

/-- What has been read of an input: the quotation that is open, whether the next character is escaped,
whether an ampersand has just been read that may be the first one of `&&`, whether nothing but blanks has
come after an operator, and the characters that have been skipped. -/
structure Lexed where
  quote : Option CodeUnit
  escaped : Bool
  ampersand : Bool
  dangling : Bool
  skipped : Units

/-- Before anything has been read. -/
def Lexed.start : Lexed :=
  ⟨none, false, false, false, []⟩

/-- A single or a double quote. -/
def isQuote (unit : CodeUnit) : Bool :=
  unit = 0x27 || unit = 0x22

/-- A character that has no meaning where it stands. -/
def Lexed.skip (lexed : Lexed) (unit : CodeUnit) : Lexed :=
  ⟨lexed.quote, false, false, false, lexed.skipped ++ [unit]⟩

/-- A character outside quotations that is no backslash. -/
def Lexed.readPlain (lexed : Lexed) (unit : CodeUnit) : Lexed :=
  if isQuote unit then ⟨some unit, false, false, false, lexed.skipped⟩
  else if unit = 0x7C then ⟨none, false, false, true, lexed.skipped⟩
  else if unit = 0x26 then ⟨none, false, !lexed.ampersand, lexed.ampersand, lexed.skipped⟩
  else ⟨none, false, false, lexed.dangling && isSpaceChar (toChar unit), lexed.skipped⟩

/-- One more character. -/
def Lexed.next (lexed : Lexed) (unit : CodeUnit) : Lexed :=
  if lexed.escaped then lexed.skip unit
  else if unit = 0x5C then ⟨lexed.quote, true, false, false, lexed.skipped⟩
  else
    match lexed.quote with
    | some quote =>
      if unit = quote then ⟨none, false, false, false, lexed.skipped⟩ else lexed.skip unit
    | none => lexed.readPlain unit

/-- What has been read of an input at its end. -/
def lex (input : Units) : Lexed :=
  input.foldl Lexed.next .start

/-- The number of backslashes at the end of an input. -/
def trailingBackslashes (input : Units) : ℕ :=
  (input.reverse.takeWhile fun unit ↦ unit = 0x5C).length

/-- An input is incomplete if a quotation has not been terminated, if it ends with an unescaped backslash,
or with an operator outside quotations. -/
def IsIncomplete (input : Units) : Prop :=
  (lex input).quote ≠ none ∨ trailingBackslashes input % 2 = 1 ∨ (lex input).dangling = true

theorem lex_concat (front : Units) (unit : CodeUnit) :
    lex (front ++ [unit]) = (lex front).next unit := by
  simp [lex, List.foldl_append]

/-- A quotation is single or double. -/
theorem isQuote_of_quote {input : Units} {quote : CodeUnit} (hquote : (lex input).quote = some quote) :
    isQuote quote = true := by
  induction input using List.reverseRecOn generalizing quote with
  | nil => cases hquote
  | append_singleton front unit ih =>
    rw [lex_concat, Lexed.next] at hquote
    split at hquote
    · exact ih hquote
    · split at hquote
      · exact ih hquote
      · split at hquote
        · next hopen =>
          split at hquote
          · cases hquote
          · exact ih hquote
        · rw [Lexed.readPlain] at hquote
          split at hquote
          · next hunit =>
            rwa [← Option.some.inj hquote]
          · split at hquote
            · cases hquote
            · split at hquote
              · cases hquote
              · cases hquote

/-- What a quote of a kind adds to the count of those that are skipped and the open one. -/
def Lexed.quotes (lexed : Lexed) (quote : CodeUnit) : ℕ :=
  lexed.skipped.count quote + if lexed.quote = some quote then 1 else 0

/-- One more character outside quotations. -/
theorem quotes_readPlain {lexed : Lexed} (hopen : lexed.quote = none) {quote : CodeUnit}
    (hquote : isQuote quote = true) (unit : CodeUnit) :
    (lexed.readPlain unit).quotes quote =
      lexed.quotes quote + if unit = quote then 1 else 0 := by
  unfold Lexed.readPlain
  by_cases hunit : isQuote unit
  · rw [if_pos hunit]
    simp [Lexed.quotes, hopen]
  · have hne : unit ≠ quote := fun heq ↦ hunit (heq ▸ hquote)
    rw [if_neg hunit, if_neg hne]
    split
    · simp [Lexed.quotes, hopen]
    · split
      · simp [Lexed.quotes, hopen]
      · simp [Lexed.quotes, hopen]

theorem quotes_skip (lexed : Lexed) (quote unit : CodeUnit) :
    (lexed.skip unit).quotes quote = lexed.quotes quote + if unit = quote then 1 else 0 := by
  unfold Lexed.quotes Lexed.skip
  rw [List.count_append, List.count_singleton, beq_eq_decide]
  by_cases hunit : unit = quote
  · simp [hunit, Nat.add_right_comm]
  · simp [hunit]

/-- One more character. -/
theorem quotes_next (lexed : Lexed) {quote : CodeUnit} (hquote : isQuote quote = true)
    (unit : CodeUnit) :
    (lexed.next unit).quotes quote % 2 =
      (lexed.quotes quote + if unit = quote then 1 else 0) % 2 := by
  unfold Lexed.next
  split
  · rw [quotes_skip]
  · split
    · next hunit =>
      have hne : unit ≠ quote := by
        rintro rfl
        rw [hunit] at hquote
        exact absurd hquote (by decide)
      rw [if_neg hne]
      rfl
    · split
      · next open_ hopen =>
        split
        · next hunit =>
          -- the closing quote has been counted when it was the open one
          simp only [Lexed.quotes, hopen, hunit, Option.some.injEq, reduceCtorEq, if_false]
          split
          · omega
          · rfl
        · rw [quotes_skip]
      · next hopen => rw [quotes_readPlain hopen hquote]

/-- The quotes of a kind are counted with those that are skipped. -/
theorem count_quote (input : Units) {quote : CodeUnit} (hquote : isQuote quote = true) :
    input.count quote % 2 = (lex input).quotes quote % 2 := by
  induction input using List.reverseRecOn with
  | nil => rfl
  | append_singleton front unit ih =>
    rw [lex_concat, quotes_next _ hquote, List.count_append, List.count_singleton, beq_eq_decide]
    by_cases hunit : unit = quote
    · simp only [hunit, decide_true, if_true]
      omega
    · simp only [hunit, decide_false, Bool.false_eq_true, if_false]
      exact ih

/-! ### The tests -/

/-- An odd number of quotes of a kind is skipped. -/
def SkipsOdd (input : Units) (quote : CodeUnit) : Prop :=
  (lex input).skipped.count quote % 2 = 1

/-- The text after the last operator, wherever it is, is blank. -/
def EndsBlank (input : Units) : Prop :=
  trimUnits (lastPart [] input) = []

/-- The other kind of quotes. -/
def otherQuote (quote : CodeUnit) : CodeUnit :=
  if quote = 0x27 then 0x22 else 0x27

/-- The test of the last two characters looks for one backslash. -/
theorem endsWith_backslash_iff (input : Units) :
    ([0x5C] <:+ input ∧ ¬ [0x5C, 0x5C] <:+ input) ↔ trailingBackslashes input = 1 := by
  have hone : [0x5C] <:+ input ↔ [0x5C] <+: input.reverse := by
    rw [← List.reverse_prefix, List.reverse_singleton]
  have htwo : [0x5C, 0x5C] <:+ input ↔ [0x5C, 0x5C] <+: input.reverse := by
    rw [← List.reverse_prefix]
    rfl
  rw [hone, htwo, trailingBackslashes]
  cases input.reverse with
  | nil => simp
  | cons last rest =>
    rw [List.cons_prefix_cons, List.cons_prefix_cons]
    by_cases hlast : last = 0x5C
    · rw [hlast, List.takeWhile_cons_of_pos (by simp), List.length_cons]
      cases rest with
      | nil => simp
      | cons before rest =>
        rw [List.cons_prefix_cons]
        by_cases hbefore : before = 0x5C
        · simp [hbefore]
        · simp [hbefore, Ne.symm hbefore]
    · simp [hlast, Ne.symm hlast]

/-- The tests of the code on an input that is not blank. -/
theorem isIncompleteInput_eq_true {input : Units} (hblank : trimUnits input ≠ []) :
    isIncompleteInput input = true ↔
      input.count 0x27 % 2 = 1 ∨ input.count 0x22 % 2 = 1 ∨ EndsBlank input ∨
        trailingBackslashes input = 1 := by
  have hodd : ∀ count : ℕ, count % 2 ≠ 0 ↔ count % 2 = 1 := fun count ↦ by omega
  unfold isIncompleteInput
  rw [if_neg hblank, ← endsWith_backslash_iff, ← hodd, ← hodd, EndsBlank]
  split
  · next hsingle => simp [hsingle]
  · next hsingle =>
    split
    · next hdouble => simp [hdouble]
    · next hdouble =>
      split
      · next hpart => simp [hpart]
      · next hpart =>
        split
        · next hslash => exact iff_of_true rfl (.inr (.inr (.inr hslash)))
        · next hslash =>
          refine iff_of_false Bool.false_ne_true ?_
          rintro (h | h | h | h)
          · exact hsingle h
          · exact hdouble h
          · exact hpart h
          · exact hslash h

/-- The count of the quotes of a kind is odd if an odd number of them is skipped, or one is open, but not
both. -/
theorem count_quote_odd (input : Units) {quote : CodeUnit} (hquote : isQuote quote = true) :
    input.count quote % 2 = 1 ↔
      (SkipsOdd input quote ↔ (lex input).quote ≠ some quote) := by
  rw [count_quote input hquote, Lexed.quotes, SkipsOdd]
  by_cases hopen : (lex input).quote = some quote
  · simp only [hopen, if_true, ne_eq, not_true, iff_false]
    omega
  · simp only [hopen, if_false, ne_eq, not_false_iff, iff_true, Nat.add_zero]

/-- The tests come to the right outcome. Where a quotation is open, its own quotes are counted odd or
another test succeeds; where the input is incomplete for another reason, its only backslash or the blank
text after an operator is found, or an odd number of quotes is skipped; and where the input is complete,
no test is misled. -/
structure TestsSuffice (input : Units) : Prop where
  opened : ∀ quote, (lex input).quote = some quote →
    ¬ SkipsOdd input quote ∨ SkipsOdd input (otherQuote quote) ∨ EndsBlank input ∨
      trailingBackslashes input = 1
  ended : (lex input).quote = none →
    trailingBackslashes input % 2 = 1 ∨ (lex input).dangling = true →
      trailingBackslashes input = 1 ∨ SkipsOdd input 0x27 ∨ SkipsOdd input 0x22 ∨ EndsBlank input
  complete : ¬ IsIncomplete input →
    ¬ SkipsOdd input 0x27 ∧ ¬ SkipsOdd input 0x22 ∧ ¬ EndsBlank input

/-- The outcome for an input that is not blank is right if and only if the tests suffice. -/
theorem isIncompleteInput_iff {input : Units} (hblank : trimUnits input ≠ []) :
    (isIncompleteInput input = true ↔ IsIncomplete input) ↔ TestsSuffice input := by
  have hsingle := count_quote_odd input (show isQuote 0x27 = true from rfl)
  have hdouble := count_quote_odd input (show isQuote 0x22 = true from rfl)
  rw [isIncompleteInput_eq_true hblank, hsingle, hdouble]
  cases hquote : (lex input).quote with
  | none =>
    have hincomplete : IsIncomplete input ↔
        trailingBackslashes input % 2 = 1 ∨ (lex input).dangling = true := by
      simp [IsIncomplete, hquote]
    have hone : trailingBackslashes input = 1 → IsIncomplete input := by
      intro hcount
      exact hincomplete.mpr (.inl (by rw [hcount]))
    simp only [ne_eq, reduceCtorEq, not_false_eq_true, iff_true]
    constructor
    · intro hright
      refine ⟨fun quote hopen ↦ ?_, fun _ hended ↦ ?_, fun hcomplete ↦ ?_⟩
      · rw [hquote] at hopen
        cases hopen
      · rcases hright.mpr (hincomplete.mpr hended) with h | h | h | h
        · exact .inr (.inl h)
        · exact .inr (.inr (.inl h))
        · exact .inr (.inr (.inr h))
        · exact .inl h
      · exact ⟨fun h ↦ hcomplete (hright.mp (.inl h)), fun h ↦ hcomplete (hright.mp (.inr (.inl h))),
          fun h ↦ hcomplete (hright.mp (.inr (.inr (.inl h))))⟩
    · intro hsuffice
      constructor
      · intro htests
        by_contra hcomplete
        obtain ⟨hfirst, hsecond, hblankEnd⟩ := hsuffice.complete hcomplete
        rcases htests with h | h | h | h
        · exact hfirst h
        · exact hsecond h
        · exact hblankEnd h
        · exact hcomplete (hone h)
      · intro hinput
        rcases hsuffice.ended hquote (hincomplete.mp hinput) with h | h | h | h
        · exact .inr (.inr (.inr h))
        · exact .inl h
        · exact .inr (.inl h)
        · exact .inr (.inr (.inl h))
  | some quote =>
    have hincomplete : IsIncomplete input := .inl (by rw [hquote]; exact Option.some_ne_none _)
    have hsuffice : TestsSuffice input ↔
        ¬ SkipsOdd input quote ∨ SkipsOdd input (otherQuote quote) ∨ EndsBlank input ∨
          trailingBackslashes input = 1 := by
      constructor
      · exact fun htests ↦ htests.opened quote hquote
      · intro hopened
        refine ⟨fun other hother ↦ ?_, fun hnone ↦ ?_, fun hcomplete ↦ absurd hincomplete hcomplete⟩
        · rw [hquote] at hother
          rwa [← Option.some.inj hother]
        · rw [hquote] at hnone
          cases hnone
    rw [hsuffice, iff_true_right hincomplete]
    have hkind := isQuote_of_quote hquote
    rw [isQuote, Bool.or_eq_true, decide_eq_true_iff, decide_eq_true_iff] at hkind
    rcases hkind with rfl | rfl
    · have hother : otherQuote 0x27 = 0x22 := rfl
      have hne : (some 0x27 : Option CodeUnit) ≠ some 0x22 := by decide
      simp only [hother, ne_eq, not_true_eq_false, iff_false, hne, not_false_eq_true, iff_true]
    · have hother : otherQuote 0x22 = 0x27 := rfl
      have hne : (some 0x22 : Option CodeUnit) ≠ some 0x27 := by decide
      simp only [hother, ne_eq, not_true_eq_false, iff_false, hne, not_false_eq_true, iff_true]
      rw [or_left_comm]

/-- A command with an open quotation is incomplete, and taken for it. -/
theorem isIncompleteInput_iff_open_quotation :
    IsIncomplete (units "echo 'a b") ∧
      (isIncompleteInput (units "echo 'a b") = true ↔ IsIncomplete (units "echo 'a b")) := by
  have hquote : (lex (units "echo 'a b")).quote = some 0x27 := by decide
  have hincomplete : IsIncomplete (units "echo 'a b") := .inl (by rw [hquote]; exact nofun)
  refine ⟨hincomplete, (isIncompleteInput_iff (by decide)).mpr
    ⟨fun quote hopen ↦ .inl ?_, fun hnone ↦ ?_, fun hcomplete ↦ absurd hincomplete hcomplete⟩⟩
  · obtain rfl := Option.some.inj (hquote.symm.trans hopen)
    unfold SkipsOdd
    decide
  · rw [hquote] at hnone
    cases hnone

/-- An apostrophe in double quotes is taken for an open quotation. -/
theorem not_isIncompleteInput_apostrophe :
    ¬ (isIncompleteInput (units "echo \"it's\"") = true ↔
      IsIncomplete (units "echo \"it's\"")) := by
  intro hright
  have hincomplete : IsIncomplete (units "echo \"it's\"") := hright.mp (by decide)
  rcases hincomplete with hquote | hslash | hdangling
  · exact hquote (by decide)
  · exact absurd hslash (by decide)
  · exact absurd hdangling (by decide)

end Playground.Terminal
