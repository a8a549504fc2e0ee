import Playground.Terminal.LineEditing

/-!
# Completion

What TAB does to the input (`client/src/utils/pg/terminal/shell.ts`, `shell-utils.ts`). The candidates are
the entries of the history and the names of the commands that begin with the text before the cursor. A
single candidate becomes the input, of some candidates the text that they have in common does, and of too
many candidates or none at all the input is left alone, but for a blank. `pressTab_completes` states what
the candidates are and what the input and the cursor are afterwards.

The tokens of `shell-quote` are a parameter: both handlers ignore them. Not formalized here: what is
printed, which for the list of the candidates is in `WidePrinting`, and the answer that is asked for
before too many candidates are printed.
-/

set_option autoImplicit false
set_option relaxedAutoImplicit false

namespace Playground.Terminal

open Library

/-! ### Common prefixes -/

section Common

variable {α : Type*}

/-- The longest text that all entries begin with. -/
structure IsLongestCommonPrefix (entries : List (List α)) (text : List α) : Prop where
  common : ∀ entry ∈ entries, text <+: entry
  longest : ∀ other : List α, (∀ entry ∈ entries, other <+: entry) → other <+: text

/-- The longest text that an only entry begins with is the entry. -/
theorem isLongestCommonPrefix_singleton (entry : List α) : IsLongestCommonPrefix [entry] entry where
  common := fun other hother ↦ by rw [List.mem_singleton.mp hother]
  longest := fun _ hother ↦ hother entry List.mem_cons_self

/-- The order of the entries and how often they occur make no difference. -/
theorem IsLongestCommonPrefix.congr {entries others : List (List α)} {text : List α}
    (hlongest : IsLongestCommonPrefix entries text)
    (hsame : ∀ entry, entry ∈ others ↔ entry ∈ entries) : IsLongestCommonPrefix others text where
  common := fun entry hentry ↦ hlongest.common entry ((hsame entry).mp hentry)
  longest := fun other hother ↦
    hlongest.longest other fun entry hentry ↦ hother entry ((hsame entry).mpr hentry)

end Common

/-! ### `shell-utils.ts` -/

/-- A character before which `$` matches in a regular expression with the flag `m`. -/
def isLineTerminator (unit : CodeUnit) : Bool :=
  unit = 0x0A || unit = 0x0D || unit = 0x2028 || unit = 0x2029

/-- `hasTrailingWhitespace`: a match of a character other than a backslash, a blank or a tab, and the end
of a line. -/
def hasTrailingWhitespace : Units → Bool
  | first :: second :: rest =>
    (first ≠ 0x5C && (second = 0x20 || second = 0x09) && rest.head?.all isLineTerminator) ||
      hasTrailingWhitespace (second :: rest)
  | _ => false

/-- `AutoCompleteHandler`, of the tokens and the index of the token to be completed; `none` stands for an
exception. -/
abbrev AutoCompleteHandler (Token : Type) := List Token → ℤ → Option (List Units)

/-- `collectAutocompleteCandidates`. -/
def collectAutocompleteCandidates {Token : Type} (parse : Units → List Token)
    (cbs : List (AutoCompleteHandler Token)) (input : Units) : List Units :=
  let tokens := parse input
  let last : ℤ := tokens.length - 1
  let index :=
    if trimUnits input = [] then 0 else if hasTrailingWhitespace input then last + 1 else last
  let collected := cbs.foldl (fun acc cb ↦
    match cb tokens index with
    | some candidates => acc ++ candidates
    | none => acc) []
  distinct (collected.filter fun text ↦ input <+: text)

/-! ### `PgShell` -/

/-- `maxAutocompleteEntries`. -/
def maxAutocompleteEntries : ℕ := 100

/-- `_autocompleteHandlers`, for the names of the commands. -/
def autocompleteHandlers {Token : Type} (history : History) (names : List Units) :
    List (AutoCompleteHandler Token) :=
  [fun _ _ ↦ some history.entries, fun _ _ ↦ some names]

/-- The loop for `commonCandidate`, over the characters of the first candidate. -/
def commonCandidate (candidates : List Units) : ℕ → Units → Units
  | _, [] => []
  | index, char :: rest =>
    if candidates.all fun cand ↦ cand[index]? = some char then
      char :: commonCandidate candidates (index + 1) rest
    else []

/-- `PgShell.printAndRestartPrompt`. -/
def printAndRestartPrompt (tty : Tty) : Tty :=
  let completed := tty.setCursor tty.input.length
  (completed.setCursor completed.cursor).setInput completed.input

/-- The candidates that TAB finds, sorted. -/
def Shell.candidates {Token : Type} (parse : Units → List Token) (shell : Shell)
    (names : List Units) : List Units :=
  (collectAutocompleteCandidates parse (autocompleteHandlers shell.history names)
    (substring shell.tty.input 0 shell.tty.cursor)).mergeSort fun first second ↦ decide (first ≤ second)

/-- The branch of `_handleData` for TAB. -/
def Shell.pressTab {Token : Type} (parse : Units → List Token) (shell : Shell) (names : List Units) :
    Tty :=
  let tty := shell.tty
  match shell.candidates parse names with
  | [] =>
    if hasTrailingWhitespace (substring tty.input 0 tty.cursor) then tty
    else handleCursorInsert tty [0x20]
  | [candidate] => (tty.setInput candidate).setCursor candidate.length
  | candidate :: candidates =>
    if (candidate :: candidates).length ≤ maxAutocompleteEntries then
      let common := commonCandidate (candidate :: candidates) 0 candidate
      if tty.input = common then printAndRestartPrompt tty
      else (tty.setInput common).setCursor common.length
    else printAndRestartPrompt tty

/-! ### The candidates -/

section Candidates

variable {Token : Type} (parse : Units → List Token)

/-- The candidates begin with the text that is completed, and are all that do. -/
theorem mem_collectAutocompleteCandidates (history : History) (names : List Units) (input : Units)
    (entry : Units) :
    entry ∈ collectAutocompleteCandidates parse (autocompleteHandlers history names) input ↔
      (entry ∈ history.entries ∨ entry ∈ names) ∧ input <+: entry := by
  rw [collectAutocompleteCandidates, mem_distinct, List.mem_filter, decide_eq_true_iff]
  simp [autocompleteHandlers]

theorem nodup_collectAutocompleteCandidates (cbs : List (AutoCompleteHandler Token)) (input : Units) :
    (collectAutocompleteCandidates parse cbs input).Nodup :=
  nodup_distinct _

end Candidates

/-- The loop for the common text finds the longest one, if the entries have a text in common so far. -/
theorem isLongestCommonPrefix_commonCandidate {candidates : List Units} (rest : Units) :
    ∀ before : Units, before ++ rest ∈ candidates → (∀ cand ∈ candidates, before <+: cand) →
      IsLongestCommonPrefix candidates
        (before ++ commonCandidate candidates before.length rest) := by
  induction rest with
  | nil =>
    intro before hfirst hcommon
    rw [commonCandidate, List.append_nil]
    rw [List.append_nil] at hfirst
    exact ⟨hcommon, fun other hother ↦ hother before hfirst⟩
  | cons char rest ih =>
    intro before hfirst hcommon
    rw [commonCandidate]
    by_cases hall : candidates.all fun cand ↦ cand[before.length]? = some char
    · rw [if_pos hall]
      have hnext : ∀ cand ∈ candidates, before ++ [char] <+: cand := by
        intro cand hcand
        obtain ⟨more, rfl⟩ := hcommon cand hcand
        have hchar := of_decide_eq_true (List.all_eq_true.mp hall _ hcand)
        rw [List.getElem?_append_right le_rfl, Nat.sub_self] at hchar
        cases more with
        | nil => cases hchar
        | cons first more =>
          rw [List.getElem?_cons_zero, Option.some.injEq] at hchar
          exact ⟨more, by rw [hchar, List.append_assoc]; rfl⟩
      have hlongest := ih (before ++ [char]) (by rwa [List.append_assoc]) hnext
      rwa [List.length_append, List.length_singleton, List.append_assoc] at hlongest
    · rw [if_neg hall, List.append_nil]
      refine ⟨hcommon, fun other hother ↦ ?_⟩
      have hprefix := hother _ hfirst
      rcases Nat.lt_or_ge before.length other.length with hlong | hshort
      · -- the common text would go on with the character on which the entries differ
        refine absurd (List.all_eq_true.mpr fun cand hcand ↦ decide_eq_true ?_) hall
        have hfirstChar := List.prefix_iff_getElem?.mp hprefix before.length hlong
        rw [List.getElem?_append_right le_rfl, Nat.sub_self, List.getElem?_cons_zero] at hfirstChar
        rw [List.prefix_iff_getElem?.mp (hother cand hcand) before.length hlong, hfirstChar]
      · exact List.prefix_of_prefix_length_le hprefix (List.prefix_append _ _) hshort

/-! ### The key -/

/-- The input is set, with the cursor at its end. -/
theorem setInput_setCursor_length (tty : Tty) (input : Units) :
    (tty.setInput input).setCursor input.length = ⟨input, input.length⟩ := by
  have hline := setCursor_setInput tty ⟨input, []⟩
  simpa [Line.text, Line.position, ttyOf] using hline

/-- The prompt is restarted with the same input, and the cursor at its end. -/
theorem printAndRestartPrompt_eq (tty : Tty) :
    printAndRestartPrompt tty = ⟨tty.input, tty.input.length⟩ := by
  have hnot : ¬ (tty.input.length : ℤ) < 0 := by omega
  simp [printAndRestartPrompt, Tty.setCursor, Tty.setCursorDirectly, Tty.setInput, hnot]

section Key

variable {Token : Type} (parse : Units → List Token)

/-- The candidates are without duplicates those entries that begin with the text before the cursor. -/
theorem mem_candidates (line : Line CodeUnit) (history : History) (names : List Units) (entry : Units) :
    entry ∈ Shell.candidates parse ⟨ttyOf line, history⟩ names ↔
      (entry ∈ history.entries ∨ entry ∈ names) ∧ line.before <+: entry := by
  rw [Shell.candidates, List.mem_mergeSort, mem_collectAutocompleteCandidates, substring_cursor]

theorem nodup_candidates (shell : Shell) (names : List Units) :
    (shell.candidates parse names).Nodup :=
  (List.mergeSort_perm _ _).nodup_iff.mpr (nodup_collectAutocompleteCandidates parse _ _)

/-- With some candidates, but not too many, their longest common text becomes the input. -/
theorem pressTab_of_candidates {shell : Shell} {names : List Units} {candidates : List Units}
    (hcandidates : shell.candidates parse names = candidates) (hsome : 1 ≤ candidates.length)
    (hmax : candidates.length ≤ maxAutocompleteEntries) :
    IsLongestCommonPrefix candidates (shell.pressTab parse names).input ∧
      (shell.pressTab parse names).cursor = (shell.pressTab parse names).input.length := by
  rw [Shell.pressTab, hcandidates]
  match candidates, hsome with
  | [candidate], _ =>
    dsimp only
    rw [setInput_setCursor_length]
    exact ⟨isLongestCommonPrefix_singleton candidate, rfl⟩
  | candidate :: second :: rest, _ =>
    have hlongest := @isLongestCommonPrefix_commonCandidate (candidate :: second :: rest) candidate []
      List.mem_cons_self fun cand _ ↦ List.nil_prefix
    rw [List.nil_append, List.length_nil] at hlongest
    dsimp only
    rw [if_pos hmax]
    split
    · next hsame =>
      rw [printAndRestartPrompt_eq]
      exact ⟨by rwa [← hsame] at hlongest, rfl⟩
    · rw [setInput_setCursor_length]
      exact ⟨hlongest, rfl⟩

/-- With too many candidates the input stays. -/
theorem pressTab_of_max_lt {shell : Shell} {names : List Units}
    (hmax : maxAutocompleteEntries < (shell.candidates parse names).length) :
    (shell.pressTab parse names).input = shell.tty.input := by
  cases hcandidates : shell.candidates parse names with
  | nil =>
    rw [hcandidates] at hmax
    exact absurd hmax (by decide)
  | cons candidate rest =>
    rw [hcandidates] at hmax
    cases rest with
    | nil => exact absurd hmax (by simp [maxAutocompleteEntries])
    | cons second rest =>
      rw [Shell.pressTab, hcandidates]
      dsimp only
      rw [if_neg (by omega), printAndRestartPrompt_eq]

/-- TAB collects without duplicates the entries that begin with the text before the cursor. With one or
some of them, but not too many, the longest text that they have in common becomes the input, which begins
with the text before the cursor, and the cursor goes to its end; with too many the text is left alone,
and with none too, but for a blank at the cursor. -/
theorem pressTab_completes (line : Line CodeUnit) (history : History) (names : List Units) :
    let shell : Shell := ⟨ttyOf line, history⟩
    let candidates := shell.candidates parse names
    let tty := shell.pressTab parse names
    (candidates.Nodup ∧ ∀ entry, entry ∈ candidates ↔
        (entry ∈ history.entries ∨ entry ∈ names) ∧ line.before <+: entry) ∧
      (1 ≤ candidates.length ∧ candidates.length ≤ maxAutocompleteEntries →
        IsLongestCommonPrefix candidates tty.input ∧ line.before <+: tty.input ∧
          tty.cursor = tty.input.length) ∧
      (maxAutocompleteEntries < candidates.length → tty.input = line.text) ∧
      (candidates = [] → tty = ttyOf line ∨ tty = ttyOf (line.insert [0x20])) := by
  intro shell candidates tty
  have hmem := mem_candidates parse line history names
  refine ⟨⟨nodup_candidates parse shell names, hmem⟩, ?_, pressTab_of_max_lt parse, ?_⟩
  · rintro ⟨hsome, hmax⟩
    obtain ⟨hlongest, hcursor⟩ := pressTab_of_candidates parse rfl hsome hmax
    refine ⟨hlongest, ?_, hcursor⟩
    exact hlongest.longest line.before fun entry hentry ↦ ((hmem entry).mp hentry).2
  · intro hnone
    have htab : tty = if hasTrailingWhitespace (substring (ttyOf line).input 0 (ttyOf line).cursor) then
        ttyOf line else handleCursorInsert (ttyOf line) [0x20] := by
      have hnil : shell.candidates parse names = [] := hnone
      change Shell.pressTab parse shell names = _
      rw [Shell.pressTab, hnil]
    rw [htab]
    split
    · exact .inl rfl
    · exact .inr (handleCursorInsert_ttyOf line [0x20])

end Key

end Playground.Terminal
