import Playground.Client.Imports

/-!
# What is in front of an imported path

The texts that the expression of `_getImports` matches in front of a path are `FrontText`, and the first quote
behind one of them begins the path. None of them ends with another one behind a blank
(`not_frontText_append`), which their words show. So no match begins in a line in front of a statement and ends
in the statement (`stays_of_endsLine`).
-/

set_option autoImplicit false
set_option relaxedAutoImplicit false

namespace Playground.Client

open Library Regex

/-! ### What is in front of a path -/

/-- The texts that a clause may match. -/
inductive ClauseText : Str → Prop
  | all {blanksBefore blanksBehind name : Str} (hbefore : HasBlank blanksBefore)
      (hbehind : HasBlank blanksBehind) (hname : IsWord name) :
      ClauseText ('*' :: blanksBefore ++ "as".toList ++ blanksBehind ++ name)
  | braces {inner : Str} (hinner : ∀ char ∈ inner, isInBraces char = true) :
      ClauseText ('{' :: inner ++ ['}'])
  | default {name : Str} (hname : IsWord name) : ClauseText name

/-- The texts that are in front of a path. -/
inductive FrontText : Str → Prop
  | bare {blanks : Str} (hblanks : HasBlank blanks) : FrontText ("import".toList ++ blanks)
  | clause {blanks clause blanksBefore blanksBehind : Str} (hblanks : HasBlank blanks)
      (hclause : ClauseText clause) (hbefore : HasBlank blanksBefore) (hbehind : HasBlank blanksBehind) :
      FrontText ("import".toList ++ blanks ++
        (clause ++ blanksBefore ++ "from".toList ++ blanksBehind))

/-- What may be in braces is no quote. -/
theorem isQuote_of_isInBraces {char : Char} (hchar : isInBraces char = true) : isQuote char = false := by
  refine Bool.eq_false_iff.mpr fun hquote ↦ ?_
  rw [isInBraces_of_isQuote hquote] at hchar
  cases hchar

/-- Blanks have no quotes. -/
theorem HasBlank.isQuote {blanks : Str} (hblanks : HasBlank blanks) :
    ∀ char ∈ blanks, isQuote char = false :=
  fun char hchar ↦ isQuote_of_isInBraces (isInBraces_of_or (.inl (hblanks.2 char hchar)))

/-- Words have no quotes. -/
theorem IsWord.isQuote {name : Str} (hname : IsWord name) : ∀ char ∈ name, isQuote char = false :=
  fun char hchar ↦ isQuote_of_isInBraces (isInBraces_of_or (.inr (.inl (hname.2 char hchar))))

/-- A clause has no quotes. -/
theorem ClauseText.isQuote {clause : Str} (hclause : ClauseText clause) :
    ∀ char ∈ clause, isQuote char = false := by
  cases hclause with
  | all hbefore hbehind hname =>
    simp only [List.cons_append, List.forall_mem_cons, List.forall_mem_append]
    exact ⟨by decide, ⟨⟨hbefore.isQuote, by decide⟩, hbehind.isQuote⟩, hname.isQuote⟩
  | braces hinner =>
    simp only [List.cons_append, List.forall_mem_cons, List.forall_mem_append]
    exact ⟨by decide, fun char hchar ↦ isQuote_of_isInBraces (hinner char hchar), by decide⟩
  | default hname => exact hname.isQuote

/-- There are no quotes in front of a path. -/
theorem FrontText.isQuote {front : Str} (hfront : FrontText front) :
    ∀ char ∈ front, isQuote char = false := by
  cases hfront with
  | bare hblanks =>
    rw [List.forall_mem_append]
    exact ⟨by decide, hblanks.isQuote⟩
  | clause hblanks hclause hbefore hbehind =>
    simp only [List.forall_mem_append]
    exact ⟨⟨by decide, hblanks.isQuote⟩, ⟨⟨hclause.isQuote, hbefore.isQuote⟩, by decide⟩, hbehind.isQuote⟩

/-! ### Words -/

/-- The words of a text, of which the first one has begun. -/
def wordsFrom : Str → Str → List Str
  | begun, [] => if begun = [] then [] else [begun]
  | begun, char :: rest =>
    if isSpaceChar char then (if begun = [] then [] else [begun]) ++ wordsFrom [] rest
    else wordsFrom (begun ++ [char]) rest

section Words

variable {begun text rest : Str}

/-- A word goes on. -/
theorem wordsFrom_append {word : Str} (hword : ∀ char ∈ word, isSpaceChar char = false) :
    wordsFrom begun (word ++ rest) = wordsFrom (begun ++ word) rest := by
  induction word generalizing begun with
  | nil => rw [List.nil_append, List.append_nil]
  | cons char word ih =>
    obtain ⟨hchar, hword⟩ := List.forall_mem_cons.mp hword
    rw [List.cons_append, wordsFrom, if_neg (by rw [hchar]; exact Bool.false_ne_true), ih hword,
      List.append_assoc, List.singleton_append]

/-- Blanks between words. -/
theorem wordsFrom_nil_append {blanks : Str} (hblanks : IsBlank blanks) :
    wordsFrom [] (blanks ++ rest) = wordsFrom [] rest := by
  induction blanks with
  | nil => rfl
  | cons char blanks ih =>
    obtain ⟨hchar, hblanks⟩ := List.forall_mem_cons.mp hblanks
    rw [List.cons_append, wordsFrom, if_pos hchar, if_pos rfl, List.nil_append, ih hblanks]

/-- A word ends with a blank. -/
theorem wordsFrom_append_blank {blanks : Str} (hbegun : begun ≠ []) (hblanks : HasBlank blanks) :
    wordsFrom begun (blanks ++ rest) = begun :: wordsFrom [] rest := by
  obtain ⟨hne, hall⟩ := hblanks
  cases blanks with
  | nil => exact absurd rfl hne
  | cons char blanks =>
    obtain ⟨hchar, hblanks⟩ := List.forall_mem_cons.mp hall
    rw [List.cons_append, wordsFrom, if_pos hchar, if_neg hbegun, wordsFrom_nil_append hblanks,
      List.singleton_append]

/-- The words of a text that goes on behind a blank. -/
theorem wordsFrom_split {last : Char} (hlast : isSpaceChar last = true) :
    wordsFrom begun (text ++ last :: rest) = wordsFrom begun (text ++ [last]) ++ wordsFrom [] rest := by
  induction text generalizing begun with
  | nil =>
    rw [List.nil_append, List.nil_append, wordsFrom, if_pos hlast, wordsFrom, if_pos hlast]
    change _ = _ ++ [] ++ _
    rw [List.append_nil]
  | cons char text ih =>
    rw [List.cons_append, List.cons_append, wordsFrom, wordsFrom, ih, ih]
    split
    · rw [List.append_assoc]
    · rfl

/-- A word between blanks. -/
theorem wordsFrom_word {word blanks : Str} (hne : word ≠ [])
    (hword : ∀ char ∈ word, isSpaceChar char = false) (hblanks : HasBlank blanks) :
    wordsFrom [] (word ++ (blanks ++ rest)) = word :: wordsFrom [] rest := by
  rw [wordsFrom_append hword, List.nil_append, wordsFrom_append_blank hne hblanks]

end Words

/-- A word has no blanks. -/
theorem IsWord.isSpaceChar {name : Str} (hname : IsWord name) :
    ∀ char ∈ name, isSpaceChar char = false :=
  fun char hchar ↦ isSpaceChar_of_isWordChar (hname.2 char hchar)

/-- The words of `from` and the blanks around it. -/
theorem words_from {blanksBefore blanksBehind : Str} (hbefore : IsBlank blanksBefore)
    (hbehind : HasBlank blanksBehind) :
    wordsFrom [] (blanksBefore ++ "from".toList ++ blanksBehind) = ["from".toList] := by
  have hword := @wordsFrom_word [] "from".toList blanksBehind (List.cons_ne_nil _ _) (by decide) hbehind
  rw [List.append_nil] at hword
  rw [List.append_assoc, wordsFrom_nil_append hbefore, hword]
  rfl

/-- The words in front of a path, if there are no braces. -/
theorem words_front {front : Str} (hfront : FrontText front) (hbraces : '{' ∉ front) :
    wordsFrom [] front = ["import".toList] ∨
      ∃ name, IsWord name ∧ (wordsFrom [] front = ["import".toList, name, "from".toList] ∨
        wordsFrom [] front = ["import".toList, "*".toList, "as".toList, name, "from".toList]) := by
  cases hfront with
  | @bare blanks hblanks =>
    left
    have hword := @wordsFrom_word [] "import".toList blanks (List.cons_ne_nil _ _) (by decide) hblanks
    rwa [List.append_nil] at hword
  | @clause blanks clause blanksBefore blanksBehind hblanks hclause hbefore hbehind =>
    right
    have himport : ∀ rest, wordsFrom [] ("import".toList ++ (blanks ++ rest)) =
        "import".toList :: wordsFrom [] rest :=
      fun rest ↦ wordsFrom_word (List.cons_ne_nil _ _) (by decide) hblanks
    have hfrom := words_from (fun _ hmem ↦ absurd hmem List.not_mem_nil) hbehind
    rw [List.nil_append] at hfrom
    have hname : ∀ name, IsWord name →
        wordsFrom [] (name ++ (blanksBefore ++ ("from".toList ++ blanksBehind))) =
          [name, "from".toList] := by
      intro name hname
      rw [wordsFrom_word hname.1 hname.isSpaceChar hbefore, hfrom]
    cases hclause with
    | @all blanksFirst blanksSecond name hfirst hsecond hword =>
      refine ⟨name, hword, .inr ?_⟩
      have hstar : ∀ rest, wordsFrom [] ('*' :: (blanksFirst ++ rest)) =
          "*".toList :: wordsFrom [] rest :=
        fun rest ↦ @wordsFrom_word rest ['*'] _ (List.cons_ne_nil _ _) (by decide) hfirst
      have has : ∀ rest, wordsFrom [] ("as".toList ++ (blanksSecond ++ rest)) =
          "as".toList :: wordsFrom [] rest :=
        fun rest ↦ wordsFrom_word (List.cons_ne_nil _ _) (by decide) hsecond
      simp only [List.append_assoc, List.cons_append]
      rw [himport, hstar, has, hname name hword]
    | braces _ => exact absurd (by simp) hbraces
    | default hword =>
      refine ⟨clause, hword, .inl ?_⟩
      simp only [List.append_assoc]
      rw [himport, hname clause hword]

/-- What is no blank is not in blanks. -/
theorem HasBlank.notMem {blanks : Str} {char : Char} (hblanks : HasBlank blanks)
    (hchar : isSpaceChar char = false) : char ∉ blanks := by
  intro hmem
  rw [hblanks.2 _ hmem] at hchar
  cases hchar

/-- What is in no word is not in a word. -/
theorem IsWord.notMem {name : Str} {char : Char} (hname : IsWord name) (hchar : isWordChar char = false) :
    char ∉ name := by
  intro hmem
  rw [hname.2 _ hmem] at hchar
  cases hchar

/-- What may not be in braces is not in braces. -/
theorem notMem_of_isInBraces {inner : Str} {char : Char} (hinner : ∀ char ∈ inner, isInBraces char = true)
    (hchar : isInBraces char = false) : char ∉ inner := by
  intro hmem
  rw [hinner _ hmem] at hchar
  cases hchar

/-- What is in front of a path, if there are braces. -/
theorem FrontText.eq_of_mem {front : Str} (hfront : FrontText front) (hbraces : '{' ∈ front) :
    ∃ blanks inner blanksBefore blanksBehind, HasBlank blanks ∧
      (∀ char ∈ inner, isInBraces char = true) ∧ HasBlank blanksBefore ∧ HasBlank blanksBehind ∧
        front = "import".toList ++ blanks ++
          '{' :: (inner ++ '}' :: (blanksBefore ++ "from".toList ++ blanksBehind)) := by
  have hblank : ∀ {blanks : Str}, HasBlank blanks → '{' ∉ blanks := fun hblanks ↦ hblanks.notMem (by decide)
  have hword : ∀ {name : Str}, IsWord name → '{' ∉ name := fun hname ↦ hname.notMem (by decide)
  cases hfront with
  | bare hblanks => simp [hblank hblanks] at hbraces
  | @clause blanks clause blanksBefore blanksBehind hblanks hclause hbefore hbehind =>
    cases hclause with
    | all hfirst hsecond hname =>
      simp [hblank hblanks, hblank hbefore, hblank hbehind, hblank hfirst, hblank hsecond,
        hword hname] at hbraces
    | @braces inner hinner =>
      exact ⟨blanks, inner, blanksBefore, blanksBehind, hblanks, hinner, hbefore, hbehind, by simp⟩
    | default hname =>
      simp [hblank hblanks, hblank hbefore, hblank hbehind, hword hname] at hbraces

/-- Without an opening brace there is no closing one. -/
theorem FrontText.notMem_of_notMem {front : Str} (hfront : FrontText front) (hbraces : '{' ∉ front) :
    '}' ∉ front := by
  have hblank : ∀ {blanks : Str}, HasBlank blanks → '}' ∉ blanks := fun hblanks ↦ hblanks.notMem (by decide)
  have hword : ∀ {name : Str}, IsWord name → '}' ∉ name := fun hname ↦ hname.notMem (by decide)
  cases hfront with
  | bare hblanks => simp [hblank hblanks]
  | clause hblanks hclause hbefore hbehind =>
    cases hclause with
    | all hfirst hsecond hname =>
      simp [hblank hblanks, hblank hbefore, hblank hbehind, hblank hfirst, hblank hsecond, hword hname]
    | braces _ => exact absurd (by simp) hbraces
    | default hname => simp [hblank hblanks, hblank hbefore, hblank hbehind, hword hname]

/-- A word that has begun is one. -/
theorem wordsFrom_ne_nil {begun : Str} (hbegun : begun ≠ []) (text : Str) : wordsFrom begun text ≠ [] := by
  induction text generalizing begun with
  | nil =>
    rw [wordsFrom, if_neg hbegun]
    exact List.cons_ne_nil _ _
  | cons char text ih =>
    rw [wordsFrom, if_neg hbegun]
    split
    · exact List.cons_ne_nil _ _
    · exact ih (List.append_ne_nil_of_right_ne_nil _ (List.cons_ne_nil _ _))

/-- What is in front of a path begins with `import`. -/
theorem FrontText.exists_eq_append {front : Str} (hfront : FrontText front) :
    ∃ rest, front = "import".toList ++ rest := by
  cases hfront with
  | bare hblanks => exact ⟨_, rfl⟩
  | clause hblanks hclause hbefore hbehind => exact ⟨_, List.append_assoc _ _ _⟩

section Crossing

variable {before front : Str} {last : Char}

/-- What is in front of a blank in a text in front of a path has words. -/
theorem words_ne_nil_of_frontText (hlast : isSpaceChar last = true)
    (hwhole : FrontText (before ++ last :: front)) : wordsFrom [] (before ++ [last]) ≠ [] := by
  obtain ⟨rest, heq⟩ := hwhole.exists_eq_append
  cases before with
  | nil =>
    have hi : last = 'i' := (List.cons.inj heq).1
    rw [hi] at hlast
    exact absurd hlast (by decide)
  | cons char before =>
    obtain rfl : char = 'i' := (List.cons.inj heq).1
    exact wordsFrom_ne_nil (List.cons_ne_nil _ _) _

/-- The words in front of a path do not end with those of another one that has no braces. -/
theorem words_ne_append {whole words : Str} {others : List Str} (hwhole : FrontText whole)
    (hfront : FrontText words) (hwholeBraces : '{' ∉ whole) (hbraces : '{' ∉ words) (hothers : others ≠ []) :
    wordsFrom [] whole ≠ others ++ wordsFrom [] words := by
  intro heq
  cases others with
  | nil => exact hothers rfl
  | cons word others =>
    rcases words_front hwhole hwholeBraces with hwords | ⟨name, -, hwords | hwords⟩ <;>
      rcases words_front hfront hbraces with hback | ⟨other, -, hback | hback⟩ <;>
      rw [hwords, hback] at heq <;>
      simp [List.cons_eq_append_iff] at heq

/-- The only word in front of a brace that opens is `import`. -/
theorem FrontText.words_of_open {rest : Str} (hfront : FrontText (before ++ '{' :: rest)) :
    wordsFrom [] before = ["import".toList] := by
  obtain ⟨blanks, inner, blanksBefore, blanksBehind, hblanks, hinner, hbefore, hbehind, heq⟩ :=
    hfront.eq_of_mem (List.mem_append_right _ List.mem_cons_self)
  have hleft : '{' ∉ "import".toList ++ blanks := by
    rw [List.mem_append, not_or]
    exact ⟨by decide, hblanks.notMem (by decide)⟩
  have hright : '{' ∉ inner ++ '}' :: (blanksBefore ++ "from".toList ++ blanksBehind) := by
    simp [hbefore.notMem, hbehind.notMem, notMem_of_isInBraces hinner, isInBraces, isSpaceChar, isWordChar]
  obtain ⟨rfl, -, -⟩ := (List.append_cons_inj_of_notMem hleft hright).mp heq.symm
  have hword := @wordsFrom_word [] "import".toList blanks (List.cons_ne_nil _ _) (by decide) hblanks
  rwa [List.append_nil] at hword

/-- The only word behind a brace that closes is `from`. -/
theorem FrontText.words_of_close {rest : Str} (hfront : FrontText (before ++ '}' :: rest))
    (hbraces : '{' ∈ before ++ '}' :: rest) : wordsFrom [] rest = ["from".toList] := by
  obtain ⟨blanks, inner, blanksBefore, blanksBehind, hblanks, hinner, hbefore, hbehind, heq⟩ :=
    hfront.eq_of_mem hbraces
  have hleft : '}' ∉ "import".toList ++ blanks ++ '{' :: inner := by
    simp [hblanks.notMem, notMem_of_isInBraces hinner, isInBraces, isSpaceChar, isWordChar]
  have hright : '}' ∉ blanksBefore ++ "from".toList ++ blanksBehind := by
    simp [hbefore.notMem, hbehind.notMem, isSpaceChar]
  rw [← List.cons_append, ← List.append_assoc] at heq
  obtain ⟨-, -, rfl⟩ := (List.append_cons_inj_of_notMem hleft hright).mp heq.symm
  exact words_from hbefore.2 hbehind

/-- A text in front of a path does not end with another one behind a blank. -/
theorem not_frontText_append (hlast : isSpaceChar last = true)
    (hwhole : FrontText (before ++ last :: front)) (hfront : FrontText front) : False := by
  have hne := words_ne_nil_of_frontText hlast hwhole
  by_cases hbraces : '{' ∈ front
  · obtain ⟨blanks, rest, rfl⟩ := List.append_of_mem hbraces
    have hwords : wordsFrom [] (before ++ last :: blanks) = ["import".toList] := by
      rw [← List.cons_append, ← List.append_assoc] at hwhole
      exact hwhole.words_of_open
    rw [wordsFrom_split hlast, hfront.words_of_open] at hwords
    exact hne (List.append_left_eq_self.mp hwords)
  by_cases hwholeBraces : '{' ∈ before ++ last :: front
  · obtain ⟨_, inner, _, _, -, -, -, -, heq⟩ := hwhole.eq_of_mem hwholeBraces
    have hclosed : '}' ∈ before ++ last :: front := by
      simp [heq]
    have hbefore : '}' ∈ before := by
      rcases List.mem_append.mp hclosed with hmem | hmem
      · exact hmem
      · rcases List.mem_cons.mp hmem with rfl | hmem
        · exact absurd hlast (by decide)
        · exact absurd hmem (hfront.notMem_of_notMem hbraces)
    obtain ⟨opened, rest, rfl⟩ := List.append_of_mem hbefore
    rw [List.append_assoc, List.cons_append] at hwhole hwholeBraces
    have hwords := hwhole.words_of_close hwholeBraces
    rw [wordsFrom_split hlast] at hwords
    have himport : "import".toList ∈ wordsFrom [] front := by
      rcases words_front hfront hbraces with hwords | ⟨name, -, hwords | hwords⟩ <;>
        exact hwords ▸ List.mem_cons_self
    have hmem := hwords ▸ List.mem_append_right (wordsFrom [] (rest ++ [last])) himport
    exact absurd hmem (by decide)
  · exact words_ne_append hwhole hfront hwholeBraces hbraces hne (wordsFrom_split hlast)

end Crossing

/-! ### Matches -/

/-- Blanks are what the expression takes for blanks. -/
theorem accepts_blanksRegex_iff {blanks : Str} : blanksRegex.Accepts blanks ↔ HasBlank blanks :=
  accepts_many1_iff

/-- The clauses that the expression matches. -/
theorem clauseText_of_accepts {clause : Str} (haccepts : clauseRegex.Accepts clause) : ClauseText clause := by
  rcases haccepts with hall | hbraces | hname
  · obtain ⟨star, _, rfl, hstar, before, _, rfl, hbefore, as, _, rfl, has, behind, name, rfl, hbehind, hname⟩ :=
      hall
    obtain rfl := accepts_literal_iff.mp hstar
    obtain rfl := accepts_literal_iff.mp has
    have hclause := ClauseText.all (accepts_blanksRegex_iff.mp hbefore) (accepts_blanksRegex_iff.mp hbehind)
      (accepts_many1_iff.mp hname)
    rw [List.append_assoc, List.append_assoc, List.cons_append] at hclause
    exact hclause
  · obtain ⟨opening, _, rfl, hopening, inner, closing, rfl, hinner, hclosing⟩ := hbraces
    obtain rfl := accepts_literal_iff.mp hopening
    obtain rfl := accepts_literal_iff.mp hclosing
    exact .braces hinner
  · exact .default (accepts_many1_iff.mp hname)

/-- The texts that the expression matches. -/
theorem exists_of_accepts {text : Str} (haccepts : importRegex.Accepts text) :
    ∃ front quote path other, text = front ++ quote :: (path ++ [other]) ∧ FrontText front ∧
      isQuote quote = true ∧ (∀ char ∈ path, isDot char = true) ∧ isQuote other = true := by
  obtain ⟨literal, _, rfl, hliteral, blanks, _, rfl, hblanks, _, _, rfl, hfrom, _, _, rfl,
    ⟨quote, rfl, hquote⟩, path, _, rfl, hpath, other, rfl, hother⟩ := haccepts
  obtain rfl := accepts_literal_iff.mp hliteral
  have hblanks := accepts_blanksRegex_iff.mp hblanks
  have hpath := (accepts_many1_iff.mp hpath).2
  rcases hfrom with hfrom | hskip
  · obtain ⟨clause, _, rfl, hclause, before, _, rfl, hbefore, literal, behind, rfl, hliteral, hbehind⟩ := hfrom
    obtain rfl := accepts_literal_iff.mp hliteral
    refine ⟨_, quote, path, other, ?_, .clause hblanks (clauseText_of_accepts hclause)
      (accepts_blanksRegex_iff.mp hbefore) (accepts_blanksRegex_iff.mp hbehind), hquote, hpath, hother⟩
    simp only [List.append_assoc, List.cons_append, List.nil_append]
  · obtain rfl : _ = [] := hskip
    refine ⟨_, quote, path, other, ?_, .bare hblanks, hquote, hpath, hother⟩
    simp only [List.append_assoc, List.cons_append, List.nil_append]

/-- No empty text is matched. -/
theorem consumes_importRegex : importRegex.Consumes := by
  intro haccepts
  obtain ⟨front, quote, path, other, heq, -⟩ := exists_of_accepts haccepts
  exact absurd heq.symm (List.append_ne_nil_of_right_ne_nil _ (List.cons_ne_nil _ _))

/-- What is in front of the first quote. -/
theorem takeWhile_append_quote {front behind : Str} {quote : Char}
    (hfront : ∀ char ∈ front, isQuote char = false) (hquote : isQuote quote = true) :
    (front ++ quote :: behind).takeWhile (fun char ↦ !isQuote char) = front := by
  have hkept : ∀ char ∈ front, (!isQuote char) = true := by
    intro char hchar
    rw [hfront char hchar]
    rfl
  rw [List.takeWhile_append_of_pos hkept, List.takeWhile_cons_of_neg (by simp [hquote]), List.append_nil]

/-- The end of a text that a line terminator ends, if it is not empty. -/
theorem EndsLine.of_suffix {text back : Str} (htext : EndsLine text) (hback : back <:+ text)
    (hne : back ≠ []) : EndsLine back := by
  obtain ⟨front, last, rfl, hlast⟩ := htext
  obtain ⟨before, other, rfl⟩ := (List.eq_nil_or_concat back).resolve_left hne
  obtain ⟨_, heq⟩ := hback
  rw [List.concat_eq_append, ← List.append_assoc] at heq
  obtain ⟨-, hother⟩ := List.append_inj' heq rfl
  exact ⟨before, other, List.concat_eq_append, (List.cons.inj hother).1 ▸ hlast⟩

/-- A character that is not in the middle of three parts is in the first one or in the last one. -/
theorem exists_eq_or_length_le {before rest start middle behind : Str} {last : Char}
    (heq : before ++ last :: rest = start ++ (middle ++ behind)) (hmiddle : last ∉ middle) :
    (∃ more, start = before ++ last :: more ∧ rest = more ++ (middle ++ behind)) ∨
      rest.length ≤ behind.length := by
  have hbehind : ∀ {front : Str}, middle ++ behind = front ++ last :: rest → rest.length ≤ behind.length := by
    intro front heq
    rcases List.append_eq_append_iff.mp heq with ⟨more, -, rfl⟩ | ⟨more, hmore, hrest⟩
    · rw [List.length_append, List.length_cons]
      omega
    · rcases List.cons_eq_append_iff.mp hrest with ⟨-, rfl⟩ | ⟨others, rfl, -⟩
      · exact Nat.le_succ _
      · exact absurd (hmore ▸ List.mem_append_right _ List.mem_cons_self) hmiddle
  rcases List.append_eq_append_iff.mp heq with ⟨more, hstart, hrest⟩ | ⟨more, -, hrest⟩
  · rcases List.cons_eq_append_iff.mp hrest with ⟨rfl, hrest⟩ | ⟨others, rfl, hrest⟩
    · exact .inr (@hbehind [] hrest.symm)
    · exact .inl ⟨others, hstart, (List.cons.inj hrest).2⟩
  · exact .inr (hbehind hrest)

/-- No match begins in a line in front of a statement and ends in the statement. -/
theorem stays_of_endsLine {text front rest : Str} {quote : Char} (htext : EndsLine text)
    (hfront : FrontText front) (hquote : isQuote quote = true) :
    importRegex.Stays text (front ++ quote :: rest) := by
  intro back hback hne found hfound
  obtain ⟨before, last, rfl, hlast⟩ := htext.of_suffix hback hne
  obtain ⟨matched, heq, hmatched⟩ := exists_accepts_of_mem_run hfound
  obtain ⟨start, other, path, closing, rfl, hstart, hother, hpath, hclosing⟩ := exists_of_accepts hmatched
  have hquoted : last ∉ other :: (path ++ [closing]) := by
    intro hmem
    have hdot : ∀ char ∈ other :: (path ++ [closing]), isDot char = true := by
      simp only [List.forall_mem_cons, List.forall_mem_append]
      exact ⟨isDot_of_isQuote hother, hpath, isDot_of_isQuote hclosing, fun _ hnil ↦ absurd hnil List.not_mem_nil⟩
    rw [hdot last hmem] at hlast
    cases hlast
  rw [List.append_assoc, List.append_assoc, List.singleton_append] at heq
  rcases exists_eq_or_length_le heq hquoted with ⟨more, rfl, hrest⟩ | hle
  · have hmore : ∀ char ∈ more, isQuote char = false := fun char hchar ↦
      hstart.isQuote char (List.mem_append_right _ (List.mem_cons_of_mem _ hchar))
    have hfrontMore : front = more := by
      rw [← takeWhile_append_quote hfront.isQuote hquote, hrest, List.cons_append]
      exact takeWhile_append_quote hmore hother
    exact (not_frontText_append (isSpaceChar_of_isDot hlast) hstart (hfrontMore ▸ hfront)).elim
  · exact hle

end Playground.Client
