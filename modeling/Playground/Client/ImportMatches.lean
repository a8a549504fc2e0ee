import Playground.Client.ImportFronts

/-!
# The match of an import statement

The expression of `_getImports` matches a regular statement from its beginning, along the greedy choices: up
to the end of the statement, or to the last quote on the line behind it (`first_importRegex`). What its groups
have captured then is what the bindings of the statement are made of (`setupImport_captures`).
-/

set_option autoImplicit false
set_option relaxedAutoImplicit false

namespace Playground.Client

open Library Regex

/-- What the groups capture in a clause. -/
def ImportClause.captures : ImportClause → Captures
  | .all blanksBefore blanksBehind name =>
    let text := ImportClause.text (.all blanksBefore blanksBehind name)
    [(1, text), (2, text), (3, name)]
  | .braces items => [(1, ImportClause.text (.braces items)), (4, ImportClause.text (.braces items))]
  | .default name => [(1, name), (5, name)]

/-- What the groups capture in a statement, with what is taken for its path. -/
def ImportStatement.captures (statement : ImportStatement) (path : Str) : Captures :=
  (statement.fromClause.map fun fromClause ↦ fromClause.clause.captures).getD [] ++ [(6, path)]

/-! ### Parts of a statement -/

section Parts

variable {blanks name rest : Str}

/-- A word begins with one of its characters. -/
theorem isWordChar_head? (hname : IsWord name) : ∀ char ∈ (name ++ rest).head?, isWordChar char = true := by
  cases name with
  | nil => exact absurd rfl hname.1
  | cons first name =>
    intro char hchar
    obtain rfl := Option.some.inj hchar
    exact hname.2 _ List.mem_cons_self

/-- What begins with a word does not begin with a blank. -/
theorem isSpaceChar_head? (hname : IsWord name) :
    ∀ char ∈ (name ++ rest).head?, isSpaceChar char = false :=
  fun char hchar ↦ isSpaceChar_of_isWordChar (isWordChar_head? hname char hchar)

/-- What begins with blanks does not begin with a word. -/
theorem isWordChar_head?_eq_false (hblanks : HasBlank blanks) :
    ∀ char ∈ (blanks ++ rest).head?, isWordChar char = false := by
  cases blanks with
  | nil => exact absurd rfl hblanks.1
  | cons first blanks =>
    intro char hchar
    obtain rfl := Option.some.inj hchar
    refine Bool.eq_false_iff.mpr fun hword ↦ ?_
    exact absurd (hblanks.2 _ List.mem_cons_self) (by rw [isSpaceChar_of_isWordChar hword]; decide)

/-- Blanks are matched up to what is behind them. -/
theorem first_blanksRegex (hblanks : HasBlank blanks)
    (hrest : ∀ char ∈ rest.head?, isSpaceChar char = false) :
    blanksRegex.first (blanks ++ rest) = some ([], rest) :=
  first_many1 hblanks.1 hblanks.2 hrest

/-- A word is matched up to the blanks behind it. -/
theorem first_word {index : ℕ} (hname : IsWord name) (hblanks : HasBlank blanks) :
    (group index (many1 isWordChar)).first (name ++ (blanks ++ rest)) =
      some ([(index, name)], blanks ++ rest) :=
  first_group (first_many1 hname.1 hname.2 (isWordChar_head?_eq_false hblanks))

/-- A literal is not matched if the text begins with another character. -/
theorem run_literal_eq_nil {char : Char} {others text : Str} (hhead : ∀ head ∈ text.head?, head ≠ char) :
    (literal (char :: others)).run text = [] :=
  run_seq_eq_nil (run_chars_eq_nil fun head hmem ↦ decide_eq_false (hhead head hmem))

end Parts

/-! ### Clauses -/

section Clauses

variable {blanks rest : Str}

/-- A namespace is matched. -/
theorem first_allRegex {blanksBefore blanksBehind name : Str} (hbefore : HasBlank blanksBefore)
    (hbehind : HasBlank blanksBehind) (hname : IsWord name) (hblanks : HasBlank blanks) :
    allRegex.first (ImportClause.text (.all blanksBefore blanksBehind name) ++ (blanks ++ rest)) =
      some ([(3, name)], blanks ++ rest) := by
  have htext : ImportClause.text (.all blanksBefore blanksBehind name) ++ (blanks ++ rest) =
      "*".toList ++ (blanksBefore ++ ("as".toList ++ (blanksBehind ++ (name ++ (blanks ++ rest))))) := by
    simp [ImportClause.text]
  have has : ∀ char ∈ ("as".toList ++ (blanksBehind ++ (name ++ (blanks ++ rest)))).head?,
      isSpaceChar char = false := by
    intro char hchar
    obtain rfl := Option.some.inj hchar
    decide
  rw [htext]
  exact first_seq (first_literal _ _) (first_seq (first_blanksRegex hbefore has)
    (first_seq (first_literal _ _) (first_seq (first_blanksRegex hbehind (isSpaceChar_head? hname))
      (first_word hname hblanks))))

/-- A clause that does not begin with an asterisk is no namespace. -/
theorem run_allRegex_eq_nil {index : ℕ} {text : Str} (hhead : ∀ head ∈ text.head?, head ≠ '*') :
    (group index allRegex).run text = [] :=
  run_group_eq_nil (run_seq_eq_nil (run_literal_eq_nil hhead))

/-- A clause that does not begin with a brace has no names in braces. -/
theorem run_bracesRegex_eq_nil {index : ℕ} {text : Str} (hhead : ∀ head ∈ text.head?, head ≠ '{') :
    (group index bracesRegex).run text = [] :=
  run_group_eq_nil (run_seq_eq_nil (run_literal_eq_nil hhead))

/-- A regular item may be in braces. -/
theorem isInBraces_text {item : ImportItem} (hitem : item.Regular) :
    ∀ char ∈ item.text, isInBraces char = true := by
  have hblank : ∀ {blanks : Str}, IsBlank blanks → ∀ char ∈ blanks, isInBraces char = true :=
    fun hblanks char hchar ↦ isInBraces_of_or (.inl (hblanks char hchar))
  have hword : ∀ {name : Str}, IsWord name → ∀ char ∈ name, isInBraces char = true :=
    fun hname char hchar ↦ isInBraces_of_or (.inr (.inl (hname.2 char hchar)))
  cases item with
  | blank blanks => exact hblank hitem
  | named blanksBefore name renamed blanksBehind =>
    obtain ⟨hbefore, hname, hrenamed, hbehind⟩ := hitem
    simp only [ImportItem.text, namedText, List.forall_mem_append]
    refine ⟨⟨hblank hbefore, hword hname, ?_⟩, hblank hbehind⟩
    cases renamed with
    | none => exact fun _ hnil ↦ absurd hnil List.not_mem_nil
    | some other =>
      have hother := hrenamed other rfl
      simp only [Option.map_some, Option.getD_some, Renaming.text, List.forall_mem_append]
      exact ⟨⟨⟨hblank hother.before.2, by decide⟩, hblank hother.behind.2⟩, hword hother.name⟩

/-- Regular items may be in braces. -/
theorem isInBraces_itemsText {items : List ImportItem} (hitems : ∀ item ∈ items, item.Regular) :
    ∀ char ∈ itemsText items, isInBraces char = true := by
  induction items with
  | nil => exact fun _ hnil ↦ absurd hnil List.not_mem_nil
  | cons item items ih =>
    obtain ⟨hitem, hitems⟩ := List.forall_mem_cons.mp hitems
    cases items with
    | nil =>
      rw [itemsText, List.map_singleton, List.intercalate_singleton]
      exact isInBraces_text hitem
    | cons next items =>
      have htext : itemsText (item :: next :: items) = item.text ++ ',' :: itemsText (next :: items) := by
        rw [itemsText, List.map_cons, List.map_cons, List.intercalate_cons_cons, List.append_assoc]
        rfl
      rw [htext, List.forall_mem_append, List.forall_mem_cons]
      exact ⟨isInBraces_text hitem, by decide, ih hitems⟩

/-- Names in braces are matched. -/
theorem first_bracesRegex {items : List ImportItem} (hitems : ∀ item ∈ items, item.Regular) :
    bracesRegex.first (ImportClause.text (.braces items) ++ rest) = some ([], rest) := by
  have htext : ImportClause.text (.braces items) ++ rest =
      "\x7b".toList ++ (itemsText items ++ ("\x7d".toList ++ rest)) := by
    simp [ImportClause.text]
  have hclose : ∀ char ∈ ("\x7d".toList ++ rest).head?, isInBraces char = false := by
    intro char hchar
    obtain rfl := Option.some.inj hchar
    decide
  rw [htext]
  exact first_seq (first_literal _ _) (first_seq (first_many (isInBraces_itemsText hitems) hclose)
    (first_literal _ _))

/-- A regular clause is matched. -/
theorem first_clauseRegex {clause : ImportClause} (hclause : clause.Regular) (hblanks : HasBlank blanks) :
    clauseRegex.first (clause.text ++ (blanks ++ rest)) = some (clause.captures, blanks ++ rest) := by
  cases clause with
  | all blanksBefore blanksBehind name =>
    obtain ⟨hbefore, hbehind, hname⟩ := hclause
    exact first_group (first_alt_left (first_group (first_allRegex hbefore hbehind hname hblanks)))
  | braces items =>
    have hhead : ∀ head ∈ (ImportClause.text (.braces items) ++ (blanks ++ rest)).head?, head ≠ '*' := by
      intro head hmem
      obtain rfl := Option.some.inj hmem
      decide
    refine first_group ?_
    rw [first_alt_right (run_allRegex_eq_nil hhead)]
    exact first_alt_left (first_group (first_bracesRegex hclause))
  | default name =>
    have hhead : ∀ char, isWordChar char = false →
        ∀ head ∈ (ImportClause.text (.default name) ++ (blanks ++ rest)).head?, head ≠ char := by
      intro char hchar head hmem heq
      rw [← heq, isWordChar_head? hclause head hmem] at hchar
      cases hchar
    refine first_group ?_
    rw [first_alt_right (run_allRegex_eq_nil (hhead '*' (by decide))),
      first_alt_right (run_bracesRegex_eq_nil (hhead '{' (by decide)))]
    exact first_word hclause hblanks

/-- A regular clause with `from` is matched. -/
theorem first_fromRegex {fromClause : FromClause} (hregular : fromClause.Regular)
    (hrest : ∀ char ∈ rest.head?, isSpaceChar char = false) :
    fromRegex.first (fromClause.text ++ rest) = some (fromClause.clause.captures, rest) := by
  have htext : fromClause.text ++ rest = fromClause.clause.text ++ (fromClause.blanksBefore ++
      ("from".toList ++ (fromClause.blanksBehind ++ rest))) := by
    simp [FromClause.text]
  have hfrom : ∀ char ∈ ("from".toList ++ (fromClause.blanksBehind ++ rest)).head?,
      isSpaceChar char = false := by
    intro char hchar
    obtain rfl := Option.some.inj hchar
    decide
  have hbehind := first_seq (first_blanksRegex hregular.before hfrom)
    (first_seq (first_literal _ _) (first_blanksRegex hregular.behind hrest))
  have hclause := first_seq (first_clauseRegex hregular.clause hregular.before) hbehind
  rw [List.nil_append, List.nil_append, List.append_nil] at hclause
  rw [htext]
  exact hclause

end Clauses

/-! ### Statements -/

section Statements

variable {statement : ImportStatement} {rest : Str}

/-- The quote of a regular statement is one. -/
theorem ImportStatement.Regular.isQuote (hregular : statement.Regular) : isQuote statement.quote = true := by
  rcases hregular.quote with heq | heq <;> rw [heq] <;> decide

/-- A quote begins no clause. -/
theorem run_fromRegex_eq_nil {quote : Char} (hquote : isQuote quote = true) :
    fromRegex.run (quote :: rest) = [] := by
  have hhead : ∀ char, isQuote char = false → ∀ head ∈ (quote :: rest).head?, head ≠ char := by
    intro char hchar head hmem heq
    rw [← heq, ← Option.some.inj hmem, hquote] at hchar
    cases hchar
  have hword : ∀ char ∈ (quote :: rest).head?, isWordChar char = false := by
    intro char hchar
    refine Bool.eq_false_iff.mpr fun hword ↦ ?_
    have hquoted := isQuote_of_isInBraces (isInBraces_of_or (.inr (.inl hword)))
    rw [← Option.some.inj hchar, hquote] at hquoted
    cases hquoted
  exact run_seq_eq_nil (run_group_eq_nil (run_alt_eq_nil
    (run_allRegex_eq_nil (hhead '*' (by decide))) (run_alt_eq_nil
      (run_bracesRegex_eq_nil (hhead '{' (by decide)))
      (run_group_eq_nil (run_seq_eq_nil (run_chars_eq_nil hword))))))

/-- A regular clause begins with no blank. -/
theorem isSpaceChar_head?_clause {clause : ImportClause} (hclause : clause.Regular) :
    ∀ char ∈ (clause.text ++ rest).head?, isSpaceChar char = false := by
  cases clause with
  | all blanksBefore blanksBehind name =>
    intro char hchar
    obtain rfl := Option.some.inj hchar
    decide
  | braces items =>
    intro char hchar
    obtain rfl := Option.some.inj hchar
    decide
  | default name => exact isSpaceChar_head? hclause

/-- The match of a regular statement, from that of its path. -/
theorem first_importRegex_of_path (hregular : statement.Regular) {captures : Captures} {others : Str}
    (hpath : pathRegex.first (statement.quote :: rest) = some (captures, others)) :
    importRegex.first (statement.front ++ statement.quote :: rest) =
      some ((statement.fromClause.map fun fromClause ↦ fromClause.clause.captures).getD [] ++ captures,
        others) := by
  have hquote : ∀ char ∈ (statement.quote :: rest).head?, isSpaceChar char = false := by
    intro char hchar
    refine Bool.eq_false_iff.mpr fun hspace ↦ ?_
    have hquoted := isQuote_of_isInBraces (isInBraces_of_or (.inl hspace))
    rw [← Option.some.inj hchar, hregular.isQuote] at hquoted
    cases hquoted
  have hfront : ∀ {text behind : Str} {found : Captures}, (∀ char ∈ text.head?, isSpaceChar char = false) →
      (seq (optional fromRegex) pathRegex).first text = some (found, behind) →
        importRegex.first ("import".toList ++ (statement.blanks ++ text)) = some (found, behind) :=
    fun hhead hfound ↦ first_seq (first_literal _ _)
      (first_seq (first_blanksRegex hregular.blanks hhead) hfound)
  unfold ImportStatement.front
  simp only [List.append_assoc]
  cases hclause : statement.fromClause with
  | none =>
    have hskip : (optional fromRegex).first (statement.quote :: rest) = some ([], statement.quote :: rest) :=
      first_alt_right (run_fromRegex_eq_nil hregular.isQuote)
    exact hfront hquote (first_seq hskip hpath)
  | some fromClause =>
    have hfrom := hregular.fromClause fromClause hclause
    have hhead : ∀ char ∈ (fromClause.text ++ statement.quote :: rest).head?, isSpaceChar char = false := by
      rw [FromClause.text, List.append_assoc, List.append_assoc, List.append_assoc]
      exact isSpaceChar_head?_clause hfrom.clause
    exact hfront hhead (first_seq (first_alt_left (first_fromRegex hfrom hquote)) hpath)

/-- The match of a regular statement ends with the last quote on its line. -/
theorem first_importRegex (hregular : statement.Regular) :
    importRegex.first (statement.text ++ rest) =
      some (match lastDelimiter isDot isQuote rest with
        | some (more, others) => (statement.captures (statement.path ++ statement.quote :: more), others)
        | none => (statement.captures statement.path, rest)) := by
  obtain ⟨first, path, hpath⟩ := List.exists_cons_of_ne_nil hregular.path_ne_nil
  have hdots : ∀ char ∈ first :: path, isDot char = true := hpath ▸ hregular.path
  obtain ⟨hfirst, hdots⟩ := List.forall_mem_cons.mp hdots
  have htext : statement.text ++ rest =
      statement.front ++ statement.quote :: (first :: (path ++ statement.quote :: rest)) := by
    simp [ImportStatement.text, hpath]
  have hlast := @first_group_delimiter isDot isQuote (path ++ statement.quote :: rest) 6 first hfirst
  rw [lastDelimiter_append hregular.isQuote (isDot_of_isQuote hregular.isQuote) hdots] at hlast
  rw [htext, hpath]
  cases hmore : lastDelimiter isDot isQuote rest with
  | none =>
    rw [hmore] at hlast
    exact first_importRegex_of_path hregular (first_seq (first_chars hregular.isQuote) hlast)
  | some found =>
    rw [hmore] at hlast
    exact first_importRegex_of_path hregular (first_seq (first_chars hregular.isQuote) hlast)

end Statements

end Playground.Client
