import Playground.Client.Imports

/-!
# Adding text behind the import statements

`addAfter` and `IMPORT_STATEMENT_REGEX` of `client/src/frameworks/common.ts`. A text is added one character behind
the last match of an expression, or behind the first character if there is no match: the character that is
stepped over is meant to be the line feed behind an import statement.

If a line feed is directly behind the last import statement or its semicolon, and nothing behind it looks like
such a statement, the text is added behind that line feed, whatever is in front of the statement
(`addAfter_of_endsStatement`). A match may begin in front of the statement, but then it ends in front of it, too,
or together with it (`first_append_statement`).

Not formalized here: the option `firstOccurance`, and the groups of the expression, which nothing reads.
-/

set_option autoImplicit false
set_option relaxedAutoImplicit false

namespace Playground.Frameworks

open Library Regex Client

/-- The class `.|\n`. -/
def isDotOrLineFeed (char : Char) : Bool :=
  isDot char || char = '\n'

/-- `["|'].*["|'](;?)`. -/
def quotedRegex : Regex :=
  seq (chars isQuote) (seq (many isDot) (seq (chars isQuote) (optional (chars fun char ↦ char = ';'))))

/-- `IMPORT_STATEMENT_REGEX`. -/
def importStatementRegex : Regex :=
  seq (literal "import".toList) (seq (lazy isDotOrLineFeed) quotedRegex)

/-- Where the text is added: one character behind the last match. -/
def afterStartIndex (content : Str) (afterRegex : Regex) : ℕ :=
  match (afterRegex.matchAll content).getLast? with
  | some (index, matched) => index + matched.length + 1
  | none => 0 + 0 + 1

/-- `addAfter`, for the last occurrence. -/
def addAfter (content : Str) (afterRegex : Regex) (newContent : Str) : Str :=
  content.take (afterStartIndex content afterRegex) ++ newContent ++ ['\n'] ++
    content.drop (afterStartIndex content afterRegex)

/-- An import statement up to its path: what is between `import` and the first quote, and the text from that
quote to the one that closes the path. The first quote opens the path, or a name in front of it. -/
structure ImportText where
  middle : Str
  opening : Char
  inside : Str
  closing : Char

/-- The text up to the first quote of a statement. -/
def ImportText.front (statement : ImportText) : Str :=
  "import".toList ++ statement.middle

theorem ImportText.front_eq (statement : ImportText) :
    statement.front = "import".toList ++ statement.middle := rfl

/-- The text of a statement from its first quote on. -/
def ImportText.quoted (statement : ImportText) : Str :=
  statement.opening :: (statement.inside ++ [statement.closing])

/-- The text of a statement. -/
def ImportText.text (statement : ImportText) : Str :=
  statement.front ++ statement.quoted

/-- The first quote is on the line of the path, and up to it there are no line terminators but line feeds. -/
structure ImportText.Plain (statement : ImportText) : Prop where
  middle : ∀ char ∈ statement.middle, isQuote char = false ∧ isDotOrLineFeed char = true
  opening : isQuote statement.opening = true
  inside : ∀ char ∈ statement.inside, isDot char = true
  closing : isQuote statement.closing = true

/-- A line feed is directly behind a statement or its semicolon, and nothing behind it looks like a statement. -/
def EndsStatement (behind rest : Str) : Prop :=
  (behind = '\n' :: rest ∨ behind = ';' :: '\n' :: rest) ∧ importStatementRegex.NoMatch rest

/-- A text without a semicolon that it begins with. -/
def dropSemicolon : Str → Str
  | ';' :: rest => rest
  | text => text

/-! ### A quoted text -/

section Quoted

variable {text rest : Str}

/-- Only a semicolon is dropped. -/
theorem dropSemicolon_of_ne {char : Char} (hchar : char ≠ ';') : dropSemicolon (char :: rest) = char :: rest := by
  unfold dropSemicolon
  split
  next heq => exact absurd (List.cons.inj heq).1 hchar
  next => rfl

/-- A semicolon may be left out, but is taken. -/
theorem first_semicolon (text : Str) :
    (optional (chars fun char ↦ char = ';')).first text = some ([], dropSemicolon text) := by
  cases text with
  | nil => rfl
  | cons char rest =>
    by_cases hchar : char = ';'
    · rw [hchar]
      exact first_alt_left (first_chars (decide_eq_true rfl))
    · have hnil : (chars fun next ↦ next = ';').run (char :: rest) = [] :=
        run_chars_eq_nil fun head hhead ↦ decide_eq_false (Option.some.inj hhead ▸ hchar)
      rw [dropSemicolon_of_ne hchar]
      exact first_alt_right hnil

/-- A quoted text ends with the last quote on its line, or with the semicolon behind it. -/
theorem first_quotedRegex {quote : Char} (hquote : isQuote quote = true) :
    quotedRegex.first (quote :: text) =
      (lastDelimiter isDot isQuote text).map fun found ↦ ([], dropSemicolon found.2) := by
  have hsemicolon : ∀ rest, (optional (chars fun char ↦ char = ';')).run rest ≠ [] := by
    intro rest hnil
    have hfirst := first_semicolon rest
    rw [first, hnil] at hfirst
    cases hfirst
  rw [quotedRegex, first_seq_chars hquote, first_many_delimiter hsemicolon]
  cases lastDelimiter isDot isQuote text with
  | none => rfl
  | some found => exact first_semicolon found.2

/-- A text that does not begin with a quote is not quoted. -/
theorem first_quotedRegex_eq_none (hhead : ∀ char ∈ text.head?, isQuote char = false) :
    quotedRegex.first text = none :=
  List.head?_eq_none_iff.mpr (run_seq_eq_nil (run_chars_eq_nil hhead))

end Quoted

/-! ### Matches in front of a statement -/

section Statements

variable {statement : ImportText} {before behind rest : Str}

/-- Behind a statement that ends its line there is no quote on the line, and the semicolon is dropped. -/
theorem EndsStatement.dropSemicolon (hends : EndsStatement behind rest) :
    lastDelimiter isDot isQuote behind = none ∧ dropSemicolon behind = '\n' :: rest := by
  have hnone : ∀ {text : Str}, lastDelimiter isDot isQuote ('\n' :: text) = none := rfl
  rcases hends.1 with rfl | rfl
  · exact ⟨hnone, rfl⟩
  · exact ⟨by rw [lastDelimiter, hnone]; rfl, rfl⟩

/-- In the line of a statement that ends its line, the last quote is the one that closes the path. -/
theorem lastDelimiter_statement (hplain : statement.Plain) (hends : EndsStatement behind rest)
    {front : Str} (hfront : ∀ char ∈ front, isDot char = true) :
    lastDelimiter isDot isQuote (front ++ (statement.quoted ++ behind)) =
      some (front ++ statement.opening :: statement.inside, behind) := by
  have hdots : ∀ char ∈ front ++ statement.opening :: statement.inside, isDot char = true := by
    rw [List.forall_mem_append, List.forall_mem_cons]
    exact ⟨hfront, isDot_of_isQuote hplain.opening, hplain.inside⟩
  have htext : front ++ (statement.quoted ++ behind) =
      front ++ statement.opening :: statement.inside ++ statement.closing :: behind := by
    simp [ImportText.quoted]
  rw [htext, lastDelimiter_append hplain.closing (isDot_of_isQuote hplain.closing) hdots,
    hends.dropSemicolon.1]

/-- A last quote in reach that is followed by a text without quotes is in front of that text, if a line ends in
between. -/
theorem exists_lastDelimiter_append {text front back found others : Str}
    (hlast : lastDelimiter isDot isQuote (text ++ (front ++ back)) = some (found, others))
    (hfront : ∀ char ∈ front, isQuote char = false) (hline : ∃ char ∈ text ++ front, isDot char = false) :
    ∃ more, more <:+ text ∧ others = more ++ (front ++ back) := by
  obtain ⟨quote, heq, hquote, hfound⟩ := lastDelimiter_eq_some hlast
  obtain ⟨char, hchar, hdot⟩ := hline
  have hnotDot : char ∉ found := by
    intro hmem
    rw [hfound char hmem] at hdot
    cases hdot
  have hnotQuote : quote ∉ front := by
    intro hmem
    rw [hfront quote hmem] at hquote
    cases hquote
  rw [← List.append_assoc] at heq
  rcases List.append_eq_append_iff.mp heq with ⟨more, rfl, -⟩ | ⟨more, hwhole, hothers⟩
  · exact absurd (List.mem_append_left _ hchar) hnotDot
  rcases List.cons_eq_append_iff.mp hothers with ⟨rfl, -⟩ | ⟨others', rfl, rfl⟩
  · rw [List.append_nil] at hwhole
    exact absurd (hwhole ▸ hchar) hnotDot
  rcases List.append_eq_append_iff.mp hwhole with ⟨more, -, rfl⟩ | ⟨more, rfl, hmore⟩
  · exact absurd (List.mem_append_right _ List.mem_cons_self) hnotQuote
  rcases List.cons_eq_append_iff.mp hmore with ⟨-, rfl⟩ | ⟨more', rfl, rfl⟩
  · exact absurd List.mem_cons_self hnotQuote
  · exact ⟨more', ⟨found ++ [quote], by rw [List.append_assoc, List.singleton_append]⟩, List.append_assoc _ _ _⟩

/-- A text without quotes in front of a quoted one is taken without being greedy. -/
theorem first_lazy_quoted (hplain : statement.Plain) (hends : EndsStatement behind rest) {front : Str}
    (hfront : ∀ char ∈ front, Client.isQuote char = false ∧ isDotOrLineFeed char = true) :
    (seq (lazy isDotOrLineFeed) quotedRegex).first (front ++ (statement.quoted ++ behind)) =
      some ([], '\n' :: rest) := by
  induction front with
  | nil =>
    have htext : [] ++ (statement.quoted ++ behind) =
        statement.opening :: (statement.inside ++ statement.closing :: behind) := by
      simp [ImportText.quoted]
    have hlast := @lastDelimiter_append isDot Client.isQuote _ behind _ hplain.closing
      (isDot_of_isQuote hplain.closing) hplain.inside
    rw [hends.dropSemicolon.1] at hlast
    rw [htext]
    refine first_seq_lazy_of_some ?_
    rw [first_quotedRegex hplain.opening, hlast, Option.map_some, hends.dropSemicolon.2]
  | cons char front ih =>
    obtain ⟨⟨hquote, hdot⟩, hfront⟩ := List.forall_mem_cons.mp hfront
    have hnone : quotedRegex.first (char :: (front ++ (statement.quoted ++ behind))) = none :=
      first_quotedRegex_eq_none fun head hhead ↦ Option.some.inj hhead ▸ hquote
    rw [List.cons_append, first_seq_lazy_of_none hnone, if_pos hdot, ih hfront]

/-- A semicolon that is dropped is not in a text behind it that begins with another character. -/
theorem exists_dropSemicolon_append {text back : Str} {char : Char} (hchar : char ≠ ';') :
    ∃ more, more <:+ text ∧ dropSemicolon (text ++ char :: back) = more ++ char :: back := by
  cases text with
  | nil => exact ⟨[], List.suffix_refl _, dropSemicolon_of_ne hchar⟩
  | cons first text =>
    by_cases hfirst : first = ';'
    · rw [hfirst]
      exact ⟨text, List.suffix_cons _ _, rfl⟩
    · exact ⟨first :: text, List.suffix_refl _, dropSemicolon_of_ne hfirst⟩

/-- There is no quote in front of the first quote of a plain statement. -/
theorem ImportText.Plain.front (hplain : statement.Plain) :
    ∀ char ∈ statement.front, Client.isQuote char = false ∧ isDotOrLineFeed char = true := by
  rw [ImportText.front_eq, List.forall_mem_append]
  exact ⟨by decide, hplain.middle⟩

/-- What is read of a text in front of a statement: a match ends in front of the statement, or together with it. -/
theorem first_lazy_statement (hplain : statement.Plain) (hends : EndsStatement behind rest) (text : Str)
    {captures : Captures} {others : Str}
    (hfirst : (seq (lazy isDotOrLineFeed) quotedRegex).first
      (text ++ (statement.front ++ (statement.quoted ++ behind))) = some (captures, others)) :
    others = '\n' :: rest ∨
      ∃ more, more <:+ text ∧ others = more ++ (statement.front ++ (statement.quoted ++ behind)) := by
  induction text with
  | nil =>
    rw [List.nil_append, first_lazy_quoted hplain hends hplain.front] at hfirst
    exact .inl (Prod.mk.inj (Option.some.inj hfirst)).2.symm
  | cons char text ih =>
    rw [List.cons_append] at hfirst
    cases hquoted : quotedRegex.first (char :: (text ++ (statement.front ++ (statement.quoted ++ behind)))) with
    | none =>
      rw [first_seq_lazy_of_none hquoted] at hfirst
      split at hfirst
      next =>
        rcases ih hfirst with hend | ⟨more, hmore, hothers⟩
        · exact .inl hend
        · exact .inr ⟨more, hmore.trans (List.suffix_cons _ _), hothers⟩
      next => cases hfirst
    | some found =>
      rw [first_seq_lazy_of_some hquoted] at hfirst
      have hfound : found = (captures, others) := Option.some.inj hfirst
      have hquote : Client.isQuote char = true := by
        by_contra hnot
        have hnone := @first_quotedRegex_eq_none (char :: (text ++ (statement.front ++
          (statement.quoted ++ behind)))) fun head hhead ↦
            Option.some.inj hhead ▸ Bool.eq_false_iff.mpr hnot
        rw [hnone] at hquoted
        cases hquoted
      rw [hfound, first_quotedRegex hquote] at hquoted
      obtain ⟨⟨taken, after⟩, hlast, heq⟩ := Option.map_eq_some_iff.mp hquoted
      obtain rfl := (Prod.mk.inj heq).2
      by_cases hline : ∃ char ∈ text ++ statement.front, isDot char = false
      · right
        obtain ⟨more, hmore, rfl⟩ := exists_lastDelimiter_append hlast
          (fun char hchar ↦ (hplain.front char hchar).1) hline
        obtain ⟨less, hless, hdrop⟩ := @exists_dropSemicolon_append more
          ("mport".toList ++ statement.middle ++ (statement.quoted ++ behind)) 'i' (by decide)
        exact ⟨less, (hless.trans hmore).trans (List.suffix_cons _ _), hdrop⟩
      · left
        have hdots : ∀ char ∈ text ++ statement.front, isDot char = true := by
          intro char hchar
          by_contra hnot
          exact hline ⟨char, hchar, Bool.eq_false_iff.mpr hnot⟩
        have hstatement := lastDelimiter_statement hplain hends hdots
        rw [List.append_assoc] at hstatement
        rw [hstatement] at hlast
        rw [← (Prod.mk.inj (Option.some.inj hlast)).2]
        exact hends.dropSemicolon.2

/-- `import` does not overlap itself. -/
theorem eq_of_append_import {text front others : Str}
    (heq : text ++ ("import".toList ++ front) = "import".toList ++ others) :
    text = [] ∧ others = front ∨
      ∃ more, text = "import".toList ++ more ∧ others = more ++ ("import".toList ++ front) := by
  rcases List.append_eq_append_iff.mp heq with ⟨overlap, himport, hothers⟩ | ⟨more, htext, hothers⟩
  · cases overlap with
    | nil =>
      rw [List.append_nil] at himport
      exact .inr ⟨[], by rw [List.append_nil, himport], hothers.symm⟩
    | cons char overlap =>
      obtain rfl : 'i' = char := (List.cons.inj hothers).1
      cases text with
      | nil =>
        rw [List.nil_append] at heq
        exact .inl ⟨rfl, (List.append_cancel_left heq).symm⟩
      | cons first text =>
        have hword : "import".toList = 'i' :: "mport".toList := by decide
        have htail : "mport".toList = text ++ 'i' :: overlap := (List.cons.inj (hword.symm.trans himport)).2
        have hmem : 'i' ∈ "mport".toList := htail ▸ List.mem_append_right _ List.mem_cons_self
        exact absurd hmem (by decide)
  · exact .inr ⟨more, htext, hothers⟩

/-- The match at a statement ends with it. -/
theorem first_statement (hplain : statement.Plain) (hends : EndsStatement behind rest) :
    importStatementRegex.first (statement.text ++ behind) = some ([], '\n' :: rest) := by
  have hlazy := first_lazy_quoted hplain hends hplain.middle
  rw [ImportText.text, List.append_assoc, ImportText.front_eq, List.append_assoc, importStatementRegex,
    first_seq_literal, hlazy]

/-- A match in front of a statement ends in front of it, or together with it. -/
theorem first_append_statement (hplain : statement.Plain) (hends : EndsStatement behind rest) {text : Str}
    {captures : Captures} {others : Str}
    (hfirst : importStatementRegex.first (text ++ (statement.text ++ behind)) = some (captures, others)) :
    others = '\n' :: rest ∨ ∃ more, more <:+ text ∧ others = more ++ (statement.text ++ behind) := by
  obtain ⟨matched, heq, literal, found, rfl, himport, -⟩ :=
    exists_accepts_of_mem_run (List.mem_of_head? hfirst)
  obtain rfl := accepts_literal_iff.mp himport
  have hwhole := heq
  rw [ImportText.text, ImportText.front_eq, List.append_assoc, List.append_assoc, List.append_assoc] at hwhole
  rcases eq_of_append_import hwhole with ⟨rfl, -⟩ | ⟨more, rfl, -⟩
  · rw [List.nil_append, first_statement hplain hends] at hfirst
    exact .inl (Prod.mk.inj (Option.some.inj hfirst)).2.symm
  · rw [List.append_assoc, importStatementRegex, first_seq_literal, ImportText.text, List.append_assoc] at hfirst
    rcases first_lazy_statement hplain hends more hfirst with hend | ⟨less, hless, hothers⟩
    · exact .inl hend
    · refine .inr ⟨less, hless.trans (List.suffix_append _ _), ?_⟩
      rw [hothers, ImportText.text, List.append_assoc]

/-- `import` is in front of every match. -/
theorem consumes_importStatementRegex : importStatementRegex.Consumes := by
  rintro ⟨literal, found, heq, himport, -⟩
  rw [accepts_literal_iff.mp himport] at heq
  cases heq

/-- Nothing matches from the line feed behind a statement on. -/
theorem EndsStatement.noMatch (hends : EndsStatement behind rest) :
    importStatementRegex.NoMatch ('\n' :: rest) := by
  intro back hback
  rcases List.suffix_cons_iff.mp hback with rfl | hback
  · have hhead : ∀ head ∈ ('\n' :: rest).head?, decide (head = 'i') = false :=
      fun head hhead ↦ Option.some.inj hhead ▸ by decide
    exact List.head?_eq_none_iff.mpr (run_seq_eq_nil (run_seq_eq_nil (run_chars_eq_nil hhead)))
  · exact hends.2 back hback

/-- A statement that ends its line, up to the line feed. -/
theorem EndsStatement.exists_eq_append (hends : EndsStatement behind rest) :
    ∃ ending, behind = ending ++ '\n' :: rest := by
  rcases hends.1 with rfl | rfl
  · exact ⟨[], rfl⟩
  · exact ⟨[';'], rfl⟩

/-- One of the matches ends with the statement, whatever is in front of it. -/
theorem exists_tokens_statement (hplain : statement.Plain) (hends : EndsStatement behind rest) (text : Str) :
    ∃ front matched captures, importStatementRegex.tokens (text ++ (statement.text ++ behind)) =
      front ++ .found matched captures :: importStatementRegex.tokens ('\n' :: rest) := by
  induction hlength : text.length using Nat.strongRecOn generalizing text with
  | ind length ih =>
    subst hlength
    cases hfirst : importStatementRegex.first (text ++ (statement.text ++ behind)) with
    | none =>
      cases text with
      | nil =>
        rw [List.nil_append, first_statement hplain hends] at hfirst
        cases hfirst
      | cons char text =>
        obtain ⟨front, matched, captures, htokens⟩ := ih text.length (Nat.lt_succ_self _) text rfl
        refine ⟨.char char :: front, matched, captures, ?_⟩
        rw [List.cons_append] at hfirst
        rw [List.cons_append, tokens_cons_of_first_eq_none hfirst, htokens, List.cons_append]
    | some found =>
      obtain ⟨captures, others⟩ := found
      have hlt := consumes_importStatementRegex.length_lt (List.mem_of_head? hfirst)
      obtain ⟨matched, heq, -⟩ := exists_accepts_of_mem_run (List.mem_of_head? hfirst)
      have htokens := tokens_append_of_first_eq_some consumes_importStatementRegex (heq ▸ hfirst)
      rw [← heq] at htokens
      rcases first_append_statement hplain hends hfirst with rfl | ⟨more, -, rfl⟩
      · exact ⟨[], matched, captures, htokens⟩
      · have hmore : more.length < text.length := by
          simp only [List.length_append] at hlt
          omega
        obtain ⟨front, last, lastCaptures, hrest⟩ := ih more.length hmore more rfl
        refine ⟨.found matched captures :: front, last, lastCaptures, ?_⟩
        rw [htokens, hrest, List.cons_append]

/-- A text is added behind the line of the last import statement. -/
theorem addAfter_of_endsStatement (hplain : statement.Plain) (hends : EndsStatement behind rest)
    (text newContent : Str) :
    ∃ ending, behind = ending ++ '\n' :: rest ∧
      addAfter (text ++ (statement.text ++ behind)) importStatementRegex newContent =
        text ++ (statement.text ++ (ending ++ ['\n'])) ++ newContent ++ ['\n'] ++ rest := by
  obtain ⟨ending, hending⟩ := hends.exists_eq_append
  refine ⟨ending, hending, ?_⟩
  obtain ⟨front, matched, captures, htokens⟩ := exists_tokens_statement hplain hends text
  obtain ⟨index, hlast, hlength⟩ := getLast?_matchAll consumes_importStatementRegex htokens hends.noMatch
  have hsplit : text ++ (statement.text ++ behind) =
      text ++ (statement.text ++ (ending ++ ['\n'])) ++ rest := by
    rw [hending]
    simp
  have hstart : afterStartIndex (text ++ (statement.text ++ behind)) importStatementRegex =
      (text ++ (statement.text ++ (ending ++ ['\n']))).length := by
    rw [afterStartIndex, hlast]
    rw [hsplit, List.length_append, List.length_cons] at hlength
    dsimp only
    omega
  rw [addAfter, hstart, hsplit, List.take_left, List.drop_left]

end Statements

end Playground.Frameworks
