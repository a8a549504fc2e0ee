import Playground.Client.NamedImports

/-!
# What `_getImports` returns

A program whose statements are regular, each at the beginning of a line, should come back with its bindings and
without its statements. No more of the code around the statements is kept than there is, and all of it only if
the program is clean around them (`length_kept_le`), so that `returnsImports_iff` says for which programs this is
what happens.
-/

set_option autoImplicit false
set_option relaxedAutoImplicit false

namespace Playground.Client

open Library Regex

/-! ### The line behind a statement -/

section Lines

variable {text rest : Str}

/-- The first line of a text that a line terminator ends is in the text. -/
theorem takeWhile_isDot_append (hline : rest = [] ∨ EndsLine text) :
    (text ++ rest).takeWhile isDot = text.takeWhile isDot := by
  rcases hline with rfl | ⟨front, last, rfl, hlast⟩
  · rw [List.append_nil]
  · rw [List.append_assoc, List.singleton_append, List.takeWhile_append, List.takeWhile_append,
      List.takeWhile_cons_of_neg (by simp [hlast]), List.takeWhile_cons_of_neg (by simp [hlast])]

/-- A match goes beyond its statement exactly if there is a quote behind the statement on its line, and then no
further than that line. -/
theorem lastDelimiter_append_cases (hline : rest = [] ∨ EndsLine text) :
    NoQuote text ∧ lastDelimiter isDot isQuote (text ++ rest) = none ∨
      ¬ NoQuote text ∧ ∃ more delimiter others, text = more ++ delimiter :: others ∧
        lastDelimiter isDot isQuote (text ++ rest) = some (more, others ++ rest) := by
  have hnone := @lastDelimiter_eq_none_iff isDot isQuote (text ++ rest) fun _ ↦ isDot_of_isQuote
  rw [takeWhile_isDot_append hline] at hnone
  cases hlast : lastDelimiter isDot isQuote (text ++ rest) with
  | none => exact .inl ⟨hnone.mp hlast, rfl⟩
  | some found =>
    refine .inr ⟨fun hquote ↦ ?_, ?_⟩
    · rw [hnone.mpr hquote] at hlast
      cases hlast
    · obtain ⟨more, behind⟩ := found
      obtain ⟨delimiter, heq, hdelimiter, hmore⟩ := lastDelimiter_eq_some hlast
      have hlength : rest.length ≤ behind.length := by
        rcases hline with rfl | ⟨front, last, rfl, hend⟩
        · exact Nat.zero_le _
        · have hreach : last ∉ more ++ [delimiter] := by
            rw [List.mem_append, List.mem_singleton, not_or]
            refine ⟨fun hmem ↦ ?_, fun hmem ↦ ?_⟩
            · rw [hmore last hmem] at hend
              cases hend
            · rw [hmem, isDot_of_isQuote hdelimiter] at hend
              cases hend
          have hmiddle : front ++ last :: rest = [] ++ ((more ++ [delimiter]) ++ behind) := by
            rw [List.append_assoc, List.singleton_append] at heq
            rw [heq, List.nil_append, List.append_assoc, List.singleton_append]
          rcases exists_eq_or_length_le hmiddle hreach with ⟨_, hnil, -⟩ | hle
          · exact absurd hnil.symm (List.append_ne_nil_of_right_ne_nil _ (List.cons_ne_nil _ _))
          · exact hle
      obtain ⟨others, rfl⟩ : rest <:+ behind :=
        List.suffix_of_suffix_length_le (List.suffix_append _ _)
          ⟨more ++ [delimiter], by rw [heq, List.append_assoc, List.singleton_append]⟩ hlength
      refine ⟨more, delimiter, others, ?_, rfl⟩
      rw [← List.cons_append, ← List.append_assoc] at heq
      exact List.append_cancel_right heq

end Lines

/-! ### Statements in a row -/

/-- What is in front of the path of a regular statement. -/
theorem frontText_front {statement : ImportStatement} (hregular : statement.Regular) :
    FrontText statement.front := by
  obtain ⟨blanks, fromClause, quote, path⟩ := statement
  cases fromClause with
  | none =>
    change FrontText ("import".toList ++ blanks ++ [])
    rw [List.append_nil]
    exact .bare hregular.blanks
  | some fromClause =>
    obtain ⟨hclause, hbefore, hbehind⟩ := hregular.fromClause fromClause rfl
    refine .clause hregular.blanks ?_ hbefore hbehind
    obtain ⟨clause, _, _⟩ := fromClause
    cases clause with
    | all _ _ _ => exact .all hclause.1 hclause.2.1 hclause.2.2
    | braces items => exact .braces (isInBraces_itemsText hclause)
    | default name => exact .default hclause

section Statements

variable {entries : List (ImportStatement × Str)}

/-- The text of some statements begins with the first one. -/
theorem statementsText_cons (entry : ImportStatement × Str) :
    statementsText (entry :: entries) = entry.1.text ++ (entry.2 ++ statementsText entries) := by
  rw [statementsText, List.map_cons, List.flatten_cons, List.append_assoc, statementsText]

/-- No match begins in a line in front of regular statements and ends in them. -/
theorem stays_statementsText {text : Str} (hregular : ∀ entry ∈ entries, entry.1.Regular)
    (hline : entries ≠ [] → EndsLine text) : importRegex.Stays text (statementsText entries) := by
  cases entries with
  | nil => exact stays_nil
  | cons entry entries =>
    have hentry := hregular entry List.mem_cons_self
    have htext : statementsText (entry :: entries) = entry.1.front ++
        entry.1.quote :: (entry.1.path ++ ([entry.1.quote] ++ (entry.2 ++ statementsText entries))) := by
      simp [statementsText_cons, ImportStatement.text]
    rw [htext]
    exact stays_of_endsLine (hline (List.cons_ne_nil _ _)) (frontText_front hentry) hentry.isQuote

/-- Behind each statement but the last one a line ends. -/
theorem LinesKept.endsLine {entry : ImportStatement × Str} (hlines : LinesKept (entry :: entries)) :
    (entries ≠ [] → EndsLine entry.2) ∧ LinesKept entries := by
  cases entries with
  | nil => exact ⟨fun hne ↦ absurd rfl hne, trivial⟩
  | cons next entries => exact ⟨fun _ ↦ hlines.1, hlines.2⟩

/-- Behind a statement there is nothing, or a line ends in front of the next one. -/
theorem LinesKept.eq_nil_or_endsLine {entry : ImportStatement × Str} (hlines : LinesKept (entry :: entries)) :
    statementsText entries = [] ∨ EndsLine entry.2 := by
  cases entries with
  | nil => exact .inl rfl
  | cons next entries => exact .inr hlines.1

/-- The tokens of statements, if the code behind each of them is clean. -/
theorem tokens_statementsText (hregular : ∀ entry ∈ entries, entry.1.Regular) (hlines : LinesKept entries)
    (hclean : ∀ entry ∈ entries, NoQuote entry.2 ∧ importRegex.NoMatch entry.2) :
    importRegex.tokens (statementsText entries) =
      entries.flatMap fun entry ↦
        .found entry.1.text (entry.1.captures entry.1.path) :: entry.2.map .char := by
  induction entries with
  | nil => rfl
  | cons entry entries ih =>
    obtain ⟨hentry, hentries⟩ := List.forall_mem_cons.mp hregular
    obtain ⟨⟨hquote, hnone⟩, hothers⟩ := List.forall_mem_cons.mp hclean
    have hend := hlines.eq_nil_or_endsLine
    obtain ⟨hline, hlines⟩ := hlines.endsLine
    have hstays := stays_statementsText hentries hline
    have hfirst := @first_importRegex _ (entry.2 ++ statementsText entries) hentry
    rcases lastDelimiter_append_cases hend with ⟨-, hlast⟩ | ⟨hnot, -⟩
    · rw [hlast] at hfirst
      rw [statementsText_cons, tokens_append_of_first_eq_some consumes_importRegex hfirst,
        tokens_append_of_noMatch hstays hnone, ih hentries hlines hothers, List.flatMap_cons, List.cons_append]
    · exact absurd hquote hnot

/-- No more of the code behind statements is kept than there is, and all of it only if it is clean. -/
theorem length_kept_le (hregular : ∀ entry ∈ entries, entry.1.Regular) (hlines : LinesKept entries) :
    ((importRegex.tokens (statementsText entries)).filterMap Token.kept).length ≤
        (entries.map Prod.snd).flatten.length ∧
      (((importRegex.tokens (statementsText entries)).filterMap Token.kept).length =
          (entries.map Prod.snd).flatten.length →
        ∀ entry ∈ entries, NoQuote entry.2 ∧ importRegex.NoMatch entry.2) := by
  induction entries with
  | nil => exact ⟨Nat.le_refl _, fun _ _ hnil ↦ absurd hnil List.not_mem_nil⟩
  | cons entry entries ih =>
    obtain ⟨hentry, hentries⟩ := List.forall_mem_cons.mp hregular
    have hend := hlines.eq_nil_or_endsLine
    obtain ⟨hline, hlines⟩ := hlines.endsLine
    obtain ⟨hle, hclean⟩ := ih hentries hlines
    have hstays := stays_statementsText hentries hline
    have hfirst := @first_importRegex _ (entry.2 ++ statementsText entries) hentry
    rw [statementsText_cons, List.map_cons, List.flatten_cons, List.length_append]
    rcases lastDelimiter_append_cases hend with ⟨hquote, hlast⟩ | ⟨-, more, delimiter, others, htext, hlast⟩
    · obtain ⟨front, htokens, hfront, hnone⟩ := exists_tokens_append consumes_importRegex hstays
      rw [hlast] at hfirst
      rw [tokens_append_of_first_eq_some consumes_importRegex hfirst, htokens]
      change (List.filterMap Token.kept (front ++ _)).length ≤ _ ∧
        ((List.filterMap Token.kept (front ++ _)).length = _ → _)
      rw [List.filterMap_append, List.length_append]
      refine ⟨Nat.add_le_add hfront hle, fun heq ↦ List.forall_mem_cons.mpr ⟨⟨hquote, hnone ?_⟩, hclean ?_⟩⟩
      · omega
      · omega
    · have hothers : others <:+ entry.2 := ⟨more ++ [delimiter], by
        rw [htext, List.append_assoc, List.singleton_append]⟩
      obtain ⟨front, htokens, hfront, -⟩ :=
        exists_tokens_append consumes_importRegex (hstays.of_suffix hothers)
      have hmatched : entry.1.text ++ (entry.2 ++ statementsText entries) =
          entry.1.text ++ (more ++ [delimiter]) ++ (others ++ statementsText entries) := by
        simp [htext]
      have hlength : others.length < entry.2.length := by
        rw [htext, List.length_append, List.length_cons]
        omega
      rw [hlast, hmatched] at hfirst
      rw [hmatched, tokens_append_of_first_eq_some consumes_importRegex hfirst, htokens]
      change (List.filterMap Token.kept (front ++ _)).length ≤ _ ∧
        ((List.filterMap Token.kept (front ++ _)).length = _ → _)
      rw [List.filterMap_append, List.length_append]
      exact ⟨by omega, fun heq ↦ absurd heq (by omega)⟩

/-- Statements give as many bindings as they should, and those they should exactly if the names in their braces
stay apart. -/
theorem exists_mapM_setupImport (hregular : ∀ entry ∈ entries, entry.1.Regular) :
    ∃ imports, (entries.mapM fun entry ↦ setupImport (entry.1.captures entry.1.path)) = some imports ∧
      (imports.flatten = (entries.flatMap fun entry ↦ entry.1.bindings) ↔
        ∀ entry ∈ entries, entry.1.Apart) := by
  induction entries with
  | nil => exact ⟨[], rfl, iff_of_true rfl fun _ hnil ↦ absurd hnil List.not_mem_nil⟩
  | cons entry entries ih =>
    obtain ⟨hentry, hentries⟩ := List.forall_mem_cons.mp hregular
    obtain ⟨imports, hmap, hrest⟩ := ih hentries
    obtain ⟨bindings, hsetup, hlength, hbindings⟩ := exists_setupImport hentry
    refine ⟨bindings :: imports, ?_, ?_⟩
    · rw [List.mapM_cons, hsetup, hmap]
      rfl
    · rw [List.flatten_cons, List.flatMap_cons, List.forall_mem_cons, ← hbindings, ← hrest]
      exact ⟨fun heq ↦ List.append_inj heq hlength, fun heq ↦ by rw [heq.1, heq.2]⟩

end Statements

/-! ### What is returned -/

section Returned

variable {program : ImportProgram} {loads : Str → Bool}

/-- No match begins in front of the first statement and ends in it. -/
theorem stays_header (hregular : program.Regular) :
    importRegex.Stays program.header (statementsText program.statements) := by
  by_cases hempty : program.header = []
  · rw [hempty]
    exact nil_stays
  · exact stays_statementsText hregular.statements fun hne ↦ (hregular.first hne).resolve_left hempty

/-- Only of a program that is clean around its statements all the code is kept. -/
theorem noMatch_of_kept (hregular : program.Regular)
    (hkept : (importRegex.tokens program.text).filterMap Token.kept = program.code) :
    importRegex.NoMatch program.header ∧
      ∀ entry ∈ program.statements, NoQuote entry.2 ∧ importRegex.NoMatch entry.2 := by
  obtain ⟨front, htokens, hfront, hnone⟩ := exists_tokens_append consumes_importRegex (stays_header hregular)
  obtain ⟨hle, hclean⟩ := length_kept_le hregular.statements hregular.lines
  have hlength := congrArg List.length hkept
  rw [ImportProgram.text, htokens, List.filterMap_append, List.length_append, ImportProgram.code,
    List.length_append] at hlength
  exact ⟨hnone (by omega), hclean (by omega)⟩

/-- The path of a statement is captured. -/
theorem lookup_path (statement : ImportStatement) (path : Str) :
    (statement.captures path).lookup 6 = some path := by
  obtain ⟨blanks, fromClause, quote, _⟩ := statement
  cases fromClause with
  | none => rfl
  | some fromClause =>
    obtain ⟨clause, _, _⟩ := fromClause
    cases clause <;> rfl

/-- What is kept of the tokens of statements is the code behind them. -/
theorem filterMap_kept (entries : List (ImportStatement × Str)) :
    (entries.flatMap fun entry ↦ Token.found entry.1.text (entry.1.captures entry.1.path) ::
      entry.2.map Token.char).filterMap Token.kept = (entries.map Prod.snd).flatten := by
  induction entries with
  | nil => rfl
  | cons entry entries ih =>
    rw [List.flatMap_cons, List.filterMap_append, ih, List.map_cons, List.flatten_cons,
      List.filterMap_cons_none rfl, List.filterMap_map]
    congr 1
    exact List.filterMap_some

/-- What is captured in the tokens of statements. -/
theorem filterMap_captured (entries : List (ImportStatement × Str)) :
    (entries.flatMap fun entry ↦ Token.found entry.1.text (entry.1.captures entry.1.path) ::
      entry.2.map Token.char).filterMap Token.captured =
        entries.map fun entry ↦ entry.1.captures entry.1.path := by
  induction entries with
  | nil => rfl
  | cons entry entries ih =>
    have hnone : (entry.2.map Token.char).filterMap Token.captured = [] := by
      rw [List.filterMap_map, List.filterMap_eq_nil_iff]
      exact fun _ _ ↦ rfl
    rw [List.flatMap_cons, List.filterMap_append, ih, List.filterMap_cons_some (f := Token.captured) rfl, hnone]
    rfl

/-- The packages that statements import are loaded, and their bindings set up. -/
theorem mapM_handleImport {entries : List (ImportStatement × Str)}
    (hloads : ∀ entry ∈ entries, loads entry.1.path = true) :
    (entries.map fun entry ↦ entry.1.captures entry.1.path).mapM (handleImport loads) =
      entries.mapM fun entry ↦ setupImport (entry.1.captures entry.1.path) := by
  induction entries with
  | nil => rfl
  | cons entry entries ih =>
    obtain ⟨hentry, hentries⟩ := List.forall_mem_cons.mp hloads
    have hhandle : handleImport loads (entry.1.captures entry.1.path) =
        setupImport (entry.1.captures entry.1.path) := by
      rw [handleImport, lookup_path, Option.getD_some, if_pos hentry]
    rw [List.map_cons, List.mapM_cons, List.mapM_cons, hhandle, ih hentries]

/-- What is returned of a program that is clean around its statements. -/
theorem getImports_of_clean (hregular : program.Regular)
    (hloads : ∀ entry ∈ program.statements, loads entry.1.path = true)
    (hheader : importRegex.NoMatch program.header)
    (hclean : ∀ entry ∈ program.statements, NoQuote entry.2 ∧ importRegex.NoMatch entry.2) :
    getImports loads program.text =
      (program.statements.mapM fun entry ↦ setupImport (entry.1.captures entry.1.path)).map fun imports ↦
        (program.code, imports.flatten) := by
  have htokens := tokens_append_of_noMatch (stays_header hregular) hheader
  rw [tokens_statementsText hregular.statements hregular.lines hclean] at htokens
  have hkept : (program.header.map Token.char).filterMap Token.kept = program.header := by
    rw [List.filterMap_map]
    exact List.filterMap_some
  have hnone : (program.header.map Token.char).filterMap Token.captured = [] := by
    rw [List.filterMap_map, List.filterMap_eq_nil_iff]
    exact fun _ _ ↦ rfl
  rw [getImports, ImportProgram.text, htokens, List.filterMap_append, List.filterMap_append, hnone, hkept,
    filterMap_captured, filterMap_kept, List.nil_append, mapM_handleImport hloads]
  cases program.statements.mapM fun entry ↦ setupImport (entry.1.captures entry.1.path) <;> rfl

/-- A program comes back with its bindings and without its statements exactly if it is clean. -/
theorem returnsImports_iff (hregular : program.Regular)
    (hloads : ∀ entry ∈ program.statements, loads entry.1.path = true) :
    ReturnsImports loads program ↔ program.Clean := by
  obtain ⟨imports, hmap, hbindings⟩ := exists_mapM_setupImport hregular.statements
  constructor
  · intro hreturns
    obtain ⟨_, -, hresult⟩ := Option.bind_eq_some_iff.mp hreturns
    have hkept := (Prod.mk.inj (Option.some.inj hresult)).1
    obtain ⟨hheader, hclean⟩ := noMatch_of_kept hregular hkept
    rw [ReturnsImports, getImports_of_clean hregular hloads hheader hclean, hmap, Option.map_some] at hreturns
    exact ⟨hheader, hclean, hbindings.mp (Prod.mk.inj (Option.some.inj hreturns)).2⟩
  · rintro ⟨hheader, hclean, hapart⟩
    rw [ReturnsImports, getImports_of_clean hregular hloads hheader hclean, hmap, Option.map_some,
      hbindings.mpr hapart]
    rfl

end Returned

/-- A program that imports a default, and then calls it with some arguments. -/
def defaultImport (behind : Str) : ImportProgram where
  header := []
  statements := [(⟨" ".toList, some ⟨.default "bs58".toList, " ".toList, " ".toList⟩, '"', "bs58".toList⟩,
    behind)]

/-- The statement of a program that imports a default is regular. -/
theorem regular_defaultImport (behind : Str) : (defaultImport behind).Regular where
  statements := by
    intro entry hentry
    obtain rfl := List.mem_singleton.mp hentry
    have hblank : HasBlank " ".toList :=
      ⟨List.cons_ne_nil _ _, show ∀ char ∈ " ".toList, isSpaceChar char = true by decide⟩
    have hname : IsWord "bs58".toList := ⟨List.cons_ne_nil _ _, by decide⟩
    have hpath : ∀ char ∈ "bs58".toList, isDot char = true := by decide
    exact {
      blanks := hblank
      fromClause := fun _ hmem ↦ Option.some.inj hmem ▸ ⟨hname, hblank, hblank⟩
      quote := .inl rfl
      path_ne_nil := List.cons_ne_nil _ _
      path := hpath }
  first := fun _ ↦ .inl rfl
  lines := trivial

/-- `import bs58 from "bs58"` comes back with its binding, and without the statement. -/
theorem returnsImports_iff_defaultImport :
    ReturnsImports (fun _ ↦ true) (defaultImport ";\nbs58.encode(key);".toList) := by
  refine (returnsImports_iff (regular_defaultImport _) fun _ _ ↦ rfl).mpr ⟨?_, ?_, ?_⟩
  · intro rest hrest
    rw [List.suffix_nil.mp hrest]
    decide
  · intro entry hentry
    obtain rfl := List.mem_singleton.mp hentry
    have hquote : ∀ char ∈ ";\nbs58.encode(key);".toList.takeWhile isDot, isQuote char = false := by decide
    have hnone : ∀ rest ∈ ";\nbs58.encode(key);".toList.tails, importRegex.first rest = none := by
      decide +kernel
    exact ⟨hquote, fun rest hrest ↦ hnone rest ((List.mem_tails _ _).mpr hrest)⟩
  · intro entry hentry
    obtain rfl := List.mem_singleton.mp hentry
    exact fun _ hmem ↦ Option.some.inj hmem ▸ trivial

/-- In `import bs58 from "bs58"; bs58.decode("7Kf");` the path is taken to be `bs58"; bs58.decode("7Kf`. -/
theorem not_returnsImports_quotedArgument :
    (defaultImport "; bs58.decode(\"7Kf\");".toList).Regular ∧
      ¬ ReturnsImports (fun _ ↦ true) (defaultImport "; bs58.decode(\"7Kf\");".toList) :=
  ⟨regular_defaultImport _, by unfold ReturnsImports; decide +kernel⟩

end Playground.Client
