import Playground.Client.ImportMatches

/-!
# Names in braces

`_getImports` reads what is between braces once more: without its line feeds, it is split at the commas, and a
second expression finds a name in each part and what it is renamed to. Each name that a regular statement has in
braces gives one binding (`exists_readItem`), which is the binding it should be exactly if taking out the line
feeds leaves the words apart.
-/

set_option autoImplicit false
set_option relaxedAutoImplicit false

namespace Playground.Client

open Library Regex

/-! ### Joined lines -/

section JoinLines

variable {blanks name text other : Str}

/-- Joining the lines of two texts. -/
theorem joinLines_append : joinLines (text ++ other) = joinLines text ++ joinLines other :=
  List.filter_append _ _

/-- A word is in one line. -/
theorem joinLines_word (hname : IsWord name) : joinLines name = name := by
  refine List.filter_eq_self.mpr fun char hchar ↦ decide_eq_true fun heq ↦ ?_
  exact hname.notMem (by decide) (heq ▸ hchar)

/-- Joined lines of blanks are blanks. -/
theorem isBlank_joinLines (hblanks : IsBlank blanks) : IsBlank (joinLines blanks) :=
  fun char hchar ↦ hblanks char (List.mem_filter.mp hchar).1

/-- A blank is left exactly if one is no line feed. -/
theorem joinLines_ne_nil_iff : joinLines blanks ≠ [] ↔ ∃ char ∈ blanks, char ≠ '\n' := by
  rw [ne_eq, joinLines, List.filter_eq_nil_iff]
  simp

/-- The joined lines of a renaming. -/
theorem joinLines_text {renamed : Renaming} (hregular : renamed.Regular) :
    joinLines renamed.text =
      joinLines renamed.blanksBefore ++ ("as".toList ++ (joinLines renamed.blanksBehind ++ renamed.name)) := by
  have has : joinLines "as".toList = "as".toList := by decide
  simp only [Renaming.text, joinLines_append, joinLines_word hregular.name, has, List.append_assoc]

end JoinLines

/-! ### Names and what they are renamed to -/

section ReadItem

variable {name rest : Str}

/-- The name that is read is the word that a text begins with. -/
theorem exists_readItem_append (hname : IsWord name)
    (hrest : ∀ char ∈ rest.head?, isWordChar char = false) :
    ∃ renamed, readItem (name ++ rest) = some (name, renamed) := by
  obtain ⟨captures, behind, hoptional⟩ := exists_first_optional _ rest
  have hfirst : itemRegex.first (name ++ rest) = some ((1, name) :: captures, behind) :=
    first_seq (first_group (first_many1 hname.1 hname.2 hrest)) hoptional
  refine ⟨((1, name) :: captures).lookup 3, ?_⟩
  rw [readItem, search_of_first hfirst]
  rfl

/-- A name that is not renamed. -/
theorem readItem_name (hname : IsWord name) : readItem name = some (name, none) := by
  have hfirst : itemRegex.first (name ++ []) = some ([(1, name)], []) :=
    first_seq (first_group (first_many1 hname.1 hname.2 fun _ hnone ↦ absurd hnone (Option.not_mem_none _)))
      (by decide)
  rw [List.append_nil] at hfirst
  rw [readItem, search_of_first hfirst]
  rfl

/-- No blank begins with `as`. -/
theorem isSpaceChar_head?_as : ∀ char ∈ ("as".toList ++ rest).head?, isSpaceChar char = false := by
  intro char hchar
  obtain rfl := Option.some.inj hchar
  decide

/-- A name that is renamed, with blanks around `as`. -/
theorem readItem_renamed {before behind other : Str} (hname : IsWord name) (hbefore : HasBlank before)
    (hbehind : HasBlank behind) (hother : IsWord other) :
    readItem (name ++ (before ++ ("as".toList ++ (behind ++ other)))) = some (name, some other) := by
  have hword : (group 3 (many1 isWordChar)).first (other ++ []) = some ([(3, other)], []) :=
    first_group (first_many1 hother.1 hother.2 fun _ hnone ↦ absurd hnone (Option.not_mem_none _))
  have hrenaming := first_seq (first_blanksRegex hbefore isSpaceChar_head?_as)
    (first_seq (first_literal _ _) (first_seq (first_blanksRegex hbehind (isSpaceChar_head? hother)) hword))
  rw [← List.append_assoc behind, ← List.append_assoc "as".toList, ← List.append_assoc before] at hrenaming
  have hgroup := @first_group _ [] _ 2 _ hrenaming
  rw [List.append_nil] at hgroup
  have hfirst : itemRegex.first (name ++ (before ++ ("as".toList ++ (behind ++ other)))) =
      some ([(1, name), (2, before ++ ("as".toList ++ (behind ++ other))), (3, other)], []) :=
    first_seq (first_word hname hbefore) (first_alt_left hgroup)
  rw [readItem, search_of_first hfirst]
  rfl

/-- A name with another one that follows `as` too closely is not renamed. -/
theorem readItem_joined {before other : Str} (hname : IsWord name) (hbefore : HasBlank before)
    (hother : IsWord other) : readItem (name ++ (before ++ ("as".toList ++ other))) = some (name, none) := by
  have hnil : (group 2 (seq blanksRegex (seq (literal "as".toList) (seq blanksRegex
      (group 3 (many1 isWordChar)))))).run (before ++ ("as".toList ++ other)) = [] := by
    by_contra hne
    obtain ⟨_, rest, heq, blanks, _, rfl, hblanks, literal, _, rfl, hliteral, others, word, rfl, hothers, -⟩ :=
      run_ne_nil_iff.mp hne
    obtain rfl := accepts_literal_iff.mp hliteral
    have hothers := accepts_blanksRegex_iff.mp hothers
    rw [List.append_assoc, List.append_assoc, List.append_assoc] at heq
    have hdrop := congrArg (List.dropWhile isSpaceChar) heq
    rw [List.dropWhile_append_of_pos hbefore.2, dropWhile_isSpaceChar_eq_self isSpaceChar_head?_as,
      List.dropWhile_append_of_pos (accepts_blanksRegex_iff.mp hblanks).2,
      dropWhile_isSpaceChar_eq_self isSpaceChar_head?_as] at hdrop
    have hword := @isWordChar_head?_eq_false _ (word ++ rest) hothers
    rw [← List.append_cancel_left hdrop] at hword
    obtain ⟨char, text, rfl⟩ := List.exists_cons_of_ne_nil hother.1
    exact absurd (hother.2 char List.mem_cons_self) (by rw [hword char rfl]; exact Bool.false_ne_true)
  have hfirst : itemRegex.first (name ++ (before ++ ("as".toList ++ other))) =
      some ([(1, name)], before ++ ("as".toList ++ other)) :=
    first_seq (first_word hname hbefore) (first_alt_right hnil)
  rw [readItem, search_of_first hfirst]
  rfl

/-- A name that goes on is another one. -/
theorem exists_readItem_longer {char : Char} (hname : IsWord name) (hchar : isWordChar char = true) :
    ∃ other renamed, readItem (name ++ char :: rest) = some (other, renamed) ∧ other ≠ name := by
  have htaken : (name ++ char :: rest).takeWhile isWordChar = name ++ char :: rest.takeWhile isWordChar := by
    rw [List.takeWhile_append_of_pos hname.2, List.takeWhile_cons_of_pos hchar]
  have hother : IsWord (name ++ char :: rest.takeWhile isWordChar) := by
    refine ⟨List.append_ne_nil_of_left_ne_nil hname.1 _, ?_⟩
    rw [← htaken]
    exact List.all_eq_true.mp List.all_takeWhile
  have hrest : ∀ next ∈ (rest.dropWhile isWordChar).head?, isWordChar next = false := by
    intro next hnext
    have hnot := List.head?_dropWhile_not isWordChar rest
    rw [hnext] at hnot
    exact hnot
  obtain ⟨renamed, hread⟩ := exists_readItem_append hother hrest
  rw [List.append_assoc, List.cons_append, List.takeWhile_append_dropWhile] at hread
  exact ⟨_, renamed, hread, fun heq ↦ List.cons_ne_nil _ _ (List.append_right_eq_self.mp heq)⟩

end ReadItem

/-! ### Items -/

section Items

variable {path : Str}

/-- Blanks that keep a blank without their line feeds. -/
theorem hasBlank_joinLines {blanks : Str} (hblanks : IsBlank blanks) (hleft : joinLines blanks ≠ []) :
    HasBlank (joinLines blanks) :=
  ⟨hleft, isBlank_joinLines hblanks⟩

/-- A regular renaming gives one binding, and the one it should exactly if its words stay apart. -/
theorem exists_readItem_renaming {name : Str} {other : Renaming} (hname : IsWord name)
    (hother : other.Regular) :
    ∃ imported, readItem (name ++ joinLines other.text) = some imported ∧
      (namedBinding path imported = ⟨other.name, path, .named name⟩ ↔ other.Apart name) := by
  rw [joinLines_text hother]
  unfold Renaming.Apart
  rw [← joinLines_ne_nil_iff, ← joinLines_ne_nil_iff]
  by_cases hbefore : joinLines other.blanksBefore = []
  · have hword : isWordChar 'a' = true := by decide
    obtain ⟨longer, renamed, hread, hne⟩ :=
      @exists_readItem_longer name ('s' :: (joinLines other.blanksBehind ++ other.name)) 'a' hname hword
    rw [hbefore]
    refine ⟨_, hread, iff_of_false (fun heq ↦ ?_) fun hapart ↦ hapart.1 rfl⟩
    exact hne (Member.named.inj (Binding.mk.inj heq).2.2)
  have hblanks := hasBlank_joinLines hother.before.2 hbefore
  by_cases hbehind : joinLines other.blanksBehind = []
  · rw [hbehind]
    refine ⟨_, readItem_joined hname hblanks hother.name, ?_⟩
    constructor
    · intro heq
      exact ⟨hbefore, .inr (Binding.mk.inj heq).1.symm⟩
    · rintro ⟨-, habsurd | heq⟩
      · exact absurd rfl habsurd
      · rw [heq]
        rfl
  · refine ⟨_, readItem_renamed hname hblanks (hasBlank_joinLines hother.behind.2 hbehind) hother.name, ?_⟩
    exact iff_of_true rfl ⟨hbefore, .inl hbehind⟩

/-- A text that ends with a word ends with no blank. -/
theorem isSpaceChar_getLast? {front name : Str} (hname : IsWord name) :
    ∀ char ∈ (front ++ name).getLast?, isSpaceChar char = false := by
  intro char hchar
  rw [List.getLast?_append_of_ne_nil _ hname.1] at hchar
  exact hname.isSpaceChar char (List.mem_of_getLast? hchar)

/-- What is read of a name in braces. -/
theorem trim_joinLines_named {blanksBefore name blanksBehind : Str} {renamed : Option Renaming}
    (hregular : (ImportItem.named blanksBefore name renamed blanksBehind).Regular) :
    trim (joinLines (ImportItem.text (.named blanksBefore name renamed blanksBehind))) =
      joinLines (namedText name renamed) := by
  obtain ⟨hbefore, hname, hrenamed, hbehind⟩ := hregular
  rw [ImportItem.text, joinLines_append, joinLines_append]
  have hword : joinLines (namedText name renamed) =
      name ++ joinLines ((renamed.map Renaming.text).getD []) := by
    rw [namedText, joinLines_append, joinLines_word hname]
  refine trim_append_append (isBlank_joinLines hbefore) (isBlank_joinLines hbehind) ?_ ?_ ?_
  · rw [hword]
    exact List.append_ne_nil_of_left_ne_nil hname.1 _
  · rw [hword]
    exact isSpaceChar_head? hname
  · rw [hword]
    cases renamed with
    | none =>
      rw [show joinLines ((Option.map Renaming.text none).getD []) = [] from rfl, List.append_nil]
      exact @isSpaceChar_getLast? [] name hname
    | some other =>
      have hother := hrenamed other rfl
      rw [Option.map_some, Option.getD_some, joinLines_text hother, ← List.append_assoc, ← List.append_assoc,
        ← List.append_assoc]
      exact isSpaceChar_getLast? hother.name

/-- What is read of a regular item: nothing of blanks, and of a name one binding, which is the one it should be
exactly if its words stay apart. -/
theorem read_item {item : ImportItem} (hregular : item.Regular) :
    trim (joinLines item.text) = [] ∧ item.bindings path = [] ∧ item.Apart ∨
      trim (joinLines item.text) ≠ [] ∧ ∃ imported binding, readItem (trim (joinLines item.text)) = some imported ∧
        item.bindings path = [binding] ∧ (namedBinding path imported = binding ↔ item.Apart) := by
  cases item with
  | blank blanks => exact .inl ⟨trim_eq_nil (isBlank_joinLines hregular), rfl, trivial⟩
  | named blanksBefore name renamed blanksBehind =>
    have htrim := trim_joinLines_named hregular
    obtain ⟨-, hname, hrenamed, -⟩ := hregular
    rw [namedText, joinLines_append, joinLines_word hname] at htrim
    refine .inr ⟨htrim ▸ List.append_ne_nil_of_left_ne_nil hname.1 _, ?_⟩
    rw [htrim]
    cases renamed with
    | none =>
      rw [show joinLines ((Option.map Renaming.text none).getD []) = [] from rfl, List.append_nil]
      exact ⟨_, _, readItem_name hname, rfl, iff_of_true rfl fun _ hnone ↦
        absurd hnone (Option.not_mem_none _)⟩
    | some other =>
      obtain ⟨imported, hread, hbinding⟩ := @exists_readItem_renaming path _ _ hname (hrenamed other rfl)
      refine ⟨imported, _, hread, rfl, hbinding.trans ?_⟩
      exact ⟨fun hapart _ hmem ↦ Option.some.inj hmem ▸ hapart, fun hapart ↦ hapart other rfl⟩

/-- There is no comma in a regular item. -/
theorem comma_notMem_text {item : ImportItem} (hregular : item.Regular) : ',' ∉ item.text := by
  have hblank : ∀ {blanks : Str}, IsBlank blanks → ',' ∉ blanks :=
    fun hblanks hmem ↦ absurd (hblanks _ hmem) (by decide)
  have hword : ∀ {name : Str}, IsWord name → ',' ∉ name := fun hname ↦ hname.notMem (by decide)
  cases item with
  | blank blanks => exact hblank hregular
  | named blanksBefore name renamed blanksBehind =>
    obtain ⟨hbefore, hname, hrenamed, hbehind⟩ := hregular
    cases renamed with
    | none => simp [ImportItem.text, namedText, hblank hbefore, hblank hbehind, hword hname]
    | some other =>
      have hother := hrenamed other rfl
      simp [ImportItem.text, namedText, Renaming.text, hblank hbefore, hblank hbehind, hword hname,
        hblank hother.before.2, hblank hother.behind.2, hword hother.name]

/-- The joined lines of items. -/
theorem joinLines_itemsText (items : List ImportItem) :
    joinLines (itemsText items) = [','].intercalate (items.map fun item ↦ joinLines item.text) := by
  induction items with
  | nil => rfl
  | cons item items ih =>
    cases items with
    | nil => simp [itemsText]
    | cons next items =>
      have hcomma : joinLines [','] = [','] := by decide
      rw [itemsText, List.map_cons, List.map_cons, List.intercalate_cons_cons, joinLines_append,
        joinLines_append, hcomma]
      rw [itemsText, List.map_cons] at ih
      rw [ih, List.map_cons, List.map_cons, List.map_cons, List.intercalate_cons_cons]

/-- What is read of names in braces is read of each of them that is not blank. -/
theorem namedImports_braces {items : List ImportItem} (hitems : ∀ item ∈ items, item.Regular) :
    namedImports (ImportClause.text (.braces items)) =
      ((items.map fun item ↦ trim (joinLines item.text)).filter (· ≠ [])).mapM readItem := by
  have hinner : ((ImportClause.text (.braces items)).drop 1).take
      ((ImportClause.text (.braces items)).length - 2) = itemsText items := by
    simp [ImportClause.text]
  rw [namedImports, hinner, joinLines_itemsText]
  cases items with
  | nil => rfl
  | cons item items =>
    have hcomma : ∀ text ∈ (item :: items).map fun item ↦ joinLines item.text, ',' ∉ text := by
      intro text htext hmem
      obtain ⟨other, hother, rfl⟩ := List.mem_map.mp htext
      exact comma_notMem_text (hitems other hother) (List.mem_filter.mp hmem).1
    rw [List.splitOn_intercalate ',' hcomma (List.cons_ne_nil _ _), List.map_map]
    rfl

/-- Names in braces give as many bindings as they should, and those they should exactly if their words stay
apart. -/
theorem exists_namedImports {items : List ImportItem} (hitems : ∀ item ∈ items, item.Regular) :
    ∃ imports, ((items.map fun item ↦ trim (joinLines item.text)).filter (· ≠ [])).mapM readItem = some imports ∧
      imports.length = (items.flatMap (ImportItem.bindings path)).length ∧
        (imports.map (namedBinding path) = items.flatMap (ImportItem.bindings path) ↔
          ∀ item ∈ items, item.Apart) := by
  induction items with
  | nil => exact ⟨[], rfl, rfl, iff_of_true rfl fun _ hnil ↦ absurd hnil List.not_mem_nil⟩
  | cons item items ih =>
    obtain ⟨hitem, hitems⟩ := List.forall_mem_cons.mp hitems
    obtain ⟨imports, hmap, hlength, hbindings⟩ := ih hitems
    rw [List.map_cons, List.flatMap_cons, List.forall_mem_cons]
    rcases @read_item path item hitem with ⟨hblank, hnone, hapart⟩ | ⟨hne, imported, binding, hread, hone, hapart⟩
    · refine ⟨imports, ?_, ?_, ?_⟩
      · rw [List.filter_cons_of_neg (by simp [hblank]), hmap]
      · rw [hnone, List.nil_append, hlength]
      · rw [hnone, List.nil_append, hbindings]
        exact ⟨fun hall ↦ ⟨hapart, hall⟩, fun hall ↦ hall.2⟩
    · refine ⟨imported :: imports, ?_, ?_, ?_⟩
      · rw [List.filter_cons_of_pos (by simp [hne]), List.mapM_cons, hread, hmap]
        rfl
      · rw [hone, List.singleton_append, List.length_cons, List.length_cons, hlength]
      · rw [hone, List.singleton_append, List.map_cons, List.cons.injEq, hbindings, hapart]

end Items

/-! ### Statements -/

/-- A regular statement gives as many bindings as it should, and those it should exactly if the names in its
braces stay apart. -/
theorem exists_setupImport {statement : ImportStatement} (hregular : statement.Regular) :
    ∃ bindings, setupImport (statement.captures statement.path) = some bindings ∧
      bindings.length = statement.bindings.length ∧ (bindings = statement.bindings ↔ statement.Apart) := by
  obtain ⟨blanks, fromClause, quote, path⟩ := statement
  cases fromClause with
  | none => exact ⟨[], rfl, rfl, iff_of_true rfl fun _ hnone ↦ absurd hnone (Option.not_mem_none _)⟩
  | some fromClause =>
    have hclause := (hregular.fromClause fromClause rfl).clause
    obtain ⟨clause, blanksBefore, blanksBehind⟩ := fromClause
    have hapart : ImportStatement.Apart ⟨blanks, some ⟨clause, blanksBefore, blanksBehind⟩, quote, path⟩ ↔
        clause.Apart :=
      ⟨fun hall ↦ hall _ rfl, fun hapart _ hmem ↦ Option.some.inj hmem ▸ hapart⟩
    rw [hapart]
    cases clause with
    | all _ _ name => exact ⟨[⟨name, path, .whole⟩], rfl, rfl, iff_of_true rfl trivial⟩
    | default name => exact ⟨[⟨name, path, .default⟩], rfl, rfl, iff_of_true rfl trivial⟩
    | braces items =>
      obtain ⟨imports, himports, hlength, hbindings⟩ := @exists_namedImports path items hclause
      rw [← namedImports_braces hclause] at himports
      refine ⟨imports.map (namedBinding path), ?_, ?_, hbindings⟩
      · change (namedImports (ImportClause.text (.braces items))).map _ = _
        rw [himports]
        rfl
      · rw [List.length_map, hlength]
        rfl

end Playground.Client
