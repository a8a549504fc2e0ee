import Mathlib.Data.List.Basic

/-!
# Regular expressions that backtrack

A regular expression takes a text to its matches at the beginning of the text, in the order in which a
matcher that backtracks tries them: the first one is the match. A match is what its groups have captured and
the rest of the text. Only classes of characters are repeated, greedily (`many`) or not (`lazy`).

The first match is found along the greedy choices as long as they succeed (`first_seq`, `first_alt_left`),
and another branch is taken only if a branch has no match at all (`first_alt_right`). `lastDelimiter` is what
the greedy repetition up to a delimiter comes to: it ends at the last delimiter in reach. Which texts are
matched at all is `Accepts`.
-/

set_option autoImplicit false
set_option relaxedAutoImplicit false

namespace Playground.Library

/-- A regular expression. -/
inductive Regex
  | skip
  | chars (accepts : Char → Bool)
  | many (accepts : Char → Bool)
  | lazy (accepts : Char → Bool)
  | seq (first second : Regex)
  | alt (first second : Regex)
  | group (index : ℕ) (inner : Regex)

namespace Regex

/-- What the groups have captured. -/
abbrev Captures := List (ℕ × List Char)

/-- The rests behind a greedy repetition, behind the longest one first. -/
def manyRests (accepts : Char → Bool) : List Char → List (List Char)
  | [] => [[]]
  | char :: rest =>
    if accepts char then manyRests accepts rest ++ [char :: rest] else [char :: rest]

/-- The rests behind a repetition that is not greedy, behind the shortest one first. -/
def lazyRests (accepts : Char → Bool) : List Char → List (List Char)
  | [] => [[]]
  | char :: rest => (char :: rest) :: if accepts char then lazyRests accepts rest else []

/-- The matches at the beginning of a text, in the order in which they are tried. -/
def run : Regex → List Char → List (Captures × List Char)
  | skip, text => [([], text)]
  | chars accepts, text =>
    match text with
    | [] => []
    | char :: rest => if accepts char then [([], rest)] else []
  | many accepts, text => (manyRests accepts text).map fun rest ↦ ([], rest)
  | lazy accepts, text => (lazyRests accepts text).map fun rest ↦ ([], rest)
  | seq first second, text =>
    (first.run text).flatMap fun front ↦
      (second.run front.2).map fun back ↦ (front.1 ++ back.1, back.2)
  | alt first second, text => first.run text ++ second.run text
  | group index inner, text =>
    (inner.run text).map fun found ↦
      ((index, text.take (text.length - found.2.length)) :: found.1, found.2)

/-- The match at the beginning of a text. -/
def first (regex : Regex) (text : List Char) : Option (Captures × List Char) :=
  (regex.run text).head?

/-- The captures of the first match anywhere in a text. -/
def search (regex : Regex) : List Char → Option Captures
  | [] => (regex.first []).map Prod.fst
  | char :: rest =>
    match regex.first (char :: rest) with
    | some found => some found.1
    | none => regex.search rest

/-- A text, character by character. -/
def literal (text : List Char) : Regex :=
  text.foldr (fun char rest ↦ seq (chars fun other ↦ other = char) rest) skip

/-- A greedy repetition, at least once. -/
def many1 (accepts : Char → Bool) : Regex :=
  seq (chars accepts) (many accepts)

/-- An expression that may be left out. -/
def optional (regex : Regex) : Regex :=
  alt regex skip

/-- The texts that an expression matches. -/
def Accepts : Regex → List Char → Prop
  | skip, text => text = []
  | chars accepts, text => ∃ char, text = [char] ∧ accepts char = true
  | many accepts, text => ∀ char ∈ text, accepts char = true
  | lazy accepts, text => ∀ char ∈ text, accepts char = true
  | seq first second, text => ∃ front back, text = front ++ back ∧ first.Accepts front ∧ second.Accepts back
  | alt first second, text => first.Accepts text ∨ second.Accepts text
  | group _ inner, text => inner.Accepts text

/-! ### Rests -/

section Rests

variable {accepts : Char → Bool} {text rest : List Char}

/-- A repetition takes characters of its class. -/
theorem exists_of_mem_manyRests (hrest : rest ∈ manyRests accepts text) :
    ∃ taken, text = taken ++ rest ∧ ∀ char ∈ taken, accepts char = true := by
  induction text with
  | nil =>
    obtain rfl := List.mem_singleton.mp hrest
    exact ⟨[], rfl, fun _ hmem ↦ absurd hmem List.not_mem_nil⟩
  | cons char others ih =>
    rw [manyRests] at hrest
    split at hrest
    next haccepts =>
      rcases List.mem_append.mp hrest with hmem | hlast
      · obtain ⟨taken, heq, htaken⟩ := ih hmem
        exact ⟨char :: taken, by rw [heq, List.cons_append],
          List.forall_mem_cons.mpr ⟨haccepts, htaken⟩⟩
      · rw [List.mem_singleton.mp hlast]
        exact ⟨[], rfl, fun _ hmem ↦ absurd hmem List.not_mem_nil⟩
    next =>
      rw [List.mem_singleton.mp hrest]
      exact ⟨[], rfl, fun _ hmem ↦ absurd hmem List.not_mem_nil⟩

/-- A repetition that is not greedy takes characters of its class. -/
theorem exists_of_mem_lazyRests (hrest : rest ∈ lazyRests accepts text) :
    ∃ taken, text = taken ++ rest ∧ ∀ char ∈ taken, accepts char = true := by
  induction text with
  | nil =>
    obtain rfl := List.mem_singleton.mp hrest
    exact ⟨[], rfl, fun _ hmem ↦ absurd hmem List.not_mem_nil⟩
  | cons char others ih =>
    rw [lazyRests] at hrest
    rcases List.mem_cons.mp hrest with rfl | hmem
    · exact ⟨[], rfl, fun _ hmem ↦ absurd hmem List.not_mem_nil⟩
    · split at hmem
      next haccepts =>
        obtain ⟨taken, heq, htaken⟩ := ih hmem
        exact ⟨char :: taken, by rw [heq, List.cons_append],
          List.forall_mem_cons.mpr ⟨haccepts, htaken⟩⟩
      next => cases hmem

/-- A repetition may take all characters of its class. -/
theorem mem_manyRests_append {taken : List Char} (htaken : ∀ char ∈ taken, accepts char = true) :
    rest ∈ manyRests accepts (taken ++ rest) := by
  induction taken with
  | nil =>
    cases rest with
    | nil => exact List.mem_singleton.mpr rfl
    | cons char others =>
      rw [List.nil_append, manyRests]
      split
      · exact List.mem_append_right _ (List.mem_singleton.mpr rfl)
      · exact List.mem_singleton.mpr rfl
  | cons char taken ih =>
    obtain ⟨hchar, htaken⟩ := List.forall_mem_cons.mp htaken
    rw [List.cons_append, manyRests, if_pos hchar]
    exact List.mem_append_left _ (ih htaken)

/-- A repetition that is not greedy may take all characters of its class. -/
theorem mem_lazyRests_append {taken : List Char} (htaken : ∀ char ∈ taken, accepts char = true) :
    rest ∈ lazyRests accepts (taken ++ rest) := by
  induction taken with
  | nil =>
    cases rest with
    | nil => exact List.mem_singleton.mpr rfl
    | cons char others => exact List.mem_cons_self
  | cons char taken ih =>
    obtain ⟨hchar, htaken⟩ := List.forall_mem_cons.mp htaken
    rw [List.cons_append, lazyRests, if_pos hchar]
    exact List.mem_cons_of_mem _ (ih htaken)

/-- The longest repetition ends where its class does. -/
theorem head?_manyRests {taken : List Char} (htaken : ∀ char ∈ taken, accepts char = true)
    (hrest : ∀ char ∈ rest.head?, accepts char = false) :
    (manyRests accepts (taken ++ rest)).head? = some rest := by
  induction taken with
  | nil =>
    cases rest with
    | nil => rfl
    | cons char others =>
      rw [List.nil_append, manyRests, if_neg (by rw [hrest char rfl]; exact Bool.false_ne_true)]
      rfl
  | cons char taken ih =>
    obtain ⟨hchar, htaken⟩ := List.forall_mem_cons.mp htaken
    rw [List.cons_append, manyRests, if_pos hchar, List.head?_append, ih htaken]
    rfl

end Rests

/-! ### Matches -/

section Matches

variable {regex other : Regex} {text rest : List Char} {captures : Captures}

/-- The matches of a sequence. -/
theorem run_seq : (seq regex other).run text =
    (regex.run text).flatMap fun front ↦ (other.run front.2).map fun back ↦ (front.1 ++ back.1, back.2) :=
  rfl

/-- The matches of an alternative. -/
theorem run_alt : (alt regex other).run text = regex.run text ++ other.run text :=
  rfl

/-- The matches of a group. -/
theorem run_group {index : ℕ} : (group index regex).run text =
    (regex.run text).map fun found ↦ ((index, text.take (text.length - found.2.length)) :: found.1, found.2) :=
  rfl

/-- The matches of a greedy repetition. -/
theorem run_many {accepts : Char → Bool} :
    (many accepts).run text = (manyRests accepts text).map fun rest ↦ ([], rest) :=
  rfl

/-- The matches of a repetition that is not greedy. -/
theorem run_lazy {accepts : Char → Bool} :
    (lazy accepts).run text = (lazyRests accepts text).map fun rest ↦ ([], rest) :=
  rfl

/-- The first match is the first one that is tried. -/
theorem first_eq : regex.first text = (regex.run text).head? :=
  rfl

/-- A match of a sequence is one of its first part and one of its second part behind it. -/
theorem mem_run_seq_iff :
    (captures, rest) ∈ (seq regex other).run text ↔
      ∃ front middle back, (front, middle) ∈ regex.run text ∧ (back, rest) ∈ other.run middle ∧
        captures = front ++ back := by
  constructor
  · intro hrun
    obtain ⟨⟨front, middle⟩, hfront, hmem⟩ := List.mem_flatMap.mp hrun
    obtain ⟨⟨back, others⟩, hback, heq⟩ := List.mem_map.mp hmem
    obtain ⟨rfl, rfl⟩ := Prod.mk.inj heq
    exact ⟨front, middle, back, hfront, hback, rfl⟩
  · rintro ⟨front, middle, back, hfront, hback, rfl⟩
    exact List.mem_flatMap.mpr ⟨_, hfront, List.mem_map.mpr ⟨_, hback, rfl⟩⟩

/-- Matches behind one that has captured nothing. -/
theorem map_nil_captures (found : List (Captures × List Char)) :
    (found.map fun back ↦ (([] : Captures) ++ back.1, back.2)) = found :=
  List.map_id' found

/-- One character is matched. -/
theorem run_chars {accepts : Char → Bool} {char : Char} (haccepts : accepts char = true) :
    (chars accepts).run (char :: rest) = [([], rest)] :=
  if_pos haccepts

/-- A match is an accepted text in front of the rest. -/
theorem exists_accepts_of_mem_run (hrun : (captures, rest) ∈ regex.run text) :
    ∃ matched, text = matched ++ rest ∧ regex.Accepts matched := by
  induction regex generalizing text captures rest with
  | skip =>
    obtain ⟨-, rfl⟩ := Prod.mk.inj (List.mem_singleton.mp hrun)
    exact ⟨[], rfl, rfl⟩
  | chars accepts =>
    cases text with
    | nil => cases hrun
    | cons char others =>
      rw [run] at hrun
      split at hrun
      next haccepts =>
        obtain ⟨-, rfl⟩ := Prod.mk.inj (List.mem_singleton.mp hrun)
        exact ⟨[char], rfl, char, rfl, haccepts⟩
      next => cases hrun
  | many accepts =>
    obtain ⟨others, hothers, heq⟩ := List.mem_map.mp hrun
    obtain ⟨-, rfl⟩ := Prod.mk.inj heq
    exact exists_of_mem_manyRests hothers
  | lazy accepts =>
    obtain ⟨others, hothers, heq⟩ := List.mem_map.mp hrun
    obtain ⟨-, rfl⟩ := Prod.mk.inj heq
    exact exists_of_mem_lazyRests hothers
  | seq front back hfront hback =>
    obtain ⟨first, middle, second, hfirst, hsecond, -⟩ := mem_run_seq_iff.mp hrun
    obtain ⟨matched, rfl, hmatched⟩ := hfront hfirst
    obtain ⟨more, rfl, hmore⟩ := hback hsecond
    exact ⟨matched ++ more, (List.append_assoc _ _ _).symm, matched, more, rfl, hmatched, hmore⟩
  | alt front back hfront hback =>
    rcases List.mem_append.mp hrun with hmem | hmem
    · obtain ⟨matched, htext, hmatched⟩ := hfront hmem
      exact ⟨matched, htext, .inl hmatched⟩
    · obtain ⟨matched, htext, hmatched⟩ := hback hmem
      exact ⟨matched, htext, .inr hmatched⟩
  | group index inner hinner =>
    obtain ⟨⟨found, others⟩, hfound, heq⟩ := List.mem_map.mp hrun
    obtain ⟨-, rfl⟩ := Prod.mk.inj heq
    exact hinner hfound

/-- An accepted text is matched in front of any rest. -/
theorem exists_mem_run_of_accepts {matched : List Char} (haccepts : regex.Accepts matched)
    (rest : List Char) : ∃ captures, (captures, rest) ∈ regex.run (matched ++ rest) := by
  induction regex generalizing matched rest with
  | skip =>
    obtain rfl : matched = [] := haccepts
    exact ⟨[], List.mem_singleton.mpr rfl⟩
  | chars accepts =>
    obtain ⟨char, rfl, hchar⟩ := haccepts
    refine ⟨[], ?_⟩
    rw [List.singleton_append, run_chars hchar]
    exact List.mem_singleton.mpr rfl
  | many accepts => exact ⟨[], List.mem_map.mpr ⟨rest, mem_manyRests_append haccepts, rfl⟩⟩
  | lazy accepts => exact ⟨[], List.mem_map.mpr ⟨rest, mem_lazyRests_append haccepts, rfl⟩⟩
  | seq front back hfront hback =>
    obtain ⟨first, second, rfl, hfirst, hsecond⟩ := haccepts
    obtain ⟨found, hfound⟩ := hback hsecond rest
    obtain ⟨start, hstart⟩ := hfront hfirst (second ++ rest)
    rw [List.append_assoc]
    exact ⟨start ++ found, mem_run_seq_iff.mpr ⟨start, second ++ rest, found, hstart, hfound, rfl⟩⟩
  | alt front back hfront hback =>
    rcases haccepts with haccepts | haccepts
    · obtain ⟨found, hfound⟩ := hfront haccepts rest
      exact ⟨found, List.mem_append_left _ hfound⟩
    · obtain ⟨found, hfound⟩ := hback haccepts rest
      exact ⟨found, List.mem_append_right _ hfound⟩
  | group index inner hinner =>
    obtain ⟨start, hstart⟩ := hinner haccepts rest
    exact ⟨_, List.mem_map.mpr ⟨_, hstart, rfl⟩⟩

/-- Somewhere in the order of the matches there is one exactly if an accepted text is in front of the rest. -/
theorem run_ne_nil_iff :
    regex.run text ≠ [] ↔ ∃ matched rest, text = matched ++ rest ∧ regex.Accepts matched := by
  constructor
  · intro hne
    obtain ⟨⟨captures, rest⟩, hmem⟩ := List.exists_mem_of_ne_nil _ hne
    obtain ⟨matched, htext, hmatched⟩ := exists_accepts_of_mem_run hmem
    exact ⟨matched, rest, htext, hmatched⟩
  · rintro ⟨matched, rest, rfl, hmatched⟩
    obtain ⟨captures, hmem⟩ := exists_mem_run_of_accepts hmatched rest
    exact List.ne_nil_of_mem hmem

/-- A literal accepts itself. -/
theorem accepts_literal_iff {accepted : List Char} :
    (literal text).Accepts accepted ↔ accepted = text := by
  induction text generalizing accepted with
  | nil => exact Iff.rfl
  | cons char text ih =>
    constructor
    · rintro ⟨front, back, rfl, ⟨other, rfl, hother⟩, hback⟩
      rw [of_decide_eq_true hother, ih.mp hback, List.singleton_append]
    · rintro rfl
      exact ⟨[char], text, rfl, ⟨char, rfl, decide_eq_true rfl⟩, ih.mpr rfl⟩

/-- A repetition, at least once, accepts the nonempty texts over its class. -/
theorem accepts_many1_iff {accepts : Char → Bool} :
    (many1 accepts).Accepts text ↔ text ≠ [] ∧ ∀ char ∈ text, accepts char = true := by
  constructor
  · rintro ⟨front, back, rfl, ⟨char, rfl, hchar⟩, hback⟩
    exact ⟨List.cons_ne_nil _ _, List.forall_mem_cons.mpr ⟨hchar, hback⟩⟩
  · rintro ⟨hne, hall⟩
    cases text with
    | nil => exact absurd rfl hne
    | cons char text =>
      obtain ⟨hchar, htext⟩ := List.forall_mem_cons.mp hall
      exact ⟨[char], text, rfl, ⟨char, rfl, hchar⟩, htext⟩

/-- One character is not matched. -/
theorem run_chars_eq_nil {accepts : Char → Bool} (hhead : ∀ char ∈ text.head?, accepts char = false) :
    (chars accepts).run text = [] := by
  cases text with
  | nil => rfl
  | cons char others => exact if_neg (by rw [hhead char rfl]; exact Bool.false_ne_true)

/-- Without a match of its first part a sequence has none. -/
theorem run_seq_eq_nil (hnil : regex.run text = []) : (seq regex other).run text = [] := by
  rw [run_seq, hnil, List.flatMap_nil]

/-- Without a match of its parts an alternative has none. -/
theorem run_alt_eq_nil (hfirst : regex.run text = []) (hsecond : other.run text = []) :
    (alt regex other).run text = [] := by
  rw [run_alt, hfirst, hsecond, List.append_nil]

/-- Without a match of what it captures a group has none. -/
theorem run_group_eq_nil {index : ℕ} (hnil : regex.run text = []) :
    (group index regex).run text = [] := by
  rw [run_group, hnil, List.map_nil]

end Matches

/-! ### The first match -/

section First

variable {regex other : Regex} {text middle rest : List Char} {front back captures : Captures}

/-- The first match of a sequence, if its second part matches behind the first match of its first part. -/
theorem first_seq (hfront : regex.first text = some (front, middle))
    (hback : other.first middle = some (back, rest)) :
    (seq regex other).first text = some (front ++ back, rest) := by
  obtain ⟨fronts, hfronts⟩ := List.head?_eq_some_iff.mp hfront
  obtain ⟨backs, hbacks⟩ := List.head?_eq_some_iff.mp hback
  rw [first_eq, run_seq, hfronts, List.flatMap_cons, hbacks]
  rfl

/-- The first match of an alternative is that of its first part, if there is one. -/
theorem first_alt_left (hfirst : regex.first text = some (captures, rest)) :
    (alt regex other).first text = some (captures, rest) := by
  rw [first_eq] at hfirst
  rw [first_eq, run_alt, List.head?_append, hfirst]
  rfl

/-- The first match of an alternative is that of its second part, if there is none of its first part. -/
theorem first_alt_right (hnil : regex.run text = []) :
    (alt regex other).first text = other.first text := by
  rw [first_eq, run_alt, hnil, List.nil_append, first_eq]

/-- The first match of a group is captured. -/
theorem first_group {index : ℕ} {matched : List Char}
    (hfirst : regex.first (matched ++ rest) = some (captures, rest)) :
    (group index regex).first (matched ++ rest) = some ((index, matched) :: captures, rest) := by
  rw [first_eq] at hfirst
  rw [first_eq, run_group, List.head?_map, hfirst]
  simp

/-- The first match of one character. -/
theorem first_chars {accepts : Char → Bool} {char : Char} (haccepts : accepts char = true) :
    (chars accepts).first (char :: rest) = some ([], rest) := by
  rw [first_eq, run_chars haccepts]
  rfl

/-- The first match of a greedy repetition is the longest one. -/
theorem first_many {accepts : Char → Bool} {taken : List Char}
    (htaken : ∀ char ∈ taken, accepts char = true) (hrest : ∀ char ∈ rest.head?, accepts char = false) :
    (many accepts).first (taken ++ rest) = some ([], rest) := by
  rw [first_eq, run_many, List.head?_map, head?_manyRests htaken hrest]
  rfl

/-- The first match of a greedy repetition, at least once, is the longest one. -/
theorem first_many1 {accepts : Char → Bool} {taken : List Char} (hne : taken ≠ [])
    (htaken : ∀ char ∈ taken, accepts char = true) (hrest : ∀ char ∈ rest.head?, accepts char = false) :
    (many1 accepts).first (taken ++ rest) = some ([], rest) := by
  cases taken with
  | nil => exact absurd rfl hne
  | cons char taken =>
    obtain ⟨hchar, htaken⟩ := List.forall_mem_cons.mp htaken
    exact first_seq (first_chars hchar) (first_many htaken hrest)

/-- The first match of a literal is the literal. -/
theorem first_literal (text rest : List Char) :
    (literal text).first (text ++ rest) = some ([], rest) := by
  induction text with
  | nil => rfl
  | cons char text ih => exact first_seq (first_chars (decide_eq_true rfl)) ih

/-- An expression that may be left out always matches. -/
theorem exists_first_optional (regex : Regex) (text : List Char) :
    ∃ captures rest, (optional regex).first text = some (captures, rest) := by
  have hskip : (([], text) : Captures × List Char) ∈ (optional regex).run text :=
    List.mem_append_right _ (List.mem_singleton.mpr rfl)
  obtain ⟨found, others, hrun⟩ := List.exists_cons_of_ne_nil (List.ne_nil_of_mem hskip)
  exact ⟨found.1, found.2, congrArg List.head? hrun⟩

/-- An expression behind a class matches behind the character. -/
theorem first_seq_chars {accepts : Char → Bool} {char : Char} (haccepts : accepts char = true) :
    (seq (chars accepts) other).first (char :: rest) = other.first rest := by
  rw [first_eq, run_seq, run_chars haccepts, List.flatMap_singleton, map_nil_captures, first_eq]

/-- An expression behind a literal matches behind the literal. -/
theorem first_seq_literal (text : List Char) :
    (seq (literal text) other).first (text ++ rest) = other.first rest := by
  have hliteral : (literal text).run (text ++ rest) = [([], rest)] := by
    induction text with
    | nil => rfl
    | cons char text ih =>
      change (seq (chars fun next ↦ next = char) (literal text)).run (char :: (text ++ rest)) = _
      rw [run_seq, run_chars (decide_eq_true rfl), List.flatMap_singleton, ih]
      rfl
  rw [first_eq, run_seq, hliteral, List.flatMap_singleton, map_nil_captures, first_eq]

/-- A repetition that is not greedy takes nothing if what is behind it matches. -/
theorem first_seq_lazy_of_some {accepts : Char → Bool} (hother : other.first text = some (captures, rest)) :
    (seq (lazy accepts) other).first text = some (captures, rest) := by
  obtain ⟨others, hothers⟩ := List.head?_eq_some_iff.mp hother
  have hrests : ∃ more, lazyRests accepts text = text :: more := by
    cases text with
    | nil => exact ⟨[], rfl⟩
    | cons char text => exact ⟨_, rfl⟩
  obtain ⟨more, hmore⟩ := hrests
  rw [first_eq, run_seq, run_lazy, hmore, List.map_cons, List.flatMap_cons, hothers]
  rfl

/-- A repetition that is not greedy takes a character if what is behind it does not match. -/
theorem first_seq_lazy_of_none {accepts : Char → Bool} {char : Char} (hother : other.first (char :: rest) = none) :
    (seq (lazy accepts) other).first (char :: rest) =
      if accepts char then (seq (lazy accepts) other).first rest else none := by
  have hnil : other.run (char :: rest) = [] := List.head?_eq_none_iff.mp hother
  rw [first_eq, run_seq, run_lazy, lazyRests, List.map_cons, List.flatMap_cons, hnil, List.map_nil, List.nil_append]
  split
  · rfl
  · rfl

/-- A match at the beginning of a text is found first. -/
theorem search_of_first (hfirst : regex.first text = some (captures, rest)) :
    regex.search text = some captures := by
  cases text with
  | nil => rw [search, hfirst, Option.map_some]
  | cons char others => rw [search, hfirst]

end First

/-! ### The last delimiter -/

/-- The text in front of the last delimiter in reach and the text behind it, the reach being as far as a
repetition goes. -/
def lastDelimiter (accepts delimits : Char → Bool) : List Char → Option (List Char × List Char)
  | [] => none
  | char :: rest =>
    if accepts char then
      match lastDelimiter accepts delimits rest with
      | some (taken, others) => some (char :: taken, others)
      | none => if delimits char then some ([], rest) else none
    else if delimits char then some ([], rest) else none

section LastDelimiter

variable {accepts delimits : Char → Bool} {text taken rest : List Char}

/-- The last delimiter is a delimiter, and the repetition goes as far as it. -/
theorem lastDelimiter_eq_some (hlast : lastDelimiter accepts delimits text = some (taken, rest)) :
    ∃ delimiter, text = taken ++ delimiter :: rest ∧ delimits delimiter = true ∧
      ∀ char ∈ taken, accepts char = true := by
  induction text generalizing taken with
  | nil => cases hlast
  | cons char others ih =>
    have hhere : (if delimits char then some ([], others) else none) = some (taken, rest) →
        ∃ delimiter, char :: others = taken ++ delimiter :: rest ∧ delimits delimiter = true ∧
          ∀ char ∈ taken, accepts char = true := by
      intro hhere
      split at hhere
      next hdelimits =>
        obtain ⟨rfl, rfl⟩ := Prod.mk.inj (Option.some.inj hhere)
        exact ⟨char, rfl, hdelimits, fun _ hmem ↦ absurd hmem List.not_mem_nil⟩
      next => cases hhere
    rw [lastDelimiter] at hlast
    split at hlast
    next haccepts =>
      split at hlast
      next more behind hmore =>
        obtain ⟨rfl, rfl⟩ := Prod.mk.inj (Option.some.inj hlast)
        obtain ⟨delimiter, htext, hdelimits, hmatches⟩ := ih hmore
        exact ⟨delimiter, by rw [htext, List.cons_append], hdelimits,
          List.forall_mem_cons.mpr ⟨haccepts, hmatches⟩⟩
      next => exact hhere hlast
    next => exact hhere hlast

/-- Without a delimiter in reach there is no last one. -/
theorem lastDelimiter_eq_none_iff (haccepts : ∀ char, delimits char = true → accepts char = true) :
    lastDelimiter accepts delimits text = none ↔
      ∀ char ∈ text.takeWhile accepts, delimits char = false := by
  induction text with
  | nil => exact ⟨fun _ _ hmem ↦ absurd hmem List.not_mem_nil, fun _ ↦ rfl⟩
  | cons char others ih =>
    rw [lastDelimiter]
    by_cases hchar : accepts char = true
    · rw [if_pos hchar, List.takeWhile_cons_of_pos hchar, List.forall_mem_cons, ← ih]
      cases lastDelimiter accepts delimits others with
      | some found => simp
      | none => cases hdelimits : delimits char <;> simp
    · have hdelimits : delimits char = false := Bool.eq_false_iff.mpr (mt (haccepts char) hchar)
      rw [if_neg hchar, List.takeWhile_cons_of_neg hchar, if_neg (by rw [hdelimits]; exact Bool.false_ne_true)]
      exact ⟨fun _ _ hmem ↦ absurd hmem List.not_mem_nil, fun _ ↦ rfl⟩

/-- Behind a text in reach and a delimiter, the last delimiter is that one or one behind it. -/
theorem lastDelimiter_append {delimiter : Char} (hdelimits : delimits delimiter = true)
    (hdelimiter : accepts delimiter = true) (htaken : ∀ char ∈ taken, accepts char = true) :
    lastDelimiter accepts delimits (taken ++ delimiter :: rest) =
      some (match lastDelimiter accepts delimits rest with
        | some (more, others) => (taken ++ delimiter :: more, others)
        | none => (taken, rest)) := by
  induction taken with
  | nil =>
    rw [List.nil_append, lastDelimiter, if_pos hdelimiter]
    cases lastDelimiter accepts delimits rest with
    | some found => rfl
    | none => exact if_pos hdelimits
  | cons char taken ih =>
    obtain ⟨hchar, htaken⟩ := List.forall_mem_cons.mp htaken
    rw [List.cons_append, lastDelimiter, if_pos hchar, ih htaken]
    cases lastDelimiter accepts delimits rest with
    | some found => rfl
    | none => rfl

/-- What the rests behind a greedy repetition come to, if what is selected of them are the rests that a delimiter
begins: the first one is that of the last delimiter in reach. -/
theorem head?_flatMap_manyRests {β : Type*} {select : List Char → List β}
    (hskip : ∀ rest, (∀ char ∈ rest.head?, delimits char = false) → select rest = [])
    (hselect : ∀ char rest, delimits char = true → select (char :: rest) ≠ []) :
    ((manyRests accepts text).flatMap select).head? =
      (lastDelimiter accepts delimits text).bind fun found ↦ (select (text.drop found.1.length)).head? := by
  have hhere : ∀ (char : Char) (rest : List Char), (select (char :: rest)).head? =
      (if delimits char then some (([] : List Char), rest) else none).bind fun found ↦
        (select ((char :: rest).drop found.1.length)).head? := by
    intro char rest
    cases hdelimits : delimits char with
    | true => rfl
    | false =>
      have hchar : ∀ other ∈ (char :: rest).head?, delimits other = false := by
        rintro other hother
        rwa [← Option.some.inj hother]
      rw [hskip (char :: rest) hchar]
      rfl
  induction text with
  | nil =>
    rw [manyRests, List.flatMap_singleton, hskip [] fun _ hnone ↦ absurd hnone (Option.not_mem_none _)]
    rfl
  | cons char rest ih =>
    rw [manyRests, lastDelimiter]
    by_cases hchar : accepts char = true
    · rw [if_pos hchar, if_pos hchar, List.flatMap_append, List.head?_append, List.flatMap_singleton, ih]
      cases hlast : lastDelimiter accepts delimits rest with
      | some found =>
        obtain ⟨taken, others⟩ := found
        obtain ⟨delimiter, rfl, hdelimiter, -⟩ := lastDelimiter_eq_some hlast
        obtain ⟨first, more, hfirst⟩ := List.exists_cons_of_ne_nil (hselect delimiter others hdelimiter)
        rw [Option.bind_some, Option.bind_some, List.length_cons, List.drop_succ_cons, List.drop_left, hfirst]
        rfl
      | none => exact hhere char rest
    · rw [if_neg hchar, if_neg hchar, List.flatMap_singleton]
      exact hhere char rest

/-- A greedy repetition in a group, with a delimiter behind it, takes what is in front of the last delimiter
in reach. -/
theorem first_group_delimiter {index : ℕ} {char : Char} (hchar : accepts char = true) :
    (seq (group index (many1 accepts)) (chars delimits)).first (char :: text) =
      (lastDelimiter accepts delimits text).map fun found ↦
        ([(index, char :: found.1)], found.2) := by
  have hmany : (many1 accepts).run (char :: text) = (manyRests accepts text).map fun rest ↦ ([], rest) := by
    rw [many1, run_seq, run_chars hchar, List.flatMap_singleton, run_many, List.map_map]
    rfl
  rw [first_eq, run_seq, run_group, hmany, List.map_map, List.flatMap_map, @head?_flatMap_manyRests accepts delimits]
  · cases hlast : lastDelimiter accepts delimits text with
    | none => rfl
    | some found =>
      obtain ⟨taken, rest⟩ := found
      obtain ⟨delimiter, rfl, hdelimiter, -⟩ := lastDelimiter_eq_some hlast
      have htake : (char :: (taken ++ delimiter :: rest)).take
          ((char :: (taken ++ delimiter :: rest)).length - (delimiter :: rest).length) = char :: taken := by
        rw [← List.cons_append, List.length_append, Nat.add_sub_cancel, List.take_left]
      rw [Option.bind_some, List.drop_left]
      dsimp only [Function.comp_apply]
      rw [run_chars hdelimiter, htake]
      rfl
  · intro rest hrest
    dsimp only [Function.comp_apply]
    rw [run_chars_eq_nil hrest, List.map_nil]
  · intro delimiter rest hdelimiter
    dsimp only [Function.comp_apply]
    rw [run_chars hdelimiter]
    exact List.cons_ne_nil _ _

/-- A greedy repetition with a delimiter behind it, and an expression that always matches behind that, takes what
is in front of the last delimiter in reach. -/
theorem first_many_delimiter {other : Regex} (hother : ∀ rest, other.run rest ≠ []) :
    (seq (many accepts) (seq (chars delimits) other)).first text =
      (lastDelimiter accepts delimits text).bind fun found ↦ other.first found.2 := by
  rw [first_eq, run_seq, run_many, List.flatMap_map, @head?_flatMap_manyRests accepts delimits]
  · cases hlast : lastDelimiter accepts delimits text with
    | none => rfl
    | some found =>
      obtain ⟨taken, rest⟩ := found
      obtain ⟨delimiter, rfl, hdelimiter, -⟩ := lastDelimiter_eq_some hlast
      rw [Option.bind_some, Option.bind_some, List.drop_left, map_nil_captures, run_seq, run_chars hdelimiter,
        List.flatMap_singleton, map_nil_captures, first_eq]
  · intro rest hrest
    rw [run_seq_eq_nil (run_chars_eq_nil hrest), List.map_nil]
  · intro delimiter rest hdelimiter
    rw [map_nil_captures, run_seq, run_chars hdelimiter, List.flatMap_singleton, map_nil_captures]
    exact hother rest

end LastDelimiter

end Regex

end Playground.Library
