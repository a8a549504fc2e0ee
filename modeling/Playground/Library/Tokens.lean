import Playground.Library.Regex

/-!
# Going on behind each match

`tokens` is what is left of a text and what is matched in it when matching goes on behind each match, as for an
expression with the flag `g` that matches no empty text. `matchAll` are the matches among them with their
indices.

Behind a text whose matches stay in it (`Stays`) the tokens are those of the rest. Such a text keeps no more
characters than it has, and all of them only if nothing matches in it (`exists_tokens_append`).
-/

set_option autoImplicit false
set_option relaxedAutoImplicit false

namespace Playground.Library

namespace Regex

/-- A character that is in no match, or a match with what its groups have captured. -/
inductive Token
  | char (char : Char)
  | found (matched : List Char) (captures : Captures)

/-- The tokens of a text, in at most so many steps. -/
def tokensWith (regex : Regex) : ℕ → List Char → List Token
  | _, [] => []
  | 0, text => text.map .char
  | fuel + 1, char :: rest =>
    match regex.first (char :: rest) with
    | none => .char char :: tokensWith regex fuel rest
    | some (captures, behind) =>
      .found ((char :: rest).take ((char :: rest).length - behind.length)) captures ::
        tokensWith regex fuel behind

/-- The tokens of a text. Each step takes a character. -/
def tokens (regex : Regex) (text : List Char) : List Token :=
  regex.tokensWith text.length text

/-- The text of a token. -/
def Token.text : Token → List Char
  | .char single => [single]
  | .found matched _ => matched

/-- The matches among tokens, each with where it begins if the tokens begin at a position. -/
def matchesFrom : ℕ → List Token → List (ℕ × List Char)
  | _, [] => []
  | position, .char _ :: rest => matchesFrom (position + 1) rest
  | position, .found matched _ :: rest =>
    (position, matched) :: matchesFrom (position + matched.length) rest

/-- `String.prototype.matchAll`: the matches in a text, each with its index. -/
def matchAll (regex : Regex) (text : List Char) : List (ℕ × List Char) :=
  matchesFrom 0 (regex.tokens text)

/-- The character that a token keeps. -/
def Token.kept : Token → Option Char
  | .char single => some single
  | .found _ _ => none

/-- What the groups of a match have captured. -/
def Token.captured : Token → Option Captures
  | .char _ => none
  | .found _ captures => some captures

/-- An expression that accepts no empty text. -/
def Consumes (regex : Regex) : Prop :=
  ¬ regex.Accepts []

/-- An expression matches nowhere in a text. -/
def NoMatch (regex : Regex) (text : List Char) : Prop :=
  ∀ rest, rest <:+ text → regex.first rest = none

/-- The matches that begin in a text end in it. -/
def Stays (regex : Regex) (text rest : List Char) : Prop :=
  ∀ back, back <:+ text → back ≠ [] → ∀ found ∈ regex.run (back ++ rest), rest.length ≤ found.2.length

section Tokens

variable {regex : Regex} {text rest : List Char}

/-- A match takes a character. -/
theorem Consumes.length_lt (hconsumes : regex.Consumes) {found : Captures × List Char}
    (hfound : found ∈ regex.run text) : found.2.length < text.length := by
  obtain ⟨matched, rfl, hmatched⟩ := exists_accepts_of_mem_run hfound
  have hne : matched ≠ [] := fun hnil ↦ hconsumes (hnil ▸ hmatched)
  rw [List.length_append]
  exact Nat.lt_add_of_pos_left (List.length_pos_iff.mpr hne)

/-- Some more steps make no difference. -/
theorem tokensWith_eq (hconsumes : regex.Consumes) {fuel : ℕ} (hfuel : text.length ≤ fuel) :
    regex.tokensWith fuel text = regex.tokens text := by
  unfold tokens
  induction hlength : text.length using Nat.strongRecOn generalizing text fuel with
  | ind length ih =>
    subst hlength
    cases text with
    | nil => cases fuel <;> rfl
    | cons char rest =>
      cases fuel with
      | zero => exact absurd hfuel (Nat.not_succ_le_zero _)
      | succ fuel =>
        have hrest : ∀ others : List Char, others.length ≤ rest.length → others.length ≤ fuel →
            regex.tokensWith fuel others = regex.tokensWith rest.length others := by
          intro others hothers hfuel
          rw [ih others.length (Nat.lt_succ_of_le hothers) hfuel rfl,
            ih others.length (Nat.lt_succ_of_le hothers) hothers rfl]
        have hle : rest.length ≤ fuel := Nat.le_of_succ_le_succ hfuel
        rw [List.length_cons, tokensWith, tokensWith]
        cases hfirst : regex.first (char :: rest) with
        | none => exact congrArg _ (hrest rest (Nat.le_refl _) hle)
        | some found =>
          have hlt := hconsumes.length_lt (List.mem_of_head? hfirst)
          have hbehind : found.2.length ≤ rest.length := Nat.le_of_lt_succ hlt
          exact congrArg _ (hrest found.2 hbehind (Nat.le_trans hbehind hle))

/-- A character at which nothing matches. -/
theorem tokens_cons_of_first_eq_none {char : Char} (hfirst : regex.first (char :: rest) = none) :
    regex.tokens (char :: rest) = .char char :: regex.tokens rest := by
  rw [tokens, List.length_cons, tokensWith, hfirst]
  rfl

/-- A match, and the tokens behind it. -/
theorem tokens_append_of_first_eq_some (hconsumes : regex.Consumes) {matched : List Char}
    {captures : Captures} (hfirst : regex.first (matched ++ rest) = some (captures, rest)) :
    regex.tokens (matched ++ rest) = .found matched captures :: regex.tokens rest := by
  have hlt := hconsumes.length_lt (List.mem_of_head? hfirst)
  cases htext : matched ++ rest with
  | nil =>
    rw [htext] at hlt
    exact absurd hlt (Nat.not_lt_zero _)
  | cons char others =>
    have htake : (char :: others).take ((char :: others).length - rest.length) = matched := by
      rw [← htext, List.length_append, Nat.add_sub_cancel, List.take_left]
    rw [htext] at hfirst hlt
    rw [tokens, List.length_cons, tokensWith, hfirst]
    dsimp only
    rw [htake, tokensWith_eq hconsumes (Nat.le_of_lt_succ hlt)]

/-- There is no first match exactly if nothing in front of a rest is accepted. -/
theorem first_eq_none_iff :
    regex.first text = none ↔ ∀ matched rest, text = matched ++ rest → ¬ regex.Accepts matched := by
  rw [first, List.head?_eq_none_iff, ← not_iff_not, ← ne_eq, run_ne_nil_iff]
  simp

/-- A match in a text whose matches stay in it. -/
theorem Stays.exists_eq_append {captures : Captures} {behind : List Char} (hstays : regex.Stays text rest)
    (hne : text ≠ []) (hfound : (captures, behind) ∈ regex.run (text ++ rest)) :
    ∃ matched more, text = matched ++ more ∧ behind = more ++ rest ∧ regex.Accepts matched := by
  have hlength : rest.length ≤ behind.length := hstays text (List.suffix_refl _) hne _ hfound
  obtain ⟨matched, heq, hmatched⟩ := exists_accepts_of_mem_run hfound
  obtain ⟨more, hbehind⟩ : rest <:+ behind :=
    List.suffix_of_suffix_length_le (List.suffix_append _ _) ⟨matched, heq.symm⟩ hlength
  refine ⟨matched, more, ?_, hbehind.symm, hmatched⟩
  rw [← hbehind, ← List.append_assoc] at heq
  exact List.append_cancel_right heq

/-- A text whose matches stay in it has a match in front of the rest only if it has one. -/
theorem Stays.first_append_eq_none (hstays : regex.Stays text rest) (hne : text ≠ [])
    (hfirst : regex.first text = none) : regex.first (text ++ rest) = none := by
  cases hfound : regex.first (text ++ rest) with
  | none => rfl
  | some found =>
    obtain ⟨matched, more, htext, -, hmatched⟩ := hstays.exists_eq_append hne (List.mem_of_head? hfound)
    exact absurd hmatched (first_eq_none_iff.mp hfirst matched more htext)

/-- Without a match in front of a rest a text has none. -/
theorem first_eq_none_of_append (hfirst : regex.first (text ++ rest) = none) : regex.first text = none :=
  first_eq_none_iff.mpr fun matched more htext ↦
    first_eq_none_iff.mp hfirst matched (more ++ rest) (by rw [htext, List.append_assoc])

/-- The matches that begin in the end of a text stay in it, too. -/
theorem Stays.of_suffix {back : List Char} (hstays : regex.Stays text rest) (hback : back <:+ text) :
    regex.Stays back rest :=
  fun more hmore ↦ hstays more (hmore.trans hback)

/-- Nothing matches in the end of a text in which nothing matches. -/
theorem NoMatch.of_suffix {back : List Char} (hnone : regex.NoMatch text) (hback : back <:+ text) :
    regex.NoMatch back :=
  fun more hmore ↦ hnone more (hmore.trans hback)

/-- Every match that begins in a text ends in it if there is nothing behind it. -/
theorem stays_nil : regex.Stays text [] :=
  fun _ _ _ _ _ ↦ Nat.zero_le _

/-- No match begins in an empty text. -/
theorem nil_stays : regex.Stays [] rest :=
  fun _ hback hne ↦ absurd (List.suffix_nil.mp hback) hne

/-- A text in which nothing matches is kept. -/
theorem tokens_append_of_noMatch (hstays : regex.Stays text rest) (hnone : regex.NoMatch text) :
    regex.tokens (text ++ rest) = text.map .char ++ regex.tokens rest := by
  induction text with
  | nil => rfl
  | cons char text ih =>
    have hsuffix : text <:+ char :: text := List.suffix_cons _ _
    have hfirst := hstays.first_append_eq_none (List.cons_ne_nil _ _) (hnone _ (List.suffix_refl _))
    rw [List.cons_append] at hfirst
    rw [List.cons_append, tokens_cons_of_first_eq_none hfirst, ih (hstays.of_suffix hsuffix)
      (hnone.of_suffix hsuffix), List.map_cons, List.cons_append]

/-- A text whose matches stay in it keeps no more characters than it has, and all of them only if nothing
matches in it. -/
theorem exists_tokens_append (hconsumes : regex.Consumes) (hstays : regex.Stays text rest) :
    ∃ front, regex.tokens (text ++ rest) = front ++ regex.tokens rest ∧
      (front.filterMap Token.kept).length ≤ text.length ∧
        ((front.filterMap Token.kept).length = text.length → regex.NoMatch text) := by
  induction hlength : text.length using Nat.strongRecOn generalizing text with
  | ind length ih =>
    subst hlength
    cases text with
    | nil =>
      refine ⟨[], rfl, Nat.le_refl _, fun _ back hback ↦ ?_⟩
      rw [List.suffix_nil.mp hback, first_eq_none_iff]
      rintro matched behind heq hmatched
      exact hconsumes ((List.append_eq_nil_iff.mp heq.symm).1 ▸ hmatched)
    | cons char text =>
      cases hfirst : regex.first (char :: text ++ rest) with
      | none =>
        obtain ⟨front, htokens, hle, hnone⟩ := ih text.length (Nat.lt_succ_self _)
          (hstays.of_suffix (List.suffix_cons _ _)) rfl
        refine ⟨.char char :: front, ?_, Nat.succ_le_succ hle, fun hkept back hback ↦ ?_⟩
        · rw [List.cons_append] at hfirst
          rw [List.cons_append, tokens_cons_of_first_eq_none hfirst, htokens, List.cons_append]
        · rcases List.suffix_cons_iff.mp hback with rfl | hback
          · exact first_eq_none_of_append hfirst
          · exact hnone (Nat.succ.inj hkept) back hback
      | some found =>
        obtain ⟨captures, behind⟩ := found
        obtain ⟨matched, more, htext, rfl, hmatched⟩ :=
          hstays.exists_eq_append (List.cons_ne_nil _ _) (List.mem_of_head? hfirst)
        have hlt : more.length < (char :: text).length := by
          have hne : matched ≠ [] := fun hnil ↦ hconsumes (hnil ▸ hmatched)
          rw [htext, List.length_append]
          exact Nat.lt_add_of_pos_left (List.length_pos_iff.mpr hne)
        obtain ⟨front, htokens, hle, -⟩ := ih more.length hlt
          (hstays.of_suffix ⟨matched, htext.symm⟩) rfl
        rw [htext, List.append_assoc] at hfirst
        refine ⟨.found matched captures :: front, ?_, Nat.le_of_lt (Nat.lt_of_le_of_lt hle hlt), ?_⟩
        · rw [htext, List.append_assoc, tokens_append_of_first_eq_some hconsumes hfirst, htokens,
            List.cons_append]
        · intro hkept
          exact absurd hkept (Nat.ne_of_lt (Nat.lt_of_le_of_lt hle hlt))

/-- The texts of the tokens make up the text. -/
theorem flatMap_text_tokens (hconsumes : regex.Consumes) : (regex.tokens text).flatMap Token.text = text := by
  induction hlength : text.length using Nat.strongRecOn generalizing text with
  | ind length ih =>
    subst hlength
    cases text with
    | nil => rfl
    | cons char rest =>
      cases hfirst : regex.first (char :: rest) with
      | none =>
        rw [tokens_cons_of_first_eq_none hfirst, List.flatMap_cons, ih rest.length (Nat.lt_succ_self _) rfl]
        rfl
      | some found =>
        obtain ⟨captures, behind⟩ := found
        have hlt := hconsumes.length_lt (List.mem_of_head? hfirst)
        obtain ⟨matched, heq, -⟩ := exists_accepts_of_mem_run (List.mem_of_head? hfirst)
        rw [heq] at hfirst hlt ⊢
        rw [tokens_append_of_first_eq_some hconsumes hfirst, List.flatMap_cons, ih behind.length (heq ▸ hlt) rfl]
        rfl

/-- The matches among tokens, and among those behind them. -/
theorem matchesFrom_append (position : ℕ) (front back : List Token) :
    matchesFrom position (front ++ back) =
      matchesFrom position front ++ matchesFrom (position + (front.flatMap Token.text).length) back := by
  induction front generalizing position with
  | nil => rfl
  | cons token front ih =>
    cases token with
    | char single =>
      rw [List.cons_append, matchesFrom, ih, matchesFrom, List.flatMap_cons, List.length_append,
        ← Nat.add_assoc]
      rfl
    | found matched captures =>
      rw [List.cons_append, matchesFrom, ih, matchesFrom, List.flatMap_cons, List.length_append,
        ← Nat.add_assoc, List.cons_append]
      rfl

/-- There are no matches among characters. -/
theorem matchesFrom_map_char (position : ℕ) (text : List Char) :
    matchesFrom position (text.map Token.char) = [] := by
  induction text generalizing position with
  | nil => rfl
  | cons char text ih => exact ih (position + 1)

/-- If one match is directly in front of a text in which nothing matches, it is the last one, and it ends where
that text begins. -/
theorem getLast?_matchAll (hconsumes : regex.Consumes) {text rest matched : List Char} {front : List Token}
    {captures : Captures} (htokens : regex.tokens text = front ++ .found matched captures :: regex.tokens rest)
    (hnone : regex.NoMatch rest) :
    ∃ index, (regex.matchAll text).getLast? = some (index, matched) ∧
      text.length = index + matched.length + rest.length := by
  have hrest := tokens_append_of_noMatch (@stays_nil regex rest) hnone
  rw [List.append_nil, show regex.tokens [] = [] from rfl, List.append_nil] at hrest
  refine ⟨(front.flatMap Token.text).length, ?_, ?_⟩
  · rw [matchAll, htokens, matchesFrom_append, matchesFrom, hrest, matchesFrom_map_char, Nat.zero_add]
    exact List.getLast?_concat
  · have hlength := congrArg List.length (@flatMap_text_tokens regex text hconsumes)
    rw [htokens, List.flatMap_append, List.flatMap_cons, flatMap_text_tokens hconsumes, List.length_append,
      List.length_append] at hlength
    rw [← hlength, Nat.add_assoc]
    rfl

end Tokens

end Regex

end Playground.Library
