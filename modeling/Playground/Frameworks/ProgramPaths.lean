import Mathlib.Data.List.Infix
import Mathlib.Data.List.TakeWhile
import Playground.Client.ImportSyntax

/-!
# Paths of programs

The regular expression of `convertToPlaygroundCommon` of `client/src/frameworks/common.ts`, which looks for the text
`src` in a path, at the first place behind which `src/` does not come again and the file lies in no directory `obj`
or `bin`. What it finds is the path from there on. Nothing says that `src` is the whole name of a directory.

`programPath_eq_some_iff` says what is found, by the places where `src` is seen.
-/

set_option autoImplicit false
set_option relaxedAutoImplicit false

namespace Playground.Frameworks

open Library Client

/-- `.*\.(csproj|proto|cs)$`, of a text without line terminators. -/
def hasExtension (text : Str) : Bool :=
  [".csproj".toList, ".proto".toList, ".cs".toList].any fun extension ↦ extension <:+ text

/-- What is matched behind `src`: `(?!.*src\/)(?!.*\/(obj|bin)\/).*\.(csproj|proto|cs)$`. -/
def isProgramRest (rest : Str) : Bool :=
  let line := rest.takeWhile isDot
  !decide ("src/".toList <:+: line) && !decide ("/obj/".toList <:+: line) &&
    !decide ("/bin/".toList <:+: line) && rest.all isDot && hasExtension rest

/-- The match at the beginning of a text. -/
def programPathAt (text : Str) : Option Str :=
  if "src".toList <+: text ∧ isProgramRest (text.drop 3) then some text else none

/-- `programFilePath` of `convertToPlaygroundCommon`: the first match. -/
def programPath (path : Str) : Option Str :=
  path.tails.findSome? programPathAt

/-! ### Where `src` is seen -/

/-- In a path `src` is seen before a text. -/
def Sees (path rest : Str) : Prop :=
  "src".toList ++ rest <:+ path ∧ isProgramRest rest = true

/-- It is seen there first. -/
def SeesFirst (path rest : Str) : Prop :=
  Sees path rest ∧ ∀ other, Sees path other → other.length ≤ rest.length

theorem programPathAt_eq_some_iff {text found : Str} :
    programPathAt text = some found ↔
      ∃ rest, text = "src".toList ++ rest ∧ isProgramRest rest = true ∧ found = text := by
  unfold programPathAt
  constructor
  · intro hfound
    rw [Option.ite_none_right_eq_some] at hfound
    obtain ⟨⟨⟨rest, rfl⟩, hrest⟩, hsame⟩ := hfound
    exact ⟨rest, rfl, hrest, (Option.some.inj hsame).symm⟩
  · rintro ⟨rest, rfl, hrest, rfl⟩
    exact if_pos ⟨List.prefix_append _ _, hrest⟩

theorem programPath_cons (char : Char) (path : Str) :
    programPath (char :: path) = (programPathAt (char :: path)).or (programPath path) := by
  rw [programPath, List.tails_cons, List.findSome?_cons, programPath]
  cases programPathAt (char :: path) with
  | none => rfl
  | some found => rfl

/-- Behind the first character `src` is seen as before. -/
theorem sees_cons_iff {char : Char} {path rest : Str} :
    Sees (char :: path) rest ↔
      char :: path = "src".toList ++ rest ∧ isProgramRest rest = true ∨ Sees path rest := by
  rw [Sees, List.suffix_cons_iff, or_and_right, Sees, eq_comm (a := char :: path)]

/-- What is seen first at the beginning of a text. -/
theorem seesFirst_append {rest : Str} (hrest : isProgramRest rest = true) :
    SeesFirst ("src".toList ++ rest) rest :=
  ⟨⟨List.suffix_rfl, hrest⟩, fun other hother ↦ by
    have hlength := hother.1.length_le
    rw [List.length_append, List.length_append] at hlength
    exact Nat.le_of_add_le_add_left hlength⟩

/-- There is one text before which it is seen first. -/
theorem SeesFirst.unique {path rest other : Str} (hrest : SeesFirst path rest) (hother : SeesFirst path other) :
    rest = other := by
  have hlength := le_antisymm (hother.2 rest hrest.1) (hrest.2 other hother.1)
  have hsuffix : rest <:+ path := (List.suffix_append _ _).trans hrest.1.1
  have hotherSuffix : other <:+ path := (List.suffix_append _ _).trans hother.1.1
  exact (List.suffix_of_suffix_length_le hsuffix hotherSuffix hlength.le).eq_of_length hlength

/-- What is found is `src` with the text before which it is seen first. -/
theorem programPath_eq_some_iff {path found : Str} :
    programPath path = some found ↔ ∃ rest, SeesFirst path rest ∧ found = "src".toList ++ rest := by
  induction path with
  | nil =>
    refine iff_of_false nofun ?_
    rintro ⟨rest, hrest, -⟩
    exact List.append_ne_nil_of_left_ne_nil (List.cons_ne_nil _ _) _ (List.suffix_nil.mp hrest.1.1)
  | cons char path ih =>
    rw [programPath_cons]
    cases hat : programPathAt (char :: path) with
    | some text =>
      obtain ⟨rest, heq, hrest, rfl⟩ := programPathAt_eq_some_iff.mp hat
      have hfirst := seesFirst_append hrest
      rw [← heq] at hfirst
      rw [Option.some_or, Option.some.injEq]
      constructor
      · rintro rfl
        exact ⟨rest, hfirst, heq⟩
      · rintro ⟨other, hother, rfl⟩
        rw [heq, hfirst.unique hother]
    | none =>
      rw [Option.none_or, ih]
      have hnot : ∀ rest, ¬ (char :: path = "src".toList ++ rest ∧ isProgramRest rest = true) := by
        rintro rest ⟨heq, hrest⟩
        rw [programPathAt_eq_some_iff.mpr ⟨rest, heq, hrest, rfl⟩] at hat
        cases hat
      have hsees : ∀ rest, Sees (char :: path) rest ↔ Sees path rest := fun rest ↦ by
        rw [sees_cons_iff, or_iff_right (hnot rest)]
      simp only [SeesFirst, hsees]

/-- Nothing is found exactly if `src` is seen nowhere. -/
theorem programPath_eq_none_iff {path : Str} : programPath path = none ↔ ∀ rest, ¬ Sees path rest := by
  constructor
  · intro hnone
    induction path with
    | nil =>
      rintro rest ⟨hsuffix, -⟩
      exact List.append_ne_nil_of_left_ne_nil (List.cons_ne_nil _ _) _ (List.suffix_nil.mp hsuffix)
    | cons char path ih =>
      rw [programPath_cons, Option.or_eq_none_iff] at hnone
      intro rest hsees
      rcases sees_cons_iff.mp hsees with ⟨heq, hrest⟩ | hlater
      · rw [programPathAt_eq_some_iff.mpr ⟨rest, heq, hrest, rfl⟩] at hnone
        cases hnone.1
      · exact ih hnone.2 rest hlater
  · intro hnone
    rw [Option.eq_none_iff_forall_ne_some]
    intro found hfound
    obtain ⟨rest, hrest, -⟩ := programPath_eq_some_iff.mp hfound
    exact hnone rest hrest.1

/-! ### What comes behind `src` -/

theorem isProgramRest_iff {rest : Str} :
    isProgramRest rest = true ↔ ¬ "src/".toList <:+: rest ∧ ¬ "/obj/".toList <:+: rest ∧
      ¬ "/bin/".toList <:+: rest ∧ (∀ char ∈ rest, isDot char = true) ∧ hasExtension rest = true := by
  unfold isProgramRest
  by_cases hdots : ∀ char ∈ rest, isDot char = true
  · rw [List.takeWhile_eq_self_iff.mpr hdots]
    simp only [List.all_eq_true.mpr hdots, Bool.and_true, Bool.and_eq_true, Bool.not_eq_true', decide_eq_false_iff_not,
      and_assoc, and_iff_right hdots]
  · refine iff_of_false (fun hall ↦ hdots ?_) fun h ↦ hdots h.2.2.2.1
    rw [Bool.and_eq_true, Bool.and_eq_true] at hall
    exact List.all_eq_true.mp hall.1.2

/-- A text that begins with another character does not end in a text without that. -/
theorem suffix_of_suffix_append {char : Char} {pattern before text : Str} (hchar : char ∉ before)
    (hsuffix : char :: pattern <:+ before ++ text) : char :: pattern <:+ text := by
  induction before with
  | nil => exact hsuffix
  | cons first before ih =>
    rw [List.mem_cons, not_or] at hchar
    rw [List.cons_append, List.suffix_cons_iff] at hsuffix
    rcases hsuffix with heq | hlater
    · exact absurd (List.cons.inj heq).1 hchar.1
    · exact ih hchar.2 hlater

/-- `src` does not overlap itself: behind a `src`, the next one begins behind its end. -/
theorem infix_of_src_suffix {text rest : Str} (hlength : rest.length < text.length)
    (hsuffix : "src".toList ++ rest <:+ "src".toList ++ text) : "src".toList ++ rest <:+ text := by
  have hne : "src".toList ++ rest ≠ "src".toList ++ text := fun heq ↦
    hlength.ne (congrArg List.length (List.append_cancel_left heq))
  have hlater := (List.suffix_cons_iff.mp hsuffix).resolve_left hne
  -- the characters behind the first one are no `s`
  have hskip := (List.suffix_cons_iff.mp hlater).resolve_left fun heq ↦ absurd (List.cons.inj heq).1 (by decide)
  exact (List.suffix_cons_iff.mp hskip).resolve_left fun heq ↦ absurd (List.cons.inj heq).1 (by decide)

/-- In front of `src`, a text without `s` changes nothing. -/
theorem sees_append_iff {before path rest : Str} (hbefore : 's' ∉ before) :
    Sees (before ++ path) rest ↔ Sees path rest := by
  refine and_congr_left fun _ ↦ ⟨suffix_of_suffix_append hbefore, fun hsuffix ↦ ?_⟩
  exact hsuffix.trans (List.suffix_append _ _)

/-- What is found does not depend on a text without `s` in front. -/
theorem programPath_append {before : Str} (hbefore : 's' ∉ before) (path : Str) :
    programPath (before ++ path) = programPath path := by
  apply Option.ext
  intro found
  rw [programPath_eq_some_iff, programPath_eq_some_iff]
  simp only [SeesFirst, sees_append_iff hbefore]

/-! ### Directories -/

/-- `src` is seen before a slash. -/
def SeesDirectory (path : Str) : Prop :=
  ∃ rest, Sees path ('/' :: rest)

/-- In front of a directory `src`, no other `src` is seen. -/
theorem length_le_of_sees {before rest other : Str} (hsees : Sees (before ++ ("src".toList ++ '/' :: rest)) other) :
    other.length ≤ ('/' :: rest).length := by
  by_contra hlonger
  rw [not_le] at hlonger
  have hlater : "src".toList ++ '/' :: rest <:+ "src".toList ++ other := by
    refine List.suffix_of_suffix_length_le (List.suffix_append _ _) hsees.1 ?_
    rw [List.length_append, List.length_append]
    exact Nat.add_le_add_left hlonger.le _
  have hinside : "src/".toList <:+: other :=
    (List.prefix_append "src/".toList rest).isInfix.trans (infix_of_src_suffix hlonger hlater).isInfix
  exact (isProgramRest_iff.mp hsees.2).1 hinside

/-- Where `src` is seen before a slash, it is seen first. -/
theorem seesFirst_of_directory {path rest : Str} (hsees : Sees path ('/' :: rest)) :
    SeesFirst path ('/' :: rest) := by
  refine ⟨hsees, fun other hother ↦ ?_⟩
  obtain ⟨before, rfl⟩ := hsees.1
  exact length_le_of_sees hother

/-! ### Extensions -/

theorem hasExtension_iff {text : Str} :
    hasExtension text = true ↔ ∃ name ∈ ["csproj".toList, "proto".toList, "cs".toList], '.' :: name <:+ text := by
  have hmap : [".csproj".toList, ".proto".toList, ".cs".toList] =
      ["csproj".toList, "proto".toList, "cs".toList].map ('.' :: ·) := rfl
  rw [hasExtension, hmap, List.any_map, List.any_eq_true]
  simp only [Function.comp_apply, decide_eq_true_eq]

/-- The extension of a text is that of what is behind a text without dots. -/
theorem hasExtension_append {before : Str} (hbefore : '.' ∉ before) (rest : Str) :
    hasExtension (before ++ rest) = hasExtension rest := by
  rw [Bool.eq_iff_iff, hasExtension_iff, hasExtension_iff]
  refine exists_congr fun name ↦ and_congr_right fun _ ↦ ⟨suffix_of_suffix_append hbefore, fun hends ↦ ?_⟩
  exact hends.trans (List.suffix_append _ _)

/-- A path without one of the extensions is none of a program. -/
theorem programPath_eq_none_of_extension {path : Str} (hextension : hasExtension path = false) :
    programPath path = none := by
  rw [programPath_eq_none_iff]
  rintro rest ⟨hsuffix, hrest⟩
  obtain ⟨name, hname, hends⟩ := hasExtension_iff.mp (isProgramRest_iff.mp hrest).2.2.2.2
  rw [hasExtension_iff.mpr ⟨name, hname, hends.trans ((List.suffix_append _ _).trans hsuffix)⟩] at hextension
  cases hextension

end Playground.Frameworks
