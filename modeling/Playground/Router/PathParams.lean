import Playground.Explorer.Paths
import Playground.Library.PlainObject

/-!
# The parameters of a path

`PgRouter._getParamsFromPath` of `client/src/utils/pg/router.ts`, which walks along the template of a route and a
path at the same time. The fixed text before a variable is removed from the path if the path begins with it, and is
passed over otherwise.

A template whose variables are whole segments is a `Template`. Along its text the walk is one from variable to
variable (`getParamsFromPath_text`).

Not formalized here: characters of two code units.
-/

set_option autoImplicit false
set_option relaxedAutoImplicit false

namespace Playground.Router

open Library Explorer

/-! ### The walk along a text -/

/-- What is left of a path behind the fixed text before a variable. -/
def removeMatching (fixed subPath : Str) : Str :=
  if subPath.take fixed.length = fixed then subPath.drop fixed.length else subPath

/-- The value of a variable: what comes before the next character of the template, and nothing if it does not
come. -/
def valueBefore (nextTemplateCharacter : Char) (subPath : Str) : Str :=
  match subPath.idxOf? nextTemplateCharacter with
  | none => []
  | some index => subPath.take index

/-- `recursivelyMapValues` of `PgRouter._getParamsFromPath`, of what is left of the template. -/
def recursivelyMapValues (templatePath subPath : Str) (result : PlainObject Str) :
    Except Str (PlainObject Str) :=
  if _htemplate : templatePath = [] then .ok result
  else
    match templatePath.idxOf? '\x7b' with
    | none =>
      if isPathsEqual templatePath subPath then .ok result else .error "Doesn't match".toList
    | some startIndex =>
      let subPath := removeMatching (templatePath.take startIndex) subPath
      match (templatePath.drop startIndex).idxOf? '\x7d' with
      | none => .error "No closing curly".toList
      | some relativeEndIndex =>
        let endIndex := startIndex + relativeEndIndex
        let prop := (templatePath.take endIndex).drop (startIndex + 1)
        if endIndex = templatePath.length - 1 then
          if subPath.head? = some '/' then .error "Doesn't match".toList else .ok (result.assign prop subPath)
        else
          match templatePath[endIndex + 1]? with
          | none => .ok result
          | some nextTemplateCharacter =>
            let newVal := valueBefore nextTemplateCharacter subPath
            recursivelyMapValues (templatePath.drop (endIndex + 1)) (subPath.drop newVal.length)
              (result.assign prop newVal)
termination_by templatePath.length
decreasing_by
  have hpos := List.length_pos_iff.mpr _htemplate
  rw [List.length_drop]
  omega

/-- `PgRouter._getParamsFromPath`. -/
def getParamsFromPath (path routePath : Str) : Except Str (PlainObject Str) :=
  recursivelyMapValues routePath path PlainObject.empty

/-! ### Templates -/

/-- A segment without a variable. -/
abbrev FixedSegment := {text : Str // '/' ∉ text ∧ '\x7b' ∉ text}

/-- The text of segments. -/
def fixedText (segments : List FixedSegment) : Str :=
  segments.flatMap fun segment ↦ '/' :: segment.1

/-- A variable that is a whole segment, with the segments between the variable before it and itself. -/
structure PathVariable where
  before : List FixedSegment
  name : Str
  slash_notMem : '/' ∉ name
  close_notMem : '\x7d' ∉ name

/-- The fixed text before a variable. -/
def PathVariable.fixed (part : PathVariable) : Str :=
  fixedText part.before ++ ['/']

/-- The text of a variable, with what is before it. -/
def PathVariable.text (part : PathVariable) : Str :=
  part.fixed ++ '\x7b' :: (part.name ++ ['\x7d'])

/-- A template: variables that are whole segments, and the segments after them. It is not empty. -/
structure Template where
  parts : List PathVariable
  after : List FixedSegment
  nonempty : parts ≠ [] ∨ after ≠ []

/-- The text of some variables and what comes after them. -/
def textOf (parts : List PathVariable) (after : Str) : Str :=
  parts.flatMap PathVariable.text ++ after

/-- The text with values in place of the variables. -/
def fill (parts : List PathVariable) (values : List Str) (after : Str) : Str :=
  (parts.zip values).flatMap (fun entry ↦ entry.1.fixed ++ entry.2) ++ after

namespace Template

/-- `path` of the route. -/
def text (template : Template) : Str :=
  textOf template.parts (fixedText template.after)

/-- The names of the variables. -/
def names (template : Template) : List Str :=
  template.parts.map PathVariable.name

/-- The path that has values in place of the variables. -/
def substitute (template : Template) (values : Str → Str) : Str :=
  fill template.parts (template.names.map values) (fixedText template.after)

end Template

/-! ### The walk from variable to variable -/

/-- The values of the variables, in their order. -/
def follow (after : Str) : List PathVariable → Str → Option (List Str)
  | [], subPath => if isPathsEqual after subPath then some [] else none
  | part :: parts, subPath =>
    let subPath := removeMatching part.fixed subPath
    if parts.isEmpty && after.isEmpty then if subPath.head? = some '/' then none else some [subPath]
    else
      let newVal := valueBefore '/' subPath
      (newVal :: ·) <$> follow after parts (subPath.drop newVal.length)

/-- The object to which values have been assigned one after another. -/
def assignAll (result : PlainObject Str) (entries : List (Str × Str)) : PlainObject Str :=
  entries.foldl (fun object entry ↦ object.assign entry.1 entry.2) result

theorem open_notMem_fixedText (segments : List FixedSegment) : '\x7b' ∉ fixedText segments := by
  rw [fixedText, List.mem_flatMap]
  rintro ⟨segment, -, hmem⟩
  rcases List.mem_cons.mp hmem with hslash | htext
  · cases hslash
  · exact segment.2.2 htext

theorem open_notMem_fixed (part : PathVariable) : '\x7b' ∉ part.fixed := by
  rw [PathVariable.fixed, List.mem_append, List.mem_singleton, not_or]
  exact ⟨open_notMem_fixedText part.before, by decide⟩

/-- A text of segments begins with a slash. -/
theorem head?_fixedText {segments : List FixedSegment} (hsegments : segments ≠ []) :
    (fixedText segments).head? = some '/' := by
  obtain ⟨segment, rest, rfl⟩ := List.exists_cons_of_ne_nil hsegments
  rfl

theorem head?_fixed (part : PathVariable) : part.fixed.head? = some '/' := by
  unfold PathVariable.fixed
  cases hbefore : part.before with
  | nil => rfl
  | cons segment rest => rfl

theorem fixed_ne_nil (part : PathVariable) : part.fixed ≠ [] :=
  List.append_ne_nil_of_right_ne_nil _ (List.cons_ne_nil _ _)

theorem fixedText_nil : fixedText [] = [] :=
  rfl

theorem fixedText_eq_nil_iff {segments : List FixedSegment} : fixedText segments = [] ↔ segments = [] := by
  cases segments with
  | nil => exact iff_of_true rfl rfl
  | cons segment rest => exact iff_of_false (List.cons_ne_nil _ _) (List.cons_ne_nil _ _)

theorem textOf_cons (part : PathVariable) (parts : List PathVariable) (after : Str) :
    textOf (part :: parts) after = part.text ++ textOf parts after := by
  rw [textOf, List.flatMap_cons, List.append_assoc, textOf]

theorem text_ne_nil (part : PathVariable) : part.text ≠ [] :=
  List.append_ne_nil_of_left_ne_nil (fixed_ne_nil part) _

theorem textOf_eq_nil_iff {parts : List PathVariable} {after : Str} :
    textOf parts after = [] ↔ parts = [] ∧ after = [] := by
  cases parts with
  | nil => exact (and_iff_right rfl).symm
  | cons part parts =>
    rw [textOf_cons]
    exact iff_of_false (List.append_ne_nil_of_left_ne_nil (text_ne_nil part) _)
      fun h ↦ List.cons_ne_nil _ _ h.1

/-- The text of variables and segments begins with a slash, unless there is none. -/
theorem head?_textOf (parts : List PathVariable) (after : List FixedSegment) :
    (textOf parts (fixedText after)).head? ∈ [none, some '/'] := by
  rw [List.mem_pair]
  cases parts with
  | nil =>
    rcases eq_or_ne after [] with rfl | hafter
    · exact .inl rfl
    · exact .inr (head?_fixedText hafter)
  | cons part parts =>
    rw [textOf_cons, PathVariable.text, List.append_assoc,
      List.head?_append_of_ne_nil _ (fixed_ne_nil part)]
    exact .inr (head?_fixed part)

/-- A character is found behind a text without it. -/
theorem idxOf?_append_cons {text : Str} {char : Char} (hchar : char ∉ text) (rest : Str) :
    (text ++ char :: rest).idxOf? char = some text.length := by
  rw [List.idxOf?, List.findIdx?_append, ← List.idxOf?, List.idxOf?_eq_none_iff.mpr hchar,
    List.idxOf?_cons, beq_self_eq_true, if_pos rfl, Option.none_or, Option.map_some, Nat.zero_add]

/-- One step of the walk along the text of a template. -/
theorem recursivelyMapValues_text {rest : Str} (part : PathVariable) (hrest : rest.head? ∈ [none, some '/'])
    (subPath : Str) (result : PlainObject Str) :
    recursivelyMapValues (part.text ++ rest) subPath result =
      if rest = [] then
        if (removeMatching part.fixed subPath).head? = some '/' then .error "Doesn't match".toList
        else .ok (result.assign part.name (removeMatching part.fixed subPath))
      else
        recursivelyMapValues rest ((removeMatching part.fixed subPath).drop
            (valueBefore '/' (removeMatching part.fixed subPath)).length)
          (result.assign part.name (valueBefore '/' (removeMatching part.fixed subPath))) := by
  have htext : part.text ++ rest = part.fixed ++ '\x7b' :: (part.name ++ '\x7d' :: rest) := by
    simp [PathVariable.text]
  have hopen : (part.text ++ rest).idxOf? '\x7b' = some part.fixed.length := by
    rw [htext]
    exact idxOf?_append_cons (open_notMem_fixed part) _
  have htake : (part.text ++ rest).take part.fixed.length = part.fixed := by
    rw [htext, List.take_left]
  have hdrop : (part.text ++ rest).drop part.fixed.length = '\x7b' :: (part.name ++ '\x7d' :: rest) := by
    rw [htext, List.drop_left]
  have hclose : ('\x7b' :: part.name ++ '\x7d' :: rest).idxOf? '\x7d' =
      some ('\x7b' :: part.name).length :=
    idxOf?_append_cons (by simp [part.close_notMem]) rest
  have hlength : part.text.length = part.fixed.length + ('\x7b' :: part.name).length + 1 := by
    simp [PathVariable.text, Nat.add_assoc]
  have hprop : ((part.text ++ rest).take (part.fixed.length + ('\x7b' :: part.name).length)).drop
      (part.fixed.length + 1) = part.name := by
    rw [List.drop_take, ← List.drop_drop, hdrop, List.drop_one, List.tail_cons, List.length_cons,
      Nat.add_sub_add_left, Nat.add_sub_cancel, List.take_left]
  have hne : part.text ++ rest ≠ [] :=
    List.append_ne_nil_of_left_ne_nil (List.append_ne_nil_of_left_ne_nil (fixed_ne_nil part) _) _
  rw [recursivelyMapValues, dif_neg hne]
  simp only [hopen, htake, hdrop]
  rw [← List.cons_append, hclose]
  simp only [hprop]
  rw [List.length_append, hlength, ← hlength]
  by_cases hempty : rest = []
  · rw [if_pos hempty, if_pos (by rw [hempty, List.length_nil]; omega)]
  · have hpos := List.length_pos_iff.mpr hempty
    have hnext : (part.text ++ rest)[part.text.length]? = some '/' := by
      rw [List.getElem?_append_right le_rfl, Nat.sub_self, ← List.head?_eq_getElem?]
      exact (List.mem_pair.mp hrest).resolve_left fun hnone ↦ hempty (List.head?_eq_none_iff.mp hnone)
    rw [if_neg hempty, if_neg (by omega), hnext, List.drop_left]

/-- At a last variable that nothing comes after, the walk ends. -/
theorem follow_last (part : PathVariable) (subPath : Str) :
    follow [] [part] subPath =
      if (removeMatching part.fixed subPath).head? = some '/' then none
      else some [removeMatching part.fixed subPath] :=
  rfl

/-- At other variables it goes on. -/
theorem follow_cons {part : PathVariable} {parts : List PathVariable} {after : Str}
    (hmore : parts ≠ [] ∨ after ≠ []) (subPath : Str) :
    follow after (part :: parts) subPath =
      (valueBefore '/' (removeMatching part.fixed subPath) :: ·) <$>
        follow after parts ((removeMatching part.fixed subPath).drop
          (valueBefore '/' (removeMatching part.fixed subPath)).length) := by
  refine if_neg fun hlast ↦ ?_
  rw [Bool.and_eq_true, List.isEmpty_iff, List.isEmpty_iff] at hlast
  exact hmore.elim (· hlast.1) (· hlast.2)

/-- The walk along the text of variables is the one from variable to variable. -/
theorem recursivelyMapValues_textOf {parts : List PathVariable} {after : List FixedSegment}
    (hne : parts ≠ [] ∨ after ≠ []) (subPath : Str) (result : PlainObject Str) :
    recursivelyMapValues (textOf parts (fixedText after)) subPath result =
      match follow (fixedText after) parts subPath with
      | none => .error "Doesn't match".toList
      | some values => .ok (assignAll result ((parts.map PathVariable.name).zip values)) := by
  induction parts generalizing subPath result with
  | nil =>
    have hafter : fixedText after ≠ [] := fun hnil ↦
      hne.resolve_left (not_not.mpr rfl) (fixedText_eq_nil_iff.mp hnil)
    show recursivelyMapValues (fixedText after) subPath result = _
    rw [recursivelyMapValues, dif_neg hafter, follow]
    simp only [List.idxOf?_eq_none_iff.mpr (open_notMem_fixedText after)]
    by_cases hequal : isPathsEqual (fixedText after) subPath = true
    · rw [if_pos hequal, if_pos hequal]
      rfl
    · rw [if_neg hequal, if_neg hequal]
  | cons part parts ih =>
    rw [textOf_cons, recursivelyMapValues_text part (head?_textOf parts after)]
    by_cases hlast : parts = [] ∧ after = []
    · obtain ⟨rfl, rfl⟩ := hlast
      have hempty : textOf [] (fixedText []) = [] := rfl
      rw [if_pos hempty, fixedText_nil, follow_last]
      by_cases hslash : (removeMatching part.fixed subPath).head? = some '/'
      · rw [if_pos hslash, if_pos hslash]
      · rw [if_neg hslash, if_neg hslash]
        rfl
    · have hmore : parts ≠ [] ∨ after ≠ [] := not_and_or.mp hlast
      have htext : textOf parts (fixedText after) ≠ [] := fun hnil ↦
        hlast ((textOf_eq_nil_iff.mp hnil).imp_right fixedText_eq_nil_iff.mp)
      rw [if_neg htext, ih hmore, follow_cons (hmore.imp_right (mt fixedText_eq_nil_iff.mp))]
      cases follow (fixedText after) parts ((removeMatching part.fixed subPath).drop
          (valueBefore '/' (removeMatching part.fixed subPath)).length) with
      | none => rfl
      | some values => rfl

/-- The parameters are the values of the walk from variable to variable. -/
theorem getParamsFromPath_text (template : Template) (path : Str) :
    getParamsFromPath path template.text =
      match follow (fixedText template.after) template.parts path with
      | none => .error "Doesn't match".toList
      | some values => .ok (assignAll PlainObject.empty (template.names.zip values)) :=
  recursivelyMapValues_textOf template.nonempty path PlainObject.empty

end Playground.Router
