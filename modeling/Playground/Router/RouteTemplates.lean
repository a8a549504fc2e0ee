import Playground.Router.PathParams

/-!
# Templates of routes and their paths

What `PgRouter._getParamsFromPath` finds in the path that a template becomes with values in place of its variables,
and which paths it accepts. The path of a location begins with a slash.

A fixed text that the path does not have is passed over, so a path may be accepted that lacks some of them.
`recovers_and_givesBack_iff` says for which templates that does not happen.
-/

set_option autoImplicit false
set_option relaxedAutoImplicit false

namespace Playground.Router

open Library Explorer

/-! ### What the parameters are to be -/

namespace Template

/-- Values that are neither empty nor have a slash are found again, and nothing else is. -/
def Recovers (template : Template) : Prop :=
  ∀ values : Str → Str, (∀ name ∈ template.names, values name ≠ [] ∧ '/' ∉ values name) →
    ∃ params, getParamsFromPath (template.substitute values) template.text = .ok params ∧
      ∀ name, Entries.find params.properties name = if name ∈ template.names then some (values name) else none

/-- A path that is accepted is, up to a slash at its end, what the template becomes with the parameters. -/
def GivesBack (template : Template) : Prop :=
  ∀ path params, path.head? = some '/' → getParamsFromPath path template.text = .ok params →
    ∃ values : Str → Str,
      (∀ name ∈ template.names, Entries.find params.properties name = some (values name)) ∧
        isPathsEqual (template.substitute values) path = true

end Template

/-- Each fixed text before a variable is the beginning of the next fixed text, also of one without its last slash
that makes no difference. -/
def FixedTextsRecur (after : Str) : List PathVariable → Prop
  | [] => True
  | [part] => part.fixed <+: after ∧ (isPathsEqual after.dropLast after = true → part.fixed <+: after.dropLast)
  | part :: next :: parts => part.fixed <+: next.fixed ∧ FixedTextsRecur after (next :: parts)

/-- Variables have different names, which can be assigned. A variable at the end is the only one, and before a text
at the end the fixed texts recur. -/
structure Template.IsUnambiguous (template : Template) : Prop where
  nodup : template.names.Nodup
  proto_notMem : PlainObject.protoName ∉ template.names
  recur : template.after = [] ∧ template.parts.length ≤ 1 ∨
    template.after ≠ [] ∧ FixedTextsRecur (fixedText template.after) template.parts

/-! ### Paths -/

theorem appendSlash_append (first : Str) {second : Str} (hsecond : second ≠ []) :
    appendSlash (first ++ second) = first ++ appendSlash second := by
  rw [appendSlash, if_neg (List.append_ne_nil_of_right_ne_nil _ hsecond), appendSlash, if_neg hsecond,
    List.getLast?_append_of_ne_nil _ hsecond, List.append_assoc]

/-- A slash at the end is added, or there is one. -/
theorem appendSlash_cases {text : Str} (htext : text ≠ []) :
    appendSlash text = text ∨ appendSlash text = text ++ ['/'] := by
  rw [appendSlash, if_neg htext]
  by_cases hlast : text.getLast? = some '/'
  · rw [if_pos hlast, List.append_nil]
    exact .inl rfl
  · rw [if_neg hlast]
    exact .inr rfl

theorem appendSlash_eq_nil_iff {text : Str} : appendSlash text = [] ↔ text = [] := by
  refine ⟨fun hnil ↦ ?_, fun hnil ↦ by rw [hnil]; rfl⟩
  by_contra hne
  rcases appendSlash_cases hne with heq | heq
  · exact hne (heq.symm.trans hnil)
  · rw [hnil] at heq
    exact List.append_ne_nil_of_right_ne_nil _ (List.cons_ne_nil _ _) heq.symm

theorem head?_appendSlash {text : Str} (htext : text ≠ []) : (appendSlash text).head? = text.head? := by
  rcases appendSlash_cases htext with heq | heq
  · rw [heq]
  · rw [heq, List.head?_append_of_ne_nil _ htext]

theorem isPathsEqual_self (text : Str) : isPathsEqual text text = true :=
  decide_eq_true rfl

/-- Paths may be compared behind what they have in common. -/
theorem isPathsEqual_append (text : Str) {first second : Str} (hfirst : first ≠ []) (hsecond : second ≠ []) :
    isPathsEqual (text ++ first) (text ++ second) = isPathsEqual first second := by
  rw [isPathsEqual, isPathsEqual, appendSlash_append _ hfirst, appendSlash_append _ hsecond]
  exact decide_eq_decide.mpr (List.append_cancel_left_eq _ _ _).to_iff

/-- A path with something before it is another one. -/
theorem not_isPathsEqual_append {text path : Str} (htext : text ≠ []) (hpath : path ≠ []) :
    ¬ isPathsEqual (text ++ path) path = true := by
  intro hequal
  have hlength := congrArg List.length (of_decide_eq_true hequal)
  rw [appendSlash_append _ hpath, List.length_append] at hlength
  have hpos := List.length_pos_iff.mpr htext
  omega

/-- Paths that are equal begin alike. -/
theorem head?_eq_of_isPathsEqual {first second : Str} (hequal : isPathsEqual first second = true)
    (hfirst : first ≠ []) : second ≠ [] ∧ first.head? = second.head? := by
  have hsame : appendSlash first = appendSlash second := of_decide_eq_true hequal
  have hsecond : second ≠ [] := fun hnil ↦
    hfirst (appendSlash_eq_nil_iff.mp (hsame.trans (appendSlash_eq_nil_iff.mpr hnil)))
  exact ⟨hsecond, by rw [← head?_appendSlash hfirst, hsame, head?_appendSlash hsecond]⟩

/-- A path that is equal to another one is longer, or shorter by its last slash. -/
theorem prefix_or_eq_dropLast {first second : Str} (hequal : isPathsEqual first second = true)
    (hfirst : first ≠ []) : first <+: second ∨ second = first.dropLast := by
  have hsame : appendSlash first = appendSlash second := of_decide_eq_true hequal
  rcases appendSlash_cases hfirst with hone | hone
  · rcases appendSlash_cases (head?_eq_of_isPathsEqual hequal hfirst).1 with htwo | htwo
    · exact .inl ⟨[], by rw [List.append_nil, ← hone, hsame, htwo]⟩
    · right
      rw [← hone, hsame, htwo, List.dropLast_concat]
  · rcases appendSlash_cases (head?_eq_of_isPathsEqual hequal hfirst).1 with htwo | htwo
    · exact .inl ⟨['/'], by rw [← hone, hsame, htwo]⟩
    · refine .inl ⟨[], ?_⟩
      rw [hone, htwo] at hsame
      rw [List.append_nil, List.append_cancel_right hsame]

/-! ### Steps -/

theorem removeMatching_append (fixed rest : Str) : removeMatching fixed (fixed ++ rest) = rest := by
  rw [removeMatching, List.take_left, if_pos rfl, List.drop_left]

theorem removeMatching_of_mismatch {fixed subPath : Str} (hfixed : ¬ fixed <+: subPath) :
    removeMatching fixed subPath = subPath :=
  if_neg fun htake ↦ hfixed (List.prefix_iff_eq_take.mpr htake.symm)

theorem valueBefore_of_notMem {subPath : Str} (hslash : '/' ∉ subPath) : valueBefore '/' subPath = [] := by
  rw [valueBefore, List.idxOf?_eq_none_iff.mpr hslash]

theorem valueBefore_append {value : Str} (hslash : '/' ∉ value) (rest : Str) :
    valueBefore '/' (value ++ '/' :: rest) = value := by
  rw [valueBefore, idxOf?_append_cons hslash]
  exact List.take_left

theorem exists_cons_of_head? {text : Str} {char : Char} (hhead : text.head? = some char) :
    ∃ rest, text = char :: rest := by
  cases text with
  | nil => cases hhead
  | cons first rest => exact ⟨rest, by rw [Option.some.inj hhead]⟩

/-- A path without a slash does not begin with a fixed text. -/
theorem not_prefix_of_fixed {subPath : Str} (hslash : '/' ∉ subPath) (part : PathVariable) :
    ¬ part.fixed <+: subPath := by
  rintro ⟨rest, rfl⟩
  refine hslash (List.mem_append_left _ ?_)
  rw [PathVariable.fixed]
  exact List.mem_append_right _ (List.mem_singleton_self _)

section steps

variable {part : PathVariable} {parts : List PathVariable} {after : Str}

/-- A fixed text that is found is removed, and the value goes up to the next slash. -/
theorem follow_matching (hmore : parts ≠ [] ∨ after ≠ []) {value : Str} (hvalue : '/' ∉ value) {rest : Str}
    (hrest : rest.head? = some '/') :
    follow after (part :: parts) (part.fixed ++ (value ++ rest)) = (value :: ·) <$> follow after parts rest := by
  obtain ⟨rest, rfl⟩ := exists_cons_of_head? hrest
  rw [follow_cons hmore, removeMatching_append, valueBefore_append hvalue, List.drop_left]

/-- A fixed text that is not found is passed over, and the value is empty. -/
theorem follow_passing (hmore : parts ≠ [] ∨ after ≠ []) {subPath : Str} (hfixed : ¬ part.fixed <+: subPath)
    (hslash : subPath.head? = some '/') :
    follow after (part :: parts) subPath = ([] :: ·) <$> follow after parts subPath := by
  obtain ⟨rest, rfl⟩ := exists_cons_of_head? hslash
  have hvalue : valueBefore '/' ('/' :: rest) = [] := valueBefore_append (List.not_mem_nil) rest
  rw [follow_cons hmore, removeMatching_of_mismatch hfixed, hvalue]
  rfl

/-- Without a slash there are only empty values. -/
theorem follow_noSlash (hmore : parts ≠ [] ∨ after ≠ []) {subPath : Str} (hslash : '/' ∉ subPath) :
    follow after (part :: parts) subPath = ([] :: ·) <$> follow after parts subPath := by
  rw [follow_cons hmore, removeMatching_of_mismatch (not_prefix_of_fixed hslash part),
    valueBefore_of_notMem hslash]
  rfl

end steps

/-- There is a value for each variable. -/
theorem length_of_follow {after : Str} {parts : List PathVariable} {subPath : Str} {values : List Str}
    (hfollow : follow after parts subPath = some values) : values.length = parts.length := by
  induction parts generalizing subPath values with
  | nil =>
    rw [follow] at hfollow
    split at hfollow
    · rw [← Option.some.inj hfollow]
      rfl
    · cases hfollow
  | cons part parts ih =>
    by_cases hlast : parts = [] ∧ after = []
    · obtain ⟨rfl, rfl⟩ := hlast
      rw [follow_last] at hfollow
      split at hfollow
      · cases hfollow
      · rw [← Option.some.inj hfollow]
        rfl
    · rw [follow_cons (not_and_or.mp hlast)] at hfollow
      obtain ⟨others, hothers, rfl⟩ := Option.map_eq_some_iff.mp hfollow
      rw [List.length_cons, List.length_cons, ih hothers]

/-! ### Paths that come of a template -/

theorem fill_cons (part : PathVariable) (parts : List PathVariable) (value : Str) (values : List Str)
    (after : Str) :
    fill (part :: parts) (value :: values) after = part.fixed ++ (value ++ fill parts values after) := by
  rw [fill, List.zip_cons_cons, List.flatMap_cons, List.append_assoc, List.append_assoc, fill]

/-- What comes of variables and a text begins with a slash. -/
theorem head?_fill {parts : List PathVariable} {values : List Str} {after : Str}
    (hlength : values.length = parts.length) (hafter : after ≠ [] → after.head? = some '/')
    (hne : parts ≠ [] ∨ after ≠ []) : (fill parts values after).head? = some '/' := by
  cases parts with
  | nil =>
    rw [List.length_eq_zero_iff.mp hlength]
    exact hafter (hne.resolve_left (not_not.mpr rfl))
  | cons part parts =>
    obtain ⟨value, values, rfl⟩ := List.exists_cons_of_length_eq_add_one hlength
    rw [fill_cons, List.head?_append_of_ne_nil _ (fixed_ne_nil part), head?_fixed]

/-- The values are found again in the path that comes of them. -/
theorem follow_fill {parts : List PathVariable} {values : List Str} {after : Str}
    (hlength : values.length = parts.length) (hafter : after ≠ [] → after.head? = some '/')
    (hne : parts ≠ [] ∨ after ≠ []) (hvalues : ∀ value ∈ values, '/' ∉ value) :
    follow after parts (fill parts values after) = some values := by
  induction parts generalizing values with
  | nil =>
    rw [List.length_eq_zero_iff.mp hlength]
    exact if_pos (isPathsEqual_self after)
  | cons part parts ih =>
    obtain ⟨value, values, rfl⟩ := List.exists_cons_of_length_eq_add_one hlength
    obtain ⟨hvalue, hothers⟩ := List.forall_mem_cons.mp hvalues
    have hrest := Nat.succ.inj hlength
    rw [fill_cons]
    by_cases hlast : parts = [] ∧ after = []
    · obtain ⟨rfl, rfl⟩ := hlast
      have hfill : fill [] values [] = [] := by rw [List.length_eq_zero_iff.mp hrest]; rfl
      rw [hfill, List.append_nil, follow_last, removeMatching_append, List.length_eq_zero_iff.mp hrest]
      exact if_neg fun hhead ↦ hvalue (List.mem_of_mem_head? hhead)
    · have hmore := not_and_or.mp hlast
      rw [follow_matching hmore hvalue (head?_fill hrest hafter hmore), ih hrest hmore hothers]
      rfl

/-! ### Parameters -/

/-- Of the names that are no variables nothing is assigned. -/
theorem find_assignAll_of_notMem {entries : List (Str × Str)} {name : Str} (result : PlainObject Str)
    (hname : name ∉ entries.map Prod.fst) :
    Entries.find (assignAll result entries).properties name = Entries.find result.properties name := by
  induction entries generalizing result with
  | nil => rfl
  | cons entry entries ih =>
    rw [List.map_cons, List.mem_cons, not_or] at hname
    show Entries.find (assignAll (result.assign entry.1 entry.2) entries).properties name = _
    rw [ih _ hname.2, PlainObject.find_assign, if_neg fun h ↦ hname.1 h.1]

/-- Nothing is assigned to the prototype. -/
theorem find_assignAll_proto (result : PlainObject Str) (entries : List (Str × Str)) :
    Entries.find (assignAll result entries).properties PlainObject.protoName =
      Entries.find result.properties PlainObject.protoName := by
  induction entries generalizing result with
  | nil => rfl
  | cons entry entries ih =>
    show Entries.find (assignAll (result.assign entry.1 entry.2) entries).properties _ = _
    rw [ih, PlainObject.find_assign]
    exact if_neg fun h ↦ h.2 h.1.symm

/-- What is found has been assigned. -/
theorem mem_of_find_assignAll {entries : List (Str × Str)} {name value : Str} {result : PlainObject Str}
    (hfind : Entries.find (assignAll result entries).properties name = some value) :
    (name, value) ∈ entries ∨ Entries.find result.properties name = some value := by
  induction entries generalizing result with
  | nil => exact .inr hfind
  | cons entry entries ih =>
    replace hfind : Entries.find (assignAll (result.assign entry.1 entry.2) entries).properties name =
      some value := hfind
    rcases ih hfind with hmem | hfirst
    · exact .inl (List.mem_cons_of_mem _ hmem)
    · rw [PlainObject.find_assign] at hfirst
      split at hfirst
      · next hname =>
        obtain rfl := Option.some.inj hfirst
        exact .inl (by rw [hname.1]; exact List.mem_cons_self)
      · exact .inr hfirst

/-- A name that is assigned has a value. -/
theorem exists_find_assignAll {entries : List (Str × Str)} {name : Str} (hname : name ∈ entries.map Prod.fst)
    (hproto : name ≠ PlainObject.protoName) (result : PlainObject Str) :
    ∃ value, Entries.find (assignAll result entries).properties name = some value := by
  induction entries generalizing result with
  | nil => cases hname
  | cons entry entries ih =>
    show ∃ value, Entries.find (assignAll (result.assign entry.1 entry.2) entries).properties name = some value
    by_cases hrest : name ∈ entries.map Prod.fst
    · exact ih hrest _
    · have hfirst : name = entry.1 := (List.mem_cons.mp hname).resolve_right hrest
      rw [find_assignAll_of_notMem _ hrest, PlainObject.find_assign, if_pos ⟨hfirst, hfirst ▸ hproto⟩]
      exact ⟨_, rfl⟩

/-- Values that depend on the names are found. -/
theorem find_assignAll_map (names : List Str) (values : Str → Str) (result : PlainObject Str) (name : Str) :
    Entries.find (assignAll result (names.zip (names.map values))).properties name =
      if name ∈ names ∧ name ≠ PlainObject.protoName then some (values name)
      else Entries.find result.properties name := by
  induction names generalizing result with
  | nil => exact (if_neg fun h ↦ List.not_mem_nil h.1).symm
  | cons first names ih =>
    show Entries.find (assignAll (result.assign first (values first)) (names.zip (names.map values))).properties
      name = _
    rw [ih, PlainObject.find_assign]
    by_cases hfirst : name = first
    · subst hfirst
      by_cases hproto : name = PlainObject.protoName <;> simp [hproto]
    · simp [hfirst]

/-- Under different names, all values are found. -/
theorem map_find_assignAll {names values : List Str} (hnodup : names.Nodup)
    (hproto : PlainObject.protoName ∉ names) (hlength : values.length = names.length)
    (result : PlainObject Str) {found : Str → Str}
    (hfound : ∀ name ∈ names,
      Entries.find (assignAll result (names.zip values)).properties name = some (found name)) :
    names.map found = values := by
  induction names generalizing values result with
  | nil => rw [List.length_eq_zero_iff.mp hlength, List.map_nil]
  | cons first names ih =>
    obtain ⟨value, values, rfl⟩ := List.exists_cons_of_length_eq_add_one hlength
    rw [List.mem_cons, not_or] at hproto
    obtain ⟨hfirst, hnames⟩ := List.nodup_cons.mp hnodup
    obtain ⟨hhead, htail⟩ := List.forall_mem_cons.mp hfound
    have hnotMem : first ∉ (names.zip values).map Prod.fst := fun hmem ↦ by
      obtain ⟨entry, hentry, rfl⟩ := List.mem_map.mp hmem
      exact hfirst (List.of_mem_zip hentry).1
    replace hhead : Entries.find (assignAll (result.assign first value) (names.zip values)).properties first =
      some (found first) := hhead
    rw [find_assignAll_of_notMem _ hnotMem, PlainObject.find_assign, if_pos ⟨rfl, Ne.symm hproto.1⟩] at hhead
    rw [List.map_cons, ← Option.some.inj hhead, ih hnames hproto.2 (Nat.succ.inj hlength) _ htail]

namespace Template

theorem head?_after (template : Template) (hafter : fixedText template.after ≠ []) :
    (fixedText template.after).head? = some '/' :=
  head?_fixedText (mt fixedText_eq_nil_iff.mpr hafter)

theorem nonempty_text (template : Template) : template.parts ≠ [] ∨ fixedText template.after ≠ [] :=
  template.nonempty.imp_right (mt fixedText_eq_nil_iff.mp)

/-- Values are found again exactly if no variable is called like the prototype. -/
theorem recovers_iff (template : Template) : template.Recovers ↔ PlainObject.protoName ∉ template.names := by
  have hwalk : ∀ values : Str → Str, (∀ name ∈ template.names, '/' ∉ values name) →
      getParamsFromPath (template.substitute values) template.text =
        .ok (assignAll PlainObject.empty (template.names.zip (template.names.map values))) := by
    intro values hvalues
    have hlength : (template.names.map values).length = template.parts.length := by
      rw [List.length_map, names, List.length_map]
    rw [getParamsFromPath_text, substitute, follow_fill hlength template.head?_after template.nonempty_text
      fun value hvalue ↦ by
        obtain ⟨name, hname, rfl⟩ := List.mem_map.mp hvalue
        exact hvalues name hname]
  constructor
  · intro hrecovers hmem
    obtain ⟨params, hparams, hfind⟩ := hrecovers (fun _ ↦ ['a']) fun _ _ ↦ ⟨List.cons_ne_nil _ _, by decide⟩
    rw [hwalk _ fun _ _ ↦ by decide] at hparams
    have hproto := hfind PlainObject.protoName
    rw [if_pos hmem, ← Except.ok.inj hparams, find_assignAll_proto] at hproto
    cases hproto
  · intro hproto values hvalues
    refine ⟨_, hwalk values fun name hname ↦ (hvalues name hname).2, fun name ↦ ?_⟩
    rw [find_assignAll_map]
    by_cases hname : name ∈ template.names
    · rw [if_pos ⟨hname, fun heq ↦ hproto (heq ▸ hname)⟩, if_pos hname]
    · rw [if_neg fun h ↦ hname h.1, if_neg hname]
      rfl

end Template

/-! ### Paths that are accepted -/

section accepted

variable {after : Str}

/-- Before a text at the end, a path without a slash is rejected. -/
theorem follow_of_slash_notMem (hafter : after.head? = some '/') {subPath : Str} (hslash : '/' ∉ subPath)
    (parts : List PathVariable) : follow after parts subPath = none := by
  have hne : after ≠ [] := fun hnil ↦ by rw [hnil] at hafter; cases hafter
  induction parts with
  | nil =>
    refine if_neg fun hequal ↦ hslash ?_
    have hhead := (head?_eq_of_isPathsEqual hequal hne).2
    rw [hafter] at hhead
    exact List.mem_of_mem_head? hhead.symm
  | cons part parts ih => rw [follow_noSlash (.inr hne) hslash, ih]; rfl

/-- If the fixed texts recur, a path that is accepted begins with the first one of them. -/
theorem prefix_of_follow (hafter : after ≠ []) {part : PathVariable} {parts : List PathVariable}
    (hrecur : FixedTextsRecur after (part :: parts)) {subPath : Str} {values : List Str}
    (hslash : subPath.head? = some '/') (hfollow : follow after (part :: parts) subPath = some values) :
    part.fixed <+: subPath := by
  induction parts generalizing part values with
  | nil =>
    by_contra hfixed
    rw [follow_passing (.inr hafter) hfixed hslash] at hfollow
    obtain ⟨others, hothers, -⟩ := Option.map_eq_some_iff.mp hfollow
    have hequal : isPathsEqual after subPath = true := by
      by_contra hnot
      rw [follow, if_neg hnot] at hothers
      cases hothers
    rcases prefix_or_eq_dropLast hequal hafter with hprefix | rfl
    · exact hfixed (hrecur.1.trans hprefix)
    · refine hfixed (hrecur.2 (decide_eq_true ?_))
      exact (of_decide_eq_true hequal).symm
  | cons next parts ih =>
    by_contra hfixed
    rw [follow_passing (.inr hafter) hfixed hslash] at hfollow
    obtain ⟨others, hothers, -⟩ := Option.map_eq_some_iff.mp hfollow
    exact hfixed (hrecur.1.trans (ih hrecur.2 hothers))

theorem FixedTextsRecur.tail {part : PathVariable} {parts : List PathVariable}
    (hrecur : FixedTextsRecur after (part :: parts)) : FixedTextsRecur after parts := by
  cases parts with
  | nil => trivial
  | cons next parts => exact hrecur.2

/-- If the fixed texts recur, a path that is accepted is what comes of the values. -/
theorem isPathsEqual_of_follow (hafter : after.head? = some '/') {parts : List PathVariable}
    (hrecur : FixedTextsRecur after parts) {subPath : Str} {values : List Str}
    (hslash : subPath.head? = some '/') (hfollow : follow after parts subPath = some values) :
    isPathsEqual (fill parts values after) subPath = true := by
  have hne : after ≠ [] := fun hnil ↦ by rw [hnil] at hafter; cases hafter
  induction parts generalizing subPath values with
  | nil =>
    rw [follow] at hfollow
    split at hfollow
    · next hequal => exact hequal
    · cases hfollow
  | cons part parts ih =>
    obtain ⟨rest, rfl⟩ := prefix_of_follow hne hrecur hslash hfollow
    by_cases hrest : '/' ∈ rest
    · obtain ⟨value, more, rfl, hvalue⟩ := List.eq_append_cons_of_mem hrest
      rw [follow_matching (.inr hne) hvalue rfl] at hfollow
      obtain ⟨others, hothers, rfl⟩ := Option.map_eq_some_iff.mp hfollow
      have hfill := head?_fill (length_of_follow hothers) (fun _ ↦ hafter) (.inr hne)
      obtain ⟨tail, htail⟩ := exists_cons_of_head? hfill
      have hfillNe : fill parts others after ≠ [] := htail ▸ List.cons_ne_nil _ _
      rw [fill_cons, ← List.append_assoc, ← List.append_assoc,
        isPathsEqual_append _ hfillNe (List.cons_ne_nil _ _)]
      exact ih hrecur.tail rfl hothers
    · rw [follow_cons (.inr hne), removeMatching_append, valueBefore_of_notMem hrest] at hfollow
      obtain ⟨others, hothers, -⟩ := Option.map_eq_some_iff.mp hfollow
      rw [List.length_nil, List.drop_zero, follow_of_slash_notMem hafter hrest] at hothers
      cases hothers

/-- A variable at the end may be the only one. -/
theorem isPathsEqual_of_follow_last {part : PathVariable} {subPath : Str} {values : List Str}
    (hslash : subPath.head? = some '/') (hfollow : follow [] [part] subPath = some values) :
    isPathsEqual (fill [part] values []) subPath = true := by
  rw [follow_last] at hfollow
  by_cases hfixed : part.fixed <+: subPath
  · obtain ⟨rest, rfl⟩ := hfixed
    rw [removeMatching_append] at hfollow
    split at hfollow
    · cases hfollow
    · obtain rfl := Option.some.inj hfollow
      rw [fill_cons]
      show isPathsEqual (part.fixed ++ (rest ++ [])) _ = true
      rw [List.append_nil]
      exact isPathsEqual_self _
  · rw [removeMatching_of_mismatch hfixed, if_pos hslash] at hfollow
    cases hfollow

/-! ### Paths that are accepted by mistake -/

/-- A path is accepted by mistake: the template does not become it. -/
def IsMistaken (after : Str) (parts : List PathVariable) (subPath : Str) : Prop :=
  subPath.head? = some '/' ∧
    ∃ values, follow after parts subPath = some values ∧ ¬ isPathsEqual (fill parts values after) subPath = true

/-- A path that is accepted although the first fixed text is passed over is accepted by mistake. -/
theorem isMistaken_of_passing (hafter : after.head? = some '/') {part : PathVariable}
    {parts : List PathVariable} {subPath : Str} {values : List Str} (hslash : subPath.head? = some '/')
    (hfixed : ¬ part.fixed <+: subPath) (hfollow : follow after parts subPath = some values)
    (hequal : isPathsEqual (fill parts values after) subPath = true) : IsMistaken after (part :: parts) subPath := by
  have hne : after ≠ [] := fun hnil ↦ by rw [hnil] at hafter; cases hafter
  refine ⟨hslash, [] :: values, by rw [follow_passing (.inr hne) hfixed hslash, hfollow]; rfl, fun hwhole ↦ ?_⟩
  have hfill := head?_fill (length_of_follow hfollow) (fun _ ↦ hafter) (.inr hne)
  obtain ⟨tail, htail⟩ := exists_cons_of_head? hfill
  have hfillNe : fill parts values after ≠ [] := htail ▸ List.cons_ne_nil _ _
  refine not_isPathsEqual_append (fixed_ne_nil part) hfillNe (decide_eq_true ?_)
  rw [fill_cons, List.nil_append] at hwhole
  exact (of_decide_eq_true hwhole).trans (of_decide_eq_true hequal).symm

/-- Behind a fixed text and an empty value, a path may be accepted by mistake as well. -/
theorem IsMistaken.cons (hafter : after.head? = some '/') {parts : List PathVariable} {subPath : Str}
    (hmistaken : IsMistaken after parts subPath) (part : PathVariable) :
    IsMistaken after (part :: parts) (part.fixed ++ subPath) := by
  obtain ⟨hslash, values, hfollow, hnot⟩ := hmistaken
  have hne : after ≠ [] := fun hnil ↦ by rw [hnil] at hafter; cases hafter
  refine ⟨by rw [List.head?_append_of_ne_nil _ (fixed_ne_nil part), head?_fixed], [] :: values, ?_, ?_⟩
  · have hstep : follow after (part :: parts) (part.fixed ++ subPath) = ([] :: ·) <$> follow after parts subPath :=
      follow_matching (.inr hne) List.not_mem_nil hslash
    rw [hstep, hfollow]
    rfl
  · have hfill := head?_fill (length_of_follow hfollow) (fun _ ↦ hafter) (.inr hne)
    obtain ⟨tail, htail⟩ := exists_cons_of_head? hfill
    obtain ⟨rest, hrest⟩ := exists_cons_of_head? hslash
    rw [fill_cons, List.nil_append, isPathsEqual_append _ (htail ▸ List.cons_ne_nil _ _)
      (hrest ▸ List.cons_ne_nil _ _)]
    exact hnot

/-- A fixed text that is not the beginning of another one is not that of it with a long value behind it either. -/
theorem not_prefix_append_replicate {part next : PathVariable} (hfixed : ¬ part.fixed <+: next.fixed)
    {count : ℕ} (hcount : part.fixed.length ≤ count) (rest : Str) :
    ¬ part.fixed <+: next.fixed ++ (List.replicate count 'a' ++ rest) := by
  intro hprefix
  have hshort : part.fixed <+: next.fixed ++ List.replicate count 'a' := by
    refine List.prefix_of_prefix_length_le hprefix ⟨rest, by rw [List.append_assoc]⟩ ?_
    rw [List.length_append, List.length_replicate]
    exact hcount.trans (Nat.le_add_left _ _)
  rcases List.prefix_or_prefix_of_prefix hshort (List.prefix_append _ _) with hpart | ⟨tail, htail⟩
  · exact hfixed hpart
  · have hne : tail ≠ [] := fun hnil ↦ hfixed ⟨[], by rw [← htail, hnil, List.append_nil, List.append_nil]⟩
    have hslash : '/' ∈ tail := by
      have hlast : part.fixed.getLast? = some '/' := List.getLast?_concat
      rw [← htail, List.getLast?_append_of_ne_nil _ hne] at hlast
      exact List.mem_of_getLast? hlast
    rw [← htail, List.prefix_append_right_inj] at hshort
    cases List.eq_of_mem_replicate (hshort.subset hslash)

/-- If the fixed texts do not recur before a text at the end, some path is accepted by mistake. -/
theorem exists_isMistaken {segments : List FixedSegment} (hsegments : segments ≠ [])
    {parts : List PathVariable} (hnot : ¬ FixedTextsRecur (fixedText segments) parts) :
    ∃ path, IsMistaken (fixedText segments) parts path := by
  have hafter := head?_fixedText hsegments
  have hne : fixedText segments ≠ [] := mt fixedText_eq_nil_iff.mp hsegments
  induction parts with
  | nil => exact absurd trivial hnot
  | cons part parts ih =>
    by_cases htail : FixedTextsRecur (fixedText segments) parts
    · cases parts with
      | nil =>
        rcases not_and_or.mp hnot with hfixed | hshorter
        · exact ⟨_, isMistaken_of_passing hafter hafter hfixed (if_pos (isPathsEqual_self _))
            (isPathsEqual_self _)⟩
        · obtain ⟨hequal, hfixed⟩ := Classical.not_imp.mp hshorter
          have hsame : isPathsEqual (fixedText segments) (fixedText segments).dropLast = true :=
            decide_eq_true (of_decide_eq_true hequal).symm
          have hslash := (head?_eq_of_isPathsEqual hsame hne).2.symm.trans hafter
          exact ⟨_, isMistaken_of_passing hafter hslash hfixed (if_pos hsame) hsame⟩
      | cons next parts =>
        have hfixed : ¬ part.fixed <+: next.fixed := fun hbegins ↦ hnot ⟨hbegins, htail⟩
        let values := List.replicate (parts.length + 1) (List.replicate part.fixed.length 'a')
        have hlength : values.length = (next :: parts).length := List.length_replicate
        have hvalues : ∀ value ∈ values, '/' ∉ value := by
          intro value hvalue hslash
          rw [List.eq_of_mem_replicate hvalue] at hslash
          cases List.eq_of_mem_replicate hslash
        refine ⟨_, isMistaken_of_passing hafter (head?_fill hlength (fun _ ↦ hafter) (.inr hne)) ?_
          (follow_fill hlength (fun _ ↦ hafter) (.inr hne) hvalues) (isPathsEqual_self _)⟩
        show ¬ part.fixed <+: fill (next :: parts) (List.replicate (parts.length + 1) _) _
        rw [List.replicate_succ, fill_cons]
        exact not_prefix_append_replicate hfixed le_rfl _
    · obtain ⟨path, hmistaken⟩ := ih htail
      exact ⟨_, hmistaken.cons hafter part⟩

/-- Without a slash, all the values but the last one are empty. -/
theorem exists_follow_noSlash {subPath : Str} (hslash : '/' ∉ subPath) (part : PathVariable)
    (parts : List PathVariable) : ∃ values, follow [] (part :: parts) subPath = some values := by
  induction parts generalizing part with
  | nil =>
    rw [follow_last, removeMatching_of_mismatch (not_prefix_of_fixed hslash part)]
    exact ⟨_, if_neg fun hhead ↦ hslash (List.mem_of_mem_head? hhead)⟩
  | cons next parts ih =>
    obtain ⟨values, hvalues⟩ := ih next
    exact ⟨[] :: values, by rw [follow_noSlash (.inl (List.cons_ne_nil _ _)) hslash, hvalues]; rfl⟩

/-- Before a second variable at the end, a path is accepted by mistake that lacks its slash. -/
theorem exists_isMistaken_last (part next : PathVariable) (parts : List PathVariable) :
    ∃ path, IsMistaken [] (part :: next :: parts) path := by
  have hslash : '/' ∉ ['a'] := by decide
  obtain ⟨values, hvalues⟩ := exists_follow_noSlash hslash next parts
  have hfollow : follow [] (part :: next :: parts) (part.fixed ++ ['a']) = some ([] :: values) := by
    rw [follow_cons (.inl (List.cons_ne_nil _ _)), removeMatching_append, valueBefore_of_notMem hslash]
    show ([] :: ·) <$> follow [] (next :: parts) ['a'] = _
    rw [hvalues]
    rfl
  refine ⟨part.fixed ++ ['a'], by rw [List.head?_append_of_ne_nil _ (fixed_ne_nil part), head?_fixed],
    [] :: values, hfollow, fun hequal ↦ ?_⟩
  have hhead := head?_fill (length_of_follow hvalues) (fun h ↦ absurd rfl h) (.inl (List.cons_ne_nil _ _))
  obtain ⟨tail, htail⟩ := exists_cons_of_head? hhead
  rw [fill_cons, List.nil_append, htail, isPathsEqual_append _ (List.cons_ne_nil _ _) (List.cons_ne_nil _ _)]
    at hequal
  cases (head?_eq_of_isPathsEqual hequal (List.cons_ne_nil _ _)).2

end accepted

/-! ### Templates -/

/-- A last value without a slash is not followed by one. -/
theorem appendSlash_fill {parts : List PathVariable} (hparts : parts ≠ []) {values : List Str}
    (hlength : values.length = parts.length) (hvalues : ∀ value ∈ values, value ≠ [] ∧ '/' ∉ value) :
    appendSlash (fill parts values []) = fill parts values [] ++ ['/'] := by
  induction parts generalizing values with
  | nil => exact absurd rfl hparts
  | cons part parts ih =>
    obtain ⟨value, values, rfl⟩ := List.exists_cons_of_length_eq_add_one hlength
    obtain ⟨⟨hne, hslash⟩, hothers⟩ := List.forall_mem_cons.mp hvalues
    have hrest := Nat.succ.inj hlength
    rw [fill_cons]
    rcases eq_or_ne parts [] with rfl | hmore
    · have hfill : fill [] values [] = [] := by rw [List.length_eq_zero_iff.mp hrest]; rfl
      rw [hfill, List.append_nil, appendSlash, if_neg (List.append_ne_nil_of_right_ne_nil _ hne),
        List.getLast?_append_of_ne_nil _ hne, if_neg fun hlast ↦ hslash (List.mem_of_getLast? hlast)]
    · have hhead := head?_fill hrest (fun h ↦ absurd rfl h) (.inl hmore)
      obtain ⟨tail, htail⟩ := exists_cons_of_head? hhead
      have hfillNe : fill parts values [] ≠ [] := htail ▸ List.cons_ne_nil _ _
      rw [← List.append_assoc, appendSlash_append _ hfillNe, ih hmore hrest hothers, List.append_assoc,
        List.append_assoc, List.append_assoc]

/-- Values without slashes are told apart by the paths that come of them. -/
theorem eq_of_isPathsEqual_fill {parts : List PathVariable} {after : List FixedSegment}
    (hne : parts ≠ [] ∨ after ≠ []) {first second : List Str} (hfirstLength : first.length = parts.length)
    (hsecondLength : second.length = parts.length) (hfirst : ∀ value ∈ first, value ≠ [] ∧ '/' ∉ value)
    (hsecond : ∀ value ∈ second, value ≠ [] ∧ '/' ∉ value)
    (hequal : isPathsEqual (fill parts first (fixedText after)) (fill parts second (fixedText after)) = true) :
    first = second := by
  have hsame : appendSlash (fill parts first (fixedText after)) =
      appendSlash (fill parts second (fixedText after)) := of_decide_eq_true hequal
  have hfill : fill parts first (fixedText after) = fill parts second (fixedText after) := by
    rcases eq_or_ne after [] with rfl | hafter
    · have hparts := hne.resolve_right (not_not.mpr rfl)
      rw [fixedText_nil, appendSlash_fill hparts hfirstLength hfirst,
        appendSlash_fill hparts hsecondLength hsecond] at hsame
      exact List.append_cancel_right hsame
    · have hafterNe : fixedText after ≠ [] := mt fixedText_eq_nil_iff.mp hafter
      rw [fill, fill, appendSlash_append _ hafterNe, appendSlash_append _ hafterNe] at hsame
      rw [fill, fill, List.append_cancel_right hsame]
  have hhead : fixedText after ≠ [] → (fixedText after).head? = some '/' := fun h ↦
    head?_fixedText (mt fixedText_eq_nil_iff.mpr h)
  have htext : parts ≠ [] ∨ fixedText after ≠ [] := hne.imp_right (mt fixedText_eq_nil_iff.mp)
  have hwalk := follow_fill hfirstLength hhead htext fun value hvalue ↦ (hfirst value hvalue).2
  rw [hfill, follow_fill hsecondLength hhead htext fun value hvalue ↦ (hsecond value hvalue).2] at hwalk
  exact (Option.some.inj hwalk).symm

namespace Template

variable {template : Template}

/-- What the walk finds is what a path is to give back, if the names are different and can be assigned. -/
theorem map_names_eq (hnodup : template.names.Nodup) (hproto : PlainObject.protoName ∉ template.names)
    {values : List Str} (hlength : values.length = template.parts.length) {found : Str → Str}
    (hfound : ∀ name ∈ template.names, Entries.find
      (assignAll PlainObject.empty (template.names.zip values)).properties name = some (found name)) :
    template.names.map found = values :=
  map_find_assignAll hnodup hproto (by rw [hlength, names, List.length_map]) _ hfound

/-- A path that is accepted by mistake is not given back. -/
theorem not_givesBack_of_isMistaken (hnodup : template.names.Nodup)
    (hproto : PlainObject.protoName ∉ template.names) {path : Str}
    (hmistaken : IsMistaken (fixedText template.after) template.parts path) : ¬ template.GivesBack := by
  intro hback
  obtain ⟨hslash, values, hfollow, hnot⟩ := hmistaken
  obtain ⟨found, hfound, hequal⟩ := hback path _ hslash (by rw [getParamsFromPath_text, hfollow])
  rw [substitute, map_names_eq hnodup hproto (length_of_follow hfollow) hfound] at hequal
  exact hnot hequal

/-- Different values for one name are not given back. -/
theorem nodup_of_givesBack (hback : template.GivesBack) : template.names.Nodup := by
  let values := (List.range template.parts.length).map fun place ↦ List.replicate (place + 1) 'a'
  have hlength : values.length = template.parts.length := by rw [List.length_map, List.length_range]
  have hvalues : ∀ value ∈ values, value ≠ [] ∧ '/' ∉ value := by
    intro value hvalue
    obtain ⟨place, -, rfl⟩ := List.mem_map.mp hvalue
    exact ⟨List.cons_ne_nil _ _, fun hslash ↦ nomatch List.eq_of_mem_replicate hslash⟩
  have hfollow := follow_fill hlength template.head?_after template.nonempty_text
    fun value hvalue ↦ (hvalues value hvalue).2
  obtain ⟨found, hfound, hequal⟩ := hback _ _ (head?_fill hlength template.head?_after template.nonempty_text)
    (by rw [getParamsFromPath_text, hfollow])
  have hmem : ∀ value ∈ template.names.map found, value ∈ values := by
    intro value hvalue
    obtain ⟨name, hname, rfl⟩ := List.mem_map.mp hvalue
    rcases mem_of_find_assignAll (hfound name hname) with hentry | hempty
    · exact (List.of_mem_zip hentry).2
    · cases hempty
  have heq : template.names.map found = values :=
    eq_of_isPathsEqual_fill template.nonempty (by rw [List.length_map, names, List.length_map]) hlength
      (fun value hvalue ↦ hvalues value (hmem value hvalue)) hvalues hequal
  have hnodup : values.Nodup := List.nodup_range.map fun first second hsame ↦ by
    have hcounts := congrArg List.length hsame
    rw [List.length_replicate, List.length_replicate] at hcounts
    exact Nat.succ.inj hcounts
  exact List.Nodup.of_map found (heq ▸ hnodup)

/-- A template whose fixed texts recur, or that has one variable, at its end, gives back what it accepts. -/
theorem givesBack_of_isUnambiguous (hclear : template.IsUnambiguous) : template.GivesBack := by
  intro path params hslash hparams
  rw [getParamsFromPath_text] at hparams
  cases hfollow : follow (fixedText template.after) template.parts path with
  | none =>
    rw [hfollow] at hparams
    cases hparams
  | some values =>
    rw [hfollow] at hparams
    obtain rfl := Except.ok.inj hparams
    have hlength : values.length = template.names.length := by
      rw [length_of_follow hfollow, names, List.length_map]
    let found : Str → Str := fun name ↦
      (Entries.find (assignAll PlainObject.empty (template.names.zip values)).properties name).getD []
    have hfound : ∀ name ∈ template.names, Entries.find
        (assignAll PlainObject.empty (template.names.zip values)).properties name = some (found name) := by
      intro name hname
      have hkey : name ∈ (template.names.zip values).map Prod.fst := by
        rwa [List.map_fst_zip hlength.ge]
      obtain ⟨value, hvalue⟩ := exists_find_assignAll hkey (fun heq ↦ hclear.proto_notMem (heq ▸ hname)) _
      show _ = some (Option.getD _ _)
      rw [hvalue]
      rfl
    refine ⟨found, hfound, ?_⟩
    rw [substitute, map_names_eq hclear.nodup hclear.proto_notMem (length_of_follow hfollow) hfound]
    rcases hclear.recur with ⟨hafter, hone⟩ | ⟨hafter, hrecur⟩
    · have hparts := template.nonempty.resolve_right (not_not.mpr hafter)
      obtain ⟨part, parts, hcons⟩ := List.exists_cons_of_ne_nil hparts
      have hsingle : parts = [] := by
        rw [hcons, List.length_cons] at hone
        exact List.length_eq_zero_iff.mp (by omega)
      rw [hafter, hcons, hsingle] at hfollow ⊢
      exact isPathsEqual_of_follow_last hslash hfollow
    · exact isPathsEqual_of_follow (head?_fixedText hafter) hrecur hslash hfollow

/-- Templates recover the values of their variables and give back the paths that they accept exactly if they are
unambiguous. -/
theorem recovers_and_givesBack_iff (template : Template) :
    template.Recovers ∧ template.GivesBack ↔ template.IsUnambiguous := by
  rw [recovers_iff]
  refine ⟨fun ⟨hproto, hback⟩ ↦ ?_, fun hclear ↦ ⟨hclear.proto_notMem, givesBack_of_isUnambiguous hclear⟩⟩
  have hnodup := nodup_of_givesBack hback
  refine ⟨hnodup, hproto, ?_⟩
  by_contra hnot
  obtain ⟨hshort, hrecur⟩ := not_or.mp hnot
  rcases eq_or_ne template.after [] with hafter | hafter
  · have hlong : 1 < template.parts.length := by
      by_contra hle
      exact hshort ⟨hafter, Nat.le_of_not_lt hle⟩
    match hparts : template.parts, hlong with
    | part :: next :: parts, _ =>
      obtain ⟨path, hmistaken⟩ := exists_isMistaken_last part next parts
      rw [← hparts, ← fixedText_nil, ← hafter] at hmistaken
      exact not_givesBack_of_isMistaken hnodup hproto hmistaken hback
  · obtain ⟨path, hmistaken⟩ := exists_isMistaken hafter fun h ↦ hrecur ⟨hafter, h⟩
    exact not_givesBack_of_isMistaken hnodup hproto hmistaken hback

/-- The template `/{x}/{y}`. -/
def twoVariables : Template :=
  ⟨[⟨[], "x".toList, by decide, by decide⟩, ⟨[], "y".toList, by decide, by decide⟩], [],
    .inl (List.cons_ne_nil _ _)⟩

end Template

/-- The path `/v` is accepted for the template `/{x}/{y}`, which becomes `//v` with the parameters. -/
theorem not_givesBack_twoVariables :
    ¬ ∀ template : Template, template.Recovers ∧ template.GivesBack := by
  intro hall
  obtain ⟨-, hback⟩ := hall Template.twoVariables
  have haccepted : getParamsFromPath "/v".toList Template.twoVariables.text =
      .ok (assignAll PlainObject.empty [("x".toList, []), ("y".toList, "v".toList)]) := by
    rw [getParamsFromPath_text]
    rfl
  obtain ⟨values, hvalues, hequal⟩ := hback _ _ rfl haccepted
  have hx : values "x".toList = [] := (Option.some.inj (hvalues "x".toList (by decide))).symm
  have hy : values "y".toList = "v".toList := (Option.some.inj (hvalues "y".toList (by decide))).symm
  have hpath : Template.twoVariables.substitute values = "//v".toList := by
    rw [Template.substitute, show Template.twoVariables.names.map values = [[], "v".toList] from
      congrArg₂ (fun x y ↦ [x, y]) hx hy]
    rfl
  rw [hpath] at hequal
  cases hequal

end Playground.Router
