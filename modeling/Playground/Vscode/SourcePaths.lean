import Mathlib.Data.List.Basic
import Mathlib.Data.List.Infix
import Playground.Client.ImportSyntax
import Playground.Library.FileSystem

/-!
# Paths behind `src`

How `getProgramData` of `vscode/src/utils/fs.ts` cuts the path of a file out of its URI, by a regular expression that
looks for the first directory `src`, with the separator of the platform. In a URI there is always a slash, so nothing
is found on Windows (`afterSrc_win32`). Elsewhere the path begins behind the first of all directories of that name, from
the root on, and its names are written as in a URI (`afterSrc_posix`).
-/

set_option autoImplicit false
set_option relaxedAutoImplicit false

namespace Playground.Vscode

open Library Client

/-! ### Paths -/

/-- `process.platform`, and on Windows the letter of the drive. -/
inductive Platform
  | posix
  | win32 (drive : Char)
  deriving DecidableEq

/-- `path.sep`. -/
def Platform.sep : Platform → Char
  | posix => '/'
  | win32 _ => '\\'

/-- `_REGEX_PATH_SEP`. -/
def Platform.regexPathSep : Platform → Str
  | posix => "\\/".toList
  | win32 _ => "\\\\".toList

/-- `fsPath` of a place, by the names from the root on. -/
def Platform.fsPath (platform : Platform) (names : List Str) : Str :=
  let path := if names = [] then [platform.sep] else names.flatMap fun name ↦ platform.sep :: name
  match platform with
  | posix => path
  | win32 drive => drive :: ':' :: path

/-- A character that is written as it is in a URI. -/
def isUriPlain (char : Char) : Bool :=
  char.isAlphanum || ['-', '.', '_', '~'].contains char

/-- A digit of an escape in a URI. -/
def isUriDigit (char : Char) : Bool :=
  char.isDigit || ('A' ≤ char && char ≤ 'F')

/-- How VS Code writes the characters of a name in a URI: as they are, or as escapes. -/
structure UriEncoding where
  encode : Char → Str
  encode_plain : ∀ {char : Char}, isUriPlain char = true → encode char = [char]
  encode_escaped : ∀ {char : Char}, isUriPlain char = false →
    ∃ digits, encode char = '%' :: digits ∧ digits ≠ [] ∧ ∀ digit ∈ digits, digit = '%' ∨ isUriDigit digit = true

/-- A name in a URI. -/
def UriEncoding.encodeName (encoding : UriEncoding) (name : Str) : Str :=
  name.flatMap encoding.encode

/-- Names, each behind a slash. -/
def namesPath (names : List Str) : Str :=
  names.flatMap fun name ↦ '/' :: name

/-- Names in a URI, each behind a slash. -/
def UriEncoding.encodePath (encoding : UriEncoding) (names : List Str) : Str :=
  names.flatMap fun name ↦ '/' :: encoding.encodeName name

/-- `toString` of the URI of a place, by the names from the root on. -/
def UriEncoding.uriString (encoding : UriEncoding) (platform : Platform) (names : List Str) : Str :=
  match platform with
  | .posix => "file://".toList ++ encoding.encodePath names
  | .win32 drive => "file:///".toList ++ encoding.encodeName [drive, ':'] ++ encoding.encodePath names

/-- `.+\.rs$`. -/
def endsInRust (rest : Str) : Bool :=
  rest.all isDot && decide (".rs".toList <:+ rest) && 4 ≤ rest.length

/-- A match of `afterSrcRegexRust` at the beginning of a text. -/
def isAfterSrc (sep : Char) (text : Str) : Bool :=
  decide ([sep] ++ "src".toList ++ [sep] <+: text) && endsInRust (text.drop 5)

/-- What `afterSrcRegexRust` matches, for a separator. -/
def afterSrc (sep : Char) (text : Str) : Option Str :=
  text.tails.find? (isAfterSrc sep)

/-! ### Names in a URI -/

section Encoding

variable (encoding : UriEncoding) {name : Str}

/-- The characters of a name in a URI. -/
theorem mem_encodeName {char : Char} (hchar : char ∈ encoding.encodeName name) :
    char = '%' ∨ isUriDigit char = true ∨ isUriPlain char = true ∧ char ∈ name := by
  obtain ⟨source, hsource, hmem⟩ := List.mem_flatMap.mp hchar
  cases hplain : isUriPlain source with
  | true =>
    rw [encoding.encode_plain hplain, List.mem_singleton] at hmem
    exact Or.inr (Or.inr (hmem ▸ ⟨hplain, hsource⟩))
  | false =>
    obtain ⟨digits, heq, -, hdigits⟩ := encoding.encode_escaped hplain
    rw [heq, List.mem_cons] at hmem
    rcases hmem with rfl | hdigit
    · exact Or.inl rfl
    · exact (hdigits char hdigit).imp_right Or.inl

/-- A character that is not plain and belongs to no escape does not stand in a URI. -/
theorem notMem_encodeName {char : Char} (hpercent : char ≠ '%') (hdigit : isUriDigit char = false)
    (hplain : isUriPlain char = false) : char ∉ encoding.encodeName name := by
  intro hchar
  rcases mem_encodeName encoding hchar with rfl | hescape | ⟨hother, -⟩
  · exact hpercent rfl
  · rw [hdigit] at hescape
    cases hescape
  · rw [hplain] at hother
    cases hother

theorem slash_notMem_encodeName : '/' ∉ encoding.encodeName name :=
  notMem_encodeName encoding (by decide) (by decide) (by decide)

/-- No line is terminated in a URI. -/
theorem isDot_of_mem_encodeName {char : Char} (hchar : char ∈ encoding.encodeName name) : isDot char = true := by
  by_contra hdot
  have hcode : char.toNat ∈ [0xA, 0xD, 0x2028, 0x2029] := by
    rw [isDot, Bool.not_eq_true, Bool.not_eq_false', List.contains_iff_mem] at hdot
    exact hdot
  have hchars : char ∈ ['\n', '\r', '\u2028', '\u2029'] := by
    have hinjective : Function.Injective Char.toNat := fun _ _ ↦ Char.toNat_inj.mp
    exact (List.mem_map_of_injective hinjective).mp hcode
  have hother : ∀ char ∈ ['\n', '\r', '\u2028', '\u2029'],
      char ≠ '%' ∧ isUriDigit char = false ∧ isUriPlain char = false := by
    decide
  obtain ⟨hpercent, hdigit, hplain⟩ := hother char hchars
  exact notMem_encodeName encoding hpercent hdigit hplain hchar

/-- A name is not shorter in a URI. -/
theorem length_le_encodeName (name : Str) : name.length ≤ (encoding.encodeName name).length := by
  induction name with
  | nil => exact Nat.le_refl 0
  | cons char name ih =>
    have hchar : 1 ≤ (encoding.encode char).length := by
      cases hplain : isUriPlain char with
      | true => rw [encoding.encode_plain hplain, List.length_singleton]
      | false =>
        obtain ⟨digits, heq, -⟩ := encoding.encode_escaped hplain
        rw [heq, List.length_cons]
        exact Nat.succ_le_succ (Nat.zero_le _)
    rw [UriEncoding.encodeName, List.flatMap_cons, List.length_append, List.length_cons, Nat.add_comm]
    exact Nat.add_le_add hchar ih

/-- A name is written as it is exactly if its characters are plain. -/
theorem encodeName_eq_self_iff : encoding.encodeName name = name ↔ ∀ char ∈ name, isUriPlain char = true := by
  induction name with
  | nil => exact iff_of_true rfl nofun
  | cons char name ih =>
    rw [List.forall_mem_cons, ← ih, UriEncoding.encodeName, List.flatMap_cons]
    cases hplain : isUriPlain char with
    | true => rw [encoding.encode_plain hplain, and_iff_right rfl, List.singleton_append, List.cons.injEq,
        and_iff_right rfl, UriEncoding.encodeName]
    | false =>
      refine iff_of_false (fun heq ↦ ?_) fun h ↦ Bool.false_ne_true h.1
      obtain ⟨digits, hdigits, hne, -⟩ := encoding.encode_escaped hplain
      have hlength := congrArg List.length heq
      have hle := length_le_encodeName encoding name
      have hpos := List.length_pos_iff.mpr hne
      rw [hdigits, List.length_append, List.length_cons, List.length_cons] at hlength
      rw [UriEncoding.encodeName] at hle
      omega

/-- A text without escapes is written for itself only. -/
theorem encodeName_eq_iff {text : Str} (hplain : ∀ char ∈ text, isUriPlain char = true) (hpercent : '%' ∉ text) :
    encoding.encodeName name = text ↔ name = text := by
  constructor
  · rintro rfl
    refine ((encodeName_eq_self_iff encoding).mpr fun char hchar ↦ ?_).symm
    by_contra hescaped
    obtain ⟨digits, hdigits, -⟩ := encoding.encode_escaped (Bool.eq_false_iff.mpr hescaped)
    exact hpercent (List.mem_flatMap.mpr ⟨char, hchar, hdigits ▸ List.mem_cons_self⟩)
  · rintro rfl
    exact (encodeName_eq_self_iff encoding).mpr hplain

/-- An end without escapes and their digits is written for itself only. -/
theorem suffix_encodeName_iff {text : Str}
    (htext : ∀ char ∈ text, isUriPlain char = true ∧ isUriDigit char = false ∧ char ≠ '%') :
    text <:+ encoding.encodeName name ↔ text <:+ name := by
  induction name using List.reverseRecOn generalizing text with
  | nil => exact Iff.rfl
  | append_singleton name last ih =>
    rw [UriEncoding.encodeName, List.flatMap_append, List.flatMap_singleton, List.suffix_concat_iff]
    cases hplain : isUriPlain last with
    | true =>
      rw [encoding.encode_plain hplain, List.suffix_concat_iff]
      refine or_congr_right (exists_congr fun front ↦ and_congr_right ?_)
      rintro rfl
      exact ih fun char hchar ↦ htext char (List.mem_append_left _ hchar)
    | false =>
      -- an escape ends with a character that the text does not have
      obtain ⟨digits, heq, hne, hdigits⟩ := encoding.encode_escaped hplain
      rw [heq, ← List.dropLast_append_getLast hne, ← List.cons_append, ← List.append_assoc, List.suffix_concat_iff]
      refine or_congr_right (iff_of_false ?_ ?_)
      · rintro ⟨front, rfl, -⟩
        obtain ⟨-, hdigit, hpercent⟩ := htext _ (List.mem_append_right _ (List.mem_singleton.mpr rfl))
        rcases hdigits _ (List.getLast_mem hne) with heq | hescape
        · exact hpercent heq
        · rw [hdigit] at hescape
          cases hescape
      · rintro ⟨front, rfl, -⟩
        rw [(htext _ (List.mem_append_right _ (List.mem_singleton.mpr rfl))).1] at hplain
        cases hplain

end Encoding

/-! ### Where the path begins -/

section Posix

variable (encoding : UriEncoding)

theorem length_le_encodePath (names : List Str) :
    (namesPath names).length ≤ (encoding.encodePath names).length := by
  induction names with
  | nil => exact Nat.le_refl 0
  | cons name names ih =>
    rw [namesPath, UriEncoding.encodePath, List.flatMap_cons, List.flatMap_cons, List.length_append, List.length_append]
    exact Nat.add_le_add (Nat.succ_le_succ (length_le_encodeName encoding name)) ih

/-- Names are written as they are exactly if their characters are plain. -/
theorem encodePath_eq_iff {names : List Str} :
    encoding.encodePath names = namesPath names ↔
      ∀ name ∈ names, ∀ char ∈ name, isUriPlain char = true := by
  induction names with
  | nil => exact iff_of_true rfl nofun
  | cons name names ih =>
    rw [List.forall_mem_cons, ← ih, ← encodeName_eq_self_iff encoding, UriEncoding.encodePath, List.flatMap_cons,
      ← UriEncoding.encodePath, namesPath, List.flatMap_cons, ← namesPath]
    constructor
    · intro heq
      have hname := length_le_encodeName encoding name
      have hnames := length_le_encodePath encoding names
      have hlength := congrArg List.length heq
      rw [List.length_append, List.length_append, List.length_cons, List.length_cons] at hlength
      obtain ⟨hfirst, hrest⟩ := List.append_inj heq (by rw [List.length_cons, List.length_cons]; omega)
      exact ⟨(List.cons.inj hfirst).2, hrest⟩
    · rintro ⟨hname, hnames⟩
      rw [hname, hnames]

/-- Where no slash is, no path begins. -/
theorem afterSrc_append {before : Str} (hslash : '/' ∉ before) (text : Str) :
    afterSrc '/' (before ++ text) = afterSrc '/' text := by
  induction before with
  | nil => rfl
  | cons char before ih =>
    rw [List.mem_cons, not_or] at hslash
    have hhere : isAfterSrc '/' (char :: before ++ text) = false := by
      rw [isAfterSrc, Bool.and_eq_false_iff]
      exact Or.inl (decide_eq_false fun hprefix ↦ hslash.1 (List.cons_prefix_cons.mp hprefix).1)
    rw [afterSrc, List.cons_append, List.tails_cons, List.find?_cons, ← List.cons_append, hhere]
    exact ih hslash.2

/-- Names in front of the last one are looked at one by one. -/
theorem afterSrc_cons (name rest : Str) :
    afterSrc '/' ('/' :: encoding.encodeName name ++ '/' :: rest) =
      if name = "src".toList ∧ endsInRust rest then some ("/src/".toList ++ rest) else afterSrc '/' ('/' :: rest) := by
  have hlater : afterSrc '/' (encoding.encodeName name ++ '/' :: rest) = afterSrc '/' ('/' :: rest) :=
    afterSrc_append (slash_notMem_encodeName encoding) _
  have hhere : isAfterSrc '/' ('/' :: encoding.encodeName name ++ '/' :: rest) =
      decide (name = "src".toList ∧ endsInRust rest) := by
    by_cases hname : name = "src".toList
    · have hplain : encoding.encodeName name = "src".toList :=
        (encodeName_eq_iff encoding (by decide) (by decide)).mpr hname
      have hprefix : ['/'] ++ "src".toList ++ ['/'] <+: '/' :: "src".toList ++ '/' :: rest := ⟨rest, rfl⟩
      rw [hplain, isAfterSrc, decide_eq_true hprefix, Bool.true_and, Bool.decide_and, decide_eq_true hname,
        Bool.true_and]
      exact Bool.decide_eq_true.symm
    · rw [decide_eq_false fun h ↦ hname h.1, isAfterSrc, Bool.and_eq_false_iff]
      refine Or.inl (decide_eq_false ?_)
      rintro ⟨other, hother⟩
      have heq : "src".toList ++ '/' :: other = encoding.encodeName name ++ '/' :: rest := (List.cons.inj hother).2
      obtain ⟨hsrc, -⟩ := eq_of_append_slash (by decide) (slash_notMem_encodeName encoding) heq
      exact hname ((encodeName_eq_iff encoding (by decide) (by decide)).mp hsrc.symm)
  rw [afterSrc, List.cons_append, List.tails_cons, List.find?_cons, ← List.cons_append, hhere]
  split_ifs with hsrc
  · have hplain : encoding.encodeName name = "src".toList :=
      (encodeName_eq_iff encoding (by decide) (by decide)).mpr hsrc.1
    rw [decide_eq_true hsrc, hplain]
    rfl
  · rw [decide_eq_false hsrc]
    exact hlater

/-- In the last name no path begins. -/
theorem afterSrc_singleton (name : Str) : afterSrc '/' ('/' :: encoding.encodeName name) = none := by
  have hhere : isAfterSrc '/' ('/' :: encoding.encodeName name) = false := by
    rw [isAfterSrc, Bool.and_eq_false_iff]
    refine Or.inl (decide_eq_false fun hprefix ↦ ?_)
    have hsrc : "src/".toList <+: encoding.encodeName name := (List.cons_prefix_cons.mp hprefix).2
    exact slash_notMem_encodeName encoding (hsrc.subset (by decide))
  have hlater : afterSrc '/' (encoding.encodeName name) = none := by
    have hname : '/' ∉ encoding.encodeName name := slash_notMem_encodeName encoding
    have hnil := afterSrc_append hname []
    rw [List.append_nil] at hnil
    exact hnil
  rw [afterSrc, List.tails_cons, List.find?_cons, hhere]
  exact hlater

/-- The end of a text is that of what is behind a character that the end does not have. -/
theorem suffix_append_cons_iff {char : Char} {pattern : Str} (hchar : char ∉ pattern) (before text : Str) :
    pattern <:+ before ++ char :: text ↔ pattern <:+ text := by
  refine ⟨fun hsuffix ↦ ?_, fun hsuffix ↦ hsuffix.trans ((List.suffix_cons _ _).trans (List.suffix_append _ _))⟩
  have htext : char :: text <:+ before ++ char :: text := List.suffix_append _ _
  rcases Nat.lt_or_ge text.length pattern.length with hlonger | hshorter
  · exact absurd ((List.suffix_of_suffix_length_le htext hsuffix hlonger).subset List.mem_cons_self) hchar
  · exact List.suffix_of_suffix_length_le hsuffix ((List.suffix_cons _ _).trans htext) hshorter

theorem four_le_length {file : Str} (hfile : file.head? ≠ some '.') (hends : ".rs".toList <:+ file) :
    4 ≤ file.length := by
  obtain ⟨stem, rfl⟩ := hends
  have hstem : stem ≠ [] := by
    rintro rfl
    exact hfile rfl
  have hpos := List.length_pos_iff.mpr hstem
  have hthree : ".rs".toList.length = 3 := rfl
  rw [List.length_append, hthree]
  omega

/-- What is behind a directory ends like the last name, if that is not too short. -/
theorem endsInRust_append_iff {before name : Str} (hlength : ".rs".toList <:+ name → 4 ≤ name.length)
    (hbefore : before = [] ∨ ∃ front, before = front ++ ['/']) :
    endsInRust (before ++ name) = true ↔
      (∀ char ∈ before ++ name, isDot char = true) ∧ ".rs".toList <:+ name := by
  have hrust : ".rs".toList <:+ before ++ name ↔ ".rs".toList <:+ name := by
    rcases hbefore with rfl | ⟨front, rfl⟩
    · rw [List.nil_append]
    · rw [List.append_assoc]
      exact suffix_append_cons_iff (by decide) _ _
  rw [endsInRust, Bool.and_eq_true, Bool.and_eq_true, decide_eq_true_eq, decide_eq_true_eq, hrust, List.all_eq_true]
  refine ⟨fun h ↦ h.1, fun h ↦ ⟨h, ?_⟩⟩
  rw [List.length_append]
  exact (hlength h.2).trans (Nat.le_add_left _ _)

/-- Of a name that does not begin with a dot, what is behind a directory in a URI ends like the name. -/
theorem endsInRust_iff {before file : Str} (hfile : file.head? ≠ some '.')
    (hbefore : before = [] ∨ ∃ front, before = front ++ ['/']) (hdots : ∀ char ∈ before, isDot char = true) :
    endsInRust (before ++ encoding.encodeName file) = true ↔ ".rs".toList <:+ file := by
  have hrust : ".rs".toList <:+ encoding.encodeName file ↔ ".rs".toList <:+ file :=
    suffix_encodeName_iff encoding (by decide)
  have hlength : ".rs".toList <:+ encoding.encodeName file → 4 ≤ (encoding.encodeName file).length :=
    fun hends ↦ (four_le_length hfile (hrust.mp hends)).trans (length_le_encodeName encoding file)
  rw [endsInRust_append_iff hlength hbefore, hrust, and_iff_right]
  intro char hchar
  rcases List.mem_append.mp hchar with hfront | hname
  · exact hdots char hfront
  · exact isDot_of_mem_encodeName encoding hname

/-- The directories below the first one that is called `src`. -/
def behindSrc : List Str → Option (List Str)
  | [] => none
  | dir :: dirs => if dir = "src".toList then some dirs else behindSrc dirs

theorem behindSrc_eq_none_iff {dirs : List Str} : behindSrc dirs = none ↔ "src".toList ∉ dirs := by
  induction dirs with
  | nil => exact iff_of_true rfl List.not_mem_nil
  | cons dir dirs ih =>
    rw [behindSrc, List.mem_cons, not_or, ← ih]
    by_cases hdir : dir = "src".toList
    · rw [if_pos hdir]
      exact iff_of_false nofun fun h ↦ h.1 hdir.symm
    · rw [if_neg hdir]
      exact (and_iff_right fun h ↦ hdir h.symm).symm

theorem behindSrc_append {before : List Str} (hbefore : "src".toList ∉ before) (dirs : List Str) :
    behindSrc (before ++ "src".toList :: dirs) = some dirs := by
  induction before with
  | nil => exact if_pos rfl
  | cons dir before ih =>
    rw [List.mem_cons, not_or] at hbefore
    rw [List.cons_append, behindSrc, if_neg fun h ↦ hbefore.1 h.symm]
    exact ih hbefore.2

/-- What is behind the first slash of names, the last of which is that of a file. -/
theorem exists_behind_eq (write : Str → Str) (dirs : List Str) (file : Str) :
    ∃ before, ((dirs ++ [file]).flatMap fun name ↦ '/' :: write name) = '/' :: (before ++ write file) ∧
      (before = [] ∨ ∃ front, before = front ++ ['/']) := by
  induction dirs with
  | nil => exact ⟨[], by rw [List.nil_append, List.flatMap_singleton, List.nil_append], Or.inl rfl⟩
  | cons dir dirs ih =>
    obtain ⟨before, heq, hbefore⟩ := ih
    refine ⟨write dir ++ '/' :: before, ?_, Or.inr ?_⟩
    · rw [List.cons_append, List.flatMap_cons, heq, List.cons_append, List.append_assoc, List.cons_append]
    · rcases hbefore with rfl | ⟨front, rfl⟩
      · exact ⟨write dir, rfl⟩
      · exact ⟨write dir ++ '/' :: front, by rw [List.append_assoc, List.cons_append]⟩

/-- The same, of names in a URI, in which no line is terminated. -/
theorem exists_encodePath_eq (dirs : List Str) (file : Str) :
    ∃ before, encoding.encodePath (dirs ++ [file]) = '/' :: (before ++ encoding.encodeName file) ∧
      (before = [] ∨ ∃ front, before = front ++ ['/']) ∧ ∀ char ∈ before, isDot char = true := by
  obtain ⟨before, heq, hbefore⟩ := exists_behind_eq encoding.encodeName dirs file
  refine ⟨before, heq, hbefore, fun char hchar ↦ ?_⟩
  have hmem : char ∈ (dirs ++ [file]).flatMap fun name ↦ '/' :: encoding.encodeName name :=
    heq ▸ List.mem_cons_of_mem _ (List.mem_append_left _ hchar)
  obtain ⟨name, -, hname⟩ := List.mem_flatMap.mp hmem
  rcases List.mem_cons.mp hname with rfl | hlater
  · decide
  · exact isDot_of_mem_encodeName encoding hlater

theorem encodePath_append_singleton (dirs : List Str) (name : Str) :
    encoding.encodePath (dirs ++ [name]) = encoding.encodePath dirs ++ '/' :: encoding.encodeName name := by
  rw [UriEncoding.encodePath, List.flatMap_append, List.flatMap_singleton, UriEncoding.encodePath]

/-- What is cut out of names is what is behind the first `src`, of a Rust file. -/
theorem afterSrc_encodePath (dirs : List Str) {file : Str} (hfile : file.head? ≠ some '.') :
    afterSrc '/' (encoding.encodePath (dirs ++ [file])) =
      if ".rs".toList <:+ file then
        (behindSrc dirs).map fun behind ↦ "/src".toList ++ encoding.encodePath (behind ++ [file])
      else none := by
  induction dirs with
  | nil =>
    rw [behindSrc, Option.map_none, ite_self, List.nil_append, UriEncoding.encodePath, List.flatMap_singleton]
    exact afterSrc_singleton encoding file
  | cons dir dirs ih =>
    obtain ⟨before, heq, hbefore, hdots⟩ := exists_encodePath_eq encoding dirs file
    have hrust := endsInRust_iff encoding hfile hbefore hdots
    have hcons : encoding.encodePath (dir :: dirs ++ [file]) =
        '/' :: encoding.encodeName dir ++ encoding.encodePath (dirs ++ [file]) := rfl
    rw [hcons, heq, afterSrc_cons, ← heq, ih, behindSrc]
    by_cases hends : ".rs".toList <:+ file
    · rw [if_pos hends, if_pos hends]
      by_cases hdir : dir = "src".toList
      · rw [if_pos ⟨hdir, hrust.mpr hends⟩, if_pos hdir, Option.map_some, heq]
        rfl
      · rw [if_neg fun h ↦ hdir h.1, if_neg hdir]
    · rw [if_neg fun h ↦ hends (hrust.mp h.2), if_neg hends, if_neg hends]

end Posix

/-! ### Names in a path -/

theorem namesPath_append (first second : List Str) :
    namesPath (first ++ second) = namesPath first ++ namesPath second :=
  List.flatMap_append

/-- The names of a path are what is between its slashes. -/
theorem splitOn_append_namesPath {name : Str} {names : List Str} (hname : '/' ∉ name)
    (hnames : ∀ other ∈ names, '/' ∉ other) : (name ++ namesPath names).splitOn '/' = name :: names := by
  induction names generalizing name with
  | nil => rw [namesPath, List.flatMap_nil, List.append_nil, List.splitOn_eq_singleton hname]
  | cons other names ih =>
    rw [List.forall_mem_cons] at hnames
    rw [namesPath, List.flatMap_cons, List.cons_append, List.splitOn_append_cons_self,
      List.splitOn_eq_singleton hname, ← namesPath, ih hnames.1 hnames.2]
    rfl

/-- Two paths are the same only if their names are. -/
theorem eq_of_namesPath_eq {names others : List Str} (hnames : ∀ name ∈ names, '/' ∉ name)
    (hothers : ∀ name ∈ others, '/' ∉ name) (heq : namesPath names = namesPath others) : names = others := by
  have hsplit := congrArg (List.splitOn '/') (congrArg ([] ++ ·) heq)
  rw [splitOn_append_namesPath List.not_mem_nil hnames, splitOn_append_namesPath List.not_mem_nil hothers] at hsplit
  exact (List.cons.inj hsplit).2

/-- Before a slash of a path a name has ended. -/
theorem exists_of_namesPath_eq {names : List Str} (hnames : ∀ name ∈ names, '/' ∉ name) {front rest : Str}
    (heq : namesPath names = front ++ '/' :: rest) :
    ∃ before behind, names = before ++ behind ∧ front = namesPath before ∧ namesPath behind = '/' :: rest := by
  induction names generalizing front with
  | nil => exact absurd heq.symm (List.append_ne_nil_of_right_ne_nil _ (List.cons_ne_nil _ _))
  | cons name names ih =>
    rw [List.forall_mem_cons] at hnames
    cases front with
    | nil => exact ⟨[], name :: names, rfl, rfl, heq⟩
    | cons char front =>
      have hcons : '/' :: (name ++ namesPath names) = char :: (front ++ '/' :: rest) := heq
      obtain ⟨rfl, hrest⟩ := List.cons.inj hcons
      have hlater : ∃ more, front = name ++ more ∧ namesPath names = more ++ '/' :: rest := by
        rcases List.append_eq_append_iff.mp hrest with ⟨more, hfront, hmore⟩ | ⟨more, hname, hmore⟩
        · exact ⟨more, hfront, hmore⟩
        · cases more with
          | nil => exact ⟨[], by rw [hname, List.append_nil, List.append_nil], hmore.symm⟩
          | cons other more =>
            obtain ⟨rfl, -⟩ := List.cons.inj hmore
            exact absurd (hname ▸ List.mem_append_right _ List.mem_cons_self) hnames.1
      obtain ⟨more, rfl, hmore⟩ := hlater
      obtain ⟨before, behind, rfl, rfl, hbehind⟩ := ih hnames.2 hmore
      exact ⟨name :: before, behind, rfl, rfl, hbehind⟩

/-- No line is terminated in a path exactly if none is in its names. -/
theorem forall_isDot_namesPath_iff {names : List Str} :
    (∀ char ∈ namesPath names, isDot char = true) ↔ ∀ name ∈ names, ∀ char ∈ name, isDot char = true := by
  constructor
  · intro hdots name hname char hchar
    exact hdots char (List.mem_flatMap.mpr ⟨name, hname, List.mem_cons_of_mem _ hchar⟩)
  · intro hdots char hchar
    obtain ⟨name, hname, hmem⟩ := List.mem_flatMap.mp hchar
    rcases List.mem_cons.mp hmem with rfl | hlater
    · decide
    · exact hdots name hname char hlater

/-- Behind a slash, a path of a file that is no hidden one ends in `.rs` like its last name. -/
theorem endsInRust_of_namesPath {dirs : List Str} {file rest : Str} (hfile : file.head? ≠ some '.')
    (heq : namesPath (dirs ++ [file]) = '/' :: rest) :
    endsInRust rest = true ↔
      (∀ name ∈ dirs ++ [file], ∀ char ∈ name, isDot char = true) ∧ ".rs".toList <:+ file := by
  obtain ⟨before, hbehind, hbefore⟩ := exists_behind_eq id dirs file
  have hrest : rest = before ++ file := (List.cons.inj (heq.symm.trans hbehind)).2
  have hslash : isDot '/' = true := by decide
  rw [← forall_isDot_namesPath_iff, heq, List.forall_mem_cons, and_iff_right hslash, hrest]
  exact endsInRust_append_iff (four_le_length hfile) hbefore

/-- In a path, the names of another one are found in front of a slash and what ends in `.rs`. -/
theorem exists_tail_iff {program dirs : List Str} {file : Str} (hfile : file.head? ≠ some '.') (hne : program ≠ [])
    (hprogram : ∀ name ∈ program, '/' ∉ name) (hnames : ∀ name ∈ dirs ++ [file], '/' ∉ name) :
    (∃ rest, namesPath program ++ '/' :: rest <:+ namesPath (dirs ++ [file]) ∧ endsInRust rest = true) ↔
      ".rs".toList <:+ file ∧ ∃ before behind, dirs = before ++ program ++ behind ∧
        ∀ name ∈ behind ++ [file], ∀ char ∈ name, isDot char = true := by
  constructor
  · rintro ⟨rest, ⟨front, hfront⟩, hrest⟩
    rw [← List.append_assoc] at hfront
    obtain ⟨above, behind, hsplit, habove, hbehind⟩ := exists_of_namesPath_eq hnames hfront.symm
    have haboveNames : ∀ name ∈ above, '/' ∉ name := fun name hname ↦
      hnames name (hsplit ▸ List.mem_append_left _ hname)
    -- the names of the other path are the last ones above
    obtain ⟨first, others, rfl⟩ := List.exists_cons_of_ne_nil hne
    obtain ⟨before, last, rfl, -, hlast⟩ := exists_of_namesPath_eq haboveNames habove.symm
    have hsame : last = first :: others :=
      eq_of_namesPath_eq (fun name hname ↦ haboveNames name (List.mem_append_right _ hname)) hprogram hlast
    have hbehindNe : behind ≠ [] := by
      rintro rfl
      cases hbehind
    rw [← List.dropLast_append_getLast hbehindNe, ← List.append_assoc] at hsplit
    obtain ⟨hdirs, hfileSame⟩ := List.append_inj' hsplit rfl
    rw [← List.dropLast_append_getLast hbehindNe, ← List.singleton_inj.mp hfileSame] at hbehind
    obtain ⟨hdots, hends⟩ := (endsInRust_of_namesPath hfile hbehind).mp hrest
    exact ⟨hends, before, behind.dropLast, by rw [hdirs, hsame], hdots⟩
  · rintro ⟨hends, before, behind, rfl, hdots⟩
    obtain ⟨rest, hrest⟩ : ∃ rest, namesPath (behind ++ [file]) = '/' :: rest := by
      obtain ⟨front, heq, -⟩ := exists_behind_eq id behind file
      exact ⟨_, heq⟩
    refine ⟨rest, ⟨namesPath before, ?_⟩, (endsInRust_of_namesPath hfile hrest).mpr ⟨hdots, hends⟩⟩
    rw [← hrest, ← namesPath_append, ← namesPath_append]
    simp only [List.append_assoc]

/-! ### URIs -/

theorem Platform.eq_posix_or_win32 (platform : Platform) : platform = .posix ∨ ∃ drive, platform = .win32 drive := by
  cases platform with
  | posix => exact Or.inl rfl
  | win32 drive => exact Or.inr ⟨drive, rfl⟩

/-- A URI ends with the names. -/
theorem exists_uriString_eq (encoding : UriEncoding) (platform : Platform) (names : List Str) :
    ∃ front, encoding.uriString platform names = front ++ encoding.encodePath names := by
  cases platform with
  | posix => exact ⟨_, rfl⟩
  | win32 drive => exact ⟨_, rfl⟩

/-- A URI ends like its last name. -/
theorem suffix_uriString_iff (encoding : UriEncoding) (platform : Platform) (dirs : List Str) (name text : Str)
    (htext : ∀ char ∈ text, isUriPlain char = true ∧ isUriDigit char = false ∧ char ≠ '%') (hslash : '/' ∉ text) :
    text <:+ encoding.uriString platform (dirs ++ [name]) ↔ text <:+ name := by
  obtain ⟨front, heq⟩ := exists_uriString_eq encoding platform (dirs ++ [name])
  rw [heq, encodePath_append_singleton, ← List.append_assoc, suffix_append_cons_iff hslash,
    suffix_encodeName_iff encoding htext]

/-- Of a URI of a file that is no hidden one, the same is cut out. -/
theorem afterSrc_posix (encoding : UriEncoding) (dirs : List Str) {file : Str} (hfile : file.head? ≠ some '.') :
    afterSrc '/' (encoding.uriString .posix (dirs ++ [file])) =
      if ".rs".toList <:+ file then
        (behindSrc dirs).map fun behind ↦ "/src".toList ++ encoding.encodePath (behind ++ [file])
      else none := by
  obtain ⟨before, heq, -⟩ := exists_encodePath_eq encoding dirs file
  have hscheme : encoding.uriString .posix (dirs ++ [file]) =
      "file:".toList ++ ('/' :: encoding.encodeName [] ++ '/' :: encoding.encodePath (dirs ++ [file])) := rfl
  have hslashes : '/' :: encoding.encodePath (dirs ++ [file]) =
      '/' :: encoding.encodeName [] ++ '/' :: (before ++ encoding.encodeName file) := by
    rw [heq]
    rfl
  have hnil : ∀ rest, ¬ (([] : Str) = "src".toList ∧ endsInRust rest = true) := fun _ h ↦ absurd h.1 (by decide)
  rw [hscheme, afterSrc_append (by decide), afterSrc_cons, if_neg (hnil _), hslashes, afterSrc_cons, if_neg (hnil _),
    ← heq, afterSrc_encodePath encoding dirs hfile]

/-- In a URI there is no backslash, so nothing is cut out on Windows. -/
theorem afterSrc_win32 (encoding : UriEncoding) (drive : Char) (names : List Str) :
    afterSrc '\\' (encoding.uriString (.win32 drive) names) = none := by
  have hname : ∀ name : Str, '\\' ∉ encoding.encodeName name := fun name ↦
    notMem_encodeName encoding (by decide) (by decide) (by decide)
  have hpath : '\\' ∉ encoding.encodePath names := by
    intro hmem
    obtain ⟨name, -, hchar⟩ := List.mem_flatMap.mp hmem
    exact hname name ((List.mem_cons.mp hchar).resolve_left (by decide))
  have huri : '\\' ∉ encoding.uriString (.win32 drive) names := by
    intro hmem
    rcases List.mem_append.mp hmem with hfront | hnames
    · rcases List.mem_append.mp hfront with hscheme | hdrive
      · exact absurd hscheme (by decide)
      · exact hname _ hdrive
    · exact hpath hnames
  rw [afterSrc, List.find?_eq_none]
  intro rest hrest hafter
  rw [isAfterSrc, Bool.and_eq_true, decide_eq_true_eq] at hafter
  exact huri (((List.mem_tails _ _).mp hrest).subset (hafter.1.subset List.mem_cons_self))

end Playground.Vscode
