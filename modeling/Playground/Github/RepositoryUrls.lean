import Playground.Github.ParseUrl

/-!
# The URLs of repositories

The URLs that are built of the owner and the name of a repository, a ref and a path, and what `PgGithub.parseUrl` of
`client/src/utils/pg/github.ts` reads of them. A repository may have a dot in its name, and a ref or a path may have
other characters than those of its class: `parseUrl_url_iff` says when the parts are read as they are.
-/

set_option autoImplicit false
set_option relaxedAutoImplicit false

namespace Playground.PgGithub

open Library Explorer

/-! ### URLs -/

/-- What is shown of a ref: a directory or a file. -/
inductive RefKind
  | tree
  | blob
  deriving DecidableEq

/-- The text of a kind. -/
def RefKind.text : RefKind → Str
  | tree => "tree".toList
  | blob => "blob".toList

/-- A ref without slashes, with its kind. -/
structure RefPart where
  kind : RefKind
  ref : Str
  ref_ne_nil : ref ≠ []
  slash_notMem : '/' ∉ ref

/-- A name in a path. -/
abbrev PathName := {name : Str // name ≠ [] ∧ '/' ∉ name}

/-- A place in a repository. The owner consists of letters, digits and hyphens, or also underscores, and the name of
the repository may have dots. -/
structure Place where
  owner : Str
  owner_ne_nil : owner ≠ []
  owner_chars : ∀ char ∈ owner, isNameChar char = true
  repo : Str
  repo_ne_nil : repo ≠ []
  repo_chars : ∀ char ∈ repo, isRefChar char = true
  refPart : Option RefPart
  path : List PathName

/-- The text of a path: its names with slashes between them. -/
def pathText : List PathName → Str
  | [] => []
  | name :: rest => name.1 ++ rest.flatMap fun next ↦ '/' :: next.1

/-- What is behind the name of a repository or a ref, of the path. -/
def pathSuffix (path : List PathName) : Str :=
  path.flatMap fun name ↦ '/' :: name.1

/-- What is behind the name of a repository, of the ref. -/
def refSuffix : Option RefPart → Str
  | none => []
  | some part => '/' :: (part.kind.text ++ '/' :: part.ref)

namespace Place

/-- The URL of a place. -/
def url (place : Place) : Str :=
  "https://".toList ++ ("github.com/".toList ++
    (place.owner ++ '/' :: (place.repo ++ (refSuffix place.refPart ++ pathSuffix place.path))))

/-- What is to be read of the URL of a place. -/
def parsed (place : Place) : ParsedUrl where
  owner := place.owner
  repo := place.repo
  ref := place.refPart.map RefPart.ref
  path := pathText place.path

/-- The name of the repository has no dot, the ref and the path have no characters but those of their classes, and
without a ref the path does not begin as if there were one. -/
structure IsReadable (place : Place) : Prop where
  repo : ∀ char ∈ place.repo, isNameChar char = true
  ref : ∀ part ∈ place.refPart, ∀ char ∈ part.ref, isRefChar char = true
  path : ∀ name ∈ place.path, ∀ char ∈ name.1, isRefChar char = true
  kind : place.refPart = none → ∀ first second rest, place.path = first :: second :: rest →
    ∀ kind : RefKind, first.1 ≠ kind.text

end Place

/-! ### Texts -/

theorem stripPrefix_append (literal rest : Str) : stripPrefix literal (literal ++ rest) = some rest := by
  rw [stripPrefix, if_pos (List.prefix_append _ _), List.drop_left]

/-- A text of a class goes up to a character that is not of it. -/
theorem takeWhile_append {keep : Char → Bool} {text rest : Str} (htext : ∀ char ∈ text, keep char = true)
    (hrest : ∀ char ∈ rest.head?, keep char = false) :
    (text ++ rest).takeWhile keep = text ∧ (text ++ rest).dropWhile keep = rest := by
  rw [List.takeWhile_append_of_pos htext, List.dropWhile_append_of_pos htext]
  cases rest with
  | nil => exact ⟨List.append_nil text, rfl⟩
  | cons char rest =>
    have hchar := Bool.eq_false_iff.mp (hrest char rfl)
    rw [List.takeWhile_cons_of_neg hchar, List.dropWhile_cons_of_neg hchar, List.append_nil]
    exact ⟨rfl, rfl⟩

/-- A character of a path is a slash or one of a ref. -/
theorem isPathChar_iff {char : Char} : isPathChar char = true ↔ char = '/' ∨ isRefChar char = true := by
  unfold isPathChar isRefChar
  simp only [Bool.or_eq_true, beq_iff_eq]
  tauto

theorem head?_pathSuffix (path : List PathName) : (pathSuffix path).head? ∈ [none, some '/'] := by
  cases path with
  | nil => exact List.mem_cons_self
  | cons name rest => exact List.mem_cons_of_mem _ (List.mem_singleton_self _)

/-- What a class without the slash keeps ends before a path. -/
theorem takeWhile_append_suffix {keep : Char → Bool} (hslash : keep '/' = false) {text rest : Str}
    (htext : ∀ char ∈ text, keep char = true) (hrest : rest.head? ∈ [none, some '/']) :
    (text ++ rest).takeWhile keep = text ∧ (text ++ rest).dropWhile keep = rest := by
  refine takeWhile_append htext fun char hchar ↦ ?_
  rcases List.mem_pair.mp hrest with hnone | hsome
  · rw [hnone] at hchar
    cases hchar
  · rw [hsome] at hchar
    rw [← Option.some.inj hchar, hslash]

/-- A path is of its class if its names are of that of the ref. -/
theorem isPathChar_pathText_iff {path : List PathName} :
    (∀ char ∈ pathText path, isPathChar char = true) ↔ ∀ name ∈ path, ∀ char ∈ name.1, isRefChar char = true := by
  have hname : ∀ name : PathName, (∀ char ∈ name.1, isPathChar char = true) ↔
      ∀ char ∈ name.1, isRefChar char = true := fun name ↦
    forall₂_congr fun char hchar ↦ by
      rw [isPathChar_iff, or_iff_right]
      rintro rfl
      exact name.2.2 hchar
  cases path with
  | nil => exact iff_of_true nofun nofun
  | cons name rest =>
    rw [pathText, List.forall_mem_append, List.forall_mem_cons, hname, List.forall_mem_flatMap]
    refine and_congr_right fun _ ↦ forall₂_congr fun next _ ↦ ?_
    rw [List.forall_mem_cons, hname, and_iff_right (isPathChar_iff.mpr (.inl rfl))]

/-- The path is read to its end. -/
theorem takeWhile_pathText {path : List PathName} (hpath : ∀ name ∈ path, ∀ char ∈ name.1, isRefChar char = true) :
    (pathText path).takeWhile isPathChar = pathText path :=
  List.takeWhile_eq_self_iff.mpr (isPathChar_pathText_iff.mpr hpath)

theorem optionalSlash_pathSuffix (path : List PathName) : optionalSlash (pathSuffix path) = pathText path := by
  cases path with
  | nil => rfl
  | cons name rest => rfl

/-- A path does not begin with a slash. -/
theorem optionalSlash_pathText (path : List PathName) : optionalSlash (pathText path) = pathText path := by
  cases path with
  | nil => rfl
  | cons name rest =>
    obtain ⟨name, hne, hslash⟩ := name
    obtain ⟨char, chars, rfl⟩ := List.exists_cons_of_ne_nil hne
    have hchar : char ≠ '/' := fun heq ↦ hslash (heq ▸ List.mem_cons_self)
    show optionalSlash (char :: _) = char :: _
    unfold optionalSlash
    split
    · next rest heq => exact absurd (List.cons.inj heq).1 hchar
    · rfl

/-! ### The match -/

theorem matchRef_append (kind : RefKind) (rest : Str) :
    matchRef (kind.text ++ '/' :: rest) =
      if rest.takeWhile isRefChar = [] then none
      else some (rest.takeWhile isRefChar, rest.dropWhile isRefChar) := by
  cases kind with
  | tree => rfl
  | blob => rfl

theorem eq_append_of_stripPrefix {literal text rest : Str} (hstrip : stripPrefix literal text = some rest) :
    text = literal ++ rest := by
  rw [stripPrefix, Option.ite_none_right_eq_some] at hstrip
  obtain ⟨⟨other, rfl⟩, hrest⟩ := hstrip
  rw [List.drop_left] at hrest
  rw [Option.some.inj hrest]

/-- A ref is read behind a kind and a slash only. -/
theorem exists_kind_of_matchRef {text : Str} {read : Str × Str} (hmatch : matchRef text = some read) :
    ∃ (kind : RefKind) (rest : Str), text = kind.text ++ '/' :: rest := by
  obtain ⟨rest, hrest, -⟩ := Option.bind_eq_some_iff.mp hmatch
  rcases Option.or_eq_some_iff.mp hrest with htree | ⟨-, hblob⟩
  · exact ⟨.tree, rest, (eq_append_of_stripPrefix htree).trans rfl⟩
  · exact ⟨.blob, rest, (eq_append_of_stripPrefix hblob).trans rfl⟩

theorem slash_notMem_text (kind : RefKind) : '/' ∉ kind.text := by
  cases kind <;> decide

/-- No ref is read of a path that does not begin as if there were one. -/
theorem matchRef_pathText {path : List PathName}
    (hkind : ∀ first second rest, path = first :: second :: rest → ∀ kind : RefKind, first.1 ≠ kind.text) :
    matchRef (pathText path) = none := by
  rw [Option.eq_none_iff_forall_ne_some]
  intro read hmatch
  obtain ⟨kind, others, heq⟩ := exists_kind_of_matchRef hmatch
  match path with
  | [] => exact List.append_ne_nil_of_right_ne_nil _ (List.cons_ne_nil _ _) heq.symm
  | [name] =>
    rw [pathText, List.flatMap_nil, List.append_nil] at heq
    exact name.2.2 (heq ▸ List.mem_append_right _ List.mem_cons_self)
  | first :: second :: rest =>
    exact hkind first second rest rfl kind
      (eq_of_append_slash first.2.2 (slash_notMem_text kind) heq).1

/-- A ref and a path are read. -/
theorem matchRest_ref (owner repo : Str) {part : RefPart} {path : List PathName}
    (href : ∀ char ∈ part.ref, isRefChar char = true)
    (hpath : ∀ name ∈ path, ∀ char ∈ name.1, isRefChar char = true) :
    matchRest owner repo (refSuffix (some part) ++ pathSuffix path) =
      ⟨owner, repo, some part.ref, pathText path⟩ := by
  obtain ⟨htake, hdrop⟩ := takeWhile_append_suffix (by decide) href (head?_pathSuffix path)
  have hmatch : matchRef (optionalSlash (refSuffix (some part) ++ pathSuffix path)) =
      some (part.ref, pathSuffix path) := by
    have htext : optionalSlash (refSuffix (some part) ++ pathSuffix path) =
        part.kind.text ++ '/' :: (part.ref ++ pathSuffix path) := by
      show part.kind.text ++ '/' :: part.ref ++ pathSuffix path = _
      rw [List.append_assoc, List.cons_append]
    rw [htext, matchRef_append, htake, hdrop, if_neg part.ref_ne_nil]
  unfold matchRest
  rw [hmatch]
  show ParsedUrl.mk owner repo (some part.ref) ((optionalSlash (pathSuffix path)).takeWhile isPathChar) = _
  rw [optionalSlash_pathSuffix, takeWhile_pathText hpath]

/-- Without a ref, a path is read that does not begin as if there were one. -/
theorem matchRest_path (owner repo : Str) {path : List PathName}
    (hpath : ∀ name ∈ path, ∀ char ∈ name.1, isRefChar char = true)
    (hkind : ∀ first second rest, path = first :: second :: rest → ∀ kind : RefKind, first.1 ≠ kind.text) :
    matchRest owner repo (pathSuffix path) = ⟨owner, repo, none, pathText path⟩ := by
  unfold matchRest
  rw [optionalSlash_pathSuffix, matchRef_pathText hkind]
  show ParsedUrl.mk owner repo none ((optionalSlash (pathText path)).takeWhile isPathChar) = _
  rw [optionalSlash_pathText, takeWhile_pathText hpath]

/-- The owner and the repository are read. -/
theorem matchUrl_append {owner repo rest : Str} (hownerNe : owner ≠ []) (hrepoNe : repo ≠ [])
    (howner : ∀ char ∈ owner, isNameChar char = true) (hrepo : ∀ char ∈ repo, isNameChar char = true)
    (hrest : rest.head? ∈ [none, some '/']) :
    matchUrl ("https://".toList ++ ("github.com/".toList ++ (owner ++ '/' :: (repo ++ rest)))) =
      some (matchRest owner repo rest) := by
  have hslash : ('/' :: (repo ++ rest)).head? ∈ [none, some '/'] :=
    List.mem_cons_of_mem _ (List.mem_singleton_self _)
  obtain ⟨hownerTake, hownerDrop⟩ := takeWhile_append_suffix (by decide) howner hslash
  obtain ⟨hrepoTake, hrepoDrop⟩ := takeWhile_append_suffix (by decide) hrepo hrest
  unfold matchUrl
  rw [stripPrefix_append, Option.getD_some, stripPrefix_append, Option.bind_some, hownerTake, hownerDrop]
  show (if owner = [] ∨ (repo ++ rest).takeWhile isNameChar = [] then none else _) = _
  rw [hrepoTake, hrepoDrop, if_neg (not_or.mpr ⟨hownerNe, hrepoNe⟩)]

/-- A match at the beginning is the first one. -/
theorem parseUrl_of_matchUrl {url : Str} {parsed : ParsedUrl} (hmatch : matchUrl url = some parsed) :
    parseUrl url = some parsed := by
  obtain ⟨others, hothers⟩ : ∃ others, url.tails = url :: others := by
    cases url with
    | nil => exact ⟨[], rfl⟩
    | cons char rest => exact ⟨rest.tails, List.tails_cons char rest⟩
  rw [parseUrl, hothers, List.findSome?_cons, hmatch]

namespace Place

variable {place : Place}

/-- What has only the characters of its classes is read as it is. -/
theorem parseUrl_url_of_isReadable (hreadable : place.IsReadable) : parseUrl place.url = some place.parsed := by
  refine parseUrl_of_matchUrl ?_
  have hsuffix : (refSuffix place.refPart ++ pathSuffix place.path).head? ∈ [none, some '/'] := by
    cases place.refPart with
    | none => exact head?_pathSuffix place.path
    | some part => exact List.mem_cons_of_mem _ (List.mem_singleton_self _)
  unfold url
  rw [matchUrl_append place.owner_ne_nil place.repo_ne_nil place.owner_chars hreadable.repo hsuffix, parsed]
  cases href : place.refPart with
  | none => exact congrArg some (matchRest_path _ _ hreadable.path (hreadable.kind href))
  | some part => exact congrArg some (matchRest_ref _ _ (hreadable.ref part href) hreadable.path)

/-- The URL of a place is read as it is exactly if the name of the repository has no dot, the ref and the path have
no characters but those of their classes, and without a ref the path does not begin as if there were one. -/
theorem parseUrl_url_iff (place : Place) : parseUrl place.url = some place.parsed ↔ place.IsReadable := by
  refine ⟨fun hparse ↦ ?_, parseUrl_url_of_isReadable⟩
  obtain ⟨hrepo, href, hpathChars⟩ := chars_of_parseUrl hparse
  have hpath := isPathChar_pathText_iff.mp hpathChars
  refine ⟨hrepo, fun part hpart ↦ href part.ref (Option.mem_map_of_mem _ hpart), hpath, ?_⟩
  intro hnone first second rest hcons kind hkind
  -- The same URL is that of a place with a ref.
  let other : Place :=
    { place with
      refPart := some ⟨kind, second.1, second.2.1, second.2.2⟩
      path := rest }
  rw [hcons] at hpath
  have hother : other.IsReadable := by
    refine ⟨hrepo, ?_, fun name hname ↦ ?_, nofun⟩
    · rintro part ⟨⟩
      exact hpath second (List.mem_cons_of_mem _ List.mem_cons_self)
    · exact hpath name (List.mem_cons_of_mem _ (List.mem_cons_of_mem _ hname))
  have hsuffix : refSuffix place.refPart ++ pathSuffix place.path =
      refSuffix other.refPart ++ pathSuffix other.path := by
    rw [hnone, hcons]
    show '/' :: first.1 ++ ('/' :: second.1 ++ pathSuffix rest) =
      '/' :: (kind.text ++ '/' :: second.1) ++ pathSuffix rest
    rw [hkind]
    simp
  have hurl : place.url = other.url := by
    unfold url
    rw [hsuffix]
  rw [hurl, parseUrl_url_of_isReadable hother] at hparse
  have hrefs := congrArg ParsedUrl.ref (Option.some.inj hparse)
  rw [parsed, parsed, hnone] at hrefs
  cases hrefs

/-- The root of a repository with a dot in its name. -/
def nextJs : Place where
  owner := "vercel".toList
  owner_ne_nil := List.cons_ne_nil _ _
  owner_chars := by decide
  repo := "next.js".toList
  repo_ne_nil := List.cons_ne_nil _ _
  repo_chars := by decide
  refPart := none
  path := []

end Place

/-- Of `vercel/next.js`, the repository `next` and the path `.js` are read. -/
theorem not_parseUrl_url : ¬ ∀ place : Place, parseUrl place.url = some place.parsed := by
  intro hall
  cases (chars_of_parseUrl (hall Place.nextJs)).repo '.' (by decide)

end Playground.PgGithub
