import Mathlib.Data.List.TakeWhile
import Playground.Explorer.HiddenFiles

/-!
# Reading a GitHub URL

`PgGithub.parseUrl` of `client/src/utils/pg/github.ts` reads the owner, the repository, the ref and the
path of a URL by a regular expression that is anchored nowhere: what comes after the longest text of
letters, digits, underscores, hyphens, slashes and dots is ignored, and `tree/` behind the repository
begins a ref whatever it is. The characters of what is read are those of the expression
(`chars_of_parseUrl`).

Not formalized here: the error that is thrown for other URLs.
-/

set_option autoImplicit false
set_option relaxedAutoImplicit false

namespace Playground.PgGithub

open Library Explorer

/-! ### The regular expression -/

/-- The class `[\w-]`. -/
def isNameChar (char : Char) : Bool :=
  isWordChar char || char == '-'

/-- The class `[\w-.]`. -/
def isRefChar (char : Char) : Bool :=
  isWordChar char || char == '-' || char == '.'

/-- The class of the path: that of the ref, and the slash. -/
def isPathChar (char : Char) : Bool :=
  isWordChar char || char == '-' || char == '/' || char == '.'

/-- What follows a literal. -/
def stripPrefix (literal text : Str) : Option Str :=
  if literal <+: text then some (text.drop literal.length) else none

/-- What follows `(\/)?`. -/
def optionalSlash : Str → Str
  | '/' :: rest => rest
  | text => text

/-- The ref of `(tree|blob)\/([\w-.]+)`, and what follows. -/
def matchRef (text : Str) : Option (Str × Str) :=
  ((stripPrefix "tree/".toList text).or (stripPrefix "blob/".toList text)).bind fun rest ↦
    let ref := rest.takeWhile isRefChar
    if ref = [] then none else some (ref, rest.dropWhile isRefChar)

/-- What `parseUrl` returns. -/
structure ParsedUrl where
  owner : Str
  repo : Str
  ref : Option Str
  path : Str
  deriving DecidableEq

/-- The match behind the name of the repository. Everything is optional there. -/
def matchRest (owner repo rest : Str) : ParsedUrl :=
  match matchRef (optionalSlash rest) with
  | some (ref, rest) => ⟨owner, repo, some ref, (optionalSlash rest).takeWhile isPathChar⟩
  | none => ⟨owner, repo, none, (optionalSlash (optionalSlash rest)).takeWhile isPathChar⟩

/-- The match at the beginning of a text. -/
def matchUrl (text : Str) : Option ParsedUrl :=
  (stripPrefix "github.com/".toList ((stripPrefix "https://".toList text).getD text)).bind
    fun text ↦
      match text.dropWhile isNameChar with
      | '/' :: rest =>
        if text.takeWhile isNameChar = [] ∨ rest.takeWhile isNameChar = [] then none
        else some (matchRest (text.takeWhile isNameChar) (rest.takeWhile isNameChar)
          (rest.dropWhile isNameChar))
      | _ => none

/-- `PgGithub.parseUrl`: the first match. -/
def parseUrl (url : Str) : Option ParsedUrl :=
  url.tails.findSome? matchUrl

example : parseUrl "https://github.com/a/b/tree/main/src".toList =
    some ⟨"a".toList, "b".toList, some "main".toList, "src".toList⟩ := by decide

/-! ### The characters of what is read -/

/-- What is read consists of the characters of its class. -/
structure ParsedUrl.InClasses (parsed : ParsedUrl) : Prop where
  repo : ∀ char ∈ parsed.repo, isNameChar char = true
  ref : ∀ ref ∈ parsed.ref, ∀ char ∈ ref, isRefChar char = true
  path : ∀ char ∈ parsed.path, isPathChar char = true

theorem inClasses_matchRest {owner repo rest : Str}
    (hrepo : ∀ char ∈ repo, isNameChar char = true) : (matchRest owner repo rest).InClasses := by
  have htake : ∀ (keep : Char → Bool) (text : Str), ∀ char ∈ text.takeWhile keep,
      keep char = true := fun keep text char hchar ↦ List.mem_takeWhile_imp hchar
  unfold matchRest
  split
  · next ref rest hmatch =>
    obtain ⟨text, -, htext⟩ := Option.bind_eq_some_iff.mp hmatch
    simp only [Option.ite_none_left_eq_some, Option.some.injEq, Prod.mk.injEq] at htext
    obtain ⟨-, rfl, -⟩ := htext
    exact ⟨hrepo, fun ref href ↦ Option.some.inj href ▸ htake _ _, htake _ _⟩
  · exact ⟨hrepo, nofun, htake _ _⟩

/-- What is read of a URL consists of the characters of its class. -/
theorem chars_of_parseUrl {url : Str} {parsed : ParsedUrl} (hparsed : parseUrl url = some parsed) :
    parsed.InClasses := by
  obtain ⟨text, -, hmatch⟩ := List.exists_of_findSome?_eq_some hparsed
  obtain ⟨rest, -, hrest⟩ := Option.bind_eq_some_iff.mp hmatch
  split at hrest
  · split_ifs at hrest
    obtain rfl := Option.some.inj hrest
    exact inClasses_matchRest fun char hchar ↦ List.mem_takeWhile_imp hchar
  · cases hrest

end Playground.PgGithub
