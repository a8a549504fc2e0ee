import Playground.Client.ImportSyntax
import Playground.Library.Tokens

/-!
# The imports of a script

`_getImports` of `client/src/utils/pg/client/client.ts`. One regular expression reads the import statements of
a script, and erases them. Its repetition of the path is greedy, so that a quote further on in the line of a
statement is taken for its end.

A program whose statements are regular, each at the beginning of a line, should come back with its bindings and
without its statements. What it takes for that is `ImportProgram.Clean`: no quote follows a statement on its
line, the expression matches nothing in the code around the statements, and names in braces are not joined when
line feeds are taken out.

Not formalized here: the packages themselves. `loads` says which of them can be loaded, and a binding says what
it takes of its package.
-/

set_option autoImplicit false
set_option relaxedAutoImplicit false

namespace Playground.Client

open Library Regex

/-! ### The regular expression -/

/-- The class `[\s+\w+\s+,]`. -/
def isInBraces (char : Char) : Bool :=
  isSpaceChar char || char = '+' || isWordChar char || char = ','

/-- `\s+`. -/
def blanksRegex : Regex :=
  many1 isSpaceChar

/-- `\*\s+as\s+(\w+)`. -/
def allRegex : Regex :=
  seq (literal "*".toList) (seq blanksRegex (seq (literal "as".toList) (seq blanksRegex
    (group 3 (many1 isWordChar)))))

/-- `{[\s+\w+\s+,]*}`. -/
def bracesRegex : Regex :=
  seq (literal "\x7b".toList) (seq (many isInBraces) (literal "\x7d".toList))

/-- `(\*\s+as\s+(\w+))|({[\s+\w+\s+,]*})|(\w+)`, in a group. -/
def clauseRegex : Regex :=
  group 1 (alt (group 2 allRegex) (alt (group 4 bracesRegex) (group 5 (many1 isWordChar))))

/-- A clause with `\s+from\s+`. -/
def fromRegex : Regex :=
  seq clauseRegex (seq blanksRegex (seq (literal "from".toList) blanksRegex))

/-- `["|'](.+)["|']`. -/
def pathRegex : Regex :=
  seq (chars isQuote) (seq (group 6 (many1 isDot)) (chars isQuote))

/-- `importRegex`. -/
def importRegex : Regex :=
  seq (literal "import".toList) (seq blanksRegex (seq (optional fromRegex) pathRegex))

/-- `(\w+)(\s+as\s+(\w+))?`. -/
def itemRegex : Regex :=
  seq (group 1 (many1 isWordChar)) (optional (group 2 (seq blanksRegex (seq (literal "as".toList)
    (seq blanksRegex (group 3 (many1 isWordChar)))))))

/-! ### Bindings -/

/-- A text without its line feeds. -/
def joinLines (text : Str) : Str :=
  text.filter (· ≠ '\n')

/-- The name in a part, and what it is renamed to. A part without a word throws. -/
def readItem (part : Str) : Option (Str × Option Str) :=
  (itemRegex.search part).map fun result ↦ ((result.lookup 1).getD [], result.lookup 3)

/-- `namedImports`: the names in braces, and what they are renamed to. -/
def namedImports (braces : Str) : Option (List (Str × Option Str)) :=
  let inner := (braces.drop 1).take (braces.length - 2)
  ((((joinLines inner).splitOn ',').map trim).filter (· ≠ [])).mapM readItem

/-- The binding of a name in braces and what it is renamed to. -/
def namedBinding (importPath : Str) (entry : Str × Option Str) : Binding :=
  ⟨entry.2.getD entry.1, importPath, .named entry.1⟩

/-- `setupImport`, from what the groups have captured. -/
def setupImport (importMatch : Captures) : Option (List Binding) :=
  let importPath := (importMatch.lookup 6).getD []
  match importMatch.lookup 3, importMatch.lookup 4, importMatch.lookup 5 with
  | some name, _, _ => some [⟨name, importPath, .whole⟩]
  | none, some braces, _ =>
    (namedImports braces).map fun imports ↦ imports.map (namedBinding importPath)
  | none, none, some name => some [⟨name, importPath, .default⟩]
  | none, none, none => some []

/-- A turn of the loop: the package is loaded, then its bindings are set up. -/
def handleImport (loads : Str → Bool) (importMatch : Captures) : Option (List Binding) :=
  if loads ((importMatch.lookup 6).getD []) then setupImport importMatch else none

/-- `_getImports`: the code without what is matched, and the bindings. -/
def getImports (loads : Str → Bool) (code : Str) : Option (Str × List Binding) := do
  let tokens := importRegex.tokens code
  let imports ← (tokens.filterMap Token.captured).mapM (handleImport loads)
  some (tokens.filterMap Token.kept, imports.flatten)

/-- What `_getImports` should do with a program: return its bindings, and its text without its import
statements. -/
def ReturnsImports (loads : Str → Bool) (program : ImportProgram) : Prop :=
  getImports loads program.text = some (program.code, program.bindings)

/-- A text has no quote in its first line. -/
def NoQuote (text : Str) : Prop :=
  ∀ char ∈ text.takeWhile isDot, isQuote char = false

/-- The line feeds that are taken out leave a blank in front of `as`, and one behind it unless both names are
the same. -/
def Renaming.Apart (name : Str) (renamed : Renaming) : Prop :=
  (∃ char ∈ renamed.blanksBefore, char ≠ '\n') ∧
    ((∃ char ∈ renamed.blanksBehind, char ≠ '\n') ∨ renamed.name = name)

/-- Names in braces stay apart. -/
def ImportItem.Apart : ImportItem → Prop
  | .blank _ => True
  | .named _ name renamed _ => ∀ other ∈ renamed, other.Apart name

/-- Names in the braces of a clause stay apart. -/
def ImportClause.Apart : ImportClause → Prop
  | .braces items => ∀ item ∈ items, item.Apart
  | .all _ _ _ | .default _ => True

/-- Names in the braces of a statement stay apart. -/
def ImportStatement.Apart (statement : ImportStatement) : Prop :=
  ∀ fromClause ∈ statement.fromClause, fromClause.clause.Apart

/-- The expression matches nowhere around the statements, no quote is behind a statement on its line, and the
names in braces stay apart. -/
structure ImportProgram.Clean (program : ImportProgram) : Prop where
  header : importRegex.NoMatch program.header
  behind : ∀ entry ∈ program.statements, NoQuote entry.2 ∧ importRegex.NoMatch entry.2
  apart : ∀ entry ∈ program.statements, entry.1.Apart

/-! ### Classes of characters -/

/-- A quote is in a line. -/
theorem isDot_of_isQuote {char : Char} (hquote : isQuote char = true) : isDot char = true := by
  simp only [isQuote, Bool.or_eq_true, decide_eq_true_eq] at hquote
  rcases hquote with (rfl | rfl) | rfl <;> decide

/-- A quote is neither a blank nor in braces. -/
theorem isInBraces_of_isQuote {char : Char} (hquote : isQuote char = true) : isInBraces char = false := by
  simp only [isQuote, Bool.or_eq_true, decide_eq_true_eq] at hquote
  rcases hquote with (rfl | rfl) | rfl <;> decide

/-- A line terminator is a blank. -/
theorem isSpaceChar_of_isDot {char : Char} (hdot : isDot char = false) : isSpaceChar char = true := by
  rw [isDot, Bool.not_eq_false', List.contains_iff_mem] at hdot
  have hspace : char.toNat ∈ [0x9, 0xA, 0xB, 0xC, 0xD, 0x20, 0xA0, 0x1680, 0x2028, 0x2029, 0x202F, 0x205F,
      0x3000, 0xFEFF] :=
    List.Subset.trans (by decide) (List.Subset.refl _) hdot
  rw [isSpaceChar, List.contains_iff_mem.mpr hspace, Bool.true_or]

/-- A character of a word is no blank. -/
theorem isSpaceChar_of_isWordChar {char : Char} (hword : isWordChar char = true) :
    isSpaceChar char = false := by
  have hcode := (isWordChar_iff char).mp hword
  simp only [isSpaceChar, Bool.or_eq_false_iff, List.contains_eq_mem, List.mem_cons, List.not_mem_nil,
    or_false, decide_eq_false_iff_not, Bool.and_eq_false_iff]
  omega

/-- What is in braces may be a blank or a character of a word. -/
theorem isInBraces_of_or {char : Char}
    (hchar : isSpaceChar char = true ∨ isWordChar char = true ∨ char = ',') : isInBraces char = true := by
  rcases hchar with hchar | hchar | hchar <;> simp [isInBraces, hchar]

end Playground.Client
