import Playground.Library.JavaScript

/-!
# Programs with import statements

A program is a text before its import statements, and each statement with the code behind it up to the next
one. A statement is bare, or has a clause: a namespace, names in braces, each with another name or without, or
a default name. What it introduces is its `bindings`.

`ImportStatement.Regular` says which statements the regular expression of `_getImports` is made for: names are
words, and there are blanks wherever the expression wants some. Blanks may be line feeds.

Not formalized here: statements with a default name beside braces or a namespace, comments in statements, and
the semicolon behind a statement, which is part of the code behind it.
-/

set_option autoImplicit false
set_option relaxedAutoImplicit false

namespace Playground.Client

open Library

/-- What a binding takes of a package: the package itself, a member, or its default. -/
inductive Member
  | whole
  | named (name : Str)
  | default
  deriving DecidableEq

/-- A name that an import statement introduces, and what it stands for. -/
structure Binding where
  name : Str
  path : Str
  taken : Member
  deriving DecidableEq

/-- `as` with the blanks around it and the name behind it. -/
structure Renaming where
  blanksBefore : Str
  blanksBehind : Str
  name : Str

/-- What is between two commas in braces. -/
inductive ImportItem
  | blank (blanks : Str)
  | named (blanksBefore name : Str) (renamed : Option Renaming) (blanksBehind : Str)

/-- What stands in front of `from`. -/
inductive ImportClause
  | all (blanksBefore blanksBehind name : Str)
  | braces (items : List ImportItem)
  | default (name : Str)

/-- A clause, with the blanks before and behind `from`. -/
structure FromClause where
  clause : ImportClause
  blanksBefore : Str
  blanksBehind : Str

/-- An import statement: the blanks behind `import`, a clause unless it is bare, and the quoted path. -/
structure ImportStatement where
  blanks : Str
  fromClause : Option FromClause
  quote : Char
  path : Str

/-- A program: what is before the first import statement, and each statement with the code behind it. -/
structure ImportProgram where
  header : Str
  statements : List (ImportStatement × Str)

/-! ### Texts -/

/-- The text of a renaming. -/
def Renaming.text (renamed : Renaming) : Str :=
  renamed.blanksBefore ++ "as".toList ++ renamed.blanksBehind ++ renamed.name

/-- The text of a name in braces, without the blanks around it. -/
def namedText (name : Str) (renamed : Option Renaming) : Str :=
  name ++ (renamed.map Renaming.text).getD []

/-- The text between two commas. -/
def ImportItem.text : ImportItem → Str
  | .blank blanks => blanks
  | .named blanksBefore name renamed blanksBehind =>
    blanksBefore ++ namedText name renamed ++ blanksBehind

/-- What is between the braces. -/
def itemsText (items : List ImportItem) : Str :=
  [','].intercalate (items.map ImportItem.text)

/-- The text of a clause. -/
def ImportClause.text : ImportClause → Str
  | .all blanksBefore blanksBehind name =>
    '*' :: blanksBefore ++ "as".toList ++ blanksBehind ++ name
  | .braces items => '{' :: itemsText items ++ ['}']
  | .default name => name

/-- The text of a clause with `from`. -/
def FromClause.text (fromClause : FromClause) : Str :=
  fromClause.clause.text ++ fromClause.blanksBefore ++ "from".toList ++ fromClause.blanksBehind

/-- The text of a statement up to its path. -/
def ImportStatement.front (statement : ImportStatement) : Str :=
  "import".toList ++ statement.blanks ++ (statement.fromClause.map FromClause.text).getD []

/-- The text of a statement. -/
def ImportStatement.text (statement : ImportStatement) : Str :=
  statement.front ++ statement.quote :: statement.path ++ [statement.quote]

/-- The text of statements and the code behind them. -/
def statementsText (statements : List (ImportStatement × Str)) : Str :=
  (statements.map fun entry ↦ entry.1.text ++ entry.2).flatten

/-- The text of a program. -/
def ImportProgram.text (program : ImportProgram) : Str :=
  program.header ++ statementsText program.statements

/-- The text of a program without its import statements. -/
def ImportProgram.code (program : ImportProgram) : Str :=
  program.header ++ (program.statements.map Prod.snd).flatten

/-! ### Bindings -/

/-- The binding of a name in braces. -/
def ImportItem.bindings (path : Str) : ImportItem → List Binding
  | .blank _ => []
  | .named _ name renamed _ =>
    [⟨(renamed.map Renaming.name).getD name, path, .named name⟩]

/-- The bindings of a clause. -/
def ImportClause.bindings (path : Str) : ImportClause → List Binding
  | .all _ _ name => [⟨name, path, .whole⟩]
  | .braces items => items.flatMap (ImportItem.bindings path)
  | .default name => [⟨name, path, .default⟩]

/-- The bindings of a statement. -/
def ImportStatement.bindings (statement : ImportStatement) : List Binding :=
  (statement.fromClause.map fun fromClause ↦ fromClause.clause.bindings statement.path).getD []

/-- The bindings of a program. -/
def ImportProgram.bindings (program : ImportProgram) : List Binding :=
  program.statements.flatMap fun entry ↦ entry.1.bindings

/-! ### Regular statements -/

/-- The class `.`: no line terminator. -/
def isDot (char : Char) : Bool :=
  !([0xA, 0xD, 0x2028, 0x2029].contains char.toNat)

/-- The class `["|']`. -/
def isQuote (char : Char) : Bool :=
  char = '"' || char = '|' || char = '\''

/-- Only blanks. -/
def IsBlank (text : Str) : Prop :=
  ∀ char ∈ text, isSpaceChar char = true

/-- Blanks, and at least one. -/
def HasBlank (text : Str) : Prop :=
  text ≠ [] ∧ IsBlank text

/-- A word. -/
def IsWord (text : Str) : Prop :=
  text ≠ [] ∧ ∀ char ∈ text, isWordChar char = true

/-- A word with blanks around `as`. -/
structure Renaming.Regular (renamed : Renaming) : Prop where
  before : HasBlank renamed.blanksBefore
  behind : HasBlank renamed.blanksBehind
  name : IsWord renamed.name

/-- A word, or a renaming of one, with blanks around it. -/
def ImportItem.Regular : ImportItem → Prop
  | .blank blanks => IsBlank blanks
  | .named blanksBefore name renamed blanksBehind =>
    IsBlank blanksBefore ∧ IsWord name ∧ (∀ other ∈ renamed, other.Regular) ∧ IsBlank blanksBehind

/-- Names are words, with blanks between them. -/
def ImportClause.Regular : ImportClause → Prop
  | .all blanksBefore blanksBehind name => HasBlank blanksBefore ∧ HasBlank blanksBehind ∧ IsWord name
  | .braces items => ∀ item ∈ items, item.Regular
  | .default name => IsWord name

/-- Blanks around `from`. -/
structure FromClause.Regular (fromClause : FromClause) : Prop where
  clause : fromClause.clause.Regular
  before : HasBlank fromClause.blanksBefore
  behind : HasBlank fromClause.blanksBehind

/-- Blanks behind `import`, and a path on one line in quotes. -/
structure ImportStatement.Regular (statement : ImportStatement) : Prop where
  blanks : HasBlank statement.blanks
  fromClause : ∀ fromClause ∈ statement.fromClause, fromClause.Regular
  quote : statement.quote = '"' ∨ statement.quote = '\''
  path_ne_nil : statement.path ≠ []
  path : ∀ char ∈ statement.path, isDot char = true

/-- A text that a line terminator ends. -/
def EndsLine (text : Str) : Prop :=
  ∃ front last, text = front ++ [last] ∧ isDot last = false

/-- Each of some statements with code behind them begins a line if the first one does. -/
def LinesKept : List (ImportStatement × Str) → Prop
  | [] => True
  | [_] => True
  | entry :: next :: rest => EndsLine entry.2 ∧ LinesKept (next :: rest)

/-- The statements are regular, and each begins a line. -/
structure ImportProgram.Regular (program : ImportProgram) : Prop where
  statements : ∀ entry ∈ program.statements, entry.1.Regular
  first : program.statements ≠ [] → program.header = [] ∨ EndsLine program.header
  lines : LinesKept program.statements

end Playground.Client
