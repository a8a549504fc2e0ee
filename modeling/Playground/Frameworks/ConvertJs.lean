import Playground.Frameworks.AddAfter

/-!
# Exporting scripts

`addImports` of `client/src/frameworks/common.ts` and `convertJS` of `client/src/frameworks/native/from.ts`. What
a script uses without importing it is imported in lines in front of it, and variables that are defined
automatically are defined behind its import statements.

The comment that says that no imports are needed is taken out on purpose. Apart from it the lines of a script are
kept, and the definitions are between two of them, behind the last import statement, if that statement ends its
line and nothing behind it looks like an import statement (`insertsGlobals_of_placed`).

Not formalized here: the program and the connection whose values the definitions mention.
-/

set_option autoImplicit false
set_option relaxedAutoImplicit false

namespace Playground.Frameworks

open Library Regex Client

/-! ### Imports -/

/-- How a package is imported: as a whole, by a name of it, or by default. -/
inductive ImportStyle
  | all (name : Str)
  | named (name : Str)
  | default (name : Str)

/-- The name that a script uses. -/
def ImportStyle.name : ImportStyle → Str
  | .all name => name
  | .named name => name
  | .default name => name

/-- `importStyleText`. -/
def ImportStyle.text : ImportStyle → Str
  | .all name => "* as ".toList ++ name
  | .named name => "\x7b ".toList ++ name ++ " \x7d".toList
  | .default name => name

/-- `PACKAGES.global`. -/
def globalPackages : List (Str × ImportStyle) :=
  [("@coral-xyz/anchor".toList, .all "anchor".toList),
    ("@solana/buffer-layout".toList, .all "BufferLayout".toList),
    ("@solana/web3.js".toList, .all "web3".toList),
    ("assert".toList, .default "assert".toList),
    ("bn.js".toList, .default "BN".toList),
    ("borsh".toList, .all "borsh".toList),
    ("buffer".toList, .named "Buffer".toList),
    ("mocha".toList, .all "mocha".toList)]

/-- `PACKAGES_MAP`: another package, or none at all. -/
def packagesMap (packageName : Str) : Option (Option Str) :=
  if packageName = "buffer".toList then some none else none

/-- `getGlobalPackages`: the packages that are used in a script. -/
def getGlobalPackages (content : Str) : List (Str × ImportStyle) :=
  globalPackages.filterMap fun entry ↦
    let accessors := [entry.2.name ++ ['.'], entry.2.name ++ ['(']]
    match packagesMap entry.1 with
    | some none => none
    | some (some packageName) =>
      if accessors.any fun accessor ↦ accessor <:+: content then some (packageName, entry.2) else none
    | none => if accessors.any fun accessor ↦ accessor <:+: content then some entry else none

/-- The line that imports a package. -/
def importLine (entry : Str × ImportStyle) : Str :=
  "import ".toList ++ entry.2.text ++ " from \"".toList ++ entry.1 ++ "\";\n".toList

/-- The comment that no imports are needed, up to the end of its line. -/
def noImportsNeeded : Str :=
  "// No imports needed".toList

/-- A script without the line in which the comment begins, from the comment on. -/
def removeNoImports (content : Str) : Str :=
  match splitFirst noImportsNeeded content with
  | none => content
  | some (before, behind) =>
    let noImportsEndIndex := before.length + indexOf (noImportsNeeded ++ behind) '\n'
    before ++ content.drop (noImportsEndIndex + 1).toNat

/-- `addImports`. -/
def addImports (content : Str) : Str :=
  let content := removeNoImports content
  (getGlobalPackages content).foldl (fun content entry ↦ importLine entry ++ content) content

/-- The lines that are added. -/
def addedImports (content : Str) : Str :=
  ((getGlobalPackages (removeNoImports content)).reverse.map importLine).flatten

/-! ### Conversion -/

/-- The Playground globals, for a program and a connection. -/
def playgroundGlobals (pk : Option Str) (rpcEndpoint commitment : Str) : Str :=
  "// Manually initialize variables that are automatically defined in Playground\n".toList ++
    "const PROGRAM_ID = new web3.PublicKey(".toList ++
    (match pk with
      | some pk => "\"".toList ++ pk ++ "\"".toList
      | none => "/* Program id */".toList) ++
    ");\nconst connection = new web3.Connection(\"".toList ++ rpcEndpoint ++ "\", \"".toList ++ commitment ++
    "\");\nconst wallet = \x7b keypair: web3.Keypair.generate() \x7d;\n".toList

/-- `String.prototype.replaceAll`, with a replacement without patterns. -/
def replaceAll (content pattern replacement : Str) : Str :=
  ((literal pattern).tokens content).flatMap fun token ↦ (token.kept.map fun char ↦ [char]).getD replacement

/-- The imports and the globals of a script. -/
def insertGlobals (globals content : Str) : Str :=
  addAfter (addImports content) importStatementRegex globals

/-- `convertJS`, with what the globals are. -/
def convertJs (globals content : Str) : Str :=
  let content := insertGlobals globals content
  let content := replaceAll content "pg.PROGRAM_ID".toList "PROGRAM_ID".toList
  let content := replaceAll content "pg.connection".toList "connection".toList
  let content := replaceAll content "pg.wallet.keypair".toList "wallet.keypair".toList
  replaceAll content "pg.wallet.publicKey".toList "wallet.keypair.publicKey".toList

/-! ### Where the globals are inserted -/

/-- A script, as what is in front of its last import statement, the statement, and what is behind it. -/
inductive Script
  | plain (code : Str)
  | importing (before : Str) (last : ImportText) (behind : Str)

/-- The text of a script. -/
def Script.text : Script → Str
  | .plain code => code
  | .importing before last behind => before ++ (last.text ++ behind)

/-- The text of a script up to the end of its last import statement. -/
def Script.upToImports : Script → Str
  | .plain _ => []
  | .importing before last _ => before ++ last.text

/-- What is behind a text begins a line. -/
def IsLines (text : Str) : Prop :=
  text = [] ∨ ∃ front, text = front ++ ['\n']

/-- The globals are inserted between two lines of the script and of the imports that are added to it, behind the
last import statement, or at the beginning if there is none. -/
def InsertsGlobals (globals content original : Str) (script : Script) : Prop :=
  ∃ before behind, addedImports content ++ original = before ++ behind ∧
    insertGlobals globals content = before ++ (globals ++ ['\n']) ++ behind ∧
      IsLines (addedImports content) ∧ IsLines before ∧
        addedImports content ++ script.upToImports <+: before ∧
          (addedImports content ++ script.upToImports = [] → before = [])

/-- The last import statement ends its line and nothing behind it looks like one, if it is one of the script, or
one that is added to it; or there is no text at all. -/
inductive Script.Placed (content : Str) : Script → Prop
  | importing {before behind rest : Str} {last : ImportText} (hplain : last.Plain)
      (hends : EndsStatement behind rest) : Script.Placed content (.importing before last behind)
  | added {code : Str} (hadded : addedImports content ≠ []) (hnone : importStatementRegex.NoMatch code) :
      Script.Placed content (.plain code)
  | empty (hadded : addedImports content = []) : Script.Placed content (.plain [])

/-! ### Lines that are added -/

section Lines

variable {content : Str}

/-- The lines that are added are in front of the script without the comment. -/
theorem addImports_eq (content : Str) : addImports content = addedImports content ++ removeNoImports content := by
  have hfold : ∀ (entries : List (Str × ImportStyle)) (code : Str),
      entries.foldl (fun code entry ↦ importLine entry ++ code) code =
        (entries.reverse.map importLine).flatten ++ code := by
    intro entries
    induction entries with
    | nil => exact fun _ ↦ rfl
    | cons entry entries ih =>
      intro code
      rw [List.foldl_cons, ih, List.reverse_cons, List.map_append, List.flatten_append, List.append_assoc,
        List.map_singleton, List.flatten_singleton]
  exact hfold _ _

/-- The packages that are used are among the global ones. -/
theorem mem_globalPackages {entry : Str × ImportStyle} (hentry : entry ∈ getGlobalPackages content) :
    entry ∈ globalPackages := by
  obtain ⟨package, hpackage, hsome⟩ := List.mem_filterMap.mp hentry
  dsimp only at hsome
  have hmap : packagesMap package.1 = some none ∨ packagesMap package.1 = none := by
    unfold packagesMap
    split
    · exact .inl rfl
    · exact .inr rfl
  rcases hmap with hnull | hnone
  · rw [hnull] at hsome
    cases hsome
  · rw [hnone] at hsome
    dsimp only at hsome
    split at hsome
    · exact Option.some.inj hsome ▸ hpackage
    · exact absurd hsome.symm (Option.some_ne_none _)

/-- The statement that imports a package. -/
def importOf (entry : Str × ImportStyle) : ImportText :=
  ⟨" ".toList ++ entry.2.text ++ " from ".toList, '"', entry.1, '"'⟩

/-- A line that is added is the statement with a semicolon and a line feed. -/
theorem importLine_eq (entry : Str × ImportStyle) :
    importLine entry = (importOf entry).text ++ ";\n".toList := by
  have himport : "import ".toList = "import".toList ++ " ".toList := by decide
  have hfrom : " from \"".toList = " from ".toList ++ ['"'] := by decide
  have hend : "\";\n".toList = ['"'] ++ ";\n".toList := by decide
  unfold importLine importOf ImportText.text ImportText.quoted
  rw [ImportText.front_eq, himport, hfrom, hend]
  simp only [List.append_assoc, List.cons_append, List.nil_append]

/-- The statements that import global packages are plain. -/
theorem plain_importOf {entry : Str × ImportStyle} (hentry : entry ∈ globalPackages) :
    (importOf entry).Plain := by
  have hplain : ∀ entry ∈ globalPackages,
      (∀ char ∈ (importOf entry).middle, Client.isQuote char = false ∧ isDotOrLineFeed char = true) ∧
        ∀ char ∈ (importOf entry).inside, isDot char = true := by
    decide +kernel
  obtain ⟨hmiddle, hinside⟩ := hplain entry hentry
  have hquote : Client.isQuote '"' = true := by decide
  exact ⟨hmiddle, hquote, hinside, hquote⟩

/-- If lines are added, the last one of them imports a global package. -/
theorem exists_addedImports_eq (hadded : addedImports content ≠ []) :
    ∃ front entry, entry ∈ globalPackages ∧ addedImports content = front ++ importLine entry := by
  cases hentries : getGlobalPackages (removeNoImports content) with
  | nil =>
    rw [addedImports, hentries] at hadded
    exact absurd rfl hadded
  | cons entry entries =>
    refine ⟨(entries.reverse.map importLine).flatten, entry,
      mem_globalPackages (hentries ▸ List.mem_cons_self), ?_⟩
    rw [addedImports, hentries, List.reverse_cons, List.map_append, List.flatten_append, List.map_singleton,
      List.flatten_singleton]

/-- The lines that are added end. -/
theorem isLines_addedImports (content : Str) : IsLines (addedImports content) := by
  by_cases hadded : addedImports content = []
  · exact .inl hadded
  · obtain ⟨front, entry, -, heq⟩ := exists_addedImports_eq hadded
    right
    refine ⟨front ++ ((importOf entry).text ++ ";".toList), ?_⟩
    rw [heq, importLine_eq]
    simp

end Lines

/-- The globals are inserted between two lines, behind the last import statement, if that one ends its line and
nothing behind it looks like one. -/
theorem insertsGlobals_of_placed {globals content : Str} {script : Script}
    (htext : script.text = removeNoImports content) (hplaced : script.Placed content) :
    InsertsGlobals globals content (removeNoImports content) script := by
  have hinsert : insertGlobals globals content =
      addAfter (addedImports content ++ script.text) importStatementRegex globals := by
    rw [insertGlobals, addImports_eq, htext]
  rw [InsertsGlobals, hinsert, ← htext]
  cases hplaced with
  | @importing before behind rest last hplain hends =>
    obtain ⟨ending, hbehind, hadd⟩ := addAfter_of_endsStatement hplain hends (addedImports content ++ before) globals
    refine ⟨addedImports content ++ before ++ (last.text ++ (ending ++ ['\n'])), rest, ?_, ?_,
      isLines_addedImports content, .inr ⟨addedImports content ++ before ++ (last.text ++ ending), ?_⟩,
      ⟨ending ++ ['\n'], ?_⟩, fun hnil ↦ ?_⟩
    · simp [Script.text, hbehind]
    · rw [Script.text, ← List.append_assoc, hadd, List.append_assoc _ globals]
    · simp
    · simp [Script.upToImports]
    · simp [Script.upToImports, ImportText.text, ImportText.quoted] at hnil
  | @added code hadded hnone =>
    obtain ⟨front, entry, hentry, heq⟩ := exists_addedImports_eq hadded
    have hends : EndsStatement (';' :: '\n' :: code) code := ⟨.inr rfl, hnone⟩
    obtain ⟨ending, hbehind, hadd⟩ := addAfter_of_endsStatement (plain_importOf hentry) hends front globals
    have hending : ending = [';'] := (@List.append_cancel_right _ [';'] ('\n' :: code) ending hbehind).symm
    have hline : addedImports content = front ++ ((importOf entry).text ++ (ending ++ ['\n'])) := by
      rw [heq, importLine_eq, hending]
      rfl
    refine ⟨addedImports content, code, rfl, ?_, isLines_addedImports content, isLines_addedImports content,
      ⟨[], ?_⟩, fun hnil ↦ ?_⟩
    · have hwhole : addedImports content ++ Script.text (.plain code) =
          front ++ ((importOf entry).text ++ ';' :: '\n' :: code) := by
        rw [hline, hending]
        simp [Script.text]
      rw [hwhole, hadd, ← hline, List.append_assoc _ globals]
    · simp [Script.upToImports]
    · exact (List.append_eq_nil_iff.mp hnil).1
  | empty hadded =>
    refine ⟨[], [], ?_, ?_, .inl hadded, .inl rfl, ?_, fun _ ↦ rfl⟩
    · rw [hadded]
      rfl
    · rw [hadded, addAfter, Script.text, List.append_nil, List.take_nil, List.drop_nil]
      simp
    · rw [hadded]
      exact List.prefix_refl _

/-- A script that imports a package on two lines, with a quoted name in front of the path, and uses a global
one. -/
def importingScript : Script :=
  .importing "// Client\n".toList
    ⟨" \x7b\n  encode, ".toList, '"', "from-text\" as decode \x7d from 'bs58".toList, '\x27'⟩
    ";\nencode(web3.key);".toList

/-- Of a script with an import statement that ends its line. -/
theorem insertsGlobals_of_placed_importingScript :
    InsertsGlobals [] importingScript.text (removeNoImports importingScript.text) importingScript := by
  have hkept : removeNoImports importingScript.text = importingScript.text := by decide +kernel
  have hnone : ∀ rest ∈ "encode(web3.key);".toList.tails, importStatementRegex.first rest = none := by
    decide +kernel
  have hmiddle : ∀ char ∈ " \x7b\n  encode, ".toList,
      Client.isQuote char = false ∧ isDotOrLineFeed char = true := by
    decide +kernel
  exact insertsGlobals_of_placed hkept.symm (.importing ⟨hmiddle, by decide, by decide +kernel, by decide⟩
    ⟨.inr rfl, fun rest hrest ↦ hnone rest ((List.mem_tails _ _).mpr hrest)⟩)

/-- A script with the comment that no imports are needed. -/
def commentedCode : Str :=
  "// No imports needed: web3\nweb3.Keypair.generate();\n".toList

/-- The comment that no imports are needed does not come back. -/
theorem not_insertsGlobals_commentedCode :
    ¬ ∀ (globals content : Str) (script : Script), script.text = content →
      InsertsGlobals globals content content script := by
  intro hall
  obtain ⟨before, behind, hcontent, hinsert, -⟩ := hall [] commentedCode (.plain commentedCode) rfl
  have hlength : (insertGlobals [] commentedCode).length ≠
      (addedImports commentedCode ++ commentedCode).length + 1 := by
    decide +kernel
  rw [hcontent, hinsert] at hlength
  simp at hlength
  omega

end Playground.Frameworks
