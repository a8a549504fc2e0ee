import Playground.Server.Places

/-!
# The manifest of the build server

`MANIFEST` of `server/src/program.rs` and `server/programs/Cargo.toml`. The manifest that a build
leaves on the disk is the one its process has found there, with the name of the program for the first
`default`. In the manifest of the repository that is the placeholder of the library's path.

The first process to build finds the placeholder, and each of its builds fills it in. What it leaves on
the disk has no placeholder, so that after a restart the manifest stays what the last build before it
made of it, whatever is built (`libraryPath_iff_found`).

Not formalized here: the other ways to write a table and its keys in the manifest's format.
-/

set_option autoImplicit false
set_option relaxedAutoImplicit false

namespace Playground.Server

open Library

/-! ### The text of the manifest -/

/-- What the line of the library's path begins with. -/
def libraryKey : Str :=
  "path = \"".toList

/-- The header of the table `lib`. -/
def libraryTable : Str :=
  "[lib]".toList

/-- The value of the key `path` of the table `lib`, which the compiler reads. -/
def libraryPath (manifest : Str) : Option Str :=
  let table := ((manifest.splitOn '\n').dropWhile (· ≠ libraryTable)).tail.takeWhile fun line ↦
    line.head? ≠ some '['
  table.findSome? fun line ↦
    if libraryKey <+: line then some ((line.drop libraryKey.length).takeWhile (· ≠ '"')) else none

/-- The file of the library, below the directory of its program. -/
def librarySuffix : Str :=
  "/src/lib.rs".toList

/-- The path of the library for a name. -/
def librarySource (programName : Str) : Str :=
  programName ++ librarySuffix

/-- The line of the crate's types. -/
def crateTypeLine : Str :=
  "crate-type = [\"cdylib\", \"lib\"]".toList

/-- The lines of `Cargo.toml` before the path of the library. -/
def manifestHead : List Str :=
  ["[package]".toList, "name = \"solpg\"".toList, "version = \"0.1.0\"".toList,
    "edition = \"2021\"".toList, [], libraryTable, crateTypeLine]

/-- The line of the library's path. -/
def pathLine (programName : Str) : Str :=
  libraryKey ++ (librarySource programName ++ ['"'])

/-- The dependencies in `Cargo.toml`, with their features. -/
def dependencies : List (String × List String) :=
  [("anchor-lang", ["anchor-debug", "allow-missing-optionals", "init-if-needed"]),
    ("anchor-spl", ["dex", "governance", "metadata"]), ("arrayref", []), ("borsh", []),
    ("borsh-derive", []), ("bytemuck", []), ("bytemuck_derive", []), ("mpl-bubblegum", []),
    ("mpl-token-auth-rules", ["no-entrypoint"]), ("mpl-token-metadata", []), ("num-derive", []),
    ("num-traits", []), ("pyth-sdk", []), ("pyth-sdk-solana", []), ("serde", []),
    ("solana-program", []), ("spl-account-compression", ["cpi"]),
    ("spl-associated-token-account", []), ("spl-pod", []), ("spl-tlv-account-resolution", []),
    ("spl-token", []), ("spl-token-2022", []), ("spl-token-metadata-interface", []),
    ("spl-transfer-hook-interface", []), ("spl-type-length-value", []),
    ("switchboard-solana", []), ("switchboard-v2", []), ("thiserror", [])]

/-- A string in quotes. -/
def quote (text : String) : Str :=
  '"' :: (text.toList ++ ['"'])

/-- The line of a dependency. -/
def dependencyLine (dependency : String × List String) : Str :=
  dependency.1.toList ++ " = ".toList ++
    if dependency.2 = [] then quote "*"
    else "\x7b version = \"*\", features = [".toList ++
      ", ".toList.intercalate (dependency.2.map quote) ++ "] \x7d".toList

/-- The lines of `Cargo.toml` after the path of the library. -/
@[irreducible] def manifestTail : List Str :=
  [[], "[profile.release]".toList, "overflow-checks = true".toList, "incremental = true".toList, [],
    "[dependencies]".toList] ++ dependencies.map dependencyLine ++ [[]]

/-- `Cargo.toml`, with a name for the directory of the library. -/
def cargoToml (programName : Str) : Str :=
  ['\n'].intercalate (manifestHead ++ pathLine programName :: manifestTail)

/-- The names in the manifests that occur: the placeholder, and those of programs. -/
def IsManifestName (programName : Str) : Prop :=
  programName = placeholder ∨ isUuidText programName = true

/-- A name has no line breaks and no quotes. -/
theorem IsManifestName.notMem {programName : Str} (hname : IsManifestName programName) :
    '\n' ∉ programName ∧ '"' ∉ programName := by
  rcases hname with rfl | huuid
  · decide
  · exact ⟨notMem_of_isUuidText huuid (by decide), notMem_of_isUuidText huuid (by decide)⟩

/-- The other lines of the manifest have no line breaks and no placeholder. -/
theorem notMem_manifest_lines :
    ∀ line ∈ manifestHead ++ manifestTail, '\n' ∉ line ∧ ¬ placeholder <:+: line := by
  decide +kernel

/-- The line of the library's path has no line breaks. -/
theorem notMem_pathLine {programName : Str} (hbreak : '\n' ∉ programName) :
    '\n' ∉ pathLine programName := by
  have hkey : '\n' ∉ libraryKey := by decide
  have hsuffix : '\n' ∉ librarySuffix := by decide
  simp [pathLine, librarySource, hkey, hbreak, hsuffix]

/-- The lines of a manifest. -/
theorem splitOn_cargoToml {programName : Str} (hbreak : '\n' ∉ programName) :
    (cargoToml programName).splitOn '\n' =
      manifestHead ++ pathLine programName :: manifestTail := by
  refine List.splitOn_intercalate '\n' (fun line hmem ↦ ?_) (by simp)
  rcases List.mem_append.mp hmem with hmem | hmem
  · exact (notMem_manifest_lines line (List.mem_append_left _ hmem)).1
  · rcases List.mem_cons.mp hmem with rfl | hmem
    · exact notMem_pathLine hbreak
    · exact (notMem_manifest_lines line (List.mem_append_right _ hmem)).1

/-- The lines of a manifest after the header of the table `lib`. -/
theorem dropWhile_manifestHead (rest : List Str) :
    ((manifestHead ++ rest).dropWhile (· ≠ libraryTable)).tail = crateTypeLine :: rest := by
  have hhead : manifestHead = manifestHead.take 5 ++ [libraryTable, crateTypeLine] := rfl
  have hbefore : ∀ line ∈ manifestHead.take 5, line ≠ libraryTable := by decide
  rw [hhead, List.append_assoc,
    List.dropWhile_append_of_pos fun line hline ↦ decide_eq_true (hbefore line hline)]
  simp

/-- The value in the line of the library's path. -/
theorem takeWhile_pathLine {programName : Str} (hquote : '"' ∉ programName) :
    ((pathLine programName).drop libraryKey.length).takeWhile (· ≠ '"') =
      librarySource programName := by
  have hsuffix : '"' ∉ librarySuffix := by decide
  have hsource : '"' ∉ librarySource programName := by
    simp [librarySource, hquote, hsuffix]
  have hall : ∀ char ∈ librarySource programName, decide (char ≠ '"') = true :=
    fun char hchar ↦ decide_eq_true fun heq ↦ hsource (heq ▸ hchar)
  rw [pathLine, List.drop_left, List.takeWhile_append_of_pos hall]
  simp

/-- The path of the library in a manifest. -/
theorem libraryPath_cargoToml {programName : Str} (hname : IsManifestName programName) :
    libraryPath (cargoToml programName) = some (librarySource programName) := by
  obtain ⟨hbreak, hquote⟩ := hname.notMem
  have hcrate : crateTypeLine.head? ≠ some '[' ∧ ¬ libraryKey <+: crateTypeLine := by decide
  have hkey : ∃ rest, libraryKey = 'p' :: rest := ⟨libraryKey.tail, by decide⟩
  have hpath : (pathLine programName).head? ≠ some '[' := by
    obtain ⟨rest, hkey⟩ := hkey
    simp [pathLine, hkey]
  have hprefix : libraryKey <+: pathLine programName := ⟨_, rfl⟩
  have hkept : (crateTypeLine :: pathLine programName :: manifestTail).takeWhile
      (fun line ↦ line.head? ≠ some '[') = crateTypeLine :: pathLine programName ::
        manifestTail.takeWhile fun line ↦ line.head? ≠ some '[' := by
    rw [List.takeWhile_cons_of_pos (by simpa using hcrate.1),
      List.takeWhile_cons_of_pos (by simpa using hpath)]
  simp only [libraryPath, splitOn_cargoToml hbreak, dropWhile_manifestHead]
  rw [hkept, List.findSome?_cons, if_neg hcrate.2, List.findSome?_cons, if_pos hprefix,
    takeWhile_pathLine hquote]

/-! ### The placeholder -/

/-- A pattern that occurs in joined lines, none of whose characters separates them, occurs in one of
the lines. -/
theorem exists_infix_of_infix_intercalate {pattern : Str} {separator : Char} {lines : List Str}
    (hseparator : separator ∉ pattern) (hne : pattern ≠ [])
    (hoccurs : pattern <:+: [separator].intercalate lines) : ∃ line ∈ lines, pattern <:+: line := by
  induction lines with
  | nil => exact absurd (List.infix_nil.mp hoccurs) hne
  | cons first rest ih =>
    cases rest with
    | nil =>
      rw [List.intercalate_singleton] at hoccurs
      exact ⟨first, List.mem_cons_self, hoccurs⟩
    | cons next others =>
      rw [List.intercalate_cons_cons, List.append_assoc] at hoccurs
      rcases infix_or_infix_of_infix_append_cons hseparator hoccurs with hfirst | hrest
      · exact ⟨first, List.mem_cons_self, hfirst⟩
      · obtain ⟨line, hline, hmem⟩ := ih hrest
        exact ⟨line, List.mem_cons_of_mem _ hline, hmem⟩

/-- A name without the letter `l` has no placeholder in its line. -/
theorem not_infix_pathLine {programName : Str} (hletter : 'l' ∉ programName) :
    ¬ placeholder <:+: pathLine programName := by
  intro hoccurs
  have hkey : libraryKey = libraryKey.dropLast ++ ['"'] := by decide
  have hsuffix : librarySuffix = '/' :: librarySuffix.tail := by decide
  have hmem : 'l' ∈ placeholder := by decide
  have hline : pathLine programName =
      libraryKey.dropLast ++ '"' :: (programName ++ '/' :: (librarySuffix.tail ++ ['"'])) := by
    rw [pathLine, librarySource, hkey, hsuffix]
    simp
  rw [hline] at hoccurs
  rcases infix_or_infix_of_infix_append_cons (by decide) hoccurs with hbefore | hoccurs
  · exact absurd hbefore (by decide)
  rcases infix_or_infix_of_infix_append_cons (by decide) hoccurs with hname | hafter
  · exact hletter (hname.subset hmem)
  · exact absurd hafter (by decide)

/-- Joined lines after others. -/
theorem intercalate_append_cons (separator : Str) {before : List Str} (hne : before ≠ [])
    (line : Str) (after : List Str) :
    separator.intercalate (before ++ line :: after) =
      separator.intercalate before ++ (separator ++ separator.intercalate (line :: after)) := by
  induction before with
  | nil => exact absurd rfl hne
  | cons first rest ih =>
    cases rest with
    | nil =>
      rw [List.singleton_append, List.intercalate_cons_cons, List.intercalate_singleton,
        List.append_assoc]
    | cons next others =>
      have hrest := ih (List.cons_ne_nil _ _)
      rw [List.cons_append] at hrest
      rw [List.cons_append, List.cons_append, List.intercalate_cons_cons, hrest,
        List.intercalate_cons_cons]
      simp only [List.append_assoc]

/-- The text of a manifest before and after the name. -/
theorem cargoToml_eq (programName : Str) :
    cargoToml programName =
      (['\n'].intercalate manifestHead ++ '\n' :: libraryKey) ++ (programName ++
        (librarySuffix ++ '"' :: '\n' :: ['\n'].intercalate manifestTail)) := by
  have htail : manifestTail = [] :: manifestTail.tail := by
    rw [manifestTail]
    rfl
  rw [cargoToml, intercalate_append_cons _ (by simp [manifestHead]), htail,
    List.intercalate_cons_cons]
  simp [pathLine, librarySource]

/-- The manifest of a program is that of the repository with the name filled in. -/
theorem fillManifest_placeholder (programName : Str) :
    fillManifest (cargoToml placeholder) programName = cargoToml programName := by
  have hnone : ¬ placeholder <:+:
      (['\n'].intercalate manifestHead ++ '\n' :: libraryKey) ++ placeholder.dropLast := by
    intro hoccurs
    rw [List.append_assoc, List.cons_append] at hoccurs
    rcases infix_or_infix_of_infix_append_cons (by decide) hoccurs with hhead | hkey
    · obtain ⟨line, hmem, hline⟩ :=
        exists_infix_of_infix_intercalate (by decide) (by decide) hhead
      exact (notMem_manifest_lines line (List.mem_append_left _ hmem)).2 hline
    · exact absurd hkey (by decide)
  rw [fillManifest, cargoToml_eq placeholder, splitFirst_append_append _ hnone,
    cargoToml_eq programName]
  exact List.append_assoc _ _ _

/-- A manifest that has been filled in has no placeholder. -/
theorem fillManifest_of_isUuidText {found : Str} (hfound : isUuidText found = true)
    (programName : Str) : fillManifest (cargoToml found) programName = cargoToml found := by
  have hletter : 'l' ∉ found := notMem_of_isUuidText hfound (by decide)
  have hnone : ¬ placeholder <:+: cargoToml found := by
    intro hoccurs
    obtain ⟨line, hmem, hline⟩ :=
      exists_infix_of_infix_intercalate (by decide) (by decide) hoccurs
    rcases List.mem_append.mp hmem with hmem | hmem
    · exact (notMem_manifest_lines line (List.mem_append_left _ hmem)).2 hline
    rcases List.mem_cons.mp hmem with rfl | hmem
    · exact not_infix_pathLine hletter hline
    · exact (notMem_manifest_lines line (List.mem_append_right _ hmem)).2 hline
  rw [fillManifest, splitFirst_eq_none hnone]

/-- The manifests that are made of one that occurs occur. -/
theorem exists_fillManifest {found programName : Str} (hfound : IsManifestName found)
    (hname : isUuidText programName = true) :
    ∃ name, IsManifestName name ∧ fillManifest (cargoToml found) programName = cargoToml name ∧
      (name = programName ↔ found = placeholder ∨ found = programName) := by
  rcases hfound with rfl | huuid
  · exact ⟨programName, Or.inr hname, fillManifest_placeholder programName, by simp⟩
  · refine ⟨found, Or.inr huuid, fillManifest_of_isUuidText huuid programName, ?_⟩
    constructor
    · exact Or.inr
    · rintro (rfl | heq)
      · exact absurd huuid (by decide)
      · exact heq

/-! ### A compiler -/

/-- Where a compiler that copies the library puts the copy. -/
def copyPlace (workingDir : Place) (outDir : Str) : Place :=
  locate workingDir outDir ++ ["solpg.so".toList]

/-- A compiler that copies the file of the library that the manifest names. -/
def copyLibrary (workingDir : Place) (disk : Disk) (manifest outDir : Str) :
    Option (Option Str × Disk) :=
  match (readToString disk (locate workingDir manifest)).bind libraryPath with
  | none => some (some "error: could not compile".toList, disk)
  | some library =>
    some (some [], Function.update disk (copyPlace workingDir outDir)
      (disk (locate workingDir (joinPath programsDir library))))

/-- The compiler that copies leaves the manifest and the sources alone. -/
theorem copyLibrary_keeps {workingDir : Place} {before after : Disk} {programName : Str}
    {stderr : Option Str} (hname : IsComponent programName)
    (hrun : copyLibrary workingDir before manifestPath (programPath programName) =
      some (stderr, after)) {place : Place}
    (hplace : place = manifestPlace workingDir ∨ IsSource workingDir place) :
    after place = before place := by
  have hcopy : copyPlace workingDir (programPath programName) =
      workingDir ++ [programsDir, programName, "solpg.so".toList] := by
    rw [copyPlace, locate_programPath workingDir hname, List.append_assoc]
    rfl
  have hne : place ≠ copyPlace workingDir (programPath programName) := by
    rw [hcopy]
    rcases hplace with rfl | ⟨name, rest, rfl⟩
    · rw [manifestPlace_eq]
      intro heq
      simp at heq
    · intro heq
      have htail := List.append_cancel_left heq
      simp only [List.cons.injEq] at htail
      exact absurd htail.2.2.1 (by decide)
  unfold copyLibrary at hrun
  split at hrun
  · simp only [Option.some.injEq, Prod.mk.injEq] at hrun
    rw [hrun.2]
  · simp only [Option.some.injEq, Prod.mk.injEq] at hrun
    rw [← hrun.2, Function.update_of_ne hne]

/-- The text of a UUID. -/
def sampleUuid : Str :=
  "00000000-0000-4000-8000-000000000000".toList

/-- The text of another UUID. -/
def otherUuid : Str :=
  "ffffffff-ffff-4fff-bfff-ffffffffffff".toList

/-- An environment with the compiler that copies. -/
def copyingEnvironment (workingDir : Place) : Environment Unit workingDir where
  isWordChar := isWordChar
  tryParse := isUuidText
  newV4 := fun _ ↦ sampleUuid
  cargoBuildSbf := copyLibrary workingDir
  parseIdl := fun _ _ _ ↦ .ok ()
  isUuidText_of_tryParse := fun _ htext ↦ htext
  isHyphenated_newV4 := fun _ ↦ by decide
  cargoBuildSbf_keeps := fun _ _ _ _ hname hrun _ hplace ↦ copyLibrary_keeps hname hrun hplace

/-- A disk with nothing but the manifest of the repository. -/
def installedDisk : Disk :=
  Function.update (fun _ ↦ none) (manifestPlace []) (some (.text (cargoToml placeholder)))

end Playground.Server
