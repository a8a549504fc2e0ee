import Playground.Common.KebabCase
import Playground.Explorer.Workspaces
import Playground.Frameworks.ConvertJs
import Playground.Frameworks.ProgramPaths

/-!
# Layouts of frameworks

`convertFromPlayground` of `client/src/frameworks/native/from.ts` and `convertToPlaygroundCommon` of
`client/src/frameworks/common.ts`, which `convertToPlayground` of the native framework is. The files of a program are
moved below `program`, and brought back by what is found of their paths.

`conversions_iff` says for which files that brings back exactly the files of the program, when all that is found lies
in `src`, and when no two files of a directory `src` become one.

Not formalized here: which versions the dependencies have, and the lists of packages that the build of the client
generates. The two texts of dependencies are parameters.
-/

set_option autoImplicit false
set_option relaxedAutoImplicit false

namespace Playground.Frameworks

open Library Client Explorer PgCommon

/-! ### From Playground -/

/-- What an export reads from Playground. -/
structure PlaygroundState where
  /-- `PgExplorer.currentWorkspaceName`. -/
  currentWorkspaceName : Option Str
  /-- `PgProgramInfo.pk`, in base 58. -/
  pk : Option Str
  /-- `PgConnection.current.rpcEndpoint`. -/
  rpcEndpoint : Str
  /-- `PgConnection.current.commitment`. -/
  commitment : Str
  /-- `getRustDependencies`. -/
  getRustDependencies : TupleFiles → Str
  /-- `getJSDependencies`. -/
  getJSDependencies : TupleFiles → Str

/-- `PROGRAM_PATH`. -/
def programDirname : Str :=
  "program".toList

/-- A file in the layout of the framework, if it is one of those that are exported. -/
def exportFile (globals : Str) (file : Str × Str) : Option (Str × Str) :=
  if srcDirname <+: file.1 then some (joinPaths programDirname file.1, file.2)
  else if clientDirname <+: file.1 then some (file.1, convertJs globals file.2)
  else if testsDirname <+: file.1 then some (file.1, convertJs globals file.2)
  else none

/-- `Cargo.toml` of the program. -/
def cargoToml (playground : PlaygroundState) (files : TupleFiles) : Str :=
  "[package]\nname = \"".toList ++ toKebabFromTitle (playground.currentWorkspaceName.getD "solpg".toList) ++
    "\"\nversion = \"0.1.0\"\ndescription = \"Native Solana Program\"\nedition = \"2021\"\n\n[lib]\n".toList ++
    "crate-type = [\"cdylib\", \"lib\"]\n\n[features]\nno-entrypoint = []\n\n".toList ++
    playground.getRustDependencies files ++ "\n".toList

/-- `package.json`. -/
def packageJson (playground : PlaygroundState) (frameworkFiles : TupleFiles) : Str :=
  "\x7b\n  \"scripts\": \x7b\n    \"lint:fix\": \"prettier */*.js \\\"*/**/*\x7b.js,.ts\x7d\\\" -w\",\n".toList ++
    "    \"lint\": \"prettier */*.js \\\"*/**/*\x7b.js,.ts\x7d\\\" --check\",\n".toList ++
    "    \"client\": \"yarn run ts-node client/*.ts\",\n".toList ++
    "    \"test\": \"yarn run ts-mocha -p ./tsconfig.json -t 1000000 tests/**/*.ts\"\n  \x7d,\n".toList ++
    playground.getJSDependencies frameworkFiles ++ "\n\x7d\n".toList

/-- `tsconfig.json`. -/
def tsconfigJson : Str :=
  "\x7b\n  \"compilerOptions\": \x7b\n    \"types\": [\"mocha\", \"chai\"],\n".toList ++
    "    \"typeRoots\": [\"./node_modules/@types\"],\n    \"lib\": [\"es2015\"],\n".toList ++
    "    \"module\": \"commonjs\",\n".toList ++
    "    \"target\": \"es6\",\n    \"esModuleInterop\": true\n  \x7d\n\x7d\n".toList

/-- The files that are not in Playground. -/
def addedFiles (playground : PlaygroundState) (files frameworkFiles : TupleFiles) : TupleFiles :=
  [(joinPaths programDirname "Cargo.toml".toList, cargoToml playground files),
    (".gitignore".toList, ".DS_Store\ntarget\nnode_modules\ntest-ledger\n".toList),
    (".prettierignore".toList, ".DS_Store\ntarget\ntest-ledger\n".toList),
    ("package.json".toList, packageJson playground frameworkFiles),
    ("tsconfig.json".toList, tsconfigJson)]

/-- `convertFromPlayground`. -/
def convertFromPlayground (playground : PlaygroundState) (files : TupleFiles) : TupleFiles :=
  let globals := playgroundGlobals playground.pk playground.rpcEndpoint playground.commitment
  let frameworkFiles := files.filterMap (exportFile globals)
  frameworkFiles ++ addedFiles playground files frameworkFiles

/-! ### To Playground -/

/-- A file in the layout of Playground, if it is one of a program. -/
def importFile (file : Str × Str) : Option (Str × Str) :=
  (programPath file.1).map fun programFilePath ↦ (programFilePath, file.2)

/-- `convertToPlaygroundCommon`. -/
def convertToPlaygroundCommon (files : TupleFiles) : TupleFiles :=
  files.filterMap importFile

/-- `convertToPlayground` of the native framework. -/
def convertToPlayground (files : TupleFiles) : TupleFiles :=
  convertToPlaygroundCommon files

/-! ### What is to be brought back -/

/-- A file of the program: below `src`, with one of the extensions, in no directory `obj` or `bin`. -/
def IsProgramFile (path : Str) : Prop :=
  "src/".toList <+: path ∧ hasExtension path = true ∧ ¬ "/obj/".toList <:+: path ∧ ¬ "/bin/".toList <:+: path

instance (path : Str) : Decidable (IsProgramFile path) :=
  inferInstanceAs (Decidable (_ ∧ _ ∧ _ ∧ _))

/-- A path that is kept: there is no line terminator in it if it is one of the program, and `src/` does not come again
in it; `src` is not seen in it if it is another one that is exported. -/
def KeepsPath (path : Str) : Prop :=
  if IsProgramFile path then (∀ char ∈ path, isDot char = true) ∧ ¬ "src/".toList <:+: path.drop 3
  else srcDirname <+: path ∨ clientDirname <+: path ∨ testsDirname <+: path → ∀ rest, ¬ Sees path rest

/-- The path that is found of a file of the program is the whole one, if it is kept. -/
theorem programPath_of_keepsPath {path : Str} (hprogram : IsProgramFile path)
    (hdots : ∀ char ∈ path, isDot char = true) (hagain : ¬ "src/".toList <:+: path.drop 3) :
    programPath path = some path := by
  obtain ⟨⟨rest, rfl⟩, hextension, hobj, hbin⟩ := hprogram
  have hbelow : "src/".toList ++ rest = "src".toList ++ '/' :: rest := rfl
  rw [hbelow] at hdots hagain hextension hobj hbin ⊢
  have hinside : ∀ {pattern : Str}, pattern <:+: '/' :: rest → pattern <:+: "src".toList ++ '/' :: rest :=
    fun h ↦ h.trans (List.suffix_append _ _).isInfix
  refine programPath_eq_some_iff.mpr ⟨'/' :: rest, seesFirst_append (isProgramRest_iff.mpr ⟨hagain, ?_⟩), rfl⟩
  refine ⟨fun h ↦ hobj (hinside h), fun h ↦ hbin (hinside h), fun char hchar ↦ ?_, ?_⟩
  · exact hdots char (List.mem_append_right _ hchar)
  · rwa [hasExtension_append (by decide)] at hextension

/-- In what is found, `src/` does not come again, and there is no line terminator. -/
theorem clean_of_programPath {path found : Str} (hfound : programPath path = some found) :
    (∀ char ∈ found, isDot char = true) ∧ ¬ "src/".toList <:+: found.drop 3 := by
  obtain ⟨rest, hrest, rfl⟩ := programPath_eq_some_iff.mp hfound
  obtain ⟨hagain, -, -, hdots, -⟩ := isProgramRest_iff.mp hrest.1.2
  refine ⟨fun char hchar ↦ ?_, hagain⟩
  rcases List.mem_append.mp hchar with hsrc | hlater
  · have hall : ∀ char ∈ "src".toList, isDot char = true := by decide
    exact hall char hsrc
  · exact hdots char hlater

/-! ### There and back -/

/-- `program` in front of a path changes nothing of what is found. -/
theorem programPath_joinPaths {path : Str} (hsrc : srcDirname <+: path) :
    programPath (joinPaths programDirname path) = programPath path := by
  obtain ⟨rest, rfl⟩ := hsrc
  exact programPath_append (show 's' ∉ "program/".toList by decide) _

/-- What becomes of a file there and back. -/
theorem importFile_exportFile (globals : Str) (file : Str × Str) :
    (exportFile globals file).bind importFile =
      if srcDirname <+: file.1 then importFile file
      else if clientDirname <+: file.1 ∨ testsDirname <+: file.1 then
        importFile (file.1, convertJs globals file.2)
      else none := by
  unfold exportFile
  by_cases hsrc : srcDirname <+: file.1
  · rw [if_pos hsrc, if_pos hsrc, Option.bind_some, importFile, programPath_joinPaths hsrc, importFile]
  · rw [if_neg hsrc, if_neg hsrc]
    by_cases hclient : clientDirname <+: file.1
    · rw [if_pos hclient, if_pos (Or.inl hclient), Option.bind_some]
    · rw [if_neg hclient]
      by_cases htests : testsDirname <+: file.1
      · rw [if_pos htests, if_pos (Or.inr htests), Option.bind_some]
      · rw [if_neg htests, if_neg (not_or.mpr ⟨hclient, htests⟩), Option.bind_none]

/-- None of the files that are added is one of a program. -/
theorem importFile_addedFiles {playground : PlaygroundState} {files frameworkFiles : TupleFiles} {file : Str × Str}
    (hfile : file ∈ addedFiles playground files frameworkFiles) : importFile file = none := by
  have hpaths : ∀ path ∈ (addedFiles playground files frameworkFiles).map Prod.fst, hasExtension path = false := by
    have hdecide : ∀ path ∈ [joinPaths programDirname "Cargo.toml".toList, ".gitignore".toList,
        ".prettierignore".toList, "package.json".toList, "tsconfig.json".toList], hasExtension path = false := by
      decide +kernel
    exact hdecide
  rw [importFile, programPath_eq_none_of_extension (hpaths _ (List.mem_map_of_mem hfile)), Option.map_none]

/-- The files that are brought back, one by one. -/
theorem convertToPlaygroundCommon_convertFromPlayground (playground : PlaygroundState) (files : TupleFiles) :
    convertToPlaygroundCommon (convertFromPlayground playground files) =
      files.filterMap fun file ↦ (exportFile
        (playgroundGlobals playground.pk playground.rpcEndpoint playground.commitment) file).bind importFile := by
  have hadded : ∀ frameworkFiles, (addedFiles playground files frameworkFiles).filterMap importFile = [] :=
    fun frameworkFiles ↦ List.filterMap_eq_nil_iff.mpr fun _ hfile ↦ importFile_addedFiles hfile
  unfold convertToPlaygroundCommon convertFromPlayground
  rw [List.filterMap_append, hadded, List.append_nil, List.filterMap_filterMap]

section Kept

variable {α : Type*} {keep : α → Bool} {map : α → Option α}

/-- Where what is to be kept is kept, it is there in its order. -/
theorem filter_sublist_filterMap {entries : List α}
    (hkeeps : ∀ entry ∈ entries, keep entry = true → map entry = some entry) :
    (entries.filter keep).Sublist (entries.filterMap map) := by
  induction entries with
  | nil => exact List.Sublist.refl _
  | cons entry entries ih =>
    have hrest := ih fun other hother ↦ hkeeps other (List.mem_cons_of_mem _ hother)
    cases hkeep : keep entry with
    | true =>
      rw [List.filter_cons_of_pos hkeep, List.filterMap_cons_some (hkeeps entry List.mem_cons_self hkeep)]
      exact hrest.cons_cons entry
    | false =>
      rw [List.filter_cons_of_neg (by rw [hkeep]; exact Bool.false_ne_true)]
      cases hmap : map entry with
      | none => rwa [List.filterMap_cons_none hmap]
      | some other =>
        rw [List.filterMap_cons_some hmap]
        exact hrest.cons other

/-- Nothing else is there exactly if everything else is dropped. -/
theorem filterMap_eq_filter_iff {entries : List α}
    (hkeeps : ∀ entry ∈ entries, keep entry = true → map entry = some entry) :
    entries.filterMap map = entries.filter keep ↔ ∀ entry ∈ entries, keep entry = false → map entry = none := by
  induction entries with
  | nil => exact iff_of_true rfl nofun
  | cons entry entries ih =>
    have hkeepsRest : ∀ other ∈ entries, keep other = true → map other = some other :=
      fun other hother ↦ hkeeps other (List.mem_cons_of_mem _ hother)
    rw [List.forall_mem_cons]
    cases hkeep : keep entry with
    | true =>
      rw [List.filter_cons_of_pos hkeep, List.filterMap_cons_some (hkeeps entry List.mem_cons_self hkeep),
        List.cons.injEq, and_iff_right rfl, ih hkeepsRest, and_iff_right nofun]
    | false =>
      rw [List.filter_cons_of_neg (by rw [hkeep]; exact Bool.false_ne_true)]
      cases hmap : map entry with
      | none => rw [List.filterMap_cons_none hmap, ih hkeepsRest, and_iff_right fun _ ↦ rfl]
      | some other =>
        -- there is one more than there may be
        rw [List.filterMap_cons_some hmap]
        refine iff_of_false (fun heq ↦ ?_) fun hnone ↦ Option.some_ne_none _ (hnone.1 rfl)
        have hlength := (filter_sublist_filterMap hkeepsRest).length_le
        rw [← heq, List.length_cons] at hlength
        exact Nat.not_succ_le_self _ hlength

end Kept

theorem importFile_eq_none_iff {file : Str × Str} : importFile file = none ↔ ∀ rest, ¬ Sees file.1 rest := by
  rw [importFile, Option.map_eq_none_iff, programPath_eq_none_iff]

/-- A file is dropped there and back if it is not exported, or `src` is not seen in its path. -/
theorem importFile_exportFile_eq_none_iff {globals : Str} {file : Str × Str} :
    (exportFile globals file).bind importFile = none ↔
      (srcDirname <+: file.1 ∨ clientDirname <+: file.1 ∨ testsDirname <+: file.1 → ∀ rest, ¬ Sees file.1 rest) := by
  rw [importFile_exportFile]
  by_cases hsrc : srcDirname <+: file.1
  · rw [if_pos hsrc, importFile_eq_none_iff]
    exact (imp_iff_right (Or.inl hsrc)).symm
  · rw [if_neg hsrc, or_iff_right hsrc]
    by_cases hscript : clientDirname <+: file.1 ∨ testsDirname <+: file.1
    · rw [if_pos hscript, importFile_eq_none_iff]
      exact (imp_iff_right hscript).symm
    · rw [if_neg hscript]
      exact iff_of_true rfl fun h ↦ absurd h hscript

/-- A file of the program comes back as it is where the whole path is found. -/
theorem importFile_exportFile_of_isProgramFile {globals : Str} {file : Str × Str} (hprogram : IsProgramFile file.1)
    (hfound : programPath file.1 = some file.1) : (exportFile globals file).bind importFile = some file := by
  have hsrc : srcDirname <+: file.1 := (show srcDirname <+: "src/".toList from ⟨['/'], rfl⟩).trans hprogram.1
  rw [importFile_exportFile, if_pos hsrc, importFile, hfound, Option.map_some]

/-- Exactly the files of the program are brought back, if and only if all paths are kept. -/
theorem eq_filter_iff (playground : PlaygroundState) (files : TupleFiles) :
    convertToPlaygroundCommon (convertFromPlayground playground files) =
        files.filter (fun file ↦ IsProgramFile file.1) ↔ ∀ file ∈ files, KeepsPath file.1 := by
  rw [convertToPlaygroundCommon_convertFromPlayground]
  constructor
  · intro heq file hfile
    have hclean : ∀ file ∈ files, IsProgramFile file.1 →
        (∀ char ∈ file.1, isDot char = true) ∧ ¬ "src/".toList <:+: file.1.drop 3 := by
      intro file hfile hprogram
      have hmem : file ∈ files.filter fun file ↦ IsProgramFile file.1 :=
        List.mem_filter.mpr ⟨hfile, decide_eq_true hprogram⟩
      rw [← heq, List.mem_filterMap] at hmem
      obtain ⟨source, -, hback⟩ := hmem
      obtain ⟨exported, -, himport⟩ := Option.bind_eq_some_iff.mp hback
      obtain ⟨found, hfound, rfl⟩ := Option.map_eq_some_iff.mp himport
      exact clean_of_programPath hfound
    unfold KeepsPath
    split_ifs with hprogram
    · exact hclean file hfile hprogram
    · refine importFile_exportFile_eq_none_iff.mp ((filterMap_eq_filter_iff fun other hother hkeep ↦ ?_).mp heq
        file hfile (decide_eq_false hprogram))
      have hother' := of_decide_eq_true hkeep
      obtain ⟨hdots, hagain⟩ := hclean other hother hother'
      exact importFile_exportFile_of_isProgramFile hother' (programPath_of_keepsPath hother' hdots hagain)
  · intro hkeeps
    refine (filterMap_eq_filter_iff fun file hfile hkeep ↦ ?_).mpr fun file hfile hkeep ↦ ?_
    · have hprogram := of_decide_eq_true hkeep
      have hpath := hkeeps file hfile
      rw [KeepsPath, if_pos hprogram] at hpath
      exact importFile_exportFile_of_isProgramFile hprogram (programPath_of_keepsPath hprogram hpath.1 hpath.2)
    · have hpath := hkeeps file hfile
      rw [KeepsPath, if_neg (of_decide_eq_false hkeep)] at hpath
      exact importFile_exportFile_eq_none_iff.mpr hpath

/-! ### Where what is found lies -/

/-- What is found begins with the name of a directory `src` exactly if such a directory is seen. -/
theorem prefix_programPath_iff {path : Str} :
    (∀ found, programPath path = some found → "src/".toList <+: found) ↔
      ∀ rest, Sees path rest → SeesDirectory path := by
  constructor
  · intro hprefix rest hsees
    cases hfound : programPath path with
    | none => exact absurd hsees (programPath_eq_none_iff.mp hfound rest)
    | some found =>
      obtain ⟨first, hfirst, rfl⟩ := programPath_eq_some_iff.mp hfound
      obtain ⟨other, hother⟩ := hprefix _ hfound
      have heq : "src".toList ++ '/' :: other = "src".toList ++ first := hother
      exact ⟨other, List.append_cancel_left heq ▸ hfirst.1⟩
  · intro hdirectory found hfound
    obtain ⟨first, hfirst, rfl⟩ := programPath_eq_some_iff.mp hfound
    obtain ⟨other, hother⟩ := hdirectory first hfirst.1
    rw [hfirst.unique (seesFirst_of_directory hother)]
    exact List.prefix_append "src/".toList other

/-- Two paths below one directory `src`. -/
def BelowOneSrc (first second : Str) : Prop :=
  ∃ before rest other, first = before ++ ("src".toList ++ '/' :: rest) ∧
    second = before ++ ("src".toList ++ '/' :: other) ∧ (before = [] ∨ ∃ dir, before = dir ++ ['/'])

/-- Two files become one path exactly if their paths end alike from where `src` is seen first. -/
theorem exists_same_iff (first second : Str × Str) :
    (∃ file ∈ convertToPlaygroundCommon [first], ∃ other ∈ convertToPlaygroundCommon [second], file.1 = other.1) ↔
      ∃ rest, SeesFirst first.1 rest ∧ SeesFirst second.1 rest := by
  have hmem : ∀ {file output : Str × Str}, output ∈ convertToPlaygroundCommon [file] ↔
      ∃ rest, SeesFirst file.1 rest ∧ output = ("src".toList ++ rest, file.2) := by
    intro file output
    rw [convertToPlaygroundCommon, List.mem_filterMap]
    constructor
    · rintro ⟨source, hsource, himport⟩
      rw [List.mem_singleton.mp hsource] at himport
      obtain ⟨found, hfound, rfl⟩ := Option.map_eq_some_iff.mp himport
      obtain ⟨rest, hrest, rfl⟩ := programPath_eq_some_iff.mp hfound
      exact ⟨rest, hrest, rfl⟩
    · rintro ⟨rest, hrest, rfl⟩
      refine ⟨file, List.mem_singleton.mpr rfl, ?_⟩
      rw [importFile, programPath_eq_some_iff.mpr ⟨rest, hrest, rfl⟩, Option.map_some]
  constructor
  · rintro ⟨file, hfile, other, hother, heq⟩
    obtain ⟨rest, hrest, rfl⟩ := hmem.mp hfile
    obtain ⟨text, htext, rfl⟩ := hmem.mp hother
    have hsame : rest = text := List.append_cancel_left heq
    exact ⟨rest, hrest, hsame ▸ htext⟩
  · rintro ⟨rest, hfirst, hsecond⟩
    exact ⟨_, hmem.mpr ⟨rest, hfirst, rfl⟩, _, hmem.mpr ⟨rest, hsecond, rfl⟩, rfl⟩

/-- Exactly the files of the program are brought back if and only if all paths are kept. All that is found lies in
`src` if and only if a directory `src` is seen in each path in which `src` is seen. The files below one directory `src`
become different paths if and only if the paths of no two of them end alike from where `src` is seen first. -/
theorem conversions_iff (playground : PlaygroundState) (files : TupleFiles) :
    (convertToPlaygroundCommon (convertFromPlayground playground files) =
        files.filter (fun file ↦ IsProgramFile file.1) ↔ ∀ file ∈ files, KeepsPath file.1) ∧
      ((∀ file ∈ convertToPlaygroundCommon files, "src/".toList <+: file.1) ↔
        ∀ file ∈ files, ∀ rest, Sees file.1 rest → SeesDirectory file.1) ∧
      ((∀ first ∈ files, ∀ second ∈ files, first.1 ≠ second.1 → BelowOneSrc first.1 second.1 →
          ∀ file ∈ convertToPlaygroundCommon [first], ∀ other ∈ convertToPlaygroundCommon [second],
            file.1 ≠ other.1) ↔
        ∀ first ∈ files, ∀ second ∈ files, first.1 ≠ second.1 → BelowOneSrc first.1 second.1 →
          ∀ rest, SeesFirst first.1 rest → ¬ SeesFirst second.1 rest) := by
  refine ⟨eq_filter_iff playground files, ?_, ?_⟩
  · simp only [← prefix_programPath_iff]
    constructor
    · intro hprefix file hfile found hfound
      have himport : importFile file = some (found, file.2) := Option.map_eq_some_iff.mpr ⟨found, hfound, rfl⟩
      exact hprefix (found, file.2) (List.mem_filterMap.mpr ⟨file, hfile, himport⟩)
    · intro hprefix output houtput
      obtain ⟨file, hfile, himport⟩ := List.mem_filterMap.mp houtput
      obtain ⟨found, hfound, rfl⟩ := Option.map_eq_some_iff.mp himport
      exact hprefix file hfile found hfound
  · have hpair : ∀ first second : Str × Str,
        (∀ file ∈ convertToPlaygroundCommon [first], ∀ other ∈ convertToPlaygroundCommon [second],
          file.1 ≠ other.1) ↔ ∀ rest, SeesFirst first.1 rest → ¬ SeesFirst second.1 rest := by
      intro first second
      have hnot := not_congr (exists_same_iff first second)
      push Not at hnot
      exact hnot
    simp only [hpair]

/-- Files of a program in directories whose names end in `src`, and one beside `src`. -/
def nestedFiles : TupleFiles :=
  [("src/mysrc/a.cs".toList, "class A".toList), ("src/yoursrc/a.cs".toList, "class B".toList),
    ("srcs/a.cs".toList, "class C".toList)]

/-- A workspace without dependencies. -/
def emptyPlayground : PlaygroundState where
  currentWorkspaceName := none
  pk := none
  rpcEndpoint := "http://localhost:8899".toList
  commitment := "confirmed".toList
  getRustDependencies := fun _ ↦ "[dependencies]".toList
  getJSDependencies := fun _ ↦ []

/-- The directories are lost and two files become one path, and the file beside `src` is brought back too. -/
theorem not_conversions_nestedFiles :
    convertToPlaygroundCommon (convertFromPlayground emptyPlayground nestedFiles) ≠
        nestedFiles.filter (fun file ↦ IsProgramFile file.1) ∧
      ¬ (∀ file ∈ convertToPlaygroundCommon nestedFiles, "src/".toList <+: file.1) ∧
      ¬ (∀ first ∈ nestedFiles, ∀ second ∈ nestedFiles, first.1 ≠ second.1 → BelowOneSrc first.1 second.1 →
        ∀ file ∈ convertToPlaygroundCommon [first], ∀ other ∈ convertToPlaygroundCommon [second],
          file.1 ≠ other.1) := by
  refine ⟨?_, ?_, ?_⟩
  · rw [convertToPlaygroundCommon_convertFromPlayground]
    decide +kernel
  · decide +kernel
  · intro hdistinct
    have hbelow : BelowOneSrc "src/mysrc/a.cs".toList "src/yoursrc/a.cs".toList :=
      ⟨[], "mysrc/a.cs".toList, "yoursrc/a.cs".toList, rfl, rfl, Or.inl rfl⟩
    exact hdistinct _ List.mem_cons_self _ (List.mem_cons_of_mem _ List.mem_cons_self) (by decide) hbelow
      ("src/a.cs".toList, "class A".toList) (by decide +kernel) ("src/a.cs".toList, "class B".toList)
      (by decide +kernel) rfl

end Playground.Frameworks
