import Playground.Server.Program

/-!
# Where the paths of the server lead

A text of a UUID is a component: it has neither dots nor slashes. So the path of a program leads to a
directory directly below `programs`, and the paths of two programs to different ones. A file whose
path `build` accepts lies below the `src` directory of its program: the path begins with `/src/`, and
without its leading slash it is relative and does not go up. That `..` is not contained in it is
checked apart; what the class `\w` of the regular expression contains makes no difference.

`Build.Accepted` is what the route and the checks have established of a build, and every build of a
reachable server has it.
-/

set_option autoImplicit false
set_option relaxedAutoImplicit false

namespace Playground.Server

open Library

/-! ### UUIDs -/

/-- The characters of the text of a UUID. -/
def isUuidChar (char : Char) : Bool :=
  isHexDigit char || ['-', '\x7b', '\x7d', ':', 'u', 'r', 'n', 'i'].contains char

/-- The characters of the form with hyphens. -/
theorem isUuidChar_of_isHyphenated {text : Str} (htext : isHyphenated text = true) :
    ∀ char ∈ text, isUuidChar char = true := by
  intro char hchar
  obtain ⟨index, hindex, hget⟩ := List.getElem_of_mem hchar
  simp only [isHyphenated, Bool.and_eq_true, List.all_eq_true] at htext
  have hmem : (char, index) ∈ text.zipIdx :=
    List.mem_zipIdx_iff_getElem?.mpr (by rw [List.getElem?_eq_getElem hindex, hget])
  have hform := htext.2 _ hmem
  unfold isUuidChar
  by_cases hhyphen : [8, 13, 18, 23].contains index = true
  · simp only [hhyphen, if_true, beq_iff_eq] at hform
    simp [hform]
  · simp only [hhyphen, if_false, Bool.false_eq_true] at hform
    simp [hform]

/-- The form with hyphens has 36 characters. -/
theorem length_of_isHyphenated {text : Str} (htext : isHyphenated text = true) :
    text.length = 36 := by
  simp only [isHyphenated, Bool.and_eq_true, decide_eq_true_eq] at htext
  exact htext.1

/-- The characters of the text of a UUID, of which there are some. -/
theorem uuidChars_of_isUuidText {text : Str} (htext : isUuidText text = true) :
    32 ≤ text.length ∧ ∀ char ∈ text, isUuidChar char = true := by
  simp only [isUuidText, Bool.or_eq_true, Bool.and_eq_true, decide_eq_true_eq] at htext
  rcases htext with ((hsimple | hhyphens) | ⟨⟨hopen, hclose⟩, hinside⟩) | ⟨hurn, hinside⟩
  · simp only [isSimple, Bool.and_eq_true, decide_eq_true_eq, List.all_eq_true] at hsimple
    refine ⟨hsimple.1.ge, fun char hchar ↦ ?_⟩
    simp [isUuidChar, hsimple.2 char hchar]
  · exact ⟨by rw [length_of_isHyphenated hhyphens]; decide, isUuidChar_of_isHyphenated hhyphens⟩
  · have hlength := length_of_isHyphenated hinside
    have hchars := isUuidChar_of_isHyphenated hinside
    cases text with
    | nil => simp at hopen
    | cons first rest =>
      simp only [List.head?_cons, Option.some.injEq, List.tail_cons] at hopen hlength hchars
      have hne : rest ≠ [] := by
        rintro rfl
        simp at hlength
      have hlast : rest.getLast hne = '\x7d' := by
        rw [List.getLast?_cons_of_ne_nil hne, List.getLast?_eq_some_getLast hne] at hclose
        exact Option.some.inj hclose
      rw [List.length_dropLast] at hlength
      refine ⟨by simp only [List.length_cons]; omega, fun char hchar ↦ ?_⟩
      rcases List.mem_cons.mp hchar with rfl | hmem
      · rw [hopen]
        decide
      · rw [← List.dropLast_append_getLast hne, List.mem_append, List.mem_singleton] at hmem
        rcases hmem with hmem | rfl
        · exact hchars char hmem
        · rw [hlast]
          decide
  · have hlength := length_of_isHyphenated hinside
    have hchars := isUuidChar_of_isHyphenated hinside
    obtain ⟨rest, rfl⟩ := hurn
    have hdrop : ("urn:uuid:".toList ++ rest).drop 9 = rest := rfl
    rw [hdrop] at hlength hchars
    refine ⟨by rw [List.length_append, hlength]; decide, fun char hchar ↦ ?_⟩
    rcases List.mem_append.mp hchar with hmem | hmem
    · have hprefix : "urn:uuid:".toList.all isUuidChar = true := by decide
      exact List.all_eq_true.mp hprefix char hmem
    · exact hchars char hmem

/-- A character that no UUID has does not occur in the text of one. -/
theorem notMem_of_isUuidText {text : Str} (htext : isUuidText text = true) {char : Char}
    (hchar : isUuidChar char = false) : char ∉ text := by
  intro hmem
  have hother := (uuidChars_of_isUuidText htext).2 char hmem
  rw [hchar] at hother
  contradiction

/-- The text of a UUID is a component. -/
theorem isComponent_of_isUuidText {text : Str} (htext : isUuidText text = true) :
    IsComponent text := by
  have hlength := (uuidChars_of_isUuidText htext).1
  have hdot : '.' ∉ text := notMem_of_isUuidText htext (by decide)
  have hslash : '/' ∉ text := notMem_of_isUuidText htext (by decide)
  refine ⟨?_, ?_, ?_, hslash⟩ <;> rintro rfl
  · simp at hlength
  · simp at hdot
  · simp at hdot

/-! ### The paths of a program -/

/-- `programs` leads below the working directory. -/
theorem locate_programsDir (workingDir : Place) :
    locate workingDir programsDir = workingDir ++ [programsDir] := by
  have hnames : namesOf programsDir = [programsDir] := by decide
  have horigin : origin workingDir programsDir = workingDir := rfl
  rw [locate_of_descends workingDir (by decide), hnames, horigin]

/-- The path of a program leads directly below `programs`. -/
theorem locate_programPath (workingDir : Place) {programName : Str}
    (hname : IsComponent programName) :
    locate workingDir (programPath programName) = workingDir ++ [programsDir, programName] := by
  rw [programPath, locate_joinPath_component workingDir _ hname, locate_programsDir,
    List.append_assoc]
  rfl

/-- Where the manifest lies. -/
theorem manifestPlace_eq (workingDir : Place) :
    manifestPlace workingDir = workingDir ++ [programsDir, "Cargo.toml".toList] := by
  rw [manifestPlace, manifestPath, locate_joinPath_component workingDir _ (by decide),
    locate_programsDir, List.append_assoc]
  rfl

/-- Where `lib.rs` lies. -/
theorem locate_libPath (workingDir : Place) {programName : Str} (hname : IsComponent programName) :
    locate workingDir (libPath programName) =
      workingDir ++ [programsDir, programName, "src".toList, "lib.rs".toList] := by
  rw [libPath, locate_joinPath_component workingDir _ (by decide),
    locate_joinPath_component workingDir _ (by decide), locate_programPath workingDir hname]
  simp

/-- Where the binary lies. -/
theorem locate_binaryPath (workingDir : Place) {programName : Str}
    (hname : IsComponent programName) :
    locate workingDir (binaryPath programName) =
      workingDir ++ [programsDir, programName, "solpg.so".toList] := by
  rw [binaryPath, locate_joinPath_component workingDir _ (by decide),
    locate_programPath workingDir hname]
  simp

/-! ### The paths of files -/

/-- The components of a file's path below its program. -/
def itemNames (path : Str) : List Component :=
  namesOf (path.dropWhile (· == '/'))

/-- A path that is accepted begins with `/src/` and does not go up. -/
theorem exists_tail_of_isPathValid {isWordChar : Char → Bool} {path : Str}
    (hvalid : isPathValid isWordChar path = true) :
    ∃ tail, path.dropWhile (· == '/') = "src".toList ++ '/' :: tail ∧ Descends tail := by
  simp only [isPathValid, isAllowed, Bool.and_eq_true, Bool.not_eq_true', decide_eq_true_eq,
    decide_eq_false_iff_not] at hvalid
  obtain ⟨⟨⟨⟨⟨⟨⟨tail, rfl⟩, -⟩, -⟩, -⟩, -⟩, hdots⟩, -⟩ := hvalid
  refine ⟨tail, rfl, descends_of_not_infix fun hoccurs ↦ hdots ?_⟩
  exact hoccurs.trans (List.suffix_append _ _).isInfix

/-- The parts of the path of a file that is accepted. -/
theorem splitOn_itemPath {isWordChar : Char → Bool} {programName path : Str}
    (hname : IsComponent programName) (hvalid : isPathValid isWordChar path = true) :
    ∃ tail, Descends tail ∧ itemNames path = "src".toList :: namesOf tail ∧
      (itemPath programName path).splitOn '/' =
        programsDir :: programName :: "src".toList :: tail.splitOn '/' := by
  obtain ⟨tail, htail, hdown⟩ := exists_tail_of_isPathValid hvalid
  have hsplit : ("src".toList ++ '/' :: tail).splitOn '/' = "src".toList :: tail.splitOn '/' := by
    rw [List.splitOn_append_cons_self, List.splitOn_eq_singleton (by decide)]
    rfl
  have hprogram : (programPath programName).splitOn '/' = [programsDir, programName] := by
    have hdir : programsDir.splitOn '/' = [programsDir] := by decide
    rw [programPath, splitOn_joinPath_component (by decide) (by decide) hname, hdir]
    rfl
  have hne : programPath programName ≠ [] := by
    intro hempty
    rw [hempty] at hprogram
    simp at hprogram
  refine ⟨tail, hdown, ?_, ?_⟩
  · have hkept : isRedundant "src".toList = false := by decide
    rw [itemNames, htail, namesOf, hsplit, List.filter_cons, hkept]
    rfl
  · rw [itemPath, htail, splitOn_joinPath hne (getLast?_joinPath_component hname) (by simp),
      hprogram, hsplit]
    rfl

/-- A file that is accepted lies below its program, in `src`. -/
theorem locate_itemPath (workingDir : Place) {isWordChar : Char → Bool} {programName path : Str}
    (hname : IsComponent programName) (hvalid : isPathValid isWordChar path = true) :
    locate workingDir (itemPath programName path) =
      workingDir ++ programsDir :: programName :: itemNames path := by
  obtain ⟨tail, htail, -⟩ := exists_tail_of_isPathValid hvalid
  have hdown : Descends (path.dropWhile (· == '/')) := by
    apply descends_of_not_infix
    simp only [isPathValid, Bool.and_eq_true, Bool.not_eq_true', decide_eq_false_iff_not] at hvalid
    intro hoccurs
    exact hvalid.1.2 (hoccurs.trans (List.dropWhile_suffix _).isInfix)
  have hrelative : (path.dropWhile (· == '/')).head? ≠ some '/' := by
    rw [htail]
    simp
  rw [itemPath, locate_joinPath workingDir _ hrelative, foldl_followStep_of_notMem hdown,
    locate_programPath workingDir hname, List.append_assoc]
  rfl

/-- The names of a file that is accepted begin with `src`. -/
theorem itemNames_of_isPathValid {isWordChar : Char → Bool} {path : Str}
    (hvalid : isPathValid isWordChar path = true) :
    ∃ rest, itemNames path = "src".toList :: rest := by
  obtain ⟨tail, -, hnames, -⟩ :=
    splitOn_itemPath (show IsComponent programsDir by decide) hvalid
  exact ⟨_, hnames⟩

/-- The directory of a file that is accepted lies below its program or is its directory. -/
theorem locate_parentPath_itemPath (workingDir : Place) {isWordChar : Char → Bool}
    {programName path : Str} (hname : IsComponent programName)
    (hvalid : isPathValid isWordChar path = true) :
    ∃ parent, parentPath (itemPath programName path) = some parent ∧
      locate workingDir parent =
        workingDir ++ programsDir :: programName :: (itemNames path).dropLast := by
  obtain ⟨tail, hdown, hnames, hsplit⟩ := splitOn_itemPath hname hvalid
  have hdescends : Descends (itemPath programName path) := by
    rw [Descends, hsplit]
    intro hmem
    rcases List.mem_cons.mp hmem with heq | hmem
    · exact absurd heq (by decide)
    rcases List.mem_cons.mp hmem with heq | hmem
    · exact hname.2.2.1 heq.symm
    rcases List.mem_cons.mp hmem with heq | hmem
    · exact absurd heq (by decide)
    · exact hdown hmem
  have hsome : ∃ parent, parentPath (itemPath programName path) = some parent := by
    have hfirst : programsDir ≠ [] := by decide
    unfold parentPath
    rw [hsplit]
    simp only [hfirst, if_false, and_false]
    split
    · exact ⟨_, rfl⟩
    · exact ⟨_, rfl⟩
  obtain ⟨parent, hparent⟩ := hsome
  refine ⟨parent, hparent, ?_⟩
  have horigin : origin workingDir (itemPath programName path) ++
      namesOf (itemPath programName path) =
        workingDir ++ programsDir :: programName :: itemNames path := by
    rw [← locate_of_descends workingDir hdescends, locate_itemPath workingDir hname hvalid]
  have hne : namesOf (itemPath programName path) ≠ [] := by
    have hkept : isRedundant programsDir = false := by decide
    rw [namesOf, hsplit, List.filter_cons, hkept]
    simp
  have hitem : itemNames path ≠ [] := by
    rw [hnames]
    exact List.cons_ne_nil _ _
  rw [locate_parentPath workingDir hdescends hparent, ← List.dropLast_append_of_ne_nil hne,
    horigin, List.dropLast_append_of_ne_nil (List.cons_ne_nil _ _)]
  simp [List.dropLast_cons_of_ne_nil, hitem]

/-! ### Accepted builds -/

section

variable {Idl : Type} {workingDir : Place} {environment : Environment Idl workingDir}

/-- What the route and the checks have established of a build. -/
structure Build.Accepted (environment : Environment Idl workingDir) (build : Build Idl) : Prop where
  uuid : isUuidText build.programName = true
  files : ∀ file ∈ build.files, isPathValid environment.isWordChar file.1 = true
  remaining : ∀ rest, build.phase = .writing rest → rest <:+ build.files

/-- What a step leaves of a build. -/
structure Build.Next (before after : Build Idl) : Prop where
  programName : after.programName = before.programName
  files : after.files = before.files
  remaining : ∀ rest, after.phase = .writing rest → ∃ file, before.phase = .writing (file :: rest)

/-- The program of an accepted build is a component. -/
theorem Build.Accepted.isComponent {build : Build Idl} (hbuild : build.Accepted environment) :
    IsComponent build.programName :=
  isComponent_of_isUuidText hbuild.uuid

/-- A step of a build keeps what has been established of it. -/
theorem Build.Accepted.next {before after : Build Idl} (hbefore : before.Accepted environment)
    (hnext : before.Next after) : after.Accepted environment where
  uuid := by
    rw [hnext.programName]
    exact hbefore.uuid
  files := by
    rw [hnext.files]
    exact hbefore.files
  remaining := by
    intro rest hphase
    obtain ⟨file, hwriting⟩ := hnext.remaining rest hphase
    rw [hnext.files]
    exact (List.suffix_cons file rest).trans (hbefore.remaining _ hwriting)

/-- A build that answers. -/
theorem Build.next_answered (build : Build Idl) (answer : Answer Idl) (compiled : Option Disk) :
    build.Next { build with phase := .answered answer, compiled := compiled } where
  programName := rfl
  files := rfl
  remaining := by simp

/-- The paths of files that pass the checks are valid. -/
theorem valid_of_checkFiles {files : List (Str × Str)} {checked : Unit}
    (hfiles : checkFiles environment files = .ok checked) :
    ∀ file ∈ files, isPathValid environment.isWordChar file.1 = true := by
  unfold checkFiles at hfiles
  by_cases hmany : maxFileAmount < files.length
  · rw [if_pos hmany] at hfiles
    contradiction
  · rw [if_neg hmany] at hfiles
    by_cases hall : (files.all fun file ↦ isPathValid environment.isWordChar file.1) = true
    · exact List.all_eq_true.mp hall
    · rw [if_neg hall] at hfiles
      contradiction

/-- The UUID of a request that is not refused is one. -/
theorem isUuidText_of_requestUuid {server : State Idl} {request : BuildRequest} {uuid : Str}
    {respond : Bool} (hrequest : requestUuid environment server request = .ok (uuid, respond)) :
    isUuidText uuid = true := by
  unfold requestUuid at hrequest
  cases hown : request.uuid with
  | none =>
    simp only [hown, Except.ok.injEq, Prod.mk.injEq] at hrequest
    rw [← hrequest.1, isUuidText, environment.isHyphenated_newV4]
    simp
  | some own =>
    simp only [hown] at hrequest
    by_cases hparse : environment.tryParse own = true
    · simp only [hparse, if_true, Except.ok.injEq, Prod.mk.injEq] at hrequest
      rw [← hrequest.1]
      exact environment.isUuidText_of_tryParse own hparse
    · simp [hparse] at hrequest

/-- What a request that is not refused starts. -/
theorem startBuild_eq_ok {server : State Idl} {request : BuildRequest} {build : Build Idl}
    (hstart : startBuild environment server request = .ok build) :
    (∃ respond, requestUuid environment server request = .ok (build.programName, respond)) ∧
      checkFiles environment request.files = .ok () ∧ build.files = request.files ∧
      build.phase = .writing request.files ∧ build.compiled = none := by
  unfold startBuild at hstart
  cases hrequest : requestUuid environment server request with
  | error message =>
    rw [hrequest] at hstart
    contradiction
  | ok pair =>
    cases hfiles : checkFiles environment request.files with
    | error message =>
      rw [hrequest] at hstart
      simp [bind, Except.bind, hfiles] at hstart
    | ok checked =>
      rw [hrequest] at hstart
      simp only [bind, Except.bind, hfiles, pure, Except.pure, Except.ok.injEq] at hstart
      rw [← hstart]
      exact ⟨⟨pair.2, rfl⟩, rfl, rfl, rfl, rfl⟩

/-- A build that a request starts has been accepted. -/
theorem accepted_of_startBuild {server : State Idl} {request : BuildRequest} {build : Build Idl}
    (hstart : startBuild environment server request = .ok build) : build.Accepted environment := by
  obtain ⟨⟨respond, hrequest⟩, hchecked, hfiles, hphase, -⟩ := startBuild_eq_ok hstart
  refine ⟨isUuidText_of_requestUuid hrequest, ?_, fun rest hrest ↦ ?_⟩
  · rw [hfiles]
    exact valid_of_checkFiles hchecked
  · rw [hphase] at hrest
    rw [hfiles, ← Phase.writing.inj hrest]

/-- A request with a UUID and valid files is not refused. -/
theorem startBuild_of_valid {server : State Idl} {files : List (Str × Str)} {uuid : Str}
    (flags : Option BuildFlags) (huuid : environment.tryParse uuid = true)
    (hfiles : checkFiles environment files = .ok ()) :
    startBuild environment server ⟨files, some uuid, flags⟩ =
      .ok ⟨uuid, false, files, buildOptions flags, .writing files, none⟩ := by
  have hrequest : requestUuid environment server ⟨files, some uuid, flags⟩ = .ok (uuid, false) := by
    simp only [requestUuid, huuid, if_true]
  simp only [startBuild, hrequest, hfiles, bind, Except.bind, pure, Except.pure]

/-- A request with a UUID and valid files starts a build. -/
theorem step_build {server : State Idl} {files : List (Str × Str)} {uuid : Str}
    (flags : Option BuildFlags) (huuid : environment.tryParse uuid = true)
    (hfiles : checkFiles environment files = .ok ()) :
    step environment server (.build ⟨files, some uuid, flags⟩) =
      some (server.addBuild
        ⟨uuid, false, files, buildOptions flags, .writing files, none⟩) := by
  simp only [step, startBuild_of_valid flags huuid hfiles]

/-- What the next step of a build leaves of the builds. -/
theorem builds_advance {server after : State Idl} {index : ℕ} {build : Build Idl}
    (hstep : advance environment server index build = some after) :
    ∃ next, after.builds = server.builds.set index next ∧ build.Next next := by
  unfold advance at hstep
  cases hphase : build.phase with
  | writing files =>
    cases files with
    | nil =>
      simp only [hphase, Option.some.injEq] at hstep
      subst hstep
      unfold updateManifest
      cases server.foundManifest workingDir with
      | none => exact ⟨_, rfl, build.next_answered _ _⟩
      | some manifest => exact ⟨_, rfl, rfl, rfl, by simp⟩
    | cons file rest =>
      simp only [hphase, Option.some.injEq] at hstep
      subst hstep
      unfold writeFile
      dsimp only
      split
      · exact ⟨_, rfl, build.next_answered _ _⟩
      · refine ⟨_, rfl, rfl, rfl, fun other hother ↦ ?_⟩
        obtain rfl := Phase.writing.inj hother
        exact ⟨file, hphase⟩
  | compiling =>
    simp only [hphase, Option.some.injEq] at hstep
    subst hstep
    unfold runCompiler
    split
    · exact ⟨_, rfl, build.next_answered _ _⟩
    · exact ⟨_, rfl, build.next_answered _ _⟩
    · dsimp only
      split
      · exact ⟨_, rfl, build.next_answered _ _⟩
      · exact ⟨_, rfl, rfl, rfl, by simp⟩
  | reading stderr =>
    simp only [hphase, Option.some.injEq] at hstep
    subst hstep
    unfold readOutput
    split
    · exact ⟨_, rfl, build.next_answered _ _⟩
    · exact ⟨_, rfl, build.next_answered _ _⟩
  | answered answer => simp [hphase] at hstep

/-- What a failing step of a build leaves: the build answers with an error, and at most the manifest
has been found. -/
theorem fail_cases {server after : State Idl} {index : ℕ} {build : Build Idl}
    (hstep : fail workingDir server index build = some after) :
    ∃ answer manifest, after = { server with manifest := manifest }.answer index build answer ∧
      (answer = .ioError ∨ answer = .panicked) ∧
      (manifest = server.manifest ∨ manifest = server.foundManifest workingDir) := by
  unfold fail at hstep
  cases hphase : build.phase with
  | writing files =>
    cases files with
    | nil =>
      simp only [hphase, Option.some.injEq] at hstep
      subst hstep
      cases hfound : server.foundManifest workingDir with
      | none => exact ⟨.panicked, server.manifest, rfl, Or.inr rfl, Or.inl rfl⟩
      | some manifest => exact ⟨.ioError, some manifest, rfl, Or.inl rfl, Or.inr rfl⟩
    | cons file rest =>
      simp only [hphase, Option.some.injEq] at hstep
      exact ⟨.ioError, server.manifest, hstep.symm, Or.inl rfl, Or.inl rfl⟩
  | compiling =>
    simp only [hphase, Option.some.injEq] at hstep
    exact ⟨.ioError, server.manifest, hstep.symm, Or.inl rfl, Or.inl rfl⟩
  | reading stderr =>
    simp only [hphase, Option.some.injEq] at hstep
    exact ⟨.ioError, server.manifest, hstep.symm, Or.inl rfl, Or.inl rfl⟩
  | answered answer => simp [hphase] at hstep

/-- Every step keeps that the builds have been accepted. -/
theorem accepted_step {server after : State Idl} {event : Event}
    (hserver : ∀ build ∈ server.builds, build.Accepted environment)
    (hstep : step environment server event = some after) :
    ∀ build ∈ after.builds, build.Accepted environment := by
  have hset : ∀ index build next, server.builds[index]? = some build → build.Next next →
      ∀ other ∈ server.builds.set index next, other.Accepted environment := by
    intro index build next hbuild hnext other hother
    rcases List.mem_or_eq_of_mem_set hother with hmem | rfl
    · exact hserver other hmem
    · exact (hserver build (List.mem_of_getElem? hbuild)).next hnext
  cases event with
  | build request =>
    unfold step at hstep
    cases hstart : startBuild environment server request with
    | error message =>
      simp only [hstart, Option.some.injEq] at hstep
      subst hstep
      exact hserver
    | ok build =>
      simp only [hstart, Option.some.injEq] at hstep
      subst hstep
      intro other hother
      rcases List.mem_append.mp hother with hmem | hmem
      · exact hserver other hmem
      · rw [List.mem_singleton.mp hmem]
        exact accepted_of_startBuild hstart
  | advance index =>
    obtain ⟨build, hbuild, hstep⟩ := Option.bind_eq_some_iff.mp hstep
    obtain ⟨next, hbuilds, hnext⟩ := builds_advance hstep
    rw [hbuilds]
    exact hset index build next hbuild hnext
  | fail index =>
    obtain ⟨build, hbuild, hstep⟩ := Option.bind_eq_some_iff.mp hstep
    obtain ⟨answer, manifest, rfl, -, -⟩ := fail_cases hstep
    exact hset index build _ hbuild (build.next_answered answer _)
  | deploy programName =>
    obtain rfl := Option.some.inj hstep
    exact hserver
  | restart =>
    obtain rfl := Option.some.inj hstep
    simp

end

end Playground.Server
