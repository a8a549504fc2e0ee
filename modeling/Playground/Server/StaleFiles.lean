import Playground.Server.ConcurrentBuilds

/-!
# Files of earlier builds

The directory of a program stays on the disk from one build to the next, and a build writes the files it
is given over what is there. Its sources are therefore those files laid over the sources that were there
when the request came (`Overlaid`), and they are exactly the files of the build, as they would be under a
UUID that has not been used, if and only if each source that was there is at the path of one of these
files (`buildsExactly_iff_nothingStale`). A file that is removed or renamed is compiled with the rest
(`not_buildsExactly_of_renamed`).

Builds are taken one after the other here. What they do to the manifest is the subject of
`Playground.Server.Restarts`.
-/

set_option autoImplicit false
set_option relaxedAutoImplicit false

namespace Playground.Server

open Library

section

variable {Idl : Type} {workingDir : Place} {environment : Environment Idl workingDir}

/-! ### Sources -/

/-- The source of a program below its `src` directory. -/
def sourceAt (workingDir : Place) (programName : Str) (disk : Disk) (rest : List Component) :
    Option Content :=
  disk (workingDir ++ programsDir :: programName :: "src".toList :: rest)

/-- What a list of files has below `src`: the content of the last file with the path. -/
def fileAt (files : List (Str × Str)) (rest : List Component) : Option Str :=
  (files.reverse.find? fun file ↦ itemNames file.1 = "src".toList :: rest).map Prod.snd

/-- The sources of a program are exactly some files. -/
def SourcesAre (workingDir : Place) (programName : Str) (files : List (Str × Str)) (disk : Disk) :
    Prop :=
  ∀ rest, sourceAt workingDir programName disk rest = (fileAt files rest).map .text

/-- Every source of a program is at the path of one of some files. -/
def NothingStale (workingDir : Place) (programName : Str) (files : List (Str × Str)) (disk : Disk) :
    Prop :=
  ∀ rest, sourceAt workingDir programName disk rest ≠ none → fileAt files rest ≠ none

/-- The sources of a program are some files, over what was there before. -/
def Overlaid (workingDir : Place) (programName : Str) (files : List (Str × Str))
    (before after : Disk) : Prop :=
  ∀ rest, sourceAt workingDir programName after rest =
    ((fileAt files rest).map .text).or (sourceAt workingDir programName before rest)

/-- Nothing lies over the sources that were there. -/
theorem Overlaid.refl (programName : Str) (disk : Disk) :
    Overlaid workingDir programName [] disk disk :=
  fun _ ↦ rfl

/-- Sources that stay are what they were. -/
theorem Overlaid.mono {programName : Str} {files : List (Str × Str)} {before middle after : Disk}
    (hmiddle : Overlaid workingDir programName files before middle)
    (hsame : SameSources workingDir programName middle after) :
    Overlaid workingDir programName files before after := by
  intro rest
  rw [← hmiddle rest]
  exact hsame _ ⟨rest, rfl⟩

/-- Writing one more file lays it over the others. -/
theorem Overlaid.snoc {isWordChar : Char → Bool} {programName : Str} {files : List (Str × Str)}
    {file : Str × Str} {before middle : Disk} (hname : IsComponent programName)
    (hvalid : isPathValid isWordChar file.1 = true)
    (hmiddle : Overlaid workingDir programName files before middle) :
    Overlaid workingDir programName (files ++ [file]) before
      (Function.update middle (locate workingDir (itemPath programName file.1))
        (some (.text file.2))) := by
  intro rest
  rw [locate_itemPath workingDir hname hvalid, fileAt, List.reverse_append, List.reverse_singleton,
    List.singleton_append, List.find?_cons]
  by_cases hnames : itemNames file.1 = "src".toList :: rest
  · rw [hnames, decide_eq_true rfl, sourceAt, Function.update_self]
    rfl
  · have hne : workingDir ++ programsDir :: programName :: "src".toList :: rest ≠
        workingDir ++ programsDir :: programName :: itemNames file.1 := by
      intro heq
      have htail := List.append_cancel_left heq
      simp only [List.cons.injEq, true_and] at htail
      exact hnames htail.symm
    rw [decide_eq_false hnames, sourceAt, Function.update_of_ne hne]
    exact hmiddle rest

/-- Files that lie over the sources are all of them exactly if none of the sources was stale. -/
theorem Overlaid.sourcesAre_iff {programName : Str} {files : List (Str × Str)} {before after : Disk}
    (hafter : Overlaid workingDir programName files before after) :
    SourcesAre workingDir programName files after ↔
      NothingStale workingDir programName files before := by
  refine forall_congr' fun rest ↦ ?_
  rw [hafter rest]
  cases hfile : fileAt files rest with
  | none => simp
  | some content => simp

/-! ### Builds one after the other -/

/-- The sources of a build, by the step it has come to: its files lie over what was there before, the
compiler has been run on them, and its response is made from the same sources. -/
def Build.Sourced (environment : Environment Idl workingDir) (before : Disk) (server : State Idl)
    (build : Build Idl) : Prop :=
  (∀ disk, build.compiled = some disk →
      Overlaid workingDir build.programName build.files before disk) ∧
    match build.phase with
    | .writing rest => ∃ done, build.files = done ++ rest ∧
        Overlaid workingDir build.programName done before server.disk
    | .compiling => Overlaid workingDir build.programName build.files before server.disk
    | .reading stderr => ∃ disk, build.compiled = some disk ∧ Compiles environment build disk stderr ∧
        SameSources workingDir build.programName disk server.disk
    | .answered answer => ∀ response, answer = .response response →
        ∃ disk, build.compiled = some disk ∧ MadeFrom environment build disk response

/-- A build compiles its files after a history of builds taken one after the other: the state when its
request comes, the build later on, and the disk on which the compiler has been run for it. -/
def CompiledAfter (environment : Environment Idl workingDir) (disk : Disk) (request : BuildRequest)
    (before : State Idl) (build : Build Idl) (compiled : Disk) : Prop :=
  ∃ past between future after,
    Run (Guarded (StepsTo (step environment)) oneAtATime) (start disk) past before ∧
    Run (Guarded (StepsTo (step environment)) oneAtATime) before [.build request] between ∧
    before.builds.length < between.builds.length ∧
    Run (Guarded (StepsTo (step environment)) oneAtATime) between future after ∧
    Event.restart ∉ future ∧ after.builds[before.builds.length]? = some build ∧
    build.compiled = some compiled

variable {old : Disk} {server after : State Idl} {index : ℕ} {build : Build Idl}

/-- The sources of a build are looked up on the disk alone. -/
theorem Build.Sourced.of_disk (hbuild : build.Sourced environment old server)
    (hdisk : after.disk = server.disk) : build.Sourced environment old after := by
  unfold Build.Sourced at hbuild ⊢
  rw [hdisk]
  exact hbuild

/-- The sources of a build that has answered are not looked up any more. -/
theorem Build.Sourced.of_answered (hbuild : build.Sourced environment old server)
    (hanswered : ¬ build.Running) : build.Sourced environment old after := by
  simp only [Build.Running, not_forall, not_not] at hanswered
  obtain ⟨answer, hphase⟩ := hanswered
  unfold Build.Sourced at hbuild ⊢
  simp only [hphase] at hbuild ⊢
  exact hbuild

/-- A build that answers without a response. -/
theorem Build.Sourced.no_response (hbuild : build.Sourced environment old server)
    {answer : Answer Idl} (hanswer : ∀ response, answer ≠ .response response) :
    Build.Sourced environment old after { build with phase := .answered answer } :=
  ⟨hbuild.1, fun response hresponse ↦ absurd hresponse (hanswer response)⟩

/-- The next step of a build keeps its sources: it writes a file over them, leaves them to the compiler,
or responds. -/
theorem sourced_advance (haccepted : build.Accepted environment)
    (hbuild : server.builds[index]? = some build)
    (hsourced : build.Sourced environment old server)
    (hstep : advance environment server index build = some after) :
    ∃ next, after.builds[index]? = some next ∧ next.files = build.files ∧
      next.Sourced environment old after := by
  have hname := haccepted.isComponent
  have hindex : index < server.builds.length := (List.getElem?_eq_some_iff.mp hbuild).1
  have hset : ∀ next, (server.builds.set index next)[index]? = some next := fun next ↦
    List.getElem?_set_self hindex
  obtain ⟨hcompiled, hphased⟩ := hsourced
  unfold advance at hstep
  cases hphase : build.phase with
  | writing files =>
    simp only [hphase] at hphased
    obtain ⟨done, hfiles, hdone⟩ := hphased
    cases files with
    | nil =>
      rw [List.append_nil] at hfiles
      simp only [hphase, Option.some.injEq] at hstep
      subst hstep
      unfold updateManifest
      split
      · exact ⟨_, hset _, rfl, hcompiled, by simp⟩
      · refine ⟨_, hset _, rfl, hcompiled, ?_⟩
        rw [← hfiles] at hdone
        exact hdone.mono (sameSources_update _ (not_isSourceOf_manifestPlace build.programName))
    | cons file rest =>
      simp only [hphase, Option.some.injEq] at hstep
      subst hstep
      have hvalid := haccepted.files file ((haccepted.remaining _ hphase).mem List.mem_cons_self)
      obtain ⟨parent, hparent, -⟩ := locate_parentPath_itemPath workingDir hname hvalid
      simp only [writeFile, hparent]
      refine ⟨_, hset _, rfl, hcompiled, done ++ [file], ?_, hdone.snoc hname hvalid⟩
      rw [List.append_assoc]
      exact hfiles
  | compiling =>
    simp only [hphase] at hphased
    simp only [hphase, Option.some.injEq] at hstep
    subst hstep
    have hnow : ∀ disk, some server.disk = some disk →
        Overlaid workingDir build.programName build.files old disk := by
      intro disk hdisk
      rw [← Option.some.inj hdisk]
      exact hphased
    unfold runCompiler
    split
    · exact ⟨_, hset _, rfl, hnow, by simp⟩
    · exact ⟨_, hset _, rfl, hnow, by simp⟩
    next stderr disk hrun =>
      dsimp only
      split
      · refine ⟨_, hset _, rfl, hnow, fun response hresponse ↦ ?_⟩
        obtain rfl := Answer.response.inj hresponse
        exact ⟨server.disk, rfl, stderr, ⟨disk, hrun⟩, Or.inl rfl⟩
      · exact ⟨_, hset _, rfl, hnow, server.disk, rfl, ⟨disk, hrun⟩,
          sameSources_cargoBuildSbf hname hrun⟩
  | reading stderr =>
    simp only [hphase] at hphased
    obtain ⟨disk, hdisk, hrun, hsources⟩ := hphased
    simp only [hphase, Option.some.injEq] at hstep
    subst hstep
    unfold readOutput
    split
    · exact ⟨_, hset _, rfl, hcompiled, by simp⟩
    next lib hlib =>
      refine ⟨_, hset _, rfl, hcompiled, fun response hresponse ↦ ?_⟩
      obtain rfl := Answer.response.inj hresponse
      exact ⟨disk, hdisk, stderr, hrun, Or.inr ⟨server.disk, lib, hsources, hlib, rfl⟩⟩
  | answered answer => simp [hphase] at hstep

/-- Every step of a server on which builds run one after the other keeps the sources of a build, until a
restart. -/
theorem sourced_step {event : Event} (hserver : InForce environment server)
    (hguard : oneAtATime server event) (hrestart : event ≠ .restart)
    (hstep : step environment server event = some after) (hbuild : server.builds[index]? = some build)
    (hsourced : build.Sourced environment old server) :
    ∃ next, after.builds[index]? = some next ∧ next.files = build.files ∧
      next.Sourced environment old after := by
  have hindex : index < server.builds.length := (List.getElem?_eq_some_iff.mp hbuild).1
  cases event with
  | build request =>
    unfold step at hstep
    cases hstart : startBuild environment server request with
    | error message =>
      simp only [hstart, Option.some.injEq] at hstep
      subst hstep
      exact ⟨build, hbuild, rfl, hsourced.of_disk rfl⟩
    | ok other =>
      simp only [hstart, Option.some.injEq] at hstep
      subst hstep
      exact ⟨build, (List.getElem?_append_left hindex).trans hbuild, rfl, hsourced.of_disk rfl⟩
  | advance position =>
    obtain ⟨other, hother, hstep⟩ := Option.bind_eq_some_iff.mp hstep
    by_cases hsame : position = index
    · subst hsame
      obtain rfl := Option.some.inj (hbuild.symm.trans hother)
      exact sourced_advance (hserver.accepted build (List.mem_of_getElem? hbuild)) hbuild hsourced
        hstep
    · obtain ⟨next, hbuilds, -⟩ := builds_advance hstep
      have hrunning : other.Running := fun answer hanswer ↦ by simp [advance, hanswer] at hstep
      have hanswered : ¬ build.Running := fun hrun ↦
        hsame (hserver.single position index other build hother hbuild hrunning hrun)
      refine ⟨build, ?_, rfl, hsourced.of_answered hanswered⟩
      rw [hbuilds, List.getElem?_set_ne hsame, hbuild]
  | fail position =>
    obtain ⟨other, hother, hstep⟩ := Option.bind_eq_some_iff.mp hstep
    obtain ⟨answer, manifest, rfl, hanswer, -⟩ := fail_cases hstep
    by_cases hsame : position = index
    · subst hsame
      obtain rfl := Option.some.inj (hbuild.symm.trans hother)
      refine ⟨_, List.getElem?_set_self hindex, rfl, hsourced.no_response ?_⟩
      rcases hanswer with rfl | rfl <;> simp
    · exact ⟨build, (List.getElem?_set_ne hsame).trans hbuild, rfl, hsourced.of_disk rfl⟩
  | deploy programName =>
    obtain rfl := Option.some.inj hstep
    exact ⟨build, hbuild, rfl, hsourced.of_disk rfl⟩
  | restart => exact absurd rfl hrestart

/-- A build keeps its sources along a run without a restart. -/
theorem sourced_of_run {future : List Event} (hserver : InForce environment server)
    (hrun : Run (Guarded (StepsTo (step environment)) oneAtATime) server future after)
    (hrestart : Event.restart ∉ future) (hbuild : server.builds[index]? = some build)
    (hsourced : build.Sourced environment old server) :
    ∃ next, after.builds[index]? = some next ∧ next.files = build.files ∧
      next.Sourced environment old after := by
  induction hrun with
  | nil => exact ⟨build, hbuild, rfl, hsourced⟩
  | snoc hrun hstep ih =>
    rw [List.mem_append, not_or, List.mem_singleton] at hrestart
    obtain ⟨next, hnext, hfiles, hright⟩ := ih hrestart.1
    obtain ⟨last, hlast, hfiles', hright'⟩ := sourced_step (inForce_of_run hserver hrun) hstep.1
      (Ne.symm hrestart.2) hstep.2 hnext hright
    exact ⟨last, hlast, hfiles'.trans hfiles, hright'⟩

/-- The files of a build lie over what was there when its request came, and what it responds is made from
them. -/
theorem CompiledAfter.overlaid {disk : Disk} (hdisk : Installed workingDir disk)
    {request : BuildRequest} {before : State Idl} {compiled : Disk}
    (hbuild : CompiledAfter environment disk request before build compiled) :
    build.files = request.files ∧
      Overlaid workingDir build.programName build.files before.disk compiled ∧
      ∀ response, build.phase = .answered (.response response) →
        MadeFrom environment build compiled response := by
  obtain ⟨past, between, future, after, hpast, hrequest, hadded, hfuture, hrestart, hget,
    hcompiled⟩ := hbuild
  have hbetween := inForce_of_run (inForce_start hdisk) (hpast.append hrequest)
  obtain ⟨started, hstarted, hfiles, hsourced⟩ : ∃ started,
      between.builds[before.builds.length]? = some started ∧ started.files = request.files ∧
        started.Sourced environment before.disk between := by
    have hstep : step environment before (.build request) = some between := hrequest.of_singleton.2
    unfold step at hstep
    cases hstart : startBuild environment before request with
    | error message =>
      simp only [hstart, Option.some.injEq] at hstep
      subst hstep
      exact absurd hadded (lt_irrefl _)
    | ok started =>
      simp only [hstart, Option.some.injEq] at hstep
      subst hstep
      obtain ⟨-, -, hfiles, hphase, hnone⟩ := startBuild_eq_ok hstart
      refine ⟨started, List.getElem?_concat_length, hfiles, by simp [hnone], ?_⟩
      rw [hphase]
      exact ⟨[], hfiles, Overlaid.refl _ _⟩
  obtain ⟨next, hnext, hsame, hright⟩ :=
    sourced_of_run hbetween hfuture hrestart hstarted hsourced
  obtain rfl := Option.some.inj (hget.symm.trans hnext)
  refine ⟨hsame.trans hfiles, hright.1 compiled hcompiled, fun response hresponse ↦ ?_⟩
  have hmade := hright.2
  rw [hresponse] at hmade
  obtain ⟨disk, hdisk, hfrom⟩ := hmade response rfl
  obtain rfl := Option.some.inj (hdisk.symm.trans hcompiled)
  exact hfrom

/-! ### Exactly the files of a build -/

/-- What a response is made of if the sources of its program are exactly some files: the output of the
compiler on them, and the IDL of the same sources. -/
def RespondsFrom (environment : Environment Idl workingDir) (build : Build Idl)
    (files : List (Str × Str)) (compiled : Disk) : Prop :=
  ∀ response, build.phase = .answered (.response response) →
    ∃ stderr, Compiles environment build compiled stderr ∧
      ((response.stderr, response.idl) = (stderr, none) ∨
        ∃ later lib, SourcesAre workingDir build.programName files later ∧
          readToString later (locate workingDir (libPath build.programName)) = some lib ∧
            (response.stderr, response.idl) = outputOf stderr lib
              (environment.parseIdl later (libPath build.programName) build.options))

/-- What a build should compile: its sources are exactly its files, when the compiler runs and when the
IDL is parsed, and the same as under any UUID that has no sources yet when its request comes. -/
structure BuildsExactly (environment : Environment Idl workingDir) (request : BuildRequest)
    (build : Build Idl) (compiled : Disk) : Prop where
  sources : SourcesAre workingDir build.programName request.files compiled
  responds : RespondsFrom environment build request.files compiled
  fresh : ∀ {disk : Disk} {other : BuildRequest} {before : State Idl} {build' : Build Idl}
    {compiled' : Disk}, Installed workingDir disk →
      CompiledAfter environment disk other before build' compiled' → other.files = request.files →
        (∀ rest, sourceAt workingDir build'.programName before.disk rest = none) →
          ∀ rest, sourceAt workingDir build.programName compiled rest =
            sourceAt workingDir build'.programName compiled' rest

/-- Assumes: a disk with the manifest of the repository, and builds taken one after the other. Whatever
has been built before, a build compiles exactly its files if and only if each source that its
program has when the request comes is at the path of one of them. -/
theorem buildsExactly_iff_nothingStale {disk : Disk} (hdisk : Installed workingDir disk)
    {request : BuildRequest} {before : State Idl} {build : Build Idl} {compiled : Disk}
    (hbuild : CompiledAfter environment disk request before build compiled) :
    BuildsExactly environment request build compiled ↔
      NothingStale workingDir build.programName request.files before.disk := by
  obtain ⟨hfiles, hoverlaid, hmade⟩ := hbuild.overlaid hdisk
  rw [hfiles] at hoverlaid
  rw [← hoverlaid.sourcesAre_iff]
  constructor
  · exact BuildsExactly.sources
  · intro hsources
    refine ⟨hsources, fun response hresponse ↦ ?_, ?_⟩
    · obtain ⟨stderr, hrun, hfrom⟩ := hmade response hresponse
      refine ⟨stderr, hrun, hfrom.imp_right ?_⟩
      rintro ⟨later, lib, hsame, hlib, heq⟩
      refine ⟨later, lib, fun rest ↦ ?_, hlib, heq⟩
      rw [← hsources rest]
      exact hsame _ ⟨rest, rfl⟩
    · intro disk' other before' build' compiled' hdisk' hbuild' hsame hfresh rest
      obtain ⟨hfiles', hoverlaid', -⟩ := hbuild'.overlaid hdisk'
      rw [hsources rest, hoverlaid' rest, hfresh rest, Option.or_none, hfiles', hsame]

end

/-! ### A file that is renamed -/

/-- A request for a program with the file `/src/main.rs` and no other. -/
def renamedRequest : BuildRequest where
  files := [("/src/main.rs".toList, "b".toList)]
  uuid := some sampleUuid
  flags := none

/-- Steps of builds are taken one after the other. -/
theorem run_advances {server after : State Unit} {steps : List ℕ}
    (hfold : (steps.map Event.advance).foldlM (step (copyingEnvironment [])) server = some after) :
    Run (Guarded (StepsTo (step (copyingEnvironment []))) oneAtATime) server
      (steps.map Event.advance) after := by
  refine ((Run.of_foldlM hfold).guarded_of_invariant trivial ?_ fun _ _ _ _ _ _ ↦ trivial).1
  intro state _ event hevent
  obtain ⟨index, -, rfl⟩ := List.mem_map.mp hevent
  trivial

/-- A request that comes while no build is running, and the steps of its build. -/
theorem compiledAfter_of_fold {disk compiled : Disk} {request : BuildRequest} {past : List Event}
    {before between after : State Unit} {build : Build Unit} {steps : List ℕ}
    (hpast : Run (Guarded (StepsTo (step (copyingEnvironment []))) oneAtATime) (start disk) past before)
    (hidle : ∀ build ∈ before.builds, ¬ build.Running)
    (hrequest : step (copyingEnvironment []) before (.build request) = some between)
    (hadded : before.builds.length < between.builds.length)
    (hfold : (steps.map Event.advance).foldlM (step (copyingEnvironment [])) between = some after)
    (hbuild : after.builds[before.builds.length]? = some build)
    (hcompiled : build.compiled = some compiled) :
    CompiledAfter (copyingEnvironment []) disk request before build compiled := by
  refine ⟨past, between, steps.map Event.advance, after, hpast, .single ⟨hidle, hrequest⟩, hadded,
    run_advances hfold, ?_, hbuild, hcompiled⟩
  simp

/-- A disk with nothing but the manifest has no sources. -/
theorem sourceAt_installedDisk (programName : Str) (rest : List Component) :
    sourceAt [] programName installedDisk rest = none := by
  have hne : [] ++ programsDir :: programName :: "src".toList :: rest ≠ manifestPlace [] :=
    fun heq ↦ not_isSourceOf_manifestPlace programName ⟨rest, heq.symm⟩
  rw [sourceAt, installedDisk, Function.update_of_ne hne]

/-- The reading of `lib.rs` leaves the disk. -/
theorem disk_readOutput {Idl : Type} {workingDir : Place} (environment : Environment Idl workingDir)
    (server : State Idl) (index : ℕ) (build : Build Idl) (stderr : Str) :
    (readOutput environment server index build stderr).disk = server.disk := by
  unfold readOutput
  split <;> rfl

/-- The server with the build of one program. -/
def oneBuild : State Unit :=
  (start installedDisk).addBuild (libraryBuild sampleUuid "a".toList)

/-- The request for one program starts its build. -/
theorem run_one_request :
    Run (Guarded (StepsTo (step (copyingEnvironment []))) oneAtATime) (start installedDisk)
      [.build (libraryRequest sampleUuid "a".toList)] oneBuild := by
  have hstart := startBuild_libraryRequest (start installedDisk) "a".toList
    (show isUuidText sampleUuid = true by decide +kernel)
  refine .single ⟨fun _ hother ↦ absurd hother List.not_mem_nil, ?_⟩
  simp only [StepsTo, step, hstart, oneBuild]

/-- A program is built with the file `/src/lib.rs`: its build responds, and the file is all that the
program has. -/
theorem run_first_build :
    ∃ (before : State Unit) (first : Build Unit),
      ([0, 0, 0, 0].map Event.advance).foldlM (step (copyingEnvironment [])) oneBuild = some before ∧
        before.builds = [first] ∧ first.programName = sampleUuid ∧ ¬ first.Running ∧
          SourcesAre [] sampleUuid [(librarySuffix, "a".toList)] before.disk := by
  have hreading : (([0, 0, 0].map Event.advance).foldlM (step (copyingEnvironment [])) oneBuild).bind
      (fun server ↦ server.builds[0]?.map fun build ↦ (build.programName, build.files, build.phase)) =
        some (sampleUuid, [(librarySuffix, "a".toList)], .reading []) := by
    decide +kernel
  have hresponds : (([0, 0, 0].map Event.advance ++ [Event.advance 0]).foldlM (step (copyingEnvironment []))
      oneBuild).map (fun server ↦ server.builds.map fun build ↦ (build.programName, build.phase)) =
        some [(sampleUuid, .answered (.response ⟨[], none, none⟩))] := by
    decide +kernel
  obtain ⟨middle, hfold, houtcome⟩ := Option.bind_eq_some_iff.mp hreading
  obtain ⟨build, hbuild, houtcome⟩ := Option.map_eq_some_iff.mp houtcome
  simp only [Prod.mk.injEq] at houtcome
  obtain ⟨hname, hfiles, hphase⟩ := houtcome
  obtain ⟨before, hall, hbuilds⟩ := Option.map_eq_some_iff.mp hresponds
  obtain ⟨first, hone, hfirst⟩ := List.map_eq_singleton_iff.mp hbuilds
  obtain ⟨hfirstName, hanswered⟩ := Prod.mk.inj hfirst
  refine ⟨before, first, hall, hone, hfirstName, fun hrunning ↦ hrunning _ hanswered, ?_⟩
  -- the last step reads `lib.rs` and leaves the disk that the step before it has come to
  have hdisk : before.disk = middle.disk := by
    rw [List.foldlM_append, hfold] at hall
    have hread : some (readOutput (copyingEnvironment []) middle 0 build []) = some before := by
      simpa [step, hbuild, advance, hphase] using hall
    rw [← Option.some.inj hread, disk_readOutput]
  have hserver := inForce_of_run (inForce_start installed_installedDisk) run_one_request
  obtain ⟨next, hnext, -, hsourced⟩ := sourced_of_run hserver (run_advances hfold) (by simp)
    (show oneBuild.builds[0]? = some (libraryBuild sampleUuid "a".toList) from rfl)
    ⟨by simp [libraryBuild], [], rfl, Overlaid.refl _ installedDisk⟩
  obtain rfl := Option.some.inj (hbuild.symm.trans hnext)
  obtain ⟨hcompiled, hsources⟩ := hsourced
  rw [hphase] at hsources
  obtain ⟨disk, hsome, -, hsame⟩ := hsources
  have hoverlaid := (hcompiled disk hsome).mono hsame
  rw [hname, hfiles, ← hdisk] at hoverlaid
  exact hoverlaid.sourcesAre_iff.mpr fun rest hrest ↦ absurd (sourceAt_installedDisk _ rest) hrest

/-- The same program is built again, and comes to the compiler. -/
theorem compiledAfter_first_build {request : BuildRequest} {second : Build Unit}
    (hrequest : ∀ server, step (copyingEnvironment []) server (.build request) =
      some (server.addBuild second))
    (hsteps : ((([0, 0, 0, 0].map Event.advance).foldlM (step (copyingEnvironment [])) oneBuild).bind
      fun server ↦ (([1, 1, 1].map Event.advance).foldlM (step (copyingEnvironment []))
        (server.addBuild second)).bind fun server ↦ server.builds[1]?.map fun build ↦
          (build.programName, build.compiled.isSome)) = some (sampleUuid, true)) :
    ∃ (before : State Unit) (first build : Build Unit) (compiled : Disk),
      before.builds = [first] ∧ first.programName = sampleUuid ∧ build.programName = sampleUuid ∧
        CompiledAfter (copyingEnvironment []) installedDisk request before build compiled ∧
          SourcesAre [] sampleUuid [(librarySuffix, "a".toList)] before.disk := by
  obtain ⟨before, first, hfirst, hone, hname, hanswered, hsources⟩ := run_first_build
  rw [hfirst, Option.bind_some] at hsteps
  obtain ⟨after, hfold, hbuild⟩ := Option.bind_eq_some_iff.mp hsteps
  obtain ⟨build, hbuild, houtcome⟩ := Option.map_eq_some_iff.mp hbuild
  obtain ⟨hagain, hsome⟩ := Prod.mk.inj houtcome
  obtain ⟨compiled, hcompiled⟩ := Option.isSome_iff_exists.mp hsome
  refine ⟨before, first, build, compiled, hone, hname, hagain,
    compiledAfter_of_fold (run_one_request.append (run_advances hfirst)) ?_ (hrequest before)
      (by simp [State.addBuild]) hfold (by rw [hone]; exact hbuild) hcompiled, hsources⟩
  intro other hother
  rw [hone, List.mem_singleton] at hother
  rw [hother]
  exact hanswered

/-- A program that is built again, with another content of its file, is compiled from exactly that
file. -/
theorem buildsExactly_iff_nothingStale_second_build :
    ∃ (before : State Unit) (first build : Build Unit) (compiled : Disk), before.builds = [first] ∧
      first.programName = build.programName ∧
        CompiledAfter (copyingEnvironment []) installedDisk (libraryRequest sampleUuid "b".toList)
          before build compiled ∧
        BuildsExactly (copyingEnvironment []) (libraryRequest sampleUuid "b".toList) build compiled := by
  obtain ⟨before, first, build, compiled, hone, hname, hagain, hbuild, hsources⟩ :=
    @compiledAfter_first_build (libraryRequest sampleUuid "b".toList)
      (libraryBuild sampleUuid "b".toList)
      (fun server ↦ by
        simp only [step, startBuild_libraryRequest _ _
          (show isUuidText sampleUuid = true by decide +kernel)])
      (by decide +kernel)
  refine ⟨before, first, build, compiled, hone, hname.trans hagain.symm, hbuild,
    (buildsExactly_iff_nothingStale installed_installedDisk hbuild).mpr fun rest hrest ↦ ?_⟩
  rw [hagain, hsources rest] at hrest
  contrapose! hrest
  simpa [libraryRequest, fileAt] using hrest

/-- A program is built with the file `/src/lib.rs`, and then with `/src/main.rs` in its place: the
compiler finds both. -/
theorem not_buildsExactly_of_renamed :
    ∃ before build compiled, CompiledAfter (copyingEnvironment []) installedDisk renamedRequest before
        build compiled ∧
      ¬ BuildsExactly (copyingEnvironment []) renamedRequest build compiled := by
  obtain ⟨before, first, build, compiled, hone, hname, hagain, hbuild, hsources⟩ :=
    @compiledAfter_first_build renamedRequest
      ⟨sampleUuid, false, renamedRequest.files, buildOptions none, .writing renamedRequest.files, none⟩
      (fun server ↦ step_build none (by decide +kernel) (by decide +kernel)) (by decide +kernel)
  refine ⟨before, build, compiled, hbuild, fun hexactly ↦ ?_⟩
  obtain ⟨hfiles, hoverlaid, -⟩ := hbuild.overlaid installed_installedDisk
  have hmissing := (hoverlaid ["lib.rs".toList]).symm.trans (hfiles ▸ hexactly.sources ["lib.rs".toList])
  rw [hfiles, hagain, hsources ["lib.rs".toList]] at hmissing
  exact absurd hmissing (by decide +kernel)

end Playground.Server
