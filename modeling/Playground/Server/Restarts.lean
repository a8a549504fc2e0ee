import Playground.Server.Manifest

/-!
# Builds across restarts

The library's path that is in force when a build runs the compiler, for a server on which builds run one
after the other and which may be restarted at any time. `InForce` is the invariant: the manifest that
the process works with and the one on the disk are manifests that occur, and while a build has the
compiler before it the one on the disk is the one that the build has made. The manifest that a process
works with is found once and stays (`foundManifest_step`), so that what a build makes of it is right
exactly if it has the placeholder or the name of that very program (`libraryPath_iff_found`). A
program that is built after a restart has the path of another one (`not_libraryPath_of_restart`).
-/

set_option autoImplicit false
set_option relaxedAutoImplicit false

namespace Playground.Server

open Library

section

variable {Idl : Type} {workingDir : Place} {environment : Environment Idl workingDir}

/-- A build that has not answered. -/
def Build.Running (build : Build Idl) : Prop :=
  ∀ answer, build.phase ≠ .answered answer

/-- The events of builds that are taken one after the other: a build request comes when no build is
running. -/
def oneAtATime (server : State Idl) : Event → Prop
  | .build _ => ∀ build ∈ server.builds, ¬ build.Running
  | _ => True

/-- The manifest on the disk. -/
def State.manifestText (workingDir : Place) (server : State Idl) : Option Str :=
  readToString server.disk (manifestPlace workingDir)

/-- A disk with the manifest of the repository. -/
def Installed (workingDir : Place) (disk : Disk) : Prop :=
  readToString disk (manifestPlace workingDir) = some (cargoToml placeholder)

/-- The manifests of a server on which builds run one after the other. -/
structure InForce (environment : Environment Idl workingDir) (server : State Idl) : Prop where
  accepted : ∀ build ∈ server.builds, build.Accepted environment
  single : ∀ (first second : ℕ) (build other : Build Idl), server.builds[first]? = some build →
    server.builds[second]? = some other → build.Running → other.Running → first = second
  onDisk : ∃ name, IsManifestName name ∧ server.manifestText workingDir = some (cargoToml name)
  found : ∃ name, IsManifestName name ∧ server.foundManifest workingDir = some (cargoToml name)
  compiling : ∀ build ∈ server.builds, build.phase = .compiling → ∃ manifest,
    server.manifest = some manifest ∧
      server.manifestText workingDir = some (fillManifest manifest build.programName)

/-- A step that leaves `MANIFEST` and the manifest of the disk leaves what the process has found. -/
theorem foundManifest_congr {before after : State Idl} (hmanifest : after.manifest = before.manifest)
    (htext : after.manifestText workingDir = before.manifestText workingDir) :
    after.foundManifest workingDir = before.foundManifest workingDir := by
  unfold State.foundManifest
  rw [hmanifest]
  split
  · rfl
  · exact htext

/-- A file other than the manifest is written. -/
theorem readToString_update_of_ne {disk : Disk} {place other : Place} (content : Option Content)
    (hne : other ≠ place) :
    readToString (Function.update disk place content) other = readToString disk other := by
  rw [readToString, readToString, Function.update_of_ne hne]

/-- No file of a program is the manifest. -/
theorem manifestPlace_ne_itemPath {isWordChar : Char → Bool} {programName path : Str}
    (hname : IsComponent programName) (hvalid : isPathValid isWordChar path = true) :
    manifestPlace workingDir ≠ locate workingDir (itemPath programName path) := by
  rw [manifestPlace_eq, locate_itemPath workingDir hname hvalid]
  intro heq
  obtain ⟨rest, hnames⟩ := itemNames_of_isPathValid hvalid
  have hlength := congrArg List.length heq
  simp [hnames] at hlength

/-- A server that has just been installed. -/
theorem inForce_start {disk : Disk} (hdisk : Installed workingDir disk) :
    InForce environment (start disk) where
  accepted := by simp [start]
  single := by simp [start]
  onDisk := ⟨placeholder, Or.inl rfl, hdisk⟩
  found := ⟨placeholder, Or.inl rfl, hdisk⟩
  compiling := by simp [start]

/-- The build that runs goes on, and what the process has found stays. -/
theorem InForce.set {server after : State Idl} {index : ℕ} {build next : Build Idl}
    (hserver : InForce environment server) (hbuild : server.builds[index]? = some build)
    (hrunning : build.Running) (hnext : build.Next next)
    (hbuilds : after.builds = server.builds.set index next)
    (hfound : after.foundManifest workingDir = server.foundManifest workingDir)
    (honDisk : ∃ name, IsManifestName name ∧ after.manifestText workingDir = some (cargoToml name))
    (hcompiling : next.phase = .compiling → ∃ manifest, after.manifest = some manifest ∧
      after.manifestText workingDir = some (fillManifest manifest next.programName)) :
    InForce environment after where
  accepted := by
    intro other hother
    rw [hbuilds] at hother
    rcases List.mem_or_eq_of_mem_set hother with hmem | rfl
    · exact hserver.accepted other hmem
    · exact (hserver.accepted build (List.mem_of_getElem? hbuild)).next hnext
  single := by
    have honly : ∀ (position : ℕ) (other : Build Idl), after.builds[position]? = some other →
        other.Running → position = index := by
      intro position other hother hrun
      by_contra hne
      rw [hbuilds, List.getElem?_set_ne (Ne.symm hne)] at hother
      exact hne (hserver.single position index other build hother hbuild hrun hrunning)
    intro first second one other hone hother honeRun hotherRun
    rw [honly first one hone honeRun, honly second other hother hotherRun]
  onDisk := honDisk
  found := by
    rw [hfound]
    exact hserver.found
  compiling := by
    intro other hother hphase
    rw [hbuilds] at hother
    obtain ⟨position, hposition, hget⟩ := List.getElem_of_mem hother
    have hget : (server.builds.set index next)[position]? = some other :=
      List.getElem?_eq_some_iff.mpr ⟨hposition, hget⟩
    by_cases hindex : index = position
    · subst hindex
      have hlength : index < server.builds.length := by simpa using hposition
      rw [List.getElem?_set_self hlength] at hget
      obtain rfl := Option.some.inj hget
      exact hcompiling hphase
    · rw [List.getElem?_set_ne hindex] at hget
      have hrun : other.Running := fun answer hanswer ↦ by simp [hphase] at hanswer
      exact absurd (hserver.single index position build other hbuild hget hrunning hrun) hindex

/-- The build that runs goes on without touching the manifest. -/
theorem InForce.keep {server after : State Idl} {index : ℕ} {build next : Build Idl}
    (hserver : InForce environment server) (hbuild : server.builds[index]? = some build)
    (hrunning : build.Running) (hnext : build.Next next)
    (hbuilds : after.builds = server.builds.set index next)
    (hmanifest : after.manifest = server.manifest)
    (htext : after.manifestText workingDir = server.manifestText workingDir)
    (hphase : next.phase ≠ .compiling) :
    InForce environment after ∧
      after.foundManifest workingDir = server.foundManifest workingDir := by
  have hfound := foundManifest_congr hmanifest htext
  have honDisk := hserver.onDisk
  rw [← htext] at honDisk
  exact ⟨hserver.set hbuild hrunning hnext hbuilds hfound honDisk fun h ↦ absurd h hphase, hfound⟩

/-- A build writes its manifest. -/
theorem inForce_updateManifest {server : State Idl} {index : ℕ} {build : Build Idl}
    (hserver : InForce environment server) (hbuild : server.builds[index]? = some build)
    (hphase : build.phase = .writing []) :
    InForce environment (updateManifest workingDir server index build) ∧
      (updateManifest workingDir server index build).foundManifest workingDir =
        server.foundManifest workingDir := by
  have hrunning : build.Running := fun answer hanswer ↦ by simp [hphase] at hanswer
  have haccepted := hserver.accepted build (List.mem_of_getElem? hbuild)
  obtain ⟨found, hname, hfound⟩ := hserver.found
  obtain ⟨name, hother, hfill, -⟩ := exists_fillManifest hname haccepted.uuid
  have hafter : (updateManifest workingDir server index build).foundManifest workingDir =
      server.foundManifest workingDir := by
    simp only [updateManifest, hfound]
    rfl
  have htext : (updateManifest workingDir server index build).manifestText workingDir =
      some (fillManifest (cargoToml found) build.programName) := by
    simp only [updateManifest, hfound, State.manifestText, readToString, State.setBuild,
      State.write, Function.update_self]
  have hnext : build.Next { build with phase := .compiling } := ⟨rfl, rfl, by simp⟩
  have hbuilds : (updateManifest workingDir server index build).builds =
      server.builds.set index { build with phase := .compiling } := by
    simp only [updateManifest, hfound]
    rfl
  have hmanifest : (updateManifest workingDir server index build).manifest =
      some (cargoToml found) := by
    simp only [updateManifest, hfound]
    rfl
  refine ⟨hserver.set hbuild hrunning hnext hbuilds hafter ⟨name, hother, ?_⟩ fun _ ↦ ?_, hafter⟩
  · rw [htext, hfill]
  · exact ⟨cargoToml found, hmanifest, htext⟩

/-- The compiler leaves the manifest. -/
theorem readToString_cargoBuildSbf {before after : Disk} {programName : Str} {stderr : Option Str}
    (hname : IsComponent programName)
    (hrun : environment.cargoBuildSbf before manifestPath (programPath programName) =
      some (stderr, after)) :
    readToString after (manifestPlace workingDir) =
      readToString before (manifestPlace workingDir) := by
  rw [readToString, readToString,
    environment.cargoBuildSbf_keeps before programName stderr after hname hrun _ (Or.inl rfl)]

/-- A build runs the compiler. -/
theorem inForce_runCompiler {server : State Idl} {index : ℕ} {build : Build Idl}
    (hserver : InForce environment server) (hbuild : server.builds[index]? = some build)
    (hphase : build.phase = .compiling) :
    InForce environment (runCompiler environment server index build) ∧
      (runCompiler environment server index build).foundManifest workingDir =
        server.foundManifest workingDir := by
  have hrunning : build.Running := fun answer hanswer ↦ by simp [hphase] at hanswer
  have hname := (hserver.accepted build (List.mem_of_getElem? hbuild)).isComponent
  unfold runCompiler
  split
  · exact hserver.keep hbuild hrunning (build.next_answered _ _) rfl rfl rfl (by simp)
  next disk hrun =>
    exact hserver.keep hbuild hrunning (build.next_answered _ _) rfl rfl
      (readToString_cargoBuildSbf hname hrun) (by simp)
  next stderr disk hrun =>
    dsimp only
    split
    · exact hserver.keep hbuild hrunning (build.next_answered _ _) rfl rfl
        (readToString_cargoBuildSbf hname hrun) (by simp)
    · have hnext : build.Next
          { build with phase := .reading stderr, compiled := some server.disk } :=
        ⟨rfl, rfl, by simp⟩
      exact hserver.keep hbuild hrunning hnext rfl rfl
        (readToString_cargoBuildSbf hname hrun) (by simp)

/-- The next step of a build keeps the manifests right. -/
theorem inForce_advance {server after : State Idl} {index : ℕ} {build : Build Idl}
    (hserver : InForce environment server) (hbuild : server.builds[index]? = some build)
    (hstep : advance environment server index build = some after) :
    InForce environment after ∧
      after.foundManifest workingDir = server.foundManifest workingDir := by
  have haccepted := hserver.accepted build (List.mem_of_getElem? hbuild)
  unfold advance at hstep
  cases hphase : build.phase with
  | writing files =>
    have hrunning : build.Running := fun answer hanswer ↦ by simp [hphase] at hanswer
    cases files with
    | nil =>
      simp only [hphase, Option.some.injEq] at hstep
      rw [← hstep]
      exact inForce_updateManifest hserver hbuild hphase
    | cons file rest =>
      simp only [hphase, Option.some.injEq] at hstep
      have hvalid := haccepted.files file ((haccepted.remaining _ hphase).mem List.mem_cons_self)
      obtain ⟨parent, hparent, -⟩ :=
        locate_parentPath_itemPath workingDir haccepted.isComponent hvalid
      have hnext : build.Next { build with phase := .writing rest } := by
        refine ⟨rfl, rfl, fun other hother ↦ ?_⟩
        obtain rfl := Phase.writing.inj hother
        exact ⟨file, hphase⟩
      simp only [writeFile, hparent] at hstep
      rw [← hstep]
      exact hserver.keep hbuild hrunning hnext rfl rfl
        (readToString_update_of_ne _ (manifestPlace_ne_itemPath haccepted.isComponent hvalid))
        (by simp)
  | compiling =>
    simp only [hphase, Option.some.injEq] at hstep
    rw [← hstep]
    exact inForce_runCompiler hserver hbuild hphase
  | reading stderr =>
    have hrunning : build.Running := fun answer hanswer ↦ by simp [hphase] at hanswer
    simp only [hphase, Option.some.injEq] at hstep
    rw [← hstep]
    unfold readOutput
    split <;> exact hserver.keep hbuild hrunning (build.next_answered _ _) rfl rfl rfl (by simp)
  | answered answer => simp [hphase] at hstep

/-- A step that fails keeps the manifests right. -/
theorem inForce_fail {server after : State Idl} {index : ℕ} {build : Build Idl}
    (hserver : InForce environment server) (hbuild : server.builds[index]? = some build)
    (hstep : fail workingDir server index build = some after) :
    InForce environment after ∧
      after.foundManifest workingDir = server.foundManifest workingDir := by
  have hrunning : build.Running := by
    intro answer hanswer
    simp [fail, hanswer] at hstep
  obtain ⟨answer, manifest, rfl, -, hmanifest⟩ := fail_cases hstep
  obtain ⟨name, -, hname⟩ := hserver.found
  have hfound : State.foundManifest workingDir
      ({ server with manifest := manifest }.answer index build answer) =
        server.foundManifest workingDir := by
    rcases hmanifest with rfl | rfl
    · rfl
    · rw [hname]
      rfl
  exact ⟨hserver.set hbuild hrunning (build.next_answered answer _) rfl hfound hserver.onDisk
    (by simp), hfound⟩

/-- What a step does to a server on which builds run one after the other: the manifests stay right,
and until a restart the process works with the manifest it has found. -/
theorem inForce_step {server after : State Idl} {event : Event}
    (hserver : InForce environment server) (hguard : oneAtATime server event)
    (hstep : step environment server event = some after) :
    InForce environment after ∧ (event ≠ .restart →
      after.foundManifest workingDir = server.foundManifest workingDir) := by
  cases event with
  | build request =>
    have haccepted := accepted_step hserver.accepted hstep
    unfold step at hstep
    cases hstart : startBuild environment server request with
    | error message =>
      simp only [hstart, Option.some.injEq] at hstep
      subst hstep
      exact ⟨⟨haccepted, hserver.single, hserver.onDisk, hserver.found, hserver.compiling⟩,
        fun _ ↦ rfl⟩
    | ok build =>
      simp only [hstart, Option.some.injEq] at hstep
      subst hstep
      obtain ⟨-, -, -, hphase, -⟩ := startBuild_eq_ok hstart
      refine ⟨⟨haccepted, ?_, hserver.onDisk, hserver.found, ?_⟩, fun _ ↦ rfl⟩
      · have hlast : ∀ (position : ℕ) (other : Build Idl),
            (server.builds ++ [build])[position]? = some other → other.Running →
              position = server.builds.length := by
          intro position other hother hrun
          by_contra hne
          have hposition : position < (server.builds ++ [build]).length :=
            (List.getElem?_eq_some_iff.mp hother).1
          rw [List.length_append, List.length_singleton] at hposition
          rw [List.getElem?_append_left (by omega)] at hother
          exact hguard other (List.mem_of_getElem? hother) hrun
        intro first second one other hone hother honeRun hotherRun
        rw [hlast first one hone honeRun, hlast second other hother hotherRun]
      · intro other hother hcompiling
        rcases List.mem_append.mp hother with hmem | hmem
        · exact hserver.compiling other hmem hcompiling
        · rw [List.mem_singleton.mp hmem, hphase] at hcompiling
          contradiction
  | advance index =>
    obtain ⟨build, hbuild, hstep⟩ := Option.bind_eq_some_iff.mp hstep
    obtain ⟨hafter, hfound⟩ := inForce_advance hserver hbuild hstep
    exact ⟨hafter, fun _ ↦ hfound⟩
  | fail index =>
    obtain ⟨build, hbuild, hstep⟩ := Option.bind_eq_some_iff.mp hstep
    obtain ⟨hafter, hfound⟩ := inForce_fail hserver hbuild hstep
    exact ⟨hafter, fun _ ↦ hfound⟩
  | deploy programName =>
    obtain rfl := Option.some.inj hstep
    exact ⟨⟨hserver.accepted, hserver.single, hserver.onDisk, hserver.found, hserver.compiling⟩,
      fun _ ↦ rfl⟩
  | restart =>
    obtain rfl := Option.some.inj hstep
    refine ⟨⟨by simp, by simp, hserver.onDisk, hserver.onDisk, by simp⟩, fun h ↦ absurd rfl h⟩

/-- The manifests are right along every run in which builds run one after the other. -/
theorem inForce_of_run {server after : State Idl} {events : List Event}
    (hserver : InForce environment server)
    (hrun : Run (Guarded (StepsTo (step environment)) oneAtATime) server events after) :
    InForce environment after :=
  hrun.invariant_guarded
    (fun _ _ _ hbefore hguard hstep ↦ (inForce_step hbefore hguard hstep).1) hserver

/-- Until a restart a process works with the manifest it has found. -/
theorem foundManifest_of_run {server after : State Idl} {events : List Event}
    (hserver : InForce environment server)
    (hrun : Run (Guarded (StepsTo (step environment)) oneAtATime) server events after)
    (hrestart : Event.restart ∉ events) :
    after.foundManifest workingDir = server.foundManifest workingDir := by
  induction hrun with
  | nil => rfl
  | snoc hrun hstep ih =>
    rw [List.mem_append, not_or, List.mem_singleton] at hrestart
    rw [← ih hrestart.1]
    exact (inForce_step (inForce_of_run hserver hrun) hstep.1 hstep.2).2 (Ne.symm hrestart.2)

/-- Assumes: a disk with the manifest of the repository, a run in which builds run one after the other,
and no restart after the request of the build. When a build runs the compiler, the path of the
library in the manifest is that of its program exactly if the manifest that the process works with
had the placeholder or that very path when the request came. -/
theorem libraryPath_iff_found {disk : Disk} (hdisk : Installed workingDir disk)
    {past future : List Event} {request : BuildRequest} {before between after : State Idl}
    {build : Build Idl}
    (hpast : Run (Guarded (StepsTo (step environment)) oneAtATime) (start disk) past before)
    (hrequest : Run (Guarded (StepsTo (step environment)) oneAtATime) before [.build request] between)
    (hfuture : Run (Guarded (StepsTo (step environment)) oneAtATime) between future after)
    (hrestart : Event.restart ∉ future) (hbuild : build ∈ after.builds)
    (hphase : build.phase = .compiling) :
    (after.manifestText workingDir).bind libraryPath = some (librarySource build.programName) ↔
      (before.foundManifest workingDir).bind libraryPath = some (librarySource placeholder) ∨
        (before.foundManifest workingDir).bind libraryPath =
          some (librarySource build.programName) := by
  have hbefore := inForce_of_run (inForce_start hdisk) hpast
  have hlater := hrequest.append hfuture
  have hafter := inForce_of_run hbefore hlater
  have hsame := foundManifest_of_run hbefore hlater (by simpa using hrestart)
  obtain ⟨found, hname, hfound⟩ := hbefore.found
  have huuid := (hafter.accepted build hbuild).uuid
  obtain ⟨name, hother, hfill, hiff⟩ := exists_fillManifest hname huuid
  obtain ⟨manifest, hmanifest, htext⟩ := hafter.compiling build hbuild hphase
  obtain rfl : cargoToml found = manifest := by
    rw [hfound, State.foundManifest, hmanifest] at hsame
    exact (Option.some.inj hsame).symm
  have hinj : ∀ first second : Str,
      some (librarySource first) = some (librarySource second) ↔ first = second := by
    intro first second
    rw [Option.some.injEq, librarySource, librarySource, List.append_left_inj]
  rw [htext, hfound, hfill, Option.bind_some, Option.bind_some, libraryPath_cargoToml hother,
    libraryPath_cargoToml hname, hinj, hinj, hinj, hiff]

/-- A build without files gets to the compiler in two steps, with the manifest that it makes of the
one its process has found. -/
theorem run_to_compiler {server : State Idl} {found uuid : Str}
    (hidle : ∀ build ∈ server.builds, ¬ build.Running)
    (hfound : server.foundManifest workingDir = some found)
    (huuid : environment.tryParse uuid = true) :
    ∃ between after build,
      Run (Guarded (StepsTo (step environment)) oneAtATime) server
        [.build ⟨[], some uuid, none⟩] between ∧
      Run (Guarded (StepsTo (step environment)) oneAtATime) between
        [.advance server.builds.length] after ∧
      build ∈ after.builds ∧ build.phase = .compiling ∧ build.programName = uuid ∧
      after.manifestText workingDir = some (fillManifest found uuid) := by
  have hbuild := @step_build _ _ environment server _ _ none huuid
    (show checkFiles environment [] = .ok () from rfl)
  have hbetween : State.foundManifest workingDir
      (server.addBuild ⟨uuid, false, [], buildOptions none, .writing [], none⟩) = some found :=
    hfound
  refine ⟨_, updateManifest workingDir
    (server.addBuild ⟨uuid, false, [], buildOptions none, .writing [], none⟩) server.builds.length
    ⟨uuid, false, [], buildOptions none, .writing [], none⟩,
    ⟨uuid, false, [], buildOptions none, .compiling, none⟩, .single ⟨hidle, hbuild⟩,
    .single ⟨trivial, ?_⟩, ?_, rfl, rfl, ?_⟩
  · simp [StepsTo, step, advance, State.addBuild]
  · simp only [updateManifest, hbetween]
    simp [State.setBuild, State.write, State.access, State.addBuild]
  · simp only [updateManifest, hbetween, State.manifestText, readToString, State.setBuild,
      State.write, Function.update_self]

end

/-- The manifest of the repository is installed there. -/
theorem installed_installedDisk : Installed [] installedDisk := by
  simp [Installed, installedDisk, readToString]

/-- A program is built, and the server is restarted. -/
theorem run_restart :
    ∃ before : State Unit, Run (Guarded (StepsTo (step (copyingEnvironment []))) oneAtATime)
        (start installedDisk)
        ([.build ⟨[], some sampleUuid, none⟩] ++ [.advance 0] ++ [.restart]) before ∧
      before.builds = [] ∧ before.foundManifest [] = some (cargoToml sampleUuid) := by
  obtain ⟨between, built, -, hfirst, hwritten, -, -, -, htext⟩ :=
    @run_to_compiler _ _ (copyingEnvironment []) (start installedDisk) _ sampleUuid
      (by simp [start]) installed_installedDisk (by decide +kernel)
  rw [fillManifest_placeholder] at htext
  have hrestart : Run (Guarded (StepsTo (step (copyingEnvironment []))) oneAtATime) built [.restart]
      { built with manifest := none, builds := [] } := .single ⟨trivial, rfl⟩
  exact ⟨_, (hfirst.append hwritten).append hrestart, rfl, htext⟩

/-- A program that is built again after a restart has the path of its own library. -/
theorem libraryPath_iff_found_again :
    ∃ (past : List Event) (before after : State Unit) (build : Build Unit),
      Run (Guarded (StepsTo (step (copyingEnvironment []))) oneAtATime) (start installedDisk) past before ∧
        Event.restart ∈ past ∧ build ∈ after.builds ∧ build.phase = .compiling ∧
        (after.manifestText []).bind libraryPath = some (librarySource build.programName) := by
  obtain ⟨before, hpast, hbuilds, hfound⟩ := run_restart
  obtain ⟨between, after, build, hrequest, hadvance, hmem, hphase, hname, -⟩ :=
    @run_to_compiler _ _ (copyingEnvironment []) before _ sampleUuid
      (by simp [hbuilds]) hfound (by decide +kernel)
  refine ⟨_, before, after, build, hpast, by simp, hmem, hphase,
    (@libraryPath_iff_found _ _ (copyingEnvironment []) _ installed_installedDisk _ _ _ _ _ _ _ hpast
      hrequest hadvance (by simp) hmem hphase).mpr (Or.inr ?_)⟩
  rw [hfound, hname]
  exact libraryPath_cargoToml (Or.inr (by decide +kernel))

/-- A program is built, the server is restarted, and another program is built: the manifest has the
path of the first one's library. -/
theorem not_libraryPath_of_restart :
    ¬ ∀ (events : List Event) (server : State Unit) (build : Build Unit),
      Run (Guarded (StepsTo (step (copyingEnvironment []))) oneAtATime) (start installedDisk) events
        server → build ∈ server.builds → build.phase = .compiling →
          (server.manifestText []).bind libraryPath = some (librarySource build.programName) := by
  intro hall
  obtain ⟨before, hpast, hbuilds, hfound⟩ := run_restart
  obtain ⟨later, after, build, hsecond, hagain, hmem, hphase, hname, hagainText⟩ :=
    @run_to_compiler _ _ (copyingEnvironment []) before _ otherUuid (by simp [hbuilds]) hfound
      (by decide +kernel)
  have hpath := hall _ after build ((hpast.append hsecond).append hagain) hmem hphase
  rw [hagainText, fillManifest_of_isUuidText (by decide +kernel), Option.bind_some,
    libraryPath_cargoToml (Or.inr (by decide +kernel)), hname] at hpath
  exact absurd hpath (by decide +kernel)

end Playground.Server
