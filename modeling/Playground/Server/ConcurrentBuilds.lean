import Playground.Server.Restarts

/-!
# Concurrent builds

Builds of different programs interleave. What a build is for is `BuiltFromOwn`: when it responds, the
compiler has been run for it on a disk with the path of its own library in the manifest and with its own
files, and the response is made of the output of that run and of the IDL of its own sources. The files
of two programs do not meet, but the manifest is shared: a build that writes it while another one has
the compiler before it makes the other one compile its library (`not_hasOwnFiles_of_disturbed`,
`not_builtFromOwn_of_interleaving`). In every run in which that does not happen all builds are built
from their own files (`builtFromOwn_of_undisturbed`). `Isolated` is the invariant; `Build.Right` says
what it says of one build, by the step it has come to.
-/

set_option autoImplicit false
set_option relaxedAutoImplicit false

namespace Playground.Server

open Library

section

variable {Idl : Type} {workingDir : Place} {environment : Environment Idl workingDir}

/-! ### Builds from their own files -/

/-- The places below the `src` directory of a given program. -/
def IsSourceOf (workingDir : Place) (programName : Str) (place : Place) : Prop :=
  ∃ rest, place = workingDir ++ programsDir :: programName :: "src".toList :: rest

/-- Two disks with the same sources of a program. -/
def SameSources (workingDir : Place) (programName : Str) (before after : Disk) : Prop :=
  ∀ place, IsSourceOf workingDir programName place → after place = before place

/-- What writing files leaves at a place: the content of the last one that leads there. -/
def contentAt (workingDir : Place) (programName : Str) (files : List (Str × Str)) (place : Place) :
    Option Str :=
  (files.reverse.find? fun file ↦ locate workingDir (itemPath programName file.1) = place).map
    Prod.snd

/-- A disk on which files of a program are in place. -/
def InPlace (workingDir : Place) (programName : Str) (files : List (Str × Str)) (disk : Disk) :
    Prop :=
  ∀ place content, contentAt workingDir programName files place = some content →
    disk place = some (.text content)

/-- A disk with the manifest for a build and with its files. -/
structure HasOwnFiles (workingDir : Place) (build : Build Idl) (disk : Disk) : Prop where
  library : (readToString disk (manifestPlace workingDir)).bind libraryPath =
    some (librarySource build.programName)
  files : InPlace workingDir build.programName build.files disk

/-- What the compiler prints, run for a build on a disk. -/
def Compiles (environment : Environment Idl workingDir) (build : Build Idl) (disk : Disk)
    (stderr : Str) : Prop :=
  ∃ after, environment.cargoBuildSbf disk manifestPath (programPath build.programName) =
    some (some stderr, after)

/-- A response is made of the output of the compiler on a disk and of the IDL of the same sources. -/
def MadeFrom (environment : Environment Idl workingDir) (build : Build Idl) (disk : Disk)
    (response : BuildResponse Idl) : Prop :=
  ∃ stderr, Compiles environment build disk stderr ∧
    ((response.stderr, response.idl) = (stderr, none) ∨
      ∃ later lib, SameSources workingDir build.programName disk later ∧
        readToString later (locate workingDir (libPath build.programName)) = some lib ∧
          (response.stderr, response.idl) = outputOf stderr lib
            (environment.parseIdl later (libPath build.programName) build.options))

/-- What a build is for: a response is made from its own files. -/
def BuiltFromOwn (environment : Environment Idl workingDir) (build : Build Idl) : Prop :=
  ∀ response, build.phase = .answered (.response response) →
    ∃ disk, build.compiled = some disk ∧ HasOwnFiles workingDir build disk ∧
      MadeFrom environment build disk response

/-! ### Conditions on the events -/

/-- The events of concurrent builds: running builds have different programs, and the server is not
restarted. -/
def concurrent (environment : Environment Idl workingDir) (server : State Idl) : Event → Prop
  | .build request => ∀ build, startBuild environment server request = .ok build →
      ∀ other ∈ server.builds, other.Running → other.programName ≠ build.programName
  | .restart => False
  | _ => True

/-- No build writes the manifest while another one has the compiler before it. -/
def undisturbed (server : State Idl) : Event → Prop
  | .advance index => ∀ build, server.builds[index]? = some build → build.phase = .writing [] →
      ∀ other ∈ server.builds, other.phase ≠ .compiling
  | _ => True

/-! ### Files of different programs -/

/-- A file of a build that has been accepted is a source of its program. -/
theorem isSourceOf_itemPath {isWordChar : Char → Bool} {programName path : Str}
    (hname : IsComponent programName) (hvalid : isPathValid isWordChar path = true) :
    IsSourceOf workingDir programName (locate workingDir (itemPath programName path)) := by
  obtain ⟨rest, hnames⟩ := itemNames_of_isPathValid hvalid
  exact ⟨rest, by rw [locate_itemPath workingDir hname hvalid, hnames]⟩

/-- The program of a source is determined. -/
theorem eq_of_isSourceOf {first second : Str} {place : Place}
    (hfirst : IsSourceOf workingDir first place) (hsecond : IsSourceOf workingDir second place) :
    first = second := by
  obtain ⟨rest, rfl⟩ := hfirst
  obtain ⟨other, heq⟩ := hsecond
  have htail := List.append_cancel_left heq
  simp only [List.cons.injEq] at htail
  exact htail.2.1

/-- The manifest is not a source. -/
theorem not_isSourceOf_manifestPlace (programName : Str) :
    ¬ IsSourceOf workingDir programName (manifestPlace workingDir) := by
  rintro ⟨rest, heq⟩
  rw [manifestPlace_eq] at heq
  simpa using congrArg List.length heq

/-- Writing a place that is no source of a program. -/
theorem sameSources_update {programName : Str} {disk : Disk} {place : Place}
    (content : Option Content) (hplace : ¬ IsSourceOf workingDir programName place) :
    SameSources workingDir programName disk (Function.update disk place content) := by
  intro other hother
  have hne : other ≠ place := fun heq ↦ hplace (by rwa [← heq])
  exact Function.update_of_ne hne _ _

/-- The compiler leaves the sources. -/
theorem sameSources_cargoBuildSbf {before after : Disk} {programName other : Str}
    {stderr : Option Str} (hname : IsComponent programName)
    (hrun : environment.cargoBuildSbf before manifestPath (programPath programName) =
      some (stderr, after)) : SameSources workingDir other before after := by
  rintro place ⟨rest, rfl⟩
  exact environment.cargoBuildSbf_keeps before programName stderr after hname hrun _
    (Or.inr ⟨other, rest, rfl⟩)

/-- Same sources, one after the other. -/
theorem SameSources.trans {programName : Str} {first second third : Disk}
    (hfirst : SameSources workingDir programName first second)
    (hsecond : SameSources workingDir programName second third) :
    SameSources workingDir programName first third := by
  intro place hplace
  rw [hsecond place hplace, hfirst place hplace]

/-- Files that are in place stay there as long as the sources stay. -/
theorem InPlace.mono {programName : Str} {isWordChar : Char → Bool} {files : List (Str × Str)}
    {before after : Disk} (hname : IsComponent programName)
    (hvalid : ∀ file ∈ files, isPathValid isWordChar file.1 = true)
    (hbefore : InPlace workingDir programName files before)
    (hsame : SameSources workingDir programName before after) :
    InPlace workingDir programName files after := by
  intro place content hcontent
  obtain ⟨file, hfind, -⟩ := Option.map_eq_some_iff.mp hcontent
  have hmem : file ∈ files := List.mem_reverse.mp (List.mem_of_find?_eq_some hfind)
  have hplace : locate workingDir (itemPath programName file.1) = place := by
    simpa using List.find?_some hfind
  rw [hsame place (hplace ▸ isSourceOf_itemPath hname (hvalid file hmem))]
  exact hbefore place content hcontent

/-- Writing the next file puts it in place. -/
theorem InPlace.snoc {programName : Str} {files : List (Str × Str)} {disk : Disk}
    (hdisk : InPlace workingDir programName files disk) (file : Str × Str) :
    InPlace workingDir programName (files ++ [file])
      (Function.update disk (locate workingDir (itemPath programName file.1))
        (some (.text file.2))) := by
  intro place content hcontent
  rw [contentAt, List.reverse_append, List.reverse_singleton, List.singleton_append,
    List.find?_cons] at hcontent
  by_cases hplace : locate workingDir (itemPath programName file.1) = place
  · simp only [hplace, decide_true, Option.map_some, Option.some.injEq] at hcontent
    rw [hplace, Function.update_self, hcontent]
  · simp only [hplace, decide_false] at hcontent
    rw [Function.update_of_ne (Ne.symm hplace)]
    exact hdisk place content hcontent

/-! ### The invariant -/

/-- What holds of a build, by the step it has come to. -/
def Build.Right (environment : Environment Idl workingDir) (server : State Idl)
    (build : Build Idl) : Prop :=
  match build.phase with
  | .writing rest => ∃ done, build.files = done ++ rest ∧
      InPlace workingDir build.programName done server.disk
  | .compiling => InPlace workingDir build.programName build.files server.disk ∧
      server.manifestText workingDir = some (cargoToml build.programName)
  | .reading stderr => ∃ disk, build.compiled = some disk ∧ HasOwnFiles workingDir build disk ∧
      Compiles environment build disk stderr ∧
        SameSources workingDir build.programName disk server.disk
  | .answered _ => BuiltFromOwn environment build

/-- Concurrent builds that are isolated from each other. -/
structure Isolated (environment : Environment Idl workingDir) (server : State Idl) : Prop where
  accepted : ∀ build ∈ server.builds, build.Accepted environment
  distinct : ∀ (first second : ℕ) (build other : Build Idl), server.builds[first]? = some build →
    server.builds[second]? = some other → build.Running → other.Running →
      build.programName = other.programName → first = second
  found : server.foundManifest workingDir = some (cargoToml placeholder)
  right : ∀ build ∈ server.builds, build.Right environment server

/-- A build stays right as long as its sources stay, and the manifest while it has the compiler before
it. -/
theorem Build.Right.frame {before after : State Idl} {build : Build Idl}
    (hbuild : build.Right environment before) (haccepted : build.Accepted environment)
    (hsame : build.Running → SameSources workingDir build.programName before.disk after.disk)
    (htext : build.phase = .compiling →
      after.manifestText workingDir = before.manifestText workingDir) :
    build.Right environment after := by
  have hname := haccepted.isComponent
  unfold Build.Right at hbuild ⊢
  cases hphase : build.phase with
  | writing rest =>
    simp only [hphase] at hbuild ⊢
    obtain ⟨done, hfiles, hplace⟩ := hbuild
    have hrunning : build.Running := fun answer hanswer ↦ by simp [hphase] at hanswer
    have hvalid : ∀ file ∈ done, isPathValid environment.isWordChar file.1 = true := by
      intro file hfile
      exact haccepted.files file (by rw [hfiles]; exact List.mem_append_left _ hfile)
    exact ⟨done, hfiles, hplace.mono hname hvalid (hsame hrunning)⟩
  | compiling =>
    simp only [hphase] at hbuild ⊢
    have hrunning : build.Running := fun answer hanswer ↦ by simp [hphase] at hanswer
    exact ⟨hbuild.1.mono hname haccepted.files (hsame hrunning), by rw [htext hphase, hbuild.2]⟩
  | reading stderr =>
    simp only [hphase] at hbuild ⊢
    obtain ⟨disk, hcompiled, hown, hrun, hsources⟩ := hbuild
    have hrunning : build.Running := fun answer hanswer ↦ by simp [hphase] at hanswer
    exact ⟨disk, hcompiled, hown, hrun, hsources.trans (hsame hrunning)⟩
  | answered answer =>
    simp only [hphase] at hbuild ⊢
    exact hbuild

/-- A build that answers without a response is right. -/
theorem Build.right_of_no_response {server : State Idl} {build : Build Idl} {answer : Answer Idl}
    {compiled : Option Disk} (hanswer : ∀ response, answer ≠ .response response) :
    Build.Right environment server
      { build with phase := .answered answer, compiled := compiled } := by
  intro response hphase
  exact absurd (Phase.answered.inj hphase) (hanswer response)

/-- One build goes on, and the sources of the others stay. -/
theorem Isolated.set {server after : State Idl} {index : ℕ} {build next : Build Idl}
    (hserver : Isolated environment server) (hbuild : server.builds[index]? = some build)
    (hrunning : build.Running) (hnext : build.Next next)
    (hbuilds : after.builds = server.builds.set index next)
    (hfound : after.foundManifest workingDir = server.foundManifest workingDir)
    (hsame : ∀ programName, programName ≠ build.programName →
      SameSources workingDir programName server.disk after.disk)
    (htext : (∃ other ∈ server.builds, other.phase = .compiling) →
      after.manifestText workingDir = server.manifestText workingDir)
    (hright : next.Right environment after) : Isolated environment after where
  accepted := by
    intro other hother
    rw [hbuilds] at hother
    rcases List.mem_or_eq_of_mem_set hother with hmem | rfl
    · exact hserver.accepted other hmem
    · exact (hserver.accepted build (List.mem_of_getElem? hbuild)).next hnext
  distinct := by
    have hback : ∀ (position : ℕ) (other : Build Idl), after.builds[position]? = some other →
        ∃ before, server.builds[position]? = some before ∧
          before.programName = other.programName ∧ (other.Running → before.Running) := by
      intro position other hother
      by_cases hindex : index = position
      · subst hindex
        have hlength : index < server.builds.length := (List.getElem?_eq_some_iff.mp hbuild).1
        rw [hbuilds, List.getElem?_set_self hlength] at hother
        obtain rfl := Option.some.inj hother
        exact ⟨build, hbuild, hnext.programName.symm, fun _ ↦ hrunning⟩
      · rw [hbuilds, List.getElem?_set_ne hindex] at hother
        exact ⟨other, hother, rfl, id⟩
    intro first second one other hone hother honeRun hotherRun hname
    obtain ⟨oneBefore, honeGet, honeName, honeBack⟩ := hback first one hone
    obtain ⟨otherBefore, hotherGet, hotherName, hotherBack⟩ := hback second other hother
    refine hserver.distinct first second oneBefore otherBefore honeGet hotherGet
      (honeBack honeRun) (hotherBack hotherRun) ?_
    rw [honeName, hotherName, hname]
  found := by rw [hfound, hserver.found]
  right := by
    intro other hother
    rw [hbuilds] at hother
    obtain ⟨position, hposition, hget⟩ := List.getElem_of_mem hother
    have hget : (server.builds.set index next)[position]? = some other :=
      List.getElem?_eq_some_iff.mpr ⟨hposition, hget⟩
    by_cases hindex : index = position
    · subst hindex
      rw [List.getElem?_set_self (by simpa using hposition)] at hget
      obtain rfl := Option.some.inj hget
      exact hright
    · rw [List.getElem?_set_ne hindex] at hget
      have hmem := List.mem_of_getElem? hget
      refine (hserver.right other hmem).frame (hserver.accepted other hmem) ?_ ?_
      · intro hotherRun
        apply hsame
        intro hname
        exact hindex (hserver.distinct index position build other hbuild hget hrunning hotherRun
          hname.symm)
      · intro hphase
        exact htext ⟨other, hmem, hphase⟩

/-- A build writes its next file. -/
theorem isolated_writeFile {server : State Idl} {index : ℕ} {build : Build Idl} {file : Str × Str}
    {rest : List (Str × Str)} (hserver : Isolated environment server)
    (hbuild : server.builds[index]? = some build) (hphase : build.phase = .writing (file :: rest)) :
    Isolated environment (writeFile workingDir server index build file rest) := by
  have hmem := List.mem_of_getElem? hbuild
  have haccepted := hserver.accepted build hmem
  have hname := haccepted.isComponent
  have hrunning : build.Running := fun answer hanswer ↦ by simp [hphase] at hanswer
  have hvalid := haccepted.files file ((haccepted.remaining _ hphase).mem List.mem_cons_self)
  obtain ⟨parent, hparent, -⟩ := locate_parentPath_itemPath workingDir hname hvalid
  have hplace : IsSourceOf workingDir build.programName
      (locate workingDir (itemPath build.programName file.1)) := isSourceOf_itemPath hname hvalid
  have hnext : build.Next { build with phase := .writing rest } := by
    refine ⟨rfl, rfl, fun other hother ↦ ?_⟩
    obtain rfl := Phase.writing.inj hother
    exact ⟨file, hphase⟩
  have htext : State.manifestText workingDir
      (writeFile workingDir server index build file rest) = server.manifestText workingDir := by
    simp only [writeFile, hparent]
    exact readToString_update_of_ne _ (manifestPlace_ne_itemPath hname hvalid)
  have hright := hserver.right build hmem
  simp only [Build.Right, hphase] at hright
  obtain ⟨done, hfiles, hdone⟩ := hright
  refine hserver.set hbuild hrunning hnext ?_ ?_ ?_ (fun _ ↦ htext) ⟨done ++ [file], ?_, ?_⟩
  · simp only [writeFile, hparent]
    rfl
  · refine foundManifest_congr ?_ htext
    simp only [writeFile, hparent]
    rfl
  · intro programName hne
    simp only [writeFile, hparent]
    exact sameSources_update _ fun hsource ↦ hne (eq_of_isSourceOf hsource hplace)
  · rw [List.append_assoc]
    exact hfiles
  · simp only [writeFile, hparent]
    exact hdone.snoc file

/-- A build writes the manifest while no other one has the compiler before it. -/
theorem isolated_updateManifest {server : State Idl} {index : ℕ} {build : Build Idl}
    (hserver : Isolated environment server) (hbuild : server.builds[index]? = some build)
    (hphase : build.phase = .writing [])
    (hguard : ∀ other ∈ server.builds, other.phase ≠ .compiling) :
    Isolated environment (updateManifest workingDir server index build) := by
  have hrunning : build.Running := fun answer hanswer ↦ by simp [hphase] at hanswer
  have hnext : build.Next { build with phase := .compiling } := ⟨rfl, rfl, by simp⟩
  have hsources : ∀ programName, SameSources workingDir programName server.disk
      (updateManifest workingDir server index build).disk := by
    intro programName
    simp only [updateManifest, hserver.found]
    exact sameSources_update _ (not_isSourceOf_manifestPlace programName)
  have haccepted := hserver.accepted build (List.mem_of_getElem? hbuild)
  have hright := hserver.right build (List.mem_of_getElem? hbuild)
  simp only [Build.Right, hphase, List.append_nil] at hright
  obtain ⟨done, hfiles, hdone⟩ := hright
  refine hserver.set hbuild hrunning hnext ?_ ?_ (fun programName _ ↦ hsources programName) ?_
    ⟨?_, ?_⟩
  · simp only [updateManifest, hserver.found]
    rfl
  · simp only [updateManifest, hserver.found]
    rfl
  · rintro ⟨other, hmem, hcompiling⟩
    exact absurd hcompiling (hguard other hmem)
  · rw [← hfiles] at hdone
    exact hdone.mono haccepted.isComponent haccepted.files (hsources build.programName)
  · simp only [updateManifest, hserver.found, State.manifestText, readToString, State.setBuild,
      State.write, Function.update_self, fillManifest_placeholder]

/-- A build runs the compiler. -/
theorem isolated_runCompiler {server : State Idl} {index : ℕ} {build : Build Idl}
    (hserver : Isolated environment server) (hbuild : server.builds[index]? = some build)
    (hphase : build.phase = .compiling) :
    Isolated environment (runCompiler environment server index build) := by
  have hrunning : build.Running := fun answer hanswer ↦ by simp [hphase] at hanswer
  have haccepted := hserver.accepted build (List.mem_of_getElem? hbuild)
  have hname := haccepted.isComponent
  have hright := hserver.right build (List.mem_of_getElem? hbuild)
  simp only [Build.Right, hphase] at hright
  have hown : HasOwnFiles workingDir build server.disk := by
    refine ⟨?_, hright.1⟩
    have htext : readToString server.disk (manifestPlace workingDir) =
      some (cargoToml build.programName) := hright.2
    rw [htext, Option.bind_some, libraryPath_cargoToml (Or.inr haccepted.uuid)]
  unfold runCompiler
  split
  · exact hserver.set hbuild hrunning (build.next_answered .ioError _) rfl rfl
      (fun _ _ _ _ ↦ rfl) (fun _ ↦ rfl) (Build.right_of_no_response (by simp))
  next disk hrun =>
    have htext := readToString_cargoBuildSbf hname hrun
    exact hserver.set hbuild hrunning (build.next_answered _ _) rfl (foundManifest_congr rfl htext)
      (fun _ _ ↦ sameSources_cargoBuildSbf hname hrun) (fun _ ↦ htext)
      (Build.right_of_no_response (by simp))
  next stderr disk hrun =>
    have htext := readToString_cargoBuildSbf hname hrun
    dsimp only
    split
    · refine hserver.set hbuild hrunning (build.next_answered _ _) rfl (foundManifest_congr rfl htext)
        (fun _ _ ↦ sameSources_cargoBuildSbf hname hrun) (fun _ ↦ htext) ?_
      intro response hresponse
      obtain rfl := Answer.response.inj (Phase.answered.inj hresponse)
      exact ⟨server.disk, rfl, ⟨hown.library, hown.files⟩, stderr, ⟨disk, hrun⟩, Or.inl rfl⟩
    · have hnext : build.Next
          { build with phase := .reading stderr, compiled := some server.disk } :=
        ⟨rfl, rfl, by simp⟩
      exact hserver.set hbuild hrunning hnext rfl (foundManifest_congr rfl htext)
        (fun _ _ ↦ sameSources_cargoBuildSbf hname hrun) (fun _ ↦ htext)
        ⟨server.disk, rfl, ⟨hown.library, hown.files⟩, ⟨disk, hrun⟩,
          sameSources_cargoBuildSbf hname hrun⟩

/-- A build reads `lib.rs` and responds. -/
theorem isolated_readOutput {server : State Idl} {index : ℕ} {build : Build Idl} {stderr : Str}
    (hserver : Isolated environment server) (hbuild : server.builds[index]? = some build)
    (hphase : build.phase = .reading stderr) :
    Isolated environment (readOutput environment server index build stderr) := by
  have hrunning : build.Running := fun answer hanswer ↦ by simp [hphase] at hanswer
  have hright := hserver.right build (List.mem_of_getElem? hbuild)
  simp only [Build.Right, hphase] at hright
  obtain ⟨disk, hcompiled, hown, hrun, hsources⟩ := hright
  unfold readOutput
  split
  · exact hserver.set hbuild hrunning (build.next_answered _ build.compiled) rfl rfl
      (fun _ _ _ _ ↦ rfl) (fun _ ↦ rfl) (Build.right_of_no_response (by simp))
  next lib hlib =>
    refine hserver.set hbuild hrunning (build.next_answered _ build.compiled) rfl rfl
      (fun _ _ _ _ ↦ rfl) (fun _ ↦ rfl) ?_
    intro response hresponse
    obtain rfl := Answer.response.inj (Phase.answered.inj hresponse)
    exact ⟨disk, hcompiled, ⟨hown.library, hown.files⟩, stderr, hrun,
      Or.inr ⟨server.disk, lib, hsources, hlib, rfl⟩⟩

/-- A step of a build fails. -/
theorem isolated_fail {server after : State Idl} {index : ℕ} {build : Build Idl}
    (hserver : Isolated environment server) (hbuild : server.builds[index]? = some build)
    (hstep : fail workingDir server index build = some after) :
    Isolated environment after := by
  have hrunning : build.Running := by
    intro answer hanswer
    simp [fail, hanswer] at hstep
  obtain ⟨answer, manifest, rfl, hanswer, hmanifest⟩ := fail_cases hstep
  have hfound : State.foundManifest workingDir
      ({ server with manifest := manifest }.answer index build answer) =
        server.foundManifest workingDir := by
    rcases hmanifest with rfl | rfl
    · rfl
    · rw [hserver.found]
      rfl
  refine hserver.set hbuild hrunning (build.next_answered answer build.compiled) rfl hfound
    (fun _ _ _ _ ↦ rfl) (fun _ ↦ rfl) (Build.right_of_no_response ?_)
  rcases hanswer with rfl | rfl <;> simp

/-- Every step that disturbs no build keeps the builds isolated. -/
theorem isolated_step (server : State Idl) (event : Event) (after : State Idl)
    (hserver : Isolated environment server)
    (hguard : concurrent environment server event ∧ undisturbed server event)
    (hstep : StepsTo (step environment) server event after) : Isolated environment after := by
  cases event with
  | build request =>
    have haccepted := accepted_step hserver.accepted hstep
    unfold StepsTo step at hstep
    cases hstart : startBuild environment server request with
    | error message =>
      simp only [hstart, Option.some.injEq] at hstep
      subst hstep
      exact ⟨haccepted, hserver.distinct, hserver.found, hserver.right⟩
    | ok build =>
      simp only [hstart, Option.some.injEq] at hstep
      subst hstep
      obtain ⟨-, -, hfiles, hphase, -⟩ := startBuild_eq_ok hstart
      have hdifferent := hguard.1 build hstart
      refine ⟨haccepted, ?_, hserver.found, ?_⟩
      · have hcases : ∀ (position : ℕ) (other : Build Idl),
            (server.builds ++ [build])[position]? = some other →
              server.builds[position]? = some other ∨
                position = server.builds.length ∧ other = build := by
          intro position other hother
          by_cases hposition : position < server.builds.length
          · rw [List.getElem?_append_left hposition] at hother
            exact Or.inl hother
          · have hlength := (List.getElem?_eq_some_iff.mp hother).1
            rw [List.length_append, List.length_singleton] at hlength
            obtain rfl : position = server.builds.length := by omega
            rw [List.getElem?_concat_length] at hother
            exact Or.inr ⟨rfl, (Option.some.inj hother).symm⟩
        intro first second one other hone hother honeRun hotherRun hname
        rcases hcases first one hone with honeOld | ⟨hfirst, honeNew⟩
        · rcases hcases second other hother with hotherOld | ⟨-, hotherNew⟩
          · exact hserver.distinct first second one other honeOld hotherOld honeRun hotherRun hname
          · rw [hotherNew] at hname
            exact absurd hname (hdifferent one (List.mem_of_getElem? honeOld) honeRun)
        · rcases hcases second other hother with hotherOld | ⟨hsecond, -⟩
          · rw [honeNew] at hname
            exact absurd hname.symm (hdifferent other (List.mem_of_getElem? hotherOld) hotherRun)
          · rw [hfirst, hsecond]
      · intro other hother
        rcases List.mem_append.mp hother with hmem | hmem
        · exact (hserver.right other hmem).frame (hserver.accepted other hmem)
            (fun _ _ _ ↦ rfl) fun _ ↦ rfl
        · rw [List.mem_singleton.mp hmem]
          simp only [Build.Right, hphase]
          refine ⟨[], hfiles, fun place content hcontent ↦ ?_⟩
          simp [contentAt] at hcontent
  | advance index =>
    obtain ⟨build, hbuild, hstep⟩ := Option.bind_eq_some_iff.mp hstep
    unfold advance at hstep
    cases hphase : build.phase with
    | writing files =>
      cases files with
      | nil =>
        simp only [hphase, Option.some.injEq] at hstep
        rw [← hstep]
        exact isolated_updateManifest hserver hbuild hphase (hguard.2 build hbuild hphase)
      | cons file rest =>
        simp only [hphase, Option.some.injEq] at hstep
        rw [← hstep]
        exact isolated_writeFile hserver hbuild hphase
    | compiling =>
      simp only [hphase, Option.some.injEq] at hstep
      rw [← hstep]
      exact isolated_runCompiler hserver hbuild hphase
    | reading stderr =>
      simp only [hphase, Option.some.injEq] at hstep
      rw [← hstep]
      exact isolated_readOutput hserver hbuild hphase
    | answered answer => simp [hphase] at hstep
  | fail index =>
    obtain ⟨build, hbuild, hstep⟩ := Option.bind_eq_some_iff.mp hstep
    exact isolated_fail hserver hbuild hstep
  | deploy programName =>
    obtain rfl := Option.some.inj hstep
    exact ⟨hserver.accepted, hserver.distinct, hserver.found, fun build hbuild ↦
      (hserver.right build hbuild).frame (hserver.accepted build hbuild) (fun _ _ _ ↦ rfl)
        fun _ ↦ rfl⟩
  | restart => exact hguard.1.elim

/-- A server that has just been installed. -/
theorem isolated_start {disk : Disk} (hdisk : Installed workingDir disk) :
    Isolated environment (start disk) where
  accepted := by simp [start]
  distinct := by simp [start]
  found := hdisk
  right := by simp [start]

/-- Builds stay isolated in every run in which none is disturbed. -/
theorem isolated_of_run {disk : Disk} (hdisk : Installed workingDir disk) {events : List Event}
    {server : State Idl}
    (hrun : Run (Guarded (StepsTo (step environment)) fun server event ↦
      concurrent environment server event ∧ undisturbed server event) (start disk) events server) :
    Isolated environment server :=
  hrun.invariant_guarded isolated_step (isolated_start hdisk)

/-! ### Disturbed builds -/

/-- The compiler is run for a build on the disk as it is. -/
theorem builds_runCompiler (server : State Idl) (index : ℕ) (build : Build Idl) :
    ∃ phase, (runCompiler environment server index build).builds =
      server.builds.set index { build with phase := phase, compiled := some server.disk } := by
  unfold runCompiler
  split
  · exact ⟨_, rfl⟩
  · exact ⟨_, rfl⟩
  · dsimp only
    split
    · exact ⟨_, rfl⟩
    · exact ⟨_, rfl⟩

/-- A build that writes the manifest while another one has the compiler before it makes the compiler,
when it is run for the other one, find the path of the wrong library. -/
theorem not_hasOwnFiles_of_disturbed {server after : State Idl} {index : ℕ}
    (hserver : Isolated environment server) (hbreak : ¬ undisturbed server (.advance index))
    (hstep : step environment server (.advance index) = some after) :
    ∃ position last build disk, step environment after (.advance position) = some last ∧
      last.builds[position]? = some build ∧ build.compiled = some disk ∧
        ¬ HasOwnFiles workingDir build disk := by
  simp only [undisturbed, not_forall, not_not] at hbreak
  obtain ⟨build, hbuild, hphase, other, hother, hcompiling⟩ := hbreak
  obtain ⟨position, hposition, hget⟩ := List.getElem_of_mem hother
  have hget : server.builds[position]? = some other :=
    List.getElem?_eq_some_iff.mpr ⟨hposition, hget⟩
  have hrunning : build.Running := fun answer hanswer ↦ by simp [hphase] at hanswer
  have hotherRunning : other.Running := fun answer hanswer ↦ by simp [hcompiling] at hanswer
  have hindex : index ≠ position := by
    rintro rfl
    rw [hbuild, Option.some.injEq] at hget
    rw [hget, hcompiling] at hphase
    contradiction
  have hname : build.programName ≠ other.programName := fun heq ↦
    hindex (hserver.distinct index position build other hbuild hget hrunning hotherRunning heq)
  obtain rfl : updateManifest workingDir server index build = after := by
    simpa [step, hbuild, advance, hphase] using hstep
  have hbuilds : (updateManifest workingDir server index build).builds[position]? =
      some other := by
    simp only [updateManifest, hserver.found, State.setBuild, State.write, State.access]
    rw [List.getElem?_set_ne hindex, hget]
  have htext : readToString (updateManifest workingDir server index build).disk
      (manifestPlace workingDir) = some (cargoToml build.programName) := by
    simp only [updateManifest, hserver.found, readToString, State.setBuild, State.write,
      Function.update_self, fillManifest_placeholder]
  obtain ⟨phase, hset⟩ := @builds_runCompiler _ _ environment
    (updateManifest workingDir server index build) position other
  refine ⟨position, runCompiler environment (updateManifest workingDir server index build) position
    other, { other with
      phase := phase, compiled := some (updateManifest workingDir server index build).disk },
    (updateManifest workingDir server index build).disk, ?_, ?_, rfl, ?_⟩
  · simp [step, hbuilds, advance, hcompiling]
  · rw [hset, List.getElem?_set_self (List.getElem?_eq_some_iff.mp hbuilds).1]
  · intro hown
    have hlibrary := hown.library
    rw [htext, Option.bind_some, libraryPath_cargoToml
      (Or.inr (hserver.accepted build (List.mem_of_getElem? hbuild)).uuid), Option.some.injEq,
      librarySource, librarySource, List.append_left_inj] at hlibrary
    exact hname hlibrary

/-- Assumes: a disk with the manifest of the repository. In every run of concurrent builds in which no
build writes the manifest while another one has the compiler before it, every build that responds is
built from its own files. A build that does write it makes the compiler, when it is run for the
other one, find the path of the wrong library. -/
theorem builtFromOwn_of_undisturbed {disk : Disk} (hdisk : Installed workingDir disk) :
    (∀ events (server : State Idl),
      Run (Guarded (StepsTo (step environment)) fun server event ↦
        concurrent environment server event ∧ undisturbed server event) (start disk) events server →
          ∀ build ∈ server.builds, BuiltFromOwn environment build) ∧
    ∀ events (server : State Idl) index after,
      Run (Guarded (StepsTo (step environment)) fun server event ↦
        concurrent environment server event ∧ undisturbed server event) (start disk) events server →
          ¬ undisturbed server (.advance index) →
            step environment server (.advance index) = some after →
              ∃ position last build disk, step environment after (.advance position) = some last ∧
                last.builds[position]? = some build ∧ build.compiled = some disk ∧
                  ¬ HasOwnFiles workingDir build disk := by
  constructor
  · intro events server hrun build hbuild response hresponse
    have hright := (isolated_of_run hdisk hrun).right build hbuild
    simp only [Build.Right, hresponse] at hright
    exact hright response hresponse
  · intro events server index after hrun hbreak hstep
    exact not_hasOwnFiles_of_disturbed (isolated_of_run hdisk hrun) hbreak hstep

end

/-! ### Two programs -/

/-- A build's program, what it has come to, and the path of the library in the manifest that it has
been compiled with. -/
def Build.outcome {Idl : Type} (workingDir : Place) (build : Build Idl) :
    Str × Phase Idl × Option Str :=
  (build.programName, build.phase, (build.compiled.bind fun disk ↦
    readToString disk (manifestPlace workingDir)).bind libraryPath)

/-- A request for a program with the file `/src/lib.rs` and no other. -/
def libraryRequest (uuid content : Str) : BuildRequest where
  files := [(librarySuffix, content)]
  uuid := some uuid
  flags := none

/-- The build that such a request starts. -/
def libraryBuild (uuid content : Str) : Build Unit where
  programName := uuid
  respondWithUuid := false
  files := [(librarySuffix, content)]
  options := buildOptions none
  phase := .writing [(librarySuffix, content)]
  compiled := none

/-- A request for a program with the file `/src/lib.rs` starts its build. -/
theorem startBuild_libraryRequest (server : State Unit) {uuid : Str} (content : Str)
    (huuid : isUuidText uuid = true) :
    startBuild (copyingEnvironment []) server (libraryRequest uuid content) =
      .ok (libraryBuild uuid content) := by
  have hpath : isPathValid isWordChar librarySuffix = true := by decide +kernel
  have hall : ([(librarySuffix, content)].all fun file ↦ isPathValid isWordChar file.1) = true := by
    simp [hpath]
  have hfew : ¬ maxFileAmount < [(librarySuffix, content)].length := by simp [maxFileAmount]
  have hfiles : checkFiles (copyingEnvironment []) [(librarySuffix, content)] = .ok () := by
    rw [checkFiles, if_neg hfew]
    exact if_pos hall
  exact startBuild_of_valid none huuid hfiles

/-- The server with the builds of two programs. -/
def twoBuilds : State Unit :=
  ((start installedDisk).addBuild (libraryBuild sampleUuid "a".toList)).addBuild
    (libraryBuild otherUuid "b".toList)

/-- The requests for two programs start their builds. -/
theorem run_two_requests :
    Run (Guarded (StepsTo (step (copyingEnvironment [])))
      fun server event ↦ concurrent (copyingEnvironment []) server event ∧ undisturbed server event)
      (start installedDisk)
      ([.build (libraryRequest sampleUuid "a".toList)] ++ [.build (libraryRequest otherUuid "b".toList)])
      twoBuilds := by
  have hstart := startBuild_libraryRequest (start installedDisk) "a".toList
    (show isUuidText sampleUuid = true by decide +kernel)
  have hnext := startBuild_libraryRequest
    ((start installedDisk).addBuild (libraryBuild sampleUuid "a".toList)) "b".toList
    (show isUuidText otherUuid = true by decide +kernel)
  have hfirst : step (copyingEnvironment []) (start installedDisk)
      (.build (libraryRequest sampleUuid "a".toList)) =
        some ((start installedDisk).addBuild (libraryBuild sampleUuid "a".toList)) := by
    simp only [step, hstart]
  have hsecond : step (copyingEnvironment [])
      ((start installedDisk).addBuild (libraryBuild sampleUuid "a".toList))
      (.build (libraryRequest otherUuid "b".toList)) = some twoBuilds := by
    simp only [step, hnext, twoBuilds]
  refine (Run.single ⟨⟨fun _ _ _ hother ↦ absurd hother List.not_mem_nil, trivial⟩, hfirst⟩).snoc
    ⟨⟨fun build hbuild other hother _ ↦ ?_, trivial⟩, hsecond⟩
  rw [hnext] at hbuild
  rw [← Except.ok.inj hbuild, List.mem_singleton.mp hother]
  exact show sampleUuid ≠ otherUuid by decide +kernel

instance (server : State Unit) : (event : Event) → Decidable (undisturbed server event)
  | .advance index => inferInstanceAs (Decidable (∀ build ∈ server.builds[index]?,
      build.phase = .writing [] → ∀ other ∈ server.builds, other.phase ≠ .compiling))
  | .build _ | .fail _ | .deploy _ | .restart => .isTrue trivial

/-- Steps of builds that disturb no other build. -/
theorem run_undisturbed_advances {server after : State Unit} {steps : List ℕ}
    (hfold : (steps.map Event.advance).foldlM (fun state event ↦
      if undisturbed state event then step (copyingEnvironment []) state event else none) server =
        some after) :
    Run (Guarded (StepsTo (step (copyingEnvironment [])))
      fun server event ↦ concurrent (copyingEnvironment []) server event ∧ undisturbed server event)
      server (steps.map Event.advance) after := by
  obtain ⟨hrun, -⟩ := @Run.guarded_of_invariant _ _ _ (concurrent (copyingEnvironment []))
    (fun _ ↦ True) _ _ _ (Run.guarded_of_foldlM hfold) trivial
    (fun state _ event hevent ↦ by
      obtain ⟨index, -, rfl⟩ := List.mem_map.mp hevent
      trivial)
    (fun _ _ _ _ _ _ ↦ trivial)
  exact hrun.mono fun _ _ _ hstep ↦ ⟨⟨hstep.1, hstep.2.1⟩, hstep.2.2⟩

/-- Two builds that take turns, but write the manifest only while the other one has not got to the compiler
or is past it, respond and are built from their own files. -/
theorem builtFromOwn_of_undisturbed_two_builds :
    ∃ (server : State Unit) (first second : Build Unit), server.builds = [first, second] ∧
      first.programName ≠ second.programName ∧ ∀ build ∈ server.builds,
        (∃ response, build.phase = .answered (.response response)) ∧
          BuiltFromOwn (copyingEnvironment []) build := by
  have hoverall : (([0, 1, 0, 0, 1, 1, 0, 1].map Event.advance).foldlM (fun state event ↦
      if undisturbed state event then step (copyingEnvironment []) state event else none)
        twoBuilds).map (fun server ↦ server.builds.map fun build ↦ (build.programName, build.phase)) =
          some [(sampleUuid, .answered (.response ⟨[], none, none⟩)),
            (otherUuid, .answered (.response ⟨[], none, none⟩))] := by
    decide +kernel
  obtain ⟨server, hfold, hbuilds⟩ := Option.map_eq_some_iff.mp hoverall
  obtain ⟨first, rest, hall, hfirst, hrest⟩ := List.map_eq_cons_iff.mp hbuilds
  obtain ⟨second, rfl, hsecond⟩ := List.map_eq_singleton_iff.mp hrest
  obtain ⟨hfirstName, hfirstPhase⟩ := Prod.mk.inj hfirst
  obtain ⟨hsecondName, hsecondPhase⟩ := Prod.mk.inj hsecond
  have hrun := run_two_requests.append (run_undisturbed_advances hfold)
  refine ⟨server, first, second, hall, ?_, fun build hbuild ↦ ⟨?_, ?_⟩⟩
  · rw [hfirstName, hsecondName]
    exact show sampleUuid ≠ otherUuid by decide +kernel
  · rw [hall] at hbuild
    rcases List.mem_pair.mp hbuild with rfl | rfl
    · exact ⟨_, hfirstPhase⟩
    · exact ⟨_, hsecondPhase⟩
  · exact (builtFromOwn_of_undisturbed installed_installedDisk).1 _ server hrun build hbuild

/-- Two programs are built at the same time: the manifest is written for the second one before the
compiler is run for the first one, which compiles the second one's library and responds. -/
theorem not_builtFromOwn_of_interleaving :
    ¬ ∀ (events : List Event) (server : State Unit),
      Run (Guarded (StepsTo (step (copyingEnvironment []))) (concurrent (copyingEnvironment [])))
        (start installedDisk) events server →
          ∀ build ∈ server.builds, BuiltFromOwn (copyingEnvironment []) build := by
  intro hall
  have hrequests : Run
      (Guarded (StepsTo (step (copyingEnvironment []))) (concurrent (copyingEnvironment [])))
      (start installedDisk) _ twoBuilds :=
    run_two_requests.mono fun _ _ _ hstep ↦ ⟨hstep.1.1, hstep.2⟩
  have hsteps : ([Event.advance 0, .advance 0, .advance 1, .advance 1, .advance 0,
      .advance 0].foldlM (step (copyingEnvironment [])) twoBuilds).bind
            (fun server ↦ server.builds[0]?.map (Build.outcome [])) =
              some (sampleUuid, .answered (.response ⟨[], none, none⟩),
                some (librarySource otherUuid)) := by
    decide +kernel
  obtain ⟨server, hfold, houtcome⟩ := Option.bind_eq_some_iff.mp hsteps
  obtain ⟨build, hbuild, houtcome⟩ := Option.map_eq_some_iff.mp houtcome
  simp only [Build.outcome, Prod.mk.injEq] at houtcome
  obtain ⟨hname, hphase, hlibrary⟩ := houtcome
  obtain ⟨hrest, -⟩ := @Run.guarded_of_invariant (State Unit) Event _
    (concurrent (copyingEnvironment [])) (fun _ ↦ True) _ _ _ (Run.of_foldlM hfold) trivial
    (fun state _ label hlabel ↦ by
      have hadvance : ∃ index, label = .advance index := by
        simp only [List.mem_cons, List.not_mem_nil, or_false] at hlabel
        rcases hlabel with h | h | h | h | h | h <;> exact ⟨_, h⟩
      obtain ⟨index, rfl⟩ := hadvance
      trivial)
    (fun _ _ _ _ _ _ ↦ trivial)
  obtain ⟨disk, hcompiled, hown, -⟩ := hall _ server (hrequests.append hrest) build
    (List.mem_of_getElem? hbuild) _ hphase
  have hlibraryOwn := hown.library
  rw [hcompiled, Option.bind_some, hlibraryOwn, hname] at hlibrary
  exact absurd hlibrary (by decide +kernel)

end Playground.Server
