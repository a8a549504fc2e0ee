import Playground.Server.Manifest

/-!
# The paths that the server accesses

Every path that `server/src/program.rs` accesses for a request is in `accesses`. `Access.Confined` says
that it leads below the directory of the request's program, and that this directory lies directly
below `programs`. The paths of a build that is not refused are confined, except the one of the manifest,
which all builds share (`confined_or_manifestPath`). A deploy request is not looked at: the route takes
any name, so that `..` leads out of `programs` (`not_confined_of_requests`).
-/

set_option autoImplicit false
set_option relaxedAutoImplicit false

namespace Playground.Server

open Library

section

variable {Idl : Type} {workingDir : Place} {environment : Environment Idl workingDir}

/-- The directory of the program lies directly below `programs`, and the path leads below it; only a
directory that is created or given to the compiler may be it itself. -/
structure Access.Confined (workingDir : Place) (access : Access) : Prop where
  program_directory : locate workingDir (programPath access.programName) =
    workingDir ++ [programsDir, access.programName]
  below : ∃ rest, locate workingDir access.path =
    workingDir ++ programsDir :: access.programName :: rest ∧ (access.kind = .file → rest ≠ [])

/-- An access to a path below the directory of a program. -/
theorem confined_of_locate {programName path : Str} {kind : AccessKind} {rest : List Component}
    (hname : IsComponent programName)
    (hpath : locate workingDir path = workingDir ++ programsDir :: programName :: rest)
    (hrest : kind = .file → rest ≠ []) : Access.Confined workingDir ⟨programName, kind, path⟩ where
  program_directory := locate_programPath workingDir hname
  below := ⟨rest, hpath, hrest⟩

/-- The binary of a program is confined. -/
theorem confined_binaryPath {programName : Str} (hname : IsComponent programName) :
    Access.Confined workingDir ⟨programName, .file, binaryPath programName⟩ :=
  confined_of_locate hname (locate_binaryPath workingDir hname) (by simp)

/-- The access of a build that writes the manifest. -/
theorem accesses_updateManifest (server : State Idl) (index : ℕ) (build : Build Idl) :
    (updateManifest workingDir server index build).accesses =
      server.accesses ++ [⟨build.programName, .file, manifestPath⟩] := by
  unfold updateManifest
  cases server.foundManifest workingDir with
  | none => rfl
  | some manifest => rfl

/-- The accesses of the next step of a build. -/
theorem accesses_advance {server after : State Idl} {index : ℕ} {build : Build Idl}
    (hbuild : build.Accepted environment)
    (hstep : advance environment server index build = some after) :
    ∃ new, after.accesses = server.accesses ++ new ∧
      ∀ access ∈ new, access.path = manifestPath ∨ access.Confined workingDir := by
  have hname := hbuild.isComponent
  unfold advance at hstep
  cases hphase : build.phase with
  | writing files =>
    cases files with
    | nil =>
      simp only [hphase, Option.some.injEq] at hstep
      refine ⟨[⟨build.programName, .file, manifestPath⟩], ?_, by simp⟩
      rw [← hstep, accesses_updateManifest]
    | cons file rest =>
      simp only [hphase, Option.some.injEq] at hstep
      have hvalid := hbuild.files file ((hbuild.remaining _ hphase).mem List.mem_cons_self)
      obtain ⟨parent, hparent, hlocate⟩ := locate_parentPath_itemPath workingDir hname hvalid
      obtain ⟨names, hnames⟩ := itemNames_of_isPathValid hvalid
      refine ⟨[⟨build.programName, .directory, parent⟩,
        ⟨build.programName, .file, itemPath build.programName file.1⟩], ?_, ?_⟩
      · rw [← hstep]
        simp only [writeFile, hparent]
        rfl
      · intro access haccess
        simp only [List.mem_cons, List.not_mem_nil, or_false] at haccess
        rcases haccess with rfl | rfl
        · exact Or.inr (confined_of_locate hname hlocate (by simp))
        · refine Or.inr (confined_of_locate hname (locate_itemPath workingDir hname hvalid) ?_)
          simp [hnames]
  | compiling =>
    simp only [hphase, Option.some.injEq] at hstep
    refine ⟨[⟨build.programName, .file, manifestPath⟩,
      ⟨build.programName, .directory, programPath build.programName⟩], ?_, ?_⟩
    · rw [← hstep, runCompiler]
      split
      · rfl
      · rfl
      · dsimp only
        split <;> rfl
    · intro access haccess
      simp only [List.mem_cons, List.not_mem_nil, or_false] at haccess
      rcases haccess with rfl | rfl
      · exact Or.inl rfl
      · exact Or.inr (confined_of_locate hname (locate_programPath workingDir hname) (by simp))
  | reading stderr =>
    simp only [hphase, Option.some.injEq] at hstep
    refine ⟨[⟨build.programName, .file, libPath build.programName⟩], ?_, ?_⟩
    · rw [← hstep, readOutput]
      split <;> rfl
    · intro access haccess
      rw [List.mem_singleton.mp haccess]
      exact Or.inr (confined_of_locate hname (locate_libPath workingDir hname) (by simp))
  | answered answer => simp [hphase] at hstep

/-- What a step accesses is the manifest or confined, or it is for a deploy request whose name is not a
component. -/
theorem accesses_step {server after : State Idl} {event : Event}
    (hserver : ∀ build ∈ server.builds, build.Accepted environment)
    (hstep : step environment server event = some after) :
    ∃ new, after.accesses = server.accesses ++ new ∧ ∀ access ∈ new,
      access.path = manifestPath ∨ access.Confined workingDir ∨
        (event = .deploy access.programName ∧ ¬ IsComponent access.programName) := by
  cases event with
  | build request =>
    refine ⟨[], ?_, by simp⟩
    unfold step at hstep
    cases hstart : startBuild environment server request with
    | error message =>
      simp only [hstart, Option.some.injEq] at hstep
      rw [← hstep, List.append_nil]
    | ok build =>
      simp only [hstart, Option.some.injEq] at hstep
      rw [← hstep, List.append_nil]
      rfl
  | advance index =>
    obtain ⟨build, hbuild, hstep⟩ := Option.bind_eq_some_iff.mp hstep
    obtain ⟨new, haccesses, hnew⟩ :=
      accesses_advance (hserver build (List.mem_of_getElem? hbuild)) hstep
    refine ⟨new, haccesses, fun access haccess ↦ ?_⟩
    rcases hnew access haccess with hmanifest | hconfined
    · exact Or.inl hmanifest
    · exact Or.inr (Or.inl hconfined)
  | fail index =>
    obtain ⟨build, hbuild, hstep⟩ := Option.bind_eq_some_iff.mp hstep
    obtain ⟨answer, manifest, rfl, -, -⟩ := fail_cases hstep
    exact ⟨[], (List.append_nil _).symm, by simp⟩
  | deploy programName =>
    obtain rfl := Option.some.inj hstep
    refine ⟨[⟨programName, .file, binaryPath programName⟩], rfl, fun access haccess ↦ ?_⟩
    rw [List.mem_singleton.mp haccess]
    by_cases hname : IsComponent programName
    · exact Or.inr (Or.inl (confined_binaryPath hname))
    · exact Or.inr (Or.inr ⟨rfl, hname⟩)
  | restart =>
    obtain rfl := Option.some.inj hstep
    exact ⟨[], (List.append_nil _).symm, by simp⟩

/-- The builds of a run that begins without any have been accepted. -/
theorem accepted_of_run {disk : Disk} {events : List Event} {server : State Idl}
    (hrun : Run (StepsTo (step environment)) (start disk) events server) :
    ∀ build ∈ server.builds, build.Accepted environment :=
  hrun.invariant (fun _ _ _ hbefore hstep ↦ accepted_step hbefore hstep) (by simp [start])

/-- Every path that a run accesses for a build request, or for a deploy request whose UUID is a
component, is confined, or it is the path of the manifest. -/
theorem confined_or_manifestPath {disk : Disk} {events : List Event} {server : State Idl}
    (hrun : Run (StepsTo (step environment)) (start disk) events server) :
    ∀ access ∈ server.accesses,
      (Event.deploy access.programName ∈ events → IsComponent access.programName) →
        access.path = manifestPath ∨ access.Confined workingDir := by
  induction hrun with
  | nil => simp [start]
  | snoc hrun hstep ih =>
    intro access haccess hdeploy
    obtain ⟨new, haccesses, hnew⟩ := accesses_step (accepted_of_run hrun) hstep
    rw [haccesses] at haccess
    rcases List.mem_append.mp haccess with hmem | hmem
    · exact ih access hmem fun hevent ↦ hdeploy (List.mem_append_left _ hevent)
    · rcases hnew access hmem with hmanifest | hconfined | ⟨hevent, hname⟩
      · exact Or.inl hmanifest
      · exact Or.inr hconfined
      · exact absurd (hdeploy (by simp [hevent])) hname

end

/-- A request with the file `/src/lib.rs`. -/
def sampleRequest : BuildRequest where
  files := [("/src/lib.rs".toList, [])]
  uuid := some sampleUuid
  flags := none

/-- The accesses for a file that is written, and for the program when it is deployed, are confined. -/
theorem confined_or_manifestPath_deployed :
    ∃ server, Run (StepsTo (step (copyingEnvironment []))) (start installedDisk)
      [.build sampleRequest, .advance 0, .deploy sampleUuid] server ∧
        ⟨sampleUuid, .file, binaryPath sampleUuid⟩ ∈ server.accesses ∧
        ∀ access ∈ server.accesses, access.path = manifestPath ∨ access.Confined [] := by
  have hfiles : checkFiles (copyingEnvironment []) sampleRequest.files = .ok () := by
    decide +kernel
  have huuid : isUuidText sampleUuid = true := by decide +kernel
  have hbuild := @step_build _ _ (copyingEnvironment []) (start installedDisk) _ sampleUuid none
    huuid hfiles
  have hrun : Run (StepsTo (step (copyingEnvironment []))) (start installedDisk)
      [.build sampleRequest, .advance 0, .deploy sampleUuid] _ :=
    .cons hbuild (.cons rfl (.single rfl))
  refine ⟨_, hrun, List.mem_append_right _ (List.mem_singleton_self _), fun access haccess ↦
    confined_or_manifestPath hrun access haccess fun hdeploy ↦ ?_⟩
  have hname : access.programName = sampleUuid := by simpa using hdeploy
  rw [hname]
  exact isComponent_of_isUuidText huuid

/-- A build accesses the manifest, which does not lie below its program, and the name `..` of a deploy
request leads out of `programs`. -/
theorem not_confined_of_requests :
    (¬ ∀ server : State Unit, Run (StepsTo (step (copyingEnvironment []))) (start installedDisk)
      [.build ⟨[], some sampleUuid, none⟩, .advance 0] server →
        ∀ access ∈ server.accesses, access.Confined []) ∧
      ¬ ∀ server : State Unit, Run (StepsTo (step (copyingEnvironment []))) (start installedDisk)
        [.deploy "..".toList] server → ∀ access ∈ server.accesses, access.Confined [] := by
  constructor
  · intro hall
    have hbuild := @step_build _ _ (copyingEnvironment []) (start installedDisk) _ sampleUuid none
      (by decide +kernel) (show checkFiles (copyingEnvironment []) [] = .ok () from rfl)
    have hconfined := hall _ (.cons hbuild (.single rfl))
      ⟨sampleUuid, .file, manifestPath⟩ (by
        rw [accesses_updateManifest]
        exact List.mem_append_right _ (List.mem_singleton_self _))
    obtain ⟨rest, hpath, -⟩ := hconfined.below
    rw [← manifestPlace, manifestPlace_eq, List.nil_append, List.nil_append, List.cons.injEq,
      List.cons.injEq] at hpath
    exact absurd hpath.2.1 (by decide +kernel)
  · intro hall
    have hconfined := hall _ (.single rfl) ⟨"..".toList, .file, binaryPath "..".toList⟩
      (List.mem_singleton_self _)
    exact absurd hconfined.program_directory (by decide +kernel)

end Playground.Server
