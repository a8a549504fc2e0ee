import Mathlib.Algebra.GroupWithZero.Nat
import Playground.Library.PosixPath
import Playground.Library.JavaScript
import Playground.Library.Runs

/-!
# Building and deploying programs on the server

`server/src/program.rs` and the routes `server/src/routes/build.rs` and `server/src/routes/deploy.rs`.
A build request that the route and the validation of `build` accept writes its files below
`programs/<uuid>`, rewrites the manifest `programs/Cargo.toml`, which all builds share, runs the
compiler and reads `lib.rs` again. The route runs `build` on a thread of its own, so that the steps of
several builds interleave: `State` holds the disk, the static `MANIFEST`, which is read from the disk
the first time a process gets to it, and the builds with the step each has come to. A restart loses the
builds and `MANIFEST` and keeps the disk.

`Environment` is what the server uses without containing it: the class `\w` of the regular
expressions, the parser and the generator of UUIDs, the compiler and the parser of IDLs, with what is
documented of them. `accesses` and `compiled` record what has happened and are read by no branch.

Not formalized here: writes that fail half way, the types of a request's JSON, the other routes, and
what the compiler leaves in its target directory.
-/

set_option autoImplicit false
set_option relaxedAutoImplicit false

namespace Playground.Server

open Library

/-! ### Files -/

/-- A place of the disk, as the components below the root. -/
abbrev Place := List Component

/-- What a file holds. -/
inductive Content
  | text (chars : Str)
  | binary (bytes : List UInt8)
  deriving DecidableEq

/-- The files of the disk. -/
abbrev Disk := Place → Option Content

/-- `fs::read_to_string`. -/
def readToString (disk : Disk) (place : Place) : Option Str :=
  match disk place with
  | some (.text chars) => some chars
  | _ => none

/-! ### Paths -/

/-- `PROGRAMS_DIR`. -/
def programsDir : Str :=
  "programs".toList

/-- `MAX_FILE_AMOUNT`. -/
def maxFileAmount : ℕ :=
  64

/-- `MAX_PATH_LENGTH`. -/
def maxPathLength : ℕ :=
  128

/-- `program_path`. -/
def programPath (programName : Str) : Str :=
  joinPath programsDir programName

/-- `item_path`: the slashes that a path begins with are left out. -/
def itemPath (programName path : Str) : Str :=
  joinPath (programPath programName) (path.dropWhile (· == '/'))

/-- `manifest_path`. -/
def manifestPath : Str :=
  joinPath programsDir "Cargo.toml".toList

/-- `lib_path`. -/
def libPath (programName : Str) : Str :=
  joinPath (joinPath (programPath programName) "src".toList) "lib.rs".toList

/-- `binary_path`. -/
def binaryPath (programName : Str) : Str :=
  joinPath (programPath programName) "solpg.so".toList

/-- The number of bytes of a string. -/
def byteLength (text : Str) : ℕ :=
  (text.map Char.utf8Size).sum

/-- `ALLOWED_REGEX`, for a class `\w`: the whole path is `/src/`, then one or more characters of the
class, slashes or hyphens, then `.rs`. -/
def isAllowed (isWordChar : Char → Bool) (path : Str) : Bool :=
  decide ("/src/".toList <+: path) && decide (".rs".toList <:+ path) && decide (9 ≤ path.length) &&
    ((path.drop 5).take (path.length - 8)).all fun char ↦
      isWordChar char || char == '/' || char == '-'

/-- The condition on the path of one file. -/
def isPathValid (isWordChar : Char → Bool) (path : Str) : Bool :=
  isAllowed isWordChar path && decide (byteLength path ≤ maxPathLength) &&
    !decide ("..".toList <:+: path) && !decide ("//".toList <:+: path)

/-! ### The text forms of a UUID -/

/-- A hexadecimal digit. -/
def isHexDigit (char : Char) : Bool :=
  char.isDigit || (decide ('a' ≤ char) && decide (char ≤ 'f')) ||
    (decide ('A' ≤ char) && decide (char ≤ 'F'))

/-- The form without hyphens. -/
def isSimple (text : Str) : Bool :=
  decide (text.length = 32) && text.all isHexDigit

/-- The form with hyphens. -/
def isHyphenated (text : Str) : Bool :=
  decide (text.length = 36) && text.zipIdx.all fun (char, index) ↦
    if [8, 13, 18, 23].contains index then char == '-' else isHexDigit char

/-- The forms of a UUID: simple, hyphenated, and hyphenated in braces or after `urn:uuid:`. -/
def isUuidText (text : Str) : Bool :=
  isSimple text || isHyphenated text ||
    (decide (text.head? = some '\x7b' ∧ text.getLast? = some '\x7d') &&
      isHyphenated text.tail.dropLast) ||
    (decide ("urn:uuid:".toList <+: text) && isHyphenated (text.drop 9))

/-! ### Requests -/

/-- `BuildFlags`. -/
structure BuildFlags where
  seedsFeature : Option Bool
  noDocs : Option Bool
  safetyChecks : Option Bool
  deriving DecidableEq

/-- `BuildRequest`. A file is its path and its content. -/
structure BuildRequest where
  files : List (Str × Str)
  uuid : Option Str
  flags : Option BuildFlags
  deriving DecidableEq

/-- The arguments of `build` that stand for the flags, with their defaults. -/
structure BuildOptions where
  seedsFeature : Bool
  noDocs : Bool
  safetyChecks : Bool
  deriving DecidableEq

/-- The defaults of the flags. -/
def buildOptions (flags : Option BuildFlags) : BuildOptions where
  seedsFeature := (flags.bind BuildFlags.seedsFeature).getD false
  noDocs := (flags.bind BuildFlags.noDocs).getD true
  safetyChecks := (flags.bind BuildFlags.safetyChecks).getD false

/-! ### What the server uses -/

/-- The place of the manifest. -/
def manifestPlace (workingDir : Place) : Place :=
  locate workingDir manifestPath

/-- The places below the `src` directory of a program. -/
def IsSource (workingDir place : Place) : Prop :=
  ∃ name rest, place = workingDir ++ programsDir :: name :: "src".toList :: rest

/-- What the server uses: the class `\w`, the parser and the generator of UUIDs, `cargo-build-sbf`,
which may fail to start and whose output may not be text, and the parser of IDLs. The documentation
of the UUIDs lists their forms; the compiler writes to its target and output directories and leaves
the manifest and the sources alone. -/
structure Environment (Idl : Type) (workingDir : Place) where
  isWordChar : Char → Bool
  tryParse : Str → Bool
  newV4 : ℕ → Str
  cargoBuildSbf : Disk → Str → Str → Option (Option Str × Disk)
  parseIdl : Disk → Str → BuildOptions → Except Str Idl
  isUuidText_of_tryParse : ∀ text, tryParse text = true → isUuidText text = true
  isHyphenated_newV4 : ∀ count, isHyphenated (newV4 count) = true
  cargoBuildSbf_keeps : ∀ before programName stderr after, IsComponent programName →
    cargoBuildSbf before manifestPath (programPath programName) = some (stderr, after) → ∀ place,
      place = manifestPlace workingDir ∨ IsSource workingDir place → after place = before place

/-! ### The server -/

/-- `BuildResponse`. -/
structure BuildResponse (Idl : Type) where
  stderr : Str
  uuid : Option Str
  idl : Option Idl
  deriving DecidableEq

/-- What a build answers. -/
inductive Answer (Idl : Type)
  | response (response : BuildResponse Idl)
  | error (message : Str)
  | ioError
  | panicked
  deriving DecidableEq

/-- What a build has come to: the files it has still to write, with the manifest after the last of
them, the compiler, the reading of `lib.rs`, or its answer. -/
inductive Phase (Idl : Type)
  | writing (files : List (Str × Str))
  | compiling
  | reading (stderr : Str)
  | answered (answer : Answer Idl)
  deriving DecidableEq

/-- A build: the arguments of `build`, whether the response has the UUID, what the build has come to,
and the disk on which the compiler has been run for it. -/
structure Build (Idl : Type) where
  programName : Str
  respondWithUuid : Bool
  files : List (Str × Str)
  options : BuildOptions
  phase : Phase Idl
  compiled : Option Disk

/-- What is accessed at a path. -/
inductive AccessKind
  | directory
  | file
  deriving DecidableEq

/-- An access for a request: the name of its program, and the path. -/
structure Access where
  programName : Str
  kind : AccessKind
  path : Str
  deriving DecidableEq

/-- The server. -/
structure State (Idl : Type) where
  disk : Disk
  manifest : Option Str
  builds : List (Build Idl)
  uuids : ℕ
  accesses : List Access

/-- What can happen to the server: a build request that reaches it, the next step of a build, a file
system call or command of a build that fails, a deploy request, or a restart. -/
inductive Event
  | build (request : BuildRequest)
  | advance (index : ℕ)
  | fail (index : ℕ)
  | deploy (programName : Str)
  | restart
  deriving DecidableEq

section

variable {Idl : Type} {workingDir : Place} (environment : Environment Idl workingDir)

/-- The UUID of a request, its own or a new one, and whether the response has it. -/
def requestUuid (server : State Idl) (request : BuildRequest) : Except Str (Str × Bool) :=
  match request.uuid with
  | some uuid => if environment.tryParse uuid then .ok (uuid, false) else .error "Invalid UUID".toList
  | none => .ok (environment.newV4 server.uuids, true)

/-- The checks of `build`. -/
def checkFiles (files : List (Str × Str)) : Except Str Unit :=
  if maxFileAmount < files.length then .error "Exceeded maximum file amount(64)".toList
  else if files.all fun file ↦ isPathValid environment.isWordChar file.1 then .ok ()
  else .error "Invalid path".toList

/-- The build that a request starts, or the error it is refused with. -/
def startBuild (server : State Idl) (request : BuildRequest) : Except Str (Build Idl) := do
  let (uuid, respondWithUuid) ← requestUuid environment server request
  checkFiles environment request.files
  return {
    programName := uuid
    respondWithUuid := respondWithUuid
    files := request.files
    options := buildOptions request.flags
    phase := .writing request.files
    compiled := none }

/-- The placeholder in the manifest. -/
def placeholder : Str :=
  "default".toList

/-- `replacen` with the name of the program for the placeholder, once. -/
def fillManifest (manifest programName : Str) : Str :=
  match splitFirst placeholder manifest with
  | none => manifest
  | some (before, after) => before ++ programName ++ after

/-- What `MANIFEST.get_or_init` returns. -/
def State.foundManifest (workingDir : Place) (server : State Idl) : Option Str :=
  match server.manifest with
  | some manifest => some manifest
  | none => readToString server.disk (manifestPlace workingDir)

/-- A build begins. -/
def State.addBuild (server : State Idl) (build : Build Idl) : State Idl :=
  { server with builds := server.builds ++ [build], uuids := server.uuids + 1 }

/-- A build goes on. -/
def State.setBuild (server : State Idl) (index : ℕ) (build : Build Idl) : State Idl :=
  { server with builds := server.builds.set index build }

/-- A build answers. -/
def State.answer (server : State Idl) (index : ℕ) (build : Build Idl) (answer : Answer Idl) :
    State Idl :=
  server.setBuild index { build with phase := .answered answer }

/-- A build responds with the output of the compiler and the IDL. -/
def State.respond (server : State Idl) (index : ℕ) (build : Build Idl)
    (output : Str × Option Idl) : State Idl :=
  server.answer index build (.response {
    stderr := output.1
    uuid := if build.respondWithUuid then some build.programName else none
    idl := output.2 })

/-- Record the paths that a step accesses. -/
def State.access (server : State Idl) (programName : Str)
    (paths : List (AccessKind × Str)) : State Idl :=
  { server with
    accesses := server.accesses ++ paths.map fun (kind, path) ↦ ⟨programName, kind, path⟩ }

/-- `fs::write`. -/
def State.write (server : State Idl) (place : Place) (content : Str) : State Idl :=
  { server with disk := Function.update server.disk place (some (.text content)) }

/-- What `build` returns once the compiler has succeeded and `lib.rs` has been read. -/
def outputOf (stderr lib : Str) (parsed : Except Str Idl) : Str × Option Idl :=
  if "anchor_lang".toList <:+: lib then
    match parsed with
    | .error message => ("Error: ".toList ++ message, none)
    | .ok idl => (stderr, some idl)
  else (stderr, none)

/-- Create the directories of the first of the remaining files, and write it. -/
def writeFile (workingDir : Place) (server : State Idl) (index : ℕ) (build : Build Idl)
    (file : Str × Str) (rest : List (Str × Str)) : State Idl :=
  let path := itemPath build.programName file.1
  match parentPath path with
  | none => server.answer index build .panicked
  | some parent =>
    ((server.access build.programName [(.directory, parent), (.file, path)]).write
      (locate workingDir path) file.2).setBuild index { build with phase := .writing rest }

/-- Fill `MANIFEST` if it is not, and write the manifest. -/
def updateManifest (workingDir : Place) (server : State Idl) (index : ℕ) (build : Build Idl) :
    State Idl :=
  let accessed := server.access build.programName [(.file, manifestPath)]
  match server.foundManifest workingDir with
  | none => accessed.answer index build .panicked
  | some manifest =>
    ({ accessed with manifest := some manifest }.write (manifestPlace workingDir)
      (fillManifest manifest build.programName)).setBuild index { build with phase := .compiling }

/-- Run the compiler. -/
def runCompiler (server : State Idl) (index : ℕ) (build : Build Idl) : State Idl :=
  let accessed := server.access build.programName
    [(.file, manifestPath), (.directory, programPath build.programName)]
  let run := { build with compiled := some server.disk }
  match environment.cargoBuildSbf server.disk manifestPath (programPath build.programName) with
  | none => accessed.answer index run .ioError
  | some (none, disk) =>
    { accessed with disk := disk }.answer index run (.error "invalid utf-8 sequence".toList)
  | some (some stderr, disk) =>
    if "error: could not compile".toList <:+: stderr then
      { accessed with disk := disk }.respond index run (stderr, none)
    else { accessed with disk := disk }.setBuild index { run with phase := .reading stderr }

/-- Read `lib.rs` and respond. -/
def readOutput (server : State Idl) (index : ℕ) (build : Build Idl) (stderr : Str) : State Idl :=
  let accessed := server.access build.programName [(.file, libPath build.programName)]
  match readToString server.disk (locate workingDir (libPath build.programName)) with
  | none => accessed.answer index build .ioError
  | some lib =>
    accessed.respond index build
      (outputOf stderr lib
        (environment.parseIdl server.disk (libPath build.programName) build.options))

/-- The next step of a build. -/
def advance (server : State Idl) (index : ℕ) (build : Build Idl) : Option (State Idl) :=
  match build.phase with
  | .writing (file :: rest) => some (writeFile workingDir server index build file rest)
  | .writing [] => some (updateManifest workingDir server index build)
  | .compiling => some (runCompiler environment server index build)
  | .reading stderr => some (readOutput environment server index build stderr)
  | .answered _ => none

/-- The next step of a build, when its file system call or its command fails. The manifest has been
found before it is written. -/
def fail (workingDir : Place) (server : State Idl) (index : ℕ) (build : Build Idl) :
    Option (State Idl) :=
  match build.phase with
  | .writing [] => some (
    match server.foundManifest workingDir with
    | none => server.answer index build .panicked
    | some manifest => { server with manifest := some manifest }.answer index build .ioError)
  | .writing (_ :: _) | .compiling | .reading _ => some (server.answer index build .ioError)
  | .answered _ => none

/-- `get_binary`: `program.rs` reads what the route is given, whatever that is. -/
def getBinary (workingDir : Place) (server : State Idl) (programName : Str) : Option Content :=
  server.disk (locate workingDir (binaryPath programName))

/-- One event. -/
def step (server : State Idl) : Event → Option (State Idl)
  | .build request =>
    match startBuild environment server request with
    | .error _ => some { server with uuids := server.uuids + 1 }
    | .ok build => some (server.addBuild build)
  | .advance index => server.builds[index]?.bind fun build ↦ advance environment server index build
  | .fail index => server.builds[index]?.bind fun build ↦ fail workingDir server index build
  | .deploy programName => some (server.access programName [(.file, binaryPath programName)])
  | .restart => some { server with manifest := none, builds := [] }

end

/-- The server when it is started on a disk. -/
def start {Idl : Type} (disk : Disk) : State Idl where
  disk := disk
  manifest := none
  builds := []
  uuids := 0
  accesses := []

end Playground.Server
