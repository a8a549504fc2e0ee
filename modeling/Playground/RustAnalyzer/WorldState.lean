import Mathlib.Logic.Relation
import Mathlib.Order.Lattice.Nat
import Playground.Library.JavaScript
import Playground.Library.Store

/-!
# The world of the language server

`WorldState` of `wasm/rust-analyzer/src/world_state.rs`: the source roots with the ids of their files,
the texts of the files, and the graph of the crates. The first source root is that of the local crate,
each other one holds the only file of a dependency.

A local file whose name is `lib` has the id `0`, another one the id that its path has in some source
root, or the next one (`localFileId`). A dependency is added to the source roots and to the graph the
first time that it is loaded, and its own dependencies are added to it when their code is there, now or
later (`loadDependency`). What panics has no result.

The sets of files and the graph are those of other crates. What the code relies on of them is in
`FileSets` and `CrateGraphs`: the graph records the edges that it is given, unless one closes a cycle.

Not formalized here: what the analysis makes of the texts, snippets and completions, display names,
editions and procedural macros, how a manifest is parsed, and the parts of a crate's data that the graph
only stores.
-/

set_option autoImplicit false
set_option relaxedAutoImplicit false

namespace Playground.RustAnalyzer

open Library

/-! ### Files -/

/-- `FileId`. -/
abbrev FileId := ℕ

/-- `CrateId`. -/
abbrev CrateId := ℕ

/-- `VfsPath`. -/
abbrev VfsPath := Str

/-- `VfsPath::name_and_extension`, of which the file of a crate has the name `lib`. -/
structure NameAndExtension where
  nameAndExtension : VfsPath → Option (Str × Option Str)
  name_crate : ∀ crate : Str, ∃ extension,
    nameAndExtension ('/' :: crate ++ "/src/lib.rs".toList) = some ("lib".toList, extension)

/-- Sets of files: the id of each path, and the ids. A path that is inserted again gets the new id. -/
class FileSets where
  FileSet : Type
  default : FileSet
  insert : FileSet → FileId → VfsPath → FileSet
  fileForPath : FileSet → VfsPath → Option FileId
  iter : FileSet → Finset FileId
  fileForPath_default : ∀ path, fileForPath default path = none
  fileForPath_insert : ∀ fileSet fileId path other, fileForPath (insert fileSet fileId path) other =
    if other = path then some fileId else fileForPath fileSet other
  notMem_iter_default : ∀ fileId, fileId ∉ iter default
  mem_iter_insert : ∀ fileSet fileId path other,
    other ∈ iter (insert fileSet fileId path) ↔ other = fileId ∨ other ∈ iter fileSet

section

variable [FileSets]

/-- `FileSet`. -/
def FileSet : Type :=
  FileSets.FileSet

/-- `FileSet::default`. -/
def FileSet.default : FileSet :=
  FileSets.default

/-- `FileSet::insert`. -/
def FileSet.insert (fileSet : FileSet) (fileId : FileId) (path : VfsPath) : FileSet :=
  FileSets.insert fileSet fileId path

/-- `SourceRoot::file_for_path`. -/
def FileSet.fileForPath (fileSet : FileSet) (path : VfsPath) : Option FileId :=
  FileSets.fileForPath fileSet path

/-- `SourceRoot::iter`. -/
def FileSet.iter (fileSet : FileSet) : Finset FileId :=
  FileSets.iter fileSet

end

/-- `get_crate_path`. -/
def getCratePath (name : Str) : VfsPath :=
  '/' :: name ++ "/src/lib.rs".toList

/-! ### Crates -/

/-- Graphs of crates, each with the id of its root file. The id of a crate is its place. An edge between
two crates is recorded if the second one does not lead back to the first, and a crate is found by its
root file if no other crate has that file. A name without hyphens is the name of a crate. -/
class CrateGraphs where
  CrateGraph : Type
  default : CrateGraph
  addCrateRoot : CrateGraph → FileId → CrateGraph × CrateId
  addDep : CrateGraph → CrateId → Str × CrateId → Option CrateGraph
  crateIdForCrateRoot : CrateGraph → FileId → Option CrateId
  rootFileIds : CrateGraph → List FileId
  HasEdge : CrateGraph → CrateId → CrateId → Prop
  crateName : Str → Option Str
  rootFileIds_default : rootFileIds default = []
  not_hasEdge_default : ∀ first second, ¬ HasEdge default first second
  rootFileIds_addCrateRoot : ∀ graph fileId,
    rootFileIds (addCrateRoot graph fileId).1 = rootFileIds graph ++ [fileId]
  crateId_addCrateRoot : ∀ graph fileId, (addCrateRoot graph fileId).2 = (rootFileIds graph).length
  hasEdge_addCrateRoot : ∀ graph fileId first second,
    HasEdge (addCrateRoot graph fileId).1 first second ↔ HasEdge graph first second
  addDep_of_not_reflTransGen : ∀ graph crateId dependency, crateId < (rootFileIds graph).length →
    dependency.2 < (rootFileIds graph).length →
      ¬ Relation.ReflTransGen (HasEdge graph) dependency.2 crateId →
        ∃ after, addDep graph crateId dependency = some after ∧ rootFileIds after = rootFileIds graph ∧
          ∀ first second, HasEdge after first second ↔
            HasEdge graph first second ∨ first = crateId ∧ second = dependency.2
  crateIdForCrateRoot_eq : ∀ graph crateId fileId, (rootFileIds graph)[crateId]? = some fileId →
    (∀ other, (rootFileIds graph)[other]? = some fileId → other = crateId) →
      crateIdForCrateRoot graph fileId = some crateId
  crateName_eq : ∀ name, '-' ∉ name → crateName name = some name

section

variable [CrateGraphs]

/-- `CrateGraph`. -/
def CrateGraph : Type :=
  CrateGraphs.CrateGraph

/-- `CrateGraph::default`. -/
def CrateGraph.default : CrateGraph :=
  CrateGraphs.default

/-- `CrateGraph::add_crate_root`. -/
def CrateGraph.addCrateRoot (graph : CrateGraph) (rootFileId : FileId) : CrateGraph × CrateId :=
  CrateGraphs.addCrateRoot graph rootFileId

/-- `CrateGraph::add_dep`, unwrapped. -/
def CrateGraph.addDep (graph : CrateGraph) (crateId : CrateId) (dependency : Str × CrateId) :
    Option CrateGraph :=
  CrateGraphs.addDep graph crateId dependency

/-- `CrateGraph::crate_id_for_crate_root`. -/
def CrateGraph.crateIdForCrateRoot (graph : CrateGraph) (fileId : FileId) : Option CrateId :=
  CrateGraphs.crateIdForCrateRoot graph fileId

/-- The root files of the crates of a graph. -/
def CrateGraph.rootFileIds (graph : CrateGraph) : List FileId :=
  CrateGraphs.rootFileIds graph

/-- There is an edge from one crate to another. -/
def CrateGraph.HasEdge (graph : CrateGraph) (crateId depCrateId : CrateId) : Prop :=
  CrateGraphs.HasEdge graph crateId depCrateId

/-- `CrateName::new`, unwrapped. -/
def crateName (name : Str) : Option Str :=
  CrateGraphs.crateName name

end

variable [FileSets] [CrateGraphs]

/-- `create_source_root`. -/
def createSourceRoot (name : Str) (fileId : FileId) : FileSet :=
  FileSet.default.insert fileId (getCratePath name)

/-- `get_file_id`. -/
def getFileId (name : Str) (sourceRoots : List FileSet) : Option FileId :=
  sourceRoots.findSome? fun root ↦ root.fileForPath (getCratePath name)

/-- `get_crate_id`. -/
def getCrateId (name : Str) (sourceRoots : List FileSet) (crateGraph : CrateGraph) :
    Option CrateId :=
  (getFileId name sourceRoots).bind crateGraph.crateIdForCrateRoot

/-- `Manifest`, with the names of the dependencies. -/
structure Manifest where
  dependencies : List Str

/-! ### The state -/

/-- `WorldState`, with the texts of the database of its host. -/
structure WorldState where
  texts : Store FileId Str
  crateGraph : CrateGraph
  sourceRoots : List FileSet
  neededDeps : List (Str × List Str)
  fileId : FileId

/-- `LOCAL_FILE_ID`. -/
def localFileId₀ : FileId := 0

/-- `LOCAL_CRATE_ID`. -/
def localCrateId : CrateId := 0

/-- `DEFAULT_NAME`, the name of the local crate. -/
def localName : Str := "solpg".toList

/-- `CORE_NAME`. -/
def coreName : Str := "core".toList

/-- `ALLOC_NAME`. -/
def allocName : Str := "alloc".toList

/-- `STD_NAME`. -/
def stdName : Str := "std".toList

/-- The names of the crates that are there from the start, the local one first. -/
def defaultNames : List Str :=
  [localName, coreName, allocName, stdName]

/-- `WorldState::new`. -/
def WorldState.new : WorldState where
  texts := ∅
  crateGraph := .default
  sourceRoots := []
  neededDeps := []
  fileId := localFileId₀

/-- `WorldState::last_file_id`. -/
def WorldState.lastFileId (world : WorldState) : FileId :=
  (world.sourceRoots.map fun root ↦ root.iter.sup id).foldr max 0

/-- `WorldState::next_file_id`. -/
def WorldState.nextFileId (world : WorldState) : FileId :=
  world.lastFileId + 1

/-- `WorldState::file_id_from_path`. -/
def WorldState.fileIdFromPath (world : WorldState) (path : VfsPath) : Option FileId :=
  if world.sourceRoots.length = 0 then some localFileId₀
  else world.sourceRoots.findSome? fun root ↦ root.fileForPath path

/-! ### Loading -/

/-- `WorldState::load_default_crates`. -/
def WorldState.loadDefaultCrates (world : WorldState) (coreLib allocLib stdLib : Str) :
    Option WorldState := do
  let sourceRoots := [createSourceRoot localName localFileId₀,
    createSourceRoot coreName 1, createSourceRoot allocName 2,
    createSourceRoot stdName 3]
  let (graph, myCrateId) := world.crateGraph.addCrateRoot localFileId₀
  let (graph, coreCrateId) := graph.addCrateRoot 1
  let (graph, allocCrateId) := graph.addCrateRoot 2
  let (graph, stdCrateId) := graph.addCrateRoot 3
  let coreDep := (coreName, coreCrateId)
  let allocDep := (allocName, allocCrateId)
  let stdDep := (stdName, stdCrateId)
  let graph ← graph.addDep allocCrateId coreDep
  let graph ← graph.addDep stdCrateId coreDep
  let graph ← graph.addDep stdCrateId allocDep
  let graph ← graph.addDep myCrateId coreDep
  let graph ← graph.addDep myCrateId allocDep
  let graph ← graph.addDep myCrateId stdDep
  some { world with
    sourceRoots := sourceRoots
    crateGraph := graph
    texts := writeAll world.texts
      [(localFileId₀, []), (1, coreLib), (2, allocLib), (3, stdLib)] }

/-- The id of a local file. -/
def WorldState.localFileId (world : WorldState) (vfs : NameAndExtension) (path : VfsPath) :
    FileId :=
  match vfs.nameAndExtension path with
  | some (name, _) =>
    if name = "lib".toList then localFileId₀
    else (world.fileIdFromPath path).getD world.nextFileId
  | none => (world.fileIdFromPath path).getD world.nextFileId

/-- `WorldState::load_local_files`. A virtual path begins with a slash, and there has to be a first
source root. -/
def WorldState.loadLocalFiles (world : WorldState) (vfs : NameAndExtension)
    (files : List (Str × Str)) : Option WorldState :=
  if files.all fun file ↦ file.1.head? = some '/' then
    let fileSet := files.foldl
      (fun fileSet file ↦ fileSet.insert (world.localFileId vfs file.1) file.1) FileSet.default
    let changes := files.map fun file ↦ (world.localFileId vfs file.1, file.2)
    match world.sourceRoots with
    | [] => none
    | _ :: dependencies => some { world with
        sourceRoots := fileSet :: dependencies
        texts := writeAll world.texts changes }
  else none

/-- The edge of the local crate to a crate that is added, unless it is a transitive dependency. -/
def CrateGraph.addLocalDep (graph : CrateGraph) (name : Str) (crateId : CrateId)
    (transitive : Bool) : Option CrateGraph :=
  if transitive then some graph
  else (crateName name).bind fun name ↦ graph.addDep localCrateId (name, crateId)

/-- The file and the crate of a dependency, which are added if they are not there. Only then is the
dependency one of the local crate. -/
def WorldState.findOrAddCrate (world : WorldState) (name : Str) (transitive : Bool) :
    Option (WorldState × FileId × CrateId) :=
  match getFileId name world.sourceRoots with
  | some fileId => do
    let crateId ← getCrateId name world.sourceRoots world.crateGraph
    some (world, fileId, crateId)
  | none => do
    let fileId := world.nextFileId
    let (graph, crateId) := world.crateGraph.addCrateRoot fileId
    let graph ← graph.addLocalDep name crateId transitive
    some ({ world with
      sourceRoots := world.sourceRoots ++ [createSourceRoot name fileId]
      crateGraph := graph }, fileId, crateId)

/-- An edge to the crate of a name. -/
def WorldState.addDepTo (world : WorldState) (crateId : CrateId) (name : Str) :
    Option WorldState := do
  let depName ← crateName name
  let depCrateId ← getCrateId name world.sourceRoots world.crateGraph
  let graph ← world.crateGraph.addDep crateId (depName, depCrateId)
  some { world with crateGraph := graph }

/-- The dependencies that every crate has whose code is loaded. -/
def WorldState.addDefaultDeps (world : WorldState) (crateId : CrateId) (code : Option Str) :
    Option WorldState :=
  if code.isSome then
    [coreName, allocName, stdName].foldlM (fun world name ↦
      world.addDepTo crateId name) world
  else some world

/-- The name of a dependency as that of a crate. -/
def snakeCase (name : Str) : Str :=
  name.map fun char ↦ if char = '-' then '_' else char

/-- A dependency of a manifest is added if its code is there, and needed otherwise. The text is that
of the database, which has none for the file of a crate that is being added. -/
def WorldState.addManifestDep (crateId : CrateId) (state : WorldState × List Str) (name : Str) :
    Option (WorldState × List Str) :=
  let (world, neededDeps) := state
  let depName := snakeCase name
  match getFileId depName world.sourceRoots with
  | some fileId => do
    let text ← world.texts.lookup fileId
    if text ≠ [] then (world.addDepTo crateId depName).map fun world ↦ (world, neededDeps)
    else some (world, neededDeps ++ [depName])
  | none => some (world, neededDeps ++ [depName])

/-- A crate that needs the dependency gets it, and needs it once less. -/
def WorldState.addNeededDep (name : Str) (crateId : CrateId)
    (state : WorldState × List (Str × List Str)) (entry : Str × List Str) :
    Option (WorldState × List (Str × List Str)) :=
  let (world, neededDeps) := state
  let (depName, deps) := entry
  if name ∈ deps then do
    let depCrateId ← getCrateId depName world.sourceRoots world.crateGraph
    let crateName ← crateName name
    let graph ← world.crateGraph.addDep depCrateId (crateName, crateId)
    some ({ world with crateGraph := graph }, neededDeps ++ [(depName, deps.erase name)])
  else some (world, neededDeps ++ [(depName, deps)])

/-- `WorldState::load_dependency`, with the dependencies that it returns. The manifest of a stub has no
dependencies. -/
def WorldState.loadDependency (world : WorldState) (name : Str) (code : Option Str)
    (manifest : Option Manifest) (transitive : Bool) : Option (WorldState × List Str) := do
  let manifest := manifest.getD ⟨[]⟩
  let (world, fileId, crateId) ← world.findOrAddCrate name transitive
  let world ← world.addDefaultDeps crateId code
  let (world, neededDeps) ←
    manifest.dependencies.foldlM (WorldState.addManifestDep crateId) (world, [])
  let (world, stillNeeded) ←
    world.neededDeps.foldlM (WorldState.addNeededDep name crateId) (world, [])
  some ({ world with
    neededDeps := (name, neededDeps) :: stillNeeded.filter fun entry ↦ entry.1 ≠ name
    texts := world.texts.insert fileId (code.getD []) }, neededDeps)

/-- `WorldState::update`. Only a file of a source root can be changed. -/
def WorldState.update (world : WorldState) (path content : Str) : Option WorldState :=
  if path.head? = some '/' then
    match world.fileIdFromPath path with
    | none => some world
    | some fileId =>
      if world.sourceRoots = [] then none
      else some { world with fileId, texts := world.texts.insert fileId (content ++ ['\n']) }
  else none

/-! ### Runs -/

/-- A call of a method. -/
inductive Operation
  | loadDefaultCrates (coreLib allocLib stdLib : Str)
  | loadLocalFiles (files : List (Str × Str))
  | loadDependency (name : Str) (code : Option Str) (manifest : Option Manifest) (transitive : Bool)
  | update (path content : Str)

/-- The world after a call that does not panic. -/
def WorldState.step (vfs : NameAndExtension) (world : WorldState) :
    Operation → Option WorldState
  | .loadDefaultCrates coreLib allocLib stdLib => world.loadDefaultCrates coreLib allocLib stdLib
  | .loadLocalFiles files => world.loadLocalFiles vfs files
  | .loadDependency name code manifest transitive =>
    (world.loadDependency name code manifest transitive).map Prod.fst
  | .update path content => world.update path content

end Playground.RustAnalyzer
