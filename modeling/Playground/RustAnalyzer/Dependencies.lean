import Mathlib.Data.Finset.Insert
import Playground.Library.Acyclic
import Playground.RustAnalyzer.LocalFiles

/-!
# Loading the dependencies

`load_dependency` is called for one crate after the other, in any order and possibly several times. What
it is for is said by `Crates`: the names of the crates in the order in which they were first requested,
the edges between them, the crates whose code is there and the dependencies that are still needed. The
place of a name is the id of its file and of its crate (`Shows`), and `shows_loadDependency` says that
`load_dependency` does to the world what `Crates.load` does to the names, if this closes no cycle.

An edge of the local crate is added only when a crate is requested for the first time: a crate that is
first requested as the dependency of another one, and then directly, is none of the local crate.
`resolved_iff` says along which sequences of requests the edges are those of the manifests.

Not formalized here: the order of the needed dependencies, on which no edge depends.
-/

set_option autoImplicit false
set_option relaxedAutoImplicit false

namespace Playground.RustAnalyzer

open Library

/-! ### Names -/

/-- The path of a crate tells its name. -/
theorem getCratePath_injective : Function.Injective getCratePath := by
  intro first second heq
  exact (List.cons.inj (List.append_cancel_right heq)).2

/-- The name of a dependency is one without hyphens. -/
theorem notMem_snakeCase (name : Str) : '-' ∉ snakeCase name := by
  intro hmem
  obtain ⟨char, -, hchar⟩ := List.mem_map.mp hmem
  split_ifs at hchar with heq
  · cases hchar
  · exact heq hchar

/-- The place of a name that has been added. -/
theorem idxOf_append_self {names : List Str} {name : Str} (hname : name ∉ names) :
    (names ++ [name]).idxOf name = names.length := by
  rw [List.idxOf_append_of_notMem hname, List.idxOf_cons_self, Nat.add_zero]

/-! ### Names of crates -/

/-- What loading the dependencies does to the names of the crates: the crates in the order of their first
requests, the edges between them, the crates whose code is there, and the dependencies that are needed
and were not there when the crate that needs them was loaded. -/
structure Crates where
  names : List Str
  edges : Str → Str → Prop
  full : Finset Str
  needed : List (Str × List Str)

/-- The edges after a request. -/
def Crates.edgesAfter (crates : Crates) (name : Str) (code : Option Str) (dependencies : List Str)
    (transitive : Bool) (first second : Str) : Prop :=
  crates.edges first second ∨
    (first = localName ∧ second = name ∧ name ∉ crates.names ∧ transitive = false) ∨
    (first = name ∧ code.isSome ∧ second ∈ [coreName, allocName, stdName]) ∨
    (first = name ∧ second ∈ dependencies ∧ second ∈ crates.full) ∨
    (second = name ∧ ∃ needed, (first, needed) ∈ crates.needed ∧ name ∈ needed)

/-- The crates after a request. -/
def Crates.load (crates : Crates) (name : Str) (code : Option Str) (dependencies : List Str)
    (transitive : Bool) : Crates where
  names := if name ∈ crates.names then crates.names else crates.names ++ [name]
  edges := crates.edgesAfter name code dependencies transitive
  full := if code.getD [] = [] then crates.full.erase name else insert name crates.full
  needed := (name, dependencies.filter (· ∉ crates.full)) ::
    (crates.needed.map fun entry ↦ (entry.1, entry.2.erase name)).filter fun entry ↦ entry.1 ≠ name

/-! ### The default crates -/

/-- The edges between the default crates. -/
def DefaultEdge (name depName : Str) : Prop :=
  (name = localName ∧ depName ∈ [coreName, allocName, stdName]) ∨
    (name = allocName ∧ depName = coreName) ∨
    (name = stdName ∧ depName ∈ [coreName, allocName])

/-- The texts of the default crates, the local one being empty. -/
def defaultTexts (coreLib allocLib stdLib : Str) : List (Str × Str) :=
  [(localName, []), (coreName, coreLib), (allocName, allocLib), (stdName, stdLib)]

/-- The default crates. -/
def Crates.default (coreLib allocLib stdLib : Str) : Crates where
  names := defaultNames
  edges := DefaultEdge
  full := (((defaultTexts coreLib allocLib stdLib).filter fun entry ↦ entry.2 ≠ []).map
    Prod.fst).toFinset
  needed := []

/-- The edges between the default crates close no cycle. -/
theorem acyclic_defaultEdge : Acyclic DefaultEdge := by
  have hrank : ∀ name depName, DefaultEdge name depName →
      [coreName, allocName, stdName, localName].idxOf depName <
        [coreName, allocName, stdName, localName].idxOf name := by
    have hbefore : ∀ depName ∈ [coreName, allocName, stdName],
        [coreName, allocName, stdName, localName].idxOf depName < 3 := by
      decide
    have hearly : ∀ depName ∈ [coreName, allocName],
        [coreName, allocName, stdName, localName].idxOf depName < 2 := by
      decide
    rintro name depName (⟨rfl, hdep⟩ | ⟨rfl, rfl⟩ | ⟨rfl, hdep⟩)
    · exact hbefore depName hdep
    · decide
    · exact hearly depName hdep
  exact acyclic_of_rank hrank

/-- The edges in the order in which they are added. -/
theorem defaultEdge_iff (name depName : Str) :
    DefaultEdge name depName ↔
      (((((False ∨ name = allocName ∧ depName = coreName) ∨ name = stdName ∧ depName = coreName) ∨
        name = stdName ∧ depName = allocName) ∨ name = localName ∧ depName = coreName) ∨
        name = localName ∧ depName = allocName) ∨ name = localName ∧ depName = stdName := by
  unfold DefaultEdge
  generalize localName = localName, coreName = coreName, allocName = allocName, stdName = stdName
  simp only [List.mem_cons, List.not_mem_nil, or_false, false_or]
  tauto

/-- The places of the default crates. -/
theorem idxOf_defaultNames : defaultNames.idxOf localName = 0 ∧ defaultNames.idxOf coreName = 1 ∧
    defaultNames.idxOf allocName = 2 ∧ defaultNames.idxOf stdName = 3 := by
  decide

theorem nodup_defaultNames : defaultNames.Nodup := by
  decide

/-- The code of a default crate is there unless its text is empty. -/
theorem mem_full_default {coreLib allocLib stdLib : Str} {entry : Str × Str}
    (hentry : entry ∈ defaultTexts coreLib allocLib stdLib) :
    entry.1 ∈ (Crates.default coreLib allocLib stdLib).full ↔ entry.2 ≠ [] := by
  have hnodup : ((defaultTexts coreLib allocLib stdLib).map Prod.fst).Nodup := nodup_defaultNames
  simp only [Crates.default, List.mem_toFinset, List.mem_map, List.mem_filter, decide_eq_true_eq]
  constructor
  · rintro ⟨other, ⟨hother, hne⟩, hsame⟩
    rwa [← List.inj_on_of_nodup_map hnodup hother hentry hsame]
  · exact fun hne ↦ ⟨entry, ⟨hentry, hne⟩, rfl⟩

/-- Only a default crate is there from the start, and the local one is not. -/
theorem mem_defaultNames_of_mem_full {coreLib allocLib stdLib name : Str}
    (hname : name ∈ (Crates.default coreLib allocLib stdLib).full) :
    name ∈ [coreName, allocName, stdName] := by
  simp only [Crates.default, List.mem_toFinset, List.mem_map, List.mem_filter,
    decide_eq_true_eq] at hname
  obtain ⟨entry, ⟨hentry, hne⟩, rfl⟩ := hname
  rcases List.mem_cons.mp hentry with rfl | hrest
  · exact absurd rfl hne
  · exact List.mem_map_of_mem (f := Prod.fst) hrest

/-! ### Places -/

section Sets

variable [FileSets]

@[simp] theorem fileForPath_createSourceRoot_getCratePath (name other : Str) (fileId : FileId) :
    (createSourceRoot name fileId).fileForPath (getCratePath other) =
      if other = name then some fileId else none := by
  rw [createSourceRoot, fileForPath_insert, fileForPath_default]
  simp only [getCratePath_injective.eq_iff]

/-- The source roots of crates, the place of a name being the id of its file. -/
def sourceRootsOf (names : List Str) : List FileSet :=
  names.zipIdx.map fun entry ↦ createSourceRoot entry.1 entry.2

theorem sourceRootsOf_append (names : List Str) (name : Str) :
    sourceRootsOf (names ++ [name]) =
      sourceRootsOf names ++ [createSourceRoot name names.length] := by
  simp [sourceRootsOf, List.zipIdx_append]

/-- The file of a crate. -/
theorem getFileId_sourceRootsOf (names : List Str) (name : Str) :
    getFileId name (sourceRootsOf names) =
      if name ∈ names then some (names.idxOf name) else none := by
  have hoffset : ∀ offset, ((names.zipIdx offset).map fun entry ↦
      createSourceRoot entry.1 entry.2).findSome? (·.fileForPath (getCratePath name)) =
        if name ∈ names then some (names.idxOf name + offset) else none := by
    induction names with
    | nil => simp
    | cons first rest ih =>
      intro offset
      rw [List.zipIdx_cons, List.map_cons, List.findSome?_cons, ih,
        fileForPath_createSourceRoot_getCratePath]
      by_cases heq : name = first
      · subst heq
        simp
      · rw [if_neg heq, List.idxOf_cons_ne _ (Ne.symm heq)]
        by_cases hrest : name ∈ rest
        · simp [hrest, Nat.add_right_comm, Nat.add_assoc]
        · simp [hrest, heq]
  exact hoffset 0

end Sets

section Graphs

variable [CrateGraphs]

/-- The name of a crate is one without hyphens. -/
theorem crateName_eq {name : Str} (hname : '-' ∉ name) : crateName name = some name :=
  CrateGraphs.crateName_eq name hname

/-- A graph of so many crates without edges. -/
def edgelessGraph : ℕ → CrateGraph
  | 0 => .default
  | count + 1 => ((edgelessGraph count).addCrateRoot count).1

theorem rootFileIds_edgelessGraph (count : ℕ) :
    (edgelessGraph count).rootFileIds = List.range count := by
  induction count with
  | zero => exact CrateGraphs.rootFileIds_default
  | succ count ih =>
    rw [List.range_succ, ← ih]
    exact CrateGraphs.rootFileIds_addCrateRoot _ _

theorem not_hasEdge_edgelessGraph (count : ℕ) (crateId depCrateId : CrateId) :
    ¬ (edgelessGraph count).HasEdge crateId depCrateId := by
  induction count with
  | zero => exact CrateGraphs.not_hasEdge_default _ _
  | succ count ih => exact (not_congr (CrateGraphs.hasEdge_addCrateRoot _ _ _ _)).mpr ih

/-- The next crate gets the number of the crates as its id. -/
theorem addCrateRoot_edgelessGraph (count : ℕ) :
    (edgelessGraph count).addCrateRoot count = (edgelessGraph (count + 1), count) := by
  refine Prod.ext rfl ((CrateGraphs.crateId_addCrateRoot _ _).trans ?_)
  have hlength := congrArg List.length (rootFileIds_edgelessGraph count)
  rwa [List.length_range] at hlength

end Graphs

variable [FileSets] [CrateGraphs]

/-- The next id is the number of the crates. -/
theorem nextFileId_of_sourceRoots {world : WorldState} {names : List Str} (hne : names ≠ [])
    (hroots : world.sourceRoots = sourceRootsOf names) : world.nextFileId = names.length := by
  have hoffset : ∀ names : List Str, ∀ offset, names ≠ [] →
      (((names.zipIdx offset).map fun entry ↦ createSourceRoot entry.1 entry.2).map
        fun root ↦ root.iter.sup id).foldr max 0 + 1 = offset + names.length := by
    intro names
    induction names with
    | nil => exact fun _ hnil ↦ absurd rfl hnil
    | cons first rest ih =>
      intro offset _
      have hiter : (createSourceRoot first offset).iter = {offset} :=
        Finset.ext fun fileId ↦ by rw [mem_iter_createSourceRoot, Finset.mem_singleton]
      rw [List.zipIdx_cons, List.map_cons, List.map_cons, List.foldr_cons, hiter,
        Finset.sup_singleton, id]
      cases rest with
      | nil => simp
      | cons second rest =>
        have hmax : ∀ first last length : ℕ, last + 1 = first + 1 + length →
            max first last + 1 = first + (length + 1) := by omega
        exact hmax _ _ _ (ih (offset + 1) (List.cons_ne_nil _ _))
  rw [WorldState.nextFileId, WorldState.lastFileId, hroots]
  exact (hoffset names 0 hne).trans (Nat.zero_add _)

/-! ### What a world shows -/

/-- The crate of one name has an edge to that of another. -/
def WorldState.Edge (world : WorldState) (name depName : Str) : Prop :=
  ∃ crateId depCrateId, getCrateId name world.sourceRoots world.crateGraph = some crateId ∧
    getCrateId depName world.sourceRoots world.crateGraph = some depCrateId ∧
    world.crateGraph.HasEdge crateId depCrateId

/-- A world has the crates of the names, the place of a name being the id of its file and of its crate,
and the edges of a relation on the names. -/
structure ShowsGraph (world : WorldState) (names : List Str) (edges : Str → Str → Prop) : Prop where
  nodup : names.Nodup
  sourceRoots : world.sourceRoots = sourceRootsOf names
  rootFileIds : world.crateGraph.rootFileIds = List.range names.length
  hasEdge_iff : ∀ crateId depCrateId, world.crateGraph.HasEdge crateId depCrateId ↔
    ∃ name depName, edges name depName ∧ names[crateId]? = some name ∧
      names[depCrateId]? = some depName
  edge_mem : ∀ name depName, edges name depName → name ∈ names ∧ depName ∈ names

variable {world : WorldState} {names : List Str} {edges : Str → Str → Prop}

theorem ShowsGraph.length_rootFileIds (hshows : ShowsGraph world names edges) :
    world.crateGraph.rootFileIds.length = names.length := by
  rw [hshows.rootFileIds, List.length_range]

/-- The file of a name. -/
theorem ShowsGraph.getFileId_eq (hshows : ShowsGraph world names edges) (name : Str) :
    getFileId name world.sourceRoots = if name ∈ names then some (names.idxOf name) else none := by
  rw [hshows.sourceRoots, getFileId_sourceRootsOf]

/-- The crate of a name. -/
theorem ShowsGraph.getCrateId_eq (hshows : ShowsGraph world names edges) {name : Str}
    (hname : name ∈ names) :
    getCrateId name world.sourceRoots world.crateGraph = some (names.idxOf name) := by
  have hlt := List.idxOf_lt_length_of_mem hname
  rw [getCrateId, hshows.getFileId_eq, if_pos hname, Option.bind_some]
  have hroots : CrateGraphs.rootFileIds world.crateGraph = List.range names.length :=
    hshows.rootFileIds
  refine CrateGraphs.crateIdForCrateRoot_eq world.crateGraph _ _ ?_ fun other hother ↦ ?_
  · rw [hroots, List.getElem?_range hlt]
  · rw [hroots] at hother
    obtain ⟨hother, heq⟩ := List.getElem?_eq_some_iff.mp hother
    rwa [List.getElem_range] at heq

/-- The edges of the world are those of the relation. -/
theorem ShowsGraph.edge_iff (hshows : ShowsGraph world names edges) (name depName : Str) :
    world.Edge name depName ↔ edges name depName := by
  have hmem : ∀ name crateId, getCrateId name world.sourceRoots world.crateGraph = some crateId →
      name ∈ names := by
    intro name crateId hcrate
    by_contra hnot
    rw [getCrateId, hshows.getFileId_eq, if_neg hnot] at hcrate
    cases hcrate
  constructor
  · rintro ⟨crateId, depCrateId, hcrate, hdep, hedge⟩
    have hname := hmem _ _ hcrate
    have hdepName := hmem _ _ hdep
    rw [hshows.getCrateId_eq hname] at hcrate
    rw [hshows.getCrateId_eq hdepName] at hdep
    cases hcrate
    cases hdep
    obtain ⟨first, second, hboth, hfirst, hsecond⟩ := (hshows.hasEdge_iff _ _).mp hedge
    rw [List.getElem?_idxOf hname] at hfirst
    rw [List.getElem?_idxOf hdepName] at hsecond
    cases hfirst
    cases hsecond
    exact hboth
  · intro hedge
    obtain ⟨hname, hdepName⟩ := hshows.edge_mem _ _ hedge
    exact ⟨_, _, hshows.getCrateId_eq hname, hshows.getCrateId_eq hdepName,
      (hshows.hasEdge_iff _ _).mpr ⟨name, depName, hedge, List.getElem?_idxOf hname,
        List.getElem?_idxOf hdepName⟩⟩

/-- A path in the graph is one between the names. -/
theorem ShowsGraph.reflTransGen_edges (hshows : ShowsGraph world names edges)
    {crateId depCrateId : CrateId}
    (hpath : Relation.ReflTransGen world.crateGraph.HasEdge crateId depCrateId) {name : Str}
    (hname : names[crateId]? = some name) :
    ∃ depName, names[depCrateId]? = some depName ∧ Relation.ReflTransGen edges name depName := by
  induction hpath with
  | refl => exact ⟨name, hname, .refl⟩
  | tail _ hedge ih =>
    obtain ⟨middle, hmiddle, hpath⟩ := ih
    obtain ⟨first, second, hboth, hfirst, hsecond⟩ := (hshows.hasEdge_iff _ _).mp hedge
    rw [hmiddle] at hfirst
    obtain rfl := Option.some.inj hfirst
    exact ⟨second, hsecond, hpath.tail hboth⟩

/-- An edge between two crates that closes no cycle is added to the relation. -/
theorem ShowsGraph.addDep (hshows : ShowsGraph world names edges) {name depName : Str}
    (hname : name ∈ names) (hdepName : depName ∈ names) (label : Str)
    (hacyclic : Acyclic fun first second ↦ edges first second ∨ first = name ∧ second = depName) :
    ∃ graph, world.crateGraph.addDep (names.idxOf name) (label, names.idxOf depName) = some graph ∧
      ShowsGraph { world with crateGraph := graph } names fun first second ↦
        edges first second ∨ first = name ∧ second = depName := by
  have hlt : ∀ {other}, other ∈ names → names.idxOf other < world.crateGraph.rootFileIds.length := by
    intro other hother
    rw [hshows.length_rootFileIds]
    exact List.idxOf_lt_length_of_mem hother
  have hback : ¬ Relation.ReflTransGen world.crateGraph.HasEdge (names.idxOf depName)
      (names.idxOf name) := by
    intro hpath
    obtain ⟨other, hother, hback⟩ :=
      hshows.reflTransGen_edges hpath (List.getElem?_idxOf hdepName)
    rw [List.getElem?_idxOf hname] at hother
    obtain rfl := Option.some.inj hother
    exact hacyclic.not_reflTransGen (fun _ _ ↦ Or.inl) (Or.inr ⟨rfl, rfl⟩) hback
  obtain ⟨graph, hgraph, hroots, hedges⟩ := CrateGraphs.addDep_of_not_reflTransGen world.crateGraph
    (names.idxOf name) (label, names.idxOf depName) (hlt hname) (hlt hdepName) hback
  replace hedges : ∀ first second, CrateGraph.HasEdge graph first second ↔
    world.crateGraph.HasEdge first second ∨
      first = names.idxOf name ∧ second = names.idxOf depName := hedges
  refine ⟨graph, hgraph, ?_⟩
  exact {
    nodup := hshows.nodup
    sourceRoots := hshows.sourceRoots
    rootFileIds := hroots.trans hshows.rootFileIds
    hasEdge_iff := by
      intro crateId depCrateId
      rw [hedges, hshows.hasEdge_iff]
      constructor
      · rintro (⟨first, second, hedge, hfirst, hsecond⟩ | ⟨rfl, rfl⟩)
        · exact ⟨first, second, Or.inl hedge, hfirst, hsecond⟩
        · exact ⟨name, depName, Or.inr ⟨rfl, rfl⟩, List.getElem?_idxOf hname,
            List.getElem?_idxOf hdepName⟩
      · rintro ⟨first, second, hedge | ⟨rfl, rfl⟩, hfirst, hsecond⟩
        · exact Or.inl ⟨first, second, hedge, hfirst, hsecond⟩
        · obtain ⟨hlt, hfirst⟩ := List.getElem?_eq_some_iff.mp hfirst
          obtain ⟨hdepLt, hsecond⟩ := List.getElem?_eq_some_iff.mp hsecond
          right
          rw [← hfirst, ← hsecond, hshows.nodup.idxOf_getElem, hshows.nodup.idxOf_getElem]
          exact ⟨rfl, rfl⟩
    edge_mem := by
      rintro first second (hedge | ⟨rfl, rfl⟩)
      · exact hshows.edge_mem _ _ hedge
      · exact ⟨hname, hdepName⟩ }

/-- A new crate gets the next place. -/
theorem ShowsGraph.crateId_addCrateRoot (hshows : ShowsGraph world names edges) (fileId : FileId) :
    (world.crateGraph.addCrateRoot fileId).2 = names.length :=
  (CrateGraphs.crateId_addCrateRoot world.crateGraph fileId).trans hshows.length_rootFileIds

/-- A new crate has no edges. -/
theorem ShowsGraph.append (hshows : ShowsGraph world names edges) {name : Str}
    (hname : name ∉ names) :
    ShowsGraph { world with
        sourceRoots := world.sourceRoots ++ [createSourceRoot name names.length]
        crateGraph := (world.crateGraph.addCrateRoot names.length).1 } (names ++ [name]) edges := by
  have hmem : ∀ first second, edges first second →
      first ∈ names ++ [name] ∧ second ∈ names ++ [name] := fun first second hedge ↦
    ⟨List.mem_append_left _ (hshows.edge_mem _ _ hedge).1,
      List.mem_append_left _ (hshows.edge_mem _ _ hedge).2⟩
  have hold : ∀ {other : Str} {place : ℕ}, other ∈ names →
      ((names ++ [name])[place]? = some other ↔ names[place]? = some other) := by
    intro other place hother
    by_cases hlt : place < names.length
    · rw [List.getElem?_append_left hlt]
    · rw [List.getElem?_append_right (Nat.le_of_not_lt hlt),
        List.getElem?_eq_none (Nat.le_of_not_lt hlt)]
      refine iff_of_false (fun hnew ↦ ?_) nofun
      rw [List.mem_singleton.mp (List.mem_of_getElem? hnew)] at hother
      exact hname hother
  exact {
    nodup := List.nodup_append.mpr ⟨hshows.nodup, List.nodup_singleton _, by
      rintro first hfirst second hsecond rfl
      exact hname (List.mem_singleton.mp hsecond ▸ hfirst)⟩
    sourceRoots := by rw [sourceRootsOf_append, ← hshows.sourceRoots]
    rootFileIds := by
      rw [List.length_append, List.length_singleton, List.range_succ, ← hshows.rootFileIds]
      exact CrateGraphs.rootFileIds_addCrateRoot world.crateGraph names.length
    hasEdge_iff := by
      intro crateId depCrateId
      have hgraph : (world.crateGraph.addCrateRoot names.length).1.HasEdge crateId depCrateId ↔
          world.crateGraph.HasEdge crateId depCrateId :=
        CrateGraphs.hasEdge_addCrateRoot world.crateGraph names.length crateId depCrateId
      rw [hgraph, hshows.hasEdge_iff]
      refine exists₂_congr fun first second ↦ and_congr_right fun hedge ↦ ?_
      obtain ⟨hfirst, hsecond⟩ := hshows.edge_mem _ _ hedge
      rw [hold hfirst, hold hsecond]
    edge_mem := hmem }

/-- Only which names have an edge matters. -/
theorem ShowsGraph.congr {other : Str → Str → Prop} (hshows : ShowsGraph world names edges)
    (hiff : ∀ name depName, other name depName ↔ edges name depName) :
    ShowsGraph world names other := by
  obtain rfl : other = edges := funext fun name ↦ funext fun depName ↦ propext (hiff name depName)
  exact hshows

/-- A world has the crates of the abstract model. -/
structure Shows (world : WorldState) (crates : Crates) : Prop where
  graph : ShowsGraph world crates.names crates.edges
  neededDeps : world.neededDeps = crates.needed
  needed_mem : ∀ entry ∈ crates.needed, entry.1 ∈ crates.names
  text : ∀ name ∈ crates.names, ∃ text,
    world.texts.lookup (crates.names.idxOf name) = some text ∧ (text = [] ↔ name ∉ crates.full)
  full_mem : ∀ name ∈ crates.full, name ∈ crates.names
  head : crates.names.head? = some localName
  default_mem : ∀ name ∈ defaultNames, name ∈ crates.names

/-- Two worlds differ in their crates only. -/
def SameFiles (world after : WorldState) : Prop :=
  after.texts = world.texts ∧ after.neededDeps = world.neededDeps

/-! ### The parts of a request -/

/-- A crate is found, or it is added, with the edge of the local crate to it if it is requested
directly. -/
theorem findOrAddCrate_eq {crates : Crates} (hshows : Shows world crates) {name : Str}
    (hname : '-' ∉ name) {transitive : Bool}
    (hacyclic : Acyclic fun first second ↦ crates.edges first second ∨
      (first = localName ∧ second = name ∧ name ∉ crates.names ∧ transitive = false)) :
    ∃ found, world.findOrAddCrate name transitive =
        some (found, (if name ∈ crates.names then crates.names else crates.names ++ [name]).idxOf name,
          (if name ∈ crates.names then crates.names else crates.names ++ [name]).idxOf name) ∧
      SameFiles world found ∧
      ShowsGraph found (if name ∈ crates.names then crates.names else crates.names ++ [name])
        fun first second ↦ crates.edges first second ∨
          (first = localName ∧ second = name ∧ name ∉ crates.names ∧ transitive = false) := by
  have hfile := hshows.graph.getFileId_eq name
  by_cases hmem : name ∈ crates.names
  · rw [if_pos hmem] at hfile ⊢
    refine ⟨world, ?_, ⟨rfl, rfl⟩, hshows.graph.congr fun first second ↦ ?_⟩
    · simp [WorldState.findOrAddCrate, hfile, hshows.graph.getCrateId_eq hmem]
    · simp [hmem]
  · rw [if_neg hmem] at hfile ⊢
    have hne : crates.names ≠ [] := by
      intro hnil
      have hhead := hshows.head
      rw [hnil] at hhead
      cases hhead
    have hnext := nextFileId_of_sourceRoots hne hshows.graph.sourceRoots
    have hcrateId := hshows.graph.crateId_addCrateRoot crates.names.length
    have hadded := hshows.graph.append hmem
    have hlocal : localName ∈ crates.names := List.mem_of_mem_head? hshows.head
    cases transitive with
    | true =>
      refine ⟨{ world with
        sourceRoots := world.sourceRoots ++ [createSourceRoot name crates.names.length]
        crateGraph := (world.crateGraph.addCrateRoot crates.names.length).1 }, ?_, ⟨rfl, rfl⟩,
        hadded.congr fun first second ↦ by simp⟩
      simp only [WorldState.findOrAddCrate, hfile, hnext, CrateGraph.addLocalDep, if_true, hcrateId,
        Option.bind_eq_bind, Option.bind_some, idxOf_append_self hmem]
    | false =>
      obtain ⟨graph, hgraph, hshowsGraph⟩ := hadded.addDep (List.mem_append_left [name] hlocal)
        (List.mem_append_right crates.names List.mem_cons_self) name
        (hacyclic.mono fun first second ↦ Or.imp_right fun hnew ↦ ⟨hnew.1, hnew.2, hmem, rfl⟩)
      have hplace : (crates.names ++ [name]).idxOf localName = localCrateId := by
        obtain ⟨rest, hrest⟩ := List.head?_eq_some_iff.mp hshows.head
        rw [hrest, List.cons_append, List.idxOf_cons_self]
        rfl
      rw [hplace, idxOf_append_self hmem] at hgraph
      refine ⟨{ world with
        sourceRoots := world.sourceRoots ++ [createSourceRoot name crates.names.length]
        crateGraph := graph }, ?_, ⟨rfl, rfl⟩,
        hshowsGraph.congr fun first second ↦ by simp [hmem]⟩
      simp only [WorldState.findOrAddCrate, hfile, hnext, CrateGraph.addLocalDep, Bool.false_eq_true,
        if_false, crateName_eq hname, hcrateId, Option.bind_eq_bind, Option.bind_some, hgraph,
        idxOf_append_self hmem]

/-- An edge is added. -/
theorem addDepTo_eq (hshows : ShowsGraph world names edges) {name depName : Str}
    (hname : name ∈ names) (hdepName : depName ∈ names) (hhyphen : '-' ∉ depName)
    (hacyclic : Acyclic fun first second ↦ edges first second ∨ first = name ∧ second = depName) :
    ∃ after, world.addDepTo (names.idxOf name) depName = some after ∧ SameFiles world after ∧
      ShowsGraph after names fun first second ↦
        edges first second ∨ first = name ∧ second = depName := by
  obtain ⟨graph, hgraph, hshowsGraph⟩ := hshows.addDep hname hdepName depName hacyclic
  refine ⟨{ world with crateGraph := graph }, ?_, ⟨rfl, rfl⟩, hshowsGraph⟩
  simp only [WorldState.addDepTo, crateName_eq hhyphen, hshows.getCrateId_eq hdepName,
    Option.bind_eq_bind, Option.bind_some, hgraph]

/-- The default dependencies are added if there is code. -/
theorem addDefaultDeps_eq (hshows : ShowsGraph world names edges) {name : Str} (hname : name ∈ names)
    (hdefault : ∀ name ∈ defaultNames, name ∈ names) {code : Option Str}
    (hacyclic : Acyclic fun first second ↦ edges first second ∨
      (first = name ∧ code.isSome ∧ second ∈ [coreName, allocName, stdName])) :
    ∃ after, world.addDefaultDeps (names.idxOf name) code = some after ∧ SameFiles world after ∧
      ShowsGraph after names fun first second ↦ edges first second ∨
        (first = name ∧ code.isSome ∧ second ∈ [coreName, allocName, stdName]) := by
  unfold WorldState.addDefaultDeps
  cases code with
  | none => exact ⟨world, rfl, ⟨rfl, rfl⟩, hshows.congr fun first second ↦ by simp⟩
  | some code =>
    have hall : ∀ first second, (edges first second ∨ (first = name ∧ (some code).isSome ∧
        second ∈ [coreName, allocName, stdName])) ↔
          ((edges first second ∨ first = name ∧ second = coreName) ∨
            first = name ∧ second = allocName) ∨ first = name ∧ second = stdName := by
      intro first second
      simp only [Option.isSome_some, true_and, List.mem_cons, List.not_mem_nil, or_false]
      tauto
    -- the last edge closes no cycle, and neither do the ones before it
    have hthird := hacyclic.mono fun first second ↦ (hall first second).mpr
    have hsecond := hthird.mono fun _ _ ↦ Or.inl
    obtain ⟨one, hone, ⟨htextsOne, hneededOne⟩, hshowsOne⟩ := addDepTo_eq hshows hname
      (hdefault coreName (by decide)) (by decide) (hsecond.mono fun _ _ ↦ Or.inl)
    obtain ⟨two, htwo, ⟨htextsTwo, hneededTwo⟩, hshowsTwo⟩ := addDepTo_eq hshowsOne hname
      (hdefault allocName (by decide)) (by decide) hsecond
    obtain ⟨three, hthree, ⟨htexts, hneeded⟩, hshowsThree⟩ := addDepTo_eq hshowsTwo hname
      (hdefault stdName (by decide)) (by decide) hthird
    refine ⟨three, ?_, ⟨htexts.trans (htextsTwo.trans htextsOne),
      hneeded.trans (hneededTwo.trans hneededOne)⟩, hshowsThree.congr hall⟩
    simp only [Option.isSome_some, if_true, List.foldlM_cons, hone, htwo, hthree,
      Option.bind_eq_bind, Option.bind_some, List.foldlM_nil]
    rfl

/-- The dependencies of a manifest whose code is there are added, the others are needed. -/
theorem addManifestDeps_eq {name : Str} {full : Finset Str} (hfull : ∀ name ∈ full, name ∈ names)
    (hname : name ∈ names) {dependencies : List Str} (hself : name ∉ dependencies.map snakeCase)
    (needed : List Str) :
    ∀ {world : WorldState} {edges : Str → Str → Prop}, ShowsGraph world names edges →
      (∀ other ∈ names, other ≠ name → ∃ text, world.texts.lookup (names.idxOf other) = some text ∧
        (text = [] ↔ other ∉ full)) →
      (Acyclic fun first second ↦ edges first second ∨
        (first = name ∧ second ∈ dependencies.map snakeCase ∧ second ∈ full)) →
      ∃ after, dependencies.foldlM (WorldState.addManifestDep (names.idxOf name)) (world, needed) =
          some (after, needed ++ (dependencies.map snakeCase).filter (· ∉ full)) ∧
        SameFiles world after ∧ ShowsGraph after names fun first second ↦
          edges first second ∨
            (first = name ∧ second ∈ dependencies.map snakeCase ∧ second ∈ full) := by
  induction dependencies generalizing needed with
  | nil =>
    intro world edges hshows _ _
    exact ⟨world, by simp, ⟨rfl, rfl⟩, hshows.congr fun first second ↦ by simp⟩
  | cons dependency rest ih =>
    intro world edges hshows htext hacyclic
    rw [List.map_cons, List.mem_cons, not_or] at hself
    have hfile := hshows.getFileId_eq (snakeCase dependency)
    by_cases hthere : snakeCase dependency ∈ full
    · have hmem := hfull _ hthere
      obtain ⟨text, hlookup, hempty⟩ := htext _ hmem (Ne.symm hself.1)
      have htextNe : text ≠ [] := fun hnil ↦ hempty.mp hnil hthere
      have hall : ∀ first second, (edges first second ∨
          (first = name ∧ second ∈ (dependency :: rest).map snakeCase ∧ second ∈ full)) ↔
            (edges first second ∨ first = name ∧ second = snakeCase dependency) ∨
              (first = name ∧ second ∈ rest.map snakeCase ∧ second ∈ full) := by
        intro first second
        rw [List.map_cons, List.mem_cons]
        constructor
        · rintro (hedge | ⟨hfirst, rfl | hsecond, hin⟩)
          · exact Or.inl (Or.inl hedge)
          · exact Or.inl (Or.inr ⟨hfirst, rfl⟩)
          · exact Or.inr ⟨hfirst, hsecond, hin⟩
        · rintro ((hedge | ⟨hfirst, rfl⟩) | ⟨hfirst, hsecond, hin⟩)
          · exact Or.inl hedge
          · exact Or.inr ⟨hfirst, Or.inl rfl, hthere⟩
          · exact Or.inr ⟨hfirst, Or.inr hsecond, hin⟩
      have hrest := hacyclic.mono fun first second ↦ (hall first second).mpr
      obtain ⟨one, hone, ⟨htexts, hneeded⟩, hshowsOne⟩ := addDepTo_eq hshows hname hmem
        (notMem_snakeCase dependency) (hrest.mono fun _ _ ↦ Or.inl)
      have hstep : WorldState.addManifestDep (names.idxOf name) (world, needed) dependency =
          some (one, needed) := by
        rw [if_pos hmem] at hfile
        simp only [WorldState.addManifestDep, hfile, hlookup, Option.bind_eq_bind,
          Option.bind_some, if_pos htextNe, hone, Option.map_some]
      obtain ⟨after, hafter, ⟨htextsAfter, hneededAfter⟩, hshowsAfter⟩ := ih hself.2 needed hshowsOne
        (by rwa [htexts]) hrest
      refine ⟨after, ?_, ⟨htextsAfter.trans htexts, hneededAfter.trans hneeded⟩,
        hshowsAfter.congr hall⟩
      rw [List.foldlM_cons, hstep, Option.bind_eq_bind, Option.bind_some, hafter]
      simp [hthere]
    · have hstep : WorldState.addManifestDep (names.idxOf name) (world, needed) dependency =
          some (world, needed ++ [snakeCase dependency]) := by
        by_cases hmem : snakeCase dependency ∈ names
        · obtain ⟨text, hlookup, hempty⟩ := htext _ hmem (Ne.symm hself.1)
          rw [if_pos hmem] at hfile
          simp [WorldState.addManifestDep, hfile, hlookup, hempty.mpr hthere]
        · rw [if_neg hmem] at hfile
          simp [WorldState.addManifestDep, hfile]
      have hall : ∀ first second, (edges first second ∨
          (first = name ∧ second ∈ (dependency :: rest).map snakeCase ∧ second ∈ full)) ↔
            edges first second ∨ (first = name ∧ second ∈ rest.map snakeCase ∧ second ∈ full) := by
        intro first second
        rw [List.map_cons, List.mem_cons]
        constructor
        · rintro (hedge | ⟨hfirst, rfl | hsecond, hin⟩)
          · exact Or.inl hedge
          · exact absurd hin hthere
          · exact Or.inr ⟨hfirst, hsecond, hin⟩
        · rintro (hedge | ⟨hfirst, hsecond, hin⟩)
          · exact Or.inl hedge
          · exact Or.inr ⟨hfirst, Or.inr hsecond, hin⟩
      obtain ⟨after, hafter, hsame, hshowsAfter⟩ := ih hself.2 (needed ++ [snakeCase dependency])
        hshows htext (hacyclic.mono fun first second ↦ (hall first second).mpr)
      refine ⟨after, ?_, hsame, hshowsAfter.congr hall⟩
      rw [List.foldlM_cons, hstep, Option.bind_eq_bind, Option.bind_some, hafter]
      simp [hthere]

/-- The crates that need a dependency get it. -/
theorem addNeededDeps_eq {name : Str} (hname : name ∈ names) (hhyphen : '-' ∉ name)
    {entries : List (Str × List Str)} (hentries : ∀ entry ∈ entries, entry.1 ∈ names)
    (kept : List (Str × List Str)) :
    ∀ {world : WorldState} {edges : Str → Str → Prop}, ShowsGraph world names edges →
      (Acyclic fun first second ↦ edges first second ∨
        (second = name ∧ ∃ needed, (first, needed) ∈ entries ∧ name ∈ needed)) →
      ∃ after, entries.foldlM (WorldState.addNeededDep name (names.idxOf name)) (world, kept) =
          some (after, kept ++ entries.map fun entry ↦ (entry.1, entry.2.erase name)) ∧
        SameFiles world after ∧ ShowsGraph after names fun first second ↦
          edges first second ∨
            (second = name ∧ ∃ needed, (first, needed) ∈ entries ∧ name ∈ needed) := by
  induction entries generalizing kept with
  | nil =>
    intro world edges hshows _
    exact ⟨world, by simp, ⟨rfl, rfl⟩, hshows.congr fun first second ↦ by simp⟩
  | cons entry rest ih =>
    intro world edges hshows hacyclic
    obtain ⟨hentry, hrest⟩ := List.forall_mem_cons.mp hentries
    obtain ⟨depName, deps⟩ := entry
    by_cases hneeds : name ∈ deps
    · have hall : ∀ first second, (edges first second ∨ (second = name ∧
          ∃ needed, (first, needed) ∈ (depName, deps) :: rest ∧ name ∈ needed)) ↔
            (edges first second ∨ first = depName ∧ second = name) ∨
              (second = name ∧ ∃ needed, (first, needed) ∈ rest ∧ name ∈ needed) := by
        intro first second
        constructor
        · rintro (hedge | ⟨hsecond, needed, hmem, hin⟩)
          · exact Or.inl (Or.inl hedge)
          · rcases List.mem_cons.mp hmem with heq | hmem
            · exact Or.inl (Or.inr ⟨congrArg Prod.fst heq, hsecond⟩)
            · exact Or.inr ⟨hsecond, needed, hmem, hin⟩
        · rintro ((hedge | ⟨rfl, hsecond⟩) | ⟨hsecond, needed, hmem, hin⟩)
          · exact Or.inl hedge
          · exact Or.inr ⟨hsecond, deps, List.mem_cons_self, hneeds⟩
          · exact Or.inr ⟨hsecond, needed, List.mem_cons_of_mem _ hmem, hin⟩
      have hothers := hacyclic.mono fun first second ↦ (hall first second).mpr
      obtain ⟨graph, hgraph, hshowsOne⟩ :=
        hshows.addDep hentry hname name (hothers.mono fun _ _ ↦ Or.inl)
      have hstep : WorldState.addNeededDep name (names.idxOf name) (world, kept) (depName, deps) =
          some ({ world with crateGraph := graph }, kept ++ [(depName, deps.erase name)]) := by
        simp only [WorldState.addNeededDep, if_pos hneeds, hshows.getCrateId_eq hentry,
          crateName_eq hhyphen, Option.bind_eq_bind, Option.bind_some, hgraph]
      obtain ⟨after, hafter, hsame, hshowsAfter⟩ := ih hrest (kept ++ [(depName, deps.erase name)])
        hshowsOne hothers
      refine ⟨after, ?_, hsame, hshowsAfter.congr hall⟩
      rw [List.foldlM_cons, hstep, Option.bind_eq_bind, Option.bind_some, hafter]
      simp
    · have hstep : WorldState.addNeededDep name (names.idxOf name) (world, kept) (depName, deps) =
          some (world, kept ++ [(depName, deps)]) := by
        simp only [WorldState.addNeededDep, if_neg hneeds]
      have hall : ∀ first second, (edges first second ∨ (second = name ∧
          ∃ needed, (first, needed) ∈ (depName, deps) :: rest ∧ name ∈ needed)) ↔
            edges first second ∨
              (second = name ∧ ∃ needed, (first, needed) ∈ rest ∧ name ∈ needed) := by
        intro first second
        refine or_congr_right (and_congr_right fun _ ↦ exists_congr fun needed ↦ ?_)
        rw [List.mem_cons]
        constructor
        · rintro ⟨heq | hmem, hin⟩
          · rw [(Prod.mk.inj heq).2] at hin
            exact absurd hin hneeds
          · exact ⟨hmem, hin⟩
        · exact fun hboth ↦ ⟨Or.inr hboth.1, hboth.2⟩
      obtain ⟨after, hafter, hsame, hshowsAfter⟩ := ih hrest (kept ++ [(depName, deps)]) hshows
        (hacyclic.mono fun first second ↦ (hall first second).mpr)
      refine ⟨after, ?_, hsame, hshowsAfter.congr hall⟩
      rw [List.foldlM_cons, hstep, Option.bind_eq_bind, Option.bind_some, hafter]
      simp [List.erase_of_not_mem hneeds]

/-- What a request does to the world is what it does to the names of the crates. -/
theorem shows_loadDependency {crates : Crates} (hshows : Shows world crates) {name : Str}
    (hname : '-' ∉ name) (code : Option Str) {manifest : Manifest}
    (hself : name ∉ manifest.dependencies.map snakeCase) {given : Option Manifest}
    (hgiven : given.getD ⟨[]⟩ = manifest) (transitive : Bool)
    (hacyclic : Acyclic
      (crates.edgesAfter name code (manifest.dependencies.map snakeCase) transitive)) :
    ∃ after needed, world.loadDependency name code given transitive = some (after, needed) ∧
      Shows after (crates.load name code (manifest.dependencies.map snakeCase) transitive) := by
  set names := if name ∈ crates.names then crates.names else crates.names ++ [name] with hnames
  have hold : ∀ other ∈ crates.names, other ∈ names ∧
      names.idxOf other = crates.names.idxOf other := by
    intro other hother
    rw [hnames]
    split_ifs
    · exact ⟨hother, rfl⟩
    · exact ⟨List.mem_append_left _ hother, List.idxOf_append_of_mem hother⟩
  have hnew : ∀ other ∈ names, other ∈ crates.names ∨ other = name := by
    intro other hother
    rw [hnames] at hother
    split_ifs at hother
    · exact Or.inl hother
    · exact (List.mem_append.mp hother).imp_right List.mem_singleton.mp
  have hmem : name ∈ names := by
    rw [hnames]
    split_ifs with hin
    · exact hin
    · exact List.mem_append_right _ List.mem_cons_self
  -- the edges are added in four groups
  have hgroups : Acyclic fun first second ↦ (((crates.edges first second ∨
      (first = localName ∧ second = name ∧ name ∉ crates.names ∧ transitive = false)) ∨
      (first = name ∧ code.isSome ∧ second ∈ [coreName, allocName, stdName])) ∨
      (first = name ∧ second ∈ manifest.dependencies.map snakeCase ∧ second ∈ crates.full)) ∨
      (second = name ∧ ∃ needed, (first, needed) ∈ crates.needed ∧ name ∈ needed) := by
    refine hacyclic.mono fun first second hedge ↦ ?_
    unfold Crates.edgesAfter
    simpa only [or_assoc] using hedge
  have hmanifest := hgroups.mono fun _ _ ↦ Or.inl
  have hdefaults := hmanifest.mono fun _ _ ↦ Or.inl
  obtain ⟨found, hfound, ⟨htextsFound, hneededFound⟩, hshowsFound⟩ :=
    findOrAddCrate_eq hshows hname (hdefaults.mono fun _ _ ↦ Or.inl)
  rw [← hnames] at hfound hshowsFound
  obtain ⟨loaded, hloaded, ⟨htextsLoaded, hneededLoaded⟩, hshowsLoaded⟩ :=
    addDefaultDeps_eq hshowsFound hmem
      (fun other hother ↦ (hold other (hshows.default_mem other hother)).1) hdefaults
  have htext : ∀ other ∈ names, other ≠ name → ∃ text,
      loaded.texts.lookup (names.idxOf other) = some text ∧ (text = [] ↔ other ∉ crates.full) := by
    intro other hother hne
    have hin := (hnew other hother).resolve_right hne
    rw [htextsLoaded, htextsFound, (hold other hin).2]
    exact hshows.text other hin
  obtain ⟨listed, hlisted, ⟨htextsListed, hneededListed⟩, hshowsListed⟩ :=
    addManifestDeps_eq (fun other hother ↦ (hold other (hshows.full_mem other hother)).1) hmem hself
      [] hshowsLoaded htext hmanifest
  have hkeys : ∀ entry ∈ listed.neededDeps, entry.1 ∈ names := by
    rw [hneededListed, hneededLoaded, hneededFound, hshows.neededDeps]
    exact fun entry hentry ↦ (hold _ (hshows.needed_mem entry hentry)).1
  have hneeded : listed.neededDeps = crates.needed :=
    hneededListed.trans (hneededLoaded.trans (hneededFound.trans hshows.neededDeps))
  obtain ⟨still, hstill, ⟨htextsStill, -⟩, hshowsStill⟩ :=
    addNeededDeps_eq hmem hname hkeys [] hshowsListed (by rwa [hneeded])
  have htexts : still.texts = world.texts :=
    htextsStill.trans (htextsListed.trans (htextsLoaded.trans htextsFound))
  rw [List.nil_append] at hlisted hstill
  rw [hneeded] at hstill hshowsStill
  have hedges : ShowsGraph still names
      (crates.edgesAfter name code (manifest.dependencies.map snakeCase) transitive) :=
    hshowsStill.congr fun first second ↦ by
      unfold Crates.edgesAfter
      simp only [or_assoc]
  refine ⟨{ still with
    neededDeps := (crates.load name code (manifest.dependencies.map snakeCase) transitive).needed
    texts := still.texts.insert (names.idxOf name) (code.getD []) },
    (manifest.dependencies.map snakeCase).filter (· ∉ crates.full), ?_, ?_⟩
  · simp only [WorldState.loadDependency, hgiven, hfound, hloaded, hlisted, hneeded, hstill,
      Option.bind_eq_bind, Option.bind_some, Crates.load]
  · exact {
      graph := {
        nodup := hedges.nodup
        sourceRoots := hedges.sourceRoots
        rootFileIds := hedges.rootFileIds
        hasEdge_iff := hedges.hasEdge_iff
        edge_mem := hedges.edge_mem }
      neededDeps := rfl
      needed_mem := by
        refine List.forall_mem_cons.mpr ⟨hmem, fun entry hentry ↦ ?_⟩
        obtain ⟨old, hmemOld, rfl⟩ := List.mem_map.mp (List.mem_filter.mp hentry).1
        exact (hold _ (hshows.needed_mem old hmemOld)).1
      text := by
        intro other hother
        by_cases heq : other = name
        · subst heq
          refine ⟨code.getD [], Finmap.lookup_insert _, ?_⟩
          unfold Crates.load
          dsimp only
          split_ifs with hempty
          · simp [hempty]
          · simp [hempty]
        · have hin := (hnew other hother).resolve_right heq
          obtain ⟨text, hlookup, hempty⟩ := hshows.text other hin
          have hplace : names.idxOf other ≠ names.idxOf name := fun hsame ↦
            heq ((List.idxOf_inj hother).mp hsame)
          refine ⟨text, ?_, ?_⟩
          · rw [← hlookup, ← (hold other hin).2, ← htexts]
            exact Finmap.lookup_insert_of_ne _ hplace
          · rw [hempty]
            unfold Crates.load
            dsimp only
            split_ifs
            · simp [heq]
            · simp [heq]
      full_mem := by
        intro other hother
        unfold Crates.load at hother
        dsimp only at hother
        split_ifs at hother
        · exact (hold other (hshows.full_mem other (Finset.mem_of_mem_erase hother))).1
        · rcases Finset.mem_insert.mp hother with rfl | hin
          · exact hmem
          · exact (hold other (hshows.full_mem other hin)).1
      head := by
        show names.head? = some localName
        rw [hnames]
        obtain ⟨rest, hrest⟩ := List.head?_eq_some_iff.mp hshows.head
        split_ifs
        · exact hshows.head
        · rw [hrest]
          rfl
      default_mem := fun other hother ↦ (hold other (hshows.default_mem other hother)).1 }

/-! ### Loading the default crates -/

/-- The default crates before their edges are added. -/
def startWorld : WorldState :=
  { WorldState.new with
    sourceRoots := sourceRootsOf defaultNames
    crateGraph := edgelessGraph 4 }

theorem showsGraph_startWorld : ShowsGraph startWorld defaultNames fun _ _ ↦ False where
  nodup := by decide
  sourceRoots := rfl
  rootFileIds := rootFileIds_edgelessGraph 4
  hasEdge_iff := by
    intro crateId depCrateId
    exact iff_of_false (not_hasEdge_edgelessGraph 4 crateId depCrateId) (by simp)
  edge_mem := by simp

/-- Loading the default crates gives them, the edges between them and their texts. -/
theorem loadDefaultCrates_eq (coreLib allocLib stdLib : Str) :
    ∃ graph, ShowsGraph { startWorld with crateGraph := graph } defaultNames DefaultEdge ∧
      WorldState.new.loadDefaultCrates coreLib allocLib stdLib = some { startWorld with
        crateGraph := graph
        texts := writeAll ∅
          [(localFileId₀, []), (1, coreLib), (2, allocLib), (3, stdLib)] } := by
  obtain ⟨hlocalPlace, hcorePlace, hallocPlace, hstdPlace⟩ := idxOf_defaultNames
  have hlocal : localName ∈ defaultNames := by decide
  have hcore : coreName ∈ defaultNames := by decide
  have halloc : allocName ∈ defaultNames := by decide
  have hstd : stdName ∈ defaultNames := by decide
  -- all edges together close no cycle, and neither do the first ones
  have hsixth := acyclic_defaultEdge.mono fun name depName ↦ (defaultEdge_iff name depName).mpr
  have hfifth := hsixth.mono fun _ _ ↦ Or.inl
  have hfourth := hfifth.mono fun _ _ ↦ Or.inl
  have hthird := hfourth.mono fun _ _ ↦ Or.inl
  have hsecond := hthird.mono fun _ _ ↦ Or.inl
  have hfirst := hsecond.mono fun _ _ ↦ Or.inl
  obtain ⟨graphOne, hone, hshowsOne⟩ := showsGraph_startWorld.addDep halloc hcore coreName hfirst
  obtain ⟨graphTwo, htwo, hshowsTwo⟩ := hshowsOne.addDep hstd hcore coreName hsecond
  obtain ⟨graphThree, hthree, hshowsThree⟩ := hshowsTwo.addDep hstd halloc allocName hthird
  obtain ⟨graphFour, hfour, hshowsFour⟩ := hshowsThree.addDep hlocal hcore coreName hfourth
  obtain ⟨graphFive, hfive, hshowsFive⟩ := hshowsFour.addDep hlocal halloc allocName hfifth
  obtain ⟨graph, hgraph, hshows⟩ := hshowsFive.addDep hlocal hstd stdName hsixth
  refine ⟨graph, hshows.congr defaultEdge_iff, ?_⟩
  rw [hallocPlace, hcorePlace] at hone
  rw [hstdPlace, hcorePlace] at htwo
  rw [hstdPlace, hallocPlace] at hthree
  rw [hlocalPlace, hcorePlace] at hfour
  rw [hlocalPlace, hallocPlace] at hfive
  rw [hlocalPlace, hstdPlace] at hgraph
  have hadded : WorldState.new.crateGraph.addCrateRoot localFileId₀ = (edgelessGraph 1, 0) :=
    addCrateRoot_edgelessGraph 0
  have hstart : startWorld.crateGraph = edgelessGraph 4 := rfl
  rw [hstart] at hone
  simp only [WorldState.loadDefaultCrates, hadded, addCrateRoot_edgelessGraph, Option.bind_eq_bind,
    hone, htwo, hthree, hfour, hfive, hgraph, Option.bind_some]
  rfl

/-- The world with the default crates. -/
theorem shows_loadDefaultCrates (coreLib allocLib stdLib : Str) :
    ∃ world, WorldState.new.loadDefaultCrates coreLib allocLib stdLib = some world ∧
      Shows world (Crates.default coreLib allocLib stdLib) := by
  obtain ⟨graph, hshows, hload⟩ := loadDefaultCrates_eq coreLib allocLib stdLib
  obtain ⟨hlocalPlace, hcorePlace, hallocPlace, hstdPlace⟩ := idxOf_defaultNames
  have hbindings : (defaultTexts coreLib allocLib stdLib).map
      (fun entry ↦ (defaultNames.idxOf entry.1, entry.2)) =
        [(localFileId₀, []), (1, coreLib), (2, allocLib), (3, stdLib)] := by
    simp only [defaultTexts, List.map_cons, List.map_nil, hlocalPlace, hcorePlace, hallocPlace,
      hstdPlace]
    rfl
  refine ⟨_, hload, ?_⟩
  exact {
    graph := {
      nodup := hshows.nodup
      sourceRoots := hshows.sourceRoots
      rootFileIds := hshows.rootFileIds
      hasEdge_iff := hshows.hasEdge_iff
      edge_mem := hshows.edge_mem }
    neededDeps := rfl
    needed_mem := nofun
    text := by
      intro name hname
      obtain ⟨entry, hentry, rfl⟩ : ∃ entry ∈ defaultTexts coreLib allocLib stdLib,
          entry.1 = name := List.mem_map.mp hname
      refine ⟨entry.2, ?_, ?_⟩
      · rw [← hbindings]
        refine lookup_writeAll_of_mem ?_ (List.mem_map_of_mem hentry)
        rw [hbindings]
        exact List.nodup_range (n := 4)
      · rw [mem_full_default hentry, not_not]
    full_mem := fun name hname ↦
      List.mem_cons_of_mem _ (mem_defaultNames_of_mem_full hname)
    head := rfl
    default_mem := fun name hname ↦ hname }

end Playground.RustAnalyzer
