import Playground.RustAnalyzer.Dependencies
import Mathlib.Logic.Relation

/-!
# Sequences of requests

A set of crates with fixed code and manifests is requested by calls of `load_dependency`: every crate at
least once in full, and before that possibly as a stub, directly or as the dependency of another one. The
invariant of such a sequence (`Loaded`) says of each dependency in a manifest that its edge is there or
that it is still needed, in which case its code is not there. `resolved_iff` says for which sequences the
edges are those of the manifests, with one from the local crate to every crate that was requested
directly: for those in which the first request of such a crate is a direct one.

Not formalized here: requests of crates of which the code is never loaded.
-/

set_option autoImplicit false
set_option relaxedAutoImplicit false

namespace Playground.RustAnalyzer

open Library

/-- A call of `load_dependency`. -/
structure Request where
  name : Str
  code : Option Str
  manifest : Option Manifest
  transitive : Bool

/-- The dependencies of the manifest of a request. -/
def Request.dependencies (request : Request) : List Str :=
  (request.manifest.getD ⟨[]⟩).dependencies.map snakeCase

section

variable [FileSets] [CrateGraphs]

/-- The world after a request. -/
def WorldState.request (world : WorldState) (request : Request) : Option WorldState :=
  (world.loadDependency request.name request.code request.manifest request.transitive).map Prod.fst

/-- The world after the default crates have been loaded and some requests have been made. -/
def WorldState.loadAll (coreLib allocLib stdLib : Str) (requests : List Request) :
    Option WorldState :=
  (WorldState.new.loadDefaultCrates coreLib allocLib stdLib).bind fun world ↦
    requests.foldlM WorldState.request world

end

/-- The names of the crates after a request. -/
def Crates.request (crates : Crates) (request : Request) : Crates :=
  crates.load request.name request.code request.dependencies request.transitive

/-- A set of crates beside the local one, with their code and their manifests. -/
structure CrateSet where
  names : Set Str
  code : Str → Str
  manifest : Str → Manifest
  code_ne_nil : ∀ name ∈ names, code name ≠ []
  snake_case : ∀ name ∈ names, '-' ∉ name
  ne_local : ∀ name ∈ names, name ≠ localName
  acyclic : ∀ name ∈ names, ¬ Relation.TransGen (fun first second ↦ first ∈ names ∧ second ∈ names ∧
    second ∈ (manifest first).dependencies.map snakeCase) name name

/-- The manifest of a crate lists another one. -/
def CrateSet.Lists (set : CrateSet) (name depName : Str) : Prop :=
  depName ∈ (set.manifest name).dependencies.map snakeCase

/-- A request of a crate with its code and manifest. -/
def CrateSet.Full (set : CrateSet) (request : Request) : Prop :=
  request.code = some (set.code request.name) ∧ request.manifest = some (set.manifest request.name)

/-- A request of a crate without its code. -/
def CrateSet.Stub (set : CrateSet) (request : Request) : Prop :=
  request.code = none ∧
    (request.manifest = none ∨ request.manifest = some (set.manifest request.name))

/-- Requests of the crates of the set, each of which is requested in full at least once, and as a stub
only before that. -/
structure CrateSet.Requests (set : CrateSet) (requests : List Request) : Prop where
  mem : ∀ request ∈ requests, request.name ∈ set.names
  full_or_stub : ∀ request ∈ requests, set.Full request ∨ set.Stub request
  stub_first : ∀ before request, before ++ [request] <+: requests → set.Stub request →
    ∀ earlier ∈ before, earlier.name = request.name → ¬ set.Full earlier
  full : ∀ name ∈ set.names, ∃ request ∈ requests, request.name = name ∧ set.Full request

/-- The first request of a crate is a direct one. -/
def FirstDirect (requests : List Request) (name : Str) : Prop :=
  ∃ request, requests.find? (fun request ↦ request.name = name) = some request ∧
    request.transitive = false

/-- The edges that depend only on the set of crates and on which of them are requested directly. -/
def CrateSet.Expected (set : CrateSet) (requests : List Request) (name depName : Str) : Prop :=
  DefaultEdge name depName ∨
    (name = localName ∧ ∃ request ∈ requests, request.transitive = false ∧ request.name = depName) ∨
    (name ∈ set.names ∧
      (depName ∈ [coreName, allocName, stdName] ∨ depName ∈ set.names ∧ set.Lists name depName))

/-- The edges are as expected: the local crate has one to every crate that is requested directly, and the
crates of the set have those that their manifests list. -/
structure Resolved [FileSets] [CrateGraphs] (set : CrateSet) (requests : List Request)
    (world : WorldState) : Prop where
  direct : ∀ request ∈ requests, request.transitive = false → world.Edge localName request.name
  edge_iff : ∀ name ∈ set.names, ∀ depName ∈ set.names,
    world.Edge name depName ↔ set.Lists name depName
  expected_iff : ∀ name depName, world.Edge name depName ↔ set.Expected requests name depName

/-! ### One request -/

variable {set : CrateSet} {requests : List Request} {crates : Crates} {request : Request}

/-- A request lists no more than the manifest. -/
theorem lists_of_mem_dependencies (hkind : set.Full request ∨ set.Stub request) {depName : Str}
    (hdep : depName ∈ request.dependencies) : set.Lists request.name depName := by
  unfold Request.dependencies at hdep
  rcases hkind with ⟨-, hmanifest⟩ | ⟨-, hmanifest | hmanifest⟩
  · rwa [hmanifest] at hdep
  · rw [hmanifest] at hdep
    cases hdep
  · rwa [hmanifest] at hdep

/-- A full request lists all of the manifest. -/
theorem mem_dependencies_of_full (hfull : set.Full request) {depName : Str}
    (hlists : set.Lists request.name depName) : depName ∈ request.dependencies := by
  rw [Request.dependencies, hfull.2]
  exact hlists

/-- No crate lists itself. -/
theorem not_lists_self {name : Str} (hname : name ∈ set.names) : ¬ set.Lists name name :=
  fun hlists ↦ set.acyclic name hname (Relation.TransGen.single ⟨hname, hname, hlists⟩)

/-- A stub is not a full request. -/
theorem not_full_of_stub (hstub : set.Stub request) : ¬ set.Full request := by
  rintro ⟨hcode, -⟩
  rw [hstub.1] at hcode
  cases hcode

/-- What a default crate depends on is a default crate. -/
theorem mem_of_defaultEdge {name depName : Str} (hedge : DefaultEdge name depName) :
    depName ∈ [coreName, allocName, stdName] := by
  rcases hedge with ⟨-, hdep⟩ | ⟨-, rfl⟩ | ⟨-, hdep⟩
  · exact hdep
  · exact List.mem_cons_self
  · exact List.mem_of_mem_dropLast hdep

open Classical in
/-- The crates in layers: the default ones, those of the set, and the local one. -/
noncomputable def CrateSet.layer (set : CrateSet) (name : Str) : ℕ :=
  if name = localName then 2 else if name ∈ set.names then 1 else 0

/-- The expected edges close no cycle, if no crate of the set is a default one. -/
theorem acyclic_expected (hmem : ∀ request ∈ requests, request.name ∈ set.names)
    (hfresh : ∀ name ∈ set.names, name ∉ [coreName, allocName, stdName]) :
    Acyclic (set.Expected requests) := by
  have hlocal : set.layer localName = 2 := if_pos rfl
  have hset : ∀ name ∈ set.names, set.layer name = 1 := fun name hname ↦
    (if_neg (set.ne_local name hname)).trans (if_pos hname)
  have hdefault : ∀ name ∈ [coreName, allocName, stdName], set.layer name = 0 := by
    intro name hname
    have hne : name ≠ localName := by
      rintro rfl
      exact absurd hname (by decide)
    exact (if_neg hne).trans (if_neg fun hin ↦ hfresh name hin hname)
  have hlisted : Acyclic fun first second ↦ first ∈ set.names ∧ second ∈ set.names ∧
      set.Lists first second := by
    intro name hcycle
    obtain ⟨_, ⟨hname, -⟩, -⟩ := Relation.TransGen.head'_iff.mp hcycle
    exact set.acyclic name hname hcycle
  have hle : ∀ name depName, set.Expected requests name depName →
      set.layer depName ≤ set.layer name := by
    rintro name depName (hedge | ⟨rfl, -⟩ | ⟨hname, hdep | ⟨hdep, -⟩⟩)
    · rw [hdefault _ (mem_of_defaultEdge hedge)]
      exact Nat.zero_le _
    · rw [hlocal, CrateSet.layer]
      split_ifs <;> decide
    · rw [hdefault _ hdep]
      exact Nat.zero_le _
    · rw [hset _ hname, hset _ hdep]
  refine acyclic_of_layers hle fun level ↦ ?_
  by_cases hlevel : level = 1
  · -- between the crates of the set there are only the edges of the manifests
    refine hlisted.mono ?_
    rintro name depName ⟨hedge | ⟨rfl, -⟩ | ⟨hname, hdep | ⟨hdep, hlists⟩⟩, hfirst, hsecond⟩
    · rw [hdefault _ (mem_of_defaultEdge hedge)] at hsecond
      omega
    · rw [hlocal] at hfirst
      omega
    · rw [hdefault _ hdep] at hsecond
      omega
    · exact ⟨hname, hdep, hlists⟩
  · -- in the other layers there are only those between the default crates
    refine acyclic_defaultEdge.mono ?_
    rintro name depName ⟨hedge | ⟨rfl, request, hrequest, -, rfl⟩ | ⟨hname, -⟩, hfirst, hsecond⟩
    · exact hedge
    · rw [hset _ (hmem request hrequest)] at hsecond
      exact absurd hsecond.symm hlevel
    · rw [hset _ hname] at hfirst
      exact absurd hfirst.symm hlevel

/-- What has been requested first stays so. -/
theorem firstDirect_append_iff {name : Str} :
    FirstDirect (requests ++ [request]) name ↔ FirstDirect requests name ∨
      ((∀ earlier ∈ requests, earlier.name ≠ name) ∧ request.name = name ∧
        request.transitive = false) := by
  unfold FirstDirect
  rw [List.find?_append]
  cases hfind : requests.find? fun request ↦ request.name = name with
  | some first =>
    have hname : first.name = name := by simpa using List.find?_some hfind
    simp only [Option.some_or, Option.some.injEq, exists_eq_left']
    refine (or_iff_left ?_).symm
    exact fun hnew ↦ hnew.1 first (List.mem_of_find?_eq_some hfind) hname
  | none =>
    have hnone : ∀ earlier ∈ requests, earlier.name ≠ name := by
      simpa using List.find?_eq_none.mp hfind
    simp only [Option.none_or, reduceCtorEq, false_and, exists_false, false_or]
    by_cases hname : request.name = name
    · simp only [hname, List.find?_singleton, decide_true, if_true, Option.some.injEq,
        exists_eq_left', true_and]
      exact (and_iff_right hnone).symm
    · simp [hname]

/-- What holds of the names of the crates after some requests. -/
structure Loaded (set : CrateSet) (requests : List Request) (crates : Crates) : Prop where
  mem_names : ∀ name, name ∈ crates.names ↔
    name ∈ defaultNames ∨ ∃ request ∈ requests, request.name = name
  full_of : ∀ request ∈ requests, set.Full request → request.name ∈ crates.full
  of_full : ∀ name ∈ crates.full,
    name ∈ [coreName, allocName, stdName] ∨ ∃ request ∈ requests, request.name = name
  needed_lists : ∀ entry ∈ crates.needed,
    entry.1 ∈ set.names ∧ ∀ depName ∈ entry.2, set.Lists entry.1 depName
  listed : ∀ request ∈ requests, set.Full request → ∀ depName, set.Lists request.name depName →
    crates.edges request.name depName ∨
      ∃ needed, (request.name, needed) ∈ crates.needed ∧ depName ∈ needed
  needed_edge : ∀ entry ∈ crates.needed, ∀ depName ∈ entry.2,
    crates.edges entry.1 depName ∨ depName ∉ crates.full
  defaults : ∀ request ∈ requests, set.Full request →
    ∀ depName ∈ [coreName, allocName, stdName], crates.edges request.name depName
  default_edge : ∀ name depName, DefaultEdge name depName → crates.edges name depName
  sound : ∀ name depName, crates.edges name depName → set.Expected requests name depName
  local_iff : ∀ name ∉ defaultNames, crates.edges localName name ↔ FirstDirect requests name

/-- An entry that is still needed is an old one, or that of the request. -/
theorem mem_needed_request {entry : Str × List Str}
    (hentry : entry ∈ (crates.request request).needed) :
    entry = (request.name, request.dependencies.filter (· ∉ crates.full)) ∨
      entry.1 ≠ request.name ∧
        ∃ old, (entry.1, old) ∈ crates.needed ∧ entry.2 = old.erase request.name := by
  rcases List.mem_cons.mp hentry with heq | hold
  · exact Or.inl heq
  · obtain ⟨hmem, hne⟩ := List.mem_filter.mp hold
    obtain ⟨old, hin, rfl⟩ := List.mem_map.mp hmem
    exact Or.inr ⟨by simpa using hne, old.2, hin, rfl⟩

/-- An old entry is still needed, with the exception of that of the request. -/
theorem mem_needed_of_ne {name : Str} {needed : List Str} (hentry : (name, needed) ∈ crates.needed)
    (hne : name ≠ request.name) :
    (name, needed.erase request.name) ∈ (crates.request request).needed :=
  List.mem_cons_of_mem _ (List.mem_filter.mpr
    ⟨List.mem_map.mpr ⟨(name, needed), hentry, rfl⟩, by simpa using hne⟩)

/-- A full request provides the code of its crate. -/
theorem full_request_of_full (hname : request.name ∈ set.names) (hfull : set.Full request) :
    (crates.request request).full = insert request.name crates.full := by
  rw [Crates.request, Crates.load, hfull.1]
  exact if_neg (set.code_ne_nil _ hname)

/-- A stub removes the code of its crate. -/
theorem full_request_of_stub (hstub : set.Stub request) :
    (crates.request request).full = crates.full.erase request.name := by
  rw [Crates.request, Crates.load, hstub.1]
  rfl

/-- A request provides the code of no other crate. -/
theorem full_request_subset : (crates.request request).full ⊆ insert request.name crates.full := by
  unfold Crates.request Crates.load
  dsimp only
  split_ifs
  · exact (Finset.erase_subset _ _).trans (Finset.subset_insert _ _)
  · exact Finset.Subset.refl _

/-- The edges of the local crate after a request. -/
theorem edges_localName_iff (hloaded : Loaded set requests crates)
    (hname : request.name ∈ set.names) (name : Str) :
    (crates.request request).edges localName name ↔ crates.edges localName name ∨
      (name = request.name ∧ request.name ∉ crates.names ∧ request.transitive = false) := by
  have hlocal : localName ≠ request.name := (set.ne_local _ hname).symm
  constructor
  · rintro (hedge | ⟨-, hnew⟩ | ⟨heq, -⟩ | ⟨heq, -⟩ | ⟨-, needed, hentry, -⟩)
    · exact Or.inl hedge
    · exact Or.inr hnew
    · exact absurd heq hlocal
    · exact absurd heq hlocal
    · exact absurd rfl (set.ne_local _ (hloaded.needed_lists _ hentry).1)
  · rintro (hedge | hnew)
    · exact Or.inl hedge
    · exact Or.inr (Or.inl ⟨rfl, hnew⟩)

/-- More is expected after more requests. -/
theorem expected_append {name depName : Str} (hexpected : set.Expected requests name depName) :
    set.Expected (requests ++ [request]) name depName := by
  rcases hexpected with hdefault | ⟨hlocal, earlier, hmem, hdirect⟩ | hlists
  · exact Or.inl hdefault
  · exact Or.inr (Or.inl ⟨hlocal, earlier, List.mem_append_left _ hmem, hdirect⟩)
  · exact Or.inr (Or.inr hlists)

/-- The edges that a request adds are expected. -/
theorem expected_of_edges_request (hloaded : Loaded set requests crates)
    (hmem : ∀ earlier ∈ requests, earlier.name ∈ set.names) (hname : request.name ∈ set.names)
    (hkind : set.Full request ∨ set.Stub request) {name depName : Str}
    (hedge : (crates.request request).edges name depName) :
    set.Expected (requests ++ [request]) name depName := by
  have hlast : request ∈ requests ++ [request] := List.mem_append_right _ List.mem_cons_self
  rcases hedge with hold | ⟨hlocal, rfl, -, hdirect⟩ | ⟨rfl, -, hdefault⟩ | ⟨rfl, hdep, hthere⟩ |
    ⟨rfl, needed, hentry, hdep⟩
  · exact expected_append (hloaded.sound _ _ hold)
  · exact Or.inr (Or.inl ⟨hlocal, request, hlast, hdirect, rfl⟩)
  · exact Or.inr (Or.inr ⟨hname, Or.inl hdefault⟩)
  · refine Or.inr (Or.inr ⟨hname, ?_⟩)
    rcases hloaded.of_full _ hthere with hdefault | ⟨earlier, hearlier, rfl⟩
    · exact Or.inl hdefault
    · exact Or.inr ⟨hmem earlier hearlier, lists_of_mem_dependencies hkind hdep⟩
  · obtain ⟨hin, hlists⟩ := hloaded.needed_lists _ hentry
    exact Or.inr (Or.inr ⟨hin, Or.inr ⟨hname, hlists _ hdep⟩⟩)

/-- A dependency that is listed is there or needed, also after a request of another crate. -/
theorem listed_request_of_ne (hloaded : Loaded set requests crates) {earlier : Request}
    (hearlier : earlier ∈ requests) (hfull : set.Full earlier) (hne : earlier.name ≠ request.name)
    {depName : Str} (hlists : set.Lists earlier.name depName) :
    (crates.request request).edges earlier.name depName ∨
      ∃ needed, (earlier.name, needed) ∈ (crates.request request).needed ∧ depName ∈ needed := by
  rcases hloaded.listed earlier hearlier hfull depName hlists with hedge | ⟨needed, hentry, hdep⟩
  · exact Or.inl (Or.inl hedge)
  · by_cases heq : depName = request.name
    · subst heq
      exact Or.inl (Or.inr (Or.inr (Or.inr (Or.inr ⟨rfl, needed, hentry, hdep⟩))))
    · exact Or.inr ⟨_, mem_needed_of_ne hentry hne, (List.mem_erase_of_ne heq).mpr hdep⟩

/-- A dependency that a full request lists is there or needed. -/
theorem listed_request_self (hfull : set.Full request) {depName : Str}
    (hlists : set.Lists request.name depName) :
    (crates.request request).edges request.name depName ∨
      ∃ needed, (request.name, needed) ∈ (crates.request request).needed ∧ depName ∈ needed := by
  have hdep := mem_dependencies_of_full hfull hlists
  by_cases hthere : depName ∈ crates.full
  · exact Or.inl (Or.inr (Or.inr (Or.inr (Or.inl ⟨rfl, hdep, hthere⟩))))
  · exact Or.inr ⟨_, List.mem_cons_self, List.mem_filter.mpr ⟨hdep, by simpa using hthere⟩⟩

/-- A request keeps the invariant. -/
theorem loaded_request (hloaded : Loaded set requests crates)
    (hmem : ∀ earlier ∈ requests, earlier.name ∈ set.names) (hname : request.name ∈ set.names)
    (hkind : set.Full request ∨ set.Stub request)
    (hstub : set.Stub request →
      ∀ earlier ∈ requests, earlier.name = request.name → ¬ set.Full earlier) :
    Loaded set (requests ++ [request]) (crates.request request) := by
  have hself : request.name ∉ request.dependencies := fun hdep ↦
    not_lists_self hname (lists_of_mem_dependencies hkind hdep)
  constructor
  case mem_names =>
    intro name
    rw [Crates.request, Crates.load]
    dsimp only
    split_ifs with hin
    · rw [hloaded.mem_names]
      constructor
      · rintro (hdefault | ⟨earlier, hearlier, hsame⟩)
        · exact Or.inl hdefault
        · exact Or.inr ⟨earlier, List.mem_append_left _ hearlier, hsame⟩
      · rintro (hdefault | ⟨earlier, hearlier, rfl⟩)
        · exact Or.inl hdefault
        · rcases List.mem_append.mp hearlier with hold | hnew
          · exact Or.inr ⟨earlier, hold, rfl⟩
          · rw [List.mem_singleton.mp hnew]
            exact (hloaded.mem_names _).mp hin
    · rw [List.mem_append, hloaded.mem_names, List.mem_singleton, or_assoc]
      refine or_congr_right ?_
      simp only [List.mem_append, List.mem_singleton, or_and_right, exists_or, exists_eq_left]
      exact or_congr_right eq_comm
  case full_of =>
    intro earlier hearlier hfull
    rcases hkind with hkind | hkind
    · rw [full_request_of_full hname hkind, Finset.mem_insert]
      rcases List.mem_append.mp hearlier with hold | hnew
      · exact Or.inr (hloaded.full_of earlier hold hfull)
      · exact Or.inl (congrArg Request.name (List.mem_singleton.mp hnew))
    · rw [full_request_of_stub hkind, Finset.mem_erase]
      rcases List.mem_append.mp hearlier with hold | hnew
      · exact ⟨fun hsame ↦ hstub hkind earlier hold hsame hfull, hloaded.full_of earlier hold hfull⟩
      · rw [List.mem_singleton.mp hnew] at hfull
        exact absurd hfull (not_full_of_stub hkind)
  case of_full =>
    intro name hin
    rcases Finset.mem_insert.mp (full_request_subset hin) with rfl | hold
    · exact Or.inr ⟨request, List.mem_append_right _ List.mem_cons_self, rfl⟩
    · rcases hloaded.of_full name hold with hdefault | ⟨earlier, hearlier, hsame⟩
      · exact Or.inl hdefault
      · exact Or.inr ⟨earlier, List.mem_append_left _ hearlier, hsame⟩
  case needed_lists =>
    intro entry hentry
    rcases mem_needed_request hentry with rfl | ⟨-, old, hold, hdeps⟩
    · exact ⟨hname, fun depName hdep ↦
        lists_of_mem_dependencies hkind (List.mem_filter.mp hdep).1⟩
    · obtain ⟨hin, hlists⟩ := hloaded.needed_lists _ hold
      rw [hdeps]
      exact ⟨hin, fun depName hdep ↦ hlists depName (List.mem_of_mem_erase hdep)⟩
  case listed =>
    intro earlier hearlier hfull depName hlists
    by_cases hsame : earlier.name = request.name
    · rcases hkind with hkind | hkind
      · rw [hsame] at hlists ⊢
        exact listed_request_self hkind hlists
      · rcases List.mem_append.mp hearlier with hold | hnew
        · exact absurd hfull (hstub hkind earlier hold hsame)
        · rw [List.mem_singleton.mp hnew] at hfull
          exact absurd hfull (not_full_of_stub hkind)
    · rcases List.mem_append.mp hearlier with hold | hnew
      · exact listed_request_of_ne hloaded hold hfull hsame hlists
      · exact absurd (congrArg Request.name (List.mem_singleton.mp hnew)) hsame
  case needed_edge =>
    intro entry hentry depName hdep
    rcases mem_needed_request hentry with rfl | ⟨-, old, hold, hdeps⟩
    · obtain ⟨hin, hnot⟩ := List.mem_filter.mp hdep
      right
      intro hthere
      rcases Finset.mem_insert.mp (full_request_subset hthere) with rfl | hfull
      · exact hself hin
      · simp [hfull] at hnot
    · rw [hdeps] at hdep
      have hin := List.mem_of_mem_erase hdep
      by_cases heq : depName = request.name
      · subst heq
        exact Or.inl (Or.inr (Or.inr (Or.inr (Or.inr ⟨rfl, old, hold, hin⟩))))
      · rcases hloaded.needed_edge _ hold depName hin with hedge | hnot
        · exact Or.inl (Or.inl hedge)
        · right
          intro hthere
          rcases Finset.mem_insert.mp (full_request_subset hthere) with hsame | hfull
          · exact heq hsame
          · exact hnot hfull
  case defaults =>
    intro earlier hearlier hfull depName hdefault
    rcases List.mem_append.mp hearlier with hold | hnew
    · exact Or.inl (hloaded.defaults earlier hold hfull depName hdefault)
    · rw [List.mem_singleton.mp hnew] at hfull ⊢
      exact Or.inr (Or.inr (Or.inl ⟨rfl, by rw [hfull.1]; rfl, hdefault⟩))
  case default_edge => exact fun name depName hedge ↦ Or.inl (hloaded.default_edge _ _ hedge)
  case sound => exact fun name depName ↦ expected_of_edges_request hloaded hmem hname hkind
  case local_iff =>
    intro name hnot
    rw [edges_localName_iff hloaded hname, hloaded.local_iff name hnot, firstDirect_append_iff]
    refine or_congr_right ?_
    constructor
    · rintro ⟨rfl, hnew, hdirect⟩
      refine ⟨fun earlier hearlier hsame ↦ hnew ?_, rfl, hdirect⟩
      exact (hloaded.mem_names _).mpr (Or.inr ⟨earlier, hearlier, hsame⟩)
    · rintro ⟨hnone, rfl, hdirect⟩
      refine ⟨rfl, fun hin ↦ ?_, hdirect⟩
      rcases (hloaded.mem_names _).mp hin with hdefault | ⟨earlier, hearlier, hsame⟩
      · exact hnot hdefault
      · exact hnone earlier hearlier hsame

/-! ### All requests -/

/-- Nothing has been requested. -/
theorem loaded_default (set : CrateSet) (coreLib allocLib stdLib : Str) :
    Loaded set [] (Crates.default coreLib allocLib stdLib) := by
  constructor
  case mem_names => simp [Crates.default]
  case full_of => exact fun request hin ↦ absurd hin List.not_mem_nil
  case of_full => exact fun name hin ↦ Or.inl (mem_defaultNames_of_mem_full hin)
  case needed_lists => exact fun entry hin ↦ absurd hin List.not_mem_nil
  case listed => exact fun request hin ↦ absurd hin List.not_mem_nil
  case needed_edge => exact fun entry hin ↦ absurd hin List.not_mem_nil
  case defaults => exact fun request hin ↦ absurd hin List.not_mem_nil
  case default_edge => exact fun name depName hedge ↦ hedge
  case sound => exact fun name depName hedge ↦ Or.inl hedge
  case local_iff =>
    intro name hnot
    refine iff_of_false ?_ (by simp [FirstDirect])
    rintro (⟨-, hdefault⟩ | ⟨hlocal, -⟩ | ⟨hlocal, -⟩)
    · exact hnot (List.mem_cons_of_mem _ hdefault)
    · exact absurd hlocal (by decide)
    · exact absurd hlocal (by decide)

section

variable [FileSets] [CrateGraphs]

/-- The world after the requests has the crates of the abstract model, for which the invariant holds. -/
theorem shows_loadAll (hrequests : set.Requests requests)
    (hfresh : ∀ name ∈ set.names, name ∉ [coreName, allocName, stdName])
    (coreLib allocLib stdLib : Str) :
    ∀ done, done <+: requests → ∃ world crates,
      WorldState.loadAll coreLib allocLib stdLib done = some world ∧
        Shows world crates ∧ Loaded set done crates := by
  intro done
  induction done using List.reverseRecOn with
  | nil =>
    intro _
    obtain ⟨world, hload, hshows⟩ := shows_loadDefaultCrates coreLib allocLib stdLib
    refine ⟨world, _, ?_, hshows, loaded_default set coreLib allocLib stdLib⟩
    rw [WorldState.loadAll, hload]
    rfl
  | append_singleton before request ih =>
    intro hprefix
    have hbefore := (List.prefix_append before [request]).trans hprefix
    have hin : request ∈ requests :=
      hprefix.subset (List.mem_append_right _ List.mem_cons_self)
    obtain ⟨world, crates, hworld, hshows, hloaded⟩ := ih hbefore
    have hname := hrequests.mem request hin
    have hkind := hrequests.full_or_stub request hin
    have hself : request.name ∉ request.dependencies := fun hdep ↦
      not_lists_self hname (lists_of_mem_dependencies hkind hdep)
    have hmem : ∀ earlier ∈ before, earlier.name ∈ set.names := fun earlier hearlier ↦
      hrequests.mem earlier (hbefore.subset hearlier)
    have hacyclic : Acyclic (crates.request request).edges := by
      refine (acyclic_expected (fun earlier hearlier ↦ ?_) hfresh).mono
        fun _ _ ↦ expected_of_edges_request hloaded hmem hname hkind
      exact hrequests.mem earlier <| hprefix.subset hearlier
    obtain ⟨after, needed, hafter, hshowsAfter⟩ := shows_loadDependency hshows
      (set.snake_case _ hname) request.code hself rfl request.transitive hacyclic
    refine ⟨after, crates.request request, ?_, hshowsAfter, loaded_request hloaded hmem hname hkind
      (hrequests.stub_first before request hprefix)⟩
    unfold WorldState.loadAll at hworld ⊢
    obtain ⟨start, hstart, hfold⟩ := Option.bind_eq_some_iff.mp hworld
    rw [hstart, Option.bind_some, List.foldlM_append, hfold]
    simp [WorldState.request, hafter]

/-- The edges are as expected exactly if no crate of the set is a default one, and every crate that is
requested directly is so the first time. -/
theorem resolved_iff (hrequests : set.Requests requests) (coreLib allocLib stdLib : Str) :
    (∃ world, WorldState.loadAll coreLib allocLib stdLib requests = some world ∧
        Resolved set requests world) ↔
      (∀ name ∈ set.names, name ∉ [coreName, allocName, stdName]) ∧
        ∀ request ∈ requests, request.transitive = false → FirstDirect requests request.name := by
  have hdefaultNames : (∀ name ∈ set.names, name ∉ [coreName, allocName, stdName]) →
      ∀ name ∈ set.names, name ∉ defaultNames := by
    intro hfresh name hname hin
    rcases List.mem_cons.mp hin with rfl | hdefault
    · exact set.ne_local _ hname rfl
    · exact hfresh name hname hdefault
  constructor
  · rintro ⟨world, hworld, hresolved⟩
    -- a default crate with its code would depend on itself, which its manifest does not list
    have hfresh : ∀ name ∈ set.names, name ∉ [coreName, allocName, stdName] := by
      intro name hname hdefault
      have hself := (hresolved.expected_iff name name).mpr (Or.inr (Or.inr ⟨hname, Or.inl hdefault⟩))
      exact not_lists_self hname ((hresolved.edge_iff _ hname _ hname).mp hself)
    obtain ⟨other, crates, hother, hshows, hloaded⟩ :=
      shows_loadAll hrequests hfresh coreLib allocLib stdLib requests (List.prefix_refl _)
    rw [hworld] at hother
    cases hother
    refine ⟨hfresh, fun request hrequest hdirect ↦ ?_⟩
    have hlocal := (hshows.graph.edge_iff _ _).mp (hresolved.direct request hrequest hdirect)
    have hnot := hdefaultNames hfresh _ (hrequests.mem request hrequest)
    exact (hloaded.local_iff _ hnot).mp hlocal
  · rintro ⟨hfresh, hfirst⟩
    obtain ⟨world, crates, hworld, hshows, hloaded⟩ :=
      shows_loadAll hrequests hfresh coreLib allocLib stdLib requests (List.prefix_refl _)
    have hedge := hshows.graph.edge_iff
    have hdirect : ∀ request ∈ requests, request.transitive = false →
        crates.edges localName request.name := fun request hrequest hdirect ↦
      (hloaded.local_iff _ (hdefaultNames hfresh _ (hrequests.mem request hrequest))).mpr
        (hfirst request hrequest hdirect)
    have hlisted : ∀ name ∈ set.names, ∀ depName ∈ set.names, set.Lists name depName →
        crates.edges name depName := by
      intro name hname depName hdepName hlists
      obtain ⟨request, hrequest, rfl, hfull⟩ := hrequests.full name hname
      obtain ⟨depRequest, hdepRequest, rfl, hdepFull⟩ := hrequests.full depName hdepName
      rcases hloaded.listed request hrequest hfull _ hlists with hedge | ⟨needed, hentry, hdep⟩
      · exact hedge
      · refine (hloaded.needed_edge _ hentry _ hdep).resolve_right ?_
        exact not_not.mpr (hloaded.full_of depRequest hdepRequest hdepFull)
    refine ⟨world, hworld, ?_⟩
    constructor
    case direct => exact fun request hrequest htransitive ↦
      (hedge _ _).mpr (hdirect request hrequest htransitive)
    case edge_iff =>
      intro name hname depName hdepName
      rw [hedge]
      constructor
      · intro hsome
        rcases hloaded.sound _ _ hsome with hdefault | ⟨rfl, -⟩ | ⟨-, hdefault | ⟨-, hlists⟩⟩
        · refine absurd ?_ (hdefaultNames hfresh name hname)
          rcases hdefault with ⟨rfl, -⟩ | ⟨rfl, -⟩ | ⟨rfl, -⟩ <;> decide
        · exact absurd rfl (set.ne_local _ hname)
        · exact absurd hdefault (hfresh _ hdepName)
        · exact hlists
      · exact hlisted name hname depName hdepName
    case expected_iff =>
      intro name depName
      rw [hedge]
      constructor
      · exact hloaded.sound name depName
      · rintro (hdefault | ⟨rfl, request, hrequest, htransitive, rfl⟩ |
          ⟨hname, hdefault | ⟨hdepName, hlists⟩⟩)
        · exact hloaded.default_edge _ _ hdefault
        · exact hdirect request hrequest htransitive
        · obtain ⟨request, hrequest, rfl, hfull⟩ := hrequests.full name hname
          exact hloaded.defaults request hrequest hfull _ hdefault
        · exact hlisted name hname depName hdepName hlists

end

/-! ### Two crates -/

/-- A full request. -/
def CrateSet.fullRequest (set : CrateSet) (name : Str) (transitive : Bool) : Request :=
  ⟨name, some (set.code name), some (set.manifest name), transitive⟩

/-- Full requests of all the crates of a set. -/
theorem requests_of_full {calls : List (Str × Bool)} (hmem : ∀ call ∈ calls, call.1 ∈ set.names)
    (hall : ∀ name ∈ set.names, name ∈ calls.map Prod.fst) :
    set.Requests (calls.map fun call ↦ set.fullRequest call.1 call.2) := by
  have hfull : ∀ request ∈ calls.map fun call ↦ set.fullRequest call.1 call.2,
      request.name ∈ set.names ∧ set.Full request := by
    intro request hrequest
    obtain ⟨call, hcall, rfl⟩ := List.mem_map.mp hrequest
    exact ⟨hmem call hcall, rfl, rfl⟩
  constructor
  case mem => exact fun request hrequest ↦ (hfull request hrequest).1
  case full_or_stub => exact fun request hrequest ↦ Or.inl (hfull request hrequest).2
  case stub_first =>
    intro before request hprefix hstub
    have hrequest := hprefix.subset (List.mem_append_right before List.mem_cons_self)
    exact absurd (hfull request hrequest).2 (not_full_of_stub hstub)
  case full =>
    intro name hname
    obtain ⟨call, hcall, rfl⟩ := List.mem_map.mp (hall name hname)
    exact ⟨_, List.mem_map_of_mem hcall, rfl, rfl, rfl⟩

/-- The crate `a`, whose manifest lists the crate `b`. -/
def twoCrates : CrateSet where
  names := {"a".toList, "b".toList}
  code := fun _ ↦ "mod x;".toList
  manifest := fun name ↦ if name = "a".toList then ⟨["b".toList]⟩ else ⟨[]⟩
  code_ne_nil := fun _ _ ↦ by decide
  snake_case := by
    rintro name (rfl | rfl)
    · decide
    · decide
  ne_local := by
    rintro name (rfl | rfl)
    · decide
    · decide
  acyclic := by
    intro name _ hcycle
    have hends : ∀ last, Relation.TransGen (fun first second ↦ first ∈ ({"a".toList, "b".toList} :
        Set Str) ∧ second ∈ ({"a".toList, "b".toList} : Set Str) ∧ second ∈
          (if first = "a".toList then (⟨["b".toList]⟩ : Manifest) else ⟨[]⟩).dependencies.map
            snakeCase) name last → name = "a".toList ∧ last = "b".toList := by
      have hstep : ∀ first second : Str, second ∈
          (if first = "a".toList then (⟨["b".toList]⟩ : Manifest) else ⟨[]⟩).dependencies.map
            snakeCase → first = "a".toList ∧ second = "b".toList := by
        intro first second hsecond
        split_ifs at hsecond with heq
        · exact ⟨heq, List.mem_singleton.mp hsecond⟩
        · cases hsecond
      intro last hpath
      induction hpath with
      | single hedge => exact hstep _ _ hedge.2.2
      | tail _ hedge ih =>
        have hmiddle := (hstep _ _ hedge.2.2).1
        rw [ih.2] at hmiddle
        exact absurd hmiddle (by decide)
    obtain ⟨hfirst, hlast⟩ := hends name hcycle
    rw [hfirst] at hlast
    exact absurd hlast (by decide)

/-- Full requests of the crates `a` and `b`, in any order. -/
theorem requests_twoCrates {calls : List (Str × Bool)}
    (hcalls : ∀ call ∈ calls, call.1 = "a".toList ∨ call.1 = "b".toList)
    (hone : "a".toList ∈ calls.map Prod.fst) (htwo : "b".toList ∈ calls.map Prod.fst) :
    twoCrates.Requests (calls.map fun call ↦ twoCrates.fullRequest call.1 call.2) := by
  refine requests_of_full hcalls ?_
  rintro name (rfl | rfl)
  · exact hone
  · exact htwo

/-- Neither is a default crate. -/
theorem notMem_of_mem_twoCrates :
    ∀ name ∈ twoCrates.names, name ∉ [coreName, allocName, stdName] := by
  rintro name (rfl | rfl)
  · decide
  · decide

local instance : FileSets := referenceFileSets

local instance : CrateGraphs := referenceCrateGraphs

/-- A crate is requested directly, and then its dependency. -/
theorem resolved_iff_two_crates :
    ∃ world, WorldState.loadAll [] [] []
        ([("a".toList, false), ("b".toList, true)].map fun call ↦
          twoCrates.fullRequest call.1 call.2) = some world ∧
      Resolved twoCrates ([("a".toList, false), ("b".toList, true)].map fun call ↦
        twoCrates.fullRequest call.1 call.2) world := by
  refine (resolved_iff (requests_twoCrates (by decide) (by decide) (by decide)) [] [] []).mpr
    ⟨notMem_of_mem_twoCrates, ?_⟩
  intro request hrequest hdirect
  simp only [List.map_cons, List.map_nil, List.mem_cons, List.not_mem_nil, or_false] at hrequest
  rcases hrequest with rfl | rfl
  · exact ⟨_, rfl, rfl⟩
  · cases hdirect

/-- A crate that is requested as the dependency of another one first, and then directly, is none of the
local crate. -/
theorem not_resolved_transitive_first :
    twoCrates.Requests ([("a".toList, false), ("b".toList, true), ("b".toList, false)].map
        fun call ↦ twoCrates.fullRequest call.1 call.2) ∧
      ¬ ∃ world, WorldState.loadAll [] [] []
          ([("a".toList, false), ("b".toList, true), ("b".toList, false)].map fun call ↦
            twoCrates.fullRequest call.1 call.2) = some world ∧
        Resolved twoCrates ([("a".toList, false), ("b".toList, true), ("b".toList, false)].map
          fun call ↦ twoCrates.fullRequest call.1 call.2) world := by
  have hrequests : twoCrates.Requests ([("a".toList, false), ("b".toList, true),
      ("b".toList, false)].map fun call ↦ twoCrates.fullRequest call.1 call.2) :=
    requests_twoCrates (by decide) (by decide) (by decide)
  refine ⟨hrequests, ?_⟩
  rintro ⟨world, hworld, hresolved⟩
  obtain ⟨other, crates, hother, hshows, hloaded⟩ :=
    shows_loadAll hrequests notMem_of_mem_twoCrates [] [] [] _ (List.prefix_refl _)
  rw [hworld] at hother
  cases hother
  have hedge := hresolved.direct (twoCrates.fullRequest "b".toList false) (by simp) rfl
  rw [hshows.graph.edge_iff] at hedge
  obtain ⟨first, hfirst, hdirect⟩ := (hloaded.local_iff "b".toList (by decide)).mp hedge
  have hfound : first = twoCrates.fullRequest "b".toList true := (Option.some.inj hfirst).symm
  rw [hfound] at hdirect
  cases hdirect

end Playground.RustAnalyzer
