import Playground.RustAnalyzer.WorldState

/-!
# Sets of files and graphs of crates

`FileSets` and `CrateGraphs` can be had. A set of files is a map in both directions. A graph is the list of
its crates with what they depend on, and an edge is added unless there is a way back (`findPath`).
-/

set_option autoImplicit false
set_option relaxedAutoImplicit false

namespace Playground.RustAnalyzer

open Library

/-- `FileSet`: the id of each path, and the path of each id. -/
structure FileMaps where
  files : Store VfsPath FileId
  paths : Store FileId VfsPath

/-- Files in maps. -/
abbrev referenceFileSets : FileSets where
  FileSet := FileMaps
  default := ⟨∅, ∅⟩
  insert fileSet fileId path :=
    ⟨fileSet.files.insert path fileId, fileSet.paths.insert fileId path⟩
  fileForPath fileSet path := fileSet.files.lookup path
  iter fileSet := fileSet.paths.keys
  fileForPath_default _ := rfl
  fileForPath_insert := by
    intro fileSet fileId path other
    split_ifs with heq
    · rw [heq, Finmap.lookup_insert]
    · rw [Finmap.lookup_insert_of_ne _ heq]
  notMem_iter_default := Finset.notMem_empty
  mem_iter_insert := by
    intro fileSet fileId path other
    rw [Finmap.mem_keys, Finmap.mem_insert, Finmap.mem_keys]

/-- `CrateData`. -/
structure CrateData where
  rootFileId : FileId
  dependencies : List (Str × CrateId)

/-- The crates of a `CrateGraph`. -/
abbrev CrateArena := List CrateData

namespace CrateArena

/-- There is an edge from one crate to another. -/
def HasEdge (arena : CrateArena) (crateId depCrateId : CrateId) : Prop :=
  ∃ data, arena[crateId]? = some data ∧ ∃ dependency ∈ data.dependencies, dependency.2 = depCrateId

/-- `CrateGraph::find_path`, in so many steps. -/
def findPath (arena : CrateArena) : ℕ → CrateId → CrateId → Bool
  | 0, first, last => first = last
  | steps + 1, first, last => first = last || arena[first]?.any fun data ↦
      data.dependencies.any fun dependency ↦ arena.findPath steps dependency.2 last

/-- `CrateGraph::add_dep`. -/
def addDep (arena : CrateArena) (crateId : CrateId) (dependency : Str × CrateId) :
    Option CrateArena :=
  if crateId < arena.length ∧ arena.findPath arena.length dependency.2 crateId = false then
    some (arena.modify crateId fun data ↦
      { data with dependencies := data.dependencies ++ [dependency] })
  else none

/-- A path that is found is one. -/
theorem reflTransGen_of_findPath {arena : CrateArena} {steps : ℕ} {first last : CrateId}
    (hfound : arena.findPath steps first last = true) :
    Relation.ReflTransGen arena.HasEdge first last := by
  induction steps generalizing first with
  | zero =>
    obtain rfl : first = last := of_decide_eq_true hfound
    exact .refl
  | succ steps ih =>
    rw [findPath, Bool.or_eq_true, decide_eq_true_eq, Option.any_eq_true] at hfound
    rcases hfound with rfl | ⟨data, hdata, hdependencies⟩
    · exact .refl
    · obtain ⟨dependency, hdependency, hrest⟩ := List.any_eq_true.mp hdependencies
      exact .head ⟨data, hdata, dependency, hdependency, rfl⟩ (ih hrest)

/-- A new crate has no edges. -/
theorem hasEdge_append {arena : CrateArena} {rootFileId : FileId} {crateId depCrateId : CrateId} :
    HasEdge (arena ++ [⟨rootFileId, []⟩]) crateId depCrateId ↔ arena.HasEdge crateId depCrateId := by
  unfold HasEdge
  by_cases hlt : crateId < arena.length
  · rw [List.getElem?_append_left hlt]
  · rw [List.getElem?_append_right (Nat.le_of_not_lt hlt),
      List.getElem?_eq_none (Nat.le_of_not_lt hlt)]
    refine iff_of_false ?_ nofun
    rintro ⟨data, hdata, dependency, hdependency, -⟩
    rw [List.mem_singleton.mp (List.mem_of_getElem? hdata)] at hdependency
    cases hdependency

/-- An edge that is added is there beside the others. -/
theorem addDep_eq {arena : CrateArena} {crateId : CrateId} {dependency : Str × CrateId}
    (hlt : crateId < arena.length)
    (hback : ¬ Relation.ReflTransGen arena.HasEdge dependency.2 crateId) :
    ∃ after, arena.addDep crateId dependency = some after ∧
      after.map CrateData.rootFileId = arena.map CrateData.rootFileId ∧
      ∀ first second, HasEdge after first second ↔
        arena.HasEdge first second ∨ first = crateId ∧ second = dependency.2 := by
  have hnone : arena.findPath arena.length dependency.2 crateId = false :=
    Bool.eq_false_iff.mpr fun hfound ↦ hback (reflTransGen_of_findPath hfound)
  refine ⟨_, if_pos ⟨hlt, hnone⟩, ?_, fun first second ↦ ?_⟩
  · refine List.ext_getElem? fun place ↦ ?_
    rw [List.getElem?_map, List.getElem?_map, List.getElem?_modify]
    cases arena[place]? with
    | none => rfl
    | some data => by_cases heq : crateId = place <;> simp [heq]
  · unfold HasEdge
    rw [List.getElem?_modify]
    by_cases heq : first = crateId
    · subst heq
      simp only [if_true, Option.map_eq_map, Option.map_eq_some_iff]
      constructor
      · rintro ⟨_, ⟨data, hdata, rfl⟩, other, hother, rfl⟩
        rcases List.mem_append.mp hother with hold | hnew
        · exact Or.inl ⟨data, hdata, other, hold, rfl⟩
        · exact Or.inr ⟨trivial, congrArg Prod.snd (List.mem_singleton.mp hnew)⟩
      · rintro (⟨data, hdata, other, hother, rfl⟩ | ⟨-, rfl⟩)
        · exact ⟨_, ⟨data, hdata, rfl⟩, other, List.mem_append_left _ hother, rfl⟩
        · exact ⟨_, ⟨_, List.getElem?_eq_getElem hlt, rfl⟩, dependency,
            List.mem_append_right _ List.mem_cons_self, rfl⟩
    · have hne : crateId ≠ first := fun hsame ↦ heq hsame.symm
      simp [heq, hne]

/-- The crate that has a root file for itself is found by it. -/
theorem findIdx?_eq_some {arena : CrateArena} {crateId : CrateId} {fileId : FileId}
    (hroot : (arena.map CrateData.rootFileId)[crateId]? = some fileId)
    (honly : ∀ other, (arena.map CrateData.rootFileId)[other]? = some fileId → other = crateId) :
    (arena.findIdx? fun data ↦ data.rootFileId = fileId) = some crateId := by
  rw [List.getElem?_map] at hroot
  obtain ⟨data, hdata, hfile⟩ := Option.map_eq_some_iff.mp hroot
  obtain ⟨hlt, rfl⟩ := List.getElem?_eq_some_iff.mp hdata
  rw [List.findIdx?_eq_some_iff_getElem]
  refine ⟨hlt, decide_eq_true hfile, fun other hother hsame ↦ ?_⟩
  have hget : (arena.map CrateData.rootFileId)[other]? = some fileId := by
    rw [List.getElem?_map, List.getElem?_eq_getElem (hother.trans hlt), Option.map_some,
      of_decide_eq_true hsame]
  exact hother.ne (honly other hget)

end CrateArena

/-- Crates in a list. -/
abbrev referenceCrateGraphs : CrateGraphs where
  CrateGraph := CrateArena
  default := []
  addCrateRoot arena rootFileId := (arena ++ [⟨rootFileId, []⟩], arena.length)
  addDep := CrateArena.addDep
  crateIdForCrateRoot arena fileId := arena.findIdx? fun data ↦ data.rootFileId = fileId
  rootFileIds arena := arena.map CrateData.rootFileId
  HasEdge := CrateArena.HasEdge
  crateName name := if '-' ∈ name then none else some name
  rootFileIds_default := rfl
  not_hasEdge_default := by
    rintro first second ⟨data, hdata, -⟩
    cases hdata
  rootFileIds_addCrateRoot _ _ := List.map_append
  crateId_addCrateRoot _ _ := (List.length_map _).symm
  hasEdge_addCrateRoot _ _ _ _ := CrateArena.hasEdge_append
  addDep_of_not_reflTransGen := by
    intro arena crateId dependency hlt _ hback
    rw [List.length_map] at hlt
    exact CrateArena.addDep_eq hlt hback
  crateIdForCrateRoot_eq _ _ _ := CrateArena.findIdx?_eq_some
  crateName_eq _ hname := if_neg hname

end Playground.RustAnalyzer
