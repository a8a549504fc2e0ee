import Mathlib.Data.List.Basic

/-!
# Forests that are nested from the end

A tree has a value, and children unless it has none. A flat list of trees, each with the index of its parent, is
nested from its end: the last tree is taken off, and either it is a tree of the result or it becomes the last
child of its parent (`nestWith`).

If each parent comes before its children, no index is out of bounds. With their indices as values, every tree of
the list is in the result once, those without a parent are at the top, and the others are children of their
parents (`nested_of_nestWith`). What the values are makes no difference (`nestWith_map`).
-/

set_option autoImplicit false
set_option relaxedAutoImplicit false

namespace Playground.Library

/-- A tree, whose list of children is there only if a child has been added. -/
inductive RoseTree (α : Type*)
  | node (value : α) (children : Option (List (RoseTree α)))

namespace RoseTree

variable {α β : Type*}

/-- The value at the root. -/
def value : RoseTree α → α
  | node value _ => value

/-- A tree with another child behind the others. -/
def addChild : RoseTree α → RoseTree α → RoseTree α
  | node value none, child => node value (some [child])
  | node value (some children), child => node value (some (children ++ [child]))

mutual

/-- The values of a tree. -/
def values : RoseTree α → List α
  | node value none => [value]
  | node value (some children) => value :: valuesAll children

/-- The values of some trees. -/
def valuesAll : List (RoseTree α) → List α
  | [] => []
  | tree :: trees => tree.values ++ valuesAll trees

end

mutual

/-- A tree with other values. -/
def map (f : α → β) : RoseTree α → RoseTree β
  | node value none => node (f value) none
  | node value (some children) => node (f value) (some (mapAll f children))

/-- Some trees with other values. -/
def mapAll (f : α → β) : List (RoseTree α) → List (RoseTree β)
  | [] => []
  | tree :: trees => tree.map f :: mapAll f trees

end

/-- Every child in a tree is related to its parent. -/
inductive Respects (isChild : α → α → Prop) : RoseTree α → Prop
  | node {value : α} {children : Option (List (RoseTree α))}
      (hvalues : ∀ list ∈ children, ∀ child ∈ list, isChild value child.value)
      (hchildren : ∀ list ∈ children, ∀ child ∈ list, Respects isChild child) :
      Respects isChild (.node value children)

/-! ### Lists of trees -/

/-- The values of some trees, one tree after the other. -/
theorem valuesAll_eq (trees : List (RoseTree α)) : valuesAll trees = trees.flatMap values := by
  induction trees with
  | nil => rfl
  | cons tree trees ih => rw [valuesAll, ih, List.flatMap_cons]

/-- Some trees with other values, one tree after the other. -/
theorem mapAll_eq (f : α → β) (trees : List (RoseTree α)) : mapAll f trees = trees.map (map f) := by
  induction trees with
  | nil => rfl
  | cons tree trees ih => rw [mapAll, ih, List.map_cons]

/-! ### Another child -/

section AddChild

variable {tree child : RoseTree α}

/-- Another child makes no difference to the root. -/
theorem value_addChild : (tree.addChild child).value = tree.value := by
  obtain ⟨value, _ | children⟩ := tree <;> rfl

/-- The values of a tree with another child. -/
theorem values_addChild : (tree.addChild child).values = tree.values ++ child.values := by
  obtain ⟨value, _ | children⟩ := tree
  · rw [addChild, values, values, valuesAll_eq, List.flatMap_singleton, List.singleton_append]
  · rw [addChild, values, values, valuesAll_eq, valuesAll_eq, List.flatMap_append, List.flatMap_singleton,
      List.cons_append]

/-- Another child with other values. -/
theorem map_addChild (f : α → β) : (tree.addChild child).map f = (tree.map f).addChild (child.map f) := by
  obtain ⟨value, _ | children⟩ := tree
  · rfl
  · rw [addChild, map, map, addChild, mapAll_eq, mapAll_eq, List.map_append, List.map_singleton]

/-- A child that is related to the root is added. -/
theorem Respects.addChild {isChild : α → α → Prop} (htree : tree.Respects isChild)
    (hchild : child.Respects isChild) (hvalue : isChild tree.value child.value) :
    (tree.addChild child).Respects isChild := by
  cases htree with
  | @node value children hvalues hchildren =>
    cases children with
    | none =>
      refine .node (fun list hlist other hother ↦ ?_) fun list hlist other hother ↦ ?_
      · obtain rfl := Option.some.inj hlist
        rwa [List.mem_singleton.mp hother]
      · obtain rfl := Option.some.inj hlist
        rwa [List.mem_singleton.mp hother]
    | some list =>
      refine .node (fun others hothers other hother ↦ ?_) fun others hothers other hother ↦ ?_
      · obtain rfl := Option.some.inj hothers
        rcases List.mem_append.mp hother with hold | hnew
        · exact hvalues list rfl other hold
        · rwa [List.mem_singleton.mp hnew]
      · obtain rfl := Option.some.inj hothers
        rcases List.mem_append.mp hother with hold | hnew
        · exact hchildren list rfl other hold
        · rwa [List.mem_singleton.mp hnew]

end AddChild

/-! ### Nesting -/

/-- The trees that are left, each with the index of its parent, and the trees of the result, in at most so many
steps. An index out of bounds is a panic. -/
def nestWith : ℕ → List (RoseTree α × Option ℕ) → List (RoseTree α) → Option (List (RoseTree α))
  | 0, _, res => some res
  | fuel + 1, parents, res =>
    match parents.getLast? with
    | none => some res
    | some (last, none) => nestWith fuel parents.dropLast (res ++ [last])
    | some (last, some index) =>
      match parents.dropLast[index]? with
      | none => none
      | some (parent, grandparent) =>
        nestWith fuel (parents.dropLast.set index (parent.addChild last, grandparent)) res

/-- The trees that are left and those of the result, if their values are indices: each index is a value once,
the trees that are left are in order, children are children of their parents, and what is at the top of the
result has no parent. -/
structure Nested (parentOf : ℕ → Option ℕ) (count : ℕ) (parents : List (RoseTree ℕ × Option ℕ))
    (res : List (RoseTree ℕ)) : Prop where
  values : ((parents.map Prod.fst ++ res).flatMap RoseTree.values).Perm (List.range count)
  inOrder : parents.map (fun entry ↦ (entry.1.value, entry.2)) =
    (List.range parents.length).map fun index ↦ (index, parentOf index)
  respects : ∀ tree ∈ parents.map Prod.fst ++ res,
    tree.Respects fun parent child ↦ parentOf child = some parent
  top : ∀ tree ∈ res, parentOf tree.value = none

section Nested

variable {parentOf : ℕ → Option ℕ} {count : ℕ} {parents : List (RoseTree ℕ × Option ℕ)} {res : List (RoseTree ℕ)}

/-- The last tree that is left, and the trees in front of it. -/
theorem Nested.last {last : RoseTree ℕ} {parent : Option ℕ}
    (hnested : Nested parentOf count (parents ++ [(last, parent)]) res) :
    last.value = parents.length ∧ parent = parentOf parents.length ∧
      parents.map (fun entry ↦ (entry.1.value, entry.2)) =
        (List.range parents.length).map fun index ↦ (index, parentOf index) := by
  have horder := hnested.inOrder
  rw [List.map_append, List.length_append, List.length_singleton, List.range_succ, List.map_append] at horder
  obtain ⟨hfront, hlast⟩ := List.append_inj' horder rfl
  obtain ⟨hvalue, hparent⟩ := Prod.mk.inj (List.cons.inj hlast).1
  exact ⟨hvalue, hparent, hfront⟩

/-- A tree without a parent goes to the result. -/
theorem Nested.push {last : RoseTree ℕ} (hnested : Nested parentOf count (parents ++ [(last, none)]) res) :
    Nested parentOf count parents (res ++ [last]) where
  values := by
    refine List.Perm.trans ?_ hnested.values
    simp only [List.map_append, List.flatMap_append, List.map_singleton, List.flatMap_singleton,
      List.append_assoc]
    exact List.Perm.append_left _ List.perm_append_comm
  inOrder := hnested.last.2.2
  respects := by
    intro tree htree
    refine hnested.respects tree ?_
    simp only [List.map_append, List.map_singleton, List.mem_append, List.mem_singleton] at htree ⊢
    tauto
  top := by
    intro tree htree
    rcases List.mem_append.mp htree with hold | hnew
    · exact hnested.top tree hold
    · rw [List.mem_singleton.mp hnew, hnested.last.1]
      exact hnested.last.2.1.symm

/-- The value of a tree that is left is its index. -/
theorem Nested.value_eq {front back : List (RoseTree ℕ × Option ℕ)} {entry : RoseTree ℕ × Option ℕ}
    (hnested : Nested parentOf count (front ++ entry :: back) res) : entry.1.value = front.length := by
  have horder := congrArg (fun entries ↦ entries[front.length]?) hnested.inOrder
  simp only [List.map_append, List.map_cons, List.length_append, List.length_cons] at horder
  rw [List.getElem?_append_right (by simp), List.getElem?_map,
    List.getElem?_range (Nat.lt_add_of_pos_right (Nat.succ_pos _))] at horder
  simp only [List.length_map, Nat.sub_self, List.getElem?_cons_zero, Option.map_some] at horder
  exact (Prod.mk.inj (Option.some.inj horder)).1

/-- A tree with a parent becomes a child of it. -/
theorem Nested.attach {front back : List (RoseTree ℕ × Option ℕ)} {last parent : RoseTree ℕ} {grandparent : Option ℕ}
    (hnested : Nested parentOf count
      (front ++ (parent, grandparent) :: back ++ [(last, some front.length)]) res) :
    Nested parentOf count (front ++ (parent.addChild last, grandparent) :: back) res := by
  obtain ⟨hlast, hparent, horder⟩ := hnested.last
  have hmem : ∀ tree, tree = last ∨ tree = parent ∨ tree ∈ (front ++ back).map Prod.fst ++ res →
      tree ∈ (front ++ (parent, grandparent) :: back ++ [(last, some front.length)]).map Prod.fst ++ res := by
    intro tree htree
    simp only [List.map_append, List.map_cons, List.map_nil, List.mem_append, List.mem_cons] at htree ⊢
    tauto
  constructor
  · refine List.Perm.trans ?_ hnested.values
    simp only [List.map_append, List.map_cons, List.map_nil, List.flatMap_append, List.flatMap_cons,
      List.flatMap_nil, List.append_nil, List.append_assoc, values_addChild]
    exact ((List.perm_append_comm_assoc _ _ _).append_left _).append_left _
  · rw [List.map_append, List.map_cons, List.length_append, List.length_cons] at horder ⊢
    rw [value_addChild]
    exact horder
  · intro tree htree
    simp only [List.map_append, List.map_cons, List.mem_append, List.mem_cons] at htree
    by_cases hadded : tree = parent.addChild last
    · rw [hadded]
      refine (hnested.respects parent (hmem parent (.inr (.inl rfl)))).addChild
        (hnested.respects last (hmem last (.inl rfl))) ?_
      rw [List.append_assoc, List.cons_append] at hnested
      rw [hlast, ← hparent, hnested.value_eq]
    · refine hnested.respects tree (hmem tree (.inr (.inr ?_)))
      simp only [List.map_append, List.mem_append]
      tauto
  · exact hnested.top

/-- Trees in which each parent comes before its children are nested without a panic. -/
theorem nested_of_nestWith (hbefore : ∀ child parent, parentOf child = some parent → parent < child)
    (hnested : Nested parentOf count parents res) :
    ∃ forest, nestWith parents.length parents res = some forest ∧ Nested parentOf count [] forest := by
  induction hlength : parents.length generalizing parents res with
  | zero =>
    obtain rfl := List.length_eq_zero_iff.mp hlength
    exact ⟨res, rfl, hnested⟩
  | succ length ih =>
    obtain ⟨front, ⟨last, parent⟩, rfl⟩ : ∃ front last, parents = front ++ [last] := by
      rcases List.eq_nil_or_concat parents with rfl | ⟨front, last, heq⟩
      · cases hlength
      · exact ⟨front, last, by rw [heq, List.concat_eq_append]⟩
    rw [List.length_append, List.length_singleton, Nat.add_right_cancel_iff] at hlength
    obtain ⟨-, hparent, -⟩ := hnested.last
    rw [nestWith, List.getLast?_concat, List.dropLast_concat]
    cases parent with
    | none => exact ih hnested.push hlength
    | some index =>
      have hlt : index < front.length := hbefore _ _ hparent.symm
      obtain ⟨before, ⟨node, grandparent⟩, behind, rfl, rfl⟩ : ∃ before entry behind,
          front = before ++ entry :: behind ∧ before.length = index :=
        ⟨front.take index, front[index], front.drop (index + 1),
          by rw [← List.drop_eq_getElem_cons hlt, List.take_append_drop],
          List.length_take_of_le (Nat.le_of_lt hlt)⟩
      dsimp only
      rw [List.getElem?_append_right (Nat.le_refl _), Nat.sub_self, List.getElem?_cons_zero]
      dsimp only
      rw [List.set_append_right _ _ (Nat.le_refl _), Nat.sub_self, List.set_cons_zero]
      refine ih hnested.attach ?_
      rw [← hlength]
      simp

end Nested

/-- What the values are makes no difference to nesting. -/
theorem nestWith_map (f : α → β) (fuel : ℕ) (parents : List (RoseTree α × Option ℕ)) (res : List (RoseTree α)) :
    nestWith fuel (parents.map fun entry ↦ (entry.1.map f, entry.2)) (res.map (map f)) =
      (nestWith fuel parents res).map (List.map (map f)) := by
  induction fuel generalizing parents res with
  | zero => rfl
  | succ fuel ih =>
    rw [nestWith, nestWith, List.getLast?_map]
    cases parents.getLast? with
    | none => rfl
    | some entry =>
      obtain ⟨last, _ | index⟩ := entry
      · dsimp only [Option.map_some]
        rw [← ih, List.map_append, List.map_dropLast]
        rfl
      · dsimp only [Option.map_some]
        rw [← List.map_dropLast, List.getElem?_map]
        cases parents.dropLast[index]? with
        | none => rfl
        | some entry =>
          dsimp only [Option.map_some]
          rw [← ih, List.map_set, map_addChild]

/-- Indices with the indices of their parents, before anything is nested. -/
theorem nested_range (parentOf : ℕ → Option ℕ) (count : ℕ) :
    Nested parentOf count ((List.range count).map fun index ↦ (node index none, parentOf index)) [] where
  values := by
    rw [List.append_nil, List.map_map, List.flatMap_map]
    exact List.Perm.of_eq (List.flatMap_singleton' _)
  inOrder := by
    rw [List.map_map, List.length_map, List.length_range]
    rfl
  respects := by
    intro tree htree
    rw [List.append_nil, List.map_map] at htree
    obtain ⟨index, -, rfl⟩ := List.mem_map.mp htree
    exact .node (fun _ hnone ↦ absurd hnone (Option.not_mem_none _))
      fun _ hnone ↦ absurd hnone (Option.not_mem_none _)
  top := fun _ hnil ↦ absurd hnil List.not_mem_nil

end RoseTree

end Playground.Library
