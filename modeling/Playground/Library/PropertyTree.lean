import Playground.Library.PlainObject

/-!
# Trees of properties

A value is without properties or an object with properties, whose values may be objects again. A place in
such a tree is the list of the keys that lead there. `get` reads a place and `set` assigns to it:
`get_set` says that what is assigned is read again, and `isObjectAt_of_set` that there are no other objects
after an assignment than before, but in what has been assigned.

An array is an object whose keys are its indices. What is assigned to `__proto__` becomes a property only if
there is one already.

Not formalized here: the length of an array, what objects inherit, and an object at two places of a tree.
-/

set_option autoImplicit false
set_option relaxedAutoImplicit false

namespace Playground.Library

/-- A value with its properties in the order in which they are enumerated. -/
inductive PropertyTree (α : Type)
  | leaf (value : α)
  | object (isArray : Bool) (properties : List (Str × PropertyTree α))

namespace PropertyTree

variable {α : Type}

/-! ### Reading and assigning -/

/-- The own properties. -/
def properties : PropertyTree α → List (Str × PropertyTree α)
  | leaf _ => []
  | object _ properties => properties

/-- An object, or an array. -/
def IsObject : PropertyTree α → Prop
  | leaf _ => False
  | object _ _ => True

instance decidableIsObject : DecidablePred (IsObject (α := α)) := fun tree ↦
  match tree with
  | leaf _ => inferInstanceAs (Decidable False)
  | object _ _ => inferInstanceAs (Decidable True)

/-- The value of an own property. -/
def child (tree : PropertyTree α) (key : Str) : Option (PropertyTree α) :=
  Entries.find tree.properties key

/-- The value at a place. -/
def get (tree : PropertyTree α) : List Str → Option (PropertyTree α)
  | [] => some tree
  | key :: rest => (tree.child key).bind fun inner ↦ inner.get rest

/-- An assignment to the key is one to an own property. -/
def Holds (tree : PropertyTree α) (key : Str) : Prop :=
  tree.IsObject ∧ (key ≠ PlainObject.protoName ∨ (tree.child key).isSome)

instance decidableHolds (tree : PropertyTree α) (key : Str) : Decidable (tree.Holds key) :=
  inferInstanceAs (Decidable (_ ∧ _))

/-- The assignment of a property. -/
def setChild (tree : PropertyTree α) (key : Str) (value : PropertyTree α) : PropertyTree α :=
  match tree with
  | leaf value => leaf value
  | object isArray properties =>
    if key = PlainObject.protoName ∧ Entries.find properties key = none then object isArray properties
    else object isArray (PlainObject.setProperty properties key value)

/-- The assignment to a place in an object that is there. -/
def set (tree : PropertyTree α) : List Str → PropertyTree α → PropertyTree α
  | [], value => value
  | key :: rest, value =>
    match tree.child key with
    | some inner => tree.setChild key (inner.set rest value)
    | none => if rest = [] then tree.setChild key value else tree

/-- There is an object at a place. -/
def IsObjectAt (tree : PropertyTree α) (place : List Str) : Prop :=
  ∃ inner, tree.get place = some inner ∧ inner.IsObject

/-- No object has two properties with the same key. -/
inductive Valid : PropertyTree α → Prop
  | leaf (value : α) : Valid (.leaf value)
  | object (isArray : Bool) {properties : List (Str × PropertyTree α)}
    (hnodup : (properties.map Prod.fst).Nodup)
    (hproperties : ∀ property ∈ properties, Valid property.2) : Valid (.object isArray properties)

/-! ### One property -/

section

variable {tree value : PropertyTree α} {key other : Str}

/-- What has no properties is no object. -/
theorem isObject_of_child {inner : PropertyTree α} (hchild : tree.child key = some inner) :
    tree.IsObject := by
  cases tree with
  | leaf value => cases hchild
  | object isArray properties => trivial

theorem isObject_setChild : (tree.setChild key value).IsObject ↔ tree.IsObject := by
  cases tree with
  | leaf value => exact Iff.rfl
  | object isArray properties =>
    rw [setChild]
    split
    · exact Iff.rfl
    · exact Iff.rfl

/-- What is assigned to a property is read again. -/
theorem child_setChild_self (hholds : tree.Holds key) :
    (tree.setChild key value).child key = some value := by
  obtain ⟨hobject, hproto⟩ := hholds
  cases tree with
  | leaf value => exact hobject.elim
  | object isArray properties =>
    have hassigned : ¬ (key = PlainObject.protoName ∧ Entries.find properties key = none) := by
      rintro ⟨hkey, hnone⟩
      rcases hproto with hne | hsome
      · exact hne hkey
      · rw [child, PropertyTree.properties, hnone] at hsome
        cases hsome
    rw [setChild, if_neg hassigned, child, PropertyTree.properties, PlainObject.find_setProperty,
      if_pos rfl]

/-- The other properties are kept. -/
theorem child_setChild_of_ne (hne : other ≠ key) : (tree.setChild key value).child other = tree.child other := by
  cases tree with
  | leaf value => rfl
  | object isArray properties =>
    rw [setChild]
    split
    · rfl
    · rw [child, PropertyTree.properties, PlainObject.find_setProperty, if_neg hne]
      rfl

/-- What becomes no property is not assigned. -/
theorem setChild_of_not_holds (hholds : ¬ tree.Holds key) : tree.setChild key value = tree := by
  cases tree with
  | leaf value => rfl
  | object isArray properties =>
    refine if_pos (not_not.mp fun hassigned ↦ hholds ⟨trivial, ?_⟩)
    rw [not_and_or, ← ne_eq, ← ne_eq, Option.ne_none_iff_isSome] at hassigned
    exact hassigned

theorem Holds.of_child {inner : PropertyTree α} (hchild : tree.child key = some inner) :
    tree.Holds key :=
  ⟨isObject_of_child hchild, .inr (Option.isSome_of_mem hchild)⟩

end

/-! ### Places -/

section

variable {tree value inner : PropertyTree α} {place other : List Str} {key : Str}

/-- What has an object in it is one. -/
theorem isObject_of_get (hget : tree.get place = some inner) (hinner : inner.IsObject) : tree.IsObject := by
  cases place with
  | nil => exact (Option.some.inj hget) ▸ hinner
  | cons key rest =>
    obtain ⟨below, hbelow, -⟩ := Option.bind_eq_some_iff.mp hget
    exact isObject_of_child hbelow

theorem get_append : tree.get (place ++ other) = (tree.get place).bind fun inner ↦ inner.get other := by
  induction place generalizing tree with
  | nil => rfl
  | cons key rest ih =>
    rw [List.cons_append, get, get]
    cases tree.child key with
    | none => rfl
    | some inner => exact ih

theorem get_singleton : tree.get [key] = tree.child key := by
  rw [get]
  cases tree.child key with
  | none => rfl
  | some inner => rfl

theorem set_singleton : tree.set [key] value = tree.setChild key value := by
  rw [set]
  split
  · rfl
  · exact if_pos rfl

/-- There is a value at every place above one where there is a value. -/
theorem exists_get_of_prefix (hinitial : other <+: place) (hget : tree.get place = some inner) :
    ∃ above, tree.get other = some above := by
  obtain ⟨rest, rfl⟩ := hinitial
  rw [get_append] at hget
  obtain ⟨above, habove, -⟩ := Option.bind_eq_some_iff.mp hget
  exact ⟨above, habove⟩

/-- What is assigned to a place is read again. -/
theorem get_set (hget : tree.get place = some inner) (hholds : inner.Holds key) :
    (tree.set (place ++ [key]) value).get (place ++ [key]) = some value := by
  induction place generalizing tree with
  | nil =>
    obtain rfl := Option.some.inj hget
    rw [List.nil_append, get, set]
    have hchild : ∀ assigned : PropertyTree α,
        ((tree.setChild key assigned).child key).bind (fun inner ↦ inner.get []) = some assigned := by
      intro assigned
      rw [child_setChild_self hholds]
      rfl
    cases tree.child key with
    | none => exact hchild value
    | some old => exact hchild value
  | cons first rest ih =>
    obtain ⟨below, hbelow, hrest⟩ := Option.bind_eq_some_iff.mp hget
    rw [List.cons_append, set, hbelow]
    show ((tree.setChild first (below.set (rest ++ [key]) value)).child first).bind _ = _
    rw [child_setChild_self (.of_child hbelow)]
    exact ih hrest

theorem isObject_set (hne : place ≠ []) : (tree.set place value).IsObject ↔ tree.IsObject := by
  cases place with
  | nil => exact absurd rfl hne
  | cons key rest =>
    rw [set]
    split
    · exact isObject_setChild
    · split
      · exact isObject_setChild
      · exact Iff.rfl

/-- What is found after an assignment to a property was there before, or has been assigned. -/
theorem get_setChild_cons (hget : (tree.setChild key value).get (key :: other) = some inner) :
    tree.get (key :: other) = some inner ∨ value.get other = some inner := by
  by_cases hholds : tree.Holds key
  · rw [get, child_setChild_self hholds] at hget
    exact .inr hget
  · rw [setChild_of_not_holds hholds] at hget
    exact .inl hget

/-- After an assignment there are objects where there were objects before, and in what has been assigned. -/
theorem isObjectAt_of_set (hobject : (tree.set place value).IsObjectAt other)
    (hinitial : ¬ place <+: other) : tree.IsObjectAt other := by
  induction place generalizing tree other with
  | nil => exact absurd List.nil_prefix hinitial
  | cons key rest ih =>
    obtain ⟨inner, hget, hinner⟩ := hobject
    cases other with
    | nil =>
      obtain rfl := Option.some.inj hget
      exact ⟨tree, rfl, (isObject_set (List.cons_ne_nil _ _)).mp hinner⟩
    | cons first below =>
      rw [set] at hget
      by_cases hfirst : first = key
      · subst hfirst
        rw [List.prefix_cons_inj] at hinitial
        split at hget
        · next old hold =>
          rcases get_setChild_cons hget with hbefore | hassigned
          · exact ⟨inner, hbefore, hinner⟩
          · obtain ⟨found, hfound, hobject⟩ := ih ⟨inner, hassigned, hinner⟩ hinitial
            refine ⟨found, ?_, hobject⟩
            rw [get, hold]
            exact hfound
        · split at hget
          · next hrest => exact absurd (hrest ▸ List.nil_prefix) hinitial
          · exact ⟨inner, hget, hinner⟩
      · refine ⟨inner, ?_, hinner⟩
        rw [get]
        split at hget
        · rwa [get, child_setChild_of_ne hfirst] at hget
        · split at hget
          · rwa [get, child_setChild_of_ne hfirst] at hget
          · exact hget

end

end PropertyTree

end Playground.Library
