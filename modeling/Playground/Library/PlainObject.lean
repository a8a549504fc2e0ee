import Playground.Library.Entries
import Playground.Library.JavaScript
import Playground.Library.Json

/-!
# Objects to which properties are assigned

The own properties of an object in the order in which they are enumerated: those whose names are indices
first, in ascending order, and then the others in the order in which they were first assigned. What is
assigned to `__proto__` becomes no own property. `keys_assign` says that the names depend on the assigned
names only.

Not formalized here: what an object inherits, and what becomes of an object whose prototype was set to
`null`.
-/

set_option autoImplicit false
set_option relaxedAutoImplicit false

namespace Playground.Library

/-- An object: its own properties, and what has been assigned to `__proto__`. -/
structure PlainObject (β : Type) where
  properties : List (Str × β)
  prototypes : List β

namespace PlainObject

variable {β : Type}

/-- The object without own properties. -/
def empty : PlainObject β :=
  ⟨[], []⟩

/-- The name of the property that sets the prototype. -/
def protoName : Str :=
  "__proto__".toList

/-- The name is an index of an array. -/
def isArrayIndex (name : Str) : Bool :=
  Json.printNumber (Json.readDigits name) = name && Json.readDigits name < 2 ^ 32 - 1

/-- A property comes before another one that has not been assigned yet. -/
def isBefore (name added : Str) : Bool :=
  !isArrayIndex added || (isArrayIndex name && Json.readDigits name < Json.readDigits added)

/-- The own properties after an assignment. -/
def setProperty : List (Str × β) → Str → β → List (Str × β)
  | [], name, value => [(name, value)]
  | property :: rest, name, value =>
    if property.1 = name then (name, value) :: rest
    else if isBefore property.1 name then property :: setProperty rest name value
    else (name, value) :: property :: rest

/-- The own properties after the value of one of them has been changed. -/
def replaceProperty (properties : List (Str × β)) (name : Str) (value : β) : List (Str × β) :=
  properties.map fun property ↦ if property.1 = name then (name, value) else property

/-- `object[name] = value`. -/
def assign (object : PlainObject β) (name : Str) (value : β) : PlainObject β :=
  if name = protoName then { object with prototypes := object.prototypes ++ [value] }
  else { object with properties := setProperty object.properties name value }

/-- `Object.keys`. -/
def keys (object : PlainObject β) : List Str :=
  object.properties.map Prod.fst

/-- The names of the own properties after an assignment. -/
def addKey : List Str → Str → List Str
  | [], name => [name]
  | key :: rest, name =>
    if key = name then key :: rest
    else if isBefore key name then key :: addKey rest name
    else name :: key :: rest

/-- The names in the order in which the properties are enumerated that are assigned one after another. -/
def enumerate (names : List Str) : List Str :=
  (names.filter (· ≠ protoName)).foldl addKey []

variable {object : PlainObject β} {name other : Str} {value : β}

theorem mem_setProperty {properties : List (Str × β)} {property : Str × β}
    (hmem : property ∈ setProperty properties name value) :
    property = (name, value) ∨ property ∈ properties := by
  induction properties with
  | nil => exact .inl (List.mem_singleton.mp hmem)
  | cons first rest ih =>
    rw [setProperty] at hmem
    split_ifs at hmem
    · rcases List.mem_cons.mp hmem with heq | hrest
      · exact .inl heq
      · exact .inr (List.mem_cons_of_mem _ hrest)
    · rcases List.mem_cons.mp hmem with heq | hrest
      · exact .inr (heq ▸ List.mem_cons_self)
      · exact (ih hrest).imp_right (List.mem_cons_of_mem _)
    · exact (List.mem_cons.mp hmem)

/-- Every property has been assigned. -/
theorem mem_assign {property : Str × β} (hmem : property ∈ (object.assign name value).properties) :
    property = (name, value) ∨ property ∈ object.properties := by
  unfold assign at hmem
  split at hmem
  · exact .inr hmem
  · exact mem_setProperty hmem

theorem map_fst_setProperty (properties : List (Str × β)) (name : Str) (value : β) :
    (setProperty properties name value).map Prod.fst = addKey (properties.map Prod.fst) name := by
  induction properties with
  | nil => rfl
  | cons first rest ih =>
    rw [setProperty, List.map_cons, addKey]
    split_ifs with hkey
    · rw [List.map_cons, hkey]
    · rw [List.map_cons, ih]
    · rfl

/-- The names of the properties depend on the assigned names only. -/
theorem keys_assign : (object.assign name value).keys =
    if name = protoName then object.keys else addKey object.keys name := by
  unfold assign
  split
  · rfl
  · exact map_fst_setProperty _ _ _

/-- The assigned property has the value, and the others are kept. -/
theorem find_setProperty (properties : List (Str × β)) :
    Entries.find (setProperty properties name value) other =
      if other = name then some value else Entries.find properties other := by
  induction properties with
  | nil => rw [setProperty, Entries.find_cons]
  | cons first rest ih =>
    rw [setProperty]
    split
    · next hkey =>
      rw [Entries.find_cons, Entries.find_cons, hkey]
      by_cases hother : other = name <;> simp [hother]
    · next hkey =>
      split
      · rw [Entries.find_cons, Entries.find_cons, ih]
        by_cases hother : other = name
        · simp [hother, Ne.symm hkey]
        · simp [hother]
      · exact Entries.find_cons _ _ _

/-- What has been assigned to a name, other than that of the prototype, is found. -/
theorem find_assign : Entries.find (object.assign name value).properties other =
    if other = name ∧ name ≠ protoName then some value
    else Entries.find object.properties other := by
  unfold assign
  split
  · next hproto => rw [if_neg fun hboth ↦ hboth.2 hproto]
  · next hproto =>
    show Entries.find (setProperty object.properties name value) other = _
    rw [find_setProperty]
    simp [hproto]

theorem mem_addKey {keys : List Str} : other ∈ addKey keys name ↔ other = name ∨ other ∈ keys := by
  induction keys with
  | nil => simp [addKey]
  | cons key rest ih =>
    rw [addKey]
    split
    · next hkey =>
      subst hkey
      simp
    · split
      · rw [List.mem_cons, ih, List.mem_cons]
        exact or_left_comm
      · simp

/-- All assigned names are enumerated but that of the prototype. -/
theorem mem_enumerate {names : List Str} :
    name ∈ enumerate names ↔ name ∈ names ∧ name ≠ protoName := by
  have hfold : ∀ (names keys : List Str),
      name ∈ names.foldl addKey keys ↔ name ∈ names ∨ name ∈ keys := by
    intro names
    induction names with
    | nil => simp
    | cons first rest ih =>
      intro keys
      rw [List.foldl_cons, ih, mem_addKey, List.mem_cons]
      exact or_left_comm.trans or_assoc.symm
  rw [enumerate, hfold, List.mem_filter]
  simp

theorem prototypes_assign : (object.assign name value).prototypes =
    if name = protoName then object.prototypes ++ [value] else object.prototypes := by
  unfold assign
  split <;> rfl

/-! ### Distinct names -/

theorem nodup_addKey {keys : List Str} (hnodup : keys.Nodup) (hmem : name ∉ keys) :
    (addKey keys name).Nodup := by
  induction keys with
  | nil => exact List.nodup_singleton name
  | cons key rest ih =>
    rw [List.mem_cons, not_or] at hmem
    have hrest := List.nodup_cons.mp hnodup
    rw [addKey, if_neg (Ne.symm hmem.1)]
    split
    · refine List.nodup_cons.mpr ⟨fun hadded ↦ ?_, ih hrest.2 hmem.2⟩
      exact (mem_addKey.mp hadded).elim (Ne.symm hmem.1) hrest.1
    · exact List.nodup_cons.mpr ⟨fun hadded ↦ (List.mem_cons.mp hadded).elim hmem.1 hmem.2, hnodup⟩

theorem map_fst_replaceProperty (properties : List (Str × β)) (name : Str) (value : β) :
    (replaceProperty properties name value).map Prod.fst = properties.map Prod.fst := by
  rw [replaceProperty, List.map_map]
  refine List.map_congr_left fun property _ ↦ ?_
  show (if property.1 = name then (name, value) else property).1 = property.1
  split
  · next hname => exact hname.symm
  · rfl

/-- A property whose value has been changed has the value, and the others are kept. -/
theorem find_replaceProperty (properties : List (Str × β)) :
    Entries.find (replaceProperty properties name value) other =
      if other = name then (Entries.find properties name).map fun _ ↦ value
      else Entries.find properties other := by
  induction properties with
  | nil => simp [replaceProperty]
  | cons first rest ih =>
    rw [replaceProperty, List.map_cons, Entries.find_cons, ← replaceProperty, ih, Entries.find_cons,
      Entries.find_cons]
    by_cases hfirst : first.1 = name
    · by_cases hother : other = name <;> simp [hfirst, hother]
    · by_cases hother : other = name
      · simp [hfirst, hother, Ne.symm hfirst]
      · simp [hfirst, hother]

/-- A property that has the value already is left alone. -/
theorem replaceProperty_eq_self {properties : List (Str × β)} (hnodup : (properties.map Prod.fst).Nodup)
    (hfind : Entries.find properties name = some value) :
    replaceProperty properties name value = properties := by
  refine (List.map_congr_left fun property hproperty ↦ ?_).trans (List.map_id properties)
  show (if property.1 = name then (name, value) else property) = property
  split
  · next hname =>
    have hproperty := (Entries.find_eq_some_iff hnodup).mpr hproperty
    rw [hname, hfind] at hproperty
    exact Prod.ext hname.symm (Option.some.inj hproperty)
  · rfl

end PlainObject

end Playground.Library
