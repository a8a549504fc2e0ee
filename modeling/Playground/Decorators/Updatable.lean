import Playground.Library.Except
import Playground.Library.PropertyTree
import Playground.Library.Runs

/-!
# Updatable classes

`update` of an updatable class and the assignments to its properties
(`client/src/utils/pg/decorators/updatable.ts`). The state of the class is a tree of properties. `update`
defines an accessor for each property that it is given, and, if the class is recursive, makes a proxy of every
object in the value: an assignment in a proxy dispatches an event for each property on the way to it and one
for the state.

An object that is assigned directly, without `update`, is no proxy, nor is any object in it, and what is
assigned in it afterwards dispatches nothing. The names on the way are joined by dots and split again to find
the value for the event, and so names with dots find another one. `notifies_of_run` says that in every run
without such assignments each one is stored and dispatches all of its events.

Not formalized here: the `onDidChange…` methods, the handlers of the events, and an object of the state that
is assigned at another place too.
-/

set_option autoImplicit false
set_option relaxedAutoImplicit false

namespace Playground.Updatable

open Library

variable {α : Type}

/-! ### The state of a class -/

/-- A change event. -/
structure ChangeEvent (α : Type) where
  name : Str
  detail : Option (PropertyTree α)

/-- The state of a class: the values of its properties, the places of the objects that are proxies, the
properties with an accessor, and the other own properties of the class. -/
structure ClassState (α : Type) where
  state : PropertyTree α
  proxied : List Str → Bool
  accessors : List Str
  statics : List Str

/-- The state that is reached, and the events that are dispatched on the way. -/
structure Effect (α : Type) where
  after : ClassState α
  events : List (ChangeEvent α)

/-- A class: its name, and what is read of a property of a value that is not an own one. It may be inherited,
and nothing can be read of `null`. -/
structure StaticClass (α : Type) where
  name : Str
  readOther : PropertyTree α → Str → Except Str (Option (PropertyTree α))

/-- The class before the first update. -/
def ClassState.initial (statics : List Str) : ClassState α :=
  ⟨.object false [], fun _ ↦ false, [], statics⟩

/-- The names of properties of a class that cannot be assigned. -/
def readOnlyNames : List Str :=
  ["length".toList, "name".toList, "prototype".toList]

/-- What is thrown when a property cannot be assigned. -/
def readOnly (prop : Str) : Str :=
  "Cannot assign to read only property \x27".toList ++ prop ++ "\x27".toList

/-- The names on the way to a property, joined by dots. -/
def joinNames (path : List Str) : Str :=
  ['.'].intercalate path

/-- The names of the parents of a property, from the outermost one to the property itself. -/
def parentNames (path : List Str) : List Str :=
  path.mapIdx fun index cur ↦ joinNames (path.take index ++ [cur])

/-- The assignment to an own property of the class without an accessor. -/
def ClassState.assignStatic (before : ClassState α) (prop : Str) : Except Str (Effect α) :=
  if prop ∈ before.statics then
    if prop ∈ readOnlyNames then .error (readOnly prop) else .ok ⟨before, []⟩
  else .ok ⟨{ before with statics := prop :: before.statics }, []⟩

namespace StaticClass

variable (sClass : StaticClass α)

/-- `_getChangeEventName`. -/
def changeEventName (name : Str) : Str :=
  "ondidchange".toList ++ sClass.name ++ name

/-- A property of a value that may be `undefined`. -/
def readProperty (acc : Option (PropertyTree α)) (cur : Str) :
    Except Str (Option (PropertyTree α)) :=
  match acc with
  | none => .error ("Cannot read properties of undefined (reading \x27".toList ++ cur ++ "\x27)".toList)
  | some tree =>
    match tree.child cur with
    | some inner => .ok (some inner)
    | none => sClass.readOther tree cur

/-- `PgCommon.getProperty`. -/
def getProperty (obj : PropertyTree α) (property : Str) : Except Str (Option (PropertyTree α)) :=
  (property.splitOn '.').foldlM sClass.readProperty (some obj)

/-! ### Updates and assignments -/

/-- The setter of a property of the class. What is assigned is a proxy if `defineSettersRecursively` has
made one of it. -/
def setter (before : ClassState α) (prop : Str) (value : PropertyTree α) (isProxy : Bool) : Effect α :=
  let state := before.state.setChild prop value
  let proxied := fun place ↦ if place.head? = some prop then isProxy else before.proxied place
  ⟨{ before with state := state, proxied := proxied },
    [⟨sClass.changeEventName prop, some value⟩, ⟨sClass.changeEventName [], some state⟩]⟩

/-- `update`, which is common to all classes. -/
def commonUpdate (before : ClassState α) (prop : Str) (value : PropertyTree α) :
    Except Str (Effect α) :=
  if prop ∈ before.accessors then .ok (sClass.setter before prop value false)
  else if prop ∈ before.statics then before.assignStatic prop
  else .ok (sClass.setter { before with accessors := prop :: before.accessors } prop value false)

/-- The events of the setter of a proxy. -/
def trapEvents (state : PropertyTree α) (path : List Str) : Except Str (List (ChangeEvent α)) := do
  let events ← (parentNames path).reverse.mapM fun name ↦ do
    let detail ← sClass.getProperty state name
    pure ⟨sClass.changeEventName name, detail⟩
  pure (events ++ [⟨sClass.changeEventName [], some state⟩])

mutual

/-- The events of `defineSettersRecursively`, which assigns every property again. -/
def defineSettersRecursively (state : PropertyTree α) :
    PropertyTree α → List Str → Except Str (List (ChangeEvent α))
  | .leaf _, _ => .ok []
  | .object _ properties, propNames => definePropertySetters state properties propNames

/-- The loop over the properties. -/
def definePropertySetters (state : PropertyTree α) :
    List (Str × PropertyTree α) → List Str → Except Str (List (ChangeEvent α))
  | [], _ => .ok []
  | (prop, value) :: rest, propNames =>
    let currentPropNames := propNames ++ [prop]
    if [] ∈ currentPropNames then
      .error "Cannot read properties of undefined (reading \x27toUpperCase\x27)".toList
    else do
      let inner ← defineSettersRecursively state value currentPropNames
      let events ← sClass.trapEvents state currentPropNames
      let others ← definePropertySetters state rest propNames
      pure (inner ++ events ++ others)

end

/-- One property of the parameters of `update`. -/
def updateProperty (recursive : Bool) (before : ClassState α) (prop : Str) (value : PropertyTree α) :
    Except Str (Effect α) := do
  let first ← sClass.commonUpdate before prop value
  if recursive ∧ value.IsObject then
    if prop ∈ first.after.accessors then do
      let events ← sClass.defineSettersRecursively first.after.state value [prop]
      let last := sClass.setter first.after prop value true
      pure ⟨last.after, first.events ++ events ++ last.events⟩
    else .error "Cannot create proxy with a non-object as target or handler".toList
  else pure first

/-- One property after others. -/
def updateNext (recursive : Bool) (effect : Effect α) (param : Str × PropertyTree α) :
    Except Str (Effect α) := do
  let next ← sClass.updateProperty recursive effect.after param.1 param.2
  pure ⟨next.after, effect.events ++ next.events⟩

/-- `sClass.update`. -/
def update (recursive : Bool) (before : ClassState α) (updateParams : List (Str × PropertyTree α)) :
    Except Str (Effect α) :=
  updateParams.foldlM (sClass.updateNext recursive) ⟨before, []⟩

/-- The assignment of a property of the class, or of an object in its state. -/
def assign (before : ClassState α) (place : List Str) (key : Str) (value : PropertyTree α) :
    Except Str (Effect α) :=
  match place with
  | [] =>
    if key ∈ before.accessors then .ok (sClass.setter before key value false)
    else before.assignStatic key
  | prop :: _ =>
    match before.state.get place with
    | some (.object _ _) =>
      if prop ∈ before.accessors then
        let path := place ++ [key]
        let state := before.state.set path value
        let proxied := fun other ↦ if path <+: other then false else before.proxied other
        let after := { before with state := state, proxied := proxied }
        if before.proxied place then do
          let events ← sClass.trapEvents state path
          pure ⟨after, events⟩
        else .ok ⟨after, []⟩
      else .error "The object is no part of the state".toList
    | _ => .error "There is no such object".toList

end StaticClass

/-! ### Runs -/

/-- The parameters of `update`: an object. -/
structure UpdateParams (α : Type) where
  entries : List (Str × PropertyTree α)
  nodup : (entries.map Prod.fst).Nodup
  valid : ∀ entry ∈ entries, entry.2.Valid

/-- A call of `update`, or an assignment to a property of the class or of an object in its state. -/
inductive Action (α : Type)
  | update (params : UpdateParams α)
  | assign (place : List Str) (key : Str) (value : PropertyTree α)

/-- What an action assigns. -/
def Action.assignments : Action α → List (List Str × PropertyTree α)
  | update params => params.entries.map fun entry ↦ ([entry.1], entry.2)
  | assign place key value => [(place ++ [key], value)]

/-- The places at which objects have been assigned directly since the last update of the property of the
class that they are in. -/
def replaced (before : List (List Str)) : Action α → List (List Str)
  | .update params => params.entries.foldl
      (fun places entry ↦ places.filter fun place ↦ place.head? ≠ some entry.1) before
  | .assign place key value =>
    let others := before.filter fun other ↦ ¬ place ++ [key] <+: other
    if value.IsObject then (place ++ [key]) :: others else others

namespace StaticClass

variable (sClass : StaticClass α)

/-- One action of a class that is recursive. -/
def step (before : ClassState α) : Action α → Except Str (Effect α)
  | .update params => sClass.update true before params.entries
  | .assign place key value => sClass.assign before place key value

/-- A step of a run, with the places at which objects have been assigned directly. -/
def Steps (before : ClassState α × List (List Str)) (action : Action α)
    (after : ClassState α × List (List Str)) : Prop :=
  ∃ events, sClass.step before.1 action = .ok ⟨after.1, events⟩ ∧ after.2 = replaced before.2 action

/-- A value is stored at a place, and an event has been dispatched for the property, for each of its parents,
and for the state. -/
structure Notified (effect : Effect α) (path : List Str) (value : PropertyTree α) : Prop where
  stored : effect.after.state.get path = some value
  parents : ∀ above, above ≠ [] → above <+: path →
    ⟨sClass.changeEventName (joinNames above), effect.after.state.get above⟩ ∈ effect.events
  main : ∃ state, ⟨sClass.changeEventName [], some state⟩ ∈ effect.events ∧ state.get path = some value

/-- Each assignment of an action stores its value and dispatches its events. -/
def Notifies (before : ClassState α) (action : Action α) : Prop :=
  ∃ effect, sClass.step before action = .ok effect ∧
    ∀ assigned ∈ action.assignments, sClass.Notified effect assigned.1 assigned.2

end StaticClass

/-- A name that is not empty and has no dots. -/
def IsPlainName (name : Str) : Prop :=
  name ≠ [] ∧ '.' ∉ name

/-- The names of all properties in a value are not empty and have no dots. -/
inductive HasPlainNames : PropertyTree α → Prop
  | leaf (value : α) : HasPlainNames (.leaf value)
  | object (isArray : Bool) {properties : List (Str × PropertyTree α)}
    (hnames : ∀ property ∈ properties, IsPlainName property.1)
    (hproperties : ∀ property ∈ properties, HasPlainNames property.2) :
    HasPlainNames (.object isArray properties)

/-- A property can be updated: the class has no other own property with its name, and the names in its value
are plain. -/
structure IsUpdatable (before : ClassState α) (prop : Str) (value : PropertyTree α) : Prop where
  notProto : prop ≠ PlainObject.protoName
  notStatic : prop ∉ before.statics
  plainName : value.properties ≠ [] → IsPlainName prop
  plainNames : HasPlainNames value

/-- An assignment in an object of the state is observed: no object on the way has been assigned directly since
the last update, and no name on the way has dots. -/
structure IsObservedIn (before : ClassState α) (places : List (List Str)) (place : List Str)
    (key : Str) : Prop where
  accessor : ∃ prop ∈ before.accessors, place.head? = some prop
  holds : ∃ inner, before.state.get place = some inner ∧ inner.Holds key
  withoutDots : ∀ name ∈ place ++ [key], '.' ∉ name
  notReplaced : ∀ other ∈ places, ¬ other <+: place

/-- The condition on an action, given the places at which objects have been assigned directly. -/
def IsObserved (before : ClassState α × List (List Str)) : Action α → Prop
  | .update params => ∀ entry ∈ params.entries, IsUpdatable before.1 entry.1 entry.2
  | .assign [] key _ => key ∈ before.1.accessors ∧ key ≠ PlainObject.protoName
  | .assign (prop :: rest) key _ => IsObservedIn before.1 before.2 (prop :: rest) key

/-! ### Events of proxies -/

section Events

variable (sClass : StaticClass α) {state tree inner : PropertyTree α} {path : List Str}

theorem joinNames_singleton (prop : Str) : joinNames [prop] = prop :=
  List.intercalate_singleton

/-- The properties on a way are read one after another. -/
theorem foldlM_readProperty (hget : tree.get path = some inner) :
    path.foldlM sClass.readProperty (some tree) = .ok (some inner) := by
  induction path generalizing tree with
  | nil => exact congrArg Except.ok hget
  | cons key rest ih =>
    obtain ⟨below, hbelow, hrest⟩ := Option.bind_eq_some_iff.mp hget
    rw [List.foldlM_cons, StaticClass.readProperty, hbelow]
    exact ih hrest

/-- The value at a place without dots is found by the names that are joined by dots. -/
theorem getProperty_joinNames (hne : path ≠ []) (hdots : ∀ name ∈ path, '.' ∉ name)
    (hget : state.get path = some inner) :
    sClass.getProperty state (joinNames path) = .ok (some inner) := by
  rw [StaticClass.getProperty, joinNames, List.splitOn_intercalate '.' hdots hne]
  exact foldlM_readProperty sClass hget

/-- The names of the parents are those of the places on the way. -/
theorem mem_parentNames {name : Str} :
    name ∈ parentNames path ↔ ∃ above, above ≠ [] ∧ above <+: path ∧ joinNames above = name := by
  have htake : ∀ index (hindex : index < path.length),
      path.take index ++ [path[index]] = path.take (index + 1) := by
    intro index hindex
    exact (List.take_succ_eq_append_getElem hindex).symm
  rw [parentNames, List.mem_mapIdx]
  constructor
  · rintro ⟨index, hindex, rfl⟩
    refine ⟨path.take (index + 1), ?_, List.take_prefix _ _, by rw [htake index hindex]⟩
    rw [← htake index hindex]
    exact List.append_ne_nil_of_right_ne_nil _ (List.cons_ne_nil _ _)
  · rintro ⟨above, hne, hinitial, rfl⟩
    obtain ⟨index, hlength⟩ := Nat.exists_eq_succ_of_ne_zero (List.length_pos_iff.mpr hne).ne'
    have hindex : index < path.length := by
      have hle := hinitial.length_le
      omega
    refine ⟨index, hindex, ?_⟩
    rw [htake index hindex, List.prefix_iff_eq_take.mp hinitial, hlength]

/-- The setter of a proxy dispatches an event for each property on the way, and one for the state. -/
theorem trapEvents_eq_ok (hdots : ∀ name ∈ path, '.' ∉ name) (hget : state.get path = some inner) :
    ∃ events, sClass.trapEvents state path = .ok events ∧
      (∀ above, above ≠ [] → above <+: path →
        ⟨sClass.changeEventName (joinNames above), state.get above⟩ ∈ events) ∧
      ⟨sClass.changeEventName [], some state⟩ ∈ events := by
  let body : Str → Except Str (ChangeEvent α) := fun name ↦ do
    let detail ← sClass.getProperty state name
    pure ⟨sClass.changeEventName name, detail⟩
  have hbody : ∀ above, above ≠ [] → above <+: path →
      body (joinNames above) = .ok ⟨sClass.changeEventName (joinNames above), state.get above⟩ := by
    intro above hne hinitial
    obtain ⟨found, hfound⟩ := PropertyTree.exists_get_of_prefix hinitial hget
    have hread := getProperty_joinNames sClass hne
      (fun name hname ↦ hdots name (hinitial.subset hname)) hfound
    exact Except.bind_eq_ok.mpr ⟨_, hread, by rw [hfound]; rfl⟩
  have hnames : ∀ name ∈ (parentNames path).reverse, ∃ event, body name = .ok event := by
    intro name hname
    obtain ⟨above, hne, hinitial, rfl⟩ := mem_parentNames.mp (List.mem_reverse.mp hname)
    exact ⟨_, hbody above hne hinitial⟩
  obtain ⟨events, hevents⟩ := Except.exists_mapM_eq_ok hnames
  refine ⟨events ++ [⟨sClass.changeEventName [], some state⟩],
    Except.bind_eq_ok.mpr ⟨events, hevents, rfl⟩, fun above hne hinitial ↦ ?_,
    List.mem_append_right _ (List.mem_singleton_self _)⟩
  have hname : joinNames above ∈ (parentNames path).reverse :=
    List.mem_reverse.mpr (mem_parentNames.mpr ⟨above, hne, hinitial, rfl⟩)
  obtain ⟨event, hevent, hdispatched⟩ := Except.exists_of_mapM hevents hname
  obtain rfl := Except.ok.inj ((hbody above hne hinitial).symm.trans hdispatched)
  exact List.mem_append_left _ hevent

/-- The setters are defined in a value with plain names. -/
theorem exists_defineSettersRecursively {propNames : List Str} (hvalid : tree.Valid)
    (hnames : HasPlainNames tree)
    (hplain : tree.properties ≠ [] → ∀ name ∈ propNames, IsPlainName name)
    (hget : state.get propNames = some tree) :
    ∃ events, sClass.defineSettersRecursively state tree propNames = .ok events := by
  induction hvalid generalizing propNames with
  | leaf value => exact ⟨[], by rw [StaticClass.defineSettersRecursively]⟩
  | @object isArray properties hnodup hproperties ih =>
    cases hnames with
    | object _ hplainNames hplainProperties =>
      rw [StaticClass.defineSettersRecursively]
      have hloop : ∀ rest : List (Str × PropertyTree α), rest ⊆ properties →
          ∃ events, sClass.definePropertySetters state rest propNames = .ok events := by
        intro rest hrest
        induction rest with
        | nil => exact ⟨[], by rw [StaticClass.definePropertySetters]⟩
        | cons property others ihOthers =>
          rw [List.cons_subset] at hrest
          obtain ⟨hmem, hothers⟩ := hrest
          have hne : properties ≠ [] := List.ne_nil_of_mem hmem
          have hcurrent : ∀ name ∈ propNames ++ [property.1], IsPlainName name := by
            rw [List.forall_mem_append, List.forall_mem_singleton]
            exact ⟨hplain hne, hplainNames property hmem⟩
          have hchild : state.get (propNames ++ [property.1]) = some property.2 := by
            rw [PropertyTree.get_append, hget]
            show ((Entries.find properties property.1).bind fun inner ↦ inner.get []) = _
            rw [(Entries.find_eq_some_iff hnodup).mpr hmem]
            rfl
          obtain ⟨inner, hinner⟩ :=
            ih property hmem (hplainProperties property hmem) (fun _ ↦ hcurrent) hchild
          obtain ⟨events, hevents, -, -⟩ :=
            trapEvents_eq_ok sClass (fun name hname ↦ (hcurrent name hname).2) hchild
          obtain ⟨last, hlast⟩ := ihOthers hothers
          have hempty : [] ∉ propNames ++ [property.1] := fun hmem ↦ (hcurrent [] hmem).1 rfl
          refine ⟨inner ++ events ++ last, ?_⟩
          rw [StaticClass.definePropertySetters, if_neg hempty, hinner, hevents, hlast]
          rfl
      exact hloop properties (List.Subset.refl _)

end Events

/-! ### One property of the parameters -/

section Update

variable {sClass : StaticClass α} {before : ClassState α} {prop : Str} {value : PropertyTree α}

/-- What is known of a property of the class that has been assigned. -/
theorem notified_singleton {effect : Effect α} : sClass.Notified effect [prop] value ↔
    effect.after.state.child prop = some value ∧
      ⟨sClass.changeEventName prop, some value⟩ ∈ effect.events ∧
        ∃ state, ⟨sClass.changeEventName [], some state⟩ ∈ effect.events ∧
          state.child prop = some value := by
  constructor
  · rintro ⟨hstored, hparents, hmain⟩
    have hevent := hparents [prop] (List.cons_ne_nil _ _) (List.prefix_refl _)
    simp only [PropertyTree.get_singleton] at hstored hevent hmain
    rw [hstored, joinNames_singleton] at hevent
    exact ⟨hstored, hevent, hmain⟩
  · rintro ⟨hstored, hevent, hmain⟩
    simp only [← PropertyTree.get_singleton] at hstored hmain
    refine ⟨hstored, fun above hne hinitial ↦ ?_, hmain⟩
    obtain ⟨rest, rfl, hrest⟩ := (List.prefix_cons_iff.mp hinitial).resolve_left hne
    obtain rfl := List.prefix_nil.mp hrest
    rw [hstored, joinNames_singleton]
    exact hevent

/-- What an update of one property does. -/
structure Updated (sClass : StaticClass α) (before : ClassState α) (prop : Str) (value : PropertyTree α)
    (effect : Effect α) : Prop where
  notified : sClass.Notified effect [prop] value
  isObject : effect.after.state.IsObject
  child_of_ne : ∀ other, other ≠ prop → effect.after.state.child other = before.state.child other
  statics : effect.after.statics = before.statics
  proxied : value.IsObject → ∀ place, place.head? = some prop → effect.after.proxied place = true
  proxied_of_ne : ∀ place, place.head? ≠ some prop → effect.after.proxied place = before.proxied place

/-- What the setter of a property does, after what concerns this property only. -/
theorem updated_setter (before middle : ClassState α) (hobject : middle.state.IsObject)
    (hproto : prop ≠ PlainObject.protoName)
    (hchild : ∀ other, other ≠ prop → middle.state.child other = before.state.child other)
    (hstatics : middle.statics = before.statics)
    (hproxied : ∀ place, place.head? ≠ some prop → middle.proxied place = before.proxied place)
    {isProxy : Bool} (hproxy : value.IsObject → isProxy = true) (events : List (ChangeEvent α)) :
    Updated sClass before prop value
      ⟨(sClass.setter middle prop value isProxy).after,
        events ++ (sClass.setter middle prop value isProxy).events⟩ where
  notified := by
    have hstored : (middle.state.setChild prop value).child prop = some value :=
      PropertyTree.child_setChild_self ⟨hobject, .inl hproto⟩
    refine notified_singleton.mpr ⟨hstored, List.mem_append_right _ List.mem_cons_self, _, ?_, hstored⟩
    exact List.mem_append_right _ (List.mem_cons_of_mem _ List.mem_cons_self)
  isObject := PropertyTree.isObject_setChild.mpr hobject
  child_of_ne := fun other hne ↦ (PropertyTree.child_setChild_of_ne hne).trans (hchild other hne)
  statics := hstatics
  proxied := fun hvalue place hhead ↦ (if_pos hhead).trans (hproxy hvalue)
  proxied_of_ne := fun place hhead ↦ (if_neg hhead).trans (hproxied place hhead)

/-- The common part of an update of a property that can be updated is its setter. -/
theorem commonUpdate_eq_ok (sClass : StaticClass α) (value : PropertyTree α) (hstatic : prop ∉ before.statics) : ∃ accessors, prop ∈ accessors ∧
    sClass.commonUpdate before prop value =
      .ok (sClass.setter { before with accessors := accessors } prop value false) := by
  by_cases haccessor : prop ∈ before.accessors
  · exact ⟨before.accessors, haccessor, if_pos haccessor⟩
  · refine ⟨prop :: before.accessors, List.mem_cons_self, ?_⟩
    rw [StaticClass.commonUpdate, if_neg haccessor, if_neg hstatic]

/-- A property that can be updated is updated. -/
theorem exists_updateProperty (sClass : StaticClass α) (hobject : before.state.IsObject) (hvalid : value.Valid)
    (hupdatable : IsUpdatable before prop value) :
    ∃ effect, sClass.updateProperty true before prop value = .ok effect ∧
      Updated sClass before prop value effect := by
  obtain ⟨hproto, hstatic, hplain, hplainNames⟩ := hupdatable
  obtain ⟨accessors, haccessor, hfirst⟩ :=
    commonUpdate_eq_ok sClass value hstatic
  by_cases hvalue : value.IsObject
  · have hstored : (before.state.setChild prop value).get [prop] = some value := by
      rw [PropertyTree.get_singleton, PropertyTree.child_setChild_self ⟨hobject, .inl hproto⟩]
    obtain ⟨events, hevents⟩ := exists_defineSettersRecursively sClass hvalid hplainNames
      (fun hne name hname ↦ (List.mem_singleton.mp hname) ▸ hplain hne) hstored
    let first := sClass.setter { before with accessors := accessors } prop value false
    have hlast : Updated sClass before prop value ⟨(sClass.setter first.after prop value true).after,
        (first.events ++ events) ++ (sClass.setter first.after prop value true).events⟩ :=
      updated_setter before first.after (PropertyTree.isObject_setChild.mpr hobject) hproto
        (fun other hne ↦ PropertyTree.child_setChild_of_ne hne) rfl (fun place hhead ↦ if_neg hhead)
        (fun _ ↦ rfl) _
    refine ⟨_, Except.bind_eq_ok.mpr ⟨first, hfirst, ?_⟩, hlast⟩
    rw [if_pos ⟨rfl, hvalue⟩, if_pos (show prop ∈ first.after.accessors from haccessor)]
    exact Except.bind_eq_ok.mpr ⟨events, hevents, rfl⟩
  · have hlast : Updated sClass before prop value
        (sClass.setter { before with accessors := accessors } prop value false) :=
      updated_setter before { before with accessors := accessors } hobject hproto (fun _ _ ↦ rfl) rfl
        (fun _ _ ↦ rfl) (fun hobject ↦ absurd hobject hvalue) []
    refine ⟨_, Except.bind_eq_ok.mpr ⟨_, hfirst, ?_⟩, hlast⟩
    rw [if_neg fun hboth ↦ hvalue hboth.2]
    rfl

end Update

/-! ### What is proxied -/

/-- In the state all objects are proxies but those in objects that have been assigned directly. -/
structure Proxied (before : ClassState α × List (List Str)) : Prop where
  isObject : before.1.state.IsObject
  proxied : ∀ place, place ≠ [] → before.1.state.IsObjectAt place →
    before.1.proxied place = true ∨ ∃ other ∈ before.2, other <+: place

section Proxied

variable {sClass : StaticClass α} {before : ClassState α} {places : List (List Str)}

/-- After an update of a property all objects in it are proxies. -/
theorem Proxied.of_updated {prop : Str} {value : PropertyTree α} {effect : Effect α}
    (hproxied : Proxied (before, places)) (hupdated : Updated sClass before prop value effect) :
    Proxied (effect.after, places.filter fun place ↦ place.head? ≠ some prop) := by
  refine ⟨hupdated.isObject, fun place hne hobject ↦ ?_⟩
  obtain ⟨inner, hget, hinner⟩ := hobject
  cases place with
  | nil => exact absurd rfl hne
  | cons first below =>
    by_cases hfirst : first = prop
    · subst hfirst
      obtain ⟨hchild, -, -⟩ := notified_singleton.mp hupdated.notified
      rw [PropertyTree.get, hchild] at hget
      exact .inl (hupdated.proxied (PropertyTree.isObject_of_get hget hinner) _ rfl)
    · have hhead : (first :: below).head? ≠ some prop := fun heq ↦ hfirst (Option.some.inj heq)
      rw [PropertyTree.get, hupdated.child_of_ne first hfirst] at hget
      rw [hupdated.proxied_of_ne _ hhead]
      refine (hproxied.proxied _ hne ⟨inner, hget, hinner⟩).imp_right ?_
      rintro ⟨other, hother, hinitial⟩
      refine ⟨other, List.mem_filter.mpr ⟨hother, decide_eq_true fun hotherHead ↦ ?_⟩, hinitial⟩
      cases other with
      | nil => cases hotherHead
      | cons otherFirst rest =>
        rw [List.cons_prefix_cons] at hinitial
        exact hhead (hinitial.1 ▸ hotherHead)

/-- What has been notified is kept by the updates of other properties. -/
theorem notified_of_updated {prop other : Str} {value otherValue : PropertyTree α}
    {effect next : Effect α} (hnotified : sClass.Notified effect [other] otherValue)
    (hupdated : Updated sClass effect.after prop value next) (hne : other ≠ prop) :
    sClass.Notified ⟨next.after, effect.events ++ next.events⟩ [other] otherValue := by
  obtain ⟨hstored, hevent, state, hmain, hchild⟩ := notified_singleton.mp hnotified
  exact notified_singleton.mpr ⟨(hupdated.child_of_ne other hne).trans hstored,
    List.mem_append_left _ hevent, state, List.mem_append_left _ hmain, hchild⟩

/-- An update notifies of all of its properties, and all objects in them are proxies. -/
theorem exists_update {entries : List (Str × PropertyTree α)} (effect : Effect α)
    (hnodup : (entries.map Prod.fst).Nodup) (hvalid : ∀ entry ∈ entries, entry.2.Valid)
    (hupdatable : ∀ entry ∈ entries, IsUpdatable effect.after entry.1 entry.2)
    (hproxied : Proxied (effect.after, places)) :
    ∃ last, entries.foldlM (sClass.updateNext true) effect = .ok last ∧
      (∀ other otherValue, other ∉ entries.map Prod.fst →
        sClass.Notified effect [other] otherValue → sClass.Notified last [other] otherValue) ∧
      (∀ entry ∈ entries, sClass.Notified last [entry.1] entry.2) ∧
      Proxied (last.after, entries.foldl
        (fun places entry ↦ places.filter fun place ↦ place.head? ≠ some entry.1) places) := by
  induction entries generalizing effect places with
  | nil =>
    exact ⟨effect, rfl, fun _ _ _ hnotified ↦ hnotified, fun entry hentry ↦ absurd hentry List.not_mem_nil,
      hproxied⟩
  | cons entry rest ih =>
    rw [List.map_cons, List.nodup_cons] at hnodup
    rw [List.forall_mem_cons] at hvalid hupdatable
    obtain ⟨next, hnext, hupdated⟩ :=
      exists_updateProperty sClass hproxied.isObject hvalid.1 hupdatable.1
    let middle : Effect α := ⟨next.after, effect.events ++ next.events⟩
    have hstep : sClass.updateNext true effect entry = .ok middle :=
      Except.bind_eq_ok.mpr ⟨next, hnext, rfl⟩
    have hothers : ∀ other ∈ rest, IsUpdatable middle.after other.1 other.2 := by
      intro other hother
      obtain ⟨hproto, hstatic, hplain, hnames⟩ := hupdatable.2 other hother
      exact ⟨hproto, hupdated.statics ▸ hstatic, hplain, hnames⟩
    have hproxiedMiddle : Proxied (next.after,
        places.filter fun place ↦ place.head? ≠ some entry.1) := hproxied.of_updated hupdated
    obtain ⟨last, hlast, hkept, hnotified, hproxiedLast⟩ :=
      ih middle hnodup.2 hvalid.2 hothers hproxiedMiddle
    have hfirst : sClass.Notified middle [entry.1] entry.2 := by
      obtain ⟨hstored, hevent, state, hmain, hchild⟩ := notified_singleton.mp hupdated.notified
      exact notified_singleton.mpr ⟨hstored, List.mem_append_right _ hevent, state,
        List.mem_append_right _ hmain, hchild⟩
    refine ⟨last, ?_, fun other otherValue hother hbefore ↦ ?_, ?_, hproxiedLast⟩
    · rw [List.foldlM_cons, hstep]
      exact hlast
    · rw [List.map_cons, List.mem_cons, not_or] at hother
      exact hkept other otherValue hother.2 (notified_of_updated hbefore hupdated hother.1)
    · rw [List.forall_mem_cons]
      exact ⟨hkept _ _ hnodup.1 hfirst, hnotified⟩

/-- After an assignment all objects are proxies but those in objects that have been assigned directly. -/
theorem Proxied.of_assign {place : List Str} {key : Str} {value : PropertyTree α} {after : ClassState α}
    (hproxied : Proxied (before, places)) (hobject : after.state.IsObject)
    (hassigned : ∀ other, place ++ [key] <+: other → after.state.IsObjectAt other → value.IsObject)
    (hkept : ∀ other, ¬ place ++ [key] <+: other → after.state.IsObjectAt other →
      before.state.IsObjectAt other ∧ after.proxied other = before.proxied other) :
    Proxied (after, replaced places (.assign place key value)) := by
  have hmem : ∀ other, other ∈ replaced places (.assign place key value) ↔
      (value.IsObject ∧ other = place ++ [key]) ∨ (other ∈ places ∧ ¬ place ++ [key] <+: other) := by
    intro other
    rw [replaced]
    split
    · next hvalue => simp [hvalue, List.mem_filter]
    · next hvalue => simp [hvalue, List.mem_filter]
  refine ⟨hobject, fun other hne hother ↦ ?_⟩
  by_cases hinitial : place ++ [key] <+: other
  · exact .inr ⟨place ++ [key], (hmem _).mpr (.inl ⟨hassigned other hinitial hother, rfl⟩), hinitial⟩
  · obtain ⟨hbefore, hsame⟩ := hkept other hinitial hother
    rw [hsame]
    refine (hproxied.proxied other hne hbefore).imp_right ?_
    rintro ⟨above, habove, haboveOther⟩
    exact ⟨above, (hmem _).mpr (.inr ⟨habove, fun hpath ↦ hinitial (hpath.trans haboveOther)⟩), haboveOther⟩

end Proxied

/-! ### Steps -/

section Steps

variable {sClass : StaticClass α} {before : ClassState α × List (List Str)}

/-- An object at a place below one where a value has been stored is in this value. -/
theorem isObject_of_isObjectAt {state value : PropertyTree α} {path other : List Str}
    (hstored : state.get path = some value) (hinitial : path <+: other)
    (hobject : state.IsObjectAt other) : value.IsObject := by
  obtain ⟨below, rfl⟩ := hinitial
  obtain ⟨inner, hget, hinner⟩ := hobject
  rw [PropertyTree.get_append, hstored] at hget
  exact PropertyTree.isObject_of_get hget hinner

/-- An assignment of a property of the class that has been updated. -/
theorem exists_assign_property {key : Str} (value : PropertyTree α) (hproxied : Proxied before)
    (hobserved : IsObserved before (.assign [] key value)) :
    ∃ effect, sClass.step before.1 (.assign [] key value) = .ok effect ∧
      sClass.Notified effect [key] value ∧
        Proxied (effect.after, replaced before.2 (.assign [] key value)) := by
  obtain ⟨haccessor, hproto⟩ := hobserved
  have hstored : (before.1.state.setChild key value).child key = some value :=
    PropertyTree.child_setChild_self ⟨hproxied.isObject, .inl hproto⟩
  refine ⟨sClass.setter before.1 key value false, if_pos haccessor, notified_singleton.mpr
    ⟨hstored, List.mem_cons_self, _, List.mem_cons_of_mem _ List.mem_cons_self, hstored⟩, ?_⟩
  refine hproxied.of_assign (PropertyTree.isObject_setChild.mpr hproxied.isObject)
    (fun other hinitial hobject ↦ ?_) fun other hinitial hobject ↦ ?_
  · exact isObject_of_isObjectAt (PropertyTree.get_singleton.trans hstored) hinitial hobject
  · have hset : (before.1.state.set [key] value).IsObjectAt other :=
      PropertyTree.set_singleton.symm ▸ hobject
    refine ⟨PropertyTree.isObjectAt_of_set hset hinitial, if_neg fun hhead ↦ hinitial ?_⟩
    obtain ⟨rest, rfl⟩ := List.head?_eq_some_iff.mp hhead
    exact List.prefix_append [key] rest

/-- An assignment in an object of the state that is a proxy. -/
theorem exists_assign_inside {prop key : Str} {rest : List Str} (value : PropertyTree α)
    (hproxied : Proxied before) (hobserved : IsObserved before (.assign (prop :: rest) key value)) :
    ∃ effect, sClass.step before.1 (.assign (prop :: rest) key value) = .ok effect ∧
      sClass.Notified effect (prop :: rest ++ [key]) value ∧
        Proxied (effect.after, replaced before.2 (.assign (prop :: rest) key value)) := by
  obtain ⟨⟨first, haccessor, hfirst⟩, ⟨inner, hget, hholds⟩, hdots, hreplaced⟩ := hobserved
  obtain rfl := Option.some.inj hfirst
  have hproxy : before.1.proxied (prop :: rest) = true :=
    (hproxied.proxied _ (List.cons_ne_nil _ _) ⟨inner, hget, hholds.1⟩).resolve_right
      fun ⟨other, hother, hinitial⟩ ↦ hreplaced other hother hinitial
  have hstored : (before.1.state.set (prop :: rest ++ [key]) value).get (prop :: rest ++ [key]) = some value :=
    PropertyTree.get_set hget hholds
  obtain ⟨events, hevents, hparents, hmain⟩ := trapEvents_eq_ok sClass hdots hstored
  let after : ClassState α := { before.1 with
    state := before.1.state.set (prop :: rest ++ [key]) value
    proxied := fun other ↦ if prop :: rest ++ [key] <+: other then false else before.1.proxied other }
  refine ⟨⟨after, events⟩, ?_, ⟨hstored, hparents, _, hmain, hstored⟩, ?_⟩
  · cases inner with
    | leaf value => exact hholds.1.elim
    | object isArray properties =>
      rw [StaticClass.step, StaticClass.assign, hget]
      show (if prop ∈ before.1.accessors then _ else _) = _
      rw [if_pos haccessor]
      show (if before.1.proxied (prop :: rest) = true then _ else _) = _
      rw [if_pos hproxy]
      exact Except.bind_eq_ok.mpr ⟨events, hevents, rfl⟩
  · refine hproxied.of_assign ?_ (fun other hinitial hobject ↦ ?_) fun other hinitial hobject ↦ ?_
    · exact (PropertyTree.isObject_set (List.cons_ne_nil _ _)).mpr hproxied.isObject
    · exact isObject_of_isObjectAt hstored hinitial hobject
    · exact ⟨PropertyTree.isObjectAt_of_set hobject hinitial, if_neg hinitial⟩

/-- The step of a run: an action that meets the condition is notified of, and the objects stay proxies. -/
theorem notifies_of_proxied (sClass : StaticClass α) {action : Action α} (hproxied : Proxied before)
    (hobserved : IsObserved before action) :
    ∃ effect, sClass.step before.1 action = .ok effect ∧
      (∀ assigned ∈ action.assignments, sClass.Notified effect assigned.1 assigned.2) ∧
        Proxied (effect.after, replaced before.2 action) := by
  cases action with
  | update params =>
    obtain ⟨effect, heffect, -, hnotified, hproxiedAfter⟩ :=
      exists_update ⟨before.1, []⟩ params.nodup params.valid hobserved hproxied
    refine ⟨effect, heffect, fun assigned hassigned ↦ ?_, hproxiedAfter⟩
    obtain ⟨entry, hentry, rfl⟩ := List.mem_map.mp hassigned
    exact hnotified entry hentry
  | assign place key value =>
    have hsingleton : ∀ {effect : Effect α}, sClass.Notified effect (place ++ [key]) value →
        ∀ assigned ∈ (Action.assign place key value).assignments,
          sClass.Notified effect assigned.1 assigned.2 := by
      intro effect hnotified assigned hassigned
      obtain rfl := List.mem_singleton.mp hassigned
      exact hnotified
    cases place with
    | nil =>
      obtain ⟨effect, heffect, hnotified, hproxiedAfter⟩ :=
        exists_assign_property value hproxied hobserved
      exact ⟨effect, heffect, hsingleton hnotified, hproxiedAfter⟩
    | cons prop rest =>
      obtain ⟨effect, heffect, hnotified, hproxiedAfter⟩ :=
        exists_assign_inside value hproxied hobserved
      exact ⟨effect, heffect, hsingleton hnotified, hproxiedAfter⟩

end Steps

/-- In the state before the first update there are no objects. -/
theorem proxied_initial (statics : List Str) :
    Proxied ((ClassState.initial statics : ClassState α), []) := by
  refine ⟨trivial, fun place hne hobject ↦ ?_⟩
  obtain ⟨inner, hget, -⟩ := hobject
  cases place with
  | nil => exact absurd rfl hne
  | cons key rest => cases hget

/-- A class whose values inherit nothing. -/
def plainClass : StaticClass ℕ :=
  ⟨['C'], fun _ _ ↦ .ok none⟩

/-- The object `{ b: value }`. -/
def nested (value : ℕ) : PropertyTree ℕ :=
  .object false [(['b'], .leaf value)]

/-- The parameters `{ a: { b: 0 } }`. -/
def nestedParams : UpdateParams ℕ where
  entries := [(['a'], nested 0)]
  nodup := List.nodup_singleton _
  valid := by
    rw [List.forall_mem_singleton]
    refine .object false (List.nodup_singleton _) ?_
    rw [List.forall_mem_singleton]
    exact .leaf 0

/-- The state after the update: the object is a proxy. -/
def nestedState : ClassState ℕ where
  state := .object false [(['a'], nested 0)]
  proxied := fun place ↦
    if place.head? = some ['a'] then true else if place.head? = some ['a'] then false else false
  accessors := [['a']]
  statics := []

/-- The property can be updated. -/
theorem isObserved_nestedParams :
    IsObserved ((ClassState.initial [] : ClassState ℕ), []) (.update nestedParams) := by
  have hplain : ∀ name ∈ [['a'], ['b']], IsPlainName name := by
    rw [List.forall_mem_cons, List.forall_mem_singleton]
    exact ⟨⟨by decide, by decide⟩, by decide, by decide⟩
  show ∀ entry ∈ [(['a'], nested 0)], IsUpdatable _ _ _
  rw [List.forall_mem_singleton]
  refine ⟨by decide, List.not_mem_nil, fun _ ↦ hplain _ (by decide), .object false ?_ ?_⟩
  · rw [List.forall_mem_singleton]
    exact hplain _ (by decide)
  · rw [List.forall_mem_singleton]
    exact .leaf 0

/-- The update is a step. -/
theorem steps_nestedParams :
    plainClass.Steps (.initial [], []) (.update nestedParams) (nestedState, []) :=
  ⟨_, rfl, rfl⟩

end Playground.Updatable
