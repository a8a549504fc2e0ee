import Playground.Decorators.Normalization
import Playground.Decorators.Updatable

/-!
# Initializing an updatable class

`init` of an updatable class (`client/src/utils/pg/decorators/updatable.ts`): the persisted state is normalized
with the default one and given to `update`. A property becomes one of the state only if the class has no other
own property with its name, as every class has a `name` and a `length`.

`initNormalizes_iff` says for which states the state of the class is the normalized one. For recursive classes
it asks for names that `update` accepts.

Not formalized here: a default state with the key `_state`, and properties of other decorators.
-/

set_option autoImplicit false
set_option relaxedAutoImplicit false

namespace Playground.Updatable

open Library

/-! ### JSON values as trees -/

mutual

/-- The tree of the properties of a value. -/
def jsonTree : JsonValue → PropertyTree JsonValue
  | .array elements => .object true (treeElements 0 elements)
  | .object members => .object false (treeMembers members)
  | value => .leaf value

/-- The elements of an array by their indices. -/
def treeElements : ℕ → List JsonValue → List (Str × PropertyTree JsonValue)
  | _, [] => []
  | index, element :: rest =>
    (JsonValue.indexKey index, jsonTree element) :: treeElements (index + 1) rest

/-- The properties of an object. -/
def treeMembers : List (Str × JsonValue) → List (Str × PropertyTree JsonValue)
  | [] => []
  | (key, value) :: rest => (key, jsonTree value) :: treeMembers rest

end

theorem treeMembers_eq (members : List (Str × JsonValue)) :
    treeMembers members = members.map fun member ↦ (member.1, jsonTree member.2) := by
  induction members with
  | nil => rw [treeMembers]; rfl
  | cons member rest ih =>
    rw [treeMembers, ih]
    rfl

theorem map_fst_treeElements (index : ℕ) (elements : List JsonValue) :
    (treeElements index elements).map Prod.fst =
      (List.range' index elements.length).map JsonValue.indexKey := by
  induction elements generalizing index with
  | nil => rw [treeElements]; rfl
  | cons element rest ih =>
    rw [treeElements, List.map_cons, ih]
    rfl

theorem mem_treeElements {index : ℕ} {elements : List JsonValue} {property : Str × PropertyTree JsonValue}
    (hmem : property ∈ treeElements index elements) : ∃ element ∈ elements, property.2 = jsonTree element := by
  induction elements generalizing index with
  | nil =>
    rw [treeElements] at hmem
    cases hmem
  | cons element rest ih =>
    rw [treeElements] at hmem
    rcases List.mem_cons.mp hmem with rfl | hrest
    · exact ⟨element, List.mem_cons_self, rfl⟩
    · obtain ⟨found, hfound, heq⟩ := ih hrest
      exact ⟨found, List.mem_cons_of_mem _ hfound, heq⟩

/-- The tree of a valid value is valid. -/
theorem valid_jsonTree {value : JsonValue} (hvalid : value.Valid) : (jsonTree value).Valid := by
  induction hvalid with
  | array helements ih =>
    rw [jsonTree]
    refine .object true ?_ fun property hproperty ↦ ?_
    · rw [map_fst_treeElements]
      exact (List.nodup_range').map JsonValue.indexKey_injective
    · obtain ⟨element, helement, heq⟩ := mem_treeElements hproperty
      exact heq ▸ ih element helement
  | object hnodup hmembers ih =>
    rw [jsonTree, treeMembers_eq]
    refine .object false ?_ fun property hproperty ↦ ?_
    · rw [List.map_map]
      exact hnodup
    · obtain ⟨member, hmember, rfl⟩ := List.mem_map.mp hproperty
      exact ih member hmember
  | _ =>
    rw [jsonTree]
    · exact .leaf _
    all_goals nofun

/-- The properties of an object are found in its tree. -/
theorem child_jsonTree_object (members : List (Str × JsonValue)) (key : Str) :
    (jsonTree (.object members)).child key = (Entries.find members key).map jsonTree := by
  rw [jsonTree, PropertyTree.child, PropertyTree.properties, treeMembers_eq]
  induction members with
  | nil => rfl
  | cons member rest ih =>
    rw [List.map_cons, Entries.find_cons, Entries.find_cons, ih]
    split
    · rfl
    · rfl

/-! ### What an update leaves -/

section Update

variable {sClass : StaticClass JsonValue} {recursive : Bool} {before : ClassState JsonValue}
  {prop key : Str} {value : PropertyTree JsonValue} {effect : Effect JsonValue}

/-- The setter of a property sets its value and keeps the others. -/
theorem child_setter (sClass : StaticClass JsonValue) (hobject : before.state.IsObject) (hproto : prop ≠ PlainObject.protoName)
    (isProxy : Bool) : (sClass.setter before prop value isProxy).after.state.child key =
      if key = prop then some value else before.state.child key := by
  show (before.state.setChild prop value).child key = _
  split
  · next hkey => rw [hkey, PropertyTree.child_setChild_self ⟨hobject, .inl hproto⟩]
  · next hkey => exact PropertyTree.child_setChild_of_ne hkey

/-- An update of a property ends with its setter. -/
theorem updateProperty_eq_ok (hstatic : prop ∉ before.statics)
    (hupdate : sClass.updateProperty recursive before prop value = .ok effect) : ∃ accessors,
      effect.after = (sClass.setter { before with accessors := accessors } prop value false).after ∨
        effect.after = (sClass.setter
          (sClass.setter { before with accessors := accessors } prop value false).after prop value true).after := by
  obtain ⟨accessors, -, hcommon⟩ := commonUpdate_eq_ok sClass value hstatic
  refine ⟨accessors, ?_⟩
  obtain ⟨first, hfirst, hrest⟩ := Except.bind_eq_ok.mp hupdate
  obtain rfl := Except.ok.inj (hcommon.symm.trans hfirst)
  split at hrest
  · split at hrest
    · obtain ⟨events, -, hlast⟩ := Except.bind_eq_ok.mp hrest
      exact .inr (Except.ok.inj hlast ▸ rfl)
    · cases hrest
  · exact .inl (Except.ok.inj hrest ▸ rfl)

/-- An update of a property sets its value and keeps the others. -/
theorem child_of_updateProperty (hobject : before.state.IsObject) (hproto : prop ≠ PlainObject.protoName)
    (hstatic : prop ∉ before.statics)
    (hupdate : sClass.updateProperty recursive before prop value = .ok effect) :
    effect.after.state.IsObject ∧ effect.after.statics = before.statics ∧ ∀ key,
      effect.after.state.child key = if key = prop then some value else before.state.child key := by
  obtain ⟨accessors, hafter | hafter⟩ := updateProperty_eq_ok hstatic hupdate
  · rw [hafter]
    exact ⟨PropertyTree.isObject_setChild.mpr hobject, rfl, fun key ↦ child_setter sClass hobject hproto false⟩
  · rw [hafter]
    have hmiddle : (before.state.setChild prop value).IsObject := PropertyTree.isObject_setChild.mpr hobject
    refine ⟨PropertyTree.isObject_setChild.mpr hmiddle, rfl, fun key ↦ ?_⟩
    rw [child_setter sClass hmiddle hproto]
    split
    · rfl
    · next hkey => exact (child_setter sClass hobject hproto false).trans (if_neg hkey)

/-- An update sets the values of its parameters and keeps the other properties. -/
theorem child_of_update {entries : List (Str × PropertyTree JsonValue)} {last : Effect JsonValue}
    (hobject : effect.after.state.IsObject) (hnodup : (entries.map Prod.fst).Nodup)
    (hkeys : ∀ entry ∈ entries, entry.1 ≠ PlainObject.protoName ∧ entry.1 ∉ effect.after.statics)
    (hupdate : entries.foldlM (sClass.updateNext recursive) effect = .ok last) (key : Str) :
    last.after.state.child key = (Entries.find entries key).or (effect.after.state.child key) := by
  induction entries generalizing effect with
  | nil =>
    obtain rfl := Except.ok.inj hupdate
    rfl
  | cons entry rest ih =>
    rw [List.map_cons, List.nodup_cons] at hnodup
    rw [List.forall_mem_cons] at hkeys
    obtain ⟨⟨hproto, hstatic⟩, hrest⟩ := hkeys
    rw [List.foldlM_cons] at hupdate
    obtain ⟨middle, hmiddle, hlast⟩ := Except.bind_eq_ok.mp hupdate
    obtain ⟨next, hnext, hevents⟩ := Except.bind_eq_ok.mp hmiddle
    obtain rfl := Except.ok.inj hevents
    obtain ⟨hnextObject, hstatics, hchild⟩ := child_of_updateProperty hobject hproto hstatic hnext
    have hmiddleObject : (⟨next.after, effect.events ++ next.events⟩ : Effect JsonValue).after.state.IsObject :=
      hnextObject
    rw [ih hmiddleObject hnodup.2 (fun other hother ↦ ?_) hlast, Entries.find_cons, hchild key]
    · by_cases hkey : key = entry.1
      · have hnone : Entries.find rest key = none :=
          Entries.find_eq_none_iff.mpr fun hmem ↦ hnodup.1 (hkey ▸ hmem)
        rw [hnone, if_pos hkey, if_pos hkey]
        rfl
      · rw [if_neg hkey, if_neg hkey]
    · rw [hstatics]
      exact hrest other hother

/-- A property that becomes none of the state: its name is that of another property of the class. -/
structure IsOutside (before : ClassState JsonValue) (key : Str) : Prop where
  name : key = PlainObject.protoName ∨ (key ∈ before.statics ∧ key ∉ before.accessors)
  notChild : before.state.child key = none

/-- The setter of another property leaves it outside, and so does that of `__proto__`. -/
theorem IsOutside.of_setter (sClass : StaticClass JsonValue) (houtside : IsOutside before key) (hne : key = PlainObject.protoName ∨ key ≠ prop)
    (isProxy : Bool) : IsOutside (sClass.setter before prop value isProxy).after key := by
  refine ⟨houtside.name, ?_⟩
  show (before.state.setChild prop value).child key = none
  by_cases hkey : key = prop
  · have hproto := hne.resolve_right (not_not_intro hkey)
    have hholds : ¬ before.state.Holds prop := by
      rintro ⟨-, hother | hsome⟩
      · exact hother (hkey.symm.trans hproto)
      · rw [← hkey, houtside.notChild] at hsome
        cases hsome
    rw [PropertyTree.setChild_of_not_holds hholds]
    exact houtside.notChild
  · rw [PropertyTree.child_setChild_of_ne hkey]
    exact houtside.notChild

/-- The common part of an update leaves it outside. -/
theorem IsOutside.of_commonUpdate (houtside : IsOutside before key)
    (hupdate : sClass.commonUpdate before prop value = .ok effect) :
    IsOutside effect.after key ∧
      (prop ∈ effect.after.accessors → key = PlainObject.protoName ∨ key ≠ prop) := by
  rw [StaticClass.commonUpdate] at hupdate
  split at hupdate
  · next haccessor =>
    have hne : key = PlainObject.protoName ∨ key ≠ prop :=
      houtside.name.imp_right fun hstatic heq ↦ hstatic.2 (heq ▸ haccessor)
    obtain rfl := Except.ok.inj hupdate
    exact ⟨houtside.of_setter sClass hne false, fun _ ↦ hne⟩
  · next haccessor =>
    split at hupdate
    · next hstatic =>
      rw [ClassState.assignStatic, if_pos hstatic] at hupdate
      split at hupdate
      · cases hupdate
      · obtain rfl := Except.ok.inj hupdate
        exact ⟨houtside, fun hmem ↦ absurd hmem haccessor⟩
    · next hstatic =>
      have hne : key = PlainObject.protoName ∨ key ≠ prop :=
        houtside.name.imp_right fun hboth heq ↦ hstatic (heq ▸ hboth.1)
      obtain rfl := Except.ok.inj hupdate
      have hmiddle : IsOutside { before with accessors := prop :: before.accessors } key := by
        refine ⟨?_, houtside.notChild⟩
        rcases hne with hproto | hkey
        · exact .inl hproto
        · refine houtside.name.imp_right fun hboth ↦ ⟨hboth.1, fun hmem ↦ ?_⟩
          exact (List.mem_cons.mp hmem).elim hkey hboth.2
      exact ⟨hmiddle.of_setter sClass hne false, fun _ ↦ hne⟩

/-- Such a property stays outside of the state. -/
theorem IsOutside.of_updateProperty (houtside : IsOutside before key)
    (hupdate : sClass.updateProperty recursive before prop value = .ok effect) :
    IsOutside effect.after key := by
  obtain ⟨first, hfirst, hrest⟩ := Except.bind_eq_ok.mp hupdate
  obtain ⟨hmiddle, hne⟩ := houtside.of_commonUpdate hfirst
  split at hrest
  · split at hrest
    · next haccessor =>
      obtain ⟨events, -, hlast⟩ := Except.bind_eq_ok.mp hrest
      obtain rfl := Except.ok.inj hlast
      exact hmiddle.of_setter sClass (hne haccessor) true
    · cases hrest
  · obtain rfl := Except.ok.inj hrest
    exact hmiddle

theorem IsOutside.of_update {entries : List (Str × PropertyTree JsonValue)} {last : Effect JsonValue}
    (houtside : IsOutside effect.after key)
    (hupdate : entries.foldlM (sClass.updateNext recursive) effect = .ok last) :
    IsOutside last.after key := by
  induction entries generalizing effect with
  | nil =>
    obtain rfl := Except.ok.inj hupdate
    exact houtside
  | cons entry rest ih =>
    rw [List.foldlM_cons] at hupdate
    obtain ⟨middle, hmiddle, hlast⟩ := Except.bind_eq_ok.mp hupdate
    obtain ⟨next, hnext, hevents⟩ := Except.bind_eq_ok.mp hmiddle
    obtain rfl := Except.ok.inj hevents
    have hafter : IsOutside next.after key := houtside.of_updateProperty hnext
    have hmiddleOutside : IsOutside
        (⟨next.after, effect.events ++ next.events⟩ : Effect JsonValue).after key := hafter
    exact ih hmiddleOutside hlast

/-- An update of a class that is not recursive does not throw. -/
theorem exists_update_plain {entries : List (Str × PropertyTree JsonValue)}
    (hkeys : ∀ entry ∈ entries, entry.1 ∉ effect.after.statics) :
    ∃ last, entries.foldlM (sClass.updateNext false) effect = .ok last := by
  induction entries generalizing effect with
  | nil => exact ⟨effect, rfl⟩
  | cons entry rest ih =>
    rw [List.forall_mem_cons] at hkeys
    obtain ⟨accessors, -, hcommon⟩ := commonUpdate_eq_ok sClass entry.2 hkeys.1
    let next := sClass.setter { effect.after with accessors := accessors } entry.1 entry.2 false
    have hnext : sClass.updateNext false effect entry = .ok ⟨next.after, effect.events ++ next.events⟩ := by
      refine Except.bind_eq_ok.mpr ⟨next, Except.bind_eq_ok.mpr ⟨next, hcommon, ?_⟩, rfl⟩
      exact if_neg fun hboth ↦ Bool.false_ne_true hboth.1
    have hrest : ∀ other ∈ rest,
        other.1 ∉ (⟨next.after, effect.events ++ next.events⟩ : Effect JsonValue).after.statics := hkeys.2
    obtain ⟨last, hlast⟩ := ih hrest
    refine ⟨last, ?_⟩
    rw [List.foldlM_cons, hnext]
    exact hlast

end Update

/-! ### Initializing -/

section Init

variable {Host : Type} (realm : Realm Host) (sClass : StaticClass JsonValue) (recursive : Bool)
  (statics : List Str)

/-- `init`: the state of the class after the initialization. -/
def init (persisted defaultState : JsonValue) : Except Str (ClassState JsonValue) := do
  let state ← normalize realm persisted defaultState
  let effect ← sClass.update recursive (.initial statics) (jsonTree state).properties
  pure effect.after

/-- The initialization does not throw, the state is normalized, and not changed by another normalization, and
it is the state of the class. -/
def InitNormalizes (persisted defaultState : JsonValue) : Prop :=
  ∃ result after, normalize realm persisted defaultState = .ok result ∧
    Normalized persisted defaultState result ∧ normalize realm result defaultState = .ok result ∧
      init realm sClass recursive statics persisted defaultState = .ok after ∧
        ∀ key, after.state.child key = (jsonTree result).child key

/-- The condition on the states: they fit, and no property of the default state has the name of another
property of the class. -/
structure IsInitializable (persisted defaultState : JsonValue) : Prop where
  fits : Fits realm persisted defaultState
  names : ∀ key, (defaultState.own key).isSome → key ≠ PlainObject.protoName ∧ key ∉ statics

/-- The names inside the properties of the expected state are not empty and have no dots. -/
def HasPlainState (persisted defaultState : JsonValue) : Prop :=
  ∀ result, Normalized persisted defaultState result → ∀ entry ∈ (jsonTree result).properties,
    (entry.2.properties ≠ [] → IsPlainName entry.1) ∧ HasPlainNames entry.2

variable {realm sClass recursive statics} {members defaults : List (Str × JsonValue)}

/-- The state of a class that is initialized as it should be. -/
theorem isInitializable_of_initNormalizes (hmembers : (JsonValue.object members).Valid)
    (hdefaults : (JsonValue.object defaults).Valid)
    (hinit : InitNormalizes realm sClass recursive statics (.object members) (.object defaults)) :
    IsInitializable realm statics (.object members) (.object defaults) := by
  obtain ⟨result, after, hresult, hnormalized, -, hafter, hchild⟩ := hinit
  refine ⟨(exists_normalized_iff hmembers hdefaults).mp ⟨result, ?_, hnormalized⟩, fun key hkey ↦ ?_⟩
  · rw [normalizeInner_objects]
    exact hresult
  · by_contra hname
    have houtside : IsOutside (ClassState.initial statics) key := by
      refine ⟨?_, rfl⟩
      rw [not_and_or, not_not, not_not] at hname
      exact hname.imp_right fun hstatic ↦ ⟨hstatic, List.not_mem_nil⟩
    obtain ⟨state, -, hrest⟩ := Except.bind_eq_ok.mp hafter
    obtain ⟨effect, heffect, hlast⟩ := Except.bind_eq_ok.mp hrest
    obtain rfl := Except.ok.inj hlast
    have hstart : IsOutside (⟨.initial statics, []⟩ : Effect JsonValue).after key := houtside
    have hnone := (hstart.of_update heffect).notChild
    cases hnormalized with
    | kept hobjects => exact hobjects ⟨rfl, rfl⟩
    | objects hkeys hmissing hboth =>
      obtain ⟨value, hvalue⟩ := Option.isSome_iff_exists.mp ((hkeys key).mpr hkey)
      rw [hchild, child_jsonTree_object, hvalue] at hnone
      cases hnone

/-- A class whose states meet the condition is initialized as it should be. -/
theorem initNormalizes_of_isInitializable (hmembers : (JsonValue.object members).Valid)
    (hdefaults : (JsonValue.object defaults).Valid)
    (hinitializable : IsInitializable realm statics (.object members) (.object defaults))
    (hplain : recursive = true → HasPlainState (.object members) (.object defaults)) :
    InitNormalizes realm sClass recursive statics (.object members) (.object defaults) := by
  obtain ⟨result, hresult, hnormalized⟩ :=
    (exists_normalized_iff hmembers hdefaults).mpr hinitializable.fits
  have hdefaultState : (DefaultState.json (.object defaults) : DefaultState Host).Valid := hdefaults
  have hvalid := valid_of_normalizeInner hmembers hdefaultState hresult
  have hagain := normalizeInner_of_normalized hnormalized hmembers hdefaults hinitializable.fits hresult
  have hnames := hplain
  cases hnormalized with
  | kept hobjects => exact absurd ⟨rfl, rfl⟩ hobjects
  | @objects _ _ results hkeys hmissing hboth =>
    have hexpected : Normalized (.object members) (.object defaults) (.object results) :=
      .objects hkeys hmissing hboth
    rw [normalizeInner_objects] at hresult hagain
    have htree := valid_jsonTree hvalid
    rw [jsonTree] at htree
    cases htree with
    | object _ hnodup hproperties =>
      have hentries : ∀ entry ∈ treeMembers results,
          entry.1 ≠ PlainObject.protoName ∧ entry.1 ∉ statics := by
        intro entry hentry
        rw [treeMembers_eq] at hentry
        obtain ⟨member, hmember, rfl⟩ := List.mem_map.mp hentry
        obtain ⟨value, hvalue⟩ := Entries.find_isSome_iff.mpr (List.mem_map_of_mem hmember)
        exact hinitializable.names member.1 ((hkeys member.1).mp (Option.isSome_of_mem hvalue))
      let start : Effect JsonValue := ⟨.initial statics, []⟩
      have hupdate : ∃ last,
          (treeMembers results).foldlM (sClass.updateNext recursive) start = .ok last := by
        cases recursive with
        | false => exact exists_update_plain fun entry hentry ↦ (hentries entry hentry).2
        | true =>
          have hupdatable : ∀ entry ∈ treeMembers results,
              IsUpdatable start.after entry.1 entry.2 := by
            intro entry hentry
            have hproperty : entry ∈ (jsonTree (.object results)).properties := by
              rw [jsonTree]
              exact hentry
            obtain ⟨hname, hnamesInside⟩ := hnames rfl _ hexpected entry hproperty
            exact ⟨(hentries entry hentry).1, (hentries entry hentry).2, hname, hnamesInside⟩
          obtain ⟨last, hlast, -, -, -⟩ :=
            exists_update start hnodup hproperties hupdatable (proxied_initial statics)
          exact ⟨last, hlast⟩
      obtain ⟨last, hlast⟩ := hupdate
      refine ⟨.object results, last.after, hresult, hexpected, hagain, ?_, fun key ↦ ?_⟩
      · refine Except.bind_eq_ok.mpr ⟨.object results, hresult, ?_⟩
        rw [jsonTree]
        exact Except.bind_eq_ok.mpr ⟨last, hlast, rfl⟩
      · have hobject : start.after.state.IsObject := trivial
        rw [child_of_update hobject hnodup hentries hlast, jsonTree]
        exact Option.or_none

/-- A class is initialized with the normalized state exactly if the states fit and the class has no other
properties with their names; for the converse of a recursive class the names inside the state are plain. -/
theorem initNormalizes_iff (realm : Realm Host) (sClass : StaticClass JsonValue) (recursive : Bool)
    (statics : List Str) (members defaults : List (Str × JsonValue))
    (hmembers : (JsonValue.object members).Valid) (hdefaults : (JsonValue.object defaults).Valid) :
    (InitNormalizes realm sClass recursive statics (.object members) (.object defaults) →
      IsInitializable realm statics (.object members) (.object defaults)) ∧
    (IsInitializable realm statics (.object members) (.object defaults) ∧
        (recursive = true → HasPlainState (.object members) (.object defaults)) →
      InitNormalizes realm sClass recursive statics (.object members) (.object defaults)) :=
  ⟨isInitializable_of_initNormalizes hmembers hdefaults,
    fun hboth ↦ initNormalizes_of_isInitializable hmembers hdefaults hboth.1 hboth.2⟩

end Init

/-! ### Objects -/

/-- The names of the properties of `Object.prototype`. -/
def prototypeNames : List Str :=
  ["constructor".toList, "__defineGetter__".toList, "__defineSetter__".toList, "hasOwnProperty".toList,
    "__lookupGetter__".toList, "__lookupSetter__".toList, "isPrototypeOf".toList,
    "propertyIsEnumerable".toList, "toString".toList, "valueOf".toList, "__proto__".toList,
    "toLocaleString".toList]

/-- Objects that inherit from `Object.prototype`. -/
def objectRealm : Realm Unit where
  hidden := fun _ name ↦ if name ∈ prototypeNames then some () else none
  get := fun _ _ ↦ none
  isNull := fun _ ↦ false

/-- A class whose values inherit nothing. -/
def jsonClass : StaticClass JsonValue :=
  ⟨['C'], fun _ _ ↦ .ok none⟩

/-- An object with one property. -/
def oneProperty (key : Str) (value : JsonValue) : List (Str × JsonValue) :=
  [(key, value)]

theorem valid_oneProperty {key : Str} {value : JsonValue} (hvalue : value.Valid) :
    (JsonValue.object (oneProperty key value)).Valid := by
  refine .object (List.nodup_singleton key) ?_
  rw [oneProperty, List.forall_mem_singleton]
  exact hvalue

/-- A persisted state that has lost a property, has one too many, and has an object with both. -/
def persistedMembers : List (Str × JsonValue) :=
  [("a".toList, .number 1), ("old".toList, .number 2),
    ("nested".toList, .object [("x".toList, .number 5), ("extra".toList, .number 0)])]

/-- The default state of the same class. -/
def defaultMembers : List (Str × JsonValue) :=
  [("a".toList, .number 0), ("added".toList, .number 3),
    ("nested".toList, .object [("x".toList, .number 0), ("y".toList, .number 1)])]

/-- Numbers fit. -/
theorem fits_number (value defaultValue : ℚ) : Fits objectRealm (.number value) (.number defaultValue) :=
  .kept (fun hboth ↦ Bool.false_ne_true hboth.1) (by rintro ⟨⟩)

/-- Objects fit if none of their properties is inherited and the values of both fit. -/
theorem fits_objects {members defaults : List (Str × JsonValue)}
    (hnames : ∀ key ∈ prototypeNames,
      (Entries.find members key).isSome = (Entries.find defaults key).isSome)
    (hmembers : ∀ member ∈ members, ∀ property ∈ defaults, member.1 = property.1 →
      Fits objectRealm member.2 property.2) :
    Fits objectRealm (.object members) (.object defaults) := by
  refine .objects (fun key hhidden ↦ ?_) fun key value defaultValue hmember hproperty ↦
    hmembers _ (Entries.mem_of_find hmember) _ (Entries.mem_of_find hproperty) rfl
  have hkey : key ∈ prototypeNames := by
    by_contra hnot
    have hnone : objectRealm.hidden .object key = none := if_neg hnot
    rw [hnone] at hhidden
    exact Bool.false_ne_true hhidden
  rw [hnames key hkey]

theorem valid_persistedMembers : (JsonValue.object persistedMembers).Valid := by
  refine .object (by decide +kernel) ?_
  simp only [persistedMembers, List.forall_mem_cons]
  refine ⟨.number 1, .number 2, .object (by decide +kernel) ?_, List.forall_mem_nil _⟩
  simp only [List.forall_mem_cons]
  exact ⟨.number 5, .number 0, List.forall_mem_nil _⟩

theorem valid_defaultMembers : (JsonValue.object defaultMembers).Valid := by
  refine .object (by decide +kernel) ?_
  simp only [defaultMembers, List.forall_mem_cons]
  refine ⟨.number 0, .number 3, .object (by decide +kernel) ?_, List.forall_mem_nil _⟩
  simp only [List.forall_mem_cons]
  exact ⟨.number 0, .number 1, List.forall_mem_nil _⟩

/-- A state is initialized with what has been persisted of the properties of the default state, and with the
default values of the others, inside an object as well. -/
theorem initNormalizes_nested : InitNormalizes objectRealm jsonClass false
    ["name".toList, "length".toList] (.object persistedMembers) (.object defaultMembers) := by
  have hnames : ∀ key ∈ defaultMembers.map Prod.fst, key ≠ PlainObject.protoName ∧
      key ∉ ["name".toList, "length".toList] := by
    decide +kernel
  have hnested : Fits objectRealm (.object [("x".toList, .number 5), ("extra".toList, .number 0)])
      (.object [("x".toList, .number 0), ("y".toList, .number 1)]) :=
    fits_objects (by decide +kernel) (by simp [fits_number])
  have hfits : Fits objectRealm (.object persistedMembers) (.object defaultMembers) :=
    fits_objects (by decide +kernel)
      (by simpa [persistedMembers, defaultMembers, fits_number] using hnested)
  refine (initNormalizes_iff objectRealm jsonClass false _ _ _ valid_persistedMembers
    valid_defaultMembers).2 ⟨⟨hfits, fun key hkey ↦ ?_⟩, by rintro ⟨⟩⟩
  obtain ⟨value, hvalue⟩ := Option.isSome_iff_exists.mp hkey
  exact hnames key (List.mem_map_of_mem (Entries.mem_of_find hvalue))

/-- Not every state is initialized: where `null` has been persisted for an object, an error is thrown. -/
theorem not_initNormalizes : ¬ InitNormalizes objectRealm jsonClass false []
    (.object (oneProperty ['a'] .null))
    (.object (oneProperty ['a'] (.object (oneProperty ['b'] (.number 0))))) := by
  rintro ⟨result, after, hresult, -⟩
  have hinner : setMissingDefaults objectRealm .null (.object (oneProperty ['b'] (.number 0))) =
      .error (readOfNull ['b']) := by
    rw [setMissingDefaults]
    rfl
  have hfill : fillProperty objectRealm (oneProperty ['a'] .null) (oneProperty ['a'] .null)
      (['a'], .object (oneProperty ['b'] (.number 0))) = .error (readOfNull ['b']) := by
    rw [fillProperty]
    show (do
      let inner ← setMissingDefaults objectRealm .null (.object (oneProperty ['b'] (.number 0)))
      pure (PlainObject.replaceProperty (oneProperty ['a'] .null) ['a'] inner)) = _
    rw [hinner]
    rfl
  have hpasses : normalize objectRealm (.object (oneProperty ['a'] .null))
      (.object (oneProperty ['a'] (.object (oneProperty ['b'] (.number 0))))) =
        .error (readOfNull ['b']) := by
    rw [normalize, setMissingDefaults_object]
    show ((do
      let next ← fillProperty objectRealm (oneProperty ['a'] .null) (oneProperty ['a'] .null)
        (['a'], .object (oneProperty ['b'] (.number 0)))
      [].foldlM (fillProperty objectRealm (oneProperty ['a'] .null)) next).map JsonValue.object >>= _) = _
    rw [hfill]
    rfl
  rw [hpasses] at hresult
  cases hresult

end Playground.Updatable
