import Playground.Library.Except
import Playground.Library.JsonValue
import Playground.Library.PlainObject

/-!
# Normalizing a persisted state

When an updatable class is initialized, what is missing in the persisted state is taken from the default one,
and what is not in the default one is removed (`client/src/utils/pg/decorators/updatable.ts`). `Normalized` says
what the result should be: where both states are objects it has the keys of the default one, with the
persisted values as far as there are any, and elsewhere it is what has been persisted.

Both passes go on wherever the persisted value is an object, an array or `null`, whatever the default value is,
and ask whether a property is `undefined`, which it is not if it is inherited. `exists_normalized_iff` says for
which states the result is normalized, and `normalizeInner_of_normalized` that it is not changed again then.

What values inherit is a parameter. Not formalized here: default states that are no JSON, and what is assigned
to the properties of `Object.prototype` if a default state has a key `__proto__`.
-/

set_option autoImplicit false
set_option relaxedAutoImplicit false

namespace Playground.Updatable

open Library

/-! ### Values -/

/-- The kinds of values that inherit the same properties. -/
inductive ValueKind
  | boolean
  | number
  | string
  | array
  | object

/-- The kind of a value other than `null`. -/
def valueKind : JsonValue → Option ValueKind
  | .null => none
  | .boolean _ => some .boolean
  | .number _ => some .number
  | .string _ => some .string
  | .array _ => some .array
  | .object _ => some .object

/-- The value is `null`. -/
def isNull : JsonValue → Bool
  | .null => true
  | _ => false

/-- `typeof value === "object"`. -/
def isObjectType : JsonValue → Bool
  | .null => true
  | .array _ => true
  | .object _ => true
  | _ => false

/-- An object that is no array. -/
def isPlainObject : JsonValue → Bool
  | .object _ => true
  | _ => false

/-- The properties of values that are not enumerated: those that are inherited, and lengths. Their values are
functions and other values of the environment, which have properties again. -/
structure Realm (Host : Type) where
  hidden : ValueKind → Str → Option Host
  get : Host → Str → Option Host
  isNull : Host → Bool

/-- What a state is compared with: a value of the default state, or a property that it inherits. -/
inductive DefaultState (Host : Type)
  | json (value : JsonValue)
  | host (value : Host)

namespace DefaultState

variable {Host : Type}

/-- `defaultState[prop]`. -/
def get (realm : Realm Host) : DefaultState Host → Str → Option (DefaultState Host)
  | json value, prop =>
    match value.own prop with
    | some inner => some (.json inner)
    | none => ((valueKind value).bind fun kind ↦ realm.hidden kind prop).map .host
  | host value, prop => (realm.get value prop).map .host

/-- `defaultState === null`. -/
def isNull (realm : Realm Host) : DefaultState Host → Bool
  | json value => Updatable.isNull value
  | host value => realm.isNull value

/-- The properties from which a state is filled. -/
def properties : DefaultState Host → List (Str × JsonValue)
  | json value => value.properties
  | host _ => []

end DefaultState

section

variable {Host : Type} (realm : Realm Host)

/-! ### The two passes -/

/-- What is thrown when a property of `null` is read. -/
def readOfNull (prop : Str) : Str :=
  "Cannot read properties of null (reading \x27".toList ++ prop ++ "\x27)".toList

/-- `setMissingDefaults`. The loop visits every property once, and so it finds the properties that the state
had before. -/
def setMissingDefaults (state defaultState : JsonValue) : Except Str JsonValue :=
  match state with
  | .object members => do
    let filled ← defaultState.properties.foldlM (fun acc property ↦
      match _hfound : Entries.find members property.1 with
      | none =>
        if (realm.hidden .object property.1).isSome then .ok acc
        else .ok (PlainObject.setProperty acc property.1 property.2)
      | some value =>
        if isObjectType value ∧ ¬ isNull property.2 then do
          let inner ← setMissingDefaults value property.2
          pure (PlainObject.replaceProperty acc property.1 inner)
        else .ok acc) members
    pure (.object filled)
  | .null =>
    match defaultState.properties with
    | [] => .ok .null
    | (prop, _) :: _ => .error (readOfNull prop)
  | state => .ok state
termination_by sizeOf state
decreasing_by
  have hmem := List.sizeOf_lt_of_mem (Entries.mem_of_find _hfound)
  simp only [Prod.mk.sizeOf_spec, JsonValue.object.sizeOf_spec] at hmem ⊢
  omega

mutual

/-- `removeExtraProperties`. -/
def removeExtraProperties : JsonValue → DefaultState Host → JsonValue
  | .object members, defaultState => .object (removeExtraMembers members defaultState)
  | state, _ => state

/-- The loop over the properties of the state. -/
def removeExtraMembers :
    List (Str × JsonValue) → DefaultState Host → List (Str × JsonValue)
  | [], _ => []
  | (prop, value) :: rest, defaultState =>
    match defaultState.get realm prop with
    | none => removeExtraMembers rest defaultState
    | some inner =>
      if isObjectType value ∧ ¬ inner.isNull realm then
        (prop, removeExtraProperties value inner) :: removeExtraMembers rest defaultState
      else (prop, value) :: removeExtraMembers rest defaultState

end

/-- Both passes, one after the other. -/
def normalize (state defaultState : JsonValue) : Except Str JsonValue := do
  let filled ← setMissingDefaults realm state defaultState
  pure (removeExtraProperties realm filled (.json defaultState))

end

/-! ### What is expected -/

/-- The state that is expected: where both states are objects it has the keys of the default state, with the
persisted values where there are any and the default ones elsewhere. Other values are kept. -/
inductive Normalized : JsonValue → JsonValue → JsonValue → Prop
  | kept {state defaultState : JsonValue}
    (hobjects : ¬ (isPlainObject state ∧ isPlainObject defaultState)) :
    Normalized state defaultState state
  | objects {members defaults results : List (Str × JsonValue)}
    (hkeys : ∀ key, (Entries.find results key).isSome ↔ (Entries.find defaults key).isSome)
    (hmissing : ∀ key value, Entries.find members key = none → Entries.find defaults key = some value →
      Entries.find results key = some value)
    (hboth : ∀ key value defaultValue result, Entries.find members key = some value →
      Entries.find defaults key = some defaultValue → Entries.find results key = some result →
        Normalized value defaultValue result) :
    Normalized (.object members) (.object defaults) (.object results)

section

variable {Host : Type} (realm : Realm Host)

/-- Both passes leave a value alone: it has all properties from which it is filled, and all of its properties
are defined in what it is compared with. -/
inductive Kept : JsonValue → DefaultState Host → Prop
  | null {defaultState : DefaultState Host} (hproperties : defaultState.properties = []) :
    Kept .null defaultState
  | array (elements : List JsonValue) (defaultState : DefaultState Host) :
    Kept (.array elements) defaultState
  | object {members : List (Str × JsonValue)} {defaultState : DefaultState Host}
    (hproperties : ∀ key, (Entries.find defaultState.properties key).isSome →
      (Entries.find members key).isSome ∨ (realm.hidden .object key).isSome)
    (hdefined : ∀ key, (Entries.find members key).isSome → (defaultState.get realm key).isSome)
    (hmembers : ∀ key value inner, Entries.find members key = some value →
      defaultState.get realm key = some inner → isObjectType value = true →
        inner.isNull realm = false → Kept value inner) : Kept (.object members) defaultState

/-- The condition on a persisted and a default state: where both are objects, an inherited property is a
property of both or of neither of them, and elsewhere the persisted value is left alone. -/
inductive Fits : JsonValue → JsonValue → Prop
  | kept {state defaultState : JsonValue}
    (hobjects : ¬ (isPlainObject state ∧ isPlainObject defaultState))
    (hkept : isObjectType state = true → isNull defaultState = false →
      Kept realm state (.json defaultState)) : Fits state defaultState
  | objects {members defaults : List (Str × JsonValue)}
    (hhidden : ∀ key, (realm.hidden .object key).isSome →
      ((Entries.find members key).isSome ↔ (Entries.find defaults key).isSome))
    (hmembers : ∀ key value defaultValue, Entries.find members key = some value →
      Entries.find defaults key = some defaultValue → Fits value defaultValue) :
    Fits (.object members) (.object defaults)

end

section Passes

variable {Host : Type} (realm : Realm Host)

/-! ### Filling -/

/-- One round of the loop of `setMissingDefaults`. -/
def fillProperty (members acc : List (Str × JsonValue)) (property : Str × JsonValue) :
    Except Str (List (Str × JsonValue)) :=
  match Entries.find members property.1 with
  | none =>
    if (realm.hidden .object property.1).isSome then .ok acc
    else .ok (PlainObject.setProperty acc property.1 property.2)
  | some value =>
    if isObjectType value ∧ ¬ isNull property.2 then do
      let inner ← setMissingDefaults realm value property.2
      pure (PlainObject.replaceProperty acc property.1 inner)
    else .ok acc

/-- An object is filled property by property. -/
theorem setMissingDefaults_object (members : List (Str × JsonValue)) (defaultState : JsonValue) :
    setMissingDefaults realm (.object members) defaultState =
      (defaultState.properties.foldlM (fillProperty realm members) members).map .object := by
  have hbody : (fun (acc : List (Str × JsonValue)) (property : Str × JsonValue) ↦
      match _hfound : Entries.find members property.1 with
      | none =>
        if (realm.hidden .object property.1).isSome then Except.ok acc
        else .ok (PlainObject.setProperty acc property.1 property.2)
      | some value =>
        if isObjectType value ∧ ¬ isNull property.2 then do
          let inner ← setMissingDefaults realm value property.2
          pure (PlainObject.replaceProperty acc property.1 inner)
        else .ok acc) = fillProperty realm members := by
    ext acc property
    rw [fillProperty]
    split <;> simp_all
  rw [setMissingDefaults, hbody]
  cases defaultState.properties.foldlM (fillProperty realm members) members with
  | error message => rfl
  | ok filled => rfl

/-- What a value that is there already becomes. -/
def fillInner (value defaultValue : JsonValue) : Except Str JsonValue :=
  if isObjectType value ∧ ¬ isNull defaultValue then setMissingDefaults realm value defaultValue
  else .ok value

/-- The value of a property of the default state after filling. -/
def fillValue (members : List (Str × JsonValue)) (key : Str) (defaultValue : JsonValue) :
    Except Str (Option JsonValue) :=
  match Entries.find members key with
  | none => .ok (if (realm.hidden .object key).isSome then none else some defaultValue)
  | some value => (fillInner realm value defaultValue).map some

variable {realm} {members start finish entries : List (Str × JsonValue)}

theorem fillValue_none {key : Str} {defaultValue : JsonValue} (hmember : Entries.find members key = none) :
    fillValue realm members key defaultValue =
      .ok (if (realm.hidden .object key).isSome then none else some defaultValue) := by
  rw [fillValue, hmember]

theorem fillValue_some {key : Str} {value defaultValue : JsonValue}
    (hmember : Entries.find members key = some value) :
    fillValue realm members key defaultValue = (fillInner realm value defaultValue).map some := by
  rw [fillValue, hmember]

/-- A round of the loop sets the value of the property. -/
theorem exists_fillProperty {property : Str × JsonValue} {found : Option JsonValue}
    (hagree : Entries.find start property.1 = Entries.find members property.1)
    (hvalue : fillValue realm members property.1 property.2 = .ok found) :
    ∃ next, fillProperty realm members start property = .ok next ∧
      ((start.map Prod.fst).Nodup → (next.map Prod.fst).Nodup) ∧
        ∀ key, Entries.find next key = if key = property.1 then found else Entries.find start key := by
  have hsame : ∀ key, Entries.find start key =
      if key = property.1 then Entries.find start property.1 else Entries.find start key := by
    intro key
    split
    · next hkey => rw [hkey]
    · rfl
  rw [fillProperty]
  cases hmember : Entries.find members property.1 with
  | none =>
    rw [fillValue_none hmember] at hvalue
    rw [hmember] at hagree
    obtain rfl := Except.ok.inj hvalue
    by_cases hhidden : (realm.hidden .object property.1).isSome
    · refine ⟨start, if_pos hhidden, id, fun key ↦ ?_⟩
      rw [if_pos hhidden, ← hagree]
      exact hsame key
    · refine ⟨_, if_neg hhidden, fun hnodup ↦ ?_, fun key ↦ ?_⟩
      · rw [PlainObject.map_fst_setProperty]
        exact PlainObject.nodup_addKey hnodup (Entries.find_eq_none_iff.mp hagree)
      · rw [PlainObject.find_setProperty, if_neg hhidden]
  | some value =>
    rw [fillValue_some hmember] at hvalue
    rw [hmember] at hagree
    by_cases hinner : isObjectType value ∧ ¬ isNull property.2
    · cases hfilled : setMissingDefaults realm value property.2 with
      | error message =>
        rw [fillInner, if_pos hinner, hfilled] at hvalue
        cases hvalue
      | ok inner =>
        rw [fillInner, if_pos hinner, hfilled] at hvalue
        obtain rfl := Except.ok.inj hvalue
        refine ⟨PlainObject.replaceProperty start property.1 inner, (if_pos hinner).trans ?_,
          fun hnodup ↦ ?_, fun key ↦ ?_⟩
        · rw [hfilled]
          rfl
        · rw [PlainObject.map_fst_replaceProperty]
          exact hnodup
        · rw [PlainObject.find_replaceProperty, hagree]
          rfl
    · rw [fillInner, if_neg hinner] at hvalue
      obtain rfl := Except.ok.inj hvalue
      refine ⟨start, if_neg hinner, id, fun key ↦ ?_⟩
      rw [← hagree]
      exact hsame key

/-- A round of the loop that does not throw has a value for the property. -/
theorem exists_fillValue {property : Str × JsonValue}
    (hfill : fillProperty realm members start property = .ok finish) :
    ∃ found, fillValue realm members property.1 property.2 = .ok found := by
  rw [fillProperty] at hfill
  cases hmember : Entries.find members property.1 with
  | none => exact ⟨_, fillValue_none hmember⟩
  | some value =>
    rw [hmember] at hfill
    rw [fillValue_some hmember]
    by_cases hinner : isObjectType value ∧ ¬ isNull property.2
    · replace hfill := (if_pos hinner).symm.trans hfill
      obtain ⟨inner, hfilled, -⟩ := Except.bind_eq_ok.mp hfill
      exact ⟨some inner, by simp only [fillInner, if_pos hinner, hfilled]; rfl⟩
    · exact ⟨some value, by simp only [fillInner, if_neg hinner]; rfl⟩

/-- The loop sets the values of all properties of the default state, and keeps the others. -/
theorem exists_foldlM_fillProperty (hnodup : (entries.map Prod.fst).Nodup)
    (hagree : ∀ entry ∈ entries, Entries.find start entry.1 = Entries.find members entry.1)
    (hvalues : ∀ entry ∈ entries, ∃ found, fillValue realm members entry.1 entry.2 = .ok found) :
    ∃ finish, entries.foldlM (fillProperty realm members) start = .ok finish ∧
      ((start.map Prod.fst).Nodup → (finish.map Prod.fst).Nodup) ∧
        (∀ key, key ∉ entries.map Prod.fst → Entries.find finish key = Entries.find start key) ∧
          ∀ entry ∈ entries,
            fillValue realm members entry.1 entry.2 = .ok (Entries.find finish entry.1) := by
  induction entries generalizing start with
  | nil => exact ⟨start, rfl, id, fun _ _ ↦ rfl, fun entry hentry ↦ absurd hentry List.not_mem_nil⟩
  | cons first rest ih =>
    rw [List.map_cons, List.nodup_cons] at hnodup
    rw [List.forall_mem_cons] at hagree hvalues
    obtain ⟨found, hfound⟩ := hvalues.1
    obtain ⟨next, hnext, hnextNodup, hnextFind⟩ := exists_fillProperty hagree.1 hfound
    have hother : ∀ entry ∈ rest, Entries.find next entry.1 = Entries.find members entry.1 := by
      intro entry hentry
      have hne : entry.1 ≠ first.1 := fun heq ↦ hnodup.1 (heq ▸ List.mem_map_of_mem hentry)
      rw [hnextFind, if_neg hne, hagree.2 entry hentry]
    obtain ⟨finish, hfinish, hfinishNodup, hkept, hset⟩ := ih hnodup.2 hother hvalues.2
    refine ⟨finish, ?_, fun hstart ↦ hfinishNodup (hnextNodup hstart), fun key hkey ↦ ?_, ?_⟩
    · rw [List.foldlM_cons, hnext]
      exact hfinish
    · rw [List.map_cons, List.mem_cons, not_or] at hkey
      rw [hkept key hkey.2, hnextFind, if_neg hkey.1]
    · rw [List.forall_mem_cons]
      refine ⟨?_, hset⟩
      rw [hkept first.1 hnodup.1, hnextFind, if_pos rfl, hfound]

/-- A loop that does not throw has a value for every property. -/
theorem forall_exists_fillValue (hfold : entries.foldlM (fillProperty realm members) start = .ok finish) :
    ∀ entry ∈ entries, ∃ found, fillValue realm members entry.1 entry.2 = .ok found := by
  induction entries generalizing start with
  | nil => exact fun entry hentry ↦ absurd hentry List.not_mem_nil
  | cons first rest ih =>
    rw [List.foldlM_cons] at hfold
    obtain ⟨next, hnext, hrest⟩ := Except.bind_eq_ok.mp hfold
    rw [List.forall_mem_cons]
    exact ⟨exists_fillValue hnext, ih hrest⟩

/-! ### Removing -/

variable (realm) in
/-- What a value becomes that is not removed. -/
def removeInner (value : JsonValue) (inner : DefaultState Host) : JsonValue :=
  if isObjectType value ∧ ¬ inner.isNull realm then removeExtraProperties realm value inner else value

variable {defaultState : DefaultState Host}

/-- What is not defined in the default state is removed. -/
theorem find_removeExtraMembers (key : Str) :
    Entries.find (removeExtraMembers realm members defaultState) key =
      (Entries.find members key).bind fun value ↦
        (defaultState.get realm key).map (removeInner realm value) := by
  induction members with
  | nil => rw [removeExtraMembers]; rfl
  | cons member rest ih =>
    obtain ⟨prop, value⟩ := member
    rw [removeExtraMembers, Entries.find_cons]
    cases hget : defaultState.get realm prop with
    | none =>
      show Entries.find (removeExtraMembers realm rest defaultState) key = _
      rw [ih]
      split
      · next hkey =>
        obtain rfl : key = prop := hkey
        rw [hget]
        cases Entries.find rest key <;> rfl
      · rfl
    | some inner =>
      have hstep : (if isObjectType value ∧ ¬ inner.isNull realm then
            (prop, removeExtraProperties realm value inner) :: removeExtraMembers realm rest defaultState
          else (prop, value) :: removeExtraMembers realm rest defaultState) =
          (prop, removeInner realm value inner) :: removeExtraMembers realm rest defaultState := by
        rw [removeInner]
        split <;> rfl
      show Entries.find (if isObjectType value ∧ ¬ inner.isNull realm then _ else _) key = _
      rw [hstep, Entries.find_cons, ih]
      split
      · next hkey =>
        obtain rfl : key = prop := hkey
        rw [hget]
        rfl
      · rfl

theorem sublist_removeExtraMembers :
    ((removeExtraMembers realm members defaultState).map Prod.fst).Sublist (members.map Prod.fst) := by
  induction members with
  | nil => rw [removeExtraMembers]
  | cons member rest ih =>
    obtain ⟨prop, value⟩ := member
    rw [removeExtraMembers]
    split
    · exact ih.trans (List.sublist_cons_self _ _)
    · split
      · exact ih.cons_cons prop
      · exact ih.cons_cons prop

/-- Nothing is removed from a value that is compared with itself. -/
theorem removeInner_self {value : JsonValue} (hvalid : value.Valid) :
    removeInner realm value (.json value) = value := by
  have hself : removeExtraProperties realm value (.json value) = value := by
    induction hvalid with
    | @object members hnodup hmembers ih =>
      have hloop : ∀ rest : List (Str × JsonValue), rest ⊆ members →
          removeExtraMembers realm rest (.json (.object members)) = rest := by
        intro rest hrest
        induction rest with
        | nil => rw [removeExtraMembers]
        | cons member others ihOthers =>
          obtain ⟨prop, inner⟩ := member
          rw [List.cons_subset] at hrest
          have hget : (DefaultState.json (.object members)).get realm prop =
              some (.json inner : DefaultState Host) := by
            have hown : (JsonValue.object members).own prop = some inner :=
              (Entries.find_eq_some_iff hnodup).mpr hrest.1
            rw [DefaultState.get, hown]
          rw [removeExtraMembers, hget, ihOthers hrest.2]
          show (if isObjectType inner ∧ _ then _ else _) = _
          rw [ih _ hrest.1]
          exact ite_self _
      rw [removeExtraProperties, hloop members (List.Subset.refl _)]
    | _ => rw [removeExtraProperties]; intro members heq; cases heq
  rw [removeInner, hself]
  exact ite_self _

end Passes

/-! ### Both passes -/

section Normalize

variable {Host : Type} (realm : Realm Host)

/-- Both passes with a value of the default state, and the second one with what it inherits. -/
def normalizeBy (state : JsonValue) : DefaultState Host → Except Str JsonValue
  | .json defaultState => normalize realm state defaultState
  | .host host => .ok (removeExtraProperties realm state (.host host))

/-- What both passes make of a value in a state. -/
def normalizeInner (value : JsonValue) (inner : DefaultState Host) : Except Str JsonValue :=
  if isObjectType value ∧ ¬ inner.isNull realm then normalizeBy realm value inner else .ok value

/-- A valid value of the default state. -/
def DefaultState.Valid : DefaultState Host → Prop
  | .json value => value.Valid
  | .host _ => True

variable {realm} {members : List (Str × JsonValue)} {defaultState : DefaultState Host}

/-- Nothing is filled into what is no plain object. -/
theorem eq_of_setMissingDefaults {state defaultValue filled : JsonValue} (hplain : isPlainObject state = false)
    (hfill : setMissingDefaults realm state defaultValue = .ok filled) : filled = state := by
  cases state with
  | object members => cases hplain
  | null =>
    rw [setMissingDefaults] at hfill
    split at hfill
    · exact (Except.ok.inj hfill).symm
    · cases hfill
  | _ =>
    rw [setMissingDefaults] at hfill
    · exact (Except.ok.inj hfill).symm
    all_goals nofun

/-- Nothing is removed from what is no plain object. -/
theorem removeExtraProperties_eq_self {state : JsonValue} (hplain : isPlainObject state = false) :
    removeExtraProperties realm state defaultState = state := by
  cases state with
  | object members => cases hplain
  | _ => rw [removeExtraProperties]; nofun

/-- Filling keeps objects, arrays and `null`. -/
theorem isObjectType_of_setMissingDefaults {state defaultValue filled : JsonValue}
    (hfill : setMissingDefaults realm state defaultValue = .ok filled) :
    isObjectType filled = isObjectType state := by
  cases state with
  | object members =>
    rw [setMissingDefaults_object] at hfill
    cases hfold : defaultValue.properties.foldlM (fillProperty realm members) members with
    | error message =>
      rw [hfold] at hfill
      cases hfill
    | ok finish =>
      rw [hfold] at hfill
      obtain rfl := Except.ok.inj hfill
      rfl
  | _ => rw [eq_of_setMissingDefaults rfl hfill]

/-- What both passes make of a value that is there already. -/
theorem normalizeInner_json {value defaultValue inner : JsonValue}
    (hfill : fillInner realm value defaultValue = .ok inner) :
    normalizeInner realm value (.json defaultValue) =
      .ok (removeInner realm inner (.json defaultValue)) := by
  rw [fillInner] at hfill
  rw [normalizeInner, removeInner]
  by_cases hinner : isObjectType value ∧ ¬ isNull defaultValue
  · rw [if_pos hinner] at hfill
    have hkept := isObjectType_of_setMissingDefaults hfill
    have hcond : isObjectType inner ∧ ¬ isNull defaultValue := by
      rw [hkept]
      exact hinner
    refine (if_pos hinner).trans ?_
    rw [if_pos (show isObjectType inner ∧ ¬ (DefaultState.json defaultValue).isNull realm from hcond)]
    exact Except.bind_eq_ok.mpr ⟨inner, hfill, rfl⟩
  · rw [if_neg hinner] at hfill
    obtain rfl := Except.ok.inj hfill
    refine (if_neg hinner).trans (congrArg Except.ok ?_)
    exact (if_neg hinner).symm

/-- What both passes make of a value that is compared with what the default state inherits. -/
theorem normalizeInner_host (value : JsonValue) (host : Host) :
    normalizeInner realm value (.host host) = .ok (removeInner realm value (.host host)) := by
  rw [normalizeInner, removeInner]
  split
  · rfl
  · rfl

/-- A property of a JSON value. -/
theorem get_json (defaultValue : JsonValue) (key : Str) :
    (DefaultState.json defaultValue).get realm key =
      match Entries.find defaultValue.properties key with
      | some inner => some (.json inner)
      | none => ((valueKind defaultValue).bind fun kind ↦ realm.hidden kind key).map .host :=
  rfl

/-- The properties of an object after both passes. -/
structure Results (realm : Realm Host) (members : List (Str × JsonValue))
    (defaultState : DefaultState Host) (results : List (Str × JsonValue)) : Prop where
  nodup : (members.map Prod.fst).Nodup → (results.map Prod.fst).Nodup
  inner : ∀ key value inner, Entries.find members key = some value →
    defaultState.get realm key = some inner →
      ∃ result, normalizeInner realm value inner = .ok result ∧ Entries.find results key = some result
  removed : ∀ key, defaultState.get realm key = none → Entries.find results key = none
  missing : ∀ key, Entries.find members key = none → Entries.find results key =
    if (realm.hidden .object key).isSome then none else Entries.find defaultState.properties key

/-- If both passes are made of a value, then it is filled. -/
theorem exists_fillInner {value defaultValue result : JsonValue}
    (hresult : normalizeInner realm value (.json defaultValue) = .ok result) :
    ∃ inner, fillInner realm value defaultValue = .ok inner := by
  rw [fillInner]
  by_cases hinner : isObjectType value ∧ ¬ isNull defaultValue
  · obtain ⟨inner, hfill, -⟩ := Except.bind_eq_ok.mp ((if_pos hinner).symm.trans hresult)
    exact ⟨inner, (if_pos hinner).trans hfill⟩
  · exact ⟨value, if_neg hinner⟩

/-- The properties after removing what is not defined in the default state. -/
theorem results_of_filled {filled : List (Str × JsonValue)}
    (hnodup : (members.map Prod.fst).Nodup → (filled.map Prod.fst).Nodup)
    (hinner : ∀ key value inner, Entries.find members key = some value →
      defaultState.get realm key = some inner → ∃ before, Entries.find filled key = some before ∧
        normalizeInner realm value inner = .ok (removeInner realm before inner))
    (hmissing : ∀ key, Entries.find members key = none →
      ((Entries.find filled key).bind fun value ↦
        (defaultState.get realm key).map (removeInner realm value)) =
          if (realm.hidden .object key).isSome then none else Entries.find defaultState.properties key) :
    Results realm members defaultState (removeExtraMembers realm filled defaultState) := by
  refine ⟨fun hmembers ↦ (hnodup hmembers).sublist sublist_removeExtraMembers, ?_, ?_, ?_⟩
  · intro key value inner hmember hget
    obtain ⟨before, hbefore, hresult⟩ := hinner key value inner hmember hget
    refine ⟨_, hresult, ?_⟩
    rw [find_removeExtraMembers, hbefore, hget]
    rfl
  · intro key hget
    rw [find_removeExtraMembers, hget]
    cases Entries.find filled key with
    | none => rfl
    | some value => rfl
  · intro key hmember
    rw [find_removeExtraMembers]
    exact hmissing key hmember

/-- Both passes are made of an object if they are made of all values in it. -/
theorem exists_results (hvalid : defaultState.Valid)
    (hinner : ∀ key value inner, Entries.find members key = some value →
      defaultState.get realm key = some inner → ∃ result, normalizeInner realm value inner = .ok result) :
    ∃ results, normalizeBy realm (.object members) defaultState = .ok (.object results) ∧
      Results realm members defaultState results := by
  cases defaultState with
  | host host =>
    refine ⟨removeExtraMembers realm members (.host host), ?_, results_of_filled id ?_ ?_⟩
    · rw [normalizeBy, removeExtraProperties]
    · intro key value inner hmember hget
      obtain ⟨found, -, rfl⟩ := Option.map_eq_some_iff.mp hget
      exact ⟨value, hmember, normalizeInner_host value found⟩
    · intro key hmember
      rw [hmember]
      exact (ite_self none).symm
  | json defaultValue =>
    have hproperties := JsonValue.Valid.nodup_properties hvalid
    have hfind : ∀ entry ∈ defaultValue.properties,
        Entries.find defaultValue.properties entry.1 = some entry.2 := by
      intro entry hentry
      exact (Entries.find_eq_some_iff hproperties).mpr hentry
    have hvalues : ∀ entry ∈ defaultValue.properties,
        ∃ found, fillValue realm members entry.1 entry.2 = .ok found := by
      intro entry hentry
      cases hmember : Entries.find members entry.1 with
      | none => exact ⟨_, fillValue_none hmember⟩
      | some value =>
        have hget : (DefaultState.json defaultValue).get realm entry.1 = some (.json entry.2) := by
          rw [get_json, hfind entry hentry]
        obtain ⟨result, hresult⟩ := hinner entry.1 value _ hmember hget
        obtain ⟨inner, hfill⟩ := exists_fillInner hresult
        exact ⟨some inner, by rw [fillValue_some hmember, hfill]; rfl⟩
    obtain ⟨filled, hfold, hnodup, hkept, hset⟩ :=
      exists_foldlM_fillProperty hproperties (fun _ _ ↦ rfl) hvalues
    refine ⟨removeExtraMembers realm filled (.json defaultValue), ?_, results_of_filled hnodup ?_ ?_⟩
    · refine Except.bind_eq_ok.mpr ⟨.object filled, ?_, ?_⟩
      · rw [setMissingDefaults_object, hfold]
        rfl
      · rw [removeExtraProperties]
        rfl
    · intro key value inner hmember hget
      rw [get_json] at hget
      cases hdefault : Entries.find defaultValue.properties key with
      | some found =>
        rw [hdefault] at hget
        obtain rfl := Option.some.inj hget
        have hfound := hset (key, found) (Entries.mem_of_find hdefault)
        obtain ⟨result, hresult⟩ := hinner key value (.json found) hmember (by rw [get_json, hdefault])
        obtain ⟨before, hfill⟩ := exists_fillInner hresult
        refine ⟨before, ?_, normalizeInner_json hfill⟩
        rw [fillValue_some hmember, hfill] at hfound
        exact (Except.ok.inj hfound).symm
      | none =>
        rw [hdefault] at hget
        obtain ⟨host, -, rfl⟩ := Option.map_eq_some_iff.mp hget
        refine ⟨value, ?_, normalizeInner_host value host⟩
        rw [hkept key (Entries.find_eq_none_iff.mp hdefault), hmember]
    · intro key hmember
      show _ = if _ then none else Entries.find defaultValue.properties key
      cases hdefault : Entries.find defaultValue.properties key with
      | some found =>
        have hmem := Entries.mem_of_find hdefault
        have hfound := hset (key, found) hmem
        rw [fillValue_none hmember] at hfound
        rw [get_json, hdefault, ← Except.ok.inj hfound]
        by_cases hhidden : (realm.hidden .object key).isSome
        · rw [if_pos hhidden]
          rfl
        · rw [if_neg hhidden]
          exact congrArg some (removeInner_self (JsonValue.Valid.of_mem_properties hvalid hmem))
      | none =>
        rw [hkept key (Entries.find_eq_none_iff.mp hdefault), hmember]
        exact (ite_self none).symm

/-- If both passes are made of an object, then they are made of all values in it. -/
theorem exists_normalizeInner {result : JsonValue}
    (hresult : normalizeBy realm (.object members) defaultState = .ok result) {key : Str}
    {value : JsonValue} {inner : DefaultState Host} (hmember : Entries.find members key = some value)
    (hget : defaultState.get realm key = some inner) :
    ∃ result, normalizeInner realm value inner = .ok result := by
  cases inner with
  | host host => exact ⟨_, normalizeInner_host value host⟩
  | json found =>
    cases defaultState with
    | host host =>
      obtain ⟨_, -, hhost⟩ := Option.map_eq_some_iff.mp hget
      cases hhost
    | json defaultValue =>
      rw [get_json] at hget
      cases hdefault : Entries.find defaultValue.properties key with
      | none =>
        rw [hdefault] at hget
        obtain ⟨_, -, hhost⟩ := Option.map_eq_some_iff.mp hget
        cases hhost
      | some other =>
        rw [hdefault] at hget
        obtain rfl := DefaultState.json.inj (Option.some.inj hget)
        obtain ⟨filled, hfill, -⟩ := Except.bind_eq_ok.mp hresult
        rw [setMissingDefaults_object] at hfill
        cases hfold : defaultValue.properties.foldlM (fillProperty realm members) members with
        | error message =>
          rw [hfold] at hfill
          cases hfill
        | ok finish =>
          obtain ⟨after, hafter⟩ :=
            forall_exists_fillValue hfold (key, other) (Entries.mem_of_find hdefault)
          rw [fillValue_some hmember] at hafter
          cases hinner : fillInner realm value other with
          | error message =>
            rw [hinner] at hafter
            cases hafter
          | ok inner => exact ⟨_, normalizeInner_json hinner⟩

/-- The properties of an object of which both passes are made. -/
theorem results_of_normalizeBy (hvalid : defaultState.Valid) {result : JsonValue}
    (hresult : normalizeBy realm (.object members) defaultState = .ok result) :
    ∃ results, result = .object results ∧ Results realm members defaultState results := by
  obtain ⟨results, hresults, hspec⟩ :=
    exists_results hvalid fun key value inner ↦ exists_normalizeInner hresult
  exact ⟨results, Except.ok.inj (hresult.symm.trans hresults), hspec⟩

end Normalize

/-! ### Values that are left alone -/

section Kept

variable {Host : Type} {realm : Realm Host}

/-- What a valid value has is valid. -/
theorem DefaultState.Valid.get {defaultState inner : DefaultState Host} (hvalid : defaultState.Valid)
    {key : Str} (hget : defaultState.get realm key = some inner) : inner.Valid := by
  cases inner with
  | host host => trivial
  | json found =>
    cases defaultState with
    | host host =>
      obtain ⟨_, -, hhost⟩ := Option.map_eq_some_iff.mp hget
      cases hhost
    | json defaultValue =>
      rw [get_json] at hget
      cases hdefault : Entries.find defaultValue.properties key with
      | none =>
        rw [hdefault] at hget
        obtain ⟨_, -, hhost⟩ := Option.map_eq_some_iff.mp hget
        cases hhost
      | some other =>
        rw [hdefault] at hget
        obtain rfl := DefaultState.json.inj (Option.some.inj hget)
        exact JsonValue.Valid.of_mem_properties hvalid (Entries.mem_of_find hdefault)

/-- A loop whose rounds change nothing changes nothing. -/
theorem foldlM_eq_self {entries start : List (Str × JsonValue)}
    {round : List (Str × JsonValue) → Str × JsonValue → Except Str (List (Str × JsonValue))}
    (hround : ∀ entry ∈ entries, round start entry = .ok start) :
    entries.foldlM round start = .ok start := by
  induction entries with
  | nil => rfl
  | cons first rest ih =>
    rw [List.forall_mem_cons] at hround
    rw [List.foldlM_cons, hround.1]
    exact ih hround.2

/-- A value that is left alone by the condition is left alone by both passes. -/
theorem eq_of_kept {state : JsonValue} {defaultState : DefaultState Host}
    (hkept : Kept realm state defaultState) (hstate : state.Valid) (hdefault : defaultState.Valid) :
    (∀ value, defaultState = .json value → setMissingDefaults realm state value = .ok state) ∧
      removeExtraProperties realm state defaultState = state := by
  induction hkept with
  | null hproperties =>
    refine ⟨fun value heq ↦ ?_, by rw [removeExtraProperties]; nofun⟩
    subst heq
    have hempty : value.properties = [] := hproperties
    rw [setMissingDefaults, hempty]
  | array elements defaultState =>
    refine ⟨fun value heq ↦ ?_, by rw [removeExtraProperties]; nofun⟩
    rw [setMissingDefaults]
    · nofun
    · nofun
  | @object members defaultState hproperties hdefined hmembers ih =>
    have hnodup : (members.map Prod.fst).Nodup := hstate.nodup_properties
    have hinner : ∀ key value inner, Entries.find members key = some value →
        defaultState.get realm key = some inner → isObjectType value = true →
          inner.isNull realm = false →
            (∀ defaultValue, inner = .json defaultValue →
              setMissingDefaults realm value defaultValue = .ok value) ∧
              removeExtraProperties realm value inner = value := by
      intro key value inner hmember hget hvalue hnull
      exact ih key value inner hmember hget hvalue hnull
        (hstate.of_mem_properties (Entries.mem_of_find hmember)) (hdefault.get hget)
    constructor
    · rintro defaultValue rfl
      have hround : ∀ entry ∈ defaultValue.properties,
          fillProperty realm members members entry = .ok members := by
        intro entry hentry
        have hfind : Entries.find defaultValue.properties entry.1 = some entry.2 :=
          (Entries.find_eq_some_iff hdefault.nodup_properties).mpr hentry
        rw [fillProperty]
        cases hmember : Entries.find members entry.1 with
        | none =>
          have hboth := hproperties entry.1 (Option.isSome_of_mem hfind)
          rw [hmember] at hboth
          exact if_pos (hboth.resolve_left Bool.false_ne_true)
        | some value =>
          by_cases hcond : isObjectType value ∧ ¬ isNull entry.2
          · obtain ⟨hfill, -⟩ := hinner entry.1 value (.json entry.2) hmember
              (by rw [get_json, hfind]) hcond.1 (Bool.eq_false_iff.mpr hcond.2)
            refine (if_pos hcond).trans ?_
            rw [hfill entry.2 rfl]
            exact congrArg Except.ok (PlainObject.replaceProperty_eq_self hnodup hmember)
          · exact if_neg hcond
      rw [setMissingDefaults_object, foldlM_eq_self hround]
      rfl
    · have hloop : ∀ rest : List (Str × JsonValue), rest ⊆ members →
          removeExtraMembers realm rest defaultState = rest := by
        intro rest hrest
        induction rest with
        | nil => rw [removeExtraMembers]
        | cons member others ihOthers =>
          obtain ⟨prop, value⟩ := member
          rw [List.cons_subset] at hrest
          have hmember := (Entries.find_eq_some_iff hnodup).mpr hrest.1
          obtain ⟨inner, hget⟩ := Option.isSome_iff_exists.mp (hdefined prop (Option.isSome_of_mem hmember))
          rw [removeExtraMembers, hget, ihOthers hrest.2]
          show (if isObjectType value ∧ ¬ inner.isNull realm then _ else _) = _
          split
          · next hcond =>
            rw [(hinner prop value inner hmember hget hcond.1 (Bool.eq_false_iff.mpr hcond.2)).2]
          · rfl
      rw [removeExtraProperties, hloop members (List.Subset.refl _)]

/-- A value that is left alone by both passes is left alone by the condition. -/
theorem kept_of_normalizeBy {state : JsonValue} {defaultState : DefaultState Host}
    (hobject : isObjectType state = true) (hstate : state.Valid) (hdefault : defaultState.Valid)
    (hnormalize : normalizeBy realm state defaultState = .ok state) : Kept realm state defaultState := by
  induction state using JsonValue.inductionOn generalizing defaultState with
  | hnull =>
    cases defaultState with
    | host host => exact .null rfl
    | json defaultValue =>
      obtain ⟨filled, hfill, -⟩ := Except.bind_eq_ok.mp hnormalize
      rw [setMissingDefaults] at hfill
      split at hfill
      · next hproperties => exact .null hproperties
      · cases hfill
  | hboolean value => cases hobject
  | hnumber value => cases hobject
  | hstring value => cases hobject
  | harray elements ih => exact .array elements defaultState
  | hobject members ih =>
    obtain ⟨results, heq, hresults⟩ := results_of_normalizeBy hdefault hnormalize
    obtain rfl := JsonValue.object.inj heq
    refine .object (fun key hsome ↦ ?_) (fun key hsome ↦ ?_) fun key value inner hmember hget hvalue hnull ↦ ?_
    · by_contra hboth
      rw [not_or, Option.not_isSome_iff_eq_none] at hboth
      have hmissing := hresults.missing key hboth.1
      rw [if_neg hboth.2, hboth.1] at hmissing
      rw [← hmissing] at hsome
      cases hsome
    · rw [Option.isSome_iff_ne_none]
      intro hnone
      rw [hresults.removed key hnone] at hsome
      cases hsome
    · have hmem := Entries.mem_of_find hmember
      obtain ⟨result, hresult, hfound⟩ := hresults.inner key value inner hmember hget
      obtain rfl := Option.some.inj (hmember.symm.trans hfound)
      have hcond : isObjectType value ∧ ¬ inner.isNull realm := ⟨hvalue, Bool.eq_false_iff.mp hnull⟩
      rw [normalizeInner, if_pos hcond] at hresult
      exact ih (key, value) hmem hvalue (hstate.of_mem_properties hmem) (hdefault.get hget) hresult

/-- Both passes leave a value alone that the condition leaves alone. -/
theorem normalizeBy_of_kept {state : JsonValue} {defaultState : DefaultState Host}
    (hkept : Kept realm state defaultState) (hstate : state.Valid) (hdefault : defaultState.Valid) :
    normalizeBy realm state defaultState = .ok state := by
  obtain ⟨hfill, hremove⟩ := eq_of_kept hkept hstate hdefault
  cases defaultState with
  | json value => exact Except.bind_eq_ok.mpr ⟨state, hfill value rfl, congrArg Except.ok hremove⟩
  | host host => exact congrArg Except.ok hremove

/-- A value is left alone when it is compared with itself. -/
theorem kept_self {value : JsonValue} (hobject : isObjectType value = true) (hvalid : value.Valid) :
    Kept realm value (.json value) := by
  induction hvalid with
  | null => exact .null rfl
  | array helements => exact .array _ _
  | @object members hnodup hmembers ih =>
    have hget : ∀ key inner, Entries.find members key = some inner →
        (DefaultState.json (.object members)).get realm key = some (.json inner) := by
      intro key inner hmember
      rw [get_json, show Entries.find (JsonValue.object members).properties key = some inner from hmember]
    refine .object (fun key hsome ↦ .inl hsome) (fun key hsome ↦ ?_)
      fun key inner found hmember hfound hinner _ ↦ ?_
    · obtain ⟨inner, hinner⟩ := Option.isSome_iff_exists.mp hsome
      exact Option.isSome_of_mem (hget key inner hinner)
    · obtain rfl := Option.some.inj ((hget key inner hmember).symm.trans hfound)
      exact ih _ (Entries.mem_of_find hmember) hinner
  | _ => cases hobject

end Kept

/-! ### Normalized states -/

section Normalized

variable {Host : Type} {realm : Realm Host} {state defaultState result : JsonValue}

/-- What is no plain object is kept. -/
theorem eq_of_normalizeInner {inner : DefaultState Host} (hplain : isPlainObject state = false)
    (hnormalize : normalizeInner realm state inner = .ok result) : result = state := by
  rw [normalizeInner] at hnormalize
  split at hnormalize
  · cases inner with
    | host host =>
      rw [← Except.ok.inj hnormalize]
      exact removeExtraProperties_eq_self hplain
    | json value =>
      obtain ⟨filled, hfill, hremove⟩ := Except.bind_eq_ok.mp hnormalize
      obtain rfl := eq_of_setMissingDefaults hplain hfill
      rw [← Except.ok.inj hremove]
      exact removeExtraProperties_eq_self hplain
  · exact (Except.ok.inj hnormalize).symm

/-- What is made of valid values is valid. -/
theorem valid_of_normalizeInner {inner : DefaultState Host} (hstate : state.Valid) (hdefault : inner.Valid)
    (hnormalize : normalizeInner realm state inner = .ok result) : result.Valid := by
  induction state using JsonValue.inductionOn generalizing inner result with
  | hobject members ih =>
    rw [normalizeInner] at hnormalize
    split at hnormalize
    · obtain ⟨results, rfl, hresults⟩ := results_of_normalizeBy hdefault hnormalize
      have hnodup := hresults.nodup hstate.nodup_properties
      refine .object hnodup fun member hmember ↦ ?_
      have hfound := (Entries.find_eq_some_iff hnodup).mpr hmember
      cases hbefore : Entries.find members member.1 with
      | none =>
        rw [hresults.missing _ hbefore] at hfound
        split at hfound
        · cases hfound
        · cases inner with
          | host host => cases hfound
          | json value => exact JsonValue.Valid.of_mem_properties hdefault (Entries.mem_of_find hfound)
      | some value =>
        cases hget : inner.get realm member.1 with
        | none =>
          rw [hresults.removed _ hget] at hfound
          cases hfound
        | some other =>
          obtain ⟨after, hafter, hsame⟩ := hresults.inner _ value other hbefore hget
          obtain rfl := Option.some.inj (hsame.symm.trans hfound)
          have hmem := Entries.mem_of_find hbefore
          exact ih _ hmem (hstate.of_mem_properties hmem) (hdefault.get hget) hafter
    · obtain rfl := Except.ok.inj hnormalize
      exact hstate
  | _ =>
    rw [eq_of_normalizeInner rfl hnormalize]
    exact hstate

/-- What is not expected to change is kept. -/
theorem Normalized.eq_self (hnormalized : Normalized state defaultState result)
    (hobjects : ¬ (isPlainObject state ∧ isPlainObject defaultState)) : result = state := by
  cases hnormalized with
  | kept => rfl
  | objects => exact absurd ⟨rfl, rfl⟩ hobjects

/-- Values that are not both objects are as expected exactly if the persisted one is left alone. -/
theorem exists_normalized_iff_of_mismatch (hstate : state.Valid) (hdefault : defaultState.Valid)
    (hobjects : ¬ (isPlainObject state ∧ isPlainObject defaultState)) :
    (∃ result, normalizeInner realm state (.json defaultState) = .ok result ∧
      Normalized state defaultState result) ↔ Fits realm state defaultState := by
  constructor
  · rintro ⟨result, hresult, hnormalized⟩
    obtain rfl := hnormalized.eq_self hobjects
    refine .kept hobjects fun hobject hnull ↦ ?_
    rw [normalizeInner, if_pos ⟨hobject, Bool.eq_false_iff.mp hnull⟩] at hresult
    exact kept_of_normalizeBy hobject hstate hdefault hresult
  · intro hfits
    refine ⟨state, ?_, .kept hobjects⟩
    cases hfits with
    | kept _ hkept =>
      rw [normalizeInner]
      split
      · next hcond =>
        exact normalizeBy_of_kept (hkept hcond.1 (Bool.eq_false_iff.mpr hcond.2)) hstate hdefault
      · rfl
    | objects => exact absurd ⟨rfl, rfl⟩ hobjects

section Objects

variable {members defaults results : List (Str × JsonValue)} {key : Str}

/-- Objects are normalized by both passes. -/
theorem normalizeInner_objects : normalizeInner realm (.object members) (.json (.object defaults)) =
    normalizeBy realm (.object members) (.json (.object defaults)) :=
  if_pos ⟨rfl, Bool.false_ne_true⟩

theorem get_object_of_some {value : JsonValue} (hdefault : Entries.find defaults key = some value) :
    (DefaultState.json (.object defaults)).get realm key = some (.json value) := by
  have hfind : Entries.find (JsonValue.object defaults).properties key = some value := hdefault
  rw [get_json, hfind]

theorem get_object_of_none (hdefault : Entries.find defaults key = none) :
    (DefaultState.json (.object defaults)).get realm key = (realm.hidden .object key).map .host := by
  have hfind : Entries.find (JsonValue.object defaults).properties key = none := hdefault
  rw [get_json, hfind]
  rfl

/-- A property that the persisted object has, or inherits like the default one, is one of the result if it is
one of the default object. -/
theorem find_results_of_none (hresults : Results realm members (.json (.object defaults)) results)
    (hhidden : (realm.hidden .object key).isSome →
      ((Entries.find members key).isSome ↔ (Entries.find defaults key).isSome))
    (hmember : Entries.find members key = none) :
    Entries.find results key = Entries.find defaults key := by
  rw [hresults.missing key hmember]
  split
  · next hsome =>
    have hboth := hhidden hsome
    rw [hmember] at hboth
    exact (Option.not_isSome_iff_eq_none.mp fun hdefault ↦ Bool.false_ne_true (hboth.mpr hdefault)).symm
  · rfl

/-- A property that the default object neither has nor inherits is removed. -/
theorem find_results_of_notMem (hresults : Results realm members (.json (.object defaults)) results)
    (hhidden : (realm.hidden .object key).isSome →
      ((Entries.find members key).isSome ↔ (Entries.find defaults key).isSome))
    (hdefault : Entries.find defaults key = none) : Entries.find results key = none := by
  cases hhost : realm.hidden .object key with
  | none =>
    refine hresults.removed key ?_
    rw [get_object_of_none hdefault, hhost]
    rfl
  | some host =>
    have hboth := hhidden (Option.isSome_of_mem hhost)
    rw [hdefault] at hboth
    have hmember := Option.not_isSome_iff_eq_none.mp fun hmember ↦ Bool.false_ne_true (hboth.mp hmember)
    rw [find_results_of_none hresults hhidden hmember, hdefault]

end Objects

/-- The result is as expected exactly if the states meet the condition. -/
theorem exists_normalized_iff (hstate : state.Valid) (hdefault : defaultState.Valid) :
    (∃ result, normalizeInner realm state (.json defaultState) = .ok result ∧
      Normalized state defaultState result) ↔ Fits realm state defaultState := by
  induction state using JsonValue.inductionOn generalizing defaultState with
  | hobject members ih =>
    cases defaultState with
    | object defaults =>
      have hdefaultState : (DefaultState.json (.object defaults) : DefaultState Host).Valid := hdefault
      have hvalue : ∀ {key : Str} {value defaultValue : JsonValue}, Entries.find members key = some value →
          Entries.find defaults key = some defaultValue →
            ((∃ result, normalizeInner realm value (.json defaultValue) = .ok result ∧
              Normalized value defaultValue result) ↔ Fits realm value defaultValue) := by
        intro key value defaultValue hmember hdefaultValue
        have hmem := Entries.mem_of_find hmember
        exact ih _ hmem (hstate.of_mem_properties hmem)
          (hdefault.of_mem_properties (Entries.mem_of_find hdefaultValue))
      rw [normalizeInner_objects]
      constructor
      · rintro ⟨result, hresult, hnormalized⟩
        obtain ⟨results, rfl, hresults⟩ := results_of_normalizeBy hdefaultState hresult
        cases hnormalized with
        | kept hobjects => exact absurd ⟨rfl, rfl⟩ hobjects
        | objects hkeys hmissing hboth =>
          refine .objects (fun key hhidden ↦ ⟨fun hsome ↦ ?_, fun hsome ↦ ?_⟩)
            fun key value defaultValue hmember hdefaultValue ↦ ?_
          · obtain ⟨value, hmember⟩ := Option.isSome_iff_exists.mp hsome
            obtain ⟨host, hhost⟩ := Option.isSome_iff_exists.mp hhidden
            by_contra hnone
            rw [Option.not_isSome_iff_eq_none] at hnone
            have hget : (DefaultState.json (.object defaults)).get realm key = some (.host host) := by
              rw [get_object_of_none hnone, hhost]
              rfl
            obtain ⟨found, -, hfound⟩ := hresults.inner key value _ hmember hget
            have hsomeDefault := (hkeys key).mp (Option.isSome_of_mem hfound)
            rw [hnone] at hsomeDefault
            cases hsomeDefault
          · obtain ⟨value, hdefaultValue⟩ := Option.isSome_iff_exists.mp hsome
            by_contra hnone
            rw [Option.not_isSome_iff_eq_none] at hnone
            have hfound := hmissing key value hnone hdefaultValue
            rw [hresults.missing key hnone, if_pos hhidden] at hfound
            cases hfound
          · obtain ⟨found, hfound, hsame⟩ :=
              hresults.inner key value _ hmember (get_object_of_some hdefaultValue)
            exact (hvalue hmember hdefaultValue).mp
              ⟨found, hfound, hboth key value defaultValue found hmember hdefaultValue hsame⟩
      · intro hfits
        cases hfits with
        | kept hobjects => exact absurd ⟨rfl, rfl⟩ hobjects
        | objects hhidden hmembers =>
          have hinner : ∀ key value inner, Entries.find members key = some value →
              (DefaultState.json (.object defaults)).get realm key = some inner →
                ∃ result, normalizeInner realm value inner = .ok result := by
            intro key value inner hmember hget
            cases hdefaultValue : Entries.find defaults key with
            | none =>
              rw [get_object_of_none hdefaultValue] at hget
              obtain ⟨host, -, rfl⟩ := Option.map_eq_some_iff.mp hget
              exact ⟨_, normalizeInner_host value host⟩
            | some defaultValue =>
              obtain rfl := Option.some.inj ((get_object_of_some hdefaultValue).symm.trans hget)
              obtain ⟨result, hresult, -⟩ :=
                (hvalue hmember hdefaultValue).mpr (hmembers key value defaultValue hmember hdefaultValue)
              exact ⟨result, hresult⟩
          obtain ⟨results, hresult, hresults⟩ := exists_results hdefaultState hinner
          refine ⟨.object results, hresult, .objects (fun key ↦ ?_) (fun key value hmember hdefaultValue ↦ ?_)
            fun key value defaultValue found hmember hdefaultValue hfound ↦ ?_⟩
          · cases hdefaultValue : Entries.find defaults key with
            | none => rw [find_results_of_notMem hresults (hhidden key) hdefaultValue]
            | some defaultValue =>
              cases hmember : Entries.find members key with
              | none => rw [find_results_of_none hresults (hhidden key) hmember, hdefaultValue]
              | some value =>
                obtain ⟨result, -, hfound⟩ :=
                  hresults.inner key value _ hmember (get_object_of_some hdefaultValue)
                rw [hfound]
                exact iff_of_true rfl rfl
          · rw [find_results_of_none hresults (hhidden key) hmember, hdefaultValue]
          · obtain ⟨result, hresult, hsame⟩ :=
              hresults.inner key value _ hmember (get_object_of_some hdefaultValue)
            obtain rfl := Option.some.inj (hsame.symm.trans hfound)
            obtain ⟨other, hother, hnormalized⟩ :=
              (hvalue hmember hdefaultValue).mpr (hmembers key value defaultValue hmember hdefaultValue)
            obtain rfl := Except.ok.inj (hresult.symm.trans hother)
            exact hnormalized
    | _ => exact exists_normalized_iff_of_mismatch hstate hdefault (fun hboth ↦ Bool.false_ne_true hboth.2)
  | _ => exact exists_normalized_iff_of_mismatch hstate hdefault (fun hboth ↦ Bool.false_ne_true hboth.1)

/-- A normalized state is left alone. -/
theorem kept_of_normalized (hnormalized : Normalized state defaultState result) (hstate : state.Valid)
    (hdefault : defaultState.Valid) (hfits : Fits realm state defaultState)
    (hnormalize : normalizeInner realm state (.json defaultState) = .ok result)
    (hobject : isObjectType result = true) (hnull : isNull defaultState = false) :
    Kept realm result (.json defaultState) := by
  induction hnormalized with
  | kept hobjects =>
    cases hfits with
    | kept _ hkept => exact hkept hobject hnull
    | objects => exact absurd ⟨rfl, rfl⟩ hobjects
  | @objects members defaults results hkeys hmissing hboth ih =>
    cases hfits with
    | kept hobjects => exact absurd ⟨rfl, rfl⟩ hobjects
    | objects hhidden hmembers =>
      have hdefaultState : (DefaultState.json (.object defaults) : DefaultState Host).Valid := hdefault
      rw [normalizeInner_objects] at hnormalize
      obtain ⟨others, heq, hresults⟩ := results_of_normalizeBy hdefaultState hnormalize
      obtain rfl := JsonValue.object.inj heq
      refine .object (fun key hsome ↦ .inl ((hkeys key).mpr hsome)) (fun key hsome ↦ ?_)
        fun key value inner hfound hget hvalue hinner ↦ ?_
      · obtain ⟨value, hvalue⟩ := Option.isSome_iff_exists.mp ((hkeys key).mp hsome)
        exact Option.isSome_of_mem (get_object_of_some hvalue)
      · obtain ⟨defaultValue, hdefaultValue⟩ :=
          Option.isSome_iff_exists.mp ((hkeys key).mp (Option.isSome_of_mem hfound))
        obtain rfl := Option.some.inj ((get_object_of_some hdefaultValue).symm.trans hget)
        have hvalidDefault := hdefault.of_mem_properties (Entries.mem_of_find hdefaultValue)
        cases hmember : Entries.find members key with
        | none =>
          obtain rfl := Option.some.inj ((hmissing key _ hmember hdefaultValue).symm.trans hfound)
          exact kept_self hvalue hvalidDefault
        | some before =>
          obtain ⟨after, hafter, hsame⟩ :=
            hresults.inner key before _ hmember (get_object_of_some hdefaultValue)
          obtain rfl := Option.some.inj (hsame.symm.trans hfound)
          exact ih key before defaultValue after hmember hdefaultValue hsame
            (hstate.of_mem_properties (Entries.mem_of_find hmember)) hvalidDefault
            (hmembers key before defaultValue hmember hdefaultValue) hafter hvalue hinner

/-- A normalized state is not changed again. -/
theorem normalizeInner_of_normalized (hnormalized : Normalized state defaultState result)
    (hstate : state.Valid) (hdefault : defaultState.Valid) (hfits : Fits realm state defaultState)
    (hnormalize : normalizeInner realm state (.json defaultState) = .ok result) :
    normalizeInner realm result (.json defaultState) = .ok result := by
  rw [normalizeInner]
  split
  · next hcond =>
    have hdefaultState : (DefaultState.json defaultState : DefaultState Host).Valid := hdefault
    refine normalizeBy_of_kept ?_ (valid_of_normalizeInner hstate hdefaultState hnormalize) hdefaultState
    exact kept_of_normalized hnormalized hstate hdefault hfits hnormalize hcond.1
      (Bool.eq_false_iff.mpr hcond.2)
  · rfl

end Normalized

end Playground.Updatable
