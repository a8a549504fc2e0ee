import Playground.Library.JsonValue

/-!
# `PgCommon.isEqual`

`client/src/utils/pg/common.ts`. Two values are compared by their types, and two objects by the number of
their keys and by the values of the keys of the first one, also when they are `null` or arrays. So an
array is equal to an object that has its indices as keys, and the keys of `null` cannot be taken.

What is read of the second value need not be a property of its own: an array has a `length`, and both
arrays and objects have a prototype. `Alike` and `MeetsNull` state for which values `true` is returned and
for which the comparison throws; `decides_iff` states for which the outcome is right.

Not formalized here: values that are not of JSON, and the identity of two objects, which are equal then.
-/

set_option autoImplicit false
set_option relaxedAutoImplicit false

namespace Playground.PgCommon

open Library JsonValue

/-! ### The comparison -/

/-- What is thrown: the keys of `null` are taken. -/
inductive Error
  | typeError
  deriving DecidableEq

/-- What a property of a value is read as. The prototypes of arrays and objects have no keys of their own
that are enumerated, so that they are like an empty object. There is no value where what is read is
`undefined` or a function, which has another type than all values of JSON. -/
def property (value : JsonValue) (key : Str) : Option JsonValue :=
  (own value key).or <|
    match value with
    | .array elements =>
      if key = "length".toList then some (.number elements.length)
      else if key = "__proto__".toList then some (.object [])
      else none
    | .object _ => if key = "__proto__".toList then some (.object []) else none
    | _ => none

/-- `Object.keys(value2).length`, and what is compared next if it is the length for the first value. -/
def compareLength (length : ℕ) (value2 : JsonValue) (compare : Except Error Bool) :
    Except Error Bool :=
  match value2 with
  | .null => .error .typeError
  | .array elements => if length ≠ elements.length then .ok false else compare
  | .object members => if length ≠ members.length then .ok false else compare
  | _ => .ok false

mutual

/-- `PgCommon.isEqual`. -/
def isEqual : JsonValue → JsonValue → Except Error Bool
  | .null, .null => .ok true
  | .null, .array _ => .error .typeError
  | .null, .object _ => .error .typeError
  | .boolean value1, .boolean value2 => .ok (value1 = value2)
  | .number value1, .number value2 => .ok (value1 = value2)
  | .string value1, .string value2 => .ok (value1 = value2)
  | .array elements, value2 =>
    compareLength elements.length value2 (isEqualElements elements 0 value2)
  | .object members, value2 =>
    compareLength members.length value2 (isEqualMembers members value2)
  | _, _ => .ok false

/-- The loop over the keys of an array, from an index on. -/
def isEqualElements : List JsonValue → ℕ → JsonValue → Except Error Bool
  | [], _, _ => .ok true
  | element :: rest, index, value2 =>
    match property value2 (indexKey index) with
    | none => .ok false
    | some other =>
      match isEqual element other with
      | .error error => .error error
      | .ok false => .ok false
      | .ok true => isEqualElements rest (index + 1) value2

/-- The loop over the keys of an object. -/
def isEqualMembers : List (Str × JsonValue) → JsonValue → Except Error Bool
  | [], _ => .ok true
  | (key, value) :: rest, value2 =>
    match property value2 key with
    | none => .ok false
    | some other =>
      match isEqual value other with
      | .error error => .error error
      | .ok false => .ok false
      | .ok true => isEqualMembers rest value2

end

/-! ### What the comparison finds -/

/-- What the comparison does not tell apart: equal values other than containers, and containers with as
many keys, where the values of the first one's keys are alike. -/
inductive Alike : JsonValue → JsonValue → Prop
  | null : Alike .null .null
  | boolean (value : Bool) : Alike (.boolean value) (.boolean value)
  | number (value : ℚ) : Alike (.number value) (.number value)
  | string (value : Str) : Alike (.string value) (.string value)
  | container {value1 value2 : JsonValue} (hvalue1 : value1.IsContainer)
    (hvalue2 : value2.IsContainer) (hlength : value1.properties.length = value2.properties.length)
    (hkeys : ∀ member ∈ value1.properties, property value2 member.1 ≠ none)
    (hvalues : ∀ member ∈ value1.properties, ∀ other, property value2 member.1 = some other →
      Alike member.2 other) : Alike value1 value2

/-- A `null` meets an array or an object before a difference has been found. -/
inductive MeetsNull : JsonValue → JsonValue → Prop
  | left {value2 : JsonValue} (hvalue2 : value2.IsContainer) : MeetsNull .null value2
  | right {value1 : JsonValue} (hvalue1 : value1.IsContainer) : MeetsNull value1 .null
  | inner {value1 value2 : JsonValue} (hvalue1 : value1.IsContainer) (hvalue2 : value2.IsContainer)
    (hlength : value1.properties.length = value2.properties.length)
    {before after : List (Str × JsonValue)} {member : Str × JsonValue} {other : JsonValue}
    (hsplit : value1.properties = before ++ member :: after)
    (hbefore : ∀ earlier ∈ before, ∃ found, property value2 earlier.1 = some found ∧
      Alike earlier.2 found)
    (hother : property value2 member.1 = some other) (hmeets : MeetsNull member.2 other) :
    MeetsNull value1 value2

/-- What a comparison is to return. -/
def Decides (value1 value2 : JsonValue) : Prop :=
  ∃ equal, isEqual value1 value2 = .ok equal ∧ (equal = true ↔ Equal value1 value2)

/-! ### The loops -/

section Loops

variable {members : List (Str × JsonValue)} {value1 value2 : JsonValue}

/-- The loop over an array is that over its properties. -/
theorem isEqualElements_eq (elements : List JsonValue) (start : ℕ) (value2 : JsonValue) :
    isEqualElements elements start value2 =
      isEqualMembers (elements.mapIdx fun index element ↦ (indexKey (index + start), element))
        value2 := by
  induction elements generalizing start with
  | nil => rfl
  | cons element rest ih =>
    rw [List.mapIdx_cons, isEqualElements, isEqualMembers, ih, Nat.zero_add]
    simp only [Nat.add_assoc, Nat.add_comm 1 start]

/-- Two containers are compared by their numbers of keys and by the loop. -/
theorem isEqual_of_isContainer (hvalue1 : value1.IsContainer) (hvalue2 : value2.IsContainer) :
    isEqual value1 value2 =
      if value1.properties.length ≠ value2.properties.length then .ok false
      else isEqualMembers value1.properties value2 := by
  have hlength : ∀ (length : ℕ) (compare : Except Error Bool),
      compareLength length value2 compare =
        if length ≠ value2.properties.length then .ok false else compare := by
    intro length compare
    cases value2 with
    | array elements => rw [properties, List.length_mapIdx, compareLength]
    | object members => rfl
    | _ => cases hvalue2
  cases value1 with
  | array elements =>
    rw [isEqual, hlength, isEqualElements_eq, properties, List.length_mapIdx]
    rfl
  | object members =>
    rw [isEqual, hlength]
    rfl
  | _ => cases hvalue1

/-- The step of the loop. -/
theorem isEqualMembers_cons (value2 : JsonValue) (member : Str × JsonValue)
    (rest : List (Str × JsonValue)) :
    (property value2 member.1 = none ∧ isEqualMembers (member :: rest) value2 = .ok false) ∨
      ∃ other, property value2 member.1 = some other ∧
        (isEqual member.2 other = .ok true ∧
            isEqualMembers (member :: rest) value2 = isEqualMembers rest value2 ∨
          isEqual member.2 other ≠ .ok true ∧
            isEqualMembers (member :: rest) value2 = isEqual member.2 other) := by
  rw [isEqualMembers]
  cases hproperty : property value2 member.1 with
  | none => exact .inl ⟨rfl, rfl⟩
  | some other =>
    refine .inr ⟨other, rfl, ?_⟩
    cases hequal : isEqual member.2 other with
    | error error => exact .inr ⟨nofun, by simp only [hequal]⟩
    | ok equal =>
      cases equal with
      | false => exact .inr ⟨by simp, by simp only [hequal]⟩
      | true => exact .inl ⟨rfl, by simp only [hequal]⟩

/-- The loop returns `true` if all values do. -/
theorem isEqualMembers_eq_true_iff :
    isEqualMembers members value2 = .ok true ↔
      ∀ member ∈ members, ∃ other, property value2 member.1 = some other ∧
        isEqual member.2 other = .ok true := by
  induction members with
  | nil => simp [isEqualMembers]
  | cons member rest ih =>
    rw [List.forall_mem_cons, ← ih]
    rcases isEqualMembers_cons value2 member rest with
      ⟨hnone, heq⟩ | ⟨other, hother, ⟨htrue, heq⟩ | ⟨hnot, heq⟩⟩
    · rw [heq, hnone]
      simp
    · rw [heq]
      exact (and_iff_right ⟨other, hother, htrue⟩).symm
    · rw [heq]
      refine iff_of_false hnot ?_
      rintro ⟨⟨found, hfound, htrue⟩, -⟩
      obtain rfl := Option.some.inj (hother.symm.trans hfound)
      exact hnot htrue

/-- The loop throws if some value does and all before it return `true`. -/
theorem isEqualMembers_eq_error_iff :
    isEqualMembers members value2 = .error .typeError ↔
      ∃ before member after other, members = before ++ member :: after ∧
        (∀ earlier ∈ before, ∃ found, property value2 earlier.1 = some found ∧
          isEqual earlier.2 found = .ok true) ∧
        property value2 member.1 = some other ∧ isEqual member.2 other = .error .typeError := by
  induction members with
  | nil => simp [isEqualMembers]
  | cons member rest ih =>
    constructor
    · intro herror
      rcases isEqualMembers_cons value2 member rest with
        ⟨-, heq⟩ | ⟨other, hother, ⟨htrue, heq⟩ | ⟨-, heq⟩⟩
      · rw [heq] at herror
        cases herror
      · rw [heq, ih] at herror
        obtain ⟨before, thrown, after, found, hsplit, hbefore, hfound, hthrown⟩ := herror
        refine ⟨member :: before, thrown, after, found, ?_, ?_, hfound, hthrown⟩
        · rw [hsplit, List.cons_append]
        · exact List.forall_mem_cons.mpr ⟨⟨other, hother, htrue⟩, hbefore⟩
      · exact ⟨[], member, rest, other, rfl, by simp, hother, heq.symm.trans herror⟩
    · rintro ⟨before, thrown, after, found, hsplit, hbefore, hfound, hthrown⟩
      rcases isEqualMembers_cons value2 member rest with
        ⟨hnone, -⟩ | ⟨other, hother, hcase⟩
      · cases before with
        | nil =>
          obtain ⟨rfl, -⟩ := List.cons.inj hsplit
          cases hnone.symm.trans hfound
        | cons first before =>
          obtain ⟨rfl, -⟩ := List.cons.inj hsplit
          obtain ⟨other, hother, -⟩ := hbefore member List.mem_cons_self
          cases hnone.symm.trans hother
      · cases before with
        | nil =>
          obtain ⟨rfl, -⟩ := List.cons.inj hsplit
          obtain rfl := Option.some.inj (hother.symm.trans hfound)
          rcases hcase with ⟨htrue, -⟩ | ⟨-, heq⟩
          · cases htrue.symm.trans hthrown
          · rw [heq, hthrown]
        | cons first before =>
          obtain ⟨rfl, hrest⟩ := List.cons.inj hsplit
          rw [List.forall_mem_cons] at hbefore
          obtain ⟨earlier, hearlier, htrue⟩ := hbefore.1
          obtain rfl := Option.some.inj (hother.symm.trans hearlier)
          rcases hcase with ⟨-, heq⟩ | ⟨hnot, -⟩
          · rw [heq, ih]
            exact ⟨before, thrown, after, found, hrest, hbefore.2, hfound, hthrown⟩
          · exact absurd htrue hnot

end Loops

/-! ### The outcome -/

section Outcome

variable {value1 value2 : JsonValue}

/-- Other values than containers are compared at once. -/
theorem isEqual_of_not_isContainer (hvalue1 : ¬ value1.IsContainer) (value2 : JsonValue) :
    (isEqual value1 value2 = .ok true ↔ Alike value1 value2) ∧
      (isEqual value1 value2 = .error .typeError ↔ MeetsNull value1 value2) := by
  have halike : Alike value1 value2 ↔ value1 = value2 := by
    constructor
    · intro halike
      cases halike with
      | container hvalue1' => exact absurd hvalue1' hvalue1
      | _ => rfl
    · rintro rfl
      cases value1 with
      | null => exact .null
      | boolean value => exact .boolean value
      | number value => exact .number value
      | string value => exact .string value
      | _ => exact absurd trivial hvalue1
  have hmeets : MeetsNull value1 value2 ↔ value1 = .null ∧ value2.IsContainer := by
    constructor
    · intro hmeets
      cases hmeets with
      | left hvalue2 => exact ⟨rfl, hvalue2⟩
      | right hvalue1' => exact absurd hvalue1' hvalue1
      | inner hvalue1' => exact absurd hvalue1' hvalue1
    · rintro ⟨rfl, hvalue2⟩
      exact .left hvalue2
  rw [halike, hmeets]
  cases value1 with
  | array elements => exact absurd trivial hvalue1
  | object members => exact absurd trivial hvalue1
  | _ => cases value2 <;> simp [isEqual, IsContainer]

/-- A container is compared with another value than a container at once. -/
theorem isEqual_of_not_isContainer_right (hvalue1 : value1.IsContainer)
    (hvalue2 : ¬ value2.IsContainer) :
    isEqual value1 value2 ≠ .ok true ∧
      (isEqual value1 value2 = .error .typeError ↔ value2 = .null) := by
  cases value1 with
  | array elements =>
    cases value2 <;> simp_all [isEqual, compareLength, IsContainer]
  | object members =>
    cases value2 <;> simp_all [isEqual, compareLength, IsContainer]
  | _ => cases hvalue1

/-- What the loop compares when it returns `true`. -/
theorem alike_container_iff
    (ih : ∀ member ∈ value1.properties, ∀ other : JsonValue,
      (isEqual member.2 other = .ok true ↔ Alike member.2 other) ∧
        (isEqual member.2 other = .error .typeError ↔ MeetsNull member.2 other))
    (hvalue1 : value1.IsContainer) (hvalue2 : value2.IsContainer)
    (hlength : value1.properties.length = value2.properties.length) :
    (∀ member ∈ value1.properties, ∃ other, property value2 member.1 = some other ∧
      isEqual member.2 other = .ok true) ↔ Alike value1 value2 := by
  constructor
  · intro hall
    refine .container hvalue1 hvalue2 hlength (fun member hmember ↦ ?_)
      fun member hmember other hother ↦ ?_
    · obtain ⟨other, hother, -⟩ := hall member hmember
      rw [hother]
      exact Option.some_ne_none other
    · obtain ⟨found, hfound, htrue⟩ := hall member hmember
      obtain rfl := Option.some.inj (hfound.symm.trans hother)
      exact (ih member hmember found).1.mp htrue
  · intro halike
    cases halike with
    | container _ _ _ hkeys hvalues =>
      intro member hmember
      obtain ⟨other, hother⟩ := Option.ne_none_iff_exists'.mp (hkeys member hmember)
      exact ⟨other, hother,
        (ih member hmember other).1.mpr (hvalues member hmember other hother)⟩
    | _ => cases hvalue1

/-- What the loop compares when it throws. -/
theorem meetsNull_container_iff
    (ih : ∀ member ∈ value1.properties, ∀ other : JsonValue,
      (isEqual member.2 other = .ok true ↔ Alike member.2 other) ∧
        (isEqual member.2 other = .error .typeError ↔ MeetsNull member.2 other))
    (hvalue1 : value1.IsContainer) (hvalue2 : value2.IsContainer)
    (hlength : value1.properties.length = value2.properties.length) :
    (∃ before member after other, value1.properties = before ++ member :: after ∧
      (∀ earlier ∈ before, ∃ found, property value2 earlier.1 = some found ∧
        isEqual earlier.2 found = .ok true) ∧
      property value2 member.1 = some other ∧ isEqual member.2 other = .error .typeError) ↔
        MeetsNull value1 value2 := by
  constructor
  · rintro ⟨before, member, after, other, hsplit, hbefore, hother, hthrown⟩
    have hmem : ∀ earlier ∈ before ++ member :: after, earlier ∈ value1.properties :=
      fun earlier hearlier ↦ hsplit ▸ hearlier
    refine .inner hvalue1 hvalue2 hlength hsplit (fun earlier hearlier ↦ ?_) hother ?_
    · obtain ⟨found, hfound, htrue⟩ := hbefore earlier hearlier
      exact ⟨found, hfound,
        (ih earlier (hmem earlier (List.mem_append_left _ hearlier)) found).1.mp htrue⟩
    · exact (ih member (hmem member (by simp)) other).2.mp hthrown
  · intro hmeets
    cases hmeets with
    | left => cases hvalue1
    | right => cases hvalue2
    | @inner _ _ _ _ _ before after member other hsplit hbefore hother hmeets =>
      have hmem : ∀ earlier ∈ before ++ member :: after, earlier ∈ value1.properties :=
        fun earlier hearlier ↦ hsplit ▸ hearlier
      refine ⟨before, member, after, other, hsplit, fun earlier hearlier ↦ ?_, hother, ?_⟩
      · obtain ⟨found, hfound, halike⟩ := hbefore earlier hearlier
        exact ⟨found, hfound,
          (ih earlier (hmem earlier (List.mem_append_left _ hearlier)) found).1.mpr halike⟩
      · exact (ih member (hmem member (by simp)) other).2.mpr hmeets

/-- Which values the comparison takes for equal, and for which it throws. -/
theorem isEqual_spec (value1 : JsonValue) : ∀ value2 : JsonValue,
    (isEqual value1 value2 = .ok true ↔ Alike value1 value2) ∧
      (isEqual value1 value2 = .error .typeError ↔ MeetsNull value1 value2) := by
  induction value1 using inductionOnProperties with
  | hplain value1 hvalue1 => exact isEqual_of_not_isContainer hvalue1
  | hcontainer value1 hvalue1 ih =>
    intro value2
    by_cases hvalue2 : value2.IsContainer
    · rw [isEqual_of_isContainer hvalue1 hvalue2]
      by_cases hlength : value1.properties.length = value2.properties.length
      · rw [if_neg (not_not.mpr hlength), isEqualMembers_eq_true_iff, isEqualMembers_eq_error_iff]
        constructor
        · exact alike_container_iff ih hvalue1 hvalue2 hlength
        · exact meetsNull_container_iff ih hvalue1 hvalue2 hlength
      · rw [if_pos hlength]
        refine ⟨iff_of_false nofun ?_, iff_of_false nofun ?_⟩
        · intro halike
          cases halike with
          | container _ _ hlength' => exact hlength hlength'
          | _ => cases hvalue1
        · intro hmeets
          cases hmeets with
          | left => cases hvalue1
          | right => cases hvalue2
          | inner _ _ hlength' => exact hlength hlength'
    · have hnot : ¬ Alike value1 value2 := by
        intro halike
        cases halike with
        | container _ hvalue2' => exact hvalue2 hvalue2'
        | _ => cases hvalue1
      have hmeets : MeetsNull value1 value2 ↔ value2 = .null := by
        constructor
        · intro hmeets
          cases hmeets with
          | left => cases hvalue1
          | right => rfl
          | inner _ hvalue2' => exact absurd hvalue2' hvalue2
        · rintro rfl
          exact .right hvalue1
      have hequal := isEqual_of_not_isContainer_right hvalue1 hvalue2
      exact ⟨iff_of_false hequal.1 hnot, hequal.2.trans hmeets.symm⟩

/-- What is read of an own property is its value. -/
theorem property_of_own {value other : JsonValue} {key : Str} (hown : own value key = some other) :
    property value key = some other := by
  unfold property
  rw [hown, Option.some_or]

/-- An empty array is equal to an empty object. -/
example : isEqual (.array []) (.object []) = .ok true := by decide +kernel

/-- Equal values are alike. -/
theorem alike_of_equal (hequal : Equal value1 value2) (hvalid1 : value1.Valid)
    (hvalid2 : value2.Valid) : Alike value1 value2 := by
  induction hequal with
  | null => exact .null
  | boolean value => exact .boolean value
  | number value => exact .number value
  | string value => exact .string value
  | @array elements others hlength _ ih =>
    have hread : ∀ member ∈ (JsonValue.array elements).properties, ∃ index element other,
        member = (indexKey index, element) ∧ elements[index]? = some element ∧
          others[index]? = some other ∧
            property (.array others) (indexKey index) = some other := by
      intro member hmember
      obtain ⟨index, hindex, rfl⟩ := List.mem_mapIdx.mp hmember
      have hother : others[index]? = some (others.get ⟨index, hlength ▸ hindex⟩) :=
        List.getElem?_eq_getElem _
      exact ⟨index, _, _, rfl, List.getElem?_eq_getElem hindex, hother,
        property_of_own ((own_array others index).trans hother)⟩
    refine .container trivial trivial ?_ (fun member hmember ↦ ?_)
      fun member hmember found hfound ↦ ?_
    · rw [properties, properties, List.length_mapIdx, List.length_mapIdx, hlength]
    · obtain ⟨index, element, other, rfl, -, -, hproperty⟩ := hread member hmember
      rw [hproperty]
      exact Option.some_ne_none other
    · obtain ⟨index, element, other, rfl, helement, hother, hproperty⟩ := hread member hmember
      obtain rfl := Option.some.inj (hproperty.symm.trans hfound)
      cases hvalid1 with
      | array hvalid1 =>
        cases hvalid2 with
        | array hvalid2 =>
          exact ih index element other helement hother (hvalid1 _ (List.mem_of_getElem? helement))
            (hvalid2 _ (List.mem_of_getElem? hother))
  | @object members others hkeys _ ih =>
    have hnodup := hvalid1.nodup_properties
    have hnodups := hvalid2.nodup_properties
    have hread : ∀ member ∈ members, ∃ other, (member.1, other) ∈ others ∧
        property (.object others) member.1 = some other := by
      intro member hmember
      have hkey := (hkeys member.1).mp (List.mem_map_of_mem hmember)
      obtain ⟨other, hother⟩ := Entries.find_isSome_iff.mpr hkey
      exact ⟨other, Entries.mem_of_find hother, property_of_own hother⟩
    refine .container trivial trivial ?_ (fun member hmember ↦ ?_)
      fun member hmember found hfound ↦ ?_
    · have hperm := (List.perm_ext_iff_of_nodup hnodup hnodups).mpr hkeys
      have hlength := hperm.length_eq
      rwa [List.length_map, List.length_map] at hlength
    · obtain ⟨other, -, hproperty⟩ := hread member hmember
      rw [hproperty]
      exact Option.some_ne_none other
    · obtain ⟨other, hother, hproperty⟩ := hread member hmember
      obtain rfl := Option.some.inj (hproperty.symm.trans hfound)
      exact ih member.1 member.2 other hmember hother (hvalid1.of_mem_properties hmember)
        (hvalid2.of_mem_properties hother)

/-- The comparison decides whether two values are equal exactly if they are, or if they are not alike and
no `null` meets an array or an object before a difference is found. -/
theorem decides_iff (value1 value2 : ValidJson) :
    Decides value1.1 value2.1 ↔
      Equal value1.1 value2.1 ∨ ¬ Alike value1.1 value2.1 ∧ ¬ MeetsNull value1.1 value2.1 := by
  have hspec := isEqual_spec value1.1 value2.1
  have halike : Equal value1.1 value2.1 → Alike value1.1 value2.1 :=
    fun hequal ↦ alike_of_equal hequal value1.2 value2.2
  rw [← hspec.1] at halike
  rw [← hspec.1, ← hspec.2]
  constructor
  · rintro ⟨equal, hreturns, hequal⟩
    cases equal with
    | true => exact .inl (hequal.mp rfl)
    | false =>
      refine .inr ⟨?_, ?_⟩
      · rw [hreturns]
        simp
      · rw [hreturns]
        simp
  · rintro (hequal | ⟨hnot, hthrows⟩)
    · exact ⟨true, halike hequal, iff_of_true rfl hequal⟩
    · cases hreturns : isEqual value1.1 value2.1 with
      | error error =>
        cases error
        exact absurd hreturns hthrows
      | ok equal =>
        have hfalse : equal ≠ true := fun heq ↦ hnot (heq ▸ hreturns)
        exact ⟨equal, hreturns, iff_of_false hfalse fun hequal ↦ hnot (halike hequal)⟩

/-- The keys of `null` cannot be taken. -/
theorem not_decides :
    ¬ ∀ value1 value2 : ValidJson, Decides value1.1 value2.1 := by
  intro hall
  obtain ⟨equal, hreturns, -⟩ := hall ⟨.null, .null⟩ ⟨.object [], .object List.nodup_nil (by simp)⟩
  rw [isEqual] at hreturns
  cases hreturns

end Outcome

end Playground.PgCommon
