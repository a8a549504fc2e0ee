import Mathlib.Data.Rat.Defs
import Playground.Library.Entries
import Playground.Library.JavaScript
import Playground.Library.Json

/-!
# Values that can be written as JSON

`JsonValue` is such a value as JavaScript has it in memory: `null`, a boolean, a number, a string, an array
or an object with its properties in the order in which they are enumerated. Arrays have properties too,
one for each index (`properties`). In a value that is `Valid` no object has two properties with the
same key.

Two values are `Equal` if they have the same shape: arrays have equal elements in their order, objects the
same keys with equal values in any order.

Not formalized here: the difference between `0` and `-0`. Numbers are taken as the rational ones that they
are.
-/

set_option autoImplicit false
set_option relaxedAutoImplicit false

namespace Playground.Library

/-- A value of JSON. -/
inductive JsonValue
  | null
  | boolean (value : Bool)
  | number (value : ℚ)
  | string (value : Str)
  | array (elements : List JsonValue)
  | object (members : List (Str × JsonValue))

namespace JsonValue

/-! ### Induction -/

section Induction

variable {motive : JsonValue → Prop} (hnull : motive .null)
  (hboolean : ∀ value, motive (.boolean value)) (hnumber : ∀ value, motive (.number value))
  (hstring : ∀ value, motive (.string value))
  (harray : ∀ elements, (∀ element ∈ elements, motive element) → motive (.array elements))
  (hobject : ∀ members, (∀ member ∈ members, motive member.2) → motive (.object members))

include hnull hboolean hnumber hstring harray hobject

mutual

/-- What holds of a container if it holds of what is in it, and of the other values, holds of all. -/
theorem inductionOn : ∀ value : JsonValue, motive value
  | .null => hnull
  | .boolean value => hboolean value
  | .number value => hnumber value
  | .string value => hstring value
  | .array elements => harray elements (inductionOnElements elements)
  | .object members => hobject members (inductionOnMembers members)

theorem inductionOnElements : ∀ elements : List JsonValue, ∀ element ∈ elements, motive element
  | [] => fun _ hmem ↦ absurd hmem List.not_mem_nil
  | element :: rest =>
    List.forall_mem_cons.mpr ⟨inductionOn element, inductionOnElements rest⟩

theorem inductionOnMembers :
    ∀ members : List (Str × JsonValue), ∀ member ∈ members, motive member.2
  | [] => fun _ hmem ↦ absurd hmem List.not_mem_nil
  | (_, value) :: rest =>
    List.forall_mem_cons.mpr ⟨inductionOn value, inductionOnMembers rest⟩

end

end Induction

/-! ### Properties -/

/-- The key of an index. -/
def indexKey (index : ℕ) : Str :=
  Json.printNumber index

/-- `Object.entries`: the own properties that are enumerated, in their order. -/
def properties : JsonValue → List (Str × JsonValue)
  | array elements => elements.mapIdx fun index element ↦ (indexKey index, element)
  | object members => members
  | string value => value.mapIdx fun index char ↦ (indexKey index, .string [char])
  | _ => []

/-- An array or an object. -/
def IsContainer : JsonValue → Prop
  | array _ => True
  | object _ => True
  | _ => False

instance : DecidablePred IsContainer := fun value ↦ by
  cases value <;> unfold IsContainer <;> infer_instance

/-- The value of an own property that is enumerated. -/
def own (value : JsonValue) (key : Str) : Option JsonValue :=
  Entries.find value.properties key

theorem indexKey_injective : Function.Injective indexKey := by
  intro first second heq
  rw [← Json.readDigits_printNumber first, ← Json.readDigits_printNumber second]
  exact congrArg _ heq

/-- The keys of an array are those of its indices. -/
theorem find_mapIdx_indexKey {α β : Type} (entries : List α) (f : α → β) (index : ℕ) :
    Entries.find (entries.mapIdx fun index entry ↦ (indexKey index, f entry)) (indexKey index) =
      (entries[index]?).map f := by
  have hfrom : ∀ start : ℕ, Entries.find (entries.mapIdx fun index entry ↦
      (indexKey (index + start), f entry)) (indexKey (index + start)) =
        (entries[index]?).map f := by
    induction entries generalizing index with
    | nil => exact fun _ ↦ rfl
    | cons entry rest ih =>
      intro start
      rw [List.mapIdx_cons, Entries.find_cons]
      cases index with
      | zero => exact if_pos rfl
      | succ index =>
        have hne : indexKey (index + 1 + start) ≠ indexKey (0 + start) := by
          intro heq
          have := indexKey_injective heq
          omega
        rw [if_neg hne, List.getElem?_cons_succ, ← ih index (start + 1)]
        simp only [Nat.add_assoc, Nat.add_comm 1 start]
  exact hfrom 0

theorem own_array (elements : List JsonValue) (index : ℕ) :
    own (array elements) (indexKey index) = elements[index]? := by
  have hfind := find_mapIdx_indexKey elements id index
  rwa [Option.map_id] at hfind

/-- What holds of a container if it holds of the values of its properties, and of the other values, holds of
all. -/
theorem inductionOnProperties {motive : JsonValue → Prop}
    (hplain : ∀ value : JsonValue, ¬ value.IsContainer → motive value)
    (hcontainer : ∀ value : JsonValue, value.IsContainer →
      (∀ member ∈ value.properties, motive member.2) → motive value) (value : JsonValue) :
    motive value := by
  refine inductionOn (hplain _ id) (fun _ ↦ hplain _ id) (fun _ ↦ hplain _ id) (fun _ ↦ hplain _ id)
    (fun elements helements ↦ hcontainer _ trivial ?_)
    (fun members hmembers ↦ hcontainer _ trivial hmembers) value
  intro member hmember
  obtain ⟨index, hindex, rfl⟩ := List.mem_mapIdx.mp hmember
  exact helements _ (List.getElem_mem hindex)

/-! ### Valid values -/

/-- No object has two properties with the same key. -/
inductive Valid : JsonValue → Prop
  | null : Valid .null
  | boolean (value : Bool) : Valid (.boolean value)
  | number (value : ℚ) : Valid (.number value)
  | string (value : Str) : Valid (.string value)
  | array {elements : List JsonValue} (helements : ∀ element ∈ elements, Valid element) :
    Valid (.array elements)
  | object {members : List (Str × JsonValue)} (hnodup : (members.map Prod.fst).Nodup)
    (hmembers : ∀ member ∈ members, Valid member.2) : Valid (.object members)

/-- Distinct keys of distinct indices. -/
theorem nodup_mapIdx_indexKey {α β : Type} (entries : List α) (f : α → β) :
    ((entries.mapIdx fun index entry ↦ (indexKey index, f entry)).map Prod.fst).Nodup := by
  rw [List.nodup_iff_injective_getElem]
  intro first second heq
  simp only [List.getElem_map, List.getElem_mapIdx] at heq
  exact Fin.ext (indexKey_injective heq)

theorem Valid.nodup_properties {value : JsonValue} (hvalid : value.Valid) :
    (value.properties.map Prod.fst).Nodup := by
  cases hvalid with
  | array => exact nodup_mapIdx_indexKey _ id
  | string value => exact nodup_mapIdx_indexKey value fun char ↦ JsonValue.string [char]
  | object hnodup hmembers => exact hnodup
  | _ => exact List.nodup_nil

/-- What is in a valid value is valid. -/
theorem Valid.of_mem_properties {value : JsonValue} (hvalid : value.Valid) {key : Str}
    {inner : JsonValue} (hmem : (key, inner) ∈ value.properties) : inner.Valid := by
  cases hvalid with
  | array helements =>
    obtain ⟨index, hindex, heq⟩ := List.mem_mapIdx.mp hmem
    obtain ⟨-, rfl⟩ := Prod.mk.inj heq
    exact helements _ (List.getElem_mem hindex)
  | string value =>
    obtain ⟨index, hindex, heq⟩ := List.mem_mapIdx.mp hmem
    obtain ⟨-, rfl⟩ := Prod.mk.inj heq
    exact .string _
  | object hnodup hmembers => exact hmembers _ hmem
  | _ => exact absurd hmem List.not_mem_nil

/-! ### Equality -/

/-- Two values have the same shape. -/
inductive Equal : JsonValue → JsonValue → Prop
  | null : Equal .null .null
  | boolean (value : Bool) : Equal (.boolean value) (.boolean value)
  | number (value : ℚ) : Equal (.number value) (.number value)
  | string (value : Str) : Equal (.string value) (.string value)
  | array {elements others : List JsonValue} (hlength : elements.length = others.length)
    (helements : ∀ (index : ℕ) (element other : JsonValue), elements[index]? = some element →
      others[index]? = some other → Equal element other) : Equal (.array elements) (.array others)
  | object {members others : List (Str × JsonValue)}
    (hkeys : ∀ key : Str, key ∈ members.map Prod.fst ↔ key ∈ others.map Prod.fst)
    (hmembers : ∀ (key : Str) (value other : JsonValue), (key, value) ∈ members →
      (key, other) ∈ others → Equal value other) : Equal (.object members) (.object others)

end JsonValue

/-- A value of JSON whose objects have distinct keys. -/
abbrev ValidJson := {value : JsonValue // value.Valid}

end Playground.Library
