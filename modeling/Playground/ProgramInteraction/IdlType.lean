import Playground.Library.JavaScript

/-!
# The types of an IDL

`IdlType` of `@coral-xyz/anchor`, as it is saved with the arguments of an instruction, and
`PgCommon.isEqual` of `client/src/utils/pg/common.ts`, by which saved types are compared with those of
the current IDL. `isEqual_toJs` says that two types are taken for equal exactly if they are.

Not formalized here: the values that no type contains, of which `isEqual` compares other things than
their keys, and the identity of two objects.
-/

set_option autoImplicit false
set_option relaxedAutoImplicit false

namespace Playground.PgProgramInteraction

open Library

/-- `IdlType`. -/
inductive IdlType
  | primitive (name : Str)
  | defined (name : Str)
  | option (inner : IdlType)
  | coption (inner : IdlType)
  | vec (inner : IdlType)
  | array (inner : IdlType) (length : ℕ)
  deriving DecidableEq

/-- The values of which a type is made. The keys of an array are its indices. -/
inductive JsValue
  | string (value : Str)
  | number (value : ℕ)
  | object (members : List (Str × JsValue))

/-- The value that a type is. -/
def IdlType.toJs : IdlType → JsValue
  | primitive name => .string name
  | defined name => .object [("defined".toList, .string name)]
  | option inner => .object [("option".toList, inner.toJs)]
  | coption inner => .object [("coption".toList, inner.toJs)]
  | vec inner => .object [("vec".toList, inner.toJs)]
  | array inner length =>
    .object [("array".toList, .object [(['0'], inner.toJs), (['1'], .number length)])]

/-- What an access to a key yields. -/
def JsValue.property (members : List (Str × JsValue)) (key : Str) : Option JsValue :=
  (members.find? fun member ↦ member.1 = key).map Prod.snd

mutual

/-- `PgCommon.isEqual`. -/
def isEqual : JsValue → JsValue → Bool
  | .string value1, .string value2 => value1 = value2
  | .number value1, .number value2 => value1 = value2
  | .object members1, .object members2 =>
    members1.length = members2.length && isEqualMembers members1 members2
  | _, _ => false

/-- The comparison of the values of all keys. -/
def isEqualMembers : List (Str × JsValue) → List (Str × JsValue) → Bool
  | [], _ => true
  | (key, value) :: rest, members2 =>
    (match JsValue.property members2 key with
      | some value2 => isEqual value value2
      | none => false) && isEqualMembers rest members2

end

/-- Two types are taken for equal exactly if they are. -/
theorem isEqual_toJs (type1 type2 : IdlType) :
    isEqual type1.toJs type2.toJs = true ↔ type1 = type2 := by
  induction type1 generalizing type2 with
  | primitive name =>
    cases type2 <;> simp [IdlType.toJs, isEqual]
  | defined name =>
    cases type2 <;> simp [IdlType.toJs, isEqual, isEqualMembers, JsValue.property]
  | option inner ih =>
    cases type2 <;> simp [IdlType.toJs, isEqual, isEqualMembers, JsValue.property, ih]
  | coption inner ih =>
    cases type2 <;> simp [IdlType.toJs, isEqual, isEqualMembers, JsValue.property, ih]
  | vec inner ih =>
    cases type2 <;> simp [IdlType.toJs, isEqual, isEqualMembers, JsValue.property, ih]
  | array inner length ih =>
    cases type2 <;> simp [IdlType.toJs, isEqual, isEqualMembers, JsValue.property, ih]

end Playground.PgProgramInteraction
