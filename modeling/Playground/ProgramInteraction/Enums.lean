import Playground.Common.CamelCase
import Playground.ProgramInteraction.Structs

/-!
# Enum values

A value of an enum of an IDL is given by the name of a variant, or as `{ name: { field: value, … } }` or
`{ name: [value, …] }` (`client/src/utils/pg/program-interaction/idl-types.ts`). `parse` makes an object of it
whose only key is the name in camel case, and `toBuffer` finds the variant by this key.

The name alone is accepted for every variant, although only one without fields has a value then. The key
is converted to camel case once more when the variant is looked up, but not when its index is, and the index
has one byte. And as in a struct a field may be listed twice while another one is missing.
`encodesVariant_iff` says of which texts the bytes are the index of the variant and the encodings of all of
its fields.

How the fields are parsed and encoded, and what objects inherit, are parameters. Not formalized here: an IDL
that has a type named `__`, which would be taken for the fields of a variant.
-/

set_option autoImplicit false
set_option relaxedAutoImplicit false

namespace Playground.PgProgramInteraction

open Library PgCommon

/-! ### The text of a variant with fields -/

/-- A character that ends a line, which is not matched by a dot. -/
def isLineTerminator (char : Char) : Bool :=
  [0xA, 0xD, 0x2028, 0x2029].contains char.toNat

/-- The class `[\]|}]`. -/
def isClosing (char : Char) : Bool :=
  char = ']' || char = '|' || char = '}'

/-- The longest match of `.+[\]|}]` at the beginning of a text. -/
def matchClosed (text : Str) : Option Str :=
  let matched := ((text.takeWhile (!isLineTerminator ·)).reverse.dropWhile (!isClosing ·)).reverse
  if 2 ≤ matched.length then some matched else none

/-- The first match of `\s+(.+[\]|}])` at the beginning of a text, with as many blanks as possible. -/
def matchValue (text : Str) : Option Str :=
  let blanks := (text.takeWhile isSpaceChar).length
  (List.range blanks).findSome? fun fewer ↦ matchClosed (text.drop (blanks - fewer))

/-- The first match of `(\S+)(\s*)?:\s+(.+[\]|}])` at the beginning of a text, with a name as long as possible:
the first and the last group. -/
def matchNameAndValue (text : Str) : Option (Str × Str) :=
  let longest := (text.takeWhile (!isSpaceChar ·)).length
  (List.range longest).findSome? fun fewer ↦
    match (text.drop (longest - fewer)).dropWhile isSpaceChar with
    | ':' :: rest => (matchValue rest).map fun value ↦ (text.take (longest - fewer), value)
    | _ => none

/-- `parsedKeyValue`: the match that begins first. -/
def parsedKeyValue (text : Str) : Option (Str × Str) :=
  text.tails.findSome? matchNameAndValue

/-! ### Variants -/

/-- The fields of `IdlEnumVariant`. -/
inductive EnumFields
  | none
  | named (fields : List Field)
  | tuple (types : List IdlType)

/-- `IdlEnumVariant`. -/
structure IdlEnumVariant where
  name : Str
  fields : EnumFields

/-- What `handleVariant` takes a variant for. Named fields of which the first name is empty are taken for
types, and there are no such types. -/
inductive VariantKind
  | unit
  | named (fields : List Field)
  | tuple (types : List IdlType)
  | unknown

/-- `handleVariant`. -/
def IdlEnumVariant.kind (variant : IdlEnumVariant) : VariantKind :=
  match variant.fields with
  | .none => .unit
  | .named [] => .unit
  | .tuple [] => .unit
  | .named (first :: rest) => if first.name = [] then .unknown else .named (first :: rest)
  | .tuple types => .tuple types

/-- The types of the fields of a variant. -/
def VariantKind.types : VariantKind → List IdlType
  | .named fields => fields.map Field.type
  | .tuple types => types
  | .unit | .unknown => []

/-- An enum whose variants have distinct names in camel case, and whose variants with named fields have
distinct names of fields. -/
structure EnumType where
  variants : List IdlEnumVariant
  distinct : (variants.map fun variant ↦ toCamelCase variant.name).Nodup
  distinctFields : ∀ variant ∈ variants, ∀ fields, variant.kind = .named fields →
    (fields.map Field.name).Nodup

/-- What a variant is parsed to. A name alone, and a variant without fields, are parsed to an object without
properties. -/
inductive VariantValue (V : Type)
  | record (object : PlainObject V)
  | tuple (elements : List V)

/-- What is parsed: an object with one key. -/
structure EnumValue (V : Type) where
  key : Str
  value : VariantValue V

/-- The two ways to write a value. -/
inductive Spelling
  | byName (text : Str)
  | braced (name value : Str)

/-- The name by which the variant is looked up. -/
def Spelling.variantName : Spelling → Str
  | .byName text => text
  | .braced name _ => toCamelCase name

/-- The key of what is parsed. -/
def Spelling.key : Spelling → Str
  | .byName text => toCamelCase text
  | .braced name _ => toCamelCase name

namespace EnumType

variable {V : Type}

/-- The index of the variant of a name. -/
def findVariant (enum : EnumType) (variantName : Str) : Option ℕ :=
  enum.variants.findIdx? fun variant ↦ toCamelCase variant.name = toCamelCase variantName

/-- `getVariant`. -/
def getVariant (enum : EnumType) (variantName : Str) : Except Str IdlEnumVariant :=
  match enum.variants.find? fun variant ↦ toCamelCase variant.name = toCamelCase variantName with
  | some variant => .ok variant
  | none => .error ("Variant \x60".toList ++ variantName ++ "\x60 not found".toList)

/-- How a text is written: as a name, if there is such a variant, or with a name and a value in braces. -/
def spelling (enum : EnumType) (text : Str) : Except Str Spelling :=
  match enum.getVariant text with
  | .ok _ => .ok (.byName text)
  | .error _ =>
    if ¬ StructType.IsBraced text then .error "Not an object".toList
    else
      match parsedKeyValue (text.drop 1).dropLast with
      | none => .error "Unable to parse input".toList
      | some (name, value) =>
        if value.head? ≠ some '{' ∧ value.head? ≠ some '[' then .error "Unable to parse".toList
        else .ok (.braced name value)

/-- What is thrown for a type that is none. -/
def unknownType : Str :=
  "Unknown IDL type: [object Object]".toList

/-- The elements of the value of a tuple variant. -/
def inputElements (value : Str) : List Str :=
  (value.drop 1).dropLast.splitOn ','

section

variable (getIdlType : IdlType → PgIdlType V) (inherited : List V → Str → Option V)

/-- The value of a variant is parsed. -/
def parseKind (value : Str) : VariantKind → Except Str (VariantValue V)
  | .unit => .ok (.record PlainObject.empty)
  | .named fields => (StructType.parse getIdlType fields value).map .record
  | .tuple types =>
    if (inputElements value).length ≠ types.length then .error "Tuple length doesn't match".toList
    else
      ((types.zip (inputElements value)).mapM fun element ↦
        (getIdlType element.1).parse (some (trim element.2))).map .tuple
  | .unknown => .error unknownType

/-- `parse` of an enum. -/
def parse (enum : EnumType) (text : Str) : Except Str (EnumValue V) := do
  let spelling ← enum.spelling text
  let variant ← enum.getVariant spelling.variantName
  match spelling with
  | .byName _ => pure ⟨spelling.key, .record PlainObject.empty⟩
  | .braced _ value => do
    let parsedValue ← parseKind getIdlType value variant.kind
    pure ⟨spelling.key, parsedValue⟩

/-- The value of a property, which may be inherited. -/
def readProperty (value : VariantValue V) (name : Str) : Option V :=
  match value with
  | .record object => (Entries.find object.properties name).or (inherited object.prototypes name)
  | .tuple elements =>
    if Json.printNumber (Json.readDigits name) = name then elements[Json.readDigits name]?
    else inherited [] name

/-- The bytes of the fields of a variant. -/
def encodeKind (value : VariantValue V) : VariantKind → Except Str (List UInt8)
  | .unit => .ok []
  | .named fields => do
    let buffers ← fields.mapM fun field ↦
      (getIdlType field.type).toBuffer (readProperty inherited value field.name)
    pure buffers.flatten
  | .tuple types => do
    let buffers ← types.zipIdx.mapM fun type ↦
      (getIdlType type.1).toBuffer (readProperty inherited value (Json.printNumber type.2))
    pure buffers.flatten
  | .unknown => .error unknownType

/-- The byte of the index of the variant whose name in camel case is the key, or that of `-1`. -/
def discriminant (enum : EnumType) (key : Str) : UInt8 :=
  match enum.variants.findIdx? fun variant ↦ toCamelCase variant.name = key with
  | some index => UInt8.ofNat index
  | none => 255

/-- `toBuffer` of an enum. -/
def toBuffer (enum : EnumType) (value : EnumValue V) : Except Str (List UInt8) := do
  let variant ← enum.getVariant value.key
  let data ← encodeKind getIdlType inherited value.value variant.kind
  pure (enum.discriminant value.key :: data)

/-! ### The fields of a variant in the text -/

/-- The bytes of an element of a tuple with the value that its text gives to it. -/
def encodeElement (element : IdlType × Str) : Except Str (List UInt8) := do
  let value ← (getIdlType element.1).parse (some (trim element.2))
  (getIdlType element.1).toBuffer (some value)

/-- The encodings of the fields of a variant with the values that a text gives to them, in the declared
order. A name gives no values. -/
def encodeGiven : Spelling → VariantKind → Except Str (List UInt8)
  | _, .unit => .ok []
  | .braced _ value, .named fields => StructType.encodeFields getIdlType fields value (fields.map Field.name)
  | .braced _ value, .tuple types => do
    let buffers ← (types.zip (inputElements value)).mapM (encodeElement getIdlType)
    pure buffers.flatten
  | _, _ => .error "The fields are missing".toList

/-- The text lists all fields of a variant with named ones. -/
def ListsFields : Spelling → VariantKind → Prop
  | .braced _ value, .named fields => ∀ field ∈ fields, field.name ∈ StructType.inputKeys value
  | _, _ => True

/-- If a text is parsed, then what is parsed is serialized, and its bytes are the index of the variant and
the encodings of all of its fields in the declared order. -/
def EncodesVariant (enum : EnumType) (text : Str) : Prop :=
  ∀ value, parse getIdlType enum text = .ok value → ∃ spelling index variant data,
    enum.spelling text = .ok spelling ∧ enum.findVariant spelling.variantName = some index ∧
      enum.variants[index]? = some variant ∧ index < 256 ∧ ListsFields spelling variant.kind ∧
        encodeGiven getIdlType spelling variant.kind = .ok data ∧
          toBuffer getIdlType inherited enum value = .ok (UInt8.ofNat index :: data)

/-- What is parsed as a field of an enum can be serialized. -/
def EncodableFields (enum : EnumType) : Prop :=
  ∀ variant ∈ enum.variants, ∀ type ∈ variant.kind.types, ∀ text value,
    (getIdlType type).parse text = .ok value → ∃ bytes, (getIdlType type).toBuffer (some value) = .ok bytes

/-- What has been assigned to a property with the name `__proto__` can be read back. -/
def ReadsBack (value : Str) (fields : List Field) : Prop :=
  ∀ field ∈ fields, field.name = PlainObject.protoName → ∀ parsed,
    (getIdlType field.type).parse
        ((Entries.find (StructType.inputFields value) field.name).getD none) = .ok parsed →
      (getIdlType field.type).toBuffer (inherited [parsed] field.name) =
        (getIdlType field.type).toBuffer (some parsed)

/-- The fields of a variant have no bytes when no values are given to them. -/
def HasNoBytes : VariantKind → Prop
  | .unit => True
  | .named fields => ∀ field ∈ fields, (getIdlType field.type).toBuffer (inherited [] field.name) = .ok []
  | .tuple types => ∀ type ∈ types.zipIdx,
      (getIdlType type.1).toBuffer (inherited [] (Json.printNumber type.2)) = .ok []
  | .unknown => False

/-- A name is a value of the variant: it has no fields, and the variant that is found by the name in camel
case has no bytes without values. -/
def IsUnitName (enum : EnumType) (variant : IdlEnumVariant) (key : Str) : Prop :=
  variant.kind = .unit ∧ ∃ other, enum.getVariant key = .ok other ∧
    HasNoBytes getIdlType inherited other.kind

/-- What is listed in braces is a value of the variant: no field is listed twice, and the index of the
variant is found by the name in camel case. -/
def IsFullValue (enum : EnumType) (variant : IdlEnumVariant) (index : ℕ) (key value : Str) : Prop :=
  enum.discriminant key = UInt8.ofNat index ∧ ∀ fields, variant.kind = .named fields →
    (StructType.inputKeys value).Nodup ∧ ReadsBack getIdlType inherited value fields

/-- The condition on a text that is parsed under which its bytes are those of the variant. -/
def IsEncodable (enum : EnumType) (text : Str) : Prop :=
  (∃ value, parse getIdlType enum text = .ok value) → ∃ spelling index variant,
    enum.spelling text = .ok spelling ∧ enum.findVariant spelling.variantName = some index ∧
      enum.variants[index]? = some variant ∧ index < 256 ∧
        (spelling = .byName text → IsUnitName getIdlType inherited enum variant spelling.key) ∧
        ∀ name value, spelling = .braced name value →
          IsFullValue getIdlType inherited enum variant index spelling.key value

end

/-! ### Looking up variants -/

section

variable {enum : EnumType} {variantName text : Str} {variant : IdlEnumVariant} {spelling : Spelling}

/-- A variant is found at its index. -/
theorem getVariant_eq_ok : enum.getVariant variantName = .ok variant ↔
    ∃ index, enum.findVariant variantName = some index ∧ enum.variants[index]? = some variant := by
  have hfind : enum.variants.find?
        (fun variant ↦ toCamelCase variant.name = toCamelCase variantName) = some variant ↔
      ∃ index, enum.findVariant variantName = some index ∧ enum.variants[index]? = some variant := by
    rw [List.find?_eq_bind_findIdx?_getElem?]
    exact Option.bind_eq_some_iff
  rw [← hfind]
  unfold getVariant
  split
  · next found hfound => rw [hfound, Option.some.injEq, Except.ok.injEq]
  · next hnone => rw [hnone]; simp

/-- A text is a name or has braces. -/
theorem spelling_cases (hspelling : enum.spelling text = .ok spelling) :
    spelling = .byName text ∨ ∃ name value, spelling = .braced name value := by
  unfold EnumType.spelling at hspelling
  split at hspelling
  · exact .inl (Except.ok.inj hspelling).symm
  · split at hspelling
    · cases hspelling
    · split at hspelling
      · cases hspelling
      · next name value _ =>
        split at hspelling
        · cases hspelling
        · exact .inr ⟨name, value, (Except.ok.inj hspelling).symm⟩

/-- The index of a variant whose name in camel case is the key. -/
theorem discriminant_eq {index : ℕ} {key : Str} (hfind : enum.findVariant variantName = some index)
    (hkey : toCamelCase variantName = key) : enum.discriminant key = UInt8.ofNat index := by
  subst hkey
  rw [findVariant] at hfind
  rw [discriminant, hfind]

end

/-! ### What is parsed -/

section Parsed

variable {getIdlType : IdlType → PgIdlType V} {inherited : List V → Str → Option V}
  {enum : EnumType} {text : Str} {value : EnumValue V}

/-- What a text is parsed to. -/
theorem parse_eq_ok (hparse : parse getIdlType enum text = .ok value) :
    ∃ spelling variant, enum.spelling text = .ok spelling ∧
      enum.getVariant spelling.variantName = .ok variant ∧ value.key = spelling.key ∧
        ((spelling = .byName text ∧ value.value = .record PlainObject.empty) ∨
          ∃ name input, spelling = .braced name input ∧
            parseKind getIdlType input variant.kind = .ok value.value) := by
  obtain ⟨spelling, hspelling, hparse⟩ := Except.bind_eq_ok.mp hparse
  obtain ⟨variant, hvariant, hparse⟩ := Except.bind_eq_ok.mp hparse
  refine ⟨spelling, variant, hspelling, hvariant, ?_⟩
  rcases spelling_cases hspelling with rfl | ⟨name, input, rfl⟩
  · obtain rfl := Except.ok.inj hparse
    exact ⟨rfl, .inl ⟨rfl, rfl⟩⟩
  · obtain ⟨parsed, hparsed, hparse⟩ := Except.bind_eq_ok.mp hparse
    obtain rfl := Except.ok.inj hparse
    exact ⟨rfl, .inr ⟨name, input, rfl, hparsed⟩⟩

/-- The bytes of a value are those of the variant that is found by its key. -/
theorem toBuffer_eq_ok {bytes : List UInt8} :
    toBuffer getIdlType inherited enum value = .ok bytes ↔ ∃ variant data,
      enum.getVariant value.key = .ok variant ∧
        encodeKind getIdlType inherited value.value variant.kind = .ok data ∧
          enum.discriminant value.key :: data = bytes := by
  unfold toBuffer
  constructor
  · intro hbuffer
    obtain ⟨variant, hvariant, hbuffer⟩ := Except.bind_eq_ok.mp hbuffer
    obtain ⟨data, hdata, hbuffer⟩ := Except.bind_eq_ok.mp hbuffer
    exact ⟨variant, data, hvariant, hdata, Except.ok.inj hbuffer⟩
  · rintro ⟨variant, data, hvariant, hdata, rfl⟩
    exact Except.bind_eq_ok.mpr ⟨variant, hvariant, Except.bind_eq_ok.mpr ⟨data, hdata, rfl⟩⟩

/-! ### Tuple variants -/

/-- The elements of a tuple are encoded in their places. -/
theorem mapM_zipIdx_eq {types : List IdlType} {elements : List Str} {parsed : List V}
    {read : ℕ → Option V} {start : ℕ} (hlength : elements.length = types.length)
    (hparsed : (types.zip elements).mapM
      (fun element ↦ (getIdlType element.1).parse (some (trim element.2))) = .ok parsed)
    (hread : ∀ place, read (start + place) = parsed[place]?) :
    (types.zipIdx start).mapM (fun type ↦ (getIdlType type.1).toBuffer (read type.2)) =
      (types.zip elements).mapM (encodeElement getIdlType) := by
  induction types generalizing elements parsed start with
  | nil => rfl
  | cons type rest ih =>
    cases elements with
    | nil => cases hlength
    | cons element others =>
      rw [List.zip_cons_cons, List.mapM_cons] at hparsed
      obtain ⟨first, hfirst, hparsed⟩ := Except.bind_eq_ok.mp hparsed
      obtain ⟨more, hmore, hparsed⟩ := Except.bind_eq_ok.mp hparsed
      obtain rfl := Except.ok.inj hparsed
      have hhead : read start = some first := hread 0
      have htail : ∀ place, read (start + 1 + place) = more[place]? := by
        intro place
        rw [Nat.add_assoc, Nat.add_comm 1 place]
        exact hread (place + 1)
      rw [List.zipIdx_cons, List.zip_cons_cons, List.mapM_cons, List.mapM_cons,
        ih (Nat.succ.inj hlength) hmore htail, hhead, encodeElement, hfirst]
      rfl

theorem encodeKind_tuple {types : List IdlType} {name input : Str} {parsed : VariantValue V}
    (hparse : parseKind getIdlType input (.tuple types) = .ok parsed) :
    encodeKind getIdlType inherited parsed (.tuple types) =
      encodeGiven getIdlType (.braced name input) (.tuple types) := by
  rw [parseKind] at hparse
  split at hparse
  · cases hparse
  · next hlength =>
    cases helements : (types.zip (inputElements input)).mapM fun element ↦
        (getIdlType element.1).parse (some (trim element.2)) with
    | error message =>
      rw [helements] at hparse
      cases hparse
    | ok elements =>
      rw [helements] at hparse
      obtain rfl := Except.ok.inj hparse
      let read : ℕ → Option V := fun place ↦
        readProperty inherited (.tuple elements) (Json.printNumber place)
      have hread : ∀ place, read (0 + place) = elements[place]? := by
        intro place
        show readProperty inherited (.tuple elements) (Json.printNumber (0 + place)) = _
        rw [Nat.zero_add, readProperty, Json.readDigits_printNumber, if_pos rfl]
      have hbuffers := mapM_zipIdx_eq (not_ne_iff.mp hlength) helements hread
      rw [encodeKind, encodeGiven, ← hbuffers]

/-! ### Variants with named fields -/

section Named

variable {fields : List Field} {name input : Str} {object : PlainObject V}

/-- A field is found by its name. -/
theorem findField_of_mem (hdistinct : (fields.map Field.name).Nodup) {field : Field}
    (hmem : field ∈ fields) : StructType.findField fields field.name = .ok field := by
  have hfind : fields.find? (fun other ↦ other.name = field.name) = some field := by
    obtain ⟨before, after, rfl⟩ := List.append_of_mem hmem
    rw [List.map_append, List.map_cons, List.nodup_append] at hdistinct
    refine List.find?_eq_some_iff_append.mpr ⟨decide_eq_true rfl, before, after, rfl, fun other hother ↦ ?_⟩
    rw [Bool.not_eq_true', decide_eq_false_iff_not]
    exact hdistinct.2.2 _ (List.mem_map_of_mem hother) _ List.mem_cons_self
  unfold StructType.findField
  rw [hfind]

/-- The bytes of a field with a value that has been parsed are those that the text gives. -/
theorem encodeField_of_parsedFrom (hdistinct : (fields.map Field.name).Nodup)
    (hnodup : (StructType.inputKeys input).Nodup) {field : Field} (hmem : field ∈ fields) {parsed : V}
    (hfrom : StructType.ParsedFrom getIdlType fields (StructType.inputFields input)
      (field.name, parsed)) :
    (getIdlType field.type).parse
        ((Entries.find (StructType.inputFields input) field.name).getD none) = .ok parsed ∧
      StructType.encodeField getIdlType fields input field.name =
        (getIdlType field.type).toBuffer (some parsed) := by
  obtain ⟨part, hpart, hname, other, hother, hparsed⟩ := hfrom
  have hpair : (field.name, part.2) ∈ StructType.inputFields input := by
    rw [← show part.1 = field.name from hname]
    exact hpart
  rw [hname, findField_of_mem hdistinct hmem] at hother
  obtain rfl := Except.ok.inj hother
  have hfind : Entries.find (StructType.inputFields input) field.name = some part.2 :=
    (Entries.find_eq_some_iff hnodup).mpr hpair
  rw [StructType.encodeField, findField_of_mem hdistinct hmem, hfind]
  refine ⟨hparsed, ?_⟩
  show ((getIdlType field.type).parse part.2 >>= _) = _
  rw [hparsed]
  rfl

/-- A field that is listed has been parsed from the text. This value is read, unless the field is called
`__proto__`: then what is read is inherited from the value. -/
theorem readProperty_of_parse (inherited : List V → Str → Option V)
    (hparse : StructType.parse getIdlType fields input = .ok object)
    (hnodup : (StructType.inputKeys input).Nodup) {key : Str}
    (hlisted : key ∈ StructType.inputKeys input) :
    ∃ parsed, StructType.ParsedFrom getIdlType fields (StructType.inputFields input) (key, parsed) ∧
      readProperty inherited (.record object) key =
        if key = PlainObject.protoName then inherited [parsed] key else some parsed := by
  obtain ⟨-, -, hkeys, hproperties⟩ := StructType.parse_eq_ok hparse
  by_cases hproto : key = PlainObject.protoName
  · have hnone : Entries.find object.properties key = none := by
      rw [Entries.find_eq_none_iff, ← PlainObject.keys, hkeys, PlainObject.mem_enumerate]
      exact fun hboth ↦ hboth.2 hproto
    obtain ⟨hlength, hfrom⟩ :=
      StructType.prototypes_foldlM_addField (StructType.foldlM_of_parse hparse).1
    have hone : object.prototypes.length = 1 := by
      rw [hlength, ← hproto]
      exact (Nat.zero_add _).trans (List.count_eq_one_of_mem hnodup hlisted)
    obtain ⟨parsed, hprototypes⟩ := List.length_eq_one_iff.mp hone
    rw [hprototypes, ← hproto] at hfrom
    refine ⟨parsed, (hfrom parsed List.mem_cons_self).resolve_left List.not_mem_nil, ?_⟩
    rw [readProperty, hnone, Option.none_or, hprototypes, if_pos hproto]
  · have hkey : key ∈ object.properties.map Prod.fst := by
      rw [← PlainObject.keys, hkeys, PlainObject.mem_enumerate]
      exact ⟨hlisted, hproto⟩
    obtain ⟨parsed, hfind⟩ := Entries.find_isSome_iff.mpr hkey
    refine ⟨parsed, hproperties _ (Entries.mem_of_find hfind), ?_⟩
    rw [readProperty, hfind, Option.some_or, if_neg hproto]

/-- A text that is parsed lists all fields exactly if it lists none twice. -/
theorem forall_mem_inputKeys_iff_nodup (hdistinct : (fields.map Field.name).Nodup)
    (hparse : StructType.parse getIdlType fields input = .ok object) :
    (∀ field ∈ fields, field.name ∈ StructType.inputKeys input) ↔
      (StructType.inputKeys input).Nodup := by
  constructor
  · intro hlists
    obtain ⟨hlength, -, -, -⟩ := StructType.parse_eq_ok hparse
    have hsubset : fields.map Field.name ⊆ StructType.inputKeys input := by
      intro key hkey
      obtain ⟨field, hfield, rfl⟩ := List.mem_map.mp hkey
      exact hlists field hfield
    have hperm : (fields.map Field.name).Perm (StructType.inputKeys input) :=
      (hdistinct.subperm hsubset).perm_of_length_le (by rw [List.length_map, hlength])
    exact hperm.nodup_iff.mp hdistinct
  · intro hnodup field hfield
    have hcount := (StructType.count_eq_one_iff_nodup hdistinct hparse).mpr hnodup field hfield
    exact List.count_pos_iff.mp (hcount ▸ Nat.one_pos)

/-- The bytes of what is read of a field are those that the text gives to it, if the field is not called
`__proto__` or its value can be read back. -/
theorem toBuffer_readProperty (hdistinct : (fields.map Field.name).Nodup)
    (hparse : StructType.parse getIdlType fields input = .ok object)
    (hnodup : (StructType.inputKeys input).Nodup) {field : Field} (hfield : field ∈ fields)
    (hback : field.name = PlainObject.protoName → ReadsBack getIdlType inherited input fields) :
    (getIdlType field.type).toBuffer (readProperty inherited (.record object) field.name) =
      StructType.encodeField getIdlType fields input field.name := by
  have hlisted := (forall_mem_inputKeys_iff_nodup hdistinct hparse).mpr hnodup field hfield
  obtain ⟨parsed, hfrom, hread⟩ := readProperty_of_parse inherited hparse hnodup hlisted
  obtain ⟨hparsed, hencode⟩ := encodeField_of_parsedFrom hdistinct hnodup hfield hfrom
  rw [hread, hencode]
  split
  · next hproto => exact hback hproto field hfield hproto parsed hparsed
  · rfl

/-- The fields are encoded in the declared order, if a field that is called `__proto__` can be read back. -/
theorem encodeKind_named (hdistinct : (fields.map Field.name).Nodup)
    (hparse : StructType.parse getIdlType fields input = .ok object)
    (hnodup : (StructType.inputKeys input).Nodup)
    (hback : ReadsBack getIdlType inherited input fields) :
    encodeKind getIdlType inherited (.record object) (.named fields) =
      encodeGiven getIdlType (.braced name input) (.named fields) := by
  rw [encodeKind, encodeGiven, StructType.encodeFields, List.mapM_map]
  rw [Except.mapM_congr fun field hfield ↦
    toBuffer_readProperty hdistinct hparse hnodup hfield fun _ ↦ hback]
  rfl

/-- If the fields are encoded in the declared order, then a field that is called `__proto__` can be read
back. -/
theorem readsBack_of_encodeKind (hdistinct : (fields.map Field.name).Nodup)
    (hparse : StructType.parse getIdlType fields input = .ok object)
    (hnodup : (StructType.inputKeys input).Nodup) {data : List UInt8}
    (hkind : encodeKind getIdlType inherited (.record object) (.named fields) = .ok data)
    (hgiven : encodeGiven getIdlType (.braced name input) (.named fields) = .ok data) :
    ReadsBack getIdlType inherited input fields := by
  intro field hfield hproto value hvalue
  obtain ⟨buffers, hbuffers, hflatten⟩ := Except.bind_eq_ok.mp hkind
  obtain ⟨others, hothers, hothersFlatten⟩ := Except.bind_eq_ok.mp hgiven
  rw [List.mapM_map] at hothers
  have hsame : buffers.flatten = others.flatten :=
    (Except.ok.inj hflatten).trans (Except.ok.inj hothersFlatten).symm
  obtain ⟨before, after, hsplit⟩ := List.append_of_mem hfield
  have hrest : ∀ other ∈ fields, other.name ≠ field.name →
      (getIdlType other.type).toBuffer (readProperty inherited (.record object) other.name) =
        StructType.encodeField getIdlType fields input other.name := by
    intro other hother hne
    refine toBuffer_readProperty hdistinct hparse hnodup hother fun heq ↦ ?_
    exact absurd (heq.trans hproto.symm) hne
  have hnames := hdistinct
  rw [hsplit, List.map_append, List.map_cons, List.nodup_append, List.nodup_cons] at hnames
  obtain ⟨-, ⟨hafter, -⟩, hbefore⟩ := hnames
  have hentry : (getIdlType field.type).toBuffer (readProperty inherited (.record object) field.name) =
      StructType.encodeField getIdlType fields input field.name := by
    refine Except.eq_of_flatten_mapM hsplit (fun other hother ↦ ?_) (fun other hother ↦ ?_) hbuffers
      hothers hsame
    · refine hrest other (hsplit ▸ List.mem_append_left _ hother) fun heq ↦ ?_
      exact hbefore _ (List.mem_map_of_mem hother) _ List.mem_cons_self heq
    · refine hrest other (hsplit ▸ List.mem_append_right _ (List.mem_cons_of_mem _ hother)) fun heq ↦ ?_
      exact hafter (heq ▸ List.mem_map_of_mem hother)
  have hlisted := (forall_mem_inputKeys_iff_nodup hdistinct hparse).mpr hnodup field hfield
  obtain ⟨parsed, hfrom, hread⟩ := readProperty_of_parse inherited hparse hnodup hlisted
  obtain ⟨hparsed, hencode⟩ := encodeField_of_parsedFrom hdistinct hnodup hfield hfrom
  obtain rfl : parsed = value := Except.ok.inj (hparsed.symm.trans hvalue)
  rw [hread, hencode, if_pos hproto] at hentry
  exact hentry

end Named

/-! ### All kinds of variants -/

section

variable {kind : VariantKind} {name input : Str} {parsed : VariantValue V}

/-- What named fields are parsed to. -/
theorem parseKind_named {fields : List Field} (hparse : parseKind getIdlType input (.named fields) = .ok parsed) :
    ∃ object, StructType.parse getIdlType fields input = .ok object ∧ parsed = .record object := by
  rw [parseKind] at hparse
  cases hobject : StructType.parse getIdlType fields input with
  | error message =>
    rw [hobject] at hparse
    cases hparse
  | ok object =>
    rw [hobject] at hparse
    exact ⟨object, rfl, (Except.ok.inj hparse).symm⟩

/-- The bytes of what has been parsed are those that the text gives to the fields, if no field is listed
twice. -/
theorem encodeKind_of_parseKind
    (hdistinct : ∀ fields, kind = .named fields → (fields.map Field.name).Nodup)
    (hparse : parseKind getIdlType input kind = .ok parsed)
    (hfull : ∀ fields, kind = .named fields →
      (StructType.inputKeys input).Nodup ∧ ReadsBack getIdlType inherited input fields) :
    encodeKind getIdlType inherited parsed kind = encodeGiven getIdlType (.braced name input) kind := by
  cases kind with
  | unit => rfl
  | named fields =>
    obtain ⟨object, hobject, rfl⟩ := parseKind_named hparse
    obtain ⟨hnodup, hback⟩ := hfull fields rfl
    exact encodeKind_named (hdistinct fields rfl) hobject hnodup hback
  | tuple types => exact encodeKind_tuple hparse
  | unknown => cases hparse

/-- If the bytes of what has been parsed are those that the text gives to the fields, and all of them are
listed, then none is listed twice. -/
theorem isFull_of_encodeKind
    (hdistinct : ∀ fields, kind = .named fields → (fields.map Field.name).Nodup)
    (hparse : parseKind getIdlType input kind = .ok parsed)
    (hlists : ListsFields (.braced name input) kind) {data : List UInt8}
    (hkind : encodeKind getIdlType inherited parsed kind = .ok data)
    (hgiven : encodeGiven getIdlType (.braced name input) kind = .ok data) {fields : List Field}
    (hfields : kind = .named fields) :
    (StructType.inputKeys input).Nodup ∧ ReadsBack getIdlType inherited input fields := by
  subst hfields
  obtain ⟨object, hobject, rfl⟩ := parseKind_named hparse
  have hnames := hdistinct fields rfl
  have hnodup := (forall_mem_inputKeys_iff_nodup hnames hobject).mp hlists
  exact ⟨hnodup, readsBack_of_encodeKind hnames hobject hnodup hkind hgiven⟩

/-- If no field is listed twice, then all of them are listed. -/
theorem listsFields_of_parseKind
    (hdistinct : ∀ fields, kind = .named fields → (fields.map Field.name).Nodup)
    (hparse : parseKind getIdlType input kind = .ok parsed)
    (hnodup : ∀ fields, kind = .named fields → (StructType.inputKeys input).Nodup) :
    ListsFields (.braced name input) kind := by
  cases kind with
  | named fields =>
    obtain ⟨object, hobject, rfl⟩ := parseKind_named hparse
    exact (forall_mem_inputKeys_iff_nodup (hdistinct fields rfl) hobject).mpr (hnodup fields rfl)
  | unit | tuple types | unknown => trivial

/-- An object without properties has the bytes of fields without values. -/
theorem encodeKind_empty : encodeKind getIdlType inherited (.record PlainObject.empty) kind = .ok [] ↔
    HasNoBytes getIdlType inherited kind := by
  cases kind with
  | unit => exact iff_of_true rfl trivial
  | named fields => exact Except.flatten_mapM_eq_nil
  | tuple types => exact Except.flatten_mapM_eq_nil
  | unknown => exact iff_of_false nofun id

/-- All fields that are listed are encoded, if what is parsed can be encoded. -/
theorem exists_encodeGiven
    (hencodable : ∀ type ∈ kind.types, ∀ text value, (getIdlType type).parse text = .ok value →
      ∃ bytes, (getIdlType type).toBuffer (some value) = .ok bytes)
    (hdistinct : ∀ fields, kind = .named fields → (fields.map Field.name).Nodup)
    (hparse : parseKind getIdlType input kind = .ok parsed)
    (hnodup : ∀ fields, kind = .named fields → (StructType.inputKeys input).Nodup) :
    ∃ data, encodeGiven getIdlType (.braced name input) kind = .ok data := by
  cases kind with
  | unit => exact ⟨[], rfl⟩
  | named fields =>
    obtain ⟨object, hobject, rfl⟩ := parseKind_named hparse
    have hnames := hdistinct fields rfl
    have hkeys := hnodup fields rfl
    have hbuffers : ∀ key ∈ fields.map Field.name, ∃ bytes,
        StructType.encodeField getIdlType fields input key = .ok bytes := by
      intro key hkey
      obtain ⟨field, hfield, rfl⟩ := List.mem_map.mp hkey
      have hlisted := (forall_mem_inputKeys_iff_nodup hnames hobject).mpr hkeys field hfield
      obtain ⟨value, hfrom, -⟩ :=
        readProperty_of_parse (fun _ _ ↦ none) hobject hkeys hlisted
      obtain ⟨hvalue, hencode⟩ := encodeField_of_parsedFrom hnames hkeys hfield hfrom
      obtain ⟨bytes, hbytes⟩ := hencodable _ (List.mem_map_of_mem hfield) _ _ hvalue
      exact ⟨bytes, hencode.trans hbytes⟩
    obtain ⟨buffers, hbuffers⟩ := Except.exists_mapM_eq_ok hbuffers
    exact ⟨buffers.flatten, Except.bind_eq_ok.mpr ⟨buffers, hbuffers, rfl⟩⟩
  | tuple types =>
    rw [parseKind] at hparse
    split at hparse
    · cases hparse
    · cases helements : (types.zip (inputElements input)).mapM fun element ↦
          (getIdlType element.1).parse (some (trim element.2)) with
      | error message =>
        rw [helements] at hparse
        cases hparse
      | ok elements =>
        have hbuffers : ∀ element ∈ types.zip (inputElements input), ∃ bytes,
            encodeElement getIdlType element = .ok bytes := by
          intro element helement
          obtain ⟨value, -, hvalue⟩ := Except.exists_of_mapM helements helement
          obtain ⟨bytes, hbytes⟩ := hencodable _ (List.of_mem_zip helement).1 _ _ hvalue
          exact ⟨bytes, Except.bind_eq_ok.mpr ⟨value, hvalue, hbytes⟩⟩
        obtain ⟨buffers, hbuffers⟩ := Except.exists_mapM_eq_ok hbuffers
        exact ⟨buffers.flatten, Except.bind_eq_ok.mpr ⟨buffers, hbuffers, rfl⟩⟩
  | unknown => cases hparse

end

/-- A text that is parsed has the bytes of the variant with all of its fields exactly if it is the name of a
variant without fields, or lists no field twice, and the name in camel case finds the same variant, with an
index that fits into a byte. -/
theorem encodesVariant_iff (enum : EnumType) (hencodable : EncodableFields getIdlType enum) (text : Str) :
    EncodesVariant getIdlType inherited enum text ↔ IsEncodable getIdlType inherited enum text := by
  constructor
  · rintro hencodes ⟨value, hparse⟩
    obtain ⟨spelling, index, variant, data, hspelling, hfind, hvariant, hindex, hlists, hgiven, hbuffer⟩ :=
      hencodes value hparse
    refine ⟨spelling, index, variant, hspelling, hfind, hvariant, hindex, ?_⟩
    obtain ⟨parsedSpelling, parsedVariant, hparsedSpelling, hget, hkey, hcase⟩ := parse_eq_ok hparse
    obtain rfl : parsedSpelling = spelling := Except.ok.inj (hparsedSpelling.symm.trans hspelling)
    have hsame := getVariant_eq_ok.mpr ⟨index, hfind, hvariant⟩
    obtain rfl : parsedVariant = variant := Except.ok.inj (hget.symm.trans hsame)
    obtain ⟨other, otherData, hother, hkind, hbytes⟩ := toBuffer_eq_ok.mp hbuffer
    obtain ⟨hhead, rfl⟩ := List.cons.inj hbytes
    rw [hkey] at hother hhead
    rcases hcase with ⟨rfl, hempty⟩ | ⟨name, input, rfl, hparsed⟩
    · refine ⟨fun _ ↦ ?_, fun name input hbraced ↦ by cases hbraced⟩
      cases hunit : parsedVariant.kind with
      | unit =>
        rw [hunit] at hgiven
        obtain rfl := Except.ok.inj hgiven
        exact ⟨hunit, other, hother, encodeKind_empty.mp (hempty ▸ hkind)⟩
      | named fields | tuple types | unknown =>
        rw [hunit] at hgiven
        cases hgiven
    · refine ⟨fun hname ↦ (nomatch hname), fun braced text hbraced ↦ ?_⟩
      obtain ⟨rfl, rfl⟩ := Spelling.braced.inj hbraced
      obtain rfl : other = parsedVariant := Except.ok.inj (hother.symm.trans hget)
      refine ⟨hhead, fun fields hfields ↦ ?_⟩
      have hdistinct := enum.distinctFields other (List.mem_of_getElem? hvariant)
      exact isFull_of_encodeKind hdistinct hparsed hlists hkind hgiven hfields
  · intro hcondition value hparse
    obtain ⟨spelling, index, variant, hspelling, hfind, hvariant, hindex, hunit, hfull⟩ :=
      hcondition ⟨value, hparse⟩
    obtain ⟨parsedSpelling, parsedVariant, hparsedSpelling, hget, hkey, hcase⟩ := parse_eq_ok hparse
    obtain rfl : parsedSpelling = spelling := Except.ok.inj (hparsedSpelling.symm.trans hspelling)
    have hsame := getVariant_eq_ok.mpr ⟨index, hfind, hvariant⟩
    obtain rfl : parsedVariant = variant := Except.ok.inj (hget.symm.trans hsame)
    rcases hcase with ⟨rfl, hempty⟩ | ⟨name, input, rfl, hparsed⟩
    · obtain ⟨hkind, other, hother, hdata⟩ := hunit rfl
      have hdiscriminant : enum.discriminant (Spelling.byName text).key = UInt8.ofNat index :=
        discriminant_eq hfind rfl
      have hbuffer : toBuffer getIdlType inherited enum value = .ok [UInt8.ofNat index] := by
        refine toBuffer_eq_ok.mpr ⟨other, [], hkey ▸ hother, ?_, ?_⟩
        · exact hempty ▸ encodeKind_empty.mpr hdata
        · rw [hkey, hdiscriminant]
      refine ⟨_, index, parsedVariant, [], hspelling, hfind, hvariant, hindex, trivial, ?_, hbuffer⟩
      rw [hkind]
      rfl
    · obtain ⟨hdiscriminant, hfields⟩ := hfull name input rfl
      have hdistinct := enum.distinctFields parsedVariant (List.mem_of_getElem? hvariant)
      have hkinds := hencodable parsedVariant (List.mem_of_getElem? hvariant)
      obtain ⟨data, hgiven⟩ := exists_encodeGiven hkinds hdistinct hparsed
        fun fields hkind ↦ (hfields fields hkind).1
      have hkind := (encodeKind_of_parseKind hdistinct hparsed hfields).trans hgiven
      have hbuffer : toBuffer getIdlType inherited enum value = .ok (UInt8.ofNat index :: data) := by
        refine toBuffer_eq_ok.mpr ⟨parsedVariant, data, hkey ▸ hget, hkind, ?_⟩
        rw [hkey, hdiscriminant]
      refine ⟨_, index, parsedVariant, data, hspelling, hfind, hvariant, hindex, ?_, hgiven, hbuffer⟩
      exact listsFields_of_parseKind hdistinct hparsed fun fields hkind ↦ (hfields fields hkind).1

end Parsed

/-! ### A variant with a field -/

/-- The variant `foo` with a field `a`, which is a string. -/
def fooVariant : IdlEnumVariant :=
  ⟨"foo".toList, .named [⟨['a'], .primitive "string".toList⟩]⟩

/-- An enum with one variant. -/
def fooEnum : EnumType where
  variants := [fooVariant]
  distinct := List.nodup_singleton _
  distinctFields := by
    intro variant hvariant fields hfields
    obtain rfl := List.mem_singleton.mp hvariant
    obtain rfl := VariantKind.named.inj hfields
    exact List.nodup_singleton _

/-- A string has bytes. -/
theorem encodableFields_foo : EncodableFields (fun _ ↦ StructType.string) fooEnum :=
  fun _ _ _ _ _ value _ ↦ ⟨StructType.utf8 value, rfl⟩

/-- The variant with its field has the bytes of the index and the field. -/
theorem encodesVariant_foo :
    EncodesVariant (fun _ ↦ StructType.string) (fun _ _ ↦ none) fooEnum "{ foo: { a: x } }".toList := by
  refine (encodesVariant_iff fooEnum encodableFields_foo _).mpr fun _ ↦ ?_
  have hspelling : fooEnum.spelling "{ foo: { a: x } }".toList =
      .ok (.braced "foo".toList "{ a: x }".toList) := by rfl
  refine ⟨_, 0, fooVariant, hspelling, by rfl, by rfl, by decide, nofun, fun name value hbraced ↦ ?_⟩
  obtain ⟨rfl, rfl⟩ := Spelling.braced.inj hbraced
  refine ⟨by rfl, fun fields hfields ↦ ?_⟩
  obtain rfl := VariantKind.named.inj hfields
  refine ⟨by decide, fun field hfield hproto ↦ ?_⟩
  obtain rfl := List.mem_singleton.mp hfield
  exact absurd hproto (by decide)

/-- Not everything that is parsed has the bytes of a variant: its name alone is accepted for a variant with
fields. -/
theorem not_encodesVariant : ¬ ∀ (V : Type) (getIdlType : IdlType → PgIdlType V)
    (inherited : List V → Str → Option V) (enum : EnumType), EncodableFields getIdlType enum →
      ∀ text, EncodesVariant getIdlType inherited enum text := by
  intro hall
  have hencodes := hall Str (fun _ ↦ StructType.string) (fun _ _ ↦ none) fooEnum encodableFields_foo
    "foo".toList
  obtain ⟨_, _, _, _, -, -, -, -, -, -, hbuffer⟩ :=
    hencodes ⟨"foo".toList, .record PlainObject.empty⟩ (by rfl)
  have herror : toBuffer (fun _ ↦ StructType.string) (fun _ _ ↦ none) fooEnum
      ⟨"foo".toList, .record PlainObject.empty⟩ =
        .error "The first argument must be of type string".toList := by rfl
  rw [herror] at hbuffer
  cases hbuffer

end EnumType

end Playground.PgProgramInteraction
