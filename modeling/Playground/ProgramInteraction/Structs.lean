import Mathlib.Data.List.Perm.Subperm
import Playground.Library.Except
import Playground.Library.PlainObject
import Playground.ProgramInteraction.IdlType

/-!
# Struct values

The values of a struct of an IDL are given as `{ name: value, … }`
(`client/src/utils/pg/program-interaction/idl-types.ts`). `parse` splits the text at the commas, compares the
number of the fields, and assigns the value of each field that is listed to a property of an object;
`toBuffer` concatenates the bytes of the properties in the order of the object.

So a field may be listed twice while another one is missing, and the bytes depend on the order in which the
fields are listed. `encodesDeclared_iff` says of which texts every field is named once and the bytes are
those of the declared order.

How the fields are parsed and encoded is a parameter. Not formalized here: the displayed types, and values
that are generated at random.
-/

set_option autoImplicit false
set_option relaxedAutoImplicit false

namespace Playground.PgProgramInteraction

open Library

/-- A named field of a defined type. -/
structure Field where
  name : Str
  type : IdlType

/-- `PgIdlType`: how values of a type are parsed and serialized. The text or the value may be missing
(`undefined`). What is thrown is a message. -/
structure PgIdlType (V : Type) where
  parse : Option Str → Except Str V
  toBuffer : Option V → Except Str (List UInt8)

namespace StructType

variable {V : Type}

/-! ### Parsing and serializing -/

/-- `Not an object` is thrown for other texts. -/
def IsBraced (text : Str) : Prop :=
  text.head? = some '{' ∧ text.getLast? = some '}'

instance decidableIsBraced (text : Str) : Decidable (IsBraced text) :=
  inferInstanceAs (Decidable (_ ∧ _))

/-- The key and the value of a part of the text. -/
def inputField (part : Str) : Str × Option Str :=
  let parts := (part.splitOn ':').map trim
  (parts.headD [], parts[1]?)

/-- `inputFields`. -/
def inputFields (text : Str) : List (Str × Option Str) :=
  ((text.drop 1).dropLast.splitOn ',').map inputField

/-- The names that a text lists. -/
def inputKeys (text : Str) : List Str :=
  (inputFields text).map Prod.fst

/-- The field of a name. -/
def findField (fields : List Field) (key : Str) : Except Str Field :=
  match fields.find? fun field ↦ field.name = key with
  | some field => .ok field
  | none => .error ("Field \x60".toList ++ key ++ "\x60 not found".toList)

section

variable (getIdlType : IdlType → PgIdlType V) (fields : List Field)

/-- One field of the input is parsed and assigned. -/
def addField (acc : PlainObject V) (cur : Str × Option Str) : Except Str (PlainObject V) := do
  let field ← findField fields cur.1
  let value ← (getIdlType field.type).parse cur.2
  pure (acc.assign cur.1 value)

/-- `parse` of a struct. -/
def parse (text : Str) : Except Str (PlainObject V) :=
  if ¬ IsBraced text then .error "Not an object".toList
  else if (inputFields text).length ≠ fields.length then
    .error "Struct fields do not match".toList
  else (inputFields text).foldlM (addField getIdlType fields) PlainObject.empty

/-- The bytes of a property. -/
def propertyBuffer (property : Str × V) : Except Str (List UInt8) := do
  let field ← findField fields property.1
  (getIdlType field.type).toBuffer (some property.2)

/-- `toBuffer` of a struct. -/
def toBuffer (value : PlainObject V) : Except Str (List UInt8) := do
  let buffers ← value.properties.mapM (propertyBuffer getIdlType fields)
  pure buffers.flatten

/-! ### The declared order -/

/-- The bytes of a field with the value that a text gives to it. -/
def encodeField (text key : Str) : Except Str (List UInt8) := do
  let field ← findField fields key
  let value ← (getIdlType field.type).parse ((Entries.find (inputFields text) key).getD none)
  (getIdlType field.type).toBuffer (some value)

/-- The bytes of the fields of some names, in their order. -/
def encodeFields (text : Str) (names : List Str) : Except Str (List UInt8) := do
  let buffers ← names.mapM (encodeField getIdlType fields text)
  pure buffers.flatten

/-- If a text is parsed, then it names every field exactly once, and the bytes of what is parsed are those
of the fields in the declared order. -/
def EncodesDeclared (text : Str) : Prop :=
  ∀ value, parse getIdlType fields text = .ok value →
    (∀ field ∈ fields, (inputKeys text).count field.name = 1) ∧
      toBuffer getIdlType fields value =
        encodeFields getIdlType fields text (fields.map Field.name)

/-- If a text is parsed, then it names no field twice, and the fields have the same bytes in the order in
which the properties are enumerated as in the declared order. -/
def ListsInOrder (text : Str) : Prop :=
  (∃ value, parse getIdlType fields text = .ok value) → (inputKeys text).Nodup ∧
    encodeFields getIdlType fields text (PlainObject.enumerate (inputKeys text)) =
      encodeFields getIdlType fields text (fields.map Field.name)

end

/-! ### What has been parsed -/

section Parsed

variable {getIdlType : IdlType → PgIdlType V} {fields : List Field} {text : Str} {value : PlainObject V}

/-- A property has been parsed from a part of the input. -/
def ParsedFrom (getIdlType : IdlType → PgIdlType V) (fields : List Field)
    (inputs : List (Str × Option Str)) (property : Str × V) : Prop :=
  ∃ input ∈ inputs, input.1 = property.1 ∧ ∃ field, findField fields input.1 = .ok field ∧
    (getIdlType field.type).parse input.2 = .ok property.2

/-- The properties that are added by a part of the input. -/
theorem addField_eq_ok {acc : PlainObject V} {cur : Str × Option Str}
    (hadd : addField getIdlType fields acc cur = .ok value) : ∃ field parsed,
      findField fields cur.1 = .ok field ∧ (getIdlType field.type).parse cur.2 = .ok parsed ∧
        value = acc.assign cur.1 parsed := by
  obtain ⟨field, hfield, hadd⟩ := Except.bind_eq_ok.mp hadd
  obtain ⟨parsed, hparsed, hadd⟩ := Except.bind_eq_ok.mp hadd
  exact ⟨field, parsed, hfield, hparsed, (Except.ok.inj hadd).symm⟩

/-- The parsed object: its names are those of the input as they are enumerated, and every property has
been parsed from the input. -/
theorem foldlM_addField {inputs : List (Str × Option Str)} {acc : PlainObject V}
    (hfold : inputs.foldlM (addField getIdlType fields) acc = .ok value) :
    (∀ input ∈ inputs, ∃ field, findField fields input.1 = .ok field) ∧
      value.keys = ((inputs.map Prod.fst).filter (· ≠ PlainObject.protoName)).foldl
        PlainObject.addKey acc.keys ∧
      ∀ property ∈ value.properties, property ∈ acc.properties ∨
        ParsedFrom getIdlType fields inputs property := by
  induction inputs generalizing acc with
  | nil =>
    obtain rfl := Except.ok.inj hfold
    exact ⟨fun input hmem ↦ absurd hmem List.not_mem_nil, rfl, fun property hmem ↦ .inl hmem⟩
  | cons input rest ih =>
    rw [List.foldlM_cons] at hfold
    obtain ⟨middle, hfirst, hrest⟩ := Except.bind_eq_ok.mp hfold
    obtain ⟨field, parsed, hfield, hparsed, rfl⟩ := addField_eq_ok hfirst
    obtain ⟨hfound, hkeys, hproperties⟩ := ih hrest
    refine ⟨List.forall_mem_cons.mpr ⟨⟨field, hfield⟩, hfound⟩, ?_, fun property hmem ↦ ?_⟩
    · rw [hkeys, PlainObject.keys_assign, List.map_cons, List.filter_cons]
      by_cases hproto : input.1 = PlainObject.protoName
      · simp [hproto]
      · simp [hproto]
    · rcases hproperties property hmem with hbefore | ⟨other, hother, hfrom⟩
      · rcases PlainObject.mem_assign hbefore with rfl | hacc
        · exact .inr ⟨input, List.mem_cons_self, rfl, field, hfield, hparsed⟩
        · exact .inl hacc
      · exact .inr ⟨other, List.mem_cons_of_mem _ hother, hfrom⟩

/-- What has been assigned to the prototype: the values of the parts of the input with its name. -/
theorem prototypes_foldlM_addField {inputs : List (Str × Option Str)} {acc : PlainObject V}
    (hfold : inputs.foldlM (addField getIdlType fields) acc = .ok value) :
    value.prototypes.length =
        acc.prototypes.length + (inputs.map Prod.fst).count PlainObject.protoName ∧
      ∀ prototype ∈ value.prototypes, prototype ∈ acc.prototypes ∨
        ParsedFrom getIdlType fields inputs (PlainObject.protoName, prototype) := by
  induction inputs generalizing acc with
  | nil =>
    obtain rfl := Except.ok.inj hfold
    exact ⟨rfl, fun prototype hmem ↦ .inl hmem⟩
  | cons input rest ih =>
    rw [List.foldlM_cons] at hfold
    obtain ⟨middle, hfirst, hrest⟩ := Except.bind_eq_ok.mp hfold
    obtain ⟨field, parsed, hfield, hparsed, rfl⟩ := addField_eq_ok hfirst
    obtain ⟨hlength, hprototypes⟩ := ih hrest
    rw [PlainObject.prototypes_assign] at hlength hprototypes
    constructor
    · rw [hlength, List.map_cons, List.count_cons]
      by_cases hproto : input.1 = PlainObject.protoName
      · simp [hproto]
        omega
      · simp [hproto]
    · intro prototype hmem
      rcases hprototypes prototype hmem with hbefore | ⟨other, hother, hfrom⟩
      · by_cases hproto : input.1 = PlainObject.protoName
        · rw [if_pos hproto, List.mem_append, List.mem_singleton] at hbefore
          refine hbefore.imp_right fun heq ↦ ?_
          exact ⟨input, List.mem_cons_self, hproto, field, hfield, heq ▸ hparsed⟩
        · rw [if_neg hproto] at hbefore
          exact .inl hbefore
      · exact .inr ⟨other, List.mem_cons_of_mem _ hother, hfrom⟩

/-- A text that is parsed has as many parts as there are fields, and all of them are added. -/
theorem foldlM_of_parse (hparse : parse getIdlType fields text = .ok value) :
    (inputFields text).foldlM (addField getIdlType fields) PlainObject.empty = .ok value ∧
      (inputFields text).length = fields.length := by
  unfold parse at hparse
  split at hparse
  · cases hparse
  · split at hparse
    · cases hparse
    · next hlength => exact ⟨hparse, not_ne_iff.mp hlength⟩

/-- What a text is that is parsed. -/
theorem parse_eq_ok (hparse : parse getIdlType fields text = .ok value) :
    (inputKeys text).length = fields.length ∧
      (∀ input ∈ inputFields text, ∃ field, findField fields input.1 = .ok field) ∧
      value.keys = PlainObject.enumerate (inputKeys text) ∧
      ∀ property ∈ value.properties, ParsedFrom getIdlType fields (inputFields text) property := by
  obtain ⟨hfold, hlength⟩ := foldlM_of_parse hparse
  obtain ⟨hfound, hkeys, hproperties⟩ := foldlM_addField hfold
  refine ⟨?_, hfound, hkeys, fun property hmem ↦ ?_⟩
  · rw [inputKeys, List.length_map]
    exact hlength
  · exact (hproperties property hmem).resolve_left List.not_mem_nil

theorem name_of_findField {key : Str} {field : Field} (hfield : findField fields key = .ok field) :
    field ∈ fields ∧ field.name = key := by
  unfold findField at hfield
  split at hfield
  · next found hfound =>
    obtain rfl := Except.ok.inj hfield
    exact ⟨List.mem_of_find?_eq_some hfound, by simpa using List.find?_some hfound⟩
  · cases hfield

/-- A text that is parsed names fields only. -/
theorem inputKeys_subset (hparse : parse getIdlType fields text = .ok value) :
    inputKeys text ⊆ fields.map Field.name := by
  obtain ⟨-, hfound, -, -⟩ := parse_eq_ok hparse
  intro key hkey
  obtain ⟨input, hinput, rfl⟩ := List.mem_map.mp hkey
  obtain ⟨field, hfield⟩ := hfound input hinput
  obtain ⟨hmem, hname⟩ := name_of_findField hfield
  exact hname ▸ List.mem_map_of_mem hmem

/-- A text that is parsed names every field once exactly if it names none twice. -/
theorem count_eq_one_iff_nodup (hdistinct : (fields.map Field.name).Nodup)
    (hparse : parse getIdlType fields text = .ok value) :
    (∀ field ∈ fields, (inputKeys text).count field.name = 1) ↔ (inputKeys text).Nodup := by
  have hsubset := inputKeys_subset hparse
  obtain ⟨hlength, -, -, -⟩ := parse_eq_ok hparse
  constructor
  · intro hcount
    rw [List.nodup_iff_count_le_one]
    intro key
    by_cases hkey : key ∈ inputKeys text
    · obtain ⟨field, hfield, rfl⟩ := List.mem_map.mp (hsubset hkey)
      exact (hcount field hfield).le
    · rw [List.count_eq_zero_of_not_mem hkey]
      exact Nat.zero_le 1
  · intro hnodup field hfield
    have hperm : (inputKeys text).Perm (fields.map Field.name) :=
      (hnodup.subperm hsubset).perm_of_length_le (by rw [List.length_map, hlength])
    rw [hperm.count_eq]
    exact List.count_eq_one_of_mem hdistinct (List.mem_map_of_mem hfield)

/-- The bytes of what is parsed are those of the fields in the order in which the properties are
enumerated. -/
theorem toBuffer_of_parse (hparse : parse getIdlType fields text = .ok value)
    (hnodup : (inputKeys text).Nodup) : toBuffer getIdlType fields value =
      encodeFields getIdlType fields text (PlainObject.enumerate (inputKeys text)) := by
  obtain ⟨-, -, hkeys, hproperties⟩ := parse_eq_ok hparse
  have hbuffers : value.properties.mapM (propertyBuffer getIdlType fields) =
      value.properties.mapM fun property ↦ encodeField getIdlType fields text property.1 := by
    refine Except.mapM_congr fun property hmem ↦ ?_
    obtain ⟨input, hinput, hname, field, hfield, hparsed⟩ := hproperties property hmem
    have hfind : Entries.find (inputFields text) property.1 = some input.2 :=
      (Entries.find_eq_some_iff hnodup).mpr (hname ▸ hinput)
    rw [propertyBuffer, encodeField, ← hname, hfield, hname, hfind]
    show _ = ((getIdlType field.type).parse input.2 >>= _)
    rw [hparsed]
    rfl
  rw [toBuffer, encodeFields, hbuffers, ← hkeys, PlainObject.keys, List.mapM_map]
  rfl

/-- A text that is parsed names every field once and has the bytes of the declared order exactly if it names
no field twice, and the fields have the same bytes in the order in which they are enumerated. -/
theorem encodesDeclared_iff (getIdlType : IdlType → PgIdlType V) {fields : List Field}
    (hdistinct : (fields.map Field.name).Nodup) (text : Str) :
    EncodesDeclared getIdlType fields text ↔ ListsInOrder getIdlType fields text := by
  constructor
  · rintro hencodes ⟨value, hparse⟩
    obtain ⟨hcount, hbuffer⟩ := hencodes value hparse
    have hnodup := (count_eq_one_iff_nodup hdistinct hparse).mp hcount
    exact ⟨hnodup, (toBuffer_of_parse hparse hnodup).symm.trans hbuffer⟩
  · intro hlists value hparse
    obtain ⟨hnodup, hbuffer⟩ := hlists ⟨value, hparse⟩
    refine ⟨(count_eq_one_iff_nodup hdistinct hparse).mpr hnodup, ?_⟩
    exact (toBuffer_of_parse hparse hnodup).trans hbuffer

end Parsed

/-! ### Texts in the declared order -/

/-- Names that are neither indices nor that of the prototype are enumerated in their order. -/
theorem enumerate_eq_self {names : List Str} (hnodup : names.Nodup)
    (hnames : ∀ name ∈ names, PlainObject.isArrayIndex name = false ∧ name ≠ PlainObject.protoName) :
    PlainObject.enumerate names = names := by
  have hfilter : names.filter (· ≠ PlainObject.protoName) = names := by
    rw [List.filter_eq_self]
    exact fun name hname ↦ decide_eq_true (hnames name hname).2
  have hadd : ∀ (keys : List Str) (name : Str), name ∉ keys → PlainObject.isArrayIndex name = false →
      PlainObject.addKey keys name = keys ++ [name] := by
    intro keys name hnotMem hindex
    induction keys with
    | nil => rfl
    | cons key rest ih =>
      rw [List.mem_cons, not_or] at hnotMem
      have hbefore : PlainObject.isBefore key name = true := by simp [PlainObject.isBefore, hindex]
      rw [PlainObject.addKey, if_neg (Ne.symm hnotMem.1), if_pos hbefore, ih hnotMem.2]
      rfl
  have hfold : ∀ (names keys : List Str), (keys ++ names).Nodup →
      (∀ name ∈ names, PlainObject.isArrayIndex name = false) →
        names.foldl PlainObject.addKey keys = keys ++ names := by
    intro names
    induction names with
    | nil => exact fun keys _ _ ↦ (List.append_nil keys).symm
    | cons name rest ih =>
      intro keys hkeys hindices
      rw [List.forall_mem_cons] at hindices
      have hnotMem : name ∉ keys := fun hmem ↦
        (List.disjoint_of_nodup_append hkeys) hmem List.mem_cons_self
      rw [List.foldl_cons, hadd keys name hnotMem hindices.1, ih, List.append_assoc]
      · rfl
      · rw [List.append_assoc]
        exact hkeys
      · exact hindices.2
  rw [PlainObject.enumerate, hfilter, hfold names [] hnodup fun name hname ↦ (hnames name hname).1]
  rfl

/-- A text that lists the fields in the declared order is encoded in this order. -/
theorem listsInOrder_of_keys {V : Type} (getIdlType : IdlType → PgIdlType V) {fields : List Field}
    (hdistinct : (fields.map Field.name).Nodup)
    (hnames : ∀ name ∈ fields.map Field.name,
      PlainObject.isArrayIndex name = false ∧ name ≠ PlainObject.protoName)
    {text : Str} (hkeys : inputKeys text = fields.map Field.name) :
    ListsInOrder getIdlType fields text := by
  rintro -
  rw [hkeys, enumerate_eq_self hdistinct hnames]
  exact ⟨hdistinct, rfl⟩

/-! ### Strings -/

/-- The bytes of a text. -/
def utf8 (text : Str) : List UInt8 :=
  text.flatMap String.utf8EncodeChar

/-- The type `string`. The quotes are removed. -/
def string : PgIdlType Str where
  parse text :=
    match text with
    | some text => .ok ((text.filter (· ≠ '"')).filter (· ≠ '\''))
    | none => .error "Cannot read properties of undefined (reading 'replaceAll')".toList
  toBuffer value :=
    match value with
    | some value => .ok (utf8 value)
    | none => .error "The first argument must be of type string".toList

/-- A struct with two strings. -/
def twoStrings : List Field :=
  [⟨['a'], .primitive "string".toList⟩, ⟨['b'], .primitive "string".toList⟩]

/-- With the fields in their order the bytes are those of the declared order. -/
theorem encodesDeclared_declared :
    EncodesDeclared (fun _ ↦ string) twoStrings "{a: x, b: y}".toList := by
  refine (encodesDeclared_iff (fun _ ↦ string) (by decide) _).mpr ?_
  exact listsInOrder_of_keys _ (by decide) (by decide) (by decide)

/-- Not every text that is parsed has the bytes of the declared order: the fields may be exchanged. -/
theorem not_encodesDeclared : ¬ ∀ (V : Type) (getIdlType : IdlType → PgIdlType V) (fields : List Field)
    (text : Str), (fields.map Field.name).Nodup → EncodesDeclared getIdlType fields text := by
  intro hall
  have hencodes := hall Str (fun _ ↦ string) twoStrings "{b: x, a: y}".toList (by decide)
  obtain ⟨-, hbuffer⟩ := hencodes ⟨[(['b'], ['x']), (['a'], ['y'])], []⟩ (by rfl)
  have hdeclared : encodeFields (fun _ ↦ string) twoStrings "{b: x, a: y}".toList
      (twoStrings.map Field.name) = .ok [121, 120] := by rfl
  have hlisted : toBuffer (fun _ ↦ string) twoStrings ⟨[(['b'], ['x']), (['a'], ['y'])], []⟩ =
      .ok [120, 121] := by rfl
  rw [hdeclared, hlisted] at hbuffer
  cases hbuffer

end StructType

end Playground.PgProgramInteraction
