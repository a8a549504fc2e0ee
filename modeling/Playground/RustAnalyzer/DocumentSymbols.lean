import Playground.Library.Forest
import Playground.RustAnalyzer.ToProto

/-!
# The symbols of a document

`WorldState::document_symbols` of `src/wasm/rust-analyzer/src/world_state.rs`. The nodes of the structure of a
file are a flat list, each with the index of its parent. They are converted one by one, and then nested by a
loop that takes the last one off and pushes it to the result or to the children of its parent.

The loop neither panics nor loses a symbol if each parent comes before its children
(`arranges_documentSymbols`).

Not formalized here: `file_structure`, whose result is given, and the value that is made of the result for
JavaScript.
-/

set_option autoImplicit false
set_option relaxedAutoImplicit false

namespace Playground.RustAnalyzer.ToProto

open Library

/-- `ide::StructureNodeKind`. -/
inductive StructureNodeKind
  | symbolKind (it : SymbolKind)
  | region
  deriving DecidableEq

/-- `ide::StructureNode`. -/
structure StructureNode where
  parent : Option ℕ
  label : Str
  navigationRange : TextRange
  nodeRange : TextRange
  kind : StructureNodeKind
  detail : Option Str
  deprecated : Bool

/-- `return_types::SymbolKind`, as far as it is used. -/
inductive DocumentSymbolKind
  | moduleItem | property | field | enum | interface | function | variable_ | constant | enumMember | struct
  | typeParameter
  deriving DecidableEq

/-- `return_types::SymbolTag`. -/
inductive SymbolTag
  | none
  | deprecated
  deriving DecidableEq

/-- `return_types::DocumentSymbol`, apart from its children. -/
structure DocumentSymbol where
  name : Str
  detail : Str
  kind : DocumentSymbolKind
  tag : SymbolTag
  containerName : Option Str
  range : Range
  selectionRange : Range
  deriving DecidableEq

/-- `symbol_kind`. -/
def symbolKind : StructureNodeKind → DocumentSymbolKind
  | .region => .property
  | .symbolKind it =>
    match it with
    | .attributeSymbol | .builtinAttr | .derive | .function | .macroSymbol => .function
    | .const | .constParam | .static => .constant
    | .enum => .enum
    | .field => .field
    | .impl | .trait => .interface
    | .label | .localSymbol | .selfParam | .valueParam => .variable_
    | .lifetimeParam | .typeAlias | .typeParam | .selfType => .typeParameter
    | .moduleSymbol | .toolModule => .moduleItem
    | .struct | .union => .struct
    | .variant => .enumMember

/-- The symbol of a node. -/
def docSymbol (lineIndex : LineIndex) (symbol : StructureNode) : DocumentSymbol where
  name := symbol.label
  detail := symbol.detail.getD symbol.label
  kind := symbolKind symbol.kind
  tag := if symbol.deprecated then .deprecated else .none
  containerName := none
  range := textRange symbol.nodeRange lineIndex
  selectionRange := textRange symbol.navigationRange lineIndex

/-- `WorldState::document_symbols`, of the nodes of a file. A symbol has its children beside it. -/
def documentSymbols (lineIndex : LineIndex) (structNodes : List StructureNode) :
    Option (List (RoseTree DocumentSymbol)) :=
  let parents := structNodes.map fun symbol ↦ (RoseTree.node (docSymbol lineIndex symbol) none, symbol.parent)
  RoseTree.nestWith parents.length parents []

/-- The parent of each node comes before it. -/
def ParentsFirst (structNodes : List StructureNode) : Prop :=
  ∀ (index : ℕ) (symbol : StructureNode), structNodes[index]? = some symbol →
    ∀ parent ∈ symbol.parent, parent < index

/-- The parent of a node, by their indices. -/
def parentOf (structNodes : List StructureNode) (index : ℕ) : Option ℕ :=
  structNodes[index]?.bind StructureNode.parent

/-- A forest has the symbol of each node once, at the top if the node has no parent, and otherwise as a child of
the symbol of its parent. The nodes are known by their indices. -/
def Arranges (lineIndex : LineIndex) (structNodes : List StructureNode)
    (forest : List (RoseTree DocumentSymbol)) : Prop :=
  ∃ indices : List (RoseTree ℕ),
    forest.map (RoseTree.map some) =
        indices.map (RoseTree.map fun index ↦ structNodes[index]?.map (docSymbol lineIndex)) ∧
      (indices.flatMap RoseTree.values).Perm (List.range structNodes.length) ∧
        (∀ tree ∈ indices, parentOf structNodes tree.value = none) ∧
          ∀ tree ∈ indices, tree.Respects fun parent child ↦ parentOf structNodes child = some parent

/-- The symbols of the nodes are those of their indices. -/
theorem map_docSymbol (lineIndex : LineIndex) (structNodes : List StructureNode) :
    (structNodes.map fun symbol ↦ (RoseTree.node (docSymbol lineIndex symbol) none, symbol.parent)).map
        (fun entry ↦ (entry.1.map some, entry.2)) =
      ((List.range structNodes.length).map fun index ↦
          (RoseTree.node index none, parentOf structNodes index)).map
        fun entry ↦ (entry.1.map fun index ↦ structNodes[index]?.map (docSymbol lineIndex), entry.2) := by
  apply List.ext_getElem?
  intro index
  rw [List.getElem?_map, List.getElem?_map, List.getElem?_map, List.getElem?_map]
  by_cases hindex : index < structNodes.length
  · rw [List.getElem?_range hindex, List.getElem?_eq_getElem hindex]
    simp [parentOf, RoseTree.map, hindex]
  · rw [List.getElem?_eq_none (Nat.le_of_not_lt hindex),
      List.getElem?_eq_none (by rw [List.length_range]; exact Nat.le_of_not_lt hindex)]
    rfl

/-- If the parent of each node comes before it, no index is out of bounds, and every symbol is where it belongs,
once. -/
theorem arranges_documentSymbols (lineIndex : LineIndex) {structNodes : List StructureNode}
    (hfirst : ParentsFirst structNodes) :
    ∃ forest, documentSymbols lineIndex structNodes = some forest ∧ Arranges lineIndex structNodes forest := by
  have hbefore : ∀ child parent, parentOf structNodes child = some parent → parent < child := by
    intro child parent hparent
    obtain ⟨symbol, hsymbol, heq⟩ := Option.bind_eq_some_iff.mp hparent
    exact hfirst child symbol hsymbol parent heq
  obtain ⟨indices, hnest, hnested⟩ := RoseTree.nested_of_nestWith hbefore
    (RoseTree.nested_range (parentOf structNodes) structNodes.length)
  have hmap := RoseTree.nestWith_map some structNodes.length
    (structNodes.map fun symbol ↦ (RoseTree.node (docSymbol lineIndex symbol) none, symbol.parent)) []
  rw [List.length_map, List.length_range] at hnest
  rw [map_docSymbol, List.map_nil] at hmap
  have hindices := RoseTree.nestWith_map (fun index ↦ structNodes[index]?.map (docSymbol lineIndex))
    structNodes.length ((List.range structNodes.length).map fun index ↦
      (RoseTree.node index none, parentOf structNodes index)) []
  rw [List.map_nil, hmap, hnest, Option.map_some] at hindices
  obtain ⟨forest, hforest, hsymbols⟩ := Option.map_eq_some_iff.mp hindices
  refine ⟨forest, ?_, indices, hsymbols, hnested.values, hnested.top, hnested.respects⟩
  rw [documentSymbols, List.length_map]
  exact hforest

/-- A struct with two fields behind it. -/
def structWithFields : List StructureNode :=
  let node (parent : Option ℕ) (label : Str) (kind : SymbolKind) : StructureNode :=
    ⟨parent, label, ⟨0, 0, le_rfl⟩, ⟨0, 0, le_rfl⟩, .symbolKind kind, none, false⟩
  [node none "Counter".toList .struct, node (some 0) "count".toList .field,
    node (some 0) "owner".toList .field]

/-- Of a struct with two fields. -/
theorem arranges_documentSymbols_structWithFields :
    ∃ forest, documentSymbols (lineIndexOf []) structWithFields = some forest ∧
      Arranges (lineIndexOf []) structWithFields forest := by
  refine arranges_documentSymbols (lineIndexOf []) fun index symbol hsymbol parent hparent ↦ ?_
  match index, hsymbol with
  | 0, hsymbol =>
    obtain rfl := Option.some.inj hsymbol
    cases hparent
  | 1, hsymbol =>
    obtain rfl := Option.some.inj hsymbol
    obtain rfl := Option.some.inj hparent
    decide
  | 2, hsymbol =>
    obtain rfl := Option.some.inj hsymbol
    obtain rfl := Option.some.inj hparent
    decide
  | _ + 3, hsymbol => cases hsymbol

end Playground.RustAnalyzer.ToProto
