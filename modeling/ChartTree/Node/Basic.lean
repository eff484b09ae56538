import ChartTree.Data.Slot
import ChartTree.Grammar.Mark

/-!
# Chart nodes

A node of a chart: its kind, its properties, its data, the channels that its repeated axes are
bound to, and its inner nodes. A fresh node carries the schema URL and, by its kind, an empty
place for channel definitions or repeated fields; a fresh unit draws points. Properties, channels
and inner nodes are held as values, because a write behind the setters may leave anything in their
place.
-/

namespace ChartTree

/-- What a node holds apart from its inner nodes. -/
structure Spec where
  /-- The kind, which never changes. -/
  kind : Kind
  /-- The dictionary of properties. -/
  properties : Value
  /-- The data, of units and facets only. -/
  data : DataSlot
  /-- The dictionary of the channels that the repeated axes are bound to, on repeats only. -/
  repeatChannels : Value

/-- A node of a chart. -/
structure Node extends Spec where
  /-- The list of the inner nodes of a layer or a concatenation, in order. -/
  children : Value
  /-- The inner node of a facet or a repeat; absent if there is none. -/
  child : Value

namespace Spec

/-- The properties that a fresh node has by its kind. -/
def kindProperties : Kind → List (String × Value)
  | .unit => [("encoding", .dict []), ("mark", .dict (Dict.ofFields [("type", Mark.point.name)]))]
  | .layer => [("encoding", .dict [])]
  | .facet => [("facet", .dict [])]
  | .repeated => [("repeat", .dict [])]
  | .hconcat | .vconcat => []

/-- The entries that a fresh node has among its properties. -/
def freshProperties (kind : Kind) (schemaUrl : String) : Dict :=
  Dict.ofFields ((Property.schema.key, .string schemaUrl) :: kindProperties kind)

/-- What a fresh node of a kind holds. -/
def fresh (kind : Kind) (schemaUrl : String) : Spec where
  kind := kind
  properties := .dict (freshProperties kind schemaUrl)
  data := .empty
  repeatChannels := .dict []

/-- The copy of what a node holds, made on two occasions: its properties on the first and its data
on the second. What the repeated axes are bound to is shared with it. -/
def copied (first second : Option Nat) (s : Spec) : Except Misuse Spec := do
  let channels ← Dict.ofValue s.repeatChannels
  let data ← s.data.copied second
  pure { s with
    properties := Value.copied first s.properties
    data := data
    repeatChannels := .dict channels }

/-- What a node holds, with an object changed wherever it stands. -/
def renewed (object : Identity) (change : Value → Value) (s : Spec) : Spec :=
  { s with
    properties := Value.renewed object change s.properties
    data := s.data.renewed object change
    repeatChannels := Value.renewed object change s.repeatChannels }

end Spec

namespace Node

/-- A fresh node of a kind. -/
def fresh (kind : Kind) (schemaUrl : String) : Node where
  toSpec := .fresh kind schemaUrl
  children := .list []
  child := .null

/-- A node with an object changed wherever it stands. -/
def renewed (object : Identity) (change : Value → Value) (n : Node) : Node where
  toSpec := Spec.renewed object change n.toSpec
  children := Value.renewed object change n.children
  child := Value.renewed object change n.child

end Node

end ChartTree
