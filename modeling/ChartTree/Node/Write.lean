import ChartTree.Node.Edit

/-!
# Direct writes

Changes of a node behind its setters. They check nothing but that the path exists, so a node may
come to hold what no setter would leave in it, and not even a dictionary or a list in the places of
these.
-/

namespace ChartTree

/-- The part of a node that a path starts from. -/
inductive Place where
  | properties
  | repeatChannels
  | options
deriving DecidableEq, Repr

/-- A change behind the setters. -/
inductive Write where
  | properties (v : Value)
  | repeatChannels (v : Value)
  | data (slot : DataSlot)
  | children (v : Value)
  | child (v : Value)
  | inside (place : Place) (path : List Value) (value : Value)
  | remove (place : Place) (path : List Value)

namespace Edit

/-- What stands at a place. -/
def valueAt (n : Node) : Place → Except Misuse Value
  | .properties => .ok n.properties
  | .repeatChannels => .ok n.repeatChannels
  | .options => (n.data.referenceFor "options").map DataReference.options

/-- The node with another value at a place. -/
def withValueAt (n : Node) (v : Value) : Place → Node
  | .properties => { n with properties := v }
  | .repeatChannels => { n with repeatChannels := v }
  | .options => { n with data := n.data.withOptions v }

/-- Changes what stands at a place at a path. The result is the objects that the change reached,
with their new content. -/
def changePlace (place : Place) (path : List Value) (change : Value → Except Misuse Value) :
    Edit (List Value) := do
  let n ← get
  let v ← reached (valueAt n place)
  let (v, objects) ← reached (Value.changedAt path change v)
  set (withValueAt n v place)
  pure objects

/-- Carries out a change behind the setters. The result is the objects with a new content, which
other nodes may hold as well. -/
def write : Write → Edit (List Value)
  | .properties v => do
    modify fun n => { n with properties := v }
    pure []
  | .repeatChannels v => do
    modify fun n => { n with repeatChannels := v }
    pure []
  | .data slot => do
    modify fun n => { n with data := slot }
    pure []
  | .children v => do
    modify fun n => { n with children := v }
    pure []
  | .child v => do
    modify fun n => { n with child := v }
    pure []
  | .inside place path value => changePlace place path (Value.writeAt path value)
  | .remove place path => changePlace place path (Value.removeAt path)

end Edit

end ChartTree
