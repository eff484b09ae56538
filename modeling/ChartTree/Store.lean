import ChartTree.Node.Construction
import ChartTree.Node.Write

/-!
# The store of nodes

All nodes made so far, each under its number. Nodes refer to their inner nodes by number, so one
node may stand in several places; unfolded from one node on, what it holds is a tree. The
unfolding is bounded by the number of nodes, which no path without a cycle exceeds.
-/

namespace ChartTree

/-- A chart: a node with what stands in the places of its inner nodes unfolded. -/
inductive Chart where
  /-- A node of a number, with its inner charts in a list and the inner chart that it wraps. -/
  | node (id : Nat) (node : Node) (children : List Chart) (child : Option Chart)
  /-- Something that stands in the place of a node and is none. -/
  | other (v : Value)

def Chart.kindOf : Chart → Except Misuse Kind
  | .node _ n _ _ => .ok n.kind
  | .other v => v.nodeKind

/-- The nodes made so far. -/
structure Store where
  /-- The nodes under their numbers. -/
  nodes : Array Node
  /-- The next occasion on which something is copied; the first one is left to compiling. -/
  occasions : Nat

namespace Store

def empty : Store :=
  ⟨#[], 1⟩

def size (s : Store) : Nat :=
  s.nodes.size

def node? (s : Store) (id : Nat) : Option Node :=
  s.nodes[id]?

/-- Takes in a new node. -/
def add (s : Store) (n : Node) : NodeRef × Store :=
  (⟨s.size, n.kind⟩, { s with nodes := s.nodes.push n })

/-- Copies what a node holds, on two new occasions. -/
def copySpec (s : Store) (spec : Spec) : Except Misuse (Spec × Store) := do
  let spec ← spec.copied (some s.occasions) (some (s.occasions + 1))
  pure (spec, { s with occasions := s.occasions + 2 })

/-- Puts a node in the place of another one. -/
def set (s : Store) (id : Nat) (n : Node) : Store :=
  { s with nodes := s.nodes.setIfInBounds id n }

/-- Changes an object wherever it stands. -/
def renew (s : Store) (object : Identity) (change : Value → Value) : Store :=
  { s with nodes := s.nodes.map (Node.renewed object change) }

/-- Puts the content of an object wherever the object stands. -/
def putContent (s : Store) (object : Value) : Store :=
  match object.identity? with
  | some id => s.renew id fun _ => object
  | none => s

/-- Brings what stands under a key of a dictionary wherever the dictionary stands. -/
def putEntry (s : Store) (entry : Value × String) : Store :=
  match entry.1.identity? with
  | some id => s.renew id (Value.withEntryOf entry.1 entry.2)
  | none => s

/-- The items of a value; one that has none gives nothing. -/
def itemsIn (v : Value) : List Value :=
  match v.itemsOf with
  | .ok items => items
  | .error _ => []

/-- The chart below a node, as far as `fuel` levels reach. -/
def unfold (s : Store) : Nat → Nat → Option Chart
  | 0, _ => none
  | fuel + 1, id => do
    let n ← s.node? id
    let inner := fun (v : Value) => match v.node? with
      | some n => unfold s fuel n.id
      | none => some (.other v)
    let children ← (itemsIn n.children).mapM inner
    let child ← if n.child.isNull then pure none else (inner n.child).map some
    pure (.node id n children child)

def chart? (s : Store) (id : Nat) : Option Chart :=
  s.unfold s.size id

/-- Copies a node without what stands below it. -/
def copyNode (s : Store) (n : Node) : Except Misuse (NodeRef × Store) := do
  let (spec, s) ← s.copySpec n.toSpec
  let children ← n.children.itemsOf
  pure (s.add ⟨spec, .list children, n.child⟩)

mutual

/-- Copies a chart: takes in a new node for every place of it, which holds a copy of what stands
there. -/
def copyChart : Chart → Store → Except Misuse (Value × Store)
  | .node _ n children child, s => do
    let (spec, s) ← s.copySpec n.toSpec
    let _ ← n.children.itemsOf
    let (children, s) ← copyCharts children s
    match child with
    | none =>
      let (copy, s) := s.add ⟨spec, .list children, .null⟩
      pure (.ofNode copy, s)
    | some c =>
      let (child, s) ← copyChart c s
      let (copy, s) := s.add ⟨spec, .list children, child⟩
      pure (.ofNode copy, s)
  | .other v, s => do
    let v ← v.selfCopy
    pure (v, s)
termination_by structural c => c

/-- Copies the charts of a list one after the other. -/
def copyCharts : List Chart → Store → Except Misuse (List Value × Store)
  | [], s => pure ([], s)
  | c :: cs, s => do
    let (first, s) ← copyChart c s
    let (rest, s) ← copyCharts cs s
    pure (first :: rest, s)
termination_by structural cs => cs

end

end Store

end ChartTree
