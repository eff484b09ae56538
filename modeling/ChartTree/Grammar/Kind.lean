/-!
# Kinds of nodes

The six kinds of chart nodes and what each of them may hold. A unit draws one mark; a layer, a
horizontal and a vertical concatenation list inner nodes; a facet and a repeat wrap one.
-/

namespace ChartTree

/-- The kind of a chart node. -/
inductive Kind where
  | unit | layer | hconcat | vconcat | facet | repeated
deriving DecidableEq, Repr, Inhabited

namespace Kind

def name : Kind → String
  | .unit => "unit"
  | .layer => "layer"
  | .hconcat => "hconcat"
  | .vconcat => "vconcat"
  | .facet => "facet"
  | .repeated => "repeat"

/-- Every node kind, in the order of the grammar. -/
def all : List Kind :=
  [.unit, .layer, .hconcat, .vconcat, .facet, .repeated]

def ofName? (s : String) : Option Kind :=
  all.find? fun v => v.name == s

def isConcat : Kind → Bool
  | .layer | .hconcat | .vconcat => true
  | _ => false

/-- Whether a node wraps at most one inner node. -/
def isSingle : Kind → Bool
  | .facet | .repeated => true
  | _ => false

/-- Whether a node may have data of its own. -/
def carriesData : Kind → Bool
  | .unit | .facet => true
  | _ => false

/-- Whether a node has channel definitions. -/
def carriesChannels : Kind → Bool
  | .unit | .layer | .facet => true
  | _ => false

def canLayer : Kind → Bool
  | .unit | .layer => true
  | _ => false

def canRepeat : Kind → Bool
  | .unit | .facet => true
  | _ => false

/-- Whether a node may have a cartographic projection. -/
def canProject : Kind → Bool
  | .unit | .layer => true
  | _ => false

/-- The property under which a node keeps its channel definitions. -/
def channelsKey : Kind → String
  | .facet => "facet"
  | _ => "encoding"

end Kind

/-- An axis of a repetition. -/
inductive Axis where
  | row | column
deriving DecidableEq, Repr, Inhabited

def Axis.name : Axis → String
  | .row => "row"
  | .column => "column"

end ChartTree
