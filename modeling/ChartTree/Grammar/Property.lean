import ChartTree.Grammar.Kind

/-!
# Simple properties

The properties of a node that hold one value of a given type, the types of value each takes and
the kinds of nodes that have it. Those that only mean something on the root of a document are
listed apart.
-/

namespace ChartTree

/-- The type of a property value. -/
inductive ValueType where
  | boolean | number | object | string
deriving DecidableEq, Repr, Inhabited

namespace ValueType

def name : ValueType → String
  | .boolean => "boolean"
  | .number => "number"
  | .object => "object"
  | .string => "string"

end ValueType

/-- A property that holds one value. -/
inductive Property where
  | nodeName | description | title | schema | background | padding | autosize | config | resolve
  | center | spacing | bounds | align | width | height | selection
deriving DecidableEq, Repr, Inhabited

namespace Property

def name : Property → String
  | .nodeName => "name"
  | .description => "description"
  | .title => "title"
  | .schema => "schema"
  | .background => "background"
  | .padding => "padding"
  | .autosize => "autosize"
  | .config => "config"
  | .resolve => "resolve"
  | .center => "center"
  | .spacing => "spacing"
  | .bounds => "bounds"
  | .align => "align"
  | .width => "width"
  | .height => "height"
  | .selection => "selection"

/-- Every property, in the order of the grammar. -/
def all : List Property :=
  [.nodeName, .description, .title, .schema, .background, .padding, .autosize, .config, .resolve,
   .center, .spacing, .bounds, .align, .width, .height, .selection]

def ofName? (s : String) : Option Property :=
  all.find? fun v => v.name == s

/-- The key under which the value of a property is kept. -/
def key : Property → String
  | .schema => "$schema"
  | p => p.name

/-- The types of value that a property takes, in the order of their names. -/
def valueTypes : Property → List ValueType
  | .nodeName | .description | .title | .schema | .background | .bounds => [.string]
  | .padding | .spacing => [.number, .object]
  | .autosize | .align => [.object, .string]
  | .config | .resolve | .selection => [.object]
  | .center => [.boolean, .object]
  | .width | .height => [.number]

/-- Kinds whose inner nodes have a layout of their own. -/
def composedKinds : List Kind :=
  [.hconcat, .vconcat, .facet, .repeated]

/-- The node kinds that have a property; all of them unless they are listed. -/
def kinds? : Property → Option (List Kind)
  | .resolve => some (.layer :: composedKinds)
  | .center | .spacing | .bounds => some composedKinds
  | .align => some [.facet, .repeated]
  | .width | .height => some [.unit, .layer]
  | .selection => some [.unit]
  | _ => none

def allows (p : Property) (k : Kind) : Bool :=
  match p.kinds? with
  | none => true
  | some ks => ks.contains k

end Property

/-- Keys that have a meaning on the root of a document only. -/
def rootOnlyKeys : List String :=
  ["name", "$schema", "background", "padding", "autosize", "config"]

/-- The projection that is meant when none is named. -/
def defaultProjection : String := "mercator"

end ChartTree
