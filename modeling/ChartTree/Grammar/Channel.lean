/-!
# Channels

The closed vocabulary of visual channels. A definition is kept under the name of its channel, with
one exception: the name of the label channel is also that of a mark, and its definition is kept as
`text`.
-/

namespace ChartTree

/-- A visual channel. -/
inductive Channel where
  | x | y | x2 | y2 | longitude | latitude | longitude2 | latitude2 | color | opacity
  | fillOpacity | strokeOpacity | strokeWidth | size | shape | label | tooltip | href | key
  | order | detail | row | column
deriving DecidableEq, Repr, Inhabited

namespace Channel

def name : Channel → String
  | .x => "x"
  | .y => "y"
  | .x2 => "x2"
  | .y2 => "y2"
  | .longitude => "longitude"
  | .latitude => "latitude"
  | .longitude2 => "longitude2"
  | .latitude2 => "latitude2"
  | .color => "color"
  | .opacity => "opacity"
  | .fillOpacity => "fillOpacity"
  | .strokeOpacity => "strokeOpacity"
  | .strokeWidth => "strokeWidth"
  | .size => "size"
  | .shape => "shape"
  | .label => "label"
  | .tooltip => "tooltip"
  | .href => "href"
  | .key => "key"
  | .order => "order"
  | .detail => "detail"
  | .row => "row"
  | .column => "column"

/-- Every channel, in the order of the grammar. -/
def all : List Channel :=
  [.x, .y, .x2, .y2, .longitude, .latitude, .longitude2, .latitude2, .color, .opacity,
   .fillOpacity, .strokeOpacity, .strokeWidth, .size, .shape, .label, .tooltip, .href, .key,
   .order, .detail, .row, .column]

def ofName? (s : String) : Option Channel :=
  all.find? fun v => v.name == s

/-- The name under which a definition of a channel is kept: a label is kept as text. -/
def storedName : Channel → String
  | .label => "text"
  | c => c.name

/-- Whether a channel lays out the cells of a facet. -/
def isFacetChannel : Channel → Bool
  | .row | .column => true
  | _ => false

theorem storedName_injective {c d : Channel} (h : c.storedName = d.storedName) : c = d := by
  revert h
  cases c <;> cases d <;> decide

end Channel

end ChartTree
