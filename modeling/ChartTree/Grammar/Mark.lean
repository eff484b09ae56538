/-!
# Marks

The closed vocabulary of marks that a unit can draw.
-/

namespace ChartTree

/-- A mark that a unit can draw. -/
inductive Mark where
  | area | bar | boxplot | circle | errorband | errorbar | geoshape | line | point | rect
  | rule | square | text | tick | trail
deriving DecidableEq, Repr, Inhabited

namespace Mark

def name : Mark → String
  | .area => "area"
  | .bar => "bar"
  | .boxplot => "boxplot"
  | .circle => "circle"
  | .errorband => "errorband"
  | .errorbar => "errorbar"
  | .geoshape => "geoshape"
  | .line => "line"
  | .point => "point"
  | .rect => "rect"
  | .rule => "rule"
  | .square => "square"
  | .text => "text"
  | .tick => "tick"
  | .trail => "trail"

def all : List Mark :=
  [.area, .bar, .boxplot, .circle, .errorband, .errorbar, .geoshape, .line, .point, .rect,
   .rule, .square, .text, .tick, .trail]

def ofName? (s : String) : Option Mark :=
  all.find? fun v => v.name == s

end Mark

end ChartTree
