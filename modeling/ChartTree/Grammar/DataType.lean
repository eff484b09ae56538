/-!
# Data types

The closed vocabulary of data types of a field. Each has a name and a shorthand of one letter.
-/

namespace ChartTree

/-- The data type of a field. -/
inductive DataType where
  | nominal | ordinal | quantitative | temporal | geojson
deriving DecidableEq, Repr, Inhabited

namespace DataType

def name : DataType → String
  | .nominal => "nominal"
  | .ordinal => "ordinal"
  | .quantitative => "quantitative"
  | .temporal => "temporal"
  | .geojson => "geojson"

/-- Every data type, in the order of the grammar. -/
def all : List DataType :=
  [.nominal, .ordinal, .quantitative, .temporal, .geojson]

def ofName? (s : String) : Option DataType :=
  all.find? fun v => v.name == s

/-- The shorthand of a data type: the first letter of its name. -/
def shorthand : DataType → Char
  | .nominal => 'n'
  | .ordinal => 'o'
  | .quantitative => 'q'
  | .temporal => 't'
  | .geojson => 'g'

/-- The data type that a text means: one character is a shorthand, anything else a name. -/
def ofText? (s : String) : Option DataType :=
  match s.toList with
  | [c] => all.find? fun t => t.shorthand == c
  | _ => ofName? s

/-- The data type of a repeated channel that has no definition of its own. -/
def ofRepeated : DataType := .quantitative

end DataType

end ChartTree
