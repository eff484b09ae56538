import ChartTree.Number.Numeral

/-!
# JSON values

Values of the JSON format with object members in the order in which they are written, repetitions
included. Numbers keep their written form. Not-a-number and the infinities, which the format lacks
and its common dialect writes as bare words, are values of their own.
-/

namespace ChartTree

/-- A JSON value. -/
inductive Json where
  | null
  | bool (b : Bool)
  | number (n : Numeral)
  | nan
  | infinite (negative : Bool)
  | string (s : String)
  | array (items : List Json)
  | object (members : List (String × Json))
deriving BEq, Repr, Inhabited

namespace Json

def ofInt (n : Int) : Json :=
  .number (.ofInt n)

/-- The value of the first member of a name, if the value is an object that has one. -/
def member? (j : Json) (name : String) : Option Json :=
  match j with
  | .object members => members.lookup name
  | _ => none

end Json

end ChartTree
