import ChartTree.Data.Reference
import ChartTree.Data.Registry

/-!
# Documents

A chart compiled into one self-contained object. Inline collections are listed once, under their
dataset names, at the end of the root. The root is an object unless a write behind the setters has
left something else in the place of the properties of a node; then no data go with it.
-/

namespace ChartTree

/-- A compiled chart. -/
structure Document where
  root : Value
  datasets : Registry

namespace Document

def datasetsKey : String := "datasets"

/-- The dataset table as an object. -/
def tableValue (d : Document) : Value :=
  .dict (d.datasets.table.map fun (name, blob) => (.string name, blob.value))

/-- The document as a value; without inline collections there is no table. -/
def toValue (d : Document) : Value :=
  match d.root.content with
  | .dict entries =>
    if d.datasets.size = 0 then d.root
    else .dict (Dict.insert entries (.string datasetsKey) d.tableValue)
  | _ => d.root

end Document

end ChartTree
