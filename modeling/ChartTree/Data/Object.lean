import ChartTree.Value.Access

/-!
# Data objects

The data object of a document: what a data reference becomes. Two of them mean the same data if
they share one of the three fields that say what the data are: a `url` or a `name` that count as
true and are equal, or the identical object under `values`. Every other field is left out of
account. The fields are compared in this order: `url`, `values`, `name`.
-/

namespace ChartTree

/-- A data object: its fields in order. -/
abbrev DataObject := Dict

namespace DataObject

/-- Whether two data objects have equal values that count as true under a key. -/
def agreeOn (key : String) (a b : DataObject) : Except Misuse Bool :=
  match Dict.get? a (.string key), Dict.get? b (.string key) with
  | some v, some w => if v.truthy then (v.compare w).mapError .notComparable else .ok false
  | _, _ => .ok false

/-- Whether two data objects hold the identical object under `values`. -/
def shareValues (a b : DataObject) : Bool :=
  match Dict.get? a (.string "values"), Dict.get? b (.string "values") with
  | some v, some w => !v.isNull && !w.isNull && v.isIdentical w
  | _, _ => false

/-- Whether two data objects mean the same data. -/
def sameData (a b : DataObject) : Except Misuse Bool := do
  let sameUrl ← agreeOn "url" a b
  if sameUrl || shareValues a b then pure true
  else agreeOn "name" a b

/-- Whether a data object says what its data are. -/
def isTelling (a : DataObject) : Bool :=
  let under := fun (key : String) => (Dict.get? a (.string key)).getD .null
  (under "url").truthy || !(under "values").isNull || (under "name").truthy

end DataObject

/-- Whether two values mean the same data, as data objects do. The second one is looked into only if
the first one says what its data are. -/
def Value.sameData (a b : Value) : Except Misuse Bool := do
  let fields ← a.entriesFor "get"
  if DataObject.isTelling fields then DataObject.sameData fields (← b.entriesFor "get")
  else pure false

end ChartTree
