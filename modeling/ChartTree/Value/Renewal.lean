import ChartTree.Value.Basic

/-!
# Changed objects

An object may be part of many values, and whatever changes in it changes in all of them. A value
is renewed by a change of an object if the object is changed wherever it stands in the value.
-/

namespace ChartTree

namespace Value

/-- A value, changed if it is the object. -/
def replaced (object : Identity) (change : Value → Value) (v : Value) : Value :=
  if v.identity? = some object then change v else v

mutual

/-- A value with an object changed wherever it stands. -/
def renewed (object : Identity) (change : Value → Value) : Value → Value
  | ⟨id, .list items⟩ => replaced object change ⟨id, .list (renewedItems object change items)⟩
  | ⟨id, .tuple items⟩ => replaced object change ⟨id, .tuple (renewedItems object change items)⟩
  | ⟨id, .dict entries⟩ => replaced object change ⟨id, .dict (renewedEntries object change entries)⟩
  | ⟨id, .reference url values options⟩ =>
    replaced object change ⟨id, .reference (renewed object change url)
      (renewed object change values) (renewed object change options)⟩
  | v => replaced object change v
termination_by structural v => v

/-- The items of a sequence, with the object changed wherever it stands in them. -/
def renewedItems (object : Identity) (change : Value → Value) : List Value → List Value
  | [] => []
  | v :: vs => renewed object change v :: renewedItems object change vs
termination_by structural vs => vs

/-- The entries of a dictionary, with the object changed wherever it stands in them. -/
def renewedEntries (object : Identity) (change : Value → Value) :
    List (Value × Value) → List (Value × Value)
  | [] => []
  | (key, value) :: rest =>
    (renewed object change key, renewed object change value) :: renewedEntries object change rest
termination_by structural es => es

end

/-- A value under another identity. -/
def named (id : Identity) (v : Value) : Value :=
  ⟨some id, v.content⟩

/-- Whether a value can be changed in place, which lists and dictionaries can. -/
def isCollection (v : Value) : Bool :=
  match v.content with
  | .list _ | .dict _ => true
  | _ => false

end Value

end ChartTree
