import ChartTree.Value.Access

/-!
# Entries that a value stands for

A dictionary stands for its entries. Any other value stands for as many entries as it has items,
each of which has to have two items itself: the key and the value.
-/

namespace ChartTree.Dict

/-- The dictionary with the entry written that an item at a place stands for. -/
def withPair (d : Dict) (item : Value) (place : Nat) : Except Misuse Dict :=
  match item.itemsOf with
  | .ok [key, value] => do
    key.lookable.mapError .notLookable
    pure (Dict.insert d key value)
  | .ok parts => .error (.notTwo place parts.length)
  | .error _ => .error (.notAPair place)

/-- The dictionary with the entries written that a value stands for. -/
def updated (d : Dict) (v : Value) : Except Misuse Dict :=
  match v.content with
  | .dict entries => .ok (Dict.merge d entries)
  | _ => do
    let items ← v.itemsOf
    items.zipIdx.foldlM (fun d (item, place) => withPair d item place) d

/-- The dictionary of the entries that a value stands for; a dictionary has none but its own. -/
def ofValue (v : Value) : Except Misuse Dict :=
  match v.content with
  | .dict entries => .ok entries
  | _ => updated [] v

/-- The entries that a value stands for, none if it counts as false. -/
def ofTruthy (v : Value) : Except Misuse Dict :=
  if v.truthy then ofValue v else .ok []

end ChartTree.Dict
