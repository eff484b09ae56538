import ChartTree.Data.Object
import ChartTree.Data.Shared
import ChartTree.Error
import ChartTree.Value.Copy
import ChartTree.Value.Entries
import ChartTree.Value.Path

/-!
# Data references

What a unit or a facet says about its data: an address, or an inline collection that is passed on
as it is, and options beside it. Rendered as a data object, an inline collection stands under
`values` or is replaced by the name under which the document lists it. A copy of a reference
shares address and collection with it and has copies of the options. The options are a dictionary
unless they were given otherwise; then they matter only when the reference is rendered.
-/

namespace ChartTree

/-- A reference to data. -/
structure DataReference where
  /-- The address of the data, absent for inline data. -/
  url : Value
  /-- The inline collection, if there is one. -/
  values : Option Shared
  /-- Further fields of the data object. -/
  options : Value

namespace DataReference

def isInline (r : DataReference) : Bool :=
  r.values.isSome

/-- The keys that data options cannot have, in the order of messages. -/
def reservedKeys : List String :=
  ["url", "values"]

/-- The reference to a source: a text is an address, a list, tuple or dictionary inline data. -/
def ofSource (source : Shared) (options : Dict) : Except BuildError DataReference :=
  let reserved := reservedKeys.filter fun key => Dict.hasKey options (.string key)
  if !reserved.isEmpty then .error (.reservedOptions reserved)
  else match source.content with
    | .string _ => .ok ⟨source.value, none, .dict options⟩
    | .list _ | .tuple _ | .dict _ => .ok ⟨.null, some source, .dict options⟩
    | content => .error (.badSource content.typeName)

def copied (occasion : Option Nat) (r : DataReference) : DataReference :=
  { r with options := Value.copied occasion r.options }

/-- The reference with a value written at a path in its options. -/
def withOption (path : List Value) (new : Value) (r : DataReference) :
    Except Misuse DataReference :=
  (Value.writtenAt path new r.options).map fun options => { r with options := options }

/-- A reference with an object changed wherever it stands. -/
def renewed (object : Identity) (change : Value → Value) (r : DataReference) : DataReference where
  url := Value.renewed object change r.url
  values := r.values.map (Shared.renewed object change)
  options := Value.renewed object change r.options

/-- The data object of a reference before its options. Inline data stand under the given name;
without a name that counts as true the data object holds them itself. -/
def payload (r : DataReference) (name : Value) : DataObject :=
  match r.values with
  | none => [(.string "url", r.url)]
  | some held =>
    if name.truthy then [(.string "name", name)] else [(.string "values", held.value)]

/-- The data object of a reference, with copies of the options written over it. -/
def toObject (r : DataReference) (name : Value) : Except Misuse DataObject :=
  Dict.updated (r.payload name) (Value.copied none r.options)

end DataReference

end ChartTree
