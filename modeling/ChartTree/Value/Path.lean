import ChartTree.Value.Access
import ChartTree.Value.Renewal

/-!
# Writing inside a value

Writing and removing at a path of keys and places. Everything off the path stays as it is, and the
objects on the path stay the objects that they are. A path may lead through a tuple, but a tuple
itself cannot change.
-/

namespace ChartTree.Value

/-- The value with a changed part under a key or at a place. -/
def withPart (v key part : Value) : Value :=
  match v with
  | ⟨id, .dict entries⟩ => ⟨id, .dict (Dict.insert entries key part)⟩
  | ⟨id, .list items⟩ => match position? items.length key with
    | some place => ⟨id, .list (items.set place part)⟩
    | none => v
  | ⟨id, .tuple items⟩ => match position? items.length key with
    | some place => ⟨id, .tuple (items.set place part)⟩
    | none => v
  | v => v

/-- Changes the value that a path leads to. -/
def changeAt (change : Value → Except Misuse Value) : List Value → Value → Except Misuse Value
  | [], v => change v
  | key :: rest, v => do
    let part ← entryAt v key
    let part ← changeAt change rest part
    pure (withPart v key part)

/-- The value with another one at a path, of which the last key may be new. -/
def writeAt (path : List Value) (new v : Value) : Except Misuse Value :=
  match path.getLast? with
  | none => .ok new
  | some key => changeAt (fun v => withEntry v key new) path.dropLast v

/-- The value without what stands at a path. -/
def removeAt (path : List Value) (v : Value) : Except Misuse Value :=
  match path.getLast? with
  | none => .ok v
  | some key => changeAt (fun v => withoutEntry v key) path.dropLast v

/-- The objects that a path leads through, from the value itself inwards. -/
def objectsAlong : List Value → Value → List Value
  | [], v => [v]
  | key :: rest, v => match entryAt v key with
    | .ok part => v :: objectsAlong rest part
    | .error _ => [v]

/-- A value after a change at a path, and the objects that the change reached in it, which have new
contents. -/
def changedAt (path : List Value) (change : Value → Except Misuse Value) (v : Value) :
    Except Misuse (Value × List Value) := do
  let v ← change v
  pure (v, objectsAlong path.dropLast v)

/-- A value with the content of an object put wherever the object stands in it. -/
def withContentOf (v object : Value) : Value :=
  match object.identity? with
  | some id => renewed id (fun _ => object) v
  | none => v

/-- A value with another one written at a path, wherever it holds what is changed so. -/
def writtenAt (path : List Value) (new v : Value) : Except Misuse Value := do
  let (v, objects) ← changedAt path (writeAt path new) v
  pure (objects.foldl withContentOf v)

/-- What a path leads to. -/
def partAt (path : List Value) (v : Value) : Except Misuse Value :=
  path.foldlM entryAt v

/-- The value under another identity at a path. -/
def namedAt (path : List Value) (id : Identity) (v : Value) : Except Misuse Value :=
  changeAt (fun v => .ok (v.named id)) path v

/-- The dictionaries that keys lead through, from the value itself inwards, each with its key. -/
def entriesAlong : List String → Value → List (Value × String)
  | [], _ => []
  | name :: rest, ⟨id, .dict entries⟩ => (⟨id, .dict entries⟩, name) ::
      ((Dict.get? entries (.string name)).map (entriesAlong rest)).getD []
  | _, _ => []

/-- A dictionary with what another one has under a key, or has not. -/
def withEntryOf (source : Value) (name : String) : Value → Value
  | ⟨id, .dict entries⟩ =>
    match source.content with
    | .dict others => match Dict.get? others (.string name) with
      | some v => ⟨id, .dict (Dict.insert entries (.string name) v)⟩
      | none => ⟨id, .dict (Dict.erase entries (.string name))⟩
    | _ => ⟨id, .dict entries⟩
  | v => v

end ChartTree.Value
