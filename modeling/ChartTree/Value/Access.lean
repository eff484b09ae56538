import ChartTree.Value.Dict
import ChartTree.Value.Misuse

/-!
# Parts of a value

Reading, writing and taking away what stands under a key of a dictionary or at a place of a
sequence, and what a value refuses. A place counts from the end if it is negative. Lists and
dictionaries can be changed; the parts of a tuple, the characters of a text and the bytes of a byte
string can only be read. Whatever else is asked of a value by name, only one type of value has.
-/

namespace ChartTree

namespace Dict

/-- What stands under a key that can be looked up, if anything does. -/
def lookUp? (d : Dict) (key : Value) : Except Misuse (Option Value) := do
  key.lookable.mapError .notLookable
  pure (Dict.get? d key)

end Dict

namespace Value

/-- The integer that a key is; the truth values are the first two natural numbers. -/
def placeNumber? (key : Value) : Option Int :=
  match key.content with
  | .int i => some i
  | .bool b => some (if b then 1 else 0)
  | _ => none

/-- The position in a sequence of a given length that a key means. -/
def position? (length : Nat) (key : Value) : Option Nat := do
  let i ← placeNumber? key
  let place := if i < 0 then i + length else i
  if 0 ≤ place ∧ place < length then some place.toNat else none

/-- Whether a key is an integer that does not fit into 64 bits with a sign, as places have to. -/
def isTooLarge (key : Value) : Bool :=
  match placeNumber? key with
  | some i => i < Int64.minValue.toInt || Int64.maxValue.toInt < i
  | none => false

/-- The position in a sequence that a key has to mean; beyond its ends there is the given
reason. -/
def position (kind : SequenceKind) (beyond : Misuse) (length : Nat) (key : Value) :
    Except Misuse Nat :=
  if key.isTooLarge then .error (.tooLarge key.typeName)
  else match placeNumber? key, position? length key with
    | none, _ => .error (.notAPlace kind key.fullTypeName)
    | some _, none => .error beyond
    | some _, some place => .ok place

/-- The characters of a text, each of them a text. -/
def characters (s : String) : List Value :=
  s.toList.map fun c => .string (String.singleton c)

/-- The numbers of a byte string. -/
def byteNumbers (bytes : List UInt8) : List Value :=
  bytes.map fun b => .int b.toNat

/-- What a value gives one after the other: the keys of a dictionary, the items of a sequence. -/
def itemsOf (v : Value) : Except Misuse (List Value) :=
  match v.content with
  | .dict entries => .ok (Dict.keys entries)
  | .list items | .tuple items => .ok items
  | .string s => .ok (characters s)
  | .bytes bytes => .ok (byteNumbers bytes)
  | _ => .error (.noItems v.fullTypeName)

/-- The item of a sequence at a place. -/
def itemAt (kind : SequenceKind) (items : List Value) (key : Value) : Except Misuse Value := do
  let place ← position kind (.beyond kind) items.length key
  match items[place]? with
  | some w => pure w
  | none => throw (.beyond kind)

/-- What stands under a key of a dictionary or at a place of a sequence. -/
def entryAt (v key : Value) : Except Misuse Value :=
  match v.content with
  | .dict entries => do
    match ← Dict.lookUp? entries key with
    | some w => pure w
    | none => throw (.missing key)
  | .list items => itemAt .list items key
  | .tuple items => itemAt .tuple items key
  | .string s => itemAt .text (characters s) key
  | .bytes bytes => itemAt .bytes (byteNumbers bytes) key
  | _ => .error (.noParts v.fullTypeName)

/-- Whether a value is of a type that may have places, which numbers, truth values and those of the
calendar are not. -/
def hasPlaces (v : Value) : Bool :=
  match v.content with
  | .string _ | .bytes _ | .tuple _ | .uuid _ | .node _ | .reference .. => true
  | _ => false

/-- The value with another one written under a key or at a place. -/
def withEntry (v key new : Value) : Except Misuse Value :=
  match v with
  | ⟨id, .dict entries⟩ => do
    key.lookable.mapError .notLookable
    pure ⟨id, .dict (Dict.insert entries key new)⟩
  | ⟨id, .list items⟩ => do
    let place ← position .list .beyondChange items.length key
    pure ⟨id, .list (items.set place new)⟩
  | v =>
    if v.hasPlaces && key.isTooLarge then .error (.tooLarge key.typeName)
    else .error (.fixed v.fullTypeName)

/-- The value without what stands under a key or at a place. -/
def withoutEntry (v key : Value) : Except Misuse Value :=
  match v with
  | ⟨id, .dict entries⟩ => do
    match ← Dict.lookUp? entries key with
    | some _ => pure ⟨id, .dict (Dict.erase entries key)⟩
    | none => throw (.missing key)
  | ⟨id, .list items⟩ => do
    let place ← position .list .beyondChange items.length key
    pure ⟨id, .list (items.eraseIdx place)⟩
  | v =>
    if v.hasPlaces && key.isTooLarge then .error (.tooLarge key.typeName)
    else if v.hasPlaces && (placeNumber? key).isSome then .error (.lastingPlaces v.fullTypeName)
    else .error (.lasting v.fullTypeName)

/-- The dictionary without what stands under a text, if anything does. -/
def withoutName (v : Value) (name : String) : Except Misuse Value :=
  match v with
  | ⟨id, .dict entries⟩ => .ok ⟨id, .dict (Dict.erase entries (.string name))⟩
  | ⟨_, .list _⟩ => .error .noDefault
  | v => .error (.noAttribute v.fullTypeName "pop")

/-- The entries of a value that is asked for something by name that only dictionaries have. -/
def entriesFor (name : String) (v : Value) : Except Misuse Dict :=
  match v.content with
  | .dict entries => .ok entries
  | _ => .error (.noAttribute v.fullTypeName name)

/-- The kind of a value that is asked for the kind that only nodes have. -/
def nodeKind (v : Value) : Except Misuse Kind :=
  match v.content with
  | .node kind => .ok kind
  | _ => .error (.noAttribute v.fullTypeName "kind")

end Value

end ChartTree
