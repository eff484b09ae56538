import ChartTree.Value.Basic

/-!
# Copies of values

A copy of a value shares nothing with it that could change. What cannot change is its own copy:
scalars other than those of the calendar and identifiers, and tuples of nothing else. Every other
object is copied with all its parts into a new object; what is one object in the value is one
object in its copy. The copy of a node is a node outside the store, of which only the kind is left
to see.

On each occasion there are new objects. Copies that are made on no occasion have no identity:
nothing will refer to them again. The copies of an occasion may also lose their identities later, as
soon as nothing refers to them any more.
-/

namespace ChartTree

namespace Value

mutual

/-- Whether a value is its own copy. -/
def isOwnCopy : Value → Bool
  | ⟨_, .null⟩ | ⟨_, .bool _⟩ | ⟨_, .int _⟩ | ⟨_, .float _⟩ | ⟨_, .decimal _⟩ | ⟨_, .string _⟩
  | ⟨_, .bytes _⟩ => true
  | ⟨_, .tuple items⟩ => areOwnCopies items
  | _ => false
termination_by structural v => v

/-- Whether all items of a sequence are their own copies. -/
def areOwnCopies : List Value → Bool
  | [] => true
  | v :: vs => isOwnCopy v && areOwnCopies vs
termination_by structural vs => vs

end

/-- The identity of the copy of a value, which is new unless the value is its own copy. -/
def copyIdentity (occasion : Option Nat) (v : Value) : Option Identity :=
  if v.isOwnCopy then v.identity?
  else do
    let source ← v.identity?
    occasion.map (.copy source)

mutual

def copied (occasion : Option Nat) : Value → Value
  | ⟨id, .list items⟩ =>
    ⟨copyIdentity occasion ⟨id, .list items⟩, .list (copiedItems occasion items)⟩
  | ⟨id, .tuple items⟩ =>
    ⟨copyIdentity occasion ⟨id, .tuple items⟩, .tuple (copiedItems occasion items)⟩
  | ⟨id, .dict entries⟩ =>
    ⟨copyIdentity occasion ⟨id, .dict entries⟩, .dict (copiedEntries occasion entries)⟩
  | ⟨id, .reference url values options⟩ =>
    ⟨copyIdentity occasion ⟨id, .reference url values options⟩,
      .reference (copied occasion url) (copied occasion values) (copied occasion options)⟩
  | v => ⟨copyIdentity occasion v, v.content⟩
termination_by structural v => v

def copiedItems (occasion : Option Nat) : List Value → List Value
  | [] => []
  | v :: vs => copied occasion v :: copiedItems occasion vs
termination_by structural vs => vs

def copiedEntries (occasion : Option Nat) : List (Value × Value) → List (Value × Value)
  | [] => []
  | (key, value) :: rest =>
    (copied occasion key, copied occasion value) :: copiedEntries occasion rest
termination_by structural es => es

end

/-- The identity of a value, unless a copy on the occasion has given it. -/
def releasedIdentity (occasion : Nat) (v : Value) : Option Identity :=
  if v.isOwnCopy then v.identity?
  else v.identity?.filter fun
    | .copy _ made => made ≠ occasion
    | _ => true

mutual

/-- A value without the identities that copies on an occasion have given. -/
def released (occasion : Nat) : Value → Value
  | ⟨id, .list items⟩ =>
    ⟨releasedIdentity occasion ⟨id, .list items⟩, .list (releasedItems occasion items)⟩
  | ⟨id, .tuple items⟩ =>
    ⟨releasedIdentity occasion ⟨id, .tuple items⟩, .tuple (releasedItems occasion items)⟩
  | ⟨id, .dict entries⟩ =>
    ⟨releasedIdentity occasion ⟨id, .dict entries⟩, .dict (releasedEntries occasion entries)⟩
  | ⟨id, .reference url values options⟩ =>
    ⟨releasedIdentity occasion ⟨id, .reference url values options⟩,
      .reference (released occasion url) (released occasion values) (released occasion options)⟩
  | v => ⟨releasedIdentity occasion v, v.content⟩
termination_by structural v => v

def releasedItems (occasion : Nat) : List Value → List Value
  | [] => []
  | v :: vs => released occasion v :: releasedItems occasion vs
termination_by structural vs => vs

def releasedEntries (occasion : Nat) : List (Value × Value) → List (Value × Value)
  | [] => []
  | (key, value) :: rest =>
    (released occasion key, released occasion value) :: releasedEntries occasion rest
termination_by structural es => es

end

end Value

end ChartTree
