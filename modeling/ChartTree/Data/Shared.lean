import ChartTree.Value.Renewal

/-!
# Shared objects

An object that the caller holds and may hand over in many places. It stays itself wherever it is
passed on; so inline data are told apart by identity and never compared.
-/

namespace ChartTree

/-- An object that the caller holds. -/
structure Shared where
  id : Identity
  content : Content Value

namespace Shared

def value (s : Shared) : Value :=
  ⟨some s.id, s.content⟩

/-- The object that a value is, if it has an identity. -/
def ofValue? : Value → Option Shared
  | ⟨some id, content⟩ => some ⟨id, content⟩
  | ⟨none, _⟩ => none

/-- What the caller holds, with an object changed wherever it stands. -/
def renewed (object : Identity) (change : Value → Value) (s : Shared) : Shared :=
  let v := Value.renewed object change s.value
  ⟨v.identity?.getD s.id, v.content⟩

def same (a b : Shared) : Bool :=
  a.id = b.id

end Shared

end ChartTree
