import ChartTree.Value.Copy
import ChartTree.Value.Misuse

/-!
# Copies that values make of themselves

Collections, data references and nodes can be asked for a copy of themselves, which is a new object
with the same parts; a data reference copies its options besides. Only a node can be told whether
to copy what stands below it.
-/

namespace ChartTree.Value

/-- The copy that a value makes of itself. -/
def selfCopy (v : Value) : Except Misuse Value :=
  match v.content with
  | .list _ | .dict _ | .node _ => .ok ⟨none, v.content⟩
  | .reference url values options => .ok ⟨none, .reference url values (copied none options)⟩
  | _ => .error (.noAttribute v.fullTypeName "copy")

/-- Why a value that is no node cannot be told how deep to copy itself. -/
def depthError (v : Value) : Misuse :=
  match v.content with
  | .list _ | .dict _ => .oneCopy v.typeName
  | .reference .. => .noDepth v.typeName
  | _ => .noAttribute v.fullTypeName "copy"

end ChartTree.Value
