import ChartTree.Text.Quoted
import ChartTree.Value.Basic

/-!
# Values that can be looked up

What is looked up in a set or a dictionary must not change, so lists and dictionaries cannot be,
nor can a tuple or a data reference with one of them inside. A signalling not-a-number cannot
either, because it refuses to be compared.
-/

namespace ChartTree

/-- Why a value cannot be looked up. -/
inductive LookupError where
  /-- A part of a type whose content may change. -/
  | changeable (typeName : String)
  /-- A signalling not-a-number. -/
  | signalling

def LookupError.message : LookupError → String
  | .changeable t => "unhashable type: " ++ Text.quoted t
  | .signalling => "Cannot hash a signaling NaN value"

namespace Value

mutual

/-- Why a value cannot be looked up: its first part that cannot. -/
def lookupError? : Value → Option LookupError
  | ⟨_, .list _⟩ => some (.changeable "list")
  | ⟨_, .dict _⟩ => some (.changeable "dict")
  | ⟨_, .tuple items⟩ => itemLookupError? items
  | ⟨_, .decimal (.nan _ true _)⟩ => some .signalling
  | ⟨_, .reference url values options⟩ =>
    ((lookupError? url).or (lookupError? values)).or (lookupError? options)
  | _ => none
termination_by structural v => v

/-- Why the items of a tuple cannot be looked up: the first part of them that cannot. -/
def itemLookupError? : List Value → Option LookupError
  | [] => none
  | v :: vs => (lookupError? v).or (itemLookupError? vs)
termination_by structural vs => vs

end

/-- Refuses a value that cannot be looked up. -/
def lookable (v : Value) : Except LookupError Unit :=
  match v.lookupError? with
  | some reason => .error reason
  | none => .ok ()

end Value

end ChartTree
