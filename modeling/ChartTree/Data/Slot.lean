import ChartTree.Data.Reference
import ChartTree.Value.Shallow

/-!
# Places for data

Where a unit or a facet keeps its data reference. A write behind the setters may leave anything
there; what is no reference has none of the things that a reference is asked for.
-/

namespace ChartTree

/-- What stands in the place for data. -/
inductive DataSlot where
  | empty
  | reference (r : DataReference)
  | other (v : Value)

namespace DataSlot

/-- The reference in the place, which is asked for something by name. -/
def referenceFor (name : String) : DataSlot → Except Misuse DataReference
  | .empty => .error (.noAttribute Value.null.fullTypeName name)
  | .reference r => .ok r
  | .other v => .error (.noAttribute v.fullTypeName name)

/-- The reference in the place, if the place is not empty. -/
def referenceFor? (name : String) : DataSlot → Except Misuse (Option DataReference)
  | .empty => .ok none
  | slot => (slot.referenceFor name).map some

/-- The place with other options in its reference. -/
def withOptions (options : Value) : DataSlot → DataSlot
  | .reference r => .reference { r with options := options }
  | slot => slot

/-- The copy of what stands in the place. -/
def copied (occasion : Option Nat) : DataSlot → Except Misuse DataSlot
  | .empty => .ok .empty
  | .reference r => .ok (.reference (r.copied occasion))
  | .other v => v.selfCopy.map .other

/-- The place with an object changed wherever it stands. -/
def renewed (object : Identity) (change : Value → Value) : DataSlot → DataSlot
  | .empty => .empty
  | .reference r => .reference (r.renewed object change)
  | .other v => .other (Value.renewed object change v)

end DataSlot

end ChartTree
