import ChartTree.Value.Comparison
import ChartTree.Value.Display
import ChartTree.Value.Lookup

/-!
# Misused values

The reasons for which a value refuses what is done with it: to give, take or lose a part, to be
gone through, to be compared, to be asked for something by name. Each reason has its message.
-/

namespace ChartTree

/-- A kind of sequence. -/
inductive SequenceKind where
  | list
  | tuple
  | text
  | bytes
deriving DecidableEq, Repr

/-- Why a value refuses what is done with it. -/
inductive Misuse where
  | missing (key : Value)
  /-- A key that cannot be looked up. -/
  | notLookable (reason : LookupError)
  | notComparable (reason : ComparisonError)
  | beyond (kind : SequenceKind)
  /-- A place beyond the ends of a list that is to be changed. -/
  | beyondChange
  | tooLarge (typeName : String)
  /-- A key that is no place of a sequence. -/
  | notAPlace (kind : SequenceKind) (keyType : String)
  | noParts (typeName : String)
  /-- A value whose parts cannot be replaced. -/
  | fixed (typeName : String)
  /-- A value whose parts cannot be taken away by key. -/
  | lasting (typeName : String)
  /-- A value whose parts cannot be taken away by place. -/
  | lastingPlaces (typeName : String)
  /-- A value that does not have what is asked of it by name. -/
  | noAttribute (typeName name : String)
  /-- A list asked to take away what may be absent. -/
  | noDefault
  /-- A collection told how deep to copy itself. -/
  | oneCopy (typeName : String)
  /-- A data reference told how deep to copy itself. -/
  | noDepth (typeName : String)
  /-- A value that has no items. -/
  | noItems (typeName : String)
  /-- An item, by its place, that stands for no entry because it has no items itself. -/
  | notAPair (place : Nat)
  /-- An item, by its place, that stands for no entry because it does not have two items. -/
  | notTwo (place length : Nat)

namespace SequenceKind

/-- What a place of a sequence is called. -/
def placeName : SequenceKind → String
  | .list => "list index"
  | .tuple => "tuple index"
  | .text => "string index"
  | .bytes => "index"

/-- The message that a key is no place of a sequence. -/
def placeMessage (keyType : String) : SequenceKind → String
  | .list => "list indices must be integers or slices, not " ++ keyType
  | .tuple => "tuple indices must be integers or slices, not " ++ keyType
  | .text => "string indices must be integers, not " ++ Text.quoted keyType
  | .bytes => "byte indices must be integers or slices, not " ++ keyType

end SequenceKind

def Misuse.message : Misuse → String
  | .missing key => key.literal
  | .notLookable reason => reason.message
  | .notComparable reason => reason.message
  | .beyond kind => kind.placeName ++ " out of range"
  | .beyondChange => "list assignment index out of range"
  | .tooLarge t => "cannot fit " ++ Text.quoted t ++ " into an index-sized integer"
  | .notAPlace kind t => kind.placeMessage t
  | .noParts t => Text.quoted t ++ " object is not subscriptable"
  | .fixed t => Text.quoted t ++ " object does not support item assignment"
  | .lasting t => Text.quoted t ++ " object does not support item deletion"
  | .lastingPlaces t => Text.quoted t ++ " object doesn't support item deletion"
  | .noAttribute t name => Text.quoted t ++ " object has no attribute " ++ Text.quoted name
  | .noDefault => "pop expected at most 1 argument, got 2"
  | .oneCopy t => t ++ ".copy() takes no keyword arguments"
  | .noDepth t => t ++ ".copy() got an unexpected keyword argument 'recursive'"
  | .noItems t => Text.quoted t ++ " object is not iterable"
  | .notAPair place =>
    "cannot convert dictionary update sequence element #" ++ natArg place ++ " to a sequence"
  | .notTwo place length =>
    "dictionary update sequence element #" ++ natArg place ++ " has length " ++ natArg length ++
      "; 2 is required"

end ChartTree
