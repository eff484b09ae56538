import ChartTree.Value.Misuse

/-!
# Refused calls

The reasons for which building a chart refuses a call, and their messages.
-/

namespace ChartTree

/-- Why a call is refused. -/
inductive BuildError where
  | unknownKind (kind : Value)
  /-- Data options under the keys that hold the data themselves. -/
  | reservedOptions (keys : List String)
  | badSource (typeName : String)
  | noData (kind : Kind)
  | noInner
  | notANode (typeName : String)
  | notRepeatable (kind : Kind)
  | notLayerable (kind : Kind)
  | noMark (kind : Kind)
  | unknownMark (mark : Value)
  | noChannels (kind : Kind)
  | unknownChannel (channel : Value)
  | notFacetChannel
  | badField (typeName : String)
  | unknownDataType (type : Value)
  | noRepeat (kind : Kind)
  | badFields
  | badFieldName (typeName : String)
  | badTransform (typeName : String)
  | noProjection (kind : Kind)
  | badProjection
  | noProperty (property : Property) (kind : Kind)
  | badProperty (property : Property) (typeName : String)
  /-- A value refuses what is done with it. -/
  | misuse (reason : Misuse)

/-- The family that a reason belongs to. -/
inductive ErrorFamily where
  | kind
  | context
  | value
  | child
  | key
  | place
  | type
  | attribute
  | size
  | comparison
deriving DecidableEq, Repr

def Misuse.family : Misuse → ErrorFamily
  | .missing _ => .key
  | .beyond _ | .beyondChange | .tooLarge _ => .place
  | .noAttribute .. => .attribute
  | .notTwo .. => .size
  | .notComparable _ => .comparison
  | _ => .type

namespace BuildError

def family : BuildError → ErrorFamily
  | .unknownKind _ => .kind
  | .noData _ | .noInner | .noMark _ | .noChannels _ | .notFacetChannel | .noRepeat _
  | .noProjection _ | .noProperty .. => .context
  | .notANode _ | .notRepeatable _ | .notLayerable _ => .child
  | .misuse reason => reason.family
  | _ => .value

/-- A list of texts in a message. -/
def quotedList (names : List String) : String :=
  Value.listText (names.map Text.quoted)

def message : BuildError → String
  | .unknownKind kind => "Invalid node kind: " ++ kind.literal ++ "."
  | .reservedOptions keys => "Data options cannot override " ++ quotedList keys ++ "."
  | .badSource t =>
    "Invalid data source: expected URL string or inline values, got " ++ t ++ "."
  | .noData k => "data() requires a unit or facet spec, not " ++ k.name ++ "."
  | .noInner => "inner() requires a composition spec."
  | .notANode t => "Expected a ChartSpec child, got " ++ t ++ "."
  | .notRepeatable k => "A repeat spec can only repeat a unit or facet, not " ++ k.name ++ "."
  | .notLayerable k => "Inner specs of a layer must be units or layers, not " ++ k.name ++ "."
  | .noMark k => "mark() requires a unit spec, not " ++ k.name ++ "."
  | .unknownMark mark => "Invalid mark type: " ++ mark.literal ++ "."
  | .noChannels k => "A " ++ k.name ++ " spec cannot have channels."
  | .unknownChannel channel => "Invalid channel: " ++ channel.literal ++ "."
  | .notFacetChannel => "Only row and column channels can be used in a facet spec."
  | .badField t => "Channel field must be a string, got " ++ t ++ "."
  | .unknownDataType type => "Invalid data type: " ++ type.literal ++ "."
  | .noRepeat k => "across()/down() require a repeat spec, not " ++ k.name ++ "."
  | .badFields => "Repeat fields must be a list of strings."
  | .badFieldName t => "Repeat fields must be strings, got " ++ t ++ "."
  | .badTransform t => "Transforms must be dicts, got " ++ t ++ "."
  | .noProjection k => "projection() requires a unit or layer spec, not " ++ k.name ++ "."
  | .badProjection => "Projection type must be a string."
  | .noProperty p k => p.name ++ " cannot be used with a " ++ k.name ++ " spec."
  | .badProperty p t => "Invalid value for " ++ p.name ++ ": expected " ++
      quotedList (p.valueTypes.map ValueType.name) ++ ", got " ++ t ++ "."
  | .misuse reason => reason.message

end BuildError

end ChartTree
