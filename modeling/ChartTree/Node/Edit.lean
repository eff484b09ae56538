import ChartTree.Grammar.Channel
import ChartTree.Node.Basic

/-!
# Editing a node

The setters of a node. Each checks what it is given against the vocabularies and the kind of the
node and then changes one place of the node; an absent value clears the place. A setter either
goes through or is refused. A refusal leaves behind the node as it was found, with one exception:
the axes of a repeat are changed before their channels, and a write behind the setters may have
left something in the place of the channels that refuses the change.
-/

namespace ChartTree

/-- A change of a node, which may be refused. -/
abbrev Edit := EStateM BuildError Node

namespace Edit

/-- Refuses the change unless a condition holds. -/
def require (condition : Bool) (reason : BuildError) : Edit Unit :=
  if condition then pure () else throw reason

/-- Goes on with a checked value or refuses the change. -/
def checked {α : Type} : Except BuildError α → Edit α
  | .ok a => pure a
  | .error reason => throw reason

/-- Goes on with what was found in a value or refuses the change. -/
def reached {α : Type} (result : Except Misuse α) : Edit α :=
  checked (result.mapError .misuse)

/-- Writes a property. -/
def put (key : String) (value : Value) : Edit Unit := do
  let n ← get
  let properties ← reached (n.properties.withEntry (.string key) value)
  set { n with properties := properties }

/-- Takes a property away, if it is there. -/
def drop (key : String) : Edit Unit := do
  let n ← get
  let properties ← reached (n.properties.withoutName key)
  set { n with properties := properties }

/-- What a property holds, which has to be there. -/
def held (n : Node) (key : String) : Except Misuse Value :=
  n.properties.entryAt (.string key)

/-- Binds an axis to a channel. -/
def putChannel (axis : Axis) (channel : String) : Edit Unit := do
  let n ← get
  let channels ← reached (n.repeatChannels.withEntry (.string axis.name) (.string channel))
  set { n with repeatChannels := channels }

/-- Takes the channel of an axis away, if it has one. -/
def dropChannel (axis : Axis) : Edit Unit := do
  let n ← get
  let channels ← reached (n.repeatChannels.withoutName axis.name)
  set { n with repeatChannels := channels }

/-- The node that each argument is; refused at the first that is none. -/
def nodeArgs : List Value → Except BuildError (List NodeRef)
  | [] => .ok []
  | v :: rest => match v.node? with
    | some n => (nodeArgs rest).map (n :: ·)
    | none => .error (.notANode v.typeName)

/-- The channel that an argument names. -/
def channelArg (v : Value) : Except BuildError Channel :=
  match v.content with
  | .string s => match Channel.ofName? s with
    | some c => .ok c
    | none => .error (.unknownChannel v)
  | _ => .error (.unknownChannel v)

/-- The mark that an argument names. -/
def markArg (v : Value) : Except BuildError Mark :=
  match v.content with
  | .string s => match Mark.ofName? s with
    | some m => .ok m
    | none => .error (.unknownMark v)
  | _ => .error (.unknownMark v)

/-- The data type that an argument means. -/
def dataTypeArg (v : Value) : Except BuildError DataType :=
  match v.dataType? with
  | some t => .ok t
  | none => .error (.unknownDataType v)

/-- What a channel definition says about its field: true counts rows, a text names the field, and
what counts as false leaves the field out. -/
def fieldArg (v : Value) : Except BuildError (List (String × Value)) :=
  match v.content with
  | .bool true => .ok [("aggregate", "count")]
  | .string s => .ok (if s = "" then [] else [("field", v)])
  | _ => if v.truthy then .error (.badField v.typeName) else .ok []

/-- Checks that every field name is a text; refused at the first that is none. -/
def fieldNames : List Value → Except BuildError (List Value)
  | [] => .ok []
  | v :: rest => match v.content with
    | .string _ => (fieldNames rest).map (v :: ·)
    | _ => .error (.badFieldName v.typeName)

/-- The fields that an argument lists. -/
def fieldsArg (v : Value) : Except BuildError (List Value) :=
  match v.content with
  | .list items | .tuple items => fieldNames items
  | _ => .error .badFields

/-- Checks that every transform is a dictionary; refused at the first that is none. -/
def transformArgs : List Value → Except BuildError (List Value)
  | [] => .ok []
  | v :: rest => match v.content with
    | .dict _ => (transformArgs rest).map (v :: ·)
    | _ => .error (.badTransform v.typeName)

/-- Attaches data; an absent source takes them away. -/
def data (source : Shared) (options : Dict) : Edit Unit := do
  let n ← get
  require n.kind.carriesData (.noData n.kind)
  if source.content.isNull then
    modify fun n => { n with data := .empty }
  else
    let reference ← checked (DataReference.ofSource source options)
    modify fun n => { n with data := .reference reference }

/-- Sets the inner nodes. A facet and a repeat keep the first; an absent first argument takes all
away. -/
def inner (args : List Value) : Edit Unit := do
  let n ← get
  require (n.kind != .unit) .noInner
  if (args.head?.map Value.isNull).getD false then
    modify fun n => { n with children := .list [], child := .null }
  else
    let nodes ← checked (nodeArgs args)
    if n.kind.isSingle then
      match nodes.head? with
      | none => modify fun n => { n with child := .null }
      | some first =>
        require (n.kind != .repeated || first.kind.canRepeat) (.notRepeatable first.kind)
        modify fun n => { n with child := .ofNode first }
    else
      match nodes.find? fun node => n.kind == .layer && !node.kind.canLayer with
      | some node => throw (.notLayerable node.kind)
      | none => modify fun n => { n with children := .list (nodes.map Value.ofNode) }

/-- Sets the mark of a unit; an absent mark takes it away. -/
def mark (type : Value) (options : Dict) : Edit Unit := do
  let n ← get
  require (n.kind == .unit) (.noMark n.kind)
  if type.isNull then drop "mark"
  else
    let m ← checked (markArg type)
    put "mark" (.dict (Dict.merge (Dict.ofFields [("type", m.name)]) options))

/-- Defines a channel; an absent field takes the definition away. -/
def encode (channel field dataType : Value) (options : Dict) : Edit Unit := do
  let n ← get
  require n.kind.carriesChannels (.noChannels n.kind)
  let c ← checked (channelArg channel)
  require (n.kind != .facet || c.isFacetChannel) .notFacetChannel
  let channels ← reached (held n n.kind.channelsKey)
  if field.isNull then
    put n.kind.channelsKey (← reached (channels.withoutName c.storedName))
  else
    let binding ← checked (fieldArg field)
    let type ← checked (dataTypeArg dataType)
    let definition := Dict.merge (Dict.ofFields (binding ++ [("type", .string type.name)])) options
    let channels ← reached (channels.withEntry (.string c.storedName) (.dict definition))
    put n.kind.channelsKey channels

/-- Repeats fields along an axis, bound to a channel; an absent channel takes the axis away. -/
def bindAxis (axis : Axis) (channel fields : Value) : Edit Unit := do
  let n ← get
  require (n.kind == .repeated) (.noRepeat n.kind)
  if channel.isNull then
    let axes ← reached (held n "repeat")
    put "repeat" (← reached (axes.withoutName axis.name))
    dropChannel axis
  else
    let c ← checked (channelArg channel)
    let names ← checked (fieldsArg fields)
    let axes ← reached (held n "repeat")
    put "repeat" (← reached (axes.withEntry (.string axis.name) (.list names)))
    putChannel axis c.storedName

/-- Sets the transforms; an absent first one takes them away. -/
def transform (items : List Value) : Edit Unit := do
  if (items.head?.map Value.isNull).getD false then drop "transform"
  else
    let transforms ← checked (transformArgs items)
    put "transform" (.list transforms)

/-- Sets the cartographic projection; an absent type takes it away. -/
def projection (type : Value) (options : Dict) : Edit Unit := do
  let n ← get
  require n.kind.canProject (.noProjection n.kind)
  if type.isNull then drop "projection"
  else
    match type.content with
    | .string _ => put "projection" (.dict (Dict.merge (Dict.ofFields [("type", type)]) options))
    | _ => throw .badProjection

/-- Sets a simple property; an absent value takes it away. -/
def property (p : Property) (value : Value) : Edit Unit := do
  let n ← get
  require (p.allows n.kind) (.noProperty p n.kind)
  if value.isNull then drop p.key
  else
    match value.valueType? with
    | some t =>
      require (p.valueTypes.contains t) (.badProperty p value.typeName)
      put p.key value
    | none => throw (.badProperty p value.typeName)

end Edit

end ChartTree
