import ChartTree.Node.Edit

/-!
# Calls on a node

A call names a method and gives arguments by position and by name; bound to the parameters of the
method it is an edit. Every mark, every channel and every simple property has a method of its
name.
-/

namespace ChartTree

/-- The arguments of a call. -/
structure Arguments where
  /-- Arguments by position. -/
  positional : List Shared
  /-- Arguments by name, in the order given. -/
  named : List (String × Shared)

namespace Arguments

/-- The argument for a parameter, by position before by name, and the arguments that are left. -/
def take? (a : Arguments) (parameter : String) : Option (Shared × Arguments) :=
  match a.positional with
  | held :: rest => some (held, { a with positional := rest })
  | [] => (a.named.lookup parameter).map fun held =>
      (held, { a with named := a.named.filter fun e => e.1 != parameter })

/-- The value for a parameter, or its default, and the arguments that are left. -/
def takeOr (a : Arguments) (parameter : String) (default : Value) : Value × Arguments :=
  match a.take? parameter with
  | some (held, rest) => (held.value, rest)
  | none => (default, a)

/-- Named arguments without a parameter of their own, if nothing else is left. -/
def options? (a : Arguments) : Option Dict :=
  if a.positional.isEmpty then
    some (Dict.ofFields (a.named.map fun (name, held) => (name, held.value)))
  else none

/-- The values given by position, if nothing else is given. -/
def values? (a : Arguments) : Option (List Value) :=
  if a.named.isEmpty then some (a.positional.map Shared.value) else none

end Arguments

/-- A call of a setter with its arguments bound. -/
inductive Call where
  | data (source : Shared) (options : Dict)
  | inner (args : List Value)
  | mark (type : Value) (options : Dict)
  | encode (channel field dataType : Value) (options : Dict)
  | bindAxis (axis : Axis) (channel fields : Value)
  | transform (items : List Value)
  | projection (type : Value) (options : Dict)
  | property (p : Property) (value : Value)

/-- The edit that a call makes. -/
def Call.edit : Call → Edit Unit
  | .data source options => Edit.data source options
  | .inner args => Edit.inner args
  | .mark type options => Edit.mark type options
  | .encode channel field dataType options => Edit.encode channel field dataType options
  | .bindAxis axis channel fields => Edit.bindAxis axis channel fields
  | .transform items => Edit.transform items
  | .projection type options => Edit.projection type options
  | .property p value => Edit.property p value

/-- A method of a node. -/
inductive Method where
  | data
  | inner
  | mark
  | markOf (m : Mark)
  | encode
  | channel (c : Channel)
  | bindAxis (axis : Axis)
  | transform
  | projection
  | property (p : Property)
deriving DecidableEq, Repr

namespace Method

/-- The method of a name. -/
def ofName? (s : String) : Option Method :=
  match s with
  | "data" => some .data
  | "inner" => some .inner
  | "mark" => some .mark
  | "encode" => some .encode
  | "across" => some (.bindAxis .column)
  | "down" => some (.bindAxis .row)
  | "transform" => some .transform
  | "projection" => some .projection
  | _ =>
    ((Mark.ofName? s).map .markOf).or
      (((Channel.ofName? s).map .channel).or ((Property.ofName? s).map .property))

/-- The data type of a channel definition that names none. -/
def defaultDataType : Value := "q"

/-- The call of a method with arguments, if they fit its parameters. -/
def bind? (m : Method) (a : Arguments) : Option Call :=
  match m with
  | .data => do
    let (source, a) ← a.take? "source"
    pure (.data source (← a.options?))
  | .inner => a.values?.map .inner
  | .mark => do
    let (type, a) ← a.take? "mark_type"
    pure (.mark type.value (← a.options?))
  | .markOf m => a.options?.map (.mark m.name)
  | .encode => do
    let (target, a) ← a.take? "channel"
    let (field, a) ← a.take? "field"
    let (dataType, a) := a.takeOr "data_type" defaultDataType
    pure (.encode target.value field.value dataType (← a.options?))
  | .channel c => do
    let (field, a) ← a.take? "field"
    let (dataType, a) := a.takeOr "data_type" defaultDataType
    pure (.encode c.name field.value dataType (← a.options?))
  | .bindAxis axis => do
    let (target, a) ← a.take? "channel"
    let (fields, a) := a.takeOr "fields" (.tuple [])
    if a.positional.isEmpty && a.named.isEmpty then
      pure (.bindAxis axis target.value fields)
    else none
  | .transform => a.values?.map .transform
  | .projection => do
    let (type, a) := a.takeOr "projection_type" defaultProjection
    pure (.projection type (← a.options?))
  | .property p => do
    let (value, a) ← a.take? "value"
    if a.positional.isEmpty && a.named.isEmpty then pure (.property p value.value) else none

end Method

end ChartTree
