import ChartTree.Node.Call

/-!
# Making nodes

The ways to make a node: of a kind given as a value, a unit with or without data, or a node with
its inner nodes. Making one is taking a fresh node of the kind and calling its setter with what
was given.
-/

namespace ChartTree

/-- A way to make a node, with its arguments. -/
inductive Construction where
  | ofKind (kind : Value)
  | unit (source : Option Shared) (options : Dict)
  | composite (kind : Kind) (args : List Value)

namespace Construction

/-- The kind that an argument names. -/
def kindArg (v : Value) : Except BuildError Kind := do
  v.lookable.mapError fun reason => .misuse (.notLookable reason)
  match v.content with
  | .string s => match Kind.ofName? s with
    | some k => pure k
    | none => throw (.unknownKind v)
  | _ => throw (.unknownKind v)

/-- The node after an edit. -/
def edited (n : Node) (edit : Edit Unit) : Except BuildError Node :=
  match edit.run n with
  | .ok _ n => .ok n
  | .error reason _ => .error reason

/-- Makes the node. -/
def build (schemaUrl : String) : Construction → Except BuildError Node
  | .ofKind kind => (kindArg kind).map fun k => .fresh k schemaUrl
  | .unit source options =>
    let n := Node.fresh .unit schemaUrl
    match source with
    | some source => if source.content.isNull then .ok n else edited n (Edit.data source options)
    | none => .ok n
  | .composite kind args =>
    let n := Node.fresh kind schemaUrl
    if args.isEmpty then .ok n else edited n (Edit.inner args)

/-- A maker of nodes, before it is given arguments. -/
inductive Maker where
  | ofKind
  | unit
  | composite (kind : Kind)
deriving DecidableEq, Repr

/-- The maker that is named like a kind. -/
def Maker.ofKindName? (s : String) : Option Maker :=
  (Kind.ofName? s).map fun kind => if kind = .unit then .unit else .composite kind

/-- The construction of a maker with arguments, if they fit its parameters. -/
def bind? (maker : Maker) (a : Arguments) : Option Construction :=
  match maker with
  | .ofKind =>
    let (kind, a) := a.takeOr "kind" Kind.unit.name
    if a.positional.isEmpty && a.named.isEmpty then some (.ofKind kind) else none
  | .unit =>
    match a.take? "data" with
    | some (source, a) => a.options?.map (.unit (some source))
    | none => a.options?.map (.unit none)
  | .composite kind => a.values?.map (.composite kind)

end Construction

end ChartTree
