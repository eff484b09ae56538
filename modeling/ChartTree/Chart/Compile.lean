import ChartTree.Chart.Document
import ChartTree.Store

/-!
# Compiling a chart

A chart becomes a document in one walk, each node before its inner nodes and inner nodes in order.
The walk copies every node it comes to and works on the copy, so a node that cannot be copied
cannot be compiled. The root keeps all its properties, every other node loses those that only the
root can have. Inline data are named in the order in which the walk meets them. Inside a facet the
first data object met moves to the facet, later ones that mean the same data are left out, and
others stay on their node. The channels of a repeated node are bound to the axes of the repetition.

What one object is in a node is one object in its copy, so a channel that is bound inside the copy
changes wherever its definition stands there. Once its channels are bound, nothing refers to the
objects of the copy again.
-/

namespace ChartTree

/-- Why a chart cannot be compiled. -/
inductive CompileError where
  | nestedFacet
  | notRepeatable (kind : Kind)
  | notFacetChannel (channel : Value)
  | misuse (reason : Misuse)

def CompileError.message : CompileError → String
  | .nestedFacet => "Facets cannot be nested inside other facets."
  | .notRepeatable k => "Only a unit or facet can be repeated, not " ++ k.name ++ "."
  | .notFacetChannel channel =>
    "Only row and column channels can be repeated over a facet spec, got " ++
      channel.literal ++ "."
  | .misuse reason => reason.message

/-- Where the walk stands with respect to a facet. -/
inductive FacetScope where
  /-- Outside of every facet. -/
  | outside
  /-- In a facet, before any data object is met. -/
  | waiting
  /-- In a facet that holds the first data object met. -/
  | holding (data : DataObject)

/-- What the walk carries along. -/
structure Walk where
  registry : Registry
  scope : FacetScope

/-- A stretch of the walk. -/
abbrev Walker := StateT Walk (Except CompileError)

namespace Chart

/-- Goes on with what came of a value or ends the walk. -/
def reached {α : Type} : Except Misuse α → Walker α
  | .ok a => pure a
  | .error reason => throw (.misuse reason)

/-- An object with a value written under a key. -/
def withField (own : Value) (key : String) (v : Value) : Walker Value :=
  reached (own.withEntry (.string key) v)

/-- The data object of a reference; inline data are named. -/
def resolve (reference : DataReference) : Walker DataObject := do
  match reference.values with
  | none => reached (reference.toObject .null)
  | some blob =>
    let walk ← get
    let (name, registry) := walk.registry.nameFor blob
    set { walk with registry := registry }
    reached (reference.toObject (.string name))

/-- Places the data of a node: on the node, on the facet around it, or nowhere. -/
def placeData (data : DataSlot) (own : Value) : Walker Value := do
  match ← reached (data.referenceFor? "is_inline") with
  | none => pure own
  | some reference =>
    let object ← resolve reference
    let walk ← get
    match walk.scope with
    | .outside => withField own "data" (.dict object)
    | .waiting =>
      set { walk with scope := .holding object }
      pure own
    | .holding first =>
      let met ← reached (first.sameData object)
      if met then pure own else withField own "data" (.dict object)

/-- Enters a facet, unless the walk is in one already. -/
def enterFacet : Walker Unit := do
  let walk ← get
  match walk.scope with
  | .outside => set { walk with scope := .waiting }
  | _ => throw .nestedFacet

/-- Leaves a facet, which takes the data object held for it. -/
def leaveFacet (own : Value) : Walker Value := do
  let walk ← get
  set { walk with scope := .outside }
  match walk.scope with
  | .holding object => withField own "data" (.dict object)
  | _ => pure own

/-- The axes that are repeated: whatever the value under `repeat` gives one after the other. -/
def axesOf (own : Value) : Except Misuse (List Value) := do
  match Dict.get? (← own.entriesFor "get") (.string "repeat") with
  | none => pure []
  | some v => v.itemsOf

/-- Whether a value names a channel that lays out cells. -/
def isFacetChannel (v : Value) : Bool :=
  match v.content with
  | .string s => ((Channel.ofName? s).map Channel.isFacetChannel).getD false
  | _ => false

def axisField (axis : Value) : Value :=
  .dict [(.string "repeat", axis)]

/-- The definition of a channel that is bound to an axis and had none before. -/
def newDefinition (axis : Value) : Value :=
  .dict (Dict.ofFields [("field", axisField axis), ("type", .string DataType.ofRepeated.name)])

/-- The object of a repeated node with a dictionary under a key, an empty one if nothing is
there. -/
def withDefault (key : String) (inner : Value) : Except Misuse Value := do
  let fields ← inner.entriesFor "setdefault"
  match Dict.get? fields (.string key) with
  | some _ => pure inner
  | none => inner.withEntry (.string key) (.dict [])

/-- The object of a repeated node with a channel bound to an axis in the dictionary under a key: the
field of an existing definition is written in it, wherever the definition stands, and a channel
without one gets a new one. -/
def writeBinding (key : String) (channel axis inner : Value) : Except Misuse Value := do
  let definitions ← (← inner.entryAt (.string key)).entriesFor "get"
  let existing := (← Dict.lookUp? definitions channel).getD .null
  if existing.isNull then Value.writtenAt [.string key, channel] (newDefinition axis) inner
  else Value.writtenAt [.string key, channel, .string "field"] (axisField axis) inner

/-- The object of a repeated node with a channel bound to an axis. -/
def withBinding (key : String) (channel axis inner : Value) : Except Misuse Value := do
  writeBinding key channel axis (← withDefault key inner)

/-- Binds the channel of one axis in the repeated node. An axis without a channel is left alone. -/
def bindAxis (kind : Kind) (channels inner axis : Value) : Except CompileError Value := do
  let bound ← (do Dict.lookUp? (← channels.entriesFor "get") axis).mapError .misuse
  let channel := bound.getD .null
  if kind = .facet then
    channel.lookable.mapError fun reason => .misuse (.notLookable reason)
    if !isFacetChannel channel then throw (.notFacetChannel channel)
  if channel.isNull then pure inner
  else (withBinding kind.channelsKey channel axis inner).mapError .misuse

/-- Binds the channels of all axes that a repetition has among its own properties. -/
def bindAxes (own channels : Value) (kind : Kind) (inner : Value) : Except CompileError Value := do
  let axes ← (axesOf own).mapError .misuse
  axes.foldlM (bindAxis kind channels) inner

/-- What a node brings into the document: its properties, without those that only the root can
have. -/
def ownProperties (isRoot : Bool) (properties : Value) : Except Misuse Value :=
  if isRoot then .ok properties
  else rootOnlyKeys.foldlM (fun own key => own.withoutName key) properties

/-- Copies a node on an occasion without what stands below it and gives the properties of the
copy. -/
def copiedProperties (occasion : Option Nat) (n : Node) : Except Misuse Value := do
  let spec ← n.toSpec.copied occasion none
  let _ ← n.children.itemsOf
  pure spec.properties

/-- The occasion of the copies that a walk makes, on which a session copies nothing. -/
def walking : Nat := 0

mutual

/-- The object of a node, which is copied on an occasion if something in it will be changed. -/
def assembleOn (occasion : Option Nat) (isRoot : Bool) : Chart → Walker Value
  | .other v => throw (.misuse v.depthError)
  | .node _ n children child => do
    let copy ← reached (copiedProperties occasion n)
    let own ← reached (ownProperties isRoot copy)
    match n.kind with
    | .unit => placeData n.data own
    | .facet =>
      enterFacet
      let own ← placeData n.data own
      match child with
      | none => leaveFacet own
      | some c =>
        let inner ← assembleOn none false c
        leaveFacet (← withField own "spec" inner)
    | .repeated =>
      match child with
      | none => pure own
      | some c =>
        let kind ← reached c.kindOf
        if kind.canRepeat then
          let inner ← assembleOn (some walking) false c
          let own ← withField own "spec" inner
          let bound ← bindAxes own n.repeatChannels kind inner
          withField own "spec" (bound.released walking)
        else throw (.notRepeatable kind)
    | .layer | .hconcat | .vconcat =>
      let inner ← assembleAll children
      withField own n.kind.name (.list inner)
termination_by structural c => c

/-- The objects of a list of nodes. -/
def assembleAll : List Chart → Walker (List Value)
  | [] => pure []
  | c :: cs => do
    let first ← assembleOn none false c
    let rest ← assembleAll cs
    pure (first :: rest)
termination_by structural cs => cs

end

/-- The object of a node in which nothing will be changed any more. -/
def assemble (isRoot : Bool) (c : Chart) : Walker Value :=
  assembleOn none isRoot c

def compile (c : Chart) : Except CompileError Document := do
  let (root, walk) ← (assemble true c).run ⟨.empty, .outside⟩
  pure ⟨root, walk.registry⟩

end Chart

end ChartTree
