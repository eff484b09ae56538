import ChartTree.Calendar.DateTime
import ChartTree.Calendar.Duration
import ChartTree.Grammar.DataType
import ChartTree.Grammar.Property
import ChartTree.Number.Exact
import ChartTree.Uuid

/-!
# Property values

The values that properties, options and inline data hold: scalars, sequences, dictionaries in
order of insertion, and the nodes and data references that a caller may hand over in their place.
A value is a content and, where it can be met again in another place, the identity of the object
that holds the content. Two objects of equal content are different objects, and an object stays
itself wherever it is passed on. Texts are sequences of characters, of which half a surrogate pair
is none.
-/

namespace ChartTree

/-- A chart node: its number in the store and its kind, which never changes. -/
structure NodeRef where
  id : Nat
  kind : Kind
deriving DecidableEq, Repr, Inhabited

/-- Which object something is. -/
inductive Identity where
  /-- An object that the caller holds, by its number. -/
  | object (number : Nat)
  /-- A node of the store, by its number. -/
  | node (number : Nat)
  /-- The copy of something, by the occasion on which it was copied. -/
  | copy (source : Identity) (occasion : Nat)
deriving DecidableEq, Repr, Inhabited

/-- The content of a value whose parts are of type `α`. -/
inductive Content (α : Type) where
  | null
  | bool (b : Bool)
  | int (n : Int)
  | float (x : Binary64)
  | decimal (d : Decimal)
  | string (s : String)
  | bytes (b : List UInt8)
  | list (items : List α)
  | tuple (items : List α)
  | dict (entries : List (α × α))
  | date (d : Date)
  | time (t : Time)
  | datetime (d : DateTime)
  | duration (d : Duration)
  | uuid (u : Uuid)
  | node (kind : Kind)
  | reference (url values options : α)
deriving Inhabited

/-- A value: its content and which object it is. An object that nothing else refers to needs no
identity and is identical to no other. -/
inductive Value where
  | mk (id : Option Identity) (content : Content Value)
deriving Inhabited

/-- Entries of a dictionary, in order of insertion. -/
abbrev Dict := List (Value × Value)

namespace Content

variable {α : Type}

def typeName : Content α → String
  | .null => "NoneType"
  | .bool _ => "bool"
  | .int _ => "int"
  | .float _ => "float"
  | .decimal _ => "Decimal"
  | .string _ => "str"
  | .bytes _ => "bytes"
  | .list _ => "list"
  | .tuple _ => "tuple"
  | .dict _ => "dict"
  | .date _ => "date"
  | .time _ => "time"
  | .datetime _ => "datetime"
  | .duration _ => "timedelta"
  | .uuid _ => "UUID"
  | .node _ => "ChartSpec"
  | .reference .. => "DataReference"

/-- The name of the type of a content with that of the family it belongs to, which those of calendar
and decimal values do. -/
def fullTypeName (c : Content α) : String :=
  match c with
  | .date _ | .time _ | .datetime _ | .duration _ => "datetime." ++ c.typeName
  | .decimal _ => "decimal." ++ c.typeName
  | _ => c.typeName

def valueType? : Content α → Option ValueType
  | .bool _ => some .boolean
  | .int _ | .float _ => some .number
  | .string _ => some .string
  | .dict _ => some .object
  | _ => none

def dataType? : Content α → Option DataType
  | .string s => DataType.ofText? s
  | _ => none

def isNull : Content α → Bool
  | .null => true
  | _ => false

/-- Whether a content counts as true: not absent, not zero and not empty. Not-a-number does. -/
def truthy : Content α → Bool
  | .null => false
  | .bool b => b
  | .int n => n != 0
  | .float x => !x.isZero
  | .decimal d => !d.isZero
  | .string s => s != ""
  | .bytes b => !b.isEmpty
  | .list items | .tuple items => !items.isEmpty
  | .dict entries => !entries.isEmpty
  | .duration d => !d.isZero
  | _ => true

/-- The numeric value of a content that has one. -/
def exactValue? : Content α → Option ExactNumber
  | .bool b => some (.ofInt (if b then 1 else 0))
  | .int n => some (.ofInt n)
  | .float x => ExactNumber.ofBinary64? x
  | .decimal d => ExactNumber.ofDecimal? d
  | _ => none

end Content

namespace Value

/-- Which object a value is, if it can be met elsewhere. -/
def identity? : Value → Option Identity
  | ⟨id, _⟩ => id

def content : Value → Content Value
  | ⟨_, content⟩ => content

abbrev null : Value := ⟨none, .null⟩

abbrev bool (b : Bool) : Value := ⟨none, .bool b⟩

abbrev int (n : Int) : Value := ⟨none, .int n⟩

abbrev string (s : String) : Value := ⟨none, .string s⟩

abbrev list (items : List Value) : Value := ⟨none, .list items⟩

abbrev tuple (items : List Value) : Value := ⟨none, .tuple items⟩

abbrev dict (entries : Dict) : Value := ⟨none, .dict entries⟩

def ofNode (n : NodeRef) : Value :=
  ⟨some (.node n.id), .node n.kind⟩

instance : Coe String Value := ⟨.string⟩

/-- The node of the store that a value is. -/
def node? : Value → Option NodeRef
  | ⟨some (.node id), .node kind⟩ => some ⟨id, kind⟩
  | _ => none

def isIdentical (a b : Value) : Bool :=
  match a.identity?, b.identity? with
  | some i, some j => i = j
  | _, _ => false

def typeName (v : Value) : String :=
  v.content.typeName

/-- The name of the type of a value with that of the family it belongs to. -/
def fullTypeName (v : Value) : String :=
  v.content.fullTypeName

def valueType? (v : Value) : Option ValueType :=
  v.content.valueType?

def dataType? (v : Value) : Option DataType :=
  v.content.dataType?

def isNull (v : Value) : Bool :=
  v.content.isNull

/-- Whether a value counts as true. -/
def truthy (v : Value) : Bool :=
  v.content.truthy

/-- The numeric value of a value that has one. -/
def exactValue? (v : Value) : Option ExactNumber :=
  v.content.exactValue?

end Value

end ChartTree
