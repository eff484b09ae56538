import ChartTree.Json.Framework
import ChartTree.Json.Writer

/-!
# Values as JSON

The JSON form of a value. Tuples become arrays and dictionaries objects in order of insertion,
with the keys that are numbers, truth values or absent written as text. Of what JSON has no form for
the framework makes a text or refuses it. What has no form at all is refused at the first place
where it stands, a key before its value.
-/

namespace ChartTree

/-- Why a value has no JSON form. -/
inductive EncodeError where
  | badKey (key : Value)
  | noForm (typeName : String)
  /-- The framework refuses the value. -/
  | refused (message : String)

/-- The name of the type of a key in the message that refuses it, which in line is the full one. -/
def Value.keyTypeName (l : Json.Layout) (key : Value) : String :=
  match l with
  | .inline => key.fullTypeName
  | _ => key.typeName

/-- The message of a refusal, in a layout. -/
def EncodeError.message (l : Json.Layout) : EncodeError → String
  | .badKey key => "keys must be str, int, float, bool or None, not " ++ key.keyTypeName l
  | .noForm t => "Object of type " ++ t ++ " is not JSON serializable"
  | .refused message => message

def Json.ofBinary64 : Binary64 → Json
  | .finite negative m e .. => .number (Binary64.numeral negative m e)
  | .infinite negative => .infinite negative
  | .nan => .nan

/-- The form that a framework gives to a value. -/
def Framework.form (fw : Framework) (v : Value) : Except EncodeError Json :=
  match fw.encoded v.content with
  | .text s => .ok (.string s)
  | .refusal message => .error (.refused message)
  | .left => .error (.noForm v.typeName)

namespace Value

/-- The text of a binary64 number as a key. -/
def floatKey : Binary64 → String
  | .infinite negative => if negative then "-Infinity" else "Infinity"
  | .nan => "NaN"
  | x => x.text

/-- The name that a key gives to a member. -/
def keyText (key : Value) : Except EncodeError String :=
  match key.content with
  | .string s => .ok s
  | .null => .ok "null"
  | .bool b => .ok (if b then "true" else "false")
  | .int n => .ok (String.ofList (Text.signed n))
  | .float x => .ok (floatKey x)
  | _ => .error (.badKey key)

mutual

def encode (fw : Framework) : Value → Except EncodeError Json
  | ⟨_, .null⟩ => .ok .null
  | ⟨_, .bool b⟩ => .ok (.bool b)
  | ⟨_, .int n⟩ => .ok (.ofInt n)
  | ⟨_, .float x⟩ => .ok (.ofBinary64 x)
  | ⟨_, .string s⟩ => .ok (.string s)
  | ⟨_, .list items⟩ => (encodeItems fw items).map .array
  | ⟨_, .tuple items⟩ => (encodeItems fw items).map .array
  | ⟨_, .dict entries⟩ => (encodeEntries fw entries).map .object
  | v => fw.form v
termination_by structural v => v

def encodeItems (fw : Framework) : List Value → Except EncodeError (List Json)
  | [] => .ok []
  | v :: vs => do
    let j ← encode fw v
    let js ← encodeItems fw vs
    .ok (j :: js)
termination_by structural vs => vs

def encodeEntries (fw : Framework) :
    List (Value × Value) → Except EncodeError (List (String × Json))
  | [] => .ok []
  | (key, value) :: rest => do
    let name ← keyText key
    let j ← encode fw value
    let ms ← encodeEntries fw rest
    .ok ((name, j) :: ms)
termination_by structural es => es

end

end Value

end ChartTree
