import ChartTree.Text.Quoted
import ChartTree.Value.Basic

/-!
# Values in messages

Two texts of a value: its literal, which shows the type as well as the content, and its plain
text, which is that of a literal except for texts, numbers, dates, times and identifiers, where it
is the content alone.
-/

namespace ChartTree

/-- The arguments of a literal between parentheses, joined by commas. -/
def callText (name : String) (args : List String) : String :=
  name ++ "(" ++ ", ".intercalate args ++ ")"

def natArg (n : Nat) : String :=
  String.ofList (Text.decimal n)

def Duration.literal (d : Duration) : String :=
  let part := fun (name : String) (n : Int) =>
    if n = 0 then [] else [name ++ "=" ++ String.ofList (Text.signed n)]
  let parts := part "days" d.days ++ part "seconds" d.seconds ++ part "microseconds" d.microseconds
  callText "datetime.timedelta" (if parts.isEmpty then ["0"] else parts)

/-- The duration of a number of minutes. -/
def Duration.ofMinutes (n : Int) : Duration :=
  ⟨Int.fdiv n 1440, (Int.fmod n 1440).toNat * 60, 0⟩

def Date.literal (d : Date) : String :=
  callText "datetime.date" [natArg d.year, natArg d.month, natArg d.day]

/-- The arguments of a time: seconds and microseconds only as far as they are not zero. -/
def Time.args (t : Time) : List String :=
  let fine :=
    if t.microsecond ≠ 0 then [natArg t.second, natArg t.microsecond]
    else if t.second ≠ 0 then [natArg t.second]
    else []
  let zone := match t.offset with
    | none => []
    | some 0 => ["tzinfo=datetime.timezone.utc"]
    | some o => ["tzinfo=" ++ callText "datetime.timezone" [(Duration.ofMinutes o).literal]]
  natArg t.hour :: natArg t.minute :: (fine ++ zone)

def Time.literal (t : Time) : String :=
  callText "datetime.time" t.args

def DateTime.literal (d : DateTime) : String :=
  callText "datetime.datetime"
    (natArg d.date.year :: natArg d.date.month :: natArg d.date.day :: d.time.args)

namespace Value

def listText (items : List String) : String :=
  "[" ++ ", ".intercalate items ++ "]"

/-- Items between parentheses; a single one is followed by a comma. -/
def tupleText : List String → String
  | [item] => "(" ++ item ++ ",)"
  | items => "(" ++ ", ".intercalate items ++ ")"

def dictText (entries : List (String × String)) : String :=
  "\x7b" ++ ", ".intercalate (entries.map fun (key, value) => key ++ ": " ++ value) ++ "\x7d"

mutual

def literal : Value → String
  | ⟨_, .null⟩ => "None"
  | ⟨_, .bool true⟩ => "True"
  | ⟨_, .bool false⟩ => "False"
  | ⟨_, .int n⟩ => String.ofList (Text.signed n)
  | ⟨_, .float x⟩ => x.text
  | ⟨_, .decimal d⟩ => callText "Decimal" [Text.quoted d.text]
  | ⟨_, .string s⟩ => Text.quoted s
  | ⟨_, .bytes b⟩ => Text.quotedBytes b
  | ⟨_, .list items⟩ => listText (literals items)
  | ⟨_, .tuple items⟩ => tupleText (literals items)
  | ⟨_, .dict entries⟩ => dictText (entryLiterals entries)
  | ⟨_, .date d⟩ => d.literal
  | ⟨_, .time t⟩ => t.literal
  | ⟨_, .datetime d⟩ => d.literal
  | ⟨_, .duration d⟩ => d.literal
  | ⟨_, .uuid u⟩ => callText "UUID" [Text.quoted u.text]
  | ⟨_, .node kind⟩ => callText "ChartSpec" ["kind=" ++ Text.quoted kind.name]
  | ⟨_, .reference url values options⟩ =>
    callText "DataReference" ["url=" ++ literal url, "values=" ++ literal values,
      "options=" ++ literal options]
termination_by structural v => v

def literals : List Value → List String
  | [] => []
  | v :: vs => literal v :: literals vs
termination_by structural vs => vs

def entryLiterals : List (Value × Value) → List (String × String)
  | [] => []
  | (key, value) :: rest => (literal key, literal value) :: entryLiterals rest
termination_by structural es => es

end

/-- The plain text of a value. -/
def text (v : Value) : String :=
  match v.content with
  | .string s => s
  | .decimal d => d.text
  | .date d => d.iso
  | .time t => t.iso
  | .datetime d => d.joined ' '
  | .duration d => d.clock
  | .uuid u => u.text
  | _ => v.literal

end Value

end ChartTree
