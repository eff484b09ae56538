import ChartTree.Json.Basic
import ChartTree.Text.Units

/-!
# Reading JSON

The JSON value that a text writes, with members in the order of the text. Blank characters may
stand between tokens; a control character inside a string, a surrogate without its partner and
anything after the value make the text unreadable. Recursion is bounded by the length of the text,
of which every step takes at least one character.
-/

namespace ChartTree.Json

def isSpace (c : Char) : Bool :=
  c = ' ' || c = '\n' || c = '\r' || c = '\t'

/-- The text from its first character that is not blank. -/
def skipSpace (cs : List Char) : List Char :=
  cs.dropWhile isSpace

/-- The unit that a letter stands for after a backslash. -/
def escapeUnit? (c : Char) : Option Nat :=
  if c = '\x22' || c = '\\' || c = '/' then some c.toNat
  else if c = 'n' then some 0x0a
  else if c = 'r' then some 0x0d
  else if c = 't' then some 0x09
  else if c = 'b' then some 0x08
  else if c = 'f' then some 0x0c
  else none

/-- Reads the units of a string up to its closing quote. -/
def readUnits : List Char → Option (List Nat × List Char)
  | [] => none
  | '\\' :: 'u' :: a :: b :: c :: d :: rest => do
    let u ← Text.readHex? [a, b, c, d]
    let (us, rest) ← readUnits rest
    pure (u :: us, rest)
  | '\\' :: c :: rest => do
    let u ← escapeUnit? c
    let (us, rest) ← readUnits rest
    pure (u :: us, rest)
  | c :: rest =>
    if c = '\x22' then some ([], rest)
    else if c = '\\' || c.toNat < 0x20 then none
    else (readUnits rest).map fun (us, rest) => (c.toNat :: us, rest)

/-- Reads a string from behind its opening quote. -/
def readString (cs : List Char) : Option (String × List Char) := do
  let (us, rest) ← readUnits cs
  let s ← Text.joinUnits us
  pure (String.ofList s, rest)

/-- Reads a value without items: a bare word or a number. -/
def readScalar : List Char → Option (Json × List Char)
  | 'n' :: 'u' :: 'l' :: 'l' :: rest => some (.null, rest)
  | 't' :: 'r' :: 'u' :: 'e' :: rest => some (.bool true, rest)
  | 'f' :: 'a' :: 'l' :: 's' :: 'e' :: rest => some (.bool false, rest)
  | 'N' :: 'a' :: 'N' :: rest => some (.nan, rest)
  | 'I' :: 'n' :: 'f' :: 'i' :: 'n' :: 'i' :: 't' :: 'y' :: rest => some (.infinite false, rest)
  | '-' :: 'I' :: 'n' :: 'f' :: 'i' :: 'n' :: 'i' :: 't' :: 'y' :: rest =>
    some (.infinite true, rest)
  | cs => (Numeral.read cs).map fun (n, rest) => (.number n, rest)

mutual

/-- Reads a value at the front of a text. -/
def readValue : Nat → List Char → Option (Json × List Char)
  | 0, _ => none
  | fuel + 1, cs =>
    match skipSpace cs with
    | '\x22' :: rest => (readString rest).map fun (s, rest) => (.string s, rest)
    | '[' :: rest =>
      match skipSpace rest with
      | ']' :: rest => some (.array [], rest)
      | rest => (readItems fuel rest).map fun (js, rest) => (.array js, rest)
    | '\x7b' :: rest =>
      match skipSpace rest with
      | '\x7d' :: rest => some (.object [], rest)
      | rest => (readMembers fuel rest).map fun (ms, rest) => (.object ms, rest)
    | rest => readScalar rest

/-- Reads items up to the closing bracket. -/
def readItems : Nat → List Char → Option (List Json × List Char)
  | 0, _ => none
  | fuel + 1, cs => do
    let (j, rest) ← readValue fuel cs
    match skipSpace rest with
    | ',' :: rest =>
      let (js, rest) ← readItems fuel rest
      pure (j :: js, rest)
    | ']' :: rest => pure ([j], rest)
    | _ => none

/-- Reads members up to the closing brace. -/
def readMembers : Nat → List Char → Option (List (String × Json) × List Char)
  | 0, _ => none
  | fuel + 1, cs =>
    match skipSpace cs with
    | '\x22' :: rest => do
      let (name, rest) ← readString rest
      match skipSpace rest with
      | ':' :: rest =>
        let (j, rest) ← readValue fuel rest
        match skipSpace rest with
        | ',' :: rest =>
          let (ms, rest) ← readMembers fuel rest
          pure ((name, j) :: ms, rest)
        | '\x7d' :: rest => pure ([(name, j)], rest)
        | _ => none
      | _ => none
    | _ => none

end

/-- The value written by characters with nothing but blanks around it. -/
def parseChars (cs : List Char) : Option Json :=
  match readValue (cs.length + 1) cs with
  | some (j, rest) => if (skipSpace rest).isEmpty then some j else none
  | none => none

def parse (s : String) : Option Json :=
  parseChars s.toList

end ChartTree.Json
