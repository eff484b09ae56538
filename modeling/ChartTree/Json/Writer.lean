import ChartTree.Json.Basic
import ChartTree.Text.Units

/-!
# Writing JSON

JSON text in ASCII. A character outside the graphic range of ASCII is written by the escapes of
its sixteen-bit units. In line, items are separated by a comma and a space; spread over lines,
every item stands on a line of its own behind the indentation of its depth. The two layouts differ
only in the blank characters between tokens.
-/

namespace ChartTree.Json

/-- How items are laid out: in one line, or one a line with so many spaces for each level. -/
inductive Layout where
  | inline
  | lines (width : Nat)
deriving DecidableEq, Repr

/-- The layout that an indentation asks for: none is in line, a negative one has no spaces. -/
def Layout.ofIndent : Option Int → Layout
  | none => .inline
  | some n => .lines n.toNat

/-- What stands after an opening bracket and before a closing one. -/
def Layout.gap (l : Layout) (depth : Nat) : List Char :=
  match l with
  | .inline => []
  | .lines width => '\n' :: List.replicate (width * depth) ' '

/-- What stands between two items. -/
def Layout.separator (l : Layout) (depth : Nat) : List Char :=
  match l with
  | .inline => [',', ' ']
  | .lines _ => ',' :: l.gap depth

/-- A sixteen-bit unit inside a string. -/
def escapedUnit (u : Nat) : List Char :=
  if u = 0x22 then ['\\', '\x22']
  else if u = 0x5c then ['\\', '\\']
  else if u = 0x0a then ['\\', 'n']
  else if u = 0x0d then ['\\', 'r']
  else if u = 0x09 then ['\\', 't']
  else if u = 0x08 then ['\\', 'b']
  else if u = 0x0c then ['\\', 'f']
  else if 0x20 ≤ u && u < 0x7f then [Char.ofNat u]
  else '\\' :: 'u' :: Text.hexFilled 4 u

/-- A character inside a string. -/
def escapedChar (c : Char) : List Char :=
  (Text.units c).flatMap escapedUnit

def writeString (s : String) : List Char :=
  '\x22' :: (s.toList.flatMap escapedChar ++ ['\x22'])

mutual

/-- The text of a value that stands at a depth of nesting. -/
def write (l : Layout) (depth : Nat) : Json → List Char
  | .null => ['n', 'u', 'l', 'l']
  | .bool true => ['t', 'r', 'u', 'e']
  | .bool false => ['f', 'a', 'l', 's', 'e']
  | .number n => n.text
  | .nan => ['N', 'a', 'N']
  | .infinite negative =>
    (if negative then ['-'] else []) ++ ['I', 'n', 'f', 'i', 'n', 'i', 't', 'y']
  | .string s => writeString s
  | .array [] => ['[', ']']
  | .array (j :: js) =>
    '[' :: (l.gap (depth + 1) ++ (write l (depth + 1) j ++
      (writeItems l (depth + 1) js ++ (l.gap depth ++ [']']))))
  | .object [] => ['\x7b', '\x7d']
  | .object ((name, j) :: ms) =>
    '\x7b' :: (l.gap (depth + 1) ++ (writeString name ++ ':' :: ' ' :: (write l (depth + 1) j ++
      (writeMembers l (depth + 1) ms ++ (l.gap depth ++ ['\x7d'])))))

/-- The texts of further items, each behind a separator. -/
def writeItems (l : Layout) (depth : Nat) : List Json → List Char
  | [] => []
  | j :: js => l.separator depth ++ (write l depth j ++ writeItems l depth js)

/-- The texts of further members, each behind a separator. -/
def writeMembers (l : Layout) (depth : Nat) : List (String × Json) → List Char
  | [] => []
  | (name, j) :: ms =>
    l.separator depth ++ (writeString name ++ ':' :: ' ' :: (write l depth j ++
      writeMembers l depth ms))

end

def render (l : Layout) (j : Json) : String :=
  String.ofList (write l 0 j)

end ChartTree.Json
