import ChartTree.Text.Digits

/-!
# Universally unique identifiers

Numbers of 128 bits, written as 32 hexadecimal digits in groups of eight, four, four, four and
twelve.
-/

namespace ChartTree

/-- A universally unique identifier. -/
structure Uuid where
  /-- The number of 128 bits. -/
  number : Nat
deriving DecidableEq, Repr, Inhabited

namespace Uuid

/-- The digits in groups joined by hyphens. -/
def text (u : Uuid) : String :=
  let ds := Text.hexFilled 32 u.number
  let group := fun start length => (ds.drop start).take length
  String.ofList (List.intercalate ['-']
    [group 0 8, group 8 4, group 12 4, group 16 4, group 20 12])

/-- The identifier written by a text of 32 digits, whatever its hyphens. -/
def ofText? (s : String) : Option Uuid :=
  let ds := s.toList.filter (· != '-')
  if ds.length = 32 then (Text.readHex? ds).map (⟨·⟩) else none

end Uuid

end ChartTree
