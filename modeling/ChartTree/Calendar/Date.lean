import ChartTree.Text.Digits

/-!
# Dates

Dates of the Gregorian calendar in their ISO 8601 text. The day number counts days from a fixed
origin, so that instants in different zones can be compared.
-/

namespace ChartTree

/-- A date of the Gregorian calendar. -/
structure Date where
  year : Nat
  month : Nat
  /-- The day of the month, from 1. -/
  day : Nat
deriving DecidableEq, Repr, Inhabited

namespace Date

/-- Year, month and day, joined by hyphens. -/
def isoChars (d : Date) : List Char :=
  Text.decimalFilled 4 d.year ++ '-' :: Text.decimalFilled 2 d.month ++
    '-' :: Text.decimalFilled 2 d.day

def iso (d : Date) : String :=
  String.ofList d.isoChars

/-- The date written by ten characters. -/
def read? : List Char → Option Date
  | [y₁, y₂, y₃, y₄, '-', m₁, m₂, '-', d₁, d₂] => do
    let year ← Text.readDecimal? [y₁, y₂, y₃, y₄]
    let month ← Text.readDecimal? [m₁, m₂]
    let day ← Text.readDecimal? [d₁, d₂]
    pure ⟨year, month, day⟩
  | _ => none

def ofText? (s : String) : Option Date :=
  read? s.toList

/-- The number of a day: years run from March, so that the leap day is the last of its year. -/
def dayNumber (d : Date) : Nat :=
  let y := if d.month ≤ 2 then d.year - 1 else d.year
  let m := (d.month + 9) % 12
  365 * y + y / 4 - y / 100 + y / 400 + (153 * m + 2) / 5 + d.day

example : dayNumber ⟨2024, 3, 1⟩ = dayNumber ⟨2024, 2, 28⟩ + 2 ∧
    dayNumber ⟨2025, 1, 1⟩ = dayNumber ⟨2024, 12, 31⟩ + 1 := by
  decide

end Date

end ChartTree
