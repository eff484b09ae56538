import ChartTree.Text.Digits

/-!
# Durations

Lengths of time in days, seconds and microseconds, where only the days may be negative. The text for
readers writes the days, if any, and a clock.
-/

namespace ChartTree

/-- A length of time. -/
structure Duration where
  /-- Whole days, negative for a negative duration. -/
  days : Int
  /-- Seconds within the day, below 86400. -/
  seconds : Nat
  /-- Microseconds within the second, below 1000000. -/
  microseconds : Nat
deriving DecidableEq, Repr, Inhabited

namespace Duration

def isZero (d : Duration) : Bool :=
  d.days = 0 && d.seconds = 0 && d.microseconds = 0

/-- A point and six digits; nothing if there are no microseconds. -/
def fractionChars (d : Duration) : List Char :=
  if d.microseconds = 0 then [] else '.' :: Text.decimalFilled 6 d.microseconds

/-- The days, if any, and a clock. -/
def clock (d : Duration) : String :=
  let plural := if d.days.natAbs = 1 then "" else "s"
  let days := if d.days = 0 then [] else Text.signed d.days ++ (" day" ++ plural ++ ", ").toList
  String.ofList (days ++ Text.decimal (d.seconds / 3600) ++
    ':' :: Text.decimalFilled 2 (d.seconds / 60 % 60) ++
    ':' :: Text.decimalFilled 2 (d.seconds % 60) ++ d.fractionChars)

example : clock ⟨1, 2, 3⟩ = "1 day, 0:00:02.000003" := by
  decide +kernel

end Duration

end ChartTree
