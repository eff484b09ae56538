import ChartTree.Calendar.Date
import ChartTree.Calendar.Time

/-!
# Dates with a time

A date together with a time of day. ISO 8601 joins the two by the letter `T`, text for readers by
a space.
-/

namespace ChartTree

/-- A time on a date. -/
structure DateTime where
  date : Date
  time : Time
deriving DecidableEq, Repr, Inhabited

namespace DateTime

/-- Date and time, joined by a character. -/
def joined (separator : Char) (d : DateTime) : String :=
  String.ofList (d.date.isoChars ++ separator :: d.time.isoChars)

def iso (d : DateTime) : String :=
  d.joined 'T'

def ofText? (s : String) : Option DateTime := do
  let cs := s.toList
  let date ← Date.read? (cs.take 10)
  match cs.drop 10 with
  | 'T' :: rest => (Time.read? rest).map fun time => ⟨date, time⟩
  | _ => none

/-- Seconds of universal time from the origin of the day numbers. -/
def universalSeconds (d : DateTime) : Int :=
  86400 * (d.date.dayNumber : Int) + d.time.universalSeconds

/-- Whether two are the same: both aware or both not, and the same instant. -/
def same (d e : DateTime) : Bool :=
  d.time.isAware = e.time.isAware && d.universalSeconds = e.universalSeconds &&
    d.time.microsecond = e.time.microsecond

end DateTime

end ChartTree
