import ChartTree.Text.Digits

/-!
# Times of day

Times of day with microseconds and an optional distance from universal time, in their ISO 8601
text. A time with a distance is aware; two aware times are the same instant if they agree after
the distance is taken off.
-/

namespace ChartTree

/-- A time of day. -/
structure Time where
  hour : Nat
  minute : Nat
  second : Nat
  microsecond : Nat
  /-- Minutes east of universal time, if the time is aware. -/
  offset : Option Int
deriving DecidableEq, Repr, Inhabited

namespace Time

/-- Hour, minute and second, joined by colons. -/
def clockChars (t : Time) : List Char :=
  Text.decimalFilled 2 t.hour ++ ':' :: Text.decimalFilled 2 t.minute ++
    ':' :: Text.decimalFilled 2 t.second

/-- A point and the first `places` digits of the microseconds; nothing if there are none. -/
def fractionChars (places : Nat) (t : Time) : List Char :=
  if t.microsecond = 0 then [] else '.' :: (Text.decimalFilled 6 t.microsecond).take places

/-- Hours and minutes from universal time with their sign; nothing for a time that is not aware. -/
def offsetChars (t : Time) : List Char :=
  match t.offset with
  | none => []
  | some o => (if o < 0 then '-' else '+') ::
      (Text.decimalFilled 2 (o.natAbs / 60) ++ ':' :: Text.decimalFilled 2 (o.natAbs % 60))

/-- The ISO 8601 characters of a time. -/
def isoChars (t : Time) : List Char :=
  t.clockChars ++ t.fractionChars 6 ++ t.offsetChars

def iso (t : Time) : String :=
  String.ofList t.isoChars

/-- The distance written by a sign, hours and minutes. -/
def readOffset? : List Char → Option (Option Int)
  | [] => some none
  | [sign, h₁, h₂, ':', m₁, m₂] => do
    let h ← Text.readDecimal? [h₁, h₂]
    let m ← Text.readDecimal? [m₁, m₂]
    let minutes : Int := 60 * h + m
    if sign = '+' then pure (some minutes) else if sign = '-' then pure (some (-minutes)) else none
  | _ => none

/-- The microseconds written by a point and six digits, and what follows them. -/
def readFraction? : List Char → Option (Nat × List Char)
  | '.' :: u₁ :: u₂ :: u₃ :: u₄ :: u₅ :: u₆ :: rest =>
    (Text.readDecimal? [u₁, u₂, u₃, u₄, u₅, u₆]).map fun n => (n, rest)
  | cs => some (0, cs)

/-- The time written by a run of characters. -/
def read? : List Char → Option Time
  | h₁ :: h₂ :: ':' :: m₁ :: m₂ :: ':' :: s₁ :: s₂ :: rest => do
    let hour ← Text.readDecimal? [h₁, h₂]
    let minute ← Text.readDecimal? [m₁, m₂]
    let second ← Text.readDecimal? [s₁, s₂]
    let (microsecond, rest) ← readFraction? rest
    let offset ← readOffset? rest
    pure ⟨hour, minute, second, microsecond, offset⟩
  | _ => none

def ofText? (s : String) : Option Time :=
  read? s.toList

/-- Whether a time says how far it is from universal time. -/
def isAware (t : Time) : Bool :=
  t.offset.isSome

/-- Seconds from the midnight of universal time, possibly negative. -/
def universalSeconds (t : Time) : Int :=
  60 * (60 * (t.hour : Int) + t.minute - t.offset.getD 0) + t.second

/-- Whether two times are the same: both aware or both not, and the same instant. -/
def same (t u : Time) : Bool :=
  t.isAware = u.isAware && t.universalSeconds = u.universalSeconds && t.microsecond = u.microsecond

end Time

end ChartTree
