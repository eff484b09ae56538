import ChartTree.Number.Numeral

/-!
# Decimal numbers

Decimal numbers with an exact coefficient and power of ten, so that `1.50` and `1.5` are equal in
value and different in text. The text is positional as long as the power of ten is not positive
and at most six zeros follow the point before the first digit; otherwise one digit stands before
the point and the power follows the letter `E`, always signed.
-/

namespace ChartTree

/-- A decimal number; a finite one is `coefficient * 10 ^ exponent`. A not-a-number may carry a
number that tells it from others. -/
inductive Decimal where
  | finite (negative : Bool) (coefficient : Nat) (exponent : Int)
  | infinite (negative : Bool)
  | nan (negative signalling : Bool) (payload : Nat)
deriving DecidableEq, Repr, Inhabited

namespace Decimal

/-- Whether a number is zero, of either sign and any exponent. -/
def isZero : Decimal → Bool
  | .finite _ c _ => c = 0
  | _ => false

/-- The text of a power of ten; a zero power is not written. -/
def exponentText (e : Int) : List Char :=
  if e = 0 then [] else 'E' :: (if e < 0 then '-' else '+') :: Text.decimal e.natAbs

/-- The digits with the point after the first `place` of them. -/
def pointed (ds : List Char) (place : Int) : List Char :=
  if place ≤ 0 then '0' :: '.' :: (List.replicate (-place).toNat '0' ++ ds)
  else if ds.length ≤ place then ds ++ List.replicate (place.toNat - ds.length) '0'
  else ds.take place.toNat ++ '.' :: ds.drop place.toNat

/-- The text of the absolute value of a finite number. -/
def magnitudeText (coefficient : Nat) (exponent : Int) : List Char :=
  let ds := Text.decimal coefficient
  let leading := exponent + ds.length
  let place := if exponent ≤ 0 && -6 < leading then leading else 1
  pointed ds place ++ exponentText (leading - place)

/-- The text of the number that a not-a-number carries; zero is not written. -/
def payloadText (payload : Nat) : List Char :=
  if payload = 0 then [] else Text.decimal payload

def text (d : Decimal) : String :=
  let withSign := fun (negative : Bool) (cs : List Char) =>
    String.ofList (if negative then '-' :: cs else cs)
  match d with
  | .finite negative c e => withSign negative (magnitudeText c e)
  | .infinite negative => withSign negative "Infinity".toList
  | .nan negative signalling payload =>
    withSign negative ((if signalling then "sNaN" else "NaN").toList ++ payloadText payload)

/-- Reads an integer with an optional sign. -/
def readInt? : List Char → Option Int
  | '-' :: cs => (Text.readDecimal? cs).map fun n => -n
  | '+' :: cs => (Text.readDecimal? cs).map fun n => n
  | cs => (Text.readDecimal? cs).map fun n => n

/-- Reads digits with at most one point among them: the number they form and how many of them
follow the point. -/
def readPointed? (cs : List Char) : Option (Nat × Nat) :=
  let whole := cs.takeWhile (· != '.')
  let fraction := (cs.dropWhile (· != '.')).drop 1
  (Text.readDecimal? (whole ++ fraction)).map fun n => (n, fraction.length)

/-- Reads the number that a not-a-number carries; nothing written is zero. -/
def readPayload? (cs : List Char) : Option Nat :=
  if cs.isEmpty then some 0 else Text.readDecimal? cs

/-- Reads a number without its sign. -/
def readUnsigned? (negative : Bool) (cs : List Char) : Option Decimal :=
  let name := cs.map Char.toLower
  if name = "inf".toList || name = "infinity".toList then some (.infinite negative)
  else if name.take 3 = "nan".toList then (readPayload? (cs.drop 3)).map (.nan negative false)
  else if name.take 4 = "snan".toList then (readPayload? (cs.drop 4)).map (.nan negative true)
  else do
    let isLetter := fun (c : Char) => c = 'e' || c = 'E'
    let (coefficient, places) ← readPointed? (cs.takeWhile fun c => !isLetter c)
    let exponent ← match cs.dropWhile fun c => !isLetter c with
      | [] => some 0
      | _ :: rest => readInt? rest
    pure (.finite negative coefficient (exponent - places))

def ofText? (s : String) : Option Decimal :=
  match s.toList with
  | '-' :: cs => readUnsigned? true cs
  | '+' :: cs => readUnsigned? false cs
  | cs => readUnsigned? false cs

example : text (.finite false 150 (-2)) = "1.50" ∧ text (.finite true 1 (-7)) = "-1E-7" ∧
    text (.finite false 0 (-2)) = "0.00" ∧ text (.finite false 12 3) = "1.2E+4" := by
  decide +kernel

end Decimal

end ChartTree
