import ChartTree.Number.Numeral

/-!
# Binary floating point

Numbers of the binary64 format, a finite one as sign, significand and power of two. Reading rounds
the exact value of a numeral to the nearest number, ties to the even significand. Writing chooses
the fewest decimal digits that lie in the interval of reals rounding to the number, and of those
the nearest to it; the point is placed positionally from 0.0001 up to sixteen digits before the
point, and a power of ten is written outside that range.
-/

namespace ChartTree

namespace Binary64

/-- The least power of two of a finite number. -/
def minExponent : Int := -1074

/-- The greatest power of two of a finite number. -/
def maxExponent : Int := 971

/-- The first significand that needs one more bit than the format has. -/
def mantissaLimit : Nat := Nat.pow 2 53

/-- The least significand of a number that is not subnormal. -/
def normalMantissa : Nat := Nat.pow 2 52

/-- Whether a significand and a power of two are those of a number of the format: the significand
has the bits that it can have, and the first of them is set unless the power is the least. -/
def isCanonical (m : Nat) (e : Int) : Bool :=
  m < mantissaLimit && minExponent ≤ e && (normalMantissa ≤ m || e = minExponent)

end Binary64

/-- A binary64 number; a finite one is `mantissa * 2 ^ exponent`. -/
inductive Binary64 where
  | finite (negative : Bool) (mantissa : Nat) (exponent : Int)
    (canonical : Binary64.isCanonical mantissa exponent = true := by decide)
    (inRange : exponent ≤ Binary64.maxExponent := by decide)
  | infinite (negative : Bool)
  | nan
deriving DecidableEq, Repr, Inhabited

namespace Binary64

/-- `num / (den * base ^ e)` as a quotient of natural numbers. -/
def scaledDown (base num den : Nat) (e : Int) : Nat × Nat :=
  if 0 ≤ e then (num, den * Nat.pow base e.toNat) else (num * Nat.pow base (-e).toNat, den)

/-- The quotient rounded to the nearest integer, ties to even. -/
def roundQuotient (num den : Nat) : Nat :=
  let k := num / den
  let r := 2 * (num % den)
  if den < r || (r = den && k % 2 = 1) then k + 1 else k

/-- The power of two in whose units a quotient has a significand of the format. -/
def unitExponent (num den : Nat) : Int :=
  let guess : Int := (num.log2 : Int) - den.log2 - 52
  let (a, b) := scaledDown 2 num den guess
  max minExponent (if a / b < normalMantissa then guess - 1 else guess)

/-- The number nearest to a quotient. -/
def ofQuotient (negative : Bool) (num den : Nat) : Binary64 :=
  if num = 0 then .finite negative 0 minExponent
  else
    let e := unitExponent num den
    let (a, b) := scaledDown 2 num den e
    let m := roundQuotient a b
    let (m, e) := if m = mantissaLimit then (normalMantissa, e + 1) else (m, e)
    if fits : isCanonical m e = true ∧ e ≤ maxExponent then .finite negative m e fits.1 fits.2
    else .infinite negative

/-- The number nearest to the value of a numeral. -/
def ofNumeral (n : Numeral) : Binary64 :=
  let m := n.fraction.foldl (fun m d => 10 * m + d.val) n.whole
  let e := n.exponent.getD 0 - n.fraction.length
  let (den, num) := scaledDown 10 1 m e
  ofQuotient n.negative num den

/-- The number written by a text: a numeral, `nan`, or `inf` with or without a minus sign. -/
def ofText? (s : String) : Option Binary64 :=
  if s = "nan" then some .nan
  else if s = "inf" then some (.infinite false)
  else if s = "-inf" then some (.infinite true)
  else match Numeral.read s.toList with
    | some (n, []) => some (ofNumeral n)
    | _ => none

/-- The reals that round to a number and the number itself, over one denominator. -/
structure Interval where
  low : Nat
  value : Nat
  high : Nat
  den : Nat
  /-- Whether the ends round to the number. -/
  closed : Bool

/-- The quarters of a unit below a finite number that round to it: two, and one below a power of
two other than the least. -/
def quartersBelow (m : Nat) (e : Int) : Nat :=
  if m = normalMantissa && minExponent < e then 1 else 2

/-- The interval of a finite number, to half a unit above it. The ends belong to it if the
significand is even. -/
def interval (m : Nat) (e : Int) : Interval :=
  let scale := Nat.pow 2 (e - 2).toNat
  ⟨(4 * m - quartersBelow m e) * scale, 4 * m * scale, (4 * m + 2) * scale,
    Nat.pow 2 (2 - e).toNat, m % 2 = 0⟩

/-- Every end multiplied by a factor. -/
def Interval.scaleUp (i : Interval) (k : Nat) : Interval :=
  ⟨i.low * k, i.value * k, i.high * k, i.den, i.closed⟩

/-- The interval in units of a power of ten. -/
def Interval.inUnits (i : Interval) (g : Int) : Interval :=
  if 0 ≤ g then { i with den := i.den * Nat.pow 10 g.toNat }
  else i.scaleUp (Nat.pow 10 (-g).toNat)

/-- Whether an integer lies in the interval. -/
def Interval.holds (i : Interval) (t : Nat) : Bool :=
  if i.closed then i.low ≤ t * i.den && t * i.den ≤ i.high
  else i.low < t * i.den && t * i.den < i.high

/-- The integer in the interval that is nearest to the number, if one of its two neighbours is in
it; of two equally near ones the even one. -/
def Interval.nearest? (i : Interval) : Option Nat :=
  let t := i.value / i.den
  let below := i.value - t * i.den
  let above := (t + 1) * i.den - i.value
  match i.holds t, i.holds (t + 1) with
  | true, true =>
    some (if below < above || (below = above && t % 2 = 0) then t else t + 1)
  | true, false => some t
  | false, true => some (t + 1)
  | false, false => none

/-- The number of decimal places by which a value below one starts with zeros. -/
def leadingZeros (num den : Nat) : Nat → Nat
  | 0 => 0
  | fuel + 1 => if den ≤ 10 * num then 0 else leadingZeros (10 * num) den fuel + 1

/-- The power of ten of the first significant digit. -/
def Interval.magnitude (i : Interval) : Int :=
  if i.den ≤ i.value then ((Text.decimal (i.value / i.den)).length : Int) - 1
  else -(leadingZeros i.value i.den 400 : Int) - 1

/-- Digits and power of ten of the shortest decimal that rounds to a finite number. -/
def shortest (m : Nat) (e : Int) : Nat × Int :=
  let i := interval m e
  ((List.range 17).findSome? fun (k : Nat) =>
    let g := i.magnitude - k
    (i.inUnits g).nearest?.map fun t => (t, g)).getD (i.value / i.den, 0)

/-- The digits without the zeros at the end; a lone zero stays. -/
def significantDigits (n : Nat) : List Digit :=
  match ((Numeral.digits n).reverse.dropWhile (· == Numeral.zeroDigit)).reverse with
  | [] => [Numeral.zeroDigit]
  | ds => ds

def digitsValue (ds : List Digit) : Nat :=
  ds.foldl (fun n d => 10 * n + d.val) 0

/-- The numeral with the digits `ds`, of which the first `point` stand before the point. -/
def layOut (negative : Bool) (ds : List Digit) (point : Int) : Numeral :=
  if point ≤ -4 || 16 < point then
    ⟨negative, digitsValue (ds.take 1), ds.drop 1, some (point - 1)⟩
  else if point ≤ 0 then
    ⟨negative, 0, List.replicate (-point).toNat Numeral.zeroDigit ++ ds, none⟩
  else
    let padded := ds ++ List.replicate (point.toNat - ds.length) Numeral.zeroDigit
    let fraction := padded.drop point.toNat
    ⟨negative, digitsValue (padded.take point.toNat),
      if fraction.isEmpty then [Numeral.zeroDigit] else fraction, none⟩

/-- The numeral of a finite number. -/
def numeral (negative : Bool) (m : Nat) (e : Int) : Numeral :=
  if m = 0 then ⟨negative, 0, [Numeral.zeroDigit], none⟩
  else
    let (t, g) := shortest m e
    layOut negative (significantDigits t) ((Text.decimal t).length + g)

def text : Binary64 → String
  | .finite negative m e .. => String.ofList (numeral negative m e).text
  | .infinite negative => if negative then "-inf" else "inf"
  | .nan => "nan"

def isZero : Binary64 → Bool
  | .finite _ m .. => m = 0
  | _ => false

example : shortest 1 (-1074) = (5, -324) ∧ shortest 7205759403792794 (-56) = (1, -1) := by
  decide +kernel

example : ofQuotient false 1 10 = .finite false 7205759403792794 (-56) ∧
    ofQuotient true (2 ^ 53 + 1) 1 = .finite true (2 ^ 52) 1 := by
  decide +kernel

end Binary64

end ChartTree
