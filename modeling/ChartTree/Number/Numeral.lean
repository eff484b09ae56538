import ChartTree.Text.Digits

/-!
# Numerals

The written form of a number: a sign, a whole part, the digits after the point and a power of ten.
Writing shows the exponent with its sign and at least two digits. Reading takes the longest
numeral at the front of a text, with no leading zero in the whole part, and leaves the rest; a
point or an exponent letter that no digit follows belongs to the rest.
-/

namespace ChartTree

/-- A decimal digit. -/
abbrev Digit := Fin 10

/-- The written form of a number. -/
structure Numeral where
  negative : Bool
  whole : Nat
  /-- The digits after the point; without any there is no point. -/
  fraction : List Digit
  /-- The power of ten, if one is written. -/
  exponent : Option Int
deriving DecidableEq, Repr, Inhabited

namespace Numeral

def ofInt (n : Int) : Numeral :=
  ⟨n < 0, n.natAbs, [], none⟩

/-- The integer written by a numeral without point and exponent. -/
def toInt? (n : Numeral) : Option Int :=
  if n.fraction.isEmpty && n.exponent.isNone then
    some (if n.negative then -n.whole else n.whole)
  else none

def digitChar (d : Digit) : Char :=
  Nat.digitChar d.val

def digit (c : Char) : Digit :=
  Fin.ofNat 10 (c.toNat - '0'.toNat)

def zeroDigit : Digit := ⟨0, by decide⟩

def digits (n : Nat) : List Digit :=
  (Text.decimal n).map digit

/-- The point and the digits after it. -/
def fractionText : List Digit → List Char
  | [] => []
  | ds => '.' :: ds.map digitChar

/-- The exponent letter, the sign and at least two digits. -/
def exponentText : Option Int → List Char
  | none => []
  | some e => 'e' :: (if e < 0 then '-' else '+') :: Text.decimalFilled 2 e.natAbs

def text (n : Numeral) : List Char :=
  (if n.negative then ['-'] else []) ++
    (Text.decimal n.whole ++ (fractionText n.fraction ++ exponentText n.exponent))

/-- Reads the whole part: a lone zero, or a run of digits that does not start with zero. -/
def readWhole : List Char → Option (Nat × List Char)
  | '0' :: rest => some (0, rest)
  | cs =>
    (Text.readDecimal? (cs.takeWhile Char.isDigit)).map fun n => (n, cs.dropWhile Char.isDigit)

/-- Reads a point and the digits after it, if there is a digit after the point. -/
def readFraction : List Char → List Digit × List Char
  | '.' :: rest =>
    match rest.takeWhile Char.isDigit with
    | [] => ([], '.' :: rest)
    | ds => (ds.map digit, rest.dropWhile Char.isDigit)
  | cs => ([], cs)

/-- Reads a run of digits as an exponent, negated if `negative`. -/
def readExponentDigits (negative : Bool) (cs : List Char) : Option (Int × List Char) :=
  (Text.readDecimal? (cs.takeWhile Char.isDigit)).map fun n =>
    (if negative then -n else n, cs.dropWhile Char.isDigit)

/-- Reads what follows the exponent letter: an optional sign and digits. -/
def readSignedExponent : List Char → Option (Int × List Char)
  | '-' :: rest => readExponentDigits true rest
  | '+' :: rest => readExponentDigits false rest
  | cs => readExponentDigits false cs

/-- Reads an exponent, if one stands there. -/
def readExponent : List Char → Option Int × List Char
  | c :: rest =>
    if c = 'e' || c = 'E' then
      match readSignedExponent rest with
      | some (e, rest') => (some e, rest')
      | none => (none, c :: rest)
    else (none, c :: rest)
  | [] => (none, [])

/-- Reads a numeral without its sign. -/
def readUnsigned (negative : Bool) (cs : List Char) : Option (Numeral × List Char) :=
  (readWhole cs).map fun (whole, afterWhole) =>
    let (fraction, afterFraction) := readFraction afterWhole
    let (exponent, rest) := readExponent afterFraction
    (⟨negative, whole, fraction, exponent⟩, rest)

/-- Reads the numeral at the front of a text. -/
def read : List Char → Option (Numeral × List Char)
  | '-' :: rest => readUnsigned true rest
  | cs => readUnsigned false cs

/-- An integer is read back from its numeral. -/
theorem toInt?_ofInt (n : Int) : (ofInt n).toInt? = some n := by
  have value : (if decide (n < 0) = true then -(n.natAbs : Int) else n.natAbs) = n := by
    by_cases negative : n < 0
    · rw [if_pos (by simpa using negative)]; omega
    · rw [if_neg (by simpa using negative)]; omega
  exact congrArg some value

end Numeral

end ChartTree
