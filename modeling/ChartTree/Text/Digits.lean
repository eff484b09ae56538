/-!
# Digits

Numbers as characters: zero-padded decimal and hexadecimal text of a fixed width, and the readers
that go back. A reader accepts a non-empty run of digits of its base and nothing else, so a text
is read in at most one way.
-/

namespace ChartTree.Text

/-- Decimal digits of `n`, most significant first, without leading zeros. -/
def decimal (n : Nat) : List Char :=
  Nat.toDigits 10 n

/-- `cs` filled up with zeros on the left to at least `width` characters. -/
def zeroFilled (width : Nat) (cs : List Char) : List Char :=
  List.replicate (width - cs.length) '0' ++ cs

/-- Decimal digits of `n`, at least `width` of them. -/
def decimalFilled (width n : Nat) : List Char :=
  zeroFilled width (decimal n)

/-- Lower-case hexadecimal digits of `n`, at least `width` of them. -/
def hexFilled (width n : Nat) : List Char :=
  zeroFilled width (Nat.toDigits 16 n)

/-- Decimal text of an integer: a minus sign in front of the digits of a negative one. -/
def signed (n : Int) : List Char :=
  if n < 0 then '-' :: decimal n.natAbs else decimal n.natAbs

/-- The number written by a non-empty run of decimal digits. -/
def readDecimal? (cs : List Char) : Option Nat :=
  if cs.isEmpty || !cs.all Char.isDigit then none else some (Nat.ofDigitChars 10 cs 0)

/-- The value of one hexadecimal digit, in either case. -/
def hexDigit? (c : Char) : Option Nat :=
  if c.isDigit then some (c.toNat - '0'.toNat)
  else if 'a' ≤ c ∧ c ≤ 'f' then some (c.toNat - 'a'.toNat + 10)
  else if 'A' ≤ c ∧ c ≤ 'F' then some (c.toNat - 'A'.toNat + 10)
  else none

/-- The number written by a run of hexadecimal digits, `n` being the value of what stands before. -/
def readHexFrom? (n : Nat) : List Char → Option Nat
  | [] => some n
  | c :: rest => (hexDigit? c).bind fun d => readHexFrom? (16 * n + d) rest

/-- The number written by a non-empty run of hexadecimal digits. -/
def readHex? (cs : List Char) : Option Nat :=
  if cs.isEmpty then none else readHexFrom? 0 cs

theorem isDigit_of_mem_decimal {n : Nat} {c : Char} (h : c ∈ decimal n) : c.isDigit = true :=
  Nat.isDigit_of_mem_toDigits (by decide) (by decide) h

theorem decimal_ne_nil (n : Nat) : decimal n ≠ [] :=
  Nat.toDigits_ne_nil

theorem readDecimal?_decimal (n : Nat) : readDecimal? (decimal n) = some n := by
  have nonempty : (decimal n).isEmpty = false := by simp [decimal_ne_nil]
  have digits : (decimal n).all Char.isDigit = true :=
    List.all_eq_true.2 fun _ h => isDigit_of_mem_decimal h
  rw [readDecimal?, nonempty, digits]
  simp [decimal]

theorem decimal_injective {m n : Nat} (h : decimal m = decimal n) : m = n := by
  have := congrArg readDecimal? h
  simpa [readDecimal?_decimal] using this

end ChartTree.Text
