import ChartTree.Number.Binary64
import ChartTree.Number.Decimal

/-!
# Exact numeric values

The value of a number, whatever the format that holds it: a signed product of a number prime to
ten with powers of two and five, or an infinity. Each value has one such form, so two numbers of
any formats are equal in value exactly if their forms are the same. Not-a-number has no value.
-/

namespace ChartTree

/-- The value of a number: `core * 2 ^ twos * 5 ^ fives` with `core` prime to ten, or infinite. -/
inductive ExactNumber where
  | finite (negative : Bool) (core : Nat) (twos fives : Int)
  | infinite (negative : Bool)
deriving DecidableEq, Repr

namespace ExactNumber

/-- Divides by `p` as often as possible, at most `fuel` times: how often, and what is left. -/
def divideOut (p : Nat) : Nat → Nat → Nat × Nat
  | 0, n => (0, n)
  | fuel + 1, n =>
    if n % p = 0 then
      let (count, left) := divideOut p fuel (n / p)
      (count + 1, left)
    else (0, n)

/-- The value `n * 2 ^ twos * 5 ^ fives`. -/
def ofProduct (negative : Bool) (n : Nat) (twos fives : Int) : ExactNumber :=
  if n = 0 then .finite false 0 0 0
  else
    let (a, odd) := divideOut 2 (n.log2 + 1) n
    let (b, core) := divideOut 5 (odd.log2 + 1) odd
    .finite negative core (twos + a) (fives + b)

def ofInt (n : Int) : ExactNumber :=
  ofProduct (n < 0) n.natAbs 0 0

def ofBinary64? : Binary64 → Option ExactNumber
  | .finite negative m e .. => some (ofProduct negative m e 0)
  | .infinite negative => some (.infinite negative)
  | .nan => none

def ofDecimal? : Decimal → Option ExactNumber
  | .finite negative c e => some (ofProduct negative c e e)
  | .infinite negative => some (.infinite negative)
  | .nan .. => none

example : ofDecimal? (.finite false 150 (-2)) =
    ofBinary64? (.finite false 6755399441055744 (-52)) := by
  decide +kernel

end ExactNumber

end ChartTree
