/-!
# Blank characters

The characters that count as white space at the ends of a configured text: those with the Unicode
property `White_Space` and the four information separators U+001C to U+001F. Trimming removes the
longest run of them at either end and nothing in between.
-/

namespace ChartTree.Text

/-- Code points of the blank characters, as closed ranges in increasing order. -/
def blankRanges : List (Nat × Nat) :=
  [(0x09, 0x0d), (0x1c, 0x20), (0x85, 0x85), (0xa0, 0xa0), (0x1680, 0x1680), (0x2000, 0x200a),
   (0x2028, 0x2029), (0x202f, 0x202f), (0x205f, 0x205f), (0x3000, 0x3000)]

def isBlank (c : Char) : Bool :=
  blankRanges.any fun r => r.1 ≤ c.toNat && c.toNat ≤ r.2

/-- The characters without the blank ones at either end. -/
def trimmed (cs : List Char) : List Char :=
  ((cs.dropWhile isBlank).reverse.dropWhile isBlank).reverse

def trim (s : String) : String :=
  String.ofList (trimmed s.toList)

example : trim "\u2003 a b\x1f\u0085" = "a b" := by decide +kernel

end ChartTree.Text
