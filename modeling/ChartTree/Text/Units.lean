/-!
# Sixteen-bit units

Characters as units of sixteen bits: one unit for a character below U+10000, a high and a low
surrogate for any other. Joining takes units back to characters and refuses a surrogate that is
not part of a pair; a unit that already is a code point above U+FFFF stands for itself.
-/

namespace ChartTree.Text

/-- Whether a unit is the first half of a pair. -/
def isHighSurrogate (u : Nat) : Bool :=
  0xd800 ≤ u && u ≤ 0xdbff

/-- Whether a unit is the second half of a pair. -/
def isLowSurrogate (u : Nat) : Bool :=
  0xdc00 ≤ u && u ≤ 0xdfff

def units (c : Char) : List Nat :=
  if c.toNat < 0x10000 then [c.toNat]
  else [0xd800 + (c.toNat - 0x10000) / 0x400, 0xdc00 + (c.toNat - 0x10000) % 0x400]

/-- The character of a pair of surrogates. -/
def ofPair (high low : Nat) : Char :=
  Char.ofNat (0x10000 + (high - 0xd800) * 0x400 + (low - 0xdc00))

/-- The characters that a run of units stands for. -/
def joinUnits : List Nat → Option (List Char)
  | [] => some []
  | u :: rest =>
    if isHighSurrogate u then
      match rest with
      | v :: rest' =>
        if isLowSurrogate v then (joinUnits rest').map (ofPair u v :: ·) else none
      | [] => none
    else if isLowSurrogate u then none
    else (joinUnits rest).map (Char.ofNat u :: ·)

example : units '\u00e9' = [0xe9] ∧ ("😀".toList.flatMap units) = [0xd83d, 0xde00] ∧
    joinUnits [0xd83d, 0xde00] = some "😀".toList ∧ joinUnits [0xde00] = none := by
  decide +kernel

end ChartTree.Text
