import ChartTree.Text.Digits
import ChartTree.Text.Printable

/-!
# Quoted text

A text between quotes, for messages. Single quotes are used unless the text holds a single quote
and no double one. The quote in use, the backslash, and every character that is not printable are
written as escapes: `\t`, `\n` and `\r` by name, the others by code point in the shortest of two,
four or eight hexadecimal digits. Bytes are quoted alike after the letter `b`.
-/

namespace ChartTree.Text

/-- The quote that encloses a text. -/
def quoteFor (cs : List Char) : Char :=
  if cs.contains '\x27' && !cs.contains '\x22' then '\x22' else '\x27'

/-- The escape of a code point: two, four or eight hexadecimal digits. -/
def codeEscape (n : Nat) : List Char :=
  if n < 0x100 then '\\' :: 'x' :: hexFilled 2 n
  else if n < 0x10000 then '\\' :: 'u' :: hexFilled 4 n
  else '\\' :: 'U' :: hexFilled 8 n

/-- A character inside a text that `quote` encloses; `shown` says which stand for themselves. -/
def quotedChar (quote : Char) (shown : Char → Bool) (c : Char) : List Char :=
  if c = quote || c = '\\' then ['\\', c]
  else if c = '\n' then ['\\', 'n']
  else if c = '\r' then ['\\', 'r']
  else if c = '\t' then ['\\', 't']
  else if shown c then [c]
  else codeEscape c.toNat

def quoted (s : String) : String :=
  let quote := quoteFor s.toList
  String.ofList (quote :: s.toList.flatMap (quotedChar quote isPrintable) ++ [quote])

/-- Bytes between quotes: those in the graphic range of ASCII stand for themselves. -/
def quotedBytes (bytes : List UInt8) : String :=
  let cs := bytes.map fun b => Char.ofNat b.toNat
  let quote := quoteFor cs
  let shown := fun (c : Char) => 0x20 ≤ c.toNat && c.toNat < 0x7f
  String.ofList ('b' :: quote :: cs.flatMap (quotedChar quote shown) ++ [quote])

example : quoted "it's" = "\"it's\"" ∧ quoted "a\n\"'" = "'a\\n\"\\''" := by
  decide +kernel

example : quotedBytes [0x61, 0x27, 0x5c, 0x00, 0xff] = "b\"a'\\\\\\x00\\xff\"" := by
  decide +kernel

end ChartTree.Text
