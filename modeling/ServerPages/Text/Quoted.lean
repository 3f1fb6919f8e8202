import ServerPages.Text.Utf8
import ServerPages.Unicode.Printable

/-!
# Quoted literals

A byte string is written as a double-quoted literal of the generated language, and a character as
a single-quoted one. Printable characters stand for themselves; the quote, the backslash and all
else are written as escapes, a byte that is not well formed as `\x` and its two digits.
-/

namespace ServerPages.Quoted

/-- The letter after the backslash for the control characters that have one. -/
def controlLetter? (c : Nat) : Option UInt8 :=
  if c == 7 then some 97
  else if c == 8 then some 98
  else if c == 12 then some 102
  else if c == 10 then some 110
  else if c == 13 then some 114
  else if c == 9 then some 116
  else if c == 11 then some 118
  else none

/-- The escape of a byte by its value. -/
def byteEscape (n : Nat) : Bytes := 92 :: 120 :: Bytes.hex 2 n

/-- A character inside a literal between `quote` marks. -/
def escapeChar (quote : UInt8) (c : Nat) : Bytes :=
  if c == quote.toNat || c == 92 then [92, c.toUInt8]
  else if Unicode.isPrintable c then Utf8.encode c
  else match controlLetter? c with
    | some l => [92, l]
    | none =>
      if c < 32 || c == 127 then byteEscape c
      else if c < 0x10000 then 92 :: 117 :: Bytes.hex 4 c
      else 92 :: 85 :: Bytes.hex 8 c

/-- A character of a byte string, with its bytes, inside a literal between `quote` marks. -/
def escapePiece (quote : UInt8) (p : Nat × Bytes) : Bytes :=
  if Utf8.isBroken p then p.2.flatMap fun b => byteEscape b.toNat else escapeChar quote p.1

/-- The double-quoted literal of a byte string. -/
def string (s : Bytes) : Bytes := 34 :: ((Utf8.pieces s).flatMap (escapePiece 34) ++ [34])

/-- The single-quoted literal of a character. -/
def char (c : Nat) : Bytes := 39 :: (escapeChar 39 c ++ [39])

end ServerPages.Quoted
