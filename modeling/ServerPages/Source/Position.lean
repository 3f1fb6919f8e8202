import ServerPages.Text.Utf8

/-!
# Positions in sources

A position names a source, a line and a column in it, both counted from one, and a byte offset.
Columns count characters. A position inside an included file also names the files it was included
from, innermost first. Positions made by hand may have any numbers, also ones that no place of a
source has.
-/

namespace ServerPages

/-- The number that a signed word of 64 bits holds instead of `n`. -/
def word (n : Int) : Int := n.bmod 18446744073709551616

/-- A line and a column. -/
structure LineCol where
  /-- The line, counted from one. -/
  line : Int
  /-- The column, counted from one in characters. -/
  col : Int
  deriving DecidableEq, Repr

namespace LineCol

/-- The place after one character. -/
def step (p : LineCol) (c : Nat) : LineCol :=
  if c == 10 then ⟨p.line + 1, 1⟩ else ⟨p.line, p.col + 1⟩

/-- The place after a text. -/
def advance (p : LineCol) (s : Bytes) : LineCol := (Utf8.chars s).foldl step p

end LineCol

/-- A place in a source. -/
structure Position where
  /-- The name of the source. -/
  file : Bytes := []
  /-- The line, counted from one; zero in a position that was never set. -/
  line : Int := 0
  /-- The column, counted from one in characters. -/
  col : Int := 0
  /-- The number of bytes before the place. -/
  offset : Int := 0
  /-- The sources the source is included from, innermost first. -/
  includedFrom : List Bytes := []
  deriving DecidableEq, Repr

namespace Position

/-- Whether the position was never set. -/
def isUnset (p : Position) : Bool := p.file == [] && p.line == 0

/-- The position after the text `s`, which starts at `p`. -/
def advance (p : Position) (s : Bytes) : Position :=
  let q := LineCol.advance ⟨p.line, p.col⟩ s
  { p with line := q.line, col := q.col, offset := p.offset + s.length }

/-- The position with its numbers as words. -/
def wrapped (p : Position) : Position :=
  { p with line := word p.line, col := word p.col, offset := word p.offset }

/-- The position as it is reported: file, line and column. -/
def text (p : Position) : Bytes :=
  p.file ++ ":" ++ Bytes.ofInt p.line ++ ":" ++ Bytes.ofInt p.col

end Position

end ServerPages
