import ServerPages.Source.Position

/-!
# Reading a stack of sources

A cursor reads one source at a time. Opening an included source suspends the current one, and
leaving it resumes where the suspended one stopped. A bookmark taken anywhere keeps the place and
the suspended sources it was taken with, so the cursor can return to it later.

Main operations: `Cursor.next`, `Cursor.skip`, the literal tests `Cursor.accept?`,
`Cursor.acceptAfterBlanks?` and `Cursor.acceptEndTag?`, the searches `Cursor.seek?`,
`Cursor.seekUnescaped?` and `Cursor.seekEndTag?`, and the word readers `Cursor.name` and
`Cursor.token`. An operation that fails consumes nothing, a quoted token that is not closed apart.
-/

namespace ServerPages

/-- One named input. Two inputs with the same name and text are told apart by their serial. -/
structure Source where
  /-- The number of sources opened before this one. -/
  serial : Nat
  /-- The name it is reported under. -/
  name : Bytes
  /-- Its text. -/
  data : Bytes
  deriving DecidableEq, Repr

/-- A place inside a source, with the text from there on. -/
structure Place where
  /-- The source. -/
  source : Source
  /-- The number of bytes before the place. -/
  offset : Nat
  /-- The line, counted from one. -/
  line : Int
  /-- The column, counted from one in characters. -/
  col : Int
  /-- The text after the place. -/
  rest : Bytes
  deriving DecidableEq, Repr

namespace Place

/-- The start of a source. -/
def start (s : Source) : Place := ⟨s, 0, 1, 1, s.data⟩

/-- The place after the text `s`, which stands at `p`. -/
def advance (p : Place) (s : Bytes) : Place :=
  let q := LineCol.advance ⟨p.line, p.col⟩ s
  { p with
    offset := p.offset + s.length, line := q.line, col := q.col, rest := p.rest.drop s.length }

/-- Whether the place lies beyond the end of its source. -/
def isBeyond (p : Place) : Bool := p.source.data.length < p.offset

end Place

/-- A reading position in a stack of sources. -/
structure Cursor where
  /-- The place in the current source. -/
  place : Place
  /-- The suspended places, innermost first. -/
  outer : List Place
  /-- The number of sources opened so far. -/
  opened : Nat
  deriving DecidableEq, Repr

/-- A position that a cursor may return to. One made by hand has no place to return to. -/
structure Bookmark where
  /-- The position as reported. -/
  position : Position
  /-- The place and the suspended sources the bookmark was taken with. -/
  saved : Option (Place × List Place)
  deriving DecidableEq, Repr

namespace Bookmark

/-- A bookmark that was never set. -/
def unset : Bookmark := ⟨{}, none⟩

/-- A bookmark made by hand. -/
def detached (file : Bytes) (line col offset : Int) : Bookmark :=
  ⟨{ file := file, line := line, col := col, offset := offset }, none⟩

/-- The bookmark after the text `s`, which starts at `m`. The numbers of one made by hand may have
no larger ones after them and start again at the least one then. -/
def advance (m : Bookmark) (s : Bytes) : Bookmark :=
  match m.saved with
  | some (p, outer) => ⟨m.position.advance s, some (p.advance s, outer)⟩
  | none => ⟨(m.position.advance s).wrapped, none⟩

end Bookmark

namespace Cursor

/-! ### Places -/

/-- A cursor at the start of a text read under a name. -/
def ofText (name data : Bytes) : Cursor := ⟨.start ⟨0, name, data⟩, [], 1⟩

/-- The names of the suspended sources, innermost first. -/
def includedFrom (c : Cursor) : List Bytes := c.outer.map (·.source.name)

/-- The current position. -/
def position (c : Cursor) : Position :=
  { file := c.place.source.name, line := c.place.line, col := c.place.col,
    offset := c.place.offset, includedFrom := c.includedFrom }

/-- A bookmark at the current place. -/
def bookmark (c : Cursor) : Bookmark := ⟨c.position, some (c.place, c.outer)⟩

/-- The cursor back at a bookmark, unless the bookmark was made by hand. -/
def reset? (c : Cursor) (m : Bookmark) : Option Cursor :=
  m.saved.map fun (p, outer) => { c with place := p, outer := outer }

/-- The number of suspended sources. -/
def depth (c : Cursor) : Nat := c.outer.length

/-- The name of the current source. -/
def file (c : Cursor) : Bytes := c.place.source.name

/-- The unread text of the current source. -/
def rest (c : Cursor) : Bytes := c.place.rest

/-- Whether the current source is read to its end. -/
def atEnd (c : Cursor) : Bool := c.place.source.data.length ≤ c.place.offset

/-- Whether a source of that name is being read. -/
def isReading (c : Cursor) (name : Bytes) : Bool :=
  c.place.source.name == name || c.outer.any (·.source.name == name)

/-- The cursor at the start of an included source, the current one suspended. A source that is
already being read cannot be opened again. -/
def open? (c : Cursor) (name data : Bytes) : Option Cursor :=
  if c.isReading name then none
  else some ⟨.start ⟨c.opened, name, data⟩, c.place :: c.outer, c.opened + 1⟩

/-- The message when a source that is being read is opened again. -/
def circularText (name : Bytes) : Bytes := "circular include: " ++ name

/-- The cursor back in the source suspended last, if there is one. -/
def close? (c : Cursor) : Option Cursor :=
  match c.outer with
  | [] => none
  | p :: ps => some { c with place := p, outer := ps }

/-- The cursor after the text `s`, which stands at it. -/
def pass (c : Cursor) (s : Bytes) : Cursor := { c with place := c.place.advance s }

/-- The text between two bookmarks of one source, empty if they are none; `none` if the source ends
before the second one. -/
def textBetween? (a b : Bookmark) : Option Bytes :=
  match a.saved, b.saved with
  | some (p, _), some (q, _) =>
    if p.source.serial != q.source.serial || q.offset < p.offset then some []
    else if q.isBeyond then none
    else some (p.source.data.slice p.offset q.offset)
  | _, _ => some []

/-! ### Single characters -/

/-- The next character. -/
def peek? (c : Cursor) : Option Nat := (Utf8.first? c.rest).map (·.1)

/-- The character `n` characters ahead. -/
def peekAt? (c : Cursor) (n : Nat) : Option Nat := (Utf8.chars c.rest)[n]?

/-- The next character, consumed. -/
def next (c : Cursor) : Option Nat × Cursor :=
  match Utf8.first? c.rest with
  | none => (none, c)
  | some (ch, width) => (some ch, c.pass (c.rest.take width))

/-- The cursor `n` bytes on, or at the end if fewer are left. -/
def skip (c : Cursor) (n : Nat) : Cursor := c.pass (c.rest.take n)

/-! ### Literals -/

/-- Whether the unread text starts with `lit`. -/
def sees (c : Cursor) (lit : Bytes) : Bool := c.rest.startsWith lit

/-- The cursor after `lit`, if the unread text starts with it. -/
def accept? (c : Cursor) (lit : Bytes) : Option Cursor :=
  if c.sees lit then some (c.pass lit) else none

/-- The blanks at the cursor. -/
def blanks (c : Cursor) : Bytes := c.rest.takeWhile Bytes.isBlankByte

/-- The cursor after the blanks at it. -/
def skipBlanks (c : Cursor) : Cursor := c.pass c.blanks

/-- The cursor after blanks and then `lit`. -/
def acceptAfterBlanks? (c : Cursor) (lit : Bytes) : Option Cursor := c.skipBlanks.accept? lit

/-- The cursor after an end tag `</name>`, in which blanks may precede the `>`. -/
def acceptEndTag? (c : Cursor) (name : Bytes) : Option Cursor := do
  let c ← c.accept? ("</" ++ name)
  c.acceptAfterBlanks? ">"

/-! ### Searches -/

/-- The cursor at the first occurrence of `lit`, and after it. -/
def seek? (c : Cursor) (lit : Bytes) : Option (Cursor × Cursor) :=
  (c.rest.indexOf? lit).map fun i =>
    let here := c.skip i
    (here, here.skip lit.length)

/-- The offset of the first occurrence of `lit` before which stands an even number of `esc`
bytes; `odd` tells whether the number of those right before `s` is odd. -/
def indexOfUnescaped? (lit : Bytes) (esc : UInt8) : Bool → Bytes → Option Nat
  | odd, [] => if lit.isEmpty && !odd then some 0 else none
  | odd, b :: s =>
    if !odd && lit.isPrefixOf (b :: s) then some 0
    else (indexOfUnescaped? lit esc (b == esc && !odd) s).map (· + 1)

/-- The cursor at the first occurrence of `lit` that is not escaped by `esc`, and after it. -/
def seekUnescaped? (c : Cursor) (lit : Bytes) (esc : UInt8) : Option (Cursor × Cursor) :=
  (indexOfUnescaped? lit esc false c.rest).map fun i =>
    let here := c.skip i
    (here, here.skip lit.length)

/-- `seekEndTag?` looking at no more than `fuel` occurrences of `</name`. -/
def seekEndTagWithin (name : Bytes) : Nat → Cursor → Option (Cursor × Cursor)
  | 0, _ => none
  | fuel + 1, c =>
    match c.seek? ("</" ++ name) with
    | none => none
    | some (here, after) =>
      match after.acceptAfterBlanks? ">" with
      | some done => some (here, done)
      | none => seekEndTagWithin name fuel after.skipBlanks

/-- The cursor at the end tag `</name>`, and after it. Every occurrence of `</name` takes at least
two bytes, so the unread text has no more of them than bytes. -/
def seekEndTag? (c : Cursor) (name : Bytes) : Option (Cursor × Cursor) :=
  seekEndTagWithin name (c.rest.length + 1) c

/-! ### Words -/

/-- A byte of a name: a letter, a digit, `_`, `-`, `.`, `:` or a byte of a character beyond
ASCII. -/
def isNameByte (b : UInt8) : Bool :=
  Bytes.isAlpha b || Bytes.isDigit b || b == 95 || b == 45 || b == 46 || b == 58 || 0x80 ≤ b

/-- The name at the start of a text, empty if none stands there. -/
def nameOf (s : Bytes) : Bytes := s.takeWhile isNameByte

/-- The name at the cursor, and the cursor after it. -/
def name (c : Cursor) : Bytes × Cursor := (nameOf c.rest, c.pass (nameOf c.rest))

/-- The text inside a quoted token up to the closing mark `q`, and the bytes read, the mark
included. A backslash before the mark or another backslash is dropped. -/
def quotedToken (q : Nat) : List (Nat × Bytes) → Option (Bytes × Bytes)
  | [] => none
  | [(c, b)] => if c == q then some ([], b) else none
  | (c, b) :: (d, e) :: ps =>
    if c == q then some ([], b)
    else if c == 92 && (d == q || d == 92) then
      (quotedToken q ps).map fun (text, read) => (Utf8.encode d ++ text, b ++ e ++ read)
    else
      (quotedToken q ((d, e) :: ps)).map fun (text, read) => (Utf8.encode c ++ text, b ++ read)

/-- A byte at which an unquoted token ends. -/
def endsToken (b : UInt8) : Bool :=
  Bytes.isBlankByte b || b == 61 || b == 37 || b == 34 || b == 39

/-- The token after blanks, and the cursor after it. With `quoted`, a token that starts with a
quote mark runs to the matching one; there is none if the source ends before, and then the cursor
is at the end. -/
def token (c : Cursor) (quoted : Bool) : Option Bytes × Cursor :=
  let c := c.skipBlanks
  match c.rest with
  | q :: s =>
    if quoted && (q == 34 || q == 39) then
      match quotedToken q.toNat (Utf8.pieces s) with
      | some (text, read) => (some text, c.pass (q :: read))
      | none => (none, c.pass c.rest)
    else
      let word := c.rest.takeWhile (!endsToken ·)
      (some word, c.pass word)
  | [] => (some [], c)

end Cursor

end ServerPages
