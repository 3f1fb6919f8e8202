import ServerPages.Charset.Basic

/-!
# Lines of a file

A file is read piece by piece into a window, and lines are taken from the window. The window grows
up to a limit as long as it holds no whole line, so a line that does not fit into the largest window
cannot be read. A line ends in a carriage return, a line feed or both. A carriage return that is the
last byte in the window ends a line by itself, because what follows it is not known yet; a line feed
after it then ends an empty line.

Main definition: `LineReader.lines?`.
-/

namespace ServerPages.LineReader

/-! ### Pieces -/

/-- The number of bytes that are decoded at a time. -/
def pieceSize : Nat := 4096

/-- The longest beginning of some characters that takes no more bytes than a piece, and the rest. -/
def fitting : Nat → List Nat → Bytes × List Nat
  | _, [] => ([], [])
  | room, c :: cs =>
    let b := Utf8.encode c
    if room < b.length then ([], c :: cs)
    else
      let (bs, rest) := fitting (room - b.length) cs
      (b ++ bs, rest)

/-- Characters as pieces of UTF-8, of which there are no more than the fuel. -/
def charPieces : Nat → List Nat → List Bytes
  | _, [] => []
  | 0, _ => []
  | fuel + 1, cs =>
    let (p, rest) := fitting pieceSize cs
    p :: charPieces fuel rest

/-- Whether units end in the first half of a character. -/
def endsInHalf (us : List (Option Nat)) : Bool :=
  match us.getLast? with
  | some (some u) => Charset.isSurrogate u
  | _ => false

/-- The pieces of a file of units. Half a character at the end of a piece is left for the next
one. -/
def unitPieces (order : ByteOrder) : Nat → Bytes → List Bytes
  | _, [] => []
  | 0, _ => []
  | fuel + 1, s =>
    let us := Charset.units order (s.take pieceSize)
    let size := if pieceSize < s.length && endsInHalf us then pieceSize - 2 else pieceSize
    let cs := Charset.unitChars (Charset.units order (s.take size))
    charPieces cs.length cs ++ unitPieces order fuel (s.drop size)

/-- The number of bytes at the end of a text that may belong to a character that goes on. -/
def unfinished (s : Bytes) : Nat :=
  let tail := (s.reverse.take 3).takeWhile Utf8.isContinuation
  match s.reverse.drop tail.length with
  | b :: _ =>
    match Utf8.leadOf? b with
    | some (size, _, _) => if tail.length + 1 < size then tail.length + 1 else 0
    | none => 0
  | [] => 0

/-- The pieces of a file of UTF-8. A character that is cut off at the end of a piece is left for the
next one. -/
def textPieces : Nat → Bytes → List Bytes
  | _, [] => []
  | 0, _ => []
  | fuel + 1, s =>
    let size :=
      if pieceSize < s.length then pieceSize - unfinished (s.take pieceSize) else pieceSize
    Charset.utf8.decode (s.take size) :: textPieces fuel (s.drop size)

/-- The pieces in which a file comes in. A byte order mark tells its encoding; without one the first
three bytes, in which it would be, come in by themselves. -/
def pieces (raw : Bytes) : List Bytes :=
  if raw.startsWith [0xEF, 0xBB, 0xBF] then textPieces raw.length (raw.drop 3)
  else if raw.startsWith [0xFE, 0xFF] then unitPieces .big raw.length (raw.drop 2)
  else if raw.startsWith [0xFF, 0xFE] then unitPieces .little raw.length (raw.drop 2)
  else [raw.take 3, raw.drop 3]

/-! ### Windows -/

/-- The size of the first window. -/
def firstSize : Nat := 4096

/-- The size of the largest window. -/
def lastSize : Nat := 65536

/-- A window on a file. -/
structure Window where
  /-- How many bytes it can hold. -/
  size : Nat := 0
  /-- How many bytes of the lines taken last it still holds. -/
  passed : Nat := 0
  /-- The bytes that are not taken yet. -/
  held : Bytes := []
  /-- The pieces that are to come, none of them empty. -/
  coming : List Bytes
  deriving DecidableEq, Repr

namespace Window

/-- The window on a file of which nothing was read. -/
def start (pieces : List Bytes) : Window := { coming := pieces.filter (!·.isEmpty) }

/-- The first line that the window holds, and the window after it. -/
def line? (w : Window) : Option (Bytes × Window) :=
  let isEnd (b : UInt8) : Bool := b == 10 || b == 13
  let line := w.held.takeWhile (!isEnd ·)
  match w.held.drop line.length with
  | 13 :: 10 :: rest => some (line, { w with passed := w.passed + line.length + 2, held := rest })
  | _ :: rest => some (line, { w with passed := w.passed + line.length + 1, held := rest })
  | [] => none

/-- The window with room for more bytes: it lets go of the lines taken if it is full or these fill
more than half of it, and it doubles if it is still full. -/
def widen? (w : Window) : Option Window :=
  let isFull (v : Window) : Bool := v.passed + v.held.length == v.size
  let v := if 0 < w.passed && (isFull w || w.size / 2 < w.passed) then { w with passed := 0 } else w
  if !isFull v then some v
  else if lastSize ≤ v.size then none
  else
    some { v with
      passed := 0, size := if v.size == 0 then firstSize else min (v.size * 2) lastSize }

/-- The window with the next bytes of the file; it holds all that is left if none come any more. -/
def fill (w : Window) : Window :=
  match w.coming with
  | [] => w
  | p :: ps =>
    let room := w.size - (w.passed + w.held.length)
    { w with
      held := w.held ++ p.take room, coming := if p.length ≤ room then ps else p.drop room :: ps }

/-- The lines of a file from a window on. Every step takes a line or a byte of the file, and no more
steps are taken than the fuel. -/
def linesFrom? : Nat → Window → Option (List Bytes)
  | 0, _ => none
  | fuel + 1, w =>
    match w.line? with
    | some (line, w) => (linesFrom? fuel w).map (line :: ·)
    | none =>
      match w.widen? with
      | none => none
      | some w =>
        if w.coming.isEmpty then some (if w.held == [] then [] else [w.held])
        else linesFrom? fuel w.fill

end Window

/-- The lines of a file, unless one is too long. -/
def lines? (raw : Bytes) : Option (List Bytes) :=
  let ps := pieces raw
  Window.linesFrom? (2 * ps.flatten.length + 2) (.start ps)

end ServerPages.LineReader
