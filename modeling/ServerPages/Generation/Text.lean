import ServerPages.Text.Utf8

/-!
# Pieces of literal text

Literal text is written line by line, and a long line in chunks. A chunk is at most a given number
of bytes long and does not split a character, so a chunk of one character may be longer.
-/

namespace ServerPages.Generation

/-- Where to cut a text that is longer than `cut` bytes: at the last byte from which a character may
start, not after `cut`; at least one character stays before it. -/
def cutAt (s : Bytes) : Nat → Nat
  | 0 => ((Utf8.first? s).map (·.2)).getD 1
  | cut + 1 => if (s[cut + 1]?).all Utf8.isStart then cut + 1 else cutAt s cut

/-- The chunks of a text, in no more than `fuel` cuts. -/
def chunksWithin (size : Nat) : Nat → Bytes → List Bytes
  | 0, s => [s]
  | fuel + 1, s =>
    if s.length ≤ size then if s == [] then [] else [s]
    else
      let cut := cutAt s size
      s.take cut :: chunksWithin size fuel (s.drop cut)

/-- The chunks of a text; every one takes at least a byte. A size of zero does not split. -/
def chunks (size : Nat) (s : Bytes) : List Bytes :=
  if size == 0 || s.length ≤ size then [s] else chunksWithin size s.length s

/-- The size of chunks if none is asked for. -/
def defaultChunkSize : Nat := 8192

end ServerPages.Generation
