import ServerPages.Text.Bytes

/-!
# Characters of a byte string

A byte string is read as UTF-8 from left to right. A byte that starts no well-formed sequence is
read as the replacement character U+FFFD and takes one byte, so every byte string has a list of
characters. A character is its code point.
-/

namespace ServerPages.Utf8

/-- The replacement character, read where the bytes are not well formed. -/
def replacement : Nat := 0xFFFD

/-- A byte that continues a sequence. -/
def isContinuation (b : UInt8) : Bool := 0x80 ≤ b && b ≤ 0xBF

/-- A byte at which a character may start. -/
def isStart (b : UInt8) : Bool := !isContinuation b

/-- The six low bits of a continuation byte. -/
def tailBits (b : UInt8) : Nat := b.toNat % 64

/-- The number of bytes of the sequence announced by a leading byte, with the least and the
greatest byte that may follow it; `none` if no sequence starts so. -/
def leadOf? (b : UInt8) : Option (Nat × UInt8 × UInt8) :=
  if b < 0x80 then some (1, 0x80, 0xBF)
  else if b < 0xC2 then none
  else if b ≤ 0xDF then some (2, 0x80, 0xBF)
  else if b == 0xE0 then some (3, 0xA0, 0xBF)
  else if b == 0xED then some (3, 0x80, 0x9F)
  else if b ≤ 0xEF then some (3, 0x80, 0xBF)
  else if b == 0xF0 then some (4, 0x90, 0xBF)
  else if b == 0xF4 then some (4, 0x80, 0x8F)
  else if b < 0xF4 then some (4, 0x80, 0xBF)
  else none

/-- The character starting with `b` and going on in `s`, and the number of bytes it takes. -/
def charAt (b : UInt8) (s : Bytes) : Nat × Nat :=
  match leadOf? b with
  | none => (replacement, 1)
  | some (1, _, _) => (b.toNat, 1)
  | some (2, lo, hi) =>
    match s with
    | c :: _ =>
      if lo ≤ c && c ≤ hi then (b.toNat % 32 * 64 + tailBits c, 2) else (replacement, 1)
    | [] => (replacement, 1)
  | some (3, lo, hi) =>
    match s with
    | c :: d :: _ =>
      if lo ≤ c && c ≤ hi && isContinuation d then
        (b.toNat % 16 * 4096 + tailBits c * 64 + tailBits d, 3)
      else (replacement, 1)
    | _ => (replacement, 1)
  | some (_, lo, hi) =>
    match s with
    | c :: d :: e :: _ =>
      if lo ≤ c && c ≤ hi && isContinuation d && isContinuation e then
        (b.toNat % 8 * 262144 + tailBits c * 4096 + tailBits d * 64 + tailBits e, 4)
      else (replacement, 1)
    | _ => (replacement, 1)

/-- The first character of a byte string and the number of bytes it takes. -/
def first? : Bytes → Option (Nat × Nat)
  | [] => none
  | b :: s => some (charAt b s)

/-- The characters of a byte string with their bytes, `skip` bytes being part of the character
already read. -/
def piecesFrom : Nat → Bytes → List (Nat × Bytes)
  | _, [] => []
  | skip + 1, _ :: s => piecesFrom skip s
  | 0, b :: s =>
    let (c, width) := charAt b s
    (c, (b :: s).take width) :: piecesFrom (width - 1) s

/-- The characters of a byte string with the bytes each takes. -/
def pieces (s : Bytes) : List (Nat × Bytes) := piecesFrom 0 s

/-- The characters of a byte string, `skip` bytes being part of the character already read. -/
def charsFrom : Nat → Bytes → List Nat
  | _, [] => []
  | skip + 1, _ :: s => charsFrom skip s
  | 0, b :: s => (charAt b s).1 :: charsFrom ((charAt b s).2 - 1) s

/-- The characters of a byte string. -/
def chars (s : Bytes) : List Nat := charsFrom 0 s

/-- Whether a code point is a character that UTF-8 can write. -/
def isScalar (c : Nat) : Bool := c < 0xD800 || (0xDFFF < c && c ≤ 0x10FFFF)

/-- The bytes of a character; the replacement character stands for what is none. -/
def encode (c : Nat) : Bytes :=
  let c := if isScalar c then c else replacement
  if c < 0x80 then [c.toUInt8]
  else if c < 0x800 then [(0xC0 + c / 64).toUInt8, (0x80 + c % 64).toUInt8]
  else if c < 0x10000 then
    [(0xE0 + c / 4096).toUInt8, (0x80 + c / 64 % 64).toUInt8, (0x80 + c % 64).toUInt8]
  else
    [(0xF0 + c / 262144).toUInt8, (0x80 + c / 4096 % 64).toUInt8, (0x80 + c / 64 % 64).toUInt8,
      (0x80 + c % 64).toUInt8]

/-- The byte string of a list of characters. -/
def encodeAll (cs : List Nat) : Bytes := cs.flatMap encode

/-- Whether a character and its bytes are a byte that is not well formed. -/
def isBroken (p : Nat × Bytes) : Bool := p.1 == replacement && p.2.length == 1

/-- Whether every byte belongs to a well-formed sequence. -/
def isValid (s : Bytes) : Bool := (pieces s).all (!isBroken ·)

/-- The byte string with every ill-formed byte written as the replacement character. -/
def repaired (s : Bytes) : Bytes := encodeAll (chars s)

end ServerPages.Utf8
