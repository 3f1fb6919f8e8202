import ServerPages.Text.Bytes

/-!
# SHA-256

The digest that artifacts are known by. A message is padded to whole blocks of 64 bytes, each block
is spread over 64 words, and the words are mixed into a state of eight words.
-/

namespace ServerPages.Digest

/-- The state that mixing starts with. -/
def initial : List UInt32 := [
  0x6a09e667, 0xbb67ae85, 0x3c6ef372, 0xa54ff53a, 0x510e527f, 0x9b05688c, 0x1f83d9ab, 0x5be0cd19]

/-- The constants of the 64 rounds. -/
def constants : List UInt32 := [
  0x428a2f98, 0x71374491, 0xb5c0fbcf, 0xe9b5dba5, 0x3956c25b, 0x59f111f1, 0x923f82a4, 0xab1c5ed5,
  0xd807aa98, 0x12835b01, 0x243185be, 0x550c7dc3, 0x72be5d74, 0x80deb1fe, 0x9bdc06a7, 0xc19bf174,
  0xe49b69c1, 0xefbe4786, 0x0fc19dc6, 0x240ca1cc, 0x2de92c6f, 0x4a7484aa, 0x5cb0a9dc, 0x76f988da,
  0x983e5152, 0xa831c66d, 0xb00327c8, 0xbf597fc7, 0xc6e00bf3, 0xd5a79147, 0x06ca6351, 0x14292967,
  0x27b70a85, 0x2e1b2138, 0x4d2c6dfc, 0x53380d13, 0x650a7354, 0x766a0abb, 0x81c2c92e, 0x92722c85,
  0xa2bfe8a1, 0xa81a664b, 0xc24b8b70, 0xc76c51a3, 0xd192e819, 0xd6990624, 0xf40e3585, 0x106aa070,
  0x19a4c116, 0x1e376c08, 0x2748774c, 0x34b0bcb5, 0x391c0cb3, 0x4ed8aa4a, 0x5b9cca4f, 0x682e6ff3,
  0x748f82ee, 0x78a5636f, 0x84c87814, 0x8cc70208, 0x90befffa, 0xa4506ceb, 0xbef9a3f7, 0xc67178f2]

/-- A word rotated to the right. -/
def rotate (x : UInt32) (n : UInt32) : UInt32 := (x >>> n) ||| (x <<< (32 - n))

/-- The eight working words of the rounds. -/
structure Words where
  /-- The first word. -/
  a : UInt32
  /-- The second word. -/
  b : UInt32
  /-- The third word. -/
  c : UInt32
  /-- The fourth word. -/
  d : UInt32
  /-- The fifth word. -/
  e : UInt32
  /-- The sixth word. -/
  f : UInt32
  /-- The seventh word. -/
  g : UInt32
  /-- The eighth word. -/
  h : UInt32
  deriving DecidableEq, Repr

namespace Words

/-- The working words as a list. -/
def toList (w : Words) : List UInt32 := [w.a, w.b, w.c, w.d, w.e, w.f, w.g, w.h]

/-- The working words of a list of eight. -/
def ofList : List UInt32 → Words
  | [a, b, c, d, e, f, g, h] => ⟨a, b, c, d, e, f, g, h⟩
  | _ => ⟨0, 0, 0, 0, 0, 0, 0, 0⟩

/-- The working words after a round with a constant and a word of the message. -/
def round (w : Words) (k m : UInt32) : Words :=
  let s1 := rotate w.e 6 ^^^ rotate w.e 11 ^^^ rotate w.e 25
  let choice := (w.e &&& w.f) ^^^ ((~~~w.e) &&& w.g)
  let t1 := w.h + s1 + choice + k + m
  let s0 := rotate w.a 2 ^^^ rotate w.a 13 ^^^ rotate w.a 22
  let majority := (w.a &&& w.b) ^^^ (w.a &&& w.c) ^^^ (w.b &&& w.c)
  ⟨t1 + (s0 + majority), w.a, w.b, w.c, w.d + t1, w.e, w.f, w.g⟩

end Words

/-- The big-endian words of bytes. -/
def wordsOf : Bytes → List UInt32
  | a :: b :: c :: d :: s =>
    ((a.toUInt32 <<< 24) ||| (b.toUInt32 <<< 16) ||| (c.toUInt32 <<< 8) ||| d.toUInt32) :: wordsOf s
  | _ => []

/-- The big-endian bytes of a word. -/
def bytesOf (w : UInt32) : Bytes :=
  [(w >>> 24).toUInt8, (w >>> 16).toUInt8, (w >>> 8).toUInt8, w.toUInt8]

/-- `n` more words after those of a block, which are given last first. -/
def spread : Nat → List UInt32 → List UInt32
  | 0, ws => ws
  | n + 1, ws =>
    let x := ws.getD 14 0
    let y := ws.getD 1 0
    let s0 := rotate x 7 ^^^ rotate x 18 ^^^ (x >>> 3)
    let s1 := rotate y 17 ^^^ rotate y 19 ^^^ (y >>> 10)
    spread n ((ws.getD 15 0 + s0 + ws.getD 6 0 + s1) :: ws)

/-- The state after a block. -/
def mix (state : List UInt32) (block : Bytes) : List UInt32 :=
  let schedule := (spread 48 (wordsOf block).reverse).reverse
  let mixed := (constants.zip schedule).foldl (fun (w : Words) km => w.round km.1 km.2)
    (Words.ofList state)
  List.zipWith (· + ·) state mixed.toList

/-- The state after `n` blocks of a padded message. -/
def mixAll (state : List UInt32) : Nat → Bytes → List UInt32
  | 0, _ => state
  | n + 1, s => mixAll (mix state (s.take 64)) n (s.drop 64)

/-- The message with a one bit, zeros and its length in bits after it. -/
def padded (s : Bytes) : Bytes :=
  let zeros := (119 - s.length % 64) % 64
  let bits := s.length * 8
  s ++ [0x80] ++ List.replicate zeros 0 ++
    bytesOf (bits / 0x100000000).toUInt32 ++ bytesOf bits.toUInt32

/-- The digest of a message. -/
def sha256 (s : Bytes) : Bytes :=
  let p := padded s
  (mixAll initial (p.length / 64) p).flatMap bytesOf

/-- Bytes as hexadecimal digits. -/
def hexText (s : Bytes) : Bytes := s.flatMap fun b => Bytes.hex 2 b.toNat

end ServerPages.Digest
