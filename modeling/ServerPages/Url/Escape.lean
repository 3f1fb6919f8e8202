import ServerPages.Text.Bytes

/-!
# Escapes in urls

A byte of a url may be written as a percent sign and two hexadecimal digits. Which bytes have to be
written so depends on the part of the url that they stand in, and so does what may be escaped.

Main definitions: `Url.escape` and `Url.unescape?`.
-/

namespace ServerPages.Url

/-- The parts of a url that have escapes. -/
inductive Part where
  /-- The name and the password of a user. -/
  | user
  /-- The host. -/
  | host
  /-- The zone of a host. -/
  | zone
  /-- The path. -/
  | path
  /-- The fragment. -/
  | fragment
  deriving DecidableEq, Repr

/-- Whether a byte is a letter, a digit or one of some more bytes. -/
def isWordOr (more : String) (b : UInt8) : Bool :=
  Bytes.isAlpha b || Bytes.isDigit b || (Bytes.ofString more).contains b

/-- Whether a byte stands in a part as it is. -/
def Part.keeps : Part → UInt8 → Bool
  | .user => isWordOr "-_.~$&+,;="
  | .host | .zone => isWordOr "-_.~!$&'()*+,;=:[]<>\""
  | .path => isWordOr "-_.~$&+,/:;=@"
  | .fragment => isWordOr "-_.~$&+,/:;=?@!()*"

/-- Whether a byte may be escaped in a part. In a host only the percent sign and bytes beyond ASCII
are; in a zone the space and what need not be escaped. -/
def Part.escapes : Part → UInt8 → Bool
  | .host, b => b == 37 || 0x80 ≤ b
  | .zone, b => b == 37 || b == 32 || Part.zone.keeps b
  | _, _ => true

/-- Whether a byte other than the percent sign is read in a part as it is. -/
def Part.accepts : Part → UInt8 → Bool
  | .host, b => 0x80 ≤ b || Part.host.keeps b
  | .zone, b => 0x80 ≤ b || Part.zone.keeps b
  | _, _ => true

/-- The upper-case hexadecimal digit of a number below sixteen. -/
def hexDigit (n : Nat) : UInt8 := (if n < 10 then 48 + n else 55 + n).toUInt8

/-- A byte as it is written in a part. -/
def escapeByte (part : Part) (b : UInt8) : Bytes :=
  if part.keeps b then [b] else [37, hexDigit (b.toNat / 16), hexDigit (b.toNat % 16)]

/-- A text as it is written in a part. -/
def escape (part : Part) (s : Bytes) : Bytes := s.flatMap (escapeByte part)

/-- `unescape?` after `skip` bytes of an escape. -/
def unescapeFrom? (part : Part) : Nat → Bytes → Option Bytes
  | _, [] => some []
  | skip + 1, _ :: s => unescapeFrom? part skip s
  | 0, b :: s =>
    if b == 37 then
      match s with
      | h :: l :: _ => do
        let v := ((← Bytes.hexValue? h) * 16 + (← Bytes.hexValue? l)).toUInt8
        if part.escapes v then return v :: (← unescapeFrom? part 2 s) else none
      | _ => none
    else if part.accepts b then do return b :: (← unescapeFrom? part 0 s)
    else none

/-- The text that is written as `s` in a part, unless an escape is malformed or a byte may not stand
there. -/
def unescape? (part : Part) (s : Bytes) : Option Bytes := unescapeFrom? part 0 s

end ServerPages.Url
