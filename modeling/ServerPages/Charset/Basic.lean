import ServerPages.Charset.Table

/-!
# Encodings of source files

An encoding turns the bytes of a file into characters. What cannot be read becomes the replacement
character, so reading never fails.
-/

namespace ServerPages

/-- The order of the two bytes of a unit. -/
inductive ByteOrder where
  /-- The high byte comes first. -/
  | big
  /-- The low byte comes first. -/
  | little
  deriving DecidableEq, Repr

/-- An encoding. -/
inductive Charset where
  /-- UTF-8. -/
  | utf8
  /-- UTF-16 with an order of bytes. -/
  | utf16 (order : ByteOrder)
  /-- One byte per character, which a table gives. Bytes beyond the table have no character. -/
  | singleByte (table : List Nat)
  /-- The whole file, whatever it holds, is one replacement character. -/
  | refusing
  deriving DecidableEq, Repr

namespace Charset

/-- ASCII, which also stands for the encodings with more than one byte per character: sources in
those hold ASCII alone. -/
def ascii : Charset := .singleByte (List.range 128)

/-! ### UTF-8 -/

/-- The number of bytes that are replaced together at the start of ill-formed text: the longest
beginning of a character, and at least one byte. -/
def brokenLength (b : UInt8) (s : Bytes) : Nat :=
  match Utf8.leadOf? b with
  | none => 1
  | some (size, low, high) =>
    match s with
    | [] => 1
    | c :: s =>
      if c < low || high < c then 1
      else if size ≤ 2 then 2
      else match s with
        | [] => 2
        | d :: _ => if Utf8.isContinuation d && 3 < size then 3 else 2

/-- Text with every broken beginning of a character replaced, after `skip` bytes that were read. -/
def repairFrom : Nat → Bytes → Bytes
  | _, [] => []
  | skip + 1, _ :: s => repairFrom skip s
  | 0, b :: s =>
    let (c, width) := Utf8.charAt b s
    if c == Utf8.replacement && width == 1 then
      Utf8.encode Utf8.replacement ++ repairFrom (brokenLength b s - 1) s
    else (b :: s).take width ++ repairFrom (width - 1) s

/-! ### UTF-16 -/

/-- The units of a file. A byte left at the end is no unit. -/
def units (order : ByteOrder) : Bytes → List (Option Nat)
  | a :: b :: s =>
    let unit := match order with
      | .big => a.toNat * 256 + b.toNat
      | .little => b.toNat * 256 + a.toNat
    some unit :: units order s
  | [_] => [none]
  | [] => []

/-- Whether a unit is half of a character. -/
def isSurrogate (u : Nat) : Bool := 0xD800 ≤ u && u ≤ 0xDFFF

/-- Whether a unit is the second half of a character. -/
def isSecondHalf (u : Nat) : Bool := 0xDC00 ≤ u && u ≤ 0xDFFF

/-- The character of two halves. -/
def joined (u v : Nat) : Nat :=
  if isSecondHalf u then Utf8.replacement else (u - 0xD800) * 0x400 + (v - 0xDC00) + 0x10000

/-- The characters of units. Half a character is joined to a second half after it and replaced if
that is no character. -/
def unitChars : List (Option Nat) → List Nat
  | [] => []
  | none :: us => Utf8.replacement :: unitChars us
  | some u :: us =>
    if !isSurrogate u then u :: unitChars us
    else match us with
      | some v :: rest =>
        if isSecondHalf v then joined u v :: unitChars rest
        else Utf8.replacement :: unitChars (some v :: rest)
      | us => Utf8.replacement :: unitChars us
termination_by us => us.length

/-! ### All encodings -/

/-- The character of a byte. -/
def byteChar (table : List Nat) (b : UInt8) : Nat := table.getD b.toNat Utf8.replacement

/-- The text of a file as UTF-8. -/
def decode : Charset → Bytes → Bytes
  | .utf8, s => repairFrom 0 s
  | .utf16 order, s => Utf8.encodeAll (unitChars (units order s))
  | .singleByte table, s => Utf8.encodeAll (s.map (byteChar table))
  | .refusing, _ => Utf8.encode Utf8.replacement

end Charset

end ServerPages
