import ServerPages.Text.Bytes

/-!
# IP addresses of version 6

Eight groups of hexadecimal digits, joined by colons. Two colons in a row stand for groups of zeros,
at least one, and the last two groups may be written as an address of version 4. A zone may follow
after a percent sign.

Main definition: `IpAddress.isVersion6`.
-/

namespace ServerPages.IpAddress

/-! ### Version 4 -/

/-- Whether a text is a number below 256 without a zero before it. -/
def isOctet (s : Bytes) : Bool :=
  s != [] && s.all Bytes.isDigit && (s.length == 1 || s.head? != some 48) && s.length ≤ 3 &&
    s.foldl (fun n b => n * 10 + (b.toNat - 48)) 0 ≤ 255

/-- Whether a text is four octets, joined by dots. -/
def isVersion4 (s : Bytes) : Bool :=
  let octets := Bytes.splitOnByte 46 s
  octets.length == 4 && octets.all isOctet

/-! ### Version 6 -/

/-- Whether a byte is a hexadecimal digit. -/
def isHexDigit (b : UInt8) : Bool := (Bytes.hexValue? b).isSome

/-- Whether an address may end with room for some more groups: a gap fills the room, and there has
to be some for it. -/
def mayEnd (room : Nat) (gap : Bool) : Bool := gap == (0 < room : Bool)

/-- Whether a text is the groups of an address that has room for so many more groups, after a gap or
not. -/
def isGroups : Nat → Bool → Bytes → Bool
  | 0, _, _ => false
  | room + 1, gap, s =>
    let digits := s.takeWhile isHexDigit
    if digits == [] || 4 < digits.length then false
    else match s.dropWhile isHexDigit with
      | [] => mayEnd room gap
      | 58 :: 58 :: rest => !gap && if rest == [] then mayEnd room true else isGroups room true rest
      | 58 :: rest => isGroups room gap rest
      | 46 :: _ => 0 < room && isVersion4 s && mayEnd (room - 1) gap
      | _ => false

/-- The number of groups of an address. -/
def groupCount : Nat := 8

/-- Whether a text is an address without a zone. -/
def isUnzoned : Bytes → Bool
  | [58, 58] => true
  | 58 :: 58 :: s => isGroups groupCount true s
  | s => isGroups groupCount false s

/-- Whether a text is an address of version 6. -/
def isVersion6 (s : Bytes) : Bool :=
  match Bytes.cut? 37 s with
  | some (address, zone) => isUnzoned address && zone != []
  | none => isUnzoned s

end ServerPages.IpAddress
