import ServerPages.Text.Bytes

/-!
# Durations

A duration is a whole number of nanoseconds. It is written as a sum of numbers with units, such as
`1h30m` or `1.5s`.

Main definitions: `Duration.ofText?` and `Duration.text`.
-/

namespace ServerPages

/-- A duration in nanoseconds. -/
abbrev Duration := Int

namespace Duration

/-- A second. -/
def second : Nat := 1000000000

/-- The units with their lengths. -/
def units : List (Bytes × Nat) := [
  ("ns", 1), ("us", 1000), ("µs", 1000), ("μs", 1000), ("ms", 1000000), ("s", second),
  ("m", 60 * second), ("h", 3600 * second)]

/-- The bound of what a duration may come to. -/
def bound : Nat := Nat.pow 2 63

/-- The value of decimal digits, which are not too many. -/
def wholeOf? (n : Nat) : Bytes → Option Nat
  | [] => some n
  | b :: s =>
    if bound / 10 < n then none
    else
      let m := n * 10 + (b.toNat - 48)
      if bound < m then none else wholeOf? m s

/-- The value of the digits after a point and the power of ten that they are parts of, as far as a
float holds it. Digits beyond the precision of the value are left out. -/
def fractionOf (n : Nat) (scale : Float) : Bytes → Nat × Float
  | [] => (n, scale)
  | b :: s =>
    let m := n * 10 + (b.toNat - 48)
    if (bound - 1) / 10 < n || bound < m then (n, scale) else fractionOf m (scale * 10) s

/-- The nanoseconds of a fraction of a unit. -/
def partOf (n : Nat) (scale : Float) (unit : Nat) : Nat :=
  (Float.ofNat n * (Float.ofNat unit / scale)).toUInt64.toNat

/-- A number with a unit at the start of a text in nanoseconds, and what follows it. -/
def term? (s : Bytes) : Option (Nat × Bytes) := do
  let whole := s.takeWhile Bytes.isDigit
  let rest := s.dropWhile Bytes.isDigit
  let fraction := if rest.head? == some 46 then (rest.drop 1).takeWhile Bytes.isDigit else []
  let rest := if rest.head? == some 46 then (rest.drop 1).dropWhile Bytes.isDigit else rest
  if whole == [] && fraction == [] then none
  let isUnitByte := fun (b : UInt8) => b != 46 && !Bytes.isDigit b
  let unit ← units.lookup (rest.takeWhile isUnitByte)
  let n ← wholeOf? 0 whole
  if bound / unit < n then none
  let (f, scale) := fractionOf 0 1 fraction
  let total := n * unit + (if f == 0 then 0 else partOf f scale unit)
  if bound < total then none else return (total, rest.dropWhile isUnitByte)

/-- The sum of numbers with units, of which there are no more than the fuel. It is kept in a word of
64 bits, so the bound and the bound again come to nothing. -/
def sum? (total : Nat) : Nat → Bytes → Option Nat
  | _, [] => some total
  | 0, _ => none
  | fuel + 1, s => do
    let (n, rest) ← term? s
    let sum := (total + n) % (2 * bound)
    if bound < sum then none else sum? sum fuel rest

/-- The duration that a text stands for. -/
def ofText? (s : Bytes) : Option Duration :=
  let negative := s.head? == some 45
  let s := if negative || s.head? == some 43 then s.drop 1 else s
  if s == "0" then some 0
  else if s == [] then none
  else do
    let n ← sum? 0 s.length s
    if negative then some (-(n : Int)) else if n < bound then some (n : Int) else none

/-- The digits of a fraction of `width` digits without zeros at the end, after a point; nothing if
the fraction is zero. -/
def fractionText (width n : Nat) : Bytes :=
  let digits := Bytes.ofNat n
  let padded := List.replicate (width - digits.length) 48 ++ digits
  let shown := Bytes.trimRight (· == 48) padded
  if n == 0 then [] else 46 :: shown

/-- A number of parts, `scale` of which make a unit, in that unit. -/
def scaledText (width scale n : Nat) : Bytes :=
  Bytes.ofNat (n / scale) ++ fractionText width (n % scale)

/-- The text of a duration that is not negative. -/
def magnitudeText (n : Nat) : Bytes :=
  if n == 0 then "0s"
  else if n < 1000 then Bytes.ofNat n ++ "ns"
  else if n < 1000000 then scaledText 3 1000 n ++ "µs"
  else if n < second then scaledText 6 1000000 n ++ "ms"
  else
    let minutes := n / second / 60
    let seconds := scaledText 9 second (n % (60 * second)) ++ "s"
    if minutes == 0 then seconds
    else if minutes < 60 then Bytes.ofNat minutes ++ "m" ++ seconds
    else Bytes.ofNat (minutes / 60) ++ "h" ++ Bytes.ofNat (minutes % 60) ++ "m" ++ seconds

/-- The text of a duration. -/
def text (d : Duration) : Bytes :=
  if d < 0 then "-" ++ magnitudeText d.natAbs else magnitudeText d.natAbs

end Duration

end ServerPages
