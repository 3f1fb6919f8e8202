import ServerPages.Text.Numeral

/-!
# Floating-point numerals

Reading a decimal or hexadecimal numeral rounds it to the nearest binary floating-point number of
a format, a tie going to the even neighbour. Writing one gives the fewest decimal digits that read
back. All arithmetic is exact, on natural numbers.

Main definitions: `Floating.Format`, `Floating.Value`, `Floating.read`, `Floating.shortest`,
`Floating.Value.text`.
-/

namespace ServerPages.Floating

/-- A binary format: the bits of the significand and the exponent range. A finite number is
`m * 2 ^ q` with `m < 2 ^ precision` and `q ≥ minExponent`. -/
structure Format where
  /-- The number of significant bits. -/
  precision : Nat
  /-- The least exponent of the last bit. -/
  minExponent : Int
  /-- The greatest exponent of the last bit. -/
  maxExponent : Int
  deriving DecidableEq, Repr

/-- The format of 64-bit numbers. -/
def Format.double : Format := ⟨53, -1074, 971⟩

/-- The format of 32-bit numbers. -/
def Format.single : Format := ⟨24, -149, 104⟩

/-- A floating-point number. -/
inductive Value where
  /-- No number. -/
  | nan
  /-- An infinity. -/
  | infinity (negative : Bool)
  /-- The number `± significand * 2 ^ exponent`. -/
  | finite (negative : Bool) (significand : Nat) (exponent : Int)
  deriving DecidableEq, Repr

/-- The quotient rounded to the nearest natural number, a tie going to the even one. -/
def roundDiv (num den : Nat) : Nat :=
  let q := num / den
  let r := num % den
  if 2 * r < den then q
  else if den < 2 * r then q + 1
  else if q % 2 == 0 then q else q + 1

/-- The least exponent, from `q` on, with which the number `num / den` rounds to a significand of
the format; `fuel` bounds the steps. -/
def fitFrom (f : Format) (num den : Nat) : Nat → Int → Nat × Int
  | 0, q => (0, q)
  | fuel + 1, q =>
    let m :=
      if 0 ≤ q then roundDiv num (den * Nat.pow 2 q.toNat)
      else roundDiv (num * Nat.pow 2 (-q).toNat) den
    if m < Nat.pow 2 f.precision then (m, q) else fitFrom f num den fuel (q + 1)

/-- The number of the format nearest to `num / den`, `none` if it is too large. -/
def nearest? (f : Format) (num den : Nat) : Option (Nat × Int) :=
  if num == 0 then some (0, f.minExponent)
  else
    let guess : Int := (num.log2 : Int) - den.log2 - f.precision - 1
    let start := max f.minExponent guess
    let (m, q) := fitFrom f num den 5 start
    if f.maxExponent < q then none else some (m, q)

/-! ### Reading -/

/-- A numeral taken apart: sign, digits as a number, base of the exponent and exponent. -/
structure Parts where
  /-- Whether it has a minus sign. -/
  negative : Bool
  /-- The digits read as one number. -/
  digits : Nat
  /-- The number of digits after leading zeros. -/
  size : Nat
  /-- Ten, or two for a hexadecimal numeral. -/
  radix : Nat
  /-- The power of the radix the digits are multiplied by. -/
  exponent : Int

/-- Whether each underscore stands between digits, or between a base mark and a digit. `saw` is
`some true` after a digit, `some false` after an underscore. -/
def underscoresOk (hex : Bool) : Option Bool → Bytes → Bool
  | saw, [] => saw != some false
  | saw, b :: s =>
    if Bytes.isDigit b || (hex && (Bytes.hexValue? b).isSome) then underscoresOk hex (some true) s
    else if b == 95 then saw == some true && underscoresOk hex (some false) s
    else saw != some false && underscoresOk hex none s

/-- Digits with at most one point, and underscores, at the start of a text: the digits, how many
stand after the point, and the rest. -/
def mantissa (hex : Bool) : Bool → Bytes → Bytes × Nat × Bytes
  | _, [] => ([], 0, [])
  | point, b :: s =>
    if b == 95 then mantissa hex point s
    else if b == 46 && !point then mantissa hex true s
    else if Bytes.isDigit b || (hex && (Bytes.hexValue? b).isSome) then
      let (digits, after, rest) := mantissa hex point s
      (b :: digits, if point then after + 1 else after, rest)
    else ([], 0, b :: s)

/-- The digits of an exponent as a number; beyond ten thousand further digits do not count. -/
def exponentValue (s : Bytes) : Nat :=
  s.foldl (fun e b => if b != 95 && e < 10000 then e * 10 + (b.toNat - 48) else e) 0

/-- The exponent after its mark, with its sign, if the text is one. -/
def exponent? (s : Bytes) : Option Int :=
  let (negative, digits) := Numeral.splitSign s
  match digits with
  | [] => none
  | b :: _ =>
    if Bytes.isDigit b && digits.all fun c => Bytes.isDigit c || c == 95 then
      some (if negative then -(exponentValue digits : Int) else exponentValue digits)
    else none

/-- The parts of a decimal or hexadecimal numeral. -/
def parts? (s : Bytes) : Option Parts := do
  let (negative, body) := Numeral.splitSign s
  let hex := match body with
    | 48 :: x :: _ :: _ => x == 120 || x == 88
    | _ => false
  let marked := match body with
    | 48 :: x :: _ => [98, 66, 111, 79, 120, 88].contains x
    | _ => false
  let (digits, after, rest) := mantissa hex false (if hex then body.drop 2 else body)
  guard !digits.isEmpty
  let exponent ← match rest with
    | [] => if hex then none else some 0
    | e :: t => if Bytes.lowerByte e == (if hex then 112 else 101) then exponent? t else none
  guard (!s.contains 95 ||
    (if marked then
      underscoresOk (hex || body.take 2 == "0x" || body.take 2 == "0X") (some true) (body.drop 2)
    else underscoresOk false none body))
  let base := if hex then 16 else 10
  let value := digits.foldl (fun n b => n * base + (Bytes.hexValue? b).getD 0) 0
  let size := (digits.dropWhile (· == 48)).length
  return ⟨negative, value, if hex then size * 4 else size, if hex then 2 else 10,
    exponent - (if hex then 4 * after else after : Nat)⟩

/-- The words for infinities and for no number. -/
def special? (s : Bytes) : Option Value :=
  let lower := s.map Bytes.lowerByte
  if lower == "nan" then some .nan
  else
    let (negative, body) := Numeral.splitSign lower
    if body == "inf" || body == "infinity" then some (.infinity negative) else none

/-- The number of the format nearest to the numeral. Exponents far outside the format are settled
without computing the power. -/
def read (f : Format) (s : Bytes) : Except Numeral.Refusal Value :=
  match special? s with
  | some v => .ok v
  | none =>
    match parts? s with
    | none => .error .invalid
    | some p =>
      let size := (p.size : Int) + p.exponent
      if p.digits == 0 || size < -2000 then .ok (.finite p.negative 0 f.minExponent)
      else if 2000 < size then .error .outOfRange
      else
        let num := if 0 ≤ p.exponent then p.digits * Nat.pow p.radix p.exponent.toNat else p.digits
        let den := if 0 ≤ p.exponent then 1 else Nat.pow p.radix (-p.exponent).toNat
        match nearest? f num den with
        | none => .error .outOfRange
        | some (m, q) => .ok (.finite p.negative m q)

/-! ### Writing -/

/-- The number `digits * 10 ^ scale` as a fraction. -/
def decimalFraction (digits : Nat) (scale : Int) : Nat × Nat :=
  if 0 ≤ scale then (digits * Nat.pow 10 scale.toNat, 1) else (digits, Nat.pow 10 (-scale).toNat)

/-- Whether the decimal reads back as the number `m * 2 ^ q` of the format. -/
def readsBack (f : Format) (m : Nat) (q : Int) (digits : Nat) (scale : Int) : Bool :=
  let (num, den) := decimalFraction digits scale
  nearest? f num den == nearest? f (if 0 ≤ q then m * Nat.pow 2 q.toNat else m)
    (if 0 ≤ q then 1 else Nat.pow 2 (-q).toNat)

/-- The decimal of `count` digits or fewer, from `count` on, nearest to `num / den` among those
that read back; `top` is the exponent of the first digit. -/
def shortestFrom (f : Format) (m : Nat) (q : Int) (num den : Nat) (top : Int) :
    Nat → Nat → Nat × Int
  | 0, _ => (m, q)
  | fuel + 1, count =>
    let scale := top - count + 1
    let (p, r) := if 0 ≤ scale then (num, den * Nat.pow 10 scale.toNat)
      else (num * Nat.pow 10 (-scale).toNat, den)
    let near := roundDiv p r
    let other := if near * r < p then near + 1 else near - 1
    if readsBack f m q near scale then (near, scale)
    else if readsBack f m q other scale then (other, scale)
    else shortestFrom f m q num den top fuel (count + 1)

/-- The exponent of the first decimal digit of `num / den`, searched upwards from `e`. -/
def topFrom (num den : Nat) : Nat → Int → Int
  | 0, e => e
  | fuel + 1, e =>
    let (p, r) := decimalFraction 1 (e + 1)
    if num * r < p * den then e else topFrom num den fuel (e + 1)

/-- The fewest decimal digits, as a number, and their scale, that read back as `m * 2 ^ q`. -/
def shortest (f : Format) (m : Nat) (q : Int) : Nat × Int :=
  let num := if 0 ≤ q then m * Nat.pow 2 q.toNat else m
  let den := if 0 ≤ q then 1 else Nat.pow 2 (-q).toNat
  let guess : Int := ((num.log2 : Int) - den.log2) * 30103 / 100000 - 2
  shortestFrom f m q num den (topFrom num den 6 guess) 20 1

/-- A decimal without its trailing zeros. -/
def stripZeros : Nat → Nat × Int → Nat × Int
  | 0, d => d
  | fuel + 1, (n, e) => if n % 10 == 0 && n != 0 then stripZeros fuel (n / 10, e + 1) else (n, e)

/-- A decimal in the general notation: positional when its first digit stands for at least
`10 ^ -4` and less than `10 ^ 6`, otherwise with an exponent of at least two digits. -/
def general (digits : Nat) (scale : Int) : Bytes :=
  let ds := Bytes.ofNat digits
  let top : Int := (ds.length : Int) - 1 + scale
  if top < -4 || 6 ≤ top then
    let mark := ds.take 1 ++ (if ds.length > 1 then 46 :: ds.drop 1 else [])
    let size := Bytes.ofNat top.natAbs
    mark ++ [101, if top < 0 then 45 else 43] ++ (if size.length < 2 then 48 :: size else size)
  else if 0 ≤ scale then ds ++ List.replicate scale.toNat 48
  else if 0 ≤ top then ds.take (top.toNat + 1) ++ 46 :: ds.drop (top.toNat + 1)
  else 48 :: 46 :: (List.replicate ((-top).toNat - 1) 48 ++ ds)

/-- The shortest text of a number. -/
def Value.text (f : Format) : Value → Bytes
  | .nan => "NaN"
  | .infinity negative => if negative then "-Inf" else "+Inf"
  | .finite negative m q =>
    let (digits, scale) := if m == 0 then (0, 0) else stripZeros 400 (shortest f m q)
    (if negative then [45] else []) ++ general digits scale

end ServerPages.Floating
