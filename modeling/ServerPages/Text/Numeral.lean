import ServerPages.Text.Bytes
import ServerPages.Text.Quoted
import ServerPages.Unicode.Case

/-!
# Reading numerals

Decimal numerals of integers with a bounded number of bits, and the words for truth values, as
attribute values are converted to them. A numeral that cannot be converted is reported with the
text that was given and the reason.

Settings are also written with the base as a prefix and with underscores between digits
(`prefixed?`).
-/

namespace ServerPages.Numeral

/-- Why a numeral was refused. -/
inductive Refusal where
  /-- The text is no numeral of the kind. -/
  | invalid
  /-- The value does not fit. -/
  | outOfRange
  deriving DecidableEq, Repr

/-- The reason in words. -/
def Refusal.reason : Refusal → Bytes
  | .invalid => "invalid syntax"
  | .outOfRange => "value out of range"

/-- A refused conversion: which one, of what text and why. -/
structure Error where
  /-- The conversion that failed. -/
  conversion : Bytes
  /-- The text it was given. -/
  given : Bytes
  /-- The reason. -/
  refusal : Refusal

/-- The message of a refused conversion. -/
def Error.message (e : Error) : Bytes :=
  "strconv." ++ e.conversion ++ ": parsing " ++ Quoted.string e.given ++ ": " ++ e.refusal.reason

/-- The value of the digits `s` written after the number `n`, below `limit`. Digits are read from
the left: a number that has grown too large is refused before a later byte that is no digit. -/
def digitsAfter (limit n : Nat) : Bytes → Except Refusal Nat
  | [] => .ok n
  | b :: s =>
    if !Bytes.isDigit b then .error .invalid
    else if n * 10 + (b.toNat - 48) < limit then digitsAfter limit (n * 10 + (b.toNat - 48)) s
    else .error .outOfRange

/-- The value of a non-empty string of decimal digits that fits in `bits` bits. -/
def natural (bits : Nat) (s : Bytes) : Except Refusal Nat :=
  if s.isEmpty then .error .invalid else digitsAfter (Nat.pow 2 bits) 0 s

/-- A decimal numeral of an unsigned integer of `bits` bits. -/
def unsigned (bits : Nat) (s : Bytes) : Except Error Nat :=
  (natural bits s).mapError fun r => ⟨"ParseUint", s, r⟩

/-- Whether a numeral has a minus sign, and the text after its sign. -/
def splitSign : Bytes → Bool × Bytes
  | 45 :: s => (true, s)
  | 43 :: s => (false, s)
  | s => (false, s)

/-- A decimal numeral of a signed integer of `bits` bits, with an optional sign. -/
def signed (bits : Nat) (s : Bytes) : Except Error Int :=
  match natural bits (splitSign s).2 with
  | .error r => .error ⟨"ParseInt", s, r⟩
  | .ok n =>
    if (splitSign s).1 then
      if n ≤ Nat.pow 2 (bits - 1) then .ok (-(n : Int)) else .error ⟨"ParseInt", s, .outOfRange⟩
    else if n < Nat.pow 2 (bits - 1) then .ok n
    else .error ⟨"ParseInt", s, .outOfRange⟩

/-! ### Numerals with a base -/

/-- The base of a numeral and its digits. A numeral that starts with a zero and no letter is octal,
and the zero is none of its digits. -/
def baseOf : Bytes → Nat × Bytes
  | 48 :: b :: c :: s =>
    let l := Bytes.lowerByte b
    if l == 98 then (2, c :: s) else if l == 111 then (8, c :: s)
    else if l == 120 then (16, c :: s) else (8, b :: c :: s)
  | 48 :: s => (8, s)
  | s => (10, s)

/-- Whether every underscore stands between digits; `afterDigit` says whether a digit or a prefix
comes before. -/
def separates (afterDigit : Bool) : Bytes → Bool
  | [] => true
  | b :: s =>
    if b == 95 then afterDigit && (s.head?.any (· != 95)) && separates false s
    else separates true s

/-- Whether the underscores of a numeral without its sign are in order. -/
def isSeparated (s : Bytes) : Bool :=
  let (base, digits) := baseOf s
  if base == 10 then separates false digits else separates true digits

/-- The value of digits of a base. -/
def digitsOfBase? (base n : Nat) : Bytes → Option Nat
  | [] => some n
  | b :: s =>
    match Bytes.hexValue? b with
    | some d => if d < base then digitsOfBase? base (n * base + d) s else none
    | none => none

/-- A numeral of a signed integer of 64 bits, with an optional sign, an optional base and
underscores between digits. -/
def prefixed? (s : Bytes) : Option Int :=
  let (negative, digits) := splitSign s
  let (base, shown) := baseOf digits
  if digits == [] || !isSeparated digits then none
  else do
    let n ← digitsOfBase? base 0 (shown.filter (· != 95))
    if negative then if n ≤ Nat.pow 2 63 then some (-(n : Int)) else none
    else if n < Nat.pow 2 63 then some (n : Int) else none

/-- The words for true. -/
def trueWords : List Bytes := ["1", "t", "T", "true", "TRUE", "True"]

/-- The words for false. -/
def falseWords : List Bytes := ["0", "f", "F", "false", "FALSE", "False"]

/-- A word for a truth value. -/
def truth (s : Bytes) : Except Error Bool :=
  if trueWords.contains s then .ok true
  else if falseWords.contains s then .ok false
  else .error ⟨"ParseBool", s, .invalid⟩

end ServerPages.Numeral
