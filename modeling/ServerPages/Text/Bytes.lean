/-!
# Byte strings

Page sources, generated code and messages are byte strings: a source need not be well-formed
UTF-8, and positions in it are byte offsets. A byte string is a list of bytes, so every list
operation applies; this module adds searching, splitting, trimming and decimal numerals.

String literals coerce to byte strings through their UTF-8 form.
-/

namespace ServerPages

/-- A byte string. -/
abbrev Bytes := List UInt8

namespace Bytes

/-- The UTF-8 form of a string. -/
def ofString (s : String) : Bytes := s.toByteArray.data.toList

end Bytes

instance : Coe String Bytes := ⟨Bytes.ofString⟩

namespace Bytes

/-- The byte of an ASCII character. -/
def ofChar (c : Char) : UInt8 := c.toNat.toUInt8

instance : Coe Char UInt8 := ⟨ofChar⟩

/-! ### Searching -/

/-- Whether `s` starts with `lit`. -/
def startsWith (s lit : Bytes) : Bool := lit.isPrefixOf s

/-- Whether `s` ends with `lit`. -/
def endsWith (s lit : Bytes) : Bool := lit.isSuffixOf s

/-- The offset of the first occurrence of a literal, the second argument, in a text. -/
def indexOf? : Bytes → Bytes → Option Nat
  | [], lit => if lit.isEmpty then some 0 else none
  | b :: s, lit => if lit.isPrefixOf (b :: s) then some 0 else (indexOf? s lit).map (· + 1)

/-- The offset of the first byte equal to `c`. -/
def indexOfByte? (c : UInt8) (s : Bytes) : Option Nat := s.findIdx? (· == c)

/-- The offset of the last byte equal to `c`. -/
def lastIndexOfByte? (c : UInt8) (s : Bytes) : Option Nat :=
  (s.reverse.findIdx? (· == c)).map (s.length - 1 - ·)

/-- Whether `lit` occurs in `s`. -/
def hasInfix (s lit : Bytes) : Bool := (indexOf? s lit).isSome

/-- The number of bytes of `s` equal to `c`. -/
def countByte (c : UInt8) (s : Bytes) : Nat := s.countP (· == c)

/-- The bytes from offset `i` up to offset `j`. -/
def slice (s : Bytes) (i j : Nat) : Bytes := (s.drop i).take (j - i)

/-! ### Splitting and joining -/

/-- The text before and after the first byte equal to `c`, if there is one. -/
def cut? (c : UInt8) (s : Bytes) : Option (Bytes × Bytes) :=
  (indexOfByte? c s).map fun i => (s.take i, s.drop (i + 1))

/-- The pieces of `s` between the bytes equal to `c`; there is one more piece than such bytes. -/
def splitOnByte (c : UInt8) : Bytes → List Bytes
  | [] => [[]]
  | b :: s =>
    if b == c then [] :: splitOnByte c s
    else match splitOnByte c s with
      | [] => [[b]]
      | p :: ps => (b :: p) :: ps

/-- The pieces of `s` up to and including each newline; they concatenate to `s`. -/
def splitLines : Bytes → List Bytes
  | [] => []
  | b :: s =>
    if b == 10 then [b] :: splitLines s
    else match splitLines s with
      | [] => [[b]]
      | p :: ps => (b :: p) :: ps

/-- The pieces of a list with `sep` between them. -/
def join (sep : Bytes) (pieces : List Bytes) : Bytes := sep.intercalate pieces

/-- `s` repeated `n` times. -/
def repeated (n : Nat) (s : Bytes) : Bytes := (List.replicate n s).flatten

/-- The text left after reading an occurrence, with `skip` bytes of it still to pass. -/
def replaceFrom (old new : Bytes) : Nat → Bytes → Bytes
  | _, [] => []
  | skip + 1, _ :: s => replaceFrom old new skip s
  | 0, b :: s =>
    if old.isPrefixOf (b :: s) then new ++ replaceFrom old new (old.length - 1) s
    else b :: replaceFrom old new 0 s

/-- `s` with every occurrence of the non-empty `old`, read from the left, replaced by `new`. -/
def replaceAll (s old new : Bytes) : Bytes := replaceFrom old new 0 s

/-- The first rule whose left side starts `s`. -/
def matchingRule? (rules : List (Bytes × Bytes)) (s : Bytes) : Option (Bytes × Bytes) :=
  rules.find? fun r => r.1.isPrefixOf s

/-- `substitute` with `skip` bytes of the last match still to pass. -/
def substituteFrom (rules : List (Bytes × Bytes)) : Nat → Bytes → Bytes
  | _, [] => []
  | skip + 1, _ :: s => substituteFrom rules skip s
  | 0, b :: s =>
    match matchingRule? rules (b :: s) with
    | some (old, new) => new ++ substituteFrom rules (old.length - 1) s
    | none => b :: substituteFrom rules 0 s

/-- `s` with rules applied from left to right: at each place the first matching rule replaces its
left side, and replaced text is not looked at again. -/
def substitute (rules : List (Bytes × Bytes)) (s : Bytes) : Bytes := substituteFrom rules 0 s

/-! ### Trimming -/

/-- `s` without the leading bytes satisfying `p`. -/
def trimLeft (p : UInt8 → Bool) (s : Bytes) : Bytes := s.dropWhile p

/-- `s` without the trailing bytes satisfying `p`. -/
def trimRight (p : UInt8 → Bool) (s : Bytes) : Bytes := (s.reverse.dropWhile p).reverse

/-- `s` without the leading and trailing bytes satisfying `p`. -/
def trim (p : UInt8 → Bool) (s : Bytes) : Bytes := trimRight p (trimLeft p s)

/-- `s` without `lit` at its start, if it is there. -/
def dropStart (s lit : Bytes) : Bytes := if lit.isPrefixOf s then s.drop lit.length else s

/-- `s` without `lit` at its end, if it is there. -/
def dropEnd (s lit : Bytes) : Bytes :=
  if lit.isSuffixOf s then s.take (s.length - lit.length) else s

/-! ### Classes of bytes -/

/-- Space, tab, line feed or carriage return. -/
def isBlankByte (b : UInt8) : Bool := b == 32 || b == 9 || b == 10 || b == 13

/-- Whether `s` consists of spaces, tabs, line feeds and carriage returns. -/
def isBlank (s : Bytes) : Bool := s.all isBlankByte

/-- An ASCII decimal digit. -/
def isDigit (b : UInt8) : Bool := 48 ≤ b && b ≤ 57

/-- An ASCII lower-case letter. -/
def isLower (b : UInt8) : Bool := 97 ≤ b && b ≤ 122

/-- An ASCII upper-case letter. -/
def isUpper (b : UInt8) : Bool := 65 ≤ b && b ≤ 90

/-- An ASCII letter. -/
def isAlpha (b : UInt8) : Bool := isLower b || isUpper b

/-- The lower-case form of an ASCII letter; other bytes are left alone. -/
def lowerByte (b : UInt8) : UInt8 := if isUpper b then b + 32 else b

/-! ### Numerals -/

/-- The decimal numeral of a natural number. -/
def ofNat (n : Nat) : Bytes := (Nat.toDigits 10 n).map ofChar

/-- The decimal numeral of an integer, with a minus sign when negative. -/
def ofInt : Int → Bytes
  | .ofNat n => ofNat n
  | .negSucc n => ofChar '-' :: ofNat (n + 1)

/-- The value of a digit in bases up to sixteen. -/
def hexValue? (b : UInt8) : Option Nat :=
  if isDigit b then some (b.toNat - 48)
  else if 97 ≤ b && b ≤ 102 then some (b.toNat - 87)
  else if 65 ≤ b && b ≤ 70 then some (b.toNat - 55)
  else none

/-- The lower-case hexadecimal digit of a number below sixteen. -/
def hexDigit (n : Nat) : UInt8 := (if n < 10 then 48 + n else 87 + n).toUInt8

/-- The last `width` hexadecimal digits of `n`. -/
def hex : Nat → Nat → Bytes
  | 0, _ => []
  | width + 1, n => hex width (n / 16) ++ [hexDigit (n % 16)]

/-- The word for a truth value. -/
def ofBool (b : Bool) : Bytes := if b then "true" else "false"

/-! ### Order -/

/-- Whether `s` comes before `t` or equals it, comparing byte by byte. -/
def le : Bytes → Bytes → Bool
  | [], _ => true
  | _ :: _, [] => false
  | a :: s, b :: t => a < b || (a == b && le s t)

/-- The list in ascending order of bytes. -/
def sort (xs : List Bytes) : List Bytes := xs.mergeSort le

end Bytes

end ServerPages
