import ServerPages.Text.Float
import ServerPages.Text.Utf8
import ServerPages.Unicode.Digit
import ServerPages.Unicode.Letter
import ServerPages.Unicode.Space

/-!
# Tokens of the expression grammar

Names, numbers, strings, brackets and operators. Strings are quoted, with escapes, or stand
between backticks as they are; comments run from `//` to the end of the line or between `/*` and
`*/`. A text that holds anything else has no tokens.
-/

namespace ServerPages.Expression

/-- A token. The end of the text is the end of the token list. -/
inductive Token where
  /-- A name. -/
  | identifier (name : Bytes)
  /-- A number as written. -/
  | number (text : Bytes)
  /-- A string. -/
  | string
  /-- An operator or separator. -/
  | operator (symbol : Bytes)
  /-- One of `( ) [ ] { }`. -/
  | bracket (c : Nat)
  deriving DecidableEq, Repr

/-- A character of a name. -/
def isNameChar (c : Nat) : Bool :=
  c == 95 || c == 36 || Unicode.isLetter c || Unicode.isDigit c

/-- An ASCII digit. -/
def isDecimal (c : Nat) : Bool := 48 ≤ c && c ≤ 57

/-- The value of a hexadecimal digit. -/
def hexDigit? (c : Nat) : Option Nat := if c < 128 then Bytes.hexValue? c.toUInt8 else none

/-! ### Strings -/

/-- The rest after a quoted string that `q` closes. Control escapes, the backslash, the quote
itself, three octal digits of which the first is at most three, and two, four or eight hexadecimal
digits may follow a backslash; a line may not end inside. -/
def afterString? (q : Nat) : List Nat → Option (List Nat)
  | [] => none
  | c :: s =>
    if c == q then some s
    else if c == 10 then none
    else if c == 92 then
      match s with
      | [] => none
      | e :: s =>
        if [97, 98, 102, 110, 114, 116, 118, 92, q].contains e then afterString? q s
        else if 48 ≤ e && e ≤ 51 then
          match s with
          | a :: b :: s =>
            if 48 ≤ a && a ≤ 55 && 48 ≤ b && b ≤ 55 then afterString? q s else none
          | _ => none
        else if e == 120 then
          match s with
          | a :: b :: s => if [a, b].all (hexDigit? · |>.isSome) then afterString? q s else none
          | _ => none
        else if e == 117 then
          match s with
          | a :: b :: c :: d :: s =>
            if [a, b, c, d].all (hexDigit? · |>.isSome) then afterString? q s else none
          | _ => none
        else if e == 85 then
          match s with
          | a :: b :: c :: d :: e :: f :: g :: h :: s =>
            let ds := [a, b, c, d, e, f, g, h]
            let v := ds.foldl (fun n x => n * 16 + (hexDigit? x).getD 0) 0
            if ds.all (hexDigit? · |>.isSome) && (v ≤ 0x10FFFF || 0x80000000 ≤ v) then
              afterString? q s
            else none
          | _ => none
        else none
    else afterString? q s

/-- The rest after a backtick string. -/
def afterRaw? : List Nat → Option (List Nat)
  | [] => none
  | c :: s => if c == 96 then some s else afterRaw? s

/-- The rest after a comment that `*/` closes. -/
def afterComment? : List Nat → Option (List Nat)
  | [] => none
  | [_] => none
  | c :: d :: s => if c == 42 && d == 47 then some s else afterComment? (d :: s)

/-! ### Numbers -/

/-- The characters satisfying `p` at the start of a text, and the rest. -/
def run (p : Nat → Bool) (s : List Nat) : List Nat × List Nat := (s.takeWhile p, s.dropWhile p)

/-- The first character of a text and the rest, if it is one of `cs`. -/
def oneOf (cs : List Nat) : List Nat → List Nat × List Nat
  | [] => ([], [])
  | c :: s => if cs.contains c then ([c], s) else ([], c :: s)

/-- The digits a number may have after its base mark; the underscore counts as one. -/
def baseDigit (mark : List Nat) (c : Nat) : Bool :=
  c == 95 ||
    match mark with
    | [x] =>
      if x == 120 || x == 88 then (hexDigit? c).isSome
      else if x == 111 || x == 79 then 48 ≤ c && c ≤ 55
      else c == 48 || c == 49
    | _ => isDecimal c

/-- The exponent of a number at the start of a text, and the rest. -/
def exponentPart (digit : Nat → Bool) (s : List Nat) : List Nat × List Nat :=
  match oneOf [101, 69] s with
  | ([], s) => ([], s)
  | (e, s) =>
    let (sign, s) := oneOf [43, 45] s
    let (digits, s) := run digit s
    (e ++ sign ++ digits, s)

/-- The number at the start of a text and the rest. A point followed by another one is not part of
it, and no name may follow it directly. -/
def number? (s : List Nat) : Option (List Nat × List Nat) :=
  let (zero, s) := oneOf [48] s
  let (mark, s) := if zero.isEmpty then ([], s) else oneOf [120, 88, 111, 79, 98, 66] s
  let (whole, s) := run (baseDigit mark) s
  match s with
  | 46 :: 46 :: _ => some (zero ++ mark ++ whole, s)
  | _ =>
    let (point, s) := oneOf [46] s
    let (fraction, s) := if point.isEmpty then ([], s) else run (baseDigit mark) s
    let (exponent, s) := exponentPart (baseDigit mark) s
    if s.head?.any isNameChar then none
    else some (zero ++ mark ++ whole ++ point ++ fraction ++ exponent, s)

/-! ### Tokens -/

/-- The names that are operators. -/
def operatorNames : List Bytes :=
  ["not", "in", "or", "and", "matches", "contains", "startsWith", "endsWith", "let"]

/-- The token of a name. -/
def nameToken (name : List Nat) : Token :=
  let text := Utf8.encodeAll name
  if operatorNames.contains text then .operator text else .identifier text

/-- An operator of a first character and perhaps a second one out of `seconds`. -/
def operatorToken (c : Nat) (seconds s : List Nat) : Token × List Nat :=
  let (d, s) := oneOf seconds s
  (.operator (Utf8.encodeAll (c :: d)), s)

/-- The tokens of a text; every token takes at least one character, so `fuel` beyond the number of
characters is never used up. -/
def tokensWithin : Nat → List Nat → Option (List Token)
  | 0, _ => none
  | _ + 1, [] => some []
  | fuel + 1, c :: s =>
    let single (t : Token × List Nat) : Option (List Token) :=
      (tokensWithin fuel t.2).map (t.1 :: ·)
    if Unicode.isSpace c then tokensWithin fuel s
    else if c == 39 || c == 34 then (afterString? c s).bind fun s => single (.string, s)
    else if c == 96 then (afterRaw? s).bind fun s => single (.string, s)
    else if isDecimal c then
      (number? (c :: s)).bind fun (text, s) => single (.number (Utf8.encodeAll text), s)
    else if c == 63 then single (operatorToken c [46, 63] s)
    else if c == 47 then
      match s with
      | 47 :: s => tokensWithin fuel ((s.dropWhile (· != 10)).drop 1)
      | 42 :: s => (afterComment? s).bind (tokensWithin fuel)
      | s => single (.operator "/", s)
    else if c == 35 then
      let (t, s) := operatorToken c [35] s
      match run isNameChar s with
      | ([], s) => single (t, s)
      | (name, s) =>
        (tokensWithin fuel s).map fun ts => t :: .identifier (Utf8.encodeAll name) :: ts
    else if c == 124 then single (operatorToken c [124] s)
    else if c == 58 then single (operatorToken c [58] s)
    else if [40, 91, 123, 41, 93, 125].contains c then single (.bracket c, s)
    else if [44, 59, 37, 43, 45, 94].contains c then single (operatorToken c [] s)
    else if [38, 33, 61, 42, 60, 62].contains c then single (operatorToken c [38, 61, 42] s)
    else if c == 46 then
      if s.head?.any isDecimal then
        (number? s).bind fun (text, s) => single (.number (Utf8.encodeAll (46 :: text)), s)
      else single (operatorToken c [46] s)
    else if isNameChar c then
      let (name, s) := run isNameChar (c :: s)
      single (nameToken name, s)
    else none

/-- The tokens of a text, if it has any. -/
def tokens? (s : Bytes) : Option (List Token) :=
  let cs := Utf8.chars s
  tokensWithin (cs.length + 1) cs

end ServerPages.Expression
