import ServerPages.Json.Value

/-!
# Reading JSON

`JsonValue.first?` reads the value at the start of a text and does not look at what follows it. Text
that is not well formed UTF-8 and halves of characters become replacement characters.
-/

namespace ServerPages.JsonValue

/-- How deep lists and objects may nest. -/
def maxDepth : Nat := 10000

/-- Whether a byte is blank. -/
def isGap (b : UInt8) : Bool := b == 32 || b == 9 || b == 10 || b == 13

/-- A text without blanks at its start. -/
def skipGaps (s : Bytes) : Bytes := s.dropWhile isGap

/-! ### Texts -/

/-- The value of four hexadecimal digits at the start of a text. -/
def unit? : Bytes → Option Nat
  | a :: b :: c :: d :: _ => do
    let high := (← Bytes.hexValue? a) * 16 + (← Bytes.hexValue? b)
    let low := (← Bytes.hexValue? c) * 16 + (← Bytes.hexValue? d)
    return high * 256 + low
  | _ => none

/-- The second half of a character, escaped at the start of a text. -/
def secondHalf? (s : Bytes) : Option Nat := do
  if !s.startsWith "\\u" then none
  let u ← unit? (s.drop 2)
  if 0xDC00 ≤ u && u ≤ 0xDFFF then some u else none

/-- The character that a letter after a backslash stands for. -/
def letter? (b : UInt8) : Option UInt8 :=
  if b == 34 || b == 92 || b == 47 then some b
  else if b == 98 then some 8
  else if b == 102 then some 12
  else if b == 110 then some 10
  else if b == 114 then some 13
  else if b == 116 then some 9
  else none

/-- The bytes of an escape of which the backslash was read, and the number of bytes it takes. -/
def escape? : Bytes → Option (Bytes × Nat)
  | [] => none
  | b :: s =>
    if b == 117 then do
      let u ← unit? s
      if 0xD800 ≤ u && u < 0xDC00 then
        match secondHalf? (s.drop 4) with
        | some v => return (Utf8.encode ((u - 0xD800) * 0x400 + (v - 0xDC00) + 0x10000), 11)
        | none => return (Utf8.encode Utf8.replacement, 5)
      else return (Utf8.encode u, 5)
    else (letter? b).map fun c => ([c], 1)

/-- The bytes up to the closing quote, and what follows it, after `skip` bytes of an escape. -/
def stringFrom? : Nat → Bytes → Option (Bytes × Bytes)
  | _, [] => none
  | skip + 1, _ :: s => stringFrom? skip s
  | 0, b :: s =>
    if b == 34 then some ([], s)
    else if b < 32 then none
    else if b == 92 then do
      let (c, width) ← escape? s
      let (t, rest) ← stringFrom? width s
      return (c ++ t, rest)
    else do
      let (t, rest) ← stringFrom? 0 s
      return (b :: t, rest)

/-- The text up to the closing quote, and what follows it. -/
def string? (s : Bytes) : Option (Bytes × Bytes) :=
  (stringFrom? 0 s).map fun (t, rest) => (Utf8.repaired t, rest)

/-! ### Numbers -/

/-- The digits at the start of a text, of which there is at least one, and what follows them. -/
def digits? (s : Bytes) : Option (Bytes × Bytes) :=
  let ds := s.takeWhile Bytes.isDigit
  if ds == [] then none else some (ds, s.drop ds.length)

/-- The digits before the point: a zero stands alone. -/
def whole? (s : Bytes) : Option (Bytes × Bytes) :=
  if s.head? == some 48 then some ([48], s.drop 1) else digits? s

/-- The part after the point, if there is a point. -/
def fraction? (s : Bytes) : Option (Bytes × Bytes) :=
  if s.head? == some 46 then (digits? (s.drop 1)).map fun (ds, rest) => (46 :: ds, rest)
  else some ([], s)

/-- The exponent, if there is one. -/
def exponent? (s : Bytes) : Option (Bytes × Bytes) :=
  match s with
  | b :: t =>
    if b == 101 || b == 69 then
      let sign := t.take (if t.head? == some 43 || t.head? == some 45 then 1 else 0)
      (digits? (t.drop sign.length)).map fun (ds, rest) => (b :: (sign ++ ds), rest)
    else some ([], s)
  | [] => some ([], s)

/-- The number at the start of a text, and what follows it. -/
def number? (s : Bytes) : Option (Bytes × Bytes) := do
  let sign := s.take (if s.head? == some 45 then 1 else 0)
  let (w, rest) ← whole? (s.drop sign.length)
  let (f, rest) ← fraction? rest
  let (e, rest) ← exponent? rest
  return (sign ++ w ++ f ++ e, rest)

/-! ### Values -/

/-- What follows a word at the start of a text. -/
def afterWord? (word s : Bytes) : Option Bytes :=
  if s.startsWith word then some (s.drop word.length) else none

/-- The value at the start of a text that is no list, object or text, and what follows it. -/
def plain? (s : Bytes) : Option (JsonValue × Bytes) :=
  match afterWord? "null" s, afterWord? "true" s, afterWord? "false" s with
  | some rest, _, _ => some (.null, rest)
  | _, some rest, _ => some (.bool true, rest)
  | _, _, some rest => some (.bool false, rest)
  | none, none, none => (number? s).map fun (n, rest) => (.number n, rest)

mutual

/-- The value at the start of a text and what follows it; lists and objects nest no deeper than
`depth`, and no more steps are taken than the fuel. -/
def valueFrom? (fuel depth : Nat) (s : Bytes) : Option (JsonValue × Bytes) :=
  match fuel with
  | 0 => none
  | fuel + 1 =>
    match skipGaps s with
    | [] => none
    | b :: t =>
      if b == 34 then (string? t).map fun (s, rest) => (.string s, rest)
      else if b == 91 then
        if depth == 0 then none
        else match skipGaps t with
          | 93 :: rest => some (.array [], rest)
          | t => (itemsFrom? fuel (depth - 1) t).map fun (vs, rest) => (.array vs, rest)
      else if b == 123 then
        if depth == 0 then none
        else match skipGaps t with
          | 125 :: rest => some (.object [], rest)
          | t => (membersFrom? fuel (depth - 1) t).map fun (ms, rest) => (.object ms, rest)
      else plain? (b :: t)

/-- The items of a list up to its end, and what follows it. -/
def itemsFrom? (fuel depth : Nat) (s : Bytes) : Option (List JsonValue × Bytes) :=
  match fuel with
  | 0 => none
  | fuel + 1 => do
    let (v, rest) ← valueFrom? fuel depth s
    match skipGaps rest with
    | 93 :: rest => some ([v], rest)
    | 44 :: rest => (itemsFrom? fuel depth rest).map fun (vs, rest) => (v :: vs, rest)
    | _ => none

/-- The members of an object up to its end, and what follows it. -/
def membersFrom? (fuel depth : Nat) (s : Bytes) : Option (List (Bytes × JsonValue) × Bytes) :=
  match fuel with
  | 0 => none
  | fuel + 1 =>
    match skipGaps s with
    | 34 :: s => do
      let (name, rest) ← string? s
      match skipGaps rest with
      | 58 :: rest =>
        let (v, rest) ← valueFrom? fuel depth rest
        match skipGaps rest with
        | 125 :: rest => some ([(name, v)], rest)
        | 44 :: rest => (membersFrom? fuel depth rest).map fun (ms, rest) => ((name, v) :: ms, rest)
        | _ => none
      | _ => none
    | _ => none

end

/-- The value at the start of a text. -/
def first? (s : Bytes) : Option JsonValue :=
  (valueFrom? (2 * s.length + 2) maxDepth s).map (·.1)

end ServerPages.JsonValue
