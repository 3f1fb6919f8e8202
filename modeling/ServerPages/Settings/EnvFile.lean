import ServerPages.Settings.LineReader
import ServerPages.Unicode.Space

/-!
# Files of variables

A file of variables has a line per variable: a name, an equals sign or a colon, and a value that may
be quoted. A quoted value may go over several lines. Lines may be empty or comments, and a name may
have the word `export` before it. Values refer to variables with a dollar sign, of the environment
first and then of the file so far.

Main definition: `EnvFile.read?`.
-/

namespace ServerPages.EnvFile

/-- Variables with their values, the latest first. -/
abbrev Variables := List (Bytes × Bytes)

/-! ### Lines -/

/-- Whether a byte is a quote. -/
def isQuote (b : UInt8) : Bool := b == 34 || b == 39

/-- The quote that a line opens and does not close. -/
def openQuote? (line : Bytes) : Option UInt8 := do
  let i ← Bytes.indexOfByte? 61 line <|> Bytes.indexOfByte? 58 line
  if i == 0 || line.length ≤ i + 1 then none
  let value := Bytes.trimSpace (line.drop (i + 1))
  let quote ← value.head?
  if !isQuote quote then none
  match Bytes.lastIndexOfByte? quote (Bytes.trimSpace (value.drop 1)) with
  | some j => if value[j]? == some 92 then some quote else none
  | none => some quote

/-- Whether a line closes a quote. -/
def closes (quote : UInt8) (s : Bytes) : Bool :=
  match Bytes.lastIndexOfByte? quote s with
  | some 0 => true
  | some (j + 1) => s[j]? != some 92
  | none => false

/-- A line with the lines up to the one that closes a quote, and the lines after it. -/
def untilClosed? (quote : UInt8) (line : Bytes) : List Bytes → Option (Bytes × List Bytes)
  | [] => none
  | l :: ls =>
    let joined := line ++ [10] ++ l
    if closes quote l then some (joined, ls) else untilClosed? quote joined ls

/-! ### Variables -/

/-- Whether a byte is blank in a line. -/
def isGap (b : UInt8) : Bool := b == 32 || b == 9 || b == 10 || b == 12 || b == 13

/-- Whether a byte may stand in a name. -/
def isNameByte (b : UInt8) : Bool :=
  Bytes.isAlpha b || Bytes.isDigit b || b == 95 || b == 46

/-- Whether nothing but blanks and a comment is left of a line. -/
def isTail (s : Bytes) : Bool :=
  match s.dropWhile isGap with
  | [] => true
  | b :: rest => b == 35 && !rest.contains 10

/-- A quoted value at the start of a text, with its quotes: it ends at the last quote after which
nothing but a comment is left. -/
def quoted? (quote : UInt8) (s : Bytes) : Option Bytes :=
  let ends := ((List.range s.length).filter fun i => 0 < i && s[i]? == some quote).reverse
  (ends.find? fun i => isTail (s.drop (i + 1))).map fun i => s.take (i + 1)

/-- The value at the start of a text, of which nothing but a comment may be left. -/
def value? (s : Bytes) : Option Bytes :=
  let bare :=
    let v := s.takeWhile fun b => b != 35 && b != 10
    if isTail (s.drop v.length) then some v else none
  match s with
  | b :: _ => if isQuote b then quoted? b s <|> bare else bare
  | [] => some []

/-- The value after blanks, of which there is at least one: it starts after as few of them as leave
nothing but a comment behind it. -/
def afterBlanks? : Bytes → Option Bytes
  | [] => none
  | b :: s => if isGap b then value? s <|> afterBlanks? s else none

/-- The value after a delimiter at the start of a text. -/
def delimited? (s : Bytes) : Option Bytes :=
  match s.dropWhile isGap, s with
  | 61 :: rest, _ => value? (rest.dropWhile isGap)
  | _, 58 :: rest => afterBlanks? rest
  | _, _ => none

/-- The name and the value in a line. -/
def assignment? (s : Bytes) : Option (Bytes × Bytes) :=
  let name := s.takeWhile isNameByte
  if name == [] then none
  else (delimited? (s.dropWhile isNameByte)).map (name, ·)

/-- The name and the value in a line, in which the word `export` may come first. -/
def entry? (line : Bytes) : Option (Bytes × Bytes) :=
  let s := line.dropWhile isGap
  let exported : Option (Bytes × Bytes) :=
    if Bytes.startsWith s "export" then
      let rest := s.drop 6
      if rest.head?.any isGap then assignment? (rest.dropWhile isGap) else none
    else none
  exported <|> assignment? s

/-! ### Values -/

/-- A text without the backslashes that escape anything but a dollar sign. -/
def unescaped : Bytes → Bytes
  | [] => []
  | 92 :: b :: s => if b == 36 then 92 :: unescaped (b :: s) else b :: unescaped s
  | b :: s => b :: unescaped s
termination_by s => s.length

/-- Whether a byte may stand in a reference to a variable. -/
def isReferenceByte (b : UInt8) : Bool := Bytes.isUpper b || Bytes.isDigit b || b == 95

/-- The variable that a text after a dollar sign refers to, and the length of the reference. -/
def reference (s : Bytes) : Bytes × Nat :=
  let opening := if s.head? == some 123 then 1 else 0
  let name := (s.drop opening).takeWhile isReferenceByte
  let closing := if s[opening + name.length]? == some 125 then 1 else 0
  (name, opening + name.length + closing)

/-- A text with references replaced by values, after `skip` bytes of a reference. A dollar sign
after a backslash stands for itself, without the backslash, and so does one that no name follows. -/
def expandFrom (value : Bytes → Bytes) : Nat → Bytes → Bytes
  | _, [] => []
  | skip + 1, _ :: s => expandFrom value skip s
  | 0, b :: s =>
    if b == 36 then
      let (name, length) := reference s
      (if name == [] then b :: s.take length else value name) ++ expandFrom value length s
    else if b == 92 && s.head? == some 36 then
      let length := (reference (s.drop 1)).2 + 1
      s.take length ++ expandFrom value length s
    else b :: expandFrom value 0 s

/-- What a written value stands for. In double quotes escapes are replaced; in single quotes nothing
is. -/
def meaning (lookup : Bytes → Bytes) (written : Bytes) : Bytes :=
  let v := written.trimSpace
  let isIn (q : UInt8) : Bool := 2 ≤ v.length && v.head? == some q && v.getLast? == some q
  let inner := (v.drop 1).dropLast
  if isIn 39 then inner
  else if isIn 34 then
    let broken := Bytes.replaceAll (Bytes.replaceAll inner "\\n" "\n") "\\r" "\r"
    expandFrom lookup 0 (unescaped broken)
  else expandFrom lookup 0 v

/-- The value of a variable: that of the environment, else that of the file so far. -/
def valueOf (environment file : Variables) (name : Bytes) : Bytes :=
  ((environment.lookup name) <|> (file.lookup name)).getD []

/-- The variables of lines, of which there are no more than the fuel, after those read so far. -/
def readLines? (environment file : Variables) : Nat → List Bytes → Option Variables
  | _, [] => some file
  | 0, _ => none
  | fuel + 1, l :: ls =>
    let line := l.trimSpace
    if line == [] || line.head? == some 35 then readLines? environment file fuel ls
    else do
      let (line, ls) ← match openQuote? line with
        | some quote => untilClosed? quote line ls
        | none => some (line, ls)
      let (name, written) ← entry? line
      let value := meaning (valueOf environment file) written
      readLines? environment ((name, value) :: file) fuel ls

/-- The variables of a file, unless a line is malformed or too long. -/
def read? (environment : Variables) (raw : Bytes) : Option Variables := do
  let lines ← LineReader.lines? raw
  readLines? environment [] lines.length lines

end ServerPages.EnvFile
