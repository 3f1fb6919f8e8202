import ServerPages.Diagnostics.Fault
import ServerPages.Text.Quoted

/-!
# The encoding of a source

The encoding of a source is found before it is parsed. In order of precedence it is named by a byte
order mark, by an XML declaration, by the first page directive that has a page encoding or a content
type with a charset, and otherwise by the surroundings. Directives are looked for as text, and only
near the start of the source.

Which encodings there are, and how they are read, is left open.

Main definitions: `declared?`, which finds the name, and `readSource`, which gives the text.
-/

namespace ServerPages.Charset

/-- How many bytes at the start of a source are searched for a declaration. -/
def searchLimit : Nat := 8192

/-- Whether a byte is blank in a declaration. -/
def isGap (b : UInt8) : Bool := b == 32 || b == 9 || b == 10 || b == 12 || b == 13

/-- Whether a byte is part of a word. -/
def isWordByte (b : UInt8) : Bool := Bytes.isAlpha b || Bytes.isDigit b || b == 95

/-- Whether a byte is a quote. -/
def isQuote (b : UInt8) : Bool := b == 34 || b == 39

/-- Whether no word goes on at the start of a text. -/
def endsWord (s : Bytes) : Bool := !(s.head?.any isWordByte)

/-- What follows a literal at the start of a text. -/
def after? (lit s : Bytes) : Option Bytes :=
  if s.startsWith lit then some (s.drop lit.length) else none

/-- What follows an equals sign, which blanks may surround, at the start of a text. -/
def afterEquals? (s : Bytes) : Option Bytes :=
  (after? "=" (s.dropWhile isGap)).map (·.dropWhile isGap)

/-- What follows a quote at the start of a text. -/
def afterQuote? : Bytes → Option Bytes
  | [] => none
  | b :: s => if isQuote b then some s else none

/-- The text up to a quote, if it is not empty and consists of bytes that satisfy a test. -/
def quoted? (test : UInt8 → Bool) (s : Bytes) : Option Bytes :=
  let value := s.takeWhile test
  if value != [] && (afterQuote? (s.dropWhile test)).isSome then some value else none

/-- The first result of a search at the places of a text; a place is given by the byte before it and
what follows. -/
def searchFrom {α : Type} (match? : Option UInt8 → Bytes → Option α) (before : Option UInt8) :
    Bytes → Option α
  | [] => match? before []
  | b :: s =>
    match match? before (b :: s) with
    | some a => some a
    | none => searchFrom match? (some b) s

/-- The first result of a search where a word starts with a literal; it is given what follows the
literal. -/
def searchWord {α : Type} (word : Bytes) (match? : Bytes → Option α) (s : Bytes) : Option α :=
  searchFrom (fun before s =>
    if before.any isWordByte then none else (after? word s).bind match?) none s

/-! ### The XML declaration -/

/-- Whether a byte may stand in the name of an encoding in an XML declaration. -/
def isNameByte (b : UInt8) : Bool :=
  Bytes.isAlpha b || Bytes.isDigit b || b == 46 || b == 95 || b == 58 || b == 45

/-- The encoding named at the start of a text, after a blank. -/
def prologEncoding? (s : Bytes) : Option Bytes :=
  match s with
  | [] => none
  | b :: s =>
    if isGap b then do quoted? isNameByte (← afterQuote? (← afterEquals? (← after? "encoding" s)))
    else none

/-- The encoding that an XML declaration at the start of a source names. -/
def prolog? (s : Bytes) : Option Bytes := do
  let s ← after? "<?xml" s
  searchFrom (fun _ => prologEncoding?) none (s.takeWhile (· != 62))

/-! ### Page directives -/

/-- The attributes of a page directive at the start of a text, and what follows it. -/
def directive? (s : Bytes) : Option (Bytes × Bytes) :=
  match after? "<%@" s with
  | some s => do
    let s ← after? "page" (s.dropWhile isGap)
    if endsWord s then return (s.takeWhile (· != 37), ← after? "%>" (s.dropWhile (· != 37)))
    else none
  | none => do
    let s ← after? "<jsp:directive.page" s
    if endsWord s then return (s.takeWhile (· != 62), ← after? ">" (s.dropWhile (· != 62)))
    else none

/-- The attributes of the page directives of a text, after `skip` bytes that belong to one. -/
def directivesFrom : Nat → Bytes → List Bytes
  | _, [] => []
  | skip + 1, _ :: s => directivesFrom skip s
  | 0, b :: s =>
    match directive? (b :: s) with
    | some (attributes, rest) =>
      attributes :: directivesFrom (s.length - rest.length) s
    | none => directivesFrom 0 s

/-- The page encoding among the attributes of a directive. -/
def pageEncoding? (attributes : Bytes) : Option Bytes :=
  searchWord "pageEncoding" (fun s => do
    quoted? (!isQuote ·) (← afterQuote? (← afterEquals? s))) attributes

/-- The charset named at the start of a text, after a semicolon. -/
def charset? (s : Bytes) : Option Bytes := do
  let s ← afterEquals? (← after? "charset" ((← after? ";" s).dropWhile isGap))
  let value := s.takeWhile fun b => !isQuote b && b != 59 && !isGap b
  if value == [] then none else return value

/-- The charset named last in the rest of a value, up to a quote. -/
def lastCharset? : Bytes → Option Bytes
  | [] => none
  | b :: s =>
    if isQuote b then none
    else match lastCharset? s with
      | some value => some value
      | none => charset? (b :: s)

/-- The charset of the content type among the attributes of a directive. -/
def contentCharset? (attributes : Bytes) : Option Bytes :=
  searchWord "contentType" (fun s => do lastCharset? (← afterQuote? (← afterEquals? s))) attributes

/-- The encoding that the attributes of a directive name. -/
def directiveEncoding? (attributes : Bytes) : Option Bytes :=
  pageEncoding? attributes <|> contentCharset? attributes

/-! ### All together -/

/-- Byte order marks with the encodings they stand for. -/
def marks : List (Bytes × Bytes) :=
  [([0xEF, 0xBB, 0xBF], "UTF-8"), ([0xFE, 0xFF], "UTF-16BE"), ([0xFF, 0xFE], "UTF-16LE")]

/-- The byte order mark at the start of a source, and the encoding it stands for. -/
def mark? (raw : Bytes) : Option (Bytes × Bytes) := marks.find? fun m => raw.startsWith m.1

/-- The encoding that a source without a byte order mark names. -/
def declared? (raw : Bytes) : Option Bytes :=
  let head := raw.take searchLimit
  prolog? head <|> (directivesFrom 0 head).findSome? directiveEncoding?

end ServerPages.Charset

namespace ServerPages

/-- The encodings that are known by name, each with the text that it gives to the bytes of a
file. -/
abbrev Encodings := Bytes → Option (Bytes → Bytes)

/-- A source that was read. -/
structure SourceText where
  /-- Its text. -/
  text : Bytes
  /-- The name of its encoding. -/
  encoding : Bytes
  deriving DecidableEq, Repr

namespace Charset

/-- The message for a name that no encoding has. -/
def unknownText (name : Bytes) : Bytes := "unknown encoding " ++ Quoted.string name

/-- Whether a name is one under which sources are taken as they are. -/
def isPlainUtf8 (name : Bytes) : Bool :=
  let n := name.map Bytes.lowerByte
  n == "utf-8" || n == "utf8"

/-- The text of a source in an encoding given by name. -/
def decodeNamed (known : Encodings) (file name raw : Bytes) : Except Fault SourceText :=
  if isPlainUtf8 name then .ok ⟨raw, name⟩
  else match known name with
    | some decode => .ok ⟨decode raw, name⟩
    | none =>
      .error (.at .unsupportedEncoding { file := file, line := 1, col := 1 }
        (file ++ ": " ++ unknownText name))

/-- The text of a source. The encoding of one that names none is `fallback`. -/
def readSource (known : Encodings) (file raw fallback : Bytes) : Except Fault SourceText :=
  match mark? raw with
  | some (mark, name) => decodeNamed known file name (raw.drop mark.length)
  | none => decodeNamed known file ((declared? raw).getD fallback) raw

end Charset

end ServerPages
