import ServerPages.Markup.Name
import ServerPages.Text.Quoted
import ServerPages.Unicode.Case

/-!
# Tokens of a marked-up document

A document is read as start tags, end tags, character data, comments, processing instructions and
declarations. Character data has its entities replaced and its line ends written as line feeds;
sections between `<![CDATA[` and `]]>` are character data without entities. A self-closing element
gives a start tag and then an end tag.

Reading stops at the first place where the document is not well formed. The problem carries the
text that was not read yet, from which the line is counted.
-/

namespace ServerPages.Markup

/-- A place where a document is not well formed. -/
structure Problem where
  /-- What is wrong. -/
  message : Bytes
  /-- Whether it is the markup that is wrong, as opposed to what the document declares. -/
  isSyntax : Bool := true
  /-- The text not read yet. -/
  rest : Bytes
  deriving DecidableEq, Repr

/-- An attribute of a start tag. -/
structure Attribute where
  /-- Its name. -/
  name : Name
  /-- Its value. -/
  value : Bytes
  deriving DecidableEq, Repr

/-- A token. -/
inductive Token where
  /-- Character data. -/
  | text (data : Bytes)
  /-- A start tag. -/
  | startTag (name : Name) (attributes : List Attribute) (selfClosing : Bool)
  /-- An end tag. -/
  | endTag (name : Name)
  /-- A comment, a processing instruction or a declaration. -/
  | other
  deriving DecidableEq, Repr

/-- The problem of a document that ends too early. -/
def unexpectedEnd : Problem := { message := "unexpected EOF", rest := [] }

/-- The problem with a message, met before `rest`. -/
def problem (message rest : Bytes) : Problem := { message := message, rest := rest }

/-! ### Character data -/

/-- The named entities. -/
def entities : List (Bytes × Bytes) :=
  [("lt", "<"), ("gt", ">"), ("amp", "&"), ("apos", "'"), ("quot", "\"")]

/-- The problem of an entity that has no meaning. -/
def badEntity (written rest : Bytes) : Problem :=
  problem ("invalid character entity " ++ written ++
    (if written.getLast? == some 59 then ([] : Bytes) else " (no semicolon)")) rest

/-- A reference to a character by its number, after `&#`. -/
def characterReference (s : Bytes) : Except Problem (Bytes × Bytes) :=
  let hex := s.head? == some 120
  let mark : Bytes := if hex then "&#x" else "&#"
  let s := if hex then s.drop 1 else s
  let digit (b : UInt8) : Bool := if hex then (Bytes.hexValue? b).isSome else Bytes.isDigit b
  let digits := s.takeWhile digit
  match s.dropWhile digit with
  | [] => .error unexpectedEnd
  | b :: rest =>
    if b != 59 then .error (badEntity (mark ++ digits) (b :: rest))
    else
      let base := if hex then 16 else 10
      let n := digits.foldl (fun n d => n * base + (Bytes.hexValue? d).getD 0) 0
      if digits == [] || 0x10FFFF < n then .error (badEntity (mark ++ digits ++ ";") rest)
      else .ok (Utf8.encode n, rest)

/-- A reference to a named entity, after `&`. -/
def entityReference (s : Bytes) : Except Problem (Bytes × Bytes) :=
  let name := s.takeWhile isNameByte
  match s.dropWhile isNameByte with
  | [] => .error unexpectedEnd
  | b :: rest =>
    if b != 59 then .error (badEntity ("&" ++ name) (b :: rest))
    else match entities.lookup name with
      | some text => .ok (text, rest)
      | none => .error (badEntity ("&" ++ name ++ ";") rest)

/-- A reference, after `&`. -/
def reference (s : Bytes) : Except Problem (Bytes × Bytes) :=
  match s with
  | [] => .error unexpectedEnd
  | 35 :: [] => .error unexpectedEnd
  | 35 :: s => characterReference s
  | s => entityReference s

/-- Whether a character may stand in a document. -/
def isDocumentChar (c : Nat) : Bool :=
  c == 9 || c == 10 || c == 13 || (0x20 ≤ c && c ≤ 0xD7FF) || (0xE000 ≤ c && c ≤ 0xFFFD) ||
    (0x10000 ≤ c && c ≤ 0x10FFFF)

/-- The upper-case hexadecimal digits of a number, at least `width` of them. -/
def codeText (c : Nat) : Bytes :=
  let ds := (Nat.toDigits 16 c).map fun d => Bytes.ofChar d.toUpper
  List.replicate (4 - ds.length) 48 ++ ds

/-- Character data without characters that may not stand in a document. -/
def legal (data rest : Bytes) : Except Problem (Bytes × Bytes) :=
  match (Utf8.pieces data).find? fun p => Utf8.isBroken p || !isDocumentChar p.1 with
  | none => .ok (data, rest)
  | some p =>
    if Utf8.isBroken p then .error (problem "invalid UTF-8" rest)
    else .error (problem ("illegal character code U+" ++ codeText p.1) rest)

/-- Character data up to where it ends, `out` being read already, last byte first. `quote` closes
an attribute value; without it a tag ends the data. `b0` and `b1` are the two bytes before, and
the first `skip` bytes belong to a reference that was replaced. -/
def dataFrom (quote : Option UInt8) (cdata : Bool) :
    Nat → UInt8 → UInt8 → Bytes → Bytes → Except Problem (Bytes × Bytes)
  | _, _, _, out, [] =>
    if cdata then .error (problem "unexpected EOF in CDATA section" []) else .ok (out.reverse, [])
  | skip + 1, _, _, out, _ :: s => dataFrom quote cdata skip 0 0 out s
  | 0, b0, b1, out, b :: s =>
    if quote.isNone && b0 == 93 && b1 == 93 && b == 62 then
      if cdata then .ok ((out.drop 2).reverse, s)
      else .error (problem "unescaped ]]> not in CDATA section" s)
    else if b == 60 && !cdata then
      if quote.isSome then .error (problem "unescaped < inside quoted string" s)
      else .ok (out.reverse, b :: s)
    else if quote == some b then .ok (out.reverse, s)
    else if b == 38 && !cdata then
      match reference s with
      | .error p => .error p
      | .ok (text, rest) =>
        dataFrom quote cdata (s.length - rest.length) 0 0 (text.reverse ++ out) s
    else
      let out := if b == 13 then 10 :: out else if b1 == 13 && b == 10 then out else b :: out
      dataFrom quote cdata 0 b1 b out s

/-- Character data, checked. -/
def data (quote : Option UInt8) (cdata : Bool) (s : Bytes) : Except Problem (Bytes × Bytes) := do
  let (text, rest) ← dataFrom quote cdata 0 0 0 [] s
  legal text rest

/-! ### Names -/

/-- A name; `missing` is the problem when none stands there. -/
def scanName (missing : Bytes) (s : Bytes) : Except Problem (Bytes × Bytes) :=
  match s with
  | [] => .error unexpectedEnd
  | b :: _ =>
    if !isNameByte b then .error (problem missing s)
    else
      let name := s.takeWhile isNameByte
      match s.dropWhile isNameByte with
      | [] => .error unexpectedEnd
      | rest =>
        if isName name then .ok (name, rest)
        else .error (problem ("invalid XML name: " ++ name) rest)

/-- A qualified name; `missing` is the problem when none stands there. -/
def scanQualified (missing : Bytes) (s : Bytes) : Except Problem (Name × Bytes) := do
  let (name, rest) ← scanName missing s
  match Name.ofText? name with
  | some n => .ok (n, rest)
  | none => .error (problem missing rest)

/-- The text after blanks. -/
def afterBlanks (s : Bytes) : Bytes := s.dropWhile Bytes.isBlankByte

/-! ### Tags -/

/-- The value of an attribute after its equals sign. -/
def attributeValue (s : Bytes) : Except Problem (Bytes × Bytes) :=
  match s with
  | [] => .error unexpectedEnd
  | q :: rest =>
    if q == 34 || q == 39 then data (some q) false rest
    else .error (problem "unquoted or missing attribute value in element" rest)

/-- The attributes of a start tag and its end; every attribute takes a byte, so `fuel` beyond the
number of bytes is not used up. -/
def attributesWithin :
    Nat → List Attribute → Bytes → Except Problem ((List Attribute × Bool) × Bytes)
  | 0, _, _ => .error unexpectedEnd
  | fuel + 1, read, s =>
    match afterBlanks s with
    | [] => .error unexpectedEnd
    | 47 :: [] => .error unexpectedEnd
    | 47 :: 62 :: rest => .ok ((read.reverse, true), rest)
    | 47 :: _ :: rest => .error (problem "expected /> in element" rest)
    | 62 :: rest => .ok ((read.reverse, false), rest)
    | s => do
      let (name, s) ← scanQualified "expected attribute name in element" s
      match afterBlanks s with
      | [] => .error unexpectedEnd
      | b :: s =>
        if b != 61 then .error (problem "attribute name without = in element" s)
        else do
          let (value, s) ← attributeValue (afterBlanks s)
          attributesWithin fuel (⟨name, value⟩ :: read) s

/-- A start tag after its `<`. -/
def startTag (s : Bytes) : Except Problem (Token × Bytes) := do
  let (name, s) ← scanQualified "expected element name after <" s
  let ((attributes, selfClosing), s) ← attributesWithin (s.length + 1) [] s
  return (.startTag name attributes selfClosing, s)

/-- An end tag after its `</`. -/
def endTag (s : Bytes) : Except Problem (Token × Bytes) := do
  let (name, s) ← scanQualified "expected element name after </" s
  match afterBlanks s with
  | [] => .error unexpectedEnd
  | b :: rest =>
    if b == 62 then .ok (.endTag name, rest)
    else .error (problem ("invalid characters between </" ++ name.base ++ " and >") rest)

/-! ### Instructions, comments and declarations -/

/-- `pseudoAttribute` looking at no more than `fuel` places. -/
def pseudoAttributeWithin (param : Bytes) : Nat → Bytes → Bytes
  | 0, _ => []
  | fuel + 1, s =>
    match s.indexOf? param with
    | none => []
    | some k =>
      match s.drop (k + param.length) with
      | [] => []
      | q :: rest =>
        if q == 39 || q == 34 then ((Bytes.cut? q rest).map (·.1)).getD []
        else pseudoAttributeWithin param fuel rest

/-- The value given as `name="value"` in a processing instruction, empty if it is not given. -/
def pseudoAttribute (name s : Bytes) : Bytes := pseudoAttributeWithin (name ++ "=") (s.length + 1) s

/-- A processing instruction after its `<?`. The declaration of a document must be of version 1.0,
and unless `anyEncoding` is set its encoding must be UTF-8. -/
def instruction (anyEncoding : Bool) (s : Bytes) : Except Problem (Token × Bytes) := do
  let (target, s) ← scanName "expected target name after <?" s
  let s := afterBlanks s
  match s.indexOf? "?>" with
  | none => .error unexpectedEnd
  | some i =>
    let content := s.take i
    let rest := s.drop (i + 2)
    if target != "xml" then return (.other, rest)
    let version := pseudoAttribute "version" content
    if version != [] && version != "1.0" then
      .error {
        message := "xml: unsupported version " ++ Quoted.string version ++
          "; only version 1.0 is supported",
        isSyntax := false, rest := rest }
    else
      let encoding := pseudoAttribute "encoding" content
      if encoding != [] && !encoding.foldEq "utf-8" && !anyEncoding then
        .error {
          message := "xml: encoding " ++ Quoted.string encoding ++
            " declared but Decoder.CharsetReader is nil",
          isSyntax := false, rest := rest }
      else .ok (.other, rest)

/-- A comment after its `<!--`. Two hyphens may only stand at its end. -/
def comment (s : Bytes) : Except Problem (Token × Bytes) :=
  match s.indexOf? "--" with
  | none => .error unexpectedEnd
  | some i =>
    match s.drop (i + 2) with
    | [] => .error unexpectedEnd
    | b :: rest =>
      if b == 62 then .ok (.other, rest)
      else .error (problem "invalid sequence \"--\" not allowed in comments" rest)

/-- A declaration up to its `>`. Angle brackets nest, those in quotes and comments do not count;
the first `skip` bytes belong to a comment. -/
def declarationFrom : Nat → Option UInt8 → Nat → Bytes → Except Problem (Token × Bytes)
  | _, _, _, [] => .error unexpectedEnd
  | skip + 1, quote, depth, _ :: s => declarationFrom skip quote depth s
  | 0, quote, depth, b :: s =>
    match quote with
    | some q => declarationFrom 0 (if b == q then none else some q) depth s
    | none =>
      if b == 62 then
        if depth == 0 then .ok (.other, s) else declarationFrom 0 none (depth - 1) s
      else if b == 39 || b == 34 then declarationFrom 0 (some b) depth s
      else if b == 60 then
        if Bytes.startsWith s "!--" then
          match Bytes.indexOf? (s.drop 3) "-->" with
          | none => .error unexpectedEnd
          | some i => declarationFrom (i + 6) none depth s
        else declarationFrom 0 none (depth + 1) s
      else declarationFrom 0 none depth s

/-- The rest after the opening of a character data section, of which `<![` is read. -/
def afterSectionOpening : Bytes → Bytes → Except Problem Bytes
  | [], s => .ok s
  | _ :: _, [] => .error unexpectedEnd
  | c :: cs, b :: s =>
    if b == c then afterSectionOpening cs s else .error (problem "invalid <![ sequence" s)

/-- What follows `<!`. -/
def special (s : Bytes) : Except Problem (Token × Bytes) :=
  match s with
  | [] => .error unexpectedEnd
  | 45 :: [] => .error unexpectedEnd
  | 45 :: 45 :: s => comment s
  | 45 :: _ :: s => .error (problem "invalid sequence <!- not part of <!--" s)
  | 91 :: s => do
    let s ← afterSectionOpening "CDATA[" s
    let (text, rest) ← data none true s
    return (.text text, rest)
  | _ :: s => declarationFrom 0 none 0 s

/-! ### Documents -/

/-- The next token of a document that is not at its end. -/
def token (anyEncoding : Bool) (s : Bytes) : Except Problem (Token × Bytes) :=
  match s with
  | 60 :: [] => .error unexpectedEnd
  | 60 :: 47 :: s => endTag s
  | 60 :: 63 :: s => instruction anyEncoding s
  | 60 :: 33 :: s => special s
  | 60 :: s => startTag s
  | s => do
    let (text, rest) ← data none false s
    return (.text text, rest)

/-- A document being read. -/
structure Reader where
  /-- The text not read yet. -/
  rest : Bytes
  /-- The number of bytes read. -/
  offset : Nat := 0
  /-- The element that was closed by its own start tag and whose end tag is due. -/
  pending : Option Name := none
  deriving Repr

namespace Reader

/-- The next token, `none` at the end of the document. -/
def next (anyEncoding : Bool) (r : Reader) : Except Problem (Option (Token × Reader)) :=
  match r.pending with
  | some name => .ok (some (.endTag name, { r with pending := none }))
  | none =>
    if r.rest == [] then .ok none
    else do
      let (t, rest) ← token anyEncoding r.rest
      let pending := match t with
        | .startTag name _ true => some name
        | _ => none
      return some (t, ⟨rest, r.offset + (r.rest.length - rest.length), pending⟩)

end Reader

/-! ### Writing -/

/-- A character of an attribute value, escaped. -/
def escapeChar (c : Nat) : Bytes :=
  if c == 34 then "&#34;"
  else if c == 39 then "&#39;"
  else if c == 38 then "&amp;"
  else if c == 60 then "&lt;"
  else if c == 62 then "&gt;"
  else if c == 9 then "&#x9;"
  else if c == 10 then "&#xA;"
  else if c == 13 then "&#xD;"
  else if isDocumentChar c then Utf8.encode c
  else Utf8.encode Utf8.replacement

/-- A text in which markup characters are escaped and illegal ones replaced. -/
def escape (s : Bytes) : Bytes := (Utf8.chars s).flatMap escapeChar

end ServerPages.Markup
