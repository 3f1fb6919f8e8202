import ServerPages.Text.Bytes

/-!
# Expressions inside text

Text may hold expressions written `${body}`, evaluated at once, or `#{body}`, evaluated later. A
backslash before the opening pair makes it plain text. `scan` splits a text into literal and
expression segments; `contains` tells without splitting whether there is an expression, and
`unescape` drops the backslashes of escaped openers.
-/

namespace ServerPages.Expression

/-- Whether a text starts with `${` or `#{`. -/
def isOpener : Bytes → Bool
  | a :: b :: _ => (a == 36 || a == 35) && b == 123
  | _ => false

/-- Whether a text holds an opener that is not escaped. -/
def contains : Bytes → Bool
  | [] => false
  | [_] => false
  | [a, b] => isOpener [a, b]
  | a :: b :: c :: s =>
    if a == 92 && isOpener (b :: c :: s) then contains s
    else isOpener (a :: b :: c :: s) || contains (b :: c :: s)

/-- The text without the backslashes before openers. -/
def unescape : Bytes → Bytes
  | [] => []
  | b :: s => if b == 92 && isOpener s then unescape s else b :: unescape s

/-- The number of bytes up to and including the brace that closes the innermost of `depth` open
braces. Inside a string, which `quote` closes, braces do not count and a backslash hides the byte
after it. -/
def closing : Nat → Option UInt8 → Bytes → Option Nat
  | _, _, [] => none
  | _, some _, [_] => none
  | depth, some q, b :: c :: s =>
    if b == 92 then (closing depth (some q) s).map (· + 2)
    else if b == q then (closing depth none (c :: s)).map (· + 1)
    else (closing depth (some q) (c :: s)).map (· + 1)
  | depth, none, b :: s =>
    if b == 39 || b == 34 then (closing depth (some b) s).map (· + 1)
    else if b == 123 then (closing (depth + 1) none s).map (· + 1)
    else if b == 125 then
      if depth ≤ 1 then some 1 else (closing (depth - 1) none s).map (· + 1)
    else (closing depth none s).map (· + 1)

/-- The length of the expression at the start of a text that starts with an opener. -/
def length? : Bytes → Option Nat
  | [] => none
  | _ :: s => (closing 0 none s).map (· + 1)

/-- What a segment is. -/
inductive SegmentKind where
  /-- Plain text. -/
  | literal
  /-- An expression evaluated at once. -/
  | immediate
  /-- An expression evaluated later. -/
  | deferred
  deriving DecidableEq, Repr

/-- A piece of a text. -/
structure Segment where
  /-- Plain text without escapes, or an expression with its delimiters. -/
  text : Bytes
  /-- Where the piece starts in the text. -/
  offset : Nat
  /-- What the piece is. -/
  kind : SegmentKind
  deriving DecidableEq, Repr

namespace Segment

/-- Whether the segment is an expression. -/
def isExpression (s : Segment) : Bool := s.kind != .literal

/-- The text between the delimiters of an expression. -/
def body (s : Segment) : Bytes := (s.text.drop 2).dropLast

end Segment

/-- Why an expression is refused. -/
inductive Reason where
  /-- The closing brace is missing; the opener is kept for the message. -/
  | unterminated (opener : Bytes)
  /-- There is nothing between the delimiters. -/
  | empty
  /-- The body does not follow the grammar. -/
  | malformed
  deriving DecidableEq, Repr

/-- The reason in words. -/
def Reason.text : Reason → Bytes
  | .unterminated opener => "unterminated " ++ opener
  | .empty => "empty expression"
  | .malformed => "<expr>"

/-- A refused expression and its offset in the text. -/
structure Error where
  /-- Where the expression starts. -/
  offset : Nat
  /-- Why it is refused. -/
  reason : Reason
  deriving DecidableEq, Repr

/-- The message of a refused expression. -/
def Error.text (e : Error) : Bytes := "offset " ++ Bytes.ofNat e.offset ++ ": " ++ e.reason.text

/-- The literal being read: where it started and its bytes, last first. -/
abbrev Pending := Option (Nat × Bytes)

namespace Pending

/-- The pending literal with the bytes `s`, which stand at `offset`, added. -/
def add (p : Pending) (offset : Nat) (s : Bytes) : Pending :=
  match p with
  | none => some (offset, s.reverse)
  | some (start, text) => some (start, s.reverse ++ text)

/-- The pending literal as a segment, if there is one. -/
def segments (p : Pending) : List Segment :=
  match p with
  | none => []
  | some (start, text) => [⟨text.reverse, start, .literal⟩]

end Pending

/-- The expression segment of a text at an offset. -/
def segmentOf (text : Bytes) (offset : Nat) : Segment :=
  ⟨text, offset, if text.head? == some 35 then .deferred else .immediate⟩

/-- The segments of `s`, which stands at `offset` and whose first `skip` bytes belong to what was
read already. -/
def scanFrom (offset : Nat) : Nat → Pending → Bytes → Except Error (List Segment)
  | _, lit, [] => .ok lit.segments
  | skip + 1, lit, _ :: s => scanFrom (offset + 1) skip lit s
  | 0, lit, b :: s =>
    if b == 92 && isOpener s then scanFrom (offset + 1) 2 (lit.add offset (s.take 2)) s
    else if isOpener (b :: s) then
      match length? (b :: s) with
      | none => .error ⟨offset, .unterminated ((b :: s).take 2)⟩
      | some n =>
        (scanFrom (offset + 1) (n - 1) none s).map fun segs =>
          lit.segments ++ segmentOf ((b :: s).take n) offset :: segs
    else scanFrom (offset + 1) 0 (lit.add offset [b]) s

/-- The literal and expression segments of a text. Neighbouring literal pieces are one segment. -/
def scan (s : Bytes) : Except Error (List Segment) := scanFrom 0 0 none s

end ServerPages.Expression
