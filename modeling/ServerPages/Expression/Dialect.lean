import ServerPages.Text.Bytes

/-!
# The dialect of expression bodies

Expression bodies use words for some operators and call library functions as `prefix:name(…)`.
The expression grammar knows neither: words become symbols, and such a call becomes a call of one
identifier made of both names. `pieces` reads a body, `render` writes it for the grammar.
-/

namespace ServerPages.Expression

/-- A library function as an expression names it. -/
structure FunctionRef where
  /-- The prefix bound to the library. -/
  library : Bytes
  /-- The name of the function in the library. -/
  name : Bytes
  /-- The uri the prefix is bound to where the expression stands; empty if not known. -/
  uri : Bytes := []
  deriving DecidableEq, Repr

namespace FunctionRef

/-- The reference as written. -/
def text (f : FunctionRef) : Bytes := f.library ++ ":" ++ f.name

/-- The identifier that stands for the function in the grammar. -/
def mangled (f : FunctionRef) : Bytes := f.library ++ "__" ++ f.name

end FunctionRef

/-- The words for operators and the null value, with their symbols. -/
def wordOperators : List (Bytes × Bytes) :=
  [("eq", "=="), ("ne", "!="), ("lt", "<"), ("gt", ">"), ("le", "<="), ("ge", ">="),
    ("div", "/"), ("mod", "%"), ("and", "&&"), ("or", "||"), ("not", "!"), ("empty", "!"),
    ("null", "nil")]

/-- A byte that may start a word. -/
def isWordStart (b : UInt8) : Bool := b == 95 || Bytes.isAlpha b

/-- A byte that may continue a word. -/
def isWordByte (b : UInt8) : Bool := isWordStart b || Bytes.isDigit b

/-- A piece of a body. -/
inductive Piece where
  /-- Text that both dialects share. -/
  | verbatim (text : Bytes)
  /-- A word for an operator, with its symbol. -/
  | operator (symbol : Bytes)
  /-- The callee of a library function call. -/
  | callee (f : FunctionRef)
  deriving DecidableEq, Repr

/-- The name of the function called with `:name(` at the start of a text; blanks and tabs may
precede the parenthesis. -/
def calledName? : Bytes → Option Bytes
  | 58 :: b :: s =>
    if isWordStart b then
      let name := b :: s.takeWhile isWordByte
      match (s.dropWhile isWordByte).dropWhile fun c => c == 32 || c == 9 with
      | 40 :: _ => some name
      | _ => none
    else none
  | _ => none

/-- The number of bytes of a string after its opening mark `q`, the closing one included. A
backslash hides the byte after it; a string that is not closed runs to the end. -/
def stringLength (q : UInt8) : Bytes → Nat
  | [] => 0
  | [_] => 1
  | b :: c :: s =>
    if b == q then 1
    else if b == 92 then 2 + stringLength q s
    else 1 + stringLength q (c :: s)

/-- The pieces of a text whose first `skip` bytes belong to what was read already; `afterDot`
tells whether a dot stands right before it. -/
def piecesFrom : Nat → Bool → Bytes → List Piece
  | _, _, [] => []
  | skip + 1, _, b :: s => piecesFrom skip (b == 46) s
  | 0, afterDot, b :: s =>
    if b == 39 || b == 34 then
      let n := stringLength b s
      .verbatim (b :: s.take n) :: piecesFrom n false s
    else if isWordStart b then
      let word := b :: s.takeWhile isWordByte
      match calledName? (s.dropWhile isWordByte), afterDot with
      | some name, false =>
        .callee ⟨word, name, []⟩ :: piecesFrom (word.length + name.length) false s
      | _, _ =>
        match wordOperators.lookup word, afterDot with
        | some symbol, false => .operator symbol :: piecesFrom (word.length - 1) false s
        | _, _ => .verbatim word :: piecesFrom (word.length - 1) false s
    else .verbatim [b] :: piecesFrom 0 (b == 46) s

/-- The pieces of a body. -/
def pieces (body : Bytes) : List Piece := piecesFrom 0 false body

/-- A piece as the grammar reads it. -/
def Piece.render : Piece → Bytes
  | .verbatim text => text
  | .operator symbol => " " ++ symbol ++ " "
  | .callee f => f.mangled

/-- The body as the grammar reads it. -/
def render (body : Bytes) : Bytes := (pieces body).flatMap Piece.render

/-- The library functions a body refers to, in order. -/
def references (body : Bytes) : List FunctionRef :=
  (pieces body).filterMap fun
    | .callee f => some f
    | _ => none

/-- The function that an identifier of the rendered body stands for. -/
def resolve? (body id : Bytes) : Option FunctionRef :=
  (references body).reverse.find? fun f => f.mangled == id

end ServerPages.Expression
