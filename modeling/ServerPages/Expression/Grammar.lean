import ServerPages.Expression.Token

/-!
# The grammar of expression bodies

A body is accepted when its tokens form one expression: operators by precedence, conditionals,
variable declarations, member access, indexing and slices, calls, array and map literals, and the
closures of the functions that take a predicate. Of an accepted body only the names of the
functions it calls matter, so an expression is represented by them: the callees in the order in
which evaluation reaches the calls, arguments before the call they belong to. Where the grammar
evaluates an operand twice, as the middle of `a < b < c`, its calls are listed twice.

Every parsing function consumes tokens or hands over to one further down, so a budget of a few
steps per token is never used up.
-/

namespace ServerPages.Expression

/-- The callees of an expression. -/
abbrev Calls := List Bytes

/-- The result of reading an expression at the start of a token list: its calls and the rest. -/
abbrev Reading := Option (Calls × List Token)

/-- Which way operators of equal precedence group. -/
inductive Associativity where
  | left
  | right
  deriving DecidableEq, Repr

/-- The binary operators with precedence and associativity. -/
def binaryOperators : List (Bytes × Nat × Associativity) :=
  [("|", 0, .left), ("or", 10, .left), ("||", 10, .left), ("and", 15, .left), ("&&", 15, .left),
    ("==", 20, .left), ("!=", 20, .left), ("<", 20, .left), (">", 20, .left), (">=", 20, .left),
    ("<=", 20, .left), ("in", 20, .left), ("matches", 20, .left), ("contains", 20, .left),
    ("startsWith", 20, .left), ("endsWith", 20, .left), ("..", 25, .left), ("+", 30, .left),
    ("-", 30, .left), ("*", 60, .left), ("/", 60, .left), ("%", 60, .left), ("**", 100, .right),
    ("^", 100, .right), ("??", 500, .left)]

/-- The unary operators with precedence. -/
def unaryOperators : List (Bytes × Nat) := [("not", 50), ("!", 50), ("-", 90), ("+", 90)]

/-- The operators that may follow `not`. -/
def negatable : List Bytes := ["in", "matches", "contains", "startsWith", "endsWith"]

/-- The comparisons that may be chained. -/
def comparisons : List Bytes := ["<", ">", ">=", "<="]

/-- An argument of a function that takes a predicate. -/
inductive ArgumentKind where
  /-- An expression. -/
  | value
  /-- A closure. -/
  | closure
  deriving DecidableEq, Repr

/-- The functions that take a predicate, with their arguments; `true` marks an optional one. -/
def predicateFunctions : List (Bytes × List (ArgumentKind × Bool)) :=
  let plain : List (ArgumentKind × Bool) := [(.value, false), (.closure, false)]
  let optional : List (ArgumentKind × Bool) := [(.value, false), (.closure, true)]
  let extended : List (ArgumentKind × Bool) := [(.value, false), (.closure, false), (.value, true)]
  [("all", plain), ("none", plain), ("any", plain), ("one", plain), ("filter", plain),
    ("map", plain), ("count", optional), ("sum", optional), ("find", plain),
    ("findIndex", plain), ("findLast", plain), ("findLastIndex", plain), ("groupBy", plain),
    ("sortBy", extended), ("reduce", extended)]

/-- The rest after a given token. -/
def expect (t : Token) : List Token → Option (List Token)
  | u :: ts => if u == t then some ts else none
  | [] => none

/-- The operator with a symbol. -/
def op (symbol : Bytes) : Token := .operator symbol

/-- The bracket `(`. -/
def openParen : Token := .bracket 40

/-- The bracket `)`. -/
def closeParen : Token := .bracket 41

/-- The bracket `[`. -/
def openSquare : Token := .bracket 91

/-- The bracket `]`. -/
def closeSquare : Token := .bracket 93

/-- The bracket `{`. -/
def openCurly : Token := .bracket 123

/-- The bracket `}`. -/
def closeCurly : Token := .bracket 125

/-- The value of a numeral after a base mark, below `2 ^ 63`. -/
def markedInteger? (base : Nat) (digits : Bytes) : Option Nat :=
  if digits.isEmpty || !digits.all (fun b => (Bytes.hexValue? b).any (· < base)) then none
  else
    let v := digits.foldl (fun n b => n * base + (Bytes.hexValue? b).getD 0) 0
    if v < Nat.pow 2 63 then some v else none

/-- Whether the text of a number, its underscores dropped, names a number that can be held. -/
def isNumber (text : Bytes) : Bool :=
  let t := text.filter (· != 95)
  let mark := t.take 2 |>.map Bytes.lowerByte
  if mark == "0x" then (markedInteger? 16 (t.drop 2)).isSome
  else if t.any fun b => b == 46 || b == 101 || b == 69 then
    match Floating.read .double t with
    | .ok _ => true
    | .error _ => false
  else if mark == "0b" then (markedInteger? 2 (t.drop 2)).isSome
  else if mark == "0o" then (markedInteger? 8 (t.drop 2)).isSome
  else (markedInteger? 10 t).isSome

mutual

/-- An expression whose binary operators have at least the given precedence. `inside` tells
whether a closure surrounds it. -/
def expression (inside : Bool) : Nat → Nat → List Token → Reading
  | 0, _, _ => none
  | fuel + 1, precedence, ts =>
    if precedence == 0 && ts.head? == some (op "let") then declaration inside fuel (ts.drop 1)
    else do
      let (left, ts) ← primary inside fuel ts
      let (calls, ts) ← operations inside fuel precedence [] left ts
      if precedence == 0 then conditional inside fuel calls ts else return (calls, ts)
  termination_by structural fuel => fuel

/-- A variable declaration after its `let`. -/
def declaration (inside : Bool) : Nat → List Token → Reading
  | 0, _ => none
  | fuel + 1, ts =>
    match ts with
    | .identifier _ :: ts => do
      let ts ← expect (op "=") ts
      let (value, ts) ← expression inside fuel 0 ts
      let ts ← expect (op ";") ts
      let (body, ts) ← expression inside fuel 0 ts
      return (value ++ body, ts)
    | _ => none
  termination_by structural fuel => fuel

/-- The binary operators after the operand `left`; `previous` is the operator before. -/
def operations (inside : Bool) : Nat → Nat → Bytes → Calls → List Token → Reading
  | 0, _, _, _, _ => none
  | fuel + 1, precedence, previous, left, ts =>
    match ts with
    | .operator symbol :: rest =>
      if symbol == "not" then
        match rest with
        | .operator symbol :: rest =>
          if !negatable.contains symbol then none
          else if precedence ≤ 20 then
            operation inside fuel precedence previous left symbol 20 .left rest
          else some (left, ts)
        | _ => none
      else
        match binaryOperators.lookup symbol with
        | some (level, assoc) =>
          if precedence ≤ level then
            operation inside fuel precedence previous left symbol level assoc rest
          else some (left, ts)
        | none => some (left, ts)
    | _ => some (left, ts)
  termination_by structural fuel => fuel

/-- One binary operation, its operator being consumed, and the ones after it. -/
def operation (inside : Bool) :
    Nat → Nat → Bytes → Calls → Bytes → Nat → Associativity → List Token → Reading
  | 0, _, _, _, _, _, _, _ => none
  | fuel + 1, precedence, previous, left, symbol, level, assoc, ts => do
    let (calls, ts) ←
      if symbol == "|" then
        match ts with
        | .identifier name :: ts => call inside fuel name left true ts
        | _ => none
      else if previous == "??" && symbol != "??" then none
      else if comparisons.contains symbol then comparison inside fuel level [] left ts
      else do
        let next := match assoc with
          | .left => level + 1
          | .right => level
        let (right, ts) ← expression inside fuel next ts
        some (left ++ right, ts)
    operations inside fuel precedence symbol calls ts
  termination_by structural fuel => fuel

/-- The operands of a chain of comparisons after its first operator: `before` are the calls of the
comparisons already complete and `left` those of the operand before the operator. -/
def comparison (inside : Bool) : Nat → Nat → Calls → Calls → List Token → Reading
  | 0, _, _, _, _ => none
  | fuel + 1, level, before, left, ts => do
    let (right, ts) ← expression inside fuel (level + 1) ts
    let calls := before ++ left ++ right
    match ts with
    | .operator symbol :: rest =>
      if comparisons.contains symbol then comparison inside fuel level calls right rest
      else return (calls, ts)
    | _ => return (calls, ts)
  termination_by structural fuel => fuel

/-- The conditionals after a condition. -/
def conditional (inside : Bool) : Nat → Calls → List Token → Reading
  | 0, _, _ => none
  | fuel + 1, condition, ts =>
    match ts with
    | .operator symbol :: rest =>
      if symbol != "?" then some (condition, ts)
      else if rest.head? == some (op ":") then do
        let (other, ts) ← expression inside fuel 0 (rest.drop 1)
        conditional inside fuel (condition ++ condition ++ other) ts
      else do
        let (value, ts) ← expression inside fuel 0 rest
        let ts ← expect (op ":") ts
        let (other, ts) ← expression inside fuel 0 ts
        conditional inside fuel (condition ++ value ++ other) ts
    | _ => some (condition, ts)
  termination_by structural fuel => fuel

/-- An operand: a unary operation, a parenthesised expression, the element a closure is applied
to, a call of a global function, or a simple operand. -/
def primary (inside : Bool) : Nat → List Token → Reading
  | 0, _ => none
  | fuel + 1, ts =>
    match ts with
    | .operator symbol :: rest =>
      match unaryOperators.lookup symbol with
      | some level => do
        let (calls, ts) ← expression inside fuel level rest
        access inside fuel calls ts
      | none =>
        if symbol == "#" then
          if !inside then none
          else match rest with
            | .identifier _ :: rest => access inside fuel [] rest
            | _ => access inside fuel [] rest
        else if symbol == "." then
          if inside then access inside fuel [] ts else none
        else if symbol == "::" then
          match rest with
          | .identifier name :: rest => do
            let (calls, ts) ← call inside fuel name [] false rest
            access inside fuel calls ts
          | _ => none
        else none
    | .bracket 40 :: rest => do
      let (calls, ts) ← expression inside fuel 0 rest
      let ts ← expect closeParen ts
      access inside fuel calls ts
    | _ => simple inside fuel ts
  termination_by structural fuel => fuel

/-- A name, a call, a number, a string, an array or a map. -/
def simple (inside : Bool) : Nat → List Token → Reading
  | 0, _ => none
  | fuel + 1, ts =>
    match ts with
    | .identifier name :: rest =>
      if name == "true" || name == "false" || name == "nil" then some ([], rest)
      else if rest.head? == some openParen then do
        let (calls, ts) ← call inside fuel name [] false rest
        access inside fuel calls ts
      else access inside fuel [] rest
    | .number text :: rest => if isNumber text then some ([], rest) else none
    | .string :: rest => access inside fuel [] rest
    | .bracket 91 :: rest => do
      let (calls, ts) ← elements inside fuel true [] rest
      access inside fuel calls ts
    | .bracket 123 :: rest => do
      let (calls, ts) ← pairs inside fuel true [] rest
      access inside fuel calls ts
    | _ => none
  termination_by structural fuel => fuel

/-- The elements of an array after its `[` or after an element; `first` tells which. -/
def elements (inside : Bool) : Nat → Bool → Calls → List Token → Reading
  | 0, _, _, _ => none
  | fuel + 1, first, calls, ts =>
    if ts.head? == some closeSquare then some (calls, ts.drop 1)
    else do
      let ts ← if first then some ts else expect (op ",") ts
      if !first && ts.head? == some closeSquare then return (calls, ts.drop 1)
      let (element, ts) ← expression inside fuel 0 ts
      elements inside fuel false (calls ++ element) ts
  termination_by structural fuel => fuel

/-- The pairs of a map after its `{` or after a pair; `first` tells which. -/
def pairs (inside : Bool) : Nat → Bool → Calls → List Token → Reading
  | 0, _, _, _ => none
  | fuel + 1, first, calls, ts =>
    if ts.head? == some closeCurly then some (calls, ts.drop 1)
    else do
      let ts ← if first then some ts else expect (op ",") ts
      if !first && ts.head? == some closeCurly then return (calls, ts.drop 1)
      let (key, ts) ← match ts with
        | .number _ :: rest => some ([], rest)
        | .string :: rest => some ([], rest)
        | .identifier _ :: rest => some ([], rest)
        | .bracket 40 :: _ => expression inside fuel 0 ts
        | _ => none
      let ts ← expect (op ":") ts
      let (value, ts) ← expression inside fuel 0 ts
      pairs inside fuel false (calls ++ key ++ value) ts
  termination_by structural fuel => fuel

/-- The member accesses, indexings and slices after an operand. -/
def access (inside : Bool) : Nat → Calls → List Token → Reading
  | 0, _, _ => none
  | fuel + 1, calls, ts =>
    match ts with
    | .operator symbol :: rest =>
      if symbol == "?." && rest.head? == some openSquare then do
        let (calls, ts) ← index inside fuel calls (rest.drop 1)
        access inside fuel calls ts
      else if symbol == "." || symbol == "?." then
        match rest with
        | .identifier _ :: rest => member inside fuel calls rest
        | .operator name :: rest =>
          if operatorNames.contains name then member inside fuel calls rest else none
        | _ => none
      else some (calls, ts)
    | .bracket 91 :: rest => do
      let (calls, ts) ← index inside fuel calls rest
      access inside fuel calls ts
    | _ => some (calls, ts)
  termination_by structural fuel => fuel

/-- What follows the name of a member: the arguments of a method, or nothing. -/
def member (inside : Bool) : Nat → Calls → List Token → Reading
  | 0, _, _ => none
  | fuel + 1, calls, ts =>
    if ts.head? == some openParen then do
      let (calls, ts) ← arguments inside fuel true calls (ts.drop 1)
      access inside fuel calls ts
    else access inside fuel calls ts
  termination_by structural fuel => fuel

/-- An index or a slice after its `[`. -/
def index (inside : Bool) : Nat → Calls → List Token → Reading
  | 0, _, _ => none
  | fuel + 1, calls, ts =>
    if ts.head? == some (op ":") then
      upperBound inside fuel calls (ts.drop 1)
    else do
      let (lower, ts) ← expression inside fuel 0 ts
      if ts.head? == some (op ":") then upperBound inside fuel (calls ++ lower) (ts.drop 1)
      else return (calls ++ lower, ← expect closeSquare ts)
  termination_by structural fuel => fuel

/-- The upper bound of a slice, which may be missing, and its `]`. -/
def upperBound (inside : Bool) : Nat → Calls → List Token → Reading
  | 0, _, _ => none
  | fuel + 1, calls, ts =>
    if ts.head? == some closeSquare then some (calls, ts.drop 1)
    else do
      let (upper, ts) ← expression inside fuel 0 ts
      return (calls ++ upper, ← expect closeSquare ts)
  termination_by structural fuel => fuel

/-- A call of a named function. `piped` tells whether a first argument, whose calls are `calls`,
was given before the name. -/
def call (inside : Bool) : Nat → Bytes → Calls → Bool → List Token → Reading
  | 0, _, _, _, _ => none
  | fuel + 1, name, calls, piped, ts => do
    let ts ← expect openParen ts
    match predicateFunctions.lookup name with
    | some kinds =>
      predicateArguments inside fuel (kinds.drop (if piped then 1 else 0)) true calls ts
    | none =>
      let (calls, ts) ← arguments inside fuel true calls ts
      return (calls ++ [name], ts)
  termination_by structural fuel => fuel

/-- The arguments of a function that takes a predicate, of the given kinds, and the `)`. -/
def predicateArguments (inside : Bool) :
    Nat → List (ArgumentKind × Bool) → Bool → Calls → List Token → Reading
  | 0, _, _, _, _ => none
  | fuel + 1, kinds, first, calls, ts =>
    match kinds with
    | [] => (expect closeParen ts).map (calls, ·)
    | (kind, optional) :: kinds =>
      if ts.head? == some closeParen then
        if optional then some (calls, ts.drop 1) else none
      else do
        let ts ← if first then some ts else expect (op ",") ts
        let (argument, ts) ← match kind with
          | .value => expression inside fuel 0 ts
          | .closure => closure fuel ts
        predicateArguments inside fuel kinds false (calls ++ argument) ts
  termination_by structural fuel => fuel

/-- A closure: an expression, perhaps in braces. -/
def closure : Nat → List Token → Reading
  | 0, _ => none
  | fuel + 1, ts =>
    if ts.head? == some openCurly then do
      let (calls, ts) ← expression true fuel 0 (ts.drop 1)
      return (calls, ← expect closeCurly ts)
    else expression true fuel 0 ts
  termination_by structural fuel => fuel

/-- The arguments of a call after its `(` or after an argument; `first` tells which. -/
def arguments (inside : Bool) : Nat → Bool → Calls → List Token → Reading
  | 0, _, _, _ => none
  | fuel + 1, first, calls, ts =>
    if ts.head? == some closeParen then some (calls, ts.drop 1)
    else do
      let ts ← if first then some ts else expect (op ",") ts
      let (argument, ts) ← expression inside fuel 0 ts
      arguments inside fuel false (calls ++ argument) ts
  termination_by structural fuel => fuel

end

/-- The calls of a text that is an expression. -/
def calls? (s : Bytes) : Option Calls := do
  let ts ← tokens? s
  match ← expression false (10 * ts.length + 20) 0 ts with
  | (calls, []) => some calls
  | _ => none

end ServerPages.Expression
