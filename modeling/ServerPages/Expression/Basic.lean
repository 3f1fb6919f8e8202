import ServerPages.Expression.Dialect
import ServerPages.Expression.Grammar
import ServerPages.Expression.Segment

/-!
# Checked expressions

A text whose expressions all follow the grammar, with the library functions they call.
-/

namespace ServerPages

namespace Expression

/-- The library functions an expression body calls, one entry per call. -/
def check (body : Bytes) : Except Reason (List FunctionRef) :=
  if body.trimSpace == [] then .error .empty
  else match calls? (render body) with
    | none => .error .malformed
    | some calls => .ok (calls.filterMap (resolve? body))

/-- The calls of the expression segments, or the first refusal. -/
def checkSegments (segs : List Segment) : Except Error (List FunctionRef) :=
  match segs with
  | [] => .ok []
  | seg :: segs =>
    if seg.isExpression then
      match check seg.body with
      | .error r => .error ⟨seg.offset, r⟩
      | .ok refs => (checkSegments segs).map (refs ++ ·)
    else checkSegments segs

end Expression

/-- A text of literal and expression segments that was checked. -/
structure Expression where
  /-- The text as written. -/
  source : Bytes
  /-- Its segments. -/
  parts : List Expression.Segment
  /-- The library functions it calls, each once, in the order of the first calls. -/
  functions : List Expression.FunctionRef
  deriving DecidableEq, Repr

namespace Expression

/-- Whether some part is evaluated later. -/
def isDeferred (e : Expression) : Bool := e.parts.any (·.kind == .deferred)

/-- Whether there is no expression part. -/
def isLiteral (e : Expression) : Bool := e.parts.all (!·.isExpression)

/-- The list with every element kept at its first place only. -/
def firsts (refs : List FunctionRef) : List FunctionRef :=
  refs.foldl (fun kept f => if kept.contains f then kept else kept ++ [f]) []

/-- The checked form of a text. -/
def ofText (source : Bytes) : Except Error Expression := do
  let parts ← scan source
  let refs ← checkSegments parts
  return ⟨source, parts, firsts refs⟩

/-- The expression with the uri of every function's prefix filled in. -/
def bind (e : Expression) (uriOf : Bytes → Bytes) : Expression :=
  { e with functions := e.functions.map fun f => { f with uri := uriOf f.library } }

end Expression

end ServerPages
