import ServerPages.Generation.Literal
import ServerPages.Generation.State

/-!
# Attribute values as code

The value of an attribute becomes an expression, before which the statements that compute it are
written. A fragment is generated as a case of the unit's fragment type and passed by its number.
-/

namespace ServerPages.Generation

/-- Generates the code of nested nodes. -/
abbrev Body := List Node → Gen Unit

/-- Generates a body that is evaluated on demand, and gives its number. -/
def fragment (inner : Body) (nodes : List Node) : Gen Nat := do
  let id := (← get).fragmentCount
  modify fun s => { s with fragmentCount := id + 1 }
  let opened := ((({} : Writer).indented).println ("case " ++ Bytes.ofNat id ++ ":")).indented
  let w ← asFragment opened do
    inner nodes
    emit "return nil"
    outdent
    outdent
  modify fun s =>
    let (fragments, spans) := s.fragments.splice w s.spans
    { s with fragments := fragments, spans := spans }
  return id

/-- The nodes that a fragment attribute evaluates; `named` is the named attribute that gives it. -/
def fragmentNodes (a : Attribute) (named : Option Node) : List Node :=
  match a.kind, named with
  | .named, some n => n.children
  | .el, _ =>
    [.leaf { kind := .elExpression, start := a.position, text := a.value, el := a.el }]
  | .script, _ => [.leaf { kind := .expression, start := a.position, text := a.value }]
  | _, _ => [.leaf { kind := .text, start := a.position, text := a.value }]

/-- The expression of a fragment passed to a handler. -/
def fragmentCode (handler : Bytes) (id : Nat) : Bytes :=
  "rt.NewFragment(pc, " ++ handler ++ ", frags, " ++ Bytes.ofNat id ++ ")"

/-- Writes the evaluation of a named attribute and its conversion to a type. -/
def capture (inner : Body) (n : Node) (type : Bytes) : Gen Bytes := do
  let v ← temporary
  openBlock (v ++ ", err := rt.Capture(pc, " ++ Bytes.ofBool n.head.trim ++ ", func() error \x7b")
  inBlock (inner n.children)
  emit "return nil"
  closeBlock "\x7d)"
  checkErr
  if isTextType type then return v
  let c ← temporary
  emit (c ++ ", err := rt.Convert[" ++ type ++ "](" ++ v ++ ")")
  checkErr
  return c

/-- Writes what is needed to compute the value of an attribute of a type, and gives the expression
that holds it. Fragments are passed to `handler`, and `named` is the named attribute that gives the
value. -/
def valueCode (inner : Body) (handler : Bytes) (a : Attribute) (named : Option Node)
    (type : Bytes) : Gen Bytes := do
  if a.fragment then return fragmentCode handler (← fragment inner (fragmentNodes a named))
  match a.kind, named with
  | .literal, _ =>
    match literal type a.value a.position with
    | .ok code => return code
    | .error e => throw e
  | .script, _ => return a.value.trimSpace
  | .el, _ =>
    let v ← temporary
    emit (v ++ ", err := rt.Eval[" ++ type ++ "](pc, " ++ (← expressionName a.value) ++ ")")
    checkErr
    return v
  | .named, some n => capture inner n type
  | .named, none => throw .crash
  | .unrecognized _, _ =>
    throw (.broken ("gen: unexpected attribute kind " ++ a.kind.name))

end ServerPages.Generation
