import ServerPages.Diagnostics.Fault
import ServerPages.Generation.Imports
import ServerPages.Generation.Text
import ServerPages.Generation.Writer

/-!
# The state of code generation

Code is written to a current writer, beside which declarations, methods of tags and fragment bodies
are collected. The generator knows the variables declared in the blocks around the current place,
the handlers of the tags that are open in the current function, and what the unit shares: text
constants, parsed expressions and handler pools.

A failure leaves the state as it was when the failure arose.
-/

namespace ServerPages.Generation

/-- How code is generated. -/
structure Options where
  /-- The package of the generated file. -/
  package : Bytes := []
  /-- The path of the runtime package. -/
  runtimeImport : Bytes := []
  /-- The name of the generated type. -/
  typeName : Bytes := []
  /-- Whether handlers are pooled. -/
  poolTagHandlers : Bool := false
  /-- The size of the chunks of literal text; none is asked for if it is not positive. -/
  textChunkSize : Int := 0
  /-- Whether literal text is put into constants. -/
  poolLiteralText : Bool := false
  /-- The order in which the functions that expressions call get their names. -/
  order : MapOrder (Expression.FunctionRef × LibraryFunction) := .asMade

/-- The path of the runtime package if none is asked for. -/
def defaultRuntimeImport : Bytes := "github.com/Drolfothesgnir/pagert"

/-- The unit that code is generated for. -/
structure Env where
  /-- How code is generated. -/
  options : Options
  /-- The path of the source. -/
  file : Bytes
  /-- What its directives say. -/
  page : PageInfo

namespace Env

/-- The package of the generated file. -/
def package (env : Env) : Bytes :=
  if env.options.package == [] then "pages" else env.options.package

/-- The path of the runtime package. -/
def runtimeImport (env : Env) : Bytes :=
  if env.options.runtimeImport == [] then defaultRuntimeImport else env.options.runtimeImport

/-- The name of the generated type. -/
def typeName (env : Env) : Bytes :=
  if env.options.typeName == [] then Generation.typeName env.file else env.options.typeName

/-- The size of the chunks of literal text. -/
def chunkSize (env : Env) : Nat :=
  if env.options.textChunkSize ≤ 0 then defaultChunkSize else env.options.textChunkSize.toNat

/-- The receiver of the methods of the generated type. -/
def receiver (env : Env) : Bytes := if env.page.tag.isSome then "t" else "p"

/-- The name of the type that evaluates fragments. -/
def fragmentType (env : Env) : Bytes := lowerFirst env.typeName ++ "Fragments"

end Env

/-- The variables declared in the blocks around a place, innermost block first. -/
abbrev Blocks := List (List Bytes)

namespace Blocks

/-- Whether a variable is declared in some block. -/
def isVisible (b : Blocks) (name : Bytes) : Bool := b.any (·.contains name)

/-- Whether a variable is declared in the innermost block. -/
def isLocal (b : Blocks) (name : Bytes) : Bool := (b.headD []).contains name

/-- The blocks with a variable declared in the innermost one. -/
def declare (b : Blocks) (name : Bytes) : Blocks :=
  match b with
  | [] => [[name]]
  | block :: outer => (name :: block) :: outer

end Blocks

/-- Where in the unit code is being generated. -/
structure Place where
  /-- The code of the current function. -/
  out : Writer := {}
  /-- The variables declared around the place. -/
  blocks : Blocks := [[]]
  /-- The handlers of the tags open in the current function, innermost first. -/
  handlers : List Bytes := []
  /-- The handler around the current function. -/
  parent : Bytes

/-- The state of code generation. -/
structure State where
  /-- Where code is being generated. -/
  place : Place
  /-- Declarations of the page. -/
  declarations : Writer := {}
  /-- Methods of tags that have one of their own. -/
  methods : Writer := {}
  /-- The cases of the fragment bodies. -/
  fragments : Writer := {}
  /-- The lines of nodes. -/
  spans : Spans := []
  /-- The identifiers of invocations by the number of their node. -/
  names : List (Nat × HandlerNames) := []
  /-- The imports. -/
  imports : Imports := {}
  /-- The texts that constants hold, in order. -/
  texts : List Bytes := []
  /-- The expressions that variables hold, in order. -/
  expressions : List Bytes := []
  /-- The handler pools. -/
  pools : List Bytes := []
  /-- The number given last to an identifier. -/
  sequence : Nat := 0
  /-- The number of fragment bodies. -/
  fragmentCount : Nat := 0
  /-- The number of tags with a method of their own. -/
  hoistedCount : Nat := 0

end ServerPages.Generation

namespace ServerPages

/-- A step of code generation. -/
abbrev Gen := EStateM Failure Generation.State

namespace Generation

/-! ### Lines -/

/-- Changes the current writer. -/
def modifyOut (f : Writer → Writer) : Gen Unit :=
  modify fun s => { s with place := { s.place with out := f s.place.out } }

/-- Writes a line. -/
def emit (s : Bytes) : Gen Unit := modifyOut (·.println s)

/-- Writes lines. -/
def emitAll (ls : List Bytes) : Gen Unit := ls.forM emit

/-- Indents the following lines further. -/
def indent : Gen Unit := modifyOut (·.indented)

/-- Indents the following lines less far. -/
def outdent : Gen Unit := do
  match (← get).place.out.outdented? with
  | some w => modifyOut fun _ => w
  | none => throw .crash

/-- Writes a line that opens a block. -/
def openBlock (s : Bytes) : Gen Unit := modifyOut (·.openBlock s)

/-- Writes a line that closes a block. -/
def closeBlock (s : Bytes) : Gen Unit := do
  outdent
  emit s

/-- Writes a block that returns the error of its condition. -/
def returning (condition : Bytes) : Gen Unit := do
  openBlock condition
  emit "return err"
  closeBlock "\x7d"

/-- Writes a call and the check of the error it returns. -/
def check (call : Bytes) : Gen Unit := returning ("if err := " ++ call ++ "; err != nil \x7b")

/-- Writes the check of an error that was assigned. -/
def checkErr : Gen Unit := returning "if err != nil \x7b"

/-- Takes over the code of a writer. -/
def spliceIn (o : Writer) : Gen Unit :=
  modify fun s =>
    let (w, spans) := s.place.out.splice o s.spans
    { s with place := { s.place with out := w }, spans := spans }

/-- Writes the code of a node, whose lines are noted. -/
def marking (node : Nat) (code : Gen Unit) : Gen Unit := do
  modify fun s =>
    let (w, spans) := s.place.out.begin node s.spans
    { s with place := { s.place with out := w }, spans := spans }
  code
  modify fun s => { s with spans := s.place.out.finish node s.spans }

/-! ### Blocks and functions -/

/-- Declares a variable in the innermost block. -/
def declare (name : Bytes) : Gen Unit :=
  modify fun s => { s with place := { s.place with blocks := s.place.blocks.declare name } }

/-- Generates code inside a block of its own. -/
def inBlock (code : Gen Unit) : Gen Unit := do
  modify fun s => { s with place := { s.place with blocks := [] :: s.place.blocks } }
  code
  modify fun s => { s with place := { s.place with blocks := s.place.blocks.drop 1 } }

/-- The handler of the innermost tag around the place. -/
def parentHandler : Gen Bytes := do
  let p := (← get).place
  return p.handlers.headD p.parent

/-- The outcome of a step after which the innermost open tag is closed, also when the step fails. If
no tag is open any more, it cannot be closed. -/
def closeTag {α : Type} : EStateM.Result Failure State α → EStateM.Result Failure State α
  | .ok a s => .ok a { s with place := { s.place with handlers := s.place.handlers.drop 1 } }
  | .error e s =>
    match s.place.handlers with
    | [] => .error .crash s
    | _ :: hs => .error e { s with place := { s.place with handlers := hs } }

/-- Generates the code inside a tag with a handler. -/
def insideTag (handler : Bytes) (code : Gen Unit) : Gen Unit := fun s =>
  closeTag (code { s with place := { s.place with handlers := handler :: s.place.handlers } })

/-- Generates a function of its own, inside which the handler around is called `parent`, and gives
its code. The place is restored afterwards; when the function fails it stays where it failed. -/
def asMethod (out : Writer) (code : Gen Unit) : Gen Writer := do
  let saved := (← get).place
  modify fun s => { s with place := { out := out, parent := "parent" } }
  code
  let w := (← get).place.out
  modify fun s => { s with place := saved }
  return w

/-- The outcome of a step after which the place is restored, unless an invariant broke. -/
def restorePlace (saved : Place) :
    EStateM.Result Failure State Writer → EStateM.Result Failure State Writer
  | .ok w s => .ok w { s with place := saved }
  | .error (.fault f) s => .error (.fault f) { s with place := saved }
  | .error e s => .error e s

/-- Generates a fragment body, inside which the handler around is called `parent`, and gives its
code. The place is restored afterwards, also when a problem of the page stops the body. -/
def asFragment (out : Writer) (code : Gen Unit) : Gen Writer := fun s =>
  let body : Gen Writer := do
    code
    return (← get).place.out
  restorePlace s.place (body { s with place := { out := out, parent := "parent" } })

/-! ### Shared parts -/

/-- The next number for an identifier. -/
def nextNumber : Gen Nat :=
  modifyGet fun s => (s.sequence + 1, { s with sequence := s.sequence + 1 })

/-- A fresh variable. -/
def temporary : Gen Bytes := do return "_v" ++ Bytes.ofNat (← nextNumber)

/-- The variable that holds an expression. -/
def expressionName (source : Bytes) : Gen Bytes :=
  modifyGet fun s =>
    match s.expressions.findIdx? (· == source) with
    | some i => ("_el" ++ Bytes.ofNat i, s)
    | none =>
      ("_el" ++ Bytes.ofNat s.expressions.length,
        { s with expressions := s.expressions ++ [source] })

/-- The name of the constant with a number. -/
def textName (i : Nat) : Bytes := "_text" ++ Bytes.ofNat i

/-- The constant that holds a text. -/
def textConstant (text : Bytes) : Gen Bytes :=
  modifyGet fun s =>
    match s.texts.findIdx? (· == text) with
    | some i => (textName i, s)
    | none => (textName s.texts.length, { s with texts := s.texts ++ [text] })

/-- The name to use for a package. -/
def packageName (path : Bytes) : Gen Bytes :=
  modifyGet fun s =>
    let (name, imports) := s.imports.use path
    (name, { s with imports := imports })

/-- A name of a package as it is used in the generated file; names without a package are of the
file's own. -/
def qualified (package name : Bytes) : Gen Bytes := do
  if package == [] then return name else return (← packageName package) ++ "." ++ name

end Generation

end ServerPages
