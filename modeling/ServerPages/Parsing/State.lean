import ServerPages.Diagnostics.Fault
import ServerPages.Markup.Token
import ServerPages.Parsing.PageSyntax
import ServerPages.Source.Cursor
import ServerPages.Tree.Node

/-!
# The state of a parse

Parsing a unit reads a stack of sources and asks its surroundings, the host, for tag libraries,
included files and the tags that tag files implement. What the host remembers from one question to
the next is kept also when parsing fails.

`Parse` is the monad of the parsers: it carries the state below and stops at the first failure.
-/

namespace ServerPages

/-- The surroundings of a parse, which remember a `σ` between questions. A question that cannot be
asked at all has no answer function. -/
structure Host (σ : Type) where
  /-- The tag library of a uri. -/
  library : Option (Bytes → σ → Except Fault TagLibrary × σ) := none
  /-- The text of an included file. -/
  load : Option (Bytes → σ → Except Fault Bytes × σ) := none
  /-- The tag that a tag file implements. -/
  tagFile : Option (Bytes → σ → Except Failure TagDescriptor × σ) := none
  /-- How many files there are to include, which bounds how deep inclusions nest. -/
  fileCount : Nat := 0

namespace Parsing

/-- How a unit is parsed. -/
structure Env (σ : Type) where
  /-- The surroundings. -/
  host : Host σ
  /-- Whether everything but directives is passed over. -/
  directivesOnly : Bool := false

/-- A tag library bound to a prefix by a directive. -/
structure Binding where
  /-- The uri it was asked for with. -/
  uri : Bytes
  /-- The library. -/
  library : TagLibrary

/-- The state of a parse. -/
structure State (σ : Type) where
  /-- The place in the sources. -/
  cursor : Cursor
  /-- The files being read, innermost first. -/
  files : List Bytes
  /-- The libraries bound by directives, the latest first. -/
  bindings : List (Bytes × Binding) := []
  /-- Whether the expression language is off. -/
  elIgnored : Bool := false
  /-- The document being read, if the current source is one. -/
  document : Markup.Reader := { rest := [] }
  /-- How much of the document the cursor has passed. -/
  passed : Nat := 0
  /-- What the host remembers. -/
  memory : σ

end Parsing

/-- A parser. -/
abbrev Parse (σ : Type) := EStateM Failure (Parsing.State σ)

namespace Parsing

variable {σ : Type}

/-- Stops with a problem at a position. -/
def refuse {α : Type} (issue : Issue) (p : Position) (message : Bytes) : Parse σ α :=
  throw (.at issue p message)

/-- The cursor. -/
def cursor : Parse σ Cursor := do return (← get).cursor

/-- Moves the cursor. -/
def moveTo (c : Cursor) : Parse σ Unit := modify fun s => { s with cursor := c }

/-- The current position. -/
def position : Parse σ Position := do return (← cursor).position

/-- Whether the unread text starts with a literal, which is then passed. -/
def accepts (lit : Bytes) : Parse σ Bool := do
  match (← cursor).accept? lit with
  | some c => moveTo c; return true
  | none => return false

/-- Whether the end tag of an element stands at the cursor, which then passes it. -/
def acceptsEndTag (name : Bytes) : Parse σ Bool := do
  match (← cursor).acceptEndTag? name with
  | some c => moveTo c; return true
  | none => return false

/-- Passes blanks. -/
def skipBlanks : Parse σ Unit := do moveTo (← cursor).skipBlanks

/-- Reads a name. -/
def readName : Parse σ Bytes := do
  let (name, c) := (← cursor).name
  moveTo c
  return name

/-- Asks the host a question. -/
def ask {ε α : Type} (question : σ → Except ε α × σ) : Parse σ (Except ε α) :=
  modifyGet fun s =>
    let (answer, memory) := question s.memory
    (answer, { s with memory := memory })

/-- The uri that a directive bound a prefix to, empty if none did. -/
def State.uriOf (s : State σ) (prefixName : Bytes) : Bytes :=
  ((s.bindings.lookup prefixName).map (·.uri)).getD []

end Parsing

end ServerPages
