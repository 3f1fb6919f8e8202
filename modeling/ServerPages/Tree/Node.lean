import ServerPages.Source.Position
import ServerPages.TagLibrary.Setter
import ServerPages.Tree.Kind
import ServerPages.Tree.PageInfo

/-!
# Page trees

A page is a rose tree of nodes. Parsing fixes its shape; checking a unit and generating code from
it fill in further fields of the heads and never add, remove or move a node.

`Node.content` is the body of a node proper, and `pushNode` adds a child to its siblings, merging
text that goes on where the text before it ended.
-/

namespace ServerPages

/-- What the value of an attribute is. -/
inductive AttributeKind where
  /-- A quoted value. -/
  | literal
  /-- A value with expressions of the expression language. -/
  | el
  /-- Code of the page. -/
  | script
  /-- The content of a named attribute among the children. -/
  | named
  /-- A number that names no kind. -/
  | unrecognized (code : Int)
  deriving DecidableEq, Repr

namespace AttributeKind

/-- The kind with a number. -/
def ofCode (code : Int) : AttributeKind :=
  if code == 0 then .literal else if code == 1 then .el else if code == 2 then .script
  else if code == 3 then .named else .unrecognized code

/-- The name in messages. -/
def name : AttributeKind → Bytes
  | .literal => "literal"
  | .el => "EL"
  | .script => "expression"
  | .named => "named"
  | .unrecognized _ => "unknown"

end AttributeKind

/-- An attribute of a directive, an action or a tag. -/
structure Attribute where
  /-- The name as written. -/
  name : Bytes
  /-- The name without its prefix. -/
  localName : Bytes
  /-- The uri of the prefix. -/
  uri : Bytes := []
  /-- What the value is. -/
  kind : AttributeKind := .literal
  /-- The literal, the text with expressions or the code. -/
  value : Bytes := []
  /-- Where the attribute stands. -/
  position : Position := {}
  /-- The checked form of a value with expressions. -/
  el : Option Expression := none
  /-- The number of the child that gives a named value. -/
  child : Option Nat := none
  /-- How the value is passed to the handler of a tag. -/
  setter : Setter := {}
  /-- Whether the value is passed as a body to evaluate. -/
  fragment : Bool := false
  deriving DecidableEq, Repr

/-- Whether the value is only known when the page runs. -/
def Attribute.isRuntime (a : Attribute) : Bool := a.kind != .literal

/-- The identifiers chosen for an invocation of a tag. -/
structure HandlerNames where
  /-- The handler. -/
  handler : Bytes := []
  /-- The pool the handler is taken from; empty if it is not pooled. -/
  pool : Bytes := []
  /-- The result of the start and end calls. -/
  eval : Bytes := []
  /-- The number of buffers pushed. -/
  push : Bytes := []
  deriving DecidableEq, Repr

/-- An invocation of a tag of a library. -/
structure CustomTag where
  /-- The prefix as written. -/
  prefixName : Bytes
  /-- The name of the tag in its library. -/
  localName : Bytes
  /-- The uri the prefix is bound to. -/
  uri : Bytes
  /-- The contract of the tag. -/
  descriptor : Option TagDescriptor := none
  /-- Whether the tag is written as one empty tag. -/
  selfClosed : Bool := false
  /-- The number of tags around it. -/
  nesting : Nat := 0
  /-- The scripting variables of the invocation. -/
  vars : List VariableBinding := []
  /-- The attributes as they are known before the page runs. -/
  data : TagData := {}
  /-- The identifiers chosen for it. -/
  names : HandlerNames := {}

/-- The unit that a tree is read from. -/
structure UnitInfo where
  /-- The path of the source. -/
  file : Bytes
  /-- Whether it is written as an XML document. -/
  isDocument : Bool
  /-- Whether it is a tag file. -/
  isTagFile : Bool
  /-- The encoding of the source. -/
  encoding : Bytes
  /-- What its directives say, once they were checked. -/
  page : Option PageInfo := none
  deriving DecidableEq, Repr

/-- What a subtree holds. -/
structure ChildInfo where
  /-- No code of the page. -/
  scriptless : Bool := false
  /-- A tag with scripting variables. -/
  hasVariables : Bool := false
  /-- A bean. -/
  hasBean : Bool := false
  /-- An include or forward action. -/
  hasInclude : Bool := false
  /-- A property that is set. -/
  hasSetProperty : Bool := false
  deriving DecidableEq, Repr

/-- The lines of generated code that belong to a node; zeros if there are none. -/
structure LineSpan where
  /-- The first line. -/
  first : Nat := 0
  /-- The last line. -/
  last : Nat := 0
  deriving DecidableEq, Repr

/-- A node apart from its children. -/
structure Head where
  /-- What the node stands for. -/
  kind : Kind
  /-- Where it starts. -/
  start : Position := {}
  /-- The name of the element or directive as written. -/
  name : Bytes := []
  /-- The attributes in the order of the source. -/
  attributes : List Attribute := []
  /-- The text, the code or the expression. -/
  text : Bytes := []
  /-- The checked form of an expression. -/
  el : Option Expression := none
  /-- The tag that is invoked. -/
  tag : Option CustomTag := none
  /-- The unit, at the root. -/
  unit : Option UnitInfo := none
  /-- The attribute that a named attribute gives. -/
  attributeName : Bytes := []
  /-- Whether the value of a named attribute is trimmed. -/
  trim : Bool := false
  /-- Whether the node stands in a body without code. -/
  inScriptless : Bool := false
  /-- What the subtree holds. -/
  info : ChildInfo := {}
  /-- The lines generated for the node. -/
  lines : LineSpan := {}
  /-- The number of the node in its tree. -/
  number : Nat := 0

namespace Head

/-- The attribute of a name. -/
def attr? (h : Head) (name : Bytes) : Option Attribute := h.attributes.find? (·.name == name)

/-- Whether there is an attribute of a name. -/
def hasAttr (h : Head) (name : Bytes) : Bool := (h.attr? name).isSome

/-- The value of the attribute of a name, empty if there is none. -/
def attrValue (h : Head) (name : Bytes) : Bytes := ((h.attr? name).map (·.value)).getD []

end Head

/-- A node of a page tree. -/
inductive Node where
  /-- A node and its children. -/
  | mk (head : Head) (children : List Node)

namespace Node

/-- The node apart from its children. -/
def head : Node → Head
  | mk h _ => h

/-- The children. -/
def children : Node → List Node
  | mk _ cs => cs

/-- What the node stands for. -/
def kind (n : Node) : Kind := n.head.kind

/-- The text of the node. -/
def text (n : Node) : Bytes := n.head.text

/-- Where the node starts. -/
def start (n : Node) : Position := n.head.start

/-- A node without children. -/
def leaf (h : Head) : Node := mk h []

instance : Inhabited Node := ⟨leaf { kind := .root }⟩

/-- The tree with what the directives say at its root. -/
def setPage (page : PageInfo) : Node → Node
  | mk h cs => mk { h with unit := h.unit.map ({ · with page := some page }) } cs

/-- What the directives of a validated unit say. -/
def page? (n : Node) : Option PageInfo := n.head.unit.bind (·.page)

/-- Whether the node is blank text. -/
def isBlankText (n : Node) : Bool := n.kind == .text && n.text.isBlank

/-- Whether the node is the named attribute of a name. -/
def givesAttribute (name : Bytes) (n : Node) : Bool :=
  n.kind == .namedAttribute && n.head.attributeName == name

/-! ### The body proper -/

/-- The named attributes among some nodes. -/
def namedAttributes (ns : List Node) : List Node := ns.filter (·.kind == .namedAttribute)

/-- The body element among some nodes. -/
def bodyElement? (ns : List Node) : Option Node := ns.find? (·.kind == .body)

/-- The body proper among the children of a node: what is in the body element if there is one, all
but the named attributes otherwise. -/
def contentOf (ns : List Node) : List Node :=
  match bodyElement? ns with
  | some b => b.children
  | none => ns.filter (·.kind != .namedAttribute)

/-- The body proper of a node. -/
def content (n : Node) : List Node := contentOf n.children

/-- Whether the body proper among some children is blank. -/
def isBlankContent (ns : List Node) : Bool := (contentOf ns).all isBlankText

/-- Whether the body proper of a node is blank. -/
def hasEmptyBody (n : Node) : Bool := isBlankContent n.children

/-! ### Literal content -/

mutual

/-- The text of a node whose body proper is literal text, text and body elements being looked
through; `none` if it holds anything else. -/
def literalText? : Node → Option Bytes
  | mk _ cs => if (bodyElement? cs).isSome then bodyLiteral? cs else contentLiteral? cs

/-- `literalText?` of the first body element of a list. -/
def bodyLiteral? : List Node → Option Bytes
  | [] => some []
  | mk h ds :: cs => if h.kind == .body then nodesLiteral? ds else bodyLiteral? cs

/-- The literal text of the nodes of a list but the named attributes. -/
def contentLiteral? : List Node → Option Bytes
  | [] => some []
  | c :: cs =>
    if c.kind == .namedAttribute then contentLiteral? cs
    else do
      let s ← if c.kind == .text then some c.text
        else if c.kind == .textAction || c.kind == .body then literalText? c else none
      let t ← contentLiteral? cs
      return s ++ t

/-- The literal text of all nodes of a list. -/
def nodesLiteral? : List Node → Option Bytes
  | [] => some []
  | c :: cs => do
    let s ← if c.kind == .text then some c.text
      else if c.kind == .textAction || c.kind == .body then literalText? c else none
    let t ← nodesLiteral? cs
    return s ++ t

end

/-- Whether the body proper is literal text. -/
def hasOnlyText (n : Node) : Bool := n.literalText?.isSome

/-! ### Adding children -/

/-- Whether the text node `b` goes on where the text node `a` ends. -/
def isContinuedBy (a b : Node) : Bool :=
  let stop := a.start.advance a.text
  a.start.file == b.start.file && a.head.inScriptless == b.head.inScriptless &&
    stop.line == b.start.line && stop.col == b.start.col

/-- A text node with more text after its own. -/
def extend (a : Node) (more : Bytes) : Node :=
  mk { a.head with text := a.text ++ more } a.children

/-- The siblings with one more after them. Text that goes on where the last sibling, a text, ends is
added to it. -/
def push (siblings : List Node) (n : Node) : List Node :=
  match siblings.getLast? with
  | none => [n]
  | some last =>
    if n.kind == .text && last.kind == .text && last.isContinuedBy n then
      siblings.dropLast ++ [last.extend n.text]
    else siblings ++ [n]

end Node

end ServerPages
