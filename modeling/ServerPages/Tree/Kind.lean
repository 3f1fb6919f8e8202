import ServerPages.Text.Bytes

/-!
# Kinds of nodes

What a node of a page tree stands for, and which kinds may have children.
-/

namespace ServerPages

/-- What a node stands for. -/
inductive Kind where
  /-- The unit itself. -/
  | root
  /-- Literal template text. -/
  | text
  /-- A page directive. -/
  | pageDirective
  /-- An include directive; its children are the content of the included file. -/
  | includeDirective
  /-- A taglib directive. -/
  | taglibDirective
  /-- A tag directive. -/
  | tagDirective
  /-- An attribute directive. -/
  | attributeDirective
  /-- A variable directive. -/
  | variableDirective
  /-- Code placed at package level. -/
  | declaration
  /-- Code whose value is written to the output. -/
  | expression
  /-- Code placed in the render function. -/
  | scriptlet
  /-- An expression of the expression language in template text. -/
  | elExpression
  /-- Includes the output of another page. -/
  | includeAction
  /-- Passes the request on to another page. -/
  | forwardAction
  /-- Writes a property of a bean. -/
  | getProperty
  /-- Sets a property of a bean. -/
  | setProperty
  /-- Finds or makes a bean. -/
  | useBean
  /-- Embeds an applet. -/
  | plugin
  /-- The parameters of an applet. -/
  | params
  /-- One parameter. -/
  | param
  /-- What is shown in place of an applet. -/
  | fallback
  /-- The value of an attribute of the parent, given as content. -/
  | namedAttribute
  /-- The body of the parent when the parent has named attributes. -/
  | body
  /-- Evaluates a fragment passed to a tag file. -/
  | invokeAction
  /-- Evaluates the body passed to a tag file. -/
  | doBodyAction
  /-- Template text written as it is. -/
  | textAction
  /-- An invocation of a tag of a library. -/
  | customTag
  deriving DecidableEq, Repr

namespace Kind

/-- The kinds in the order of their numbers. -/
def all : List Kind :=
  [.root, .text, .pageDirective, .includeDirective, .taglibDirective, .tagDirective,
    .attributeDirective, .variableDirective, .declaration, .expression, .scriptlet, .elExpression,
    .includeAction, .forwardAction, .getProperty, .setProperty, .useBean, .plugin, .params, .param,
    .fallback, .namedAttribute, .body, .invokeAction, .doBodyAction, .textAction, .customTag]

/-- The kind with a number. -/
def ofCode? (code : Int) : Option Kind := if code < 0 then none else all[code.toNat]?

/-- The name in messages. -/
def name : Kind → Bytes
  | .root => "root"
  | .text => "text"
  | .pageDirective => "page directive"
  | .includeDirective => "include directive"
  | .taglibDirective => "taglib directive"
  | .tagDirective => "tag directive"
  | .attributeDirective => "attribute directive"
  | .variableDirective => "variable directive"
  | .declaration => "declaration"
  | .expression => "expression"
  | .scriptlet => "scriptlet"
  | .elExpression => "EL expression"
  | .includeAction => "jsp:include"
  | .forwardAction => "jsp:forward"
  | .getProperty => "jsp:getProperty"
  | .setProperty => "jsp:setProperty"
  | .useBean => "jsp:useBean"
  | .plugin => "jsp:plugin"
  | .params => "jsp:params"
  | .param => "jsp:param"
  | .fallback => "jsp:fallback"
  | .namedAttribute => "jsp:attribute"
  | .body => "jsp:body"
  | .invokeAction => "jsp:invoke"
  | .doBodyAction => "jsp:doBody"
  | .textAction => "jsp:text"
  | .customTag => "custom tag"

/-- The name of the kind with a number. -/
def nameOfCode (code : Int) : Bytes :=
  ((ofCode? code).map name).getD ("Kind(" ++ Bytes.ofInt code ++ ")")

/-- Whether the kind is a directive. -/
def isDirective : Kind → Bool
  | .pageDirective | .includeDirective | .taglibDirective | .tagDirective | .attributeDirective
  | .variableDirective => true
  | _ => false

/-- Whether the kind is code of the page. -/
def isScripting : Kind → Bool
  | .declaration | .expression | .scriptlet => true
  | _ => false

/-- Whether nodes of the kind may have children. -/
def allowsBody : Kind → Bool
  | .text | .pageDirective | .taglibDirective | .tagDirective | .attributeDirective
  | .variableDirective | .declaration | .expression | .scriptlet | .elExpression
  | .getProperty => false
  | _ => true

/-- The directives by name. -/
def directives : List (Bytes × Kind) :=
  [("page", .pageDirective), ("include", .includeDirective), ("taglib", .taglibDirective),
    ("tag", .tagDirective), ("attribute", .attributeDirective), ("variable", .variableDirective)]

/-- The directive of a name. -/
def directive? (name : Bytes) : Option Kind := directives.lookup name

/-- The standard actions by name. -/
def actions : List (Bytes × Kind) :=
  [("include", .includeAction), ("forward", .forwardAction), ("getProperty", .getProperty),
    ("setProperty", .setProperty), ("useBean", .useBean), ("plugin", .plugin),
    ("params", .params), ("param", .param), ("fallback", .fallback),
    ("attribute", .namedAttribute), ("body", .body), ("invoke", .invokeAction),
    ("doBody", .doBodyAction), ("text", .textAction)]

/-- The standard action of a name. -/
def action? (name : Bytes) : Option Kind := actions.lookup name

end Kind

end ServerPages
