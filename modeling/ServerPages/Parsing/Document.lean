import ServerPages.Parsing.Construct

/-!
# Documents

A page written as an XML document is read token by token. Elements of the standard namespace are
directives, code and actions, those of a namespace bound to a tag library are tags, and all others
are written back as template text. The end tag of every element must match its start tag.

The cursor follows the document, so that the position of a token is the position in its source.
-/

namespace ServerPages.Parsing.Document

variable {σ : Type}

/-- The prefixes bound by the elements around a place, innermost first. -/
abbrev Namespaces := List (Bytes × Bytes)

/-- The uri bound to a prefix, empty if none is. -/
def Namespaces.uriOf (ns : Namespaces) (prefixName : Bytes) : Bytes :=
  (ns.lookup prefixName).getD []

/-- The prefix that an attribute binds, if it binds one; the default namespace has none. -/
def boundPrefix? (a : Markup.Attribute) : Option Bytes :=
  if a.name.space == "xmlns" then some a.name.base
  else if a.name.space == [] && a.name.base == "xmlns" then some []
  else none

/-- The namespaces inside an element with some attributes. -/
def Namespaces.enter (ns : Namespaces) (attributes : List Markup.Attribute) : Namespaces :=
  (attributes.filterMap fun a => (boundPrefix? a).map (·, a.value)).reverse ++ ns

/-- A start tag. -/
structure StartTag where
  /-- The name. -/
  name : Markup.Name
  /-- The attributes. -/
  attributes : List Markup.Attribute
  /-- Whether the element is empty. -/
  selfClosing : Bool
  /-- Where the tag stands. -/
  position : Position

/-- Parses the content of an element up to its end tag, or the rest of the document, with the
siblings before it, and gives the siblings after it. -/
abbrev Content (σ : Type) :=
  Namespaces → Option Markup.Name → Head → Bool → List Node → Parse σ (List Node)

/-- Gives the content of an include directive. -/
abbrev Include (σ : Type) := Head → Bool → Parse σ (List Node)

/-! ### Tokens -/

/-- Moves the cursor to where the next token starts, and gives its position. -/
def follow : Parse σ Position := do
  let s ← get
  let c := s.cursor.skip (s.document.offset - s.passed)
  set { s with cursor := c, passed := s.document.offset }
  return c.position

/-- The next token, `none` at the end of the document, and where it starts. -/
def next : Parse σ (Option Markup.Token × Position) := do
  let p ← follow
  match (← get).document.next true with
  | .error problem => refuse .xmlSyntax p problem.message
  | .ok none => return (none, p)
  | .ok (some (t, r)) =>
    modify fun s => { s with document := r }
    return (some t, p)

/-- What reads the tokens of a document. The parsers below take them from any reader. -/
class TokenReader (σ : Type) where
  /-- The next token, `none` at the end of the document, and where it starts. -/
  token : Parse σ (Option Markup.Token × Position)

/-- Tokens are read one after the other. -/
instance TokenReader.inOrder : TokenReader σ := ⟨next⟩

/-- The problem of an element that is not closed. -/
def unclosed {α : Type} (name : Markup.Name) (p : Position) : Parse σ α :=
  refuse .unterminatedTag p ("unterminated element <" ++ name.text ++ ">")

/-- The problem of an end tag that does not belong to the innermost open element. -/
def unbalanced {α : Type} (name : Markup.Name) (p : Position) : Parse σ α :=
  refuse .unbalancedEndTag p ("unexpected end tag </" ++ name.text ++ ">")

/-- A number of tokens that the rest of the document cannot exceed: a token takes a byte or is the
end tag of an empty element. -/
def tokenBound : Parse σ Nat := do return 2 * (← get).document.rest.length + 2

/-! ### Content without elements -/

section Data

variable [TokenReader σ]

/-- The character data of an element that must not contain elements, after `data`, in no more than
`fuel` tokens. -/
def dataWithin (name : Markup.Name) : Nat → Bytes → Parse σ Bytes
  | 0, _ => throw .crash
  | fuel + 1, data => do
    match ← TokenReader.token with
    | (none, p) => unclosed name p
    | (some (.text s), _) => dataWithin name fuel (data ++ s)
    | (some (.startTag _ _ _), p) =>
      refuse .misplacedAction p ("<" ++ name.text ++ "> must not contain elements")
    | (some (.endTag found), p) => if found != name then unbalanced found p else return data
    | (some .other, _) => dataWithin name fuel data

/-- The character data of an element that must not contain elements. -/
def elementData (name : Markup.Name) : Parse σ Bytes := do dataWithin name (← tokenBound) []

/-- Passes the content of an element up to its end tag, in no more than `fuel` tokens; `depth`
elements are open in it. Gives the number of bytes unread before the end tag. -/
def rawWithin (h : Head) (name : Markup.Name) : Nat → Nat → Parse σ Nat
  | 0, _ => throw .crash
  | fuel + 1, depth => do
    let unread := (← get).document.rest.length
    match ← TokenReader.token with
    | (none, _) => unclosed name h.start
    | (some (.startTag _ _ _), _) => rawWithin h name fuel (depth + 1)
    | (some (.endTag _), _) =>
      match depth with
      | 0 => return unread
      | depth + 1 => rawWithin h name fuel depth
    | (some _, _) => rawWithin h name fuel depth

/-- The content of an element as it is written, as one text. -/
def rawBody (h : Head) (name : Markup.Name) (scriptless : Bool) : Parse σ (List Node) := do
  let p ← follow
  let rest := (← get).document.rest
  let unread ← rawWithin h name (← tokenBound) 0
  let s := rest.take (rest.length - unread)
  return if s == [] then [] else [textNode s p scriptless]

end Data

/-! ### Elements -/

/-- The head with the attributes of a start tag, those that bind prefixes left out. A value between
percent signs, the first one followed by `=`, is code. -/
def addAttributes (ns : Namespaces) (p : Position) (scriptless : Bool) :
    Head → List Markup.Attribute → Parse σ Head
  | h, [] => return h
  | h, a :: as => do
    if (boundPrefix? a).isSome then addAttributes ns p scriptless h as
    else
      let v := a.value
      let script := v.startsWith "%=" && v.endsWith "%" && 3 ≤ v.length
      let raw : Bytes := if script then (v.drop 2).dropLast else v
      let h ← addAttribute ns.uriOf (some ns.uriOf) h a.name.text raw script p scriptless
      addAttributes ns p scriptless h as

section Standard

variable [TokenReader σ]

/-- The siblings after a directive. -/
def directive (included : Include σ) (ns : Namespaces) (t : StartTag) (name : Bytes)
    (scriptless : Bool) (siblings : List Node) : Parse σ (List Node) := do
  if name == "taglib" then
    refuse .misplacedDirective t.position
      "the taglib directive is not allowed in XML syntax, bind a namespace with xmlns instead"
  let h ← directiveHead name t.position scriptless
  let h ← addAttributes ns t.position scriptless h t.attributes
  if !(← elementData t.name).isBlank then
    refuse .bodyNotEmpty h.start (describe h ++ " must have an empty body")
  let children ← match h.kind with
    | .pageDirective | .tagDirective => do applyElIgnored h; pure []
    | .includeDirective => included h scriptless
    | _ => pure []
  return Node.push siblings (.mk h children)

/-- The kind of code that a standard element holds. -/
def scriptingKind? (name : Bytes) : Option Kind :=
  if name == "declaration" then some .declaration
  else if name == "expression" then some .expression
  else if name == "scriptlet" then some .scriptlet
  else none

/-- The siblings after a piece of code. -/
def scripting (kind : Kind) (t : StartTag) (scriptless : Bool) (siblings : List Node) :
    Parse σ (List Node) := do
  let code ← elementData t.name
  let n ← scriptingNode kind code t.position scriptless
  return Node.push siblings n

/-- The siblings after a text action. -/
def textAction (ns : Namespaces) (t : StartTag) (scriptless : Bool) (siblings : List Node) :
    Parse σ (List Node) := do
  let h ← actionHead "text" t.position scriptless
  let h ← addAttributes ns t.position scriptless h t.attributes
  let p ← follow
  let s ← elementData t.name
  let children ← textNodes ns.uriOf [] s p scriptless true
  return Node.push siblings (.mk h children)

/-- The children of a standard action. -/
def actionChildren (inner : Content σ) (ns : Namespaces) (t : StartTag) (parent h : Head)
    (scriptless : Bool) : Parse σ (List Node) := do
  let scriptless ← match h.kind with
    | .fallback => return ← rawBody h t.name scriptless
    | .body =>
      match ← bodyElementContent parent t.position with
      | .tagDependent => return ← rawBody h t.name scriptless
      | .scriptless => pure true
      | _ => pure scriptless
    | _ => pure scriptless
  let children ← inner ns (some t.name) h scriptless []
  checkActionBody h children
  return children

/-- The siblings after a standard action. -/
def standardAction (inner : Content σ) (ns : Namespaces) (t : StartTag) (parent : Head)
    (scriptless : Bool) (siblings : List Node) : Parse σ (List Node) := do
  let h ← actionHead t.name.base t.position scriptless
  checkPlacement parent h
  let h ← addAttributes ns t.position scriptless h t.attributes
  let children ← actionChildren inner ns t parent h scriptless
  return Node.push siblings (.mk h children)

/-- The siblings after an element of the standard namespace. -/
def standardElement (env : Env σ) (included : Include σ) (inner : Content σ) (ns : Namespaces)
    (t : StartTag) (parent : Head) (scriptless : Bool) (siblings : List Node) :
    Parse σ (List Node) :=
  let name := t.name.base
  if name == "root" then inner ns (some t.name) parent scriptless siblings
  else if name.startsWith "directive." then
    directive included ns t (name.dropStart "directive.") scriptless siblings
  else if env.directivesOnly then inner ns (some t.name) parent scriptless siblings
  else match scriptingKind? name with
    | some kind => scripting kind t scriptless siblings
    | none =>
      if name == "text" then textAction ns t scriptless siblings
      else standardAction inner ns t parent scriptless siblings

/-- The children of a tag. -/
def tagChildren (inner : Content σ) (ns : Namespaces) (t : StartTag) (h : Head)
    (scriptless : Bool) : Parse σ (List Node) := do
  if bodyContentOf h == .tagDependent then return ← rawBody h t.name scriptless
  let children ←
    inner ns (some t.name) h (scriptless || bodyContentOf h == .scriptless) []
  checkTagBody h children
  return children

/-- The siblings after a tag of a library. -/
def customTag (env : Env σ) (inner : Content σ) (ns : Namespaces) (t : StartTag)
    (l : TagLibrary) (scriptless : Bool) (siblings : List Node) : Parse σ (List Node) := do
  let h ← tagHead env l (ns.uriOf t.name.space) t.name.space t.name.base t.position scriptless
  let h ← addAttributes ns t.position scriptless h t.attributes
  let h := { h with tag := h.tag.map fun g => { g with selfClosed := t.selfClosing } }
  let children ← tagChildren inner ns t h scriptless
  return Node.push siblings (.mk h children)

end Standard

/-- The tag library of a namespace; `none` if the namespace is not one of tags. -/
def library? (env : Env σ) (uri : Bytes) (p : Position) : Parse σ (Option TagLibrary) := do
  match env.host.library with
  | none => return none
  | some question =>
    if uri == [] then return none
    match ← ask (question uri) with
    | .ok l => return some l
    | .error f =>
      if uri.startsWith "urn:jsptld:" || uri.startsWith "urn:jsptagdir:" || !f.isMissingLibrary then
        refuse .unknownTaglib p ("cannot resolve tag library " ++ uri ++ ": " ++ f.text)
      return none

/-- An attribute written back. -/
def writtenAttribute (a : Markup.Attribute) : Bytes :=
  " " ++ a.name.text ++ "=\"" ++ Markup.escape a.value ++ "\""

/-- A start tag written back, up to its closing mark. -/
def StartTag.opening (t : StartTag) : Bytes :=
  "<" ++ t.name.text ++ t.attributes.flatMap writtenAttribute

variable [TokenReader σ]

/-- The siblings after an element that is written back as text. -/
def plainElement (inner : Content σ) (ns : Namespaces) (t : StartTag) (parent : Head)
    (scriptless : Bool) (siblings : List Node) : Parse σ (List Node) := do
  if t.selfClosing then
    let (_ : Option Markup.Token × Position) ← TokenReader.token
    textNodes ns.uriOf siblings (t.opening ++ "/>") t.position scriptless true
  else
    let siblings ← textNodes ns.uriOf siblings (t.opening ++ ">") t.position scriptless true
    let siblings ← inner ns (some t.name) parent scriptless siblings
    textNodes ns.uriOf siblings ("</" ++ t.name.text ++ ">") (← position) scriptless false

/-- The siblings after an element. -/
def element (env : Env σ) (included : Include σ) (inner : Content σ) (ns : Namespaces)
    (t : StartTag) (parent : Head) (scriptless : Bool) (siblings : List Node) :
    Parse σ (List Node) := do
  let ns := ns.enter t.attributes
  let uri := ns.uriOf t.name.space
  if uri == PageSyntax.standardNamespace then
    standardElement env included inner ns t parent scriptless siblings
  else if env.directivesOnly then inner ns (some t.name) parent scriptless siblings
  else
    let l? ← if t.name.space == [] then pure none else library? env uri t.position
    match l? with
    | some l => customTag env inner ns t l scriptless siblings
    | none => plainElement inner ns t parent scriptless siblings

/-- The siblings after the content of an element up to its end tag, or after the rest of the
document, in no more than `fuel` tokens. -/
def content (env : Env σ) (included : Include σ) : Nat → Content σ
  | 0 => fun _ _ _ _ _ => throw .crash
  | fuel + 1 => fun ns opened parent scriptless siblings => do
    match ← TokenReader.token with
    | (none, p) =>
      match opened with
      | some name => unclosed name p
      | none => return siblings
    | (some (.text s), p) =>
      let siblings ← if env.directivesOnly || s.isBlank then pure siblings
        else textNodes ns.uriOf siblings s p scriptless true
      content env included fuel ns opened parent scriptless siblings
    | (some (.startTag name attributes selfClosing), p) =>
      let siblings ← element env included (content env included fuel) ns
        ⟨name, attributes, selfClosing, p⟩ parent scriptless siblings
      content env included fuel ns opened parent scriptless siblings
    | (some (.endTag name), p) =>
      if opened == some name then return siblings else unbalanced name p
    | (some .other, _) => content env included fuel ns opened parent scriptless siblings

/-- The content of the rest of the current source. -/
def parse (env : Env σ) (included : Include σ) (parent : Head) (scriptless : Bool) :
    Parse σ (List Node) := do
  modify fun s => { s with document := { rest := s.cursor.rest }, passed := 0 }
  content env included (← tokenBound) [] none parent scriptless []

end ServerPages.Parsing.Document
