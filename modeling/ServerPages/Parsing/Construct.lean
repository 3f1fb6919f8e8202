import ServerPages.Parsing.State

/-!
# Nodes of both syntaxes

Both syntaxes of pages make the same nodes from the same parts and refuse the same ones. This
module makes heads of directives, actions and tags, attributes, code, text and expressions, and
checks which elements may stand in which.
-/

namespace ServerPages.Parsing

variable {σ : Type}

/-- A node in messages. -/
def describe (h : Head) : Bytes :=
  if h.kind.isDirective then h.name ++ " directive"
  else if h.name != [] then "<" ++ h.name ++ ">"
  else h.kind.name

/-! ### Tag libraries -/

/-- The library of a uri. -/
def library (env : Env σ) (uri : Bytes) (p : Position) : Parse σ TagLibrary := do
  match env.host.library with
  | none => refuse .unknownTaglib p ("cannot resolve tag library " ++ uri ++ ": no resolver")
  | some question =>
    match ← ask (question uri) with
    | .ok l => return l
    | .error f =>
      let before : Bytes :=
        if f.isMissingLibrary then "cannot resolve tag library " else "loading tag library "
      refuse .unknownTaglib p (before ++ uri ++ ": " ++ f.text)

/-- Binds a prefix to the library of a uri. -/
def bindPrefix (env : Env σ) (prefixName uri : Bytes) (p : Position) : Parse σ Unit := do
  if prefixName == "jsp" || prefixName == "jspx" then
    refuse .invalidDirectiveValue p ("prefix " ++ prefixName ++ " is reserved")
  match (← get).bindings.lookup prefixName with
  | some old =>
    if old.uri != uri then
      refuse .directiveConflict p ("prefix " ++ prefixName ++ " is already bound to " ++ old.uri ++
        ", cannot rebind it to " ++ uri)
  | none => pure ()
  let l ← library env uri p
  modify fun s => { s with bindings := (prefixName, ⟨uri, l⟩) :: s.bindings }

/-! ### Heads -/

/-- The head of a directive. -/
def directiveHead (name : Bytes) (p : Position) (scriptless : Bool) : Parse σ Head :=
  match Kind.directive? name with
  | none => refuse .unknownDirective p ("unknown directive " ++ name)
  | some kind => return { kind := kind, start := p, name := name, inScriptless := scriptless }

/-- The head of a standard action. -/
def actionHead (name : Bytes) (p : Position) (scriptless : Bool) : Parse σ Head :=
  match Kind.action? name with
  | none => refuse .unknownAction p ("unknown standard action jsp:" ++ name)
  | some kind => return {
      kind := kind, start := p, name := "jsp:" ++ name, inScriptless := scriptless,
      trim := kind == .namedAttribute }

/-- The contract of a tag of a library. -/
def tagDescriptor (env : Env σ) (l : TagLibrary) (uri prefixName name : Bytes) (p : Position) :
    Parse σ TagDescriptor := do
  match l.tag? name, l.tagFile? name with
  | some d, _ => return d
  | none, none =>
    refuse .unknownTag p ("no tag " ++ name ++ " in tag library " ++ uri)
  | none, some path =>
    match env.host.tagFile with
    | none =>
      refuse .unknownTag p ("tag " ++ prefixName ++ ":" ++ name ++ " is implemented by tag file " ++
        path ++ ", which cannot be loaded")
    | some question =>
      match ← ask (question path) with
      | .ok d => return d
      | .error (.fault f) =>
        if f.diagnostic?.isSome then throw (.fault f)
        else refuse .dependencyFailed p ("tag file " ++ path ++ ": " ++ f.text)
      | .error e => throw e

/-- The head of an invocation of a tag. -/
def tagHead (env : Env σ) (l : TagLibrary) (uri prefixName name : Bytes) (p : Position)
    (scriptless : Bool) : Parse σ Head := do
  let d ← tagDescriptor env l uri prefixName name p
  return {
    kind := .customTag, start := p, name := prefixName ++ ":" ++ name, inScriptless := scriptless,
    tag := some { prefixName := prefixName, localName := name, uri := uri, descriptor := some d } }

/-! ### Leaves -/

/-- A node of code. -/
def scriptingNode (kind : Kind) (code : Bytes) (p : Position) (scriptless : Bool) :
    Parse σ Node :=
  if scriptless then
    refuse .scriptingNotAllowed p (kind.name ++ " is not allowed in a scriptless body")
  else return .leaf { kind := kind, start := p, text := code }

/-- A node of text. -/
def textNode (s : Bytes) (p : Position) (scriptless : Bool) : Node :=
  .leaf { kind := .text, start := p, text := s, inScriptless := scriptless }

/-- The node of an expression with its delimiters. -/
def elNode (uriOf : Bytes → Bytes) (source : Bytes) (p : Position) (scriptless : Bool) :
    Parse σ Node :=
  match Expression.ofText source with
  | .error e =>
    refuse .invalidExpression p ("invalid expression " ++ source ++ ": " ++ e.text)
  | .ok e => return .leaf {
      kind := .elExpression, start := p, text := source, el := some (e.bind uriOf),
      inScriptless := scriptless }

/-- The siblings after the segments of a text that starts at `p`. -/
def segmentNodes (uriOf : Bytes → Bytes) (s : Bytes) (p : Position) (scriptless : Bool) :
    List Node → List Expression.Segment → Parse σ (List Node)
  | siblings, [] => return siblings
  | siblings, seg :: segs => do
    let here := p.advance (s.take seg.offset)
    let n ← if seg.isExpression then elNode uriOf seg.text here scriptless
      else pure (textNode seg.text here scriptless)
    segmentNodes uriOf s p scriptless (Node.push siblings n) segs

/-- The siblings after a text that starts at `p`. With `allowEl`, expressions in it are nodes of
their own. -/
def textNodes (uriOf : Bytes → Bytes) (siblings : List Node) (s : Bytes) (p : Position)
    (scriptless allowEl : Bool) : Parse σ (List Node) := do
  if s == [] then return siblings
  let useEl := allowEl && !(← get).elIgnored
  if !useEl then return Node.push siblings (textNode s p scriptless)
  if !Expression.contains s then
    return Node.push siblings (textNode (Expression.unescape s) p scriptless)
  match Expression.scan s with
  | .error e =>
    refuse .unterminated (p.advance (s.take e.offset)) ("unterminated expression: " ++ e.text)
  | .ok segs => segmentNodes uriOf s p scriptless siblings segs

/-! ### Attributes -/

/-- The name of an attribute without its prefix, and the uri of the prefix. -/
def splitName (uriOf : Option (Bytes → Bytes)) (name : Bytes) : Bytes × Bytes :=
  match name.cut? 58 with
  | none => (name, [])
  | some (space, base) => (base, (uriOf.map (· space)).getD [])

/-- The attribute of a value as it was read; `script` marks a value that is code. The attributes of
directives are literal. `functionUri` tells the uris of the prefixes of functions. -/
def attributeOf (functionUri : Bytes → Bytes) (h : Head) (a : Attribute) (raw : Bytes)
    (script scriptless : Bool) : Parse σ Attribute := do
  let useEl := !(← get).elIgnored
  if h.kind.isDirective then return { a with value := raw }
  if script then
    if scriptless then
      refuse .scriptingNotAllowed a.position
        ("expression value of attribute " ++ a.name ++ " is not allowed in a scriptless body")
    return { a with kind := .script, value := raw.trimSpace }
  if useEl && Expression.contains raw then
    match Expression.ofText raw with
    | .error e =>
      refuse .invalidExpression a.position ("attribute " ++ a.name ++ ": " ++ e.text)
    | .ok e => return { a with kind := .el, value := raw, el := some (e.bind functionUri) }
  return { a with value := if useEl then Expression.unescape raw else raw }

/-- What an attribute says about a named attribute. -/
def applyToNamed (h : Head) (a : Attribute) : Head :=
  if h.kind != .namedAttribute then h
  else if a.name == "name" then { h with attributeName := a.value }
  else if a.name == "trim" then { h with trim := a.value != "false" }
  else h

/-- The head with one more attribute. -/
def addAttribute (functionUri : Bytes → Bytes) (uriOf : Option (Bytes → Bytes)) (h : Head)
    (name raw : Bytes) (script : Bool) (p : Position) (scriptless : Bool) : Parse σ Head := do
  if name == [] then
    refuse .badAttribute p ("missing attribute name in " ++ describe h)
  if h.hasAttr name then
    refuse .duplicateAttribute p
      ("attribute " ++ name ++ " appears more than once in " ++ describe h)
  let (localName, uri) := splitName uriOf name
  let a ← attributeOf functionUri h
    { name := name, localName := localName, uri := uri, position := p } raw script scriptless
  return applyToNamed { h with attributes := h.attributes ++ [a] } a

/-- Replaces the escapes of quoted values. -/
def unquote (s : Bytes) : Bytes :=
  s.substitute [("\\\\", "\\"), ("\\\"", "\""), ("\\'", "'"), ("<\\%", "<%"), ("%\\>", "%>"),
    ("&apos;", "'"), ("&quot;", "\"")]

/-! ### Directives -/

/-- Switches the expression language as a page or tag directive says. -/
def applyElIgnored (h : Head) : Parse σ Unit :=
  match h.attr? "isELIgnored" with
  | some a => modify fun s => { s with elIgnored := a.value == "true" }
  | none => pure ()

/-- Binds the prefix that a taglib directive names. -/
def applyTaglib (env : Env σ) (h : Head) : Parse σ Unit := do
  let prefixName := h.attrValue "prefix"
  if prefixName == [] then
    refuse .missingAttribute h.start "attribute prefix is mandatory for the taglib directive"
  match h.attr? "uri", h.attr? "tagdir" with
  | some uri, none => bindPrefix env prefixName uri.value h.start
  | none, some dir => bindPrefix env prefixName ("urn:jsptagdir:" ++ dir.value) h.start
  | _, _ =>
    refuse .invalidDirectiveAttribute h.start
      "taglib directive needs exactly one of uri and tagdir"

/-! ### Content models -/

/-- Whether an element takes named attributes. -/
def takesNamedAttributes : Kind → Bool
  | .customTag | .includeAction | .forwardAction | .plugin | .useBean | .setProperty | .param
  | .invokeAction | .doBodyAction => true
  | _ => false

/-- Refuses a named attribute or a body element in an element that does not take it. -/
def checkPlacement (parent h : Head) : Parse σ Unit :=
  let ok : Bool := match h.kind with
    | .namedAttribute => takesNamedAttributes parent.kind
    | .body => parent.kind == .customTag
    | _ => true
  if ok then pure ()
  else refuse .misplacedAction h.start (describe h ++ " is not allowed inside " ++ describe parent)

/-- The children that a standard action may have; `none` if it may have any. -/
def allowedChildren? : Kind → Option (List Kind)
  | .param | .invokeAction | .doBodyAction | .setProperty => some [.namedAttribute]
  | .getProperty => some []
  | .includeAction | .forwardAction => some [.param, .namedAttribute]
  | .params => some [.param]
  | .plugin => some [.params, .fallback, .namedAttribute]
  | _ => none

/-- Refuses content beside named attributes that is not in a body element. -/
def checkNamedBody (h : Head) (children : List Node) : Parse σ Unit :=
  if (Node.namedAttributes children).isEmpty then pure ()
  else match children.find? fun c =>
      c.kind != .namedAttribute && c.kind != .body && !c.isBlankText with
    | none => pure ()
    | some c => refuse .misplacedAction c.start ("the body of " ++ describe h ++
        " must be wrapped in jsp:body when jsp:attribute is used")

/-- Refuses children that a standard action does not take. -/
def checkActionBody (h : Head) (children : List Node) : Parse σ Unit :=
  match allowedChildren? h.kind with
  | none => checkNamedBody h children
  | some allowed =>
    match children.find? fun c => !c.isBlankText && !allowed.contains c.kind with
    | none => pure ()
    | some c =>
      if allowed == [] || allowed == [.namedAttribute] then
        refuse .bodyNotEmpty c.start (describe h ++ " must have an empty body")
      else refuse .misplacedAction c.start
        (describe c.head ++ " is not allowed inside " ++ describe h)

/-- What the body of a tag may hold. -/
def bodyContentOf (h : Head) : BodyContent :=
  ((h.tag.bind (·.descriptor)).map (·.body)).getD .page

/-- Refuses a body that a tag does not take. -/
def checkTagBody (h : Head) (children : List Node) : Parse σ Unit := do
  checkNamedBody h children
  if bodyContentOf h == .empty && !Node.isBlankContent children then
    refuse .bodyNotEmpty h.start (describe h ++ " must have an empty body")

/-- What a body element may hold, as the tag around it says. -/
def bodyElementContent (parent : Head) (p : Position) : Parse σ BodyContent := do
  if parent.kind != .customTag then
    refuse .misplacedAction p "jsp:body must be a child of a custom tag"
  if bodyContentOf parent == .empty then
    refuse .bodyNotEmpty p ("tag " ++ parent.name ++ " must have an empty body")
  return bodyContentOf parent

/-! ### Inclusion -/

/-- Parses a source of a syntax as the content of a node. -/
abbrev SourceParser (σ : Type) := PageSyntax → Head → Bool → Parse σ (List Node)

/-- The content of the file that an include directive names. The file may not be one that is being
read already. -/
def includeFile (env : Env σ) (parse : SourceParser σ) (h : Head) (scriptless : Bool) :
    Parse σ (List Node) := do
  match h.attr? "file" with
  | none =>
    refuse .missingAttribute h.start "attribute file is mandatory for the include directive"
  | some file =>
    let s ← get
    let target := includedPath (s.files.headD []) file.value
    if s.files.contains target then
      refuse .circularInclude h.start ("file " ++ target ++ " includes itself through " ++
        Bytes.join " -> " s.files.reverse)
    let text ← match env.host.load with
      | none => refuse .includeFailed h.start ("cannot include " ++ target ++ ": no loader")
      | some question =>
        match ← ask (question target) with
        | .ok text => pure text
        | .error f =>
          refuse .includeFailed h.start ("cannot include " ++ target ++ ": " ++ f.text)
    match s.cursor.open? target text with
    | none => refuse .circularInclude h.start (Cursor.circularText target)
    | some inner =>
      modify fun s => { s with cursor := inner, files := target :: s.files }
      let children ← parse (PageSyntax.detect target text) h scriptless
      modify fun t => { t with
        cursor := { s.cursor with opened := t.cursor.opened }, files := s.files,
        document := s.document, passed := s.passed }
      return children

end ServerPages.Parsing
