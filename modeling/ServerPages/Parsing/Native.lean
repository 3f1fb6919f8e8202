import ServerPages.Parsing.Construct

/-!
# The native syntax

Template text with directives, code, expressions, standard actions and tags in it. One construct is
parsed at a time; what stands inside an element is parsed by the same rules, so the parser of one
construct is given a parser for the constructs inside (`Element`). `element` ties the knot: its
fuel bounds how deep elements nest, and every construct takes at least one byte.
-/

namespace ServerPages.Parsing.Native

variable {σ : Type}

/-- Parses one construct inside an element, with the siblings before it, and gives the siblings
after it. The flag tells whether code is forbidden there. -/
abbrev Element (σ : Type) := Head → Bool → List Node → Parse σ (List Node)

/-- Gives the content of an include directive. -/
abbrev Include (σ : Type) := Head → Bool → Parse σ (List Node)

/-- The text between two cursors of one source. -/
def between (c d : Cursor) : Bytes := c.rest.take (d.place.offset - c.place.offset)

/-! ### Constructs without content -/

/-- Passes a comment that was opened at `p`. -/
def comment (p : Position) : Parse σ Unit := do
  match (← cursor).seek? "--%>" with
  | none => refuse .unterminated p "unterminated comment <%--"
  | some (_, after) => moveTo after

/-- The siblings after a piece of code that was opened at `p` by `opener`. -/
def scripting (kind : Kind) (opener : Bytes) (p : Position) (scriptless : Bool)
    (siblings : List Node) : Parse σ (List Node) := do
  let c ← cursor
  match c.seek? "%>" with
  | none => refuse .unterminated p ("unterminated " ++ opener)
  | some (here, after) =>
    moveTo after
    let n ← scriptingNode kind (Bytes.replaceAll (between c here) "%\\>" "%>") p scriptless
    return Node.push siblings n

/-- The siblings after the expression at the cursor. -/
def expression (scriptless : Bool) (siblings : List Node) : Parse σ (List Node) := do
  let s ← get
  let c := s.cursor
  match Expression.length? c.rest with
  | none => refuse .unterminated c.position ("unterminated " ++ c.rest.take 2)
  | some n =>
    let e ← elNode s.uriOf (c.rest.take n) c.position scriptless
    moveTo (c.skip n)
    return Node.push siblings e

/-- The template text at the start of `s` and the number of bytes it takes. The first character
always belongs to it; then `<` ends it, and with `useEl` an expression does too. Escapes of these
are replaced. `first` tells whether the first character is still to come, and `skip` bytes belong
to what was read already. -/
def scanText (useEl : Bool) : Nat → Bool → Bytes → Bytes × Nat
  | _, _, [] => ([], 0)
  | skip + 1, first, _ :: s =>
    let (text, n) := scanText useEl skip first s
    (text, n + 1)
  | 0, first, b :: s =>
    if !first && (b == 60 || (useEl && Expression.isOpener (b :: s))) then ([], 0)
    else
      let (read, width) : Bytes × Nat :=
        if Bytes.startsWith (b :: s) "<\\%" then ("<%", 3)
        else if Bytes.startsWith (b :: s) "%\\>" then ("%>", 3)
        else if useEl && b == 92 && Expression.isOpener s then (s.take 2, 3)
        else
          let (c, width) := Utf8.charAt b s
          (Utf8.encode c, width)
      let (text, n) := scanText useEl (width - 1) false s
      (read ++ text, n + 1)

/-- The siblings after the template text at the cursor. -/
def templateText (scriptless : Bool) (siblings : List Node) : Parse σ (List Node) := do
  let s ← get
  let (text, n) := scanText (!s.elIgnored) 0 true s.cursor.rest
  moveTo (s.cursor.skip n)
  return Node.push siblings (textNode text s.cursor.position scriptless)

/-! ### Attributes -/

/-- Reads `= "value"` after the name of an attribute that stands at `p`. The flag tells whether the
whole value is a piece of code. -/
def attributeValue (name : Bytes) (p : Position) : Parse σ (Bytes × Bool) := do
  skipBlanks
  if !(← accepts "=") then
    refuse .badAttribute p ("attribute " ++ name ++ " has no value")
  skipBlanks
  let c ← cursor
  match c.rest with
  | [] => refuse .badAttribute p ("value of attribute " ++ name ++ " must be quoted")
  | quote :: _ =>
    if quote != 34 && quote != 39 then
      refuse .badAttribute p ("value of attribute " ++ name ++ " must be quoted")
    let start := c.skip 1
    let code? ← match start.accept? "<%=" with
      | none => pure none
      | some inner =>
        match inner.seekUnescaped? "%>" 92 with
        | none =>
          refuse .unterminated start.position ("unterminated <%= in attribute " ++ name)
        | some (here, after) =>
          match after.accept? [quote] with
          | none => pure none
          | some done => pure (some (between inner here, done))
    match code? with
    | some (code, done) =>
      moveTo done
      return (Bytes.replaceAll code "%\\>" "%>", true)
    | none =>
      match start.seekUnescaped? [quote] 92 with
      | none => refuse .unterminated p ("unterminated value of attribute " ++ name)
      | some (here, after) =>
        moveTo after
        return (unquote (between start here), false)

/-- The position and the name of the attribute at the cursor, an element described by `place` being
read. -/
def attributeName (place : Bytes) : Parse σ (Position × Bytes) := do
  let c ← cursor
  let name ← readName
  if name == [] then
    refuse .badAttribute c.position
      ("unexpected character " ++ Quoted.char (c.peek?.getD 0) ++ " in " ++ place)
  return (c.position, name)

/-- `attributes` reading no more than `fuel` of them. -/
def attributesWithin (scriptless : Bool) : Nat → Head → Parse σ (Head × Bool)
  | 0, _ => throw .crash
  | fuel + 1, h => do
    skipBlanks
    if ← accepts "/>" then return (h, true)
    if ← accepts ">" then return (h, false)
    if (← cursor).atEnd then
      refuse .unterminatedTag h.start ("unterminated tag " ++ describe h)
    let (p, name) ← attributeName (describe h)
    let (value, script) ← attributeValue name p
    let s ← get
    let h ← addAttribute s.uriOf (some s.uriOf) h name value script p scriptless
    attributesWithin scriptless fuel h

/-- The head of a tag or action with its attributes, up to the end of its start tag. The flag tells
whether the element is empty. -/
def attributes (h : Head) (scriptless : Bool) : Parse σ (Head × Bool) := do
  attributesWithin scriptless ((← cursor).rest.length + 1) h

/-! ### Directives -/

/-- The head of a directive with its attributes, reading no more than `fuel` of them. -/
def directiveAttributes (scriptless : Bool) : Nat → Head → Parse σ Head
  | 0, _ => throw .crash
  | fuel + 1, h => do
    skipBlanks
    if ← accepts "%>" then return h
    if (← cursor).atEnd then
      refuse .unterminated h.start ("unterminated " ++ h.name ++ " directive")
    let (p, name) ← attributeName (h.name ++ " directive")
    let (value, _) ← attributeValue name p
    let h ← addAttribute (← get).uriOf none h name value false p scriptless
    directiveAttributes scriptless fuel h

/-- The siblings after a directive that was opened at `p`. -/
def directive (env : Env σ) (included : Include σ) (p : Position) (scriptless : Bool)
    (siblings : List Node) : Parse σ (List Node) := do
  skipBlanks
  let name ← readName
  let h ← directiveHead name p scriptless
  let h ← directiveAttributes scriptless ((← cursor).rest.length + 1) h
  let children ← match h.kind with
    | .taglibDirective => do applyTaglib env h; pure []
    | .pageDirective | .tagDirective => do applyElIgnored h; pure []
    | .includeDirective => included h scriptless
    | _ => pure []
  return Node.push siblings (.mk h children)

/-! ### Bodies -/

/-- The problem of an element that is not closed. -/
def unclosed {α : Type} (h : Head) : Parse σ α :=
  refuse .unterminatedTag h.start
    ("unterminated tag <" ++ h.name ++ ">, expected </" ++ h.name ++ ">")

/-- The content of an element up to its end tag, in no more than `fuel` constructs. -/
def bodyWithin (inner : Element σ) (h : Head) (scriptless : Bool) :
    Nat → List Node → Parse σ (List Node)
  | 0, _ => throw .crash
  | fuel + 1, children => do
    if ← acceptsEndTag h.name then return children
    if (← cursor).atEnd then unclosed h
    bodyWithin inner h scriptless fuel (← inner h scriptless children)

/-- The content of an element up to its end tag. -/
def body (inner : Element σ) (h : Head) (scriptless : Bool) : Parse σ (List Node) := do
  bodyWithin inner h scriptless ((← cursor).rest.length + 1) []

/-- The content of an element up to its end tag as one text. -/
def opaqueBody (h : Head) (scriptless : Bool) : Parse σ (List Node) := do
  let c ← cursor
  match c.seekEndTag? h.name with
  | none => unclosed h
  | some (here, after) =>
    moveTo after
    let s := between c here
    return if s == [] then [] else [textNode s c.position scriptless]

/-- Whether a named attribute is the first thing in a body. -/
def startsWithNamedAttribute : Parse σ Bool := do
  return (← cursor).skipBlanks.sees "<jsp:attribute"

/-- `restrictedBody` in no more than `fuel` constructs. -/
def restrictedWithin (inner : Element σ) (h : Head) (scriptless : Bool) (allows : Bytes → Bool)
    (complaint : Bytes) : Nat → List Node → Parse σ (List Node)
  | 0, _ => throw .crash
  | fuel + 1, children => do
    skipBlanks
    let c ← cursor
    if ← acceptsEndTag h.name then return children
    if ← accepts "<%--" then
      comment c.position
      restrictedWithin inner h scriptless allows complaint fuel children
    else if allows c.rest then
      restrictedWithin inner h scriptless allows complaint fuel (← inner h scriptless children)
    else if c.atEnd then unclosed h
    else refuse .misplacedAction c.position complaint

/-- The content of an element in which only some elements may stand, between blanks and comments.
`allows` tells whether one starts at a text. -/
def restrictedBody (inner : Element σ) (h : Head) (scriptless : Bool) (allows : Bytes → Bool)
    (complaint : Bytes) : Parse σ (List Node) := do
  restrictedWithin inner h scriptless allows complaint ((← cursor).rest.length + 1) []

/-- The content of an element that has named attributes: those and body elements. -/
def namedBody (inner : Element σ) (h : Head) (scriptless : Bool) : Parse σ (List Node) :=
  restrictedBody inner h scriptless
    (fun s => s.startsWith "<jsp:attribute" || s.startsWith "<jsp:body")
    ("the body of " ++ describe h ++ " must be wrapped in jsp:body when jsp:attribute is used")

/-- The content of an element in which only some standard actions may stand. -/
def actionsBody (inner : Element σ) (h : Head) (scriptless : Bool) (allowed : List Bytes) :
    Parse σ (List Node) :=
  restrictedBody inner h scriptless
    (fun s => s.startsWith "<jsp:" && allowed.contains (Cursor.nameOf (s.drop 5)))
    ("only jsp:" ++ Bytes.join ", jsp:" allowed ++ " may appear inside " ++ describe h)

/-- The content of an element that may only have named attributes. -/
def emptyBody (inner : Element σ) (h : Head) (scriptless : Bool) : Parse σ (List Node) := do
  if ← acceptsEndTag h.name then return []
  if ← startsWithNamedAttribute then namedBody inner h scriptless
  else refuse .bodyNotEmpty (← position) (describe h ++ " must have an empty body")

/-- The content of a text action: text and expressions. -/
def textBody (h : Head) (scriptless : Bool) : Parse σ (List Node) := do
  let c ← cursor
  match c.seekEndTag? h.name with
  | none => unclosed h
  | some (here, after) =>
    moveTo after
    let s := between c here
    match Bytes.indexOfByte? 60 s with
    | some i =>
      refuse .misplacedAction (c.position.advance (s.take i)) "jsp:text must not contain elements"
    | none => textNodes (← get).uriOf [] s c.position scriptless true

/-- The content of a tag or of a body element, by what the tag says. -/
def contentBody (inner : Element σ) (h : Head) (content : BodyContent) (scriptless : Bool) :
    Parse σ (List Node) :=
  match content with
  | .tagDependent => opaqueBody h scriptless
  | .scriptless => body inner h true
  | _ => body inner h scriptless

/-- The content of a tag. -/
def tagBody (inner : Element σ) (h : Head) (scriptless : Bool) : Parse σ (List Node) := do
  if ← startsWithNamedAttribute then namedBody inner h scriptless
  else match bodyContentOf h with
    | .empty => emptyBody inner h scriptless
    | content => contentBody inner h content scriptless

/-- The content of a standard action. -/
def actionBody (inner : Element σ) (parent h : Head) (scriptless : Bool) :
    Parse σ (List Node) := do
  match h.kind with
  | .param | .invokeAction | .doBodyAction | .setProperty => emptyBody inner h scriptless
  | .getProperty =>
    if ← acceptsEndTag h.name then return []
    refuse .bodyNotEmpty (← position) (describe h ++ " must have an empty body")
  | .includeAction | .forwardAction => actionsBody inner h scriptless ["param", "attribute"]
  | .params => actionsBody inner h scriptless ["param"]
  | .plugin => actionsBody inner h scriptless ["params", "fallback", "attribute"]
  | .fallback => opaqueBody h scriptless
  | .textAction => textBody h scriptless
  | .body =>
    let content ← bodyElementContent parent h.start
    contentBody inner h content scriptless
  | _ => body inner h scriptless

/-! ### Elements -/

/-- The siblings after the standard action at the cursor. -/
def standardAction (inner : Element σ) (parent : Head) (scriptless : Bool)
    (siblings : List Node) : Parse σ (List Node) := do
  let c ← cursor
  moveTo (c.skip 5)
  let name ← readName
  let h ← actionHead name c.position scriptless
  checkPlacement parent h
  let (h, closed) ← attributes h scriptless
  let children ← if closed then pure [] else actionBody inner parent h scriptless
  return Node.push siblings (.mk h children)

/-- The prefix and the name of the tag whose name starts `s`, and the library bound to the prefix;
`none` if no library is. -/
def boundTag? (bindings : List (Bytes × Binding)) (s : Bytes) :
    Option (Bytes × Bytes × Binding) := do
  let (prefixName, name) ← Bytes.cut? 58 (Cursor.nameOf s)
  if name == [] then none
  let b ← bindings.lookup prefixName
  return (prefixName, name, b)

/-- The siblings after the tag at the cursor. -/
def customTag (env : Env σ) (inner : Element σ) (prefixName name : Bytes) (b : Binding)
    (scriptless : Bool) (siblings : List Node) : Parse σ (List Node) := do
  let c ← cursor
  moveTo (c.skip (prefixName.length + name.length + 2))
  let h ← tagHead env b.library b.uri prefixName name c.position scriptless
  let (h, closed) ← attributes h scriptless
  let h := { h with tag := h.tag.map fun t => { t with selfClosed := closed } }
  let children ← if closed then pure [] else tagBody inner h scriptless
  return Node.push siblings (.mk h children)

/-- Whether an end tag whose name starts `s` is that of a standard action or of a tag of a bound
library. -/
def isBoundEnd (bindings : List (Bytes × Binding)) (s : Bytes) : Bool :=
  match Bytes.cut? 58 (Cursor.nameOf s) with
  | none => false
  | some (prefixName, _) => prefixName == "jsp" || (bindings.lookup prefixName).isSome

/-- The siblings after the construct at the cursor. -/
def construct (env : Env σ) (included : Include σ) (inner : Element σ) : Element σ :=
  fun parent scriptless siblings => do
    let s ← get
    let c := s.cursor
    let p := c.position
    if ← accepts "<%--" then
      comment p
      return siblings
    if ← accepts "<%@" then return ← directive env included p scriptless siblings
    if ← accepts "<%!" then return ← scripting .declaration "<%!" p scriptless siblings
    if ← accepts "<%=" then return ← scripting .expression "<%=" p scriptless siblings
    if ← accepts "<%" then return ← scripting .scriptlet "<%" p scriptless siblings
    if c.sees "<jsp:" then return ← standardAction inner parent scriptless siblings
    if !s.elIgnored && Expression.isOpener c.rest then return ← expression scriptless siblings
    if c.sees "</" then
      if isBoundEnd s.bindings (c.rest.drop 2) then
        refuse .unbalancedEndTag p
          ("unexpected end tag </" ++ Cursor.nameOf (c.rest.drop 2) ++ ">")
      return ← templateText scriptless siblings
    if c.sees "<" then
      match boundTag? s.bindings (c.rest.drop 1) with
      | some (prefixName, name, b) =>
        return ← customTag env inner prefixName name b scriptless siblings
      | none => return ← templateText scriptless siblings
    templateText scriptless siblings

/-- The siblings after the construct at the cursor, elements in it nesting no deeper than the
fuel. -/
def element (env : Env σ) (included : Include σ) : Nat → Element σ
  | 0 => fun _ _ _ => throw .crash
  | fuel + 1 => construct env included (element env included fuel)

/-! ### Sources -/

/-- The content of a source, in no more than `fuel` constructs. -/
def sourceWithin (inner : Element σ) (parent : Head) (scriptless : Bool) :
    Nat → List Node → Parse σ (List Node)
  | 0, _ => throw .crash
  | fuel + 1, children => do
    if (← cursor).atEnd then return children
    sourceWithin inner parent scriptless fuel (← inner parent scriptless children)

/-- The cursor at the next `<` after the first byte, or at the end. -/
def nextTag (c : Cursor) : Cursor :=
  match Bytes.indexOfByte? 60 (c.rest.drop 1) with
  | none => c.skip c.rest.length
  | some i => c.skip (i + 1)

/-- The directives of a source, everything but them and comments being passed over, in no more than
`fuel` steps. -/
def directivesWithin (env : Env σ) (included : Include σ) : Nat → List Node → Parse σ (List Node)
  | 0, _ => throw .crash
  | fuel + 1, children => do
    let c ← cursor
    if c.atEnd then return children
    if ← accepts "<%--" then
      comment c.position
      directivesWithin env included fuel children
    else if ← accepts "<%@" then
      directivesWithin env included fuel (← directive env included c.position false children)
    else
      moveTo (nextTag c)
      directivesWithin env included fuel children

/-- The content of the rest of the current source. -/
def parse (env : Env σ) (included : Include σ) (parent : Head) (scriptless : Bool) :
    Parse σ (List Node) := do
  let fuel := (← cursor).rest.length + 1
  if env.directivesOnly then directivesWithin env included fuel []
  else sourceWithin (element env included fuel) parent scriptless fuel []

end ServerPages.Parsing.Native
