import ServerPages.Parsing.Construct
import ServerPages.Validation.State

/-!
# Merging directives

The directives of a unit and of the files it includes are merged into one description. A directive
may be repeated, but an attribute keeps the value it was given first.
-/

namespace ServerPages.Validation

variable {σ : Type}

/-- Notes the value of an attribute of a directive, and tells whether it agrees with the first one
given. -/
def remember (h : Head) (a : Attribute) : Validate σ Bool := do
  let s ← get
  match s.firstValues.lookup (h.kind, a.name) with
  | none =>
    set { s with firstValues := ((h.kind, a.name), ⟨a.value, a.position⟩) :: s.firstValues }
    return true
  | some first =>
    if first.value == a.value then return true
    report .directiveConflict a.position (describe h ++ ": attribute " ++ a.name ++
      " was set to " ++ Quoted.string first.value ++ " at " ++ first.position.text ++
      ", cannot set it to " ++ Quoted.string a.value)
    return false

/-- Reserves a name among the attributes and variables of a tag file, and tells whether it was
free. -/
def declare (name : Bytes) (p : Position) : Validate σ Bool := do
  let s ← get
  match s.declared.lookup name with
  | some first =>
    report .directiveConflict p (name ++ " is already declared at " ++ first.text)
    return false
  | none =>
    set { s with declared := (name, p) :: s.declared }
    return true

/-- An integer as a machine word of 64 bits holds it. -/
def word64 (i : Int) : Int := Int.bmod i (Nat.pow 2 64)

/-- The digits of a buffer size such as `8kb`. -/
def kilobytes? (s : Bytes) : Option Bytes :=
  let digits := s.dropEnd "kb"
  if s.endsWith "kb" && digits != [] && digits.all Bytes.isDigit then some digits else none

/-- Sets the buffer size. -/
def setBuffer (a : Attribute) : Validate σ Unit := do
  if a.value == "none" then setPage ({ · with buffer := 0 })
  else match kilobytes? a.value with
    | none =>
      report .invalidDirectiveValue a.position ("invalid buffer size " ++ Quoted.string a.value ++
        ", expected \"none\" or a size such as \"8kb\"")
    | some digits =>
      match Numeral.signed 64 digits with
      | .error e =>
        report .invalidDirectiveValue a.position ("invalid buffer size " ++
          Quoted.string a.value ++ ": " ++ Numeral.Error.message { e with conversion := "Atoi" })
      | .ok n => setPage ({ · with buffer := word64 (n * 1024) })

/-- The imports with those of a list between commas that are not there yet. -/
def addImports (imports : List Bytes) (listed : Bytes) : List Bytes :=
  (listed.splitOnByte 44).foldl (fun known name =>
    let name := name.trimSpace
    if name == [] || known.contains name then known else known ++ [name]) imports

/-- Applies an attribute of a page or tag directive that agrees with those before. -/
def applyAttribute (a : Attribute) : Validate σ Unit :=
  let v := a.value
  let yes := v == "true"
  if a.name == "contentType" then setPage ({ · with contentType := v })
  else if a.name == "pageEncoding" then setPage ({ · with pageEncoding := v })
  else if a.name == "session" then setPage ({ · with session := yes })
  else if a.name == "autoFlush" then setPage ({ · with autoFlush := yes })
  else if a.name == "buffer" then setBuffer a
  else if a.name == "info" then setPage ({ · with info := v })
  else if a.name == "errorPage" then setPage ({ · with errorPage := v })
  else if a.name == "isErrorPage" then setPage ({ · with isErrorPage := yes })
  else if a.name == "isELIgnored" then setPage ({ · with elIgnored := yes })
  else if a.name == "trimDirectiveWhitespaces" then setPage ({ · with trimSpaces := yes })
  else if a.name == "display-name" then setTag ({ · with displayName := v })
  else if a.name == "description" then setTag ({ · with description := v })
  else if a.name == "dynamic-attributes" then do
    setTag ({ · with dynamicAttributes := v })
    let _ ← declare v a.position
  else if a.name == "body-content" then
    setTag fun t => { t with body := (BodyContent.ofName v).toOption.getD t.body }
  else pure ()

/-- Merges a page or tag directive. -/
def pageDirective (h : Head) : Validate σ Unit :=
  h.attributes.forM fun a => do
    if a.name == "import" then setPage fun p => { p with imports := addImports p.imports a.value }
    else if ← remember h a then applyAttribute a

/-- Merges an attribute directive. -/
def attributeDirective (h : Head) : Validate σ Unit := do
  let name := h.attrValue "name"
  if ← declare name h.start then
    let fragment := h.attrValue "fragment" == "true"
    if fragment then
      (["rtexprvalue", "type"] : List Bytes).forM fun other => do
        if h.hasAttr other then
          report .invalidDirectiveAttribute h.start
            ("attribute " ++ name ++ ": " ++ other ++
              " must not be given for a fragment attribute")
    let a : AttributeSignature := {
      name := name, required := h.attrValue "required" == "true", fragment := fragment,
      dynamic := fragment || h.attrValue "rtexprvalue" != "false",
      declaredType := h.attrValue "type" }
    setTag fun t => { t with attributes := t.attributes ++ [a] }

/-- The variable that a variable directive declares. -/
def variableOf (h : Head) : TagFileVariable where
  declaration := {
    given := h.attrValue "name-given", fromAttribute := h.attrValue "name-from-attribute",
    declaredType := h.attrValue "variable-class", declare := h.attrValue "declare" != "false",
    scope := ((VariableScope.ofName (h.attrValue "scope")).toOption).getD .nested }
  «alias» := h.attrValue "alias"

/-- Merges a variable directive. -/
def variableDirective (h : Head) : Validate σ Unit := do
  let hasGiven := h.hasAttr "name-given"
  let hasFrom := h.hasAttr "name-from-attribute"
  let hasAlias := h.hasAttr "alias"
  if hasGiven == hasFrom then
    report .invalidDirectiveAttribute h.start
      "the variable directive needs exactly one of name-given and name-from-attribute"
  else if hasFrom && !hasAlias then
    report .missingAttribute h.start
      "the variable directive needs alias with name-from-attribute"
  else if hasGiven && hasAlias then
    report .invalidDirectiveAttribute h.start "alias is only allowed with name-from-attribute"
  else if ← declare (h.attrValue (if hasGiven then "name-given" else "alias")) h.start then
    setTag fun t => { t with vars := t.vars ++ [variableOf h] }

/-- Notes the prefix that a taglib directive binds. -/
def taglibDirective (h : Head) : Validate σ Unit :=
  let uri := match h.attr? "tagdir" with
    | some dir => "urn:jsptagdir:" ++ dir.value
    | none => h.attrValue "uri"
  addPrefix (h.attrValue "prefix") uri

/-- Validates a directive. -/
def directive (env : Env σ) (h : Head) (children : List Node) : Validate σ Unit := do
  if ← checkSignature env h children then
    let inTagFile := (← get).page.tag.isSome
    match h.kind with
    | .pageDirective =>
      if inTagFile then
        report .misplacedDirective h.start
          "the page directive is not allowed in a tag file, use the tag directive"
      else pageDirective h
    | .taglibDirective => taglibDirective h
    | .tagDirective | .attributeDirective | .variableDirective =>
      if !inTagFile then
        report .misplacedDirective h.start (describe h ++ " is only allowed in tag files")
      else match h.kind with
        | .tagDirective => pageDirective h
        | .attributeDirective => attributeDirective h
        | _ => variableDirective h
    | _ => pure ()

/-! ### When all directives are known -/

/-- Checks an invocation of a fragment or of the body in a tag file. -/
def finishInvocation (tag : TagInfo) (h : Head) : Validate σ Unit :=
  if h.kind == .doBodyAction then do
    if tag.body == .empty then
      report .misplacedAction h.start "jsp:doBody in a tag file declaring an empty body"
  else
    let name := h.attrValue "fragment"
    if (tag.attributes.find? (·.name == name)).any (·.fragment) then pure ()
    else report .invalidDirectiveValue h.start
      ("jsp:invoke: " ++ name ++ " is not a fragment attribute of the tag file")

/-- Checks a variable that takes its name from an attribute. -/
def finishVariable (tag : TagInfo) (root : Head) (v : TagFileVariable) : Validate σ Unit :=
  let source := v.declaration.fromAttribute
  if source == [] then pure ()
  else match tag.attributes.find? (·.name == source) with
    | none =>
      report .invalidDirectiveValue root.start ("variable " ++ v.alias ++
        " takes its name from attribute " ++ source ++ ", which is not declared")
    | some a =>
      if !a.required || a.dynamic || a.fragment || a.valueType != defaultType then
        report .invalidDirectiveValue root.start ("attribute " ++ a.name ++ " names variable " ++
          v.alias ++ " and must be a required static string")
      else pure ()

/-- The checks that need all directives of the unit. -/
def finish (root : Head) : Validate σ Unit := do
  let s ← get
  if !s.page.autoFlush && s.page.buffer == 0 then
    report .invalidDirectiveValue root.start "autoFlush=\"false\" requires a buffer"
  match s.page.tag with
  | none => pure ()
  | some tag =>
    s.invocations.forM (finishInvocation tag)
    tag.vars.forM (finishVariable tag root)

end ServerPages.Validation
