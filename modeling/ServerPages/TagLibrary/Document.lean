import ServerPages.Diagnostics.Fault
import ServerPages.Markup.Element
import ServerPages.TagLibrary.Descriptor

/-!
# Descriptor documents

A tag library descriptor is an XML document. Handler types are written `import/path.Type`, and the
signature of a function names the function. A document that cannot be read, or that is not
consistent, is a configuration fault.
-/

namespace ServerPages

namespace TagLibrary

/-- The fault of a bad descriptor. -/
def badDescriptor (message : Bytes) : Fault := .config .badDescriptor message

/-- The trimmed text of the last child element of a name. -/
def entry (es : List Markup.Element) (name : Bytes) : Bytes :=
  (Markup.Element.field name es).trimSpace

/-- Whether a text says yes. -/
def isYes (s : Bytes) : Bool :=
  let t := s.trimSpace
  t.lowerEq "true" || t.lowerEq "yes"

/-- Whether the last child element of a name says yes. -/
def saysYes (es : List Markup.Element) (name : Bytes) : Bool := isYes (Markup.Element.field name es)

/-- The package and the name of a qualified type. A name without a dot is of the generated
package. -/
def splitType (s : Bytes) : Except Bytes (Bytes × Bytes) :=
  if s == [] then .error "missing handler type"
  else match s.lastIndexOfByte? 46 with
    | none => .ok ([], s)
    | some dot =>
      if (s.lastIndexOfByte? 47).any (dot < ·) then .ok ([], s)
      else if s.drop (dot + 1) == [] then .error ("invalid handler type " ++ Quoted.string s)
      else .ok (s.take dot, s.drop (dot + 1))

/-- The function named by a signature such as `string Upper(string)`. -/
def functionOf (signature : Bytes) : Bytes :=
  let head := ((signature.cut? 40).map (·.1)).getD signature
  head.fields.getLast?.getD []

/-- The attributes of a tag, `read` being those before. -/
def attributesOf (read : List AttributeSignature) :
    List (List Markup.Element) → Except Bytes (List AttributeSignature)
  | [] => .ok read
  | es :: rest =>
    let name := entry es "name"
    if name == [] then .error "attribute without a name"
    else if read.any (·.name == name) then
      .error ("attribute " ++ Quoted.string name ++ " declared twice")
    else
      let fragment := saysYes es "fragment"
      attributesOf
        (read ++ [{
          name := name,
          required := saysYes es "required",
          dynamic := saysYes es "rtexprvalue" || fragment,
          fragment := fragment,
          declaredType := entry es "type" }]) rest

/-- A variable of a tag. -/
def variableOf (es : List Markup.Element) : Except Bytes VariableDeclaration :=
  let given := entry es "name-given"
  let fromAttribute := entry es "name-from-attribute"
  let declare := Markup.Element.field "declare" es
  if (given == []) == (fromAttribute == []) then
    .error "variable needs exactly one of name-given and name-from-attribute"
  else
    (VariableScope.ofName (Markup.Element.field "scope" es)).map fun scope => {
      given := given, fromAttribute := fromAttribute, declaredType := entry es "variable-class",
      declare := declare == [] || isYes declare, scope := scope }

/-- A tag with a handler type. -/
def tagOf (es : List Markup.Element) : Except Bytes TagDescriptor := do
  let name := entry es "name"
  if name == [] then .error "missing name"
  let (package, typeName) ← splitType (entry es "tag-class")
  let content := entry es "body-content"
  let body ← if content == [] then .ok .page else BodyContent.ofName content
  let simple := saysYes es "simple"
  let iteration := saysYes es "iteration"
  let buffered := saysYes es "buffered-body"
  if simple && (iteration || buffered) then
    .error "simple tags cannot declare iteration or buffered-body"
  let attributes ← attributesOf [] (Markup.Element.named "attribute" es)
  let vars ← (Markup.Element.named "variable" es).mapM variableOf
  return {
    name := name, package := package, typeName := typeName, body := body,
    attributes := attributes, vars := vars,
    extraInfoClass := entry es "tei-class", info := entry es "description",
    iteration := iteration, bufferedBody := buffered,
    tryCatchFinally := saysYes es "try-catch-finally",
    dynamicAttributes := saysYes es "dynamic-attributes", simple := simple }

/-- The library with a tag added. -/
def addTag (l : TagLibrary) (es : List Markup.Element) : Except Fault TagLibrary :=
  match tagOf es with
  | .error message =>
    .error (badDescriptor
      ("tag " ++ Quoted.string (Markup.Element.field "name" es) ++ ": " ++ message))
  | .ok d =>
    if l.hasTag d.name then
      .error (badDescriptor ("tag " ++ Quoted.string d.name ++ " defined twice"))
    else .ok { l with tags := l.tags ++ [(d.name, d)] }

/-- The library with a tag file added. -/
def addTagFile (l : TagLibrary) (es : List Markup.Element) : Except Fault TagLibrary :=
  let name := entry es "name"
  let path := Markup.Element.field "path" es
  if name == [] || l.hasTag name then
    .error (badDescriptor
      ("tag file " ++ Quoted.string path ++ " has no name or is defined twice"))
  else .ok { l with tagFiles := l.tagFiles ++ [(name, path.trimSpace)] }

/-- The library with a function added; a later one replaces one of the same name. -/
def addFunction (l : TagLibrary) (es : List Markup.Element) : Except Fault TagLibrary :=
  let name := entry es "name"
  let signature := entry es "function-signature"
  if name == [] || signature == [] then
    .error (badDescriptor ("function " ++ Quoted.string name ++ " needs a name and a signature"))
  else
    let f : LibraryFunction := ⟨name, entry es "function-class", functionOf signature, signature⟩
    .ok { l with functions := l.functions.filter (·.1 != name) ++ [(name, f)] }

/-- The library described by a document. -/
def ofDocument (document : Bytes) : Except Fault TagLibrary := do
  let es ← (Markup.contentOf "taglib" document).mapError fun message =>
    badDescriptor ("decode descriptor: " ++ message)
  let l : TagLibrary := {
    uri := entry es "uri", shortName := entry es "short-name", version := entry es "tlib-version" }
  let l ← (Markup.Element.named "tag" es).foldlM addTag l
  let l ← (Markup.Element.named "tag-file" es).foldlM addTagFile l
  (Markup.Element.named "function" es).foldlM addFunction l

end TagLibrary

end ServerPages
