import ServerPages.Generation.Action
import ServerPages.Generation.Tag

/-!
# The code of a unit

A page becomes a type that renders it, a tag file a handler type with a setter per attribute. The
file is put together from the parts that generation collected: imports, declarations of the page,
constants, expressions, the type, the render method, the methods of tags and the type that
evaluates fragments.

`Node.generate` also fills in the lines and the identifiers of the nodes.
-/

namespace ServerPages.Generation

/-! ### Nodes -/

/-- Writes a piece of literal text. -/
def writeString (env : Env) (s : Bytes) : Gen Unit := do
  let code ← if env.options.poolLiteralText then textConstant s else pure (Quoted.string s)
  emit ("pc.Out().WriteString(" ++ code ++ ")")

/-- The pieces in which a text is written: lines, and chunks of long lines. -/
def textPieces (size : Nat) (s : Bytes) : List Bytes := s.splitLines.flatMap (chunks size)

/-- Writes literal text, unless it is blank and blank text is dropped. -/
def text (env : Env) (node : Nat) (s : Bytes) : Gen Unit := do
  if s == [] || (env.page.trimSpaces && s.trimSpace == []) then return
  marking node ((textPieces env.chunkSize s).forM (writeString env))

/-- The lines of a declaration. -/
def declarationLines (code : Bytes) : List Bytes :=
  (code.trimSpace.splitOnByte 10).map (Bytes.trimRight (· == 13))

/-- Adds a declaration of the page. -/
def declaration (node : Nat) (code : Bytes) : Gen Unit :=
  modify fun s =>
    let (w, spans) := s.declarations.begin node s.spans
    let w := (declarationLines code).foldl Writer.println w
    { s with declarations := w, spans := w.finish node spans }

/-- The lines of a scriptlet. -/
def scriptletLines (code : Bytes) : List Bytes :=
  ((code.splitOnByte 10).map (·.trimSpace)).filter (· != [])

/-- Generates a node. -/
def visit (env : Env) (inner : Body) (n : Node) : Gen Unit := do
  let h := n.head
  match h.kind with
  | .root => throw (.broken ("gen: nested root node at " ++ h.start.text))
  | .text => text env h.number h.text
  | .textAction | .body | .includeDirective => inner n.children
  | .pageDirective | .taglibDirective | .tagDirective | .attributeDirective
  | .variableDirective => pure ()
  | .params | .param | .fallback | .namedAttribute => pure ()
  | .declaration => declaration h.number h.text
  | .scriptlet => marking h.number (emitAll (scriptletLines h.text))
  | .expression =>
    marking h.number (emit ("pc.Out().Print(" ++ h.text.trimSpace ++ ")"))
  | .elExpression =>
    marking h.number (do check ("rt.WriteEL(pc, " ++ (← expressionName h.text) ++ ")"))
  | .customTag => customTag env inner n
  | _ => action env inner n

/-- Generates nodes, which nest no deeper than the fuel. -/
def body (env : Env) : Nat → Body
  | 0, _ => throw .crash
  | fuel + 1, ns => ns.forM (visit env (body env fuel))

/-! ### Parts of the file -/

/-- Writes a blank line. -/
def blank : Gen Unit := emit []

/-- Writes lines inside a block of their own. -/
def block (opening : Bytes) (lines : List Bytes) (closing : Bytes) : Gen Unit := do
  openBlock opening
  emitAll lines
  closeBlock closing

/-- The entries of the map of functions that expressions call, and the imports with the packages of
the functions. -/
def functionEntries (s : Imports) :
    List (Expression.FunctionRef × LibraryFunction) → List Bytes × Imports
  | [] => ([], s)
  | (f, fn) :: rest =>
    let (target, s) := s.qualified fn.package fn.function
    let (entries, s) := functionEntries s rest
    ((Quoted.string f.text ++ ": " ++ target ++ ",") :: entries, s)

/-- The entries of the map of functions of the unit, and its imports with their packages. -/
def Env.functions (env : Env) (s : Imports) : List Bytes × Imports :=
  functionEntries s (env.options.order.walk env.page.functions)

/-- Writes the constants of literal text. -/
def writeTexts : Gen Unit := do
  let texts := (← get).texts
  if !texts.isEmpty then
    block "const (" (texts.mapIdx fun i s => textName i ++ " = " ++ Quoted.string s) ")"
    blank

/-- Writes the map of functions. -/
def writeFunctions (entries : List Bytes) : Gen Unit := do
  if !entries.isEmpty then
    block "var _fns = rt.FuncMap\x7b" (Bytes.sort entries) "\x7d"
    blank

/-- Writes the variables of expressions. -/
def writeExpressions (env : Env) : Gen Unit := do
  let expressions := (← get).expressions
  let fns : Bytes := if env.page.functions.isEmpty then "nil" else "_fns"
  if !expressions.isEmpty then
    block "var (" (expressions.mapIdx fun i s =>
      "_el" ++ Bytes.ofNat i ++ " = rt.MustParseEL(" ++ Quoted.string s ++ ", " ++ fns ++ ")") ")"
    blank

/-- Writes the type of the unit with some fields and one field per handler pool. -/
def structType (env : Env) (fields : List Bytes) : Gen Unit := do
  let fields := fields ++ (← get).pools.map (fun (p : Bytes) => p ++ " rt.TagPool")
  if fields.isEmpty then emit ("type " ++ env.typeName ++ " struct\x7b\x7d")
  else block ("type " ++ env.typeName ++ " struct \x7b") fields "\x7d"

/-- Writes a method of the unit. -/
def method (receiver type signature : Bytes) (code : Gen Unit) : Gen Unit := do
  openBlock ("func (" ++ receiver ++ " *" ++ type ++ ") " ++ signature ++ " \x7b")
  code
  closeBlock "\x7d"

/-- Writes the type of a page. -/
def pageType (env : Env) : Gen Unit := do
  let p := env.page
  emit ("// " ++ env.typeName ++ " renders " ++ env.file ++ ".")
  structType env []
  blank
  method "p" env.typeName "PageInfo() rt.PageInfo" do
    block "return rt.PageInfo\x7b" [
      "ContentType: " ++ Quoted.string p.contentType ++ ",",
      "PageEncoding: " ++ Quoted.string p.pageEncoding ++ ",",
      "Buffer: " ++ Bytes.ofInt p.buffer ++ ",",
      "AutoFlush: " ++ Bytes.ofBool p.autoFlush ++ ",",
      "Session: " ++ Bytes.ofBool p.session ++ ",",
      "ErrorPage: " ++ Quoted.string p.errorPage ++ ",",
      "IsErrorPage: " ++ Bytes.ofBool p.isErrorPage ++ ",",
      "Info: " ++ Quoted.string p.info ++ ","] "\x7d"
  blank
  emit "// Render writes the page to pc."
  method "p" env.typeName "Render(pc *rt.PageContext) error" do
    emit ("frags := &" ++ env.fragmentType ++ "\x7bp: p\x7d")
    returning "if err := p.render(pc, frags); err != nil && !rt.IsSkipPage(err) \x7b"
    emit "return nil"
  blank

/-- The type of the field of an attribute of a tag file. -/
def fieldType (a : AttributeSignature) : Bytes :=
  if a.fragment then Setter.fragmentType else a.valueType

/-- The field that holds attributes that are not declared. -/
def dynamicField : Bytes := "dynamicAttrs"

/-- Writes the setter of an attribute of a tag file. -/
def setterMethod (env : Env) (a : AttributeSignature) : Gen Unit := do
  method "t" env.typeName
    ("Set" ++ Setter.exported a.name ++ "(v " ++ fieldType a ++ ")")
    (emit ("t." ++ fieldName a.name ++ " = v"))
  blank

/-- Writes the method of a tag file that takes attributes that are not declared. -/
def dynamicMethod (env : Env) : Gen Unit := do
  emit ("// " ++ Setter.dynamicMethod ++ " implements rt.DynamicAttributes.")
  method "t" env.typeName (Setter.dynamicMethod ++ "(uri, name string, v any) error") do
    block ("if t." ++ dynamicField ++ " == nil \x7b")
      ["t." ++ dynamicField ++ " = map[string]any\x7b\x7d"] "\x7d"
    emit ("t." ++ dynamicField ++ "[name] = v")
    emit "return nil"
  blank

/-- A variable of a tag file copied to the calling page. -/
def exportLine (v : TagFileVariable) : Bytes :=
  let d := v.declaration
  if d.fromAttribute != [] then
    "pc.Export(t." ++ fieldName d.fromAttribute ++ ", " ++ Quoted.string v.alias ++ ")"
  else "pc.Export(" ++ Quoted.string d.given ++ ", " ++ Quoted.string d.given ++ ")"

/-- Writes a method of a tag file that copies the variables of some scopes to the calling page. -/
def syncMethod (env : Env) (tag : TagInfo) (name doc : Bytes) (scopes : List VariableScope) :
    Gen Unit := do
  emit ("// " ++ name ++ " " ++ doc)
  method "t" env.typeName (name ++ "(pc *rt.PageContext)") (emitAll
    ((tag.vars.filter fun v => scopes.contains v.declaration.scope).map exportLine))
  blank

/-- Writes the method that runs a tag file. -/
def doTagMethod (env : Env) (tag : TagInfo) : Gen Unit := do
  emit "// DoTag implements rt.SimpleTag."
  method "t" env.typeName "DoTag() error" do
    emit "pc := rt.NewTagContext(t.JspContext())"
    emit ("frags := &" ++ env.fragmentType ++ "\x7bp: t\x7d")
    emitAll (tag.attributes.map fun a =>
      "pc.SetAttribute(" ++ Quoted.string a.name ++ ", t." ++ fieldName a.name ++ ")")
    if tag.dynamicAttributes != [] then
      emit ("pc.SetAttribute(" ++ Quoted.string tag.dynamicAttributes ++ ", t." ++ dynamicField ++
        ")")
    if tag.vars.isEmpty then emit "return t.render(pc, frags)"
    else emitAll ["err := t.render(pc, frags)", "t.syncEnd(pc)", "return err"]
  blank

/-- Writes the handler type of a tag file. -/
def tagFileType (env : Env) (tag : TagInfo) : Gen Unit := do
  let fields := tag.attributes.map (fun a => fieldName a.name ++ " " ++ fieldType a) ++
    (if tag.dynamicAttributes == [] then [] else [dynamicField ++ " map[string]any"])
  emit ("// " ++ env.typeName ++ " implements the tag file " ++ env.file ++ ".")
  structType env ("rt.SimpleTagSupport" :: fields)
  blank
  tag.attributes.forM (setterMethod env)
  if tag.dynamicAttributes != [] then dynamicMethod env
  doTagMethod env tag
  if !tag.vars.isEmpty then
    syncMethod env tag "syncBegin" "copies the NESTED and AT_BEGIN variables to the calling page."
      [.nested, .atBegin]
    syncMethod env tag "syncEnd" "copies the AT_BEGIN and AT_END variables to the calling page."
      [.atBegin, .atEnd]

/-- Writes the type that evaluates fragments by number. -/
def fragmentHelper (env : Env) (fragments : Writer) : Gen Unit := do
  emit ("// " ++ env.fragmentType ++ " evaluates the fragment bodies of " ++ env.typeName ++ ".")
  block ("type " ++ env.fragmentType ++ " struct \x7b") ["p *" ++ env.typeName] "\x7d"
  blank
  emit "// Invoke implements rt.FragmentHelper."
  method "f" env.fragmentType "Invoke(pc *rt.PageContext, id int, parent rt.Tag) error" do
    if !fragments.isEmpty then
      emit (env.receiver ++ ", frags := f.p, f")
      emit ("_, _ = " ++ env.receiver ++ ", frags")
      emit "switch id \x7b"
      spliceIn fragments
      emit "\x7d"
    emit "return rt.UnknownFragment(id)"

/-- Puts the file together; the current writer holds the body of the render method. -/
def assemble (env : Env) : Gen Unit := do
  let render := (← get).place.out
  modify fun s => { s with place := { s.place with out := {} } }
  emit ("// Code generated by pagec from " ++ env.file ++ ". DO NOT EDIT.")
  blank
  emit ("package " ++ env.package)
  blank
  let s ← get
  block "import (" (env.functions s.imports).2.lines ")"
  blank
  if !s.declarations.isEmpty then
    spliceIn s.declarations
    blank
  writeTexts
  writeFunctions (env.functions s.imports).1
  writeExpressions env
  match env.page.tag with
  | some tag => tagFileType env tag
  | none => pageType env
  method env.receiver env.typeName
    ("render(pc *rt.PageContext, frags *" ++ env.fragmentType ++ ") error") do
    emit "_ = frags"
    spliceIn render
    emit "return nil"
  if !s.methods.isEmpty then
    blank
    spliceIn s.methods
  blank
  fragmentHelper env s.fragments

/-- Generates a unit whose nodes nest no deeper than `height`. -/
def unit (env : Env) (height : Nat) (children : List Node) : Gen Unit := do
  indent
  body env height children
  outdent
  assemble env

/-- The state that generation starts with. -/
def start (env : Env) : State where
  place := { parent := if env.page.tag.isSome then "t" else "nil" }
  imports := (env.page.imports.foldl Imports.ask {}).assign "rt" env.runtimeImport

end ServerPages.Generation

namespace ServerPages

namespace Node

mutual

/-- The length of the longest path from a node down. -/
def height : Node → Nat
  | mk _ cs => heightAll cs + 1

/-- The length of the longest path from one of some nodes down. -/
def heightAll : List Node → Nat
  | [] => 0
  | c :: cs => max (height c) (heightAll cs)

end

mutual

/-- The tree with its nodes numbered from `i` on, and the next number. -/
def numbered (i : Nat) : Node → Node × Nat
  | mk h cs =>
    let (cs, next) := numberedAll (i + 1) cs
    (mk { h with number := i } cs, next)

/-- The trees with their nodes numbered from `i` on, and the next number. -/
def numberedAll (i : Nat) : List Node → List Node × Nat
  | [] => ([], i)
  | c :: cs =>
    let (c, i) := numbered i c
    let (cs, i) := numberedAll i cs
    (c :: cs, i)

end

mutual

/-- The tree with a function applied to every head. -/
def mapHeads (f : Head → Head) : Node → Node
  | mk h cs => mk (f h) (mapHeadsAll f cs)

/-- The trees with a function applied to every head. -/
def mapHeadsAll (f : Head → Head) : List Node → List Node
  | [] => []
  | c :: cs => mapHeads f c :: mapHeadsAll f cs

end

end Node

/-- The code of a unit. -/
structure GeneratedUnit where
  /-- The code. -/
  source : Bytes
  /-- The name of the type. -/
  typeName : Bytes
  /-- The number of fragment bodies. -/
  fragments : Nat
  /-- The number of tags with a method of their own. -/
  hoisted : Nat
  /-- The tree with the lines and identifiers of its nodes. -/
  tree : Node

namespace Generation

/-- A head with the lines and identifiers that generation gave its node. -/
def annotate (s : State) (h : Head) : Head :=
  { h with
    lines := s.spans.get h.number,
    tag := h.tag.map fun t => { t with names := (s.names.lookup h.number).getD {} } }

end Generation

/-- Generates the code of a validated unit. -/
def Node.generate (options : Generation.Options) (root : Node) : Except Failure GeneratedUnit :=
  match root.head.unit, root.page? with
  | some u, some page =>
    let env : Generation.Env := ⟨options, u.file, page⟩
    let tree := (root.numbered 1).1
    match Generation.unit env tree.height tree.children (Generation.start env) with
    | .error e _ => .error e
    | .ok _ s => .ok {
        source := s.place.out.text, typeName := env.typeName, fragments := s.fragmentCount,
        hoisted := s.hoistedCount, tree := tree.mapHeads (Generation.annotate s) }
  | _, _ => .error (.broken "gen: unit was not validated")

end ServerPages
