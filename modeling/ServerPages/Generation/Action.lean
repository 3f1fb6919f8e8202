import ServerPages.Generation.Value

/-!
# Standard actions as code
-/

namespace ServerPages.Generation

/-- The expression of an attribute of a standard action, given inline or by a named attribute. An
attribute that is not given has the zero value of the type. -/
def actionValue (inner : Body) (n : Node) (name type : Bytes) : Gen Bytes := do
  match n.head.attr? name, n.children.find? (·.givesAttribute name) with
  | some a, _ => valueCode inner [] a none type
  | none, some c =>
    valueCode inner []
      { name := name, localName := name, kind := .named, position := c.start } (some c) type
  | none, none => return if type == "string" then "\"\"" else "nil"

/-- The entries of a parameter list. -/
def paramEntries (inner : Body) : List Node → Gen (List Bytes)
  | [] => return []
  | n :: ns => do
    if n.kind != .param then paramEntries inner ns
    else
      let name ← actionValue inner n "name" "string"
      let value ← actionValue inner n "value" "string"
      let rest ← paramEntries inner ns
      return ("\x7bName: " ++ name ++ ", Value: " ++ value ++ "\x7d") :: rest

/-- The parameter list of the parameters among some nodes. -/
def params (inner : Body) (ns : List Node) : Gen Bytes := do
  let entries ← paramEntries inner ns
  return if entries.isEmpty then "nil"
    else "rt.Params\x7b" ++ Bytes.join ", " entries ++ "\x7d"

/-- Includes another page. -/
def includeAction (inner : Body) (n : Node) : Gen Unit := do
  let page ← actionValue inner n "page" "string"
  let params ← params inner n.children
  let flush := n.head.attrValue "flush" == "true"
  check ("pc.Include(" ++ page ++ ", " ++ Bytes.ofBool flush ++ ", " ++ params ++ ")")

/-- Passes the request on and ends the unit. -/
def forwardAction (inner : Body) (n : Node) : Gen Unit := do
  let page ← actionValue inner n "page" "string"
  let params ← params inner n.children
  check ("pc.Forward(" ++ page ++ ", " ++ params ++ ")")
  emit "return rt.ErrSkipPage"

/-- A value, or another one if it is empty. -/
def orElse (value other : Bytes) : Bytes := if value == [] then other else value

/-- The function that makes a bean of a type. -/
def constructor (inner : Body) (n : Node) (type : Bytes) : Gen Bytes := do
  let opening := "func() (" ++ type ++ ", error) \x7b return "
  if n.head.attrValue "beanName" != [] then
    let name ← actionValue inner n "beanName" "string"
    return opening ++ "rt.Instantiate[" ++ type ++ "](pc, " ++ name ++ ") \x7d"
  else if n.head.attrValue "class" != [] then
    return opening ++ "&" ++ n.head.attrValue "class" ++ "\x7b\x7d, nil \x7d"
  else return "nil"

/-- Declares a bean for the rest of the unit; its body runs only when the bean is made. -/
def useBean (inner : Body) (n : Node) : Gen Unit := do
  let id := n.head.attrValue "id"
  let type := orElse (n.head.attrValue "type") ("*" ++ n.head.attrValue "class")
  let constructor ← constructor inner n type
  if !(← get).place.blocks.isVisible id then
    emit ("var " ++ id ++ " " ++ type)
    emit ("_ = " ++ id)
    declare id
  let hasBody := !n.hasEmptyBody
  let v ← temporary
  let created : Bytes := if hasBody then v ++ "_created" else "_"
  openBlock "\x7b"
  emit (v ++ ", " ++ created ++ ", err := rt.UseBean[" ++ type ++ "](pc, " ++ Quoted.string id ++
    ", " ++ Quoted.string (orElse (n.head.attrValue "scope") "page") ++ ", " ++ constructor ++ ")")
  checkErr
  emit (id ++ " = " ++ v)
  if hasBody then
    openBlock ("if " ++ created ++ " \x7b")
    inBlock (inner n.content)
    closeBlock "\x7d"
  closeBlock "\x7d"

/-- Sets a property of a bean, or all of them, from a value or the request. -/
def setProperty (inner : Body) (n : Node) : Gen Unit := do
  let name := Quoted.string (n.head.attrValue "name")
  let property := n.head.attrValue "property"
  if property == "*" then check ("rt.SetPropertiesFromRequest(pc, " ++ name ++ ")")
  else if n.head.hasAttr "value" || n.children.any (·.givesAttribute "value") then
    let value ← actionValue inner n "value" "any"
    check ("rt.SetProperty(pc, " ++ name ++ ", " ++ Quoted.string property ++ ", " ++ value ++ ")")
  else
    check ("rt.SetPropertyFromParam(pc, " ++ name ++ ", " ++ Quoted.string property ++ ", " ++
      Quoted.string (orElse (n.head.attrValue "param") property) ++ ")")

mutual

/-- The text of a node, looking through text actions. -/
def plainText : Node → Bytes
  | .mk h cs => match h.kind with
    | .text => h.text
    | .textAction => plainTextAll cs
    | _ => []

/-- The text of some nodes, looking through text actions. -/
def plainTextAll : List Node → Bytes
  | [] => []
  | n :: ns => plainText n ++ plainTextAll ns

end

/-- The attributes of an applet as entries of a map. -/
def pluginEntries (inner : Body) : List Attribute → Gen (List Bytes)
  | [] => return []
  | a :: as => do
    let v ← valueCode inner [] a none "string"
    let rest ← pluginEntries inner as
    return (Quoted.string a.name ++ ": " ++ v) :: rest

/-- The parameters of an applet, of which the last list counts. -/
def pluginParams (inner : Body) : Bytes → List Node → Gen Bytes
  | found, [] => return found
  | found, n :: ns => do
    if n.kind == .params then pluginParams inner (← params inner n.children) ns
    else pluginParams inner found ns

/-- Embeds an applet. -/
def plugin (inner : Body) (n : Node) : Gen Unit := do
  let entries ← pluginEntries inner n.head.attributes
  let params ← pluginParams inner "nil" n.children
  let fallback := ((n.children.filter (·.kind == .fallback)).getLast?.map
    fun c => plainTextAll c.children).getD []
  openBlock "if err := rt.WritePlugin(pc, rt.Plugin\x7b"
  emit ("Attrs: map[string]string\x7b" ++ Bytes.join ", " (Bytes.sort entries) ++ "\x7d,")
  emit ("Params: " ++ params ++ ",")
  emit ("Fallback: " ++ Quoted.string fallback ++ ",")
  outdent
  returning "\x7d); err != nil \x7b"

/-- Evaluates a fragment or the body passed to a tag file. -/
def invoke (env : Env) (n : Node) : Gen Unit := do
  match env.page.tag with
  | none => throw (.broken ("gen: " ++ n.kind.name ++ " outside a tag file at " ++ n.start.text))
  | some tag =>
    let h := n.head
    let fragment : Bytes := if n.kind == .invokeAction then fieldName (h.attrValue "fragment")
      else "JspBody()"
    let (mode, name) : Bytes × Bytes :=
      if h.attrValue "var" != [] then ("var", h.attrValue "var")
      else if h.attrValue "varReader" != [] then ("varReader", h.attrValue "varReader")
      else ([], [])
    if !tag.vars.isEmpty then emit (env.receiver ++ ".syncBegin(pc)")
    check ("rt.Invoke(pc, " ++ env.receiver ++ "." ++ fragment ++ ", " ++ Quoted.string mode ++
      ", " ++ Quoted.string name ++ ", " ++
      Quoted.string (orElse (h.attrValue "scope") "page") ++ ")")

/-- Generates a standard action. -/
def action (env : Env) (inner : Body) (n : Node) : Gen Unit :=
  marking n.head.number do
    match n.kind with
    | .includeAction => includeAction inner n
    | .forwardAction => forwardAction inner n
    | .useBean => useBean inner n
    | .getProperty =>
      check ("rt.WriteProperty(pc, " ++ Quoted.string (n.head.attrValue "name") ++ ", " ++
        Quoted.string (n.head.attrValue "property") ++ ")")
    | .setProperty => setProperty inner n
    | .plugin => plugin inner n
    | _ => invoke env n

end ServerPages.Generation
