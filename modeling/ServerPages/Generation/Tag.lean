import ServerPages.Generation.Value

/-!
# Invocations of tags as code

An invocation runs in a closure whose deferred function releases the handler and pops the buffers
pushed for it, whichever way the closure ends. An invocation without code of the page and without
scripting variables inside becomes a method of the unit instead.

The scripting variables of an invocation that are visible already are saved around it when it is
nested in another tag.
-/

namespace ServerPages.Generation

/-! ### Names -/

/-- The pool of an invocation: handlers are only used again with the same attributes. -/
def poolName (t : CustomTag) (attributes : List Attribute) : Bytes :=
  Bytes.join "_" (("_pool" : Bytes) :: identifier t.prefixName :: identifier t.localName ::
    Bytes.sort (attributes.map fun a => identifier a.name))

/-- Chooses the identifiers of an invocation. -/
def assignNames (env : Env) (h : Head) (t : CustomTag) (d : TagDescriptor) : Gen HandlerNames := do
  let base := identifier t.prefixName ++ "_" ++ identifier t.localName ++ "_" ++
    Bytes.ofNat (← nextNumber)
  let pooled := env.options.poolTagHandlers && d.isClassic
  let pool := if pooled then poolName t h.attributes else []
  if pooled && !(← get).pools.contains pool then
    modify fun s => { s with pools := s.pools ++ [pool] }
    let _ ← qualified d.package d.typeName
  let names : HandlerNames := {
    handler := "_th_" ++ base, pool := pool, eval := "_ev_" ++ base, push := "_pb_" ++ base }
  modify fun s => { s with names := (h.number, names) :: s.names }
  return names

/-! ### Scripting variables -/

/-- The variable that keeps the outer value of a scripting variable during an invocation at a
nesting level. -/
def saveSlot (name : Bytes) (level : Nat) : Bytes := "_" ++ name ++ "_" ++ Bytes.ofNat level

/-- The value of a scripting variable in the page context. -/
def variableValue (v : VariableBinding) : Bytes :=
  "rt.Attr[" ++ v.valueType ++ "](pc, " ++ Quoted.string v.name ++ ")"

/-- Declares a variable that is seen outside the body of its tag, unless it is visible. A visible
one that the tag sets from its start is saved if the tag is nested; then its name is given. -/
def declareVariable (nesting : Nat) (v : VariableBinding) : Gen (Option Bytes) := do
  if v.scope == .nested then return none
  let blocks := (← get).place.blocks
  if blocks.isVisible v.name then
    if v.scope == .atBegin && 0 < nesting then
      let slot := saveSlot v.name nesting
      if blocks.isLocal slot then emit (slot ++ " = " ++ v.name)
      else
        emit (slot ++ " := " ++ v.name)
        declare slot
      return some v.name
    return none
  if v.declare then
    emit ("var " ++ v.name ++ " " ++ v.valueType)
    emit ("_ = " ++ v.name)
    declare v.name
  return none

/-- Declares the variables seen outside the body of a tag, and gives the names of those saved. -/
def declareVariables (t : CustomTag) : Gen (List Bytes) := do
  return (← t.vars.mapM (declareVariable t.nesting)).filterMap id

/-- Sets the variables seen only in the body of a tag, declaring those that are not declared in its
block. -/
def declareNested (t : CustomTag) : Gen Unit :=
  (t.vars.filter (·.scope == .nested)).forM fun v => do
    if v.declare && !(← get).place.blocks.isLocal v.name then
      emit (v.name ++ " := " ++ variableValue v)
      emit ("_ = " ++ v.name)
      declare v.name
    else emit (v.name ++ " = " ++ variableValue v)

/-- Sets the variables of some scopes. -/
def syncVariables (t : CustomTag) (scopes : List VariableScope) : Gen Unit :=
  (t.vars.filter fun v => scopes.contains v.scope).forM fun v =>
    emit (v.name ++ " = " ++ variableValue v)

/-! ### Attributes -/

/-- Passes an attribute to a handler. -/
def passAttribute (inner : Body) (handler : Bytes) (n : Node) (a : Attribute) : Gen Unit := do
  if a.setter.method == [] then
    throw (.broken ("gen: attribute " ++ a.name ++ " of " ++ n.head.name ++ " at " ++
      a.position.text ++ " is not bound"))
  let named := a.child.bind (n.children[·]?)
  if a.kind == .named && named.any (·.head.attrValue "omit" == ("true" : Bytes)) then return
  let value ← valueCode inner handler a named a.setter.valueType
  if a.setter.dynamic then
    check (handler ++ "." ++ a.setter.method ++ "(" ++ Quoted.string a.uri ++ ", " ++
      Quoted.string a.localName ++ ", " ++ value ++ ")")
  else emit (handler ++ "." ++ a.setter.method ++ "(" ++ value ++ ")")

/-- Passes the attributes of an invocation to its handler. -/
def passAttributes (inner : Body) (handler : Bytes) (n : Node) : Gen Unit :=
  n.head.attributes.forM (passAttribute inner handler n)

/-! ### Lifecycles -/

/-- What is generated for the body of a classic tag. -/
structure BodyPlan where
  /-- The body is evaluated. -/
  evaluated : Bool
  /-- The handler may buffer it. -/
  buffered : Bool
  /-- The handler may evaluate it again. -/
  repeated : Bool

/-- What is generated for the body of a classic tag. -/
def bodyPlan (d : TagDescriptor) (n : Node) : BodyPlan :=
  let evaluated := d.body != .empty && !n.hasEmptyBody
  ⟨evaluated, evaluated && d.bufferedBody, evaluated && (d.iteration || d.bufferedBody)⟩

/-- Writes the deferred function of a classic tag. -/
def deferred (env : Env) (d : TagDescriptor) (names : HandlerNames) (buffered : Bool) :
    Gen Unit := do
  openBlock "defer func() \x7b"
  if buffered then
    openBlock ("for ; " ++ names.push ++ " > 0; " ++ names.push ++ "-- \x7b")
    emit "pc.PopBody()"
    closeBlock "\x7d"
  if d.tryCatchFinally then
    openBlock "if err != nil && !rt.IsSkipPage(err) \x7b"
    emit ("err = " ++ names.handler ++ ".DoCatch(err)")
    closeBlock "\x7d"
    emit (names.handler ++ ".DoFinally()")
  emit (if names.pool != [] then
      env.receiver ++ "." ++ names.pool ++ ".Put(" ++ names.handler ++ ")"
    else names.handler ++ ".Release()")
  closeBlock "\x7d()"

/-- Writes one evaluation of the body of a classic tag, after which the handler may ask for another
one. -/
def bodyRound (inner : Body) (t : CustomTag) (names : HandlerNames) (repeated : Bool) (n : Node) :
    Gen Unit := do
  declareNested t
  syncVariables t [.atBegin]
  inner n.content
  if repeated then
    let again := "_ag_" ++ names.handler.dropStart "_th_"
    emit (again ++ ", err := " ++ names.handler ++ ".DoAfterBody()")
    checkErr
    openBlock ("if " ++ again ++ " != rt.EvalBodyAgain \x7b")
    emit "break"
    closeBlock "\x7d"

/-- Writes the body of a classic tag. -/
def classicBody (inner : Body) (t : CustomTag) (names : HandlerNames) (plan : BodyPlan)
    (n : Node) : Gen Unit := do
  openBlock ("if " ++ names.eval ++ " != rt.SkipBody \x7b")
  inBlock do
    if plan.buffered then
      openBlock ("if " ++ names.eval ++ " == rt.EvalBodyBuffered \x7b")
      emit (names.handler ++ ".SetBodyContent(pc.PushBody())")
      emit (names.push ++ "++")
      check (names.handler ++ ".DoInitBody()")
      closeBlock "\x7d"
    if plan.repeated then
      openBlock "for \x7b"
      inBlock (bodyRound inner t names true n)
      closeBlock "\x7d"
    else bodyRound inner t names false n
    if plan.buffered then
      openBlock ("if " ++ names.eval ++ " == rt.EvalBodyBuffered \x7b")
      emit "pc.PopBody()"
      emit (names.push ++ "--")
      closeBlock "\x7d"
  closeBlock "\x7d"

/-- Writes the calls of a classic tag from its start on. -/
def classicCalls (inner : Body) (t : CustomTag) (names : HandlerNames) (plan : BodyPlan)
    (n : Node) : Gen Unit := do
  emit (names.eval ++ ", err := " ++ names.handler ++ ".DoStartTag()")
  checkErr
  syncVariables t [.atBegin]
  if plan.evaluated then classicBody inner t names plan n
  emit (names.eval ++ ", err = " ++ names.handler ++ ".DoEndTag()")
  checkErr
  syncVariables t [.atBegin, .atEnd]
  openBlock ("if " ++ names.eval ++ " == rt.SkipPage \x7b")
  emit "return rt.ErrSkipPage"
  closeBlock "\x7d"
  emit "return nil"

/-- Writes the statements that run a classic tag. -/
def classic (env : Env) (inner : Body) (t : CustomTag) (d : TagDescriptor) (names : HandlerNames)
    (n : Node) : Gen Unit := do
  let h := names.handler
  let type ← qualified d.package d.typeName
  emit (if names.pool != [] then
      h ++ " := " ++ env.receiver ++ "." ++ names.pool ++ ".Get(func() rt.Tag \x7b return &" ++
        type ++ "\x7b\x7d \x7d).(*" ++ type ++ ")"
    else h ++ " := &" ++ type ++ "\x7b\x7d")
  emit (h ++ ".SetPageContext(pc)")
  emit (h ++ ".SetParent(" ++ (← parentHandler) ++ ")")
  let plan := bodyPlan d n
  if plan.buffered then emit (names.push ++ " := 0")
  deferred env d names plan.buffered
  passAttributes inner h n
  insideTag h (classicCalls inner t names plan n)

/-- Writes the statements that run a simple tag. -/
def simple (inner : Body) (t : CustomTag) (d : TagDescriptor) (names : HandlerNames) (n : Node) :
    Gen Unit := do
  let h := names.handler
  emit (h ++ " := &" ++ (← qualified d.package d.typeName) ++ "\x7b\x7d")
  emit (h ++ ".SetJspContext(pc)")
  emit (h ++ ".SetParent(" ++ (← parentHandler) ++ ")")
  passAttributes inner h n
  if d.body != .empty && !n.hasEmptyBody then
    let id ← fragment inner n.content
    emit (h ++ ".SetJspBody(" ++ fragmentCode h id ++ ")")
  check (h ++ ".DoTag()")
  syncVariables t [.atBegin, .atEnd]
  emit "return nil"

/-- Writes the statements that run a tag. -/
def invocation (env : Env) (inner : Body) (t : CustomTag) (d : TagDescriptor)
    (names : HandlerNames) (n : Node) : Gen Unit :=
  if d.isClassic then classic env inner t d names n else simple inner t d names n

/-! ### Placement -/

/-- Whether an invocation may run outside the function it stands in. -/
def isHoistable (h : Head) (t : CustomTag) : Bool :=
  h.info.scriptless && !h.info.hasVariables && !h.info.hasBean && t.vars.isEmpty

/-- Writes an invocation as a method, and the call of the method. -/
def hoisted (env : Env) (node : Nat) (run : Gen Unit) : Gen Unit := do
  let name := "tag" ++ Bytes.ofNat (← nextNumber)
  check (env.receiver ++ "." ++ name ++ "(pc, frags, " ++ (← parentHandler) ++ ")")
  let w ← asMethod {} (marking node do
    openBlock ("func (" ++ env.receiver ++ " *" ++ env.typeName ++ ") " ++ name ++
      "(pc *rt.PageContext, frags *" ++ env.fragmentType ++ ", parent rt.Tag) (err error) \x7b")
    run
    closeBlock "\x7d")
  modify fun s =>
    let methods := if s.methods.isEmpty then s.methods else s.methods.println []
    let (methods, spans) := methods.splice w s.spans
    { s with methods := methods, spans := spans, hoistedCount := s.hoistedCount + 1 }

/-- Writes an invocation as a closure in place. -/
def inlined (t : CustomTag) (node : Nat) (run : Gen Unit) : Gen Unit :=
  marking node do
    let saved ← declareVariables t
    openBlock "if err := func() (err error) \x7b"
    inBlock run
    outdent
    returning "\x7d(); err != nil \x7b"
    emitAll (saved.map fun name => name ++ " = " ++ saveSlot name t.nesting)

/-- Generates an invocation of a tag. -/
def customTag (env : Env) (inner : Body) (n : Node) : Gen Unit := do
  let h := n.head
  match h.tag, h.tag.bind (·.descriptor) with
  | some t, some d =>
    let names ← assignNames env h t d
    let run := invocation env inner t d names n
    if isHoistable h t then hoisted env h.number run else inlined t h.number run
  | _, _ =>
    throw (.broken ("gen: custom tag " ++ h.name ++ " at " ++ h.start.text ++
      " has no descriptor"))

end ServerPages.Generation
