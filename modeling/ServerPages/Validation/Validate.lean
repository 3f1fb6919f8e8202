import ServerPages.Validation.Directive
import ServerPages.Validation.Tag

/-!
# Validating a unit

A validation visits every node of a unit once, notes all problems and fills in what code generation
needs: the setters of attributes, the scripting variables of tags, what each subtree holds and what
the directives say.

The restriction to bodies without code is inherited by everything inside, whatever stands between.
The value of a named attribute belongs to the scope around its tag, unless it is a fragment.
-/

namespace ServerPages

namespace Validation

variable {σ : Type}

/-- What nested nodes inherit. -/
structure Scope where
  /-- The number of tags around. -/
  nesting : Nat := 0
  /-- Whether code is forbidden. -/
  scriptless : Bool := false
  deriving DecidableEq, Repr

/-- What two subtrees hold together. -/
def ChildInfo.merge (a b : ChildInfo) : ChildInfo where
  scriptless := a.scriptless && b.scriptless
  hasVariables := a.hasVariables || b.hasVariables
  hasBean := a.hasBean || b.hasBean
  hasInclude := a.hasInclude || b.hasInclude
  hasSetProperty := a.hasSetProperty || b.hasSetProperty

/-- What an empty subtree holds. -/
def emptyInfo : ChildInfo := { scriptless := true }

/-- Notes the attributes given as code where code is forbidden, and tells what attributes hold. -/
def attributeInfo (h : Head) (scope : Scope) : Validate σ ChildInfo := do
  let scripts := h.attributes.filter (·.kind == .script)
  scripts.forM fun a => do
    if scope.scriptless then
      report .scriptingNotAllowed a.position ("expression value of attribute " ++ a.name ++
        " is not allowed in a scriptless body")
  return { scriptless := scripts.isEmpty }

/-- Checks which class and type a bean has. -/
def checkBean (h : Head) : Validate σ Unit :=
  let hasClass := h.hasAttr "class"
  let hasType := h.hasAttr "type"
  let hasName := h.hasAttr "beanName"
  let bean := "jsp:useBean " ++ h.attrValue "id"
  if !hasClass && !hasType then
    report .missingAttribute h.start (bean ++ " needs class or type")
  else if hasClass && hasName then
    report .invalidDirectiveAttribute h.start (bean ++ ": class and beanName are exclusive")
  else if hasName && !hasType then
    report .missingAttribute h.start (bean ++ ": beanName needs type")
  else pure ()

/-- Checks an invocation of a fragment or of the body, which only tag files have. Directives may
follow it, so what it invokes is checked when all are known. -/
def checkInvocation (h : Head) : Validate σ Unit := do
  if (← get).page.tag.isNone then
    report .misplacedAction h.start (describe h ++ " is only allowed in tag files")
  else
    let hasVar := h.hasAttr "var"
    let hasReader := h.hasAttr "varReader"
    if hasVar && hasReader then
      report .invalidDirectiveAttribute h.start
        (describe h ++ ": var and varReader are exclusive")
    if h.hasAttr "scope" && !hasVar && !hasReader then
      report .invalidDirectiveAttribute h.start
        (describe h ++ ": scope needs var or varReader")
    modify fun s => { s with invocations := s.invocations ++ [h] }

/-- Checks a standard action, its body apart. -/
def checkAction (env : Env σ) (parent : Kind) (h : Head) (children : List Node) :
    Validate σ Unit := do
  let _ ← checkSignature env h children
  match h.kind with
  | .param =>
    if parent != .includeAction && parent != .forwardAction && parent != .params then
      report .misplacedAction h.start
        "jsp:param must be a child of jsp:include, jsp:forward or jsp:params"
  | .params | .fallback =>
    if parent != .plugin then
      report .misplacedAction h.start (describe h ++ " must be a child of jsp:plugin")
  | .useBean => checkBean h
  | .setProperty =>
    if h.hasAttr "param" && isSupplied h children "value" then
      report .invalidDirectiveAttribute h.start
        "jsp:setProperty: param and value are exclusive"
  | .invokeAction | .doBodyAction => checkInvocation h
  | _ => pure ()

/-- What a standard action adds to what is in its body. -/
def actionInfo (kind : Kind) (info : ChildInfo) : ChildInfo :=
  match kind with
  | .useBean => { info with hasBean := true }
  | .includeAction | .forwardAction => { info with hasInclude := true }
  | .setProperty => { info with hasSetProperty := true }
  | _ => info

/-- The scope of a child of a tag. -/
def childScope (d : TagDescriptor) (scope : Scope) (child : Head) : Scope :=
  { nesting := scope.nesting + 1,
    scriptless := scope.scriptless ||
      (if child.kind == .namedAttribute then (d.attribute? child.attributeName).any (·.fragment)
        else d.body == .scriptless) }

mutual

/-- Validates a node inside a node of kind `parent`: the node with its fields filled in, and what
its subtree holds. -/
def visit (env : Env σ) (parent : Kind) (scope : Scope) : Node → Validate σ (Node × ChildInfo)
  | .mk h cs => do
    match h.kind with
    | .declaration | .expression | .scriptlet =>
      if scope.scriptless then
        report .scriptingNotAllowed h.start
          (h.kind.name ++ " is not allowed in a scriptless body")
      return (.mk h cs, {})
    | .elExpression =>
      expression env h.el h.start
      return (.mk { h with info := emptyInfo } cs, emptyInfo)
    | .root | .text | .textAction =>
      let (cs, inner) ← visitAll env h.kind (fun _ => scope) cs
      let info := ChildInfo.merge inner (← attributeInfo h scope)
      return (.mk { h with info := info } cs, info)
    | .customTag =>
      let t := h.tag.getD ⟨[], [], [], none, false, 0, [], {}, {}⟩
      let d := t.descriptor.getD {}
      let h ← checkTag env t d scope.nesting h cs
      let (cs, inner) ← visitAll env h.kind (childScope d scope) cs
      let info := ChildInfo.merge inner (← attributeInfo h scope)
      let hasVariables := info.hasVariables || (h.tag.any fun t => !t.vars.isEmpty)
      return (.mk { h with info := info } cs, { info with hasVariables := hasVariables })
    | kind =>
      if kind.isDirective then
        directive env h cs
        let (cs, inner) ← visitAll env kind (fun _ => scope) cs
        let info := ChildInfo.merge inner (← attributeInfo h scope)
        return (.mk { h with info := info } cs, info)
      else
        checkAction env parent h cs
        let (cs, inner) ← visitAll env kind (fun _ => scope) cs
        let info := actionInfo kind (ChildInfo.merge inner (← attributeInfo h scope))
        return (.mk { h with info := info } cs, info)

/-- Validates the children of a node of kind `parent`, and tells what they hold together. -/
def visitAll (env : Env σ) (parent : Kind) (scopeOf : Head → Scope) :
    List Node → Validate σ (List Node × ChildInfo)
  | [] => return ([], emptyInfo)
  | .mk h ds :: cs => do
    let (c, info) ← visit env parent (scopeOf h) (.mk h ds)
    let (cs, more) ← visitAll env parent scopeOf cs
    return (c :: cs, ChildInfo.merge info more)

end

end Validation

/-- How a unit is validated. -/
structure ValidationOptions where
  /-- Chooses the setters of attributes. -/
  binder : Binder := Setter.byName
  /-- What happens when there are too many problems. -/
  overflow : OverflowPolicy := .noCap
  /-- How many problems are kept. -/
  maxErrors : Int := 0

/-- The outcome of a validation. -/
structure Validated (σ : Type) where
  /-- The tree with its fields filled in. -/
  tree : Node
  /-- The problems, if there are any. -/
  failure : Option Failure
  /-- What the surroundings remember. -/
  memory : σ

namespace Node

variable {σ : Type}

/-- Validates a unit. -/
def validate (library : Option (Bytes → σ → Except Fault TagLibrary × σ))
    (options : ValidationOptions) (memory : σ) (root : Node) : Validated σ :=
  match Collector.empty? options.overflow options.maxErrors with
  | .error f => ⟨root, some f, memory⟩
  | .ok problems =>
    let env : Validation.Env σ := ⟨library, options.binder⟩
    let isTagFile := root.head.unit.any (·.isTagFile)
    let page : PageInfo := { tag := if isTagFile then some { body := .scriptless } else none }
    let start : Validation.State σ := { problems := problems, page := page, memory := memory }
    let run : Validate σ Node := do
      let (n, _) ← Validation.visit env .root {} root
      Validation.finish root.head
      return n
    let (n, s) := run start
    ⟨n.setPage s.page, s.problems.fault?.map .fault, s.memory⟩

end Node

end ServerPages
