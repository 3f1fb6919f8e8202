import ServerPages.Validation.State

/-!
# Invocations of tags

The attributes of an invocation are checked against the contract of the tag, bound to setters and
collected as data for the tag's own checks. Values given by named attributes become attributes of
the invocation.
-/

namespace ServerPages.Validation

variable {σ : Type}

/-- An attribute that was checked: whether it is fine, how it is bound, and the data with it. -/
structure CheckedAttribute where
  /-- Whether the contract takes it. -/
  isFine : Bool
  /-- The attribute with its setter. -/
  bound : Attribute
  /-- The data so far. -/
  data : TagData

/-- The literal value that an attribute is known to have before the page runs. -/
def literalValue? (children : List Node) (a : Attribute) : Option Bytes :=
  match a.kind with
  | .literal => some a.value
  | .named => do
    let n ← children[← a.child]?
    let text ← n.literalText?
    return if n.head.trim then text.trimSpace else text
  | _ => none

/-- Checks an attribute of a tag and binds its setter. -/
def checkAttribute (env : Env σ) (d : TagDescriptor) (h : Head) (children : List Node)
    (data : TagData) (a : Attribute) : Validate σ CheckedAttribute := do
  let refused : CheckedAttribute := ⟨false, a, data⟩
  let sig := d.attribute? a.name
  let literal := literalValue? children a
  let fragment := sig.any (·.fragment)
  if sig.isNone && !d.dynamicAttributes then
    report .unknownAttribute a.position (describe h ++ " has no attribute " ++ a.name)
    return refused
  if literal.isNone && sig.any (fun s => !s.dynamic && !s.fragment) then
    report .runtimeValueNotAllowed a.position ("attribute " ++ a.name ++ " of " ++ describe h ++
      " does not accept runtime expressions")
    return refused
  match env.binder d a.name with
  | none =>
    report .unknownAttribute a.position (describe h ++ ": no setter for attribute " ++ a.name)
    return refused
  | some setter =>
    let data := match literal with
      | some value => if fragment then data.setRuntime a.name else data.set a.name value
      | none => data.setRuntime a.name
    if a.kind == .el then expression env a.el a.position
    return ⟨true, { a with setter := setter, fragment := fragment }, data⟩

/-- Checks the attributes that are given inline. -/
def checkInlineAttributes (env : Env σ) (d : TagDescriptor) (h : Head) (children : List Node) :
    TagData → List Attribute → Validate σ (List Attribute × TagData)
  | data, [] => return ([], data)
  | data, a :: as => do
    if a.kind == .named then
      let (rest, data) ← checkInlineAttributes env d h children data as
      return (a :: rest, data)
    else
      let c ← checkAttribute env d h children data a
      let (rest, data) ← checkInlineAttributes env d h children c.data as
      return (c.bound :: rest, data)

/-- Checks the named attribute with the number `i` among the children; the attributes of the tag
are those of `h`. -/
def checkNamedAttribute (env : Env σ) (d : TagDescriptor) (h : Head) (children : List Node)
    (data : TagData) (i : Nat) (n : Head) : Validate σ (Head × TagData) := do
  let name := n.attributeName
  match h.attr? name with
  | some a =>
    if a.kind == .named && a.child == some i then
      let c ← checkAttribute env d h children data a
      let attributes := h.attributes.map fun b => if b.name == name then c.bound else b
      return ({ h with attributes := attributes }, c.data)
    else
      let how : Bytes := if a.kind == .named then " is given twice with jsp:attribute"
        else " is given both inline and with jsp:attribute"
      report .duplicateNamedAttribute n.start ("attribute " ++ name ++ " of " ++ describe h ++ how)
      return (h, data)
  | none =>
    let a : Attribute := {
      name := name, localName := name, kind := .named, position := n.start, child := some i }
    let c ← checkAttribute env d h children data a
    return (if c.isFine then { h with attributes := h.attributes ++ [c.bound] } else h, c.data)

/-- Checks the named attributes among the children, the first of `ns` having the number `i`. -/
def checkNamedAttributes (env : Env σ) (d : TagDescriptor) (children : List Node) :
    Head → TagData → Nat → List Node → Validate σ (Head × TagData)
  | h, data, _, [] => return (h, data)
  | h, data, i, n :: ns => do
    if n.kind == .namedAttribute && n.head.attributeName != [] then
      let (h, data) ← checkNamedAttribute env d h children data i n.head
      checkNamedAttributes env d children h data (i + 1) ns
    else checkNamedAttributes env d children h data (i + 1) ns

/-- The scripting variables of an invocation; a problem is noted and gives none. -/
def checkVariables (d : TagDescriptor) (h : Head) (data : TagData) :
    Validate σ (List VariableBinding) := do
  match d.bindings data with
  | .ok vs => return vs
  | .error .conflict =>
    report .variableConflict h.start
      (describe h ++ " declares scripting variables and computes them per invocation")
    return []
  | .error e =>
    report .runtimeValueNotAllowed h.start (describe h ++ ": " ++ e.text)
    return []

/-- Checks an invocation of a tag, its body apart: the head with its attributes bound, its data and
its scripting variables. -/
def checkTag (env : Env σ) (t : CustomTag) (d : TagDescriptor) (nesting : Nat) (h : Head)
    (children : List Node) : Validate σ Head := do
  let (attributes, data) ← checkInlineAttributes env d h children {} h.attributes
  let (h, data) ←
    checkNamedAttributes env d children { h with attributes := attributes } data 0 children
  (d.attributes.filter fun sig => sig.required && !isSupplied h children sig.name).forM fun sig =>
    report .missingAttribute h.start (describe h ++ " requires attribute " ++ sig.name)
  if d.body == .empty && !Node.isBlankContent children then
    report .bodyNotEmpty h.start (describe h ++ " must have an empty body")
  match d.check.bind (· data) with
  | some message => report .tagValidation h.start (describe h ++ ": " ++ message)
  | none => pure ()
  let vars ← checkVariables d h data
  addPrefix t.prefixName t.uri
  return { h with
    tag := some { t with nesting := nesting, data := data, vars := vars } }

end ServerPages.Validation
