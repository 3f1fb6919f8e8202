import ServerPages.Diagnostics.Collector
import ServerPages.Parsing.State
import ServerPages.Text.Numeral
import ServerPages.Validation.Signature

/-!
# The state of a validation

Validation goes on after a problem: it collects all of them, merges the directives of the unit and
looks up the functions that expressions call.
-/

namespace ServerPages.Validation

/-- How a unit is validated. -/
structure Env (σ : Type) where
  /-- The tag library of a uri. -/
  library : Option (Bytes → σ → Except Fault TagLibrary × σ)
  /-- Chooses the setters of attributes. -/
  binder : Binder

/-- The first value given to an attribute of a directive. -/
structure FirstValue where
  /-- The value. -/
  value : Bytes
  /-- Where it was given. -/
  position : Position

/-- The state of a validation. -/
structure State (σ : Type) where
  /-- The problems found. -/
  problems : Collector
  /-- What the directives say so far. -/
  page : PageInfo
  /-- The first values of attributes of page and tag directives. -/
  firstValues : List ((Kind × Bytes) × FirstValue) := []
  /-- The names that a tag file declares, and where. -/
  declared : List (Bytes × Position) := []
  /-- The invocations of fragments and bodies in a tag file, in order. -/
  invocations : List Head := []
  /-- What the surroundings remember. -/
  memory : σ

end ServerPages.Validation

namespace ServerPages

/-- A step of a validation. -/
abbrev Validate (σ : Type) := StateM (Validation.State σ)

namespace Validation

variable {σ : Type}

/-- A node in messages. -/
def describe (h : Head) : Bytes :=
  if h.kind.isDirective then h.name ++ " directive"
  else if h.name != [] then h.name
  else h.kind.name

/-- Notes a problem at a position. -/
def report (issue : Issue) (p : Position) (message : Bytes) : Validate σ Unit :=
  modify fun s => { s with problems := s.problems.add ⟨issue, p, message⟩ }

/-- Changes what the directives say. -/
def setPage (f : PageInfo → PageInfo) : Validate σ Unit :=
  modify fun s => { s with page := f s.page }

/-- Changes the tag that a tag file implements. -/
def setTag (f : TagInfo → TagInfo) : Validate σ Unit :=
  setPage fun p => { p with tag := p.tag.map f }

/-- Binds a prefix to a uri, unless it is bound already. -/
def addPrefix (prefixName uri : Bytes) : Validate σ Unit :=
  setPage fun p =>
    if (p.prefixes.lookup prefixName).isSome then p
    else { p with prefixes := p.prefixes ++ [(prefixName, uri)] }

/-- Looks up a function that an expression at `p` calls. -/
def functionCall (env : Env σ) (p : Position) (f : Expression.FunctionRef) :
    Validate σ Unit := do
  let s ← get
  if (s.page.functions.lookup f).isSome then return
  if f.uri == [] then
    report .unknownPrefix p ("function " ++ f.text ++ ": no tag library is bound to prefix " ++
      f.library)
  else match env.library with
    | none =>
      report .unknownTaglib p ("function " ++ f.text ++ ": cannot resolve tag library " ++ f.uri ++
        ": no resolver")
    | some question =>
      let (answer, memory) := question f.uri s.memory
      set { s with memory := memory }
      match answer with
      | .error e => report .unknownTaglib p ("function " ++ f.text ++ ": " ++ e.text)
      | .ok l =>
        match l.function? f.name with
        | none =>
          report .unknownFunction p ("tag library " ++ f.uri ++ " has no function " ++ f.name)
        | some fn => setPage fun p => { p with functions := p.functions ++ [(f, fn)] }

/-- Looks up the functions that an expression at `p` calls. -/
def expression (env : Env σ) (e : Option Expression) (p : Position) : Validate σ Unit :=
  match e with
  | none => pure ()
  | some e => e.functions.forM (functionCall env p)

/-! ### Attributes -/

/-- Whether an attribute is given to an element, inline or by a named attribute. -/
def isSupplied (h : Head) (children : List Node) (name : Bytes) : Bool :=
  h.hasAttr name || children.any (·.givesAttribute name)

/-- Checks an attribute, and tells whether it is fine. -/
def checkInline (env : Env σ) (h : Head) (sigs : List Signature) (a : Attribute) :
    Validate σ Bool := do
  match sigs.find? (·.name == a.name) with
  | none =>
    report (if h.kind.isDirective then .invalidDirectiveAttribute else .unknownAttribute) a.position
      (describe h ++ " has no attribute " ++ a.name)
    return false
  | some sig =>
    if a.isRuntime && !sig.dynamic then
      report .runtimeValueNotAllowed a.position ("attribute " ++ a.name ++ " of " ++ describe h ++
        " does not accept runtime expressions")
      return false
    let fine := sig.values.isEmpty || a.kind != .literal || sig.values.contains a.value
    if !fine then
      report .invalidDirectiveValue a.position ("invalid value " ++ Quoted.string a.value ++
        " for attribute " ++ a.name ++ " of " ++ describe h ++ ", expected one of " ++
        Bytes.join ", " sig.values)
    if a.kind == .el then expression env a.el a.position
    return fine

/-- Checks the named attributes of an element, `seen` being the names before, and tells whether
they are fine. -/
def checkNamed (h : Head) (sigs : List Signature) (seen : List Bytes) :
    List Node → Validate σ Bool
  | [] => return true
  | c :: cs => do
    let name := c.head.attributeName
    if name == [] then checkNamed h sigs seen cs
    else if seen.contains name then
      report .duplicateNamedAttribute c.start ("attribute " ++ name ++ " of " ++ describe h ++
        " is given twice with jsp:attribute")
      let _ ← checkNamed h sigs seen cs
      return false
    else if !sigs.any (·.name == name) then
      report .unknownAttribute c.start (describe h ++ " has no attribute " ++ name)
      let _ ← checkNamed h sigs (name :: seen) cs
      return false
    else if h.hasAttr name then
      report .duplicateNamedAttribute c.start ("attribute " ++ name ++ " of " ++ describe h ++
        " is given both inline and with jsp:attribute")
      let _ ← checkNamed h sigs (name :: seen) cs
      return false
    else checkNamed h sigs (name :: seen) cs

/-- Checks the attributes of a directive or a standard action, and tells whether they are fine. -/
def checkSignature (env : Env σ) (h : Head) (children : List Node) : Validate σ Bool := do
  let sigs := signatures h.kind
  let inline ← (h.attributes.filter (·.kind != .named)).mapM (checkInline env h sigs)
  let named ← checkNamed h sigs [] (Node.namedAttributes children)
  let missing := sigs.filter fun sig => sig.required && !isSupplied h children sig.name
  missing.forM fun sig =>
    report .missingAttribute h.start (describe h ++ " requires attribute " ++ sig.name)
  return inline.all id && named && missing.isEmpty

end Validation

end ServerPages
