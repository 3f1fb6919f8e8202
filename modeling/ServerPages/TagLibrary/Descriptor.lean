import ServerPages.Unicode.Case
import ServerPages.Unicode.Space
import ServerPages.Text.Quoted

/-!
# Descriptors of tags, functions and libraries

A descriptor is the contract of a tag: its handler, what its body may hold, its attributes and the
scripting variables it introduces. A library is a set of tags, tag files and functions named by a
uri.
-/

namespace ServerPages

/-- What the body of a tag may hold. -/
inductive BodyContent where
  /-- Anything, scripting elements included. -/
  | page
  /-- Nothing. -/
  | empty
  /-- Anything but scripting elements. -/
  | scriptless
  /-- Text that the tag interprets itself. -/
  | tagDependent
  deriving DecidableEq, Repr

namespace BodyContent

/-- All kinds in the order of their numbers. -/
def all : List BodyContent := [.page, .empty, .scriptless, .tagDependent]

/-- The name in descriptors and directives. -/
def name : BodyContent → Bytes
  | .page => "JSP"
  | .empty => "empty"
  | .scriptless => "scriptless"
  | .tagDependent => "tagdependent"

/-- The kind with a name, in any letter case. -/
def ofName (s : Bytes) : Except Bytes BodyContent :=
  match all.find? fun b => s.foldEq b.name with
  | some b => .ok b
  | none => .error ("invalid body-content " ++ Quoted.string s)

/-- The name of the kind with a number. -/
def nameOfCode (code : Int) : Bytes :=
  if code < 0 then "unknown" else ((all[code.toNat]?).map name).getD "unknown"

end BodyContent

/-- Where a scripting variable is visible. -/
inductive VariableScope where
  /-- In the body of the tag. -/
  | nested
  /-- From the start tag to the end of the enclosing scope. -/
  | atBegin
  /-- From the end tag to the end of the enclosing scope. -/
  | atEnd
  deriving DecidableEq, Repr

namespace VariableScope

/-- All scopes in the order of their numbers. -/
def all : List VariableScope := [.nested, .atBegin, .atEnd]

/-- The name in descriptors and directives. -/
def name : VariableScope → Bytes
  | .nested => "NESTED"
  | .atBegin => "AT_BEGIN"
  | .atEnd => "AT_END"

/-- The scope with a name, in any letter case and between any blanks; no name is `nested`. -/
def ofName (s : Bytes) : Except Bytes VariableScope :=
  let t := s.trimSpace
  if t == [] then .ok .nested
  else match all.find? fun v => t.upperEq v.name with
    | some v => .ok v
    | none => .error ("invalid variable scope " ++ Quoted.string s)

/-- The name of the scope with a number. -/
def nameOfCode (code : Int) : Bytes :=
  if code < 0 then "unknown" else ((all[code.toNat]?).map name).getD "unknown"

end VariableScope

/-- The type of values that declare none. -/
def defaultType : Bytes := "string"

/-- The contract of an attribute. -/
structure AttributeSignature where
  /-- Its name. -/
  name : Bytes
  /-- Whether it must be given. -/
  required : Bool := false
  /-- Whether its value may be known only when the page runs. -/
  dynamic : Bool := false
  /-- Whether it is given a body that the tag evaluates. -/
  fragment : Bool := false
  /-- The declared type of its value, empty for the default. -/
  declaredType : Bytes := []
  deriving DecidableEq, Repr

/-- The type of an attribute's value. -/
def AttributeSignature.valueType (a : AttributeSignature) : Bytes :=
  if a.declaredType == [] then defaultType else a.declaredType

/-- A scripting variable that a tag declares. Its name is given, or is the value of an
attribute. -/
structure VariableDeclaration where
  /-- The name, empty if an attribute gives it. -/
  given : Bytes := []
  /-- The attribute whose value is the name, empty if the name is given. -/
  fromAttribute : Bytes := []
  /-- The declared type, empty for the default. -/
  declaredType : Bytes := []
  /-- Whether the generated code declares the variable. -/
  declare : Bool := true
  /-- Where it is visible. -/
  scope : VariableScope := .nested
  deriving DecidableEq, Repr

/-- A scripting variable of one invocation. -/
structure VariableBinding where
  /-- Its name. -/
  name : Bytes
  /-- Its type. -/
  valueType : Bytes
  /-- Whether the generated code declares it. -/
  declare : Bool
  /-- Where it is visible. -/
  scope : VariableScope
  deriving DecidableEq, Repr

/-- The attributes of an invocation as they are known before the page runs. -/
structure TagData where
  /-- Literal values, the latest first. -/
  values : List (Bytes × Bytes) := []
  /-- The attributes whose value is only known when the page runs. -/
  runtime : List Bytes := []
  deriving DecidableEq, Repr

namespace TagData

/-- The data with a literal value. -/
def set (d : TagData) (name value : Bytes) : TagData :=
  { d with values := (name, value) :: d.values }

/-- The data with an attribute known only when the page runs. -/
def setRuntime (d : TagData) (name : Bytes) : TagData := { d with runtime := name :: d.runtime }

/-- The literal value of an attribute. -/
def value? (d : TagData) (name : Bytes) : Option Bytes := d.values.lookup name

/-- Whether an attribute's value is only known when the page runs. -/
def isRuntime (d : TagData) (name : Bytes) : Bool := d.runtime.contains name

end TagData

/-- Computes the scripting variables of an invocation. -/
abbrev ExtraInfo := TagData → List VariableBinding

/-- Checks the attributes of an invocation; a message refuses them. -/
abbrev AttributeCheck := TagData → Option Bytes

/-- The contract of a tag. -/
structure TagDescriptor where
  /-- The name of the tag. -/
  name : Bytes := []
  /-- The package of the handler, empty for the generated one. -/
  package : Bytes := []
  /-- The type of the handler in its package. -/
  typeName : Bytes := []
  /-- What the body may hold. -/
  body : BodyContent := .page
  /-- The attributes. -/
  attributes : List AttributeSignature := []
  /-- The scripting variables it declares. -/
  vars : List VariableDeclaration := []
  /-- Computes further scripting variables. -/
  extraInfo : Option ExtraInfo := none
  /-- The name that `extraInfo` is registered under. -/
  extraInfoClass : Bytes := []
  /-- Checks the attributes of an invocation. -/
  check : Option AttributeCheck := none
  /-- Whether the handler may evaluate the body again. -/
  iteration : Bool := false
  /-- Whether the handler may buffer the body. -/
  bufferedBody : Bool := false
  /-- Whether the handler is told about errors. -/
  tryCatchFinally : Bool := false
  /-- Whether attributes may be given that are not declared. -/
  dynamicAttributes : Bool := false
  /-- Whether the handler is run by a single call. -/
  simple : Bool := false
  /-- The tag file that implements the tag, empty if a handler type does. -/
  tagFile : Bytes := []
  /-- A description. -/
  info : Bytes := []

/-- Why the scripting variables of an invocation cannot be told. -/
inductive BindingError where
  /-- Variables are both declared and computed. -/
  | conflict
  /-- The attribute that names a variable is only known when the page runs. -/
  | runtimeName (name : Bytes)
  deriving DecidableEq, Repr

/-- The message of the error. -/
def BindingError.text : BindingError → Bytes
  | .conflict => "tag declares both static variables and computed variable info"
  | .runtimeName name => "variable name must be given by a literal attribute: " ++ name

namespace TagDescriptor

/-- The signature of a named attribute. -/
def attribute? (d : TagDescriptor) (name : Bytes) : Option AttributeSignature :=
  d.attributes.find? (·.name == name)

/-- Whether the tag is run by start, body and end calls. -/
def isClassic (d : TagDescriptor) : Bool := !d.simple && d.tagFile == []

/-- The bindings of declared variables. A variable named by an attribute that is not given is left
out. -/
def declaredBindings (data : TagData) :
    List VariableDeclaration → Except BindingError (List VariableBinding)
  | [] => .ok []
  | v :: vs =>
    let type := if v.declaredType == [] then defaultType else v.declaredType
    if v.fromAttribute == [] then
      (declaredBindings data vs).map (⟨v.given, type, v.declare, v.scope⟩ :: ·)
    else if data.isRuntime v.fromAttribute then .error (.runtimeName v.fromAttribute)
    else match data.value? v.fromAttribute with
      | none => declaredBindings data vs
      | some name => (declaredBindings data vs).map (⟨name, type, v.declare, v.scope⟩ :: ·)

/-- The scripting variables of an invocation. -/
def bindings (d : TagDescriptor) (data : TagData) : Except BindingError (List VariableBinding) :=
  let computed := (d.extraInfo.map (· data)).getD []
  if computed.isEmpty then declaredBindings data d.vars
  else if d.vars.isEmpty then .ok computed
  else .error .conflict

end TagDescriptor

/-- An order in which the entries of a map come, given those in the order they were made. Nothing
decides which one it is. -/
structure MapOrder (α : Type) where
  /-- The entries in order. -/
  walk : List α → List α
  /-- Every entry comes once. -/
  perm (entries : List α) : (walk entries).Perm entries

/-- The order in which the entries were made. -/
def MapOrder.asMade {α : Type} : MapOrder α := ⟨id, fun _ => .refl _⟩

/-- A function that a library offers to expressions. -/
structure LibraryFunction where
  /-- Its name in the library. -/
  name : Bytes
  /-- The package that defines it. -/
  package : Bytes
  /-- Its name in the package. -/
  function : Bytes
  /-- Its signature as declared. -/
  signature : Bytes
  deriving DecidableEq, Repr

/-- A tag library. Tags, functions and tag files are listed by name. -/
structure TagLibrary where
  /-- The uri it is known by. -/
  uri : Bytes := []
  /-- A short name. -/
  shortName : Bytes := []
  /-- Its version. -/
  version : Bytes := []
  /-- Tags with a handler type. -/
  tags : List (Bytes × TagDescriptor) := []
  /-- Functions. -/
  functions : List (Bytes × LibraryFunction) := []
  /-- Paths of the tag files that implement tags. -/
  tagFiles : List (Bytes × Bytes) := []

namespace TagLibrary

/-- The descriptor of a tag with a handler type. -/
def tag? (l : TagLibrary) (name : Bytes) : Option TagDescriptor := l.tags.lookup name

/-- The path of the tag file that implements a tag. -/
def tagFile? (l : TagLibrary) (name : Bytes) : Option Bytes := l.tagFiles.lookup name

/-- The function of a name. -/
def function? (l : TagLibrary) (name : Bytes) : Option LibraryFunction := l.functions.lookup name

/-- Whether the library defines a tag in either way. -/
def hasTag (l : TagLibrary) (name : Bytes) : Bool :=
  (l.tag? name).isSome || (l.tagFile? name).isSome

end TagLibrary

end ServerPages
