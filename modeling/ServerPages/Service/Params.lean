import ServerPages.Json.Parse

/-!
# Parameters of requests

A request to compile is an object with a path, a source and a syntax; the key of an artifact is part
of the path. Parameters are checked before anything is done, and every field that is wrong is named
with the first rule it breaks.
-/

namespace ServerPages

/-- A rule for a field. -/
inductive Rule where
  /-- The field has a value. -/
  | required
  /-- The value is not too long. -/
  | maxLength
  /-- The value has a given length. -/
  | length
  /-- The value is a hexadecimal number. -/
  | hexadecimal
  /-- The value is one of some. -/
  | oneOf
  /-- The value starts with a given text. -/
  | startsWith
  deriving DecidableEq, Repr

/-- What is said of a field that breaks a rule. -/
def Rule.message : Rule → Bytes
  | .required => "this field is required"
  | .maxLength => "value is too long"
  | .length => "invalid length"
  | .hexadecimal => "must be a hexadecimal string"
  | .oneOf => "must be one of the allowed values"
  | .startsWith => "must start with the required prefix"

/-- Why parameters are refused. -/
inductive ParamsError where
  /-- They cannot be read. -/
  | unreadable
  /-- Fields break rules. -/
  | invalid (fields : List (Bytes × Rule))
  deriving DecidableEq, Repr

/-- The parameters of a request to compile. -/
structure CompileParams where
  /-- The path that the source is compiled as. -/
  path : Bytes := []
  /-- The source. -/
  source : Bytes := []
  /-- The name of the syntax. -/
  form : Bytes := []
  deriving DecidableEq, Repr

namespace CompileParams

/-- A name in which the case of letters does not matter. -/
def folded (name : Bytes) : List Nat :=
  (Utf8.chars name).map fun c =>
    if 0x61 ≤ c && c ≤ 0x7A then c - 0x20
    else if c == 0x17F then 0x53 else if c == 0x212A then 0x4B else c

/-- The parameters with the value of a member. A value that is `null` is passed over, and so is a
member of another name. -/
def set? (p : CompileParams) (member : Bytes × JsonValue) : Option CompileParams :=
  let name := folded member.1
  let store (f : Bytes → CompileParams) : Option CompileParams :=
    match member.2 with
    | .string s => some (f s)
    | .null => some p
    | _ => none
  if name == folded "path" then store fun s => { p with path := s }
  else if name == folded "source" then store fun s => { p with source := s }
  else if name == folded "syntax" then store fun s => { p with form := s }
  else some p

/-- The parameters of a body. -/
def ofBody? (body : Bytes) : Option CompileParams := do
  match ← JsonValue.first? body with
  | .object members => members.foldlM set? {}
  | .null => some {}
  | _ => none

/-- The longest path. -/
def maxPath : Nat := 1024

/-- The rule that a path breaks. -/
def pathRule? (path : Bytes) : Option Rule :=
  if path == [] then none
  else if !path.startsWith "/" then some .startsWith
  else if maxPath < (Utf8.chars path).length then some .maxLength
  else none

/-- The rule that the name of a syntax breaks. -/
def formRule? (form : Bytes) : Option Rule :=
  let known : List Bytes := ["native", "xml", "auto"]
  if form == [] || known.contains form then none else some .oneOf

/-- The fields that break a rule, each with the first one. -/
def broken (p : CompileParams) : List (Bytes × Rule) :=
  let sourceRule? : Option Rule := if p.source == [] then some .required else none
  ([("path", pathRule? p.path), ("source", sourceRule?), ("syntax", formRule? p.form)] :
    List (Bytes × Option Rule)).filterMap fun f => f.2.map (f.1, ·)

/-- The parameters of a body that are in order. -/
def read (body : Bytes) : Except ParamsError CompileParams :=
  match ofBody? body with
  | none => .error .unreadable
  | some p => if p.broken.isEmpty then .ok p else .error (.invalid p.broken)

end CompileParams

namespace ArtifactKey

/-- The length of a key. -/
def keyLength : Nat := 64

/-- Whether a text is a hexadecimal number, which may be marked as such. -/
def isHexadecimal (s : Bytes) : Bool :=
  let digits := if s.startsWith "0x" || s.startsWith "0X" then s.drop 2 else s
  digits != [] && digits.all fun b => (Bytes.hexValue? b).isSome

/-- The rule that a key breaks. -/
def rule? (key : Bytes) : Option Rule :=
  if key == [] then some .required
  else if !isHexadecimal key then some .hexadecimal
  else if (Utf8.chars key).length != keyLength then some .length
  else none

/-- A key that is in order. -/
def read (key : Bytes) : Except ParamsError Bytes :=
  match rule? key with
  | some rule => .error (.invalid [("key", rule)])
  | none => .ok key

end ArtifactKey

end ServerPages
