import ServerPages.Diagnostics.Fault
import ServerPages.Text.Float
import ServerPages.Text.Numeral

/-!
# Literal attribute values as code

The literal value of an attribute becomes an expression of the type that its setter takes. A value
that is not of the type is refused; values of types without literals are converted when the page
runs.
-/

namespace ServerPages.Generation

/-- Types that take text as it is. -/
def isTextType (type : Bytes) : Bool :=
  type == [] || type == "string" || type == "any" || type == "interface\x7b\x7d"

/-- The number of bits of a signed integer type. -/
def signedBits? (type : Bytes) : Option Nat :=
  List.lookup type [("int", 64), ("int64", 64), ("int32", 32), ("int16", 16), ("int8", 8)]

/-- The number of bits of an unsigned integer type. -/
def unsignedBits? (type : Bytes) : Option Nat :=
  List.lookup type [("uint", 64), ("uint64", 64), ("uint32", 32), ("uint16", 16), ("uint8", 8),
    ("byte", 8)]

/-- The format of a floating-point type. -/
def floatFormat? (type : Bytes) : Option Floating.Format :=
  List.lookup type [("float64", .double), ("float32", .single)]

/-- A numeric constant as an expression of its type. -/
def conversion (type constant : Bytes) : Bytes :=
  if type == "int" || type == "float64" then constant else type ++ "(" ++ constant ++ ")"

/-- The refusal of a value that is not of a type. -/
def notValid (type value cause : Bytes) : Bytes :=
  Quoted.string value ++ " is not a valid " ++ type ++ ": " ++ cause

/-- The expression of a literal value of a type, or why there is none. -/
def literalCode (type value : Bytes) : Except Bytes Bytes :=
  if isTextType type then .ok (Quoted.string value)
  else if type == "bool" then
    match Numeral.truth value with
    | .ok b => .ok (Bytes.ofBool b)
    | .error e => .error (notValid type value e.message)
  else if let some bits := signedBits? type then
    match Numeral.signed bits value with
    | .ok i => .ok (conversion type (Bytes.ofInt i))
    | .error e => .error (notValid type value e.message)
  else if let some bits := unsignedBits? type then
    match Numeral.unsigned bits value with
    | .ok n => .ok (conversion type (Bytes.ofNat n))
    | .error e => .error (notValid type value e.message)
  else if let some format := floatFormat? type then
    match Floating.read format value with
    | .ok v => .ok (conversion type (v.text format))
    | .error r =>
      .error (notValid type value (Numeral.Error.message ⟨"ParseFloat", value, r⟩))
  else if type == "rune" then
    match Utf8.pieces value with
    | [(c, _)] =>
      if c == Utf8.replacement then
        .error (Quoted.string value ++ " is not a single character")
      else .ok (Quoted.char c)
    | _ => .error (Quoted.string value ++ " is not a single character")
  else .ok ("rt.MustConvert[" ++ type ++ "](" ++ Quoted.string value ++ ")")

/-- The expression of a literal value of a type, given at `p`. -/
def literal (type value : Bytes) (p : Position) : Except Failure Bytes :=
  (literalCode type value).mapError (.at .invalidLiteral p)

end ServerPages.Generation
