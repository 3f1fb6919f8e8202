import ServerPages.Diagnostics.Event
import ServerPages.Text.Utf8

/-!
# JSON values

The values that requests and responses are made of, and their text.
-/

namespace ServerPages

/-- A JSON value. Members are kept in order, also if a name occurs twice. -/
inductive JsonValue where
  /-- The value `null`. -/
  | null
  /-- A truth value. -/
  | bool (b : Bool)
  /-- A number as it is written. -/
  | number (text : Bytes)
  /-- A text. -/
  | string (s : Bytes)
  /-- A list. -/
  | array (items : List JsonValue)
  /-- Values by name. -/
  | object (members : List (Bytes × JsonValue))
  deriving Repr

namespace JsonValue

/-- A natural number. -/
def ofNat (n : Nat) : JsonValue := .number (Bytes.ofNat n)

/-- An integer. -/
def ofInt (n : Int) : JsonValue := .number (Bytes.ofInt n)

/-- A member, left out unless it is wanted. -/
def member? (wanted : Bool) (name : Bytes) (v : JsonValue) : Option (Bytes × JsonValue) :=
  if wanted then some (name, v) else none

/-- The object of the members that are not left out. -/
def record (members : List (Option (Bytes × JsonValue))) : JsonValue :=
  .object (members.filterMap id)

/-- A character of a text between quotes. -/
def escapeChar (c : Nat) : Bytes :=
  if c == 34 || c == 92 then [92, c.toUInt8]
  else if c == 10 then "\\n"
  else if c == 13 then "\\r"
  else if c == 9 then "\\t"
  else if c < 32 then "\\u" ++ Bytes.hex 4 c
  else Utf8.encode c

/-- A text between quotes. -/
def quote (s : Bytes) : Bytes := "\"" ++ (Utf8.chars s).flatMap escapeChar ++ "\""

mutual

/-- The text of a value, without blanks. -/
def text : JsonValue → Bytes
  | .null => "null"
  | .bool b => Bytes.ofBool b
  | .number s => s
  | .string s => quote s
  | .array items => "[" ++ Bytes.join "," (itemTexts items) ++ "]"
  | .object members => "\x7b" ++ Bytes.join "," (memberTexts members) ++ "\x7d"

/-- The texts of values. -/
def itemTexts : List JsonValue → List Bytes
  | [] => []
  | v :: vs => text v :: itemTexts vs

/-- The texts of members. -/
def memberTexts : List (Bytes × JsonValue) → List Bytes
  | [] => []
  | (name, v) :: ms => (quote name ++ ":" ++ text v) :: memberTexts ms

end

end JsonValue

/-- A detail of an event as a value. -/
def Detail.json : Detail → JsonValue
  | .text s => .string s
  | .number n => .ofNat n

/-- An event as a value. -/
def Event.json (e : Event) : JsonValue :=
  let details := e.details.map fun d => (d.1, d.2.json)
  .object (("level", .string e.level.name) :: ("message", .string e.message) :: details)

end ServerPages
