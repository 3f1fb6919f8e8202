import ServerPages.Json.Value
import ServerPages.Text.SlashPath
import ServerPages.Url.Basic

/-!
# Requests and responses

What clients of the service send and get. Every response that a handler gives carries the id of its
request and allows pages from anywhere to read it.
-/

namespace ServerPages

/-- A request of a client. -/
structure Request where
  /-- The method. -/
  method : Bytes
  /-- The url asked for. -/
  url : Url
  /-- The id that the client gave the request; empty if it gave none. -/
  id : Bytes := []
  /-- The body. -/
  body : Bytes := []
  deriving DecidableEq, Repr

/-- The id that a response carries. -/
inductive ResponseId where
  /-- None. -/
  | absent
  /-- The one of the request. -/
  | echoed (id : Bytes)
  /-- A fresh one. -/
  | fresh
  deriving DecidableEq, Repr

/-- The body of a response. -/
inductive Body where
  /-- Nothing. -/
  | empty
  /-- A text of some type. -/
  | text (contentType text : Bytes)
  /-- A value. -/
  | json (v : JsonValue)

/-- The type of a body. -/
def Body.contentType? : Body → Option Bytes
  | .empty => none
  | .text contentType _ => some contentType
  | .json _ => some "application/json; charset=utf-8"

/-- The response to a request. -/
structure Response where
  /-- The status. -/
  status : Nat
  /-- The id of the request. -/
  id : ResponseId := .absent
  /-- The headers but those of the id and of the type of the body. -/
  headers : List (Bytes × Bytes) := []
  /-- The body. -/
  body : Body := .empty

namespace Request

/-- Whether bytes are hexadecimal digits and nothing else. -/
def isHex (s : Bytes) : Bool := s.all fun b => (Bytes.hexValue? b).isSome

/-- Whether a text is five groups of hexadecimal digits, joined by dashes; what follows the last
group does not count. -/
def isGrouped (s : Bytes) : Bool :=
  [8, 13, 18, 23].all (fun i => s[i]? == some 45) &&
    isHex (s.take 8 ++ s.slice 9 13 ++ s.slice 14 18 ++ s.slice 19 23 ++ s.slice 24 36)

/-- Whether a text is a unique id: thirty-two hexadecimal digits, or five groups of them, which may
be marked as such an id or stand between two more characters. -/
def isUniqueId (s : Bytes) : Bool :=
  if s.length == 32 then isHex s
  else if s.length == 36 then isGrouped s
  else if s.length == 38 then isGrouped (s.drop 1)
  else if s.length == 45 then
    ((s.take 9).map Bytes.lowerByte == "urn:uuid:") && isGrouped (s.drop 9)
  else false

/-- The id that the response to a request carries: its own if it is a unique one. -/
def responseId (r : Request) : ResponseId := if isUniqueId r.id then .echoed r.id else .fresh

/-- Whether a byte may stand in a method. -/
def isMethodByte : UInt8 → Bool := Url.isWordOr "!#$%&'*+-.^_`|~"

/-- The url that a target names: a method that asks for a connection may have a host alone. -/
def urlOf? (method target : Bytes) : Option Url :=
  if method == "CONNECT" && !target.startsWith "/" then
    (Url.ofTarget? ("http://" ++ target)).map fun u => { u with scheme := [] }
  else Url.ofTarget? target

/-- The request with a method and a target, as they stand in its first line. A method that is left
out asks for the target. -/
def read? (method target id body : Bytes) : Option Request := do
  let method : Bytes := if method == [] then "GET" else method
  if !method.all isMethodByte || target.contains 32 then none
  return { method := method, url := ← urlOf? method target, id := id, body := body }

/-- A url that starts with a slash, with its path in the shortest form; a slash at the end of the
path stays. -/
def tidied (url : Bytes) : Bytes :=
  let path : Bytes := url.takeWhile (· != 63)
  let shortest := SlashPath.clean path
  let ending : Bytes := if path.endsWith "/" && !shortest.endsWith "/" then "/" else []
  shortest ++ ending ++ url.dropWhile (· != 63)

/-- The url that a client is sent to for the same thing under another path. -/
def urlAt (r : Request) (path : Bytes) : Bytes :=
  let url := { r.url with path := path }.render
  match Url.parse? url with
  | some u => if u.scheme == [] && u.host == [] then tidied url else url
  | none => url

end Request

/-- The headers that let pages from anywhere read a response. -/
def Response.openHeaders : List (Bytes × Bytes) := [
  ("Access-Control-Allow-Origin", "*"),
  ("Access-Control-Allow-Methods", "GET, POST, DELETE, OPTIONS"),
  ("Access-Control-Allow-Headers", "Content-Type,X-Request-Id"),
  ("Access-Control-Expose-Headers", "X-Request-Id")]

/-- The response of a handler to a request. -/
def Request.reply (r : Request) (status : Nat) (body : Body) : Response where
  status := status
  id := r.responseId
  headers := Response.openHeaders
  body := body

end ServerPages
