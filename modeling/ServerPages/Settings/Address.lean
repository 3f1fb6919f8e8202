import ServerPages.Text.Quoted
import ServerPages.Url.Basic

/-!
# Server addresses

The address of a server is a url whose scheme may be left out. Only its host and port count, but the
rest has to be well formed too.

Main definitions: `Address.hostPort` and `Address.listen`.
-/

namespace ServerPages.Address

/-- Why an address cannot be used. -/
inductive Error where
  /-- It is no url. -/
  | malformed
  /-- It has no host. -/
  | noHost (address : Bytes)
  deriving DecidableEq, Repr

/-- The message of an error. -/
def Error.text : Error → Bytes
  | .malformed => "error parsing http server url"
  | .noHost address => "http server url " ++ Quoted.string address ++ " has no host"

/-- The url of an address. -/
def urlOf (address : Bytes) : Bytes :=
  if address.hasInfix "://" then address else "http://" ++ address

/-- The host and the port of an address; the port is empty if there is none. -/
def hostPort (address : Bytes) : Except Error (Bytes × Bytes) :=
  match Url.parse? (urlOf address) with
  | none => .error .malformed
  | some u => if u.hostPort.1 == [] then .error (.noHost address) else .ok u.hostPort

/-- The host and port that a server with an address listens at. -/
def listen (address : Bytes) : Except Error Bytes := do
  let (host, port) ← hostPort address
  let port : Bytes := if port == [] then "80" else port
  let host : Bytes := if host.contains 58 then "[" ++ host ++ "]" else host
  return host ++ ":" ++ port

end ServerPages.Address
