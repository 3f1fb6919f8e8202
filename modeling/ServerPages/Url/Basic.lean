import ServerPages.Url.Escape
import ServerPages.Url.IpAddress

/-!
# Urls

A url names a host, which may be left out, and a path on it. This module reads urls as they are
written in an address and as they stand in the first line of a request; `Url.render` writes them.

Main definitions: `Url`, `Url.parse?`, `Url.ofTarget?` and `Url.render`.
-/

namespace ServerPages

/-- The user that a url names. -/
structure Url.User where
  /-- The name. -/
  name : Bytes
  /-- The password, if there is one. -/
  password : Option Bytes := none
  deriving DecidableEq, Repr

/-- A url without its fragment. -/
structure Url where
  /-- The scheme, in lower case; empty if there is none. -/
  scheme : Bytes := []
  /-- What follows the scheme, if it is no path. -/
  rootless : Bytes := []
  /-- The user. -/
  user : Option Url.User := none
  /-- The host, perhaps with a port; empty if there is none. -/
  host : Bytes := []
  /-- Whether a path follows the scheme at once. -/
  omitsHost : Bool := false
  /-- The path, without escapes. -/
  path : Bytes := []
  /-- The query, if there is a question mark. -/
  query : Option Bytes := none
  deriving DecidableEq, Repr

namespace Url

/-! ### Hosts -/

/-- Whether a text is empty, or a colon and digits. -/
def isOptionalPort : Bytes → Bool
  | [] => true
  | b :: s => b == 58 && s.all Bytes.isDigit

/-- What stands between the brackets of a host, with its escapes replaced. -/
def bracketed? (s : Bytes) : Option Bytes :=
  match Bytes.indexOf? s "%25" with
  | some z => do return (← unescape? .host (s.take z)) ++ (← unescape? .zone (s.drop z))
  | none => unescape? .host s

/-- A host in brackets, of which the first was read, with its escapes replaced. -/
def literal? (s : Bytes) : Option Bytes := do
  let i ← Bytes.lastIndexOfByte? 93 s
  let port := s.drop (i + 1)
  if !isOptionalPort port then none
  let address ← bracketed? (s.take i)
  if IpAddress.isVersion6 address then return [91] ++ address ++ [93] ++ port else none

/-- A host, perhaps with a port, with its escapes replaced. Brackets stand around an address of
version 6 and nowhere else. -/
def host? (s : Bytes) : Option Bytes :=
  match Bytes.lastIndexOfByte? 91 s, Bytes.lastIndexOfByte? 58 s with
  | some 0, _ => literal? (s.drop 1)
  | some _, _ => none
  | none, some i => if isOptionalPort (s.drop i) then unescape? .host s else none
  | none, none => unescape? .host s

/-- Whether a byte may stand in a user. -/
def isUserByte : UInt8 → Bool := isWordOr "-._:~!$&'()*+,;=%@"

/-- The user of a text before the host. -/
def user? (s : Bytes) : Option User :=
  if !s.all isUserByte then none
  else match Bytes.cut? 58 s with
    | none => (unescape? .user s).map (⟨·, none⟩)
    | some (name, password) => do
      return ⟨← unescape? .user name, some (← unescape? .user password)⟩

/-- A url with the host of an authority, which may name a user before it. -/
def withAuthority? (u : Url) (s : Bytes) : Option Url :=
  match Bytes.lastIndexOfByte? 64 s with
  | none => do return { u with host := ← host? s }
  | some i => do
    return { u with host := ← host? (s.drop (i + 1)), user := some (← user? (s.take i)) }

/-! ### Reading -/

/-- Whether a byte may stand in a scheme after its first letter. -/
def isSchemeByte : UInt8 → Bool := isWordOr "+-."

/-- The scheme of a url and what follows it; `none` if a colon stands in its place. -/
def scheme? (s : Bytes) : Option (Bytes × Bytes) :=
  let scheme := s.takeWhile isSchemeByte
  match s.dropWhile isSchemeByte with
  | 58 :: rest =>
    if scheme == [] then none
    else if scheme.head?.any Bytes.isAlpha then some (scheme.map Bytes.lowerByte, rest)
    else some ([], s)
  | _ => some ([], s)

/-- A url with a path. -/
def withPath? (u : Url) (s : Bytes) : Option Url := do
  return { u with path := ← unescape? .path s }

/-- A url with the host and the path that a text after two slashes has. -/
def withHost? (u : Url) (s : Bytes) : Option Url := do
  (← u.withAuthority? (s.takeWhile (· != 47))).withPath? (s.dropWhile (· != 47))

/-- A url with what follows its scheme. In a request two slashes name a host only after a scheme,
and a path starts with a slash; elsewhere three slashes start a path. -/
def withRest? (inRequest : Bool) (u : Url) (s : Bytes) : Option Url :=
  if s.head? != some 47 then
    if u.scheme != [] then some { u with rootless := s }
    else if inRequest || (s.takeWhile (· != 47)).contains 58 then none
    else u.withPath? s
  else if s.startsWith "//" && (u.scheme != [] || (!inRequest && !s.startsWith "///")) then
    u.withHost? (s.drop 2)
  else { u with omitsHost := u.scheme != [] }.withPath? s

/-- The url of a text without a fragment. -/
def ofText? (inRequest : Bool) (s : Bytes) : Option Url := do
  if s.any fun b => b < 32 || b == 127 then none
  else if s == "*" then some { path := s }
  else
    let (scheme, rest) ← scheme? s
    let query := (Bytes.cut? 63 rest).map (·.2)
    withRest? inRequest { scheme := scheme, query := query } (rest.takeWhile (· != 63))

/-- The url in the first line of a request, in which there are no fragments. -/
def ofTarget? (s : Bytes) : Option Url := ofText? true s

/-- A url of which the fragment is read too, but not kept. -/
def parse? (s : Bytes) : Option Url := do
  let u ← ofText? false (s.takeWhile (· != 35))
  let _ ← unescape? .fragment ((s.dropWhile (· != 35)).drop 1)
  return u

/-! ### Host and port -/

/-- A host without its port, and the port. -/
def splitPort (s : Bytes) : Bytes × Bytes :=
  match Bytes.lastIndexOfByte? 58 s with
  | some i => if isOptionalPort (s.drop i) then (s.take i, s.drop (i + 1)) else (s, [])
  | none => (s, [])

/-- A host without the brackets around it. -/
def unbracketed (host : Bytes) : Bytes :=
  if host.head? == some 91 && host.getLast? == some 93 then (host.drop 1).dropLast else host

/-- The name of the host, and the port; it is empty if there is none. -/
def hostPort (u : Url) : Bytes × Bytes :=
  let (host, port) := splitPort u.host
  (unbracketed host, port)

/-! ### Writing -/

/-- A user as it is written. -/
def User.render (u : User) : Bytes :=
  escape .user u.name ++
    match u.password with
    | some p => 58 :: escape .user p
    | none => []

/-- The host as it is written, with the slashes before it and the user. -/
def renderAuthority (u : Url) : Bytes :=
  if (u.scheme == [] && u.host == [] && u.user.isNone) ||
      (u.omitsHost && u.host == [] && u.user.isNone) then []
  else
    let slashes : Bytes := if u.host != [] || u.path != [] || u.user.isSome then "//" else []
    let user : Bytes := match u.user with
      | some x => x.render ++ [64]
      | none => []
    slashes ++ user ++ escape .host u.host

/-- A url, whose path starts with a slash, as it is written. -/
def render (u : Url) : Bytes :=
  let scheme : Bytes := if u.scheme == [] then [] else u.scheme ++ [58]
  let rest := if u.rootless != [] then u.rootless else u.renderAuthority ++ escape .path u.path
  let query : Bytes := match u.query with
    | some q => 63 :: q
    | none => []
  scheme ++ rest ++ query

end Url

end ServerPages
