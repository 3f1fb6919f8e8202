import ServerPages.Compilation.Options
import ServerPages.Diagnostics.Event
import ServerPages.TagLibrary.Registry

/-!
# Compilation sessions

A compiler serves any number of requests. What it keeps from one to the next is its session: the
libraries it resolved, the tag files it compiled with the tags they implement, and what is going on
at the moment, namely the units being compiled and the encodings of their sources.

`Compile` is the monad of requests: a failure leaves the session as it was when the failure arose,
but for what brackets such as `running` and `reading` put back.
-/

namespace ServerPages

/-- A compiled source. -/
structure CompiledUnit where
  /-- The path of the source, from the root of the pages. -/
  path : Bytes
  /-- The name of the generated type. -/
  typeName : Bytes
  /-- The name of the generated file. -/
  fileName : Bytes
  /-- The encoding of the source. -/
  encoding : Bytes
  /-- Whether the source is a tag file. -/
  isTagFile : Bool
  /-- The generated code. -/
  source : Bytes
  /-- The text of the line map of the code. -/
  lineMap : Bytes
  /-- The tree with what validation and generation found out. -/
  tree : Node

/-- What a request gives. -/
structure Compilation where
  /-- The unit asked for. -/
  unit : CompiledUnit
  /-- The tag files compiled on the way. -/
  auxiliary : List CompiledUnit

/-- What a compiler keeps between requests. -/
structure Session where
  /-- The tag libraries. -/
  registry : Registry := {}
  /-- The paths of the units being compiled, innermost first. -/
  running : List Bytes := []
  /-- The encodings of the units being compiled, innermost first. -/
  encodings : List Bytes := []
  /-- The compiled tag files by path, latest first. -/
  units : List (Bytes × CompiledUnit) := []
  /-- The tags implemented by tag files, by path, latest first. -/
  signatures : List (Bytes × TagDescriptor) := []
  /-- The tag files compiled on the way so far, in order. -/
  auxiliary : List CompiledUnit := []
  /-- The events, latest first. -/
  log : List Event := []

/-- The library of a uri in a session, loaded if need be. -/
def Session.library [MonadFiles (StateM Session)] (uri : Bytes) :
    StateM Session (Except Fault TagLibrary) := do
  let (answer, registry) ← Registry.answerM uri (← get).registry
  modify fun s => { s with registry := registry }
  return answer

/-- A request. -/
abbrev Compile := EStateM Failure Session

namespace Compile

variable {α : Type}

/-- The outcome of a request and the session afterwards. -/
def outcome (request : Compile α) (s : Session) : Except Failure α × Session :=
  match request s with
  | .ok a s => (.ok a, s)
  | .error e s => (.error e, s)

/-- A question that may end in a fault. -/
def ofFault (answer : Except Fault α) : Compile α :=
  match answer with
  | .ok a => pure a
  | .error f => throw (.fault f)

/-- A question to the session that may end in a fault. -/
def asking (question : StateM Session (Except Fault α)) : Compile α := fun s =>
  let (answer, s) := question s
  ofFault answer s

/-- A question that may end in a failure. -/
def ofFailure (answer : Except Failure α) : Compile α :=
  match answer with
  | .ok a => pure a
  | .error e => throw e

/-- Reports an event. -/
def report (level : Level) (message : Bytes) (details : List (Bytes × Detail)) : Compile Unit :=
  modify fun s => { s with log := ⟨level, message, details⟩ :: s.log }

/-- Takes part of a request between two changes of the session; the second is also made when the
part fails. -/
def bracket (enter leave : Session → Session) (part : Compile α) : Compile α := fun s =>
  match part (enter s) with
  | .ok a s => .ok a (leave s)
  | .error e s => .error e (leave s)

/-- Takes part of a request while a unit counts as being compiled. -/
def running (path : Bytes) (part : Compile α) : Compile α :=
  bracket (fun s => { s with running := path :: s.running })
    (fun s => { s with running := s.running.drop 1 }) part

/-- Takes part of a request while an encoding is the one of the innermost source. -/
def reading (encoding : Bytes) (part : Compile α) : Compile α :=
  bracket (fun s => { s with encodings := encoding :: s.encodings })
    (fun s => { s with encodings := s.encodings.drop 1 }) part

/-- Takes part of a request in which a broken invariant counts as a problem without a position. -/
def recovering (part : Compile α) : Compile α := fun s =>
  match part s with
  | .error (.invariant message) s => .error (.at .internal {} message) s
  | outcome => outcome

/-- Takes part of a request for a unit and reports a fault in which it ends. -/
def noting (path message : Bytes) (part : Compile α) : Compile α := fun s =>
  match part s with
  | .error (.fault f) s =>
    let event : Event := ⟨.debug, message, [("unit", .text path), ("error", .text f.text)]⟩
    .error (.fault f) { s with log := event :: s.log }
  | outcome => outcome

end Compile

end ServerPages
