import ServerPages.Artifact.Key
import ServerPages.Artifact.Store
import ServerPages.Compilation.Compiler
import ServerPages.Service.Message
import ServerPages.Service.Params
import ServerPages.Service.Render
import ServerPages.Settings.Basic

/-!
# The compile service

Clients send sources to compile. The result of a compilation is kept in a store under a key made
from the request and is given again when the same request comes; clients may also ask for a result
by its key, or have it removed. A store that does not work never keeps a source from being compiled.

A compilation takes the entries of some maps in an order that nothing decides, so the same source
may be compiled with different results. What a request meets with, `Circumstances`, tells the orders
of its compilation and what fails of the store.

Main definitions: `Service.create` and `Service.handle`.
-/

namespace ServerPages

/-- The orders in which a compilation takes the entries of maps. -/
structure MapOrders where
  /-- The order of the functions of a unit, after some events. -/
  functions : List Event → MapOrder (Expression.FunctionRef × LibraryFunction) := fun _ => .asMade
  /-- The order of the tags of a library. -/
  tags : MapOrder (Bytes × TagDescriptor) := .asMade

/-- What a request meets with. -/
structure Circumstances extends Outages where
  /-- The orders of its compilation. -/
  orders : MapOrders := {}

/-- The state of the service. -/
structure Service where
  /-- The settings. -/
  settings : Settings
  /-- The files that sources include, if there are any. -/
  files : Option FileTree := none
  /-- The tag libraries. -/
  registry : Registry := {}
  /-- The store of results. -/
  store : Store := {}

namespace Service

/-- A service whose settings are in order. -/
def create (settings : Settings) (files : Option FileTree) (registry : Registry) :
    Except Fault Service :=
  match settings.compilerOptions.fault?, Address.listen settings.serverAddress with
  | some f, _ => .error f
  | none, .error e => .error (.plain e.text)
  | none, .ok _ => .ok { settings := settings, files := files, registry := registry }

/-! ### Handlers -/

/-- The path of a source that is sent without one. -/
def defaultPath : Bytes := "/page.jsp"

/-- The response to parameters that are refused. -/
def refuse (r : Request) (e : ParamsError) : Response := r.reply 400 (.json (paramsJson e))

/-- The response to a request for an artifact that a store did not serve. -/
def storeFailed (r : Request) (e : StoreError) : Response :=
  r.reply (if e == .notFound then 404 else 500) (.json (errorJson e.text))

/-- The response to a compilation that failed. -/
def compileFailed (r : Request) : Failure → Response
  | .fault f =>
    if f.diagnostic?.isSome then r.reply 422 (.json (problemsJson f.reported))
    else r.reply 500 (.json (errorJson f.text))
  | .invariant message => r.reply 500 (.json (errorJson message))
  | .crash => r.reply 500 .empty

/-- Compiles a source in a session of its own; the libraries it resolved are known afterwards. -/
def compileSource (s : Service) (orders : MapOrders) (path source : Bytes) (form : PageSyntax) :
    Except Failure Compilation × Registry :=
  let compiler : Compiler :=
    { options := s.settings.compilerOptions, files := s.files, order := orders.functions }
  let (result, session) := (compiler.compileSource path source form).outcome
    { registry := { s.registry with order := orders.tags } }
  (result, session.registry)

/-- Serves a request to compile whose parameters are in order. -/
def compileParams (s : Service) (c : Circumstances) (r : Request) (p : CompileParams)
    (form : PageSyntax) : Response × Service :=
  let path := if p.path == [] then defaultPath else p.path
  let key := ArtifactKey.ofRequest path form.name p.source s.settings.compilerOptions
  match s.store.get c.toOutages key with
  | .ok a => (r.reply 200 (.json (compiledJson key true a.result)), s)
  | .error _ =>
    match s.compileSource c.orders path p.source form with
    | (.error e, registry) => (compileFailed r e, { s with registry := registry })
    | (.ok result, registry) =>
      (r.reply 200 (.json (compiledJson key false result)),
        { s with registry := registry, store := s.store.save c.toOutages ⟨key, result⟩ })

/-- Serves a request to compile. -/
def compile (s : Service) (c : Circumstances) (r : Request) : Response × Service :=
  match CompileParams.read r.body with
  | .error e => (refuse r e, s)
  | .ok p =>
    match PageSyntax.ofName p.form with
    | .error message => (r.reply 400 (.json (errorJson message)), s)
    | .ok form => s.compileParams c r p form

/-- Serves a request for an artifact. -/
def getArtifact (s : Service) (outages : Outages) (r : Request) (key : Bytes) : Response :=
  match ArtifactKey.read key with
  | .error e => refuse r e
  | .ok key =>
    match s.store.get outages key with
    | .ok a => r.reply 200 (.json (artifactJson a))
    | .error e => storeFailed r e

/-- Serves a request to remove an artifact. -/
def deleteArtifact (s : Service) (outages : Outages) (r : Request) (key : Bytes) :
    Response × Service :=
  match ArtifactKey.read key with
  | .error e => (refuse r e, s)
  | .ok key =>
    match s.store.delete outages key with
    | .ok store => (r.reply 204 .empty, { s with store := store })
    | .error e => (storeFailed r e, s)

/-! ### Routes -/

/-- What a request asks for. -/
inductive Route where
  /-- Whether the service is there. -/
  | ping
  /-- Whether requests from other pages are served. -/
  | preflight
  /-- To compile a source. -/
  | compile
  /-- An artifact. -/
  | artifact (key : Bytes)
  /-- To remove an artifact. -/
  | removal (key : Bytes)
  /-- A path that is known without the slash at its end. -/
  | misspelt (path : Bytes)
  /-- Nothing known. -/
  | unknown
  deriving DecidableEq, Repr

/-- The paths that artifacts are asked for with. -/
def artifactPath : Bytes := "/compile/"

/-- What a path of an artifact asks for. -/
def artifactRoute (route : Bytes → Route) (path : Bytes) : Route :=
  let rest := path.drop artifactPath.length
  if !path.startsWith artifactPath || rest == [] then .unknown
  else if !rest.contains 47 then route rest
  else if Bytes.indexOfByte? 47 rest == some (rest.length - 1) then .misspelt path.dropLast
  else .unknown

/-- What a request asks for. -/
def routeOf (r : Request) : Route :=
  let path := r.url.path
  if r.method == "OPTIONS" then .preflight
  else if r.method == "POST" then
    if path == "/compile" then .compile
    else if path == "/compile/" then .misspelt "/compile" else .unknown
  else if r.method == "GET" then
    if path == "/ping" then .ping
    else if path == "/ping/" then .misspelt "/ping" else artifactRoute .artifact path
  else if r.method == "DELETE" then artifactRoute .removal path
  else .unknown

/-- A text as it is written in a page. -/
def inPage (s : Bytes) : Bytes :=
  s.substitute [
    ("&", "&amp;"), ("<", "&lt;"), (">", "&gt;"), ("\"", "&#34;"), ("'", "&#39;")]

/-- The response that sends a client to a path. -/
def redirect (r : Request) (path : Bytes) : Response :=
  if r.method == "GET" then
    { status := 301,
      body := .text "text/html; charset=utf-8"
        ("<a href=\"" ++ inPage (r.urlAt path) ++ "\">Moved Permanently</a>.\n\n") }
  else { status := 307 }

/-- Serves a request, in which some operations of the store may fail. -/
def handle (s : Service) (c : Circumstances) (r : Request) : Response × Service :=
  match routeOf r with
  | .ping => (r.reply 200 (.text "text/plain; charset=utf-8" "pong"), s)
  | .preflight => (r.reply 204 .empty, s)
  | .compile => s.compile c r
  | .artifact key => (s.getArtifact c.toOutages r key, s)
  | .removal key => s.deleteArtifact c.toOutages r key
  | .misspelt path => (redirect r path, s)
  | .unknown => (r.reply 404 (.text "text/plain" "404 page not found"), s)

end Service

end ServerPages
