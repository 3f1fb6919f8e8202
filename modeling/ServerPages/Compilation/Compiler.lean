import ServerPages.Compilation.Session
import ServerPages.Generation.Unit
import ServerPages.LineMap.OfTree
import ServerPages.LineMap.Stratum
import ServerPages.Parsing.Parse

/-!
# Compiling pages and tag files

A source is read, parsed, validated and turned into code with its line map. Parsing a page asks for
the tags that tag files implement; such a tag file is compiled on the way, once in a session. If it
is being compiled already, only its directives are read, so tag files that use each other do not
keep compiling each other. Every unit being compiled is another file, which bounds how deep this
nests.

Requests are written over any access to files by name.

Main operations: `Compiler.compile`, `Compiler.compileSource`, `Compiler.signature`,
`Compiler.tagFile` and `Compiler.load`.
-/

namespace ServerPages

/-- A compiler over the files of a site. -/
structure Compiler where
  /-- How sources are compiled. -/
  options : CompilerOptions := {}
  /-- The files, if there are any to read. -/
  files : Option FileTree := none
  /-- Whether tag libraries can be asked for. -/
  hasLibraries : Bool := true
  /-- The order of the functions of a unit, after some events. -/
  order : List Event → MapOrder (Expression.FunctionRef × LibraryFunction) := fun _ => .asMade

namespace Compiler

/-- A compiler whose options are in order. -/
def create (files : Option FileTree) (hasLibraries : Bool) (options : CompilerOptions) :
    Except Fault Compiler :=
  match options.fault? with
  | some f => .error f
  | none => .ok { options := options, files := files, hasLibraries := hasLibraries }

/-- A path from the root of the pages without `.` and `..`. -/
def cleanPath (path : Bytes) : Bytes := SlashPath.clean (SlashPath.slash :: path)

/-- The encoding of a source that names none: that of the source around it. -/
def fallback (c : Compiler) (s : Session) : Bytes :=
  s.encodings.headD c.options.fallbackEncoding

/-! ### Files -/

section Files

variable {m : Type → Type} [Monad m] [MonadFiles m]

/-- The bytes of a file given by its path from the root of the pages. -/
def readFileM (c : Compiler) (path : Bytes) : m (Except Fault Bytes) :=
  match c.files with
  | none => return .error (.plain "no source root configured")
  | some files => MonadFiles.access.read files (path.dropStart "/")

/-- The text of a file in its encoding. -/
def sourceTextM (c : Compiler) (s : Session) (path : Bytes) : m (Except Fault SourceText) :=
  return (← c.readFileM path) >>= fun raw =>
    Charset.readSource c.options.encodings path raw (c.fallback s)

end Files

/-- The bytes of a file as it is. -/
def readFile (c : Compiler) (path : Bytes) : Except Fault Bytes := c.readFileM (m := Id) path

/-- The text of a file as it is. -/
def sourceText (c : Compiler) (s : Session) (path : Bytes) : Except Fault SourceText :=
  c.sourceTextM (m := Id) s path

/-! ### Requests -/

variable [MonadFiles (StateM Session)]

/-- The text of a file that is included as things stand. -/
def load (c : Compiler) (path : Bytes) : StateM Session (Except Fault Bytes) :=
  return (← c.sourceTextM (← get) path).map (·.text)

/-- The tag library of a uri. -/
def library (c : Compiler) : Option (Bytes → Session → Except Fault TagLibrary × Session) :=
  if c.hasLibraries then some Session.library else none

/-- The surroundings of a unit being parsed; without a way to describe tag files there are none. -/
def host (c : Compiler) (describe : Option (Bytes → Compile TagDescriptor)) : Host Session where
  library := c.library
  load := some c.load
  tagFile := describe.map fun describe path => (describe path).outcome
  fileCount := (c.files.map (·.files.length)).getD 0

/-- Parses a source. -/
def parse (request : ParseRequest) (host : Host Session) : Compile Node := fun s =>
  match request.parse host s with
  | (.ok n, s) => .ok n s
  | (.error e, s) => .error e s

/-- The name of a tag file without its extension. -/
def tagName (path : Bytes) : Bytes := (SlashPath.base path).dropEnd (SlashPath.extension path)

/-- A page with the tag it implements, if any, named after its path unless it names itself. -/
def named (path : Bytes) (page : PageInfo) : PageInfo :=
  { page with
    tag := page.tag.map fun t => if t.name == [] then { t with name := tagName path } else t }

/-- Validates a unit. -/
def validated (c : Compiler) (path : Bytes) (tree : Node) : Compile Node := do
  let v := tree.validate c.library c.options.validation (← get)
  set v.memory
  match v.failure, v.tree.page? with
  | some f, _ => throw f
  | none, some page => return v.tree.setPage (named path page)
  | none, none => return v.tree

/-- The tag that the unit at a path implements. A page that is no tag file implements none, which
nothing provides for. -/
def descriptor (path : Bytes) (tree : Node) : Compile TagDescriptor :=
  match tree.page?.bind (·.tag) with
  | some tag => pure (tag.descriptor path (Generation.tagTypeName tag.name))
  | none => throw .crash

/-- The tag that the tag file at a path implements, from its directives alone. -/
def signature (c : Compiler) (path : Bytes) : Compile TagDescriptor := do
  let path := cleanPath path
  Compile.recovering do
    let source ← Compile.asking (c.sourceTextM (← get) path)
    let request : ParseRequest := {
      path := path, text := source.text, directivesOnly := true, tagFile := true,
      encoding := source.encoding }
    let tree ← parse request (c.host none)
    descriptor path (← c.validated path tree)

/-- The name of the type generated for a unit. -/
def typeName (path : Bytes) (tree : Node) : Bytes :=
  match tree.page?.bind (·.tag) with
  | some tag => Generation.tagTypeName tag.name
  | none => Generation.typeName path

/-- How the code of a unit is generated after some events. -/
def generation (c : Compiler) (path : Bytes) (tree : Node) (log : List Event) :
    Generation.Options :=
  { c.options.generation (typeName path tree) with order := c.order log }

/-- The unit of generated code, with its line map. -/
def unitOf (path encoding : Bytes) (code : GeneratedUnit) : CompiledUnit :=
  let fileName := Generation.fileName path
  let lines := code.tree.lineMap.optimize.stratum LineMap.pageStratum
  { path := path, typeName := code.typeName, fileName := fileName, encoding := encoding,
    isTagFile := code.tree.head.unit.any (·.isTagFile), source := code.source,
    lineMap := (LineMap.ofStratum fileName lines).text, tree := code.tree }

/-- Compiles the bytes of a unit, given how tag files are described. -/
def compileUnit (c : Compiler) (describe : Bytes → Compile TagDescriptor) (path raw : Bytes)
    (form : PageSyntax) : Compile CompiledUnit :=
  Compile.running path <| Compile.recovering do
    let source ← Compile.ofFault
      (Charset.readSource c.options.encodings path raw (c.fallback (← get)))
    Compile.reading source.encoding do
      Compile.report .debug "compiling unit"
        [("unit", .text path), ("encoding", .text source.encoding)]
      let request : ParseRequest := {
        path := path, text := source.text, form := form, encoding := source.encoding }
      let tree ← Compile.noting path "parse failed" (parse request (c.host (some describe)))
      let tree ← Compile.noting path "validation failed" (c.validated path tree)
      let options := c.generation path tree (← get).log
      let code ← Compile.noting path "generation failed" (Compile.ofFailure (tree.generate options))
      Compile.report .info "unit compiled" [
        ("unit", .text path), ("type", .text code.typeName), ("fragments", .number code.fragments),
        ("hoisted", .number code.hoisted)]
      return unitOf path source.encoding code

/-- Keeps the tag that a compiled tag file implements. -/
def keepSignature (path : Bytes) (u : CompiledUnit) : Compile TagDescriptor := do
  let d ← descriptor path u.tree
  modify fun s => { s with signatures := (path, d) :: s.signatures }
  return d

/-- The tag that the tag file at a path implements, given how units are compiled. -/
def describe (c : Compiler) (compile : Bytes → Bytes → PageSyntax → Compile CompiledUnit)
    (path : Bytes) : Compile TagDescriptor := do
  let path := cleanPath path
  let s ← get
  match s.signatures.lookup path, s.units.lookup path with
  | some d, _ => return d
  | none, some u => keepSignature path u
  | none, none =>
    if s.running.contains path then
      Compile.report .debug "tag file depends on itself, extracting signature"
        [("unit", .text path)]
      c.signature path
    else
      let raw ← Compile.asking (c.readFileM path)
      let u ← Compile.noting path "tag file failed" (compile path raw .auto)
      modify fun s =>
        { s with units := (path, u) :: s.units, auxiliary := s.auxiliary ++ [u] }
      keepSignature path u

/-- The tag that the tag file at a path implements; units nest no deeper than the fuel. -/
def describeWithin (c : Compiler) : Nat → Bytes → Compile TagDescriptor
  | 0, _ => throw .crash
  | fuel + 1, path => c.describe (c.compileUnit (c.describeWithin fuel)) path

/-- How deep units can nest: the one asked for, and every file once. -/
def depth (c : Compiler) : Nat := (c.files.map (·.files.length)).getD 0 + 2

/-- The tag that the tag file at a path implements, which is compiled if need be. -/
def tagFile (c : Compiler) (path : Bytes) : Compile TagDescriptor := c.describeWithin c.depth path

/-- Compiles the bytes of a unit, and gives the tag files compiled on the way. -/
def run (c : Compiler) (path raw : Bytes) (form : PageSyntax) : Compile Compilation := do
  let before := (← get).auxiliary.length
  let u ← c.compileUnit c.tagFile path raw form
  return ⟨u, (← get).auxiliary.drop before⟩

/-- Compiles bytes as if they were stored at a path. -/
def compileSource (c : Compiler) (path raw : Bytes) (form : PageSyntax) : Compile Compilation :=
  c.run (cleanPath path) raw form

/-- Compiles the source at a path. A tag file that was compiled before is not compiled again. -/
def compile (c : Compiler) (path : Bytes) : Compile Compilation := do
  let path := cleanPath path
  match (← get).units.lookup path with
  | some u => return ⟨u, []⟩
  | none =>
    let r ← c.run path (← Compile.asking (c.readFileM path)) .auto
    if r.unit.isTagFile then modify fun s => { s with units := (path, r.unit) :: s.units }
    return r

end Compiler

end ServerPages
