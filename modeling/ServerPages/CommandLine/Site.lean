import ServerPages.CommandLine.Flags
import ServerPages.Compilation.Compiler
import ServerPages.Settings.Basic

/-!
# Compiling a site

The compile command compiles pages of a directory in one session and writes the code and the line
map of every unit, under the directory of its source. A page that fails is reported, and the others
are compiled all the same.

Main definition: `Site.run`.
-/

namespace ServerPages

namespace Site

/-- What the command has done so far. -/
structure State where
  /-- The files, apart from those of the site, that are known to be there. -/
  files : List Bytes := []
  /-- The session of the compiler. -/
  session : Session := {}
  /-- The files written, in order; a later one replaces an earlier one of the same path. -/
  outputs : List (Bytes × Bytes) := []
  /-- The paths of the units written. -/
  written : List Bytes := []
  /-- The number of pages that failed. -/
  failed : Nat := 0

end Site

/-- A step of the compile command. -/
abbrev Site := EStateM Failure Site.State

namespace Site

/-- Reports an event. -/
def report (level : Level) (message : Bytes) (details : List (Bytes × Detail)) : Site Unit :=
  modify fun s =>
    { s with session := { s.session with log := ⟨level, message, details⟩ :: s.session.log } }

/-- Makes a request of the compiler. -/
def ask {α : Type} (request : Compile α) : Site (Except Fault α) := fun s =>
  match request s.session with
  | .ok a session => .ok (.ok a) { s with session := session }
  | .error (.fault f) session => .ok (.error f) { s with session := session }
  | .error e session => .error e { s with session := session }

/-! ### Files -/

/-- The fault of a directory that cannot be made because of some files. -/
def directoryFault? (files : List Bytes) (directory : Bytes) : Option Fault :=
  if directory == [] then some (.missingFile "mkdir : no such file or directory")
  else if files.contains directory then
    some (.plain ("mkdir " ++ directory ++ ": not a directory"))
  else
    (files.find? fun f => directory.startsWith (f ++ "/")).map fun f =>
      .plain ("mkdir " ++ f ++ "/: file exists")

/-- Makes a directory, with those around it. -/
def makeDirectory (directory : Bytes) : Site Unit := do
  let s ← get
  match directoryFault? (s.files ++ s.outputs.map (·.1)) directory with
  | some f => throw (.fault f)
  | none => pure ()

/-- Writes a file. -/
def writeFile (path text : Bytes) : Site Unit := do
  if FileTree.maxName < (SlashPath.base path).length then
    throw (.fault (.plain ("open " ++ path ++ ": file name too long")))
  if (← get).outputs.any fun f => f.1.startsWith (path ++ "/") then
    throw (.fault (.plain ("open " ++ path ++ ": is a directory")))
  modify fun s => { s with outputs := s.outputs ++ [(path, text)] }

/-- Writes the code and the line map of a unit under a directory, unless they were written
before. -/
def writeUnit (output : Bytes) (u : CompiledUnit) : Site Unit := do
  if (← get).written.contains u.path then return
  let directory := SlashPath.join output (SlashPath.parent u.path)
  let target := SlashPath.join directory u.fileName
  makeDirectory directory
  writeFile target u.source
  writeFile (target ++ ".smap") u.lineMap
  report .debug "unit written" [("unit", .text u.path), ("file", .text target)]
  modify fun s => { s with written := s.written ++ [u.path] }

/-! ### Pages -/

/-- Whether a path is one of a page: one that no private directory holds. -/
def isPage (path : Bytes) : Bool :=
  let extension := SlashPath.extension path
  let directories := (path.splitOnByte SlashPath.slash).dropLast
  (extension == ".jsp" || extension == ".jspx") && !directories.contains (Bytes.ofString "WEB-INF")

/-- The pages of a directory, in the order of their paths. -/
def pagesOf (files : FileTree) : Except Fault (List Bytes) :=
  (files.walk FileTree.root).map fun paths => (paths.filter isPage).map (SlashPath.slash :: ·)

/-- The event for a problem of a page. -/
def problem (page : Bytes) (d : Diagnostic) : Event :=
  let place : List (Bytes × Detail) :=
    if d.position.file == [] then [] else [("at", .text d.position.text)]
  let included : List (Bytes × Detail) :=
    if d.position.includedFrom.isEmpty then []
    else [("included_from", .text (Bytes.join " < " d.position.includedFrom))]
  ⟨.error, d.message, ("page", .text page) :: ("key", .text d.issue.key) :: (place ++ included)⟩

/-- Reports the problems of a page. -/
def reportProblems (page : Bytes) (f : Fault) : Site Unit :=
  f.reported.forM fun d =>
    let e := problem page d
    report e.level e.message e.details

/-- Compiles a page and writes what comes of it. -/
def compilePage (c : Compiler) (output page : Bytes) : Site Unit := do
  match ← ask (c.compile page) with
  | .error f =>
    modify fun s => { s with failed := s.failed + 1 }
    reportProblems page f
  | .ok r => (r.unit :: r.auxiliary).forM (writeUnit output)

/-- Compiles pages. -/
def compilePages (c : Compiler) (output : Bytes) (pages : List Bytes) : Site Unit := do
  makeDirectory output
  pages.forM (compilePage c output)
  let s ← get
  if 0 < s.failed then
    throw (.fault (.plain (Bytes.ofNat s.failed ++ " of " ++ Bytes.ofNat pages.length ++
      " pages failed to compile")))
  report .info "compiled" [
    ("pages", .number pages.length), ("files", .number s.written.length), ("out", .text output)]

/-! ### The command -/

/-- The libraries of a site: those of a directory, which may be missing. -/
def libraries (files : FileTree) (directory : Bytes) : Except Fault Registry :=
  match Registry.loadAll { files := some files } files directory with
  | (r, none) => .ok r
  | (r, some f) => if f.isMissingFile then .ok r else .error f

/-- The disk as far as the command looks at it. -/
structure Disk where
  /-- The files below a directory, if there is such a directory. -/
  directory? : Bytes → Option FileTree
  /-- Files outside of the directories. -/
  files : List Bytes := []

/-- The files below the directory of pages, which may be out of reach. -/
def Disk.pages (d : Disk) (root : Bytes) : FileTree :=
  let reason : Unreachable :=
    if root == [] then .unnamed else if d.files.contains root then .isFile else .absent
  (d.directory? root).getD { medium := .nowhere reason }

/-- The compiler of a site, the state it starts with and the pages to compile. -/
def prepare (disk : Disk) (settings : Settings) (command : CompileCommand) :
    Except Fault (Compiler × State × List Bytes) := do
  let tree := disk.pages command.root
  let registry ← libraries tree settings.libraryDirectory
  let c ← Compiler.create (some tree) true settings.compilerOptions
  let pages ← if command.pages.isEmpty then pagesOf tree else pure command.pages
  return (c, { files := disk.files, session := { registry := registry } }, pages)

/-- What the command did. -/
structure Report where
  /-- How it failed, if it did. -/
  failure : Option Failure
  /-- The files written, in order. -/
  outputs : List (Bytes × Bytes) := []
  /-- The events, in order. -/
  log : List Event := []

/-- The report of a command that ended in a state. -/
def State.report (s : State) (failure : Option Failure) : Report :=
  ⟨failure, s.outputs, s.session.log.reverse⟩

/-- Runs a command. -/
def runCommand (disk : Disk) (settings : Settings) (command : CompileCommand) : Report :=
  match prepare disk settings command with
  | .error f => { failure := some (.fault f) }
  | .ok (c, s, pages) =>
    match compilePages c command.output pages s with
    | .ok _ s => s.report none
    | .error e s => s.report (some e)

/-- The command that arguments ask for. -/
def command (settings : Settings) (arguments : List Bytes) : Except FlagError CompileCommand :=
  CompileCommand.read { root := settings.pageRoot, output := settings.outputDirectory } arguments

/-- Runs the command with arguments. -/
def run (disk : Disk) (settings : Settings) (arguments : List Bytes) : Report :=
  match command settings arguments with
  | .error e => { failure := some (.fault (.plain e.text)) }
  | .ok c => runCommand disk settings c

end Site

end ServerPages
