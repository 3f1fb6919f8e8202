import ServerPages.CommandLine.Site
import ServerPages.Json.Value

/-!
# The command line

`compile` compiles the pages of a directory. The settings come from the environment and from the
file `app.env` in the current directory. Events are written to standard error, one value a line.

Everything is decided by `Site.run`; here files are read before it and written after it.
-/

namespace ServerPages.CommandLine

/-- How the program is called. -/
def usage : String := "usage:\n  pagec compile [-root dir] [-out dir] [page ...]\n  pagec serve"

/-- A byte string as text. -/
def textOf (s : Bytes) : String := String.ofList ((Utf8.chars s).map Char.ofNat)

/-- Writes an event to standard error. -/
def log (e : Event) : IO Unit := do (← IO.getStderr).putStrLn (textOf e.json.text)

/-- The bytes of a file, if it can be read. -/
def readFile? (path : String) : IO (Option Bytes) := do
  try
    let here := (← IO.currentDir) / path
    return some (← IO.FS.readBinFile here).data.toList
  catch _ => return none

/-- The files below a directory, their names after that of the directory in the tree. -/
partial def filesBelow (directory : String) (inTree : Bytes) : IO (List (Bytes × Bytes)) := do
  let here := (← IO.currentDir) / directory
  let mut files := []
  for entry in ← here.readDir do
    let path := directory ++ "/" ++ entry.fileName
    let name := inTree ++ Bytes.ofString entry.fileName
    if ← entry.path.isDir then files := files ++ (← filesBelow path (name ++ [SlashPath.slash]))
    else if let some text ← readFile? path then files := files ++ [(name, text)]
  return files

/-- The files of a directory, if it is there. -/
def tree? (directory : String) : IO (Option FileTree) := do
  let here := (← IO.currentDir) / directory
  if ← here.isDir then
    return some { files := ← filesBelow directory [], medium := .disk (Bytes.ofString directory) }
  else return none

/-- The disk as far as a command looks at it. -/
def diskOf (c : CompileCommand) : IO Site.Disk := do
  let tree ← if c.root == [] then pure none else tree? (textOf c.root)
  let mut files := []
  for path in [c.root, c.output] do
    let here := (← IO.currentDir) / textOf path
    if (← here.pathExists) && !(← here.isDir) then files := files ++ [path]
  return { directory? := fun _ => tree, files := files }

/-- Writes a file, with the directories it lies in. -/
def writeFile (file : Bytes × Bytes) : IO Unit := do
  let here := (← IO.currentDir) / textOf file.1
  IO.FS.createDirAll ((← IO.currentDir) / textOf (SlashPath.parent file.1))
  IO.FS.writeBinFile here (ByteArray.mk file.2.toArray)

/-- The variables that settings come from. -/
def variableNames : List String := [
  "ENVIRONMENT", "HTTP_SERVER_ADDRESS", "REDIS_ADDRESS", "ARTIFACT_TTL", "PAGE_ROOT", "OUTPUT_DIR",
  "TAGLIB_DIR", "RUNTIME_IMPORT", "OUTPUT_PACKAGE", "POOL_TAG_HANDLERS", "TEXT_CHUNK_SIZE",
  "POOL_LITERAL_TEXT", "DEFAULT_ENCODING", "MAX_ERRORS"]

/-- The settings of the program. -/
def settings? : IO (Option Settings) := do
  let mut environment : EnvFile.Variables := []
  for name in variableNames do
    if let some value ← IO.getEnv name then
      environment := (Bytes.ofString name, Bytes.ofString value) :: environment
  return Settings.load? environment (← readFile? "app.env")

/-- The event for a failure of the command. -/
def failed : Failure → Event
  | .fault f => ⟨.error, "compilation failed", [("error", .text f.text)]⟩
  | .invariant message => ⟨.error, "compilation failed", [("error", .text message)]⟩
  | .crash => ⟨.error, "compilation failed", []⟩

/-- Compiles pages as arguments ask for. -/
def compile (settings : Settings) (arguments : List Bytes) : IO UInt32 := do
  let disk : Site.Disk ← match Site.command settings arguments with
    | .ok c => diskOf c
    | .error _ => pure { directory? := fun _ => none }
  let report := Site.run disk settings arguments
  report.outputs.forM writeFile
  report.log.forM log
  match report.failure with
  | none => return 0
  | some e =>
    log (failed e)
    return 1

end ServerPages.CommandLine

open ServerPages in
/-- Runs the program. -/
def main (arguments : List String) : IO UInt32 := do
  match ← CommandLine.settings? with
  | none =>
    CommandLine.log ⟨.error, "cannot read config file", []⟩
    return 1
  | some settings =>
    match arguments with
    | "compile" :: rest => CommandLine.compile settings (rest.map Bytes.ofString)
    | _ =>
      (← IO.getStderr).putStrLn CommandLine.usage
      return 2
