import ServerPages.Diagnostics.Fault
import ServerPages.Text.SlashPath

/-!
# Trees of source files

A file tree is a finite set of files named by slash-separated paths without a leading slash. Its
directories are the ones its files lie in. A tree held in memory and one on disk differ in how
they word their faults, and a tree on disk may be out of reach.

What reads files asks for them by name in some monad, which has an access to files, `FileAccess`. A
tree answers all names unless another access is given.

Main operations: `FileTree.read`, `FileTree.opened`, `FileTree.list` and `FileTree.walk`.
-/

namespace ServerPages

/-- Why a directory on disk cannot be opened. -/
inductive Unreachable where
  /-- It has no name. -/
  | unnamed
  /-- Nothing has its name. -/
  | absent
  /-- A file has its name. -/
  | isFile
  deriving DecidableEq, Repr

/-- Where the files of a tree are held. -/
inductive Medium where
  /-- In memory. -/
  | memory
  /-- On disk, below a directory. -/
  | disk (directory : Bytes)
  /-- Nowhere: the directory that they should be below cannot be opened. -/
  | nowhere (reason : Unreachable)
  deriving DecidableEq, Repr

/-- A finite set of files. -/
structure FileTree where
  /-- The files by path. -/
  files : List (Bytes × Bytes) := []
  /-- Where they are held. -/
  medium : Medium := .memory
  deriving Repr

namespace FileTree

/-- The root directory. -/
def root : Bytes := "."

/-- Whether a path may name a file: it is well formed UTF-8, and none of its elements is empty,
`.` or `..`, unless it is the root. -/
def isPlain (path : Bytes) : Bool :=
  Utf8.isValid path &&
    (path == root ||
      (path.splitOnByte SlashPath.slash).all fun e => !(e == [] || e == "." || e == ".."))

/-- The path in a tree of a path seen from its root. -/
def pathOf (path : Bytes) : Bytes :=
  let p := (SlashPath.clean (SlashPath.slash :: path)).drop 1
  if p == [] then root else p

/-- What every path in a directory starts with. -/
def inside (directory : Bytes) : Bytes :=
  if directory == root then [] else directory ++ [SlashPath.slash]

/-- Whether the tree can be reached. -/
def isReachable (t : FileTree) : Bool := !(t.medium matches .nowhere _)

/-- Whether a path is the root or a directory that holds a file, at any depth. -/
def isDirectory (t : FileTree) (path : Bytes) : Bool :=
  t.isReachable && (path == root || t.files.any fun f => f.1.startsWith (inside path))

/-- Whether a path may be asked for on disk. -/
def isOnDisk (path : Bytes) : Bool := isPlain path && !path.contains 0

/-- The longest name of a file on disk. -/
def maxName : Nat := 255

/-- The longest path of a file on disk. -/
def maxPath : Nat := 4095

/-- Whether an element of a path, after the elements of some directory, is too long while all those
before it name directories. -/
def meetsLongName (t : FileTree) (directory : List Bytes) : List Bytes → Bool
  | [] => false
  | e :: es =>
    let here := directory ++ [e]
    if maxName < e.length then true
    else t.isDirectory (Bytes.join [SlashPath.slash] here) && t.meetsLongName here es

/-- Whether a path is too long for the disk. -/
def isTooLong (t : FileTree) (path : Bytes) : Bool :=
  maxPath < path.length || t.meetsLongName [] (path.splitOnByte SlashPath.slash)

/-- Whether a path leads through a file. -/
def leadsThroughFile (t : FileTree) (path : Bytes) : Bool :=
  t.files.any fun f => path.startsWith (inside f.1) && f.1 != root

/-- The fault of a path that names nothing, met by an operation. -/
def missing (t : FileTree) (operation path : Bytes) : Fault :=
  let refused (reason : Bytes) : Fault := .plain (operation ++ " " ++ path ++ ": " ++ reason)
  let absent : Fault := .missingFile (operation ++ " " ++ path ++ ": no such file or directory")
  match t.medium with
  | .memory => .missingFile ("open " ++ path ++ ": file does not exist")
  | .nowhere .unnamed => refused "os: DirFS with empty root"
  | .nowhere reason =>
    if !isOnDisk path then refused "invalid argument"
    else if reason == .isFile then refused "not a directory"
    else absent
  | .disk _ =>
    if !isOnDisk path then refused "invalid argument"
    else if t.isTooLong path then refused "file name too long"
    else if t.leadsThroughFile path then refused "not a directory"
    else absent

/-- The fault of reading a directory. -/
def readsDirectory (t : FileTree) (path : Bytes) : Fault :=
  match t.medium with
  | .memory => .plain ("read " ++ path ++ ": invalid argument")
  | _ => .plain ("read " ++ path ++ ": is a directory")

/-- The fault of reading a directory that was opened as a file. A tree on disk has forgotten by then
how the directory was named in it. -/
def readsOpenDirectory (t : FileTree) (path : Bytes) : Fault :=
  match t.medium with
  | .disk directory => t.readsDirectory (directory ++ "/" ++ path)
  | _ => t.readsDirectory path

/-- The fault of listing a file. -/
def listsFile (t : FileTree) (path : Bytes) : Fault :=
  match t.medium with
  | .memory => .plain ("readdir " ++ path ++ ": not implemented")
  | _ => .plain ("open " ++ path ++ ": not a directory")

/-- The text of a file. -/
def file? (t : FileTree) (path : Bytes) : Option Bytes :=
  if isPlain path then t.files.lookup path else none

/-- Whether a path names a file or a directory. -/
def exists? (t : FileTree) (path : Bytes) : Bool :=
  isPlain path && ((t.files.lookup path).isSome || t.isDirectory path)

/-- The text of a file. -/
def read (t : FileTree) (path : Bytes) : Except Fault Bytes :=
  match t.file? path with
  | some data => .ok data
  | none =>
    if t.exists? path then .error (t.readsDirectory path)
    else .error (t.missing (if isOnDisk path then "open" else "readfile") path)

/-- What reading a file gives once it is open. -/
def opened (t : FileTree) (path : Bytes) : Except Fault (Except Fault Bytes) :=
  if !t.exists? path then .error (t.missing "open" path)
  else match t.file? path with
    | some data => .ok (.ok data)
    | none => .ok (.error (t.readsOpenDirectory path))

/-- The names of the files right in a directory, in ascending order. -/
def list (t : FileTree) (path : Bytes) : Except Fault (List Bytes) :=
  if (t.file? path).isSome then .error (t.listsFile path)
  else if !t.exists? path then
    .error (t.missing (if isOnDisk path then "open" else "readdir") path)
  else
    let names := t.files.filterMap fun f =>
      if f.1.startsWith (inside path) then some (f.1.drop (inside path).length) else none
    .ok (Bytes.sort (names.filter fun n => !n.contains SlashPath.slash && n != []))

/-- Whether the elements `s` of a path come before the elements `t` or equal them. -/
def elementsLe : List Bytes → List Bytes → Bool
  | [], _ => true
  | _ :: _, [] => false
  | a :: s, b :: t => if a == b then elementsLe s t else a.le b

/-- The paths of all files under a path, element by element in ascending order. -/
def walk (t : FileTree) (path : Bytes) : Except Fault (List Bytes) :=
  if (t.file? path).isSome then .ok [path]
  else if !t.exists? path then .error (t.missing "stat" path)
  else
    let paths := (t.files.map (·.1)).filter fun p =>
      p.startsWith (inside path) && !t.leadsThroughFile p
    .ok (paths.mergeSort fun p q =>
      elementsLe (p.splitOnByte SlashPath.slash) (q.splitOnByte SlashPath.slash))

end FileTree

/-- How the names of files in a tree are answered in a monad. -/
structure FileAccess (m : Type → Type) where
  /-- The text of a file. -/
  read : FileTree → Bytes → m (Except Fault Bytes)
  /-- What reading a file gives once it is open. -/
  opened : FileTree → Bytes → m (Except Fault (Except Fault Bytes))
  /-- The names of the files right in a directory. -/
  list : FileTree → Bytes → m (Except Fault (List Bytes))
  /-- The paths of all files under a path. -/
  walk : FileTree → Bytes → m (Except Fault (List Bytes))

/-- All names are answered by the tree. -/
def FileAccess.direct {m : Type → Type} [Pure m] : FileAccess m where
  read t name := pure (t.read name)
  opened t name := pure (t.opened name)
  list t name := pure (t.list name)
  walk t name := pure (t.walk name)

/-- A monad in which files are asked for. -/
class MonadFiles (m : Type → Type) where
  /-- How names are answered. -/
  access : FileAccess m

instance {m : Type → Type} [Pure m] : MonadFiles m := ⟨.direct⟩

end ServerPages
