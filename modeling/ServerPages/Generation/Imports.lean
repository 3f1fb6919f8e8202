import ServerPages.Generation.Names
import ServerPages.Text.Quoted

/-!
# Imports of generated code

Pages ask for imports themselves, and tags and functions bring the packages they live in. A package
that the page does not import gets a name of its own that no other package has.
-/

namespace ServerPages.Generation

/-- The packages that a unit imports. -/
structure Imports where
  /-- The names given to packages, by path. -/
  assigned : List (Bytes × Bytes) := []
  /-- All names in use. -/
  taken : List Bytes := []
  /-- The imports that the page asks for, as written. -/
  asked : List Bytes := []
  deriving Repr

namespace Imports

/-- A text without the quote marks at its ends. -/
def unquoted (s : Bytes) : Bytes := s.trim (· == 34)

/-- The name and the path of an import written as both. -/
def named? (written : Bytes) : Option (Bytes × Bytes) :=
  match written.fields with
  | [name, path] => some (name, unquoted path)
  | _ => none

/-- The name that an import of the page is used by. -/
def nameOf (written : Bytes) : Bytes :=
  match named? written with
  | some (name, _) => name
  | none => SlashPath.base (unquoted written)

/-- The imports with one that the page asks for. -/
def ask (s : Imports) (written : Bytes) : Imports :=
  let written := written.trimSpace
  if written == [] || s.asked.contains written then s
  else { s with asked := s.asked ++ [written], taken := nameOf written :: s.taken }

/-- The imports with a package under a fixed name. -/
def assign (s : Imports) (name path : Bytes) : Imports :=
  { s with
    assigned := (path, name) :: s.assigned.filter (·.1 != path), taken := name :: s.taken }

/-- The name by which the page itself imports a package. -/
def askedName? (s : Imports) (path : Bytes) : Option Bytes :=
  s.asked.findSome? fun written =>
    match named? written with
    | some (name, p) =>
      if p == path then some name
      else if unquoted written == path then some (SlashPath.base path) else none
    | none => if unquoted written == path then some (SlashPath.base path) else none

/-- The first name that is free among `base` with the numbers from `i` on; one of any
`taken.length + 1` names is. -/
def freeNameFrom (taken : List Bytes) (base : Bytes) : Nat → Nat → Bytes
  | 0, i => base ++ Bytes.ofNat i
  | fuel + 1, i =>
    let name := base ++ Bytes.ofNat i
    if taken.contains name then freeNameFrom taken base fuel (i + 1) else name

/-- The first name that is free among `base` and `base` with the numbers from two on. -/
def freeName (taken : List Bytes) (base : Bytes) : Bytes :=
  if taken.contains base then freeNameFrom taken base taken.length 2 else base

/-- The name to use for a package, and the imports with it. -/
def use (s : Imports) (path : Bytes) : Bytes × Imports :=
  match s.assigned.lookup path with
  | some name => (name, s)
  | none =>
    match s.askedName? path with
    | some name => (name, s)
    | none =>
      let name := freeName s.taken (identifier (SlashPath.base path))
      (name, s.assign name path)

/-- A name of a package as it is used in the generated file, and the imports with the package; names
without a package are of the file's own. -/
def qualified (s : Imports) (package name : Bytes) : Bytes × Imports :=
  if package == [] then (name, s) else ((s.use package).1 ++ "." ++ name, (s.use package).2)

/-- An import of the page as a line of code. -/
def askedLine (written : Bytes) : Bytes :=
  match named? written with
  | some (name, path) => name ++ " " ++ Quoted.string path
  | none => Quoted.string (unquoted written)

/-- The lines of the import block in ascending order. -/
def lines (s : Imports) : List Bytes :=
  Bytes.sort (s.asked.map askedLine ++
    s.assigned.map fun (path, name) => name ++ " " ++ Quoted.string path)

end Imports

end ServerPages.Generation
