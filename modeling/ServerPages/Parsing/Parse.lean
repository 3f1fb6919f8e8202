import ServerPages.Parsing.Document
import ServerPages.Parsing.Native

/-!
# Parsing a unit

A unit is a page or a tag file. `parseSource` chooses the syntax of each source, with the files it
includes one level down; inclusions nest no deeper than there are files, because a file that is
being read cannot be included again.
-/

namespace ServerPages

namespace Parsing

variable {σ : Type}

/-- The content of the rest of the current source, inclusions nesting no deeper than the first
argument. -/
def parseSource (env : Env σ) : Nat → SourceParser σ
  | 0 => fun _ _ _ => throw .crash
  | depth + 1 => fun form parent scriptless =>
    let included := includeFile env (parseSource env depth)
    match form with
    | .document => Document.parse env included parent scriptless
    | _ => Native.parse env included parent scriptless

end Parsing

/-- A source to parse, and how. -/
structure ParseRequest where
  /-- Its path. -/
  path : Bytes
  /-- Its text. -/
  text : Bytes
  /-- Its syntax. -/
  form : PageSyntax := .auto
  /-- Whether everything but directives is passed over. -/
  directivesOnly : Bool := false
  /-- Whether it is a tag file whatever its path. -/
  tagFile : Bool := false
  /-- Whether the expression language is off at the start. -/
  elIgnored : Bool := false
  /-- The encoding it was read in. -/
  encoding : Bytes := []

namespace ParseRequest

/-- The syntax that the source is parsed in. -/
def actualForm (r : ParseRequest) : PageSyntax :=
  match r.form with
  | .auto => PageSyntax.detect r.path r.text
  | form => form

/-- The root of the tree. -/
def root (r : ParseRequest) (start : Position) : Head where
  kind := .root
  start := start
  unit := some {
    file := r.path, isDocument := r.actualForm == .document,
    isTagFile := r.tagFile || isTagFilePath r.path, encoding := r.encoding }

/-- The tree of a source, and what the host remembers afterwards. -/
def parse {σ : Type} (r : ParseRequest) (host : Host σ) (memory : σ) : Except Failure Node × σ :=
  let cursor := Cursor.ofText r.path r.text
  let root := r.root cursor.position
  let env : Parsing.Env σ := { host := host, directivesOnly := r.directivesOnly }
  let start : Parsing.State σ := {
    cursor := cursor, files := [r.path], elIgnored := r.elIgnored, memory := memory }
  match Parsing.parseSource env (host.fileCount + 2) r.actualForm root false start with
  | .ok children s => (.ok (.mk root children), s.memory)
  | .error e s => (.error e, s.memory)

end ParseRequest

end ServerPages
