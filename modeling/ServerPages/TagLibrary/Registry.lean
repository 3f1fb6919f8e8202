import ServerPages.Source.FileTree
import ServerPages.TagLibrary.Document

/-!
# The registry of tag libraries

A registry binds uris to libraries. Libraries are registered, or loaded from a file tree the first
time their uri is resolved: a uri may name a descriptor document or a directory of tag files. A uri
once bound keeps its library.

Resolving is looking a uri up, loading what is not there and storing what was loaded:
`Registry.find?`, `Registry.loadM` and `Registry.store`. What loads is written over any access to
files; `Registry.load` and the other names without an `M` read the files as they are.
-/

namespace ServerPages

/-- The libraries known so far. -/
structure Registry where
  /-- The libraries by the uri they are bound to. -/
  bound : List (Bytes × TagLibrary) := []
  /-- The known computations of scripting variables by name, the latest first. -/
  extraInfos : List (Bytes × ExtraInfo) := []
  /-- The known checks by the qualified name of a handler type, the latest first. -/
  checks : List (Bytes × AttributeCheck) := []
  /-- Where documents and tag files are, if libraries are loaded at all. -/
  files : Option FileTree := none
  /-- The order in which the tags of a library are completed. -/
  order : MapOrder (Bytes × TagDescriptor) := .asMade

namespace Registry

/-- What a uri that names a descriptor document starts with. -/
def documentScheme : Bytes := "urn:jsptld:"

/-- What a uri that names a directory of tag files starts with. -/
def directoryScheme : Bytes := "urn:jsptagdir:"

/-- The name a check is known by. -/
def qualifiedName (package typeName : Bytes) : Bytes := package ++ "." ++ typeName

/-- The registry with a computation of scripting variables. -/
def addExtraInfo (r : Registry) (name : Bytes) (f : ExtraInfo) : Registry :=
  { r with extraInfos := (name, f) :: r.extraInfos }

/-- The registry with a check of the tags of a handler type. -/
def addCheck (r : Registry) (package typeName : Bytes) (f : AttributeCheck) : Registry :=
  { r with checks := (qualifiedName package typeName, f) :: r.checks }

/-- The library bound to a uri. -/
def find? (r : Registry) (uri : Bytes) : Option TagLibrary := r.bound.lookup uri

/-- A descriptor with the computation and the check that the registry knows for it. -/
def complete (r : Registry) (d : TagDescriptor) : Except Fault TagDescriptor := do
  let extraInfo ←
    if d.extraInfoClass != [] && d.extraInfo.isNone then
      match r.extraInfos.lookup d.extraInfoClass with
      | some f => pure (some f)
      | none =>
        .error (TagLibrary.badDescriptor
          ("tag " ++ Quoted.string d.name ++ ": unknown tei-class " ++
            Quoted.string d.extraInfoClass))
    else pure d.extraInfo
  return { d with
    extraInfo := extraInfo,
    check := d.check <|> r.checks.lookup (qualifiedName d.package d.typeName) }

/-- Why a tag cannot be completed, if it cannot. -/
def fault? (r : Registry) (d : TagDescriptor) : Option Fault :=
  match r.complete d with
  | .error f => some f
  | .ok _ => none

/-- Why the first one of some tags that cannot be completed cannot. -/
def firstFault? (r : Registry) (tags : List (Bytes × TagDescriptor)) : Option Fault :=
  (r.order.walk tags).findSome? fun (_, d) => r.fault? d

/-- The tags of a library with what the registry knows for them. -/
def completeAll (r : Registry) (tags : List (Bytes × TagDescriptor)) :
    Except Fault (List (Bytes × TagDescriptor)) :=
  match r.firstFault? tags with
  | some f => .error f
  | none => tags.mapM fun (name, d) => (r.complete d).map (name, ·)

/-- The registry with a library bound to a uri that is not bound yet. -/
def bind (r : Registry) (uri : Bytes) (l : TagLibrary) : Except Fault Registry := do
  if uri == [] then
    .error (TagLibrary.badDescriptor ("library " ++ Quoted.string l.shortName ++ " has no uri"))
  if (r.find? uri).isSome then
    .error (.config .duplicateTaglib
      ("tag library " ++ Quoted.string uri ++ " already registered"))
  let tags ← r.completeAll l.tags
  return { r with bound := r.bound ++ [(uri, { l with tags := tags })] }

/-- The registry with a library bound to its own uri. -/
def register (r : Registry) (l : TagLibrary) : Except Fault Registry := r.bind l.uri l

/-- The fault of a library that cannot be opened. -/
def cannotOpen (name : Bytes) (cause : Fault) : Fault :=
  .missingLibrary (name ++ ": " ++ cause.text)

/-- The tag files among the files of a directory by tag name. Of two files for one tag the later
one is taken. -/
def tagFilesOf (directory : Bytes) (names : List Bytes) : List (Bytes × Bytes) :=
  names.foldl (fun found name =>
    let ext := SlashPath.extension name
    if ext == ".tag" || ext == ".tagx" then
      let tag := name.dropEnd ext
      found.filter (·.1 != tag) ++ [(tag, SlashPath.join directory name)]
    else found) []

/-- The library bound to a uri after a loaded one was offered for it; one that is bound already is
kept. -/
def store (r : Registry) (uri : Bytes) (l : TagLibrary) : Except Fault (TagLibrary × Registry) :=
  match r.find? uri with
  | some known => .ok (known, r)
  | none => do
    let r ← r.bind uri l
    match r.find? uri with
    | some l => return (l, r)
    | none => .error (.missingLibrary uri)

/-- The library that a document at a path describes; one that gives no uri is known by the path. -/
def libraryAt (path document : Bytes) : Except Fault TagLibrary := do
  let l ← (TagLibrary.ofDocument document).mapError (.wrapped (path ++ ": "))
  return if l.uri == [] then { l with uri := SlashPath.slash :: path } else l

/-! ### Libraries in files -/

section Loading

variable {m : Type → Type} [Monad m] [MonadFiles m]

/-- The library described by a document of a file tree. -/
def loadDocumentM (files : FileTree) (path : Bytes) : m (Except Fault TagLibrary) := do
  match ← MonadFiles.access.opened files (FileTree.pathOf path) with
  | .error f => return .error (cannotOpen path f)
  | .ok (.ok document) => return TagLibrary.ofDocument document
  | .ok (.error f) => return .error (TagLibrary.badDescriptor ("decode descriptor: " ++ f.text))

/-- The library of the tag files in a directory. -/
def loadDirectoryM (files : FileTree) (directory : Bytes) : m (Except Fault TagLibrary) := do
  match ← MonadFiles.access.list files (FileTree.pathOf directory) with
  | .error f => return .error (cannotOpen directory f)
  | .ok names => return .ok {
      uri := directoryScheme ++ directory, shortName := SlashPath.base directory,
      tagFiles := tagFilesOf directory names }

/-- The library that a uri names in the file tree. -/
def loadM (r : Registry) (uri : Bytes) : m (Except Fault TagLibrary) :=
  match r.files with
  | none => return .error (.missingLibrary uri)
  | some files =>
    if uri.startsWith directoryScheme then loadDirectoryM files (uri.dropStart directoryScheme)
    else if uri.startsWith documentScheme || uri.endsWith ".tld" then
      loadDocumentM files (uri.dropStart documentScheme)
    else return .error (.missingLibrary uri)

/-- The library of a uri, loaded if need be, and the registry that knows it. -/
def resolveM (r : Registry) (uri : Bytes) : m (Except Fault (TagLibrary × Registry)) := do
  match r.find? uri with
  | some l => return .ok (l, r)
  | none => return (← r.loadM uri) >>= r.store uri

/-- The library of a uri, loaded if need be, and the registry afterwards, which a failure leaves as
it was. -/
def answerM (uri : Bytes) (r : Registry) : m (Except Fault TagLibrary × Registry) := do
  match ← r.resolveM uri with
  | .ok (l, r) => return (.ok l, r)
  | .error f => return (.error f, r)

/-- The registry with the library of one document added. -/
def addDocumentM (files : FileTree) (r : Registry) (path : Bytes) : m (Except Fault Registry) :=
  return (← MonadFiles.access.read files path) >>= libraryAt path >>= r.register

/-- The documents in the order given added one by one, up to the first that fails. -/
def addDocumentsM (files : FileTree) (r : Registry) : List Bytes → m (Registry × Option Fault)
  | [] => return (r, none)
  | path :: paths => do
    match ← r.addDocumentM files path with
    | .ok r => r.addDocumentsM files paths
    | .error f => return (r, some f)

/-- The registry with the libraries of all documents under a directory. Those before a faulty one
are kept. -/
def loadAllM (r : Registry) (files : FileTree) (directory : Bytes) :
    m (Registry × Option Fault) := do
  match ← MonadFiles.access.walk files (FileTree.pathOf directory) with
  | .error f => return (r, some f)
  | .ok paths => r.addDocumentsM files (paths.filter (SlashPath.extension · == ".tld"))

end Loading

/-! ### Files as they are -/

/-- The library that a uri names in the file tree. -/
def load (r : Registry) (uri : Bytes) : Except Fault TagLibrary := r.loadM (m := Id) uri

/-- The library of a uri, loaded if need be, and the registry that knows it. -/
def resolve (r : Registry) (uri : Bytes) : Except Fault (TagLibrary × Registry) :=
  r.resolveM (m := Id) uri

/-- The library of a uri, loaded if need be, and the registry afterwards. -/
def answer (uri : Bytes) (r : Registry) : Except Fault TagLibrary × Registry :=
  r.answerM (m := Id) uri

/-- The registry with the library of one document added. -/
def addDocument (files : FileTree) (r : Registry) (path : Bytes) : Except Fault Registry :=
  r.addDocumentM (m := Id) files path

/-- The documents in the order given added one by one, up to the first that fails. -/
def addDocuments (files : FileTree) (r : Registry) (paths : List Bytes) :
    Registry × Option Fault :=
  r.addDocumentsM (m := Id) files paths

/-- The registry with the libraries of all documents under a directory. -/
def loadAll (r : Registry) (files : FileTree) (directory : Bytes) : Registry × Option Fault :=
  r.loadAllM (m := Id) files directory

end Registry

end ServerPages
