import ServerPages.Expression.Basic
import ServerPages.TagLibrary.Descriptor

/-!
# What the directives of a unit say

The directives of a page or tag file and of the files it includes are merged into one description.
A tag file also describes the tag it implements.
-/

namespace ServerPages

/-- A variable that a tag file declares. -/
structure TagFileVariable where
  /-- The variable as callers see it. -/
  declaration : VariableDeclaration
  /-- The name inside the tag file when an attribute gives the name outside. -/
  «alias» : Bytes := []
  deriving DecidableEq, Repr

/-- The tag that a tag file implements. -/
structure TagInfo where
  /-- Its name. -/
  name : Bytes := []
  /-- A name for tools. -/
  displayName : Bytes := []
  /-- A description. -/
  description : Bytes := []
  /-- What the body of an invocation may hold. -/
  body : BodyContent := .page
  /-- The name of the map that takes attributes that are not declared; empty if there is none. -/
  dynamicAttributes : Bytes := []
  /-- The attributes. -/
  attributes : List AttributeSignature := []
  /-- The variables. -/
  vars : List TagFileVariable := []
  deriving DecidableEq, Repr

/-- The contract of the tag for pages that use it; its handler is generated from the tag file at
`path`. -/
def TagInfo.descriptor (t : TagInfo) (path typeName : Bytes) : TagDescriptor where
  name := t.name
  typeName := typeName
  body := t.body
  attributes := t.attributes
  vars := t.vars.map (·.declaration)
  dynamicAttributes := t.dynamicAttributes != []
  simple := true
  tagFile := path
  info := t.description

/-- What the directives of a unit say. -/
structure PageInfo where
  /-- The packages to import. -/
  imports : List Bytes := []
  /-- The content type of the output. -/
  contentType : Bytes := "text/html"
  /-- The encoding of the source. -/
  pageEncoding : Bytes := []
  /-- The size of the output buffer in bytes; zero if there is none. -/
  buffer : Int := 8192
  /-- Whether a full buffer is flushed. -/
  autoFlush : Bool := true
  /-- Whether the page takes part in a session. -/
  session : Bool := true
  /-- The page that handles errors. -/
  errorPage : Bytes := []
  /-- Whether the page handles errors. -/
  isErrorPage : Bool := false
  /-- Whether the expression language is off. -/
  elIgnored : Bool := false
  /-- Whether code of the page is allowed. -/
  scripting : Bool := true
  /-- Whether blank text around directives is dropped. -/
  trimSpaces : Bool := false
  /-- A description. -/
  info : Bytes := []
  /-- The prefixes of tag libraries with the uris they are bound to. -/
  prefixes : List (Bytes × Bytes) := []
  /-- The library functions that expressions call. -/
  functions : List (Expression.FunctionRef × LibraryFunction) := []
  /-- The tag of a tag file. -/
  tag : Option TagInfo := none
  deriving DecidableEq, Repr

end ServerPages
