import ServerPages.Text.Quoted
import ServerPages.Text.SlashPath
import ServerPages.Unicode.Case

/-!
# The two syntaxes of pages

A source is written in the native syntax or as an XML document. Which one is told by its extension
or by its first lines, unless it is asked for.
-/

namespace ServerPages

/-- The syntax of a source. -/
inductive PageSyntax where
  /-- To be told from the source. -/
  | auto
  /-- Template text with directives and code between percent signs. -/
  | native
  /-- A well-formed XML document. -/
  | document
  deriving DecidableEq, Repr

namespace PageSyntax

/-- The name in options. -/
def name : PageSyntax → Bytes
  | .auto => "auto"
  | .native => "native"
  | .document => "xml"

/-- The syntax with a number. -/
def ofCode (code : Int) : PageSyntax :=
  if code == 1 then .native else if code == 2 then .document else .auto

/-- The syntaxes by the names they are asked for with. -/
def names : List (Bytes × PageSyntax) :=
  [([], .auto), ("auto", .auto), ("native", .native), ("standard", .native), ("xml", .document)]

/-- The syntax of a name, in any letter case. -/
def ofName (s : Bytes) : Except Bytes PageSyntax :=
  match names.find? fun n => s.lowerEq n.1 with
  | some n => .ok n.2
  | none => .error ("unknown syntax " ++ Quoted.string s)

/-- The namespace of standard actions and directives in XML documents. -/
def standardNamespace : Bytes := "http://java.sun.com/JSP/Page"

/-- The number of bytes that are looked at to tell the syntax. -/
def headSize : Nat := 2048

/-- The syntax that a source is written in. -/
def detect (path text : Bytes) : PageSyntax :=
  let ext := SlashPath.extension path
  if ext == ".jspx" || ext == ".tagx" then .document
  else
    let head := text.take headSize
    if Bytes.hasInfix head "<jsp:root" && Bytes.hasInfix head standardNamespace then .document
    else .native

end PageSyntax

/-- Whether a path has the extension of a tag file. -/
def isTagFilePath (path : Bytes) : Bool :=
  let ext := SlashPath.extension path
  ext == ".tag" || ext == ".tagx" || ext == ".tagf"

/-- The path of a file named in the source at `base`. -/
def includedPath (base file : Bytes) : Bytes :=
  if file.head? == some SlashPath.slash then SlashPath.clean file
  else SlashPath.join (SlashPath.parent base) file

end ServerPages
