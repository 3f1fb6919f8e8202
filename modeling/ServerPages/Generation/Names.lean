import ServerPages.TagLibrary.Setter
import ServerPages.Text.SlashPath
import ServerPages.Unicode.Digit

/-!
# Names in generated code

Types, files and fields are named after the path of their source, the tag or the attribute.
-/

namespace ServerPages.Generation

/-- A word with its first character in upper case. -/
def capitalized (word : Bytes) : Bytes :=
  match Utf8.first? word with
  | none => []
  | some (c, width) => Utf8.encode (Unicode.toUpper c) ++ word.drop width

/-- The type generated for a page: the words of its file name, capitalized. -/
def typeName (path : Bytes) : Bytes :=
  let words := (SlashPath.base path).wordsBy fun c => !Unicode.isLetter c && !Unicode.isDigit c
  let name := words.flatMap capitalized
  match name with
  | [] => "Page"
  | b :: _ => if Bytes.isDigit b then "P" ++ name else name

/-- The type generated for a tag file. -/
def tagTypeName (tag : Bytes) : Bytes := Setter.exported tag ++ "Tag"

/-- The file generated for a source. -/
def fileName (path : Bytes) : Bytes :=
  ((SlashPath.base path).map fun b => if b == 46 || b == 45 then 95 else b) ++ ".go"

/-- The field that holds an attribute of a tag file. -/
def fieldName (name : Bytes) : Bytes := "attr" ++ Setter.exported name

/-- A text with its first byte in lower case. A first byte beyond ASCII is not a character of its
own and becomes the replacement character. -/
def lowerFirst : Bytes → Bytes
  | [] => []
  | b :: s => (if b < 0x80 then [Bytes.lowerByte b] else Utf8.encode Utf8.replacement) ++ s

/-- The lower-case ASCII letters and digits of a text, from its first letter on. -/
def identifier (s : Bytes) : Bytes :=
  let letters := s.filter fun b => Bytes.isAlpha b || Bytes.isDigit b
  let word := (letters.dropWhile Bytes.isDigit).map Bytes.lowerByte
  if word == [] then "pkg" else word

end ServerPages.Generation
