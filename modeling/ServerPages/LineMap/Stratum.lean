import ServerPages.LineMap.Builder

/-!
# The text of line maps

A line map is written as the name of the generated file, the name of its default stratum, and the
strata. A stratum lists its files and its entries. The number of an entry's file is written where it
differs from that of the entry before, a count or a step where it is not one.
-/

namespace ServerPages.LineMap

/-- One view of the lines of a generated file. -/
structure Stratum (ι : Type := Nat) where
  /-- The name of the view. -/
  name : Bytes
  /-- The source files. -/
  files : List SourceFile
  /-- The entries. -/
  entries : List (Entry ι)
  deriving DecidableEq, Repr

/-- The name of the stratum that holds the lines of pages. -/
def pageStratum : Bytes := "JSP"

/-- What was collected, as a stratum. -/
def Builder.stratum {ι : Type} (b : Builder ι) (name : Bytes) : Stratum ι :=
  ⟨name, b.files, b.entries⟩

variable {ι : Type} [DecidableEq ι] [OfNat ι 1] [LineNumber ι]

/-- The line of text for an entry, after one whose file has a number. -/
def Entry.text (e : Entry ι) (last : Option Nat) : Bytes :=
  let file : Bytes := if last == some e.file then [] else "#" ++ Bytes.ofNat e.file
  let count : Bytes := if e.count == 1 then [] else "," ++ LineNumber.text e.count
  let step : Bytes := if e.step == 1 then [] else "," ++ LineNumber.text e.step
  LineNumber.text e.source ++ file ++ count ++ ":" ++ LineNumber.text e.output ++ step ++ "\n"

/-- The text of entries, after one whose file has a number. -/
def entriesText (last : Option Nat) : List (Entry ι) → Bytes
  | [] => []
  | e :: es => e.text last ++ entriesText (some e.file) es

/-- The text of a file. -/
def SourceFile.text (f : SourceFile) : Bytes :=
  "+ " ++ Bytes.ofNat f.id ++ " " ++ f.name ++ "\n" ++ f.path ++ "\n"

/-- The text of a stratum. -/
def Stratum.text (s : Stratum ι) : Bytes :=
  "*S " ++ s.name ++ "\n*F\n" ++ s.files.flatMap SourceFile.text ++ "*L\n" ++
    entriesText none s.entries

end ServerPages.LineMap

namespace ServerPages

/-- The line map of a generated file. -/
structure LineMap (ι : Type := Nat) where
  /-- The name of the generated file. -/
  output : Bytes
  /-- The name of the default stratum. -/
  default : Bytes
  /-- The strata. -/
  strata : List (LineMap.Stratum ι)
  deriving DecidableEq, Repr

end ServerPages

namespace ServerPages.LineMap

/-- The line map with one stratum. -/
def ofStratum {ι : Type} (output : Bytes) (s : Stratum ι) : LineMap ι := ⟨output, s.name, [s]⟩

/-- The text of a line map. -/
def text {ι : Type} [DecidableEq ι] [OfNat ι 1] [LineNumber ι] (m : LineMap ι) : Bytes :=
  "SMAP\n" ++ m.output ++ "\n" ++ m.default ++ "\n" ++ m.strata.flatMap Stratum.text ++ "*E\n"

end ServerPages.LineMap
