import ServerPages.Source.Position
import ServerPages.Text.SlashPath

/-!
# Entries of line maps

A line map relates lines of source files to lines of generated code. An entry covers a run of source
lines, each of which gave the same number of generated lines. A builder collects entries as facts
about the code come in and gives the files numbers in the order in which they turn up.

`Builder.optimize` joins neighbours: first entries for one source line whose generated lines follow
each other, then entries for successive source lines.

The lines of a tree are natural numbers. A builder that is given lines by its callers holds them in
words, whose sums and products wrap around.
-/

namespace ServerPages.LineMap

/-- Numbers of lines: natural numbers, or words. -/
class LineNumber (ι : Type) where
  /-- The number of a line. -/
  ofLine : Int → ι
  /-- The number in decimal. -/
  text : ι → Bytes

instance : LineNumber Nat := ⟨Int.toNat, Bytes.ofNat⟩

instance : LineNumber Int64 := ⟨Int64.ofInt, fun n => Bytes.ofInt n.toInt⟩

/-- A run of source lines and the generated lines that belong to them. Source line `source + i`, for
`i` below `count`, gave the `step` generated lines from `output + i * step` on. -/
structure Entry (ι : Type := Nat) where
  /-- The first source line. -/
  source : ι
  /-- The number of source lines. -/
  count : ι
  /-- The first generated line. -/
  output : ι
  /-- The number of generated lines per source line. -/
  step : ι
  /-- The number of the source file. -/
  file : Nat
  deriving DecidableEq, Repr

variable {ι : Type}

namespace Entry

section Join

variable [DecidableEq ι] [Add ι]

/-- One entry for two of the same source line whose generated lines follow each other. -/
def joinSameLine? [OfNat ι 1] (a b : Entry ι) : Option (Entry ι) :=
  if a.file == b.file && a.source == b.source && a.count == 1 && b.count == 1 &&
      b.output == a.output + a.step then
    some { a with step := a.step + b.step }
  else none

/-- One entry for two of successive source lines that gave as many generated lines each. -/
def joinSuccessive? [Mul ι] (a b : Entry ι) : Option (Entry ι) :=
  if a.file == b.file && b.source == a.source + a.count && b.step == a.step &&
      b.output == a.output + a.count * a.step then
    some { a with count := a.count + b.count }
  else none

end Join

/-- The entries after `a` joined to it and to each other, as far as neighbours can be. -/
def joinOnto (join? : Entry ι → Entry ι → Option (Entry ι)) (a : Entry ι) :
    List (Entry ι) → List (Entry ι)
  | [] => [a]
  | b :: es =>
    match join? a b with
    | some c => joinOnto join? c es
    | none => a :: joinOnto join? b es

/-- The entries with neighbours joined, from left to right. -/
def joinAll (join? : Entry ι → Entry ι → Option (Entry ι)) : List (Entry ι) → List (Entry ι)
  | [] => []
  | a :: es => joinOnto join? a es

end Entry

/-- A source file of a line map. -/
structure SourceFile where
  /-- The number that entries refer to it by. -/
  id : Nat
  /-- The name without directories. -/
  name : Bytes
  /-- The whole path. -/
  path : Bytes
  deriving DecidableEq, Repr

/-- The files and entries collected so far. -/
structure Builder (ι : Type := Nat) where
  /-- The files in the order of their numbers. -/
  files : List SourceFile := []
  /-- The entries in the order in which they came in. -/
  entries : List (Entry ι) := []
  deriving DecidableEq, Repr

namespace Builder

/-- The number of a file, and the builder that knows it. -/
def fileId (b : Builder ι) (path : Bytes) : Nat × Builder ι :=
  match b.files.find? (·.path == path) with
  | some f => (f.id, b)
  | none =>
    let id := b.files.length
    (id, { b with files := b.files ++ [⟨id, SlashPath.base path, path⟩] })

/-- The builder with neighbouring entries joined. -/
def optimize [DecidableEq ι] [Add ι] [Mul ι] [OfNat ι 1] (b : Builder ι) : Builder ι :=
  { b with
    entries := Entry.joinAll Entry.joinSuccessive? (Entry.joinAll Entry.joinSameLine? b.entries) }

variable [LineNumber ι] [OfNat ι 0] [LE ι] [DecidableLE ι]

/-- The builder with an entry for the source lines from a position on. An entry that has no source
line or no generated line says nothing and is dropped. -/
def add (b : Builder ι) (p : Position) (count output step : ι) : Builder ι :=
  let line := LineNumber.ofLine p.line
  if line ≤ (0 : ι) || count ≤ 0 || output ≤ 0 || step ≤ 0 then b
  else
    let (id, b) := b.fileId p.file
    { b with entries := b.entries ++ [⟨line, count, output, step, id⟩] }

/-- Notes that `step` generated lines from `output` on belong to the line of a position. -/
def addFact [OfNat ι 1] (b : Builder ι) (p : Position) (output step : ι) : Builder ι :=
  b.add p 1 output step

/-- Notes that the generated lines from `output` on belong, one by one, to `count` source lines from
the line of a position on. -/
def addLines [OfNat ι 1] (b : Builder ι) (p : Position) (count output : ι) : Builder ι :=
  b.add p count output 1

end Builder

end ServerPages.LineMap
