import ServerPages.Tree.Node

/-!
# Writers of generated code

A writer holds whole lines of code and counts them. Nodes that are begun and ended in a writer are
given the lines written in between. Code written to one writer may be spliced into another, which
then takes over the nodes and moves their lines to where the code now stands.

The lines of the nodes are kept in one table for all writers (`Spans`).
-/

namespace ServerPages.Generation

/-- The lines of nodes by number, the latest entry first. -/
abbrev Spans := List (Nat × LineSpan)

namespace Spans

/-- The lines of a node. -/
def get (s : Spans) (node : Nat) : LineSpan := (s.lookup node).getD {}

/-- The table with the lines of a node changed. -/
def set (s : Spans) (node : Nat) (span : LineSpan) : Spans := (node, span) :: s

/-- The table with the lines of a node moved down; a node without lines stays so. -/
def shift (offset : Nat) (s : Spans) (node : Nat) : Spans :=
  let span := s.get node
  if span.first == 0 then s else s.set node ⟨span.first + offset, span.last + offset⟩

end Spans

/-- Code being written. -/
structure Writer where
  /-- What was written, latest first; every piece ends a line. -/
  written : List Bytes := []
  /-- The number of the next line. -/
  line : Nat := 1
  /-- How far lines are indented. -/
  indent : Nat := 0
  /-- The nodes whose lines are counted in this writer, latest first. -/
  marked : List Nat := []
  deriving Repr

namespace Writer

/-- The code. -/
def text (w : Writer) : Bytes := w.written.reverse.flatten

/-- Whether nothing was written. -/
def isEmpty (w : Writer) : Bool := w.written.isEmpty

/-- The writer after an indented line. Line ends inside the text are counted. -/
def println (w : Writer) (s : Bytes) : Writer :=
  let tabs := if s == [] then [] else List.replicate w.indent 9
  { w with
    written := (tabs ++ s ++ [10]) :: w.written, line := w.line + 1 + Bytes.countByte 10 s }

/-- The writer with lines indented further. -/
def indented (w : Writer) : Writer := { w with indent := w.indent + 1 }

/-- The writer with lines indented less far, if they are indented at all. -/
def outdented? (w : Writer) : Option Writer :=
  match w.indent with
  | 0 => none
  | n + 1 => some { w with indent := n }

/-- The writer after a line that opens a block. -/
def openBlock (w : Writer) (s : Bytes) : Writer := (w.println s).indented

/-- The writer after a line that closes a block. -/
def closeBlock? (w : Writer) (s : Bytes) : Option Writer := w.outdented?.map (·.println s)

/-- Marks the next line as the first one of a node. -/
def begin (w : Writer) (node : Nat) (spans : Spans) : Writer × Spans :=
  ({ w with marked := node :: w.marked }, spans.set node ⟨w.line, 0⟩)

/-- Marks the line before as the last one of a node. A node for which nothing was written has no
lines. -/
def finish (w : Writer) (node : Nat) (spans : Spans) : Spans :=
  let span := spans.get node
  spans.set node (if w.line == span.first then { span with first := 0 }
    else { span with last := w.line - 1 })

/-- The writer after the code of another one, whose nodes it takes over. -/
def splice (w o : Writer) (spans : Spans) : Writer × Spans :=
  let moved := o.marked.filter fun n => (spans.get n).first != 0
  ({ w with
      written := o.written ++ w.written, line := w.line + (o.line - 1),
      marked := moved ++ w.marked },
    o.marked.foldr (fun n s => s.shift (w.line - 1) n) spans)

/-- A writer whose nodes were taken over. -/
def released (w : Writer) : Writer := { w with marked := [] }

end Writer

end ServerPages.Generation
