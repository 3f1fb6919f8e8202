import ServerPages.LineMap.Builder
import ServerPages.Tree.Walk

/-!
# The line map of a tree

The nodes of a generated unit know their lines of code. Text and code of the page map line by line
where every source line gave one generated line. The code of any other node maps to the line on
which the node starts, up to the first line of a descendant and again after the last one.
-/

namespace ServerPages.LineMap

/-- The number of lines of a text; a line end at its end starts no further line. -/
def inputLines (s : Bytes) : Nat := Bytes.countByte 10 (Bytes.dropEnd s "\n") + 1

/-- Whether the lines of `inner` start among those of `outer`, after the first of them. -/
def startsInside (outer inner : LineSpan) : Bool :=
  outer.first < inner.first && inner.first ≤ outer.last

/-- The hull of the lines of the descendants that start inside a node's own lines, cut at the end of
these; `none` if there is no such descendant. -/
def childLines? (outer : LineSpan) (descendants : List LineSpan) : Option LineSpan :=
  let inside := descendants.filter (startsInside outer)
  match inside with
  | [] => none
  | s :: _ =>
    some ⟨inside.foldl (fun m t => min m t.first) s.first,
      inside.foldl (fun m t => max m (min t.last outer.last)) 0⟩

/-- Whether the text of a node may map line by line. -/
def isLineByLine : Kind → Bool
  | .text | .scriptlet | .declaration | .expression => true
  | _ => false

/-- Adds the entry of a node that maps line by line if it has as many generated as source lines. -/
def addText (b : Builder) (h : Head) : Builder :=
  let output := h.lines.last + 1 - h.lines.first
  if inputLines h.text == output then b.addLines h.start output h.lines.first
  else b.addFact h.start h.lines.first output

mutual

/-- Adds the entries of a node and its descendants. -/
def addNode (b : Builder) : Node → Builder
  | .mk h cs =>
    if h.lines.first == 0 || h.kind == .root then
      if h.kind.allowsBody then addNodes b cs else b
    else if isLineByLine h.kind then addText b h
    else
      let below := ((Node.mk h cs).all.drop 1).map (·.head.lines)
      match childLines? h.lines below with
      | none =>
        let b := b.addFact h.start h.lines.first (h.lines.last + 1 - h.lines.first)
        if h.kind.allowsBody then addNodes b cs else b
      | some inner =>
        let b := b.addFact h.start h.lines.first (inner.first - h.lines.first)
        if h.kind.allowsBody then
          let b := addNodes b cs
          if inner.last == 0 then b
          else b.addFact h.start (inner.last + 1) (h.lines.last - inner.last)
        else b

/-- Adds the entries of some nodes and their descendants. -/
def addNodes (b : Builder) : List Node → Builder
  | [] => b
  | n :: ns => addNodes (addNode b n) ns

end

end ServerPages.LineMap

namespace ServerPages

/-- The entries of a generated tree. -/
def Node.lineMap (root : Node) : LineMap.Builder := LineMap.addNode {} root

end ServerPages
