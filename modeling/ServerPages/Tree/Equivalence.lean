import ServerPages.Diagnostics.Fault
import ServerPages.Tree.Node

/-!
# Equivalence of trees

Two trees are equivalent if they have the same nodes with the same names, attributes and content.
Positions, taglib directives, blank text and blanks inside text do not count. `Node.significant`
drops what does not count, and `Node.difference` compares what is left.
-/

namespace ServerPages.Node

/-- The nodes of a list that count, with text next to text merged. -/
def gather (kept : List Node) : List Node → List Node
  | [] => kept
  | c :: cs =>
    if c.kind == .taglibDirective || c.isBlankText then gather kept cs
    else match kept.getLast? with
      | some last =>
        if c.kind == .text && last.kind == .text then
          gather (kept.dropLast ++ [last.extend c.text]) cs
        else gather (kept ++ [c]) cs
      | none => gather [c] cs

mutual

/-- The tree with only the nodes that count. -/
def significant : Node → Node
  | mk h cs => mk h (gather [] (significantAll cs))

/-- `significant` of every node of a list. -/
def significantAll : List Node → List Node
  | [] => []
  | c :: cs => significant c :: significantAll cs

end

/-- A text without its blanks. -/
def withoutBlanks (s : Bytes) : Bytes := s.fields.flatten

/-- The first difference between the attributes of two nodes, those of the second being looked up
by name. -/
def attributeDifference? (here : Bytes) (a b : Head) : Option Bytes :=
  if a.attributes.length != b.attributes.length then
    some (here ++ ": " ++ Bytes.ofNat a.attributes.length ++ " attributes != " ++
      Bytes.ofNat b.attributes.length)
  else a.attributes.findSome? fun x =>
    match b.attr? x.name with
    | none => some (here ++ ": attribute " ++ x.name ++ " missing")
    | some y =>
      if x.kind != y.kind || x.value.trimSpace != y.value.trimSpace then
        some (here ++ ": attribute " ++ x.name ++ " " ++ x.kind.name ++ " " ++
          Quoted.string x.value ++ " != " ++ y.kind.name ++ " " ++ Quoted.string y.value)
      else none

/-- The difference between what two nodes of one kind say themselves. A custom tag that names no
tag cannot be compared. -/
def ownDifference? (here : Bytes) (a b : Head) : Except Failure (Option Bytes) :=
  match a.kind with
  | .text | .declaration | .expression | .scriptlet | .elExpression =>
    if withoutBlanks a.text != withoutBlanks b.text then
      .ok (some (here ++ ": text " ++ Quoted.string a.text ++ " != " ++ Quoted.string b.text))
    else .ok none
  | .customTag =>
    match a.tag, b.tag with
    | some s, some t =>
      if s.uri != t.uri || s.localName != t.localName then
        .ok (some (here ++ ": tag \x7b" ++ s.uri ++ "\x7d" ++ s.localName ++ " != \x7b" ++ t.uri ++
          "\x7d" ++ t.localName))
      else .ok none
    | _, _ => .error .crash
  | .namedAttribute =>
    if a.attributeName != b.attributeName then
      .ok (some (here ++ ": attribute name " ++ a.attributeName ++ " != " ++ b.attributeName))
    else .ok none
  | _ => .ok none

mutual

/-- The first difference between two trees of nodes that count, `path` leading to them. -/
def compare (path : Bytes) : Node → Node → Except Failure (Option Bytes)
  | mk a cs, mk b ds => do
    let here := path ++ "/" ++ a.kind.name
    if a.kind != b.kind then
      return some (path ++ ": kind " ++ a.kind.name ++ " != " ++ b.kind.name)
    else
      let own ← ownDifference? here a b
      match own <|> attributeDifference? here a b with
      | some d => return some d
      | none =>
        if cs.length != ds.length then
          return some (here ++ ": " ++ Bytes.ofNat cs.length ++ " children != " ++
            Bytes.ofNat ds.length)
        else compareAll here 0 cs ds

/-- The first difference between the nodes of two lists, the first pair having the number `i`. -/
def compareAll (here : Bytes) (i : Nat) : List Node → List Node → Except Failure (Option Bytes)
  | c :: cs, d :: ds => do
    match ← compare (here ++ "[" ++ Bytes.ofNat i ++ "]") c d with
    | some d => return some d
    | none => compareAll here (i + 1) cs ds
  | _, _ => .ok none

end

/-- The first difference between two trees, `none` if they are equivalent. -/
def difference (a b : Node) : Except Failure (Option Bytes) :=
  compare [] a.significant b.significant

/-- Whether two trees are equivalent. -/
def isEquivalent (a b : Node) : Except Failure Bool := (a.difference b).map (·.isNone)

end ServerPages.Node
