import ServerPages.Tree.Node

/-!
# Walking a tree

A walk visits a node before its children, and the children in order. The visitor decides at each
node whether its children are visited too, or the whole walk ends.
-/

namespace ServerPages

/-- What a visitor decides at a node. -/
inductive Visit where
  /-- The children are visited. -/
  | enter
  /-- The children are passed over. -/
  | skip
  /-- The walk ends. -/
  | stop
  deriving DecidableEq, Repr

/-- A node that was visited, with the kind of its parent. -/
structure Step where
  /-- The kind of the parent; the node that the walk starts at has none. -/
  parent : Option Kind
  /-- The node. -/
  node : Node

namespace Node

mutual

/-- The steps of a walk, and whether the visitor ended it. -/
def walkFrom (visit : Node → Visit) (parent : Option Kind) : Node → List Step × Bool
  | mk h cs =>
    let here : Step := ⟨parent, mk h cs⟩
    match visit (mk h cs) with
    | .stop => ([here], true)
    | .skip => ([here], false)
    | .enter =>
      if h.kind.allowsBody then
        let (steps, stopped) := walkAll visit h.kind cs
        (here :: steps, stopped)
      else ([here], false)

/-- The steps of the walks of some children, and whether the visitor ended one. -/
def walkAll (visit : Node → Visit) (parent : Kind) : List Node → List Step × Bool
  | [] => ([], false)
  | c :: cs =>
    let (steps, stopped) := walkFrom visit (some parent) c
    if stopped then (steps, true)
    else
      let (more, stopped) := walkAll visit parent cs
      (steps ++ more, stopped)

end

/-- The steps of a walk that starts at a node, and whether the visitor ended it. -/
def walk (visit : Node → Visit) (n : Node) : List Step × Bool := walkFrom visit none n

/-- The nodes of a tree in the order of a walk that visits them all. -/
def all (n : Node) : List Node := (walk (fun _ => .enter) n).1.map (·.node)

/-- The first node of a tree that satisfies a test. -/
def find? (test : Node → Bool) (n : Node) : Option Node := n.all.find? test

end Node

end ServerPages
