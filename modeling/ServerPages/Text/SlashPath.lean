import ServerPages.Text.Bytes

/-!
# Slash-separated paths

Page paths are byte strings of elements separated by slashes. The operations are lexical: they
never look at a file system.
-/

namespace ServerPages.SlashPath

/-- The byte between path elements. -/
def slash : UInt8 := 47

/-- One element of a path added to the elements kept so far, last first. An empty element or `.`
changes nothing and `..` takes the element before it away; above the start it is kept in a
relative path and dropped in a rooted one. -/
def pushElement (rooted : Bool) (kept : List Bytes) (e : Bytes) : List Bytes :=
  if e == [] || e == "." then kept
  else if e == ".." then
    match kept with
    | [] => if rooted then [] else [e]
    | k :: ks => if k == ".." then e :: k :: ks else ks
  else e :: kept

/-- The shortest path naming the same place. -/
def clean (p : Bytes) : Bytes :=
  let rooted := p.head? == some slash
  let kept := (p.splitOnByte slash).foldl (pushElement rooted) []
  let body := Bytes.join [slash] kept.reverse
  if rooted then slash :: body else if body == [] then "." else body

/-- The place named by `q` seen from `p`. -/
def join (p q : Bytes) : Bytes :=
  if p == [] && q == [] then [] else if p == [] then clean q else clean (p ++ slash :: q)

/-- The last element of a path, trailing slashes being ignored. -/
def base (p : Bytes) : Bytes :=
  if p == [] then "."
  else
    let q := p.trimRight (· == slash)
    if q == [] then [slash]
    else match q.lastIndexOfByte? slash with
      | none => q
      | some i => q.drop (i + 1)

/-- The suffix of the last element from its last dot on, empty if it has no dot. -/
def extension (p : Bytes) : Bytes :=
  let last := (p.reverse.takeWhile (· != slash)).reverse
  match Bytes.lastIndexOfByte? 46 last with
  | none => []
  | some i => last.drop i

/-- The path without its last element. -/
def parent (p : Bytes) : Bytes :=
  match p.lastIndexOfByte? slash with
  | none => "."
  | some i => clean (p.take (i + 1))

end ServerPages.SlashPath
