import ServerPages.Markup.Token

/-!
# Elements of a document

The first element of a document as a tree. Start and end tags must match; what follows the element
is not looked at. A problem is reported with the line on which reading stopped.
-/

namespace ServerPages.Markup

/-- An element, or character data. -/
inductive Element where
  /-- Character data. -/
  | text (data : Bytes)
  /-- An element with its name and content. -/
  | node (name : Name) (content : List Element)

namespace Element

/-- The elements of a given local name in a list. -/
def named (name : Bytes) (es : List Element) : List (List Element) :=
  es.filterMap fun
    | .node n content => if n.base == name then some content else none
    | .text _ => none

/-- The character data directly in a list. -/
def dataOf (es : List Element) : Bytes :=
  es.flatMap fun
    | .text data => data
    | .node _ _ => []

/-- The character data of the last element of a given name, empty if there is none. -/
def field (name : Bytes) (es : List Element) : Bytes :=
  ((named name es).getLast?.map dataOf).getD []

end Element

/-- The message of a problem met in `document`: problems of the markup name the line. -/
def Problem.textIn (document : Bytes) (p : Problem) : Bytes :=
  if p.isSyntax then
    let before := document.take (document.length - p.rest.length)
    "XML syntax error on line " ++ Bytes.ofNat (1 + Bytes.countByte 10 before) ++ ": " ++ p.message
  else p.message

/-- The problem of an end tag that does not belong to the innermost open element. -/
def mismatch (opened closed : Name) (rest : Bytes) : Problem :=
  if opened.base != closed.base then
    problem ("element <" ++ opened.base ++ "> closed by </" ++ closed.base ++ ">") rest
  else
    let space : Bytes := if closed.space == [] then "\"\"" else closed.space
    problem ("element <" ++ opened.base ++ "> in space " ++ opened.space ++ " closed by </" ++
      closed.base ++ "> in space " ++ space) rest

/-- The content of the element `opened` up to its end tag; `read` is the content read already and
`outer` the open elements around it with theirs, all last first. Every token takes a byte or is
the end tag of a self-closing element, so twice the number of bytes bounds the tokens. -/
def contentWithin : Nat → Name → List Element → List (Name × List Element) → Reader →
    Except Problem (List Element)
  | 0, _, _, _, _ => .error unexpectedEnd
  | fuel + 1, opened, read, outer, r => do
    match ← r.next false with
    | none => .error unexpectedEnd
    | some (.text data, r) => contentWithin fuel opened (.text data :: read) outer r
    | some (.other, r) => contentWithin fuel opened read outer r
    | some (.startTag name _ _, r) =>
      contentWithin fuel name [] ((opened, read) :: outer) r
    | some (.endTag name, r) =>
      if name != opened then .error (mismatch opened name r.rest)
      else match outer with
        | [] => return read.reverse
        | (parent, before) :: outer =>
          contentWithin fuel parent (.node opened read.reverse :: before) outer r

/-- The name of the first element and the document after its start tag; `none` if there is no
element. -/
def firstTag : Nat → Reader → Except Problem (Option (Name × Reader))
  | 0, _ => .ok none
  | fuel + 1, r => do
    match ← r.next false with
    | none => return none
    | some (.startTag name _ _, r) => return some (name, r)
    | some (.endTag name, r) =>
      .error (problem ("unexpected end element </" ++ name.base ++ ">") r.rest)
    | some (_, r) => firstTag fuel r

/-- The content of the first element of a document, which must have the given local name. -/
def contentOf (name document : Bytes) : Except Bytes (List Element) :=
  let fuel := 2 * document.length + 2
  match firstTag fuel { rest := document } with
  | .error p => .error (p.textIn document)
  | .ok none => .error "EOF"
  | .ok (some (found, r)) =>
    if found.base != name then
      .error ("expected element type <" ++ name ++ "> but have <" ++ found.base ++ ">")
    else (contentWithin fuel found [] [] r).mapError (·.textIn document)

end ServerPages.Markup
