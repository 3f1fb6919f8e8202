import ServerPages.Proofs.Parsing

/-!
# Watched parsing

To say something of all the constructs, rounds and tokens that are read in a parse, wherever in it
they stand, the parse is watched: the parser below raises an alarm when one of them is about to be
read in a state in which it may not be, or when a construct or a round leads to a state to which it
may not lead. Including a file raises the alarm where the cursor refuses to open the file.

The parsers of a document take its tokens from any reader, so here the reader is watched. In every
other respect these are the parsers of `ServerPages.Parsing`. A watched parse that has the outcome
of the parse, whatever the alarm is, raised none.

## Main definitions

* `Watch.around`: a parser that is watched before and after.
* `Native.watchedParse`, `watchedSource`: the content of a source.
* `ParseRequest.parseWatched`: the parse of a unit, inclusions nesting no deeper than a number.
-/

namespace ServerPages

namespace Parsing

/-- What is watched in a parse. -/
structure Watch (σ : Type) where
  /-- The alarm. -/
  alarm : Failure
  /-- Whether something may be read in a state. -/
  mayRead : State σ → Bool
  /-- Whether a construct or a round may lead from the first state to the second one. -/
  mayLead : State σ → State σ → Bool

variable {σ α : Type}

namespace Watch

/-- The parser, watched before it reads. -/
def before (w : Watch σ) (x : Parse σ α) : Parse σ α :=
  fun s => if w.mayRead s then x s else .error w.alarm s

/-- The parser, watched before it reads and after it has succeeded. -/
def around (w : Watch σ) (x : Parse σ α) : Parse σ α :=
  w.before fun s =>
    match x s with
    | .ok a t => if w.mayLead s t then .ok a t else .error w.alarm t
    | .error e t => .error e t

end Watch

/-- `includeFile` with an alarm in the place of the refusal to open the file. -/
def watchedInclude (w : Watch σ) (env : Env σ) (parse : SourceParser σ) (h : Head)
    (scriptless : Bool) : Parse σ (List Node) := do
  match h.attr? "file" with
  | none =>
    refuse .missingAttribute h.start "attribute file is mandatory for the include directive"
  | some file =>
    let s ← get
    let target := includedPath (s.files.headD []) file.value
    if s.files.contains target then
      refuse .circularInclude h.start ("file " ++ target ++ " includes itself through " ++
        Bytes.join " -> " s.files.reverse)
    let text ← match env.host.load with
      | none => refuse .includeFailed h.start ("cannot include " ++ target ++ ": no loader")
      | some question =>
        match ← ask (question target) with
        | .ok text => pure text
        | .error f =>
          refuse .includeFailed h.start ("cannot include " ++ target ++ ": " ++ f.text)
    match s.cursor.open? target text with
    | none => throw w.alarm
    | some inner =>
      modify fun s => { s with cursor := inner, files := target :: s.files }
      let children ← parse (PageSyntax.detect target text) h scriptless
      modify fun t => { t with
        cursor := { s.cursor with opened := t.cursor.opened }, files := s.files,
        document := s.document, passed := s.passed }
      return children

/-! ### The native syntax -/

namespace Native

/-- The parser of one construct, it and all constructs inside it being watched. -/
def watchedElement (w : Watch σ) (env : Env σ) (included : Include σ) : Nat → Element σ
  | 0 => fun _ _ _ => throw .crash
  | fuel + 1 => fun parent scriptless siblings =>
    w.around
      (construct env included (watchedElement w env included fuel) parent scriptless siblings)

/-- One round of the parser that passes over everything but directives. -/
def round (env : Env σ) (included : Include σ) (children : List Node) : Parse σ (List Node) := do
  let c ← cursor
  if ← accepts "<%--" then
    comment c.position
    return children
  else if ← accepts "<%@" then directive env included c.position false children
  else
    moveTo (nextTag c)
    return children

/-- The directives of a source, every round being watched. -/
def watchedDirectives (w : Watch σ) (env : Env σ) (included : Include σ) :
    Nat → List Node → Parse σ (List Node)
  | 0, _ => throw .crash
  | fuel + 1, children => do
    if (← cursor).atEnd then return children
    watchedDirectives w env included fuel (← w.around (round env included children))

/-- The content of the rest of the current source, watched. -/
def watchedParse (w : Watch σ) (env : Env σ) (included : Include σ) (parent : Head)
    (scriptless : Bool) : Parse σ (List Node) := do
  let fuel := (← cursor).rest.length + 1
  if env.directivesOnly then watchedDirectives w env included fuel []
  else sourceWithin (watchedElement w env included fuel) parent scriptless fuel []

end Native

/-! ### Units -/

/-- The content of the rest of the current source, watched. -/
def watchedSource (w : Watch σ) (env : Env σ) : Nat → SourceParser σ
  | 0 => fun _ _ _ => throw .crash
  | depth + 1 => fun form parent scriptless =>
    let included := watchedInclude w env (watchedSource w env depth)
    match form with
    | .document =>
      let _ : Document.TokenReader σ := ⟨w.before Document.next⟩
      Document.parse env included parent scriptless
    | _ => Native.watchedParse w env included parent scriptless

end Parsing

/-- The tree of a source, parsed under a watch with inclusions nesting no deeper than a number, and
what the host remembers afterwards. -/
def ParseRequest.parseWatched {σ : Type} (r : ParseRequest) (w : Parsing.Watch σ) (depth : Nat)
    (host : Host σ) (memory : σ) : Except Failure Node × σ :=
  let root := r.root (Cursor.ofText r.path r.text).position
  outcome root
    (Parsing.watchedSource w (r.env host) depth r.actualForm root false (r.start memory))

/-- The parse of a unit is the parse of its source. -/
theorem ParseRequest.parse_eq {σ : Type} (r : ParseRequest) (host : Host σ) (memory : σ) :
    r.parse host memory =
      let root := r.root (Cursor.ofText r.path r.text).position
      outcome root (Parsing.parseSource (r.env host) (host.fileCount + 2) r.actualForm root false
        (r.start memory)) := rfl

end ServerPages
