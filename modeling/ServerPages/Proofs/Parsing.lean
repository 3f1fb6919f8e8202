import ServerPages.Parsing.Parse
import ServerPages.Proofs.Steps

/-!
# Running parsers

A parser is a function from a state to a result. This module gives the equations by which the
parsers of the native syntax are run: a bind whose first part is known, a literal that is or is not
at the cursor, and the choice that `construct` makes.

## Main results

* `Native.construct_eq`: which construct stands at the cursor.
* `ParseRequest.parse_native`, `ParseRequest.parse_document`: a unit is parsed by the parser of its
  syntax.
-/

namespace ServerPages

namespace Cursor

/-- The unread text is the rest of the source from the offset on, as far as its length goes. -/
def IsSound (c : Cursor) : Prop :=
  c.place.offset + c.place.rest.length = c.place.source.data.length

theorem IsSound.atEnd_iff {c : Cursor} (h : c.IsSound) : c.atEnd = true ↔ c.rest = [] := by
  have hlen : c.rest = [] ↔ c.place.rest.length = 0 := List.length_eq_zero_iff.symm
  rw [hlen, atEnd, decide_eq_true_eq, ← h]
  omega

theorem IsSound.pass {c : Cursor} (h : c.IsSound) {s : Bytes} (hs : s.length ≤ c.rest.length) :
    (c.pass s).IsSound := by
  show c.place.offset + s.length + (c.place.rest.drop s.length).length =
    c.place.source.data.length
  have hs' : s.length ≤ c.place.rest.length := hs
  rw [List.length_drop, ← h]
  omega

end Cursor

namespace Parsing

variable {σ β : Type}

/-! ### Running parsers -/

/-- The state with the cursor after a text that stands at it. -/
def State.passing (s : State σ) (lit : Bytes) : State σ :=
  { s with cursor := s.cursor.pass lit }

theorem State.rest_passing {s : State σ} {v r : Bytes} (hs : s.cursor.rest = v ++ r) :
    (s.passing v).cursor.rest = r := by
  show s.cursor.rest.drop v.length = r
  rw [hs, List.drop_left]

theorem cursor_eq (s : State σ) : cursor s = .ok s.cursor s := rfl

theorem accepts_eq (lit : Bytes) (s : State σ) :
    accepts lit s = if s.cursor.sees lit then .ok true (s.passing lit) else .ok false s := by
  rw [accepts, bind_ok (cursor_eq s), Cursor.accept?]
  by_cases h : s.cursor.sees lit = true
  · rw [if_pos h, if_pos h]
    rfl
  · rw [if_neg h, if_neg h]
    rfl

theorem bind_accepts (lit : Bytes) (f : Bool → Parse σ β) (s : State σ) :
    (accepts lit >>= f) s =
      if s.cursor.sees lit then f true (s.passing lit) else f false s := by
  by_cases h : s.cursor.sees lit = true
  · rw [bind_ok (accepts_eq lit s |>.trans (if_pos h)), if_pos h]
  · rw [bind_ok (accepts_eq lit s |>.trans (if_neg h)), if_neg h]

namespace Native

/-- The construct at the cursor is told by the literals it starts with, in this order. -/
theorem construct_eq (env : Env σ) (included : Include σ) (inner : Element σ) (parent : Head)
    (scriptless : Bool) (siblings : List Node) (s : State σ) :
    construct env included inner parent scriptless siblings s =
      let c := s.cursor
      if c.sees "<%--" then
        (comment c.position >>= fun _ => pure siblings) (s.passing "<%--")
      else if c.sees "<%@" then
        directive env included c.position scriptless siblings (s.passing "<%@")
      else if c.sees "<%!" then
        scripting .declaration "<%!" c.position scriptless siblings (s.passing "<%!")
      else if c.sees "<%=" then
        scripting .expression "<%=" c.position scriptless siblings (s.passing "<%=")
      else if c.sees "<%" then
        scripting .scriptlet "<%" c.position scriptless siblings (s.passing "<%")
      else if c.sees "<jsp:" then standardAction inner parent scriptless siblings s
      else if !s.elIgnored && Expression.isOpener c.rest then expression scriptless siblings s
      else if c.sees "</" && isBoundEnd s.bindings (c.rest.drop 2) then
        (refuse .unbalancedEndTag c.position
          ("unexpected end tag </" ++ Cursor.nameOf (c.rest.drop 2) ++ ">") : Parse σ _) s
      else if c.sees "</" then templateText scriptless siblings s
      else if c.sees "<" then
        match boundTag? s.bindings (c.rest.drop 1) with
        | some (prefixName, name, b) =>
          customTag env inner prefixName name b scriptless siblings s
        | none => templateText scriptless siblings s
      else templateText scriptless siblings s := by
  unfold construct
  rw [bind_ok (show (get : Parse σ _) s = .ok s s from rfl)]
  dsimp only
  rw [bind_accepts]
  refine if_congr_eq rfl fun _ => ?_
  iterate 4
    rw [if_neg Bool.false_ne_true, bind_accepts]
    refine if_congr_eq rfl fun _ => ?_
  rw [if_neg Bool.false_ne_true]
  split
  · rfl
  split
  · rfl
  by_cases h : s.cursor.sees "</" = true
  · by_cases h' : isBoundEnd s.bindings (s.cursor.rest.drop 2) = true
    · simp [h, h']
      rfl
    · simp [h, h']
  · simp only [h, if_false, Bool.false_and, Bool.false_eq_true]
    split
    · split <;> simp_all
    · rfl

end Native

end Parsing

namespace ParseRequest

variable {σ : Type}

/-- The surroundings in which a request is parsed. -/
def env (r : ParseRequest) (host : Host σ) : Parsing.Env σ :=
  { host := host, directivesOnly := r.directivesOnly }

/-- How the files that a unit includes are parsed. -/
def included (r : ParseRequest) (host : Host σ) : Head → Bool → Parse σ (List Node) :=
  Parsing.includeFile (r.env host) (Parsing.parseSource (r.env host) (host.fileCount + 1))

/-- The state in which the parse of a unit starts. -/
def start (r : ParseRequest) (memory : σ) : Parsing.State σ where
  cursor := Cursor.ofText r.path r.text
  files := [r.path]
  elIgnored := r.elIgnored
  memory := memory

/-- A tree with what the host remembers, from the outcome of the parse of its content. -/
def outcome (root : Head) :
    EStateM.Result Failure (Parsing.State σ) (List Node) → Except Failure Node × σ
  | .ok children s => (.ok (.mk root children), s.memory)
  | .error e s => (.error e, s.memory)

theorem parse_native {r : ParseRequest} (host : Host σ) (memory : σ)
    (h : r.actualForm = .native) :
    r.parse host memory =
      outcome (r.root (Cursor.ofText r.path r.text).position)
        (Parsing.Native.parse (r.env host) (r.included host)
          (r.root (Cursor.ofText r.path r.text).position) false (r.start memory)) := by
  rw [parse, h]
  rfl

theorem parse_document {r : ParseRequest} (host : Host σ) (memory : σ)
    (h : r.actualForm = .document) :
    r.parse host memory =
      outcome (r.root (Cursor.ofText r.path r.text).position)
        (Parsing.Document.parse (r.env host) (r.included host)
          (r.root (Cursor.ofText r.path r.text).position) false (r.start memory)) := by
  rw [parse, h]
  rfl

end ParseRequest

end ServerPages
