import ServerPages.Proofs.CodeLayout
import ServerPages.Proofs.TagPrograms
import ServerPages.Proofs.WritingSteps

/-!
# Code with its links

Generated code hands handlers on: a tag takes a handler for its parent, a method is called with the
handler around it, and a fragment is passed with the handler that evaluates it. `Linked` is the
record of a run in which these places are kept: where a tag is started, where a method is called
that another part of the file holds, and where a fragment is passed whose case stands elsewhere.
Its code is that of the run (`Linked.code`), so the record says which method a call runs and which
case a fragment is.

A name stands for different handlers in different functions. `Bindings` are the handlers that names
stand for at a place, and `Linked.parents` tells for every tag which handler it is given, a method
or a fragment knowing the handler around it by the name `parent`.

## Main results

* `Linked.text_fragments`: the cases of a unit are those of its fragments.
* `Linked.cases_perm`: every case is that of one fragment that a tag passes, and every one has a
  case.
* `Linked.map_fst_parents`: every tag is given a handler.
-/

namespace ServerPages.Generation

/-! ### Handlers -/

/-- What a handler belongs to. -/
inductive Holder where
  /-- The unit: a page has no handler, a tag file is one itself. -/
  | unit
  /-- The invocation of a tag, by the number of its node. -/
  | tag (node : Nat)
  deriving DecidableEq

/-- The handlers that names stand for at a place in a function. Variables of the page are no
handlers and are left out. -/
structure Bindings where
  /-- The handlers of the tags started in the function around the place, innermost first. -/
  handlers : List (Bytes × Nat) := []
  /-- The name of the handler around the function. -/
  outerName : Bytes
  /-- The handler around the function, if it is known. -/
  outer : Option Holder

namespace Bindings

/-- The handler that a name stands for. -/
def holder? (b : Bindings) (name : Bytes) : Option Holder :=
  match b.handlers.lookup name with
  | some k => some (.tag k)
  | none => if name = b.outerName then b.outer else none

/-- The bindings after the start of a tag. -/
def enter (b : Bindings) (handler : Bytes) (node : Nat) : Bindings :=
  { b with handlers := (handler, node) :: b.handlers }

/-- The bindings in a method or a fragment. -/
def inFunction (outer : Option Holder) : Bindings := { outerName := "parent", outer := outer }

/-- The bindings in the method that renders a unit, where the handler of a tag file is its receiver
and that of a page is missing. -/
def ofUnit (env : Env) : Bindings where
  outerName := if env.page.tag.isSome then "t" else "nil"
  outer := some .unit

theorem holder?_enter (b : Bindings) (handler : Bytes) (node : Nat) :
    (b.enter handler node).holder? handler = some (.tag node) := by
  simp [holder?, enter]

theorem holder?_ofUnit (env : Env) :
    (ofUnit env).holder? (start env).place.parent = some .unit := by
  exact if_pos rfl

end Bindings

/-! ### Fragments -/

/-- What a tag passes a fragment for. -/
inductive Slot where
  /-- Its body. -/
  | body
  /-- An attribute. -/
  | attr (a : Attribute)

namespace Slot

/-- The call that passes a value. -/
def call (handler value : Bytes) : Slot → Bytes
  | body => handler ++ ".SetJspBody(" ++ value ++ ")"
  | attr a =>
    if a.setter.dynamic then
      handler ++ "." ++ a.setter.method ++ "(" ++ Quoted.string a.uri ++ ", " ++
        Quoted.string a.localName ++ ", " ++ value ++ ")"
    else handler ++ "." ++ a.setter.method ++ "(" ++ value ++ ")"

/-- Whether the call that passes a value may fail. -/
def isDynamic : Slot → Bool
  | body => false
  | attr a => a.setter.dynamic

/-- The statements that pass a value. -/
def code (handler value : Bytes) (s : Slot) : Code :=
  if s.isDynamic then Code.check (s.call handler value)
  else .line (.control (s.call handler value)) .nil

end Slot

/-! ### Records -/

/-- The statements that start a tag. -/
structure Start where
  /-- The variable of the handler. -/
  handler : Bytes
  /-- The value that makes the handler. -/
  value : Bytes
  /-- The call that gives it the page context. -/
  setContext : Bytes
  /-- What it is given for its parent. -/
  parent : Bytes

/-- The lines that start a tag. -/
def Start.lines (s : Start) : List Bytes :=
  [s.handler ++ " := " ++ s.value, s.handler ++ "." ++ s.setContext,
    s.handler ++ ".SetParent(" ++ s.parent ++ ")"]

/-- The name of the method with a number. -/
def methodName (number : Nat) : Bytes := "tag" ++ Bytes.ofNat number

/-- The record of a run of the generator, in which it is kept where handlers are handed on. -/
inductive Linked where
  /-- Nothing. -/
  | nil
  /-- A line. -/
  | line (text : Bytes)
  /-- The lines that follow are indented further. -/
  | indent
  /-- The lines that follow are indented less far. -/
  | outdent
  /-- The lines of a node among the declarations. -/
  | declaration (node : Nat) (lines : List Bytes)
  /-- The lines of a node. -/
  | part (node : Nat) (body : Linked)
  /-- One record after another. -/
  | seq (first second : Linked)
  /-- A tag is started; its handler is known in the body. -/
  | tag (node : Nat) (start : Start) (body : Linked)
  /-- A method is called and written elsewhere, which runs an invocation. -/
  | method (number node : Nat) (argument : Bytes) (isApart : Bool) (body : Linked)
  /-- A fragment is passed to a handler, and its case is written elsewhere. -/
  | fragment (number : Nat) (handler : Bytes) (slot : Slot) (body : Linked)

/-- A tag that is started. -/
structure Started where
  /-- The number of its node. -/
  node : Nat
  /-- How it is started. -/
  start : Start
  /-- What is written after the start. -/
  body : Linked

/-- A fragment that is passed. -/
structure Passed where
  /-- Its number. -/
  number : Nat
  /-- What it is passed for. -/
  slot : Slot
  /-- What it evaluates. -/
  body : Linked

namespace Linked

/-- The code that was written. -/
def code (env : Env) : Linked → Code
  | nil => .nil
  | line text => .line (.control text) .nil
  | indent => .indent .nil
  | outdent => .outdent .nil
  | declaration k ls => .declaration k ls .nil
  | part k body => .part k (body.code env) .nil
  | seq a b => a.code env ++ b.code env
  | tag _ start body => Code.lines (start.lines.map .control) ++ body.code env
  | method i k argument isApart body =>
    Code.check (env.receiver ++ "." ++ methodName i ++ "(pc, frags, " ++ argument ++ ")") ++
      .method isApart (.part k (methodCode env (methodName i) (body.code env)) .nil) .nil
  | fragment i handler slot body =>
    .fragment (fragmentCase i (body.code env)) (slot.code handler (fragmentCode handler i))

/-- The cases of the fragments with what they evaluate, in the order in which they are written:
those inside a fragment come before its own. -/
def cases : Linked → List (Nat × Linked)
  | nil | line _ | indent | outdent | declaration _ _ => []
  | part _ body | tag _ _ body | method _ _ _ _ body => body.cases
  | seq a b => a.cases ++ b.cases
  | fragment i _ _ body => body.cases ++ [(i, body)]

/-- The numbers of the methods. -/
def methods : Linked → List Nat
  | nil | line _ | indent | outdent | declaration _ _ => []
  | part _ body | tag _ _ body | fragment _ _ _ body => body.methods
  | seq a b => a.methods ++ b.methods
  | method i _ _ _ body => i :: body.methods

/-- The tags that are started. -/
def tags : Linked → List Started
  | nil | line _ | indent | outdent | declaration _ _ => []
  | part _ body | method _ _ _ _ body | fragment _ _ _ body => body.tags
  | seq a b => a.tags ++ b.tags
  | tag k start body => ⟨k, start, body⟩ :: body.tags

/-- The fragments that are passed outside of the tags that are started. -/
def passed : Linked → List Passed
  | nil | line _ | indent | outdent | declaration _ _ | tag _ _ _ => []
  | part _ body | method _ _ _ _ body => body.passed
  | seq a b => a.passed ++ b.passed
  | fragment i _ slot body => ⟨i, slot, body⟩ :: body.passed

/-- What the tags are given for their parents, if names stand for handlers as `b` says. -/
def parents (b : Bindings) : Linked → List (Nat × Option Holder)
  | nil | line _ | indent | outdent | declaration _ _ => []
  | part _ body => body.parents b
  | seq a a' => a.parents b ++ a'.parents b
  | tag k start body => (k, b.holder? start.parent) :: body.parents (b.enter start.handler k)
  | method _ _ argument _ body => body.parents (.inFunction (b.holder? argument))
  | fragment _ handler _ body => body.parents (.inFunction (b.holder? handler))

/-- All fragments that are passed, those outside of tags first. -/
def allPassed (w : Linked) : List Passed := w.passed ++ w.tags.flatMap (·.body.passed)

/-- Every case is that of a fragment that is passed, and every fragment that is passed has a
case. -/
theorem cases_perm (w : Linked) :
    w.cases.Perm (w.allPassed.map fun p => (p.number, p.body)) := by
  induction w with
  | nil | line _ | indent | outdent | declaration _ _ => exact List.Perm.refl _
  | part _ _ ih | method _ _ _ _ _ ih => exact ih
  | tag _ _ _ ih => exact ih
  | seq a b iha ihb =>
    refine (iha.append ihb).trans ?_
    rw [← List.map_append]
    refine List.Perm.map _ ?_
    simp only [allPassed, passed, tags, List.flatMap_append, List.append_assoc]
    refine List.Perm.append_left _ ?_
    rw [← List.append_assoc, ← List.append_assoc]
    exact List.perm_append_comm.append_right _
  | fragment i handler slot body ih => exact List.perm_append_comm.trans (ih.cons _)

/-- Every tag that is started is given a handler for its parent. -/
theorem map_fst_parents (b : Bindings) (w : Linked) :
    (w.parents b).map (·.1) = w.tags.map (·.node) := by
  induction w generalizing b with
  | nil | line _ | indent | outdent | declaration _ _ => rfl
  | part _ _ ih | method _ _ _ _ _ ih | fragment _ _ _ _ ih => exact ih _
  | seq _ _ ih ih' => simp [parents, tags, ih, ih']
  | tag _ _ _ ih => simp [parents, tags, ih]

/-! ### Texts -/

/-- What a record adds to a writer, in which lines are indented by `i`. -/
def text (env : Env) (i : Nat) (sheet : Sheet) (w : Linked) : Bytes :=
  ((w.code env).layout i sheet).text

/-- The case of a fragment. -/
def caseText (env : Env) (c : Nat × Linked) : Bytes :=
  ((fragmentCase c.1 (c.2.code env)).layout 0 .out).text

theorem layout_lines_fragments (ss : List Statement) (i : Nat) :
    (Code.lines ss).layout i .fragments = .nil := by
  induction ss with
  | nil => rfl
  | cons s ss ih => exact ih

theorem layout_slot_fragments (slot : Slot) (handler value : Bytes) (i : Nat) :
    (slot.code handler value).layout i .fragments = .nil := by
  unfold Slot.code
  split <;> rfl

/-- The cases are those of the fragments, one after the other. -/
theorem text_fragments (env : Env) (i : Nat) (w : Linked) :
    w.text env i .fragments = w.cases.flatMap (caseText env) := by
  unfold text
  induction w generalizing i with
  | nil | line _ | indent | outdent | declaration _ _ => rfl
  | part k body ih =>
    simp only [code, Code.layout, Layout.append_nil]
    exact ih i
  | seq a b iha ihb => simp [code, Code.layout_append, cases, iha, ihb]
  | tag k start body ih =>
    rw [code, Code.layout_append, layout_lines_fragments, Layout.nil_append]
    exact ih _
  | method n k argument isApart body ih =>
    have hcheck : ∀ x j, (Code.check x).layout j .fragments = .nil := fun _ _ => rfl
    rw [code, Code.layout_append, hcheck, Layout.nil_append]
    simp only [Code.layout, Layout.append_nil, methodCode, Code.block, Code.layout_append]
    exact ih _
  | fragment n handler slot body ih =>
    simp only [code, Code.layout, layout_slot_fragments, Layout.append_nil, Layout.text_append,
      cases, List.flatMap_append, List.flatMap_cons, List.flatMap_nil, List.append_nil]
    congr 1
    rw [← ih 2]
    simp only [fragmentCase, Code.layout, Code.layout_append, Layout.append_nil]

end Linked

end ServerPages.Generation
