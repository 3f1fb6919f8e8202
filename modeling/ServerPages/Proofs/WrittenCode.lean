import ServerPages.Proofs.CodeWriter

/-!
# The code that a step of generation writes

Generated functions are written line by line, and most lines are one statement. `Statement` reads
such a line: which variables it gives a value, and what it can do to them. The names in a statement
are those that the generator writes, whole: a name is not looked into.

Code of the page (`page`) is not read. A line of control (`control`) opens or closes a block, leaves
a function or goes on with a statement that was opened; of the variables it changes at most `err`.

`Statement.Runs` relates the values of variables before and after a statement. All that is said
about a value that is computed is which variables it is given to.

`Code` is the record of a run of the generator: the lines it wrote to the current writer, the parts
that belong to nodes, and what it put elsewhere - declarations, methods and fragment bodies, which
are written to a writer of their own that is spliced into another one. `Code.replay` writes a
recorded code to some writers again. A generated unit is described by codes and not by states: that
a step writes the code `c` means that the writers after the step are those before with `c` replayed.

## Main results

* `Code.replay_append`: codes one after the other are replayed one after the other.
* `Code.All`, `Code.Parts`: what holds of all statements and of all parts of a code.
-/

namespace ServerPages.Generation

/-! ### Statements -/

/-- A line of generated code. -/
inductive Statement where
  /-- New variables are given a value. -/
  | define (names : List Bytes) (value : Bytes)
  /-- Variables are given another value. -/
  | assign (names : List Bytes) (value : Bytes)
  /-- A variable, which is new or not, is given the value of another one. -/
  | copy (isNew : Bool) (name source : Bytes)
  /-- A variable is used and nothing else is done. -/
  | use (name : Bytes)
  /-- A new variable starts to count. -/
  | zero (name : Bytes)
  /-- A new variable has the zero value of its type. -/
  | declare (name type : Bytes)
  /-- A variable counts up. -/
  | increment (name : Bytes)
  /-- A variable counts down. -/
  | decrement (name : Bytes)
  /-- Opens a loop in which a variable counts down to zero. -/
  | countDown (name : Bytes)
  /-- A method is called. -/
  | call (receiver message : Bytes)
  /-- A line of control. -/
  | control (text : Bytes)
  /-- A line of code of the page. -/
  | page (text : Bytes)

/-- The value of a variable. -/
inductive Value where
  /-- A number. -/
  | number (n : Int)
  /-- A constant of the runtime package. -/
  | constant (name : Bytes)
  /-- Any other value. -/
  | other (i : Nat)
  deriving DecidableEq

/-- The values of variables. -/
abbrev Memory := Bytes → Value

namespace Statement

/-- How new variables are given a value. -/
def defines : Bytes := " := "

/-- How variables are given another value. -/
def assigns : Bytes := " = "

/-- Names as they are listed. -/
def listed : List Bytes → Bytes
  | [] => []
  | [x] => x
  | x :: xs => x ++ (", " ++ listed xs)

/-- The line of a statement. -/
def text : Statement → Bytes
  | define names value => listed names ++ (defines ++ value)
  | assign names value => listed names ++ (assigns ++ value)
  | copy isNew name source => name ++ ((if isNew then defines else assigns) ++ source)
  | use name => "_ = " ++ name
  | zero name => name ++ (defines ++ "0")
  | declare name type => "var " ++ (name ++ (" " ++ type))
  | increment name => name ++ "++"
  | decrement name => name ++ "--"
  | countDown name => "for ; " ++ (name ++ (" > 0; " ++ (name ++ "-- \x7b")))
  | call receiver message => receiver ++ ("." ++ message)
  | control text => text
  | page text => text

/-- The variables that a statement may give a value; nothing is said about code of the page. -/
def targets : Statement → List Bytes
  | define names _ | assign names _ => names
  | copy _ name _ | zero name | declare name _ | increment name | decrement name
  | countDown name => [name]
  | control _ => ["err"]
  | use _ | call _ _ | page _ => []

/-- Whether a line is code of the page. -/
def isPage : Statement → Bool
  | page _ => true
  | _ => false

/-- How lines of control begin. -/
def controlWords : List Bytes :=
  ["if ", "for ", "return ", "break", "case ", "defer ", "func ", "\x7b", "\x7d", "Attrs: ",
    "Params: ", "Fallback: "]

/-- A line that is read as giving no variable of the page a value begins as such lines do: with the
name of what a method is called of, or with a word of control. -/
def IsRead : Statement → Prop
  | call receiver _ => 32 ∉ receiver
  | control text => ∃ w ∈ controlWords, w <+: text
  | _ => True

/-- The value that counting by `d` makes of a value. -/
def counted (d : Int) : Value → Value → Prop
  | .number n, v => v = .number (n + d)
  | _, _ => True

/-- The values of the variables after a statement, with those before. -/
def Runs (s : Statement) (m m' : Memory) : Prop :=
  (∀ x, x ∉ s.targets → m' x = m x) ∧
  match s with
  | copy _ name source => m' name = m source
  | zero name => m' name = .number 0
  | increment name => counted 1 (m name) (m' name)
  | decrement name => counted (-1) (m name) (m' name)
  | _ => True

end Statement

/-- Statements that run one after the other. -/
inductive RunsAll : List Statement → Memory → Memory → Prop where
  | nil {m : Memory} : RunsAll [] m m
  | cons {s : Statement} {ss : List Statement} {m m₁ m₂ : Memory} (head : s.Runs m m₁)
    (tail : RunsAll ss m₁ m₂) : RunsAll (s :: ss) m m₂

/-! ### Codes -/

/-- The writers of a unit, and the lines of its nodes. -/
structure Desk where
  /-- The current writer. -/
  out : Writer
  /-- Declarations of the page. -/
  declarations : Writer
  /-- Methods of tags that have one of their own. -/
  methods : Writer
  /-- The cases of the fragment bodies. -/
  fragments : Writer
  /-- The lines of nodes. -/
  spans : Spans

/-- The writers of a state. -/
def State.desk (s : State) : Desk := ⟨s.place.out, s.declarations, s.methods, s.fragments, s.spans⟩

/-- What a run of the generator wrote. -/
inductive Code where
  /-- Nothing more. -/
  | nil
  /-- A line. -/
  | line (s : Statement) (rest : Code)
  /-- The lines that follow are indented further. -/
  | indent (rest : Code)
  /-- The lines that follow are indented less far. -/
  | outdent (rest : Code)
  /-- The lines of a node. -/
  | part (node : Nat) (body rest : Code)
  /-- The lines of a node among the declarations. -/
  | declaration (node : Nat) (lines : List Bytes) (rest : Code)
  /-- A method, with a blank line before it or not. -/
  | method (isApart : Bool) (body rest : Code)
  /-- A fragment body. -/
  | fragment (body rest : Code)

namespace Code

/-- One code after another. -/
def append : Code → Code → Code
  | nil, d => d
  | line s rest, d => line s (rest.append d)
  | indent rest, d => indent (rest.append d)
  | outdent rest, d => outdent (rest.append d)
  | part k body rest, d => part k body (rest.append d)
  | declaration k ls rest, d => declaration k ls (rest.append d)
  | method isApart body rest, d => method isApart body (rest.append d)
  | fragment body rest, d => fragment body (rest.append d)

instance : Append Code := ⟨append⟩

section Append

variable (s : Statement) (k : Nat) (ls : List Bytes) (isApart : Bool) (b c d e : Code)

@[simp] theorem nil_append : nil ++ d = d := rfl

@[simp] theorem line_append : line s c ++ d = line s (c ++ d) := rfl

@[simp] theorem indent_append : indent c ++ d = indent (c ++ d) := rfl

@[simp] theorem outdent_append : outdent c ++ d = outdent (c ++ d) := rfl

@[simp] theorem part_append : part k b c ++ d = part k b (c ++ d) := rfl

@[simp] theorem declaration_append : declaration k ls c ++ d = declaration k ls (c ++ d) := rfl

@[simp] theorem method_append : method isApart b c ++ d = method isApart b (c ++ d) := rfl

@[simp] theorem fragment_append : fragment b c ++ d = fragment b (c ++ d) := rfl

@[simp] theorem append_nil : c ++ nil = c := by
  induction c <;> simp [*]

@[simp] theorem append_assoc : c ++ d ++ e = c ++ (d ++ e) := by
  induction c <;> simp [*]

end Append

/-- Lines one after the other. -/
def lines : List Statement → Code
  | [] => nil
  | s :: ss => line s (lines ss)

@[simp] theorem lines_nil : lines [] = nil := rfl

@[simp] theorem lines_cons (s : Statement) (ss : List Statement) :
    lines (s :: ss) = line s (lines ss) := rfl

theorem lines_append (ss ts : List Statement) : lines (ss ++ ts) = lines ss ++ lines ts := by
  induction ss with
  | nil => rfl
  | cons s ss ih => rw [List.cons_append, lines_cons, ih, lines_cons, line_append]

/-! ### Replaying -/

/-- The writers after a code was written to them. -/
def replay : Code → Desk → Desk
  | nil, d => d
  | line s rest, d => rest.replay { d with out := d.out.println s.text }
  | indent rest, d => rest.replay { d with out := d.out.indented }
  | outdent rest, d => rest.replay { d with out := { d.out with indent := d.out.indent - 1 } }
  | part k body rest, d =>
    let e := body.replay
      { d with out := (d.out.begin k d.spans).1, spans := (d.out.begin k d.spans).2 }
    rest.replay { e with spans := e.out.finish k e.spans }
  | declaration k ls rest, d =>
    let w := ls.foldl Writer.println (d.declarations.begin k d.spans).1
    rest.replay
      { d with declarations := w, spans := w.finish k (d.declarations.begin k d.spans).2 }
  | method isApart body rest, d =>
    let e := body.replay { d with out := {} }
    let w := if isApart then e.methods.println [] else e.methods
    rest.replay { e with
      out := d.out, methods := (w.splice e.out e.spans).1, spans := (w.splice e.out e.spans).2 }
  | fragment body rest, d =>
    let e := body.replay { d with out := {} }
    rest.replay { e with
      out := d.out, fragments := (e.fragments.splice e.out e.spans).1,
      spans := (e.fragments.splice e.out e.spans).2 }

theorem replay_append (c d : Code) (desk : Desk) :
    (c ++ d).replay desk = d.replay (c.replay desk) := by
  induction c generalizing desk with
  | nil => rfl
  | line s rest ih | indent rest ih | outdent rest ih => exact ih _
  | part k body rest _ ih | method isApart body rest _ ih | fragment body rest _ ih => exact ih _
  | declaration k ls rest ih => exact ih _

/-! ### Nodes, statements and parts -/

/-- The nodes whose lines are in a code, one entry for each part. -/
def nodes : Code → List Nat
  | nil => []
  | line _ rest | indent rest | outdent rest => rest.nodes
  | part k body rest => k :: (body.nodes ++ rest.nodes)
  | declaration k _ rest => k :: rest.nodes
  | method _ body rest | fragment body rest => body.nodes ++ rest.nodes

@[simp] theorem nodes_append (c d : Code) : (c ++ d).nodes = c.nodes ++ d.nodes := by
  induction c <;> simp [nodes, *]

@[simp] theorem nodes_lines (ss : List Statement) : (lines ss).nodes = [] := by
  induction ss with
  | nil => rfl
  | cons s ss ih => exact ih

/-- All statements of a code satisfy `p`, those put elsewhere included. -/
def All (p : Statement → Prop) : Code → Prop
  | nil => True
  | line s rest => p s ∧ rest.All p
  | indent rest | outdent rest => rest.All p
  | part _ body rest | method _ body rest | fragment body rest => body.All p ∧ rest.All p
  | declaration _ ls rest => (∀ l ∈ ls, p (.page l)) ∧ rest.All p

theorem all_append {p : Statement → Prop} (c d : Code) :
    (c ++ d).All p ↔ c.All p ∧ d.All p := by
  induction c with
  | nil => simp [All]
  | line s rest ih => simp [All, ih, and_assoc]
  | indent rest ih | outdent rest ih => simp [All, ih]
  | part k body rest _ ih | method isApart body rest _ ih | fragment body rest _ ih =>
    simp [All, ih, and_assoc]
  | declaration k ls rest ih => simp [All, ih, and_assoc]

theorem All.mono {p q : Statement → Prop} (h : ∀ s, p s → q s) {c : Code} (hc : c.All p) :
    c.All q := by
  induction c with
  | nil => trivial
  | line s rest ih => exact ⟨h s hc.1, ih hc.2⟩
  | indent rest ih | outdent rest ih => exact ih hc
  | part k body rest ihb ih | method isApart body rest ihb ih | fragment body rest ihb ih =>
    exact ⟨ihb hc.1, ih hc.2⟩
  | declaration k ls rest ih => exact ⟨fun l hl => h _ (hc.1 l hl), ih hc.2⟩

/-- All parts of a code satisfy `p`, with their nodes. -/
def Parts (p : Nat → Code → Prop) : Code → Prop
  | nil => True
  | line _ rest | indent rest | outdent rest => rest.Parts p
  | part k body rest => p k body ∧ body.Parts p ∧ rest.Parts p
  | declaration k ls rest => p k (lines (ls.map .page)) ∧ rest.Parts p
  | method _ body rest | fragment body rest => body.Parts p ∧ rest.Parts p

theorem parts_append {p : Nat → Code → Prop} (c d : Code) :
    (c ++ d).Parts p ↔ c.Parts p ∧ d.Parts p := by
  induction c with
  | nil => simp [Parts]
  | line s rest ih | indent rest ih | outdent rest ih => simp [Parts, ih]
  | part k body rest _ ih | method isApart body rest _ ih | fragment body rest _ ih =>
    simp [Parts, ih, and_assoc]
  | declaration k ls rest ih => simp [Parts, ih, and_assoc]

theorem Parts.mono {p q : Nat → Code → Prop} (h : ∀ k c, p k c → q k c) {c : Code}
    (hc : c.Parts p) : c.Parts q := by
  induction c with
  | nil => trivial
  | line s rest ih | indent rest ih | outdent rest ih => exact ih hc
  | part k body rest ihb ih => exact ⟨h k body hc.1, ihb hc.2.1, ih hc.2.2⟩
  | method isApart body rest ihb ih | fragment body rest ihb ih => exact ⟨ihb hc.1, ih hc.2⟩
  | declaration k ls rest ih => exact ⟨h k _ hc.1, ih hc.2⟩

/-- The statements of a code that stand outside of parts and belong to the current function
satisfy `p`. -/
def Surface (p : Statement → Prop) : Code → Prop
  | nil => True
  | line s rest => p s ∧ rest.Surface p
  | indent rest | outdent rest | part _ _ rest | declaration _ _ rest | method _ _ rest
  | fragment _ rest => rest.Surface p

theorem surface_append {p : Statement → Prop} (c d : Code) :
    (c ++ d).Surface p ↔ c.Surface p ∧ d.Surface p := by
  induction c with
  | nil => simp [Surface]
  | line s rest ih => simp [Surface, ih, and_assoc]
  | indent rest ih | outdent rest ih => simp [Surface, ih]
  | part k body rest _ ih | method isApart body rest _ ih | fragment body rest _ ih =>
    simp [Surface, ih]
  | declaration k ls rest ih => simp [Surface, ih]

theorem Surface.mono {p q : Statement → Prop} (h : ∀ s, p s → q s) {c : Code}
    (hc : c.Surface p) : c.Surface q := by
  induction c with
  | nil => trivial
  | line s rest ih => exact ⟨h s hc.1, ih hc.2⟩
  | indent rest ih | outdent rest ih => exact ih hc
  | part k body rest _ ih | method isApart body rest _ ih | fragment body rest _ ih => exact ih hc
  | declaration k ls rest ih => exact ih hc

/-- Nothing of a part is written to the current writer before a line. -/
def Leads : Code → Prop
  | nil => True
  | line _ _ => True
  | indent rest | outdent rest | declaration _ _ rest | method _ _ rest | fragment _ rest =>
    rest.Leads
  | part _ _ _ => False

theorem Leads.append {c d : Code} (hc : c.Leads) (hd : d.Leads) : (c ++ d).Leads := by
  induction c with
  | nil => exact hd
  | line s rest _ => trivial
  | indent rest ih | outdent rest ih => exact ih hc
  | part k body rest _ _ => exact hc.elim
  | method isApart body rest _ ih | fragment body rest _ ih => exact ih hc
  | declaration k ls rest ih => exact ih hc

/-! ### Blocks -/

/-- A block: a line that opens it, what is inside, and a line that closes it. -/
def block (opening : Statement) (body : Code) (closing : Bytes) : Code :=
  line opening (indent (body ++ outdent (line (.control closing) nil)))

/-- A block that returns the error of its condition. -/
def returning (condition : Bytes) : Code :=
  block (.control condition) (line (.control "return err") nil) "\x7d"

/-- A call and the check of the error it returns. -/
def check (call : Bytes) : Code := returning ("if err := " ++ call ++ "; err != nil \x7b")

/-- The check of an error that was assigned. -/
def checkErr : Code := returning "if err != nil \x7b"

@[simp] theorem nodes_returning (condition : Bytes) : (returning condition).nodes = [] := rfl

@[simp] theorem nodes_check (call : Bytes) : (check call).nodes = [] := rfl

@[simp] theorem nodes_checkErr : checkErr.nodes = [] := rfl

@[simp] theorem nodes_block (opening : Statement) (body : Code) (closing : Bytes) :
    (block opening body closing).nodes = body.nodes := by
  simp [block, nodes]

end Code

end ServerPages.Generation
