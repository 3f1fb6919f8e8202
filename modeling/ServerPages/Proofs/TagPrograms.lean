import ServerPages.Proofs.WrittenCode

/-!
# Invocations of tags as programs

What is generated for an invocation of a tag is read as statements of the generated language:
`Program` has one constructor for each kind of statement that the generator writes for a classic
tag, and `Program.code` is the code of a program. Code that belongs to what is inside the tag - its
body and the attributes given as content - is kept whole (`Program.page`).

The scripting variables of a tag are declared, saved, set and restored by lines that depend on the
variables that are declared around the tag. These lines are given as lists of statements.

`Exec` is the big-step execution of a program in the generated language. What a handler or the
runtime package gives is not looked into: a call gives its variables any value, a guard may pass or
return an error, and constants of the runtime package have any values. Code of the page may do
anything but to change the variables that are said to be kept, and may end in any way. It pushes
and pops buffers of its own in balance, so only the buffers of the program itself are counted.

`Ensures` states what holds after every execution, for each way in which it may end. There is one
rule for each kind of statement; a rule takes what is ensured of the statements that follow.

## Main results

* `Ensures.loop`, `Ensures.drain`: what holds before every round of a loop holds when it is left.
* `Ensures.deferred`: deferred statements run after the rest, however that ends.
-/

namespace ServerPages

namespace Generation

/-! ### Programs -/

/-- A condition of a statement. -/
inductive Test where
  /-- A variable has the value of a constant of the runtime package. -/
  | equal (name constant : Bytes)
  /-- A variable does not have the value of a constant of the runtime package. -/
  | differs (name constant : Bytes)
  /-- A condition that is not looked into. -/
  | unknown (text : Bytes)

/-- The line that opens the block of a condition. -/
def Test.text : Test → Bytes
  | equal name constant => "if " ++ name ++ " == rt." ++ constant ++ " \x7b"
  | differs name constant => "if " ++ name ++ " != rt." ++ constant ++ " \x7b"
  | unknown text => text

/-- Statements of generated code. -/
inductive Program where
  /-- Nothing more. -/
  | done
  /-- A plain statement. -/
  | line (s : Statement) (rest : Program)
  /-- A buffer is pushed and given to a handler. -/
  | push (handler : Bytes) (rest : Program)
  /-- A buffer is popped. -/
  | pop (rest : Program)
  /-- A call, or an error that was assigned, whose error is returned. -/
  | guard (condition : Bytes) (rest : Program)
  /-- Statements that run if a condition holds. -/
  | cond (test : Test) (body rest : Program)
  /-- Statements that run again and again. -/
  | loop (body rest : Program)
  /-- Statements that run while a variable counts down to zero. -/
  | drain (counter : Bytes) (body rest : Program)
  /-- Statements that run when the function around them is left. -/
  | deferred (body rest : Program)
  /-- Code for what is inside the tag. -/
  | page (code : Code) (rest : Program)
  /-- The function is left. -/
  | leave (value : Bytes)
  /-- The loop is left. -/
  | stop

namespace Program

/-- The code of a program. -/
def code : Program → Code
  | done => .nil
  | line s rest => .line s rest.code
  | push handler rest => .line (.call handler "SetBodyContent(pc.PushBody())") rest.code
  | pop rest => .line (.call "pc" "PopBody()") rest.code
  | guard condition rest => Code.returning condition ++ rest.code
  | cond test body rest => Code.block (.control test.text) body.code "\x7d" ++ rest.code
  | loop body rest => Code.block (.control "for \x7b") body.code "\x7d" ++ rest.code
  | drain counter body rest => Code.block (.countDown counter) body.code "\x7d" ++ rest.code
  | deferred body rest => Code.block (.control "defer func() \x7b") body.code "\x7d()" ++ rest.code
  | page c rest => c ++ rest.code
  | leave value => .line (.control ("return " ++ value)) .nil
  | stop => .line (.control "break") .nil

/-- Plain statements before a program. -/
def lines (ss : List Statement) (rest : Program) : Program := ss.foldr line rest

@[simp] theorem code_lines (ss : List Statement) (rest : Program) :
    (lines ss rest).code = Code.lines ss ++ rest.code := by
  induction ss with
  | nil => rfl
  | cons s ss ih => exact congrArg (Code.line s) ih

end Program

/-! ### Scripting variables -/

/-- What is written before a tag for some of its scripting variables, the names of those that are
saved, and the variables declared around the tag afterwards. -/
structure Declared where
  /-- The statements. -/
  statements : List Statement := []
  /-- The names of the variables that are saved. -/
  saved : List Bytes := []
  /-- The variables declared around the tag afterwards. -/
  blocks : Blocks

/-- What is written before a tag for one of its scripting variables. -/
def Declared.one (nesting : Nat) (b : Blocks) (v : VariableBinding) : Declared :=
  if v.scope = .nested then { blocks := b }
  else if b.isVisible v.name then
    if v.scope = .atBegin ∧ 0 < nesting then
      if b.isLocal (saveSlot v.name nesting) then
        ⟨[.copy false (saveSlot v.name nesting) v.name], [v.name], b⟩
      else
        ⟨[.copy true (saveSlot v.name nesting) v.name], [v.name],
          b.declare (saveSlot v.name nesting)⟩
    else { blocks := b }
  else if v.declare then
    ⟨[.declare v.name v.valueType, .use v.name], [], b.declare v.name⟩
  else { blocks := b }

/-- What is written before a tag for its scripting variables. -/
def Declared.all (nesting : Nat) (b : Blocks) : List VariableBinding → Declared
  | [] => { blocks := b }
  | v :: vs =>
    let one := Declared.one nesting b v
    let rest := Declared.all nesting one.blocks vs
    ⟨one.statements ++ rest.statements, one.saved ++ rest.saved, rest.blocks⟩

/-- The statements after a tag that restore the variables saved before it. -/
def restores (nesting : Nat) (saved : List Bytes) : List Statement :=
  saved.map fun name => .copy false name (saveSlot name nesting)

/-- The statements that set the variables of some scopes. -/
def syncs (t : CustomTag) (scopes : List VariableScope) : List Statement :=
  (t.vars.filter fun v => scopes.contains v.scope).map fun v =>
    .assign [v.name] (variableValue v)

/-- The statements that set variables seen only in the body of a tag. -/
def nestedSyncs (b : Blocks) : List VariableBinding → List Statement
  | [] => []
  | v :: vs =>
    if v.declare && !b.isLocal v.name then
      .define [v.name] (variableValue v) :: .use v.name ::
        nestedSyncs (b.declare v.name) vs
    else .assign [v.name] (variableValue v) :: nestedSyncs b vs

/-! ### Classic tags -/

section Classic

variable (env : Env) (t : CustomTag) (d : TagDescriptor) (names : HandlerNames)

/-- The statement that gives the handler of a classic tag back. -/
def releaseStatement : Statement :=
  if names.pool != [] then .call env.receiver (names.pool ++ ".Put(" ++ names.handler ++ ")")
  else .call names.handler "Release()"

/-- The last statements of a classic tag: its handler catches an error, if it does that, and is
given back. -/
def finishProgram : Program :=
  if d.tryCatchFinally then
    .cond (.unknown "if err != nil && !rt.IsSkipPage(err) \x7b")
      (.line (.assign ["err"] (names.handler ++ ".DoCatch(err)")) .done)
      (.line (.call names.handler "DoFinally()") (.line (releaseStatement env names) .done))
  else .line (releaseStatement env names) .done

/-- The deferred statements of a classic tag. -/
def releaseProgram (buffered : Bool) : Program :=
  if buffered then .drain names.push (.pop .done) (finishProgram env d names)
  else finishProgram env d names

/-- The variable that holds whether the body is evaluated again. -/
def againName (names : HandlerNames) : Bytes := "_ag_" ++ names.handler.dropStart "_th_"

/-- The statements of one evaluation of the body of a classic tag. -/
def roundProgram (blocks : Blocks) (body : Code) (repeated : Bool) (rest : Program) : Program :=
  .lines (nestedSyncs blocks (t.vars.filter (·.scope == .nested))) <|
  .lines (syncs t [.atBegin]) <|
  .page body <|
  if repeated then
    .line (.define [againName names, "err"] (names.handler ++ ".DoAfterBody()")) <|
    .guard "if err != nil \x7b" <|
    .cond (.differs (againName names) "EvalBodyAgain") .stop rest
  else rest

/-- The statements that pop a buffer after the last evaluation of a body. -/
def closeProgram (names : HandlerNames) (buffered : Bool) : Program :=
  if buffered then
    .cond (.equal names.eval "EvalBodyBuffered") (.pop <| .line (.decrement names.push) .done) .done
  else .done

/-- The evaluations of the body of a classic tag. -/
def roundsProgram (plan : BodyPlan) (blocks : Blocks) (body : Code) : Program :=
  if plan.repeated then
    .loop (roundProgram t names blocks body true .done) (closeProgram names plan.buffered)
  else roundProgram t names blocks body false (closeProgram names plan.buffered)

/-- The statements of the body of a classic tag, for which a buffer may be pushed. -/
def bodyProgram (plan : BodyPlan) (blocks : Blocks) (body : Code) (rest : Program) : Program :=
  let rounds := roundsProgram t names plan blocks body
  .cond (.differs names.eval "SkipBody")
    (if plan.buffered then
      .cond (.equal names.eval "EvalBodyBuffered")
        (.push names.handler <| .line (.increment names.push) <|
          .guard ("if err := " ++ (names.handler ++ ".DoInitBody()") ++ "; err != nil \x7b") .done)
        rounds
    else rounds)
    rest

/-- The statements of a classic tag from its end call on. -/
def endProgram : Program :=
  .line (.assign [names.eval, "err"] (names.handler ++ ".DoEndTag()")) <|
  .guard "if err != nil \x7b" <|
  .lines (syncs t [.atBegin, .atEnd]) <|
  .cond (.equal names.eval "SkipPage") (.leave "rt.ErrSkipPage") <|
  .leave "nil"

/-- The statements of a classic tag from its start on. -/
def callsProgram (plan : BodyPlan) (blocks : Blocks) (body : Code) : Program :=
  .line (.define [names.eval, "err"] (names.handler ++ ".DoStartTag()")) <|
  .guard "if err != nil \x7b" <|
  .lines (syncs t [.atBegin]) <|
  if plan.evaluated then bodyProgram t names plan blocks body (endProgram t names)
  else endProgram t names

/-- The statements that run a classic tag. -/
def classicProgram (plan : BodyPlan) (type parent : Bytes) (blocks : Blocks)
    (attributes body : Code) : Program :=
  let h := names.handler
  let start (rest : Program) : Program :=
    if plan.buffered then .line (.zero names.push) rest else rest
  .line (.define [h] (if names.pool != [] then
      env.receiver ++ "." ++ names.pool ++ ".Get(func() rt.Tag \x7b return &" ++ type ++
        "\x7b\x7d \x7d).(*" ++ type ++ ")"
    else "&" ++ type ++ "\x7b\x7d")) <|
  .line (.call h "SetPageContext(pc)") <|
  .line (.call h ("SetParent(" ++ parent ++ ")")) <|
  start <|
  .deferred (releaseProgram env d names plan.buffered) <|
  .page attributes <|
  callsProgram t names plan blocks body

end Classic

/-! ### Simple tags -/

/-- The code that runs a simple tag; `setBody` tells whether a body is given to it. -/
def simpleCode (t : CustomTag) (names : HandlerNames) (type parent : Bytes)
    (attributes : Code) (setBody : Option (Code × Nat)) : Code :=
  let h := names.handler
  Code.lines [.define [h] ("&" ++ type ++ "\x7b\x7d"), .call h "SetJspContext(pc)",
    .call h ("SetParent(" ++ parent ++ ")")] ++
  (attributes ++
  ((match setBody with
    | some (body, id) =>
      .fragment body (.line (.call h ("SetJspBody(" ++ fragmentCode h id ++ ")")) .nil)
    | none => .nil) ++
  (Code.check (h ++ ".DoTag()") ++
  (Code.lines (syncs t [.atBegin, .atEnd]) ++ .line (.control "return nil") .nil))))

/-! ### Placement -/

/-- An invocation as a closure in place. -/
def closureCode (run : Code) : Code :=
  .line (.control "if err := func() (err error) \x7b")
    (.indent (run ++ .outdent (Code.returning "\x7d(); err != nil \x7b")))

/-- An invocation as a method. -/
def methodCode (env : Env) (name : Bytes) (run : Code) : Code :=
  Code.block (.control ("func (" ++ env.receiver ++ " *" ++ env.typeName ++ ") " ++ name ++
    "(pc *rt.PageContext, frags *" ++ env.fragmentType ++ ", parent rt.Tag) (err error) \x7b"))
    run "\x7d"

/-! ### Executions -/

/-- How an execution of statements ends. -/
inductive Ending where
  /-- What follows is next. -/
  | done
  /-- The function is left. -/
  | left
  /-- The loop is left. -/
  | broken
  /-- The loop goes on with another round. -/
  | continued
  deriving DecidableEq

/-- Whether a loop goes on after a round. -/
def Ending.GoesOn (e : Ending) : Prop := e = .done ∨ e = .continued

/-- The values of variables, and how often a buffer was pushed and popped. -/
structure Machine where
  /-- The values of variables. -/
  memory : Memory
  /-- How often a buffer was pushed. -/
  pushed : Nat
  /-- How often a buffer was popped. -/
  popped : Nat

/-- The results that a test may have, with the values of constants of the runtime package. -/
def Test.Gives (runtime : Bytes → Value) (m : Memory) : Test → Bool → Prop
  | equal x constant, b => b = decide (m x = runtime constant)
  | differs x constant, b => b = decide (m x ≠ runtime constant)
  | unknown _, _ => True

/-- Executions of programs. Deferred statements stand where the function is not in a block. -/
inductive Exec (runtime : Bytes → Value) (kept : Bytes → Prop) :
    Program → Machine → Ending → Machine → Prop where
  | done {s : Machine} : Exec runtime kept .done s .done s
  | line {t : Statement} {rest : Program} {s s' : Machine} {m : Memory} {e : Ending}
    (head : t.Runs s.memory m) (tail : Exec runtime kept rest { s with memory := m } e s') :
    Exec runtime kept (.line t rest) s e s'
  | push {handler : Bytes} {rest : Program} {s s' : Machine} {e : Ending}
    (tail : Exec runtime kept rest { s with pushed := s.pushed + 1 } e s') :
    Exec runtime kept (.push handler rest) s e s'
  | pop {rest : Program} {s s' : Machine} {e : Ending}
    (tail : Exec runtime kept rest { s with popped := s.popped + 1 } e s') :
    Exec runtime kept (.pop rest) s e s'
  | pass {condition : Bytes} {rest : Program} {s s' : Machine} {m : Memory} {e : Ending}
    (head : (Statement.control condition).Runs s.memory m)
    (tail : Exec runtime kept rest { s with memory := m } e s') :
    Exec runtime kept (.guard condition rest) s e s'
  | fail {condition : Bytes} {rest : Program} {s : Machine} {m : Memory}
    (head : (Statement.control condition).Runs s.memory m) :
    Exec runtime kept (.guard condition rest) s .left { s with memory := m }
  | enter {test : Test} {body rest : Program} {s s₁ s' : Machine} {e : Ending}
    (holds : test.Gives runtime s.memory true) (head : Exec runtime kept body s .done s₁)
    (tail : Exec runtime kept rest s₁ e s') : Exec runtime kept (.cond test body rest) s e s'
  | exit {test : Test} {body rest : Program} {s s' : Machine} {e : Ending}
    (holds : test.Gives runtime s.memory true) (head : Exec runtime kept body s e s')
    (ends : e ≠ .done) : Exec runtime kept (.cond test body rest) s e s'
  | skip {test : Test} {body rest : Program} {s s' : Machine} {e : Ending}
    (fails : test.Gives runtime s.memory false) (tail : Exec runtime kept rest s e s') :
    Exec runtime kept (.cond test body rest) s e s'
  | again {body rest : Program} {s s₁ s' : Machine} {e₁ e : Ending}
    (head : Exec runtime kept body s e₁ s₁) (goes : e₁.GoesOn)
    (tail : Exec runtime kept (.loop body rest) s₁ e s') :
    Exec runtime kept (.loop body rest) s e s'
  | breaks {body rest : Program} {s s₁ s' : Machine} {e : Ending}
    (head : Exec runtime kept body s .broken s₁) (tail : Exec runtime kept rest s₁ e s') :
    Exec runtime kept (.loop body rest) s e s'
  | returns {body rest : Program} {s s' : Machine} (head : Exec runtime kept body s .left s') :
    Exec runtime kept (.loop body rest) s .left s'
  | count {x : Bytes} {body rest : Program} {s s₁ s' : Machine} {n : Int} {m : Memory}
    {e₁ e : Ending} (holds : s.memory x = .number n) (pos : 0 < n)
    (head : Exec runtime kept body s e₁ s₁) (goes : e₁.GoesOn)
    (step : (Statement.decrement x).Runs s₁.memory m)
    (tail : Exec runtime kept (.drain x body rest) { s₁ with memory := m } e s') :
    Exec runtime kept (.drain x body rest) s e s'
  | countBreak {x : Bytes} {body rest : Program} {s s₁ s' : Machine} {n : Int} {e : Ending}
    (holds : s.memory x = .number n) (pos : 0 < n) (head : Exec runtime kept body s .broken s₁)
    (tail : Exec runtime kept rest s₁ e s') : Exec runtime kept (.drain x body rest) s e s'
  | countReturn {x : Bytes} {body rest : Program} {s s' : Machine} {n : Int}
    (holds : s.memory x = .number n) (pos : 0 < n) (head : Exec runtime kept body s .left s') :
    Exec runtime kept (.drain x body rest) s .left s'
  | drained {x : Bytes} {body rest : Program} {s s' : Machine} {e : Ending}
    (holds : ∀ n, s.memory x = .number n → n ≤ 0) (tail : Exec runtime kept rest s e s') :
    Exec runtime kept (.drain x body rest) s e s'
  | deferred {body rest : Program} {s s₁ s' : Machine} {e e' : Ending}
    (head : Exec runtime kept rest s e s₁) (tail : Exec runtime kept body s₁ e' s') :
    Exec runtime kept (.deferred body rest) s e s'
  | page {code : Code} {rest : Program} {s s' : Machine} {m : Memory} {e : Ending}
    (head : ∀ x, kept x → m x = s.memory x)
    (tail : Exec runtime kept rest { s with memory := m } e s') :
    Exec runtime kept (.page code rest) s e s'
  | pageEnds {code : Code} {rest : Program} {s : Machine} {m : Memory} {e : Ending}
    (head : ∀ x, kept x → m x = s.memory x) (ends : e ≠ .done) :
    Exec runtime kept (.page code rest) s e { s with memory := m }
  | leave {value : Bytes} {s : Machine} {m : Memory}
    (head : (Statement.control ("return " ++ value)).Runs s.memory m) :
    Exec runtime kept (.leave value) s .left { s with memory := m }
  | stop {s : Machine} : Exec runtime kept .stop s .broken s

/-- Every execution of a program pops buffers as often as it pushes them, whatever the constants of
the runtime package are, if code of the page keeps some variables. -/
def Program.IsBalanced (kept : Bytes → Prop) (p : Program) : Prop :=
  ∀ (runtime : Bytes → Value) (m : Memory) (e : Ending) (s : Machine),
    Exec runtime kept p ⟨m, 0, 0⟩ e s → s.popped = s.pushed

/-! ### What executions ensure -/

/-- What holds after every execution that starts where `P` holds. -/
def Ensures (runtime : Bytes → Value) (kept : Bytes → Prop) (P : Machine → Prop) (p : Program)
    (Q : Ending → Machine → Prop) : Prop :=
  ∀ s e s', P s → Exec runtime kept p s e s' → Q e s'

/-- What holds after statements that are followed by others: `R` if these are next. -/
def before (R : Machine → Prop) (Q : Ending → Machine → Prop) : Ending → Machine → Prop
  | .done, s => R s
  | e, s => Q e s

theorem before_of_ne {R : Machine → Prop} {Q : Ending → Machine → Prop} {e : Ending} {s : Machine}
    (he : e ≠ .done) : before R Q e s ↔ Q e s := by
  cases e with
  | done => exact absurd rfl he
  | left | broken | continued => rfl

/-- A statement leaves it true that `P` holds. -/
def Statement.Keeps (t : Statement) (P : Machine → Prop) : Prop :=
  ∀ s m, P s → t.Runs s.memory m → P { s with memory := m }

namespace Ensures

variable {runtime : Bytes → Value} {kept : Bytes → Prop} {P P' R : Machine → Prop}
  {Q Q' : Ending → Machine → Prop} {body rest : Program}

theorem mono (h : Ensures runtime kept P body Q) (hP : ∀ s, P' s → P s)
    (hQ : ∀ e s, Q e s → Q' e s) : Ensures runtime kept P' body Q' :=
  fun s e s' hs hrun => hQ e s' (h s e s' (hP s hs) hrun)

theorem done (h : ∀ s, P s → Q .done s) : Ensures runtime kept P .done Q := by
  intro s e s' hs hrun
  cases hrun
  exact h s hs

theorem line {t : Statement} (h : ∀ s m, P s → t.Runs s.memory m → R { s with memory := m })
    (hrest : Ensures runtime kept R rest Q) : Ensures runtime kept P (.line t rest) Q := by
  intro s e s' hs hrun
  cases hrun with
  | line head tail => exact hrest _ e s' (h s _ hs head) tail

theorem keep {t : Statement} (h : t.Keeps P) (hrest : Ensures runtime kept P rest Q) :
    Ensures runtime kept P (.line t rest) Q := line h hrest

theorem lines {ts : List Statement} (h : ∀ t ∈ ts, t.Keeps P)
    (hrest : Ensures runtime kept P rest Q) : Ensures runtime kept P (.lines ts rest) Q := by
  induction ts with
  | nil => exact hrest
  | cons t ts ih =>
    exact keep (h t List.mem_cons_self) (ih fun u hu => h u (List.mem_cons_of_mem t hu))

theorem push {handler : Bytes} (h : ∀ s, P s → R { s with pushed := s.pushed + 1 })
    (hrest : Ensures runtime kept R rest Q) : Ensures runtime kept P (.push handler rest) Q := by
  intro s e s' hs hrun
  cases hrun with
  | push tail => exact hrest _ e s' (h s hs) tail

theorem pop (h : ∀ s, P s → R { s with popped := s.popped + 1 })
    (hrest : Ensures runtime kept R rest Q) : Ensures runtime kept P (.pop rest) Q := by
  intro s e s' hs hrun
  cases hrun with
  | pop tail => exact hrest _ e s' (h s hs) tail

theorem guard {condition : Bytes} (h : (Statement.control condition).Keeps P)
    (hleft : ∀ s, P s → Q .left s) (hrest : Ensures runtime kept P rest Q) :
    Ensures runtime kept P (.guard condition rest) Q := by
  intro s e s' hs hrun
  cases hrun with
  | pass head tail => exact hrest _ e s' (h s _ hs head) tail
  | fail head => exact hleft _ (h s _ hs head)

theorem cond {test : Test}
    (hbody : Ensures runtime kept (fun s => P s ∧ test.Gives runtime s.memory true) body
      (before R Q))
    (hskip : ∀ s, P s → test.Gives runtime s.memory false → R s)
    (hrest : Ensures runtime kept R rest Q) :
    Ensures runtime kept P (.cond test body rest) Q := by
  intro s e s' hs hrun
  cases hrun with
  | enter holds head tail => exact hrest _ e s' (hbody s .done _ ⟨hs, holds⟩ head) tail
  | exit holds head ends => exact (before_of_ne ends).mp (hbody s e s' ⟨hs, holds⟩ head)
  | skip fails tail => exact hrest s e s' (hskip s hs fails) tail

/-- What holds before every round of a loop, and when it is left, is carried through it. -/
theorem loop (hbody : Ensures runtime kept P body fun e s =>
      (e.GoesOn → P s) ∧ (e = .broken → R s) ∧ (e = .left → Q .left s))
    (hrest : Ensures runtime kept R rest Q) : Ensures runtime kept P (.loop body rest) Q := by
  intro s e s' hs hrun
  generalize hp : Program.loop body rest = p at hrun
  induction hrun with
  | again head goes tail _ ih =>
    cases hp
    exact ih ((hbody _ _ _ hs head).1 goes) rfl
  | breaks head tail _ _ =>
    cases hp
    exact hrest _ _ _ ((hbody _ _ _ hs head).2.1 rfl) tail
  | returns head _ =>
    cases hp
    exact (hbody _ _ _ hs head).2.2 rfl
  | _ => cases hp

/-- A loop that counts down keeps what every round and the count after it keep. -/
theorem drain {x : Bytes}
    (hbody : ∀ n, 0 < n → Ensures runtime kept (fun s => P s ∧ s.memory x = .number n) body
      fun e s => e = .done ∧ ∀ m, (Statement.decrement x).Runs s.memory m →
        P { s with memory := m })
    (hrest : Ensures runtime kept (fun s => P s ∧ ∀ n, s.memory x = .number n → n ≤ 0) rest Q) :
    Ensures runtime kept P (.drain x body rest) Q := by
  intro s e s' hs hrun
  generalize hp : Program.drain x body rest = p at hrun
  induction hrun with
  | count holds pos head _ step _ _ ih =>
    cases hp
    exact ih ((hbody _ pos _ _ _ ⟨hs, holds⟩ head).2 _ step) rfl
  | countBreak holds pos head _ _ _ | countReturn holds pos head _ =>
    cases hp
    cases (hbody _ pos _ _ _ ⟨hs, holds⟩ head).1
  | drained holds tail _ =>
    cases hp
    exact hrest _ _ _ ⟨hs, holds⟩ tail
  | _ => cases hp

/-- Deferred statements run after the rest, however that ends. -/
theorem deferred {S : Machine → Prop} (hrest : Ensures runtime kept P rest fun _ => R)
    (hbody : Ensures runtime kept R body fun _ => S) :
    Ensures runtime kept P (.deferred body rest) fun _ => S := by
  intro s e s' hs hrun
  cases hrun with
  | deferred head tail => exact hbody _ _ s' (hrest s e _ hs head) tail

theorem page {code : Code}
    (h : ∀ s m, P s → (∀ x, kept x → m x = s.memory x) → P { s with memory := m })
    (hends : ∀ e s, P s → e ≠ .done → Q e s) (hrest : Ensures runtime kept P rest Q) :
    Ensures runtime kept P (.page code rest) Q := by
  intro s e s' hs hrun
  cases hrun with
  | page head tail => exact hrest _ e s' (h s _ hs head) tail
  | pageEnds head ends => exact hends e _ (h s _ hs head) ends

theorem leave {value : Bytes} (h : (Statement.control ("return " ++ value)).Keeps P)
    (hleft : ∀ s, P s → Q .left s) : Ensures runtime kept P (.leave value) Q := by
  intro s e s' hs hrun
  cases hrun with
  | leave head => exact hleft _ (h s _ hs head)

theorem stop (h : ∀ s, P s → Q .broken s) : Ensures runtime kept P .stop Q := by
  intro s e s' hs hrun
  cases hrun
  exact h s hs

end Ensures

end Generation

end ServerPages
