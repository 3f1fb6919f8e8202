import ServerPages.Proofs.PreparedTrees
import ServerPages.Proofs.TagPrograms
import ServerPages.Proofs.WritingSteps
import ServerPages.Proofs.WrittenText

/-!
# What the code of a node is

`IsCodeOf` tells, kind by kind, which lines belong to a node. It is used for the parts of a recorded
code: `Site.IsPart` says that a part is the code of the node with its number, that it begins with a
line of its own, and that only nodes below that node have parts inside.

Every statement that the generator writes is its own (`Site.IsOwn`): it gives values only to `err`,
to variables of the page, and to variables that the generator makes up. The latter have numbers,
and inside a tag these are higher than the number of tags around it (`Introduced`).

## Main results

* `Introduced.ne_saveSlot`: no variable that is introduced further inside is a save slot of a tag.
* `Fits`, `Computes`, `IsBody`: what is known of the code of a step; all of them hold of codes one
  after the other, and go on to hold when what the unit shares grows.
-/

namespace ServerPages.Generation

/-! ### Names -/

/-- What the identifiers of an invocation have in common. -/
def invocationName (t : CustomTag) (id : Nat) : Bytes :=
  identifier t.prefixName ++ "_" ++ identifier t.localName ++ "_" ++ Bytes.ofNat id

/-- The identifiers of an invocation with a number. -/
structure IsNamed (t : CustomTag) (names : HandlerNames) (id : Nat) : Prop where
  handler : names.handler = "_th_" ++ invocationName t id
  eval : names.eval = "_ev_" ++ invocationName t id
  push : names.push = "_pb_" ++ invocationName t id

theorem againName_eq {t : CustomTag} {names : HandlerNames} {id : Nat} (h : IsNamed t names id) :
    againName names = "_ag_" ++ invocationName t id := by
  rw [againName, h.handler]
  rfl

/-- The variables that are given values by generated statements: those of the page, whose names are
given, and those with numbers from `level` on. -/
inductive Introduced (named : Bytes → Prop) (level : Nat) : Bytes → Prop where
  /-- The error of a call. -/
  | error : Introduced named level "err"
  /-- A value that is not needed. -/
  | blank : Introduced named level "_"
  /-- A variable of the page. -/
  | page {x : Bytes} (h : named x) : Introduced named level x
  /-- A value that is needed once. -/
  | temporary (i : Nat) : Introduced named level ("_v" ++ Bytes.ofNat i)
  /-- Whether a bean was made. -/
  | created (i : Nat) : Introduced named level ("_v" ++ Bytes.ofNat i ++ "_created")
  /-- A variable of an invocation. -/
  | invocation {mark : Bytes} (hm : mark ∈ (["_th_", "_ev_", "_pb_", "_ag_"] : List Bytes))
      (t : CustomTag) {id : Nat} (h : level ≤ id) :
      Introduced named level (mark ++ invocationName t id)
  /-- A variable that keeps the outer value of another one. -/
  | slot (x : Bytes) {i : Nat} (h : level ≤ i) : Introduced named level (saveSlot x i)

theorem Introduced.mono {named : Bytes → Prop} {level level' : Nat} {x : Bytes}
    (h : Introduced named level' x) (hl : level ≤ level') : Introduced named level x := by
  cases h with
  | error => exact .error
  | blank => exact .blank
  | page h => exact .page h
  | temporary i => exact .temporary i
  | created i => exact .created i
  | invocation hm t h => exact .invocation hm t (Nat.le_trans hl h)
  | slot x h => exact .slot x (Nat.le_trans hl h)

/-- A name that ends in an underscore and a number is taken apart in one way. -/
theorem append_ofNat_inj {a b : Bytes} {i j : Nat}
    (h : a ++ ("_" ++ Bytes.ofNat i) = b ++ ("_" ++ Bytes.ofNat j)) : a = b ∧ i = j := by
  have hdigits : ∀ n, ∀ e ∈ (Bytes.ofNat n).reverse, Bytes.isDigit e = true := by
    intro n e he
    exact Bytes.isDigit_of_mem_ofNat (List.mem_reverse.mp he)
  have hrev := congrArg List.reverse h
  have hmark : (Bytes.ofString "_" : Bytes) = [95] := rfl
  simp only [hmark, List.reverse_append, List.reverse_cons, List.append_assoc,
    List.singleton_append] at hrev
  obtain ⟨hi, -, hab⟩ := Bytes.append_cons_inj (hdigits i) (hdigits j) rfl rfl hrev
  exact ⟨List.reverse_inj.mp hab, Bytes.ofNat_injective (List.reverse_inj.mp hi)⟩

theorem saveSlot_eq (x : Bytes) (i : Nat) :
    saveSlot x i = ("_" ++ x) ++ ("_" ++ Bytes.ofNat i) := by
  simp [saveSlot]

/-- Save slots of different variables or levels are different. -/
theorem saveSlot_inj {x y : Bytes} {i j : Nat} (h : saveSlot x i = saveSlot y j) :
    x = y ∧ i = j := by
  rw [saveSlot_eq, saveSlot_eq] at h
  obtain ⟨hxy, hij⟩ := append_ofNat_inj h
  exact ⟨List.append_cancel_left hxy, hij⟩

/-- No variable that is introduced further inside is a save slot of a tag, unless a variable of the
page has the name of a save slot. -/
theorem Introduced.ne_saveSlot {named : Bytes → Prop} {level i : Nat} {x z : Bytes}
    (h : Introduced named level z) (hi : i < level)
    (hnamed : ∀ y, named y → ∀ x j, y ≠ saveSlot x j) : z ≠ saveSlot x i := by
  intro he
  cases h with
  | error =>
    rw [saveSlot_eq] at he
    cases he
  | blank =>
    have hlength := congrArg List.length he
    simp [saveSlot, Bytes.ofString] at hlength
  | page h => exact hnamed z h x i he
  | temporary j =>
    -- There is no underscore after the first byte.
    have hrest : (118 :: Bytes.ofNat j : Bytes) = x ++ 95 :: Bytes.ofNat i := by
      rw [saveSlot_eq] at he
      exact (List.cons.inj he).2
    have hmem : (95 : UInt8) ∈ (118 :: Bytes.ofNat j : Bytes) := by
      rw [hrest]
      simp
    rcases List.mem_cons.mp hmem with h | h
    · cases h
    · exact absurd (Bytes.isDigit_of_mem_ofNat h) (by decide)
  | created j =>
    -- The last byte is no digit.
    have hrev := congrArg List.reverse he
    have hcreated : ("_created" : Bytes).reverse = 100 :: ("_create" : Bytes).reverse := rfl
    have hmark : (Bytes.ofString "_" : Bytes) = [95] := rfl
    rw [List.reverse_append, hcreated, saveSlot_eq, hmark] at hrev
    simp only [List.reverse_append, List.reverse_cons, List.append_assoc,
      List.singleton_append] at hrev
    have hdigits : ∀ e ∈ (Bytes.ofNat i).reverse, Bytes.isDigit e = true := by
      intro e he
      exact Bytes.isDigit_of_mem_ofNat (List.mem_reverse.mp he)
    obtain ⟨-, hbyte, -⟩ := Bytes.append_cons_inj (a := []) (fun e he => absurd he List.not_mem_nil)
      hdigits rfl rfl hrev
    cases hbyte
  | @invocation mark hm t id h =>
    have hsplit : mark ++ invocationName t id =
        (mark ++ (identifier t.prefixName ++ ("_" ++ identifier t.localName))) ++
          ("_" ++ Bytes.ofNat id) := by
      simp [invocationName]
    rw [hsplit, saveSlot_eq] at he
    obtain ⟨-, hid⟩ := append_ofNat_inj he
    omega
  | slot y h =>
    obtain ⟨-, hij⟩ := saveSlot_inj he
    omega

/-! ### The statements of a unit -/

/-- A unit that code is generated for. -/
structure Site where
  /-- How code is generated. -/
  env : Env
  /-- The tree with its nodes numbered. -/
  root : Node

namespace Site

/-- A name that the page gives to a variable: that of a scripting variable or of a bean. -/
def Names (z : Site) (x : Bytes) : Prop :=
  ∃ n ∈ z.root.subtree, (∃ t, n.head.tag = some t ∧ ∃ v ∈ t.vars, v.name = x) ∨
    n.kind = .useBean ∧ n.head.attrValue "id" = x

/-- A line of code of the page. -/
def IsCode (z : Site) (l : Bytes) : Prop :=
  ∃ n ∈ z.root.subtree, n.kind = .scriptlet ∧ l ∈ scriptletLines n.text ∨
    n.kind = .declaration ∧ l ∈ declarationLines n.text

/-- A statement that the generator writes where so many tags are around: what it gives values to is
introduced by the generator, and if it is code of the page it is found there. -/
structure IsOwn (z : Site) (level : Nat) (s : Statement) : Prop where
  read : s.IsRead
  targets : ∀ x ∈ s.targets, Introduced z.Names level x
  page : ∀ l, s = .page l → z.IsCode l

theorem IsOwn.mono {z : Site} {level level' : Nat} {s : Statement} (h : z.IsOwn level' s)
    (hl : level ≤ level') : z.IsOwn level s :=
  ⟨h.read, fun x hx => (h.targets x hx).mono hl, h.page⟩

end Site

/-- A statement that computes the value of an attribute: it sets variables that are needed once, or
is a line of control. -/
inductive Statement.Computes : Statement → Prop where
  /-- A value is computed. -/
  | value (i : Nat) (v : Bytes) : Statement.Computes (.define ["_v" ++ Bytes.ofNat i, "err"] v)
  /-- A line of control. -/
  | control (text : Bytes) : Statement.Computes (.control text)

/-- A statement that passes attributes to a handler. -/
inductive Statement.Passes (handler : Bytes) (as : List Attribute) : Statement → Prop where
  /-- The value of an attribute is computed. -/
  | computes {s : Statement} (h : s.Computes) : Statement.Passes handler as s
  /-- A setter is called. -/
  | setter {a : Attribute} (h : a ∈ as) (value : Bytes) :
    Statement.Passes handler as (.call handler (a.setter.method ++ ("(" ++ (value ++ ")"))))

/-! ### The code of nodes -/

/-- The code that runs an invocation of a tag. -/
inductive IsRun (env : Env) (n : Node) (t : CustomTag) (d : TagDescriptor)
    (names : HandlerNames) : Code → Prop where
  /-- A classic tag. -/
  | classic (h : d.isClassic = true) (type parent : Bytes) (blocks : Blocks)
    {attributes body : Code}
    (hattributes : attributes.Surface (Statement.Passes names.handler n.head.attributes))
    (hbody : body.Surface Statement.Computes) :
    IsRun env n t d names
      (classicProgram env t d names (bodyPlan d n) type parent blocks attributes body).code
  /-- A simple tag. -/
  | simple (h : d.isClassic = false) (type parent : Bytes) {attributes : Code}
    {setBody : Option (Code × Nat)}
    (hattributes : attributes.Surface (Statement.Passes names.handler n.head.attributes)) :
    IsRun env n t d names (simpleCode t names type parent attributes setBody)

/-- The code of an invocation in place: its variables are declared and saved, it runs in a closure,
and the variables that were saved are restored. -/
def inlineCode (t : CustomTag) (blocks : Blocks) (run : Code) : Code :=
  Code.lines (Declared.all t.nesting blocks t.vars).statements ++
    (closureCode run ++
      Code.lines (restores t.nesting (Declared.all t.nesting blocks t.vars).saved))

/-- The code of an invocation of a tag: a closure in place or a method. -/
inductive IsTagCode (env : Env) (n : Node) : Code → Prop where
  /-- A closure in place. -/
  | inline {t : CustomTag} {d : TagDescriptor} {names : HandlerNames} {id : Nat} {run : Code}
    (blocks : Blocks) (ht : n.head.tag = some t) (hd : t.descriptor = some d)
    (hnames : IsNamed t names id) (hrun : IsRun env n t d names run)
    (h : isHoistable n.head t = false) : IsTagCode env n (inlineCode t blocks run)
  /-- A method. -/
  | hoisted {t : CustomTag} {d : TagDescriptor} {names : HandlerNames} {id : Nat} {run : Code}
    (name : Bytes) (ht : n.head.tag = some t) (hd : t.descriptor = some d)
    (hnames : IsNamed t names id) (hrun : IsRun env n t d names run)
    (h : isHoistable n.head t = true) : IsTagCode env n (methodCode env name run)

/-- The code that makes a bean that is declared. -/
def beanCode (n : Node) (i : Nat) (created value : Bytes) (body : Code) : Code :=
  Code.block (.control "\x7b") (.line (.define ["_v" ++ Bytes.ofNat i, created, "err"] value)
    (Code.checkErr ++ .line (.assign [n.head.attrValue "id"] ("_v" ++ Bytes.ofNat i)) body)) "\x7d"

/-- The code of a standard action: attributes are computed, and a call is made with their values. -/
inductive IsActionCode (env : Env) (n : Node) : Code → Prop where
  /-- A page is included. -/
  | include (hk : n.kind = .includeAction) {c : Code} (hc : c.Surface Statement.Computes)
    (page params : Bytes) (flush : Bool) :
    IsActionCode env n (c ++
      Code.check ("pc.Include(" ++ page ++ ", " ++ Bytes.ofBool flush ++ ", " ++ params ++ ")"))
  /-- The request is passed on. -/
  | forward (hk : n.kind = .forwardAction) {c : Code} (hc : c.Surface Statement.Computes)
    (page params : Bytes) :
    IsActionCode env n (c ++ (Code.check ("pc.Forward(" ++ page ++ ", " ++ params ++ ")") ++
      .line (.control "return rt.ErrSkipPage") .nil))
  /-- A bean is declared, if it is not yet, and made in a block of its own. -/
  | bean (hk : n.kind = .useBean) {c : Code} (hc : c.Surface Statement.Computes) (i : Nat)
    (type value created : Bytes) (isNew : Bool) (body : Code) :
    IsActionCode env n (c ++ (Code.lines (if isNew then
        [.declare (n.head.attrValue "id") type, .use (n.head.attrValue "id")] else []) ++
      beanCode n i created value body))
  /-- A property is written or set. -/
  | property (hk : n.kind = .getProperty ∨ n.kind = .setProperty) {c : Code}
    (hc : c.Surface Statement.Computes) (call : Bytes) : IsActionCode env n (c ++ Code.check call)
  /-- An applet is embedded. -/
  | applet (hk : n.kind = .plugin) {c : Code} (hc : c.Surface Statement.Computes)
    (entries params fallback : Bytes) :
    IsActionCode env n (c ++ .line (.control "if err := rt.WritePlugin(pc, rt.Plugin\x7b") (.indent
      (Code.lines [.control ("Attrs: map[string]string\x7b" ++ entries ++ "\x7d,"),
        .control ("Params: " ++ params ++ ","), .control ("Fallback: " ++ fallback ++ ",")] ++
      .outdent (Code.returning "\x7d); err != nil \x7b"))))
  /-- A fragment or the body passed to a tag file is evaluated. -/
  | invoke (hk : n.kind = .invokeAction ∨ n.kind = .doBodyAction) (isTag : Bool) (call : Bytes) :
    IsActionCode env n
      (Code.lines (if isTag then [.call env.receiver "syncBegin(pc)"] else []) ++ Code.check call)

/-- The code that belongs to a node, with the texts and expressions that the unit holds. -/
def IsCodeOf (env : Env) (s : State) (n : Node) (c : Code) : Prop :=
  match n.kind with
  | .text => ∃ args, List.Forall₂ (IsArgument s.texts) (textPieces env.chunkSize n.text) args ∧
    c = Code.lines (args.map fun a => .call "pc" ("Out().WriteString(" ++ (a ++ ")")))
  | .expression =>
    c = Code.lines [.call "pc" ("Out().Print(" ++ (n.text.trimSpace ++ ")"))]
  | .elExpression => ∃ i, s.expressions[i]? = some n.text ∧
    c = Code.check ("rt.WriteEL(pc, " ++ ("_el" ++ Bytes.ofNat i) ++ ")")
  | .scriptlet => c = Code.lines ((scriptletLines n.text).map .page)
  | .declaration => c = Code.lines ((declarationLines n.text).map .page)
  | .customTag => IsTagCode env n c
  | _ => IsActionCode env n c

theorem IsCodeOf.mono {env : Env} {s t : State} {n : Node} {c : Code} (h : IsCodeOf env s n c)
    (hst : s.Later t) : IsCodeOf env t n c := by
  unfold IsCodeOf at h ⊢
  split
  all_goals simp_all only
  · obtain ⟨args, hargs, rfl⟩ := h
    exact ⟨args, hargs.imp fun _ _ ha => ha.mono hst.texts, rfl⟩
  · obtain ⟨i, hi, rfl⟩ := h
    obtain ⟨more, hmore⟩ := hst.expressions
    refine ⟨i, ?_, rfl⟩
    rw [← hmore, List.getElem?_append_left (List.getElem?_eq_some_iff.mp hi).1, hi]

/-! ### What is known of the code of a step -/

/-- Nodes have at most so many parts in a code; nodes that are not numbered are not counted. -/
def Code.Within (c : Code) (w : Nat → Nat) : Prop := ∀ k, k ≠ 0 → c.nodes.count k ≤ w k

/-- How often a number is found below some nodes. -/
def weight (ns : List Node) (k : Nat) : Nat := (Node.numbersAll ns).count k

/-- A part of a code is the code of the node with its number, begins with a line of its own, and has
parts inside only of nodes below that node. -/
def Site.IsPart (z : Site) (t : State) (k : Nat) (c : Code) : Prop :=
  k ≠ 0 → ∃ n ∈ z.root.subtree, n.head.number = k ∧ c.Leads ∧ c.Within (weight n.children) ∧
    IsCodeOf z.env t n c

/-- Every statement of a code is one of the generator, and every part is the code of its node. -/
structure Fits (z : Site) (level : Nat) (t : State) (c : Code) : Prop where
  own : c.All (z.IsOwn level)
  parts : c.Parts (z.IsPart t)

section Fits

variable {z : Site} {level : Nat} {t u : State} {s : Statement} {b c d : Code}

theorem Fits.mono (h : Fits z level t c) (htu : t.Later u) : Fits z level u c := by
  refine ⟨h.own, h.parts.mono ?_⟩
  intro k b hb hk
  obtain ⟨n, hn, hnk, hlead, hwithin, hcode⟩ := hb hk
  exact ⟨n, hn, hnk, hlead, hwithin, hcode.mono htu⟩

theorem Fits.outward {level' : Nat} (h : Fits z level' t c) (hl : level ≤ level') :
    Fits z level t c := ⟨h.own.mono fun _ hs => hs.mono hl, h.parts⟩

@[simp] theorem fits_nil : Fits z level t .nil := ⟨trivial, trivial⟩

@[simp] theorem fits_append : Fits z level t (c ++ d) ↔ Fits z level t c ∧ Fits z level t d := by
  constructor
  · rintro ⟨ho, hp⟩
    rw [Code.all_append] at ho
    rw [Code.parts_append] at hp
    exact ⟨⟨ho.1, hp.1⟩, ⟨ho.2, hp.2⟩⟩
  · rintro ⟨hc, hd⟩
    exact ⟨(Code.all_append c d).mpr ⟨hc.own, hd.own⟩,
      (Code.parts_append c d).mpr ⟨hc.parts, hd.parts⟩⟩

@[simp] theorem fits_line : Fits z level t (.line s c) ↔ z.IsOwn level s ∧ Fits z level t c := by
  constructor
  · rintro ⟨ho, hp⟩
    exact ⟨ho.1, ho.2, hp⟩
  · rintro ⟨hs, hc⟩
    exact ⟨⟨hs, hc.own⟩, hc.parts⟩

@[simp] theorem fits_indent : Fits z level t (.indent c) ↔ Fits z level t c :=
  ⟨fun h => ⟨h.own, h.parts⟩, fun h => ⟨h.own, h.parts⟩⟩

@[simp] theorem fits_outdent : Fits z level t (.outdent c) ↔ Fits z level t c :=
  ⟨fun h => ⟨h.own, h.parts⟩, fun h => ⟨h.own, h.parts⟩⟩

@[simp] theorem fits_part {k : Nat} :
    Fits z level t (.part k b c) ↔ z.IsPart t k b ∧ Fits z level t b ∧ Fits z level t c := by
  constructor
  · rintro ⟨ho, hp⟩
    exact ⟨hp.1, ⟨ho.1, hp.2.1⟩, ⟨ho.2, hp.2.2⟩⟩
  · rintro ⟨hb, hbody, hc⟩
    exact ⟨⟨hbody.own, hc.own⟩, hb, hbody.parts, hc.parts⟩

@[simp] theorem fits_method {isApart : Bool} :
    Fits z level t (.method isApart b c) ↔ Fits z level t b ∧ Fits z level t c := by
  constructor
  · rintro ⟨ho, hp⟩
    exact ⟨⟨ho.1, hp.1⟩, ⟨ho.2, hp.2⟩⟩
  · rintro ⟨hb, hc⟩
    exact ⟨⟨hb.own, hc.own⟩, hb.parts, hc.parts⟩

@[simp] theorem fits_fragment :
    Fits z level t (.fragment b c) ↔ Fits z level t b ∧ Fits z level t c := by
  constructor
  · rintro ⟨ho, hp⟩
    exact ⟨⟨ho.1, hp.1⟩, ⟨ho.2, hp.2⟩⟩
  · rintro ⟨hb, hc⟩
    exact ⟨⟨hb.own, hc.own⟩, hb.parts, hc.parts⟩

@[simp] theorem fits_lines {ss : List Statement} :
    Fits z level t (Code.lines ss) ↔ ∀ s ∈ ss, z.IsOwn level s := by
  induction ss with
  | nil => simp
  | cons s ss ih => simp [ih]

theorem Site.own_control {w : Bytes} (hw : w ∈ Statement.controlWords) (rest : Bytes) :
    z.IsOwn level (.control (w ++ rest)) := by
  refine ⟨⟨w, hw, rest, rfl⟩, ?_, nofun⟩
  rintro _ hx
  obtain rfl := List.mem_singleton.mp hx
  exact .error

theorem Site.own_call {receiver : Bytes} (h : 32 ∉ receiver) (message : Bytes) :
    z.IsOwn level (.call receiver message) :=
  ⟨h, fun _ hx => absurd hx List.not_mem_nil, nofun⟩

theorem space_not_mem_receiver (env : Env) : 32 ∉ env.receiver := by
  unfold Env.receiver
  split <;> decide

theorem Site.own_define {names : List Bytes} (h : ∀ x ∈ names, Introduced z.Names level x)
    (value : Bytes) : z.IsOwn level (.define names value) := ⟨trivial, h, nofun⟩

theorem Site.own_assign {names : List Bytes} (h : ∀ x ∈ names, Introduced z.Names level x)
    (value : Bytes) : z.IsOwn level (.assign names value) := ⟨trivial, h, nofun⟩

/-- A temporary variable and the error of a call are set. -/
theorem Site.own_temporary (i : Nat) (value : Bytes) :
    z.IsOwn level (.define ["_v" ++ Bytes.ofNat i, "err"] value) := by
  refine Site.own_define ?_ value
  rintro _ hx
  rcases List.mem_cons.mp hx with rfl | hx
  · exact .temporary i
  · obtain rfl := List.mem_singleton.mp hx
    exact .error

@[simp] theorem own_return (value : Bytes) :
    z.IsOwn level (.control ("return " ++ value)) := Site.own_control (by decide) value

theorem fits_returning {condition : Bytes} (h : z.IsOwn level (.control condition)) :
    Fits z level t (Code.returning condition) := by
  have herr : z.IsOwn level (.control "return err") := own_return "err"
  have hclose : z.IsOwn level (.control "\x7d") := Site.own_control (w := "\x7d") (by decide) []
  simp [Code.returning, Code.block, h, herr, hclose]

@[simp] theorem fits_check (call : Bytes) : Fits z level t (Code.check call) :=
  fits_returning
    (Site.own_control (w := "if ") (by decide) ("err := " ++ call ++ "; err != nil \x7b"))

@[simp] theorem fits_checkErr : Fits z level t Code.checkErr :=
  fits_returning (Site.own_control (w := "if ") (by decide) "err != nil \x7b")

theorem fits_block {opening : Statement} {closing : Bytes} (h : z.IsOwn level opening)
    (hclose : z.IsOwn level (.control closing)) (hc : Fits z level t c) :
    Fits z level t (Code.block opening c closing) := by
  simp [Code.block, h, hclose, hc]

/-- The code of a step that computes values: it fits, outside of parts it only computes, it begins
with a line of its own, and nodes have at most so many parts in it. -/
structure Computes (z : Site) (level : Nat) (w : Nat → Nat) (t : State) (c : Code) : Prop where
  fits : Fits z level t c
  surface : c.Surface Statement.Computes
  leads : c.Leads
  within : c.Within w

/-- The code of nodes inside a tag or on a page: it fits, outside of parts it only computes, and
nodes have at most so many parts in it. -/
structure IsBody (z : Site) (level : Nat) (w : Nat → Nat) (t : State) (c : Code) : Prop where
  fits : Fits z level t c
  surface : c.Surface Statement.Computes
  within : c.Within w

variable {w w' : Nat → Nat}

theorem Code.Within.append (hc : c.Within w) (hd : d.Within w') :
    (c ++ d).Within fun k => w k + w' k := by
  intro k hk
  rw [Code.nodes_append, List.count_append]
  exact Nat.add_le_add (hc k hk) (hd k hk)

theorem Code.Within.mono (hc : c.Within w) (h : ∀ k, k ≠ 0 → w k ≤ w' k) : c.Within w' :=
  fun k hk => Nat.le_trans (hc k hk) (h k hk)

theorem Code.within_of_nodes (h : c.nodes = []) : c.Within w := by
  intro k _
  rw [h, List.count_nil]
  exact Nat.zero_le _

theorem Computes.nil : Computes z level w t .nil :=
  ⟨fits_nil, trivial, trivial, Code.within_of_nodes rfl⟩

theorem Computes.append (hc : Computes z level w t c) (hd : Computes z level w' t d) :
    Computes z level (fun k => w k + w' k) t (c ++ d) :=
  ⟨fits_append.mpr ⟨hc.fits, hd.fits⟩, (Code.surface_append c d).mpr ⟨hc.surface, hd.surface⟩,
    hc.leads.append hd.leads, hc.within.append hd.within⟩

theorem Computes.mono (hc : Computes z level w t c) (htu : t.Later u)
    (h : ∀ k, k ≠ 0 → w k ≤ w' k) : Computes z level w' u c :=
  ⟨hc.fits.mono htu, hc.surface, hc.leads, hc.within.mono h⟩

theorem IsBody.nil : IsBody z level w t .nil := ⟨fits_nil, trivial, Code.within_of_nodes rfl⟩

theorem IsBody.append (hc : IsBody z level w t c) (hd : IsBody z level w' t d) :
    IsBody z level (fun k => w k + w' k) t (c ++ d) :=
  ⟨fits_append.mpr ⟨hc.fits, hd.fits⟩, (Code.surface_append c d).mpr ⟨hc.surface, hd.surface⟩,
    hc.within.append hd.within⟩

theorem IsBody.mono (hc : IsBody z level w t c) (htu : t.Later u)
    (h : ∀ k, k ≠ 0 → w k ≤ w' k) : IsBody z level w' u c :=
  ⟨hc.fits.mono htu, hc.surface, hc.within.mono h⟩

end Fits

end ServerPages.Generation
