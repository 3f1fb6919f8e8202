import ServerPages.Proofs.FileTexts
import ServerPages.Proofs.LineMapText
import ServerPages.Proofs.LinkedVisits
import ServerPages.Proofs.UnitWriting

/-!
# Names that the generator makes up

The variables of an invocation, temporaries and methods are named with a number, and all numbers
come from one counter. `Numbered` lists these names; from each of them its number can be read back,
so names that were made up at different times are different, whatever the spelling of a tag makes of
its prefix and its name.

Which names a code introduces is read off its statements (`Code.introduced`). `Mints z g x d` says
of a step `x` what it makes up: besides the names `d.names`, whose numbers were taken before, the
code introduces each name once and with a number that the run took; and identifiers are noted only
for tags that are visited, at most as often as `d.weight` says.

## Main results

* `Numbered.isIdentifier`, `Numbered.number_eq`: the names are identifiers, and have one number.
* `Mints.number`: what follows a number that was taken may introduce names with it.
* `Mints.method`, `Mints.fragment`: what is written elsewhere counts as well.
-/

namespace ServerPages.Generation

/-! ### Identifiers -/

/-- The words of the generated language that name nothing. -/
def keywords : List Bytes :=
  ["break", "case", "chan", "const", "continue", "default", "defer", "else", "fallthrough", "for",
    "func", "go", "goto", "if", "import", "interface", "map", "package", "range", "return",
    "select", "struct", "switch", "type", "var"]

/-- A letter, a digit or an underscore. -/
def isWordByte (b : UInt8) : Bool := Bytes.isAlpha b || Bytes.isDigit b || b == 95

/-- Whether a text in ASCII is an identifier of the generated language. -/
def isIdentifier (x : Bytes) : Bool :=
  x.all isWordByte && !Bytes.isDigit (x.headD 48) && !keywords.contains x

theorem isWordByte_of_mem_identifier {s : Bytes} {b : UInt8} (h : b ∈ identifier s) :
    isWordByte b = true := by
  have hb := isLower_or_isDigit_of_mem_identifier h
  rw [Bool.or_eq_true] at hb
  rcases hb with hb | hb <;> simp [isWordByte, Bytes.isAlpha, hb]

theorem isWordByte_of_mem_ofNat {n : Nat} {b : UInt8} (h : b ∈ Bytes.ofNat n) :
    isWordByte b = true := by
  simp [isWordByte, Bytes.isDigit_of_mem_ofNat h]

/-- No keyword has a digit. -/
theorem not_mem_keywords {x : Bytes} {b : UInt8} (hb : b ∈ x) (hdigit : Bytes.isDigit b = true) :
    keywords.contains x = false := by
  have hkeywords : ∀ w ∈ keywords, ∀ c ∈ w, Bytes.isDigit c = false := by decide
  rw [Bool.eq_false_iff]
  intro hmem
  have hnone := hkeywords x (List.contains_iff_mem.mp hmem) b hb
  rw [hdigit] at hnone
  cases hnone

/-! ### Names with numbers -/

/-- How the variables of invocations begin: those of the handler, of the result of its start, of the
count of its buffers and of the result of its body. -/
def invocationMarks : List Bytes := ["_th_", "_ev_", "_pb_", "_ag_"]

/-- The names that the generator makes up with a number. -/
inductive Numbered (i : Nat) : Bytes → Prop where
  /-- A value that is needed once. -/
  | temporary : Numbered i ("_v" ++ Bytes.ofNat i)
  /-- Whether a bean was made. -/
  | created : Numbered i ("_v" ++ Bytes.ofNat i ++ "_created")
  /-- A method of a tag. -/
  | method : Numbered i (methodName i)
  /-- A variable of an invocation. -/
  | invocation {mark : Bytes} (h : mark ∈ invocationMarks) (t : CustomTag) :
    Numbered i (mark ++ invocationName t i)

/-- Whether a name is not that of an error or of a value that is not needed. -/
def isCounted (x : Bytes) : Bool := x != "err" && x != "_"

/-- The last digits of a text, from the last one on. -/
def lastDigits (x : Bytes) : Bytes :=
  (x.reverse.dropWhile fun b => !Bytes.isDigit b).takeWhile Bytes.isDigit

theorem lastDigits_eq (front : Bytes) {c : UInt8} (hc : Bytes.isDigit c = false) (i : Nat)
    {back : Bytes} (hback : ∀ b ∈ back, Bytes.isDigit b = false) :
    lastDigits (front ++ c :: (Bytes.ofNat i ++ back)) = (Bytes.ofNat i).reverse := by
  have hdigits : ∀ b ∈ (Bytes.ofNat i).reverse, Bytes.isDigit b = true := fun b hb =>
    Bytes.isDigit_of_mem_ofNat (List.mem_reverse.mp hb)
  have hsplit : (front ++ c :: (Bytes.ofNat i ++ back)).reverse =
      back.reverse ++ ((Bytes.ofNat i).reverse ++ c :: front.reverse) := by simp
  have hne : (Bytes.ofNat i).reverse ≠ [] := by simpa using Bytes.ofNat_ne_nil i
  obtain ⟨d, ds, hds⟩ := List.exists_cons_of_ne_nil hne
  have hfirst : ∀ b ∈ ((Bytes.ofNat i).reverse ++ c :: front.reverse).head?,
      (!Bytes.isDigit b) = false := by
    intro b hb
    rw [hds] at hb hdigits
    obtain rfl := Option.some.inj hb
    rw [hdigits d List.mem_cons_self]
    rfl
  rw [lastDigits, hsplit, Bytes.dropWhile_append_stop (fun b hb => ?_) hfirst,
    Bytes.takeWhile_append_stop hdigits]
  · simpa using hc
  · rw [hback b (List.mem_reverse.mp hb)]
    rfl

theorem invocationName_eq (t : CustomTag) (i : Nat) : invocationName t i =
    (identifier t.prefixName ++ "_" ++ identifier t.localName) ++ 95 :: Bytes.ofNat i := by
  simp [invocationName]
  rfl

namespace Numbered

variable {i j : Nat} {x : Bytes}

theorem lastDigits_eq (h : Numbered i x) : lastDigits x = (Bytes.ofNat i).reverse := by
  have hnone : ∀ b ∈ ([] : Bytes), Bytes.isDigit b = false := fun _ h =>
    absurd h List.not_mem_nil
  cases h with
  | temporary =>
    have h := Generation.lastDigits_eq [95] (c := 118) rfl i hnone
    rwa [List.append_nil] at h
  | created =>
    have hback : ∀ b ∈ ("_created" : Bytes), Bytes.isDigit b = false := by decide
    exact Generation.lastDigits_eq [95] (c := 118) rfl i hback
  | method =>
    have h := Generation.lastDigits_eq [116, 97] (c := 103) rfl i hnone
    rwa [List.append_nil] at h
  | @invocation mark hm t =>
    have h := Generation.lastDigits_eq
      (mark ++ (identifier t.prefixName ++ "_" ++ identifier t.localName)) (c := 95) rfl i hnone
    rwa [List.append_nil, List.append_assoc, ← invocationName_eq] at h

/-- The number of a name can be read back. -/
theorem number_eq (h : Numbered i x) (h' : Numbered j x) : i = j := by
  have hdigits := h.lastDigits_eq.symm.trans h'.lastDigits_eq
  exact Bytes.ofNat_injective (List.reverse_inj.mp hdigits)

/-- **The names are identifiers**, however the prefix and the name of a tag are spelled. -/
theorem isIdentifier (h : Numbered i x) : isIdentifier x = true := by
  obtain ⟨d, hd⟩ := List.exists_mem_of_ne_nil _ (Bytes.ofNat_ne_nil i)
  have hdigit := Bytes.isDigit_of_mem_ofNat hd
  have hnumber : ∀ b ∈ Bytes.ofNat i, isWordByte b = true := fun b => isWordByte_of_mem_ofNat
  -- The digits are in the name, and the bytes around them are letters and underscores.
  obtain ⟨hmem, hall, hhead⟩ : d ∈ x ∧ (∀ b ∈ x, isWordByte b = true) ∧
      Bytes.isDigit (x.headD 48) = false := by
    cases h with
    | temporary =>
      have hfront : ∀ b ∈ ("_v" : Bytes), isWordByte b = true := by decide
      exact ⟨List.mem_append_right _ hd, List.forall_mem_append.mpr ⟨hfront, hnumber⟩, rfl⟩
    | created =>
      have hfront : ∀ b ∈ ("_v" : Bytes), isWordByte b = true := by decide
      have hback : ∀ b ∈ ("_created" : Bytes), isWordByte b = true := by decide
      exact ⟨List.mem_append_left _ (List.mem_append_right _ hd), List.forall_mem_append.mpr
        ⟨List.forall_mem_append.mpr ⟨hfront, hnumber⟩, hback⟩, rfl⟩
    | method =>
      have hfront : ∀ b ∈ ("tag" : Bytes), isWordByte b = true := by decide
      exact ⟨List.mem_append_right _ hd, List.forall_mem_append.mpr ⟨hfront, hnumber⟩, rfl⟩
    | @invocation mark hm t =>
      have hmarks : ∀ m ∈ invocationMarks, (∀ b ∈ m, isWordByte b = true) ∧ m.head? = some 95 := by
        decide
      obtain ⟨hmark, hfirst⟩ := hmarks mark hm
      have hsep : ∀ b ∈ ("_" : Bytes), isWordByte b = true := by decide
      have hbound : ∀ b ∈ identifier t.prefixName, isWordByte b = true := fun b =>
        isWordByte_of_mem_identifier
      have hlocal : ∀ b ∈ identifier t.localName, isWordByte b = true := fun b =>
        isWordByte_of_mem_identifier
      refine ⟨List.mem_append_right _ (List.mem_append_right _ hd), ?_, ?_⟩
      · simp only [invocationName, List.forall_mem_append]
        exact ⟨hmark, ⟨⟨⟨hbound, hsep⟩, hlocal⟩, hsep⟩, hnumber⟩
      · obtain ⟨rest, rfl⟩ := List.head?_eq_some_iff.mp hfirst
        rfl
  simp only [Generation.isIdentifier, Bool.and_eq_true, List.all_eq_true, Bool.not_eq_true']
  exact ⟨⟨hall, hhead⟩, not_mem_keywords hmem hdigit⟩

/-- They are names of variables of their own. -/
theorem isCounted (h : Numbered i x) : isCounted x = true := by
  have hne : ∀ y : Bytes, Generation.lastDigits y = [] → (x != y) = true := by
    intro y hy
    rw [bne_iff_ne]
    rintro rfl
    have hnone : (Bytes.ofNat i).reverse = [] := h.lastDigits_eq.symm.trans hy
    exact Bytes.ofNat_ne_nil i (List.reverse_eq_nil_iff.mp hnone)
  rw [Generation.isCounted, hne "err" rfl, hne "_" rfl]
  rfl

end Numbered

/-- The variables that the identifiers of an invocation give names to. -/
def namedVariables (names : HandlerNames) : List Bytes :=
  [names.handler, names.push, names.eval, againName names]

/-- The variables of an invocation have its number. -/
theorem IsNamed.numbered {t : CustomTag} {names : HandlerNames} {id : Nat}
    (h : IsNamed t names id) : ∀ x ∈ namedVariables names, Numbered id x := by
  simp only [namedVariables, List.forall_mem_cons, List.not_mem_nil, false_implies, implies_true,
    and_true]
  rw [h.handler, h.push, h.eval, againName_eq h]
  exact ⟨.invocation (by decide) t, .invocation (by decide) t, .invocation (by decide) t,
    .invocation (by decide) t⟩

/-- They are four different ones. -/
theorem IsNamed.nodup {t : CustomTag} {names : HandlerNames} {id : Nat} (h : IsNamed t names id) :
    (namedVariables names).Nodup := by
  have hmarks : ([("_th_" : Bytes), "_pb_", "_ev_", "_ag_"].map (· ++ invocationName t id)).Nodup :=
    List.Nodup.map (fun _ _ => List.append_cancel_right) (by decide)
  rwa [namedVariables, h.handler, h.push, h.eval, againName_eq h]

/-! ### Names of a stretch of the counter -/

/-- Different names whose numbers come after `lo` and go up to `hi`. -/
structure Fresh (lo hi : Nat) (xs : List Bytes) : Prop where
  nodup : xs.Nodup
  numbered : ∀ x ∈ xs, ∃ i, lo < i ∧ i ≤ hi ∧ Numbered i x

namespace Fresh

variable {lo mid hi : Nat} {xs ys : List Bytes}

theorem nil : Fresh lo hi [] := ⟨List.nodup_nil, fun _ h => absurd h List.not_mem_nil⟩

theorem append (hx : Fresh lo mid xs) (hy : Fresh mid hi ys) (hlo : lo ≤ mid) (hhi : mid ≤ hi) :
    Fresh lo hi (xs ++ ys) := by
  refine ⟨List.nodup_append.mpr ⟨hx.nodup, hy.nodup, ?_⟩, fun x h => ?_⟩
  · rintro x h _ h' rfl
    obtain ⟨i, -, hi, hnum⟩ := hx.numbered x h
    obtain ⟨j, hj, -, hnum'⟩ := hy.numbered x h'
    have := hnum.number_eq hnum'
    omega
  · rcases List.mem_append.mp h with h | h
    · obtain ⟨i, h1, h2, hnum⟩ := hx.numbered x h
      exact ⟨i, h1, by omega, hnum⟩
    · obtain ⟨i, h1, h2, hnum⟩ := hy.numbered x h
      exact ⟨i, by omega, h2, hnum⟩

theorem perm (h : Fresh lo hi xs) (hp : xs.Perm ys) : Fresh lo hi ys :=
  ⟨hp.nodup_iff.mp h.nodup, fun x hx => h.numbered x (hp.mem_iff.mpr hx)⟩

theorem later (h : Fresh mid hi xs) (hlo : lo ≤ mid) : Fresh lo hi xs := by
  refine ⟨h.nodup, fun x hx => ?_⟩
  obtain ⟨i, hi, hle, hnum⟩ := h.numbered x hx
  exact ⟨i, by omega, hle, hnum⟩

/-- Names with the next number. -/
theorem of_numbered (hnodup : xs.Nodup) (h : ∀ x ∈ xs, Numbered (lo + 1) x) :
    Fresh lo (lo + 1) xs :=
  ⟨hnodup, fun x hx => ⟨lo + 1, Nat.lt_succ_self lo, Nat.le_refl _, h x hx⟩⟩

end Fresh

/-! ### What a code introduces -/

/-- The names that a statement introduces: those that are given their first value. The error of a
call and values that are not needed have no names of their own. Variables of the page are not
counted, which are declared with their type or set from the page context, and neither are the save
slots of variables. -/
def Statement.introduced : Statement → List Bytes
  | define names value =>
    if value.startsWith "rt.Attr[" then [] else names.filter isCounted
  | copy isNew name source =>
    if isNew && !name.startsWith ("_" ++ source ++ "_") then [name] else []
  | zero name => [name]
  | _ => []

/-- How the lines begin that open methods. -/
def methodStart (env : Env) : Bytes := "func (" ++ env.receiver ++ " *" ++ env.typeName ++ ") "

/-- The name of a method in the line that opens it. -/
def methodOf (env : Env) (opening : Bytes) : Bytes :=
  (opening.drop (methodStart env).length).takeWhile (· != 40)

namespace Code

/-- The name of the method that a code holds. -/
def methodNames (env : Env) : Code → List Bytes
  | part _ body _ => body.methodNames env
  | line s _ => [methodOf env s.text]
  | _ => []

/-- The names that a code introduces, methods included. -/
def introduced (env : Env) : Code → List Bytes
  | nil => []
  | line s rest => s.introduced ++ rest.introduced env
  | indent rest | outdent rest | declaration _ _ rest => rest.introduced env
  | part _ body rest | fragment body rest => body.introduced env ++ rest.introduced env
  | method _ body rest =>
    body.methodNames env ++ (body.introduced env ++ rest.introduced env)

theorem introduced_append (env : Env) (c d : Code) :
    (c ++ d).introduced env = c.introduced env ++ d.introduced env := by
  induction c <;> simp [introduced, *]

theorem introduced_fragmentCase (env : Env) (i : Nat) (c : Code) :
    (fragmentCase i c).introduced env = c.introduced env := by
  simp [fragmentCase, introduced, introduced_append, Statement.introduced]

theorem introduced_block (env : Env) (opening closing : Bytes) (c : Code) :
    (block (.control opening) c closing).introduced env = c.introduced env := by
  simp [block, introduced, introduced_append, Statement.introduced]

end Code

theorem methodOf_start (env : Env) (i : Nat) (rest : Bytes) :
    methodOf env (methodStart env ++ (methodName i ++ 40 :: rest)) = methodName i := by
  have htag : ∀ b ∈ ("tag" : Bytes), (b != 40) = true := by decide
  have hnumber : ∀ b ∈ Bytes.ofNat i, (b != 40) = true := by
    intro b hb
    have hdigit := Bytes.isDigit_of_mem_ofNat hb
    rw [bne_iff_ne]
    rintro rfl
    cases hdigit
  rw [methodOf, List.drop_left]
  exact Bytes.takeWhile_append_stop (List.forall_mem_append.mpr ⟨htag, hnumber⟩) fun b hb => by
    obtain rfl := Option.some.inj hb
    rfl

/-- Variables of the page are set from the page context. -/
theorem introduced_variableValue (names : List Bytes) (v : VariableBinding) :
    (Statement.define names (variableValue v)).introduced = [] := by
  have hstart : (variableValue v).startsWith "rt.Attr[" = true := by
    simp only [variableValue, List.append_assoc]
    exact Bytes.startsWith_append _ _
  rw [Statement.introduced, if_pos hstart]

/-- A save slot is no name of its own. -/
theorem introduced_saveSlot (isNew : Bool) (name : Bytes) (level : Nat) :
    (Statement.copy isNew (saveSlot name level) name).introduced = [] := by
  have hstart : (saveSlot name level).startsWith ("_" ++ name ++ "_") = true :=
    Bytes.startsWith_append _ _
  rw [Statement.introduced, hstart, Bool.not_true, Bool.and_false, if_neg Bool.false_ne_true]

/-! ### Lines of invocations -/

/-- Two codes write the same lines, if their first ones are indented that far. -/
def Code.SameLines (i : Nat) (c d : Code) : Prop :=
  ∀ h, (c.layout i h).pieces = (d.layout i h).pieces

/-- Codes that do the same to some writers write the same lines. -/
theorem Code.SameLines.of_replay {c d : Code} {desk : Desk} (hdesk : desk.declarations.indent = 0)
    (h : c.replay desk = d.replay desk) : Code.SameLines desk.out.indent c d := by
  intro sheet
  have hwritten := congrArg (fun e : Desk => (e.writer sheet).written) h
  rw [Code.written_replay c hdesk, Code.written_replay d hdesk] at hwritten
  exact List.reverse_inj.mp (List.append_cancel_right hwritten)

theorem Code.SameLines.of_part {i k : Nat} {c d : Code}
    (h : Code.SameLines i (.part k c .nil) (.part k d .nil)) : Code.SameLines i c d := by
  intro sheet
  have hpart := h sheet
  cases sheet <;> simpa [Code.layout, Layout.pieces] using hpart

theorem Code.SameLines.block {i : Nat} {c d : Code} (h : Code.SameLines (i + 1) c d)
    (hdepth : c.depth (i + 1) = d.depth (i + 1)) (opening : Statement) (closing : Bytes) :
    Code.SameLines i (Code.block opening c closing) (Code.block opening d closing) := by
  intro sheet
  cases sheet <;>
    simp [Code.block, Code.layout, Code.layout_append, Layout.pieces, h _, hdepth]

/-- The code of an invocation of a tag that goes by the identifiers. -/
inductive Invokes (env : Env) (n : Node) (names : HandlerNames) : Code → Prop where
  /-- A closure in place. -/
  | inline {t : CustomTag} {d : TagDescriptor} {run : Code} (blocks : Blocks)
    (ht : n.head.tag = some t) (hd : t.descriptor = some d) (hrun : IsRun env n t d names run)
    (h : isHoistable n.head t = false) : Invokes env n names (inlineCode t blocks run)
  /-- A method. -/
  | method {t : CustomTag} {d : TagDescriptor} {run : Code} (i : Nat)
    (ht : n.head.tag = some t) (hd : t.descriptor = some d) (hrun : IsRun env n t d names run)
    (h : isHoistable n.head t = true) : Invokes env n names (methodCode env (methodName i) run)

/-! ### Runs -/

/-- The variables that an invocation introduces: its handler, and for a classic tag the result of
its start, and what it takes to buffer its body and to evaluate it again. -/
def invocationVariables (d : TagDescriptor) (n : Node) (names : HandlerNames) : List Bytes :=
  let plan := bodyPlan d n
  names.handler :: if d.isClassic then
    (if plan.buffered then [names.push] else []) ++
      names.eval :: (if plan.repeated then [againName names] else [])
  else []

theorem invocationVariables_sublist (d : TagDescriptor) (n : Node) (names : HandlerNames) :
    (invocationVariables d n names).Sublist (namedVariables names) := by
  have hite : ∀ (p : Prop) [Decidable p] (x : Bytes), (if p then [x] else []).Sublist [x] := by
    intro p _ x
    split
    · exact .refl _
    · exact List.nil_sublist _
  refine .cons_cons _ ?_
  split
  · exact (hite _ names.push).append (.cons_cons _ (hite _ _))
  · exact List.nil_sublist _

/-- The identifiers are chosen for a tag of the tree, and the variables that its invocation
introduces are among the names. -/
def Site.Chooses (z : Site) (xs : List Bytes) (p : Nat × HandlerNames) : Prop :=
  ∃ n ∈ z.root.subtree, n.kind = .customTag ∧ n.head.number = p.1 ∧
    ∃ t d id, n.head.tag = some t ∧ t.descriptor = some d ∧ IsNamed t p.2 id ∧
      p.2.pool = poolOf z.env n.head t d ∧ invocationVariables d n p.2 ⊆ xs

theorem Site.Chooses.mono {z : Site} {xs ys : List Bytes} {p : Nat × HandlerNames}
    (h : z.Chooses xs p) (hxs : xs ⊆ ys) : z.Chooses ys p := by
  obtain ⟨n, hn, hk, hnumber, t, d, id, ht, hd, hnamed, hpool, hvariables⟩ := h
  exact ⟨n, hn, hk, hnumber, t, d, id, ht, hd, hnamed, hpool,
    List.Subset.trans hvariables hxs⟩

/-- If a part is that of a tag, it has the lines of an invocation that goes by identifiers noted for
the tag. -/
def Site.GoesBy (z : Site) (noted : List (Nat × HandlerNames)) (k : Nat) (c : Code) : Prop :=
  ∀ n ∈ z.root.subtree, n.kind = .customTag → n.head.number = k →
    ∃ names e i, (k, names) ∈ noted ∧ Invokes z.env n names e ∧ Code.SameLines i c e

/-- What a step makes up. -/
structure Brings where
  /-- Names that it introduces, whose numbers were taken before. -/
  names : List Bytes := []
  /-- How often at most it notes identifiers for a node. -/
  weight : Nat → Nat := fun _ => 0

instance : Append Brings :=
  ⟨fun d e => ⟨d.names ++ e.names, fun k => d.weight k + e.weight k⟩⟩

theorem Brings.append_nil (d : Brings) : d ++ ({} : Brings) = d :=
  congrArg₂ Brings.mk (List.append_nil d.names) rfl

theorem Brings.nil_append (d : Brings) : ({} : Brings) ++ d = d :=
  congrArg₂ Brings.mk rfl (funext fun k => Nat.zero_add (d.weight k))

/-- A run from one state to another one wrote the code and made up what is said. -/
structure Minted (z : Site) (d : Brings) (s t : State) (c : Code) : Prop where
  desk : t.desk = c.replay s.desk
  own : c.All (z.IsOwn 0)
  sequence : s.sequence ≤ t.sequence
  introduced : ∃ xs, (c.introduced z.env).Perm (d.names ++ xs) ∧
    Fresh s.sequence t.sequence xs
  noted : ∃ l, t.names = l ++ s.names ∧ (∀ p ∈ l, z.Chooses (c.introduced z.env) p) ∧
    Fresh s.sequence t.sequence (l.flatMap fun p => namedVariables p.2) ∧
    ∀ k, k ≠ 0 → (l.map (·.1)).count k ≤ d.weight k
  parts : c.Parts (z.GoesBy t.names)

section Runs

variable {z : Site} {d e : Brings} {s t u : State} {b c : Code}
  {noted noted' : List (Nat × HandlerNames)} {k : Nat}

theorem Site.GoesBy.mono (h : z.GoesBy noted k c) (hnoted : noted ⊆ noted') :
    z.GoesBy noted' k c := by
  intro n hn hk hnumber
  obtain ⟨names, e, i, hmem, hinvokes, hlines⟩ := h n hn hk hnumber
  exact ⟨names, e, i, hnoted hmem, hinvokes, hlines⟩

theorem Minted.names_subset (h : Minted z d s t c) : s.names ⊆ t.names := by
  obtain ⟨l, hl, -⟩ := h.noted
  rw [hl]
  exact List.subset_append_right l s.names

theorem Minted.seq (h : Minted z d s t b) (h' : Minted z e t u c) :
    Minted z (d ++ e) s u (b ++ c) where
  desk := by rw [h'.desk, h.desk, Code.replay_append]
  own := (Code.all_append b c).mpr ⟨h.own, h'.own⟩
  sequence := Nat.le_trans h.sequence h'.sequence
  introduced := by
    obtain ⟨xs, hxs, hfresh⟩ := h.introduced
    obtain ⟨ys, hys, hfresh'⟩ := h'.introduced
    refine ⟨xs ++ ys, ?_, hfresh.append hfresh' h.sequence h'.sequence⟩
    rw [Code.introduced_append]
    refine (hxs.append hys).trans ?_
    show (d.names ++ xs ++ (e.names ++ ys)).Perm (d.names ++ e.names ++ (xs ++ ys))
    rw [List.append_assoc, List.append_assoc]
    exact (List.perm_append_comm_assoc xs e.names ys).append_left d.names
  noted := by
    obtain ⟨l, hl, hchooses, hfresh, hcount⟩ := h.noted
    obtain ⟨l', hl', hchooses', hfresh', hcount'⟩ := h'.noted
    refine ⟨l' ++ l, by rw [hl', hl, List.append_assoc], ?_, ?_, fun k hk => ?_⟩
    · rw [Code.introduced_append]
      exact List.forall_mem_append.mpr
        ⟨fun p hp => (hchooses' p hp).mono (List.subset_append_right _ _),
          fun p hp => (hchooses p hp).mono (List.subset_append_left _ _)⟩
    · rw [List.flatMap_append]
      exact (hfresh.append hfresh' h.sequence h'.sequence).perm List.perm_append_comm
    · rw [List.map_append, List.count_append, Nat.add_comm]
      exact Nat.add_le_add (hcount k hk) (hcount' k hk)
  parts := (Code.parts_append b c).mpr
    ⟨h.parts.mono fun _ _ hpart => hpart.mono h'.names_subset, h'.parts⟩

/-- A run that takes no number and notes no identifiers. -/
theorem Minted.of_plain (hdesk : t.desk = c.replay s.desk) (hown : c.All (z.IsOwn 0))
    (hsequence : t.sequence = s.sequence) (hnames : t.names = s.names)
    (hparts : c.Parts (z.GoesBy t.names)) :
    Minted z { names := c.introduced z.env } s t c where
  desk := hdesk
  own := hown
  sequence := Nat.le_of_eq hsequence.symm
  introduced := ⟨[], by rw [List.append_nil], .nil⟩
  noted := ⟨[], hnames, fun _ h => absurd h List.not_mem_nil, .nil, fun _ _ => Nat.le_refl _⟩
  parts := hparts

/-- A run that writes nothing either. -/
theorem Minted.silent (hdesk : t.desk = s.desk) (hsequence : t.sequence = s.sequence)
    (hnames : t.names = s.names) : Minted z {} s t .nil :=
  .of_plain (c := .nil) hdesk trivial hsequence hnames trivial

theorem Minted.mono (h : Minted z d s t c) (hnames : d.names.Perm e.names)
    (hweight : ∀ k, k ≠ 0 → d.weight k ≤ e.weight k) : Minted z e s t c where
  desk := h.desk
  own := h.own
  sequence := h.sequence
  introduced := by
    obtain ⟨xs, hxs, hfresh⟩ := h.introduced
    exact ⟨xs, hxs.trans (hnames.append_right xs), hfresh⟩
  noted := by
    obtain ⟨l, hl, hchooses, hfresh, hcount⟩ := h.noted
    exact ⟨l, hl, hchooses, hfresh, fun k hk => Nat.le_trans (hcount k hk) (hweight k hk)⟩
  parts := h.parts

/-- What is introduced with the next number is new after it is taken. -/
theorem Minted.number {own : List Bytes} (h : Minted z { d with names := own ++ d.names } t u c)
    (hnodup : own.Nodup) (hown : ∀ x ∈ own, Numbered (s.sequence + 1) x)
    (hdesk : t.desk = s.desk) (hnames : t.names = s.names)
    (hsequence : t.sequence = s.sequence + 1) : Minted z d s u c where
  desk := by rw [h.desk, hdesk]
  own := h.own
  sequence := by
    have := h.sequence
    omega
  introduced := by
    obtain ⟨xs, hxs, hfresh⟩ := h.introduced
    have hnext : Fresh s.sequence (s.sequence + 1) own := .of_numbered hnodup hown
    have hle := h.sequence
    rw [hsequence] at hfresh hle
    refine ⟨own ++ xs, ?_, hnext.append hfresh (Nat.le_succ _) hle⟩
    rw [List.append_assoc] at hxs
    exact hxs.trans (List.perm_append_comm_assoc own d.names xs)
  noted := by
    obtain ⟨l, hl, hchooses, hfresh, hcount⟩ := h.noted
    rw [hsequence] at hfresh
    exact ⟨l, hnames ▸ hl, hchooses, hfresh.later (Nat.le_succ _), hcount⟩
  parts := h.parts

end Runs

/-! ### Steps -/

/-- What is known where a step is taken. -/
structure Ground where
  /-- The number of tags around. -/
  level : Nat
  /-- Identifiers that were noted. -/
  known : List (Nat × HandlerNames) := []

/-- A state where this is known. -/
structure Ground.IsAt (g : Ground) (s : State) : Prop where
  level : g.level ≤ s.sequence
  known : g.known ⊆ s.names
  flat : s.declarations.indent = 0

/-- A run that succeeds makes up what is said. -/
def Mints (z : Site) (g : Ground) {α : Type} (x : Gen α) (d : Brings) : Prop :=
  ∀ s a t, g.IsAt s → x s = .ok a t → ∃ c : Code, Minted z d s t c

theorem Ground.IsAt.next {z : Site} {g : Ground} {d : Brings} {s t : State} {c : Code}
    (hs : g.IsAt s) (h : Minted z d s t c) : g.IsAt t where
  level := Nat.le_trans hs.level h.sequence
  known := List.Subset.trans hs.known h.names_subset
  flat := by
    have hindent := Code.declarations_replay c s.desk
    rw [← h.desk] at hindent
    exact hindent.trans hs.flat

section Rules

variable {α β : Type} {z : Site} {g : Ground} {d e : Brings}

theorem Mints.mono {x : Gen α} (hx : Mints z g x d) (hnames : d.names.Perm e.names)
    (hweight : ∀ k, k ≠ 0 → d.weight k ≤ e.weight k) : Mints z g x e := by
  intro s a t hs hrun
  obtain ⟨c, hc⟩ := hx s a t hs hrun
  exact ⟨c, hc.mono hnames hweight⟩

theorem Mints.weaken {x : Gen α} {w w' : Nat → Nat} (hx : Mints z g x { weight := w })
    (hweight : ∀ k, k ≠ 0 → w k ≤ w' k) : Mints z g x { weight := w' } :=
  hx.mono (.refl _) hweight

/-- A step that changes the state in one go, and writes, numbers and notes nothing. -/
theorem Mints.share {f : State → α × State} (hdesk : ∀ s, (f s).2.desk = s.desk)
    (hsequence : ∀ s, (f s).2.sequence = s.sequence) (hnames : ∀ s, (f s).2.names = s.names) :
    Mints z g (modifyGet f : Gen α) {} := by
  intro s a t hs hrun
  rw [run_modifyGet] at hrun
  cases hrun
  exact ⟨.nil, .silent (hdesk s) (hsequence s) (hnames s)⟩

theorem Mints.pure (a : α) : Mints z g (Pure.pure a : Gen α) {} := by
  rintro s b t hs ⟨⟩
  exact ⟨.nil, .silent rfl rfl rfl⟩

theorem Mints.throw (f : Failure) : Mints z g (throw f : Gen α) d := by
  rintro s b t hs ⟨⟩

theorem Mints.throw_bind (f : Failure) (h : α → Gen β) :
    Mints z g (MonadExcept.throw f >>= h) d := by
  rintro s b t hs ⟨⟩

theorem Mints.bind {x : Gen α} {f : α → Gen β} (hx : Mints z g x d) (hf : ∀ a, Mints z g (f a) e) :
    Mints z g (x >>= f) (d ++ e) := by
  intro s b u hs hrun
  obtain ⟨a, t, hxs, hft⟩ := bind_eq_ok hrun
  obtain ⟨c, hc⟩ := hx s a t hs hxs
  obtain ⟨c', hc'⟩ := hf a t b u (hs.next hc) hft
  exact ⟨c ++ c', hc.seq hc'⟩

/-- A step that makes up nothing, before others. -/
theorem Mints.before {x : Gen α} {f : α → Gen β} (hx : Mints z g x {})
    (hf : ∀ a, Mints z g (f a) d) : Mints z g (x >>= f) d :=
  Brings.nil_append d ▸ hx.bind hf

/-- Steps that make up nothing, after another one. -/
theorem Mints.after {x : Gen α} {f : α → Gen β} (hx : Mints z g x d)
    (hf : ∀ a, Mints z g (f a) {}) : Mints z g (x >>= f) d :=
  Brings.append_nil d ▸ hx.bind hf

/-- A step that makes up nothing and whose value satisfies `A`, before others. -/
theorem Mints.before_of {x : Gen α} {f : α → Gen β} (A : α → Prop) (hx : Mints z g x {})
    (hvalue : ∀ s a t, x s = .ok a t → A a) (hf : ∀ a, A a → Mints z g (f a) d) :
    Mints z g (x >>= f) d := by
  intro s b u hs hrun
  obtain ⟨a, t, hxs, hft⟩ := bind_eq_ok hrun
  obtain ⟨c, hc⟩ := hx s a t hs hxs
  obtain ⟨c', hc'⟩ := hf a (hvalue s a t hxs) t b u (hs.next hc) hft
  exact ⟨c ++ c', Brings.nil_append d ▸ hc.seq hc'⟩

/-- Names are introduced before others. -/
theorem Mints.first {x : Gen α} {f : α → Gen β} (xs ys : List Bytes) {w : Nat → Nat}
    (hx : Mints z g x { names := xs }) (hf : ∀ a, Mints z g (f a) { names := ys, weight := w }) :
    Mints z g (x >>= f) { names := xs ++ ys, weight := w } :=
  (hx.bind hf).mono (.refl _) fun k _ => Nat.le_of_eq (Nat.zero_add (w k))

/-- Nodes are visited before other ones. -/
theorem Mints.visits {x : Gen α} {f : α → Gen β} {ys : List Bytes} {u v w : Nat → Nat}
    (hx : Mints z g x { weight := u }) (hf : ∀ a, Mints z g (f a) { names := ys, weight := v })
    (h : ∀ k, k ≠ 0 → u k + v k ≤ w k) : Mints z g (x >>= f) { names := ys, weight := w } :=
  (hx.bind hf).mono (.refl _) h

theorem Mints.get {f : State → Gen β} (hf : ∀ s, Mints z g (f s) d) :
    Mints z g (MonadStateOf.get >>= f) d := fun s a t hs hrun => hf s s a t hs hrun

theorem Mints.ite {p : Prop} [Decidable p] {x y : Gen α} (hx : p → Mints z g x d)
    (hy : ¬p → Mints z g y d) : Mints z g (if p then x else y) d := by
  split
  · next h => exact hx h
  · next h => exact hy h

/-- A step that makes up nothing and is taken or not, before others. -/
theorem Mints.guard {p : Prop} [Decidable p] {x : Gen Unit} {f : Unit → Gen β}
    (hx : Mints z g x {}) (hf : ∀ a, Mints z g (f a) d) :
    Mints z g (if p then x >>= f else f ()) d :=
  .ite (fun _ => hx.before hf) fun _ => hf ()

/-- So may be one that introduces names. -/
theorem Mints.guard_first {p : Prop} [Decidable p] {x : Gen Unit} {f : Unit → Gen β}
    {xs ys : List Bytes} {w : Nat → Nat} (hx : Mints z g x { names := xs })
    (hf : ∀ a, Mints z g (f a) { names := ys, weight := w }) :
    Mints z g (if p then x >>= f else f ())
      { names := (if p then xs else []) ++ ys, weight := w } := by
  split
  · exact .first xs ys hx hf
  · exact hf ()

theorem Mints.forM {l : List α} {f : α → Gen PUnit} {w : α → Nat → Nat}
    (hf : ∀ a ∈ l, Mints z g (f a) { weight := w a }) :
    Mints z g (l.forM f) { weight := fun k => (l.map (w · k)).sum } := by
  induction l with
  | nil => exact Mints.pure _
  | cons a l ih =>
    refine Mints.mono (Mints.bind (hf a List.mem_cons_self) fun _ =>
      ih fun b hb => hf b (List.mem_cons_of_mem _ hb)) (.refl _) fun k _ => Nat.le_refl _

theorem Mints.forM_nil {l : List α} {f : α → Gen PUnit} (hf : ∀ a ∈ l, Mints z g (f a) {}) :
    Mints z g (l.forM f) {} := by
  induction l with
  | nil => exact Mints.pure _
  | cons a l ih =>
    exact (hf a List.mem_cons_self).before fun _ => ih fun b hb => hf b (List.mem_cons_of_mem _ hb)

theorem Mints.mapM_nil {l : List α} {f : α → Gen β} (hf : ∀ a ∈ l, Mints z g (f a) {}) :
    Mints z g (l.mapM f) {} := by
  induction l with
  | nil => exact Mints.pure _
  | cons a l ih =>
    rw [List.mapM_cons]
    exact (hf a List.mem_cons_self).before fun _ =>
      (ih fun b hb => hf b (List.mem_cons_of_mem _ hb)).before fun _ => .pure _

/-- After a number was taken, names may be introduced with it. -/
theorem Mints.number {f : Nat → Gen β} (own : Nat → List Bytes) (hnodup : ∀ i, (own i).Nodup)
    (hown : ∀ i, ∀ x ∈ own i, Numbered i x)
    (hf : ∀ i, Mints z g (f i) { d with names := own i ++ d.names }) :
    Mints z g (nextNumber >>= f) d := by
  intro s b u hs hrun
  let t : State := { s with sequence := s.sequence + 1 }
  obtain ⟨c, hc⟩ := hf (s.sequence + 1) t b u
    ⟨Nat.le_trans hs.level (Nat.le_succ _), hs.known, hs.flat⟩ hrun
  exact ⟨c, hc.number (hnodup _) (hown _) rfl rfl rfl⟩

/-- What follows a new temporary may introduce names with its number. -/
theorem Mints.temporary_of {f : Bytes → Gen β} (own : Nat → List Bytes)
    (hnodup : ∀ i, (own i).Nodup) (hown : ∀ i, ∀ x ∈ own i, Numbered i x)
    (hf : ∀ i, Mints z g (f ("_v" ++ Bytes.ofNat i)) { d with names := own i ++ d.names }) :
    Mints z g (temporary >>= f) d :=
  .number own hnodup hown hf

theorem Mints.temporary {f : Bytes → Gen β}
    (hf : ∀ i, Mints z g (f ("_v" ++ Bytes.ofNat i))
      { d with names := ("_v" ++ Bytes.ofNat i) :: d.names }) :
    Mints z g (temporary >>= f) d :=
  .temporary_of (fun i => ["_v" ++ Bytes.ofNat i]) (fun _ => List.nodup_singleton _)
    (fun _ => List.forall_mem_singleton.mpr .temporary) hf

/-! ### Lines -/

theorem Mints.of_writesOnly {x : Gen Unit} {c : Code} (hx : WritesOnly x c)
    (hown : c.All (z.IsOwn 0)) (hparts : ∀ P : Nat → Code → Prop, c.Parts P) :
    Mints z g x { names := c.introduced z.env } := by
  intro s a t hs hrun
  obtain ⟨⟨o, rfl⟩, hdesk⟩ := hx s a t hrun
  exact ⟨c, .of_plain hdesk hown rfl rfl (hparts _)⟩

/-- A line that is a statement of the generator. -/
theorem mints_line (l : Statement) {x : Bytes} (hl : l.text = x) (h : z.IsOwn 0 l) :
    Mints z g (emit x) { names := l.introduced } := by
  subst hl
  have hwrites : WritesOnly (emit l.text) (.line l .nil) := by
    rintro s a t ⟨⟩
    exact ⟨⟨_, rfl⟩, rfl⟩
  have hline := Mints.of_writesOnly (z := z) (g := g) hwrites ⟨h, trivial⟩ fun _ => trivial
  rwa [Code.introduced, Code.introduced, List.append_nil] at hline

/-- A line that gives new variables a value. -/
theorem mints_define (names : List Bytes) (value : Bytes) {x : Bytes}
    (hx : (Statement.define names value).text = x) (hown : ∀ y ∈ names, Introduced z.Names 0 y)
    (hvalue : value.startsWith "rt.Attr[" = false) :
    Mints z g (emit x) { names := names.filter isCounted } := by
  have hline := mints_line (g := g) (.define names value) hx (Site.own_define hown value)
  rwa [Statement.introduced, if_neg (by rw [hvalue]; exact Bool.false_ne_true)] at hline

/-- A line that gives a variable with a number a value that a call returns with an error. -/
theorem mints_value {i : Nat} {name x : Bytes} (value : Bytes) (hname : Numbered i name)
    (hown : Introduced z.Names 0 name) (hvalue : value.startsWith "rt.Attr[" = false)
    (hx : name ++ (", err := " ++ value) = x) : Mints z g (emit x) { names := [name] } := by
  have htext : (Statement.define [name, "err"] value).text = x := by
    rw [← hx]
    simp [Statement.text, Statement.listed, Statement.defines]
    rfl
  have hcounted : [name, "err"].filter isCounted = [name] :=
    List.filter_cons_of_pos hname.isCounted
  have hdefine := mints_define (g := g) [name, "err"] value htext
    (List.forall_mem_cons.mpr ⟨hown, List.forall_mem_singleton.mpr .error⟩) hvalue
  rwa [hcounted] at hdefine

/-- A line of control. -/
theorem mints_control {x w : Bytes} (hw : w ∈ Statement.controlWords) (h : ∃ y, x = w ++ y) :
    Mints z g (emit x) {} := by
  obtain ⟨y, rfl⟩ := h
  exact mints_line (.control (w ++ y)) rfl (Site.own_control hw y)

/-- A call of a method. -/
theorem mints_call {x : Bytes} (receiver message : Bytes) (hreceiver : 32 ∉ receiver)
    (h : receiver ++ ("." ++ message) = x) : Mints z g (emit x) {} :=
  mints_line (.call receiver message) h (Site.own_call hreceiver message)

theorem mints_indent : Mints z g indent {} :=
  .of_writesOnly writesOnly_indent trivial fun _ => trivial

theorem mints_outdent : Mints z g outdent {} :=
  .of_writesOnly writesOnly_outdent trivial fun _ => trivial

theorem mints_openBlock {x w : Bytes} (hw : w ∈ Statement.controlWords) (h : ∃ y, x = w ++ y) :
    Mints z g (openBlock x) {} := (mints_control hw h).before fun _ => mints_indent

theorem mints_closeBlock {x : Bytes} (h : ∃ y, x = "\x7d" ++ y) : Mints z g (closeBlock x) {} :=
  mints_outdent.before fun _ => mints_control (by decide) h

theorem mints_returning {x w : Bytes} (hw : w ∈ Statement.controlWords) (h : ∃ y, x = w ++ y) :
    Mints z g (returning x) {} :=
  (mints_openBlock hw h).before fun _ =>
    (mints_control (w := "return ") (by decide) ⟨_, rfl⟩).before fun _ => mints_closeBlock ⟨[], rfl⟩

theorem mints_check (x : Bytes) : Mints z g (check x) {} :=
  mints_returning (w := "if ") (by decide) ⟨_, rfl⟩

theorem mints_checkErr : Mints z g checkErr {} :=
  mints_returning (w := "if ") (by decide) ⟨_, rfl⟩

/-! ### What the unit shares -/

theorem mints_declare (x : Bytes) : Mints z g (declare x) {} :=
  .share (fun _ => rfl) (fun _ => rfl) fun _ => rfl

theorem mints_expressionName (x : Bytes) : Mints z g (expressionName x) {} := by
  refine .share (fun s => ?_) (fun s => ?_) fun s => ?_ <;>
    cases s.expressions.findIdx? (· == x) <;> simp [State.desk]

theorem mints_textConstant (x : Bytes) : Mints z g (textConstant x) {} := by
  refine .share (fun s => ?_) (fun s => ?_) fun s => ?_ <;>
    cases s.texts.findIdx? (· == x) <;> simp [State.desk]

theorem mints_qualified (package name : Bytes) : Mints z g (qualified package name) {} :=
  .ite (fun _ => .pure _) fun _ => Mints.before
    (.share (fun _ => rfl) (fun _ => rfl) fun _ => rfl) fun _ => .pure _

/-! ### Blocks and parts -/

theorem Mints.inBlock {x : Gen Unit} (hx : Mints z g x d) : Mints z g (inBlock x) d := by
  intro s a t hs hrun
  obtain ⟨u, hxu, rfl⟩ := inBlock_eq_ok.mp hrun
  obtain ⟨c, hc⟩ := hx (s.withBlocks ([] :: s.place.blocks)) () u ⟨hs.level, hs.known, hs.flat⟩ hxu
  exact ⟨c, hc.desk, hc.own, hc.sequence, hc.introduced, hc.noted, hc.parts⟩

theorem Mints.insideTag {x : Gen Unit} {handler : Bytes} (hx : Mints z g x d) :
    Mints z g (insideTag handler x) d := by
  intro s a t hs hrun
  obtain ⟨u, hxu, rfl⟩ := insideTag_eq_ok.mp hrun
  obtain ⟨c, hc⟩ := hx (s.withHandlers (handler :: s.place.handlers)) () u
    ⟨hs.level, hs.known, hs.flat⟩ hxu
  exact ⟨c, hc.desk, hc.own, hc.sequence, hc.introduced, hc.noted, hc.parts⟩

/-- The lines of a node; if it is a tag, they are those of an invocation. -/
theorem Mints.marking {x : Gen Unit} {k : Nat}
    (hpart : ∀ s a t c, g.IsAt s → Generation.marking k x s = .ok a t →
      t.desk = (Code.part k c .nil).replay s.desk → z.GoesBy g.known k c)
    (hx : Mints z g x d) : Mints z g (marking k x) d := by
  intro s a t hs hrun
  obtain ⟨u, hxu, rfl⟩ := marking_eq_ok.mp hrun
  obtain ⟨c, hc⟩ := hx (s.begun k) () u ⟨hs.level, hs.known, hs.flat⟩ hxu
  have hdesk : { u.desk with spans := u.desk.out.finish k u.desk.spans } =
      (Code.part k c .nil).replay s.desk := by
    rw [hc.desk]
    rfl
  have hknown : g.known ⊆ u.names := List.Subset.trans hs.known hc.names_subset
  have hintroduced : (Code.part k c .nil).introduced z.env = c.introduced z.env := by
    rw [Code.introduced, Code.introduced, List.append_nil]
  exact ⟨.part k c .nil, hdesk, ⟨hc.own, trivial⟩, hc.sequence, hintroduced ▸ hc.introduced,
    hintroduced ▸ hc.noted, (hpart s () _ c hs hrun hdesk).mono hknown, hc.parts, trivial⟩

theorem Mints.marking_plain {x : Gen Unit} {k : Nat} (hk : ¬z.IsTag k) (hx : Mints z g x d) :
    Mints z g (Generation.marking k x) d :=
  hx.marking fun _ _ _ _ _ _ _ n hn hkind hnumber => absurd ⟨n, hn, hkind, hnumber⟩ hk

/-! ### Functions of their own -/

/-- A fragment is written elsewhere. -/
theorem Mints.fragment {inner : Body} {ns : List Node} (hinner : Mints z g (inner ns) d) :
    Mints z g (fragment inner ns) d := by
  intro s i t hs h
  obtain ⟨rfl, v, u, hv, hdeclarations, hvu, ht, hreplay⟩ := run_fragment h
  have hat : g.IsAt v := ⟨hv.sequence ▸ hs.level, hv.names ▸ hs.known, hdeclarations ▸ hs.flat⟩
  obtain ⟨c, hc⟩ := hinner v () u hat hvu
  have hcase : z.IsOwn 0 (.control ("case " ++ Bytes.ofNat s.fragmentCount ++ ":")) :=
    Site.own_control (w := "case ") (by decide) (Bytes.ofNat s.fragmentCount ++ ":")
  have hreturn : z.IsOwn 0 (.control "return nil") := own_return "nil"
  have hintroduced : (Code.fragment (fragmentCase s.fragmentCount c) .nil).introduced z.env =
      c.introduced z.env := by
    rw [Code.introduced, Code.introduced_fragmentCase, Code.introduced, List.append_nil]
  refine ⟨_, hreplay c hc.desk, ⟨?_, trivial⟩, ?_, ?_, ?_, ?_, trivial⟩
  · simp only [fragmentCase, Code.All, Code.all_append, and_true]
    exact ⟨hcase, hc.own, hreturn⟩
  · rw [ht.sequence, ← hv.sequence]
    exact hc.sequence
  · rw [hintroduced, ht.sequence, ← hv.sequence]
    exact hc.introduced
  · rw [hintroduced, ht.names, ht.sequence, ← hv.names, ← hv.sequence]
    exact hc.noted
  · simp only [fragmentCase, Code.Parts, Code.parts_append, and_true]
    exact ht.names ▸ hc.parts

/-- A method is written elsewhere, which introduces its name. -/
theorem Mints.method {x : Gen Unit} {i k : Nat} {opening : Bytes}
    (hopening : opening.startsWith "func " = true) (hname : methodOf z.env opening = methodName i)
    (hpart : ∀ s a t c, g.IsAt s → s.place.out.indent = 1 → x s = .ok a t →
      t.desk = c.replay s.desk →
      z.GoesBy g.known k (Code.block (.control opening) c "\x7d")) (hx : Mints z g x d) :
    Mints z g (asMethod {} (Generation.marking k do
      openBlock opening
      x
      closeBlock "\x7d") >>= takeMethod) { d with names := methodName i :: d.names } := by
  intro s a t hs h
  obtain ⟨v, u, isApart, hv, ⟨hdeclarations, hindent⟩, hvu, ht, hreplay⟩ := run_method h
  have hat : g.IsAt v := ⟨hv.sequence ▸ hs.level, hv.names ▸ hs.known, hdeclarations ▸ hs.flat⟩
  obtain ⟨c, hc⟩ := hx v () u hat hvu
  obtain ⟨rest, rfl⟩ := Bytes.startsWith_iff.mp hopening
  have hopen : z.IsOwn 0 (.control ("func " ++ rest)) := Site.own_control (by decide) rest
  have hclose : z.IsOwn 0 (.control "\x7d") := Site.own_control (w := "\x7d") (by decide) []
  have hintroduced : (Code.method isApart
      (.part k (Code.block (.control ("func " ++ rest)) c "\x7d") .nil) .nil).introduced z.env =
      methodName i :: c.introduced z.env := by
    simp only [Code.introduced, Code.introduced_block, List.append_nil]
    rw [← hname]
    rfl
  refine ⟨_, hreplay c hc.desk, ⟨⟨?_, trivial⟩, trivial⟩, ?_, ?_, ?_, ⟨⟨?_, ?_, trivial⟩, trivial⟩⟩
  · simp only [Code.block, Code.All, Code.all_append, and_true]
    exact ⟨hopen, hc.own, hclose⟩
  · rw [ht.sequence, ← hv.sequence]
    exact hc.sequence
  · obtain ⟨xs, hxs, hfresh⟩ := hc.introduced
    rw [hintroduced, ht.sequence, ← hv.sequence]
    exact ⟨xs, hxs.cons _, hfresh⟩
  · obtain ⟨l, hl, hchooses, hnoted⟩ := hc.noted
    rw [hintroduced, ht.names, ht.sequence, ← hv.names, ← hv.sequence]
    exact ⟨l, hl, fun p hp => (hchooses p hp).mono (List.subset_cons_self _ _), hnoted⟩
  · rw [ht.names]
    exact (hpart v () u c hat hindent hvu hc.desk).mono
      (List.Subset.trans hat.known hc.names_subset)
  · simp only [Code.block, Code.Parts, Code.parts_append, and_true]
    exact ht.names ▸ hc.parts

end Rules

end ServerPages.Generation
