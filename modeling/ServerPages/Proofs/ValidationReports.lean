import ServerPages.Proofs.KeptProblems
import ServerPages.Validation.Validate

/-!
# What the steps of a validation report

A validation only ever adds problems to those it has collected. This module follows the problems of
one issue, code where it is forbidden, through the steps of a validation: `Reports m ds P` says that
`m` adds the diagnostics `ds` of that issue, in some order, and that its value satisfies `P`. The
checks of directives, actions and tags add none.

## Main results

* `Reports.bind`: what two steps report one after the other.
* `quiet_directive`, `quiet_checkAction`, `quiet_finish`: checks that add no such problem.
* `checkTag_scripts`: checking a tag adds none, and leaves its attributes of code as they are.
-/

namespace ServerPages

/-- The problems of code where it is forbidden, in the order in which they were found. -/
def Collector.scripting (c : Collector) : List Diagnostic :=
  c.entries.filter (·.issue == .scriptingNotAllowed)

namespace Validation

variable {σ α β : Type}

/-- From the state `s`, the step adds the diagnostics `ds` to the problems of code where it is
forbidden, in some order and however many problems there are, and its value satisfies `P`. -/
def ReportsAt (s : State σ) (m : Validate σ α) (ds : List Diagnostic) (P : α → Prop) : Prop :=
  s.problems.policy = .noCap →
    (m s).2.problems.policy = .noCap ∧
    ((m s).2.problems.scripting).Perm (s.problems.scripting ++ ds) ∧ P (m s).1

/-- From every state, the step adds the diagnostics `ds`, and its value satisfies `P`. -/
def Reports (m : Validate σ α) (ds : List Diagnostic) (P : α → Prop) : Prop :=
  ∀ s : State σ, ReportsAt s m ds P

theorem Reports.at {m : Validate σ α} {ds : List Diagnostic} {P : α → Prop} (h : Reports m ds P)
    (s : State σ) : ReportsAt s m ds P := h s

theorem Reports.pure {P : α → Prop} {a : α} (h : P a) :
    Reports (Pure.pure a : Validate σ α) [] P :=
  fun s hs => ⟨hs, by rw [List.append_nil]; exact List.Perm.refl _, h⟩

theorem Reports.bind {x : Validate σ α} {f : α → Validate σ β} {ds es : List Diagnostic}
    {P : α → Prop} {Q : β → Prop} (hx : Reports x ds P) (hf : ∀ a, P a → Reports (f a) es Q) :
    Reports (x >>= f) (ds ++ es) Q := by
  intro s hs
  obtain ⟨hpolicy, hds, hP⟩ := hx s hs
  obtain ⟨hpolicy', hes, hQ⟩ := hf _ hP _ hpolicy
  refine ⟨hpolicy', ?_, hQ⟩
  rw [← List.append_assoc]
  exact hes.trans (hds.append_right es)

theorem Reports.mono {x : Validate σ α} {ds : List Diagnostic} {P Q : α → Prop}
    (hx : Reports x ds P) (h : ∀ a, P a → Q a) : Reports x ds Q :=
  fun s hs => ⟨(hx s hs).1, (hx s hs).2.1, h _ (hx s hs).2.2⟩

theorem Reports.perm {x : Validate σ α} {ds es : List Diagnostic} {P : α → Prop}
    (hx : Reports x ds P) (h : ds.Perm es) : Reports x es P :=
  fun s hs => ⟨(hx s hs).1, (hx s hs).2.1.trans (h.append_left _), (hx s hs).2.2⟩

/-- The step adds no problem of code where it is forbidden. -/
def Quiet (m : Validate σ α) : Prop := Reports m [] fun _ => True

theorem Quiet.pure (a : α) : Quiet (Pure.pure a : Validate σ α) := Reports.pure trivial

theorem Quiet.bind {x : Validate σ α} {f : α → Validate σ β} (hx : Quiet x)
    (hf : ∀ a, Quiet (f a)) : Quiet (x >>= f) :=
  Reports.bind hx fun a _ => hf a

/-- A quiet step before others changes nothing of what they report. -/
theorem Quiet.before {x : Validate σ α} {f : α → Validate σ β} {ds : List Diagnostic} {P : β → Prop}
    (hx : Quiet x) (hf : ∀ a, Reports (f a) ds P) : Reports (x >>= f) ds P :=
  Reports.bind hx fun a _ => hf a

theorem Quiet.ite {c : Prop} [Decidable c] {x y : Validate σ α} (hx : Quiet x) (hy : Quiet y) :
    Quiet (if c then x else y) := by
  split
  · exact hx
  · exact hy

/-- A quiet step that is taken only under a condition, before others. -/
theorem Quiet.guard {c : Prop} [Decidable c] {x : Validate σ Unit} {f : Unit → Validate σ β}
    {ds : List Diagnostic} {P : β → Prop} (hx : Quiet x) (hf : ∀ a, Reports (f a) ds P) :
    Reports (if c then x >>= f else f ()) ds P := by
  split
  · exact hx.before hf
  · exact hf ()

theorem Quiet.get {f : State σ → Validate σ β}
    (hf : ∀ s, ReportsAt s (f s) [] fun _ => True) : Quiet (MonadStateOf.get >>= f) :=
  fun s => hf s

/-- A state that has the problems of the state before it is a quiet one to go on from. -/
theorem Quiet.setThen {s t : State σ} {f : PUnit → Validate σ β} (ht : t.problems = s.problems)
    (hf : Quiet (f ())) : ReportsAt s (set t >>= f) [] fun _ => True := by
  intro hs
  have h := hf t (ht ▸ hs)
  rwa [ht] at h

theorem Quiet.modify {f : State σ → State σ} (hf : ∀ s, (f s).problems = s.problems) :
    Quiet (modify f : Validate σ Unit) := by
  intro s hs
  refine ⟨(congrArg Collector.policy (hf s)).trans hs, ?_, trivial⟩
  rw [List.append_nil]
  exact List.Perm.of_eq (congrArg Collector.scripting (hf s))

theorem Quiet.forM {f : α → Validate σ PUnit} (hf : ∀ a, Quiet (f a)) (l : List α) :
    Quiet (l.forM f) := by
  induction l with
  | nil => exact Quiet.pure _
  | cons a l ih => exact (hf a).bind fun _ => ih

theorem Quiet.mapM {f : α → Validate σ β} (hf : ∀ a, Quiet (f a)) (l : List α) :
    Quiet (l.mapM f) := by
  induction l with
  | nil => exact Quiet.pure _
  | cons a l ih =>
    rw [List.mapM_cons]
    exact (hf a).bind fun b => ih.bind fun bs => Quiet.pure _

theorem reports_report (p : Position) (message : Bytes) :
    Reports (report .scriptingNotAllowed p message : Validate σ Unit)
      [⟨.scriptingNotAllowed, p, message⟩] fun _ => True := by
  intro s hs
  show (s.problems.add _).policy = _ ∧ (s.problems.add _).scripting.Perm _ ∧ True
  rw [Collector.add_of_noCap hs]
  exact ⟨hs, List.Perm.of_eq (List.filter_append _ _), trivial⟩

theorem quiet_report {issue : Issue} (h : (issue == .scriptingNotAllowed) = false) (p : Position)
    (message : Bytes) : Quiet (report issue p message : Validate σ Unit) := by
  intro s hs
  show (s.problems.add _).policy = _ ∧ (s.problems.add _).scripting.Perm _ ∧ True
  rw [Collector.add_of_noCap hs]
  refine ⟨hs, List.Perm.of_eq ?_, trivial⟩
  show List.filter _ (_ ++ _) = _
  rw [List.filter_append]
  congr 1
  simp [h]

/-! ### Functions and attributes -/

theorem quiet_setPage (f : PageInfo → PageInfo) : Quiet (setPage f : Validate σ Unit) :=
  Quiet.modify fun _ => rfl

theorem quiet_setTag (f : TagInfo → TagInfo) : Quiet (setTag f : Validate σ Unit) :=
  quiet_setPage _

theorem quiet_addPrefix (prefixName uri : Bytes) :
    Quiet (addPrefix prefixName uri : Validate σ Unit) := quiet_setPage _

theorem quiet_functionCall (env : Env σ) (p : Position) (f : Expression.FunctionRef) :
    Quiet (functionCall env p f) := by
  refine Quiet.get fun s => ?_
  dsimp only
  split
  · exact Quiet.pure _ s
  split
  · exact quiet_report rfl _ _ s
  split
  · exact quiet_report rfl _ _ s
  refine Quiet.setThen rfl ?_
  split
  · exact quiet_report rfl _ _
  split
  · exact quiet_report rfl _ _
  · exact quiet_setPage _

theorem quiet_expression (env : Env σ) (e : Option Expression) (p : Position) :
    Quiet (expression env e p) := by
  unfold expression
  split
  · exact Quiet.pure _
  · exact Quiet.forM (quiet_functionCall env p) _

theorem quiet_checkInline (env : Env σ) (h : Head) (sigs : List Signature) (a : Attribute) :
    Quiet (checkInline env h sigs a) := by
  unfold checkInline
  split
  · refine Quiet.bind (quiet_report ?_ _ _) fun _ => Quiet.pure _
    split <;> rfl
  refine Quiet.ite ((quiet_report rfl _ _).bind fun _ => Quiet.pure _) ?_
  refine Quiet.guard (quiet_report rfl _ _) fun _ => ?_
  exact Quiet.guard (quiet_expression _ _ _) fun _ => Quiet.pure _

theorem quiet_checkNamed (h : Head) (sigs : List Signature) (seen : List Bytes)
    (cs : List Node) : Quiet (checkNamed h sigs seen cs : Validate σ Bool) := by
  induction cs generalizing seen with
  | nil => exact Quiet.pure _
  | cons c cs ih =>
    have hdone := fun seen => (ih seen).bind fun _ => Quiet.pure (σ := σ) false
    refine Quiet.ite (ih _) (Quiet.ite ((quiet_report rfl _ _).bind fun _ => hdone _) ?_)
    refine Quiet.ite ((quiet_report rfl _ _).bind fun _ => hdone _) ?_
    exact Quiet.ite ((quiet_report rfl _ _).bind fun _ => hdone _) (ih _)

theorem quiet_checkSignature (env : Env σ) (h : Head) (cs : List Node) :
    Quiet (checkSignature env h cs) := by
  refine Quiet.bind (Quiet.mapM (quiet_checkInline _ _ _) _) fun inline => ?_
  refine (quiet_checkNamed _ _ _ _).bind fun named => ?_
  exact (Quiet.forM (fun _ => quiet_report rfl _ _) _).bind fun _ => Quiet.pure _

/-! ### Directives -/

theorem quiet_remember (h : Head) (a : Attribute) : Quiet (remember h a : Validate σ Bool) := by
  refine Quiet.get fun s => ?_
  split
  · exact Quiet.setThen rfl (Quiet.pure _)
  · exact Quiet.ite (Quiet.pure _) ((quiet_report rfl _ _).bind fun _ => Quiet.pure _) s

theorem quiet_declare (name : Bytes) (p : Position) :
    Quiet (declare name p : Validate σ Bool) := by
  refine Quiet.get fun s => ?_
  split
  · exact ((quiet_report rfl _ _).bind fun _ => Quiet.pure _) s
  · exact Quiet.setThen rfl (Quiet.pure _)

theorem quiet_setBuffer (a : Attribute) : Quiet (setBuffer a : Validate σ Unit) := by
  refine Quiet.ite (quiet_setPage _) ?_
  split
  · exact quiet_report rfl _ _
  split
  · exact quiet_report rfl _ _
  · exact quiet_setPage _

theorem quiet_applyAttribute (a : Attribute) : Quiet (applyAttribute a : Validate σ Unit) := by
  refine Quiet.ite (quiet_setPage _) <| Quiet.ite (quiet_setPage _) <|
    Quiet.ite (quiet_setPage _) <| Quiet.ite (quiet_setPage _) <| Quiet.ite (quiet_setBuffer _) <|
    Quiet.ite (quiet_setPage _) <| Quiet.ite (quiet_setPage _) <| Quiet.ite (quiet_setPage _) <|
    Quiet.ite (quiet_setPage _) <| Quiet.ite (quiet_setPage _) <| Quiet.ite (quiet_setTag _) <|
    Quiet.ite (quiet_setTag _) <| Quiet.ite ?_ <| Quiet.ite (quiet_setTag _) (Quiet.pure _)
  exact (quiet_setTag _).bind fun _ => (quiet_declare _ _).bind fun _ => Quiet.pure _

theorem quiet_pageDirective (h : Head) : Quiet (pageDirective h : Validate σ Unit) := by
  refine Quiet.forM (fun a => Quiet.ite (quiet_setPage _) ?_) _
  exact (quiet_remember _ _).bind fun _ => Quiet.ite (quiet_applyAttribute _) (Quiet.pure _)

theorem quiet_attributeDirective (h : Head) :
    Quiet (attributeDirective h : Validate σ Unit) := by
  refine (quiet_declare _ _).bind fun free => Quiet.ite ?_ (Quiet.pure _)
  refine Quiet.guard (Quiet.forM (fun other => ?_) _) fun _ => quiet_setTag _
  exact Quiet.ite (quiet_report rfl _ _) (Quiet.pure _)

theorem quiet_variableDirective (h : Head) : Quiet (variableDirective h : Validate σ Unit) := by
  refine Quiet.ite (quiet_report rfl _ _) <| Quiet.ite (quiet_report rfl _ _) <|
    Quiet.ite (quiet_report rfl _ _) ?_
  exact (quiet_declare _ _).bind fun _ => Quiet.ite (quiet_setTag _) (Quiet.pure _)

theorem quiet_directive (env : Env σ) (h : Head) (cs : List Node) :
    Quiet (directive env h cs) := by
  refine (quiet_checkSignature _ _ _).bind fun fine => Quiet.ite ?_ (Quiet.pure _)
  refine Quiet.get fun s => Reports.at ?_ s
  dsimp only
  split
  · exact Quiet.ite (quiet_report rfl _ _) (quiet_pageDirective _)
  · exact quiet_addPrefix _ _
  iterate 3
    · refine Quiet.ite (quiet_report rfl _ _) ?_
      split
      · exact quiet_pageDirective _
      · exact quiet_attributeDirective _
      · exact quiet_variableDirective _
  · exact Quiet.pure _

/-! ### When all directives are known -/

theorem quiet_finishInvocation (tag : TagInfo) (h : Head) :
    Quiet (finishInvocation tag h : Validate σ Unit) := by
  refine Quiet.ite (Quiet.ite (quiet_report rfl _ _) (Quiet.pure _)) ?_
  exact Quiet.ite (Quiet.pure _) (quiet_report rfl _ _)

theorem quiet_finishVariable (tag : TagInfo) (root : Head) (v : TagFileVariable) :
    Quiet (finishVariable tag root v : Validate σ Unit) := by
  refine Quiet.ite (Quiet.pure _) ?_
  split
  · exact quiet_report rfl _ _
  · exact Quiet.ite (quiet_report rfl _ _) (Quiet.pure _)

theorem quiet_finish (root : Head) : Quiet (finish root : Validate σ Unit) := by
  refine Quiet.get fun s => Reports.at ?_ s
  refine Quiet.guard (quiet_report rfl _ _) fun _ => ?_
  dsimp only
  split
  · exact Quiet.pure _
  · exact (Quiet.forM (quiet_finishInvocation _) _).bind fun _ =>
      Quiet.forM (quiet_finishVariable _ _) _

/-! ### Actions -/

theorem quiet_checkBean (h : Head) : Quiet (checkBean h : Validate σ Unit) :=
  Quiet.ite (quiet_report rfl _ _) <| Quiet.ite (quiet_report rfl _ _) <|
    Quiet.ite (quiet_report rfl _ _) (Quiet.pure _)

theorem quiet_checkInvocation (h : Head) : Quiet (checkInvocation h : Validate σ Unit) := by
  refine Quiet.get fun s => Reports.at ?_ s
  refine Quiet.ite (quiet_report rfl _ _) ?_
  refine Quiet.guard (quiet_report rfl _ _) fun _ => ?_
  refine Quiet.guard (quiet_report rfl _ _) fun _ => ?_
  exact Quiet.modify fun _ => rfl

theorem quiet_checkAction (env : Env σ) (parent : Kind) (h : Head) (cs : List Node) :
    Quiet (checkAction env parent h cs) := by
  refine (quiet_checkSignature _ _ _).bind fun _ => ?_
  split
  case h_4 => exact quiet_checkBean _
  case h_6 => exact quiet_checkInvocation _
  case h_7 => exact quiet_checkInvocation _
  case h_8 => exact Quiet.pure _
  all_goals exact Quiet.ite (quiet_report rfl _ _) (Quiet.pure _)

/-! ### Tags -/

/-- The problem of an attribute that is given as code. -/
def scriptAttributeProblem (a : Attribute) : Diagnostic :=
  ⟨.scriptingNotAllowed, a.position,
    "expression value of attribute " ++ a.name ++ " is not allowed in a scriptless body"⟩

/-- The problems that the attributes given as code would be. -/
def scriptAttributeProblems (as : List Attribute) : List Diagnostic :=
  (as.filter (·.kind == .script)).map scriptAttributeProblem

/-- An attribute that is the same but for how it is bound. -/
structure IsBoundTo (a b : Attribute) : Prop where
  name : b.name = a.name
  kind : b.kind = a.kind
  position : b.position = a.position
  child : b.child = a.child

theorem checkAttribute_isBoundTo (env : Env σ) (d : TagDescriptor) (h : Head) (cs : List Node)
    (data : TagData) (a : Attribute) :
    Reports (checkAttribute env d h cs data a) [] fun c => IsBoundTo a c.bound := by
  have hrefused : ∀ issue p message, (issue == Issue.scriptingNotAllowed) = false →
      Reports (do report issue p message; return ⟨false, a, data⟩ : Validate σ CheckedAttribute) []
        fun c => IsBoundTo a c.bound := fun issue p message hi =>
    (quiet_report hi p message).before fun _ => Reports.pure ⟨rfl, rfl, rfl, rfl⟩
  unfold checkAttribute
  dsimp only
  split
  · exact hrefused _ _ _ rfl
  split
  · exact hrefused _ _ _ rfl
  split
  · exact hrefused _ _ _ rfl
  split
  · exact (quiet_expression _ _ _).before fun _ => Reports.pure ⟨rfl, rfl, rfl, rfl⟩
  · exact Reports.pure ⟨rfl, rfl, rfl, rfl⟩

theorem IsBoundTo.problems_cons {a b : Attribute} (h : IsBoundTo a b) {as bs : List Attribute}
    (hs : scriptAttributeProblems bs = scriptAttributeProblems as) :
    scriptAttributeProblems (b :: bs) = scriptAttributeProblems (a :: as) := by
  have hp : scriptAttributeProblem b = scriptAttributeProblem a := by
    rw [scriptAttributeProblem, scriptAttributeProblem, h.name, h.position]
  unfold scriptAttributeProblems at hs ⊢
  rw [List.filter_cons, List.filter_cons, h.kind]
  split
  · rw [List.map_cons, List.map_cons, hs, hp]
  · exact hs

theorem checkInlineAttributes_scripts (env : Env σ) (d : TagDescriptor) (h : Head)
    (cs : List Node) (data : TagData) (as : List Attribute)
    (has : ∀ a ∈ as, a.kind ≠ .named) :
    Reports (checkInlineAttributes env d h cs data as) [] fun r =>
      scriptAttributeProblems r.1 = scriptAttributeProblems as ∧ ∀ a ∈ r.1, a.kind ≠ .named := by
  induction as generalizing data with
  | nil => exact Reports.pure ⟨rfl, fun a ha => absurd ha List.not_mem_nil⟩
  | cons a as ih =>
    have ha := has a List.mem_cons_self
    unfold checkInlineAttributes
    rw [if_neg (by simpa using ha)]
    refine (checkAttribute_isBoundTo env d h cs data a).bind fun c hc => ?_
    refine (ih c.data fun b hb => has b (List.mem_cons_of_mem a hb)).bind fun r hr => ?_
    refine Reports.pure ⟨hc.problems_cons hr.1, ?_⟩
    intro b hb
    rcases List.mem_cons.mp hb with rfl | hb
    · exact hc.kind ▸ ha
    · exact hr.2 b hb

/-- The attributes given as content are given by children before the one with the number `i`. -/
def NamedBefore (i : Nat) (as : List Attribute) : Prop :=
  ∀ a ∈ as, a.kind = .named → ∃ j, j < i ∧ a.child = some j

theorem NamedBefore.succ {i : Nat} {as : List Attribute} (h : NamedBefore i as) :
    NamedBefore (i + 1) as := by
  intro a ha hk
  obtain ⟨j, hj, hc⟩ := h a ha hk
  exact ⟨j, Nat.lt_succ_of_lt hj, hc⟩

/-- No attribute that is there already is given by the child with the number `i`. -/
theorem NamedBefore.not_same {i : Nat} {h : Head} (hi : NamedBefore i h.attributes) {name : Bytes}
    {a : Attribute} (ha : h.attr? name = some a) :
    ¬(a.kind == .named && a.child == some i) = true := by
  intro hsame
  obtain ⟨hk, hc⟩ := Bool.and_eq_true_iff.mp hsame
  obtain ⟨j, hj, hc'⟩ := hi a (List.mem_of_find?_eq_some ha) (eq_of_beq hk)
  rw [eq_of_beq hc] at hc'
  exact absurd (Option.some.inj hc') (Nat.ne_of_gt hj)

theorem checkNamedAttribute_scripts (env : Env σ) (d : TagDescriptor) (h : Head) (cs : List Node)
    (data : TagData) (i : Nat) (n : Head) (hi : NamedBefore i h.attributes) :
    Reports (checkNamedAttribute env d h cs data i n) [] fun r =>
      r.1.kind = h.kind ∧
      scriptAttributeProblems r.1.attributes = scriptAttributeProblems h.attributes ∧
      NamedBefore (i + 1) r.1.attributes := by
  unfold checkNamedAttribute
  dsimp only
  split
  · next a ha =>
      rw [if_neg (hi.not_same ha)]
      exact (quiet_report rfl _ _).before fun _ => Reports.pure ⟨rfl, rfl, hi.succ⟩
  · refine (checkAttribute_isBoundTo _ _ _ _ _ _).bind fun c hc => Reports.pure ?_
    dsimp only
    split
    · refine ⟨rfl, ?_, ?_⟩
      · unfold scriptAttributeProblems
        rw [List.filter_append, List.filter_cons_of_neg (by rw [hc.kind]; exact Bool.false_ne_true)]
        simp
      · intro b hb hk
        rcases List.mem_append.mp hb with hb | hb
        · exact hi.succ b hb hk
        · obtain rfl := List.mem_singleton.mp hb
          exact ⟨i, Nat.lt_succ_self i, hc.child⟩
    · exact ⟨rfl, rfl, hi.succ⟩

theorem checkNamedAttributes_scripts (env : Env σ) (d : TagDescriptor) (cs : List Node) (h : Head)
    (data : TagData) (i : Nat) (ns : List Node) (hi : NamedBefore i h.attributes) :
    Reports (checkNamedAttributes env d cs h data i ns) [] fun r =>
      r.1.kind = h.kind ∧
      scriptAttributeProblems r.1.attributes = scriptAttributeProblems h.attributes := by
  induction ns generalizing h data i with
  | nil => exact Reports.pure ⟨rfl, rfl⟩
  | cons n ns ih =>
    unfold checkNamedAttributes
    split
    · refine (checkNamedAttribute_scripts env d h cs data i n.head hi).bind fun r hr => ?_
      refine (ih r.1 r.2 (i + 1) hr.2.2).mono fun r' hr' => ?_
      exact ⟨hr'.1.trans hr.1, hr'.2.trans hr.2.1⟩
    · exact ih h data (i + 1) hi.succ

theorem quiet_checkVariables (d : TagDescriptor) (h : Head) (data : TagData) :
    Quiet (checkVariables d h data : Validate σ (List VariableBinding)) := by
  unfold checkVariables
  split
  · exact Quiet.pure _
  · exact (quiet_report rfl _ _).bind fun _ => Quiet.pure _
  · exact (quiet_report rfl _ _).bind fun _ => Quiet.pure _

/-- Checking a tag, its body apart, reports no code, and leaves its attributes of code alone. -/
theorem checkTag_scripts (env : Env σ) (t : CustomTag) (d : TagDescriptor) (nesting : Nat)
    (h : Head) (cs : List Node) (hh : ∀ a ∈ h.attributes, a.kind ≠ .named) :
    Reports (checkTag env t d nesting h cs) [] fun h' =>
      h'.kind = h.kind ∧
      scriptAttributeProblems h'.attributes = scriptAttributeProblems h.attributes := by
  refine (checkInlineAttributes_scripts env d h cs {} h.attributes hh).bind fun r hr => ?_
  refine (checkNamedAttributes_scripts env d cs { h with attributes := r.1 } r.2 0 cs
    fun a ha hk => absurd hk (hr.2 a ha)).bind fun r' hr' => ?_
  refine Quiet.before (Quiet.forM (fun _ => quiet_report rfl _ _) _) fun _ => ?_
  refine Quiet.guard (quiet_report rfl _ _) fun _ => ?_
  have hend := (quiet_checkVariables (σ := σ) d r'.1 r'.2).before fun vars =>
    (quiet_addPrefix t.prefixName t.uri).before fun _ =>
      Reports.pure (a := { r'.1 with
        tag := some { t with nesting := nesting, data := r'.2, vars := vars } })
        (P := fun h' : Head => h'.kind = h.kind ∧
          scriptAttributeProblems h'.attributes = scriptAttributeProblems h.attributes)
        ⟨hr'.1, hr'.2.trans hr.1⟩
  dsimp only
  split
  · exact (quiet_report rfl _ _).before fun _ => hend
  · exact hend

end Validation

end ServerPages
