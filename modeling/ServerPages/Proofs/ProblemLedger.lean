import ServerPages.Proofs.UnreportedSteps

/-!
# What is found and what is kept of it

What a validation finds is one thing and what its collector keeps of that is another. No step looks
at the problems collected before it: from states that differ only in them it gives the same value,
leaves states that differ only in them, and adds the same list of problems (`Oblivious`). So the
problems of a unit are those that a validation without a cap tells (`Node.violations`), and a
validation with any other options collects these, as far as its policy keeps them.

Nor does a step look at what the surroundings remember, but for the libraries that they give. So
validations in surroundings that give the same libraries have the same outcome.

A cap of zero keeps none of them under the policies that have a cap. As a validation succeeds if its
collector is empty, a unit then passes whatever rules it violates.

## Main results

* `oblivious_visit`: the visit of a node does not depend on what was collected.
* `Node.validate_eq`: the outcome of a validation, from that of the one without a cap.
* `Node.validate_passes_iff`: which units pass.
* `Node.validate_related`: validations where libraries are the same.
-/

namespace ServerPages

/-- A question has the same answer where what is remembered is related, which it is afterwards. -/
def Respects {σ α β : Type} (R : σ → σ → Prop) (question : α → σ → β × σ) : Prop :=
  ∀ a m m', R m m' →
    (question a m').1 = (question a m).1 ∧ R (question a m).2 (question a m').2

namespace Validation

variable {σ α β : Type}

/-- The state with other problems, whose surroundings remember something else. -/
def State.collecting (s : State σ) (c : Collector) (m : σ) : State σ :=
  { s with problems := c, memory := m }

/-- Libraries are the same where what is remembered is related. -/
def Env.Respects (env : Env σ) (R : σ → σ → Prop) : Prop :=
  ∀ q, env.library = some q → ServerPages.Respects R q

theorem Env.respects_eq (env : Env σ) : env.Respects Eq := by
  rintro q - uri m _ rfl
  exact ⟨rfl, rfl⟩

/-- From the state `s` the step `x` adds some problems. Whatever was collected instead of those of
`s`, and whatever is remembered that is related to its memory, a step does what `x` does and adds
the same problems; where `c` was collected and `m` is remembered, it is `y c m`. -/
def ObliviousAt (R : σ → σ → Prop) (s : State σ) (x : Validate σ α)
    (y : Collector → σ → Validate σ α) : Prop :=
  ∃ ds : List Diagnostic, (x s).2.problems = ds.foldl Collector.add s.problems ∧
    ∀ c m, R s.memory m → ∃ m', R (x s).2.memory m' ∧
      y c m (s.collecting c m) = ((x s).1, (x s).2.collecting (ds.foldl Collector.add c) m')

/-- What a step gives, what it leaves and the problems it adds do not depend on those collected, nor
on what is remembered as far as it is related. -/
def Oblivious (R : σ → σ → Prop) (x : Validate σ α) : Prop := ∀ s, ObliviousAt R s x fun _ _ => x

variable {R : σ → σ → Prop}

theorem Oblivious.apply {x : Validate σ α} (hx : Oblivious R x) (s : State σ) :
    ∃ ds : List Diagnostic, (x s).2.problems = ds.foldl Collector.add s.problems ∧
      ∀ c m, R s.memory m → ∃ m', R (x s).2.memory m' ∧
        x (s.collecting c m) = ((x s).1, (x s).2.collecting (ds.foldl Collector.add c) m') := hx s

theorem Oblivious.pure (a : α) : Oblivious R (Pure.pure a : Validate σ α) :=
  fun _ => ⟨[], rfl, fun _ m hm => ⟨m, hm, rfl⟩⟩

theorem Oblivious.bind {x : Validate σ α} {f : α → Validate σ β} (hx : Oblivious R x)
    (hf : ∀ a, Oblivious R (f a)) : Oblivious R (x >>= f) := by
  intro s
  obtain ⟨ds, hadds, hds⟩ := hx.apply s
  obtain ⟨es, hadds', hes⟩ := (hf (x s).1).apply (x s).2
  refine ⟨ds ++ es, ?_, fun c m hm => ?_⟩
  · rw [List.foldl_append, ← hadds]
    exact hadds'
  obtain ⟨m₁, hm₁, hx₁⟩ := hds c m hm
  obtain ⟨m₂, hm₂, hf₂⟩ := hes (ds.foldl Collector.add c) m₁ hm₁
  refine ⟨m₂, hm₂, ?_⟩
  calc (x >>= f) (s.collecting c m)
    _ = f (x (s.collecting c m)).1 (x (s.collecting c m)).2 := rfl
    _ = f (x s).1 ((x s).2.collecting (ds.foldl Collector.add c) m₁) :=
        congrArg (fun r => f r.1 r.2) hx₁
    _ = (((x >>= f) s).1, ((x >>= f) s).2.collecting (es.foldl Collector.add _) m₂) := hf₂
    _ = _ := by rw [← List.foldl_append]

theorem Oblivious.ite {c : Prop} [Decidable c] {x y : Validate σ α} (hx : Oblivious R x)
    (hy : Oblivious R y) : Oblivious R (if c then x else y) := by
  split
  · exact hx
  · exact hy

theorem ObliviousAt.ite {s : State σ} {c : Prop} [Decidable c] {x y : Validate σ α}
    {x' y' : Collector → σ → Validate σ α} (hx : ObliviousAt R s x x')
    (hy : ObliviousAt R s y y') :
    ObliviousAt R s (if c then x else y) fun k m => if c then x' k m else y' k m := by
  by_cases h : c
  · simpa only [if_pos h] using hx
  · simpa only [if_neg h] using hy

/-- A step that is taken only under a condition, before others. -/
theorem Oblivious.guard {c : Prop} [Decidable c] {x : Validate σ Unit} {f : Unit → Validate σ β}
    (hx : Oblivious R x) (hf : ∀ a, Oblivious R (f a)) :
    Oblivious R (if c then x >>= f else f ()) :=
  Oblivious.ite (hx.bind hf) (hf ())

theorem Oblivious.get {f : State σ → Validate σ β}
    (hf : ∀ s, ObliviousAt R s (f s) fun c m => f (s.collecting c m)) :
    Oblivious R (MonadStateOf.get >>= f) := hf

theorem Oblivious.setThen {s : State σ} (t : State σ) {f : PUnit → Validate σ β}
    (hf : Oblivious R (f ())) (hproblems : t.problems = s.problems)
    (hmemory : t.memory = s.memory) :
    ObliviousAt R s (MonadStateOf.set t >>= f)
      fun c m => MonadStateOf.set (t.collecting c m) >>= f := by
  rw [ObliviousAt, ← hproblems, ← hmemory]
  exact hf t

/-- Asking for a library, before the step that its answer leads to. -/
theorem Env.Respects.ask {env : Env σ} (hR : env.Respects R)
    {q : Bytes → σ → Except Fault TagLibrary × σ} (hq : env.library = some q) {uri : Bytes}
    {s : State σ} {answer : Except Fault TagLibrary} {memory : σ}
    (hanswer : q uri s.memory = (answer, memory)) {x : Validate σ β} (hx : Oblivious R x)
    {y : Collector → σ → Validate σ β}
    (hy : ∀ c m m', q uri m = (answer, m') →
      y c m (s.collecting c m) = x { s.collecting c m with memory := m' }) :
    ObliviousAt R s (MonadStateOf.set { s with memory := memory } >>= fun _ => x) y := by
  obtain ⟨ds, hadds, hds⟩ := hx.apply { s with memory := memory }
  refine ⟨ds, hadds, fun c m hm => ?_⟩
  obtain ⟨hsame, hrelated⟩ := hR q hq uri s.memory m hm
  rw [hanswer] at hsame hrelated
  obtain ⟨m', hm', hrun⟩ := hds c (q uri m).2 hrelated
  have hagain : q uri m = (answer, (q uri m).2) := Prod.ext hsame rfl
  exact ⟨m', hm', (hy c m _ hagain).trans hrun⟩

theorem Oblivious.modify {f : State σ → State σ}
    (hf : ∀ s c m, f (s.collecting c m) = (f s).collecting c m) :
    Oblivious R (modify f : Validate σ Unit) := by
  intro s
  have hsame : f s = (f s).collecting s.problems s.memory := hf s s.problems s.memory
  have hproblems : (f s).problems = s.problems := by rw [hsame, State.collecting]
  have hmemory : (f s).memory = s.memory := by rw [hsame, State.collecting]
  exact ⟨[], hproblems, fun c m hm => ⟨m, hmemory ▸ hm, Prod.ext rfl (hf s c m)⟩⟩

theorem Oblivious.forM {f : α → Validate σ PUnit} (hf : ∀ a, Oblivious R (f a)) (l : List α) :
    Oblivious R (l.forM f) := by
  induction l with
  | nil => exact Oblivious.pure _
  | cons a l ih => exact (hf a).bind fun _ => ih

theorem Oblivious.mapM {f : α → Validate σ β} (hf : ∀ a, Oblivious R (f a)) (l : List α) :
    Oblivious R (l.mapM f) := by
  induction l with
  | nil => exact Oblivious.pure _
  | cons a l ih =>
    rw [List.mapM_cons]
    exact (hf a).bind fun _ => ih.bind fun _ => Oblivious.pure _

/-! ### Functions and attributes -/

variable {env : Env σ}

theorem oblivious_report (issue : Issue) (p : Position) (message : Bytes) :
    Oblivious R (report issue p message : Validate σ Unit) :=
  fun _ => ⟨[⟨issue, p, message⟩], rfl, fun _ m hm => ⟨m, hm, rfl⟩⟩

theorem oblivious_setPage (f : PageInfo → PageInfo) : Oblivious R (setPage f : Validate σ Unit) :=
  Oblivious.modify fun _ _ _ => rfl

theorem oblivious_addPrefix (prefixName uri : Bytes) :
    Oblivious R (addPrefix prefixName uri : Validate σ Unit) := oblivious_setPage _

theorem oblivious_functionCall (hR : env.Respects R) (p : Position) (f : Expression.FunctionRef) :
    Oblivious R (functionCall env p f) := by
  refine Oblivious.get fun s => ObliviousAt.ite (Oblivious.pure _ s) ?_
  refine ObliviousAt.ite (oblivious_report _ _ _ s) ?_
  cases hq : env.library with
  | none => exact oblivious_report _ _ _ s
  | some q =>
    rcases hanswer : q f.uri s.memory with ⟨e | l, memory⟩
    · simp only [hanswer]
      refine hR.ask hq hanswer (oblivious_report _ _ _) fun c m m' hm => ?_
      simp only [State.collecting, hm]
      rfl
    cases hf : l.function? f.name with
    | none =>
      simp only [hanswer, hf]
      refine hR.ask hq hanswer (oblivious_report _ _ _) fun c m m' hm => ?_
      simp only [State.collecting, hm, hf]
      rfl
    | some fn =>
      simp only [hanswer, hf]
      refine hR.ask hq hanswer (oblivious_setPage _) fun c m m' hm => ?_
      simp only [State.collecting, hm, hf]
      rfl

theorem oblivious_expression (hR : env.Respects R) (e : Option Expression) (p : Position) :
    Oblivious R (expression env e p) := by
  cases e with
  | none => exact Oblivious.pure _
  | some e => exact Oblivious.forM (oblivious_functionCall hR p) _

theorem oblivious_checkInline (hR : env.Respects R) (h : Head) (sigs : List Signature)
    (a : Attribute) : Oblivious R (checkInline env h sigs a) := by
  unfold checkInline
  split
  · exact (oblivious_report _ _ _).bind fun _ => Oblivious.pure _
  refine Oblivious.ite ((oblivious_report _ _ _).bind fun _ => Oblivious.pure _) ?_
  refine Oblivious.guard (oblivious_report _ _ _) fun _ => ?_
  exact Oblivious.guard (oblivious_expression hR _ _) fun _ => Oblivious.pure _

theorem oblivious_checkNamed (h : Head) (sigs : List Signature) (seen : List Bytes)
    (cs : List Node) : Oblivious R (checkNamed h sigs seen cs : Validate σ Bool) := by
  induction cs generalizing seen with
  | nil => exact Oblivious.pure _
  | cons c cs ih =>
    have hrefused : ∀ issue message seen, Oblivious R (do
        report issue c.start message
        let _ ← checkNamed h sigs seen cs
        return false : Validate σ Bool) := fun issue message seen =>
      (oblivious_report _ _ _).bind fun _ => (ih seen).bind fun _ => Oblivious.pure _
    exact Oblivious.ite (ih _) (Oblivious.ite (hrefused _ _ _) (Oblivious.ite (hrefused _ _ _)
      (Oblivious.ite (hrefused _ _ _) (ih _))))

theorem oblivious_checkSignature (hR : env.Respects R) (h : Head) (cs : List Node) :
    Oblivious R (checkSignature env h cs) := by
  refine (Oblivious.mapM (oblivious_checkInline hR _ _) _).bind fun inline => ?_
  refine (oblivious_checkNamed _ _ _ _).bind fun named => ?_
  exact (Oblivious.forM (fun _ => oblivious_report _ _ _) _).bind fun _ => Oblivious.pure _

/-! ### Directives -/

theorem oblivious_remember (h : Head) (a : Attribute) :
    Oblivious R (remember h a : Validate σ Bool) := by
  refine Oblivious.get fun s => ?_
  simp only [State.collecting]
  cases s.firstValues.lookup (h.kind, a.name) with
  | none => exact Oblivious.setThen _ (Oblivious.pure true) rfl rfl
  | some first =>
    exact Oblivious.ite (Oblivious.pure true)
      ((oblivious_report _ _ _).bind fun _ => Oblivious.pure false) s

theorem oblivious_declare (name : Bytes) (p : Position) :
    Oblivious R (declare name p : Validate σ Bool) := by
  refine Oblivious.get fun s => ?_
  simp only [State.collecting]
  cases s.declared.lookup name with
  | none => exact Oblivious.setThen _ (Oblivious.pure true) rfl rfl
  | some first => exact ((oblivious_report _ _ _).bind fun _ => Oblivious.pure false) s

theorem oblivious_setBuffer (a : Attribute) : Oblivious R (setBuffer a : Validate σ Unit) := by
  refine Oblivious.ite (oblivious_setPage _) ?_
  split
  · exact oblivious_report _ _ _
  split
  · exact oblivious_report _ _ _
  · exact oblivious_setPage _

theorem oblivious_applyAttribute (a : Attribute) :
    Oblivious R (applyAttribute a : Validate σ Unit) := by
  iterate 4 refine Oblivious.ite (oblivious_setPage _) ?_
  refine Oblivious.ite (oblivious_setBuffer a) ?_
  iterate 7 refine Oblivious.ite (oblivious_setPage _) ?_
  refine Oblivious.ite ?_ (Oblivious.ite (oblivious_setPage _) (Oblivious.pure _))
  exact (oblivious_setPage _).bind fun _ => (oblivious_declare _ _).bind fun _ => Oblivious.pure _

theorem oblivious_pageDirective (h : Head) : Oblivious R (pageDirective h : Validate σ Unit) := by
  refine Oblivious.forM (fun a => Oblivious.ite (oblivious_setPage _) ?_) _
  exact (oblivious_remember _ _).bind fun _ =>
    Oblivious.ite (oblivious_applyAttribute _) (Oblivious.pure _)

theorem oblivious_attributeDirective (h : Head) :
    Oblivious R (attributeDirective h : Validate σ Unit) := by
  refine (oblivious_declare _ _).bind fun free => Oblivious.ite ?_ (Oblivious.pure _)
  refine Oblivious.guard (Oblivious.forM (fun other => ?_) _) fun _ => oblivious_setPage _
  exact Oblivious.ite (oblivious_report _ _ _) (Oblivious.pure _)

theorem oblivious_variableDirective (h : Head) :
    Oblivious R (variableDirective h : Validate σ Unit) := by
  iterate 3 refine Oblivious.ite (oblivious_report _ _ _) ?_
  exact (oblivious_declare _ _).bind fun _ =>
    Oblivious.ite (oblivious_setPage _) (Oblivious.pure _)

theorem oblivious_directive (hR : env.Respects R) (h : Head) (cs : List Node) :
    Oblivious R (directive env h cs) := by
  refine (oblivious_checkSignature hR _ _).bind fun fine => Oblivious.ite ?_ (Oblivious.pure _)
  refine Oblivious.get fun s => (?_ : Oblivious R _) s
  dsimp only
  split
  · exact Oblivious.ite (oblivious_report _ _ _) (oblivious_pageDirective _)
  · exact oblivious_addPrefix _ _
  iterate 3
    · refine Oblivious.ite (oblivious_report _ _ _) ?_
      split
      · exact oblivious_pageDirective _
      · exact oblivious_attributeDirective _
      · exact oblivious_variableDirective _
  · exact Oblivious.pure _

theorem oblivious_finish (root : Head) : Oblivious R (finish root : Validate σ Unit) := by
  refine Oblivious.get fun s => (?_ : Oblivious R _) s
  refine Oblivious.guard (oblivious_report _ _ _) fun _ => ?_
  dsimp only
  split
  · exact Oblivious.pure _
  next tag _ =>
  refine (Oblivious.forM (fun h => ?_) _).bind fun _ => Oblivious.forM (fun v => ?_) _
  · refine Oblivious.ite (Oblivious.ite (oblivious_report _ _ _) (Oblivious.pure _)) ?_
    exact Oblivious.ite (Oblivious.pure _) (oblivious_report _ _ _)
  · refine Oblivious.ite (Oblivious.pure _) ?_
    split
    · exact oblivious_report _ _ _
    · exact Oblivious.ite (oblivious_report _ _ _) (Oblivious.pure _)

/-! ### Actions and tags -/

theorem oblivious_checkBean (h : Head) : Oblivious R (checkBean h : Validate σ Unit) := by
  iterate 3 refine Oblivious.ite (oblivious_report _ _ _) ?_
  exact Oblivious.pure _

theorem oblivious_checkInvocation (h : Head) :
    Oblivious R (checkInvocation h : Validate σ Unit) := by
  refine Oblivious.get fun s => (?_ : Oblivious R _) s
  refine Oblivious.ite (oblivious_report _ _ _) ?_
  refine Oblivious.guard (oblivious_report _ _ _) fun _ => ?_
  refine Oblivious.guard (oblivious_report _ _ _) fun _ => ?_
  exact Oblivious.modify fun _ _ _ => rfl

theorem oblivious_checkAction (hR : env.Respects R) (parent : Kind) (h : Head) (cs : List Node) :
    Oblivious R (checkAction env parent h cs) := by
  refine (oblivious_checkSignature hR _ _).bind fun _ => ?_
  split
  case h_4 => exact oblivious_checkBean _
  case h_6 => exact oblivious_checkInvocation _
  case h_7 => exact oblivious_checkInvocation _
  case h_8 => exact Oblivious.pure _
  all_goals exact Oblivious.ite (oblivious_report _ _ _) (Oblivious.pure _)

theorem oblivious_checkAttribute (hR : env.Respects R) (d : TagDescriptor) (h : Head)
    (cs : List Node) (data : TagData) (a : Attribute) :
    Oblivious R (checkAttribute env d h cs data a) := by
  have hrefused : ∀ issue p message, Oblivious R (do
      report issue p message
      return ⟨false, a, data⟩ : Validate σ CheckedAttribute) := fun issue p message =>
    (oblivious_report issue p message).bind fun _ => Oblivious.pure _
  refine Oblivious.ite (hrefused _ _ _) (Oblivious.ite (hrefused _ _ _) ?_)
  split
  · exact hrefused _ _ _
  · exact Oblivious.guard (oblivious_expression hR _ _) fun _ => Oblivious.pure _

theorem oblivious_checkInlineAttributes (hR : env.Respects R) (d : TagDescriptor) (h : Head)
    (cs : List Node) (data : TagData) (as : List Attribute) :
    Oblivious R (checkInlineAttributes env d h cs data as) := by
  induction as generalizing data with
  | nil => exact Oblivious.pure _
  | cons a as ih =>
    refine Oblivious.ite ((ih _).bind fun _ => Oblivious.pure _) ?_
    exact (oblivious_checkAttribute hR _ _ _ _ _).bind fun _ =>
      (ih _).bind fun _ => Oblivious.pure _

theorem oblivious_checkNamedAttribute (hR : env.Respects R) (d : TagDescriptor) (h : Head)
    (cs : List Node) (data : TagData) (i : Nat) (n : Head) :
    Oblivious R (checkNamedAttribute env d h cs data i n) := by
  unfold checkNamedAttribute
  dsimp only
  split
  · refine Oblivious.ite ((oblivious_checkAttribute hR _ _ _ _ _).bind fun _ => Oblivious.pure _) ?_
    exact (oblivious_report _ _ _).bind fun _ => Oblivious.pure _
  · exact (oblivious_checkAttribute hR _ _ _ _ _).bind fun _ => Oblivious.pure _

theorem oblivious_checkNamedAttributes (hR : env.Respects R) (d : TagDescriptor) (cs : List Node)
    (h : Head) (data : TagData) (i : Nat) (ns : List Node) :
    Oblivious R (checkNamedAttributes env d cs h data i ns) := by
  induction ns generalizing h data i with
  | nil => exact Oblivious.pure _
  | cons n ns ih =>
    refine Oblivious.ite ?_ (ih _ _ _)
    exact (oblivious_checkNamedAttribute hR _ _ _ _ _ _).bind fun _ => ih _ _ _

theorem oblivious_checkVariables (d : TagDescriptor) (h : Head) (data : TagData) :
    Oblivious R (checkVariables d h data : Validate σ (List VariableBinding)) := by
  unfold checkVariables
  split
  · exact Oblivious.pure _
  all_goals exact (oblivious_report _ _ _).bind fun _ => Oblivious.pure _

theorem oblivious_checkTag (hR : env.Respects R) (t : CustomTag) (d : TagDescriptor) (nesting : Nat)
    (h : Head) (cs : List Node) : Oblivious R (checkTag env t d nesting h cs) := by
  have hrest : ∀ (h : Head) (data : TagData), Oblivious R (do
      let vars ← checkVariables d h data
      addPrefix t.prefixName t.uri
      return { h with tag := some { t with nesting := nesting, data := data, vars := vars } } :
        Validate σ Head) := fun h data =>
    (oblivious_checkVariables d h data).bind fun _ => (oblivious_addPrefix _ _).bind fun _ =>
      Oblivious.pure _
  refine (oblivious_checkInlineAttributes hR _ _ _ _ _).bind fun r => ?_
  refine (oblivious_checkNamedAttributes hR _ _ _ _ _ _).bind fun r' => ?_
  refine (Oblivious.forM (fun _ => oblivious_report _ _ _) _).bind fun _ => ?_
  refine Oblivious.guard (oblivious_report _ _ _) fun _ => ?_
  split
  · exact (oblivious_report _ _ _).bind fun _ => hrest _ _
  · exact hrest _ _

theorem oblivious_attributeInfo (h : Head) (scope : Scope) :
    Oblivious R (attributeInfo h scope : Validate σ ChildInfo) := by
  refine (Oblivious.forM (fun a => ?_) _).bind fun _ => Oblivious.pure _
  exact Oblivious.ite (oblivious_report _ _ _) (Oblivious.pure _)

/-! ### Visiting a node -/

/-- The children of a node, and then its attributes. -/
theorem oblivious_children {h : Head} {scope : Scope} {visitChildren : Validate σ α}
    {f : α → ChildInfo → β} (hcs : Oblivious R visitChildren) :
    Oblivious R (do return f (← visitChildren) (← attributeInfo h scope)) :=
  hcs.bind fun _ => (oblivious_attributeInfo _ _).bind fun _ => Oblivious.pure _

mutual

theorem oblivious_visit (hR : env.Respects R) (n : Node) (parent : Kind) (scope : Scope) :
    Oblivious R (visit env parent scope n) := by
  match n with
  | .mk h cs =>
    unfold visit
    split
    iterate 3
      · exact Oblivious.guard (oblivious_report _ _ _) fun _ => Oblivious.pure _
    · exact (oblivious_expression hR _ _).bind fun _ => Oblivious.pure _
    iterate 3
      · exact oblivious_children (oblivious_visitAll hR cs _ _)
    · exact (oblivious_checkTag hR _ _ _ _ _).bind fun _ =>
        oblivious_children (oblivious_visitAll hR cs _ _)
    · refine Oblivious.ite ?_ ?_
      · exact (oblivious_directive hR _ _).bind fun _ =>
          oblivious_children (oblivious_visitAll hR cs _ _)
      · exact (oblivious_checkAction hR _ _ _).bind fun _ =>
          oblivious_children (oblivious_visitAll hR cs _ _)

theorem oblivious_visitAll (hR : env.Respects R) (cs : List Node) (parent : Kind)
    (scopeOf : Head → Scope) : Oblivious R (visitAll env parent scopeOf cs) := by
  match cs with
  | [] => exact Oblivious.pure _
  | .mk h ds :: cs =>
    unfold visitAll
    refine (oblivious_visit hR (.mk h ds) _ _).bind fun r => ?_
    exact (oblivious_visitAll hR cs parent scopeOf).bind fun _ => Oblivious.pure _

end

/-- The validation of a unit: the tree with its fields filled in. -/
def unitSteps (env : Env σ) (root : Node) : Validate σ Node := do
  let (n, _) ← visit env .root {} root
  finish root.head
  return n

theorem oblivious_unitSteps (hR : env.Respects R) (root : Node) :
    Oblivious R (unitSteps env root) :=
  (oblivious_visit hR root .root {}).bind fun _ =>
    (oblivious_finish root.head).bind fun _ => Oblivious.pure _

end Validation

namespace Node

open Validation

variable {σ : Type} (library : Option (Bytes → σ → Except Fault TagLibrary × σ))
  (binder : Binder) (options : ValidationOptions) (memory : σ) (root : Node)

/-- The violations of the rules that a unit has to follow, in the order in which they are found:
what a validation without a cap tells. -/
def violations : List Diagnostic :=
  match (root.validate library { binder := binder } memory).failure with
  | some (.fault (.diagnostics ds)) => ds
  | _ => []

theorem validate_of_empty? {c : Collector}
    (h : Collector.empty? options.overflow options.maxErrors = .ok c) :
    root.validate library options memory =
      let r := unitSteps ⟨library, options.binder⟩ root (startOf c root memory)
      ⟨r.1.setPage r.2.page, r.2.problems.fault?.map .fault, r.2.memory⟩ := by
  unfold validate
  rw [h]
  rfl

theorem violations_eq : root.violations library binder memory =
    (unitSteps ⟨library, binder⟩ root
      (startOf { policy := .noCap, capacity := 0 } root memory)).2.problems.entries := by
  unfold violations
  rw [validate_of_empty? library { binder := binder } memory root Collector.empty?_noCap]
  dsimp only [Collector.fault?]
  cases (unitSteps ⟨library, binder⟩ root
    (startOf { policy := .noCap, capacity := 0 } root memory)).2.problems.entries <;> rfl

theorem violations_eq_nil_iff : root.violations library binder memory = [] ↔
    (root.validate library { binder := binder } memory).failure = none := by
  rw [violations_eq,
    validate_of_empty? library { binder := binder } memory root Collector.empty?_noCap]
  exact Collector.fault?_eq_none_iff.symm.trans Option.map_eq_none_iff.symm

/-- The outcome of a validation is that of the one without a cap, apart from what its collector
keeps of the violations. -/
theorem validate_eq {c : Collector}
    (h : Collector.empty? options.overflow options.maxErrors = .ok c) :
    root.validate library options memory =
      { root.validate library { binder := options.binder } memory with
        failure := ((root.violations library options.binder memory).foldl
          Collector.add c).fault?.map .fault } := by
  have heq := Env.respects_eq ⟨library, options.binder⟩
  obtain ⟨ds, -, hds⟩ := (oblivious_unitSteps heq root).apply
    (startOf { policy := .noCap, capacity := 0 } root memory)
  have hrun : ∀ c, unitSteps ⟨library, options.binder⟩ root (startOf c root memory) = _ := fun c =>
    let ⟨_, rfl, h⟩ := hds c memory rfl
    h
  have hviolations : root.violations library options.binder memory = ds := by
    rw [violations_eq, hrun { policy := .noCap, capacity := 0 }]
    exact Collector.entries_foldl_add_noCap 0 ds
  rw [validate_of_empty? library options memory root h, hviolations, hrun c,
    validate_of_empty? library { binder := options.binder } memory root
      Collector.empty?_noCap]
  rfl

/-- Validations in surroundings that give the same libraries have the same outcome. -/
theorem validate_related {R : σ → σ → Prop} (hR : Env.Respects ⟨library, options.binder⟩ R)
    {m m' : σ} (hm : R m m') :
    (root.validate library options m').tree = (root.validate library options m).tree ∧
      (root.validate library options m').failure = (root.validate library options m).failure ∧
      R (root.validate library options m).memory (root.validate library options m').memory := by
  cases hc : Collector.empty? options.overflow options.maxErrors with
  | error f =>
    unfold validate
    rw [hc]
    exact ⟨rfl, rfl, hm⟩
  | ok c =>
    obtain ⟨ds, hadds, hds⟩ := (oblivious_unitSteps hR root).apply (startOf c root m)
    obtain ⟨m₁, hm₁, hrun⟩ := hds c m' hm
    have hrun : unitSteps ⟨library, options.binder⟩ root (startOf c root m') = _ := hrun
    rw [validate_of_empty? library options m root hc, validate_of_empty? library options m' root hc,
      hrun]
    exact ⟨rfl, congrArg (fun c : Collector => c.fault?.map Failure.fault) hadds.symm, hm₁⟩

/-- A unit passes its validation if it violates no rule, and also whatever it violates if there is a
cap of zero. -/
theorem validate_passes_iff : (root.validate library options memory).failure = none ↔
    (0 ≤ options.maxErrors ∧ options.maxErrors ≤ Collector.largestCapacity) ∧
      (root.violations library options.binder memory = [] ∨
        (options.overflow ≠ .noCap ∧ options.maxErrors = 0)) := by
  by_cases hroom : 0 ≤ options.maxErrors ∧ options.maxErrors ≤ Collector.largestCapacity
  · have hzero : options.maxErrors.toNat = 0 ↔ options.maxErrors = 0 := by omega
    rw [validate_eq library options memory root (Collector.empty?_eq_ok_iff.mpr ⟨hroom, rfl⟩),
      Option.map_eq_none_iff, Collector.fault?_eq_none_iff, Collector.foldl_add_eq_nil_iff, hzero]
    exact (and_iff_right hroom).symm
  · refine iff_of_false (fun hpass => ?_) fun h => hroom h.1
    unfold validate at hpass
    split at hpass
    · cases hpass
    · next hc => exact hroom (Collector.empty?_eq_ok_iff.mp hc).1

end Node

end ServerPages
