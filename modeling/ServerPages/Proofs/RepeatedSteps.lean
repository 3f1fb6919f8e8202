import ServerPages.Proofs.ProblemLedger

/-!
# Steps taken again

In a tag file a validation notes the invocations of fragments and of the body, which are checked
when all directives are known. Until then no step looks at the notes: from states that differ only
in them it gives the same value and leaves states that differ only in them (`Ignores`). The one that
adds a note is no such step.

A step of a second validation is taken in a state that a first one has left, and finds what the
first one noted of nodes. `RepeatsAt` says that such a step does again what one of the first did: it
leaves what that left, apart from the problems collected, what the surroundings remember and what
was noted of the nodes of invocations, and it reports as many problems. It says also when they are
the same ones.

## Main results

* `ignores_directive`, `ignores_checkAttribute`, `ignores_checkSignature`: the checks of nodes do
  not look at the invocations noted.
* `RepeatsAt.bind`: steps that are taken again one after the other.
* `RepeatsAt.of_mirrors`: a step that mirrors one of the first reports the same.
-/

namespace ServerPages.Validation

variable {σ α β : Type}

/-- The state with other notes of invocations. -/
def State.noting (s : State σ) (is : List Head) : State σ := { s with invocations := is }

/-- Whatever invocations are noted instead of those of the state `s`, a step does what `x` does and
leaves the notes alone; where `is` are noted, it is `y is`. -/
def IgnoresAt (s : State σ) (x : Validate σ α) (y : List Head → Validate σ α) : Prop :=
  ∀ is, y is (s.noting is) = ((x s).1, (x s).2.noting is)

/-- What a step gives and how it changes the state has nothing to do with the invocations noted. -/
def Ignores (x : Validate σ α) : Prop := ∀ s, IgnoresAt s x fun _ => x

theorem Ignores.pure (a : α) : Ignores (Pure.pure a : Validate σ α) := fun _ _ => rfl

theorem Ignores.bind {x : Validate σ α} {f : α → Validate σ β} (hx : Ignores x)
    (hf : ∀ a, Ignores (f a)) : Ignores (x >>= f) := by
  intro s is
  calc (x >>= f) (s.noting is)
    _ = f (x (s.noting is)).1 (x (s.noting is)).2 := rfl
    _ = f (x s).1 ((x s).2.noting is) := congrArg (fun r => f r.1 r.2) (hx s is)
    _ = _ := hf _ _ is

theorem IgnoresAt.ite {s : State σ} {c : Prop} [Decidable c] {x y : Validate σ α}
    {x' y' : List Head → Validate σ α} (hx : IgnoresAt s x x') (hy : IgnoresAt s y y') :
    IgnoresAt s (if c then x else y) fun is => if c then x' is else y' is := by
  by_cases h : c
  · simpa only [if_pos h] using hx
  · simpa only [if_neg h] using hy

theorem Ignores.ite {c : Prop} [Decidable c] {x y : Validate σ α} (hx : Ignores x)
    (hy : Ignores y) : Ignores (if c then x else y) := fun s => (hx s).ite (hy s)

/-- A step that is taken only under a condition, before others. -/
theorem Ignores.guard {c : Prop} [Decidable c] {x : Validate σ Unit} {f : Unit → Validate σ β}
    (hx : Ignores x) (hf : ∀ a, Ignores (f a)) : Ignores (if c then x >>= f else f ()) :=
  .ite (hx.bind hf) (hf ())

theorem Ignores.get {f : State σ → Validate σ β}
    (hf : ∀ s, IgnoresAt s (f s) fun is => f (s.noting is)) :
    Ignores (MonadStateOf.get >>= f) := hf

theorem Ignores.forM {f : α → Validate σ PUnit} (hf : ∀ a, Ignores (f a)) (l : List α) :
    Ignores (l.forM f) := by
  induction l with
  | nil => exact .pure _
  | cons a l ih => exact (hf a).bind fun _ => ih

theorem Ignores.mapM {f : α → Validate σ β} (hf : ∀ a, Ignores (f a)) (l : List α) :
    Ignores (l.mapM f) := by
  induction l with
  | nil => exact .pure _
  | cons a l ih =>
    rw [List.mapM_cons]
    exact (hf a).bind fun _ => ih.bind fun _ => .pure _

/-! ### Functions and attributes -/

variable {env : Env σ}

theorem ignores_report (issue : Issue) (p : Position) (message : Bytes) :
    Ignores (report issue p message : Validate σ Unit) := fun _ _ => rfl

theorem ignores_setPage (f : PageInfo → PageInfo) : Ignores (setPage f : Validate σ Unit) :=
  fun _ _ => rfl

theorem ignores_addPrefix (prefixName uri : Bytes) :
    Ignores (addPrefix prefixName uri : Validate σ Unit) := ignores_setPage _

theorem ignores_functionCall (p : Position) (f : Expression.FunctionRef) :
    Ignores (functionCall env p f) := by
  refine .get fun s => .ite (Ignores.pure _ s) (.ite (ignores_report _ _ _ s) ?_)
  cases env.library with
  | none => exact ignores_report _ _ _ s
  | some q =>
    intro is
    simp only [State.noting]
    rcases q f.uri s.memory with ⟨e | l, memory⟩
    · rfl
    · dsimp only
      cases l.function? f.name <;> rfl

theorem ignores_expression (e : Option Expression) (p : Position) :
    Ignores (expression env e p) := by
  cases e with
  | none => exact .pure _
  | some e => exact .forM (ignores_functionCall p) _

theorem ignores_checkInline (h : Head) (sigs : List Signature) (a : Attribute) :
    Ignores (checkInline env h sigs a) := by
  unfold checkInline
  split
  · exact (ignores_report _ _ _).bind fun _ => .pure _
  refine .ite ((ignores_report _ _ _).bind fun _ => .pure _) ?_
  refine .guard (ignores_report _ _ _) fun _ => ?_
  exact .guard (ignores_expression _ _) fun _ => .pure _

theorem ignores_checkNamed (h : Head) (sigs : List Signature) (seen : List Bytes)
    (cs : List Node) : Ignores (checkNamed h sigs seen cs : Validate σ Bool) := by
  induction cs generalizing seen with
  | nil => exact .pure _
  | cons c cs ih =>
    have hrefused : ∀ issue message seen, Ignores (do
        report issue c.start message
        let _ ← checkNamed h sigs seen cs
        return false : Validate σ Bool) := fun issue message seen =>
      (ignores_report _ _ _).bind fun _ => (ih seen).bind fun _ => .pure _
    exact .ite (ih _) (.ite (hrefused _ _ _) (.ite (hrefused _ _ _)
      (.ite (hrefused _ _ _) (ih _))))

theorem ignores_checkSignature (h : Head) (cs : List Node) :
    Ignores (checkSignature env h cs) := by
  refine (Ignores.mapM (ignores_checkInline _ _) _).bind fun inline => ?_
  refine (ignores_checkNamed _ _ _ _).bind fun named => ?_
  exact (Ignores.forM (fun _ => ignores_report _ _ _) _).bind fun _ => .pure _

/-! ### Directives -/

theorem ignores_remember (h : Head) (a : Attribute) : Ignores (remember h a : Validate σ Bool) := by
  refine .get fun s is => ?_
  simp only [State.noting]
  cases s.firstValues.lookup (h.kind, a.name) with
  | none => rfl
  | some first =>
    dsimp only
    cases first.value == a.value <;> rfl

theorem ignores_declare (name : Bytes) (p : Position) :
    Ignores (declare name p : Validate σ Bool) := by
  refine .get fun s is => ?_
  simp only [State.noting]
  cases s.declared.lookup name <;> rfl

theorem ignores_setBuffer (a : Attribute) : Ignores (setBuffer a : Validate σ Unit) := by
  refine .ite (ignores_setPage _) ?_
  split
  · exact ignores_report _ _ _
  split
  · exact ignores_report _ _ _
  · exact ignores_setPage _

theorem ignores_applyAttribute (a : Attribute) :
    Ignores (applyAttribute a : Validate σ Unit) := by
  iterate 4 refine .ite (ignores_setPage _) ?_
  refine .ite (ignores_setBuffer a) ?_
  iterate 7 refine .ite (ignores_setPage _) ?_
  refine .ite ?_ (.ite (ignores_setPage _) (.pure _))
  exact (ignores_setPage _).bind fun _ => (ignores_declare _ _).bind fun _ => .pure _

theorem ignores_pageDirective (h : Head) : Ignores (pageDirective h : Validate σ Unit) := by
  refine .forM (fun a => .ite (ignores_setPage _) ?_) _
  exact (ignores_remember _ _).bind fun _ => .ite (ignores_applyAttribute _) (.pure _)

theorem ignores_attributeDirective (h : Head) :
    Ignores (attributeDirective h : Validate σ Unit) := by
  refine (ignores_declare _ _).bind fun free => .ite ?_ (.pure _)
  refine .guard (.forM (fun other => ?_) _) fun _ => ignores_setPage _
  exact .ite (ignores_report _ _ _) (.pure _)

theorem ignores_variableDirective (h : Head) :
    Ignores (variableDirective h : Validate σ Unit) := by
  iterate 3 refine .ite (ignores_report _ _ _) ?_
  exact (ignores_declare _ _).bind fun _ => .ite (ignores_setPage _) (.pure _)

theorem ignores_directive (h : Head) (cs : List Node) : Ignores (directive env h cs) := by
  refine (ignores_checkSignature _ _).bind fun fine => .ite ?_ (.pure _)
  refine .get fun s => (?_ : Ignores _) s
  dsimp only
  split
  · exact .ite (ignores_report _ _ _) (ignores_pageDirective _)
  · exact ignores_addPrefix _ _
  iterate 3
    · refine .ite (ignores_report _ _ _) ?_
      split
      · exact ignores_pageDirective _
      · exact ignores_attributeDirective _
      · exact ignores_variableDirective _
  · exact .pure _

/-! ### Actions and tags -/

theorem ignores_checkBean (h : Head) : Ignores (checkBean h : Validate σ Unit) := by
  iterate 3 refine .ite (ignores_report _ _ _) ?_
  exact .pure _

theorem ignores_checkAttribute (d : TagDescriptor) (h : Head) (cs : List Node) (data : TagData)
    (a : Attribute) : Ignores (checkAttribute env d h cs data a) := by
  have hrefused : ∀ issue p message, Ignores (do
      report issue p message
      return ⟨false, a, data⟩ : Validate σ CheckedAttribute) := fun issue p message =>
    (ignores_report issue p message).bind fun _ => .pure _
  refine .ite (hrefused _ _ _) (.ite (hrefused _ _ _) ?_)
  split
  · exact hrefused _ _ _
  · exact .guard (ignores_expression _ _) fun _ => .pure _

theorem ignores_checkVariables (d : TagDescriptor) (h : Head) (data : TagData) :
    Ignores (checkVariables d h data : Validate σ (List VariableBinding)) := by
  unfold checkVariables
  split
  · exact .pure _
  all_goals exact (ignores_report _ _ _).bind fun _ => .pure _

theorem ignores_attributeInfo (h : Head) (scope : Scope) :
    Ignores (attributeInfo h scope : Validate σ ChildInfo) := by
  refine (Ignores.forM (fun a => ?_) _).bind fun _ => .pure _
  exact .ite (ignores_report _ _ _) (.pure _)

end ServerPages.Validation

namespace ServerPages

/-! ### Taken again -/

/-- A head without what was noted of its subtree. -/
def Head.unsummed (h : Head) : Head := { h with info := {} }

namespace Validation

variable {σ α β γ δ : Type}

/-- The invocations noted are of the same nodes. -/
def SameNotes (is js : List Head) : Prop := is.map Head.unsummed = js.map Head.unsummed

/-- The state with other problems, another memory and other notes. -/
def State.elsewhere (s : State σ) (c : Collector) (m : σ) (is : List Head) : State σ :=
  (s.collecting c m).noting is

/-- From the state `s` the step `x` adds some problems. From a state that differs from it in the
problems, the memory and in what was noted of the same invocations, the step `y` gives `b`, leaves a
state that differs in these from what `x` leaves, and adds as many problems as `x`, the same ones
exactly if `same` holds. -/
def RepeatsAt (same : Prop) (s : State σ) (x : Validate σ α) (y : Validate σ β) (b : β) : Prop :=
  ∃ ds es : List Diagnostic, (x s).2.problems = ds.foldl Collector.add s.problems ∧
    es.length = ds.length ∧ (es = ds ↔ same) ∧
    ∀ c m is, SameNotes is s.invocations → ∃ m' is', SameNotes is' (x s).2.invocations ∧
      y (s.elsewhere c m is) = (b, (x s).2.elsewhere (es.foldl Collector.add c) m' is')

/-- The step `y` does what `x` does where the same invocations are noted. -/
def Mirrors (x y : Validate σ α) : Prop :=
  ∀ s is, SameNotes is s.invocations → ∃ is', SameNotes is' (x s).2.invocations ∧
    y (s.noting is) = ((x s).1, (x s).2.noting is')

theorem Ignores.mirrors {x : Validate σ α} (hx : Ignores x) : Mirrors x x := by
  intro s is his
  have hself : x s = ((x s).1, (x s).2.noting s.invocations) := hx s s.invocations
  have hkept : (x s).2.invocations = s.invocations := by rw [hself, State.noting]
  exact ⟨is, hkept ▸ his, hx s is⟩

theorem Mirrors.bind {x y : Validate σ α} {f g : α → Validate σ β} (hxy : Mirrors x y)
    (hfg : ∀ a, Mirrors (f a) (g a)) : Mirrors (x >>= f) (y >>= g) := by
  intro s is his
  obtain ⟨is₁, his₁, hy⟩ := hxy s is his
  obtain ⟨is₂, his₂, hg⟩ := hfg (x s).1 (x s).2 is₁ his₁
  refine ⟨is₂, his₂, ?_⟩
  calc (y >>= g) (s.noting is)
    _ = g (y (s.noting is)).1 (y (s.noting is)).2 := rfl
    _ = g (x s).1 ((x s).2.noting is₁) := congrArg (fun r => g r.1 r.2) hy
    _ = _ := hg

theorem Mirrors.ite {c : Prop} [Decidable c] {x x' y y' : Validate σ α} (hx : Mirrors x y)
    (hx' : Mirrors x' y') : Mirrors (if c then x else x') (if c then y else y') := by
  split
  · exact hx
  · exact hx'

/-- A step that is taken only under a condition, before others. -/
theorem Mirrors.guard {c : Prop} [Decidable c] {x y : Validate σ Unit} {f g : Unit → Validate σ β}
    (hxy : Mirrors x y) (hfg : ∀ a, Mirrors (f a) (g a)) :
    Mirrors (if c then x >>= f else f ()) (if c then y >>= g else g ()) :=
  .ite (hxy.bind hfg) (hfg ())

theorem Mirrors.get {f g : State σ → Validate σ α}
    (hg : ∀ s is, SameNotes is s.invocations → g (s.noting is) = g s)
    (hfg : ∀ s, Mirrors (f s) (g s)) :
    Mirrors (MonadStateOf.get >>= f) (MonadStateOf.get >>= g) := by
  intro s is his
  obtain ⟨is', his', hrun⟩ := hfg s s is his
  rw [← hg s is his] at hrun
  exact ⟨is', his', hrun⟩

section Repeats

variable {same : Prop} {s : State σ} {x : Validate σ α} {y : Validate σ β} {b : β}

theorem RepeatsAt.congr {same' : Prop} (h : RepeatsAt same s x y b) (hsame : same ↔ same') :
    RepeatsAt same' s x y b := by
  obtain ⟨ds, es, hadds, hlength, hes, hrun⟩ := h
  exact ⟨ds, es, hadds, hlength, hes.trans hsame, hrun⟩

theorem RepeatsAt.of_mirrors {y : Validate σ α} (hx : Oblivious (fun _ _ => True) x)
    (hy : Mirrors x y) (s : State σ) : RepeatsAt True s x y (x s).1 := by
  obtain ⟨ds, hadds, hds⟩ := hx.apply s
  refine ⟨ds, ds, hadds, rfl, iff_of_true rfl trivial, fun c m is his => ?_⟩
  obtain ⟨m', -, hrun⟩ := hds c m trivial
  obtain ⟨is', his', hmirror⟩ := hy (s.collecting c m) is his
  rw [hrun] at his' hmirror
  exact ⟨m', is', his', hmirror⟩

theorem RepeatsAt.pure (a : α) (b : β) (s : State σ) :
    RepeatsAt True s (Pure.pure a : Validate σ α) (Pure.pure b : Validate σ β) b :=
  ⟨[], [], rfl, rfl, iff_of_true rfl trivial, fun _ m is his => ⟨m, is, his, rfl⟩⟩

theorem RepeatsAt.bind {same' : Prop} {f : α → Validate σ γ} {g : β → Validate σ δ} {b' : δ}
    (hxy : RepeatsAt same s x y b) (hfg : RepeatsAt same' (x s).2 (f (x s).1) (g b) b') :
    RepeatsAt (same ∧ same') s (x >>= f) (y >>= g) b' := by
  obtain ⟨ds, es, hadds, hlength, hsame, hrun⟩ := hxy
  obtain ⟨ds', es', hadds', hlength', hsame', hrun'⟩ := hfg
  refine ⟨ds ++ ds', es ++ es', ?_, ?_, ?_, fun c m is his => ?_⟩
  · rw [List.foldl_append, ← hadds]
    exact hadds'
  · rw [List.length_append, List.length_append, hlength, hlength']
  · rw [← hsame, ← hsame']
    exact ⟨fun h => List.append_inj h hlength, fun h => by rw [h.1, h.2]⟩
  obtain ⟨m₁, is₁, his₁, hy⟩ := hrun c m is his
  obtain ⟨m₂, is₂, his₂, hg⟩ := hrun' (es.foldl Collector.add c) m₁ is₁ his₁
  refine ⟨m₂, is₂, his₂, ?_⟩
  calc (y >>= g) (s.elsewhere c m is)
    _ = g (y (s.elsewhere c m is)).1 (y (s.elsewhere c m is)).2 := rfl
    _ = g b ((x s).2.elsewhere (es.foldl Collector.add c) m₁ is₁) :=
        congrArg (fun r => g r.1 r.2) hy
    _ = _ := hg
    _ = _ := by rw [← List.foldl_append]; rfl

/-- A step that reports the same, before others. -/
theorem RepeatsAt.after {f : α → Validate σ γ} {g : β → Validate σ δ} {b' : δ}
    (hxy : RepeatsAt True s x y b) (hfg : RepeatsAt same (x s).2 (f (x s).1) (g b) b') :
    RepeatsAt same s (x >>= f) (y >>= g) b' :=
  (hxy.bind hfg).congr (Iff.of_eq (true_and _))

/-- A step before others that report the same. -/
theorem RepeatsAt.before {f : α → Validate σ γ} {g : β → Validate σ δ} {b' : δ}
    (hxy : RepeatsAt same s x y b) (hfg : RepeatsAt True (x s).2 (f (x s).1) (g b) b') :
    RepeatsAt same s (x >>= f) (y >>= g) b' :=
  (hxy.bind hfg).congr (Iff.of_eq (and_true _))

/-- Two problems reported in one place. -/
theorem RepeatsAt.report (d e : Diagnostic) (a : α) (b : β) (s : State σ) :
    RepeatsAt (e = d) s (do Validation.report d.issue d.position d.message; return a)
      (do Validation.report e.issue e.position e.message; return b) b := by
  refine ⟨[d], [e], rfl, rfl, ?_, fun _ m is his => ⟨m, is, his, rfl⟩⟩
  simp

end Repeats

end Validation

end ServerPages
