import ServerPages.Validation.Validate

/-!
# What a validation can change

Every step of a validation adds a problem, merges an attribute of a directive, adds to what the
other nodes of the unit tell, takes a note or asks for a library; none of them turns a page into a
tag file. `IsInvariant` says this once, and every step keeps whatever is an invariant in this sense.
A property that does not look at what directives say is one (`IsIndifferent`).

## Main results

* `keeps_visit`: the visit of a node keeps every invariant.
* `Node.validate_memory`: validation keeps what asking for libraries keeps.
* `Node.validate_tag`: a validated unit implements a tag if it is a tag file.
* `Node.validate_crash_iff`: validation crashes if there is no room for its problems.
-/

namespace ServerPages.Validation

variable {σ α β : Type}

/-! ### Values -/

/-- The value of a step of a validation, from whatever state it is taken. -/
def Gives (P : β → Prop) (m : Validate σ β) : Prop := ∀ s, P (m s).1

section Gives

variable {P : β → Prop}

theorem Gives.pure {b : β} (h : P b) : Gives P (Pure.pure b : Validate σ β) := fun _ => h

theorem Gives.skip {x : Validate σ α} {f : α → Validate σ β} (hf : ∀ a, Gives P (f a)) :
    Gives P (x >>= f) := fun s => hf _ (x s).2

theorem Gives.bind {Q : α → Prop} {x : Validate σ α} {f : α → Validate σ β} (hx : Gives Q x)
    (hf : ∀ a, Q a → Gives P (f a)) : Gives P (x >>= f) := fun s => hf _ (hx s) (x s).2

theorem Gives.ite {c : Prop} [Decidable c] {x y : Validate σ β} (hx : Gives P x)
    (hy : Gives P y) : Gives P (if c then x else y) := by
  split
  · exact hx
  · exact hy

theorem Gives.mono {Q : β → Prop} {x : Validate σ β} (hx : Gives P x) (h : ∀ b, P b → Q b) :
    Gives Q x := fun s => h _ (hx s)

end Gives

/-! ### States -/

/-- The kind of the directives that are merged. -/
def State.mergedKind (s : State σ) : Kind :=
  if s.page.tag.isSome then .tagDirective else .pageDirective

/-- Merges an attribute of a page or tag directive. -/
def mergeAttribute (h : Head) (a : Attribute) : Validate σ Unit := do
  if a.name == "import" then setPage fun p => { p with imports := addImports p.imports a.value }
  else if ← remember h a then applyAttribute a

theorem pageDirective_eq (h : Head) :
    (pageDirective h : Validate σ Unit) = h.attributes.forM (mergeAttribute h) := rfl

/-- A property of states that no check destroys, directives apart. -/
structure IsStable (env : Env σ) (I : State σ → Prop) : Prop where
  report : ∀ s d, I s → I { s with problems := s.problems.add d }
  prefixes : ∀ s x, I s → I { s with page := { s.page with prefixes := x } }
  functions : ∀ s x, I s → I { s with page := { s.page with functions := x } }
  invoke : ∀ s h, I s → I { s with invocations := s.invocations ++ [h] }
  memory : ∀ q, env.library = some q → ∀ s uri, I s → I { s with memory := (q uri s.memory).2 }

/-- A property of states that no step of a validation destroys. -/
structure IsInvariant (env : Env σ) (I : State σ → Prop) : Prop extends IsStable env I where
  merge : ∀ s h a, h.kind = s.mergedKind → I s → I (mergeAttribute h a s).2
  contract : ∀ s as vs, I s → I { s with page := { s.page with
    tag := s.page.tag.map ({ · with attributes := as, vars := vs }) } }
  declare : ∀ s name p, I s → I { s with declared := (name, p) :: s.declared }

/-- A property of states that looks neither at what directives say, but for whether the unit is a
tag file, nor at the notes, and that no problem and no library destroys. -/
structure IsIndifferent (env : Env σ) (I : State σ → Prop) : Prop where
  problems : ∀ s d, I s → I { s with problems := s.problems.add d }
  page : ∀ s p, p.tag.isSome = s.page.tag.isSome → I s → I { s with page := p }
  notes : ∀ s firstValues declared invocations, I s →
    I { s with firstValues := firstValues, declared := declared, invocations := invocations }
  memory : ∀ q, env.library = some q → ∀ s uri, I s → I { s with memory := (q uri s.memory).2 }

/-- If the state has a property, so has the one in which the step leaves it. -/
def KeepsAt (I : State σ → Prop) (s : State σ) (m : Validate σ α) : Prop := I s → I (m s).2

/-- The step keeps a property of states. -/
def Keeps (I : State σ → Prop) (m : Validate σ α) : Prop := ∀ s, KeepsAt I s m

variable {I : State σ → Prop}

theorem Keeps.pure (a : α) : Keeps I (Pure.pure a : Validate σ α) := fun _ hs => hs

theorem Keeps.bind {x : Validate σ α} {f : α → Validate σ β} (hx : Keeps I x)
    (hf : ∀ a, Keeps I (f a)) : Keeps I (x >>= f) :=
  fun s hs => hf (x s).1 (x s).2 (hx s hs)

theorem Keeps.ite {c : Prop} [Decidable c] {x y : Validate σ α} (hx : Keeps I x)
    (hy : Keeps I y) : Keeps I (if c then x else y) := by
  split
  · exact hx
  · exact hy

/-- A step that is taken only under a condition, before others. -/
theorem Keeps.guard {c : Prop} [Decidable c] {x : Validate σ Unit} {f : Unit → Validate σ β}
    (hx : Keeps I x) (hf : ∀ a, Keeps I (f a)) : Keeps I (if c then x >>= f else f ()) :=
  Keeps.ite (hx.bind hf) (hf ())

theorem Keeps.get {f : State σ → Validate σ β} (hf : ∀ s, KeepsAt I s (f s)) :
    Keeps I (MonadStateOf.get >>= f) := hf

theorem Keeps.setThen {s t : State σ} {f : PUnit → Validate σ β} (ht : I s → I t)
    (hf : Keeps I (f ())) : KeepsAt I s (MonadStateOf.set t >>= f) :=
  fun hs => hf t (ht hs)

theorem Keeps.forM {f : α → Validate σ PUnit} (hf : ∀ a, Keeps I (f a)) (l : List α) :
    Keeps I (l.forM f) := by
  induction l with
  | nil => exact Keeps.pure _
  | cons a l ih => exact (hf a).bind fun _ => ih

theorem Keeps.mapM {f : α → Validate σ β} (hf : ∀ a, Keeps I (f a)) (l : List α) :
    Keeps I (l.mapM f) := by
  induction l with
  | nil => exact Keeps.pure _
  | cons a l ih =>
    rw [List.mapM_cons]
    exact (hf a).bind fun _ => ih.bind fun _ => Keeps.pure _

namespace IsIndifferent

variable {env : Env σ} (hI : IsIndifferent env I)

include hI

theorem keeps_report (issue : Issue) (p : Position) (message : Bytes) :
    Keeps I (report issue p message : Validate σ Unit) := fun s hs => hI.problems s _ hs

theorem keeps_setPage {f : PageInfo → PageInfo} (hf : ∀ p, (f p).tag.isSome = p.tag.isSome) :
    Keeps I (setPage f : Validate σ Unit) := fun s hs => hI.page s _ (hf s.page) hs

theorem keeps_setTag (f : TagInfo → TagInfo) : Keeps I (setTag f : Validate σ Unit) :=
  hI.keeps_setPage fun _ => Option.isSome_map

theorem keeps_remember (h : Head) (a : Attribute) : Keeps I (remember h a : Validate σ Bool) := by
  refine Keeps.get fun s => ?_
  split
  · exact Keeps.setThen (hI.notes s _ _ _) (Keeps.pure _)
  · exact Keeps.ite (Keeps.pure _) ((hI.keeps_report _ _ _).bind fun _ => Keeps.pure _) s

theorem keeps_declare (name : Bytes) (p : Position) :
    Keeps I (declare name p : Validate σ Bool) := by
  refine Keeps.get fun s => ?_
  split
  · exact ((hI.keeps_report _ _ _).bind fun _ => Keeps.pure _) s
  · exact Keeps.setThen (hI.notes s _ _ _) (Keeps.pure _)

theorem keeps_setBuffer (a : Attribute) : Keeps I (setBuffer a : Validate σ Unit) := by
  refine Keeps.ite (hI.keeps_setPage fun _ => rfl) ?_
  split
  · exact hI.keeps_report _ _ _
  split
  · exact hI.keeps_report _ _ _
  · exact hI.keeps_setPage fun _ => rfl

theorem keeps_applyAttribute (a : Attribute) : Keeps I (applyAttribute a : Validate σ Unit) := by
  have hset : ∀ f : PageInfo → PageInfo, (∀ p, (f p).tag = p.tag) →
      Keeps I (setPage f : Validate σ Unit) := fun f hf =>
    hI.keeps_setPage fun p => congrArg Option.isSome (hf p)
  refine Keeps.ite (hset _ fun _ => rfl) <| Keeps.ite (hset _ fun _ => rfl) <|
    Keeps.ite (hset _ fun _ => rfl) <| Keeps.ite (hset _ fun _ => rfl) <|
    Keeps.ite (hI.keeps_setBuffer a) <| Keeps.ite (hset _ fun _ => rfl) <|
    Keeps.ite (hset _ fun _ => rfl) <| Keeps.ite (hset _ fun _ => rfl) <|
    Keeps.ite (hset _ fun _ => rfl) <| Keeps.ite (hset _ fun _ => rfl) <|
    Keeps.ite (hI.keeps_setTag _) <| Keeps.ite (hI.keeps_setTag _) <| Keeps.ite ?_ <|
    Keeps.ite (hI.keeps_setTag _) (Keeps.pure _)
  exact (hI.keeps_setTag _).bind fun _ => (hI.keeps_declare _ _).bind fun _ => Keeps.pure _

theorem keeps_mergeAttribute (h : Head) (a : Attribute) :
    Keeps I (mergeAttribute h a : Validate σ Unit) := by
  refine Keeps.ite (hI.keeps_setPage fun _ => rfl) ?_
  exact (hI.keeps_remember _ _).bind fun _ =>
    Keeps.ite (hI.keeps_applyAttribute _) (Keeps.pure _)

theorem isInvariant : IsInvariant env I where
  report := hI.problems
  merge s h a _ hs := hI.keeps_mergeAttribute h a s hs
  prefixes s _ hs := hI.page s _ rfl hs
  functions s _ hs := hI.page s _ rfl hs
  contract s _ _ hs := hI.page s _ Option.isSome_map hs
  declare s _ _ hs := hI.notes s _ _ _ hs
  invoke s _ hs := hI.notes s _ _ _ hs
  memory := hI.memory

end IsIndifferent

/-- No step turns a page into a tag file. -/
theorem isIndifferent_mergedKind (env : Env σ) (k : Kind) :
    IsIndifferent env fun s : State σ => s.mergedKind = k := by
  refine ⟨fun _ _ h => h, fun s p hp h => ?_, fun _ _ _ _ h => h, fun _ _ _ _ h => h⟩
  rw [← h, State.mergedKind, State.mergedKind, hp]

theorem mergedKind_applyAttribute (a : Attribute) (s : State σ) :
    (applyAttribute a s).2.mergedKind = s.mergedKind :=
  (isIndifferent_mergedKind ⟨none, fun _ _ => none⟩ _).keeps_applyAttribute a s rfl

theorem mergedKind_mergeAttribute (h : Head) (a : Attribute) (s : State σ) :
    (mergeAttribute h a s).2.mergedKind = s.mergedKind :=
  (isIndifferent_mergedKind ⟨none, fun _ _ => none⟩ _).keeps_mergeAttribute h a s rfl

section Checks

variable {env : Env σ} (hI : IsStable env I)

include hI

/-! ### Functions and attributes -/

theorem keeps_report (issue : Issue) (p : Position) (message : Bytes) :
    Keeps I (report issue p message : Validate σ Unit) := fun s hs => hI.report s _ hs

theorem keeps_addPrefix (prefixName uri : Bytes) :
    Keeps I (addPrefix prefixName uri : Validate σ Unit) := by
  intro s hs
  show I { s with page := if _ then _ else _ }
  split
  · exact hs
  · exact hI.prefixes s _ hs

theorem keeps_functionCall (p : Position) (f : Expression.FunctionRef) :
    Keeps I (functionCall env p f) := by
  refine Keeps.get fun s => ?_
  dsimp only
  split
  · exact Keeps.pure _ s
  split
  · exact keeps_report hI _ _ _ s
  split
  · exact keeps_report hI _ _ _ s
  next q hq =>
  refine Keeps.setThen (hI.memory q hq s f.uri) ?_
  split
  · exact keeps_report hI _ _ _
  split
  · exact keeps_report hI _ _ _
  · exact fun s hs => hI.functions s _ hs

theorem keeps_expression (e : Option Expression) (p : Position) :
    Keeps I (expression env e p) := by
  unfold expression
  split
  · exact Keeps.pure _
  · exact Keeps.forM (keeps_functionCall hI p) _

theorem keeps_checkInline (h : Head) (sigs : List Signature) (a : Attribute) :
    Keeps I (checkInline env h sigs a) := by
  unfold checkInline
  split
  · exact (keeps_report hI _ _ _).bind fun _ => Keeps.pure _
  refine Keeps.ite ((keeps_report hI _ _ _).bind fun _ => Keeps.pure _) ?_
  refine Keeps.guard (keeps_report hI _ _ _) fun _ => ?_
  exact Keeps.guard (keeps_expression hI _ _) fun _ => Keeps.pure _

theorem keeps_checkNamed (h : Head) (sigs : List Signature) (seen : List Bytes)
    (cs : List Node) : Keeps I (checkNamed h sigs seen cs : Validate σ Bool) := by
  induction cs generalizing seen with
  | nil => exact Keeps.pure _
  | cons c cs ih =>
    have hdone := fun seen => (ih seen).bind fun _ => Keeps.pure (I := I) false
    refine Keeps.ite (ih _) (Keeps.ite ((keeps_report hI _ _ _).bind fun _ => hdone _) ?_)
    refine Keeps.ite ((keeps_report hI _ _ _).bind fun _ => hdone _) ?_
    exact Keeps.ite ((keeps_report hI _ _ _).bind fun _ => hdone _) (ih _)

theorem keeps_checkSignature (h : Head) (cs : List Node) :
    Keeps I (checkSignature env h cs) := by
  refine (Keeps.mapM (keeps_checkInline hI _ _) _).bind fun inline => ?_
  refine (keeps_checkNamed hI _ _ _ _).bind fun named => ?_
  exact (Keeps.forM (fun _ => keeps_report hI _ _ _) _).bind fun _ => Keeps.pure _

/-! ### Actions and tags -/

theorem keeps_checkBean (h : Head) : Keeps I (checkBean h : Validate σ Unit) :=
  Keeps.ite (keeps_report hI _ _ _) <| Keeps.ite (keeps_report hI _ _ _) <|
    Keeps.ite (keeps_report hI _ _ _) (Keeps.pure _)

theorem keeps_checkInvocation (h : Head) : Keeps I (checkInvocation h : Validate σ Unit) := by
  refine Keeps.get fun s => (?_ : Keeps I _) s
  refine Keeps.ite (keeps_report hI _ _ _) ?_
  refine Keeps.guard (keeps_report hI _ _ _) fun _ => ?_
  refine Keeps.guard (keeps_report hI _ _ _) fun _ => ?_
  exact fun s hs => hI.invoke s _ hs

theorem keeps_checkAction (parent : Kind) (h : Head) (cs : List Node) :
    Keeps I (checkAction env parent h cs) := by
  refine (keeps_checkSignature hI _ _).bind fun _ => ?_
  split
  case h_4 => exact keeps_checkBean hI _
  case h_6 => exact keeps_checkInvocation hI _
  case h_7 => exact keeps_checkInvocation hI _
  case h_8 => exact Keeps.pure _
  all_goals exact Keeps.ite (keeps_report hI _ _ _) (Keeps.pure _)

theorem keeps_checkAttribute (d : TagDescriptor) (h : Head) (cs : List Node) (data : TagData)
    (a : Attribute) : Keeps I (checkAttribute env d h cs data a) := by
  have hrefused : ∀ issue p message, Keeps I (do
      report issue p message
      return ⟨false, a, data⟩ : Validate σ CheckedAttribute) := fun issue p message =>
    (keeps_report hI issue p message).bind fun _ => Keeps.pure _
  refine Keeps.ite (hrefused _ _ _) (Keeps.ite (hrefused _ _ _) ?_)
  split
  · exact hrefused _ _ _
  · exact Keeps.guard (keeps_expression hI _ _) fun _ => Keeps.pure _

theorem keeps_checkInlineAttributes (d : TagDescriptor) (h : Head) (cs : List Node)
    (data : TagData) (as : List Attribute) :
    Keeps I (checkInlineAttributes env d h cs data as) := by
  induction as generalizing data with
  | nil => exact Keeps.pure _
  | cons a as ih =>
    refine Keeps.ite ((ih _).bind fun _ => Keeps.pure _) ?_
    exact (keeps_checkAttribute hI _ _ _ _ _).bind fun _ => (ih _).bind fun _ => Keeps.pure _

theorem keeps_checkNamedAttribute (d : TagDescriptor) (h : Head) (cs : List Node) (data : TagData)
    (i : Nat) (n : Head) : Keeps I (checkNamedAttribute env d h cs data i n) := by
  unfold checkNamedAttribute
  dsimp only
  split
  · refine Keeps.ite ((keeps_checkAttribute hI _ _ _ _ _).bind fun _ => Keeps.pure _) ?_
    exact (keeps_report hI _ _ _).bind fun _ => Keeps.pure _
  · exact (keeps_checkAttribute hI _ _ _ _ _).bind fun _ => Keeps.pure _

theorem keeps_checkNamedAttributes (d : TagDescriptor) (cs : List Node) (h : Head)
    (data : TagData) (i : Nat) (ns : List Node) :
    Keeps I (checkNamedAttributes env d cs h data i ns) := by
  induction ns generalizing h data i with
  | nil => exact Keeps.pure _
  | cons n ns ih =>
    exact Keeps.ite ((keeps_checkNamedAttribute hI _ _ _ _ _ _).bind fun _ => ih _ _ _) (ih _ _ _)

theorem keeps_checkVariables (d : TagDescriptor) (h : Head) (data : TagData) :
    Keeps I (checkVariables d h data : Validate σ (List VariableBinding)) := by
  unfold checkVariables
  split
  · exact Keeps.pure _
  all_goals exact (keeps_report hI _ _ _).bind fun _ => Keeps.pure _

theorem keeps_checkTag (t : CustomTag) (d : TagDescriptor) (nesting : Nat) (h : Head)
    (cs : List Node) : Keeps I (checkTag env t d nesting h cs) := by
  have hrest : ∀ (h : Head) (data : TagData), Keeps I (do
      let vars ← checkVariables d h data
      addPrefix t.prefixName t.uri
      return { h with tag := some { t with nesting := nesting, data := data, vars := vars } } :
        Validate σ Head) := fun h data =>
    (keeps_checkVariables hI d h data).bind fun _ => (keeps_addPrefix hI _ _).bind fun _ =>
      Keeps.pure _
  refine (keeps_checkInlineAttributes hI _ _ _ _ _).bind fun r => ?_
  refine (keeps_checkNamedAttributes hI _ _ _ _ _ _).bind fun r' => ?_
  refine (Keeps.forM (fun _ => keeps_report hI _ _ _) _).bind fun _ => ?_
  refine Keeps.guard (keeps_report hI _ _ _) fun _ => ?_
  split
  · exact (keeps_report hI _ _ _).bind fun _ => hrest _ _
  · exact hrest _ _

theorem keeps_attributeInfo (h : Head) (scope : Scope) :
    Keeps I (attributeInfo h scope : Validate σ ChildInfo) := by
  refine (Keeps.forM (fun a => ?_) _).bind fun _ => Keeps.pure _
  exact Keeps.ite (keeps_report hI _ _ _) (Keeps.pure _)

theorem keeps_finish (root : Head) : Keeps I (finish root : Validate σ Unit) := by
  refine Keeps.get fun s => (?_ : Keeps I _) s
  refine Keeps.guard (keeps_report hI _ _ _) fun _ => ?_
  dsimp only
  split
  · exact Keeps.pure _
  next tag _ =>
  refine (Keeps.forM (fun h => ?_) _).bind fun _ => Keeps.forM (fun v => ?_) _
  · refine Keeps.ite (Keeps.ite (keeps_report hI _ _ _) (Keeps.pure _)) ?_
    exact Keeps.ite (Keeps.pure _) (keeps_report hI _ _ _)
  · refine Keeps.ite (Keeps.pure _) ?_
    split
    · exact keeps_report hI _ _ _
    · exact Keeps.ite (keeps_report hI _ _ _) (Keeps.pure _)

/-- The children of a node, and then its attributes. -/
theorem keeps_children {h : Head} {scope : Scope} {visitChildren : Validate σ α}
    {f : α → ChildInfo → β} (hcs : Keeps I visitChildren) :
    Keeps I (do return f (← visitChildren) (← attributeInfo h scope)) :=
  hcs.bind fun _ => (keeps_attributeInfo hI _ _).bind fun _ => Keeps.pure _

end Checks

/-! ### Directives -/

section Directives

variable {env : Env σ} (hI : IsInvariant env I)

include hI

theorem keeps_setContract {f : TagInfo → TagInfo}
    (hf : ∀ t, ∃ as vs, f t = { t with attributes := as, vars := vs }) :
    Keeps I (setTag f : Validate σ Unit) := by
  intro s hs
  show I { s with page := { s.page with tag := s.page.tag.map f } }
  cases htag : s.page.tag with
  | none =>
    have hkept := hI.contract s [] [] hs
    rwa [htag] at hkept
  | some t =>
    obtain ⟨as, vs, hft⟩ := hf t
    have hkept := hI.contract s as vs hs
    rw [htag] at hkept
    rwa [Option.map_some, hft]

theorem keeps_declare (name : Bytes) (p : Position) :
    Keeps I (declare name p : Validate σ Bool) := by
  have hS := hI.toIsStable
  refine Keeps.get fun s => ?_
  split
  · exact ((keeps_report hS _ _ _).bind fun _ => Keeps.pure _) s
  · exact Keeps.setThen (hI.declare s _ _) (Keeps.pure _)

theorem keeps_mergeAttributes {h : Head} {s : State σ} (hk : h.kind = s.mergedKind)
    (as : List Attribute) : KeepsAt I s (as.forM (mergeAttribute h)) := by
  induction as generalizing s with
  | nil => exact fun hs => hs
  | cons a as ih =>
    intro hs
    exact ih (hk.trans (mergedKind_mergeAttribute h a s).symm) (hI.merge s h a hk hs)

theorem keeps_pageDirective {h : Head} {s : State σ} (hk : h.kind = s.mergedKind) :
    KeepsAt I s (pageDirective h) := by
  rw [pageDirective_eq]
  exact keeps_mergeAttributes hI hk h.attributes

theorem keeps_attributeDirective (h : Head) :
    Keeps I (attributeDirective h : Validate σ Unit) := by
  refine (keeps_declare hI _ _).bind fun free => Keeps.ite ?_ (Keeps.pure _)
  refine Keeps.guard (Keeps.forM (fun other => ?_) _) fun _ =>
    keeps_setContract hI fun t => ⟨_, t.vars, rfl⟩
  exact Keeps.ite (keeps_report hI.toIsStable _ _ _) (Keeps.pure _)

theorem keeps_variableDirective (h : Head) :
    Keeps I (variableDirective h : Validate σ Unit) := by
  have hS := hI.toIsStable
  refine Keeps.ite (keeps_report hS _ _ _) <| Keeps.ite (keeps_report hS _ _ _) <|
    Keeps.ite (keeps_report hS _ _ _) ?_
  exact (keeps_declare hI _ _).bind fun _ =>
    Keeps.ite (keeps_setContract hI fun t => ⟨t.attributes, _, rfl⟩) (Keeps.pure _)

theorem keeps_directive (h : Head) (cs : List Node) : Keeps I (directive env h cs) := by
  have hS := hI.toIsStable
  refine (keeps_checkSignature hS _ _).bind fun fine => Keeps.ite ?_ (Keeps.pure _)
  refine Keeps.get fun s => ?_
  by_cases htag : s.page.tag.isSome = true
  · have hmerged : s.mergedKind = .tagDirective := if_pos htag
    simp only [htag, Bool.not_true, Bool.false_eq_true, if_true, if_false]
    split
    · exact keeps_report hS _ _ _ s
    · exact keeps_addPrefix hS _ _ s
    iterate 3
      · split
        · next hk => exact keeps_pageDirective hI (hk.trans hmerged.symm)
        · exact keeps_attributeDirective hI _ s
        · exact keeps_variableDirective hI _ s
    · exact Keeps.pure _ s
  · have hmerged : s.mergedKind = .pageDirective := if_neg htag
    simp only [htag, Bool.not_false, Bool.false_eq_true, if_true, if_false]
    split
    · next hk => exact keeps_pageDirective hI (hk.trans hmerged.symm)
    · exact keeps_addPrefix hS _ _ s
    iterate 3
      · exact keeps_report hS _ _ _ s
    · exact Keeps.pure _ s

end Directives

/-! ### Visiting a node -/

mutual

theorem keeps_visit {env : Env σ} (hI : IsInvariant env I) (n : Node) (parent : Kind)
    (scope : Scope) : Keeps I (visit env parent scope n) := by
  match n with
  | .mk h cs =>
    have hS := hI.toIsStable
    unfold visit
    split
    iterate 3
      · exact Keeps.guard (keeps_report hS _ _ _) fun _ => Keeps.pure _
    · exact (keeps_expression hS _ _).bind fun _ => Keeps.pure _
    iterate 3
      · exact keeps_children hS (keeps_visitAll hI cs _ _)
    · exact (keeps_checkTag hS _ _ _ _ _).bind fun _ =>
        keeps_children hS (keeps_visitAll hI cs _ _)
    · refine Keeps.ite ?_ ?_
      · exact (keeps_directive hI _ _).bind fun _ =>
          keeps_children hS (keeps_visitAll hI cs _ _)
      · exact (keeps_checkAction hS _ _ _).bind fun _ =>
          keeps_children hS (keeps_visitAll hI cs _ _)

theorem keeps_visitAll {env : Env σ} (hI : IsInvariant env I) (cs : List Node) (parent : Kind)
    (scopeOf : Head → Scope) :
    Keeps I (visitAll env parent scopeOf cs) := by
  match cs with
  | [] => exact Keeps.pure _
  | .mk h ds :: cs =>
    unfold visitAll
    refine (keeps_visit hI (.mk h ds) _ _).bind fun r => ?_
    exact (keeps_visitAll hI cs parent scopeOf).bind fun _ => Keeps.pure _

end

end ServerPages.Validation

namespace ServerPages

/-! ### Validating a unit -/

/-- The state in which the validation of a unit starts. -/
def Validation.startOf {σ : Type} (problems : Collector) (root : Node) (memory : σ) :
    Validation.State σ where
  problems := problems
  page := { tag := if root.head.unit.any (·.isTagFile) then some { body := .scriptless } else none }
  memory := memory

theorem Validation.startOf_tag {σ : Type} (problems : Collector) (memory : σ) {root : Node}
    {u : UnitInfo} (hu : root.head.unit = some u) :
    (Validation.startOf problems root memory).page.tag.isSome = u.isTagFile := by
  rw [Validation.startOf, hu]
  cases h : u.isTagFile <;> simp [h]

/-- The visit of the root leaves what is known of the unit as it is. -/
theorem Validation.visit_unit {σ : Type} (env : Validation.Env σ) {h : Head}
    (hk : h.kind = .root) (cs : List Node) (parent : Kind) (scope : Validation.Scope)
    (s : Validation.State σ) :
    (Validation.visit env parent scope (.mk h cs) s).1.1.head.unit = h.unit := by
  unfold Validation.visit
  simp only [hk]
  rfl

namespace Node

variable {σ : Type} (library : Option (Bytes → σ → Except Fault TagLibrary × σ))
  (options : ValidationOptions) (memory : σ) (root : Node)

theorem page?_setPage {n : Node} {u : UnitInfo} (hu : n.head.unit = some u) (p : PageInfo) :
    (n.setPage p).page? = some p := by
  obtain ⟨h, cs⟩ := n
  show (h.unit.map ({ · with page := some p })).bind (·.page) = _
  rw [show h.unit = some u from hu]
  rfl

/-- Validation keeps what asking for libraries keeps. -/
theorem validate_memory {K : σ → Prop}
    (hK : ∀ q, library = some q → ∀ uri m, K m → K (q uri m).2) (hm : K memory) :
    K (root.validate library options memory).memory := by
  have hI : Validation.IsIndifferent ⟨library, options.binder⟩
      fun s : Validation.State σ => K s.memory :=
    ⟨fun _ _ h => h, fun _ _ _ h => h, fun _ _ _ _ h => h, fun q hq s uri h => hK q hq uri _ h⟩
  unfold validate
  split
  · exact hm
  · exact ((Validation.keeps_visit hI.isInvariant root .root {}).bind fun _ =>
      (Validation.keeps_finish hI.isInvariant.toIsStable root.head).bind fun _ =>
        Validation.Keeps.pure _) _ hm

/-- A validated unit implements a tag if it is a tag file. -/
theorem validate_tag (hk : root.kind = .root) {u : UnitInfo} (hu : root.head.unit = some u)
    (hf : (root.validate library options memory).failure = none) :
    ((root.validate library options memory).tree.page?.bind (·.tag)).isSome = u.isTagFile := by
  have hI : Validation.IsIndifferent ⟨library, options.binder⟩
      fun s : Validation.State σ => s.page.tag.isSome = u.isTagFile :=
    ⟨fun _ _ h => h, fun _ _ hp h => hp.trans h, fun _ _ _ _ h => h, fun _ _ _ _ h => h⟩
  obtain ⟨h, cs⟩ := root
  unfold validate at hf ⊢
  cases hc : Collector.empty? options.overflow options.maxErrors with
  | error e =>
    rw [hc] at hf
    cases hf
  | ok c =>
    have hkeep := ((Validation.keeps_visit hI.isInvariant (.mk h cs) .root {}).bind fun _ =>
      (Validation.keeps_finish hI.isInvariant.toIsStable h).bind fun _ =>
        Validation.Keeps.pure ())
      (Validation.startOf c (.mk h cs) memory) (Validation.startOf_tag c memory hu)
    have hunit := Validation.visit_unit (⟨library, options.binder⟩ : Validation.Env σ) hk cs
      .root {} (Validation.startOf c (.mk h cs) memory)
    exact (congrArg (fun p => (p.bind PageInfo.tag).isSome)
      (page?_setPage (hunit.trans hu) _)).trans hkeep

/-- A validated unit knows what its directives say. -/
theorem validate_page (hk : root.kind = .root) {u : UnitInfo} (hu : root.head.unit = some u)
    (hf : (root.validate library options memory).failure = none) :
    (root.validate library options memory).tree.page?.isSome := by
  obtain ⟨h, cs⟩ := root
  unfold validate at hf ⊢
  cases hc : Collector.empty? options.overflow options.maxErrors with
  | error e =>
    rw [hc] at hf
    cases hf
  | ok c =>
    have hunit := Validation.visit_unit (⟨library, options.binder⟩ : Validation.Env σ) hk cs
      .root {} (Validation.startOf c (.mk h cs) memory)
    exact congrArg Option.isSome (page?_setPage (hunit.trans hu) _)

end Node

end ServerPages
