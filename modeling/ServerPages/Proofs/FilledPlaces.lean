import ServerPages.Proofs.MappedLines
import ServerPages.Proofs.VisitSteps

/-!
# A tree with one more node

A place in a tree is a gap among the children of one of its nodes. What a node is checked for looks
at few of its children: at the heads of those that give attributes and, for an invocation of a tag,
also at whether these are literal text and whether the body is blank. So the visit of a tree with
one more node in such a gap is the visit of the tree, with a visit of the node in between, if a tag
around it does not take offence at the node (`Gap.Takes`).

## Main results

* `checkTag_alike`: checking an invocation does not depend on where its children stand.
* `visit_fill`: the visit of a tree with a node at a place.
-/

namespace ServerPages

/-! ### Places -/

/-- A node with a gap among its children. -/
structure Frame where
  /-- The node apart from its children. -/
  head : Head
  /-- The children before the gap. -/
  before : List Node
  /-- The children after the gap. -/
  after : List Node

/-- The node with some nodes in the gap. -/
def Frame.fill (f : Frame) (ns : List Node) : Node := .mk f.head (f.before ++ ns ++ f.after)

/-- A place in a tree. -/
inductive Gap where
  /-- A gap among the children of the root. -/
  | here (f : Frame)
  /-- A place in the child of the root that is in the gap. -/
  | inside (f : Frame) (g : Gap)

namespace Gap

/-- The head of the root. -/
def head : Gap → Head
  | here f => f.head
  | inside f _ => f.head

/-- The tree with some nodes at the place. -/
def fill : Gap → List Node → Node
  | here f, ns => f.fill ns
  | inside f g, ns => f.fill [g.fill ns]

/-- The nodes before the place, whole, in the order of the source. -/
def earlier : Gap → List Node
  | here f => f.before
  | inside f g => f.before ++ g.earlier

theorem head_fill (g : Gap) (ns : List Node) : (g.fill ns).head = g.head := by
  cases g <;> rfl

end Gap

namespace Node

/-- One after the other, the children give attributes with the same heads, and with the same literal
text if that matters. Among the children of the second list may be others. -/
inductive SameGivers (matters : Prop) : List Node → List Node → Prop where
  | nil : SameGivers matters [] []
  | cons {c c' : Node} {cs cs' : List Node} (head : c'.head = c.head)
    (literal : matters → c.kind = .namedAttribute → c'.literalText? = c.literalText?)
    (rest : SameGivers matters cs cs') : SameGivers matters (c :: cs) (c' :: cs')
  | other {c : Node} {cs cs' : List Node} (hc : c.kind ≠ .namedAttribute)
    (rest : SameGivers matters cs cs') : SameGivers matters cs (c :: cs')

namespace SameGivers

variable {matters : Prop} {cs cs' : List Node}

theorem refl (matters : Prop) (cs : List Node) : SameGivers matters cs cs := by
  induction cs with
  | nil => exact .nil
  | cons c cs ih => exact .cons rfl (fun _ _ => rfl) ih

theorem append (h : SameGivers matters cs cs') (before after : List Node) :
    SameGivers matters (before ++ cs ++ after) (before ++ cs' ++ after) := by
  rw [List.append_assoc, List.append_assoc]
  induction before with
  | nil =>
    induction h with
    | nil => exact refl _ _
    | cons head literal _ ih => exact .cons head literal ih
    | other hc _ ih => exact .other hc ih
  | cons b before ih => exact .cons rfl (fun _ _ => rfl) ih

theorem any_givesAttribute (h : SameGivers matters cs cs') (name : Bytes) :
    cs'.any (·.givesAttribute name) = cs.any (·.givesAttribute name) := by
  induction h with
  | nil => rfl
  | @cons c c' _ _ head _ _ ih =>
    have hc : c'.givesAttribute name = c.givesAttribute name := by
      rw [givesAttribute, givesAttribute, kind, kind, head]
    rw [List.any_cons, List.any_cons, hc, ih]
  | @other c _ _ hc _ ih =>
    have hgives : c.givesAttribute name = false := by simp [givesAttribute, hc]
    rw [List.any_cons, hgives, ih, Bool.false_or]

end SameGivers

end Node

/-- An attribute without the number of the child that gives it. -/
def Attribute.unplaced (a : Attribute) : Attribute := { a with child := none }

namespace Validation

variable {σ α β : Type} {env : Env σ}

/-! ### Signatures -/

section SameGivers

variable {matters : Prop} {cs cs' : List Node}

theorem isSupplied_alike (hsame : Node.SameGivers matters cs cs') (h : Head) (name : Bytes) :
    isSupplied h cs' name = isSupplied h cs name := by
  rw [isSupplied, isSupplied, hsame.any_givesAttribute]

theorem checkNamed_alike (hsame : Node.SameGivers matters cs cs') (h : Head)
    (sigs : List Signature) (seen : List Bytes) :
    (checkNamed h sigs seen (Node.namedAttributes cs') : Validate σ Bool) =
      checkNamed h sigs seen (Node.namedAttributes cs) := by
  unfold Node.namedAttributes
  induction hsame generalizing seen with
  | nil => rfl
  | @cons c c' cs cs' head _ _ ih =>
    rw [List.filter_cons, List.filter_cons, Node.kind, Node.kind, head]
    split
    · simp only [checkNamed, ih, head, Node.start]
    · exact ih seen
  | @other c _ _ hc _ ih =>
    rw [List.filter_cons, if_neg (by simpa using hc)]
    exact ih seen

theorem checkSignature_alike (hsame : Node.SameGivers matters cs cs') (h : Head) :
    checkSignature env h cs' = checkSignature env h cs := by
  unfold checkSignature
  simp only [checkNamed_alike hsame, isSupplied_alike hsame]

theorem directive_alike (hsame : Node.SameGivers matters cs cs') (h : Head) :
    directive env h cs' = directive env h cs := by
  unfold directive
  rw [checkSignature_alike hsame]

theorem checkAction_alike (hsame : Node.SameGivers matters cs cs') (parent : Kind) (h : Head) :
    checkAction env parent h cs' = checkAction env parent h cs := by
  unfold checkAction
  simp only [checkSignature_alike hsame, isSupplied_alike hsame]

end SameGivers

/-! ### Invocations of tags -/

/-- Two steps leave the same state, and their values are related. -/
def Alike (P : α → β → Prop) (x : Validate σ α) (y : Validate σ β) : Prop :=
  ∀ s, (y s).2 = (x s).2 ∧ P (x s).1 (y s).1

section Alike

variable {α' β' : Type} {P : α → β → Prop} {Q : α' → β' → Prop}

theorem Alike.pure {a : α} {b : β} (h : P a b) :
    Alike P (Pure.pure a : Validate σ α) (Pure.pure b : Validate σ β) := fun _ => ⟨rfl, h⟩

theorem Alike.bind {x : Validate σ α} {y : Validate σ β} {f : α → Validate σ α'}
    {g : β → Validate σ β'} (hxy : Alike P x y) (hfg : ∀ a b, P a b → Alike Q (f a) (g b)) :
    Alike Q (x >>= f) (y >>= g) := by
  intro s
  obtain ⟨hstate, hvalue⟩ := hxy s
  have hrest := hfg _ _ hvalue (x s).2
  show ((g (y s).1 (y s).2).2 = _ ∧ Q _ (g (y s).1 (y s).2).1)
  rw [hstate]
  exact hrest

/-- The same step before others. -/
theorem Alike.after {x : Validate σ α} {f : α → Validate σ α'} {g : α → Validate σ β'}
    (hfg : ∀ a, Alike Q (f a) (g a)) : Alike Q (x >>= f) (x >>= g) :=
  fun s => hfg (x s).1 (x s).2

/-- The same step before others, which may rely on what its value has from any state. -/
theorem Alike.given {x : Validate σ α} {I : α → Prop} (hx : Gives I x) {f : α → Validate σ α'}
    {g : α → Validate σ β'} (hfg : ∀ a, I a → Alike Q (f a) (g a)) :
    Alike Q (x >>= f) (x >>= g) :=
  fun s => hfg (x s).1 (hx s) (x s).2

theorem Alike.ite {c : Prop} [Decidable c] {x x' : Validate σ α} {y y' : Validate σ β}
    (hx : Alike P x y) (hy : Alike P x' y') :
    Alike P (if c then x else x') (if c then y else y') := by
  split
  · exact hx
  · exact hy

end Alike

/-- What is checked of an attribute does not depend on the number of the child that gives it. -/
theorem checkAttribute_alike {d : TagDescriptor} {h : Head} {cs cs' : List Node} {a : Attribute}
    {j : Option Nat} (as : List Attribute) (data : TagData)
    (hliteral : literalValue? cs' { a with child := j } = literalValue? cs a) :
    Alike (fun c c' => c'.isFine = c.isFine ∧ c'.data = c.data ∧
        c' = { c with bound := { c.bound with child := j } } ∧ c.bound.child = a.child)
      (checkAttribute env d h cs data a)
      (checkAttribute env d { h with attributes := as } cs' data { a with child := j }) := by
  unfold checkAttribute
  rw [hliteral]
  refine Alike.ite (Alike.after fun _ => Alike.pure ⟨rfl, rfl, rfl, rfl⟩) <|
    Alike.ite (Alike.after fun _ => Alike.pure ⟨rfl, rfl, rfl, rfl⟩) ?_
  cases env.binder d a.name with
  | none => exact Alike.after fun _ => Alike.pure ⟨rfl, rfl, rfl, rfl⟩
  | some setter =>
    exact Alike.ite (Alike.after fun _ => Alike.pure ⟨rfl, rfl, rfl, rfl⟩)
      (Alike.pure ⟨rfl, rfl, rfl, rfl⟩)

theorem checkInlineAttributes_alike (d : TagDescriptor) (h : Head) (cs cs' : List Node)
    (data : TagData) {as : List Attribute} (has : ∀ a ∈ as, a.kind ≠ .named) :
    checkInlineAttributes env d h cs' data as = checkInlineAttributes env d h cs data as := by
  induction as generalizing data with
  | nil => rfl
  | cons a as ih =>
    obtain ⟨ha, has⟩ := List.forall_mem_cons.mp has
    have hliteral : literalValue? cs' a = literalValue? cs a := by
      unfold literalValue?
      split
      · rfl
      · next hk => exact absurd hk ha
      · rfl
    have hattribute : checkAttribute env d h cs' data a = checkAttribute env d h cs data a := by
      unfold checkAttribute
      rw [hliteral]
    unfold checkInlineAttributes
    rw [hattribute]
    simp only [ih _ has]

/-- The same attributes, given by children before those with the numbers `i` and `i'`. -/
structure Renumbered (i i' : Nat) (as as' : List Attribute) : Prop where
  same : as'.map Attribute.unplaced = as.map Attribute.unplaced
  before : NamedBefore i as
  before' : NamedBefore i' as'

section Renumbered

variable {i i' : Nat} {as as' : List Attribute}

theorem find?_unplaced (hsame : as'.map Attribute.unplaced = as.map Attribute.unplaced)
    (name : Bytes) : (as'.find? (·.name == name)).map Attribute.unplaced =
      (as.find? (·.name == name)).map Attribute.unplaced := by
  have hfind : ∀ bs : List Attribute, (bs.find? (·.name == name)).map Attribute.unplaced =
      (bs.map Attribute.unplaced).find? (·.name == name) := by
    intro bs
    rw [List.find?_map]
    rfl
  rw [hfind, hfind, hsame]

/-- Which attributes there are does not depend on the numbers of the children that give them. -/
theorem isSupplied_unplaced {matters : Prop} {cs cs' : List Node}
    (hgivers : Node.SameGivers matters cs cs') (h : Head)
    (hsame : as'.map Attribute.unplaced = as.map Attribute.unplaced) (name : Bytes) :
    isSupplied { h with attributes := as' } cs' name =
      isSupplied { h with attributes := as } cs name := by
  have hattr : ({ h with attributes := as' } : Head).hasAttr name =
      ({ h with attributes := as } : Head).hasAttr name := by
    have hfind := congrArg Option.isSome (find?_unplaced hsame name)
    rwa [Option.isSome_map, Option.isSome_map] at hfind
  rw [isSupplied_alike hgivers, isSupplied, isSupplied, hattr]

theorem Renumbered.succ (h : Renumbered i i' as as') : Renumbered (i + 1) (i' + 1) as as' :=
  ⟨h.same, h.before.succ, h.before'.succ⟩

theorem Renumbered.append (h : Renumbered i i' as as') {a : Attribute} (ha : a.child = some i) :
    Renumbered (i + 1) (i' + 1) (as ++ [a]) (as' ++ [{ a with child := some i' }]) := by
  refine ⟨?_, fun b hb hk => ?_, fun b hb hk => ?_⟩
  · rw [List.map_append, List.map_append, h.same]
    rfl
  · obtain hb | hb := List.mem_append.mp hb
    · exact h.before.succ b hb hk
    · obtain rfl := List.mem_singleton.mp hb
      exact ⟨i, Nat.lt_succ_self i, ha⟩
  · obtain hb | hb := List.mem_append.mp hb
    · exact h.before'.succ b hb hk
    · obtain rfl := List.mem_singleton.mp hb
      exact ⟨i', Nat.lt_succ_self i', rfl⟩

theorem checkNamedAttribute_alike (hsame : Renumbered i i' as as') {d : TagDescriptor} {h n : Head}
    {cs cs' : List Node} (data : TagData)
    (hliteral : ∀ a : Attribute, a.kind = .named → a.child = some i →
      literalValue? cs' { a with child := some i' } = literalValue? cs a) :
    Alike (fun r r' => ∃ bs bs', r = ({ h with attributes := bs }, r.2) ∧
        r' = ({ h with attributes := bs' }, r.2) ∧ Renumbered (i + 1) (i' + 1) bs bs')
      (checkNamedAttribute env d { h with attributes := as } cs data i n)
      (checkNamedAttribute env d { h with attributes := as' } cs' data i' n) := by
  have hfind := find?_unplaced hsame.same n.attributeName
  unfold checkNamedAttribute
  cases hattr : ({ h with attributes := as } : Head).attr? n.attributeName with
  | some a =>
    obtain ⟨a', hattr'⟩ : ∃ a', ({ h with attributes := as' } : Head).attr? n.attributeName =
        some a' := by
      rw [show as.find? (·.name == n.attributeName) = some a from hattr] at hfind
      obtain ⟨a', ha', -⟩ := Option.map_eq_some_iff.mp hfind
      exact ⟨a', ha'⟩
    have hkind : a'.kind = a.kind := by
      rw [show as.find? (·.name == n.attributeName) = some a from hattr,
        show as'.find? (·.name == n.attributeName) = some a' from hattr', Option.map_some,
        Option.map_some] at hfind
      have hunplaced : a'.unplaced = a.unplaced := Option.some.inj hfind
      exact (congrArg Attribute.kind hunplaced : a'.unplaced.kind = a.unplaced.kind)
    have hnot := hsame.before.not_same (h := { h with attributes := as }) hattr
    have hnot' := hsame.before'.not_same (h := { h with attributes := as' }) hattr'
    rw [hkind] at hnot'
    simp only [hattr, hattr', if_neg hnot, if_neg hnot', hkind]
    exact Alike.after fun _ => Alike.pure ⟨as, as', rfl, rfl, hsame.succ⟩
  | none =>
    have hattr' : ({ h with attributes := as' } : Head).attr? n.attributeName = none := by
      rw [show as.find? (·.name == n.attributeName) = none from hattr] at hfind
      exact Option.map_eq_none_iff.mp hfind
    simp only [hattr, hattr']
    refine Alike.bind (checkAttribute_alike as' data (hliteral _ rfl rfl)) ?_
    rintro c _ ⟨-, -, rfl, hchild⟩
    dsimp only
    cases c.isFine with
    | true => exact Alike.pure ⟨_, _, rfl, rfl, hsame.append hchild⟩
    | false => exact Alike.pure ⟨as, as', rfl, rfl, hsame.succ⟩

/-- A child that gives no attribute is passed over. -/
theorem checkNamedAttributes_other {d : TagDescriptor} {h : Head} {cs ns : List Node} {c : Node}
    (hc : c.kind ≠ .namedAttribute) {data : TagData} (i : Nat) :
    checkNamedAttributes env d cs h data i (c :: ns) =
      checkNamedAttributes env d cs h data (i + 1) ns := by
  rw [checkNamedAttributes, if_neg (by simp [hc])]

/-- Looking at the children from some child on. -/
theorem checkNamedAttributes_alike (env : Env σ) (d : TagDescriptor) (h : Head)
    {cs cs' ns ns' : List Node} (hns : Node.SameGivers True ns ns') (before before' : List Node)
    (hcs : cs = before ++ ns) (hcs' : cs' = before' ++ ns')
    (hsame : Renumbered before.length before'.length as as') (data : TagData) :
    Alike (fun r r' => ∃ bs bs', r = ({ h with attributes := bs }, r.2) ∧
        r' = ({ h with attributes := bs' }, r.2) ∧
        bs'.map Attribute.unplaced = bs.map Attribute.unplaced)
      (checkNamedAttributes env d cs { h with attributes := as } data before.length ns)
      (checkNamedAttributes env d cs' { h with attributes := as' } data before'.length ns') := by
  induction hns generalizing before before' as as' data with
  | nil => exact Alike.pure ⟨as, as', rfl, rfl, hsame.same⟩
  | @cons c c' ns ns' hhead hliteral _ ih =>
    have hrest := fun {as as'} data
        (hren : Renumbered (before.length + 1) (before'.length + 1) as as') =>
      ih (before ++ [c]) (before' ++ [c']) (by simp [hcs]) (by simp [hcs'])
        (by simpa using hren) data
    simp only [List.length_append, List.length_singleton] at hrest
    unfold checkNamedAttributes
    rw [Node.kind, Node.kind, hhead]
    by_cases hgives : (c.head.kind == .namedAttribute && c.head.attributeName != []) = true
    · rw [if_pos hgives, if_pos hgives]
      have hk : c.kind = .namedAttribute := eq_of_beq (Bool.and_eq_true_iff.mp hgives).1
      refine Alike.bind (checkNamedAttribute_alike hsame data fun a ha hchild => ?_) ?_
      · have hc : cs[before.length]? = some c := by simp [hcs]
        have hc' : cs'[before'.length]? = some c' := by simp [hcs']
        simp [literalValue?, ha, hchild, hc, hc', hhead, hliteral trivial hk]
      · rintro ⟨_, data⟩ ⟨_, _⟩ ⟨bs, bs', hr, hr', hren⟩
        obtain ⟨rfl, -⟩ := Prod.mk.inj hr
        obtain ⟨rfl, rfl⟩ := Prod.mk.inj hr'
        exact hrest _ hren
    · rw [if_neg hgives, if_neg hgives]
      exact hrest data hsame.succ
  | @other c ns ns' hc _ ih =>
    rw [checkNamedAttributes_other hc]
    have hren : Renumbered before.length (before' ++ [c]).length as as' :=
      ⟨hsame.same, hsame.before, by simpa using hsame.before'.succ⟩
    have hrest := ih before (before' ++ [c]) hcs (by simp [hcs']) hren data
    simpa only [List.length_append, List.length_singleton] using hrest

end Renumbered

/-- An invocation with other children, which give the same attributes. -/
theorem checkTag_alike (env : Env σ) (t : CustomTag) (d : TagDescriptor) (nesting : Nat) {h : Head}
    {cs cs' : List Node} (hsame : Node.SameGivers True cs cs')
    (hinline : ∀ a ∈ h.attributes, a.kind ≠ .named)
    (hbody : d.body = .empty → Node.isBlankContent cs' = Node.isBlankContent cs) :
    Alike (fun h h' => h'.kind = h.kind ∧
        h'.attributes.map Attribute.unplaced = h.attributes.map Attribute.unplaced)
      (checkTag env t d nesting h cs) (checkTag env t d nesting h cs') := by
  unfold checkTag
  rw [checkInlineAttributes_alike d h cs cs' {} hinline]
  refine Alike.given (gives_checkInlineAttributes env d h cs {} h.attributes hinline) fun r hr => ?_
  have hnone : NamedBefore 0 r.1 := fun a ha hk => absurd hk (hr a ha)
  have hchildren := checkNamedAttributes_alike env d h hsame [] [] rfl rfl
    ⟨rfl, hnone, hnone⟩ r.2
  refine Alike.bind hchildren ?_
  rintro ⟨_, data⟩ ⟨_, _⟩ ⟨bs, bs', hr, hr', hbs⟩
  obtain ⟨rfl, -⟩ := Prod.mk.inj hr
  obtain ⟨rfl, rfl⟩ := Prod.mk.inj hr'
  have hempty : (d.body == .empty && !Node.isBlankContent cs') =
      (d.body == .empty && !Node.isBlankContent cs) := by
    cases hd : d.body == .empty with
    | true => rw [hbody (eq_of_beq hd)]
    | false => rfl
  have hrest : ∀ data : TagData, Alike (fun h h' : Head => h'.kind = h.kind ∧
      h'.attributes.map Attribute.unplaced = h.attributes.map Attribute.unplaced)
      (checkVariables d h data >>= fun vars => addPrefix t.prefixName t.uri >>= fun _ =>
        pure { h with
          attributes := bs
          tag := some { t with nesting := nesting, data := data, vars := vars } } : Validate σ Head)
      (checkVariables d h data >>= fun vars => addPrefix t.prefixName t.uri >>= fun _ =>
        pure { h with
          attributes := bs'
          tag := some { t with nesting := nesting, data := data, vars := vars } }) :=
    fun _ => Alike.after fun _ => Alike.after fun _ => Alike.pure ⟨rfl, hbs⟩
  dsimp only
  simp only [isSupplied_unplaced hsame h hbs, hempty]
  refine Alike.after fun _ => ?_
  refine Alike.ite (Alike.after fun _ => ?_) ?_
  · cases d.check.bind (· _) with
    | none => exact hrest _
    | some message => exact Alike.after fun _ => hrest _
  · cases d.check.bind (· _) with
    | none => exact hrest _
    | some message => exact Alike.after fun _ => hrest _

/-! ### What follows -/

/-- The state keeps everything of an earlier one that no step of a validation destroys. -/
def Follows (env : Env σ) (s t : State σ) : Prop := ∀ I, IsInvariant env I → I s → I t

theorem Follows.refl (s : State σ) : Follows env s s := fun _ _ h => h

theorem Follows.trans {s t u : State σ} (h : Follows env s t) (h' : Follows env t u) :
    Follows env s u := fun I hI hs => h' I hI (h I hI hs)

theorem Follows.of_keeps {m : Validate σ α} (h : ∀ I, IsInvariant env I → Keeps I m)
    (s : State σ) : Follows env s (m s).2 := fun I hI hs => h I hI s hs

theorem follows_visitAll (parent : Kind) (scopeOf : Head → Scope) (cs : List Node) (s : State σ) :
    Follows env s (visitAll env parent scopeOf cs s).2 :=
  .of_keeps (fun _ hI => keeps_visitAll hI cs parent scopeOf) s

/-- On the way from a state to another one a node is visited. -/
def Visited (env : Env σ) (n : Node) (s t : State σ) : Prop :=
  ∃ parent scope u, Follows env s u ∧ Follows env (visit env parent scope n u).2 t

theorem Visited.mono {n : Node} {s s' t t' : State σ} (h : Visited env n s' t')
    (hs : Follows env s s') (ht : Follows env t' t) : Visited env n s t := by
  obtain ⟨parent, scope, u, hu, hafter⟩ := h
  exact ⟨parent, scope, u, hs.trans hu, hafter.trans ht⟩

/-! ### Visits -/

/-- The children are the same as far as a node is checked for them. -/
structure SeesSame (h : Head) (cs cs' : List Node) : Prop where
  givers : Node.SameGivers (h.kind = .customTag) cs cs'
  inline : h.kind = .customTag → cs' = cs ∨ ∀ a ∈ h.attributes, a.kind ≠ .named
  body : h.kind = .customTag → (h.descriptor?.getD {}).body = .empty →
    Node.isBlankContent cs' = Node.isBlankContent cs

theorem SeesSame.refl (h : Head) (cs : List Node) : SeesSame h cs cs :=
  ⟨.refl _ _, fun _ => .inl rfl, fun _ _ => rfl⟩

theorem attributeInfo_congr {h h' : Head}
    (hsame : h'.attributes.map Attribute.unplaced = h.attributes.map Attribute.unplaced)
    (scope : Scope) : (attributeInfo h' scope : Validate σ ChildInfo) = attributeInfo h scope := by
  have hscripts : ∀ as : List Attribute,
      (as.filter (·.kind == .script)).map Attribute.unplaced =
        (as.map Attribute.unplaced).filter (·.kind == .script) := by
    intro as
    rw [List.filter_map]
    rfl
  have heach : ∀ (l : List Attribute) (f : Attribute → Validate σ PUnit),
      (∀ a, f a.unplaced = f a) → l.forM f = (l.map Attribute.unplaced).forM f := by
    intro l f hf
    induction l with
    | nil => rfl
    | cons a l ih =>
      show (f a >>= fun _ => l.forM f) =
        (f a.unplaced >>= fun _ => (l.map Attribute.unplaced).forM f)
      rw [hf, ih]
  have hempty : ∀ l : List Attribute, l.isEmpty = (l.map Attribute.unplaced).isEmpty :=
    fun l => by cases l <;> rfl
  unfold attributeInfo
  dsimp only
  rw [heach _ _ fun _ => rfl, heach (h.attributes.filter _) _ fun _ => rfl,
    hempty (h'.attributes.filter _), hempty (h.attributes.filter _), hscripts, hscripts, hsame]

theorem visit_eq_checkNode {h : Head} (hbody : h.kind.allowsBody = true)
    (htag : h.kind ≠ .customTag) (parent : Kind) (scope : Scope) (cs : List Node) (s : State σ) :
    (visit env parent scope (.mk h cs) s).2 = (attributeInfo h scope
      (visitAll env h.kind (fun _ => scope) cs (checkNode env parent h cs s).2).2).2 := by
  unfold visit checkNode
  cases hk : h.kind
  all_goals first | rfl | exact absurd hk htag | (rw [hk] at hbody; cases hbody)

/-- The visit of a node that may have children is a visit of these, with steps before and after that
are the same for all children that the node is checked for in the same way. -/
theorem visit_children (env : Env σ) {h : Head} (hbody : h.kind.allowsBody = true)
    {cs cs' : List Node}
    (hsame : SeesSame h cs cs') (parent : Kind) (scope : Scope) (s : State σ) :
    ∃ (k : Kind) (scopeOf : Head → Scope) (t : State σ) (finish : State σ → State σ),
      Follows env s t ∧ (∀ u, Follows env u (finish u)) ∧
      ∀ ds, ds = cs ∨ ds = cs' →
        (visit env parent scope (.mk h ds) s).2 = finish (visitAll env k scopeOf ds t).2 := by
  have hinfo : ∀ (h : Head) (u : State σ), Follows env u (attributeInfo h scope u).2 := fun h =>
    .of_keeps fun _ hI => keeps_attributeInfo hI.toIsStable h scope
  by_cases htag : h.kind = .customTag
  · let tag := h.tag.getD ⟨[], [], [], none, false, 0, [], {}, {}⟩
    let d := tag.descriptor.getD {}
    let check := checkTag env tag d scope.nesting h
    refine ⟨(check cs s).1.kind, childScope d scope, (check cs s).2,
      fun u => (attributeInfo (check cs s).1 scope u).2,
      .of_keeps (fun _ hI => keeps_checkTag hI.toIsStable _ _ _ _ _) s, hinfo _, ?_⟩
    intro ds hds
    obtain ⟨hstate, hkind, hattributes⟩ : (check ds s).2 = (check cs s).2 ∧
        (check ds s).1.kind = (check cs s).1.kind ∧ (check ds s).1.attributes.map
          Attribute.unplaced = (check cs s).1.attributes.map Attribute.unplaced := by
      rcases hds with rfl | rfl
      · exact ⟨rfl, rfl, rfl⟩
      rcases hsame.inline htag with rfl | hinline
      · exact ⟨rfl, rfl, rfl⟩
      have hgivers : Node.SameGivers True cs ds := by simpa [htag] using hsame.givers
      have hd : h.descriptor?.getD {} = d := by
        unfold Head.descriptor?
        cases ht : h.tag <;> simp [d, tag, ht]
      exact checkTag_alike env tag d scope.nesting hgivers hinline (hd ▸ hsame.body htag) s
    unfold visit
    simp only [htag]
    show (attributeInfo (check ds s).1 scope
      (visitAll env (check ds s).1.kind (childScope d scope) ds (check ds s).2).2).2 = _
    rw [hstate, hkind, attributeInfo_congr hattributes]
  · refine ⟨h.kind, fun _ => scope, (checkNode env parent h cs s).2,
      fun u => (attributeInfo h scope u).2, .of_keeps (fun I hI => ?_) s, hinfo h, ?_⟩
    · unfold checkNode
      exact Keeps.ite (Keeps.pure ()) (Keeps.ite (keeps_directive hI h cs)
        (keeps_checkAction hI.toIsStable parent h cs))
    · intro ds hds
      have hcheck : checkNode env parent h ds = checkNode env parent h cs := by
        rcases hds with rfl | rfl
        · rfl
        · unfold checkNode
          rw [directive_alike hsame.givers, checkAction_alike hsame.givers]
      rw [visit_eq_checkNode hbody htag, hcheck]

theorem visitAll_cons_state (parent : Kind) (scopeOf : Head → Scope) (c : Node) (cs : List Node)
    (s : State σ) : (visitAll env parent scopeOf (c :: cs) s).2 =
      (visitAll env parent scopeOf cs (visit env parent (scopeOf c.head) c s).2).2 := by
  rw [visitAll_cons]
  rfl

theorem visitAll_append (parent : Kind) (scopeOf : Head → Scope) (cs ds : List Node)
    (s : State σ) : (visitAll env parent scopeOf (cs ++ ds) s).2 =
      (visitAll env parent scopeOf ds (visitAll env parent scopeOf cs s).2).2 := by
  induction cs generalizing s with
  | nil =>
    rw [visitAll]
    rfl
  | cons c cs ih => rw [List.cons_append, visitAll_cons_state, ih, visitAll_cons_state]

/-- Every one of some children is visited. -/
theorem visited_of_mem {parent : Kind} {scopeOf : Head → Scope} {cs : List Node} {c : Node}
    (hc : c ∈ cs) (s : State σ) : Visited env c s (visitAll env parent scopeOf cs s).2 := by
  obtain ⟨before, after, rfl⟩ := List.append_of_mem hc
  rw [visitAll_append, visitAll_cons_state]
  exact ⟨_, _, _, follows_visitAll _ _ before s, follows_visitAll _ _ after _⟩

/-- Every node of a tree is visited. -/
theorem Visited.of_mem_all {m n : Node} (hm : m ∈ n.all) {s t : State σ}
    (h : Visited env n s t) : Visited env m s t := by
  match n with
  | .mk hd cs =>
    rw [Node.all_mk] at hm
    obtain rfl | hm := List.mem_cons.mp hm
    · exact h
    by_cases hbody : hd.kind.allowsBody = true
    · rw [if_pos hbody] at hm
      obtain ⟨c, hc, hm⟩ := List.mem_flatMap.mp hm
      obtain ⟨parent, scope, u, hu, hafter⟩ := h
      obtain ⟨k, scopeOf, v, finish, hv, hfinish, hvisit⟩ :=
        visit_children env hbody (.refl hd cs) parent scope u
      rw [hvisit cs (.inl rfl)] at hafter
      have hchild : Visited env c s t :=
        (visited_of_mem hc v).mono (hu.trans hv) ((hfinish _).trans hafter)
      exact hchild.of_mem_all hm
    · rw [if_neg hbody] at hm
      cases hm

end Validation

/-! ### Trees with one more node -/

/-- A node takes other children in its gap: it may have children, and where it invokes a tag, these
do not turn an empty body into another one. -/
structure Frame.Takes (f : Frame) (ms ns : List Node) : Prop where
  allowsBody : f.head.kind.allowsBody = true
  inline : f.head.kind = .customTag → ∀ a ∈ f.head.attributes, a.kind ≠ .named
  body : f.head.kind = .customTag → (f.head.descriptor?.getD {}).body = .empty →
    Node.isBlankContent (f.fill ns).children = Node.isBlankContent (f.fill ms).children

/-- The nodes around a place take one more node there, and none turns the literal text of an
attribute of a tag into something else. -/
def Gap.Takes (n : Node) : Gap → Prop
  | .here f => f.Takes [] [n]
  | .inside f g => f.Takes [g.fill []] [g.fill [n]] ∧ g.Takes n ∧
    (f.head.kind = .customTag → g.head.kind = .namedAttribute →
      (g.fill [n]).literalText? = (g.fill []).literalText?)

namespace Validation

variable {σ : Type} {env : Env σ}

theorem visit_frame (env : Env σ) {f : Frame} {ms ns : List Node} (h : f.Takes ms ns)
    (hgivers : Node.SameGivers (f.head.kind = .customTag) ms ns) (parent : Kind) (scope : Scope)
    (s : State σ) :
    ∃ (k : Kind) (scopeOf : Head → Scope) (t : State σ) (finish : State σ → State σ),
      Follows env s t ∧ (∀ u, Follows env u (finish u)) ∧
      (∀ m ∈ f.before, Visited env m s t) ∧
      ∀ ds, ds = ms ∨ ds = ns →
        (visit env parent scope (f.fill ds) s).2 = finish (visitAll env k scopeOf ds t).2 := by
  have hsame : SeesSame f.head (f.before ++ ms ++ f.after) (f.before ++ ns ++ f.after) :=
    ⟨hgivers.append _ _, fun htag => .inr (h.inline htag), h.body⟩
  obtain ⟨k, scopeOf, t, finish, ht, hfinish, hvisit⟩ :=
    visit_children env h.allowsBody hsame parent scope s
  refine ⟨k, scopeOf, (visitAll env k scopeOf f.before t).2,
    fun u => finish (visitAll env k scopeOf f.after u).2,
    ht.trans (follows_visitAll _ _ _ _), fun u => (follows_visitAll _ _ _ u).trans (hfinish _),
    fun m hm => (visited_of_mem hm t).mono ht (.refl _), fun ds hds => ?_⟩
  have hfill : (visit env parent scope (f.fill ds) s).2 = _ :=
    hvisit (f.before ++ ds ++ f.after) (hds.imp (by rintro rfl; rfl) (by rintro rfl; rfl))
  rw [hfill, visitAll_append, visitAll_append]

/-- The visit of a tree with one more node is the one of the tree, with a visit of the node in
between, when the nodes before it have been visited. -/
theorem visit_fill (env : Env σ) (g : Gap) {n : Node} (h : g.Takes n)
    (hn : n.kind ≠ .namedAttribute)
    (parent : Kind) (scope : Scope) (s : State σ) :
    ∃ (k : Kind) (scope' : Scope) (t : State σ) (finish : State σ → State σ),
      Follows env s t ∧ (∀ u, Follows env u (finish u)) ∧
      (∀ m ∈ g.earlier, Visited env m s t) ∧
      (visit env parent scope (g.fill []) s).2 = finish t ∧
      (visit env parent scope (g.fill [n]) s).2 = finish (visit env k scope' n t).2 := by
  induction g generalizing parent scope s with
  | here f =>
    obtain ⟨k, scopeOf, t, finish, ht, hfinish, hearlier, hvisit⟩ :=
      visit_frame env h (.other hn .nil) parent scope s
    refine ⟨k, scopeOf n.head, t, finish, ht, hfinish, hearlier, ?_, ?_⟩
    · exact (hvisit [] (.inl rfl)).trans (by rw [visitAll]; rfl)
    · exact (hvisit [n] (.inr rfl)).trans (by rw [visitAll_cons_state, visitAll]; rfl)
  | inside f g ih =>
    obtain ⟨hframe, hinner, hliteral⟩ := h
    have hhead : (g.fill [n]).head = (g.fill []).head := by rw [g.head_fill, g.head_fill]
    have hgivers : Node.SameGivers (f.head.kind = .customTag) [g.fill []] [g.fill [n]] := by
      refine .cons hhead (fun htag hk => hliteral htag ?_) .nil
      rw [← hk, Node.kind, g.head_fill]
    obtain ⟨k, scopeOf, t, finish, ht, hfinish, hearlier, hvisit⟩ :=
      visit_frame env hframe hgivers parent scope s
    obtain ⟨k', scope', t', finish', ht', hfinish', hearlier', hold, hnew⟩ :=
      ih hinner k (scopeOf g.head) t
    refine ⟨k', scope', t', fun u => finish (finish' u), ht.trans ht',
      fun u => (hfinish' u).trans (hfinish _), fun m hm => ?_, ?_, ?_⟩
    · obtain hm | hm := List.mem_append.mp hm
      · exact (hearlier m hm).mono (.refl _) ht'
      · exact (hearlier' m hm).mono ht (.refl _)
    · refine (hvisit _ (.inl rfl)).trans (congrArg finish ?_)
      rw [visitAll_cons_state, g.head_fill, hold, visitAll]
      rfl
    · refine (hvisit _ (.inr rfl)).trans (congrArg finish ?_)
      rw [visitAll_cons_state, g.head_fill, hnew, visitAll]
      rfl

end Validation

end ServerPages
