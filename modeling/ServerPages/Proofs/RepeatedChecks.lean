import ServerPages.Proofs.RepeatedSteps
import ServerPages.Proofs.VisitSteps

/-!
# Checking an invocation again

The attributes of an invocation are checked in two rounds: those written in the tag, and those that
its children give with content. An attribute given with content is added to the invocation when the
contract takes it, and a further child that gives the same one is reported as a duplicate. When the
invocation is checked again, the attributes of the first time are there from the start. A child that
gave one then is recognised and checked as before. A child that was refused adds nothing and is
refused as before, unless a child after it has given the attribute: it is now a duplicate of what
stands behind it. Such a child gives its attribute in vain (`GivesInVain`), and nothing else is
reported differently.

## Main results

* `checkInlineAttributes_again`: the attributes written in the tag are checked as before.
* `checkNamedAttributes_again`: so are the children, unless one gives its attribute in vain.
* `checkTag_again`: the whole check leaves the invocation as the first one has left it.
-/

namespace ServerPages

/-- Whether a contract takes an attribute, whose value is known before the page runs or not. -/
def TagDescriptor.accepts (d : TagDescriptor) (binder : Binder) (name : Bytes) (known : Bool) :
    Bool :=
  let sig := d.attribute? name
  !(sig.isNone && !d.dynamicAttributes) &&
    !(!known && sig.any fun s => !s.dynamic && !s.fragment) && (binder d name).isSome

namespace Validation

variable {σ : Type} {env : Env σ} {d : TagDescriptor} {h h' : Head} {cs : List Node}

/-! ### One attribute -/

section Attribute

variable {a : Attribute}

/-- An attribute that the contract does not take is reported and left as it is. -/
theorem checkAttribute_of_not_accepts (env : Env σ) (d : TagDescriptor) (a : Attribute) (h : Head)
    (data : TagData)
    (hno : d.accepts env.binder a.name (literalValue? cs a).isSome = false) :
    ∃ e : Diagnostic, e.issue ≠ .duplicateNamedAttribute ∧
      checkAttribute env d h cs data a =
        (do report e.issue e.position e.message; return ⟨false, a, data⟩) := by
  have hrefused : ∀ issue p message, issue ≠ .duplicateNamedAttribute →
      ∃ e : Diagnostic, e.issue ≠ .duplicateNamedAttribute ∧
        (do report issue p message; return ⟨false, a, data⟩ : Validate σ CheckedAttribute) =
          (do report e.issue e.position e.message; return ⟨false, a, data⟩) :=
    fun issue p message hissue => ⟨⟨issue, p, message⟩, hissue, rfl⟩
  unfold checkAttribute
  dsimp only
  split
  · exact hrefused _ _ _ (by decide)
  next hdeclared =>
  split
  · exact hrefused _ _ _ (by decide)
  next hruntime =>
  split
  · exact hrefused _ _ _ (by decide)
  next hsetter =>
  rw [TagDescriptor.accepts, Option.not_isSome, Bool.eq_false_iff.mpr hdeclared,
    Bool.eq_false_iff.mpr hruntime, hsetter] at hno
  cases hno

/-- An attribute that the contract takes is bound. -/
theorem checkAttribute_of_accepts (h : Head) (data : TagData)
    (hok : d.accepts env.binder a.name (literalValue? cs a).isSome = true) :
    ∃ setter data', env.binder d a.name = some setter ∧ checkAttribute env d h cs data a = (do
      if a.kind == .el then expression env a.el a.position
      return ⟨true, { a with
        setter := setter
        fragment := (d.attribute? a.name).any (·.fragment) }, data'⟩) := by
  unfold TagDescriptor.accepts at hok
  simp only [Option.not_isSome, Bool.and_eq_true, Bool.not_eq_true'] at hok
  obtain ⟨⟨hdeclared, hruntime⟩, hsetter⟩ := hok
  obtain ⟨setter, hsetter⟩ := Option.isSome_iff_exists.mp hsetter
  unfold checkAttribute
  dsimp only
  rw [if_neg (Bool.eq_false_iff.mp hdeclared), if_neg (Bool.eq_false_iff.mp hruntime), hsetter]
  exact ⟨setter, _, rfl, rfl⟩

/-- Whether an attribute that was checked is fine. -/
theorem checkAttribute_isFine (h : Head) (data : TagData) :
    Gives (·.isFine = d.accepts env.binder a.name (literalValue? cs a).isSome)
      (checkAttribute env d h cs data a) := by
  cases hok : d.accepts env.binder a.name (literalValue? cs a).isSome with
  | false =>
    obtain ⟨e, -, hrun⟩ := checkAttribute_of_not_accepts env d a h data hok
    rw [hrun]
    exact .skip fun _ => .pure rfl
  | true =>
    obtain ⟨setter, data', -, hrun⟩ := checkAttribute_of_accepts h data hok
    rw [hrun]
    exact .ite (.skip fun _ => .pure rfl) (.pure rfl)

theorem checkAttribute_congr (hdesc : describe h' = describe h) (cs : List Node) (data : TagData)
    (a : Attribute) : checkAttribute env d h' cs data a = checkAttribute env d h cs data a := by
  unfold checkAttribute
  rw [hdesc]

/-- An attribute that was checked is checked as it was before. -/
theorem checkAttribute_bound (hdesc : describe h' = describe h) (data : TagData) (s : State σ) :
    checkAttribute env d h' cs data (checkAttribute env d h cs data a s).1.bound =
      checkAttribute env d h cs data a := by
  rw [checkAttribute_congr hdesc]
  cases hok : d.accepts env.binder a.name (literalValue? cs a).isSome with
  | false =>
    obtain ⟨e, -, hrun⟩ := checkAttribute_of_not_accepts env d a h data hok
    rw [hrun]
    exact hrun
  | true =>
    obtain ⟨setter, data', hsetter, hrun⟩ := checkAttribute_of_accepts h data hok
    have hbound : (checkAttribute env d h cs data a s).1.bound =
        { a with setter := setter, fragment := (d.attribute? a.name).any (·.fragment) } := by
      rw [hrun]
      split <;> rfl
    rw [hbound]
    unfold TagDescriptor.accepts at hok
    simp only [Option.not_isSome, Bool.and_eq_true, Bool.not_eq_true'] at hok
    obtain ⟨⟨hdeclared, hruntime⟩, -⟩ := hok
    have hliteral : literalValue? cs { a with
        setter := setter, fragment := (d.attribute? a.name).any (·.fragment) } =
          literalValue? cs a := rfl
    unfold checkAttribute
    dsimp only
    rw [hliteral, if_neg (Bool.eq_false_iff.mp hdeclared), if_neg (Bool.eq_false_iff.mp hruntime),
      if_neg (Bool.eq_false_iff.mp hdeclared), if_neg (Bool.eq_false_iff.mp hruntime), hsetter]

theorem checkAttribute_again (hR : env.Respects fun _ _ => True) (d : TagDescriptor)
    (cs : List Node) (a : Attribute) (hdesc : describe h' = describe h) (data : TagData)
    (s : State σ) :
    RepeatsAt True s (checkAttribute env d h cs data a)
      (checkAttribute env d h' cs data (checkAttribute env d h cs data a s).1.bound)
      (checkAttribute env d h cs data a s).1 := by
  rw [checkAttribute_bound hdesc]
  exact .of_mirrors (oblivious_checkAttribute hR _ _ _ _ _)
    (ignores_checkAttribute _ _ _ _ _).mirrors s

end Attribute

theorem checkInlineAttributes_named {bs : List Attribute} (hbs : ∀ b ∈ bs, b.kind = .named)
    (h : Head) (cs : List Node) (data : TagData) :
    checkInlineAttributes env d h cs data bs = pure (bs, data) := by
  induction bs with
  | nil => rfl
  | cons b bs ih =>
    obtain ⟨hb, hbs⟩ := List.forall_mem_cons.mp hbs
    rw [checkInlineAttributes, if_pos (by simpa using hb), ih hbs]
    rfl

/-- The attributes given inline are checked again, the others being passed over. -/
theorem checkInlineAttributes_again (hR : env.Respects fun _ _ => True)
    (hdesc : describe h' = describe h) {bs : List Attribute} (hbs : ∀ b ∈ bs, b.kind = .named)
    {as : List Attribute} (has : ∀ a ∈ as, a.kind ≠ .named) (data : TagData) (s : State σ) :
    let r := (checkInlineAttributes env d h cs data as s).1
    RepeatsAt True s (checkInlineAttributes env d h cs data as)
      (checkInlineAttributes env d h' cs data (r.1 ++ bs)) (r.1 ++ bs, r.2) := by
  induction as generalizing data s with
  | nil =>
    intro r
    rw [show r.1 ++ bs = bs from rfl, checkInlineAttributes_named hbs]
    exact .pure _ _ s
  | cons a as ih =>
    obtain ⟨ha, has⟩ := List.forall_mem_cons.mp has
    have hstep : checkInlineAttributes env d h cs data (a :: as) = (do
        let c ← checkAttribute env d h cs data a
        let r ← checkInlineAttributes env d h cs c.data as
        return (c.bound :: r.1, r.2)) := by
      rw [checkInlineAttributes, if_neg (by simpa using ha)]
    let c := (checkAttribute env d h cs data a s).1
    let s' := (checkAttribute env d h cs data a s).2
    let r := (checkInlineAttributes env d h cs c.data as s').1
    have hfirst := checkAttribute_again hR d cs a hdesc data s
    have hkind : c.bound.kind ≠ .named := (gives_checkAttribute env d h cs data a s).kind ▸ ha
    rw [hstep]
    show RepeatsAt True s _ (checkInlineAttributes env d h' cs data (c.bound :: (r.1 ++ bs)))
      (c.bound :: (r.1 ++ bs), r.2)
    rw [checkInlineAttributes, if_neg (by simpa using hkind)]
    exact hfirst.after ((ih has c.data s').after (.pure _ _ _))

/-! ### Attributes that children give -/

section Named

variable {n : Node} {i : Nat} {as bs : List Attribute}

/-- The attributes of a name among some. -/
def hasName (as : List Attribute) (name : Bytes) : Bool := (as.find? (·.name == name)).isSome

/-- What a child that gives an attribute adds to the attributes of a tag: nothing if there is one of
its name or the contract does not take it. -/
inductive Gathers (binder : Binder) (d : TagDescriptor) (i : Nat) (n : Node)
    (as : List Attribute) : List Attribute → Prop where
  | known (h : hasName as n.head.attributeName = true) : Gathers binder d i n as as
  | refused (h : hasName as n.head.attributeName = false)
    (hno : d.accepts binder n.head.attributeName n.hasOnlyText = false) : Gathers binder d i n as as
  | given {b : Attribute} (h : hasName as n.head.attributeName = false)
    (hok : d.accepts binder n.head.attributeName n.hasOnlyText = true)
    (hname : b.name = n.head.attributeName) (hkind : b.kind = .named) (hchild : b.child = some i) :
    Gathers binder d i n as (as ++ [b])

theorem isSome_literalValue?_named {a : Attribute} (hk : a.kind = .named)
    (hchild : a.child = some i) (hn : cs[i]? = some n) :
    (literalValue? cs a).isSome = n.hasOnlyText := by
  rw [literalValue?, hk, Node.hasOnlyText]
  simp [hchild, hn]
  cases n.literalText? <;> rfl

theorem checkNamedAttribute_gathers (hn : cs[i]? = some n) (hbefore : NamedBefore i as)
    (data : TagData) :
    Gives (fun r => ∃ as', r.1 = { h with attributes := as' } ∧ Gathers env.binder d i n as as')
      (checkNamedAttribute env d { h with attributes := as } cs data i n.head) := by
  unfold checkNamedAttribute
  dsimp only
  split
  · next a ha =>
    rw [if_neg (hbefore.not_same (h := { h with attributes := as }) ha)]
    refine .skip fun _ => .pure ⟨as, rfl, .known ?_⟩
    exact Option.isSome_iff_exists.mpr ⟨a, ha⟩
  · next hnone =>
    have hfresh : hasName as n.head.attributeName = false := Option.isSome_eq_false_iff.mpr
      (Option.isNone_iff_eq_none.mpr hnone)
    refine ((checkAttribute_isFine _ data).and (gives_checkAttribute _ _ _ _ _ _)).bind ?_
    rintro c ⟨hfine, hbound⟩
    rw [isSome_literalValue?_named rfl rfl hn] at hfine
    refine .pure ?_
    dsimp only
    split
    · next hok => exact ⟨_, rfl, .given hfresh (hfine ▸ hok) hbound.name hbound.kind hbound.child⟩
    · next hno => exact ⟨as, rfl, .refused hfresh (hfine ▸ Bool.eq_false_iff.mpr hno)⟩

/-- The attributes `bs` are the attributes `as` and more, which are given by children from the one
with the number `i` on and have names of their own. -/
def Completes (i : Nat) (as bs : List Attribute) : Prop :=
  ∃ rest, bs = as ++ rest ∧ ∀ b ∈ rest, hasName as b.name = false ∧ b.kind = .named ∧
    ∃ j, i ≤ j ∧ b.child = some j

theorem hasName_append (as bs : List Attribute) (name : Bytes) :
    hasName (as ++ bs) name = (hasName as name || hasName bs name) := by
  rw [hasName, List.find?_append, Option.isSome_or, hasName, hasName]

theorem hasName_singleton (b : Attribute) (name : Bytes) :
    hasName [b] name = (b.name == name) := by
  rw [hasName, List.find?_singleton]
  cases b.name == name <;> rfl

theorem Completes.refl (i : Nat) (as : List Attribute) : Completes i as as :=
  ⟨[], (List.append_nil as).symm, fun _ hb => absurd hb List.not_mem_nil⟩

theorem Completes.of_le {j : Nat} (h : Completes j as bs) (hij : i ≤ j) : Completes i as bs := by
  obtain ⟨rest, rfl, hrest⟩ := h
  refine ⟨rest, rfl, fun b hb => ?_⟩
  obtain ⟨hname, hkind, k, hk, hchild⟩ := hrest b hb
  exact ⟨hname, hkind, k, hij.trans hk, hchild⟩

theorem Gathers.completes {binder : Binder} {as' : List Attribute}
    (h : Gathers binder d i n as as') (hbs : Completes (i + 1) as' bs) : Completes i as bs := by
  obtain ⟨rest, rfl, hlater⟩ := hbs.of_le (Nat.le_succ i)
  cases h with
  | known | refused => exact ⟨rest, rfl, hlater⟩
  | given hfresh _ hname hkind hchild =>
    refine ⟨_ :: rest, List.append_assoc _ _ _, List.forall_mem_cons.mpr ⟨?_, fun c hc => ?_⟩⟩
    · exact ⟨hname ▸ hfresh, hkind, i, Nat.le_refl i, hchild⟩
    · obtain ⟨hc, hrest⟩ := hlater c hc
      rw [hasName_append, Bool.or_eq_false_iff] at hc
      exact ⟨hc.1, hrest⟩

theorem Gathers.namedBefore {binder : Binder} {as' : List Attribute}
    (h : Gathers binder d i n as as') (has : NamedBefore i as) : NamedBefore (i + 1) as' := by
  cases h with
  | known | refused => exact has.succ
  | given _ _ _ _ hchild =>
    refine List.forall_mem_append.mpr ⟨has.succ, List.forall_mem_singleton.mpr fun _ => ?_⟩
    exact ⟨i, Nat.lt_succ_self i, hchild⟩

/-- The attribute that a child gives. -/
def givenAttribute (i : Nat) (n : Head) : Attribute where
  name := n.attributeName
  localName := n.attributeName
  kind := .named
  position := n.start
  child := some i

theorem checkNamedAttribute_fresh (data : TagData) {m : Head}
    (hm : hasName as m.attributeName = false) :
    checkNamedAttribute env d { h with attributes := as } cs data i m = (do
      let c ← checkAttribute env d { h with attributes := as } cs data (givenAttribute i m)
      return ({ h with attributes := if c.isFine then as ++ [c.bound] else as }, c.data)) := by
  have hnone : ({ h with attributes := as } : Head).attr? m.attributeName = none :=
    Option.not_isSome_iff_eq_none.mp (Bool.eq_false_iff.mp hm)
  unfold checkNamedAttribute
  simp only [hnone]
  refine bind_congr fun c => ?_
  cases c.isFine <;> rfl

/-- What is reported of a child that gives an attribute again. -/
def duplicate (h : Head) (m : Head) (a : Attribute) : Diagnostic :=
  let how : Bytes := if a.kind == .named then " is given twice with jsp:attribute"
    else " is given both inline and with jsp:attribute"
  ⟨.duplicateNamedAttribute, m.start,
    "attribute " ++ m.attributeName ++ " of " ++ describe h ++ how⟩

theorem checkNamedAttribute_other (data : TagData) {m : Head} {a : Attribute}
    (ha : as.find? (·.name == m.attributeName) = some a)
    (hother : (a.kind == .named && a.child == some i) = false) :
    checkNamedAttribute env d { h with attributes := as } cs data i m = (do
      let e := duplicate h m a
      report e.issue e.position e.message
      return ({ h with attributes := as }, data)) := by
  have ha : ({ h with attributes := as } : Head).attr? m.attributeName = some a := ha
  unfold checkNamedAttribute
  simp only [ha, hother, Bool.false_eq_true, if_false]
  rfl

theorem checkNamedAttribute_own (data : TagData) {m : Head} {a : Attribute}
    (ha : as.find? (·.name == m.attributeName) = some a) (hkind : a.kind = .named)
    (hchild : a.child = some i) :
    checkNamedAttribute env d { h with attributes := as } cs data i m = (do
      let c ← checkAttribute env d { h with attributes := as } cs data a
      return ({ h with
        attributes := as.map fun b => if b.name == m.attributeName then c.bound else b },
          c.data)) := by
  have ha : ({ h with attributes := as } : Head).attr? m.attributeName = some a := ha
  unfold checkNamedAttribute
  simp only [ha, hkind, hchild, beq_self_eq_true, Bool.and_self, if_true]

theorem hasName_eq_false_iff {name : Bytes} :
    hasName as name = false ↔ ∀ a ∈ as, a.name ≠ name := by
  simp [hasName]

/-- A child that gives an attribute of a name that is there is reported again. -/
theorem checkNamedAttribute_again_known (hdesc : describe h' = describe h)
    (hbefore : NamedBefore i as) (hknown : hasName as n.head.attributeName = true)
    (rest : List Attribute) (data : TagData) (s : State σ) :
    RepeatsAt True s (checkNamedAttribute env d { h with attributes := as } cs data i n.head)
      (checkNamedAttribute env d { h' with attributes := as ++ rest } cs data i n.head)
      ({ h' with attributes := as ++ rest }, data) := by
  obtain ⟨a, ha⟩ := Option.isSome_iff_exists.mp hknown
  have hother : (a.kind == .named && a.child == some i) = false := Bool.eq_false_iff.mpr
    (hbefore.not_same (h := { h with attributes := as }) ha)
  have ha' : (as ++ rest).find? (·.name == n.head.attributeName) = some a := by
    rw [List.find?_append, ha]
    rfl
  rw [checkNamedAttribute_other data ha hother, checkNamedAttribute_other data ha' hother]
  refine (RepeatsAt.report (duplicate h n.head a) (duplicate h' n.head a) _ _ s).congr ?_
  simp [duplicate, hdesc]

/-- A child that has given an attribute is checked as before. -/
theorem checkNamedAttribute_again_given (hR : env.Respects fun _ _ => True)
    (hdesc : describe h' = describe h) (hfresh : hasName as n.head.attributeName = false)
    (data : TagData) (s : State σ) {c : CheckedAttribute}
    (hc : (checkAttribute env d { h with attributes := as } cs data (givenAttribute i n.head) s).1 =
      c) {rest : List Attribute}
    (hrest : ∀ b ∈ rest, hasName (as ++ [c.bound]) b.name = false) :
    RepeatsAt True s (checkNamedAttribute env d { h with attributes := as } cs data i n.head)
      (checkNamedAttribute env d { h' with attributes := as ++ [c.bound] ++ rest } cs data i n.head)
      ({ h' with attributes := as ++ [c.bound] ++ rest }, c.data) := by
  have hbound : IsBoundTo (givenAttribute i n.head) c.bound :=
    hc ▸ gives_checkAttribute _ _ _ _ _ _ s
  have hname : c.bound.name = n.head.attributeName := hbound.name
  have hfind : (as ++ [c.bound] ++ rest).find? (·.name == n.head.attributeName) =
      some c.bound := by
    have hnone : as.find? (·.name == n.head.attributeName) = none :=
      Option.not_isSome_iff_eq_none.mp (Bool.eq_false_iff.mp hfresh)
    rw [List.append_assoc, List.find?_append, hnone, List.singleton_append, List.find?_cons,
      hname, beq_self_eq_true]
    rfl
  have hsame : (as ++ [c.bound] ++ rest).map
      (fun b => if b.name == n.head.attributeName then c.bound else b) =
        as ++ [c.bound] ++ rest := by
    refine (List.map_congr_left fun b hb => ?_).trans (List.map_id _)
    split
    · next hb' =>
      have hb' : b.name = n.head.attributeName := eq_of_beq hb'
      rw [List.append_assoc] at hb
      rcases List.mem_append.mp hb with hb | hb
      · exact absurd hb' (hasName_eq_false_iff.mp hfresh b hb)
      rcases List.mem_cons.mp hb with rfl | hb
      · rfl
      · refine absurd (hname.trans hb'.symm) ?_
        exact hasName_eq_false_iff.mp (hrest b hb) _ (by simp)
    · rfl
  rw [checkNamedAttribute_fresh data hfresh,
    checkNamedAttribute_own data hfind hbound.kind hbound.child]
  have hdesc' : describe { h' with attributes := as ++ [c.bound] ++ rest } =
      describe { h with attributes := as } := hdesc
  have hagain := checkAttribute_again hR d cs (givenAttribute i n.head) hdesc' data s
  rw [hc] at hagain
  refine hagain.after ?_
  rw [hc, hsame]
  exact .pure _ _ _

/-- A child whose value is not taken is refused again, with the same report unless a later child has
given the attribute. -/
theorem checkNamedAttribute_again_refused (hdesc : describe h' = describe h) (hn : cs[i]? = some n)
    (hfresh : hasName as n.head.attributeName = false)
    (hno : d.accepts env.binder n.head.attributeName n.hasOnlyText = false)
    (data : TagData) (s : State σ) {rest : List Attribute}
    (hrest : ∀ b ∈ rest, b.kind = .named ∧ ∃ j, i + 1 ≤ j ∧ b.child = some j) :
    RepeatsAt (hasName (as ++ rest) n.head.attributeName = false) s
      (checkNamedAttribute env d { h with attributes := as } cs data i n.head)
      (checkNamedAttribute env d { h' with attributes := as ++ rest } cs data i n.head)
      ({ h' with attributes := as ++ rest }, data) := by
  have hliteral : (literalValue? cs (givenAttribute i n.head)).isSome = n.hasOnlyText :=
    isSome_literalValue?_named rfl rfl hn
  rw [← hliteral] at hno
  obtain ⟨e, hissue, hrun⟩ := checkAttribute_of_not_accepts env d (givenAttribute i n.head)
    { h with attributes := as } data hno
  rw [checkNamedAttribute_fresh data hfresh, hrun]
  cases hlater : hasName (as ++ rest) n.head.attributeName with
  | false =>
    have hdesc' : describe { h' with attributes := as ++ rest } =
        describe { h with attributes := as } := hdesc
    rw [checkNamedAttribute_fresh data hlater, checkAttribute_congr hdesc', hrun]
    exact (RepeatsAt.report e e _ _ s).congr (by simp)
  | true =>
    obtain ⟨b, hb⟩ := Option.isSome_iff_exists.mp hlater
    have hmem : b ∈ rest := by
      have hname : b.name = n.head.attributeName := eq_of_beq (List.find?_some hb :)
      rcases List.mem_append.mp (List.mem_of_find?_eq_some hb) with hmem | hmem
      · exact absurd hname (hasName_eq_false_iff.mp hfresh b hmem)
      · exact hmem
    obtain ⟨-, j, hj, hchild⟩ := hrest b hmem
    have hne : b.child ≠ some i := by
      rw [hchild]
      intro he
      have := Option.some.inj he
      omega
    have hother : (b.kind == .named && b.child == some i) = false := by
      rw [beq_eq_false_iff_ne.mpr hne, Bool.and_false]
    rw [checkNamedAttribute_other data hb hother]
    refine (RepeatsAt.report e (duplicate h' n.head b) _ _ s).congr (iff_of_false ?_ (by simp))
    rintro rfl
    exact hissue rfl

/-- A child that gives an attribute is looked at again, when all the attributes are there that
children give. The same is reported but where the contract does not take the value of the child and
a later child has given the attribute. -/
theorem checkNamedAttribute_again (hR : env.Respects fun _ _ => True)
    (hdesc : describe h' = describe h) (hn : cs[i]? = some n) (hbefore : NamedBefore i as)
    (data : TagData) (s : State σ) {as' : List Attribute} {data' : TagData}
    (hrun : (checkNamedAttribute env d { h with attributes := as } cs data i n.head s).1 =
      ({ h with attributes := as' }, data')) (hbs : Completes (i + 1) as' bs) :
    RepeatsAt (hasName as n.head.attributeName = true ∨
        d.accepts env.binder n.head.attributeName n.hasOnlyText = true ∨
        hasName bs n.head.attributeName = false) s
      (checkNamedAttribute env d { h with attributes := as } cs data i n.head)
      (checkNamedAttribute env d { h' with attributes := bs } cs data i n.head)
      ({ h' with attributes := bs }, data') := by
  obtain ⟨rest, rfl, hrest⟩ := hbs
  cases hknown : hasName as n.head.attributeName with
  | true =>
    obtain ⟨a, ha⟩ := Option.isSome_iff_exists.mp hknown
    have hother : (a.kind == .named && a.child == some i) = false := Bool.eq_false_iff.mpr
      (hbefore.not_same (h := { h with attributes := as }) ha)
    rw [checkNamedAttribute_other data ha hother] at hrun
    obtain rfl : as = as' := congrArg (·.1.attributes) hrun
    obtain rfl : data = data' := congrArg Prod.snd hrun
    exact (checkNamedAttribute_again_known hdesc hbefore hknown rest data s).congr (by simp)
  | false =>
    obtain ⟨c, hc⟩ : ∃ c, (checkAttribute env d { h with attributes := as } cs data
      (givenAttribute i n.head) s).1 = c := ⟨_, rfl⟩
    have hfine : c.isFine = d.accepts env.binder n.head.attributeName n.hasOnlyText := by
      rw [← hc, checkAttribute_isFine _ data s, isSome_literalValue?_named rfl rfl hn]
      rfl
    have hvalue : ({ h with attributes := if c.isFine then as ++ [c.bound] else as }, c.data) =
        (({ h with attributes := as' }, data') : Head × TagData) := by
      rw [← hrun, checkNamedAttribute_fresh data hknown, ← hc]
      rfl
    have hattributes : (if c.isFine then as ++ [c.bound] else as) = as' :=
      congrArg (·.1.attributes) hvalue
    obtain rfl : c.data = data' := congrArg Prod.snd hvalue
    cases hok : d.accepts env.binder n.head.attributeName n.hasOnlyText with
    | true =>
      obtain rfl : as ++ [c.bound] = as' := by rw [← hattributes, hfine, hok, if_pos rfl]
      refine (checkNamedAttribute_again_given hR hdesc hknown data s hc ?_).congr (by simp)
      exact fun b hb => (hrest b hb).1
    | false =>
      obtain rfl : as = as' := by rw [← hattributes, hfine, hok, if_neg Bool.false_ne_true]
      have hdata : c.data = data := by
        have hliteral : (literalValue? cs (givenAttribute i n.head)).isSome = n.hasOnlyText :=
          isSome_literalValue?_named rfl rfl hn
        rw [← hliteral] at hok
        obtain ⟨e, -, hrefused⟩ := checkAttribute_of_not_accepts env d
          (givenAttribute i n.head) { h with attributes := as } data hok
        rw [← hc, hrefused]
        rfl
      rw [hdata]
      refine (checkNamedAttribute_again_refused hdesc hn hknown hok data s ?_).congr (by simp)
      exact fun b hb => (hrest b hb).2

/-! ### All children -/

/-- The attributes `as` have the names of those given inline and of those that some children give as
the contract takes them. -/
def Gathered (binder : Binder) (d : TagDescriptor) (inline as : List Attribute)
    (cs : List Node) : Prop :=
  ∀ name, name ≠ [] → hasName as name = (hasName inline name ||
    cs.any fun c => c.givesAttribute name && d.accepts binder name c.hasOnlyText)

/-- A child gives an attribute that the contract does not take from it, nor from any child before,
but from one after it. -/
structure GivesInVain (binder : Binder) (d : TagDescriptor) (inline : List Attribute)
    (before : List Node) (n : Node) (after : List Node) : Prop where
  kind : n.kind = .namedAttribute
  name : n.head.attributeName ≠ []
  inline : hasName inline n.head.attributeName = false
  refused : d.accepts binder n.head.attributeName n.hasOnlyText = false
  before : ∀ c ∈ before, c.givesAttribute n.head.attributeName = true →
    d.accepts binder n.head.attributeName c.hasOnlyText = false
  after : ∃ c ∈ after, c.givesAttribute n.head.attributeName = true ∧
    d.accepts binder n.head.attributeName c.hasOnlyText = true

variable {binder : Binder} {inline as' : List Attribute} {before after : List Node}

theorem Gathered.start (h : ∀ name, hasName as name = hasName inline name) :
    Gathered binder d inline as [] := by
  intro name _
  rw [h, List.any_nil, Bool.or_false]

theorem Gathered.pass (h : Gathered binder d inline as before)
    (hn : ¬(n.kind = .namedAttribute ∧ n.head.attributeName ≠ [])) :
    Gathered binder d inline as (before ++ [n]) := by
  intro name hname
  have hnone : n.givesAttribute name = false := by
    rw [Bool.eq_false_iff]
    intro hgives
    obtain ⟨hkind, rfl⟩ := Node.givesAttribute_iff.mp hgives
    exact hn ⟨hkind, hname⟩
  rw [h name hname, List.any_append, List.any_cons, hnone]
  simp

theorem Gathers.gathered (hn : Gathers binder d i n as as') (hkind : n.kind = .namedAttribute)
    (h : Gathered binder d inline as before) : Gathered binder d inline as' (before ++ [n]) := by
  intro name hname
  have hgives : n.givesAttribute name = (n.head.attributeName == name) := by
    rw [Node.givesAttribute, hkind]
    rfl
  rw [List.any_append, List.any_cons, List.any_nil, Bool.or_false, ← Bool.or_assoc,
    ← h name hname, hgives]
  by_cases hsame : n.head.attributeName = name
  · subst hsame
    cases hn with
    | known hknown => simp [hknown]
    | refused hfresh hno => simp [hno]
    | given hfresh hok hbname =>
      rw [hasName_append, hasName_singleton, hbname, hok]
      simp
  · rw [beq_eq_false_iff_ne.mpr hsame, Bool.false_and, Bool.or_false]
    cases hn with
    | known | refused => rfl
    | given _ _ hbname =>
      rw [hasName_append, hasName_singleton, hbname, beq_eq_false_iff_ne.mpr hsame, Bool.or_false]

/-- Looking at the children from some child on. -/
theorem checkNamedAttributes_gathers (ns : List Node) (hcs : cs = before ++ ns)
    (hbefore : NamedBefore before.length as) (hgathered : Gathered env.binder d inline as before)
    (data : TagData) :
    Gives (fun r => ∃ bs, r.1 = { h with attributes := bs } ∧ Completes before.length as bs ∧
        Gathered env.binder d inline bs cs)
      (checkNamedAttributes env d cs { h with attributes := as } data before.length ns) := by
  induction ns generalizing before as data with
  | nil =>
    rw [List.append_nil] at hcs
    exact .pure ⟨as, rfl, .refl _ _, hcs ▸ hgathered⟩
  | cons n ns ih =>
    have hlength : before.length + 1 = (before ++ [n]).length := by simp
    have hcs' : cs = (before ++ [n]) ++ ns := by simp [hcs]
    have hn : cs[before.length]? = some n := by simp [hcs]
    unfold checkNamedAttributes
    split
    · next hgives =>
      have hkind : n.kind = .namedAttribute := eq_of_beq (Bool.and_eq_true_iff.mp hgives).1
      refine (checkNamedAttribute_gathers hn hbefore data).bind ?_
      rintro ⟨_, data⟩ ⟨as', rfl, hone⟩
      have hnext : NamedBefore (before ++ [n]).length as' := hlength ▸ hone.namedBefore hbefore
      dsimp only
      rw [hlength]
      refine (ih hcs' hnext (hone.gathered hkind hgathered) data).mono ?_
      rintro r ⟨bs, hr, hbs, hall⟩
      exact ⟨bs, hr, hone.completes (hlength ▸ hbs), hall⟩
    · next hno =>
      rw [hlength]
      have hpassed := hgathered.pass (n := n) (by simpa using hno)
      refine (ih hcs' (hlength ▸ hbefore.succ) hpassed data).mono ?_
      rintro r ⟨bs, hr, hbs, hall⟩
      exact ⟨bs, hr, hbs.of_le (by omega), hall⟩

/-- Whether a child has given an attribute in vain, from the attributes gathered before it and in
the end. -/
theorem not_givesInVain_iff (hbefore : Gathered binder d inline as before)
    (hall : Gathered binder d inline bs (before ++ n :: after)) (hkind : n.kind = .namedAttribute)
    (hname : n.head.attributeName ≠ []) :
    (hasName as n.head.attributeName = true ∨
        d.accepts binder n.head.attributeName n.hasOnlyText = true ∨
        hasName bs n.head.attributeName = false) ↔
      ¬GivesInVain binder d inline before n after := by
  have hself : n.givesAttribute n.head.attributeName = true :=
    Node.givesAttribute_iff.mpr ⟨hkind, rfl⟩
  have has := hbefore _ hname
  have hbs := hall _ hname
  rw [List.any_append, List.any_cons, hself, Bool.true_and, ← Bool.or_assoc, ← has] at hbs
  constructor
  · rintro h ⟨-, -, hinline, hrefused, hearlier, c, hc, hgives, hok⟩
    have hnone : hasName as n.head.attributeName = false := by
      rw [has, hinline, Bool.false_or, List.any_eq_false]
      intro c hc
      rw [Bool.and_eq_true, not_and]
      exact fun hgives => Bool.eq_false_iff.mp (hearlier c hc hgives)
    have hlater : hasName bs n.head.attributeName = true := by
      rw [hbs, Bool.or_eq_true, Bool.or_eq_true]
      exact .inr (.inr (List.any_eq_true.mpr ⟨c, hc, Bool.and_eq_true_iff.mpr ⟨hgives, hok⟩⟩))
    simp [hnone, hrefused, hlater] at h
  · intro hno
    by_contra hcon
    simp only [not_or, Bool.not_eq_true, Bool.not_eq_false] at hcon
    obtain ⟨hnone, hrefused, hlater⟩ := hcon
    rw [hbs, hnone, hrefused, Bool.false_or, Bool.false_or] at hlater
    obtain ⟨c, hc, hgives⟩ := List.any_eq_true.mp hlater
    rw [has, Bool.or_eq_false_iff, List.any_eq_false] at hnone
    refine hno ⟨hkind, hname, hnone.1, hrefused, fun b hb hgives => ?_, c, hc, ?_⟩
    · exact Bool.eq_false_iff.mpr fun hok => hnone.2 b hb (Bool.and_eq_true_iff.mpr ⟨hgives, hok⟩)
    · exact Bool.and_eq_true_iff.mp hgives

theorem forall_split_cons {α : Type} {P : List α → α → List α → Prop} {x : α} {xs : List α} :
    (∀ l y r, x :: xs = l ++ y :: r → P l y r) ↔
      P [] x xs ∧ ∀ l y r, xs = l ++ y :: r → P (x :: l) y r := by
  constructor
  · exact fun h => ⟨h [] x xs rfl, fun l y r hxs => h (x :: l) y r (hxs ▸ rfl)⟩
  · rintro ⟨hhead, htail⟩ l y r hsplit
    cases l with
    | nil =>
      obtain ⟨rfl, rfl⟩ := List.cons.inj hsplit
      exact hhead
    | cons z l =>
      obtain ⟨rfl, hxs⟩ := List.cons.inj hsplit
      exact htail l y r hxs

theorem checkNamedAttributes_giver (data : TagData) (i : Nat) (ns : List Node)
    (hn : (n.kind == .namedAttribute && n.head.attributeName != []) = true) :
    checkNamedAttributes env d cs h data i (n :: ns) = (do
      let r ← checkNamedAttribute env d h cs data i n.head
      checkNamedAttributes env d cs r.1 r.2 (i + 1) ns) := by
  rw [checkNamedAttributes, if_pos hn]

theorem checkNamedAttributes_pass (data : TagData) (i : Nat) (ns : List Node)
    (hn : ¬(n.kind == .namedAttribute && n.head.attributeName != []) = true) :
    checkNamedAttributes env d cs h data i (n :: ns) =
      checkNamedAttributes env d cs h data (i + 1) ns := by
  rw [checkNamedAttributes, if_neg hn]

/-- The children are looked at again, when all the attributes are there that they give. The same is
reported unless a child has given an attribute in vain. -/
theorem checkNamedAttributes_again (hR : env.Respects fun _ _ => True)
    (hdesc : describe h' = describe h) (ns : List Node) (hcs : cs = before ++ ns)
    (hbefore : NamedBefore before.length as) (hgathered : Gathered env.binder d inline as before)
    (data : TagData) (s : State σ) {data' : TagData}
    (hrun : (checkNamedAttributes env d cs { h with attributes := as } data before.length ns s).1 =
      ({ h with attributes := bs }, data')) :
    RepeatsAt (∀ l n r, ns = l ++ n :: r → ¬GivesInVain env.binder d inline (before ++ l) n r) s
      (checkNamedAttributes env d cs { h with attributes := as } data before.length ns)
      (checkNamedAttributes env d cs { h' with attributes := bs } data before.length ns)
      ({ h' with attributes := bs }, data') := by
  induction ns generalizing before as data s with
  | nil =>
    obtain rfl : data = data' := congrArg Prod.snd hrun
    exact (RepeatsAt.pure _ _ s).congr (iff_of_true trivial fun l n r h => by simp at h)
  | cons n ns ih =>
    have hlength : before.length + 1 = (before ++ [n]).length := by simp
    have hcs' : cs = (before ++ [n]) ++ ns := by simp [hcs]
    have hn : cs[before.length]? = some n := by simp [hcs]
    have hbelow : (∀ l m r, ns = l ++ m :: r →
        ¬GivesInVain env.binder d inline (before ++ n :: l) m r) ↔
        ∀ l m r, ns = l ++ m :: r →
          ¬GivesInVain env.binder d inline ((before ++ [n]) ++ l) m r := by
      simp only [List.append_assoc, List.singleton_append]
    rw [forall_split_cons, List.append_nil, hbelow]
    by_cases hgives : (n.kind == .namedAttribute && n.head.attributeName != []) = true
    · obtain ⟨hkind, hname⟩ : n.kind = .namedAttribute ∧ n.head.attributeName ≠ [] := by
        simpa using hgives
      rw [checkNamedAttributes_giver data _ ns hgives] at hrun ⊢
      rw [checkNamedAttributes_giver data _ ns hgives]
      let s' := (checkNamedAttribute env d { h with attributes := as } cs data before.length
        n.head s).2
      obtain ⟨as', data₁, hone, hgathers⟩ : ∃ as' data₁,
          (checkNamedAttribute env d { h with attributes := as } cs data before.length
            n.head s).1 = ({ h with attributes := as' }, data₁) ∧
          Gathers env.binder d before.length n as as' := by
        obtain ⟨as', heq, hgathers⟩ := checkNamedAttribute_gathers hn hbefore data s
        exact ⟨as', _, Prod.ext heq rfl, hgathers⟩
      have hrest : (checkNamedAttributes env d cs
          (checkNamedAttribute env d { h with attributes := as } cs data before.length n.head s).1.1
          (checkNamedAttribute env d { h with attributes := as } cs data before.length n.head s).1.2
          (before.length + 1) ns s').1 = ({ h with attributes := bs }, data') := hrun
      rw [hone, hlength] at hrest
      have hnext := hgathers.gathered hkind hgathered
      have hnamed := hlength ▸ hgathers.namedBefore hbefore
      obtain ⟨_, heq, hcompletes, hall⟩ :=
        checkNamedAttributes_gathers (h := h) ns hcs' hnamed hnext data₁ s'
      rw [hrest] at heq
      obtain rfl : bs = _ := congrArg Head.attributes heq
      rw [← not_givesInVain_iff hgathered (hcs ▸ hall) hkind hname]
      refine (checkNamedAttribute_again hR hdesc hn hbefore data s hone
        (hlength ▸ hcompletes)).bind ?_
      rw [hone, hlength]
      exact ih hcs' hnamed hnext data₁ s' hrest
    · rw [checkNamedAttributes_pass data _ ns hgives] at hrun ⊢
      rw [checkNamedAttributes_pass data _ ns hgives]
      have hno : ¬(n.kind = .namedAttribute ∧ n.head.attributeName ≠ []) := by simpa using hgives
      rw [hlength] at hrun ⊢
      refine (ih hcs' (hlength ▸ hbefore.succ) (hgathered.pass hno) data s hrun).congr ?_
      exact (and_iff_right fun hvain => hno ⟨hvain.kind, hvain.name⟩).symm

end Named

/-! ### Invocations -/

/-- What is checked of an invocation when its attributes are known; gives its scripting
variables. -/
def checkContract (t : CustomTag) (d : TagDescriptor) (h : Head) (data : TagData)
    (cs : List Node) : Validate σ (List VariableBinding) := do
  (d.attributes.filter fun sig => sig.required && !isSupplied h cs sig.name).forM fun sig =>
    report .missingAttribute h.start (describe h ++ " requires attribute " ++ sig.name)
  if d.body == .empty && !Node.isBlankContent cs then
    report .bodyNotEmpty h.start (describe h ++ " must have an empty body")
  match d.check.bind (· data) with
  | some message => report .tagValidation h.start (describe h ++ ": " ++ message)
  | none => pure ()
  let vars ← checkVariables d h data
  addPrefix t.prefixName t.uri
  return vars

theorem checkTag_eq (env : Env σ) (t : CustomTag) (d : TagDescriptor) (nesting : Nat) (h : Head)
    (cs : List Node) : checkTag env t d nesting h cs = (do
      let r ← checkInlineAttributes env d h cs {} h.attributes
      let r' ← checkNamedAttributes env d cs { h with attributes := r.1 } r.2 0 cs
      let vars ← checkContract t d r'.1 r'.2 cs
      return { r'.1 with
        tag := some { t with nesting := nesting, data := r'.2, vars := vars } }) := by
  unfold checkTag checkContract
  refine bind_congr fun r => bind_congr fun r' => ?_
  simp only [bind_assoc]
  refine bind_congr fun _ => ?_
  cases d.check.bind (· r'.2) <;> split <;> rfl

theorem oblivious_checkContract {R : σ → σ → Prop} (t : CustomTag) (d : TagDescriptor) (h : Head)
    (data : TagData) (cs : List Node) :
    Oblivious R (checkContract t d h data cs : Validate σ (List VariableBinding)) := by
  have hend : Oblivious R (do
      let vars ← checkVariables d h data
      addPrefix t.prefixName t.uri
      return vars : Validate σ (List VariableBinding)) :=
    (oblivious_checkVariables d h data).bind fun _ =>
      (oblivious_addPrefix _ _).bind fun _ => .pure _
  refine (Oblivious.forM (fun _ => oblivious_report _ _ _) _).bind fun _ => ?_
  refine .guard (oblivious_report _ _ _) fun _ => ?_
  split
  · exact (oblivious_report _ _ _).bind fun _ => hend
  · exact hend

theorem ignores_checkContract (t : CustomTag) (d : TagDescriptor) (h : Head) (data : TagData)
    (cs : List Node) :
    Ignores (checkContract t d h data cs : Validate σ (List VariableBinding)) := by
  have hend : Ignores (do
      let vars ← checkVariables d h data
      addPrefix t.prefixName t.uri
      return vars : Validate σ (List VariableBinding)) :=
    (ignores_checkVariables d h data).bind fun _ => (ignores_addPrefix _ _).bind fun _ => .pure _
  refine (Ignores.forM (fun _ => ignores_report _ _ _) _).bind fun _ => ?_
  refine .guard (ignores_report _ _ _) fun _ => ?_
  split
  · exact (ignores_report _ _ _).bind fun _ => hend
  · exact hend

theorem checkInlineAttributes_names (env : Env σ) (d : TagDescriptor) (h : Head) (cs : List Node)
    (data : TagData) (as : List Attribute) :
    Gives (fun r => r.1.map (·.name) = as.map (·.name))
      (checkInlineAttributes env d h cs data as) := by
  induction as generalizing data with
  | nil => exact .pure rfl
  | cons a as ih =>
    unfold checkInlineAttributes
    refine .ite ((ih data).bind fun r hr => .pure (by rw [List.map_cons, List.map_cons, hr])) ?_
    refine (gives_checkAttribute env d h cs data a).bind fun c hc => ?_
    refine (ih c.data).bind fun r hr => .pure ?_
    rw [List.map_cons, List.map_cons, hr, hc.name]

theorem hasName_of_names {as bs : List Attribute} (h : as.map (·.name) = bs.map (·.name))
    (name : Bytes) : hasName as name = hasName bs name := by
  have hany : ∀ cs : List Attribute, hasName cs name = (cs.map (·.name)).any (· == name) := by
    intro cs
    rw [hasName, List.any_map]
    exact List.isSome_find?
  rw [hany, hany, h]

/-- **An invocation is checked again**, with what was noted of it and of what is below it. It is
left as it is, and the same is reported unless a child has given an attribute in vain. -/
theorem checkTag_again (hR : env.Respects fun _ _ => True) (t : CustomTag) (d : TagDescriptor)
    (nesting : Nat) (cs : List Node) (hinline : ∀ a ∈ h.attributes, a.kind ≠ .named)
    (info : ChildInfo) (s : State σ) :
    ∃ t', (checkTag env t d nesting h cs s).1.tag = some t' ∧ t'.descriptor = t.descriptor ∧
      RepeatsAt (∀ l n r, cs = l ++ n :: r → ¬GivesInVain env.binder d h.attributes l n r) s
        (checkTag env t d nesting h cs)
        (checkTag env t' d nesting { (checkTag env t d nesting h cs s).1 with info := info } cs)
        { (checkTag env t d nesting h cs s).1 with info := info } := by
  -- The attributes as they are when the children have been looked at, and the state then.
  let r := (checkInlineAttributes env d h cs {} h.attributes s).1
  let s₁ := (checkInlineAttributes env d h cs {} h.attributes s).2
  let r' := (checkNamedAttributes env d cs { h with attributes := r.1 } r.2 0 cs s₁).1
  let s₂ := (checkNamedAttributes env d cs { h with attributes := r.1 } r.2 0 cs s₁).2
  have hnot : ∀ a ∈ r.1, a.kind ≠ .named :=
    gives_checkInlineAttributes env d h cs {} h.attributes hinline s
  have hbefore : NamedBefore ([] : List Node).length r.1 := fun a ha hk => absurd hk (hnot a ha)
  have hgathered : Gathered env.binder d h.attributes r.1 [] :=
    .start (hasName_of_names (checkInlineAttributes_names env d h cs {} h.attributes s))
  obtain ⟨bs, hbs, ⟨rest, hall, hrest⟩, -⟩ :=
    checkNamedAttributes_gathers (h := h) cs (List.nil_append cs).symm hbefore hgathered r.2 s₁
  have hr' : r' = ({ h with attributes := bs }, r'.2) := Prod.ext hbs rfl
  let vars := (checkContract t d r'.1 r'.2 cs s₂).1
  have hvalue : (checkTag env t d nesting h cs s).1 = { h with
      attributes := bs
      tag := some { t with nesting := nesting, data := r'.2, vars := vars } } := by
    rw [checkTag_eq]
    show ({ r'.1 with
      tag := some { t with nesting := nesting, data := r'.2, vars := vars } } : Head) = _
    rw [hr']
  refine ⟨_, congrArg Head.tag hvalue, rfl, ?_⟩
  rw [hvalue, checkTag_eq, checkTag_eq]
  let t' : CustomTag := { t with nesting := nesting, data := r'.2, vars := vars }
  let g : Head := { h with attributes := bs, tag := some t', info := info }
  have hnamed : ∀ b ∈ rest, b.kind = .named := fun b hb => (hrest b hb).2.1
  have hdesc : describe g = describe h := rfl
  have hfirst : RepeatsAt True s (checkInlineAttributes env d h cs {} h.attributes)
      (checkInlineAttributes env d g cs {} g.attributes) (bs, r.2) := by
    rw [show g.attributes = r.1 ++ rest from hall, hall]
    exact checkInlineAttributes_again hR hdesc hnamed hinline {} s
  have hsecond := checkNamedAttributes_again hR hdesc cs
    (List.nil_append cs).symm hbefore hgathered r.2 s₁ hr'
  have hthird : RepeatsAt True s₂ (checkContract t d r'.1 r'.2 cs)
      (checkContract t' d g r'.2 cs) vars := by
    have hsame : (checkContract t' d g r'.2 cs : Validate σ (List VariableBinding)) =
        checkContract t d r'.1 r'.2 cs := by
      rw [hr']
      rfl
    rw [hsame]
    exact .of_mirrors (oblivious_checkContract _ _ _ _ _)
      (ignores_checkContract _ _ _ _ _).mirrors s₂
  exact hfirst.after (hsecond.before (hthird.after (.pure _ _ _)))

end Validation

end ServerPages
