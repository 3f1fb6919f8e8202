import ServerPages.Proofs.AnnotatedLines
import ServerPages.Proofs.UnreportedSteps

/-!
# Contracts of tags

A validation that reports nothing has found every invocation of a tag to keep the contract of the
tag: the attributes are declared and of kinds that their declarations take, the required ones are
there, each is given once and has the setter that was chosen for it, and a tag that takes no body
has none.

The attributes that children give become attributes of the invocation one by one, and each is looked
up among those that are there already. What holds in between is `GivenBy`, which tells of the
children before the one that is looked at.

## Main results

* `checkNamedAttribute_givenBy`: what looking at one more child keeps.
* `checkTag_accepted`: what checking an invocation finds.
* `visit_unreported`: what validation finds of every node, if it reports nothing.
* `visit_unit_contracts`: every invocation keeps the contract of its tag.
-/

namespace ServerPages

/-- Whether the value of an attribute is only known when the page runs: it is an expression, code,
or the content of a child that holds more than text. -/
def Attribute.isRuntimeAmong (cs : List Node) (a : Attribute) : Bool :=
  a.kind == .el || a.kind == .script ||
    a.kind == .named && cs.any fun c => c.givesAttribute a.name && !c.hasOnlyText

/-- An invocation of a tag, with its children, keeps the contract of the tag. -/
structure KeepsContract (binder : Binder) (d : TagDescriptor) (h : Head) (cs : List Node) :
    Prop where
  /-- No two attributes have the same name. -/
  names : (h.attributes.map (·.name)).Nodup
  /-- An attribute given as content is given by one child, every other one by none. -/
  givers : ∀ a ∈ h.attributes,
    cs.countP (·.givesAttribute a.name) = if a.kind = .named then 1 else 0
  /-- What a child gives is an attribute of the invocation. -/
  given : ∀ c ∈ cs, ∀ name, name ≠ [] → c.givesAttribute name = true →
    ∃ a ∈ h.attributes, a.name = name ∧ a.kind = .named
  /-- An attribute given as content refers to the child that gives it. -/
  child : ∀ a ∈ h.attributes, a.kind = .named →
    ∃ i, a.child = some i ∧ (cs[i]?).any (·.givesAttribute a.name) = true
  /-- Every required attribute is there. -/
  required : ∀ sig ∈ d.attributes, sig.required = true → ∃ a ∈ h.attributes, a.name = sig.name
  /-- Every attribute is declared, unless the tag takes others. -/
  declared : ∀ a ∈ h.attributes, (d.attribute? a.name).isSome = true ∨ d.dynamicAttributes = true
  /-- A declared attribute whose value is not known before the page runs may be such a one. -/
  runtime : ∀ a ∈ h.attributes, a.isRuntimeAmong cs = true →
    ∀ sig, d.attribute? a.name = some sig → sig.dynamic = true ∨ sig.fragment = true
  /-- Every attribute has the setter that is chosen for it. -/
  setter : ∀ a ∈ h.attributes, binder d a.name = some a.setter
  /-- A tag that takes no body has none but blank text. -/
  body : d.body = .empty → Node.isBlankContent cs = true

/-- A head whose attributes are given in its start tag and have names, all different. -/
structure Head.HasNames (h : Head) : Prop where
  nodup : (h.attributes.map (·.name)).Nodup
  ne_nil : ∀ a ∈ h.attributes, a.name ≠ []
  inline : ∀ a ∈ h.attributes, a.kind.isInline = true

/-- A head whose tag, if it invokes one, declares no attribute without a name. -/
def Head.DeclaresNames (h : Head) : Prop :=
  ∀ d, h.descriptor? = some d → ∀ sig ∈ d.attributes, sig.name ≠ []

theorem Head.attr?_eq_none_iff {h : Head} {name : Bytes} :
    h.attr? name = none ↔ ∀ a ∈ h.attributes, a.name ≠ name := by
  simp [attr?]

/-- Names stay different when an attribute of another name is added. -/
theorem Attribute.nodup_names_append {as : List Attribute} {a : Attribute}
    (h : (as.map (·.name)).Nodup) (hfresh : ∀ b ∈ as, b.name ≠ a.name) :
    ((as ++ [a]).map (·.name)).Nodup := by
  rw [List.map_append, List.nodup_append]
  refine ⟨h, List.nodup_singleton _, ?_⟩
  intro x hx y hy
  obtain ⟨b, hb, rfl⟩ := List.mem_map.mp hx
  obtain rfl := List.mem_singleton.mp hy
  exact hfresh b hb

theorem Node.givesAttribute_iff {c : Node} {name : Bytes} :
    c.givesAttribute name = true ↔ c.kind = .namedAttribute ∧ c.head.attributeName = name := by
  simp [givesAttribute]

namespace Validation

variable {σ : Type} {isTag : Bool} {binder : Binder} {d : TagDescriptor} {cs : List Node}

/-! ### One attribute -/

/-- What the contract of a tag says of one attribute of an invocation with some children. -/
structure Takes (binder : Binder) (d : TagDescriptor) (cs : List Node) (a : Attribute) : Prop where
  declared : (d.attribute? a.name).isSome = true ∨ d.dynamicAttributes = true
  runtime : literalValue? cs a = none → ∀ sig, d.attribute? a.name = some sig →
    sig.dynamic = true ∨ sig.fragment = true
  setter : binder d a.name = some a.setter

theorem checkAttribute_takes (env : Env σ) (d : TagDescriptor) (h : Head) (cs : List Node)
    (data : TagData) (a : Attribute) :
    Unreported isTag
      (fun c => c.isFine = true ∧ IsBoundTo a c.bound ∧ Takes env.binder d cs c.bound)
      (checkAttribute env d h cs data a) := by
  unfold checkAttribute
  dsimp only
  refine .ite (fun _ => .after_report fun _ => Keeps.pure _) fun hdeclared => ?_
  refine .ite (fun _ => .after_report fun _ => Keeps.pure _) fun hruntime => ?_
  split
  · exact .after_report fun _ => Keeps.pure _
  next setter hsetter =>
  have htakes : ∀ fragment,
      Takes env.binder d cs { a with setter := setter, fragment := fragment } := by
    intro fragment
    refine ⟨?_, fun hliteral sig hsig => ?_, hsetter⟩
    · cases hsig : d.attribute? a.name <;> simp_all
    · have hliteral : literalValue? cs a = none := hliteral
      have hsig : d.attribute? a.name = some sig := hsig
      simp only [hliteral, hsig, Option.isNone_none, Option.any_some, Bool.true_and,
        Bool.and_eq_true, Bool.not_eq_true', not_and, Bool.not_eq_false] at hruntime
      exact or_iff_not_imp_left.mpr fun hd => hruntime (by simpa using hd)
  refine .ite (fun _ => .skip ?_ fun _ => .pure ⟨rfl, ⟨rfl, rfl, rfl, rfl⟩, htakes _⟩) fun _ =>
    .pure ⟨rfl, ⟨rfl, rfl, rfl, rfl⟩, htakes _⟩
  exact fun ds => keeps_expression (isStable_hasProblems env _ ds) a.el a.position

theorem checkInlineAttributes_takes (env : Env σ) (d : TagDescriptor) (h : Head) (cs : List Node)
    (data : TagData) (as : List Attribute) (has : ∀ a ∈ as, a.kind.isInline = true) :
    Unreported isTag (fun r => r.1.map (·.name) = as.map (·.name) ∧
        ∀ a ∈ r.1, a.kind.isInline = true ∧ Takes env.binder d cs a)
      (checkInlineAttributes env d h cs data as) := by
  induction as generalizing data with
  | nil => exact .pure ⟨rfl, fun a ha => absurd ha List.not_mem_nil⟩
  | cons a as ih =>
    obtain ⟨ha, has⟩ := List.forall_mem_cons.mp has
    unfold checkInlineAttributes
    rw [if_neg (by simpa using AttributeKind.ne_named_of_isInline ha)]
    refine (checkAttribute_takes env d h cs data a).bind fun c => (ih c.data has).bind fun r => ?_
    refine .pure fun hr hc => ?_
    obtain ⟨-, hbound, htakes⟩ := hc
    refine ⟨?_, List.forall_mem_cons.mpr ⟨⟨hbound.kind ▸ ha, htakes⟩, hr.2⟩⟩
    rw [List.map_cons, List.map_cons, hbound.name, hr.1]

/-! ### The children that give attributes -/

/-- The attributes of an invocation with the children `cs`, when those before some child were looked
at. -/
structure GivenBy (binder : Binder) (d : TagDescriptor) (cs before : List Node)
    (as : List Attribute) : Prop where
  names : (as.map (·.name)).Nodup
  ne_nil : ∀ a ∈ as, a.name ≠ []
  takes : ∀ a ∈ as, Takes binder d cs a
  kinds : ∀ a ∈ as, a.kind ≠ .named → a.kind.isInline = true
  givers : ∀ a ∈ as, before.countP (·.givesAttribute a.name) = if a.kind = .named then 1 else 0
  given : ∀ c ∈ before, ∀ name, name ≠ [] → c.givesAttribute name = true →
    ∃ a ∈ as, a.name = name ∧ a.kind = .named
  child : ∀ a ∈ as, a.kind = .named →
    ∃ i, i < before.length ∧ a.child = some i ∧ (before[i]?).any (·.givesAttribute a.name) = true

section GivenBy

variable {before : List Node} {as : List Attribute} {n : Node}

theorem GivenBy.start (hnames : (as.map (·.name)).Nodup) (hne : ∀ a ∈ as, a.name ≠ [])
    (has : ∀ a ∈ as, a.kind.isInline = true ∧ Takes binder d cs a) :
    GivenBy binder d cs [] as where
  names := hnames
  ne_nil := hne
  takes a ha := (has a ha).2
  kinds a ha _ := (has a ha).1
  givers a ha := by
    rw [if_neg (AttributeKind.ne_named_of_isInline (has a ha).1), List.countP_nil]
  given c hc := absurd hc List.not_mem_nil
  child a ha hk := absurd hk (AttributeKind.ne_named_of_isInline (has a ha).1)

theorem GivenBy.namedBefore (h : GivenBy binder d cs before as) : NamedBefore before.length as := by
  intro a ha hk
  obtain ⟨i, hi, hchild, -⟩ := h.child a ha hk
  exact ⟨i, hi, hchild⟩

/-- A child before some others is still one when there is another one before them. -/
theorem GivenBy.child_append (h : GivenBy binder d cs before as) (n : Node) {a : Attribute}
    (ha : a ∈ as) (hk : a.kind = .named) : ∃ i, i < (before ++ [n]).length ∧ a.child = some i ∧
      ((before ++ [n])[i]?).any (·.givesAttribute a.name) = true := by
  obtain ⟨i, hi, hchild, hgives⟩ := h.child a ha hk
  refine ⟨i, ?_, hchild, ?_⟩
  · rw [List.length_append]
    omega
  · rwa [List.getElem?_append_left hi]

/-- A child that gives no attribute. -/
theorem GivenBy.pass (h : GivenBy binder d cs before as)
    (hn : ∀ name, name ≠ [] → n.givesAttribute name = false) :
    GivenBy binder d cs (before ++ [n]) as where
  names := h.names
  ne_nil := h.ne_nil
  takes := h.takes
  kinds := h.kinds
  givers a ha := by
    rw [List.countP_append, h.givers a ha, List.countP_singleton, hn _ (h.ne_nil a ha)]
    rfl
  given c hc name hname hgives := by
    rcases List.mem_append.mp hc with hc | hc
    · exact h.given c hc name hname hgives
    · obtain rfl := List.mem_singleton.mp hc
      exact absurd hgives (hn name hname ▸ Bool.false_ne_true)
  child a ha hk := h.child_append n ha hk

/-- A child that gives an attribute that was not there. -/
theorem GivenBy.give (h : GivenBy binder d cs before as) {a : Attribute} (hname : a.name ≠ [])
    (hfresh : ∀ b ∈ as, b.name ≠ a.name) (htakes : Takes binder d cs a) (hkind : a.kind = .named)
    (hchild : a.child = some before.length)
    (hn : ∀ name, n.givesAttribute name = true ↔ name = a.name) :
    GivenBy binder d cs (before ++ [n]) (as ++ [a]) where
  names := Attribute.nodup_names_append h.names hfresh
  ne_nil := List.forall_mem_append.mpr ⟨h.ne_nil, List.forall_mem_singleton.mpr hname⟩
  takes := List.forall_mem_append.mpr ⟨h.takes, List.forall_mem_singleton.mpr htakes⟩
  kinds := List.forall_mem_append.mpr
    ⟨h.kinds, List.forall_mem_singleton.mpr fun hk => absurd hkind hk⟩
  givers := by
    refine List.forall_mem_append.mpr ⟨fun b hb => ?_, List.forall_mem_singleton.mpr ?_⟩
    · have hother : n.givesAttribute b.name = false :=
        Bool.eq_false_iff.mpr fun hg => hfresh b hb ((hn _).mp hg)
      rw [List.countP_append, h.givers b hb, List.countP_singleton, hother]
      rfl
    · -- A child before that gives it would have made it an attribute already.
      have hnone : before.countP (·.givesAttribute a.name) = 0 := by
        rw [List.countP_eq_zero]
        intro c hc hg
        obtain ⟨b, hb, hbname, -⟩ := h.given c hc _ hname hg
        exact hfresh b hb hbname
      rw [List.countP_append, hnone, List.countP_singleton, (hn _).mpr rfl, if_pos hkind]
      rfl
  given := by
    refine List.forall_mem_append.mpr ⟨fun c hc name hne hg => ?_, List.forall_mem_singleton.mpr ?_⟩
    · obtain ⟨b, hb, hb'⟩ := h.given c hc name hne hg
      exact ⟨b, List.mem_append_left _ hb, hb'⟩
    · intro name _ hg
      exact ⟨a, by simp, ((hn _).mp hg).symm, hkind⟩
  child := by
    refine List.forall_mem_append.mpr ⟨fun b hb hk => h.child_append n hb hk,
      List.forall_mem_singleton.mpr fun _ => ⟨before.length, by simp, hchild, ?_⟩⟩
    rw [List.getElem?_append_right (Nat.le_refl _), Nat.sub_self]
    exact (hn _).mpr rfl

end GivenBy

/-- Looking at one more child that gives an attribute. -/
theorem checkNamedAttribute_givenBy (env : Env σ) (d : TagDescriptor) (h : Head) (cs : List Node)
    (data : TagData) {n : Node} (hkind : n.kind = .namedAttribute)
    (hname : n.head.attributeName ≠ []) (before : List Node) :
    Unreported isTag (fun r => GivenBy env.binder d cs before h.attributes →
        ∃ as, r.1 = { h with attributes := as } ∧ GivenBy env.binder d cs (before ++ [n]) as)
      (checkNamedAttribute env d h cs data before.length n.head) := by
  unfold checkNamedAttribute
  dsimp only
  split
  · next a ha =>
    refine .ite (fun hsame => ?_) fun _ => .after_report fun _ => Keeps.pure _
    refine (checkAttribute_takes env d h cs data a).bind fun c => .pure fun _ hbefore => ?_
    exact absurd hsame (hbefore.namedBefore.not_same ha)
  · next hfresh =>
    refine (checkAttribute_takes env d h cs data _).bind fun c => .pure ?_
    rintro ⟨hfine, hbound, htakes⟩ hbefore
    have hnew : c.bound.name = n.head.attributeName := hbound.name
    rw [if_pos hfine]
    refine ⟨_, rfl, hbefore.give (hnew ▸ hname) ?_ htakes hbound.kind hbound.child ?_⟩
    · rw [hnew]
      exact Head.attr?_eq_none_iff.mp hfresh
    · intro name
      rw [Node.givesAttribute_iff, hnew]
      exact ⟨fun hg => hg.2.symm, fun hg => ⟨hkind, hg.symm⟩⟩

/-- Looking at the children from some child on. -/
theorem checkNamedAttributes_givenBy (env : Env σ) (d : TagDescriptor) (cs : List Node) (h : Head)
    (data : TagData) (before ns : List Node) :
    Unreported isTag (fun r => GivenBy env.binder d cs before h.attributes →
        ∃ as, r.1 = { h with attributes := as } ∧ GivenBy env.binder d cs (before ++ ns) as)
      (checkNamedAttributes env d cs h data before.length ns) := by
  induction ns generalizing h data before with
  | nil => exact .pure fun hbefore => ⟨_, rfl, (List.append_nil before).symm ▸ hbefore⟩
  | cons n ns ih =>
    have hlength : before.length + 1 = (before ++ [n]).length := by simp
    unfold checkNamedAttributes
    rw [List.append_cons, hlength]
    refine .ite (fun hn => ?_) fun hn => ?_
    · obtain ⟨hkind, hname⟩ : n.kind = .namedAttribute ∧ n.head.attributeName ≠ [] := by
        simpa using hn
      refine (checkNamedAttribute_givenBy env d h cs data hkind hname before).bind fun r => ?_
      refine (ih r.1 r.2 (before ++ [n])).mono fun r' hr' hr hbefore => ?_
      obtain ⟨as, has, hgiven⟩ := hr hbefore
      obtain ⟨as', has', hgiven'⟩ := hr' (has ▸ hgiven)
      exact ⟨as', has'.trans (has ▸ rfl), hgiven'⟩
    · refine (ih h data (before ++ [n])).mono fun r hr hbefore => hr (hbefore.pass ?_)
      intro name hname
      refine Bool.eq_false_iff.mpr fun hg => hn ?_
      obtain ⟨hkind, rfl⟩ := Node.givesAttribute_iff.mp hg
      simpa using ⟨hkind, hname⟩

/-! ### Invocations -/

/-- An attribute whose value is not known before the page runs has no literal value. -/
theorem GivenBy.literalValue?_eq_none {as : List Attribute} (h : GivenBy binder d cs cs as)
    {a : Attribute} (ha : a ∈ as) (hr : a.isRuntimeAmong cs = true) :
    literalValue? cs a = none := by
  simp only [Attribute.isRuntimeAmong, Bool.or_eq_true, beq_iff_eq, Bool.and_eq_true] at hr
  rcases hr with (hk | hk) | ⟨hk, hany⟩
  · rw [literalValue?, hk]
  · rw [literalValue?, hk]
  obtain ⟨c, hc, hcond⟩ := List.any_eq_true.mp hany
  obtain ⟨hgives, htext⟩ := Bool.and_eq_true_iff.mp hcond
  obtain ⟨i, -, hchild, hi⟩ := h.child a ha hk
  obtain ⟨c', hc', hgives'⟩ := (Option.any_eq_true _ _).mp hi
  -- One child gives the attribute, so it is the one that the attribute refers to.
  have hone := h.givers a ha
  rw [if_pos hk, List.countP_eq_length_filter] at hone
  obtain ⟨x, hx⟩ := List.length_eq_one_iff.mp hone
  have hmem : ∀ b ∈ cs, b.givesAttribute a.name = true → b = x := fun b hb hg =>
    List.mem_singleton.mp (hx ▸ List.mem_filter.mpr ⟨hb, hg⟩)
  obtain rfl : c' = c :=
    (hmem c' (List.mem_of_getElem? hc') hgives').trans (hmem c hc hgives).symm
  have hnone : c'.literalText? = none := by
    simpa [Node.hasOnlyText] using htext
  simp [literalValue?, hk, hchild, hc', hnone]

/-- What checking an invocation of a tag, with some children, finds if nothing is wrong. -/
structure IsAccepted (binder : Binder) (d : TagDescriptor) (h : Head) (cs : List Node) : Prop where
  given : GivenBy binder d cs cs h.attributes
  required : ∀ sig ∈ d.attributes, sig.required = true → isSupplied h cs sig.name = true
  body : d.body = .empty → Node.isBlankContent cs = true

theorem IsAccepted.keepsContract {h : Head} (hh : IsAccepted binder d h cs)
    (hsigs : ∀ sig ∈ d.attributes, sig.name ≠ []) : KeepsContract binder d h cs where
  names := hh.given.names
  givers := hh.given.givers
  given := hh.given.given
  child a ha hk := by
    obtain ⟨i, -, hi⟩ := hh.given.child a ha hk
    exact ⟨i, hi⟩
  required sig hsig hr := by
    rcases Bool.or_eq_true_iff.mp (hh.required sig hsig hr) with hattr | hchild
    · obtain ⟨a, ha⟩ := Option.isSome_iff_exists.mp hattr
      have hname := List.find?_some (p := fun a : Attribute => a.name == sig.name) ha
      exact ⟨a, List.mem_of_find?_eq_some ha, eq_of_beq hname⟩
    · obtain ⟨c, hc, hgives⟩ := List.any_eq_true.mp hchild
      obtain ⟨a, ha, hname, -⟩ := hh.given.given c hc _ (hsigs sig hsig) hgives
      exact ⟨a, ha, hname⟩
  declared a ha := (hh.given.takes a ha).declared
  runtime a ha hr := (hh.given.takes a ha).runtime (hh.given.literalValue?_eq_none ha hr)
  setter a ha := (hh.given.takes a ha).setter
  body := hh.body

end Validation

/-! ### What is left of the nodes below an invocation -/

/-- What no validation changes of a node and contracts look at below an invocation, and the tag that
the node invokes, without what validation notes of it. -/
def Head.outline (h : Head) : Head where
  kind := h.kind
  text := h.text
  attributeName := h.attributeName
  tag := h.tag.map ({ · with nesting := 0, vars := [], data := {} })

theorem Head.descriptor?_outline (h : Head) : h.outline.descriptor? = h.descriptor? := by
  unfold descriptor? outline
  cases h.tag <;> rfl

namespace Node

/-- The node and those below it as the contracts of tags see them. -/
def outline (n : Node) : Node := n.mapHeads Head.outline

theorem kind_outline (n : Node) : n.outline.kind = n.kind := by
  rw [kind, outline, head_mapHeads]
  rfl

theorem text_outline (n : Node) : n.outline.text = n.text := by
  rw [text, outline, head_mapHeads]
  rfl

theorem outline_mk (h : Head) (cs : List Node) :
    (mk h cs).outline = mk h.outline (cs.map outline) := by
  rw [outline, mapHeads, mapHeadsAll_eq_map]
  rfl

theorem givesAttribute_outline (name : Bytes) (n : Node) :
    n.outline.givesAttribute name = n.givesAttribute name := by
  rw [givesAttribute, kind_outline, outline, head_mapHeads]
  rfl

theorem isSome_bodyElement?_outline (ns : List Node) :
    (bodyElement? (ns.map outline)).isSome = (bodyElement? ns).isSome := by
  rw [bodyElement?, bodyElement?, List.find?_map, Option.isSome_map]
  exact congrArg (fun p => (ns.find? p).isSome) (funext fun n => congrArg (· == _) (kind_outline n))

mutual

theorem literalText?_outline (n : Node) : n.outline.literalText? = n.literalText? := by
  match n with
  | .mk h cs =>
    rw [outline_mk, literalText?, literalText?, isSome_bodyElement?_outline,
      bodyLiteral?_outline cs, contentLiteral?_outline cs]

theorem bodyLiteral?_outline (ns : List Node) :
    bodyLiteral? (ns.map outline) = bodyLiteral? ns := by
  match ns with
  | [] => rfl
  | .mk h ds :: cs =>
    rw [List.map_cons, outline_mk, bodyLiteral?, bodyLiteral?, nodesLiteral?_outline ds,
      bodyLiteral?_outline cs]
    rfl

theorem contentLiteral?_outline (ns : List Node) :
    contentLiteral? (ns.map outline) = contentLiteral? ns := by
  match ns with
  | [] => rfl
  | c :: cs =>
    rw [List.map_cons, contentLiteral?, contentLiteral?, kind_outline, text_outline,
      literalText?_outline c, contentLiteral?_outline cs]

theorem nodesLiteral?_outline (ns : List Node) :
    nodesLiteral? (ns.map outline) = nodesLiteral? ns := by
  match ns with
  | [] => rfl
  | c :: cs =>
    rw [List.map_cons, nodesLiteral?, nodesLiteral?, kind_outline, text_outline,
      literalText?_outline c, nodesLiteral?_outline cs]

end

theorem hasOnlyText_outline (n : Node) : n.outline.hasOnlyText = n.hasOnlyText := by
  rw [hasOnlyText, literalText?_outline, hasOnlyText]

theorem isBlankContent_outline (ns : List Node) :
    isBlankContent (ns.map outline) = isBlankContent ns := by
  have h := hasEmptyBody_mapHeads (f := Head.outline) (fun _ => rfl) (fun _ => rfl)
    (mk { kind := .root } ns)
  rwa [hasEmptyBody, children_mapHeads] at h

end Node

theorem Attribute.isRuntimeAmong_outline (cs : List Node) (a : Attribute) :
    a.isRuntimeAmong (cs.map Node.outline) = a.isRuntimeAmong cs := by
  rw [isRuntimeAmong, isRuntimeAmong, List.any_map]
  congr 3
  funext c
  exact congrArg₂ (fun x y => x && !y) (c.givesAttribute_outline _) c.hasOnlyText_outline

/-- Whether an invocation keeps a contract depends on its attributes and the outlines of its
children. -/
theorem KeepsContract.congr {binder : Binder} {d : TagDescriptor} {h h' : Head} {cs cs' : List Node}
    (hk : KeepsContract binder d h cs) (ha : h'.attributes = h.attributes)
    (hcs : cs'.map Node.outline = cs.map Node.outline) : KeepsContract binder d h' cs' where
  names := ha ▸ hk.names
  givers := by
    have hcount : ∀ (name : Bytes) (ns : List Node),
        (ns.map Node.outline).countP (·.givesAttribute name) =
          ns.countP (·.givesAttribute name) := by
      intro name ns
      rw [List.countP_map]
      exact congrArg (ns.countP ·) (funext fun c => c.givesAttribute_outline name)
    intro a hmem
    rw [← hcount, hcs, hcount]
    exact hk.givers a (ha ▸ hmem)
  given := by
    intro c' hc' name hname hg
    have hmem : c'.outline ∈ cs.map Node.outline := hcs ▸ List.mem_map_of_mem hc'
    obtain ⟨c, hc, hsame⟩ := List.mem_map.mp hmem
    rw [← Node.givesAttribute_outline, ← hsame, Node.givesAttribute_outline] at hg
    exact ha ▸ hk.given c hc name hname hg
  child := by
    have hget : ∀ (i : Nat) (name : Bytes) (ns : List Node),
        ((ns.map Node.outline)[i]?).any (·.givesAttribute name) =
          (ns[i]?).any (·.givesAttribute name) := by
      intro i name ns
      rw [List.getElem?_map, Option.any_map]
      exact congrArg ((ns[i]?).any ·) (funext fun c => c.givesAttribute_outline name)
    intro a hmem hnamed
    obtain ⟨i, hi, hg⟩ := hk.child a (ha ▸ hmem) hnamed
    rw [← hget, ← hcs, hget] at hg
    exact ⟨i, hi, hg⟩
  required := ha ▸ hk.required
  declared := ha ▸ hk.declared
  runtime := by
    intro a hmem hr
    rw [← Attribute.isRuntimeAmong_outline, hcs, Attribute.isRuntimeAmong_outline] at hr
    exact hk.runtime a (ha ▸ hmem) hr
  setter := ha ▸ hk.setter
  body := by
    intro hempty
    rw [← Node.isBlankContent_outline, hcs, Node.isBlankContent_outline]
    exact hk.body hempty

/-- A node that keeps the contract of its tag, if it invokes one. -/
def Node.HasContract (binder : Binder) (n : Node) : Prop :=
  n.kind = .customTag → ∃ d, n.head.descriptor? = some d ∧ KeepsContract binder d n.head n.children

namespace Validation

variable {σ : Type} {isTag : Bool} {binder : Binder} {d : TagDescriptor} {cs : List Node}

/-- Checking an invocation that reports nothing finds nothing wrong. -/
theorem checkTag_accepted (env : Env σ) (t : CustomTag) (nesting : Nat) {h : Head}
    (cs : List Node) (hd : t.descriptor = some d) (ht : h.tag = some t) (hnames : h.HasNames) :
    Unreported isTag (fun h' => h'.outline = h.outline ∧ h'.descriptor? = some d ∧
      IsAccepted env.binder d h' cs) (checkTag env t d nesting h cs) := by
  refine (checkInlineAttributes_takes env d h cs {} h.attributes hnames.inline).bind fun r => ?_
  refine (checkNamedAttributes_givenBy env d cs { h with attributes := r.1 } r.2 [] cs).bind
    fun r' => ?_
  refine .forM_report <| .guard ?_
  have hS := isStable_hasProblems env isTag
  refine .mono (P := fun h' => ∃ vars, h' = { r'.1 with
    tag := some { t with nesting := nesting, data := r'.2, vars := vars } }) ?_ ?_
  · dsimp only
    split
    · exact .after_report fun ds => (keeps_checkVariables (hS ds) _ _ _).bind fun _ =>
        (keeps_addPrefix (hS ds) _ _).bind fun _ => Keeps.pure _
    · exact .skip (fun ds => keeps_checkVariables (hS ds) _ _ _) fun vars =>
        .skip (fun ds => keeps_addPrefix (hS ds) _ _) fun _ => .pure ⟨vars, rfl⟩
  · rintro _ ⟨vars, rfl⟩ hbody hmissing hgiven ⟨hsame, hinline⟩
    have hne : ∀ a ∈ r.1, a.name ≠ [] := by
      intro a ha
      have hmem : a.name ∈ h.attributes.map (·.name) := hsame ▸ List.mem_map_of_mem ha
      obtain ⟨b, hb, hname⟩ := List.mem_map.mp hmem
      exact hname ▸ hnames.ne_nil b hb
    obtain ⟨as, has, hgiven⟩ := hgiven (.start (hsame ▸ hnames.nodup) hne hinline)
    rw [List.filter_eq_nil_iff] at hmissing
    rw [has] at hmissing ⊢
    refine ⟨by simp [Head.outline, ht], hd, hgiven, ?_, ?_⟩
    · intro sig hsig hr
      have hsupplied := hmissing sig hsig
      rw [hr, Bool.true_and, Bool.not_eq_true, Bool.not_eq_false'] at hsupplied
      exact hsupplied
    · intro hempty
      simpa [hempty] using hbody

/-! ### Trees -/

/-- Only in tag files is an invocation of a fragment or of the body no problem. -/
theorem checkInvocation_isTag (h : Head) :
    Unreported isTag (fun _ => isTag = true) (checkInvocation h : Validate σ Unit) := by
  refine ⟨fun ds => ?_, fun s hs hnone => ?_⟩
  · exact keeps_checkInvocation (isStable_hasProblems ⟨none, fun _ _ => none⟩ isTag ds) h
  cases htag : s.page.tag with
  | some tag => rw [← hs.tag, htag, Option.isSome_some]
  | none =>
    have hrun : checkInvocation h s = report .misplacedAction h.start
        (describe h ++ " is only allowed in tag files") s := by
      show (if s.page.tag.isNone then _ else _ : Validate σ Unit) s = _
      rw [htag]
      rfl
    rw [hrun] at hnone
    exact ((unreported_report isTag _ _ _).value s hs hnone).elim

theorem checkAction_isTag (env : Env σ) (parent : Kind) (h : Head) (cs : List Node) :
    Unreported isTag (fun _ => h.kind = .invokeAction ∨ h.kind = .doBodyAction → isTag = true)
      (checkAction env parent h cs) := by
  have hS := isStable_hasProblems env isTag
  by_cases hk : h.kind = .invokeAction ∨ h.kind = .doBodyAction
  · unfold checkAction
    refine .skip (fun ds => keeps_checkSignature (hS ds) h cs) fun _ => ?_
    rcases hk with hk | hk <;>
    · rw [hk]
      exact (checkInvocation_isTag h).mono fun _ htag _ => htag
  · exact ⟨fun ds => keeps_checkAction (hS ds) parent h cs, fun _ _ _ h => absurd h hk⟩

/-- The children of a node, and then its attributes. -/
theorem Unreported.children {α β : Type} {P : α → Prop} {R : β → Prop} {h : Head} {scope : Scope}
    {visitChildren : Validate σ α} {f : α → ChildInfo → β}
    (hcs : Unreported isTag P visitChildren) (hf : ∀ r info, P r → R (f r info)) :
    Unreported isTag R (do return f (← visitChildren) (← attributeInfo h scope)) :=
  hcs.bind fun r => .skip
    (fun ds => keeps_attributeInfo (isStable_hasProblems ⟨none, fun _ _ => none⟩ _ ds) h scope)
    fun info => .pure (hf r info)

/-- What a validation that reports nothing makes of a head with some children: tags are accepted,
the attributes of other nodes stay as they are, and fragments and bodies are invoked in tag files
only. -/
structure BecomesHead (binder : Binder) (isTag : Bool) (h : Head) (cs : List Node) (h' : Head) :
    Prop where
  outline : h'.outline = h.outline
  attributes : h.kind ≠ .customTag → h'.attributes = h.attributes
  invokes : h.kind = .invokeAction ∨ h.kind = .doBodyAction → isTag = true
  tag : h.kind = .customTag →
    ∃ d, h'.descriptor? = some d ∧ IsAccepted binder d h' cs

theorem BecomesHead.kind {h h' : Head} (hh' : BecomesHead binder isTag h cs h') :
    h'.kind = h.kind :=
  (congrArg Head.kind hh'.outline : h'.outline.kind = h.outline.kind)

/-- A head of a node that invokes neither a tag nor what is passed to a tag file. -/
theorem BecomesHead.of_kind {h : Head} (hk : h.kind ≠ .customTag)
    (hinvokes : h.kind = .invokeAction ∨ h.kind = .doBodyAction → isTag = true) (cs : List Node)
    (info : ChildInfo) : BecomesHead binder isTag h cs { h with info := info } :=
  ⟨rfl, fun _ => rfl, hinvokes, fun h => absurd h hk⟩

/-- What is known of nodes before they are validated. -/
structure IsReady (P : Node → Prop) (n : Node) : Prop where
  names : n.head.HasNames
  holds : P n

/-- What a validation that reports nothing makes of a node with `P` has `Q`. -/
def Establishes (binder : Binder) (isTag : Bool) (P Q : Node → Prop) : Prop :=
  ∀ {h : Head} {cs : List Node} {h' : Head} {cs' : List Node}, IsReady P (.mk h cs) →
    BecomesHead binder isTag h cs h' → cs'.map Node.outline = cs.map Node.outline → Q (.mk h' cs')

section Trees

variable {P Q : Node → Prop}

mutual

/-- The visit of a node that reports nothing gives nodes of which everything holds that follows
from the checks of each. -/
theorem visit_unreported (env : Env σ) (hQ : Establishes env.binder isTag P Q) (n : Node)
    (hn : n.IsParsed) (hready : ∀ m ∈ n.subtree, IsReady P m) (parent : Kind) (scope : Scope) :
    Unreported isTag (fun r => r.1.outline = n.outline ∧ ∀ m ∈ r.1.subtree, Q m)
      (visit env parent scope n) := by
  match n, hn with
  | .mk h cs, .mk head leaf children =>
    obtain ⟨hself, hbelow⟩ := List.forall_mem_cons.mp hready
    have hS := isStable_hasProblems env isTag
    have hcs := visitAll_unreported env hQ cs children hbelow
    have hdone : ∀ {h' : Head} {cs' : List Node}, BecomesHead env.binder isTag h cs h' →
        cs'.map Node.outline = cs.map Node.outline → (∀ m ∈ Node.subtreeAll cs', Q m) →
        (Node.mk h' cs').outline = (Node.mk h cs).outline ∧
          ∀ m ∈ (Node.mk h' cs').subtree, Q m := by
      intro h' cs' hh' hcs' hbelow'
      refine ⟨?_, List.forall_mem_cons.mpr ⟨hQ hself hh' hcs', hbelow'⟩⟩
      rw [Node.outline_mk, Node.outline_mk, hh'.outline, hcs']
    have hplain : h.kind ∉ [Kind.customTag, .invokeAction, .doBodyAction] → ∀ info,
        BecomesHead env.binder isTag h cs { h with info := info } := by
      intro hk info
      simp only [List.mem_cons, List.not_mem_nil, or_false, not_or] at hk
      exact .of_kind hk.1 (fun h => (h.elim hk.2.1 hk.2.2).elim) cs info
    have hleaf : h.kind.isLeaf = true → ∀ m ∈ Node.subtreeAll cs, Q m := by
      intro hl
      rw [(leaf hl).1]
      exact fun m hm => absurd hm List.not_mem_nil
    unfold visit
    split
    iterate 3
      next hk =>
        have hdone := hdone (hplain (by rw [hk]; decide) h.info) rfl (hleaf (by rw [hk]; rfl))
        exact .ite (fun _ => .skip (fun ds => keeps_report (hS ds) _ _ _) fun _ => .pure hdone)
          fun _ => .pure hdone
    · next hk =>
      refine .skip (fun ds => keeps_expression (hS ds) _ _) fun _ => .pure ?_
      exact hdone (hplain (by rw [hk]; decide) _) rfl (hleaf (by rw [hk]; rfl))
    iterate 3
      next hk =>
        refine .children (hcs _ _) fun r info hr => ?_
        exact hdone (hplain (by rw [hk]; decide) _) hr.1 hr.2
    · next hk =>
      obtain ⟨d, hd⟩ := Option.isSome_iff_exists.mp (head.descriptor hk)
      obtain ⟨t, ht, htd⟩ := Option.bind_eq_some_iff.mp hd
      simp only [ht, htd, Option.getD_some]
      refine (checkTag_accepted env t scope.nesting cs htd ht hself.names).bind fun h' => ?_
      refine .children (hcs _ _) fun r info hr hh' => ?_
      refine hdone ⟨hh'.1, fun hne => absurd hk hne, ?_, fun _ => ⟨d, hh'.2.1, ?_⟩⟩ hr.1 hr.2
      · rw [hk]
        rintro (h | h) <;> cases h
      · exact ⟨hh'.2.2.given, hh'.2.2.required, hh'.2.2.body⟩
    · next hk =>
      have hkeeps := fun ds => keeps_directive (isInvariant_hasProblems env isTag ds) h cs
      refine .ite (fun hdirective => .skip hkeeps fun _ => ?_) fun _ =>
        (checkAction_isTag env parent h cs).bind fun _ => ?_
      · refine .children (hcs _ _) fun r info hr => ?_
        refine hdone (.of_kind hk ?_ cs _) hr.1 hr.2
        rintro (h | h) <;> rw [h] at hdirective <;> cases hdirective
      · refine .children (hcs _ _) fun r info hr hinvokes => ?_
        exact hdone (.of_kind hk hinvokes cs _) hr.1 hr.2

theorem visitAll_unreported (env : Env σ) (hQ : Establishes env.binder isTag P Q)
    (ns : List Node) (hns : ∀ n ∈ ns, n.IsParsed)
    (hready : ∀ m ∈ Node.subtreeAll ns, IsReady P m) (parent : Kind) (scopeOf : Head → Scope) :
    Unreported isTag (fun r => r.1.map Node.outline = ns.map Node.outline ∧
        ∀ m ∈ Node.subtreeAll r.1, Q m)
      (visitAll env parent scopeOf ns) := by
  match ns with
  | [] => exact .pure ⟨rfl, fun m hm => absurd hm List.not_mem_nil⟩
  | .mk h ds :: cs =>
    obtain ⟨hn, hns⟩ := List.forall_mem_cons.mp hns
    obtain ⟨hready, hrest⟩ := List.forall_mem_append.mp hready
    unfold visitAll
    refine (visit_unreported env hQ (.mk h ds) hn hready parent (scopeOf h)).bind fun r => ?_
    refine (visitAll_unreported env hQ cs hns hrest parent scopeOf).bind fun r' => ?_
    refine .pure fun hr' hr => ⟨?_, List.forall_mem_append.mpr ⟨hr.2, hr'.2⟩⟩
    rw [List.map_cons, List.map_cons, hr.1, hr'.1]

end

/-- So it is for the unit as a whole. -/
theorem visit_unit_unreported (env : Env σ) (hQ : Establishes env.binder isTag P Q)
    {root : Node} (hroot : root.IsUnit) (hready : ∀ m ∈ root.subtree, IsReady P m) :
    Unreported isTag (fun r => r.1.outline = root.outline ∧ ∀ m ∈ r.1.subtree, Q m)
      (visit env .root {} root) := by
  obtain ⟨h, cs⟩ := root
  obtain ⟨hkind, -, hchildren⟩ := hroot
  have hkind : h.kind = .root := hkind
  obtain ⟨hself, hbelow⟩ := List.forall_mem_cons.mp hready
  unfold visit
  simp only [hkind]
  refine .children (visitAll_unreported env hQ cs hchildren hbelow _ _) fun r info hr => ⟨?_, ?_⟩
  · rw [Node.outline_mk, Node.outline_mk, hr.1, Head.outline, Head.outline, hkind]
  · refine List.forall_mem_cons.mpr ⟨hQ hself ⟨?_, fun _ => rfl, ?_, ?_⟩ hr.1, hr.2⟩
    · rw [Head.outline, Head.outline, hkind]
    · rw [hkind]
      rintro (h | h) <;> cases h
    · rw [hkind]
      exact fun h => by cases h

end Trees

theorem establishes_hasContract (binder : Binder) (isTag : Bool) :
    Establishes binder isTag (·.head.DeclaresNames) (Node.HasContract binder) := by
  intro h cs h' cs' hready hh' hcs' hk'
  obtain ⟨d, hd, haccepted⟩ := hh'.tag (hh'.kind.symm.trans hk')
  have hsame : h.descriptor? = some d := by
    rw [← Head.descriptor?_outline, ← hh'.outline, Head.descriptor?_outline, hd]
  exact ⟨d, hd, (haccepted.keepsContract (hready.holds d hsame)).congr rfl hcs'⟩

/-- The visit of a unit that reports nothing finds that every invocation keeps its contract. -/
theorem visit_unit_contracts (env : Env σ) {root : Node} (hroot : root.IsUnit)
    (hnames : ∀ m ∈ root.subtree, m.head.HasNames ∧ m.head.DeclaresNames) :
    Unreported isTag
      (fun r => r.1.outline = root.outline ∧ ∀ m ∈ r.1.subtree, m.HasContract env.binder)
      (visit env .root {} root) :=
  visit_unit_unreported env (establishes_hasContract env.binder isTag) hroot fun m hm =>
    ⟨(hnames m hm).1, (hnames m hm).2⟩

end Validation

end ServerPages
