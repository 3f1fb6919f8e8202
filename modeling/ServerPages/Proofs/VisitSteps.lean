import ServerPages.Proofs.PreparedTrees
import ServerPages.Proofs.TagContract

/-!
# The visit of a node, by its kind

The visit of a node checks the node, visits its children and notes what the subtree holds. Only what
is checked depends on the kind: tags are checked against their contracts, which fills in their
heads, directives and actions against their signatures, and text and the unit itself for nothing.
Code and expressions are leaves, whose visits end there.

What the visits of a parsed unit rely on holds of all its nodes alike, of the unit itself too
(`Node.IsOrdinary`).

A validation fills in the nodes from below as well as from above, so a node may be checked when its
children are filled in already. No check sees the difference: of the children it looks at what no
validation changes (`Head.lasting`), that is where they start, which attributes they give, and
whether they are literal text or blank.

## Main results

* `checkTag_lasting`, `checkNode_lasting`: a check sees what is lasting of the children.
* `visit_lasting`: the visit of a node leaves what is lasting.
-/

namespace ServerPages

/-- A node as a validation expects it. -/
structure Node.IsOrdinary (n : Node) : Prop where
  /-- No attribute is given as content. -/
  not_named : ∀ a ∈ n.head.attributes, a.kind ≠ .named
  /-- A tag has its contract. -/
  descriptor : n.kind = .customTag → n.head.descriptor?.isSome
  /-- Leaves have neither children nor attributes. -/
  leaf : n.kind.isLeaf = true → n.children = [] ∧ n.head.attributes = []

theorem Node.IsOrdinary.tag {h : Head} {cs : List Node} (hn : (Node.mk h cs).IsOrdinary)
    (hk : h.kind = .customTag) : ∃ t d, h.tag = some t ∧ t.descriptor = some d := by
  obtain ⟨d, hdesc⟩ := Option.isSome_iff_exists.mp (hn.descriptor hk)
  obtain ⟨t, ht, hd⟩ := Option.bind_eq_some_iff.mp hdesc
  exact ⟨t, d, ht, hd⟩

mutual

theorem Node.IsParsed.isOrdinary {n : Node} (hn : n.IsParsed) : ∀ m ∈ n.subtree, m.IsOrdinary := by
  match n, hn with
  | .mk h cs, .mk head leaf children =>
    refine List.forall_mem_cons.mpr ⟨⟨head.not_named, head.descriptor, leaf⟩, ?_⟩
    exact Node.AllParsed.isOrdinary children

theorem Node.AllParsed.isOrdinary {ns : List Node} (hns : Node.AllParsed ns) :
    ∀ m ∈ Node.subtreeAll ns, m.IsOrdinary := by
  match ns, hns with
  | [], _ => exact fun m hm => absurd hm List.not_mem_nil
  | n :: ns, hns =>
    obtain ⟨hn, hns⟩ := List.forall_mem_cons.mp hns
    exact List.forall_mem_append.mpr
      ⟨Node.IsParsed.isOrdinary hn, Node.AllParsed.isOrdinary hns⟩

end

theorem Node.IsUnit.isOrdinary {root : Node} (hroot : root.IsUnit) :
    ∀ m ∈ root.subtree, m.IsOrdinary := by
  obtain ⟨hkind, hattributes, hchildren⟩ := hroot
  rw [Node.subtree_eq]
  refine List.forall_mem_cons.mpr ⟨⟨?_, ?_, ?_⟩, Node.AllParsed.isOrdinary hchildren⟩
  · rw [hattributes]
    exact fun a ha => absurd ha List.not_mem_nil
  · rw [hkind]
    exact fun h => absurd h (by decide)
  · rw [hkind]
    exact fun h => absurd h (by decide)

namespace Validation

variable {α σ : Type}

theorem Gives.and {P Q : α → Prop} {x : Validate σ α} (hp : Gives P x) (hq : Gives Q x) :
    Gives (fun a => P a ∧ Q a) x := fun s => ⟨hp s, hq s⟩

/-- What a node other than an invocation of a tag is checked for, its attributes with code apart. -/
def checkNode (env : Env σ) (parent : Kind) (h : Head) (cs : List Node) : Validate σ Unit :=
  if h.kind = .root ∨ h.kind = .text ∨ h.kind = .textAction then pure ()
  else if h.kind.isDirective then directive env h cs
  else checkAction env parent h cs

theorem actionInfo_of_isDirective {kind : Kind} (h : kind.isDirective = true) (info : ChildInfo) :
    actionInfo kind info = info := by
  cases kind <;> first | rfl | cases h

section Visit

variable (env : Env σ) (parent : Kind) (scope : Scope) {h : Head} (cs : List Node)

theorem visit_code (hk : h.kind.isScripting = true) : visit env parent scope (.mk h cs) = (do
    if scope.scriptless then
      report .scriptingNotAllowed h.start (h.kind.name ++ " is not allowed in a scriptless body")
    return (.mk h cs, {}) : Validate σ (Node × ChildInfo)) := by
  unfold visit
  split <;> first | rfl | simp_all [Kind.isScripting]

theorem visit_expression (hk : h.kind = .elExpression) : visit env parent scope (.mk h cs) = (do
    expression env h.el h.start
    return (.mk { h with info := emptyInfo } cs, emptyInfo)) := by
  unfold visit
  simp only [hk]

theorem visit_tag {t : CustomTag} {d : TagDescriptor} (hk : h.kind = .customTag)
    (ht : h.tag = some t) (hd : t.descriptor = some d) :
    visit env parent scope (.mk h cs) = (do
      let h' ← checkTag env t d scope.nesting h cs
      let r ← visitAll env h'.kind (childScope d scope) cs
      let info := ChildInfo.merge r.2 (← attributeInfo h' scope)
      let hasVariables := info.hasVariables || (h'.tag.any fun t => !t.vars.isEmpty)
      return (.mk { h' with info := info } r.1, { info with hasVariables := hasVariables })) := by
  unfold visit
  simp only [hk, ht, hd, Option.getD_some]

theorem visit_open (hcode : h.kind.isScripting = false) (hel : h.kind ≠ .elExpression)
    (htag : h.kind ≠ .customTag) : visit env parent scope (.mk h cs) = (do
      checkNode env parent h cs
      let r ← visitAll env h.kind (fun _ => scope) cs
      let info := actionInfo h.kind (ChildInfo.merge r.2 (← attributeInfo h scope))
      return (.mk { h with info := info } r.1, info)) := by
  unfold visit checkNode
  split
  iterate 3 next hk => exact absurd hcode (by rw [hk]; decide)
  · next hk => exact absurd hk hel
  iterate 3 next hk => rw [hk]; rfl
  · next hk => exact absurd hk htag
  · next hroot htext haction _ =>
    have hchecked : ¬(h.kind = .root ∨ h.kind = .text ∨ h.kind = .textAction) :=
      not_or.mpr ⟨hroot, not_or.mpr ⟨htext, haction⟩⟩
    rw [if_neg hchecked]
    by_cases hdirective : h.kind.isDirective = true
    · simp only [if_pos hdirective, actionInfo_of_isDirective hdirective]
    · simp only [if_neg hdirective]

end Visit

theorem visitAll_cons (env : Env σ) (parent : Kind) (scopeOf : Head → Scope) (n : Node)
    (ns : List Node) : visitAll env parent scopeOf (n :: ns) = (do
      let r ← visit env parent (scopeOf n.head) n
      let r' ← visitAll env parent scopeOf ns
      return (r.1 :: r'.1, ChildInfo.merge r.2 r'.2)) := by
  cases n
  rfl

/-- Every node is a leaf that is code or an expression, a tag, or is checked by itself. -/
theorem Kind.visit_cases (k : Kind) : k.isScripting = true ∨ k = .elExpression ∨ k = .customTag ∨
    (k.isScripting = false ∧ k ≠ .elExpression ∧ k ≠ .customTag) := by
  cases k <;> simp [Kind.isScripting]

end Validation

/-! ### What a check sees of the children -/

/-- What no validation changes of a node and checks of the node above it may look at. -/
def Head.lasting (h : Head) : Head := { h.outline with start := h.start, trim := h.trim }

@[simp] theorem Head.attributeName_lasting (h : Head) :
    h.lasting.attributeName = h.attributeName := rfl

namespace Node

/-- What no validation changes of a node and those below it. -/
def lasting (n : Node) : Node := n.mapHeads Head.lasting

theorem lasting_mk (h : Head) (cs : List Node) :
    (mk h cs).lasting = mk h.lasting (cs.map lasting) := by
  rw [lasting, mapHeads, mapHeadsAll_eq_map]
  rfl

@[simp] theorem head_lasting (n : Node) : n.lasting.head = n.head.lasting := head_mapHeads _ n

mutual

theorem outline_lasting (n : Node) : n.lasting.outline = n.outline := by
  match n with
  | .mk h cs =>
    rw [lasting_mk, outline_mk, outline_mk, outlines_lasting cs]
    simp [Head.lasting, Head.outline, Option.map_map, Function.comp_def]

theorem outlines_lasting (ns : List Node) : (ns.map lasting).map outline = ns.map outline := by
  match ns with
  | [] => rfl
  | n :: ns => rw [List.map_cons, List.map_cons, List.map_cons, outline_lasting n,
      outlines_lasting ns]

end

@[simp] theorem kind_lasting (n : Node) : n.lasting.kind = n.kind := by
  rw [kind, head_lasting]
  rfl

@[simp] theorem start_lasting (n : Node) : n.lasting.start = n.start := by
  rw [start, head_lasting]
  rfl

@[simp] theorem literalText?_lasting (n : Node) : n.lasting.literalText? = n.literalText? := by
  rw [← literalText?_outline, outline_lasting, literalText?_outline]

@[simp] theorem givesAttribute_lasting (name : Bytes) (n : Node) :
    n.lasting.givesAttribute name = n.givesAttribute name := by
  rw [givesAttribute, kind_lasting, head_lasting, Head.attributeName_lasting, givesAttribute]

@[simp] theorem isBlankContent_lasting (ns : List Node) :
    isBlankContent (ns.map lasting) = isBlankContent ns := by
  rw [← isBlankContent_outline, outlines_lasting, isBlankContent_outline]

theorem namedAttributes_lasting (ns : List Node) :
    namedAttributes (ns.map lasting) = (namedAttributes ns).map lasting := by
  unfold namedAttributes
  rw [List.filter_map]
  exact congrArg (fun p => (ns.filter p).map lasting)
    (funext fun n => congrArg (· == Kind.namedAttribute) n.kind_lasting)

end Node

namespace Validation

variable {σ : Type} {env : Env σ}

/-! ### Signatures -/

@[simp] theorem isSupplied_lasting (h : Head) (cs : List Node) (name : Bytes) :
    isSupplied h (cs.map Node.lasting) name = isSupplied h cs name := by
  rw [isSupplied, isSupplied, List.any_map]
  exact congrArg (fun p => h.hasAttr name || cs.any p)
    (funext fun c => c.givesAttribute_lasting name)

theorem checkNamed_lasting (h : Head) (sigs : List Signature) (seen : List Bytes)
    (cs : List Node) : (checkNamed h sigs seen (cs.map Node.lasting) : Validate σ Bool) =
      checkNamed h sigs seen cs := by
  induction cs generalizing seen with
  | nil => rfl
  | cons c cs ih =>
    simp only [List.map_cons, checkNamed, ih, Node.head_lasting, Head.attributeName_lasting,
      Node.start_lasting]

theorem checkSignature_lasting (h : Head) (cs : List Node) :
    checkSignature env h (cs.map Node.lasting) = checkSignature env h cs := by
  unfold checkSignature
  simp only [Node.namedAttributes_lasting, checkNamed_lasting, isSupplied_lasting]

theorem checkNode_lasting (parent : Kind) (h : Head) (cs : List Node) :
    checkNode env parent h (cs.map Node.lasting) = checkNode env parent h cs := by
  unfold checkNode directive checkAction
  simp only [checkSignature_lasting, isSupplied_lasting]

/-! ### Invocations of tags -/

theorem literalValue?_lasting (cs : List Node) (a : Attribute) :
    literalValue? (cs.map Node.lasting) a = literalValue? cs a := by
  unfold literalValue?
  split
  · rfl
  · cases a.child with
    | none => rfl
    | some i =>
      simp only [Option.bind_eq_bind, Option.bind_some, List.getElem?_map]
      cases cs[i]? with
      | none => rfl
      | some c =>
        simp only [Option.map_some, Option.bind_some, Node.literalText?_lasting, Node.head_lasting]
        rfl
  · rfl

theorem checkAttribute_lasting (d : TagDescriptor) (h : Head) (cs : List Node) (data : TagData)
    (a : Attribute) :
    checkAttribute env d h (cs.map Node.lasting) data a = checkAttribute env d h cs data a := by
  unfold checkAttribute
  rw [literalValue?_lasting]

theorem checkInlineAttributes_lasting (d : TagDescriptor) (h : Head) (cs : List Node)
    (data : TagData) (as : List Attribute) :
    checkInlineAttributes env d h (cs.map Node.lasting) data as =
      checkInlineAttributes env d h cs data as := by
  induction as generalizing data with
  | nil => rfl
  | cons a as ih => simp only [checkInlineAttributes, checkAttribute_lasting, ih]

theorem checkNamedAttribute_lasting (d : TagDescriptor) (h : Head) (cs : List Node)
    (data : TagData) (i : Nat) (n : Head) :
    checkNamedAttribute env d h (cs.map Node.lasting) data i n.lasting =
      checkNamedAttribute env d h cs data i n := by
  unfold checkNamedAttribute
  simp only [checkAttribute_lasting]
  rfl

theorem checkNamedAttributes_lasting (d : TagDescriptor) (cs : List Node) (h : Head)
    (data : TagData) (i : Nat) (ns : List Node) :
    checkNamedAttributes env d (cs.map Node.lasting) h data i (ns.map Node.lasting) =
      checkNamedAttributes env d cs h data i ns := by
  induction ns generalizing h data i with
  | nil => rfl
  | cons n ns ih =>
    simp only [List.map_cons, checkNamedAttributes, Node.kind_lasting, Node.head_lasting,
      Head.attributeName_lasting, checkNamedAttribute_lasting, ih]

/-- The check of an invocation sees what is lasting of the children. -/
theorem checkTag_lasting (t : CustomTag) (d : TagDescriptor) (nesting : Nat) (h : Head)
    (cs : List Node) :
    checkTag env t d nesting h (cs.map Node.lasting) = checkTag env t d nesting h cs := by
  unfold checkTag
  simp only [checkInlineAttributes_lasting, checkNamedAttributes_lasting, isSupplied_lasting,
    Node.isBlankContent_lasting]

/-! ### Visits -/

theorem checkNamedAttributes_leaves (env : Env σ) (d : TagDescriptor) (cs : List Node) (h : Head)
    (data : TagData) (i : Nat) (ns : List Node) :
    Gives (fun r => ∃ as, r.1 = { h with attributes := as })
      (checkNamedAttributes env d cs h data i ns) := by
  induction ns generalizing h data i with
  | nil => exact .pure ⟨h.attributes, rfl⟩
  | cons n ns ih =>
    unfold checkNamedAttributes
    refine .ite ?_ (ih h data (i + 1))
    have hone : Gives (fun r => ∃ as, r.1 = { h with attributes := as })
        (checkNamedAttribute env d h cs data i n.head) := by
      unfold checkNamedAttribute
      dsimp only
      split
      · exact .ite (.skip fun _ => .pure ⟨_, rfl⟩) (.skip fun _ => .pure ⟨h.attributes, rfl⟩)
      · refine .skip fun c => .pure ?_
        dsimp only
        split
        · exact ⟨_, rfl⟩
        · exact ⟨h.attributes, rfl⟩
    refine hone.bind fun r hr => (ih r.1 r.2 (i + 1)).mono fun r' hr' => ?_
    obtain ⟨as, hr⟩ := hr
    obtain ⟨as', hr'⟩ := hr'
    exact ⟨as', by rw [hr', hr]⟩

/-- The check of an invocation fills in its attributes and its tag. -/
theorem checkTag_leaves (env : Env σ) (t : CustomTag) (d : TagDescriptor) (nesting : Nat)
    (h : Head) (cs : List Node) :
    Gives (fun h' => ∃ as data vars, h' = { h with
      attributes := as
      tag := some { t with nesting := nesting, data := data, vars := vars } })
      (checkTag env t d nesting h cs) := by
  refine .skip fun r => ?_
  refine (checkNamedAttributes_leaves env d cs _ r.2 0 cs).bind fun r' hr' => ?_
  obtain ⟨as, hr'⟩ := hr'
  have hend : Gives (fun h' : Head => ∃ as data vars, h' = { h with
      attributes := as
      tag := some { t with nesting := nesting, data := data, vars := vars } })
      (do
        let vars ← checkVariables d r'.1 r'.2
        addPrefix t.prefixName t.uri
        return { r'.1 with tag := some { t with nesting := nesting, data := r'.2, vars := vars } } :
          Validate σ Head) :=
    .skip fun vars => .skip fun _ => .pure ⟨as, r'.2, vars, by rw [hr']⟩
  refine .skip fun _ => .ite (.skip fun _ => ?_) ?_
  all_goals
    dsimp only
    split
    · exact .skip fun _ => hend
    · exact hend

mutual

/-- The visit of a node leaves what is lasting. -/
theorem visit_lasting (env : Env σ) (n : Node) (hn : ∀ m ∈ n.subtree, m.IsOrdinary) (parent : Kind)
    (scope : Scope) : Gives (fun r => r.1.lasting = n.lasting) (visit env parent scope n) := by
  match n with
  | .mk h cs =>
    obtain ⟨hself, hbelow⟩ := List.forall_mem_cons.mp hn
    have hcs := fun parent scopeOf => visitAll_lasting env cs hbelow parent scopeOf
    obtain hk | hk | hk | ⟨hcode, hel, htag⟩ := Kind.visit_cases h.kind
    · rw [visit_code env parent scope cs hk]
      exact .ite (.skip fun _ => .pure rfl) (.pure rfl)
    · rw [visit_expression env parent scope cs hk]
      exact .skip fun _ => .pure rfl
    · obtain ⟨t, d, ht, hd⟩ := hself.tag hk
      rw [visit_tag env parent scope cs hk ht hd]
      refine (checkTag_leaves env t d scope.nesting h cs).bind fun h' hh => ?_
      refine (hcs _ _).bind fun r hr => .skip fun i => .pure ?_
      obtain ⟨as, data, vars, rfl⟩ := hh
      rw [Node.lasting_mk, Node.lasting_mk, hr]
      simp [Head.lasting, Head.outline, ht]
    · rw [visit_open env parent scope cs hcode hel htag]
      refine .skip fun _ => (hcs _ _).bind fun r hr => .skip fun i => .pure ?_
      rw [Node.lasting_mk, Node.lasting_mk, hr]
      rfl

theorem visitAll_lasting (env : Env σ) (cs : List Node)
    (hcs : ∀ m ∈ Node.subtreeAll cs, m.IsOrdinary) (parent : Kind) (scopeOf : Head → Scope) :
    Gives (fun r => r.1.map Node.lasting = cs.map Node.lasting)
      (visitAll env parent scopeOf cs) := by
  match cs, hcs with
  | [], _ => exact .pure rfl
  | .mk h ds :: cs, hcs =>
    obtain ⟨hc, hcs⟩ := List.forall_mem_append.mp hcs
    unfold visitAll
    refine (visit_lasting env (.mk h ds) hc parent _).bind fun r hr => ?_
    refine (visitAll_lasting env cs hcs parent scopeOf).bind fun r' hr' => .pure ?_
    rw [List.map_cons, List.map_cons, hr, hr']

end

end Validation

end ServerPages
