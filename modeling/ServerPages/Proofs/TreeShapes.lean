import ServerPages.Proofs.CarriedSiblings

/-!
# Shapes of trees

Both syntaxes make nodes and heads in the same few ways. A `TreeShape` is a property of nodes that
all of these ways keep, and of the heads that children are put under; a shape that is one is the
shape of every parsed tree, whatever the source and the surroundings.

The first of them is the shape that validation starts from: text, code and expressions are leaves
without attributes, the root stands at the top only, every tag has its contract, and no attribute is
given as content: those that are become attributes only when the unit is validated.

## Main results

* `ParseRequest.parse_returns`: the nodes of every parsed tree have every such shape.
* `ParseRequest.parse_isUnit`: the tree of every source that is parsed is one of a unit.
-/

namespace ServerPages

/-- Whether attributes of the kind are given in the start tag. -/
def AttributeKind.isInline : AttributeKind → Bool
  | .literal | .el | .script => true
  | _ => false

/-- A property of nodes, and of heads that children may stand under, that everything parsing does
keeps. -/
structure TreeShape where
  /-- The heads that children may stand under. -/
  isOpen : Head → Prop
  /-- The nodes. -/
  isNode : Node → Prop
  /-- The head of a directive. -/
  directive : ∀ {name : Bytes} {k : Kind}, Kind.directive? name = some k → ∀ p scriptless,
    isOpen { kind := k, start := p, name := name, inScriptless := scriptless }
  /-- The head of a standard action. -/
  action : ∀ {name : Bytes} {k : Kind}, Kind.action? name = some k → ∀ p scriptless,
    isOpen {
      kind := k, start := p, name := "jsp:" ++ name, inScriptless := scriptless,
      trim := k == .namedAttribute }
  /-- The head of a tag. -/
  tag : ∀ (d : TagDescriptor) (uri prefixName name : Bytes) p scriptless,
    isOpen {
      kind := .customTag, start := p, name := prefixName ++ ":" ++ name,
      inScriptless := scriptless,
      tag := some {
        prefixName := prefixName, localName := name, uri := uri, descriptor := some d } }
  /-- A head with one more attribute, which has a name that no other one has; no attribute is known
  to take a fragment yet. -/
  withAttribute : ∀ {h : Head} {a : Attribute}, isOpen h → a.name ≠ [] → h.hasAttr a.name = false →
    a.kind.isInline = true → a.fragment = false →
    isOpen (Parsing.applyToNamed { h with attributes := h.attributes ++ [a] } a)
  /-- A tag that is written as one empty tag, or is not. -/
  selfClosed : ∀ {h : Head}, isOpen h → ∀ closed,
    isOpen { h with tag := h.tag.map fun t => { t with selfClosed := closed } }
  /-- A node with neither attributes nor children. -/
  leaf : ∀ {h : Head}, h.kind.isLeaf = true → h.attributes = [] → isNode (.leaf h)
  /-- A node with children that it takes. -/
  node : ∀ {h : Head} {cs : List Node}, isOpen h → h.Admits cs → (∀ c ∈ cs, isNode c) →
    isNode (.mk h cs)
  /-- A text that goes on. -/
  extend : ∀ {n : Node}, isNode n → ∀ more, isNode (n.extend more)

namespace TreeShape

/-- Nodes that stand side by side, all of a shape. -/
def All (S : TreeShape) (ns : List Node) : Prop := ∀ n ∈ ns, S.isNode n

theorem all_nil (S : TreeShape) : S.All [] := fun _ hn => absurd hn List.not_mem_nil

theorem All.push {S : TreeShape} {siblings : List Node} {n : Node} (hs : S.All siblings)
    (hn : S.isNode n) : S.All (Node.push siblings n) :=
  Node.forall_mem_push hs hn fun _ _ hm => S.extend hm n.text

end TreeShape

namespace Parsing

variable {σ : Type} {S : TreeShape}

theorem returns_directiveHead (S : TreeShape) (name : Bytes) (p : Position) (scriptless : Bool) :
    Returns S.isOpen (directiveHead name p scriptless : Parse σ Head) := by
  unfold directiveHead
  split
  · exact returns_refuse _ _ _
  · next k hk => exact Returns.pure (S.directive hk p scriptless)

theorem returns_actionHead (S : TreeShape) (name : Bytes) (p : Position) (scriptless : Bool) :
    Returns S.isOpen (actionHead name p scriptless : Parse σ Head) := by
  unfold actionHead
  split
  · exact returns_refuse _ _ _
  · next k hk => exact Returns.pure (S.action hk p scriptless)

theorem returns_tagHead (S : TreeShape) (env : Env σ) (l : TagLibrary)
    (uri prefixName name : Bytes) (p : Position) (scriptless : Bool) :
    Returns S.isOpen (tagHead env l uri prefixName name p scriptless) :=
  Returns.skip fun d => Returns.pure (S.tag d uri prefixName name p scriptless)

theorem isOpenTo_all (S : TreeShape) : IsOpenTo fun _ => S.All where
  nil _ := S.all_nil
  leaf _ _ _ hk ha hs := hs.push (S.leaf hk ha)

theorem returns_attributeOf (functionUri : Bytes → Bytes) (h : Head) {a : Attribute}
    (ha : a.kind.isInline = true) (raw : Bytes) (script scriptless : Bool) :
    Returns (fun b => b.kind.isInline = true ∧ b.name = a.name ∧ b.fragment = a.fragment)
      (attributeOf functionUri h a raw script scriptless : Parse σ Attribute) := by
  refine Returns.skip fun s => Returns.ite (Returns.pure ⟨ha, rfl, rfl⟩) ?_
  refine Returns.ite (Returns.ite ?_ (Returns.pure ⟨rfl, rfl, rfl⟩)) ?_
  · exact Returns.skip fun _ => Returns.pure ⟨rfl, rfl, rfl⟩
  refine Returns.ite ?_ (Returns.pure ⟨ha, rfl, rfl⟩)
  split
  · exact returns_refuse _ _ _
  · exact Returns.pure ⟨rfl, rfl, rfl⟩

theorem returns_addAttribute (functionUri : Bytes → Bytes) (uriOf : Option (Bytes → Bytes))
    {h : Head} (hh : S.isOpen h) (name raw : Bytes) (script : Bool) (p : Position)
    (scriptless : Bool) :
    Returns S.isOpen
      (addAttribute functionUri uriOf h name raw script p scriptless : Parse σ Head) := by
  unfold addAttribute
  dsimp only
  split
  · exact returns_refuse_bind _ _ _ _
  next hname =>
  split
  · exact returns_refuse_bind _ _ _ _
  next hfresh =>
  refine (returns_attributeOf _ _ rfl _ _ _).bind fun a ha => Returns.pure ?_
  obtain ⟨hkind, rfl, hfragment⟩ := ha
  exact S.withAttribute hh (by simpa using hname) (by simpa using hfresh) hkind hfragment

/-! ### The native syntax -/

namespace Native

theorem returns_attributes {h : Head} (hh : S.isOpen h) (scriptless : Bool) :
    Returns (fun r => S.isOpen r.1) (attributes h scriptless : Parse σ (Head × Bool)) :=
  Returns.skip fun _ => returns_attributesWithin_of
    (fun _ _ _ _ _ _ _ _ hh => returns_addAttribute _ _ hh _ _ _ _ _) _ _ hh

theorem returns_directiveAttributes (scriptless : Bool) (fuel : Nat) {h : Head} (hh : S.isOpen h) :
    Returns S.isOpen (directiveAttributes scriptless fuel h : Parse σ Head) :=
  returns_directiveAttributes_of
    (fun _ _ _ _ _ _ _ _ hh => returns_addAttribute _ _ hh _ _ _ _ _) _ _ hh

theorem returns_directive (env : Env σ) {included : Include σ}
    (hinc : ∀ h scriptless, Returns S.All (included h scriptless)) (p : Position)
    (scriptless : Bool) {siblings : List Node} (hs : S.All siblings) :
    Returns S.All (directive env included p scriptless siblings) := by
  refine Returns.skip fun _ => Returns.skip fun name => ?_
  refine (returns_directiveHead S _ _ _).bind fun h hh => Returns.skip fun _ => ?_
  refine (returns_directiveAttributes _ _ hh).bind fun h hh => ?_
  have hpush : ∀ cs, h.Admits cs → S.All cs →
      Returns S.All (Pure.pure (Node.push siblings (.mk h cs)) : Parse σ (List Node)) :=
    fun cs hadmits hcs => Returns.pure (hs.push (S.node hh hadmits hcs))
  dsimp only
  split
  · exact Returns.skip fun _ => hpush _ h.admits_nil S.all_nil
  · exact Returns.skip fun _ => hpush _ h.admits_nil S.all_nil
  · exact Returns.skip fun _ => hpush _ h.admits_nil S.all_nil
  · next hk => exact (hinc _ _).bind fun cs hcs => hpush cs (.of_include hk cs) hcs
  · exact hpush _ h.admits_nil S.all_nil

section Elements

variable {inner : Element σ} (hinner : inner.Carries fun _ => S.All) {siblings : List Node}
  (hs : S.All siblings)

include hinner hs

theorem returns_standardAction (hmakes : inner.MakesActions) (parent : Head) (scriptless : Bool) :
    Returns S.All (standardAction inner parent scriptless siblings) := by
  refine Returns.skip fun c => Returns.skip fun _ => Returns.skip fun name => ?_
  refine ((returns_actionHead S _ _ _).and (returns_kind_actionHead _ _ _)).bind fun h hh => ?_
  refine Returns.skip fun _ => ?_
  refine ((returns_attributes hh.1 _).and (returns_kind_attributes h _)).bind fun r hr => ?_
  refine Returns.ite (Returns.pure (hs.push (S.node hr.1 r.1.admits_nil S.all_nil))) ?_
  have hd : r.1.kind.isDirective = false := hr.2 ▸ Kind.isDirective_of_action? hh.2
  have hbody := carries_actionBody (isOpenTo_all S) hinner parent r.1 scriptless
  refine (hbody.and (admits_actionBody hmakes _ hd _)).bind ?_
  exact fun cs hcs => Returns.pure (hs.push (S.node hr.1 hcs.2 hcs.1))

theorem returns_customTag (env : Env σ) (prefixName name : Bytes) (b : Binding)
    (scriptless : Bool) :
    Returns S.All (customTag env inner prefixName name b scriptless siblings) := by
  refine Returns.skip fun c => Returns.skip fun _ => ?_
  refine ((returns_tagHead S _ _ _ _ _ _ _).and (returns_kind_tagHead _ _ _ _ _ _ _)).bind ?_
  intro h hh
  refine ((returns_attributes hh.1 _).and (returns_kind_attributes h _)).bind fun r hr => ?_
  have hr' := S.selfClosed hr.1 r.2
  have hadmits := fun cs => Head.Admits.of_tag (h := r.1) (hr.2.trans hh.2) r.2 cs
  refine Returns.ite (Returns.pure (hs.push (S.node hr' (hadmits []) S.all_nil))) ?_
  exact (carries_tagBody (isOpenTo_all S) hinner _ _).bind fun cs hcs =>
    Returns.pure (hs.push (S.node hr' (hadmits cs) hcs))

end Elements

/-- The constructs of the native syntax keep a shape. -/
theorem isCarried_all (env : Env σ) {included : Include σ}
    (hinc : ∀ h scriptless, Returns S.All (included h scriptless)) :
    IsCarried env included fun _ => S.All where
  toIsOpenTo := isOpenTo_all S
  directive hs p scriptless := returns_directive env hinc p scriptless hs
  action hinner hmakes _ _ hs scriptless := returns_standardAction hinner hs hmakes _ scriptless
  tag hinner _ _ _ hs _ _ b scriptless := returns_customTag hinner hs env _ _ b scriptless

end Native

/-! ### Documents -/

namespace Document

theorem returns_addAttributes (ns : Namespaces) (p : Position) (scriptless : Bool) {h : Head}
    (hh : S.isOpen h) (as : List Markup.Attribute) :
    Returns S.isOpen (addAttributes ns p scriptless h as : Parse σ Head) := by
  induction as generalizing h with
  | nil => exact Returns.pure hh
  | cons a as ih =>
    exact Returns.ite (ih hh) <|
      (returns_addAttribute _ _ hh _ _ _ _ _).bind fun h hh => ih hh

section Elements

variable {included : Include σ}
  (hinc : ∀ h scriptless, Returns S.All (included h scriptless))
  {inner : Content σ} (hinner : inner.Carries fun _ => S.All) {siblings : List Node}
  (hs : S.All siblings)

include hinc hs in
theorem returns_directive (ns : Namespaces) (t : StartTag) (name : Bytes) (scriptless : Bool) :
    Returns S.All (directive included ns t name scriptless siblings) := by
  refine Returns.guard fun _ => (returns_directiveHead S _ _ _).bind fun h hh => ?_
  refine (returns_addAttributes _ _ _ hh _).bind fun h hh => Returns.skip fun _ => ?_
  have hpush : ∀ cs, h.Admits cs → S.All cs →
      Returns S.All (Pure.pure (Node.push siblings (.mk h cs)) : Parse σ (List Node)) :=
    fun cs hadmits hcs => Returns.pure (hs.push (S.node hh hadmits hcs))
  refine Returns.guard fun _ => ?_
  dsimp only
  split
  · exact Returns.skip fun _ => hpush _ h.admits_nil S.all_nil
  · exact Returns.skip fun _ => hpush _ h.admits_nil S.all_nil
  · next hk => exact (hinc _ _).bind fun cs hcs => hpush cs (.of_include hk cs) hcs
  · exact hpush _ h.admits_nil S.all_nil

include hs in
theorem returns_textAction (ns : Namespaces) (t : StartTag) (scriptless : Bool) :
    Returns S.All (textAction ns t scriptless siblings : Parse σ (List Node)) := by
  refine ((returns_actionHead S _ _ _).and (returns_kind_actionHead _ _ _)).bind fun h hh => ?_
  refine ((returns_addAttributes _ _ _ hh.1 _).and (returns_kind_addAttributes _ _ _ h _)).bind ?_
  intro h' hh'
  refine Returns.skip fun p => Returns.skip fun s => ?_
  have hk : h'.kind = .textAction := hh'.2.trans (Option.some.inj hh.2).symm
  have hadmits := fun cs => Head.Admits.of_kind (h := h') (hk ▸ rfl) (hk ▸ rfl) cs
  exact (returns_textNodes ((isOpenTo_all S).leaf h') _ S.all_nil _ _ _ _).bind fun cs hcs =>
    Returns.pure (hs.push (S.node hh'.1 (hadmits cs) hcs))

include hinner hs in
theorem returns_standardAction (ns : Namespaces) (t : StartTag) (parent : Head)
    (scriptless : Bool) :
    Returns S.All (standardAction inner ns t parent scriptless siblings) := by
  refine ((returns_actionHead S _ _ _).and (returns_kind_actionHead _ _ _)).bind fun h hh => ?_
  refine Returns.skip fun _ => ?_
  refine ((returns_addAttributes _ _ _ hh.1 _).and (returns_kind_addAttributes _ _ _ h _)).bind ?_
  intro h' hh'
  have hd : h'.kind.isDirective = false := hh'.2 ▸ Kind.isDirective_of_action? hh.2
  have hadmits := admits_actionChildren inner ns t parent hd scriptless
  refine ((carries_actionChildren (isOpenTo_all S) hinner _ _ _ _ _).and hadmits).bind ?_
  exact fun cs hcs => Returns.pure (hs.push (S.node hh'.1 hcs.2 hcs.1))

include hinner hs in
theorem returns_customTag (env : Env σ) (ns : Namespaces) (t : StartTag) (l : TagLibrary)
    (scriptless : Bool) :
    Returns S.All (customTag env inner ns t l scriptless siblings) := by
  refine ((returns_tagHead S _ _ _ _ _ _ _).and (returns_kind_tagHead _ _ _ _ _ _ _)).bind ?_
  intro h hh
  refine ((returns_addAttributes _ _ _ hh.1 _).and (returns_kind_addAttributes _ _ _ h _)).bind ?_
  intro h' hh'
  have hadmits := fun cs => Head.Admits.of_tag (hh'.2.trans hh.2) t.selfClosing cs
  exact (carries_tagChildren (isOpenTo_all S) hinner _ _ _ _).bind fun cs hcs =>
    Returns.pure (hs.push (S.node (S.selfClosed hh'.1 _) (hadmits cs) hcs))

end Elements

/-- The constructs of a document keep a shape. -/
theorem isCarried_all (env : Env σ) {included : Include σ}
    (hinc : ∀ h scriptless, Returns S.All (included h scriptless)) :
    IsCarried env included fun _ => S.All where
  nil _ := S.all_nil
  text {parent} _ hs uriOf _ _ p scriptless allowEl :=
    returns_textNodes ((isOpenTo_all S).leaf parent) uriOf hs _ p scriptless allowEl
  directive hs ns t name scriptless := returns_directive hinc hs ns t name scriptless
  scripting {parent} _ hs _ hk t scriptless :=
    carries_scripting ((isOpenTo_all S).leaf parent) hs hk t scriptless
  textAction hs ns t scriptless := returns_textAction hs ns t scriptless
  action hinner _ _ hs ns t _ scriptless := returns_standardAction hinner hs ns t _ scriptless
  tag hinner _ _ hs ns t l scriptless := returns_customTag hinner hs env ns t l scriptless

end Document

theorem all_parseSource (S : TreeShape) (env : Env σ) (depth : Nat) (form : PageSyntax)
    (parent : Head) (scriptless : Bool) :
    Returns S.All (parseSource env depth form parent scriptless) :=
  returns_parseSource (P := fun _ => S.All) (fun _ => Native.isCarried_all env) (fun _ _ => id)
    (fun _ => Document.isCarried_all env) (fun _ _ => id) depth form parent scriptless

end Parsing

/-- The nodes of every parsed tree have every shape that parsing keeps. The root has no
attributes. -/
theorem ParseRequest.parse_returns {σ : Type} (S : TreeShape) {r : ParseRequest} {host : Host σ}
    {memory : σ} {tree : Node} (h : (r.parse host memory).1 = .ok tree) :
    tree.kind = .root ∧ tree.head.attributes = [] ∧ S.All tree.children := by
  unfold ParseRequest.parse at h
  dsimp only at h
  split at h
  · next cs t hrun =>
      obtain rfl := Except.ok.inj h
      exact ⟨rfl, rfl, Parsing.all_parseSource S _ _ _ _ _ _ _ _ hrun⟩
  · cases h

/-- A parsed tree is the unit that was asked for. -/
theorem ParseRequest.unit_of_parse {σ : Type} {r : ParseRequest} {host : Host σ} {memory : σ}
    {tree : Node} (h : (r.parse host memory).1 = .ok tree) :
    ∃ u, tree.head.unit = some u ∧ u.isTagFile = (r.tagFile || isTagFilePath r.path) := by
  unfold ParseRequest.parse at h
  dsimp only at h
  split at h
  · obtain rfl := Except.ok.inj h
    exact ⟨_, rfl, rfl⟩
  · cases h

/-! ### Parsed units -/

/-- The contract of the tag that a node invokes. -/
def Head.descriptor? (h : Head) : Option TagDescriptor := h.tag.bind (·.descriptor)

/-- A head as parsing leaves it. -/
structure Head.IsParsed (h : Head) : Prop where
  kind_ne_root : h.kind ≠ .root
  not_named : ∀ a ∈ h.attributes, a.kind ≠ .named
  descriptor : h.kind = .customTag → h.descriptor?.isSome

/-- A node as parsing leaves it. -/
inductive Node.IsParsed : Node → Prop where
  | mk {h : Head} {cs : List Node} (head : h.IsParsed)
    (leaf : h.kind.isLeaf = true → cs = [] ∧ h.attributes = [])
    (children : ∀ c ∈ cs, Node.IsParsed c) : Node.IsParsed (.mk h cs)

/-- A tree as parsing leaves it. -/
structure Node.IsUnit (root : Node) : Prop where
  kind : root.kind = .root
  attributes : root.head.attributes = []
  children : ∀ c ∈ root.children, c.IsParsed

/-- Nodes that stand side by side, as parsing leaves them. -/
def Node.AllParsed (ns : List Node) : Prop := ∀ n ∈ ns, n.IsParsed

theorem Node.allParsed_nil : Node.AllParsed [] := fun _ hn => absurd hn List.not_mem_nil

/-- Text that goes on changes neither attributes nor children. -/
theorem Node.IsParsed.extend {n : Node} (hn : n.IsParsed) (more : Bytes) :
    (n.extend more).IsParsed := by
  obtain ⟨head, leaf, children⟩ := hn
  exact ⟨⟨head.kind_ne_root, head.not_named, head.descriptor⟩, leaf, children⟩

/-- A head under which children may stand, as parsing leaves it. -/
structure Head.IsOpen (h : Head) : Prop extends Head.IsParsed h where
  not_leaf : h.kind.isLeaf = false

theorem Head.IsOpen.node {h : Head} {cs : List Node} (hh : h.IsOpen) (hcs : Node.AllParsed cs) :
    (Node.mk h cs).IsParsed :=
  ⟨hh.toIsParsed, fun hl => absurd hl (hh.not_leaf ▸ Bool.false_ne_true), hcs⟩

/-- Noting whether a tag is written as one empty tag changes nothing else. -/
theorem Head.IsOpen.selfClosed {h : Head} (hh : h.IsOpen) (closed : Bool) :
    Head.IsOpen { h with tag := h.tag.map fun t => { t with selfClosed := closed } } := by
  refine ⟨⟨hh.kind_ne_root, hh.not_named, fun hk => ?_⟩, hh.not_leaf⟩
  have hd := hh.descriptor hk
  revert hd
  unfold Head.descriptor?
  cases h.tag <;> simp

/-- A head without attributes that may have children, of a kind that is no tag. -/
theorem Head.IsOpen.of_kind {h : Head} (hk : h.kind ≠ .root ∧ h.kind ≠ .customTag)
    (hl : h.kind.isLeaf = false) (ha : h.attributes = []) : h.IsOpen where
  kind_ne_root := hk.1
  not_named := by rw [ha]; exact fun a h => absurd h List.not_mem_nil
  descriptor h := absurd h hk.2
  not_leaf := hl

/-- One more attribute that is not given as content. -/
theorem Head.IsOpen.append {h : Head} (hh : h.IsOpen) {a : Attribute} (ha : a.kind ≠ .named) :
    Head.IsOpen { h with attributes := h.attributes ++ [a] } := by
  refine ⟨⟨hh.kind_ne_root, ?_, hh.descriptor⟩, hh.not_leaf⟩
  exact List.forall_mem_append.mpr ⟨hh.not_named, List.forall_mem_singleton.mpr ha⟩

theorem Head.IsOpen.applyToNamed {h : Head} (hh : h.IsOpen) (a : Attribute) :
    (Parsing.applyToNamed h a).IsOpen := by
  unfold Parsing.applyToNamed
  split
  · exact hh
  split
  · exact ⟨⟨hh.kind_ne_root, hh.not_named, hh.descriptor⟩, hh.not_leaf⟩
  split
  · exact ⟨⟨hh.kind_ne_root, hh.not_named, hh.descriptor⟩, hh.not_leaf⟩
  · exact hh

theorem Node.IsParsed.of_leaf {h : Head} (hl : h.kind.isLeaf = true) (ha : h.attributes = []) :
    (Node.leaf h).IsParsed := by
  have hk : h.kind ≠ .root ∧ h.kind ≠ .customTag := by
    constructor <;> intro he <;> rw [he] at hl <;> exact absurd hl (by decide)
  refine ⟨⟨hk.1, ?_, fun h => absurd h hk.2⟩, fun _ => ⟨rfl, ha⟩, Node.allParsed_nil⟩
  rw [ha]
  exact fun a h => absurd h List.not_mem_nil

/-! ### Nodes of both syntaxes -/

theorem Kind.directive?_eq_some {name : Bytes} {k : Kind} (h : Kind.directive? name = some k) :
    (k ≠ .root ∧ k ≠ .customTag) ∧ k.isLeaf = false := by
  obtain ⟨l, r, hl, -⟩ := List.lookup_eq_some_iff.mp h
  have hk : k ∈ Kind.directives.map (·.2) := by simp [hl]
  revert hk
  cases k <;> decide

theorem Kind.action?_eq_some {name : Bytes} {k : Kind} (h : Kind.action? name = some k) :
    (k ≠ .root ∧ k ≠ .customTag) ∧ k.isLeaf = false := by
  obtain ⟨l, r, hl, -⟩ := List.lookup_eq_some_iff.mp h
  have hk : k ∈ Kind.actions.map (·.2) := by simp [hl]
  revert hk
  cases k <;> decide

theorem AttributeKind.ne_named_of_isInline {k : AttributeKind} (h : k.isInline = true) :
    k ≠ .named := by
  rintro rfl
  cases h

/-- The shape that parsing leaves. -/
def parsedShape : TreeShape where
  isOpen := Head.IsOpen
  isNode := Node.IsParsed
  directive hk _ _ := Head.IsOpen.of_kind (Kind.directive?_eq_some hk).1
    (Kind.directive?_eq_some hk).2 rfl
  action hk _ _ := Head.IsOpen.of_kind (Kind.action?_eq_some hk).1 (Kind.action?_eq_some hk).2 rfl
  tag _ _ _ _ _ _ := ⟨⟨by simp, fun a ha => absurd ha List.not_mem_nil, fun _ => rfl⟩, rfl⟩
  withAttribute hh _ _ ha _ := (hh.append (AttributeKind.ne_named_of_isInline ha)).applyToNamed _
  selfClosed hh closed := hh.selfClosed closed
  leaf hl ha := Node.IsParsed.of_leaf hl ha
  node hh _ hcs := hh.node hcs
  extend hn more := hn.extend more

theorem Node.AllParsed.push {siblings : List Node} {n : Node} (hs : Node.AllParsed siblings)
    (hn : n.IsParsed) : Node.AllParsed (Node.push siblings n) :=
  TreeShape.All.push (S := parsedShape) hs hn

/-- **Parsed trees have the shape of units**, in both syntaxes and whatever the surroundings. -/
theorem ParseRequest.parse_isUnit {σ : Type} {r : ParseRequest} {host : Host σ} {memory : σ}
    {tree : Node} (h : (r.parse host memory).1 = .ok tree) : tree.IsUnit := by
  obtain ⟨hkind, hattributes, hchildren⟩ := r.parse_returns parsedShape h
  exact ⟨hkind, hattributes, hchildren⟩

end ServerPages
