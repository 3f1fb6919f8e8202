import ServerPages.Proofs.BoundAttributes
import ServerPages.Proofs.ValueWriting

/-!
# Nodes that generation comes to

Generating a node comes to nodes inside it: the content of a tag unless it is blank, the content of
named attributes that are passed on, the values of a standard action. What else is inside a node is
passed over. `Node.entered` lists the nodes that are come to from a node, in order, and `Reached`
are those that are come to in the end.

Generation stops nowhere if every node is complete, that is if validation left it with what its
kind asks for, and every literal value that is come to is one of its type.

## Main results

* `Reached.inside_or_madeUp`: only nodes of the tree are reached, and leaves made up for values.
* `bodyStops_eq_nil`: complete nodes with valid literals do not stop generation.
-/

namespace ServerPages.Generation

/-! ### Nodes that are come to from a node -/

/-- The nodes in the value of an attribute; `named` is the named attribute that gives it. -/
def valueNodes (a : Attribute) (named : Option Node) : List Node :=
  if a.fragment then fragmentNodes a named
  else
    match a.kind, named with
    | .named, some n => n.children
    | _, _ => []

/-- The nodes in an attribute passed to a handler. -/
def attributeNodes (n : Node) (a : Attribute) : List Node :=
  let named := a.child.bind (n.children[·]?)
  if a.kind == .named && named.any (·.head.attrValue "omit" == ("true" : Bytes)) then []
  else valueNodes a named

/-- The nodes that running a tag comes to: those of its attributes, then its content. -/
def invocationNodes (d : TagDescriptor) (n : Node) : List Node :=
  n.head.attributes.flatMap (attributeNodes n) ++
    if d.body != .empty && !n.hasEmptyBody then n.content else []

/-- The nodes that an invocation of a tag comes to. -/
def tagNodes (n : Node) : List Node :=
  match n.head.descriptor? with
  | some d => invocationNodes d n
  | none => []

/-- The nodes in an attribute of a standard action. -/
def actionValueNodes (n : Node) (name : Bytes) : List Node :=
  match n.head.attr? name, n.children.find? (·.givesAttribute name) with
  | some a, _ => valueNodes a none
  | none, some c => c.children
  | none, none => []

/-- The nodes in the parameters among some nodes. -/
def paramNodes (ns : List Node) : List Node :=
  (ns.filter (·.kind == .param)).flatMap fun n =>
    actionValueNodes n "name" ++ actionValueNodes n "value"

/-- The nodes that a standard action comes to. -/
def actionNodes (n : Node) : List Node :=
  match n.kind with
  | .includeAction | .forwardAction => actionValueNodes n "page" ++ paramNodes n.children
  | .useBean =>
    (if n.head.attrValue "beanName" != [] then actionValueNodes n "beanName" else []) ++
      if n.hasEmptyBody then [] else n.content
  | .setProperty =>
    if n.head.attrValue "property" == "*" then []
    else if n.head.hasAttr "value" || n.children.any (·.givesAttribute "value") then
      actionValueNodes n "value"
    else []
  | .plugin =>
    n.head.attributes.flatMap (valueNodes · none) ++
      (n.children.filter (·.kind == .params)).flatMap fun c => paramNodes c.children
  | _ => []

end ServerPages.Generation

namespace ServerPages.Node

open Generation

/-- The nodes that generation comes to from a node, in order. -/
def entered (n : Node) : List Node :=
  match n.kind with
  | .textAction | .body | .includeDirective => n.children
  | .customTag => tagNodes n
  | _ => actionNodes n

end ServerPages.Node

namespace ServerPages.Generation

/-- A node that the generation of some nodes comes to. -/
inductive Reached (ns : List Node) : Node → Prop where
  | top {n : Node} (h : n ∈ ns) : Reached ns n
  | inside {n m : Node} (h : Reached ns n) (hm : m ∈ n.entered) : Reached ns m

namespace Reached

variable {ns ms : List Node} {n m : Node}

theorem trans (h : Reached ms m) (hms : ∀ n ∈ ms, Reached ns n) : Reached ns m := by
  induction h with
  | top h => exact hms _ h
  | inside _ hm ih => exact .inside ih hm

theorem mono (h : Reached ms m) (hms : ms ⊆ ns) : Reached ns m := h.trans fun _ hn => .top (hms hn)

/-- What is reached from the nodes inside a node is reached from the node. -/
theorem of_entered (hn : Reached ns n) (h : Reached n.entered m) : Reached ns m :=
  h.trans fun _ hl => .inside hn hl

theorem append_iff : Reached (ns ++ ms) m ↔ Reached ns m ∨ Reached ms m := by
  constructor
  · intro h
    induction h with
    | top h => exact (List.mem_append.mp h).imp .top .top
    | inside _ hm ih => exact ih.imp (.inside · hm) (.inside · hm)
  · rintro (h | h)
    · exact h.mono (List.subset_append_left _ _)
    · exact h.mono (List.subset_append_right _ _)

theorem singleton_iff : Reached [n] m ↔ m = n ∨ Reached n.entered m := by
  constructor
  · intro h
    induction h with
    | top h => exact .inl (List.mem_singleton.mp h)
    | inside _ hm ih =>
      rcases ih with rfl | ih
      · exact .inr (.top hm)
      · exact .inr (.inside ih hm)
  · rintro (rfl | h)
    · exact .top List.mem_cons_self
    · exact .of_entered (.top List.mem_cons_self) h

end Reached

/-! ### Where reached nodes stand -/

end ServerPages.Generation

namespace ServerPages

/-- A leaf made up for the value of an attribute, which has no attributes. -/
structure Node.IsValueLeaf (n : Node) : Prop extends n.IsMadeUp where
  attributes : n.head.attributes = []

end ServerPages

namespace ServerPages.Generation

/-- A node below another one, or a leaf made up for a value. -/
def IsBelow (n m : Node) : Prop := m ∈ Node.subtreeAll n.children ∨ m.IsValueLeaf

section Inside

variable {n m : Node}

theorem isBelow_of_child {c : Node} (hc : c ∈ n.children) (hm : m ∈ c.children) : IsBelow n m :=
  .inl (Node.mem_subtreeAll.mpr ⟨c, hc, Node.mem_subtree_of_child hm m.mem_subtree_self⟩)

theorem isBelow_of_mem_children (hm : m ∈ n.children) : IsBelow n m :=
  .inl (Node.mem_subtreeAll.mpr ⟨m, hm, m.mem_subtree_self⟩)

theorem isBelow_of_mem_content (hm : m ∈ n.content) : IsBelow n m := by
  unfold Node.content Node.contentOf at hm
  split at hm
  · next b hb => exact isBelow_of_child (List.mem_of_find?_eq_some hb) hm
  · exact isBelow_of_mem_children (List.mem_filter.mp hm).1

theorem isBelow_of_mem_valueNodes {a : Attribute} {named : Option Node}
    (hnamed : ∀ c, named = some c → c ∈ n.children) (hm : m ∈ valueNodes a named) :
    IsBelow n m := by
  unfold valueNodes at hm
  split at hm
  · unfold fragmentNodes at hm
    split at hm
    · next c _ => exact isBelow_of_child (hnamed c rfl) hm
    · obtain rfl := List.mem_singleton.mp hm
      exact .inr ⟨⟨rfl, rfl, .inr (.inr rfl)⟩, rfl⟩
    · obtain rfl := List.mem_singleton.mp hm
      exact .inr ⟨⟨rfl, rfl, .inr (.inl rfl)⟩, rfl⟩
    · obtain rfl := List.mem_singleton.mp hm
      exact .inr ⟨⟨rfl, rfl, .inl rfl⟩, rfl⟩
  · split at hm
    · next c _ => exact isBelow_of_child (hnamed c rfl) hm
    · exact absurd hm List.not_mem_nil

/-- The named attribute that gives an attribute of a node is a child of it. -/
theorem mem_children_of_bind {a : Attribute} {c : Node}
    (h : a.child.bind (n.children[·]?) = some c) : c ∈ n.children := by
  obtain ⟨i, -, hi⟩ := Option.bind_eq_some_iff.mp h
  exact List.mem_of_getElem? hi

theorem isBelow_of_mem_tagNodes (hm : m ∈ tagNodes n) : IsBelow n m := by
  unfold tagNodes at hm
  split at hm
  · rcases List.mem_append.mp hm with hm | hm
    · obtain ⟨a, -, hm⟩ := List.mem_flatMap.mp hm
      unfold attributeNodes at hm
      dsimp only at hm
      split at hm
      · exact absurd hm List.not_mem_nil
      · exact isBelow_of_mem_valueNodes (fun c => mem_children_of_bind) hm
    · split at hm
      · exact isBelow_of_mem_content hm
      · exact absurd hm List.not_mem_nil
  · exact absurd hm List.not_mem_nil

theorem isBelow_of_mem_actionValueNodes {name : Bytes} (hm : m ∈ actionValueNodes n name) :
    IsBelow n m := by
  unfold actionValueNodes at hm
  split at hm
  · exact isBelow_of_mem_valueNodes (fun c hc => by cases hc) hm
  · next c hc => exact isBelow_of_child (List.mem_of_find?_eq_some hc) hm
  · exact absurd hm List.not_mem_nil

/-- What is inside a child is inside the node. -/
theorem IsBelow.of_child {c : Node} (hc : c ∈ n.children) (h : IsBelow c m) : IsBelow n m := by
  refine h.imp_left fun h => Node.mem_subtreeAll.mpr ⟨c, hc, ?_⟩
  rw [Node.subtree_eq]
  exact List.mem_cons_of_mem c h

theorem isBelow_of_mem_paramNodes (hm : m ∈ paramNodes n.children) : IsBelow n m := by
  obtain ⟨c, hc, hm⟩ := List.mem_flatMap.mp hm
  refine .of_child (List.mem_filter.mp hc).1 ?_
  exact (List.mem_append.mp hm).elim isBelow_of_mem_actionValueNodes
    isBelow_of_mem_actionValueNodes

theorem isBelow_of_mem_actionNodes (hm : m ∈ actionNodes n) : IsBelow n m := by
  unfold actionNodes at hm
  split at hm
  iterate 2
    · exact (List.mem_append.mp hm).elim isBelow_of_mem_actionValueNodes
        isBelow_of_mem_paramNodes
  · rcases List.mem_append.mp hm with hm | hm
    · split at hm
      · exact isBelow_of_mem_actionValueNodes hm
      · exact absurd hm List.not_mem_nil
    · split at hm
      · exact absurd hm List.not_mem_nil
      · exact isBelow_of_mem_content hm
  · split at hm
    · exact absurd hm List.not_mem_nil
    split at hm
    · exact isBelow_of_mem_actionValueNodes hm
    · exact absurd hm List.not_mem_nil
  · rcases List.mem_append.mp hm with hm | hm
    · obtain ⟨a, -, hm⟩ := List.mem_flatMap.mp hm
      exact isBelow_of_mem_valueNodes (fun c hc => by cases hc) hm
    · obtain ⟨c, hc, hm⟩ := List.mem_flatMap.mp hm
      exact .of_child (List.mem_filter.mp hc).1 (isBelow_of_mem_paramNodes hm)
  · exact absurd hm List.not_mem_nil

/-- What is come to from a node is inside it. -/
theorem isBelow_of_mem_entered (hm : m ∈ n.entered) : IsBelow n m := by
  unfold Node.entered at hm
  split at hm
  iterate 3
    · exact isBelow_of_mem_children hm
  · exact isBelow_of_mem_tagNodes hm
  · exact isBelow_of_mem_actionNodes hm

end Inside

theorem entered_of_isMadeUp {n : Node} (h : n.IsMadeUp) : n.entered = [] := by
  unfold Node.entered actionNodes
  rcases h.kind with hk | hk | hk <;> rw [hk]

/-- Only nodes of the tree are reached, and leaves made up for values. -/
theorem Reached.inside_or_madeUp {ns : List Node} {m : Node} (h : Reached ns m) :
    m ∈ Node.subtreeAll ns ∨ m.IsValueLeaf := by
  induction h with
  | top h => exact .inl (Node.mem_subtreeAll.mpr ⟨_, h, Node.mem_subtree_self _⟩)
  | @inside n m _ hm ih =>
    rcases ih with ih | ih
    · refine (isBelow_of_mem_entered hm).imp_left fun hinside => ?_
      obtain ⟨l, hl, hn⟩ := Node.mem_subtreeAll.mp ih
      refine Node.mem_subtreeAll.mpr ⟨l, hl, Node.mem_subtree_trans hn ?_⟩
      rw [Node.subtree_eq]
      exact List.mem_cons_of_mem n hinside
    · rw [entered_of_isMadeUp ih.toIsMadeUp] at hm
      exact absurd hm List.not_mem_nil

/-! ### Complete nodes -/

end ServerPages.Generation

namespace ServerPages

/-- An attribute with a value that generation knows how to compute, but for literals that are not of
their type; `named` is the named attribute that gives it. -/
def Attribute.IsComputable (a : Attribute) (named : Option Node) : Prop :=
  match a.kind with
  | .literal | .el | .script => True
  | .named => named.isSome
  | .unrecognized _ => False

theorem Attribute.IsComputable.of_isInline {a : Attribute} (h : a.kind.isInline = true)
    (named : Option Node) : a.IsComputable named := by
  unfold IsComputable
  cases hk : a.kind with
  | literal | el | script => trivial
  | named | unrecognized =>
    rw [hk] at h
    cases h

theorem Attribute.IsComputable.mono {a : Attribute} {named named' : Option Node}
    (h : a.IsComputable named) (hnamed : named.isSome = true → named'.isSome = true) :
    a.IsComputable named' := by
  unfold IsComputable at h ⊢
  cases hk : a.kind with
  | literal | el | script => trivial
  | named =>
    rw [hk] at h
    exact hnamed h
  | unrecognized code => rwa [hk] at h

/-- A node with everything that generation asks of it. -/
structure Node.IsComplete (page : PageInfo) (n : Node) : Prop where
  kind_ne_root : n.kind ≠ .root
  descriptor : n.kind = .customTag → n.head.descriptor?.isSome
  bound : n.kind = .customTag → ∀ a ∈ n.head.attributes, a.setter.method ≠ []
  computable : ∀ a ∈ n.head.attributes, a.IsComputable (a.child.bind (n.children[·]?))
  inline : n.kind ≠ .customTag → ∀ a ∈ n.head.attributes, a.kind ≠ .named
  invokes : n.kind = .invokeAction ∨ n.kind = .doBodyAction → page.tag.isSome

/-- An attribute of a node that invokes no tag is computable by itself. -/
theorem Node.IsComplete.inlineComputable {page : PageInfo} {n : Node} (h : n.IsComplete page)
    (hk : n.kind ≠ .customTag) : ∀ a ∈ n.head.attributes, a.IsComputable none := by
  intro a ha
  have hcomputable := h.computable a ha
  have hnamed := h.inline hk a ha
  unfold Attribute.IsComputable at hcomputable ⊢
  cases hkind : a.kind with
  | literal | el | script => trivial
  | named => exact absurd hkind hnamed
  | unrecognized code => rwa [hkind] at hcomputable

/-- Every literal value that a tag is given is one of its type. -/
def Node.HasValidLiterals (n : Node) : Prop :=
  n.kind = .customTag → ∀ a ∈ n.head.attributes, a.kind = .literal → a.fragment = false →
    ∃ code, Generation.literalCode a.setter.valueType a.value = .ok code

/-- A node with everything that generation asks of it and of what it comes to from it. -/
structure Node.IsGenerable (page : PageInfo) (n : Node) : Prop where
  complete : ∀ m ∈ n.subtree, m.IsComplete page
  literals : ∀ m, Generation.Reached [n] m → m.HasValidLiterals

end ServerPages

namespace ServerPages.Generation

section Stops

variable {page : PageInfo} {n : Node}

theorem isComplete_of_isValueLeaf (h : n.IsValueLeaf) : n.IsComplete page := by
  have hk : n.kind ≠ .root ∧ n.kind ≠ .customTag ∧ n.kind ≠ .invokeAction ∧
      n.kind ≠ .doBodyAction := by
    rcases h.kind with hk | hk | hk <;> rw [hk] <;> decide
  have hnone : ∀ {P : Attribute → Prop}, ∀ a ∈ n.head.attributes, P a := by
    intro P a ha
    rw [h.attributes] at ha
    exact absurd ha List.not_mem_nil
  refine ⟨hk.1, fun h => absurd h hk.2.1, fun h => absurd h hk.2.1, hnone, fun _ => hnone, ?_⟩
  rintro (h | h)
  · exact absurd h hk.2.2.1
  · exact absurd h hk.2.2.2

/-- What is inside complete nodes is complete. -/
theorem isComplete_of_isBelow (hn : ∀ m ∈ n.subtree, m.IsComplete page) {m : Node}
    (h : IsBelow n m) : ∀ l ∈ m.subtree, l.IsComplete page := by
  rcases h with h | h
  · intro l hl
    refine hn l ?_
    rw [Node.subtree_eq]
    exact List.mem_cons_of_mem n (Node.mem_subtreeAll_trans h hl)
  · rw [Node.subtree_eq, h.children]
    exact List.forall_mem_singleton.mpr (isComplete_of_isValueLeaf h)

theorem isGenerable_of_mem_entered (hn : n.IsGenerable page) {m : Node} (hm : m ∈ n.entered) :
    m.IsGenerable page := by
  refine ⟨isComplete_of_isBelow hn.complete (isBelow_of_mem_entered hm), fun l hl => ?_⟩
  refine hn.literals l (hl.trans fun k hk => ?_)
  obtain rfl := List.mem_singleton.mp hk
  exact Reached.singleton_iff.mpr (.inr (.top hm))

variable {inner : BodyStops} (hinner : ∀ ns, (∀ m ∈ ns, m.IsGenerable page) → inner ns = [])

include hinner

theorem valueStops_eq_nil {a : Attribute} {named : Option Node} {type : Bytes}
    (hnodes : ∀ m ∈ valueNodes a named, m.IsGenerable page) (ha : a.IsComputable named)
    (hliteral : a.kind = .literal → a.fragment = false →
      ∃ code, literalCode type a.value = .ok code) :
    valueStops inner a named type = [] := by
  unfold valueStops
  unfold valueNodes at hnodes
  split
  · next hf =>
    rw [if_pos hf] at hnodes
    rw [hinner _ hnodes, List.map_nil]
  next hf =>
  rw [if_neg hf] at hnodes
  split
  · next hk =>
    obtain ⟨code, hcode⟩ := hliteral hk (Bool.not_eq_true _ ▸ hf)
    rw [literal, hcode]
    rfl
  · next c hk =>
    rw [hk] at hnodes
    exact hinner _ hnodes
  · next hk =>
    rw [Attribute.IsComputable, hk] at ha
    cases ha
  · next code _ hk =>
    rw [Attribute.IsComputable, hk] at ha
    exact ha.elim
  · rfl

/-- A value of a type that takes any text. -/
theorem textValueStops_eq_nil {a : Attribute} {named : Option Node} {type : Bytes}
    (htype : isTextType type = true) (hnodes : ∀ m ∈ valueNodes a named, m.IsGenerable page)
    (ha : a.IsComputable named) : valueStops inner a named type = [] := by
  refine valueStops_eq_nil hinner hnodes ha fun _ _ => ⟨Quoted.string a.value, ?_⟩
  rw [literalCode, if_pos htype]

variable (hn : n.IsGenerable page)

include hn

theorem tagStops_eq_nil (hk : n.kind = .customTag) : tagStops inner n = [] := by
  have hcomplete := hn.complete n n.mem_subtree_self
  have hentered : ∀ m ∈ tagNodes n, m.IsGenerable page := by
    intro m hm
    refine isGenerable_of_mem_entered hn ?_
    rwa [Node.entered, hk]
  obtain ⟨d, hd⟩ := Option.isSome_iff_exists.mp (hcomplete.descriptor hk)
  obtain ⟨t, ht, htd⟩ := Option.bind_eq_some_iff.mp hd
  rw [tagNodes, hd] at hentered
  have hattribute : ∀ a ∈ n.head.attributes, attributeStops inner n a = [] := by
    intro a ha
    unfold attributeStops
    dsimp only
    rw [if_neg (by simpa using hcomplete.bound hk a ha)]
    split
    · rfl
    next homitted =>
    refine valueStops_eq_nil hinner (fun m hm => hentered m ?_) (hcomplete.computable a ha)
      (hn.literals n (.top List.mem_cons_self) hk a ha)
    refine List.mem_append_left _ (List.mem_flatMap.mpr ⟨a, ha, ?_⟩)
    unfold attributeNodes
    dsimp only
    rwa [if_neg homitted]
  have hinvocation : invocationStops inner d n = [] := by
    refine List.append_eq_nil_iff.mpr ⟨List.flatMap_eq_nil_iff.mpr hattribute, ?_⟩
    split
    · next hbody =>
      refine List.map_eq_nil_iff.mpr (hinner _ fun m hm => hentered m ?_)
      refine List.mem_append_right _ ?_
      rwa [if_pos hbody]
    · rfl
  unfold tagStops
  rw [ht, Option.bind_some, htd]
  dsimp only
  rw [hinvocation, List.map_nil, ite_self]

omit hn in
theorem actionValueStops_eq_nil {c : Node} {name type : Bytes} (htype : isTextType type = true)
    (hc : c.IsComplete page) (hinline : c.kind ≠ .customTag)
    (hnodes : ∀ m ∈ actionValueNodes c name, m.IsGenerable page) :
    actionValueStops inner c name type = [] := by
  unfold actionValueStops
  unfold actionValueNodes at hnodes
  split
  · next a ha =>
    rw [ha] at hnodes
    have hmem := List.mem_of_find?_eq_some ha
    exact textValueStops_eq_nil hinner htype hnodes (hc.inlineComputable hinline a hmem)
  · next k ha hk =>
    rw [ha, hk] at hnodes
    exact hinner _ hnodes
  · rfl

omit hn in
theorem paramStops_eq_nil {ns : List Node} (hns : ∀ c ∈ ns, c.IsComplete page)
    (hnodes : ∀ m ∈ paramNodes ns, m.IsGenerable page) : paramStops inner ns = [] := by
  refine List.flatMap_eq_nil_iff.mpr fun c hc => ?_
  obtain ⟨hmem, hkind⟩ := List.mem_filter.mp hc
  have hk : c.kind ≠ .customTag := by
    rw [eq_of_beq hkind]
    decide
  have hvalues : ∀ m ∈ actionValueNodes c "name" ++ actionValueNodes c "value",
      m.IsGenerable page := fun m hm => hnodes m (List.mem_flatMap.mpr ⟨c, hc, hm⟩)
  obtain ⟨hname, hvalue⟩ := List.forall_mem_append.mp hvalues
  rw [actionValueStops_eq_nil hinner rfl (hns c hmem) hk hname,
    actionValueStops_eq_nil hinner rfl (hns c hmem) hk hvalue, List.append_nil]

theorem useBeanStops_eq_nil (hk : n.kind = .useBean)
    (hnodes : ∀ m ∈ actionNodes n, m.IsGenerable page) : actionStops page inner n = [] := by
  rw [actionNodes, hk] at hnodes
  obtain ⟨hname, hcontent⟩ := List.forall_mem_append.mp hnodes
  rw [actionStops, hk]
  refine List.append_eq_nil_iff.mpr ⟨?_, ?_⟩
  · split
    · next hgiven =>
      rw [if_pos hgiven] at hname
      exact actionValueStops_eq_nil hinner rfl (hn.complete n n.mem_subtree_self)
        (by rw [hk]; decide) hname
    · rfl
  · split
    · rfl
    · next hbody =>
      rw [if_neg hbody] at hcontent
      exact hinner _ hcontent

theorem setPropertyStops_eq_nil (hk : n.kind = .setProperty)
    (hnodes : ∀ m ∈ actionNodes n, m.IsGenerable page) : actionStops page inner n = [] := by
  rw [actionNodes, hk] at hnodes
  rw [actionStops, hk]
  dsimp only at hnodes ⊢
  split
  · rfl
  next hall =>
  rw [if_neg hall] at hnodes
  split
  · next hgiven =>
    rw [if_pos hgiven] at hnodes
    exact actionValueStops_eq_nil hinner rfl (hn.complete n n.mem_subtree_self)
      (by rw [hk]; decide) hnodes
  · rfl

theorem pluginStops_eq_nil (hk : n.kind = .plugin)
    (hnodes : ∀ m ∈ actionNodes n, m.IsGenerable page) : actionStops page inner n = [] := by
  have hcomplete := hn.complete n n.mem_subtree_self
  rw [actionNodes, hk] at hnodes
  obtain ⟨hattributes, hparams⟩ := List.forall_mem_append.mp hnodes
  rw [actionStops, hk]
  refine List.append_eq_nil_iff.mpr ⟨List.flatMap_eq_nil_iff.mpr fun a ha => ?_,
    List.flatMap_eq_nil_iff.mpr fun c hc => ?_⟩
  · refine textValueStops_eq_nil hinner rfl (fun m hm => hattributes m ?_)
      (hcomplete.inlineComputable (by rw [hk]; decide) a ha)
    exact List.mem_flatMap.mpr ⟨a, ha, hm⟩
  · have hmem := (List.mem_filter.mp hc).1
    refine paramStops_eq_nil hinner (fun k hk' => hn.complete k ?_) fun m hm => hparams m ?_
    · exact Node.mem_subtree_of_child hmem (Node.mem_subtree_of_child hk' k.mem_subtree_self)
    · exact List.mem_flatMap.mpr ⟨c, hc, hm⟩

theorem actionStops_eq_nil (hk : n.kind ≠ .customTag)
    (hnodes : ∀ m ∈ actionNodes n, m.IsGenerable page)
    (hinvokes : n.kind ∈ [Kind.includeAction, .forwardAction, .useBean, .getProperty, .setProperty,
      .plugin] ∨ page.tag.isSome) : actionStops page inner n = [] := by
  have hparameters : (∀ m ∈ actionValueNodes n "page" ++ paramNodes n.children,
      m.IsGenerable page) →
      actionValueStops inner n "page" "string" ++ paramStops inner n.children = [] := by
    intro hnodes
    obtain ⟨hpage, hparams⟩ := List.forall_mem_append.mp hnodes
    have hself : ∀ c ∈ n.children, c.IsComplete page := fun c hc =>
      hn.complete c (Node.mem_subtree_of_child hc c.mem_subtree_self)
    rw [actionValueStops_eq_nil hinner rfl (hn.complete n n.mem_subtree_self) hk hpage,
      paramStops_eq_nil hinner hself hparams, List.append_nil]
  cases hkind : n.kind with
  | includeAction | forwardAction =>
    rw [actionNodes, hkind] at hnodes
    rw [actionStops, hkind]
    exact hparameters hnodes
  | useBean => exact useBeanStops_eq_nil hinner hn hkind hnodes
  | getProperty => rw [actionStops, hkind]
  | setProperty => exact setPropertyStops_eq_nil hinner hn hkind hnodes
  | plugin => exact pluginStops_eq_nil hinner hn hkind hnodes
  | _ =>
    rw [hkind] at hinvokes
    rw [actionStops, hkind]
    exact if_pos (hinvokes.resolve_left (by decide))

theorem visitStops_eq_nil : visitStops page inner n = [] := by
  have hcomplete := hn.complete n n.mem_subtree_self
  have hentered : ∀ m ∈ n.entered, m.IsGenerable page := fun m => isGenerable_of_mem_entered hn
  cases hk : n.kind with
  | root => exact absurd hk hcomplete.kind_ne_root
  | textAction | body | includeDirective =>
    rw [Node.entered, hk] at hentered
    rw [visitStops, hk]
    exact hinner _ hentered
  | customTag =>
    rw [visitStops, hk]
    exact tagStops_eq_nil hinner hn hk
  | includeAction | forwardAction | useBean | getProperty | setProperty | plugin =>
    rw [Node.entered, hk] at hentered
    rw [visitStops, hk]
    exact actionStops_eq_nil hinner hn (by rw [hk]; decide) hentered (.inl (by rw [hk]; decide))
  | invokeAction =>
    rw [Node.entered, hk] at hentered
    rw [visitStops, hk]
    exact actionStops_eq_nil hinner hn (by rw [hk]; decide) hentered
      (.inr (hcomplete.invokes (.inl hk)))
  | doBodyAction =>
    rw [Node.entered, hk] at hentered
    rw [visitStops, hk]
    exact actionStops_eq_nil hinner hn (by rw [hk]; decide) hentered
      (.inr (hcomplete.invokes (.inr hk)))
  | _ => rw [visitStops, hk]

end Stops

/-- **Complete nodes with valid literals do not stop generation**, however deep they nest. -/
theorem bodyStops_eq_nil {page : PageInfo} (depth : Nat) {ns : List Node}
    (hns : ∀ n ∈ ns, n.IsGenerable page) : bodyStops page depth ns = [] := by
  induction depth generalizing ns with
  | zero => rfl
  | succ depth ih =>
    exact List.flatMap_eq_nil_iff.mpr fun n hn => visitStops_eq_nil (fun ns => ih) (hns n hn)

end ServerPages.Generation
