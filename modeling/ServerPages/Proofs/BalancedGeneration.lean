import ServerPages.Proofs.BalancedVisits
import ServerPages.Proofs.ReachedNodes

/-!
# Generation in balance

A unit that was parsed and then validated without a problem is generated, unless a literal value
that a tag is given is not one of its type. Nothing that generation relies on fails: no place at
which it may stop is left, and every visit of a node finds a block open around it and restores the
place it started from.

Generation asks much of the nodes of a unit, and breaks off where it is missing: tags have
contracts, attributes have setters and values of known kinds, those given as content have a child
that gives them, and only tag files invoke what is passed to them. A validated unit has all of this,
and the children of its nodes are those that the nodes take. Parsing and the checks of each node
establish it (`establishes_isChecked`), and neither what is noted of other nodes nor the numbers of
nodes change it.

## Main results

* `ParseRequest.isChecked_of_validate`: what is known of the nodes of a validated unit.
* `ParseRequest.isComplete_of_validate`: they have everything that generation asks of them.
* `ParseRequest.generate_balanced`: generation succeeds, and every visit is balanced.
-/

namespace ServerPages

/-! ### Admitted children of parsed trees -/

/-- The shape of trees in which all children are those that the nodes take. -/
def admittedShape : TreeShape where
  isOpen _ := True
  isNode n := ∀ m ∈ n.subtree, m.head.Admits m.children
  directive _ _ _ := trivial
  action _ _ _ := trivial
  tag _ _ _ _ _ _ := trivial
  withAttribute _ _ _ _ _ := trivial
  selfClosed _ _ := trivial
  leaf {h} _ _ := List.forall_mem_singleton.mpr h.admits_nil
  node _ hadmits hcs := List.forall_mem_cons.mpr ⟨hadmits, by
    intro m hm
    obtain ⟨c, hc, hm⟩ := Node.mem_subtreeAll.mp hm
    exact hcs c hc m hm⟩
  extend {n} hn more := by
    obtain ⟨h, cs⟩ := n
    obtain ⟨hh, hcs⟩ := List.forall_mem_cons.mp hn
    exact List.forall_mem_cons.mpr ⟨hh.congr rfl fun c hc => ⟨c, hc, rfl, rfl⟩, hcs⟩

/-- The children of every node of a parsed tree are those that the node takes. -/
theorem ParseRequest.admits_of_parse {σ : Type} {r : ParseRequest} {host : Host σ} {memory : σ}
    {root : Node} (h : (r.parse host memory).1 = .ok root) :
    ∀ n ∈ root.subtree, n.head.Admits n.children := by
  obtain ⟨hkind, -, hchildren⟩ := r.parse_returns admittedShape h
  refine Node.forall_mem_subtree (.of_kind ?_ ?_ _) hchildren
  · rw [show root.head.kind = .root from hkind]
    rfl
  · rw [show root.head.kind = .root from hkind]
    rfl

theorem Node.IsParsed.of_mem_subtree {n : Node} (h : n.IsParsed) :
    ∀ m ∈ n.subtree, m.IsParsed := by
  induction h with
  | mk head leaf children ih =>
    exact Node.forall_mem_subtree (.mk head leaf children) ih

/-- A node with children that it takes, and with none if it is a leaf. -/
structure Node.HasItsChildren (n : Node) : Prop where
  admits : n.head.Admits n.children
  leaf : n.kind.isLeaf = true → n.children = []

theorem ParseRequest.hasItsChildren_of_parse {σ : Type} {r : ParseRequest} {host : Host σ}
    {memory : σ} {root : Node} (h : (r.parse host memory).1 = .ok root) :
    ∀ n ∈ root.subtree, n.HasItsChildren := by
  refine fun n hn => ⟨r.admits_of_parse h n hn, fun hleaf => ?_⟩
  obtain ⟨hkind, -, hchildren⟩ := ParseRequest.parse_isUnit h
  rw [Node.subtree_eq] at hn
  rcases List.mem_cons.mp hn with rfl | hn
  · rw [hkind] at hleaf
    cases hleaf
  · obtain ⟨c, hc, hn⟩ := Node.mem_subtreeAll.mp hn
    obtain ⟨-, leaf, -⟩ := (hchildren c hc).of_mem_subtree n hn
    exact (leaf hleaf).1

/-! ### Checked nodes -/

/-- What the checks of a node leave, in the validation of a tag file or of a page. -/
structure Node.IsChecked (binder : Binder) (isTag : Bool) (n : Node) : Prop
    extends n.HasItsChildren where
  tag : n.kind = .customTag →
    ∃ d, n.head.descriptor? = some d ∧ (d.body = .empty → n.hasEmptyBody = true)
  setter : n.kind = .customTag → ∀ a ∈ n.head.attributes, ∃ d, binder d a.name = some a.setter
  computable : ∀ a ∈ n.head.attributes, a.IsComputable (a.child.bind (n.children[·]?))
  inline : n.kind ≠ .customTag → ∀ a ∈ n.head.attributes, a.kind ≠ .named
  invokes : n.kind = .invokeAction ∨ n.kind = .doBodyAction → isTag = true

theorem Node.isBlankText_outline (n : Node) : n.outline.isBlankText = n.isBlankText := by
  rw [isBlankText, kind_outline, text_outline, isBlankText]

/-- Nodes with the same outlines have admitted children under the same heads. -/
theorem Head.Admits.of_outline {h h' : Head} {cs cs' : List Node} (hh : h.Admits cs)
    (hk : h'.kind = h.kind) (hcs : cs'.map Node.outline = cs.map Node.outline) :
    h'.Admits cs' := by
  refine hh.congr hk fun c' hc' => ?_
  have hmem : c'.outline ∈ cs.map Node.outline := hcs ▸ List.mem_map_of_mem hc'
  obtain ⟨c, hc, hsame⟩ := List.mem_map.mp hmem
  refine ⟨c, hc, ?_, ?_⟩
  · rw [← c'.kind_outline, ← hsame, c.kind_outline]
  · rw [← c'.isBlankText_outline, ← hsame, c.isBlankText_outline]

/-- A child of a node with the same outlines has the same place. -/
theorem Node.isSome_getElem?_of_outline {cs cs' : List Node}
    (hcs : cs'.map outline = cs.map outline) (i : Nat) : (cs'[i]?).isSome = (cs[i]?).isSome := by
  have hget := congrArg (fun l => (l[i]?).isSome) hcs
  simpa only [List.getElem?_map, Option.isSome_map] using hget

/-- What the checks leave depends on the head and the outlines of the children. -/
theorem Node.IsChecked.congr {binder : Binder} {isTag : Bool} {n n' : Node}
    (h : n.IsChecked binder isTag) (hkind : n'.kind = n.kind)
    (hattributes : n'.head.attributes = n.head.attributes)
    (hdescriptor : n'.head.descriptor? = n.head.descriptor?)
    (hcs : n'.children.map outline = n.children.map outline) : n'.IsChecked binder isTag where
  admits := h.admits.of_outline hkind hcs
  leaf hk := by
    rw [h.leaf (hkind ▸ hk), List.map_nil, List.map_eq_nil_iff] at hcs
    exact hcs
  tag hk := by
    obtain ⟨d, hd, hbody⟩ := h.tag (hkind.symm.trans hk)
    refine ⟨d, hdescriptor.trans hd, fun hempty => ?_⟩
    rw [hasEmptyBody, ← isBlankContent_outline, hcs, isBlankContent_outline]
    exact hbody hempty
  setter hk := hattributes ▸ h.setter (hkind.symm.trans hk)
  computable := by
    intro a ha
    refine (h.computable a (hattributes ▸ ha)).mono fun hsome => ?_
    obtain ⟨i, hi, hc⟩ := Option.bind_eq_some_iff.mp (Option.isSome_iff_exists.mp hsome).choose_spec
    rw [hi, Option.bind_some, isSome_getElem?_of_outline hcs, hc, Option.isSome_some]
  inline hk := hattributes ▸ h.inline (hkind ▸ hk)
  invokes hk := h.invokes (hkind ▸ hk)

namespace Validation

variable {binder : Binder} {d : TagDescriptor} {cs : List Node}

/-- The attributes of an invocation that was accepted have values of known kinds. -/
theorem GivenBy.isComputable {as : List Attribute} (h : GivenBy binder d cs cs as) :
    ∀ a ∈ as, a.IsComputable (a.child.bind (cs[·]?)) := by
  intro a ha
  by_cases hk : a.kind = .named
  · obtain ⟨i, hi, hchild, -⟩ := h.child a ha hk
    rw [Attribute.IsComputable, hk, hchild, Option.bind_some, List.getElem?_eq_getElem hi]
    rfl
  · exact .of_isInline (h.kinds a ha hk) _

/-- The checks of a node leave what generation relies on. -/
theorem establishes_isChecked (binder : Binder) (isTag : Bool) :
    Establishes binder isTag Node.HasItsChildren (Node.IsChecked binder isTag) := by
  intro h cs h' cs' hready hh' hcs'
  have hkind := hh'.kind
  have hinline : h.kind ≠ .customTag → ∀ a ∈ h'.attributes, a.kind.isInline = true := by
    intro hk a ha
    exact hready.names.inline a (hh'.attributes hk ▸ ha)
  have hleaf : h'.kind.isLeaf = true → cs = [] := by
    rw [hkind]
    exact hready.holds.leaf
  have hchecked : (Node.mk h' cs).IsChecked binder isTag := by
    refine ⟨⟨?_, hleaf⟩, fun hk => ?_, fun hk => ?_, ?_, fun hk => ?_, ?_⟩
    · exact hready.holds.admits.of_outline hkind rfl
    · obtain ⟨d, hd, haccepted⟩ := hh'.tag (hkind.symm.trans hk)
      exact ⟨d, hd, haccepted.body⟩
    · obtain ⟨d, -, haccepted⟩ := hh'.tag (hkind.symm.trans hk)
      exact fun a ha => ⟨d, (haccepted.given.takes a ha).setter⟩
    · by_cases hk : h.kind = .customTag
      · obtain ⟨d, -, haccepted⟩ := hh'.tag hk
        exact haccepted.given.isComputable
      · exact fun a ha => .of_isInline (hinline hk a ha) _
    · exact fun a ha => AttributeKind.ne_named_of_isInline (hinline (hkind ▸ hk) a ha)
    · exact fun hk => hh'.invokes (hkind ▸ hk)
  exact hchecked.congr rfl rfl rfl hcs'

end Validation

/-! ### Validated trees -/

namespace Node

mutual

theorem outline_numbered (i : Nat) (n : Node) : (n.numbered i).1.outline = n.outline := by
  cases n with
  | mk h cs =>
    have hnumbered : ((mk h cs).numbered i).1 =
        mk { h with number := i } (numberedAll (i + 1) cs).1 := rfl
    rw [hnumbered, outline_mk, outline_mk, outlines_numberedAll]
    rfl

theorem outlines_numberedAll (i : Nat) (ns : List Node) :
    (numberedAll i ns).1.map outline = ns.map outline := by
  cases ns with
  | nil => rfl
  | cons c cs =>
    have hfst : (numberedAll i (c :: cs)).1 =
        (c.numbered i).1 :: (numberedAll (c.numbered i).2 cs).1 := rfl
    rw [hfst, List.map_cons, List.map_cons, outline_numbered, outlines_numberedAll]

end

/-- Numbering a node changes nothing that its checks look at. -/
theorem IsChecked.numbered {binder : Binder} {isTag : Bool} {n : Node}
    (h : n.IsChecked binder isTag) (i : Nat) : (n.numbered i).1.IsChecked binder isTag := by
  obtain ⟨hd, cs⟩ := n
  exact h.congr rfl rfl rfl (outlines_numberedAll (i + 1) cs)

theorem IsChecked.setPage {binder : Binder} {isTag : Bool} {n : Node}
    (h : ∀ m ∈ n.subtree, m.IsChecked binder isTag) (page : PageInfo) :
    ∀ m ∈ (n.setPage page).subtree, m.IsChecked binder isTag := by
  obtain ⟨hd, cs⟩ := n
  obtain ⟨hself, hbelow⟩ := List.forall_mem_cons.mp h
  exact List.forall_mem_cons.mpr ⟨hself.congr rfl rfl rfl rfl, hbelow⟩

/-- A node with the outline of a parsed unit has the root at its top only. -/
theorem kind_ne_root_of_outline {n root : Node} (hroot : root.IsUnit)
    (h : n.outline = root.outline) : ∀ m ∈ subtreeAll n.children, m.kind ≠ .root := by
  have hkinds := map_subtree_of_outline (f := Head.kind) (fun _ => rfl) h
  rw [subtree_eq, subtree_eq, List.map_cons, List.map_cons] at hkinds
  obtain ⟨-, hkinds⟩ := List.cons.inj hkinds
  intro m hm
  have hmem : m.kind ∈ (subtreeAll root.children).map (·.kind) :=
    hkinds ▸ List.mem_map_of_mem (f := fun k : Node => k.kind) hm
  obtain ⟨k, hk, hsame⟩ := List.mem_map.mp hmem
  obtain ⟨c, hc, hk⟩ := mem_subtreeAll.mp hk
  obtain ⟨head, -, -⟩ := (hroot.children c hc).of_mem_subtree k hk
  exact hsame ▸ head.kind_ne_root

end Node

section Validated

variable {σ τ : Type} {r : ParseRequest} {host : Host σ} {memory : σ} {root : Node}

/-- **What is known of the nodes of a validated unit**, with their numbers, if no problem was
dropped: the checks of each leave it, and the root is at the top only. -/
theorem ParseRequest.isChecked_of_validate (hparse : (r.parse host memory).1 = .ok root)
    (library : Option (Bytes → τ → Except Fault TagLibrary × τ)) (options : ValidationOptions)
    (hoverflow : options.overflow = .noCap) (s : τ)
    (hvalid : (root.validate library options s).failure = none) :
    let tree := ((root.validate library options s).tree.numbered 1).1
    (∀ n ∈ tree.subtree, n.IsChecked options.binder (root.head.unit.any (·.isTagFile))) ∧
      ∀ n ∈ Node.subtreeAll tree.children, n.kind ≠ .root := by
  intro tree
  have hready : ∀ n ∈ root.subtree, Validation.IsReady Node.HasItsChildren n := fun n hn =>
    ⟨r.hasNames_of_parse hparse n hn, r.hasItsChildren_of_parse hparse n hn⟩
  have hroot := ParseRequest.parse_isUnit hparse
  obtain ⟨n, page, ⟨houtline, hchecked⟩, hvalidated⟩ :=
    Node.of_validate_noCap library options s hoverflow hvalid
      (P := fun n => n.outline = root.outline ∧
        ∀ m ∈ n.subtree, m.IsChecked options.binder (root.head.unit.any (·.isTagFile)))
      (Validation.visit_unit_unreported ⟨library, options.binder⟩
        (Validation.establishes_isChecked _ _) hroot hready)
  have htree : tree = ((n.setPage page).numbered 1).1 := by rw [← hvalidated]
  constructor
  · intro m hm
    rw [htree] at hm
    obtain ⟨l, hl, j, rfl⟩ := Node.mem_subtree_numbered 1 _ m hm
    exact (Node.IsChecked.setPage hchecked page l hl).numbered j
  · refine Node.kind_ne_root_of_outline hroot ?_
    rw [htree, Node.outline_numbered, Node.outline_setPage, houtline]

/-- The tree of a validated unit knows the unit and what its directives say. -/
theorem ParseRequest.unit_of_validate (hparse : (r.parse host memory).1 = .ok root)
    (library : Option (Bytes → τ → Except Fault TagLibrary × τ)) (options : ValidationOptions)
    (s : τ) (hvalid : (root.validate library options s).failure = none) :
    let tree := (root.validate library options s).tree
    ∃ u page, tree.head.unit = some u ∧ tree.page? = some page ∧
      page.tag.isSome = root.head.unit.any (·.isTagFile) := by
  intro tree
  have hroot := ParseRequest.parse_isUnit hparse
  obtain ⟨u, hu, -⟩ := ParseRequest.unit_of_parse hparse
  have htag := root.validate_tag library options s hroot.kind hu hvalid
  obtain ⟨page, hpage⟩ := Option.isSome_iff_exists.mp
    (root.validate_page library options s hroot.kind hu hvalid)
  obtain ⟨v, hv, -⟩ := Option.bind_eq_some_iff.mp hpage
  refine ⟨v, page, hv, hpage, ?_⟩
  rw [hpage, Option.bind_some] at htag
  rw [htag, hu, Option.any_some]

/-- **A validated unit has everything that generation asks of its nodes.** -/
theorem ParseRequest.isComplete_of_validate (hparse : (r.parse host memory).1 = .ok root)
    (library : Option (Bytes → τ → Except Fault TagLibrary × τ)) (options : ValidationOptions)
    (hoverflow : options.overflow = .noCap) (hbinder : options.binder = Setter.byName) (s : τ)
    (hvalid : (root.validate library options s).failure = none) :
    let tree := (root.validate library options s).tree
    ∃ u page, tree.head.unit = some u ∧ tree.page? = some page ∧
      ∀ n ∈ Node.subtreeAll (tree.numbered 1).1.children, n.IsComplete page := by
  intro tree
  obtain ⟨u, page, hu, hpage, htag⟩ := r.unit_of_validate hparse library options s hvalid
  obtain ⟨hchecked, hkinds⟩ := r.isChecked_of_validate hparse library options hoverflow s hvalid
  refine ⟨u, page, hu, hpage, fun n hn => ?_⟩
  have hself := hchecked n (by
    rw [Node.subtree_eq]
    exact List.mem_cons_of_mem _ hn)
  refine ⟨hkinds n hn, fun hk => ?_, fun hk a ha => ?_, hself.computable, hself.inline,
    fun hk => ?_⟩
  · obtain ⟨d, hd, -⟩ := hself.tag hk
    rw [hd, Option.isSome_some]
  · obtain ⟨d, hd⟩ := hself.setter hk a ha
    rw [hbinder] at hd
    exact Setter.method_byName hd
  · rw [htag, hself.invokes hk]

end Validated

namespace Generation

/-- A visit that takes one state to another one is balanced: a block is open around it, and it
restores its place. More lines are in the same writer afterwards, which indents as before, and there
may be more variables in the innermost block; the blocks around are the same, and so are the
handlers of the open tags and the handler around the function. -/
def IsBalanced (s t : State) : Prop := s.place.blocks ≠ [] ∧ s.place.Restored t.place

/-- All visits are balanced, whatever the nodes are. -/
theorem everyVisit_isBalanced (options : Options) (root : Node) :
    EveryVisit options root fun _ => IsBalanced := by
  intro u page _ _ env tree t hrun
  have hnone : ∀ n ∈ tree.children, HasOnlyTexts env (fun _ => False) n := fun _ _ _ _ h => h.elim
  exact (walks_unitBody id (fun _ _ _ hblocks hrestored => ⟨hblocks, hrestored⟩) _ hnone hrun).1

/-- Only tags of the tree are reached. -/
theorem hasValidLiterals_of_reached {ns : List Node}
    (h : ∀ n ∈ Node.subtreeAll ns, n.HasValidLiterals) {n : Node} (hn : Reached ns n) :
    n.HasValidLiterals := by
  rcases hn.inside_or_madeUp with hinside | hleaf
  · exact h n hinside
  · intro hk
    rcases hleaf.kind with hkind | hkind | hkind <;> cases hkind.symm.trans hk

end Generation

open Generation

/-- Every literal value that generation comes to in a unit is one of its type. -/
def Node.HasLiteralsOfType (root : Node) : Prop :=
  ∀ n, Reached (root.numbered 1).1.children n → n.HasValidLiterals

/-- A unit whose nodes are complete has no stops. -/
theorem Node.stops_eq_nil {root : Node} {u : UnitInfo} {page : PageInfo}
    (hu : root.head.unit = some u) (hpage : root.page? = some page)
    (hcomplete : ∀ n ∈ subtreeAll (root.numbered 1).1.children, n.IsComplete page)
    (hliterals : root.HasLiteralsOfType) : root.stops = [] := by
  have hgenerable : ∀ n ∈ (root.numbered 1).1.children, n.IsGenerable page := by
    refine fun n hn => ⟨fun m hm => ?_, fun m hm => ?_⟩
    · exact hcomplete m (mem_subtreeAll.mpr ⟨n, hn, hm⟩)
    · exact hliterals m (hm.mono (List.cons_subset.mpr ⟨hn, List.nil_subset _⟩))
  unfold stops
  rw [hu, hpage]
  exact bodyStops_eq_nil _ hgenerable

/-- **Generation succeeds in balance.** If a parsed unit is validated, no problem being dropped and
setters being chosen by name, and none is reported, and if every literal value that generation comes
to is one of its type, then generation has no place at which it stops and gives the code of the
unit, however it is asked to write it, and every visit of a node restores its place. -/
theorem ParseRequest.generate_balanced {σ τ : Type} {r : ParseRequest} {host : Host σ} {memory : σ}
    {root : Node} (hparse : (r.parse host memory).1 = .ok root)
    (library : Option (Bytes → τ → Except Fault TagLibrary × τ)) (options : ValidationOptions)
    (hoverflow : options.overflow = .noCap) (hbinder : options.binder = Setter.byName) (s : τ)
    (hvalid : (root.validate library options s).failure = none)
    (hliterals : (root.validate library options s).tree.HasLiteralsOfType)
    (generation : Options) :
    let tree := (root.validate library options s).tree
    tree.stops = [] ∧ (∃ code, tree.generate generation = .ok code) ∧
      EveryVisit generation tree fun _ => IsBalanced := by
  intro tree
  obtain ⟨u, page, hu, hpage, hcomplete⟩ :=
    r.isComplete_of_validate hparse library options hoverflow hbinder s hvalid
  have hstops : tree.stops = [] := Node.stops_eq_nil hu hpage hcomplete hliterals
  exact ⟨hstops, (tree.generate_eq generation).1 hstops, everyVisit_isBalanced generation tree⟩

/-- A library of one classic tag with a numeric attribute, and one attribute that is a fragment. -/
def countLibrary : TagLibrary where
  uri := "urn:t"
  tags := [("x", {
    name := "x", iteration := true, vars := [{ given := "v", scope := .atBegin }],
    attributes := [
      { name := "n", required := true, declaredType := "int" },
      { name := "f", fragment := true }] })]

/-- Tags in a fragment and in the body of a tag. -/
def countPage : ParseRequest where
  path := "/a.jsp"
  text := "<%@taglib prefix=\"t\" uri=\"urn:t\"%><t:x n=\"7\"><jsp:attribute name=\"f\">a" ++
    "<t:x n=\"8\">b</t:x></jsp:attribute><jsp:body><t:x n=\"9\">c</t:x><%= 1 %></jsp:body></t:x>"

/-- Surroundings that know the library. -/
def countHost : Host Unit where
  library := some fun _ m => (.ok countLibrary, m)

theorem generate_balanced_countPage : ∃ root, (countPage.parse countHost ()).1 = .ok root ∧
    (root.validate (σ := Unit) none {} ()).failure = none ∧
    (root.validate (σ := Unit) none {} ()).tree.HasLiteralsOfType ∧
    (∃ code, (root.validate (σ := Unit) none {} ()).tree.generate {} = .ok code ∧
      code.fragments = 1) ∧
    EveryVisit {} (root.validate (σ := Unit) none {} ()).tree fun _ => IsBalanced := by
  have hsome : (countPage.parse countHost ()).1.toOption.any (fun root =>
      let v := root.validate (σ := Unit) none {} ()
      v.failure.isNone &&
      (Node.subtreeAll (v.tree.numbered 1).1.children).all (fun n =>
        n.head.attributes.all fun a => (literalCode a.setter.valueType a.value).toOption.isSome) &&
      (v.tree.generate {}).toOption.any (·.fragments == 1)) = true := by decide +kernel
  obtain ⟨root, hparse, htest⟩ := exists_ok_of_any hsome
  dsimp only at htest
  rw [Bool.and_eq_true, Bool.and_eq_true, Option.isNone_iff_eq_none] at htest
  obtain ⟨⟨hvalid, hconverts⟩, hgen⟩ := htest
  have hliterals : (root.validate (σ := Unit) none {} ()).tree.HasLiteralsOfType := by
    refine fun n hn => hasValidLiterals_of_reached (fun m hm _ a ha _ _ => ?_) hn
    have hsome := List.all_eq_true.mp (List.all_eq_true.mp hconverts m hm) a ha
    cases hcode : literalCode a.setter.valueType a.value with
    | ok code => exact ⟨code, rfl⟩
    | error message =>
      rw [hcode] at hsome
      cases hsome
  obtain ⟨-, -, hvisits⟩ :=
    ParseRequest.generate_balanced hparse none {} rfl rfl () hvalid hliterals {}
  obtain ⟨code, hcode, hfragments⟩ := exists_ok_of_any hgen
  exact ⟨root, hparse, hvalid, hliterals, ⟨code, hcode, eq_of_beq hfragments⟩, hvisits⟩

end ServerPages
