import ServerPages.Proofs.BalancedVisits
import ServerPages.Proofs.BalancedGeneration
import ServerPages.Proofs.UnitLayout

/-!
# Text that is shown

What the author of a page writes between its elements is meant to be shown, but for what stands in
fallbacks and in named attributes. An element with a body element shows this and nothing beside it:
text that stands beside a body element is lost, with no problem being reported where the body of the
tag does not start with a named attribute.

All other text of a page is written. On the way down to it every node is come to by generation, or
is a body element whose content is, or holds nothing but blank text (`IsCovered`).

## Main results

* `IsCovered.shows`: what a node that is covered shows is covered.
* `ParseRequest.shownText_written`: the text that is shown has lines of its own, which write it.
-/

namespace ServerPages

namespace Node

/-- A child that a node shows: it is neither a fallback nor a named attribute, and if there are body
elements it is the first one. -/
structure Shows (n c : Node) : Prop where
  mem : c ∈ n.children
  not_fallback : c.kind ≠ .fallback
  not_named : c.kind ≠ .namedAttribute
  body : ∀ b, bodyElement? n.children = some b → c = b

/-- A node that a tree shows, all nodes around it being shown too. -/
inductive IsShown (root : Node) : Node → Prop where
  | root : IsShown root root
  | child {n c : Node} (h : IsShown root n) (hc : n.Shows c) : IsShown root c

theorem IsShown.mem_subtree {root n : Node} (h : root.IsShown n) : n ∈ root.subtree := by
  induction h with
  | root => exact root.mem_subtree_self
  | child _ hc ih => exact mem_subtree_trans ih (mem_subtree_of_child hc.mem (mem_subtree_self _))

/-- A node that shows no text but blank one. -/
inductive IsBarren (n : Node) : Prop where
  | blank (h : n.isBlankText = true)
  | param (hk : n.kind = .param)
  | params (hk : n.kind = .params)
  | body (hk : n.kind = .body) (h : ∀ c ∈ n.children, c.isBlankText = true)

/-- What is shown of children of which only some kinds are admitted. -/
theorem HasItsChildren.isBarren {n c : Node} (hn : n.HasItsChildren) (hc : n.Shows c)
    {allowed : List Kind} (ha : Parsing.allowedChildren? n.kind = some allowed)
    (hkinds : ∀ k ∈ allowed, k ∈ [Kind.param, .params, .fallback, .namedAttribute]) :
    c.IsBarren := by
  rcases hn.admits.action allowed ha c hc.mem with hblank | hk
  · exact .blank hblank
  · have hkind := hkinds _ hk
    simp only [List.mem_cons, List.not_mem_nil, or_false] at hkind
    rcases hkind with hk | hk | hk | hk
    · exact .param hk
    · exact .params hk
    · exact absurd hk hc.not_fallback
    · exact absurd hk hc.not_named

theorem HasItsChildren.not_shows {n c : Node} (hn : n.HasItsChildren) (hk : n.kind.isLeaf = true) :
    ¬n.Shows c := by
  intro hc
  have hmem := hc.mem
  rw [hn.leaf hk] at hmem
  exact absurd hmem List.not_mem_nil

theorem IsBarren.shows {n c : Node} (h : n.IsBarren) (hn : n.HasItsChildren) (hc : n.Shows c) :
    c.IsBarren := by
  cases h with
  | blank h =>
    have hk : n.kind = .text := by
      rw [isBlankText, Bool.and_eq_true] at h
      exact eq_of_beq h.1
    exact absurd hc (hn.not_shows (by rw [hk]; rfl))
  | param hk => exact hn.isBarren hc (by rw [hk]; rfl) (by decide)
  | params hk => exact hn.isBarren hc (by rw [hk]; rfl) (by decide)
  | body hk h => exact .blank (h c hc.mem)

end Node

namespace Generation

open Node

/-- A node on the way to text that is shown, in the generation of some nodes. -/
inductive IsCovered (ns : List Node) (n : Node) : Prop where
  | reached (h : Reached ns n)
  | body (hk : n.kind = .body) (h : ∀ c ∈ n.children, Reached ns c)
  | barren (h : n.IsBarren)

section Covered

variable {ns : List Node} {n c : Node}

/-- What is shown of an element whose body proper is come to, or is blank. -/
theorem isCovered_of_content (hc : n.Shows c)
    (h : (∀ m ∈ n.content, Reached ns m) ∨ n.hasEmptyBody = true) : IsCovered ns c := by
  unfold hasEmptyBody isBlankContent at h
  unfold content contentOf at h
  cases hbody : bodyElement? n.children with
  | some b =>
    rw [hbody] at h
    obtain rfl := hc.body b hbody
    have hk : c.kind = .body :=
      eq_of_beq (List.find?_some (p := fun m : Node => m.kind == .body) hbody)
    rcases h with h | h
    · exact .body hk h
    · exact .barren (.body hk (List.all_eq_true.mp h))
  | none =>
    rw [hbody] at h
    have hmem : c ∈ n.children.filter (·.kind != .namedAttribute) :=
      List.mem_filter.mpr ⟨hc.mem, by simpa using hc.not_named⟩
    rcases h with h | h
    · exact .reached (h c hmem)
    · exact .barren (.blank (List.all_eq_true.mp h c hmem))

variable {binder : Binder} {isTag : Bool} (hn : n.IsChecked binder isTag) (hc : n.Shows c)

include hn hc

/-- What is shown of a tag that generation comes to. -/
theorem isCovered_of_tag (hk : n.kind = .customTag) (h : Reached ns n) : IsCovered ns c := by
  obtain ⟨d, hd, hempty⟩ := hn.tag hk
  refine isCovered_of_content hc ?_
  by_cases hbody : (d.body != .empty && !n.hasEmptyBody) = true
  · refine .inl fun m hm => .inside h ?_
    rw [Node.entered, hk]
    show m ∈ tagNodes n
    rw [tagNodes, hd]
    refine List.mem_append_right _ ?_
    rwa [if_pos hbody]
  · refine .inr ?_
    by_contra hblank
    refine hbody (Bool.and_eq_true_iff.mpr ⟨?_, by simpa using hblank⟩)
    exact bne_iff_ne.mpr fun he => hblank (hempty he)

omit hn in
theorem isCovered_of_useBean (hk : n.kind = .useBean) (h : Reached ns n) : IsCovered ns c := by
  refine isCovered_of_content hc ?_
  by_cases hbody : n.hasEmptyBody = true
  · exact .inr hbody
  · refine .inl fun m hm => .inside h ?_
    rw [Node.entered, hk]
    show m ∈ actionNodes n
    rw [actionNodes, hk]
    refine List.mem_append_right _ ?_
    rwa [if_neg hbody]

/-- What is shown of a node that generation comes to. -/
theorem isCovered_of_reached (hroot : n.kind ≠ .root)
    (hkind : n.kind ≠ .fallback ∧ n.kind ≠ .namedAttribute) (h : Reached ns n) :
    IsCovered ns c := by
  have hdirective (hd : n.kind.isDirective = true) (hne : n.kind ≠ .includeDirective) :
      IsCovered ns c := by
    have hmem := hc.mem
    rw [hn.admits.directive hd hne] at hmem
    exact absurd hmem List.not_mem_nil
  have hleaf (hl : n.kind.isLeaf = true) : IsCovered ns c :=
    absurd hc (hn.toHasItsChildren.not_shows hl)
  have hallowed {allowed : List Kind} (ha : Parsing.allowedChildren? n.kind = some allowed)
      (hkinds : ∀ k ∈ allowed, k ∈ [Kind.param, .params, .fallback, .namedAttribute]) :
      IsCovered ns c := .barren (hn.toHasItsChildren.isBarren hc ha hkinds)
  have hentered (he : n.entered = n.children) : IsCovered ns c :=
    .reached (.inside h (he ▸ hc.mem))
  cases hk : n.kind with
  | root => exact absurd hk hroot
  | text | declaration | expression | scriptlet | elExpression => exact hleaf (by rw [hk]; rfl)
  | pageDirective | taglibDirective | tagDirective | attributeDirective | variableDirective =>
    exact hdirective (by rw [hk]; rfl) (by rw [hk]; decide)
  | includeDirective | textAction | body => exact hentered (by rw [Node.entered, hk])
  | includeAction | forwardAction | getProperty | setProperty | plugin | params | param
  | invokeAction | doBodyAction => exact hallowed (by rw [hk]; rfl) (by decide)
  | useBean => exact isCovered_of_useBean hc hk h
  | customTag => exact isCovered_of_tag hn hc hk h
  | fallback => exact absurd hk hkind.1
  | namedAttribute => exact absurd hk hkind.2

/-- What a node that is covered shows is covered. -/
theorem IsCovered.shows (hroot : n.kind ≠ .root)
    (hkind : n.kind ≠ .fallback ∧ n.kind ≠ .namedAttribute) (h : IsCovered ns n) :
    IsCovered ns c := by
  cases h with
  | reached h => exact isCovered_of_reached hn hc hroot hkind h
  | body _ h => exact .reached (h c hc.mem)
  | barren h => exact .barren (h.shows hn.toHasItsChildren hc)

end Covered

/-- Everything that a tree of checked nodes shows is covered. -/
theorem isCovered_of_isShown {binder : Binder} {isTag : Bool} {root : Node}
    (hchecked : ∀ n ∈ root.subtree, n.IsChecked binder isTag)
    (hkinds : ∀ n ∈ subtreeAll root.children, n.kind ≠ .root) {n : Node} (h : root.IsShown n) :
    n = root ∨ IsCovered root.children n ∧ n ∈ subtreeAll root.children ∧
      n.kind ≠ .fallback ∧ n.kind ≠ .namedAttribute := by
  induction h with
  | root => exact .inl rfl
  | @child n c h hc ih =>
    right
    rcases ih with rfl | ⟨hcovered, hmem, hkind⟩
    · exact ⟨.reached (.top hc.mem), mem_subtreeAll.mpr ⟨c, hc.mem, c.mem_subtree_self⟩,
        hc.not_fallback, hc.not_named⟩
    · refine ⟨hcovered.shows (hchecked n h.mem_subtree) hc (hkinds n hmem) hkind, ?_,
        hc.not_fallback, hc.not_named⟩
      exact mem_subtreeAll_trans hmem (mem_subtree_of_child hc.mem c.mem_subtree_self)

/-- Text that is shown is reached. -/
theorem reached_of_isShown {binder : Binder} {isTag : Bool} {root : Node}
    (hchecked : ∀ n ∈ root.subtree, n.IsChecked binder isTag)
    (hkinds : ∀ n ∈ subtreeAll root.children, n.kind ≠ .root) (hroot : root.kind = .root)
    {n : Node} (h : root.IsShown n) (hk : n.kind = .text) (hblank : n.text.isBlank = false) :
    Reached root.children n := by
  rcases isCovered_of_isShown hchecked hkinds h with rfl | ⟨hcovered, -⟩
  · cases hroot.symm.trans hk
  cases hcovered with
  | reached h => exact h
  | body hk' _ => cases hk'.symm.trans hk
  | barren h =>
    cases h with
    | blank h =>
      rw [isBlankText, hblank, Bool.and_false] at h
      cases h
    | param hk' | params hk' | body hk' _ => cases hk'.symm.trans hk

/-! ### Lines of text -/

/-- The texts that are reached in the generation of a unit have lines. -/
theorem hasLines_of_reached {v : Node} {env : Env} {s : State}
    (hrun : unitBody (body env (v.numbered 1).1.height) (v.numbered 1).1.children (start env) =
      .ok () s)
    {m : Node} (hm : m ∈ subtreeAll (v.numbered 1).1.children)
    (hreached : Reached (v.numbered 1).1.children m) (hk : m.kind = .text)
    (hwrites : env.Writes m.text) : s.HasLines m.head.number := by
  have hsub : ∀ n ∈ (v.numbered 1).1.children, ∀ l ∈ n.subtree,
      l ∈ (v.numbered 1).1.subtree := fun n hn l hl => mem_subtree_of_child hn hl
  have hm' : m ∈ (v.numbered 1).1.subtree := by
    rw [Node.subtree_eq]
    exact List.mem_cons_of_mem _ hm
  -- One node has the number, so only this text is looked for.
  have honly : ∀ n ∈ (v.numbered 1).1.children,
      HasOnlyTexts env (fun k => k = m.head.number) n := by
    intro n hn l hl hnumber
    obtain rfl := Node.eq_of_number_eq (hsub n hn l hl) hm' hnumber
    exact ⟨hk, hwrites⟩
  have h0 : ¬(0 = m.head.number) := fun h => Node.number_pos hm' h.symm
  have hany : ∀ n : Node, ∀ s t : State, s.place.blocks ≠ [] → s.place.Restored t.place → True :=
    fun _ _ _ _ _ => trivial
  exact (walks_unitBody h0 hany _ honly hrun).2 _ rfl ⟨m, hreached, hk, rfl⟩

end Generation

open Generation

/-- **The text that is shown is written.** If the code of a parsed and validated unit is generated,
no problem being dropped, and blank text is not, then every text that the unit shows, unless it is
blank, has lines of the file that are its own: it has one part of the file and no other one, and the
lines of this part are the calls that write its pieces, each piece itself or the constant that holds
it, and nothing else. -/
theorem ParseRequest.shownText_written {σ τ : Type} {r : ParseRequest} {host : Host σ} {memory : σ}
    {root : Node} (hparse : (r.parse host memory).1 = .ok root)
    (library : Option (Bytes → τ → Except Fault TagLibrary × τ)) (options : ValidationOptions)
    (hoverflow : options.overflow = .noCap) (memory' : τ)
    (hvalid : (root.validate library options memory').failure = none) (generation : Options)
    {code : GeneratedUnit}
    (hgen : (root.validate library options memory').tree.generate generation = .ok code)
    (htrim : ∀ page ∈ (root.validate library options memory').tree.page?,
      page.trimSpaces = false) :
    let v := (root.validate library options memory').tree
    let tree := (v.numbered 1).1
    ∃ u page s t F, v.head.unit = some u ∧ v.page? = some page ∧
      let env : Env := ⟨generation, u.file, page⟩
      IsFile ⟨env, tree⟩ s t code F ∧
      ∀ m, tree.IsShown m → m.kind = .text → m.text.isBlank = false →
        let n := m.mapHeads (annotate t)
        n ∈ code.tree.subtree ∧ F.nodes.count m.head.number = 1 ∧
        ∃ args i, List.Forall₂ (IsArgument s.texts) (textPieces env.chunkSize m.text) args ∧
          IsLines code.source n.head.lines ((Code.lines (args.map fun a =>
            .call "pc" ("Out().WriteString(" ++ (a ++ ")")))).layout i .out).text := by
  intro v tree
  have hroot := ParseRequest.parse_isUnit hparse
  obtain ⟨hchecked, hkinds⟩ :=
    r.isChecked_of_validate hparse library options hoverflow memory' hvalid
  have htop : tree.kind = .root := (Node.kind_numbered 1 v).trans
    (root.validate_isPrepared library options memory' hroot hvalid).2
  obtain ⟨u, page, hu, hpage, s, t, F, hrun, hfile⟩ := generate_layout hroot hvalid hgen
  refine ⟨u, page, s, t, F, hu, hpage, hfile, fun m hm hk hblank => ?_⟩
  have hmem : m ∈ tree.subtree := hm.mem_subtree
  have hnumber : m.head.number ≠ 0 := Node.number_pos hmem
  have hreached := reached_of_isShown hchecked hkinds htop hm hk hblank
  have hwrites : Env.Writes ⟨generation, u.file, page⟩ m.text := by
    have hne : m.text ≠ [] := by
      intro hnil
      rw [hnil] at hblank
      cases hblank
    simpa [Env.Writes, htrim page hpage] using hne
  have hbelow : m ∈ Node.subtreeAll tree.children := by
    rw [Node.subtree_eq] at hmem
    exact (List.mem_cons.mp hmem).resolve_left fun h => by cases htop.symm.trans (h ▸ hk)
  have hlines := hfile.kept _ (hasLines_of_reached hrun hbelow hreached hk hwrites)
  obtain ⟨c, i, hcode, hstands⟩ := hfile.lines rfl hmem (Nat.pos_of_ne_zero hlines)
  have hin : m.head.number ∈ F.nodes := hfile.found _ hnumber hlines
  rw [IsCodeOf, hk] at hcode
  obtain ⟨args, hargs, rfl⟩ := hcode
  refine ⟨?_, ?_, args, i, hargs, ?_⟩
  · rw [hfile.tree, Node.subtree_mapHeads]
    exact List.mem_map_of_mem hmem
  · exact Nat.le_antisymm (hfile.once _ hnumber) (List.one_le_count_iff.mpr hin)
  · rw [Node.head_mapHeads]
    exact hstands

/-- Text beside a tag, in one of its attributes, and in its body. -/
def bodyPage : ParseRequest where
  path := "/a.jsp"
  text := "<%@taglib prefix=\"t\" uri=\"urn:t\"%>p<t:x a=\"1\"><jsp:attribute name=\"b\">q" ++
    "</jsp:attribute><jsp:body>r</jsp:body></t:x>"

theorem shownText_written_bodyPage : ∃ root code, (bodyPage.parse pairHost ()).1 = .ok root ∧
    (root.validate (σ := Unit) none {} ()).failure = none ∧
    (∀ page ∈ (root.validate (σ := Unit) none {} ()).tree.page?, page.trimSpaces = false) ∧
    (root.validate (σ := Unit) none {} ()).tree.generate {} = .ok code ∧
    ∃ n ∈ code.tree.subtree, n.text = "r" ∧
      ∃ text, IsLines code.source n.head.lines text := by
  have hsome : (bodyPage.parse pairHost ()).1.toOption.any (fun root =>
      let v := root.validate (σ := Unit) none {} ()
      let tree := (v.tree.numbered 1).1
      v.failure.isNone && v.tree.page?.all (!·.trimSpaces) &&
      (v.tree.generate {}).toOption.isSome && (Node.bodyElement? tree.children).isNone &&
      tree.children.any fun n => n.kind == .customTag &&
        (Node.bodyElement? n.children).any fun b => (Node.bodyElement? b.children).isNone &&
          b.children.any fun c => c.kind == .text && c.text == "r") = true := by decide +kernel
  obtain ⟨root, hparse, htest⟩ := exists_ok_of_any hsome
  simp only [Bool.and_eq_true, Option.isNone_iff_eq_none, List.any_eq_true, Option.any_eq_true,
    beq_iff_eq, Option.all_eq_true, Bool.not_eq_true'] at htest
  obtain ⟨⟨⟨⟨hvalid, htrim⟩, hgen⟩, hnone⟩, n, hn, hkind, b, hb, hnone', c, hc, hck, htext⟩ := htest
  have hbody : b.kind = .body :=
    eq_of_beq (List.find?_some (p := fun m : Node => m.kind == .body) hb)
  have hshown : ((root.validate (σ := Unit) none {} ()).tree.numbered 1).1.IsShown c := by
    refine .child (.child (.child .root ⟨hn, ?_, ?_, ?_⟩)
      ⟨List.mem_of_find?_eq_some hb, ?_, ?_, ?_⟩) ⟨hc, ?_, ?_, ?_⟩
    · rw [hkind]; decide
    · rw [hkind]; decide
    · exact fun b' hb' => by cases hnone.symm.trans hb'
    · rw [hbody]; decide
    · rw [hbody]; decide
    · exact fun b' hb' => Option.some.inj (hb.symm.trans hb')
    · rw [hck]; decide
    · rw [hck]; decide
    · exact fun b' hb' => by cases hnone'.symm.trans hb'
  obtain ⟨code, hcode⟩ : ∃ code,
      (root.validate (σ := Unit) none {} ()).tree.generate {} = .ok code := by
    cases hrun : (root.validate (σ := Unit) none {} ()).tree.generate {} with
    | ok code => exact ⟨code, rfl⟩
    | error e =>
      rw [hrun] at hgen
      cases hgen
  obtain ⟨u, page, s, t, F, -, -, -, hwritten⟩ :=
    ParseRequest.shownText_written hparse none {} rfl () hvalid {} hcode htrim
  obtain ⟨hmem, -, args, i, -, hstands⟩ := hwritten c hshown hck (by rw [htext]; rfl)
  refine ⟨root, code, hparse, hvalid, htrim, hcode, _, hmem, ?_, _, hstands⟩
  rw [Node.text, Node.head_mapHeads]
  exact htext

end ServerPages
