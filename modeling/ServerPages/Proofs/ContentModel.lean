import ServerPages.Proofs.TreeShapes
import ServerPages.Proofs.PreparedTrees

/-!
# The content model

Both syntaxes let the same elements stand in the same ones. The native syntax refuses what does not
belong while it goes down; in a document the children of an element are checked when all are known.

What may stand under an element is known from its head. What a parser adds to some siblings must
fit the head that they stand under, so that nothing but the head need be known when the children
are put under it. In a document blank text comes only beside other text and expressions, which a
restricted element does not take, so none is left there.

## Main definitions

* `Head.Takes`: the content model of one element.
* `Node.Fits`: a node fits the head that it stands under.

## Main results

* `Head.Holds.takes`: children that fit a head make it follow the content model.
* `Parsing.textAdded_textNodes`: a text that is not blank is not split into blank text.
* `Parsing.Native.isCarried_allFit`: every construct of the native syntax adds only what fits the
  head around it.
-/

namespace ServerPages

open Parsing

/-- The list of the children of a node, if it has one. Nodes of the kinds that may have children
have it from the start, others from their first child on. -/
def Node.body? (n : Node) : Option (List Node) :=
  if n.kind.allowsBody || !n.children.isEmpty then some n.children else none

/-- The children are some that the content model lets stand under the head. -/
structure Head.Takes (h : Head) (cs : List Node) : Prop where
  leaf : h.kind.allowsBody = false → cs = []
  onlyNamed : h.kind ∈ [.param, .invokeAction, .doBodyAction, .setProperty] →
    ∀ c ∈ cs, c.kind = .namedAttribute
  forPage : h.kind ∈ [.includeAction, .forwardAction] →
    ∀ c ∈ cs, c.kind ∈ [.param, .namedAttribute]
  params : h.kind = .params → ∀ c ∈ cs, c.kind = .param
  plugin : h.kind = .plugin → ∀ c ∈ cs, c.kind ∈ [.params, .fallback, .namedAttribute]
  fallback : h.kind = .fallback → ∀ c ∈ cs, c.kind = .text
  text : h.kind = .textAction → ∀ c ∈ cs, c.kind ∈ [.text, .elExpression]
  named : ∀ c ∈ cs, c.kind = .namedAttribute → h.kind ∈ [.customTag, .includeAction, .forwardAction,
    .plugin, .useBean, .setProperty, .param, .invokeAction, .doBodyAction]
  body : ∀ c ∈ cs, c.kind = .body → h.kind = .customTag
  tagDependent : bodyContentOf h = .tagDependent →
    ∀ c ∈ cs, c.kind = .body → ∀ d ∈ c.children, d.kind = .text
  empty : h.kind = .customTag → bodyContentOf h = .empty → ∀ c ∈ cs,
    c.kind = .namedAttribute ∨ c.isBlankText = true ∨ c.kind = .body ∧ c.children = []

namespace Node

/-- The node and all nodes below it follow the content model. -/
inductive IsModelled : Node → Prop where
  | mk {h : Head} {cs : List Node} (head : h.Takes cs) (children : ∀ c ∈ cs, IsModelled c) :
    IsModelled (.mk h cs)

theorem IsModelled.takes_of_mem {n : Node} (hn : n.IsModelled) :
    ∀ m ∈ n.subtree, m.head.Takes m.children := by
  induction hn with
  | mk head _ ih => exact forall_mem_subtree head ih

/-- The node follows the content model and may stand under the head. -/
structure Fits (parent : Head) (n : Node) : Prop where
  modelled : n.IsModelled
  named : n.kind = .namedAttribute → takesNamedAttributes parent.kind = true
  body : n.kind = .body → parent.kind = .customTag
  tagDependent : n.kind = .body → bodyContentOf parent = .tagDependent →
    ∀ c ∈ n.children, c.kind = .text
  empty : n.kind = .body → bodyContentOf parent = .empty → n.children = []

/-- Nodes that stand side by side under a head which they fit. -/
def AllFit (parent : Head) (ns : List Node) : Prop := ∀ n ∈ ns, n.Fits parent

variable {parent h : Head} {ns cs : List Node} {n : Node}

theorem allFit_nil (parent : Head) : AllFit parent [] := fun _ hn => absurd hn List.not_mem_nil

/-- Most nodes fit every head. -/
theorem Fits.of_kind (hn : n.IsModelled) (hnamed : n.kind ≠ .namedAttribute)
    (hbody : n.kind ≠ .body) : n.Fits parent where
  modelled := hn
  named hk := absurd hk hnamed
  body hk := absurd hk hbody
  tagDependent hk := absurd hk hbody
  empty hk := absurd hk hbody

/-- Text that goes on changes nothing that the content model is about. -/
theorem Fits.extend (hn : n.Fits parent) (hk : n.kind = .text) (more : Bytes) :
    (n.extend more).Fits parent := by
  have hkind : (n.extend more).kind = .text := hk
  refine .of_kind ?_ (fun h => by cases hkind.symm.trans h) (fun h => by cases hkind.symm.trans h)
  obtain ⟨head, children⟩ := hn.modelled
  exact ⟨⟨head.leaf, head.onlyNamed, head.forPage, head.params, head.plugin, head.fallback,
    head.text, head.named, head.body, head.tagDependent, head.empty⟩, children⟩

theorem AllFit.push (hns : AllFit parent ns) (hn : n.Fits parent) :
    AllFit parent (Node.push ns n) :=
  forall_mem_push hns hn fun _ hk hm => hm.extend hk n.text

end Node

open Node

/-- What is known of the children beside that they fit the head. -/
structure Head.Holds (h : Head) (cs : List Node) : Prop where
  leaf : h.kind.allowsBody = false → cs = []
  action : ∀ allowed, allowedChildren? h.kind = some allowed → ∀ c ∈ cs, c.kind ∈ allowed
  fallback : h.kind = .fallback → ∀ c ∈ cs, c.kind = .text
  text : h.kind = .textAction → ∀ c ∈ cs, c.kind ∈ [.text, .elExpression]
  empty : h.kind = .customTag → bodyContentOf h = .empty →
    ∀ c ∈ cs, c.kind = .namedAttribute ∨ c.isBlankText = true ∨ c.kind = .body

/-- The one action without a body takes nothing. -/
theorem Kind.takesNothing_of_action? {name : Bytes} {k : Kind} (h : Kind.action? name = some k)
    (hk : k.allowsBody = false) : allowedChildren? k = some [] := by
  obtain ⟨l, r, hl, -⟩ := List.lookup_eq_some_iff.mp h
  have hmem : k ∈ Kind.actions.map (·.2) := by simp [hl]
  revert hk hmem
  cases k <;> decide

theorem Kind.ne_of_directive? {name : Bytes} {k : Kind} (h : Kind.directive? name = some k) :
    k ≠ .namedAttribute ∧ k ≠ .body := by
  obtain ⟨l, r, hl, -⟩ := List.lookup_eq_some_iff.mp h
  have hmem : k ∈ Kind.directives.map (·.2) := by simp [hl]
  revert hmem
  cases k <;> decide

namespace Head

variable {parent h : Head} {cs : List Node}

theorem holds_nil (h : Head) : h.Holds [] :=
  ⟨fun _ => rfl, fun _ _ _ hc => absurd hc List.not_mem_nil,
    fun _ _ hc => absurd hc List.not_mem_nil, fun _ _ hc => absurd hc List.not_mem_nil,
    fun _ _ _ hc => absurd hc List.not_mem_nil⟩

/-- Children that fit a head make it follow the content model. -/
theorem Holds.takes (hh : h.Holds cs) (hcs : AllFit h cs) : h.Takes cs where
  leaf := hh.leaf
  onlyNamed hk c hc := by
    refine List.mem_singleton.mp (hh.action [.namedAttribute] ?_ c hc)
    rcases List.mem_cons.mp hk with hk | hk
    · rw [hk]; rfl
    · revert hk
      cases h.kind <;> decide
  forPage hk c hc := by
    refine hh.action _ ?_ c hc
    rcases List.mem_cons.mp hk with hk | hk
    · rw [hk]; rfl
    · rw [List.mem_singleton.mp hk]; rfl
  params hk c hc := List.mem_singleton.mp (hh.action [.param] (by rw [hk]; rfl) c hc)
  plugin hk c hc := hh.action _ (by rw [hk]; rfl) c hc
  fallback := hh.fallback
  text := hh.text
  named c hc hk := by
    have htakes := (hcs c hc).named hk
    revert htakes
    cases h.kind <;> decide
  body c hc := (hcs c hc).body
  tagDependent hcontent c hc hk := (hcs c hc).tagDependent hk hcontent
  empty hk hcontent c hc := by
    rcases hh.empty hk hcontent c hc with hc' | hc' | hc'
    · exact .inl hc'
    · exact .inr (.inl hc')
    · exact .inr (.inr ⟨hc', (hcs c hc).empty hc' hcontent⟩)

theorem Holds.isModelled (hh : h.Holds cs) (hcs : AllFit h cs) : (Node.mk h cs).IsModelled :=
  ⟨hh.takes hcs, fun c hc => (hcs c hc).modelled⟩

theorem isModelled_leaf (h : Head) : (Node.leaf h).IsModelled :=
  h.holds_nil.isModelled (allFit_nil h)

/-- The content model says nothing of the children of the other kinds. -/
theorem Holds.of_kind (hbody : h.kind.allowsBody = true)
    (hallowed : allowedChildren? h.kind = none) (hfallback : h.kind ≠ .fallback)
    (htext : h.kind ≠ .textAction) (htag : h.kind ≠ .customTag) (cs : List Node) : h.Holds cs where
  leaf hk := by rw [hbody] at hk; cases hk
  action _ ha := by rw [hallowed] at ha; cases ha
  fallback hk := absurd hk hfallback
  text hk := absurd hk htext
  empty hk := absurd hk htag

/-- Children of a tag. -/
theorem Holds.of_tag (hk : h.kind = .customTag)
    (hempty : bodyContentOf h = .empty →
      ∀ c ∈ cs, c.kind = .namedAttribute ∨ c.isBlankText = true ∨ c.kind = .body) :
    h.Holds cs where
  leaf hl := by rw [hk] at hl; cases hl
  action _ ha := by rw [hk] at ha; cases ha
  fallback hf := by cases hk.symm.trans hf
  text ht := by cases hk.symm.trans ht
  empty _ := hempty

/-- Children of a standard action. -/
theorem Holds.of_action {name : Bytes} (hname : Kind.action? name = some h.kind)
    (haction : ∀ allowed, allowedChildren? h.kind = some allowed → ∀ c ∈ cs, c.kind ∈ allowed)
    (hfallback : h.kind = .fallback → ∀ c ∈ cs, c.kind = .text)
    (htext : h.kind = .textAction → ∀ c ∈ cs, c.kind ∈ [.text, .elExpression]) :
    h.Holds cs where
  leaf hl := by
    have hnone := haction [] (Kind.takesNothing_of_action? hname hl)
    exact List.eq_nil_iff_forall_not_mem.mpr fun c hc => absurd (hnone c hc) List.not_mem_nil
  action := haction
  fallback := hfallback
  text := htext
  empty hk := absurd hk (Kind.action?_eq_some hname).1.2

/-- The content model says of body elements what is in them. -/
def BodyFits (parent h : Head) (cs : List Node) : Prop :=
  h.kind = .body → (bodyContentOf parent = .tagDependent → ∀ c ∈ cs, c.kind = .text) ∧
    (bodyContentOf parent = .empty → cs = [])

theorem bodyFits_nil (parent h : Head) : parent.BodyFits h [] :=
  fun _ => ⟨fun _ _ hc => absurd hc List.not_mem_nil, fun _ => rfl⟩

/-- A standard action with its children. -/
theorem fits_action (hh : h.Holds cs) (hcs : AllFit h cs) (hbody : parent.BodyFits h cs)
    (hplaced : (h.kind = .namedAttribute → takesNamedAttributes parent.kind = true) ∧
      (h.kind = .body → parent.kind = .customTag)) : (Node.mk h cs).Fits parent where
  modelled := hh.isModelled hcs
  named := hplaced.1
  body := hplaced.2
  tagDependent hk := (hbody hk).1
  empty hk := (hbody hk).2

/-- A tag with its children. -/
theorem fits_tag (hk : h.kind = .customTag)
    (hempty : bodyContentOf h = .empty →
      ∀ c ∈ cs, c.kind = .namedAttribute ∨ c.isBlankText = true ∨ c.kind = .body)
    (hcs : AllFit h cs) : (Node.mk h cs).Fits parent := by
  have hkind : (Node.mk h cs).kind = .customTag := hk
  refine .of_kind ((Holds.of_tag hk hempty).isModelled hcs) ?_ ?_
  · rw [hkind]
    decide
  · rw [hkind]
    decide

/-- A directive that includes no file. -/
theorem fits_directive {name : Bytes} (hname : Kind.directive? name = some h.kind) :
    (Node.mk h []).Fits parent :=
  .of_kind h.isModelled_leaf (Kind.ne_of_directive? hname).1
    (Kind.ne_of_directive? hname).2

/-- A directive with the content of the file that it includes. -/
theorem fits_include (hk : h.kind = .includeDirective) (hcs : AllFit h cs) :
    (Node.mk h cs).Fits parent := by
  have hkind : (Node.mk h cs).kind = .includeDirective := hk
  have hholds : h.Holds cs := by
    refine .of_kind ?_ ?_ ?_ ?_ ?_ cs <;> rw [hk] <;> decide
  refine .of_kind (hholds.isModelled hcs) ?_ ?_
  · rw [hkind]
    decide
  · rw [hkind]
    decide

theorem fits_leaf (hk : h.kind.isLeaf = true) : (Node.leaf h).Fits parent := by
  have hkind : (Node.leaf h).kind.isLeaf = true := hk
  refine .of_kind h.isModelled_leaf (fun hk' => ?_) (fun hk' => ?_)
  · rw [hk'] at hkind
    cases hkind
  · rw [hk'] at hkind
    cases hkind

end Head

/-! ### Text that is not blank -/

namespace Expression

theorem isBlank_of_isOpener {s : Bytes} (h : isOpener s = true) : s.isBlank = false := by
  match s, h with
  | a :: b :: _, h =>
    rw [isOpener, Bool.and_eq_true, Bool.or_eq_true, beq_iff_eq, beq_iff_eq] at h
    rcases h.1 with rfl | rfl <;> rfl

/-- What opens an expression is not blank. -/
theorem isBlank_take_of_isOpener {s : Bytes} (h : isOpener s = true) :
    Bytes.isBlank (s.take 2) = false := by
  match s, h with
  | a :: b :: _, h => exact isBlank_of_isOpener (s := [a, b]) h

theorem isBlank_unescape {s : Bytes} (h : s.isBlank = false) : (unescape s).isBlank = false := by
  induction s with
  | nil => cases h
  | cons b s ih =>
    rw [unescape]
    split
    · next hopen => exact ih (isBlank_of_isOpener (Bool.and_eq_true_iff.mp hopen).2)
    · rw [Bytes.isBlank, List.all_cons, Bool.and_eq_false_iff] at h ⊢
      exact h.imp_right ih

namespace Segment

/-- Whether the node of the segment is not blank text. -/
def IsSolid (seg : Segment) : Prop := seg.isExpression = true ∨ seg.text.isBlank = false

end Segment

/-- A text that is not blank has a segment that is not. -/
theorem exists_solid_of_scanFrom {offset skip : Nat} {lit : Pending} {s : Bytes}
    {segs : List Segment} (h : scanFrom offset skip lit s = .ok segs)
    (hs : (∃ p ∈ lit, Bytes.isBlank p.2 = false) ∨ Bytes.isBlank (s.drop skip) = false) :
    ∃ seg ∈ segs, seg.IsSolid := by
  -- What is pending becomes a segment, and stays as it is when more is added to it.
  have hadd : ∀ {lit : Pending} (o : Nat) {t : Bytes},
      (∃ p ∈ lit, Bytes.isBlank p.2 = false) ∨ t.isBlank = false →
      ∃ p ∈ lit.add o t, Bytes.isBlank p.2 = false := by
    intro lit o t ht
    cases lit with
    | none =>
      refine ⟨_, rfl, ?_⟩
      have ht := ht.resolve_left fun ⟨p, hp, _⟩ => by cases hp
      rwa [Bytes.isBlank, List.all_reverse]
    | some p =>
      refine ⟨_, rfl, ?_⟩
      rw [Bytes.isBlank, List.all_append, List.all_reverse, Bool.and_eq_false_iff]
      refine ht.symm.imp_right ?_
      rintro ⟨q, hq, hblank⟩
      exact Option.some.inj hq ▸ hblank
  induction s generalizing offset skip lit segs with
  | nil =>
    obtain ⟨p, hp, hblank⟩ := hs.resolve_right (by simp [Bytes.isBlank])
    cases lit with
    | none => cases hp
    | some q =>
      obtain rfl := Option.some.inj hp
      rw [scanFrom] at h
      obtain rfl := Except.ok.inj h
      refine ⟨_, List.mem_singleton_self _, .inr ?_⟩
      rwa [Bytes.isBlank, List.all_reverse]
  | cons b s ih =>
    cases skip with
    | succ skip => exact ih (by rwa [scanFrom] at h) hs
    | zero =>
      rw [scanFrom] at h
      split at h
      · next hopen =>
        have hopen := (Bool.and_eq_true_iff.mp hopen).2
        exact ih h (.inl (hadd offset (.inr (isBlank_take_of_isOpener hopen))))
      split at h
      · split at h
        · cases h
        next n _ =>
        cases hscan : scanFrom (offset + 1) (n - 1) none s with
        | error e =>
          rw [hscan] at h
          cases h
        | ok more =>
          rw [hscan] at h
          obtain rfl := Except.ok.inj h
          refine ⟨_, List.mem_append_right _ List.mem_cons_self, .inl ?_⟩
          rw [Segment.isExpression, segmentOf]
          split <;> rfl
      · rw [List.drop_zero, Bytes.isBlank, List.all_cons, Bool.and_eq_false_iff] at hs
        rcases hs with hs | hs | hs
        · exact ih h (.inl (hadd offset (.inl hs)))
        · refine ih h (.inl (hadd offset (.inr ?_)))
          rw [Bytes.isBlank, List.all_cons, hs, Bool.false_and]
        · exact ih h (.inr hs)

end Expression

namespace Node

/-- Text or an expression that is not blank. -/
def IsSolid (n : Node) : Prop := n.kind ∈ [.text, .elExpression] ∧ n.isBlankText = false

/-- There is content among some siblings beside which blank text may stand. -/
def HasContent (ns : List Node) : Prop := ∃ n ∈ ns, n.IsSolid

variable {n : Node} {ns : List Node}

theorem HasContent.push (h : HasContent ns ∨ n.IsSolid) : HasContent (Node.push ns n) := by
  unfold Node.push
  split
  · next hlast =>
    rw [List.getLast?_eq_none_iff.mp hlast] at h
    have hn := h.resolve_left fun ⟨_, hm, _⟩ => absurd hm List.not_mem_nil
    exact ⟨n, List.mem_singleton_self n, hn⟩
  next last hlast =>
  split
  · next htexts =>
    rw [Bool.and_eq_true, Bool.and_eq_true, beq_iff_eq, beq_iff_eq] at htexts
    -- The text at the end, which goes on, is solid if it was or if the rest of it is.
    have hend : last.IsSolid ∨ n.IsSolid → (last.extend n.text).IsSolid := by
      intro hsolid
      have hkind : (last.extend n.text).kind = .text := htexts.1.2
      refine ⟨by rw [hkind]; decide, ?_⟩
      have hboth : (last.extend n.text).isBlankText = (last.text.isBlank && n.text.isBlank) := by
        rw [isBlankText, hkind]
        exact List.all_append
      rw [hboth, Bool.and_eq_false_iff]
      refine hsolid.imp (fun h => ?_) (fun h => ?_)
      · simpa [isBlankText, htexts.1.2] using h.2
      · simpa [isBlankText, htexts.1.1] using h.2
    have hmem : last.extend n.text ∈ ns.dropLast ++ [last.extend n.text] := by simp
    rcases h with ⟨m, hm, hsolid⟩ | h
    · obtain ⟨init, rfl⟩ := List.getLast?_eq_some_iff.mp hlast
      rcases List.mem_append.mp hm with hm | hm
      · exact ⟨m, by simp [hm], hsolid⟩
      · rw [List.mem_singleton.mp hm] at hsolid
        exact ⟨_, hmem, hend (.inl hsolid)⟩
    · exact ⟨_, hmem, hend (.inr h)⟩
  · rcases h with ⟨m, hm, hsolid⟩ | h
    · exact ⟨m, List.mem_append_left _ hm, hsolid⟩
    · exact ⟨n, List.mem_append_right _ (List.mem_singleton_self n), h⟩

end Node

namespace Parsing

variable {σ : Type}

open Parsing.Native (KindsIn kindsIn_nil)

/-- The kinds of what a text is split into. -/
def IsTextual (k : Kind) : Prop := k ∈ [.text, .elExpression]

theorem isTextual_text : IsTextual .text := List.mem_cons_self

theorem isTextual_elExpression : IsTextual .elExpression :=
  List.mem_cons_of_mem _ (List.mem_singleton_self _)

/-- What a text, solid or not, makes of the siblings before it. -/
structure TextAdded (solid : Prop) (siblings ns : List Node) : Prop where
  kinds : KindsIn IsTextual siblings → KindsIn IsTextual ns
  content : HasContent siblings ∨ solid → HasContent ns

theorem TextAdded.push {siblings : List Node} {n : Node} {solid : Prop} (hk : IsTextual n.kind)
    (hsolid : solid → n.isBlankText = false) : TextAdded solid siblings (Node.push siblings n) where
  kinds h := h.push hk
  content h := .push (h.imp_right fun hs => ⟨hk, hsolid hs⟩)

theorem TextAdded.trans {p q : Prop} {xs ys zs : List Node} (h : TextAdded p xs ys)
    (h' : TextAdded q ys zs) : TextAdded (p ∨ q) xs zs where
  kinds hx := h'.kinds (h.kinds hx)
  content hx := by
    rcases hx with hx | hp | hq
    · exact h'.content (.inl (h.content (.inl hx)))
    · exact h'.content (.inl (h.content (.inr hp)))
    · exact h'.content (.inr hq)

theorem textAdded_segmentNodes (uriOf : Bytes → Bytes) (s : Bytes) (p : Position)
    (scriptless : Bool) (siblings : List Node) (segs : List Expression.Segment) :
    Returns (TextAdded (∃ seg ∈ segs, seg.IsSolid) siblings)
      (segmentNodes uriOf s p scriptless siblings segs : Parse σ (List Node)) := by
  induction segs generalizing siblings with
  | nil => exact Returns.pure ⟨id, fun h => h.resolve_right fun ⟨_, hm, _⟩ => by cases hm⟩
  | cons seg segs ih =>
    have hnext : ∀ n : Node, IsTextual n.kind → (seg.IsSolid → n.isBlankText = false) →
        Returns (TextAdded (∃ seg' ∈ seg :: segs, seg'.IsSolid) siblings)
          (segmentNodes uriOf s p scriptless (Node.push siblings n) segs : Parse σ _) := by
      intro n hk hsolid
      refine (ih (Node.push siblings n)).mono fun ns hns => ?_
      have hadded : TextAdded seg.IsSolid siblings (Node.push siblings n) := .push hk hsolid
      have hboth := hadded.trans hns
      refine ⟨hboth.kinds, fun h => hboth.content (h.imp_right ?_)⟩
      rintro ⟨seg', hmem, hseg'⟩
      rcases List.mem_cons.mp hmem with rfl | hmem
      · exact .inl hseg'
      · exact .inr ⟨seg', hmem, hseg'⟩
    rw [segmentNodes]
    split
    · refine Returns.bind (P := fun n : Node => n.kind = .elExpression) ?_ fun n hn => ?_
      · unfold elNode
        split
        · exact returns_refuse _ _ _
        · exact Returns.pure rfl
      · exact hnext n (hn ▸ isTextual_elExpression) fun _ => by rw [Node.isBlankText, hn]; rfl
    · next hseg => exact hnext _ isTextual_text fun h => h.resolve_left hseg

/-- A text is split into text and expressions, not all of it blank if it is not. -/
theorem textAdded_textNodes (uriOf : Bytes → Bytes) (siblings : List Node) (s : Bytes)
    (p : Position) (scriptless allowEl : Bool) :
    Returns (TextAdded (s.isBlank = false) siblings)
      (textNodes uriOf siblings s p scriptless allowEl : Parse σ (List Node)) := by
  have htext : ∀ t : Bytes, (s.isBlank = false → t.isBlank = false) →
      TextAdded (s.isBlank = false) siblings (Node.push siblings (textNode t p scriptless)) :=
    fun t ht => .push isTextual_text ht
  unfold textNodes
  split
  · next hnil =>
    refine Returns.pure ⟨id, fun h => h.resolve_right fun hs => ?_⟩
    rw [eq_of_beq hnil] at hs
    cases hs
  refine Returns.skip fun t => ?_
  refine Returns.ite (Returns.pure (htext s id)) ?_
  refine Returns.ite (Returns.pure (htext _ Expression.isBlank_unescape)) ?_
  split
  · exact returns_refuse _ _ _
  next segs hscan =>
  refine (textAdded_segmentNodes _ _ _ _ _ _).mono fun ns hns => ⟨hns.kinds, fun h => ?_⟩
  refine hns.content (h.imp_right fun hs => ?_)
  exact Expression.exists_solid_of_scanFrom hscan (.inr hs)

theorem isOpenTo_allFit : IsOpenTo AllFit where
  nil := allFit_nil
  leaf _ _ _ hk _ hns := hns.push (Head.fits_leaf hk)

/-- The content of a text action. -/
theorem returns_textNodes_nil (h : Head) (uriOf : Bytes → Bytes) (s : Bytes) (p : Position)
    (scriptless allowEl : Bool) :
    Returns (fun cs => KindsIn IsTextual cs ∧ AllFit h cs)
      (textNodes uriOf [] s p scriptless allowEl : Parse σ (List Node)) :=
  ((textAdded_textNodes _ _ _ _ _ _).mono fun _ hcs => hcs.kinds (kindsIn_nil _)).and
    (returns_textNodes (isOpenTo_allFit.leaf h) _ (allFit_nil h) _ _ _ _)

/-- Content that is passed as it is written: text only. -/
def AreTexts (cs : List Node) : Prop := ∀ c ∈ cs, ∃ h : Head, c = .leaf h ∧ h.kind = .text

theorem AreTexts.kinds {cs : List Node} (h : AreTexts cs) : ∀ c ∈ cs, c.kind = .text := by
  intro c hc
  obtain ⟨h, rfl, hk⟩ := h c hc
  exact hk

theorem AreTexts.allFit {cs : List Node} (h : AreTexts cs) (parent : Head) : AllFit parent cs := by
  intro c hc
  obtain ⟨h, rfl, hk⟩ := h c hc
  exact Head.fits_leaf (by rw [hk]; rfl)

/-- What is passed as it is written is one text, if it is anything. -/
theorem areTexts_ite (s : Bytes) (p : Position) (scriptless : Bool) :
    AreTexts (if s == [] then [] else [textNode s p scriptless]) := by
  split
  · exact fun _ hc => absurd hc List.not_mem_nil
  · exact List.forall_mem_singleton.mpr ⟨_, rfl, rfl⟩

theorem returns_bodyElementContent (parent : Head) (p : Position) :
    Returns (fun content => content = bodyContentOf parent ∧ bodyContentOf parent ≠ .empty)
      (bodyElementContent parent p : Parse σ BodyContent) := by
  unfold bodyElementContent
  refine Returns.guard fun _ => ?_
  split
  · exact returns_refuse_bind _ _ _ _
  · next hempty => exact Returns.pure ⟨rfl, fun h => hempty (by rw [h]; rfl)⟩

end Parsing

/-! ### The native syntax -/

namespace Parsing

variable {σ : Type} {parent : Head}

namespace Native

variable {siblings : List Node}

theorem allFit_directive (env : Env σ) {included : Include σ}
    (hinc : ∀ h scriptless, Returns (AllFit h) (included h scriptless)) (p : Position)
    (scriptless : Bool) (hs : AllFit parent siblings) :
    Returns (AllFit parent) (directive env included p scriptless siblings) := by
  refine Returns.skip fun _ => Returns.skip fun name => ?_
  refine (returns_kind_directiveHead _ _ _).bind fun h hname => Returns.skip fun _ => ?_
  refine (returns_kind_directiveAttributes _ _ h).bind fun h' hk => ?_
  rw [← hk] at hname
  have hnone : ∀ {x : Parse σ (List Node)}, Returns (· = []) x →
      Returns (AllFit parent) (x >>= fun cs => Pure.pure (Node.push siblings (.mk h' cs))) :=
    fun hx => hx.bind fun cs hcs => Returns.pure (hcs ▸ hs.push (Head.fits_directive hname))
  dsimp only
  split
  · exact Returns.skip fun _ => hnone (Returns.pure rfl)
  · exact Returns.skip fun _ => hnone (Returns.pure rfl)
  · exact Returns.skip fun _ => hnone (Returns.pure rfl)
  · next hkind =>
    exact (hinc _ _).bind fun cs hcs => Returns.pure (hs.push (Head.fits_include hkind hcs))
  · exact hnone (Returns.pure rfl)

theorem areTexts_opaqueBody (h : Head) (scriptless : Bool) :
    Returns AreTexts (opaqueBody h scriptless : Parse σ (List Node)) := by
  refine Returns.skip fun c => ?_
  split
  · exact returns_refuse _ _ _
  · exact Returns.skip fun _ => Returns.pure (areTexts_ite _ _ _)

theorem kindsIn_textBody (h : Head) (scriptless : Bool) :
    Returns (KindsIn IsTextual) (textBody h scriptless : Parse σ (List Node)) := by
  refine Returns.skip fun c => ?_
  split
  · exact returns_refuse _ _ _
  refine Returns.skip fun _ => ?_
  dsimp only
  split
  · exact returns_refuse _ _ _
  · exact Returns.skip fun _ => (returns_textNodes_nil h _ _ _ _ _).mono fun _ => And.left

/-- The children of a standard action are those that the content model lets it have. -/
theorem holds_actionBody {inner : Element σ} (hmakes : inner.MakesActions) (parent : Head)
    {h : Head} {name : Bytes} (hname : Kind.action? name = some h.kind) (scriptless : Bool) :
    Returns h.Holds (actionBody inner parent h scriptless) := by
  intro s cs t hrun
  refine .of_action hname (fun allowed ha => ?_) (fun hk => ?_) (fun hk => ?_)
  · exact kindsIn_actionBody hmakes parent ha scriptless s cs t hrun
  · have hraw : actionBody inner parent h scriptless = opaqueBody h scriptless := by
      unfold actionBody
      rw [hk]
    exact (areTexts_opaqueBody h scriptless s cs t (hraw ▸ hrun)).kinds
  · have htext : actionBody inner parent h scriptless = textBody h scriptless := by
      unfold actionBody
      rw [hk]
    exact kindsIn_textBody h scriptless s cs t (htext ▸ hrun)

/-- A body element has the content that the tag around it lets it have. -/
theorem bodyFits_actionBody (inner : Element σ) (parent h : Head) (scriptless : Bool) :
    Returns (parent.BodyFits h) (actionBody inner parent h scriptless) := by
  intro s cs t hrun hk
  have hbody : actionBody inner parent h scriptless =
      bodyElementContent parent h.start >>= fun content =>
        contentBody inner h content scriptless := by
    unfold actionBody
    rw [hk]
  rw [hbody] at hrun
  obtain ⟨content, u, hcontent, hrun⟩ := bind_eq_ok hrun
  obtain ⟨rfl, hne⟩ := returns_bodyElementContent _ _ _ _ _ hcontent
  refine ⟨fun hdependent => ?_, fun hempty => absurd hempty hne⟩
  rw [hdependent] at hrun
  exact (areTexts_opaqueBody _ _ _ _ _ hrun).kinds

/-- An empty tag has named attributes and body elements only. -/
theorem kindsIn_tagBody {inner : Element σ} (hmakes : inner.MakesActions) {h : Head}
    (hempty : bodyContentOf h = .empty) (scriptless : Bool) :
    Returns (KindsIn fun k => k = .namedAttribute ∨ k = .body) (tagBody inner h scriptless) := by
  have hnamed : Returns (KindsIn fun k => k = .namedAttribute ∨ k = .body)
      (namedBody inner h scriptless) :=
    (kindsIn_namedBody hmakes h scriptless).mono fun cs hcs c hc => (hcs c hc).imp_right And.left
  unfold tagBody
  refine Returns.skip fun _ => Returns.ite hnamed ?_
  rw [hempty]
  refine Returns.skip fun _ => Returns.ite (Returns.pure (kindsIn_nil _)) ?_
  exact Returns.skip fun _ => Returns.ite hnamed (Returns.skip fun _ => returns_refuse _ _ _)

section Elements

variable {inner : Element σ} (hinner : inner.Carries AllFit) (hmakes : inner.MakesActions)
  (hs : AllFit parent siblings)

include hinner hmakes hs

theorem allFit_standardAction (scriptless : Bool) :
    Returns (AllFit parent) (standardAction inner parent scriptless siblings) := by
  refine Returns.skip fun c => Returns.skip fun _ => Returns.skip fun name => ?_
  refine (returns_kind_actionHead _ _ _).bind fun h hname => ?_
  refine (returns_checkPlacement parent h).bind fun _ hplaced => ?_
  refine (returns_kind_attributes h _).bind fun r hk => ?_
  rw [← hk] at hname hplaced
  have hpush : ∀ cs, r.1.Holds cs → AllFit r.1 cs → parent.BodyFits r.1 cs →
      AllFit parent (Node.push siblings (.mk r.1 cs)) :=
    fun cs hholds hcs hbody => hs.push (Head.fits_action hholds hcs hbody hplaced)
  refine Returns.ite ?_ ?_
  · exact Returns.pure (hpush [] r.1.holds_nil (allFit_nil r.1) (Head.bodyFits_nil parent r.1))
  have hbody := (carries_actionBody isOpenTo_allFit hinner parent r.1 scriptless).and
    (bodyFits_actionBody inner parent r.1 scriptless)
  refine ((holds_actionBody hmakes parent hname scriptless).and hbody).bind fun cs hcs => ?_
  exact Returns.pure (hpush cs hcs.1 hcs.2.1 hcs.2.2)

theorem allFit_customTag (env : Env σ) (prefixName name : Bytes) (b : Binding)
    (scriptless : Bool) :
    Returns (AllFit parent) (customTag env inner prefixName name b scriptless siblings) := by
  refine Returns.skip fun c => Returns.skip fun _ => ?_
  refine (returns_kind_tagHead _ _ _ _ _ _ _).bind fun h hh => ?_
  refine (returns_kind_attributes h _).bind fun r hr => ?_
  dsimp only
  generalize hg : ({ r.1 with tag := r.1.tag.map fun t => { t with selfClosed := r.2 } } : Head) = g
  have hk : g.kind = .customTag := by
    rw [← hg]
    exact hr.trans hh
  refine Returns.ite (Returns.pure (hs.push (Head.fits_tag hk ?_ (allFit_nil g)))) ?_
  · exact fun _ _ hc => absurd hc List.not_mem_nil
  have hkinds : Returns (fun cs => bodyContentOf g = .empty →
      KindsIn (fun k => k = .namedAttribute ∨ k = .body) cs) (tagBody inner g scriptless) :=
    fun s cs t hrun hempty => kindsIn_tagBody hmakes hempty scriptless s cs t hrun
  refine ((carries_tagBody isOpenTo_allFit hinner g scriptless).and hkinds).bind fun cs hcs => ?_
  refine Returns.pure (hs.push (Head.fits_tag hk (fun hempty c hc => ?_) hcs.1))
  exact (hcs.2 hempty c hc).imp_right .inr

end Elements

/-- **The constructs of the native syntax follow the content model**: what they add to some siblings
fits the head around them. -/
theorem isCarried_allFit (env : Env σ) {included : Include σ}
    (hinc : ∀ h scriptless, Returns (AllFit h) (included h scriptless)) :
    IsCarried env included AllFit where
  toIsOpenTo := isOpenTo_allFit
  directive hs p scriptless := allFit_directive env hinc p scriptless hs
  action hinner hmakes _ _ hs scriptless := allFit_standardAction hinner hmakes hs scriptless
  tag hinner hmakes _ _ hs _ _ b scriptless :=
    allFit_customTag hinner hmakes hs env _ _ b scriptless

end Native

end Parsing

end ServerPages
