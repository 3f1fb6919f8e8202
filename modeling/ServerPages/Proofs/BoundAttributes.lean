import ServerPages.Proofs.GenerationStops
import ServerPages.Proofs.TagContract

/-!
# Attributes that have setters

Generation relies on every attribute of an invocation having a setter, and breaks off where one has
none. This module shows that it never does where the setters were chosen by name: a unit that was
parsed and validated without a problem keeps the contracts of its tags, which includes that every
attribute has the setter that was chosen for it, and a setter chosen by name has a method.

## Main results

* `ParseRequest.hasNames_of_parse`: the attributes of parsed nodes have names, all different.
* `Generation.spares_bodyStops`: generation does not stop at an attribute without a setter if every
  attribute has one.
* `ParseRequest.keepsContract_of_validate`: the contracts of tags, and what generation may rely on.
-/

namespace ServerPages

/-! ### Names of parsed attributes -/

theorem Head.HasNames.of_nil {h : Head} (hattributes : h.attributes = []) : h.HasNames := by
  refine ⟨?_, ?_, ?_⟩ <;> rw [hattributes]
  · exact List.nodup_nil
  · exact fun a ha => absurd ha List.not_mem_nil
  · exact fun a ha => absurd ha List.not_mem_nil

theorem Head.HasNames.congr {h h' : Head} (hh : h.HasNames) (hs : h'.attributes = h.attributes) :
    h'.HasNames := ⟨hs ▸ hh.nodup, hs ▸ hh.ne_nil, hs ▸ hh.inline⟩

theorem Head.HasNames.append {h : Head} (hh : h.HasNames) {a : Attribute} (hname : a.name ≠ [])
    (hfresh : h.hasAttr a.name = false) (hinline : a.kind.isInline = true) :
    Head.HasNames { h with attributes := h.attributes ++ [a] } := by
  have hnone : ∀ b ∈ h.attributes, b.name ≠ a.name := by
    refine Head.attr?_eq_none_iff.mp ?_
    rwa [Head.hasAttr, Option.isSome_eq_false_iff, Option.isNone_iff_eq_none] at hfresh
  exact ⟨Attribute.nodup_names_append hh.nodup hnone,
    List.forall_mem_append.mpr ⟨hh.ne_nil, List.forall_mem_singleton.mpr hname⟩,
    List.forall_mem_append.mpr ⟨hh.inline, List.forall_mem_singleton.mpr hinline⟩⟩

/-- The shape of trees whose attributes have names, all different at each node. -/
def namedShape : TreeShape where
  isOpen := Head.HasNames
  isNode n := ∀ m ∈ n.subtree, m.head.HasNames
  directive _ _ _ := .of_nil rfl
  action _ _ _ := .of_nil rfl
  tag _ _ _ _ _ _ := .of_nil rfl
  withAttribute hh hname hfresh hinline _ :=
    (hh.append hname hfresh hinline).congr (Parsing.attributes_applyToNamed _ _)
  selfClosed hh _ := hh.congr rfl
  leaf _ ha := List.forall_mem_singleton.mpr (.of_nil ha)
  node hh _ hcs := List.forall_mem_cons.mpr ⟨hh, by
    intro m hm
    obtain ⟨c, hc, hm⟩ := Node.mem_subtreeAll.mp hm
    exact hcs c hc m hm⟩
  extend {n} hn more := by
    obtain ⟨h, cs⟩ := n
    obtain ⟨hh, hcs⟩ := List.forall_mem_cons.mp hn
    exact List.forall_mem_cons.mpr ⟨hh.congr rfl, hcs⟩

/-- The attributes of every node of a parsed tree have names, all different. -/
theorem ParseRequest.hasNames_of_parse {σ : Type} {r : ParseRequest} {host : Host σ} {memory : σ}
    {root : Node} (h : (r.parse host memory).1 = .ok root) :
    ∀ n ∈ root.subtree, n.head.HasNames := by
  obtain ⟨-, hattributes, hchildren⟩ := r.parse_returns namedShape h
  exact Node.forall_mem_subtree (.of_nil hattributes) hchildren

/-! ### Setters -/

/-- A setter that is chosen by name has a method. -/
theorem Setter.method_byName {d : TagDescriptor} {name : Bytes} {setter : Setter}
    (h : byName d name = some setter) : setter.method ≠ [] := by
  unfold byName at h
  split at h
  · obtain rfl := Option.some.inj h
    exact List.append_ne_nil_of_left_ne_nil (by decide) _
  split at h
  · obtain rfl := Option.some.inj h
    decide
  · cases h

/-- A node with a setter for every attribute, if it invokes a tag. -/
def Node.IsBound (n : Node) : Prop :=
  n.kind = .customTag → ∀ a ∈ n.head.attributes, a.setter.method ≠ []

theorem Node.HasContract.isBound {n : Node} (h : n.HasContract Setter.byName) : n.IsBound := by
  intro hk a ha
  obtain ⟨d, -, hd⟩ := h hk
  exact Setter.method_byName (hd.setter a ha)

/-- The failure of an attribute that has no setter. -/
def Failure.IsUnbound (f : Failure) : Prop := ∃ rest, f = .broken ("gen: attribute " ++ rest)

/-- The text of a failure tells by its first bytes that it is another one. -/
theorem Failure.not_isUnbound_broken {start : Bytes} (hlength : 6 ≤ start.length)
    (h : start.take 6 ≠ "gen: a") (rest : Bytes) : ¬(Failure.broken (start ++ rest)).IsUnbound := by
  rintro ⟨rest', he⟩
  have htext : start ++ rest = "gen: attribute " ++ rest' :=
    List.append_cancel_left (Failure.invariant.inj he)
  rw [← List.take_append_of_le_length hlength, htext] at h
  exact h rfl

theorem Failure.not_isUnbound_fault (f : Fault) : ¬(Failure.fault f).IsUnbound := by
  rintro ⟨rest, he⟩
  cases he

theorem Failure.not_isUnbound_crash : ¬Failure.crash.IsUnbound := by
  rintro ⟨rest, he⟩
  cases he

namespace Generation

/-! ### Where generation may stop -/

/-- Nodes of which each, and each below them, has a setter for every attribute. -/
def AllBound (ns : List Node) : Prop := ∀ m ∈ Node.subtreeAll ns, m.IsBound

theorem AllBound.children {n : Node} (h : ∀ m ∈ n.subtree, m.IsBound) : AllBound n.children := by
  intro m hm
  rw [Node.subtree_eq] at h
  exact h m (List.mem_cons_of_mem n hm)

theorem AllBound.of_mem {ns : List Node} (h : AllBound ns) {n : Node} (hn : n ∈ ns) :
    ∀ m ∈ n.subtree, m.IsBound :=
  fun m hm => h m (Node.mem_subtreeAll.mpr ⟨n, hn, hm⟩)

theorem AllBound.of_forall {ns : List Node} (h : ∀ n ∈ ns, ∀ m ∈ n.subtree, m.IsBound) :
    AllBound ns :=
  Node.forall_mem_subtreeAll h

theorem AllBound.content {n : Node} (h : ∀ m ∈ n.subtree, m.IsBound) : AllBound n.content := by
  have hchildren := AllBound.children h
  unfold Node.content Node.contentOf
  split
  · next b hb => exact .children (hchildren.of_mem (List.mem_of_find?_eq_some hb))
  · exact .of_forall fun c hc => hchildren.of_mem (List.mem_filter.mp hc).1

/-- None of the stops is at an attribute without a setter. -/
def Spares (stops : List Stop) : Prop := ∀ stop ∈ stops, ¬stop.failure.IsUnbound

section Spares

variable {xs ys : List Stop}

theorem spares_nil : Spares [] := fun _ h => absurd h List.not_mem_nil

theorem spares_singleton {f : Failure} (h : ¬f.IsUnbound) (around : List Frame) :
    Spares [⟨f, around⟩] := List.forall_mem_singleton.mpr h

theorem Spares.append (hx : Spares xs) (hy : Spares ys) : Spares (xs ++ ys) :=
  List.forall_mem_append.mpr ⟨hx, hy⟩

theorem Spares.flatMap {α : Type} {l : List α} {f : α → List Stop} (h : ∀ a ∈ l, Spares (f a)) :
    Spares (l.flatMap f) := by
  intro stop hstop
  obtain ⟨a, ha, hstop⟩ := List.mem_flatMap.mp hstop
  exact h a ha stop hstop

theorem Spares.inside (h : Spares xs) (f : Frame) : Spares (xs.map (Stop.inside f)) := by
  intro stop hstop
  obtain ⟨x, hx, rfl⟩ := List.mem_map.mp hstop
  exact h x hx

theorem Spares.ite {c : Prop} [Decidable c] (hx : Spares xs) (hy : Spares ys) :
    Spares (if c then xs else ys) := by
  split
  · exact hx
  · exact hy

end Spares

section Stops

variable {inner : BodyStops} (hinner : ∀ ns, AllBound ns → Spares (inner ns))

include hinner

theorem spares_valueStops (a : Attribute) {named : Option Node}
    (hnamed : ∀ c, named = some c → AllBound c.children) (type : Bytes) :
    Spares (valueStops inner a named type) := by
  unfold valueStops
  split
  · refine (hinner _ ?_).inside _
    unfold fragmentNodes
    split
    · next c _ => exact hnamed c rfl
    -- The other values are text, an expression or code.
    all_goals exact List.forall_mem_singleton.mpr fun hk => by cases hk
  · split
    · split
      · exact spares_nil
      · next e he =>
        refine spares_singleton ?_ _
        unfold literal at he
        cases hcode : literalCode type a.value with
        | ok code =>
          rw [hcode] at he
          cases he
        | error message =>
          rw [hcode] at he
          obtain rfl := Except.error.inj he
          exact Failure.not_isUnbound_fault _
    · next c _ => exact hinner _ (hnamed c rfl)
    · exact spares_singleton Failure.not_isUnbound_crash _
    · exact spares_singleton (Failure.not_isUnbound_broken (by decide) (by decide) _) _
    · exact spares_nil

/-! ### Tags -/

variable {n : Node} (hn : ∀ m ∈ n.subtree, m.IsBound)

include hn

theorem spares_attributeStops {a : Attribute} (ha : a.setter.method ≠ []) :
    Spares (attributeStops inner n a) := by
  unfold attributeStops
  dsimp only
  rw [if_neg (by simpa using ha)]
  refine .ite spares_nil (spares_valueStops hinner a ?_ _)
  intro c hc
  obtain ⟨i, -, hi⟩ := Option.bind_eq_some_iff.mp hc
  exact .children ((AllBound.children hn).of_mem (List.mem_of_getElem? hi))

theorem spares_invocationStops (hk : n.kind = .customTag) (d : TagDescriptor) :
    Spares (invocationStops inner d n) := by
  refine .append (.flatMap fun a ha => ?_) (.ite ((hinner _ (.content hn)).inside _) spares_nil)
  exact spares_attributeStops hinner hn (hn n n.mem_subtree_self hk a ha)

theorem spares_tagStops (hk : n.kind = .customTag) : Spares (tagStops inner n) := by
  unfold tagStops
  split
  · exact .ite ((spares_invocationStops hinner hn hk _).inside _)
      (spares_invocationStops hinner hn hk _)
  · refine spares_singleton ?_ _
    simp only [List.append_assoc]
    exact Failure.not_isUnbound_broken (by decide) (by decide) _

/-! ### Actions -/

theorem spares_actionValueStops (name type : Bytes) :
    Spares (actionValueStops inner n name type) := by
  unfold actionValueStops
  split
  · exact spares_valueStops hinner _ (fun c hc => by cases hc) type
  · next c hc =>
    exact hinner _ (.children ((AllBound.children hn).of_mem (List.mem_of_find?_eq_some hc)))
  · exact spares_nil

omit hn in
theorem spares_paramStops {ns : List Node} (hns : AllBound ns) : Spares (paramStops inner ns) := by
  refine .flatMap fun c hc => ?_
  have hc := hns.of_mem (List.mem_filter.mp hc).1
  exact (spares_actionValueStops hinner hc _ _).append (spares_actionValueStops hinner hc _ _)

theorem spares_actionStops (page : PageInfo) (hk : n.kind.name.take 4 = "jsp:") :
    Spares (actionStops page inner n) := by
  have hvalue := spares_actionValueStops hinner hn
  have hparams := spares_paramStops hinner (AllBound.children hn)
  unfold actionStops
  split
  · exact (hvalue _ _).append hparams
  · exact (hvalue _ _).append hparams
  · exact .append (.ite (hvalue _ _) spares_nil) (.ite spares_nil (hinner _ (.content hn)))
  · exact spares_nil
  · exact .ite spares_nil (.ite (hvalue _ _) spares_nil)
  · refine .append (.flatMap fun a _ => spares_valueStops hinner a (fun c hc => by cases hc) _)
      (.flatMap fun c hc => ?_)
    exact spares_paramStops hinner
      (.children ((AllBound.children hn).of_mem (List.mem_filter.mp hc).1))
  · -- The failure outside a tag file starts with the name of the kind.
    refine .ite spares_nil (spares_singleton ?_ _)
    rw [← List.take_append_drop 4 n.kind.name, hk]
    simp only [List.append_assoc]
    rw [← List.append_assoc]
    exact Failure.not_isUnbound_broken (by decide) (by decide) _

theorem spares_visitStops (page : PageInfo) : Spares (visitStops page inner n) := by
  unfold visitStops
  split
  · exact spares_singleton (Failure.not_isUnbound_broken (by decide) (by decide) _) _
  iterate 3
    · exact hinner _ (.children hn)
  · next hk => exact spares_tagStops hinner hn hk
  iterate 8
    · next hk => exact spares_actionStops hinner hn page (by rw [hk]; decide)
  · exact spares_nil

end Stops

/-- Generation does not stop at an attribute without a setter if every attribute has one. -/
theorem spares_bodyStops (page : PageInfo) (depth : Nat) {ns : List Node} (h : AllBound ns) :
    Spares (bodyStops page depth ns) := by
  induction depth generalizing ns with
  | zero => exact spares_nil
  | succ depth ih => exact .flatMap fun n hn => spares_visitStops (fun ns => ih) (h.of_mem hn) page

end Generation

namespace Node

open Generation

variable {root : Node}

theorem spares_stops (h : ∀ m ∈ root.subtree, m.IsBound) : Spares root.stops := by
  -- Numbering the nodes changes neither their kinds nor their attributes.
  have hnumbered : ∀ m ∈ (root.numbered 1).1.subtree, m.IsBound := by
    intro m hm
    obtain ⟨l, hl, hhead⟩ := head_numbered 1 root m hm
    unfold IsBound kind
    rw [hhead]
    exact h l hl
  unfold stops
  split
  · exact spares_bodyStops _ _ (.children hnumbered)
  · exact spares_singleton
      (@Failure.not_isUnbound_broken "gen: unit was not validated" (by decide) (by decide) []) _

/-- Generation does not fail for want of a setter if every attribute has one. -/
theorem not_isUnbound_of_generate (h : ∀ m ∈ root.subtree, m.IsBound) {options : Options}
    {f : Failure} (hgen : root.generate options = .error f) : ¬f.IsUnbound := by
  obtain ⟨hok, herr⟩ := root.generate_eq options
  cases hstops : root.stops with
  | nil =>
    obtain ⟨code, hcode⟩ := hok hstops
    cases hcode.symm.trans hgen
  | cons stop rest =>
    have hstop : stop ∈ root.stops := hstops ▸ List.mem_cons_self
    obtain rfl : stop.outcome.failure = f :=
      Except.error.inj ((herr stop (by rw [hstops]; rfl)).symm.trans hgen)
    by_cases hcrash : stop.Crashes
    · rw [Stop.failure_outcome_of_crashes hcrash]
      exact Failure.not_isUnbound_crash
    · rw [Stop.failure_outcome_of_not_crashes hcrash]
      exact spares_stops h stop hstop

theorem outline_setPage (n : Node) (page : PageInfo) : (n.setPage page).outline = n.outline := by
  cases n
  rfl

theorem HasContract.setPage {binder : Binder} {n : Node}
    (h : ∀ m ∈ n.subtree, m.HasContract binder) (page : PageInfo) :
    ∀ m ∈ (n.setPage page).subtree, m.HasContract binder := by
  obtain ⟨hd, cs⟩ := n
  obtain ⟨hself, hbelow⟩ := List.forall_mem_cons.mp h
  refine List.forall_mem_cons.mpr ⟨fun hk => ?_, hbelow⟩
  obtain ⟨d, hdescriptor, hkeeps⟩ := hself hk
  exact ⟨d, hdescriptor, hkeeps.congr rfl rfl⟩

/-- What outlines keep of heads is the same for the nodes of trees with the same outline. -/
theorem map_subtree_of_outline {α : Type} {f : Head → α} (hf : ∀ h : Head, f h.outline = f h)
    {n m : Node} (h : n.outline = m.outline) :
    n.subtree.map (f ·.head) = m.subtree.map (f ·.head) := by
  have houtline : ∀ l : Node,
      l.outline.subtree.map (f ·.head) = l.subtree.map (f ·.head) := by
    intro l
    rw [outline, subtree_mapHeads, List.map_map]
    exact List.map_congr_left fun k _ => (congrArg f (head_mapHeads _ k)).trans (hf k.head)
  rw [← houtline n, h, houtline m]

/-- The nodes of trees with the same outline invoke the same tags. -/
theorem descriptors_of_outline {n m : Node} (h : n.outline = m.outline) :
    n.subtree.map (·.head.descriptor?) = m.subtree.map (·.head.descriptor?) :=
  map_subtree_of_outline Head.descriptor?_outline h

end Node

/-- **Validation enforces the contracts of tags.** If a parsed unit, whose tags declare no attribute
without a name, is validated, no problem being dropped, and none is reported, then its nodes invoke
the tags that they invoked before, and every invocation keeps the contract of its tag. If setters
are chosen by name, generation does not break off for want of one: none of the places at which it
may stop is an attribute without a setter, and it never fails as it would there. -/
theorem ParseRequest.keepsContract_of_validate {σ τ : Type} {r : ParseRequest} {host : Host σ}
    {memory : σ} {root : Node} (hparse : (r.parse host memory).1 = .ok root)
    (hnames : ∀ n ∈ root.subtree, n.head.DeclaresNames)
    (library : Option (Bytes → τ → Except Fault TagLibrary × τ)) (options : ValidationOptions)
    (hoverflow : options.overflow = .noCap) (s : τ)
    (hvalid : (root.validate library options s).failure = none) :
    let tree := (root.validate library options s).tree
    tree.subtree.map (·.head.descriptor?) = root.subtree.map (·.head.descriptor?) ∧
    (∀ n ∈ tree.subtree, n.kind = .customTag → ∃ d, n.head.descriptor? = some d ∧
      KeepsContract options.binder d n.head n.children) ∧
    (options.binder = Setter.byName →
      (∀ stop ∈ tree.stops, ¬stop.failure.IsUnbound) ∧
      ∀ generation f, tree.generate generation = .error f → ¬f.IsUnbound) := by
  intro tree
  have hready : ∀ n ∈ root.subtree, n.head.HasNames ∧ n.head.DeclaresNames := fun n hn =>
    ⟨r.hasNames_of_parse hparse n hn, hnames n hn⟩
  obtain ⟨n, page, ⟨houtline, hcontracts⟩, htree⟩ :=
    Node.of_validate_noCap library options s hoverflow hvalid
      (P := fun n => n.outline = root.outline ∧ ∀ m ∈ n.subtree, m.HasContract options.binder)
      (Validation.visit_unit_contracts ⟨library, options.binder⟩
        (ParseRequest.parse_isUnit hparse) hready)
  have htree : tree = n.setPage page := htree
  have hcontracts : ∀ m ∈ tree.subtree, m.HasContract options.binder := by
    rw [htree]
    exact Node.HasContract.setPage hcontracts page
  refine ⟨?_, hcontracts, fun hbinder => ?_⟩
  · refine Node.descriptors_of_outline (Eq.trans ?_ houtline)
    rw [htree, Node.outline_setPage]
  · have hbound : ∀ m ∈ tree.subtree, m.IsBound := fun m hm => (hbinder ▸ hcontracts m hm).isBound
    exact ⟨Node.spares_stops hbound, fun _ _ hgen => Node.not_isUnbound_of_generate hbound hgen⟩

/-- A library of one tag, which needs one attribute and takes another one whose value may be known
only when the page runs. -/
def pairLibrary : TagLibrary where
  uri := "urn:t"
  tags := [("x", {
    name := "x",
    attributes := [{ name := "a", required := true }, { name := "b", dynamic := true }] })]

/-- A tag with one attribute given inline and one given as content, which is a tag again. -/
def pairPage : ParseRequest where
  path := "/a.jsp"
  text := "<%@taglib prefix=\"t\" uri=\"urn:t\"%><t:x a=\"1\"><jsp:attribute name=\"b\">" ++
    "<t:x a=\"2\"/></jsp:attribute></t:x>"

/-- Surroundings that know the library. -/
def pairHost : Host Unit where
  library := some fun _ m => (.ok pairLibrary, m)

theorem keepsContract_of_validate_pairPage : ∃ root, (pairPage.parse pairHost ()).1 = .ok root ∧
    (∀ n ∈ root.subtree, n.head.DeclaresNames) ∧
    (root.validate (σ := Unit) none {} ()).failure = none ∧
    ∃ n ∈ (root.validate (σ := Unit) none {} ()).tree.subtree, n.kind = .customTag ∧
      n.head.attributes.map (·.kind) = [.literal, .named] ∧
      n.head.attributes.any (·.isRuntimeAmong n.children) = true ∧
      ∃ d, n.head.descriptor? = some d ∧ KeepsContract Setter.byName d n.head n.children := by
  have hsome : (pairPage.parse pairHost ()).1.toOption.any (fun root =>
      root.subtree.all (fun n => n.head.descriptor?.all fun d =>
        d.attributes.all fun sig => sig.name != []) &&
      (root.validate (σ := Unit) none {} ()).failure.isNone &&
      (root.validate (σ := Unit) none {} ()).tree.subtree.any fun n =>
        n.kind == .customTag && n.head.attributes.map (·.kind) == [.literal, .named] &&
        n.head.attributes.any (·.isRuntimeAmong n.children)) = true := by decide +kernel
  obtain ⟨root, hparse, htest⟩ := exists_ok_of_any hsome
  simp only [Bool.and_eq_true, List.all_eq_true, List.any_eq_true, Option.isNone_iff_eq_none,
    Option.all_eq_true, beq_iff_eq, bne_iff_ne] at htest
  obtain ⟨⟨hnames, hvalid⟩, n, hn, ⟨hkind, hkinds⟩, hruntime⟩ := htest
  obtain ⟨-, hcontracts, -⟩ :=
    ParseRequest.keepsContract_of_validate hparse hnames none {} rfl () hvalid
  exact ⟨root, hparse, hnames, hvalid, n, hn, hkind, hkinds, List.any_eq_true.mpr hruntime,
    hcontracts n hn hkind⟩

end ServerPages
