import ServerPages.Generation.Tag
import ServerPages.Proofs.Invocations
import ServerPages.Proofs.ProblemLedger
import ServerPages.Proofs.Scriptless
import ServerPages.Proofs.VisitSteps

/-!
# What the summary of a subtree tells

Validation notes at every node what its subtree holds. The summary is put together on the way up:
that of a node is what its children hold, merged with what it adds itself (`Head.own`). As merging
is associative, it is in the end the summary of all nodes of the subtree, each taken by itself
(`Node.summary`). Only what a tag notes at itself leaves out its own scripting variables: they are
declared around the tag and not in its body.

A tag is written as a method of its own if its summary allows it. So what is in its subtree decides
this, whatever validation reports.

## Main results

* `Validation.visit_summary`: what the visit of a node tells is the summary of the node it gives.
* `Node.isHoistable_validate_iff`: a tag becomes a method of its own exactly if nothing in its
  subtree needs the function around it.
-/

namespace ServerPages

/-! ### Summaries -/

namespace Head

/-- Whether a node, its children apart, holds code of the page: it is code, or an attribute is given
as code. -/
def holdsCode (h : Head) : Bool := h.kind.isScripting || h.attributes.any (·.kind == .script)

/-- Whether a node is an invocation of a tag with scripting variables. -/
def holdsVariables (h : Head) : Bool :=
  h.kind == .customTag && h.tag.any fun t => !t.vars.isEmpty

theorem holdsCode_eq_false_iff {h : Head} : h.holdsCode = false ↔
    h.kind.isScripting = false ∧ ∀ a ∈ h.attributes, a.kind ≠ .script := by
  simp [holdsCode]

theorem holdsVariables_eq_false_iff {h : Head} : h.holdsVariables = false ↔
    (h.kind = .customTag → ∀ t, h.tag = some t → t.vars = []) := by
  cases ht : h.tag <;> simp [holdsVariables, ht]

/-- What a node adds to the summary of every subtree that it is in. -/
def own (h : Head) : ChildInfo where
  scriptless := !h.holdsCode
  hasVariables := h.holdsVariables
  hasBean := h.kind == .useBean
  hasInclude := h.kind == .includeAction || h.kind == .forwardAction
  hasSetProperty := h.kind == .setProperty

end Head

namespace Validation

theorem ChildInfo.merge_assoc (a b c : ChildInfo) :
    merge (merge a b) c = merge a (merge b c) := by
  simp [merge, Bool.and_assoc, Bool.or_assoc]

@[simp] theorem emptyInfo_merge (a : ChildInfo) : ChildInfo.merge emptyInfo a = a := by
  simp [ChildInfo.merge, emptyInfo]

@[simp] theorem merge_emptyInfo (a : ChildInfo) : ChildInfo.merge a emptyInfo = a := by
  simp [ChildInfo.merge, emptyInfo]

end Validation

namespace Node

open Validation

/-- The summary of some nodes, each taken by itself. -/
def summaryOf (ns : List Node) : ChildInfo :=
  ns.foldr (fun n info => ChildInfo.merge n.head.own info) emptyInfo

/-- The summary of a subtree. -/
def summary (n : Node) : ChildInfo := summaryOf n.subtree

@[simp] theorem summaryOf_nil : summaryOf [] = emptyInfo := rfl

@[simp] theorem summaryOf_cons (n : Node) (ns : List Node) :
    summaryOf (n :: ns) = ChildInfo.merge n.head.own (summaryOf ns) := rfl

theorem summaryOf_append (ms ns : List Node) :
    summaryOf (ms ++ ns) = ChildInfo.merge (summaryOf ms) (summaryOf ns) := by
  induction ms with
  | nil => rw [List.nil_append, summaryOf_nil, emptyInfo_merge]
  | cons m ms ih => rw [List.cons_append, summaryOf_cons, summaryOf_cons, ih, ChildInfo.merge_assoc]

/-- The summary of a node: what it adds itself, and what its children hold. -/
theorem summary_mk (h : Head) (cs : List Node) :
    (mk h cs).summary = ChildInfo.merge h.own (summaryOf (subtreeAll cs)) := rfl

/-- Nothing that a summary forbids is in any of the nodes. -/
theorem summaryOf_isPlain_iff (ns : List Node) :
    ((summaryOf ns).scriptless && !(summaryOf ns).hasVariables && !(summaryOf ns).hasBean) = true ↔
      ∀ m ∈ ns, m.head.holdsCode = false ∧ m.kind ≠ .useBean ∧ m.head.holdsVariables = false := by
  induction ns with
  | nil => simp [summaryOf, emptyInfo]
  | cons n ns ih =>
    rw [List.forall_mem_cons, ← ih]
    simp [ChildInfo.merge, Head.own, kind]
    tauto

/-- A node at which validation noted what its subtree holds; of a tag, without the scripting
variables of its own. -/
def IsSummed (n : Node) : Prop :=
  n.kind = .customTag → ∃ t, n.head.tag = some t ∧
    { n.head.info with hasVariables := n.head.info.hasVariables || !t.vars.isEmpty } = n.summary

/-- What a tag at which the summary of its subtree was noted becomes. -/
theorem IsSummed.isHoistable_iff {n : Node} (h : n.IsSummed) (hk : n.kind = .customTag) :
    ∃ t, n.head.tag = some t ∧ (Generation.isHoistable n.head t = true ↔
      ∀ m ∈ n.subtree,
        m.head.holdsCode = false ∧ m.kind ≠ .useBean ∧ m.head.holdsVariables = false) := by
  obtain ⟨t, ht, hsum⟩ := h hk
  refine ⟨t, ht, ?_⟩
  rw [← summaryOf_isPlain_iff, ← summary, ← hsum, Generation.isHoistable]
  simp only [Bool.not_or, Bool.not_not, Bool.and_eq_true]
  tauto

theorem IsSummed.setPage {n : Node} (h : ∀ m ∈ n.subtree, m.IsSummed) (page : PageInfo) :
    ∀ m ∈ (n.setPage page).subtree, m.IsSummed := by
  obtain ⟨hd, cs⟩ := n
  obtain ⟨hself, hbelow⟩ := List.forall_mem_cons.mp h
  exact List.forall_mem_cons.mpr ⟨hself, hbelow⟩

end Node

/-! ### Visiting a node -/

namespace Validation

variable {σ : Type}

/-- What a visit gives: a node in which every subtree was summed up, and its summary. -/
def IsSummary (r : Node × ChildInfo) : Prop :=
  r.2 = r.1.summary ∧ ∀ m ∈ r.1.subtree, m.IsSummed

/-- What the visits of some nodes give together. -/
def IsSummaryAll (r : List Node × ChildInfo) : Prop :=
  r.2 = Node.summaryOf (Node.subtreeAll r.1) ∧ ∀ m ∈ Node.subtreeAll r.1, m.IsSummed

/-- A leaf, which adds whether it is code and nothing else. -/
theorem isSummary_leaf {h : Head} {info noted : ChildInfo} (hl : h.kind.isLeaf = true)
    (hattrs : h.attributes = []) (hinfo : info = { scriptless := !h.kind.isScripting }) :
    IsSummary (.mk { h with info := noted } [], info) := by
  have hk : h.kind ≠ .customTag := fun hc => absurd hl (by rw [hc]; decide)
  have hown : h.own = { scriptless := !h.kind.isScripting } := by
    unfold Head.own Head.holdsCode Head.holdsVariables
    rw [hattrs, List.any_nil, Bool.or_false]
    revert hl
    cases h.kind <;> intro hl <;> first | rfl | cases hl
  refine ⟨?_, List.forall_mem_singleton.mpr fun hc => absurd hc hk⟩
  rw [hinfo, ← hown]
  exact (merge_emptyInfo h.own).symm

theorem gives_attributeInfo (h : Head) (scope : Scope) :
    Gives (· = { scriptless := !h.attributes.any (·.kind == .script) })
      (attributeInfo h scope : Validate σ ChildInfo) := by
  have hempty : (h.attributes.filter (·.kind == .script)).isEmpty =
      !h.attributes.any (·.kind == .script) := by
    rw [Bool.eq_iff_iff]
    simp
  exact .skip fun _ => .pure (by rw [hempty])

/-- What a node that is neither code nor a tag adds: its attributes, and what its action is. -/
theorem own_of_action {h : Head} (hcode : h.kind.isScripting = false) (hk : h.kind ≠ .customTag) :
    h.own = actionInfo h.kind { scriptless := !h.attributes.any (·.kind == .script) } := by
  unfold Head.own Head.holdsCode Head.holdsVariables
  rw [hcode, beq_eq_false_iff_ne.mpr hk]
  cases h.kind <;> rfl

theorem actionInfo_merge (kind : Kind) (a b : ChildInfo) :
    actionInfo kind (ChildInfo.merge a b) = ChildInfo.merge (actionInfo kind b) a := by
  cases kind <;> simp [actionInfo, ChildInfo.merge, Bool.and_comm, Bool.or_comm]

/-- A node that is neither code nor a tag, above the children that were visited. -/
theorem IsSummaryAll.action {r : List Node × ChildInfo} (hr : IsSummaryAll r) {h : Head}
    (hcode : h.kind.isScripting = false) (hk : h.kind ≠ .customTag) {attrs info noted : ChildInfo}
    (hattrs : attrs = { scriptless := !h.attributes.any (·.kind == .script) })
    (hinfo : info = actionInfo h.kind (ChildInfo.merge r.2 attrs)) :
    IsSummary (.mk { h with info := noted } r.1, info) := by
  refine ⟨?_, List.forall_mem_cons.mpr ⟨fun hc => absurd hc hk, hr.2⟩⟩
  rw [hinfo, actionInfo_merge, hattrs, ← own_of_action hcode hk, hr.1]
  rfl

/-- A tag above the children that were visited. -/
theorem IsSummaryAll.tag {r : List Node × ChildInfo} (hr : IsSummaryAll r) {h : Head}
    (hk : h.kind = .customTag) {t : CustomTag} (ht : h.tag = some t) {attrs : ChildInfo}
    (hattrs : attrs = { scriptless := !h.attributes.any (·.kind == .script) }) :
    let info := ChildInfo.merge r.2 attrs
    IsSummary (.mk { h with info := info } r.1,
      { info with
        hasVariables := info.hasVariables || (h.tag.any fun t => !t.vars.isEmpty) }) := by
  intro info
  have hsum : { info with
      hasVariables := info.hasVariables || (h.tag.any fun t => !t.vars.isEmpty) } =
        (Node.mk { h with info := info } r.1).summary := by
    rw [Node.summary_mk, ← hr.1]
    simp [info, ChildInfo.merge, Head.own, Head.holdsCode, Head.holdsVariables, hattrs, hk,
      Kind.isScripting, Bool.and_comm, Bool.or_comm]
  refine ⟨hsum, List.forall_mem_cons.mpr ⟨fun _ => ⟨t, ht, ?_⟩, hr.2⟩⟩
  rw [← hsum, ht]
  rfl

mutual

/-- What the visit of a node tells is the summary of the node it gives, and every tag below was
summed up. -/
theorem visit_summary (env : Env σ) (n : Node) (hn : ∀ m ∈ n.subtree, m.IsOrdinary) (parent : Kind)
    (scope : Scope) : Gives IsSummary (visit env parent scope n) := by
  match n with
  | .mk h cs =>
    obtain ⟨hself, hbelow⟩ := List.forall_mem_cons.mp hn
    have hcs := fun parent scopeOf => visitAll_summary env cs hbelow parent scopeOf
    obtain hk | hk | hk | ⟨hcode, hel, htag⟩ := Kind.visit_cases h.kind
    · have hl : h.kind.isLeaf = true := by
        revert hk
        cases h.kind <;> simp [Kind.isScripting, Kind.isLeaf]
      obtain ⟨rfl, hattrs⟩ : cs = [] ∧ h.attributes = [] := hself.leaf hl
      have hleaf : IsSummary (.mk h [], {}) := isSummary_leaf hl hattrs (by rw [hk]; rfl)
      rw [visit_code env parent scope [] hk]
      exact .ite (.skip fun _ => .pure hleaf) (.pure hleaf)
    · have hl : h.kind.isLeaf = true := congrArg Kind.isLeaf hk
      obtain ⟨rfl, hattrs⟩ : cs = [] ∧ h.attributes = [] := hself.leaf hl
      rw [visit_expression env parent scope [] hk]
      exact .skip fun _ => .pure (isSummary_leaf hl hattrs (by rw [hk]; rfl))
    · obtain ⟨t, d, ht, hd⟩ := hself.tag hk
      rw [visit_tag env parent scope cs hk ht hd]
      refine ((prepares_checkTag env t d scope.nesting h cs hself.not_named).and
        (gives_checkTag env t d scope.nesting h cs)).bind fun h' hh => ?_
      obtain ⟨t', ht', -⟩ := Option.map_eq_some_iff.mp hh.2
      refine (hcs _ _).bind fun r hr => (gives_attributeInfo h' scope).bind fun i hi => .pure ?_
      exact hr.tag (hh.1.1.trans hk) ht' hi
    · rw [visit_open env parent scope cs hcode hel htag]
      refine .skip fun _ => (hcs _ _).bind fun r hr =>
        (gives_attributeInfo h scope).bind fun i hi => .pure ?_
      exact hr.action hcode htag hi rfl

theorem visitAll_summary (env : Env σ) (cs : List Node)
    (hcs : ∀ m ∈ Node.subtreeAll cs, m.IsOrdinary) (parent : Kind) (scopeOf : Head → Scope) :
    Gives IsSummaryAll (visitAll env parent scopeOf cs) := by
  match cs, hcs with
  | [], _ => exact .pure ⟨rfl, fun m hm => absurd hm List.not_mem_nil⟩
  | .mk h ds :: cs, hcs =>
    obtain ⟨hc, hcs⟩ := List.forall_mem_append.mp hcs
    unfold visitAll
    refine (visit_summary env (.mk h ds) hc parent _).bind fun r hr => ?_
    refine (visitAll_summary env cs hcs parent scopeOf).bind fun r' hr' => .pure ⟨?_, ?_⟩
    · rw [hr.1, hr'.1]
      exact (Node.summaryOf_append _ _).symm
    · exact List.forall_mem_append.mpr ⟨hr.2, hr'.2⟩

end

end Validation

/-! ### Validated units -/

namespace Node

/-- **What is in the subtree of a tag decides whether it becomes a method of its own.** In a tree as
parsing builds it that was validated, with any libraries, any binder and whatever problems, a tag
becomes a method of its own exactly if no node of its subtree, the tag included, is code, has an
attribute given as code, declares a bean or invokes a tag with scripting variables. A validation
whose number of problems to keep is refused visits no node. -/
theorem isHoistable_validate_iff {σ : Type}
    (library : Option (Bytes → σ → Except Fault TagLibrary × σ)) (options : ValidationOptions)
    (memory : σ) {root : Node} (hroot : root.IsUnit) :
    (∀ f, Collector.empty? options.overflow options.maxErrors = .error f →
      root.validate library options memory = ⟨root, some f, memory⟩) ∧
    (∀ c, Collector.empty? options.overflow options.maxErrors = .ok c →
      ∀ n ∈ (root.validate library options memory).tree.subtree, n.kind = .customTag →
        ∃ t, n.head.tag = some t ∧
          (Generation.isHoistable n.head t = true ↔
            ∀ m ∈ n.subtree, m.kind.isScripting = false ∧
              (∀ a ∈ m.head.attributes, a.kind ≠ .script) ∧ m.kind ≠ .useBean ∧
              (m.kind = .customTag → ∀ t, m.head.tag = some t → t.vars = []))) := by
  refine ⟨fun f hf => by rw [validate, hf], fun c hc n hn hk => ?_⟩
  rw [validate_of_empty? library options memory root hc] at hn
  have hvisit := Validation.visit_summary ⟨library, options.binder⟩ root hroot.isOrdinary .root {}
    (Validation.startOf c root memory)
  have hsummed : n.IsSummed := IsSummed.setPage hvisit.2 _ n hn
  obtain ⟨t, ht, hiff⟩ := hsummed.isHoistable_iff hk
  refine ⟨t, ht, hiff.trans (forall₂_congr fun m _ => ?_)⟩
  rw [Head.holdsCode_eq_false_iff, Head.holdsVariables_eq_false_iff, and_assoc]
  rfl

/-- A tag whose body holds text and a tag around a bean, and a tag whose body is text. -/
def beanInside : Node :=
  .mk { kind := .root }
    [tagAround .page [.leaf { kind := .text }, tagAround .page [.leaf { kind := .useBean }]],
      tagAround .page [.leaf { kind := .text }]]

theorem beanInside_isUnit : beanInside.IsUnit := by
  have htext : AllParsed [.leaf { kind := .text }] := allParsed_nil.push (.of_leaf rfl rfl)
  have hbean : (Node.leaf { kind := .useBean }).IsParsed :=
    (Head.IsOpen.of_kind ⟨by decide, by decide⟩ rfl rfl).node allParsed_nil
  have hinner := isParsed_tagAround .page (allParsed_nil.push hbean)
  refine ⟨rfl, rfl, (allParsed_nil.push ?_).push (isParsed_tagAround _ htext)⟩
  exact isParsed_tagAround _ (htext.push hinner)

theorem isHoistable_validate_beanInside :
    let tree := (beanInside.validate (σ := Unit) none {} ()).tree
    (∀ n ∈ tree.subtree, n.kind = .customTag → ∃ t, n.head.tag = some t ∧
      (Generation.isHoistable n.head t = true ↔
        ∀ m ∈ n.subtree, m.kind.isScripting = false ∧
          (∀ a ∈ m.head.attributes, a.kind ≠ .script) ∧ m.kind ≠ .useBean ∧
          (m.kind = .customTag → ∀ t, m.head.tag = some t → t.vars = []))) ∧
    tree.subtree.map (fun n => n.head.tag.any (Generation.isHoistable n.head)) =
      [false, false, false, false, false, true, false] :=
  ⟨(isHoistable_validate_iff none {} () beanInside_isUnit).2 _ rfl, by decide +kernel⟩

end Node

end ServerPages
