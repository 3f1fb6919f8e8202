import ServerPages.Proofs.Invocations
import ServerPages.Proofs.RepeatedChecks

/-!
# Validating a unit again

A second validation starts from the tree that the first has left. The visit of a node is taken
again step by step (`RepeatsAt`): the node is found as it was left and is left so, and the scope of
its children is the same. What is reported is the same as well, but for the children that give an
attribute in vain: what was refused for its content is then a duplicate.

## Main results

* `Validation.visit_again`: visiting a node that was visited.
* `Node.validate_validate`: a second validation leaves the tree as it is, finds as many problems,
  and finds the same ones exactly if no child gives an attribute in vain.
-/

namespace ServerPages

namespace Validation

variable {σ : Type} {env : Env σ}

/-! ### Directives and actions -/

/-- The invocations noted of the same nodes are checked alike. -/
theorem forM_finishInvocation (tag : TagInfo) {is js : List Head} (h : SameNotes is js) :
    (is.forM (finishInvocation tag) : Validate σ PUnit) = js.forM (finishInvocation tag) := by
  have hmap : ∀ ks : List Head, (ks.forM (finishInvocation tag) : Validate σ PUnit) =
      (ks.map Head.unsummed).forM (finishInvocation tag) := by
    intro ks
    induction ks with
    | nil => rfl
    | cons k ks ih => exact congrArg (finishInvocation tag k >>= fun _ => ·) ih
  rw [hmap is, hmap js, h]

theorem ignores_finishVariable (tag : TagInfo) (root : Head) (v : TagFileVariable) :
    Ignores (finishVariable tag root v : Validate σ Unit) := by
  refine .ite (.pure _) ?_
  split
  · exact ignores_report _ _ _
  · exact .ite (ignores_report _ _ _) (.pure _)

theorem ignores_finishInvocation (tag : TagInfo) (h : Head) :
    Ignores (finishInvocation tag h : Validate σ Unit) :=
  .ite (.ite (ignores_report _ _ _) (.pure _)) (.ite (.pure _) (ignores_report _ _ _))

theorem mirrors_finish {root root' : Head} (hstart : root'.start = root.start) :
    Mirrors (finish root : Validate σ Unit) (finish root') := by
  have hsame : (finish root' : Validate σ Unit) = finish root := by
    unfold finish finishVariable
    rw [hstart]
  rw [hsame]
  refine .get (fun s is his => ?_) fun s => Ignores.mirrors ?_
  · simp only [State.noting, forM_finishInvocation _ his]
  · refine .guard (ignores_report _ _ _) fun _ => ?_
    split
    · exact .pure _
    · exact (Ignores.forM (ignores_finishInvocation _) _).bind fun _ =>
        .forM (ignores_finishVariable _ root) _

theorem mirrors_checkInvocation (h : Head) (info : ChildInfo) :
    Mirrors (checkInvocation h : Validate σ Unit) (checkInvocation { h with info := info }) := by
  refine .get (fun s is _ => rfl) fun s => ?_
  refine .ite (ignores_report _ _ _).mirrors ?_
  refine .guard (ignores_report _ _ _).mirrors fun _ => ?_
  refine .guard (ignores_report _ _ _).mirrors fun _ s is his => ?_
  refine ⟨is ++ [{ h with info := info }], ?_, rfl⟩
  show (is ++ [_]).map Head.unsummed = (s.invocations ++ [h]).map Head.unsummed
  rw [List.map_append, List.map_append, his]
  rfl

theorem checkNamed_noted (h : Head) (info : ChildInfo) (sigs : List Signature) (seen : List Bytes)
    (cs : List Node) : (checkNamed { h with info := info } sigs seen cs : Validate σ Bool) =
      checkNamed h sigs seen cs := by
  induction cs generalizing seen with
  | nil => rfl
  | cons c cs ih =>
    simp only [checkNamed, ih]
    rfl

theorem checkSignature_noted (h : Head) (info : ChildInfo) (cs : List Node) :
    checkSignature env { h with info := info } cs = checkSignature env h cs := by
  unfold checkSignature
  simp only [checkNamed_noted]
  rfl

theorem directive_noted (h : Head) (info : ChildInfo) (cs : List Node) :
    directive env { h with info := info } cs = directive env h cs := by
  unfold directive
  rw [checkSignature_noted h info]
  rfl

theorem mirrors_checkNode (parent : Kind) (h : Head) (cs : List Node) (info : ChildInfo) :
    Mirrors (checkNode env parent h cs) (checkNode env parent { h with info := info } cs) := by
  unfold checkNode checkAction
  rw [directive_noted h info, checkSignature_noted h info]
  refine .ite (Ignores.pure _).mirrors (.ite (ignores_directive h cs).mirrors ?_)
  refine .bind (ignores_checkSignature h cs).mirrors fun _ => ?_
  dsimp only
  split
  case h_4 => exact (ignores_checkBean h).mirrors
  case h_6 => exact mirrors_checkInvocation h info
  case h_7 => exact mirrors_checkInvocation h info
  case h_8 => exact (Ignores.pure _).mirrors
  all_goals exact (Ignores.ite (ignores_report _ _ _) (.pure _)).mirrors

/-- A node that is neither code nor a tag is checked again, with what was noted of it and of what is
below it. -/
theorem checkNode_again (hR : env.Respects fun _ _ => True) (parent : Kind) (h : Head)
    (info : ChildInfo) {cs cs' : List Node} (hcs : cs'.map Node.lasting = cs.map Node.lasting)
    (s : State σ) :
    RepeatsAt True s (checkNode env parent h cs)
      (checkNode env parent { h with info := info } cs') () := by
  rw [← checkNode_lasting parent _ cs', hcs, checkNode_lasting]
  have hoblivious : Oblivious (fun _ _ => True) (checkNode env parent h cs) :=
    .ite (.pure _) (.ite (oblivious_directive hR h cs) (oblivious_checkAction hR parent h cs))
  exact .of_mirrors hoblivious (mirrors_checkNode parent h cs info) s

theorem attributeInfo_again (h : Head) (scope : Scope) (s : State σ) :
    RepeatsAt True s (attributeInfo h scope) (attributeInfo h scope)
      (attributeInfo h scope s).1 :=
  .of_mirrors (oblivious_attributeInfo h scope) (ignores_attributeInfo h scope).mirrors s

/-! ### Visits -/

end Validation

/-- No child of a node gives an attribute in vain. -/
def Node.GivesEffectively (binder : Binder) (n : Node) : Prop :=
  n.kind = .customTag → ∀ d, n.head.descriptor? = some d → ∀ before c after,
    n.children = before ++ c :: after →
      ¬Validation.GivesInVain binder d n.head.attributes before c after

namespace Validation

variable {σ : Type} {env : Env σ}

mutual

/-- A node is visited again, as the visit before has left it. -/
theorem visit_again (hR : env.Respects fun _ _ => True) (n : Node)
    (hn : ∀ m ∈ n.subtree, m.IsOrdinary) (parent : Kind) (scope : Scope) (s : State σ) :
    RepeatsAt (∀ m ∈ n.subtree, m.GivesEffectively env.binder) s (visit env parent scope n)
      (visit env parent scope (visit env parent scope n s).1.1)
      (visit env parent scope n s).1 := by
  match n with
  | .mk h cs =>
    obtain ⟨hself, hbelow⟩ := List.forall_mem_cons.mp hn
    have hcs := fun parent scopeOf hscope s => visitAll_again hR cs hbelow parent scopeOf hscope s
    have hother : h.kind ≠ .customTag → ((∀ m ∈ Node.subtreeAll cs,
        m.GivesEffectively env.binder) ↔
          ∀ m ∈ (Node.mk h cs).subtree, m.GivesEffectively env.binder) := fun htag =>
      ⟨fun hall => List.forall_mem_cons.mpr ⟨fun hk => absurd hk htag, hall⟩,
        fun hall => (List.forall_mem_cons.mp hall).2⟩
    have hleaf : h.kind.isLeaf = true → (True ↔
        ∀ m ∈ (Node.mk h cs).subtree, m.GivesEffectively env.binder) := by
      intro hl
      obtain rfl : cs = [] := (hself.leaf hl).1
      rw [← hother fun hk => absurd hl (by rw [hk]; decide)]
      exact iff_of_true trivial fun m hm => absurd hm List.not_mem_nil
    obtain hk | hk | hk | ⟨hcode, hel, htag⟩ := Kind.visit_cases h.kind
    · have hl : h.kind.isLeaf = true := by
        revert hk
        cases h.kind <;> simp [Kind.isScripting, Kind.isLeaf]
      have hvalue : (visit env parent scope (.mk h cs) s).1 = (.mk h cs, {}) := by
        rw [visit_code env parent scope cs hk]
        split <;> rfl
      refine RepeatsAt.congr ?_ (hleaf hl)
      have hagain := RepeatsAt.of_mirrors (oblivious_visit hR (.mk h cs) parent scope)
        (Ignores.mirrors ?_) s
      · rwa [hvalue] at hagain ⊢
      · rw [visit_code env parent scope cs hk]
        exact .guard (ignores_report _ _ _) fun _ => .pure _
    · refine RepeatsAt.congr ?_ (hleaf (congrArg Kind.isLeaf hk))
      have hvalue : (visit env parent scope (.mk h cs) s).1 =
          (.mk { h with info := emptyInfo } cs, emptyInfo) := by
        rw [visit_expression env parent scope cs hk]
        rfl
      rw [hvalue, visit_expression env parent scope cs hk]
      have hagain : visit env parent scope (.mk { h with info := emptyInfo } cs) = (do
          expression env h.el h.start
          return (.mk { h with info := emptyInfo } cs, emptyInfo)) :=
        visit_expression env parent scope cs (h := { h with info := emptyInfo }) hk
      rw [hagain]
      exact (RepeatsAt.of_mirrors (oblivious_expression hR _ _) (ignores_expression _ _).mirrors
        s).after (.pure _ _ _)
    · obtain ⟨t, d, ht, hd⟩ := hself.tag hk
      obtain ⟨as, data, vars, hg⟩ := checkTag_leaves env t d scope.nesting h cs s
      rw [visit_tag env parent scope cs hk ht hd]
      let g := (checkTag env t d scope.nesting h cs s).1
      let s₁ := (checkTag env t d scope.nesting h cs s).2
      let r := (visitAll env g.kind (childScope d scope) cs s₁).1
      let s₂ := (visitAll env g.kind (childScope d scope) cs s₁).2
      let info := ChildInfo.merge r.2 (attributeInfo g scope s₂).1
      have hgk : g.kind = .customTag := (congrArg Head.kind hg).trans hk
      obtain ⟨t', ht', hd', hagain⟩ :=
        checkTag_again hR t d scope.nesting cs hself.not_named info s
      show RepeatsAt _ s _ (visit env parent scope (.mk { g with info := info } r.1))
        (.mk { g with info := info } r.1, { info with
          hasVariables := info.hasVariables || (g.tag.any fun t => !t.vars.isEmpty) })
      rw [visit_tag (h := { g with info := info }) env parent scope r.1 hgk ht' (hd'.trans hd)]
      have hlasting := visitAll_lasting env cs hbelow g.kind (childScope d scope) s₁
      rw [← checkTag_lasting _ _ _ _ r.1, hlasting, checkTag_lasting]
      have hself : (Node.mk h cs).GivesEffectively env.binder ↔ ∀ before c after,
          cs = before ++ c :: after →
            ¬GivesInVain env.binder d h.attributes before c after := by
        have hdesc : h.descriptor? = some d := by rw [Head.descriptor?, ht, Option.bind_some, hd]
        refine ⟨fun hall => hall hk d hdesc, fun hall _ d' hd' => ?_⟩
        obtain rfl : d = d' := Option.some.inj (hdesc.symm.trans hd')
        exact hall
      have hall : (∀ m ∈ (Node.mk h cs).subtree, m.GivesEffectively env.binder) ↔
          (Node.mk h cs).GivesEffectively env.binder ∧
            ∀ m ∈ Node.subtreeAll cs, m.GivesEffectively env.binder := List.forall_mem_cons
      rw [hall, hself]
      refine hagain.bind ((hcs g.kind (childScope d scope) ?_ s₁).before ?_)
      · intro c c' hc
        have hkind : c'.kind = c.kind := (congrArg Head.kind hc :)
        have hname : c'.attributeName = c.attributeName := (congrArg Head.attributeName hc :)
        rw [childScope, childScope, hkind, hname]
      · exact (attributeInfo_again g scope s₂).after (.pure _ _ _)
    · rw [visit_open env parent scope cs hcode hel htag]
      let s₁ := (checkNode env parent h cs s).2
      let r := (visitAll env h.kind (fun _ => scope) cs s₁).1
      let s₂ := (visitAll env h.kind (fun _ => scope) cs s₁).2
      let info := actionInfo h.kind (ChildInfo.merge r.2 (attributeInfo h scope s₂).1)
      show RepeatsAt _ s _ (visit env parent scope (.mk { h with info := info } r.1))
        (.mk { h with info := info } r.1, info)
      rw [visit_open (h := { h with info := info }) env parent scope r.1 hcode hel htag]
      have hlasting := visitAll_lasting env cs hbelow h.kind (fun _ => scope) s₁
      refine RepeatsAt.congr ?_ (hother htag)
      refine (checkNode_again hR parent h info hlasting s).after ?_
      refine (hcs h.kind (fun _ => scope) (fun _ _ _ => rfl) s₁).before ?_
      exact (attributeInfo_again h scope s₂).after (.pure _ _ _)

theorem visitAll_again (hR : env.Respects fun _ _ => True) (cs : List Node)
    (hcs : ∀ m ∈ Node.subtreeAll cs, m.IsOrdinary) (parent : Kind) (scopeOf : Head → Scope)
    (hscope : ∀ h h', h'.lasting = h.lasting → scopeOf h' = scopeOf h) (s : State σ) :
    RepeatsAt (∀ m ∈ Node.subtreeAll cs, m.GivesEffectively env.binder) s
      (visitAll env parent scopeOf cs)
      (visitAll env parent scopeOf (visitAll env parent scopeOf cs s).1.1)
      (visitAll env parent scopeOf cs s).1 := by
  match cs, hcs with
  | [], _ =>
    exact (RepeatsAt.pure _ _ s).congr
      (iff_of_true trivial fun m hm => absurd hm List.not_mem_nil)
  | n :: ns, hcs =>
    obtain ⟨hc, hcs⟩ := List.forall_mem_append.mp hcs
    rw [visitAll_cons]
    let r := (visit env parent (scopeOf n.head) n s).1
    let s' := (visit env parent (scopeOf n.head) n s).2
    let r' := (visitAll env parent scopeOf ns s').1
    show RepeatsAt _ s _ (visitAll env parent scopeOf (r.1 :: r'.1))
      (r.1 :: r'.1, ChildInfo.merge r.2 r'.2)
    have hlasting : r.1.lasting = n.lasting := visit_lasting env n hc parent _ s
    have hhead : scopeOf r.1.head = scopeOf n.head := by
      refine hscope _ _ ?_
      rw [← Node.head_lasting, hlasting, Node.head_lasting]
    rw [visitAll_cons, hhead]
    have hall : (∀ m ∈ Node.subtreeAll (n :: ns), m.GivesEffectively env.binder) ↔
        (∀ m ∈ n.subtree, m.GivesEffectively env.binder) ∧
          ∀ m ∈ Node.subtreeAll ns, m.GivesEffectively env.binder := List.forall_mem_append
    rw [hall]
    refine (visit_again hR n hc parent (scopeOf n.head) s).bind ?_
    exact (visitAll_again hR ns hcs parent scopeOf hscope s').before (.pure _ _ _)

end

/-! ### Units -/

theorem visit_root (env : Env σ) (parent : Kind) (scope : Scope) {h : Head} (cs : List Node)
    (hk : h.kind = .root) : visit env parent scope (.mk h cs) = (do
      let r ← visitAll env .root (fun _ => scope) cs
      let info := ChildInfo.merge r.2 (← attributeInfo h scope)
      return (.mk { h with info := info } r.1, info)) := by
  rw [visit_open env parent scope cs (by rw [hk]; rfl) (by rw [hk]; decide) (by rw [hk]; decide),
    checkNode, if_pos (.inl hk), hk]
  rfl

theorem unit_visit (env : Env σ) (parent : Kind) (scope : Scope) {root : Node}
    (hroot : root.kind = .root) :
    Gives (fun r => r.1.head.unit = root.head.unit) (visit env parent scope root) := by
  obtain ⟨h, cs⟩ := root
  have hk : h.kind = .root := hroot
  rw [visit_root env parent scope cs hk]
  exact .skip fun r => .skip fun i => .pure rfl

/-- What directives say changes nothing in the visit of the unit. -/
theorem visit_setPage (env : Env σ) (parent : Kind) (scope : Scope) {root : Node}
    (hroot : root.kind = .root) (page : PageInfo) :
    visit env parent scope (root.setPage page) = (do
      let r ← visit env parent scope root
      return (r.1.setPage page, r.2)) := by
  obtain ⟨h, cs⟩ := root
  have hk : h.kind = .root := hroot
  rw [visit_root env parent scope cs hk]
  exact visit_root env parent scope cs (h := { h with
    unit := h.unit.map ({ · with page := some page }) }) hk

/-- A unit is validated again, with what its directives say and as the first validation has left
it. -/
theorem unitSteps_again (hR : env.Respects fun _ _ => True) {root : Node} (hroot : root.IsUnit)
    (page : PageInfo) (s : State σ) :
    let n := (unitSteps env root s).1
    RepeatsAt (∀ m ∈ root.subtree, m.GivesEffectively env.binder) s (unitSteps env root)
      (unitSteps env (n.setPage page)) (n.setPage page) := by
  intro n
  let s' := (visit env .root {} root s).2
  have hlasting : n.lasting = root.lasting :=
    visit_lasting env root hroot.isOrdinary .root {} s
  have hkind : n.kind = .root := by
    rw [← Node.kind_lasting, hlasting, Node.kind_lasting]
    exact hroot.kind
  have hstart : (n.setPage page).head.start = root.head.start := by
    rw [show (n.setPage page).head.start = n.start by cases n; rfl, ← Node.start_lasting, hlasting,
      Node.start_lasting]
    rfl
  have hfinish : RepeatsAt True s' (finish root.head) (finish (n.setPage page).head) () :=
    .of_mirrors (oblivious_finish root.head) (mirrors_finish hstart) s'
  have hstep : unitSteps env (n.setPage page) = (do
      let r ← visit env .root {} n
      finish (n.setPage page).head
      return r.1.setPage page) := by
    rw [unitSteps, visit_setPage env .root {} hkind page]
    rfl
  rw [hstep]
  exact (visit_again hR root hroot.isOrdinary .root {} s).before (hfinish.after (.pure _ _ _))

end Validation

namespace Node

open Validation

theorem setPage_setPage (n : Node) (p q : PageInfo) : (n.setPage p).setPage q = n.setPage q := by
  obtain ⟨h, cs⟩ := n
  unfold setPage
  simp only [Option.map_map]
  rfl

/-- **A second validation leaves the tree as it is.** It finds as many problems as the first, the
same ones exactly if no child of an invocation gives an attribute in vain; then it also fails alike.
What a library holds must not depend on what was asked of it before. -/
theorem validate_validate {σ : Type} {library : Option (Bytes → σ → Except Fault TagLibrary × σ)}
    (hlibrary : ∀ q, library = some q → ∀ uri m m', (q uri m).1 = (q uri m').1)
    (options : ValidationOptions) (memory memory' : σ) {root : Node} (hroot : root.IsUnit) :
    let v := root.validate library options memory
    let w := v.tree.validate library options memory'
    w.tree = v.tree ∧
      ((∀ n ∈ root.subtree, n.GivesEffectively options.binder) → w.failure = v.failure) ∧
      ∀ c, Collector.empty? options.overflow options.maxErrors = .ok c →
        (v.tree.violations library options.binder memory').length =
          (root.violations library options.binder memory).length ∧
        (v.tree.violations library options.binder memory' =
            root.violations library options.binder memory ↔
          ∀ n ∈ root.subtree, n.GivesEffectively options.binder) := by
  intro v w
  cases hc : Collector.empty? options.overflow options.maxErrors with
  | error f =>
    have hrefused : ∀ (m : σ) (n : Node), n.validate library options m = ⟨n, some f, m⟩ := by
      intro m n
      rw [validate, hc]
    refine ⟨?_, fun _ => ?_, fun c h => by cases h⟩
    · simp only [w, v, hrefused]
    · simp only [w, v, hrefused]
  | ok c =>
    have hR : Env.Respects ⟨library, options.binder⟩ fun _ _ => True :=
      fun q hq uri m m' _ => ⟨hlibrary q hq uri m' m, trivial⟩
    let steps := fun root : Node => unitSteps (σ := σ) ⟨library, options.binder⟩ root
    let empty : Collector := { policy := .noCap, capacity := 0 }
    let s := startOf empty root memory
    let n := (steps root s).1
    let page := (steps root s).2.page
    obtain ⟨ds, es, hadds, hlength, hsame, hrun⟩ := unitSteps_again hR hroot page s
    obtain ⟨m', is', -, hagain⟩ := hrun empty memory' [] rfl
    have hstart : startOf empty (n.setPage page) memory' = s.elsewhere empty memory' [] := by
      have hunit : n.head.unit = root.head.unit := unit_visit _ .root {} hroot.kind s
      unfold startOf
      rw [isTagFile_setPage, hunit]
      rfl
    have hfirst : root.violations library options.binder memory = ds := by
      rw [violations_eq, hadds]
      exact Collector.entries_foldl_add_noCap 0 ds
    have htree : v.tree = n.setPage page := by
      have hv := validate_eq library options memory root hc
      rw [validate_of_empty? library { binder := options.binder } memory root
        Collector.empty?_noCap] at hv
      exact congrArg Validated.tree hv
    have hsecond : v.tree.violations library options.binder memory' = es := by
      rw [htree, violations_eq, hstart, hagain]
      exact Collector.entries_foldl_add_noCap 0 es
    have htree' : w.tree = v.tree := by
      have hw := validate_eq library options memory' v.tree hc
      rw [validate_of_empty? library { binder := options.binder } memory' v.tree
        Collector.empty?_noCap] at hw
      have hpage : w.tree = (n.setPage page).setPage page := by
        rw [show w.tree = _ from congrArg Validated.tree hw, htree, hstart, hagain]
        rfl
      rw [hpage, htree, setPage_setPage]
    refine ⟨htree', fun hall => ?_, fun c' hc' => ?_⟩
    · have hw : w.failure = (((v.tree.violations library options.binder memory').foldl
          Collector.add c).fault?).map .fault :=
        congrArg Validated.failure (validate_eq library options memory' v.tree hc)
      have hv : v.failure = (((root.violations library options.binder memory).foldl
          Collector.add c).fault?).map .fault :=
        congrArg Validated.failure (validate_eq library options memory root hc)
      rw [hw, hv, hsecond, hfirst, hsame.mpr hall]
    · rw [hfirst, hsecond]
      exact ⟨hlength, hsame⟩

/-- Content for the attribute of one name. -/
def contentFor (name : Bytes) (content : Kind) : Node :=
  .mk { kind := .namedAttribute, attributeName := name,
        attributes := [{ name := "name", localName := "name", value := name }] }
    [.leaf { kind := content }]

/-- A tag that is given the same attribute twice, as code and as text. -/
def givenTwice : Node :=
  let d : TagDescriptor := { attributes := [{ name := "escape" }] }
  let tag : CustomTag := ⟨"t", "out", "urn:t", some d, false, 0, [], {}, {}⟩
  .mk { kind := .root } [.mk { kind := .customTag, tag := some tag }
    [contentFor "escape" .expression, contentFor "escape" .text]]

theorem isParsed_contentFor (name : Bytes) {content : Kind} (hl : content.isLeaf = true) :
    (contentFor name content).IsParsed :=
  Head.IsOpen.node ⟨⟨by simp, by simp, by simp⟩, rfl⟩ (allParsed_nil.push (.of_leaf hl rfl))

theorem givenTwice_isUnit : givenTwice.IsUnit := by
  have hcontents : AllParsed [contentFor "escape" .expression, contentFor "escape" .text] :=
    (allParsed_nil.push (isParsed_contentFor _ rfl)).push (isParsed_contentFor _ rfl)
  refine ⟨rfl, rfl, allParsed_nil.push (Head.IsOpen.node ?_ hcontents)⟩
  exact ⟨⟨by simp, by simp, fun _ => rfl⟩, rfl⟩

/-- The code is refused by the first validation for what it is, by the second one as a duplicate of
the text after it. -/
theorem validate_validate_givenTwice :
    let v := givenTwice.validate (σ := Unit) none {} ()
    (v.tree.validate (σ := Unit) none {} ()).tree = v.tree ∧
      (givenTwice.violations (σ := Unit) none Setter.byName ()).map (·.issue) =
        [.runtimeValueNotAllowed] ∧
      (v.tree.violations (σ := Unit) none Setter.byName ()).map (·.issue) =
        [.duplicateNamedAttribute] :=
  ⟨(validate_validate (fun q h => by cases h) {} () () givenTwice_isUnit).1, by decide +kernel,
    by decide +kernel⟩

end Node

end ServerPages
