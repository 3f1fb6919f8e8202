import ServerPages.Proofs.AnnotatedLines
import ServerPages.Proofs.BoundAttributes
import ServerPages.Proofs.FileTexts
import ServerPages.Proofs.LinkedVisits
import ServerPages.Proofs.ProblemLedger
import ServerPages.Proofs.VisitSteps

/-!
# Links in the file of a unit

Which attributes of an invocation take fragments is noted when its attributes are bound, and only
attributes of tags are. So a parsed and validated tree is tidy: only tags take fragments, and what
gives an attribute of a tag as content is a named attribute.

The file of a unit ends in the code that was written for its nodes: the content of the render
method, the methods that were written elsewhere and the cases of the fragments. A record of the run
is one of the file if it is this code (`Linked.Records`), so what holds of the record is a fact
about the file.

## Main results

* `ParseRequest.isPlain_of_parse`: no attribute of a parsed tree takes a fragment.
* `ParseRequest.isTidy_of_validate`: the tree of a validated unit is tidy.
* `ParseRequest.generate_dispatches`: every fragment that is passed has the case with its number, in
  which its own code stands, and there are no other cases.
* `ParseRequest.generate_parents`: every tag is given the handler of the tag around it.
-/

namespace ServerPages

/-! ### Heads without fragments -/

/-- None of the attributes takes a fragment. -/
def Head.IsPlain (h : Head) : Prop := ∀ a ∈ h.attributes, a.fragment = false

theorem Head.IsPlain.of_nil {h : Head} (hattributes : h.attributes = []) : h.IsPlain := by
  unfold IsPlain
  rw [hattributes]
  exact fun a ha => absurd ha List.not_mem_nil

theorem Head.IsPlain.congr {h h' : Head} (hh : h.IsPlain) (hs : h'.attributes = h.attributes) :
    h'.IsPlain := fun a ha => hh a (hs ▸ ha)

/-! ### Parsed trees -/

/-- The shape of trees in which no attribute takes a fragment. -/
def plainShape : TreeShape where
  isOpen := Head.IsPlain
  isNode n := ∀ m ∈ n.subtree, m.head.IsPlain
  directive _ _ _ := .of_nil rfl
  action _ _ _ := .of_nil rfl
  tag _ _ _ _ _ _ := .of_nil rfl
  withAttribute {h a} hh _ _ _ hfragment := by
    have happend : Head.IsPlain { h with attributes := h.attributes ++ [a] } :=
      List.forall_mem_append.mpr ⟨hh, List.forall_mem_singleton.mpr hfragment⟩
    exact happend.congr (Parsing.attributes_applyToNamed _ _)
  selfClosed hh _ := hh.congr rfl
  leaf _ ha := List.forall_mem_singleton.mpr (.of_nil ha)
  node hh _ hcs := List.forall_mem_cons.mpr ⟨hh, by
    intro m hm
    obtain ⟨c, hc, hm⟩ := Node.mem_subtreeAll.mp hm
    exact hcs c hc m hm⟩
  extend {n} hn more := by
    obtain ⟨h, cs⟩ := n
    obtain ⟨hh, hcs⟩ := List.forall_mem_cons.mp hn
    exact List.forall_mem_cons.mpr ⟨hh.congr rfl, hcs⟩

/-- No attribute of a parsed tree takes a fragment. -/
theorem ParseRequest.isPlain_of_parse {σ : Type} {r : ParseRequest} {host : Host σ} {memory : σ}
    {root : Node} (h : (r.parse host memory).1 = .ok root) :
    ∀ n ∈ root.subtree, n.head.IsPlain := by
  obtain ⟨-, hattributes, hchildren⟩ := r.parse_returns plainShape h
  exact Node.forall_mem_subtree (.of_nil hattributes) hchildren

/-! ### Validation -/

/-- A node takes fragments only if it invokes a tag. -/
def Node.IsPlain (n : Node) : Prop := n.kind ≠ .customTag → n.head.IsPlain

namespace Validation

variable {σ : Type}

mutual

/-- The visit of a tree in which no attribute takes a fragment binds attributes of tags only. -/
theorem gives_isPlain (env : Env σ) (n : Node) (hn : ∀ m ∈ n.subtree, m.IsOrdinary)
    (hplain : ∀ m ∈ n.subtree, m.head.IsPlain) (parent : Kind) (scope : Scope) :
    Gives (fun r => ∀ m ∈ r.1.subtree, m.IsPlain) (visit env parent scope n) := by
  match n with
  | .mk h cs =>
    obtain ⟨hself, hbelow⟩ := List.forall_mem_cons.mp hn
    obtain ⟨hhead, hplain⟩ := List.forall_mem_cons.mp hplain
    have hcs := fun parent scopeOf => givesAll_isPlain env cs hbelow hplain parent scopeOf
    -- A node that is left as it was, with its children.
    have hkept : ∀ h' : Head, h'.attributes = h.attributes →
        ∀ m ∈ (Node.mk h' cs).subtree, m.IsPlain := fun h' hs =>
      List.forall_mem_cons.mpr ⟨fun _ => hhead.congr hs, fun m hm _ => hplain m hm⟩
    obtain hk | hk | hk | ⟨hcode, hel, htag⟩ := Kind.visit_cases h.kind
    · rw [visit_code env parent scope cs hk]
      exact .ite (.skip fun _ => .pure (hkept h rfl)) (.pure (hkept h rfl))
    · rw [visit_expression env parent scope cs hk]
      exact .skip fun _ => .pure (hkept _ rfl)
    · obtain ⟨t, d, ht, hd⟩ := hself.tag hk
      rw [visit_tag env parent scope cs hk ht hd]
      refine (checkTag_leaves env t d scope.nesting h cs).bind fun h' hh => ?_
      refine (hcs _ _).bind fun r hr => .skip fun i => .pure ?_
      obtain ⟨as, data, vars, rfl⟩ := hh
      exact List.forall_mem_cons.mpr ⟨fun hne => absurd hk hne, hr⟩
    · rw [visit_open env parent scope cs hcode hel htag]
      refine .skip fun _ => (hcs _ _).bind fun r hr => .skip fun i => .pure ?_
      exact List.forall_mem_cons.mpr ⟨fun _ => hhead.congr rfl, hr⟩

theorem givesAll_isPlain (env : Env σ) (cs : List Node)
    (hcs : ∀ m ∈ Node.subtreeAll cs, m.IsOrdinary)
    (hplain : ∀ m ∈ Node.subtreeAll cs, m.head.IsPlain) (parent : Kind) (scopeOf : Head → Scope) :
    Gives (fun r => ∀ m ∈ Node.subtreeAll r.1, m.IsPlain) (visitAll env parent scopeOf cs) := by
  match cs, hcs, hplain with
  | [], _, _ => exact .pure fun m hm => absurd hm List.not_mem_nil
  | .mk h ds :: cs, hcs, hplain =>
    obtain ⟨hc, hcs⟩ := List.forall_mem_append.mp hcs
    obtain ⟨hp, hplain⟩ := List.forall_mem_append.mp hplain
    unfold visitAll
    refine (gives_isPlain env (.mk h ds) hc hp parent _).bind fun r hr => ?_
    refine (givesAll_isPlain env cs hcs hplain parent scopeOf).bind fun r' hr' => .pure ?_
    exact List.forall_mem_append.mpr ⟨hr, hr'⟩

end

end Validation

/-! ### Validated trees -/

namespace Node

theorem IsPrepared.of_mem_subtree {level : Nat} {n : Node} (h : n.IsPrepared level) :
    ∀ m ∈ n.subtree, ∃ l, m.IsPrepared l := by
  induction h with
  | mk names nesting children ih =>
    exact Node.forall_mem_subtree ⟨_, names, nesting, children⟩ ih

/-- What gives an attribute as content is a named attribute. -/
theorem IsPrepared.kind_given {level : Nat} {n : Node} (h : n.IsPrepared level) {a : Attribute}
    (ha : a ∈ n.head.attributes) (hk : a.kind = .named) {m : Node} (hm : n.given a = some m) :
    m.kind = .namedAttribute := by
  obtain ⟨i, hi, hkind⟩ : ∃ i, a.child = some i ∧
      (n.children.map (·.kind))[i]? = some .namedAttribute := by
    obtain ⟨names, -, -⟩ := h
    exact names.given a ha hk
  rw [given, hi, Option.bind_some] at hm
  rw [List.getElem?_map, hm] at hkind
  exact Option.some.inj hkind

end Node

theorem Node.IsPlain.setPage {n : Node} (h : ∀ m ∈ n.subtree, m.IsPlain) (page : PageInfo) :
    ∀ m ∈ (n.setPage page).subtree, m.IsPlain := by
  obtain ⟨hd, cs⟩ := n
  obtain ⟨hself, hbelow⟩ := List.forall_mem_cons.mp h
  exact List.forall_mem_cons.mpr ⟨hself, hbelow⟩

/-- **The tree of a validated unit is tidy.** -/
theorem ParseRequest.isTidy_of_validate {σ τ : Type} {r : ParseRequest} {host : Host σ}
    {memory : σ} {root : Node} (hparse : (r.parse host memory).1 = .ok root)
    (library : Option (Bytes → τ → Except Fault TagLibrary × τ)) (options : ValidationOptions)
    (s : τ) (hvalid : (root.validate library options s).failure = none) (env : Generation.Env) :
    Generation.Site.IsTidy ⟨env, ((root.validate library options s).tree.numbered 1).1⟩ := by
  have hroot := ParseRequest.parse_isUnit hparse
  obtain ⟨hprepared, -⟩ := Node.validate_isPrepared library options s hroot hvalid
  have hplain : ∀ n ∈ (root.validate library options s).tree.subtree, n.IsPlain := by
    cases hc : Collector.empty? options.overflow options.maxErrors with
    | error f =>
      rw [Node.validate, hc] at hvalid
      cases hvalid
    | ok c =>
      rw [Node.validate_of_empty? library options s root hc]
      have hvisit := Validation.gives_isPlain ⟨library, options.binder⟩ root hroot.isOrdinary
        (r.isPlain_of_parse hparse) .root {} (Validation.startOf c root s)
      exact Node.IsPlain.setPage hvisit _
  refine ⟨?_, fun n hn => Node.number_pos hn, ?_, ?_⟩
  · rw [(Node.numbers_numbered 1 _).1]
    exact List.nodup_range'
  · intro n hn hk
    obtain ⟨l, hl, hhead⟩ := Node.head_numbered 1 _ n hn
    have hkind : n.kind = l.kind := by rw [Node.kind, hhead, Node.kind]
    have hattributes : n.head.attributes = l.head.attributes := by rw [hhead]
    exact (hplain l hl (hkind ▸ hk)).congr hattributes
  · intro n hn a ha hnamed m hm
    obtain ⟨level, hn⟩ := (hprepared.numbered 1).of_mem_subtree n hn
    exact hn.kind_given ha hnamed hm

namespace Generation

/-! ### Records of units -/

/-- Where the code of a validated unit is generated. -/
structure Site.IsOf (z : Site) (options : Options) (root : Node) : Prop where
  options : z.env.options = options
  file : root.head.unit.map (·.file) = some z.env.file
  page : root.page? = some z.env.page
  root : z.root = (root.numbered 1).1

/-- The record is one of the file: it is that of the generation of the unit's nodes, the file ends
in its code, every tag that has lines in the file is started in it, and every tag in it is started
with the handler that was chosen for its node. -/
structure Linked.Records (z : Site) (code : GeneratedUnit) (w : Linked) : Prop where
  generated : Generates z.env z.root.children w
  source : ∃ front, code.source = front ++ endText z.env (w.text z.env 1 .out)
    (w.text z.env 1 .methods) (w.cases.flatMap (caseText z.env))
  tags : ∀ n ∈ code.tree.subtree, n.kind = .customTag → n.head.lines.first ≠ 0 →
    n.head.number ∈ w.tags.map (·.node)
  names : ∃ t, code.tree = z.root.mapHeads (annotate t) ∧ ∀ x ∈ w.tags, x.IsNamed t.names

theorem Code.isWhole_replay (c : Code) {d : Desk} (hd : d.declarations.indent = 0) {h : Sheet}
    (hempty : (d.writer h).written = []) : ((c.replay d).writer h).IsWhole := by
  intro htext
  rw [c.text_replay hd hempty] at htext
  have hpieces : (c.layout d.out.indent h).pieces = [] := by
    refine List.eq_nil_iff_forall_not_mem.mpr fun x hx => ?_
    obtain ⟨y, rfl⟩ := c.isWhole_layout d.out.indent h x hx
    exact List.append_ne_nil_of_right_ne_nil y (List.cons_ne_nil _ _)
      (List.flatten_eq_nil_iff.mp htext _ hx)
  rw [Writer.isEmpty, c.written_replay hd, hpieces, hempty]
  rfl

/-- The state in which the body of a unit is generated. -/
def startBody (env : Env) : State := (start env).withOut ({} : Writer).indented

theorem startBody_written (env : Env) (h : Sheet) :
    ((startBody env).desk.writer h).written = [] := by
  cases h <;> rfl

/-- What a record says of the state after a unit was generated. -/
structure Linked.Makes (z : Site) (t : State) (w : Linked) : Prop extends
    w.IsRight z (.ofUnit z.env) where
  generated : Generates z.env z.root.children w
  text : ∃ front, t.place.out.text = front ++ endText z.env (w.text z.env 1 .out)
    (w.text z.env 1 .methods) (w.cases.flatMap (caseText z.env))
  lines : ∀ k, t.HasLines k → k ∈ (w.code z.env).nodes
  passed : w.passed = []
  cases : (w.cases.map (·.1)).Perm (List.range t.fragmentCount)
  methods : w.methods.Nodup
  names : ∀ x ∈ w.tags, x.IsNamed t.names

/-- A unit is generated by generating its nodes, and its file ends in the code that was written for
them. -/
theorem unit_body {z : Site} {t : State}
    (hrun : unit z.env z.root.height z.root.children (start z.env) = .ok () t) :
    ∃ s, body z.env z.root.height z.root.children (startBody z.env) = .ok () s ∧
      ∀ c : Code, s.desk = c.replay (startBody z.env).desk →
        (∃ front, t.place.out.text = front ++ endText z.env (c.layout 1 .out).text
          (c.layout 1 .methods).text (c.layout 1 .fragments).text) ∧
        t.fragmentCount = s.fragmentCount ∧ t.names = s.names ∧
        ∀ k, t.HasLines k → k ∈ c.nodes := by
  have hunit : unit z.env z.root.height z.root.children (start z.env) =
      (body z.env z.root.height z.root.children >>= fun _ => outdent >>= fun _ =>
        assemble z.env) (startBody z.env) := rfl
  obtain ⟨_, s, hbody, hrest⟩ := bind_eq_ok (hunit.symm.trans hrun)
  obtain ⟨_, v, hout, hassemble⟩ := bind_eq_ok hrest
  refine ⟨s, hbody, fun c hc => ?_⟩
  have htext : ∀ h, (s.desk.writer h).text = (c.layout 1 h).text := by
    intro h
    rw [hc]
    exact c.text_replay rfl (startBody_written z.env h)
  have hwhole : ∀ h, (s.desk.writer h).IsWhole := by
    intro h
    rw [hc]
    exact c.isWhole_replay rfl (startBody_written z.env h)
  obtain ⟨⟨o, rfl⟩, hdesk⟩ := writesOnly_outdent s () v hout
  have hotext : o.text = (c.layout 1 .out).text := by
    rw [← htext]
    exact congrArg (fun d : Desk => d.out.text) hdesk
  have hmethods : (s.withOut o).methods.IsWhole := hwhole .methods
  have hfragments : (s.withOut o).fragments.IsWhole := hwhole .fragments
  obtain ⟨⟨front, hsource⟩, hcount, hnames, hlines⟩ :=
    assemble_text hmethods hfragments hassemble
  refine ⟨⟨front, ?_⟩, hcount, hnames, fun k hk => ?_⟩
  · rw [← htext .methods, ← htext .fragments, ← hotext]
    exact hsource
  · by_contra hno
    have hstart : ((startBody z.env).desk.spans.get k).first = 0 := rfl
    have hnone := Code.first_replay _ hno hstart
    rw [← hc] at hnone
    exact hlines k hk hnone

/-- A unit that is generated has a record that is right. -/
theorem unit_makes {z : Site} (hz : z.IsTidy) (hroot : z.root.kind = .root) {t : State}
    (hrun : unit z.env z.root.height z.root.children (start z.env) = .ok () t) :
    ∃ w : Linked, w.Makes z t := by
  obtain ⟨s, hbody, hends⟩ := unit_body hrun
  have hchildren : ∀ n ∈ z.root.children, z.Comes (some .unit) n := fun n hn =>
    (((Site.Stands.root z).wraps hz (hroot ▸ by decide)).children n hn).comes
  obtain ⟨w, hw, hright, hmeets⟩ := links_body hz z.root.height (.ofUnit z.env) (some .unit)
    z.root.children (Scope.suits_ofUnit z.env) hchildren (startBody z.env) () s
    ⟨rfl, List.nil_subset _⟩ hbody
  obtain ⟨⟨front, hsource⟩, hcount, hnames, hlines⟩ := hends (w.code z.env) hw.desk
  refine ⟨w, hright, ⟨_, _, _, hbody, hw.desk⟩, ⟨front, ?_⟩, hlines,
    List.forall₂_nil_left_iff.mp hmeets.passes, ?_, hw.nodup, hnames ▸ hw.tags⟩
  · rw [← Linked.text_fragments z.env 1]
    exact hsource
  · have hcases : (([] : List Nat) ++ w.cases.map (·.1)).Perm (List.range s.fragmentCount) :=
      hw.cases
    rw [hcount]
    exact hcases

/-- Generated code is that of a run. -/
theorem generate_ok {root : Node} {options : Options} {code : GeneratedUnit}
    (hgen : root.generate options = .ok code) :
    ∃ (z : Site) (t : State), z.IsOf options root ∧
      unit z.env z.root.height z.root.children (start z.env) = .ok () t ∧
      code.source = t.place.out.text ∧ code.fragments = t.fragmentCount ∧
      code.tree = z.root.mapHeads (annotate t) := by
  unfold Node.generate at hgen
  split at hgen
  · next u page hu hpage =>
    dsimp only at hgen
    split at hgen
    · cases hgen
    · next t hrun =>
      obtain rfl := Except.ok.inj hgen
      exact ⟨⟨⟨options, u.file, page⟩, (root.numbered 1).1⟩, t, ⟨rfl, by rw [hu]; rfl, hpage, rfl⟩,
        hrun, rfl, rfl, rfl⟩
  · cases hgen

/-- The file of a unit has a record that is right. -/
theorem generate_records {root : Node} {options : Options} {code : GeneratedUnit}
    (hkind : root.kind = .root) (htidy : ∀ env : Env, Site.IsTidy ⟨env, (root.numbered 1).1⟩)
    (hgen : root.generate options = .ok code) :
    ∃ (z : Site) (w : Linked) (t : State), z.IsOf options root ∧ w.Records z code ∧ w.Makes z t ∧
      code.fragments = t.fragmentCount := by
  obtain ⟨z, t, hz, hrun, hsource, hcount, htree⟩ := generate_ok hgen
  have hsite : z = ⟨z.env, (root.numbered 1).1⟩ := by rw [← hz.root]
  have hroot : z.root.kind = .root := by
    rw [hz.root]
    exact (Node.kind_numbered 1 root).trans hkind
  obtain ⟨w, hw⟩ := unit_makes (hsite ▸ htidy z.env) hroot hrun
  refine ⟨z, w, t, hz, ⟨hw.generated, hsource ▸ hw.text, ?_, ⟨t, htree, hw.names⟩⟩, hw, hcount⟩
  intro n hn hk hfirst
  rw [htree, Node.subtree_mapHeads] at hn
  obtain ⟨m, hm, rfl⟩ := List.mem_map.mp hn
  rw [Node.kind, Node.head_mapHeads] at hk
  rw [Node.head_mapHeads] at hfirst ⊢
  exact hw.nodes _ (hw.lines _ hfirst) ⟨m, hm, hk, rfl⟩

end Generation

open Generation

/-! ### A unit -/

/-- A library of a simple tag with a fragment, and of a classic tag. -/
def nestedLibrary : TagLibrary where
  uri := "urn:t"
  tags := [
    ("s", { name := "s", simple := true, body := .scriptless,
            attributes := [{ name := "f", fragment := true }] }),
    ("c", { name := "c" })]

/-- A tag in a fragment, and a tag in the body of a tag, which is a fragment as well. -/
def nestedPage : ParseRequest where
  path := "/a.jsp"
  text := "<%@taglib prefix=\"t\" uri=\"urn:t\"%><t:s><jsp:attribute name=\"f\"><t:c/>" ++
    "</jsp:attribute><jsp:body>a<t:s>b</t:s></jsp:body></t:s>"

/-- Surroundings that know the library. -/
def nestedHost : Host Unit where
  library := some fun _ m => (.ok nestedLibrary, m)

/-- The unit is generated with three fragments. Its tags are the nodes 3, 5 and 8; the first one
stands in no other, and the last one stands in its body. -/
theorem nestedPage_generated : ∃ root code, (nestedPage.parse nestedHost ()).1 = .ok root ∧
    (root.validate (σ := Unit) none {} ()).failure = none ∧
    (root.validate (σ := Unit) none {} ()).tree.generate {} = .ok code ∧ code.fragments = 3 ∧
    (∃ n ∈ code.tree.subtree, n.kind = .customTag ∧ n.head.lines.first ≠ 0 ∧ n.head.number = 8) ∧
    (8, some (.tag 3)) ∈
      ((root.validate (σ := Unit) none {} ()).tree.numbered 1).1.parents (some .unit) := by
  have hsome : (nestedPage.parse nestedHost ()).1.toOption.any (fun root =>
      let v := root.validate (σ := Unit) none {} ()
      v.failure.isNone && (v.tree.generate {}).toOption.any fun code =>
        code.fragments == 3 &&
        (code.tree.subtree.any fun n =>
          n.kind == .customTag && n.head.lines.first != 0 && n.head.number == 8) &&
        ((v.tree.numbered 1).1.parents (some .unit)).contains (8, some (.tag 3))) = true := by
    decide +kernel
  obtain ⟨root, hparse, htest⟩ := exists_ok_of_any hsome
  dsimp only at htest
  rw [Bool.and_eq_true, Option.isNone_iff_eq_none] at htest
  obtain ⟨hvalid, hgenerated⟩ := htest
  obtain ⟨code, hgen, hcode⟩ := exists_ok_of_any hgenerated
  rw [Bool.and_eq_true, Bool.and_eq_true, beq_iff_eq] at hcode
  obtain ⟨⟨hcount, htag⟩, hparents⟩ := hcode
  refine ⟨root, code, hparse, hvalid, hgen, hcount, ?_, List.contains_iff_mem.mp hparents⟩
  simpa [and_assoc] using htag

/-! ### Validated units -/

section Validated

variable {σ τ : Type} {r : ParseRequest} {host : Host σ} {memory : σ} {root : Node}

/-- **Fragments are dispatched by their numbers.** If a parsed and validated unit is generated, then
the switch of its file has one case for each number below the number of fragments, and no other.
These are the numbers under which fragments are passed, each passed once; every one is passed by a
tag, for its body or for one of its attributes, and its case is the code of that body or of that
attribute. -/
theorem ParseRequest.generate_dispatches (hparse : (r.parse host memory).1 = .ok root)
    (library : Option (Bytes → τ → Except Fault TagLibrary × τ)) (options : ValidationOptions)
    (s : τ) (hvalid : (root.validate library options s).failure = none) {generation : Options}
    {code : GeneratedUnit}
    (hgen : (root.validate library options s).tree.generate generation = .ok code) :
    ∃ (z : Site) (w : Linked), z.IsOf generation (root.validate library options s).tree ∧
      w.Records z code ∧ (w.cases.map (·.1)).Perm (List.range code.fragments) ∧
      w.cases.Perm (w.allPassed.map fun p => (p.number, p.body)) ∧ w.passed = [] ∧
      ∀ x ∈ w.tags, ∃ n ∈ z.root.subtree, n.head.number = x.node ∧ n.kind = .customTag ∧
        x.body.Passes z.env n.passes := by
  obtain ⟨-, hkind⟩ := Node.validate_isPrepared library options s (parse_isUnit hparse) hvalid
  obtain ⟨z, w, t, hz, hw, hmakes, hcount⟩ :=
    generate_records hkind (r.isTidy_of_validate hparse library options s hvalid) hgen
  exact ⟨z, w, hz, hw, hcount ▸ hmakes.cases, w.cases_perm, hmakes.passed, hmakes.tags⟩

theorem ParseRequest.generate_dispatches_nestedPage : ∃ root code,
    (nestedPage.parse nestedHost ()).1 = .ok root ∧
    (root.validate (σ := Unit) none {} ()).failure = none ∧
    (root.validate (σ := Unit) none {} ()).tree.generate {} = .ok code ∧
    ∃ (z : Site) (w : Linked), w.Records z code ∧ (w.cases.map (·.1)).Perm [0, 1, 2] ∧
      w.cases.Perm (w.allPassed.map fun p => (p.number, p.body)) := by
  obtain ⟨root, code, hparse, hvalid, hgen, hcount, -, -⟩ := nestedPage_generated
  obtain ⟨z, w, -, hw, hcases, hpassed, -, -⟩ :=
    ParseRequest.generate_dispatches hparse none {} () hvalid hgen
  rw [hcount] at hcases
  exact ⟨root, code, hparse, hvalid, hgen, z, w, hw, hcases, hpassed⟩

end Validated

end ServerPages
