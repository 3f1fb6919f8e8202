import ServerPages.Proofs.LinkedCode
import ServerPages.Proofs.NodeCode

/-!
# Steps that hand handlers on

Which handler a tag is to be given for its parent is a matter of the tree (`Node.parents`): that of
the nearest tag around it, unless it stands in a named attribute of that tag. Which fragments a tag
passes is one as well (`Node.passes`). `Linked.IsRight` says of the record of a run that its tags
are given these handlers and pass these fragments.

`Links z c x d` says of a step `x` that its runs have such records. The step is run at a place in a
function (`Scope`), where names stand for handlers and one name is that of the handler around; the
place is the same afterwards. What the step has to write by itself is `d`: the fragments that it
passes outside of tags, and tags that it starts.

There is one rule for each way to put steps together and one for each primitive step.

## Main results

* `Links.bind`: one step after another.
* `Links.insideTag`, `Links.marking`: what is opened around a step is closed again.
* `links_hoisted`, `links_passFragment`: a method or a fragment knows the handler that it is handed
  by `parent`.
-/

namespace ServerPages

open Generation

/-! ### Parents and fragments in a tree -/

/-- The handler around a child of a node, by the handler around the node; for a child that gives an
attribute of a tag it is left open. -/
def Head.holderOf (h : Head) (around : Option Holder) (c : Node) : Option Holder :=
  if h.kind = .customTag then if c.kind = .namedAttribute then none else some (.tag h.number)
  else around

namespace Node

mutual

/-- The handlers around the nodes of a tree, by the numbers of the nodes. -/
def parents (around : Option Holder) : Node → List (Nat × Option Holder)
  | mk h cs => (h.number, around) :: parentsAll h around cs

/-- The handlers around the nodes below a node with the head. -/
def parentsAll (h : Head) (around : Option Holder) : List Node → List (Nat × Option Holder)
  | [] => []
  | c :: cs => parents (h.holderOf around c) c ++ parentsAll h around cs

end

theorem parents_subset {n c : Node} (hc : c ∈ n.children) (around : Option Holder) :
    c.parents (n.head.holderOf around c) ⊆ n.parents around := by
  obtain ⟨h, cs⟩ := n
  have hall : ∀ ds : List Node, c ∈ ds →
      c.parents (h.holderOf around c) ⊆ parentsAll h around ds := by
    intro ds hd
    induction ds with
    | nil => exact absurd hd List.not_mem_nil
    | cons d ds ih =>
      rw [parentsAll]
      rcases List.mem_cons.mp hd with rfl | hd
      · exact List.subset_append_left _ _
      · exact List.Subset.trans (ih hd) (List.subset_append_right _ _)
  rw [parents]
  exact List.subset_cons_of_subset _ (hall cs hc)

mutual

theorem map_fst_parents (around : Option Holder) (n : Node) :
    (n.parents around).map (·.1) = n.numbers := by
  match n with
  | .mk h cs =>
    rw [parents, List.map_cons, map_fst_parentsAll h around cs, numbers_eq]
    rfl

theorem map_fst_parentsAll (h : Head) (around : Option Holder) (ns : List Node) :
    (parentsAll h around ns).map (·.1) = numbersAll ns := by
  match ns with
  | [] => rfl
  | n :: ns =>
    rw [parentsAll, List.map_append, map_fst_parents _ n, map_fst_parentsAll h around ns,
      numbersAll_cons]

end

/-- The named attribute that gives the value of an attribute. -/
def given (n : Node) (a : Attribute) : Option Node := a.child.bind (n.children[·]?)

/-- The fragment that is passed for an attribute, unless the attribute is left out. -/
def attributePasses (n : Node) (a : Attribute) : List (Slot × List Node) :=
  if a.kind == .named && (n.given a).any (·.head.attrValue "omit" == ("true" : Bytes)) then []
  else if a.fragment then [(.attr a, fragmentNodes a (n.given a))] else []

/-- The fragment that is passed for the body: that of a simple tag which has one. -/
def bodyPasses (n : Node) (d : TagDescriptor) : List (Slot × List Node) :=
  if !d.isClassic && (d.body != .empty && !n.hasEmptyBody) then [(.body, n.content)] else []

/-- The fragments that an invocation of a tag passes, with the nodes that they evaluate. -/
def passes (n : Node) : List (Slot × List Node) :=
  n.head.attributes.flatMap n.attributePasses ++ (n.head.descriptor?.map n.bodyPasses).getD []

end Node

namespace Generation

/-- The number is that of a tag of the tree. -/
def Site.IsTag (z : Site) (k : Nat) : Prop :=
  ∃ n ∈ z.root.subtree, n.kind = .customTag ∧ n.head.number = k

/-- A node of the tree with the handler around it. -/
structure Site.Stands (z : Site) (around : Option Holder) (n : Node) : Prop where
  mem : n ∈ z.root.subtree
  parents : n.parents around ⊆ z.root.parents (some .unit)

theorem Site.Stands.child {z : Site} {around : Option Holder} {n c : Node}
    (h : z.Stands around n) (hc : c ∈ n.children) : z.Stands (n.head.holderOf around c) c where
  mem := Node.mem_subtree_trans h.mem (Node.mem_subtree_of_child hc c.mem_subtree_self)
  parents := List.Subset.trans (Node.parents_subset hc around) h.parents

theorem Site.Stands.root (z : Site) : z.Stands (some .unit) z.root :=
  ⟨z.root.mem_subtree_self, List.Subset.refl _⟩

/-! ### Records of runs -/

/-- The record is one of the generation of some nodes. -/
def Generates (env : Env) (ns : List Node) (w : Linked) : Prop :=
  ∃ fuel s t, body env fuel ns s = .ok () t ∧ t.desk = (w.code env).replay s.desk

/-- Fragments are passed outside of tags for these reasons, and evaluate these nodes. -/
def Linked.Passes (env : Env) (ps : List (Slot × List Node)) (w : Linked) : Prop :=
  List.Forall₂ (fun q p => p.slot = q.1 ∧ Generates env q.2 p.body) ps w.passed

/-- The record of a run in which tags are given the handlers around them for their parents and pass
their fragments, and in which the tags are started that have lines. -/
structure Linked.IsRight (z : Site) (b : Bindings) (w : Linked) : Prop where
  parents : ∀ k d, (k, d) ∈ w.parents b → ∀ x, (k, some x) ∈ z.root.parents (some .unit) →
    d = some x
  tags : ∀ x ∈ w.tags, ∃ n ∈ z.root.subtree, n.head.number = x.node ∧ n.kind = .customTag ∧
    x.body.Passes z.env n.passes
  nodes : ∀ k ∈ (w.code z.env).nodes, z.IsTag k → k ∈ w.tags.map (·.node)

/-- What a step has to write. -/
structure Due where
  /-- The fragments that it passes outside of tags, with the nodes that they evaluate. -/
  passes : List (Slot × List Node) := []
  /-- Some of the tags that it starts. -/
  tags : List Nat := []

instance : Append Due := ⟨fun d e => ⟨d.passes ++ e.passes, d.tags ++ e.tags⟩⟩

theorem Due.append_nil (d : Due) : d ++ ({} : Due) = d :=
  congrArg₂ Due.mk (List.append_nil d.passes) (List.append_nil d.tags)

/-- A record holds what a step has to write. -/
structure Linked.Meets (env : Env) (d : Due) (w : Linked) : Prop where
  passes : w.Passes env d.passes
  tags : d.tags ⊆ w.tags.map (·.node)

/-- The handler of the tag is one that was chosen for its node. -/
def Started.IsNamed (names : List (Nat × HandlerNames)) (x : Started) : Prop :=
  ∃ chosen, (x.node, chosen) ∈ names ∧ chosen.handler = x.start.handler

/-- A run from one state to another one has the record. -/
structure State.Runs (env : Env) (s t : State) (w : Linked) : Prop where
  desk : t.desk = (w.code env).replay s.desk
  names : s.names ⊆ t.names
  tags : ∀ x ∈ w.tags, x.IsNamed t.names
  handlers : t.place.handlers = s.place.handlers
  parent : t.place.parent = s.place.parent
  sequence : s.sequence ≤ t.sequence
  /-- Fragments are numbered in the order in which they are begun. -/
  cases : (List.range s.fragmentCount ++ w.cases.map (·.1)).Perm (List.range t.fragmentCount)
  nodup : w.methods.Nodup
  methods : ∀ i ∈ w.methods, s.sequence < i ∧ i ≤ t.sequence

section Records

variable {env : Env} {z : Site} {b : Bindings} {s t u : State} {v w : Linked} {d e : Due}

theorem Started.IsNamed.mono {names names' : List (Nat × HandlerNames)} {x : Started}
    (h : x.IsNamed names) (hnames : names ⊆ names') : x.IsNamed names' := by
  obtain ⟨chosen, hmem, hhandler⟩ := h
  exact ⟨chosen, hnames hmem, hhandler⟩

/-- A record without tags and lines of nodes. -/
theorem Linked.IsRight.of_tags_eq_nil (hparents : w.parents b = []) (htags : w.tags = [])
    (hnodes : (w.code z.env).nodes = []) : w.IsRight z b := by
  refine ⟨?_, ?_, ?_⟩
  · rw [hparents]
    exact fun _ _ h => absurd h List.not_mem_nil
  · rw [htags]
    exact fun _ h => absurd h List.not_mem_nil
  · rw [hnodes]
    exact fun _ h => absurd h List.not_mem_nil

theorem Linked.IsRight.seq (hv : v.IsRight z b) (hw : w.IsRight z b) : (v.seq w).IsRight z b := by
  refine ⟨?_, ?_, ?_⟩
  · intro k d hd
    exact (List.mem_append.mp hd).elim (hv.parents k d) (hw.parents k d)
  · intro x hx
    exact (List.mem_append.mp hx).elim (hv.tags x) (hw.tags x)
  · intro k hk htag
    rw [Linked.code, Code.nodes_append, List.mem_append] at hk
    rw [Linked.tags, List.map_append, List.mem_append]
    exact hk.imp (hv.nodes k · htag) (hw.nodes k · htag)

theorem Linked.Meets.seq (hv : v.Meets env d) (hw : w.Meets env e) :
    (v.seq w).Meets env (d ++ e) := by
  refine ⟨List.rel_append hv.passes hw.passes, ?_⟩
  rw [Linked.tags, List.map_append]
  exact List.append_subset.mpr ⟨List.subset_append_of_subset_left _ hv.tags,
    List.subset_append_of_subset_right _ hw.tags⟩

theorem Linked.Meets.of_passed (h : w.passed = []) : w.Meets env {} := by
  refine ⟨?_, List.nil_subset _⟩
  rw [Passes, h]
  exact .nil

theorem State.Runs.seq (hv : s.Runs env t v) (hw : t.Runs env u w) : s.Runs env u (v.seq w) where
  desk := by rw [hw.desk, hv.desk, ← Code.replay_append]; rfl
  names := List.Subset.trans hv.names hw.names
  tags := fun x hx =>
    (List.mem_append.mp hx).elim (fun h => (hv.tags x h).mono hw.names) (hw.tags x)
  handlers := hw.handlers.trans hv.handlers
  parent := hw.parent.trans hv.parent
  sequence := Nat.le_trans hv.sequence hw.sequence
  cases := by
    rw [Linked.cases, List.map_append, ← List.append_assoc]
    exact (hv.cases.append_right _).trans hw.cases
  nodup := by
    refine List.nodup_append.mpr ⟨hv.nodup, hw.nodup, ?_⟩
    rintro i hi _ hj rfl
    have := hv.methods i hi
    have := hw.methods i hj
    omega
  methods := by
    intro i hi
    have := hv.sequence
    have := hw.sequence
    rcases List.mem_append.mp hi with hi | hi
    · have := hv.methods i hi
      omega
    · have := hw.methods i hi
      omega

/-- A run that begins no fragment and writes no method. -/
theorem State.Runs.of_plain (hdesk : t.desk = (w.code env).replay s.desk)
    (hnames : s.names ⊆ t.names) (htags : w.tags = [])
    (hhandlers : t.place.handlers = s.place.handlers) (hparent : t.place.parent = s.place.parent)
    (hsequence : s.sequence ≤ t.sequence) (hcount : t.fragmentCount = s.fragmentCount)
    (hcases : w.cases = []) (hmethods : w.methods = []) : s.Runs env t w where
  desk := hdesk
  names := hnames
  tags := by rw [htags]; exact fun _ h => absurd h List.not_mem_nil
  handlers := hhandlers
  parent := hparent
  sequence := hsequence
  cases := by
    rw [hcases, hcount, List.map_nil, List.append_nil]
  nodup := by rw [hmethods]; exact List.nodup_nil
  methods := by rw [hmethods]; exact fun _ h => absurd h List.not_mem_nil

end Records

/-! ### Steps -/

/-- A place in a function: what names stand for there, and the name of the handler around. -/
structure Scope where
  /-- What names stand for. -/
  bindings : Bindings
  /-- The name of the handler around. -/
  current : Bytes
  /-- Identifiers that were chosen for nodes. -/
  names : List (Nat × HandlerNames) := []

/-- A state at a place in a function. -/
structure Scope.IsAt (c : Scope) (s : State) : Prop where
  current : s.place.handlers.headD s.place.parent = c.current
  names : c.names ⊆ s.names

/-- A run that succeeds from a state at the place has a record that is right and holds what the step
has to write. -/
def Links (z : Site) (c : Scope) {α : Type} (x : Gen α) (d : Due) : Prop :=
  ∀ s a t, c.IsAt s → x s = .ok a t →
    ∃ w : Linked, s.Runs z.env t w ∧ w.IsRight z c.bindings ∧ w.Meets z.env d

section Rules

variable {α β : Type} {z : Site} {c : Scope} {d e : Due}

theorem Scope.IsAt.next {s t : State} {w : Linked} {env : Env} (hs : c.IsAt s)
    (hw : s.Runs env t w) : c.IsAt t where
  current := by rw [hw.handlers, hw.parent, hs.current]
  names := List.Subset.trans hs.names hw.names

/-- A step that changes the state in one go and writes nothing. -/
theorem Links.share {f : State → α × State} (hdesk : ∀ s, (f s).2.desk = s.desk)
    (hnames : ∀ s, s.names ⊆ (f s).2.names)
    (hplace : ∀ s, (f s).2.place.handlers = s.place.handlers ∧
      (f s).2.place.parent = s.place.parent)
    (hsequence : ∀ s, s.sequence ≤ (f s).2.sequence)
    (hcount : ∀ s, (f s).2.fragmentCount = s.fragmentCount) :
    Links z c (modifyGet f : Gen α) {} := by
  intro s a t hs hrun
  rw [run_modifyGet] at hrun
  cases hrun
  exact ⟨.nil, .of_plain (hdesk s) (hnames s) rfl (hplace s).1 (hplace s).2 (hsequence s) (hcount s)
    rfl rfl, .of_tags_eq_nil rfl rfl rfl, .of_passed rfl⟩

theorem Links.pure (a : α) : Links z c (Pure.pure a : Gen α) {} := by
  rintro s b t hs ⟨⟩
  exact ⟨.nil, .of_plain rfl (List.Subset.refl _) rfl rfl rfl (Nat.le_refl _) rfl rfl rfl,
    .of_tags_eq_nil rfl rfl rfl, .of_passed rfl⟩

theorem Links.throw (f : Failure) : Links z c (throw f : Gen α) d := by
  rintro s b t hs ⟨⟩

theorem Links.throw_bind (f : Failure) (g : α → Gen β) :
    Links z c (MonadExcept.throw f >>= g) d := by
  rintro s b t hs ⟨⟩

theorem Links.bind {x : Gen α} {f : α → Gen β} (hx : Links z c x d) (hf : ∀ a, Links z c (f a) e) :
    Links z c (x >>= f) (d ++ e) := by
  intro s b u hs hrun
  obtain ⟨a, t, hxs, hft⟩ := bind_eq_ok hrun
  obtain ⟨v, hv, hright, hmeets⟩ := hx s a t hs hxs
  obtain ⟨w, hw, hright', hmeets'⟩ := hf a t b u (hs.next hv) hft
  exact ⟨v.seq w, hv.seq hw, hright.seq hright', hmeets.seq hmeets'⟩

/-- A step that has nothing to write by itself, before others. -/
theorem Links.before {x : Gen α} {f : α → Gen β} (hx : Links z c x {})
    (hf : ∀ a, Links z c (f a) d) : Links z c (x >>= f) d := hx.bind hf

/-- Steps that have nothing to write by themselves, after another one. -/
theorem Links.after {x : Gen α} {f : α → Gen β} (hx : Links z c x d)
    (hf : ∀ a, Links z c (f a) {}) : Links z c (x >>= f) d :=
  d.append_nil ▸ hx.bind hf

theorem Links.get {f : State → Gen β} (hf : ∀ s, Links z c (f s) d) :
    Links z c (MonadStateOf.get >>= f) d := fun s a t hs hrun => hf s s a t hs hrun

theorem Links.ite {p : Prop} [Decidable p] {x y : Gen α} (hx : p → Links z c x d)
    (hy : ¬p → Links z c y d) : Links z c (if p then x else y) d := by
  split
  · next h => exact hx h
  · next h => exact hy h

/-- A step that is taken only under a condition, before others. -/
theorem Links.guard {p : Prop} [Decidable p] {x : Gen Unit} {f : Unit → Gen β}
    (hx : Links z c x {}) (hf : ∀ a, Links z c (f a) d) :
    Links z c (if p then x >>= f else f ()) d :=
  .ite (fun _ => hx.before hf) fun _ => hf ()

theorem Links.forM {l : List α} {f : α → Gen PUnit} {ps : α → List (Slot × List Node)}
    (hf : ∀ a ∈ l, Links z c (f a) { passes := ps a }) :
    Links z c (l.forM f) { passes := l.flatMap ps } := by
  induction l with
  | nil => exact Links.pure _
  | cons a l ih =>
    exact (hf a List.mem_cons_self).bind fun _ => ih fun b hb => hf b (List.mem_cons_of_mem _ hb)

theorem Links.forM_nil {l : List α} {f : α → Gen PUnit} (hf : ∀ a ∈ l, Links z c (f a) {}) :
    Links z c (l.forM f) {} := by
  induction l with
  | nil => exact Links.pure _
  | cons a l ih =>
    exact (hf a List.mem_cons_self).before fun _ => ih fun b hb => hf b (List.mem_cons_of_mem _ hb)

theorem Links.mapM_nil {l : List α} {f : α → Gen β} (hf : ∀ a, Links z c (f a) {}) :
    Links z c (l.mapM f) {} := by
  induction l with
  | nil => exact Links.pure _
  | cons a l ih =>
    rw [List.mapM_cons]
    exact (hf a).before fun _ => ih.before fun _ => .pure _

/-! ### Lines -/

/-- A step that writes a code and does nothing else. -/
def WritesOnly (x : Gen Unit) (d : Code) : Prop :=
  ∀ s a t, x s = .ok a t → (∃ w, t = s.withOut w) ∧ t.desk = d.replay s.desk

theorem WritesOnly.bind {x y : Gen Unit} {d e : Code} (hx : WritesOnly x d)
    (hy : WritesOnly y e) : WritesOnly (x >>= fun _ => y) (d ++ e) := by
  intro s a u hrun
  obtain ⟨b, t, hxs, hyt⟩ := bind_eq_ok hrun
  obtain ⟨⟨w, rfl⟩, hd⟩ := hx s b t hxs
  obtain ⟨⟨w', rfl⟩, he⟩ := hy _ a u hyt
  exact ⟨⟨w', rfl⟩, by rw [he, hd, Code.replay_append]⟩

theorem writesOnly_emit (x : Bytes) : WritesOnly (emit x) (.line (.control x) .nil) := by
  rintro s a t ⟨⟩
  exact ⟨⟨_, rfl⟩, rfl⟩

theorem writesOnly_indent : WritesOnly indent (.indent .nil) := by
  rintro s a t ⟨⟩
  exact ⟨⟨_, rfl⟩, rfl⟩

theorem writesOnly_openBlock (x : Bytes) :
    WritesOnly (openBlock x) (.line (.control x) (.indent .nil)) :=
  (writesOnly_emit x).bind writesOnly_indent

theorem writesOnly_outdent : WritesOnly outdent (.outdent .nil) := by
  intro s a t hrun
  obtain ⟨-, -, d, hd, rfl⟩ := Writes.outdent (s := s) (Q := fun _ _ d => d = .outdent .nil)
    (fun _ _ => rfl) a t hrun
  refine ⟨?_, hd⟩
  unfold Generation.outdent at hrun
  rw [bind_get] at hrun
  cases hout : s.place.out.outdented? with
  | none =>
    rw [hout] at hrun
    cases hrun
  | some w =>
    rw [hout] at hrun
    cases hrun
    exact ⟨w, rfl⟩

theorem writesOnly_closeBlock (x : Bytes) :
    WritesOnly (closeBlock x) (.outdent (.line (.control x) .nil)) :=
  writesOnly_outdent.bind (writesOnly_emit x)

theorem writesOnly_check (x : Bytes) : WritesOnly (check x) (Code.check x) :=
  (writesOnly_openBlock _).bind ((writesOnly_emit _).bind (writesOnly_closeBlock _))

theorem Links.of_writesOnly {x : Gen Unit} (w : Linked) (hx : WritesOnly x (w.code z.env))
    (hcases : w.cases = []) (hmethods : w.methods = []) (htags : w.tags = [])
    (hparents : w.parents c.bindings = []) (hpassed : w.passed = [])
    (hnodes : (w.code z.env).nodes = []) : Links z c x {} := by
  intro s a t hs hrun
  obtain ⟨⟨o, rfl⟩, hdesk⟩ := hx s a t hrun
  exact ⟨w, .of_plain hdesk (List.Subset.refl _) htags rfl rfl (Nat.le_refl _) rfl hcases hmethods,
    .of_tags_eq_nil hparents htags hnodes, .of_passed hpassed⟩

theorem links_emit (x : Bytes) : Links z c (emit x) {} :=
  .of_writesOnly (.line x) (writesOnly_emit x) rfl rfl rfl rfl rfl rfl

theorem links_emitAll (ls : List Bytes) : Links z c (emitAll ls) {} :=
  .forM_nil fun x _ => links_emit x

theorem links_indent : Links z c indent {} :=
  .of_writesOnly .indent writesOnly_indent rfl rfl rfl rfl rfl rfl

theorem links_outdent : Links z c outdent {} :=
  .of_writesOnly .outdent writesOnly_outdent rfl rfl rfl rfl rfl rfl

theorem links_openBlock (x : Bytes) : Links z c (openBlock x) {} :=
  (links_emit x).before fun _ => links_indent

theorem links_closeBlock (x : Bytes) : Links z c (closeBlock x) {} :=
  links_outdent.before fun _ => links_emit x

theorem links_returning (x : Bytes) : Links z c (returning x) {} :=
  (links_openBlock x).before fun _ => (links_emit _).before fun _ => links_closeBlock _

theorem links_check (x : Bytes) : Links z c (check x) {} := links_returning _

theorem links_checkErr : Links z c checkErr {} := links_returning _

/-! ### What the unit shares -/

theorem links_declare (x : Bytes) : Links z c (declare x) {} :=
  .share (fun _ => rfl) (fun _ => List.Subset.refl _) (fun _ => ⟨rfl, rfl⟩)
    (fun _ => Nat.le_refl _) fun _ => rfl

theorem links_nextNumber : Links z c nextNumber {} :=
  .share (fun _ => rfl) (fun _ => List.Subset.refl _) (fun _ => ⟨rfl, rfl⟩)
    (fun _ => Nat.le_succ _) fun _ => rfl

theorem links_temporary : Links z c temporary {} := links_nextNumber.before fun _ => .pure _

theorem links_expressionName (x : Bytes) : Links z c (expressionName x) {} := by
  refine .share (fun s => ?_) (fun s => ?_) (fun s => ?_) (fun s => ?_) fun s => ?_ <;>
    cases s.expressions.findIdx? (· == x) <;> simp [State.desk]

theorem links_textConstant (x : Bytes) : Links z c (textConstant x) {} := by
  refine .share (fun s => ?_) (fun s => ?_) (fun s => ?_) (fun s => ?_) fun s => ?_ <;>
    cases s.texts.findIdx? (· == x) <;> simp [State.desk]

theorem links_qualified (package name : Bytes) : Links z c (qualified package name) {} := by
  refine .ite (fun _ => .pure _) fun _ => Links.before ?_ fun _ => .pure _
  exact .share (fun _ => rfl) (fun _ => List.Subset.refl _) (fun _ => ⟨rfl, rfl⟩)
    (fun _ => Nat.le_refl _) fun _ => rfl

/-! ### Blocks and parts -/

theorem Links.inBlock {x : Gen Unit} (hx : Links z c x d) : Links z c (inBlock x) d := by
  intro s a t hs hrun
  obtain ⟨u, hxu, rfl⟩ := inBlock_eq_ok.mp hrun
  obtain ⟨w, hw, hright, hmeets⟩ :=
    hx (s.withBlocks ([] :: s.place.blocks)) () u ⟨hs.current, hs.names⟩ hxu
  exact ⟨w, ⟨hw.desk, hw.names, hw.tags, hw.handlers, hw.parent, hw.sequence, hw.cases, hw.nodup,
    hw.methods⟩, hright, hmeets⟩

/-- The handler around the code inside a tag is that of the tag. -/
theorem Links.insideTag {x : Gen Unit} {handler : Bytes}
    (hx : Links z { c with current := handler } x d) : Links z c (insideTag handler x) d := by
  intro s a t hs hrun
  obtain ⟨u, hxu, rfl⟩ := insideTag_eq_ok.mp hrun
  obtain ⟨w, hw, hright, hmeets⟩ :=
    hx (s.withHandlers (handler :: s.place.handlers)) () u ⟨rfl, hs.names⟩ hxu
  refine ⟨w, ⟨hw.desk, hw.names, hw.tags, ?_, hw.parent, hw.sequence, hw.cases, hw.nodup,
    hw.methods⟩, hright, hmeets⟩
  exact congrArg (List.drop 1) hw.handlers

/-- The lines of a node; if it is a tag, it is started among them. -/
theorem Links.marking {x : Gen Unit} {k : Nat} (hk : z.IsTag k → k ∈ d.tags)
    (hx : Links z c x d) : Links z c (marking k x) d := by
  intro s a t hs hrun
  obtain ⟨u, hxu, rfl⟩ := marking_eq_ok.mp hrun
  obtain ⟨w, hw, hright, hmeets⟩ := hx (s.begun k) () u ⟨hs.current, hs.names⟩ hxu
  refine ⟨.part k w, ⟨?_, hw.names, hw.tags, hw.handlers, hw.parent, hw.sequence, hw.cases,
    hw.nodup, hw.methods⟩, ⟨hright.parents, hright.tags, ?_⟩, ⟨hmeets.passes, hmeets.tags⟩⟩
  · show { u.desk with spans := u.desk.out.finish k u.desk.spans } = _
    rw [hw.desk]
    rfl
  · intro j hj htag
    rw [Linked.code, Code.nodes, Code.nodes, List.append_nil] at hj
    rcases List.mem_cons.mp hj with rfl | hj
    · exact hmeets.tags (hk htag)
    · exact hright.nodes j hj htag

/-! ### Functions of their own -/

/-- The place in a method or a fragment that knows the handler of the name by `parent`. -/
def Scope.inFunction (c : Scope) (handler : Bytes) : Scope where
  bindings := .inFunction (c.bindings.holder? handler)
  current := "parent"
  names := c.names

/-- The state `v` is one at the start of a method or a fragment that is written at `s`. -/
structure State.Starts (s v : State) (begun : Nat) : Prop where
  handlers : v.place.handlers = []
  parent : v.place.parent = "parent"
  sequence : v.sequence = s.sequence
  names : v.names = s.names
  fragments : v.fragmentCount = s.fragmentCount + begun

/-- The state `t` follows the end `u` of a method or a fragment that was written at `s`. -/
structure State.Ends (s u t : State) : Prop where
  place : t.place = s.place
  sequence : t.sequence = u.sequence
  names : t.names = u.names
  fragments : t.fragmentCount = u.fragmentCount

/-- A run in a method of its own, between the line that opens the method and the one that closes
it. -/
theorem run_method {k : Nat} {opening : Bytes} {run : Gen Unit} {s t : State} {a : Unit}
    (h : (asMethod {} (marking k do
      openBlock opening
      run
      closeBlock "\x7d") >>= takeMethod) s = .ok a t) :
    ∃ v u isApart, s.Starts v 0 ∧ (v.declarations = s.declarations ∧ v.place.out.indent = 1) ∧
      run v = .ok () u ∧ s.Ends u t ∧ ∀ d : Code, u.desk = d.replay v.desk →
        t.desk = Code.replay (.method isApart
          (.part k (Code.block (.control opening) d "\x7d") .nil) .nil) s.desk := by
  obtain ⟨o, r, hmethod, htake⟩ := bind_eq_ok h
  obtain ⟨q, hmarking, rfl, rfl⟩ := asMethod_eq_ok.mp hmethod
  obtain ⟨p, hblock, rfl⟩ := marking_eq_ok.mp hmarking
  obtain ⟨_, v, hopen, hinside⟩ := bind_eq_ok hblock
  obtain ⟨_, u, hrun, hclose⟩ := bind_eq_ok hinside
  obtain ⟨⟨w, rfl⟩, hv⟩ := writesOnly_openBlock opening _ _ _ hopen
  obtain ⟨⟨w', rfl⟩, hp⟩ := writesOnly_closeBlock _ _ _ _ hclose
  cases htake
  have hindent : w.indent = 1 := congrArg (·.out.indent) hv
  refine ⟨((s.inFunction {}).begun k).withOut w, u, !u.methods.isEmpty, ⟨rfl, rfl, rfl, rfl, rfl⟩,
    ⟨rfl, hindent⟩, hrun, ⟨rfl, rfl, rfl, rfl⟩, fun d hd => ?_⟩
  have hdesk : (Code.block (.control opening) d "\x7d").replay ((s.inFunction {}).begun k).desk =
      (u.withOut w').desk := by
    rw [hp, hd, hv, ← Code.replay_append, ← Code.replay_append]
    rfl
  have hbegun : ((s.inFunction {}).begun k).desk = { s.desk with
      out := (({} : Writer).begin k s.desk.spans).1
      spans := (({} : Writer).begin k s.desk.spans).2 } := rfl
  rw [hbegun] at hdesk
  simp only [Code.replay, hdesk]
  cases hempty : u.methods.isEmpty <;> simp [State.desk, State.withOut, hempty]

/-- A run of a fragment body, which has the next number and is written in the case for it. -/
theorem run_fragment {inner : Body} {ns : List Node} {s t : State} {i : Nat}
    (h : fragment inner ns s = .ok i t) :
    i = s.fragmentCount ∧ ∃ v u, s.Starts v 1 ∧ v.declarations = s.declarations ∧
      inner ns v = .ok () u ∧ s.Ends u t ∧ ∀ d : Code, u.desk = d.replay v.desk →
        t.desk = Code.replay (.fragment (fragmentCase i d) .nil) s.desk := by
  let counted := { s with fragmentCount := s.fragmentCount + 1 }
  let opened : Writer :=
    ((({} : Writer).indented).println ("case " ++ Bytes.ofNat s.fragmentCount ++ ":")).indented
  obtain ⟨o, r, hfragment, htake⟩ : ∃ o r,
      asFragment opened (fragmentBody inner ns) counted = .ok o r ∧
      EStateM.Result.ok s.fragmentCount { r with
        fragments := (r.fragments.splice o r.spans).1,
        spans := (r.fragments.splice o r.spans).2 } = .ok i t :=
    bind_eq_ok (x := asFragment opened (fragmentBody inner ns)) h
  obtain ⟨q, hbody, rfl, rfl⟩ := asFragment_eq_ok.mp hfragment
  cases htake
  obtain ⟨_, u, hrun, hend⟩ := bind_eq_ok hbody
  obtain ⟨⟨w, rfl⟩, hq⟩ := (writesOnly_emit "return nil").bind
    (writesOnly_outdent.bind writesOnly_outdent) _ _ _ hend
  refine ⟨rfl, counted.inFunction opened, u, ⟨rfl, rfl, rfl, rfl, rfl⟩, rfl, hrun,
    ⟨rfl, rfl, rfl, rfl⟩, fun d hd => ?_⟩
  have hdesk : (fragmentCase s.fragmentCount d).replay { s.desk with out := {} } =
      (u.withOut w).desk := by
    rw [hq, hd]
    show _ = Code.replay _ (d.replay _)
    rw [← Code.replay_append]
    rfl
  simp only [Code.replay, hdesk]
  rfl

section Functions

variable {run : Gen Unit} {s t u v : State} {w : Linked} {begun : Nat}

theorem Scope.isAt_inFunction (hv : s.Starts v begun) (hs : c.names ⊆ s.names)
    (handler : Bytes) : (c.inFunction handler).IsAt v where
  current := by rw [hv.handlers, hv.parent]; rfl
  names := hv.names ▸ hs

/-- A tag that runs in a method of its own, which knows the handler around by `parent`. -/
theorem links_hoisted {k : Nat} (hk : z.IsTag k → k ∈ d.tags)
    (hrun : Links z (c.inFunction c.current) run d) : Links z c (hoisted z.env k run) d := by
  intro s a t hs h
  unfold hoisted at h
  obtain ⟨i, s₁, hi, h⟩ := bind_eq_ok h
  obtain ⟨parent, s₂, hparent, h⟩ := bind_eq_ok h
  cases hi
  cases hparent
  obtain ⟨_, s₃, hcheck, h⟩ := bind_eq_ok h
  obtain ⟨⟨o, rfl⟩, hdesk⟩ := writesOnly_check _ _ _ _ hcheck
  obtain ⟨v, u, isApart, hv, -, hvu, ht, hreplay⟩ := run_method h
  obtain ⟨w, hw, hright, hmeets⟩ := hrun v () u (Scope.isAt_inFunction hv hs.names _) hvu
  have hsequence : v.sequence = s.sequence + 1 := hv.sequence
  refine ⟨.method (s.sequence + 1) k c.current isApart w, ?_, ⟨hright.parents, hright.tags, ?_⟩,
    ⟨hmeets.passes, hmeets.tags⟩⟩
  · refine ⟨?_, ?_, ?_, ?_, ?_, ?_, ?_, ?_, ?_⟩
    · rw [hreplay _ hw.desk, hdesk, Linked.code, Code.replay_append, ← hs.current]
      rfl
    · rw [ht.names]
      exact hv.names ▸ hw.names
    · rw [ht.names]
      exact hw.tags
    · rw [ht.place]
      rfl
    · rw [ht.place]
      rfl
    · have := hw.sequence
      rw [ht.sequence]
      omega
    · have hcases := hw.cases
      rw [hv.fragments] at hcases
      rw [ht.fragments]
      exact hcases
    · refine List.nodup_cons.mpr ⟨fun hmem => ?_, hw.nodup⟩
      have := hw.methods _ hmem
      omega
    · rw [ht.sequence]
      intro j hj
      have := hw.sequence
      rcases List.mem_cons.mp hj with rfl | hj
      · omega
      · have := hw.methods j hj
        omega
  · intro j hj htag
    have hnodes : ((Linked.method (s.sequence + 1) k c.current isApart w).code z.env).nodes =
        k :: (w.code z.env).nodes := by
      simp [Linked.code, Code.nodes, methodCode]
    rw [hnodes] at hj
    rcases List.mem_cons.mp hj with rfl | hj
    · exact hmeets.tags (hk htag)
    · exact hright.nodes j hj htag

/-- Passes a fragment to a handler. -/
def passFragment (inner : Body) (ns : List Node) (handler : Bytes) (slot : Slot) : Gen Unit := do
  let i ← fragment inner ns
  if slot.isDynamic then check (slot.call handler (fragmentCode handler i))
  else emit (slot.call handler (fragmentCode handler i))

/-- A fragment is passed to a handler, which its body knows by `parent`. -/
theorem links_passFragment {fuel : Nat} {ns : List Node} (handler : Bytes) (slot : Slot)
    (hinner : Links z (c.inFunction handler) (body z.env fuel ns) {}) :
    Links z c (passFragment (body z.env fuel) ns handler slot) { passes := [(slot, ns)] } := by
  intro s a t hs h
  obtain ⟨i, s₁, hfragment, hpass⟩ := bind_eq_ok h
  obtain ⟨rfl, v, u, hv, -, hvu, hs₁, hreplay⟩ := run_fragment hfragment
  obtain ⟨w, hw, hright, hmeets⟩ := hinner v () u (Scope.isAt_inFunction hv hs.names _) hvu
  have hcall : WritesOnly (if slot.isDynamic then
        check (slot.call handler (fragmentCode handler s.fragmentCount))
      else emit (slot.call handler (fragmentCode handler s.fragmentCount)))
      (slot.code handler (fragmentCode handler s.fragmentCount)) := by
    unfold Slot.code
    split
    · exact writesOnly_check _
    · exact writesOnly_emit _
  obtain ⟨⟨o, rfl⟩, hdesk⟩ := hcall _ _ _ hpass
  have hpassed : w.passed = [] := List.forall₂_nil_left_iff.mp hmeets.passes
  refine ⟨.fragment s.fragmentCount handler slot w, ?_, ⟨hright.parents, hright.tags, ?_⟩, ?_⟩
  · refine ⟨?_, ?_, ?_, ?_, ?_, ?_, ?_, hw.nodup, ?_⟩
    · rw [hdesk, hreplay _ hw.desk]
      rfl
    · show s.names ⊆ s₁.names
      rw [hs₁.names]
      exact hv.names ▸ hw.names
    · show ∀ x ∈ w.tags, x.IsNamed s₁.names
      rw [hs₁.names]
      exact hw.tags
    · show s₁.place.handlers = s.place.handlers
      rw [hs₁.place]
    · show s₁.place.parent = s.place.parent
      rw [hs₁.place]
    · have := hw.sequence
      have := hv.sequence
      show s.sequence ≤ s₁.sequence
      rw [hs₁.sequence]
      omega
    · -- The number is taken before the body is generated, and the case is written after those
      -- inside.
      show (List.range s.fragmentCount ++ (w.cases ++ [(s.fragmentCount, w)]).map (·.1)).Perm
        (List.range s₁.fragmentCount)
      have hcases := hw.cases
      rw [hv.fragments, List.range_succ] at hcases
      rw [hs₁.fragments, List.map_append]
      refine List.Perm.trans ?_ hcases
      rw [List.append_assoc]
      exact List.perm_append_comm.append_left _
    · intro j hj
      have := hw.methods j hj
      have := hv.sequence
      show s.sequence < j ∧ j ≤ s₁.sequence
      rw [hs₁.sequence]
      omega
  · intro j hj htag
    have hnodes : ((Linked.fragment s.fragmentCount handler slot w).code z.env).nodes =
        (w.code z.env).nodes := by
      have hslot : ∀ value, (slot.code handler value).nodes = [] := by
        intro value
        unfold Slot.code
        split <;> rfl
      simp [Linked.code, Code.nodes, fragmentCase, hslot]
    rw [hnodes] at hj
    exact hright.nodes j hj htag
  · refine ⟨?_, List.nil_subset _⟩
    show List.Forall₂ _ _ (_ :: w.passed)
    rw [hpassed]
    exact .cons ⟨rfl, fuel, v, u, hvu, hw.desk⟩ .nil

end Functions

end Rules

end Generation

end ServerPages
