import ServerPages.Proofs.LinkingSteps
import ServerPages.Proofs.ReachedNodes

/-!
# Visits that hand handlers on

A visit of a node is made at a place in a function, where the name of the handler around stands for
the handler of the nearest tag around the node (`Scope.Suits`). Before the content of a tag is come
to the tag is started, so its handler is known by its variable there, and it is known by `parent` in
the fragment that the content may be. What stands in a named attribute of a tag may be run with any
handler, so nothing is said of it but that it is right again inside the next tag.

A standard action stands where its children do, and so does every node that is no tag. So all that
generation comes to is visited where the name of the handler around stands for the handler, from the
children of a unit on: there it is the unit's own.

## Main results

* `links_startTag`: what follows the start of a tag knows its handler.
* `links_customTag`: an invocation starts its tag and passes its fragments.
* `links_visit`: a visit of a node hands on the handlers around.
* `links_body`: so do all visits in the generation of some nodes, with any depth of tags, methods
  and fragments inside each other.
-/

namespace ServerPages.Generation

/-! ### Places in a tree -/

/-- A tree as generation gets it: the nodes have numbers of their own, only tags take fragments, and
only named attributes give the attributes of tags. -/
structure Site.IsTidy (z : Site) : Prop where
  nodup : z.root.numbers.Nodup
  number : ∀ n ∈ z.root.subtree, n.head.number ≠ 0
  plain : ∀ n ∈ z.root.subtree, n.kind ≠ .customTag →
    ∀ a ∈ n.head.attributes, a.fragment = false
  given : ∀ n ∈ z.root.subtree, ∀ a ∈ n.head.attributes, a.kind = .named →
    ∀ m, n.given a = some m → m.kind = .namedAttribute

/-- A node that is come to where the handler is around: one of the tree, or a leaf made up for a
value. -/
def Site.Comes (z : Site) (around : Option Holder) (n : Node) : Prop :=
  z.Stands around n ∨ n.IsValueLeaf

/-- A node that is no tag: the same handler is around its children, and its attributes take no
fragments. -/
structure Site.Wraps (z : Site) (around : Option Holder) (n : Node) : Prop where
  children : ∀ m ∈ n.children, z.Stands around m
  attributes : ∀ a ∈ n.head.attributes, a.fragment = false

section Places

variable {z : Site} {c : Scope} {around : Option Holder} {n m : Node}

theorem Site.Stands.comes (h : z.Stands around n) : z.Comes around n := .inl h

/-- A number is that of a tag only if its node is one. -/
theorem Site.IsTidy.not_isTag (hz : z.IsTidy) (hn : n ∈ z.root.subtree ∨ n.head.number = 0)
    (hk : n.kind ≠ .customTag) : ¬z.IsTag n.head.number := by
  rintro ⟨m, hm, hkind, hnumber⟩
  rcases hn with hn | hn
  · obtain rfl := List.inj_on_of_nodup_map hz.nodup hm hn hnumber
    exact hk hkind
  · exact hz.number m hm (hnumber.trans hn)

/-- The tree has one handler around each node. -/
theorem Site.Stands.around_eq (h : z.Stands around n) (hz : z.IsTidy) {x : Option Holder}
    (hx : (n.head.number, x) ∈ z.root.parents (some .unit)) : x = around := by
  have hself : (n.head.number, around) ∈ n.parents around := by
    obtain ⟨hd, cs⟩ := n
    exact List.mem_cons_self
  have hnodup : ((z.root.parents (some .unit)).map (·.1)).Nodup := by
    rw [Node.map_fst_parents]
    exact hz.nodup
  exact congrArg Prod.snd (List.inj_on_of_nodup_map hnodup hx (h.parents hself) rfl)

theorem Site.Stands.wraps (h : z.Stands around n) (hz : z.IsTidy) (hk : n.kind ≠ .customTag) :
    z.Wraps around n := by
  refine ⟨fun m hm => ?_, hz.plain n h.mem hk⟩
  have haround : n.head.holderOf around m = around := if_neg hk
  exact haround ▸ h.child hm

theorem Site.Comes.wraps (h : z.Comes around n) (hz : z.IsTidy) (hk : n.kind ≠ .customTag) :
    z.Wraps around n := by
  rcases h with h | h
  · exact h.wraps hz hk
  · refine ⟨?_, ?_⟩
    · rw [h.children]
      exact fun _ hm => absurd hm List.not_mem_nil
    · rw [h.attributes]
      exact fun _ ha => absurd ha List.not_mem_nil

/-- The content of a node stands where its children do that give no attribute. -/
theorem stands_content (hz : z.IsTidy)
    (h : ∀ m ∈ n.children, m.kind ≠ .namedAttribute → z.Stands around m) :
    ∀ m ∈ n.content, z.Stands around m := by
  intro m hm
  unfold Node.content Node.contentOf at hm
  split at hm
  · next b hb =>
    have hkind : b.kind = .body := by simpa using List.find?_some hb
    have hstands := h b (List.mem_of_find?_eq_some hb) (hkind ▸ by decide)
    exact (hstands.wraps hz (hkind ▸ by decide)).children m hm
  · obtain ⟨hm, hkind⟩ := List.mem_filter.mp hm
    exact h m hm (by simpa using hkind)

/-- The content of a tag stands inside the tag. -/
theorem Site.Stands.content (h : z.Stands around n) (hz : z.IsTidy) (hk : n.kind = .customTag) :
    ∀ m ∈ n.content, z.Stands (some (.tag n.head.number)) m := by
  refine stands_content hz fun m hm hnamed => ?_
  have haround : n.head.holderOf around m = some (.tag n.head.number) := by
    rw [Head.holderOf, if_pos (show n.head.kind = .customTag from hk), if_neg hnamed]
  exact haround ▸ h.child hm

/-- Of the content of a named attribute of a tag nothing is known. -/
theorem Site.Stands.given (h : z.Stands around n) (hz : z.IsTidy) (hk : n.kind = .customTag)
    {a : Attribute} (ha : a ∈ n.head.attributes) (hnamed : a.kind = .named)
    (hm : n.given a = some m) : ∀ l ∈ m.children, z.Stands none l := by
  have hkind := hz.given n h.mem a ha hnamed m hm
  have haround : n.head.holderOf around m = none := by
    rw [Head.holderOf, if_pos (show n.head.kind = .customTag from hk), if_pos hkind]
  have hstands := h.child (mem_children_of_bind hm)
  rw [haround] at hstands
  exact (hstands.wraps hz (hkind ▸ by decide)).children

theorem Site.Stands.fragmentNodes (h : z.Stands around n) (hz : z.IsTidy)
    (hk : n.kind = .customTag) {a : Attribute} (ha : a ∈ n.head.attributes) :
    ∀ l ∈ fragmentNodes a (n.given a), z.Comes none l := by
  intro l hl
  unfold Generation.fragmentNodes at hl
  split at hl
  · next m hnamed hm => exact (h.given hz hk ha hnamed hm l hl).comes
  · obtain rfl := List.mem_singleton.mp hl
    exact .inr ⟨⟨rfl, rfl, .inr (.inr rfl)⟩, rfl⟩
  · obtain rfl := List.mem_singleton.mp hl
    exact .inr ⟨⟨rfl, rfl, .inr (.inl rfl)⟩, rfl⟩
  · obtain rfl := List.mem_singleton.mp hl
    exact .inr ⟨⟨rfl, rfl, .inl rfl⟩, rfl⟩

/-! ### Places in a function -/

/-- The name of the handler around stands for the handler. -/
def Scope.Suits (c : Scope) (around : Option Holder) : Prop :=
  ∀ x, around = some x → c.bindings.holder? c.current = some x

/-- A place after the start of a tag. -/
def Scope.enter (c : Scope) (handler : Bytes) (node : Nat) : Scope :=
  { c with bindings := c.bindings.enter handler node }

/-- A place after identifiers were chosen for a node. -/
def Scope.named (c : Scope) (node : Nat) (names : HandlerNames) : Scope :=
  { c with names := (node, names) :: c.names }

theorem Scope.suits_none (c : Scope) : c.Suits none := fun _ h => nomatch h

theorem Scope.Suits.named (h : c.Suits around) (node : Nat) (names : HandlerNames) :
    (c.named node names).Suits around := h

theorem Scope.Suits.inFunction (h : c.Suits around) : (c.inFunction c.current).Suits around := h

/-- A fragment that is passed to the handler of a tag knows it. -/
theorem Scope.suits_fragment (c : Scope) (handler : Bytes) (node : Nat) :
    ((c.enter handler node).inFunction handler).Suits (some (.tag node)) := by
  rintro x ⟨⟩
  exact Bindings.holder?_enter c.bindings handler node

/-- So does what is written inside the tag. -/
theorem Scope.suits_inside (c : Scope) (handler : Bytes) (node : Nat) :
    Scope.Suits { c.enter handler node with current := handler } (some (.tag node)) := by
  rintro x ⟨⟩
  exact Bindings.holder?_enter c.bindings handler node

end Places

/-! ### Values -/

/-- Nested nodes are generated wherever the name of the handler around them stands for it. -/
def LinksInner (z : Site) (fuel : Nat) : Prop :=
  ∀ c around ns, Scope.Suits c around → (∀ n ∈ ns, z.Comes around n) →
    Links z c (body z.env fuel ns) {}

section Visits

variable {z : Site} {c : Scope} {fuel : Nat} {around : Option Holder} {n : Node}

theorem links_capture (hinner : LinksInner z fuel) (hc : c.Suits around)
    (hn : ∀ m ∈ n.children, z.Stands around m) (type : Bytes) :
    Links z c (capture (body z.env fuel) n type) {} := by
  refine links_temporary.before fun v => (links_openBlock _).before fun _ => ?_
  refine (hinner c around _ hc fun m hm => (hn m hm).comes).inBlock.before fun _ => ?_
  refine (links_emit _).before fun _ => (links_closeBlock _).before fun _ => ?_
  refine links_checkErr.before fun _ => .ite (fun _ => .pure _) fun _ => ?_
  exact links_temporary.before fun _ => (links_emit _).before fun _ =>
    links_checkErr.before fun _ => .pure _

/-- A value that is no fragment. -/
theorem links_valueCode (hinner : LinksInner z fuel) (hc : c.Suits around) (handler : Bytes)
    {a : Attribute} (ha : a.fragment = false) {named : Option Node}
    (hnamed : a.kind = .named → ∀ m, named = some m → ∀ l ∈ m.children, z.Stands around l)
    (type : Bytes) : Links z c (valueCode (body z.env fuel) handler a named type) {} := by
  unfold valueCode
  rw [if_neg (by rw [ha]; exact Bool.false_ne_true)]
  cases hk : a.kind with
  | literal =>
    cases literal type a.value a.position with
    | ok code => exact .pure _
    | error e => exact .throw e
  | script => exact .pure _
  | el =>
    refine links_temporary.before fun v => (links_expressionName _).before fun _ => ?_
    exact (links_emit _).before fun _ => links_checkErr.before fun _ => .pure _
  | named =>
    cases named with
    | some m => exact links_capture hinner hc (hnamed hk m rfl) type
    | none => exact .throw _
  | unrecognized code => exact .throw _

/-! ### Names -/

/-- The pool of an invocation, if it has one. -/
def poolOf (env : Env) (h : Head) (t : CustomTag) (d : TagDescriptor) : Bytes :=
  if env.options.poolTagHandlers && d.isClassic then poolName t h.attributes else []

theorem qualified_ok {package name a : Bytes} {s t : State}
    (h : qualified package name s = .ok a t) :
    t.desk = s.desk ∧ t.sequence = s.sequence ∧ t.names = s.names := by
  unfold qualified at h
  split at h
  · cases h
    exact ⟨rfl, rfl, rfl⟩
  · obtain ⟨_, _, hname, h⟩ := bind_eq_ok h
    cases hname
    cases h
    exact ⟨rfl, rfl, rfl⟩

/-- The identifiers of an invocation have the next number and are noted. -/
theorem assignNames_ok {env : Env} {h : Head} {t : CustomTag} {d : TagDescriptor} {s u : State}
    {names : HandlerNames} (hrun : assignNames env h t d s = .ok names u) :
    IsNamed t names (s.sequence + 1) ∧ names.pool = poolOf env h t d ∧ u.desk = s.desk ∧
      u.sequence = s.sequence + 1 ∧ u.names = (h.number, names) :: s.names := by
  have hite : ∀ {p : Prop} [Decidable p] {x y : Gen HandlerNames} {v : State},
      (if p then x else y) v = .ok names u → x v = .ok names u ∨ y v = .ok names u := by
    intro p _ x y v h
    split at h
    · exact .inl h
    · exact .inr h
  obtain ⟨_, _, hnumber, hrun⟩ := bind_eq_ok hrun
  cases hnumber
  obtain ⟨_, _, hget, hrun⟩ := bind_eq_ok hrun
  cases hget
  rcases hite hrun with hrun | hrun
  · obtain ⟨_, _, hpools, hrun⟩ := bind_eq_ok hrun
    cases hpools
    obtain ⟨_, v, htype, hrun⟩ := bind_eq_ok hrun
    obtain ⟨hdesk, hsequence, hnames⟩ := qualified_ok htype
    cases hrun
    exact ⟨⟨rfl, rfl, rfl⟩, rfl, hdesk, hsequence, congrArg (_ :: ·) hnames⟩
  · cases hrun
    exact ⟨⟨rfl, rfl, rfl⟩, rfl, rfl, rfl, rfl⟩

theorem links_assignNames (env : Env) (h : Head) (t : CustomTag) (d : TagDescriptor) :
    Links z c (assignNames env h t d) {} := by
  have hnote : ∀ names, Links z c (do
      modify fun s => { s with names := (h.number, names) :: s.names }
      return names) {} := fun names =>
    Links.before (.share (fun _ => rfl) (fun _ => List.subset_cons_self _ _) (fun _ => ⟨rfl, rfl⟩)
      (fun _ => Nat.le_refl _) fun _ => rfl) fun _ => .pure _
  refine links_nextNumber.before fun k => .get fun s => .ite (fun _ => ?_) fun _ => hnote _
  refine Links.before (.share (fun _ => rfl) (fun _ => List.Subset.refl _) (fun _ => ⟨rfl, rfl⟩)
    (fun _ => Nat.le_refl _) fun _ => rfl) fun _ => ?_
  exact (links_qualified _ _).before fun _ => hnote _

/-- After the identifiers of a tag were chosen, they are known. -/
theorem links_named {env : Env} {h : Head} {t : CustomTag} {d : TagDescriptor} {e : Due}
    {rest : HandlerNames → Gen Unit}
    (hrest : ∀ names, Links z (c.named h.number names) (rest names) e) :
    Links z c (assignNames env h t d >>= rest) e := by
  intro s a u hs hrun
  obtain ⟨names, t', hassign, hrun⟩ := bind_eq_ok hrun
  obtain ⟨v, hv, hright, hmeets⟩ := links_assignNames env h t d s names t' hs hassign
  have hat := hs.next hv
  obtain ⟨-, -, -, -, hnoted⟩ := assignNames_ok hassign
  have hmem : (h.number, names) ∈ t'.names := hnoted ▸ List.mem_cons_self
  obtain ⟨w, hw, hright', hmeets'⟩ := hrest names t' a u ⟨hat.current,
    List.cons_subset.mpr ⟨hmem, hat.names⟩⟩ hrun
  exact ⟨v.seq w, hv.seq hw, hright.seq hright', hmeets.seq hmeets'⟩

/-! ### Tags -/

/-- **What follows the start of a tag knows its handler**, and passes the fragments of the tag. -/
theorem links_startTag (hz : z.IsTidy) (hn : z.Stands around n) (hk : n.kind = .customTag)
    (hc : c.Suits around) {first second handler : Bytes} {rest : Gen Unit}
    (hnamed : ∃ chosen, (n.head.number, chosen) ∈ c.names ∧ chosen.handler = handler)
    (value setContext : Bytes) (hfirst : first = handler ++ " := " ++ value)
    (hsecond : second = handler ++ "." ++ setContext)
    (hrest : Links z (c.enter handler n.head.number) rest { passes := n.passes }) :
    Links z c (do
      emit first
      emit second
      emit (handler ++ ".SetParent(" ++ (← parentHandler) ++ ")")
      rest) { tags := [n.head.number] } := by
  intro s a t hs hrun
  obtain ⟨_, _, h₁, hrun⟩ := bind_eq_ok hrun
  obtain ⟨_, _, h₂, hrun⟩ := bind_eq_ok hrun
  obtain ⟨parent, _, h₃, hrun⟩ := bind_eq_ok hrun
  obtain ⟨_, _, h₄, hrun⟩ := bind_eq_ok hrun
  obtain ⟨⟨o₁, rfl⟩, hd₁⟩ := writesOnly_emit _ _ _ _ h₁
  obtain ⟨⟨o₂, rfl⟩, hd₂⟩ := writesOnly_emit _ _ _ _ h₂
  cases h₃
  obtain ⟨⟨o₃, rfl⟩, hd₃⟩ := writesOnly_emit _ _ _ _ h₄
  obtain ⟨w, hw, hright, hmeets⟩ :=
    hrest (((s.withOut o₁).withOut o₂).withOut o₃) a t ⟨hs.current, hs.names⟩ hrun
  have hstart : ∀ x, (n.head.number, some x) ∈ z.root.parents (some .unit) →
      c.bindings.holder? c.current = some x := fun x hx => hc x (hn.around_eq hz hx).symm
  refine ⟨.tag n.head.number ⟨handler, value, setContext, c.current⟩ w, ?_, ⟨?_, ?_, ?_⟩, ?_⟩
  · refine ⟨?_, hw.names, ?_, hw.handlers, hw.parent, hw.sequence, hw.cases, hw.nodup, hw.methods⟩
    · rw [hw.desk, hd₃, hd₂, hd₁, Linked.code, Code.replay_append, ← hs.current, hfirst, hsecond]
      rfl
    · intro x hx
      rcases List.mem_cons.mp hx with rfl | hx
      · obtain ⟨chosen, hchosen, rfl⟩ := hnamed
        exact ⟨chosen, hw.names (hs.names hchosen), rfl⟩
      · exact hw.tags x hx
  · intro k d hd x hx
    rcases List.mem_cons.mp hd with hd | hd
    · obtain ⟨rfl, rfl⟩ := Prod.mk.inj hd
      exact hstart x hx
    · exact hright.parents k d hd x hx
  · intro x hx
    rcases List.mem_cons.mp hx with rfl | hx
    · exact ⟨n, hn.mem, rfl, hk, hmeets.passes⟩
    · exact hright.tags x hx
  · intro k hk' htag
    rw [Linked.code, Code.nodes_append, Code.nodes_lines, List.nil_append] at hk'
    exact List.mem_cons_of_mem _ (hright.nodes k hk' htag)
  · exact ⟨.nil, List.cons_subset.mpr ⟨List.mem_cons_self, List.nil_subset _⟩⟩

theorem passFragment_attr (inner : Body) (ns : List Node) (handler : Bytes) (a : Attribute) :
    passFragment inner ns handler (.attr a) = (do
      let i ← fragment inner ns
      let value ← pure (fragmentCode handler i)
      if a.setter.dynamic then
        check (handler ++ "." ++ a.setter.method ++ "(" ++ Quoted.string a.uri ++ ", " ++
          Quoted.string a.localName ++ ", " ++ value ++ ")")
      else emit (handler ++ "." ++ a.setter.method ++ "(" ++ value ++ ")")) := by
  cases hdynamic : a.setter.dynamic <;> simp [passFragment, Slot.isDynamic, Slot.call, hdynamic]

theorem links_declareVariables (t : CustomTag) : Links z c (declareVariables t) {} := by
  refine Links.before (.mapM_nil fun v => ?_) fun _ => .pure _
  refine .ite (fun _ => .pure _) fun _ => .get fun s => ?_
  refine .ite (fun _ => .ite (fun _ => ?_) fun _ => .pure _) fun _ => ?_
  · refine .ite (fun _ => (links_emit _).before fun _ => .pure _) fun _ => ?_
    exact (links_emit _).before fun _ => (links_declare _).before fun _ => .pure _
  · refine .ite (fun _ => ?_) fun _ => .pure _
    exact (links_emit _).before fun _ => (links_emit _).before fun _ =>
      (links_declare _).before fun _ => .pure _

theorem links_declareNested (t : CustomTag) : Links z c (declareNested t) {} := by
  refine .forM_nil fun v _ => .get fun s => .ite (fun _ => ?_) fun _ => links_emit _
  exact (links_emit _).before fun _ => (links_emit _).before fun _ => links_declare _

theorem links_syncVariables (t : CustomTag) (scopes : List VariableScope) :
    Links z c (syncVariables t scopes) {} := .forM_nil fun _ _ => links_emit _

theorem links_deferred (env : Env) (d : TagDescriptor) (names : HandlerNames) (buffered : Bool) :
    Links z c (deferred env d names buffered) {} := by
  refine (links_openBlock _).before fun _ => .ite (fun _ => (links_openBlock _).before fun _ =>
    (links_emit _).before fun _ => (links_closeBlock _).before fun _ => ?_) fun _ => ?_
  -- with or without a buffer, the rest is the same
  all_goals
    refine .ite (fun _ => ?_) fun _ => (links_emit _).before fun _ => links_closeBlock _
    exact (links_openBlock _).before fun _ => (links_emit _).before fun _ =>
      (links_closeBlock _).before fun _ => (links_emit _).before fun _ =>
      (links_emit _).before fun _ => links_closeBlock _

section Tag

variable (hinner : LinksInner z fuel) (hz : z.IsTidy) (hn : z.Stands around n)
  (hk : n.kind = .customTag)

include hinner hz hn hk

theorem links_passAttribute (c : Scope) (handler : Bytes) {a : Attribute}
    (ha : a ∈ n.head.attributes) :
    Links z c (passAttribute (body z.env fuel) handler n a) { passes := n.attributePasses a } := by
  refine .ite (fun _ => .throw_bind _ _) fun _ => .ite (fun h => ?_) fun h => ?_
  · have hnone : n.attributePasses a = [] := if_pos h
    rw [hnone]
    exact .pure _
  have hpasses : n.attributePasses a =
      if a.fragment then [(.attr a, fragmentNodes a (n.given a))] else [] := if_neg h
  rw [hpasses]
  cases hf : a.fragment with
  | true =>
    have hpass := links_passFragment (z := z) (c := c) handler (.attr a)
      (hinner (c.inFunction handler) none _ (Scope.suits_none _) (hn.fragmentNodes hz hk ha))
    rw [if_pos rfl]
    unfold valueCode
    rw [if_pos hf, bind_assoc]
    rw [passFragment_attr] at hpass
    exact hpass
  | false =>
    rw [if_neg Bool.false_ne_true]
    refine (links_valueCode hinner c.suits_none handler hf (fun hnamed m hm => ?_) _).before
      fun value => .ite (fun _ => links_check _) fun _ => links_emit _
    exact hn.given hz hk ha hnamed hm

theorem links_passAttributes (c : Scope) (handler : Bytes) :
    Links z c (passAttributes (body z.env fuel) handler n)
      { passes := n.head.attributes.flatMap n.attributePasses } :=
  .forM fun _ ha => links_passAttribute hinner hz hn hk c handler ha

theorem links_bodyRound (hc : c.Suits (some (.tag n.head.number))) (t : CustomTag)
    (names : HandlerNames) (repeated : Bool) :
    Links z c (bodyRound (body z.env fuel) t names repeated n) {} := by
  refine (links_declareNested t).before fun _ => (links_syncVariables t _).before fun _ => ?_
  refine (hinner c _ _ hc fun m hm => (hn.content hz hk m hm).comes).before fun _ =>
    .ite (fun _ => ?_) fun _ => .pure _
  exact (links_emit _).before fun _ => links_checkErr.before fun _ =>
    (links_openBlock _).before fun _ => (links_emit _).before fun _ => links_closeBlock _

theorem links_classicBody (hc : c.Suits (some (.tag n.head.number))) (t : CustomTag)
    (names : HandlerNames) (plan : BodyPlan) :
    Links z c (classicBody (body z.env fuel) t names plan n) {} := by
  refine (links_openBlock _).before fun _ => Links.before (.inBlock ?_) fun _ =>
    links_closeBlock _
  refine .ite (fun _ => (links_openBlock _).before fun _ => (links_emit _).before fun _ =>
    (links_emit _).before fun _ => (links_check _).before fun _ =>
    (links_closeBlock _).before fun _ => ?_) fun _ => ?_
  all_goals
    refine .ite (fun _ => (links_openBlock _).before fun _ =>
      (links_bodyRound hinner hz hn hk hc t names true).inBlock.before fun _ =>
      (links_closeBlock _).before fun _ => ?_)
      fun _ => (links_bodyRound hinner hz hn hk hc t names false).before fun _ => ?_
    all_goals
      refine .ite (fun _ => ?_) fun _ => .pure _
      exact (links_openBlock _).before fun _ => (links_emit _).before fun _ =>
        (links_emit _).before fun _ => links_closeBlock _

theorem links_classicCalls (hc : c.Suits (some (.tag n.head.number))) (t : CustomTag)
    (names : HandlerNames) (plan : BodyPlan) :
    Links z c (classicCalls (body z.env fuel) t names plan n) {} := by
  refine (links_emit _).before fun _ => links_checkErr.before fun _ => ?_
  refine (links_syncVariables t _).before fun _ => .ite
    (fun _ => (links_classicBody hinner hz hn hk hc t names plan).before fun _ => ?_) fun _ => ?_
  all_goals
    refine (links_emit _).before fun _ => links_checkErr.before fun _ => ?_
    refine (links_syncVariables t _).before fun _ => (links_openBlock _).before fun _ => ?_
    exact (links_emit _).before fun _ => (links_closeBlock _).before fun _ => links_emit _

variable (hc : c.Suits around)

include hc

theorem links_classic (t : CustomTag) {d : TagDescriptor} (hd : n.head.descriptor? = some d)
    (hclassic : d.isClassic = true) {names : HandlerNames}
    (hnames : (n.head.number, names) ∈ c.names) :
    Links z c (classic z.env (body z.env fuel) t d names n) { tags := [n.head.number] } := by
  have hpasses : n.passes = n.head.attributes.flatMap n.attributePasses := by
    simp [Node.passes, hd, Node.bodyPasses, hclassic]
  refine (links_qualified _ _).before fun type => ?_
  have hfirst : ∃ value, (if names.pool != [] then
        names.handler ++ " := " ++ z.env.receiver ++ "." ++ names.pool ++
          ".Get(func() rt.Tag \x7b return &" ++ type ++ "\x7b\x7d \x7d).(*" ++ type ++ ")"
      else names.handler ++ " := &" ++ type ++ "\x7b\x7d") =
      names.handler ++ " := " ++ value := by
    split
    · exact ⟨z.env.receiver ++ "." ++ names.pool ++
        ".Get(func() rt.Tag \x7b return &" ++ type ++ "\x7b\x7d \x7d).(*" ++ type ++ ")",
        by simp only [List.append_assoc]⟩
    · exact ⟨"&" ++ type ++ "\x7b\x7d", by simp only [List.append_assoc]; rfl⟩
  obtain ⟨value, hvalue⟩ := hfirst
  refine links_startTag hz hn hk hc ⟨names, hnames, rfl⟩ value "SetPageContext(pc)" hvalue ?_ ?_
  · rw [List.append_assoc]
    rfl
  rw [hpasses]
  refine .guard (links_emit _) fun _ => (links_deferred _ _ _ _).before fun _ => ?_
  refine (links_passAttributes hinner hz hn hk _ _).after fun _ => .insideTag ?_
  exact links_classicCalls hinner hz hn hk (c.suits_inside _ _) t names _

theorem links_simple (t : CustomTag) {d : TagDescriptor} (hd : n.head.descriptor? = some d)
    (hsimple : d.isClassic = false) {names : HandlerNames}
    (hnames : (n.head.number, names) ∈ c.names) :
    Links z c (simple (body z.env fuel) t d names n) { tags := [n.head.number] } := by
  have hpasses : n.passes = n.head.attributes.flatMap n.attributePasses ++ n.bodyPasses d := by
    simp [Node.passes, hd]
  have hbodyPasses : n.bodyPasses d =
      if d.body != .empty && !n.hasEmptyBody then [(.body, n.content)] else [] := by
    simp [Node.bodyPasses, hsimple]
  refine (links_qualified _ _).before fun type => ?_
  refine links_startTag hz hn hk hc ⟨names, hnames, rfl⟩ ("&" ++ type ++ "\x7b\x7d")
    "SetJspContext(pc)" ?_ ?_ ?_
  · simp only [List.append_assoc]
    rfl
  · rw [List.append_assoc]
    rfl
  rw [hpasses]
  refine Links.bind (e := { passes := n.bodyPasses d })
    (links_passAttributes hinner hz hn hk _ _) fun _ => ?_
  have hend : Links z (c.enter names.handler n.head.number) (do
      check (names.handler ++ ".DoTag()")
      syncVariables t [.atBegin, .atEnd]
      emit "return nil") {} :=
    (links_check _).before fun _ => (links_syncVariables t _).before fun _ => links_emit _
  rw [hbodyPasses]
  by_cases hbody : (d.body != .empty && !n.hasEmptyBody) = true
  · rw [if_pos hbody, if_pos hbody]
    have hpass := links_passFragment (z := z) names.handler .body (hinner
      ((c.enter names.handler n.head.number).inFunction names.handler) _ _
      (c.suits_fragment names.handler n.head.number)
      fun m hm => (hn.content hz hk m hm).comes)
    have hpass := hpass.after fun _ => hend
    unfold passFragment at hpass
    rw [bind_assoc] at hpass
    exact hpass
  · rw [if_neg hbody, if_neg hbody]
    exact hend

/-- **An invocation starts its tag and passes its fragments.** -/
theorem links_customTag : Links z c (customTag z.env (body z.env fuel) n)
    { tags := [n.head.number] } := by
  have hmem : z.IsTag n.head.number → n.head.number ∈ [n.head.number] :=
    fun _ => List.mem_cons_self
  have hinvocation : ∀ (c : Scope), c.Suits around → ∀ t d names, n.head.descriptor? = some d →
      (n.head.number, names) ∈ c.names →
      Links z c (invocation z.env (body z.env fuel) t d names n) { tags := [n.head.number] } :=
    fun c hc t d names hd hnames => .ite
      (fun hclassic => links_classic hinner hz hn hk hc t hd hclassic hnames)
      fun hsimple => links_simple hinner hz hn hk hc t hd (Bool.not_eq_true _ ▸ hsimple) hnames
  unfold customTag
  dsimp only
  split
  · next t d ht hd =>
    refine links_named fun names => .ite (fun _ => ?_) fun _ => ?_
    · refine links_hoisted hmem ?_
      exact hinvocation _ (hc.named _ names).inFunction t d names hd List.mem_cons_self
    · refine .marking hmem ((links_declareVariables t).before fun saved => ?_)
      refine (links_openBlock _).before fun _ => ?_
      refine (hinvocation _ (hc.named _ names) t d names hd List.mem_cons_self).inBlock.after
        fun _ => ?_
      exact links_outdent.before fun _ => (links_returning _).before fun _ => links_emitAll _
  · exact .throw _

end Tag

theorem visit_customTag (env : Env) (inner : Body) {n : Node} (hk : n.kind = .customTag) :
    visit env inner n = customTag env inner n := by
  unfold visit
  dsimp only
  rw [show n.head.kind = .customTag from hk]

/-! ### Leaves -/

theorem links_invoke : Links z c (invoke z.env n) {} := by
  unfold invoke
  cases z.env.page.tag with
  | none => exact .throw _
  | some tag => exact .guard (links_emit _) fun _ => links_check _

theorem links_text (hk : ¬z.IsTag n.head.number) :
    Links z c (text z.env n.head.number n.text) {} := by
  refine .ite (fun _ => .pure _) fun _ => .marking (fun h => absurd h hk) (.forM_nil fun _ _ => ?_)
  refine .ite (fun _ => ?_) fun _ => ?_
  · exact (links_textConstant _).before fun _ => links_emit _
  · exact Links.before (.pure _) fun _ => links_emit _

theorem links_declaration {k : Nat} (hk : ¬z.IsTag k) (code : Bytes) :
    Links z c (declaration k code) {} := by
  rintro s a t hs ⟨⟩
  refine ⟨.declaration k (declarationLines code), .of_plain rfl (List.Subset.refl _) rfl rfl rfl
    (Nat.le_refl _) rfl rfl rfl, ⟨?_, ?_, ?_⟩, .of_passed rfl⟩
  · exact fun _ _ h => absurd h List.not_mem_nil
  · exact fun _ h => absurd h List.not_mem_nil
  · intro j hj htag
    obtain rfl := List.mem_singleton.mp hj
    exact absurd htag hk

section Nested

variable (hinner : LinksInner z fuel) (hz : z.IsTidy) (hc : c.Suits around)

include hinner hz hc

/-! ### Standard actions -/

theorem links_actionValue (hn : z.Wraps around n) (name type : Bytes) :
    Links z c (actionValue (body z.env fuel) n name type) {} := by
  unfold actionValue
  cases ha : n.head.attr? name with
  | some a =>
    exact links_valueCode hinner hc [] (hn.attributes a (List.mem_of_find?_eq_some ha))
      (fun _ _ h => by cases h) type
  | none =>
    cases hm : n.children.find? (·.givesAttribute name) with
    | none => exact .pure _
    | some m =>
      have hstands := hn.children m (List.mem_of_find?_eq_some hm)
      have hkind : m.kind = .namedAttribute := by
        have hgives := List.find?_some hm
        exact eq_of_beq (Bool.and_eq_true_iff.mp hgives).1
      refine links_valueCode hinner hc [] rfl (fun _ l hl => ?_) type
      obtain rfl := Option.some.inj hl
      exact (hstands.wraps hz (hkind ▸ by decide)).children

theorem links_paramEntries {ns : List Node} (hns : ∀ m ∈ ns, z.Stands around m) :
    Links z c (paramEntries (body z.env fuel) ns) {} := by
  induction ns with
  | nil => exact .pure _
  | cons m ns ih =>
    have ih := ih fun l hl => hns l (List.mem_cons_of_mem _ hl)
    refine .ite (fun _ => ih) fun hk => ?_
    have hkind : m.kind = .param := by simpa using hk
    have hm := (hns m List.mem_cons_self).wraps hz (hkind ▸ by decide)
    refine (links_actionValue hinner hz hc hm _ _).before fun name => ?_
    refine (links_actionValue hinner hz hc hm _ _).before fun value => ?_
    exact ih.before fun _ => .pure _

theorem links_params {ns : List Node} (hns : ∀ m ∈ ns, z.Stands around m) :
    Links z c (params (body z.env fuel) ns) {} :=
  (links_paramEntries hinner hz hc hns).before fun _ => .pure _

omit hz in
theorem links_pluginEntries {as : List Attribute} (has : ∀ a ∈ as, a.fragment = false) :
    Links z c (pluginEntries (body z.env fuel) as) {} := by
  induction as with
  | nil => exact .pure _
  | cons a as ih =>
    have ha := has a List.mem_cons_self
    refine (links_valueCode hinner hc [] ha (fun _ _ h => by cases h) _).before fun v => ?_
    exact (ih fun b hb => has b (List.mem_cons_of_mem a hb)).before fun _ => .pure _

theorem links_pluginParams {ns : List Node} (hns : ∀ m ∈ ns, z.Stands around m) (found : Bytes) :
    Links z c (pluginParams (body z.env fuel) found ns) {} := by
  induction ns generalizing found with
  | nil => exact .pure _
  | cons m ns ih =>
    have ih := ih fun l hl => hns l (List.mem_cons_of_mem _ hl)
    refine .ite (fun hk => ?_) fun _ => ih found
    have hkind : m.kind = .params := eq_of_beq hk
    have hm := (hns m List.mem_cons_self).wraps hz (hkind ▸ by decide)
    exact (links_params hinner hz hc hm.children).before fun _ => ih _

theorem links_plugin (hn : z.Wraps around n) : Links z c (plugin (body z.env fuel) n) {} := by
  refine (links_pluginEntries hinner hc hn.attributes).before fun entries => ?_
  refine (links_pluginParams hinner hz hc hn.children _).before fun params => ?_
  refine (links_openBlock _).before fun _ => (links_emit _).before fun _ => ?_
  refine (links_emit _).before fun _ => (links_emit _).before fun _ => ?_
  exact links_outdent.before fun _ => links_returning _

theorem links_useBean (hn : z.Wraps around n) : Links z c (useBean (body z.env fuel) n) {} := by
  refine Links.before ?_ fun constructor => .get fun s => ?_
  · refine .ite (fun _ => ?_) fun _ => .ite (fun _ => .pure _) fun _ => .pure _
    exact (links_actionValue hinner hz hc hn _ _).before fun _ => .pure _
  refine .ite (fun _ => (links_emit _).before fun _ => (links_emit _).before fun _ =>
    (links_declare _).before fun _ => ?_) fun _ => ?_
  all_goals
    refine links_temporary.before fun v => (links_openBlock _).before fun _ => ?_
    refine (links_emit _).before fun _ => links_checkErr.before fun _ => ?_
    refine (links_emit _).before fun _ => .ite (fun _ => ?_) fun _ => links_closeBlock _
    have hcontent := stands_content hz fun m hm _ => hn.children m hm
    refine (links_openBlock _).before fun _ => ?_
    refine (hinner c _ _ hc fun m hm => (hcontent m hm).comes).inBlock.before fun _ => ?_
    exact (links_closeBlock _).before fun _ => links_closeBlock _

theorem links_setProperty (hn : z.Wraps around n) :
    Links z c (setProperty (body z.env fuel) n) {} := by
  refine .ite (fun _ => links_check _) fun _ => .ite (fun _ => ?_) fun _ => links_check _
  exact (links_actionValue hinner hz hc hn _ _).before fun _ => links_check _

theorem links_action (hk : ¬z.IsTag n.head.number) (hn : z.Wraps around n) :
    Links z c (action z.env (body z.env fuel) n) {} := by
  have hpage := links_actionValue hinner hz hc hn "page" "string"
  have hparams := links_params hinner hz hc hn.children
  refine .marking (fun h => absurd h hk) ?_
  cases n.kind with
  | includeAction => exact hpage.before fun _ => hparams.before fun _ => links_check _
  | forwardAction =>
    exact hpage.before fun _ => hparams.before fun _ => (links_check _).before fun _ =>
      links_emit _
  | useBean => exact links_useBean hinner hz hc hn
  | getProperty => exact links_check _
  | setProperty => exact links_setProperty hinner hz hc hn
  | plugin => exact links_plugin hinner hz hc hn
  | _ => exact links_invoke

/-! ### Visits -/

/-- **A visit of a node hands on the handlers around.** -/
theorem links_visit (hn : z.Comes around n) : Links z c (visit z.env (body z.env fuel) n) {} := by
  by_cases hk : n.kind = .customTag
  · rw [visit_customTag _ _ hk]
    rcases hn with hn | hn
    · intro s a t hs hrun
      obtain ⟨w, hw, hright, hmeets⟩ := links_customTag hinner hz hn hk hc s a t hs hrun
      exact ⟨w, hw, hright, hmeets.passes, List.nil_subset _⟩
    · rcases hn.kind with h | h | h <;> rw [h] at hk <;> cases hk
  have hnumber := hz.not_isTag (hn.imp (·.mem) (·.number)) hk
  have hwraps := hn.wraps hz hk
  have hchildren : Links z c (body z.env fuel n.children) {} :=
    hinner c around _ hc fun m hm => (hwraps.children m hm).comes
  have hmark : ∀ {x : Gen Unit}, Links z c x {} → Links z c (marking n.head.number x) {} :=
    fun hx => hx.marking fun h => absurd h hnumber
  have haction := links_action hinner hz hc hnumber hwraps
  unfold visit
  dsimp only
  rw [show n.head.kind = n.kind from rfl]
  cases hkind : n.kind with
  | root => exact .throw _
  | text => exact links_text hnumber
  | textAction | body | includeDirective => exact hchildren
  | customTag => exact absurd hkind hk
  | declaration => exact links_declaration hnumber _
  | scriptlet => exact hmark (links_emitAll _)
  | expression => exact hmark (links_emit _)
  | elExpression => exact hmark ((links_expressionName _).before fun _ => links_check _)
  | includeAction | forwardAction | useBean | getProperty | setProperty | plugin | invokeAction
  | doBodyAction => exact haction
  | _ => exact .pure _

end Nested

end Visits

/-- **All visits in the generation of nodes hand on the handlers around them.** -/
theorem links_body {z : Site} (hz : z.IsTidy) (fuel : Nat) : LinksInner z fuel := by
  induction fuel with
  | zero => exact fun _ _ _ _ _ => .throw _
  | succ fuel ih =>
    -- Nested nodes are generated with less fuel, at whatever place they come to stand.
    intro c around ns hc hns
    exact .forM_nil fun n hn => links_visit ih hz hc (hns n hn)

/-- The place in which the body of a unit is generated. -/
def Scope.ofUnit (env : Env) : Scope where
  bindings := .ofUnit env
  current := (start env).place.parent

theorem Scope.suits_ofUnit (env : Env) : (Scope.ofUnit env).Suits (some .unit) := by
  rintro x ⟨⟩
  exact Bindings.holder?_ofUnit env

end ServerPages.Generation
