import ServerPages.Proofs.NodeCode

/-!
# The code of attribute values

Values of attributes are computed before they are used, by statements that set variables which are
needed once. Nodes that give a value are generated inside a function or a fragment.

Nested nodes are generated by a function that is a parameter here (`WritesInner`), once by the
generator and once by a function that does the same.

## Main results

* `writes_valueCode`: what is written for the value of an attribute.
-/

namespace ServerPages

/-- A leaf made up for the value of an attribute, which has no number. -/
structure Node.IsMadeUp (n : Node) : Prop where
  number : n.head.number = 0
  children : n.children = []
  kind : n.kind = .text ∨ n.kind = .expression ∨ n.kind = .elExpression

namespace Generation

/-- A node of the tree with so many tags around it. -/
structure Site.Holds (z : Site) (level : Nat) (n : Node) : Prop where
  mem : n ∈ z.root.subtree
  prepared : n.IsPrepared level

/-- A node that may be generated where so many tags are around: one of the tree, or a leaf made
up. -/
def Site.Visits (z : Site) (level : Nat) (n : Node) : Prop := z.Holds level n ∨ n.IsMadeUp

section Nodes

variable {z : Site} {level : Nat}

theorem Site.Holds.child {n c : Node} (h : z.Holds level n) (hc : c ∈ n.children) :
    z.Holds (n.head.innerLevel level) c := by
  obtain ⟨hmem, hprepared⟩ := h
  obtain ⟨names, nesting, children⟩ := hprepared
  exact ⟨Node.mem_subtree_trans hmem (Node.mem_subtree_of_child hc c.mem_subtree_self),
    children c hc⟩

theorem Site.Holds.child_of_ne {n c : Node} (h : z.Holds level n) (hk : n.kind ≠ .customTag)
    (hc : c ∈ n.children) : z.Holds level c := by
  have hlevel : n.head.innerLevel level = level := if_neg hk
  exact hlevel ▸ h.child hc

/-- The body proper consists of nodes of the tree with as many tags around them as the children. -/
theorem holds_contentOf {ns : List Node} (h : ∀ n ∈ ns, z.Holds level n) :
    ∀ n ∈ Node.contentOf ns, z.Holds level n := by
  intro n hn
  unfold Node.contentOf at hn
  split at hn
  · next b hb =>
    have hbody : b.kind = .body := by simpa using List.find?_some hb
    exact (h b (List.mem_of_find?_eq_some hb)).child_of_ne (by rw [hbody]; decide) hn
  · exact h n (List.mem_of_mem_filter hn)

theorem weight_cons (n : Node) (ns : List Node) (k : Nat) :
    weight (n :: ns) k = n.numbers.count k + weight ns k := by
  rw [weight, Node.numbersAll_cons, List.count_append, weight]

theorem weight_children_le (n : Node) (k : Nat) : weight n.children k ≤ n.numbers.count k := by
  rw [Node.numbers_eq, List.count_cons, weight]
  omega

theorem weight_filter_le (p : Node → Bool) (ns : List Node) (k : Nat) :
    weight (ns.filter p) k ≤ weight ns k := by
  induction ns with
  | nil => exact Nat.le_refl _
  | cons n ns ih =>
    rw [List.filter_cons, weight_cons]
    split
    · rw [weight_cons]
      omega
    · omega

/-- Two kinds of nodes are apart. -/
theorem weight_filter_add_le {p q : Node → Bool} (h : ∀ n, p n = true → q n = false)
    (ns : List Node) (k : Nat) :
    weight (ns.filter p) k + weight (ns.filter q) k ≤ weight ns k := by
  induction ns with
  | nil => exact Nat.le_refl _
  | cons n ns ih =>
    rw [weight_cons, List.filter_cons, List.filter_cons]
    cases hp : p n with
    | true =>
      rw [h n hp, if_pos rfl, if_neg Bool.false_ne_true, weight_cons]
      omega
    | false =>
      rw [if_neg Bool.false_ne_true]
      split
      · rw [weight_cons]
        omega
      · omega

theorem weight_of_mem {n : Node} {ns : List Node} (h : n ∈ ns) (k : Nat) :
    n.numbers.count k ≤ weight ns k := by
  induction ns with
  | nil => exact absurd h List.not_mem_nil
  | cons m ns ih =>
    rw [weight_cons]
    rcases List.mem_cons.mp h with rfl | h
    · omega
    · have := ih h
      omega

theorem weight_contentOf_le (ns : List Node) (k : Nat) :
    weight (Node.contentOf ns) k ≤ weight (ns.filter (·.kind != .namedAttribute)) k := by
  unfold Node.contentOf
  split
  · next b hb =>
    have hbody : b.kind = .body := by simpa using List.find?_some hb
    have hmem : b ∈ ns.filter (·.kind != .namedAttribute) :=
      List.mem_filter.mpr ⟨List.mem_of_find?_eq_some hb, by rw [hbody]; rfl⟩
    exact Nat.le_trans (weight_children_le b k) (weight_of_mem hmem k)
  · exact Nat.le_refl _

end Nodes

/-- What is asked of a function that generates the nodes where so many tags are around, and of its
companion. -/
def WritesInner (z : Site) (level : Nat) (inner inner' : Body) : Prop :=
  ∀ ns, (∀ n ∈ ns, z.Visits level n) → ∀ s : State, level ≤ s.sequence →
    Writes (inner ns) (inner' ns) s fun _ t c => IsBody z level (weight ns) t c

/-- The step computes a value that satisfies `A`. -/
def Computing {α : Type} (z : Site) (level : Nat) (w : Nat → Nat) (x y : Gen α) (s : State)
    (A : α → Prop) : Prop :=
  Writes x y s fun a t c => A a ∧ Computes z level w t c

section Computing

variable {α β : Type} {z : Site} {level : Nat} {w w' : Nat → Nat} {s : State} {A : α → Prop}
  {B : β → Prop}

theorem Computing.pure {a : α} (h : A a) :
    Computing z level w (Pure.pure a : Gen α) (Pure.pure a) s A := Writes.pure ⟨h, .nil⟩

/-- One step after another; nodes have parts in both. -/
theorem Computing.seq {u v : Nat → Nat} {x y : Gen α} {f g : α → Gen β}
    (hx : Computing z level u x y s A)
    (hf : ∀ a t, s.Later t → A a → Computing z level v (f a) (g a) t B)
    (hw : ∀ k, k ≠ 0 → u k + v k ≤ w k) : Computing z level w (x >>= f) (y >>= g) s B := by
  refine Writes.bind hx fun a t c hst ha => (hf a t hst ha.1).mono fun b t' d htt hb => ?_
  exact ⟨hb.1, ((ha.2.mono htt fun _ _ => Nat.le_refl _).append hb.2).mono (.refl t') hw⟩

/-- A value is made of the one that was computed. -/
theorem Computing.map {x y : Gen α} (h : α → β) (hx : Computing z level w x y s fun _ => True) :
    Computing z level w (x >>= fun a => Pure.pure (h a)) (y >>= fun a => Pure.pure (h a)) s
      fun _ => True :=
  hx.seq (v := fun _ => 0) (fun _ _ _ _ => .pure trivial) fun _ _ => Nat.le_refl _

theorem Computing.mono {x y : Gen α} {A' : α → Prop} (hx : Computing z level w x y s A)
    (hw : ∀ k, k ≠ 0 → w k ≤ w' k) (h : ∀ a, A a → A' a) : Computing z level w' x y s A' :=
  Writes.mono hx fun a t _ _ ha => ⟨h a ha.1, ha.2.mono (.refl t) hw⟩

end Computing

/-- The part of a node: its code is that of the node, and only nodes below it have parts inside. -/
theorem isBody_part {z : Site} {level : Nat} {n : Node} (hn : z.Visits level n) {t : State}
    {c : Code} (hfits : Fits z level t c) (hleads : c.Leads)
    (hwithin : c.Within (weight n.children))
    (hcode : IsCodeOf z.env t n c) :
    IsBody z level (fun k => n.numbers.count k) t (.part n.head.number c .nil) := by
  refine ⟨fits_part.mpr ⟨?_, hfits, fits_nil⟩, trivial, ?_⟩
  · intro hk
    rcases hn with hn | hn
    · exact ⟨n, hn.mem, rfl, hleads, hwithin, hcode⟩
    · exact absurd hn.number hk
  · intro k hk
    have h1 := hwithin k hk
    unfold weight at h1
    simp only [Node.numbers_eq n, Code.nodes, List.append_nil, List.count_cons]
    omega

/-! ### Shared parts -/

section Shared

variable {s : State} {z : Site}

theorem writes_temporary : Writes temporary temporary s fun v _ c =>
    (∃ i, v = "_v" ++ Bytes.ofNat i) ∧ c = .nil := by
  refine Writes.bind (Q := fun _ _ c => c = .nil) (.modifyGet ?_ rfl rfl) ?_
  · exact ⟨Nat.le_succ _, List.prefix_rfl, List.prefix_rfl⟩
  · rintro i t _ - rfl
    exact .pure ⟨⟨i, rfl⟩, rfl⟩

theorem writes_expressionName (source : Bytes) :
    Writes (expressionName source) (expressionName source) s fun e t c =>
      (∃ i, e = "_el" ++ Bytes.ofNat i ∧ t.expressions[i]? = some source) ∧ c = .nil := by
  cases h : s.expressions.findIdx? (· == source) with
  | some i =>
    obtain ⟨hlt, hi, -⟩ := List.findIdx?_eq_some_iff_getElem.mp h
    have hfound : s.expressions[i]? = some source := by
      rw [List.getElem?_eq_getElem hlt, eq_of_beq hi]
    refine .modifyGet ?_ ?_ ?_ <;> simp only [h]
    · exact .refl s
    · exact ⟨⟨i, rfl, hfound⟩, trivial⟩
  | none =>
    refine .modifyGet ?_ ?_ ?_ <;> simp only [h]
    · exact ⟨Nat.le_refl _, List.prefix_rfl, List.prefix_append _ _⟩
    · rfl
    · exact ⟨⟨_, rfl, by simp⟩, trivial⟩

theorem writes_qualified (package name : Bytes) :
    Writes (qualified package name) (qualified package name) s fun _ t c =>
      t.place = s.place ∧ c = .nil := by
  unfold qualified
  refine .ite (fun _ => .pure ⟨rfl, rfl⟩) fun _ => ?_
  refine Writes.bind (Q := fun _ t c => t.place = s.place ∧ c = .nil)
    (.modifyGet ?_ rfl ⟨rfl, rfl⟩) ?_
  · exact ⟨Nat.le_refl _, List.prefix_rfl, List.prefix_rfl⟩
  · rintro i t _ - ⟨ht, rfl⟩
    exact .pure ⟨ht, rfl⟩

end Shared

/-! ### Values -/

section Values

variable {z : Site} {level : Nat} {inner inner' : Body} {s : State}

theorem weight_madeUp {n : Node} (h : n.IsMadeUp) {k : Nat} (hk : k ≠ 0) : weight [n] k = 0 := by
  have hzero : ¬ (0 : Nat) = k := fun he => hk he.symm
  rw [weight, Node.numbersAll_cons, Node.numbers_eq, h.children, h.number]
  simp [hzero]

theorem fits_fragmentCase {t : State} (id : Nat) {c : Code} (hc : Fits z level t c) :
    Fits z level t (fragmentCase id c) := by
  have hcase : z.IsOwn level (.control ("case " ++ (Bytes.ofNat id ++ ":"))) :=
    Site.own_control (w := "case ") (by decide) (Bytes.ofNat id ++ ":")
  have hreturn : z.IsOwn level (.control "return nil") := own_return "nil"
  simp [fragmentCase, hcase, hreturn, hc]

theorem nodes_fragmentCase (id : Nat) (c : Code) : (fragmentCase id c).nodes = c.nodes := by
  simp [fragmentCase, Code.nodes]

/-- A fragment is written elsewhere. -/
theorem writes_fragment (hinner : WritesInner z level inner inner') {ns : List Node}
    (hns : ∀ n ∈ ns, z.Visits level n) (hs : level ≤ s.sequence) :
    Computing z level (weight ns) (fragment inner ns) (fragment inner' ns) s fun _ => True := by
  refine .fragment (fun t ht => hinner ns hns t (Nat.le_trans hs ht.sequence))
    fun u t id c hut hc => ⟨trivial, ?_⟩
  refine ⟨?_, trivial, trivial, ?_⟩
  · exact fits_fragment.mpr ⟨fits_fragmentCase id (hc.fits.mono hut), fits_nil⟩
  · intro k hk
    have := hc.within k hk
    simpa [Code.nodes, nodes_fragmentCase] using this

/-- Code inside a block of its own is that of what is inside. -/
theorem IsBody.inBlock {x y : Gen Unit} {w : Nat → Nat}
    (hx : ∀ t, s.Later t → Writes x y t fun _ u c => IsBody z level w u c) :
    Writes (inBlock x) (inBlock y) s fun _ u c => IsBody z level w u c :=
  .inBlock hx fun _ _ _ hut hc => hc.mono hut fun _ _ => Nat.le_refl _

theorem computes_checkErr {w : Nat → Nat} {t : State} {c : Code} (hc : Computes z level w t c) :
    Computes z level w t (Code.checkErr ++ c) := by
  refine ⟨?_, ?_, trivial, ?_⟩
  · simp [hc.fits]
  · exact (Code.surface_append _ _).mpr ⟨⟨.control _, .control _, .control _, trivial⟩, hc.surface⟩
  · simpa [Code.Within] using hc.within

/-- A value is computed by a call whose error is checked. -/
theorem computes_value {w : Nat → Nat} {t : State} (i : Nat) (value : Bytes) {c : Code}
    (hc : Computes z level w t c) : Computes z level w t
      (.line (.define ["_v" ++ Bytes.ofNat i, "err"] value) (Code.checkErr ++ c)) := by
  have hrest := computes_checkErr hc
  refine ⟨?_, ⟨.value i value, hrest.surface⟩, trivial, hrest.within⟩
  exact fits_line.mpr ⟨Site.own_temporary i value, hrest.fits⟩

/-- A named attribute is evaluated into a variable. -/
theorem writes_capture (hinner : WritesInner z level inner inner') {n : Node} (type : Bytes)
    (hn : ∀ c ∈ n.children, z.Visits level c) (hs : level ≤ s.sequence) :
    Computing z level (weight n.children) (capture inner n type) (capture inner' n type) s
      fun _ => True := by
  unfold capture
  refine Writes.bind writes_temporary ?_
  rintro _ t₁ _ h₁ ⟨⟨i, rfl⟩, rfl⟩
  let call : Bytes := "rt.Capture(pc, " ++ (Bytes.ofBool n.head.trim ++ ", func() error \x7b")
  refine .openBlock_bind (.define ["_v" ++ Bytes.ofNat i, "err"] call) ?_ fun t₂ h₂ => ?_
  · simp [Statement.text, Statement.defines, Statement.listed, call]
    rfl
  have hbody : Writes (inBlock (inner n.children)) (inBlock (inner' n.children)) t₂ fun _ u c =>
      IsBody z level (weight n.children) u c := by
    refine IsBody.inBlock fun t ht => hinner n.children hn t ?_
    exact Nat.le_trans hs ((h₁.trans h₂).trans ht).sequence
  refine Writes.bind hbody fun _ t₃ c h₃ hc => ?_
  refine .emit_bind (.control "return nil") rfl fun t₄ h₄ => ?_
  refine .closeBlock_bind fun t₅ h₅ => ?_
  refine .returning_bind fun t₆ h₆ => ?_
  -- What follows the function is computed after it.
  have hafter : ∀ u d, t₆.Later u → Computes z level (fun _ => 0) u d →
      Computes z level (weight n.children) u (.nil ++
        .line (.define ["_v" ++ Bytes.ofNat i, "err"] call)
        (.indent (c ++ .line (.control "return nil") (.outdent (.line (.control "\x7d)")
          (Code.checkErr ++ d)))))) := by
    intro u d hu hd
    have hrest := computes_checkErr hd
    have hcu := hc.mono (((h₄.trans h₅).trans h₆).trans hu) fun _ _ => Nat.le_refl _
    have hreturn : z.IsOwn level (.control "return nil") := own_return "nil"
    have hclose : z.IsOwn level (.control "\x7d)") := Site.own_control (w := "\x7d") (by decide) ")"
    have hdefine : z.IsOwn level (.define ["_v" ++ Bytes.ofNat i, "err"] call) :=
      Site.own_temporary i call
    refine ⟨?_, ⟨.value i call, ?_⟩, trivial, ?_⟩
    · simp [hdefine, hreturn, hclose, hcu.fits, hd.fits]
    · exact (Code.surface_append _ _).mpr
        ⟨hcu.surface, .control _, .control _, hrest.surface⟩
    · intro k hk
      have h1 := hcu.within k hk
      have h2 := hrest.within k hk
      simp only [Code.nil_append, Code.nodes, Code.nodes_append, List.count_append] at h2 ⊢
      omega
  refine .ite (fun _ => ?_) fun _ => ?_
  · refine .pure ⟨trivial, ?_⟩
    exact hafter t₆ .nil (.refl t₆) .nil
  · refine Writes.bind writes_temporary ?_
    rintro _ t₇ _ h₇ ⟨⟨j, rfl⟩, rfl⟩
    refine .emit_bind (.define ["_v" ++ Bytes.ofNat j, "err"]
      ("rt.Convert[" ++ (type ++ ("](" ++ ("_v" ++ (Bytes.ofNat i ++ ")")))))) ?_ fun t₈ h₈ => ?_
    · simp [Statement.text, Statement.defines, Statement.listed]
      rfl
    refine .returning_bind fun t₉ h₉ => .pure ⟨trivial, ?_⟩
    exact hafter t₉ _ ((h₇.trans h₈).trans h₉) (computes_value j _ .nil)

/-- How often a number is found below the named attribute that gives the value of an attribute. -/
def namedWeight (a : Attribute) (named : Option Node) (k : Nat) : Nat :=
  if a.kind = .named then (named.map fun n => weight n.children k).getD 0 else 0

theorem fragmentNodes_cases (a : Attribute) (named : Option Node) :
    (∃ n, a.kind = .named ∧ named = some n ∧ fragmentNodes a named = n.children) ∨
      ∃ n, n.IsMadeUp ∧ fragmentNodes a named = [n] := by
  unfold fragmentNodes
  split
  · next n hk => exact .inl ⟨n, hk, rfl, rfl⟩
  · exact .inr ⟨_, ⟨rfl, rfl, .inr (.inr rfl)⟩, rfl⟩
  · exact .inr ⟨_, ⟨rfl, rfl, .inr (.inl rfl)⟩, rfl⟩
  · exact .inr ⟨_, ⟨rfl, rfl, .inl rfl⟩, rfl⟩

/-- The nodes of a fragment may be generated, and are those below the named attribute, if it has
one. -/
theorem fragmentNodes_visits {a : Attribute} {named : Option Node}
    (hnamed : a.kind = .named → ∀ n, named = some n → ∀ c ∈ n.children, z.Visits level c) :
    (∀ n ∈ fragmentNodes a named, z.Visits level n) ∧
      ∀ k, k ≠ 0 → weight (fragmentNodes a named) k ≤ namedWeight a named k := by
  rcases fragmentNodes_cases a named with ⟨n, hk, rfl, hn⟩ | ⟨n, hmade, hn⟩ <;> rw [hn]
  · exact ⟨hnamed hk n rfl, fun k _ => by simp [namedWeight, hk]⟩
  · refine ⟨?_, fun k hk => ?_⟩
    · intro m hm
      obtain rfl := List.mem_singleton.mp hm
      exact .inr hmade
    · rw [weight_madeUp hmade hk]
      exact Nat.zero_le _

/-- The value of an attribute is computed before it is used. -/
theorem writes_valueCode (hinner : WritesInner z level inner inner') (handler : Bytes)
    (a : Attribute) {named : Option Node} (type : Bytes)
    (hnamed : a.kind = .named → ∀ n, named = some n → ∀ c ∈ n.children, z.Visits level c)
    (hs : level ≤ s.sequence) :
    Computing z level (namedWeight a named) (valueCode inner handler a named type)
      (valueCode inner' handler a named type) s fun _ => True := by
  unfold valueCode
  refine .ite (fun _ => ?_) fun _ => ?_
  · have hnodes := fragmentNodes_visits hnamed
    have hfragment := (writes_fragment hinner hnodes.1 hs).mono hnodes.2 fun _ h => h
    exact hfragment.map _
  split
  · split
    · exact .pure ⟨trivial, .nil⟩
    · exact .throw _ _
  · exact .pure ⟨trivial, .nil⟩
  · refine Writes.bind writes_temporary ?_
    rintro _ t₁ _ h₁ ⟨⟨i, rfl⟩, rfl⟩
    refine Writes.bind (writes_expressionName a.value) ?_
    rintro _ t₂ _ h₂ ⟨⟨j, rfl, -⟩, rfl⟩
    refine .emit_bind (.define ["_v" ++ Bytes.ofNat i, "err"]
      ("rt.Eval[" ++ (type ++ ("](pc, " ++ ("_el" ++ (Bytes.ofNat j ++ ")")))))) ?_ fun t₃ h₃ => ?_
    · simp [Statement.text, Statement.defines, Statement.listed]
      rfl
    exact .returning_bind fun t₄ h₄ => .pure ⟨trivial, computes_value i _ .nil⟩
  · next n hk =>
    refine (writes_capture hinner type (hnamed hk n rfl) hs).mono (fun k _ => ?_) fun _ h => h
    simp [namedWeight, hk]
  · exact .throw _ _
  · exact .throw _ _

end Values

end Generation

end ServerPages
