import ServerPages.Proofs.CodeLayout
import ServerPages.Proofs.ReachedNodes
import ServerPages.Proofs.WritingSteps

/-!
# Steps that restore their place

Generation changes its place all the time: lines are indented, blocks and tags opened, and methods
and fragments are written in places of their own. A step that succeeds continues its place: there
is more code in the current writer and there may be more variables in the innermost block, and
everything else about the place is as it was (`Place.Continues`).

`Walks texts i j x y ns` says so of a step `x`, which is run where lines are indented by `i` and
leaves them indented by `j`. It goes with a second step `y` that does the same but generates nested
nodes in another way, and with the nodes `ns` that it comes to: of the texts whose numbers are among
`texts`, those that are reached from these nodes have lines afterwards, and none loses its lines.

There is one rule for each way to put steps together and one for each primitive step.

## Main results

* `Walks.inBlock`, `Walks.insideTag`, `Walks.asMethod`, `Walks.asFragment`: what is opened around a
  step is closed again.
* `Walks.marking`: a step that belongs to a node.
-/

namespace ServerPages.Generation

/-! ### Places -/

/-- A place where lines are indented by `i`. -/
structure Place.Stands (i : Nat) (p : Place) : Prop where
  indent : p.out.indent = i
  blocks : p.blocks ≠ []
  line : p.out.line ≠ 0

/-- The second place continues the first one: more code may be in the writer and more variables in
the innermost block. -/
structure Place.Continues (p q : Place) : Prop where
  written : p.out.written <:+ q.out.written
  marked : p.out.marked <:+ q.out.marked
  line : p.out.line ≤ q.out.line
  depth : q.blocks.length = p.blocks.length
  outer : q.blocks.tail = p.blocks.tail
  innermost : p.blocks.headD [] <:+ q.blocks.headD []
  handlers : q.handlers = p.handlers
  parent : q.parent = p.parent

namespace Place.Continues

variable {p q r : Place}

theorem refl (p : Place) : p.Continues p :=
  ⟨List.suffix_rfl, List.suffix_rfl, Nat.le_refl _, rfl, rfl, List.suffix_rfl, rfl, rfl⟩

theorem trans (h : p.Continues q) (h' : q.Continues r) : p.Continues r where
  written := h.written.trans h'.written
  marked := h.marked.trans h'.marked
  line := Nat.le_trans h.line h'.line
  depth := h'.depth.trans h.depth
  outer := h'.outer.trans h.outer
  innermost := h.innermost.trans h'.innermost
  handlers := h'.handlers.trans h.handlers
  parent := h'.parent.trans h.parent

theorem stands (h : p.Continues q) {i j : Nat} (hp : p.Stands i) (hq : q.out.indent = j) :
    q.Stands j where
  indent := hq
  blocks := by
    have hlength := h.depth
    have hpositive := List.length_pos_iff.mpr hp.blocks
    exact List.length_pos_iff.mp (by omega)
  line := by
    have hline := h.line
    have := hp.line
    omega

/-- Another writer that continues the one of the place. -/
theorem withOut (p : Place) {w : Writer} (hwritten : p.out.written <:+ w.written)
    (hmarked : p.out.marked <:+ w.marked) (hline : p.out.line ≤ w.line) :
    p.Continues { p with out := w } :=
  ⟨hwritten, hmarked, hline, rfl, rfl, List.suffix_rfl, rfl, rfl⟩

theorem println (p : Place) (x : Bytes) : p.Continues { p with out := p.out.println x } := by
  refine withOut p (List.suffix_cons _ _) List.suffix_rfl ?_
  show p.out.line ≤ p.out.line + 1 + Bytes.countByte 10 x
  omega

end Place.Continues

/-- The second place continues the first one, and lines are indented as they were. -/
structure Place.Restored (p q : Place) : Prop extends Place.Continues p q where
  indent : q.out.indent = p.out.indent

/-! ### Lines of nodes -/

/-- A text that the generation of some nodes comes to has the number. -/
def Noted (ns : List Node) (k : Nat) : Prop := ∃ m, Reached ns m ∧ m.kind = .text ∧
  m.head.number = k

theorem noted_append {ns ms : List Node} {k : Nat} :
    Noted (ns ++ ms) k ↔ Noted ns k ∨ Noted ms k := by
  constructor
  · rintro ⟨m, hm, h⟩
    exact (Reached.append_iff.mp hm).imp (⟨m, ·, h⟩) (⟨m, ·, h⟩)
  · rintro (⟨m, hm, h⟩ | ⟨m, hm, h⟩)
    · exact ⟨m, Reached.append_iff.mpr (.inl hm), h⟩
    · exact ⟨m, Reached.append_iff.mpr (.inr hm), h⟩

theorem not_noted_nil (k : Nat) : ¬Noted [] k := by
  rintro ⟨m, hm, -⟩
  induction hm with
  | top h => exact absurd h List.not_mem_nil
  | inside _ _ ih => exact ih

/-! ### Steps -/

variable {α β : Type}

/-- Run where lines are indented by `i`, the step `x` continues its place where it succeeds, and
leaves lines indented by `j`; the step `y` does the same. Of the `texts` those noted in the nodes
have lines afterwards, and those that had lines. -/
def Walks (texts : Nat → Prop) (i j : Nat) (x y : Gen α) (ns : List Node) : Prop :=
  ∀ s a t, s.place.Stands i → x s = .ok a t →
    y s = .ok a t ∧ s.place.Continues t.place ∧ t.place.out.indent = j ∧
      ∀ k, texts k → s.HasLines k ∨ Noted ns k → t.HasLines k

section Rules

variable {texts : Nat → Prop} {i j k : Nat} {ns ms : List Node}

theorem Walks.pure (a : α) : Walks texts i i (Pure.pure a : Gen α) (Pure.pure a) [] := by
  rintro s b t hs ⟨⟩
  exact ⟨rfl, .refl _, hs.indent, fun k _ h => h.resolve_right (not_noted_nil k)⟩

theorem Walks.throw (e : Failure) (y : Gen α) : Walks texts i j (throw e) y ns := by
  rintro s b t - ⟨⟩

theorem Walks.throw_bind (e : Failure) (f : α → Gen β) (y : Gen β) :
    Walks texts i j (MonadExcept.throw e >>= f) y ns := by
  rintro s b t - ⟨⟩

theorem Walks.bind {x y : Gen α} {f g : α → Gen β} (hx : Walks texts i j x y ns)
    (hf : ∀ a, Walks texts j k (f a) (g a) ms) :
    Walks texts i k (x >>= f) (y >>= g) (ns ++ ms) := by
  intro s b u hs hrun
  obtain ⟨a, t, hxs, hft⟩ := bind_eq_ok hrun
  obtain ⟨hy, hst, hj, hnoted⟩ := hx s a t hs hxs
  obtain ⟨hg, htu, hk, hnoted'⟩ := hf a t b u (hst.stands hs hj) hft
  refine ⟨?_, hst.trans htu, hk, fun l hl h => hnoted' l hl ?_⟩
  · rw [bind_ok hy, hg]
  · rcases h with h | h
    · exact .inl (hnoted l hl (.inl h))
    · exact (noted_append.mp h).imp_left fun h => hnoted l hl (.inr h)

/-- A step that comes to no nodes, before others. -/
theorem Walks.before {x y : Gen α} {f g : α → Gen β} (hx : Walks texts i j x y [])
    (hf : ∀ a, Walks texts j k (f a) (g a) ns) : Walks texts i k (x >>= f) (y >>= g) ns :=
  hx.bind hf

/-- Steps that come to no nodes, after another one. -/
theorem Walks.after {x y : Gen α} {f g : α → Gen β} (hx : Walks texts i j x y ns)
    (hf : ∀ a, Walks texts j k (f a) (g a) []) : Walks texts i k (x >>= f) (y >>= g) ns := by
  have h := hx.bind hf
  rwa [List.append_nil] at h

theorem Walks.get {f g : State → Gen β} (hf : ∀ s, Walks texts i j (f s) (g s) ns) :
    Walks texts i j (MonadStateOf.get >>= f) (MonadStateOf.get >>= g) ns :=
  fun s a t hs hrun => hf s s a t hs hrun

/-- A step that changes the state in one go. -/
theorem Walks.modifyGet {f : State → α × State}
    (hplace : ∀ s, s.place.Stands i → s.place.Continues (f s).2.place ∧
      (f s).2.place.out.indent = j)
    (hlines : ∀ s k, texts k → s.HasLines k → (f s).2.HasLines k) :
    Walks texts i j (modifyGet f : Gen α) (modifyGet f) [] := by
  intro s a t hs hrun
  rw [run_modifyGet] at hrun
  cases hrun
  obtain ⟨hcontinues, hindent⟩ := hplace s hs
  refine ⟨run_modifyGet f s, hcontinues, hindent, fun k hk h => hlines s k hk ?_⟩
  exact h.resolve_right (not_noted_nil k)

theorem Walks.modify {f : State → State}
    (hplace : ∀ s, s.place.Stands i → s.place.Continues (f s).place ∧ (f s).place.out.indent = j)
    (hlines : ∀ s k, texts k → s.HasLines k → (f s).HasLines k) :
    Walks texts i j (modify f : Gen PUnit) (modify f) [] := Walks.modifyGet hplace hlines

/-- A step that changes only what the unit shares. -/
theorem Walks.share {f : State → α × State} (hplace : ∀ s, (f s).2.place = s.place)
    (hspans : ∀ s, (f s).2.spans = s.spans) :
    Walks texts i i (MonadStateOf.modifyGet f : Gen α) (MonadStateOf.modifyGet f) [] := by
  refine .modifyGet (fun s hs => ?_) fun s k _ h => ?_
  · rw [hplace]
    exact ⟨.refl _, hs.indent⟩
  · rwa [State.HasLines, hspans]

theorem Walks.ite {c : Prop} [Decidable c] {x y x' y' : Gen α} (hx : c → Walks texts i j x y ns)
    (hx' : ¬c → Walks texts i j x' y' ns) :
    Walks texts i j (if c then x else x') (if c then y else y') ns := by
  split
  · next h => exact hx h
  · next h => exact hx' h

/-- Two steps of which each comes to its own nodes. -/
theorem Walks.branch {c : Prop} [Decidable c] {x y x' y' : Gen α}
    (hx : c → Walks texts i j x y ns) (hx' : ¬c → Walks texts i j x' y' ms) :
    Walks texts i j (if c then x else x') (if c then y else y') (if c then ns else ms) := by
  split
  · next h => exact hx h
  · next h => exact hx' h

/-- A step that is taken only under a condition, before others. -/
theorem Walks.guard {c : Prop} [Decidable c] {x y : Gen Unit} {f g : Unit → Gen β}
    (hx : Walks texts i i x y []) (hf : ∀ a, Walks texts i j (f a) (g a) ns) :
    Walks texts i j (if c then x >>= f else f ()) (if c then y >>= g else g ()) ns :=
  Walks.ite (fun _ => hx.before hf) fun _ => hf ()

theorem Walks.forM {l : List α} {f g : α → Gen PUnit} {nodes : α → List Node}
    (hf : ∀ a ∈ l, Walks texts i i (f a) (g a) (nodes a)) :
    Walks texts i i (l.forM f) (l.forM g) (l.flatMap nodes) := by
  induction l with
  | nil => exact Walks.pure _
  | cons a l ih =>
    exact (hf a List.mem_cons_self).bind fun _ => ih fun b hb => hf b (List.mem_cons_of_mem _ hb)

theorem Walks.forM_nil {l : List α} {f : α → Gen PUnit}
    (hf : ∀ a, Walks texts i i (f a) (f a) []) : Walks texts i i (l.forM f) (l.forM f) [] := by
  have h := Walks.forM (l := l) fun a _ => hf a
  rwa [List.flatMap_eq_nil_iff.mpr fun _ _ => rfl] at h

theorem Walks.mapM_nil {l : List α} {f : α → Gen β} (hf : ∀ a, Walks texts i i (f a) (f a) []) :
    Walks texts i i (l.mapM f) (l.mapM f) [] := by
  induction l with
  | nil => exact Walks.pure _
  | cons a l ih =>
    rw [List.mapM_cons]
    exact (hf a).before fun _ => ih.before fun _ => Walks.pure _

/-! ### Lines and blocks -/

theorem walks_emit (x : Bytes) : Walks texts i i (emit x) (emit x) [] :=
  .modify (fun s hs => ⟨.println s.place x, hs.indent⟩) fun _ _ _ h => h

theorem walks_emitAll (ls : List Bytes) : Walks texts i i (emitAll ls) (emitAll ls) [] :=
  .forM_nil walks_emit

theorem walks_indent : Walks texts i (i + 1) indent indent [] :=
  .modify (fun s hs => ⟨.withOut s.place List.suffix_rfl List.suffix_rfl (Nat.le_refl _),
    congrArg (· + 1) hs.indent⟩) fun _ _ _ h => h

theorem walks_openBlock (x : Bytes) : Walks texts i (i + 1) (openBlock x) (openBlock x) [] := by
  refine .modify (fun s hs => ⟨?_, congrArg (· + 1) hs.indent⟩) fun _ _ _ h => h
  exact .withOut s.place (List.suffix_cons _ _) List.suffix_rfl
    (Place.Continues.println s.place x).line

theorem walks_outdent : Walks texts (i + 1) i outdent outdent [] := by
  intro s a t hs hrun
  have hw : s.place.out.outdented? = some { s.place.out with indent := i } := by
    rw [Writer.outdented?, hs.indent]
  have houtdent : outdent s = .ok () (s.withOut { s.place.out with indent := i }) := by
    rw [outdent, bind_get, hw]
    rfl
  rw [houtdent] at hrun
  cases hrun
  refine ⟨houtdent, .withOut s.place List.suffix_rfl List.suffix_rfl (Nat.le_refl _), rfl, ?_⟩
  exact fun k _ h => h.resolve_right (not_noted_nil k)

theorem walks_closeBlock (x : Bytes) : Walks texts (i + 1) i (closeBlock x) (closeBlock x) [] :=
  walks_outdent.before fun _ => walks_emit x

theorem walks_returning (x : Bytes) : Walks texts i i (returning x) (returning x) [] :=
  (walks_openBlock x).before fun _ => (walks_emit _).before fun _ => walks_closeBlock _

theorem walks_check (x : Bytes) : Walks texts i i (check x) (check x) [] := walks_returning _

theorem walks_checkErr : Walks texts i i checkErr checkErr [] := walks_returning _

/-- A variable is declared in the innermost block, whatever it is. -/
theorem walks_declare (x : Bytes) : Walks texts i i (declare x) (declare x) [] := by
  refine .modify (fun s hs => ⟨?_, hs.indent⟩) fun _ _ _ h => h
  obtain ⟨block, outer, hblocks⟩ := List.exists_cons_of_ne_nil hs.blocks
  have hdeclared : s.place.blocks.declare x = (x :: block) :: outer := by rw [hblocks]; rfl
  refine ⟨List.suffix_rfl, List.suffix_rfl, Nat.le_refl _, ?_, ?_, ?_, rfl, rfl⟩
  · show (s.place.blocks.declare x).length = _
    rw [hdeclared, hblocks]
    rfl
  · show (s.place.blocks.declare x).tail = _
    rw [hdeclared, hblocks]
    rfl
  · show _ <:+ (s.place.blocks.declare x).headD []
    rw [hdeclared, hblocks]
    exact List.suffix_cons _ _

/-- The code of a node that is no text looked for. -/
theorem Walks.marking {x y : Gen Unit} {node : Nat} (hnode : ¬texts node)
    (hx : Walks texts i j x y ns) : Walks texts i j (marking node x) (marking node y) ns := by
  have hne {k : Nat} (hk : texts k) : k ≠ node := fun h => hnode (h ▸ hk)
  refine Walks.before (.modify (fun s hs => ⟨?_, hs.indent⟩) fun s k hk h => ?_) fun _ =>
    hx.after fun _ => .modify (fun s hs => ⟨.refl _, hs.indent⟩) fun s k hk h => ?_
  · exact .withOut s.place List.suffix_rfl (List.suffix_cons _ _) (Nat.le_refl _)
  · show ((s.spans.set node _).get k).first ≠ 0
    rwa [Spans.get_set, if_neg (hne hk)]
  · show ((s.place.out.finish node s.spans).get k).first ≠ 0
    rwa [Spans.get_finish, if_neg (hne hk)]

/-- A block that is opened around a step is closed again, and no other one has changed. -/
theorem Walks.inBlock {x y : Gen Unit} (hx : Walks texts i j x y ns) :
    Walks texts i j (inBlock x) (inBlock y) ns := by
  intro s a t hs hrun
  obtain ⟨u, hxu, rfl⟩ := inBlock_eq_ok.mp hrun
  obtain ⟨hy, hcontinues, hindent, hlines⟩ :=
    hx (s.withBlocks ([] :: s.place.blocks)) () u ⟨hs.indent, List.cons_ne_nil _ _, hs.line⟩ hxu
  have hblocks : u.place.blocks.drop 1 = s.place.blocks := by
    rw [List.drop_one]
    exact hcontinues.outer
  refine ⟨inBlock_eq_ok.mpr ⟨u, hy, rfl⟩, ?_, hindent, hlines⟩
  refine ⟨hcontinues.written, hcontinues.marked, hcontinues.line, ?_, ?_, ?_, hcontinues.handlers,
    hcontinues.parent⟩
  · exact congrArg List.length hblocks
  · exact congrArg List.tail hblocks
  · have hhead : s.place.blocks.headD [] = (u.place.blocks.drop 1).headD [] := by rw [hblocks]
    exact hhead ▸ List.suffix_rfl

/-- A tag that is opened around a step is closed again. -/
theorem Walks.insideTag {x y : Gen Unit} (handler : Bytes) (hx : Walks texts i j x y ns) :
    Walks texts i j (insideTag handler x) (insideTag handler y) ns := by
  intro s a t hs hrun
  obtain ⟨u, hxu, rfl⟩ := insideTag_eq_ok.mp hrun
  obtain ⟨hy, hcontinues, hindent, hlines⟩ :=
    hx (s.withHandlers (handler :: s.place.handlers)) () u ⟨hs.indent, hs.blocks, hs.line⟩ hxu
  refine ⟨insideTag_eq_ok.mpr ⟨u, hy, rfl⟩, ?_, hindent, hlines⟩
  refine ⟨hcontinues.written, hcontinues.marked, hcontinues.line, hcontinues.depth,
    hcontinues.outer, hcontinues.innermost, ?_, hcontinues.parent⟩
  exact congrArg (List.drop 1) hcontinues.handlers

/-! ### Functions of their own -/

section Functions

variable {x y : Gen Unit} {out : Writer}

/-- What a step in a function of its own leaves behind. -/
theorem Walks.inFunction (hx : Walks texts out.indent j x y ns) (hline : out.line ≠ 0) {s u : State}
    {b : Unit} (hxu : x (s.inFunction out) = .ok b u) :
    y (s.inFunction out) = .ok b u ∧
      ∀ k, texts k → s.HasLines k ∨ Noted ns k → State.HasLines { u with place := s.place } k := by
  obtain ⟨hy, -, -, hlines⟩ :=
    hx (s.inFunction out) b u ⟨rfl, List.cons_ne_nil _ _, hline⟩ hxu
  exact ⟨hy, hlines⟩

/-- A method is generated in a place of its own. -/
theorem Walks.asMethod (hx : Walks texts out.indent j x y ns) (hline : out.line ≠ 0) :
    Walks texts i i (asMethod out x) (asMethod out y) ns := by
  intro s w t hs hrun
  obtain ⟨u, hxu, rfl, rfl⟩ := asMethod_eq_ok.mp hrun
  obtain ⟨hy, hlines⟩ := hx.inFunction hline hxu
  exact ⟨asMethod_eq_ok.mpr ⟨u, hy, rfl, rfl⟩, .refl _, hs.indent, hlines⟩

/-- A fragment is generated in a place of its own. -/
theorem Walks.asFragment (hx : Walks texts out.indent j x y ns) (hline : out.line ≠ 0) :
    Walks texts i i (asFragment out x) (asFragment out y) ns := by
  intro s w t hs hrun
  obtain ⟨u, hxu, rfl, rfl⟩ := asFragment_eq_ok.mp hrun
  obtain ⟨hy, hlines⟩ := hx.inFunction hline hxu
  exact ⟨asFragment_eq_ok.mpr ⟨u, hy, rfl, rfl⟩, .refl _, hs.indent, hlines⟩

end Functions

/-! ### What the unit shares -/

theorem walks_nextNumber : Walks texts i i nextNumber nextNumber [] :=
  .share (fun _ => rfl) fun _ => rfl

theorem walks_temporary : Walks texts i i temporary temporary [] :=
  walks_nextNumber.before fun _ => Walks.pure _

theorem walks_parentHandler : Walks texts i i parentHandler parentHandler [] :=
  .get fun _ => Walks.pure _

theorem walks_expressionName (x : Bytes) :
    Walks texts i i (expressionName x) (expressionName x) [] := by
  refine .share (fun s => ?_) fun s => ?_ <;> cases s.expressions.findIdx? (· == x) <;> rfl

theorem walks_textConstant (x : Bytes) : Walks texts i i (textConstant x) (textConstant x) [] := by
  refine .share (fun s => ?_) fun s => ?_ <;> cases s.texts.findIdx? (· == x) <;> rfl

theorem walks_qualified (package name : Bytes) :
    Walks texts i i (qualified package name) (qualified package name) [] :=
  Walks.ite (fun _ => Walks.pure _) fun _ =>
    Walks.before (.share (fun _ => rfl) fun _ => rfl) fun _ => Walks.pure _

end Rules

end ServerPages.Generation
