import ServerPages.Proofs.CodeLayout
import ServerPages.Proofs.UnitWriting

/-!
# Where the code of a unit stands

The file of a unit is put together from lines around the code that generation collected, which is
spliced in: the declarations, the code of the render method, the methods of tags and the fragment
bodies. `Assembly` is what holds while that is done: the file so far has a layout, the lines noted
for nodes are those of their parts in it, and what is still to be spliced in has a layout of its
own.

## Main results

* `assemble_assembly`: putting a file together keeps that up to the end.
* `generate_layout`: the file of a validated unit has a layout in which the lines of every node are
  those of its part, and every part is the code of its node.
-/

namespace ServerPages.Generation

/-! ### Parts of a layout -/

namespace Layout

/-- All parts of a layout satisfy `P`, with their nodes. -/
def Parts (P : Nat → Layout → Prop) : Layout → Prop
  | nil => True
  | line _ rest => rest.Parts P
  | part k body rest => P k body ∧ body.Parts P ∧ rest.Parts P

theorem parts_append {P : Nat → Layout → Prop} (l m : Layout) :
    (l ++ m).Parts P ↔ l.Parts P ∧ m.Parts P := by
  induction l with
  | nil => simp [Parts]
  | line t rest ih => simp [Parts, ih]
  | part k body rest _ ih => simp [Parts, ih, and_assoc]

theorem height_of_pieces_eq_nil {l : Layout} (h : l.pieces = []) : l.height = 0 := by
  rw [← countByte_text, text, h]
  rfl

theorem marks_of_pieces_eq_nil {l : Layout} (h : l.pieces = []) {i : Nat} :
    ∀ p ∈ l.marks i, p.2 = {} := by
  induction l generalizing i with
  | nil => exact fun p hp => absurd hp List.not_mem_nil
  | line t rest _ => cases h
  | part k body rest ihb ih =>
    obtain ⟨hb, hr⟩ := List.append_eq_nil_iff.mp h
    intro p hp
    rcases List.mem_cons.mp hp with rfl | hp
    · rw [height_of_pieces_eq_nil hb]
      rfl
    · rcases List.mem_append.mp hp with hp | hp
      · exact ihb hb p hp
      · exact ih hr p hp

/-- Every line of a layout ends in a line end. -/
def IsWhole (l : Layout) : Prop := ∀ t ∈ l.pieces, ∃ x, t = x ++ [10]

theorem IsWhole.append {l m : Layout} (hl : l.IsWhole) (hm : m.IsWhole) : (l ++ m).IsWhole := by
  intro t ht
  rw [pieces_append, List.mem_append] at ht
  rcases ht with ht | ht
  · exact hl t ht
  · exact hm t ht

theorem IsWhole.part {k : Nat} {b l : Layout} (hb : b.IsWhole) (hl : l.IsWhole) :
    (part k b l).IsWhole := by
  intro t ht
  rcases List.mem_append.mp ht with ht | ht
  · exact hb t ht
  · exact hl t ht

theorem isWhole_nil : nil.IsWhole := fun _ ht => absurd ht List.not_mem_nil

theorem isWhole_codeLine (i : Nat) (x : Bytes) {l : Layout} (hl : l.IsWhole) :
    (line (codeLine i x) l).IsWhole := by
  intro t ht
  rcases List.mem_cons.mp ht with rfl | ht
  · exact ⟨_, rfl⟩
  · exact hl t ht

/-- Where the part of a node stands in the text, and on which lines. -/
theorem mem_marks {P : Nat → Layout → Prop} {l : Layout} (hP : l.Parts P) {i : Nat}
    {p : Nat × LineSpan} (h : p ∈ l.marks i) : ∃ xs b ys, l.pieces = xs ++ (b.pieces ++ ys) ∧
      p.2 = spanAt (i + Bytes.countByte 10 xs.flatten) b.height ∧ P p.1 b := by
  induction l generalizing i with
  | nil => exact absurd h List.not_mem_nil
  | line t rest ih =>
    obtain ⟨xs, b, ys, hpieces, hspan, hb⟩ := ih hP h
    refine ⟨t :: xs, b, ys, by rw [pieces, hpieces, List.cons_append], ?_, hb⟩
    rw [hspan, List.flatten_cons, Bytes.countByte, Bytes.countByte, Bytes.countByte,
      List.countP_append, Nat.add_assoc]
  | part k body rest ihb ih =>
    obtain ⟨hk, hbody, hrest⟩ := hP
    rcases List.mem_cons.mp h with rfl | h
    · exact ⟨[], body, rest.pieces, rfl, by simp [Bytes.countByte], hk⟩
    rcases List.mem_append.mp h with h | h
    · obtain ⟨xs, b, ys, hpieces, hspan, hb⟩ := ihb hbody h
      exact ⟨xs, b, ys ++ rest.pieces, by simp [pieces, hpieces], hspan, hb⟩
    · obtain ⟨xs, b, ys, hpieces, hspan, hb⟩ := ih hrest h
      refine ⟨body.pieces ++ xs, b, ys, by simp [pieces, hpieces], ?_, hb⟩
      have hheight := countByte_text body
      rw [text] at hheight
      rw [hspan, ← hheight, List.flatten_append, Bytes.countByte, Bytes.countByte, Bytes.countByte,
        List.countP_append, Nat.add_assoc]

end Layout

namespace Code

/-- A code as it stands in a writer. -/
def IsLaidOut (p : Nat → Code → Prop) (k : Nat) (l : Layout) : Prop :=
  ∃ c i, p k c ∧ l = c.layout i .out

theorem plain_eq (ls : List Bytes) :
    plain ls = (lines (ls.map Statement.page)).layout 0 .out := by
  induction ls with
  | nil => rfl
  | cons l ls ih => rw [plain, ih, List.map_cons, lines_cons, layout, Statement.text]

theorem parts_plain {P : Nat → Layout → Prop} (ls : List Bytes) : (plain ls).Parts P := by
  induction ls with
  | nil => trivial
  | cons l ls ih => exact ih

theorem parts_gap {P : Nat → Layout → Prop} (isApart : Bool) : (gap isApart).Parts P := by
  cases isApart <;> trivial

/-- The parts of a code are the parts of its layouts. -/
theorem parts_layout {p : Nat → Code → Prop} {c : Code} (hc : c.Parts p) (i : Nat) (h : Sheet) :
    (c.layout i h).Parts (IsLaidOut p) := by
  induction c generalizing i h with
  | nil => trivial
  | line s rest ih => cases h <;> exact ih hc _ _
  | indent rest ih | outdent rest ih => exact ih hc _ _
  | part k body rest ihb ih =>
    obtain ⟨hp, hbody, hrest⟩ := hc
    cases h with
    | out => exact ⟨⟨body, i, hp, rfl⟩, ihb hbody i .out, ih hrest _ _⟩
    | declarations | methods | fragments =>
      exact (Layout.parts_append _ _).mpr ⟨ihb hbody i _, ih hrest _ _⟩
  | declaration k ls rest ih =>
    obtain ⟨hp, hrest⟩ := hc
    cases h with
    | declarations => exact ⟨⟨_, 0, hp, plain_eq ls⟩, parts_plain ls, ih hrest _ _⟩
    | out | methods | fragments => exact ih hrest _ _
  | method isApart body rest ihb ih =>
    obtain ⟨hbody, hrest⟩ := hc
    cases h with
    | out => exact ih hrest _ _
    | methods =>
      exact (Layout.parts_append _ _).mpr ⟨ihb hbody _ _, (Layout.parts_append _ _).mpr
        ⟨parts_gap isApart, (Layout.parts_append _ _).mpr ⟨ihb hbody _ _, ih hrest _ _⟩⟩⟩
    | declarations | fragments =>
      exact (Layout.parts_append _ _).mpr ⟨ihb hbody _ _, ih hrest _ _⟩
  | fragment body rest ihb ih =>
    obtain ⟨hbody, hrest⟩ := hc
    cases h with
    | out => exact ih hrest _ _
    | fragments =>
      exact (Layout.parts_append _ _).mpr ⟨ihb hbody _ _, (Layout.parts_append _ _).mpr
        ⟨ihb hbody _ _, ih hrest _ _⟩⟩
    | declarations | methods =>
      exact (Layout.parts_append _ _).mpr ⟨ihb hbody _ _, ih hrest _ _⟩

/-- The layouts of a code consist of whole lines. -/
theorem isWhole_layout (c : Code) (i : Nat) (h : Sheet) : (c.layout i h).IsWhole := by
  have hplain : ∀ ls, (plain ls).IsWhole := by
    intro ls
    induction ls with
    | nil => exact Layout.isWhole_nil
    | cons l ls ih => exact Layout.isWhole_codeLine 0 l ih
  have hgap : ∀ isApart, (gap isApart).IsWhole := by
    intro isApart
    cases isApart with
    | false => exact Layout.isWhole_nil
    | true => exact Layout.isWhole_codeLine 0 [] Layout.isWhole_nil
  induction c generalizing i h with
  | nil => exact Layout.isWhole_nil
  | line s rest ih =>
    cases h with
    | out => exact Layout.isWhole_codeLine i s.text (ih _ _)
    | declarations | methods | fragments => exact ih _ _
  | indent rest ih | outdent rest ih => exact ih _ _
  | part k body rest ihb ih =>
    cases h with
    | out => exact (ihb i .out).part (ih _ _)
    | declarations | methods | fragments => exact (ihb i _).append (ih _ _)
  | declaration k ls rest ih =>
    cases h with
    | declarations => exact (hplain ls).part (ih _ _)
    | out | methods | fragments => exact ih _ _
  | method isApart body rest ihb ih =>
    cases h with
    | out => exact ih _ _
    | methods => exact (ihb _ _).append ((hgap isApart).append ((ihb _ _).append (ih _ _)))
    | declarations | fragments => exact (ihb _ _).append (ih _ _)
  | fragment body rest ihb ih =>
    cases h with
    | out => exact ih _ _
    | fragments => exact (ihb _ _).append ((ihb _ _).append (ih _ _))
    | declarations | methods => exact (ihb _ _).append (ih _ _)

end Code

/-! ### Putting a file together -/

/-- A writer has a layout from line one on, and the lines noted for its nodes are those of their
parts. -/
structure Notes (P : Nat → Layout → Prop) (spans : Spans) (w : Writer) (l : Layout) : Prop where
  gains : ({} : Writer).Gains w l
  noted : ∀ p ∈ l.marks 1, p.1 ≠ 0 → spans.get p.1 = p.2
  parts : l.Parts P
  whole : l.IsWhole

/-- What holds while a file is put together from the declarations `D`, the methods `M`, the
fragments `R` and the code of the render method. -/
structure Assembly (P : Nat → Layout → Prop) (D M R : Writer) (s : State) (F : Layout)
    (ps : List (Writer × Layout)) : Prop where
  file : Notes P s.spans s.place.out F
  pending : ∀ p ∈ ps, Notes P s.spans p.1 p.2
  once : ∀ k, k ≠ 0 → F.nodes.count k + (ps.map fun p => p.2.nodes.count k).sum ≤ 1
  found : ∀ k, k ≠ 0 → (s.spans.get k).first ≠ 0 → k ∈ F.nodes ∨ ∃ p ∈ ps, k ∈ p.2.nodes
  declarations : s.declarations = D
  methods : s.methods = M
  fragments : s.fragments = R

section Assembly

variable {P : Nat → Layout → Prop} {D M R : Writer} {s t : State} {F l : Layout}
  {ps : List (Writer × Layout)} {o : Writer}

/-- Lines without nodes are written. -/
theorem Assembly.gains (h : Assembly P D M R s F ps) (hl : l.nodes = []) (hwhole : l.IsWhole)
    (hgains : s.place.out.Gains t.place.out l) (hspans : t.spans = s.spans)
    (hD : t.declarations = s.declarations) (hM : t.methods = s.methods)
    (hR : t.fragments = s.fragments) : Assembly P D M R t (F ++ l) ps := by
  have hmarks : ∀ i, l.marks i = [] := by
    intro i
    rw [← List.map_eq_nil_iff, Layout.map_fst_marks, hl]
  have hparts : l.Parts P := by
    clear hgains hmarks hwhole
    induction l with
    | nil => trivial
    | line x rest ih => exact ih hl
    | part k body rest _ _ => cases hl
  refine ⟨⟨h.file.gains.trans hgains, ?_, (Layout.parts_append F l).mpr ⟨h.file.parts, hparts⟩,
    h.file.whole.append hwhole⟩, ?_, ?_, ?_, hD.trans h.declarations, hM.trans h.methods,
    hR.trans h.fragments⟩
  · rw [Layout.marks_append, hmarks, List.append_nil, hspans]
    exact h.file.noted
  · rw [hspans]
    exact h.pending
  · rw [Layout.nodes_append, hl, List.append_nil]
    exact h.once
  · rw [Layout.nodes_append, hl, List.append_nil, hspans]
    exact h.found

/-- The code of a writer is taken over. -/
theorem Assembly.splice (h : Assembly P D M R s F ((o, l) :: ps)) :
    Assembly P D M R (s.rewritten (s.place.out.splice o s.spans).1 (s.place.out.splice o s.spans).2)
      (F ++ l) ps := by
  have hline : s.place.out.line = 1 + F.height := h.file.gains.line
  have hnotes := h.pending (o, l) List.mem_cons_self
  have honce : ∀ k, k ≠ 0 → F.nodes.count k + l.nodes.count k +
      (ps.map fun p => p.2.nodes.count k).sum ≤ 1 := by
    intro k hk
    have := h.once k hk
    simp only [List.map_cons, List.sum_cons] at this
    omega
  have hone : ∀ k, k ≠ 0 → l.nodes.count k ≤ 1 := by
    intro k hk
    have := honce k hk
    omega
  have hkept : ∀ k, k ≠ 0 → k ∉ l.nodes →
      (s.place.out.splice o s.spans).2.get k = s.spans.get k := fun k hk hno =>
    hnotes.gains.kept_splice hk hno
  have hfile : ∀ k, k ≠ 0 → k ∈ F.nodes → k ∉ l.nodes := by
    intro k hk hF hl
    have := honce k hk
    have := List.one_le_count_iff.mpr hF
    have := List.one_le_count_iff.mpr hl
    omega
  have hother : ∀ p ∈ ps, ∀ k, k ≠ 0 → k ∈ p.2.nodes → k ∉ l.nodes := by
    intro p hp k hk hin hl
    have h1 := honce k hk
    have h2 := List.one_le_count_iff.mpr hin
    have h3 := List.one_le_count_iff.mpr hl
    have h4 : p.2.nodes.count k ≤ (ps.map fun p => p.2.nodes.count k).sum :=
      List.le_sum_of_mem (List.mem_map_of_mem hp)
    omega
  have hmoved := hnotes.gains.noted_splice (w := s.place.out) (by omega) hone hnotes.noted
  refine ⟨⟨h.file.gains.trans (hnotes.gains.splice (by omega) ?_), ?_, ?_,
    h.file.whole.append hnotes.whole⟩, ?_, ?_, ?_,
    h.declarations, h.methods, h.fragments⟩
  · intro p hp h0 hfirst
    rwa [hnotes.noted p hp h0]
  · intro p hp h0
    rw [Layout.marks_append, List.mem_append] at hp
    rcases hp with hp | hp
    · exact (hkept p.1 h0 (hfile p.1 h0 (Layout.mem_nodes_of_mem_marks hp))).trans
        (h.file.noted p hp h0)
    · exact hmoved p (hline ▸ hp) h0
  · exact (Layout.parts_append F l).mpr ⟨h.file.parts, hnotes.parts⟩
  · intro p hp
    have hpending := h.pending p (List.mem_cons_of_mem _ hp)
    refine ⟨hpending.gains, fun q hq h0 => ?_, hpending.parts, hpending.whole⟩
    exact (hkept q.1 h0 (hother p hp q.1 h0 (Layout.mem_nodes_of_mem_marks hq))).trans
      (hpending.noted q hq h0)
  · intro k hk
    rw [Layout.nodes_append, List.count_append]
    exact honce k hk
  · intro k hk hfirst
    rw [Layout.nodes_append, List.mem_append]
    by_cases hl : k ∈ l.nodes
    · exact .inl (.inr hl)
    · have hbefore : (s.spans.get k).first ≠ 0 := hkept k hk hl ▸ hfirst
      rcases h.found k hk hbefore with hF | ⟨p, hp, hin⟩
      · exact .inl (.inl hF)
      · rcases List.mem_cons.mp hp with rfl | hp
        · exact absurd hin hl
        · exact .inr ⟨p, hp, hin⟩

/-- A writer that nothing was written to need not be taken over. -/
theorem Assembly.drop (h : Assembly P D M R s F ((o, l) :: ps)) (ho : o.isEmpty = true) :
    Assembly P D M R s F ps := by
  have hnotes := h.pending (o, l) List.mem_cons_self
  have hpieces : l.pieces = [] := by
    have hwritten : o.written = l.pieces.reverse := by simpa using hnotes.gains.written
    rw [Writer.isEmpty, List.isEmpty_iff, hwritten, List.reverse_eq_nil_iff] at ho
    exact ho
  refine ⟨h.file, fun p hp => h.pending p (List.mem_cons_of_mem _ hp), ?_, ?_, h.declarations,
    h.methods, h.fragments⟩
  · intro k hk
    have := h.once k hk
    simp only [List.map_cons, List.sum_cons] at this
    omega
  · intro k hk hfirst
    rcases h.found k hk hfirst with hF | ⟨p, hp, hin⟩
    · exact .inl hF
    · rcases List.mem_cons.mp hp with rfl | hp
      · -- The parts of an empty writer have no lines.
        obtain ⟨q, hq, rfl⟩ := List.mem_map.mp (Layout.map_fst_marks 1 l ▸ hin)
        rw [hnotes.noted q hq hk, Layout.marks_of_pieces_eq_nil hpieces q hq] at hfirst
        exact absurd rfl hfirst
      · exact .inr ⟨p, hp, hin⟩

end Assembly

/-- A step that succeeds keeps what holds while a file is put together; afterwards `ps'` is still to
be taken over. Nodes with lines keep some. -/
def Puts (P : Nat → Layout → Prop) (D M R : Writer) {α : Type} (x : Gen α)
    (ps ps' : List (Writer × Layout)) : Prop :=
  ∀ s F a t, Assembly P D M R s F ps → x s = .ok a t →
    ∃ G, Assembly P D M R t G ps' ∧ ∀ k, s.HasLines k → t.HasLines k

section Puts

variable {P : Nat → Layout → Prop} {D M R : Writer} {α β : Type}
  {ps ps' ps'' : List (Writer × Layout)}

theorem Puts.pure (a : α) : Puts P D M R (Pure.pure a : Gen α) ps ps := by
  intro s F b t h hrun
  cases hrun
  exact ⟨F, h, fun _ hk => hk⟩

theorem Puts.bind {x : Gen α} {f : α → Gen β} (hx : Puts P D M R x ps ps')
    (hf : ∀ a, Puts P D M R (f a) ps' ps'') : Puts P D M R (x >>= f) ps ps'' := by
  intro s F b t h hrun
  obtain ⟨a, u, hxs, hfu⟩ := bind_eq_ok hrun
  obtain ⟨G, hG, hsu⟩ := hx s F a u h hxs
  obtain ⟨H, hH, hut⟩ := hf a u G b t hG hfu
  exact ⟨H, hH, fun k hk => hut k (hsu k hk)⟩

theorem Puts.ite {p : Prop} [Decidable p] {x y : Gen α} (hx : p → Puts P D M R x ps ps')
    (hy : ¬p → Puts P D M R y ps ps') : Puts P D M R (if p then x else y) ps ps' := by
  by_cases h : p
  · rw [if_pos h]
    exact hx h
  · rw [if_neg h]
    exact hy h

theorem Puts.get {f : State → Gen β}
    (hf : ∀ s : State, s.declarations = D → s.methods = M → s.fragments = R →
      Puts P D M R (f s) ps ps') : Puts P D M R (get >>= f) ps ps' := by
  intro s F b t h hrun
  exact hf s h.declarations h.methods h.fragments s F b t h hrun

/-- Lines without nodes may be written in between. -/
theorem Puts.gains {x : Gen α} (hx : ∀ s a t, x s = .ok a t → ∃ l : Layout, l.nodes = [] ∧
      l.IsWhole ∧ s.place.out.Gains t.place.out l ∧ t.spans = s.spans ∧
      t.declarations = s.declarations ∧ t.methods = s.methods ∧ t.fragments = s.fragments) :
    Puts P D M R x ps ps := by
  intro s F a t h hrun
  obtain ⟨l, hl, hwhole, hgains, hspans, hD, hM, hR⟩ := hx s a t hrun
  refine ⟨F ++ l, h.gains hl hwhole hgains hspans hD hM hR, fun k hk => ?_⟩
  rwa [State.HasLines, hspans]

theorem Puts.emit (x : Bytes) : Puts P D M R (emit x) ps ps := by
  refine .gains fun s a t hrun => ?_
  cases hrun
  exact ⟨_, rfl, Layout.isWhole_codeLine _ x Layout.isWhole_nil, .println _ x, rfl, rfl, rfl, rfl⟩

theorem Writer.Gains.with_indent (w : Writer) (i : Nat) :
    w.Gains { w with indent := i } .nil := ⟨rfl, rfl, (Writer.Gains.refl w).marked⟩

theorem Puts.openBlock (x : Bytes) : Puts P D M R (openBlock x) ps ps := by
  refine .gains fun s a t hrun => ?_
  cases hrun
  exact ⟨_, rfl, Layout.isWhole_codeLine _ x Layout.isWhole_nil,
    (Writer.Gains.println _ x).trans (.with_indent _ _), rfl, rfl, rfl, rfl⟩

theorem Puts.outdent : Puts P D M R outdent ps ps := by
  refine .gains fun s a t hrun => ?_
  unfold Generation.outdent at hrun
  rw [bind_get] at hrun
  cases hout : s.place.out.outdented? with
  | none =>
    rw [hout] at hrun
    cases hrun
  | some w =>
    rw [hout] at hrun
    cases hrun
    unfold Writer.outdented? at hout
    split at hout
    · cases hout
    · obtain rfl := Option.some.inj hout
      exact ⟨_, rfl, Layout.isWhole_nil, .with_indent _ _, rfl, rfl, rfl, rfl⟩

theorem Puts.closeBlock (x : Bytes) : Puts P D M R (closeBlock x) ps ps :=
  Puts.outdent.bind fun _ => .emit x

theorem Puts.forM {f : α → Gen PUnit} (hf : ∀ a, Puts P D M R (f a) ps ps) (as : List α) :
    Puts P D M R (as.forM f) ps ps := by
  induction as with
  | nil => exact .pure _
  | cons a as ih => exact (hf a).bind fun _ => ih

theorem Puts.emitAll (ls : List Bytes) : Puts P D M R (emitAll ls) ps ps := .forM .emit ls

/-- Code between two lines. -/
theorem Puts.within {x : Gen Unit} (hx : Puts P D M R x ps ps') (opening closing : Bytes) :
    Puts P D M R (Generation.openBlock opening >>= fun _ => x >>= fun _ =>
      Generation.closeBlock closing) ps ps' :=
  (Puts.openBlock opening).bind fun _ => hx.bind fun _ => .closeBlock closing

theorem Puts.block (opening : Bytes) (ls : List Bytes) (closing : Bytes) :
    Puts P D M R (block opening ls closing) ps ps := (Puts.emitAll ls).within opening closing

theorem Puts.blank : Puts P D M R blank ps ps := .emit []

theorem Puts.returning (condition : Bytes) : Puts P D M R (returning condition) ps ps :=
  (Puts.emit _).within _ _

theorem Puts.method (receiver type signature : Bytes) {x : Gen Unit} (hx : Puts P D M R x ps ps') :
    Puts P D M R (method receiver type signature x) ps ps' := hx.within _ _

/-- The first of the writers that are left is taken over. -/
theorem Puts.spliceIn (o : Writer) (l : Layout) :
    Puts P D M R (spliceIn o) ((o, l) :: ps) ps := by
  intro s F a t h hrun
  cases hrun
  exact ⟨F ++ l, h.splice, fun k hk => Spans.get_splice_ne_zero hk _ _⟩

/-- The first of the writers that are left is taken over, unless nothing was written to it. -/
theorem Puts.unless_empty {o : Writer} {l : Layout} {x y : Gen α}
    (hx : Puts P D M R x ((o, l) :: ps) ps') (hy : Puts P D M R y ps ps') :
    Puts P D M R (if (!o.isEmpty) = true then x else y) ((o, l) :: ps) ps' := by
  refine .ite (fun _ => hx) fun hempty => ?_
  have ho : o.isEmpty = true := by simpa using hempty
  exact fun s F a t h hrun => hy s F a t (h.drop ho) hrun

/-! ### Parts of the file -/

theorem Puts.writeTexts : Puts P D M R writeTexts ps ps :=
  .get fun _ _ _ _ => .ite (fun _ => (Puts.block _ _ _).bind fun _ => .blank) fun _ => .pure _

theorem Puts.writeFunctions (entries : List Bytes) : Puts P D M R (writeFunctions entries) ps ps :=
  .ite (fun _ => (Puts.block _ _ _).bind fun _ => .blank) fun _ => .pure _

theorem Puts.writeExpressions (env : Env) : Puts P D M R (writeExpressions env) ps ps :=
  .get fun _ _ _ _ => .ite (fun _ => (Puts.block _ _ _).bind fun _ => .blank) fun _ => .pure _

theorem Puts.structType (env : Env) (fields : List Bytes) :
    Puts P D M R (structType env fields) ps ps :=
  .get fun _ _ _ _ => .ite (fun _ => .emit _) fun _ => .block _ _ _

theorem Puts.pageType (env : Env) : Puts P D M R (pageType env) ps ps :=
  (Puts.emit _).bind fun _ => (Puts.structType env _).bind fun _ => Puts.blank.bind fun _ =>
  (Puts.method _ _ _ (.block _ _ _)).bind fun _ => Puts.blank.bind fun _ =>
  (Puts.emit _).bind fun _ => (Puts.method _ _ _ <| (Puts.emit _).bind fun _ =>
    (Puts.returning _).bind fun _ => .emit _).bind fun _ => .blank

theorem Puts.setterMethod (env : Env) (a : AttributeSignature) :
    Puts P D M R (setterMethod env a) ps ps := (Puts.method _ _ _ (.emit _)).bind fun _ => .blank

theorem Puts.dynamicMethod (env : Env) : Puts P D M R (dynamicMethod env) ps ps :=
  (Puts.emit _).bind fun _ => (Puts.method _ _ _ <| (Puts.block _ _ _).bind fun _ =>
    (Puts.emit _).bind fun _ => .emit _).bind fun _ => .blank

theorem Puts.syncMethod (env : Env) (tag : TagInfo) (name doc : Bytes)
    (scopes : List VariableScope) : Puts P D M R (syncMethod env tag name doc scopes) ps ps :=
  (Puts.emit _).bind fun _ => (Puts.method _ _ _ (.emitAll _)).bind fun _ => .blank

theorem Puts.doTagMethod (env : Env) (tag : TagInfo) :
    Puts P D M R (doTagMethod env tag) ps ps := by
  have hend : Puts P D M R (if tag.vars.isEmpty then Generation.emit "return t.render(pc, frags)"
      else Generation.emitAll ["err := t.render(pc, frags)", "t.syncEnd(pc)", "return err"])
      ps ps :=
    .ite (fun _ => .emit _) fun _ => .emitAll _
  refine (Puts.emit _).bind fun _ => (Puts.method _ _ _ ?_).bind fun _ => .blank
  refine (Puts.emit _).bind fun _ => (Puts.emit _).bind fun _ => (Puts.emitAll _).bind fun _ => ?_
  exact .ite (fun _ => (Puts.emit _).bind fun _ => hend) fun _ => hend

theorem Puts.tagFileType (env : Env) (tag : TagInfo) :
    Puts P D M R (tagFileType env tag) ps ps := by
  have hend : Puts P D M R (do
      Generation.doTagMethod env tag
      if !tag.vars.isEmpty then
        Generation.syncMethod env tag "syncBegin"
          "copies the NESTED and AT_BEGIN variables to the calling page." [.nested, .atBegin]
        Generation.syncMethod env tag "syncEnd"
          "copies the AT_BEGIN and AT_END variables to the calling page." [.atBegin, .atEnd])
        ps ps :=
    (Puts.doTagMethod env tag).bind fun _ => .ite (fun _ => (Puts.syncMethod env tag _ _ _).bind
      fun _ => .syncMethod env tag _ _ _) fun _ => .pure _
  refine (Puts.emit _).bind fun _ => (Puts.structType env _).bind fun _ => ?_
  refine Puts.blank.bind fun _ => ?_
  refine (Puts.forM (.setterMethod env) _).bind fun _ => ?_
  exact .ite (fun _ => (Puts.dynamicMethod env).bind fun _ => hend) fun _ => hend

theorem Puts.fragmentHelper (env : Env) (o : Writer) (l : Layout) :
    Puts P D M R (fragmentHelper env o) ((o, l) :: ps) ps := by
  refine (Puts.emit _).bind fun _ => (Puts.block _ _ _).bind fun _ => Puts.blank.bind fun _ => ?_
  refine (Puts.emit _).bind fun _ => .method _ _ _ (.unless_empty ?_ (.emit _))
  exact (Puts.emit _).bind fun _ => (Puts.emit _).bind fun _ => (Puts.emit _).bind fun _ =>
    (Puts.spliceIn o l).bind fun _ => (Puts.emit _).bind fun _ => .emit _

/-- The file from the methods of tags on. -/
def fileEnd (env : Env) (methods fragments : Writer) : Gen Unit := do
  if !methods.isEmpty then
    blank
    spliceIn methods
  blank
  fragmentHelper env fragments

theorem Puts.fileEnd (env : Env) (m r : Layout) :
    Puts P D M R (fileEnd env M R) [(M, m), (R, r)] [] := by
  have hend : Puts P D M R (Generation.blank >>= fun _ => Generation.fragmentHelper env R)
      [(R, r)] [] := Puts.blank.bind fun _ => .fragmentHelper env R r
  exact .unless_empty (Puts.blank.bind fun _ => (Puts.spliceIn M m).bind fun _ => hend) hend

/-- The file from the constants on. -/
def fileRest (env : Env) (entries : List Bytes) (render methods fragments : Writer) : Gen Unit := do
  writeTexts
  writeFunctions entries
  writeExpressions env
  match env.page.tag with
  | some tag => tagFileType env tag
  | none => pageType env
  method env.receiver env.typeName
    ("render(pc *rt.PageContext, frags *" ++ env.fragmentType ++ ") error") do
    emit "_ = frags"
    spliceIn render
    emit "return nil"
  fileEnd env methods fragments

theorem Puts.fileRest (env : Env) (entries : List Bytes) (render : Writer) (o m r : Layout) :
    Puts P D M R (fileRest env entries render M R) [(render, o), (M, m), (R, r)] [] := by
  refine Puts.writeTexts.bind fun _ => (Puts.writeFunctions entries).bind fun _ => ?_
  refine (Puts.writeExpressions env).bind fun _ => ?_
  have hrender : Puts P D M R (Generation.method env.receiver env.typeName
      ("render(pc *rt.PageContext, frags *" ++ env.fragmentType ++ ") error") (do
        Generation.emit "_ = frags"
        Generation.spliceIn render
        Generation.emit "return nil")) [(render, o), (M, m), (R, r)] [(M, m), (R, r)] :=
    .method _ _ _ <| (Puts.emit _).bind fun _ => (Puts.spliceIn render o).bind fun _ => .emit _
  split
  · exact (Puts.tagFileType env _).bind fun _ => hrender.bind fun _ => .fileEnd env m r
  · exact (Puts.pageType env).bind fun _ => hrender.bind fun _ => .fileEnd env m r

end Puts

/-- A file that is put together from code with layouts has a layout. -/
theorem assemble_assembly {P : Nat → Layout → Prop} {env : Env} {s t : State} {L : Sheet → Layout}
    (hnotes : ∀ h, Notes P s.spans (s.desk.writer h) (L h))
    (honce : ∀ k, k ≠ 0 → Code.total L k ≤ 1)
    (hfound : ∀ k, k ≠ 0 → (s.spans.get k).first ≠ 0 → ∃ h, k ∈ (L h).nodes)
    (hrun : assemble env s = .ok () t) :
    ∃ F, Assembly P s.declarations s.methods s.fragments t F [] ∧
      ∀ k, s.HasLines k → t.HasLines k := by
  let ps : List (Writer × Layout) := [(s.declarations, L .declarations), (s.place.out, L .out),
    (s.methods, L .methods), (s.fragments, L .fragments)]
  have hstart : Assembly P s.declarations s.methods s.fragments (s.withOut {}) .nil ps := by
    refine ⟨⟨.refl _, fun p hp => absurd hp List.not_mem_nil, trivial, Layout.isWhole_nil⟩,
      ?_, ?_, ?_,
      rfl, rfl, rfl⟩
    · intro p hp
      simp only [ps, List.mem_cons, List.not_mem_nil, or_false] at hp
      rcases hp with rfl | rfl | rfl | rfl
      · exact hnotes .declarations
      · exact hnotes .out
      · exact hnotes .methods
      · exact hnotes .fragments
    · intro k hk
      have := honce k hk
      simp only [Code.total] at this
      simp only [ps, List.map_cons, List.map_nil, List.sum_cons, List.sum_nil, Layout.nodes,
        List.count_nil]
      omega
    · intro k hk hfirst
      obtain ⟨h, hin⟩ := hfound k hk hfirst
      refine .inr ⟨(s.desk.writer h, L h), ?_, hin⟩
      cases h <;> simp [ps, Desk.writer, State.desk]
  have hputs : Puts P s.declarations s.methods s.fragments (do
      emit ("// Code generated by pagec from " ++ env.file ++ ". DO NOT EDIT.")
      blank
      emit ("package " ++ env.package)
      blank
      let u ← get
      block "import (" (env.functions u.imports).2.lines ")"
      blank
      if !u.declarations.isEmpty then
        spliceIn u.declarations
        blank
      fileRest env (env.functions u.imports).1 s.place.out u.methods u.fragments) ps [] := by
    refine (Puts.emit _).bind fun _ => Puts.blank.bind fun _ => (Puts.emit _).bind fun _ => ?_
    refine Puts.blank.bind fun _ => ?_
    refine .get fun u hD hM hR => (Puts.block _ _ _).bind fun _ => Puts.blank.bind fun _ => ?_
    rw [hD, hM, hR]
    have hrest : Puts P s.declarations s.methods s.fragments
        (fileRest env (env.functions u.imports).1 s.place.out s.methods s.fragments)
        [(s.place.out, L .out), (s.methods, L .methods), (s.fragments, L .fragments)] [] :=
      .fileRest env _ _ _ _ _
    exact .unless_empty ((Puts.spliceIn _ _).bind fun _ => Puts.blank.bind fun _ => hrest) hrest
  exact hputs (s.withOut {}) .nil () t hstart hrun

/-! ### Units -/

theorem spans_of_outdent {s t : State} (h : outdent s = .ok () t) : t.spans = s.spans := by
  unfold outdent at h
  rw [bind_get] at h
  cases hout : s.place.out.outdented? with
  | none =>
    rw [hout] at h
    cases h
  | some w =>
    rw [hout] at h
    cases h
    rfl

/-- What a unit's file is: it has a layout; parts are the code of their nodes, at most one for each
node, and the nodes with lines are those of parts, on whose lines they are. Nodes that had lines
before the file was put together have lines in it. -/
structure IsFile (z : Site) (s t : State) (code : GeneratedUnit) (F : Layout) : Prop where
  source : code.source = F.text
  tree : code.tree = z.root.mapHeads (annotate t)
  parts : F.Parts (Code.IsLaidOut (z.IsPart s))
  whole : F.IsWhole
  once : ∀ k, k ≠ 0 → F.nodes.count k ≤ 1
  noted : ∀ p ∈ F.marks 1, p.1 ≠ 0 → t.spans.get p.1 = p.2
  found : ∀ k, k ≠ 0 → (t.spans.get k).first ≠ 0 → k ∈ F.nodes
  kept : ∀ k, s.HasLines k → t.HasLines k

/-- Code that was written to the writers that generation starts with has layouts. -/
theorem notes_replay {P : Nat → Layout → Prop} {env : Env} {t : State} {c : Code}
    (hdesk : t.desk = c.replay (start env).desk) (honce : ∀ k, k ≠ 0 → c.nodes.count k ≤ 1)
    (hparts : ∀ h, (c.layout 0 h).Parts P) :
    (∀ h, Notes P t.spans (t.desk.writer h) (c.layout 0 h)) ∧
    (∀ k, k ≠ 0 → Code.total (c.layout 0) k ≤ 1) ∧
    ∀ k, k ≠ 0 → (t.spans.get k).first ≠ 0 → ∃ h, k ∈ (c.layout 0 h).nodes := by
  have hempty : ∀ h, (start env).desk.writer h = {} := fun h => by cases h <;> rfl
  have hcounts : (start env).desk.Counts := ⟨fun h => hempty h ▸ Nat.le_refl 1, rfl⟩
  have hmoves : (start env).desk.Moves t.desk (c.layout 0) := hdesk ▸ c.replay_moves hcounts honce
  refine ⟨fun h => ⟨?_, ?_, hparts h, c.isWhole_layout 0 h⟩, fun k hk => ?_, fun k hk hfirst => ?_⟩
  · exact hempty h ▸ hmoves.gains h
  · intro p hp h0
    exact hmoves.noted h p (by rwa [hempty h]) h0
  · rw [c.total_layout]
    exact honce k hk
  · by_contra hno
    rw [not_exists] at hno
    have hkept : t.spans.get k = (start env).spans.get k := hmoves.kept k hk hno
    rw [hkept] at hfirst
    exact hfirst rfl

variable {σ : Type} {library : Option (Bytes → σ → Except Fault TagLibrary × σ)}
  {options : ValidationOptions} {memory : σ} {root : Node} {generation : Options}
  {code : GeneratedUnit}

/-- The file of a validated unit has a layout in which the nodes have their lines. -/
theorem generate_layout (hroot : root.IsUnit)
    (hvalid : (root.validate library options memory).failure = none)
    (hgen : (root.validate library options memory).tree.generate generation = .ok code) :
    let v := (root.validate library options memory).tree
    let tree := (v.numbered 1).1
    ∃ u page, v.head.unit = some u ∧ v.page? = some page ∧
      ∃ s t F, let env : Env := ⟨generation, u.file, page⟩
        unitBody (body env tree.height) tree.children (start env) = .ok () s ∧
        IsFile ⟨env, tree⟩ s t code F := by
  intro v tree
  unfold Node.generate at hgen
  split at hgen
  · next u page hu hpage =>
    refine ⟨u, page, hu, hpage, ?_⟩
    let env : Env := ⟨generation, u.file, page⟩
    have hunit : unit env tree.height tree.children (start env) =
        (unitBody (body env tree.height) tree.children >>= fun _ => outdent >>= fun _ =>
          assemble env) (start env) := rfl
    dsimp only at hgen
    split at hgen
    · cases hgen
    · next t hrun =>
      obtain ⟨_, s, hbody, hrest⟩ := bind_eq_ok (hunit.symm.trans hrun)
      obtain ⟨_, w, hout, hassemble⟩ := bind_eq_ok hrest
      have hok : Site.Visited ⟨env, tree⟩ fun _ _ _ => True := fun _ _ _ _ _ _ _ _ => trivial
      obtain ⟨-, -, c, hc, d, rfl, hd⟩ := writes_unitBody hroot hvalid env hok () s hbody
      obtain ⟨-, hlater, c', hc', rfl⟩ := Writes.outdent (s := s)
        (Q := fun _ _ c => c = .outdent .nil) (fun _ _ => rfl) () w hout
      obtain rfl := Except.ok.inj hgen
      have hdesk : w.desk = (Code.indent d ++ .outdent .nil).replay (start env).desk := by
        rw [Code.replay_append, ← hc, hc']
      have hnodes : ∀ k, k ≠ 0 → (Code.indent d ++ .outdent .nil).nodes.count k ≤ 1 := by
        intro k hk
        have hwithin : (Code.indent d ++ .outdent .nil).nodes.count k ≤ weight tree.children k := by
          simpa [Code.nodes] using hd.within k hk
        exact Nat.le_trans hwithin
          (Nat.le_trans (weight_children_le tree k) (v.count_numbers_numbered k))
      have hparts : (Code.indent d ++ .outdent .nil).Parts (Site.IsPart ⟨env, tree⟩ s) :=
        (Code.parts_append _ _).mpr ⟨hd.fits.parts, trivial⟩
      obtain ⟨hnotes, honce, hfound⟩ :=
        notes_replay hdesk hnodes fun h => Code.parts_layout hparts 0 h
      obtain ⟨F, hF, hkept⟩ := assemble_assembly hnotes honce hfound hassemble
      refine ⟨s, t, F, hbody, ?_, rfl, hF.file.parts, hF.file.whole, ?_, hF.file.noted, ?_, ?_⟩
      · have hwritten := hF.file.gains.written
        simp [Writer.text, hwritten, Layout.text]
      · intro k hk
        have := hF.once k hk
        simpa using this
      · intro k hk hfirst
        rcases hF.found k hk hfirst with h | ⟨p, hp, -⟩
        · exact h
        · exact absurd hp List.not_mem_nil
      · intro k hk
        refine hkept k ?_
        rwa [State.HasLines, spans_of_outdent hout]
  · cases hgen

end ServerPages.Generation
