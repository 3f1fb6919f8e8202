import Mathlib.Logic.Function.Iterate
import ServerPages.Proofs.WrittenCode

/-!
# Where code stands

A recorded code ends up in four writers: the current one, the declarations, the methods and the
fragment bodies. `Layout` is the text of a writer line by line, with the parts that belong to nodes
still marked, and `Code.layout` tells what a code adds to each writer.

The lines of a part are counted while it is written, in a writer that may be spliced into another
one later, and then into the file. `Code.replay_moves` says that all of that comes out right as long
as no node is written twice: the lines noted for a node are those where its part stands.

## Main results

* `Layout.marks`: the lines of the parts of a text that starts on some line.
* `moves_part`, `moves_spliced`: how parts are counted, and moved by a splice.
* `Code.replay_moves`: the lines noted for nodes are those of their parts, in every writer.
-/

namespace ServerPages.Generation

/-! ### Layouts -/

/-- Lines of code, with the parts of nodes marked. Every line carries its end. -/
inductive Layout where
  /-- Nothing more. -/
  | nil
  /-- A line; it may have line ends inside. -/
  | line (text : Bytes) (rest : Layout)
  /-- The lines of a node. -/
  | part (node : Nat) (body rest : Layout)

namespace Layout

/-- One layout after another. -/
def append : Layout → Layout → Layout
  | nil, m => m
  | line t rest, m => line t (rest.append m)
  | part k body rest, m => part k body (rest.append m)

instance : Append Layout := ⟨append⟩

section Append

variable (t : Bytes) (k : Nat) (b l m n : Layout)

@[simp] theorem nil_append : nil ++ m = m := rfl

@[simp] theorem line_append : line t l ++ m = line t (l ++ m) := rfl

@[simp] theorem part_append : part k b l ++ m = part k b (l ++ m) := rfl

@[simp] theorem append_nil : l ++ nil = l := by
  induction l <;> simp [*]

@[simp] theorem append_assoc : l ++ m ++ n = l ++ (m ++ n) := by
  induction l <;> simp [*]

end Append

/-- The lines. -/
def pieces : Layout → List Bytes
  | nil => []
  | line t rest => t :: rest.pieces
  | part _ body rest => body.pieces ++ rest.pieces

/-- The text. -/
def text (l : Layout) : Bytes := l.pieces.flatten

/-- The number of line ends. -/
def height : Layout → Nat
  | nil => 0
  | line t rest => Bytes.countByte 10 t + rest.height
  | part _ body rest => body.height + rest.height

/-- The nodes that have parts, one entry for each part. -/
def nodes : Layout → List Nat
  | nil => []
  | line _ rest => rest.nodes
  | part k body rest => k :: (body.nodes ++ rest.nodes)

/-- The lines of a part that starts on line `i` and has `n` lines; zeros if it has none. -/
def spanAt (i n : Nat) : LineSpan := if n = 0 then {} else ⟨i, i + n - 1⟩

/-- The lines of the parts of a layout that starts on line `i`. -/
def marks : Nat → Layout → List (Nat × LineSpan)
  | _, nil => []
  | i, line t rest => marks (i + Bytes.countByte 10 t) rest
  | i, part k body rest =>
    (k, spanAt i body.height) :: (marks i body ++ marks (i + body.height) rest)

section Append

variable (l m : Layout)

@[simp] theorem pieces_append : (l ++ m).pieces = l.pieces ++ m.pieces := by
  induction l <;> simp [pieces, *]

@[simp] theorem text_append : (l ++ m).text = l.text ++ m.text := by
  simp [text]

@[simp] theorem height_append : (l ++ m).height = l.height + m.height := by
  induction l <;> simp [height, *, Nat.add_assoc]

@[simp] theorem nodes_append : (l ++ m).nodes = l.nodes ++ m.nodes := by
  induction l <;> simp [nodes, *]

theorem marks_append (i : Nat) : (l ++ m).marks i = l.marks i ++ m.marks (i + l.height) := by
  induction l generalizing i with
  | nil => rfl
  | line t rest ih => simp [marks, height, ih, Nat.add_assoc]
  | part k body rest _ ih => simp [marks, height, ih, Nat.add_assoc]

end Append

theorem countByte_text (l : Layout) : Bytes.countByte 10 l.text = l.height := by
  induction l with
  | nil => rfl
  | line t rest ih =>
    simp only [text, Bytes.countByte, pieces, height, List.flatten_cons, List.countP_append] at ih ⊢
    omega
  | part k body rest ihb ih =>
    simp only [text, Bytes.countByte, pieces, height, List.flatten_append,
      List.countP_append] at ihb ih ⊢
    omega

theorem map_fst_marks (i : Nat) (l : Layout) : (l.marks i).map (·.1) = l.nodes := by
  induction l generalizing i with
  | nil => rfl
  | line t rest ih => exact ih _
  | part k body rest ihb ih => simp [marks, nodes, ihb, ih]

theorem mem_nodes_of_mem_marks {i : Nat} {l : Layout} {p : Nat × LineSpan} (h : p ∈ l.marks i) :
    p.1 ∈ l.nodes := map_fst_marks i l ▸ List.mem_map_of_mem h

/-! ### Lines moved down -/

/-- Lines moved down by `d`; no lines stay so. -/
def moved (d : Nat) (s : LineSpan) : LineSpan :=
  if s.first == 0 then s else ⟨s.first + d, s.last + d⟩

theorem moved_spanAt {i : Nat} (hi : 1 ≤ i) (d n : Nat) :
    moved d (spanAt i n) = spanAt (i + d) n := by
  unfold spanAt
  by_cases hn : n = 0
  · simp [hn, moved]
  · have hi0 : i ≠ 0 := by omega
    simp only [hn, if_false, moved, beq_iff_eq, hi0]
    congr 1
    omega

theorem marks_add {i : Nat} (hi : 1 ≤ i) (d : Nat) (l : Layout) :
    l.marks (i + d) = (l.marks i).map fun p => (p.1, moved d p.2) := by
  induction l generalizing i with
  | nil => rfl
  | line t rest ih =>
    rw [marks, marks, ← ih (by omega)]
    congr 1
    omega
  | part k body rest ihb ih =>
    have hr := ih (i := i + body.height) (by omega)
    rw [show i + body.height + d = i + d + body.height by omega] at hr
    simp [marks, moved_spanAt hi, ihb hi, hr]

theorem moved_of_first_eq_zero {s : LineSpan} (h : s.first = 0) (d : Nat) : moved d s = s := by
  simp [moved, h]

end Layout

/-! ### The table of lines -/

namespace Spans

theorem get_set (s : Spans) (k j : Nat) (span : LineSpan) :
    (s.set k span).get j = if j = k then span else s.get j := by
  by_cases h : j = k
  · simp [Spans.get, Spans.set, h]
  · have hjk : (j == k) = false := by simpa using h
    simp [Spans.get, Spans.set, h, hjk, List.lookup_cons]

theorem get_shift (s : Spans) (d k j : Nat) :
    (s.shift d k).get j = if j = k then Layout.moved d (s.get j) else s.get j := by
  unfold Spans.shift Layout.moved
  by_cases h0 : (s.get k).first == 0
  · by_cases hj : j = k
    · subst hj
      simp [h0]
    · simp [h0, hj]
  · by_cases hj : j = k
    · subst hj
      simp [h0, get_set]
    · simp [h0, get_set, hj]

/-- A node is moved as often as it is listed. -/
theorem get_foldr_shift (d : Nat) (ks : List Nat) (s : Spans) (j : Nat) :
    (ks.foldr (fun k s => s.shift d k) s).get j = (Layout.moved d)^[ks.count j] (s.get j) := by
  induction ks with
  | nil => rfl
  | cons k ks ih =>
    rw [List.foldr_cons, get_shift, ih]
    by_cases h : j = k
    · subst h
      simp [Function.iterate_succ_apply']
    · have hk : k ≠ j := fun e => h e.symm
      simp [h, hk]

theorem get_finish (w : Writer) (s : Spans) (k j : Nat) :
    (w.finish k s).get j =
      if j = k then
        if w.line = (s.get k).first then ⟨0, (s.get k).last⟩ else ⟨(s.get k).first, w.line - 1⟩
      else s.get j := by
  rw [Writer.finish, get_set]
  by_cases h : w.line = (s.get k).first <;> simp [h]

/-- What is noted for a node that is begun and ended. -/
theorem get_finish_begun {w : Writer} {s : Spans} {k i n : Nat}
    (hk : s.get k = ⟨i, 0⟩) (hw : w.line = i + n) : (w.finish k s).get k = Layout.spanAt i n := by
  rw [get_finish, if_pos rfl, hk, hw, Layout.spanAt]
  by_cases hn : n = 0
  · simp [hn]
  · have hmore : i + n ≠ i := by omega
    rw [if_neg hmore, if_neg hn]

/-- Moving the lines of nodes leaves no node without lines. -/
theorem get_shift_ne_zero {s : Spans} {k : Nat} (h : (s.get k).first ≠ 0) (d j : Nat) :
    ((s.shift d j).get k).first ≠ 0 := by
  rw [get_shift]
  split
  · unfold Layout.moved
    split
    · exact h
    · show (s.get k).first + d ≠ 0
      omega
  · exact h

theorem get_splice_ne_zero {s : Spans} {k : Nat} (h : (s.get k).first ≠ 0) (w o : Writer) :
    ((w.splice o s).2.get k).first ≠ 0 := by
  show ((o.marked.foldr (fun n s => s.shift (w.line - 1) n) s).get k).first ≠ 0
  induction o.marked with
  | nil => exact h
  | cons j js ih => exact get_shift_ne_zero ih _ _

end Spans

/-- Whether a node has lines. -/
def State.HasLines (s : State) (k : Nat) : Prop := (s.spans.get k).first ≠ 0

/-! ### What a writer gains -/

/-- The second writer is the first one with a layout written to it. The nodes counted in it are
among those of the layout, and all of these are that have lines. Nodes that are not numbered are
not followed. -/
structure Writer.Gains (w v : Writer) (l : Layout) : Prop where
  written : v.written = l.pieces.reverse ++ w.written
  line : v.line = w.line + l.height
  marked : ∃ ms, v.marked = ms ++ w.marked ∧ (∀ k, k ≠ 0 → ms.count k ≤ l.nodes.count k) ∧
    ∀ p ∈ l.marks w.line, p.1 ≠ 0 → p.2.first ≠ 0 → p.1 ∈ ms

namespace Writer.Gains

variable {w v u : Writer} {l m : Layout}

theorem refl (w : Writer) : w.Gains w .nil := by
  refine ⟨rfl, rfl, [], rfl, ?_, ?_⟩
  · intro k _
    exact Nat.le_refl _
  · intro p hp
    exact absurd hp List.not_mem_nil

theorem trans (h : w.Gains v l) (h' : v.Gains u m) : w.Gains u (l ++ m) := by
  obtain ⟨ms, hms, hcount, hmem⟩ := h.marked
  obtain ⟨ms', hms', hcount', hmem'⟩ := h'.marked
  refine ⟨?_, ?_, ms' ++ ms, ?_, ?_, ?_⟩
  · simp [h'.written, h.written]
  · rw [h'.line, h.line, Layout.height_append, Nat.add_assoc]
  · rw [hms', hms, List.append_assoc]
  · intro k hk
    have := hcount k hk
    have := hcount' k hk
    simp only [List.count_append, Layout.nodes_append]
    omega
  · intro p hp h0 hfirst
    rw [Layout.marks_append, List.mem_append, ← h.line] at hp
    rcases hp with hp | hp
    · exact List.mem_append_right _ (hmem p hp h0 hfirst)
    · exact List.mem_append_left _ (hmem' p hp h0 hfirst)

theorem println (w : Writer) (s : Bytes) :
    w.Gains (w.println s) (.line (codeLine w.indent s) .nil) := by
  refine ⟨rfl, ?_, [], rfl, ?_, ?_⟩
  · have htabs : Bytes.countByte 10 (codeLine w.indent s) = Bytes.countByte 10 s + 1 := by
      unfold codeLine Bytes.countByte
      split <;> simp [List.countP_append, List.countP_replicate]
    simp only [Writer.println, Layout.height, htabs]
    omega
  · intro k _
    exact Nat.le_refl _
  · intro p hp
    exact absurd hp List.not_mem_nil

/-- A part is written between its begin and its end. -/
theorem part {k : Nat} (h : ({ w with marked := k :: w.marked } : Writer).Gains v l) :
    w.Gains v (.part k l .nil) := by
  obtain ⟨ms, hms, hcount, hmem⟩ := h.marked
  refine ⟨?_, ?_, ms ++ [k], ?_, ?_, ?_⟩
  · simp [h.written, Layout.pieces]
  · exact h.line
  · simp [hms]
  · intro j hj
    have := hcount j hj
    simp only [Layout.nodes, List.count_append, List.count_cons, List.count_nil, List.append_nil]
    omega
  · intro p hp h0 hfirst
    rcases List.mem_cons.mp hp with rfl | hp
    · simp
    · rw [Layout.marks, List.append_nil] at hp
      exact List.mem_append_left _ (hmem p hp h0 hfirst)

/-- A splice appends what was written to the other writer, with the nodes that have lines. -/
theorem splice {o : Writer} {spans : Spans} (h : ({} : Writer).Gains o l) (hw : 1 ≤ w.line)
    (hspans : ∀ p ∈ l.marks 1, p.1 ≠ 0 → p.2.first ≠ 0 → (spans.get p.1).first ≠ 0) :
    w.Gains (w.splice o spans).1 l := by
  obtain ⟨ms, hms, hcount, hmem⟩ := h.marked
  have hmarked : o.marked = ms := by simpa using hms
  refine ⟨?_, ?_, ms.filter fun n => (spans.get n).first != 0, ?_, ?_, ?_⟩
  · simp [Writer.splice, h.written]
  · simp only [Writer.splice, h.line]
    omega
  · simp [Writer.splice, hmarked]
  · intro k hk
    exact Nat.le_trans (List.filter_sublist.count_le k) (hcount k hk)
  · intro p hp h0 hfirst
    obtain ⟨d, hd⟩ : ∃ d, w.line = 1 + d := ⟨w.line - 1, by omega⟩
    rw [hd, Layout.marks_add (Nat.le_refl 1), List.mem_map] at hp
    obtain ⟨q, hq, rfl⟩ := hp
    have hq0 : q.2.first ≠ 0 := by
      intro h0
      exact hfirst (by rw [Layout.moved_of_first_eq_zero h0, h0])
    exact List.mem_filter.mpr ⟨hmem q hq h0 hq0, by simpa using hspans q hq h0 hq0⟩

/-- After a splice the lines noted for nodes are those where their parts stand now. -/
theorem noted_splice {o : Writer} {spans : Spans} (h : ({} : Writer).Gains o l)
    (hw : 1 ≤ w.line) (honce : ∀ k, k ≠ 0 → l.nodes.count k ≤ 1)
    (hnoted : ∀ p ∈ l.marks 1, p.1 ≠ 0 → spans.get p.1 = p.2) :
    ∀ p ∈ l.marks w.line, p.1 ≠ 0 → (w.splice o spans).2.get p.1 = p.2 := by
  intro p hp h0
  obtain ⟨ms, hms, hcount, hmem⟩ := h.marked
  have hmarked : o.marked = ms := by simpa using hms
  obtain ⟨d, hd⟩ : ∃ d, w.line = 1 + d := ⟨w.line - 1, by omega⟩
  rw [hd, Layout.marks_add (Nat.le_refl 1), List.mem_map] at hp
  obtain ⟨q, hq, rfl⟩ := hp
  have hget : (w.splice o spans).2.get q.1 = (Layout.moved d)^[ms.count q.1] q.2 := by
    have hw1 : w.line - 1 = d := by omega
    rw [Writer.splice, Spans.get_foldr_shift, hmarked, hnoted q hq h0, hw1]
  rw [hget]
  by_cases hfirst : q.2.first = 0
  · have hfix := Layout.moved_of_first_eq_zero hfirst d
    rw [hfix, Function.iterate_fixed hfix]
  · have hone : ms.count q.1 = 1 := by
      have h1 := List.one_le_count_iff.mpr (hmem q hq h0 hfirst)
      have h2 := hcount q.1 h0
      have h3 := honce q.1 h0
      omega
    rw [hone, Function.iterate_one]

/-- A splice leaves the lines of nodes alone that were not counted in the other writer. -/
theorem kept_splice {o : Writer} {spans : Spans} (h : ({} : Writer).Gains o l) {k : Nat}
    (hk : k ≠ 0) (hno : k ∉ l.nodes) : (w.splice o spans).2.get k = spans.get k := by
  obtain ⟨ms, hms, hcount, _⟩ := h.marked
  have hmarked : o.marked = ms := by simpa using hms
  have hzero : ms.count k = 0 := by
    have := hcount k hk
    rw [List.count_eq_zero_of_not_mem hno] at this
    omega
  rw [Writer.splice, Spans.get_foldr_shift, hmarked, hzero, Function.iterate_zero, id]

end Writer.Gains

/-! ### Layouts of a code -/

/-- The writers of a unit. -/
inductive Sheet where
  /-- The current writer. -/
  | out
  /-- Declarations of the page. -/
  | declarations
  /-- Methods of tags that have one of their own. -/
  | methods
  /-- The cases of the fragment bodies. -/
  | fragments
  deriving DecidableEq

/-- A writer of a unit. -/
def Desk.writer (d : Desk) : Sheet → Writer
  | .out => d.out
  | .declarations => d.declarations
  | .methods => d.methods
  | .fragments => d.fragments

namespace Code

/-- How far lines are indented after a code that starts with lines indented that far. -/
def depth : Nat → Code → Nat
  | i, nil => i
  | i, line _ rest => rest.depth i
  | i, indent rest => rest.depth (i + 1)
  | i, outdent rest => rest.depth (i - 1)
  | i, part _ body rest => rest.depth (body.depth i)
  | i, declaration _ _ rest | i, method _ _ rest | i, fragment _ rest => rest.depth i

/-- Lines that are not indented. -/
def plain : List Bytes → Layout
  | [] => .nil
  | l :: ls => .line (codeLine 0 l) (plain ls)

/-- The blank line before a method. -/
def gap (isApart : Bool) : Layout := if isApart then .line (codeLine 0 []) .nil else .nil

/-- What a code adds to each writer, if its lines are indented that far at the start. -/
def layout : Nat → Code → Sheet → Layout
  | _, nil, _ => .nil
  | i, line s rest, .out => .line (codeLine i s.text) (rest.layout i .out)
  | i, line _ rest, h => rest.layout i h
  | i, indent rest, h => rest.layout (i + 1) h
  | i, outdent rest, h => rest.layout (i - 1) h
  | i, part k body rest, .out =>
    .part k (body.layout i .out) (rest.layout (body.depth i) .out)
  | i, part _ body rest, h => body.layout i h ++ rest.layout (body.depth i) h
  | i, declaration k ls rest, .declarations => .part k (plain ls) (rest.layout i .declarations)
  | i, declaration _ _ rest, h => rest.layout i h
  | i, method _ _ rest, .out => rest.layout i .out
  | i, method isApart body rest, .methods =>
    body.layout 0 .methods ++ (gap isApart ++ (body.layout 0 .out ++ rest.layout i .methods))
  | i, method _ body rest, h => body.layout 0 h ++ rest.layout i h
  | i, fragment _ rest, .out => rest.layout i .out
  | i, fragment body rest, .fragments =>
    body.layout 0 .fragments ++ (body.layout 0 .out ++ rest.layout i .fragments)
  | i, fragment body rest, h => body.layout 0 h ++ rest.layout i h

@[simp] theorem nodes_plain (ls : List Bytes) : (plain ls).nodes = [] := by
  induction ls with
  | nil => rfl
  | cons l ls ih => exact ih

@[simp] theorem nodes_gap (isApart : Bool) : (gap isApart).nodes = [] := by
  cases isApart <;> rfl

/-- How often a node has a part in the layouts of the writers. -/
def total (l : Sheet → Layout) (k : Nat) : Nat :=
  (l .out).nodes.count k + (l .declarations).nodes.count k + (l .methods).nodes.count k +
    (l .fragments).nodes.count k

/-- Every part of a code ends up in one of the writers. -/
theorem total_layout (c : Code) (i k : Nat) : total (c.layout i) k = c.nodes.count k := by
  induction c generalizing i with
  | nil => rfl
  | line s rest ih | indent rest ih | outdent rest ih => exact ih _
  | part j body rest ihb ih =>
    have hb := ihb i
    have hr := ih (body.depth i)
    simp only [total, layout, Layout.nodes, Layout.nodes_append, nodes, List.count_append,
      List.count_cons] at hb hr ⊢
    omega
  | declaration j ls rest ih =>
    have hr := ih i
    simp only [total, layout, Layout.nodes, nodes_plain, nodes, List.nil_append,
      List.count_cons] at hr ⊢
    omega
  | method isApart body rest ihb ih | fragment body rest ihb ih =>
    have hb := ihb 0
    have hr := ih i
    simp only [total, layout, Layout.nodes_append, nodes_gap, nodes, List.nil_append,
      List.count_append] at hb hr ⊢
    omega

theorem layout_append (c d : Code) (i : Nat) (h : Sheet) :
    (c ++ d).layout i h = c.layout i h ++ d.layout (c.depth i) h := by
  induction c generalizing i with
  | nil => rfl
  | line s rest ih | indent rest ih | outdent rest ih =>
    cases h <;> simp [layout, depth, ih]
  | part k body rest _ ih | method isApart body rest _ ih | fragment body rest _ ih =>
    cases h <;> simp [layout, depth, ih]
  | declaration k ls rest ih => cases h <;> simp [layout, depth, ih]

end Code

/-! ### What the writers of a unit gain -/

/-- The second writers are the first ones with layouts written to them; the lines noted for the
nodes of the layouts are those of their parts, and other nodes keep theirs. -/
structure Desk.Moves (d e : Desk) (l : Sheet → Layout) : Prop where
  gains : ∀ h, (d.writer h).Gains (e.writer h) (l h)
  noted : ∀ h, ∀ p ∈ (l h).marks (d.writer h).line, p.1 ≠ 0 → e.spans.get p.1 = p.2
  kept : ∀ k, k ≠ 0 → (∀ h, k ∉ (l h).nodes) → e.spans.get k = d.spans.get k

/-- Writers whose lines are counted from one on. -/
structure Desk.Counts (d : Desk) : Prop where
  line : ∀ h, 1 ≤ (d.writer h).line
  plain : d.declarations.indent = 0

theorem Desk.Counts.with_out {d : Desk} (hd : d.Counts) (w : Writer) (spans : Spans)
    (hw : 1 ≤ w.line) : Desk.Counts { d with out := w, spans := spans } := by
  refine ⟨?_, hd.plain⟩
  intro s
  cases s with
  | out => exact hw
  | declarations => exact hd.line .declarations
  | methods => exact hd.line .methods
  | fragments => exact hd.line .fragments

namespace Desk.Moves

variable {d e f : Desk} {l m : Sheet → Layout}

theorem refl (d : Desk) : d.Moves d fun _ => .nil := by
  refine ⟨fun _ => .refl _, ?_, ?_⟩
  · intro h p hp
    exact absurd hp List.not_mem_nil
  · intro k _ _
    rfl

/-- Layouts may follow each other that have no nodes in common. -/
theorem trans (h : d.Moves e l) (h' : e.Moves f m)
    (hdisj : ∀ k, k ≠ 0 → Code.total l k + Code.total m k ≤ 1) :
    d.Moves f fun s => l s ++ m s := by
  have hapart : ∀ k, k ≠ 0 → ∀ s, k ∈ (l s).nodes → ∀ t, k ∉ (m t).nodes := by
    intro k hk s hs t ht
    have h1 := List.one_le_count_iff.mpr hs
    have h2 := List.one_le_count_iff.mpr ht
    have := hdisj k hk
    cases s <;> cases t <;> simp only [Code.total] at this <;> omega
  refine ⟨fun s => (h.gains s).trans (h'.gains s), ?_, ?_⟩
  · intro s p hp h0
    rw [Layout.marks_append, List.mem_append, ← (h.gains s).line] at hp
    rcases hp with hp | hp
    · rw [h'.kept p.1 h0 (hapart p.1 h0 s (Layout.mem_nodes_of_mem_marks hp))]
      exact h.noted s p hp h0
    · exact h'.noted s p hp h0
  · intro k hk hno
    simp only [Layout.nodes_append, List.mem_append, not_or] at hno
    rw [h'.kept k hk fun s => (hno s).2, h.kept k hk fun s => (hno s).1]

theorem congr (h : d.Moves e l) (hl : ∀ s, l s = m s) : d.Moves e m := by
  have hlm : l = m := funext hl
  exact hlm ▸ h

theorem counts (h : d.Moves e l) (hd : d.Counts)
    (hplain : e.declarations.indent = d.declarations.indent) : e.Counts := by
  refine ⟨?_, hplain.trans hd.plain⟩
  intro s
  have := hd.line s
  rw [(h.gains s).line]
  omega

end Desk.Moves

namespace Code

theorem indent_replay (c : Code) (d : Desk) : (c.replay d).out.indent = c.depth d.out.indent := by
  induction c generalizing d with
  | nil => rfl
  | line s rest ih | indent rest ih | outdent rest ih => exact ih _
  | part k body rest ihb ih =>
    have hb := ihb { d with out := (d.out.begin k d.spans).1, spans := (d.out.begin k d.spans).2 }
    rw [replay, ih, depth]
    exact congrArg (rest.depth ·) hb
  | method isApart body rest _ ih | fragment body rest _ ih => exact ih _
  | declaration k ls rest ih => exact ih _

theorem indent_foldl_println (ls : List Bytes) (w : Writer) :
    (ls.foldl Writer.println w).indent = w.indent := by
  induction ls generalizing w with
  | nil => rfl
  | cons l ls ih => exact ih _

theorem declarations_replay (c : Code) (d : Desk) :
    (c.replay d).declarations.indent = d.declarations.indent := by
  induction c generalizing d with
  | nil => rfl
  | line s rest ih | indent rest ih | outdent rest ih => exact ih _
  | part k body rest ihb ih | method isApart body rest ihb ih | fragment body rest ihb ih =>
    exact (ih _).trans (ihb _)
  | declaration k ls rest ih => exact (ih _).trans (indent_foldl_println ls _)

/-! ### One step at a time -/

section Moves

variable {d e : Desk} {l : Sheet → Layout}

theorem moves_line (d : Desk) (s : Statement) :
    d.Moves ((line s nil).replay d) ((line s nil).layout d.out.indent) := by
  refine ⟨?_, ?_, ?_⟩
  · intro h
    cases h with
    | out => exact .println _ _
    | declarations | methods | fragments => exact .refl _
  · intro h p hp
    cases h <;> exact absurd hp List.not_mem_nil
  · intro k _ _
    rfl

/-- Indentation alone does not show. -/
theorem moves_indent (d : Desk) (i : Nat) :
    d.Moves { d with out := { d.out with indent := i } } fun _ => .nil := by
  refine ⟨?_, ?_, ?_⟩
  · intro h
    cases h with
    | out => exact ⟨rfl, rfl, (Writer.Gains.refl d.out).marked⟩
    | declarations | methods | fragments => exact .refl _
  · intro h p hp
    exact absurd hp List.not_mem_nil
  · intro k _ _
    rfl

/-- A part among the lines of the current writer. -/
theorem moves_part {k : Nat}
    (h : Desk.Moves
        { d with out := (d.out.begin k d.spans).1, spans := d.spans.set k ⟨d.out.line, 0⟩ }
      e l) (honce : k ≠ 0 → total l k = 0) :
    d.Moves { e with spans := e.out.finish k e.spans } fun
      | .out => .part k (l .out) .nil
      | s => l s := by
  have hne : k ≠ 0 → ∀ s, k ∉ (l s).nodes := by
    intro hk s hs
    have h1 := List.one_le_count_iff.mpr hs
    have h2 := honce hk
    cases s <;> simp only [total] at h2 <;> omega
  have hget : ∀ j, j ≠ k → (e.out.finish k e.spans).get j = e.spans.get j := by
    intro j hj
    rw [Spans.get_finish, if_neg hj]
  have hother : ∀ s, ∀ p ∈ (l s).marks (d.writer s).line, p.1 ≠ 0 →
      (e.out.finish k e.spans).get p.1 = p.2 := by
    intro s p hp h0
    have hpk : p.1 ≠ k := by
      rintro rfl
      exact hne h0 s (Layout.mem_nodes_of_mem_marks hp)
    rw [hget p.1 hpk]
    exact h.noted s p (by cases s <;> exact hp) h0
  refine ⟨?_, ?_, ?_⟩
  · intro s
    cases s with
    | out => exact .part (h.gains .out)
    | declarations => exact h.gains .declarations
    | methods => exact h.gains .methods
    | fragments => exact h.gains .fragments
  · intro s p hp h0
    cases s with
    | out =>
      rcases List.mem_cons.mp hp with rfl | hp
      · have hk := h.kept k h0 (hne h0)
        rw [Spans.get_set, if_pos rfl] at hk
        exact Spans.get_finish_begun hk (h.gains .out).line
      · rw [Layout.marks, List.append_nil] at hp
        exact hother .out p hp h0
    | declarations => exact hother .declarations p hp h0
    | methods => exact hother .methods p hp h0
    | fragments => exact hother .fragments p hp h0
  · intro j hj hno
    have hout := hno .out
    simp only [Layout.nodes, List.mem_cons, not_or] at hout
    rw [hget j hout.1, h.kept j hj, Spans.get_set, if_neg hout.1]
    intro s
    cases s with
    | out => simpa [Layout.nodes] using hout.2
    | declarations => exact hno .declarations
    | methods => exact hno .methods
    | fragments => exact hno .fragments

theorem gains_plain {w : Writer} (hw : w.indent = 0) (ls : List Bytes) :
    w.Gains (ls.foldl Writer.println w) (plain ls) := by
  induction ls generalizing w with
  | nil => exact .refl w
  | cons l ls ih =>
    have hl := Writer.Gains.println w l
    rw [hw] at hl
    exact hl.trans (ih hw)

theorem marks_plain (i : Nat) (ls : List Bytes) : (plain ls).marks i = [] := by
  induction ls generalizing i with
  | nil => rfl
  | cons l ls ih => exact ih _

/-- A part among the declarations. -/
theorem moves_declaration (hd : d.Counts) (k : Nat) (ls : List Bytes) :
    d.Moves ((declaration k ls nil).replay d) ((declaration k ls nil).layout d.out.indent) := by
  have hgains := gains_plain (w := (d.declarations.begin k d.spans).1) hd.plain ls
  refine ⟨?_, ?_, ?_⟩
  · intro s
    cases s with
    | declarations => exact .part hgains
    | out | methods | fragments => exact .refl _
  · intro s p hp h0
    cases s with
    | declarations =>
      rw [layout, Layout.marks, marks_plain, List.nil_append] at hp
      rcases List.mem_cons.mp hp with rfl | hp
      · refine Spans.get_finish_begun ?_ hgains.line
        rw [Writer.begin, Spans.get_set, if_pos rfl]
        rfl
      · exact absurd hp List.not_mem_nil
    | out | methods | fragments => exact absurd hp List.not_mem_nil
  · intro j hj hno
    have hk := hno .declarations
    simp only [layout, Layout.nodes, List.mem_cons, not_or] at hk
    rw [replay, replay, Spans.get_finish, if_neg hk.1, Writer.begin, Spans.get_set, if_neg hk.1]

/-- Code that was written to a writer of its own is spliced into another one. -/
theorem noted_spliced {w : Writer} (h : Desk.Moves { d with out := {} } e l) (hw : 1 ≤ w.line)
    (honce : ∀ k, k ≠ 0 → total l k ≤ 1) :
    (∀ p ∈ (l .out).marks w.line, p.1 ≠ 0 → (w.splice e.out e.spans).2.get p.1 = p.2) ∧
    (∀ s, s ≠ .out → ∀ p ∈ (l s).marks (d.writer s).line, p.1 ≠ 0 →
      (w.splice e.out e.spans).2.get p.1 = p.2) ∧
    ∀ k, k ≠ 0 → (∀ s, k ∉ (l s).nodes) → (w.splice e.out e.spans).2.get k = d.spans.get k := by
  have hgains : ({} : Writer).Gains e.out (l .out) := h.gains .out
  refine ⟨?_, ?_, ?_⟩
  · refine hgains.noted_splice hw ?_ (h.noted .out)
    intro k hk
    have := honce k hk
    unfold total at this
    omega
  · intro s hs p hp h0
    have hno : p.1 ∉ (l .out).nodes := by
      intro hmem
      have h1 := List.one_le_count_iff.mpr hmem
      have h2 := List.one_le_count_iff.mpr (Layout.mem_nodes_of_mem_marks hp)
      have h3 := honce p.1 h0
      cases s <;> simp only [total] at h3 <;> first | exact hs rfl | omega
    rw [hgains.kept_splice h0 hno]
    exact h.noted s p (by cases s <;> first | exact absurd rfl hs | exact hp) h0
  · intro k hk hno
    rw [hgains.kept_splice hk (hno .out), h.kept k hk hno]

/-- Code that was written to a writer of its own is taken over by another writer than the current
one, after lines without nodes. -/
theorem moves_spliced {f : Desk} {w : Writer} {g : Layout} {t : Sheet} (hd : d.Counts)
    (h : Desk.Moves { d with out := {} } e l) (honce : ∀ k, k ≠ 0 → total l k ≤ 1) (ht : t ≠ .out)
    (hw : (e.writer t).Gains w g) (hg : g.nodes = [])
    (hout : f.out = d.out) (hsplice : f.writer t = (w.splice e.out e.spans).1)
    (hrest : ∀ s, s ≠ .out → s ≠ t → f.writer s = e.writer s)
    (hspans : f.spans = (w.splice e.out e.spans).2) :
    d.Moves f fun s =>
      if s = .out then .nil else if s = t then l t ++ (g ++ l .out) else l s := by
  have hstart : ∀ s, s ≠ .out → ({ d with out := {} } : Desk).writer s = d.writer s := by
    intro s hs
    cases s <;> first | exact absurd rfl hs | rfl
  have hto := (h.gains t).trans hw
  rw [hstart t ht] at hto
  have hline1 : 1 ≤ w.line := by
    have := hd.line t
    rw [hto.line]
    omega
  obtain ⟨hmoved, hother, hkept⟩ := noted_spliced h hline1 honce
  have hmarks : ∀ i, g.marks i = [] := by
    intro i
    rw [← List.map_eq_nil_iff, Layout.map_fst_marks, hg]
  refine ⟨?_, ?_, ?_⟩
  · intro s
    by_cases hs : s = .out
    · subst hs
      simp only [if_true]
      have hkeeps : f.writer .out = d.writer .out := hout
      exact hkeeps ▸ .refl (d.writer .out)
    · by_cases hst : s = t
      · subst hst
        simp only [if_neg hs, if_true, hsplice, ← Layout.append_assoc]
        refine hto.trans ((h.gains .out).splice hline1 ?_)
        intro p hp h0 hfirst
        rwa [h.noted .out p hp h0]
      · simp only [if_neg hs, if_neg hst, hrest s hs hst]
        exact hstart s hs ▸ h.gains s
  · intro s p hp h0
    rw [hspans]
    by_cases hs : s = .out
    · rw [if_pos hs] at hp
      exact absurd hp List.not_mem_nil
    · by_cases hst : s = t
      · subst hst
        rw [if_neg hs, if_pos rfl, ← Layout.append_assoc, Layout.marks_append, ← hto.line,
          Layout.marks_append, hmarks, List.append_nil, List.mem_append] at hp
        rcases hp with hp | hp
        · exact hother s hs p hp h0
        · exact hmoved p hp h0
      · rw [if_neg hs, if_neg hst] at hp
        exact hother s hs p hp h0
  · intro k hk hno
    rw [hspans]
    refine hkept k hk ?_
    have hall := hno t
    simp only [if_neg ht, if_true, Layout.nodes_append, List.mem_append, not_or] at hall
    intro s
    by_cases hs : s = .out
    · exact hs ▸ hall.2.2
    · by_cases hst : s = t
      · exact hst ▸ hall.1
      · have := hno s
        rwa [if_neg hs, if_neg hst] at this

/-- A code is followed by another one that has no nodes in common with it. -/
theorem moves_append {b c : Code} (hd : d.Counts)
    (honce : ∀ k, k ≠ 0 → (b ++ c).nodes.count k ≤ 1)
    (hb : d.Moves (b.replay d) (b.layout d.out.indent))
    (hc : (b.replay d).Counts →
      (b.replay d).Moves (c.replay (b.replay d)) (c.layout (b.replay d).out.indent)) :
    d.Moves ((b ++ c).replay d) ((b ++ c).layout d.out.indent) := by
  rw [replay_append]
  refine (hb.trans (hc (hb.counts hd (declarations_replay b d))) ?_).congr ?_
  · intro k hk
    have := honce k hk
    rw [nodes_append, List.count_append] at this
    rwa [total_layout, total_layout]
  · intro s
    rw [layout_append, indent_replay]

end Moves

/-- The lines noted for the nodes of a code are those of their parts, in every writer. -/
theorem replay_moves (c : Code) {d : Desk} (hd : d.Counts)
    (honce : ∀ k, k ≠ 0 → c.nodes.count k ≤ 1) :
    d.Moves (c.replay d) (c.layout d.out.indent) := by
  have hrest : ∀ (ms ns : List Nat), (∀ k, k ≠ 0 → (ms ++ ns).count k ≤ 1) →
      (∀ k, k ≠ 0 → ms.count k ≤ 1) ∧ ∀ k, k ≠ 0 → ns.count k ≤ 1 := by
    intro ms ns h
    constructor <;> intro k hk
    all_goals
      have := h k hk
      rw [List.count_append] at this
      omega
  -- Every code is its first step followed by the rest.
  induction c generalizing d with
  | nil => exact .refl d
  | line s rest ih =>
    exact moves_append (b := line s nil) hd honce (moves_line d s) fun h => ih h honce
  | indent rest ih =>
    exact moves_append (b := indent nil) hd honce
      ((moves_indent d (d.out.indent + 1)).congr fun s => by cases s <;> rfl) fun h => ih h honce
  | outdent rest ih =>
    exact moves_append (b := outdent nil) hd honce
      ((moves_indent d (d.out.indent - 1)).congr fun s => by cases s <;> rfl) fun h => ih h honce
  | declaration k ls rest ih =>
    exact moves_append (b := declaration k ls nil) hd honce (moves_declaration hd k ls)
      fun h => ih h (hrest [k] rest.nodes honce).2
  | part k body rest ihb ih =>
    obtain ⟨hpart, honce'⟩ := hrest (k :: body.nodes) rest.nodes honce
    refine moves_append (b := part k body nil) hd honce ?_ fun h => ih h honce'
    have hbody := ihb (hd.with_out (d.out.begin k d.spans).1 (d.spans.set k ⟨d.out.line, 0⟩)
      (hd.line .out))
      (hrest [k] body.nodes hpart).2
    refine (moves_part hbody ?_).congr fun s => ?_
    · intro hk
      have := hpart k hk
      rw [List.count_cons_self] at this
      rw [total_layout]
      omega
    · cases s <;> simp [layout, Writer.begin]
  | method isApart body rest ihb ih =>
    obtain ⟨hpart, honce'⟩ := hrest body.nodes rest.nodes honce
    refine moves_append (b := method isApart body nil) hd honce ?_ fun h => ih h honce'
    have hbody := ihb (hd.with_out {} d.spans (Nat.le_refl 1)) hpart
    have hgap : (body.replay { d with out := {} }).methods.Gains
        (if isApart then (body.replay { d with out := {} }).methods.println []
          else (body.replay { d with out := {} }).methods) (gap isApart) := by
      cases isApart with
      | false => exact .refl _
      | true => exact .println _ []
    refine (moves_spliced (f := (method isApart body nil).replay d) (t := .methods) hd hbody ?_
      nofun hgap (nodes_gap isApart) rfl rfl ?_ rfl).congr fun s => ?_
    · intro k hk
      rw [total_layout]
      exact hpart k hk
    · intro s hs hst
      cases s <;> first | rfl | exact absurd rfl hs | exact absurd rfl hst
    · cases s <;> simp [layout]
  | fragment body rest ihb ih =>
    obtain ⟨hpart, honce'⟩ := hrest body.nodes rest.nodes honce
    refine moves_append (b := fragment body nil) hd honce ?_ fun h => ih h honce'
    have hbody := ihb (hd.with_out {} d.spans (Nat.le_refl 1)) hpart
    refine (moves_spliced (f := (fragment body nil).replay d) (t := .fragments) hd hbody ?_
      nofun (.refl _) rfl rfl rfl ?_ rfl).congr fun s => ?_
    · intro k hk
      rw [total_layout]
      exact hpart k hk
    · intro s hs hst
      cases s <;> first | rfl | exact absurd rfl hs | exact absurd rfl hst
    · cases s <;> simp [layout]

end Code

end ServerPages.Generation
