import Mathlib.Data.List.Pairwise
import ServerPages.Proofs.UnitLayout

/-!
# The lines of nodes in the generated file

Generation notes for every node on which lines of the file its code stands. Lines are counted in the
writer that code is written to, and moved when the writer is spliced into another one; what is noted
in the end are the lines of the file, whichever writers the code went through.

The code of a node stands inside that of the node that holds it, after a line of that one, or in a
method, a declaration or a fragment body elsewhere in the file. The lines of two nodes of a
generated tree are apart, or those of one lie inside those of the other and start later; then the
node is below the other one.

## Main results

* `lines_exact`: the lines noted for a node are lines of the file, and hold the code of the node and
  nothing else.
* `Layout.pairwise_marks`: parts of a layout are apart or one inside the other.
* `generate_isSpread`: the lines of the nodes of a generated tree are apart or nested as the nodes
  are, and lines of the file.
-/

namespace ServerPages

namespace Node

mutual

/-- The nodes of a tree with a function applied to every head are those of the tree, each with the
function applied. -/
theorem subtree_mapHeads (f : Head → Head) (n : Node) :
    (n.mapHeads f).subtree = n.subtree.map (mapHeads f) := by
  cases n with
  | mk h cs =>
    rw [mapHeads, subtree, subtree, List.map_cons, subtreeAll_mapHeadsAll, mapHeads]

theorem subtreeAll_mapHeadsAll (f : Head → Head) (ns : List Node) :
    subtreeAll (mapHeadsAll f ns) = (subtreeAll ns).map (mapHeads f) := by
  cases ns with
  | nil => rfl
  | cons c cs =>
    rw [mapHeadsAll, subtreeAll, subtree_mapHeads, subtreeAll_mapHeadsAll, subtreeAll,
      List.map_append]

end

theorem head_mapHeads (f : Head → Head) (n : Node) : (n.mapHeads f).head = f n.head := by
  cases n
  rfl

theorem mapHeadsAll_eq_map (f : Head → Head) (ns : List Node) :
    mapHeadsAll f ns = ns.map (mapHeads f) := by
  induction ns with
  | nil => rfl
  | cons n ns ih => rw [mapHeadsAll, ih, List.map_cons]

theorem children_mapHeads (f : Head → Head) (n : Node) :
    (n.mapHeads f).children = n.children.map (mapHeads f) := by
  cases n with
  | mk h cs => exact mapHeadsAll_eq_map f cs

/-- Whether the body of a node is blank depends on the kinds and texts of nodes only. -/
theorem hasEmptyBody_mapHeads {f : Head → Head} (hkind : ∀ h, (f h).kind = h.kind)
    (htext : ∀ h, (f h).text = h.text) (n : Node) :
    (n.mapHeads f).hasEmptyBody = n.hasEmptyBody := by
  have hkinds : ∀ m : Node, (m.mapHeads f).kind = m.kind := by
    intro m
    rw [kind, head_mapHeads, hkind, kind]
  have hblank : ∀ m : Node, (m.mapHeads f).isBlankText = m.isBlankText := by
    intro m
    rw [isBlankText, hkinds, text, head_mapHeads, htext, isBlankText, text]
  have hcontent : ∀ ns, contentOf (ns.map (mapHeads f)) = (contentOf ns).map (mapHeads f) := by
    intro ns
    have hbody : bodyElement? (ns.map (mapHeads f)) = (bodyElement? ns).map (mapHeads f) := by
      rw [bodyElement?, List.find?_map, bodyElement?]
      exact congrArg (fun q => (ns.find? q).map (mapHeads f))
        (funext fun m => congrArg (· == Kind.body) (hkinds m))
    rw [contentOf, hbody, contentOf]
    cases bodyElement? ns with
    | some b => exact children_mapHeads f b
    | none =>
      rw [Option.map_none, List.filter_map]
      exact congrArg (fun q => (ns.filter q).map (mapHeads f))
        (funext fun m => congrArg (· != Kind.namedAttribute) (hkinds m))
  rw [hasEmptyBody, isBlankContent, children_mapHeads, hcontent, List.all_map, hasEmptyBody,
    isBlankContent]
  exact congrArg (List.all _) (funext hblank)

/-- A numbered tree has one node of each number. -/
theorem eq_of_number_eq {n m l : Node} (hm : m ∈ (n.numbered 1).1.subtree)
    (hl : l ∈ (n.numbered 1).1.subtree) (h : m.head.number = l.head.number) : m = l := by
  have hnodup : ((n.numbered 1).1.subtree.map (·.head.number)).Nodup := by
    rw [show (n.numbered 1).1.subtree.map (·.head.number) = _ from (numbers_numbered 1 n).1]
    exact List.nodup_range'
  exact List.inj_on_of_nodup_map hnodup hm hl h

end Node

namespace Generation

/-! ### Lines of a text -/

/-- A text that consists of whole lines. -/
def EndsLine (x : Bytes) : Prop := x = [] ∨ ∃ y, x = y ++ [10]

theorem EndsLine.flatten {ts : List Bytes} (h : ∀ t ∈ ts, ∃ x, t = x ++ [10]) :
    EndsLine ts.flatten := by
  rcases List.eq_nil_or_concat ts with rfl | ⟨us, t, rfl⟩
  · exact .inl rfl
  · obtain ⟨x, rfl⟩ := h t (by simp)
    exact .inr ⟨us.flatten ++ x, by simp⟩

/-- A text is what stands on some lines of another one, which ends a line, and there are such
lines. -/
structure IsLines (source : Bytes) (lines : LineSpan) (text : Bytes) : Prop where
  first : 1 ≤ lines.first
  last : lines.first ≤ lines.last
  bound : lines.last ≤ Bytes.countByte 10 source
  stands : ∃ before after, source = before ++ (text ++ after) ∧ EndsLine before ∧ EndsLine text ∧
    Bytes.countByte 10 before + 1 = lines.first ∧
    Bytes.countByte 10 before + Bytes.countByte 10 text = lines.last

/-- The first lines of a text. -/
def takeLines : Nat → Bytes → Bytes
  | 0, _ | _, [] => []
  | n + 1, b :: bs => b :: if b = 10 then takeLines n bs else takeLines (n + 1) bs

/-- Whether a text is what stands on some lines of another one. -/
def standsOn (source : Bytes) (lines : LineSpan) (text : Bytes) : Bool :=
  let before := takeLines (lines.first - 1) source
  let endsLine (x : Bytes) := x.getLast?.all (· == 10)
  before ++ (text ++ source.drop (before.length + text.length)) == source &&
    endsLine before && endsLine text && 1 ≤ lines.first && lines.first ≤ lines.last &&
    lines.last ≤ Bytes.countByte 10 source && Bytes.countByte 10 before + 1 == lines.first &&
    Bytes.countByte 10 before + Bytes.countByte 10 text == lines.last

theorem isLines_of_standsOn {source text : Bytes} {lines : LineSpan}
    (h : standsOn source lines text = true) : IsLines source lines text := by
  have hends : ∀ x : Bytes, x.getLast?.all (· == 10) = true → EndsLine x := by
    intro x hx
    rcases List.eq_nil_or_concat x with rfl | ⟨y, b, rfl⟩
    · exact .inl rfl
    · have hb : b = 10 := by simpa using hx
      exact .inr ⟨y, by rw [hb, List.concat_eq_append]⟩
  simp only [standsOn, Bool.and_eq_true, decide_eq_true_eq, beq_iff_eq] at h
  obtain ⟨⟨⟨⟨⟨⟨⟨hsource, hbefore⟩, htext⟩, hfirst⟩, hlast⟩, hbound⟩, hstart⟩, hend⟩ := h
  exact ⟨hfirst, hlast, hbound, _, _, hsource.symm, hends _ hbefore, hends _ htext, hstart, hend⟩

theorem countByte_append (x y : Bytes) :
    Bytes.countByte 10 (x ++ y) = Bytes.countByte 10 x + Bytes.countByte 10 y := List.countP_append

/-- Lines of a text after whole lines stand on the lines that follow these. -/
theorem isLines_spanAt {above x : Bytes} (habove : EndsLine above) (hx : EndsLine x)
    (hne : Bytes.countByte 10 x ≠ 0) (below : Bytes) :
    IsLines (above ++ (x ++ below))
      (Layout.spanAt (1 + Bytes.countByte 10 above) (Bytes.countByte 10 x)) x := by
  rw [Layout.spanAt, if_neg hne]
  refine ⟨Nat.le_add_right 1 _, ?_, ?_, above, below, rfl, habove, hx, Nat.add_comm _ _, ?_⟩
  · dsimp only
    omega
  · rw [countByte_append, countByte_append]
    dsimp only
    omega
  · dsimp only
    omega

/-- A part of a layout of whole lines is what stands on its lines. -/
theorem isLines_of_pieces {F b : Layout} (hF : F.IsWhole) {xs ys : List Bytes}
    (hpieces : F.pieces = xs ++ (b.pieces ++ ys)) (hb : b.height ≠ 0) :
    IsLines F.text (Layout.spanAt (1 + Bytes.countByte 10 xs.flatten) b.height) b.text := by
  have htext : F.text = xs.flatten ++ (b.text ++ ys.flatten) := by
    simp only [Layout.text, hpieces, List.flatten_append]
  rw [← b.countByte_text] at hb ⊢
  rw [htext]
  refine isLines_spanAt ?_ ?_ hb _
  · exact EndsLine.flatten fun t ht => hF t (by simp [hpieces, ht])
  · exact EndsLine.flatten fun t ht => hF t (by simp [hpieces, ht])

/-! ### Lines of nodes -/

/-- The lines of a node of a unit's file hold the code of the node. -/
theorem IsFile.lines {z : Site} {v : Node} (hz : z.root = (v.numbered 1).1) {s t : State}
    {code : GeneratedUnit} {F : Layout} (h : IsFile z s t code F) {m : Node}
    (hm : m ∈ z.root.subtree) (hfirst : 0 < (t.spans.get m.head.number).first) :
    ∃ c i, IsCodeOf z.env s m c ∧
      IsLines code.source (t.spans.get m.head.number) (c.layout i .out).text := by
  have hnumber : m.head.number ≠ 0 := Node.number_pos (hz ▸ hm)
  have hin := h.found m.head.number hnumber (Nat.ne_of_gt hfirst)
  obtain ⟨p, hp, hpm⟩ := List.mem_map.mp (Layout.map_fst_marks 1 F ▸ hin)
  have hnoted := h.noted p hp (by rwa [hpm])
  obtain ⟨xs, b, ys, hpieces, hspan, c, i, hpart, rfl⟩ := Layout.mem_marks h.parts hp
  obtain ⟨n, hn, hnk, -, -, hcode⟩ := hpart (by rwa [hpm])
  have hnm : n = m := Node.eq_of_number_eq (hz ▸ hn) (hz ▸ hm) (hnk.trans hpm)
  rw [hpm, hspan] at hnoted
  rw [hnoted] at hfirst ⊢
  have hheight : (c.layout i .out).height ≠ 0 := by
    intro hzero
    rw [hzero] at hfirst
    exact absurd hfirst (Nat.lt_irrefl 0)
  refine ⟨c, i, hnm ▸ hcode, ?_⟩
  rw [h.source]
  exact isLines_of_pieces h.whole hpieces hheight

end Generation

open Generation in
/-- **The lines noted for nodes are exact.** If the code of a validated unit is generated, then
every node for which lines are noted has at least one, all of its lines are lines of the file, and
they hold the code that was written for the node (`IsCodeOf`, at some indentation) and nothing else.
The node `m` is `n` as it was before its lines were noted. -/
theorem lines_exact {σ : Type} (library : Option (Bytes → σ → Except Fault TagLibrary × σ))
    (options : ValidationOptions) (memory : σ) (generation : Options) {root : Node}
    (hroot : root.IsUnit) (hvalid : (root.validate library options memory).failure = none)
    {code : GeneratedUnit}
    (hgen : (root.validate library options memory).tree.generate generation = .ok code) :
    let v := (root.validate library options memory).tree
    let tree := (v.numbered 1).1
    ∃ u page s t, v.head.unit = some u ∧ v.page? = some page ∧
      let env : Env := ⟨generation, u.file, page⟩
      unitBody (body env tree.height) tree.children (start env) = .ok () s ∧
      ∀ n ∈ code.tree.subtree, 0 < n.head.lines.first →
        ∃ m ∈ tree.subtree, n = m.mapHeads (annotate t) ∧ ∃ c i, IsCodeOf env s m c ∧
          IsLines code.source n.head.lines (c.layout i .out).text := by
  intro v tree
  obtain ⟨u, page, hu, hpage, s, t, F, hbody, hfile⟩ := generate_layout hroot hvalid hgen
  refine ⟨u, page, s, t, hu, hpage, hbody, fun n hn hfirst => ?_⟩
  rw [hfile.tree, Node.subtree_mapHeads] at hn
  obtain ⟨m, hm, rfl⟩ := List.mem_map.mp hn
  have hlines : (m.mapHeads (annotate t)).head.lines = t.spans.get m.head.number := by
    rw [Node.head_mapHeads]
    rfl
  rw [hlines] at hfirst ⊢
  obtain ⟨c, i, hcode, hstands⟩ := hfile.lines rfl hm hfirst
  exact ⟨m, hm, rfl, c, i, hcode, hstands⟩

/-- A page of two lines of text, an expression and a declaration. -/
def plainPage : Node :=
  .mk { kind := .root, unit := some ⟨"/a.jsp", false, false, [], none⟩ }
    [.leaf { kind := .text, text := "a\nb" }, .leaf { kind := .expression, text := "x" },
      .leaf { kind := .declaration, text := "var x = 1" }]

theorem plainPage_isUnit : plainPage.IsUnit :=
  ⟨rfl, rfl, ((Node.allParsed_nil.push (n := .leaf { kind := .text, text := "a\nb" })
    (Node.IsParsed.of_leaf rfl rfl)).push (n := .leaf { kind := .expression, text := "x" })
    (Node.IsParsed.of_leaf rfl rfl)).push (n := .leaf { kind := .declaration, text := "var x = 1" })
    (Node.IsParsed.of_leaf rfl rfl)⟩

open Generation in
theorem lines_exact_plainPage : plainPage.IsUnit ∧
    (plainPage.validate (σ := Unit) none {} ()).failure = none ∧
    ∃ code, (plainPage.validate (σ := Unit) none {} ()).tree.generate {} = .ok code ∧
      (∃ n ∈ code.tree.subtree, n.head.lines.first ≠ 0) ∧
      ∀ n ∈ code.tree.subtree, 0 < n.head.lines.first →
        ∃ text, IsLines code.source n.head.lines text := by
  have hvalid : (plainPage.validate (σ := Unit) none {} ()).failure = none := rfl
  have hsome : ((plainPage.validate (σ := Unit) none {} ()).tree.generate {}).toOption.any
      (fun code => code.tree.subtree.any fun n => n.head.lines.first != 0) = true := by
    decide +kernel
  obtain ⟨code, hgen, hlined⟩ := exists_ok_of_any hsome
  obtain ⟨u, page, s, t, -, -, -, hlines⟩ :=
    lines_exact none {} () {} plainPage_isUnit hvalid hgen
  refine ⟨plainPage_isUnit, hvalid, code, hgen, by simpa using hlined, fun n hn hfirst => ?_⟩
  obtain ⟨m, -, -, c, i, -, hstands⟩ := hlines n hn hfirst
  exact ⟨_, hstands⟩

/-! ### How the lines of nodes lie to each other -/

namespace LineSpan

variable {a b : LineSpan}

/-- Whether a line is one of a span; a span that starts on line zero has none. -/
def Has (a : LineSpan) (i : Nat) : Prop := a.first ≠ 0 ∧ a.first ≤ i ∧ i ≤ a.last

/-- No line is one of both spans. -/
def Apart (a b : LineSpan) : Prop := a.last < b.first ∨ b.last < a.first

/-- The second span lies inside the first one and starts on a later line. -/
def Holds (a b : LineSpan) : Prop := a.first < b.first ∧ b.last ≤ a.last

theorem Apart.symm (h : a.Apart b) : b.Apart a := Or.symm h

theorem Apart.not_has (h : a.Apart b) {i : Nat} (ha : a.Has i) : ¬ b.Has i := by
  rintro ⟨-, hfirst, hlast⟩
  obtain ⟨-, hfirst', hlast'⟩ := ha
  rcases h with h | h <;> omega

end LineSpan

namespace Generation

/-! ### Parts of a layout -/

namespace Layout

/-- The lines of a part that has any are lines of the layout. -/
theorem bounds_marks {l : Layout} {i : Nat} {p : Nat × LineSpan} (h : p ∈ l.marks i)
    (hfirst : p.2.first ≠ 0) :
    i ≤ p.2.first ∧ p.2.first ≤ p.2.last ∧ p.2.last < i + l.height := by
  induction l generalizing i with
  | nil => exact absurd h List.not_mem_nil
  | line t rest ih =>
    obtain ⟨hi, hle, hlast⟩ := ih h
    rw [height]
    omega
  | part k body rest ihb ih =>
    rw [height]
    rcases List.mem_cons.mp h with rfl | h
    · by_cases hbody : body.height = 0
      · simp [spanAt, hbody] at hfirst
      · rw [spanAt, if_neg hbody]
        dsimp only
        omega
    rcases List.mem_append.mp h with h | h
    · obtain ⟨hi, hle, hlast⟩ := ihb h
      omega
    · obtain ⟨hi, hle, hlast⟩ := ih h
      omega

/-- What is said of a part: the nodes with parts inside are related to its own, and no part inside
starts on its first line. -/
def Encloses (q : Nat → Nat → Prop) (k : Nat) (l : Layout) : Prop :=
  k ≠ 0 → (∀ j ∈ l.nodes, j ≠ 0 → q k j) ∧
    ∀ i, ∀ p ∈ l.marks i, p.2.first ≠ 0 → i < p.2.first

/-- What is said of two parts with lines: they are apart, or the second one lies inside the first
one. -/
def Nests (q : Nat → Nat → Prop) (a b : Nat × LineSpan) : Prop :=
  a.1 ≠ 0 → b.1 ≠ 0 → a.2.first ≠ 0 → b.2.first ≠ 0 →
    a.2.Apart b.2 ∨ q a.1 b.1 ∧ a.2.Holds b.2

/-- A part lies after or inside those that are listed before it. -/
theorem pairwise_marks {q : Nat → Nat → Prop} {l : Layout} (h : l.Parts (Encloses q)) (i : Nat) :
    (l.marks i).Pairwise (Nests q) := by
  induction l generalizing i with
  | nil => exact .nil
  | line t rest ih => exact ih h _
  | part k body rest ihb ih =>
    obtain ⟨hk, hbody, hrest⟩ := h
    have hspan : (spanAt i body.height).first ≠ 0 →
        (spanAt i body.height).first = i ∧ (spanAt i body.height).last + 1 = i + body.height := by
      intro hfirst
      by_cases hzero : body.height = 0
      · simp [spanAt, hzero] at hfirst
      · rw [spanAt, if_neg hzero]
        dsimp only
        omega
    refine List.pairwise_cons.mpr ⟨fun p hp hk0 _ hfirst hpfirst => ?_,
      List.pairwise_append.mpr ⟨ihb hbody i, ih hrest _, fun p hp r hr _ _ hpfirst hrfirst => ?_⟩⟩
    · obtain ⟨hi, hlast⟩ := hspan hfirst
      rcases List.mem_append.mp hp with hp | hp
      · -- A part inside.
        obtain ⟨hnodes, hlater⟩ := hk hk0
        obtain ⟨-, -, hend⟩ := bounds_marks hp hpfirst
        refine .inr ⟨hnodes p.1 (mem_nodes_of_mem_marks hp) ‹_›, ?_, ?_⟩
        · have := hlater i p hp hpfirst
          dsimp only
          omega
        · dsimp only
          omega
      · -- A part after it.
        obtain ⟨hstart, -, -⟩ := bounds_marks hp hpfirst
        refine .inl (.inl ?_)
        dsimp only
        omega
    · obtain ⟨-, -, hend⟩ := bounds_marks hp hpfirst
      obtain ⟨hstart, -, -⟩ := bounds_marks hr hrfirst
      exact .inl (.inl (by omega))

end Layout

namespace Code

theorem one_le_countByte_codeLine (i : Nat) (x : Bytes) :
    1 ≤ Bytes.countByte 10 (codeLine i x) := by
  rw [Bytes.countByte, List.one_le_countP_iff]
  exact ⟨10, by simp [codeLine], rfl⟩

/-- In a code that begins with a line of its own, parts start after that line. -/
theorem Leads.lt_first {c : Code} (hc : c.Leads) {d i : Nat} {p : Nat × LineSpan}
    (h : p ∈ (c.layout d .out).marks i) (hfirst : p.2.first ≠ 0) : i < p.2.first := by
  induction c generalizing d with
  | nil => exact absurd h List.not_mem_nil
  | line s rest _ =>
    obtain ⟨hi, -, -⟩ := Layout.bounds_marks (l := rest.layout d .out) h hfirst
    have := one_le_countByte_codeLine d s.text
    omega
  | indent rest ih | outdent rest ih | declaration k ls rest ih => exact ih hc h
  | part k body rest _ _ => exact hc.elim
  | method isApart body rest _ ih | fragment body rest _ ih => exact ih hc h

theorem mem_nodes_of_mem_layout {c : Code} {i k : Nat} (h : k ∈ (c.layout i .out).nodes) :
    k ∈ c.nodes := by
  have hcount : 1 ≤ (c.layout i .out).nodes.count k := List.one_le_count_iff.mpr h
  have htotal := total_layout c i k
  rw [total] at htotal
  exact List.one_le_count_iff.mp (by omega)

end Code

/-- The second number is that of a node below the one with the first number. -/
def Site.Below (z : Site) (k j : Nat) : Prop :=
  ∃ n ∈ z.root.subtree, n.head.number = k ∧ j ∈ Node.numbersAll n.children

/-- A part that is the code of its node holds parts of nodes below it, after a line of its own. -/
theorem Site.encloses {z : Site} {s : State} {k : Nat} {l : Layout}
    (h : Code.IsLaidOut (z.IsPart s) k l) : Layout.Encloses z.Below k l := by
  obtain ⟨c, i, hpart, rfl⟩ := h
  intro hk
  obtain ⟨n, hn, hnk, hleads, hwithin, -⟩ := hpart hk
  refine ⟨fun j hj hj0 => ⟨n, hn, hnk, ?_⟩, fun i' p hp hfirst => hleads.lt_first hp hfirst⟩
  have hin := List.one_le_count_iff.mpr (Code.mem_nodes_of_mem_layout hj)
  exact List.one_le_count_iff.mp (Nat.le_trans hin (hwithin j hj0))

theorem Layout.Parts.mono {P Q : Nat → Layout → Prop} (h : ∀ k l, P k l → Q k l) {l : Layout}
    (hl : l.Parts P) : l.Parts Q := by
  induction l with
  | nil => trivial
  | line t rest ih => exact ih hl
  | part k body rest ihb ih => exact ⟨h k body hl.1, ihb hl.2.1, ih hl.2.2⟩

end Generation

/-! ### Nodes of a tree -/

namespace Node

/-- The lines of nodes are lines of a text that has so many, and those of two nodes are apart or
nested as the nodes are. -/
structure IsSpread (height : Nat) (n : Node) : Prop where
  numbers : n.numbers.Nodup
  bounds : ∀ m ∈ n.subtree, m.head.lines.first ≠ 0 →
    m.head.lines.first ≤ m.head.lines.last ∧ m.head.lines.last ≤ height
  nested : ∀ m ∈ n.subtree, ∀ l ∈ n.subtree, m.head.number ≠ l.head.number →
    m.head.lines.first ≠ 0 → l.head.lines.first ≠ 0 → m.head.lines.Apart l.head.lines ∨
      l ∈ subtreeAll m.children ∧ m.head.lines.Holds l.head.lines ∨
      m ∈ subtreeAll l.children ∧ l.head.lines.Holds m.head.lines

section IsSpread

variable {height : Nat} {n c m l : Node}

theorem IsSpread.child (h : n.IsSpread height) (hc : c ∈ n.children) : c.IsSpread height := by
  have hsub : ∀ m ∈ c.subtree, m ∈ n.subtree := fun m hm => mem_subtree_of_child hc hm
  refine ⟨?_, fun m hm => h.bounds m (hsub m hm),
    fun m hm l hl => h.nested m (hsub m hm) l (hsub l hl)⟩
  have hnumbers := (List.nodup_cons.mp (n.numbers_eq ▸ h.numbers)).2
  rw [numbersAll, subtreeAll_eq_flatMap, List.map_flatMap] at hnumbers
  exact (List.nodup_flatMap.mp hnumbers).1 c hc

/-- A node below another one is apart from it or lies inside it. -/
theorem IsSpread.below (h : n.IsSpread height) (hm : m ∈ subtreeAll n.children)
    (hn : n.head.lines.first ≠ 0) (hfirst : m.head.lines.first ≠ 0) :
    n.head.lines.Apart m.head.lines ∨ n.head.lines.Holds m.head.lines := by
  have hnumber : n.head.number ∉ numbersAll n.children :=
    (List.nodup_cons.mp (n.numbers_eq ▸ h.numbers)).1
  have hne : n.head.number ≠ m.head.number := by
    intro he
    exact hnumber (he ▸ List.mem_map_of_mem hm)
  have hin : m ∈ n.subtree := n.subtree_eq ▸ List.mem_cons_of_mem n hm
  rcases h.nested n n.mem_subtree_self m hin hne hn hfirst with h | ⟨-, h⟩ | ⟨hbelow, -⟩
  · exact .inl h
  · exact .inr h
  · have hself : n ∈ subtreeAll n.children :=
      mem_subtreeAll_trans hm (m.subtree_eq ▸ List.mem_cons_of_mem m hbelow)
    exact absurd (List.mem_map_of_mem hself) hnumber

/-- Nodes below different children are apart. -/
theorem IsSpread.apart (h : n.IsSpread height) : n.children.Pairwise fun c d =>
    ∀ m ∈ c.subtree, ∀ l ∈ d.subtree, m.head.lines.first ≠ 0 → l.head.lines.first ≠ 0 →
      m.head.lines.Apart l.head.lines := by
  have hnumbers := (List.nodup_cons.mp (n.numbers_eq ▸ h.numbers)).2
  rw [numbersAll, subtreeAll_eq_flatMap, List.map_flatMap, List.nodup_flatMap] at hnumbers
  refine hnumbers.2.imp_of_mem fun {c d} hc hd hdisjoint m hm l hl hfirst hfirst' => ?_
  have hno : ∀ k, k ∈ c.subtree.map (·.head.number) → k ∉ d.subtree.map (·.head.number) :=
    fun k hk => hdisjoint hk
  have hne : m.head.number ≠ l.head.number := by
    intro he
    exact hno _ (List.mem_map_of_mem hm) (he ▸ List.mem_map_of_mem hl)
  rcases h.nested m (mem_subtree_of_child hc hm) l (mem_subtree_of_child hd hl) hne hfirst hfirst'
    with h | ⟨hbelow, -⟩ | ⟨hbelow, -⟩
  · exact h
  · have hin : l ∈ c.subtree :=
      mem_subtree_trans hm (m.subtree_eq ▸ List.mem_cons_of_mem m hbelow)
    exact absurd (List.mem_map_of_mem hl) (hno _ (List.mem_map_of_mem hin))
  · have hin : m ∈ d.subtree :=
      mem_subtree_trans hl (l.subtree_eq ▸ List.mem_cons_of_mem l hbelow)
    exact absurd (List.mem_map_of_mem hin) (hno _ (List.mem_map_of_mem hm))

end IsSpread

end Node

namespace Generation

/-- Parts of a file are apart, or one lies inside the other. -/
theorem IsFile.nested {z : Site} {s t : State} {code : GeneratedUnit} {F : Layout}
    (h : IsFile z s t code F) {k j : Nat} (hk : k ≠ 0) (hj : j ≠ 0) (hkj : k ≠ j)
    (hkfirst : (t.spans.get k).first ≠ 0) (hjfirst : (t.spans.get j).first ≠ 0) :
    (t.spans.get k).Apart (t.spans.get j) ∨
      z.Below k j ∧ (t.spans.get k).Holds (t.spans.get j) ∨
      z.Below j k ∧ (t.spans.get j).Holds (t.spans.get k) := by
  have hmark : ∀ i, i ≠ 0 → (t.spans.get i).first ≠ 0 → (i, t.spans.get i) ∈ F.marks 1 := by
    intro i hi hfirst
    obtain ⟨p, hp, rfl⟩ := List.mem_map.mp (Layout.map_fst_marks 1 F ▸ h.found i hi hfirst)
    rw [h.noted p hp hi]
    exact hp
  have hparts : F.Parts (Layout.Encloses z.Below) := h.parts.mono fun _ _ hb => Site.encloses hb
  have hpairs : (F.marks 1).Pairwise fun a b =>
      Layout.Nests z.Below a b ∨ Layout.Nests z.Below b a :=
    (Layout.pairwise_marks hparts 1).imp .inl
  have hne : (k, t.spans.get k) ≠ (j, t.spans.get j) := fun he => hkj (Prod.ext_iff.mp he).1
  have hsymm : Std.Symm fun a b => Layout.Nests z.Below a b ∨ Layout.Nests z.Below b a :=
    ⟨fun _ _ h => h.symm⟩
  rcases hpairs.forall (hmark k hk hkfirst) (hmark j hj hjfirst) hne with hnests | hnests
  · rcases hnests hk hj hkfirst hjfirst with hapart | hheld
    · exact .inl hapart
    · exact .inr (.inl hheld)
  · rcases hnests hj hk hjfirst hkfirst with hapart | hheld
    · exact .inl hapart.symm
    · exact .inr (.inr hheld)

/-- A node below another one in the unit is below it in the generated tree. -/
theorem mem_subtreeAll_mapHeads {z : Site} {v m l : Node} (hz : z.root = (v.numbered 1).1)
    (hm : m ∈ z.root.subtree) (hl : l ∈ z.root.subtree)
    (h : z.Below m.head.number l.head.number) (f : Head → Head) :
    l.mapHeads f ∈ Node.subtreeAll (m.mapHeads f).children := by
  obtain ⟨n, hn, hnm, hin⟩ := h
  obtain ⟨k, hk, hkl⟩ := List.mem_map.mp hin
  obtain rfl : n = m := Node.eq_of_number_eq (hz ▸ hn) (hz ▸ hm) hnm
  have hkin : k ∈ z.root.subtree :=
    Node.mem_subtree_trans hn (n.subtree_eq ▸ List.mem_cons_of_mem n hk)
  obtain rfl : k = l := Node.eq_of_number_eq (hz ▸ hkin) (hz ▸ hl) hkl
  cases n with
  | mk h cs =>
    rw [Node.mapHeads, Node.children, Node.subtreeAll_mapHeadsAll]
    exact List.mem_map_of_mem hk

/-- The lines of the nodes of a generated tree are lines of the file, and apart or nested as the
nodes are. -/
theorem generate_isSpread {σ : Type} {library : Option (Bytes → σ → Except Fault TagLibrary × σ)}
    {options : ValidationOptions} {memory : σ} {root : Node} {generation : Options}
    {code : GeneratedUnit} (hroot : root.IsUnit)
    (hvalid : (root.validate library options memory).failure = none)
    (hgen : (root.validate library options memory).tree.generate generation = .ok code) :
    code.tree.IsSpread (Bytes.countByte 10 code.source) := by
  obtain ⟨u, page, -, -, s, t, F, -, hfile⟩ := generate_layout hroot hvalid hgen
  let tree := ((root.validate library options memory).tree.numbered 1).1
  have hsubtree : code.tree.subtree = tree.subtree.map (Node.mapHeads (annotate t)) := by
    rw [hfile.tree, Node.subtree_mapHeads]
  have hnumber (m : Node) : (m.mapHeads (annotate t)).head.number = m.head.number := by
    rw [Node.head_mapHeads]
    rfl
  have hlines (m : Node) : (m.mapHeads (annotate t)).head.lines = t.spans.get m.head.number := by
    rw [Node.head_mapHeads]
    rfl
  refine ⟨?_, fun n hn hfirst => ?_, fun n hn n' hn' hne hfirst hfirst' => ?_⟩
  · have hnumbers : code.tree.numbers = tree.numbers := by
      rw [Node.numbers, hsubtree, List.map_map, Node.numbers]
      exact List.map_congr_left fun m _ => hnumber m
    rw [hnumbers, (Node.numbers_numbered 1 _).1]
    exact List.nodup_range'
  · obtain ⟨m, hm, rfl⟩ := List.mem_map.mp (hsubtree ▸ hn)
    rw [hlines] at hfirst ⊢
    obtain ⟨c, i, -, hstands⟩ := hfile.lines rfl hm (Nat.pos_of_ne_zero hfirst)
    exact ⟨hstands.last, hstands.bound⟩
  · obtain ⟨m, hm, rfl⟩ := List.mem_map.mp (hsubtree ▸ hn)
    obtain ⟨l, hl, rfl⟩ := List.mem_map.mp (hsubtree ▸ hn')
    rw [hnumber, hnumber] at hne
    rw [hlines] at hfirst hfirst'
    rw [hlines, hlines]
    rcases hfile.nested (Node.number_pos hm) (Node.number_pos hl) hne hfirst hfirst' with
      hapart | ⟨hbelow, hheld⟩ | ⟨hbelow, hheld⟩
    · exact .inl hapart
    · exact .inr (.inl ⟨mem_subtreeAll_mapHeads rfl hm hl hbelow _, hheld⟩)
    · exact .inr (.inr ⟨mem_subtreeAll_mapHeads rfl hl hm hbelow _, hheld⟩)

end Generation

end ServerPages
