import ServerPages.Proofs.MappedLines

/-!
# Which lines a line map mentions

A line map mentions a generated line if one of its entries stands for it. What the entries of a tree
mention is known exactly (`records_addNode`): each node enters its lines, save those between the
first and the last line of the nodes below it that start inside its own.

So a line between two nodes below another one is not mentioned if it is a line of none of them: the
code that the outer node adds there, such as a call of a tag whose code stands in a method, has no
source line.

## Main results

* `records_addNode`: what is mentioned once the entries of a node are added.
* `enters_iff_not_passesOver`: the lines that a node enters are those that are its own, if they do
  not lie between nodes below it.
* `mentions_iff_not_passesOver`: the entries of a generated tree mention a line of a node unless it
  lies so, and relate a line that is the node's own to the line that the node starts on.
-/

namespace ServerPages

namespace Node

/-! ### The nodes below a node -/

/-- The nodes of a tree without the one at the top. -/
def descendants (n : Node) : List Node := n.all.tail

theorem all_eq (n : Node) : n.all = n :: n.descendants := by
  cases n with
  | mk h cs => rw [descendants, all_mk, List.tail_cons]

theorem descendants_mk (h : Head) (cs : List Node) :
    (mk h cs).descendants = if h.kind.allowsBody then cs.flatMap all else [] := by
  rw [descendants, all_mk, List.tail_cons]

theorem mem_all_self (n : Node) : n ∈ n.all := n.all_eq ▸ List.mem_cons_self

/-- What is below a node in a walk is among everything below it. -/
theorem mem_subtreeAll_of_mem_descendants {m n : Node} (h : m ∈ n.descendants) :
    m ∈ subtreeAll n.children := by
  cases n with
  | mk hd cs =>
    rw [descendants_mk] at h
    split at h
    · exact mem_subtreeAll_of_mem_all h
    · exact absurd h List.not_mem_nil

mutual

theorem mem_all_trans {l m n : Node} (hm : m ∈ n.all) (hl : l ∈ m.all) : l ∈ n.all := by
  cases n with
  | mk h cs =>
    rw [all_mk] at hm ⊢
    rcases List.mem_cons.mp hm with rfl | hm
    · rwa [all_mk] at hl
    · split at hm
      · next hbody =>
        rw [if_pos hbody]
        exact List.mem_cons_of_mem _ (mem_flatMap_all_trans hm hl)
      · exact absurd hm List.not_mem_nil

theorem mem_flatMap_all_trans {l m : Node} {ns : List Node} (hm : m ∈ ns.flatMap all)
    (hl : l ∈ m.all) : l ∈ ns.flatMap all := by
  cases ns with
  | nil => exact absurd hm List.not_mem_nil
  | cons n ns =>
    rw [List.flatMap_cons] at hm ⊢
    rcases List.mem_append.mp hm with hm | hm
    · exact List.mem_append_left _ (mem_all_trans hm hl)
    · exact List.mem_append_right _ (mem_flatMap_all_trans hm hl)

end

/-- A node whose line it is, and that has no node below it on that line. -/
def IsInnermost (i : Nat) (n : Node) : Prop := n.head.lines.Has i ∧ ¬ HasLine n.descendants i

mutual

/-- A line of a tree is that of an innermost node. -/
theorem exists_isInnermost {n : Node} {i : Nat} (h : HasLine n.all i) :
    ∃ m ∈ n.all, m.IsInnermost i := by
  by_cases hbelow : HasLine n.descendants i
  · cases n with
    | mk hd cs =>
      rw [descendants_mk] at hbelow
      split at hbelow
      · next hbody =>
        obtain ⟨m, hm, hinner⟩ := exists_isInnermostAll hbelow
        rw [all_mk, if_pos hbody]
        exact ⟨m, List.mem_cons_of_mem _ hm, hinner⟩
      · obtain ⟨m, hm, -⟩ := hbelow
        exact absurd hm List.not_mem_nil
  · obtain ⟨m, hm, hmi⟩ := h
    rcases List.mem_cons.mp (n.all_eq ▸ hm) with rfl | hm
    · exact ⟨m, mem_all_self m, hmi, hbelow⟩
    · exact absurd ⟨m, hm, hmi⟩ hbelow

theorem exists_isInnermostAll {ns : List Node} {i : Nat} (h : HasLine (ns.flatMap all) i) :
    ∃ m ∈ ns.flatMap all, m.IsInnermost i := by
  obtain ⟨m, hm, hmi⟩ := h
  cases ns with
  | nil => exact absurd hm List.not_mem_nil
  | cons n ns =>
    rcases List.mem_append.mp (List.flatMap_cons ▸ hm) with hm | hm
    · obtain ⟨l, hl, hinner⟩ := exists_isInnermost ⟨m, hm, hmi⟩
      exact ⟨l, List.mem_append_left _ hl, hinner⟩
    · obtain ⟨l, hl, hinner⟩ := exists_isInnermostAll ⟨m, hm, hmi⟩
      exact ⟨l, List.mem_append_right _ hl, hinner⟩

end

end Node

namespace LineMap

/-! ### What a builder mentions -/

/-- The pairs of lines that an entry stands for. -/
theorem Entry.mem_lines {e : Entry} {p : MappedLine} : p ∈ e.lines ↔
    ∃ k < e.count, ∃ j < e.step, p = ⟨e.file, e.source + k, e.output + k * e.step + j⟩ := by
  simp [Entry.lines, eq_comm]

namespace Builder

/-- The files of a builder are numbered in order, and its entries know them. -/
structure IsNumbered (b : Builder) : Prop where
  ids : b.files.map (·.id) = List.range b.files.length
  known : ∀ p ∈ b.lines, p.file < b.files.length

/-- An entry relates the generated line `i` to a line of the file with a path. -/
def Mentions (b : Builder) (i : Nat) (path : Bytes) (source : Nat) : Prop :=
  ∃ p ∈ b.lines, p.output = i ∧ p.source = source ∧ b.files[p.file]?.map (·.path) = some path

section Files

variable {b : Builder}

/-- A file stands where its number says. -/
theorem IsNumbered.getElem?_id (h : b.IsNumbered) {f : SourceFile} (hf : f ∈ b.files) :
    b.files[f.id]? = some f := by
  obtain ⟨k, hk⟩ := List.mem_iff_getElem?.mp hf
  have hlt : k < b.files.length := (List.getElem?_eq_some_iff.mp hk).1
  have hid : (b.files.map (·.id))[k]? = some f.id := by rw [List.getElem?_map, hk, Option.map_some]
  rw [h.ids, List.getElem?_range hlt, Option.some.injEq] at hid
  rw [← hid, hk]

/-- A known file keeps its number, and a new one gets the next. -/
theorem fileId_spec (h : b.IsNumbered) (path : Bytes) :
    b.files <+: (b.fileId path).2.files ∧
      (b.fileId path).2.files.map (·.id) = List.range (b.fileId path).2.files.length ∧
      (b.fileId path).2.files[(b.fileId path).1]?.map (·.path) = some path := by
  rw [fileId]
  split
  · next f hf =>
    have hpath : f.path = path := eq_of_beq (List.find?_some hf :)
    refine ⟨List.prefix_refl _, h.ids, ?_⟩
    rw [h.getElem?_id (List.mem_of_find?_eq_some hf), Option.map_some, hpath]
  · refine ⟨List.prefix_append _ _, ?_, ?_⟩
    · simp [h.ids, List.range_succ]
    · simp

end Files

/-- Entries were added that mention exactly the lines of `S`. -/
def Records (S : Nat → Bytes → Nat → Prop) (b c : Builder) : Prop :=
  b.IsNumbered → c.IsNumbered ∧
    ∀ i path source, c.Mentions i path source ↔ b.Mentions i path source ∨ S i path source

section Records

variable {S T : Nat → Bytes → Nat → Prop} {b c d : Builder}

theorem Records.refl (h : ∀ i path source, ¬ S i path source) (b : Builder) : Records S b b :=
  fun hb => ⟨hb, fun i path source => by simp [h i path source]⟩

theorem Records.trans (hbc : Records S b c) (hcd : Records T c d) :
    Records (fun i path source => S i path source ∨ T i path source) b d := by
  intro hb
  obtain ⟨hc, hfirst⟩ := hbc hb
  obtain ⟨hd, hsecond⟩ := hcd hc
  refine ⟨hd, fun i path source => ?_⟩
  rw [hsecond, hfirst, or_assoc]

theorem Records.congr (h : Records S b c)
    (hST : ∀ i path source, S i path source ↔ T i path source) : Records T b c := by
  intro hb
  obtain ⟨hc, hmentions⟩ := h hb
  exact ⟨hc, fun i path source => by rw [hmentions, hST]⟩

/-- What an added entry mentions. -/
theorem records_add (b : Builder) (p : Position) (count output step : Nat) :
    Records (fun i path source => 1 ≤ p.line ∧ output ≠ 0 ∧ path = p.file ∧
      ∃ k < count, ∃ j < step, source = p.line.toNat + k ∧ i = output + k * step + j)
      b (b.add p count output step) := by
  unfold add
  simp only [ofLine_nat]
  split
  · next hnone =>
    refine .refl ?_ b
    rintro i path source ⟨hline, houtput, -, k, hk, j, hj, -⟩
    simp only [Bool.or_eq_true, decide_eq_true_eq] at hnone
    omega
  · next hsome =>
    intro hb
    have hentries := entries_fileId b p.file
    obtain ⟨hfiles, hids, hpath⟩ := fileId_spec hb p.file
    obtain ⟨rest, hrest⟩ := hfiles
    dsimp only
    generalize b.fileId p.file = r at *
    obtain ⟨id, c⟩ := r
    have hlines : ∀ q, q ∈ Builder.lines { c with entries := c.entries ++
        [⟨p.line.toNat, count, output, step, id⟩] } ↔
        q ∈ b.lines ∨ ∃ k < count, ∃ j < step,
          q = ⟨id, p.line.toNat + k, output + k * step + j⟩ := by
      intro q
      rw [Builder.lines, hentries, List.flatMap_append, List.mem_append, List.flatMap_singleton,
        Entry.mem_lines, Builder.lines]
    -- What was mentioned is found among the files as before.
    have hold : ∀ q ∈ b.lines, c.files[q.file]? = b.files[q.file]? := by
      intro q hq
      rw [← hrest, List.getElem?_append_left (hb.known q hq)]
    have hid : id < c.files.length := by
      by_contra hlt
      rw [List.getElem?_eq_none (Nat.le_of_not_lt hlt)] at hpath
      cases hpath
    simp only [Bool.or_eq_true, decide_eq_true_eq, not_or] at hsome
    obtain ⟨⟨⟨hline, -⟩, houtput⟩, -⟩ := hsome
    refine ⟨⟨hids, ?_⟩, ?_⟩
    · intro q hq
      rcases (hlines q).mp hq with hq | ⟨k, -, j, -, rfl⟩
      · have hlt := hb.known q hq
        rw [← hrest, List.length_append]
        omega
      · exact hid
    · intro i path source
      constructor
      · rintro ⟨q, hq, rfl, rfl, hqpath⟩
        rcases (hlines q).mp hq with hq | ⟨k, hk, j, hj, rfl⟩
        · exact .inl ⟨q, hq, rfl, rfl, hold q hq ▸ hqpath⟩
        · rw [hpath, Option.some.injEq] at hqpath
          exact .inr ⟨by omega, by omega, hqpath.symm, k, hk, j, hj, rfl, rfl⟩
      · rintro (⟨q, hq, rfl, rfl, hqpath⟩ | ⟨-, -, rfl, k, hk, j, hj, rfl, rfl⟩)
        · refine ⟨q, (hlines q).mpr (.inl hq), rfl, rfl, ?_⟩
          exact (congrArg _ (hold q hq)).trans hqpath
        · exact ⟨_, (hlines _).mpr (.inr ⟨k, hk, j, hj, rfl⟩), rfl, rfl, hpath⟩

/-- A fact mentions its generated lines, all with the line of the position. -/
theorem records_addFact (b : Builder) (p : Position) (output step : Nat) :
    Records (fun i path source => (1 ≤ p.line ∧ output ≠ 0 ∧ output ≤ i ∧ i < output + step) ∧
      path = p.file ∧ source = p.line.toNat) b (b.addFact p output step) := by
  refine (records_add b p 1 output step).congr fun i path source => ?_
  constructor
  · rintro ⟨hline, houtput, hpath, k, hk, j, hj, hsource, hi⟩
    obtain rfl : k = 0 := by omega
    exact ⟨⟨hline, houtput, by omega, by omega⟩, hpath, hsource⟩
  · rintro ⟨⟨hline, houtput, hfirst, hlast⟩, hpath, hsource⟩
    exact ⟨hline, houtput, hpath, 0, Nat.one_pos, i - output, by omega, hsource, by omega⟩

/-- Lines that map one by one. -/
theorem records_addLines (b : Builder) (p : Position) (count output : Nat) :
    Records (fun i path source => (1 ≤ p.line ∧ output ≠ 0 ∧ output ≤ i ∧ i < output + count) ∧
      path = p.file ∧ source = p.line.toNat + (i - output)) b (b.addLines p count output) := by
  refine (records_add b p count output 1).congr fun i path source => ?_
  constructor
  · rintro ⟨hline, houtput, hpath, k, hk, j, hj, hsource, hi⟩
    exact ⟨⟨hline, houtput, by omega, by omega⟩, hpath, by omega⟩
  · rintro ⟨⟨hline, houtput, hfirst, hlast⟩, hpath, hsource⟩
    exact ⟨hline, houtput, hpath, i - output, by omega, 0, Nat.one_pos, hsource, by omega⟩

end Records

end Builder

end LineMap

open LineMap

/-! ### What the nodes enter -/

namespace Node

/-- The source line that belongs to a line of a node's own: the line that the node starts on, unless
the node maps line by line. -/
def sourceLine (n : Node) (i : Nat) : Nat :=
  if isLineByLine n.kind && inputLines n.text == n.head.lines.last + 1 - n.head.lines.first then
    n.head.start.line.toNat + (i - n.head.lines.first)
  else n.head.start.line.toNat

/-- The line `i` is one that a node enters: a line of the node, outside of those of the nodes below
it that start inside. -/
structure Enters (n : Node) (i : Nat) : Prop where
  kind : n.kind ≠ .root
  start : 1 ≤ n.head.start.line
  has : n.head.lines.Has i
  outside : isLineByLine n.kind = false → ∀ inner,
    childLines? n.head.lines (n.descendants.map (·.head.lines)) = some inner →
      i < inner.first ∨ inner.last < i

/-- The line `i` lies between two nodes below a node and is a line of neither of those nor of
another one. -/
structure PassesOver (n : Node) (i : Nat) : Prop where
  innermost : n.IsInnermost i
  before : ∃ m ∈ n.descendants,
    startsInside n.head.lines m.head.lines = true ∧ m.head.lines.last < i
  after : ∃ m ∈ n.descendants,
    startsInside n.head.lines m.head.lines = true ∧ i < m.head.lines.first

/-- Only nodes that may have a body have nodes below them, and these do not map line by line. -/
theorem descendants_eq_nil_of_isLineByLine {n : Node} (h : isLineByLine n.kind = true) :
    n.descendants = [] := by
  cases n with
  | mk hd cs =>
    have hbody : hd.kind.allowsBody = false := by
      change isLineByLine hd.kind = true at h
      revert h
      cases hd.kind <;> simp [isLineByLine, Kind.allowsBody]
    rw [descendants_mk, hbody]
    rfl

end Node

namespace LineMap

section Nodes

variable {height : Nat} {h : Head} {cs : List Node} {b : Builder}

/-- The line that some nodes enter, with its place in the source. -/
def EnteredBy (ns : List Node) (i : Nat) (path : Bytes) (source : Nat) : Prop :=
  ∃ m ∈ ns, m.Enters i ∧ path = m.head.start.file ∧ source = m.sourceLine i

theorem enteredBy_cons {n : Node} {ns : List Node} {i : Nat} {path : Bytes} {source : Nat} :
    EnteredBy (n :: ns) i path source ↔
      (n.Enters i ∧ path = n.head.start.file ∧ source = n.sourceLine i) ∨
        EnteredBy ns i path source := by
  simp [EnteredBy]

theorem enteredBy_append {ms ns : List Node} {i : Nat} {path : Bytes} {source : Nat} :
    EnteredBy (ms ++ ns) i path source ↔
      EnteredBy ms i path source ∨ EnteredBy ns i path source := by
  simp [EnteredBy, or_and_right, exists_or]

theorem not_enteredBy_nil (i : Nat) (path : Bytes) (source : Nat) :
    ¬ EnteredBy [] i path source := by
  simp [EnteredBy]

/-- The root and a node without lines enter nothing. -/
theorem not_enters {n : Node} (hn : (n.head.lines.first == 0 || n.kind == .root) = true) (i : Nat) :
    ¬ n.Enters i := by
  intro henters
  rcases (Bool.or_eq_true _ _).mp hn with hzero | hroot
  · exact henters.has.1 (eq_of_beq hzero)
  · exact henters.kind (eq_of_beq hroot)

/-- A node that maps line by line enters all of its lines. -/
theorem records_addText (hfirst : h.lines.first ≠ 0) (hkind : h.kind ≠ .root)
    (hlines : isLineByLine h.kind = true) (b : Builder) :
    b.Records (EnteredBy [.mk h cs]) (addText b h) := by
  have henters : ∀ i, (Node.mk h cs).Enters i ↔ 1 ≤ h.start.line ∧ h.lines.first ≠ 0 ∧
      h.lines.first ≤ i ∧ i < h.lines.first + (h.lines.last + 1 - h.lines.first) := by
    intro i
    constructor
    · rintro ⟨-, hstart, ⟨-, hi, hi'⟩, -⟩
      exact ⟨hstart, hfirst, hi, by simp only [Node.head] at hi hi'; omega⟩
    · rintro ⟨hstart, -, hi, hi'⟩
      refine ⟨hkind, hstart, ⟨hfirst, hi, ?_⟩, fun hno => ?_⟩
      · simp only [Node.head]
        omega
      · rw [show isLineByLine (Node.mk h cs).kind = true from hlines] at hno
        cases hno
  rw [addText]
  split
  · next hcount =>
    refine (Builder.records_addLines b h.start _ _).congr fun i path source => ?_
    have hsource : (Node.mk h cs).sourceLine i = h.start.line.toNat + (i - h.lines.first) :=
      if_pos (Bool.and_eq_true_iff.mpr ⟨hlines, hcount⟩)
    simp [EnteredBy, henters, hsource, Node.head]
  · next hcount =>
    refine (Builder.records_addFact b h.start _ _).congr fun i path source => ?_
    have hsource : (Node.mk h cs).sourceLine i = h.start.line.toNat :=
      if_neg fun htrue => hcount (Bool.and_eq_true_iff.mp htrue).2
    simp [EnteredBy, henters, hsource, Node.head]

/-- Any other node enters all of its lines if no node below it starts inside. -/
theorem enters_of_none (hfirst : h.lines.first ≠ 0) (hkind : h.kind ≠ .root)
    (hinner : childLines? h.lines ((Node.mk h cs).descendants.map (·.head.lines)) = none)
    (i : Nat) : (Node.mk h cs).Enters i ↔ 1 ≤ h.start.line ∧ h.lines.first ≠ 0 ∧
      h.lines.first ≤ i ∧ i < h.lines.first + (h.lines.last + 1 - h.lines.first) := by
  constructor
  · rintro ⟨-, hstart, ⟨-, hi, hi'⟩, -⟩
    simp only [Node.head] at hi hi'
    exact ⟨hstart, hfirst, hi, by omega⟩
  · rintro ⟨hstart, -, hi, hi'⟩
    refine ⟨hkind, hstart, ⟨hfirst, hi, ?_⟩, fun _ inner hsome => ?_⟩
    · simp only [Node.head]
      omega
    · cases hinner.symm.trans hsome

/-- It enters those before and those after the nodes below it if there are such that start
inside. -/
theorem enters_of_some {inner : LineSpan} (hfirst : h.lines.first ≠ 0) (hkind : h.kind ≠ .root)
    (hlines : isLineByLine h.kind = false) (hhull : h.lines.first < inner.first ∧
      inner.first ≤ inner.last ∧ inner.last ≤ h.lines.last)
    (hinner : childLines? h.lines ((Node.mk h cs).descendants.map (·.head.lines)) = some inner)
    (i : Nat) : (Node.mk h cs).Enters i ↔
      (1 ≤ h.start.line ∧ h.lines.first ≠ 0 ∧
        h.lines.first ≤ i ∧ i < h.lines.first + (inner.first - h.lines.first)) ∨
      (1 ≤ h.start.line ∧ inner.last + 1 ≠ 0 ∧
        inner.last + 1 ≤ i ∧ i < inner.last + 1 + (h.lines.last - inner.last)) := by
  obtain ⟨hlt, hle, hlast⟩ := hhull
  constructor
  · rintro ⟨-, hstart, ⟨-, hi, hi'⟩, houtside⟩
    simp only [Node.head] at hi hi'
    rcases houtside hlines inner hinner with hbefore | hafter
    · exact .inl ⟨hstart, hfirst, hi, by omega⟩
    · exact .inr ⟨hstart, by omega, by omega, by omega⟩
  · rintro (⟨hstart, -, hi, hi'⟩ | ⟨hstart, -, hi, hi'⟩)
    all_goals
      refine ⟨hkind, hstart, ⟨hfirst, ?_, ?_⟩, fun _ inner' hsome => ?_⟩
      · simp only [Node.head]
        omega
      · simp only [Node.head]
        omega
      · obtain rfl := Option.some.inj (hinner.symm.trans hsome)
        omega

/-- The entries of a node, if those of the nodes below it are as they should be. -/
theorem records_node (hspread : (Node.mk h cs).IsSpread height)
    (hbelow : ∀ b, Builder.Records (EnteredBy (cs.flatMap Node.all)) b (addNodes b cs)) :
    b.Records (EnteredBy (Node.mk h cs).all) (addNode b (.mk h cs)) := by
  -- The nodes below add theirs where the kind of the node has any.
  have hrest : ∀ b, Builder.Records (EnteredBy (Node.mk h cs).descendants) b
      (if h.kind.allowsBody then addNodes b cs else b) := by
    intro b
    rw [Node.descendants_mk]
    split
    · exact hbelow b
    · exact .refl not_enteredBy_nil b
  have hdescendants : (Node.mk h cs).all.drop 1 = (Node.mk h cs).descendants := List.drop_one
  rw [addNode, hdescendants, Node.all_eq]
  split
  · next hno =>
    refine (hrest b).congr fun i path source => ?_
    rw [enteredBy_cons, or_iff_right fun hn => not_enters (n := .mk h cs) hno i hn.1]
  next hyes =>
  simp only [Bool.or_eq_true, beq_iff_eq, not_or] at hyes
  obtain ⟨hfirst, hkind⟩ := hyes
  split
  · next hlines =>
    rw [Node.descendants_eq_nil_of_isLineByLine (n := .mk h cs) hlines]
    exact records_addText hfirst hkind hlines b
  next hlines =>
  rw [Bool.not_eq_true] at hlines
  have hsource : ∀ i, (Node.mk h cs).sourceLine i = h.start.line.toNat := by
    intro i
    rw [Node.sourceLine, show isLineByLine (Node.mk h cs).kind = false from hlines]
    rfl
  dsimp only
  cases hinner : childLines? h.lines ((Node.mk h cs).descendants.map (·.head.lines)) with
  | none =>
    refine ((Builder.records_addFact b h.start _ _).trans (hrest _)).congr fun i path source => ?_
    rw [enteredBy_cons, enters_of_none hfirst hkind hinner, hsource]
    rfl
  | some inner =>
    have hsome := hinner
    rw [Node.descendants_mk] at hsome
    by_cases hbody : h.kind.allowsBody = true
    · rw [if_pos hbody] at hsome
      have hhull := childLines?_bounds hspread hsome
      have hzero : (inner.last == 0) = false := by
        rw [beq_eq_false_iff_ne]
        omega
      simp only [hbody, hzero, if_true, Bool.false_eq_true, if_false]
      refine (((Builder.records_addFact b h.start _ _).trans (hbelow _)).trans
        (Builder.records_addFact _ h.start _ _)).congr fun i path source => ?_
      rw [enteredBy_cons, enters_of_some hfirst hkind hlines hhull hinner, hsource,
        Node.descendants_mk, if_pos hbody, or_right_comm, ← or_and_right]
      rfl
    · rw [if_neg hbody] at hsome
      cases hsome

end Nodes

mutual

/-- What is mentioned once the entries of a node are added: what was, and what the nodes of its tree
enter. -/
theorem records_addNode {height : Nat} {n : Node} (hn : n.IsSpread height) (b : Builder) :
    b.Records (EnteredBy n.all) (addNode b n) := by
  cases n with
  | mk h cs => exact records_node hn (records_addNodes fun c hc => hn.child hc)

theorem records_addNodes {height : Nat} {ns : List Node} (hns : ∀ n ∈ ns, n.IsSpread height)
    (b : Builder) : b.Records (EnteredBy (ns.flatMap Node.all)) (addNodes b ns) := by
  cases ns with
  | nil => exact .refl not_enteredBy_nil b
  | cons n ns =>
    have hrest := records_addNodes (fun c hc => hns c (List.mem_cons_of_mem n hc))
    refine ((records_addNode (hns n List.mem_cons_self) b).trans (hrest _)).congr
      fun i path source => ?_
    rw [List.flatMap_cons, enteredBy_append]

end

/-! ### Lines of a node's own -/

/-- A greatest value is the start or that of a member. -/
theorem le_of_le_foldl_max {α : Type} {f : α → Nat} {l : List α} {a b : Nat}
    (h : b ≤ l.foldl (fun m t => max m (f t)) a) : b ≤ a ∨ ∃ x ∈ l, b ≤ f x := by
  induction l generalizing a with
  | nil => exact .inl h
  | cons y ys ih =>
    rcases ih h with hstart | ⟨x, hx, hle⟩
    · rcases le_max_iff.mp hstart with hle | hle
      · exact .inl hle
      · exact .inr ⟨y, List.mem_cons_self, hle⟩
    · exact .inr ⟨x, List.mem_cons_of_mem y hx, hle⟩

/-- The lines below a node, as far as they start inside its own, end with those of one of these. -/
theorem childLines?_last {outer inner : LineSpan} {ds : List LineSpan}
    (h : childLines? outer ds = some inner) :
    ∃ d ∈ ds, startsInside outer d = true ∧ inner.last ≤ d.last := by
  unfold childLines? at h
  dsimp only at h
  split at h
  · cases h
  · next s rest hinside =>
    have hmem : ∀ d ∈ s :: rest, d ∈ ds ∧ startsInside outer d = true := by
      intro d hd
      exact List.mem_filter.mp (hinside ▸ hd)
    rw [hinside] at h
    obtain rfl := Option.some.inj h
    rcases le_of_le_foldl_max (Nat.le_refl _) with hzero | ⟨d, hd, hle⟩
    · obtain ⟨hs, hstarts⟩ := hmem s List.mem_cons_self
      exact ⟨s, hs, hstarts, Nat.le_trans hzero (Nat.zero_le _)⟩
    · obtain ⟨hds, hstarts⟩ := hmem d hd
      exact ⟨d, hds, hstarts, Nat.le_trans hle (Nat.min_le_left _ _)⟩

end LineMap

namespace Node

section IsSpread

variable {height : Nat} {n m : Node} {i : Nat}

mutual

/-- The nodes below a node of a generated tree lie as the tree says. -/
theorem IsSpread.of_mem {n m : Node} (h : n.IsSpread height) (hm : m ∈ n.subtree) :
    m.IsSpread height := by
  cases n with
  | mk hd cs =>
    rcases List.mem_cons.mp hm with rfl | hm
    · exact h
    · exact IsSpread.of_memAll (fun c hc => h.child hc) hm

theorem IsSpread.of_memAll {ns : List Node} {m : Node} (h : ∀ n ∈ ns, n.IsSpread height)
    (hm : m ∈ subtreeAll ns) : m.IsSpread height := by
  cases ns with
  | nil => exact absurd hm List.not_mem_nil
  | cons n ns =>
    rcases List.mem_append.mp hm with hm | hm
    · exact IsSpread.of_mem (h n List.mem_cons_self) hm
    · exact IsSpread.of_memAll (fun c hc => h c (List.mem_cons_of_mem n hc)) hm

end

mutual

/-- Of two nodes with one line, one is in the tree of the other. -/
theorem IsSpread.mem_all_or {root : Node} (h : root.IsSpread height) (hm : m ∈ root.all)
    (hn : n ∈ root.all) (hmi : m.head.lines.Has i) (hni : n.head.lines.Has i) :
    m ∈ n.all ∨ n ∈ m.all := by
  cases root with
  | mk hd cs =>
    have hmAll := hm
    have hnAll := hn
    rw [all_eq, descendants_mk] at hm hn
    rcases List.mem_cons.mp hm with rfl | hm
    · exact .inr hnAll
    rcases List.mem_cons.mp hn with rfl | hn
    · exact .inl hmAll
    split at hm
    · next hbody =>
      rw [if_pos hbody] at hn
      exact IsSpread.mem_all_orAll (fun c hc => h.child hc) h.apart hm hn hmi hni
    · exact absurd hm List.not_mem_nil

theorem IsSpread.mem_all_orAll {ns : List Node} (h : ∀ n ∈ ns, n.IsSpread height)
    (hapart : ns.Pairwise fun c d => ∀ m ∈ c.subtree, ∀ l ∈ d.subtree,
      m.head.lines.first ≠ 0 → l.head.lines.first ≠ 0 → m.head.lines.Apart l.head.lines)
    (hm : m ∈ ns.flatMap all) (hn : n ∈ ns.flatMap all) (hmi : m.head.lines.Has i)
    (hni : n.head.lines.Has i) : m ∈ n.all ∨ n ∈ m.all := by
  cases ns with
  | nil => exact absurd hm List.not_mem_nil
  | cons c ns =>
    obtain ⟨hc, hrest⟩ := List.pairwise_cons.mp hapart
    -- A node of the first tree has no line in common with one of the others.
    have hno : ∀ {k l : Node}, k ∈ c.all → l ∈ ns.flatMap all → k.head.lines.Has i →
        ¬ l.head.lines.Has i := by
      intro k l hk hl hki hli
      obtain ⟨d, hd, hl⟩ := mem_subtreeAll.mp (mem_subtreeAll_of_mem_all hl)
      exact (hc d hd k (mem_subtree_of_mem_all hk) l hl hki.1 hli.1).not_has hki hli
    rw [List.flatMap_cons] at hm hn
    rcases List.mem_append.mp hm with hm | hm <;> rcases List.mem_append.mp hn with hn | hn
    · exact IsSpread.mem_all_or (h c List.mem_cons_self) hm hn hmi hni
    · exact absurd hni (hno hm hn hmi)
    · exact absurd hmi (hno hn hm hni)
    · exact IsSpread.mem_all_orAll (fun d hd => h d (List.mem_cons_of_mem c hd)) hrest hm hn hmi hni

end

/-- A node below another one that shares a line with it starts and ends inside. -/
theorem IsSpread.inside (h : n.IsSpread height) (hm : m ∈ n.descendants)
    (hni : n.head.lines.Has i) (hmi : m.head.lines.Has i) :
    startsInside n.head.lines m.head.lines = true ∧ m.head.lines.last ≤ n.head.lines.last := by
  cases n with
  | mk hd cs =>
    rw [descendants_mk] at hm
    split at hm
    · exact (line_below h hni.1 hm hmi).resolve_left fun hno => hno hni
    · exact absurd hm List.not_mem_nil

/-- **What a node enters.** A line that is a node's own is entered unless it lies between nodes
below it. -/
theorem IsSpread.enters_iff_not_passesOver (h : n.IsSpread height) (hinner : n.IsInnermost i)
    (hkind : n.kind ≠ .root) (hstart : 1 ≤ n.head.start.line) :
    n.Enters i ↔ ¬ n.PassesOver i := by
  have hni := hinner.1
  -- A node below that starts inside has lines, and none of them is the line `i`.
  have hstarts : ∀ m ∈ n.descendants, startsInside n.head.lines m.head.lines = true →
      n.head.lines.first < m.head.lines.first ∧ m.head.lines.first ≤ m.head.lines.last ∧
        (i < m.head.lines.first ∨ m.head.lines.last < i) := by
    intro m hm hinside
    simp only [startsInside, Bool.and_eq_true, decide_eq_true_eq] at hinside
    have hmem := n.subtree_eq ▸ List.mem_cons_of_mem n (mem_subtreeAll_of_mem_descendants hm)
    obtain ⟨hle, -⟩ := h.bounds m hmem (by omega)
    refine ⟨hinside.1, hle, ?_⟩
    by_contra hin
    exact hinner.2 ⟨m, hm, by omega, by omega, by omega⟩
  constructor
  · rintro ⟨-, -, -, houtside⟩ ⟨-, ⟨m, hm, hminside, hmi⟩, ⟨l, hl, hlinside, hli⟩⟩
    have hlines : isLineByLine n.kind = false := by
      rw [← Bool.not_eq_true]
      intro hlines
      rw [descendants_eq_nil_of_isLineByLine hlines] at hm
      exact absurd hm List.not_mem_nil
    cases hchild : childLines? n.head.lines (n.descendants.map (·.head.lines)) with
    | none =>
      rw [childLines?_eq_none hchild (List.mem_map_of_mem hm)] at hminside
      cases hminside
    | some inner =>
      obtain ⟨-, -, hhull⟩ := childLines?_eq_some hchild
      obtain ⟨hfirst, -⟩ := hhull _ (List.mem_map_of_mem hm) hminside
      obtain ⟨-, hlast⟩ := hhull _ (List.mem_map_of_mem hl) hlinside
      obtain ⟨-, hmle, -⟩ := hstarts m hm hminside
      obtain ⟨-, hlle, -⟩ := hstarts l hl hlinside
      obtain ⟨-, -, hin⟩ := hni
      rcases houtside hlines inner hchild with hbefore | hafter <;> omega
  · intro hpasses
    refine ⟨hkind, hstart, hni, fun _ inner hchild => ?_⟩
    by_contra hin
    obtain ⟨⟨d, hd, hdinside, hdfirst⟩, -, -⟩ := childLines?_eq_some hchild
    obtain ⟨e, he, heinside, helast⟩ := childLines?_last hchild
    obtain ⟨m, hm, rfl⟩ := List.mem_map.mp hd
    obtain ⟨l, hl, rfl⟩ := List.mem_map.mp he
    have hmi := (hstarts m hm hdinside).2.2
    have hli := (hstarts l hl heinside).2.2
    exact hpasses ⟨hinner, ⟨m, hm, hdinside, by omega⟩, ⟨l, hl, heinside, by omega⟩⟩

/-- Nothing but the innermost node on a line enters it. -/
theorem IsSpread.eq_of_enters {root : Node} (h : root.IsSpread height) (hm : m ∈ root.all)
    (hn : n ∈ root.all) (henters : m.Enters i) (hinner : n.IsInnermost i) : m = n := by
  rcases h.mem_all_or hm hn henters.has hinner.1 with hin | hin
  · rcases List.mem_cons.mp (n.all_eq ▸ hin) with rfl | hin
    · rfl
    · exact absurd ⟨m, hin, henters.has⟩ hinner.2
  rcases List.mem_cons.mp (m.all_eq ▸ hin) with rfl | hin
  · rfl
  -- The node `n` is below `m`, and its lines are among those that `m` leaves out.
  obtain ⟨hstarts, hends⟩ :=
    (h.of_mem (mem_subtree_of_mem_all hm)).inside hin henters.has hinner.1
  have hlines : isLineByLine m.kind = false := by
    rw [← Bool.not_eq_true]
    intro hlines
    rw [descendants_eq_nil_of_isLineByLine hlines] at hin
    exact absurd hin List.not_mem_nil
  cases hchild : childLines? m.head.lines (m.descendants.map (·.head.lines)) with
  | none =>
    rw [childLines?_eq_none hchild (List.mem_map_of_mem hin)] at hstarts
    cases hstarts
  | some inner =>
    obtain ⟨-, -, hhull⟩ := childLines?_eq_some hchild
    obtain ⟨hfirst, hlast⟩ := hhull _ (List.mem_map_of_mem hin) hstarts
    obtain ⟨-, hni, hni'⟩ := hinner.1
    rcases henters.outside hlines inner hchild with hbefore | hafter <;> omega

end IsSpread

end Node

namespace LineMap

section Tree

variable {height : Nat} {root n : Node} {i : Nat}

theorem isNumbered_empty : ({} : Builder).IsNumbered :=
  ⟨rfl, fun _ hp => absurd hp List.not_mem_nil⟩

/-- The entries of a tree mention what its nodes enter. -/
theorem mentions_lineMap (h : root.IsSpread height) (i : Nat) (path : Bytes) (source : Nat) :
    root.lineMap.Mentions i path source ↔ EnteredBy root.all i path source := by
  rw [Node.lineMap, (records_addNode h {} isNumbered_empty).2]
  refine or_iff_right ?_
  rintro ⟨p, hp, -⟩
  exact absurd hp List.not_mem_nil

/-- The entries of a tree relate a line that is a node's own to the place the node gives for it, if
the node enters it, and to nothing else. -/
theorem mentions_lineMap_own (h : root.IsSpread height) (hn : n ∈ root.all)
    (hinner : n.IsInnermost i) (path : Bytes) (source : Nat) :
    root.lineMap.Mentions i path source ↔
      n.Enters i ∧ path = n.head.start.file ∧ source = n.sourceLine i := by
  rw [mentions_lineMap h]
  constructor
  · rintro ⟨m, hm, henters, hplace⟩
    obtain rfl := h.eq_of_enters hm hn henters hinner
    exact ⟨henters, hplace⟩
  · exact fun hplace => ⟨n, hn, hplace⟩

/-- A line that an entry stands for is mentioned, with a place. -/
theorem exists_mentions (h : root.IsSpread height) {p : MappedLine}
    (hp : p ∈ root.lineMap.lines) : ∃ f ∈ root.lineMap.files, f.id = p.file ∧
      root.lineMap.Mentions p.output f.path p.source := by
  obtain ⟨hnumbered, -⟩ := records_addNode h {} isNumbered_empty
  have hlt := hnumbered.known p hp
  have hid : (root.lineMap.files.map (·.id))[p.file]? = some p.file := by
    rw [show root.lineMap.files.map (·.id) = _ from hnumbered.ids, List.getElem?_range hlt]
  rw [List.getElem?_map, Option.map_eq_some_iff] at hid
  obtain ⟨f, hf, hid⟩ := hid
  exact ⟨f, List.mem_of_getElem? hf, hid, p, hp, rfl, rfl, by rw [hf, Option.map_some]⟩

end Tree

end LineMap

/-- **Which lines of a generated tree are mentioned.** If the code of a validated unit is generated,
then for every node of its tree, all of whose tree have a place in a source:

* a line of the node is mentioned by an entry of the line map if and only if no node of its tree
  passes over it, as a line between two nodes below that is a line of none of them;
* if the line is one of no node below, then every entry that mentions it relates it to the file in
  which the node starts, and there to the line on which it starts (to the line of the text, if the
  node maps line by line). -/
theorem mentioned_iff_not_passesOver {σ : Type}
    (library : Option (Bytes → σ → Except Fault TagLibrary × σ)) (options : ValidationOptions)
    (memory : σ) (generation : Generation.Options) {root : Node} (hroot : root.IsUnit)
    (hvalid : (root.validate library options memory).failure = none) {code : GeneratedUnit}
    (hgen : (root.validate library options memory).tree.generate generation = .ok code)
    {n : Node} (hn : n ∈ code.tree.all)
    (hplaced : ∀ m ∈ n.all, m.kind ≠ .root ∧ 1 ≤ m.head.start.line) {i : Nat}
    (hi : n.head.lines.Has i) :
    (i ∈ code.tree.lineMap.lines.map (·.output) ↔ ∀ m ∈ n.all, ¬ m.PassesOver i) ∧
      (n.IsInnermost i → ∀ p ∈ code.tree.lineMap.lines, p.output = i →
        p.source = n.sourceLine i ∧
          ∃ f ∈ code.tree.lineMap.files, f.id = p.file ∧ f.path = n.head.start.file) := by
  have hspread := Generation.generate_isSpread hroot hvalid hgen
  -- The innermost nodes on the line decide.
  have hinner : ∀ m ∈ n.all, m.IsInnermost i →
      (i ∈ code.tree.lineMap.lines.map (·.output) ↔ ¬ m.PassesOver i) := by
    intro m hm hinner
    have hmtree := Node.mem_all_trans hn hm
    obtain ⟨hkind, hstart⟩ := hplaced m hm
    rw [← (hspread.of_mem (Node.mem_subtree_of_mem_all hmtree)).enters_iff_not_passesOver hinner
      hkind hstart]
    constructor
    · intro hmem
      obtain ⟨p, hp, rfl⟩ := List.mem_map.mp hmem
      obtain ⟨f, -, -, hmentions⟩ := LineMap.exists_mentions hspread hp
      exact ((LineMap.mentions_lineMap_own hspread hmtree hinner _ _).mp hmentions).1
    · intro henters
      obtain ⟨p, hp, rfl, -⟩ :=
        (LineMap.mentions_lineMap_own hspread hmtree hinner _ _).mpr ⟨henters, rfl, rfl⟩
      exact List.mem_map_of_mem hp
  refine ⟨⟨fun hmem m hm hpasses => ?_, fun hnone => ?_⟩, fun hown p hp hpi => ?_⟩
  · exact (hinner m hm hpasses.innermost).mp hmem hpasses
  · obtain ⟨m, hm, hminner⟩ := Node.exists_isInnermost ⟨n, n.mem_all_self, hi⟩
    exact (hinner m hm hminner).mpr (hnone m hm)
  · subst hpi
    obtain ⟨f, hf, hid, hmentions⟩ := LineMap.exists_mentions hspread hp
    obtain ⟨-, hpath, hsource⟩ :=
      (LineMap.mentions_lineMap_own hspread hn hown _ _).mp hmentions
    exact ⟨hsource, f, hf, hid, hpath⟩

/-- A tag around a scriptlet, another tag and text. The code of the inner tag stands in a method,
which the outer one calls between the code of the scriptlet and that of the text. -/
def interruptedTag : Node :=
  .mk { kind := .root, unit := some ⟨"/a.jsp", false, false, [], none⟩ }
    [.mk { kind := .customTag, start := { file := "/a.jsp", line := 1 },
           tag := some ⟨"t", "outer", "urn:t", some {}, false, 0, [], {}, {}⟩ }
      [.leaf { kind := .scriptlet, start := { file := "/a.jsp", line := 2 }, text := "x()" },
       .mk { kind := .customTag, start := { file := "/a.jsp", line := 3 },
             tag := some ⟨"t", "inner", "urn:t", some {}, false, 0, [], {}, {}⟩ } [],
       .leaf { kind := .text, start := { file := "/a.jsp", line := 4 }, text := "a" }]]

theorem interruptedTag_isUnit : interruptedTag.IsUnit := by
  have htag : ∀ h : Head, h.kind = .customTag → h.attributes = [] → h.descriptor?.isSome →
      h.IsOpen := by
    intro h hkind hattributes hdescriptor
    refine ⟨⟨by simp [hkind], ?_, fun _ => hdescriptor⟩, by rw [hkind]; rfl⟩
    rw [hattributes]
    exact fun a ha => absurd ha List.not_mem_nil
  refine ⟨rfl, rfl, List.forall_mem_singleton.mpr ?_⟩
  refine Head.IsOpen.node (htag _ rfl rfl rfl) (List.forall_mem_cons.mpr ⟨?_, ?_⟩)
  · exact Node.IsParsed.of_leaf rfl rfl
  · refine List.forall_mem_cons.mpr ⟨?_, List.forall_mem_singleton.mpr ?_⟩
    · exact Head.IsOpen.node (htag _ rfl rfl rfl) Node.allParsed_nil
    · exact Node.IsParsed.of_leaf rfl rfl

/-- The call of the method is a line of the outer tag and of no node below it, and no entry mentions
it. -/
theorem mentioned_iff_not_passesOver_interruptedTag : interruptedTag.IsUnit ∧
    (interruptedTag.validate (σ := Unit) none {} ()).failure = none ∧
    ∃ code, (interruptedTag.validate (σ := Unit) none {} ()).tree.generate {} = .ok code ∧
      ∃ n ∈ code.tree.all, (∀ m ∈ n.all, m.kind ≠ .root ∧ 1 ≤ m.head.start.line) ∧
        n.IsInnermost 50 ∧ 50 ∉ code.tree.lineMap.lines.map (·.output) ∧
        ∃ m ∈ n.all, m.PassesOver 50 := by
  have hvalid : (interruptedTag.validate (σ := Unit) none {} ()).failure = none := rfl
  have hsome : ((interruptedTag.validate (σ := Unit) none {} ()).tree.generate {}).toOption.any
      (fun code => code.tree.all.any fun n =>
        n.all.all (fun m => m.kind != .root && decide (1 ≤ m.head.start.line)) &&
        n.head.lines.first != 0 && decide (n.head.lines.first ≤ 50 ∧ 50 ≤ n.head.lines.last) &&
        n.descendants.all (fun m => decide (50 < m.head.lines.first ∨ m.head.lines.last < 50)) &&
        !(code.tree.lineMap.lines.map (·.output)).contains 50) = true := by decide +kernel
  obtain ⟨code, hgen, hcode⟩ := exists_ok_of_any hsome
  obtain ⟨n, hn, htest⟩ := List.any_eq_true.mp hcode
  simp only [Bool.and_eq_true, List.all_eq_true, bne_iff_ne, decide_eq_true_eq, Bool.not_eq_true',
    ← Bool.not_eq_true, List.contains_iff_mem] at htest
  obtain ⟨⟨⟨⟨hplaced, hfirst⟩, hbounds⟩, hbelow⟩, hmissing⟩ := htest
  have hinner : n.IsInnermost 50 := by
    refine ⟨⟨hfirst, hbounds⟩, ?_⟩
    rintro ⟨m, hm, -, hmi, hmi'⟩
    have := hbelow m hm
    omega
  obtain ⟨hmentioned, -⟩ := mentioned_iff_not_passesOver none {} () {} interruptedTag_isUnit hvalid
    hgen hn hplaced hinner.1
  refine ⟨interruptedTag_isUnit, hvalid, code, hgen, n, hn, hplaced, hinner, hmissing, ?_⟩
  by_contra hnone
  exact hmissing (hmentioned.mpr fun m hm hpasses => hnone ⟨m, hm, hpasses⟩)

end ServerPages
