import Mathlib.Data.List.Chain
import Mathlib.Data.List.Nodup
import ServerPages.LineMap.OfTree
import ServerPages.Proofs.AnnotatedLines

/-!
# The line map of a generated tree

Every entry of a line map stands for a number of pairs of a source line and a generated line
(`Entry.lines`). Entries are added node by node: a node adds its own lines up to those of the nodes
below it, then these add theirs, and it adds those that are left after them. `Adds` tells which
generated lines the entries that were added stand for.

Joining neighbours makes a line map shorter and leaves what it says alone: the pairs, written out
entry by entry, are one list before and after, with each pair as often and in the same place. What
two entries stand for one after the other is what their joined entry stands for (`KeepsLines`), a
pass from left to right joins two entries at a time (`flatMap_lines_joinAll`), and
`Builder.optimize` is two passes (`lines_optimize`). In words the same holds as long as the lines
that the calls name are words (`run_eq_map`); beyond that a joined step or count wraps around.

After a pass no two neighbours can be joined, since the fields of an entry that joining changes are
not read when the entry is compared with the one before it (`ReadsStart`). The second pass brings no
entries of one source line next to each other, because what it joins has more than one source line:
no joined count ever wraps around as far as one (`Entry.IsCounted`).

## Main results

* `childLines?_eq_some`: the hull of the lines below a node lies between the lines that the node
  adds.
* `adds_addNode`: the entries of a node and of those below it stand for lines of theirs, for each
  line once.
* `lineMap_function`: the entries of a generated tree stand for every generated line at most once,
  and for lines of the file only.
* `lines_run`, `lines_optimize_run`: what a builder stands for after any calls is left alone by one
  more `optimize`, and no `optimize` among the calls made a difference to it; in words, if the lines
  that the calls name are words.
* `optimize_run_final`: whatever the calls were, `optimize` leaves no neighbours that can be joined.
-/

namespace ServerPages

/-! ### Walking a tree -/

namespace Node

mutual

/-- A walk that enters every node is not stopped, and does not depend on where it starts. -/
theorem walkFrom_enter (parent : Option Kind) (n : Node) :
    (walkFrom (fun _ => .enter) parent n).2 = false ∧
      (walkFrom (fun _ => .enter) parent n).1.map (·.node) = n.all := by
  cases n with
  | mk h cs =>
    rw [all, walk, walkFrom, walkFrom]
    by_cases hbody : h.kind.allowsBody = true
    · simpa [hbody] using (walkAll_enter h.kind cs).1
    · simp [hbody]

theorem walkAll_enter (parent : Kind) (ns : List Node) :
    (walkAll (fun _ => .enter) parent ns).2 = false ∧
      (walkAll (fun _ => .enter) parent ns).1.map (·.node) = ns.flatMap all := by
  cases ns with
  | nil => exact ⟨rfl, rfl⟩
  | cons n ns =>
    obtain ⟨hstop, hnodes⟩ := walkFrom_enter (some parent) n
    obtain ⟨hstops, hrest⟩ := walkAll_enter parent ns
    rw [walkAll]
    simp [hstop, hstops, hnodes, hrest]

end

/-- All nodes of a tree are a node and those of its children, if its kind has any. -/
theorem all_mk (h : Head) (cs : List Node) :
    (mk h cs).all = mk h cs :: if h.kind.allowsBody then cs.flatMap all else [] := by
  rw [all, walk, walkFrom]
  by_cases hbody : h.kind.allowsBody = true
  · simp [hbody, (walkAll_enter h.kind cs).2]
  · simp [hbody]

mutual

theorem mem_subtree_of_mem_all {m n : Node} (hm : m ∈ n.all) : m ∈ n.subtree := by
  cases n with
  | mk h cs =>
    rw [all_mk] at hm
    rcases List.mem_cons.mp hm with rfl | hm
    · exact mem_subtree_self _
    · refine List.mem_cons_of_mem _ (mem_subtreeAll_of_mem_all ?_)
      by_cases hbody : h.kind.allowsBody = true
      · rwa [if_pos hbody] at hm
      · rw [if_neg hbody] at hm
        exact absurd hm List.not_mem_nil

theorem mem_subtreeAll_of_mem_all {m : Node} {ns : List Node} (hm : m ∈ ns.flatMap all) :
    m ∈ subtreeAll ns := by
  cases ns with
  | nil => exact absurd hm List.not_mem_nil
  | cons n ns =>
    rcases List.mem_append.mp (List.flatMap_cons ▸ hm) with hm | hm
    · exact List.mem_append_left _ (mem_subtree_of_mem_all hm)
    · exact List.mem_append_right _ (mem_subtreeAll_of_mem_all hm)

end

/-- A line of one of some nodes. -/
def HasLine (ns : List Node) (i : Nat) : Prop := ∃ m ∈ ns, m.head.lines.Has i

end Node

namespace LineMap

/-! ### Entries -/

/-- A source line and a generated line that belongs to it. -/
structure MappedLine where
  /-- The number of the source file. -/
  file : Nat
  /-- The source line. -/
  source : Nat
  /-- The generated line. -/
  output : Nat
  deriving DecidableEq, Repr

namespace Entry

/-- The lines that an entry stands for. -/
def lines (e : Entry) : List MappedLine :=
  (List.range e.count).flatMap fun i =>
    (List.range e.step).map fun j => ⟨e.file, e.source + i, e.output + i * e.step + j⟩

/-- The generated lines of an entry follow each other. -/
theorem outputs_lines (e : Entry) :
    e.lines.map (·.output) = List.range' e.output (e.count * e.step) := by
  have hblock : ∀ i, ((List.range e.step).map fun j =>
      (⟨e.file, e.source + i, e.output + i * e.step + j⟩ : MappedLine)).map (·.output) =
      List.range' (e.output + i * e.step) e.step := by
    intro i
    rw [List.map_map, List.range'_eq_map_range]
    rfl
  have hblocks : ∀ n, (List.range n).flatMap (fun i => List.range' (e.output + i * e.step) e.step) =
      List.range' e.output (n * e.step) := by
    intro n
    induction n with
    | zero => simp
    | succ n ih =>
      rw [List.range_succ, List.flatMap_append, ih, List.flatMap_singleton, Nat.succ_mul,
        ← List.range'_append_1]
  rw [lines, List.map_flatMap, ← hblocks e.count]
  exact congrArg (List.flatMap · _) (funext hblock)

end Entry

namespace Builder

/-- Giving a file a number adds no entry. -/
theorem entries_fileId {ι : Type} (b : Builder ι) (path : Bytes) :
    (b.fileId path).2.entries = b.entries := by
  rw [fileId]
  split <;> rfl

/-- The lines that the entries of a builder stand for. -/
def lines (b : Builder) : List MappedLine := b.entries.flatMap Entry.lines

/-- Entries were added that stand for lines of `S`, for each of them at most once. -/
def Adds (S : Nat → Prop) (b c : Builder) : Prop :=
  ∃ es, c.entries = b.entries ++ es ∧ ((es.flatMap Entry.lines).map (·.output)).Nodup ∧
    ∀ i ∈ (es.flatMap Entry.lines).map (·.output), S i

section Adds

variable {S T : Nat → Prop} {b c d : Builder}

theorem Adds.refl (b : Builder) : Adds S b b :=
  ⟨[], (List.append_nil _).symm, .nil, fun _ hi => absurd hi List.not_mem_nil⟩

/-- Entries of different lines are added one after the other. -/
theorem Adds.trans (hbc : Adds S b c) (hcd : Adds T c d) (hapart : ∀ i, S i → ¬ T i) :
    Adds (fun i => S i ∨ T i) b d := by
  obtain ⟨es, hes, hnodup, hall⟩ := hbc
  obtain ⟨fs, hfs, hnodup', hall'⟩ := hcd
  refine ⟨es ++ fs, by rw [hfs, hes, List.append_assoc], ?_, ?_⟩
  · rw [List.flatMap_append, List.map_append]
    exact hnodup.append hnodup' fun i hi hi' => hapart i (hall i hi) (hall' i hi')
  · intro i hi
    rw [List.flatMap_append, List.map_append, List.mem_append] at hi
    exact hi.imp (hall i) (hall' i)

theorem Adds.mono (h : Adds S b c) (hST : ∀ i, S i → T i) : Adds T b c := by
  obtain ⟨es, hes, hnodup, hall⟩ := h
  exact ⟨es, hes, hnodup, fun i hi => hST i (hall i hi)⟩

theorem ofLine_nat (i : Int) : (LineNumber.ofLine i : Nat) = i.toNat := rfl

theorem adds_add (b : Builder) (p : Position) (count output step : Nat) :
    Adds (fun i => output ≤ i ∧ i < output + count * step) b (b.add p count output step) := by
  unfold add
  simp only [ofLine_nat]
  split
  · exact .refl b
  · refine ⟨[⟨p.line.toNat, count, output, step, (b.fileId p.file).1⟩], ?_, ?_, ?_⟩
    · exact congrArg (· ++ _) (entries_fileId b p.file)
    · rw [List.flatMap_singleton, Entry.outputs_lines]
      exact List.nodup_range'
    · intro i hi
      rw [List.flatMap_singleton, Entry.outputs_lines, List.mem_range'_1] at hi
      exact hi

/-- A fact adds an entry for its lines. -/
theorem adds_addFact (b : Builder) (p : Position) (output step : Nat) :
    Adds (fun i => output ≤ i ∧ i < output + step) b (b.addFact p output step) :=
  (adds_add b p 1 output step).mono fun i hi => by omega

end Adds

end Builder

/-! ### The lines below a node -/

section Fold

variable {α : Type} (f : α → Nat) (a : Nat) {l : List α}

theorem foldl_min_le_start (l : List α) : l.foldl (fun m t => min m (f t)) a ≤ a := by
  induction l generalizing a with
  | nil => exact Nat.le_refl a
  | cons x xs ih => exact Nat.le_trans (ih _) (Nat.min_le_left _ _)

theorem foldl_min_le {x : α} (hx : x ∈ l) : l.foldl (fun m t => min m (f t)) a ≤ f x := by
  induction l generalizing a with
  | nil => exact absurd hx List.not_mem_nil
  | cons y ys ih =>
    rcases List.mem_cons.mp hx with rfl | hx
    · exact Nat.le_trans (foldl_min_le_start f _ ys) (Nat.min_le_right _ _)
    · exact ih _ hx

theorem foldl_min_mem (l : List α) : l.foldl (fun m t => min m (f t)) a = a ∨
    ∃ x ∈ l, l.foldl (fun m t => min m (f t)) a = f x := by
  induction l generalizing a with
  | nil => exact .inl rfl
  | cons y ys ih =>
    rcases ih (min a (f y)) with h | ⟨x, hx, h⟩
    · rcases Nat.le_total a (f y) with hle | hle
      · exact .inl (h.trans (Nat.min_eq_left hle))
      · exact .inr ⟨y, List.mem_cons_self, h.trans (Nat.min_eq_right hle)⟩
    · exact .inr ⟨x, List.mem_cons_of_mem y hx, h⟩

theorem start_le_foldl_max (l : List α) : a ≤ l.foldl (fun m t => max m (f t)) a := by
  induction l generalizing a with
  | nil => exact Nat.le_refl a
  | cons x xs ih => exact Nat.le_trans (Nat.le_max_left _ _) (ih _)

theorem le_foldl_max {x : α} (hx : x ∈ l) : f x ≤ l.foldl (fun m t => max m (f t)) a := by
  induction l generalizing a with
  | nil => exact absurd hx List.not_mem_nil
  | cons y ys ih =>
    rcases List.mem_cons.mp hx with rfl | hx
    · exact Nat.le_trans (Nat.le_max_right _ _) (start_le_foldl_max f _ ys)
    · exact ih _ hx

variable {f a}

theorem foldl_max_le {b : Nat} (ha : a ≤ b) (h : ∀ x ∈ l, f x ≤ b) :
    l.foldl (fun m t => max m (f t)) a ≤ b := by
  induction l generalizing a with
  | nil => exact ha
  | cons y ys ih =>
    exact ih (Nat.max_le.mpr ⟨ha, h y List.mem_cons_self⟩) fun x hx =>
      h x (List.mem_cons_of_mem y hx)

end Fold

section Below

variable {outer inner : LineSpan} {ds : List LineSpan}

theorem childLines?_eq_none (h : childLines? outer ds = none) {d : LineSpan} (hd : d ∈ ds) :
    startsInside outer d = false := by
  unfold childLines? at h
  dsimp only at h
  split at h
  · next hnil =>
    by_contra hinside
    rw [Bool.not_eq_false] at hinside
    have hmem : d ∈ ds.filter (startsInside outer) := List.mem_filter.mpr ⟨hd, hinside⟩
    rw [hnil] at hmem
    exact absurd hmem List.not_mem_nil
  · cases h

/-- The lines below a node, as far as they start inside its own, lie between two of these. -/
theorem childLines?_eq_some (h : childLines? outer ds = some inner) :
    (∃ d ∈ ds, startsInside outer d = true ∧ inner.first = d.first) ∧ inner.last ≤ outer.last ∧
      ∀ d ∈ ds, startsInside outer d = true →
        inner.first ≤ d.first ∧ min d.last outer.last ≤ inner.last := by
  unfold childLines? at h
  dsimp only at h
  split at h
  · cases h
  · next s rest hinside =>
    have hmem : ∀ d, d ∈ s :: rest ↔ d ∈ ds ∧ startsInside outer d = true := by
      intro d
      rw [← hinside, List.mem_filter]
    rw [hinside] at h
    obtain rfl := Option.some.inj h
    refine ⟨?_, ?_, fun d hd hstarts => ?_⟩
    · have hfirst : ∃ d ∈ s :: rest,
          (s :: rest).foldl (fun m t => min m t.first) s.first = d.first := by
        rcases foldl_min_mem LineSpan.first s.first (s :: rest) with h | h
        · exact ⟨s, List.mem_cons_self, h⟩
        · exact h
      obtain ⟨d, hd, hfirst⟩ := hfirst
      obtain ⟨hds, hstarts⟩ := (hmem d).mp hd
      exact ⟨d, hds, hstarts, hfirst⟩
    · exact foldl_max_le (Nat.zero_le _) fun d _ => Nat.min_le_right _ _
    · have hd' : d ∈ s :: rest := (hmem d).mpr ⟨hd, hstarts⟩
      exact ⟨foldl_min_le LineSpan.first _ hd', le_foldl_max (fun t => min t.last outer.last) _ hd'⟩

end Below

/-! ### Nodes -/

section Nodes

variable {height : Nat} {h : Head} {cs : List Node} {b : Builder}

/-- The entry of a node that maps line by line stands for its lines. -/
theorem adds_addText (b : Builder) (hfirst : h.lines.first ≠ 0) :
    b.Adds h.lines.Has (addText b h) := by
  have hhas : ∀ i, h.lines.first ≤ i ∧ i < h.lines.first + (h.lines.last + 1 - h.lines.first) →
      h.lines.Has i := by
    rintro i ⟨hi, hlast⟩
    exact ⟨hfirst, hi, by omega⟩
  unfold addText
  dsimp only
  split
  · exact (Builder.adds_add b _ _ _ _).mono fun i hi => hhas i (by omega)
  · exact (Builder.adds_addFact b _ _ _).mono hhas

/-- A line of a node below another one is none of the other's, or the node starts inside the
other one and ends there. -/
theorem line_below (hspread : (Node.mk h cs).IsSpread height) (hfirst : h.lines.first ≠ 0)
    {m : Node} (hm : m ∈ cs.flatMap Node.all) {i : Nat} (hi : m.head.lines.Has i) :
    ¬ h.lines.Has i ∨
      startsInside h.lines m.head.lines = true ∧ m.head.lines.last ≤ h.lines.last := by
  have hin : m ∈ Node.subtreeAll (Node.mk h cs).children := Node.mem_subtreeAll_of_mem_all hm
  have hle := (hspread.bounds m (List.mem_cons_of_mem _ hin) hi.1).1
  rcases hspread.below hin hfirst hi.1 with hapart | ⟨hstarts, hends⟩
  · exact .inl (hapart.symm.not_has hi)
  · refine .inr ⟨?_, hends⟩
    rw [startsInside, Bool.and_eq_true, decide_eq_true_eq, decide_eq_true_eq]
    exact ⟨hstarts, Nat.le_trans hle hends⟩

/-- A node has all of its lines for itself if no node below it starts inside. -/
theorem adds_before (hspread : (Node.mk h cs).IsSpread height) (hfirst : h.lines.first ≠ 0)
    (hinner : childLines? h.lines ((cs.flatMap Node.all).map (·.head.lines)) = none)
    (hbelow : ∀ b, Builder.Adds (Node.HasLine (cs.flatMap Node.all)) b (addNodes b cs)) :
    b.Adds (Node.HasLine (Node.mk h cs :: cs.flatMap Node.all))
      (addNodes (b.addFact h.start h.lines.first (h.lines.last + 1 - h.lines.first)) cs) := by
  have hown : ∀ i, h.lines.first ≤ i ∧
      i < h.lines.first + (h.lines.last + 1 - h.lines.first) → h.lines.Has i := by
    rintro i ⟨hi, hlast⟩
    exact ⟨hfirst, hi, by omega⟩
  refine ((Builder.adds_addFact b h.start h.lines.first _).trans (hbelow _) ?_).mono ?_
  · rintro i hi ⟨m, hm, hmi⟩
    rcases line_below hspread hfirst hm hmi with hno | ⟨hstarts, -⟩
    · exact hno (hown i hi)
    · rw [childLines?_eq_none hinner (List.mem_map_of_mem hm)] at hstarts
      cases hstarts
  · rintro i (hi | ⟨m, hm, hmi⟩)
    · exact ⟨_, List.mem_cons_self, hown i hi⟩
    · exact ⟨m, List.mem_cons_of_mem _ hm, hmi⟩

/-- The hull of the lines below a node is not empty and lies inside its own lines. -/
theorem childLines?_bounds {inner : LineSpan} (hspread : (Node.mk h cs).IsSpread height)
    (hinner : childLines? h.lines ((cs.flatMap Node.all).map (·.head.lines)) = some inner) :
    h.lines.first < inner.first ∧ inner.first ≤ inner.last ∧ inner.last ≤ h.lines.last := by
  obtain ⟨⟨d, hd, hdinside, hdfirst⟩, hlast, hhull⟩ := childLines?_eq_some hinner
  have hdhull := (hhull _ hd hdinside).2
  obtain ⟨n, hn, rfl⟩ := List.mem_map.mp hd
  have hinside : h.lines.first < n.head.lines.first ∧ n.head.lines.first ≤ h.lines.last := by
    simpa [startsInside] using hdinside
  have hnle := (hspread.bounds n
    (List.mem_cons_of_mem _ (Node.mem_subtreeAll_of_mem_all hn)) (by omega)).1
  omega

/-- A node has its lines before and after the nodes below it for itself. -/
theorem adds_around {inner : LineSpan} (hspread : (Node.mk h cs).IsSpread height)
    (hfirst : h.lines.first ≠ 0)
    (hinner : childLines? h.lines ((cs.flatMap Node.all).map (·.head.lines)) = some inner)
    (hbelow : ∀ b, Builder.Adds (Node.HasLine (cs.flatMap Node.all)) b (addNodes b cs)) :
    b.Adds (Node.HasLine (Node.mk h cs :: cs.flatMap Node.all))
      ((addNodes (b.addFact h.start h.lines.first (inner.first - h.lines.first)) cs).addFact h.start
        (inner.last + 1) (h.lines.last - inner.last)) := by
  obtain ⟨hlt, hle, hlast⟩ := childLines?_bounds hspread hinner
  obtain ⟨-, -, hhull⟩ := childLines?_eq_some hinner
  -- The lines below the node lie in the hull, as far as they are among its own.
  have hclear : ∀ i, Node.HasLine (cs.flatMap Node.all) i → h.lines.first ≤ i → i ≤ h.lines.last →
      inner.first ≤ i ∧ i ≤ inner.last := by
    rintro i ⟨m, hm, hmi⟩ hi hi'
    rcases line_below hspread hfirst hm hmi with hno | ⟨hstarts, hends⟩
    · exact absurd ⟨hfirst, hi, hi'⟩ hno
    · have hmhull := hhull _ (List.mem_map_of_mem hm) hstarts
      obtain ⟨-, hmi, hmi'⟩ := hmi
      omega
  refine (((Builder.adds_addFact b h.start h.lines.first _).trans (hbelow _) ?_).trans
    (Builder.adds_addFact _ h.start _ _) ?_).mono ?_
  · intro i hi hin
    have := hclear i hin
    omega
  · rintro i (hi | hin) htail
    · omega
    · have := hclear i hin
      omega
  · rintro i ((hi | ⟨m, hm, hmi⟩) | htail)
    · exact ⟨_, List.mem_cons_self, hfirst, hi.1, show i ≤ h.lines.last by omega⟩
    · exact ⟨m, List.mem_cons_of_mem _ hm, hmi⟩
    · exact ⟨_, List.mem_cons_self, hfirst, show h.lines.first ≤ i by omega,
        show i ≤ h.lines.last by omega⟩

/-- The entries of a node, if those of the nodes below it are as they should be. -/
theorem adds_node (hspread : (Node.mk h cs).IsSpread height)
    (hbelow : ∀ b, Builder.Adds (Node.HasLine (cs.flatMap Node.all)) b (addNodes b cs)) :
    b.Adds (Node.HasLine (Node.mk h cs).all) (addNode b (.mk h cs)) := by
  have hlines : ¬ (h.lines.first == 0 || h.kind == .root) = true → h.lines.first ≠ 0 := by
    intro hlines hzero
    simp [hzero] at hlines
  rw [addNode, Node.all_mk]
  by_cases hbody : h.kind.allowsBody = true
  · simp only [hbody, if_true, List.drop_one, List.tail_cons]
    split
    · exact (hbelow b).mono fun i ⟨m, hm, hmi⟩ => ⟨m, List.mem_cons_of_mem _ hm, hmi⟩
    · next hno =>
      split
      · exact (adds_addText b (hlines hno)).mono fun i hi => ⟨_, List.mem_cons_self, hi⟩
      · split
        · next hinner => exact adds_before hspread (hlines hno) hinner hbelow
        · next inner hinner =>
          obtain ⟨hlt, hle, -⟩ := childLines?_bounds hspread hinner
          rw [if_neg (by simpa using Nat.ne_of_gt (Nat.lt_of_lt_of_le (Nat.zero_lt_of_lt hlt) hle))]
          exact adds_around hspread (hlines hno) hinner hbelow
  · simp only [hbody, Bool.false_eq_true, if_false, List.drop_one, List.tail_cons]
    split
    · exact .refl b
    · next hno =>
      split
      · exact (adds_addText b (hlines hno)).mono fun i hi => ⟨_, List.mem_cons_self, hi⟩
      · change b.Adds _ (b.addFact h.start h.lines.first (h.lines.last + 1 - h.lines.first))
        refine (Builder.adds_addFact b h.start _ _).mono fun i hi => ?_
        exact ⟨_, List.mem_cons_self, hlines hno, hi.1, show i ≤ h.lines.last by omega⟩

end Nodes

mutual

/-- The entries of a node and of those below it stand for lines of theirs, for each of them at most
once. -/
theorem adds_addNode {height : Nat} {n : Node} (hn : n.IsSpread height) (b : Builder) :
    b.Adds (Node.HasLine n.all) (addNode b n) := by
  cases n with
  | mk h cs =>
    exact adds_node hn fun b => adds_addNodes (fun c hc => hn.child hc) hn.apart b

theorem adds_addNodes {height : Nat} {ns : List Node} (hns : ∀ n ∈ ns, n.IsSpread height)
    (hapart : ns.Pairwise fun c d => ∀ m ∈ c.subtree, ∀ l ∈ d.subtree,
      m.head.lines.first ≠ 0 → l.head.lines.first ≠ 0 → m.head.lines.Apart l.head.lines)
    (b : Builder) : b.Adds (Node.HasLine (ns.flatMap Node.all)) (addNodes b ns) := by
  cases ns with
  | nil => exact .refl b
  | cons n ns =>
    obtain ⟨hn, hrest⟩ := List.pairwise_cons.mp hapart
    refine ((adds_addNode (hns n List.mem_cons_self) b).trans
      (adds_addNodes (fun c hc => hns c (List.mem_cons_of_mem n hc)) hrest _) ?_).mono ?_
    · rintro i ⟨m, hm, hmi⟩ ⟨l, hl, hli⟩
      obtain ⟨d, hd, hl⟩ := Node.mem_subtreeAll.mp (Node.mem_subtreeAll_of_mem_all hl)
      exact (hn d hd m (Node.mem_subtree_of_mem_all hm) l hl hmi.1 hli.1).not_has hmi hli
    · rintro i (⟨m, hm, hmi⟩ | ⟨m, hm, hmi⟩)
      · exact ⟨m, List.mem_append_left _ hm, hmi⟩
      · exact ⟨m, List.mem_append_right _ hm, hmi⟩

end

end LineMap

/-- **The line map of a generated tree is a function.** If the code of a validated unit is
generated, the entries that its tree gives a line map stand for every generated line at most once,
and every generated line that they stand for is a line of the file. -/
theorem lineMap_function {σ : Type} (library : Option (Bytes → σ → Except Fault TagLibrary × σ))
    (options : ValidationOptions) (memory : σ) (generation : Generation.Options) {root : Node}
    (hroot : root.IsUnit) (hvalid : (root.validate library options memory).failure = none)
    {code : GeneratedUnit}
    (hgen : (root.validate library options memory).tree.generate generation = .ok code) :
    (code.tree.lineMap.lines.map (·.output)).Nodup ∧
      ∀ p ∈ code.tree.lineMap.lines, 1 ≤ p.output ∧ p.output ≤ Bytes.countByte 10 code.source := by
  have hspread := Generation.generate_isSpread hroot hvalid hgen
  obtain ⟨es, hes, hnodup, hall⟩ := LineMap.adds_addNode hspread {}
  have hlines : code.tree.lineMap.lines = es.flatMap LineMap.Entry.lines := by
    rw [LineMap.Builder.lines, Node.lineMap, hes]
    rfl
  rw [hlines]
  refine ⟨hnodup, fun p hp => ?_⟩
  obtain ⟨m, hm, hfirst, hi, hi'⟩ := hall p.output (List.mem_map_of_mem hp)
  have hbound := (hspread.bounds m (Node.mem_subtree_of_mem_all hm) hfirst).2
  omega

/-- A page of a tag around two lines of text and an expression after it. -/
def wrappedText : Node :=
  .mk { kind := .root, unit := some ⟨"/a.jsp", false, false, [], none⟩ }
    [.mk { kind := .customTag, start := { file := "/a.jsp", line := 1 },
           tag := some ⟨"t", "wrap", "urn:t", some {}, false, 0, [], {}, {}⟩ }
      [.leaf { kind := .text, start := { file := "/a.jsp", line := 1 }, text := "a\nb" }],
    .leaf { kind := .expression, start := { file := "/a.jsp", line := 3 }, text := "x" }]

theorem wrappedText_isUnit : wrappedText.IsUnit := by
  have htext : Node.AllParsed
      [.leaf { kind := .text, start := { file := "/a.jsp", line := 1 }, text := "a\nb" }] :=
    List.forall_mem_singleton.mpr (Node.IsParsed.of_leaf rfl rfl)
  refine ⟨rfl, rfl, List.forall_mem_cons.mpr ⟨?_, List.forall_mem_singleton.mpr ?_⟩⟩
  · exact Head.IsOpen.node ⟨⟨by simp, by simp, fun _ => rfl⟩, rfl⟩ htext
  · exact Node.IsParsed.of_leaf rfl rfl

/-- Text that is wrapped over lines. -/
theorem lineMap_function_wrappedText : wrappedText.IsUnit ∧
    (wrappedText.validate (σ := Unit) none {} ()).failure = none ∧
    ∃ code, (wrappedText.validate (σ := Unit) none {} ()).tree.generate {} = .ok code ∧
      code.tree.lineMap.lines ≠ [] ∧ (code.tree.lineMap.lines.map (·.output)).Nodup ∧
      ∀ p ∈ code.tree.lineMap.lines,
        1 ≤ p.output ∧ p.output ≤ Bytes.countByte 10 code.source := by
  have hvalid : (wrappedText.validate (σ := Unit) none {} ()).failure = none := rfl
  have hsome : ((wrappedText.validate (σ := Unit) none {} ()).tree.generate {}).toOption.any
      (fun code => !code.tree.lineMap.lines.isEmpty) = true := by decide +kernel
  obtain ⟨code, hgen, hlines⟩ := exists_ok_of_any hsome
  refine ⟨wrappedText_isUnit, hvalid, code, hgen, ?_,
    lineMap_function none {} () {} wrappedText_isUnit hvalid hgen⟩
  intro hnil
  simp [hnil] at hlines

/-! ### Joined entries -/

namespace LineMap

variable {ι κ : Type}

namespace Entry

/-! ### Two entries -/

/-- A way of joining two entries that stands for the lines of both, those of the first one first. -/
def KeepsLines (join? : Entry → Entry → Option Entry) : Prop :=
  ∀ a b c, join? a b = some c → c.lines = a.lines ++ b.lines

/-- The entry of a single source line stands for its generated lines. -/
theorem lines_of_count_eq_one {e : Entry} (h : e.count = 1) :
    e.lines = (List.range e.step).map fun j => ⟨e.file, e.source, e.output + j⟩ := by
  rw [lines, h]
  simp

section Join

variable [DecidableEq ι] [Add ι] {a b c : Entry ι}

/-- When entries of one line are joined. -/
theorem joinSameLine?_eq_some [OfNat ι 1] (h : joinSameLine? a b = some c) :
    b.file = a.file ∧ b.source = a.source ∧ a.count = 1 ∧ b.count = 1 ∧
      b.output = a.output + a.step ∧ c = { a with step := a.step + b.step } := by
  simp only [joinSameLine?, Option.ite_none_right_eq_some, Bool.and_eq_true, beq_iff_eq,
    Option.some.injEq] at h
  obtain ⟨⟨⟨⟨⟨hfile, hsource⟩, ha⟩, hb⟩, houtput⟩, rfl⟩ := h
  exact ⟨hfile.symm, hsource.symm, ha, hb, houtput, rfl⟩

/-- When entries of lines that follow are joined. -/
theorem joinSuccessive?_eq_some [Mul ι] (h : joinSuccessive? a b = some c) :
    b.file = a.file ∧ b.source = a.source + a.count ∧ b.step = a.step ∧
      b.output = a.output + a.count * a.step ∧ c = { a with count := a.count + b.count } := by
  simp only [joinSuccessive?, Option.ite_none_right_eq_some, Bool.and_eq_true, beq_iff_eq,
    Option.some.injEq] at h
  obtain ⟨⟨⟨⟨hfile, hsource⟩, hstep⟩, houtput⟩, rfl⟩ := h
  exact ⟨hfile.symm, hsource, hstep, houtput, rfl⟩

end Join

/-- Entries of one source line: the generated lines of the second follow those of the first. -/
theorem keepsLines_joinSameLine? : KeepsLines joinSameLine? := by
  intro a b c h
  obtain ⟨hfile, hsource, ha, hb, houtput, rfl⟩ := joinSameLine?_eq_some h
  have hjoined : ({ a with step := a.step + b.step } : Entry).count = 1 := ha
  rw [lines_of_count_eq_one ha, lines_of_count_eq_one hb, lines_of_count_eq_one hjoined,
    List.range_add, List.map_append, List.map_map, hfile, hsource, houtput]
  simp only [Function.comp_def, Nat.add_assoc]

/-- Entries of successive source lines: the source lines of the second follow those of the first,
and so do the blocks of generated lines, which are of one size. -/
theorem keepsLines_joinSuccessive? : KeepsLines joinSuccessive? := by
  intro a b c h
  obtain ⟨hfile, hsource, hstep, houtput, rfl⟩ := joinSuccessive?_eq_some h
  rw [lines, lines, lines, List.range_add, List.flatMap_append, List.flatMap_map]
  simp only [hfile, hsource, hstep, houtput, Nat.add_mul, Nat.add_assoc]

/-! ### A pass over the entries -/

section Pass

variable {join? : Entry ι → Entry ι → Option (Entry ι)}

/-- What is true of two entries and then of their joined one is true after a pass. -/
theorem forall_joinAll {P : Entry ι → Prop}
    (hjoin : ∀ a b c, join? a b = some c → P a → P b → P c) {es : List (Entry ι)}
    (hes : ∀ e ∈ es, P e) : ∀ e ∈ joinAll join? es, P e := by
  cases es with
  | nil => exact hes
  | cons a es =>
    rw [joinAll]
    induction es generalizing a with
    | nil => exact hes
    | cons b es ih =>
      obtain ⟨ha, hb, hes⟩ : P a ∧ P b ∧ ∀ e ∈ es, P e := by simpa using hes
      rw [joinOnto]
      cases h : join? a b with
      | none =>
        refine List.forall_mem_cons.mpr ⟨ha, ih b ?_⟩
        exact List.forall_mem_cons.mpr ⟨hb, hes⟩
      | some c => exact ih c (List.forall_mem_cons.mpr ⟨hjoin a b c h ha hb, hes⟩)

/-- Two ways of joining that agree on entries and their images agree on a pass over such entries. -/
theorem joinAll_map {join'? : Entry κ → Entry κ → Option (Entry κ)} {f : Entry ι → Entry κ}
    {P : Entry ι → Prop} (hmap : ∀ a b, P a → P b → join'? (f a) (f b) = (join? a b).map f)
    (hjoin : ∀ a b c, join? a b = some c → P a → P b → P c) {es : List (Entry ι)}
    (hes : ∀ e ∈ es, P e) : joinAll join'? (es.map f) = (joinAll join? es).map f := by
  cases es with
  | nil => rfl
  | cons a es =>
    rw [List.map_cons, joinAll, joinAll]
    induction es generalizing a with
    | nil => rfl
    | cons b es ih =>
      obtain ⟨ha, hb, hes⟩ : P a ∧ P b ∧ ∀ e ∈ es, P e := by simpa using hes
      rw [List.map_cons, joinOnto, joinOnto, hmap a b ha hb]
      cases h : join? a b with
      | none =>
        rw [List.map_cons]
        exact congrArg (f a :: ·) (ih b (List.forall_mem_cons.mpr ⟨hb, hes⟩))
      | some c => exact ih c (List.forall_mem_cons.mpr ⟨hjoin a b c h ha hb, hes⟩)

end Pass

/-- Induction on the entries that are left, for whatever entry was joined up to them. -/
theorem flatMap_lines_joinOnto {join? : Entry → Entry → Option Entry} (hjoin : KeepsLines join?)
    (a : Entry) (es : List Entry) :
    (joinOnto join? a es).flatMap lines = a.lines ++ es.flatMap lines := by
  induction es generalizing a with
  | nil => simp [joinOnto]
  | cons b es ih =>
    rw [joinOnto]
    cases h : join? a b with
    | none => simp [ih b]
    | some c => simp [ih c, hjoin a b c h]

/-- Joining neighbours leaves all lines. -/
theorem flatMap_lines_joinAll {join? : Entry → Entry → Option Entry} (hjoin : KeepsLines join?)
    (es : List Entry) : (joinAll join? es).flatMap lines = es.flatMap lines := by
  cases es with
  | nil => rfl
  | cons a es => exact flatMap_lines_joinOnto hjoin a es

end Entry

namespace Builder

/-! ### Builders -/

/-- A builder and its joined form stand for the same lines, in one order. -/
@[simp] theorem lines_optimize (b : Builder) : b.optimize.lines = b.lines := by
  calc b.optimize.lines
      = (Entry.joinAll Entry.joinSameLine? b.entries).flatMap Entry.lines :=
        Entry.flatMap_lines_joinAll Entry.keepsLines_joinSuccessive? _
    _ = b.lines := Entry.flatMap_lines_joinAll Entry.keepsLines_joinSameLine? _

@[simp] theorem files_optimize (b : Builder) : b.optimize.files = b.files := rfl

/-- Builders that say the same: they know the same files and stand for the same lines. -/
def SaysAs (b c : Builder) : Prop := b.files = c.files ∧ b.lines = c.lines

theorem optimize_saysAs (b : Builder) : b.optimize.SaysAs b := ⟨files_optimize b, lines_optimize b⟩

/-- The number of a file depends on the known files alone, and an entry is added after the others:
what is added to two builders that say the same is the same. -/
theorem SaysAs.add {b c : Builder} (h : b.SaysAs c) (p : Position) (count output step : Nat) :
    (b.add p count output step).SaysAs (c.add p count output step) := by
  obtain ⟨bfiles, bentries⟩ := b
  obtain ⟨cfiles, centries⟩ := c
  obtain ⟨rfl, hlines⟩ := h
  simp only [lines] at hlines
  simp only [Builder.add, fileId]
  split
  · exact ⟨rfl, hlines⟩
  · cases bfiles.find? (·.path == p.file) with
    | none | some f => simp [SaysAs, lines, hlines]

/-- A call on a builder. -/
inductive Call (ι : Type := Nat) where
  /-- Generated lines that belong to the line of a position. -/
  | addFact (p : Position) (output step : ι)
  /-- Generated lines that belong, one by one, to source lines. -/
  | addLines (p : Position) (count output : ι)
  /-- Joining neighbours. -/
  | optimize
  deriving DecidableEq

section Run

variable [DecidableEq ι] [Add ι] [Mul ι] [OfNat ι 0] [OfNat ι 1] [LE ι] [DecidableLE ι]
  [LineNumber ι]

/-- The builder after a call. -/
def after (b : Builder ι) : Call ι → Builder ι
  | .addFact p output step => b.addFact p output step
  | .addLines p count output => b.addLines p count output
  | .optimize => b.optimize

/-- The builder after calls on an empty one. -/
def run (calls : List (Call ι)) : Builder ι := calls.foldl after {}

/-- What is true of an empty builder and kept by calls is true after them. -/
theorem run_induction {P : Builder ι → Prop} (hempty : P {})
    (hafter : ∀ b call, P b → P (b.after call)) (calls : List (Call ι)) : P (run calls) := by
  suffices h : ∀ b : Builder ι, P b → P (calls.foldl after b) from h {} hempty
  induction calls with
  | nil => exact fun _ h => h
  | cons call calls ih => exact fun b h => ih _ (hafter b call h)

end Run

/-- One call on a builder: a joined one goes on as one that was not. -/
theorem SaysAs.after {b c : Builder} (h : b.SaysAs c) (call : Call) :
    (b.after call).SaysAs (if call = .optimize then c else c.after call) := by
  cases call with
  | addFact p output step => exact h.add p 1 output step
  | addLines p count output => exact h.add p count output 1
  | optimize =>
    obtain ⟨hfiles, hlines⟩ := optimize_saysAs b
    exact ⟨hfiles.trans h.1, hlines.trans h.2⟩

/-- Calls one after the other, against the same calls without any joining. -/
theorem SaysAs.foldl_after {b c : Builder} (h : b.SaysAs c) (calls : List Call) :
    (calls.foldl Builder.after b).SaysAs
      ((calls.filter (· ≠ .optimize)).foldl Builder.after c) := by
  induction calls generalizing b c with
  | nil => exact h
  | cons call calls ih =>
    have hcall := h.after call
    by_cases hjoin : call = .optimize
    · rw [if_pos hjoin] at hcall
      simpa [hjoin] using ih (hjoin ▸ hcall)
    · rw [if_neg hjoin] at hcall
      simpa [hjoin] using ih hcall

/-- Whatever the calls on a builder were, joining its entries leaves the lines that they stand for,
written out in order, and the files of them as they are; and both are what they would be without
any joining on the way. -/
theorem lines_run (calls : List Call) :
    (run calls).optimize.lines = (run calls).lines ∧
      (run calls).optimize.files = (run calls).files ∧
      (run calls).lines = (run (calls.filter (· ≠ .optimize))).lines ∧
      (run calls).files = (run (calls.filter (· ≠ .optimize))).files := by
  have hstart : SaysAs {} {} := ⟨rfl, rfl⟩
  obtain ⟨hfiles, hlines⟩ := hstart.foldl_after calls
  exact ⟨lines_optimize _, files_optimize _, hlines, hfiles⟩

/-- Two facts of the first line and two of the lines after it become one entry, with a call of
`optimize` in between or not. -/
example :
    let at' (line : Int) : Position := { file := "/index.jsp", line := line }
    (run [.addFact (at' 1) 10 1, .addFact (at' 1) 11 1, .optimize, .addFact (at' 2) 12 2,
      .addFact (at' 3) 14 2, .optimize] : Builder).entries = [⟨1, 3, 10, 2, 0⟩] := by
  decide

end Builder

/-! ### Words -/

/-- Numbers that stand for different words. -/
theorem ofNat_word_inj {m n : Nat} (hm : m < 2 ^ 64) (hn : n < 2 ^ 64) :
    Int64.ofNat m = Int64.ofNat n ↔ m = n := by
  refine ⟨fun h => ?_, fun h => h ▸ rfl⟩
  have hbits : m % 2 ^ 64 = n % 2 ^ 64 := by simpa using congrArg (fun w => w.toBitVec.toNat) h
  rwa [Nat.mod_eq_of_lt hm, Nat.mod_eq_of_lt hn] at hbits

namespace Entry

/-- The entry with other numbers of lines. -/
def map (f : ι → κ) (e : Entry ι) : Entry κ := ⟨f e.source, f e.count, f e.output, f e.step, e.file⟩

/-- An entry all lines of which are positive words. -/
structure Fits (e : Entry) : Prop where
  source_pos : 0 < e.source
  count_pos : 0 < e.count
  output_pos : 0 < e.output
  step_pos : 0 < e.step
  sources : e.source + e.count ≤ 2 ^ 63
  outputs : e.output + e.count * e.step ≤ 2 ^ 63

/-- No number of such an entry is too large for a word. -/
theorem Fits.bounds {e : Entry} (h : e.Fits) :
    e.source < 2 ^ 63 ∧ e.count < 2 ^ 63 ∧ e.output < 2 ^ 63 ∧ e.step < 2 ^ 63 ∧
      e.output + e.step ≤ 2 ^ 63 := by
  obtain ⟨hsource, hcount, houtput, hstep, hsources, houtputs⟩ := h
  have hsteps : e.step ≤ e.count * e.step := Nat.le_mul_of_pos_left _ hcount
  omega

theorem Fits.map_map {e : Entry} (h : e.Fits) :
    (e.map Int64.ofNat).map Int64.toNatClampNeg = e := by
  obtain ⟨hsource, hcount, houtput, hstep, -⟩ := h.bounds
  simp only [map, Int64.toNatClampNeg_ofNat_of_lt, hsource, hcount, houtput, hstep]

variable {a b c : Entry}

/-- Joining keeps to words, as the lines stay the same. -/
theorem Fits.joinSameLine (h : joinSameLine? a b = some c) (ha : a.Fits) (hb : b.Fits) :
    c.Fits := by
  obtain ⟨-, -, hone, hone', houtput, rfl⟩ := joinSameLine?_eq_some h
  have houtputs := hb.outputs
  rw [hone', houtput, Nat.one_mul] at houtputs
  refine ⟨ha.source_pos, ha.count_pos, ha.output_pos, Nat.add_pos_left ha.step_pos _, ha.sources,
    ?_⟩
  dsimp only
  rw [hone, Nat.one_mul]
  omega

theorem Fits.joinSuccessive (h : joinSuccessive? a b = some c) (ha : a.Fits) (hb : b.Fits) :
    c.Fits := by
  obtain ⟨-, hsource, hstep, houtput, rfl⟩ := joinSuccessive?_eq_some h
  have hsources := hb.sources
  have houtputs := hb.outputs
  rw [hsource] at hsources
  rw [houtput, hstep, Nat.add_assoc, ← Nat.add_mul] at houtputs
  exact ⟨ha.source_pos, Nat.add_pos_left ha.count_pos _, ha.output_pos, ha.step_pos,
    Nat.add_assoc _ _ _ ▸ hsources, houtputs⟩

/-- Words are joined as the numbers that they hold. -/
theorem joinSameLine?_map (ha : a.Fits) (hb : b.Fits) :
    joinSameLine? (a.map Int64.ofNat) (b.map Int64.ofNat) =
      (joinSameLine? a b).map (map Int64.ofNat) := by
  obtain ⟨hsource, hcount, -, -, houtputs⟩ := ha.bounds
  obtain ⟨hsource', hcount', houtput', -⟩ := hb.bounds
  have hone : ∀ {n : Nat}, n < 2 ^ 63 → ((Int64.ofNat n == 1) = (n == 1)) := by
    intro n hn
    have := ofNat_word_inj (m := n) (n := 1) (by omega) (by omega)
    rw [Bool.eq_iff_iff, beq_iff_eq, beq_iff_eq]
    exact this
  have heq : ∀ {m n : Nat}, m < 2 ^ 64 → n < 2 ^ 64 →
      ((Int64.ofNat m == Int64.ofNat n) = (m == n)) := by
    intro m n hm hn
    rw [Bool.eq_iff_iff, beq_iff_eq, beq_iff_eq, ofNat_word_inj hm hn]
  simp only [joinSameLine?, map, hone hcount, hone hcount', ← Int64.ofNat_add,
    heq (m := a.source) (n := b.source) (by omega) (by omega),
    heq (m := b.output) (n := a.output + a.step) (by omega) (by omega)]
  split <;> rfl

/-- Entries of words are joined as those of numbers are. -/
theorem joinSuccessive?_map (ha : a.Fits) (hb : b.Fits) :
    joinSuccessive? (a.map Int64.ofNat) (b.map Int64.ofNat) =
      (joinSuccessive? a b).map (map Int64.ofNat) := by
  obtain ⟨hsource, hcount, -, hstep, -⟩ := ha.bounds
  obtain ⟨hsource', -, houtput', hstep', -⟩ := hb.bounds
  have houtputs := ha.outputs
  have heq : ∀ {m n : Nat}, m < 2 ^ 64 → n < 2 ^ 64 →
      ((Int64.ofNat m == Int64.ofNat n) = (m == n)) := by
    intro m n hm hn
    rw [Bool.eq_iff_iff, beq_iff_eq, beq_iff_eq, ofNat_word_inj hm hn]
  simp only [joinSuccessive?, map, ← Int64.ofNat_add, ← Int64.ofNat_mul,
    heq (m := b.source) (n := a.source + a.count) (by omega) (by omega),
    heq (m := b.step) (n := a.step) (by omega) (by omega),
    heq (m := b.output) (n := a.output + a.count * a.step) (by omega) (by omega)]
  split <;> rfl

end Entry

namespace Builder

/-- The builder with other numbers of lines. -/
def map (f : ι → κ) (b : Builder ι) : Builder κ := ⟨b.files, b.entries.map (Entry.map f)⟩

/-- The lines that the entries of a builder of words stand for. A count or a step that is not
positive stands for none. -/
def mapped (b : Builder Int64) : List MappedLine := (b.map Int64.toNatClampNeg).lines

/-- All lines of the entries are positive words. -/
def Fits (b : Builder) : Prop := ∀ e ∈ b.entries, e.Fits

theorem Fits.map_map {b : Builder} (h : b.Fits) :
    (b.map Int64.ofNat).map Int64.toNatClampNeg = b := by
  have hentries : b.entries.map (fun e => (e.map Int64.ofNat).map Int64.toNatClampNeg) =
      b.entries := by
    refine (List.map_congr_left fun e he => (h e he).map_map).trans (List.map_id' _)
  exact congrArg (Builder.mk b.files) (List.map_map.trans hentries)

/-- Words are joined as the numbers that they hold. -/
theorem Fits.optimize {b : Builder} (h : b.Fits) :
    (b.map Int64.ofNat).optimize = b.optimize.map Int64.ofNat ∧ b.optimize.Fits := by
  have hsame : ∀ e ∈ Entry.joinAll Entry.joinSameLine? b.entries, e.Fits :=
    Entry.forall_joinAll (fun _ _ _ hjoin ha hb => .joinSameLine hjoin ha hb) h
  refine ⟨?_, Entry.forall_joinAll (fun _ _ _ hjoin ha hb => .joinSuccessive hjoin ha hb) hsame⟩
  rw [Builder.optimize, map, Entry.joinAll_map (fun _ _ => Entry.joinSameLine?_map)
    (fun _ _ _ => Entry.Fits.joinSameLine) h, Entry.joinAll_map
    (fun _ _ => Entry.joinSuccessive?_map) (fun _ _ _ => Entry.Fits.joinSuccessive) hsame]
  rfl

/-- The number of a file does not depend on the entries. -/
theorem fileId_map (f : ι → κ) (b : Builder ι) (path : Bytes) :
    (b.map f).fileId path = ((b.fileId path).1, (b.fileId path).2.map f) := by
  unfold fileId map
  dsimp only
  split <;> rfl

/-- The call with the numbers that its words hold. -/
def Call.toNat : Call Int64 → Call
  | .addFact p output step => .addFact p.wrapped output.toNatClampNeg step.toNatClampNeg
  | .addLines p count output => .addLines p.wrapped count.toNatClampNeg output.toNatClampNeg
  | .optimize => .optimize

/-- The lines that a call notes, if it notes any, are words. -/
def Call.Fits : Call → Prop
  | .addFact p output step => 0 < p.line → output + step ≤ 2 ^ 63
  | .addLines p count output => 0 < p.line → p.line + count ≤ 2 ^ 63 ∧ output + count ≤ 2 ^ 63
  | .optimize => True

/-- The line of a position is taken as a word. -/
theorem line_wrapped (p : Position) : p.wrapped.line = (Int64.ofInt p.line).toInt := by
  rw [Int64.toInt_ofInt]
  rfl

theorem toNatClampNeg_pos {n : Int64} : 0 < n.toNatClampNeg ↔ ¬ n ≤ 0 := by
  rw [Int64.le_iff_toInt_le, Int64.toInt_zero, ← Int64.toNat_toInt]
  omega

/-- An entry of words is added as that of the numbers that they hold. -/
theorem Fits.add {b : Builder} (h : b.Fits) (p : Position) {count output step : Int64}
    (hfits : 0 < p.wrapped.line → 0 < count.toNatClampNeg → 0 < output.toNatClampNeg →
      0 < step.toNatClampNeg → p.wrapped.line.toNat + count.toNatClampNeg ≤ 2 ^ 63 ∧
        output.toNatClampNeg + count.toNatClampNeg * step.toNatClampNeg ≤ 2 ^ 63) :
    (b.map Int64.ofNat).add p count output step =
        (b.add p.wrapped count.toNatClampNeg output.toNatClampNeg step.toNatClampNeg).map
          Int64.ofNat ∧
      (b.add p.wrapped count.toNatClampNeg output.toNatClampNeg step.toNatClampNeg).Fits := by
  have hline := line_wrapped p
  have hsource : LineNumber.ofLine p.wrapped.line = (Int64.ofInt p.line).toNatClampNeg := by
    rw [hline]
    exact Int64.toNat_toInt _
  have hkept : ∀ {n : Int64}, ¬ n ≤ 0 → Int64.ofNat n.toNatClampNeg = n := by
    intro n hn
    exact Int64.ofNat_toNatClampNeg n (Int64.le_of_lt (Int64.not_le.mp hn))
  have hzero : ∀ n : Int64, decide (n.toNatClampNeg ≤ 0) = decide (n ≤ 0) := by
    intro n
    rw [decide_eq_decide, ← Nat.not_lt, toNatClampNeg_pos, not_not]
  have hguard : ∀ n : Int64, decide (n.toNatClampNeg ≤ 0) = decide (n ≤ 0) := by
    intro n
    rw [decide_eq_decide, ← Nat.not_lt, toNatClampNeg_pos, not_not]
  have hword : (LineNumber.ofLine p.line : Int64) = Int64.ofInt p.line := rfl
  simp only [Builder.add, hsource, hword, hguard]
  by_cases hdrop : (decide (Int64.ofInt p.line ≤ 0) || decide (count ≤ 0) || decide (output ≤ 0) ||
      decide (step ≤ 0)) = true
  · simpa only [if_pos hdrop] using ⟨trivial, h⟩
  · simp only [if_neg hdrop]
    simp only [Bool.or_eq_true, decide_eq_true_eq, not_or] at hdrop
    obtain ⟨⟨⟨hline', hcount⟩, houtput⟩, hstep⟩ := hdrop
    have hpos := toNatClampNeg_pos.mpr hline'
    have hbound := hfits (by rw [hline]; simpa [Int64.le_iff_toInt_le] using hline')
      (toNatClampNeg_pos.mpr hcount) (toNatClampNeg_pos.mpr houtput) (toNatClampNeg_pos.mpr hstep)
    rw [hline, Int64.toNat_toInt] at hbound
    refine ⟨?_, List.forall_mem_append.mpr ⟨?_, List.forall_mem_singleton.mpr ?_⟩⟩
    · rw [fileId_map]
      simp only [map, List.map_append, List.map_singleton, Entry.map, hkept hline', hkept hcount,
        hkept houtput, hkept hstep]
      rfl
    · rw [entries_fileId]
      exact h
    · exact ⟨hpos, toNatClampNeg_pos.mpr hcount, toNatClampNeg_pos.mpr houtput,
        toNatClampNeg_pos.mpr hstep, hbound.1, hbound.2⟩

/-- A call on words is that on the numbers that they hold. -/
theorem Fits.after {b : Builder} (h : b.Fits) {call : Call Int64} (hcall : call.toNat.Fits) :
    (b.map Int64.ofNat).after call = (b.after call.toNat).map Int64.ofNat ∧
      (b.after call.toNat).Fits := by
  cases call with
  | addFact p output step =>
    refine h.add p fun hline _ _ _ => ?_
    have hlast := hcall hline
    have hword := Int64.toInt_lt (Int64.ofInt p.line)
    rw [← line_wrapped] at hword
    simp only [Nat.one_mul, Int64.reduceToNatClampNeg]
    omega
  | addLines p count output =>
    refine h.add p fun hline _ _ _ => ?_
    obtain ⟨hsources, houtputs⟩ := hcall hline
    simp only [Nat.mul_one, Int64.reduceToNatClampNeg]
    omega
  | optimize => exact h.optimize

/-- Calls whose lines are words. -/
theorem run_eq_map (calls : List (Call Int64)) (hcalls : ∀ c ∈ calls, c.toNat.Fits) :
    run calls = (run (calls.map Call.toNat)).map Int64.ofNat ∧
      (run (calls.map Call.toNat)).Fits := by
  suffices h : ∀ b : Builder, b.Fits →
      calls.foldl after (b.map Int64.ofNat) =
        ((calls.map Call.toNat).foldl after b).map Int64.ofNat ∧
      ((calls.map Call.toNat).foldl after b).Fits from
    h {} (fun _ he => absurd he List.not_mem_nil)
  induction calls with
  | nil => exact fun b h => ⟨rfl, h⟩
  | cons call calls ih =>
    intro b h
    obtain ⟨hcall, hcalls⟩ := List.forall_mem_cons.mp hcalls
    obtain ⟨heq, hfits⟩ := h.after hcall
    rw [List.map_cons, List.foldl_cons, List.foldl_cons, heq]
    exact ih hcalls _ hfits

/-- **Joining leaves the lines alone**, as long as the lines that the calls note are words: whatever
such calls on a builder were, joining its entries leaves the lines that they stand for, written out
in order, and the files of them as they are; and both are what they would be without any joining on
the way. -/
theorem lines_optimize_run {calls : List (Call Int64)} (hcalls : ∀ c ∈ calls, c.toNat.Fits) :
    (run calls).optimize.mapped = (run calls).mapped ∧
      (run calls).optimize.files = (run calls).files ∧
      (run calls).mapped = (run (calls.filter (· ≠ .optimize))).mapped ∧
      (run calls).files = (run (calls.filter (· ≠ .optimize))).files := by
  obtain ⟨heq, hfits⟩ := run_eq_map calls hcalls
  obtain ⟨heq', hfits'⟩ := run_eq_map (calls.filter (· ≠ .optimize)) fun c hc =>
    hcalls c (List.mem_of_mem_filter hc)
  have hfilter : (calls.filter (· ≠ .optimize)).map Call.toNat =
      (calls.map Call.toNat).filter (· ≠ .optimize) := by
    rw [List.filter_map]
    refine congrArg (List.map _) (List.filter_congr fun c _ => ?_)
    cases c <;> rfl
  obtain ⟨hlines, hfiles, hlines', hfiles'⟩ := lines_run (calls.map Call.toNat)
  obtain ⟨hjoined, hfits''⟩ := hfits.optimize
  rw [hfilter] at heq' hfits'
  simp only [mapped, heq, heq', hjoined, hfits.map_map, hfits'.map_map, hfits''.map_map]
  exact ⟨hlines, hfiles, hlines', hfiles'⟩

/-- A fact about a line of a page. -/
def factOf (line : Int) (output step : Int64) : Call Int64 :=
  .addFact { file := "/index.jsp", line := line } output step

/-- Calls whose entries are joined. -/
theorem lines_optimize_run_joined :
    (∀ c ∈ [factOf 1 10 1, factOf 1 11 1, .optimize, factOf 2 12 2], c.toNat.Fits) ∧
      (run [factOf 1 10 1, factOf 1 11 1, .optimize, factOf 2 12 2]).optimize.entries =
        [⟨1, 2, 10, 2, 0⟩] ∧
      (run [factOf 1 10 1, factOf 1 11 1, .optimize, factOf 2 12 2]).optimize.mapped =
        (run [factOf 1 10 1, factOf 1 11 1, factOf 2 12 2]).mapped := by
  have hfits : ∀ c ∈ [factOf 1 10 1, factOf 1 11 1, .optimize, factOf 2 12 2], c.toNat.Fits := by
    simp only [List.forall_mem_cons, List.not_mem_nil, false_imp_iff, implies_true, and_true]
    refine ⟨fun _ => ?_, fun _ => ?_, trivial, fun _ => ?_⟩ <;> decide
  obtain ⟨hlines, -, hlines', -⟩ := lines_optimize_run hfits
  refine ⟨hfits, by decide, ?_⟩
  rw [hlines, hlines']
  rfl

/-- Two facts that have 2⁶² generated lines each, which follow each other from line 2⁶⁰ on. -/
def hugeFacts : List (Call Int64) :=
  [factOf 1 1152921504606846976 4611686018427387904,
    factOf 1 5764607523034234880 4611686018427387904]

/-- The step of their joined entry wraps around. -/
theorem mapped_optimize_hugeFacts : (run hugeFacts).optimize.mapped ≠ (run hugeFacts).mapped := by
  have hjoined : ((run hugeFacts).optimize.map Int64.toNatClampNeg).entries =
      [⟨1, 1, 2 ^ 60, 0, 0⟩] := by decide +kernel
  have hapart : ((run hugeFacts).map Int64.toNatClampNeg).entries =
      [⟨1, 1, 2 ^ 60, 2 ^ 62, 0⟩, ⟨1, 1, 2 ^ 60 + 2 ^ 62, 2 ^ 62, 0⟩] := by decide +kernel
  intro h
  have hcount := congrArg (fun ls => (ls.map (·.output)).length) h
  simp only [mapped, lines, hjoined, hapart, List.flatMap_cons, List.map_append,
    Entry.outputs_lines, List.length_append, List.length_range'] at hcount
  simp at hcount

end Builder

namespace Entry

/-! ### Neighbours that cannot be joined -/

/-- What is joined to an entry is not read when the entry is compared with the one before it. -/
def ReadsStart (join? : Entry ι → Entry ι → Option (Entry ι)) : Prop :=
  ∀ a b c d, join? b c = some d → join? a b = none → join? a d = none

variable {join? : Entry ι → Entry ι → Option (Entry ι)}

/-- What joining with any of some entries leaves true of an entry is true of the entry that they are
joined to. -/
theorem head_joinOnto {P Q : Entry ι → Prop}
    (hjoin : ∀ b c d, join? b c = some d → P b → Q c → P d) {a : Entry ι} (ha : P a)
    (es : List (Entry ι)) (hes : ∀ e ∈ es, Q e) :
    ∀ d ∈ (joinOnto join? a es).head?, P d := by
  induction es generalizing a with
  | nil => simpa [joinOnto] using ha
  | cons b es ih =>
    obtain ⟨hb, hes⟩ := List.forall_mem_cons.mp hes
    rw [joinOnto]
    cases h : join? a b with
    | none => simpa using ha
    | some c => exact ih (hjoin a b c h ha hb) hes

/-- After a pass no two neighbours can be joined. -/
theorem isChain_joinAll (hjoin : ReadsStart join?) (es : List (Entry ι)) :
    (joinAll join? es).IsChain fun a b => join? a b = none := by
  cases es with
  | nil => exact .nil
  | cons a es =>
    rw [joinAll]
    induction es generalizing a with
    | nil => exact .singleton a
    | cons b es ih =>
      rw [joinOnto]
      cases h : join? a b with
      | none =>
        have hstart := head_joinOnto (Q := fun _ => True)
          (fun b c d hd hab _ => hjoin a b c d hd hab) h es fun _ _ => trivial
        exact List.isChain_cons.mpr ⟨hstart, ih b⟩
      | some c => exact ih c

/-- Neighbours that cannot be joined are left alone. -/
theorem joinAll_of_isChain {es : List (Entry ι)} (h : es.IsChain fun a b => join? a b = none) :
    joinAll join? es = es := by
  cases es with
  | nil => rfl
  | cons a es =>
    rw [joinAll]
    induction es generalizing a with
    | nil => rfl
    | cons b es ih =>
      obtain ⟨hab, hes⟩ := List.isChain_cons_cons.mp h
      simp only [joinOnto, hab, ih b hes]

variable [DecidableEq ι] [Add ι]

/-- Two entries of one source line whose generated lines follow each other. -/
def SameLine [OfNat ι 1] (a b : Entry ι) : Prop :=
  a.file = b.file ∧ a.source = b.source ∧ a.count = 1 ∧ b.count = 1 ∧
    b.output = a.output + a.step

/-- Two entries of successive source lines that gave as many generated lines each. -/
def Successive [Mul ι] (a b : Entry ι) : Prop :=
  a.file = b.file ∧ b.source = a.source + a.count ∧ b.step = a.step ∧
    b.output = a.output + a.count * a.step

theorem joinSameLine?_eq_none_iff [OfNat ι 1] {a b : Entry ι} :
    joinSameLine? a b = none ↔ ¬ a.SameLine b := by
  simp [joinSameLine?, SameLine, and_assoc]

theorem joinSuccessive?_eq_none_iff [Mul ι] {a b : Entry ι} :
    joinSuccessive? a b = none ↔ ¬ a.Successive b := by
  simp [joinSuccessive?, Successive, and_assoc]

/-- Joining changes the step, which is read of the first entry only. -/
theorem readsStart_joinSameLine? [OfNat ι 1] :
    ReadsStart (joinSameLine? : Entry ι → Entry ι → Option (Entry ι)) := by
  intro a b c d hd hab
  obtain ⟨-, -, -, -, -, rfl⟩ := joinSameLine?_eq_some hd
  rw [joinSameLine?_eq_none_iff] at hab ⊢
  exact hab

/-- Joining changes the count, which is read of the first entry only. -/
theorem readsStart_joinSuccessive? [Mul ι] :
    ReadsStart (joinSuccessive? : Entry ι → Entry ι → Option (Entry ι)) := by
  intro a b c d hd hab
  obtain ⟨-, -, -, -, rfl⟩ := joinSuccessive?_eq_some hd
  rw [joinSuccessive?_eq_none_iff] at hab ⊢
  exact hab

/-- The second pass joins entries of several source lines. If these are none of one line, it brings
no two entries of one line next to each other. -/
theorem isChain_joinAll_joinSuccessive? [Mul ι] [OfNat ι 1] {P : Entry ι → Prop}
    (hjoin : ∀ a b c, joinSuccessive? a b = some c → P a → P b → P c ∧ c.count ≠ 1)
    {es : List (Entry ι)} (hes : ∀ e ∈ es, P e) (h : es.IsChain fun a b => ¬ a.SameLine b) :
    (joinAll joinSuccessive? es).IsChain fun a b => ¬ a.SameLine b := by
  cases es with
  | nil => exact .nil
  | cons a es =>
    rw [joinAll]
    induction es generalizing a with
    | nil => exact .singleton a
    | cons b es ih =>
      obtain ⟨ha, hb, hes⟩ : P a ∧ P b ∧ ∀ e ∈ es, P e := by simpa using hes
      obtain ⟨hab, hchain⟩ := List.isChain_cons_cons.mp h
      rw [joinOnto]
      cases hstep : joinSuccessive? a b with
      | none =>
        refine List.isChain_cons.mpr ⟨?_, ih b (List.forall_mem_cons.mpr ⟨hb, hes⟩) hchain⟩
        have hkept : ∀ c d e, joinSuccessive? c d = some e → P c ∧ ¬ a.SameLine c → P d →
            P e ∧ ¬ a.SameLine e := by
          rintro c d e he ⟨hc, -⟩ hd
          obtain ⟨he, hmany⟩ := hjoin c d e he hc hd
          exact ⟨he, fun ⟨_, _, _, hone, _⟩ => hmany hone⟩
        exact fun d hd => (head_joinOnto hkept ⟨hb, hab⟩ es hes d hd).2
      | some c =>
        obtain ⟨hc, hmany⟩ := hjoin a b c hstep ha hb
        refine ih c (List.forall_mem_cons.mpr ⟨hc, hes⟩)
          (List.isChain_cons.mpr ⟨fun d _ ⟨_, _, hone, _⟩ => hmany hone, hchain.tail⟩)

/-- An entry of words that has source lines and does not end beyond the last of all words. A count
that wrapped around is negative. -/
def IsCounted (e : Entry Int64) : Prop :=
  e.count ≠ 0 ∧ e.source.toBitVec.toNat + e.count.toBitVec.toNat < 2 ^ 64

/-- A joined entry has more than one source line: where the second entry starts shows that the sum
of the counts did not wrap around. -/
theorem IsCounted.joinSuccessive {a b c : Entry Int64} (h : joinSuccessive? a b = some c)
    (ha : a.IsCounted) (hb : b.IsCounted) : c.IsCounted ∧ c.count ≠ 1 := by
  obtain ⟨-, hsource, -, -, rfl⟩ := joinSuccessive?_eq_some h
  obtain ⟨hcount, hend⟩ := ha
  obtain ⟨hcount', hend'⟩ := hb
  have hpos : ∀ {n : Int64}, n ≠ 0 → 0 < n.toBitVec.toNat := fun hn =>
    Nat.pos_of_ne_zero fun h => hn (Int64.toBitVec_inj.mp (BitVec.eq_of_toNat_eq h))
  have hstart : b.source.toBitVec.toNat = a.source.toBitVec.toNat + a.count.toBitVec.toNat := by
    rw [hsource, Int64.toBitVec_add, BitVec.toNat_add_of_lt hend]
  have hsum : (a.count + b.count).toBitVec.toNat =
      a.count.toBitVec.toNat + b.count.toBitVec.toNat := by
    rw [Int64.toBitVec_add, BitVec.toNat_add_of_lt (by omega)]
  have hmany : 2 ≤ (a.count + b.count).toBitVec.toNat := by
    have := hpos hcount
    have := hpos hcount'
    omega
  have hfew : ∀ {n : Int64}, n.toBitVec.toNat < 2 → a.count + b.count ≠ n := by
    rintro n hn rfl
    omega
  exact ⟨⟨hfew (by decide), by dsimp only; omega⟩, hfew (by decide)⟩

end Entry

namespace Builder

/-- A positive word is below half of the words. -/
theorem toNat_toBitVec_lt {n : Int64} (h : ¬ n ≤ 0) : n.toBitVec.toNat < 2 ^ 63 := by
  rw [Int64.le_iff_toInt_le, Int64.toInt_zero, Int.not_le, ← Int64.toInt_toBitVec,
    BitVec.toInt_eq_toNat_cond] at h
  split at h <;> omega

/-- No count of an entry wrapped around further than to a negative number. -/
def IsCounted (b : Builder Int64) : Prop := ∀ e ∈ b.entries, e.IsCounted

theorem IsCounted.joinSameLine {b : Builder Int64} (h : b.IsCounted) :
    ∀ e ∈ Entry.joinAll Entry.joinSameLine? b.entries, e.IsCounted := by
  refine Entry.forall_joinAll (fun a b c hc ha _ => ?_) h
  obtain ⟨-, -, -, -, -, rfl⟩ := Entry.joinSameLine?_eq_some hc
  exact ha

theorem IsCounted.add {b : Builder Int64} (h : b.IsCounted) (p : Position)
    (count output step : Int64) : (b.add p count output step).IsCounted := by
  rw [Builder.add]
  split
  · exact h
  · next hno =>
    simp only [Bool.or_eq_true, decide_eq_true_eq, not_or] at hno
    obtain ⟨⟨⟨hline, hcount⟩, -⟩, -⟩ := hno
    rintro e he
    rcases List.mem_append.mp he with he | he
    · exact h e (entries_fileId b p.file ▸ he)
    · obtain rfl := List.mem_singleton.mp he
      have hline := toNat_toBitVec_lt hline
      have hend := toNat_toBitVec_lt hcount
      exact ⟨fun h => hcount (Int64.le_of_eq h), by dsimp only; omega⟩

/-- Every call leaves counts that are positive. -/
theorem IsCounted.after {b : Builder Int64} (h : b.IsCounted) (call : Call Int64) :
    (b.after call).IsCounted := by
  cases call with
  | addFact p output step => exact h.add p 1 output step
  | addLines p count output => exact h.add p count output 1
  | optimize =>
    exact Entry.forall_joinAll (fun a b c hc ha hb => (ha.joinSuccessive hc hb).1) h.joinSameLine

/-- **Joining is final.** Whatever the calls on a builder were, after `optimize` no two adjacent
entries are of one source line with generated lines that follow each other, and no two are of
successive source lines with as many generated lines each. So a further `optimize` changes
nothing. -/
theorem optimize_run_final (calls : List (Call Int64)) :
    ((run calls).optimize.entries.IsChain fun a b => ¬ a.SameLine b) ∧
      ((run calls).optimize.entries.IsChain fun a b => ¬ a.Successive b) ∧
      (run calls).optimize.optimize = (run calls).optimize := by
  have hcounts : (run calls).IsCounted :=
    run_induction (fun _ he => absurd he List.not_mem_nil) (fun _ call h => h.after call) calls
  have hsame : (run calls).optimize.entries.IsChain fun a b => ¬ a.SameLine b := by
    refine Entry.isChain_joinAll_joinSuccessive? (fun _ _ _ hc ha hb => ha.joinSuccessive hc hb)
      hcounts.joinSameLine ?_
    simpa only [Entry.joinSameLine?_eq_none_iff] using
      Entry.isChain_joinAll Entry.readsStart_joinSameLine? (run calls).entries
  have hnext : (run calls).optimize.entries.IsChain fun a b => Entry.joinSuccessive? a b = none :=
    Entry.isChain_joinAll Entry.readsStart_joinSuccessive? _
  have hfirst : Entry.joinAll Entry.joinSameLine? (run calls).optimize.entries =
      (run calls).optimize.entries :=
    Entry.joinAll_of_isChain (by simpa only [Entry.joinSameLine?_eq_none_iff] using hsame)
  have hsecond : Entry.joinAll Entry.joinSuccessive? (run calls).optimize.entries =
      (run calls).optimize.entries := Entry.joinAll_of_isChain hnext
  refine ⟨hsame, by simpa only [Entry.joinSuccessive?_eq_none_iff] using hnext, ?_⟩
  rw [optimize, hfirst, hsecond]

end Builder

end LineMap

end ServerPages
