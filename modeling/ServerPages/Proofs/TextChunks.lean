import ServerPages.LineMap.OfTree
import ServerPages.Proofs.BalancedVisits

/-!
# Lines and chunks of literal text

A text that is longer than a chunk may be is cut in a loop. A cut is looked for from the size of
chunks backwards, until a byte is found from which a character may start, and after the first
character if there is none. So each cut is a seam: the characters before and after it are those of
the text. `Cuts` is the loop, each cut of which passes a byte at least; `Cuts.isChunking` says of a
whole run of it what each cut keeps.

A text is first split into lines. Its line map follows the lines one by one if the text gave as many
generated lines as it has itself. A line gives a generated line for each of its chunks, so this is
so if no line was cut.

## Main results

* `isCutting_cutAt`: what one cut keeps.
* `Cuts.isChunking`, `cuts_chunks`: what the loop keeps, and that it ends.
* `length_textPieces_eq_iff`: when a text has as many chunks as lines.
* `text_run`: the lines that writing a text gives its node.
* `chunks_lossless`: all of this, for every text and every size of chunks.
-/

namespace ServerPages

/-! ### Lines -/

namespace Bytes

theorem splitLines_ne_nil {s : Bytes} (hs : s ≠ []) : splitLines s ≠ [] := by
  intro h
  have hflat := flatten_splitLines s
  rw [h] at hflat
  exact hs hflat.symm

/-- The first byte of a text is a line of its own or belongs to the first line of what follows. -/
theorem splitLines_cons (b : UInt8) {s : Bytes} (hs : s ≠ []) :
    ∃ p ps, splitLines s = p :: ps ∧
      splitLines (b :: s) = if b = 10 then [b] :: p :: ps else (b :: p) :: ps := by
  obtain ⟨p, ps, h⟩ := List.exists_cons_of_ne_nil (splitLines_ne_nil hs)
  refine ⟨p, ps, h, ?_⟩
  rw [splitLines, h]
  by_cases hb : b = 10 <;> simp [hb]

/-- A line is not empty, and it has no line feed but at its end. -/
structure IsLine (l : Bytes) : Prop where
  ne_nil : l ≠ []
  newline : 10 ∉ l.dropLast

theorem isLine_singleton (b : UInt8) : IsLine [b] := ⟨List.cons_ne_nil _ _, List.not_mem_nil⟩

theorem IsLine.cons {b : UInt8} (hb : b ≠ 10) {l : Bytes} (hl : IsLine l) : IsLine (b :: l) := by
  refine ⟨List.cons_ne_nil _ _, ?_⟩
  rw [List.dropLast_cons_of_ne_nil hl.ne_nil, List.mem_cons]
  rintro (rfl | hmem)
  · exact hb rfl
  · exact hl.newline hmem

theorem isLine_of_mem_splitLines {s l : Bytes} (hl : l ∈ splitLines s) : IsLine l := by
  induction s generalizing l with
  | nil => exact absurd hl List.not_mem_nil
  | cons b s ih =>
    rcases eq_or_ne s [] with rfl | hs
    · rw [splitLines, splitLines, ite_self, List.mem_singleton] at hl
      exact hl ▸ isLine_singleton b
    obtain ⟨p, ps, h, hcons⟩ := splitLines_cons b hs
    rw [hcons] at hl
    rw [h] at ih
    split at hl <;> rcases List.mem_cons.mp hl with rfl | hl
    · exact isLine_singleton b
    · exact ih hl
    · next hb => exact (ih List.mem_cons_self).cons hb
    · exact ih (List.mem_cons_of_mem p hl)

theorem dropEnd_concat_of_ne {c d : UInt8} (h : d ≠ c) (s : Bytes) :
    dropEnd (s ++ [d]) [c] = s ++ [d] := by
  refine if_neg ?_
  rw [List.isSuffixOf_iff_suffix]
  rintro ⟨t, ht⟩
  exact h (List.singleton_inj.mp (List.append_inj_right' ht rfl)).symm

theorem dropEnd_cons (b c : UInt8) {s : Bytes} (hs : s ≠ []) :
    dropEnd (b :: s) [c] = b :: dropEnd s [c] := by
  obtain ⟨s, d, rfl⟩ := (List.eq_nil_or_concat s).resolve_left hs
  rw [List.concat_eq_append, ← List.cons_append]
  by_cases hd : d = c
  · subst hd
    rw [dropEnd_append, dropEnd_append]
  · rw [dropEnd_concat_of_ne hd, dropEnd_concat_of_ne hd, List.cons_append]

end Bytes

theorem LineMap.inputLines_cons (b : UInt8) {s : Bytes} (hs : s ≠ []) :
    inputLines (b :: s) = inputLines s + if b = 10 then 1 else 0 := by
  have hdrop : Bytes.dropEnd (b :: s) "\n" = b :: Bytes.dropEnd s "\n" := Bytes.dropEnd_cons b 10 hs
  rw [inputLines, hdrop, inputLines, Bytes.countByte, List.countP_cons]
  by_cases hb : b = 10 <;> simp [hb, Bytes.countByte]

/-- A text is split into as many lines as it spans. -/
theorem Bytes.length_splitLines {s : Bytes} (hs : s ≠ []) :
    s.splitLines.length = LineMap.inputLines s := by
  induction s with
  | nil => exact absurd rfl hs
  | cons b s ih =>
    rcases eq_or_ne s [] with rfl | hs
    · by_cases hb : b = 10
      · subst hb
        decide
      · have hdrop : Bytes.dropEnd [b] "\n" = [b] := dropEnd_concat_of_ne hb []
        rw [LineMap.inputLines, hdrop]
        simp [splitLines, hb, Bytes.countByte]
    · obtain ⟨p, ps, h, hcons⟩ := splitLines_cons b hs
      rw [LineMap.inputLines_cons b hs, ← ih hs, hcons, h]
      split <;> simp

namespace Generation

/-! ### One cut -/

/-- A text is cut after some of its bytes: not in a character, and not after more than `size` bytes
unless they are one character. -/
structure IsCutting (size : Nat) (s : Bytes) (k : Nat) : Prop where
  pos : 0 < k
  le : k ≤ s.length
  seam : Utf8.IsSeam (s.take k) (s.drop k)
  bounded : k ≤ size ∨ (Utf8.chars (s.take k)).length = 1

/-- A cut is at a byte from which a character may start, or after the first character. -/
theorem cutAt_cases (s : Bytes) (size : Nat) :
    (0 < cutAt s size ∧ cutAt s size ≤ size ∧ ∀ b ∈ s[cutAt s size]?, Utf8.isStart b = true) ∨
      cutAt s size = ((Utf8.first? s).map (·.2)).getD 1 := by
  induction size with
  | zero => exact .inr rfl
  | succ size ih =>
    rw [cutAt]
    split
    · next h =>
      exact .inl ⟨Nat.succ_pos size, Nat.le_refl _, fun b hb => (Option.all_eq_true ..).mp h b hb⟩
    · exact ih.imp_left fun ⟨hpos, hle, hstart⟩ => ⟨hpos, Nat.le_succ_of_le hle, hstart⟩

theorem isCutting_cutAt {size : Nat} {s : Bytes} (hs : size < s.length) :
    IsCutting size s (cutAt s size) := by
  rcases cutAt_cases s size with ⟨hpos, hle, hstart⟩ | hfirst
  · refine ⟨hpos, Nat.le_trans hle (Nat.le_of_lt hs), .of_start fun b hb => ?_, .inl hle⟩
    rw [List.head?_drop] at hb
    exact hstart b hb
  · obtain ⟨b, s, rfl⟩ := List.exists_cons_of_length_pos (Nat.zero_lt_of_lt hs)
    rw [hfirst]
    refine ⟨Utf8.one_le_charAt b s, Utf8.charAt_le b s, Utf8.isSeam_charAt b s, .inr ?_⟩
    have hone := Utf8.pieces_take_charAt b s
    show (Utf8.chars ((b :: s).take (Utf8.charAt b s).2)).length = 1
    rw [← Utf8.map_fst_pieces, hone]
    rfl

/-! ### The loop -/

/-- Run to its end, the loop that cuts a text gives the chunks: a chunk is cut off as long as the
text is longer than `size`, and what is left in the end is the last one, if there is any. -/
inductive Cuts (size : Nat) : Bytes → List Bytes → Prop where
  | done : Cuts size [] []
  | rest {s : Bytes} : s ≠ [] → s.length ≤ size → Cuts size s [s]
  | cut {s : Bytes} {ps : List Bytes} : size < s.length →
      Cuts size (s.drop (cutAt s size)) ps → Cuts size s (s.take (cutAt s size) :: ps)

/-- The pieces make up the text, none of them is empty, they are no longer than `size` unless they
are one character, and the characters of the text are theirs. -/
structure IsChunking (size : Nat) (s : Bytes) (ps : List Bytes) : Prop where
  flatten : ps.flatten = s
  ne_nil : ∀ p ∈ ps, p ≠ []
  bounded : ∀ p ∈ ps, p.length ≤ size ∨ (Utf8.chars p).length = 1
  pieces : ps.flatMap Utf8.pieces = Utf8.pieces s

variable {size : Nat} {s : Bytes}

theorem IsChunking.single (hs : s ≠ []) (hle : s.length ≤ size) : IsChunking size s [s] where
  flatten := by simp
  ne_nil := by simpa using hs
  bounded := by simpa using .inl hle
  pieces := by simp

theorem IsChunking.cut {k : Nat} (hk : IsCutting size s k) {ps : List Bytes}
    (h : IsChunking size (s.drop k) ps) : IsChunking size s (s.take k :: ps) := by
  have hlen : (s.take k).length = k := List.length_take_of_le hk.le
  refine ⟨?_, List.forall_mem_cons.mpr ⟨?_, h.ne_nil⟩, List.forall_mem_cons.mpr ⟨?_, h.bounded⟩, ?_⟩
  · rw [List.flatten_cons, h.flatten, List.take_append_drop]
  · exact List.ne_nil_of_length_pos (hlen.symm ▸ hk.pos)
  · rw [hlen]
    exact hk.bounded
  · rw [List.flatMap_cons, h.pieces, ← hk.seam, List.take_append_drop]

theorem Cuts.isChunking {ps : List Bytes} (h : Cuts size s ps) : IsChunking size s ps := by
  induction h with
  | done => exact ⟨rfl, by simp, by simp, rfl⟩
  | rest hs hle => exact .single hs hle
  | cut hlt _ ih => exact ih.cut (isCutting_cutAt hlt)

/-- So many cuts are enough, each of them passing a byte. -/
theorem cuts_chunksWithin (hsize : 0 < size) {fuel : Nat} (hfuel : 0 < fuel)
    (hs : s.length ≤ fuel) : Cuts size s (chunksWithin size fuel s) := by
  induction fuel generalizing s with
  | zero => exact absurd hfuel (Nat.lt_irrefl 0)
  | succ fuel ih =>
    rw [chunksWithin]
    split
    · next hle =>
      split
      · next hnil =>
        obtain rfl := eq_of_beq hnil
        exact .done
      · next hne => exact .rest (by simpa using hne) hle
    · next hlong =>
      have hlt : size < s.length := Nat.lt_of_not_le hlong
      have hcut := isCutting_cutAt hlt
      refine .cut hlt (ih (by omega) ?_)
      have hpos := hcut.pos
      rw [List.length_drop]
      omega

theorem cuts_chunks (hsize : 0 < size) (hs : size < s.length) : Cuts size s (chunks size s) := by
  have hlong : ¬ (size == 0 || decide (s.length ≤ size)) = true := by
    rw [Bool.or_eq_true, beq_iff_eq, decide_eq_true_eq]
    omega
  rw [chunks, if_neg hlong]
  exact cuts_chunksWithin hsize (Nat.zero_lt_of_lt hs) (Nat.le_refl _)

theorem chunks_of_le (hs : s.length ≤ size) : chunks size s = [s] := by
  rw [chunks, if_pos (by simp [hs])]

theorem isChunking_chunks (hsize : 0 < size) (hs : s ≠ []) :
    IsChunking size s (chunks size s) := by
  rcases Nat.lt_or_ge size s.length with hlt | hle
  · exact (cuts_chunks hsize hlt).isChunking
  · rw [chunks_of_le hle]
    exact .single hs hle

/-- A well-formed text is cut into well-formed ones. -/
theorem IsChunking.isValid {ps : List Bytes} (h : IsChunking size s ps)
    (hs : Utf8.isValid s = true) {p : Bytes} (hp : p ∈ ps) : Utf8.isValid p = true := by
  rw [Utf8.isValid, ← h.pieces, List.all_flatMap, List.all_eq_true] at hs
  exact hs p hp

/-! ### Chunks and lines -/

theorem chunks_ne_nil (hsize : 0 < size) (hs : s ≠ []) : chunks size s ≠ [] := by
  intro hnil
  have hflat := (isChunking_chunks hsize hs).flatten
  rw [hnil] at hflat
  exact hs hflat.symm

theorem length_le_length_flatMap {α β : Type} {f : α → List β} {xs : List α}
    (h : ∀ x ∈ xs, f x ≠ []) : xs.length ≤ (xs.flatMap f).length := by
  induction xs with
  | nil => exact Nat.le_refl 0
  | cons x xs ih =>
    obtain ⟨hx, hxs⟩ := List.forall_mem_cons.mp h
    have hpos := List.length_pos_iff.mpr hx
    have hrest := ih hxs
    rw [List.flatMap_cons, List.length_append, List.length_cons]
    omega

/-- Where every list has an element, there are as many elements as lists if each has just one. -/
theorem length_flatMap_eq_length_iff {α β : Type} {f : α → List β} {xs : List α}
    (h : ∀ x ∈ xs, f x ≠ []) :
    (xs.flatMap f).length = xs.length ↔ ∀ x ∈ xs, (f x).length = 1 := by
  induction xs with
  | nil => simp
  | cons x xs ih =>
    obtain ⟨hx, hxs⟩ := List.forall_mem_cons.mp h
    have hpos := List.length_pos_iff.mpr hx
    have hrest := length_le_length_flatMap hxs
    have hiff : (xs.flatMap f).length = xs.length ↔ ∀ y ∈ xs, (f y).length = 1 := ih hxs
    rw [List.forall_mem_cons, ← hiff, List.flatMap_cons, List.length_append, List.length_cons]
    omega

/-- A text has as many chunks as it spans lines if none of its lines is cut. -/
theorem length_textPieces_eq_iff (hsize : 0 < size) (hs : s ≠ []) :
    (textPieces size s).length = LineMap.inputLines s ↔
      ∀ l ∈ s.splitLines, (chunks size l).length = 1 := by
  rw [← Bytes.length_splitLines hs]
  exact length_flatMap_eq_length_iff fun l hl =>
    chunks_ne_nil hsize (Bytes.isLine_of_mem_splitLines hl).ne_nil

/-! ### The generated lines of a text -/

theorem newline_not_mem_writeStatement {a : Bytes} (ha : 10 ∉ a) : 10 ∉ writeStatement a := by
  rw [writeStatement, List.mem_append, List.mem_append]
  rintro ((h | h) | h)
  · exact absurd h (by decide)
  · exact ha h
  · exact absurd h (by decide)

/-- Each piece of text gives one line. -/
theorem line_pieces (env : Env) {pieces : List Bytes} {st t : State} {a : PUnit}
    (hrun : pieces.forM (writeString env) st = .ok a t) :
    t.place.out.line = st.place.out.line + pieces.length := by
  induction pieces generalizing st with
  | nil =>
    cases hrun
    rfl
  | cons piece pieces ih =>
    obtain ⟨b, u, hpiece, hrest⟩ := bind_eq_ok (x := writeString env piece) hrun
    obtain ⟨code, ts, hwrite, -, hcode⟩ := writeString_eq env piece st
    obtain ⟨-, rfl⟩ := EStateM.Result.ok.inj (hwrite.symm.trans hpiece)
    have hcount : Bytes.countByte 10 (writeStatement code) = 0 := by
      rw [Bytes.countByte, List.countP_eq_zero]
      intro c hc hten
      exact newline_not_mem_writeStatement hcode.newline_not_mem (eq_of_beq hten ▸ hc)
    rw [ih hrest, List.length_cons]
    show st.place.out.line + 1 + Bytes.countByte 10 (writeStatement code) + pieces.length = _
    omega

/-- Text that is written gives its node a line for each chunk. -/
theorem text_run {env : Env} (hwrites : env.Writes s) (node : Nat) (st : State) :
    ∃ t, text env node s st = .ok () t ∧ t.spans.get node =
      Layout.spanAt st.place.out.line (textPieces env.chunkSize s).length := by
  obtain ⟨_, out, ts, hrun, -⟩ :=
    forM_writeString env (textPieces env.chunkSize s) (st.begun node)
  have hline := line_pieces env hrun
  have htext : text env node s =
      marking node ((textPieces env.chunkSize s).forM (writeString env)) := if_neg hwrites
  rw [htext]
  refine ⟨_, bind_ok (x := List.forM _ _) hrun, ?_⟩
  refine Spans.get_finish_begun ?_ hline
  exact (Spans.get_set ..).trans (if_pos rfl)

/-- The line map follows the lines of a text one by one if none of them is cut. -/
theorem addText_eq_ite (hsize : 0 < size) (hs : s ≠ []) {h : Head} (htext : h.text = s) {i : Nat}
    (hlines : h.lines = Layout.spanAt i (textPieces size s).length) (b : LineMap.Builder) :
    LineMap.addText b h = if ∀ l ∈ s.splitLines, (chunks size l).length = 1 then
      b.addLines h.start (LineMap.inputLines s) h.lines.first
    else b.addFact h.start h.lines.first (textPieces size s).length := by
  have hne : (textPieces size s).length ≠ 0 := fun hzero => by
    have hflat := flatten_textPieces size s
    rw [List.length_eq_zero_iff.mp hzero] at hflat
    exact hs hflat.symm
  have houtput : h.lines.last + 1 - h.lines.first = (textPieces size s).length := by
    rw [hlines, Layout.spanAt, if_neg hne]
    show i + (textPieces size s).length - 1 + 1 - i = _
    omega
  rw [LineMap.addText, houtput, htext]
  by_cases hall : ∀ l ∈ s.splitLines, (chunks size l).length = 1
  · rw [if_pos hall, (length_textPieces_eq_iff hsize hs).mpr hall, beq_self_eq_true, if_pos rfl]
  · have hdiffer : ¬ (LineMap.inputLines s == (textPieces size s).length) = true := by
      rw [beq_iff_eq, eq_comm, length_textPieces_eq_iff hsize hs]
      exact hall
    rw [if_neg hall, if_neg hdiffer]

/-- **Cutting a text loses nothing and splits no character**, and the line map tells by the number
of chunks whether a line was cut. -/
theorem chunks_lossless {size : Nat} (hsize : 0 < size) (s : Bytes) :
    (s.length ≤ size ∧ chunks size s = [s] ∨ size < s.length ∧ Cuts size s (chunks size s)) ∧
    (chunks size s).flatten = s ∧
    (s ≠ [] → ∀ p ∈ chunks size s, p ≠ []) ∧
    (∀ p ∈ chunks size s, p.length ≤ size ∨ (Utf8.chars p).length = 1) ∧
    (Utf8.isValid s = true → ∀ p ∈ chunks size s, Utf8.isValid p = true) ∧
    (s ≠ [] → s.splitLines.length = LineMap.inputLines s ∧ s.splitLines.flatten = s ∧
      (∀ l ∈ s.splitLines, 10 ∉ l.dropLast) ∧
      ((textPieces size s).length = LineMap.inputLines s ↔
        ∀ l ∈ s.splitLines, (chunks size l).length = 1)) ∧
    ∀ env : Env, env.chunkSize = size → env.Writes s → ∀ (node : Nat) (st : State), ∃ t,
      text env node s st = .ok () t ∧
      ∀ (b : LineMap.Builder) (h : Head), h.text = s → h.lines = t.spans.get node →
        LineMap.addText b h = if ∀ l ∈ s.splitLines, (chunks size l).length = 1 then
          b.addLines h.start (LineMap.inputLines s) h.lines.first
        else b.addFact h.start h.lines.first (textPieces size s).length := by
  have hloop : s.length ≤ size ∧ chunks size s = [s] ∨
      size < s.length ∧ Cuts size s (chunks size s) :=
    (Nat.lt_or_ge size s.length).symm.imp (fun hle => ⟨hle, chunks_of_le hle⟩)
      fun hlt => ⟨hlt, cuts_chunks hsize hlt⟩
  have hbounded : ∀ p ∈ chunks size s, p.length ≤ size ∨ (Utf8.chars p).length = 1 := by
    rcases hloop with ⟨hle, hone⟩ | ⟨-, hcuts⟩
    · rw [hone]
      simpa using .inl hle
    · exact hcuts.isChunking.bounded
  have hvalid : Utf8.isValid s = true → ∀ p ∈ chunks size s, Utf8.isValid p = true := by
    intro hs p hp
    rcases hloop with ⟨-, hone⟩ | ⟨-, hcuts⟩
    · rw [hone, List.mem_singleton] at hp
      exact hp ▸ hs
    · exact hcuts.isChunking.isValid hs hp
  refine ⟨hloop, flatten_chunks size s, fun hs => (isChunking_chunks hsize hs).ne_nil, hbounded,
    hvalid, fun hs => ⟨Bytes.length_splitLines hs, Bytes.flatten_splitLines s, fun l hl => ?_,
      length_textPieces_eq_iff hsize hs⟩, ?_⟩
  · exact (Bytes.isLine_of_mem_splitLines hl).newline
  rintro env rfl hwrites node st
  obtain ⟨t, hrun, hlines⟩ := text_run hwrites node st
  have hs : s ≠ [] := by
    rintro rfl
    exact hwrites rfl
  exact ⟨t, hrun, fun b h htext hh => addText_eq_ite hsize hs htext (hh.trans hlines) b⟩

/-- With chunks of two bytes the first of two lines is cut around a character that is longer. -/
theorem chunks_lossless_checkMark :
    let s : Bytes := "a✓b\nc"
    let env : Env := ⟨{ textChunkSize := 2 }, "/a.jsp", {}⟩
    (0 < 2 ∧ s ≠ [] ∧ Utf8.isValid s = true ∧ env.chunkSize = 2 ∧ env.Writes s) ∧
    chunks 2 s = ["a", "✓", "b\n", "c"] ∧ Cuts 2 s (chunks 2 s) ∧ (chunks 2 s).flatten = s ∧
    (∀ p ∈ chunks 2 s, p ≠ []) ∧
    (∀ p ∈ chunks 2 s, p.length ≤ 2 ∨ (Utf8.chars p).length = 1) ∧
    (∀ p ∈ chunks 2 s, Utf8.isValid p = true) ∧
    s.splitLines.length = LineMap.inputLines s ∧ (textPieces 2 s).length ≠ LineMap.inputLines s ∧
    ∀ (node : Nat) (st : State), ∃ t, text env node s st = .ok () t ∧
      ∀ (b : LineMap.Builder) (h : Head), h.text = s → h.lines = t.spans.get node →
        LineMap.addText b h = b.addFact h.start h.lines.first 4 := by
  intro s env
  have hs : s ≠ [] := by decide
  have hvalid : Utf8.isValid s = true := by decide
  have hwrites : env.Writes s := by
    rw [Env.Writes]
    decide
  have hcut : ¬ ∀ l ∈ s.splitLines, (chunks 2 l).length = 1 := by decide
  obtain ⟨hloop, hflat, hne, hbounded, hall, hlines, hmap⟩ := chunks_lossless Nat.zero_lt_two s
  obtain ⟨hcount, -, -, hiff⟩ := hlines hs
  refine ⟨⟨Nat.zero_lt_two, hs, hvalid, rfl, hwrites⟩, by decide,
    (hloop.resolve_left fun h => absurd h.1 (by decide)).2, hflat, hne hs, hbounded, hall hvalid,
    hcount, fun h => hcut (hiff.mp h), fun node st => ?_⟩
  obtain ⟨t, hrun, hadd⟩ := hmap env rfl hwrites node st
  refine ⟨t, hrun, fun b h htext hh => ?_⟩
  rw [hadd b h htext hh, if_neg hcut]
  rfl

end Generation

end ServerPages
