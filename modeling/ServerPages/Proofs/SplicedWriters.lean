import Mathlib.Data.List.Induction
import Mathlib.Logic.Function.Basic
import ServerPages.Proofs.AnnotatedLines

/-!
# Histories of writers

Any number of writers are called in any order: lines are written, blocks are opened and closed,
nodes are begun and ended, and the code of one writer is spliced into another one, which may be
spliced in turn. The lines of a node are counted in the writer in which it is begun and ended, and
moved whenever its code is spliced, so that at any time they are lines of the writer that holds the
code then.

A call can do one of four things (`Step`), and what is known of all writers and nodes after some
calls (`Counted`) is kept by each of them. A node is followed through the calls in two parts: from
its begin to its end it is open (`IsOpen`), and from then on its code stands in some writer
(`IsHeld`).

## Main results

* `Writers.keeps_run?`: what every call keeps, all calls keep.
* `Counted.step`, `Counted.run`: what calls keep of writers and of the nodes counted in them.
* `IsOpen.run`, `IsHeld.run`: a node between its begin and its end, and after its end.
* `exists_run_iff`: calls go through as long as no writer is closed more often than it is opened.
* `lines_of_calls`: the lines of writers, and those of nodes.
-/

namespace ServerPages.Generation

/-- A call of a writer, which goes by the number that comes first. -/
inductive WriterCall where
  /-- Writes an indented line. -/
  | println (w : Nat) (s : Bytes)
  /-- Writes a line that opens a block. -/
  | openBlock (w : Nat) (s : Bytes)
  /-- Writes a line that closes a block. -/
  | closeBlock (w : Nat) (s : Bytes)
  /-- Indents the lines that follow further. -/
  | indent (w : Nat)
  /-- Indents the lines that follow less far. -/
  | outdent (w : Nat)
  /-- Begins a node. -/
  | begin (w node : Nat)
  /-- Ends a node. -/
  | finish (w node : Nat)
  /-- Takes over the code and the nodes of another writer. -/
  | splice (w other : Nat)
  deriving DecidableEq

namespace WriterCall

/-- The call indents the lines of the writer further. -/
def raises (w : Nat) : WriterCall → Bool
  | openBlock v _ | indent v => v == w
  | _ => false

/-- The call indents the lines of the writer less far. -/
def lowers (w : Nat) : WriterCall → Bool
  | closeBlock v _ | outdent v => v == w
  | _ => false

/-- The call concerns no node. -/
def IsPlain : WriterCall → Prop
  | begin _ _ | finish _ _ | splice _ _ => False
  | _ => True

/-- The writer that holds the code of a node after one more call. -/
def passOn (n : Nat) (holder : Option Nat) : WriterCall → Option Nat
  | begin w m => if m = n then some w else holder
  | splice w o => if holder = some o then some w else holder
  | _ => holder

/-- The call may come after some others. A node is begun once, in a writer that was not spliced, and
ended once, where it was begun. A writer is spliced once, into another one, when all nodes that were
begun in it are ended. -/
def IsAllowed (done : List WriterCall) : WriterCall → Prop
  | begin w n => (∀ v, begin v n ∉ done) ∧ ∀ v, splice v w ∉ done
  | finish w n => begin w n ∈ done ∧ ∀ v, finish v n ∉ done
  | splice w o =>
    w ≠ o ∧ (∀ v, splice v o ∉ done) ∧ ∀ n, begin o n ∈ done → finish o n ∈ done
  | _ => True

/-- Every one of some calls may come after those before it. -/
def Orderly (done : List WriterCall) : List WriterCall → Prop
  | [] => True
  | c :: cs => c.IsAllowed done ∧ Orderly (done ++ [c]) cs

/-- The writer that holds the code of a node after some calls: the one in which it was begun, then
the one into which that one was spliced, and so on. -/
def holder (n : Nat) (calls : List WriterCall) : Option Nat := calls.foldl (passOn n) none

@[simp] theorem holder_snoc (n : Nat) (done : List WriterCall) (c : WriterCall) :
    holder n (done ++ [c]) = c.passOn n (holder n done) := by
  simp [holder]

theorem passOn_of_isPlain {c : WriterCall} (hc : c.IsPlain) (n : Nat) (h : Option Nat) :
    c.passOn n h = h := by
  cases c with
  | begin | finish | splice => exact hc.elim
  | _ => rfl

theorem orderly_append {done cs ds : List WriterCall} :
    Orderly done (cs ++ ds) ↔ Orderly done cs ∧ Orderly (done ++ cs) ds := by
  induction cs generalizing done with
  | nil => simp [Orderly]
  | cons c cs ih => simp [Orderly, ih, and_assoc]

/-- What is ended was begun. -/
theorem begin_mem_of_finish_mem {done : List WriterCall} (h : Orderly [] done) {w n : Nat}
    (hn : finish w n ∈ done) : begin w n ∈ done := by
  induction done using List.reverseRecOn with
  | nil => cases hn
  | append_singleton done c ih =>
    obtain ⟨hdone, hc, -⟩ := orderly_append.mp h
    refine List.mem_append_left _ ?_
    obtain hn | hn := List.mem_append.mp hn
    · exact ih hdone hn
    · obtain rfl := List.mem_singleton.mp hn
      exact hc.1

/-- A node that was not begun has no code. -/
theorem holder_eq_none {n : Nat} {done : List WriterCall} (h : ∀ w, begin w n ∉ done) :
    holder n done = none := by
  induction done using List.reverseRecOn with
  | nil => rfl
  | append_singleton done c ih =>
    have hdone : ∀ w, begin w n ∉ done := fun w hw => h w (List.mem_append_left _ hw)
    rw [holder_snoc, ih hdone]
    cases c with
    | begin w m => exact if_neg fun hm => h w (by simp [hm])
    | _ => rfl

end WriterCall

open WriterCall

/-- Writers by number, with the lines of all nodes. -/
structure Writers where
  /-- The writers; each is empty at first. -/
  writer : Nat → Writer := fun _ => {}
  /-- The lines of nodes. -/
  spans : Spans := []

namespace Writers

/-- The writers with one of them changed. -/
def put (ws : Writers) (w : Nat) (v : Writer) : Writers :=
  { ws with writer := Function.update ws.writer w v }

/-- The writers after a call. A block that is not open cannot be closed. -/
def after? (ws : Writers) : WriterCall → Option Writers
  | .println w s => some (ws.put w ((ws.writer w).println s))
  | .openBlock w s => some (ws.put w ((ws.writer w).openBlock s))
  | .closeBlock w s => ((ws.writer w).closeBlock? s).map (ws.put w)
  | .indent w => some (ws.put w (ws.writer w).indented)
  | .outdent w => (ws.writer w).outdented?.map (ws.put w)
  | .begin w n =>
    let (v, spans) := (ws.writer w).begin n ws.spans
    some { ws.put w v with spans := spans }
  | .finish w n => some { ws with spans := (ws.writer w).finish n ws.spans }
  | .splice w o =>
    let (v, spans) := (ws.writer w).splice (ws.writer o) ws.spans
    some { (ws.put w v).put o ((ws.put w v).writer o).released with spans := spans }

/-- The writers after some calls. -/
def run? (ws : Writers) : List WriterCall → Option Writers
  | [] => some ws
  | c :: cs => (ws.after? c).bind (·.run? cs)

theorem run?_append (ws : Writers) (cs ds : List WriterCall) :
    ws.run? (cs ++ ds) = (ws.run? cs).bind (·.run? ds) := by
  induction cs generalizing ws with
  | nil => rfl
  | cons c cs ih => cases h : ws.after? c <;> simp [run?, h, ih]

@[simp] theorem writer_put (ws : Writers) (w : Nat) (v : Writer) :
    (ws.put w v).writer = Function.update ws.writer w v := rfl

end Writers

/-! ### What a call does -/

theorem EndsLine.append {x y : Bytes} (hx : EndsLine x) (hy : EndsLine y) : EndsLine (x ++ y) := by
  obtain rfl | ⟨z, rfl⟩ := hy
  · rwa [List.append_nil]
  · exact .inr ⟨x ++ z, (List.append_assoc _ _ _).symm⟩

/-- The second writer is the first one with some whole lines written to it, and possibly indented in
another way. -/
structure Writer.Writes (w v : Writer) (s : Bytes) : Prop where
  text : v.text = w.text ++ s
  line : v.line = w.line + Bytes.countByte 10 s
  whole : EndsLine s
  marked : v.marked = w.marked

theorem Writer.writes_println (w : Writer) (s : Bytes) :
    w.Writes (w.println s) (codeLine w.indent s) := by
  have htabs : Bytes.countByte 10 (codeLine w.indent s) = 1 + Bytes.countByte 10 s := by
    unfold codeLine Bytes.countByte
    split <;> simp [List.countP_append, List.countP_replicate, Nat.add_comm]
  refine ⟨w.text_println s, ?_, .inr ⟨_, rfl⟩, rfl⟩
  rw [htabs, ← Nat.add_assoc]
  rfl

theorem Writer.writes_nil {w v : Writer} (htext : v.text = w.text) (hline : v.line = w.line)
    (hmarked : v.marked = w.marked) : w.Writes v [] :=
  ⟨htext.trans (List.append_nil _).symm, hline, .inl rfl, hmarked⟩

/-- What a call of a writer does. -/
inductive Writers.Step (ws : Writers) : WriterCall → Writers → Prop
  /-- Lines are written to a writer, or indented in another way. -/
  | writes {c : WriterCall} {w : Nat} {v : Writer} {s : Bytes} (hc : c.IsPlain)
      (h : (ws.writer w).Writes v s) : Step ws c (ws.put w v)
  /-- A node is begun on the next line of a writer. -/
  | begin (w n : Nat) : Step ws (.begin w n)
      { ws.put w { ws.writer w with marked := n :: (ws.writer w).marked } with
        spans := ws.spans.set n ⟨(ws.writer w).line, 0⟩ }
  /-- A node is ended on the last line of a writer. -/
  | finish (w n : Nat) : Step ws (.finish w n)
      { ws with spans := (ws.writer w).finish n ws.spans }
  /-- A writer takes over the code and the nodes of another one. -/
  | splice (w o : Nat) : Step ws (.splice w o)
      { (ws.put w ((ws.writer w).splice (ws.writer o) ws.spans).1).put o
          (((ws.put w ((ws.writer w).splice (ws.writer o) ws.spans).1).writer o).released) with
        spans := ((ws.writer w).splice (ws.writer o) ws.spans).2 }

theorem Writers.step_of_after? {ws ws' : Writers} {c : WriterCall} (h : ws.after? c = some ws') :
    ws.Step c ws' := by
  cases c with
  | println w s =>
    obtain rfl := Option.some.inj h
    exact .writes trivial ((ws.writer w).writes_println s)
  | openBlock w s =>
    obtain rfl := Option.some.inj h
    exact .writes trivial
      ⟨(ws.writer w).text_println s, ((ws.writer w).writes_println s).line, .inr ⟨_, rfl⟩, rfl⟩
  | closeBlock w s =>
    obtain ⟨v, hv, rfl⟩ := Option.map_eq_some_iff.mp h
    obtain ⟨u, hu, rfl⟩ := Option.map_eq_some_iff.mp hv
    unfold Writer.outdented? at hu
    split at hu
    · cases hu
    · obtain rfl := Option.some.inj hu
      have hprints := fun indent => Writer.writes_println { ws.writer w with indent := indent } s
      exact .writes trivial
        ⟨(hprints _).text, (hprints _).line, (hprints _).whole, (hprints _).marked⟩
  | indent w =>
    obtain rfl := Option.some.inj h
    exact .writes trivial (Writer.writes_nil rfl rfl rfl)
  | outdent w =>
    obtain ⟨v, hv, rfl⟩ := Option.map_eq_some_iff.mp h
    unfold Writer.outdented? at hv
    split at hv
    · cases hv
    · obtain rfl := Option.some.inj hv
      exact .writes trivial (Writer.writes_nil rfl rfl rfl)
  | begin w n =>
    obtain rfl := Option.some.inj h
    exact .begin w n
  | finish w n =>
    obtain rfl := Option.some.inj h
    exact .finish w n
  | splice w o =>
    obtain rfl := Option.some.inj h
    exact .splice w o

/-! ### What is known of all writers and nodes -/

/-- What is known of a writer after some calls. Its lines are counted, and so are the nodes whose
code it holds and that have lines, each once. -/
structure Writer.IsCounted (done : List WriterCall) (spans : Spans) (w : Nat) (v : Writer) :
    Prop where
  line : v.line = 1 + Bytes.countByte 10 v.text
  whole : EndsLine v.text
  once : ∀ n, v.marked.count n ≤ 1
  held : ∀ n ∈ v.marked, holder n done = some w
  counted : ∀ n, holder n done = some w → (spans.get n).first ≠ 0 → n ∈ v.marked

/-- What is known of all writers after some calls. -/
def Counted (done : List WriterCall) (ws : Writers) : Prop :=
  ∀ w, (ws.writer w).IsCounted done ws.spans w

theorem counted_nil : Counted [] {} := fun _ =>
  ⟨rfl, .inl rfl, fun _ => Nat.zero_le 1, fun _ hn => absurd hn List.not_mem_nil,
    fun _ hn => absurd hn (Option.some_ne_none _).symm⟩

section Step

variable {done : List WriterCall} {ws ws' : Writers} {c : WriterCall} {w n : Nat} {v : Writer}
  {spans : Spans}

/-- What is known of a writer is known of it after a call that does not concern it. -/
theorem Writer.IsCounted.of_eq (h : v.IsCounted done ws.spans w)
    (hholder : ∀ n, holder n (done ++ [c]) = some w ↔ holder n done = some w)
    (hspans : ∀ n, holder n done = some w → (spans.get n).first ≠ 0 →
      (ws.spans.get n).first ≠ 0) : v.IsCounted (done ++ [c]) spans w :=
  ⟨h.line, h.whole, h.once, fun n hn => (hholder n).mpr (h.held n hn), fun n hn hfirst =>
    h.counted n ((hholder n).mp hn) (hspans n ((hholder n).mp hn) hfirst)⟩

/-- Writing to a writer counts no node. -/
theorem Counted.writes (h : Counted done ws) (hc : c.IsPlain) {s : Bytes}
    (hv : (ws.writer w).Writes v s) : Counted (done ++ [c]) (ws.put w v) := by
  have hholder : ∀ u n, holder n (done ++ [c]) = some u ↔ holder n done = some u := by
    intro u n
    rw [holder_snoc, passOn_of_isPlain hc]
  refine (Function.forall_update_iff ws.writer
    fun u x => x.IsCounted (done ++ [c]) ws.spans u).mpr
    ⟨Writer.IsCounted.of_eq ?_ (hholder w) fun _ _ h => h,
      fun u _ => (h u).of_eq (hholder u) fun _ _ h => h⟩
  refine ⟨?_, ?_, ?_, ?_, ?_⟩
  · rw [hv.line, hv.text, countByte_append, (h w).line, Nat.add_assoc]
  · rw [hv.text]
    exact (h w).whole.append hv.whole
  all_goals rw [hv.marked]
  exacts [(h w).once, (h w).held, (h w).counted]

/-- A node that is begun was counted nowhere. -/
theorem Counted.begin (h : Counted done ws) (hc : (WriterCall.begin w n).IsAllowed done) :
    Counted (done ++ [.begin w n])
      { ws.put w { ws.writer w with marked := n :: (ws.writer w).marked } with
        spans := ws.spans.set n ⟨(ws.writer w).line, 0⟩ } := by
  have hnone : holder n done = none := holder_eq_none hc.1
  have hnew : ∀ u, n ∉ (ws.writer u).marked := by
    intro u hu
    rw [(h u).held n hu] at hnone
    cases hnone
  have hother : ∀ m, m ≠ n → holder m (done ++ [.begin w n]) = holder m done := by
    intro m hm
    rw [holder_snoc, passOn, if_neg (Ne.symm hm)]
  have hspan : ∀ m, m ≠ n →
      (ws.spans.set n ⟨(ws.writer w).line, 0⟩).get m = ws.spans.get m := by
    intro m hm
    rw [Spans.get_set, if_neg hm]
  have hheld : holder n (done ++ [.begin w n]) = some w := by
    rw [holder_snoc, passOn, if_pos rfl]
  refine (Function.forall_update_iff ws.writer fun u x => x.IsCounted (done ++ [.begin w n])
    (ws.spans.set n ⟨(ws.writer w).line, 0⟩) u).mpr ⟨?_, fun u hu => ?_⟩
  · refine ⟨(h w).line, (h w).whole, fun m => ?_, fun m hm => ?_, fun m hm hfirst => ?_⟩
    · by_cases hmn : m = n
      · subst hmn
        simp [List.count_eq_zero_of_not_mem (hnew w)]
      · rw [List.count_cons_of_ne (Ne.symm hmn)]
        exact (h w).once m
    · obtain rfl | hm := List.mem_cons.mp hm
      · exact hheld
      · rw [hother m fun e => hnew w (e ▸ hm)]
        exact (h w).held m hm
    · by_cases hmn : m = n
      · exact hmn ▸ List.mem_cons_self
      · rw [hother m hmn] at hm
        rw [hspan m hmn] at hfirst
        exact List.mem_cons_of_mem n ((h w).counted m hm hfirst)
  · have hne : ∀ m, holder m (done ++ [.begin w n]) = some u → m ≠ n := by
      rintro m hm rfl
      exact hu (Option.some.inj (hm.symm.trans hheld))
    refine ⟨(h u).line, (h u).whole, (h u).once, fun m hm => ?_, fun m hm hfirst => ?_⟩
    · rw [hother m fun e => hnew u (e ▸ hm)]
      exact (h u).held m hm
    · have hmn := hne m hm
      rw [hother m hmn] at hm
      rw [hspan m hmn] at hfirst
      exact (h u).counted m hm hfirst

/-- A node that is ended loses its lines at most. -/
theorem Counted.finish (h : Counted done ws) (w n : Nat) : Counted (done ++ [.finish w n])
    { ws with spans := (ws.writer w).finish n ws.spans } := by
  refine fun u => (h u).of_eq (fun m => by rw [holder_snoc]; rfl) fun m _ hfirst hzero =>
    hfirst ?_
  rw [Spans.get_finish]
  split
  · next hm =>
    split
    · rfl
    · rw [← hm, hzero]
  · exact hzero

/-- A splice moves the lines of the nodes whose code it takes over, and no others. -/
theorem Counted.get_splice (h : Counted done ws) (w o n : Nat) :
    ((ws.writer w).splice (ws.writer o) ws.spans).2.get n =
      if holder n done = some o then Layout.moved ((ws.writer w).line - 1) (ws.spans.get n)
      else ws.spans.get n := by
  rw [Writer.splice, Spans.get_foldr_shift]
  by_cases hn : n ∈ (ws.writer o).marked
  · have hone : (ws.writer o).marked.count n = 1 :=
      Nat.le_antisymm ((h o).once n) (List.one_le_count_iff.mpr hn)
    rw [if_pos ((h o).held n hn), hone, Function.iterate_one]
  · rw [List.count_eq_zero_of_not_mem hn, Function.iterate_zero, id]
    split
    · next ho =>
      -- A node that is held but not counted has no lines, and none to move.
      have hfirst : (ws.spans.get n).first = 0 := by
        by_contra hne
        exact hn ((h o).counted n ho hne)
      rw [Layout.moved_of_first_eq_zero hfirst]
    · rfl

theorem first_moved_eq_zero_iff {d : Nat} {s : LineSpan} :
    (Layout.moved d s).first = 0 ↔ s.first = 0 := by
  unfold Layout.moved
  split
  · rfl
  · next h =>
    have hfirst : s.first ≠ 0 := by simpa using h
    exact iff_of_false (by dsimp only; omega) hfirst

theorem Counted.first_splice (h : Counted done ws) (w o n : Nat) :
    (((ws.writer w).splice (ws.writer o) ws.spans).2.get n).first = 0 ↔
      (ws.spans.get n).first = 0 := by
  rw [h.get_splice]
  split
  · exact first_moved_eq_zero_iff
  · rfl

theorem holder_splice (done : List WriterCall) (w o n : Nat) : holder n (done ++ [.splice w o]) =
    if holder n done = some o then some w else holder n done := holder_snoc n done _

/-- The writer that takes over the code of another one counts the nodes of both. -/
theorem Counted.isCounted_splice (h : Counted done ws) {w o : Nat} (hne : w ≠ o) :
    ((ws.writer w).splice (ws.writer o) ws.spans).1.IsCounted (done ++ [.splice w o])
      ((ws.writer w).splice (ws.writer o) ws.spans).2 w := by
  have hapart : ∀ n ∈ (ws.writer o).marked, n ∉ (ws.writer w).marked := by
    intro n hn hn'
    have hsome := ((h w).held n hn').symm.trans ((h o).held n hn)
    exact hne (Option.some.inj hsome)
  refine ⟨?_, ?_, fun n => ?_, fun n hn => ?_, fun n hn hfirst => ?_⟩
  · rw [Writer.text_splice, countByte_append]
    show (ws.writer w).line + ((ws.writer o).line - 1) = _
    rw [(h w).line, (h o).line]
    omega
  · rw [Writer.text_splice]
    exact (h w).whole.append (h o).whole
  · show (List.filter _ (ws.writer o).marked ++ (ws.writer w).marked).count n ≤ 1
    have hle := (List.filter_sublist
      (p := fun n => (ws.spans.get n).first != 0) (l := (ws.writer o).marked)).count_le n
    have ho := (h o).once n
    have hw := (h w).once n
    rw [List.count_append]
    by_cases hn : n ∈ (ws.writer o).marked
    · have hzero := List.count_eq_zero_of_not_mem (hapart n hn)
      omega
    · have hzero := List.count_eq_zero_of_not_mem hn
      omega
  · rw [holder_splice]
    obtain hn | hn := List.mem_append.mp hn
    · rw [if_pos ((h o).held n (List.mem_of_mem_filter hn))]
    · rw [(h w).held n hn, ite_self]
  · rw [holder_splice] at hn
    have hold : (ws.spans.get n).first ≠ 0 := mt (h.first_splice w o n).mpr hfirst
    split at hn
    · next ho =>
      exact List.mem_append_left _
        (List.mem_filter.mpr ⟨(h o).counted n ho hold, by simpa using hold⟩)
    · exact List.mem_append_right _ ((h w).counted n hn hold)

/-- The writer that is spliced keeps its code and loses its nodes. -/
theorem Counted.isCounted_released (h : Counted done ws) {w o : Nat} (hne : w ≠ o)
    (spans : Spans) :
    (ws.writer o).released.IsCounted (done ++ [.splice w o]) spans o := by
  refine ⟨(h o).line, (h o).whole, fun n => Nat.zero_le 1,
    fun n hn => absurd hn List.not_mem_nil, fun n hn _ => ?_⟩
  rw [holder_splice] at hn
  split at hn
  · exact absurd (Option.some.inj hn) hne
  · next hno => exact absurd hn hno

/-- The nodes of a writer that is spliced are counted in the writer that takes them over. -/
theorem Counted.splice (h : Counted done ws) {w o : Nat} (hne : w ≠ o) :
    Counted (done ++ [.splice w o])
      { (ws.put w ((ws.writer w).splice (ws.writer o) ws.spans).1).put o
          (((ws.put w ((ws.writer w).splice (ws.writer o) ws.spans).1).writer o).released) with
        spans := ((ws.writer w).splice (ws.writer o) ws.spans).2 } := by
  intro u
  show Writer.IsCounted _ _ _ (Function.update (Function.update ws.writer w _) o _ u)
  by_cases huo : u = o
  · subst huo
    rw [Function.update_self, Writers.writer_put, Function.update_of_ne (Ne.symm hne)]
    exact h.isCounted_released hne _
  rw [Function.update_of_ne huo]
  by_cases huw : u = w
  · subst huw
    rw [Function.update_self]
    exact h.isCounted_splice hne
  rw [Function.update_of_ne huw]
  refine (h u).of_eq (fun n => ?_) fun n _ => mt (h.first_splice w o n).mpr
  rw [holder_splice]
  split
  · next ho =>
    rw [ho]
    exact iff_of_false (fun e => huw (Option.some.inj e).symm) fun e => huo (Option.some.inj e).symm
  · rfl

/-- Every call that is allowed keeps what is known. -/
theorem Counted.step (h : Counted done ws) (hc : c.IsAllowed done) (hstep : ws.Step c ws') :
    Counted (done ++ [c]) ws' := by
  cases hstep with
  | writes hplain hv => exact h.writes hplain hv
  | begin w n => exact h.begin hc
  | finish w n => exact h.finish w n
  | splice w o => exact h.splice hc.1

/-- What every call that is allowed keeps, calls keep that are allowed one after the other. -/
theorem Writers.keeps_run? {P : List WriterCall → Writers → Prop} {cs : List WriterCall}
    (hcs : Orderly done cs) (hrun : ws.run? cs = some ws') (h : P done ws)
    (hstep : ∀ {d x c x'}, c ∈ cs → c.IsAllowed d → x.Step c x' → P d x → P (d ++ [c]) x') :
    P (done ++ cs) ws' := by
  induction cs generalizing done ws with
  | nil =>
    obtain rfl := Option.some.inj hrun
    rwa [List.append_nil]
  | cons c cs ih =>
    obtain ⟨hc, hcs⟩ := hcs
    obtain ⟨ws₁, hfirst, hrest⟩ := Option.bind_eq_some_iff.mp hrun
    rw [List.append_cons]
    exact ih hcs hrest (hstep List.mem_cons_self hc (step_of_after? hfirst) h)
      fun hmem => hstep (List.mem_cons_of_mem c hmem)

theorem Counted.run (h : Counted done ws) {cs : List WriterCall} (hcs : Orderly done cs)
    (hrun : ws.run? cs = some ws') : Counted (done ++ cs) ws' :=
  Writers.keeps_run? hcs hrun h fun _ hc hstep h => h.step hc hstep

end Step

/-! ### Following a node -/

/-- A node is being written to a writer that had the text `above` when it was begun. -/
structure IsOpen (done : List WriterCall) (ws : Writers) (w n : Nat) (above : Bytes) : Prop where
  begun : .begin w n ∈ done
  unfinished : ∀ v, .finish v n ∉ done
  held : holder n done = some w
  spans : ws.spans.get n = ⟨1 + Bytes.countByte 10 above, 0⟩
  whole : EndsLine above
  text : ∃ code, (ws.writer w).text = above ++ code

/-- The code of a node that is ended stands in the writer that holds it, and its lines are noted. -/
structure IsHeld (done : List WriterCall) (ws : Writers) (n : Nat) (code : Bytes) : Prop where
  begun : ∃ w, .begin w n ∈ done
  finished : ∃ w, .finish w n ∈ done
  stands : ∃ w above below, holder n done = some w ∧
    (ws.writer w).text = above ++ (code ++ below) ∧ EndsLine above ∧
    ws.spans.get n =
      Layout.spanAt (1 + Bytes.countByte 10 above) (Bytes.countByte 10 code)

section Follow

variable {done cs : List WriterCall} {ws ws' : Writers} {c : WriterCall} {w n : Nat}
  {above code : Bytes}

/-- A node that is begun is open. -/
theorem IsOpen.of_begin (hdone : Orderly [] done) (hcounted : Counted done ws)
    (hc : (WriterCall.begin w n).IsAllowed done) : IsOpen (done ++ [.begin w n])
      { ws.put w { ws.writer w with marked := n :: (ws.writer w).marked } with
        spans := ws.spans.set n ⟨(ws.writer w).line, 0⟩ } w n (ws.writer w).text := by
  refine ⟨by simp, fun v hv => ?_, ?_, ?_, (hcounted w).whole, [], ?_⟩
  · have hfinish : .finish v n ∈ done := by simpa using hv
    exact hc.1 v (begin_mem_of_finish_mem hdone hfinish)
  · rw [holder_snoc, passOn, if_pos rfl]
  · rw [← (hcounted w).line]
    exact (Spans.get_set _ _ _ _).trans (if_pos rfl)
  · show (Function.update ws.writer w _ w).text = _
    rw [Function.update_self, List.append_nil]
    rfl

/-- No call takes anything away from a text. -/
theorem Writers.Step.text (hstep : ws.Step c ws') (hc : c.IsAllowed done) (u : Nat) :
    ∃ s, (ws'.writer u).text = (ws.writer u).text ++ s := by
  cases hstep with
  | @writes c w v s _ hv =>
    by_cases hu : u = w
    · subst hu
      exact ⟨s, by rw [writer_put, Function.update_self, hv.text]⟩
    · exact ⟨[], by rw [writer_put, Function.update_of_ne hu, List.append_nil]⟩
  | begin w n =>
    refine ⟨[], ?_⟩
    show (Function.update ws.writer w _ u).text = _
    by_cases hu : u = w
    · subst hu
      rw [Function.update_self, List.append_nil]
      rfl
    · rw [Function.update_of_ne hu, List.append_nil]
  | finish w n => exact ⟨[], (List.append_nil _).symm⟩
  | splice w o =>
    show ∃ s, (Function.update (Function.update ws.writer w _) o _ u).text = _
    by_cases huo : u = o
    · subst huo
      rw [Function.update_self, writer_put, Function.update_of_ne (Ne.symm hc.1)]
      exact ⟨[], (List.append_nil _).symm⟩
    rw [Function.update_of_ne huo]
    by_cases huw : u = w
    · subst huw
      rw [Function.update_self]
      exact ⟨_, Writer.text_splice _ _ _⟩
    · rw [Function.update_of_ne huw]
      exact ⟨[], (List.append_nil _).symm⟩

/-- What a call does to a node that it neither begins nor ends: it leaves the node alone, or moves
it with the code of the writer that holds it. -/
theorem Counted.follow (h : Counted done ws) (hc : c.IsAllowed done) (hbegin : ∀ v, c ≠ .begin v n)
    (hfinish : ∀ v, c ≠ .finish v n) (hstep : ws.Step c ws') :
    (holder n (done ++ [c]) = holder n done ∧ ws'.spans.get n = ws.spans.get n) ∨
    ∃ v o, c = .splice v o ∧ holder n done = some o ∧ holder n (done ++ [c]) = some v ∧
      ws'.spans.get n = Layout.moved ((ws.writer v).line - 1) (ws.spans.get n) ∧
      (ws'.writer v).text = (ws.writer v).text ++ (ws.writer o).text := by
  cases hstep with
  | writes hplain hv => exact .inl ⟨by rw [holder_snoc, passOn_of_isPlain hplain], rfl⟩
  | begin v m =>
    have hm : m ≠ n := fun e => hbegin v (e ▸ rfl)
    refine .inl ⟨?_, ?_⟩
    · rw [holder_snoc, passOn, if_neg hm]
    · exact (Spans.get_set _ _ _ _).trans (if_neg (Ne.symm hm))
  | finish v m =>
    have hm : m ≠ n := fun e => hfinish v (e ▸ rfl)
    exact .inl ⟨holder_snoc n done _, (Spans.get_finish _ _ _ _).trans (if_neg (Ne.symm hm))⟩
  | splice v o =>
    by_cases ho : holder n done = some o
    · refine .inr ⟨v, o, rfl, ho, ?_, (h.get_splice v o n).trans (if_pos ho), ?_⟩
      · rw [holder_splice, if_pos ho]
      · show (Function.update (Function.update ws.writer v _) o _ v).text = _
        rw [Function.update_of_ne hc.1, Function.update_self, Writer.text_splice]
    · refine .inl ⟨?_, (h.get_splice v o n).trans (if_neg ho)⟩
      rw [holder_splice, if_neg ho]

/-- A node that is open stays so, whatever happens to other nodes. -/
theorem IsOpen.step (h : IsOpen done ws w n above) (hcounted : Counted done ws)
    (hc : c.IsAllowed done) (hno : ∀ v, c ≠ .finish v n) (hstep : ws.Step c ws') :
    IsOpen (done ++ [c]) ws' w n above := by
  have hbegin : ∀ v, c ≠ .begin v n := by
    rintro v rfl
    exact hc.1 w h.begun
  have hfinish : ∀ v, .finish v n ∉ done ++ [c] := by
    intro v hv
    obtain hv | hv := List.mem_append.mp hv
    · exact h.unfinished v hv
    · exact hno v (List.mem_singleton.mp hv).symm
  obtain ⟨code, hcode⟩ := h.text
  obtain ⟨s, hs⟩ := hstep.text hc w
  obtain ⟨hheld, hspans⟩ | ⟨v, o, rfl, ho, -⟩ := hcounted.follow hc hbegin hno hstep
  · exact ⟨List.mem_append_left _ h.begun, hfinish, hheld.trans h.held, hspans.trans h.spans,
      h.whole, code ++ s, by rw [hs, hcode, List.append_assoc]⟩
  · -- The nodes of a writer that is spliced are ended.
    obtain rfl := Option.some.inj (h.held.symm.trans ho)
    exact absurd (hc.2.2 n h.begun) (h.unfinished w)

theorem IsOpen.run (h : IsOpen done ws w n above) (hcounted : Counted done ws)
    (hcs : Orderly done cs) (hno : ∀ v, .finish v n ∉ cs) (hrun : ws.run? cs = some ws') :
    IsOpen (done ++ cs) ws' w n above := by
  refine (Writers.keeps_run? (P := fun d x => Counted d x ∧ IsOpen d x w n above) hcs hrun
    ⟨hcounted, h⟩ fun hmem hc hstep h => ⟨h.1.step hc hstep, h.2.step h.1 hc ?_ hstep⟩).2
  rintro v rfl
  exact hno v hmem

/-- A node that is ended has the lines that were written since it was begun. -/
theorem IsOpen.finish (h : IsOpen done ws w n above) (hcounted : Counted done ws)
    (hcode : (ws.writer w).text = above ++ code) :
    IsHeld (done ++ [.finish w n]) { ws with spans := (ws.writer w).finish n ws.spans } n
      code := by
  refine ⟨⟨w, List.mem_append_left _ h.begun⟩, ⟨w, by simp⟩, w, above, [], ?_, ?_, h.whole, ?_⟩
  · rw [holder_snoc]
    exact h.held
  · rw [List.append_nil]
    exact hcode
  · refine Spans.get_finish_begun h.spans ?_
    rw [(hcounted w).line, hcode, countByte_append, Nat.add_assoc]

/-- A node that is ended stays so: its code is kept, and its lines are moved with it. -/
theorem IsHeld.step (h : IsHeld done ws n code) (hcounted : Counted done ws)
    (hc : c.IsAllowed done) (hstep : ws.Step c ws') : IsHeld (done ++ [c]) ws' n code := by
  obtain ⟨⟨b, hb⟩, ⟨e, he⟩, w, above, below, hheld, htext, hwhole, hspan⟩ := h
  have hbegin : ∀ v, c ≠ .begin v n := by
    rintro v rfl
    exact hc.1 b hb
  have hfinish : ∀ v, c ≠ .finish v n := by
    rintro v rfl
    exact hc.2 e he
  refine ⟨⟨b, List.mem_append_left _ hb⟩, ⟨e, List.mem_append_left _ he⟩, ?_⟩
  obtain ⟨hkept, hspans⟩ | ⟨v, o, rfl, ho, hnext, hspans, hjoined⟩ :=
    hcounted.follow hc hbegin hfinish hstep
  · obtain ⟨s, hs⟩ := hstep.text hc w
    refine ⟨w, above, below ++ s, hkept.trans hheld, ?_, hwhole, hspans.trans hspan⟩
    rw [hs, htext, List.append_assoc, List.append_assoc]
  · obtain rfl := Option.some.inj (hheld.symm.trans ho)
    refine ⟨v, (ws.writer v).text ++ above, below, hnext, ?_, (hcounted v).whole.append hwhole, ?_⟩
    · rw [hjoined, htext, List.append_assoc]
    · rw [hspans, hspan, Layout.moved_spanAt (Nat.le_add_right 1 _), countByte_append,
        (hcounted v).line]
      congr 1
      omega

theorem IsHeld.run (h : IsHeld done ws n code) (hcounted : Counted done ws)
    (hcs : Orderly done cs) (hrun : ws.run? cs = some ws') : IsHeld (done ++ cs) ws' n code :=
  (Writers.keeps_run? (P := fun d x => Counted d x ∧ IsHeld d x n code) hcs hrun ⟨hcounted, h⟩
    fun _ hc hstep h => ⟨h.1.step hc hstep, h.2.step h.1 hc hstep⟩).2

end Follow

/-! ### Blocks that are closed -/

theorem Writers.indent_put (ws : Writers) (w : Nat) (v : Writer) (u : Nat) :
    ((ws.put w v).writer u).indent = if w = u then v.indent else (ws.writer u).indent := by
  by_cases hu : w = u
  · subst hu
    simp
  · simp [hu, Ne.symm hu]

theorem Writer.indent_outdented? {w v : Writer} (h : w.outdented? = some v) :
    v.indent + 1 = w.indent := by
  unfold Writer.outdented? at h
  split at h
  · cases h
  · next hn =>
    obtain rfl := Option.some.inj h
    exact hn.symm

/-- How far lines are indented after a call. -/
theorem Writers.indent_after? {ws ws' : Writers} {c : WriterCall} (h : ws.after? c = some ws')
    (u : Nat) : (ws'.writer u).indent + [c].countP (lowers u) =
      (ws.writer u).indent + [c].countP (raises u) := by
  cases c with
  | println w s | openBlock w s | indent w =>
    obtain rfl := Option.some.inj h
    rw [indent_put]
    by_cases hu : w = u <;>
      simp [lowers, raises, hu, Writer.println, Writer.openBlock, Writer.indented]
  | closeBlock w s =>
    obtain ⟨v, hv, rfl⟩ := Option.map_eq_some_iff.mp h
    obtain ⟨x, hx, rfl⟩ := Option.map_eq_some_iff.mp hv
    have hindent := Writer.indent_outdented? hx
    rw [indent_put]
    by_cases hu : w = u
    · subst hu
      simpa [lowers, raises, Writer.println] using hindent
    · simp [lowers, raises, hu]
  | outdent w =>
    obtain ⟨v, hv, rfl⟩ := Option.map_eq_some_iff.mp h
    have hindent := Writer.indent_outdented? hv
    rw [indent_put]
    by_cases hu : w = u
    · subst hu
      simpa [lowers, raises] using hindent
    · simp [lowers, raises, hu]
  | begin w n =>
    obtain rfl := Option.some.inj h
    refine congrArg (· + 0) ((ws.indent_put w _ u).trans ?_)
    split
    · next hu => rw [← hu]
    · rfl
  | finish w n =>
    obtain rfl := Option.some.inj h
    rfl
  | splice w o =>
    obtain rfl := Option.some.inj h
    have hput : ((ws.put w ((ws.writer w).splice (ws.writer o) ws.spans).1).writer u).indent =
        (ws.writer u).indent := by
      rw [indent_put]
      split
      · next hu => exact congrArg (fun i => (ws.writer i).indent) hu
      · rfl
    refine congrArg (· + 0) ((indent_put _ o _ u).trans ?_)
    split
    · next hu => exact hu ▸ hput
    · exact hput

theorem Writers.exists_after?_iff {ws : Writers} {c : WriterCall} :
    (∃ ws', ws.after? c = some ws') ↔ ∀ u, c.lowers u = true → 0 < (ws.writer u).indent := by
  cases c with
  | closeBlock w s | outdent w =>
    have hlowers : ∀ u, (w == u) = true ↔ u = w := fun u => beq_iff_eq.trans eq_comm
    simp only [lowers, hlowers, forall_eq, after?, Writer.closeBlock?, Writer.outdented?]
    cases (ws.writer w).indent <;> simp
  | _ => exact iff_of_true ⟨_, rfl⟩ fun u hu => absurd hu Bool.false_ne_true

/-- How far lines are indented after some calls. -/
theorem Writers.indent_run? {ws : Writers} {cs : List WriterCall}
    (h : ({} : Writers).run? cs = some ws) (u : Nat) :
    (ws.writer u).indent + cs.countP (lowers u) = cs.countP (raises u) := by
  induction cs using List.reverseRecOn generalizing ws with
  | nil =>
    obtain rfl := Option.some.inj h
    rfl
  | append_singleton cs c ih =>
    rw [run?_append, Option.bind_eq_some_iff] at h
    obtain ⟨ws₁, hrun, h⟩ := h
    obtain ⟨ws₂, hc, hlast⟩ := Option.bind_eq_some_iff.mp h
    obtain rfl := Option.some.inj hlast
    have hbefore := ih hrun
    have hafter := indent_after? hc u
    simp only [List.countP_append]
    omega

/-- Calls go through exactly if at no time a writer was closed more often than it was opened. -/
theorem exists_run_iff {calls : List WriterCall} :
    (∃ ws, ({} : Writers).run? calls = some ws) ↔
      ∀ h, h <+: calls → ∀ w, h.countP (lowers w) ≤ h.countP (raises w) := by
  induction calls using List.reverseRecOn with
  | nil =>
    refine iff_of_true ⟨_, rfl⟩ fun h hh w => ?_
    rw [List.prefix_nil.mp hh]
    exact Nat.le_refl 0
  | append_singleton calls c ih =>
    constructor
    · rintro ⟨ws, hrun⟩ h hh w
      obtain rfl | hh := List.prefix_concat_iff.mp hh
      · have := Writers.indent_run? hrun w
        omega
      · rw [Writers.run?_append, Option.bind_eq_some_iff] at hrun
        obtain ⟨ws₁, hrun, -⟩ := hrun
        exact ih.mp ⟨ws₁, hrun⟩ h hh w
    · intro hbalanced
      obtain ⟨ws₁, hrun⟩ := ih.mpr fun h hh => hbalanced h (hh.trans (List.prefix_append _ _))
      obtain ⟨ws, hc⟩ : ∃ ws, ws₁.after? c = some ws := by
        refine Writers.exists_after?_iff.mpr fun u hu => ?_
        have hindent := Writers.indent_run? hrun u
        have hcount := hbalanced _ List.prefix_rfl u
        have hraises : c.raises u = false := by
          cases c with
          | closeBlock | outdent => rfl
          | _ => cases hu
        simp only [List.countP_append, List.countP_singleton, hu, hraises, if_true,
          Bool.false_eq_true, if_false] at hcount
        omega
      refine ⟨ws, ?_⟩
      rw [Writers.run?_append, hrun]
      show (ws₁.after? c).bind _ = _
      rw [hc]
      rfl

/-! ### Lines of writers and of nodes -/

theorem EndsLine.of_append {x y : Bytes} (h : EndsLine (x ++ y)) : EndsLine y := by
  rcases List.eq_nil_or_concat y with rfl | ⟨z, b, rfl⟩
  · exact .inl rfl
  obtain h | ⟨u, hu⟩ := h
  · simp at h
  · rw [List.concat_eq_append, ← List.append_assoc] at hu
    obtain ⟨-, hb⟩ := List.append_inj' hu rfl
    exact .inr ⟨z, by rw [List.concat_eq_append, hb]⟩

theorem EndsLine.countByte_ne_zero {x : Bytes} (h : EndsLine x) (hne : x ≠ []) :
    Bytes.countByte 10 x ≠ 0 := by
  obtain rfl | ⟨y, rfl⟩ := h
  · exact absurd rfl hne
  · simp [Bytes.countByte]

/-- A node that was begun and ended is held, with what was written in between. -/
theorem isHeld_of_calls {before between after : List WriterCall} {w n : Nat} {ws : Writers}
    (horderly : Orderly [] (before ++ .begin w n :: (between ++ .finish w n :: after)))
    (hrun : ({} : Writers).run? (before ++ .begin w n :: (between ++ .finish w n :: after)) =
      some ws) :
    ∃ ws₁ ws₂ code, ({} : Writers).run? before = some ws₁ ∧
      ({} : Writers).run? (before ++ .begin w n :: between) = some ws₂ ∧
      (ws₂.writer w).text = (ws₁.writer w).text ++ code ∧ EndsLine code ∧
      IsHeld (before ++ .begin w n :: (between ++ .finish w n :: after)) ws n code := by
  obtain ⟨hbefore, hbegin, horderly⟩ := orderly_append.mp horderly
  obtain ⟨hbetween, hfinish, hafter⟩ := orderly_append.mp horderly
  rw [List.nil_append] at hbegin hbetween hfinish hafter
  rw [Writers.run?_append, Option.bind_eq_some_iff] at hrun
  obtain ⟨ws₁, hrun₁, hrun⟩ := hrun
  obtain ⟨wsb, hb, hrun⟩ := Option.bind_eq_some_iff.mp hrun
  rw [Writers.run?_append, Option.bind_eq_some_iff] at hrun
  obtain ⟨ws₂, hrun₂, hrun⟩ := hrun
  obtain ⟨wse, he, hrun₃⟩ := Option.bind_eq_some_iff.mp hrun
  have hcounted₁ : Counted before ws₁ := counted_nil.run hbefore hrun₁
  have hcountedb := hcounted₁.step hbegin (Writers.step_of_after? hb)
  have hcounted₂ := hcountedb.run hbetween hrun₂
  have hcountede := hcounted₂.step hfinish (Writers.step_of_after? he)
  obtain rfl := Option.some.inj hb
  obtain rfl := Option.some.inj he
  have hopen := (IsOpen.of_begin hbefore hcounted₁ hbegin).run hcountedb hbetween
    (fun v hv => hfinish.2 v (List.mem_append_right _ hv)) hrun₂
  obtain ⟨code, hcode⟩ := hopen.text
  have hwhole : EndsLine code := (hcode ▸ (hcounted₂ w).whole : EndsLine (_ ++ code)).of_append
  refine ⟨ws₁, ws₂, code, hrun₁, ?_, hcode, hwhole, ?_⟩
  · rw [Writers.run?_append, hrun₁]
    exact hrun₂
  · have hkept := (hopen.finish hcounted₂ hcode).run hcountede hafter hrun₃
    simpa using hkept

/-- **The lines of writers are exact, however their code is spliced.** Any calls of any number of
writers go through if no block is closed that is not open. Then the next line of every writer is one
more than the line ends in its text. And if some of the calls begin and end a node in a writer, then
what was written there in between (`code`) stands, in the writer that holds the code of the node
now, on the lines noted for the node; these are none if nothing was written. -/
theorem lines_of_calls {calls : List WriterCall} (horderly : Orderly [] calls)
    (hbalanced : ∀ h, h <+: calls → ∀ w, h.countP (lowers w) ≤ h.countP (raises w)) :
    ∃ ws, ({} : Writers).run? calls = some ws ∧
      (∀ w, (ws.writer w).line = 1 + Bytes.countByte 10 (ws.writer w).text) ∧
      ∀ before w n between after,
        calls = before ++ .begin w n :: (between ++ .finish w n :: after) →
        ∃ ws₁ ws₂ code, ({} : Writers).run? before = some ws₁ ∧
          ({} : Writers).run? (before ++ .begin w n :: between) = some ws₂ ∧
          (ws₂.writer w).text = (ws₁.writer w).text ++ code ∧
          (code = [] → ws.spans.get n = {}) ∧
          (code ≠ [] → ∃ v, holder n calls = some v ∧
            IsLines (ws.writer v).text (ws.spans.get n) code) := by
  obtain ⟨ws, hrun⟩ := exists_run_iff.mpr hbalanced
  refine ⟨ws, hrun, fun w => (counted_nil.run horderly hrun w).line, ?_⟩
  rintro before w n between after rfl
  obtain ⟨ws₁, ws₂, code, hrun₁, hrun₂, hcode, hwhole, hkept⟩ := isHeld_of_calls horderly hrun
  obtain ⟨v, above, below, hheld, htext, habove, hspan⟩ := hkept.stands
  refine ⟨ws₁, ws₂, code, hrun₁, hrun₂, hcode, ?_, fun hne => ⟨v, hheld, ?_⟩⟩
  · rintro rfl
    rw [hspan]
    exact if_pos rfl
  · rw [htext, hspan]
    exact isLines_spanAt habove hwhole (hwhole.countByte_ne_zero hne) below

/-- Calls of three writers. The first one is spliced into the second one with two nodes, one of them
empty, and the second one into the third one. -/
def twiceSpliced : List WriterCall :=
  [.println 0 "a", .begin 0 5, .openBlock 0 "b", .println 0 "c\nd", .closeBlock 0 "e",
    .finish 0 5, .begin 0 6, .finish 0 6, .println 1 "f", .splice 1 0, .println 2 "g",
    .splice 2 1, .println 2 "h"]

theorem lines_of_calls_twiceSpliced :
    Orderly [] twiceSpliced ∧
    (∀ h, h <+: twiceSpliced → ∀ w, h.countP (lowers w) ≤ h.countP (raises w)) ∧
    ∃ ws, ({} : Writers).run? twiceSpliced = some ws ∧
      (∀ w, (ws.writer w).line = 1 + Bytes.countByte 10 (ws.writer w).text) ∧
      IsLines (ws.writer 2).text (ws.spans.get 5) "b\n\tc\nd\ne\n" ∧ ws.spans.get 6 = {} := by
  have horderly : Orderly [] twiceSpliced := by simp [twiceSpliced, Orderly, IsAllowed]
  have hbalanced := exists_run_iff.mp ⟨_, (rfl : ({} : Writers).run? twiceSpliced = some _)⟩
  obtain ⟨ws, hrun, hline, hnodes⟩ := lines_of_calls horderly hbalanced
  refine ⟨horderly, hbalanced, ws, hrun, hline, ?_, ?_⟩
  · obtain ⟨ws₁, ws₂, code, hrun₁, hrun₂, hcode, -, hstands⟩ :=
      hnodes (twiceSpliced.take 1) 0 5 ((twiceSpliced.drop 2).take 3) (twiceSpliced.drop 6) rfl
    obtain rfl := Option.some.inj hrun₁
    obtain rfl := Option.some.inj hrun₂
    obtain rfl : "b\n\tc\nd\ne\n" = code := List.append_cancel_left hcode
    obtain ⟨v, hheld, hlines⟩ := hstands (by decide)
    obtain rfl := Option.some.inj hheld
    exact hlines
  · obtain ⟨ws₁, ws₂, code, hrun₁, hrun₂, hcode, hempty, -⟩ :=
      hnodes (twiceSpliced.take 6) 0 6 [] (twiceSpliced.drop 8) rfl
    obtain rfl := Option.some.inj hrun₁
    obtain rfl := Option.some.inj hrun₂
    exact hempty (List.append_right_eq_self.mp hcode.symm)

end ServerPages.Generation
