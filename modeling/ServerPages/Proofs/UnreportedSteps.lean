import ServerPages.Proofs.ValidationReports
import ServerPages.Proofs.ValidationSteps

/-!
# Steps that report nothing

Validation goes on after a problem, so what a check found wrong is only told by the problems it
leaves. If there is none in the end there was none at any time, and every step did what it does when
nothing is wrong: `Unreported P m` says that the value of `m` then satisfies `P`.

What is known of a value before a step stays an assumption about the values after it
(`Unreported.bind`), as nothing is known of it where a problem was reported.

## Main results

* `Unreported.bind`: what two steps do one after the other.
* `unreported_report`: a step that reports is none after which there is no problem.
* `Node.of_validate_noCap`: what a validated unit has that no problem was reported for.
-/

namespace ServerPages

namespace Validation

variable {σ α β : Type}

/-- A state, in the validation of a tag file or of a page, that drops no problem and has at least
some. -/
structure HasProblems (isTag : Bool) (ds : List Diagnostic) (s : State σ) : Prop where
  policy : s.problems.policy = .noCap
  tag : s.page.tag.isSome = isTag
  entries : ds <+: s.problems.entries

theorem isInvariant_hasProblems (env : Env σ) (isTag : Bool) (ds : List Diagnostic) :
    IsInvariant env (HasProblems isTag ds) := by
  refine IsIndifferent.isInvariant ⟨fun s d h => ⟨?_, h.tag, ?_⟩,
    fun _ _ htag h => ⟨h.policy, htag.trans h.tag, h.entries⟩,
    fun _ _ _ _ h => ⟨h.policy, h.tag, h.entries⟩, fun _ _ _ _ h => ⟨h.policy, h.tag, h.entries⟩⟩
  · rw [Collector.add_of_noCap h.policy]
    exact h.policy
  · rw [Collector.add_of_noCap h.policy]
    exact h.entries.trans (List.prefix_append _ _)

theorem isStable_hasProblems (env : Env σ) (isTag : Bool) (ds : List Diagnostic) :
    IsStable env (HasProblems isTag ds) :=
  (isInvariant_hasProblems env isTag ds).toIsStable

/-- Run where no problem is dropped, the step drops none, and its value satisfies `P` if there is no
problem afterwards. -/
structure Unreported (isTag : Bool) (P : α → Prop) (m : Validate σ α) : Prop where
  keeps : ∀ ds, Keeps (HasProblems isTag ds) m
  value : ∀ s, HasProblems isTag [] s → (m s).2.problems.entries = [] → P (m s).1

section Rules

variable {isTag : Bool} {P Q : α → Prop} {R : β → Prop}

theorem Unreported.pure {a : α} (h : P a) : Unreported isTag P (Pure.pure a : Validate σ α) :=
  ⟨fun _ => Keeps.pure a, fun _ _ _ => h⟩

theorem Unreported.bind {x : Validate σ α} {f : α → Validate σ β} (hx : Unreported isTag P x)
    (hf : ∀ a, Unreported isTag (fun b => P a → R b) (f a)) : Unreported isTag R (x >>= f) := by
  refine ⟨fun ds => (hx.keeps ds).bind fun a => (hf a).keeps ds, fun s hs hnone => ?_⟩
  have hmiddle : HasProblems isTag [] (x s).2 := hx.keeps [] s hs
  have hbefore : (x s).2.problems.entries <+: ((x >>= f) s).2.problems.entries :=
    ((hf _).keeps _ (x s).2 ⟨hmiddle.policy, hmiddle.tag, List.prefix_rfl⟩).entries
  rw [hnone] at hbefore
  exact (hf _).value (x s).2 hmiddle hnone (hx.value s hs (List.prefix_nil.mp hbefore))

theorem Unreported.mono {x : Validate σ α} (hx : Unreported isTag P x) (h : ∀ a, P a → Q a) :
    Unreported isTag Q x :=
  ⟨hx.keeps, fun s hs hnone => h _ (hx.value s hs hnone)⟩

/-- A step of which only the problems matter, before others. -/
theorem Unreported.skip {x : Validate σ α} {f : α → Validate σ β}
    (hx : ∀ ds, Keeps (HasProblems isTag ds) x) (hf : ∀ a, Unreported isTag R (f a)) :
    Unreported isTag R (x >>= f) :=
  Unreported.bind (P := fun _ => True) ⟨hx, fun _ _ _ => trivial⟩ fun a =>
    (hf a).mono fun _ hb _ => hb

theorem Unreported.ite {c : Prop} [Decidable c] {x y : Validate σ α} (hx : c → Unreported isTag P x)
    (hy : ¬c → Unreported isTag P y) : Unreported isTag P (if c then x else y) := by
  split
  · next h => exact hx h
  · next h => exact hy h

/-- The values of a step for the elements of a list. -/
theorem Unreported.mapM {f : α → Validate σ β} {Q : α → β → Prop}
    (hf : ∀ a, Unreported isTag (Q a) (f a)) (l : List α) :
    Unreported isTag (fun bs => (∀ a ∈ l, ∃ b, Q a b) ∧ ∀ b ∈ bs, ∃ a ∈ l, Q a b) (l.mapM f) := by
  induction l with
  | nil => exact .pure ⟨nofun, nofun⟩
  | cons a l ih =>
    rw [List.mapM_cons]
    refine (hf a).bind fun b => ih.bind fun bs => .pure ?_
    intro hbs hb
    refine ⟨List.forall_mem_cons.mpr ⟨⟨b, hb⟩, hbs.1⟩, List.forall_mem_cons.mpr
      ⟨⟨a, List.mem_cons_self, hb⟩, fun b' hb' => ?_⟩⟩
    obtain ⟨a', ha', hq⟩ := hbs.2 b' hb'
    exact ⟨a', List.mem_cons_of_mem a ha', hq⟩

end Rules

theorem unreported_report (isTag : Bool) (issue : Issue) (p : Position) (message : Bytes) :
    Unreported isTag (fun _ => False) (report issue p message : Validate σ Unit) := by
  refine ⟨fun ds s h => ?_, fun s hs hnone => ?_⟩
  · exact (isStable_hasProblems ⟨none, fun _ _ => none⟩ isTag ds).report s _ h
  · rw [show (report issue p message s).2.problems.entries = (s.problems.add _).entries from rfl,
      Collector.add_of_noCap hs.policy] at hnone
    exact absurd hnone (List.append_ne_nil_of_right_ne_nil _ (List.cons_ne_nil _ _))

section Reports

variable {isTag : Bool} {P : α → Prop}

/-- Nothing follows from what comes after a problem. -/
theorem Unreported.after_report {issue : Issue} {p : Position} {message : Bytes}
    {f : Unit → Validate σ α} (hf : ∀ ds, Keeps (HasProblems isTag ds) (f ())) :
    Unreported isTag P (report issue p message >>= f) :=
  (unreported_report isTag issue p message).bind fun _ => ⟨hf, fun _ _ _ h => h.elim⟩

/-- A problem that is reported under a condition, before other steps. -/
theorem Unreported.guard {c : Prop} [Decidable c] {issue : Issue} {p : Position} {message : Bytes}
    {f : Unit → Validate σ α} (hf : Unreported isTag (fun b => ¬c → P b) (f ())) :
    Unreported isTag P (if c then report issue p message >>= f else f ()) :=
  Unreported.ite (fun _ => .after_report hf.keeps) fun hc => hf.mono fun _ hb => hb hc

/-- Problems that are reported for the elements of a list, before other steps. -/
theorem Unreported.forM_report {l : List β} {issue : Issue} {p : Position} {message : β → Bytes}
    {f : PUnit → Validate σ α} (hf : Unreported isTag (fun b => l = [] → P b) (f ⟨⟩)) :
    Unreported isTag P ((l.forM fun b => report issue p (message b)) >>= f) := by
  cases l with
  | nil => exact hf.mono fun _ hb => hb rfl
  | cons b l =>
    have hnone : Unreported isTag (fun _ => False)
        ((b :: l).forM fun b => (report issue p (message b) : Validate σ Unit)) :=
      .after_report fun ds =>
        Keeps.forM (fun b => (unreported_report isTag issue p (message b)).keeps ds) l
    exact hnone.bind fun _ => ⟨hf.keeps, fun _ _ _ h => h.elim⟩

end Reports

end Validation

namespace Node

open Validation

/-- The tree of a unit that no problem was reported for, if none is dropped, is the one that the
visit of its root gives, with what the directives say. -/
theorem of_validate_noCap {σ : Type}
    (library : Option (Bytes → σ → Except Fault TagLibrary × σ)) (options : ValidationOptions)
    (memory : σ) {root : Node} (hoverflow : options.overflow = .noCap)
    (hvalid : (root.validate library options memory).failure = none) {P : Node → Prop}
    (hvisit : Unreported (root.head.unit.any (·.isTagFile)) (fun r => P r.1)
      (visit ⟨library, options.binder⟩ .root {} root)) :
    ∃ n page, P n ∧ (root.validate library options memory).tree = n.setPage page := by
  have hfinish : Unreported (root.head.unit.any (·.isTagFile)) P
      (visit ⟨library, options.binder⟩ .root {} root >>= fun r =>
        finish root.head >>= fun _ => Pure.pure r.1) :=
    hvisit.bind fun r => .skip
      (fun ds => keeps_finish (isStable_hasProblems ⟨library, options.binder⟩ _ ds) root.head)
      fun _ => .pure fun h => h
  unfold validate at hvalid ⊢
  cases hempty : Collector.empty? options.overflow options.maxErrors with
  | error f =>
    rw [hempty] at hvalid
    cases hvalid
  | ok problems =>
    rw [hempty] at hvalid
    have hpolicy := (Collector.empty?_eq_ok hempty).1.trans hoverflow
    have hnone := Collector.fault?_eq_none_iff.mp (Option.map_eq_none_iff.mp hvalid)
    have hstart : HasProblems (root.head.unit.any (·.isTagFile)) []
        (startOf problems root memory) := by
      refine ⟨hpolicy, ?_, List.nil_prefix⟩
      unfold startOf
      cases root.head.unit.any (·.isTagFile) <;> rfl
    exact ⟨_, _, hfinish.value (startOf problems root memory) hstart hnone, rfl⟩

end Node

end ServerPages
