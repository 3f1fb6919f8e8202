import ServerPages.Parsing.Parse
import ServerPages.Proofs.Steps

/-!
# Parsing as a dialog

A parser does nothing to its surroundings but ask: for the library of a uri, for the text of a file,
for the tag that a tag file implements. What it asks next depends on its source and on the answers
so far, never on what the host remembers. So a parse is a dialog, a tree of questions with an
outcome at each leaf, and running it in some surroundings is answering its questions there.

`Converses` says this of a parser that is given for all surroundings at once. Along with it goes
what its value owes to the answers: in a record of answers that holds every answer given, every
bound library was told, and so was the tag of every invocation.

## Main results

* `Dialog.run_bind`: one dialog after another is run one after the other.
* `Converses.bind`: two parsers that hold dialogs, one after the other.
* `converses_includeFile`: an included file is part of the dialog.
-/

namespace ServerPages

/-- Questions to the surroundings, each followed by what is asked after its answer. -/
inductive Dialog (α : Type) where
  /-- There is nothing left to ask. -/
  | ended (outcome : Except Failure α)
  /-- Asks for the library of a uri. -/
  | library (uri : Bytes) (next : Except Fault TagLibrary → Dialog α)
  /-- Asks for the text of a file, without which the dialog ends. -/
  | file (path : Bytes) (reason : Fault → Failure) (next : Bytes → Dialog α)
  /-- Asks for the tag that a tag file implements, without which the dialog ends. -/
  | tag (path : Bytes) (reason : Failure → Failure) (next : TagDescriptor → Dialog α)

/-- A question with its answer. -/
inductive Told where
  /-- The library of a uri. -/
  | library (uri : Bytes) (answer : Except Fault TagLibrary)
  /-- The text of a file. -/
  | file (path text : Bytes)
  /-- The tag that a tag file implements. -/
  | tag (path : Bytes) (descriptor : TagDescriptor)

/-- The answers that count as given. -/
abbrev Record := Told → Prop

/-- A library that was given maps a tag to the path. -/
def Record.Names (r : Record) (path : Bytes) : Prop :=
  ∃ uri l name, r (.library uri (.ok l)) ∧ l.tagFile? name = some path

/-- The questions that surroundings take, and how deep inclusions may nest in them. -/
structure Questions where
  /-- Libraries may be asked for. -/
  library : Bool
  /-- Files may be asked for. -/
  file : Bool
  /-- The tags of tag files may be asked for. -/
  tag : Bool
  /-- The number of files. -/
  fileCount : Nat

/-- The questions that a host takes. -/
def Host.questions {σ : Type} (host : Host σ) : Questions :=
  ⟨host.library.isSome, host.load.isSome, host.tagFile.isSome, host.fileCount⟩

namespace Dialog

variable {α β σ : Type}

/-- A dialog that goes on with the value of another one. -/
def bind (f : α → Dialog β) : Dialog α → Dialog β
  | ended (.ok a) => f a
  | ended (.error e) => ended (.error e)
  | library uri next => library uri fun a => (next a).bind f
  | file path reason next => file path reason fun a => (next a).bind f
  | tag path reason next => tag path reason fun a => (next a).bind f

/-- The outcome of a dialog in some surroundings, and what they remember afterwards. -/
def run (host : Host σ) : Dialog α → σ → Except Failure α × σ
  | ended o, m => (o, m)
  | library uri next, m =>
    match host.library with
    | some q => (next (q uri m).1).run host (q uri m).2
    | none => (.error .crash, m)
  | file path reason next, m =>
    match host.load with
    | some q =>
      match q path m with
      | (.ok text, m) => (next text).run host m
      | (.error f, m) => (.error (reason f), m)
    | none => (.error .crash, m)
  | tag path reason next, m =>
    match host.tagFile with
    | some q =>
      match q path m with
      | (.ok d, m) => (next d).run host m
      | (.error e, m) => (.error (reason e), m)
    | none => (.error .crash, m)

/-- Along the answers of the record, tags are asked for that libraries name, and the value at every
leaf satisfies `P`. -/
def Within (r : Record) (P : α → Prop) : Dialog α → Prop
  | ended (.ok a) => P a
  | ended (.error _) => True
  | library uri next => ∀ a, r (.library uri a) → (next a).Within r P
  | file path _ next => ∀ text, r (.file path text) → (next text).Within r P
  | tag path _ next => r.Names path ∧ ∀ d, r (.tag path d) → (next d).Within r P

/-- One dialog after another is run one after the other. -/
theorem run_bind (host : Host σ) (f : α → Dialog β) (d : Dialog α) (m : σ) :
    (d.bind f).run host m =
      match d.run host m with
      | (.ok a, m) => (f a).run host m
      | (.error e, m) => (.error e, m) := by
  induction d generalizing m with
  | ended o => cases o <;> rfl
  | library uri next ih =>
    rw [bind, run, run]
    cases host.library with
    | none => rfl
    | some q => exact ih _ _
  | file path reason next ih =>
    rw [bind, run, run]
    cases host.load with
    | none => rfl
    | some q =>
      dsimp only
      rcases q path m with ⟨f | text, m'⟩
      · rfl
      · exact ih _ _
  | tag path reason next ih =>
    rw [bind, run, run]
    cases host.tagFile with
    | none => rfl
    | some q =>
      dsimp only
      rcases q path m with ⟨e | d, m'⟩
      · rfl
      · exact ih _ _

theorem Within.bind {r : Record} {P : α → Prop} {Q : β → Prop} {d : Dialog α} {f : α → Dialog β}
    (hd : d.Within r P) (hf : ∀ a, P a → (f a).Within r Q) : (d.bind f).Within r Q := by
  induction d with
  | ended o =>
    cases o with
    | ok a => exact hf a hd
    | error e => trivial
  | library uri next ih => exact fun a ha => ih a (hd a ha)
  | file path reason next ih => exact fun a ha => ih a (hd a ha)
  | tag path reason next ih => exact ⟨hd.1, fun a ha => ih a (hd.2 a ha)⟩

end Dialog

/-- What holds of the surroundings as long as questions are answered (`A`), what holds when one is
not (`E`), and which answers count as given (`T`), once given for good. -/
structure Host.Meets {σ : Type} (host : Host σ) (A E : σ → Prop) (T : σ → Record) : Prop where
  ends : ∀ m, A m → E m
  library : ∀ q, host.library = some q → ∀ uri m, A m →
    A (q uri m).2 ∧ T (q uri m).2 (.library uri (q uri m).1) ∧ ∀ t, T m t → T (q uri m).2 t
  file : ∀ q, host.load = some q → ∀ path m, A m →
    (∀ text m', q path m = (.ok text, m') →
      A m' ∧ T m' (.file path text) ∧ ∀ t, T m t → T m' t) ∧
    ∀ f m', q path m = (.error f, m') → E m'
  tag : ∀ q, host.tagFile = some q → ∀ path m, A m → (T m).Names path →
    (∀ d m', q path m = (.ok d, m') → A m' ∧ T m' (.tag path d) ∧ ∀ t, T m t → T m' t) ∧
    ∀ e m', q path m = (.error e, m') → E m'

/-- **What the answers give, a dialog gives**: if it comes to a value, all its questions were
answered, and the value is as the answers say. -/
theorem Dialog.run_meets {α σ : Type} {host : Host σ} {A E : σ → Prop} {T : σ → Record}
    (h : host.Meets A E T) {P : Record → α → Prop} {d : Dialog α} {m : σ} (hm : A m)
    (hd : ∀ r : Record, (∀ t, T m t → r t) → d.Within r (P r)) :
    (∀ a m', d.run host m = (.ok a, m') → A m' ∧ P (T m') a) ∧
    ∀ e m', d.run host m = (.error e, m') → E m' := by
  -- A dialog that ends in a failure leaves the surroundings as the failure says.
  have hfails {e : Failure} {m₁ : σ} (hm₁ : E m₁) :
      (∀ a m', (.error e, m₁) = ((.ok a, m') : Except Failure α × σ) → A m' ∧ P (T m') a) ∧
      ∀ e' m', (.error e, m₁) = ((.error e', m') : Except Failure α × σ) → E m' :=
    ⟨fun _ _ hrun => (by cases hrun), fun _ _ hrun => (Prod.mk.inj hrun).2 ▸ hm₁⟩
  induction d generalizing m with
  | ended o =>
    cases o with
    | error e => exact hfails (h.ends m hm)
    | ok a =>
      refine ⟨fun a' m' hrun => ?_, fun _ _ hrun => by cases hrun⟩
      obtain ⟨ha, rfl⟩ := Prod.mk.inj hrun
      obtain rfl := Except.ok.inj ha
      exact ⟨hm, hd (T m) fun _ ht => ht⟩
  | library uri next ih =>
    rw [run]
    cases hq : host.library with
    | none => exact hfails (h.ends m hm)
    | some q =>
      obtain ⟨hA, hT, hmono⟩ := h.library q hq uri m hm
      exact ih _ hA fun r hr => hd r (fun t ht => hr t (hmono t ht)) _ (hr _ hT)
  | file path reason next ih =>
    rw [run]
    cases hq : host.load with
    | none => exact hfails (h.ends m hm)
    | some q =>
      obtain ⟨hgood, hbad⟩ := h.file q hq path m hm
      dsimp only
      rcases hanswer : q path m with ⟨f | text, m₁⟩
      · exact hfails (hbad f m₁ hanswer)
      · obtain ⟨hA, hT, hmono⟩ := hgood text m₁ hanswer
        exact ih _ hA fun r hr => hd r (fun t ht => hr t (hmono t ht)) _ (hr _ hT)
  | tag path reason next ih =>
    rw [run]
    cases hq : host.tagFile with
    | none => exact hfails (h.ends m hm)
    | some q =>
      obtain ⟨hgood, hbad⟩ := h.tag q hq path m hm (hd (T m) fun _ ht => ht).1
      dsimp only
      rcases hanswer : q path m with ⟨e | d, m₁⟩
      · exact hfails (hbad e m₁ hanswer)
      · obtain ⟨hA, hT, hmono⟩ := hgood d m₁ hanswer
        exact ih _ hA fun r hr => (hd r fun t ht => hr t (hmono t ht)).2 _ (hr _ hT)

namespace Node

mutual

/-- The invocations of tags in a tree, in the order of the source. -/
def tags : Node → List CustomTag
  | .mk h cs => h.tag.toList ++ tagsAll cs

/-- The invocations of tags in some trees, in the order of the source. -/
def tagsAll : List Node → List CustomTag
  | [] => []
  | n :: ns => tags n ++ tagsAll ns

end

theorem tagsAll_append (ns ms : List Node) : tagsAll (ns ++ ms) = tagsAll ns ++ tagsAll ms := by
  induction ns with
  | nil => rfl
  | cons n ns ih => rw [List.cons_append, tagsAll, ih, tagsAll, List.append_assoc]

theorem tags_extend (n : Node) (s : Bytes) : (n.extend s).tags = n.tags := by
  cases n
  rfl

/-- One more sibling adds its own tags. -/
theorem mem_tagsAll_push {siblings : List Node} {n : Node} {t : CustomTag}
    (h : t ∈ tagsAll (push siblings n)) : t ∈ tagsAll siblings ∨ t ∈ n.tags := by
  have happend : t ∈ tagsAll (siblings ++ [n]) → t ∈ tagsAll siblings ∨ t ∈ n.tags := by
    rw [tagsAll_append, List.mem_append, tagsAll, tagsAll, List.append_nil]
    exact id
  rcases List.eq_nil_or_concat siblings with rfl | ⟨front, last, rfl⟩
  · exact happend h
  · rw [List.concat_eq_append] at h happend ⊢
    rw [push, List.getLast?_concat] at h
    dsimp only at h
    split at h
    · rw [List.dropLast_concat, tagsAll_append, tagsAll, tagsAll, tags_extend] at h
      rw [tagsAll_append, tagsAll, tagsAll]
      exact Or.inl h
    · exact happend h

end Node

/-- The contract is that of a tag of the library, or of the tag file that implements the tag. -/
def Record.Gives (r : Record) (l : TagLibrary) (name : Bytes) (d : TagDescriptor) : Prop :=
  l.tag? name = some d ∨
    l.tag? name = none ∧ ∃ path, l.tagFile? name = some path ∧ r (.tag path d)

/-- The tag that is invoked was told of: its library was given, and its contract is the one that the
library gives; if a tag file implements the tag, that tag file was described. -/
def Record.Backs (r : Record) (t : CustomTag) : Prop :=
  ∃ l d, r (.library t.uri (.ok l)) ∧ t.descriptor = some d ∧ r.Gives l t.localName d

/-- All tags that are invoked were told of. -/
def Record.BacksAll (r : Record) (ns : List Node) : Prop := ∀ t ∈ Node.tagsAll ns, r.Backs t

theorem Record.backsAll_nil (r : Record) : r.BacksAll [] := fun _ ht => absurd ht List.not_mem_nil

theorem Record.BacksAll.push {r : Record} {siblings : List Node} (hs : r.BacksAll siblings)
    {n : Node} (hn : ∀ t ∈ n.tags, r.Backs t) : r.BacksAll (Node.push siblings n) :=
  fun t ht => (Node.mem_tagsAll_push ht).elim (hs t) (hn t)

theorem Record.BacksAll.pushLeaf {r : Record} {siblings : List Node} (hs : r.BacksAll siblings)
    {n : Node} (hn : n.tags = []) : r.BacksAll (Node.push siblings n) :=
  hs.push fun _ ht => absurd (hn ▸ ht) List.not_mem_nil

theorem Record.BacksAll.pushNode {r : Record} {siblings : List Node} (hs : r.BacksAll siblings)
    {h : Head} {cs : List Node} (hh : ∀ t ∈ h.tag, r.Backs t) (hcs : r.BacksAll cs) :
    r.BacksAll (Node.push siblings (.mk h cs)) := by
  refine hs.push fun t ht => ?_
  rw [Node.tags, List.mem_append, Option.mem_toList] at ht
  exact ht.elim (hh t) (hcs t)

theorem Record.BacksAll.pushTagless {r : Record} {siblings : List Node}
    (hs : r.BacksAll siblings) {h : Head} {cs : List Node} (hh : h.tag = none)
    (hcs : r.BacksAll cs) : r.BacksAll (Node.push siblings (.mk h cs)) := by
  refine hs.pushNode ?_ hcs
  rw [hh]
  exact fun t ht => absurd ht (Option.not_mem_none t)

namespace Parsing

variable {α β σ : Type}

/-! ### Parsers that hold a dialog -/

/-- The state with what a host remembers. -/
def State.withMemory (p : State Unit) (m : σ) : State σ where
  cursor := p.cursor
  files := p.files
  bindings := p.bindings
  elIgnored := p.elIgnored
  document := p.document
  passed := p.passed
  memory := m

/-- The state apart from what the host remembers. -/
def State.plain (s : State σ) : State Unit where
  cursor := s.cursor
  files := s.files
  bindings := s.bindings
  elIgnored := s.elIgnored
  document := s.document
  passed := s.passed
  memory := ()

section Fields

variable (p : State Unit) (m : σ)

@[simp] theorem State.withMemory_cursor : (p.withMemory m).cursor = p.cursor := rfl
@[simp] theorem State.withMemory_files : (p.withMemory m).files = p.files := rfl
@[simp] theorem State.withMemory_bindings : (p.withMemory m).bindings = p.bindings := rfl
@[simp] theorem State.withMemory_elIgnored : (p.withMemory m).elIgnored = p.elIgnored := rfl
@[simp] theorem State.withMemory_document : (p.withMemory m).document = p.document := rfl
@[simp] theorem State.withMemory_passed : (p.withMemory m).passed = p.passed := rfl
@[simp] theorem State.withMemory_memory : (p.withMemory m).memory = m := rfl
@[simp] theorem State.withMemory_uriOf : (p.withMemory m).uriOf = p.uriOf := rfl

end Fields

/-- The outcome of a run, the state of a failure being what the host remembers. -/
def view : EStateM.Result Failure (State σ) α → Except Failure (α × State Unit) × σ
  | .ok a s => (.ok (a, s.plain), s.memory)
  | .error e s => (.error e, s.memory)

/-- The libraries bound by directives were told. -/
def State.IsTold (r : Record) (p : State Unit) : Prop :=
  ∀ b ∈ p.bindings, r (.library b.2.uri (.ok b.2.library))

/-- A run in any surroundings. -/
abbrev Run (α : Type) := (σ : Type) → Host σ → σ → EStateM.Result Failure (State σ) α

/-- A parser for any surroundings. -/
abbrev Parser (α : Type) := (σ : Type) → Host σ → Parse σ α

/-- The run is one dialog in all surroundings that take the questions `k`. If the answers of a
record lead it to a value, the value and the last state are as `P` says. -/
def Speaks (k : Questions) (pre : Record → Prop) (x : Run α)
    (P : Record → α → State Unit → Prop) : Prop :=
  ∃ d : Dialog (α × State Unit),
    (∀ σ (host : Host σ) m, host.questions = k → view (x σ host m) = d.run host m) ∧
    ∀ r, pre r → d.Within r fun a => P r a.1 a.2

/-- The parser holds a dialog, from whatever state it is run. -/
def Converses (k : Questions) (pre : Record → Prop) (x : Parser α) (P : Record → α → Prop) : Prop :=
  ∀ p : State Unit,
    Speaks k (fun r => pre r ∧ p.IsTold r) (fun σ host m => x σ host (p.withMemory m))
      fun r a q => q.IsTold r ∧ P r a

variable {k : Questions} {pre : Record → Prop} {P : Record → α → Prop} {Q : Record → β → Prop}

theorem Speaks.mono {pre' : Record → Prop} {x : Run α} {P P' : Record → α → State Unit → Prop}
    (hx : Speaks k pre x P) (hpre : ∀ r, pre' r → pre r)
    (hP : ∀ r a q, pre' r → P r a q → P' r a q) : Speaks k pre' x P' := by
  obtain ⟨d, hd, hw⟩ := hx
  refine ⟨d, hd, fun r hr => ?_⟩
  have hmono : ∀ e : Dialog (α × State Unit), (e.Within r fun a => P r a.1 a.2) →
      e.Within r fun a => P' r a.1 a.2 := by
    intro e he
    induction e with
    | ended o =>
      cases o with
      | ok a => exact hP r a.1 a.2 hr he
      | error e => trivial
    | library uri next ih => exact fun a ha => ih a (he a ha)
    | file path reason next ih => exact fun a ha => ih a (he a ha)
    | tag path reason next ih => exact ⟨he.1, fun a ha => ih a (he.2 a ha)⟩
  exact hmono d (hw r (hpre r hr))

theorem Speaks.bind {p : State Unit} {x : Parser α} {f : (σ : Type) → Host σ → α → Parse σ β}
    {P : Record → α → State Unit → Prop} {Q : Record → β → State Unit → Prop}
    (hx : Speaks k pre (fun σ host m => x σ host (p.withMemory m)) P)
    (hf : ∀ a q, Speaks k (fun r => pre r ∧ P r a q)
      (fun σ host m => f σ host a (q.withMemory m)) Q) :
    Speaks k pre (fun σ host m => (x σ host >>= f σ host) (p.withMemory m)) Q := by
  obtain ⟨d, hd, hdw⟩ := hx
  have hf' := fun a q => Classical.choose_spec (hf a q)
  refine ⟨d.bind fun a => Classical.choose (hf a.1 a.2), fun σ host m hk => ?_, fun r hr => ?_⟩
  · rw [Dialog.run_bind, ← hd σ host m hk]
    simp only [Bind.bind, EStateM.bind]
    rcases x σ host (p.withMemory m) with ⟨a, s⟩ | ⟨err, s⟩
    · exact (hf' a s.plain).1 σ host s.memory hk
    · rfl
  · exact (hdw r hr).bind fun a ha => (hf' a.1 a.2).2 r ⟨hr, ha⟩

theorem Converses.mono {pre' : Record → Prop} {P' : Record → α → Prop} {x : Parser α}
    (hx : Converses k pre x P) (hpre : ∀ r, pre' r → pre r)
    (hP : ∀ r a, pre' r → P r a → P' r a) : Converses k pre' x P' :=
  fun p => (hx p).mono (fun r hr => ⟨hpre r hr.1, hr.2⟩)
    fun r a _ hr ha => ⟨ha.1, hP r a hr.1 ha.2⟩

/-- Two parsers that hold dialogs, one after the other. -/
theorem Converses.bind {x : Parser α} {f : (σ : Type) → Host σ → α → Parse σ β}
    (hx : Converses k pre x P)
    (hf : ∀ a, Converses k (fun r => pre r ∧ P r a) (fun σ host => f σ host a) Q) :
    Converses k pre (fun σ host => x σ host >>= f σ host) Q :=
  fun p => Speaks.bind (hx p) fun a q =>
    (hf a q).mono (fun _ hr => ⟨⟨hr.1.1, hr.2.2⟩, hr.2.1⟩) fun _ _ _ _ hb => hb

/-- The value of the first of two parsers does not matter. -/
theorem Converses.skip {x : Parser α} {f : (σ : Type) → Host σ → α → Parse σ β}
    (hx : Converses k pre x P) (hf : ∀ a, Converses k pre (fun σ host => f σ host a) Q) :
    Converses k pre (fun σ host => x σ host >>= f σ host) Q :=
  hx.bind fun a => (hf a).mono (fun _ hr => hr.1) fun _ _ _ hb => hb

theorem Converses.pure {a : α} (h : ∀ r, pre r → P r a) :
    Converses k pre (fun _ _ => Pure.pure a) P :=
  fun p => ⟨.ended (.ok (a, p)), fun _ _ _ _ => rfl, fun r hr => ⟨hr.2, h r hr.1⟩⟩

theorem Converses.throw (e : Failure) : Converses k pre (fun _ _ => throw e) P :=
  fun _ => ⟨.ended (.error e), fun _ _ _ _ => rfl, fun _ _ => trivial⟩

theorem converses_refuse (issue : Issue) (p : Position) (m : Bytes) :
    Converses k pre (fun _ _ => refuse issue p m) P := Converses.throw _

theorem Converses.ite {c : Prop} [Decidable c] {x y : Parser α} (hx : Converses k pre x P)
    (hy : Converses k pre y P) :
    Converses k pre (fun σ host => if c then x σ host else y σ host) P := by
  split
  · exact hx
  · exact hy

/-- A parser that is run only under a condition, before others. -/
theorem Converses.guard {c : Prop} [Decidable c] {x : Parser Unit}
    {f : (σ : Type) → Host σ → Unit → Parse σ β} (hx : Converses k pre x fun _ _ => True)
    (hf : ∀ a, Converses k pre (fun σ host => f σ host a) Q) :
    Converses k pre (fun σ host => if c then x σ host >>= f σ host else f σ host ()) Q :=
  Converses.ite (hx.skip hf) (hf ())

theorem Converses.cursor {f : (σ : Type) → Host σ → Cursor → Parse σ β}
    (hf : ∀ c, Converses k pre (fun σ host => f σ host c) Q) :
    Converses k pre (fun σ host => Parsing.cursor >>= f σ host) Q :=
  fun p => hf p.cursor p

/-- A parser that looks at the state: its run from every state is a dialog. -/
theorem Converses.get {f : (σ : Type) → Host σ → State σ → Parse σ β}
    (hf : ∀ p : State Unit, Speaks k (fun r => pre r ∧ p.IsTold r)
      (fun σ host m => f σ host (p.withMemory m) (p.withMemory m))
      fun r b q => q.IsTold r ∧ Q r b) :
    Converses k pre (fun σ host => MonadStateOf.get >>= f σ host) Q := hf

/-- A parser that goes on from a state. -/
theorem Converses.from {x : Parser α} (p : State Unit)
    (hx : Converses k (fun r => pre r ∧ p.IsTold r) x P) :
    Speaks k (fun r => pre r ∧ p.IsTold r) (fun σ host m => x σ host (p.withMemory m))
      fun r a q => q.IsTold r ∧ P r a :=
  (hx p).mono (fun _ hr => ⟨hr, hr.2⟩) fun _ _ _ _ ha => ha

/-- A change of the state that leaves what the host remembers alone, and the libraries. -/
theorem converses_modify {f : (σ : Type) → State σ → State σ} (g : State Unit → State Unit)
    (hf : ∀ σ p m, f σ (p.withMemory m) = (g p).withMemory m)
    (hg : ∀ p, (g p).bindings = p.bindings) :
    Converses k pre (fun σ _ => modify (f σ)) fun _ _ => True := by
  refine fun p => ⟨.ended (.ok ((), g p)), fun σ host m _ => ?_, fun r hr => ⟨?_, trivial⟩⟩
  · show view (.ok () (f σ (p.withMemory m))) = _
    rw [hf]
    rfl
  · rw [State.IsTold, hg]
    exact hr.2

theorem converses_moveTo (c : Cursor) :
    Converses k pre (fun _ _ => moveTo c) fun _ _ => True :=
  converses_modify (fun p => { p with cursor := c }) (fun _ _ _ => rfl) fun _ => rfl

theorem converses_position : Converses k pre (fun _ _ => position) fun _ _ => True :=
  Converses.cursor fun _ => Converses.pure fun _ _ => trivial

theorem converses_skipBlanks : Converses k pre (fun _ _ => skipBlanks) fun _ _ => True :=
  Converses.cursor fun _ => converses_moveTo _

theorem converses_accepts (lit : Bytes) :
    Converses k pre (fun _ _ => accepts lit) fun _ _ => True := by
  refine Converses.cursor fun c => ?_
  cases c.accept? lit with
  | none => exact Converses.pure fun _ _ => trivial
  | some d => exact (converses_moveTo d).skip fun _ => Converses.pure fun _ _ => trivial

theorem converses_acceptsEndTag (name : Bytes) :
    Converses k pre (fun _ _ => acceptsEndTag name) fun _ _ => True := by
  refine Converses.cursor fun c => ?_
  cases c.acceptEndTag? name with
  | none => exact Converses.pure fun _ _ => trivial
  | some d => exact (converses_moveTo d).skip fun _ => Converses.pure fun _ _ => trivial

theorem converses_readName : Converses k pre (fun _ _ => readName) fun _ _ => True :=
  Converses.cursor fun _ => (converses_moveTo _).skip fun _ => Converses.pure fun _ _ => trivial

/-! ### Questions -/

theorem bind_ask {ε : Type} (q : σ → Except ε α × σ) (f : Except ε α → Parse σ β) (p : State Unit)
    (m : σ) : (ask q >>= f) (p.withMemory m) = f (q m).1 (p.withMemory (q m).2) := rfl

/-- Asking for a library, if libraries may be asked for. -/
theorem converses_askLibrary (uri : Bytes)
    {f : (σ : Type) → Host σ → Except Fault TagLibrary → Parse σ β} {unasked : Parser β}
    (hf : ∀ a, Converses k (fun r => pre r ∧ r (.library uri a)) (fun σ host => f σ host a) Q)
    (hunasked : Converses k pre unasked Q) :
    Converses k pre (fun σ host =>
      match host.library with
      | none => unasked σ host
      | some q => ask (q uri) >>= f σ host) Q := by
  cases hk : k.library with
  | false =>
    intro p
    obtain ⟨d, hd, hw⟩ := hunasked p
    refine ⟨d, fun σ host m hq => ?_, hw⟩
    have hlib : host.library.isSome = false := by rw [← hk, ← hq]; rfl
    rw [Option.isSome_eq_false_iff, Option.isNone_iff_eq_none] at hlib
    simp only [hlib]
    exact hd σ host m hq
  | true =>
    intro p
    have hf' := fun a => Classical.choose_spec (hf a p)
    refine ⟨.library uri fun a => Classical.choose (hf a p), fun σ host m hq => ?_,
      fun r hr a ha => (hf' a).2 r ⟨⟨hr.1, ha⟩, hr.2⟩⟩
    have hlib : host.library.isSome = true := by rw [← hk, ← hq]; rfl
    obtain ⟨q, hlib⟩ := Option.isSome_iff_exists.mp hlib
    simp only [Dialog.run, hlib]
    exact (hf' (q uri m).1).1 σ host (q uri m).2 hq

/-- Asking for files, if they may be asked for. -/
theorem converses_askFile (path : Bytes) (reason : Fault → Failure)
    {f : (σ : Type) → Host σ → Except Fault Bytes → Parse σ β} {unasked : Parser β}
    (hf : ∀ a, Converses k (fun r => pre r ∧ r (.file path a)) (fun σ host => f σ host (.ok a)) Q)
    (hfail : ∀ e σ (host : Host σ), f σ host (.error e) = throw (reason e))
    (hunasked : Converses k pre unasked Q) :
    Converses k pre (fun σ host =>
      match host.load with
      | none => unasked σ host
      | some q => ask (q path) >>= f σ host) Q := by
  cases hk : k.file with
  | false =>
    intro p
    obtain ⟨d, hd, hw⟩ := hunasked p
    refine ⟨d, fun σ host m hq => ?_, hw⟩
    have hnone : host.load.isSome = false := by rw [← hk, ← hq]; rfl
    rw [Option.isSome_eq_false_iff, Option.isNone_iff_eq_none] at hnone
    simp only [hnone]
    exact hd σ host m hq
  | true =>
    intro p
    have hf' := fun a => Classical.choose_spec (hf a p)
    refine ⟨.file path reason fun a => Classical.choose (hf a p), fun σ host m hq => ?_,
      fun r hr a ha => (hf' a).2 r ⟨⟨hr.1, ha⟩, hr.2⟩⟩
    have hsome : host.load.isSome = true := by rw [← hk, ← hq]; rfl
    obtain ⟨q, hsome⟩ := Option.isSome_iff_exists.mp hsome
    simp only [Dialog.run, hsome]
    rw [bind_ask]
    rcases q path m with ⟨e | a, m'⟩
    · rw [hfail]
      rfl
    · exact (hf' a).1 σ host m' hq

/-- Asking for the tags of tag files, if they may be asked for. -/
theorem converses_askTag (path : Bytes) (reason : Failure → Failure)
    {f : (σ : Type) → Host σ → Except Failure TagDescriptor → Parse σ β} {unasked : Parser β}
    (hnames : ∀ r, pre r → r.Names path)
    (hf : ∀ a, Converses k (fun r => pre r ∧ r (.tag path a)) (fun σ host => f σ host (.ok a)) Q)
    (hfail : ∀ e σ (host : Host σ), f σ host (.error e) = throw (reason e))
    (hunasked : Converses k pre unasked Q) :
    Converses k pre (fun σ host =>
      match host.tagFile with
      | none => unasked σ host
      | some q => ask (q path) >>= f σ host) Q := by
  cases hk : k.tag with
  | false =>
    intro p
    obtain ⟨d, hd, hw⟩ := hunasked p
    refine ⟨d, fun σ host m hq => ?_, hw⟩
    have hnone : host.tagFile.isSome = false := by rw [← hk, ← hq]; rfl
    rw [Option.isSome_eq_false_iff, Option.isNone_iff_eq_none] at hnone
    simp only [hnone]
    exact hd σ host m hq
  | true =>
    intro p
    have hf' := fun a => Classical.choose_spec (hf a p)
    refine ⟨.tag path reason fun a => Classical.choose (hf a p), fun σ host m hq => ?_,
      fun r hr => ⟨hnames r hr.1, fun a ha => (hf' a).2 r ⟨⟨hr.1, ha⟩, hr.2⟩⟩⟩
    have hsome : host.tagFile.isSome = true := by rw [← hk, ← hq]; rfl
    obtain ⟨q, hsome⟩ := Option.isSome_iff_exists.mp hsome
    simp only [Dialog.run, hsome]
    rw [bind_ask]
    rcases q path m with ⟨e | a, m'⟩
    · rw [hfail]
      rfl
    · exact (hf' a).1 σ host m' hq

end Parsing

end ServerPages
