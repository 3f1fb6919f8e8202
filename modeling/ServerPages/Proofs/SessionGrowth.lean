import ServerPages.Proofs.CompilerCrash
import ServerPages.Proofs.Invocations
import ServerPages.Proofs.ParseDialog

/-!
# How a session grows

A request compiles tag files on its way. Whether it succeeds or fails, it leaves the units being
compiled and their encodings as they were, and what it adds to the session are tag files that were
neither compiled before nor being compiled, each of them once. If it succeeds, it also knows every
tag file that the added ones invoke, but for those that are being compiled around it.

## Main results

* `Compiler.compileUnit_grows`: so it is for the pipeline of a unit, if it is for the questions that
  the unit asks.
* `Compiler.describeWithin_grows`: and so it is for them.
-/

namespace ServerPages

/-! ### Steps and the states they leave -/

section Leaves

variable {α β σ : Type} {E : σ → Prop} {s : σ} {Q : α → σ → Prop}

/-- Run from `s`, the step fails in a state as `E` says, or succeeds with a value and a state as `Q`
says. -/
def Leaves (E : σ → Prop) (x : EStateM Failure σ α) (s : σ) (Q : α → σ → Prop) : Prop :=
  (∀ a t, x s = .ok a t → Q a t) ∧ ∀ e t, x s = .error e t → E t

theorem Leaves.of_ok {x : EStateM Failure σ α} {a : α} {t : σ} (h : x s = .ok a t) (hq : Q a t) :
    Leaves E x s Q := by
  refine ⟨fun b u hb => ?_, fun e u hu => ?_⟩
  · obtain ⟨rfl, rfl⟩ := EStateM.Result.ok.inj (h.symm.trans hb)
    exact hq
  · cases h.symm.trans hu

theorem Leaves.of_error {x : EStateM Failure σ α} {e : Failure} {t : σ} (h : x s = .error e t)
    (ht : E t) : Leaves E x s Q := by
  refine ⟨fun b u hb => ?_, fun e' u hu => ?_⟩
  · cases h.symm.trans hb
  · obtain ⟨-, rfl⟩ := EStateM.Result.error.inj (h.symm.trans hu)
    exact ht

theorem Leaves.pure {a : α} (h : Q a s) : Leaves E (Pure.pure a : EStateM Failure σ α) s Q :=
  Leaves.of_ok rfl h

theorem Leaves.throw (e : Failure) (h : E s) : Leaves E (throw e : EStateM Failure σ α) s Q :=
  Leaves.of_error rfl h

theorem Leaves.bind {R : β → σ → Prop} {x : EStateM Failure σ α} {f : α → EStateM Failure σ β}
    (hx : Leaves E x s Q) (hf : ∀ a t, Q a t → Leaves E (f a) t R) : Leaves E (x >>= f) s R := by
  refine ⟨fun b u h => ?_, fun e u h => ?_⟩
  · obtain ⟨a, t, hxa, hfb⟩ := bind_eq_ok h
    exact (hf a t (hx.1 a t hxa)).1 b u hfb
  · rcases bind_eq_error h with hxe | ⟨a, t, hxa, hfe⟩
    · exact hx.2 e u hxe
    · exact (hf a t (hx.1 a t hxa)).2 e u hfe

theorem Leaves.mono {E' : σ → Prop} {R : α → σ → Prop} {x : EStateM Failure σ α}
    (hx : Leaves E x s Q) (hE : ∀ t, E t → E' t) (h : ∀ a t, Q a t → R a t) : Leaves E' x s R :=
  ⟨fun a t ha => h a t (hx.1 a t ha), fun e t he => hE t (hx.2 e t he)⟩

theorem Leaves.ite {c : Prop} [Decidable c] {x y : EStateM Failure σ α} (hx : c → Leaves E x s Q)
    (hy : ¬c → Leaves E y s Q) : Leaves E (if c then x else y) s Q := by
  split
  · next h => exact hx h
  · next h => exact hy h

theorem Leaves.get {R : β → σ → Prop} {f : σ → EStateM Failure σ β} (hf : Leaves E (f s) s R) :
    Leaves E (MonadStateOf.get >>= f) s R := hf

theorem Leaves.modify {R : β → σ → Prop} {g : σ → σ} {f : PUnit → EStateM Failure σ β}
    (hf : Leaves E (f ()) (g s) R) : Leaves E (modify g >>= f) s R := hf

end Leaves

section Requests

variable {α : Type} {E : Session → Prop} {s : Session} {Q : α → Session → Prop}

theorem Leaves.bracket {enter leave : Session → Session} {part : Compile α}
    (h : Leaves (fun t => E (leave t)) part (enter s) fun a t => Q a (leave t)) :
    Leaves E (Compile.bracket enter leave part) s Q := by
  unfold Compile.bracket
  cases hp : part (enter s) with
  | ok a t => exact Leaves.of_ok (by rw [hp]) (h.1 a t hp)
  | error e t => exact Leaves.of_error (by rw [hp]) (h.2 e t hp)

theorem Leaves.recovering {part : Compile α} (h : Leaves E part s Q) :
    Leaves E (Compile.recovering part) s Q := by
  unfold Compile.recovering
  cases hp : part s with
  | ok a t => exact Leaves.of_ok (by rw [hp]) (h.1 a t hp)
  | error e t => cases e <;> exact Leaves.of_error (by rw [hp]) (h.2 _ t hp)

/-- A fault that is reported leaves an event in the log. -/
theorem Leaves.noting (path message : Bytes) {part : Compile α}
    (hE : ∀ t event, event.message = message → E t → E { t with log := event :: t.log })
    (h : Leaves E part s Q) : Leaves E (Compile.noting path message part) s Q := by
  unfold Compile.noting
  cases hp : part s with
  | ok a t => exact Leaves.of_ok (by rw [hp]) (h.1 a t hp)
  | error e t =>
    cases e with
    | fault f => exact Leaves.of_error (by rw [hp]) (hE t _ rfl (h.2 _ t hp))
    | invariant m => exact Leaves.of_error (by rw [hp]) (h.2 _ t hp)
    | crash => exact Leaves.of_error (by rw [hp]) (h.2 _ t hp)

theorem Leaves.ofFault {answer : Except Fault α} (h : ∀ a, answer = .ok a → Q a s) (hE : E s) :
    Leaves E (Compile.ofFault answer) s Q := by
  cases answer with
  | ok a => exact Leaves.pure (h a rfl)
  | error f => exact Leaves.throw _ hE

theorem Leaves.ofFailure {answer : Except Failure α} (h : ∀ a, answer = .ok a → Q a s)
    (hE : E s) : Leaves E (Compile.ofFailure answer) s Q := by
  cases answer with
  | ok a => exact Leaves.pure (h a rfl)
  | error e => exact Leaves.throw _ hE

theorem Leaves.outcome {part : Compile α} (h : Leaves E part s Q) :
    (∀ a t, part.outcome s = (.ok a, t) → Q a t) ∧ ∀ e t, part.outcome s = (.error e, t) → E t := by
  unfold Compile.outcome
  cases hp : part s with
  | ok a t =>
    refine ⟨fun b t' hb => ?_, fun e t' hb => (by cases hb)⟩
    obtain ⟨hab, rfl⟩ := Prod.mk.inj hb
    obtain rfl := Except.ok.inj hab
    exact h.1 a t hp
  | error e t =>
    refine ⟨fun b t' hb => (by cases hb), fun e' t' hb => ?_⟩
    obtain ⟨-, rfl⟩ := Prod.mk.inj hb
    exact h.2 e t hp

end Requests

/-! ### Growing sessions -/

/-- Whether the event says that the pipeline of a unit succeeded. -/
def Event.isCompiled (path : Bytes) (e : Event) : Bool :=
  e.message == "unit compiled" && e.details.lookup ("unit" : Bytes) == some (.text path)

theorem Event.isCompiled_of_message {e : Event} (h : e.message ≠ "unit compiled") (path : Bytes) :
    e.isCompiled path = false := by
  rw [Event.isCompiled, beq_eq_false_iff_ne.mpr h, Bool.false_and]

/-- The event of a success is about the unit that was compiled. -/
theorem Event.isCompiled_success (path : Bytes) (details : List (Bytes × Detail)) (q : Bytes) :
    Event.isCompiled q ⟨.info, "unit compiled", ("unit", .text path) :: details⟩ = (q == path) := by
  rw [Event.isCompiled, List.lookup_cons]
  show (true && (some (Detail.text path) == some (.text q))) = (q == path)
  rw [Bool.true_and, Bool.eq_iff_iff, beq_iff_eq, beq_iff_eq, Option.some_inj, Detail.text.injEq]
  exact eq_comm

namespace Session

/-- How often the pipeline of a unit succeeded. -/
def compiled (s : Session) (path : Bytes) : Nat := s.log.countP (·.isCompiled path)

/-- The paths of the compiled tag files. -/
def known (s : Session) : List Bytes := s.units.map (·.1)

theorem not_mem_known {s : Session} {path : Bytes} (h : s.units.lookup path = none) :
    path ∉ s.known := by
  rintro hpath
  obtain ⟨e, he, rfl⟩ := List.mem_map.mp hpath
  have hne := List.lookup_eq_none_iff.mp h e he
  simp at hne

/-- The session `t` comes after `s`, some tag files having been compiled in between. -/
structure Grows (registry : Registry) (s t : Session) (new : List (Bytes × CompiledUnit)) :
    Prop where
  running : t.running = s.running
  encodings : t.encodings = s.encodings
  libraries : ∀ uri, (t.registry.answer uri).1 = (s.registry.answer uri).1
  units : t.units = new ++ s.units
  auxiliary : t.auxiliary = s.auxiliary ++ (new.map (·.2)).reverse
  nodup : (new.map (·.1)).Nodup
  fresh : ∀ path ∈ new.map (·.1), path ∉ s.running ∧ path ∉ s.known
  named : ∀ path ∈ new.map (·.1), ∃ file, Compiler.IsTagPath registry file ∧
    Compiler.cleanPath file = path
  paths : ∀ e ∈ new, e.2.path = e.1
  tags : ∀ e ∈ new, (e.2.tree.page?.bind (·.tag)).isSome = isTagFilePath e.1
  signatures : ∀ e ∈ t.signatures, e ∈ s.signatures ∨ e.1 ∈ t.known
  compiled : ∀ path, t.compiled path = s.compiled path + (new.map (·.1)).count path

variable {registry : Registry} {s t u : Session} {new more : List (Bytes × CompiledUnit)}

theorem Grows.refl (registry : Registry) (s : Session) : s.Grows registry s [] where
  running := rfl
  encodings := rfl
  libraries _ := rfl
  units := rfl
  auxiliary := (List.append_nil _).symm
  nodup := List.nodup_nil
  fresh _ h := absurd h List.not_mem_nil
  named _ h := absurd h List.not_mem_nil
  paths _ h := absurd h List.not_mem_nil
  tags _ h := absurd h List.not_mem_nil
  signatures _ h := Or.inl h
  compiled _ := rfl

theorem Grows.known (h : s.Grows registry t new) : t.known = new.map (·.1) ++ s.known := by
  rw [Session.known, h.units, List.map_append]
  rfl

theorem Grows.trans (h : s.Grows registry t new) (h' : t.Grows registry u more) :
    s.Grows registry u (more ++ new) where
  running := h'.running.trans h.running
  encodings := h'.encodings.trans h.encodings
  libraries uri := (h'.libraries uri).trans (h.libraries uri)
  units := by rw [h'.units, h.units, List.append_assoc]
  auxiliary := by
    rw [h'.auxiliary, h.auxiliary, List.map_append, List.reverse_append, List.append_assoc]
  nodup := by
    rw [List.map_append, List.nodup_append]
    refine ⟨h'.nodup, h.nodup, fun path hmore path' hnew => ?_⟩
    rintro rfl
    refine (h'.fresh path hmore).2 ?_
    rw [h.known]
    exact List.mem_append_left _ hnew
  fresh path hpath := by
    rw [List.map_append, List.mem_append] at hpath
    refine hpath.elim (fun hmore => ?_) (h.fresh path)
    obtain ⟨hrun, hknown⟩ := h'.fresh path hmore
    rw [h.running] at hrun
    rw [h.known] at hknown
    exact ⟨hrun, fun hs => hknown (List.mem_append_right _ hs)⟩
  named path hpath := by
    rw [List.map_append, List.mem_append] at hpath
    exact hpath.elim (h'.named path) (h.named path)
  paths e he := (List.mem_append.mp he).elim (h'.paths e) (h.paths e)
  tags e he := (List.mem_append.mp he).elim (h'.tags e) (h.tags e)
  signatures e he := by
    rcases h'.signatures e he with hs | hs
    · refine (h.signatures e hs).imp id fun hknown => ?_
      rw [h'.known]
      exact List.mem_append_right _ hknown
    · exact Or.inr hs
  compiled path := by
    rw [h'.compiled, h.compiled, List.map_append, List.count_append]
    omega

/-- An event that is not about a success changes nothing of this. -/
theorem Grows.logged (h : s.Grows registry t new) {e : Event} (he : e.message ≠ "unit compiled") :
    s.Grows registry { t with log := e :: t.log } new :=
  { h with
    compiled := fun path => by
      rw [← h.compiled path, Session.compiled, Session.compiled, List.countP_cons,
        Event.isCompiled_of_message he]
      rfl }

end Session

namespace Compiler

/-- The tree invokes a tag that the tag file at a path implements. -/
def Invokes (registry : Registry) (n : Node) (path : Bytes) : Prop :=
  ∃ target ∈ n.targets, ∃ l file, (registry.answer target.1).1 = .ok l ∧
    l.tag? target.2 = none ∧ l.tagFile? target.2 = some file ∧ cleanPath file = path

end Compiler

namespace Session

variable {registry : Registry} {s t u : Session}

/-- Libraries are what the registry says, and tags are known of compiled tag files only. -/
structure IsReady (registry : Registry) (s : Session) : Prop where
  libraries : ∀ uri, (s.registry.answer uri).1 = (registry.answer uri).1
  signatures : ∀ e ∈ s.signatures, e.1 ∈ s.known

/-- Every tag file that the tree invokes is compiled, or being compiled. -/
def Knows (registry : Registry) (s : Session) (n : Node) : Prop :=
  ∀ path, Compiler.Invokes registry n path → path ∈ s.known ∨ path ∈ s.running

/-- Some tag files were compiled in between. -/
def Follows (registry : Registry) (s t : Session) : Prop := ∃ new, s.Grows registry t new

/-- Some tag files were compiled in between, and all that they invoke are known. -/
def Completes (registry : Registry) (s t : Session) : Prop :=
  ∃ new, s.Grows registry t new ∧ ∀ e ∈ new, t.Knows registry e.2.tree

theorem Completes.follows (h : s.Completes registry t) : s.Follows registry t :=
  h.imp fun _ h => h.1

theorem Completes.refl (registry : Registry) (s : Session) : s.Completes registry s :=
  ⟨[], Grows.refl registry s, fun _ h => absurd h List.not_mem_nil⟩

theorem Grows.isReady {new : List (Bytes × CompiledUnit)} (h : s.Grows registry t new)
    (hs : s.IsReady registry) : t.IsReady registry where
  libraries uri := (h.libraries uri).trans (hs.libraries uri)
  signatures e he := by
    refine (h.signatures e he).elim (fun hold => ?_) id
    rw [h.known]
    exact List.mem_append_right _ (hs.signatures e hold)

/-- What is known stays known. -/
theorem Grows.knows {new : List (Bytes × CompiledUnit)} (h : s.Grows registry t new) {n : Node}
    (hn : s.Knows registry n) : t.Knows registry n := by
  refine fun path hpath => (hn path hpath).imp (fun hk => ?_) fun hr => ?_
  · rw [h.known]
    exact List.mem_append_right _ hk
  · rwa [h.running]

theorem Completes.trans (h : s.Completes registry t) (h' : t.Completes registry u) :
    s.Completes registry u := by
  obtain ⟨new, hgrow, hnew⟩ := h
  obtain ⟨more, hgrow', hmore⟩ := h'
  refine ⟨more ++ new, hgrow.trans hgrow', fun e he => ?_⟩
  exact (List.mem_append.mp he).elim (hmore e) fun hold => hgrow'.knows (hnew e hold)

theorem Completes.follows_trans (h : s.Completes registry t) (h' : t.Follows registry u) :
    s.Follows registry u := by
  obtain ⟨new, hgrow, -⟩ := h
  obtain ⟨more, hgrow'⟩ := h'
  exact ⟨more ++ new, hgrow.trans hgrow'⟩

/-- The unit at a path was compiled after the session `s`, which ends in the session `t`. -/
structure Compiles (registry : Registry) (s : Session) (path : Bytes) (u : CompiledUnit)
    (t : Session) : Prop where
  path_eq : u.path = path
  isTagFile : u.isTagFile = isTagFilePath path
  tag : (u.tree.page?.bind (·.tag)).isSome = isTagFilePath path
  grows : ∃ new event rest, s.Grows registry { t with log := rest } new ∧ t.log = event :: rest ∧
    (∀ q, event.isCompiled q = (q == path)) ∧ path ∉ new.map (·.1) ∧
    ∀ tree ∈ u.tree :: new.map (·.2.tree), ∀ f, Compiler.Invokes registry tree f →
      f ∈ t.known ∨ f ∈ path :: s.running

end Session

namespace Compiler

variable {c : Compiler} {registry : Registry}

/-- While some units are being compiled, tag files are described as far as they are asked for. -/
def Answers (registry : Registry) (running : List Bytes)
    (describe : Bytes → Compile TagDescriptor) : Prop :=
  ∀ path s, IsTagPath registry path → s.IsReady registry → s.running = running →
    Leaves (s.Follows registry) (describe path) s fun _ t =>
      s.Completes registry t ∧ (cleanPath path ∈ t.known ∨ cleanPath path ∈ t.running)

/-- The answers that count as given in a session. -/
def told (registry : Registry) (s : Session) : Record
  | .library uri answer => answer = (registry.answer uri).1
  | .file _ _ => True
  | .tag path _ => cleanPath path ∈ s.known ∨ cleanPath path ∈ s.running

theorem told_mono {s t : Session} (h : s.Completes registry t) {x : Told}
    (hx : told registry s x) : told registry t x := by
  obtain ⟨new, hgrow, -⟩ := h
  cases x with
  | library uri answer => exact hx
  | file path text => trivial
  | tag path d =>
    refine hx.imp (fun hk => ?_) fun hr => ?_
    · rw [hgrow.known]
      exact List.mem_append_right _ hk
    · rwa [hgrow.running]

theorem grows_library {q : Bytes → Session → Except Fault TagLibrary × Session}
    (hq : c.library = some q) (uri : Bytes) (s : Session) :
    s.Grows registry (q uri s).2 [] ∧ (q uri s).1 = (s.registry.answer uri).1 := by
  obtain rfl := c.eq_of_library hq
  rw [Session.library_eq]
  refine ⟨{ Session.Grows.refl registry s with libraries := fun v => ?_ }, rfl⟩
  exact Registry.answer_answer s.registry uri v

theorem host_meets {describe : Option (Bytes → Compile TagDescriptor)} {s : Session}
    (hs : s.IsReady registry)
    (hd : ∀ d, describe = some d → Answers registry s.running d) :
    (c.host describe).Meets (s.Completes registry) (s.Follows registry) (told registry) := by
  refine ⟨fun _ => Session.Completes.follows, fun q hq uri m hm => ?_, fun q hq path m hm => ?_,
    fun q hq path m hm hnames => ?_⟩
  · obtain ⟨hgrow, hanswer⟩ := grows_library hq uri m
    have hstep : m.Completes registry (q uri m).2 :=
      ⟨[], hgrow, fun _ h => absurd h List.not_mem_nil⟩
    obtain ⟨new, hnew, -⟩ := id hm
    refine ⟨hm.trans hstep, ?_, fun _ => told_mono hstep⟩
    exact hanswer.trans ((hnew.isReady hs).libraries uri)
  · obtain rfl := Option.some.inj hq
    refine ⟨fun text m' h => ?_, fun f m' h => ?_⟩
    · obtain rfl : m = m' := (Prod.mk.inj ((c.load_eq path m).symm.trans h)).2
      exact ⟨hm, trivial, fun _ ht => ht⟩
    · obtain rfl : m = m' := (Prod.mk.inj ((c.load_eq path m).symm.trans h)).2
      exact hm.follows
  · obtain ⟨d, hd', rfl⟩ := Option.map_eq_some_iff.mp hq
    obtain ⟨new, hnew, -⟩ := id hm
    obtain ⟨uri, l, name, hl, hfile⟩ := hnames
    have hpath : IsTagPath registry path := ⟨uri, l, name, hl.symm, hfile⟩
    obtain ⟨hok, herr⟩ := (hd d hd' path m hpath (hnew.isReady hs) hnew.running).outcome
    refine ⟨fun a m' h => ?_, fun e m' h => hm.follows_trans (herr e m' h)⟩
    obtain ⟨hstep, htold⟩ := hok a m' h
    exact ⟨hm.trans hstep, htold, fun _ => told_mono hstep⟩

/-- Parsing a unit knows the tag files that the unit invokes. -/
theorem parse_grows (r : ParseRequest) {describe : Option (Bytes → Compile TagDescriptor)}
    {s : Session} (hs : s.IsReady registry)
    (hd : ∀ d, describe = some d → Answers registry s.running d) :
    Leaves (s.Follows registry) (parse r (c.host describe)) s fun n t =>
      s.Completes registry t ∧ t.Knows registry n ∧ r.parse (c.host describe) s = (.ok n, t) := by
  obtain ⟨hok, herr⟩ := Dialog.run_meets (host_meets hs hd) (Session.Completes.refl registry s)
    fun rec _ => r.dialog_within (c.host describe).questions rec
  rw [← r.parse_eq_run] at hok herr
  unfold parse
  rcases hp : r.parse (c.host describe) s with ⟨e | n, t⟩
  · exact Leaves.of_error (by rw [hp]) (herr e t hp)
  · obtain ⟨hcomplete, hbacks⟩ := hok n t hp
    refine Leaves.of_ok (by rw [hp]) ⟨hcomplete, fun path hpath => ?_, rfl⟩
    obtain ⟨target, htarget, l, file, hl, htag, hfile, rfl⟩ := hpath
    rw [n.targets_eq] at htarget
    obtain ⟨g, hg, rfl⟩ := List.mem_map.mp htarget
    obtain ⟨l', d, hl', -, hgives⟩ := hbacks g hg
    obtain rfl : l = l' := Except.ok.inj (hl.symm.trans hl'.symm)
    rcases hgives with htag' | ⟨-, file', hfile', hknown⟩
    · exact absurd (htag.symm.trans htag') (by simp)
    · obtain rfl : file = file' := Option.some.inj (hfile.symm.trans hfile')
      exact hknown

/-- Validating a unit asks for libraries only. -/
theorem validated_grows (registry : Registry) (path : Bytes) {tree : Node} (htree : tree.IsUnit)
    {u : UnitInfo} (hu : tree.head.unit = some u) (s : Session) :
    Leaves (fun t => s.Grows registry t []) (c.validated path tree) s fun n t =>
      s.Grows registry t [] ∧ n.targets = tree.targets ∧
        n.head.unit.any (·.isTagFile) = u.isTagFile ∧
        (n.page?.bind (·.tag)).isSome = u.isTagFile := by
  have hmemory := tree.validate_memory c.library c.options.validation s
    (K := fun t => s.Grows registry t []) (fun q hq uri m hm => hm.trans (grows_library hq uri m).1)
    (Session.Grows.refl registry s)
  have htargets := Node.targets_validate c.library c.options.validation s htree
  have hfile := Node.isTagFile_validate c.library c.options.validation s htree.kind
  have htag := tree.validate_tag c.library c.options.validation s htree.kind hu
  refine Leaves.get ?_
  dsimp only
  generalize tree.validate c.library c.options.validation s = v at hmemory htargets hfile htag ⊢
  obtain ⟨n, failure, memory⟩ := v
  refine Leaves.bind (Q := fun _ t => s.Grows registry t []) (Leaves.of_ok rfl hmemory)
    fun _ t ht => ?_
  cases failure with
  | some e => exact Leaves.throw _ ht
  | none =>
    have htag := htag rfl
    rw [hu] at hfile
    dsimp only at htag hfile htargets ⊢
    cases hp : n.page? with
    | some page =>
      refine Leaves.pure ⟨ht, (n.targets_setPage _).trans htargets,
        (n.isTagFile_setPage _).trans hfile, ?_⟩
      exact (isSome_tag_setPage_named hp path).trans htag
    | none => exact Leaves.pure ⟨ht, htargets, hfile, htag⟩

/-- The session in which a unit is left. -/
def leaving (t : Session) : Session :=
  { t with running := t.running.drop 1, encodings := t.encodings.drop 1 }

/-- Leaving a unit puts back what entering it changed. -/
theorem grows_leaving {path encoding : Bytes} {s t : Session}
    {new : List (Bytes × CompiledUnit)} (h : (entering path encoding s).Grows registry t new) :
    s.Grows registry (leaving t) new ∧ path ∉ new.map (·.1) := by
  have hcompiled (q : Bytes) : (entering path encoding s).compiled q = s.compiled q := by
    rw [Session.compiled, entering, List.countP_cons, Event.isCompiled_of_message
      (show ("compiling unit" : Bytes) ≠ "unit compiled" by decide)]
    rfl
  refine ⟨{ h with
    running := congrArg (List.drop 1) h.running
    encodings := congrArg (List.drop 1) h.encodings
    fresh := fun q hq => ⟨fun hr => (h.fresh q hq).1 (List.mem_cons_of_mem _ hr), (h.fresh q hq).2⟩
    compiled := fun q => ?_ }, fun hpath => ?_⟩
  · exact (h.compiled q).trans (by rw [hcompiled])
  · exact (h.fresh path hpath).1 List.mem_cons_self

/-- **What the pipeline of a unit adds to the session**, if the questions that the unit asks are
answered. -/
theorem compileUnit_grows {describe : Bytes → Compile TagDescriptor} {s : Session}
    {path : Bytes} (hd : Answers registry (path :: s.running) describe)
    (hs : s.IsReady registry) (raw : Bytes) (form : PageSyntax) :
    Leaves (s.Follows registry) (c.compileUnit describe path raw form) s fun u t =>
      s.Compiles registry path u t := by
  refine Leaves.bracket (Leaves.recovering (Leaves.get (Leaves.bind (Leaves.ofFault
    (Q := fun source t => t = { s with running := path :: s.running }) (fun _ _ => rfl) ?_) ?_)))
  · exact ⟨[], Session.Grows.refl registry s⟩
  rintro source _ rfl
  refine Leaves.bracket (Leaves.modify ?_)
  let inside := entering path source.encoding s
  have hinside : inside.IsReady registry := ⟨hs.libraries, hs.signatures⟩
  show Leaves (fun t => s.Follows registry (leaving t)) _ inside fun u t =>
    s.Compiles registry path u (leaving t)
  have hlogged (message : Bytes) (hmessage : message ≠ "unit compiled") (t : Session)
      (event : Event) (hevent : event.message = message) (ht : s.Follows registry (leaving t)) :
      s.Follows registry (leaving { t with log := event :: t.log }) :=
    ht.imp fun _ h => h.logged (hevent ▸ hmessage)
  have hleave (t : Session) (ht : inside.Follows registry t) : s.Follows registry (leaving t) :=
    ht.imp fun _ h => (grows_leaving h).1
  refine (((parse_grows _ hinside fun d hd' => ?_).mono hleave fun _ _ h => h).noting _ _
    (hlogged _ (by decide))).bind ?_
  · obtain rfl := Option.some.inj hd'
    exact hd
  rintro parsed t ⟨hcomplete, hknows, hparse⟩
  obtain ⟨new, hgrow, hnew⟩ := hcomplete
  obtain ⟨-, unit, hunit, hfile⟩ := head_of_parse hparse
  have hshape : parsed.IsUnit := ParseRequest.parse_isUnit (by rw [hparse])
  refine (((validated_grows registry path hshape hunit t).mono (fun v hv => ?_)
    fun _ _ h => h).noting _ _ (hlogged _ (by decide))).bind ?_
  · exact hleave v ⟨[] ++ new, hgrow.trans hv⟩
  rintro tree v ⟨hv, htargets, htreeFile, htag⟩
  have hgrow := hgrow.trans hv
  refine Leaves.get (((Leaves.ofFailure (Q := fun code w => v = w ∧ tree.generate _ = .ok code)
    (fun _ h => ⟨rfl, h⟩) (hleave v ⟨_, hgrow⟩)).noting _ _ (hlogged _ (by decide))).bind ?_)
  rintro code _ ⟨rfl, hcode⟩
  refine Leaves.modify (Leaves.pure ?_)
  obtain ⟨hleft, hpath⟩ := grows_leaving hgrow
  refine ⟨rfl, ?_, ?_, [] ++ new, _, _, hleft, rfl, fun q => ?_, hpath, ?_⟩
  · show code.tree.head.unit.any (·.isTagFile) = _
    rw [Node.unit_of_generate hcode, htreeFile, hfile]
    rfl
  · show (code.tree.page?.bind (·.tag)).isSome = _
    rw [Node.page?_of_generate hcode, htag, hfile]
    rfl
  · exact Event.isCompiled_success path _ q
  · have hrunning : v.running = path :: s.running := hgrow.running
    have htree : (unitOf path source.encoding code).tree.targets = parsed.targets :=
      (Node.targets_of_generate hcode).trans htargets
    have hknown (n : Node) (hn : v.Knows registry n) (f : Bytes) (hf : Invokes registry n f) :
        f ∈ v.known ∨ f ∈ path :: s.running := hrunning ▸ hn f hf
    refine List.forall_mem_cons.mpr ⟨hknown _ (hv.knows fun f hf => hknows f ?_), fun n hn => ?_⟩
    · rwa [Invokes, htree] at hf
    · obtain ⟨e, he, rfl⟩ := List.mem_map.mp hn
      exact hknown _ (hv.knows (hnew e he))

/-- Once a tag file is compiled and kept, it is known, and so is all that it invokes. -/
theorem completes_of_compiles {s t : Session} {path : Bytes} {u : CompiledUnit}
    (h : s.Compiles registry path u t) (hrunning : path ∉ s.running) (hknown : path ∉ s.known)
    (hnamed : ∃ file, IsTagPath registry file ∧ cleanPath file = path) :
    s.Completes registry
      { t with units := (path, u) :: t.units, auxiliary := t.auxiliary ++ [u] } := by
  obtain ⟨new, event, rest, hgrow, hlog, hevent, hpath, hinvokes⟩ := h.grows
  refine ⟨(path, u) :: new, { hgrow with
    units := congrArg _ hgrow.units
    auxiliary := ?_
    nodup := List.nodup_cons.mpr ⟨hpath, hgrow.nodup⟩
    fresh := List.forall_mem_cons.mpr ⟨⟨hrunning, hknown⟩, hgrow.fresh⟩
    named := List.forall_mem_cons.mpr ⟨hnamed, hgrow.named⟩
    paths := List.forall_mem_cons.mpr ⟨h.path_eq, hgrow.paths⟩
    tags := List.forall_mem_cons.mpr ⟨h.tag, hgrow.tags⟩
    signatures := fun e he => (hgrow.signatures e he).imp id (List.mem_cons_of_mem _)
    compiled := fun q => ?_ }, ?_⟩
  · show t.auxiliary ++ [u] = _
    rw [show t.auxiliary = _ from hgrow.auxiliary, List.map_cons, List.reverse_cons,
      List.append_assoc]
  · have hcount : ({ t with log := rest } : Session).compiled q = _ := hgrow.compiled q
    show t.compiled q = _
    rw [Session.compiled, hlog, List.countP_cons, hevent q, List.map_cons, List.count_cons,
      show rest.countP (·.isCompiled q) = _ from hcount, Nat.add_assoc]
    congr 2
    rw [Bool.beq_comm]
  · have hknows (n : Node) (hn : n ∈ u.tree :: new.map (·.2.tree)) (f : Bytes)
        (hf : Invokes registry n f) : f ∈ path :: t.known ∨ f ∈ t.running := by
      rw [show t.running = s.running from hgrow.running]
      rcases hinvokes n hn f hf with hk | hr
      · exact Or.inl (List.mem_cons_of_mem _ hk)
      · rcases List.mem_cons.mp hr with rfl | hr
        · exact Or.inl List.mem_cons_self
        · exact Or.inr hr
    refine List.forall_mem_cons.mpr ⟨hknows _ List.mem_cons_self, fun e he => hknows _ ?_⟩
    exact List.mem_cons_of_mem _ (List.mem_map_of_mem he)

theorem keepSignature_grows (path : Bytes) {u : CompiledUnit} {s : Session} (h : path ∈ s.known) :
    Leaves (fun t => s.Completes registry t) (keepSignature path u) s fun _ t =>
      s.Completes registry t ∧ (path ∈ t.known ∨ path ∈ t.running) := by
  refine Leaves.bind (Q := fun _ t => t = s) ?_ ?_
  · unfold descriptor
    split
    · exact Leaves.pure rfl
    · exact Leaves.throw _ (Session.Completes.refl registry s)
  rintro d _ rfl
  refine Leaves.modify (Leaves.pure
    ⟨⟨[], { Session.Grows.refl registry _ with signatures := ?_ }, ?_⟩, Or.inl h⟩)
  · exact List.forall_mem_cons.mpr ⟨Or.inr h, fun e he => Or.inl he⟩
  · exact fun _ h => absurd h List.not_mem_nil

/-- Reading the directives of a tag file asks for libraries and files only. -/
theorem signature_grows (path : Bytes) {s : Session} (hs : s.IsReady registry) :
    Leaves (s.Follows registry) (c.signature path) s fun _ t => s.Completes registry t := by
  refine Leaves.recovering (Leaves.get ?_)
  rw [asking_sourceTextM]
  refine Leaves.bind (Leaves.ofFault (Q := fun _ t => t = s) (fun _ _ => rfl)
    ⟨[], Session.Grows.refl registry s⟩) ?_
  rintro source _ rfl
  refine (parse_grows _ hs fun d hd => by cases hd).bind ?_
  rintro parsed t ⟨hcomplete, -, hparse⟩
  obtain ⟨-, unit, hunit, -⟩ := head_of_parse hparse
  have hshape : parsed.IsUnit := ParseRequest.parse_isUnit (by rw [hparse])
  have hstep (v : Session) (hv : t.Grows registry v []) : t.Completes registry v :=
    ⟨[], hv, fun _ h => absurd h List.not_mem_nil⟩
  refine ((validated_grows registry _ hshape hunit t).mono
    (fun v hv => (hcomplete.trans (hstep v hv)).follows) fun _ _ h => h).bind ?_
  rintro tree v ⟨hv, -⟩
  have hv := hcomplete.trans (hstep v hv)
  unfold descriptor
  split
  · exact Leaves.pure hv
  · exact Leaves.throw _ hv.follows

/-- **What describing a tag file adds to the session**, however deep units may nest. -/
theorem describeWithin_grows (fuel : Nat) (running : List Bytes) :
    Answers registry running (c.describeWithin fuel) := by
  induction fuel generalizing running with
  | zero => exact fun path s _ _ _ => Leaves.throw _ ⟨[], Session.Grows.refl registry s⟩
  | succ fuel ih =>
    rintro path s hpath hs rfl
    refine Leaves.get ?_
    split
    · next d hd =>
        refine Leaves.pure ⟨Session.Completes.refl registry s, Or.inl ?_⟩
        exact hs.signatures _ (mem_of_lookup hd)
    · next u _ hu =>
        refine (keepSignature_grows _ ?_).mono (fun _ => Session.Completes.follows) fun _ _ h => h
        exact List.mem_map_of_mem (f := (·.1)) (mem_of_lookup hu)
    next hunknown =>
    refine Leaves.ite (fun hrunning => Leaves.modify ?_) fun hrunning => ?_
    · let event : Event := ⟨.debug, "tag file depends on itself, extracting signature",
        [("unit", .text (cleanPath path))]⟩
      have hevent : event.message ≠ "unit compiled" :=
        show ("tag file depends on itself, extracting signature" : Bytes) ≠ "unit compiled" by
          decide
      have hlogged : s.Completes registry { s with log := event :: s.log } :=
        ⟨[], (Session.Grows.refl registry s).logged hevent, fun _ h => absurd h List.not_mem_nil⟩
      have hready : ({ s with log := event :: s.log } : Session).IsReady registry :=
        ⟨hs.libraries, hs.signatures⟩
      refine (signature_grows (cleanPath path) hready).mono
        (fun t ht => hlogged.follows_trans ht) fun _ t ht => ⟨hlogged.trans ht, Or.inr ?_⟩
      obtain ⟨new, hgrow, -⟩ := hlogged.trans ht
      rw [hgrow.running]
      exact List.contains_iff_mem.mp hrunning
    rw [asking_readFileM]
    refine Leaves.bind (Q := fun _ t => s = t) (Leaves.ofFault (fun _ _ => rfl)
      ⟨[], Session.Grows.refl registry s⟩) ?_
    rintro raw _ rfl
    have hrunning : cleanPath path ∉ s.running := fun h =>
      hrunning (List.contains_iff_mem.mpr h)
    have hknown : cleanPath path ∉ s.known := Session.not_mem_known hunknown
    refine ((compileUnit_grows (ih _) hs raw .auto).noting _ _ fun t event he ht => ?_).bind ?_
    · exact ht.imp fun _ h => h.logged (he ▸ by decide)
    intro u t ht
    have hkept := completes_of_compiles ht hrunning hknown ⟨path, hpath, rfl⟩
    refine Leaves.modify ((keepSignature_grows _ List.mem_cons_self).mono
      (fun v hv => (hkept.trans hv).follows) fun _ v hv => ⟨hkept.trans hv.1, hv.2⟩)

end Compiler

end ServerPages
