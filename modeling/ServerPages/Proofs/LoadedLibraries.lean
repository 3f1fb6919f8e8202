import ServerPages.Compilation.Compiler
import ServerPages.Proofs.ParseDialog
import ServerPages.Proofs.ProblemLedger
import ServerPages.TagLibrary.Registry

/-!
# Libraries that were loaded before

Asking a registry for a library may load one and bind it. What the registry answers for any uri is
the same before and after, so a compilation sees one library for a uri throughout.

Others may have been loaded by compilations before it. That changes no answer of the registry, and a
compilation sees nothing of the registry but its answers. So whatever was loaded before, a
compilation has the same outcome.

`Steady` says of a request that it does the same in sessions that differ in nothing but in what
their registries have loaded. It is shown for every part of a request.

## Main results

* `Registry.answer_answer`: an answer does not change the answers after it.
* `Registry.answer_eq_keep`, `Registry.addDocument_eq`: the parts that calls are made of.
* `Dialog.run_respects`: a dialog with surroundings that answer alike.
* `Compiler.steady_compileSource`: compiling bytes as a page is steady.
-/

namespace ServerPages

/-! ### Files as they are -/

namespace Registry

section Direct

variable {m : Type → Type} [Monad m] [LawfulMonad m] (r : Registry)

/-- With direct access, the general loading of a library is the plain one. -/
theorem loadM_direct (uri : Bytes) :
    (r.loadM uri : m (Except Fault TagLibrary)) = pure (r.load uri) := by
  have hdocument : ∀ files path, (loadDocumentM files path : m (Except Fault TagLibrary)) =
      pure (loadDocumentM (m := Id) files path) := by
    intro files path
    unfold loadDocumentM
    simp only [MonadFiles.access, FileAccess.direct, pure_bind]
    rcases files.opened (FileTree.pathOf path) with f | f | document <;> rfl
  have hdirectory : ∀ files path, (loadDirectoryM files path : m (Except Fault TagLibrary)) =
      pure (loadDirectoryM (m := Id) files path) := by
    intro files path
    unfold loadDirectoryM
    simp only [MonadFiles.access, FileAccess.direct, pure_bind]
    cases files.list (FileTree.pathOf path) <;> rfl
  unfold load loadM
  cases r.files with
  | none => rfl
  | some files =>
    dsimp only
    rw [hdocument, hdirectory]
    split
    · rfl
    · split <;> rfl

/-- So is the general answer of a registry. -/
theorem answerM_direct (uri : Bytes) :
    (answerM uri r : m (Except Fault TagLibrary × Registry)) = pure (answer uri r) := by
  have hresolve : (r.resolveM uri : m (Except Fault (TagLibrary × Registry))) =
      pure (r.resolve uri) := by
    unfold resolve resolveM
    cases r.find? uri with
    | some l => rfl
    | none =>
      dsimp only
      rw [loadM_direct, pure_bind]
      rfl
  unfold answerM
  rw [hresolve, pure_bind]
  unfold answer answerM resolve
  cases r.resolveM (m := Id) uri <;> rfl

/-- And so is the loading of all libraries. -/
theorem loadAllM_direct (files : FileTree) (directory : Bytes) :
    (r.loadAllM files directory : m (Registry × Option Fault)) =
      pure (r.loadAll files directory) := by
  have hadd : ∀ paths (r : Registry), (r.addDocumentsM files paths : m (Registry × Option Fault)) =
      pure (r.addDocuments files paths) := by
    intro paths
    induction paths with
    | nil => exact fun _ => rfl
    | cons path paths ih =>
      intro r
      unfold addDocuments
      rw [addDocumentsM, addDocumentsM]
      simp only [addDocumentM, MonadFiles.access, FileAccess.direct, pure_bind]
      cases files.read path >>= libraryAt path >>= r.register with
      | error f => rfl
      | ok r => exact ih r
  unfold loadAll loadAllM
  simp only [MonadFiles.access, FileAccess.direct, pure_bind]
  cases files.walk (FileTree.pathOf directory) with
  | error f => rfl
  | ok paths => exact hadd _ r

end Direct

/-- A registry looks a uri up first, then loads a library for it. -/
theorem resolve_eq (r : Registry) (uri : Bytes) : r.resolve uri = match r.find? uri with
    | some l => .ok (l, r)
    | none => r.load uri >>= r.store uri := by
  unfold resolve resolveM
  cases r.find? uri <;> rfl

/-- The answer for a uri, with the registry after it. -/
theorem answer_eq (r : Registry) (uri : Bytes) : r.answer uri = match r.resolve uri with
    | .ok (l, r) => (.ok l, r)
    | .error f => (.error f, r) := by
  unfold answer answerM resolve
  cases r.resolveM (m := Id) uri <;> rfl

theorem answer_of_find?_eq_some {r : Registry} {uri : Bytes} {l : TagLibrary}
    (h : r.find? uri = some l) : r.answer uri = (.ok l, r) := by
  rw [answer_eq, resolve_eq, h]

end Registry

/-- A session leaves libraries to its registry. -/
theorem Session.library_eq (uri : Bytes) (s : Session) :
    Session.library uri s = ((Registry.answer uri s.registry).1,
      { s with registry := (Registry.answer uri s.registry).2 }) := by
  unfold library
  simp only [Registry.answerM_direct, pure_bind]
  rfl

namespace Compiler

variable (c : Compiler)

theorem readFileM_direct {m : Type → Type} [Monad m] (path : Bytes) :
    (c.readFileM path : m (Except Fault Bytes)) = pure (c.readFile path) := by
  unfold readFile readFileM
  cases c.files <;> rfl

/-- Only a compiler with files can read one. -/
theorem readFile_eq (path : Bytes) : c.readFile path = match c.files with
    | none => .error (.plain "no source root configured")
    | some files => files.read (path.dropStart "/") := by
  unfold readFile readFileM
  cases c.files <;> rfl

theorem sourceTextM_direct {m : Type → Type} [Monad m] [LawfulMonad m] (s : Session)
    (path : Bytes) : (c.sourceTextM s path : m (Except Fault SourceText)) =
      pure (c.sourceText s path) := by
  unfold sourceTextM
  rw [readFileM_direct, pure_bind]
  rfl

theorem asking_readFileM (path : Bytes) :
    Compile.asking (c.readFileM path) = Compile.ofFault (c.readFile path) := by
  rw [readFileM_direct]
  rfl

theorem asking_sourceTextM (s : Session) (path : Bytes) :
    Compile.asking (c.sourceTextM s path) = Compile.ofFault (c.sourceText s path) := by
  rw [sourceTextM_direct]
  rfl

theorem load_eq (path : Bytes) (s : Session) :
    c.load path s = ((c.sourceText s path).map (·.text), s) := by
  unfold load
  simp only [sourceTextM_direct, pure_bind]
  rfl

/-- Two hosts of one compiler differ at most in how they ask for libraries. -/
theorem eq_of_library {q : Bytes → Session → Except Fault TagLibrary × Session}
    (hq : c.library = some q) : q = Session.library := by
  unfold library at hq
  split at hq
  · exact (Option.some.inj hq).symm
  · cases hq

end Compiler

namespace Registry

/-- The library that is bound when a loaded one is offered for a uri. -/
def completed (r : Registry) (uri : Bytes) (l : TagLibrary) : Except Fault TagLibrary :=
  if uri == [] then
    .error (TagLibrary.badDescriptor ("library " ++ Quoted.string l.shortName ++ " has no uri"))
  else do
    let tags ← r.completeAll l.tags
    return { l with tags := tags }

/-- The registry with one more library. -/
def binding (r : Registry) (uri : Bytes) (l : TagLibrary) : Registry :=
  { r with bound := r.bound ++ [(uri, l)] }

/-- A uri that is free is bound behind those before. -/
theorem bind_eq {r : Registry} {uri : Bytes} (h : r.find? uri = none) (l : TagLibrary) :
    r.bind uri l = (r.completed uri l).map (r.binding uri) := by
  unfold bind completed
  rw [h]
  cases uri == [] with
  | true => rfl
  | false =>
    cases r.completeAll l.tags with
    | error e => rfl
    | ok tags => rfl

theorem find?_binding {r : Registry} {uri : Bytes} (h : r.find? uri = none) (l : TagLibrary)
    (v : Bytes) : (r.binding uri l).find? v = if v = uri then some l else r.find? v := by
  unfold find? binding at *
  rw [List.lookup_append]
  split
  · next hv =>
      subst hv
      rw [h]
      simp
  · next hv =>
      have hne : (v == uri) = false := beq_eq_false_iff_ne.mpr hv
      rw [List.lookup_cons, hne, List.lookup_nil]
      exact Option.or_none

/-- A uri that is not bound is answered by the library loaded for it, which is bound from then
on. -/
theorem resolve_of_find?_eq_none {r : Registry} {uri : Bytes} (h : r.find? uri = none) :
    r.resolve uri = do
      let l ← r.completed uri (← r.load uri)
      return (l, r.binding uri l) := by
  rw [resolve_eq, h]
  unfold store
  rw [h]
  cases r.load uri with
  | error f => rfl
  | ok l =>
    dsimp only [Except.bind, Bind.bind]
    rw [bind_eq h]
    cases hc : r.completed uri l with
    | error f => rfl
    | ok l' =>
      dsimp only [Except.map, Except.bind, Bind.bind]
      rw [find?_binding h, if_pos rfl]

/-- What is answered for a uri that is not bound. -/
theorem fst_answer_of_find?_eq_none {r : Registry} {uri : Bytes} (h : r.find? uri = none) :
    (r.answer uri).1 = r.load uri >>= r.completed uri := by
  rw [answer_eq, resolve_of_find?_eq_none h]
  cases r.load uri with
  | error f => rfl
  | ok l =>
    simp only [Bind.bind, Except.bind]
    cases r.completed uri l <;> rfl

/-- An answer leaves the registry as it was, or binds the library that is the answer. -/
theorem snd_answer (r : Registry) (uri : Bytes) :
    (r.answer uri).2 = r ∨ r.find? uri = none ∧
      ∃ l, (r.answer uri).1 = .ok l ∧ (r.answer uri).2 = r.binding uri l := by
  cases h : r.find? uri with
  | some l =>
    left
    rw [answer_of_find?_eq_some h]
  | none =>
    rw [answer_eq, resolve_of_find?_eq_none h]
    cases r.load uri with
    | error f => exact Or.inl rfl
    | ok l =>
      cases hc : r.completed uri l with
      | error f =>
        left
        simp only [Bind.bind, Except.bind, hc]
      | ok l' =>
        refine Or.inr ⟨rfl, l', ?_⟩
        simp only [Bind.bind, Except.bind, hc]
        exact ⟨rfl, rfl⟩

/-- The registry with another order of tags. -/
def ordered (r : Registry) (o : MapOrder (Bytes × TagDescriptor)) : Registry :=
  { r with order := o }

/-- An order of a map leaves out no entry and adds none. -/
theorem mem_walk_iff {α : Type} {o o' : MapOrder α} {xs : List α} {x : α} :
    x ∈ o.walk xs ↔ x ∈ o'.walk xs :=
  (o.perm xs).mem_iff.trans (o'.perm xs).mem_iff.symm

/-- Whether some tag has a fault does not depend on the order. -/
theorem firstFault?_ordered_eq_none {r : Registry} {tags : List (Bytes × TagDescriptor)}
    (h : r.firstFault? tags = none) (o : MapOrder (Bytes × TagDescriptor)) :
    (r.ordered o).firstFault? tags = none :=
  List.findSome?_eq_none_iff.mpr fun e he => List.findSome?_eq_none_iff.mp h e (mem_walk_iff.mp he)

/-- Without a fault, the completed tags do not depend on the order. -/
theorem completed_ordered {r : Registry} {o : MapOrder (Bytes × TagDescriptor)} {l : TagLibrary}
    (h : (r.ordered o).firstFault? l.tags = r.firstFault? l.tags) (uri : Bytes) :
    (r.ordered o).completed uri l = r.completed uri l := by
  have htags : (r.ordered o).completeAll l.tags = r.completeAll l.tags := by
    unfold completeAll
    rw [h]
    rfl
  unfold completed
  rw [htags]

/-- Tags that can be completed can be in any order. -/
theorem completed_ordered_eq_ok {r : Registry} {uri : Bytes} {l l' : TagLibrary}
    (h : r.completed uri l = .ok l') (o : MapOrder (Bytes × TagDescriptor)) :
    (r.ordered o).completed uri l = .ok l' := by
  have hnone : r.firstFault? l.tags = none := by
    cases hfault : r.firstFault? l.tags with
    | none => rfl
    | some f =>
      unfold completed completeAll at h
      rw [hfault] at h
      split at h <;> cases h
  rw [completed_ordered ((firstFault?_ordered_eq_none hnone o).trans hnone.symm), h]

/-- The registries give the same answers, in whatever order tags are completed. -/
def AnswersAs (r r' : Registry) : Prop :=
  ∀ o uri, ((r.ordered o).answer uri).1 = ((r'.ordered o).answer uri).1

/-- **An answer does not change the answers after it**, in whatever orders they are found. -/
theorem answersAs_answer (r : Registry) (u : Bytes) : (r.answer u).2.AnswersAs r := by
  intro o v
  rcases snd_answer r u with h | ⟨hu, l, hl, h⟩
  · rw [h]
  have hfind : ((r.binding u l).ordered o).find? v = _ := find?_binding hu l v
  rw [h]
  by_cases hv : v = u
  · subst hv
    rw [if_pos rfl] at hfind
    rw [answer_of_find?_eq_some hfind, fst_answer_of_find?_eq_none (r := r.ordered o) hu]
    rw [fst_answer_of_find?_eq_none hu] at hl
    show _ = r.load v >>= (r.ordered o).completed v
    cases hload : r.load v with
    | error f =>
      rw [hload] at hl
      cases hl
    | ok l' =>
      rw [hload] at hl
      exact (completed_ordered_eq_ok hl o).symm
  · rw [if_neg hv] at hfind
    cases hr : r.find? v with
    | some k =>
      have hr' : (r.ordered o).find? v = some k := hr
      rw [answer_of_find?_eq_some hr', answer_of_find?_eq_some (hfind.trans hr)]
    | none =>
      rw [fst_answer_of_find?_eq_none (hfind.trans hr),
        fst_answer_of_find?_eq_none (r := r.ordered o) hr]
      rfl

/-- A registry keeps its order. -/
theorem order_answer (r : Registry) (u : Bytes) : (answer u r).2.order = r.order := by
  rcases snd_answer r u with h | ⟨-, l, -, h⟩
  · rw [h]
  · rw [h]
    rfl

theorem AnswersAs.fst_answer {r r' : Registry} (h : r.AnswersAs r') (horder : r.order = r'.order)
    (uri : Bytes) : (r.answer uri).1 = (r'.answer uri).1 := by
  have hsame := h r.order uri
  rwa [show r'.ordered r.order = r' by rw [horder]; rfl] at hsame

theorem answer_answer (r : Registry) (u v : Bytes) :
    (answer v (answer u r).2).1 = (answer v r).1 :=
  (answersAs_answer r u).fst_answer (order_answer r u) v

/-- No library that can be loaded has tags that cannot be completed for different reasons. -/
def HidesOrder (r : Registry) : Prop :=
  ∀ uri l, r.load uri = .ok l → ∀ e ∈ l.tags, ∀ e' ∈ l.tags, ∀ f f',
    r.fault? e.2 = some f → r.fault? e'.2 = some f' → f = f'

/-- Then the order of tags does not show. -/
theorem HidesOrder.answer_ordered {r : Registry} (h : r.HidesOrder)
    (o : MapOrder (Bytes × TagDescriptor)) (uri : Bytes) :
    ((r.ordered o).answer uri).1 = (r.answer uri).1 := by
  cases hr : r.find? uri with
  | some k =>
    have hr' : (r.ordered o).find? uri = some k := hr
    rw [answer_of_find?_eq_some hr', answer_of_find?_eq_some hr]
  | none =>
  rw [fst_answer_of_find?_eq_none hr, fst_answer_of_find?_eq_none (r := r.ordered o) hr]
  show r.load uri >>= (r.ordered o).completed uri = _
  cases hl : r.load uri with
  | error f => rfl
  | ok l =>
    refine completed_ordered ?_ uri
    cases hf : r.firstFault? l.tags with
    | none => exact firstFault?_ordered_eq_none hf o
    | some f =>
      cases hf' : (r.ordered o).firstFault? l.tags with
      | none =>
        have hnone : r.firstFault? l.tags = none := firstFault?_ordered_eq_none hf' r.order
        cases hnone.symm.trans hf
      | some f' =>
        obtain ⟨e, he, hf⟩ := List.exists_of_findSome?_eq_some hf
        obtain ⟨e', he', hf'⟩ := List.exists_of_findSome?_eq_some hf'
        rw [h uri l hl e ((r.order.perm _).mem_iff.mp he) e' ((o.perm _).mem_iff.mp he') f f'
          hf hf']

/-! ### Parts of a call -/

/-- Stores a library that was loaded for a uri: the library that is bound then, or why none is, and
the registry afterwards. -/
def keep (uri : Bytes) (l : TagLibrary) (r : Registry) : Except Fault TagLibrary × Registry :=
  match r.store uri l with
  | .ok (l, r) => (.ok l, r)
  | .error f => (.error f, r)

/-- A uri that is not bound is answered by storing the library that is loaded for it. -/
theorem answer_eq_keep {r : Registry} {uri : Bytes} (h : r.find? uri = none) {l : TagLibrary}
    (hl : r.load uri = .ok l) : r.answer uri = r.keep uri l := by
  unfold keep
  rw [answer_eq, resolve_eq, h, hl]
  rfl

/-- A document is added by reading it and registering its library. -/
theorem addDocument_eq (r : Registry) (files : FileTree) (path : Bytes) :
    r.addDocument files path = (files.read path >>= libraryAt path) >>= r.register := rfl

/-- Documents are added one after the other, up to the first fault. -/
theorem addDocuments_cons (r : Registry) (files : FileTree) (path : Bytes) (paths : List Bytes) :
    r.addDocuments files (path :: paths) = match r.addDocument files path with
      | .ok r => r.addDocuments files paths
      | .error f => (r, some f) := by
  unfold addDocuments addDocument
  rw [addDocumentsM]
  cases r.addDocumentM (m := Id) files path <;> rfl

theorem loadAll_eq (r : Registry) (files : FileTree) (directory : Bytes) :
    r.loadAll files directory = match files.walk (FileTree.pathOf directory) with
      | .error f => (r, some f)
      | .ok paths => r.addDocuments files (paths.filter (SlashPath.extension · == ".tld")) := by
  unfold loadAll loadAllM
  simp only [MonadFiles.access, FileAccess.direct, pure_bind]
  cases files.walk (FileTree.pathOf directory) <;> rfl

end Registry

/-! ### Dialogs -/

/-- Surroundings give the same answers where what they remember is related. -/
structure Host.Respects {σ : Type} (host : Host σ) (R : σ → σ → Prop) : Prop where
  library : ∀ q, host.library = some q → ServerPages.Respects R q
  load : ∀ q, host.load = some q → ServerPages.Respects R q
  tagFile : ∀ q, host.tagFile = some q → ServerPages.Respects R q

/-- **A dialog has the same outcome** where what is remembered is related. -/
theorem Dialog.run_respects {α σ : Type} {host : Host σ} {R : σ → σ → Prop}
    (h : host.Respects R) (d : Dialog α) {m m' : σ} (hm : R m m') :
    (d.run host m').1 = (d.run host m).1 ∧ R (d.run host m).2 (d.run host m').2 := by
  induction d generalizing m m' with
  | ended o => exact ⟨rfl, hm⟩
  | library uri next ih =>
    simp only [run]
    cases hq : host.library with
    | none => exact ⟨rfl, hm⟩
    | some q =>
      obtain ⟨hsame, hrelated⟩ := h.library q hq uri m m' hm
      dsimp only
      rw [hsame]
      exact ih _ hrelated
  | file path reason next ih =>
    simp only [run]
    cases hq : host.load with
    | none => exact ⟨rfl, hm⟩
    | some q =>
      obtain ⟨hsame, hrelated⟩ := h.load q hq path m m' hm
      dsimp only
      generalize q path m = r at hsame hrelated
      generalize q path m' = r' at hsame hrelated
      obtain ⟨_, m₁⟩ := r
      obtain ⟨answer, m₁'⟩ := r'
      obtain rfl := hsame
      cases answer with
      | error f => exact ⟨rfl, hrelated⟩
      | ok text => exact ih _ hrelated
  | tag path reason next ih =>
    simp only [run]
    cases hq : host.tagFile with
    | none => exact ⟨rfl, hm⟩
    | some q =>
      obtain ⟨hsame, hrelated⟩ := h.tagFile q hq path m m' hm
      dsimp only
      generalize q path m = r at hsame hrelated
      generalize q path m' = r' at hsame hrelated
      obtain ⟨_, m₁⟩ := r
      obtain ⟨answer, m₁'⟩ := r'
      obtain rfl := hsame
      cases answer with
      | error f => exact ⟨rfl, hrelated⟩
      | ok d => exact ih _ hrelated

/-! ### Sessions that differ in their registries -/

/-- The sessions are the same apart from their registries, which both answer as `registry` does. -/
structure Session.IsTwin (registry : Registry) (s t : Session) : Prop where
  rest : { t with registry := s.registry } = s
  left : s.registry.AnswersAs registry
  right : t.registry.AnswersAs registry
  order : t.registry.order = s.registry.order

namespace Session.IsTwin

variable {registry : Registry} {s t : Session}

/-- A change that has nothing to do with the registry keeps sessions the same. -/
theorem change (h : s.IsTwin registry t) {f : Session → Session}
    (hf : ∀ s r, f { s with registry := r } = { f s with registry := r }) :
    (f s).IsTwin registry (f t) := by
  have hkeeps : ∀ s : Session, (f s).registry = s.registry := fun s =>
    (congrArg Session.registry (hf s s.registry) :)
  have hrest := hf t s.registry
  rw [h.rest] at hrest
  refine ⟨?_, ?_, ?_, ?_⟩
  · rw [hkeeps, ← hrest]
  · rw [hkeeps]
    exact h.left
  · rw [hkeeps]
    exact h.right
  · rw [hkeeps, hkeeps, h.order]

theorem running (h : s.IsTwin registry t) : t.running = s.running :=
  (congrArg Session.running h.rest :)
theorem encodings (h : s.IsTwin registry t) : t.encodings = s.encodings :=
  (congrArg Session.encodings h.rest :)
theorem units (h : s.IsTwin registry t) : t.units = s.units :=
  (congrArg Session.units h.rest :)
theorem signatures (h : s.IsTwin registry t) : t.signatures = s.signatures :=
  (congrArg Session.signatures h.rest :)
theorem auxiliary (h : s.IsTwin registry t) : t.auxiliary = s.auxiliary :=
  (congrArg Session.auxiliary h.rest :)
theorem log (h : s.IsTwin registry t) : t.log = s.log := (congrArg Session.log h.rest :)

end Session.IsTwin

namespace Compile

variable {α β : Type} {registry : Registry}

/-- Two runs have the same outcome, and their sessions are the same apart from their registries. -/
inductive EndAlike (registry : Registry) :
    EStateM.Result Failure Session α → EStateM.Result Failure Session α → Prop where
  | ok {a : α} {s t : Session} (h : s.IsTwin registry t) : EndAlike registry (.ok a s) (.ok a t)
  | error {e : Failure} {s t : Session} (h : s.IsTwin registry t) :
    EndAlike registry (.error e s) (.error e t)

/-- The request does the same whatever libraries were loaded before. -/
def Steady (registry : Registry) (x : Compile α) : Prop :=
  ∀ s t, s.IsTwin registry t → EndAlike registry (x s) (x t)

/-- How the two runs of a steady request end. -/
theorem Steady.ends {x : Compile α} (hx : Steady registry x) {s t : Session}
    (h : s.IsTwin registry t) :
    (∃ a s' t', x s = .ok a s' ∧ x t = .ok a t' ∧ s'.IsTwin registry t') ∨
      ∃ e s' t', x s = .error e s' ∧ x t = .error e t' ∧ s'.IsTwin registry t' := by
  have hend := hx s t h
  generalize x s = r at hend
  generalize x t = r' at hend
  cases hend with
  | ok h => exact .inl ⟨_, _, _, rfl, rfl, h⟩
  | error h => exact .inr ⟨_, _, _, rfl, rfl, h⟩

theorem Steady.pure (a : α) : Steady registry (Pure.pure a) := fun _ _ h => .ok h

theorem Steady.throw (e : Failure) : Steady registry (throw e : Compile α) := fun _ _ h => .error h

theorem Steady.bind {x : Compile α} {f : α → Compile β} (hx : Steady registry x)
    (hf : ∀ a, Steady registry (f a)) : Steady registry (x >>= f) := by
  intro s t h
  simp only [Bind.bind, EStateM.bind]
  obtain ⟨a, s', t', hs, ht, h'⟩ | ⟨e, s', t', hs, ht, h'⟩ := hx.ends h <;> rw [hs, ht]
  · exact hf a s' t' h'
  · exact .error h'

/-- What is done with the session does not look at its registry. -/
theorem Steady.get {f : Session → Compile β} (hf : ∀ s, Steady registry (f s))
    (hsame : ∀ s t, s.IsTwin registry t → f t = f s) :
    Steady registry (MonadStateOf.get >>= f) := by
  intro s t h
  show EndAlike registry (f s s) (f t t)
  rw [hsame s t h]
  exact hf s s t h

theorem Steady.modify {f : Session → Session}
    (hf : ∀ s r, f { s with registry := r } = { f s with registry := r }) :
    Steady registry (modify f : Compile Unit) := fun _ _ h => .ok (h.change hf)

/-- A report in the log is steady. -/
theorem steady_report (level : Level) (message : Bytes) (details : List (Bytes × Detail)) :
    Steady registry (report level message details) := Steady.modify fun _ _ => rfl

theorem steady_ofFault (answer : Except Fault α) : Steady registry (ofFault answer) := by
  cases answer with
  | ok a => exact Steady.pure a
  | error f => exact Steady.throw _

/-- So is an outcome that does not come from the session. -/
theorem steady_ofFailure (answer : Except Failure α) : Steady registry (ofFailure answer) := by
  cases answer with
  | ok a => exact Steady.pure a
  | error e => exact Steady.throw e

theorem Steady.bracket {x : Compile α} {enter leave : Session → Session} (hx : Steady registry x)
    (henter : ∀ s r, enter { s with registry := r } = { enter s with registry := r })
    (hleave : ∀ s r, leave { s with registry := r } = { leave s with registry := r }) :
    Steady registry (bracket enter leave x) := by
  intro s t h
  unfold Compile.bracket
  obtain ⟨a, s', t', hs, ht, h'⟩ | ⟨e, s', t', hs, ht, h'⟩ := hx.ends (h.change henter) <;>
    rw [hs, ht]
  · exact .ok (h'.change hleave)
  · exact .error (h'.change hleave)

theorem Steady.running {x : Compile α} (hx : Steady registry x) (path : Bytes) :
    Steady registry (running path x) := hx.bracket (fun _ _ => rfl) fun _ _ => rfl

theorem Steady.reading {x : Compile α} (hx : Steady registry x) (encoding : Bytes) :
    Steady registry (reading encoding x) := hx.bracket (fun _ _ => rfl) fun _ _ => rfl

theorem Steady.recovering {x : Compile α} (hx : Steady registry x) :
    Steady registry (recovering x) := by
  intro s t h
  unfold Compile.recovering
  obtain ⟨a, s', t', hs, ht, h'⟩ | ⟨e, s', t', hs, ht, h'⟩ := hx.ends h <;> rw [hs, ht]
  · exact .ok h'
  · cases e <;> exact .error h'

theorem Steady.noting {x : Compile α} (hx : Steady registry x) (path message : Bytes) :
    Steady registry (noting path message x) := by
  intro s t h
  unfold Compile.noting
  obtain ⟨a, s', t', hs, ht, h'⟩ | ⟨e, s', t', hs, ht, h'⟩ := hx.ends h <;> rw [hs, ht]
  · exact .ok h'
  · cases e with
    | fault f =>
      exact .error (h'.change (f := fun s => { s with log := _ :: s.log }) fun _ _ => rfl)
    | invariant m => exact .error h'
    | crash => exact .error h'

theorem Steady.outcome {x : Compile α} (hx : Steady registry x) {s t : Session}
    (h : s.IsTwin registry t) :
    (x.outcome t).1 = (x.outcome s).1 ∧ (x.outcome s).2.IsTwin registry (x.outcome t).2 := by
  unfold Compile.outcome
  obtain ⟨a, s', t', hs, ht, h'⟩ | ⟨e, s', t', hs, ht, h'⟩ := hx.ends h <;> rw [hs, ht]
  · exact ⟨rfl, h'⟩
  · exact ⟨rfl, h'⟩

end Compile

namespace Compiler

variable {registry : Registry} (c : Compiler)

open Compile

/-! ### Parts of a request -/

/-- Twins answer alike for libraries. -/
theorem respects_library {q : Bytes → Session → Except Fault TagLibrary × Session}
    (hq : c.library = some q) : Respects (Session.IsTwin registry) q := by
  intro uri s t h
  obtain rfl := c.eq_of_library hq
  rw [Session.library_eq, Session.library_eq]
  have hsame : t.registry.AnswersAs s.registry := fun o v => (h.right o v).trans (h.left o v).symm
  refine ⟨hsame.fst_answer h.order uri, ?_, fun o v => ?_, fun o v => ?_, ?_⟩
  · have hrest := h.rest
    cases t
    cases s
    simp_all
  · exact (Registry.answersAs_answer _ _ o v).trans (h.left o v)
  · exact (Registry.answersAs_answer _ _ o v).trans (h.right o v)
  · exact (Registry.order_answer _ _).trans (h.order.trans (Registry.order_answer _ _).symm)

theorem fallback_eq {s t : Session} (h : s.IsTwin registry t) : c.fallback t = c.fallback s := by
  unfold fallback
  rw [h.encodings]

theorem sourceText_eq {s t : Session} (h : s.IsTwin registry t) (path : Bytes) :
    c.sourceText t path = c.sourceText s path := by
  unfold sourceText sourceTextM
  rw [c.fallback_eq h]

/-- They load alike. -/
theorem respects_load : Respects (Session.IsTwin registry) c.load := by
  intro path s t h
  rw [load_eq, load_eq, c.sourceText_eq h]
  exact ⟨rfl, h⟩

theorem host_respects {describe : Option (Bytes → Compile TagDescriptor)}
    (hd : ∀ d ∈ describe, ∀ path, Steady registry (d path)) :
    (c.host describe).Respects (Session.IsTwin registry) where
  library _ hq := c.respects_library hq
  load _ hq := Option.some.inj hq ▸ c.respects_load
  tagFile q hq := by
    obtain ⟨d, hmem, rfl⟩ := Option.map_eq_some_iff.mp hq
    exact fun path s t h => (hd d hmem path).outcome h

theorem steady_parse (request : ParseRequest) {describe : Option (Bytes → Compile TagDescriptor)}
    (hd : ∀ d ∈ describe, ∀ path, Steady registry (d path)) :
    Steady registry (parse request (c.host describe)) := by
  intro s t h
  obtain ⟨hsame, hrelated⟩ := Dialog.run_respects (c.host_respects hd)
    (request.dialog (c.host describe).questions) h
  unfold parse
  rw [request.parse_eq_run, request.parse_eq_run]
  generalize Dialog.run _ _ s = r at *
  generalize Dialog.run _ _ t = r' at *
  obtain ⟨e | n, s⟩ := r <;> obtain ⟨_, t⟩ := r' <;> obtain rfl := hsame
  · exact .error hrelated
  · exact .ok hrelated

theorem steady_validated (path : Bytes) (tree : Node) :
    Steady registry (c.validated path tree) := by
  intro s t h
  have hrespects : Validation.Env.Respects ⟨c.library, c.options.validation.binder⟩
      (Session.IsTwin registry) := fun q hq => c.respects_library hq
  obtain ⟨htree, hfailure, hmemory⟩ :=
    tree.validate_related c.library c.options.validation hrespects h
  have hset : ∀ u v : Session, (set u : Compile PUnit) v = .ok ⟨⟩ u := fun _ _ => rfl
  rw [validated, bind_get, bind_get, bind_ok (hset _ _), bind_ok (hset _ _), htree, hfailure]
  generalize (tree.validate c.library c.options.validation s).tree = checked
  generalize (tree.validate c.library c.options.validation s).failure = failure
  cases failure with
  | some f => exact .error hmemory
  | none => cases checked.page? <;> exact .ok hmemory

theorem steady_descriptor (path : Bytes) (tree : Node) :
    Steady registry (descriptor path tree) := by
  unfold descriptor
  split
  · exact .pure _
  · exact .throw _

/-- Reading a signature is steady. -/
theorem steady_signature (path : Bytes) : Steady registry (c.signature path) := by
  refine .recovering (.get (fun s => ?_) fun s t h => ?_)
  · rw [asking_sourceTextM]
    refine (steady_ofFault _).bind fun source => ?_
    refine (c.steady_parse _ (by simp)).bind fun tree => ?_
    exact (c.steady_validated _ tree).bind fun tree => steady_descriptor _ tree
  · rw [asking_sourceTextM, asking_sourceTextM, c.sourceText_eq h]

/-! ### Requests -/

/-- Compiling a unit is steady, if describing its tag files is. -/
theorem steady_compileUnit {describe : Bytes → Compile TagDescriptor}
    (hd : ∀ path, Steady registry (describe path)) (path raw : Bytes) (form : PageSyntax) :
    Steady registry (c.compileUnit describe path raw form) := by
  refine .running (.recovering (.get (fun s => ?_) fun s t h => ?_)) path
  · refine (steady_ofFault _).bind fun source => .reading ?_ _
    refine (steady_report _ _ _).bind fun _ => ?_
    refine (Steady.noting (c.steady_parse _ fun d hmem => ?_) _ _).bind fun tree => ?_
    · obtain rfl := Option.some.inj hmem
      exact hd
    refine (Steady.noting (c.steady_validated path tree) _ _).bind fun tree => ?_
    refine .get (fun s => ?_) fun s t h => by rw [h.log]
    refine (Steady.noting (steady_ofFailure _) _ _).bind fun code => ?_
    exact (steady_report _ _ _).bind fun _ => .pure _
  · rw [c.fallback_eq h]

theorem steady_keepSignature (path : Bytes) (u : CompiledUnit) :
    Steady registry (keepSignature path u) :=
  (steady_descriptor path u.tree).bind fun _ =>
    (Steady.modify fun _ _ => rfl).bind fun _ => .pure _

/-- Describing a tag file is steady, if compiling it is. -/
theorem steady_describe {compile : Bytes → Bytes → PageSyntax → Compile CompiledUnit}
    (hcompile : ∀ path raw form, Steady registry (compile path raw form)) (path : Bytes) :
    Steady registry (c.describe compile path) := by
  refine .get (fun s => ?_) fun s t h => ?_
  · split
    · exact .pure _
    · exact steady_keepSignature _ _
    · split
      · exact (steady_report _ _ _).bind fun _ => c.steady_signature _
      · rw [asking_readFileM]
        refine (steady_ofFault _).bind fun raw => ?_
        refine (Steady.noting (hcompile _ _ _) _ _).bind fun u => ?_
        exact (Steady.modify fun _ _ => rfl).bind fun _ => steady_keepSignature _ _
  · rw [h.signatures, h.units, h.running]

/-- So it is, however deep tag files nest. -/
theorem steady_describeWithin (fuel : Nat) (path : Bytes) :
    Steady registry (c.describeWithin fuel path) := by
  induction fuel generalizing path with
  | zero => exact .throw _
  | succ fuel ih => exact c.steady_describe (c.steady_compileUnit ih) path

/-- A request is steady. -/
theorem steady_run (path raw : Bytes) (form : PageSyntax) :
    Steady registry (c.run path raw form) := by
  refine .get (fun s => ?_) fun s t h => ?_
  · refine (c.steady_compileUnit (c.steady_describeWithin _) path raw form).bind fun u => ?_
    exact .get (fun _ => .pure _) fun s t h => by rw [h.auxiliary]
  · rw [h.auxiliary]

/-- **Whatever was loaded before, compiling bytes as a page has the same outcome.** -/
theorem steady_compileSource (path raw : Bytes) (form : PageSyntax) :
    Steady registry (c.compileSource path raw form) := c.steady_run _ _ _

end Compiler

end ServerPages
