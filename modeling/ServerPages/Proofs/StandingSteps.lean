import ServerPages.Parsing.Document
import ServerPages.Proofs.AdmittedChildren

/-!
# Steps that do not read

Most of what the parsers of both syntaxes share does not read: heads, attributes, checks and texts
are made from what was read before. Such a step rests: it leaves the state as it is. A step that
asks for a library or for the tag of a tag file changes only what the host remembers. A directive
binds a prefix or switches the expression language, and still the parser stands where it stood: the
place in the sources, the files being read and the document are as they were, and prefixes are bound
only to libraries that the host tells.

## Main results

* `rests_addAttribute`, `rests_textNodes`: attributes and texts are made resting.
* `asks_tagHead`: the head of an invocation is made by asking.
* `tells_library`: the libraries that are bound are those that the host tells.
-/

namespace ServerPages

/-- The host gives the library for some uri. -/
def Host.Tells {σ : Type} (host : Host σ) (l : TagLibrary) : Prop :=
  ∃ q uri m, host.library = some q ∧ (q uri m).1 = .ok l

namespace Parsing

variable {σ α β : Type} {host : Host σ}

/-! ### Steps that rest -/

/-- The step leaves the state as it is. -/
def Rests (x : Parse σ α) : Prop := ∀ s a t, x s = .ok a t → t = s

theorem Rests.pure (a : α) : Rests (Pure.pure a : Parse σ α) := by
  rintro s b t ⟨⟩
  rfl

theorem Rests.throw (e : Failure) : Rests (throw e : Parse σ α) := by
  rintro s a t ⟨⟩

theorem rests_refuse (issue : Issue) (p : Position) (m : Bytes) :
    Rests (refuse issue p m : Parse σ α) := Rests.throw _

theorem Rests.bind {x : Parse σ α} {f : α → Parse σ β} (hx : Rests x) (hf : ∀ a, Rests (f a)) :
    Rests (x >>= f) := by
  intro s b t h
  obtain ⟨a, u, hxa, hfb⟩ := bind_eq_ok h
  exact (hf a u b t hfb).trans (hx s a u hxa)

theorem Rests.get {f : State σ → Parse σ β} (hf : ∀ s, Rests (f s)) :
    Rests (MonadStateOf.get >>= f) :=
  fun s b t h => hf s s b t h

theorem Rests.ite {c : Prop} [Decidable c] {x y : Parse σ α} (hx : Rests x) (hy : Rests y) :
    Rests (if c then x else y) := by
  split
  · exact hx
  · exact hy

theorem Rests.guard {c : Prop} [Decidable c] {x : Parse σ Unit} {f : Unit → Parse σ β}
    (hx : Rests x) (hf : ∀ a, Rests (f a)) : Rests (if c then x >>= f else f ()) :=
  Rests.ite (hx.bind hf) (hf ())

theorem rests_position : Rests (position : Parse σ Position) := by
  rintro s a t ⟨⟩
  rfl

/-! #### Heads -/

theorem rests_directiveHead (name : Bytes) (p : Position) (scriptless : Bool) :
    Rests (directiveHead name p scriptless : Parse σ Head) := by
  unfold directiveHead
  split
  · exact rests_refuse _ _ _
  · exact Rests.pure _

theorem rests_actionHead (name : Bytes) (p : Position) (scriptless : Bool) :
    Rests (actionHead name p scriptless : Parse σ Head) := by
  unfold actionHead
  split
  · exact rests_refuse _ _ _
  · exact Rests.pure _

/-! #### Texts -/

theorem rests_scriptingNode (kind : Kind) (code : Bytes) (p : Position) (scriptless : Bool) :
    Rests (scriptingNode kind code p scriptless : Parse σ Node) :=
  Rests.ite (rests_refuse _ _ _) (Rests.pure _)

theorem rests_elNode (uriOf : Bytes → Bytes) (source : Bytes) (p : Position) (scriptless : Bool) :
    Rests (elNode uriOf source p scriptless : Parse σ Node) := by
  unfold elNode
  split
  · exact rests_refuse _ _ _
  · exact Rests.pure _

theorem rests_segmentNodes (uriOf : Bytes → Bytes) (s : Bytes) (p : Position) (scriptless : Bool)
    (siblings : List Node) (segs : List Expression.Segment) :
    Rests (segmentNodes uriOf s p scriptless siblings segs : Parse σ (List Node)) := by
  induction segs generalizing siblings with
  | nil => exact Rests.pure _
  | cons seg segs ih =>
    rw [segmentNodes]
    exact Rests.ite ((rests_elNode _ _ _ _).bind fun n => ih _) (ih _)

theorem rests_textNodes (uriOf : Bytes → Bytes) (siblings : List Node) (s : Bytes) (p : Position)
    (scriptless allowEl : Bool) :
    Rests (textNodes uriOf siblings s p scriptless allowEl : Parse σ (List Node)) := by
  refine Rests.ite (Rests.pure _) (Rests.get fun t => ?_)
  refine Rests.ite (Rests.pure _) (Rests.ite (Rests.pure _) ?_)
  split
  · exact rests_refuse _ _ _
  · exact rests_segmentNodes _ _ _ _ _ _

/-! #### Attributes -/

theorem rests_attributeOf (functionUri : Bytes → Bytes) (h : Head) (a : Attribute) (raw : Bytes)
    (script scriptless : Bool) :
    Rests (attributeOf functionUri h a raw script scriptless : Parse σ Attribute) := by
  refine Rests.get fun s => Rests.ite (Rests.pure _) (Rests.ite ?_ (Rests.ite ?_ (Rests.pure _)))
  · exact Rests.guard (rests_refuse _ _ _) fun _ => Rests.pure _
  · split
    · exact rests_refuse _ _ _
    · exact Rests.pure _

theorem rests_addAttribute (functionUri : Bytes → Bytes) (uriOf : Option (Bytes → Bytes)) (h : Head)
    (name raw : Bytes) (script : Bool) (p : Position) (scriptless : Bool) :
    Rests (addAttribute functionUri uriOf h name raw script p scriptless : Parse σ Head) := by
  refine Rests.guard (rests_refuse _ _ _) fun _ => Rests.guard (rests_refuse _ _ _) fun _ => ?_
  exact (rests_attributeOf _ _ _ _ _ _).bind fun _ => Rests.pure _

/-- The attributes of a start tag are made without reading. -/
theorem Document.rests_addAttributes (ns : Namespaces) (p : Position) (scriptless : Bool) (h : Head)
    (as : List Markup.Attribute) :
    Rests (addAttributes ns p scriptless h as : Parse σ Head) := by
  induction as generalizing h with
  | nil => exact Rests.pure _
  | cons a as ih => exact Rests.ite (ih h) ((rests_addAttribute _ _ _ _ _ _ _ _).bind ih)

/-! #### Content models -/

theorem rests_checkPlacement (parent h : Head) : Rests (checkPlacement parent h : Parse σ Unit) :=
  Rests.ite (Rests.pure _) (rests_refuse _ _ _)

theorem rests_checkNamedBody (h : Head) (children : List Node) :
    Rests (checkNamedBody h children : Parse σ Unit) := by
  refine Rests.ite (Rests.pure _) ?_
  split
  · exact Rests.pure _
  · exact rests_refuse _ _ _

theorem rests_checkActionBody (h : Head) (children : List Node) :
    Rests (checkActionBody h children : Parse σ Unit) := by
  unfold checkActionBody
  split
  · exact rests_checkNamedBody h children
  split
  · exact Rests.pure _
  · exact Rests.ite (rests_refuse _ _ _) (rests_refuse _ _ _)

theorem rests_checkTagBody (h : Head) (children : List Node) :
    Rests (checkTagBody h children : Parse σ Unit) :=
  (rests_checkNamedBody h children).bind fun _ => Rests.ite (rests_refuse _ _ _) (Rests.pure _)

theorem rests_bodyElementContent (parent : Head) (p : Position) :
    Rests (bodyElementContent parent p : Parse σ BodyContent) := by
  unfold bodyElementContent
  refine Rests.guard (rests_refuse _ _ _) fun _ => ?_
  exact Rests.guard (rests_refuse _ _ _) fun _ => Rests.pure _

/-! ### Steps that ask -/

/-- The step changes only what the host remembers. -/
def Asks (x : Parse σ α) : Prop := ∀ s a t, x s = .ok a t → ∃ m, t = { s with memory := m }

theorem Rests.asks {x : Parse σ α} (hx : Rests x) : Asks x := fun s a t h => ⟨s.memory, hx s a t h⟩

theorem Asks.bind {x : Parse σ α} {f : α → Parse σ β} (hx : Asks x) (hf : ∀ a, Asks (f a)) :
    Asks (x >>= f) := by
  intro s b t h
  obtain ⟨a, u, hxa, hfb⟩ := bind_eq_ok h
  obtain ⟨m, rfl⟩ := hx s a u hxa
  obtain ⟨m', ht⟩ := hf a _ b t hfb
  exact ⟨m', ht⟩

theorem asks_ask {ε : Type} (question : σ → Except ε α × σ) : Asks (ask question) := by
  rintro s a t ⟨⟩
  exact ⟨_, rfl⟩

theorem asks_library (env : Env σ) (uri : Bytes) (p : Position) :
    Asks (library env uri p) := by
  unfold library
  split
  · exact (rests_refuse _ _ _).asks
  refine (asks_ask _).bind fun answer => ?_
  split
  · exact (Rests.pure _).asks
  · exact (rests_refuse _ _ _).asks

theorem Document.asks_library? (env : Env σ) (uri : Bytes) (p : Position) :
    Asks (library? env uri p) := by
  unfold library?
  split
  · exact (Rests.pure _).asks
  split
  · exact (Rests.pure _).asks
  refine (asks_ask _).bind fun answer => ?_
  split
  · exact (Rests.pure _).asks
  · exact (Rests.guard (rests_refuse _ _ _) fun _ => Rests.pure _).asks

theorem asks_tagDescriptor (env : Env σ) (l : TagLibrary) (uri prefixName name : Bytes)
    (p : Position) : Asks (tagDescriptor env l uri prefixName name p) := by
  unfold tagDescriptor
  split
  · exact (Rests.pure _).asks
  · exact (rests_refuse _ _ _).asks
  split
  · exact (rests_refuse _ _ _).asks
  refine (asks_ask _).bind fun answer => ?_
  split
  · exact (Rests.pure _).asks
  · exact (Rests.ite (Rests.throw _) (rests_refuse _ _ _)).asks
  · exact (Rests.throw _).asks

theorem asks_tagHead (env : Env σ) (l : TagLibrary) (uri prefixName name : Bytes) (p : Position)
    (scriptless : Bool) : Asks (tagHead env l uri prefixName name p scriptless) :=
  (asks_tagDescriptor env l uri prefixName name p).bind fun _ => (Rests.pure _).asks

/-- A library that is asked for is one that the host tells. -/
theorem tells_library (env : Env σ) (uri : Bytes) (p : Position) :
    Returns env.host.Tells (library env uri p) := by
  unfold library
  split
  · exact returns_refuse _ _ _
  next q hq =>
  intro s l t h
  obtain ⟨answer, u, hanswer, h⟩ := bind_eq_ok h
  obtain ⟨rfl, -⟩ := EStateM.Result.ok.inj hanswer
  cases hl : (q uri s.memory).1 with
  | error f =>
    rw [hl] at h
    cases h
  | ok l' =>
    rw [hl] at h
    cases h
    exact ⟨q, uri, s.memory, hq, hl⟩

/-- The library defines a tag whose contract is found. -/
theorem hasTag_of_tagDescriptor (env : Env σ) (l : TagLibrary) (uri prefixName name : Bytes)
    (p : Position) :
    Returns (fun _ => l.hasTag name = true) (tagDescriptor env l uri prefixName name p) := by
  unfold tagDescriptor TagLibrary.hasTag
  split
  · next d hd => exact fun _ _ _ _ => by rw [hd]; rfl
  · exact returns_refuse _ _ _
  · next hfile => exact fun _ _ _ _ => by rw [hfile]; simp

/-! ### Steps that stand -/

/-- The state `t` stands where `s` does, and has at most bound further libraries that the host
tells. -/
structure State.StandsWith (host : Host σ) (s t : State σ) : Prop where
  place : t.cursor.place = s.cursor.place
  outer : t.cursor.outer = s.cursor.outer
  files : t.files = s.files
  document : t.document = s.document
  passed : t.passed = s.passed
  bindings : ∀ p ∈ t.bindings, p ∈ s.bindings ∨ host.Tells p.2.library

theorem State.StandsWith.refl (s : State σ) : s.StandsWith host s :=
  ⟨rfl, rfl, rfl, rfl, rfl, fun _ => .inl⟩

theorem State.StandsWith.trans {s t u : State σ} (h : s.StandsWith host t)
    (h' : t.StandsWith host u) : s.StandsWith host u where
  place := h'.place.trans h.place
  outer := h'.outer.trans h.outer
  files := h'.files.trans h.files
  document := h'.document.trans h.document
  passed := h'.passed.trans h.passed
  bindings p hp := (h'.bindings p hp).elim (h.bindings p) .inr

/-- The step stands where it is run. -/
def Stands (host : Host σ) (x : Parse σ α) : Prop :=
  ∀ s a t, x s = .ok a t → s.StandsWith host t

theorem Stands.pure (a : α) : Stands host (Pure.pure a : Parse σ α) := by
  rintro s b t ⟨⟩
  exact .refl s

theorem Stands.bind {x : Parse σ α} {f : α → Parse σ β} (hx : Stands host x)
    (hf : ∀ a, Stands host (f a)) : Stands host (x >>= f) := by
  intro s b t h
  obtain ⟨a, u, hxa, hfb⟩ := bind_eq_ok h
  exact (hx s a u hxa).trans (hf a u b t hfb)

theorem Stands.get {f : State σ → Parse σ β} (hf : ∀ s, Stands host (f s)) :
    Stands host (MonadStateOf.get >>= f) :=
  fun s b t h => hf s s b t h

theorem Stands.ite {c : Prop} [Decidable c] {x y : Parse σ α} (hx : Stands host x)
    (hy : Stands host y) : Stands host (if c then x else y) := by
  split
  · exact hx
  · exact hy

theorem Stands.guard {c : Prop} [Decidable c] {x : Parse σ Unit} {f : Unit → Parse σ β}
    (hx : Stands host x) (hf : ∀ a, Stands host (f a)) :
    Stands host (if c then x >>= f else f ()) :=
  Stands.ite (hx.bind hf) (hf ())

/-- What is changed beside the place does not matter. -/
theorem Stands.modify {g : State σ → State σ} (hg : ∀ s : State σ, s.StandsWith host (g s)) :
    Stands host (modify g : Parse σ PUnit) := by
  rintro s a t ⟨⟩
  exact hg s

theorem Rests.stands {x : Parse σ α} (hx : Rests x) : Stands host x := by
  intro s a t h
  obtain rfl := hx s a t h
  exact .refl t

theorem Asks.stands {x : Parse σ α} (hx : Asks x) : Stands host x := by
  intro s a t h
  obtain ⟨m, rfl⟩ := hx s a t h
  exact ⟨rfl, rfl, rfl, rfl, rfl, fun _ => .inl⟩

theorem stands_bindPrefix (env : Env σ) (prefixName uri : Bytes) (p : Position) :
    Stands env.host (bindPrefix env prefixName uri p) := by
  have hbind : Stands env.host (do
      let l ← library env uri p
      modify fun s => { s with bindings := (prefixName, ⟨uri, l⟩) :: s.bindings } :
        Parse σ Unit) := by
    intro s a t h
    obtain ⟨l, u, hl, h⟩ := bind_eq_ok h
    cases h
    have hstands : s.StandsWith env.host u := (asks_library env uri p).stands s l u hl
    refine hstands.trans ⟨rfl, rfl, rfl, rfl, rfl, fun b hb => ?_⟩
    rcases List.mem_cons.mp hb with rfl | hb
    · exact .inr (tells_library env uri p s l u hl)
    · exact .inl hb
  refine Stands.guard (rests_refuse _ _ _).stands fun _ => Stands.get fun s => ?_
  dsimp only
  split
  · exact Stands.guard (rests_refuse _ _ _).stands fun _ => hbind
  · exact hbind

theorem stands_applyElIgnored (h : Head) : Stands host (applyElIgnored h : Parse σ Unit) := by
  unfold applyElIgnored
  split
  · exact Stands.modify fun s => ⟨rfl, rfl, rfl, rfl, rfl, fun _ => .inl⟩
  · exact Stands.pure _

theorem stands_applyTaglib (env : Env σ) (h : Head) : Stands env.host (applyTaglib env h) := by
  unfold applyTaglib
  refine Stands.guard (rests_refuse _ _ _).stands fun _ => ?_
  dsimp only
  split
  · exact stands_bindPrefix env _ _ _
  · exact stands_bindPrefix env _ _ _
  · exact (rests_refuse _ _ _).stands

end Parsing

end ServerPages
