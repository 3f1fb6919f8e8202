import ServerPages.Proofs.TagPrograms

/-!
# What steps of generation write

`Writes x y s Q` says what a step does that succeeds: it writes some code, which satisfies `Q` with
the value and the state that the step ends with, and what the unit shares has only grown. The step
`x` is accompanied by a second one, `y`, that is the same but for the nested nodes, which it may
generate in another way; `y` then does the same as `x`.

There is one rule for each way to put steps together and one for each primitive step, so that the
code of a function of the generator is read off its text.
-/

namespace ServerPages.Generation

/-- What a unit shares has grown. -/
structure State.Later (s t : State) : Prop where
  sequence : s.sequence ≤ t.sequence
  texts : s.texts <+: t.texts
  expressions : s.expressions <+: t.expressions

namespace State.Later

theorem refl (s : State) : s.Later s := ⟨Nat.le_refl _, List.prefix_rfl, List.prefix_rfl⟩

theorem trans {s t u : State} (h : s.Later t) (h' : t.Later u) : s.Later u :=
  ⟨Nat.le_trans h.sequence h'.sequence, h.texts.trans h'.texts, h.expressions.trans h'.expressions⟩

end State.Later

/-- Where the step `x` succeeds from `s`, the step `y` does the same, what the unit shares has
grown, and the code that was written satisfies `Q`. -/
def Writes {α : Type} (x y : Gen α) (s : State) (Q : α → State → Code → Prop) : Prop :=
  ∀ a t, x s = .ok a t →
    y s = .ok a t ∧ s.Later t ∧ ∃ c : Code, t.desk = c.replay s.desk ∧ Q a t c

section Rules

variable {α β : Type} {s : State} {Q : α → State → Code → Prop} {R : β → State → Code → Prop}

theorem Writes.pure {a : α} (h : Q a s .nil) :
    Writes (Pure.pure a : Gen α) (Pure.pure a) s Q := by
  rintro b t hb
  cases hb
  exact ⟨rfl, .refl s, .nil, rfl, h⟩

theorem Writes.throw (e : Failure) (y : Gen α) : Writes (throw e) y s Q := by
  intro b t hb
  cases hb

/-- One step after another writes one code after another. -/
theorem Writes.bind {x y : Gen α} {f g : α → Gen β} (hx : Writes x y s Q)
    (hf : ∀ a t c, s.Later t → Q a t c → Writes (f a) (g a) t fun b u d => R b u (c ++ d)) :
    Writes (x >>= f) (y >>= g) s R := by
  intro b u hb
  obtain ⟨a, t, hxs, hft⟩ := bind_eq_ok hb
  obtain ⟨hy, hst, c, hc, hq⟩ := hx a t hxs
  obtain ⟨hg, htu, d, hd, hr⟩ := hf a t c hst hq b u hft
  refine ⟨?_, hst.trans htu, c ++ d, ?_, hr⟩
  · rw [bind_ok hy, hg]
  · rw [Code.replay_append, ← hc, hd]

theorem Writes.mono {x y : Gen α} {Q' : α → State → Code → Prop} (hx : Writes x y s Q)
    (h : ∀ a t c, s.Later t → Q a t c → Q' a t c) : Writes x y s Q' := by
  intro a t ha
  obtain ⟨hy, hst, c, hc, hq⟩ := hx a t ha
  exact ⟨hy, hst, c, hc, h a t c hst hq⟩

theorem Writes.get {f g : State → Gen β} (hf : Writes (f s) (g s) s R) :
    Writes (get >>= f) (get >>= g) s R := hf

theorem Writes.ite {p : Prop} [Decidable p] {x y x' y' : Gen α} (hx : p → Writes x y s Q)
    (hx' : ¬p → Writes x' y' s Q) :
    Writes (if p then x else x') (if p then y else y') s Q := by
  by_cases h : p
  · rw [if_pos h, if_pos h]
    exact hx h
  · rw [if_neg h, if_neg h]
    exact hx' h

/-- A step for each element of a list, in order. -/
theorem Writes.forM_cons {f g : α → Gen PUnit} {a : α} {as : List α}
    {Q : PUnit → State → Code → Prop}
    (h : Writes (f a >>= fun _ => as.forM f) (g a >>= fun _ => as.forM g) s Q) :
    Writes ((a :: as).forM f) ((a :: as).forM g) s Q := h

/-! ### Steps that write nothing -/

theorem Writes.modifyGet {f : State → α × State} (hlater : s.Later (f s).2)
    (hdesk : (f s).2.desk = s.desk) (h : Q (f s).1 (f s).2 .nil) :
    Writes (modifyGet f : Gen α) (modifyGet f) s Q := by
  intro a t ha
  rw [run_modifyGet] at ha
  cases ha
  exact ⟨run_modifyGet f s, hlater, .nil, hdesk, h⟩

theorem Writes.modify {f : State → State} {Q : PUnit → State → Code → Prop}
    (hlater : s.Later (f s)) (hdesk : (f s).desk = s.desk) (h : Q () (f s) .nil) :
    Writes (modify f : Gen PUnit) (modify f) s Q := Writes.modifyGet hlater hdesk h

end Rules

/-! ### Lines -/

section Lines

variable {β : Type} {s : State} {Q : Unit → State → Code → Prop} {R : β → State → Code → Prop}

/-- The state with another writer in its place. -/
def State.withOut (s : State) (w : Writer) : State := { s with place := { s.place with out := w } }

theorem State.later_withOut (s : State) (w : Writer) : s.Later (s.withOut w) :=
  ⟨Nat.le_refl _, List.prefix_rfl, List.prefix_rfl⟩

/-- A line changes nothing but the current writer. -/
theorem Writes.emit_out (l : Statement) {x : Bytes} (hl : l.text = x)
    (h : ∀ w, Q () (s.withOut w) (.line l .nil)) : Writes (emit x) (emit x) s Q := by
  subst hl
  intro a t ha
  cases ha
  exact ⟨rfl, s.later_withOut _, .line l .nil, rfl, h _⟩

theorem Writes.emit (l : Statement) {x : Bytes} (hl : l.text = x)
    (h : ∀ t, s.Later t → Q () t (.line l .nil)) : Writes (emit x) (emit x) s Q :=
  .emit_out l hl fun w => h _ (s.later_withOut w)

theorem Writes.indent (h : ∀ t, s.Later t → Q () t (.indent .nil)) : Writes indent indent s Q := by
  intro a t ha
  cases ha
  exact ⟨rfl, s.later_withOut _, .indent .nil, rfl, h _ (s.later_withOut _)⟩

theorem Writes.outdent (h : ∀ t, s.Later t → Q () t (.outdent .nil)) :
    Writes outdent outdent s Q := by
  intro a t ha
  have hrun := ha
  unfold Generation.outdent at ha
  rw [bind_get] at ha
  cases hout : s.place.out.outdented? with
  | none =>
    rw [hout] at ha
    cases ha
  | some w =>
    rw [hout] at ha
    cases ha
    have hw : w = { s.place.out with indent := s.place.out.indent - 1 } := by
      unfold Writer.outdented? at hout
      split at hout
      · cases hout
      · next n hn =>
        rw [hn, ← Option.some.inj hout]
        rfl
    refine ⟨hrun, s.later_withOut w, .outdent .nil, ?_, h _ (s.later_withOut w)⟩
    rw [hw]
    rfl

variable {f g : Unit → Gen β}

theorem Writes.line_bind (l : Statement) {x : Bytes} (hl : l.text = x)
    (h : ∀ w, Writes (f ()) (g ()) (s.withOut w) fun b u d => R b u (.line l d)) :
    Writes (Generation.emit x >>= f) (Generation.emit x >>= g) s R := by
  refine Writes.bind (Q := fun _ t c => (∃ w, t = s.withOut w) ∧ c = .line l .nil) ?_ ?_
  · exact .emit_out l hl fun w => ⟨⟨w, rfl⟩, rfl⟩
  · rintro _ _ _ - ⟨⟨w, rfl⟩, rfl⟩
    exact h w

theorem Writes.emit_bind (l : Statement) {x : Bytes} (hl : l.text = x)
    (h : ∀ t, s.Later t → Writes (f ()) (g ()) t fun b u d => R b u (.line l d)) :
    Writes (Generation.emit x >>= f) (Generation.emit x >>= g) s R :=
  .line_bind l hl fun w => h _ (s.later_withOut w)

theorem Writes.outdent_bind
    (h : ∀ t, s.Later t → Writes (f ()) (g ()) t fun b u d => R b u (.outdent d)) :
    Writes (Generation.outdent >>= f) (Generation.outdent >>= g) s R := by
  refine Writes.bind (Q := fun _ t c => s.Later t ∧ c = .outdent .nil)
    (.outdent fun t ht => ⟨ht, rfl⟩) ?_
  rintro _ t _ - ⟨ht, rfl⟩
  exact h t ht

theorem Writes.openBlock_bind (l : Statement) {x : Bytes} (hl : l.text = x)
    (h : ∀ t, s.Later t → Writes (f ()) (g ()) t fun b u d => R b u (.line l (.indent d))) :
    Writes (openBlock x >>= f) (openBlock x >>= g) s R := by
  have hstep : ∀ k : Unit → Gen β,
      (openBlock x >>= k) = (Generation.emit x >>= fun _ => Generation.indent >>= k) := fun _ => rfl
  rw [hstep, hstep]
  refine .emit_bind l hl fun t ht => ?_
  refine Writes.bind (Q := fun _ u c => t.Later u ∧ c = .indent .nil)
    (.indent fun u hu => ⟨hu, rfl⟩) ?_
  rintro _ u _ - ⟨hu, rfl⟩
  exact h u (ht.trans hu)

theorem Writes.closeBlock {x : Bytes}
    (h : ∀ t, s.Later t → Q () t (.outdent (.line (.control x) .nil))) :
    Writes (closeBlock x) (closeBlock x) s Q := by
  refine .outdent_bind fun t ht => .emit (.control x) rfl fun u hu => ?_
  exact h u (ht.trans hu)

theorem Writes.closeBlock_bind {x : Bytes}
    (h : ∀ t, s.Later t →
      Writes (f ()) (g ()) t fun b u d => R b u (.outdent (.line (.control x) d))) :
    Writes (Generation.closeBlock x >>= f) (Generation.closeBlock x >>= g) s R := by
  refine Writes.bind (Q := fun _ t c => s.Later t ∧ c = .outdent (.line (.control x) .nil))
    (.closeBlock fun t ht => ⟨ht, rfl⟩) ?_
  rintro _ t _ - ⟨ht, rfl⟩
  exact h t ht

theorem Writes.returning {x : Bytes} (h : ∀ t, s.Later t → Q () t (Code.returning x)) :
    Writes (returning x) (returning x) s Q := by
  refine .openBlock_bind (.control x) rfl fun t ht => ?_
  refine .emit_bind (.control "return err") rfl fun u hu => .closeBlock fun v hv => ?_
  exact h v ((ht.trans hu).trans hv)

theorem Writes.returning_bind {x : Bytes}
    (h : ∀ t, s.Later t → Writes (f ()) (g ()) t fun b u d => R b u (Code.returning x ++ d)) :
    Writes (Generation.returning x >>= f) (Generation.returning x >>= g) s R := by
  refine Writes.bind (Q := fun _ t c => s.Later t ∧ c = Code.returning x)
    (.returning fun t ht => ⟨ht, rfl⟩) ?_
  rintro _ t _ - ⟨ht, rfl⟩
  exact h t ht

theorem Writes.emitAll (ls : List Statement) {xs : List Bytes} (hls : ls.map (·.text) = xs)
    (h : ∀ t, s.Later t → Q () t (Code.lines ls)) : Writes (emitAll xs) (emitAll xs) s Q := by
  subst hls
  induction ls generalizing s Q with
  | nil => exact .pure (h s (.refl s))
  | cons l ls ih =>
    refine .emit_bind l rfl fun t ht => ih fun u hu => ?_
    exact h u (ht.trans hu)

end Lines

/-! ### Parts, methods and fragments -/

section Frames

variable {s : State} {x y : Gen Unit} {P Q : Unit → State → Code → Prop}

/-- The state with other variables declared around its place. -/
def State.withBlocks (s : State) (b : Blocks) : State :=
  { s with place := { s.place with blocks := b } }

/-- The state with other tags open at its place. -/
def State.withHandlers (s : State) (hs : List Bytes) : State :=
  { s with place := { s.place with handlers := hs } }

/-- The state after the begin of a node. -/
def State.begun (s : State) (k : Nat) : State :=
  { s.withOut (s.place.out.begin k s.spans).1 with spans := (s.place.out.begin k s.spans).2 }

/-- The state in a function of its own. -/
def State.inFunction (s : State) (w : Writer) : State :=
  { s with place := { out := w, parent := "parent" } }

/-! What a step that succeeds in a frame has done inside it, and how the frame is left. -/

theorem inBlock_eq_ok {a : Unit} {t : State} : inBlock x s = .ok a t ↔
    ∃ u, x (s.withBlocks ([] :: s.place.blocks)) = .ok () u ∧
      t = u.withBlocks (u.place.blocks.drop 1) := by
  constructor
  · intro h
    obtain ⟨b, u, hxu, hpop⟩ : ∃ b u, x (s.withBlocks ([] :: s.place.blocks)) = .ok b u ∧
        EStateM.Result.ok () (u.withBlocks (u.place.blocks.drop 1)) = .ok a t :=
      bind_eq_ok (x := x) h
    cases hpop
    exact ⟨u, hxu, rfl⟩
  · rintro ⟨u, hxu, rfl⟩
    exact bind_ok (x := x) (s := s.withBlocks ([] :: s.place.blocks)) hxu

theorem insideTag_eq_ok {handler : Bytes} {a : Unit} {t : State} :
    insideTag handler x s = .ok a t ↔
      ∃ u, x (s.withHandlers (handler :: s.place.handlers)) = .ok () u ∧
        t = u.withHandlers (u.place.handlers.drop 1) := by
  have hopen : insideTag handler x s =
      closeTag (x (s.withHandlers (handler :: s.place.handlers))) := rfl
  rw [hopen]
  rcases x (s.withHandlers (handler :: s.place.handlers)) with ⟨b, u⟩ | ⟨e, u⟩
  · constructor
    · rintro ⟨⟩
      exact ⟨u, rfl, rfl⟩
    · rintro ⟨v, ⟨⟩, rfl⟩
      rfl
  · refine iff_of_false (fun h => ?_) fun ⟨v, h, _⟩ => by cases h
    rw [closeTag] at h
    split at h <;> cases h

theorem marking_eq_ok {k : Nat} {a : Unit} {t : State} : marking k x s = .ok a t ↔
    ∃ u, x (s.begun k) = .ok () u ∧ t = { u with spans := u.place.out.finish k u.spans } := by
  constructor
  · intro h
    obtain ⟨b, u, hxu, hend⟩ : ∃ b u, x (s.begun k) = .ok b u ∧
        EStateM.Result.ok () { u with spans := u.place.out.finish k u.spans } = .ok a t :=
      bind_eq_ok (x := x) h
    cases hend
    exact ⟨u, hxu, rfl⟩
  · rintro ⟨u, hxu, rfl⟩
    exact bind_ok (x := x) (s := s.begun k) hxu

theorem asMethod_eq_ok {out w : Writer} {t : State} : asMethod out x s = .ok w t ↔
    ∃ u, x (s.inFunction out) = .ok () u ∧ w = u.place.out ∧ t = { u with place := s.place } := by
  constructor
  · intro h
    obtain ⟨b, u, hxu, hend⟩ : ∃ b u, x (s.inFunction out) = .ok b u ∧
        EStateM.Result.ok u.place.out { u with place := s.place } = .ok w t :=
      bind_eq_ok (x := x) h
    cases hend
    exact ⟨u, hxu, rfl, rfl⟩
  · rintro ⟨u, hxu, rfl, rfl⟩
    exact bind_ok (x := x) (s := s.inFunction out) hxu

theorem asFragment_eq_ok {out w : Writer} {t : State} : asFragment out x s = .ok w t ↔
    ∃ u, x (s.inFunction out) = .ok () u ∧ w = u.place.out ∧ t = { u with place := s.place } := by
  have hopen : asFragment out x s = restorePlace s.place
      ((x >>= fun _ => get >>= fun u => pure u.place.out : Gen Writer) (s.inFunction out)) := rfl
  rw [hopen]
  rcases hx : x (s.inFunction out) with ⟨b, u⟩ | ⟨e, u⟩
  · rw [bind_ok hx]
    constructor
    · rintro ⟨⟩
      exact ⟨u, rfl, rfl, rfl⟩
    · rintro ⟨v, ⟨⟩, rfl, rfl⟩
      rfl
  · rw [bind_error hx]
    refine iff_of_false (fun h => ?_) fun ⟨v, h, _⟩ => by cases h
    cases e <;> cases h

theorem State.later_withBlocks (s : State) (b : Blocks) : s.Later (s.withBlocks b) :=
  ⟨Nat.le_refl _, List.prefix_rfl, List.prefix_rfl⟩

theorem State.later_withHandlers (s : State) (hs : List Bytes) : s.Later (s.withHandlers hs) :=
  ⟨Nat.le_refl _, List.prefix_rfl, List.prefix_rfl⟩

/-- Code inside a block of its own is written as it is. -/
theorem Writes.inBlock (hx : ∀ t, s.Later t → Writes x y t P)
    (h : ∀ u t c, u.Later t → P () u c → Q () t c) : Writes (inBlock x) (inBlock y) s Q := by
  intro a t ha
  obtain ⟨u, hxu, rfl⟩ := inBlock_eq_ok.mp ha
  have hpushed := s.later_withBlocks ([] :: s.place.blocks)
  obtain ⟨hy, hlater, c, hc, hp⟩ := hx _ hpushed () u hxu
  have hpopped := u.later_withBlocks (u.place.blocks.drop 1)
  exact ⟨inBlock_eq_ok.mpr ⟨u, hy, rfl⟩, (hpushed.trans hlater).trans hpopped, c, hc,
    h u _ c hpopped hp⟩

/-- Code inside a tag is written as it is. -/
theorem Writes.insideTag (handler : Bytes) (hx : ∀ t, s.Later t → Writes x y t P)
    (h : ∀ u t c, u.Later t → P () u c → Q () t c) :
    Writes (insideTag handler x) (insideTag handler y) s Q := by
  intro a t ha
  obtain ⟨u, hxu, rfl⟩ := insideTag_eq_ok.mp ha
  have hopened := s.later_withHandlers (handler :: s.place.handlers)
  obtain ⟨hy, hlater, c, hc, hp⟩ := hx _ hopened () u hxu
  have hclosed := u.later_withHandlers (u.place.handlers.drop 1)
  exact ⟨insideTag_eq_ok.mpr ⟨u, hy, rfl⟩, (hopened.trans hlater).trans hclosed, c, hc,
    h u _ c hclosed hp⟩

/-- The code of a node becomes a part. -/
theorem Writes.marking (k : Nat) (hx : Writes x y (s.begun k) P)
    (h : ∀ u t c, u.Later t → P () u c → Q () t (.part k c .nil)) :
    Writes (marking k x) (marking k y) s Q := by
  intro a t ha
  obtain ⟨u, hxu, rfl⟩ := marking_eq_ok.mp ha
  obtain ⟨hy, hlater, c, hc, hp⟩ := hx () u hxu
  have hended : u.Later { u with spans := u.place.out.finish k u.spans } :=
    ⟨Nat.le_refl _, List.prefix_rfl, List.prefix_rfl⟩
  refine ⟨marking_eq_ok.mpr ⟨u, hy, rfl⟩, ⟨hlater.sequence, hlater.texts, hlater.expressions⟩,
    .part k c .nil, ?_, h u _ c hended hp⟩
  show { u.desk with spans := u.desk.out.finish k u.desk.spans } = _
  rw [hc]
  rfl

theorem State.later_inFunction (s : State) (w : Writer) : s.Later (s.inFunction w) :=
  ⟨Nat.le_refl _, List.prefix_rfl, List.prefix_rfl⟩

/-- Takes the code of a function over as a method, after a blank line if there are others. -/
def takeMethod (w : Writer) : Gen Unit :=
  modify fun s =>
    let methods := if s.methods.isEmpty then s.methods else s.methods.println []
    let (methods, spans) := methods.splice w s.spans
    { s with methods := methods, spans := spans, hoistedCount := s.hoistedCount + 1 }

/-- A function of its own becomes a method. -/
theorem Writes.asMethod (hx : Writes x y (s.inFunction {}) P)
    (h : ∀ u t isApart c, u.Later t → P () u c → Q () t (.method isApart c .nil)) :
    Writes (asMethod {} x >>= takeMethod) (asMethod {} y >>= takeMethod) s Q := by
  intro a t ha
  obtain ⟨w, v, hw, htake⟩ := bind_eq_ok ha
  obtain ⟨u, hxu, rfl, rfl⟩ := asMethod_eq_ok.mp hw
  obtain ⟨hy, hlater, c, hc, hp⟩ := hx () u hxu
  have hyw := asMethod_eq_ok.mpr ⟨u, hy, rfl, rfl⟩
  cases htake
  have hend : ∀ t, t.sequence = u.sequence → t.texts = u.texts → t.expressions = u.expressions →
      u.Later t := by
    intro t h1 h2 h3
    exact ⟨h1 ▸ Nat.le_refl _, h2 ▸ List.prefix_rfl, h3 ▸ List.prefix_rfl⟩
  refine ⟨?_, ((s.later_inFunction {}).trans hlater).trans (hend _ rfl rfl rfl),
    .method (!u.methods.isEmpty) c .nil, ?_, h u _ _ c (hend _ rfl rfl rfl) hp⟩
  · rw [bind_ok hyw]
    rfl
  · have hfunction : (s.inFunction {}).desk = { s.desk with out := {} } := rfl
    have hmethods : u.desk.methods = u.methods := rfl
    rw [hfunction] at hc
    simp only [Code.replay, ← hc, hmethods]
    cases u.methods.isEmpty <;> simp [State.desk]

/-- A fragment body that succeeds gives its code and is back in its place. -/
theorem asFragment_writes {out : Writer} (hx : Writes x y (s.inFunction out) P) {w : Writer}
    {t : State} (ha : asFragment out x s = .ok w t) :
    asFragment out y s = .ok w t ∧ ∃ u c, w = u.place.out ∧ t = { u with place := s.place } ∧
      u.desk = c.replay (s.inFunction out).desk ∧ (s.inFunction out).Later u ∧ P () u c := by
  obtain ⟨u, hxu, rfl, rfl⟩ := asFragment_eq_ok.mp ha
  obtain ⟨hy, hlater, c, hc, hp⟩ := hx () u hxu
  exact ⟨asFragment_eq_ok.mpr ⟨u, hy, rfl, rfl⟩, u, c, rfl, rfl, hc, hlater, hp⟩

/-- The code of a fragment body. -/
def fragmentBody (inner : Body) (ns : List Node) : Gen Unit := do
  inner ns
  emit "return nil"
  outdent
  outdent

/-- The code of a fragment body around what it evaluates. -/
def fragmentCase (id : Nat) (c : Code) : Code :=
  .indent (.line (.control ("case " ++ Bytes.ofNat id ++ ":"))
    (.indent (c ++ .line (.control "return nil") (.outdent (.outdent .nil)))))

/-- A body that is evaluated on demand becomes a fragment. -/
theorem Writes.fragment {inner inner' : Body} {ns : List Node}
    {Q : Nat → State → Code → Prop}
    (hx : ∀ t, s.Later t → Writes (inner ns) (inner' ns) t P)
    (h : ∀ u t id c, u.Later t → P () u c → Q id t (.fragment (fragmentCase id c) .nil)) :
    Writes (fragment inner ns) (fragment inner' ns) s Q := by
  intro a t ha
  -- The body is generated in a writer in which its case is opened already.
  let counted := { s with fragmentCount := s.fragmentCount + 1 }
  let opened : Writer :=
    ((({} : Writer).indented).println ("case " ++ Bytes.ofNat s.fragmentCount ++ ":")).indented
  have hinside : s.Later (counted.inFunction opened) :=
    ⟨Nat.le_refl _, List.prefix_rfl, List.prefix_rfl⟩
  have hbody : Writes (fragmentBody inner ns) (fragmentBody inner' ns) (counted.inFunction opened)
      fun _ t c => ∃ u d, u.Later t ∧ P () u d ∧
        c = d ++ .line (.control "return nil") (.outdent (.outdent .nil)) := by
    refine .bind (hx _ hinside) fun _ u d _ hp => ?_
    refine .emit_bind (.control "return nil") rfl fun v hv => ?_
    refine .outdent_bind fun w hw => .outdent fun t ht => ?_
    exact ⟨u, d, (hv.trans hw).trans ht, hp, rfl⟩
  obtain ⟨w, v, hw, htake⟩ : ∃ w v, asFragment opened (fragmentBody inner ns) counted = .ok w v ∧
      EStateM.Result.ok s.fragmentCount { v with
        fragments := (v.fragments.splice w v.spans).1,
        spans := (v.fragments.splice w v.spans).2 } = .ok a t :=
    bind_eq_ok (x := asFragment opened (fragmentBody inner ns)) ha
  obtain ⟨hyw, u, c, rfl, rfl, hc, hlater, u', d, hu', hp, rfl⟩ := asFragment_writes hbody hw
  cases htake
  have hend : ∀ t, t.sequence = u.sequence → t.texts = u.texts → t.expressions = u.expressions →
      u.Later t := by
    intro t h1 h2 h3
    exact ⟨h1 ▸ Nat.le_refl _, h2 ▸ List.prefix_rfl, h3 ▸ List.prefix_rfl⟩
  refine ⟨bind_ok (x := asFragment opened (fragmentBody inner' ns)) hyw,
    (hinside.trans hlater).trans (hend _ rfl rfl rfl),
    .fragment (fragmentCase s.fragmentCount d) .nil,
    ?_, h u' _ _ d (hu'.trans (hend _ rfl rfl rfl)) hp⟩
  have hcase : (fragmentCase s.fragmentCount d).replay { s.desk with out := {} } = u.desk := by
    rw [hc]
    rfl
  simp only [Code.replay, hcase]
  rfl

theorem Writes.declaration (k : Nat) (code : Bytes)
    (h : ∀ t, s.Later t → Q () t (.declaration k (declarationLines code) .nil)) :
    Writes (declaration k code) (declaration k code) s Q := by
  intro a t ha
  cases ha
  exact ⟨rfl, ⟨Nat.le_refl _, List.prefix_rfl, List.prefix_rfl⟩, .declaration k _ .nil, rfl,
    h _ ⟨Nat.le_refl _, List.prefix_rfl, List.prefix_rfl⟩⟩

end Frames

end ServerPages.Generation
