import ServerPages.Diagnostics.Fault

/-!
# Running steps

Parsing, code generation and compilation are written as steps that take a state to an outcome. These
lemmas run a sequence of steps whose parts are known, and take the outcome of a sequence apart.

`Returns P x` is about the values of a step, from whatever state it is run. `Ends C x s Q` is about
one run: if it succeeds its value and its last state are as `Q` says, and it crashes only if `C`.
`Yields x s Q` says that the run succeeds.
-/

namespace ServerPages

variable {ε σ α β : Type}

theorem bind_ok {x : EStateM ε σ α} {f : α → EStateM ε σ β} {s t : σ} {a : α}
    (h : x s = .ok a t) : (x >>= f) s = f a t := by
  simp only [bind, EStateM.bind, h]

theorem bind_error {x : EStateM ε σ α} {f : α → EStateM ε σ β} {s t : σ} {e : ε}
    (h : x s = .error e t) : (x >>= f) s = .error e t := by
  simp only [bind, EStateM.bind, h]

theorem bind_get (f : σ → EStateM ε σ β) (s : σ) : (get >>= f) s = f s s := rfl

theorem bind_modify (g : σ → σ) (f : PUnit → EStateM ε σ β) (s : σ) :
    (modify g >>= f) s = f () (g s) := rfl

theorem run_modifyGet (f : σ → α × σ) (s : σ) :
    (modifyGet f : EStateM ε σ α) s = .ok (f s).1 (f s).2 := rfl

/-- A sequence of two steps that succeeds is two steps that succeed. -/
theorem bind_eq_ok {x : EStateM ε σ α} {f : α → EStateM ε σ β} {s t : σ} {b : β}
    (h : (x >>= f) s = .ok b t) : ∃ a u, x s = .ok a u ∧ f a u = .ok b t := by
  rcases hx : x s with ⟨a, u⟩ | ⟨e, u⟩
  · exact ⟨a, u, rfl, by rwa [bind_ok hx] at h⟩
  · rw [bind_error hx] at h
    cases h

/-- A sequence of two steps fails in the first step or in the second one. -/
theorem bind_eq_error {x : EStateM ε σ α} {f : α → EStateM ε σ β} {s t : σ} {e : ε}
    (h : (x >>= f) s = .error e t) :
    x s = .error e t ∨ ∃ a u, x s = .ok a u ∧ f a u = .error e t := by
  rcases hx : x s with ⟨a, u⟩ | ⟨e', u⟩
  · exact Or.inr ⟨a, u, rfl, by rwa [bind_ok hx] at h⟩
  · rw [bind_error hx] at h
    cases h
    exact Or.inl rfl

theorem if_congr_eq {p : Prop} [Decidable p] {a a' b b' : α} (ha : a = a') (hb : ¬p → b = b') :
    (if p then a else b) = if p then a' else b' := by
  split
  · exact ha
  · next h => exact hb h

/-- A computation whose result passes a test returns a value that does. -/
theorem exists_ok_of_any {ε α : Type} {x : Except ε α} {p : α → Bool}
    (h : x.toOption.any p = true) : ∃ a, x = .ok a ∧ p a = true := by
  cases x with
  | ok a => exact ⟨a, rfl, h⟩
  | error e => cases h

/-! ### Values of steps -/

/-- Whenever the step succeeds, its value satisfies `P`. -/
def Returns (P : α → Prop) (x : EStateM ε σ α) : Prop := ∀ s a t, x s = .ok a t → P a

theorem Returns.any (x : EStateM ε σ α) : Returns (fun _ => True) x := fun _ _ _ _ => trivial

theorem Returns.pure {P : α → Prop} {a : α} (h : P a) :
    Returns P (Pure.pure a : EStateM ε σ α) := by
  rintro s b t ⟨⟩
  exact h

theorem Returns.throw {P : α → Prop} (e : ε) : Returns P (throw e : EStateM ε σ α) := by
  rintro s a t ⟨⟩

theorem Returns.bind {P : α → Prop} {Q : β → Prop} {x : EStateM ε σ α} {f : α → EStateM ε σ β}
    (hx : Returns P x) (hf : ∀ a, P a → Returns Q (f a)) : Returns Q (x >>= f) := by
  intro s b t h
  obtain ⟨a, u, hxa, hfb⟩ := bind_eq_ok h
  exact hf a (hx s a u hxa) u b t hfb

theorem Returns.mono {P Q : α → Prop} {x : EStateM ε σ α} (hx : Returns P x)
    (h : ∀ a, P a → Q a) : Returns Q x :=
  fun s a t hrun => h a (hx s a t hrun)

theorem Returns.and {P Q : α → Prop} {x : EStateM ε σ α} (hP : Returns P x) (hQ : Returns Q x) :
    Returns (fun a => P a ∧ Q a) x :=
  fun s a t hrun => ⟨hP s a t hrun, hQ s a t hrun⟩

/-- The value of the first of two steps does not matter. -/
theorem Returns.skip {Q : β → Prop} {x : EStateM ε σ α} {f : α → EStateM ε σ β}
    (hf : ∀ a, Returns Q (f a)) : Returns Q (x >>= f) :=
  (Returns.any x).bind fun a _ => hf a

theorem Returns.ite {P : α → Prop} {c : Prop} [Decidable c] {x y : EStateM ε σ α}
    (hx : Returns P x) (hy : Returns P y) : Returns P (if c then x else y) := by
  split
  · exact hx
  · exact hy

/-- A step that is taken only under a condition, before others. -/
theorem Returns.guard {Q : β → Prop} {c : Prop} [Decidable c] {x : EStateM ε σ Unit}
    {f : Unit → EStateM ε σ β} (hf : ∀ a, Returns Q (f a)) :
    Returns Q (if c then x >>= f else f ()) :=
  Returns.ite (Returns.skip hf) (hf ())

/-! ### Ends of runs -/

/-- Run from `s`, the step succeeds with a value and a state as `Q` says, or fails; it crashes only
if `C`. -/
def Ends (C : Prop) (x : EStateM Failure σ α) (s : σ) (Q : α → σ → Prop) : Prop :=
  (∀ a t, x s = .ok a t → Q a t) ∧ ∀ t, x s = .error .crash t → C

variable {C : Prop} {s : σ} {Q : α → σ → Prop}

theorem Ends.of_ok {x : EStateM Failure σ α} {a : α} {t : σ} (h : x s = .ok a t) (hq : Q a t) :
    Ends C x s Q := by
  refine ⟨fun b u hb => ?_, fun u hu => ?_⟩
  · obtain ⟨rfl, rfl⟩ := EStateM.Result.ok.inj (h.symm.trans hb)
    exact hq
  · cases h.symm.trans hu

theorem Ends.of_error {x : EStateM Failure σ α} {e : Failure} {t : σ} (h : x s = .error e t)
    (he : e = .crash → C) : Ends C x s Q := by
  refine ⟨fun b u hb => ?_, fun u hu => ?_⟩
  · cases h.symm.trans hb
  · exact he (EStateM.Result.error.inj (h.symm.trans hu)).1

/-- Where anything may make a run crash, only its success matters. -/
theorem Ends.of_runs {x : EStateM Failure σ α} (h : ∀ a t, x s = .ok a t → Q a t) :
    Ends True x s Q := ⟨h, fun _ _ => trivial⟩

theorem Ends.pure {a : α} (h : Q a s) : Ends C (Pure.pure a : EStateM Failure σ α) s Q :=
  Ends.of_ok rfl h

theorem Ends.bind {R : β → σ → Prop} {x : EStateM Failure σ α} {f : α → EStateM Failure σ β}
    (hx : Ends C x s Q) (hf : ∀ a t, Q a t → Ends C (f a) t R) : Ends C (x >>= f) s R := by
  refine ⟨fun b u h => ?_, fun u h => ?_⟩
  · obtain ⟨a, t, hxa, hfb⟩ := bind_eq_ok h
    exact (hf a t (hx.1 a t hxa)).1 b u hfb
  · rcases bind_eq_error h with hxe | ⟨a, t, hxa, hfe⟩
    · exact hx.2 u hxe
    · exact (hf a t (hx.1 a t hxa)).2 u hfe

theorem Ends.mono {R : α → σ → Prop} {x : EStateM Failure σ α} (hx : Ends C x s Q)
    (h : ∀ a t, Q a t → R a t) : Ends C x s R :=
  ⟨fun a t ha => h a t (hx.1 a t ha), hx.2⟩

theorem Ends.ite {c : Prop} [Decidable c] {x y : EStateM Failure σ α} (hx : c → Ends C x s Q)
    (hy : ¬c → Ends C y s Q) : Ends C (if c then x else y) s Q := by
  split
  · next h => exact hx h
  · next h => exact hy h

theorem Ends.get {R : β → σ → Prop} {f : σ → EStateM Failure σ β} (hf : Ends C (f s) s R) :
    Ends C (MonadStateOf.get >>= f) s R := hf

theorem Ends.modify {R : β → σ → Prop} {g : σ → σ} {f : PUnit → EStateM Failure σ β}
    (hf : Ends C (f ()) (g s) R) : Ends C (modify g >>= f) s R := hf

/-! ### Runs that succeed -/

/-- Run from `s`, the step succeeds with a value and a state as `Q` says. -/
def Yields (x : EStateM ε σ α) (s : σ) (Q : α → σ → Prop) : Prop := ∃ a t, x s = .ok a t ∧ Q a t

theorem Yields.pure {a : α} (h : Q a s) : Yields (Pure.pure a : EStateM ε σ α) s Q :=
  ⟨a, s, rfl, h⟩

theorem Yields.bind {R : β → σ → Prop} {x : EStateM ε σ α} {f : α → EStateM ε σ β}
    (hx : Yields x s Q) (hf : ∀ a t, Q a t → Yields (f a) t R) : Yields (x >>= f) s R := by
  obtain ⟨a, t, hxa, hq⟩ := hx
  obtain ⟨b, u, hfb, hr⟩ := hf a t hq
  exact ⟨b, u, (bind_ok hxa).trans hfb, hr⟩

/-- A run whose first part is known. -/
theorem Yields.after {R : β → σ → Prop} {x : EStateM ε σ α} {f : α → EStateM ε σ β} {a : α} {t : σ}
    (hx : x s = .ok a t) (hf : Yields (f a) t R) : Yields (x >>= f) s R := by
  obtain ⟨b, u, hfb, hr⟩ := hf
  exact ⟨b, u, (bind_ok hx).trans hfb, hr⟩

theorem Yields.mono {R : α → σ → Prop} {x : EStateM ε σ α} (hx : Yields x s Q)
    (h : ∀ a t, Q a t → R a t) : Yields x s R := by
  obtain ⟨a, t, hxa, hq⟩ := hx
  exact ⟨a, t, hxa, h a t hq⟩

end ServerPages
