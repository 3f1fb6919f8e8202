import ServerPages.Proofs.LoadedLibraries

/-!
# A registry shared by clients

Clients register libraries, resolve uris and load directories of documents at the same time. A
registry is locked while it is looked into and while a library is bound, and it is not locked while
a library is loaded. So a call to resolve a uri is three steps, looking it up, loading the library
and storing it, and the steps of other clients may come between them: two clients may both miss a
uri and both load it, from files that have changed in the meantime, or load it while it is
registered.

`SharedRegistry.Step` is one step of one client, with the event that others can tell it by, and
`SharedRegistry.Run` is any number of steps of any number of clients, in any order, with the events
in the order in which they come.

## Main results

* `SharedRegistry.Step.registry_eq_or_binding`: what a step does to the registry.
* `SharedRegistry.run_stable`: a uri that is bound keeps its library, and every client gets that
  one.
* `SharedRegistry.run_answer`, `SharedRegistry.run_loadAll`: calls that no others interleave with.
-/

namespace ServerPages

namespace Registry

/-- Registers a library: the library that is bound then, or why none is, and the registry
afterwards. -/
def offer (l : TagLibrary) (r : Registry) : Except Fault TagLibrary × Registry :=
  match r.register l with
  | .ok r' => (r.completed l.uri l, r')
  | .error f => (.error f, r)

/-- What registering a library does. -/
theorem register_cases (l : TagLibrary) (r : Registry) :
    (∃ f, r.register l = .error f) ∨
      ∃ l', r.find? l.uri = none ∧ r.completed l.uri l = .ok l' ∧
        r.register l = .ok (r.binding l.uri l') := by
  unfold register
  cases h : r.find? l.uri with
  | some known =>
    unfold bind
    rw [h]
    cases l.uri == [] <;> exact .inl ⟨_, rfl⟩
  | none =>
    rw [bind_eq h]
    cases r.completed l.uri l with
    | error f => exact .inl ⟨f, rfl⟩
    | ok l' => exact .inr ⟨l', rfl, rfl, rfl⟩

theorem offer_cases (l : TagLibrary) (r : Registry) :
    (∃ f, r.offer l = (.error f, r)) ∨
      ∃ l', r.find? l.uri = none ∧ r.completed l.uri l = .ok l' ∧
        r.offer l = (.ok l', r.binding l.uri l') := by
  unfold offer
  obtain ⟨f, hf⟩ | ⟨l', hnone, hcompleted, hl⟩ := register_cases l r
  · exact .inl ⟨f, by rw [hf]⟩
  · exact .inr ⟨l', hnone, hcompleted, by rw [hl, hcompleted]⟩

/-- What storing a loaded library does. -/
theorem keep_cases (uri : Bytes) (l : TagLibrary) (r : Registry) :
    (∃ f, r.keep uri l = (.error f, r)) ∨
      (∃ l', r.find? uri = some l' ∧ r.keep uri l = (.ok l', r)) ∨
      ∃ l', r.find? uri = none ∧ r.keep uri l = (.ok l', r.binding uri l') := by
  unfold keep store
  cases h : r.find? uri with
  | some known => exact .inr (.inl ⟨known, rfl, rfl⟩)
  | none =>
    dsimp only
    rw [bind_eq h]
    cases r.completed uri l with
    | error f => exact .inl ⟨f, rfl⟩
    | ok l' =>
      refine .inr (.inr ⟨l', rfl, ?_⟩)
      simp only [Except.map, Bind.bind, Except.bind, find?_binding h, if_pos]
      rfl

theorem of_fst_offer_eq_ok {m l : TagLibrary} {r : Registry} (h : (r.offer m).1 = .ok l) :
    r.find? m.uri = none ∧ r.completed m.uri m = .ok l ∧
      (r.offer m).2 = r.binding m.uri l := by
  obtain ⟨f, hf⟩ | ⟨l', hnone, hcompleted, hl⟩ := offer_cases m r
  · rw [hf] at h
    cases h
  · rw [hl] at h
    obtain rfl := Except.ok.inj h
    exact ⟨hnone, hcompleted, congrArg Prod.snd hl⟩

/-- The library that is answered when one is stored is bound. -/
theorem find?_snd_keep {uri : Bytes} {m l : TagLibrary} {r : Registry}
    (h : (r.keep uri m).1 = .ok l) : (r.keep uri m).2.find? uri = some l := by
  obtain ⟨f, hf⟩ | ⟨l', hknown, hl⟩ | ⟨l', hnone, hl⟩ := keep_cases uri m r
  · rw [hf] at h
    cases h
  · rw [hl] at h ⊢
    exact hknown.trans (congrArg some (Except.ok.inj h))
  · rw [hl] at h ⊢
    rw [find?_binding hnone, if_pos rfl]
    exact congrArg some (Except.ok.inj h)

end Registry

/-! ### Steps -/

/-- What a client is doing. -/
inductive Call where
  /-- Nothing. -/
  | idle
  /-- It registers a library. -/
  | registering (l : TagLibrary)
  /-- It resolves a uri and has not looked it up. -/
  | asking (uri : Bytes)
  /-- It resolves a uri that it did not find, and loads the library. -/
  | loading (uri : Bytes)
  /-- It resolves a uri and has loaded a library for it. -/
  | storing (uri : Bytes) (l : TagLibrary)
  /-- It loads a directory, and looks for the next document. -/
  | walking
  /-- It loads a directory, and registers the library of a document. -/
  | adding (l : TagLibrary)

/-- What the clients can tell of their calls. -/
inductive RegistryEvent where
  /-- A client asks for the library of a uri. -/
  | asked (client : Nat) (uri : Bytes)
  /-- It gets an answer. -/
  | resolved (client : Nat) (uri : Bytes) (answer : Except Fault TagLibrary)
  /-- A client has a library registered: the library that is bound then, or why none is. -/
  | registered (client : Nat) (l : TagLibrary) (answer : Except Fault TagLibrary)

/-- Whether a library was got or bound. -/
def RegistryEvent.succeeds : RegistryEvent → Bool
  | .asked .. => false
  | .resolved _ _ answer | .registered _ _ answer => answer.isOk

/-- A registry and what its clients, known by numbers, are doing. -/
structure SharedRegistry where
  /-- The registry. -/
  registry : Registry
  /-- What each client is doing. -/
  calls : Nat → Call

/-- Whether a client resolves a uri that it has looked up and not found. -/
def Call.HasMissed (uri : Bytes) : Call → Prop
  | .loading uri' | .storing uri' _ => uri' = uri
  | _ => False

namespace SharedRegistry

/-- After a step in which a client turned to something else and left the registry as `r`. -/
def turn (s : SharedRegistry) (c : Nat) (call : Call) (r : Registry) : SharedRegistry :=
  ⟨r, fun i => if i = c then call else s.calls i⟩

@[simp] theorem turn_registry (s : SharedRegistry) (c : Nat) (call : Call) (r : Registry) :
    (s.turn c call r).registry = r := rfl

@[simp] theorem turn_calls (s : SharedRegistry) (c : Nat) (call : Call) (r : Registry) :
    (s.turn c call r).calls c = call := if_pos rfl

/-- One step of one client, and the event by which it can be told. Whatever is read from the file
tree may be read from another one than before. -/
inductive Step (s : SharedRegistry) : Option RegistryEvent → SharedRegistry → Prop
  | callRegister {c} (l : TagLibrary) (h : s.calls c = .idle) :
    Step s none (s.turn c (.registering l) s.registry)
  | register {c l} (h : s.calls c = .registering l) :
    Step s (some (.registered c l (s.registry.offer l).1)) (s.turn c .idle (s.registry.offer l).2)
  | callResolve {c} (uri : Bytes) (h : s.calls c = .idle) :
    Step s (some (.asked c uri)) (s.turn c (.asking uri) s.registry)
  | found {c uri l} (h : s.calls c = .asking uri) (hl : s.registry.find? uri = some l) :
    Step s (some (.resolved c uri (.ok l))) (s.turn c .idle s.registry)
  | missed {c uri} (h : s.calls c = .asking uri) (hl : s.registry.find? uri = none) :
    Step s none (s.turn c (.loading uri) s.registry)
  | loaded {c uri l} (h : s.calls c = .loading uri) (files : Option FileTree)
    (hfiles : files.isSome = s.registry.files.isSome)
    (hl : { s.registry with files := files }.load uri = .ok l) :
    Step s none (s.turn c (.storing uri l) s.registry)
  | notLoaded {c uri f} (h : s.calls c = .loading uri) (files : Option FileTree)
    (hfiles : files.isSome = s.registry.files.isSome)
    (hl : { s.registry with files := files }.load uri = .error f) :
    Step s (some (.resolved c uri (.error f))) (s.turn c .idle s.registry)
  | store {c uri l} (h : s.calls c = .storing uri l) :
    Step s (some (.resolved c uri (s.registry.keep uri l).1))
      (s.turn c .idle (s.registry.keep uri l).2)
  | callLoadAll {c} (h : s.calls c = .idle) : Step s none (s.turn c .walking s.registry)
  | described {c l} (h : s.calls c = .walking) (files : FileTree) (path : Bytes)
    (hl : (files.read path >>= Registry.libraryAt path) = .ok l) :
    Step s none (s.turn c (.adding l) s.registry)
  | added {c l l'} (h : s.calls c = .adding l) (hl : (s.registry.offer l).1 = .ok l') :
    Step s (some (.registered c l (.ok l'))) (s.turn c .walking (s.registry.offer l).2)
  | refused {c l f} (h : s.calls c = .adding l) (hl : (s.registry.offer l).1 = .error f) :
    Step s (some (.registered c l (.error f))) (s.turn c .idle (s.registry.offer l).2)
  | leave {c} (h : s.calls c = .walking) : Step s none (s.turn c .idle s.registry)

/-- Steps of any clients in any order, and their events. -/
inductive Run : SharedRegistry → List RegistryEvent → SharedRegistry → Prop
  | done (s : SharedRegistry) : Run s [] s
  | silent {s t u : SharedRegistry} {log : List RegistryEvent} (h : Step s none t)
    (hrest : Run t log u) : Run s log u
  | event {s t u : SharedRegistry} {e : RegistryEvent} {log : List RegistryEvent}
    (h : Step s (some e) t) (hrest : Run t log u) : Run s (e :: log) u

variable {s t u : SharedRegistry} {e : Option RegistryEvent} {log : List RegistryEvent}

/-! ### What a step does -/

/-- What a step does to the registry: nothing, or it binds a uri that was free, and tells so. -/
theorem Step.registry_eq_or_binding (h : Step s e t) : t.registry = s.registry ∨
    ∃ uri l, s.registry.find? uri = none ∧ t.registry = s.registry.binding uri l ∧
      ((∃ c, e = some (.resolved c uri (.ok l))) ∨
        ∃ c m, m.uri = uri ∧ e = some (.registered c m (.ok l))) := by
  cases h with
  | @register c m _ =>
    obtain ⟨f, hf⟩ | ⟨l, hnone, -, hl⟩ := Registry.offer_cases m s.registry
    · exact .inl (congrArg Prod.snd hf)
    · exact .inr ⟨m.uri, l, hnone, congrArg Prod.snd hl, .inr ⟨c, m, rfl, by rw [hl]⟩⟩
  | @added c m l _ hok =>
    obtain ⟨f, hf⟩ | ⟨l', hnone, -, hl⟩ := Registry.offer_cases m s.registry
    · exact .inl (congrArg Prod.snd hf)
    · exact .inr ⟨m.uri, l', hnone, congrArg Prod.snd hl, .inr ⟨c, m, rfl, by rw [← hok, hl]⟩⟩
  | @refused c m f _ herror =>
    obtain ⟨f, hf⟩ | ⟨l', -, -, hl⟩ := Registry.offer_cases m s.registry
    · exact .inl (congrArg Prod.snd hf)
    · rw [hl] at herror
      cases herror
  | @store c uri m _ =>
    obtain ⟨f, hf⟩ | ⟨l, -, hl⟩ | ⟨l, hnone, hl⟩ := Registry.keep_cases uri m s.registry
    · exact .inl (congrArg Prod.snd hf)
    · exact .inl (congrArg Prod.snd hl)
    · exact .inr ⟨uri, l, hnone, congrArg Prod.snd hl, .inl ⟨c, by rw [hl]⟩⟩
  | _ => exact .inl rfl

/-- The library that a client gets is bound. -/
theorem Step.of_resolved {c : Nat} {uri : Bytes} {l : TagLibrary}
    (h : Step s (some (.resolved c uri (.ok l))) t) : t.registry.find? uri = some l := by
  generalize he : some (RegistryEvent.resolved c uri (.ok l)) = e at h
  cases h with
  | found h hl =>
    cases he
    exact hl
  | @store c' uri' m h =>
    obtain ⟨rfl, rfl, hl⟩ := RegistryEvent.resolved.inj (Option.some.inj he)
    exact Registry.find?_snd_keep hl.symm
  | _ => cases he

/-- A library is registered for a uri that was not bound. -/
theorem Step.of_registered {c : Nat} {m l : TagLibrary}
    (h : Step s (some (.registered c m (.ok l))) t) :
    s.registry.find? m.uri = none ∧ s.registry.completed m.uri m = .ok l ∧
      t.registry = s.registry.binding m.uri l := by
  generalize he : some (RegistryEvent.registered c m (.ok l)) = e at h
  cases h with
  | register h =>
    obtain ⟨rfl, rfl, hl⟩ := RegistryEvent.registered.inj (Option.some.inj he)
    exact Registry.of_fst_offer_eq_ok hl.symm
  | added h hl =>
    cases he
    exact Registry.of_fst_offer_eq_ok hl
  | _ => cases he

/-- A client that asks for a uri has not looked it up yet. -/
theorem Step.calls_of_asked {c : Nat} {uri : Bytes} (h : Step s (some (.asked c uri)) t) :
    t.calls c = .asking uri := by
  generalize he : some (RegistryEvent.asked c uri) = e at h
  cases h with
  | callResolve uri h =>
    cases he
    exact turn_calls s c _ _
  | _ => cases he

/-- A step that nobody got a library by binds nothing. -/
theorem Step.registry_eq (h : Step s e t) (he : ∀ x ∈ e, x.succeeds = false) :
    t.registry = s.registry := by
  obtain h | ⟨uri, l, -, -, ⟨c, rfl⟩ | ⟨c, m, -, rfl⟩⟩ := h.registry_eq_or_binding
  · exact h
  · cases he _ rfl
  · cases he _ rfl

/-- A bound uri keeps its library. -/
theorem Step.find?_eq_some (h : Step s e t) {uri : Bytes} {l : TagLibrary}
    (hl : s.registry.find? uri = some l) : t.registry.find? uri = some l := by
  obtain h | ⟨uri', l', hnone, h, -⟩ := h.registry_eq_or_binding
  · rwa [h]
  · have hne : uri ≠ uri' := by
      rintro rfl
      cases hl.symm.trans hnone
    rwa [h, Registry.find?_binding hnone, if_neg hne]

/-- What is known for the descriptors of libraries does not change. -/
theorem Step.completed_eq (h : Step s e t) : t.registry.completed = s.registry.completed := by
  obtain h | ⟨uri, l, -, h, -⟩ := h.registry_eq_or_binding <;> rw [h]
  rfl

/-- A client that has not missed a bound uri does not miss it, and gets its library. -/
theorem Step.not_hasMissed (h : Step s e t) {uri : Bytes} {l : TagLibrary}
    (hl : s.registry.find? uri = some l) {c : Nat} (hc : ¬(s.calls c).HasMissed uri) :
    ¬(t.calls c).HasMissed uri ∧ ∀ a, e = some (.resolved c uri a) → a = .ok l := by
  have hturn : ∀ {c' call r}, (c' = c → ¬call.HasMissed uri) →
      ¬((s.turn c' call r).calls c).HasMissed uri := by
    intro c' call r hcall
    unfold turn
    dsimp only
    split
    · next h => exact hcall h.symm
    · exact hc
  have hmissed : ∀ {c' call}, s.calls c' = call → call.HasMissed uri → c' ≠ c := by
    rintro c' call rfl hcall rfl
    exact hc hcall
  cases h with
  | missed h hnone =>
    refine ⟨hturn fun _ => ?_, by simp⟩
    rintro rfl
    cases hl.symm.trans hnone
  | loaded h files hfiles hload =>
    refine ⟨hturn fun hsame => ?_, by simp⟩
    rintro rfl
    exact hmissed h rfl hsame
  | found h hfound =>
    refine ⟨hturn fun _ => id, fun a ha => ?_⟩
    cases ha
    exact congrArg _ (Option.some.inj (hfound.symm.trans hl))
  | notLoaded h files hfiles hload =>
    refine ⟨hturn fun _ => id, fun a ha => ?_⟩
    cases ha
    exact absurd rfl (hmissed h rfl)
  | store h =>
    refine ⟨hturn fun _ => id, fun a ha => ?_⟩
    obtain ⟨rfl, rfl, -⟩ := RegistryEvent.resolved.inj (Option.some.inj ha)
    exact absurd rfl (hmissed h rfl)
  | _ => exact ⟨hturn fun _ => id, by simp⟩

/-! ### Runs -/

namespace Run

/-- An event of a run is that of a step, between two runs. -/
theorem split {x : RegistryEvent} {later : List RegistryEvent} (h : Run s (log ++ x :: later) u) :
    ∃ t t', Run s log t ∧ Step t (some x) t' ∧ Run t' later u := by
  generalize hall : log ++ x :: later = all at h
  induction h generalizing log with
  | done s => simp at hall
  | silent h _ ih =>
    obtain ⟨t, t', hfirst, hx, hlast⟩ := ih hall
    exact ⟨t, t', .silent h hfirst, hx, hlast⟩
  | @event s _ _ e _ h hrest ih =>
    cases log with
    | nil =>
      obtain ⟨rfl, rfl⟩ := List.cons.inj hall
      exact ⟨s, _, .done s, h, hrest⟩
    | cons _ log =>
      obtain ⟨rfl, htail⟩ := List.cons.inj hall
      obtain ⟨t, t', hfirst, hx, hlast⟩ := ih htail
      exact ⟨t, t', .event h hfirst, hx, hlast⟩

/-- Whatever every step keeps is kept. -/
theorem induct {P : Registry → Prop} (h : Run s log t)
    (hstep : ∀ {s e t}, Step s e t → P s.registry → P t.registry) (hs : P s.registry) :
    P t.registry := by
  induction h with
  | done => exact hs
  | silent h _ ih | event h _ ih => exact ih (hstep h hs)

/-- A bound uri keeps its library. -/
theorem find?_eq_some (h : Run s log t) {uri : Bytes} {l : TagLibrary}
    (hl : s.registry.find? uri = some l) : t.registry.find? uri = some l :=
  h.induct (P := fun r => r.find? uri = some l) (fun h => h.find?_eq_some) hl

theorem completed_eq (h : Run s log t) : t.registry.completed = s.registry.completed :=
  h.induct (P := fun r => r.completed = s.registry.completed) (fun h hs => h.completed_eq.trans hs)
    rfl

/-- The library that a client gets is bound in the end. -/
theorem find?_of_resolved (h : Run s log t) {c : Nat} {uri : Bytes} {l : TagLibrary}
    (hl : .resolved c uri (.ok l) ∈ log) : t.registry.find? uri = some l := by
  obtain ⟨before, after, rfl⟩ := List.append_of_mem hl
  obtain ⟨u, u', -, hstep, hlast⟩ := h.split
  exact hlast.find?_eq_some hstep.of_resolved

/-- The library that a client registers was not bound at first and is bound in the end, with what
the registry knows for its descriptors. -/
theorem find?_of_registered (h : Run s log t) {c : Nat} {m l : TagLibrary}
    (hl : .registered c m (.ok l) ∈ log) : s.registry.find? m.uri = none ∧
      s.registry.completed m.uri m = .ok l ∧ t.registry.find? m.uri = some l := by
  obtain ⟨before, after, rfl⟩ := List.append_of_mem hl
  obtain ⟨u, u', hfirst, hstep, hlast⟩ := h.split
  obtain ⟨hnone, hcompleted, hbinding⟩ := hstep.of_registered
  refine ⟨?_, by rw [← hcompleted, hfirst.completed_eq], hlast.find?_eq_some ?_⟩
  · cases hfind : s.registry.find? m.uri with
    | none => rfl
    | some known => cases (hfirst.find?_eq_some hfind).symm.trans hnone
  · rw [hbinding, Registry.find?_binding hnone, if_pos rfl]

/-- A uri that gets bound is one that a client got the library of, or registered it for. -/
theorem exists_event (h : Run s log t) {uri : Bytes} {l : TagLibrary}
    (hs : s.registry.find? uri = none) (hl : t.registry.find? uri = some l) :
    (∃ c, .resolved c uri (.ok l) ∈ log) ∨
      ∃ c m, m.uri = uri ∧ .registered c m (.ok l) ∈ log := by
  induction h with
  | done => cases hs.symm.trans hl
  | silent hstep _ ih => exact ih (hstep.registry_eq (by simp) ▸ hs) hl
  | @event s t _ e log hstep hrest ih =>
    cases ht : t.registry.find? uri with
    | none =>
      exact (ih ht hl).imp (fun ⟨c, hc⟩ => ⟨c, .tail _ hc⟩)
        fun ⟨c, m, hm, hc⟩ => ⟨c, m, hm, .tail _ hc⟩
    | some known =>
      obtain rfl := Option.some.inj ((hrest.find?_eq_some ht).symm.trans hl)
      obtain h | ⟨uri', l', hnone, h, hevent⟩ := hstep.registry_eq_or_binding
      · cases hs.symm.trans (h ▸ ht)
      rw [h, Registry.find?_binding hnone] at ht
      split at ht
      · next huri =>
        obtain rfl := Option.some.inj ht
        subst huri
        obtain ⟨c, he⟩ | ⟨c, m, hm, he⟩ := hevent
        · exact .inl ⟨c, Option.some.inj he ▸ .head _⟩
        · exact .inr ⟨c, m, hm, Option.some.inj he ▸ .head _⟩
      · cases hs.symm.trans ht

/-- Once a uri is bound, clients that have not missed it before get its library. -/
theorem resolved_eq (h : Run s log t) {uri : Bytes} {l : TagLibrary}
    (hl : s.registry.find? uri = some l) {c : Nat} (hc : ¬(s.calls c).HasMissed uri)
    {a : Except Fault TagLibrary} (ha : .resolved c uri a ∈ log) : a = .ok l := by
  induction h with
  | done => cases ha
  | silent hstep _ ih => exact ih (hstep.find?_eq_some hl) (hstep.not_hasMissed hl hc).1 ha
  | event hstep _ ih =>
    obtain ⟨hc', hevent⟩ := hstep.not_hasMissed hl hc
    cases ha with
    | head => exact hevent _ rfl
    | tail _ ha => exact ih (hstep.find?_eq_some hl) hc' ha

end Run

/-- **Libraries are stable.** However the steps of clients interleave, a bound uri keeps its
library; all answers to a uri are one library; a library that is registered for a uri is the only
one and is what all clients get that get one, and what all get that ask from then on; a uri is bound
only if a client gets its library or registers one for it, and a step by which none does either
leaves the registry as it was. -/
theorem run_stable (h : Run s log t) :
    (∀ uri l, s.registry.find? uri = some l → t.registry.find? uri = some l) ∧
    (∀ c c' uri l l', .resolved c uri (.ok l) ∈ log → .resolved c' uri (.ok l') ∈ log → l = l') ∧
    (∀ before after c m l, log = before ++ .registered c m (.ok l) :: after →
      s.registry.completed m.uri m = .ok l ∧
      (∀ c' m' l', .registered c' m' (.ok l') ∈ before ++ after → m'.uri ≠ m.uri) ∧
      (∀ c' l', .resolved c' m.uri (.ok l') ∈ log → l' = l) ∧
      ∀ mid later c' a, after = mid ++ .asked c' m.uri :: later →
        .resolved c' m.uri a ∈ later → a = .ok l) ∧
    (∀ uri l, s.registry.find? uri = none → t.registry.find? uri = some l →
      (∃ c, .resolved c uri (.ok l) ∈ log) ∨
        ∃ c m, m.uri = uri ∧ .registered c m (.ok l) ∈ log) ∧
    ∀ u e v, Step u e v → (∀ x ∈ e, x.succeeds = false) → v.registry = u.registry := by
  refine ⟨fun uri l => h.find?_eq_some, fun c c' uri l l' hl hl' => ?_, ?_,
    fun uri l => h.exists_event, fun u e v => Step.registry_eq⟩
  · exact Option.some.inj ((h.find?_of_resolved hl).symm.trans (h.find?_of_resolved hl'))
  rintro before after c m l rfl
  obtain ⟨-, hcompleted, hbound⟩ :=
    h.find?_of_registered (List.mem_append_right before (List.mem_cons_self ..))
  obtain ⟨u, u', hfirst, hstep, hlast⟩ := h.split
  have hu' : u'.registry.find? m.uri = some l := by
    obtain ⟨hnone, -, hbinding⟩ := hstep.of_registered
    rw [hbinding, Registry.find?_binding hnone, if_pos rfl]
  refine ⟨hcompleted, fun c' m' l' hm' => ?_, fun c' l' hl' => ?_, ?_⟩
  · intro huri
    obtain hbefore | hafter := List.mem_append.mp hm'
    · have hfound := (hfirst.find?_of_registered hbefore).2.2
      rw [huri, hstep.of_registered.1] at hfound
      cases hfound
    · have hfree := (hlast.find?_of_registered hafter).1
      rw [huri, hu'] at hfree
      cases hfree
  · exact Option.some.inj ((h.find?_of_resolved hl').symm.trans hbound)
  · rintro mid later c' a rfl ha
    obtain ⟨v, v', hmid, hasked, hlater⟩ := hlast.split
    refine hlater.resolved_eq (hasked.find?_eq_some (hmid.find?_eq_some hu')) ?_ ha
    rw [hasked.calls_of_asked]
    exact id

/-- The uri of a directory of tag files. -/
def raceUri : Bytes := "urn:jsptagdir:/tags"

/-- The directory at first, and after a file was added. -/
def raceFiles (added : Bool) : FileTree where
  files := ("tags/f.tag", "x") :: if added then [("tags/g.tag", "y")] else []

/-- A registry whose clients do nothing yet. -/
def raceStart : SharedRegistry := ⟨{ files := some (raceFiles false) }, fun _ => .idle⟩

/-- The library of the directory. -/
def raceLibrary (added : Bool) : TagLibrary where
  uri := raceUri
  shortName := "tags"
  tagFiles := Registry.tagFilesOf "/tags" (((raceFiles added).list "tags").toOption.getD [])

/-- Two clients miss a uri and load its library before and after a file was added; the one that is
first to store it decides. -/
theorem run_stable_race : ∃ log t, Run raceStart log t ∧
    .resolved 1 raceUri (.ok (raceLibrary true)) ∈ log ∧
    ∀ c l, .resolved c raceUri (.ok l) ∈ log → l = raceLibrary true := by
  let r := raceStart.registry
  have hload : ∀ added, { r with files := some (raceFiles added) }.load raceUri =
      .ok (raceLibrary added) := by
    intro added
    cases added <;> rfl
  let missed := ((raceStart.turn 0 (.asking raceUri) r).turn 1 (.asking raceUri) r).turn 0
    (.loading raceUri) r |>.turn 1 (.loading raceUri) r
  let loaded := (missed.turn 0 (.storing raceUri (raceLibrary false)) r).turn 1
    (.storing raceUri (raceLibrary true)) r
  have hloaded : ∀ {log t}, Run loaded log t →
      Run raceStart (.asked 0 raceUri :: .asked 1 raceUri :: log) t := fun hrest =>
    .event (.callResolve raceUri rfl) <| .event (.callResolve raceUri rfl) <|
    .silent (.missed (c := 0) rfl rfl) <| .silent (.missed (c := 1) rfl rfl) <|
    .silent (.loaded (c := 0) rfl (some (raceFiles false)) rfl (hload false)) <|
    .silent (.loaded (c := 1) rfl (some (raceFiles true)) rfl (hload true)) hrest
  let stored := loaded.turn 1 .idle (r.binding raceUri (raceLibrary true))
  have hstored : Step loaded (some (.resolved 1 raceUri (.ok (raceLibrary true)))) stored :=
    .store (c := 1) (l := raceLibrary true) rfl
  have hanswered : Step stored (some (.resolved 0 raceUri (.ok (raceLibrary true))))
      (stored.turn 0 .idle stored.registry) := .store (c := 0) (l := raceLibrary false) rfl
  have hrun := hloaded (.event hstored (.event hanswered (.done _)))
  refine ⟨_, _, hrun, by simp, fun c l hl => ?_⟩
  exact (run_stable hrun).2.1 c 1 raceUri l _ hl (by simp)

/-! ### Calls that no others interleave with -/

theorem turn_turn (s : SharedRegistry) (c : Nat) (call call' : Call) (r r' : Registry) :
    (s.turn c call r).turn c call' r' = s.turn c call' r' := by
  simp only [turn, SharedRegistry.mk.injEq, true_and]
  funext i
  split <;> rfl

theorem turn_idle {c : Nat} (h : s.calls c = .idle) (r : Registry) :
    s.turn c .idle r = ⟨r, s.calls⟩ := by
  simp only [turn, SharedRegistry.mk.injEq, true_and]
  funext i
  split
  · next hi => rw [hi, h]
  · rfl

/-- A client that resolves a uri while no others take a step gets what the registry answers. -/
theorem run_answer {c : Nat} (h : s.calls c = .idle) (uri : Bytes) :
    Run s [.asked c uri, .resolved c uri (s.registry.answer uri).1]
      ⟨(s.registry.answer uri).2, s.calls⟩ := by
  refine .event (.callResolve uri h) ?_
  rw [← turn_idle h]
  cases hfind : s.registry.find? uri with
  | some l =>
    rw [Registry.answer_of_find?_eq_some hfind]
    have hstep := Step.found (turn_calls s c (.asking uri) s.registry) hfind
    rw [turn_turn] at hstep
    exact .event hstep (.done _)
  | none =>
    refine .silent (.missed (turn_calls s c _ _) hfind) ?_
    rw [turn_turn]
    cases hload : s.registry.load uri with
    | error f =>
      have hanswer : s.registry.answer uri = (.error f, s.registry) := by
        rw [Registry.answer_eq, Registry.resolve_eq, hfind, hload]
        rfl
      rw [hanswer]
      have hstep :=
        Step.notLoaded (turn_calls s c (.loading uri) s.registry) s.registry.files rfl hload
      rw [turn_turn] at hstep
      exact .event hstep (.done _)
    | ok l =>
      refine .silent (.loaded (turn_calls s c _ _) s.registry.files rfl hload) ?_
      rw [turn_turn, Registry.answer_eq_keep hfind hload]
      have hstep := Step.store (turn_calls s c (.storing uri l) s.registry)
      rw [turn_turn] at hstep
      exact .event hstep (.done _)

/-- A client that adds documents while no others take a step leaves the registry as it would be. -/
theorem run_addDocuments {c : Nat} (h : s.calls c = .walking) (files : FileTree)
    (paths : List Bytes) :
    ∃ log, Run s log (s.turn c .idle (s.registry.addDocuments files paths).1) := by
  induction paths generalizing s with
  | nil => exact ⟨[], .silent (.leave h) (.done _)⟩
  | cons path paths ih =>
    rw [Registry.addDocuments_cons, Registry.addDocument_eq]
    cases hl : files.read path >>= Registry.libraryAt path with
    | error f => exact ⟨[], .silent (.leave h) (.done _)⟩
    | ok l =>
      have hdescribed := Step.described h files path hl
      have hcall := turn_calls s c (.adding l) s.registry
      rw [show (Except.ok l >>= s.registry.register) = s.registry.register l from rfl]
      obtain ⟨f, hf⟩ | ⟨l', -, hcompleted, hok⟩ := Registry.register_cases l s.registry
      · have hoffer : s.registry.offer l = (.error f, s.registry) := by rw [Registry.offer, hf]
        have hstep := Step.refused hcall (congrArg Prod.fst hoffer)
        rw [turn_turn, turn_registry, hoffer] at hstep
        rw [hf]
        exact ⟨_, .silent hdescribed (.event hstep (.done _))⟩
      · have hoffer : s.registry.offer l = (.ok l', s.registry.binding l.uri l') := by
          rw [Registry.offer, hok, hcompleted]
        have hstep := Step.added hcall (congrArg Prod.fst hoffer)
        rw [turn_turn, turn_registry, hoffer] at hstep
        obtain ⟨log, hrun⟩ := ih (turn_calls s c .walking (s.registry.binding l.uri l'))
        rw [turn_turn] at hrun
        rw [hok]
        exact ⟨_, .silent hdescribed (.event hstep hrun)⟩

/-- A client that loads a directory while no others step leaves the registry as it would be. -/
theorem run_loadAll {c : Nat} (h : s.calls c = .idle) (files : FileTree) (directory : Bytes) :
    ∃ log, Run s log ⟨(s.registry.loadAll files directory).1, s.calls⟩ := by
  rw [Registry.loadAll_eq, ← turn_idle h]
  cases files.walk (FileTree.pathOf directory) with
  | error f =>
    rw [turn_idle h]
    exact ⟨[], .done s⟩
  | ok paths =>
    obtain ⟨log, hrun⟩ := run_addDocuments (turn_calls s c .walking s.registry) files
      (paths.filter (SlashPath.extension · == ".tld"))
    rw [turn_turn] at hrun
    exact ⟨log, .silent (.callLoadAll h) hrun⟩

end SharedRegistry

end ServerPages
