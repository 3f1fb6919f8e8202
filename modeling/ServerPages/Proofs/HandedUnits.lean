import ServerPages.Proofs.CleanSession

/-!
# Which compiled tag files are handed out

A request hands its unit to the caller, and with it the tag files that were compiled on its way. A
request that fails hands out nothing, but the tag files that were compiled before it failed stay
known: later requests use them and do not compile them again. So they are lost to the caller, until
it asks for them by their own paths.

## Main results

* `handed_of_reaches`: a tag file that a unit uses was handed out, unless a request that failed
  compiled it or a tag file through which it is used.
-/

namespace ServerPages

namespace Compiler

variable (c : Compiler)

/-- The units that some requests hand out, one request after the other. -/
def handed : List Bytes → Session → List CompiledUnit
  | [], _ => []
  | path :: history, s =>
    match (c.compile path).outcome s with
    | (.ok r, t) => r.unit :: (r.auxiliary ++ handed history t)
    | (.error _, t) => handed history t

/-- The tag files that are compiled on the way of requests that fail. -/
def lost : List Bytes → Session → List CompiledUnit
  | [], _ => []
  | path :: history, s =>
    match (c.compile path).outcome s with
    | (.ok _, t) => lost history t
    | (.error _, t) => t.auxiliary.drop s.auxiliary.length ++ lost history t

/-- The tag file at a path is used by a tree, directly or by tag files that it uses. -/
inductive Reaches (registry : Registry) (units : List CompiledUnit) : Node → Bytes → Prop where
  | invoked {n : Node} {path : Bytes} (h : Invokes registry n path) :
    Reaches registry units n path
  | through {n : Node} {path : Bytes} {u : CompiledUnit} (hu : u ∈ units)
    (h : Invokes registry n u.path) (hpath : Reaches registry units u.tree path) :
    Reaches registry units n path

variable {c} {registry : Registry}

/-- What a session owes to the units handed out and to those that were lost. -/
structure Settles (registry : Registry) (given gone : List CompiledUnit) (s : Session) :
    Prop where
  ready : s.IsReady registry
  running : s.running = []
  units : ∀ e ∈ s.units, e.2.path = e.1 ∧ (e.2 ∈ given ∨ e.2 ∈ gone)
  known : ∀ u ∈ gone, u.path ∈ s.known
  complete : ∀ u ∈ given, u ∈ gone ∨ ∀ path, Invokes registry u.tree path →
    path ∈ s.known ∨ ∃ w ∈ given, w.path = path

variable {given gone : List CompiledUnit} {s t : Session}

theorem settles_fresh (registry : Registry) : Settles registry [] [] { registry := registry } where
  ready := ⟨fun _ => rfl, fun _ h => absurd h List.not_mem_nil⟩
  running := rfl
  units _ h := absurd h List.not_mem_nil
  known _ h := absurd h List.not_mem_nil
  complete _ h := absurd h List.not_mem_nil

theorem drop_auxiliary {new : List (Bytes × CompiledUnit)}
    (h : t.auxiliary = s.auxiliary ++ (new.map (·.2)).reverse) :
    t.auxiliary.drop s.auxiliary.length = (new.map (·.2)).reverse := by
  rw [h, List.drop_left]

/-- What a request that fails compiled on its way is lost. -/
theorem Settles.follows (h : Settles registry given gone s) (ht : s.Follows registry t) :
    Settles registry given (gone ++ t.auxiliary.drop s.auxiliary.length) t := by
  obtain ⟨new, hgrow⟩ := ht
  rw [drop_auxiliary hgrow.auxiliary]
  have hmem (e : Bytes × CompiledUnit) (he : e ∈ new) : e.2 ∈ (new.map (·.2)).reverse :=
    List.mem_reverse.mpr (List.mem_map_of_mem he)
  refine ⟨hgrow.isReady h.ready, hgrow.running.trans h.running, fun e he => ?_, fun u hu => ?_,
    fun u hu => ?_⟩
  · rw [hgrow.units, List.mem_append] at he
    rcases he with he | he
    · exact ⟨hgrow.paths e he, Or.inr (List.mem_append_right _ (hmem e he))⟩
    · exact ⟨(h.units e he).1, (h.units e he).2.imp id (List.mem_append_left _)⟩
  · rw [hgrow.known, List.mem_append]
    rcases List.mem_append.mp hu with hu | hu
    · exact Or.inr (h.known u hu)
    · obtain ⟨e, he, rfl⟩ := List.mem_map.mp (List.mem_reverse.mp hu)
      rw [hgrow.paths e he]
      exact Or.inl (List.mem_map_of_mem he)
  · refine (h.complete u hu).imp (List.mem_append_left _) fun hall path hpath => ?_
    rw [hgrow.known]
    exact (hall path hpath).imp (List.mem_append_right _) id

/-- What a request that succeeds compiled is handed out. -/
theorem Settles.compiles (h : Settles registry given gone s) {path : Bytes} {u : CompiledUnit}
    (hu : s.Compiles registry path u t) :
    Settles registry (given ++ u :: t.auxiliary.drop s.auxiliary.length) gone t := by
  obtain ⟨new, event, rest, hgrow, -, -, -, hinvokes⟩ := hu.grows
  rw [drop_auxiliary (t := t) hgrow.auxiliary]
  have hunits : t.units = new ++ s.units := hgrow.units
  have hknown : t.known = new.map (·.1) ++ s.known := hgrow.known
  have hready := hgrow.isReady h.ready
  have hmem (e : Bytes × CompiledUnit) (he : e ∈ new) :
      e.2 ∈ given ++ u :: (new.map (·.2)).reverse :=
    List.mem_append_right _ (List.mem_cons_of_mem _ (List.mem_reverse.mpr (List.mem_map_of_mem he)))
  have hcomplete (n : Node) (hn : n ∈ u.tree :: new.map (·.2.tree)) (f : Bytes)
      (hf : Invokes registry n f) :
      f ∈ t.known ∨ ∃ w ∈ given ++ u :: (new.map (·.2)).reverse, w.path = f := by
    refine (hinvokes n hn f hf).imp id fun hf => ⟨u, by simp, hu.path_eq.trans ?_⟩
    rw [h.running, List.mem_singleton] at hf
    exact hf.symm
  refine ⟨⟨hready.libraries, hready.signatures⟩, hgrow.running.trans h.running, fun e he => ?_,
    fun w hw => ?_, fun w hw => ?_⟩
  · rw [hunits, List.mem_append] at he
    rcases he with he | he
    · exact ⟨hgrow.paths e he, Or.inl (hmem e he)⟩
    · exact ⟨(h.units e he).1, (h.units e he).2.imp (List.mem_append_left _) id⟩
  · rw [hknown]
    exact List.mem_append_right _ (h.known w hw)
  · rcases List.mem_append.mp hw with hw | hw
    · refine (h.complete w hw).imp id fun hall f hf => ?_
      rw [hknown]
      exact (hall f hf).imp (List.mem_append_right _) fun ⟨g, hg, hgf⟩ =>
        ⟨g, List.mem_append_left _ hg, hgf⟩
    · rcases List.mem_cons.mp hw with rfl | hw
      · exact Or.inr (hcomplete _ List.mem_cons_self)
      · obtain ⟨e, he, rfl⟩ := List.mem_map.mp (List.mem_reverse.mp hw)
        exact Or.inr (hcomplete _ (List.mem_cons_of_mem _ (List.mem_map_of_mem he)))

/-- A unit that was handed out may be kept. -/
theorem Settles.keep (h : Settles registry given gone s) {u : CompiledUnit} (hu : u ∈ given) :
    Settles registry given gone { s with units := (u.path, u) :: s.units } where
  ready := ⟨h.ready.libraries, fun e he => List.mem_cons_of_mem _ (h.ready.signatures e he)⟩
  running := h.running
  units := List.forall_mem_cons.mpr ⟨⟨rfl, Or.inl hu⟩, h.units⟩
  known w hw := List.mem_cons_of_mem _ (h.known w hw)
  complete w hw := (h.complete w hw).imp id fun hall f hf =>
    (hall f hf).imp (List.mem_cons_of_mem _) id

/-- A tag file that is known is handed out once more. -/
theorem Settles.again (h : Settles registry given gone s) {path : Bytes} {u : CompiledUnit}
    (hu : s.units.lookup path = some u) : Settles registry (given ++ [u]) gone s := by
  obtain ⟨hpath, hwhere⟩ := h.units _ (mem_of_lookup hu)
  have hall (w : CompiledUnit) (hw : w ∈ given) : w ∈ gone ∨ ∀ path,
      Invokes registry w.tree path → path ∈ s.known ∨ ∃ g ∈ given ++ [u], g.path = path :=
    (h.complete w hw).imp id fun hall f hf => (hall f hf).imp id fun ⟨g, hg, hgf⟩ =>
      ⟨g, List.mem_append_left _ hg, hgf⟩
  refine ⟨h.ready, h.running, fun e he => ?_, h.known, fun w hw => ?_⟩
  · exact ⟨(h.units e he).1, (h.units e he).2.imp (List.mem_append_left _) id⟩
  · rcases List.mem_append.mp hw with hw | hw
    · exact hall w hw
    · obtain rfl := List.mem_singleton.mp hw
      exact hwhere.elim (hall w) Or.inl

/-- One request settles what it compiled. -/
theorem settles_compile (path : Bytes) (h : Settles registry given gone s) :
    Leaves (fun t => Settles registry given (gone ++ t.auxiliary.drop s.auxiliary.length) t)
      (c.compile path) s
      fun r t => Settles registry (given ++ r.unit :: r.auxiliary) gone t := by
  refine (compile_grows path h.ready).mono (fun t ht => h.follows ht) fun r t ht => ?_
  rcases ht with ⟨u, hu, rfl, rfl⟩ | ⟨-, v, hv, haux, rfl⟩
  · exact h.again hu
  · have hsettled := h.compiles hv
    rw [← haux] at hsettled
    split
    · have hkept := hsettled.keep (u := r.unit) (by simp)
      rwa [hv.path_eq] at hkept
    · exact hsettled

/-- All units are settled after some requests. -/
theorem settles_after (history : List Bytes) (h : Settles registry given gone s) :
    Settles registry (given ++ c.handed history s) (gone ++ c.lost history s)
      (c.after history s) := by
  induction history generalizing given gone s with
  | nil => simpa [handed, lost, after] using h
  | cons path history ih =>
    obtain ⟨hok, herr⟩ := (settles_compile (c := c) path h).outcome
    rw [handed, lost, after, List.foldl_cons]
    rcases ho : (c.compile path).outcome s with ⟨e | r, t⟩
    · have hnext := ih (herr e t ho)
      rw [List.append_assoc] at hnext
      exact hnext
    · have hnext := ih (hok r t ho)
      rw [List.append_assoc] at hnext
      exact hnext

/-- A unit that was handed out uses tag files that were handed out, or lost. -/
theorem Settles.reaches (h : Settles registry given gone s) {units : List CompiledUnit}
    (hunits : ∀ u ∈ units, u ∈ given ∨ u ∈ gone) {u : CompiledUnit} (hu : u ∈ given) {path : Bytes}
    (hpath : Reaches registry units u.tree path) :
    (∃ w ∈ given, w.path = path) ∨
      ∃ g ∈ gone, g.path = path ∨ Reaches registry units g.tree path := by
  generalize hn : u.tree = n at hpath
  induction hpath generalizing u with
  | @invoked n path hinvoked =>
    subst hn
    rcases h.complete u hu with hgone | hall
    · exact Or.inr ⟨u, hgone, Or.inr (.invoked hinvoked)⟩
    · refine (hall path hinvoked).elim (fun hknown => ?_) Or.inl
      obtain ⟨e, he, rfl⟩ := List.mem_map.mp hknown
      obtain ⟨hpath, hwhere⟩ := h.units e he
      exact hwhere.imp (fun hw => ⟨e.2, hw, hpath⟩) fun hg => ⟨e.2, hg, Or.inl hpath⟩
  | @through n path g hg hinvoked hreaches ih =>
    rcases hunits g hg with hgiven | hgone
    · exact ih hgiven rfl
    · exact Or.inr ⟨g, hgone, Or.inr hreaches⟩

/-- A request hands out no tag file that is known, but for the one that it asks for. -/
theorem not_handed_compile {path : Bytes} (h : Settles registry given gone s)
    (hpath : path ∈ s.known) {p : Bytes} (hp : cleanPath p ≠ path) :
    Leaves (fun t => path ∈ t.known) (c.compile p) s fun r t =>
      path ∈ t.known ∧ ∀ u ∈ r.unit :: r.auxiliary, u.path ≠ path := by
  have hkeeps {t : Session} {new : List (Bytes × CompiledUnit)} (ht : t.known =
      new.map (·.1) ++ s.known) : path ∈ t.known := ht ▸ List.mem_append_right _ hpath
  refine (compile_grows p h.ready).mono (fun t ⟨new, ht⟩ => hkeeps ht.known) fun r t ht => ?_
  rcases ht with ⟨u, hu, rfl, rfl⟩ | ⟨-, v, hv, haux, rfl⟩
  · refine ⟨hpath, fun w hw => ?_⟩
    obtain rfl := List.mem_singleton.mp hw
    rwa [(h.units _ (mem_of_lookup hu)).1]
  · obtain ⟨new, event, rest, hgrow, -⟩ := hv.grows
    have hknown : path ∈ v.known := hkeeps (t := v) hgrow.known
    refine ⟨?_, List.forall_mem_cons.mpr ⟨hv.path_eq ▸ hp, fun w hw => ?_⟩⟩
    · split
      · exact List.mem_cons_of_mem _ hknown
      · exact hknown
    · rw [haux, drop_auxiliary (t := v) hgrow.auxiliary] at hw
      obtain ⟨e, he, rfl⟩ := List.mem_map.mp (List.mem_reverse.mp hw)
      rw [hgrow.paths e he]
      rintro rfl
      exact (hgrow.fresh e.1 (List.mem_map_of_mem he)).2 hpath

/-- A tag file that is known is not handed out, as long as it is not asked for. -/
theorem not_handed {path : Bytes} (history : List Bytes) (h : Settles registry given gone s)
    (hpath : path ∈ s.known) (hnot : ∀ p ∈ history, cleanPath p ≠ path) :
    ∀ u ∈ c.handed history s, u.path ≠ path := by
  induction history generalizing given gone s with
  | nil => exact fun u hu => absurd hu List.not_mem_nil
  | cons p history ih =>
    obtain ⟨hp, hnot⟩ := List.forall_mem_cons.mp hnot
    obtain ⟨hok, herr⟩ := (settles_compile (c := c) p h).outcome
    obtain ⟨hok', herr'⟩ := (not_handed_compile (c := c) h hpath hp).outcome
    rw [handed]
    rcases ho : (c.compile p).outcome s with ⟨e | r, t⟩
    · exact ih (herr e t ho) (herr' e t ho) hnot
    · obtain ⟨hknown, hunits⟩ := hok' r t ho
      have hlater := ih (hok r t ho) hknown hnot
      intro u hu
      dsimp only at hu
      rw [← List.cons_append, List.mem_append] at hu
      exact hu.elim (hunits u) (hlater u)

end Compiler

/-- **A tag file is lost only with a request that fails.** Whenever a request succeeds, after any
others, every tag file that its unit uses has been handed out by it or by an earlier one, unless a
request that failed compiled that tag file, or one through which it is used. Such a tag file is not
handed out by any request but one for its own path. -/
theorem handed_of_reaches (c : Compiler) (registry : Registry) (history : List Bytes) (path : Bytes)
    (r : Compilation) (s t : Session) (hs : s = c.after history { registry := registry })
    (h : c.compile path s = .ok r t) (given gone : List CompiledUnit)
    (hgiven : given = c.handed history { registry := registry } ++ r.unit :: r.auxiliary)
    (hgone : gone = c.lost history { registry := registry }) :
    (∀ f, Compiler.Reaches registry (given ++ gone) r.unit.tree f →
      (∃ u ∈ given, u.path = f) ∨
      ∃ g ∈ gone, g.path = f ∨ Compiler.Reaches registry (given ++ gone) g.tree f) ∧
    ∀ g ∈ gone, ∀ later : List Bytes, (∀ p ∈ later, Compiler.cleanPath p ≠ g.path) →
      ∀ u ∈ c.handed later s, u.path ≠ g.path := by
  have hsettled : Compiler.Settles registry (c.handed history { registry := registry }) gone s := by
    have hafter := Compiler.settles_after (c := c) history (Compiler.settles_fresh registry)
    rwa [List.nil_append, List.nil_append, ← hgone, ← hs] at hafter
  refine ⟨fun f hf => ?_, fun g hg later hlater => ?_⟩
  · have hdone : Compiler.Settles registry given gone t := by
      rw [hgiven]
      exact (Compiler.settles_compile path hsettled).1 r t h
    refine hdone.reaches (fun u hu => List.mem_append.mp hu) ?_ hf
    rw [hgiven]
    simp
  · exact Compiler.not_handed later hsettled (hsettled.known g hg) hlater

/-- A library of one tag that a tag file implements. -/
def noteTags : Registry where
  bound := [("urn:t", { uri := "urn:t", tagFiles := [("f", "/f.tag")] })]

/-- A site with two pages that use a tag file, the first of them with an unknown directive. -/
def noteSite : Compiler where
  files := some {
    files := [("a.jsp", "<%@taglib prefix=\"t\" uri=\"urn:t\"%><t:f/><%@ nope %>"),
      ("b.jsp", "<%@taglib prefix=\"t\" uri=\"urn:t\"%><t:f/>"), ("f.tag", "x")] }

/-- The session after the request for the first page, which failed. -/
def noteSession : Session := noteSite.after ["/a.jsp"] { registry := noteTags }

/-- The units handed out when a compilation is given after that. -/
def noteGiven (r : Compilation) : List CompiledUnit :=
  noteSite.handed ["/a.jsp"] { registry := noteTags } ++ r.unit :: r.auxiliary

theorem handed_of_reaches_note : ∃ r t, noteSite.compile "/b.jsp" noteSession = .ok r t ∧
    Compiler.Invokes noteTags r.unit.tree "/f.tag" ∧ (∀ u ∈ noteGiven r, u.path ≠ "/f.tag") ∧
    ∃ g ∈ noteSite.lost ["/a.jsp"] { registry := noteTags }, g.path = "/f.tag" ∨
      Compiler.Reaches noteTags (noteGiven r ++ noteSite.lost ["/a.jsp"] { registry := noteTags })
        g.tree "/f.tag" := by
  have hrun : (match noteSite.compile "/b.jsp" noteSession with
      | .ok r _ => r.unit.tree.targets.contains ("urn:t", "f") &&
          (noteGiven r).all (·.path != "/f.tag")
      | .error _ _ => false) = true := by decide +kernel
  cases h : noteSite.compile "/b.jsp" noteSession with
  | error e t =>
    rw [h] at hrun
    cases hrun
  | ok r t =>
    rw [h, Bool.and_eq_true, List.contains_iff_mem, List.all_eq_true] at hrun
    obtain ⟨htarget, hgiven⟩ := hrun
    have hinvokes : Compiler.Invokes noteTags r.unit.tree "/f.tag" :=
      ⟨_, htarget, _, "/f.tag", rfl, rfl, rfl, by decide⟩
    have hne (u : CompiledUnit) (hu : u ∈ noteGiven r) : u.path ≠ "/f.tag" := by
      simpa using hgiven u hu
    obtain ⟨hreach, -⟩ := handed_of_reaches noteSite noteTags ["/a.jsp"] "/b.jsp" r noteSession t
      rfl h (noteGiven r) _ rfl rfl
    refine ⟨r, t, rfl, hinvokes, hne, (hreach "/f.tag" (.invoked hinvokes)).resolve_left ?_⟩
    exact fun ⟨u, hu, hpath⟩ => hne u hu hpath

end ServerPages
