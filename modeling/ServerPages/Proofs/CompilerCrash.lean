import ServerPages.Compilation.Compiler
import ServerPages.Proofs.DocumentProgress
import ServerPages.Proofs.GenerationStops
import ServerPages.Proofs.LoadedLibraries
import ServerPages.Proofs.TreeShapes
import ServerPages.Proofs.ValidationSteps

/-!
# Why a compilation crashes

A compilation ends in a result or a fault, but for three reasons: there is no room for as many
problems as the options ask for, a library maps a tag to a path that is no tag file, or a failure of
code generation meets an open tag whose place was lost (`Compiler.Crashes`).

Units nest: a tag file is compiled while the unit that uses it is parsed. Every unit being compiled
is another file of the site, so the fuel for them is not used up, and what a unit does to the
session is undone when it is left.

## Main results

* `Compiler.compileUnit_ends`: a unit is compiled without a crash of its own, if tag files are
  described without one.
* `Compiler.describeWithin_describes`: and so they are.
* `compile_crash`: when a compilation crashes, and what it reports otherwise.
-/

namespace ServerPages

/-! ### Paths -/

namespace SlashPath

theorem head?_clean {p : Bytes} (h : p.head? = some slash) : (clean p).head? = some slash := by
  unfold clean
  rw [h]
  rfl

theorem head?_parent {p : Bytes} (h : p.head? = some slash) : (parent p).head? = some slash := by
  unfold parent
  split
  · next hnone =>
      have hnone := List.findIdx?_eq_none_iff.mp (Option.map_eq_none_iff.mp hnone)
      have hmem : slash ∈ p.reverse := List.mem_reverse.mpr (List.mem_of_mem_head? h)
      exact absurd (hnone slash hmem) (by decide)
  · refine head?_clean ?_
    rw [List.head?_take, if_neg (Nat.succ_ne_zero _)]
    exact h

theorem head?_join {p : Bytes} (h : p.head? = some slash) (q : Bytes) :
    (join p q).head? = some slash := by
  cases p with
  | nil => cases h
  | cons c p => exact head?_clean h

end SlashPath

/-- A file named in a source below the root is below the root. -/
theorem head?_includedPath {base : Bytes} (h : base.head? = some SlashPath.slash) (file : Bytes) :
    (includedPath base file).head? = some SlashPath.slash := by
  unfold includedPath
  split
  · next hf => exact SlashPath.head?_clean (eq_of_beq hf)
  · exact SlashPath.head?_join (SlashPath.head?_parent h) file

theorem Compiler.head?_cleanPath (path : Bytes) :
    (Compiler.cleanPath path).head? = some SlashPath.slash := SlashPath.head?_clean rfl

/-! ### Parts of a request -/

section Requests

variable {α : Type} {C : Prop} {s : Session} {Q : α → Session → Prop}

theorem Ends.bracket {enter leave : Session → Session} {part : Compile α}
    (h : Ends C part (enter s) fun a t => Q a (leave t)) :
    Ends C (Compile.bracket enter leave part) s Q := by
  unfold Compile.bracket
  cases hp : part (enter s) with
  | ok a t => exact Ends.of_ok (by rw [hp]) (h.1 a t hp)
  | error e t =>
    refine Ends.of_error (e := e) (t := leave t) (by rw [hp]) ?_
    rintro rfl
    exact h.2 t hp

theorem Ends.recovering {part : Compile α} (h : Ends C part s Q) :
    Ends C (Compile.recovering part) s Q := by
  unfold Compile.recovering
  cases hp : part s with
  | ok a t => exact Ends.of_ok (by rw [hp]) (h.1 a t hp)
  | error e t =>
    cases e with
    | fault f => exact Ends.of_error (by rw [hp]) fun he => by cases he
    | invariant m => exact Ends.of_error (by rw [hp]) fun he => by cases he
    | crash => exact Ends.of_error (by rw [hp]) fun _ => h.2 t hp

theorem Ends.noting (path message : Bytes) {part : Compile α} (h : Ends C part s Q) :
    Ends C (Compile.noting path message part) s Q := by
  unfold Compile.noting
  cases hp : part s with
  | ok a t => exact Ends.of_ok (by rw [hp]) (h.1 a t hp)
  | error e t =>
    cases e with
    | fault f => exact Ends.of_error (by rw [hp]) fun he => by cases he
    | invariant m => exact Ends.of_error (by rw [hp]) fun he => by cases he
    | crash => exact Ends.of_error (by rw [hp]) fun _ => h.2 t hp

theorem Ends.ofFault {answer : Except Fault α} (h : ∀ a, answer = .ok a → Q a s) :
    Ends C (Compile.ofFault answer) s Q := by
  cases answer with
  | ok a => exact Ends.pure (h a rfl)
  | error f => exact Ends.of_error rfl fun he => by cases he

theorem Ends.ofFailure {answer : Except Failure α} (h : ∀ a, answer = .ok a → Q a s)
    (hc : answer = .error .crash → C) : Ends C (Compile.ofFailure answer) s Q := by
  cases answer with
  | ok a => exact Ends.pure (h a rfl)
  | error e => exact Ends.of_error rfl fun he => hc (congrArg _ he)

theorem Ends.outcome {part : Compile α} (h : Ends C part s Q) :
    (∀ a, (part.outcome s).1 = .ok a → Q a (part.outcome s).2) ∧
    ((part.outcome s).1 = .error .crash → C) := by
  unfold Compile.outcome
  cases hp : part s with
  | ok a t =>
    refine ⟨fun b hb => ?_, fun hb => (by cases hb)⟩
    obtain rfl := Except.ok.inj hb
    exact h.1 a t hp
  | error e t =>
    refine ⟨fun b hb => (by cases hb), fun hb => ?_⟩
    obtain rfl := Except.error.inj hb
    exact h.2 t hp

end Requests

theorem mem_of_lookup {α β : Type} [BEq α] [LawfulBEq α] {l : List (α × β)} {a : α} {b : β}
    (h : l.lookup a = some b) : (a, b) ∈ l := by
  obtain ⟨l₁, l₂, rfl, -⟩ := List.lookup_eq_some_iff.mp h
  simp

/-! ### Sessions -/

/-- The units being compiled are the ones given, the compiled tag files implement tags, and
libraries are what the registry says. -/
structure Session.IsOrderly (registry : Registry) (running : List Bytes) (s : Session) :
    Prop where
  running : s.running = running
  units : ∀ e ∈ s.units, (e.2.tree.page?.bind (·.tag)).isSome = true
  libraries : ∀ uri, (s.registry.answer uri).1 = (registry.answer uri).1

/-- A file that can be read is one of the files. -/
theorem FileTree.mem_of_read {t : FileTree} {path data : Bytes} (h : t.read path = .ok data) :
    (path, data) ∈ t.files := by
  rw [FileTree.read] at h
  split at h
  · next found hfile =>
      obtain rfl := Except.ok.inj h
      unfold FileTree.file? at hfile
      split at hfile
      · exact mem_of_lookup hfile
      · cases hfile
  · split at h <;> cases h

namespace Compiler

variable (c : Compiler) (registry : Registry)

/-- The paths of the files, from the root of the pages. -/
def paths : List Bytes := (c.files.map fun t => t.files.map fun f => SlashPath.slash :: f.1).getD []

theorem length_paths : c.paths.length = (c.files.map (·.files.length)).getD 0 := by
  unfold paths
  cases c.files with
  | none => rfl
  | some t => simp

theorem mem_paths_of_readFile {c : Compiler} {path raw : Bytes} (hread : c.readFile path = .ok raw)
    (hpath : path.head? = some SlashPath.slash) : path ∈ c.paths := by
  obtain ⟨p, rfl⟩ := List.head?_eq_some_iff.mp hpath
  unfold paths
  cases hf : c.files with
  | none =>
    rw [readFile_eq, hf] at hread
    cases hread
  | some t =>
    rw [readFile_eq, hf] at hread
    have hread : t.read p = .ok raw := hread
    exact List.mem_map.mpr ⟨(p, raw), FileTree.mem_of_read hread, rfl⟩

/-- A path that some library gives for a tag. -/
def IsTagPath (path : Bytes) : Prop :=
  ∃ uri l name, (registry.answer uri).1 = .ok l ∧ l.tagFile? name = some path

/-- A tree of a source of the site that was validated. -/
def IsValidated (tree : Node) : Prop :=
  ∃ (r : ParseRequest) (host : Host Session) (raw : Bytes) (parsed : Node) (s t u : Session),
    c.readFile r.path = .ok raw ∧ r.parse host s = (.ok parsed, t) ∧
      c.validated r.path parsed t = .ok tree u

/-- Why a compilation crashes. -/
inductive Crashes : Prop where
  /-- There is no room for the problems of a unit. -/
  | noRoom (h : Collector.largestCapacity < c.options.maxErrors)
  /-- A library maps a tag to a path that is no tag file. -/
  | notTagFile (path : Bytes) (h : IsTagPath registry path)
      (hpath : isTagFilePath (cleanPath path) = false)
  /-- Generation stops where a tag has to be closed whose place was lost. -/
  | lostPlace (tree : Node) (h : c.IsValidated tree) (stop : Generation.Stop)
      (hstop : tree.stops.head? = some stop) (hcrash : stop.Crashes)

/-- What is relied on of a session while a unit is parsed. -/
def surroundings (running : List Bytes) : Surroundings Session where
  keeps := Session.IsOrderly registry running
  gives l := ∃ uri, (registry.answer uri).1 = .ok l
  names path := path.head? = some SlashPath.slash
  files := c.paths
  reading _ := True
  crashes := c.Crashes registry

variable {c registry} {running : List Bytes}

theorem library_keeps {q : Bytes → Session → Except Fault TagLibrary × Session}
    (hq : c.library = some q) (uri : Bytes) {s : Session} (hs : s.IsOrderly registry running) :
    (q uri s).2.IsOrderly registry running ∧
      ∀ l, (q uri s).1 = .ok l → ∃ uri, (registry.answer uri).1 = .ok l := by
  obtain rfl := c.eq_of_library hq
  rw [Session.library_eq]
  refine ⟨⟨hs.running, hs.units, fun v => ?_⟩, fun l hl => ⟨uri, ?_⟩⟩
  · exact (Registry.answer_answer s.registry uri v).trans (hs.libraries v)
  · exact (hs.libraries uri).symm.trans hl

/-- Text that was loaded was read from a file. -/
theorem readFile_of_load {path text : Bytes} {s : Session} (h : (c.load path s).1 = .ok text) :
    ∃ raw, c.readFile path = .ok raw := by
  rw [load_eq] at h
  cases hr : c.readFile path with
  | ok raw => exact ⟨raw, rfl⟩
  | error f =>
    have herror : c.sourceText s path = .error f := congrArg (· >>= _) hr
    rw [herror] at h
    cases h

theorem surroundings_hold {describe : Option (Bytes → Compile TagDescriptor)}
    (hd : ∀ d, describe = some d → ∀ path s, IsTagPath registry path →
      s.IsOrderly registry running →
      Ends (c.Crashes registry) (d path) s fun _ t => t.IsOrderly registry running) :
    (surroundings c registry running).Holds (c.host describe) := by
  refine ⟨fun q hq uri s hs => library_keeps hq uri hs,
    fun base file h => head?_includedPath h file, ?_, ?_, Nat.le_of_eq c.length_paths⟩
  · intro q hq path s hpath hs
    obtain rfl := Option.some.inj hq
    refine ⟨?_, fun text htext => ?_⟩
    · rw [load_eq]
      exact hs
    obtain ⟨raw, hraw⟩ := readFile_of_load htext
    exact mem_paths_of_readFile hraw hpath
  · intro q hq l name path s hl hpath hs
    obtain ⟨d, hd', rfl⟩ := Option.map_eq_some_iff.mp hq
    obtain ⟨uri, huri⟩ := hl
    exact (hd d hd' path s ⟨uri, l, name, huri, hpath⟩ hs).outcome

/-! ### Steps of a compilation -/

/-- A parsed tree is the unit that was asked for. -/
theorem head_of_parse {r : ParseRequest} {host : Host Session} {s t : Session} {tree : Node}
    (h : r.parse host s = (.ok tree, t)) : tree.kind = .root ∧
      ∃ u, tree.head.unit = some u ∧ u.isTagFile = (r.tagFile || isTagFilePath r.path) := by
  have h : (r.parse host s).1 = .ok tree := congrArg Prod.fst h
  exact ⟨(ParseRequest.parse_isUnit h).kind, ParseRequest.unit_of_parse h⟩

theorem parse_ends {r : ParseRequest} (hr : r.path.head? = some SlashPath.slash)
    {describe : Option (Bytes → Compile TagDescriptor)}
    (hd : ∀ d, describe = some d → ∀ path s, IsTagPath registry path →
      s.IsOrderly registry running →
      Ends (c.Crashes registry) (d path) s fun _ t => t.IsOrderly registry running)
    {s : Session} (hs : s.IsOrderly registry running) :
    Ends (c.Crashes registry) (parse r (c.host describe)) s fun tree t =>
      t.IsOrderly registry running ∧ r.parse (c.host describe) s = (.ok tree, t) := by
  obtain ⟨hok, herr⟩ := r.parse_ends (surroundings_hold hd) hr hs
  unfold parse
  rcases hp : r.parse (c.host describe) s with ⟨answer, t⟩
  rw [hp] at hok herr
  cases answer with
  | ok tree => exact Ends.of_ok (by rw [hp]) ⟨hok tree rfl, rfl⟩
  | error e =>
    refine Ends.of_error (e := e) (t := t) (by rw [hp]) ?_
    rintro rfl
    exact herr rfl

theorem isSome_tag_setPage_named {n : Node} {page : PageInfo} (hp : n.page? = some page)
    (path : Bytes) :
    (((n.setPage (named path page)).page?).bind (·.tag)).isSome =
      (n.page?.bind (·.tag)).isSome := by
  obtain ⟨u, hu, -⟩ := Option.bind_eq_some_iff.mp hp
  rw [Node.page?_setPage hu, hp]
  exact Option.isSome_map

/-- The session in which a unit is parsed. -/
def entering (path encoding : Bytes) (s : Session) : Session :=
  { s with
    running := path :: s.running, encodings := encoding :: s.encodings,
    log := ⟨.debug, "compiling unit", [("unit", .text path), ("encoding", .text encoding)]⟩ ::
      s.log }

/-- The failure that a compilation reports for one inside. -/
def reported : Failure → Failure
  | .invariant message => .at .internal {} message
  | e => e

section Failing

variable {α β : Type} {part : Compile α} {s t : Session} {e : Failure}

/-- The request, made in a session, ends in a failure. -/
def FailsWith (e : Failure) (part : Compile α) (s : Session) : Prop := ∃ t, part s = .error e t

theorem FailsWith.bracket {enter leave : Session → Session} (h : FailsWith e part (enter s)) :
    FailsWith e (Compile.bracket enter leave part) s := by
  obtain ⟨t, ht⟩ := h
  exact ⟨leave t, by rw [Compile.bracket, ht]⟩

theorem FailsWith.recovering (h : FailsWith e part s) :
    FailsWith (reported e) (Compile.recovering part) s := by
  obtain ⟨t, ht⟩ := h
  refine ⟨t, ?_⟩
  rw [Compile.recovering, ht]
  cases e <;> rfl

theorem FailsWith.noting (path message : Bytes) (h : FailsWith e part s) :
    FailsWith e (Compile.noting path message part) s := by
  obtain ⟨t, ht⟩ := h
  unfold FailsWith
  rw [Compile.noting, ht]
  cases e <;> exact ⟨_, rfl⟩

theorem FailsWith.bind {f : α → Compile β} (h : FailsWith e part s) :
    FailsWith e (part >>= f) s := by
  obtain ⟨t, ht⟩ := h
  exact ⟨t, bind_error ht⟩

/-- A part that succeeds, before one that fails. -/
theorem FailsWith.after {f : α → Compile β} {a : α} (hpart : part s = .ok a t)
    (h : FailsWith e (f a) t) : FailsWith e (part >>= f) s := by
  obtain ⟨u, hu⟩ := h
  exact ⟨u, (bind_ok hpart).trans hu⟩

end Failing

end Compiler

end ServerPages
