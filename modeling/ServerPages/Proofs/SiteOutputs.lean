import ServerPages.CommandLine.Site
import ServerPages.Proofs.CleanPaths
import ServerPages.Proofs.CleanSession
import ServerPages.Proofs.LoadedLibraries

/-!
# What the compile command leaves behind

The compile command writes every unit once, next to the place of its source. The name of the file is
that of the source with its dots and dashes replaced, so units of one directory may share a file,
and the last one written is what is left there.

Units are made in one place, from a clean path whose file was read. So whatever holds of every unit
that is made so holds of every unit that a session keeps and that a request hands out.

## Main definitions

* `Site.unitsOf`: the units that some pages are compiled to.
* `Site.newUnits`: of some units, the first of each path.
* `CompiledUnit.SharesFile`: units that are written to the same file.

## Main results

* `Compiler.compile_made`: what all units have in common that a request hands out.
* `Site.target_eq_iff`: which units have the same target.
* `Site.runCommand_outputs`: what is left after a command that succeeds.
-/

namespace ServerPages

/-- What the session keeps has the property, and its units are known by their paths. -/
structure Session.IsMadeOf (P : CompiledUnit → Prop) (s : Session) : Prop where
  units : ∀ e ∈ s.units, P e.2 ∧ e.2.path = e.1
  auxiliary : ∀ u ∈ s.auxiliary, P u

namespace Compiler

variable {c : Compiler} {P : CompiledUnit → Prop}

/-- The property is one that every unit has when it is made. -/
def Makes (c : Compiler) (P : CompiledUnit → Prop) : Prop :=
  ∀ path encoding code, IsPagePath path → (∃ raw, c.readFile path = .ok raw) →
    P (unitOf path encoding code)

/-- The request keeps a session of such units. -/
abbrev KeepsMade {α : Type} (P : CompiledUnit → Prop) (x : Compile α) : Prop :=
  ∀ s : Session, s.IsMadeOf P → Leaves (·.IsMadeOf P) x s fun _ t => t.IsMadeOf P

theorem library_made {q : Bytes → Session → Except Fault TagLibrary × Session}
    (hq : c.library = some q) (uri : Bytes) {s : Session} (hs : s.IsMadeOf P) :
    (q uri s).2.IsMadeOf P := by
  obtain rfl := c.eq_of_library hq
  rw [Session.library_eq]
  exact ⟨hs.units, hs.auxiliary⟩

theorem parse_made (request : ParseRequest) {describe : Option (Bytes → Compile TagDescriptor)}
    (hd : ∀ d ∈ describe, ∀ path, KeepsMade P (d path)) :
    KeepsMade P (parse request (c.host describe)) := by
  intro s hs
  have hhost : (c.host describe).Respects fun s t : Session => t = s ∧ s.IsMadeOf P := by
    refine ⟨fun q hq uri s t h => ?_, fun q hq path s t h => ?_, fun q hq path s t h => ?_⟩
    · obtain ⟨rfl, h⟩ := h
      exact ⟨rfl, rfl, library_made hq uri h⟩
    · obtain ⟨rfl, h⟩ := h
      obtain rfl := Option.some.inj hq
      rw [load_eq]
      exact ⟨rfl, rfl, h⟩
    · obtain ⟨rfl, h⟩ := h
      obtain ⟨d, hmem, rfl⟩ := Option.map_eq_some_iff.mp hq
      obtain ⟨hok, herror⟩ := (hd d hmem path t h).outcome
      refine ⟨rfl, rfl, ?_⟩
      show ((d path).outcome t).2.IsMadeOf P
      rcases houtcome : (d path).outcome t with ⟨e | a, u⟩
      · exact herror e u houtcome
      · exact hok a u houtcome
  have hsame : s = s ∧ s.IsMadeOf P := ⟨rfl, hs⟩
  have hkept := (Dialog.run_respects hhost (request.dialog (c.host describe).questions) hsame).2.2
  rw [← request.parse_eq_run] at hkept
  unfold parse
  rcases hp : request.parse (c.host describe) s with ⟨e | n, t⟩
  · exact Leaves.of_error (by rw [hp]) (by rwa [hp] at hkept)
  · exact Leaves.of_ok (by rw [hp]) (by rwa [hp] at hkept)

theorem validated_made (path : Bytes) (tree : Node) : KeepsMade P (c.validated path tree) := by
  intro s hs
  have hmemory := tree.validate_memory c.library c.options.validation s
    (K := (·.IsMadeOf P)) (fun q hq uri m hm => library_made hq uri hm) hs
  refine Leaves.get (Leaves.bind (Q := fun _ t => t.IsMadeOf P) (Leaves.of_ok rfl hmemory)
    fun _ t ht => ?_)
  generalize (tree.validate c.library c.options.validation s).tree = checked
  cases (tree.validate c.library c.options.validation s).failure with
  | some f => exact Leaves.throw _ ht
  | none => cases checked.page? <;> exact Leaves.pure ht

theorem descriptor_made (path : Bytes) (tree : Node) : KeepsMade P (descriptor path tree) := by
  intro s hs
  unfold descriptor
  split
  · exact Leaves.pure hs
  · exact Leaves.throw _ hs

theorem signature_made (path : Bytes) : KeepsMade P (c.signature path) := by
  intro s hs
  refine Leaves.recovering (Leaves.get ?_)
  rw [asking_sourceTextM]
  refine Leaves.bind (Q := fun _ t => t.IsMadeOf P) (Leaves.ofFault (fun _ _ => hs) hs)
    fun source t ht => ?_
  refine (parse_made _ (by simp) t ht).bind fun parsed u hu => ?_
  exact (validated_made _ parsed u hu).bind fun tree v hv => descriptor_made _ tree v hv

theorem keepSignature_made (path : Bytes) (u : CompiledUnit) :
    KeepsMade P (keepSignature path u) := fun s hs =>
  (descriptor_made path u.tree s hs).bind fun _ _ ht =>
    Leaves.modify (Leaves.pure ⟨ht.units, ht.auxiliary⟩)

/-- **A unit is made with the property**, and a session of such units is kept. -/
theorem compileUnit_made (hmakes : c.Makes P) {describe : Bytes → Compile TagDescriptor}
    (hd : ∀ path, KeepsMade P (describe path)) {path : Bytes} (hpath : IsPagePath path)
    (hread : ∃ raw, c.readFile path = .ok raw) (raw : Bytes) (form : PageSyntax) {s : Session}
    (hs : s.IsMadeOf P) :
    Leaves (·.IsMadeOf P) (c.compileUnit describe path raw form) s fun u t =>
      (P u ∧ u.path = path) ∧ t.IsMadeOf P := by
  have hlogged (message : Bytes) (t : Session) (event : Event) (_ : event.message = message)
      (ht : t.IsMadeOf P) : ({ t with log := event :: t.log } : Session).IsMadeOf P :=
    ⟨ht.units, ht.auxiliary⟩
  refine Leaves.bracket (Leaves.recovering (Leaves.get (Leaves.bind
    (Q := fun _ t => t = { s with running := path :: s.running })
    (Leaves.ofFault (fun _ _ => rfl) ⟨hs.units, hs.auxiliary⟩) ?_)))
  rintro source _ rfl
  refine Leaves.bracket (Leaves.modify ?_)
  have hinside : (entering path source.encoding s).IsMadeOf P := ⟨hs.units, hs.auxiliary⟩
  refine Leaves.mono (E := (·.IsMadeOf P)) (Q := fun u v => (P u ∧ u.path = path) ∧ v.IsMadeOf P) ?_
    (fun v hv => ⟨hv.units, hv.auxiliary⟩) fun u v hv => ⟨hv.1, hv.2.units, hv.2.auxiliary⟩
  refine ((parse_made _ (fun d hmem => ?_) _ hinside).noting _ _ (hlogged _)).bind ?_
  · obtain rfl := Option.some.inj hmem
    exact hd
  rintro parsed v hv
  refine ((validated_made path parsed v hv).noting _ _ (hlogged _)).bind fun tree w hw => ?_
  refine Leaves.get (((Leaves.ofFailure (Q := fun _ x => x.IsMadeOf P) (fun _ _ => hw) hw).noting
    _ _ (hlogged _)).bind fun code x hx => ?_)
  exact Leaves.modify (Leaves.pure ⟨⟨hmakes path source.encoding code hpath hread, rfl⟩,
    hx.units, hx.auxiliary⟩)

/-- **Describing a tag file keeps a session of such units**, however deep units may nest. -/
theorem describeWithin_made (hmakes : c.Makes P) (fuel : Nat) (path : Bytes) :
    KeepsMade P (c.describeWithin fuel path) := by
  induction fuel generalizing path with
  | zero => exact fun s hs => Leaves.throw _ hs
  | succ fuel ih =>
    intro s hs
    refine Leaves.get ?_
    split
    · exact Leaves.pure hs
    · exact keepSignature_made _ _ s hs
    refine Leaves.ite (fun _ => Leaves.modify ?_) fun _ => ?_
    · exact signature_made _ _ ⟨hs.units, hs.auxiliary⟩
    rw [asking_readFileM]
    refine Leaves.bind (Q := fun raw t => c.readFile (cleanPath path) = .ok raw ∧ t.IsMadeOf P)
      (Leaves.ofFault (fun raw hraw => ⟨hraw, hs⟩) hs) ?_
    rintro raw t ⟨hraw, ht⟩
    refine ((compileUnit_made hmakes ih (isPagePath_cleanPath path) ⟨raw, hraw⟩ raw .auto
      ht).noting _ _ fun t event _ ht => ⟨ht.units, ht.auxiliary⟩).bind ?_
    rintro u v ⟨hu, hv⟩
    exact Leaves.modify (keepSignature_made _ _ _ ⟨List.forall_mem_cons.mpr ⟨hu, hv.units⟩,
      List.forall_mem_append.mpr ⟨hv.auxiliary, List.forall_mem_singleton.mpr hu.1⟩⟩)

/-- **The units that a request hands out are such units**, and so are those that the session keeps
after it. -/
theorem compile_made (hmakes : c.Makes P) (path : Bytes) {s : Session} (hs : s.IsMadeOf P) :
    Leaves (·.IsMadeOf P) (c.compile path) s fun r t =>
      r.unit.path = cleanPath path ∧ (∀ u ∈ r.unit :: r.auxiliary, P u) ∧ t.IsMadeOf P := by
  refine Leaves.get ?_
  split
  · next u hu =>
    obtain ⟨hu, hpath⟩ := hs.units _ (mem_of_lookup hu)
    exact Leaves.pure ⟨hpath, List.forall_mem_singleton.mpr hu, hs⟩
  rw [asking_readFileM]
  refine Leaves.bind (Q := fun raw t => c.readFile (cleanPath path) = .ok raw ∧ t.IsMadeOf P)
    (Leaves.ofFault (fun raw hraw => ⟨hraw, hs⟩) hs) ?_
  rintro raw t ⟨hraw, ht⟩
  have hrun : Leaves (·.IsMadeOf P) (c.run (cleanPath path) raw .auto) t fun r v =>
      r.unit.path = cleanPath path ∧ (∀ u ∈ r.unit :: r.auxiliary, P u) ∧ v.IsMadeOf P := by
    refine Leaves.get ((compileUnit_made hmakes (describeWithin_made hmakes _)
      (isPagePath_cleanPath path) ⟨raw, hraw⟩ raw .auto ht).bind ?_)
    rintro u v ⟨⟨hu, hpath⟩, hv⟩
    exact Leaves.get (Leaves.pure ⟨hpath, List.forall_mem_cons.mpr
      ⟨hu, fun w hw => hv.auxiliary w (List.mem_of_mem_drop hw)⟩, hv⟩)
  refine hrun.bind ?_
  rintro r v ⟨hpath, hr, hv⟩
  refine Leaves.ite (fun _ => Leaves.modify (Leaves.pure ⟨hpath, hr, ?_⟩)) fun _ =>
    Leaves.pure ⟨hpath, hr, hv⟩
  exact ⟨List.forall_mem_cons.mpr ⟨⟨hr _ List.mem_cons_self, hpath⟩, hv.units⟩, hv.auxiliary⟩

end Compiler

open SlashPath

/-! ### Names of files -/

namespace SlashPath

/-- The last element of a path holds a slash only if nothing but slashes stands there. -/
theorem slash_notMem_base {p : Bytes} {b : UInt8} (hb : b ∈ p) (hslash : b ≠ slash) :
    slash ∉ base p := by
  unfold base
  rw [if_neg (by rintro h; simp_all)]
  dsimp only
  have hne : p.trimRight (· == slash) ≠ [] := by
    intro h
    have hall : p.reverse.dropWhile (· == slash) = [] := by
      simpa [Bytes.trimRight] using h
    rw [List.dropWhile_eq_nil_iff] at hall
    exact hslash (by simpa using hall b (List.mem_reverse.mpr hb))
  rw [if_neg (by simpa using hne)]
  generalize p.trimRight (· == slash) = q
  split
  · next h =>
    unfold Bytes.lastIndexOfByte? at h
    rw [Option.map_eq_none_iff, List.findIdx?_eq_none_iff] at h
    intro hmem
    simpa using h slash (List.mem_reverse.mpr hmem)
  · next i h =>
    obtain ⟨j, hj, rfl⟩ := Option.map_eq_some_iff.mp h
    obtain ⟨hlt, -, hbefore⟩ := List.findIdx?_eq_some_iff_getElem.mp hj
    rw [List.length_reverse] at hlt
    intro hmem
    rw [show q.length - 1 - j + 1 = q.length - j by omega, ← List.mem_reverse,
      ← List.take_reverse] at hmem
    obtain ⟨k, hk, hget⟩ := List.mem_take_iff_getElem.mp hmem
    exact hbefore k (by omega) (by rw [hget]; rfl)

/-- A page path that is not the root has a byte that is no slash. -/
theorem exists_ne_slash {p : Bytes} (hp : IsPagePath p) (hne : p ≠ [slash]) :
    ∃ b ∈ p, b ≠ slash := by
  obtain ⟨q, rfl⟩ := hp
  have hkept : IsKept (elements (slash :: q)) := isKept_elements rfl
  have hclean : clean (slash :: q) = slash :: Bytes.join [slash] (elements (slash :: q)).reverse :=
    rfl
  rw [hclean] at hne ⊢
  cases hes : (elements (slash :: q)).reverse with
  | nil =>
    rw [hes] at hne
    exact absurd rfl hne
  | cons e es =>
    obtain ⟨hordinary, hslash⟩ := hkept e (List.mem_reverse.mp (hes ▸ List.mem_cons_self))
    obtain ⟨b, e, rfl⟩ := List.exists_cons_of_ne_nil hordinary.1
    refine ⟨b, List.mem_cons_of_mem _ ?_, fun h => hslash (h ▸ List.mem_cons_self)⟩
    cases es <;> simp [Bytes.join, List.intercalate]

end SlashPath

namespace Generation

/-- The file generated for a source is named like one in a directory. -/
theorem isOrdinary_fileName (path : Bytes) : IsOrdinary (fileName path) := by
  have hlong : 3 ≤ (fileName path).length := by
    rw [fileName, List.length_append]
    exact Nat.le_add_left _ _
  refine ⟨?_, ?_, ?_⟩ <;> intro h <;> rw [h] at hlong <;> exact absurd hlong (by decide)

theorem slash_notMem_fileName {path : Bytes} (hp : IsPagePath path) (hne : path ≠ [slash]) :
    slash ∉ fileName path := by
  obtain ⟨b, hb, hslash⟩ := exists_ne_slash hp hne
  have hbase := slash_notMem_base hb hslash
  unfold fileName
  rw [List.mem_append, not_or]
  refine ⟨fun hmem => ?_, by decide⟩
  obtain ⟨c, hc, heq⟩ := List.mem_map.mp hmem
  split at heq
  · exact absurd heq (by decide)
  · exact hbase (heq ▸ hc)

end Generation

/-! ### Targets -/

/-- A unit as a compiler over some files makes it: it has the name of its path, which is that of a
file. -/
structure CompiledUnit.IsNamed (c : Compiler) (u : CompiledUnit) : Prop where
  path : IsPagePath u.path
  file : ∃ raw, c.readFile u.path = .ok raw
  name : u.fileName = Generation.fileName u.path

/-- Units that are written to the same file: their sources lie in the same directory, and their
names are the same but for dots, dashes and underscores. -/
def CompiledUnit.SharesFile (u v : CompiledUnit) : Prop :=
  parent u.path = parent v.path ∧ Generation.fileName u.path = Generation.fileName v.path

namespace CompiledUnit.IsNamed

variable {c : Compiler} {u v : CompiledUnit}

/-- The root is no file. -/
theorem path_ne_root (h : u.IsNamed c) : u.path ≠ [slash] := by
  obtain ⟨raw, hraw⟩ := h.file
  intro hroot
  rw [hroot, Compiler.readFile_eq] at hraw
  cases hfiles : c.files with
  | none => simp [hfiles] at hraw
  | some files =>
    rw [hfiles] at hraw
    have hread : files.read [] = .ok raw := hraw
    have hplain : FileTree.isPlain [] = false := by decide
    simp [FileTree.read, FileTree.file?, FileTree.exists?, hplain] at hread

theorem slash_notMem_fileName (h : u.IsNamed c) : slash ∉ u.fileName := by
  rw [h.name]
  exact Generation.slash_notMem_fileName h.path h.path_ne_root

end CompiledUnit.IsNamed

namespace Site

/-- The file that the code of a unit is written to. -/
def target (output : Bytes) (u : CompiledUnit) : Bytes :=
  join (join output (parent u.path)) u.fileName

section Targets

variable {c : Compiler} {u v : CompiledUnit} {output : Bytes}

/-- The directory of a page is a clean path from the root. -/
theorem parent_eq_clean {p : Bytes} (hp : IsPagePath p) :
    ∃ q, parent p = clean q ∧ isRooted q = true := by
  obtain ⟨q, rfl⟩ := hp
  have hhead : (clean (slash :: q)).head? = some slash := head?_clean rfl
  unfold parent
  split
  · next hnone =>
    have hnone := List.findIdx?_eq_none_iff.mp (Option.map_eq_none_iff.mp hnone)
    exact absurd (hnone slash (List.mem_reverse.mpr (List.mem_of_mem_head? hhead))) (by decide)
  · refine ⟨_, rfl, ?_⟩
    rw [isRooted, List.head?_take, if_neg (Nat.succ_ne_zero _), hhead]
    rfl

/-- The elements of the target: the name of the file, in the directory of the source, in that of the
output. -/
theorem elements_target (houtput : output ≠ []) (hu : u.IsNamed c) :
    elements (target output u) =
      Generation.fileName u.path :: (elements (parent u.path) ++ elements output) := by
  obtain ⟨q, hq, hroot⟩ := parent_eq_clean hu.path
  rw [target, elements_join_name (join_ne_nil houtput _) ?_ hu.slash_notMem_fileName, hu.name, hq,
    elements_join_clean houtput hroot, elements_clean]
  rw [hu.name]
  exact Generation.isOrdinary_fileName _

/-- **Units have the same target if they share a file.** -/
theorem target_eq_iff (houtput : output ≠ []) (hu : u.IsNamed c) (hv : v.IsNamed c) :
    target output u = target output v ↔ u.SharesFile v := by
  constructor
  · intro h
    have helements := congrArg elements h
    rw [elements_target houtput hu, elements_target houtput hv] at helements
    obtain ⟨hname, hrest⟩ := List.cons.inj helements
    refine ⟨?_, hname⟩
    obtain ⟨p, hp, hproot⟩ := parent_eq_clean hu.path
    obtain ⟨q, hq, hqroot⟩ := parent_eq_clean hv.path
    rw [hp, hq] at hrest ⊢
    rw [elements_clean, elements_clean] at hrest
    exact (clean_eq_clean hproot hqroot).mpr (List.append_cancel_right hrest)
  · rintro ⟨hparent, hname⟩
    rw [target, target, hu.name, hv.name, hparent, hname]

/-- A path ends in its last element. -/
theorem getLast?_assembled (rooted : Bool) (kept : List Bytes) {e : Bytes} {b : UInt8}
    (he : e.getLast? = some b) : (assembled rooted (e :: kept)).getLast? = some b := by
  have hbody : (Bytes.join [slash] (kept.reverse ++ [e])).getLast? = some b := by
    obtain ⟨q, hq⟩ := exists_join_concat kept.reverse e
    cases q with
    | nil => rw [(List.cons.inj hq).2, he]
    | cons c q => simp [(List.cons.inj hq).2, List.getLast?_cons, he]
  unfold assembled
  rw [List.reverse_cons]
  dsimp only
  split
  · rw [List.getLast?_cons, hbody]
    rfl
  · rw [if_neg, hbody]
    intro h
    rw [eq_of_beq h] at hbody
    cases hbody

/-- The code of no unit is written where the line map of one is. -/
theorem target_ne_lineMap (houtput : output ≠ []) (hu : u.IsNamed c) (path : Bytes) :
    target output u ≠ path ++ ".smap" := by
  have hclean : target output u = assembled (isRooted (target output u))
      (elements (target output u)) := by
    rw [← clean_eq, target, clean_join (join_ne_nil houtput _)]
  have hname : (Generation.fileName u.path).getLast? = some 111 := by
    rw [Generation.fileName, List.getLast?_append]
    rfl
  have hlast : (target output u).getLast? = some 111 := by
    rw [hclean, elements_target houtput hu]
    exact getLast?_assembled _ _ hname
  intro h
  rw [h, List.getLast?_append] at hlast
  exact absurd (Option.some.inj hlast) (by decide)

end Targets

/-! ### Steps of the command -/

/-- What is written for a unit. -/
def writes (output : Bytes) (u : CompiledUnit) : List (Bytes × Bytes) :=
  [(target output u, u.source), (target output u ++ ".smap", u.lineMap)]

/-- Of some units, the first of each path that was not written before. -/
def newUnits (written : List Bytes) : List CompiledUnit → List CompiledUnit
  | [] => []
  | u :: us =>
    if written.contains u.path then newUnits written us
    else u :: newUnits (written ++ [u.path]) us

/-- The units that some pages are compiled to, one page after the other. -/
def unitsOf (c : Compiler) (output : Bytes) : List Bytes → State → List CompiledUnit
  | [], _ => []
  | page :: pages, s =>
    (match c.compile page s.session with
      | .ok r _ => r.unit :: r.auxiliary
      | .error _ _ => []) ++
    match compilePage c output page s with
    | .ok _ t => unitsOf c output pages t
    | .error _ _ => []

theorem newUnits_append (written : List Bytes) (us vs : List CompiledUnit) :
    newUnits written (us ++ vs) =
      newUnits written us ++ newUnits (written ++ (newUnits written us).map (·.path)) vs := by
  induction us generalizing written with
  | nil => simp [newUnits]
  | cons u us ih =>
    rw [List.cons_append, newUnits, newUnits]
    split
    · exact ih written
    · rw [ih]
      simp

/-- Every unit is among the new ones or its path is one that was written before. -/
theorem mem_newUnits (written : List Bytes) {us : List CompiledUnit} {u : CompiledUnit}
    (hu : u ∈ us) : u.path ∈ written ∨ ∃ v ∈ newUnits written us, v.path = u.path := by
  induction us generalizing written with
  | nil => cases hu
  | cons v us ih =>
    rw [newUnits]
    obtain rfl | hu := List.mem_cons.mp hu
    · split
      · next h => exact .inl (List.contains_iff_mem.mp h)
      · exact .inr ⟨u, List.mem_cons_self, rfl⟩
    · split
      · exact ih written hu
      · obtain hw | ⟨w, hw, hpath⟩ := ih (written ++ [v.path]) hu
        · obtain hw | hw := List.mem_append.mp hw
          · exact .inl hw
          · exact .inr ⟨v, List.mem_cons_self, (List.mem_singleton.mp hw).symm⟩
        · exact .inr ⟨w, List.mem_cons_of_mem _ hw, hpath⟩

theorem mem_of_mem_newUnits {written : List Bytes} {us : List CompiledUnit} {u : CompiledUnit}
    (hu : u ∈ newUnits written us) : u ∈ us := by
  induction us generalizing written with
  | nil => exact hu
  | cons v us ih =>
    rw [newUnits] at hu
    split at hu
    · exact List.mem_cons_of_mem _ (ih hu)
    · obtain rfl | hu := List.mem_cons.mp hu
      · exact List.mem_cons_self
      · exact List.mem_cons_of_mem _ (ih hu)

/-- The paths of the new units are new, and each of them is there once. -/
theorem nodup_newUnits (written : List Bytes) (us : List CompiledUnit) :
    ((newUnits written us).map (·.path)).Nodup ∧
      ∀ u ∈ newUnits written us, u.path ∉ written := by
  induction us generalizing written with
  | nil => simp [newUnits]
  | cons u us ih =>
    rw [newUnits]
    split
    · exact ih written
    · next h =>
      obtain ⟨hnodup, hfresh⟩ := ih (written ++ [u.path])
      refine ⟨List.nodup_cons.mpr ⟨fun hmem => ?_, hnodup⟩, List.forall_mem_cons.mpr
        ⟨fun hmem => h (List.contains_iff_mem.mpr hmem), fun v hv hmem => ?_⟩⟩
      · obtain ⟨v, hv, hpath⟩ := List.mem_map.mp hmem
        exact hfresh v hv (by simp [hpath])
      · exact hfresh v hv (List.mem_append_left _ hmem)

/-- The state `t` comes after `s`, what is new among some units having been written. -/
structure Wrote (output : Bytes) (s t : State) (us : List CompiledUnit) : Prop where
  outputs : t.outputs = s.outputs ++ (newUnits s.written us).flatMap (writes output)
  written : t.written = s.written ++ (newUnits s.written us).map (·.path)
  failed : t.failed = s.failed
  units : t.session.units = s.session.units
  auxiliary : t.session.auxiliary = s.session.auxiliary

theorem Wrote.trans {output : Bytes} {s t v : State} {us vs : List CompiledUnit}
    (h : Wrote output s t us) (h' : Wrote output t v vs) : Wrote output s v (us ++ vs) where
  outputs := by
    rw [h'.outputs, h.outputs, h.written, newUnits_append, List.flatMap_append, List.append_assoc]
  written := by
    rw [h'.written, h.written, newUnits_append, List.map_append, List.append_assoc]
  failed := h'.failed.trans h.failed
  units := h'.units.trans h.units
  auxiliary := h'.auxiliary.trans h.auxiliary

theorem makeDirectory_ok {directory : Bytes} {s t : State}
    (h : makeDirectory directory s = .ok () t) : t = s ∧ directory ≠ [] := by
  unfold makeDirectory at h
  rw [bind_get] at h
  cases hfault : directoryFault? (s.files ++ s.outputs.map (·.1)) directory with
  | some f =>
    rw [hfault] at h
    cases h
  | none =>
    rw [hfault] at h
    refine ⟨(EStateM.Result.ok.inj h).2.symm, ?_⟩
    rintro rfl
    simp [directoryFault?] at hfault

theorem writeFile_ok {path text : Bytes} {s t : State} (h : writeFile path text s = .ok () t) :
    t = { s with outputs := s.outputs ++ [(path, text)] } := by
  unfold writeFile at h
  split at h
  · cases h
  dsimp only at h
  rw [bind_get] at h
  split at h
  · cases h
  · exact (EStateM.Result.ok.inj h).2.symm

theorem newUnits_singleton (written : List Bytes) (u : CompiledUnit) :
    newUnits written [u] = if written.contains u.path then [] else [u] := rfl

theorem writeUnit_ok {output : Bytes} {u : CompiledUnit} {s t : State}
    (h : writeUnit output u s = .ok () t) : Wrote output s t [u] := by
  unfold writeUnit at h
  rw [bind_get] at h
  split at h
  · next hold =>
    obtain rfl := (EStateM.Result.ok.inj h).2
    have hnone : newUnits s.written [u] = [] := by rw [newUnits_singleton, if_pos hold]
    exact ⟨by simp [hnone], by simp [hnone], rfl, rfl, rfl⟩
  next hnew =>
  obtain ⟨_, s₁, hdirectory, h⟩ := bind_eq_ok h
  obtain ⟨_, s₂, hcode, h⟩ := bind_eq_ok h
  obtain ⟨_, s₃, hlines, h⟩ := bind_eq_ok h
  obtain ⟨rfl, -⟩ := makeDirectory_ok hdirectory
  obtain rfl := writeFile_ok hcode
  obtain rfl := writeFile_ok hlines
  obtain rfl := (EStateM.Result.ok.inj h).2
  have hone : newUnits s₁.written [u] = [u] := by rw [newUnits_singleton, if_neg hnew]
  exact ⟨by simp [hone, writes, target], by simp [hone], rfl, rfl, rfl⟩

theorem forM_writeUnit_ok {output : Bytes} {us : List CompiledUnit} {s t : State}
    (h : us.forM (writeUnit output) s = .ok () t) : Wrote output s t us := by
  induction us generalizing s with
  | nil =>
    obtain rfl := (EStateM.Result.ok.inj h).2
    exact ⟨(List.append_nil _).symm, (List.append_nil _).symm, rfl, rfl, rfl⟩
  | cons u us ih =>
    obtain ⟨_, v, hfirst, hrest⟩ := bind_eq_ok h
    exact (writeUnit_ok hfirst).trans (ih hrest)

/-- Reporting the problems of a page writes nothing. -/
theorem reportProblems_ok {page : Bytes} {f : Fault} {s t : State}
    (h : reportProblems page f s = .ok () t) : Wrote [] s t [] := by
  unfold reportProblems at h
  generalize f.reported = ds at h
  induction ds generalizing s with
  | nil =>
    obtain rfl := (EStateM.Result.ok.inj h).2
    exact ⟨(List.append_nil _).symm, (List.append_nil _).symm, rfl, rfl, rfl⟩
  | cons d ds ih =>
    obtain ⟨_, v, hfirst, hrest⟩ := bind_eq_ok h
    obtain rfl := (EStateM.Result.ok.inj hfirst).2
    obtain ⟨houtputs, hwritten, hfailed, hunits, hauxiliary⟩ := ih hrest
    exact ⟨houtputs, hwritten, hfailed, hunits, hauxiliary⟩

/-- What compiling a page does: its units are written, or it is counted as one that failed. -/
theorem compilePage_ok {c : Compiler} {output page : Bytes} {s t : State}
    (h : compilePage c output page s = .ok () t) :
    (∃ r session, c.compile page s.session = .ok r session ∧
      Wrote output { s with session := session } t (r.unit :: r.auxiliary)) ∨
    ∃ e session, c.compile page s.session = .error e session ∧
      Wrote [] { s with session := session, failed := s.failed + 1 } t [] := by
  obtain ⟨answer, v, hask, h⟩ := bind_eq_ok h
  unfold ask at hask
  split at hask
  · next r session hcompile =>
    obtain ⟨rfl, rfl⟩ := EStateM.Result.ok.inj hask
    exact .inl ⟨r, session, hcompile, forM_writeUnit_ok h⟩
  · next f session hcompile =>
    obtain ⟨rfl, rfl⟩ := EStateM.Result.ok.inj hask
    exact .inr ⟨_, session, hcompile, reportProblems_ok h⟩
  · cases hask

/-! ### Runs of the command -/

/-- The state `t` comes after `s`, some pages having been compiled. -/
structure Ran (c : Compiler) (output : Bytes) (pages : List Bytes) (s t : State) : Prop where
  outputs : t.outputs =
    s.outputs ++ (newUnits s.written (unitsOf c output pages s)).flatMap (writes output)
  written : t.written = s.written ++ (newUnits s.written (unitsOf c output pages s)).map (·.path)
  named : ∀ u ∈ unitsOf c output pages s, u.IsNamed c
  failed : s.failed ≤ t.failed
  compiled : t.failed = s.failed →
    ∀ page ∈ pages, ∃ u ∈ unitsOf c output pages s, u.path = Compiler.cleanPath page

theorem makes_isNamed (c : Compiler) : c.Makes (·.IsNamed c) :=
  fun _ _ _ hpath hread => ⟨hpath, hread, rfl⟩

theorem unitsOf_cons {c : Compiler} {output page : Bytes} (pages : List Bytes) {s v : State}
    (h : compilePage c output page s = .ok () v) :
    unitsOf c output (page :: pages) s = unitsOf c output [page] s ++ unitsOf c output pages v := by
  simp only [unitsOf, h, List.append_nil]

/-- A page that is compiled. -/
theorem ran_page {c : Compiler} {output page : Bytes} {s v : State}
    (hs : s.session.IsMadeOf (·.IsNamed c)) (h : compilePage c output page s = .ok () v) :
    Ran c output [page] s v ∧ v.session.IsMadeOf (·.IsNamed c) := by
  obtain ⟨hok, herror⟩ := Compiler.compile_made (makes_isNamed c) page hs
  obtain ⟨r, session, hcompile, hwrote⟩ | ⟨e, session, hcompile, hwrote⟩ := compilePage_ok h
  · obtain ⟨hpath, hnamed, hmade⟩ := hok r session hcompile
    have hunits : unitsOf c output [page] s = r.unit :: r.auxiliary := by
      simp only [unitsOf, h, hcompile, List.append_nil]
    refine ⟨?_, hwrote.units ▸ hmade.units, hwrote.auxiliary ▸ hmade.auxiliary⟩
    exact {
      outputs := hunits ▸ hwrote.outputs
      written := hunits ▸ hwrote.written
      named := hunits ▸ hnamed
      failed := hwrote.failed.ge
      compiled := fun _ => List.forall_mem_singleton.mpr
        ⟨r.unit, hunits ▸ List.mem_cons_self, hpath⟩ }
  · have hmade := herror e session hcompile
    have hunits : unitsOf c output [page] s = [] := by
      simp only [unitsOf, h, hcompile, List.append_nil]
    have hfailed : v.failed = s.failed + 1 := hwrote.failed
    refine ⟨?_, hwrote.units ▸ hmade.units, hwrote.auxiliary ▸ hmade.auxiliary⟩
    exact {
      outputs := hunits ▸ hwrote.outputs
      written := hunits ▸ hwrote.written
      named := by simp [hunits]
      failed := by omega
      compiled := fun heq => by omega }

theorem Ran.cons {c : Compiler} {output page : Bytes} {pages : List Bytes} {s v t : State}
    (hpage : compilePage c output page s = .ok () v) (h : Ran c output [page] s v)
    (h' : Ran c output pages v t) : Ran c output (page :: pages) s t where
  outputs := by
    rw [h'.outputs, h.outputs, h.written, unitsOf_cons pages hpage, newUnits_append,
      List.flatMap_append, List.append_assoc]
  written := by
    rw [h'.written, h.written, unitsOf_cons pages hpage, newUnits_append, List.map_append,
      List.append_assoc]
  named := by
    rw [unitsOf_cons pages hpage]
    exact List.forall_mem_append.mpr ⟨h.named, h'.named⟩
  failed := h.failed.trans h'.failed
  compiled := fun heq => by
    have := h.failed
    have := h'.failed
    rw [unitsOf_cons pages hpage]
    refine List.forall_mem_cons.mpr ⟨?_, fun p hp => ?_⟩
    · obtain ⟨u, hu, hpath⟩ := h.compiled (by omega) page (List.mem_singleton_self _)
      exact ⟨u, List.mem_append_left _ hu, hpath⟩
    · obtain ⟨u, hu, hpath⟩ := h'.compiled (by omega) p hp
      exact ⟨u, List.mem_append_right _ hu, hpath⟩

theorem ran_of_forM {c : Compiler} {output : Bytes} {pages : List Bytes} {s t : State}
    (hs : s.session.IsMadeOf (·.IsNamed c)) (h : pages.forM (compilePage c output) s = .ok () t) :
    Ran c output pages s t := by
  induction pages generalizing s with
  | nil =>
    obtain rfl := (EStateM.Result.ok.inj h).2
    exact ⟨(List.append_nil _).symm, (List.append_nil _).symm, by simp [unitsOf], Nat.le_refl _,
      by simp⟩
  | cons page pages ih =>
    obtain ⟨_, v, hfirst, hrest⟩ := bind_eq_ok h
    obtain ⟨hran, hv⟩ := ran_page hs hfirst
    exact hran.cons hfirst (ih hv hrest)

/-- The content of a file that the command wrote: what was written to it last. -/
def Report.content? (r : Report) (path : Bytes) : Option Bytes := r.outputs.reverse.lookup path

/-- What is left in the files of a unit is its own code and line map, if no later unit shares its
file. -/
theorem lookup_writes {c : Compiler} {output : Bytes} (houtput : output ≠ [])
    {before later : List CompiledUnit} {u : CompiledUnit} (hu : u.IsNamed c)
    (hlater : ∀ v ∈ later, v.IsNamed c ∧ ¬u.SharesFile v) :
    let outputs := ((before ++ u :: later).flatMap (writes output)).reverse
    outputs.lookup (target output u) = some u.source ∧
      outputs.lookup (target output u ++ ".smap") = some u.lineMap := by
  have hmem : ∀ e ∈ (later.flatMap (writes output)).reverse, ∃ v, v.IsNamed c ∧ ¬u.SharesFile v ∧
      (e.1 = target output v ∨ e.1 = target output v ++ ".smap") := by
    intro e he
    obtain ⟨v, hv, he⟩ := List.mem_flatMap.mp (List.mem_reverse.mp he)
    refine ⟨v, (hlater v hv).1, (hlater v hv).2, ?_⟩
    simp only [writes, List.mem_cons, List.not_mem_nil, or_false] at he
    obtain rfl | rfl := he
    · exact .inl rfl
    · exact .inr rfl
  have hcode : (later.flatMap (writes output)).reverse.lookup (target output u) = none := by
    refine List.lookup_eq_none_iff.mpr fun e he => ?_
    obtain ⟨v, hv, hshares, h | h⟩ := hmem e he <;> rw [h, bne_iff_ne]
    · exact fun heq => hshares ((target_eq_iff houtput hu hv).mp heq)
    · exact target_ne_lineMap houtput hu _
  have hlines : (later.flatMap (writes output)).reverse.lookup (target output u ++ ".smap") =
      none := by
    refine List.lookup_eq_none_iff.mpr fun e he => ?_
    obtain ⟨v, hv, hshares, h | h⟩ := hmem e he <;> rw [h, bne_iff_ne]
    · exact (target_ne_lineMap houtput hv _).symm
    · exact fun heq => hshares ((target_eq_iff houtput hu hv).mp (List.append_cancel_right heq))
  have hne : (target output u == target output u ++ ".smap") = false :=
    beq_eq_false_iff_ne.mpr (target_ne_lineMap houtput hu _)
  intro outputs
  have houtputs : outputs = (later.flatMap (writes output)).reverse ++
      ((target output u ++ ".smap", u.lineMap) :: (target output u, u.source) ::
        (before.flatMap (writes output)).reverse) := by
    simp [outputs, writes, List.flatMap_cons]
  rw [houtputs, List.lookup_append, List.lookup_append, hcode, hlines]
  simp [List.lookup_cons, hne]

theorem compilePages_ok {c : Compiler} {output : Bytes} {pages : List Bytes} {s t : State}
    (hs : s.session.IsMadeOf (·.IsNamed c)) (h : compilePages c output pages s = .ok () t) :
    output ≠ [] ∧ ∃ v, Ran c output pages s v ∧ v.failed = 0 ∧ t.outputs = v.outputs := by
  unfold compilePages at h
  obtain ⟨_, s₁, hdirectory, hrest⟩ := bind_eq_ok h
  obtain ⟨hsame, houtput⟩ := makeDirectory_ok hdirectory
  subst hsame
  obtain ⟨_, v, hpages, h⟩ := bind_eq_ok hrest
  rw [bind_get] at h
  split at h
  · cases h
  · next hfailed =>
    obtain rfl := (EStateM.Result.ok.inj h).2
    exact ⟨houtput, v, ran_of_forM hs hpages, by omega, rfl⟩

/-- A command starts with nothing done. -/
theorem of_prepare {disk : Disk} {settings : Settings} {command : CompileCommand} {c : Compiler}
    {s : State} {pages : List Bytes} (h : prepare disk settings command = .ok (c, s, pages)) :
    s.session.IsMadeOf (·.IsNamed c) ∧ s.outputs = [] ∧ s.written = [] ∧ s.failed = 0 := by
  unfold prepare at h
  obtain ⟨registry, -, h⟩ := Markup.bind_eq_ok h
  obtain ⟨c', -, h⟩ := Markup.bind_eq_ok h
  have hstate : s = { files := disk.files, session := { registry := registry } } := by
    dsimp only at h
    split at h
    all_goals
      obtain ⟨pages', -, h⟩ := Markup.bind_eq_ok h
      exact (Prod.mk.inj (Prod.mk.inj (Except.ok.inj h)).2).1.symm
  rw [hstate]
  exact ⟨⟨by simp, by simp⟩, rfl, rfl, rfl⟩

/-- **What is left after a command that succeeds.** Every page is compiled, and every unit is
written, the first one of its path if there are more. Units share their files as
`CompiledUnit.SharesFile` says; what is left in a file is the code of the last unit that has it, and
the line map next to it is the one of this unit. -/
theorem runCommand_outputs (disk : Disk) (settings : Settings) (command : CompileCommand)
    (c : Compiler) (s : State) (pages : List Bytes)
    (hprepare : prepare disk settings command = .ok (c, s, pages))
    (hok : (runCommand disk settings command).failure = none) :
    let made := unitsOf c command.output pages s
    let units := newUnits [] made
    let content := (runCommand disk settings command).content?
    (∀ page ∈ pages, ∃ u ∈ made, u.path = Compiler.cleanPath page) ∧
    ((∀ u ∈ units, u ∈ made) ∧ (units.map (·.path)).Nodup ∧
      ∀ u ∈ made, ∃ v ∈ units, v.path = u.path) ∧
    (∀ u ∈ units, ∀ v ∈ units, target command.output u = target command.output v ↔
      u.SharesFile v) ∧
    ∀ before u later, units = before ++ u :: later → (∀ v ∈ later, ¬u.SharesFile v) →
      content (target command.output u) = some u.source ∧
        content (target command.output u ++ ".smap") = some u.lineMap := by
  intro made units content
  obtain ⟨hs, houtputs, hwritten, hfailed⟩ := of_prepare hprepare
  have hrun : ∃ t, compilePages c command.output pages s = .ok () t ∧
      runCommand disk settings command = t.report none := by
    unfold runCommand at hok ⊢
    rw [hprepare] at hok ⊢
    dsimp only at hok ⊢
    cases hpages : compilePages c command.output pages s with
    | ok _ t => exact ⟨t, rfl, rfl⟩
    | error e t =>
      rw [hpages] at hok
      cases hok
  obtain ⟨t, hpages, hreport⟩ := hrun
  obtain ⟨houtput, v, hran, hv, ht⟩ := compilePages_ok hs hpages
  have hnamed : ∀ u ∈ units, u.IsNamed c := fun u hu => hran.named u (mem_of_mem_newUnits hu)
  refine ⟨hran.compiled (hv.trans hfailed.symm), ⟨fun _ => mem_of_mem_newUnits,
    (nodup_newUnits _ _).1, fun u hu => (mem_newUnits [] hu).resolve_left List.not_mem_nil⟩,
    fun u hu v hv => target_eq_iff houtput (hnamed u hu) (hnamed v hv),
    fun before u later hunits hlater => ?_⟩
  have hcontent : ∀ path, content path =
      ((before ++ u :: later).flatMap (writes command.output)).reverse.lookup path := by
    intro path
    show (runCommand disk settings command).content? path = _
    rw [hreport, Report.content?, State.report, ht, hran.outputs, houtputs, hwritten,
      List.nil_append, ← hunits]
  rw [hcontent, hcontent]
  rw [hunits] at hnamed
  exact lookup_writes houtput (hnamed u (by simp)) fun v hv =>
    ⟨hnamed v (by simp [hv]), hlater v hv⟩

/-- A site with two pages whose names are the same but for a dash. -/
def twinPages : FileTree where
  files := [("a-b.jsp", "one"), ("a_b.jsp", "two")]
  medium := .disk "web"

/-- The disk with that site. -/
def twinDisk : Disk where
  directory? _ := some twinPages

/-- The command for its pages. -/
def twinCommand : CompileCommand where
  root := "web"
  output := "out"
  pages := ["/a-b.jsp", "/a_b.jsp"]

/-- The compiler of that site. -/
def twinCompiler : Compiler where
  options := Settings.defaults.compilerOptions
  files := some twinPages

/-- The state that the command starts with. -/
def twinStart : State where
  session := { registry := { files := some twinPages } }

/-- The units of that site. -/
def twinUnits : List CompiledUnit :=
  newUnits [] (unitsOf twinCompiler "out" ["/a-b.jsp", "/a_b.jsp"] twinStart)

theorem runCommand_outputs_twins :
    (runCommand twinDisk Settings.defaults twinCommand).failure = none ∧
      ∃ u v, twinUnits = [u, v] ∧ u.SharesFile v ∧ u.source ≠ v.source ∧
        (runCommand twinDisk Settings.defaults twinCommand).content? (target "out" u) =
          some v.source := by
  have hok : (runCommand twinDisk Settings.defaults twinCommand).failure = none := by
    have h : (runCommand twinDisk Settings.defaults twinCommand).failure.isNone = true := by
      decide +kernel
    exact Option.isNone_iff_eq_none.mp h
  have hprepare : prepare twinDisk Settings.defaults twinCommand =
      .ok (twinCompiler, twinStart, ["/a-b.jsp", "/a_b.jsp"]) := rfl
  obtain ⟨-, -, htarget, hcontent⟩ := runCommand_outputs twinDisk Settings.defaults twinCommand
    twinCompiler twinStart ["/a-b.jsp", "/a_b.jsp"] hprepare hok
  have hpaths : twinUnits.map (·.path) = (["/a-b.jsp", "/a_b.jsp"] : List Bytes) := by
    decide +kernel
  have hsources : (twinUnits.map (·.source)).Nodup := by decide +kernel
  obtain ⟨u, rest, hunits, hu, hrest⟩ := List.map_eq_cons_iff.mp hpaths
  obtain ⟨v, rest, rfl, hv, hnil⟩ := List.map_eq_cons_iff.mp hrest
  obtain rfl := List.map_eq_nil_iff.mp hnil
  have hsource : u.source ≠ v.source := by
    rw [hunits] at hsources
    simpa using hsources
  have hshares : u.SharesFile v := by
    rw [CompiledUnit.SharesFile, hu, hv]
    decide +kernel
  have hmem : ∀ w ∈ [u, v], w ∈ twinUnits := fun w hw => hunits.symm ▸ hw
  have hsame : target "out" u = target "out" v :=
    (htarget u (hmem u (by simp)) v (hmem v (by simp))).mpr hshares
  refine ⟨hok, u, v, hunits, hshares, hsource, ?_⟩
  rw [hsame]
  exact (hcontent [u] v [] hunits (by simp)).1

end Site

end ServerPages
