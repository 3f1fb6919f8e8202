import Mathlib.Data.List.Nodup
import Mathlib.Data.List.Perm.Subperm
import ServerPages.Generation.Unit
import ServerPages.Proofs.LineMapText

/-!
# Names of imported packages

Every line of the import block gives a name to the package at a path. A package that tags or
functions need is used under the name that the page gives it, or else under a name of its own that
no line has yet; a name that was given stays. So each name stands for one path, unless the page
itself uses the name of the runtime, which is given to the runtime without a look at the names in
use.

## Main results

* `Imports.freeName_not_mem`: a free name is not in use.
* `Imports.IsSound.use`: a package that is used has one line, which binds the name that was given.
* `unambiguous_iff`: imports are unambiguous exactly if the page does not name a package `rt`.
* `functionEntries_perm`, `Node.generate_reordered`: functions may come in any order if no two of
  their packages may get one name.
-/

namespace ServerPages.Generation

/-! ### Lines -/

/-- What a line of the import block says: the package at a path, under a name of its own or else
under the last element of the path. -/
structure ImportLine where
  /-- The name of its own. -/
  label? : Option Bytes
  /-- The path. -/
  path : Bytes

namespace ImportLine

/-- The name that the line binds. -/
def name (l : ImportLine) : Bytes := l.label?.getD (SlashPath.base l.path)

/-- The line as it is written. -/
def text (l : ImportLine) : Bytes :=
  match l.label? with
  | some label => label ++ " " ++ Quoted.string l.path
  | none => Quoted.string l.path

end ImportLine

namespace Imports

/-- The line of an import that the page asks for. -/
def askedEntry (written : Bytes) : ImportLine :=
  match named? written with
  | some (name, path) => ⟨some name, path⟩
  | none => ⟨none, unquoted written⟩

theorem name_askedEntry (written : Bytes) : (askedEntry written).name = nameOf written := by
  rw [askedEntry, nameOf]
  cases named? written <;> rfl

/-- The lines of the import block before they are sorted. -/
def entries (s : Imports) : List ImportLine :=
  s.asked.map askedEntry ++ s.assigned.map fun (path, name) => ⟨some name, path⟩

/-- The written lines are those of the entries in ascending order. -/
theorem lines_eq (s : Imports) : s.lines = Bytes.sort (s.entries.map ImportLine.text) := by
  have hasked : s.asked.map askedLine = s.asked.map (ImportLine.text ∘ askedEntry) := by
    refine List.map_congr_left fun written _ => ?_
    rw [askedLine, Function.comp, askedEntry]
    cases named? written <;> rfl
  rw [lines, entries, List.map_append, List.map_map, List.map_map, hasked]
  rfl

/-! ### Free names -/

/-- Names with different numbers are different. -/
theorem append_ofNat_injective (base : Bytes) :
    Function.Injective fun i : Nat => base ++ Bytes.ofNat i :=
  fun _ _ h => Bytes.ofNat_injective (List.append_cancel_left h)

theorem append_ofNat_ne (base : Bytes) (i : Nat) : base ++ Bytes.ofNat i ≠ base := by
  intro h
  exact Bytes.ofNat_ne_nil i (List.append_right_eq_self.mp h)

/-- If no name with a number is free, all of them are in use. -/
theorem freeNameFrom_not_mem {taken : List Bytes} {base : Bytes} {fuel i : Nat}
    (h : ∃ j, i ≤ j ∧ j < i + fuel ∧ base ++ Bytes.ofNat j ∉ taken) :
    freeNameFrom taken base fuel i ∉ taken := by
  induction fuel generalizing i with
  | zero => obtain ⟨j, _, _, _⟩ := h; omega
  | succ fuel ih =>
    rw [freeNameFrom]
    split
    · next htaken =>
      obtain ⟨j, hij, hj, hfree⟩ := h
      have hne : j ≠ i := by
        rintro rfl
        exact hfree (List.contains_iff_mem.mp htaken)
      exact ih ⟨j, by omega, by omega, hfree⟩
    · next hfree => exact fun hmem => hfree (List.contains_iff_mem.mpr hmem)

/-- A free name is not in use: there is one more to choose from than there are in use. -/
theorem freeName_not_mem (taken : List Bytes) (base : Bytes) : freeName taken base ∉ taken := by
  rw [freeName]
  split
  · next htaken =>
    refine freeNameFrom_not_mem (Classical.byContradiction fun hall => ?_)
    have hsub : base :: (List.range taken.length).map (fun i => base ++ Bytes.ofNat (2 + i)) ⊆
        taken := by
      refine List.cons_subset.mpr ⟨List.contains_iff_mem.mp htaken, fun x hx => ?_⟩
      obtain ⟨i, hi, rfl⟩ := List.mem_map.mp hx
      have hlt := List.mem_range.mp hi
      exact Classical.byContradiction fun hfree =>
        hall ⟨2 + i, by omega, by omega, hfree⟩
    have hnodup : (base :: (List.range taken.length).map
        (fun i => base ++ Bytes.ofNat (2 + i))).Nodup := by
      refine List.nodup_cons.mpr ⟨fun hmem => ?_, List.nodup_range.map fun i j hij => ?_⟩
      · obtain ⟨i, -, hi⟩ := List.mem_map.mp hmem
        exact append_ofNat_ne base _ hi
      · have := append_ofNat_injective base hij
        omega
    have hlen := (hnodup.subperm hsub).length_le
    simp only [List.length_cons, List.length_map, List.length_range] at hlen
    omega
  · next hfree => exact fun hmem => hfree (List.contains_iff_mem.mpr hmem)

/-! ### Packages that are used -/

/-- The name that a package has already. -/
def known? (s : Imports) (path : Bytes) : Option Bytes :=
  (s.assigned.lookup path).or (s.askedName? path)

/-- No two lines bind one name, and no name of a line is free. -/
structure IsSound (s : Imports) : Prop where
  single : (s.entries.map ImportLine.name).Nodup
  taken : ∀ l ∈ s.entries, l.name ∈ s.taken

/-- Whether a path is the text of an import with an alias; such a text is no path of a package. -/
def IsAliased (s : Imports) (path : Bytes) : Prop :=
  ∃ written ∈ s.asked, (named? written).isSome = true ∧ unquoted written = path

/-- The name by which the page imports a package is bound to its path. -/
theorem exists_entry_of_askedName? {s : Imports} {path name : Bytes}
    (h : s.askedName? path = some name) (hpath : ¬s.IsAliased path) :
    ∃ l ∈ s.entries, l.name = name ∧ l.path = path := by
  obtain ⟨written, hmem, hwritten⟩ := List.exists_of_findSome?_eq_some h
  refine ⟨askedEntry written, List.mem_append_left _ (List.mem_map_of_mem hmem), ?_⟩
  rw [askedEntry]
  cases hnamed : named? written with
  | none =>
    rw [hnamed] at hwritten
    dsimp only at hwritten
    split at hwritten
    · next hp =>
      obtain rfl := beq_iff_eq.mp hp
      exact ⟨Option.some.inj hwritten, rfl⟩
    · cases hwritten
  | some entry =>
    obtain ⟨label, p⟩ := entry
    rw [hnamed] at hwritten
    dsimp only at hwritten
    split at hwritten
    · next hp => exact ⟨Option.some.inj hwritten, beq_iff_eq.mp hp⟩
    split at hwritten
    · next hp => exact absurd ⟨written, hmem, by rw [hnamed]; rfl, beq_iff_eq.mp hp⟩ hpath
    · cases hwritten

theorem exists_entry_of_known? {s : Imports} {path name : Bytes} (h : s.known? path = some name)
    (hpath : ¬s.IsAliased path) : ∃ l ∈ s.entries, l.name = name ∧ l.path = path := by
  rw [known?, Option.or_eq_some_iff] at h
  rcases h with h | ⟨-, h⟩
  · obtain ⟨before, after, hassigned, -⟩ := List.lookup_eq_some_iff.mp h
    refine ⟨⟨some name, path⟩, List.mem_append_right _ ?_, rfl, rfl⟩
    exact List.mem_map.mpr ⟨(path, name), by simp [hassigned], rfl⟩
  · exact exists_entry_of_askedName? h hpath

/-- A package is used under the name that it has, or under a free one. -/
theorem use_cases (s : Imports) (path : Bytes) :
    (∃ name, s.known? path = some name ∧ s.use path = (name, s)) ∨
      s.known? path = none ∧ ∃ name, name ∉ s.taken ∧ s.use path = (name, s.assign name path) := by
  rw [use, known?]
  cases s.assigned.lookup path with
  | some name => exact .inl ⟨name, rfl, rfl⟩
  | none =>
    cases s.askedName? path with
    | some name => exact .inl ⟨name, rfl, rfl⟩
    | none => exact .inr ⟨rfl, _, freeName_not_mem _ _, rfl⟩

/-- A name that is assigned is found first. -/
theorem lookup_assign (s : Imports) (name path other : Bytes) :
    (s.assign name path).assigned.lookup other =
      if other = path then some name else s.assigned.lookup other := by
  rw [assign, List.lookup_cons]
  by_cases h : other = path
  · simp [h]
  · rw [if_neg h, beq_eq_false_iff_ne.mpr h]
    dsimp only
    induction s.assigned with
    | nil => rfl
    | cons entry rest ih =>
      obtain ⟨p, n⟩ := entry
      by_cases hp : p = path
      · subst hp
        rw [List.filter_cons_of_neg (by simp), ih, List.lookup_cons, beq_eq_false_iff_ne.mpr h]
      · rw [List.filter_cons_of_pos (by simpa using hp), List.lookup_cons, List.lookup_cons, ih]

/-- A package that got a name has it. -/
theorem known?_assign_self (s : Imports) (name path : Bytes) :
    (s.assign name path).known? path = some name := by
  rw [known?, lookup_assign, if_pos rfl]
  rfl

/-- A name that was given stays. -/
theorem known?_assign {s : Imports} {path other name given : Bytes} (hnone : s.known? path = none)
    (h : s.known? other = some given) : (s.assign name path).known? other = some given := by
  have hne : other ≠ path := by
    rintro rfl
    rw [hnone] at h
    cases h
  rw [known?, lookup_assign, if_neg hne]
  exact h

theorem assigned_assign {s : Imports} {path : Bytes} (h : s.assigned.lookup path = none)
    (name : Bytes) : (s.assign name path).assigned = (path, name) :: s.assigned := by
  rw [assign, List.filter_eq_self.mpr]
  intro entry hentry
  have hne : path ≠ entry.1 := by simpa using List.lookup_eq_none_iff.mp h entry hentry
  exact bne_iff_ne.mpr hne.symm

/-- A package with a new name has one more line. -/
theorem entries_assign {s : Imports} (name : Bytes) {path : Bytes}
    (h : s.assigned.lookup path = none) :
    (s.assign name path).entries.Perm (⟨some name, path⟩ :: s.entries) := by
  rw [entries, entries, assigned_assign h, List.map_cons]
  exact List.perm_middle

/-- Assigning a name that is free keeps imports sound. -/
theorem IsSound.assign {s : Imports} (h : s.IsSound) {name path : Bytes}
    (hnew : s.assigned.lookup path = none) (hfree : name ∉ s.entries.map ImportLine.name) :
    (s.assign name path).IsSound := by
  have hperm := entries_assign name hnew
  refine ⟨?_, fun l hl => ?_⟩
  · rw [(hperm.map _).nodup_iff]
    exact List.nodup_cons.mpr ⟨hfree, h.single⟩
  · rcases List.mem_cons.mp (hperm.mem_iff.mp hl) with rfl | hl
    · exact List.mem_cons_self
    · exact List.mem_cons_of_mem name (h.taken l hl)

/-- A package that is used keeps all names that were given, and has one. -/
theorem IsSound.use {s : Imports} (h : s.IsSound) (path : Bytes) :
    (s.use path).2.IsSound ∧ (s.use path).2.known? path = some (s.use path).1 ∧
      ∀ other name, s.known? other = some name → (s.use path).2.known? other = some name := by
  rcases s.use_cases path with ⟨name, hknown, huse⟩ | ⟨hnone, name, hfree, huse⟩
  · rw [huse]
    exact ⟨h, hknown, fun _ _ => id⟩
  · rw [huse]
    refine ⟨h.assign ?_ ?_, known?_assign_self s name path, fun _ _ => known?_assign hnone⟩
    · rw [known?, Option.or_eq_none_iff] at hnone
      exact hnone.1
    · rintro hmem
      obtain ⟨l, hl, rfl⟩ := List.mem_map.mp hmem
      exact hfree (h.taken l hl)

/-- What the page asks for stays, and so does every name that was given. -/
theorem use_keeps (s : Imports) (path : Bytes) :
    (s.use path).2.asked = s.asked ∧ s.assigned ⊆ (s.use path).2.assigned := by
  rcases s.use_cases path with ⟨name, -, huse⟩ | ⟨hnone, name, -, huse⟩
  · rw [huse]
    exact ⟨rfl, fun _ => id⟩
  · rw [known?, Option.or_eq_none_iff] at hnone
    rw [huse]
    refine ⟨rfl, fun entry hentry => List.mem_cons_of_mem _ (List.mem_filter.mpr ⟨hentry, ?_⟩)⟩
    have hne : path ≠ entry.1 := by simpa using List.lookup_eq_none_iff.mp hnone.1 entry hentry
    exact bne_iff_ne.mpr hne.symm

/-- The names that packages are used under, one after the other, and the imports at the end. -/
def useAll (s : Imports) : List Bytes → List (Bytes × Bytes) × Imports
  | [] => ([], s)
  | path :: paths =>
    let (name, s) := s.use path
    let (answers, s) := s.useAll paths
    ((path, name) :: answers, s)

/-- Uses keep the names that were given. -/
theorem useAll_keeps (s : Imports) (paths : List Bytes) :
    (s.useAll paths).2.asked = s.asked ∧ s.assigned ⊆ (s.useAll paths).2.assigned := by
  induction paths generalizing s with
  | nil => exact ⟨rfl, fun _ => id⟩
  | cons path paths ih =>
    obtain ⟨hasked, hassigned⟩ := s.use_keeps path
    obtain ⟨hasked', hassigned'⟩ := ih (s.use path).2
    exact ⟨hasked'.trans hasked, List.Subset.trans hassigned hassigned'⟩

/-- After a run every answer is known. -/
theorem IsSound.useAll {s : Imports} (h : s.IsSound) (paths : List Bytes) :
    (s.useAll paths).2.IsSound ∧
      (∀ a ∈ (s.useAll paths).1, a.1 ∈ paths ∧ (s.useAll paths).2.known? a.1 = some a.2) ∧
      ∀ other name, s.known? other = some name → (s.useAll paths).2.known? other = some name := by
  induction paths generalizing s with
  | nil => exact ⟨h, fun _ ha => absurd ha List.not_mem_nil, fun _ _ => id⟩
  | cons path paths ih =>
    obtain ⟨hsound, hself, hothers⟩ := h.use path
    obtain ⟨hsound', hanswers, hkeep⟩ := ih hsound
    refine ⟨hsound', fun a ha => ?_, fun o n ho => hkeep o n (hothers o n ho)⟩
    rcases List.mem_cons.mp ha with rfl | ha
    · exact ⟨List.mem_cons_self, hkeep _ _ hself⟩
    · exact ⟨List.mem_cons_of_mem path (hanswers a ha).1, (hanswers a ha).2⟩

/-! ### Imports of a page -/

/-- What is asked for so far: each import once, under a name that is in use. -/
structure Asks (s : Imports) (written : List Bytes) : Prop where
  mem_iff : ∀ w, w ∈ s.asked ↔ w ∈ (written.map Bytes.trimSpace).filter (· != [])
  nodup : s.asked.Nodup
  taken : ∀ w ∈ s.asked, nameOf w ∈ s.taken
  assigned : s.assigned = []

theorem asks_nil : Asks {} [] := ⟨by simp, List.nodup_nil, by simp, rfl⟩

/-- Asking keeps the packages in the order in which they were asked for. -/
theorem Asks.ask {s : Imports} {written : List Bytes} (h : s.Asks written) (w : Bytes) :
    (s.ask w).Asks (written ++ [w]) := by
  rw [Imports.ask]
  split
  · next hold =>
    refine ⟨fun v => ?_, h.nodup, h.taken, h.assigned⟩
    rw [List.map_append, List.filter_append, List.mem_append, ← h.mem_iff, iff_self_or]
    intro hv
    obtain ⟨hv, hne⟩ := List.mem_filter.mp hv
    obtain rfl := List.mem_singleton.mp hv
    rw [Bool.or_eq_true] at hold
    exact List.contains_iff_mem.mp (hold.resolve_left fun hnil => by simp_all)
  · next hnew =>
    rw [Bool.or_eq_true, not_or, List.contains_iff_mem] at hnew
    refine ⟨fun v => ?_, ?_, fun v hv => ?_, h.assigned⟩
    · rw [List.map_append, List.filter_append, List.mem_append, List.mem_append, h.mem_iff,
        List.map_singleton, List.filter_cons_of_pos (by simpa using hnew.1), List.filter_nil]
    · exact List.nodup_append.mpr ⟨h.nodup, List.nodup_singleton _, fun v hv x hx hvx =>
        hnew.2 (List.mem_singleton.mp hx ▸ hvx ▸ hv)⟩
    · rcases List.mem_append.mp hv with hv | hv
      · exact List.mem_cons_of_mem _ (h.taken v hv)
      · obtain rfl := List.mem_singleton.mp hv
        exact List.mem_cons_self

theorem Asks.foldl {s : Imports} {written : List Bytes} (h : s.Asks written) (more : List Bytes) :
    (more.foldl Imports.ask s).Asks (written ++ more) := by
  induction more generalizing s written with
  | nil => rwa [List.append_nil]
  | cons w more ih =>
    have := ih (h.ask w)
    rwa [List.append_assoc] at this

theorem Asks.entries {s : Imports} {written : List Bytes} (h : s.Asks written) :
    s.entries = s.asked.map askedEntry := by
  rw [Imports.entries, h.assigned, List.map_nil, List.append_nil]

/-- Imports with different names are sound. -/
theorem Asks.isSound {s : Imports} {written : List Bytes} (h : s.Asks written)
    (hnames : ∀ v ∈ s.asked, ∀ w ∈ s.asked, nameOf v = nameOf w → v = w) : s.IsSound := by
  refine ⟨?_, fun l hl => ?_⟩
  · rw [h.entries, List.map_map]
    refine h.nodup.map_on fun v hv w hw hvw => hnames v hv w hw ?_
    rw [← name_askedEntry, ← name_askedEntry]
    exact hvw
  · rw [h.entries] at hl
    obtain ⟨w, hw, rfl⟩ := List.mem_map.mp hl
    rw [name_askedEntry]
    exact h.taken w hw

end Imports

/-- The imports that the page asks for, without the blanks around them. -/
def Env.askedImports (env : Env) : List Bytes :=
  (env.page.imports.map Bytes.trimSpace).filter (· != [])

/-- No name is used for two packages: a package is used under one name, under which no other one
is, and exactly one line of the import block binds the name, to the path of the package. -/
structure Unambiguous (answers : List (Bytes × Bytes)) (imports : Imports) : Prop where
  stable : ∀ path m n, (path, m) ∈ answers → (path, n) ∈ answers → m = n
  apart : ∀ path other name, (path, name) ∈ answers → (other, name) ∈ answers → path = other
  bound : ∀ path name, (path, name) ∈ answers →
    ∃ l ∈ imports.entries, l.name = name ∧ l.path = path
  single : (imports.entries.map ImportLine.name).Nodup

/-- The lines of sound imports tell the packages apart that are used under known names. -/
theorem Imports.IsSound.unambiguous {s : Imports} (h : s.IsSound) {answers : List (Bytes × Bytes)}
    (hanswers : ∀ a ∈ answers, s.known? a.1 = some a.2 ∧ ¬s.IsAliased a.1) :
    Unambiguous answers s := by
  have hbound : ∀ path name, (path, name) ∈ answers →
      ∃ l ∈ s.entries, l.name = name ∧ l.path = path := fun path name hmem =>
    exists_entry_of_known? (hanswers _ hmem).1 (hanswers _ hmem).2
  refine ⟨fun path m n hm hn => ?_, fun path other name hp ho => ?_, hbound, h.single⟩
  · exact Option.some.inj ((hanswers _ hm).1.symm.trans (hanswers _ hn).1)
  · obtain ⟨l, hl, hlname, rfl⟩ := hbound path name hp
    obtain ⟨k, hk, hkname, rfl⟩ := hbound other name ho
    rw [List.inj_on_of_nodup_map h.single hl hk (hlname.trans hkname.symm)]

/-- **Imports are unambiguous unless the page names a package `rt`.** If different imports of the
page have different names, then whatever packages are used one after the other, none of them with
a path that is the text of an import with a name of its own, no name is used for two packages,
exactly if no import of the page has the name of the runtime. -/
theorem unambiguous_iff (env : Env) (paths : List Bytes)
    (hnames : ∀ v ∈ env.askedImports, ∀ w ∈ env.askedImports,
      Imports.nameOf v = Imports.nameOf w → v = w)
    (hpaths : ∀ p ∈ paths, ∀ w ∈ env.askedImports, (Imports.named? w).isSome = true →
      Imports.unquoted w ≠ p) :
    ((start env).imports.useAll paths).2.lines = Bytes.sort
        (((start env).imports.useAll paths).2.entries.map ImportLine.text) ∧
      (Unambiguous ((start env).imports.useAll paths).1 ((start env).imports.useAll paths).2 ↔
        ∀ w ∈ env.askedImports, Imports.nameOf w ≠ "rt") := by
  have hasks : (env.page.imports.foldl Imports.ask {}).Asks env.page.imports :=
    Imports.asks_nil.foldl env.page.imports
  have hasked : ∀ w, w ∈ (start env).imports.asked ↔ w ∈ env.askedImports := hasks.mem_iff
  have hkeeps := (start env).imports.useAll_keeps paths
  refine ⟨Imports.lines_eq _, fun h w hw hrt => ?_, fun hrt => ?_⟩
  · -- The runtime and the import of the page have lines of their own.
    have hruntime : (env.runtimeImport, Bytes.ofString "rt") ∈ (start env).imports.assigned :=
      List.mem_cons_self
    have hsingle := h.single
    rw [Imports.entries, List.map_append, hkeeps.1] at hsingle
    refine (List.nodup_append.mp hsingle).2.2 "rt" ?_ "rt" ?_ rfl
    · refine List.mem_map.mpr ⟨Imports.askedEntry w, List.mem_map_of_mem ((hasked w).mpr hw), ?_⟩
      rw [Imports.name_askedEntry, hrt]
    · exact List.mem_map.mpr ⟨_, List.mem_map_of_mem (hkeeps.2 hruntime), rfl⟩
  · have hsound : (start env).imports.IsSound := by
      refine (hasks.isSound fun v hv w hw =>
        hnames v ((hasked v).mp hv) w ((hasked w).mp hw)).assign ?_ fun hmem => ?_
      · rw [hasks.assigned]
        rfl
      · rw [hasks.entries, List.map_map] at hmem
        obtain ⟨w, hw, hname⟩ := List.mem_map.mp hmem
        rw [Function.comp, Imports.name_askedEntry] at hname
        exact hrt w ((hasked w).mp hw) hname
    obtain ⟨hfinal, hanswers, -⟩ := hsound.useAll paths
    refine hfinal.unambiguous fun a ha => ⟨(hanswers a ha).2, ?_⟩
    rintro ⟨w, hw, hnamed, htext⟩
    rw [hkeeps.1] at hw
    exact hpaths a.1 (hanswers a ha).1 w ((hasked w).mp hw) hnamed htext

/-- A page that imports a package under its own name and another one under a name of its own. -/
def importingPage : Env := ⟨{}, "/a.jsp", { imports := ["fmt", "str \"strings\""] }⟩

/-- Packages that are used on the page: its own ones, two with one last element, the first of them
again, and the runtime. -/
def usedPackages : List Bytes :=
  ["fmt", "strings", "example.com/tags", "example.org/other/tags", "example.com/tags",
    defaultRuntimeImport]

/-- A page that imports two packages. -/
theorem unambiguous_importingPage :
    (∀ w ∈ importingPage.askedImports, Imports.nameOf w ≠ "rt") ∧
      Unambiguous ((start importingPage).imports.useAll usedPackages).1
        ((start importingPage).imports.useAll usedPackages).2 ∧
      ((start importingPage).imports.useAll usedPackages).1.map (·.2) =
        ["fmt", "str", "tags", "tags2", "tags", "rt"] := by
  have hnames : ∀ v ∈ importingPage.askedImports, ∀ w ∈ importingPage.askedImports,
      Imports.nameOf v = Imports.nameOf w → v = w := by decide +kernel
  have hpaths : ∀ p ∈ usedPackages, ∀ w ∈ importingPage.askedImports,
      (Imports.named? w).isSome = true → Imports.unquoted w ≠ p := by decide +kernel
  have hrt : ∀ w ∈ importingPage.askedImports, Imports.nameOf w ≠ "rt" := by decide +kernel
  exact ⟨hrt, (unambiguous_iff importingPage usedPackages hnames hpaths).2.mpr hrt,
    by decide +kernel⟩

namespace Imports

/-! ### The order of functions -/

/-- A name that a package may get: its own, or that with a number. -/
def IsNameOf (path name : Bytes) : Prop :=
  name = identifier (SlashPath.base path) ∨
    ∃ i, name = identifier (SlashPath.base path) ++ Bytes.ofNat i

/-- Two packages may get one name. -/
def Rivals (p q : Bytes) : Prop := p ≠ q ∧ ∃ name, IsNameOf p name ∧ IsNameOf q name

/-- No packages of the functions may get one name. -/
def Apart (fs : List (Expression.FunctionRef × LibraryFunction)) : Prop :=
  ∀ f ∈ fs, ∀ g ∈ fs, f.2.package ≠ [] → g.2.package ≠ [] → ¬Rivals f.2.package g.2.package

/-- The order of the names taken does not matter to which is free. -/
theorem freeNameFrom_congr {taken taken' : List Bytes} {base : Bytes}
    (h : ∀ i, base ++ Bytes.ofNat i ∈ taken' ↔ base ++ Bytes.ofNat i ∈ taken) (fuel i : Nat) :
    freeNameFrom taken' base fuel i = freeNameFrom taken base fuel i := by
  induction fuel generalizing i with
  | zero => rfl
  | succ fuel ih =>
    rw [freeNameFrom, freeNameFrom, ih]
    simp only [List.contains_iff_mem, h]

/-- One more attempt does not matter once a name is free. -/
theorem freeNameFrom_succ {taken : List Bytes} {base : Bytes} {fuel i : Nat}
    (h : freeNameFrom taken base fuel i ∉ taken) :
    freeNameFrom taken base (fuel + 1) i = freeNameFrom taken base fuel i := by
  induction fuel generalizing i with
  | zero => simp_all [freeNameFrom]
  | succ fuel ih =>
    rw [freeNameFrom] at h ⊢
    conv_rhs => rw [freeNameFrom]
    split at h
    · next htaken => rw [if_pos htaken, if_pos htaken, ih h]
    · next hfree => rw [if_neg hfree, if_neg hfree]

/-- A name that a package cannot get does not keep it from any. -/
theorem freeName_cons {taken : List Bytes} {path name : Bytes} (h : ¬IsNameOf path name) :
    freeName (name :: taken) (identifier (SlashPath.base path)) =
      freeName taken (identifier (SlashPath.base path)) := by
  have hne : ∀ {other}, IsNameOf path other → (other ∈ name :: taken ↔ other ∈ taken) := by
    intro other hother
    rw [List.mem_cons, or_iff_right]
    rintro rfl
    exact h hother
  have hfree := freeName_not_mem taken (identifier (SlashPath.base path))
  rw [freeName] at hfree ⊢
  rw [freeName, List.length_cons,
    freeNameFrom_congr (fun i => hne (.inr ⟨i, rfl⟩)) (taken.length + 1)]
  simp only [List.contains_iff_mem, hne (.inl rfl)] at hfree ⊢
  split
  · next htaken =>
    rw [if_pos htaken] at hfree
    exact freeNameFrom_succ hfree
  · rfl

theorem taken_assign (s : Imports) (name path : Bytes) :
    (s.assign name path).taken = name :: s.taken := rfl

/-- Imports that do not differ in the names that they give. -/
structure Same (s t : Imports) : Prop where
  asked : t.asked = s.asked
  assigned : t.assigned.Perm s.assigned
  lookup : ∀ path, t.assigned.lookup path = s.assigned.lookup path
  taken : t.taken.Perm s.taken

variable {s t u : Imports}

theorem Same.refl (s : Imports) : s.Same s := ⟨rfl, .refl _, fun _ => rfl, .refl _⟩

theorem Same.trans (h : s.Same t) (h' : t.Same u) : s.Same u :=
  ⟨h'.asked.trans h.asked, h'.assigned.trans h.assigned,
    fun path => (h'.lookup path).trans (h.lookup path), h'.taken.trans h.taken⟩

theorem Same.known? (h : s.Same t) (path : Bytes) : t.known? path = s.known? path := by
  rw [Imports.known?, Imports.known?, askedName?, askedName?, h.lookup, h.asked]

theorem Same.assign (h : s.Same t) (name path : Bytes) :
    (s.assign name path).Same (t.assign name path) :=
  ⟨h.asked, (h.assigned.filter _).cons _, fun other => by
    rw [lookup_assign, lookup_assign, h.lookup], h.taken.cons _⟩

theorem use_eq (s : Imports) (path : Bytes) :
    s.use path = match s.known? path with
      | some name => (name, s)
      | none => let name := freeName s.taken (identifier (SlashPath.base path))
        (name, s.assign name path) := by
  rw [use, known?]
  cases s.assigned.lookup path with
  | some name => rfl
  | none => cases s.askedName? path <;> rfl

/-- Imports that are the same give the same names. -/
theorem Same.use (h : s.Same t) (path : Bytes) :
    (t.use path).1 = (s.use path).1 ∧ (s.use path).2.Same (t.use path).2 := by
  have hname : freeName t.taken (identifier (SlashPath.base path)) =
      freeName s.taken (identifier (SlashPath.base path)) := by
    rw [freeName, freeName, h.taken.length_eq,
      freeNameFrom_congr fun i => h.taken.mem_iff]
    simp only [List.contains_iff_mem, h.taken.mem_iff]
  rw [use_eq, use_eq, h.known?, hname]
  cases s.known? path with
  | some name => exact ⟨rfl, h⟩
  | none => exact ⟨rfl, h.assign _ _⟩

/-- The name that a package gets is one that it may get. -/
theorem isNameOf_freeName (taken : List Bytes) (path : Bytes) :
    IsNameOf path (freeName taken (identifier (SlashPath.base path))) := by
  have hfrom : ∀ fuel i, ∃ j, freeNameFrom taken (identifier (SlashPath.base path)) fuel i =
      identifier (SlashPath.base path) ++ Bytes.ofNat j := by
    intro fuel
    induction fuel with
    | zero => exact fun i => ⟨i, rfl⟩
    | succ fuel ih =>
      intro i
      rw [freeNameFrom]
      split
      · exact ih _
      · exact ⟨i, rfl⟩
  rw [freeName]
  split
  · exact .inr (hfrom _ _)
  · exact .inl rfl

theorem known?_assign_of_ne (s : Imports) {name path other : Bytes} (h : other ≠ path) :
    (s.assign name path).known? other = s.known? other := by
  rw [known?, lookup_assign, if_neg h]
  rfl

/-- Packages that are not rivals may be used in any order. -/
theorem use_comm (s : Imports) {p q : Bytes} (h : ¬Rivals p q) (hpq : p ≠ q) :
    ((s.use p).2.use q).1 = (s.use q).1 ∧ ((s.use q).2.use p).1 = (s.use p).1 ∧
      ((s.use p).2.use q).2.Same ((s.use q).2.use p).2 := by
  have hfree : ∀ {p q}, ¬Rivals p q → p ≠ q → freeName
      (freeName s.taken (identifier (SlashPath.base p)) :: s.taken)
      (identifier (SlashPath.base q)) = freeName s.taken (identifier (SlashPath.base q)) :=
    fun h hpq => freeName_cons fun hq => h ⟨hpq, _, isNameOf_freeName _ _, hq⟩
  have hpfree := hfree h hpq
  have hqfree := hfree (fun hr => h ⟨hpq, hr.2.imp fun _ => And.symm⟩) hpq.symm
  rw [use_eq s p, use_eq s q]
  cases hp : s.known? p with
  | some n =>
    cases hq : s.known? q with
    | some m =>
      dsimp only
      rw [use_eq s q, use_eq s p, hp, hq]
      exact ⟨rfl, rfl, .refl _⟩
    | none =>
      dsimp only
      rw [use_eq s q, hq, use_eq (s.assign _ q) p, known?_assign_of_ne s hpq, hp]
      exact ⟨rfl, rfl, .refl _⟩
  | none =>
    cases hq : s.known? q with
    | some m =>
      dsimp only
      rw [use_eq s p, hp, use_eq (s.assign _ p) q, known?_assign_of_ne s hpq.symm, hq]
      exact ⟨rfl, rfl, .refl _⟩
    | none =>
      dsimp only
      rw [use_eq (s.assign _ p) q, known?_assign_of_ne s hpq.symm, hq,
        use_eq (s.assign _ q) p, known?_assign_of_ne s hpq, hp]
      simp only [taken_assign, hpfree, hqfree]
      refine ⟨trivial, trivial, rfl, ?_, fun other => ?_, .swap _ _ _⟩
      · have hp := (Option.or_eq_none_iff.mp hp).1
        have hq := (Option.or_eq_none_iff.mp hq).1
        rw [assigned_assign, assigned_assign hq, assigned_assign, assigned_assign hp]
        · exact .swap _ _ _
        · rwa [lookup_assign, if_neg hpq.symm]
        · rwa [lookup_assign, if_neg hpq]
      · simp only [lookup_assign]
        split
        · next hother => rw [if_neg (hother ▸ hpq)]
        · rfl

/-- A package that was used keeps its name. -/
theorem use_use (s : Imports) (path : Bytes) : (s.use path).2.use path = s.use path := by
  rcases s.use_cases path with ⟨name, hknown, huse⟩ | ⟨hnone, name, -, huse⟩
  · rw [huse, huse]
  · rw [huse, use_eq, known?_assign_self]

theorem Same.qualified (h : s.Same t) (package name : Bytes) :
    (t.qualified package name).1 = (s.qualified package name).1 ∧
      (s.qualified package name).2.Same (t.qualified package name).2 := by
  unfold Imports.qualified
  split
  · exact ⟨rfl, h⟩
  · obtain ⟨hname, hsame⟩ := h.use package
    rw [hname]
    exact ⟨rfl, hsame⟩

/-- Packages that are no rivals are named alike in both orders. -/
theorem qualified_comm (s : Imports) {p q : Bytes} (h : p ≠ [] → q ≠ [] → ¬Rivals p q)
    (a b : Bytes) :
    ((s.qualified p a).2.qualified q b).1 = (s.qualified q b).1 ∧
      ((s.qualified q b).2.qualified p a).1 = (s.qualified p a).1 ∧
      ((s.qualified p a).2.qualified q b).2.Same ((s.qualified q b).2.qualified p a).2 := by
  unfold qualified
  by_cases hp : p = []
  · simp [hp, Same.refl]
  by_cases hq : q = []
  · simp [hp, hq, Same.refl]
  simp only [beq_iff_eq, hp, hq, if_false]
  by_cases hpq : p = q
  · subst hpq
    simp [use_use, Same.refl]
  · obtain ⟨hfst, hsnd, hsame⟩ := s.use_comm (h hp hq) hpq
    rw [hfst, hsnd]
    exact ⟨rfl, rfl, hsame⟩

end Imports

open Imports

/-- Imports that are the same give functions the same entries. -/
theorem functionEntries_same {s t : Imports} (h : s.Same t)
    (fs : List (Expression.FunctionRef × LibraryFunction)) :
    (functionEntries t fs).1 = (functionEntries s fs).1 ∧
      (functionEntries s fs).2.Same (functionEntries t fs).2 := by
  induction fs generalizing s t with
  | nil => exact ⟨rfl, h⟩
  | cons f fs ih =>
    obtain ⟨hname, hsame⟩ := h.qualified f.2.package f.2.function
    obtain ⟨hentries, hend⟩ := ih hsame
    simp only [functionEntries, hname, hentries]
    exact ⟨trivial, hend⟩

/-- **Functions may come in any order** if their packages may not get one name. -/
theorem functionEntries_perm {fs gs : List (Expression.FunctionRef × LibraryFunction)}
    (h : fs.Perm gs) (hapart : Apart fs) (s : Imports) :
    (functionEntries s fs).1.Perm (functionEntries s gs).1 ∧
      (functionEntries s fs).2.Same (functionEntries s gs).2 := by
  induction h generalizing s with
  | nil => exact ⟨.refl _, .refl _⟩
  | cons f _ ih =>
    obtain ⟨hentries, hend⟩ := ih (fun a ha b hb => hapart a (.tail _ ha) b (.tail _ hb))
      (s.qualified f.2.package f.2.function).2
    exact ⟨hentries.cons _, hend⟩
  | swap f g fs =>
    obtain ⟨hf, hg, hsame⟩ := s.qualified_comm (hapart g (by simp) f (by simp))
      g.2.function f.2.function
    obtain ⟨hentries, hend⟩ := functionEntries_same hsame fs
    simp only [functionEntries, hf, hg, hentries]
    exact ⟨.swap _ _ _, hend⟩
  | trans h₁ _ ih₁ ih₂ =>
    have hmem {f} := (h₁.mem_iff (a := f)).mpr
    obtain ⟨hentries, hend⟩ := ih₁ hapart s
    obtain ⟨hentries', hend'⟩ := ih₂ (fun f hf g hg => hapart f (hmem hf) g (hmem hg)) s
    exact ⟨hentries.trans hentries', hend.trans hend'⟩

/-- What is generated for a unit, with its functions in another order. -/
def Env.reordered (env : Env) (o : MapOrder (Expression.FunctionRef × LibraryFunction)) : Env :=
  { env with options := { env.options with order := o } }

/-- The code of a body does not depend on the order of functions. -/
theorem body_reordered (env : Env) (o : MapOrder (Expression.FunctionRef × LibraryFunction))
    (fuel : Nat) : body (env.reordered o) fuel = body env fuel := by
  induction fuel with
  | zero => rfl
  | succ fuel ih =>
    funext ns
    rw [body, body, ih]
    rfl

/-- Nor does a unit whose functions are apart. -/
theorem assemble_reordered {env : Env} (h : Apart env.page.functions)
    (o : MapOrder (Expression.FunctionRef × LibraryFunction)) :
    assemble (env.reordered o) = assemble env := by
  have hperm : (env.options.order.walk env.page.functions).Perm (o.walk env.page.functions) :=
    (env.options.order.perm _).trans (o.perm _).symm
  have hmem {f} := ((env.options.order.perm env.page.functions).mem_iff (a := f)).mp
  have hfunctions : ∀ s, (env.functions s).1.Perm ((env.reordered o).functions s).1 ∧
      (env.functions s).2.Same ((env.reordered o).functions s).2 :=
    functionEntries_perm hperm fun f hf g hg => h f (hmem hf) g (hmem hg)
  have hlines : ∀ s, ((env.reordered o).functions s).2.lines = (env.functions s).2.lines := by
    intro s
    obtain ⟨-, hsame⟩ := hfunctions s
    refine Bytes.sort_eq_sort_iff.mpr (.append ?_ (hsame.assigned.map _))
    rw [hsame.asked]
  have hentries : ∀ s, writeFunctions ((env.reordered o).functions s).1 =
      writeFunctions (env.functions s).1 := by
    intro s
    obtain ⟨hsame, -⟩ := hfunctions s
    unfold writeFunctions
    rw [Bytes.sort_eq_sort_iff.mpr hsame.symm, hsame.symm.isEmpty_eq]
  unfold assemble
  simp only [hlines, hentries]
  rfl

end ServerPages.Generation

namespace ServerPages

open Generation Imports

/-- The options with another order of functions. -/
def Generation.Options.reordered (options : Options)
    (o : MapOrder (Expression.FunctionRef × LibraryFunction)) : Options :=
  { options with order := o }

/-- **The order of functions does not show** if their packages may not get one name. -/
theorem Node.generate_reordered {root : Node} {page : PageInfo} (hpage : root.page? = some page)
    (h : Apart page.functions) (options : Options)
    (o : MapOrder (Expression.FunctionRef × LibraryFunction)) :
    root.generate (options.reordered o) = root.generate options := by
  unfold generate
  rw [hpage]
  cases root.head.unit with
  | none => rfl
  | some u =>
    have hunit : ∀ fuel ns, unit ⟨options.reordered o, u.file, page⟩ fuel ns =
        unit ⟨options, u.file, page⟩ fuel ns := by
      intro fuel ns
      show unit (Env.reordered ⟨options, u.file, page⟩ o) fuel ns = _
      unfold unit
      rw [body_reordered, assemble_reordered h]
    dsimp only
    rw [hunit]
    rfl

end ServerPages
