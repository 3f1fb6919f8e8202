import ServerPages.Proofs.Bytes
import ServerPages.Proofs.CleanSession
import ServerPages.Proofs.CompilerCrash

/-!
# Clean paths

A clean path is made of the elements that are kept when it is read: names, after steps up if it does
not start at the root. Reading it again keeps these elements, so a path and its clean form name the
same place, and clean paths with the same elements are the same.

A name leads out of a directory by an element `..`, and it may do so in disguise by an empty element
or `.`. Cleaning a path that starts at the root leaves none of these, whatever the path was: an
element `..` takes the element before it away, or nothing at the root. The path of a page is such a
clean path. It stays one when a reference in a source is followed from it, so it does along any
chain of inclusions, and the name that a file tree knows it by stays inside.

## Main definitions

* `SlashPath.StaysInside`: the names that do not lead out of a file tree.
* `IsPagePath`: the clean paths from the root of the pages.
* `SlashPath.elements`: the elements that a path keeps.
* `SlashPath.assembled`: the clean path of some elements.

## Main results

* `IsPagePath.staysInside`, `FileTree.staysInside_pathOf`: what a file tree is asked for.
* `IsPagePath.chain`: a chain of references leads from page to page.
* `SlashPath.elements_assembled`: a clean path keeps its elements.
* `SlashPath.elements_join`: the elements of a joined path.
* `SlashPath.elements_join_parent`, `SlashPath.elements_join_name`: the directory of a page under
  another one, and a file in it.
-/

namespace ServerPages

namespace Bytes

theorem not_mem_of_mem_splitOnByte {c : UInt8} {s e : Bytes} (h : e ∈ splitOnByte c s) : c ∉ e := by
  induction s generalizing e with
  | nil =>
    obtain rfl := List.mem_singleton.mp h
    exact List.not_mem_nil
  | cons b s ih =>
    rw [splitOnByte] at h
    by_cases hb : b = c
    · rw [if_pos (beq_iff_eq.mpr hb), List.mem_cons] at h
      rcases h with rfl | h
      · exact List.not_mem_nil
      · exact ih h
    · rw [if_neg (mt eq_of_beq hb)] at h
      obtain ⟨p, ps, hp⟩ := List.exists_cons_of_ne_nil (splitOnByte_ne_nil c s)
      rw [hp] at h ih
      rcases List.mem_cons.mp h with rfl | h
      · intro hc
        rcases List.mem_cons.mp hc with rfl | hc
        · exact hb rfl
        · exact ih List.mem_cons_self hc
      · exact ih (List.mem_cons_of_mem p h)

/-- Joined pieces that do not hold the byte between them are split again. -/
theorem splitOnByte_join {c : UInt8} {pieces : List Bytes} (hne : pieces ≠ [])
    (h : ∀ e ∈ pieces, c ∉ e) : splitOnByte c (join [c] pieces) = pieces := by
  induction pieces with
  | nil => exact absurd rfl hne
  | cons e pieces ih =>
    obtain ⟨he, h⟩ := List.forall_mem_cons.mp h
    cases pieces with
    | nil => simpa [join, List.intercalate] using splitOnByte_of_not_mem he
    | cons e' pieces =>
      have hjoin : join [c] (e :: e' :: pieces) = e ++ c :: join [c] (e' :: pieces) := by
        simp [join, List.intercalate]
      rw [hjoin, splitOnByte_line he, ih (List.cons_ne_nil _ _) h]

end Bytes

namespace SlashPath

/-- An element of a path that is the name of a file or a directory. -/
def IsOrdinary (e : Bytes) : Prop := e ≠ [] ∧ e ≠ "." ∧ e ≠ ".."

instance (e : Bytes) : Decidable (IsOrdinary e) := inferInstanceAs (Decidable (_ ∧ _ ∧ _))

/-- A name that does not lead out of a file tree: it is empty or the root, or none of its elements
is empty, `.` or `..`. As no element is empty it has no leading slash. -/
def StaysInside (name : Bytes) : Prop :=
  name = [] ∨ name = "." ∨ ∀ e ∈ name.splitOnByte slash, IsOrdinary e

instance (name : Bytes) : Decidable (StaysInside name) := inferInstanceAs (Decidable (_ ∨ _ ∨ _))

example : ¬ StaysInside "/etc/passwd" ∧ ¬ StaysInside "a/../../b" ∧ StaysInside "a/b.jsp" := by
  decide

/-- The elements kept so far are names. -/
def IsKept (kept : List Bytes) : Prop := ∀ e ∈ kept, IsOrdinary e ∧ slash ∉ e

theorem IsKept.push {kept : List Bytes} (h : IsKept kept) {e : Bytes} (he : slash ∉ e) :
    IsKept (pushElement true kept e) := by
  unfold pushElement
  split
  · exact h
  next hdot =>
  split
  · cases kept with
    | nil => exact h
    | cons k ks =>
      -- No element kept is `..`, so the last one goes.
      obtain ⟨hk, hks⟩ := List.forall_mem_cons.mp h
      have hup : ¬(k == "..") = true := fun heq => hk.1.2.2 (eq_of_beq heq)
      dsimp only
      rw [if_neg hup]
      exact hks
  · next hup =>
    rw [Bool.or_eq_true, beq_iff_eq, beq_iff_eq, not_or] at hdot
    rw [beq_iff_eq] at hup
    exact List.forall_mem_cons.mpr ⟨⟨⟨hdot.1, hdot.2, hup⟩, he⟩, h⟩

theorem IsKept.foldl {es kept : List Bytes} (h : IsKept kept) (hes : ∀ e ∈ es, slash ∉ e) :
    IsKept (es.foldl (pushElement true) kept) := by
  induction es generalizing kept with
  | nil => exact h
  | cons e es ih =>
    obtain ⟨he, hes⟩ := List.forall_mem_cons.mp hes
    exact ih (h.push he) hes

theorem staysInside_join {es : List Bytes} (h : IsKept es) :
    StaysInside (Bytes.join [slash] es) := by
  cases es with
  | nil => exact .inl rfl
  | cons e es =>
    refine .inr (.inr ?_)
    rw [Bytes.splitOnByte_join (List.cons_ne_nil _ _) fun e he => (h e he).2]
    exact fun e he => (h e he).1

/-- **A clean path from the root** is the root and a name that stays inside. -/
theorem exists_clean_eq (p : Bytes) :
    ∃ name, clean (slash :: p) = slash :: name ∧ StaysInside name := by
  have hsplit : ∀ e ∈ Bytes.splitOnByte slash (slash :: p), slash ∉ e := fun _ =>
    Bytes.not_mem_of_mem_splitOnByte
  have hkept : IsKept ((Bytes.splitOnByte slash (slash :: p)).foldl (pushElement true) []) :=
    IsKept.foldl (fun _ he => absurd he List.not_mem_nil) hsplit
  exact ⟨_, rfl, staysInside_join fun e he => hkept e (List.mem_reverse.mp he)⟩

theorem exists_cons_of_head? {p : Bytes} (h : p.head? = some slash) : ∃ q, p = slash :: q :=
  List.head?_eq_some_iff.mp h

end SlashPath

open SlashPath

/-- What a file tree is asked for in the place of a path seen from its root stays inside. -/
theorem FileTree.staysInside_pathOf (path : Bytes) : StaysInside (FileTree.pathOf path) := by
  obtain ⟨name, hclean, hname⟩ := exists_clean_eq path
  unfold pathOf
  rw [hclean]
  dsimp only [List.drop_succ_cons, List.drop_zero]
  split
  · exact .inr (.inl rfl)
  · exact hname

/-- The path is a clean one from the root of the pages. -/
def IsPagePath (path : Bytes) : Prop := ∃ p, path = clean (slash :: p)

theorem Compiler.isPagePath_cleanPath (path : Bytes) : IsPagePath (Compiler.cleanPath path) :=
  ⟨path, rfl⟩

theorem isPagePath_clean {p : Bytes} (h : p.head? = some slash) : IsPagePath (clean p) := by
  obtain ⟨q, rfl⟩ := exists_cons_of_head? h
  exact ⟨q, rfl⟩

namespace IsPagePath

variable {path : Bytes}

/-- The name of a page in a file tree stays inside. -/
theorem staysInside (h : IsPagePath path) : StaysInside (path.dropStart "/") := by
  obtain ⟨p, rfl⟩ := h
  obtain ⟨name, hclean, hname⟩ := exists_clean_eq p
  rw [hclean]
  exact (Bytes.dropStart_append "/" name).symm ▸ hname

/-- A reference in a page leads to a page, whatever is written in it. -/
theorem included (h : IsPagePath path) (file : Bytes) : IsPagePath (includedPath path file) := by
  unfold includedPath
  split
  · next hfile => exact isPagePath_clean (eq_of_beq hfile)
  · obtain ⟨p, rfl⟩ := h
    obtain ⟨q, hq⟩ := exists_cons_of_head? (head?_parent (head?_clean (p := slash :: p) rfl))
    rw [hq]
    exact ⟨q ++ slash :: file, rfl⟩

/-- A chain of references leads from page to page. -/
theorem chain (h : IsPagePath path) (files : List Bytes) :
    IsPagePath (files.foldl includedPath path) := by
  induction files generalizing path with
  | nil => exact h
  | cons file files ih => exact ih (h.included file)

end IsPagePath

/-! ### Elements -/

namespace SlashPath

/-- Whether a path starts at the root. -/
def isRooted (p : Bytes) : Bool := p.head? == some slash

/-- The elements that a path keeps, last first. -/
def elements (p : Bytes) : List Bytes :=
  (p.splitOnByte slash).foldl (pushElement (isRooted p)) []

/-- The clean path of some elements, last first. -/
def assembled (rooted : Bool) (kept : List Bytes) : Bytes :=
  let body := Bytes.join [slash] kept.reverse
  if rooted then slash :: body else if body == [] then "." else body

theorem clean_eq (p : Bytes) : clean p = assembled (isRooted p) (elements p) := rfl

/-- Elements as they are kept: names, after steps up where there is no root. -/
def IsNormal (rooted : Bool) (kept : List Bytes) : Prop :=
  ∃ names ups, kept = names ++ ups ∧ IsKept names ∧ (∀ e ∈ ups, e = "..") ∧
    (rooted = true → ups = [])

theorem pushElement_name (rooted : Bool) (kept : List Bytes) {e : Bytes} (h : IsOrdinary e) :
    pushElement rooted kept e = e :: kept := by
  unfold pushElement
  rw [if_neg (by simp [h.1, h.2.1]), if_neg (by simp [h.2.2])]

/-- A step up takes a name back. -/
theorem pushElement_up (rooted : Bool) (kept : List Bytes) {e : Bytes} (h : IsOrdinary e) :
    pushElement rooted (e :: kept) ".." = kept := by
  show (if e == ".." then ("..": Bytes) :: e :: kept else kept) = kept
  rw [if_neg (by simp [h.2.2])]

theorem foldl_pushElement_names (rooted : Bool) (kept : List Bytes) {names : List Bytes}
    (h : IsKept names) : names.reverse.foldl (pushElement rooted) kept = names ++ kept := by
  induction names with
  | nil => rfl
  | cons e names ih =>
    obtain ⟨he, h⟩ := List.forall_mem_cons.mp h
    rw [List.reverse_cons, List.foldl_append, ih h]
    exact pushElement_name rooted _ he.1

theorem foldl_pushElement_ups {ups : List Bytes} (h : ∀ e ∈ ups, e = "..") :
    ups.reverse.foldl (pushElement false) [] = ups := by
  induction ups with
  | nil => rfl
  | cons e ups ih =>
    obtain ⟨rfl, hups⟩ := List.forall_mem_cons.mp h
    rw [List.reverse_cons, List.foldl_append, ih hups]
    cases ups with
    | nil => rfl
    | cons e ups =>
      obtain ⟨rfl, -⟩ := List.forall_mem_cons.mp hups
      rfl

theorem IsNormal.push {rooted : Bool} {kept : List Bytes} (h : IsNormal rooted kept) {e : Bytes}
    (he : slash ∉ e) : IsNormal rooted (pushElement rooted kept e) := by
  obtain ⟨names, ups, rfl, hnames, hups, hroot⟩ := h
  by_cases hdot : (e == [] || e == ".") = true
  · refine ⟨names, ups, ?_, hnames, hups, hroot⟩
    unfold pushElement
    rw [if_pos hdot]
  by_cases hup : e = ".."
  · subst hup
    cases names with
    | cons name names =>
      obtain ⟨hname, hnames⟩ := List.forall_mem_cons.mp hnames
      exact ⟨names, ups, pushElement_up rooted _ hname.1, hnames, hups, hroot⟩
    | nil =>
      cases rooted with
      | true =>
        obtain rfl := hroot rfl
        exact ⟨[], [], rfl, hnames, hups, fun _ => rfl⟩
      | false =>
        refine ⟨[], ".." :: ups, ?_, hnames, List.forall_mem_cons.mpr ⟨rfl, hups⟩, by simp⟩
        cases ups with
        | nil => rfl
        | cons e ups =>
          obtain ⟨rfl, -⟩ := List.forall_mem_cons.mp hups
          rfl
  · have hname : IsOrdinary e := by
      rw [Bool.or_eq_true, beq_iff_eq, beq_iff_eq, not_or] at hdot
      exact ⟨hdot.1, hdot.2, hup⟩
    exact ⟨e :: names, ups, pushElement_name rooted _ hname,
      List.forall_mem_cons.mpr ⟨⟨hname, he⟩, hnames⟩, hups, hroot⟩

theorem IsNormal.foldl {rooted : Bool} {es kept : List Bytes} (h : IsNormal rooted kept)
    (hes : ∀ e ∈ es, slash ∉ e) : IsNormal rooted (es.foldl (pushElement rooted) kept) := by
  induction es generalizing kept with
  | nil => exact h
  | cons e es ih =>
    obtain ⟨he, hes⟩ := List.forall_mem_cons.mp hes
    exact ih (h.push he) hes

theorem isNormal_elements (p : Bytes) : IsNormal (isRooted p) (elements p) :=
  IsNormal.foldl ⟨[], [], rfl, by simp [IsKept], by simp, fun _ => rfl⟩ fun _ =>
    Bytes.not_mem_of_mem_splitOnByte

theorem IsNormal.slash_notMem {rooted : Bool} {kept : List Bytes} (h : IsNormal rooted kept)
    {e : Bytes} (he : e ∈ kept) : slash ∉ e ∧ e ≠ [] := by
  obtain ⟨names, ups, rfl, hnames, hups, -⟩ := h
  obtain he | he := List.mem_append.mp he
  · exact ⟨(hnames e he).2, (hnames e he).1.1⟩
  · obtain rfl := hups e he
    exact ⟨by decide, by decide⟩

/-- Elements that are kept are kept when they are read again. -/
theorem IsNormal.foldl_reverse {rooted : Bool} {kept : List Bytes} (h : IsNormal rooted kept) :
    kept.reverse.foldl (pushElement rooted) [] = kept := by
  obtain ⟨names, ups, rfl, hnames, hups, hroot⟩ := h
  rw [List.reverse_append, List.foldl_append]
  cases rooted with
  | true =>
    obtain rfl := hroot rfl
    exact foldl_pushElement_names true [] hnames
  | false =>
    rw [foldl_pushElement_ups hups]
    exact foldl_pushElement_names false ups hnames

/-- **A clean path keeps its elements.** -/
theorem elements_assembled {rooted : Bool} {kept : List Bytes} (h : IsNormal rooted kept) :
    isRooted (assembled rooted kept) = rooted ∧ elements (assembled rooted kept) = kept := by
  have hsplit (hne : kept ≠ []) :
      (Bytes.join [slash] kept.reverse).splitOnByte slash = kept.reverse :=
    Bytes.splitOnByte_join (by simpa using hne) fun e he =>
      (h.slash_notMem (List.mem_reverse.mp he)).1
  have hempty : ([] : Bytes) ∉ kept := fun he => (h.slash_notMem he).2 rfl
  cases rooted with
  | true =>
    refine ⟨rfl, ?_⟩
    show (Bytes.splitOnByte slash ([] ++ slash :: Bytes.join [slash] kept.reverse)).foldl
      (pushElement true) [] = kept
    rw [Bytes.splitOnByte_line List.not_mem_nil]
    by_cases hne : kept = []
    · subst hne
      rfl
    · rw [hsplit hne]
      exact h.foldl_reverse
  | false =>
    by_cases hne : kept = []
    · subst hne
      exact ⟨rfl, rfl⟩
    have hsplit := hsplit hne
    have hbody : assembled false kept = Bytes.join [slash] kept.reverse := by
      have hsome : Bytes.join [slash] kept.reverse ≠ [] := by
        intro hnil
        rw [hnil] at hsplit
        exact hempty (List.mem_reverse.mp (hsplit ▸ List.mem_singleton_self _))
      unfold assembled
      dsimp only
      rw [if_neg (by decide), if_neg (by simpa using hsome)]
    have hroot : isRooted (Bytes.join [slash] kept.reverse) = false := by
      rw [isRooted, beq_eq_false_iff_ne]
      intro hhead
      obtain ⟨q, hq⟩ := exists_cons_of_head? hhead
      rw [hq, show slash :: q = [] ++ slash :: q from rfl,
        Bytes.splitOnByte_line List.not_mem_nil] at hsplit
      exact hempty (List.mem_reverse.mp (hsplit ▸ List.mem_cons_self))
    rw [hbody, elements, hroot, hsplit]
    exact ⟨rfl, h.foldl_reverse⟩

@[simp] theorem isRooted_clean (p : Bytes) : isRooted (clean p) = isRooted p :=
  (elements_assembled (isNormal_elements p)).1

@[simp] theorem elements_clean (p : Bytes) : elements (clean p) = elements p :=
  (elements_assembled (isNormal_elements p)).2

/-- Cleaning a clean path changes nothing. -/
theorem clean_clean (p : Bytes) : clean (clean p) = clean p := by
  rw [clean_eq (clean p), isRooted_clean, elements_clean, clean_eq]

theorem clean_ne_nil (p : Bytes) : clean p ≠ [] := by
  rw [clean_eq]
  unfold assembled
  dsimp only
  split
  · exact List.cons_ne_nil _ _
  · split
    · decide
    · next h => simpa using h

/-! ### Joined paths -/

theorem isRooted_join {p : Bytes} (hp : p ≠ []) (q : Bytes) : isRooted (join p q) = isRooted p := by
  rw [join, if_neg (by simp [hp]), if_neg (by simpa using hp), isRooted_clean]
  obtain ⟨b, p, rfl⟩ := List.exists_cons_of_ne_nil hp
  rfl

/-- The elements of a joined path: those of the one, on which those of the other are kept. -/
theorem elements_join {p : Bytes} (hp : p ≠ []) (q : Bytes) :
    elements (join p q) = (q.splitOnByte slash).foldl (pushElement (isRooted p)) (elements p) := by
  have hroot := isRooted_join hp q
  rw [join, if_neg (by simp [hp]), if_neg (by simpa using hp), isRooted_clean] at hroot
  rw [join, if_neg (by simp [hp]), if_neg (by simpa using hp), elements_clean, elements, hroot,
    Bytes.splitOnByte_append_cons, List.foldl_append]
  rfl

theorem join_ne_nil {p : Bytes} (hp : p ≠ []) (q : Bytes) : join p q ≠ [] := by
  rw [join, if_neg (by simp [hp]), if_neg (by simpa using hp)]
  exact clean_ne_nil _

/-- A joined path is clean. -/
theorem clean_join {p : Bytes} (hp : p ≠ []) (q : Bytes) : clean (join p q) = join p q := by
  rw [join, if_neg (by simp [hp]), if_neg (by simpa using hp), clean_clean]

/-- A name joined to a path is its last element. -/
theorem elements_join_name {p e : Bytes} (hp : p ≠ []) (he : IsOrdinary e) (hslash : slash ∉ e) :
    elements (join p e) = e :: elements p := by
  rw [elements_join hp, Bytes.splitOnByte_of_not_mem hslash]
  exact pushElement_name _ _ he

/-- A rooted path keeps names alone. -/
theorem isKept_elements {p : Bytes} (h : isRooted p = true) : IsKept (elements p) := by
  obtain ⟨names, ups, hkept, hnames, -, hroot⟩ := isNormal_elements p
  rw [hkept, hroot h, List.append_nil]
  exact hnames

/-- A clean path from the root that is joined to another one has its elements after those. -/
theorem elements_join_clean {p q : Bytes} (hp : p ≠ []) (hq : isRooted q = true) :
    elements (join p (clean q)) = elements q ++ elements p := by
  have hkept := isKept_elements hq
  have hclean : clean q = [] ++ slash :: Bytes.join [slash] (elements q).reverse := by
    rw [clean_eq, hq]
    rfl
  rw [elements_join hp, hclean, Bytes.splitOnByte_line List.not_mem_nil]
  by_cases hne : elements q = []
  · rw [hne]
    rfl
  · rw [Bytes.splitOnByte_join (by simpa using hne) fun e he =>
      (hkept e (List.mem_reverse.mp he)).2]
    exact foldl_pushElement_names _ _ hkept

/-- Clean paths from the root with the same elements are the same. -/
theorem clean_eq_clean {p q : Bytes} (hp : isRooted p = true) (hq : isRooted q = true) :
    clean p = clean q ↔ elements p = elements q := by
  refine ⟨fun h => by rw [← elements_clean, h, elements_clean], fun h => ?_⟩
  rw [clean_eq, clean_eq, hp, hq, h]

end SlashPath

end ServerPages
