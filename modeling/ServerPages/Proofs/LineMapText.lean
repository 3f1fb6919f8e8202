import ServerPages.LineMap.Stratum
import ServerPages.Proofs.Bytes

/-!
# Telling line maps apart by their texts

No two line maps have one text, if none of their names has a newline in it. The text is read from
the front: each part of it shows where it ends, whatever comes after it, so that two equal texts
have equal first parts and equal rests. A numeral ends before the first byte that is no digit, a
name at the first newline, and a list before the line that starts with an asterisk.

What is left out of an entry is known to the reader as well: the number of a file is left out where
it is that of the entry before, a count or a step where it is one.

## Main results

* `Entry.text_append_inj`, `SourceFile.text_append_inj`, `Stratum.text_append_inj`: the parts of a
  text, each before any rest.
* `text_injective`: whole texts.
-/

namespace ServerPages

namespace Bytes

/-! ### Names and numerals -/

/-- A name and the newline after it. -/
theorem line_append_inj {a b x y : Bytes} (ha : 10 ∉ a) (hb : 10 ∉ b)
    (h : a ++ 10 :: x = b ++ 10 :: y) : a = b ∧ x = y := by
  have hne : ∀ s : Bytes, 10 ∉ s → ∀ e ∈ s, (e != 10) = true := by
    intro s hs e he
    rw [bne_iff_ne]
    rintro rfl
    exact hs he
  obtain ⟨hab, -, hxy⟩ := append_cons_inj (hne a ha) (hne b hb) rfl rfl h
  exact ⟨hab, hxy⟩

/-- A text that starts with none of some bytes. -/
def StartsNot (p : UInt8 → Bool) (r : Bytes) : Prop := ∀ b ∈ r.head?, p b = false

/-- A text before which a numeral ends. -/
abbrev EndsNumeral (r : Bytes) : Prop := StartsNot isDigit r

@[simp] theorem startsNot_cons {p : UInt8 → Bool} {b : UInt8} {r : Bytes} :
    StartsNot p (b :: r) ↔ p b = false := by
  simp [StartsNot]

theorem ofNat_append_inj {m n : Nat} {x y : Bytes} (hx : EndsNumeral x) (hy : EndsNumeral y)
    (h : ofNat m ++ x = ofNat n ++ y) : m = n ∧ x = y := by
  have hdigits : ∀ k, ∀ b ∈ ofNat k, isDigit b = true := fun _ _ => isDigit_of_mem_ofNat
  have hnumeral := congrArg (List.takeWhile isDigit) h
  have hrest := congrArg (List.dropWhile isDigit) h
  rw [takeWhile_append_stop (hdigits m) hx, takeWhile_append_stop (hdigits n) hy] at hnumeral
  rw [dropWhile_append_stop (hdigits m) hx, dropWhile_append_stop (hdigits n) hy] at hrest
  exact ⟨ofNat_injective hnumeral, hrest⟩

theorem ofNat_ne_nil (n : Nat) : ofNat n ≠ [] := by
  intro h
  have hlen := congrArg List.length h
  simp [ofNat, Nat.toDigits_ne_nil] at hlen

/-- A numeral starts with a digit. -/
theorem exists_ofNat_eq_cons (n : Nat) : ∃ b s, ofNat n = b :: s ∧ isDigit b = true := by
  obtain ⟨b, s, h⟩ := List.exists_cons_of_ne_nil (ofNat_ne_nil n)
  exact ⟨b, s, h, isDigit_of_mem_ofNat (h ▸ List.mem_cons_self)⟩

/-- A number behind a mark, where it is not left out. -/
def marked (mark : UInt8) (leftOut : Bool) (n : Nat) : Bytes :=
  if leftOut then [] else mark :: ofNat n

/-- A number behind a mark starts with no digit, and so does what comes after it. -/
theorem endsNumeral_marked_append {mark : UInt8} (hmark : isDigit mark = false) (leftOut : Bool)
    (n : Nat) {r : Bytes} (hr : EndsNumeral r) : EndsNumeral (marked mark leftOut n ++ r) := by
  cases leftOut with
  | true => exact hr
  | false => exact startsNot_cons.mpr hmark

/-- A number behind a mark: whether it is left out shows in the first byte. -/
theorem marked_append_inj {mark : UInt8} {p q : Bool} {m n : Nat} {x y : Bytes}
    (hx : EndsNumeral x) (hy : EndsNumeral y) (hxmark : StartsNot (· == mark) x)
    (hymark : StartsNot (· == mark) y) (h : marked mark p m ++ x = marked mark q n ++ y) :
    p = q ∧ (p = false → m = n) ∧ x = y := by
  cases p with
  | false =>
    cases q with
    | false =>
      obtain ⟨hmn, hxy⟩ := ofNat_append_inj hx hy (List.cons.inj h).2
      exact ⟨rfl, fun _ => hmn, hxy⟩
    | true =>
      obtain rfl : mark :: (ofNat m ++ x) = y := h
      simp at hymark
  | true =>
    cases q with
    | false =>
      obtain rfl : x = mark :: (ofNat n ++ y) := h
      simp at hxmark
    | true => exact ⟨rfl, nofun, h⟩

/-! ### Lists -/

/-- A list of parts before a line that none of them starts like. `R` holds of the texts before
which the end of a part shows. -/
theorem flatMap_append_inj {α : Type} {write : α → Bytes} {P : α → Prop} {R : Bytes → Prop}
    {stop : Bytes}
    (hpart : ∀ a b x y, P a → P b → R x → R y → write a ++ x = write b ++ y → a = b ∧ x = y)
    (hstop : ∀ a x y, write a ++ x ≠ stop ++ y)
    (hrest : ∀ (as : List α) x, R (as.flatMap write ++ (stop ++ x))) {as bs : List α} {x y : Bytes}
    (has : ∀ a ∈ as, P a) (hbs : ∀ b ∈ bs, P b)
    (h : as.flatMap write ++ (stop ++ x) = bs.flatMap write ++ (stop ++ y)) :
    as = bs ∧ x = y := by
  induction as generalizing bs with
  | nil =>
    cases bs with
    | nil => exact ⟨rfl, List.append_cancel_left h⟩
    | cons b bs =>
      rw [List.flatMap_cons, List.append_assoc] at h
      exact absurd h.symm (hstop b _ x)
  | cons a as ih =>
    cases bs with
    | nil =>
      rw [List.flatMap_cons, List.append_assoc] at h
      exact absurd h (hstop a _ y)
    | cons b bs =>
      rw [List.flatMap_cons, List.flatMap_cons, List.append_assoc, List.append_assoc] at h
      obtain ⟨rfl, htail⟩ := hpart a b _ _ (has a List.mem_cons_self) (hbs b List.mem_cons_self)
        (hrest as x) (hrest bs y) h
      obtain ⟨rfl, hxy⟩ := ih (fun c hc => has c (List.mem_cons_of_mem _ hc))
        (fun c hc => hbs c (List.mem_cons_of_mem _ hc)) htail
      exact ⟨rfl, hxy⟩

end Bytes

open Bytes

namespace LineMap

/-! ### Entries -/

/-- The parts of the line of text for an entry, before a rest. -/
theorem Entry.text_append (e : Entry) (last : Option Nat) (x : Bytes) :
    e.text last ++ x = ofNat e.source ++ (marked 35 (last == some e.file) e.file ++
      (marked 44 (e.count == 1) e.count ++ 58 :: (ofNat e.output ++
        (marked 44 (e.step == 1) e.step ++ 10 :: x)))) := by
  have hmarked : ∀ mark leftOut n,
      (if leftOut = true then ([] : Bytes) else [mark] ++ ofNat n) = marked mark leftOut n := by
    intro mark leftOut n
    cases leftOut <;> rfl
  have htext : e.text last = ofNat e.source ++ marked 35 (last == some e.file) e.file ++
      marked 44 (e.count == 1) e.count ++ [58] ++ ofNat e.output ++
      marked 44 (e.step == 1) e.step ++ [10] := by
    simp only [← hmarked]
    rfl
  simp [htext]

/-- Two entries after one with the same file. -/
theorem Entry.text_append_inj {e f : Entry} {last : Option Nat} {x y : Bytes}
    (h : e.text last ++ x = f.text last ++ y) : e = f ∧ x = y := by
  obtain ⟨esource, ecount, eoutput, estep, efile⟩ := e
  obtain ⟨fsource, fcount, foutput, fstep, ffile⟩ := f
  simp only [text_append] at h
  have hcolon : ∀ r, EndsNumeral (58 :: r) := fun r => startsNot_cons.mpr rfl
  have hcount : ∀ n r, EndsNumeral (marked 44 (n == 1) n ++ 58 :: r) :=
    fun n r => endsNumeral_marked_append rfl _ _ (hcolon r)
  have hnoHash : ∀ n r, StartsNot (· == 35) (marked 44 (n == 1) n ++ 58 :: r) := by
    intro n r
    by_cases hn : n = 1 <;> simp [marked, hn]
  have hstep : ∀ n r, EndsNumeral (marked 44 (n == 1) n ++ 10 :: r) :=
    fun n r => endsNumeral_marked_append rfl _ _ (startsNot_cons.mpr rfl)
  obtain ⟨hsource, hfromFile⟩ := ofNat_append_inj (endsNumeral_marked_append rfl _ _ (hcount _ _))
    (endsNumeral_marked_append rfl _ _ (hcount _ _)) h
  obtain ⟨hlast, hfile, hfromCount⟩ := marked_append_inj (hcount _ _) (hcount _ _) (hnoHash _ _)
    (hnoHash _ _) hfromFile
  obtain ⟨hone, hcounts, hfromColon⟩ := marked_append_inj (hcolon _) (hcolon _)
    (startsNot_cons.mpr rfl) (startsNot_cons.mpr rfl) hfromCount
  obtain ⟨houtput, hfromStep⟩ := ofNat_append_inj (hstep _ _) (hstep _ _)
    (List.cons.inj hfromColon).2
  obtain ⟨hsingle, hsteps, hend⟩ := marked_append_inj (startsNot_cons.mpr rfl)
    (startsNot_cons.mpr rfl) (startsNot_cons.mpr rfl) (startsNot_cons.mpr rfl) hfromStep
  -- What is left out is known: the last file, or one.
  have hfiles : efile = ffile := by
    cases hsame : last == some efile with
    | false => exact hfile hsame
    | true =>
      rw [hsame, eq_comm, beq_iff_eq] at hlast
      rw [beq_iff_eq, hlast] at hsame
      exact (Option.some.inj hsame).symm
  have hknown : ∀ {m n : Nat}, (m == 1) = (n == 1) → ((m == 1) = false → m = n) → m = n := by
    intro m n hmn hne
    by_cases hm : m = 1
    · have hn : n = 1 := by simpa [hm] using hmn.symm
      rw [hm, hn]
    · exact hne (by simpa using hm)
  obtain rfl := hknown hone hcounts
  obtain rfl := hknown hsingle hsteps
  subst hsource houtput hfiles
  exact ⟨rfl, (List.cons.inj hend).2⟩

/-- The text of an entry starts with a digit. -/
theorem Entry.text_append_ne (e : Entry) (last : Option Nat) (x y : Bytes) :
    e.text last ++ x ≠ 42 :: y := by
  obtain ⟨b, s, hs, hb⟩ := exists_ofNat_eq_cons e.source
  rw [text_append, hs, List.cons_append]
  rintro h
  obtain ⟨rfl, -⟩ := List.cons.inj h
  exact absurd hb (by decide)

/-- Entries before a line that starts with an asterisk. Induction on the entries, after whichever
file: the first entries are equal, and so the file before the others is the same again. -/
theorem entriesText_append_inj {es fs : List Entry} {last : Option Nat} {x y : Bytes}
    (h : entriesText last es ++ 42 :: x = entriesText last fs ++ 42 :: y) : es = fs ∧ x = y := by
  induction es generalizing last fs with
  | nil =>
    cases fs with
    | nil => exact ⟨rfl, (List.cons.inj h).2⟩
    | cons f fs =>
      rw [entriesText, entriesText, List.append_assoc, List.nil_append] at h
      exact absurd h.symm (f.text_append_ne last _ x)
  | cons e es ih =>
    cases fs with
    | nil =>
      rw [entriesText, entriesText, List.append_assoc, List.nil_append] at h
      exact absurd h (e.text_append_ne last _ y)
    | cons f fs =>
      rw [entriesText, entriesText, List.append_assoc, List.append_assoc] at h
      obtain ⟨rfl, htail⟩ := Entry.text_append_inj h
      obtain ⟨rfl, hxy⟩ := ih htail
      exact ⟨rfl, hxy⟩

/-! ### Files -/

/-- A file whose name and path have no newline in them. -/
def SourceFile.IsPlain (f : SourceFile) : Prop := 10 ∉ f.name ∧ 10 ∉ f.path

instance (f : SourceFile) : Decidable f.IsPlain :=
  inferInstanceAs (Decidable (10 ∉ f.name ∧ 10 ∉ f.path))

theorem SourceFile.text_append (f : SourceFile) (x : Bytes) :
    f.text ++ x = 43 :: 32 :: (ofNat f.id ++ 32 :: (f.name ++ 10 :: (f.path ++ 10 :: x))) := by
  have htext : f.text = [43, 32] ++ ofNat f.id ++ [32] ++ f.name ++ [10] ++ f.path ++ [10] := rfl
  simp [htext]

theorem SourceFile.text_append_inj {f g : SourceFile} {x y : Bytes} (hf : f.IsPlain)
    (hg : g.IsPlain) (h : f.text ++ x = g.text ++ y) : f = g ∧ x = y := by
  obtain ⟨fid, fname, fpath⟩ := f
  obtain ⟨gid, gname, gpath⟩ := g
  simp only [text_append, List.cons.injEq, true_and] at h
  obtain ⟨rfl, hname⟩ := ofNat_append_inj (startsNot_cons.mpr rfl) (startsNot_cons.mpr rfl) h
  obtain ⟨rfl, hpath⟩ := line_append_inj hf.1 hg.1 (List.cons.inj hname).2
  obtain ⟨rfl, hxy⟩ := line_append_inj hf.2 hg.2 hpath
  exact ⟨rfl, hxy⟩

/-- Files before the line that starts the entries. -/
theorem files_append_inj {fs gs : List SourceFile} {x y : Bytes} (hfs : ∀ f ∈ fs, f.IsPlain)
    (hgs : ∀ g ∈ gs, g.IsPlain)
    (h : fs.flatMap SourceFile.text ++ ([42, 76, 10] ++ x) =
      gs.flatMap SourceFile.text ++ ([42, 76, 10] ++ y)) : fs = gs ∧ x = y := by
  refine flatMap_append_inj (R := fun _ => True) ?_ ?_ (fun _ _ => trivial) hfs hgs h
  · intro f g x y hf hg _ _ h
    exact SourceFile.text_append_inj hf hg h
  · intro f x y h
    simp [SourceFile.text_append] at h

/-! ### Strata -/

/-- A stratum whose name and files have no newline in them. -/
structure Stratum.IsPlain (s : Stratum) : Prop where
  name : 10 ∉ s.name
  files : ∀ f ∈ s.files, f.IsPlain

theorem Stratum.text_append (s : Stratum) (x : Bytes) :
    s.text ++ x = 42 :: 83 :: 32 :: (s.name ++ 10 :: ([42, 70, 10] ++
      (s.files.flatMap SourceFile.text ++
        ([42, 76, 10] ++ (entriesText none s.entries ++ x))))) := by
  have htext : s.text = [42, 83, 32] ++ s.name ++ [10, 42, 70, 10] ++
      s.files.flatMap SourceFile.text ++ [42, 76, 10] ++ entriesText none s.entries := rfl
  simp [htext]

/-- Two strata, each before a line that starts with an asterisk. -/
theorem Stratum.text_append_inj {s t : Stratum} {x y : Bytes} (hs : s.IsPlain) (ht : t.IsPlain)
    (h : s.text ++ 42 :: x = t.text ++ 42 :: y) : s = t ∧ x = y := by
  obtain ⟨sname, sfiles, sentries⟩ := s
  obtain ⟨tname, tfiles, tentries⟩ := t
  simp only [text_append, List.cons.injEq, true_and] at h
  obtain ⟨rfl, hlist⟩ := line_append_inj hs.name ht.name h
  obtain ⟨rfl, hentries⟩ := files_append_inj hs.files ht.files
    (List.append_cancel_left hlist)
  obtain ⟨rfl, hxy⟩ := entriesText_append_inj hentries
  exact ⟨rfl, hxy⟩

/-- Strata before the end of the text. The line after a stratum starts with an asterisk, be it the
first of the next one or the last of the text. -/
theorem strata_append_inj {ss ts : List Stratum} {x y : Bytes} (hss : ∀ s ∈ ss, s.IsPlain)
    (hts : ∀ t ∈ ts, t.IsPlain)
    (h : ss.flatMap Stratum.text ++ ([42, 69, 10] ++ x) =
      ts.flatMap Stratum.text ++ ([42, 69, 10] ++ y)) : ss = ts ∧ x = y := by
  refine flatMap_append_inj (R := fun r => ∃ z, r = 42 :: z) ?_ ?_ ?_ hss hts h
  · rintro s t - - hs ht ⟨x, rfl⟩ ⟨y, rfl⟩ h
    obtain ⟨rfl, rfl⟩ := Stratum.text_append_inj hs ht h
    exact ⟨rfl, rfl⟩
  · intro s x y h
    simp [Stratum.text_append] at h
  · rintro (- | ⟨s, ss⟩) x
    · exact ⟨_, rfl⟩
    · rw [List.flatMap_cons, List.append_assoc, Stratum.text_append]
      exact ⟨_, rfl⟩

/-! ### Whole texts -/

/-- A line map none of whose names has a newline in it. -/
structure IsPlain (m : LineMap) : Prop where
  output : 10 ∉ m.output
  default : 10 ∉ m.default
  strata : ∀ s ∈ m.strata, s.IsPlain

/-- Line maps with one text are one: they agree in the file they are about, the default stratum and
in every stratum, with its name, its files and its entries. -/
theorem text_injective {m n : LineMap} (hm : m.IsPlain) (hn : n.IsPlain)
    (h : m.text = n.text) : m = n := by
  obtain ⟨moutput, mdefault, mstrata⟩ := m
  obtain ⟨noutput, ndefault, nstrata⟩ := n
  have htext : ∀ m : LineMap, m.text = [83, 77, 65, 80, 10] ++ (m.output ++ 10 :: (m.default ++
      10 :: (m.strata.flatMap Stratum.text ++ ([42, 69, 10] ++ [])))) := by
    intro m
    have hparts : m.text = [83, 77, 65, 80, 10] ++ m.output ++ [10] ++ m.default ++ [10] ++
        m.strata.flatMap Stratum.text ++ [42, 69, 10] := rfl
    simp [hparts]
  rw [htext, htext] at h
  obtain ⟨rfl, hdefault⟩ := line_append_inj hm.output hn.output (List.append_cancel_left h)
  obtain ⟨rfl, hstrata⟩ := line_append_inj hm.default hn.default hdefault
  obtain ⟨rfl, -⟩ := strata_append_inj hm.strata hn.strata hstrata
  rfl

/-- The map of a builder with lines of two pages, against the map that its text shows: the file is
written where it changes, and neither a count nor a step of one is. -/
theorem text_injective_twoFiles :
    let page (file : Bytes) (line : Int) : Position := { file := file, line := line }
    let b := (((({} : Builder).addLines (page "/shop/index.jsp" 1) 3 20).addFact
      (page "/shop/header.jspf" 4) 23 2).addFact (page "/shop/header.jspf" 5) 25 1).addFact
      (page "/shop/index.jsp" 7) 30 1
    ofStratum "index_jsp.go" (b.stratum pageStratum) =
      ⟨"index_jsp.go", "JSP", [⟨"JSP", [⟨0, "index.jsp", "/shop/index.jsp"⟩,
        ⟨1, "header.jspf", "/shop/header.jspf"⟩],
        [⟨1, 3, 20, 1, 0⟩, ⟨4, 1, 23, 2, 1⟩, ⟨5, 1, 25, 1, 1⟩, ⟨7, 1, 30, 1, 0⟩]⟩]⟩ := by
  refine text_injective ⟨?_, ?_, ?_⟩ ⟨?_, ?_, ?_⟩ ?_
  · decide
  · decide
  · simp only [ofStratum, List.mem_singleton, forall_eq]
    exact ⟨by decide, by decide⟩
  · decide
  · decide
  · simp only [List.mem_singleton, forall_eq]
    exact ⟨by decide, by decide⟩
  · decide

end LineMap

end ServerPages
