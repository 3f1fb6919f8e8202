import Mathlib.Logic.ExistsUnique
import ServerPages.Expression.Basic
import ServerPages.Proofs.Bytes

/-!
# References to library functions

A body refers to a library function where a word starts that a colon, a name and a parenthesis
follow, outside quoted strings and not after a dot (`RefersTo`). The grammar reads an identifier in
its place, made of the prefix and the name with two underscores between them. Both may hold
underscores of their own, so the place where the identifier is cut can be ambiguous: two references
are written alike if one of them overlaps the other (`FunctionRef.Overlaps`), and then only the
later one is found again.

## Main results

* `Expression.FunctionRef.mangled_eq_iff`: which references are written as one identifier.
* `Expression.mem_references_iff`: the references found are those that the body has.
* `Expression.resolve?_eq_some_iff`: an identifier stands for the last reference written so.
* `Expression.references_unique_iff`: every reference has its own identifier, by which it is found
  again, exactly if no two references of the body overlap; then every call of a function is reported
  as a call of that function.
-/

namespace ServerPages.Expression

/-! ### Identifiers -/

namespace FunctionRef

/-- The prefix of `g` goes on into the name of `f`: it takes one of the underscores that separate
the two names of `f`, or all that stands before another separator in the name. -/
def Overlaps (f g : FunctionRef) : Prop :=
  (g.library = f.library ++ [95] ∧ f.name = 95 :: g.name) ∨
    ∃ w, g.library = f.library ++ 95 :: 95 :: w ∧ f.name = w ++ 95 :: 95 :: g.name

variable {f g : FunctionRef}

theorem mangled_eq (f : FunctionRef) : f.mangled = f.library ++ 95 :: 95 :: f.name :=
  List.append_assoc f.library _ f.name

theorem Overlaps.mangled_eq (h : f.Overlaps g) : f.mangled = g.mangled := by
  rw [FunctionRef.mangled_eq, FunctionRef.mangled_eq]
  rcases h with ⟨hlibrary, hname⟩ | ⟨w, hlibrary, hname⟩ <;> simp [hlibrary, hname]

/-- No reference overlaps itself. -/
theorem Overlaps.ne (h : f.Overlaps g) : f ≠ g := by
  rintro rfl
  rcases h with ⟨hlibrary, -⟩ | ⟨w, hlibrary, -⟩
  all_goals
    have hlength := congrArg List.length hlibrary
    simp at hlength

/-- A prefix that another one overlaps into has an underscore. -/
theorem Overlaps.mem_library (h : f.Overlaps g) : 95 ∈ g.library := by
  rcases h with ⟨hlibrary, -⟩ | ⟨w, hlibrary, -⟩ <;> simp [hlibrary]

theorem eq_or_overlaps {w : Bytes} (hlibrary : g.library = f.library ++ w)
    (hname : 95 :: 95 :: f.name = w ++ 95 :: 95 :: g.name) :
    (f.library = g.library ∧ f.name = g.name) ∨ f.Overlaps g := by
  rcases w with - | ⟨b, - | ⟨c, w⟩⟩
  · rw [List.append_nil] at hlibrary
    exact .inl ⟨hlibrary.symm, (List.cons.inj (List.cons.inj hname).2).2⟩
  · obtain ⟨rfl, htail⟩ := List.cons.inj hname
    exact .inr (.inl ⟨hlibrary, (List.cons.inj htail).2⟩)
  · obtain ⟨rfl, htail⟩ := List.cons.inj hname
    obtain ⟨rfl, hrest⟩ := List.cons.inj htail
    exact .inr (.inr ⟨w, hlibrary, hrest⟩)

/-- **Two references are written as one identifier** exactly if they have the same two names, or one
of them overlaps the other. -/
theorem mangled_eq_iff :
    f.mangled = g.mangled ↔
      (f.library = g.library ∧ f.name = g.name) ∨ f.Overlaps g ∨ g.Overlaps f := by
  constructor
  · intro h
    rw [f.mangled_eq, g.mangled_eq, List.append_eq_append_iff] at h
    rcases h with ⟨w, hlibrary, hname⟩ | ⟨w, hlibrary, hname⟩
    · exact (eq_or_overlaps hlibrary hname).imp_right .inl
    · exact (eq_or_overlaps hlibrary hname).imp (fun h => ⟨h.1.symm, h.2.symm⟩) .inr
  · rintro (⟨hlibrary, hname⟩ | h | h)
    · rw [mangled, mangled, hlibrary, hname]
    · exact h.mangled_eq
    · exact h.mangled_eq.symm

end FunctionRef

/-! ### References -/

/-- Where a place stands to the quoted strings of a body. -/
inductive Quoting where
  /-- Outside of them. -/
  | outside
  /-- In a string that started with the mark. -/
  | inside (mark : UInt8)
  /-- In such a string, after a backslash that hides the next byte. -/
  | hidden (mark : UInt8)

/-- The place after one more byte. -/
def Quoting.read : Quoting → UInt8 → Quoting
  | .outside, b => if b == 39 || b == 34 then .inside b else .outside
  | .inside mark, b =>
    if b == mark then .outside else if b == 92 then .hidden mark else .inside mark
  | .hidden mark, _ => .inside mark

/-- Where the place after a text stands. -/
def quoting (before : Bytes) : Quoting := before.foldl Quoting.read .outside

/-- The bytes of a word. -/
def IsWord (w : Bytes) : Prop :=
  ∃ b s, w = b :: s ∧ isWordStart b = true ∧ ∀ c ∈ s, isWordByte c = true

/-- A word that goes on after the text would start there: the text ends in no word. Digits that
stand alone are no word. -/
def EndsNoWord (before : Bytes) : Prop :=
  ∀ b ∈ before.reverse.takeWhile isWordByte, Bytes.isDigit b = true

/-- The place after a text is one where a reference may start. -/
structure IsPlace (before : Bytes) : Prop where
  unquoted : quoting before = .outside
  fresh : EndsNoWord before
  undotted : before.getLast? ≠ some 46

/-- The text starts with a call of the function. -/
structure IsCall (text : Bytes) (f : FunctionRef) : Prop where
  library : IsWord f.library
  name : IsWord f.name
  written : ∃ blanks rest, (∀ b ∈ blanks, b = 32 ∨ b = 9) ∧
    text = f.library ++ 58 :: (f.name ++ (blanks ++ 40 :: rest))
  unbound : f.uri = []

/-- After the text `before`, the function is referred to in the text that follows. -/
def RefersAfter (before text : Bytes) (f : FunctionRef) : Prop :=
  ∃ u t, text = u ++ t ∧ IsPlace (before ++ u) ∧ IsCall t f

/-- A body refers to a function: `prefix:name(` stands in it, outside quoted strings and not after a
dot. -/
def RefersTo (body : Bytes) (f : FunctionRef) : Prop := RefersAfter [] body f

section Words

variable {before w s : Bytes} {b : UInt8} {f : FunctionRef}

theorem isWordByte_of_isWordStart (h : isWordStart b = true) : isWordByte b = true := by
  rw [isWordByte, h, Bool.true_or]

theorem isDigit_of_isWordByte (hb : isWordByte b = true) (hstart : isWordStart b = false) :
    Bytes.isDigit b = true := by
  rwa [isWordByte, hstart, Bool.false_or] at hb

theorem IsWord.isWordByte (h : IsWord w) : ∀ c ∈ w, isWordByte c = true := by
  obtain ⟨b, s, rfl, hb, hs⟩ := h
  exact List.forall_mem_cons.mpr ⟨isWordByte_of_isWordStart hb, hs⟩

theorem isWordStart_eq_false_of_isDigit (h : Bytes.isDigit b = true) : isWordStart b = false := by
  simp only [Bytes.isDigit, Bool.and_eq_true, decide_eq_true_eq] at h
  simp only [isWordStart, Bytes.isAlpha, Bytes.isLower, Bytes.isUpper, Bool.or_eq_false_iff,
    Bool.and_eq_false_iff, decide_eq_false_iff_not, beq_eq_false_iff_ne]
  grind

/-- What starts like a word and is not longer is a word. -/
theorem IsWord.of_prefix {u : Bytes} (h : IsWord w) (hu : u <+: w) (hne : u ≠ []) : IsWord u := by
  obtain ⟨b, s, rfl, hb, hs⟩ := h
  obtain ⟨c, u, rfl⟩ := List.exists_cons_of_ne_nil hne
  obtain ⟨rfl, htail⟩ := List.cons_prefix_cons.mp hu
  exact ⟨c, u, rfl, hb, fun d hd => hs d (htail.subset hd)⟩

theorem isWord_takeWhile (hb : isWordStart b = true) : IsWord (b :: s.takeWhile isWordByte) :=
  ⟨b, _, rfl, hb, List.all_eq_true.mp List.all_takeWhile⟩

/-- A text that ends in a word does. -/
theorem not_endsNoWord (h : IsWord w) : ¬EndsNoWord (before ++ w) := by
  intro hfresh
  obtain ⟨b, s, rfl, hb, hs⟩ := h
  have hmem : b ∈ (before ++ b :: s).reverse.takeWhile isWordByte := by
    rw [List.reverse_append, List.reverse_cons, List.append_assoc,
      List.takeWhile_append_of_pos (by simpa using hs), List.singleton_append,
      List.takeWhile_cons_of_pos (isWordByte_of_isWordStart hb)]
    simp
  have hdigit := hfresh b hmem
  rw [isWordStart_eq_false_of_isDigit hdigit] at hb
  cases hb

theorem endsNoWord_of_not_isWordByte (hb : isWordByte b = false) : EndsNoWord (before ++ [b]) := by
  intro c hc
  rw [List.reverse_append, List.reverse_singleton, List.singleton_append,
    List.takeWhile_cons_of_neg (by simp [hb])] at hc
  cases hc

theorem endsNoWord_of_isDigit (hfresh : EndsNoWord before) (hb : Bytes.isDigit b = true) :
    EndsNoWord (before ++ [b]) := by
  have hword : isWordByte b = true := by rw [isWordByte, hb, Bool.or_true]
  intro c hc
  rw [List.reverse_append, List.reverse_singleton, List.singleton_append,
    List.takeWhile_cons_of_pos hword] at hc
  rcases List.mem_cons.mp hc with rfl | hc
  · exact hb
  · exact hfresh c hc

/-- What follows the name of a function that is called does not belong to it. -/
theorem not_isWordByte_of_call {blanks : Bytes} (rest : Bytes)
    (hblanks : ∀ b ∈ blanks, b = 32 ∨ b = 9) :
    ∀ c ∈ (blanks ++ 40 :: rest).head?, isWordByte c = false := by
  rcases blanks with - | ⟨d, blanks⟩
  · rintro _ ⟨⟩
    rfl
  · rintro _ ⟨⟩
    rcases hblanks d List.mem_cons_self with rfl | rfl <;> rfl

/-- The name that is called after a prefix. -/
theorem calledName?_eq_some_iff {name : Bytes} :
    calledName? s = some name ↔ IsWord name ∧ ∃ blanks rest, (∀ b ∈ blanks, b = 32 ∨ b = 9) ∧
      s = 58 :: (name ++ (blanks ++ 40 :: rest)) := by
  constructor
  · intro h
    unfold calledName? at h
    split at h
    · next b s =>
      split at h
      · next hb =>
        dsimp only at h
        split at h
        · next rest hrest =>
          obtain rfl := Option.some.inj h
          refine ⟨isWord_takeWhile hb,
            (s.dropWhile isWordByte).takeWhile fun c => c == 32 || c == 9, rest, ?_, ?_⟩
          · intro c hc
            simpa using List.all_eq_true.mp List.all_takeWhile c hc
          · rw [← hrest, List.takeWhile_append_dropWhile, List.cons_append,
              List.takeWhile_append_dropWhile]
        · cases h
      · cases h
    · cases h
  · rintro ⟨⟨b, n, rfl, hb, hn⟩, blanks, rest, hblanks, rfl⟩
    have hstop := not_isWordByte_of_call rest hblanks
    rw [List.cons_append, calledName?, if_pos hb, Bytes.takeWhile_append_stop hn hstop,
      Bytes.dropWhile_append_stop hn hstop,
      Bytes.dropWhile_append_stop (by simpa using hblanks) (by rintro _ ⟨⟩; rfl)]
    rfl

/-- A call is told by the word it starts with. -/
theorem isCall_cons_iff (hb : isWordStart b = true) :
    IsCall (b :: s) f ↔ f.library = b :: s.takeWhile isWordByte ∧
      calledName? (s.dropWhile isWordByte) = some f.name ∧ f.uri = [] := by
  constructor
  · rintro ⟨hlibrary, hname, ⟨blanks, rest, hblanks, htext⟩, huri⟩
    have hrun := hlibrary.isWordByte
    have hstop : ∀ c ∈ (58 :: (f.name ++ (blanks ++ 40 :: rest))).head?, isWordByte c = false := by
      rintro _ ⟨⟩
      rfl
    have hbyte := isWordByte_of_isWordStart hb
    have htake := Bytes.takeWhile_append_stop hrun hstop
    have hdrop := Bytes.dropWhile_append_stop hrun hstop
    rw [← htext, List.takeWhile_cons_of_pos hbyte] at htake
    rw [← htext, List.dropWhile_cons_of_pos hbyte] at hdrop
    exact ⟨htake.symm, calledName?_eq_some_iff.mpr ⟨hname, blanks, rest, hblanks, hdrop⟩, huri⟩
  · rintro ⟨hlibrary, hcalled, huri⟩
    obtain ⟨hname, blanks, rest, hblanks, hrest⟩ := calledName?_eq_some_iff.mp hcalled
    refine ⟨hlibrary ▸ isWord_takeWhile hb, hname, ⟨blanks, rest, hblanks, ?_⟩, huri⟩
    rw [hlibrary, ← hrest, List.cons_append, List.takeWhile_append_dropWhile]

theorem IsCall.isWordStart {b : UInt8} (h : IsCall (b :: s) f) : isWordStart b = true := by
  obtain ⟨⟨c, w, hlibrary, hc, -⟩, -, ⟨blanks, rest, -, htext⟩, -⟩ := h
  rw [hlibrary] at htext
  rwa [(List.cons.inj htext).1]

/-- The name of a function that is called is no prefix of another call. -/
theorem not_isCall_name {name blanks : Bytes} (rest : Bytes) (hname : IsWord name)
    (hblanks : ∀ b ∈ blanks, b = 32 ∨ b = 9) : ¬IsCall (name ++ (blanks ++ 40 :: rest)) f := by
  obtain ⟨b, n, rfl, hb, hn⟩ := hname
  have hnone : calledName? (blanks ++ 40 :: rest) = none := by
    rcases blanks with - | ⟨c, blanks⟩
    · rfl
    · rcases hblanks c List.mem_cons_self with rfl | rfl <;> rfl
  rw [List.cons_append, isCall_cons_iff hb,
    Bytes.dropWhile_append_stop hn (not_isWordByte_of_call rest hblanks), hnone]
  rintro ⟨-, h, -⟩
  cases h

end Words

/-! ### Places -/

section Places

variable {before s : Bytes} {f : FunctionRef}

theorem not_refersAfter_nil : ¬RefersAfter before [] f := by
  rintro ⟨u, t, htext, -, hcall⟩
  obtain ⟨⟨b, w, hlibrary, -, -⟩, -, ⟨blanks, rest, -, rfl⟩, -⟩ := hcall
  simp at htext

/-- A reference starts at once or after one more byte. -/
theorem refersAfter_cons {b : UInt8} :
    RefersAfter before (b :: s) f ↔
      (IsPlace before ∧ IsCall (b :: s) f) ∨ RefersAfter (before ++ [b]) s f := by
  constructor
  · rintro ⟨- | ⟨c, u⟩, t, htext, hplace, hcall⟩
    · rw [List.append_nil] at hplace
      obtain rfl : b :: s = t := htext
      exact .inl ⟨hplace, hcall⟩
    · obtain ⟨rfl, rfl⟩ := List.cons.inj htext
      exact .inr ⟨u, t, rfl, by rwa [List.append_assoc], hcall⟩
  · rintro (⟨hplace, hcall⟩ | ⟨u, t, rfl, hplace, hcall⟩)
    · exact ⟨[], b :: s, rfl, by rwa [List.append_nil], hcall⟩
    · exact ⟨b :: u, t, rfl, by rwa [List.append_assoc] at hplace, hcall⟩

theorem quoting_append (before u : Bytes) :
    quoting (before ++ u) = u.foldl Quoting.read (quoting before) :=
  List.foldl_append

/-- Text without quotes leaves a place outside of strings. -/
theorem quoting_append_of_unquoted {u : Bytes} (h : quoting before = .outside)
    (hu : ∀ b ∈ u, (b == 39 || b == 34) = false) : quoting (before ++ u) = .outside := by
  induction u generalizing before with
  | nil => rwa [List.append_nil]
  | cons b u ih =>
    have hb : quoting (before ++ [b]) = .outside := by
      rw [quoting_append, h]
      exact if_neg (by rw [hu b List.mem_cons_self]; exact Bool.false_ne_true)
    simpa using ih hb fun c hc => hu c (List.mem_cons_of_mem b hc)

/-- No place in a string is outside of it, but the one after it is, if text follows. -/
theorem string_places {q : UInt8} {s u t : Bytes} (h : s = u ++ t) :
    (u.length < stringLength q s → u.foldl Quoting.read (.inside q) ≠ .outside) ∧
    (u.length = stringLength q s → t ≠ [] →
      u.foldl Quoting.read (.inside q) = .outside ∧ ∃ v, u = v ++ [q]) := by
  fun_induction stringLength q s generalizing u with
  | case1 => exact ⟨fun h => absurd h (Nat.not_lt_zero _), fun _ ht => by simp_all⟩
  | case2 b =>
    rcases u with - | ⟨c, u⟩
    · exact ⟨fun _ => Quoting.noConfusion, fun h => by cases h⟩
    · obtain ⟨rfl, htail⟩ := List.cons.inj h
      exact ⟨fun h => by simp at h, fun _ ht => absurd (List.append_eq_nil_iff.mp htail.symm).2 ht⟩
  | case3 b c s hb =>
    rcases u with - | ⟨d, u⟩
    · exact ⟨fun _ => Quoting.noConfusion, fun h => by cases h⟩
    · obtain ⟨rfl, htail⟩ := List.cons.inj h
      refine ⟨fun h => by simp at h, fun hlength _ => ?_⟩
      obtain rfl := List.eq_nil_of_length_eq_zero (Nat.succ.inj hlength)
      exact ⟨if_pos hb, [], by rw [eq_of_beq hb]; rfl⟩
  | case4 b c s hb hback ih =>
    rcases u with - | ⟨d, - | ⟨e, u⟩⟩
    · exact ⟨fun _ => Quoting.noConfusion, fun h => by simp at h; omega⟩
    · obtain ⟨rfl, htail⟩ := List.cons.inj h
      rw [List.foldl_cons, Quoting.read, if_neg hb, if_pos hback]
      exact ⟨fun _ => Quoting.noConfusion, fun h => by simp at h; omega⟩
    · obtain ⟨rfl, htail⟩ := List.cons.inj h
      obtain ⟨rfl, hrest⟩ := List.cons.inj htail
      rw [List.foldl_cons, Quoting.read, if_neg hb, if_pos hback, List.foldl_cons, Quoting.read]
      obtain ⟨hin, hout⟩ := ih hrest
      refine ⟨fun hlength => hin (by simp at hlength; omega), fun hlength ht => ?_⟩
      obtain ⟨hread, v, rfl⟩ := hout (by simp at hlength; omega) ht
      exact ⟨hread, b :: c :: v, rfl⟩
  | case5 b c s hb hback ih =>
    rcases u with - | ⟨d, u⟩
    · exact ⟨fun _ => Quoting.noConfusion, fun h => by simp at h; omega⟩
    · obtain ⟨rfl, htail⟩ := List.cons.inj h
      rw [List.foldl_cons, Quoting.read, if_neg hb, if_neg hback]
      obtain ⟨hin, hout⟩ := ih htail
      refine ⟨fun hlength => hin (by simp at hlength; omega), fun hlength ht => ?_⟩
      obtain ⟨hread, v, rfl⟩ := hout (by simp at hlength; omega) ht
      exact ⟨hread, b :: v, rfl⟩

/-- A place that the scan comes to, `b` being next: it is outside of strings, and no word ends
there if `b` may continue one. -/
def Settled (before : Bytes) (b : UInt8) : Prop :=
  quoting before = .outside ∧ (isWordByte b = true → EndsNoWord before)

/-- The scan, which passes over `skip` bytes first, misses no reference in them, and comes to a
place where it can go on. -/
structure Resumes (f : FunctionRef) (skip : Nat) (afterDot : Bool) (before s : Bytes) : Prop where
  quiet : ∀ u t, s = u ++ t → u.length < skip → ¬(IsPlace (before ++ u) ∧ IsCall t f)
  lands : ∀ u b t, s = u ++ b :: t → u.length = skip → Settled (before ++ u) b
  dot : skip = 0 → s ≠ [] → (afterDot = true ↔ before.getLast? = some 46)

variable {skip : Nat} {afterDot : Bool} {b : UInt8}

theorem Resumes.step (h : Resumes f (skip + 1) afterDot before (b :: s)) :
    Resumes f skip (b == 46) (before ++ [b]) s where
  quiet u t htext hlength := by
    have hquiet := h.quiet (b :: u) t (congrArg (b :: ·) htext) (Nat.succ_lt_succ hlength)
    rwa [List.append_cons] at hquiet
  lands u c t htext hlength := by
    have hlands := h.lands (b :: u) c t (congrArg (b :: ·) htext) (congrArg (· + 1) hlength)
    rwa [List.append_cons] at hlands
  dot _ _ := by simp

/-- The place is one for a reference, if a word starts there that no dot stands before. -/
theorem Resumes.isPlace_iff (h : Resumes f 0 afterDot before (b :: s)) (hb : isWordStart b = true) :
    IsPlace before ↔ afterDot = false := by
  obtain ⟨hquoting, hfresh⟩ := h.lands [] b s rfl rfl
  rw [List.append_nil] at hquoting hfresh
  have hdot := h.dot rfl (List.cons_ne_nil b s)
  rw [Bool.eq_false_iff, ne_eq, hdot]
  exact ⟨fun hplace => hplace.undotted,
    fun hundotted => ⟨hquoting, hfresh (isWordByte_of_isWordStart hb), hundotted⟩⟩

theorem Resumes.quoting (h : Resumes f 0 afterDot before (b :: s)) : quoting before = .outside := by
  have hsettled := h.lands [] b s rfl rfl
  rw [List.append_nil] at hsettled
  exact hsettled.1

/-- A string is passed over. -/
theorem Resumes.string (h : Resumes f 0 afterDot before (b :: s))
    (hb : (b == 39 || b == 34) = true) :
    Resumes f (stringLength b s) false (before ++ [b]) s where
  quiet u t htext hlength := by
    rintro ⟨hplace, -⟩
    have hunquoted := hplace.unquoted
    rw [quoting_append, quoting_append, h.quoting, List.foldl_cons, Quoting.read,
      if_pos hb] at hunquoted
    exact (string_places htext).1 hlength hunquoted
  lands u c t htext hlength := by
    obtain ⟨hread, v, rfl⟩ := (string_places htext).2 hlength (List.cons_ne_nil c t)
    refine ⟨?_, fun _ => ?_⟩
    · rw [quoting_append, quoting_append, h.quoting, List.foldl_cons, Quoting.read, if_pos hb]
      exact hread
    · rw [← List.append_assoc]
      refine endsNoWord_of_not_isWordByte ?_
      rw [Bool.or_eq_true, beq_iff_eq, beq_iff_eq] at hb
      rcases hb with rfl | rfl <;> rfl
  dot hlength hs := by
    rcases s with - | ⟨c, - | ⟨d, s⟩⟩
    · exact absurd rfl hs
    · cases hlength
    · rw [stringLength] at hlength
      split at hlength
      · cases hlength
      · split at hlength <;> omega

/-- Text without quotes that no word goes on after is passed over, if no reference starts in it. -/
theorem Resumes.text (h : Resumes f 0 afterDot before (b :: s)) (hb : isWordStart b = true)
    {v r : Bytes} (hs : s = v ++ r) (hv : ∀ c ∈ b :: v, (c == 39 || c == 34) = false)
    (hr : ∀ c ∈ r.head?, isWordByte c = false)
    (hquiet : ∀ u t, v = u ++ t → t ≠ [] → ¬(IsPlace (before ++ b :: u) ∧ IsCall (t ++ r) f)) :
    Resumes f v.length false (before ++ [b]) s where
  quiet u t htext hlength := by
    rw [hs, List.append_eq_append_iff] at htext
    rcases htext with ⟨x, rfl, -⟩ | ⟨x, rfl, rfl⟩
    · rw [List.length_append] at hlength
      omega
    · rw [← List.append_cons]
      refine hquiet u x rfl ?_
      rintro rfl
      simp at hlength
  lands u c t htext hlength := by
    obtain ⟨rfl, rfl⟩ := List.append_inj (hs.symm.trans htext) hlength.symm
    rw [← List.append_cons]
    exact ⟨quoting_append_of_unquoted h.quoting hv, fun hc => by rw [hr c rfl] at hc; cases hc⟩
  dot _ _ := by
    rw [List.getLast?_concat]
    refine iff_of_false Bool.false_ne_true ?_
    rintro ⟨⟩
    cases hb

theorem unquoted_of_isWordByte (h : isWordByte b = true) : (b == 39 || b == 34) = false := by
  rw [Bool.or_eq_false_iff, beq_eq_false_iff_ne, beq_eq_false_iff_ne]
  constructor <;> rintro rfl <;> cases h

/-- No reference starts within a word. -/
theorem not_isPlace_of_prefix {w u : Bytes} (hword : IsWord (b :: w)) (hu : u <+: w) :
    ¬IsPlace (before ++ b :: u) := fun hplace =>
  not_endsNoWord (hword.of_prefix (List.cons_prefix_cons.mpr ⟨rfl, hu⟩) (List.cons_ne_nil b u))
    hplace.fresh

theorem Resumes.word (h : Resumes f 0 afterDot before (b :: s)) (hb : isWordStart b = true) :
    Resumes f (s.takeWhile isWordByte).length false (before ++ [b]) s := by
  have hword := isWord_takeWhile (s := s) hb
  refine h.text hb List.takeWhile_append_dropWhile.symm
    (fun c hc => unquoted_of_isWordByte (hword.isWordByte c hc)) ?_ ?_
  · intro c hc
    have hstop := List.head?_dropWhile_not isWordByte s
    rwa [Option.mem_def.mp hc] at hstop
  · rintro u t htext - ⟨hplace, -⟩
    exact not_isPlace_of_prefix hword ⟨t, htext.symm⟩ hplace

/-- No second reference starts within a call. -/
theorem Resumes.call (h : Resumes f 0 afterDot before (b :: s)) (hb : isWordStart b = true)
    {name : Bytes} (hcalled : calledName? (s.dropWhile isWordByte) = some name) :
    Resumes f ((b :: s.takeWhile isWordByte).length + name.length) false (before ++ [b]) s := by
  have hword := isWord_takeWhile (s := s) hb
  obtain ⟨hname, blanks, rest, hblanks, hrest⟩ := calledName?_eq_some_iff.mp hcalled
  have hs : s = (s.takeWhile isWordByte ++ 58 :: name) ++ (blanks ++ 40 :: rest) := by
    rw [List.append_assoc, List.cons_append, ← hrest, List.takeWhile_append_dropWhile]
  have hlength : (b :: s.takeWhile isWordByte).length + name.length =
      (s.takeWhile isWordByte ++ 58 :: name).length := by
    rw [List.length_append, List.length_cons, List.length_cons]
    omega
  rw [hlength]
  refine h.text hb hs ?_ (not_isWordByte_of_call rest hblanks) ?_
  · intro c hc
    rw [← List.cons_append, List.mem_append, List.mem_cons (a := c) (b := 58)] at hc
    rcases hc with hc | rfl | hc
    · exact unquoted_of_isWordByte (hword.isWordByte c hc)
    · rfl
    · exact unquoted_of_isWordByte (hname.isWordByte c hc)
  · rintro u t htext hne ⟨hplace, hcall⟩
    rcases List.append_eq_append_iff.mp htext with ⟨- | ⟨c, y⟩, rfl, hrun⟩ | ⟨x, hx, -⟩
    · rw [List.append_nil] at hplace
      exact not_isPlace_of_prefix hword List.prefix_rfl hplace
    · obtain ⟨rfl, rfl⟩ := List.cons.inj hrun
      by_cases hy : y = []
      · subst hy
        exact not_isCall_name rest hname hblanks hcall
      · have hplace' := hplace.fresh
        rw [← List.cons_append, ← List.append_assoc, List.append_cons] at hplace'
        exact not_endsNoWord (hname.of_prefix ⟨t, rfl⟩ hy) hplace'
    · exact not_isPlace_of_prefix hword ⟨x, hx.symm⟩ hplace

/-- A byte of its own is passed over. -/
theorem Resumes.byte (h : Resumes f 0 afterDot before (b :: s))
    (hquote : (b == 39 || b == 34) = false) (hb : isWordStart b = false) :
    Resumes f 0 (b == 46) (before ++ [b]) s where
  quiet _ _ _ hlength := absurd hlength (Nat.not_lt_zero _)
  lands u c t htext hlength := by
    obtain rfl := List.eq_nil_of_length_eq_zero hlength
    obtain ⟨-, hfresh⟩ := h.lands [] b s rfl rfl
    rw [List.append_nil] at hfresh ⊢
    refine ⟨quoting_append_of_unquoted h.quoting (by simpa using hquote), fun _ => ?_⟩
    cases hbyte : isWordByte b with
    | true => exact endsNoWord_of_isDigit (hfresh hbyte) (isDigit_of_isWordByte hbyte hb)
    | false => exact endsNoWord_of_not_isWordByte hbyte
  dot _ _ := by simp

/-! ### The scan -/

/-- A word that is not called with a prefix before it is one piece, which is no callee. -/
theorem piecesFrom_word (hb : isWordStart b = true)
    (hnone : calledName? (s.dropWhile isWordByte) = none ∨ afterDot = true) :
    ∃ p, (∀ f, p ≠ .callee f) ∧ piecesFrom 0 afterDot (b :: s) =
      p :: piecesFrom (s.takeWhile isWordByte).length false s := by
  have hquote := unquoted_of_isWordByte (isWordByte_of_isWordStart hb)
  rw [piecesFrom, if_neg (by rw [hquote]; exact Bool.false_ne_true), if_pos hb]
  dsimp only
  split
  · next hcalled =>
    rcases hnone with h | h
    · rw [h] at hcalled
      cases hcalled
    · cases h
  · split
    · exact ⟨_, fun _ => Piece.noConfusion, rfl⟩
    · exact ⟨_, fun _ => Piece.noConfusion, rfl⟩

theorem piecesFrom_call (hb : isWordStart b = true) {name : Bytes}
    (hcalled : calledName? (s.dropWhile isWordByte) = some name) :
    piecesFrom 0 false (b :: s) = .callee ⟨b :: s.takeWhile isWordByte, name, []⟩ ::
      piecesFrom ((b :: s.takeWhile isWordByte).length + name.length) false s := by
  have hquote := unquoted_of_isWordByte (isWordByte_of_isWordStart hb)
  rw [piecesFrom, if_neg (by rw [hquote]; exact Bool.false_ne_true), if_pos hb]
  simp only [hcalled]

/-- The scan finds the references of what is left of a body, and no others. -/
theorem callee_mem_piecesFrom_iff (h : Resumes f skip afterDot before s) :
    .callee f ∈ piecesFrom skip afterDot s ↔ RefersAfter before s f := by
  induction s generalizing skip afterDot before with
  | nil =>
    rw [piecesFrom]
    exact iff_of_false List.not_mem_nil not_refersAfter_nil
  | cons b s ih =>
    rw [refersAfter_cons]
    rcases skip with - | skip
    · cases hb : isWordStart b with
      | true =>
        rw [h.isPlace_iff hb, isCall_cons_iff hb]
        by_cases hnone : calledName? (s.dropWhile isWordByte) = none ∨ afterDot = true
        · obtain ⟨p, hp, heq⟩ := piecesFrom_word hb hnone
          rw [heq, List.mem_cons, or_iff_right (hp f).symm, ih (h.word hb), or_iff_right]
          rintro ⟨hundotted, -, hcalled, -⟩
          rw [hcalled, hundotted] at hnone
          rcases hnone with hnone | hnone <;> cases hnone
        · obtain ⟨hcalled, hundotted⟩ := not_or.mp hnone
          obtain ⟨name, hcalled⟩ := Option.ne_none_iff_exists'.mp hcalled
          obtain rfl := Bool.eq_false_iff.mpr hundotted
          rw [piecesFrom_call hb hcalled, List.mem_cons, ih (h.call hb hcalled), hcalled]
          refine or_congr_left ⟨?_, ?_⟩
          · rintro ⟨⟩
            exact ⟨rfl, rfl, rfl, rfl⟩
          · obtain ⟨library, called, uri⟩ := f
            rintro ⟨-, rfl, ⟨⟩, rfl⟩
            rfl
      | false =>
        have hcall : ¬(IsPlace before ∧ IsCall (b :: s) f) := by
          rintro ⟨-, hcall⟩
          exact Bool.false_ne_true (hb.symm.trans hcall.isWordStart)
        rw [or_iff_right hcall, piecesFrom]
        split
        · next hquote =>
          rw [List.mem_cons, or_iff_right Piece.noConfusion, ih (h.string hquote)]
        · next hquote =>
          rw [if_neg (by rw [hb]; exact Bool.false_ne_true), List.mem_cons,
            or_iff_right Piece.noConfusion, ih (h.byte (Bool.eq_false_iff.mpr hquote) hb)]
    · have hquiet := h.quiet [] (b :: s) rfl (Nat.succ_pos skip)
      rw [List.append_nil] at hquiet
      rw [piecesFrom, ih h.step, or_iff_right hquiet]

end Places

section Body

variable {body id : Bytes} {f g : FunctionRef}

theorem resumes_start (f : FunctionRef) (body : Bytes) : Resumes f 0 false [] body where
  quiet _ _ _ hlength := absurd hlength (Nat.not_lt_zero _)
  lands u b t _ hlength := by
    obtain rfl := List.eq_nil_of_length_eq_zero hlength
    exact ⟨rfl, fun _ c hc => by cases hc⟩
  dot _ _ := by simp

/-- The references that are found in a body are those that it has. -/
theorem mem_references_iff : f ∈ references body ↔ RefersTo body f := by
  rw [RefersTo, ← callee_mem_piecesFrom_iff (resumes_start f body), references, List.mem_filterMap]
  constructor
  · rintro ⟨_ | _ | g, hmem, hg⟩
    · cases hg
    · cases hg
    · obtain rfl := Option.some.inj hg
      exact hmem
  · exact fun hmem => ⟨.callee f, hmem, rfl⟩

theorem RefersTo.uri_eq (h : RefersTo body f) : f.uri = [] := by
  obtain ⟨_, _, _, _, hcall⟩ := h
  exact hcall.unbound

/-- Two references with the same identifier are the same, or one overlaps the other. -/
theorem RefersTo.mangled_eq_iff (hf : RefersTo body f) (hg : RefersTo body g) :
    f.mangled = g.mangled ↔ f = g ∨ f.Overlaps g ∨ g.Overlaps f := by
  rw [FunctionRef.mangled_eq_iff]
  refine or_congr_left ⟨?_, ?_⟩
  · rintro ⟨hlibrary, hname⟩
    have huri : f.uri = g.uri := hf.uri_eq.trans hg.uri_eq.symm
    cases f
    cases g
    congr
  · rintro rfl
    exact ⟨rfl, rfl⟩

/-- An identifier stands for the last reference that is written so. -/
theorem resolve?_eq_some_iff :
    resolve? body id = some f ↔ f.mangled = id ∧
      ∃ l r, references body = l ++ f :: r ∧ ∀ g ∈ r, g.mangled ≠ id := by
  rw [resolve?, List.find?_eq_some_iff_append, beq_iff_eq]
  refine and_congr_right fun _ => ⟨?_, ?_⟩
  · rintro ⟨l, r, hrefs, hl⟩
    refine ⟨r.reverse, l.reverse, ?_, fun g hg => ?_⟩
    · rw [← List.reverse_reverse (references body), hrefs]
      simp
    · simpa using hl g (List.mem_reverse.mp hg)
  · rintro ⟨l, r, hrefs, hr⟩
    refine ⟨r.reverse, l.reverse, ?_, fun g hg => ?_⟩
    · rw [hrefs]
      simp
    · simpa using hr g (List.mem_reverse.mp hg)

theorem resolve?_eq_some (h : resolve? body id = some f) : f.mangled = id ∧ RefersTo body f := by
  obtain ⟨hid, l, r, hrefs, -⟩ := resolve?_eq_some_iff.mp h
  refine ⟨hid, mem_references_iff.mp ?_⟩
  rw [hrefs]
  exact List.mem_append_right l List.mem_cons_self

/-- The identifier of a reference stands for one, which may be another with that identifier. -/
theorem exists_resolve?_mangled (h : RefersTo body f) :
    ∃ g, resolve? body f.mangled = some g := by
  rw [← Option.isSome_iff_exists, resolve?, List.find?_isSome]
  exact ⟨f, List.mem_reverse.mpr (mem_references_iff.mpr h), beq_self_eq_true _⟩

/-- No two references of the body overlap. -/
def IsUnambiguous (body : Bytes) : Prop :=
  ∀ f g, RefersTo body f → RefersTo body g → ¬f.Overlaps g

theorem IsUnambiguous.eq_of_mangled_eq (h : IsUnambiguous body) (hf : RefersTo body f)
    (hg : RefersTo body g) (heq : f.mangled = g.mangled) : f = g := by
  rcases (hf.mangled_eq_iff hg).mp heq with heq | hover | hover
  · exact heq
  · exact absurd hover (h f g hf hg)
  · exact absurd hover (h g f hg hf)

theorem IsUnambiguous.resolve?_mangled (h : IsUnambiguous body) (hf : RefersTo body f) :
    resolve? body f.mangled = some f := by
  obtain ⟨g, hg⟩ := exists_resolve?_mangled hf
  obtain ⟨heq, hrefers⟩ := resolve?_eq_some hg
  rw [hg, h.eq_of_mangled_eq hrefers hf heq]

/-- Prefixes without underscores are not ambiguous. -/
theorem isUnambiguous_of_library (h : ∀ f, RefersTo body f → 95 ∉ f.library) :
    IsUnambiguous body := fun _ g _ hg hover => h g hg hover.mem_library

theorem isUnambiguous_iff :
    IsUnambiguous body ↔ ∀ f, RefersTo body f → ∃! id, resolve? body id = some f := by
  constructor
  · intro h f hf
    exact ⟨f.mangled, h.resolve?_mangled hf, fun id hid => (resolve?_eq_some hid).1.symm⟩
  · intro h f g hf hg hover
    obtain ⟨id, hid, -⟩ := h f hf
    obtain ⟨id', hid', -⟩ := h g hg
    have hsame : id = id' := (resolve?_eq_some hid).1.symm.trans
      (hover.mangled_eq.trans (resolve?_eq_some hid').1)
    rw [hsame, hid'] at hid
    obtain rfl := Option.some.inj hid
    exact hover.ne rfl

/-- The calls that are reported are those of identifiers that stand for a function. -/
theorem map_mangled_filterMap (calls : List Bytes) :
    (calls.filterMap (resolve? body)).map FunctionRef.mangled =
      calls.filter fun id => (resolve? body id).isSome := by
  induction calls with
  | nil => rfl
  | cons id calls ih =>
    cases h : resolve? body id with
    | none => simpa [List.filterMap_cons, h] using ih
    | some f => simpa [List.filterMap_cons, h, (resolve?_eq_some h).1] using ih

theorem IsUnambiguous.count_filterMap (h : IsUnambiguous body) (hf : RefersTo body f)
    (calls : List Bytes) :
    (calls.filterMap (resolve? body)).count f = calls.count f.mangled := by
  rw [List.count_filterMap, List.count]
  refine List.countP_congr fun id _ => ?_
  rw [beq_iff_eq, beq_iff_eq]
  refine ⟨fun hid => (resolve?_eq_some hid).1.symm, ?_⟩
  rintro rfl
  exact h.resolve?_mangled hf

/-- **References survive translation if none overlap.** The identifiers that stand for a function
are those of the references of the body, and each stands for a reference written so. Every reference
has exactly one identifier that stands for it if and only if no two references overlap, which are
the different ones that are written alike. Then the reported calls of a function are all calls of
its identifier; in any case none is reported but what its identifier stands for. -/
theorem references_unique_iff (body : Bytes) :
    (∀ id, (∃ f, resolve? body id = some f) ↔ ∃ f, RefersTo body f ∧ f.mangled = id) ∧
    (∀ id f, resolve? body id = some f → f.mangled = id ∧ RefersTo body f) ∧
    (∀ f g, RefersTo body f → RefersTo body g →
      (f.mangled = g.mangled ↔ f = g ∨ f.Overlaps g ∨ g.Overlaps f)) ∧
    (IsUnambiguous body ↔ ∀ f, RefersTo body f → ∃! id, resolve? body id = some f) ∧
    ∀ fs, check body = .ok fs → ∃ calls, calls? (render body) = some calls ∧
      fs.map FunctionRef.mangled = (calls.filter fun id => (resolve? body id).isSome) ∧
      (∀ f ∈ fs, resolve? body f.mangled = some f) ∧
      (IsUnambiguous body → ∀ f, RefersTo body f → fs.count f = calls.count f.mangled) := by
  refine ⟨fun id => ⟨?_, ?_⟩, fun _ _ => resolve?_eq_some, fun _ _ => RefersTo.mangled_eq_iff,
    isUnambiguous_iff, fun fs hcheck => ?_⟩
  · rintro ⟨f, hf⟩
    exact ⟨f, (resolve?_eq_some hf).2, (resolve?_eq_some hf).1⟩
  · rintro ⟨f, hf, rfl⟩
    exact exists_resolve?_mangled hf
  · rw [check] at hcheck
    split at hcheck
    · cases hcheck
    · split at hcheck
      · cases hcheck
      · next calls hcalls =>
        obtain rfl := Except.ok.inj hcheck
        refine ⟨calls, hcalls, map_mangled_filterMap calls, fun f hf => ?_,
          fun hsafe f hf => hsafe.count_filterMap hf calls⟩
        obtain ⟨id, -, hid⟩ := List.mem_filterMap.mp hf
        rwa [(resolve?_eq_some hid).1]

/-- Two functions are called here; what stands in the string is no reference. -/
theorem references_unique_iff_nestedCalls :
    let body : Bytes := "fn:trim(fn:join(x, 'fn:b(1)')) ne y.eq"
    let trim : FunctionRef := { library := "fn", name := "trim" }
    let join : FunctionRef := { library := "fn", name := "join" }
    (∃ f, RefersTo body f ∧ f.mangled = "fn__trim") ∧ RefersTo body join ∧ ¬trim.Overlaps join ∧
      (∃! id, resolve? body id = some join) ∧ check body = .ok [join, trim] ∧
      ∃ calls, calls? (render body) = some calls ∧ calls.count join.mangled = 1 := by
  intro body trim join
  obtain ⟨hstands, hwritten, halike, hunique, hcheck⟩ := references_unique_iff body
  have hplain : ∀ f ∈ references body, 95 ∉ f.library := by decide +kernel
  have hsafe : IsUnambiguous body :=
    isUnambiguous_of_library fun f hf => hplain f (mem_references_iff.mpr hf)
  have htrim : RefersTo body trim := (hwritten "fn__trim" trim (by decide +kernel)).2
  have hjoin : RefersTo body join := (hwritten "fn__join" join (by decide +kernel)).2
  have hchecked : check body = .ok [join, trim] := rfl
  have hapart : trim.mangled ≠ join.mangled := by decide +kernel
  obtain ⟨calls, hcalls, -, -, hcount⟩ := hcheck [join, trim] hchecked
  refine ⟨(hstands "fn__trim").mp ⟨trim, by decide +kernel⟩, hjoin, fun hover => ?_,
    hunique.mp hsafe join hjoin, hchecked, calls, hcalls, ?_⟩
  · exact hapart ((halike trim join htrim hjoin).mpr (.inr (.inl hover)))
  · exact (hcount hsafe join hjoin).symm.trans (by decide +kernel)

/-- Of two references that overlap the last one is reported for the calls of both. -/
example : check "a:b__c(1) + a__b:c(2)" =
    .ok [{ library := "a__b", name := "c" }, { library := "a__b", name := "c" }] := rfl

end Body

end ServerPages.Expression
