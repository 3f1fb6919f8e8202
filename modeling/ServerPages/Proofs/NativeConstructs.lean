import ServerPages.Proofs.CoreParts
import ServerPages.Proofs.TemplateText

/-!
# Native constructs

How the parser of the native syntax reads each construct of a core page: a directive that binds a
library, a piece of template text, an expression, code and a tag. Every lemma runs the parser from a
state in which the construct stands at the cursor (`Reading`) to one in which it has been passed.

## Main results

* `quotes_nativeQuoted`: the uri of a library is read as it was written.
* `Native.element_directive`: a taglib directive binds its library.
* `Native.element_text`, `Native.element_expression`, `Native.element_code`: text, expressions and
  code are nodes that say what was written.
* `Native.yields_customTag`: a tag says what its attributes and its content say.
-/

namespace ServerPages

namespace Taglib

/-- The prefix with its library as a directive binds it. -/
def bound (b : Taglib) : Bytes × Parsing.Binding := (b.prefixName.letters, ⟨b.uri, b.library⟩)

end Taglib

namespace Parsing

variable {σ : Type}

/-! ### Passing text -/

theorem State.passing_nil (s : State σ) : s.passing [] = s := by
  simp [State.passing, Cursor.pass, Place.advance, LineCol.advance]

theorem skipBlanks_of_head {s : State σ} {b : UInt8} {r : Bytes} (hs : s.cursor.rest = b :: r)
    (hb : Bytes.isBlankByte b = false) : skipBlanks s = .ok () s := by
  have hblanks : s.cursor.blanks = [] := by
    rw [Cursor.blanks, hs, List.takeWhile_cons_of_neg (by rw [hb]; exact Bool.false_ne_true)]
  show EStateM.Result.ok () (s.passing s.cursor.blanks) = _
  rw [hblanks, State.passing_nil]

theorem State.cursor_skip {s : State σ} {v r : Bytes} (hs : s.cursor.rest = v ++ r) :
    s.cursor.skip v.length = (s.passing v).cursor := by
  rw [Cursor.skip, hs, List.take_left]
  rfl

/-! ### The state of a native parse -/

/-- The source is read up to `r`, with the libraries `bound` and the expression language on. -/
structure Reading (bound : List Taglib) (r : Bytes) (s : State σ) : Prop where
  rest : s.cursor.rest = r
  sound : s.cursor.IsSound
  bindings : s.bindings = bound.map Taglib.bound
  elOn : s.elIgnored = false

namespace Reading

variable {bound : List Taglib} {r : Bytes} {s : State σ}

theorem passing {v : Bytes} (h : Reading bound (v ++ r) s) :
    Reading bound r (s.passing v) where
  rest := State.rest_passing h.rest
  sound := h.sound.pass (by rw [h.rest, List.length_append]; exact Nat.le_add_right _ _)
  bindings := h.bindings
  elOn := h.elOn

theorem sees (h : Reading bound r s) (v : Bytes) : s.cursor.sees v = r.startsWith v := by
  rw [Cursor.sees, h.rest]

theorem not_atEnd (h : Reading bound r s) (hr : r ≠ []) : s.cursor.atEnd = false := by
  rw [Bool.eq_false_iff]
  intro hend
  exact hr (h.rest ▸ h.sound.atEnd_iff.mp hend)

theorem accepts {v : Bytes} (h : Reading bound (v ++ r) s) :
    Yields (Parsing.accepts v) s fun b t => b = true ∧ Reading bound r t := by
  refine ⟨true, s.passing v, ?_, rfl, h.passing⟩
  rw [accepts_eq, h.sees, Bytes.startsWith_append]
  rfl

theorem not_accepts {v : Bytes} (h : Reading bound r s) (hno : r.startsWith v = false) :
    Parsing.accepts v s = .ok false s := by
  rw [accepts_eq, h.sees, hno]
  rfl

theorem skip {v : Bytes} (h : Reading bound (v ++ r) s) :
    s.cursor.skip v.length = s.cursor.pass v := State.cursor_skip h.rest

/-- Moving over a text that stands at the cursor. -/
theorem moveTo {v : Bytes} (h : Reading bound (v ++ r) s) :
    Yields (Parsing.moveTo (s.cursor.skip v.length)) s fun _ t => Reading bound r t := by
  rw [h.skip]
  exact ⟨(), s.passing v, rfl, h.passing⟩

theorem skipBlanks {w : Bytes} (h : Reading bound (w ++ r) s)
    (hb : ∀ b ∈ w, Bytes.isBlankByte b = true)
    (hr : ∀ b ∈ r.head?, Bytes.isBlankByte b = false) :
    Yields Parsing.skipBlanks s fun _ t => Reading bound r t := by
  have hblanks : s.cursor.blanks = w := by
    rw [Cursor.blanks, h.rest, Bytes.takeWhile_append_stop hb hr]
  exact ⟨(), s.passing s.cursor.blanks, rfl, by rw [hblanks]; exact h.passing⟩

theorem readName {name : Bytes} (h : Reading bound (name ++ r) s)
    (hn : ∀ b ∈ name, Cursor.isNameByte b = true)
    (hr : ∀ b ∈ r.head?, Cursor.isNameByte b = false) :
    Yields Parsing.readName s fun n t => n = name ∧ Reading bound r t := by
  have hname : Cursor.nameOf s.cursor.rest = name := by
    rw [Cursor.nameOf, h.rest, Bytes.takeWhile_append_stop hn hr]
  exact ⟨_, s.passing (Cursor.nameOf s.cursor.rest), rfl, hname, by rw [hname]; exact h.passing⟩

end Reading

/-! ### Quoted values -/

/-- The text `v` between quotes is read as `u`. -/
structure Quotes (v u : Bytes) : Prop where
  ends : ∀ r, Cursor.indexOfUnescaped? [34] 92 false (v ++ 34 :: r) = some v.length
  notCode : ∀ r, Bytes.startsWith (v ++ 34 :: r) "<%=" = false
  reads : unquote v = u

/-- The escapes of quoted values. -/
def escapes : List (Bytes × Bytes) :=
  [("\\\\", "\\"), ("\\\"", "\""), ("\\'", "'"), ("<\\%", "<%"), ("%\\>", "%>"),
    ("&apos;", "'"), ("&quot;", "\"")]

theorem unquote_eq (v : Bytes) : unquote v = v.substitute escapes := rfl

theorem unquote_eq_self {v : Bytes} (h : v.Lacks "\\&") : unquote v = v := by
  have hescapes : ∀ r ∈ escapes, ∃ b ∈ r.1, b ∈ Bytes.ofString "\\&" := by decide
  rw [unquote_eq, Bytes.substitute]
  induction v with
  | nil => rfl
  | cons b v ih =>
    have hno : Bytes.matchingRule? escapes (b :: v) = none := by
      rw [Bytes.matchingRule?, List.find?_eq_none]
      intro r hr hprefix
      obtain ⟨c, hc, hbad⟩ := hescapes r hr
      exact h c hbad ((List.isPrefixOf_iff_prefix.mp hprefix).subset hc)
    rw [Bytes.substituteFrom, hno]
    exact congrArg (b :: ·) (ih h.tail)

/-- Text without quotes, escapes and code is read as it is. -/
theorem quotes_plain {v : Bytes} (h : v.Lacks "\"\\<&") : Quotes v v where
  ends := by
    intro r
    induction v with
    | nil => simp [Cursor.indexOfUnescaped?]
    | cons b v ih =>
      have h34 : (34 == b) = false := beq_eq_false_iff_ne.mpr (h.head (by decide)).symm
      have h92 : (b == 92) = false := beq_eq_false_iff_ne.mpr (h.head (by decide))
      rw [List.cons_append, Cursor.indexOfUnescaped?]
      simp only [Bool.not_false, Bool.true_and, List.isPrefixOf, h34, h92, Bool.false_and,
        Bool.false_eq_true, if_false]
      rw [ih h.tail]
      rfl
  notCode := by
    intro r
    rcases v with - | ⟨b, v⟩
    · rfl
    · have hb : (60 == b) = false := beq_eq_false_iff_ne.mpr (h.head (by decide)).symm
      show (60 == b && _) = false
      rw [hb, Bool.false_and]
  reads := unquote_eq_self (h.mono (by decide))

theorem quotes_source (i : CoreInline) : Quotes i.source i.source := by
  apply quotes_plain
  cases i with
  | text t => exact t.plain.mono (by decide)
  | expression e =>
    rw [CoreInline.source, e.source_eq]
    intro b hb hmem
    have hbody : b ∉ e.body := e.plain.mono (by decide) b hb
    have hmark : ∀ b ∈ Bytes.ofString "\"\\<&", b ≠ 36 ∧ b ≠ 35 ∧ b ≠ 123 ∧ b ≠ 125 := by decide
    obtain ⟨h36, h35, h123, h125⟩ := hmark b hb
    rcases e.mark_cases with h | h <;> simp_all

theorem quotes_word (w : Word) : Quotes w.letters w.letters := by
  apply quotes_plain
  intro b hb
  have hno : ∀ b ∈ Bytes.ofString "\"\\<&", Bytes.isAlpha b = false := by decide
  exact w.not_mem (hno b hb)

/-- Bytes that are never escaped stand before a quoted text only if they stand before the text. -/
theorem prefix_of_prefix_nativeQuoted {lit u : Bytes} (hlit : lit.Lacks "<\\")
    (h : lit <+: nativeQuoted u) : lit <+: u := by
  induction lit generalizing u with
  | nil => exact List.nil_prefix
  | cons b lit ih =>
    have h60 : b ≠ 60 := hlit.head (by decide)
    have h92 : b ≠ 92 := hlit.head (by decide)
    unfold nativeQuoted at h
    split at h
    · cases List.prefix_nil.mp h
    · exact absurd (List.cons_prefix_cons.mp h).1 h60
    · next c s _ =>
        split at h
        · exact absurd (List.cons_prefix_cons.mp h).1 h92
        · obtain ⟨rfl, hrest⟩ := List.cons_prefix_cons.mp h
          exact List.cons_prefix_cons.mpr ⟨rfl, ih hlit.tail hrest⟩

/-- After a backslash in a quoted text stands one of the bytes it escapes. -/
theorem nativeQuoted_cons {u s : Bytes} {b : UInt8} (h : nativeQuoted u = 92 :: b :: s) :
    b = 92 ∨ b = 34 := by
  unfold nativeQuoted at h
  split at h
  · cases h
  · cases (List.cons.inj h).1
  · next c t _ =>
      split at h
      · next hc =>
          obtain ⟨rfl, -⟩ := List.cons.inj (List.cons.inj h).2
          simpa using hc
      · next hc =>
          rw [(List.cons.inj h).1] at hc
          exact absurd rfl hc

/-- A byte that is no backslash starts no escape, the references apart, if after it a backslash
escapes a backslash or a quote only. -/
theorem matchingRule?_eq_none {c : UInt8} {x : Bytes} (hc : c ≠ 92)
    (hback : ∀ d, d ≠ 92 → d ≠ 34 → d ≠ 39 → ¬[92, d] <+: x)
    (hapos : ¬Bytes.ofString "&apos;" <+: c :: x) (hquot : ¬Bytes.ofString "&quot;" <+: c :: x) :
    Bytes.matchingRule? escapes (c :: x) = none := by
  rw [Bytes.matchingRule?, List.find?_eq_none]
  intro r hr
  rw [List.isPrefixOf_iff_prefix]
  have hcases : r.1 = [92, 92] ∨ r.1 = [92, 34] ∨ r.1 = [92, 39] ∨ r.1 = [60, 92, 37] ∨
      r.1 = [37, 92, 62] ∨ r.1 = Bytes.ofString "&apos;" ∨ r.1 = Bytes.ofString "&quot;" := by
    have hall : ∀ r ∈ escapes, r.1 = [92, 92] ∨ r.1 = [92, 34] ∨ r.1 = [92, 39] ∨
        r.1 = [60, 92, 37] ∨ r.1 = [37, 92, 62] ∨ r.1 = Bytes.ofString "&apos;" ∨
        r.1 = Bytes.ofString "&quot;" := by decide
    exact hall r hr
  rcases hcases with h | h | h | h | h | h | h <;> rw [h]
  · exact fun hp => hc (List.cons_prefix_cons.mp hp).1.symm
  · exact fun hp => hc (List.cons_prefix_cons.mp hp).1.symm
  · exact fun hp => hc (List.cons_prefix_cons.mp hp).1.symm
  · exact fun hp => hback 37 (by decide) (by decide) (by decide) (List.cons_prefix_cons.mp hp).2
  · exact fun hp => hback 62 (by decide) (by decide) (by decide) (List.cons_prefix_cons.mp hp).2
  · exact hapos
  · exact hquot

/-- A byte that is not escaped starts no escape, the references apart. -/
theorem matchingRule?_nativeQuoted {c : UInt8} {u : Bytes} (hc : c ≠ 92)
    (hapos : ¬ Bytes.ofString "&apos;" <+: c :: u) (hquot : ¬ Bytes.ofString "&quot;" <+: c :: u) :
    Bytes.matchingRule? escapes (c :: nativeQuoted u) = none := by
  have href : ∀ {lit : Bytes}, lit.Lacks "<\\" → ¬ 38 :: lit <+: c :: u →
      ¬ 38 :: lit <+: c :: nativeQuoted u := by
    intro lit hlit hno hprefix
    obtain ⟨rfl, hrest⟩ := List.cons_prefix_cons.mp hprefix
    exact hno (List.cons_prefix_cons.mpr ⟨rfl, prefix_of_prefix_nativeQuoted hlit hrest⟩)
  refine matchingRule?_eq_none hc ?_ (href (by decide) hapos) (href (by decide) hquot)
  rintro d h92 h34 - ⟨t, ht⟩
  exact (nativeQuoted_cons ht.symm).elim h92 h34

/-- A text that is quoted is read as it was, if it holds no reference to a quote. -/
theorem unquote_nativeQuoted {u : Bytes} (hapos : ¬ Bytes.ofString "&apos;" <:+: u)
    (hquot : ¬ Bytes.ofString "&quot;" <:+: u) : unquote (nativeQuoted u) = u := by
  rw [unquote_eq, Bytes.substitute]
  have htail : ∀ {lit s : Bytes} {c : UInt8}, ¬ lit <:+: c :: s → ¬ lit <:+: s :=
    fun h hs => h (hs.trans (List.suffix_cons _ _).isInfix)
  induction u using nativeQuoted.induct with
  | case1 => rfl
  | case2 s ih =>
    rw [nativeQuoted]
    have hmatch : Bytes.matchingRule? escapes (60 :: 92 :: 37 :: nativeQuoted s) =
        some (Bytes.ofString "<\\%", Bytes.ofString "<%") := rfl
    show Bytes.substituteFrom escapes 0 (60 :: 92 :: 37 :: nativeQuoted s) = _
    rw [Bytes.substituteFrom, hmatch]
    show Bytes.ofString "<%" ++ Bytes.substituteFrom escapes 0 (nativeQuoted s) = _
    rw [ih (htail (htail hapos)) (htail (htail hquot))]
    rfl
  | case3 c s hno hc ih =>
    have hmatch :
        Bytes.matchingRule? escapes (92 :: c :: nativeQuoted s) = some ([92, c], [c]) := by
      have hc' : c = 92 ∨ c = 34 := by simpa using hc
      rcases hc' with rfl | rfl <;> rfl
    rw [nativeQuoted.eq_3 c s hno, if_pos hc, Bytes.substituteFrom, hmatch]
    show [c] ++ Bytes.substituteFrom escapes 0 (nativeQuoted s) = _
    rw [ih (htail hapos) (htail hquot)]
    rfl
  | case4 c s hno hc ih =>
    have hc' : c ≠ 92 := by
      rintro rfl
      exact hc rfl
    rw [nativeQuoted.eq_3 c s hno, if_neg hc, Bytes.substituteFrom,
      matchingRule?_nativeQuoted hc' (fun h => hapos h.isInfix) fun h => hquot h.isInfix]
    exact congrArg (c :: ·) (ih (htail hapos) (htail hquot))

theorem quotes_nativeQuoted {u : Bytes} (hapos : ¬ Bytes.ofString "&apos;" <:+: u)
    (hquot : ¬ Bytes.ofString "&quot;" <:+: u) : Quotes (nativeQuoted u) u where
  ends := by
    intro r
    clear hapos hquot
    induction u using nativeQuoted.induct with
    | case1 => simp [nativeQuoted, Cursor.indexOfUnescaped?]
    | case2 s ih =>
      rw [nativeQuoted]
      show Cursor.indexOfUnescaped? [34] 92 false
          (60 :: 92 :: 37 :: (nativeQuoted s ++ 34 :: r)) =
        some (nativeQuoted s).length.succ.succ.succ
      simp [Cursor.indexOfUnescaped?, List.isPrefixOf, ih]
    | case3 c s hno hc ih =>
      rw [nativeQuoted.eq_3 c s hno, if_pos hc]
      simp [Cursor.indexOfUnescaped?, List.isPrefixOf, ih]
    | case4 c s hno hc ih =>
      have hne : (34 == c) = false ∧ (c == 92) = false := by
        constructor <;> rw [beq_eq_false_iff_ne] <;> rintro rfl <;> exact hc rfl
      rw [nativeQuoted.eq_3 c s hno, if_neg hc]
      simp [Cursor.indexOfUnescaped?, List.isPrefixOf, hne, ih]
  notCode := by
    intro r
    have hcode : Bytes.ofString "<%=" = [60, 37, 61] := rfl
    rw [Bool.eq_false_iff, ne_eq, Bytes.startsWith_iff, hcode]
    intro hp
    unfold nativeQuoted at hp
    split at hp
    · cases (List.cons_prefix_cons.mp hp).1
    · cases (List.cons_prefix_cons.mp (List.cons_prefix_cons.mp hp).2).1
    · next c s hno =>
        split at hp
        · cases (List.cons_prefix_cons.mp hp).1
        · obtain ⟨rfl, hnext⟩ := List.cons_prefix_cons.mp hp
          -- the byte after `<` is not `%`, which would have been escaped
          rcases hs : nativeQuoted s with - | ⟨d, t⟩
          · rw [List.append_eq, hs] at hnext
            cases (List.cons_prefix_cons.mp hnext).1
          · rw [List.append_eq, hs] at hnext
            have hfirst : [37] <+: nativeQuoted s := by
              rw [hs, ← (List.cons_prefix_cons.mp hnext).1]
              exact ⟨t, rfl⟩
            obtain ⟨u, rfl⟩ := prefix_of_prefix_nativeQuoted (by decide) hfirst
            exact hno u rfl rfl
  reads := unquote_nativeQuoted hapos hquot

/-! ### Attributes -/

namespace Native

variable {bound : List Taglib} {r : Bytes} {s : State σ}

/-- The text between a cursor and one that is some text further. -/
theorem between_pass {c : Cursor} {v t : Bytes} (h : c.rest = v ++ t) :
    between c (c.pass v) = v := by
  have hoffset : (c.pass v).place.offset - c.place.offset = v.length := Nat.add_sub_cancel_left _ _
  rw [between, hoffset, h, List.take_left]

/-- A value between quotes is read up to the quote that ends it. -/
theorem attributeValue_run (name : Bytes) (p : Position) {q : UInt8} (hq : q = 34 ∨ q = 39)
    {v r : Bytes} {s : State σ} (hs : s.cursor.rest = 61 :: q :: (v ++ q :: r))
    (hends : Cursor.indexOfUnescaped? [q] 92 false (v ++ q :: r) = some v.length)
    (hcode : Bytes.startsWith (v ++ q :: r) "<%=" = false) :
    attributeValue name p s =
      .ok (unquote v, false) ((((s.passing [61]).passing [q]).passing v).passing [q]) := by
  have hquote : Bytes.isBlankByte q = false ∧ (q != 34 && q != 39) = false := by
    rcases hq with rfl | rfl <;> decide
  have hs₁ : (s.passing [61]).cursor.rest = q :: (v ++ q :: r) := State.rest_passing (v := [61]) hs
  have hs₂ : ((s.passing [61]).passing [q]).cursor.rest = v ++ q :: r :=
    State.rest_passing (v := [q]) hs₁
  have hs₃ : (((s.passing [61]).passing [q]).passing v).cursor.rest = q :: r :=
    State.rest_passing hs₂
  have haccepts : accepts "=" s = .ok true (s.passing [61]) := by
    rw [accepts_eq, Cursor.sees, hs]
    rfl
  have hskip : (s.passing [61]).cursor.skip 1 = ((s.passing [61]).passing [q]).cursor :=
    State.cursor_skip (v := [q]) hs₁
  have hplain : ((s.passing [61]).passing [q]).cursor.accept? "<%=" = none := by
    rw [Cursor.accept?, Cursor.sees, hs₂, hcode]
    rfl
  have hend : ((s.passing [61]).passing [q]).cursor.seekUnescaped? [q] 92 =
      some ((((s.passing [61]).passing [q]).passing v).cursor,
        ((((s.passing [61]).passing [q]).passing v).passing [q]).cursor) := by
    rw [Cursor.seekUnescaped?, hs₂, hends, ← State.cursor_skip (v := [q]) hs₃,
      ← State.cursor_skip hs₂]
    rfl
  have hvalue : between ((s.passing [61]).passing [q]).cursor
      (((s.passing [61]).passing [q]).passing v).cursor = v := between_pass hs₂
  refine (bind_ok (skipBlanks_of_head hs (by decide))).trans ((bind_ok haccepts).trans ?_)
  have hcursor : cursor (s.passing [61]) = .ok (s.passing [61]).cursor (s.passing [61]) := rfl
  refine (bind_ok (skipBlanks_of_head hs₁ hquote.1)).trans ((bind_ok hcursor).trans ?_)
  rw [hs₁]
  simp only [hquote.2, hskip, hplain, hend]
  rw [← congrArg unquote hvalue]
  rfl

theorem yields_attributeValue (name : Bytes) (p : Position) {v u : Bytes} (hq : Quotes v u)
    (hs : Reading bound (61 :: 34 :: (v ++ 34 :: r)) s) :
    Yields (attributeValue name p) s fun a t => a = (u, false) ∧ Reading bound r t := by
  have hrun := attributeValue_run name p (.inl rfl) hs.rest (hq.ends r) (hq.notCode r)
  have hstart : Reading bound (v ++ 34 :: r) ((s.passing [61]).passing [34]) :=
    Reading.passing (v := [34]) (hs.passing (v := [61]))
  exact ⟨_, _, hrun, by rw [hq.reads], hstart.passing.passing (v := [34])⟩

/-- The name of an attribute before its equals sign. -/
theorem yields_attributeName (place : Bytes) (w : Word)
    (hs : Reading bound (w.letters ++ 61 :: r) s) :
    Yields (attributeName place) s fun a t => a.2 = w.letters ∧ Reading bound (61 :: r) t := by
  rw [attributeName]
  refine Yields.after rfl ?_
  refine (hs.readName (fun b hb => (w.isNameByte hb).1) (by simp; decide)).bind ?_
  rintro name t ⟨rfl, ht⟩
  rw [if_neg (by simpa using w.nonempty)]
  exact Yields.pure ⟨rfl, ht⟩

/-- The attributes of a tag are read one by one up to the end of its start tag. -/
theorem yields_attributesWithin {as : List (Word × CoreInline)} {h : Head}
    (hk : h.kind = .customTag)
    (hd : (h.attributes.map (·.name) ++ as.map (·.1.letters)).Nodup) (closed : Bool)
    (hs : Reading bound (as.flatMap writtenAttribute ++ (tagEnd closed ++ r)) s) {fuel : Nat}
    (hfuel : as.length < fuel) :
    Yields (attributesWithin false fuel h) s fun a t =>
      a.2 = closed ∧ Gains h as a.1 ∧ Reading bound r t := by
  induction as generalizing h s fuel with
  | nil =>
    obtain ⟨fuel, rfl⟩ := Nat.exists_eq_add_one_of_ne_zero (Nat.ne_of_gt hfuel)
    rw [attributesWithin]
    cases closed with
    | true =>
      refine (hs.skipBlanks (w := []) (by simp) (by rintro _ ⟨⟩; rfl)).bind ?_
      intro _ t ht
      refine (ht.accepts (v := "/>")).bind ?_
      rintro _ u ⟨rfl, hu⟩
      exact Yields.pure ⟨rfl, Gains.refl h, hu⟩
    | false =>
      refine (hs.skipBlanks (w := []) (by simp) (by rintro _ ⟨⟩; rfl)).bind ?_
      intro _ t ht
      refine Yields.after (ht.not_accepts (v := "/>") rfl) ?_
      rw [if_neg Bool.false_ne_true]
      refine (ht.accepts (v := ">")).bind ?_
      rintro _ u ⟨rfl, hu⟩
      exact Yields.pure ⟨rfl, Gains.refl h, hu⟩
  | cons a as ih =>
    obtain ⟨fuel, rfl⟩ := Nat.exists_eq_add_one_of_ne_zero (Nat.ne_zero_of_lt hfuel)
    obtain ⟨b, w, hw, hb⟩ := a.1.exists_cons
    have hs' : Reading bound ([32] ++ (a.1.letters ++ 61 :: 34 :: (a.2.source ++ 34 ::
        (as.flatMap writtenAttribute ++ (tagEnd closed ++ r))))) s := by
      simp only [List.flatMap_cons, writtenAttribute, List.append_assoc] at hs
      exact hs
    -- the name starts with a letter, so neither a blank nor the end of the tag stands there
    have hfirst : ∀ x, a.1.letters ++ x = b :: (w ++ x) := fun x => by rw [hw]; rfl
    have hclosed : b ≠ 47 ∧ b ≠ 62 := ⟨Bytes.ne_of_isAlpha hb rfl, Bytes.ne_of_isAlpha hb rfl⟩
    have hnew : a.1.letters ∉ h.attributes.map (·.name) := by
      rw [List.map_cons, List.nodup_append] at hd
      exact fun hmem => hd.2.2 _ hmem _ List.mem_cons_self rfl
    rw [attributesWithin]
    refine (hs'.skipBlanks (by simp [Bytes.isBlankByte])
      (by rw [hfirst]; rintro _ ⟨⟩; exact Bytes.isBlankByte_of_isAlpha hb)).bind ?_
    intro _ t ht
    refine Yields.after (ht.not_accepts (v := "/>") ?_) ?_
    · rw [hfirst]
      show (47 == b && _) = false
      rw [beq_eq_false_iff_ne.mpr hclosed.1.symm, Bool.false_and]
    rw [if_neg Bool.false_ne_true]
    refine Yields.after (ht.not_accepts (v := ">") ?_) ?_
    · rw [hfirst]
      show (62 == b && _) = false
      rw [beq_eq_false_iff_ne.mpr hclosed.2.symm, Bool.false_and]
    rw [if_neg Bool.false_ne_true]
    refine Yields.after rfl ?_
    rw [ht.not_atEnd (by rw [hfirst]; exact List.cons_ne_nil _ _), if_neg Bool.false_ne_true]
    refine (yields_attributeName _ a.1 ht).bind ?_
    rintro ⟨p, name⟩ t ⟨rfl, ht⟩
    refine (yields_attributeValue _ p (quotes_source a.2) ht).bind ?_
    rintro _ t ⟨rfl, ht⟩
    refine Yields.after rfl ?_
    refine (addAttribute_core _ _ hk a hnew p ht.elOn).bind ?_
    rintro h' _ ⟨rfl, hgain⟩
    refine (ih (hgain.kind.trans hk) ?_ ht (Nat.lt_of_succ_lt_succ hfuel)).mono ?_
    · rw [hgain.names, List.append_assoc]
      exact hd
    · rintro ⟨h'', closed'⟩ u ⟨hclosed, hgains, hu⟩
      exact ⟨hclosed, hgain.trans hgains, hu⟩

/-! ### Taglib directives -/

/-- An attribute of a directive as it is written: its name and its value between quotes. -/
def writtenPair (a : Word × Bytes) : Bytes := " " ++ a.1.letters ++ "=\"" ++ a.2 ++ "\""

/-- The names and values of attributes. -/
def pairs (h : Head) : List (Bytes × Bytes) := h.attributes.map fun a => (a.name, a.value)

theorem addAttribute_directive (functionUri : Bytes → Bytes) {h : Head}
    (hk : h.kind.isDirective = true) (w : Word) (raw : Bytes)
    (hnew : w.letters ∉ (pairs h).map (·.1)) (p : Position) (s : State σ) :
    Yields (addAttribute functionUri none h w.letters raw false p false) s fun h' t =>
      t = s ∧ h'.kind = h.kind ∧ pairs h' = pairs h ++ [(w.letters, raw)] := by
  have hname : (w.letters == []) = false := beq_eq_false_iff_ne.mpr w.nonempty
  have hhas : h.hasAttr w.letters = false := by
    rw [Head.hasAttr, Head.attr?, Option.isSome_eq_false_iff, Option.isNone_iff_eq_none,
      List.find?_eq_none]
    intro x hx heq
    exact hnew (List.mem_map.mpr ⟨_, List.mem_map_of_mem hx, eq_of_beq heq⟩)
  have hnamed : (h.kind != .namedAttribute) = true := by
    rw [bne_iff_ne]
    intro hnamed
    rw [hnamed] at hk
    cases hk
  rw [addAttribute, hname, hhas]
  simp only [Bool.false_eq_true, if_false, attributeOf, hk, if_true]
  refine Yields.after rfl (Yields.pure ⟨rfl, ?_, ?_⟩)
  · rw [applyToNamed, if_pos hnamed]
  · rw [applyToNamed, if_pos hnamed, pairs, List.map_append]
    rfl

/-- The attributes of a directive are read one by one up to its end. -/
theorem yields_directiveAttributes {as : List (Word × Bytes × Bytes)}
    (has : ∀ a ∈ as, Quotes a.2.1 a.2.2) {h : Head} (hk : h.kind.isDirective = true)
    (hd : ((pairs h).map (·.1) ++ as.map (·.1.letters)).Nodup)
    (hs : Reading bound
      (as.flatMap (fun a => writtenPair (a.1, a.2.1)) ++ (Bytes.ofString " %>" ++ r)) s)
    {fuel : Nat} (hfuel : as.length < fuel) :
    Yields (directiveAttributes false fuel h) s fun h' t =>
      h'.kind = h.kind ∧ pairs h' = pairs h ++ as.map (fun a => (a.1.letters, a.2.2)) ∧
        Reading bound r t := by
  induction as generalizing h s fuel with
  | nil =>
    obtain ⟨fuel, rfl⟩ := Nat.exists_eq_add_one_of_ne_zero (Nat.ne_zero_of_lt hfuel)
    rw [directiveAttributes]
    refine (hs.skipBlanks (w := [32]) (by simp [Bytes.isBlankByte])
      (by rintro _ ⟨⟩; rfl)).bind ?_
    intro _ t ht
    refine (ht.accepts (v := "%>")).bind ?_
    rintro _ u ⟨rfl, hu⟩
    exact Yields.pure ⟨rfl, (List.append_nil _).symm, hu⟩
  | cons a as ih =>
    obtain ⟨fuel, rfl⟩ := Nat.exists_eq_add_one_of_ne_zero (Nat.ne_zero_of_lt hfuel)
    obtain ⟨b, w, hw, hb⟩ := a.1.exists_cons
    have hs' : Reading bound ([32] ++ (a.1.letters ++ 61 :: 34 :: (a.2.1 ++ 34 ::
        (as.flatMap (fun a => writtenPair (a.1, a.2.1)) ++ (Bytes.ofString " %>" ++ r))))) s := by
      rw [List.flatMap_cons, writtenPair] at hs
      simp only [List.append_assoc] at hs
      exact hs
    have hfirst : ∀ x, a.1.letters ++ x = b :: (w ++ x) := fun x => by rw [hw]; rfl
    have hnew : a.1.letters ∉ (pairs h).map (·.1) := by
      rw [List.map_cons, List.nodup_append] at hd
      exact fun hmem => hd.2.2 _ hmem _ List.mem_cons_self rfl
    rw [directiveAttributes]
    refine (hs'.skipBlanks (by simp [Bytes.isBlankByte])
      (by rw [hfirst]; rintro _ ⟨⟩; exact Bytes.isBlankByte_of_isAlpha hb)).bind ?_
    intro _ t ht
    refine Yields.after (ht.not_accepts (v := "%>") ?_) ?_
    · have hne : b ≠ 37 := Bytes.ne_of_isAlpha hb rfl
      rw [hfirst]
      show (37 == b && _) = false
      rw [beq_eq_false_iff_ne.mpr hne.symm, Bool.false_and]
    rw [if_neg Bool.false_ne_true]
    refine Yields.after rfl ?_
    rw [ht.not_atEnd (by rw [hfirst]; exact List.cons_ne_nil _ _), if_neg Bool.false_ne_true]
    refine (yields_attributeName _ a.1 ht).bind ?_
    rintro ⟨p, name⟩ t ⟨rfl, ht⟩
    refine (yields_attributeValue _ p (has a List.mem_cons_self) ht).bind ?_
    rintro _ t ⟨rfl, ht⟩
    refine Yields.after rfl ?_
    refine (addAttribute_directive _ hk a.1 a.2.2 hnew p t).bind ?_
    rintro h' _ ⟨rfl, hkind, hpairs⟩
    refine (ih (fun x hx => has x (List.mem_cons_of_mem a hx)) (hkind ▸ hk) ?_ ht
      (Nat.lt_of_succ_lt_succ hfuel)).mono ?_
    · rw [hpairs, List.map_append, List.append_assoc]
      exact hd
    · rintro h'' u ⟨hkind', hpairs', hu⟩
      refine ⟨hkind'.trans hkind, ?_, hu⟩
      rw [hpairs', hpairs, List.append_assoc]
      rfl

/-- Binding a prefix that is free to a library that the host knows. -/
theorem yields_bindPrefix {env : Env σ} {libs : List Taglib} (hhost : Provides env.host libs)
    {b : Taglib} (hb : b ∈ libs)
    (hfree : b.prefixName.letters ∉ bound.map (·.prefixName.letters)) (p : Position)
    (hs : Reading bound r s) :
    Yields (bindPrefix env b.prefixName.letters b.uri p) s fun _ t =>
      Reading (b :: bound) r t := by
  obtain ⟨question, hlibrary, hanswer⟩ := hhost.ask hb
  obtain ⟨m', hask⟩ := hanswer s
  have hreserved : (b.prefixName.letters == "jsp" || b.prefixName.letters == "jspx") = false := by
    rw [beq_eq_false_iff_ne.mpr b.free.1, beq_eq_false_iff_ne.mpr b.free.2]
    rfl
  have hnone : s.bindings.lookup b.prefixName.letters = none := by
    rw [hs.bindings]
    exact Taglib.lookup_map_eq_none _ hfree
  rw [bindPrefix, hreserved, if_neg Bool.false_ne_true]
  refine Yields.after rfl ?_
  rw [hnone, library, hlibrary]
  refine (Yields.after (R := fun l t => l = b.library ∧ t = { s with memory := m' }) hask
    (Yields.pure ⟨rfl, rfl⟩)).bind ?_
  rintro _ _ ⟨rfl, rfl⟩
  refine ⟨(), _, rfl, hs.rest, hs.sound, ?_, hs.elOn⟩
  rw [List.map_cons, ← hs.bindings]
  rfl

/-- The names of the attributes that bind a prefix. -/
def prefixWord : Word := ⟨"prefix", by decide, by decide⟩
def uriWord : Word := ⟨"uri", by decide, by decide⟩

/-- An element that opens a directive is read as one. -/
theorem element_opens_directive (env : Env σ) (included : Include σ) (depth : Nat) (parent : Head)
    (hs : Reading bound (Bytes.ofString "<%@" ++ (32 :: r)) s) (siblings : List Node) :
    element env included (depth + 1) parent false siblings s =
      directive env included s.cursor.position false siblings (s.passing "<%@") := by
  have hcomment : s.cursor.sees "<%--" = false := hs.sees _
  have hdirective : s.cursor.sees "<%@" = true := hs.sees _
  rw [element, construct_eq]
  simp only [hcomment, hdirective, Bool.false_eq_true, if_false, if_true]

/-- The directive of a library binds its prefix and says nothing. -/
theorem element_directive {env : Env σ} {libs : List Taglib} (hhost : Provides env.host libs)
    (included : Include σ) (depth : Nat) (parent : Head) {b : Taglib} (hb : b ∈ libs)
    (hw : b.IsWritable) (hfree : b.prefixName.letters ∉ bound.map (·.prefixName.letters))
    (hs : Reading bound (b.directive ++ r) s) {siblings : List Node} {gs : List Gist}
    (hsib : Conveys siblings gs) :
    Yields (element env included (depth + 1) parent false siblings) s fun ns t =>
      Conveys ns gs ∧ Reading (b :: bound) r t := by
  have hs' : Reading bound (Bytes.ofString "<%@" ++ ([32] ++ (Bytes.ofString "taglib" ++
      ([(prefixWord, b.prefixName.letters, b.prefixName.letters),
        (uriWord, nativeQuoted b.uri, b.uri)].flatMap (fun a => writtenPair (a.1, a.2.1)) ++
        (Bytes.ofString " %>" ++ r))))) s := by
    simp only [Taglib.directive, List.append_assoc] at hs
    simp only [List.flatMap_cons, List.flatMap_nil, writtenPair, List.append_assoc, List.append_nil]
    exact hs
  suffices h : Yields (directive env included s.cursor.position false siblings) (s.passing "<%@")
      fun ns t => Conveys ns gs ∧ Reading (b :: bound) r t by
    obtain ⟨ns, t, hrun, hq⟩ := h
    exact ⟨ns, t, (element_opens_directive env included depth parent hs' siblings).trans hrun, hq⟩
  rw [directive]
  refine (hs'.passing.skipBlanks (by simp [Bytes.isBlankByte]) (by rintro _ ⟨⟩; rfl)).bind ?_
  intro _ t ht
  refine (ht.readName (by decide) (by rintro _ ⟨⟩; rfl)).bind ?_
  rintro _ t ⟨rfl, ht⟩
  have hhead : directiveHead "taglib" s.cursor.position false t =
      .ok { kind := .taglibDirective, start := s.cursor.position, name := "taglib" } t := rfl
  refine Yields.after hhead ?_
  refine Yields.after rfl ?_
  have hnames : [Bytes.ofString "prefix", Bytes.ofString "uri"].Nodup := by decide
  refine (yields_directiveAttributes ?_ rfl (by exact hnames) ht ?_).bind ?_
  · intro a ha
    simp only [List.mem_cons, List.not_mem_nil, or_false] at ha
    rcases ha with rfl | rfl
    · exact quotes_word b.prefixName
    · exact quotes_nativeQuoted hw.noReference.1 hw.noReference.2
  · have hlen := Bytes.length_le_flatMap
      (f := fun a : Word × Bytes × Bytes => writtenPair (a.1, a.2.1))
      (fun a => List.cons_ne_nil _ _)
      [(prefixWord, b.prefixName.letters, b.prefixName.letters),
        (uriWord, nativeQuoted b.uri, b.uri)]
    rw [ht.rest, List.length_append]
    omega
  rintro h u ⟨hkind, hpairs, hu⟩
  have htaglib : Yields (applyTaglib env h) u fun _ v => Reading (b :: bound) r v := by
    obtain ⟨x, as, hattrs, hx, has⟩ := List.map_eq_cons_iff.mp hpairs
    obtain ⟨y, bs, rfl, hy, hbs⟩ := List.map_eq_cons_iff.mp has
    obtain rfl := List.map_eq_nil_iff.mp hbs
    obtain ⟨hxname, hxvalue⟩ := Prod.mk.inj hx
    obtain ⟨hyname, hyvalue⟩ := Prod.mk.inj hy
    have hprefix : h.attr? "prefix" = some x := by
      rw [Head.attr?, hattrs, List.find?, hxname]
      rfl
    have huri : h.attr? "uri" = some y := by
      rw [Head.attr?, hattrs, List.find?, hxname, List.find?, hyname]
      rfl
    have hdir : h.attr? "tagdir" = none := by
      rw [Head.attr?, hattrs, List.find?, hxname, List.find?, hyname]
      rfl
    rw [applyTaglib, Head.attrValue, hprefix, Option.map_some, Option.getD_some, hxvalue, huri,
      hdir]
    dsimp only
    rw [if_neg (by simpa using b.prefixName.nonempty), hyvalue]
    exact yields_bindPrefix hhost hb hfree h.start hu
  rw [hkind]
  refine htaglib.bind fun _ v hv => Yields.pure ⟨?_, hv⟩
  have hdir : Conveys [Node.mk h []] [] := Conveys.directive hkind Conveys.nil
  have hpush := hsib.push hdir
  rwa [List.append_nil] at hpush

/-! ### Which construct stands at the cursor -/

section

variable (env : Env σ) (included : Include σ) (inner : Element σ) (parent : Head)
  (siblings : List Node)

theorem startsWith_eq_false {b c : UInt8} {s lit : Bytes} (h : b ≠ c) :
    Bytes.startsWith (b :: s) (c :: lit) = false := by
  show (c == b && _) = false
  rw [beq_eq_false_iff_ne.mpr h.symm, Bool.false_and]

/-- Neither code nor a directive starts with `<` and a byte other than `%`. -/
theorem not_sees_code {c : UInt8} {y lit : Bytes} (hs : Reading bound (60 :: c :: y) s)
    (hc : c ≠ 37) (hlit : [60, 37] <+: lit) : s.cursor.sees lit = false := by
  rw [hs.sees, Bool.eq_false_iff, ne_eq, Bytes.startsWith_iff]
  intro hp
  exact hc (List.cons_prefix_cons.mp (List.cons_prefix_cons.mp (hlit.trans hp)).2).1.symm

/-- What does not start with `<` is an expression or template text. -/
theorem construct_text {b : UInt8} {y : Bytes} (hs : Reading bound (b :: y) s) (hb : b ≠ 60) :
    construct env included inner parent false siblings s =
      if Expression.isOpener (b :: y) = true then expression false siblings s
      else templateText false siblings s := by
  have hno : ∀ lit : Bytes, s.cursor.sees (60 :: lit) = false := fun lit =>
    (hs.sees _).trans (startsWith_eq_false hb)
  have h1 : s.cursor.sees "<%--" = false := hno _
  have h2 : s.cursor.sees "<%@" = false := hno _
  have h3 : s.cursor.sees "<%!" = false := hno _
  have h4 : s.cursor.sees "<%=" = false := hno _
  have h5 : s.cursor.sees "<%" = false := hno _
  have h6 : s.cursor.sees "<jsp:" = false := hno _
  have h7 : s.cursor.sees "</" = false := hno _
  have h8 : s.cursor.sees "<" = false := hno _
  rw [construct_eq]
  simp only [h1, h2, h3, h4, h5, h6, h7, h8, hs.rest, hs.elOn, Bool.not_false, Bool.true_and,
    Bool.false_and, Bool.false_eq_true, if_false]

/-- What starts with `<` and neither `%` nor the prefix of standard actions is an end tag or a
start tag. -/
theorem construct_markup {c : UInt8} {y : Bytes} (hs : Reading bound (60 :: c :: y) s) (hc : c ≠ 37)
    (hjsp : ¬ Bytes.ofString "jsp:" <+: c :: y) :
    construct env included inner parent false siblings s =
      if (s.cursor.sees "</" && isBoundEnd s.bindings y) = true then
        (refuse .unbalancedEndTag s.cursor.position
          ("unexpected end tag </" ++ Cursor.nameOf y ++ ">") : Parse σ _) s
      else if s.cursor.sees "</" = true then templateText false siblings s
      else (boundTag? s.bindings (c :: y)).elim (templateText false siblings s) fun found =>
        customTag env inner found.1 found.2.1 found.2.2 false siblings s := by
  have hno : ∀ lit : Bytes, [60, 37] <+: lit → s.cursor.sees lit = false := fun lit =>
    not_sees_code hs hc
  have h1 : s.cursor.sees "<%--" = false := hno _ (by decide)
  have h2 : s.cursor.sees "<%@" = false := hno _ (by decide)
  have h3 : s.cursor.sees "<%!" = false := hno _ (by decide)
  have h4 : s.cursor.sees "<%=" = false := hno _ (by decide)
  have h5 : s.cursor.sees "<%" = false := hno _ (by decide)
  have h6 : s.cursor.sees "<jsp:" = false := by
    rw [hs.sees, Bool.eq_false_iff, ne_eq, Bytes.startsWith_iff]
    exact fun hp => hjsp (List.cons_prefix_cons.mp hp).2
  have h7 : Expression.isOpener (60 :: c :: y) = false := rfl
  have h8 : s.cursor.sees "<" = true := hs.sees _
  rw [construct_eq]
  simp only [h1, h2, h3, h4, h5, h6, hs.rest, h7, h8, Bool.and_false, Bool.false_eq_true, if_false,
    if_true, List.drop_succ_cons, List.drop_zero]
  cases boundTag? s.bindings (c :: y) <;> rfl

end

/-! ### Names in tags -/

theorem nameOf_word (w : Word) {b : UInt8} (hb : Cursor.isNameByte b = false) (y : Bytes) :
    Cursor.nameOf (w.letters ++ b :: y) = w.letters :=
  Bytes.takeWhile_append_stop (fun _ hc => (w.isNameByte hc).1) (by rintro _ ⟨⟩; exact hb)

/-- A name of letters that is not followed by a colon is not the prefix of standard actions. -/
theorem not_jsp_word (w : Word) {b : UInt8} (hb : Bytes.isAlpha b = false) (hb' : b ≠ 58)
    (y : Bytes) : ¬ Bytes.ofString "jsp:" <+: w.letters ++ b :: y := by
  rintro ⟨x, hx⟩
  have hjsp : ∀ c ∈ Bytes.ofString "jsp", Bytes.isAlpha c = true := by decide
  exact hb' (Bytes.append_cons_inj hjsp w.alpha rfl hb hx).2.1.symm

theorem label_eq (t : CoreTag) : t.label = t.taglib.prefixName.letters ++ 58 :: t.name.letters := by
  rw [CoreTag.label, List.append_assoc]
  rfl

/-- The name of a tag does not start with the prefix of standard actions. -/
theorem not_jsp_label (t : CoreTag) (y : Bytes) : ¬ Bytes.ofString "jsp:" <+: t.label ++ y := by
  rintro ⟨z, hz⟩
  have hletters : ∀ c ∈ Bytes.ofString "jsp", Bytes.isAlpha c = true := by decide
  rw [label_eq, List.append_assoc] at hz
  exact t.taglib.free.1 (Bytes.append_cons_inj hletters t.taglib.prefixName.alpha rfl rfl hz).1.symm

/-! ### Template text -/

/-- What may stand before text in a piece of template text. -/
inductive Mark where
  /-- Nothing. -/
  | none
  /-- The start tag of a plain element. -/
  | opening (w : Word)
  /-- The end tag of a plain element. -/
  | closing (w : Word)

/-- The mark as it is written. -/
def Mark.bytes : Mark → Bytes
  | none => []
  | opening w => w.opening
  | closing w => w.closing

/-- The text of a piece of template text, after its mark. -/
structure IsTail (t : Bytes) : Prop where
  valid : Utf8.isValid t = true
  plain : t.Lacks "<$#\\%"

theorem IsTail.append {t u : Bytes} (ht : IsTail t) (hu : IsTail u) : IsTail (t ++ u) :=
  ⟨Utf8.isValid_append ht.valid hu.valid, ht.plain.append hu.plain⟩

theorem isTail_text (t : CoreText) : IsTail t.bytes := ⟨t.isValid, t.plain.mono (by decide)⟩

theorem isTail_word (w : Word) : IsTail w.letters := by
  refine ⟨Markup.isValid_of_isLegal w.isLegal, fun b hb => ?_⟩
  have hno : ∀ b ∈ Bytes.ofString "<$#\\%", Bytes.isAlpha b = false := by decide
  exact w.not_mem (hno b hb)

/-- An escape starts with one of three bytes. -/
theorem startsEscape_eq_false {b : UInt8} (h60 : b ≠ 60) (h37 : b ≠ 37) (h92 : b ≠ 92)
    (y : Bytes) : startsEscape true (b :: y) = false := by
  have hless : Bytes.startsWith (b :: y) "<\\%" = false := startsWith_eq_false h60
  have hpercent : Bytes.startsWith (b :: y) "%\\>" = false := startsWith_eq_false h37
  rw [startsEscape, hless, hpercent]
  simp [h92]

/-- The start of a tag is no escape. -/
theorem startsEscape_tag {c : UInt8} (hc : c ≠ 92) (y : Bytes) :
    startsEscape true (60 :: c :: y) = false := by
  have hless : Bytes.startsWith (60 :: c :: y) "<\\%" = false := by
    show (true && Bytes.startsWith (c :: y) "\\%") = false
    rw [Bool.true_and]
    exact startsWith_eq_false hc
  rw [startsEscape, hless]
  rfl

/-- After its first character, template text goes on as long as no mark of another construct
stands there. -/
theorem scanText_tail {b : UInt8} {w r : Bytes} (hv : Utf8.isValid (b :: w) = true)
    (hw : w.Lacks "<$#\\%") (hesc : startsEscape true (b :: w ++ r) = false)
    (hstop : stopsText true r = true) :
    scanText true 0 true (b :: w ++ r) = (b :: w, (b :: w).length) := by
  obtain ⟨cs, hcs, heq⟩ := (Utf8.isValid_iff _).mp hv
  rcases cs with - | ⟨c, cs⟩
  · cases heq
  -- the bytes after the first character are among those after the first byte
  have hsuffix : Utf8.encodeAll cs <:+ w := by
    obtain ⟨d, e, hde⟩ := List.exists_cons_of_ne_nil (Utf8.encode_ne_nil c)
    rw [Utf8.encodeAll_cons, hde, List.cons_append] at heq
    exact ⟨e, (List.cons.inj heq).2.symm⟩
  rw [heq] at hesc ⊢
  refine scanText_first hcs hstop hesc fun u hu hne => ?_
  obtain ⟨d, u, rfl⟩ := List.exists_cons_of_ne_nil hne
  have hd : Bytes.Lacks (d :: u) "<$#\\%" := fun x hx hmem =>
    hw x hx ((hu.trans hsuffix).subset hmem)
  have hopen : Expression.isOpener (d :: (u ++ r)) = false :=
    Expression.isOpener_eq_false (hd.mono (by decide)) r
  have h60 : d ≠ 60 := hd.head (by decide)
  have h37 : d ≠ 37 := hd.head (by decide)
  have h92 : d ≠ 92 := hd.head (by decide)
  constructor
  · rw [List.cons_append, stopsText, hopen]
    simp [h60]
  · exact startsEscape_eq_false h60 h37 h92 _

/-- Template text at the cursor is a text node. -/
theorem yields_templateText {b : UInt8} {w : Bytes} (hv : Utf8.isValid (b :: w) = true)
    (hw : w.Lacks "<$#\\%") (hesc : startsEscape true (b :: w ++ r) = false)
    (hstop : stopsText true r = true) (hs : Reading bound (b :: w ++ r) s) {siblings : List Node}
    {gs : List Gist} (hsib : Conveys siblings gs) :
    Yields (templateText false siblings) s fun ns t =>
      Conveys ns (gs ++ Gist.ofText (b :: w)) ∧ Reading bound r t := by
  have hscan : scanText (!s.elIgnored) 0 true s.cursor.rest = (b :: w, (b :: w).length) := by
    rw [hs.elOn, hs.rest]
    exact scanText_tail hv hw hesc hstop
  exact ⟨_, _, templateText_eq false siblings hs.rest hscan,
    hsib.push (conveys_textNode hv _ _), hs.passing⟩

/-- A piece of template text, with or without a tag of a plain element before it. -/
theorem element_text (env : Env σ) (included : Include σ) (depth : Nat) (parent : Head) (m : Mark)
    {t : Bytes} (ht : IsTail t) (hne : m.bytes ++ t ≠ []) (hstop : stopsText true r = true)
    (hs : Reading bound (m.bytes ++ t ++ r) s) {siblings : List Node} {gs : List Gist}
    (hsib : Conveys siblings gs) :
    Yields (element env included (depth + 1) parent false siblings) s fun ns u =>
      Conveys ns (gs ++ Gist.ofText (m.bytes ++ t)) ∧ Reading bound r u := by
  -- whatever the construct is, it is read as template text
  have hread : ∀ {b : UInt8} {w : Bytes}, m.bytes ++ t = b :: w →
      Utf8.isValid (b :: w) = true → w.Lacks "<$#\\%" →
      startsEscape true (b :: w ++ r) = false →
      construct env included (element env included depth) parent false siblings s =
        templateText false siblings s →
      Yields (element env included (depth + 1) parent false siblings) s fun ns u =>
        Conveys ns (gs ++ Gist.ofText (m.bytes ++ t)) ∧ Reading bound r u := by
    intro b w heq hv hw hesc hcon
    rw [heq] at hs ⊢
    obtain ⟨ns, u, hrun, hq⟩ := yields_templateText hv hw hesc hstop hs hsib
    exact ⟨ns, u, hcon.trans hrun, hq⟩
  cases m with
  | none =>
    obtain ⟨b, w, rfl⟩ := List.exists_cons_of_ne_nil (show t ≠ [] from hne)
    have hs' : Reading bound (b :: (w ++ r)) s := hs
    have hopen : Expression.isOpener (b :: (w ++ r)) = false :=
      Expression.isOpener_eq_false (ht.plain.mono (by decide)) r
    have h60 : b ≠ 60 := ht.plain.head (by decide)
    have h37 : b ≠ 37 := ht.plain.head (by decide)
    have h92 : b ≠ 92 := ht.plain.head (by decide)
    refine hread rfl ht.valid ht.plain.tail (startsEscape_eq_false h60 h37 h92 _) ?_
    rw [construct_text env included _ parent siblings hs' h60, hopen]
    rfl
  | opening w =>
    have htail : IsTail (w.letters ++ 62 :: t) :=
      (isTail_word w).append (IsTail.append (t := [62]) ⟨rfl, by decide⟩ ht)
    have heq : (Mark.opening w).bytes ++ t = 60 :: (w.letters ++ 62 :: t) := by
      simp only [Mark.bytes, Word.opening, List.append_assoc]
      rfl
    obtain ⟨c, v, hw, hc⟩ := w.exists_cons
    have hs' : Reading bound (60 :: c :: (v ++ 62 :: (t ++ r))) s := by
      rw [heq, hw] at hs
      simpa using hs
    have hname : c :: (v ++ 62 :: (t ++ r)) = w.letters ++ 62 :: (t ++ r) := by rw [hw]; rfl
    refine hread heq (Utf8.isValid_append (s := [60]) rfl htail.valid) htail.plain ?_ ?_
    · rw [hw]
      exact startsEscape_tag (Bytes.ne_of_isAlpha hc rfl) _
    · have hend : s.cursor.sees "</" = false := by
        rw [hs'.sees]
        show (true && Bytes.startsWith (c :: _) "/") = false
        rw [Bool.true_and]
        exact startsWith_eq_false (Bytes.ne_of_isAlpha hc rfl)
      have htag : boundTag? s.bindings (c :: (v ++ 62 :: (t ++ r))) = none := by
        rw [boundTag?, hname, nameOf_word w rfl, Bytes.cut?_of_not_mem (w.not_mem rfl)]
        rfl
      rw [construct_markup env included _ parent siblings hs' (Bytes.ne_of_isAlpha hc rfl)
        (by rw [hname]; exact not_jsp_word w rfl (by decide) _), hend, htag]
      rfl
  | closing w =>
    have htail : IsTail (47 :: (w.letters ++ 62 :: t)) :=
      IsTail.append (t := [47]) ⟨rfl, by decide⟩
        ((isTail_word w).append (IsTail.append (t := [62]) ⟨rfl, by decide⟩ ht))
    have heq : (Mark.closing w).bytes ++ t = 60 :: 47 :: (w.letters ++ 62 :: t) := by
      simp only [Mark.bytes, Word.closing, List.append_assoc]
      rfl
    have hs' : Reading bound (60 :: 47 :: (w.letters ++ 62 :: (t ++ r))) s := by
      rw [heq] at hs
      simpa using hs
    refine hread heq (Utf8.isValid_append (s := [60]) rfl htail.valid) htail.plain
      (startsEscape_tag (by decide) _) ?_
    have hsees : s.cursor.sees "</" = true := hs'.sees _
    have hend : isBoundEnd s.bindings (w.letters ++ 62 :: (t ++ r)) = false := by
      rw [isBoundEnd, nameOf_word w rfl, Bytes.cut?_of_not_mem (w.not_mem rfl)]
    rw [construct_markup env included _ parent siblings hs' (by decide)
      (fun hp => absurd (List.cons_prefix_cons.mp hp).1 (by decide)), hsees, hend]
    rfl

/-! ### Expressions and code -/

theorem element_expression (env : Env σ) (included : Include σ) (depth : Nat) (parent : Head)
    {e : CoreExpression} (he : (CoreInline.expression e).IsLegal)
    (hs : Reading bound (e.source ++ r) s) {siblings : List Node} {gs : List Gist}
    (hsib : Conveys siblings gs) :
    Yields (element env included (depth + 1) parent false siblings) s fun ns u =>
      Conveys ns (gs ++ (CoreInline.expression e).gist) ∧ Reading bound r u := by
  have hopen := e.isOpener_source r
  have hs' : Reading bound (e.mark :: (123 :: (e.body ++ [125]) ++ r)) s := by
    rw [e.source_eq] at hs
    exact hs
  have hmark : e.mark ≠ 60 := by
    rcases e.mark_cases with h | h <;> rw [h] <;> decide
  have hstep : element env included (depth + 1) parent false siblings s =
      expression false siblings s := by
    rw [e.source_eq] at hopen
    rw [element, construct_text env included _ parent siblings hs' hmark, ← List.cons_append, hopen]
    rfl
  have hrun : Yields (expression false siblings) s fun ns u =>
      Conveys ns (gs ++ (CoreInline.expression e).gist) ∧ Reading bound r u := by
    rw [expression]
    refine Yields.after rfl ?_
    dsimp only
    rw [hs.rest, e.length?_source]
    dsimp only
    rw [List.take_left]
    refine (elNode_source _ he _ s).bind ?_
    rintro n _ ⟨rfl, hn⟩
    refine hs.moveTo.bind fun _ t ht => Yields.pure ⟨hsib.push hn, ht⟩
  obtain ⟨ns, u, hok, hq⟩ := hrun
  exact ⟨ns, u, hstep.trans hok, hq⟩

/-- The first mark after text without its first byte is where it stands. -/
theorem indexOf?_append {c d : UInt8} {v : Bytes} (hv : c ∉ v) (y : Bytes) :
    Bytes.indexOf? (v ++ c :: d :: y) [c, d] = some v.length := by
  induction v with
  | nil => simp [Bytes.indexOf?]
  | cons b v ih =>
    have hb : (c == b) = false := by
      rw [beq_eq_false_iff_ne]
      rintro rfl
      exact hv List.mem_cons_self
    rw [List.cons_append, Bytes.indexOf?, ih fun h => hv (List.mem_cons_of_mem b h)]
    simp [List.isPrefixOf, hb]

theorem replaceAll_eq_self {c : UInt8} {v old : Bytes} (hv : c ∉ v) (new : Bytes) :
    Bytes.replaceAll v (c :: old) new = v := by
  rw [Bytes.replaceAll]
  induction v with
  | nil => rfl
  | cons b v ih =>
    have hb : (c == b) = false := by
      rw [beq_eq_false_iff_ne]
      rintro rfl
      exact hv List.mem_cons_self
    rw [Bytes.replaceFrom, List.isPrefixOf, hb, ih fun h => hv (List.mem_cons_of_mem b h)]
    rfl

/-- Code is a node of its kind. -/
theorem yields_scripting (c : CoreCode) (hc : Markup.isLegal c.code = true) (opener : Bytes)
    (p : Position) (hs : Reading bound ([32] ++ c.code ++ Bytes.ofString " %>" ++ r) s)
    {siblings : List Node} {gs : List Gist} (hsib : Conveys siblings gs) :
    Yields (scripting c.kind opener p false siblings) s fun ns u =>
      Conveys ns (gs ++ [.leaf c.kind c.code.solid]) ∧ Reading bound r u := by
  have hs' : Reading bound (32 :: c.code ++ [32] ++ (37 :: 62 :: r)) s := by
    simp only [List.append_assoc, List.cons_append] at hs ⊢
    exact hs
  have hno : (37 : UInt8) ∉ 32 :: c.code ++ [32] := by
    have := c.plain 37 (by decide)
    simpa using this
  have hvalid : Utf8.isValid (32 :: c.code ++ [32]) = true :=
    Utf8.isValid_append (Utf8.isValid_append (s := [32]) rfl (Markup.isValid_of_isLegal hc)) rfl
  have hseek : s.cursor.seek? "%>" = some ((s.passing (32 :: c.code ++ [32])).cursor,
      ((s.passing (32 :: c.code ++ [32])).passing [37, 62]).cursor) := by
    have hhere := hs'.skip
    have hafter := hs'.passing.skip (v := [37, 62])
    have hindex : Bytes.indexOf? s.cursor.rest "%>" = some (32 :: c.code ++ [32]).length := by
      rw [hs'.rest]
      exact indexOf?_append hno r
    rw [Cursor.seek?, hindex, Option.map_some, hhere]
    exact congrArg (fun x => some (_, x)) hafter
  have hbetween : between s.cursor (s.passing (32 :: c.code ++ [32])).cursor =
      32 :: c.code ++ [32] := between_pass hs'.rest
  have hreplace : Bytes.replaceAll (32 :: c.code ++ [32]) "%\\>" "%>" = 32 :: c.code ++ [32] :=
    replaceAll_eq_self hno _
  have hsolid : Bytes.solid (32 :: c.code ++ [32]) = c.code.solid := by
    rw [List.cons_append, ← List.singleton_append, Bytes.solid_append, Bytes.solid_append]
    simp [Bytes.solid, Bytes.isBlankByte]
  have hkind : c.kind.isCode = true := by rw [Kind.isCode, c.scripting, Bool.or_true]
  rw [scripting]
  refine Yields.after rfl ?_
  rw [hseek]
  refine ⟨_, (s.passing (32 :: c.code ++ [32])).passing [37, 62], rfl, ?_,
    hs'.passing.passing (v := [37, 62])⟩
  rw [hbetween, hreplace, ← hsolid]
  exact hsib.push (Conveys.code (h := { kind := c.kind, start := p, text := 32 :: c.code ++ [32] })
    ⟨hkind, rfl, hvalid⟩ Conveys.nil)

theorem element_code (env : Env σ) (included : Include σ) (depth : Nat) (parent : Head)
    (c : CoreCode) (hc : Markup.isLegal c.code = true) (hs : Reading bound (c.native ++ r) s)
    {siblings : List Node} {gs : List Gist} (hsib : Conveys siblings gs) :
    Yields (element env included (depth + 1) parent false siblings) s fun ns u =>
      Conveys ns (gs ++ [.leaf c.kind c.code.solid]) ∧ Reading bound r u := by
  have hs' : Reading bound (c.opener ++ ([32] ++ c.code ++ Bytes.ofString " %>" ++ r)) s := by
    simp only [CoreCode.native, List.append_assoc] at hs ⊢
    exact hs
  -- the blank after the opener tells it from the longer ones
  have hstep : element env included (depth + 1) parent false siblings s =
      scripting c.kind c.opener s.cursor.position false siblings (s.passing c.opener) := by
    have hsees : ∀ lit : Bytes, s.cursor.sees lit =
        Bytes.startsWith (c.opener ++ ([32] ++ c.code ++ Bytes.ofString " %>" ++ r)) lit := hs'.sees
    have hkind := c.scripting
    rw [element, construct_eq]
    rw [CoreCode.opener] at hsees ⊢
    dsimp only
    cases hk : c.kind <;> rw [hk] at hkind hsees <;> cases hkind
    · rw [hsees, hsees, hsees]
      rfl
    · rw [hsees, hsees, hsees, hsees]
      rfl
    · rw [hsees, hsees, hsees, hsees, hsees]
      rfl
  obtain ⟨ns, u, hok, hq⟩ :=
    yields_scripting c hc c.opener s.cursor.position hs'.passing hsib
  exact ⟨ns, u, hstep.trans hok, hq⟩

/-! ### Tags -/

/-- A tag with the content that is read after its start tag. -/
theorem yields_customTag (env : Env σ) (inner : Element σ) (t : CoreTag) (closed : Bool)
    (hs : Reading bound (t.opening ++ (tagEnd closed ++ r)) s) {r' : Bytes} {bs : List Gist}
    (hclosed : closed = true → bs = [] ∧ r' = r)
    (hbody : closed = false → ∀ {h : Head} {u : State σ}, h.name = t.label →
      bodyContentOf h = .page → Reading bound r u →
      Yields (tagBody inner h false) u fun cs v => Conveys cs bs ∧ Reading bound r' v)
    {siblings : List Node} {gs : List Gist} (hsib : Conveys siblings gs) :
    Yields (customTag env inner t.taglib.prefixName.letters t.name.letters
        ⟨t.taglib.uri, t.taglib.library⟩ false siblings) s fun ns v =>
      Conveys ns (gs ++ [t.gist bs]) ∧ Reading bound r' v := by
  have hs' : Reading bound ((Bytes.ofString "<" ++ t.label) ++
      (t.attributes.flatMap writtenAttribute ++ (tagEnd closed ++ r))) s := by
    simp only [CoreTag.opening, List.append_assoc] at hs ⊢
    exact hs
  have hlen : (Bytes.ofString "<" ++ t.label).length =
      t.taglib.prefixName.letters.length + t.name.letters.length + 2 := by
    simp only [CoreTag.label, List.length_append]
    show 1 + (_ + 1 + _) = _
    omega
  rw [customTag]
  refine Yields.after rfl ?_
  rw [← hlen]
  refine hs'.moveTo.bind fun _ u hu => ?_
  refine (yields_tagHead env t s.cursor.position u).bind ?_
  rintro h _ ⟨rfl, hh⟩
  rw [attributes]
  refine (Yields.after rfl (yields_attributesWithin hh.kind ?_ closed hu ?_)).bind ?_
  · rw [hh.attributes]
    exact t.distinct
  · have hle := Bytes.length_le_flatMap (f := writtenAttribute) (fun a => List.cons_ne_nil _ _)
      t.attributes
    rw [hu.rest, List.length_append]
    omega
  rintro ⟨h', closed'⟩ v ⟨rfl, hgain, hv⟩
  cases closed' with
  | true =>
    obtain ⟨rfl, rfl⟩ := hclosed rfl
    exact Yields.pure ⟨hsib.push (hh.conveys hgain true Conveys.nil), hv⟩
  | false =>
    refine (hbody (h := closing false h') rfl (hgain.name.trans hh.name)
      (hh.bodyContentOf hgain false) hv).bind ?_
    rintro cs w ⟨hcs, hw⟩
    exact Yields.pure ⟨hsib.push (hh.conveys hgain false hcs), hw⟩

/-- Where a tag of a bound library stands, the tag is read. -/
theorem element_tag (env : Env σ) (included : Include σ) (depth : Nat) (parent : Head)
    (hd : (bound.map (·.prefixName.letters)).Nodup) (t : CoreTag) (ht : t.taglib ∈ bound)
    (closed : Bool) (hs : Reading bound (t.opening ++ (tagEnd closed ++ r)) s)
    (siblings : List Node) :
    element env included (depth + 1) parent false siblings s =
      customTag env (element env included depth) t.taglib.prefixName.letters t.name.letters
        ⟨t.taglib.uri, t.taglib.library⟩ false siblings s := by
  -- the name ends at a blank, a slash or the end of the tag
  obtain ⟨b, y, hby, hb⟩ : ∃ b y, t.attributes.flatMap writtenAttribute ++ (tagEnd closed ++ r) =
      b :: y ∧ Cursor.isNameByte b = false := by
    rcases t.attributes with - | ⟨a, as⟩
    · cases closed
      · exact ⟨62, r, rfl, rfl⟩
      · exact ⟨47, 62 :: r, rfl, rfl⟩
    · exact ⟨32, _, rfl, rfl⟩
  have hname : Cursor.nameOf (t.label ++ b :: y) = t.label := by
    refine Bytes.takeWhile_append_stop (fun c hc => ?_) (by rintro _ ⟨⟩; exact hb)
    simp only [CoreTag.label, List.mem_append] at hc
    rcases hc with (hc | hc) | hc
    · exact (t.taglib.prefixName.isNameByte hc).1
    · rw [show c = 58 from List.mem_singleton.mp hc]
      rfl
    · exact (t.name.isNameByte hc).1
  have hlabel := label_eq t
  obtain ⟨c, v, hpre, hc⟩ := t.taglib.prefixName.exists_cons
  obtain ⟨x, hx⟩ : ∃ x, t.label ++ b :: y = c :: x := by
    rw [hlabel, hpre]
    exact ⟨_, rfl⟩
  have hs' : Reading bound (60 :: c :: x) s := by
    simp only [CoreTag.opening, List.append_assoc] at hs
    rw [hby, hx] at hs
    exact hs
  have hjsp : ¬ Bytes.ofString "jsp:" <+: c :: x := hx ▸ not_jsp_label t _
  have hend : s.cursor.sees "</" = false := by
    rw [hs'.sees]
    show (true && Bytes.startsWith (c :: _) "/") = false
    rw [Bool.true_and]
    exact startsWith_eq_false (Bytes.ne_of_isAlpha hc rfl)
  have htag : boundTag? s.bindings (c :: x) = some (t.taglib.prefixName.letters, t.name.letters,
      ⟨t.taglib.uri, t.taglib.library⟩) := by
    have hcut : Bytes.cut? 58 t.label = some (t.taglib.prefixName.letters, t.name.letters) := by
      rw [hlabel]
      exact Bytes.cut?_append (t.taglib.prefixName.not_mem rfl) _
    rw [boundTag?, ← hx, hname, hcut]
    simp only [Option.bind_eq_bind, Option.bind_some]
    have hlibrary : (bound.map Taglib.bound).lookup t.taglib.prefixName.letters =
        some ⟨t.taglib.uri, t.taglib.library⟩ := Taglib.lookup_map _ hd ht
    rw [if_neg (by simpa using t.name.nonempty), hs.bindings, hlibrary]
    rfl
  rw [element, construct_markup env included _ parent siblings hs' (Bytes.ne_of_isAlpha hc rfl)
    hjsp, hend, htag]
  rfl

end Native

end Parsing

end ServerPages
