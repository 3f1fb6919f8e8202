import ServerPages.Proofs.CoreDocument
import ServerPages.Proofs.NativeConstructs

/-!
# One page in two syntaxes

A core page may be written in the native syntax or as a document. Both parsers accept it and make
equivalent trees, because the tree of either says what the page says.

In the native syntax, text that stands in one place is one construct to the parser, however it was
put together. So a core page is first cut as the parser cuts it (`NativeContent`). Then the
constructs are read one after the other by the loop that reads the content of an element or of a
source, and the nodes it gathers say what the page says.

A document cannot hold every character, it changes line ends, and elements of the standard namespace
are never tags of a library; a directive cannot hold references to quotes in a uri. Pages with any
of this are core pages too, but they have no equivalent trees.

## Main results

* `CorePage.nativeContent`: a core page is native content that says what the page says.
* `NativeContent.run`: reading native content gives nodes that say what it says.
* `CorePage.parse_nativeUnit`: the native form of a core page is parsed into a tree that says what
  the page says.
* `CorePage.equivalent_trees`: both forms of a core page that a document can hold are parsed, into
  equivalent trees.
* `CorePage.not_equivalent_trees`: none of the restrictions on what a page holds can be dropped.
-/

namespace ServerPages

namespace Parsing.Native

variable {σ : Type} {libs : List Taglib}

/-! ### Content as the parser cuts it -/

/-- Native text, cut as the parser cuts it, with what it says. -/
inductive NativeContent (libs : List Taglib) : Bytes → List Gist → Prop where
  | nil : NativeContent libs [] []
  | text {r : Bytes} {gs : List Gist} (m : Mark) {t : Bytes} :
      IsTail t → m.bytes ++ t ≠ [] → stopsText true r = true → NativeContent libs r gs →
        NativeContent libs (m.bytes ++ t ++ r) (Gist.ofText (m.bytes ++ t) ++ gs)
  | expression {r : Bytes} {gs : List Gist} {e : CoreExpression} :
      (CoreInline.expression e).IsLegal → NativeContent libs r gs →
        NativeContent libs (e.source ++ r) ((CoreInline.expression e).gist ++ gs)
  | code {r : Bytes} {gs : List Gist} (c : CoreCode) :
      Markup.isLegal c.code = true → NativeContent libs r gs →
        NativeContent libs (c.native ++ r) ([.leaf c.kind c.code.solid] ++ gs)
  | closedTag {r : Bytes} {gs : List Gist} (t : CoreTag) :
      t.taglib ∈ libs → NativeContent libs r gs →
        NativeContent libs (t.opening ++ (tagEnd true ++ r)) ([t.gist []] ++ gs)
  | tag {b r : Bytes} {bs gs : List Gist} (t : CoreTag) :
      t.taglib ∈ libs → NativeContent libs b bs → NativeContent libs r gs →
        NativeContent libs (t.opening ++ (tagEnd false ++ (b ++ (t.closing ++ r))))
          ([t.gist bs] ++ gs)

theorem stopsText_source (e : CoreExpression) (r : Bytes) :
    stopsText true (e.source ++ r) = true := by
  have hopen := e.isOpener_source r
  rw [e.source_eq] at hopen ⊢
  rw [List.cons_append, stopsText]
  rw [List.cons_append] at hopen
  rw [hopen, Bool.and_self, Bool.or_true]

theorem stopsText_native (c : CoreCode) (r : Bytes) : stopsText true (c.native ++ r) = true := by
  rw [CoreCode.native, CoreCode.opener]
  split <;> rfl

/-- What ends text still ends it before more text. -/
theorem stopsText_append {r t : Bytes} (hr : stopsText true r = true)
    (ht : stopsText true t = true) : stopsText true (r ++ t) = true := by
  rcases r with - | ⟨b, - | ⟨c, r⟩⟩
  · exact ht
  · have hb : b = 60 := by simpa [stopsText, Expression.isOpener] using hr
    rw [hb]
    rfl
  · exact hr

namespace NativeContent

/-- Content with text before it, which goes on with the text that the content starts with. -/
theorem prepend (m : Mark) {t r : Bytes} {gs : List Gist} (ht : IsTail t)
    (h : NativeContent libs r gs) :
    NativeContent libs (m.bytes ++ t ++ r) (Gist.ofText (m.bytes ++ t) ++ gs) := by
  by_cases hne : m.bytes ++ t = []
  · rw [hne]
    exact h
  cases h with
  | nil => exact text m ht hne rfl nil
  | @text r gs m' u hu hne' hstop h =>
    cases m' with
    | none =>
      have hmerged := text m (ht.append hu)
        (by rw [← List.append_assoc]; exact List.append_ne_nil_of_left_ne_nil hne u) hstop h
      have hbytes : m.bytes ++ t ++ (Mark.none.bytes ++ u ++ r) = m.bytes ++ (t ++ u) ++ r := by
        simp [Mark.bytes]
      have hsaid : Gist.ofText (m.bytes ++ t) ++ (Gist.ofText (Mark.none.bytes ++ u) ++ gs) =
          Gist.ofText (m.bytes ++ (t ++ u)) ++ gs := by
        rw [← List.append_assoc, ← Gist.ofText_append, List.append_assoc]
        rfl
      rw [hbytes, hsaid]
      exact hmerged
    | opening w => exact text m ht hne rfl (text (.opening w) hu hne' hstop h)
    | closing w => exact text m ht hne rfl (text (.closing w) hu hne' hstop h)
  | expression he h => exact text m ht hne (stopsText_source _ _) (expression he h)
  | code c hc h => exact text m ht hne (stopsText_native c _) (code c hc h)
  | closedTag u hu h => exact text m ht hne rfl (closedTag u hu h)
  | tag u hu hb h => exact text m ht hne rfl (tag u hu hb h)

theorem append {r r' : Bytes} {gs gs' : List Gist} (h : NativeContent libs r gs)
    (h' : NativeContent libs r' gs') (hstop : stopsText true r' = true) :
    NativeContent libs (r ++ r') (gs ++ gs') := by
  induction h with
  | nil => exact h'
  | text m ht hne hs _ ih =>
    have htext := text m ht hne (stopsText_append hs hstop) ih
    simpa only [List.append_assoc] using htext
  | expression he _ ih =>
    rw [List.append_assoc, List.append_assoc]
    exact expression he ih
  | code c hc _ ih =>
    rw [List.append_assoc, List.append_assoc]
    exact code c hc ih
  | closedTag u hu _ ih =>
    rw [List.append_assoc, List.append_assoc, List.append_assoc]
    exact closedTag u hu ih
  | tag u hu hb _ _ ih =>
    simp only [List.append_assoc]
    exact tag u hu hb ih

end NativeContent

/-! ### Reading content -/

/-- A text goes on with a construct: it is not at its end, and not at the end tag of a tag. -/
def GoesOn (r : Bytes) : Prop := r ≠ [] ∧ ∀ t : CoreTag, ¬ (Bytes.ofString "</" ++ t.label) <+: r

theorem goesOn_of_ne {b : UInt8} (hb : b ≠ 60) (y : Bytes) : GoesOn (b :: y) :=
  ⟨List.cons_ne_nil _ _, fun _ hp => hb (List.cons_prefix_cons.mp hp).1.symm⟩

theorem goesOn_tag {c : UInt8} (hc : c ≠ 47) (y : Bytes) : GoesOn (60 :: c :: y) :=
  ⟨List.cons_ne_nil _ _, fun _ hp =>
    hc (List.cons_prefix_cons.mp (List.cons_prefix_cons.mp hp).2).1.symm⟩

theorem goesOn_closing (w : Word) (y : Bytes) : GoesOn (w.closing ++ y) := by
  refine ⟨List.cons_ne_nil _ _, ?_⟩
  rintro t ⟨z, hz⟩
  simp only [Word.closing, CoreTag.label, List.append_assoc] at hz
  have hnames := List.append_cancel_left hz
  have hend := (Bytes.append_cons_inj t.taglib.prefixName.alpha w.alpha rfl rfl hnames).2.1
  exact absurd hend (by decide)

theorem goesOn_opening (t : CoreTag) (y : Bytes) : GoesOn (t.opening ++ y) := by
  obtain ⟨c, v, hw, hc⟩ := t.taglib.prefixName.exists_cons
  simp only [CoreTag.opening, label_eq, hw, List.append_assoc]
  exact goesOn_tag (Bytes.ne_of_isAlpha hc rfl) _

/-- The loop `loop` reads one construct by `step` where the text goes on. -/
def Loops (step : List Node → Parse σ (List Node))
    (loop : Nat → List Node → Parse σ (List Node)) : Prop :=
  ∀ ⦃bound : List Taglib⦄ ⦃r : Bytes⦄ ⦃s : State σ⦄, Reading bound r s → GoesOn r →
    ∀ fuel children, loop (fuel + 1) children s = (step children >>= loop fuel) s

/-- What may follow content: nothing, or the end tag of the tag around it. -/
def EndsContent (tail : Bytes) : Prop :=
  tail = [] ∨ ∃ (t : CoreTag) (y : Bytes), tail = t.closing ++ y

theorem EndsContent.stopsText {tail : Bytes} (h : EndsContent tail) :
    Native.stopsText true tail = true := by
  rcases h with rfl | ⟨t, y, rfl⟩ <;> rfl

/-- The loop over the content of a source. -/
theorem loops_sourceWithin (inner : Element σ) (parent : Head) :
    Loops (inner parent false) (sourceWithin inner parent false) := by
  intro bound r s hs hr fuel children
  rw [sourceWithin, bind_ok (cursor_eq s), hs.not_atEnd hr.1,
    if_neg Bool.false_ne_true]

theorem acceptsEndTag_eq_false {bound : List Taglib} {r : Bytes} {s : State σ}
    (hs : Reading bound r s) (hr : GoesOn r) (t : CoreTag) :
    acceptsEndTag t.label s = .ok false s := by
  have hno : s.cursor.accept? (Bytes.ofString "</" ++ t.label) = none := by
    have hsees : s.cursor.sees (Bytes.ofString "</" ++ t.label) = false := by
      rw [hs.sees, Bool.eq_false_iff, ne_eq, Bytes.startsWith_iff]
      exact hr.2 t
    rw [Cursor.accept?, hsees]
    rfl
  rw [acceptsEndTag, bind_ok (cursor_eq s), Cursor.acceptEndTag?, hno]
  rfl

theorem acceptsEndTag_closing {bound : List Taglib} {r : Bytes} {s : State σ} (t : CoreTag)
    (hs : Reading bound (t.closing ++ r) s) :
    Yields (acceptsEndTag t.label) s fun b u => b = true ∧ Reading bound r u := by
  have hs' : Reading bound
      ((Bytes.ofString "</" ++ t.label) ++ ([] ++ (Bytes.ofString ">" ++ r))) s := by
    simp only [CoreTag.closing, List.append_assoc, List.nil_append] at hs ⊢
    exact hs
  have hname : s.cursor.accept? (Bytes.ofString "</" ++ t.label) =
      some (s.passing (Bytes.ofString "</" ++ t.label)).cursor := by
    rw [Cursor.accept?, hs'.sees, Bytes.startsWith_append]
    rfl
  have hblanks : (s.passing (Bytes.ofString "</" ++ t.label)).cursor.blanks = [] := by
    rw [Cursor.blanks, hs'.passing.rest]
    rfl
  have hend : (s.passing (Bytes.ofString "</" ++ t.label)).cursor.acceptAfterBlanks? ">" =
      some (((s.passing (Bytes.ofString "</" ++ t.label)).passing []).passing ">").cursor := by
    have hsees := hs'.passing.passing.sees ">"
    rw [Bytes.startsWith_append] at hsees
    rw [Cursor.acceptAfterBlanks?, Cursor.skipBlanks, hblanks]
    exact if_pos hsees
  refine ⟨true, ((s.passing (Bytes.ofString "</" ++ t.label)).passing []).passing ">", ?_, rfl,
    hs'.passing.passing.passing⟩
  rw [acceptsEndTag, bind_ok (cursor_eq s), Cursor.acceptEndTag?, hname]
  simp only [Option.bind_eq_bind, Option.bind_some, hend]
  rfl

/-- The loop over the content of a tag. -/
theorem loops_bodyWithin (inner : Element σ) {h : Head} (t : CoreTag) (hname : h.name = t.label) :
    Loops (inner h false) (bodyWithin inner h false) := by
  intro bound r s hs hr fuel children
  rw [bodyWithin, hname, bind_ok (acceptsEndTag_eq_false hs hr t), if_neg Bool.false_ne_true,
    bind_ok (cursor_eq s), hs.not_atEnd hr.1, if_neg Bool.false_ne_true]

namespace NativeContent

/-- Neither named attributes nor other standard actions stand in content. -/
theorem not_jsp {r : Bytes} {gs : List Gist} (h : NativeContent libs r gs) {tail : Bytes}
    (ht : EndsContent tail) :
    ¬ Bytes.ofString "<jsp:" <+: (r ++ tail).dropWhile Bytes.isBlankByte := by
  have hfirst : ∀ {b : UInt8} {y : Bytes}, Bytes.isBlankByte b = false →
      ¬ Bytes.ofString "<jsp:" <+: b :: y →
      ¬ Bytes.ofString "<jsp:" <+: (b :: y).dropWhile Bytes.isBlankByte := by
    intro b y hb hno
    rwa [List.dropWhile_cons_of_neg (by simp [hb])]
  have hother : ∀ {b : UInt8} {y : Bytes}, b ≠ 60 → ¬ Bytes.ofString "<jsp:" <+: b :: y :=
    fun hb hp => hb (List.cons_prefix_cons.mp hp).1.symm
  have hmarkup : ∀ {y : Bytes}, ¬ Bytes.ofString "jsp:" <+: y →
      ¬ Bytes.ofString "<jsp:" <+: (60 :: y).dropWhile Bytes.isBlankByte := fun hno =>
    hfirst rfl fun hp => hno (List.cons_prefix_cons.mp hp).2
  have hslash : ∀ y, ¬ Bytes.ofString "jsp:" <+: 47 :: y := fun y hp =>
    absurd (List.cons_prefix_cons.mp hp).1 (by decide)
  induction h with
  | nil =>
    rcases ht with rfl | ⟨t, y, rfl⟩
    · exact fun hp => absurd (List.prefix_nil.mp hp) (by decide)
    · exact hmarkup (hslash _)
  | @text r gs m t htail _ _ _ ih =>
    cases m with
    | none =>
      rw [Mark.bytes, List.nil_append, List.append_assoc, List.dropWhile_append]
      split
      · exact ih
      · next hne =>
          obtain ⟨b, y, hy⟩ := List.exists_cons_of_ne_nil (mt List.isEmpty_iff.mpr hne)
          rw [hy, List.cons_append]
          have hmem : b ∈ t := (List.dropWhile_suffix _).subset (hy ▸ List.mem_cons_self)
          refine hother ?_
          rintro rfl
          exact htail.plain 60 (by decide) hmem
    | opening w =>
      simp only [Mark.bytes, Word.opening, List.append_assoc]
      exact hmarkup (not_jsp_word w (b := 62) rfl (by decide) _)
    | closing w =>
      simp only [Mark.bytes, Word.closing, List.append_assoc]
      exact hmarkup (hslash _)
  | @expression r gs e _ _ _ =>
    rw [e.source_eq]
    rcases e.mark_cases with h | h <;> rw [h] <;> exact hfirst rfl (hother (by decide))
  | code c _ _ _ =>
    have hpercent : ∀ y, ¬ Bytes.ofString "jsp:" <+: 37 :: y := fun y hp =>
      absurd (List.cons_prefix_cons.mp hp).1 (by decide)
    rw [CoreCode.native, CoreCode.opener]
    split <;> exact hmarkup (hpercent _)
  | closedTag t _ _ _ =>
    simp only [CoreTag.opening, List.append_assoc]
    exact hmarkup (not_jsp_label t _)
  | tag t _ _ _ _ _ =>
    simp only [CoreTag.opening, List.append_assoc]
    exact hmarkup (not_jsp_label t _)

/-- One construct of native content and then the rest. -/
theorem readsTo_step {bound : List Taglib} {step : List Node → Parse σ (List Node)}
    {loop : Nat → List Node → Parse σ (List Node)} (hloop : Loops step loop) {x r tail : Bytes}
    {gs hs : List Gist} {s : State σ} (hread : Reading bound (x ++ r) s) (hon : GoesOn (x ++ r))
    (hx : x ≠ [])
    (hstep : ∀ {children : List Node} {ks : List Gist}, Conveys children ks →
      Yields (step children) s fun ns u => Conveys ns (ks ++ gs) ∧ Reading bound r u)
    (hrest : ∀ {u : State σ}, Reading bound r u → ReadsTo (Reading bound) 1 loop u r tail hs) :
    ReadsTo (Reading bound) 1 loop s (x ++ r) tail (gs ++ hs) := by
  refine ReadsTo.step Nat.one_pos hx (fun {fuel} _ {children ks} hc => ?_) hrest
  obtain ⟨ns, u, hrun, hq⟩ := hstep hc
  exact ⟨ns, u, by rw [hloop hread hon, bind_ok hrun], hq⟩

/-- The content of a tag up to its end tag. -/
theorem yields_tagBody {bound : List Taglib} {inner : Element σ} {h : Head} (t : CoreTag)
    (hname : h.name = t.label) (hcontent : bodyContentOf h = .page) {x r : Bytes} {s : State σ}
    {gs : List Gist} (hs : Reading bound x s)
    (hjsp : ¬ Bytes.ofString "<jsp:" <+: x.dropWhile Bytes.isBlankByte)
    (hread : ReadsTo (Reading bound) 1 (bodyWithin inner h false) s x (t.closing ++ r) gs) :
    Yields (tagBody inner h false) s fun cs u => Conveys cs gs ∧ Reading bound r u := by
  have hnamed : startsWithNamedAttribute s = .ok false s := by
    have hsees : s.cursor.skipBlanks.sees "<jsp:attribute" = false := by
      have hrest : s.cursor.skipBlanks.rest = x.dropWhile Bytes.isBlankByte := by
        show s.cursor.rest.drop (s.cursor.rest.takeWhile Bytes.isBlankByte).length = _
        rw [hs.rest]
        calc x.drop (x.takeWhile Bytes.isBlankByte).length
            = (x.takeWhile Bytes.isBlankByte ++ x.dropWhile Bytes.isBlankByte).drop
                (x.takeWhile Bytes.isBlankByte).length := by rw [List.takeWhile_append_dropWhile]
          _ = x.dropWhile Bytes.isBlankByte := List.drop_left
      rw [Cursor.sees, hrest, Bool.eq_false_iff, ne_eq, Bytes.startsWith_iff]
      have hlit : Bytes.ofString "<jsp:" <+: Bytes.ofString "<jsp:attribute" := by decide
      exact fun hp => hjsp (hlit.trans hp)
    show EStateM.Result.ok (s.cursor.skipBlanks.sees "<jsp:attribute") s = _
    rw [hsees]
  have hbody : Yields (body inner h false) s fun cs u => Conveys cs gs ∧ Reading bound r u := by
    rw [body]
    refine Yields.after rfl ?_
    have hfuel : 1 * x.length < s.cursor.rest.length + 1 := by
      rw [hs.rest]
      omega
    obtain ⟨fuel, children, u, hrun, hfuel, hu, hconv⟩ := hread hfuel Conveys.nil
    obtain ⟨fuel, rfl⟩ := Nat.exists_eq_add_one_of_ne_zero (Nat.ne_zero_of_lt hfuel)
    obtain ⟨b, v, hend, rfl, hv⟩ := acceptsEndTag_closing t hu
    refine ⟨children, v, ?_, hconv, hv⟩
    rw [hrun, bodyWithin, hname, bind_ok hend]
    rfl
  rw [tagBody]
  refine Yields.after hnamed ?_
  rw [if_neg Bool.false_ne_true, hcontent]
  exact hbody

/-- **Reading native content gives nodes that say what it says.** The fuel of the parsers is enough
if it exceeds the number of bytes, because every construct takes one. -/
theorem run (env : Env σ) (included : Include σ) {bound : List Taglib}
    (hd : (bound.map (·.prefixName.letters)).Nodup) {r : Bytes} {gs : List Gist}
    (h : NativeContent bound r gs) {tail : Bytes} (ht : EndsContent tail) {depth : Nat}
    (hdepth : (r ++ tail).length < depth) {parent : Head}
    {loop : Nat → List Node → Parse σ (List Node)}
    (hloop : Loops (element env included depth parent false) loop) {s : State σ}
    (hs : Reading bound (r ++ tail) s) :
    ReadsTo (Reading bound) 1 loop s (r ++ tail) tail gs := by
  induction h generalizing tail depth parent loop s with
  | nil => exact ReadsTo.refl hs
  | @text r gs m t htail hne hstop _ ih =>
    obtain ⟨depth, rfl⟩ := Nat.exists_eq_add_one_of_ne_zero (Nat.ne_zero_of_lt hdepth)
    rw [List.append_assoc] at hs hdepth ⊢
    have hrest : (r ++ tail).length < depth + 1 := by
      rw [List.length_append] at hdepth
      omega
    refine readsTo_step hloop hs ?_ hne
      (element_text env included depth parent m htail hne (stopsText_append hstop ht.stopsText)
        hs) fun hu => ih ht hrest hloop hu
    cases m with
    | none =>
      obtain ⟨b, y, hy⟩ := List.exists_cons_of_ne_nil hne
      rw [hy]
      refine goesOn_of_ne ?_ _
      rintro rfl
      have hmem : 60 ∈ Mark.none.bytes ++ t := hy ▸ List.mem_cons_self
      exact htail.plain 60 (by decide) hmem
    | opening w =>
      obtain ⟨c, v, hw, hc⟩ := w.exists_cons
      simp only [Mark.bytes, Word.opening, hw, List.append_assoc]
      exact goesOn_tag (Bytes.ne_of_isAlpha hc rfl) _
    | closing w =>
      rw [Mark.bytes, List.append_assoc]
      exact goesOn_closing w _
  | @expression r gs e he _ ih =>
    obtain ⟨depth, rfl⟩ := Nat.exists_eq_add_one_of_ne_zero (Nat.ne_zero_of_lt hdepth)
    rw [List.append_assoc] at hs hdepth ⊢
    have hrest : (r ++ tail).length < depth + 1 := by
      rw [List.length_append] at hdepth
      omega
    have hne : e.source ≠ [] := by
      rw [e.source_eq]
      exact List.cons_ne_nil _ _
    refine readsTo_step hloop hs ?_ hne (element_expression env included depth parent he hs)
      fun hu => ih ht hrest hloop hu
    rw [e.source_eq]
    rcases e.mark_cases with h | h <;> rw [h] <;> exact goesOn_of_ne (by decide) _
  | @code r gs c hc _ ih =>
    obtain ⟨depth, rfl⟩ := Nat.exists_eq_add_one_of_ne_zero (Nat.ne_zero_of_lt hdepth)
    rw [List.append_assoc] at hs hdepth ⊢
    have hrest : (r ++ tail).length < depth + 1 := by
      rw [List.length_append] at hdepth
      omega
    have hopener : ∃ y, c.native = 60 :: 37 :: y := by
      rw [CoreCode.native, CoreCode.opener]
      split <;> exact ⟨_, rfl⟩
    obtain ⟨y, hy⟩ := hopener
    refine readsTo_step hloop hs ?_ (by rw [hy]; exact List.cons_ne_nil _ _)
      (element_code env included depth parent c hc hs) fun hu => ih ht hrest hloop hu
    rw [hy]
    exact goesOn_tag (by decide) _
  | @closedTag r gs t htl _ ih =>
    obtain ⟨depth, rfl⟩ := Nat.exists_eq_add_one_of_ne_zero (Nat.ne_zero_of_lt hdepth)
    have hcut : t.opening ++ (tagEnd true ++ r) ++ tail =
        (t.opening ++ tagEnd true) ++ (r ++ tail) := by
      simp only [List.append_assoc]
    have hrest : (r ++ tail).length < depth + 1 := by
      simp only [List.length_append] at hdepth ⊢
      omega
    rw [hcut] at hs ⊢
    refine readsTo_step hloop hs (by rw [List.append_assoc]; exact goesOn_opening t _)
      (List.cons_ne_nil _ _) ?_ fun hu => ih ht hrest hloop hu
    intro children ks hc
    rw [List.append_assoc] at hs
    obtain ⟨ns, u, hrun, hq⟩ := yields_customTag env (element env included depth) t true hs
      (fun _ => ⟨rfl, rfl⟩) (fun h => by cases h) hc
    have hstep := element_tag env included depth parent hd t htl true hs children
    exact ⟨ns, u, hstep.trans hrun, hq⟩
  | @tag b r bs gs t htl hb _ ihb ih =>
    obtain ⟨depth, rfl⟩ := Nat.exists_eq_add_one_of_ne_zero (Nat.ne_zero_of_lt hdepth)
    have hcut : t.opening ++ (tagEnd false ++ (b ++ (t.closing ++ r))) ++ tail =
        (t.opening ++ (tagEnd false ++ (b ++ t.closing))) ++ (r ++ tail) := by
      simp only [List.append_assoc]
    have hs' : Reading bound
        (t.opening ++ (tagEnd false ++ (b ++ (t.closing ++ (r ++ tail))))) s := by
      simpa only [List.append_assoc] using hs
    have hopening : 0 < t.opening.length := Nat.succ_pos _
    simp only [List.length_append] at hdepth
    have hrest : (r ++ tail).length < depth + 1 := by
      rw [List.length_append]
      omega
    have hinner : (b ++ (t.closing ++ (r ++ tail))).length < depth := by
      simp only [List.length_append]
      omega
    have hend : EndsContent (t.closing ++ (r ++ tail)) := Or.inr ⟨t, _, rfl⟩
    rw [hcut] at hs ⊢
    refine readsTo_step hloop hs (by rw [List.append_assoc]; exact goesOn_opening t _)
      (List.cons_ne_nil _ _) ?_ fun hu => ih ht hrest hloop hu
    intro children ks hc
    have hbody : ∀ {h : Head} {u : State σ}, h.name = t.label → bodyContentOf h = .page →
        Reading bound (b ++ (t.closing ++ (r ++ tail))) u →
        Yields (tagBody (element env included depth) h false) u fun cs v =>
          Conveys cs bs ∧ Reading bound (r ++ tail) v := fun hname hcontent hv =>
      yields_tagBody t hname hcontent hv (hb.not_jsp hend)
        (ihb hend hinner (loops_bodyWithin _ t hname) hv)
    obtain ⟨ns, u, hrun, hq⟩ := yields_customTag env (element env included depth) t false hs'
      (fun h => by cases h) (fun _ => hbody) hc
    have hstep := element_tag env included depth parent hd t htl false hs' children
    exact ⟨ns, u, hstep.trans hrun, hq⟩

end NativeContent

end Parsing.Native

open Parsing Parsing.Native

/-- **A core page is native content that says what the page says.** -/
theorem CorePage.nativeContent {libs : List Taglib} {page : CorePage} (hlegal : page.IsLegal)
    (hlibs : ∀ b ∈ page.taglibs, b ∈ libs) :
    NativeContent libs (page.write CoreCode.native) page.gist := by
  induction page with
  | empty => exact .nil
  | inline i rest ih =>
    have hrest := ih hlegal.2 hlibs
    cases i with
    | text t => exact hrest.prepend .none (isTail_text t)
    | expression e => exact .expression hlegal.1 hrest
  | element w body rest ihb ihr =>
    have hbody := ihb hlegal.1 fun b hb => hlibs b (List.mem_append_left _ hb)
    have hrest := ihr hlegal.2 fun b hb => hlibs b (List.mem_append_right _ hb)
    have hnil : IsTail [] := ⟨rfl, by decide⟩
    have hclose := hrest.prepend (.closing w) hnil
    have hopen := (hbody.append hclose rfl).prepend (.opening w) hnil
    rw [List.append_nil, List.append_nil] at hopen
    exact hopen
  | code c rest ih => exact .code c hlegal.1 (ih hlegal.2 hlibs)
  | closedTag t rest ih =>
    exact .closedTag t (hlibs _ List.mem_cons_self)
      (ih hlegal.2 fun b hb => hlibs b (List.mem_cons_of_mem _ hb))
  | tag t body rest ihb ihr =>
    have hsub : ∀ b ∈ body.taglibs ++ rest.taglibs, b ∈ libs := fun b hb =>
      hlibs b (List.mem_cons_of_mem _ hb)
    exact .tag t (hlibs _ List.mem_cons_self)
      (ihb hlegal.2.1 fun b hb => hsub b (List.mem_append_left _ hb))
      (ihr hlegal.2.2 fun b hb => hsub b (List.mem_append_right _ hb))

/-- The directives of a unit bind its libraries, the last one first. -/
theorem run_directives {σ : Type} {env : Env σ} {libs : List Taglib}
    (hhost : Provides env.host libs) (included : Native.Include σ) (depth : Nat) (parent : Head)
    {todo bound : List Taglib} (htodo : ∀ b ∈ todo, b ∈ libs ∧ b.IsWritable)
    (hd : ((todo.reverse ++ bound).map (·.prefixName.letters)).Nodup) {r : Bytes} {s : State σ}
    (hs : Reading bound (todo.flatMap (·.directive) ++ r) s) {fuel : Nat}
    (hfuel : (todo.flatMap (·.directive) ++ r).length < fuel) {children : List Node}
    (hc : Conveys children []) :
    ∃ fuel' children' s',
      sourceWithin (element env included (depth + 1)) parent false fuel children s =
        sourceWithin (element env included (depth + 1)) parent false fuel' children' s' ∧
      r.length < fuel' ∧ Reading (todo.reverse ++ bound) r s' ∧
      Conveys children' [] := by
  induction todo generalizing bound s fuel children with
  | nil => exact ⟨fuel, children, s, rfl, hfuel, hs, hc⟩
  | cons b todo ih =>
    rw [List.reverse_cons, List.append_assoc, List.singleton_append] at hd ⊢
    obtain ⟨fuel, rfl⟩ := Nat.exists_eq_add_one_of_ne_zero (Nat.ne_zero_of_lt hfuel)
    rw [List.flatMap_cons, List.append_assoc] at hs
    have hfree : b.prefixName.letters ∉ bound.map (·.prefixName.letters) := by
      rw [List.map_append, List.map_cons] at hd
      exact (List.nodup_cons.mp (List.nodup_append.mp hd).2.1).1
    obtain ⟨hb, hw⟩ := htodo b List.mem_cons_self
    obtain ⟨ns, u, hrun, hns, hu⟩ :=
      element_directive hhost included depth parent hb hw hfree hs hc
    have hlen : (todo.flatMap (·.directive) ++ r).length < fuel := by
      have hpos : 0 < b.directive.length := Nat.succ_pos _
      rw [List.flatMap_cons, List.append_assoc, List.length_append] at hfuel
      omega
    obtain ⟨fuel', children', s', hrec, hlt, hs', hc'⟩ :=
      ih (fun c hc => htodo c (List.mem_cons_of_mem b hc)) hd hu hlen hns
    refine ⟨fuel', children', s', ?_, hlt, hs', hc'⟩
    rw [loops_sourceWithin _ parent hs (goesOn_tag (by decide) _), bind_ok hrun, hrec]

/-- **The native form of a core page is parsed into a tree that says what the page says.** -/
theorem CorePage.parse_nativeUnit {σ : Type} {libs : List Taglib} {page : CorePage}
    (hlegal : page.IsLegal) (hlibs : ∀ b ∈ page.taglibs, b ∈ libs)
    (hd : (libs.map (·.prefixName.letters)).Nodup) (hw : ∀ b ∈ libs, b.IsWritable) {host : Host σ}
    (hhost : Provides host libs) {r : ParseRequest} (htext : r.text = page.nativeUnit libs)
    (hform : r.form = .native) (hall : r.directivesOnly = false) (hel : r.elIgnored = false)
    (memory : σ) :
    ∃ start children memory', r.parse host memory = (.ok (.mk (r.root start) children), memory') ∧
      Conveys children page.gist := by
  have hactual : r.actualForm = .native := by rw [ParseRequest.actualForm, hform]
  have hstart : Reading [] (libs.flatMap (·.directive) ++ page.write CoreCode.native)
      (r.start memory) := ⟨htext, Nat.zero_add _, rfl, hel⟩
  have hd' : ((libs.reverse ++ [] : List Taglib).map (·.prefixName.letters)).Nodup := by
    rw [List.append_nil, List.map_reverse]
    exact (List.reverse_perm _).nodup_iff.mpr hd
  have hhost' : Provides (r.env host).host libs := hhost
  let parent := r.root (Cursor.ofText r.path r.text).position
  let depth := (r.start memory).cursor.rest.length
  have hdepth : depth = (libs.flatMap (·.directive) ++ page.write CoreCode.native).length := by
    rw [← hstart.rest]
  obtain ⟨fuel, children, s, hdirectives, hfuel, hs, hc⟩ :=
    run_directives hhost' (r.included host) depth parent (fun b hb => ⟨hb, hw b hb⟩) hd' hstart
      (show _ < depth + 1 from hdepth ▸ Nat.lt_succ_self _) Conveys.nil
  rw [List.append_nil] at hs hd'
  have hcontent : NativeContent libs.reverse (page.write CoreCode.native) page.gist :=
    page.nativeContent hlegal fun b hb => List.mem_reverse.mpr (hlibs b hb)
  have hlen : (page.write CoreCode.native ++ []).length < depth + 1 := by
    rw [hdepth, List.append_nil, List.length_append]
    omega
  rw [← List.append_nil (page.write CoreCode.native)] at hs hfuel
  rw [← Nat.one_mul (List.length _)] at hfuel
  obtain ⟨fuel', children', s', hread, hfuel', hs', hc'⟩ :=
    hcontent.run (r.env host) (r.included host) hd' (Or.inl rfl) hlen
      (loops_sourceWithin (Native.element (r.env host) (r.included host) (depth + 1)) parent) hs
      hfuel hc
  obtain ⟨fuel', rfl⟩ := Nat.exists_eq_add_one_of_ne_zero (Nat.ne_zero_of_lt hfuel')
  have hend : sourceWithin (Native.element (r.env host) (r.included host) (depth + 1)) parent false
      (fuel' + 1) children' s' = .ok children' s' := by
    rw [sourceWithin, bind_ok (cursor_eq s'),
      hs'.sound.atEnd_iff.mpr hs'.rest]
    rfl
  have hparse : Native.parse (r.env host) (r.included host) parent false (r.start memory) =
      .ok children' s' := by
    have hno : (r.env host).directivesOnly = false := hall
    rw [Native.parse, bind_ok (cursor_eq _), hno,
      if_neg Bool.false_ne_true]
    exact hdirectives.trans (hread.trans hend)
  refine ⟨(Cursor.ofText r.path r.text).position, children', s'.memory, ?_, hc'⟩
  rw [ParseRequest.parse_native host memory hactual, hparse]
  rfl

/-! ### Both syntaxes -/

namespace CorePage

/-- The request for the native form of a page. -/
def nativeRequest (libs : List Taglib) (page : CorePage) (r : ParseRequest) : ParseRequest :=
  { r with
    text := page.nativeUnit libs, form := .native, directivesOnly := false, elIgnored := false }

/-- The request for the document of a page. -/
def documentRequest (libs : List Taglib) (page : CorePage) (r : ParseRequest) : ParseRequest :=
  { r with
    text := page.documentUnit libs, form := .document, directivesOnly := false, elIgnored := false }

/-- The host knows the libraries, among them all that the page uses, and each has a prefix of its
own. -/
structure IsServed {σ : Type} (page : CorePage) (host : Host σ) (libs : List Taglib) : Prop where
  provides : Provides host libs
  uses : ∀ b ∈ page.taglibs, b ∈ libs
  distinct : (libs.map (·.prefixName.letters)).Nodup

/-- Both forms of the page are parsed, whatever the host remembers, and their trees are equivalent
both ways. -/
def Agrees {σ : Type} (page : CorePage) (host : Host σ) (libs : List Taglib) : Prop :=
  ∀ (r r' : ParseRequest) (m m' : σ), ∃ a b,
    ((page.nativeRequest libs r).parse host m).1 = .ok a ∧
    ((page.documentRequest libs r').parse host m').1 = .ok b ∧
    a.isEquivalent b = .ok true ∧ b.isEquivalent a = .ok true

/-- **Both forms of a core page are parsed, and their trees are equivalent**, if the page has what a
document can hold. -/
theorem equivalent_trees {σ : Type} {libs : List Taglib} {page : CorePage} {host : Host σ}
    (hserved : page.IsServed host libs) (hlegal : page.IsLegal) (hw : ∀ b ∈ libs, b.IsWritable) :
    page.Agrees host libs := by
  intro r r' m m'
  obtain ⟨hhost, hlibs, hd⟩ := hserved
  obtain ⟨p, ns, n, hnative, hns⟩ := page.parse_nativeUnit hlegal hlibs hd hw hhost
    (show (page.nativeRequest libs r).text = _ from rfl) rfl rfl rfl m
  obtain ⟨q, ds, n', hdocument, hds⟩ := page.parse_documentUnit hlegal hlibs hd hw hhost
    (show (page.documentRequest libs r').text = _ from rfl) rfl rfl rfl m'
  refine ⟨_, _, by rw [hnative], by rw [hdocument], ?_, ?_⟩
  · exact Conveys.isEquivalent rfl rfl rfl rfl hns hds
  · exact Conveys.isEquivalent rfl rfl rfl rfl hds hns

/-! ### A page of all parts -/

/-- A library with one tag. -/
def noteLibrary : TagLibrary := { tags := [("note", { name := "note" })] }

/-- A host that knows one library. -/
def noteHost : Host Unit := { library := some fun _ m => (.ok noteLibrary, m) }

/-- The library bound to a prefix, under a uri. -/
def noteTaglib (uri : Bytes) (named : uri ≠ []) : Taglib where
  prefixName := ⟨"n", by decide, by decide⟩
  uri := uri
  library := noteLibrary
  free := by decide
  named := named

theorem provides_noteHost {libs : List Taglib} (h : ∀ b ∈ libs, b.library = noteLibrary) :
    Provides noteHost libs :=
  ⟨_, rfl, fun b hb m => ⟨m, by rw [h b hb]⟩⟩

/-- An invocation of its tag. -/
def noteTag (uri : Bytes) (named : uri ≠ []) (attributes : List (Word × CoreInline))
    (distinct : (attributes.map (·.1.letters)).Nodup)
    (noBinding : Bytes.ofString "xmlns" ∉ attributes.map (·.1.letters)) : CoreTag where
  taglib := noteTaglib uri named
  name := ⟨"note", by decide, by decide⟩
  descriptor := { name := "note" }
  defined := rfl
  takesAny := rfl
  attributes := attributes
  distinct := distinct
  noBinding := noBinding

/-- A total. -/
def totalExpression : CoreExpression := ⟨false, "total", by decide, by decide, by decide⟩

/-- A page with text, an expression, an element, code and a tag around code. -/
def notePage : CorePage :=
  .inline (.text ⟨"Total: ", by decide, by decide⟩) <| .inline (.expression totalExpression) <|
  .element ⟨"p", by decide, by decide⟩
    (.tag (noteTag "urn:n" (by decide)
        [(⟨"value", by decide, by decide⟩, .expression totalExpression)] (by decide) (by decide))
      (.code ⟨.expression, rfl, "1 > 0", by decide, by decide⟩ .empty) .empty) .empty

theorem equivalent_trees_note :
    Agrees notePage noteHost [noteTaglib "urn:n" (by decide)] := by
  refine equivalent_trees ⟨provides_noteHost ?_, ?_, by decide⟩ ?_ ?_
  · rintro b hb
    rw [List.mem_singleton.mp hb]
    rfl
  · simp [notePage, taglibs, noteTag]
  · refine ⟨trivial, ⟨rfl, by decide⟩, ⟨?_, ⟨rfl, trivial⟩, trivial⟩, trivial⟩
    intro a ha
    rw [List.mem_singleton.mp ha]
    exact ⟨rfl, by decide⟩
  · intro b hb
    rw [List.mem_singleton.mp hb]
    exact ⟨by decide, by decide, by decide⟩

/-! ### What the syntaxes cannot hold -/

/-- Whether both forms of the page are parsed into equivalent trees by the host of one library. -/
def agreesOnce (page : CorePage) (libs : List Taglib) : Bool :=
  let r : ParseRequest := { path := "a.jsp", text := [] }
  match ((page.nativeRequest libs r).parse noteHost ()).1,
    ((page.documentRequest libs r).parse noteHost ()).1 with
  | .ok a, .ok b => (a.isEquivalent b).toOption == some true
  | _, _ => false

theorem Agrees.agreesOnce {page : CorePage} {libs : List Taglib} (h : page.Agrees noteHost libs) :
    page.agreesOnce libs = true := by
  obtain ⟨a, b, ha, hb, hab, -⟩ :=
    h { path := "a.jsp", text := [] } { path := "a.jsp", text := [] } () ()
  simp only [CorePage.agreesOnce, ha, hb, hab]
  rfl

/-- The page is served by the host of one library, but has no equivalent trees. -/
def Differs (page : CorePage) (libs : List Taglib) : Prop :=
  page.IsServed noteHost libs ∧ ¬ page.Agrees noteHost libs

theorem differs_of_agreesOnce {page : CorePage} {libs : List Taglib}
    (hserved : page.IsServed noteHost libs) (h : page.agreesOnce libs = false) :
    page.Differs libs := by
  refine ⟨hserved, fun hagrees => ?_⟩
  rw [hagrees.agreesOnce] at h
  cases h

theorem isServed_nil {page : CorePage} (h : page.taglibs = []) : page.IsServed noteHost [] :=
  ⟨provides_noteHost (by simp), by simp [h], by simp⟩

/-- Code with a character that no document has. -/
def controlCode : CorePage := .code ⟨.scriptlet, rfl, [1], by decide, by decide⟩ .empty

/-- An expression with a character that no document has. -/
def controlExpression : CorePage :=
  .inline (.expression ⟨false, "\x60\x01\x60", by decide, by decide, by decide⟩) .empty

/-- An expression with a line end that a document changes, and with it where a comment ends. -/
def lineExpression : CorePage :=
  .inline (.expression ⟨false, "a // b\rc", by decide, by decide, by decide⟩) .empty

/-- A page of one tag of a library that is known under a uri. -/
def tagPage (uri : Bytes) (named : uri ≠ []) : CorePage :=
  .closedTag (noteTag uri named [] (by decide) (by decide)) .empty

/-- The page of one tag has no equivalent trees. -/
def TagDiffers (uri : Bytes) (named : uri ≠ []) : Prop :=
  Differs (tagPage uri named) [noteTaglib uri named]

theorem isServed_tagPage (uri : Bytes) (named : uri ≠ []) :
    (tagPage uri named).IsServed noteHost [noteTaglib uri named] := by
  refine ⟨provides_noteHost ?_, ?_, by simp⟩
  · intro b hb
    rw [List.mem_singleton.mp hb]
    rfl
  · simp [tagPage, taglibs, noteTag]

/-- **None of the restrictions on what a page holds can be dropped**: characters of documents in
code, expressions and uris, no changed line ends in expressions, no library of the standard
namespace, and no references to quotes in a uri, which a directive replaces. -/
theorem not_equivalent_trees :
    controlCode.Differs [] ∧ controlExpression.Differs [] ∧ lineExpression.Differs [] ∧
      TagDiffers [1] (by decide) ∧ TagDiffers PageSyntax.standardNamespace (by decide) ∧
      TagDiffers "&apos;" (by decide) ∧ TagDiffers "&quot;" (by decide) := by
  refine ⟨?_, ?_, ?_, ?_, ?_, ?_, ?_⟩
  · exact differs_of_agreesOnce (isServed_nil rfl) (by decide +kernel)
  · exact differs_of_agreesOnce (isServed_nil rfl) (by decide +kernel)
  · exact differs_of_agreesOnce (isServed_nil rfl) (by decide +kernel)
  · exact differs_of_agreesOnce (isServed_tagPage _ _) (by decide +kernel)
  · exact differs_of_agreesOnce (isServed_tagPage _ _) (by decide +kernel)
  · exact differs_of_agreesOnce (isServed_tagPage _ _) (by decide +kernel)
  · exact differs_of_agreesOnce (isServed_tagPage _ _) (by decide +kernel)

end CorePage

end ServerPages
