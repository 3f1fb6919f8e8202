import ServerPages.Parsing.Construct
import ServerPages.Proofs.Bytes
import ServerPages.Proofs.CorePage
import ServerPages.Proofs.Steps

/-!
# Parts of core pages

What both syntaxes do alike with the parts of a core page: the scanner of expressions takes text
and expressions apart where they were put together, an attribute of a tag keeps the value it was
written with, and the nodes of a text say what the text says.

## Main results

* `CoreExpression.ofText_source`: an expression that is written is accepted.
* `Parsing.addAttribute_core`: an attribute of a tag says what it was written to say.
* `Parsing.textNodes_run`: the nodes of a run of text and expressions say what the run says.
-/

namespace ServerPages

/-! ### Names -/

/-- Text of ASCII characters is its bytes. -/
theorem Utf8.encodeAll_ascii {s : Bytes} (hs : ∀ b ∈ s, b.toNat < 0x80) :
    encodeAll (s.map UInt8.toNat) = s := by
  induction s with
  | nil => rfl
  | cons b s ih =>
    rw [List.map_cons, encodeAll_cons, encode_one (hs b List.mem_cons_self),
      ih fun c hc => hs c (List.mem_cons_of_mem b hc)]
    simp

namespace Bytes

theorem toNat_of_isAlpha {b : UInt8} (hb : isAlpha b = true) :
    97 ≤ b.toNat ∧ b.toNat ≤ 122 ∨ 65 ≤ b.toNat ∧ b.toNat ≤ 90 := by
  simp only [isAlpha, isLower, isUpper, Bool.or_eq_true, Bool.and_eq_true, decide_eq_true_eq,
    UInt8.le_iff_toNat_le, UInt8.reduceToNat] at hb
  exact hb

theorem ne_of_isAlpha {b c : UInt8} (hb : isAlpha b = true) (hc : isAlpha c = false) : b ≠ c := by
  rintro rfl
  exact Bool.false_ne_true (hc.symm.trans hb)

theorem isBlankByte_of_isAlpha {b : UInt8} (hb : isAlpha b = true) : isBlankByte b = false := by
  rw [Bool.eq_false_iff]
  intro h
  rcases isBlankByte_iff.mp h with rfl | rfl | rfl | rfl <;> cases hb

end Bytes

namespace Word

variable (w : Word)

/-- A byte that is no letter does not stand in a name. -/
theorem not_mem {b : UInt8} (hb : Bytes.isAlpha b = false) : b ∉ w.letters := fun hmem => by
  rw [w.alpha b hmem] at hb
  cases hb

/-- A byte of a name is a name byte of both syntaxes. -/
theorem isNameByte {b : UInt8} (hb : b ∈ w.letters) :
    Cursor.isNameByte b = true ∧ Markup.isNameByte b = true := by
  have h := w.alpha b hb
  constructor
  · simp [Cursor.isNameByte, h]
  · simp [Markup.isNameByte, h]

/-- A name can be written in a document. -/
theorem isLegal : Markup.isLegal w.letters = true := by
  refine Markup.isLegal_iff.mpr ⟨w.letters.map UInt8.toNat, ?_, ?_⟩
  · intro c hc
    obtain ⟨b, hb, rfl⟩ := List.mem_map.mp hc
    have hrange := Bytes.toNat_of_isAlpha (w.alpha b hb)
    simp only [Markup.isDocumentChar, Bool.or_eq_true, Bool.and_eq_true, beq_iff_eq,
      decide_eq_true_eq]
    omega
  · refine (Utf8.encodeAll_ascii fun b hb => ?_).symm
    have hrange := Bytes.toNat_of_isAlpha (w.alpha b hb)
    omega

/-- A name is a letter and more letters. -/
theorem exists_cons : ∃ b s, w.letters = b :: s ∧ Bytes.isAlpha b = true := by
  obtain ⟨b, s, hw⟩ := List.exists_cons_of_ne_nil w.nonempty
  exact ⟨b, s, hw, w.alpha b (hw ▸ List.mem_cons_self)⟩

end Word

/-! ### Scanning expressions -/

namespace Expression

/-- A byte that opens and escapes nothing does not matter to whether there is an expression. -/
theorem contains_cons {b : UInt8} (hb : b ≠ 36 ∧ b ≠ 35 ∧ b ≠ 92) (s : Bytes) :
    contains (b :: s) = contains s := by
  rcases s with - | ⟨c, - | ⟨d, s⟩⟩
  · rfl
  · simp [contains, isOpener, hb]
  · rw [contains]
    simp [isOpener, hb]

theorem contains_append {t : Bytes} (ht : t.Lacks "$#\\") (s : Bytes) :
    contains (t ++ s) = contains s := by
  induction t with
  | nil => rfl
  | cons b t ih =>
    have hb : b ≠ 36 ∧ b ≠ 35 ∧ b ≠ 92 :=
      ⟨ht.head (by decide), ht.head (by decide), ht.head (by decide)⟩
    rw [List.cons_append, contains_cons hb, ih ht.tail]

/-- Text does not start with the opener of an expression. -/
theorem isOpener_eq_false {b : UInt8} {s : Bytes} (h : Bytes.Lacks (b :: s) "$#\\") (r : Bytes) :
    isOpener (b :: (s ++ r)) = false := by
  have h36 : b ≠ 36 := h.head (by decide)
  have h35 : b ≠ 35 := h.head (by decide)
  rcases s ++ r with - | ⟨c, u⟩ <;> simp [isOpener, h36, h35]

theorem unescape_eq_self {s : Bytes} (hs : (92 : UInt8) ∉ s) : unescape s = s := by
  induction s with
  | nil => rfl
  | cons b s ih =>
    have hb : (b == 92) = false := by
      rw [beq_eq_false_iff_ne]
      rintro rfl
      exact hs List.mem_cons_self
    rw [unescape, hb, ih fun hmem => hs (List.mem_cons_of_mem b hmem)]
    rfl

/-- A body without braces and strings runs up to the brace that closes it. -/
theorem closing_body {body : Bytes} (h : body.Lacks "\x7b\x7d\"'") (r : Bytes) :
    closing 1 none (body ++ 125 :: r) = some (body.length + 1) := by
  induction body with
  | nil => simp [closing]
  | cons b body ih =>
    have hne : b ≠ 39 ∧ b ≠ 34 ∧ b ≠ 123 ∧ b ≠ 125 :=
      ⟨h.head (by decide), h.head (by decide), h.head (by decide), h.head (by decide)⟩
    have hbody := ih h.tail
    rw [List.cons_append, closing]
    simp [hne, hbody]

/-- Bytes that are skipped only move the place. -/
theorem scanFrom_skip (offset k : Nat) (lit : Pending) (s : Bytes) :
    scanFrom offset k lit s = scanFrom (offset + min k s.length) 0 lit (s.drop k) := by
  induction s generalizing offset k with
  | nil => cases k <;> rfl
  | cons b s ih =>
    cases k with
    | zero => simp
    | succ k =>
      rw [scanFrom, ih, List.drop_succ_cons, List.length_cons]
      congr 1
      omega

theorem isExpression_segmentOf (text : Bytes) (offset : Nat) :
    (segmentOf text offset).isExpression = true := by
  rw [segmentOf, Segment.isExpression]
  split <;> rfl

end Expression

namespace CoreExpression

variable (e : CoreExpression)

/-- The mark that opens the expression. -/
def mark : UInt8 := if e.deferred then 35 else 36

theorem source_eq : e.source = e.mark :: 123 :: (e.body ++ [125]) := by
  rw [source, mark]
  split <;> rfl

theorem mark_cases : e.mark = 36 ∨ e.mark = 35 := by
  rw [mark]
  split <;> simp

/-- No markup of a document stands in an expression that may be written in one. -/
theorem lacks_source {e : CoreExpression} (he : (CoreInline.expression e).IsLegal) :
    e.source.Lacks "<&\"\r" := by
  intro b hb hmem
  rw [e.source_eq] at hmem
  have hmark : ∀ b ∈ Bytes.ofString "<&\"\r", b ≠ 36 ∧ b ≠ 35 ∧ b ≠ 123 ∧ b ≠ 125 := by decide
  have hbody : b ∉ e.body := by
    by_cases h13 : b = 13
    · rw [h13]
      exact he.2
    · have hsub : ∀ b ∈ Bytes.ofString "<&\"\r", b ≠ 13 →
          b ∈ Bytes.ofString "<&\x7b\x7d\"'\\" := by decide
      exact e.plain b (hsub b hb h13)
  obtain ⟨h36, h35, h123, h125⟩ := hmark b hb
  rcases e.mark_cases with h | h <;> simp_all

theorem isOpener_source (r : Bytes) : Expression.isOpener (e.source ++ r) = true := by
  rw [source_eq]
  rcases e.mark_cases with h | h <;> simp [Expression.isOpener, h]

theorem length_source : e.source.length = e.body.length + 3 := by
  rw [source_eq]
  simp

theorem length?_source (r : Bytes) :
    Expression.length? (e.source ++ r) = some e.source.length := by
  have hbody := Expression.closing_body (e.plain.mono (by decide)) r
  rw [length_source, source_eq]
  simp only [List.cons_append, Expression.length?, List.append_assoc, List.nil_append]
  rw [Expression.closing]
  simp [hbody]

theorem contains_source (r : Bytes) : Expression.contains (e.source ++ r) = true := by
  have hopen := e.isOpener_source r
  rw [source_eq] at hopen ⊢
  have hmark : (e.mark == 92) = false := by
    rcases e.mark_cases with h | h <;> rw [h] <;> rfl
  obtain ⟨b, s, hbody⟩ := List.exists_cons_of_ne_nil
    (List.append_ne_nil_of_right_ne_nil e.body (List.cons_ne_nil 125 []))
  rw [hbody] at hopen ⊢
  simp only [List.cons_append] at hopen ⊢
  rw [Expression.contains, hmark, hopen]
  rfl

/-- Scanning an expression gives its segment and goes on after it. -/
theorem scanFrom_source (offset : Nat) (lit : Expression.Pending) (r : Bytes) :
    Expression.scanFrom offset 0 lit (e.source ++ r) =
      (Expression.scanFrom (offset + e.source.length) 0 none r).map fun segs =>
        lit.segments ++ Expression.segmentOf e.source offset :: segs := by
  have hopen := e.isOpener_source r
  have hlen := e.length?_source r
  have htake : (e.source ++ r).take e.source.length = e.source := List.take_left
  obtain ⟨b, s, hs⟩ : ∃ b s, e.source = b :: s := ⟨_, _, e.source_eq⟩
  have hb : (b == 92) = false := by
    have : b = e.mark := by
      rw [e.source_eq] at hs
      exact (List.cons.inj hs).1.symm
    rcases e.mark_cases with h | h <;> rw [this, h] <;> rfl
  rw [hs] at hopen hlen htake ⊢
  rw [List.cons_append] at hopen hlen htake ⊢
  rw [Expression.scanFrom, hb, hopen, hlen]
  dsimp only
  rw [htake]
  simp only [Bool.false_and, Bool.false_eq_true, if_false, if_true, List.length_cons,
    Nat.add_sub_cancel]
  rw [Expression.scanFrom_skip, List.drop_left, List.length_append,
    Nat.min_eq_left (Nat.le_add_right _ _), Nat.add_right_comm, Nat.add_assoc]

theorem body_segmentOf (offset : Nat) :
    (Expression.segmentOf e.source offset).body = e.body := by
  have hdrop : e.source.drop 2 = e.body ++ [125] := by
    rw [source_eq]
    rfl
  rw [Expression.Segment.body, Expression.segmentOf, hdrop, List.dropLast_concat]

/-- **An expression that is written is accepted**, if its body is. -/
theorem ofText_source : ∃ x, Expression.ofText e.source = .ok x := by
  have hscan : Expression.scan e.source = .ok [Expression.segmentOf e.source 0] := by
    have h := e.scanFrom_source 0 none []
    rw [List.append_nil] at h
    exact h
  have hcheck := e.checked
  rcases hbody : Expression.check e.body with r | refs
  · rw [hbody] at hcheck
    cases hcheck
  refine ⟨⟨e.source, [Expression.segmentOf e.source 0], Expression.firsts (refs ++ [])⟩, ?_⟩
  rw [Expression.ofText, hscan]
  simp only [Expression.checkSegments, Expression.isExpression_segmentOf, e.body_segmentOf, hbody,
    bind, Except.bind, Except.map, if_true, pure, Except.pure]

end CoreExpression

/-! ### Text and expressions -/

namespace CoreText

variable (t : CoreText)

theorem isValid : Utf8.isValid t.bytes = true := Markup.isValid_of_isLegal t.legal

theorem contains_append (r : Bytes) :
    Expression.contains (t.bytes ++ r) = Expression.contains r :=
  Expression.contains_append (t.plain.mono (by decide)) r

end CoreText

namespace Expression

/-- The text of the literal being read. -/
def Pending.text (p : Pending) : Bytes := (p.map fun q => q.2.reverse).getD []

/-- Scanning text adds it to the literal that was started. -/
theorem scanFrom_started {s : Bytes} (hs : s.Lacks "$#\\") (offset start : Nat) (read r : Bytes) :
    scanFrom offset 0 (some (start, read)) (s ++ r) =
      scanFrom (offset + s.length) 0 (some (start, s.reverse ++ read)) r := by
  induction s generalizing offset read with
  | nil => rfl
  | cons b s ih =>
    have hb : (b == 92) = false := beq_eq_false_iff_ne.mpr (hs.head (by decide))
    have hopen : isOpener (b :: (s ++ r)) = false := isOpener_eq_false hs _
    rw [List.cons_append, scanFrom, hb, hopen]
    simp only [Bool.false_and, Bool.false_eq_true, if_false, Pending.add]
    rw [ih hs.tail]
    simp only [List.reverse_cons, List.append_assoc, List.length_cons, List.reverse_nil,
      List.nil_append]
    congr 1
    omega

/-- Scanning text adds it to the literal being read. -/
theorem scanFrom_append {s : Bytes} (hs : s.Lacks "$#\\") (offset : Nat) (lit : Pending)
    (r : Bytes) :
    ∃ lit' : Pending, lit'.text = lit.text ++ s ∧
      scanFrom offset 0 lit (s ++ r) = scanFrom (offset + s.length) 0 lit' r := by
  rcases lit with - | ⟨start, read⟩
  · rcases s with - | ⟨b, s⟩
    · exact ⟨none, rfl, rfl⟩
    have hb : (b == 92) = false := beq_eq_false_iff_ne.mpr (hs.head (by decide))
    refine ⟨some (offset, s.reverse ++ [b]), by simp [Pending.text], ?_⟩
    rw [List.cons_append, scanFrom, hb, isOpener_eq_false hs]
    simp only [Bool.false_and, Bool.false_eq_true, if_false, Pending.add]
    rw [scanFrom_started hs.tail]
    simp only [List.reverse_cons, List.length_cons, List.reverse_nil, List.nil_append]
    congr 1
    omega
  · refine ⟨some (start, s.reverse ++ read), by simp [Pending.text], ?_⟩
    exact scanFrom_started hs offset start read r

end Expression

namespace CoreInline

/-- Expressions and text that may be written in a document have only characters of a document. -/
theorem isLegal_source {i : CoreInline} (h : i.IsLegal) : Markup.isLegal i.source = true := by
  cases i with
  | text t => exact t.legal
  | expression e =>
    have hopen : Markup.isLegal (if e.deferred then "#\x7b" else "$\x7b" : Bytes) = true := by
      split <;> rfl
    exact Markup.isLegal_append (Markup.isLegal_append hopen h.1) rfl

theorem isValid_source {i : CoreInline} (h : i.IsLegal) : Utf8.isValid i.source = true :=
  Markup.isValid_of_isLegal (isLegal_source h)

end CoreInline

/-! ### Libraries -/

namespace Taglib

/-- What is kept for a prefix is found by it, if no other library has the prefix. -/
theorem lookup_map {β : Type} (f : Taglib → β) {libs : List Taglib}
    (hd : (libs.map (·.prefixName.letters)).Nodup) {b : Taglib} (hb : b ∈ libs) :
    (libs.map fun c => (c.prefixName.letters, f c)).lookup b.prefixName.letters = some (f b) := by
  induction libs with
  | nil => cases hb
  | cons c libs ih =>
    rw [List.map_cons, List.nodup_cons] at hd
    rcases List.mem_cons.mp hb with rfl | hb
    · simp
    · have hne : (b.prefixName.letters == c.prefixName.letters) = false := by
        rw [beq_eq_false_iff_ne]
        intro heq
        exact hd.1 (heq ▸ List.mem_map_of_mem hb)
      rw [List.map_cons, List.lookup_cons, hne]
      exact ih hd.2 hb

theorem lookup_map_eq_none {β : Type} (f : Taglib → β) {libs : List Taglib} {name : Bytes}
    (h : name ∉ libs.map (·.prefixName.letters)) :
    (libs.map fun c => (c.prefixName.letters, f c)).lookup name = none := by
  induction libs with
  | nil => rfl
  | cons c libs ih =>
    rw [List.map_cons, List.mem_cons, not_or] at h
    rw [List.map_cons, List.lookup_cons, beq_eq_false_iff_ne.mpr h.1]
    exact ih h.2

end Taglib

namespace Parsing

variable {σ : Type}

/-- The host knows the libraries. -/
def Provides (host : Host σ) (libs : List Taglib) : Prop :=
  ∃ question, host.library = some question ∧
    ∀ b ∈ libs, ∀ m, ∃ m', question b.uri m = (.ok b.library, m')

/-- The host answers the question for a library that it knows. -/
theorem Provides.ask {host : Host σ} {libs : List Taglib} (h : Provides host libs) {b : Taglib}
    (hb : b ∈ libs) :
    ∃ question, host.library = some question ∧ ∀ s : State σ, ∃ m',
      Parsing.ask (question b.uri) s = .ok (.ok b.library) { s with memory := m' } := by
  obtain ⟨question, hlibrary, hanswer⟩ := h
  refine ⟨question, hlibrary, fun s => ?_⟩
  obtain ⟨m', hm'⟩ := hanswer b hb s.memory
  exact ⟨m', by rw [Parsing.ask, run_modifyGet, hm']⟩

/-! ### Attributes -/

/-- The head `h'` is `h` with more attributes. -/
structure Gains (h : Head) (as : List (Word × CoreInline)) (h' : Head) : Prop where
  kind : h'.kind = h.kind
  name : h'.name = h.name
  tag : h'.tag = h.tag
  said : h'.attributes.map (·.said) = h.attributes.map (·.said) ++ as.map saidAttribute

theorem Gains.refl (h : Head) : Gains h [] h := ⟨rfl, rfl, rfl, (List.append_nil _).symm⟩

theorem Gains.trans {h h' h'' : Head} {as bs : List (Word × CoreInline)} (ha : Gains h as h')
    (hb : Gains h' bs h'') : Gains h (as ++ bs) h'' where
  kind := hb.kind.trans ha.kind
  name := hb.name.trans ha.name
  tag := hb.tag.trans ha.tag
  said := by rw [hb.said, ha.said, List.map_append, List.append_assoc]

theorem Gains.names {h h' : Head} {as : List (Word × CoreInline)} (ha : Gains h as h') :
    h'.attributes.map (·.name) = h.attributes.map (·.name) ++ as.map (·.1.letters) := by
  have hnames := congrArg (List.map Prod.fst) ha.said
  rw [List.map_append, List.map_map, List.map_map, List.map_map] at hnames
  exact hnames

/-- **An attribute of a tag says what it was written to say.** -/
theorem addAttribute_core (functionUri : Bytes → Bytes) (uriOf : Option (Bytes → Bytes)) {h : Head}
    (hk : h.kind = .customTag) (a : Word × CoreInline)
    (hnew : a.1.letters ∉ h.attributes.map (·.name)) (p : Position) {s : State σ}
    (hel : s.elIgnored = false) :
    Yields (addAttribute functionUri uriOf h a.1.letters a.2.source false p false) s fun h' t =>
      t = s ∧ Gains h [a] h' := by
  have hname : (a.1.letters == []) = false := by
    rw [beq_eq_false_iff_ne]
    exact a.1.nonempty
  have hhas : h.hasAttr a.1.letters = false := by
    rw [Head.hasAttr, Head.attr?, Option.isSome_eq_false_iff, Option.isNone_iff_eq_none,
      List.find?_eq_none]
    intro x hx heq
    exact hnew (by rw [← eq_of_beq heq]; exact List.mem_map_of_mem hx)
  have hkind : h.kind.isDirective = false := by rw [hk]; rfl
  -- the value as `attributeOf` keeps it
  have hvalue : ∀ b : Attribute, b.kind = .literal →
      Yields (attributeOf functionUri h b a.2.source false false) s fun b' t =>
        t = s ∧ b'.name = b.name ∧ b'.kind = a.2.kind ∧ b'.value = a.2.source := by
    intro b hb
    rw [attributeOf]
    refine Yields.after rfl ?_
    rw [hel, hkind]
    rcases a with ⟨w, t | e⟩
    · have hno : Expression.contains t.bytes = false := by
        have := t.contains_append []
        rwa [List.append_nil] at this
      simp only [CoreInline.source, hno, Bool.and_false, Bool.false_eq_true, if_false,
        Bool.not_false, if_true]
      rw [Expression.unescape_eq_self (t.plain 92 (by decide))]
      exact Yields.pure ⟨rfl, rfl, hb, rfl⟩
    · have hyes : Expression.contains e.source = true := by
        have := e.contains_source []
        rwa [List.append_nil] at this
      obtain ⟨x, hx⟩ := e.ofText_source
      simp only [CoreInline.source, hyes, hx, Bool.and_self, Bool.false_eq_true, if_false,
        Bool.not_false, if_true]
      exact Yields.pure ⟨rfl, rfl, rfl, rfl⟩
  rw [addAttribute, hname, hhas]
  simp only [Bool.false_eq_true, if_false]
  refine (hvalue _ rfl).bind ?_
  rintro b t ⟨rfl, hbname, hbkind, hbvalue⟩
  refine Yields.pure ⟨rfl, ?_⟩
  have hnamed : (h.kind != .namedAttribute) = true := by rw [hk]; rfl
  rw [applyToNamed, if_pos hnamed]
  refine ⟨rfl, rfl, rfl, ?_⟩
  rw [List.map_append, List.map_singleton, Attribute.said, hbname, hbkind, hbvalue]
  rfl

/-! ### Tags -/

/-- The head of a tag before its attributes are read. -/
structure IsHeadOf (t : CoreTag) (h : Head) : Prop where
  kind : h.kind = .customTag
  name : h.name = t.label
  attributes : h.attributes = []
  tag : h.tag = some {
    prefixName := t.taglib.prefixName.letters, localName := t.name.letters, uri := t.taglib.uri,
    descriptor := some t.descriptor }

theorem yields_tagHead (env : Env σ) (t : CoreTag) (p : Position) (s : State σ) :
    Yields (tagHead env t.taglib.library t.taglib.uri t.taglib.prefixName.letters t.name.letters p
      false) s fun h u => u = s ∧ IsHeadOf t h := by
  rw [tagHead, tagDescriptor, t.defined]
  exact Yields.after rfl (Yields.pure ⟨rfl, rfl, rfl, rfl, rfl⟩)

/-- A head that is marked as closed by its own start tag, or as not closed. -/
def closing (closed : Bool) (h : Head) : Head :=
  { h with tag := h.tag.map fun g => { g with selfClosed := closed } }

namespace IsHeadOf

variable {t : CoreTag} {h h' : Head}

/-- A tag with its attributes takes any content. -/
theorem bodyContentOf (hh : IsHeadOf t h) (hgain : Gains h t.attributes h') (closed : Bool) :
    Parsing.bodyContentOf (closing closed h') = .page := by
  rw [Parsing.bodyContentOf, closing]
  dsimp only
  rw [hgain.tag, hh.tag]
  exact t.takesAny

/-- **A tag with its attributes says what was written**, with what its content says. -/
theorem conveys (hh : IsHeadOf t h) (hgain : Gains h t.attributes h') (closed : Bool)
    {cs : List Node} {bs : List Gist} (hcs : Conveys cs bs) :
    Conveys [Node.mk (closing closed h') cs] [t.gist bs] := by
  have hgist : t.gist bs = Head.tagGist (closing closed h')
      { prefixName := t.taglib.prefixName.letters, localName := t.name.letters,
        uri := t.taglib.uri, descriptor := some t.descriptor, selfClosed := closed } bs := by
    rw [Head.tagGist, CoreTag.gist, closing, hgain.said, hh.attributes]
    rfl
  rw [hgist]
  refine Conveys.tag ⟨hgain.kind.trans hh.kind, ?_, ?_⟩ hcs Conveys.nil
  · rw [closing, hgain.tag, hh.tag]
    rfl
  · show (h'.attributes.map (·.name)).Nodup
    rw [hgain.names, hh.attributes]
    exact t.distinct

end IsHeadOf

/-! ### Text -/

/-- An expression is a node of its own. -/
theorem elNode_source (uriOf : Bytes → Bytes) {e : CoreExpression}
    (he : (CoreInline.expression e).IsLegal) (p : Position) (s : State σ) :
    Yields (elNode uriOf e.source p false) s fun n t =>
      t = s ∧ Conveys [n] (CoreInline.expression e).gist := by
  obtain ⟨x, hx⟩ := e.ofText_source
  rw [elNode, hx]
  refine Yields.pure ⟨rfl, ?_⟩
  exact Conveys.code ⟨rfl, rfl, CoreInline.isValid_source he⟩ Conveys.nil

theorem conveys_textNode {s : Bytes} (hs : Utf8.isValid s = true) (p : Position)
    (scriptless : Bool) : Conveys [textNode s p scriptless] (Gist.ofText s) := by
  have h := Conveys.text (h := { kind := .text, start := p, text := s, inScriptless := scriptless })
    ⟨rfl, rfl, hs⟩ Conveys.nil
  rwa [List.append_nil] at h

/-- The segments of a run of text and expressions, after the literal being read, give nodes that
say what the run says. -/
theorem segmentNodes_run (uriOf : Bytes → Bytes) (s : Bytes) (p : Position)
    {run : List CoreInline} (hrun : ∀ i ∈ run, i.IsLegal) (offset : Nat)
    (lit : Expression.Pending) (hlit : Utf8.isValid lit.text = true) :
    ∃ segs, Expression.scanFrom offset 0 lit (run.flatMap (·.source)) = .ok segs ∧
      ∀ {siblings : List Node} {gs : List Gist}, Conveys siblings gs → ∀ st : State σ,
        Yields (segmentNodes uriOf s p false siblings segs) st fun ns t =>
          t = st ∧ Conveys ns (gs ++ (Gist.ofText lit.text ++ run.flatMap (·.gist))) := by
  -- the literal that was read makes a node before the other segments
  have hpending : ∀ {lit : Expression.Pending}, Utf8.isValid lit.text = true →
      ∀ {segs : List Expression.Segment} {hs : List Gist},
      (∀ {siblings : List Node} {gs : List Gist}, Conveys siblings gs → ∀ st : State σ,
        Yields (segmentNodes uriOf s p false siblings segs) st fun ns t =>
          t = st ∧ Conveys ns (gs ++ hs)) →
      ∀ {siblings : List Node} {gs : List Gist}, Conveys siblings gs → ∀ st : State σ,
        Yields (segmentNodes uriOf s p false siblings (lit.segments ++ segs)) st fun ns t =>
          t = st ∧ Conveys ns (gs ++ (Gist.ofText lit.text ++ hs)) := by
    intro lit hlit segs hs hsegs siblings gs hsib st
    rcases lit with - | ⟨start, read⟩
    · exact hsegs hsib st
    · rw [← List.append_assoc]
      exact hsegs (hsib.push (conveys_textNode hlit _ _)) st
  induction run generalizing offset lit with
  | nil =>
    refine ⟨lit.segments, rfl, fun hsib st => ?_⟩
    have hnone : ∀ {siblings : List Node} {gs : List Gist}, Conveys siblings gs →
        ∀ st : State σ, Yields (segmentNodes uriOf s p false siblings []) st fun ns t =>
          t = st ∧ Conveys ns (gs ++ []) := fun hsib st =>
      ⟨_, st, rfl, rfl, by rwa [List.append_nil]⟩
    have h := hpending hlit hnone hsib st
    rwa [List.append_nil] at h
  | cons i run ih =>
    have hrest := fun j hj => hrun j (List.mem_cons_of_mem i hj)
    cases i with
    | text t =>
      obtain ⟨lit', htext, hscan⟩ := Expression.scanFrom_append
        (t.plain.mono (by decide)) offset lit (run.flatMap (·.source))
      obtain ⟨segs, hsegs, hnodes⟩ := ih hrest (offset + t.bytes.length) lit'
        (by rw [htext]; exact Utf8.isValid_append hlit t.isValid)
      refine ⟨segs, ?_, ?_⟩
      · rw [List.flatMap_cons]
        exact hscan.trans hsegs
      · rw [htext, Gist.ofText_append, List.append_assoc] at hnodes
        exact hnodes
    | expression e =>
      obtain ⟨segs, hsegs, hnodes⟩ := ih hrest (offset + e.source.length) none rfl
      refine ⟨lit.segments ++ Expression.segmentOf e.source offset :: segs, ?_, ?_⟩
      · rw [List.flatMap_cons]
        refine (e.scanFrom_source offset lit _).trans ?_
        rw [hsegs]
        rfl
      · refine hpending hlit fun {siblings gs} hsib st => ?_
        rw [segmentNodes, Expression.isExpression_segmentOf, if_pos rfl]
        refine (elNode_source uriOf (hrun _ List.mem_cons_self) _ st).bind ?_
        rintro n t ⟨rfl, hn⟩
        have h := hnodes (hsib.push hn) t
        rwa [List.append_assoc] at h

/-- A run without expressions says what its text says. -/
theorem gist_of_not_contains {run : List CoreInline}
    (h : Expression.contains (run.flatMap (·.source)) = false) :
    run.flatMap (·.gist) = Gist.ofText (run.flatMap (·.source)) := by
  induction run with
  | nil => rfl
  | cons i run ih =>
    rw [List.flatMap_cons] at h ⊢
    cases i with
    | text t =>
      rw [CoreInline.source, t.contains_append] at h
      rw [ih h, List.flatMap_cons, Gist.ofText_append]
      rfl
    | expression e =>
      rw [CoreInline.source, e.contains_source] at h
      cases h

/-- The node of a text without expressions says what the text says. -/
theorem textNodes_plain (uriOf : Bytes → Bytes) {v : Bytes} (hv : Utf8.isValid v = true)
    (hc : Expression.contains v = false) (hback : 92 ∉ v) {siblings : List Node} {gs : List Gist}
    (hsib : Conveys siblings gs) (p : Position) (allowEl : Bool) (s : State σ) :
    Yields (textNodes uriOf siblings v p false allowEl) s fun ns t =>
      t = s ∧ Conveys ns (gs ++ Gist.ofText v) := by
  have hpush : Conveys (Node.push siblings (textNode v p false)) (gs ++ Gist.ofText v) :=
    hsib.push (conveys_textNode hv p false)
  rw [textNodes]
  by_cases hnil : v = []
  · rw [hnil, if_pos (BEq.rfl (a := ([] : Bytes)))]
    refine Yields.pure ⟨rfl, ?_⟩
    simpa [Gist.ofText, Bytes.solid] using hsib
  rw [if_neg (by simpa using hnil)]
  refine Yields.after rfl ?_
  by_cases hel : (allowEl && !s.elIgnored) = true
  · simp only [hel, hc, Bool.not_true, Bool.not_false, Bool.false_eq_true, if_false, if_true]
    rw [Expression.unescape_eq_self hback]
    exact Yields.pure ⟨rfl, hpush⟩
  · simp only [hel, Bool.not_false, if_true]
    exact Yields.pure ⟨rfl, hpush⟩

/-- **The nodes of a run of text and expressions say what the run says.** -/
theorem textNodes_run (uriOf : Bytes → Bytes) {run : List CoreInline}
    (hrun : ∀ i ∈ run, i.IsLegal) {siblings : List Node} {gs : List Gist}
    (hsib : Conveys siblings gs) (p : Position) {s : State σ} (hel : s.elIgnored = false) :
    Yields (textNodes uriOf siblings (run.flatMap (·.source)) p false true) s fun ns t =>
      t = s ∧ Conveys ns (gs ++ run.flatMap (·.gist)) := by
  have hvalid : Utf8.isValid (run.flatMap (·.source)) = true := by
    clear hsib
    induction run with
    | nil => rfl
    | cons i run ih =>
      exact Utf8.isValid_append (CoreInline.isValid_source (hrun i List.mem_cons_self))
        (ih fun j hj => hrun j (List.mem_cons_of_mem i hj))
  have hbackslash : (92 : UInt8) ∉ run.flatMap (·.source) := by
    intro hmem
    obtain ⟨i, -, hi⟩ := List.mem_flatMap.mp hmem
    cases i with
    | text t => exact t.plain 92 (by decide) hi
    | expression e =>
      rw [CoreInline.source, e.source_eq] at hi
      have hbody := e.plain 92 (by decide)
      rcases e.mark_cases with h | h <;> simp_all
  by_cases hc : Expression.contains (run.flatMap (·.source)) = true
  · have hne : run.flatMap (·.source) ≠ [] := fun hnil => by
      rw [hnil] at hc
      cases hc
    obtain ⟨segs, hscan, hnodes⟩ :=
      segmentNodes_run uriOf (run.flatMap (·.source)) p hrun 0 none rfl
    have hscan' : Expression.scan (run.flatMap (·.source)) = .ok segs := hscan
    rw [textNodes, if_neg (by simpa using hne)]
    refine Yields.after rfl ?_
    simp only [hel, hc, hscan', Bool.not_false, Bool.and_self, Bool.not_true, Bool.false_eq_true,
      if_false]
    exact hnodes hsib s
  · have hc' := Bool.eq_false_iff.mpr hc
    rw [gist_of_not_contains hc']
    exact textNodes_plain uriOf hvalid hc' hbackslash hsib p true s

/-! ### Content -/

/-- From `s`, where `r` stands, the loop reads on to `tail` and gathers nodes that say `gs`. `view`
says what stands at a state, and the fuel of the loop is enough if it exceeds `cost` for each
byte. -/
def ReadsTo (view : Bytes → State σ → Prop) (cost : Nat)
    (loop : Nat → List Node → Parse σ (List Node)) (s : State σ) (r tail : Bytes)
    (gs : List Gist) : Prop :=
  ∀ ⦃fuel : Nat⦄, cost * r.length < fuel → ∀ ⦃children : List Node⦄ ⦃ks : List Gist⦄,
    Conveys children ks → ∃ fuel' children' s', loop fuel children s = loop fuel' children' s' ∧
      cost * tail.length < fuel' ∧ view tail s' ∧ Conveys children' (ks ++ gs)

namespace ReadsTo

variable {view : Bytes → State σ → Prop} {cost : Nat}
  {loop : Nat → List Node → Parse σ (List Node)} {s : State σ}

theorem refl {r : Bytes} (hs : view r s) : ReadsTo view cost loop s r r [] :=
  fun fuel hfuel children _ hc => ⟨fuel, children, s, rfl, hfuel, hs, by rwa [List.append_nil]⟩

/-- One construct and then the rest. -/
theorem step {x r tail : Bytes} {gs hs : List Gist} (hcost : 0 < cost) (hx : x ≠ [])
    (hstep : ∀ {fuel : Nat}, cost * (x ++ r).length < fuel + 1 →
      ∀ {children : List Node} {ks : List Gist}, Conveys children ks →
      ∃ children' u, loop (fuel + 1) children s = loop fuel children' u ∧
        Conveys children' (ks ++ gs) ∧ view r u)
    (hrest : ∀ {u : State σ}, view r u → ReadsTo view cost loop u r tail hs) :
    ReadsTo view cost loop s (x ++ r) tail (gs ++ hs) := by
  intro fuel hfuel children ks hc
  obtain ⟨fuel, rfl⟩ := Nat.exists_eq_add_one_of_ne_zero (Nat.ne_zero_of_lt hfuel)
  obtain ⟨children', u, hrun, hc', hu⟩ := hstep hfuel hc
  have hlen : cost * r.length < fuel := by
    have hpos : 0 < cost * x.length := Nat.mul_pos hcost (List.length_pos_iff.mpr hx)
    rw [List.length_append, Nat.mul_add] at hfuel
    omega
  obtain ⟨fuel', children'', s', hrec, hlt, hs', hconv⟩ := hrest hu hlen hc'
  exact ⟨fuel', children'', s', hrun.trans hrec, hlt, hs', by rwa [← List.append_assoc]⟩

end ReadsTo

end Parsing

end ServerPages
