import ServerPages.Proofs.DocumentTokens
import ServerPages.Proofs.Parsing

/-!
# Core pages as documents

The content of a core page, written as a document, is a sequence of tokens. Text and expressions
that stand in one place are one token, so the content is first cut as its tokens cut it
(`DocumentContent`). Then the tokens are read one after the other by the loop that reads the content
of an element, and the nodes it gathers say what the page says.

## Main results

* `CorePage.documentContent`: a core page is document content that says what the page says.
* `DocumentContent.readsTo`: reading document content gives nodes that say what it says.
* `CorePage.parse_documentUnit`: the document of a core page is parsed into a tree that says what
  the page says.
-/

namespace ServerPages

namespace Parsing.Document

open Markup (EndsData)

variable {σ : Type} {r : Bytes} {s : State σ}

/-! ### Tokens -/

/-- The document is read up to `r`, with the expression language on; `due` is the element whose end
tag is due because its start tag closed it. -/
structure Viewing (due : Option Markup.Name) (r : Bytes) (s : State σ) : Prop where
  rest : s.document.rest = r
  pending : s.document.pending = due
  elOn : s.elIgnored = false

/-- The next token of the reader is the next token of the parse. -/
theorem yields_next {due : Option Markup.Name} (hs : Viewing due r s) {t : Markup.Token}
    {d : Markup.Reader} (hnext : s.document.next true = .ok (some (t, d))) :
    Yields next s fun x u => x.1 = some t ∧ Viewing d.pending d.rest u := by
  have hfollow : follow s = .ok (s.cursor.skip (s.document.offset - s.passed)).position
      { s with
        cursor := s.cursor.skip (s.document.offset - s.passed), passed := s.document.offset } := rfl
  rw [next]
  refine Yields.after hfollow ?_
  refine Yields.after rfl ?_
  dsimp only
  rw [hnext]
  exact ⟨_, _, rfl, rfl, rfl, rfl, hs.elOn⟩

/-- The element whose end tag is due after a token. -/
def dueAfter : Markup.Token → Option Markup.Name
  | .startTag name _ true => some name
  | _ => none

theorem yields_token {rest : Bytes} {t : Markup.Token} (hs : Viewing none r s) (hr : r ≠ [])
    (ht : Markup.token true r = .ok (t, rest)) :
    Yields next s fun x u => x.1 = some t ∧ Viewing (dueAfter t) rest u := by
  have hnext : s.document.next true = .ok (some (t,
      ⟨rest, s.document.offset + (s.document.rest.length - rest.length), dueAfter t⟩)) := by
    rw [Markup.Reader.next, hs.pending, hs.rest]
    dsimp only
    rw [if_neg (by simpa using hr), ht]
    cases t <;> rfl
  exact yields_next hs hnext

theorem yields_due {n : Markup.Name} (hs : Viewing (some n) r s) :
    Yields next s fun x u => x.1 = some (.endTag n) ∧ Viewing none r u := by
  have hnext : s.document.next true =
      .ok (some (.endTag n, { s.document with pending := none })) := by
    rw [Markup.Reader.next, hs.pending]
  refine (yields_next hs hnext).mono ?_
  rintro x u ⟨hx, hu⟩
  rw [← hs.rest]
  exact ⟨hx, hu⟩

theorem yields_end (hs : Viewing none [] s) :
    Yields next s fun x u => x.1 = none ∧ Viewing none [] u := by
  have hnext : s.document.next true = .ok none := by
    rw [Markup.Reader.next, hs.pending, hs.rest]
    rfl
  rw [next]
  refine Yields.after rfl ?_
  refine Yields.after rfl ?_
  dsimp only
  rw [hnext]
  exact ⟨_, _, rfl, rfl, hs.rest, hs.pending, hs.elOn⟩

/-! ### Namespaces -/

/-- The prefixes of the libraries are bound to their uris, and `jsp` to the standard one. -/
structure Binds (libs : List Taglib) (ns : Namespaces) : Prop where
  standard : ns.uriOf "jsp" = PageSyntax.standardNamespace
  default : ns.uriOf [] = []
  library : ∀ b ∈ libs, ns.uriOf b.prefixName.letters = b.uri

/-- Attributes that bind no prefix leave the namespaces as they are. -/
theorem enter_eq_self {as : List Markup.Attribute} (has : ∀ a ∈ as, boundPrefix? a = none)
    (ns : Namespaces) : ns.enter as = ns := by
  have hnil : as.filterMap (fun a => (boundPrefix? a).map (·, a.value)) = [] := by
    rw [List.filterMap_eq_nil_iff]
    intro a ha
    rw [has a ha]
    rfl
  rw [Namespaces.enter, hnil]
  rfl

/-- The name of a plain element. -/
def plainName (w : Word) : Markup.Name := ⟨[], w.letters⟩

theorem isPlain_plainName (w : Word) : (plainName w).IsPlain :=
  ⟨by simp [plainName], w.nonempty, w.alpha⟩

theorem text_plainName (w : Word) : (plainName w).text = w.letters := rfl

/-- The name of a tag. -/
def tagName (t : CoreTag) : Markup.Name := ⟨t.taglib.prefixName.letters, t.name.letters⟩

theorem isPlain_tagName (t : CoreTag) : (tagName t).IsPlain :=
  ⟨t.taglib.prefixName.alpha, t.name.nonempty, t.name.alpha⟩

theorem text_tagName (t : CoreTag) : (tagName t).text = t.label := by
  rw [Markup.Name.text, if_neg (by simpa [tagName] using t.taglib.prefixName.nonempty)]
  rfl

/-- The name of the element that holds code. -/
def codeName (c : CoreCode) : Markup.Name := ⟨"jsp", c.elementName⟩

theorem isPlain_codeName (c : CoreCode) : (codeName c).IsPlain := by
  have hjsp : ∀ b ∈ Bytes.ofString "jsp", Bytes.isAlpha b = true := by decide
  have hname : c.elementName ≠ [] ∧ ∀ b ∈ c.elementName, Bytes.isAlpha b = true := by
    rw [CoreCode.elementName]
    split <;> decide
  exact ⟨hjsp, hname.1, hname.2⟩

theorem text_codeName (c : CoreCode) : (codeName c).text = "jsp:" ++ c.elementName := rfl

/-- An attribute of a tag as it is read. -/
def readAttribute (a : Word × CoreInline) : Markup.Attribute := ⟨plainName a.1, a.2.source⟩

theorem documentQuoted_eq_self {v : Bytes} (hv : v.Lacks "<&\"\r") : documentQuoted v = v := by
  induction v with
  | nil => rfl
  | cons b v ih =>
    have h38 : b ≠ 38 := hv.head (by decide)
    have h60 : b ≠ 60 := hv.head (by decide)
    have h34 : b ≠ 34 := hv.head (by decide)
    have h13 : b ≠ 13 := hv.head (by decide)
    have hb : documentQuotedByte b = [b] := by simp [documentQuotedByte, h38, h60, h34, h13]
    have hrest : v.flatMap documentQuotedByte = v := ih hv.tail
    rw [documentQuoted, List.flatMap_cons, hb, hrest]
    rfl

theorem lacks_source {i : CoreInline} (hi : i.IsLegal) : i.source.Lacks "<&\"\r" := by
  cases i with
  | text t => exact t.plain.mono (by decide)
  | expression e => exact e.lacks_source hi

section

variable (t : CoreTag) (ht : t.IsLegal)
include ht

theorem isPlain_readAttribute : ∀ a ∈ t.attributes.map readAttribute, a.IsPlain := by
  intro a ha
  obtain ⟨x, hx, rfl⟩ := List.mem_map.mp ha
  exact ⟨isPlain_plainName x.1, CoreInline.isLegal_source (ht x hx)⟩

/-- A start tag is written as its tokens are. -/
theorem opening_eq :
    t.opening =
      60 :: ((tagName t).text ++ (t.attributes.map readAttribute).flatMap (·.written)) := by
  have hattrs : (t.attributes.map readAttribute).flatMap (·.written) =
      t.attributes.flatMap ServerPages.writtenAttribute := by
    rw [List.flatMap_map, List.flatMap_def, List.flatMap_def]
    refine congrArg List.flatten (List.map_congr_left fun x hx => ?_)
    rw [Markup.Attribute.written, readAttribute, documentQuoted_eq_self (lacks_source (ht x hx))]
    rfl
  rw [hattrs, text_tagName, CoreTag.opening]
  rfl

end

theorem boundPrefix?_readAttribute (t : CoreTag) :
    ∀ a ∈ t.attributes.map readAttribute, boundPrefix? a = none := by
  intro a ha
  obtain ⟨x, hx, rfl⟩ := List.mem_map.mp ha
  have hne : (x.1.letters == Bytes.ofString "xmlns") = false := by
    rw [beq_eq_false_iff_ne]
    intro heq
    exact t.noBinding (heq ▸ List.mem_map_of_mem hx)
  show (if ([] : Bytes) == "xmlns" then _
    else if ([] : Bytes) == [] && x.1.letters == "xmlns" then _ else none) = none
  rw [hne]
  rfl

/-! ### Elements -/

/-- The attributes of a tag say what they were written to say. -/
theorem yields_addAttributes (ns : Namespaces) (p : Position) {as : List (Word × CoreInline)}
    (hb : ∀ a ∈ as.map readAttribute, boundPrefix? a = none) {h : Head} (hk : h.kind = .customTag)
    (hd : (h.attributes.map (·.name) ++ as.map (·.1.letters)).Nodup) (hel : s.elIgnored = false) :
    Yields (addAttributes ns p false h (as.map readAttribute)) s fun h' u =>
      u = s ∧ Gains h as h' := by
  induction as generalizing h with
  | nil => exact Yields.pure ⟨rfl, Gains.refl h⟩
  | cons a as ih =>
    have hnew : a.1.letters ∉ h.attributes.map (·.name) := by
      rw [List.map_cons, List.nodup_append] at hd
      exact fun hmem => hd.2.2 _ hmem _ List.mem_cons_self rfl
    have hscript : a.2.source.startsWith "%=" = false := by
      rcases a with ⟨w, t | e⟩
      · rw [Bool.eq_false_iff, ne_eq, Bytes.startsWith_iff]
        exact fun hp => t.plain 37 (by decide) (hp.subset (by decide))
      · rw [CoreInline.source, e.source_eq]
        rcases e.mark_cases with h | h <;> rw [h] <;> rfl
    rw [List.map_cons] at hb ⊢
    rw [addAttributes, hb _ List.mem_cons_self, if_neg (by simp)]
    simp only [readAttribute, hscript, Bool.false_and, Bool.false_eq_true, if_false]
    refine (addAttribute_core ns.uriOf (some ns.uriOf) hk a hnew p hel).bind ?_
    rintro h' _ ⟨rfl, hgain⟩
    refine (ih (fun b hb' => hb b (List.mem_cons_of_mem _ hb')) (hgain.kind.trans hk) ?_).mono ?_
    · rw [hgain.names, List.append_assoc]
      exact hd
    · rintro h'' _ ⟨rfl, hgains⟩
      exact ⟨rfl, hgain.trans hgains⟩

/-- What a library of the page is asked for is its library. -/
theorem yields_library? {env : Env σ} {libs : List Taglib} (hhost : Provides env.host libs)
    {b : Taglib} (hb : b ∈ libs) (p : Position) {due : Option Markup.Name} (hs : Viewing due r s) :
    Yields (library? env b.uri p) s fun l u => l = some b.library ∧ Viewing due r u := by
  obtain ⟨question, hlibrary, hask⟩ := hhost.ask hb
  obtain ⟨m', hm'⟩ := hask s
  rw [library?, hlibrary]
  dsimp only
  rw [if_neg (by simpa using b.named)]
  refine Yields.after hm' ?_
  exact Yields.pure ⟨rfl, hs.rest, hs.pending, hs.elOn⟩

/-- None of the nodes that say a gist is a named attribute. -/
theorem namedAttributes_eq_nil {ns : List Node} {gs : List Gist} (h : Conveys ns gs) :
    Node.namedAttributes ns = [] := by
  induction h with
  | nil => rfl
  | directive hk _ ih => rw [Node.namedAttributes, List.filter_cons_of_neg (by simp [hk])]; exact ih
  | text ht _ ih =>
    rw [Node.namedAttributes,
      List.filter_cons_of_neg (by simp [Node.leaf, Node.kind, Node.head, ht.kind])]
    exact ih
  | @code h _ _ hc _ ih =>
    have hkind : h.kind ≠ .namedAttribute := by
      intro hk
      have hcode := hc.kind
      rw [hk] at hcode
      cases hcode
    rw [Node.namedAttributes,
      List.filter_cons_of_neg (by simpa [Node.leaf, Node.kind, Node.head] using hkind)]
    exact ih
  | tag ht _ _ _ ih =>
    rw [Node.namedAttributes, List.filter_cons_of_neg (by simp [Node.kind, Node.head, ht.kind])]
    exact ih

/-- The tags of a plain element are written back as text. -/
theorem yields_markup (uriOf : Bytes → Bytes) (w : Word) {v : Bytes}
    (hv : v = w.opening ∨ v = w.closing) {siblings : List Node} {ks : List Gist}
    (hsib : Conveys siblings ks) (p : Position) (allowEl : Bool) (s : State σ) :
    Yields (textNodes uriOf siblings v p false allowEl) s fun ns u =>
      u = s ∧ Conveys ns (ks ++ Gist.ofText v) := by
  have hvalid : Utf8.isValid w.letters = true := Markup.isValid_of_isLegal w.isLegal
  have hletters : w.letters.Lacks "$#\\" := fun b hb =>
    w.not_mem ((by decide : ∀ b ∈ Bytes.ofString "$#\\", Bytes.isAlpha b = false) b hb)
  have htag : Utf8.isValid v = true ∧ v.Lacks "$#\\" := by
    rcases hv with rfl | rfl
    · exact ⟨Utf8.isValid_append (Utf8.isValid_append rfl hvalid) rfl,
        Bytes.Lacks.append (Bytes.Lacks.append (by decide) hletters) (by decide)⟩
    · exact ⟨Utf8.isValid_append (Utf8.isValid_append rfl hvalid) rfl,
        Bytes.Lacks.append (Bytes.Lacks.append (by decide) hletters) (by decide)⟩
  have hcontains := Expression.contains_append htag.2 []
  rw [List.append_nil] at hcontains
  exact textNodes_plain uriOf htag.1 hcontains (htag.2 92 (by decide)) hsib p allowEl s

section

variable (env : Env σ) (included : Include σ) (inner : Content σ) {libs : List Taglib}
  {ns : Namespaces} (parent : Head) (p : Position) {siblings : List Node} {ks : List Gist}

/-- A plain element is its tags around its content. -/
theorem yields_element_plain (henv : env.directivesOnly = false) (hns : Binds libs ns) (w : Word)
    {b : Bytes} {bs : List Gist}
    (hinner : ∀ {siblings : List Node} {ks : List Gist} {u : State σ}, Conveys siblings ks →
      Viewing none (b ++ (w.closing ++ r)) u →
      Yields (inner ns (some (plainName w)) parent false siblings) u fun cs v =>
        Conveys cs (ks ++ bs) ∧ Viewing none r v)
    (hsib : Conveys siblings ks) (hs : Viewing none (b ++ (w.closing ++ r)) s) :
    Yields (element env included inner ns ⟨plainName w, [], false, p⟩ parent false siblings) s
      fun cs v => Conveys cs (ks ++ (Gist.ofText w.opening ++ (bs ++ Gist.ofText w.closing))) ∧
        Viewing none r v := by
  have hopening : (StartTag.opening ⟨plainName w, [], false, p⟩ ++ ">" : Bytes) = w.opening := by
    rw [StartTag.opening, text_plainName, List.flatMap_nil, List.append_nil]
    rfl
  have huri : (ns.enter []).uriOf (plainName w).space = [] := by
    rw [enter_eq_self (by simp)]
    exact hns.default
  rw [element]
  dsimp only
  rw [huri, henv, enter_eq_self (by simp)]
  show Yields (plainElement inner ns ⟨plainName w, [], false, p⟩ parent false siblings) s _
  rw [plainElement]
  simp only [Bool.false_eq_true, if_false, hopening]
  refine (yields_markup ns.uriOf w (Or.inl rfl) hsib p true s).bind ?_
  rintro cs _ ⟨rfl, hcs⟩
  refine (hinner hcs hs).bind ?_
  rintro cs v ⟨hcs, hv⟩
  refine Yields.after rfl ?_
  refine (yields_markup ns.uriOf w (Or.inr rfl) hcs _ false v).mono ?_
  rintro cs _ ⟨rfl, hcs⟩
  exact ⟨by simpa only [List.append_assoc] using hcs, hv⟩

/-- The end tag of an element. -/
def endTag (n : Markup.Name) : Bytes := 60 :: 47 :: (n.text ++ [62])

theorem yields_endTag {n : Markup.Name} (hn : n.IsPlain) (hs : Viewing none (endTag n ++ r) s) :
    Yields next s fun x u => x.1 = some (.endTag n) ∧ Viewing none r u := by
  refine yields_token hs (List.cons_ne_nil _ _) ?_
  have htoken := Markup.token_endTag hn r true
  simpa only [endTag, List.cons_append, List.append_assoc, List.nil_append] using htoken

/-- Code is the data of its element. -/
theorem yields_elementData (c : CoreCode) (hc : Markup.isLegal c.code = true)
    (hs : Viewing none (c.code ++ (endTag (codeName c) ++ r)) s) :
    Yields (elementData (codeName c)) s fun v u => v = c.code ∧ Viewing none r u := by
  have hend : ∀ {fuel : Nat} {v : Bytes} {u : State σ},
      Viewing none (endTag (codeName c) ++ r) u →
      Yields (dataWithin (codeName c) (fuel + 1) v) u fun w x => w = v ∧ Viewing none r x := by
    intro fuel v u hu
    obtain ⟨⟨o, p⟩, x, hrun, rfl, hx⟩ := yields_endTag (isPlain_codeName c) hu
    rw [dataWithin]
    refine Yields.after hrun ?_
    dsimp only
    rw [if_neg (by simp)]
    exact Yields.pure ⟨rfl, hx⟩
  rw [elementData]
  refine Yields.after rfl ?_
  by_cases hnil : c.code = []
  · rw [hnil] at hs ⊢
    exact hend hs
  · have htoken := Markup.token_code c hc hnil (r := endTag (codeName c) ++ r)
      (by rintro _ ⟨⟩; rfl) true
    obtain ⟨⟨o, p⟩, u, hrun, rfl, hu⟩ :=
      yields_token hs (List.append_ne_nil_of_left_ne_nil hnil _) htoken
    rw [dataWithin]
    refine Yields.after hrun ?_
    dsimp only
    rw [List.nil_append]
    exact hend hu

/-- An element of code is code. -/
theorem yields_element_code (henv : env.directivesOnly = false) (hns : Binds libs ns)
    (c : CoreCode) (hc : Markup.isLegal c.code = true) (hsib : Conveys siblings ks)
    (hs : Viewing none (c.code ++ (endTag (codeName c) ++ r)) s) :
    Yields (element env included inner ns ⟨codeName c, [], false, p⟩ parent false siblings) s
      fun cs v => Conveys cs (ks ++ [.leaf c.kind c.code.solid]) ∧ Viewing none r v := by
  have huri : (ns.enter []).uriOf (codeName c).space = PageSyntax.standardNamespace := by
    rw [enter_eq_self (by simp)]
    exact hns.standard
  have hkind : scriptingKind? c.elementName = some c.kind ∧ (c.elementName == "root") = false ∧
      c.elementName.startsWith "directive." = false := by
    have hscripting := c.scripting
    rw [CoreCode.elementName]
    cases hk : c.kind <;> rw [hk] at hscripting <;> cases hscripting <;> exact ⟨rfl, rfl, rfl⟩
  have hname : (codeName c).base = c.elementName := rfl
  rw [element]
  dsimp only
  rw [huri, if_pos (by simp), standardElement]
  dsimp only
  rw [hname, hkind.1, hkind.2.1, hkind.2.2, henv]
  simp only [Bool.false_eq_true, if_false]
  rw [scripting]
  refine (yields_elementData c hc hs).bind ?_
  rintro _ u ⟨rfl, hu⟩
  refine Yields.after rfl (Yields.pure ⟨?_, hu⟩)
  have hcode : (c.kind.isCode) = true := by rw [Kind.isCode, c.scripting, Bool.or_true]
  exact hsib.push (Conveys.code ⟨hcode, rfl, Markup.isValid_of_isLegal hc⟩ Conveys.nil)

/-- An element of a library is a tag, with the content that is read after its start tag. -/
theorem yields_element_tag (henv : env.directivesOnly = false) (hhost : Provides env.host libs)
    (hns : Binds libs ns) (t : CoreTag) (ht : t.taglib ∈ libs) (hw : t.taglib.IsWritable)
    (closed : Bool) {due : Option Markup.Name} {x : Bytes} {bs : List Gist}
    (hinner : ∀ {h : Head} {u : State σ}, Viewing due x u →
      Yields (inner ns (some (tagName t)) h false []) u fun cs v =>
        Conveys cs bs ∧ Viewing none r v)
    (hsib : Conveys siblings ks) (hs : Viewing due x s) :
    Yields (element env included inner ns
        ⟨tagName t, t.attributes.map readAttribute, closed, p⟩ parent false siblings) s
      fun cs v => Conveys cs (ks ++ [t.gist bs]) ∧ Viewing none r v := by
  have hspace : (tagName t).space = t.taglib.prefixName.letters := rfl
  have henter : ns.enter (t.attributes.map readAttribute) = ns :=
    enter_eq_self (boundPrefix?_readAttribute t) ns
  rw [element]
  dsimp only
  rw [henter, hspace, hns.library _ ht, if_neg (by simpa using hw.notStandard), henv,
    if_neg Bool.false_ne_true, if_neg (by simpa using t.taglib.prefixName.nonempty)]
  refine (yields_library? hhost ht p hs).bind ?_
  rintro _ u ⟨rfl, hu⟩
  dsimp only
  rw [customTag]
  dsimp only
  rw [hspace, hns.library _ ht]
  refine (yields_tagHead env t p u).bind ?_
  rintro h _ ⟨rfl, hh⟩
  refine (yields_addAttributes ns p (boundPrefix?_readAttribute t) hh.kind ?_ hu.elOn).bind ?_
  · rw [hh.attributes]
    exact t.distinct
  rintro h' _ ⟨rfl, hgain⟩
  have hcontent := hh.bodyContentOf hgain closed
  refine Yields.bind (Q := fun cs v => Conveys cs bs ∧ Viewing none r v) ?_ ?_
  · show Yields (tagChildren inner ns _ (closing closed h') false) _ _
    rw [tagChildren, hcontent]
    refine (hinner hu).bind ?_
    rintro cs v ⟨hcs, hv⟩
    have hcheck : checkTagBody (closing closed h') cs v = .ok () v := by
      rw [checkTagBody, checkNamedBody, namedAttributes_eq_nil hcs, hcontent]
      rfl
    exact Yields.after hcheck (Yields.pure ⟨hcs, hv⟩)
  · rintro cs v ⟨hcs, hv⟩
    exact Yields.pure ⟨hsib.push (hh.conveys hgain closed hcs), hv⟩

end

/-! ### Content as its tokens cut it -/

/-- The text of a document, cut as its tokens cut it, with what it says. -/
inductive DocumentContent (libs : List Taglib) : Bytes → List Gist → Prop where
  | nil : DocumentContent libs [] []
  | inlines {r : Bytes} {gs : List Gist} (run : List CoreInline) :
      (∀ i ∈ run, i.IsLegal) → run.flatMap (·.source) ≠ [] → EndsData r →
        DocumentContent libs r gs →
        DocumentContent libs (run.flatMap (·.source) ++ r) (run.flatMap (·.gist) ++ gs)
  | element {b r : Bytes} {bs gs : List Gist} (w : Word) :
      DocumentContent libs b bs → DocumentContent libs r gs →
        DocumentContent libs (w.opening ++ (b ++ (w.closing ++ r)))
          ((Gist.ofText w.opening ++ (bs ++ Gist.ofText w.closing)) ++ gs)
  | code {r : Bytes} {gs : List Gist} (c : CoreCode) :
      Markup.isLegal c.code = true → DocumentContent libs r gs →
        DocumentContent libs (c.document ++ r) ([.leaf c.kind c.code.solid] ++ gs)
  | closedTag {r : Bytes} {gs : List Gist} (t : CoreTag) :
      t.taglib ∈ libs → t.IsLegal → DocumentContent libs r gs →
        DocumentContent libs (t.opening ++ (tagEnd true ++ r)) ([t.gist []] ++ gs)
  | tag {b r : Bytes} {bs gs : List Gist} (t : CoreTag) :
      t.taglib ∈ libs → t.IsLegal → DocumentContent libs b bs → DocumentContent libs r gs →
        DocumentContent libs (t.opening ++ (tagEnd false ++ (b ++ (t.closing ++ r))))
          ([t.gist bs] ++ gs)

namespace DocumentContent

variable {libs : List Taglib}

/-- Content with text or an expression before it, which is in one place with the text that the
content starts with. -/
theorem prepend {i : CoreInline} (hi : i.IsLegal) {gs : List Gist}
    (h : DocumentContent libs r gs) : DocumentContent libs (i.source ++ r) (i.gist ++ gs) := by
  have halone : ∀ {r : Bytes} {gs : List Gist}, EndsData r → DocumentContent libs r gs →
      DocumentContent libs (i.source ++ r) (i.gist ++ gs) := by
    intro r gs hr h
    by_cases hne : i.source = []
    · have hgist : i.gist = [] := by
        cases i with
        | text t =>
          have hbytes : t.bytes = [] := hne
          rw [CoreInline.gist, hbytes]
          rfl
        | expression e =>
          rw [CoreInline.source, e.source_eq] at hne
          cases hne
      rw [hne, hgist]
      exact h
    · have hrun := inlines [i] (by simpa using hi) (by simpa using hne) hr h
      simpa using hrun
  have htag : ∀ {y : Bytes}, EndsData (60 :: y) := by
    rintro y _ ⟨⟩
    rfl
  cases h with
  | nil => exact halone (by simp [EndsData]) nil
  | @inlines r gs run hrun hne hr h =>
    have hmerged := inlines (i :: run) (List.forall_mem_cons.mpr ⟨hi, hrun⟩)
      (by rw [List.flatMap_cons]; exact List.append_ne_nil_of_right_ne_nil _ hne) hr h
    rw [List.flatMap_cons, List.flatMap_cons, List.append_assoc, List.append_assoc] at hmerged
    exact hmerged
  | element w hb h => exact halone htag (element w hb h)
  | code c hc h => exact halone htag (code c hc h)
  | closedTag t ht hl h => exact halone htag (closedTag t ht hl h)
  | tag t ht hl hb h => exact halone htag (tag t ht hl hb h)

end DocumentContent

/-! ### Reading content -/

section

variable (env : Env σ) (included : Include σ) {libs : List Taglib} {ns : Namespaces}
  {opened : Option Markup.Name} {parent : Head} {fuel : Nat} {children : List Node}
  {ks gs : List Gist}

/-- A run of text and expressions is one step. -/
theorem content_inlines (henv : env.directivesOnly = false) {run : List CoreInline}
    (hrun : ∀ i ∈ run, i.IsLegal) (hne : run.flatMap (·.source) ≠ []) (hr : EndsData r)
    (hs : Viewing none (run.flatMap (·.source) ++ r) s) (hc : Conveys children ks) :
    ∃ children' u, content env included (fuel + 1) ns opened parent false children s =
        content env included fuel ns opened parent false children' u ∧
      Conveys children' (ks ++ run.flatMap (·.gist)) ∧ Viewing none r u := by
  obtain ⟨⟨o, p⟩, u, hnext, rfl, hu⟩ :=
    yields_token hs (List.append_ne_nil_of_left_ne_nil hne _) (Markup.token_run hrun hne hr true)
  by_cases hblank : Bytes.isBlank (run.flatMap (·.source)) = true
  · -- blanks alone are passed over, and say nothing
    have hlacks : Bytes.Lacks (run.flatMap (·.source)) "$#\\" := by
      intro b hb hmem
      have hno : ∀ b ∈ Bytes.ofString "$#\\", Bytes.isBlankByte b = false := by decide
      exact absurd (List.all_eq_true.mp hblank b hmem) (by simp [hno b hb])
    have hcontains := Expression.contains_append hlacks []
    rw [List.append_nil] at hcontains
    refine ⟨children, u, ?_, ?_, hu⟩
    · rw [content]
      refine (bind_ok hnext).trans ?_
      dsimp only
      rw [hblank, Bool.or_true]
      rfl
    · rw [gist_of_not_contains hcontains, Gist.ofText, Bytes.isBlank_iff_solid.mp hblank,
        List.map_nil, List.append_nil]
      exact hc
  · obtain ⟨cs, v, htext, rfl, hcs⟩ := textNodes_run ns.uriOf hrun hc p hu.elOn
    refine ⟨cs, v, ?_, hcs, hu⟩
    rw [content]
    refine (bind_ok hnext).trans ?_
    dsimp only
    rw [henv, Bool.eq_false_iff.mpr hblank]
    exact bind_ok htext

/-- An element is one step. -/
theorem content_element {n : Markup.Name} (hn : n.IsPlain) {as : List Markup.Attribute}
    (has : ∀ a ∈ as, a.IsPlain) {closed : Bool} {x : Bytes}
    (hs : Viewing none (60 :: (n.text ++ (as.flatMap (·.written) ++ (tagEnd closed ++ x)))) s)
    (helement : ∀ {p : Position} {u : State σ}, Viewing (dueAfter (.startTag n as closed)) x u →
      Yields (element env included (content env included fuel) ns ⟨n, as, closed, p⟩ parent false
        children) u fun cs v => Conveys cs gs ∧ Viewing none r v) :
    ∃ children' u, content env included (fuel + 1) ns opened parent false children s =
        content env included fuel ns opened parent false children' u ∧
      Conveys children' gs ∧ Viewing none r u := by
  obtain ⟨⟨o, p⟩, u, hnext, rfl, hu⟩ :=
    yields_token hs (List.cons_ne_nil _ _) (Markup.token_startTag hn has closed x true)
  obtain ⟨cs, v, hrun, hcs, hv⟩ := helement (p := p) hu
  refine ⟨cs, v, ?_, hcs, hv⟩
  rw [content]
  exact (bind_ok hnext).trans (bind_ok hrun)

/-- The content of an element ends at its end tag. -/
theorem content_end {n : Markup.Name}
    (hnext : Yields next s fun x u => x.1 = some (.endTag n) ∧ Viewing none r u) :
    Yields (content env included (fuel + 1) ns (some n) parent false children) s fun cs u =>
      cs = children ∧ Viewing none r u := by
  obtain ⟨⟨o, p⟩, u, hnext, rfl, hu⟩ := hnext
  rw [content]
  refine Yields.after hnext ?_
  dsimp only
  rw [if_pos (by simp)]
  exact Yields.pure ⟨rfl, hu⟩

/-- The content of an element up to its end tag and with it. -/
theorem yields_content {n : Markup.Name} (hn : n.IsPlain) {x : Bytes}
    (hread : ReadsTo (Viewing none) 2 (content env included · ns (some n) parent false) s x
      (endTag n ++ r) gs)
    (hfuel : 2 * x.length < fuel) (hc : Conveys children ks) :
    Yields (content env included fuel ns (some n) parent false children) s fun cs u =>
      Conveys cs (ks ++ gs) ∧ Viewing none r u := by
  obtain ⟨fuel', children', u, hrun, hfuel', hu, hc'⟩ := hread hfuel hc
  obtain ⟨fuel', rfl⟩ := Nat.exists_eq_add_one_of_ne_zero (Nat.ne_zero_of_lt hfuel')
  obtain ⟨_, v, hend, rfl, hv⟩ := content_end env included (yields_endTag hn hu)
  exact ⟨_, v, hrun.trans hend, hc', hv⟩

/-- **Reading document content gives nodes that say what it says.** The fuel is enough if it exceeds
twice the number of bytes, because a token takes a byte or is the end tag of an element that closed
itself. -/
theorem DocumentContent.readsTo (henv : env.directivesOnly = false)
    (hhost : Provides env.host libs) (hw : ∀ b ∈ libs, b.IsWritable) (hns : Binds libs ns)
    (h : DocumentContent libs r gs) {tail : Bytes} (ht : EndsData tail)
    (hs : Viewing none (r ++ tail) s) :
    ReadsTo (Viewing none) 2 (content env included · ns opened parent false) s (r ++ tail) tail
      gs := by
  induction h generalizing tail opened parent s with
  | nil => exact ReadsTo.refl hs
  | @inlines r gs run hrun hne hr _ ih =>
    have hend : EndsData (r ++ tail) := by
      rcases r with - | ⟨b, r⟩
      · exact ht
      · exact hr
    rw [List.append_assoc] at hs ⊢
    exact ReadsTo.step (by decide) hne
      (fun _ _ _ hc => content_inlines env included henv hrun hne hend hs hc) (ih ht)
  | @element b r bs gs w _ _ ihb ih =>
    have hcut : w.opening ++ (b ++ (w.closing ++ r)) ++ tail =
        (w.opening ++ (b ++ w.closing)) ++ (r ++ tail) := by
      simp only [List.append_assoc]
    rw [hcut] at hs ⊢
    refine ReadsTo.step (by decide) (List.cons_ne_nil _ _)
      (fun {fuel} hfuel {children ks} hc => ?_) (ih ht)
    have hs' : Viewing none (60 :: ((plainName w).text ++ (([] : List Markup.Attribute).flatMap
        (·.written) ++ (tagEnd false ++ (b ++ (w.closing ++ (r ++ tail))))))) s := by
      simp only [Word.opening, List.append_assoc] at hs
      exact hs
    refine content_element env included (isPlain_plainName w) (by simp) hs' fun {p u} hu => ?_
    refine yields_element_plain env included _ parent p henv hns w ?_ hc hu
    intro siblings ks u hsib hu
    have hlen : 2 * (b ++ (w.closing ++ (r ++ tail))).length < fuel := by
      have hopening : 0 < w.opening.length := Nat.succ_pos _
      simp only [List.length_append] at hfuel ⊢
      omega
    exact yields_content env included (isPlain_plainName w) (ihb (by rintro _ ⟨⟩; rfl) hu) hlen
      hsib
  | @code r gs c hc _ ih =>
    rw [List.append_assoc] at hs ⊢
    refine ReadsTo.step (by decide) (List.cons_ne_nil _ _)
      (fun {fuel} hfuel {children ks} hk => ?_) (ih ht)
    have hs' : Viewing none (60 :: ((codeName c).text ++ (([] : List Markup.Attribute).flatMap
        (·.written) ++
          (tagEnd false ++ (c.code ++ (endTag (codeName c) ++ (r ++ tail))))))) s := by
      simp only [endTag, text_codeName, List.append_assoc, List.cons_append]
      simp only [CoreCode.document, List.append_assoc] at hs
      exact hs
    exact content_element env included (isPlain_codeName c) (by simp) hs' fun hu =>
      yields_element_code env included _ parent _ henv hns c hc hk hu
  | @closedTag r gs t htl hl _ ih =>
    have hcut : t.opening ++ (tagEnd true ++ r) ++ tail =
        (t.opening ++ tagEnd true) ++ (r ++ tail) := by
      simp only [List.append_assoc]
    rw [hcut] at hs ⊢
    refine ReadsTo.step (by decide) (List.append_ne_nil_of_left_ne_nil (List.cons_ne_nil _ _) _)
      (fun {fuel} hfuel {children ks} hc => ?_) (ih ht)
    have hs' : Viewing none (60 :: ((tagName t).text ++ ((t.attributes.map readAttribute).flatMap
        (·.written) ++ (tagEnd true ++ (r ++ tail))))) s := by
      rw [opening_eq t hl] at hs
      simpa only [List.append_assoc, List.cons_append] using hs
    have hpos : 0 < fuel := by
      have hopening : 0 < t.opening.length := Nat.succ_pos _
      simp only [List.length_append] at hfuel
      omega
    obtain ⟨fuel, rfl⟩ := Nat.exists_eq_add_one_of_ne_zero (Nat.ne_of_gt hpos)
    refine content_element env included (isPlain_tagName t) (isPlain_readAttribute t hl) hs'
      fun {p u} hu => ?_
    refine yields_element_tag env included _ parent p henv hhost hns t htl (hw _ htl) true ?_ hc
      hu
    intro h u hu
    -- the end tag of the element is due at once
    refine (content_end env included (yields_due hu)).mono ?_
    rintro _ v ⟨rfl, hv⟩
    exact ⟨Conveys.nil, hv⟩
  | @tag b r bs gs t htl hl _ _ ihb ih =>
    have hcut : t.opening ++ (tagEnd false ++ (b ++ (t.closing ++ r))) ++ tail =
        (t.opening ++ (tagEnd false ++ (b ++ t.closing))) ++ (r ++ tail) := by
      simp only [List.append_assoc]
    rw [hcut] at hs ⊢
    refine ReadsTo.step (by decide) (List.append_ne_nil_of_left_ne_nil (List.cons_ne_nil _ _) _)
      (fun {fuel} hfuel {children ks} hc => ?_) (ih ht)
    have hclosing : t.closing = endTag (tagName t) := by
      rw [endTag, text_tagName]
      rfl
    have hs' : Viewing none (60 :: ((tagName t).text ++ ((t.attributes.map readAttribute).flatMap
        (·.written) ++ (tagEnd false ++ (b ++ (t.closing ++ (r ++ tail))))))) s := by
      rw [opening_eq t hl] at hs
      simpa only [List.append_assoc, List.cons_append] using hs
    refine content_element env included (isPlain_tagName t) (isPlain_readAttribute t hl) hs'
      fun {p u} hu => ?_
    refine yields_element_tag env included _ parent p henv hhost hns t htl (hw _ htl) false ?_ hc
      hu
    intro h u hu
    rw [hclosing] at hu
    have hlen : 2 * (b ++ (endTag (tagName t) ++ (r ++ tail))).length < fuel := by
      have hopening : 0 < t.opening.length := Nat.succ_pos _
      rw [← hclosing]
      simp only [List.length_append] at hfuel ⊢
      omega
    exact yields_content env included (isPlain_tagName t) (ihb (by rintro _ ⟨⟩; rfl) hu) hlen
      Conveys.nil

end

/-! ### Units -/

/-- The name of the root element. -/
def rootName : Markup.Name := ⟨"jsp", "root"⟩

theorem isPlain_rootName : rootName.IsPlain := ⟨by decide, by decide, by decide⟩

/-- The attributes of the root element, which bind the libraries. -/
def rootAttributes (libs : List Taglib) : List Markup.Attribute :=
  ⟨⟨"xmlns", "jsp"⟩, PageSyntax.standardNamespace⟩ ::
    libs.map fun b => ⟨⟨"xmlns", b.prefixName.letters⟩, b.uri⟩

theorem isPlain_rootAttributes {libs : List Taglib} (hw : ∀ b ∈ libs, b.IsWritable) :
    ∀ a ∈ rootAttributes libs, a.IsPlain := by
  intro a ha
  rcases List.mem_cons.mp ha with rfl | ha
  · exact ⟨⟨by decide, by decide, by decide⟩, by decide⟩
  · obtain ⟨b, hb, rfl⟩ := List.mem_map.mp ha
    have hspace : ∀ c ∈ Bytes.ofString "xmlns", Bytes.isAlpha c = true := by decide
    exact ⟨⟨hspace, b.prefixName.nonempty, b.prefixName.alpha⟩, (hw b hb).legal⟩

/-- The root binds the libraries. -/
theorem binds_root {libs : List Taglib} (hd : (libs.map (·.prefixName.letters)).Nodup) :
    Binds libs (Namespaces.enter [] (rootAttributes libs)) := by
  have hns : Namespaces.enter [] (rootAttributes libs) =
      libs.reverse.map (fun b => (b.prefixName.letters, b.uri)) ++
        [(Bytes.ofString "jsp", PageSyntax.standardNamespace)] := by
    have hbound : (rootAttributes libs).filterMap (fun a => (boundPrefix? a).map (·, a.value)) =
        (Bytes.ofString "jsp", PageSyntax.standardNamespace) ::
          libs.map fun b => (b.prefixName.letters, b.uri) := by
      refine congrArg ((Bytes.ofString "jsp", PageSyntax.standardNamespace) :: ·)
        (?_ : List.filterMap _ (libs.map _) = _)
      rw [List.filterMap_map, ← List.filterMap_eq_map]
      rfl
    rw [Namespaces.enter, hbound, List.reverse_cons, List.append_nil, List.map_reverse]
  have hd' : (libs.reverse.map (·.prefixName.letters)).Nodup := by
    rw [List.map_reverse]
    exact (List.reverse_perm _).nodup_iff.mpr hd
  have hnone : ∀ {name : Bytes}, (∀ b ∈ libs, b.prefixName.letters ≠ name) →
      (libs.reverse.map fun b => (b.prefixName.letters, b.uri)).lookup name = none := by
    intro name hname
    refine Taglib.lookup_map_eq_none _ fun hmem => ?_
    obtain ⟨b, hb, hbn⟩ := List.mem_map.mp hmem
    exact hname b (List.mem_reverse.mp hb) hbn
  rw [hns]
  refine ⟨?_, ?_, fun b hb => ?_⟩
  · rw [Namespaces.uriOf, List.lookup_append, hnone fun b _ => b.free.1]
    rfl
  · rw [Namespaces.uriOf, List.lookup_append, hnone fun b _ => b.prefixName.nonempty]
    rfl
  · rw [Namespaces.uriOf, List.lookup_append,
      Taglib.lookup_map (·.uri) hd' (List.mem_reverse.mpr hb)]
    rfl

/-- The root element is its content. -/
theorem element_root (env : Env σ) (included : Include σ) (inner : Content σ) {libs : List Taglib}
    (hd : (libs.map (·.prefixName.letters)).Nodup) (p : Position) (parent : Head)
    (siblings : List Node) :
    element env included inner [] ⟨rootName, rootAttributes libs, false, p⟩ parent false siblings =
      inner (Namespaces.enter [] (rootAttributes libs)) (some rootName) parent false siblings := by
  have huri : (Namespaces.enter [] (rootAttributes libs)).uriOf rootName.space =
      PageSyntax.standardNamespace := (binds_root hd).standard
  rw [element]
  dsimp only
  rw [huri]
  rfl

/-- The content of a document ends where the document ends. -/
theorem content_none (env : Env σ) (included : Include σ) (ns : Namespaces) (parent : Head)
    (fuel : Nat) (children : List Node) (hs : Viewing none [] s) :
    Yields (content env included (fuel + 1) ns none parent false children) s fun cs _ =>
      cs = children := by
  obtain ⟨⟨o, p⟩, u, hnext, rfl, -⟩ := yields_end hs
  rw [content]
  exact Yields.after hnext (Yields.pure rfl)

end Parsing.Document

open Parsing Parsing.Document

/-- **A core page is document content that says what the page says.** -/
theorem CorePage.documentContent {libs : List Taglib} {page : CorePage} (hlegal : page.IsLegal)
    (hlibs : ∀ b ∈ page.taglibs, b ∈ libs) :
    DocumentContent libs (page.write CoreCode.document) page.gist := by
  induction page with
  | empty => exact .nil
  | inline i rest ih => exact (ih hlegal.2 hlibs).prepend hlegal.1
  | element w body rest ihb ihr =>
    have h := DocumentContent.element w
      (ihb hlegal.1 fun b hb => hlibs b (List.mem_append_left _ hb))
      (ihr hlegal.2 fun b hb => hlibs b (List.mem_append_right _ hb))
    rw [List.append_assoc, List.append_assoc] at h
    exact h
  | code c rest ih => exact .code c hlegal.1 (ih hlegal.2 hlibs)
  | closedTag t rest ih =>
    exact .closedTag t (hlibs _ List.mem_cons_self) hlegal.1
      (ih hlegal.2 fun b hb => hlibs b (List.mem_cons_of_mem _ hb))
  | tag t body rest ihb ihr =>
    have hsub : ∀ b ∈ body.taglibs ++ rest.taglibs, b ∈ libs := fun b hb =>
      hlibs b (List.mem_cons_of_mem _ hb)
    exact .tag t (hlibs _ List.mem_cons_self) hlegal.1
      (ihb hlegal.2.1 fun b hb => hsub b (List.mem_append_left _ hb))
      (ihr hlegal.2.2 fun b hb => hsub b (List.mem_append_right _ hb))

/-- A document is written as its tokens are. -/
theorem CorePage.documentUnit_eq (libs : List Taglib) (page : CorePage) :
    page.documentUnit libs = 60 :: (rootName.text ++ ((rootAttributes libs).flatMap (·.written) ++
      (tagEnd false ++ (page.write CoreCode.document ++ endTag rootName)))) := by
  have hbindings : libs.flatMap (·.binding) =
      (libs.map fun b => (⟨⟨"xmlns", b.prefixName.letters⟩, b.uri⟩ : Markup.Attribute)).flatMap
        (·.written) := by
    rw [List.flatMap_map, List.flatMap_def, List.flatMap_def]
    refine congrArg List.flatten (List.map_congr_left fun b _ => ?_)
    rw [Markup.Attribute.written, Taglib.binding]
    simp only [Markup.Name.text]
    rfl
  rw [rootAttributes, List.flatMap_cons, ← hbindings, documentUnit]
  simp only [List.append_assoc]
  rfl

/-- **The document of a core page is parsed into a tree that says what the page says.** -/
theorem CorePage.parse_documentUnit {σ : Type} {libs : List Taglib} {page : CorePage}
    (hlegal : page.IsLegal) (hlibs : ∀ b ∈ page.taglibs, b ∈ libs)
    (hd : (libs.map (·.prefixName.letters)).Nodup) (hw : ∀ b ∈ libs, b.IsWritable) {host : Host σ}
    (hhost : Provides host libs) {r : ParseRequest} (htext : r.text = page.documentUnit libs)
    (hform : r.form = .document) (hall : r.directivesOnly = false) (hel : r.elIgnored = false)
    (memory : σ) :
    ∃ start children memory', r.parse host memory = (.ok (.mk (r.root start) children), memory') ∧
      Conveys children page.gist := by
  have hactual : r.actualForm = .document := by rw [ParseRequest.actualForm, hform]
  have henv : (r.env host).directivesOnly = false := hall
  have hhost' : Provides (r.env host).host libs := hhost
  let parent := r.root (Cursor.ofText r.path r.text).position
  let s₀ : State σ := { r.start memory with document := { rest := r.text }, passed := 0 }
  have hs₀ : Viewing none (60 :: (rootName.text ++ ((rootAttributes libs).flatMap (·.written) ++
      (tagEnd false ++ (page.write CoreCode.document ++ endTag rootName))))) s₀ :=
    ⟨htext.trans (page.documentUnit_eq libs), rfl, hel⟩
  have hlen : (page.write CoreCode.document ++ endTag rootName).length ≤ r.text.length := by
    rw [htext, page.documentUnit_eq libs]
    simp only [List.length_cons, List.length_append]
    omega
  -- the root element holds the whole page
  have hroot : ∀ {p : Position} {u : State σ},
      Viewing none (page.write CoreCode.document ++ endTag rootName) u →
      Yields (Document.element (r.env host) (r.included host)
        (content (r.env host) (r.included host) (2 * r.text.length + 1)) []
        ⟨rootName, rootAttributes libs, false, p⟩ parent false []) u fun cs v =>
          Conveys cs page.gist ∧ Viewing none [] v := by
    intro p u hu
    rw [element_root _ _ _ hd, ← List.nil_append page.gist]
    rw [← List.append_nil (endTag rootName)] at hu
    refine yields_content _ _ isPlain_rootName
      ((page.documentContent hlegal hlibs).readsTo _ _ henv hhost' hw (binds_root hd)
        (by rintro _ ⟨⟩; rfl) hu) ?_ Conveys.nil
    rw [List.append_nil]
    omega
  obtain ⟨children, u, hrun, hc, hu⟩ : ∃ children u,
      content (r.env host) (r.included host) (2 * r.text.length + 2) [] none parent false [] s₀ =
        content (r.env host) (r.included host) (2 * r.text.length + 1) [] none parent false
          children u ∧
      Conveys children page.gist ∧ Viewing none [] u :=
    content_element _ _ isPlain_rootName (isPlain_rootAttributes hw) hs₀ hroot
  obtain ⟨cs, v, hend, hcs⟩ := content_none (r.env host) (r.included host) [] parent
    (2 * r.text.length) children hu
  rw [hcs] at hend
  have hparse : Document.parse (r.env host) (r.included host) parent false (r.start memory) =
      .ok children v := by
    rw [Document.parse]
    exact hrun.trans hend
  refine ⟨(Cursor.ofText r.path r.text).position, children, v.memory, ?_, hc⟩
  rw [ParseRequest.parse_document host memory hactual, hparse]
  rfl

end ServerPages
