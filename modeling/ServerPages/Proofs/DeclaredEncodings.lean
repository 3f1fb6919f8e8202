import ServerPages.Proofs.DirectiveTexts
import ServerPages.Proofs.SessionGrowth

/-!
# The encoding that is declared and the one that is used

A unit is read in the encoding that the first page directive names, where this is the first text of
one: the parser reads the directives that were found before. Whatever follows has no effect, and
neither has a text without directives.

## Main results

* `Native.sourceWithin_texts`: the parser reads the directives of a source that starts with some.
* `Compiler.compileUnit_encoding`: where the encoding of a unit comes from.
* `Compiler.encoding_declared`: the encoding of a unit.
-/

namespace ServerPages

/-- The attribute that turns the expression language off. -/
def elIgnoredWord : Word := ⟨"isELIgnored", by decide, by decide⟩

namespace Parsing.Native

variable {σ : Type}

/-! ### Siblings with page directives -/

/-- What the page directives among some nodes say. -/
def pageDirectives (ns : List Node) : List (List (Bytes × Bytes)) :=
  (ns.filter (·.kind == .pageDirective)).map fun n => pairs n.head

theorem pageDirectives_append (ns ms : List Node) :
    pageDirectives (ns ++ ms) = pageDirectives ns ++ pageDirectives ms := by
  rw [pageDirectives, List.filter_append, List.map_append]
  rfl

theorem pageDirectives_push (ns : List Node) (n : Node) :
    pageDirectives (Node.push ns n) = pageDirectives ns ++ pageDirectives [n] := by
  have htext : ∀ m : Node, m.kind = .text → pageDirectives [m] = [] := by
    intro m hm
    simp [pageDirectives, hm]
  unfold Node.push
  split
  · next hlast =>
    rw [List.getLast?_eq_none_iff.mp hlast]
    rfl
  next last hlast =>
  split
  · next htexts =>
    rw [Bool.and_eq_true, Bool.and_eq_true, beq_iff_eq, beq_iff_eq] at htexts
    obtain ⟨before, rfl⟩ := List.getLast?_eq_some_iff.mp hlast
    rw [List.dropLast_concat, pageDirectives_append, pageDirectives_append,
      htext (last.extend n.text) htexts.1.2, htext last htexts.1.2, htext n htexts.1.1,
      List.append_nil, List.append_nil]
  · exact pageDirectives_append ns [n]

/-- Among the siblings the same page directives come first as among others. -/
def Extends (siblings ns : List Node) : Prop :=
  ∃ more, pageDirectives ns = pageDirectives siblings ++ more

theorem Extends.refl (ns : List Node) : Extends ns ns := ⟨[], (List.append_nil _).symm⟩

theorem Extends.push (ns : List Node) (n : Node) : Extends ns (Node.push ns n) :=
  ⟨_, pageDirectives_push ns n⟩

theorem Extends.trans {ns ms ls : List Node} (h : Extends ns ms) (h' : Extends ms ls) :
    Extends ns ls := by
  obtain ⟨more, h⟩ := h
  obtain ⟨more', h'⟩ := h'
  exact ⟨more ++ more', by rw [h', h, List.append_assoc]⟩

theorem extends_scripting (kind : Kind) (opener : Bytes) (p : Position) (scriptless : Bool)
    (siblings : List Node) : Returns (Extends siblings)
      (scripting kind opener p scriptless siblings : Parse σ (List Node)) := by
  refine Returns.skip fun c => ?_
  split
  · exact returns_refuse _ _ _
  · exact Returns.skip fun _ => Returns.skip fun n => Returns.pure (.push siblings n)

theorem extends_expression (scriptless : Bool) (siblings : List Node) :
    Returns (Extends siblings) (expression scriptless siblings : Parse σ (List Node)) := by
  refine Returns.skip fun s => ?_
  dsimp only
  split
  · exact returns_refuse _ _ _
  · exact Returns.skip fun n => Returns.skip fun _ => Returns.pure (.push siblings n)

theorem extends_templateText (scriptless : Bool) (siblings : List Node) :
    Returns (Extends siblings) (templateText scriptless siblings : Parse σ (List Node)) :=
  Returns.skip fun _ => Returns.skip fun _ => Returns.pure (.push siblings _)

theorem extends_directive (env : Env σ) (included : Include σ) (p : Position) (scriptless : Bool)
    (siblings : List Node) :
    Returns (Extends siblings) (directive env included p scriptless siblings) := by
  refine Returns.skip fun _ => Returns.skip fun name => Returns.skip fun _ => Returns.skip fun _ =>
    Returns.skip fun h => ?_
  dsimp only
  split
  iterate 3 exact Returns.skip fun _ => Returns.pure (.push siblings _)
  · exact Returns.skip fun cs => Returns.pure (.push siblings _)
  · exact Returns.pure (.push siblings _)

/-- A construct leaves the page directives before it. -/
theorem extends_construct (env : Env σ) (included : Include σ) (inner : Element σ) (parent : Head)
    (scriptless : Bool) (siblings : List Node) :
    Returns (Extends siblings) (construct env included inner parent scriptless siblings) := by
  refine Returns.skip fun s => Returns.skip fun _ => ?_
  refine Returns.ite (Returns.skip fun _ => Returns.pure (.refl siblings))
    (Returns.skip fun _ => ?_)
  refine Returns.ite (extends_directive env included _ _ _) (Returns.skip fun _ => ?_)
  refine Returns.ite (extends_scripting _ _ _ _ _) (Returns.skip fun _ => ?_)
  refine Returns.ite (extends_scripting _ _ _ _ _) (Returns.skip fun _ => ?_)
  refine Returns.ite (extends_scripting _ _ _ _ _) ?_
  refine Returns.ite (Returns.skip fun c => Returns.skip fun _ => Returns.skip fun name =>
    Returns.skip fun h => Returns.skip fun _ => Returns.skip fun r =>
    Returns.ite (Returns.pure (.push siblings _)) (Returns.skip fun cs =>
      Returns.pure (.push siblings _))) ?_
  refine Returns.ite (extends_expression _ _) (Returns.ite ?_ (Returns.ite ?_ ?_))
  · exact Returns.guard fun _ => extends_templateText _ _
  · split
    · exact Returns.skip fun c => Returns.skip fun _ => Returns.skip fun h => Returns.skip fun r =>
        Returns.ite (Returns.pure (.push siblings _)) (Returns.skip fun cs =>
          Returns.pure (.push siblings _))
    · exact extends_templateText _ _
  · exact extends_templateText _ _

theorem extends_element (env : Env σ) (included : Include σ) (depth : Nat) (parent : Head)
    (scriptless : Bool) (siblings : List Node) :
    Returns (Extends siblings) (element env included depth parent scriptless siblings) := by
  cases depth with
  | zero => exact Returns.throw _
  | succ depth => exact extends_construct env included _ parent scriptless siblings

theorem extends_sourceWithin (env : Env σ) (included : Include σ) (depth : Nat) (parent : Head)
    (scriptless : Bool) (fuel : Nat) (siblings : List Node) : Returns (Extends siblings)
      (sourceWithin (element env included depth) parent scriptless fuel siblings) := by
  induction fuel generalizing siblings with
  | zero => exact Returns.throw _
  | succ fuel ih =>
    refine Returns.skip fun c => Returns.ite (Returns.pure (.refl siblings)) ?_
    exact (extends_element env included depth parent scriptless siblings).bind fun ns hns =>
      (ih ns).mono fun ms hms => hns.trans hms

/-! ### Sources that start with page directives -/

variable {bound : List Taglib} {r : Bytes} {s : State σ}

/-- Text that no construct starts in is added to the siblings. -/
theorem element_plainText (env : Env σ) (included : Include σ) (depth : Nat) (parent : Head)
    {t : Bytes} (ht : IsTail t) (hne : t ≠ []) (hstop : stopsText true r = true)
    (hs : Reading bound (t ++ r) s) (siblings : List Node) :
    element env included (depth + 1) parent false siblings s =
      .ok (Node.push siblings (textNode t s.cursor.position false)) (s.passing t) := by
  obtain ⟨b, w, rfl⟩ := List.exists_cons_of_ne_nil hne
  have h60 : b ≠ 60 := ht.plain.head (by decide)
  have hesc : startsEscape true (b :: w ++ r) = false :=
    startsEscape_eq_false h60 (ht.plain.head (by decide)) (ht.plain.head (by decide)) _
  have hscan : scanText (!s.elIgnored) 0 true s.cursor.rest = (b :: w, (b :: w).length) := by
    rw [hs.elOn, hs.rest]
    exact scanText_tail ht.valid ht.plain.tail hesc hstop
  have hopen : Expression.isOpener (b :: (w ++ r)) = false :=
    Expression.isOpener_eq_false (ht.plain.mono (by decide)) r
  rw [element, construct_text env included _ parent siblings (y := w ++ r) hs h60, hopen]
  exact templateText_eq false siblings hs.rest hscan

/-- The head of a directive, from its text. -/
theorem yields_directiveText (d : DirectiveText) {h : Head} (hk : h.kind.isDirective = true)
    (hempty : pairs h = []) (hs : Reading bound (d.inner ++ (Bytes.ofString "%>" ++ r)) s) :
    Yields (directiveAttributes false (s.cursor.rest.length + 1) h) s fun h' t =>
      h'.kind = h.kind ∧ pairs h' = d.pairs ∧ Reading bound r t := by
  let as : List (Word × Bytes × Bytes) := d.attributes.map fun a => (a.name, a.value, a.value)
  have hinner : d.inner = as.flatMap (fun a => writtenPair (a.1, a.2.1)) ++ " " := by
    rw [DirectiveText.inner, List.flatMap_map]
    rfl
  have hs' : Reading bound
      (as.flatMap (fun a => writtenPair (a.1, a.2.1)) ++ (Bytes.ofString " %>" ++ r)) s := by
    rw [hinner, List.append_assoc] at hs
    exact hs
  have hquotes : ∀ a ∈ as, Quotes a.2.1 a.2.2 := by
    intro a ha
    obtain ⟨c, -, rfl⟩ := List.mem_map.mp ha
    exact quotes_plain (c.plain.mono (by decide))
  have hnames : ((pairs h).map (·.1) ++ as.map (·.1.letters)).Nodup := by
    rw [hempty, List.map_nil, List.nil_append, List.map_map]
    exact d.distinct
  have hfuel : as.length < s.cursor.rest.length + 1 := by
    have hlen := Bytes.length_le_flatMap
      (f := fun a : Word × Bytes × Bytes => writtenPair (a.1, a.2.1))
      (fun a => List.cons_ne_nil _ _) as
    rw [hs'.rest, List.length_append]
    omega
  refine (yields_directiveAttributes hquotes hk hnames hs' hfuel).mono ?_
  rintro h' t ⟨hkind, hpairs, ht⟩
  refine ⟨hkind, ?_, ht⟩
  rw [hpairs, hempty, List.nil_append, DirectiveText.pairs, List.map_map]
  rfl

/-- The expression language stays on where a directive does not say whether it is. -/
theorem yields_applyElIgnored {d : DirectiveText} {h : Head} (hsets : pairs h = d.pairs)
    (hs : Reading bound r s) :
    Yields (applyElIgnored h) s fun _ t => d.Lacks elIgnoredWord → Reading bound r t := by
  rw [applyElIgnored]
  cases hattr : h.attr? "isELIgnored" with
  | none => exact Yields.pure fun _ => hs
  | some a =>
    refine ⟨(), _, rfl, fun hlacks => ?_⟩
    have hfound : (a.name == elIgnoredWord.letters) = true :=
      List.find?_some (p := fun a : Attribute => a.name == elIgnoredWord.letters) hattr
    have hmem : (a.name, a.value) ∈ d.pairs :=
      hsets ▸ List.mem_map_of_mem (List.mem_of_find?_eq_some hattr)
    obtain ⟨c, hc, hpair⟩ := List.mem_map.mp hmem
    exact absurd ((congrArg Prod.fst hpair).trans (eq_of_beq hfound)) (hlacks c hc)

/-- A page directive is added to the siblings with what it says. -/
theorem yields_directive_page (env : Env σ) (included : Include σ) (p : Position)
    (d : DirectiveText) (hs : Reading bound ([32] ++ (Bytes.ofString "page" ++
      (d.inner ++ (Bytes.ofString "%>" ++ r)))) s) (siblings : List Node) :
    Yields (directive env included p false siblings) s fun ns t =>
      pageDirectives ns = pageDirectives siblings ++ [d.pairs] ∧
        (d.Lacks elIgnoredWord → Reading bound r t) := by
  rw [directive]
  refine (hs.skipBlanks (by simp [Bytes.isBlankByte]) (by rintro _ ⟨⟩; rfl)).bind ?_
  intro _ t ht
  refine (ht.readName (by decide) ?_).bind ?_
  · obtain ⟨x, hx⟩ := Charset.inner_eq_cons d
    rw [hx]
    rintro _ ⟨⟩
    rfl
  rintro _ t ⟨rfl, ht⟩
  have hhead : directiveHead "page" p false t =
      .ok { kind := .pageDirective, start := p, name := "page" } t := rfl
  refine Yields.after hhead (Yields.after rfl ?_)
  refine (yields_directiveText d rfl rfl ht).bind ?_
  rintro h u ⟨hkind, hsets, hu⟩
  simp only [hkind]
  refine (yields_applyElIgnored hsets hu).bind fun _ v hv => Yields.pure ⟨?_, hv⟩
  rw [pageDirectives_push, ← hsets]
  simp [pageDirectives, Node.kind, Node.head, hkind]

/-- The source is read on as before after a page directive, unless it turns the expression language
off. -/
theorem element_page (env : Env σ) (included : Include σ) (depth : Nat) (parent : Head)
    (d : DirectiveText) (hs : Reading bound (Bytes.ofString "<%@ page" ++ d.inner ++
      (Bytes.ofString "%>" ++ r)) s) (siblings : List Node) :
    Yields (element env included (depth + 1) parent false siblings) s fun ns t =>
      pageDirectives ns = pageDirectives siblings ++ [d.pairs] ∧
        (d.Lacks elIgnoredWord → Reading bound r t) := by
  have hs' : Reading bound (Bytes.ofString "<%@" ++ ([32] ++ (Bytes.ofString "page" ++
      (d.inner ++ (Bytes.ofString "%>" ++ r))))) s := by
    simp only [List.append_assoc] at hs
    exact hs
  obtain ⟨ns, t, hrun, hns⟩ :=
    yields_directive_page env included s.cursor.position d hs'.passing siblings
  exact ⟨ns, t, (element_opens_directive env included depth parent hs' siblings).trans hrun, hns⟩

/-- A source with something left is read on after one construct. -/
theorem sourceWithin_step {inner : Element σ} {parent : Head} {fuel : Nat} {siblings ns : List Node}
    {t : State σ} (hrun : sourceWithin inner parent false fuel siblings s = .ok ns t)
    (hend : s.cursor.atEnd = false) {P : List Node → State σ → Prop}
    (hstep : Yields (inner parent false siblings) s P) :
    ∃ fuel' siblings' s', P siblings' s' ∧
      sourceWithin inner parent false fuel' siblings' s' = .ok ns t := by
  cases fuel with
  | zero => cases hrun
  | succ fuel =>
    obtain ⟨siblings', s', hinner, hP⟩ := hstep
    rw [sourceWithin, bind_ok (cursor_eq s), hend,
      if_neg Bool.false_ne_true, bind_ok hinner] at hrun
    exact ⟨fuel, siblings', s', hP, hrun⟩

/-- The parser reads a directive, and before it the text. -/
theorem sourceWithin_text (env : Env σ) (included : Include σ) (depth : Nat) {parent : Head}
    {fuel : Nat} {d : DirectiveText} (hbefore : IsTail d.before) {siblings ns : List Node}
    {t : State σ} (hs : Reading bound (d.text ++ r) s)
    (hrun : sourceWithin (element env included (depth + 1)) parent false fuel siblings s =
      .ok ns t) :
    ∃ fuel' siblings' s', (pageDirectives siblings' = pageDirectives siblings ++ [d.pairs] ∧
        (d.Lacks elIgnoredWord → Reading bound r s')) ∧
      sourceWithin (element env included (depth + 1)) parent false fuel' siblings' s' =
        .ok ns t := by
  have hdirective : Bytes.ofString "<%@ page" ++ d.inner ++ (Bytes.ofString "%>" ++ r) ≠ [] :=
    List.append_ne_nil_of_left_ne_nil (List.append_ne_nil_of_left_ne_nil (by decide) _) _
  have hs' : Reading bound (d.before ++ (Bytes.ofString "<%@ page" ++ d.inner ++
      (Bytes.ofString "%>" ++ r))) s := by
    simp only [DirectiveText.text, List.append_assoc] at hs ⊢
    exact hs
  by_cases hne : d.before = []
  · rw [hne, List.nil_append] at hs'
    exact sourceWithin_step hrun (hs'.not_atEnd hdirective)
      (element_page env included depth parent d hs' siblings)
  · have htext := element_plainText env included depth parent hbefore hne rfl hs' siblings
    obtain ⟨fuel, siblings', s', ⟨hsiblings, hs''⟩, hrun⟩ := sourceWithin_step hrun
      (hs'.not_atEnd (List.append_ne_nil_of_left_ne_nil hne _))
      (P := fun ns t => ns = Node.push siblings (textNode d.before s.cursor.position false) ∧
        Reading bound (Bytes.ofString "<%@ page" ++ d.inner ++ (Bytes.ofString "%>" ++ r)) t)
      ⟨_, _, htext, rfl, hs'.passing⟩
    have hsame : pageDirectives siblings' = pageDirectives siblings := by
      rw [hsiblings, pageDirectives_push]
      exact List.append_nil _
    rw [← hsame]
    exact sourceWithin_step hrun (hs''.not_atEnd hdirective)
      (element_page env included depth parent d hs'' siblings')

/-- **The parser reads the directives that a source starts with**, if there is only text between
them and none but the last turns the expression language off. -/
theorem sourceWithin_texts (env : Env σ) (included : Include σ) (depth : Nat) {parent : Head}
    {fuel : Nat} {ds : List DirectiveText} {d : DirectiveText}
    (htails : ∀ q ∈ ds ++ [d], IsTail q.before) (hds : ∀ q ∈ ds, q.Lacks elIgnoredWord)
    {siblings ns : List Node} {t : State σ}
    (hs : Reading bound ((ds ++ [d]).flatMap (·.text) ++ r) s)
    (hrun : sourceWithin (element env included (depth + 1)) parent false fuel siblings s =
      .ok ns t) :
    ∃ more, pageDirectives ns =
      pageDirectives siblings ++ (ds ++ [d]).map DirectiveText.pairs ++ more := by
  induction ds generalizing siblings s fuel with
  | nil =>
    have hs : Reading bound (d.text ++ r) s := by simpa using hs
    obtain ⟨fuel', siblings', s', ⟨hpairs, -⟩, hrest⟩ :=
      sourceWithin_text env included depth (htails d List.mem_cons_self) hs hrun
    obtain ⟨more, hmore⟩ :=
      extends_sourceWithin env included _ parent false fuel' siblings' _ _ _ hrest
    exact ⟨more, by rw [hmore, hpairs]; rfl⟩
  | cons q ds ih =>
    obtain ⟨hq, hds⟩ := List.forall_mem_cons.mp hds
    obtain ⟨hbefore, htails⟩ := List.forall_mem_cons.mp htails
    rw [List.cons_append, List.flatMap_cons, List.append_assoc] at hs
    obtain ⟨fuel', siblings', s', ⟨hpairs, hnext⟩, hrest⟩ :=
      sourceWithin_text env included depth hbefore hs hrun
    obtain ⟨more, hmore⟩ := ih htails hds (hnext hq) hrest
    refine ⟨more, ?_⟩
    rw [hmore, hpairs, List.append_assoc (pageDirectives siblings)]
    rfl

end Parsing.Native

open Parsing.Native (pageDirectives IsTail)

/-- In a native source the parser reads the directives, as the first ones. -/
def ReadsFirst (ds : List DirectiveText) (text : Bytes) : Prop :=
  ∀ (σ : Type) (r : ParseRequest) (host : Host σ) (memory : σ) (root : Node), r.text = text →
    r.actualForm = .native → r.directivesOnly = false → r.elIgnored = false →
    (r.parse host memory).1 = .ok root →
    ∃ more, pageDirectives root.children = ds.map DirectiveText.pairs ++ more

/-- The parser reads the directives that a source starts with, if there is only text between them
and none but the last turns the expression language off. -/
theorem readsFirst_texts {ds : List DirectiveText} {d : DirectiveText}
    (htails : ∀ q ∈ ds ++ [d], IsTail q.before) (hds : ∀ q ∈ ds, q.Lacks elIgnoredWord)
    (rest : Bytes) : ReadsFirst (ds ++ [d]) ((ds ++ [d]).flatMap (·.text) ++ rest) := by
  intro σ r host memory root htext hform hall hel hparse
  have hstart : Parsing.Reading [] ((ds ++ [d]).flatMap (·.text) ++ rest) (r.start memory) :=
    ⟨htext, Nat.zero_add _, rfl, hel⟩
  rw [r.parse_native host memory hform] at hparse
  cases hrun : Parsing.Native.parse (r.env host) (r.included host)
    (r.root (Cursor.ofText r.path r.text).position) false (r.start memory) with
  | error e t =>
    rw [hrun] at hparse
    cases hparse
  | ok ns t =>
    rw [hrun] at hparse
    obtain rfl := Except.ok.inj hparse
    rw [Parsing.Native.parse, bind_ok (Parsing.cursor_eq _),
      if_neg (by simp [ParseRequest.env, hall])] at hrun
    exact Parsing.Native.sourceWithin_texts _ _ _ htails hds hstart hrun

namespace Compiler

variable {c : Compiler} {describe : Bytes → Compile TagDescriptor} {path raw : Bytes}
  {form : PageSyntax} {s t : Session} {u : CompiledUnit}

/-- The encoding of a unit is the one that its source was read in. -/
theorem compileUnit_encoding (hrun : c.compileUnit describe path raw form s = .ok u t) :
    ∃ source, Charset.readSource c.options.encodings path raw (c.fallback s) = .ok source ∧
      u.encoding = source.encoding := by
  have hany : ∀ {α : Type} (x : Compile α) (s : Session),
      Leaves (fun _ => True) x s fun _ _ => True :=
    fun _ _ => ⟨fun _ _ _ => trivial, fun _ _ _ => trivial⟩
  have hnoted : ∀ (message : Bytes) (t : Session) (event : Event), event.message = message →
      True → True := fun _ _ _ _ _ => trivial
  have hleaves : Leaves (fun _ => True) (c.compileUnit describe path raw form) s fun u _ =>
      ∃ source, Charset.readSource c.options.encodings path raw (c.fallback s) = .ok source ∧
        u.encoding = source.encoding := by
    refine Leaves.bracket (Leaves.recovering (Leaves.get (Leaves.bind
      (Q := fun source _ =>
        Charset.readSource c.options.encodings path raw (c.fallback s) = .ok source)
      (Leaves.ofFault (fun _ h => h) trivial) fun source _ hsource => ?_)))
    refine Leaves.bracket (Leaves.modify ?_)
    refine ((hany _ _).noting _ _ (hnoted _)).bind fun _ _ _ => ?_
    refine ((hany _ _).noting _ _ (hnoted _)).bind fun _ _ _ => ?_
    refine Leaves.get (((hany _ _).noting _ _ (hnoted _)).bind fun _ _ _ => ?_)
    exact Leaves.modify (Leaves.pure ⟨source, hsource, rfl⟩)
  exact hleaves.1 u t hrun

end Compiler

namespace Charset

theorem encoding_of_decodeNamed {known : Encodings} {file name raw : Bytes} {source : SourceText}
    (h : decodeNamed known file name raw = .ok source) : source.encoding = name := by
  unfold decodeNamed at h
  split at h
  · obtain rfl := Except.ok.inj h
    rfl
  · cases hname : known name with
    | some decode =>
      rw [hname] at h
      obtain rfl := Except.ok.inj h
      rfl
    | none =>
      rw [hname] at h
      cases h

/-- The encoding in which a source without a byte order mark is read. -/
theorem encoding_of_readSource {known : Encodings} {file raw fallback : Bytes}
    {source : SourceText} (hmark : mark? raw = none)
    (h : readSource known file raw fallback = .ok source) :
    source.encoding = (declared? raw).getD fallback := by
  rw [readSource, hmark] at h
  exact encoding_of_decodeNamed h

end Charset

/-- **The encoding that is used.** A source without a byte order mark and without an XML declaration
that names an encoding is read in the page encoding that the first page directive sets, directives
before it setting neither a page encoding nor a content type. Whatever looks like a page directive
counts as one. Where there is only text between these directives, they are those that the parser
reads. A source in which nothing looks like a page directive is read in the encoding around it. -/
theorem Compiler.encoding_declared {c : Compiler} {describe : Bytes → Compile TagDescriptor}
    {path raw : Bytes} {form : PageSyntax} {s t : Session} {u : CompiledUnit}
    (hrun : c.compileUnit describe path raw form s = .ok u t)
    (hmark : Charset.mark? raw = none)
    (hprolog : Charset.prolog? (raw.take Charset.searchLimit) = none) :
    (∀ (ds : List DirectiveText) (d : DirectiveText) (rest e : Bytes),
      raw = (ds ++ [d]).flatMap (·.text) ++ rest →
      ((ds ++ [d]).flatMap (·.text)).length ≤ Charset.searchLimit →
      (∀ q ∈ ds, q.Lacks Charset.pageEncodingWord ∧ q.Lacks Charset.contentTypeWord) →
      d.Sets Charset.pageEncodingWord e → e ≠ [] →
      u.encoding = e ∧
        ((∀ q ∈ ds ++ [d], IsTail q.before) → (∀ q ∈ ds, q.Lacks elIgnoredWord) →
          ∀ rest', ReadsFirst (ds ++ [d]) ((ds ++ [d]).flatMap (·.text) ++ rest'))) ∧
    (Charset.IsSilent (raw.take Charset.searchLimit) → u.encoding = c.fallback s) := by
  obtain ⟨source, hread, hencoding⟩ := compileUnit_encoding hrun
  have hused : u.encoding = (Charset.declared? raw).getD (c.fallback s) :=
    hencoding.trans (Charset.encoding_of_readSource hmark hread)
  refine ⟨fun ds d rest e hraw hlimit hds hsets hne => ⟨?_, readsFirst_texts⟩, fun hsilent => ?_⟩
  · rw [hused, Charset.declared?_of_text hprolog hraw hlimit hds hsets hne]
    rfl
  · rw [hused, Charset.declared?_of_none hprolog hsilent]
    rfl

/-- A directive that turns the session off. -/
def noSession : DirectiveText where
  before := []
  attributes := [⟨⟨"session", by decide, by decide⟩, "false", by decide, by decide, by decide⟩]
  silent opener h hpart := by
    obtain ⟨o, rfl, -⟩ := h.eq_cons
    cases List.infix_nil.mp hpart
  distinct := by decide

/-- A directive after a line break, with the encoding of the page. -/
def latinEncoding : DirectiveText where
  before := "\n"
  attributes := [⟨Charset.pageEncodingWord, "ISO-8859-1", by decide, by decide, by decide⟩]
  silent opener h hpart := by
    obtain ⟨o, rfl, -⟩ := h.eq_cons
    cases List.mem_singleton.mp (hpart.subset List.mem_cons_self)
  distinct := by decide

/-- A page with both and text in its encoding. -/
def latinPage : Bytes := [noSession, latinEncoding].flatMap (·.text) ++ [0x63, 0x61, 0x66, 0xE9]

theorem Compiler.encoding_declared_latinPage : ∃ u t,
    compileUnit {} (fun _ => throw .crash) "/a.jsp" latinPage .auto {} = .ok u t ∧
      u.encoding = "ISO-8859-1" := by
  have hok : ((compileUnit {} (fun _ => throw .crash) "/a.jsp" latinPage .auto).outcome
      {}).1.toOption.isSome = true := by decide +kernel
  cases hrun : compileUnit {} (fun _ => throw .crash) "/a.jsp" latinPage .auto {} with
  | error e t =>
    rw [Compile.outcome, hrun] at hok
    cases hok
  | ok u t =>
    have hlacks : ∀ q ∈ [noSession],
        q.Lacks Charset.pageEncodingWord ∧ q.Lacks Charset.contentTypeWord :=
      List.forall_mem_singleton.mpr ⟨List.forall_mem_singleton.mpr (by decide),
        List.forall_mem_singleton.mpr (by decide)⟩
    refine ⟨u, t, rfl, ?_⟩
    exact ((encoding_declared hrun (by decide) (by decide)).1 [noSession] latinEncoding
      [0x63, 0x61, 0x66, 0xE9] "ISO-8859-1" rfl (by decide) hlacks
      ⟨_, List.mem_cons_self, rfl, rfl⟩ (by decide)).1

end ServerPages
