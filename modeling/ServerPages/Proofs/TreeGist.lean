import ServerPages.Tree.Equivalence
import ServerPages.Proofs.Bytes
import ServerPages.Proofs.Utf8

/-!
# What a tree says

Trees are compared without their taglib directives and without blanks, texts next to each other
being one text. What is left of a list of nodes is its gist: the bytes of text that are not blank
one by one, code and expressions without their blanks, and tags with what their content says. A
list of nodes conveys a gist however its text is cut into nodes, so the gist of a list is put
together from the gists of its parts.

## Main results

* `Conveys.push`: one more sibling adds its own gist.
* `Conveys.isEquivalent`: trees whose contents convey the same gist are equivalent.
-/

namespace ServerPages

namespace Bytes

/-! ### Text without blanks -/

/-- The bytes of a text that are not blank. -/
def solid (s : Bytes) : Bytes := s.filter (!isBlankByte ·)

theorem solid_append (s t : Bytes) : solid (s ++ t) = solid s ++ solid t := List.filter_append ..

theorem isBlank_iff_solid {s : Bytes} : isBlank s = true ↔ solid s = [] := by
  simp [isBlank, solid, List.filter_eq_nil_iff]

theorem flatten_wordsFrom (sep : Nat → Bool) (word : List Bytes) (ps : List (Nat × Bytes)) :
    (wordsFrom sep word ps).flatten =
      word.reverse.flatten ++ (ps.filter (!sep ·.1)).flatMap (·.2) := by
  induction ps generalizing word with
  | nil =>
    rw [wordsFrom]
    split
    · next h => simp [List.isEmpty_iff.mp h]
    · simp
  | cons p ps ih =>
    rw [wordsFrom]
    by_cases hp : sep p.1 = true
    · rw [if_pos hp, List.filter_cons_of_neg (by simp [hp])]
      split
      · next h => rw [ih, List.isEmpty_iff.mp h]
      · rw [List.flatten_cons, ih]
        simp
    · rw [if_neg hp, ih, List.filter_cons_of_pos (by simp [hp])]
      simp

theorem withoutBlanks_encodeAll {cs : List Nat} (hcs : ∀ c ∈ cs, Utf8.isScalar c = true) :
    Node.withoutBlanks (Utf8.encodeAll cs) =
      Utf8.encodeAll (cs.filter (!Unicode.isSpace ·)) := by
  have hp : Utf8.pieces (Utf8.encodeAll cs) = cs.map fun c => (c, Utf8.encode c) := by
    simpa using Utf8.pieces_encodeAll_append hcs []
  rw [Node.withoutBlanks, fields, wordsBy, flatten_wordsFrom, hp, List.filter_map,
    List.flatMap_map]
  rfl

/-- A character that is a blank byte. -/
def isBlankChar (c : Nat) : Bool := c == 32 || c == 9 || c == 10 || c == 13

theorem isBlankByte_of_mem_encode {c : Nat} {b : UInt8} (hb : b ∈ Utf8.encode c) :
    isBlankByte b = isBlankChar c := by
  by_cases h : c < 0x80
  · rw [Utf8.encode_one h, List.mem_singleton] at hb
    subst hb
    have hall : ∀ n < 0x80, isBlankByte n.toUInt8 = isBlankChar n := by decide
    exact hall c h
  · have hle := Utf8.le_of_mem_encode (Nat.not_lt.mp h) hb
    have hblank : isBlankByte b = false :=
      Bool.eq_false_iff.mpr fun hbl => absurd (lt_of_isBlankByte hbl) (Nat.not_lt.mpr hle)
    have hchar : isBlankChar c = false := by
      rw [Bool.eq_false_iff]
      intro hbl
      simp only [isBlankChar, Bool.or_eq_true, beq_iff_eq] at hbl
      omega
    rw [hblank, hchar]

theorem solid_encodeAll (cs : List Nat) :
    solid (Utf8.encodeAll cs) = Utf8.encodeAll (cs.filter (!isBlankChar ·)) := by
  induction cs with
  | nil => rfl
  | cons c cs ih =>
    have hbytes : ∀ b ∈ Utf8.encode c, isBlankByte b = isBlankChar c := fun _ hb =>
      isBlankByte_of_mem_encode hb
    rw [Utf8.encodeAll_cons, solid_append, ih]
    by_cases hc : isBlankChar c = true
    · have hnil : solid (Utf8.encode c) = [] := by
        rw [solid, List.filter_eq_nil_iff]
        intro b hb
        simp [hbytes b hb, hc]
      rw [hnil, List.filter_cons_of_neg (by simp [hc]), List.nil_append]
    · have hself : solid (Utf8.encode c) = Utf8.encode c := by
        rw [solid, List.filter_eq_self]
        intro b hb
        simp [hbytes b hb, hc]
      rw [hself, List.filter_cons_of_pos (by simp [hc]), Utf8.encodeAll_cons]

/-- The white space that is not a blank does not depend on where the blanks are: well-formed texts
with the same solid bytes are the same without white space. -/
theorem withoutBlanks_congr {s t : Bytes} (hs : Utf8.isValid s = true)
    (ht : Utf8.isValid t = true) (h : solid s = solid t) :
    Node.withoutBlanks s = Node.withoutBlanks t := by
  obtain ⟨cs, hcs, rfl⟩ := (Utf8.isValid_iff s).mp hs
  obtain ⟨ds, hds, rfl⟩ := (Utf8.isValid_iff t).mp ht
  have hchars : ∀ {es : List Nat}, (∀ c ∈ es, Utf8.isScalar c = true) →
      Utf8.chars (Utf8.encodeAll (es.filter (!isBlankChar ·))) = es.filter (!isBlankChar ·) := by
    intro es hes
    simpa using Utf8.chars_encodeAll_append (fun c hc => hes c (List.mem_filter.mp hc).1) []
  have hspace : ∀ es : List Nat, (es.filter (!isBlankChar ·)).filter (!Unicode.isSpace ·) =
      es.filter (!Unicode.isSpace ·) := by
    intro es
    rw [List.filter_filter]
    refine List.filter_congr fun c _ => ?_
    by_cases hc : isBlankChar c = true
    · simp only [isBlankChar, Bool.or_eq_true, beq_iff_eq] at hc
      rcases hc with ((rfl | rfl) | rfl) | rfl <;> decide
    · simp [hc]
  rw [solid_encodeAll, solid_encodeAll] at h
  rw [withoutBlanks_encodeAll hcs, withoutBlanks_encodeAll hds, ← hspace cs, ← hspace ds,
    ← hchars hcs, ← hchars hds, h]

end Bytes

/-! ### Gists -/

/-- A part of what nodes say. -/
inductive Gist where
  /-- A byte of text that is not blank. -/
  | byte (b : UInt8)
  /-- Code or an expression, without its blanks. -/
  | leaf (kind : Kind) (solid : Bytes)
  /-- A tag with its attributes and what its content says. -/
  | tag (uri name : Bytes) (attributes : List (Bytes × AttributeKind × Bytes))
    (content : List Gist)

/-- What a text says. -/
def Gist.ofText (s : Bytes) : List Gist := s.solid.map .byte

theorem Gist.ofText_append (s t : Bytes) : ofText (s ++ t) = ofText s ++ ofText t := by
  rw [ofText, Bytes.solid_append, List.map_append]
  rfl

/-- What is compared of an attribute. -/
def Attribute.said (a : Attribute) : Bytes × AttributeKind × Bytes := (a.name, a.kind, a.value)

/-- Whether a kind is code or an expression. -/
def Kind.isCode (k : Kind) : Bool := k == .elExpression || k.isScripting

/-- A text node apart from where it stands. -/
structure Head.IsText (h : Head) : Prop where
  kind : h.kind = .text
  attributes : h.attributes = []
  valid : Utf8.isValid h.text = true

/-- A node of code or of an expression. -/
structure Head.IsCode (h : Head) : Prop where
  kind : h.kind.isCode = true
  attributes : h.attributes = []
  valid : Utf8.isValid h.text = true

theorem Head.IsCode.kind_ne_text {h : Head} (hc : h.IsCode) : h.kind ≠ .text := by
  intro hk
  have := hc.kind
  rw [hk] at this
  cases this

/-- The invocation `t` of a tag, with attributes of different names. -/
structure Head.Invokes (h : Head) (t : CustomTag) : Prop where
  kind : h.kind = .customTag
  tag : h.tag = some t
  distinct : (h.attributes.map (·.name)).Nodup

/-- What the invocation `t` of a tag says with a content. -/
def Head.tagGist (h : Head) (t : CustomTag) (content : List Gist) : Gist :=
  .tag t.uri t.localName (h.attributes.map (·.said)) content

/-- The nodes say the gist. -/
inductive Conveys : List Node → List Gist → Prop where
  | nil : Conveys [] []
  | directive {n : Node} {ns : List Node} {gs : List Gist} :
      n.kind = .taglibDirective → Conveys ns gs → Conveys (n :: ns) gs
  | text {h : Head} {ns : List Node} {gs : List Gist} :
      h.IsText → Conveys ns gs → Conveys (.leaf h :: ns) (Gist.ofText h.text ++ gs)
  | code {h : Head} {ns : List Node} {gs : List Gist} :
      h.IsCode → Conveys ns gs → Conveys (.leaf h :: ns) (.leaf h.kind h.text.solid :: gs)
  | tag {h : Head} {t : CustomTag} {cs ns : List Node} {bs gs : List Gist} :
      h.Invokes t → Conveys cs bs → Conveys ns gs → Conveys (.mk h cs :: ns) (h.tagGist t bs :: gs)

namespace Conveys

theorem append {ns ms : List Node} {gs hs : List Gist} (hn : Conveys ns gs) (hm : Conveys ms hs) :
    Conveys (ns ++ ms) (gs ++ hs) := by
  induction hn with
  | nil => exact hm
  | directive hk _ ih => exact directive hk ih
  | text ht _ ih =>
    rw [List.append_assoc]
    exact text ht ih
  | code hc _ ih => exact code hc ih
  | tag ht hcs _ _ ih => exact tag ht hcs ih

/-- What the nodes before the last one and the last one say. -/
theorem dropLast {ns : List Node} {gs : List Gist} {n : Node} (h : Conveys (ns ++ [n]) gs) :
    ∃ as bs, gs = as ++ bs ∧ Conveys ns as ∧ Conveys [n] bs := by
  induction ns generalizing gs with
  | nil => exact ⟨[], gs, rfl, nil, h⟩
  | cons m ns ih =>
    cases h with
    | directive hk h =>
      obtain ⟨as, bs, rfl, has, hbs⟩ := ih h
      exact ⟨as, bs, rfl, directive hk has, hbs⟩
    | text ht h =>
      obtain ⟨as, bs, rfl, has, hbs⟩ := ih h
      exact ⟨_, bs, (List.append_assoc ..).symm, text ht has, hbs⟩
    | code hc h =>
      obtain ⟨as, bs, rfl, has, hbs⟩ := ih h
      exact ⟨_, bs, rfl, code hc has, hbs⟩
    | tag ht hcs h =>
      obtain ⟨as, bs, rfl, has, hbs⟩ := ih h
      exact ⟨_, bs, rfl, tag ht hcs has, hbs⟩

/-- A text node with more text says more. -/
theorem extend {a : Node} {gs : List Gist} {s : Bytes} (h : Conveys [a] gs) (ha : a.kind = .text)
    (hs : Utf8.isValid s = true) : Conveys [a.extend s] (gs ++ Gist.ofText s) := by
  cases h with
  | directive hk _ => cases ha.symm.trans hk
  | @text t _ _ ht h =>
    cases h
    rw [List.append_nil, ← Gist.ofText_append, ← List.append_nil (Gist.ofText _)]
    exact text (h := { t with text := t.text ++ s })
      ⟨ht.kind, ht.attributes, Utf8.isValid_append ht.valid hs⟩ nil
  | code hc _ => exact absurd ha hc.kind_ne_text
  | tag ht _ _ => cases ha.symm.trans ht.kind

/-- One more sibling adds its own gist, also where its text is added to the text before it. -/
theorem push {siblings : List Node} {n : Node} {gs hs : List Gist} (h : Conveys siblings gs)
    (hn : Conveys [n] hs) : Conveys (Node.push siblings n) (gs ++ hs) := by
  rcases List.eq_nil_or_concat siblings with rfl | ⟨front, last, rfl⟩
  · cases h
    exact hn
  rw [List.concat_eq_append] at h ⊢
  rw [Node.push, List.getLast?_concat]
  dsimp only
  split
  · next hmerge =>
      simp only [Bool.and_eq_true, beq_iff_eq] at hmerge
      obtain ⟨⟨hnk, hlk⟩, -⟩ := hmerge
      obtain ⟨as, bs, rfl, has, hbs⟩ := h.dropLast
      rw [List.dropLast_concat, List.append_assoc]
      refine has.append ?_
      cases hn with
      | directive hk _ => cases hnk.symm.trans hk
      | text ht hnil =>
        cases hnil
        rw [List.append_nil]
        exact hbs.extend hlk ht.valid
      | code hc _ => exact absurd hnk hc.kind_ne_text
      | tag ht _ _ => cases hnk.symm.trans ht.kind
  · exact h.append hn

end Conveys

/-! ### Reduced lists -/

/-- What is said does not start with text. -/
def Gist.StopsText : List Gist → Prop
  | .byte _ :: _ => False
  | _ => True

/-- Only one way to tell text from what follows it: the bytes before the first thing that is not
text. -/
theorem Gist.ofText_append_inj {s t : Bytes} {gs hs : List Gist} (hg : StopsText gs)
    (hh : StopsText hs) (h : ofText s ++ gs = ofText t ++ hs) : s.solid = t.solid ∧ gs = hs := by
  unfold ofText at h
  generalize s.solid = bs at h ⊢
  generalize t.solid = cs at h ⊢
  induction bs generalizing cs with
  | nil =>
    cases cs with
    | nil => exact ⟨rfl, h⟩
    | cons c cs =>
      rw [List.map_nil, List.nil_append] at h
      subst h
      exact hg.elim
  | cons b bs ih =>
    cases cs with
    | nil =>
      rw [List.map_nil, List.nil_append] at h
      subst h
      exact hh.elim
    | cons c cs =>
      obtain ⟨hbc, htail⟩ := List.cons.inj h
      obtain ⟨rfl, rfl⟩ := ih cs htail
      exact ⟨by rw [Gist.byte.inj hbc], rfl⟩

theorem Gist.not_stopsText_ofText {s : Bytes} (hs : s.solid ≠ []) (gs : List Gist) :
    ¬ StopsText (ofText s ++ gs) := by
  obtain ⟨b, bs, hb⟩ := List.exists_cons_of_ne_nil hs
  rw [ofText, hb]
  exact id

/-- The nodes say the gist with only the nodes that count, all text in one place being one node. -/
inductive Reduced : List Node → List Gist → Prop where
  | nil : Reduced [] []
  | text {h : Head} {ns : List Node} {gs : List Gist} :
      h.IsText → h.text.solid ≠ [] → Gist.StopsText gs → Reduced ns gs →
        Reduced (.leaf h :: ns) (Gist.ofText h.text ++ gs)
  | code {h : Head} {ns : List Node} {gs : List Gist} :
      h.IsCode → Reduced ns gs → Reduced (.leaf h :: ns) (.leaf h.kind h.text.solid :: gs)
  | tag {h : Head} {t : CustomTag} {cs ns : List Node} {bs gs : List Gist} :
      h.Invokes t → Reduced cs bs → Reduced ns gs → Reduced (.mk h cs :: ns) (h.tagGist t bs :: gs)

namespace Node

/-- Only the last of the nodes kept so far matters to the ones that follow. -/
theorem gather_concat (kept : List Node) (last : Node) (cs : List Node) :
    gather (kept ++ [last]) cs = kept ++ gather [last] cs := by
  induction cs generalizing kept last with
  | nil => rfl
  | cons c cs ih =>
    rw [gather, gather]
    split
    · exact ih kept last
    · rw [List.getLast?_concat, List.getLast?_singleton]
      dsimp only
      split
      · rw [List.dropLast_concat, ih]
        rfl
      · rw [ih (kept ++ [last]) c, List.append_assoc]
        exact congrArg (kept ++ ·) (ih [last] c).symm

theorem gather_dropped {c : Node} (h : (c.kind == .taglibDirective || c.isBlankText) = true)
    (kept cs : List Node) : gather kept (c :: cs) = gather kept cs := by
  rw [gather, if_pos h]

theorem gather_first {c : Node} (h : (c.kind == .taglibDirective || c.isBlankText) = false)
    (cs : List Node) : gather [] (c :: cs) = gather [c] cs := by
  rw [gather, h]
  rfl

theorem gather_merged {c last : Node}
    (h : (c.kind == .taglibDirective || c.isBlankText) = false) (hc : c.kind = .text)
    (hl : last.kind = .text) (cs : List Node) :
    gather [last] (c :: cs) = gather [last.extend c.text] cs := by
  rw [gather, h, if_neg Bool.false_ne_true, List.getLast?_singleton, hc]
  dsimp only
  rw [hl]
  rfl

theorem gather_kept {c last : Node}
    (h : (c.kind == .taglibDirective || c.isBlankText) = false)
    (hk : c.kind ≠ .text ∨ last.kind ≠ .text) (cs : List Node) :
    gather [last] (c :: cs) = last :: gather [c] cs := by
  have hno : ¬ (c.kind == .text && last.kind == .text) = true := by
    rw [Bool.and_eq_true, beq_iff_eq, beq_iff_eq]
    rintro ⟨hc, hl⟩
    exact hk.elim (absurd hc) (absurd hl)
  rw [gather, h, if_neg Bool.false_ne_true, List.getLast?_singleton]
  dsimp only
  rw [if_neg hno, gather_concat]
  rfl

end Node

/-- The node `n`, which is not text, says `g` before whatever follows it. -/
structure Opens (n : Node) (g : Gist) : Prop where
  kind : n.kind ≠ .text
  counts : (n.kind == .taglibDirective || n.isBlankText) = false
  stops : ∀ gs, Gist.StopsText (g :: gs)
  before : ∀ {ms gs}, Reduced ms gs → Reduced (n :: ms) (g :: gs)

theorem Head.IsCode.opens {h : Head} (hc : h.IsCode) :
    Opens (.leaf h) (.leaf h.kind h.text.solid) := by
  have hne := hc.kind_ne_text
  refine ⟨hne, ?_, fun _ => trivial, Reduced.code hc⟩
  have hd : h.kind ≠ .taglibDirective := by
    intro hk
    have := hc.kind
    rw [hk] at this
    cases this
  rw [Bool.or_eq_false_iff, Node.isBlankText, Bool.and_eq_false_iff]
  exact ⟨beq_eq_false_iff_ne.mpr hd, Or.inl (beq_eq_false_iff_ne.mpr hne)⟩

theorem Head.Invokes.opens {h : Head} {t : CustomTag} (ht : h.Invokes t) {cs : List Node}
    {bs : List Gist} (hcs : Reduced cs bs) : Opens (.mk h cs) (h.tagGist t bs) := by
  have hk : (Node.mk h cs).kind = .customTag := ht.kind
  refine ⟨by rw [hk]; decide, ?_, fun _ => trivial, Reduced.tag ht hcs⟩
  rw [Node.isBlankText, hk]
  rfl

/-- Gathering the nodes gives a reduced list, whatever stands before them. -/
structure Gathers (ms : List Node) (gs : List Gist) : Prop where
  alone : Reduced (Node.gather [] ms) gs
  afterText : ∀ {t : Head}, t.IsText → t.text.solid ≠ [] →
    Reduced (Node.gather [.leaf t] ms) (Gist.ofText t.text ++ gs)
  afterOther : ∀ {n : Node} {g : Gist}, Opens n g → Reduced (Node.gather [n] ms) (g :: gs)

theorem Gathers.nil : Gathers [] [] where
  alone := Reduced.nil
  afterText ht hne := Reduced.text ht hne trivial Reduced.nil
  afterOther hn := hn.before Reduced.nil

theorem Gathers.dropped {c : Node} {ms : List Node} {gs : List Gist}
    (hc : (c.kind == .taglibDirective || c.isBlankText) = true) (h : Gathers ms gs) :
    Gathers (c :: ms) gs where
  alone := by rw [Node.gather_dropped hc]; exact h.alone
  afterText ht hne := by rw [Node.gather_dropped hc]; exact h.afterText ht hne
  afterOther hn := by rw [Node.gather_dropped hc]; exact h.afterOther hn

theorem Gathers.other {c : Node} {g : Gist} {ms : List Node} {gs : List Gist} (hc : Opens c g)
    (h : Gathers ms gs) : Gathers (c :: ms) (g :: gs) where
  alone := by
    rw [Node.gather_first hc.counts]
    exact h.afterOther hc
  afterText ht hne := by
    rw [Node.gather_kept hc.counts (Or.inl hc.kind)]
    exact Reduced.text ht hne (hc.stops gs) (h.afterOther hc)
  afterOther hn := by
    rw [Node.gather_kept hc.counts (Or.inl hc.kind)]
    exact hn.before (h.afterOther hc)

theorem Gathers.text {t : Head} {ms : List Node} {gs : List Gist} (ht : t.IsText)
    (h : Gathers ms gs) : Gathers (.leaf t :: ms) (Gist.ofText t.text ++ gs) := by
  have hk : (Node.leaf t).kind = .text := ht.kind
  by_cases hblank : t.text.isBlank = true
  · have hc : ((Node.leaf t).kind == .taglibDirective || (Node.leaf t).isBlankText) = true := by
      rw [Node.isBlankText, hk]
      exact hblank
    have hnil : Gist.ofText t.text = [] := by
      rw [Gist.ofText, Bytes.isBlank_iff_solid.mp hblank]
      rfl
    rw [hnil]
    exact h.dropped hc
  · have hc : ((Node.leaf t).kind == .taglibDirective || (Node.leaf t).isBlankText) = false := by
      rw [Node.isBlankText, hk]
      exact Bool.eq_false_iff.mpr hblank
    have hne : t.text.solid ≠ [] := fun hnil => hblank (Bytes.isBlank_iff_solid.mpr hnil)
    refine ⟨?_, fun {u} hu hune => ?_, fun {n g} hn => ?_⟩
    · rw [Node.gather_first hc]
      exact h.afterText ht hne
    · have hv := Utf8.isValid_append hu.valid ht.valid
      have hsolid : (u.text ++ t.text).solid ≠ [] := by
        rw [Bytes.solid_append]
        exact List.append_ne_nil_of_left_ne_nil hune _
      have hl : (Node.leaf u).kind = .text := hu.kind
      rw [Node.gather_merged hc hk hl, ← List.append_assoc, ← Gist.ofText_append]
      exact h.afterText (t := { u with text := u.text ++ t.text }) ⟨hu.kind, hu.attributes, hv⟩
        hsolid
    · rw [Node.gather_kept hc (Or.inr hn.kind)]
      exact hn.before (h.afterText ht hne)

/-- What nodes say is kept by dropping and merging what does not count. -/
theorem Conveys.gathers {ns : List Node} {gs : List Gist} (h : Conveys ns gs) :
    Gathers (Node.significantAll ns) gs := by
  induction h with
  | nil => exact Gathers.nil
  | @directive n ns gs hk _ ih =>
    rcases n with ⟨d, cs⟩
    have hk' : (Node.significant (.mk d cs)).kind = .taglibDirective := hk
    exact ih.dropped (by rw [hk']; rfl)
  | text ht _ ih => exact ih.text ht
  | code hc _ ih => exact Gathers.other hc.opens ih
  | tag ht _ _ ihcs ih => exact Gathers.other (ht.opens ihcs.alone) ih

/-! ### Comparison -/

/-- An attribute is found by its name if no other has it. -/
theorem Head.attr?_of_mem {h : Head} (hd : (h.attributes.map (·.name)).Nodup) {a : Attribute}
    (ha : a ∈ h.attributes) : h.attr? a.name = some a := by
  rw [attr?]
  generalize h.attributes = as at hd ha
  induction as with
  | nil => cases ha
  | cons b as ih =>
    rw [List.map_cons, List.nodup_cons] at hd
    rcases List.mem_cons.mp ha with rfl | ha
    · exact List.find?_cons_of_pos (by simp)
    · have hne : b.name ≠ a.name := fun he => hd.1 (he ▸ List.mem_map_of_mem ha)
      rw [List.find?_cons_of_neg (by simpa using hne)]
      exact ih hd.2 ha

/-- Attributes of different names that say the same have no difference. -/
theorem attributeDifference?_eq_none {a b : Head} (ha : (a.attributes.map (·.name)).Nodup)
    (h : a.attributes.map (·.said) = b.attributes.map (·.said)) (here : Bytes) :
    Node.attributeDifference? here a b = none := by
  have hlen : a.attributes.length = b.attributes.length := by
    simpa using congrArg List.length h
  rw [Node.attributeDifference?, hlen, if_neg (by simp), List.findSome?_eq_none_iff]
  intro x hx
  have hnames : b.attributes.map (·.name) = a.attributes.map (·.name) := by
    have := congrArg (List.map Prod.fst) h
    rw [List.map_map, List.map_map] at this
    exact this.symm
  obtain ⟨y, hy, hsaid⟩ : ∃ y ∈ b.attributes, y.said = x.said := by
    have hmem : x.said ∈ b.attributes.map (·.said) := h ▸ List.mem_map_of_mem hx
    simpa using hmem
  obtain ⟨hname, hrest⟩ := Prod.mk.inj hsaid
  obtain ⟨hkind, hvalue⟩ := Prod.mk.inj hrest
  have hfind : b.attr? x.name = some y := by
    rw [← hname]
    exact Head.attr?_of_mem (hnames ▸ ha) hy
  rw [hfind]
  simp [hkind, hvalue]

theorem attributeDifference?_nil {a b : Head} (ha : a.attributes = []) (hb : b.attributes = [])
    (here : Bytes) : Node.attributeDifference? here a b = none :=
  attributeDifference?_eq_none (by rw [ha]; exact List.nodup_nil) (by rw [ha, hb]) here

/-- Nodes of one kind that have no difference of their own are as different as their children. -/
theorem compare_of_heads {a b : Head} {cs ds : List Node} (hk : a.kind = b.kind)
    (hown : ∀ here, Node.ownDifference? here a b = .ok none)
    (hattr : ∀ here, Node.attributeDifference? here a b = none)
    (hlen : cs.length = ds.length) (hcs : ∀ here i, Node.compareAll here i cs ds = .ok none)
    (path : Bytes) : Node.compare path (.mk a cs) (.mk b ds) = .ok none := by
  rw [Node.compare, if_neg (by simp [hk]), hown, hlen, hattr]
  simp only [bind, Except.bind, Option.orElse_eq_orElse, Option.orElse_none, bne_self_eq_false,
    Bool.false_eq_true, if_false]
  exact hcs _ _

theorem ownDifference?_text {a b : Head} (hk : a.kind = .text ∨ a.kind.isCode = true)
    (h : Node.withoutBlanks a.text = Node.withoutBlanks b.text) (here : Bytes) :
    Node.ownDifference? here a b = .ok none := by
  have hno : ¬ (Node.withoutBlanks a.text != Node.withoutBlanks b.text) = true := by simp [h]
  rw [Node.ownDifference?]
  split
  · exact if_neg hno
  · exact if_neg hno
  · exact if_neg hno
  · exact if_neg hno
  · exact if_neg hno
  · simp_all [Kind.isCode, Kind.isScripting]
  · simp_all [Kind.isCode, Kind.isScripting]
  · rfl

namespace Reduced

/-- What follows text in a reduced list is found again in any list that says the same. -/
theorem text_inv {ns : List Node} {s : Bytes} {gs : List Gist} (hs : s.solid ≠ [])
    (hg : Gist.StopsText gs) (h : Reduced ns (Gist.ofText s ++ gs)) :
    ∃ (b : Head) (ms : List Node), ns = .leaf b :: ms ∧ b.IsText ∧ b.text.solid = s.solid ∧
      Reduced ms gs := by
  have hno := Gist.not_stopsText_ofText hs gs
  generalize hk : Gist.ofText s ++ gs = ks at h hno
  cases h with
  | nil => exact absurd trivial hno
  | text hb _ hstop hms =>
    obtain ⟨hsolid, rfl⟩ := Gist.ofText_append_inj hg hstop hk
    exact ⟨_, _, rfl, hb, hsolid.symm, hms⟩
  | code _ _ => exact absurd trivial hno
  | tag _ _ _ => exact absurd trivial hno

/-- Reduced lists that say the same have no difference. -/
theorem compareAll_eq_none {ms ns : List Node} {gs : List Gist} (hm : Reduced ms gs)
    (hn : Reduced ns gs) :
    ms.length = ns.length ∧ ∀ here i, Node.compareAll here i ms ns = .ok none := by
  have hcons : ∀ {a b : Node} {as bs : List Node},
      (∀ path, Node.compare path a b = .ok none) →
      (as.length = bs.length ∧ ∀ here i, Node.compareAll here i as bs = .ok none) →
      (a :: as).length = (b :: bs).length ∧
        ∀ here i, Node.compareAll here i (a :: as) (b :: bs) = .ok none := by
    rintro a b as bs hab ⟨hlen, has⟩
    refine ⟨by rw [List.length_cons, List.length_cons, hlen], fun here i => ?_⟩
    rw [Node.compareAll, hab]
    exact has _ _
  have hleaf : (([] : List Node).length = ([] : List Node).length) ∧
      ∀ here i, Node.compareAll here i [] [] = .ok none :=
    ⟨rfl, fun here i => by rw [Node.compareAll]; simp⟩
  induction hm generalizing ns with
  | nil =>
    have hstops : Gist.StopsText [] := trivial
    generalize hk : ([] : List Gist) = ks at hn hstops
    cases hn with
    | nil => exact hleaf
    | text _ hne _ _ => exact absurd hstops (Gist.not_stopsText_ofText hne _)
    | code _ _ => cases hk
    | tag _ _ _ => cases hk
  | @text h ms gs ht hne hstop hms ih =>
    obtain ⟨b, bs, rfl, hb, hsolid, hbs⟩ := text_inv hne hstop hn
    refine hcons (compare_of_heads (ht.kind.trans hb.kind.symm) ?_ ?_ hleaf.1 hleaf.2) (ih hbs)
    · exact ownDifference?_text (Or.inl ht.kind)
        (Bytes.withoutBlanks_congr ht.valid hb.valid hsolid.symm)
    · exact attributeDifference?_nil ht.attributes hb.attributes
  | @code h ms gs hc hms ih =>
    have hstops : Gist.StopsText (.leaf h.kind h.text.solid :: gs) := trivial
    generalize hk : Gist.leaf h.kind h.text.solid :: gs = ks at hn hstops
    cases hn with
    | nil => cases hk
    | text _ hne _ _ => exact absurd hstops (Gist.not_stopsText_ofText hne _)
    | @code b bs hs hb hbs =>
      obtain ⟨hhead, rfl⟩ := List.cons.inj hk
      obtain ⟨hkind, hsolid⟩ := Gist.leaf.inj hhead
      refine hcons (compare_of_heads hkind ?_ ?_ hleaf.1 hleaf.2) (ih hbs)
      · exact ownDifference?_text (Or.inr hc.kind)
          (Bytes.withoutBlanks_congr hc.valid hb.valid hsolid)
      · exact attributeDifference?_nil hc.attributes hb.attributes
    | tag _ _ _ => cases (List.cons.inj hk).1
  | @tag h t cs ms bs gs ht hcs hms ihcs ih =>
    have hstops : Gist.StopsText (h.tagGist t bs :: gs) := trivial
    generalize hk : h.tagGist t bs :: gs = ks at hn hstops
    cases hn with
    | nil => cases hk
    | text _ hne _ _ => exact absurd hstops (Gist.not_stopsText_ofText hne _)
    | code _ _ => cases (List.cons.inj hk).1
    | @tag h' t' cs' ms' bs' gs' ht' hcs' hms' =>
      obtain ⟨hhead, rfl⟩ := List.cons.inj hk
      obtain ⟨huri, hname, hattrs, rfl⟩ := Gist.tag.inj hhead
      obtain ⟨hlen, hcompare⟩ := ihcs hcs'
      refine hcons (compare_of_heads (ht.kind.trans ht'.kind.symm) (fun here => ?_)
        (attributeDifference?_eq_none ht.distinct hattrs) hlen hcompare) (ih hms')
      rw [Node.ownDifference?, ht.kind, ht.tag, ht'.tag]
      simp [huri, hname]

end Reduced

/-- **Trees whose contents say the same are equivalent**, both ways. -/
theorem Conveys.isEquivalent {a b : Head} {ns ms : List Node} {gs : List Gist}
    (ha : a.kind = .root) (hb : b.kind = .root) (hattr : a.attributes = [])
    (hattr' : b.attributes = []) (hn : Conveys ns gs) (hm : Conveys ms gs) :
    (Node.mk a ns).isEquivalent (.mk b ms) = .ok true := by
  obtain ⟨hlen, hcompare⟩ := Reduced.compareAll_eq_none hn.gathers.alone hm.gathers.alone
  have hdiff : (Node.mk a ns).difference (.mk b ms) = .ok none := by
    refine compare_of_heads (ha.trans hb.symm) (fun here => ?_)
      (attributeDifference?_nil hattr hattr') hlen hcompare []
    rw [Node.ownDifference?, ha]
  rw [Node.isEquivalent, hdiff]
  rfl

end ServerPages
