import Mathlib.Logic.Relation
import ServerPages.Proofs.TreeForms

/-!
# Edits that equivalence does not notice

Equivalence of trees is sameness of form, so it is an equivalence, and blind to every edit that
leaves the form alone: taglib directives and blank text, a text in two pieces, the order of
attributes, blanks in a text.

White space is dropped from a text character by character. A blank can part the bytes of a
white-space character, which are read as white space no more; nowhere else is a blank noticed, not
even between the bytes of another character, which are kept whether they are one or not.

## Main results

* `Bytes.withoutBlanks_insert_iff`: where blanks in a text do not count.
* `Node.Edit.form_eq`: edits that are not to count keep the form.
* `Node.isEquivalent_equivalence`: equivalence is one on parsed trees, and blind to such edits.
-/

namespace ServerPages

namespace Bytes

/-! ### White space in a text -/

theorem withoutBlanks_eq (s : Bytes) : Node.withoutBlanks s =
    ((Utf8.pieces s).filter (!Unicode.isSpace ·.1)).flatMap (·.2) := by
  rw [Node.withoutBlanks, fields, wordsBy, flatten_wordsFrom]
  rfl

theorem withoutBlanks_broken {b : UInt8} {s : Bytes}
    (h : Utf8.charAt b s = (Utf8.replacement, 1)) :
    Node.withoutBlanks (b :: s) = b :: Node.withoutBlanks s := by
  have hno : Unicode.isSpace Utf8.replacement = false := by decide
  rw [withoutBlanks_eq, Utf8.pieces_cons, h, List.filter_cons_of_pos (by simp [hno]),
    List.flatMap_cons, withoutBlanks_eq]
  rfl

theorem withoutBlanks_encode_append {c : Nat} (hc : Utf8.isScalar c = true) (s : Bytes) :
    Node.withoutBlanks (Utf8.encode c ++ s) =
      (if Unicode.isSpace c then [] else Utf8.encode c) ++ Node.withoutBlanks s := by
  rw [withoutBlanks_eq, Utf8.pieces_encode_append hc, List.filter_cons, withoutBlanks_eq]
  cases Unicode.isSpace c <;> rfl

theorem withoutBlanks_tail {s : Bytes} (hs : ∀ b ∈ s, Utf8.isStart b ≠ true) (t : Bytes) :
    Node.withoutBlanks (s ++ t) = s ++ Node.withoutBlanks t := by
  induction s with
  | nil => rfl
  | cons b s ih =>
    obtain ⟨hb, hs⟩ := List.forall_mem_cons.mp hs
    rw [List.cons_append, withoutBlanks_broken (Utf8.charAt_of_not_start hb _), ih hs,
      List.cons_append]

/-- The bytes of a character that is cut are kept one by one. -/
theorem withoutBlanks_cut {c : Nat} (hc : Utf8.isScalar c = true) {b : UInt8} {s t : Bytes}
    (he : Utf8.encode c = b :: (s ++ t)) (ht : t ≠ []) :
    Node.withoutBlanks (b :: s) = b :: s ∧
      ∀ {u}, Node.withoutBlanks (t ++ u) = t ++ Node.withoutBlanks u := by
  have htail := Utf8.isStart_ne_true_of_encode hc he
  refine ⟨?_, withoutBlanks_tail (fun d hd => htail d (List.mem_append_right s hd)) _⟩
  have hs := withoutBlanks_tail (fun d hd => htail d (List.mem_append_left t hd)) []
  rw [List.append_nil] at hs
  rw [withoutBlanks_broken (Utf8.charAt_of_cut hc he ht), hs]
  exact congrArg (b :: ·) (List.append_nil s)

/-- A white-space character has its first bytes at the end of `s` and the others at the start of
`t`. -/
def PartsSpace (s t : Bytes) : Prop :=
  ∃ c x y, Unicode.isSpace c = true ∧ Utf8.encode c = x ++ y ∧ x ≠ [] ∧ y ≠ [] ∧ x <:+ s ∧ y <+: t

theorem PartsSpace.of_suffix {r s t : Bytes} (h : PartsSpace s t) (hs : s <:+ r) :
    PartsSpace r t := by
  obtain ⟨c, x, y, hc, he, hx, hy, hxs, hyt⟩ := h
  exact ⟨c, x, y, hc, he, hx, hy, hxs.trans hs, hyt⟩

theorem isScalar_of_isSpace {c : Nat} (h : Unicode.isSpace c = true) : Utf8.isScalar c = true := by
  simp only [Unicode.isSpace, Bool.or_eq_true, Bool.and_eq_true, beq_iff_eq, decide_eq_true_eq] at h
  simp only [Utf8.isScalar, Bool.or_eq_true, Bool.and_eq_true, decide_eq_true_eq]
  omega

/-- Before a byte at which a character may start there is no character to part. -/
theorem not_partsSpace_of_start {t : Bytes} (ht : ∀ b ∈ t.head?, Utf8.isStart b = true)
    (s : Bytes) : ¬PartsSpace s t := by
  rintro ⟨c, x, y, hspace, he, hx, hy, -, v, rfl⟩
  obtain ⟨b, x, rfl⟩ := List.exists_cons_of_ne_nil hx
  obtain ⟨d, y, rfl⟩ := List.exists_cons_of_ne_nil hy
  exact Utf8.isStart_ne_true_of_encode (isScalar_of_isSpace hspace) he d (by simp) (ht d rfl)

/-- Induction on the characters before the cut. Where the bytes of one are cut, it is no white
space, and they are kept one by one. -/
theorem withoutBlanks_append {s t : Bytes} (h : ¬PartsSpace s t) :
    Node.withoutBlanks (s ++ t) = Node.withoutBlanks s ++ Node.withoutBlanks t := by
  induction s using Utf8.char_induction with
  | nil => rfl
  | broken b s hb ih =>
    rcases Utf8.charAt_append_of_broken hb t with hbroken | ⟨c, r, u, hc, he, hr, rfl⟩
    · have hs : ¬PartsSpace s t := fun hs => h (hs.of_suffix (List.suffix_cons b s))
      rw [List.cons_append, withoutBlanks_broken hbroken, withoutBlanks_broken hb, ih hs,
        List.cons_append]
    · have hno : Unicode.isSpace c ≠ true := fun hspace =>
        h ⟨c, b :: s, r, hspace, he, List.cons_ne_nil _ _, hr, List.suffix_refl _,
          List.prefix_append r u⟩
      obtain ⟨hbefore, hafter⟩ := withoutBlanks_cut hc he hr
      rw [hbefore, hafter, ← List.append_assoc, List.cons_append, ← he,
        withoutBlanks_encode_append hc, if_neg hno, he, List.cons_append, List.append_assoc]
      rfl
  | char c s hc ih =>
    have hs : ¬PartsSpace s t := fun hs => h (hs.of_suffix (List.suffix_append _ s))
    rw [List.append_assoc, withoutBlanks_encode_append hc, withoutBlanks_encode_append hc, ih hs,
      List.append_assoc]

theorem withoutBlanks_append_start {t : Bytes} (ht : ∀ b ∈ t.head?, Utf8.isStart b = true)
    (s : Bytes) : Node.withoutBlanks (s ++ t) = Node.withoutBlanks s ++ Node.withoutBlanks t :=
  withoutBlanks_append (not_partsSpace_of_start ht s)

theorem isSpace_of_isBlankByte {b : UInt8} (h : isBlankByte b = true) :
    Unicode.isSpace b.toNat = true := by
  rcases isBlankByte_iff.mp h with rfl | rfl | rfl | rfl <;> decide

/-- Blanks before a text add no characters but white space. -/
theorem withoutBlanks_blanks_append {blanks : Bytes} (hb : isBlank blanks = true) (s : Bytes) :
    Node.withoutBlanks (blanks ++ s) = Node.withoutBlanks s := by
  induction blanks with
  | nil => rfl
  | cons b blanks ih =>
    rw [isBlank, List.all_cons, Bool.and_eq_true] at hb
    have hchar := Utf8.charAt_one (blanks ++ s) (lt_of_isBlankByte hb.1)
    have hspace := isSpace_of_isBlankByte hb.1
    rw [← ih hb.2, List.cons_append, withoutBlanks_eq, Utf8.pieces_cons, hchar,
      List.filter_cons_of_neg (by simp [hspace]), withoutBlanks_eq]
    rfl

/-- Blanks in a text do not count, unless they part the bytes of a white-space character: then
these are white space no more. -/
theorem withoutBlanks_insert_iff {s t blanks : Bytes} (hb : isBlank blanks = true)
    (hne : blanks ≠ []) :
    Node.withoutBlanks (s ++ blanks ++ t) = Node.withoutBlanks (s ++ t) ↔ ¬PartsSpace s t := by
  have hapart : Node.withoutBlanks (s ++ blanks ++ t) =
      Node.withoutBlanks s ++ Node.withoutBlanks t := by
    obtain ⟨b, blanks, rfl⟩ := List.exists_cons_of_ne_nil hne
    have hlt := lt_of_isBlankByte (List.all_eq_true.mp hb b List.mem_cons_self)
    have hstart : ∀ c ∈ (b :: blanks ++ t).head?, Utf8.isStart c = true := fun c hc => by
      obtain rfl := Option.some.inj hc
      exact Utf8.isStart_iff.mpr (.inl hlt)
    rw [List.append_assoc, withoutBlanks_append_start hstart, withoutBlanks_blanks_append hb]
  rw [hapart]
  refine ⟨?_, fun h => (withoutBlanks_append h).symm⟩
  rintro h ⟨c, x, y, hspace, he, hx, hy, ⟨u, rfl⟩, ⟨v, rfl⟩⟩
  have hc := isScalar_of_isSpace hspace
  obtain ⟨b, x, rfl⟩ := List.exists_cons_of_ne_nil hx
  have hstart : ∀ (z : Bytes), ∀ d ∈ (b :: z).head?, Utf8.isStart d = true := fun z d hd => by
    obtain rfl := Option.some.inj hd
    exact Utf8.isStart_of_encode hc he
  obtain ⟨hbefore, hafter⟩ := withoutBlanks_cut hc he hy
  have hparted : Node.withoutBlanks (u ++ b :: x) ++ Node.withoutBlanks (y ++ v) =
      Node.withoutBlanks u ++ b :: x ++ (y ++ Node.withoutBlanks v) := by
    rw [withoutBlanks_append_start (hstart x), hbefore, hafter]
  have hwhole : Node.withoutBlanks (u ++ b :: x ++ (y ++ v)) =
      Node.withoutBlanks u ++ Node.withoutBlanks v := by
    have hread := withoutBlanks_encode_append hc v
    rw [if_pos hspace, he] at hread
    rw [List.append_assoc, List.cons_append, withoutBlanks_append_start (hstart _),
      ← List.append_assoc, ← List.cons_append, ← List.cons_append, hread, List.nil_append]
  have hlen := congrArg List.length (hparted.symm.trans (h.trans hwhole))
  simp only [List.length_append, List.length_cons] at hlen
  omega

end Bytes

theorem TreeForm.ofText_insert {s t blanks : Bytes} (h : ¬s.PartsSpace t)
    (hb : blanks.isBlank = true) (hne : s ++ t ≠ []) :
    ofText (s ++ blanks ++ t) = ofText (s ++ t) := by
  have hmore : s ++ blanks ++ t ≠ [] := fun hnil => hne (by simp_all)
  rcases eq_or_ne blanks [] with rfl | hblanks
  · rw [List.append_nil]
  · rw [ofText, ofText, if_neg hmore, if_neg hne, (Bytes.withoutBlanks_insert_iff hb hblanks).mpr h]

namespace Node

/-! ### Edits that do not count -/

/-- The text that stands right after some nodes, `s` standing before them. -/
def textBefore (s : Bytes) : List Node → Bytes
  | [] => s
  | c :: cs =>
    if c.isIgnored then textBefore s cs
    else if c.kind == .text then textBefore (s ++ c.text) cs
    else textBefore [] cs

/-- The text that some nodes start with. -/
def textAfter : List Node → Bytes
  | [] => []
  | c :: cs =>
    if c.isIgnored then textAfter cs
    else if c.kind == .text then c.text ++ textAfter cs
    else []

/-- One place of a tree is edited in a way that is not to count. -/
inductive Edit : Node → Node → Prop where
  /-- A taglib directive or blank text is inserted, where there may be children. -/
  | insert {h : Head} {n : Node} (before after : List Node) : h.kind ≠ .text →
      n.IsComparable → n.isIgnored = true →
      Edit (mk h (before ++ after)) (mk h (before ++ n :: after))
  /-- A text is split in two that are not blank. -/
  | split {h : Head} {n m l : Node} {s t : Bytes} (before after : List Node) :
      n.IsText (s ++ t) → m.IsText s → l.IsText t → s.isBlank = false → t.isBlank = false →
      Edit (mk h (before ++ n :: after)) (mk h (before ++ m :: l :: after))
  /-- Blanks are added to a text that is not blank, but not between the bytes of a white-space
  character. -/
  | space {h : Head} {n m : Node} {s t blanks : Bytes} (before after : List Node) :
      n.IsText (s ++ t) → m.IsText (s ++ blanks ++ t) → (s ++ t).isBlank = false →
      blanks.isBlank = true → ¬(textBefore [] before ++ s).PartsSpace (t ++ textAfter after) →
      Edit (mk h (before ++ n :: after)) (mk h (before ++ m :: after))
  /-- Attributes are reordered. -/
  | reorder {h : Head} {as : List Attribute} (cs : List Node) : h.attributes.Perm as →
      Edit (mk h cs) (mk { h with attributes := as } cs)
  /-- A child is edited. -/
  | inside {h : Head} {c d : Node} (before after : List Node) : Edit c d →
      Edit (mk h (before ++ c :: after)) (mk h (before ++ d :: after))

/-- Some places are edited one after the other, or put back. -/
def Rewritten : Node → Node → Prop := Relation.EqvGen Edit

theorem IsText.isIgnored {n : Node} {s : Bytes} (h : n.IsText s) (hs : s.isBlank = false) :
    n.isIgnored = false := by
  rw [Node.isIgnored, isBlankText, h.kind, h.text, hs]
  rfl

theorem IsText.formsFrom {n : Node} {s : Bytes} (h : n.IsText s) (hs : s.isBlank = false)
    (r : Bytes) (cs : List Node) : formsFrom r (n :: cs) = formsFrom (r ++ s) cs := by
  rw [Node.formsFrom, h.isIgnored hs, if_neg Bool.false_ne_true, h.kind, h.text]
  rfl

/-- Of the nodes before others only the text they end with matters to these. -/
theorem formsFrom_append (s : Bytes) (before : List Node) :
    ∃ fs, ∀ after, formsFrom s (before ++ after) = fs ++ formsFrom (textBefore s before) after := by
  induction before generalizing s with
  | nil => exact ⟨[], fun _ => rfl⟩
  | cons c before ih =>
    simp only [List.cons_append, formsFrom, textBefore]
    by_cases hignored : c.isIgnored = true
    · simp only [if_pos hignored]
      exact ih s
    simp only [if_neg hignored]
    by_cases hk : (c.kind == .text) = true
    · simp only [if_pos hk]
      exact ih _
    · simp only [if_neg hk]
      obtain ⟨fs, hfs⟩ := ih []
      exact ⟨TreeForm.ofText s ++ c.form :: fs, fun after => by rw [hfs]; simp⟩

/-- The text before some nodes goes on with the text they start with, and the rest does not depend
on it. -/
theorem formsFrom_eq_ofText_append (after : List Node) :
    ∃ fs, ∀ s, formsFrom s after = TreeForm.ofText (s ++ textAfter after) ++ fs := by
  induction after with
  | nil => exact ⟨[], fun s => by rw [formsFrom, textAfter, List.append_nil, List.append_nil]⟩
  | cons c after ih =>
    simp only [formsFrom, textAfter]
    by_cases hignored : c.isIgnored = true
    · simp only [if_pos hignored]
      exact ih
    simp only [if_neg hignored]
    by_cases hk : (c.kind == .text) = true
    · simp only [if_pos hk]
      obtain ⟨fs, hfs⟩ := ih
      exact ⟨fs, fun s => by rw [hfs, List.append_assoc]⟩
    · simp only [if_neg hk]
      exact ⟨c.form :: formsFrom [] after, fun s => by rw [List.append_nil]⟩

/-- Children may be exchanged for others that have the same forms after the same text. -/
theorem form_exchange {h : Head} (before : List Node) {xs ys : List Node}
    (hsame : formsFrom (textBefore [] before) xs = formsFrom (textBefore [] before) ys) :
    (mk h (before ++ xs)).form = (mk h (before ++ ys)).form := by
  obtain ⟨fs, hfs⟩ := formsFrom_append [] before
  rw [form, form, hfs, hfs, hsame]

/-- Blanks in a text between others. -/
theorem formsFrom_insert {n m : Node} {r s t blanks : Bytes} {after : List Node}
    (hn : n.IsText (s ++ t)) (hm : m.IsText (s ++ blanks ++ t)) (hst : (s ++ t).isBlank = false)
    (hblanks : blanks.isBlank = true) (hseam : ¬(r ++ s).PartsSpace (t ++ textAfter after)) :
    formsFrom r (n :: after) = formsFrom r (m :: after) := by
  have hmore : (s ++ blanks ++ t).isBlank = false := by
    rw [Bytes.isBlank_append_eq] at hst
    rw [Bytes.isBlank_append_eq, Bytes.isBlank_append_eq, hblanks, Bool.and_true, hst]
  have hne : r ++ s ++ (t ++ textAfter after) ≠ [] := by
    intro hnil
    simp only [List.append_eq_nil_iff] at hnil
    obtain ⟨⟨-, rfl⟩, rfl, -⟩ := hnil
    cases hst
  have hsame := TreeForm.ofText_insert hseam hblanks hne
  obtain ⟨fs, hfs⟩ := formsFrom_eq_ofText_append after
  rw [hn.formsFrom hst, hm.formsFrom hmore, hfs, hfs]
  simp only [List.append_assoc] at hsame ⊢
  rw [hsame]

/-- Edits keep what a node is among its siblings. -/
theorem Edit.head_eq {a b : Node} (h : Edit a b) : a.kind = b.kind ∧ a.text = b.text := by
  cases h <;> exact ⟨rfl, rfl⟩

/-- **Edits keep the form.** -/
theorem Edit.form_eq {a b : Node} (h : Edit a b) : a.form = b.form := by
  induction h with
  | insert before after _ _ hignored =>
    exact form_exchange before (by rw [formsFrom.eq_2, if_pos hignored])
  | split before after hn hm hl hs ht =>
    refine form_exchange before ?_
    rw [hn.formsFrom (Bytes.isBlank_append hs _), hm.formsFrom hs, hl.formsFrom ht,
      List.append_assoc]
  | space before after hn hm hst hblanks hseam =>
    exact form_exchange before (formsFrom_insert hn hm hst hblanks hseam)
  | reorder cs hperm =>
    rw [form, form]
    congr 1
    exact Multiset.coe_eq_coe.mpr (hperm.map _)
  | @inside h c d before after hedit ih =>
    obtain ⟨hkind, htext⟩ := hedit.head_eq
    have hignored : c.isIgnored = d.isIgnored := by
      rw [isIgnored, isIgnored, isBlankText, isBlankText, hkind, htext]
    exact form_exchange before (by rw [formsFrom.eq_2, formsFrom.eq_2, hignored, hkind, htext, ih])

theorem Rewritten.form_eq {a b : Node} (h : Rewritten a b) : a.form = b.form := by
  induction h with
  | rel _ _ h => exact h.form_eq
  | refl => rfl
  | symm _ _ _ ih => exact ih.symm
  | trans _ _ _ _ _ ih ih' => exact ih.trans ih'

theorem isComparable_mk_iff {h : Head} {cs : List Node} : (mk h cs).IsComparable ↔
    h.IsComparable ∧ (h.kind = .text → h.attributes = [] ∧ cs = []) ∧
      ∀ c ∈ cs, c.IsComparable := by
  constructor
  · rintro ⟨head, text, children⟩
    exact ⟨head, fun hk => ⟨(text hk).attributes, (text hk).children⟩, children⟩
  · rintro ⟨head, text, children⟩
    exact ⟨head, fun hk => ⟨hk, rfl, (text hk).1, (text hk).2⟩, children⟩

theorem IsText.isComparable {n : Node} {s : Bytes} (h : n.IsText s) : n.IsComparable := by
  cases n with
  | mk hd cs =>
    obtain ⟨hkind, -, hattributes, rfl⟩ := isText_mk_iff.mp h
    refine isComparable_mk_iff.mpr ⟨⟨by simp [hattributes], fun hk => ?_⟩, fun _ => ?_, by simp⟩
    · cases hkind.symm.trans hk
    · exact ⟨hattributes, rfl⟩

/-- Children may be exchanged for others that can be compared as well as they. -/
theorem isComparable_exchange {h : Head} (before after xs ys : List Node)
    (hnil : h.kind = .text → (xs = [] ↔ ys = []))
    (hall : (∀ c ∈ xs, c.IsComparable) ↔ ∀ c ∈ ys, c.IsComparable) :
    (mk h (before ++ (xs ++ after))).IsComparable ↔
      (mk h (before ++ (ys ++ after))).IsComparable := by
  rw [isComparable_mk_iff, isComparable_mk_iff]
  simp only [List.forall_mem_append, List.append_eq_nil_iff, hall]
  refine and_congr_right fun _ => and_congr_left fun _ => ?_
  exact imp_congr_right fun hk => by rw [hnil hk]

/-- Edits keep what makes trees comparable. -/
theorem Edit.isComparable_iff {a b : Node} (h : Edit a b) : a.IsComparable ↔ b.IsComparable := by
  induction h with
  | @insert h n before after hk hn _ =>
    exact isComparable_exchange before after [] [n] (absurd · hk) (by simpa using hn)
  | @split h n m l s t before after hn hm hl =>
    exact isComparable_exchange before after [n] [m, l] (by simp)
      (by simp [hn.isComparable, hm.isComparable, hl.isComparable])
  | @space h n m s t blanks before after hn hm =>
    exact isComparable_exchange before after [n] [m] (by simp)
      (by simp [hn.isComparable, hm.isComparable])
  | @inside h c d before after _ ih =>
    exact isComparable_exchange before after [c] [d] (by simp) (by simpa using ih)
  | @reorder h as cs hperm =>
    have hhead : h.IsComparable ↔ Head.IsComparable { h with attributes := as } :=
      ⟨fun hh => ⟨((hperm.map _).nodup_iff).mp hh.distinct, hh.tag⟩,
        fun hh => ⟨((hperm.map _).nodup_iff).mpr hh.distinct, hh.tag⟩⟩
    have hnil : h.attributes = [] ↔ as = [] := by
      rw [← List.length_eq_zero_iff, hperm.length_eq, List.length_eq_zero_iff]
    rw [isComparable_mk_iff, isComparable_mk_iff, hhead, hnil]

theorem Rewritten.isComparable_iff {a b : Node} (h : Rewritten a b) :
    a.IsComparable ↔ b.IsComparable := by
  induction h with
  | rel _ _ h => exact h.isComparable_iff
  | refl => exact Iff.rfl
  | symm _ _ _ ih => exact ih.symm
  | trans _ _ _ _ _ ih ih' => exact ih.trans ih'

/-- **Equivalence is an equivalence on parsed trees, and edits that are not to count do not.** -/
theorem isEquivalent_equivalence :
    (∀ {σ : Type} (r : ParseRequest) (host : Host σ) (memory : σ) (root : Node),
      (r.parse host memory).1 = .ok root → root.IsComparable) ∧
    (∀ a b : Node, a.IsComparable → b.IsComparable → ∃ same, a.isEquivalent b = .ok same) ∧
    Equivalence (fun a b : {n : Node // n.IsComparable} => a.1.isEquivalent b.1 = .ok true) ∧
    ∀ a a' b b' : Node, a.IsComparable → b.IsComparable → Rewritten a a' → Rewritten b b' →
      a'.IsComparable ∧ b'.IsComparable ∧ a'.isEquivalent b' = a.isEquivalent b := by
  refine ⟨fun r _ _ _ h => r.isComparable_of_parse h, fun a b ha hb => ?_, ⟨?_, ?_, ?_⟩, ?_⟩
  · obtain ⟨same, hsame, -⟩ := isEquivalent_eq ha hb
    exact ⟨same, hsame⟩
  · exact fun a => (isEquivalent_eq_true_iff a.2 a.2).mpr rfl
  · intro a b h
    exact (isEquivalent_eq_true_iff b.2 a.2).mpr ((isEquivalent_eq_true_iff a.2 b.2).mp h).symm
  · intro a b c hab hbc
    have hab := (isEquivalent_eq_true_iff a.2 b.2).mp hab
    have hbc := (isEquivalent_eq_true_iff b.2 c.2).mp hbc
    exact (isEquivalent_eq_true_iff a.2 c.2).mpr (hab.trans hbc)
  · intro a a' b b' ha hb hedit hedit'
    have ha' := hedit.isComparable_iff.mp ha
    have hb' := hedit'.isComparable_iff.mp hb
    exact ⟨ha', hb', isEquivalent_congr ha ha' hb hb' hedit.form_eq hedit'.form_eq⟩

/-- A page of a text with the two bytes of the white-space character U+0085, which others may
part. -/
def partedPage (between : Bytes) : ParseRequest where
  path := "/a.jsp"
  text := Bytes.ofString "<jsp:text>x" ++ [0xC2] ++ between ++ [0x85] ++
    Bytes.ofString "</jsp:text>"
  form := .native

/-- What the nodes of a tree are, and their texts. -/
def texts (n : Node) : List (Kind × Bytes) := n.subtree.map fun m => (m.kind, m.text)

/-- A blank that parts the bytes of a white-space character is noticed: they are read as white space
no more. -/
theorem not_isEquivalent_partedPage : ∃ a b : Node,
    ((partedPage " ").parse ({} : Host Unit) ()).1 = .ok a ∧
    ((partedPage []).parse ({} : Host Unit) ()).1 = .ok b ∧
    a.texts = [(.root, []), (.textAction, []), (.text, [120, 0xC2, 32, 0x85])] ∧
    b.texts = [(.root, []), (.textAction, []), (.text, [120, 0xC2, 0x85])] ∧
    a.isEquivalent a = .ok true ∧ a.isEquivalent b = .ok false ∧ b.isEquivalent a = .ok false := by
  have hrun : ((partedPage " ").parse ({} : Host Unit) ()).1.toOption.any (fun a =>
      ((partedPage []).parse ({} : Host Unit) ()).1.toOption.any fun b =>
        a.texts == [(.root, []), (.textAction, []), (.text, [120, 0xC2, 32, 0x85])] &&
        b.texts == [(.root, []), (.textAction, []), (.text, [120, 0xC2, 0x85])] &&
        (a.isEquivalent a).toOption == some true && (a.isEquivalent b).toOption == some false &&
        (b.isEquivalent a).toOption == some false) = true := by
    decide +kernel
  obtain ⟨a, ha, hrun⟩ := exists_ok_of_any hrun
  obtain ⟨b, hb, hrun⟩ := exists_ok_of_any hrun
  have hok : ∀ {x : Except Failure Bool} {v : Bool}, x.toOption = some v → x = .ok v := by
    rintro (_ | _) v h
    · cases h
    · exact congrArg Except.ok (Option.some.inj h)
  simp only [Bool.and_eq_true, beq_iff_eq] at hrun
  obtain ⟨⟨⟨⟨htexts, htexts'⟩, hself⟩, hforth⟩, hback⟩ := hrun
  exact ⟨a, b, ha, hb, htexts, htexts', hok hself, hok hforth, hok hback⟩

/-- A page of one text and one tag. -/
def greeting (children : List Node) : Node := .mk { kind := .root } children

/-- The tag of the page. -/
def greetingTag (attributes : List Attribute) : Node :=
  .leaf {
    kind := .customTag, name := "c:out", attributes := attributes,
    tag := some { prefixName := "c", localName := "out", uri := "urn:c" } }

/-- A page is equivalent to the one that was edited in every way there is. -/
theorem isEquivalent_equivalence_greeting :
    let value : Attribute := { name := "value", localName := "value", value := "x" }
    let escape : Attribute := { name := "escapeXml", localName := "escapeXml", value := "true" }
    let text (s : Bytes) : Node := .leaf { kind := .text, text := s }
    let spread : Node := greeting [.leaf { kind := .taglibDirective }, text "Hello,\n  world",
      greetingTag [value, escape], text "\n   "]
    let tight : Node := greeting [text "Hello,", text "world", greetingTag [escape, value]]
    (∃ root, ((partedPage []).parse ({} : Host Unit) ()).1 = .ok root ∧ root.IsComparable) ∧
      spread.IsComparable ∧ tight.IsComparable ∧ Rewritten spread tight ∧
      spread.isEquivalent tight = .ok true ∧ tight.isEquivalent spread = .ok true := by
  intro value escape text spread tight
  have htext : ∀ s, (text s).IsText s := fun s => ⟨rfl, rfl, rfl, rfl⟩
  have hroot : ({ kind := .root } : Head).kind ≠ .text := by decide
  have hdirective : (Node.leaf { kind := .taglibDirective }).IsComparable :=
    isComparable_mk_iff.mpr ⟨⟨by decide, by decide⟩, by decide, by simp⟩
  have htag : (greetingTag [value, escape]).IsComparable :=
    isComparable_mk_iff.mpr ⟨⟨by decide, fun _ => rfl⟩, by decide, by simp⟩
  have hwords : (text "Hello,world").IsText ("Hello," ++ "world") := ⟨rfl, by decide, rfl, rfl⟩
  have hspread : (text "Hello,\n  world").IsText ("Hello," ++ "\n  " ++ "world") :=
    ⟨rfl, by decide, rfl, rfl⟩
  have hbetween : ¬Bytes.PartsSpace (textBefore [] [] ++ "Hello,")
      ("world" ++ textAfter [greetingTag [value, escape]]) := by
    refine Bytes.not_partsSpace_of_start (fun c hc => ?_) _
    obtain rfl : 119 = c := Option.some.inj hc
    decide
  have hedited : Rewritten spread tight := by
    -- The directive and the last text go, and the text loses its blanks before it is split.
    refine .trans _ _ _ (.symm _ _ (.rel _ _ (.insert [] _ hroot hdirective rfl))) ?_
    refine .trans _ _ _ (.symm _ _ (.rel _ _ (.insert
      [text "Hello,\n  world", greetingTag [value, escape]] [] hroot
      (htext "\n   ").isComparable rfl))) ?_
    refine .trans _ _ _ (.symm _ _ (.rel _ _ (.space [] [greetingTag [value, escape]] hwords
      hspread rfl rfl hbetween))) ?_
    refine .trans _ _ _ (.rel _ _ (.split [] [greetingTag [value, escape]] hwords
      (htext "Hello,") (htext "world") rfl rfl)) ?_
    exact .rel _ _ (.inside [text "Hello,", text "world"] [] (.reorder [] (.swap ..)))
  have hcomparable : spread.IsComparable := by
    refine isComparable_mk_iff.mpr ⟨⟨by decide, by decide⟩, by decide, ?_⟩
    simp [hdirective, (htext _).isComparable, htag]
  have hsome : ((partedPage []).parse ({} : Host Unit) ()).1.toOption.any (fun _ => true) =
      true := by
    decide +kernel
  obtain ⟨root, hparse, -⟩ := exists_ok_of_any hsome
  obtain ⟨hparsed, -, hequivalence, hkept⟩ := isEquivalent_equivalence
  have hself : spread.isEquivalent spread = .ok true := hequivalence.refl ⟨spread, hcomparable⟩
  have hrefl : Rewritten spread spread := .refl _
  obtain ⟨-, htight, hsame⟩ := hkept _ _ _ _ hcomparable hcomparable hrefl hedited
  obtain ⟨-, -, hsame'⟩ := hkept _ _ _ _ hcomparable hcomparable hedited hrefl
  exact ⟨⟨root, hparse, hparsed _ _ _ root hparse⟩, hcomparable, htight, hedited, hsame.trans hself,
    hsame'.trans hself⟩

end Node

end ServerPages
