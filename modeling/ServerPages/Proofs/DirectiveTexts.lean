import ServerPages.Charset.Declaration
import ServerPages.Proofs.NativeConstructs

/-!
# The texts of page directives

Before a source is parsed its encoding is looked for in it. What is looked for are texts of page
directives, whatever they stand in. The first of these texts that sets a page encoding decides, if
none before it sets a content type.

## Main results

* `searchWord_inner_eq_some`, `searchWord_inner_eq_none`: what a search for an attribute finds in a
  directive.
* `directivesFrom_texts`: page directives are found where their texts stand.
* `declared?_of_text`, `declared?_of_none`: the encoding that a source names.
-/

namespace ServerPages

open Parsing.Native (writtenPair)

namespace Charset

/-- The attribute that sets the page encoding. -/
def pageEncodingWord : Word := ⟨"pageEncoding", by decide, by decide⟩

/-- The attribute that sets the content type. -/
def contentTypeWord : Word := ⟨"contentType", by decide, by decide⟩

/-- What a page directive starts with. -/
inductive IsOpener : Bytes → Prop where
  /-- In the native syntax, the name of the directive, which may stand after blanks. -/
  | native (w : Bytes) (hw : ∀ b ∈ w, isGap b = true) : IsOpener ("<%@" ++ w ++ "page")
  /-- In a document, the name of the element. -/
  | document : IsOpener "<jsp:directive.page"

/-- No page directive starts in the text. -/
def IsSilent (s : Bytes) : Prop := ∀ opener, IsOpener opener → ¬ opener <:+: s

end Charset

/-- An attribute of a page directive. Its value holds no quotes, and nothing that looks like one of
the attributes that can name an encoding. -/
structure PageAttribute where
  /-- The name. -/
  name : Word
  /-- The value, which stands between double quotes. -/
  value : Bytes
  plain : value.Lacks "<&%\"'\\"
  noEncoding : ¬ Charset.pageEncodingWord.letters <:+: value
  noType : ¬ Charset.contentTypeWord.letters <:+: value

/-- The attribute as it is written. -/
def PageAttribute.text (a : PageAttribute) : Bytes := writtenPair (a.name, a.value)

theorem PageAttribute.text_append (a : PageAttribute) (s : Bytes) :
    a.text ++ s = 32 :: (a.name.letters ++ 61 :: 34 :: (a.value ++ 34 :: s)) := by
  simp only [PageAttribute.text, writtenPair, List.append_assoc]
  rfl

/-- A page directive as it is written, with what stands before it. -/
structure DirectiveText where
  /-- What stands before the directive. -/
  before : Bytes
  /-- The attributes. -/
  attributes : List PageAttribute
  silent : Charset.IsSilent before
  distinct : (attributes.map (·.name.letters)).Nodup

namespace DirectiveText

/-- The attributes as they are written. -/
def inner (d : DirectiveText) : Bytes := d.attributes.flatMap (·.text) ++ " "

/-- The directive as it is written, after what stands before it. -/
def text (d : DirectiveText) : Bytes := d.before ++ ("<%@ page" ++ d.inner ++ "%>")

/-- The names and values of the attributes. -/
def pairs (d : DirectiveText) : List (Bytes × Bytes) :=
  d.attributes.map fun a => (a.name.letters, a.value)

/-- The directive gives the attribute a value. -/
def Sets (d : DirectiveText) (name : Word) (value : Bytes) : Prop :=
  ∃ a ∈ d.attributes, a.name = name ∧ a.value = value

/-- The directive does not have the attribute. -/
def Lacks (d : DirectiveText) (name : Word) : Prop :=
  ∀ a ∈ d.attributes, a.name.letters ≠ name.letters

end DirectiveText

namespace Charset

variable {α : Type}

/-! ### Searches for attributes -/

/-- What is found at a place in a search for a word. -/
def atWord (word : Bytes) (match? : Bytes → Option α) (before : Option UInt8) (s : Bytes) :
    Option α :=
  if before.any isWordByte then none else (after? word s).bind match?

theorem searchWord_eq (word : Bytes) (match? : Bytes → Option α) (s : Bytes) :
    searchWord word match? s = searchFrom (atWord word match?) none s := rfl

theorem after?_eq_none {lit s : Bytes} (h : ¬ lit <+: s) : after? lit s = none :=
  if_neg fun hs => h (Bytes.startsWith_iff.mp hs)

theorem after?_append (lit s : Bytes) : after? lit (lit ++ s) = some s := by
  rw [after?, if_pos (Bytes.startsWith_append lit s), List.drop_left]

theorem atWord_eq_none {word s : Bytes} (match? : Bytes → Option α) (before : Option UInt8)
    (h : ¬ word <+: s) : atWord word match? before s = none := by
  rw [atWord, after?_eq_none h]
  exact ite_self none

/-- A search passes over a text at whose places nothing is found. -/
theorem searchFrom_pass {match? : Option UInt8 → Bytes → Option α} {before : Option UInt8}
    {v r : Bytes}
    (h : ∀ x y, v = x ++ y → y ≠ [] → match? (x.getLast?.or before) (y ++ r) = none) :
    searchFrom match? before (v ++ r) = searchFrom match? (v.getLast?.or before) r := by
  induction v generalizing before with
  | nil => rfl
  | cons b v ih =>
    have hhere : match? before (b :: (v ++ r)) = none := h [] (b :: v) rfl (List.cons_ne_nil b v)
    rw [List.cons_append, searchFrom, hhere]
    have hlast : ∀ x : Bytes, (b :: x).getLast?.or before = x.getLast?.or (some b) := by
      intro x
      rw [List.getLast?_cons]
      cases x.getLast? <;> rfl
    rw [hlast]
    refine ih fun x y hv hy => ?_
    rw [← hlast]
    exact h (b :: x) y (congrArg (b :: ·) hv) hy

/-- A text without a byte does not start where the byte stands. -/
theorem prefix_of_prefix_cons {w y r : Bytes} {b : UInt8} (hb : b ∉ w) (h : w <+: y ++ b :: r) :
    w <+: y := by
  induction y generalizing w with
  | nil =>
    cases w with
    | nil => exact List.nil_prefix
    | cons c w => exact absurd (List.cons_prefix_cons.mp h).1 fun hc => hb (hc ▸ List.mem_cons_self)
  | cons c y ih =>
    cases w with
    | nil => exact List.nil_prefix
    | cons d w =>
      obtain ⟨rfl, hrest⟩ := List.cons_prefix_cons.mp h
      exact List.cons_prefix_cons.mpr ⟨rfl, ih (fun hw => hb (List.mem_cons_of_mem d hw)) hrest⟩

section Search

variable (word : Word) (match? : Bytes → Option α)

/-- A byte that no word starts with is passed over. -/
theorem searchFrom_byte {b : UInt8} (hb : Bytes.isAlpha b = false) (before : Option UInt8)
    (s : Bytes) : searchFrom (atWord word.letters match?) before (b :: s) =
      searchFrom (atWord word.letters match?) (some b) s := by
  obtain ⟨c, w, hw, hc⟩ := word.exists_cons
  rw [searchFrom, atWord_eq_none]
  rw [hw]
  intro h
  exact Bytes.ne_of_isAlpha hc hb (List.cons_prefix_cons.mp h).1

/-- The value of an attribute is passed over, with its equals sign and its quotes. -/
theorem searchFrom_value {value : Bytes} (hquiet : ¬ word.letters <:+: value)
    (before : Option UInt8) (s : Bytes) :
    searchFrom (atWord word.letters match?) before (61 :: 34 :: (value ++ 34 :: s)) =
      searchFrom (atWord word.letters match?) (some 34) s := by
  rw [searchFrom_byte word match? (by decide), searchFrom_byte word match? (by decide),
    searchFrom_pass, searchFrom_byte word match? (by decide)]
  rintro x y rfl -
  refine atWord_eq_none _ _ fun h => hquiet ?_
  have hword : word.letters <+: y := prefix_of_prefix_cons (word.not_mem (by decide)) h
  exact hword.isInfix.trans (List.suffix_append x y).isInfix

section Attributes

-- what is searched for comes after a sign that is no letter
variable {match?} (hmatch : ∀ b s, Bytes.isAlpha b = true → match? (b :: s) = none)

include hmatch

/-- The name of another attribute is passed over. -/
theorem searchFrom_name {name : Word} (hname : name.letters ≠ word.letters) {b : UInt8}
    (hb : isWordByte b = false) (s : Bytes) :
    ∃ before, searchFrom (atWord word.letters match?) (some b) (name.letters ++ 61 :: s) =
      searchFrom (atWord word.letters match?) before (61 :: s) := by
  refine ⟨_, searchFrom_pass fun x y hxy hy => ?_⟩
  cases hx : x.getLast? with
  | some l =>
    have hl : Bytes.isAlpha l = true :=
      name.alpha l (hxy ▸ List.mem_append_left y (List.mem_of_getLast? hx))
    refine if_pos ?_
    simp [isWordByte, hl]
  | none =>
    obtain rfl := List.getLast?_eq_none_iff.mp hx
    obtain rfl : name.letters = y := hxy
    by_cases hword : word.letters <+: name.letters ++ 61 :: s
    · -- the name goes on after the word
      obtain ⟨z, hz⟩ := prefix_of_prefix_cons (word.not_mem (by decide)) hword
      obtain ⟨c, z, rfl⟩ := List.exists_cons_of_ne_nil (l := z) (by
        rintro rfl
        exact hname (by rw [← hz, List.append_nil]))
      have hc : Bytes.isAlpha c = true :=
        name.alpha c (hz ▸ List.mem_append_right _ List.mem_cons_self)
      rw [← hz, List.append_assoc, atWord, after?_append]
      exact (if_neg (by simp [hb])).trans (hmatch c _ hc)
    · exact atWord_eq_none _ _ hword

theorem searchFrom_attribute {a : PageAttribute} (hname : a.name.letters ≠ word.letters)
    (hvalue : ¬ word.letters <:+: a.value) (before : Option UInt8) (s : Bytes) :
    ∃ b, searchFrom (atWord word.letters match?) before (a.text ++ s) =
      searchFrom (atWord word.letters match?) b s := by
  rw [a.text_append, searchFrom_byte word match? (by decide)]
  obtain ⟨b, hb⟩ := searchFrom_name word hmatch hname (b := 32) (by decide) _
  exact ⟨some 34, hb.trans (searchFrom_value word match? hvalue b s)⟩

/-- Attributes with other names are passed over. -/
theorem searchFrom_attributes {as : List PageAttribute}
    (hnames : ∀ a ∈ as, a.name.letters ≠ word.letters)
    (hvalues : ∀ a ∈ as, ¬ word.letters <:+: a.value) (before : Option UInt8) (s : Bytes) :
    ∃ b, searchFrom (atWord word.letters match?) before (as.flatMap (·.text) ++ s) =
      searchFrom (atWord word.letters match?) b s := by
  induction as generalizing before with
  | nil => exact ⟨before, rfl⟩
  | cons a as ih =>
    obtain ⟨hname, hnames⟩ := List.forall_mem_cons.mp hnames
    obtain ⟨hvalue, hvalues⟩ := List.forall_mem_cons.mp hvalues
    obtain ⟨b, hb⟩ := searchFrom_attribute word hmatch hname hvalue before
      (as.flatMap (·.text) ++ s)
    obtain ⟨b', hb'⟩ := ih hnames hvalues b
    refine ⟨b', ?_⟩
    rw [List.flatMap_cons, List.append_assoc, hb, hb']

/-- Nothing is found among attributes with other names. -/
theorem searchWord_inner_eq_none {d : DirectiveText} (hlacks : d.Lacks word)
    (hvalues : ∀ a ∈ d.attributes, ¬ word.letters <:+: a.value) :
    searchWord word.letters match? d.inner = none := by
  obtain ⟨b, hb⟩ := searchFrom_attributes word hmatch hlacks hvalues none (" " : Bytes)
  obtain ⟨c, w, hw, -⟩ := word.exists_cons
  rw [searchWord_eq, DirectiveText.inner, hb]
  refine (searchFrom_byte word match? (b := 32) (by decide) b []).trans ?_
  refine atWord_eq_none _ _ fun h => ?_
  rw [hw, List.prefix_nil] at h
  cases h

/-- What stands after the name of an attribute is found, if no attribute before it has the name. -/
theorem searchWord_inner_eq_some {d : DirectiveText}
    (hvalues : ∀ a ∈ d.attributes, ¬ word.letters <:+: a.value) {value : Bytes}
    (hsets : d.Sets word value) {x : α}
    (hfound : ∀ s, match? (61 :: 34 :: (value ++ 34 :: s)) = some x) :
    searchWord word.letters match? d.inner = some x := by
  obtain ⟨a, ha, hname, rfl⟩ := hsets
  obtain ⟨as, bs, hsplit⟩ := List.append_of_mem ha
  have hnames : ∀ c ∈ as, c.name.letters ≠ word.letters := by
    intro c hc hsame
    have hdistinct := d.distinct
    rw [hsplit, List.map_append, List.nodup_append] at hdistinct
    exact hdistinct.2.2 _ (List.mem_map_of_mem hc) _ List.mem_cons_self
      (hsame.trans (congrArg Word.letters hname.symm))
  obtain ⟨b, hb⟩ := searchFrom_attributes word hmatch hnames
    (fun c hc => hvalues c (hsplit ▸ List.mem_append_left _ hc)) none
    (a.text ++ (bs.flatMap (·.text) ++ " "))
  have hinner : d.inner = as.flatMap (·.text) ++ (a.text ++ (bs.flatMap (·.text) ++ " ")) := by
    rw [DirectiveText.inner, hsplit, List.flatMap_append, List.flatMap_cons, List.append_assoc,
      List.append_assoc]
  obtain ⟨c, w, hw, -⟩ := word.exists_cons
  rw [searchWord_eq, hinner, hb, a.text_append, searchFrom_byte word match? (by decide), hname]
  have hhere : ∀ s, atWord word.letters match? (some 32) (word.letters ++ 61 :: 34 ::
      (a.value ++ 34 :: s)) = some x := by
    intro s
    rw [atWord, after?_append]
    exact (if_neg (by decide)).trans (hfound s)
  have hstop := hhere (bs.flatMap (·.text) ++ " ")
  rw [hw] at hstop ⊢
  rw [List.cons_append] at hstop ⊢
  rw [searchFrom, hstop]

end Attributes

end Search

/-! ### The encoding that a directive names -/

/-- What follows an equals sign is found after one only. -/
theorem afterEquals?_eq_none {b : UInt8} (hb : Bytes.isAlpha b = true) (s : Bytes) :
    afterEquals? (b :: s) = none := by
  have hgap : isGap b = false := by
    rw [Bool.eq_false_iff]
    intro h
    simp only [isGap, Bool.or_eq_true, beq_iff_eq] at h
    rcases h with (((rfl | rfl) | rfl) | rfl) | rfl <;> cases hb
  rw [afterEquals?, List.dropWhile_cons_of_neg (by simp [hgap]), after?_eq_none]
  · rfl
  · intro h
    exact Bytes.ne_of_isAlpha hb (by decide) (List.cons_prefix_cons.mp h).1.symm

theorem quoted?_value {value : Bytes} (hvalue : value.Lacks "<&%\"'\\") (hne : value ≠ [])
    (s : Bytes) : quoted? (!isQuote ·) (value ++ 34 :: s) = some value := by
  have hplain : ∀ b ∈ value, (!isQuote b) = true := by
    intro b hb
    rw [Bool.not_eq_true', Bool.eq_false_iff]
    intro hquote
    simp only [isQuote, Bool.or_eq_true, beq_iff_eq] at hquote
    rcases hquote with rfl | rfl <;> exact hvalue _ (by decide) hb
  have htake : (value ++ 34 :: s).takeWhile (!isQuote ·) = value :=
    Bytes.takeWhile_append_stop hplain (by rintro _ ⟨⟩; rfl)
  have hdrop : (value ++ 34 :: s).dropWhile (!isQuote ·) = 34 :: s :=
    Bytes.dropWhile_append_stop hplain (by rintro _ ⟨⟩; rfl)
  rw [quoted?, htake, hdrop]
  refine if_pos ?_
  simp [hne, afterQuote?, isQuote]

/-- A directive names the page encoding that it sets. -/
theorem directiveEncoding?_of_sets {d : DirectiveText} {e : Bytes}
    (hsets : d.Sets pageEncodingWord e) (hne : e ≠ []) : directiveEncoding? d.inner = some e := by
  obtain ⟨a, -, -, rfl⟩ := id hsets
  have hfound : pageEncoding? d.inner = some a.value := by
    refine searchWord_inner_eq_some pageEncodingWord (fun b s hb => ?_) (fun c _ => c.noEncoding)
      hsets fun s => ?_
    · rw [afterEquals?_eq_none hb]
      rfl
    · exact quoted?_value a.plain hne s
  rw [directiveEncoding?, hfound]
  rfl

/-- A directive that sets neither a page encoding nor a content type names no encoding. -/
theorem directiveEncoding?_of_lacks {d : DirectiveText} (hencoding : d.Lacks pageEncodingWord)
    (htype : d.Lacks contentTypeWord) : directiveEncoding? d.inner = none := by
  have hfirst : pageEncoding? d.inner = none := by
    refine searchWord_inner_eq_none pageEncodingWord (fun b s hb => ?_) hencoding
      fun c _ => c.noEncoding
    rw [afterEquals?_eq_none hb]
    rfl
  have hsecond : contentCharset? d.inner = none := by
    refine searchWord_inner_eq_none contentTypeWord (fun b s hb => ?_) htype fun c _ => c.noType
    rw [afterEquals?_eq_none hb]
    rfl
  rw [directiveEncoding?, hfirst, hsecond]
  rfl

/-! ### The directives of a text -/

/-- A directive starts only where what it starts with stands. -/
theorem directive?_eq_none {s : Bytes} (h : ∀ opener, IsOpener opener → ¬ opener <+: s) :
    directive? s = none := by
  rw [directive?]
  by_cases hnative : Bytes.ofString "<%@" <+: s
  · obtain ⟨t, rfl⟩ := hnative
    have hname : after? "page" (t.dropWhile isGap) = none := by
      refine after?_eq_none fun hpage => ?_
      obtain ⟨z, hz⟩ := hpage
      refine h _ (.native (t.takeWhile isGap) fun b hb => ?_) ⟨z, ?_⟩
      · exact List.all_eq_true.mp List.all_takeWhile b hb
      · rw [List.append_assoc, List.append_assoc, hz, List.takeWhile_append_dropWhile]
    rw [after?_append]
    simp only [hname, Option.bind_eq_bind, Option.bind_none]
  · rw [after?_eq_none hnative, after?_eq_none (h _ .document)]
    rfl

/-- What a directive starts with does not start inside of it. -/
theorem IsOpener.eq_cons {opener : Bytes} (h : IsOpener opener) :
    ∃ o, opener = 60 :: o ∧ 60 ∉ o := by
  cases h with
  | native w hw =>
    refine ⟨Bytes.ofString "%@" ++ w ++ "page", rfl, fun hmem => ?_⟩
    rw [List.mem_append, List.mem_append] at hmem
    rcases hmem with (hmem | hmem) | hmem
    · exact absurd hmem (by decide)
    · exact absurd (hw 60 hmem) (by decide)
    · exact absurd hmem (by decide)
  | document => exact ⟨Bytes.ofString "jsp:directive.page", rfl, by decide⟩

theorem percent_notMem_inner (d : DirectiveText) : 37 ∉ d.inner := by
  intro hmem
  obtain hmem | hmem := List.mem_append.mp hmem
  · obtain ⟨a, -, ha⟩ := List.mem_flatMap.mp hmem
    have hname := a.name.not_mem (b := 37) (by decide)
    have hvalue : 37 ∉ a.value := a.plain 37 (by decide)
    rw [← List.append_nil a.text, a.text_append] at ha
    simp [hname, hvalue] at ha
  · exact absurd hmem (by decide)

/-- The name of a directive is followed by a blank. -/
theorem inner_eq_cons (d : DirectiveText) : ∃ s, d.inner = 32 :: s := by
  unfold DirectiveText.inner
  cases d.attributes with
  | nil => exact ⟨[], rfl⟩
  | cons a as =>
    rw [List.flatMap_cons, List.append_assoc, a.text_append]
    exact ⟨_, rfl⟩

theorem directive?_text (d : DirectiveText) (s : Bytes) :
    directive? (("<%@ page" ++ d.inner ++ "%>" : Bytes) ++ s) = some (d.inner, s) := by
  have hinside : ∀ b ∈ d.inner, (b != 37) = true := fun b hb => by
    rw [bne_iff_ne]
    rintro rfl
    exact percent_notMem_inner d hb
  have htake : (d.inner ++ 37 :: 62 :: s).takeWhile (· != 37) = d.inner :=
    Bytes.takeWhile_append_stop hinside (by rintro _ ⟨⟩; rfl)
  have hdrop : (d.inner ++ 37 :: 62 :: s).dropWhile (· != 37) = 37 :: 62 :: s :=
    Bytes.dropWhile_append_stop hinside (by rintro _ ⟨⟩; rfl)
  have hends : endsWord (d.inner ++ 37 :: 62 :: s) = true := by
    obtain ⟨x, hx⟩ := inner_eq_cons d
    rw [hx]
    rfl
  have htext : ("<%@ page" ++ d.inner ++ "%>" : Bytes) ++ s =
      Bytes.ofString "<%@" ++ 32 :: (Bytes.ofString "page" ++ (d.inner ++ 37 :: 62 :: s)) := by
    simp only [List.append_assoc]
    rfl
  have hname : after? "page"
      ((32 :: (Bytes.ofString "page" ++ (d.inner ++ 37 :: 62 :: s))).dropWhile isGap) =
        some (d.inner ++ 37 :: 62 :: s) := after?_append "page" _
  have hclose : after? "%>" (37 :: 62 :: s) = some s := after?_append "%>" s
  rw [htext, directive?, after?_append]
  simp only [hname, Option.bind_eq_bind, Option.bind_some, hends, if_true, htake, hdrop, hclose]
  rfl

theorem directivesFrom_drop (n : Nat) (s : Bytes) :
    directivesFrom n s = directivesFrom 0 (s.drop n) := by
  induction n generalizing s with
  | zero => rfl
  | succ n ih =>
    cases s with
    | nil => rfl
    | cons b s => exact ih s

/-- A text in which no directive starts is passed over, before the start of one or the end. -/
theorem directivesFrom_pass {v s : Bytes} (hv : IsSilent v)
    (hs : s = [] ∨ ∃ t, s = 60 :: t) : directivesFrom 0 (v ++ s) = directivesFrom 0 s := by
  induction v with
  | nil => rfl
  | cons b v ih =>
    have hnone : directive? (b :: (v ++ s)) = none := by
      refine directive?_eq_none fun opener hopener h => ?_
      have hprefix : opener <+: b :: v := by
        rcases hs with rfl | ⟨t, rfl⟩
        · rwa [List.append_nil] at h
        · obtain ⟨o, rfl, ho⟩ := hopener.eq_cons
          obtain ⟨rfl, hrest⟩ := List.cons_prefix_cons.mp h
          exact List.cons_prefix_cons.mpr ⟨rfl, prefix_of_prefix_cons ho hrest⟩
      exact hv opener hopener hprefix.isInfix
    rw [List.cons_append, directivesFrom, hnone]
    exact ih fun opener hopener h => hv opener hopener (h.trans (List.suffix_cons b v).isInfix)

/-- A directive is found where its text stands. -/
theorem directivesFrom_text (d : DirectiveText) (s : Bytes) :
    directivesFrom 0 (d.text ++ s) = d.inner :: directivesFrom 0 s := by
  have hfound := directive?_text d s
  obtain ⟨t, ht⟩ : ∃ t, ("<%@ page" ++ d.inner ++ "%>" : Bytes) = 60 :: t := ⟨_, rfl⟩
  rw [DirectiveText.text, List.append_assoc, directivesFrom_pass d.silent
    (.inr ⟨t ++ s, by rw [ht]; rfl⟩)]
  rw [ht, List.cons_append] at hfound ⊢
  have hskip : (t ++ s).length - s.length = t.length := by rw [List.length_append]; omega
  rw [directivesFrom, hfound]
  dsimp only
  rw [hskip, directivesFrom_drop, List.drop_left]

theorem directivesFrom_texts (ds : List DirectiveText) (s : Bytes) :
    directivesFrom 0 (ds.flatMap (·.text) ++ s) = ds.map (·.inner) ++ directivesFrom 0 s := by
  induction ds with
  | nil => rfl
  | cons d ds ih => rw [List.flatMap_cons, List.append_assoc, directivesFrom_text, ih]; rfl

/-! ### The encoding that a source names -/

/-- The first directive that sets a page encoding decides, if no directive before it sets one or a
content type and none of them is out of reach. -/
theorem declared?_of_text {raw rest e : Bytes} {ds : List DirectiveText} {d : DirectiveText}
    (hprolog : prolog? (raw.take searchLimit) = none)
    (hraw : raw = (ds ++ [d]).flatMap (·.text) ++ rest)
    (hlimit : ((ds ++ [d]).flatMap (·.text)).length ≤ searchLimit)
    (hds : ∀ q ∈ ds, q.Lacks pageEncodingWord ∧ q.Lacks contentTypeWord)
    (hsets : d.Sets pageEncodingWord e) (hne : e ≠ []) : declared? raw = some e := by
  have hhead : raw.take searchLimit = (ds ++ [d]).flatMap (·.text) ++
      rest.take (searchLimit - ((ds ++ [d]).flatMap (·.text)).length) := by
    rw [hraw, List.take_append, List.take_of_length_le hlimit]
  have hnone : (ds.map (·.inner)).findSome? directiveEncoding? = none := by
    refine List.findSome?_eq_none_iff.mpr fun inner hinner => ?_
    obtain ⟨q, hq, rfl⟩ := List.mem_map.mp hinner
    exact directiveEncoding?_of_lacks (hds q hq).1 (hds q hq).2
  rw [declared?]
  simp only [hprolog]
  rw [hhead, directivesFrom_texts, List.map_append, List.findSome?_append, List.findSome?_append,
    hnone]
  simp [directiveEncoding?_of_sets hsets hne]

/-- A source in which no directive starts within reach names no encoding. -/
theorem declared?_of_none {raw : Bytes} (hprolog : prolog? (raw.take searchLimit) = none)
    (hraw : IsSilent (raw.take searchLimit)) : declared? raw = none := by
  have hnone := directivesFrom_pass hraw (.inl rfl)
  rw [List.append_nil] at hnone
  rw [declared?]
  simp only [hprolog, hnone]
  rfl

end Charset

end ServerPages
