import ServerPages.Proofs.CoreParts

/-!
# Tokens that were written

The reader of documents gives back what was written: character data without markup is read as it
is, a text between quotes is read as it was before it was quoted, and a tag is read with its name
and its attributes. Every lemma leaves open what follows, so that the tokens of a document are read
one after the other.

## Main results

* `Markup.token_run`, `Markup.token_code`: character data is read as it was written.
* `Markup.token_startTag`, `Markup.token_endTag`: tags are read as they were written.
-/

namespace ServerPages

namespace Markup

/-! ### Character data -/

theorem legal_of_isLegal {v : Bytes} (h : isLegal v = true) (r : Bytes) :
    legal v r = .ok (v, r) := by
  have hnone : (Utf8.pieces v).find? (fun p => Utf8.isBroken p || !isDocumentChar p.1) = none := by
    rw [List.find?_eq_none]
    intro p hp
    simpa using List.all_eq_true.mp h p hp
  rw [legal, hnone]

/-- Data without markup is taken as it is, whatever follows; a line end before it would hide its
first line feed. -/
theorem dataFrom_chunk {v : Bytes} (hv : v.Lacks "<&\r") {b0 b1 : UInt8}
    (hend : ¬ Bytes.ofString "]]>" <:+: b0 :: b1 :: v) (hb1 : b1 ≠ 13) (out : Bytes) :
    ∃ c0 c1, c1 ≠ 13 ∧ ∀ r, dataFrom none false 0 b0 b1 out (v ++ r) =
      dataFrom none false 0 c0 c1 (v.reverse ++ out) r := by
  induction v generalizing b0 b1 out with
  | nil => exact ⟨b0, b1, hb1, fun r => rfl⟩
  | cons b v ih =>
    have h60 : b ≠ 60 := hv.head (by decide)
    have h38 : b ≠ 38 := hv.head (by decide)
    have h13 : b ≠ 13 := hv.head (by decide)
    have hsection : (b0 == 93 && b1 == 93 && b == 62) = false := by
      rw [Bool.eq_false_iff]
      intro h
      simp only [Bool.and_eq_true, beq_iff_eq] at h
      obtain ⟨⟨rfl, rfl⟩, rfl⟩ := h
      exact hend ⟨[], v, rfl⟩
    have htail : ¬ Bytes.ofString "]]>" <:+: b1 :: b :: v := fun h =>
      hend (h.trans (List.suffix_cons _ _).isInfix)
    obtain ⟨c0, c1, hc1, hrest⟩ := ih hv.tail htail h13 (b :: out)
    refine ⟨c0, c1, hc1, fun r => ?_⟩
    rw [List.reverse_cons, List.append_assoc, List.singleton_append, ← hrest r, List.cons_append,
      dataFrom]
    simp [hsection, h60, h38, h13, hb1]

/-- A byte that is no bracket does not matter to whether a section ends. -/
theorem not_sectionEnd_cons {b : UInt8} (hb : b ≠ 93) {v : Bytes}
    (h : ¬ Bytes.ofString "]]>" <:+: v) : ¬ Bytes.ofString "]]>" <:+: b :: v := by
  rw [List.infix_cons_iff, not_or]
  exact ⟨fun hp => hb (List.cons_prefix_cons.mp hp).1.symm, h⟩

/-- The end of a section does not stand in an expression or right before it. -/
theorem not_sectionEnd_source (e : CoreExpression) (b0 b1 : UInt8) :
    ¬ Bytes.ofString "]]>" <:+: b0 :: b1 :: e.source := by
  have hlit : Bytes.ofString "]]>" = [93, 93, 62] := rfl
  have hmark : e.mark ≠ 93 ∧ e.mark ≠ 62 := by
    rcases e.mark_cases with h | h <;> rw [h] <;> decide
  have hbody : ¬ Bytes.ofString "]]>" <:+: e.body ++ [125] := by
    rw [List.infix_concat_iff, not_or]
    refine ⟨fun hs => ?_, e.noSectionEnd⟩
    obtain ⟨t, ht⟩ := hs
    have hlast := congrArg List.getLast? ht
    rw [hlit, List.getLast?_append, List.getLast?_concat] at hlast
    cases hlast
  rw [e.source_eq, List.infix_cons_iff, List.infix_cons_iff, hlit]
  rintro (hp | hp | hp)
  · exact hmark.2 (List.cons_prefix_cons.mp
      (List.cons_prefix_cons.mp (List.cons_prefix_cons.mp hp).2).2).1.symm
  · exact hmark.1 (List.cons_prefix_cons.mp (List.cons_prefix_cons.mp hp).2).1.symm
  · exact not_sectionEnd_cons hmark.1 (not_sectionEnd_cons (by decide) hbody) hp

/-- Text and expressions are taken as they are, wherever they stand. -/
theorem dataFrom_source {i : CoreInline} (hi : i.IsLegal) (b0 : UInt8) {b1 : UInt8} (hb1 : b1 ≠ 13)
    (out : Bytes) :
    ∃ c0 c1, c1 ≠ 13 ∧ ∀ r, dataFrom none false 0 b0 b1 out (i.source ++ r) =
      dataFrom none false 0 c0 c1 (i.source.reverse ++ out) r := by
  cases i with
  | text t =>
    refine dataFrom_chunk (t.plain.mono (by decide)) ?_ hb1 out
    -- the last byte of what would end a section is not in the text
    have h62 : 62 ∉ t.bytes := t.plain 62 (by decide)
    have hlit : Bytes.ofString "]]>" = [93, 93, 62] := rfl
    rw [hlit, List.infix_cons_iff, List.infix_cons_iff]
    rintro (hp | hp | hp)
    · exact h62 ((List.cons_prefix_cons.mp (List.cons_prefix_cons.mp hp).2).2.subset (by decide))
    · exact h62 ((List.cons_prefix_cons.mp hp).2.subset (by decide))
    · exact h62 (hp.subset (by decide))
  | expression e =>
    have hplain := (e.lacks_source hi).mono (by decide : Bytes.ofString "<&\r" ⊆ _)
    exact dataFrom_chunk hplain (not_sectionEnd_source e b0 b1) hb1 out

theorem dataFrom_run {run : List CoreInline} (hrun : ∀ i ∈ run, i.IsLegal) (b0 : UInt8) {b1 : UInt8}
    (hb1 : b1 ≠ 13) (out : Bytes) :
    ∃ c0 c1, c1 ≠ 13 ∧ ∀ r, dataFrom none false 0 b0 b1 out (run.flatMap (·.source) ++ r) =
      dataFrom none false 0 c0 c1 ((run.flatMap (·.source)).reverse ++ out) r := by
  induction run generalizing b0 b1 out with
  | nil => exact ⟨b0, b1, hb1, fun r => rfl⟩
  | cons i run ih =>
    obtain ⟨c0, c1, hc1, hi⟩ := dataFrom_source (hrun i List.mem_cons_self) b0 hb1 out
    obtain ⟨d0, d1, hd1, hrest⟩ :=
      ih (fun j hj => hrun j (List.mem_cons_of_mem i hj)) c0 hc1 (i.source.reverse ++ out)
    refine ⟨d0, d1, hd1, fun r => ?_⟩
    rw [List.flatMap_cons, List.append_assoc, hi, hrest, List.reverse_append, List.append_assoc]

/-- What follows character data: nothing, or a tag. -/
def EndsData (r : Bytes) : Prop := ∀ b ∈ r.head?, b = 60

theorem dataFrom_end {r : Bytes} (hr : EndsData r) (b0 b1 : UInt8) (out : Bytes) :
    dataFrom none false 0 b0 b1 out r = .ok (out.reverse, r) := by
  rcases r with - | ⟨b, r⟩
  · rfl
  · obtain rfl := hr b rfl
    rw [dataFrom]
    simp

/-- A text that starts with no tag is character data. -/
theorem token_data {b : UInt8} {s v r : Bytes} (hb : b ≠ 60)
    (hdata : data none false (b :: s) = .ok (v, r)) (anyEncoding : Bool) :
    token anyEncoding (b :: s) = .ok (.text v, r) := by
  unfold token
  split
  · next h => exact absurd (List.cons.inj h).1 hb
  · next h => exact absurd (List.cons.inj h).1 hb
  · next h => exact absurd (List.cons.inj h).1 hb
  · next h => exact absurd (List.cons.inj h).1 hb
  · next h => exact absurd (List.cons.inj h).1 hb
  · rw [hdata]
    rfl

/-- A run of text and expressions is one token. -/
theorem token_run {run : List CoreInline} (hrun : ∀ i ∈ run, i.IsLegal)
    (hne : run.flatMap (·.source) ≠ []) {r : Bytes} (hr : EndsData r) (anyEncoding : Bool) :
    token anyEncoding (run.flatMap (·.source) ++ r) =
      .ok (.text (run.flatMap (·.source)), r) := by
  have hlegal : isLegal (run.flatMap (·.source)) = true := by
    clear hne
    induction run with
    | nil => rfl
    | cons i run ih =>
      exact isLegal_append (CoreInline.isLegal_source (hrun i List.mem_cons_self))
        (ih fun j hj => hrun j (List.mem_cons_of_mem i hj))
  have hdata : data none false (run.flatMap (·.source) ++ r) =
      .ok (run.flatMap (·.source), r) := by
    obtain ⟨c0, c1, -, hscan⟩ := dataFrom_run hrun 0 (by decide : (0 : UInt8) ≠ 13) []
    rw [data, hscan, dataFrom_end hr, List.append_nil, List.reverse_reverse]
    exact legal_of_isLegal hlegal r
  have h60 : ∀ i ∈ run, 60 ∉ i.source := by
    intro i hi
    cases i with
    | text t => exact t.plain 60 (by decide)
    | expression e => exact e.lacks_source (hrun _ hi) 60 (by decide)
  obtain ⟨b, s, hs⟩ := List.exists_cons_of_ne_nil hne
  rw [hs] at hdata ⊢
  refine token_data ?_ hdata anyEncoding
  rintro rfl
  obtain ⟨i, hi, hmem⟩ := List.mem_flatMap.mp (hs ▸ List.mem_cons_self)
  exact h60 i hi hmem

/-- Code is one token. -/
theorem token_code (c : CoreCode) (hc : isLegal c.code = true) (hne : c.code ≠ []) {r : Bytes}
    (hr : EndsData r) (anyEncoding : Bool) :
    token anyEncoding (c.code ++ r) = .ok (.text c.code, r) := by
  have hdata : data none false (c.code ++ r) = .ok (c.code, r) := by
    have hend := not_sectionEnd_cons (b := 0) (by decide)
      (not_sectionEnd_cons (b := 0) (by decide) c.noSectionEnd)
    obtain ⟨c0, c1, -, hscan⟩ := dataFrom_chunk (c.plain.mono (by decide)) hend (by decide) []
    rw [data, hscan, dataFrom_end hr, List.append_nil, List.reverse_reverse]
    exact legal_of_isLegal hc r
  obtain ⟨b, s, hs⟩ := List.exists_cons_of_ne_nil hne
  have hplain := c.plain
  rw [hs] at hdata hplain ⊢
  exact token_data (hplain.head (by decide)) hdata anyEncoding

/-! ### Names -/

/-- A name of ASCII letters, with or without a prefix. -/
structure Name.IsPlain (n : Name) : Prop where
  space : ∀ b ∈ n.space, Bytes.isAlpha b = true
  nonempty : n.base ≠ []
  base : ∀ b ∈ n.base, Bytes.isAlpha b = true

namespace Name.IsPlain

variable {n : Name} (h : n.IsPlain)
include h

theorem mem_text {b : UInt8} (hb : b ∈ n.text) : Bytes.isAlpha b = true ∨ b = 58 := by
  rw [Name.text] at hb
  split at hb
  · exact Or.inl (h.base b hb)
  · rcases List.mem_append.mp hb with hb | hb
    · rcases List.mem_append.mp hb with hb | hb
      · exact Or.inl (h.space b hb)
      · exact Or.inr (List.mem_singleton.mp hb)
    · exact Or.inl (h.base b hb)

theorem text_eq_cons : ∃ b s, n.text = b :: s ∧ Bytes.isAlpha b = true := by
  rw [Name.text]
  split
  · obtain ⟨b, s, hs⟩ := List.exists_cons_of_ne_nil h.nonempty
    exact ⟨b, s, hs, h.base b (hs ▸ List.mem_cons_self)⟩
  · next hne =>
      obtain ⟨b, s, hs⟩ := List.exists_cons_of_ne_nil (show n.space ≠ [] by simpa using hne)
      exact ⟨b, _, by rw [hs]; rfl, h.space b (hs ▸ List.mem_cons_self)⟩

theorem isNameByte {b : UInt8} (hb : b ∈ n.text) : Markup.isNameByte b = true := by
  rcases h.mem_text hb with hb | rfl
  · simp [Markup.isNameByte, hb]
  · rfl

theorem isName_text : isName n.text = true := by
  have hchar : ∀ b ∈ n.text, isNameStart b.toNat = true ∧ b.toNat < 0x80 := by
    intro b hb
    rcases h.mem_text hb with hb | rfl
    · have hrange := Bytes.toNat_of_isAlpha hb
      have hlt : b.toNat < 0x80 := by omega
      refine ⟨?_, hlt⟩
      rw [isNameStart, if_pos hlt]
      simp only [Bool.or_eq_true, Bool.and_eq_true, beq_iff_eq, decide_eq_true_eq]
      omega
    · decide
  have hscalar : ∀ b ∈ n.text, Utf8.isScalar b.toNat = true := by
    intro b hb
    have hlt := (hchar b hb).2
    simp only [Utf8.isScalar, Bool.or_eq_true, Bool.and_eq_true, decide_eq_true_eq]
    omega
  have hpieces : Utf8.pieces n.text = n.text.map fun b => (b.toNat, Utf8.encode b.toNat) := by
    have hs : ∀ c ∈ n.text.map UInt8.toNat, Utf8.isScalar c = true := by simpa using hscalar
    have hp := Utf8.pieces_encodeAll_append hs []
    rw [Utf8.encodeAll_ascii fun b hb => (hchar b hb).2, List.append_nil, List.map_map] at hp
    exact hp.trans (List.append_nil _)
  obtain ⟨b, s, hs, -⟩ := h.text_eq_cons
  have hall : ∀ c ∈ n.text,
      Utf8.isBroken (c.toNat, Utf8.encode c.toNat) = false ∧ isNameStart c.toNat = true :=
    fun c hc => ⟨Utf8.isBroken_encode (hscalar c hc), (hchar c hc).1⟩
  rw [isName, hpieces]
  rw [hs] at hall ⊢
  rw [List.map_cons]
  have hb := hall b List.mem_cons_self
  simp only [hb, Bool.not_false, Bool.and_true, Bool.true_and, List.all_map, List.all_eq_true]
  intro c hc
  simp [hall c (List.mem_cons_of_mem b hc), isNameRest]

theorem ofText?_text : Name.ofText? n.text = some n := by
  have hno : ∀ {s : Bytes}, (∀ b ∈ s, Bytes.isAlpha b = true) → 58 ∉ s := fun hs hmem =>
    absurd (hs 58 hmem) (by decide)
  have hcount : ∀ {s : Bytes}, 58 ∉ s → Bytes.countByte 58 s = 0 := by
    intro s hs
    rw [Bytes.countByte, List.countP_eq_zero]
    intro b hb heq
    exact hs (eq_of_beq heq ▸ hb)
  rcases n with ⟨space, base⟩
  have hspace := hno h.space
  have hbase := hno h.base
  rw [Name.text, Name.ofText?]
  dsimp only at hspace hbase ⊢
  split
  · next hnil =>
      obtain rfl : space = [] := by simpa using hnil
      rw [hcount hbase, if_neg (by decide), Bytes.cut?_of_not_mem hbase]
  · next hne =>
      have hcolon : Bytes.ofString ":" = [58] := rfl
      have hone : Bytes.countByte 58 (space ++ 58 :: base) = 1 := by
        have hs := hcount hspace
        have hb := hcount hbase
        rw [Bytes.countByte] at hs hb ⊢
        rw [List.countP_append, List.countP_cons, hs, hb]
        rfl
      have hbase' : (base == []) = false := by simpa using h.nonempty
      rw [hcolon, List.append_assoc, List.singleton_append, hone, if_neg (by decide),
        Bytes.cut?_append hspace]
      dsimp only
      rw [hbase', Bool.eq_false_iff.mpr hne]
      rfl

theorem scanQualified_text {b : UInt8} (hb : Markup.isNameByte b = false) (missing r : Bytes) :
    scanQualified missing (n.text ++ b :: r) = .ok (n, b :: r) := by
  have hall : ∀ c ∈ n.text, Markup.isNameByte c = true := fun c hc => h.isNameByte hc
  have hstop : ∀ c ∈ (b :: r).head?, Markup.isNameByte c = false := by
    rintro _ ⟨⟩
    exact hb
  have hscan : scanName missing (n.text ++ b :: r) = .ok (n.text, b :: r) := by
    have htake := Bytes.takeWhile_append_stop hall hstop
    have hdrop := Bytes.dropWhile_append_stop hall hstop
    have hname := h.isName_text
    obtain ⟨c, s, hs, hc⟩ := h.text_eq_cons
    have hfirst : Markup.isNameByte c = true := hall c (hs ▸ List.mem_cons_self)
    rw [hs] at htake hdrop hname ⊢
    rw [List.cons_append] at htake hdrop ⊢
    simp only [scanName, hfirst, htake, hdrop, hname, Bool.not_true, Bool.false_eq_true, if_false,
      if_true]
  simp only [scanQualified, hscan, bind, Except.bind, h.ofText?_text]

end Name.IsPlain

/-! ### Quoted values -/

/-- The bytes of a reference that was replaced are passed over. -/
theorem dataFrom_skip {quote : Option UInt8} {w : Bytes} (hw : w ≠ []) (b0 b1 : UInt8)
    (out r : Bytes) :
    dataFrom quote false w.length b0 b1 out (w ++ r) = dataFrom quote false 0 0 0 out r := by
  induction w generalizing b0 b1 with
  | nil => exact absurd rfl hw
  | cons b w ih =>
    rw [List.length_cons, List.cons_append, dataFrom]
    by_cases hnil : w = []
    · rw [hnil]
      rfl
    · exact ih hnil 0 0

/-- A reference between quotes stands for its text. -/
theorem dataFrom_reference {w text : Bytes} (hw : w ≠ [])
    (href : ∀ r, reference (w ++ r) = .ok (text, r)) (b0 b1 : UInt8) (out r : Bytes) :
    dataFrom (some 34) false 0 b0 b1 out (38 :: (w ++ r)) =
      dataFrom (some 34) false 0 0 0 (text.reverse ++ out) r := by
  rw [dataFrom]
  simp only [href]
  rw [List.length_append, Nat.add_sub_cancel]
  exact dataFrom_skip hw 0 0 _ r

/-- A character that is quoted is read as it was. -/
theorem dataFrom_quotedByte (c : UInt8) (b0 : UInt8) {b1 : UInt8} (hb1 : b1 ≠ 13) (out : Bytes) :
    ∃ c0 c1, c1 ≠ 13 ∧ ∀ r, dataFrom (some 34) false 0 b0 b1 out (documentQuotedByte c ++ r) =
      dataFrom (some 34) false 0 c0 c1 (c :: out) r := by
  have href : ∀ {w : Bytes}, w ≠ [] → (∀ r, reference (w ++ r) = .ok ([c], r)) →
      ∃ c0 c1, c1 ≠ 13 ∧ ∀ r, dataFrom (some 34) false 0 b0 b1 out (38 :: w ++ r) =
        dataFrom (some 34) false 0 c0 c1 (c :: out) r := fun hw href =>
    ⟨0, 0, by decide, fun r => dataFrom_reference hw href b0 b1 out r⟩
  rw [documentQuotedByte]
  split
  · next hc =>
      obtain rfl := eq_of_beq hc
      exact href (w := "amp;") (by decide) fun r => rfl
  split
  · next hc =>
      obtain rfl := eq_of_beq hc
      exact href (w := "lt;") (by decide) fun r => rfl
  split
  · next hc =>
      obtain rfl := eq_of_beq hc
      exact href (w := "quot;") (by decide) fun r => rfl
  split
  · next hc =>
      obtain rfl := eq_of_beq hc
      exact href (w := "#13;") (by decide) fun r => rfl
  · next h38 h60 h34 h13 =>
      refine ⟨b1, c, by simpa using h13, fun r => ?_⟩
      have hquote : (some 34 == some c) = false := by
        simp only [Option.some_beq_some, beq_eq_false_iff_ne]
        rintro rfl
        exact h34 rfl
      rw [List.singleton_append, dataFrom]
      simp [h38, h60, h13, hb1, hquote]

/-- A text that is quoted is read as it was. -/
theorem dataFrom_quoted (u : Bytes) (b0 : UInt8) {b1 : UInt8} (hb1 : b1 ≠ 13) (out r : Bytes) :
    dataFrom (some 34) false 0 b0 b1 out (documentQuoted u ++ 34 :: r) =
      .ok (out.reverse ++ u, r) := by
  induction u generalizing b0 b1 out with
  | nil =>
    rw [documentQuoted, List.flatMap_nil, List.nil_append, List.append_nil, dataFrom]
    rfl
  | cons c u ih =>
    obtain ⟨c0, c1, hc1, hstep⟩ := dataFrom_quotedByte c b0 hb1 out
    have hcut : documentQuoted (c :: u) ++ 34 :: r =
        documentQuotedByte c ++ (documentQuoted u ++ 34 :: r) := by
      rw [documentQuoted, List.flatMap_cons, List.append_assoc]
      rfl
    rw [hcut, hstep, ih c0 hc1, List.reverse_cons, List.append_assoc, List.singleton_append]

theorem attributeValue_quoted {u : Bytes} (hu : isLegal u = true) (r : Bytes) :
    attributeValue (34 :: (documentQuoted u ++ 34 :: r)) = .ok (u, r) := by
  have hdata : data (some 34) false (documentQuoted u ++ 34 :: r) = .ok (u, r) := by
    rw [data, dataFrom_quoted u 0 (by decide), List.reverse_nil, List.nil_append]
    exact legal_of_isLegal hu r
  exact hdata

/-! ### Tags -/

/-- An attribute as it is written. -/
def Attribute.written (a : Attribute) : Bytes :=
  " " ++ a.name.text ++ "=\"" ++ documentQuoted a.value ++ "\""

/-- An attribute that can be written. -/
structure Attribute.IsPlain (a : Attribute) : Prop where
  name : a.name.IsPlain
  legal : isLegal a.value = true

/-- The attributes of a start tag are read one by one up to its end. -/
theorem attributesWithin_written {as : List Attribute} (has : ∀ a ∈ as, a.IsPlain) (closed : Bool)
    (read : List Attribute) (r : Bytes) {fuel : Nat} (hfuel : as.length < fuel) :
    attributesWithin fuel read (as.flatMap (·.written) ++ (tagEnd closed ++ r)) =
      .ok ((read.reverse ++ as, closed), r) := by
  induction as generalizing read fuel with
  | nil =>
    obtain ⟨fuel, rfl⟩ := Nat.exists_eq_add_one_of_ne_zero (Nat.ne_of_gt hfuel)
    cases closed <;> simp [attributesWithin, tagEnd] <;> rfl
  | cons a as ih =>
    obtain ⟨fuel, rfl⟩ := Nat.exists_eq_add_one_of_ne_zero (Nat.ne_zero_of_lt hfuel)
    have ha := has a List.mem_cons_self
    have hrest := ih (fun b hb => has b (List.mem_cons_of_mem a hb)) (a :: read)
      (Nat.lt_of_succ_lt_succ hfuel)
    rw [List.reverse_cons, List.append_assoc, List.singleton_append] at hrest
    obtain ⟨b, w, hw, hb⟩ := ha.name.text_eq_cons
    have hcut : (a :: as).flatMap (·.written) ++ (tagEnd closed ++ r) =
        32 :: (a.name.text ++ 61 :: 34 :: (documentQuoted a.value ++ 34 ::
          (as.flatMap (·.written) ++ (tagEnd closed ++ r)))) := by
      simp only [List.flatMap_cons, Attribute.written, List.append_assoc]
      rfl
    have hblank : ∀ y, afterBlanks (32 :: (a.name.text ++ y)) = b :: (w ++ y) := by
      intro y
      rw [hw, List.cons_append]
      show (b :: (w ++ y)).dropWhile Bytes.isBlankByte = _
      rw [List.dropWhile_cons_of_neg (by simp [Bytes.isBlankByte_of_isAlpha hb])]
    rw [hcut, attributesWithin, hblank]
    split
    · next h => cases h
    · next h => exact absurd (List.cons.inj h).1 (Bytes.ne_of_isAlpha hb rfl)
    · next h => exact absurd (List.cons.inj h).1 (Bytes.ne_of_isAlpha hb rfl)
    · next h => exact absurd (List.cons.inj h).1 (Bytes.ne_of_isAlpha hb rfl)
    · next h => exact absurd (List.cons.inj h).1 (Bytes.ne_of_isAlpha hb rfl)
    · rw [← List.cons_append, ← hw, ha.name.scanQualified_text rfl]
      have hvalue := attributeValue_quoted ha.legal
        (as.flatMap (·.written) ++ (tagEnd closed ++ r))
      have heq : ∀ y, afterBlanks (61 :: y) = 61 :: y := fun y => rfl
      have hquote : ∀ y, afterBlanks (34 :: y) = 34 :: y := fun y => rfl
      simp only [bind, Except.bind, heq, hquote, hvalue]
      exact hrest

/-- The name of a start tag ends at a blank or at the end of the tag. -/
theorem exists_tagRest (as : List Attribute) (closed : Bool) (r : Bytes) :
    ∃ b s, as.flatMap (·.written) ++ (tagEnd closed ++ r) = b :: s ∧ isNameByte b = false := by
  rcases as with - | ⟨a, as⟩
  · cases closed
    · exact ⟨62, r, rfl, rfl⟩
    · exact ⟨47, 62 :: r, rfl, rfl⟩
  · exact ⟨32, _, rfl, rfl⟩

/-- **A start tag is read with its name and its attributes.** -/
theorem token_startTag {n : Name} (hn : n.IsPlain) {as : List Attribute}
    (has : ∀ a ∈ as, a.IsPlain) (closed : Bool) (r : Bytes) (anyEncoding : Bool) :
    token anyEncoding (60 :: (n.text ++ (as.flatMap (·.written) ++ (tagEnd closed ++ r)))) =
      .ok (.startTag n as closed, r) := by
  have htag : startTag (n.text ++ (as.flatMap (·.written) ++ (tagEnd closed ++ r))) =
      .ok (.startTag n as closed, r) := by
    obtain ⟨b, s, hbs, hb⟩ := exists_tagRest as closed r
    have hlen : as.length < (as.flatMap (·.written) ++ (tagEnd closed ++ r)).length + 1 := by
      have hle := Bytes.length_le_flatMap (f := (·.written)) (fun a => List.cons_ne_nil _ _) as
      rw [List.length_append]
      omega
    have hattrs := attributesWithin_written has closed [] r hlen
    rw [hbs] at hattrs ⊢
    simp only [startTag, hn.scanQualified_text hb, bind, Except.bind, hattrs]
    rfl
  obtain ⟨b, w, hw, hb⟩ := hn.text_eq_cons
  rw [hw, List.cons_append] at htag ⊢
  unfold token
  split
  · next h => cases (List.cons.inj h).2
  · next h => exact absurd (List.cons.inj (List.cons.inj h).2).1 (Bytes.ne_of_isAlpha hb rfl)
  · next h => exact absurd (List.cons.inj (List.cons.inj h).2).1 (Bytes.ne_of_isAlpha hb rfl)
  · next h => exact absurd (List.cons.inj (List.cons.inj h).2).1 (Bytes.ne_of_isAlpha hb rfl)
  · next h =>
      rw [← (List.cons.inj h).2]
      exact htag
  · next h => exact (h _ rfl).elim

/-- **An end tag is read with its name.** -/
theorem token_endTag {n : Name} (hn : n.IsPlain) (r : Bytes) (anyEncoding : Bool) :
    token anyEncoding (60 :: 47 :: (n.text ++ 62 :: r)) = .ok (.endTag n, r) := by
  have hblank : afterBlanks (62 :: r) = 62 :: r := rfl
  have hscan := hn.scanQualified_text (b := 62) rfl "expected element name after </" r
  show endTag (n.text ++ 62 :: r) = _
  simp only [endTag, hscan, bind, Except.bind, hblank]
  rfl

end Markup

end ServerPages
