import Mathlib.Data.List.TakeWhile
import ServerPages.Proofs.Bytes
import ServerPages.Proofs.Utf8
import ServerPages.Source.Cursor

/-!
# Exact places

A cursor goes on piece by piece and counts the characters of each piece. Together they are the
characters of the text before it as long as no piece ends inside a character: the places between
the pieces are cuts. A piece ends in one when it ends in an ASCII byte or is followed by one, and
the parsers read hardly anything else.

Lines need no cuts, because a line feed is never a part of a longer character.

## Main results

* `Utf8.IsBoundary.isCut`: between two characters of a text there is a cut.
* `LineCol.line_advance`, `LineCol.col_advance`: the line and the column after a text, told from its
  bytes and from its last line.
* `Place.IsExact.advance`: a place stays exact when a piece that ends in a cut is passed.
* `Cursor.leadsTo_seekEndTag?`: a search for an end tag, the one that depends on what is searched.
-/

namespace ServerPages

namespace Utf8

/-- No character goes on from `a` into `r`: the characters of a text that starts with `a` and goes
on as `r` does are those of `a` and those of what comes after it. -/
def IsCut (a r : Bytes) : Prop := ∀ s, s <+: r → chars (a ++ s) = chars a ++ chars s

theorem chars_append_ascii {b : UInt8} (hb : b.toNat < 0x80) (a s : Bytes) :
    chars (a ++ b :: s) = chars a ++ chars (b :: s) := by
  refine chars_append_start (fun c hc => ?_) a
  obtain rfl := Option.some.inj hc
  exact isStart_iff.mpr (.inl hb)

theorem chars_cons_ascii {b : UInt8} (hb : b.toNat < 0x80) (s : Bytes) :
    chars (b :: s) = b.toNat :: chars s := by
  rw [chars_cons, charAt_one s hb]
  rfl

theorem IsCut.nil (r : Bytes) : IsCut [] r := fun _ _ => rfl

/-- Before an ASCII byte and at the end of a text there is a cut. -/
theorem IsCut.of_head {a r : Bytes} (hr : ∀ b ∈ r.head?, b.toNat < 0x80) : IsCut a r := by
  rintro (_ | ⟨b, s⟩) ⟨t, rfl⟩
  · rw [List.append_nil, chars_nil, List.append_nil]
  · exact chars_append_ascii (hr b rfl) a s

/-- After an ASCII byte there is a cut. -/
theorem IsCut.of_last {a : Bytes} {b : UInt8} (hb : b.toNat < 0x80) (r : Bytes) :
    IsCut (a ++ [b]) r := by
  intro s _
  rw [List.append_assoc, List.singleton_append, chars_append_ascii hb, chars_append_ascii hb,
    chars_cons_ascii hb, chars_cons_ascii hb, List.append_assoc]
  rfl

/-- After a text that ends in an ASCII byte there is a cut. -/
theorem IsCut.of_getLast? {a : Bytes} (ha : ∀ b ∈ a.getLast?, b.toNat < 0x80) (r : Bytes) :
    IsCut a r := by
  rcases List.eq_nil_or_concat a with rfl | ⟨a, b, rfl⟩
  · exact .nil r
  · rw [List.concat_eq_append] at ha ⊢
    exact .of_last (ha b (by simp)) r

/-- After whole characters there is a cut. -/
theorem IsCut.of_isValid {a : Bytes} (ha : isValid a = true) (r : Bytes) : IsCut a r := by
  obtain ⟨cs, hcs, rfl⟩ := (isValid_iff a).mp ha
  intro s _
  rw [chars_encodeAll_append hcs, ← List.append_nil (encodeAll cs), chars_encodeAll_append hcs,
    chars_nil, List.append_nil]

/-- A cut in a text that follows a cut. -/
theorem IsCut.append {a s r : Bytes} (ha : IsCut a (s ++ r)) (hs : IsCut s r) :
    IsCut (a ++ s) r := by
  intro t ht
  rw [List.append_assoc, ha _ ((List.prefix_append_right_inj s).mpr ht), hs t ht,
    ha s (List.prefix_append s r), List.append_assoc]

/-- After the first character of a text there is a cut. -/
theorem isCut_charAt (b : UInt8) (s : Bytes) :
    IsCut ((b :: s).take (charAt b s).2) ((b :: s).drop (charAt b s).2) := by
  rcases charAt_cases b s with hbroken | ⟨c, r, t, hc, rfl, he, h⟩
  · rw [hbroken]
    intro u hu
    have hone : ∀ t, t <+: s → chars (b :: t) = replacement :: chars t := fun t ht => by
      rw [chars_cons, charAt_of_prefix hbroken ht, List.drop_one, List.tail_cons]
    calc chars (b :: u) = replacement :: chars u := hone u hu
      _ = chars [b] ++ chars u := by rw [hone [] List.nil_prefix, chars_nil]; rfl
  · rw [h, ← List.cons_append, ← he, List.take_left, List.drop_left]
    exact .of_isValid ((isValid_iff _).mpr ⟨[c], by simpa using hc, by simp⟩) t

/-- The offset lies between two characters of the text, before all or after all of them. -/
def IsBoundary (s : Bytes) (k : Nat) : Prop :=
  ∃ m, k = (((pieces s).take m).flatMap (·.2)).length

/-- Induction on the number of characters before the boundary. -/
theorem IsBoundary.isCut {s : Bytes} {k : Nat} (h : IsBoundary s k) :
    IsCut (s.take k) (s.drop k) := by
  obtain ⟨m, rfl⟩ := h
  induction m generalizing s with
  | zero => exact .nil s
  | succ m ih =>
    cases s with
    | nil => exact .of_head (by simp)
    | cons b s =>
      have hlen : ((b :: s).take (charAt b s).2).length = (charAt b s).2 := by
        rw [List.length_take, Nat.min_eq_left (charAt_le b s)]
      rw [pieces_cons, List.take_succ_cons, List.flatMap_cons, List.length_append, hlen,
        List.take_add, ← List.drop_drop]
      refine .append ?_ ih
      rw [List.take_append_drop]
      exact isCut_charAt b s

end Utf8

/-! ### Lines and columns -/

namespace Bytes

/-- The text after the last line feed. -/
def lastLine (s : Bytes) : Bytes := (s.reverse.takeWhile (· != 10)).reverse

/-- The line of the place before which `k` bytes stand, counted from one. -/
def lineAt (s : Bytes) (k : Nat) : Nat := 1 + countByte 10 (s.take k)

/-- The column of the place before which `k` bytes stand, counted from one in characters. -/
def colAt (s : Bytes) (k : Nat) : Nat := 1 + (Utf8.chars (lastLine (s.take k))).length

theorem not_mem_lastLine (s : Bytes) : 10 ∉ lastLine s := by
  intro h
  have := List.mem_takeWhile_imp (List.mem_reverse.mp h)
  simp at this

/-- A text is its last line, or ends in it after a line feed. -/
theorem eq_lastLine_or (s : Bytes) : s = lastLine s ∨ ∃ a, s = a ++ 10 :: lastLine s := by
  have hsplit : s = (s.reverse.dropWhile (· != 10)).reverse ++ lastLine s := by
    rw [lastLine, ← List.reverse_append, List.takeWhile_append_dropWhile, List.reverse_reverse]
  cases hd : s.reverse.dropWhile (· != 10) with
  | nil => exact .inl (by rwa [hd] at hsplit)
  | cons b t =>
    have hb : b = 10 := by
      have h := List.head?_dropWhile_not (· != 10) s.reverse
      rw [hd] at h
      simpa using h
    refine .inr ⟨t.reverse, ?_⟩
    rw [hd, hb, List.reverse_cons, List.append_assoc] at hsplit
    exact hsplit

end Bytes

namespace Utf8

/-- No byte of a character but a line feed is a line feed. -/
theorem countByte_encode (c : Nat) : (encode c).countByte 10 = if c == 10 then 1 else 0 := by
  by_cases h : c < 0x80
  · have hall : ∀ n < 0x80, Bytes.countByte 10 [n.toUInt8] = if n == 10 then 1 else 0 := by decide
    rw [encode_one h]
    exact hall c h
  · have hne : ¬(c == 10) = true := by
      rw [beq_iff_eq]
      omega
    rw [if_neg hne, Bytes.countByte, List.countP_eq_zero]
    intro d hd hten
    have hle := le_of_mem_encode (Nat.not_lt.mp h) hd
    rw [eq_of_beq hten] at hle
    exact absurd hle (by decide)

/-- A line feed is a character of its own. -/
theorem count_chars (s : Bytes) : (chars s).count 10 = s.countByte 10 := by
  induction s using char_induction with
  | nil => rfl
  | broken b s hb ih =>
    have hne : ¬(b == 10) = true := by
      rintro hten
      obtain rfl := eq_of_beq hten
      rw [charAt_one s (by decide)] at hb
      cases hb
    rw [chars_cons, hb, List.drop_one, List.tail_cons, List.count_cons, ih, Bytes.countByte,
      Bytes.countByte, List.countP_cons, if_neg hne]
    rfl
  | char c s hc ih =>
    rw [chars_encode_append hc, List.count_cons, ih, ← countByte_encode, Bytes.countByte,
      Bytes.countByte, Bytes.countByte, List.countP_append, Nat.add_comm]

end Utf8

namespace LineCol

theorem line_foldl_step (p : LineCol) (cs : List Nat) :
    (cs.foldl step p).line = p.line + cs.count 10 := by
  induction cs generalizing p with
  | nil => simp
  | cons c cs ih =>
    rw [List.foldl_cons, ih, List.count_cons, step]
    split <;> simp_all
    omega

theorem col_foldl_step (p : LineCol) {cs : List Nat} (h : 10 ∉ cs) :
    (cs.foldl step p).col = p.col + cs.length := by
  induction cs generalizing p with
  | nil => simp
  | cons c cs ih =>
    obtain ⟨hc, hcs⟩ := not_or.mp (mt List.mem_cons.mpr h)
    rw [List.foldl_cons, ih _ hcs, step, if_neg (by simpa using Ne.symm hc), List.length_cons]
    simp only
    omega

/-- The line goes up by the line feeds of the text. -/
theorem line_advance (p : LineCol) (s : Bytes) :
    (p.advance s).line = p.line + s.countByte 10 := by
  rw [advance, line_foldl_step, Utf8.count_chars]

/-- The column is told by the characters of the last line of the text. -/
theorem col_advance (s : Bytes) :
    (advance ⟨1, 1⟩ s).col = 1 + (Utf8.chars s.lastLine).length := by
  have hlast : 10 ∉ Utf8.chars s.lastLine := by
    rw [← List.count_eq_zero, Utf8.count_chars, Bytes.countByte, List.countP_eq_zero]
    exact fun b hb => by simpa using ne_of_mem_of_not_mem hb s.not_mem_lastLine
  rcases s.eq_lastLine_or with h | ⟨a, h⟩
  · rw [advance, col_foldl_step _ (h ▸ hlast), ← h]
  · have hfeed : (10 : UInt8).toNat < 0x80 := by decide
    have hchars : Utf8.chars s = Utf8.chars a ++ (10 : UInt8).toNat :: Utf8.chars s.lastLine := by
      rw [← Utf8.chars_cons_ascii hfeed, ← Utf8.chars_append_ascii hfeed, ← h]
    rw [advance, hchars, List.foldl_append, List.foldl_cons, col_foldl_step _ hlast]
    rfl

theorem advance_append_of_chars (p : LineCol) {a s : Bytes}
    (h : Utf8.chars (a ++ s) = Utf8.chars a ++ Utf8.chars s) :
    p.advance (a ++ s) = (p.advance a).advance s := by
  rw [advance, h, List.foldl_append]
  rfl

/-- From the start of a text to the place before which `k` bytes stand. -/
theorem advance_take (s : Bytes) (k : Nat) :
    advance ⟨1, 1⟩ (s.take k) = ⟨s.lineAt k, s.colAt k⟩ := by
  rw [LineCol.mk.injEq, line_advance, col_advance, Bytes.lineAt, Bytes.colAt]
  exact ⟨rfl, rfl⟩

end LineCol

/-! ### Places -/

/-- The place lies in its source where it says. The column is what it says unless a piece that was
passed may have ended inside a character. -/
structure Place.IsExact (whole : Prop) (p : Place) : Prop where
  offset : p.offset ≤ p.source.data.length
  rest : p.rest = p.source.data.drop p.offset
  line : p.line = Bytes.lineAt p.source.data p.offset
  col : whole → p.col = Bytes.colAt p.source.data p.offset
  cut : whole → Utf8.IsCut (p.source.data.take p.offset) p.rest

namespace Place

theorem isExact_start (whole : Prop) (s : Source) : (start s).IsExact whole where
  offset := Nat.zero_le _
  rest := rfl
  line := rfl
  col _ := rfl
  cut _ := .nil _

variable {whole : Prop} {p : Place} {s : Bytes}

/-- A text that stands at the place reaches into the source. -/
theorem IsExact.take_add (h : p.IsExact whole) (hs : s <+: p.rest) :
    p.offset + s.length ≤ p.source.data.length ∧
    p.source.data.take (p.offset + s.length) = p.source.data.take p.offset ++ s := by
  have hrest := h.rest ▸ hs
  have hlen := hrest.length_le
  rw [List.length_drop] at hlen
  have hoff := h.offset
  refine ⟨by omega, ?_⟩
  rw [List.take_add, ← List.prefix_iff_eq_take.mp hrest]

/-- The line and the column after a text that stands at the place. -/
theorem IsExact.lineCol (h : p.IsExact whole) (hs : s <+: p.rest) :
    (LineCol.advance ⟨p.line, p.col⟩ s).line =
      Bytes.lineAt p.source.data (p.offset + s.length) ∧
    (whole → (LineCol.advance ⟨p.line, p.col⟩ s).col =
      Bytes.colAt p.source.data (p.offset + s.length)) := by
  obtain ⟨-, htake⟩ := h.take_add hs
  refine ⟨?_, fun hw => ?_⟩
  · rw [LineCol.line_advance, h.line, Bytes.lineAt, Bytes.lineAt, htake, Bytes.countByte,
      Bytes.countByte, Bytes.countByte, List.countP_append]
    push_cast
    omega
  · -- The place is where the text before it leads from the start of the source.
    have hstart : (⟨p.line, p.col⟩ : LineCol) =
        LineCol.advance ⟨1, 1⟩ (p.source.data.take p.offset) := by
      rw [LineCol.advance_take, h.line, h.col hw]
    have hend := LineCol.advance_take p.source.data (p.offset + s.length)
    rw [htake, LineCol.advance_append_of_chars _ (h.cut hw s hs), ← hstart] at hend
    exact congrArg LineCol.col hend

/-- A piece that stands at the place is passed, if the text up to its end ends in a cut. -/
theorem IsExact.advance_to (h : p.IsExact whole) (hs : s <+: p.rest)
    (hcut : whole →
      Utf8.IsCut (p.source.data.take (p.offset + s.length)) (p.rest.drop s.length)) :
    (p.advance s).IsExact whole := by
  obtain ⟨hline, hcol⟩ := h.lineCol hs
  refine ⟨(h.take_add hs).1, ?_, hline, hcol, hcut⟩
  show p.rest.drop s.length = p.source.data.drop (p.offset + s.length)
  rw [h.rest, List.drop_drop]

/-- A piece that stands at the place and ends in a cut is passed. -/
theorem IsExact.advance (h : p.IsExact whole) (hs : s <+: p.rest)
    (hcut : whole → Utf8.IsCut s (p.rest.drop s.length)) : (p.advance s).IsExact whole := by
  have hsplit : p.rest = s ++ p.rest.drop s.length := by
    obtain ⟨r, hr⟩ := hs
    rw [← hr, List.drop_left]
  refine h.advance_to hs fun hw => ?_
  rw [(h.take_add hs).2]
  exact Utf8.IsCut.append (hsplit ▸ h.cut hw) (hcut hw)

end Place

/-! ### Positions -/

/-- The position is that of a place in the text at which a literal stands. -/
def Position.Marks (whole : Prop) (text lit : Bytes) (p : Position) : Prop :=
  ∃ k : Nat, k ≤ text.length ∧ p.offset = k ∧ p.line = text.lineAt k ∧
    (whole → p.col = text.colAt k) ∧ lit <+: text.drop k

/-- The position of a piece of text that stands at the cursor. -/
theorem Cursor.marks_advance {whole : Prop} {c : Cursor} (h : c.place.IsExact whole)
    {s lit : Bytes} (hs : s ++ lit <+: c.rest) :
    (c.position.advance s).Marks whole c.place.source.data lit := by
  have hpre : s <+: c.place.rest := (List.prefix_append s lit).trans hs
  obtain ⟨hline, hcol⟩ := h.lineCol hpre
  refine ⟨c.place.offset + s.length, (h.take_add hpre).1, rfl, hline, hcol, ?_⟩
  obtain ⟨r, hr⟩ := hs
  have hrest : c.place.rest = s ++ (lit ++ r) := by rw [← List.append_assoc]; exact hr.symm
  rw [← List.drop_drop, ← h.rest, hrest, List.drop_left]
  exact List.prefix_append lit r

theorem Cursor.marks_position {whole : Prop} {c : Cursor} (h : c.place.IsExact whole) {lit : Bytes}
    (hlit : lit <+: c.rest) : c.position.Marks whole c.place.source.data lit := by
  have hadvance : c.position.advance [] = c.position := by
    simp [Position.advance, LineCol.advance]
  exact hadvance ▸ Cursor.marks_advance h (s := []) hlit

/-! ### Pieces that are passed -/

namespace Cursor

/-- `d` is reached from `c` in the same source, and its place is exact if that of `c` is. -/
structure LeadsTo (whole : Prop) (c d : Cursor) : Prop where
  source : d.place.source = c.place.source
  outer : d.outer = c.outer
  offset : c.place.offset ≤ d.place.offset
  exact : c.place.IsExact whole → d.place.IsExact whole

variable {whole : Prop} {c d e here after : Cursor} {lit name : Bytes}

theorem LeadsTo.refl (c : Cursor) : c.LeadsTo whole c := ⟨rfl, rfl, Nat.le_refl _, id⟩

theorem LeadsTo.trans (h : c.LeadsTo whole d) (h' : d.LeadsTo whole e) : c.LeadsTo whole e :=
  ⟨h'.source.trans h.source, h'.outer.trans h.outer, Nat.le_trans h.offset h'.offset,
    fun hc => h'.exact (h.exact hc)⟩

/-- A piece that stands at the cursor and ends in a cut is passed. -/
theorem leadsTo_pass {s r : Bytes} (h : c.rest = s ++ r) (hcut : whole → Utf8.IsCut s r) :
    c.LeadsTo whole (c.pass s) := by
  refine ⟨rfl, rfl, Nat.le_add_right _ _, fun hc => hc.advance ?_ ?_⟩
  · exact ⟨r, h.symm⟩
  · rwa [show c.place.rest = s ++ r from h, List.drop_left]

/-- Some bytes are passed. -/
theorem leadsTo_skip {n : Nat} (hcut : whole → Utf8.IsCut (c.rest.take n) (c.rest.drop n)) :
    c.LeadsTo whole (c.skip n) :=
  leadsTo_pass (List.take_append_drop n c.rest).symm hcut

theorem offset_skip (c : Cursor) (n : Nat) :
    (c.skip n).place.offset = c.place.offset + min n c.rest.length := by
  rw [← List.length_take]
  rfl

theorem accept?_eq_some_iff : c.accept? lit = some d ↔ lit <+: c.rest ∧ d = c.pass lit := by
  rw [accept?, sees, Option.ite_none_right_eq_some, Bytes.startsWith_iff, Option.some.injEq,
    eq_comm (a := d)]

theorem skip_length {s : Bytes} (h : s <+: c.rest) : c.skip s.length = c.pass s := by
  rw [skip, ← List.prefix_iff_eq_take.mp h]

theorem rest_pass {s r : Bytes} (h : c.rest = s ++ r) : (c.pass s).rest = r := by
  calc (c.pass s).rest = c.rest.drop s.length := rfl
    _ = r := by rw [h, List.drop_left]

theorem rest_skipBlanks (c : Cursor) : c.skipBlanks.rest = c.rest.dropWhile Bytes.isBlankByte :=
  rest_pass List.takeWhile_append_dropWhile.symm

theorem rest_skip (c : Cursor) (n : Nat) : (c.skip n).rest = c.rest.drop n :=
  rest_pass (List.take_append_drop n c.rest).symm

/-- The literal ends in an ASCII byte. -/
def EndsInAscii (lit : Bytes) : Prop := ∀ b ∈ lit.getLast?, b.toNat < 0x80

instance (lit : Bytes) : Decidable (EndsInAscii lit) :=
  decidable_of_iff (lit.getLast?.all fun b => b.toNat < 0x80) (by
    unfold EndsInAscii
    cases lit.getLast? <;> simp)

theorem leadsTo_accept? (hlit : whole → EndsInAscii lit) (h : c.accept? lit = some d) :
    c.LeadsTo whole d := by
  obtain ⟨⟨r, hr⟩, rfl⟩ := accept?_eq_some_iff.mp h
  exact leadsTo_pass hr.symm fun hw => .of_getLast? (hlit hw) r

theorem leadsTo_skipBlanks (c : Cursor) : c.LeadsTo whole c.skipBlanks := by
  refine leadsTo_pass (List.takeWhile_append_dropWhile).symm fun _ => .of_getLast? ?_ _
  exact fun b hb => Bytes.lt_of_isBlankByte (List.mem_takeWhile_imp (List.mem_of_getLast? hb))

theorem leadsTo_acceptAfterBlanks? (hlit : whole → EndsInAscii lit)
    (h : c.acceptAfterBlanks? lit = some d) : c.LeadsTo whole d :=
  (leadsTo_skipBlanks c).trans (leadsTo_accept? hlit h)

/-- After blanks and a literal that starts with an ASCII byte, or blanks alone, stands one. -/
theorem head_of_acceptAfterBlanks? {b : UInt8} {s : Bytes} (hb : b.toNat < 0x80)
    (h : c.acceptAfterBlanks? (b :: s) = some d) : ∀ a ∈ c.rest.head?, a.toNat < 0x80 := by
  intro a ha
  obtain ⟨r, hr⟩ := List.head?_eq_some_iff.mp ha
  by_cases hblank : Bytes.isBlankByte a = true
  · exact Bytes.lt_of_isBlankByte hblank
  obtain ⟨hsees, -⟩ := accept?_eq_some_iff.mp h
  rw [rest_skipBlanks, hr, List.dropWhile_cons_of_neg hblank] at hsees
  exact (List.cons_prefix_cons.mp hsees).1 ▸ hb

/-- The name of an end tag is followed by blanks or the closing mark. -/
theorem leadsTo_acceptEndTag? (h : c.acceptEndTag? name = some d) : c.LeadsTo whole d := by
  obtain ⟨e, he, hd⟩ := Option.bind_eq_some_iff.mp h
  obtain ⟨⟨r, hr⟩, rfl⟩ := accept?_eq_some_iff.mp he
  have hopen : c.LeadsTo whole (c.pass ("</" ++ name)) := leadsTo_pass hr.symm fun _ =>
    .of_head (rest_pass hr.symm ▸ head_of_acceptAfterBlanks? (by decide) hd)
  exact hopen.trans (leadsTo_acceptAfterBlanks? (fun _ => by decide) hd)

theorem isPrefix_of_indexOfUnescaped? {s lit : Bytes} {esc : UInt8} {odd : Bool} {i : Nat}
    (h : indexOfUnescaped? lit esc odd s = some i) : lit <+: s.drop i := by
  induction s generalizing i odd with
  | nil =>
    unfold indexOfUnescaped? at h
    split at h
    · next hlit =>
      rw [Bool.and_eq_true] at hlit
      exact List.isEmpty_iff.mp hlit.1 ▸ List.nil_prefix
    · cases h
  | cons b s ih =>
    rw [indexOfUnescaped?] at h
    split at h
    · next hlit =>
      obtain rfl := Option.some.inj h
      exact List.isPrefixOf_iff_prefix.mp (Bool.and_eq_true_iff.mp hlit).2
    · obtain ⟨j, hj, rfl⟩ := Option.map_eq_some_iff.mp h
      exact ih hj

/-- A place where a literal stands that starts with an ASCII byte. -/
theorem leadsTo_skip_literal {b : UInt8} {s : Bytes} {i : Nat} (hb : whole → b.toNat < 0x80)
    (h : b :: s <+: c.rest.drop i) : c.LeadsTo whole (c.skip i) := by
  refine leadsTo_skip fun hw => .of_head fun a ha => ?_
  obtain ⟨r, hr⟩ := h
  rw [← hr] at ha
  exact Option.some.inj ha ▸ hb hw

/-- A literal that stands at the cursor and ends in an ASCII byte is skipped. -/
theorem leadsTo_skip_length (hlit : EndsInAscii lit) (h : lit <+: c.rest) :
    c.LeadsTo whole (c.skip lit.length) := by
  rw [skip_length h]
  obtain ⟨r, hr⟩ := h
  exact leadsTo_pass hr.symm fun _ => .of_getLast? hlit r

/-- What a search finds: the literal stands where it ends. -/
theorem leadsTo_found {b : UInt8} {s : Bytes} {i : Nat} (hb : b.toNat < 0x80)
    (hlit : EndsInAscii (b :: s)) (h : b :: s <+: c.rest.drop i) :
    c.LeadsTo whole ((c.skip i).skip (b :: s).length) :=
  (leadsTo_skip_literal (fun _ => hb) h).trans
    (leadsTo_skip_length hlit (rest_skip c i ▸ h))

theorem leadsTo_seek? {b : UInt8} {s : Bytes} (hb : b.toNat < 0x80) (hlit : EndsInAscii (b :: s))
    (h : c.seek? (b :: s) = some (here, after)) : c.LeadsTo whole after := by
  obtain ⟨i, hi, h⟩ := Option.map_eq_some_iff.mp h
  obtain ⟨rfl, rfl⟩ := Prod.mk.inj h
  exact leadsTo_found hb hlit (Bytes.isPrefix_of_indexOf? hi)

theorem leadsTo_seekUnescaped? {b : UInt8} {s : Bytes} {esc : UInt8} (hb : b.toNat < 0x80)
    (hlit : EndsInAscii (b :: s)) (h : c.seekUnescaped? (b :: s) esc = some (here, after)) :
    c.LeadsTo whole after := by
  obtain ⟨i, hi, h⟩ := Option.map_eq_some_iff.mp h
  obtain ⟨rfl, rfl⟩ := Prod.mk.inj h
  exact leadsTo_found hb hlit (isPrefix_of_indexOfUnescaped? hi)

/-- A search for an end tag passes the names of other end tags that start with the same name. So it
stops inside a character where the name does. -/
theorem leadsTo_seekEndTagWithin {fuel : Nat}
    (hname : whole → ∀ r, Utf8.IsCut ("</" ++ name) r)
    (h : seekEndTagWithin name fuel c = some (here, after)) :
    c.LeadsTo whole here ∧ c.LeadsTo whole after := by
  induction fuel generalizing c with
  | zero => cases h
  | succ fuel ih =>
    unfold seekEndTagWithin at h
    split at h
    · cases h
    next found after' hseek =>
    obtain ⟨i, hi, hfound⟩ := Option.map_eq_some_iff.mp hseek
    obtain ⟨rfl, rfl⟩ := Prod.mk.inj hfound
    have hpre := Bytes.isPrefix_of_indexOf? hi
    have hopen : c.LeadsTo whole (c.skip i) := leadsTo_skip_literal (fun _ => by decide) hpre
    have hafter : (c.skip i).LeadsTo whole
        ((c.skip i).skip (Bytes.ofString "</" ++ name).length) := by
      obtain ⟨r, hr⟩ := hpre
      refine leadsTo_skip fun hw => ?_
      rw [rest_skip, ← hr, List.take_left]
      exact hname hw _
    split at h
    · next done hdone =>
      obtain ⟨rfl, rfl⟩ := Prod.mk.inj (Option.some.inj h)
      have hclose := (hopen.trans hafter).trans
        (leadsTo_acceptAfterBlanks? (fun _ => by decide) hdone)
      exact ⟨hopen, hclose⟩
    · have hnext := (hopen.trans hafter).trans (leadsTo_skipBlanks _)
      obtain ⟨hhere, hdone⟩ := ih h
      exact ⟨hnext.trans hhere, hnext.trans hdone⟩

theorem leadsTo_seekEndTag? (hname : whole → ∀ r, Utf8.IsCut ("</" ++ name) r)
    (h : c.seekEndTag? name = some (here, after)) : c.LeadsTo whole after :=
  (leadsTo_seekEndTagWithin hname h).2

theorem leadsTo_next (c : Cursor) : c.LeadsTo whole c.next.2 := by
  cases h : c.rest with
  | nil =>
    have hnext : c.next.2 = c := by rw [next, h]; rfl
    exact hnext.symm ▸ .refl c
  | cons b s =>
    have hnext : c.next.2 = c.skip (Utf8.charAt b s).2 := by rw [next, skip, h]; rfl
    rw [hnext]
    exact leadsTo_skip fun _ => h ▸ Utf8.isCut_charAt b s

/-- A name ends before an ASCII byte. -/
theorem head_dropWhile_isNameByte (s : Bytes) :
    ∀ b ∈ (s.dropWhile isNameByte).head?, b.toNat < 0x80 := by
  intro b hb
  have h := List.head?_dropWhile_not isNameByte s
  rw [Option.mem_def.mp hb] at h
  simp only [isNameByte, Bool.or_eq_false_iff, decide_eq_false_iff_not] at h
  simpa [UInt8.le_iff_toNat_le] using h.2

theorem leadsTo_name (c : Cursor) : c.LeadsTo whole c.name.2 :=
  leadsTo_pass (List.takeWhile_append_dropWhile).symm
    fun _ => .of_head (head_dropWhile_isNameByte c.rest)

/-- What is read of a quoted token ends in the mark that closes it. -/
theorem quotedToken_eq_some {q : Nat} {ps : List (Nat × Bytes)} {text read : Bytes}
    (h : quotedToken q ps = some (text, read)) :
    ∃ a b, read = a ++ b ∧ (q, b) ∈ ps ∧ read <+: ps.flatMap (·.2) := by
  fun_induction quotedToken q ps generalizing text read with
  | case1 => cases h
  | case2 c b hc =>
    cases h
    exact ⟨[], b, rfl, by simp [eq_of_beq hc], by simp⟩
  | case3 => cases h
  | case4 c b d e ps hc =>
    cases h
    exact ⟨[], b, rfl, by simp [eq_of_beq hc], by simp⟩
  | case5 c b d e ps hc hesc ih =>
    obtain ⟨⟨text', read'⟩, hr, hread⟩ := Option.map_eq_some_iff.mp h
    obtain ⟨rfl, rfl⟩ := Prod.mk.inj hread
    obtain ⟨a, x, rfl, hmem, hpre⟩ := ih hr
    refine ⟨b ++ e ++ a, x, by simp, by simp [hmem], ?_⟩
    simpa [List.prefix_append_right_inj] using hpre
  | case6 c b d e ps hc hesc ih =>
    obtain ⟨⟨text', read'⟩, hr, hread⟩ := Option.map_eq_some_iff.mp h
    obtain ⟨rfl, rfl⟩ := Prod.mk.inj hread
    obtain ⟨a, x, rfl, hmem, hpre⟩ := ih hr
    refine ⟨b ++ a, x, by simp, List.mem_cons_of_mem _ hmem, ?_⟩
    simpa [List.prefix_append_right_inj] using hpre

/-- A quoted token that is read of a text ends in the byte of its mark. -/
theorem quotedToken_pieces_eq_some {q : UInt8} (hq : q.toNat < 0x80) {s text read : Bytes}
    (h : quotedToken q.toNat (Utf8.pieces s) = some (text, read)) :
    ∃ a, read = a ++ [q] ∧ read <+: s := by
  obtain ⟨a, b, rfl, hmem, hpre⟩ := quotedToken_eq_some h
  rw [Utf8.flatMap_pieces] at hpre
  rcases Utf8.piece_cases hmem with ⟨e, he⟩ | ⟨e, -, he⟩
  · have hbroken : q.toNat = Utf8.replacement := congrArg Prod.fst he
    rw [hbroken] at hq
    exact absurd hq (by decide)
  · obtain ⟨rfl, rfl⟩ := Prod.mk.inj he
    rw [Utf8.encode_one hq, Utf8.toUInt8_eq_of_toNat rfl] at hpre ⊢
    exact ⟨a, rfl, hpre⟩

theorem endsToken_lt {b : UInt8} (h : endsToken b = true) : b.toNat < 0x80 := by
  simp only [endsToken, Bool.or_eq_true, beq_iff_eq] at h
  rcases h with (((hblank | rfl) | rfl) | rfl) | rfl
  · exact Bytes.lt_of_isBlankByte hblank
  all_goals decide

/-- A token ends before an ASCII byte or in one, or with the text. -/
theorem leadsTo_token (c : Cursor) (quoted : Bool) : c.LeadsTo whole (c.token quoted).2 := by
  refine (leadsTo_skipBlanks c).trans ?_
  rw [token]
  generalize c.skipBlanks = d
  cases hrest : d.rest with
  | nil => exact .refl d
  | cons q s =>
    dsimp only
    split
    · next hquote =>
      have hq : q.toNat < 0x80 := by
        simp only [Bool.and_eq_true, Bool.or_eq_true, beq_iff_eq] at hquote
        rcases hquote.2 with rfl | rfl <;> decide
      split
      · next text read hread =>
        obtain ⟨a, rfl, r, hr⟩ := quotedToken_pieces_eq_some hq hread
        have hsplit : d.rest = q :: (a ++ [q]) ++ r := by rw [hrest, ← hr, List.cons_append]
        exact leadsTo_pass hsplit fun _ => .of_last (a := q :: a) hq r
      · exact leadsTo_pass (r := []) (by rw [hrest, List.append_nil]) fun _ => .of_head (by simp)
    · refine leadsTo_pass (hrest.trans List.takeWhile_append_dropWhile.symm) fun _ =>
        .of_head fun b hb => endsToken_lt ?_
      have h := List.head?_dropWhile_not (!endsToken ·) (q :: s)
      rw [Option.mem_def.mp hb] at h
      simpa using h

end Cursor

end ServerPages
