import ServerPages.Proofs.ScannedText

/-!
# Segments tile their text

A scanned text is taken apart without loss: every segment covers the bytes up to the next one, an
expression is what it covers, and a literal is what it covers without the backslashes of escaped
openers. The scan goes from opener to opener (`Meets`): it passes over literals up to the next
opener that is not escaped, and over every expression as a whole, and it fails at an opener whose
expression does not end.

The test for expressions and the removal of escapes are loops of their own, which step over an
escaped opener in another way than the scan does. That they agree with it on a literal is said once
(`IsLiteral`), and everything about whole texts follows by going from literal to expression.

## Main results

* `Expression.scan_faithful`: the segments of a text tile it, and which opener a scan fails at.
* `Expression.contains_agrees`: the test for expressions agrees with the scan, so a text or an
  attribute that is tested first is read as if it were always scanned.
-/

namespace ServerPages.Expression

/-! ### Literals -/

theorem ne_nil_of_isOpener {s : Bytes} (h : isOpener s = true) : s ≠ [] := by
  rintro rfl
  cases h

theorem isOpener_append {s : Bytes} (h : isOpener s = true) (t : Bytes) :
    isOpener (s ++ t) = true := by
  rcases s with - | ⟨a, - | ⟨b, s⟩⟩
  · cases h
  · cases h
  · exact h

theorem unescape_ne_nil {s : Bytes} (h : s ≠ []) : unescape s ≠ [] := by
  induction s with
  | nil => exact absurd rfl h
  | cons b s ih =>
    rw [unescape]
    split
    · next hesc =>
      refine ih ?_
      rintro rfl
      exact Bool.false_ne_true (Bool.and_eq_true_iff.mp hesc).2
    · exact List.cons_ne_nil _ _

/-- The text `u`, which `r` follows, is literal: every opener in it is escaped, and it does not
escape what follows. The scan, the test for expressions and the removal of escapes all pass over
it. -/
structure IsLiteral (u r : Bytes) : Prop where
  escaped : ∀ k < u.length, isOpener ((u ++ r).drop k) = true → ∃ j, k = j + 1 ∧ u[j]? = some 92
  last : isOpener r = true → u.getLast? ≠ some 92
  scanned : ∀ offset start y, scanFrom offset 0 (some (start, y)) (u ++ r) =
    scanFrom (offset + u.length) 0 (some (start, (unescape u).reverse ++ y)) r
  tested : contains (u ++ r) = contains r

theorem IsLiteral.nil (r : Bytes) : IsLiteral [] r where
  escaped k hk := absurd hk (Nat.not_lt_zero k)
  last _ := by simp
  scanned _ _ _ := rfl
  tested := rfl

/-- A byte that neither opens nor escapes an expression. -/
theorem IsLiteral.byte {b : UInt8} {u r : Bytes} (h : IsLiteral u r)
    (hopen : isOpener (b :: (u ++ r)) = false) (hesc : (b == 92 && isOpener (u ++ r)) = false) :
    IsLiteral (b :: u) r where
  escaped k hk hk' := by
    rcases k with - | k
    · exact absurd hk' (by rw [List.drop_zero, List.cons_append, hopen]; exact Bool.false_ne_true)
    · obtain ⟨j, rfl, hj⟩ := h.escaped k (Nat.lt_of_succ_lt_succ hk) hk'
      exact ⟨j + 1, rfl, hj⟩
  last hr := by
    rcases u with - | ⟨c, u⟩
    · rintro hb
      obtain rfl : b = 92 := Option.some.inj hb
      rw [List.nil_append, hr] at hesc
      cases hesc
    · exact h.last hr
  scanned offset start y := by
    have hunescape : (b == 92 && isOpener u) = false := by
      rw [Bool.eq_false_iff] at hesc ⊢
      intro hb
      rw [Bool.and_eq_true] at hb
      exact hesc (by rw [hb.1, isOpener_append hb.2, Bool.and_self])
    rw [List.cons_append, scanFrom, hesc, hopen, unescape, hunescape]
    simp only [Bool.false_eq_true, if_false, Pending.add]
    have hread : (b :: unescape u).reverse ++ y = (unescape u).reverse ++ (b :: y) := by simp
    rw [h.scanned, hread, List.length_cons, Nat.add_assoc, Nat.add_comm 1]
    rfl
  tested := by
    rw [← h.tested, List.cons_append]
    generalize u ++ r = t at hopen hesc
    rcases t with - | ⟨c, - | ⟨d, t⟩⟩
    · rfl
    · simp only [contains, hopen]
    · rw [contains, hesc, hopen]
      rfl

/-- An escaped opener. -/
theorem IsLiteral.opener {m : UInt8} {u r : Bytes} (h : IsLiteral u r) (hm : m = 36 ∨ m = 35) :
    IsLiteral (92 :: m :: 123 :: u) r where
  escaped k hk hk' := by
    rcases k with - | - | - | k
    · exact absurd hk' (by simp [isOpener])
    · exact ⟨0, rfl, rfl⟩
    · exact absurd hk' (by cases hu : u ++ r <;> simp [isOpener, hu])
    · obtain ⟨j, rfl, hj⟩ := h.escaped k (by simpa using hk) hk'
      exact ⟨j + 3, rfl, hj⟩
  last hr := by
    rcases u with - | ⟨c, u⟩
    · simp
    · exact h.last hr
  scanned offset start y := by
    have hopen : ∀ t, isOpener (m :: 123 :: t) = true := fun t =>
      isOpener_cons_iff.mpr ⟨hm, t, rfl⟩
    have hplain : m ≠ 92 := by rcases hm with rfl | rfl <;> decide
    have hunescape : unescape (92 :: m :: 123 :: u) = m :: 123 :: unescape u := by
      rw [unescape, hopen, unescape, unescape]
      simp [hplain]
    rw [hunescape]
    show scanFrom offset 0 _ (92 :: m :: 123 :: (u ++ r)) = _
    rw [scanFrom, hopen]
    simp only [beq_self_eq_true, Bool.and_self, if_true, Pending.add]
    rw [scanFrom, scanFrom, h.scanned]
    simp [Nat.add_comm, Nat.add_left_comm]
  tested := by
    rw [← h.tested]
    show contains (92 :: m :: 123 :: (u ++ r)) = _
    rw [contains, isOpener_cons_iff.mpr ⟨hm, _, rfl⟩]
    rfl

/-- A text that does not start with an expression starts with a literal, which the text or an
expression ends. -/
theorem exists_isLiteral {s : Bytes} (hs : s ≠ []) (hopen : isOpener s = false) :
    ∃ u r, s = u ++ r ∧ u ≠ [] ∧ EndsLiteral r ∧ IsLiteral u r := by
  induction hn : s.length using Nat.strongRecOn generalizing s with
  | _ n ih =>
  -- What follows the first byte or the escaped opener is an expression, the end, or a literal.
  have hrest : ∀ t : Bytes, t.length < n → ∃ u r, t = u ++ r ∧ EndsLiteral r ∧ IsLiteral u r := by
    intro t ht
    by_cases hends : EndsLiteral t
    · exact ⟨[], t, rfl, hends, .nil t⟩
    · rw [EndsLiteral, not_or, Bool.not_eq_true] at hends
      obtain ⟨u, r, rfl, -, hr, hu⟩ := ih _ ht hends.1 hends.2 rfl
      exact ⟨u, r, rfl, hr, hu⟩
  obtain ⟨b, s, rfl⟩ := List.exists_cons_of_ne_nil hs
  by_cases hesc : (b == 92 && isOpener s) = true
  · obtain ⟨hb, ho⟩ := Bool.and_eq_true_iff.mp hesc
    obtain rfl := beq_iff_eq.mp hb
    rcases s with - | ⟨m, s⟩
    · cases ho
    obtain ⟨hm, t, rfl⟩ := isOpener_cons_iff.mp ho
    obtain ⟨u, r, rfl, hr, hu⟩ := hrest t (by simp at hn; omega)
    exact ⟨92 :: m :: 123 :: u, r, rfl, List.cons_ne_nil _ _, hr, hu.opener hm⟩
  · obtain ⟨u, r, rfl, hr, hu⟩ := hrest s (by simp at hn; omega)
    exact ⟨b :: u, r, rfl, List.cons_ne_nil _ _, hr,
      hu.byte hopen (Bool.eq_false_iff.mpr hesc)⟩

/-- A literal is one segment, and what follows it is scanned on its own. -/
theorem IsLiteral.scanFrom_none {u r : Bytes} (h : IsLiteral u r) (hu : u ≠ [])
    (hopen : isOpener (u ++ r) = false) (hr : EndsLiteral r) (offset : Nat) :
    scanFrom offset 0 none (u ++ r) =
      (scanFrom (offset + u.length) 0 none r).map (⟨unescape u, offset, .literal⟩ :: ·) := by
  rw [Expression.scanFrom_none (List.append_ne_nil_of_left_ne_nil hu r) hopen, h.scanned,
    scanFrom_endsLiteral hr]
  simp [Pending.segments]

/-! ### Expressions -/

theorem le_length_of_closing {depth : Nat} {quote : Option UInt8} {s : Bytes} {n : Nat}
    (h : closing depth quote s = some n) : n ≤ s.length := by
  fun_induction closing depth quote s generalizing n with
  | case1 => cases h
  | case2 => cases h
  | case8 => cases h; simp
  | case3 depth q b c s hesc ih =>
    obtain ⟨m, hm, rfl⟩ := Option.map_eq_some_iff.mp h
    exact Nat.add_le_add_right (ih hm) 2
  | _ =>
    next ih =>
    obtain ⟨m, hm, rfl⟩ := Option.map_eq_some_iff.mp h
    exact Nat.add_le_add_right (ih hm) 1

/-- The expression at the start of a text is a part of it that ends with a brace. -/
theorem exists_expression {t : Bytes} (ho : isOpener t = true) {n : Nat} (hn : length? t = some n) :
    ∃ u r, t = u ++ r ∧ u.length = n ∧ isOpener u = true ∧ u.getLast? = some 125 := by
  have hlast := getLast?_of_length? hn
  refine ⟨t.take n, t.drop n, (List.take_append_drop n t).symm, ?_, ?_, hlast⟩
  · rw [List.length_take, Nat.min_eq_left]
    rcases t with - | ⟨b, t⟩
    · cases ho
    · obtain ⟨m, hm, rfl⟩ := Option.map_eq_some_iff.mp hn
      exact Nat.add_le_add_right (le_length_of_closing hm) 1
  · obtain ⟨a, t, rfl⟩ := List.exists_cons_of_ne_nil (ne_nil_of_isOpener ho)
    obtain ⟨ha, t, rfl⟩ := isOpener_cons_iff.mp ho
    rcases n with - | - | n
    · cases hlast
    · obtain rfl : a = 125 := Option.some.inj hlast
      rcases ha with h | h <;> cases h
    · exact ho

/-- An expression is one segment, and what follows it is scanned on its own. -/
theorem scanFrom_expression {u r : Bytes} (hu : isOpener u = true)
    (hlength : length? (u ++ r) = some u.length) (offset : Nat) :
    scanFrom offset 0 none (u ++ r) =
      (scanFrom (offset + u.length) 0 none r).map (segmentOf u offset :: ·) := by
  rw [scanFrom_opener (isOpener_append hu r), hlength]
  dsimp only
  rw [List.take_left, List.drop_left, List.length_append,
    Nat.min_eq_left (Nat.le_add_right _ _)]

/-! ### Tilings -/

/-- Literals and expressions, one after the other from an offset on, that make up a text. -/
inductive Tiling : Nat → Bytes → List Segment → Prop
  | nil (o : Nat) : Tiling o [] []
  | literal {o : Nat} {u r : Bytes} {segs : List Segment} : u ≠ [] → isOpener (u ++ r) = false →
      EndsLiteral r → Tiling (o + u.length) r segs →
      Tiling o (u ++ r) (⟨unescape u, o, .literal⟩ :: segs)
  | expression {o : Nat} {u r : Bytes} {segs : List Segment} : isOpener u = true →
      length? (u ++ r) = some u.length → Tiling (o + u.length) r segs →
      Tiling o (u ++ r) (segmentOf u o :: segs)

/-- Where the segment with number `i` ends: where the next one starts, or with the text. -/
def endOf (s : Bytes) (segs : List Segment) (i : Nat) : Nat :=
  (segs[i + 1]?.map (·.offset)).getD s.length

/-- The segment stands for the piece `u` of the text `s`. -/
structure Segment.StandsFor (s : Bytes) (seg : Segment) (u : Bytes) : Prop where
  literal : seg.isExpression = false → seg.text = unescape u ∧ seg.text ≠ []
  expression : seg.isExpression = true → seg.text = u ∧ isOpener u = true ∧
    (seg.kind = .deferred ↔ ("#\x7b" : Bytes) <+: u) ∧
    length? (s.drop seg.offset) = some u.length

/-- The segments tile the text: every one covers the bytes from its offset to the next one. -/
structure Tiles (s : Bytes) (segs : List Segment) : Prop where
  starts : segs.head?.map (·.offset) = if s = [] then none else some 0
  increasing : segs.Pairwise (·.offset < ·.offset)
  within : ∀ seg ∈ segs, seg.offset < s.length
  covers : ∀ i seg, segs[i]? = some seg →
    Segment.StandsFor s seg (s.slice seg.offset (endOf s segs i))
  apart : ∀ i a b, segs[i]? = some a → segs[i + 1]? = some b →
    a.isExpression = true ∨ b.isExpression = true

theorem standsFor_literal {s u : Bytes} {o : Nat} (hu : u ≠ []) :
    Segment.StandsFor s ⟨unescape u, o, .literal⟩ u where
  literal _ := ⟨rfl, unescape_ne_nil hu⟩
  expression h := by cases h

theorem standsFor_segmentOf {s u : Bytes} {o : Nat} (hu : isOpener u = true)
    (hlength : length? (s.drop o) = some u.length) : Segment.StandsFor s (segmentOf u o) u where
  literal h := by
    rw [isExpression_segmentOf] at h
    cases h
  expression _ := by
    refine ⟨rfl, hu, ?_, hlength⟩
    obtain ⟨a, u, rfl⟩ := List.exists_cons_of_ne_nil (ne_nil_of_isOpener hu)
    obtain ⟨rfl | rfl, t, rfl⟩ := isOpener_cons_iff.mp hu
    · refine ⟨fun h => (by cases h), fun h => ?_⟩
      cases (List.cons_prefix_cons.mp h).1
    · exact ⟨fun _ => ⟨t, rfl⟩, fun _ => rfl⟩

namespace Tiling

variable {o : Nat} {t : Bytes} {segs : List Segment}

theorem head (h : Tiling o t segs) :
    segs.head?.map (·.offset) = if t = [] then none else some o := by
  cases h with
  | nil => rfl
  | literal hu =>
    rw [if_neg (List.append_ne_nil_of_left_ne_nil hu _)]
    rfl
  | expression hu =>
    rw [if_neg (List.append_ne_nil_of_left_ne_nil (ne_nil_of_isOpener hu) _)]
    rfl

/-- The segments of a text start inside it. -/
theorem bounds (h : Tiling o t segs) :
    ∀ seg ∈ segs, o ≤ seg.offset ∧ seg.offset < o + t.length := by
  have hstep : ∀ {u r : Bytes} {o : Nat} {first : Segment} {segs : List Segment}, u ≠ [] →
      first.offset = o →
      (∀ seg ∈ segs, o + u.length ≤ seg.offset ∧ seg.offset < o + u.length + r.length) →
      ∀ seg ∈ first :: segs, o ≤ seg.offset ∧ seg.offset < o + (u ++ r).length := by
    intro u r o first segs hu hfirst hrest seg hseg
    have hpos := List.length_pos_iff.mpr hu
    rw [List.length_append]
    rcases List.mem_cons.mp hseg with rfl | hseg
    · omega
    · have := hrest seg hseg
      omega
  induction h with
  | nil => exact fun _ h => absurd h List.not_mem_nil
  | literal hu _ _ _ ih => exact hstep hu rfl ih
  | expression hu _ _ ih => exact hstep (ne_nil_of_isOpener hu) rfl ih

theorem increasing (h : Tiling o t segs) : segs.Pairwise (·.offset < ·.offset) := by
  have hstep : ∀ {u r : Bytes} {o : Nat} {segs : List Segment}, u ≠ [] →
      Tiling (o + u.length) r segs → ∀ seg ∈ segs, o < seg.offset := by
    intro u r o segs hu hrest seg hseg
    have hpos := List.length_pos_iff.mpr hu
    have := (hrest.bounds seg hseg).1
    omega
  induction h with
  | nil => exact .nil
  | literal hu _ _ hrest ih => exact .cons (hstep hu hrest) ih
  | expression hu _ hrest ih => exact .cons (hstep (ne_nil_of_isOpener hu) hrest) ih

/-- A segment stands for what it covers of the whole text. -/
theorem covers (h : Tiling o t segs) {s : Bytes} (hs : s.drop o = t) (ho : o ≤ s.length) :
    ∀ i seg, segs[i]? = some seg →
      Segment.StandsFor s seg (s.slice seg.offset (endOf s segs i)) := by
  -- The first segment covers its own piece, since the next one starts where the piece ends.
  have hfirst : ∀ {u r : Bytes} {o : Nat} {first : Segment} {segs : List Segment},
      s.drop o = u ++ r → o ≤ s.length → first.offset = o → Tiling (o + u.length) r segs →
      s.slice first.offset (endOf s (first :: segs) 0) = u := by
    intro u r o first segs hs ho hfirst hrest
    have hlength : s.length - o = u.length + r.length := by
      rw [← List.length_drop, hs, List.length_append]
    have hend : endOf s (first :: segs) 0 = o + u.length := by
      rw [endOf, List.getElem?_cons_succ, ← List.head?_eq_getElem?, hrest.head]
      split
      · next hr =>
        rw [hr, List.length_nil] at hlength
        show s.length = _
        omega
      · rfl
    rw [hend, hfirst, Bytes.slice, hs, Nat.add_sub_cancel_left, List.take_left]
  have hnext : ∀ {u r : Bytes} {o : Nat}, s.drop o = u ++ r → o ≤ s.length →
      s.drop (o + u.length) = r ∧ o + u.length ≤ s.length := by
    intro u r o hs ho
    have hlength : s.length - o = u.length + r.length := by
      rw [← List.length_drop, hs, List.length_append]
    exact ⟨by rw [← List.drop_drop, hs, List.drop_left], by omega⟩
  induction h with
  | nil => exact fun i seg h => by cases h
  | literal hu hopen hends hrest ih =>
    rintro (- | i) seg hseg
    · obtain rfl := Option.some.inj hseg
      rw [hfirst hs ho rfl hrest]
      exact standsFor_literal hu
    · exact ih (hnext hs ho).1 (hnext hs ho).2 i seg hseg
  | expression hu hlength hrest ih =>
    rintro (- | i) seg hseg
    · obtain rfl := Option.some.inj hseg
      rw [hfirst hs ho rfl hrest]
      exact standsFor_segmentOf hu (hs ▸ hlength)
    · exact ih (hnext hs ho).1 (hnext hs ho).2 i seg hseg

/-- After a literal stands an expression. -/
theorem apart (h : Tiling o t segs) : ∀ i a b, segs[i]? = some a → segs[i + 1]? = some b →
    a.isExpression = true ∨ b.isExpression = true := by
  induction h with
  | nil => exact fun i a b h => by cases h
  | literal hu hopen hends hrest ih =>
    rintro (- | i) a b ha hb
    · right
      cases hrest with
      | nil => cases hb
      | literal hu' hopen' =>
        rcases hends with hnil | hends
        · exact absurd hnil (List.append_ne_nil_of_left_ne_nil hu' _)
        · exact absurd (hopen'.symm.trans hends) Bool.false_ne_true
      | expression =>
        obtain rfl := Option.some.inj hb
        exact isExpression_segmentOf _ _
    · exact ih i a b ha hb
  | expression hu hlength hrest ih =>
    rintro (- | i) a b ha hb
    · obtain rfl := Option.some.inj ha
      exact .inl (isExpression_segmentOf _ _)
    · exact ih i a b ha hb

theorem tiles {s : Bytes} (h : Tiling 0 s segs) : Tiles s segs where
  starts := h.head
  increasing := h.increasing
  within seg hseg := by simpa using (h.bounds seg hseg).2
  covers := h.covers rfl (Nat.zero_le _)
  apart := h.apart

end Tiling

/-! ### Openers -/

/-- An expression opens at the offset, and no backslash before it makes it plain text. -/
structure IsOpening (s : Bytes) (o : Nat) : Prop where
  opens : isOpener (s.drop o) = true
  unescaped : ∀ k, o = k + 1 → s[k]? ≠ some 92

/-- The first opening from an offset on. -/
structure IsNextOpening (s : Bytes) (i o : Nat) : Prop where
  le : i ≤ o
  opening : IsOpening s o
  first : ∀ k, i ≤ k → k < o → ¬IsOpening s k

/-- Going left to right from an offset, from opening to opening and past every complete expression,
the opening at `o` is met. -/
inductive Meets (s : Bytes) : Nat → Nat → Prop
  | next {i o : Nat} : IsNextOpening s i o → Meets s i o
  | later {i p n o : Nat} : IsNextOpening s i p → length? (s.drop p) = some n →
      Meets s (p + n) o → Meets s i o

/-- The opening at `o` is the first one met whose expression does not end. -/
structure IsUnterminated (s : Bytes) (o : Nat) : Prop where
  meets : Meets s 0 o
  endless : length? (s.drop o) = none
  first : ∀ p, Meets s 0 p → length? (s.drop p) = none → o ≤ p

namespace IsNextOpening

variable {s : Bytes} {i j o p : Nat}

theorem unique (ho : IsNextOpening s i o) (hp : IsNextOpening s i p) : o = p := by
  rcases Nat.lt_trichotomy o p with h | h | h
  · exact absurd ho.opening (hp.first o ho.le h)
  · exact h
  · exact absurd hp.opening (ho.first p hp.le h)

theorem here (h : IsOpening s i) : IsNextOpening s i i :=
  ⟨Nat.le_refl i, h, fun _ hik hki => absurd hki (Nat.not_lt.mpr hik)⟩

/-- Where nothing opens nothing is passed over. -/
theorem congr (hij : i ≤ j) (hno : ∀ k, i ≤ k → k < j → ¬IsOpening s k) :
    IsNextOpening s i o ↔ IsNextOpening s j o := by
  constructor
  · intro h
    refine ⟨Nat.not_lt.mp fun hlt => hno o h.le hlt h.opening, h.opening, fun k hk => ?_⟩
    exact h.first k (Nat.le_trans hij hk)
  · intro h
    refine ⟨Nat.le_trans hij h.le, h.opening, fun k hk hko => ?_⟩
    by_cases hkj : k < j
    · exact hno k hk hkj
    · exact h.first k (Nat.not_lt.mp hkj) hko

end IsNextOpening

namespace Meets

variable {s : Bytes} {i j o : Nat}

theorem congr (h : ∀ p, IsNextOpening s i p ↔ IsNextOpening s j p) : Meets s i o ↔ Meets s j o := by
  constructor
  · rintro (hnext | ⟨hnext, hn, hrest⟩)
    · exact .next ((h _).mp hnext)
    · exact .later ((h _).mp hnext) hn hrest
  · rintro (hnext | ⟨hnext, hn, hrest⟩)
    · exact .next ((h _).mpr hnext)
    · exact .later ((h _).mpr hnext) hn hrest

/-- At an opening the way goes on behind its expression. -/
theorem iff_of_opening (h : IsOpening s i) :
    Meets s i o ↔ o = i ∨ ∃ n, length? (s.drop i) = some n ∧ Meets s (i + n) o := by
  constructor
  · rintro (hnext | ⟨hnext, hn, hrest⟩)
    · exact .inl (hnext.unique (.here h))
    · obtain rfl := hnext.unique (.here h)
      exact .inr ⟨_, hn, hrest⟩
  · rintro (rfl | ⟨n, hn, hrest⟩)
    · exact .next (.here h)
    · exact .later (.here h) hn hrest

/-- Behind the text nothing opens. -/
theorem not_of_end (hi : s.drop i = []) : ¬Meets s i o := by
  have hno : ∀ {p}, ¬IsNextOpening s i p := by
    intro p h
    have hdrop : s.drop p = [] := by
      rw [List.drop_eq_nil_iff] at hi ⊢
      exact Nat.le_trans hi h.le
    have hopens := h.opening.opens
    rw [hdrop] at hopens
    cases hopens
  rintro (hnext | ⟨hnext, -, -⟩)
  · exact hno hnext
  · exact hno hnext

end Meets

/-! ### The scan -/

/-- The scan from an offset on gives segments that make up the text, or stops at the first opening
whose expression does not end. -/
structure IsFaithful (s : Bytes) (i : Nat) (x : Except Error (List Segment)) : Prop where
  ok : ∀ segs, x = .ok segs → Tiling i (s.drop i) segs
  error : ∀ e, x = .error e ↔ Meets s i e.offset ∧ length? (s.drop e.offset) = none ∧
    e.reason = .unterminated ((s.drop e.offset).take 2)

theorem drop_add_length {s u r : Bytes} {i : Nat} (h : s.drop i = u ++ r) :
    s.drop (i + u.length) = r := by
  rw [← List.drop_drop, h, List.drop_left]

/-- A segment before a faithful scan of the rest. -/
theorem IsFaithful.cons {s u : Bytes} {i : Nat} {seg : Segment} {x : Except Error (List Segment)}
    (h : IsFaithful s (i + u.length) x)
    (htiling : ∀ segs, Tiling (i + u.length) (s.drop (i + u.length)) segs →
      Tiling i (s.drop i) (seg :: segs))
    (hmeets : ∀ o, length? (s.drop o) = none → (Meets s i o ↔ Meets s (i + u.length) o)) :
    IsFaithful s i (x.map (seg :: ·)) where
  ok segs hsegs := by
    cases x with
    | error e => cases hsegs
    | ok rest =>
      obtain rfl := Except.ok.inj hsegs
      exact htiling rest (h.ok rest rfl)
  error e := by
    have hx : x.map (seg :: ·) = .error e ↔ x = .error e := by
      cases x with
      | error e' => exact ⟨fun he => congrArg _ (Except.error.inj he), fun he => by rw [he]; rfl⟩
      | ok rest => exact ⟨fun he => (by cases he), fun he => (by cases he)⟩
    rw [hx, h.error e]
    constructor
    · rintro ⟨hm, hend, hreason⟩
      exact ⟨(hmeets _ hend).mpr hm, hend, hreason⟩
    · rintro ⟨hm, hend, hreason⟩
      exact ⟨(hmeets _ hend).mp hm, hend, hreason⟩

/-- A literal is passed over. -/
theorem IsFaithful.literal {s u r : Bytes} {i : Nat} (hs : s.drop i = u ++ r) (hu : u ≠ [])
    (hopen : isOpener (u ++ r) = false) (hr : EndsLiteral r) (hlit : IsLiteral u r)
    (hrest : IsFaithful s (i + u.length) (scanFrom (i + u.length) 0 none r)) :
    IsFaithful s i (scanFrom i 0 none (u ++ r)) := by
  have hno : ∀ k, i ≤ k → k < i + u.length → ¬IsOpening s k := by
    intro k hik hki h
    obtain ⟨m, rfl⟩ := Nat.exists_eq_add_of_le hik
    have hopens := h.opens
    rw [← List.drop_drop, hs] at hopens
    obtain ⟨j, rfl, hj⟩ := hlit.escaped m (by omega) hopens
    refine h.unescaped (i + j) (Nat.add_assoc i j 1).symm ?_
    rw [← List.getElem?_drop, hs, List.getElem?_append_left (by omega)]
    exact hj
  rw [hlit.scanFrom_none hu hopen hr i]
  refine hrest.cons (fun segs htiling => ?_) fun o _ =>
    Meets.congr fun p => IsNextOpening.congr (Nat.le_add_right i u.length) hno
  rw [drop_add_length hs] at htiling
  exact hs ▸ .literal hu hopen hr htiling

/-- An expression is passed over. -/
theorem IsFaithful.expression {s u r : Bytes} {i : Nat} (hs : s.drop i = u ++ r)
    (hi : IsOpening s i) (hu : isOpener u = true) (hlength : length? (u ++ r) = some u.length)
    (hrest : IsFaithful s (i + u.length) (scanFrom (i + u.length) 0 none r)) :
    IsFaithful s i (scanFrom i 0 none (u ++ r)) := by
  rw [scanFrom_expression hu hlength]
  refine hrest.cons (fun segs htiling => ?_) fun o ho => ?_
  · rw [drop_add_length hs] at htiling
    exact hs ▸ .expression hu hlength htiling
  · rw [Meets.iff_of_opening hi, hs, hlength]
    constructor
    · rintro (rfl | ⟨n, hn, hm⟩)
      · rw [hs, hlength] at ho
        cases ho
      · obtain rfl := Option.some.inj hn
        exact hm
    · exact fun hm => .inr ⟨_, rfl, hm⟩

/-- The scan stops at an expression that does not end. -/
theorem IsFaithful.endless {s : Bytes} {i : Nat} (hi : IsOpening s i)
    (hnone : length? (s.drop i) = none) : IsFaithful s i (scanFrom i 0 none (s.drop i)) := by
  rw [scanFrom_opener hi.opens, hnone]
  refine ⟨fun segs hsegs => (by cases hsegs), fun e => ?_⟩
  rw [Meets.iff_of_opening hi]
  constructor
  · intro he
    obtain rfl := Except.error.inj he
    exact ⟨.inl rfl, hnone, rfl⟩
  · rintro ⟨ho | ⟨n, hn, -⟩, -, hreason⟩
    · obtain ⟨offset, reason⟩ := e
      obtain rfl : offset = i := ho
      rw [show reason = _ from hreason]
    · rw [hnone] at hn
      cases hn

/-- **The scan is faithful** from every offset at which no escaped opener stands. -/
theorem isFaithful_scanFrom {s : Bytes} {i : Nat}
    (hi : isOpener (s.drop i) = true → IsOpening s i) :
    IsFaithful s i (scanFrom i 0 none (s.drop i)) := by
  induction hn : (s.drop i).length using Nat.strongRecOn generalizing i with
  | _ n ih =>
  have hrest : ∀ {u r : Bytes}, s.drop i = u ++ r → u ≠ [] →
      (isOpener r = true → u.getLast? ≠ some 92) →
      IsFaithful s (i + u.length) (scanFrom (i + u.length) 0 none r) := by
    intro u r hs hu hlast
    have hpos := List.length_pos_iff.mpr hu
    have hr := drop_add_length hs
    have hopening : isOpener (s.drop (i + u.length)) = true → IsOpening s (i + u.length) := by
      refine fun ho => ⟨ho, fun k hk hb => hlast (hr ▸ ho) ?_⟩
      obtain ⟨m, rfl⟩ := Nat.exists_eq_add_of_le (show i ≤ k by omega)
      rw [← List.getElem?_drop, hs, List.getElem?_append_left (by omega)] at hb
      rw [List.getLast?_eq_getElem?, show u.length - 1 = m by omega, hb]
    have := ih r.length (by rw [← hn, hs, List.length_append]; omega) hopening (by rw [hr])
    rwa [hr] at this
  cases hopen : isOpener (s.drop i) with
  | false =>
    by_cases hnil : s.drop i = []
    · rw [hnil]
      refine ⟨fun segs hsegs => ?_, fun e => ⟨fun he => (by cases he), fun he => ?_⟩⟩
      · obtain rfl := Except.ok.inj hsegs
        rw [hnil]
        exact .nil i
      · exact absurd he.1 (Meets.not_of_end hnil)
    · obtain ⟨u, r, hs, hu, hr, hlit⟩ := exists_isLiteral hnil hopen
      have hfaithful := hrest hs hu hlit.last
      rw [hs] at hopen ⊢
      exact .literal hs hu hopen hr hlit hfaithful
  | true =>
    cases hlength : length? (s.drop i) with
    | none => exact .endless (hi hopen) hlength
    | some m =>
      obtain ⟨u, r, hs, rfl, hu, hlast⟩ := exists_expression hopen hlength
      have hfaithful := hrest hs (ne_nil_of_isOpener hu) fun _ => by rw [hlast]; decide
      rw [hs] at hlength ⊢
      exact .expression hs (hi hopen) hu hlength hfaithful

/-- **Scanning takes a text apart faithfully.** The segments of a scanned text tile it: their
offsets increase from zero, an expression is what it covers, a literal is not empty and is what it
covers without the backslashes of escaped openers, and no two literals are neighbours. The scan
fails exactly if an opening is met whose expression does not end, and then at the first such
opening. -/
theorem scan_faithful (s : Bytes) :
    (∀ segs, scan s = .ok segs → Tiles s segs) ∧
    (∀ e, scan s = .error e ↔ IsUnterminated s e.offset ∧
      e.reason = .unterminated ((s.drop e.offset).take 2)) ∧
    ((∃ e, scan s = .error e) ↔ ∃ o, Meets s 0 o ∧ length? (s.drop o) = none) := by
  have hfaithful : IsFaithful s 0 (scan s) :=
    isFaithful_scanFrom (i := 0) fun ho => ⟨ho, fun k hk => by cases hk⟩
  have hstops : ∀ o, Meets s 0 o → length? (s.drop o) = none →
      scan s = .error ⟨o, .unterminated ((s.drop o).take 2)⟩ := fun o hm hend =>
    (hfaithful.error ⟨o, .unterminated ((s.drop o).take 2)⟩).mpr ⟨hm, hend, rfl⟩
  refine ⟨fun segs hsegs => (hfaithful.ok segs hsegs).tiles, fun e => ⟨fun he => ?_, ?_⟩, ?_⟩
  · obtain ⟨hm, hend, hreason⟩ := (hfaithful.error e).mp he
    refine ⟨⟨hm, hend, fun p hp hnone => ?_⟩, hreason⟩
    obtain rfl := Except.error.inj (he.symm.trans (hstops p hp hnone))
    exact Nat.le_refl p
  · rintro ⟨hun, hreason⟩
    exact (hfaithful.error e).mpr ⟨hun.meets, hun.endless, hreason⟩
  · constructor
    · rintro ⟨e, he⟩
      obtain ⟨hm, hend, -⟩ := (hfaithful.error e).mp he
      exact ⟨e.offset, hm, hend⟩
    · rintro ⟨o, hm, hend⟩
      exact ⟨_, hstops o hm hend⟩

/-- A text with an escaped opener and a deferred expression that holds a brace in quotes. -/
def mixedText : Bytes := "a\\$\x7bb#\x7b'\x7d'\x7d"

theorem scan_faithful_mixedText :
    (∃ segs, scan mixedText = .ok segs ∧ segs.length = 2 ∧ Tiles mixedText segs) ∧
    ∃ e, scan (mixedText ++ "$\x7bc") = .error e ∧ IsUnterminated (mixedText ++ "$\x7bc") 11 := by
  have hok : scan mixedText =
      .ok [⟨"a$\x7bb", 0, .literal⟩, ⟨"#\x7b'\x7d'\x7d", 5, .deferred⟩] := by
    decide +kernel
  have herror : scan (mixedText ++ "$\x7bc") = .error ⟨11, .unterminated "$\x7b"⟩ := by
    decide +kernel
  exact ⟨⟨_, hok, rfl, (scan_faithful _).1 _ hok⟩, _, herror,
    (((scan_faithful _).2.1 _).mp herror).1⟩

/-! ### The test for expressions -/

/-- The text could not be taken apart, or it has an expression. -/
def FindsExpression (x : Except Error (List Segment)) : Prop :=
  (∃ e, x = .error e) ∨ ∃ segs, x = .ok segs ∧ ∃ seg ∈ segs, seg.isExpression = true

theorem findsExpression_map (seg : Segment) (x : Except Error (List Segment)) :
    FindsExpression (x.map (seg :: ·)) ↔ seg.isExpression = true ∨ FindsExpression x := by
  cases x with
  | error e => exact ⟨fun _ => .inr (.inl ⟨e, rfl⟩), fun _ => .inl ⟨e, rfl⟩⟩
  | ok segs =>
    simp [FindsExpression, Except.map]

theorem findsExpression_opener {s : Bytes} (h : isOpener s = true) (offset : Nat) :
    FindsExpression (scanFrom offset 0 none s) := by
  rw [scanFrom_opener h]
  cases length? s with
  | none => exact .inl ⟨_, rfl⟩
  | some n => exact (findsExpression_map _ _).mpr (.inl (isExpression_segmentOf _ _))

theorem contains_of_isOpener {s : Bytes} (h : isOpener s = true) : contains s = true := by
  by_contra hno
  have hplain := isOpener_of_contains_eq_false (Bool.eq_false_iff.mpr hno)
  exact Bool.false_ne_true (hplain.symm.trans h)

/-- The test finds an expression exactly if the scan does, or fails. -/
theorem contains_iff_findsExpression (s : Bytes) :
    contains s = true ↔ FindsExpression (scan s) := by
  cases hopen : isOpener s with
  | true => exact iff_of_true (contains_of_isOpener hopen) (findsExpression_opener hopen 0)
  | false =>
    by_cases hnil : s = []
    · subst hnil
      exact iff_of_false Bool.false_ne_true
        (by simp [FindsExpression, scan, scanFrom, Pending.segments])
    obtain ⟨u, r, rfl, hu, hr, hlit⟩ := exists_isLiteral hnil hopen
    rw [hlit.tested, scan, hlit.scanFrom_none hu hopen hr, findsExpression_map]
    rcases hr with rfl | hr
    · exact iff_of_false Bool.false_ne_true (by
        simp [FindsExpression, scanFrom, Pending.segments, Segment.isExpression])
    · exact iff_of_true (contains_of_isOpener hr) (.inr (findsExpression_opener hr _))

theorem scan_of_ofText {s : Bytes} {e : Expression} (h : ofText s = .ok e) :
    scan s = .ok e.parts := by
  rw [ofText] at h
  cases hscan : scan s with
  | error e' =>
    rw [hscan] at h
    cases h
  | ok segs =>
    rw [hscan] at h
    change (checkSegments segs >>= fun refs => Except.ok _) = _ at h
    cases hcheck : checkSegments segs with
    | error e' =>
      rw [hcheck] at h
      cases h
    | ok refs =>
      rw [hcheck] at h
      obtain rfl := Except.ok.inj h
      rfl

/-- A checked text is literal if the test finds no expression. -/
theorem isLiteral_of_ofText {s : Bytes} {e : Expression} (h : ofText s = .ok e) :
    e.isLiteral = !contains s := by
  rw [Bool.eq_iff_iff, Bool.not_eq_true', ← Bool.not_eq_true, contains_iff_findsExpression,
    scan_of_ofText h, isLiteral, List.all_eq_true]
  simp [FindsExpression]

end ServerPages.Expression

namespace ServerPages.Parsing

variable {σ : Type}

/-- The attribute of a value that is taken apart whether it holds an expression or not: without one,
its value is the text of its literals. -/
def splitAttribute (functionUri : Bytes → Bytes) (a : Attribute) (raw : Bytes) :
    Parse σ Attribute :=
  match Expression.ofText raw with
  | .error e => refuse .invalidExpression a.position ("attribute " ++ a.name ++ ": " ++ e.text)
  | .ok e =>
    if e.isLiteral then return { a with value := e.parts.flatMap (·.text) }
    else return { a with kind := .el, value := raw, el := some (e.bind functionUri) }

/-- The value of an attribute that is not code is taken apart, also where it holds no expression. -/
theorem attributeOf_eq_splitAttribute (functionUri : Bytes → Bytes) {h : Head} (a : Attribute)
    (raw : Bytes) (scriptless : Bool) {s : State σ} (hh : h.kind.isDirective = false)
    (hel : s.elIgnored = false) :
    attributeOf functionUri h a raw false scriptless s = splitAttribute functionUri a raw s := by
  rw [attributeOf, bind_get, hh, hel, splitAttribute]
  simp only [Bool.false_eq_true, if_false, Bool.not_false, Bool.true_and, if_true]
  cases hc : Expression.contains raw with
  | false =>
    have hscan := Expression.scan_of_contains_eq_false hc
    have htext : Expression.ofText raw = .ok ⟨raw,
        if raw = [] then [] else [⟨Expression.unescape raw, 0, .literal⟩], []⟩ := by
      rw [Expression.ofText, hscan]
      split <;> rfl
    have hliteral := Expression.isLiteral_of_ofText htext
    have hparts : (if raw = [] then [] else
        [(⟨Expression.unescape raw, 0, .literal⟩ : Expression.Segment)]).flatMap (·.text) =
        Expression.unescape raw := by
      split
      · next hnil => rw [hnil]; rfl
      · exact List.append_nil _
    rw [htext]
    dsimp only
    rw [hliteral, hc, Bool.not_false, if_pos rfl, if_neg Bool.false_ne_true, hparts]
  | true =>
    rw [if_pos rfl]
    cases htext : Expression.ofText raw with
    | error e => rfl
    | ok e =>
      dsimp only
      rw [Expression.isLiteral_of_ofText htext, hc]
      rfl

end ServerPages.Parsing

namespace ServerPages.Expression

/-- **The test for expressions agrees with the scan.** A text in which it finds none is one literal,
the text without the backslashes of escaped openers, or nothing at all if it is empty; and it finds
one exactly if the scan does, or fails. So where the expression language is on, a text is read into
the nodes of its segments, and the value of an attribute into its parts, as if the test had not been
made. -/
theorem contains_agrees {σ : Type} (s : Bytes) :
    (contains s = false → scan s = .ok (if s = [] then [] else [⟨unescape s, 0, .literal⟩])) ∧
    (contains s = true ↔ FindsExpression (scan s)) ∧
    (∀ uriOf p scriptless siblings (st : Parsing.State σ), st.elIgnored = false →
      Parsing.textNodes uriOf siblings s p scriptless true st =
        Parsing.splitNodes uriOf s p scriptless siblings (scan s) st) ∧
    ∀ functionUri (h : Head) a scriptless (st : Parsing.State σ), h.kind.isDirective = false →
      st.elIgnored = false →
      Parsing.attributeOf functionUri h a s false scriptless st =
        Parsing.splitAttribute functionUri a s st :=
  ⟨scan_of_contains_eq_false, contains_iff_findsExpression s,
    fun uriOf p scriptless siblings _ hel =>
      Parsing.textNodes_eq_splitNodes uriOf s p scriptless siblings hel,
    fun functionUri _ a scriptless _ hh hel =>
      Parsing.attributeOf_eq_splitAttribute functionUri a s scriptless hh hel⟩

theorem contains_agrees_escapedOpener : contains "a\\$\x7bb" = false ∧
    scan "a\\$\x7bb" = .ok [⟨"a$\x7bb", 0, .literal⟩] ∧ FindsExpression (scan "\\\\$\x7b$\x7bb") ∧
    Parsing.textNodes (fun _ => []) [] "a\\$\x7bb" {} false true
        (ParseRequest.start { path := "/a.jsp", text := [] } ()) =
      Parsing.splitNodes (fun _ => []) "a\\$\x7bb" {} false [] (scan "a\\$\x7bb")
        (ParseRequest.start { path := "/a.jsp", text := [] } ()) ∧
    Parsing.attributeOf (fun _ => []) { kind := .customTag, start := {} }
        { name := "x", localName := "x" }
        "a\\$\x7bb" false false (ParseRequest.start { path := "/a.jsp", text := [] } ()) =
      Parsing.splitAttribute (fun _ => []) { name := "x", localName := "x" } "a\\$\x7bb"
        (ParseRequest.start { path := "/a.jsp", text := [] } ()) := by
  have hnone : contains "a\\$\x7bb" = false := by decide +kernel
  refine ⟨hnone, (contains_agrees (σ := Unit) _).1 hnone,
    (contains_agrees (σ := Unit) _).2.1.mp (by decide +kernel),
    (contains_agrees _).2.2.1 _ _ _ _ _ rfl, (contains_agrees _).2.2.2 _ _ _ _ _ rfl rfl⟩

end ServerPages.Expression
