import ServerPages.Text.Bytes

/-!
# Splitting and writing byte strings

Facts about byte strings that several developments share: splitting at a byte and into lines loses
nothing, blanks are ASCII bytes, decimal numerals are told apart, and lists of the same texts are
sorted alike.
-/

namespace ServerPages.Bytes

/-! ### Splitting -/

theorem splitOnByte_ne_nil (c : UInt8) (s : Bytes) : splitOnByte c s ≠ [] := by
  cases s with
  | nil => simp [splitOnByte]
  | cons b s =>
    rw [splitOnByte]
    split
    · simp
    · split <;> simp

/-- The pieces of two texts with the byte between them are the pieces of both. -/
theorem splitOnByte_append_cons (c : UInt8) (s t : Bytes) :
    splitOnByte c (s ++ c :: t) = splitOnByte c s ++ splitOnByte c t := by
  induction s with
  | nil => simp [splitOnByte]
  | cons b s ih =>
    rw [List.cons_append, splitOnByte, splitOnByte, ih]
    split
    · rfl
    · obtain ⟨p, ps, hp⟩ := List.exists_cons_of_ne_nil (splitOnByte_ne_nil c s)
      rw [hp]
      rfl

theorem splitOnByte_of_not_mem {c : UInt8} {s : Bytes} (h : c ∉ s) : splitOnByte c s = [s] := by
  induction s with
  | nil => rfl
  | cons b s ih =>
    have hb : (b == c) = false := by
      rw [beq_eq_false_iff_ne]
      rintro rfl
      exact h List.mem_cons_self
    rw [splitOnByte, hb, ih fun hs => h (List.mem_cons_of_mem b hs)]
    rfl

theorem splitOnByte_line {c : UInt8} {s : Bytes} (h : c ∉ s) (t : Bytes) :
    splitOnByte c (s ++ c :: t) = s :: splitOnByte c t := by
  rw [splitOnByte_append_cons, splitOnByte_of_not_mem h]
  rfl

/-- A text cut at a byte is the text before it, the byte and the text after it. -/
theorem cut?_eq_some {c : UInt8} {s a b : Bytes} (h : s.cut? c = some (a, b)) :
    s = a ++ c :: b := by
  rw [Bytes.cut?, Option.map_eq_some_iff] at h
  obtain ⟨i, hi, h⟩ := h
  obtain ⟨rfl, rfl⟩ := Prod.mk.inj h
  obtain ⟨hlt, hc, -⟩ := List.findIdx?_eq_some_iff_getElem.mp hi
  rw [← eq_of_beq hc, List.getElem_cons_drop, List.take_append_drop]

theorem cut?_append {c : UInt8} {a : Bytes} (h : c ∉ a) (b : Bytes) :
    (a ++ c :: b).cut? c = some (a, b) := by
  have hnone : a.findIdx? (· == c) = none := by
    rw [List.findIdx?_eq_none_iff]
    intro x hx
    rw [beq_eq_false_iff_ne]
    rintro rfl
    exact h hx
  have hidx : (a ++ c :: b).findIdx? (· == c) = some a.length := by
    simp [List.findIdx?_append, hnone, List.findIdx?_cons]
  rw [cut?, indexOfByte?, hidx, Option.map_some, List.take_left, ← List.drop_drop, List.drop_left]
  rfl

theorem cut?_of_not_mem {c : UInt8} {s : Bytes} (h : c ∉ s) : s.cut? c = none := by
  rw [cut?, indexOfByte?, List.findIdx?_eq_none_iff.mpr]
  · rfl
  · intro b hb
    rw [beq_eq_false_iff_ne]
    rintro rfl
    exact h hb

/-- A literal stands where it is found. -/
theorem isPrefix_of_indexOf? {s lit : Bytes} {i : Nat} (h : s.indexOf? lit = some i) :
    lit <+: s.drop i := by
  induction s generalizing i with
  | nil =>
    unfold indexOf? at h
    split at h
    · next hlit => exact List.isEmpty_iff.mp hlit ▸ List.nil_prefix
    · cases h
  | cons b s ih =>
    rw [indexOf?] at h
    split at h
    · next hlit =>
        obtain rfl := Option.some.inj h
        exact List.isPrefixOf_iff_prefix.mp hlit
    · obtain ⟨j, hj, rfl⟩ := Option.map_eq_some_iff.mp h
      exact ih hj

/-- The lines of a text concatenate to it. -/
theorem flatten_splitLines (s : Bytes) : (splitLines s).flatten = s := by
  induction s with
  | nil => rfl
  | cons b s ih =>
    rw [splitLines]
    split
    · rw [List.flatten_cons, ih]
      rfl
    · split
      · next h =>
          rw [h] at ih
          rw [← ih]
          rfl
      · next p ps h =>
          rw [h, List.flatten_cons] at ih
          rw [List.flatten_cons, List.cons_append, ih]

/-! ### Literals at the start -/

theorem startsWith_iff {s lit : Bytes} : startsWith s lit = true ↔ lit <+: s :=
  List.isPrefixOf_iff_prefix

theorem startsWith_append (lit s : Bytes) : startsWith (lit ++ s) lit = true :=
  startsWith_iff.mpr (List.prefix_append lit s)

theorem dropStart_append (lit s : Bytes) : dropStart (lit ++ s) lit = s := by
  have h : lit.isPrefixOf (lit ++ s) = true := startsWith_append lit s
  rw [dropStart, if_pos h, List.drop_left]

theorem endsWith_iff {s lit : Bytes} : endsWith s lit = true ↔ lit <:+ s :=
  List.isSuffixOf_iff_suffix

theorem dropEnd_append (s lit : Bytes) : dropEnd (s ++ lit) lit = s := by
  have h : lit.isSuffixOf (s ++ lit) = true := endsWith_iff.mpr (List.suffix_append s lit)
  rw [dropEnd, if_pos h, List.length_append, Nat.add_sub_cancel, List.take_left]

/-! ### Blanks -/

theorem isBlankByte_iff {b : UInt8} :
    isBlankByte b = true ↔ b = 32 ∨ b = 9 ∨ b = 10 ∨ b = 13 := by
  simp [isBlankByte, or_assoc]

theorem lt_of_isBlankByte {b : UInt8} (h : isBlankByte b = true) : b.toNat < 0x80 := by
  rcases isBlankByte_iff.mp h with rfl | rfl | rfl | rfl <;> decide

theorem isBlank_append_eq (s t : Bytes) : isBlank (s ++ t) = (isBlank s && isBlank t) :=
  List.all_append

/-! ### Runs of bytes -/

/-- What satisfies `p` at the start of a text, if the byte after it does not. -/
theorem takeWhile_append_stop {p : UInt8 → Bool} {a r : Bytes} (ha : ∀ b ∈ a, p b = true)
    (hr : ∀ b ∈ r.head?, p b = false) : (a ++ r).takeWhile p = a := by
  rw [List.takeWhile_append_of_pos ha]
  rcases r with - | ⟨b, r⟩
  · simp
  · rw [List.takeWhile_cons_of_neg (by simp [hr b rfl]), List.append_nil]

theorem dropWhile_append_stop {p : UInt8 → Bool} {a r : Bytes} (ha : ∀ b ∈ a, p b = true)
    (hr : ∀ b ∈ r.head?, p b = false) : (a ++ r).dropWhile p = r := by
  rw [List.dropWhile_append_of_pos ha]
  rcases r with - | ⟨b, r⟩
  · rfl
  · exact List.dropWhile_cons_of_neg (by simp [hr b rfl])

/-- Only one way to tell a run of bytes from the byte that ends it. -/
theorem append_cons_inj {p : UInt8 → Bool} {a c x y : Bytes} {b d : UInt8}
    (ha : ∀ e ∈ a, p e = true) (hc : ∀ e ∈ c, p e = true) (hb : p b = false) (hd : p d = false)
    (h : a ++ b :: x = c ++ d :: y) : a = c ∧ b = d ∧ x = y := by
  have hbx : ∀ e ∈ (b :: x).head?, p e = false := by simpa using hb
  have hdy : ∀ e ∈ (d :: y).head?, p e = false := by simpa using hd
  have hstart := congrArg (List.takeWhile p) h
  rw [takeWhile_append_stop ha hbx, takeWhile_append_stop hc hdy] at hstart
  have hrest := congrArg (List.dropWhile p) h
  rw [dropWhile_append_stop ha hbx, dropWhile_append_stop hc hdy] at hrest
  exact ⟨hstart, List.cons.inj hrest⟩

/-- There are no more things than bytes they are written in. -/
theorem length_le_flatMap {α : Type} {f : α → Bytes} (hf : ∀ a, f a ≠ []) (as : List α) :
    as.length ≤ (as.flatMap f).length := by
  induction as with
  | nil => exact Nat.le_refl _
  | cons a as ih =>
    have hpos := List.length_pos_iff.mpr (hf a)
    rw [List.flatMap_cons, List.length_append, List.length_cons]
    omega

/-! ### Numerals -/

theorem toNat_ofChar {c : Char} (h : c.isDigit = true) : (ofChar c).toNat = c.toNat := by
  have hc : c.toNat < 256 := by
    simp only [Char.isDigit, Bool.and_eq_true, decide_eq_true_eq, UInt32.le_iff_toNat_le] at h
    have := h.2
    simp only [Char.toNat] at *
    exact Nat.lt_of_le_of_lt this (by decide)
  simp only [ofChar, Nat.toUInt8_eq, UInt8.toNat_ofNat']
  omega

/-- The bytes of a numeral are digits. -/
theorem isDigit_of_mem_ofNat {n : Nat} {b : UInt8} (h : b ∈ ofNat n) : isDigit b = true := by
  obtain ⟨c, hc, rfl⟩ := List.mem_map.mp h
  have hd := Nat.isDigit_of_mem_toDigits (by decide) (by decide) hc
  have hn := toNat_ofChar hd
  simp only [Char.isDigit, Bool.and_eq_true, decide_eq_true_eq, UInt32.le_iff_toNat_le] at hd
  simp only [isDigit, Bool.and_eq_true, decide_eq_true_eq, UInt8.le_iff_toNat_le, hn]
  exact hd

theorem map_ofChar_injective {cs ds : List Char} (hcs : ∀ c ∈ cs, c.isDigit = true)
    (hds : ∀ d ∈ ds, d.isDigit = true) (h : cs.map ofChar = ds.map ofChar) : cs = ds := by
  induction cs generalizing ds with
  | nil => exact (List.map_eq_nil_iff.mp h.symm).symm
  | cons c cs ih =>
    rcases ds with - | ⟨d, ds⟩
    · simp at h
    obtain ⟨h1, h2⟩ := List.cons.inj h
    have hcd : c.toNat = d.toNat := by
      rw [← toNat_ofChar (hcs c List.mem_cons_self), h1,
        toNat_ofChar (hds d List.mem_cons_self)]
    rw [Char.toNat_inj.mp hcd, ih (fun x hx => hcs x (List.mem_cons_of_mem c hx))
      (fun x hx => hds x (List.mem_cons_of_mem d hx)) h2]

/-- Different numbers have different numerals. -/
theorem ofNat_injective {m n : Nat} (h : ofNat m = ofNat n) : m = n := by
  have hd : ∀ k : Nat, ∀ c ∈ Nat.toDigits 10 k, c.isDigit = true :=
    fun k c hc => Nat.isDigit_of_mem_toDigits (by decide) (by decide) hc
  rw [← Nat.ofDigitChars_ten_toDigits (n := m), map_ofChar_injective (hd m) (hd n) h,
    Nat.ofDigitChars_ten_toDigits]

/-! ### Order -/

theorem le_total (s t : Bytes) : (le s t || le t s) = true := by
  induction s generalizing t with
  | nil => rfl
  | cons a s ih =>
    cases t with
    | nil => rfl
    | cons b t =>
      simp only [le, Bool.or_eq_true, Bool.and_eq_true, decide_eq_true_eq, beq_iff_eq] at ih ⊢
      have := ih t
      grind

theorem le_trans {s t u : Bytes} (hst : le s t = true) (htu : le t u = true) : le s u = true := by
  induction s generalizing t u with
  | nil => rfl
  | cons a s ih =>
    cases t with
    | nil => cases hst
    | cons b t =>
      cases u with
      | nil => cases htu
      | cons c u =>
        simp only [le, Bool.or_eq_true, Bool.and_eq_true, decide_eq_true_eq, beq_iff_eq]
          at ih hst htu ⊢
        grind

theorem le_antisymm {s t : Bytes} (hst : le s t = true) (hts : le t s = true) : s = t := by
  induction s generalizing t with
  | nil =>
    cases t with
    | nil => rfl
    | cons b t => cases hts
  | cons a s ih =>
    cases t with
    | nil => cases hst
    | cons b t =>
      simp only [le, Bool.or_eq_true, Bool.and_eq_true, decide_eq_true_eq, beq_iff_eq]
        at ih hst hts
      grind

/-- Lists are sorted to one list exactly if they have the same texts. -/
theorem sort_eq_sort_iff {xs ys : List Bytes} : sort xs = sort ys ↔ xs.Perm ys := by
  have hsorted : ∀ zs, (sort zs).Pairwise (le · · = true) := fun zs =>
    @List.pairwise_mergeSort Bytes le (fun _ _ _ => le_trans) le_total zs
  have hperm : ∀ zs, (sort zs).Perm zs := fun zs => List.mergeSort_perm zs le
  refine ⟨fun h => (hperm xs).symm.trans (h ▸ hperm ys), fun h => ?_⟩
  exact List.Perm.eq_of_pairwise (fun _ _ _ _ => le_antisymm) (hsorted xs) (hsorted ys)
    ((hperm xs).trans (h.trans (hperm ys).symm))

end ServerPages.Bytes
