import ServerPages.Text.Utf8

/-!
# Reading and writing UTF-8

A byte string is read character by character, an ill-formed byte counting as one character. This
module relates reading to writing: what `encode` writes for a character is read back as that
character whatever follows it, and where no ill-formed byte stands, the bytes read are the bytes
written.

## Main results

* `charAt_encode_append`: reading a written character gives it back.
* `charAt_cases`: at a byte stands an ill-formed byte or the whole sequence of a character.
* `pieces_encodeAll_append`, `chars_encodeAll_append`: reading after written text.
* `char_induction`: induction on the characters of a byte string.
* `isValid_iff`: the well-formed byte strings are the written ones.
* `pieces_append_start`: a text is read in two parts if the second does not go on with a character.
-/

namespace ServerPages.Utf8

/-! ### Reading one character -/

/-- The sequence announced by a leading byte, with the bytes compared as numbers. -/
theorem leadOf?_eq (b : UInt8) : leadOf? b =
    if b.toNat < 0x80 then some (1, 0x80, 0xBF)
    else if b.toNat < 0xC2 then none
    else if b.toNat ≤ 0xDF then some (2, 0x80, 0xBF)
    else if b.toNat ≤ 0xEF then
      some (3, if b.toNat = 0xE0 then 0xA0 else 0x80, if b.toNat = 0xED then 0x9F else 0xBF)
    else if b.toNat ≤ 0xF4 then
      some (4, if b.toNat = 0xF0 then 0x90 else 0x80, if b.toNat = 0xF4 then 0x8F else 0xBF)
    else none := by
  simp only [leadOf?, UInt8.lt_iff_toNat_lt, UInt8.le_iff_toNat_le, beq_iff_eq,
    ← UInt8.toNat_inj]
  simp only [UInt8.reduceToNat]
  grind

theorem charAt_one {b : UInt8} (s : Bytes) (h : b.toNat < 0x80) : charAt b s = (b.toNat, 1) := by
  simp [charAt, leadOf?_eq, h]

theorem charAt_two {b c : UInt8} (s : Bytes) (hb : 0xC2 ≤ b.toNat) (hb' : b.toNat ≤ 0xDF)
    (hc : 0x80 ≤ c.toNat) (hc' : c.toNat ≤ 0xBF) :
    charAt b (c :: s) = (b.toNat % 32 * 64 + c.toNat % 64, 2) := by
  rw [charAt, leadOf?_eq, if_neg (by omega), if_neg (by omega), if_pos hb']
  simp [tailBits, UInt8.le_iff_toNat_le, hc, hc']

/-- The byte after the leading byte `b` of a longer sequence is in the range that `b` sets. -/
theorem charAt_three {b c d : UInt8} (s : Bytes) (hb : 0xE0 ≤ b.toNat) (hb' : b.toNat ≤ 0xEF)
    (hc : (if b.toNat = 0xE0 then 0xA0 else 0x80) ≤ c.toNat)
    (hc' : c.toNat ≤ if b.toNat = 0xED then 0x9F else 0xBF)
    (hd : 0x80 ≤ d.toNat) (hd' : d.toNat ≤ 0xBF) :
    charAt b (c :: d :: s) = (b.toNat % 16 * 4096 + c.toNat % 64 * 64 + d.toNat % 64, 3) := by
  rw [charAt, leadOf?_eq, if_neg (by omega), if_neg (by omega), if_neg (by omega), if_pos hb']
  have h1 : (if b.toNat = 0xE0 then (0xA0 : UInt8) else 0x80) ≤ c := by
    rw [UInt8.le_iff_toNat_le]; split <;> simp_all
  have h2 : c ≤ (if b.toNat = 0xED then (0x9F : UInt8) else 0xBF) := by
    rw [UInt8.le_iff_toNat_le]; split <;> simp_all
  simp [tailBits, isContinuation, h1, h2, UInt8.le_iff_toNat_le, hd, hd']

theorem charAt_four {b c d e : UInt8} (s : Bytes) (hb : 0xF0 ≤ b.toNat) (hb' : b.toNat ≤ 0xF4)
    (hc : (if b.toNat = 0xF0 then 0x90 else 0x80) ≤ c.toNat)
    (hc' : c.toNat ≤ if b.toNat = 0xF4 then 0x8F else 0xBF)
    (hd : 0x80 ≤ d.toNat) (hd' : d.toNat ≤ 0xBF) (he : 0x80 ≤ e.toNat) (he' : e.toNat ≤ 0xBF) :
    charAt b (c :: d :: e :: s) =
      (b.toNat % 8 * 262144 + c.toNat % 64 * 4096 + d.toNat % 64 * 64 + e.toNat % 64, 4) := by
  rw [charAt, leadOf?_eq, if_neg (by omega), if_neg (by omega), if_neg (by omega),
    if_neg (by omega), if_pos hb']
  have h1 : (if b.toNat = 0xF0 then (0x90 : UInt8) else 0x80) ≤ c := by
    rw [UInt8.le_iff_toNat_le]; split <;> simp_all
  have h2 : c ≤ (if b.toNat = 0xF4 then (0x8F : UInt8) else 0xBF) := by
    rw [UInt8.le_iff_toNat_le]; split <;> simp_all
  simp [tailBits, isContinuation, h1, h2, UInt8.le_iff_toNat_le, hd, hd', he, he']

/-! ### Encoding -/

theorem le_of_isScalar {c : Nat} (hs : isScalar c = true) : c ≤ 0x10FFFF := by
  simp only [isScalar, Bool.or_eq_true, decide_eq_true_eq, Bool.and_eq_true] at hs
  omega

theorem encode_one {c : Nat} (h : c < 0x80) : encode c = [c.toUInt8] := by
  have hs : isScalar c = true := by simp [isScalar]; omega
  simp [encode, hs, h]

theorem encode_two {c : Nat} (h : 0x80 ≤ c) (h' : c < 0x800) :
    encode c = [(0xC0 + c / 64).toUInt8, (0x80 + c % 64).toUInt8] := by
  have hs : isScalar c = true := by simp [isScalar]; omega
  simp [encode, hs, h', Nat.not_lt.mpr h]

theorem encode_three {c : Nat} (hs : isScalar c = true) (h : 0x800 ≤ c) (h' : c < 0x10000) :
    encode c = [(0xE0 + c / 4096).toUInt8, (0x80 + c / 64 % 64).toUInt8,
      (0x80 + c % 64).toUInt8] := by
  have h1 : ¬ c < 0x80 := by omega
  have h2 : ¬ c < 0x800 := by omega
  simp only [encode, hs, if_true, if_neg h1, if_neg h2, if_pos h']

theorem encode_four {c : Nat} (hs : isScalar c = true) (h : 0x10000 ≤ c) :
    encode c = [(0xF0 + c / 262144).toUInt8, (0x80 + c / 4096 % 64).toUInt8,
      (0x80 + c / 64 % 64).toUInt8, (0x80 + c % 64).toUInt8] := by
  have h1 : ¬ c < 0x80 := by omega
  have h2 : ¬ c < 0x800 := by omega
  have h3 : ¬ c < 0x10000 := by omega
  simp only [encode, hs, if_true, if_neg h1, if_neg h2, if_neg h3]

theorem toNat_toUInt8 {n : Nat} (h : n < 256) : n.toUInt8.toNat = n := by
  simp only [Nat.toUInt8_eq, UInt8.toNat_ofNat']
  omega

/-- Reading what was written for a character gives the character back, whatever follows. -/
theorem charAt_encode_append {c : Nat} (hs : isScalar c = true) {b : UInt8} {r : Bytes}
    (he : encode c = b :: r) (t : Bytes) : charAt b (r ++ t) = (c, (encode c).length) := by
  have hc := le_of_isScalar hs
  by_cases h1 : c < 0x80
  · rw [encode_one h1] at he ⊢
    obtain ⟨rfl, rfl⟩ := List.cons.inj he
    have hb := toNat_toUInt8 (n := c) (by omega)
    rw [charAt_one _ (by omega), hb]
    rfl
  by_cases h2 : c < 0x800
  · rw [encode_two (by omega) h2] at he ⊢
    obtain ⟨rfl, rfl⟩ := List.cons.inj he
    have hb := toNat_toUInt8 (n := 0xC0 + c / 64) (by omega)
    have hd := toNat_toUInt8 (n := 0x80 + c % 64) (by omega)
    rw [List.cons_append, charAt_two _ (by omega) (by omega) (by omega) (by omega), hb, hd]
    exact Prod.ext (by simp only; omega) rfl
  by_cases h3 : c < 0x10000
  · rw [encode_three hs (by omega) h3] at he ⊢
    obtain ⟨rfl, rfl⟩ := List.cons.inj he
    have hb := toNat_toUInt8 (n := 0xE0 + c / 4096) (by omega)
    have hd := toNat_toUInt8 (n := 0x80 + c / 64 % 64) (by omega)
    have he := toNat_toUInt8 (n := 0x80 + c % 64) (by omega)
    simp only [isScalar, Bool.or_eq_true, decide_eq_true_eq, Bool.and_eq_true] at hs
    rw [List.cons_append, List.cons_append, charAt_three _ (by omega) (by omega)
      (by split <;> omega) (by split <;> omega) (by omega) (by omega), hb, hd, he]
    exact Prod.ext (by simp only; omega) rfl
  · rw [encode_four hs (by omega)] at he ⊢
    obtain ⟨rfl, rfl⟩ := List.cons.inj he
    have hb := toNat_toUInt8 (n := 0xF0 + c / 262144) (by omega)
    have hd := toNat_toUInt8 (n := 0x80 + c / 4096 % 64) (by omega)
    have he := toNat_toUInt8 (n := 0x80 + c / 64 % 64) (by omega)
    have hf := toNat_toUInt8 (n := 0x80 + c % 64) (by omega)
    rw [List.cons_append, List.cons_append, List.cons_append, charAt_four _ (by omega) (by omega)
      (by split <;> omega) (by split <;> omega) (by omega) (by omega) (by omega) (by omega),
      hb, hd, he, hf]
    exact Prod.ext (by simp only; omega) rfl

theorem toUInt8_eq_of_toNat {n : Nat} {b : UInt8} (h : b.toNat = n) : n.toUInt8 = b := by
  rw [← h]; simp

/-- The whole sequence of a character starts with the byte `b` and goes on in `s`. -/
def StartsChar (b : UInt8) (s : Bytes) : Prop :=
  ∃ c r t, isScalar c = true ∧ s = r ++ t ∧ encode c = b :: r

theorem broken_or_startsChar_two {b : UInt8} (s : Bytes) (hb : 0xC2 ≤ b.toNat)
    (hb' : b.toNat ≤ 0xDF) : charAt b s = (replacement, 1) ∨ StartsChar b s := by
  have hlead : leadOf? b = some (2, 0x80, 0xBF) := by
    rw [leadOf?_eq, if_neg (by omega), if_neg (by omega), if_pos hb']
  rcases s with - | ⟨c, t⟩
  · left
    simp [charAt, hlead]
  by_cases hc : 0x80 ≤ c.toNat ∧ c.toNat ≤ 0xBF
  · refine Or.inr ⟨b.toNat % 32 * 64 + c.toNat % 64, [c], t, by simp [isScalar]; omega, rfl, ?_⟩
    rw [encode_two (by omega) (by omega), toUInt8_eq_of_toNat (b := b) (by omega),
      toUInt8_eq_of_toNat (b := c) (by omega)]
  · left
    simpa [charAt, hlead, UInt8.le_iff_toNat_le] using hc

theorem broken_or_startsChar_three {b : UInt8} (s : Bytes) (hb : 0xE0 ≤ b.toNat)
    (hb' : b.toNat ≤ 0xEF) : charAt b s = (replacement, 1) ∨ StartsChar b s := by
  have hlead := leadOf?_eq b
  rw [if_neg (by omega), if_neg (by omega), if_neg (by omega), if_pos hb'] at hlead
  rcases s with - | ⟨c, - | ⟨d, t⟩⟩
  · left
    simp [charAt, hlead]
  · left
    simp [charAt, hlead]
  by_cases hc : ((if b.toNat = 0xE0 then 0xA0 else 0x80) ≤ c.toNat ∧
      c.toNat ≤ if b.toNat = 0xED then 0x9F else 0xBF) ∧ 0x80 ≤ d.toNat ∧ d.toNat ≤ 0xBF
  · obtain ⟨⟨hc, hc'⟩, hd, hd'⟩ := hc
    have hn : 0x800 ≤ b.toNat % 16 * 4096 + c.toNat % 64 * 64 + d.toNat % 64 := by
      split at hc <;> split at hc' <;> omega
    have hs : isScalar (b.toNat % 16 * 4096 + c.toNat % 64 * 64 + d.toNat % 64) = true := by
      simp only [isScalar, Bool.or_eq_true, decide_eq_true_eq, Bool.and_eq_true]
      split at hc' <;> split at hc <;> omega
    have hc'' : 0x80 ≤ c.toNat ∧ c.toNat ≤ 0xBF := by
      constructor <;> split at hc <;> split at hc' <;> omega
    refine Or.inr ⟨_, [c, d], t, hs, rfl, ?_⟩
    rw [encode_three hs hn (by omega), toUInt8_eq_of_toNat (b := b) (by omega),
      toUInt8_eq_of_toNat (b := c) (by omega), toUInt8_eq_of_toNat (b := d) (by omega)]
  · left
    rw [charAt, hlead]
    simp only [isContinuation, UInt8.le_iff_toNat_le, apply_ite UInt8.toNat, UInt8.reduceToNat]
    rw [if_neg (by simpa using hc)]

theorem broken_or_startsChar_four {b : UInt8} (s : Bytes) (hb : 0xF0 ≤ b.toNat)
    (hb' : b.toNat ≤ 0xF4) : charAt b s = (replacement, 1) ∨ StartsChar b s := by
  have hlead := leadOf?_eq b
  rw [if_neg (by omega), if_neg (by omega), if_neg (by omega), if_neg (by omega),
    if_pos hb'] at hlead
  rcases s with - | ⟨c, - | ⟨d, - | ⟨e, t⟩⟩⟩
  · left
    simp [charAt, hlead]
  · left
    simp [charAt, hlead]
  · left
    simp [charAt, hlead]
  by_cases hc : (((if b.toNat = 0xF0 then 0x90 else 0x80) ≤ c.toNat ∧
      c.toNat ≤ if b.toNat = 0xF4 then 0x8F else 0xBF) ∧ 0x80 ≤ d.toNat ∧ d.toNat ≤ 0xBF) ∧
      0x80 ≤ e.toNat ∧ e.toNat ≤ 0xBF
  · obtain ⟨⟨⟨hc, hc'⟩, hd, hd'⟩, he, he'⟩ := hc
    have hn : 0x10000 ≤ b.toNat % 8 * 262144 + c.toNat % 64 * 4096 + d.toNat % 64 * 64 +
        e.toNat % 64 := by
      split at hc <;> split at hc' <;> omega
    have hs : isScalar (b.toNat % 8 * 262144 + c.toNat % 64 * 4096 + d.toNat % 64 * 64 +
        e.toNat % 64) = true := by
      simp only [isScalar, Bool.or_eq_true, decide_eq_true_eq, Bool.and_eq_true]
      split at hc' <;> split at hc <;> omega
    have hc'' : 0x80 ≤ c.toNat ∧ c.toNat ≤ 0xBF := by
      constructor <;> split at hc <;> split at hc' <;> omega
    refine Or.inr ⟨_, [c, d, e], t, hs, rfl, ?_⟩
    rw [encode_four hs hn, toUInt8_eq_of_toNat (b := b) (by omega),
      toUInt8_eq_of_toNat (b := c) (by omega), toUInt8_eq_of_toNat (b := d) (by omega),
      toUInt8_eq_of_toNat (b := e) (by omega)]
  · left
    rw [charAt, hlead]
    simp only [isContinuation, UInt8.le_iff_toNat_le, apply_ite UInt8.toNat, UInt8.reduceToNat]
    rw [if_neg (by simpa using hc)]

/-- At a byte stands an ill-formed byte or the whole sequence of a character. -/
theorem charAt_cases (b : UInt8) (s : Bytes) :
    charAt b s = (replacement, 1) ∨
      ∃ c r t, isScalar c = true ∧ s = r ++ t ∧ encode c = b :: r ∧
        charAt b s = (c, (encode c).length) := by
  have h : charAt b s = (replacement, 1) ∨ StartsChar b s := by
    by_cases h1 : b.toNat < 0x80
    · refine Or.inr ⟨b.toNat, [], s, by simp [isScalar]; omega, rfl, ?_⟩
      rw [encode_one h1, toUInt8_eq_of_toNat rfl]
    by_cases h2 : b.toNat < 0xC2
    · left
      simp [charAt, leadOf?_eq, h1, h2]
    by_cases h3 : b.toNat ≤ 0xDF
    · exact broken_or_startsChar_two s (by omega) h3
    by_cases h4 : b.toNat ≤ 0xEF
    · exact broken_or_startsChar_three s (by omega) h4
    by_cases h5 : b.toNat ≤ 0xF4
    · exact broken_or_startsChar_four s (by omega) h5
    · left
      simp [charAt, leadOf?_eq, h1, h2, h3, h4, h5]
  rcases h with h | ⟨c, r, t, hs, rfl, he⟩
  · exact Or.inl h
  · exact Or.inr ⟨c, r, t, hs, rfl, he, charAt_encode_append hs he t⟩

theorem encode_ne_nil (c : Nat) : encode c ≠ [] := by
  unfold encode
  grind

theorem one_le_charAt (b : UInt8) (s : Bytes) : 1 ≤ (charAt b s).2 := by
  rcases charAt_cases b s with h | ⟨c, r, t, -, -, -, h⟩
  · exact Nat.le_of_eq (congrArg Prod.snd h).symm
  · rw [h]
    exact List.length_pos_iff.mpr (encode_ne_nil c)

/-- A character takes bytes that are there. -/
theorem charAt_le (b : UInt8) (s : Bytes) : (charAt b s).2 ≤ (b :: s).length := by
  rcases charAt_cases b s with h | ⟨c, r, t, -, rfl, he, h⟩
  · simp [h]
  · simp [h, he]

/-- A byte that is not well formed is none whatever is cut off after it. -/
theorem charAt_of_prefix {b : UInt8} {s t : Bytes} (h : charAt b s = (replacement, 1))
    (ht : t <+: s) : charAt b t = (replacement, 1) := by
  rcases charAt_cases b t with hbroken | ⟨c, r, u, hc, rfl, he, -⟩
  · exact hbroken
  · obtain ⟨v, rfl⟩ := ht
    rw [List.append_assoc, charAt_encode_append hc he] at h
    obtain ⟨rfl, hlen⟩ := Prod.mk.inj h
    exact absurd hlen (by decide)

/-! ### Reading a byte string -/

theorem piecesFrom_eq (k : Nat) (s : Bytes) : piecesFrom k s = pieces (s.drop k) := by
  induction s generalizing k with
  | nil => cases k <;> rfl
  | cons b s ih =>
    cases k with
    | zero => rfl
    | succ k => exact ih k

theorem charsFrom_eq (k : Nat) (s : Bytes) : charsFrom k s = chars (s.drop k) := by
  induction s generalizing k with
  | nil => cases k <;> rfl
  | cons b s ih =>
    cases k with
    | zero => rfl
    | succ k => exact ih k

@[simp] theorem pieces_nil : pieces [] = [] := rfl

@[simp] theorem chars_nil : chars [] = [] := rfl

theorem pieces_cons (b : UInt8) (s : Bytes) :
    pieces (b :: s) = ((charAt b s).1, (b :: s).take (charAt b s).2) ::
      pieces ((b :: s).drop (charAt b s).2) := by
  have h := one_le_charAt b s
  obtain ⟨w, hw⟩ : ∃ w, (charAt b s).2 = w + 1 := ⟨(charAt b s).2 - 1, by omega⟩
  rw [hw, List.drop_succ_cons, ← piecesFrom_eq]
  simp only [pieces, piecesFrom, hw, Nat.add_sub_cancel]

theorem chars_cons (b : UInt8) (s : Bytes) :
    chars (b :: s) = (charAt b s).1 :: chars ((b :: s).drop (charAt b s).2) := by
  have h := one_le_charAt b s
  obtain ⟨w, hw⟩ : ∃ w, (charAt b s).2 = w + 1 := ⟨(charAt b s).2 - 1, by omega⟩
  rw [hw, List.drop_succ_cons, ← charsFrom_eq]
  simp only [chars, charsFrom, hw, Nat.add_sub_cancel]

@[simp] theorem encodeAll_nil : encodeAll [] = [] := rfl

@[simp] theorem encodeAll_cons (c : Nat) (cs : List Nat) :
    encodeAll (c :: cs) = encode c ++ encodeAll cs := rfl

theorem encodeAll_append (cs ds : List Nat) :
    encodeAll (cs ++ ds) = encodeAll cs ++ encodeAll ds := List.flatMap_append

theorem pieces_encode_append {c : Nat} (hs : isScalar c = true) (t : Bytes) :
    pieces (encode c ++ t) = (c, encode c) :: pieces t := by
  obtain ⟨b, r, he⟩ := List.exists_cons_of_ne_nil (encode_ne_nil c)
  have hc := charAt_encode_append hs he t
  rw [he] at hc ⊢
  rw [List.cons_append, pieces_cons, hc, ← List.cons_append, List.take_left, List.drop_left]

theorem chars_encode_append {c : Nat} (hs : isScalar c = true) (t : Bytes) :
    chars (encode c ++ t) = c :: chars t := by
  obtain ⟨b, r, he⟩ := List.exists_cons_of_ne_nil (encode_ne_nil c)
  have hc := charAt_encode_append hs he t
  rw [he] at hc ⊢
  rw [List.cons_append, chars_cons, hc, ← List.cons_append, List.drop_left]

/-- Written text is read character by character, whatever follows it. -/
theorem pieces_encodeAll_append {cs : List Nat} (hs : ∀ c ∈ cs, isScalar c = true) (t : Bytes) :
    pieces (encodeAll cs ++ t) = cs.map (fun c => (c, encode c)) ++ pieces t := by
  induction cs with
  | nil => rfl
  | cons c cs ih =>
    rw [encodeAll_cons, List.append_assoc, pieces_encode_append (hs c List.mem_cons_self),
      ih fun d hd => hs d (List.mem_cons_of_mem c hd)]
    rfl

theorem chars_encodeAll_append {cs : List Nat} (hs : ∀ c ∈ cs, isScalar c = true) (t : Bytes) :
    chars (encodeAll cs ++ t) = cs ++ chars t := by
  induction cs with
  | nil => rfl
  | cons c cs ih =>
    rw [encodeAll_cons, List.append_assoc, chars_encode_append (hs c List.mem_cons_self),
      ih fun d hd => hs d (List.mem_cons_of_mem c hd)]
    rfl

/-- Induction on the characters of a byte string, by the bytes each takes. -/
@[elab_as_elim]
theorem pieces_induction {motive : Bytes → Prop} (nil : motive [])
    (cons : ∀ b s, motive ((b :: s).drop (charAt b s).2) → motive (b :: s)) (s : Bytes) :
    motive s := by
  induction hn : s.length using Nat.strongRecOn generalizing s with
  | ind n ih =>
    rcases s with - | ⟨b, s⟩
    · exact nil
    have hpos := one_le_charAt b s
    have hlt : ((b :: s).drop (charAt b s).2).length < n := by
      rw [← hn, List.length_drop, List.length_cons]
      omega
    exact cons b s (ih _ hlt _ rfl)

/-- Induction on the characters of a byte string, which are ill-formed bytes or written ones. -/
@[elab_as_elim]
theorem char_induction {motive : Bytes → Prop} (nil : motive [])
    (broken : ∀ b s, charAt b s = (replacement, 1) → motive s → motive (b :: s))
    (char : ∀ c s, isScalar c = true → motive s → motive (encode c ++ s)) (s : Bytes) :
    motive s := by
  induction s using pieces_induction with
  | nil => exact nil
  | cons b s ih =>
    rcases charAt_cases b s with h | ⟨c, r, t, hc, rfl, he, h⟩
    · rw [h] at ih
      exact broken b s h ih
    · rw [h, ← List.cons_append, ← he, List.drop_left] at ih
      rw [← List.cons_append, ← he]
      exact char c t hc ih

/-! ### Well-formed byte strings -/

/-- What is written for a character does not look like an ill-formed byte. -/
theorem isBroken_encode {c : Nat} (hs : isScalar c = true) : isBroken (c, encode c) = false := by
  by_cases hc : c = replacement
  · subst hc
    decide
  · simp [isBroken, hc]

/-- The well-formed byte strings are the texts written from lists of characters. -/
theorem isValid_iff (s : Bytes) :
    isValid s = true ↔ ∃ cs, (∀ c ∈ cs, isScalar c = true) ∧ s = encodeAll cs := by
  constructor
  · intro h
    induction s using char_induction with
    | nil => exact ⟨[], by simp, rfl⟩
    | broken b s hb => simp [isValid, pieces_cons, hb, isBroken] at h
    | char c s hc ih =>
      rw [isValid, pieces_encode_append hc, List.all_cons, Bool.and_eq_true] at h
      obtain ⟨cs, hcs, rfl⟩ := ih h.2
      exact ⟨c :: cs, List.forall_mem_cons.mpr ⟨hc, hcs⟩, rfl⟩
  · rintro ⟨cs, hcs, rfl⟩
    have h := pieces_encodeAll_append hcs []
    rw [List.append_nil, pieces_nil, List.append_nil] at h
    rw [isValid, h, List.all_map, List.all_eq_true]
    intro c hc
    simp [isBroken_encode (hcs c hc)]

theorem isValid_encodeAll {cs : List Nat} (hcs : ∀ c ∈ cs, isScalar c = true) :
    isValid (encodeAll cs) = true :=
  (isValid_iff _).mpr ⟨cs, hcs, rfl⟩

theorem isValid_append {s t : Bytes} (hs : isValid s = true) (ht : isValid t = true) :
    isValid (s ++ t) = true := by
  obtain ⟨cs, hcs, rfl⟩ := (isValid_iff _).mp hs
  obtain ⟨ds, hds, rfl⟩ := (isValid_iff _).mp ht
  rw [← encodeAll_append]
  refine isValid_encodeAll fun c hc => ?_
  rcases List.mem_append.mp hc with hc | hc
  · exact hcs c hc
  · exact hds c hc

/-- Every character read is an ill-formed byte or has the bytes that are written for it. -/
theorem piece_cases {s : Bytes} {p : Nat × Bytes} (hp : p ∈ pieces s) :
    (∃ b, p = (replacement, [b])) ∨ ∃ c, isScalar c = true ∧ p = (c, encode c) := by
  induction s using char_induction with
  | nil => exact absurd hp List.not_mem_nil
  | broken b s hb ih =>
    rw [pieces_cons, hb, List.mem_cons] at hp
    rcases hp with rfl | hp
    · exact Or.inl ⟨b, rfl⟩
    · exact ih hp
  | char c s hc ih =>
    rw [pieces_encode_append hc, List.mem_cons] at hp
    rcases hp with rfl | hp
    · exact Or.inr ⟨c, hc, rfl⟩
    · exact ih hp

/-- The bytes read character by character are all bytes. -/
theorem flatMap_pieces (s : Bytes) : (pieces s).flatMap (·.2) = s := by
  induction s using pieces_induction with
  | nil => rfl
  | cons b s ih => rw [pieces_cons, List.flatMap_cons, ih, List.take_append_drop]

/-! ### Cutting at an ASCII byte -/

theorem le_of_mem_encode {c : Nat} (hc : 0x80 ≤ c) {b : UInt8} (hb : b ∈ encode c) :
    0x80 ≤ b.toNat := by
  unfold encode at hb
  dsimp only at hb
  generalize hd : (if isScalar c = true then c else replacement) = d at hb
  have hd' : 0x80 ≤ d ∧ d ≤ 0x10FFFF := by
    split at hd
    · next hs => exact ⟨hd ▸ hc, hd ▸ le_of_isScalar hs⟩
    · subst hd
      decide
  rw [if_neg (by omega)] at hb
  split at hb
  · simp only [List.mem_cons, List.not_mem_nil, or_false] at hb
    rcases hb with rfl | rfl <;> rw [toNat_toUInt8 (by omega)] <;> omega
  split at hb
  · simp only [List.mem_cons, List.not_mem_nil, or_false] at hb
    rcases hb with rfl | rfl | rfl <;> rw [toNat_toUInt8 (by omega)] <;> omega
  · simp only [List.mem_cons, List.not_mem_nil, or_false] at hb
    rcases hb with rfl | rfl | rfl | rfl <;> rw [toNat_toUInt8 (by omega)] <;> omega

/-- An ASCII byte of a written text is a character of its own, and the text before and after it is
written text. -/
theorem encodeAll_eq_append_ascii {cs : List Nat} {s t : Bytes} {b : UInt8} (hb : b.toNat < 0x80)
    (h : encodeAll cs = s ++ b :: t) :
    ∃ ds es, cs = ds ++ b.toNat :: es ∧ s = encodeAll ds ∧ t = encodeAll es := by
  induction cs generalizing s with
  | nil => simp at h
  | cons c cs ih =>
    rw [encodeAll_cons] at h
    by_cases hc : c < 0x80
    · rw [encode_one hc, List.singleton_append] at h
      rcases s with - | ⟨a, s⟩
      · obtain ⟨rfl, rfl⟩ := List.cons.inj h
        exact ⟨[], cs, by rw [toNat_toUInt8 (by omega)]; rfl, rfl, rfl⟩
      · obtain ⟨rfl, h'⟩ := List.cons.inj h
        obtain ⟨ds, es, rfl, rfl, rfl⟩ := ih h'
        exact ⟨c :: ds, es, rfl, by rw [encodeAll_cons, encode_one hc]; rfl, rfl⟩
    · rcases List.append_eq_append_iff.mp h with ⟨r, rfl, h'⟩ | ⟨r, hr, h'⟩
      · obtain ⟨ds, es, rfl, rfl, rfl⟩ := ih h'
        exact ⟨c :: ds, es, rfl, rfl, rfl⟩
      · rcases r with - | ⟨a, r⟩
        · obtain ⟨ds, es, rfl, hds, rfl⟩ := ih (s := []) h'.symm
          refine ⟨c :: ds, es, rfl, ?_, rfl⟩
          rw [encodeAll_cons, ← hds, hr, List.append_nil, List.append_nil]
        · obtain ⟨rfl, -⟩ := List.cons.inj h'
          have := le_of_mem_encode (c := c) (b := b) (by omega) (by rw [hr]; simp)
          omega

/-- Text before an ASCII byte is well formed if the whole is, and so is the text from it on. -/
theorem isValid_append_ascii {s t : Bytes} {b : UInt8} (hb : b.toNat < 0x80) :
    isValid (s ++ b :: t) = true ↔ isValid s = true ∧ isValid (b :: t) = true := by
  constructor
  · intro h
    obtain ⟨cs, hcs, h⟩ := (isValid_iff _).mp h
    obtain ⟨ds, es, rfl, rfl, rfl⟩ := encodeAll_eq_append_ascii hb h.symm
    refine ⟨(isValid_iff _).mpr ⟨ds, fun c hc => hcs c (by simp [hc]), rfl⟩,
      (isValid_iff _).mpr ⟨b.toNat :: es, fun c hc => hcs c (by simp_all), ?_⟩⟩
    rw [encodeAll_cons, encode_one hb, toUInt8_eq_of_toNat rfl]
    rfl
  · rintro ⟨hs, ht⟩
    exact isValid_append hs ht

/-! ### Cutting before the first byte of a character -/

theorem isContinuation_iff {b : UInt8} :
    isContinuation b = true ↔ 0x80 ≤ b.toNat ∧ b.toNat ≤ 0xBF := by
  simp [isContinuation, UInt8.le_iff_toNat_le]

theorem isStart_iff {b : UInt8} : isStart b = true ↔ b.toNat < 0x80 ∨ 0xBF < b.toNat := by
  rw [isStart, Bool.not_eq_true', ← Bool.not_eq_true, isContinuation_iff]
  omega

/-- Of the bytes that are written for a character only the first is one at which a character may
start. -/
theorem isStart_ne_true_of_encode {c : Nat} (hs : isScalar c = true) {b : UInt8} {r : Bytes}
    (he : encode c = b :: r) : ∀ d ∈ r, isStart d ≠ true := by
  have htail : ∀ n < 64, isStart (0x80 + n).toUInt8 ≠ true := fun n hn => by
    rw [ne_eq, isStart_iff, toNat_toUInt8 (by omega)]
    omega
  by_cases h1 : c < 0x80
  · rw [encode_one h1] at he
    obtain ⟨-, rfl⟩ := List.cons.inj he
    exact fun d hd => absurd hd List.not_mem_nil
  by_cases h2 : c < 0x800
  · rw [encode_two (by omega) h2] at he
    obtain ⟨-, rfl⟩ := List.cons.inj he
    simp only [List.forall_mem_cons]
    exact ⟨htail _ (by omega), by simp⟩
  by_cases h3 : c < 0x10000
  · rw [encode_three hs (by omega) h3] at he
    obtain ⟨-, rfl⟩ := List.cons.inj he
    simp only [List.forall_mem_cons]
    exact ⟨htail _ (by omega), htail _ (by omega), by simp⟩
  · rw [encode_four hs (by omega)] at he
    obtain ⟨-, rfl⟩ := List.cons.inj he
    simp only [List.forall_mem_cons]
    exact ⟨htail _ (by omega), htail _ (by omega), htail _ (by omega), by simp⟩

theorem charAt_of_not_start {b : UInt8} (hb : isStart b ≠ true) (s : Bytes) :
    charAt b s = (replacement, 1) := by
  have hrange : ¬(b.toNat < 0x80 ∨ 0xBF < b.toNat) := (not_congr isStart_iff).mp hb
  have hlead : leadOf? b = none := by
    rw [leadOf?_eq, if_neg (by omega), if_pos (by omega)]
  rw [charAt, hlead]

/-- What is written for a character starts with a byte at which one may start. -/
theorem isStart_of_encode {c : Nat} (hc : isScalar c = true) {b : UInt8} {r : Bytes}
    (he : encode c = b :: r) : isStart b = true := by
  refine Decidable.byContradiction fun hb => ?_
  have hwhole := charAt_encode_append hc he []
  rw [charAt_of_not_start hb] at hwhole
  obtain ⟨rfl, hlen⟩ := Prod.mk.inj hwhole
  exact absurd hlen (by decide)

/-- The bytes of a character do not make one up without the last of them. -/
theorem charAt_of_cut {c : Nat} (hc : isScalar c = true) {b : UInt8} {s t : Bytes}
    (he : encode c = b :: (s ++ t)) (ht : t ≠ []) : charAt b s = (replacement, 1) := by
  rcases charAt_cases b s with h | ⟨d, r, u, hd, rfl, hed, -⟩
  · exact h
  · have hwhole := charAt_encode_append hc he []
    rw [List.append_nil, List.append_assoc, charAt_encode_append hd hed, he, hed] at hwhole
    have hlen := congrArg Prod.snd hwhole
    simp only [List.length_cons, List.length_append] at hlen
    have := List.length_pos_iff.mpr ht
    omega

/-- Where no character stands at the end of a text, more text does not change it but by the rest of
one. -/
theorem charAt_append_of_broken {b : UInt8} {s : Bytes} (hb : charAt b s = (replacement, 1))
    (t : Bytes) : charAt b (s ++ t) = (replacement, 1) ∨
      ∃ c r u, isScalar c = true ∧ encode c = b :: (s ++ r) ∧ r ≠ [] ∧ t = r ++ u := by
  rcases charAt_cases b (s ++ t) with h | ⟨c, r, u, hc, hsplit, he, -⟩
  · exact .inl h
  have hout : ∀ v, s ≠ r ++ v := by
    rintro v rfl
    rw [charAt_encode_append hc he] at hb
    obtain ⟨rfl, hlen⟩ := Prod.mk.inj hb
    exact absurd hlen (by decide)
  rcases List.append_eq_append_iff.mp hsplit with ⟨v, rfl, ht⟩ | ⟨v, hs, -⟩
  · refine .inr ⟨c, v, u, hc, he, ?_, ht⟩
    rintro rfl
    exact hout [] (by simp)
  · exact absurd hs (hout v)

/-- What stands before a byte at which a character may start is read as if nothing followed. -/
theorem charAt_append_start {t : Bytes} (ht : ∀ b ∈ t.head?, isStart b = true) (c : UInt8)
    (a : Bytes) : charAt c (a ++ t) = charAt c a := by
  rcases charAt_cases c a with h | ⟨d, r, u, hd, rfl, he, -⟩
  · rw [h]
    refine (charAt_append_of_broken h t).resolve_right ?_
    rintro ⟨d, r, u, hd, he, hr, rfl⟩
    obtain ⟨b, r, rfl⟩ := List.exists_cons_of_ne_nil hr
    exact isStart_ne_true_of_encode hd he b (by simp) (ht b rfl)
  · rw [List.append_assoc, charAt_encode_append hd he, charAt_encode_append hd he]

theorem pieces_append_start {t : Bytes} (ht : ∀ b ∈ t.head?, isStart b = true) (s : Bytes) :
    pieces (s ++ t) = pieces s ++ pieces t := by
  induction s using pieces_induction with
  | nil => rfl
  | cons c a ih =>
    have hle := charAt_le c a
    rw [List.cons_append, pieces_cons, charAt_append_start ht, pieces_cons c a,
      ← List.cons_append, List.drop_append_of_le_length hle,
      List.take_append_of_le_length hle, List.cons_append, ih]

/-- The characters of a text are those that are read with their bytes. -/
theorem map_fst_pieces (s : Bytes) : (pieces s).map (·.1) = chars s := by
  induction s using pieces_induction with
  | nil => rfl
  | cons b s ih => rw [pieces_cons, chars_cons, List.map_cons, ih]

theorem chars_append_start {t : Bytes} (ht : ∀ b ∈ t.head?, isStart b = true) (s : Bytes) :
    chars (s ++ t) = chars s ++ chars t := by
  rw [← map_fst_pieces, pieces_append_start ht, List.map_append, map_fst_pieces, map_fst_pieces]

/-- The first character of a text, taken alone, is read as that character. -/
theorem pieces_take_charAt (b : UInt8) (s : Bytes) :
    pieces ((b :: s).take (charAt b s).2) = [((charAt b s).1, (b :: s).take (charAt b s).2)] := by
  rcases charAt_cases b s with hbroken | ⟨c, r, t, hc, rfl, he, h⟩
  · rw [hbroken, List.take_succ_cons, List.take_zero, pieces_cons,
      charAt_of_prefix hbroken List.nil_prefix]
    rfl
  · rw [h, ← List.cons_append, ← he, List.take_left, ← List.append_nil (encode c),
      pieces_encode_append hc, List.append_nil]
    rfl

/-- No character goes on from `a` into `b`: the two are read together as they are read apart. -/
def IsSeam (a b : Bytes) : Prop := pieces (a ++ b) = pieces a ++ pieces b

theorem IsSeam.of_start {a b : Bytes} (hb : ∀ c ∈ b.head?, isStart c = true) : IsSeam a b :=
  pieces_append_start hb a

/-- After the first character of a text there is a seam. -/
theorem isSeam_charAt (b : UInt8) (s : Bytes) :
    IsSeam ((b :: s).take (charAt b s).2) ((b :: s).drop (charAt b s).2) := by
  rw [IsSeam, List.take_append_drop, pieces_take_charAt, pieces_cons]
  rfl

end ServerPages.Utf8
