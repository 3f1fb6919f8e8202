import Mathlib.Data.Nat.Digits.Defs
import ServerPages.Generation.Value
import ServerPages.Proofs.Bytes
import ServerPages.Text.Numeral

/-!
# Numerals and what they denote

A decimal numeral is a string of digits, and what it denotes is given by their positions, whatever
zeros come first (`Denotes`); a numeral of an integer may have a sign (`DenotesInt`). Numerals of a
bounded number of bits are read digit by digit, and refused when the number has grown too large.
Reading accepts exactly the numerals of numbers that fit. Writing gives, of all numerals of a
number, the one without needless zeros and signs (`IsCanonical`).

The literal value of an attribute whose setter takes an integer is a numeral, which becomes a
constant of the type of the setter. There are eleven such types. They differ in their ranges, and in
whether a numeral may have a sign; the rest is the same for all of them.

## Main results

* `natural_eq_ok_iff`, `unsigned_eq_ok_iff`, `signed_eq_ok_iff`: which numerals are read, and as
  what.
* `isCanonical_iff`: numbers are written as their canonical numerals.
* `IntegerType.signed_eq_ok_iff`, `IntegerType.unsigned_eq_ok_iff`: what is read for a type.
* `literal_of_integerType`: which values are accepted, the constant that they become, and where the
  others are refused.
-/

namespace ServerPages.Numeral

/-- A text is a decimal numeral of a natural number. It may start with zeros. -/
structure Denotes (s : Bytes) (n : Nat) : Prop where
  nonempty : s ≠ []
  digits : ∀ b ∈ s, Bytes.isDigit b = true
  value : Nat.ofDigits 10 (s.reverse.map fun b => b.toNat - 48) = n

/-- A text is a decimal numeral of an integer. It may have a sign. -/
inductive DenotesInt : Bytes → Int → Prop
  | natural {s : Bytes} {n : Nat} (h : Denotes s n) : DenotesInt s n
  | plus {s : Bytes} {n : Nat} (h : Denotes s n) : DenotesInt (43 :: s) n
  | minus {s : Bytes} {n : Nat} (h : Denotes s n) : DenotesInt (45 :: s) (-n)

/-- A text is the numeral of an integer that has no needless zeros and no needless sign. -/
def IsCanonical (s : Bytes) (i : Int) : Prop :=
  ∃ digits, s = (if i < 0 then 45 :: digits else digits) ∧ Denotes digits i.natAbs ∧
    (digits.head? = some 48 → digits = [48])

/-! ### Digits -/

/-- The number that is read when digits come after another number. -/
def after (n : Nat) (s : Bytes) : Nat := s.foldl (fun n b => 10 * n + (b.toNat - 48)) n

@[simp] theorem after_nil (n : Nat) : after n [] = n := List.foldl_nil

@[simp] theorem after_cons (n : Nat) (b : UInt8) (s : Bytes) :
    after n (b :: s) = after (10 * n + (b.toNat - 48)) s := List.foldl_cons ..

theorem ofDigits_reverse (s : Bytes) :
    Nat.ofDigits 10 (s.reverse.map fun b => b.toNat - 48) = after 0 s := by
  rw [Nat.ofDigits_eq_foldr, List.map_reverse, List.foldr_reverse, List.foldl_map, after]
  simp only [Nat.cast_id, Nat.add_comm]

theorem le_after (n : Nat) (s : Bytes) : n ≤ after n s := by
  induction s generalizing n with
  | nil => exact Nat.le_refl n
  | cons b s ih =>
    rw [after_cons]
    exact Nat.le_trans (by omega) (ih _)

/-- Digits are read up to the limit, which they can only pass. -/
theorem digitsAfter_eq_ok_iff {limit n m : Nat} (hn : n < limit) {s : Bytes} :
    digitsAfter limit n s = .ok m ↔
      (∀ b ∈ s, Bytes.isDigit b = true) ∧ after n s = m ∧ m < limit := by
  induction s generalizing n with
  | nil =>
    rw [digitsAfter, Except.ok.injEq]
    constructor
    · rintro rfl
      exact ⟨fun b hb => absurd hb List.not_mem_nil, rfl, hn⟩
    · exact fun h => h.2.1
  | cons b s ih =>
    rw [digitsAfter, Nat.mul_comm n 10, after_cons, List.forall_mem_cons]
    by_cases hb : Bytes.isDigit b = true
    · by_cases hlt : 10 * n + (b.toNat - 48) < limit
      · simp [hb, hlt, ih hlt]
      · have hle := le_after (10 * n + (b.toNat - 48)) s
        simp only [hb, hlt, Bool.not_true, Bool.false_eq_true, if_false]
        refine iff_of_false (fun h => ?_) fun ⟨_, h, hm⟩ => ?_
        · cases h
        · omega
    · simp only [hb]
      refine iff_of_false (fun h => ?_) fun h => absurd h.1.1 Bool.false_ne_true
      cases h

theorem natural_eq_ok_iff {bits n : Nat} {s : Bytes} :
    natural bits s = .ok n ↔ Denotes s n ∧ n < 2 ^ bits := by
  have hpos : 0 < 2 ^ bits := Nat.two_pow_pos bits
  cases s with
  | nil => exact iff_of_false (fun h => by cases h) fun h => h.1.nonempty rfl
  | cons b s =>
    refine (digitsAfter_eq_ok_iff hpos).trans ?_
    rw [← ofDigits_reverse, ← and_assoc]
    exact and_congr_left' ⟨fun h => ⟨List.cons_ne_nil b s, h.1, h.2⟩, fun h => ⟨h.digits, h.value⟩⟩

theorem unsigned_eq_ok_iff {bits n : Nat} {s : Bytes} :
    unsigned bits s = .ok n ↔ Denotes s n ∧ n < 2 ^ bits := by
  rw [← natural_eq_ok_iff, unsigned]
  cases natural bits s <;> simp [Except.mapError]

/-! ### Signs -/

theorem Denotes.unique {s : Bytes} {m n : Nat} (hm : Denotes s m) (hn : Denotes s n) : m = n :=
  hm.value.symm.trans hn.value

theorem not_denotes_cons {b : UInt8} (hb : Bytes.isDigit b = false) (s : Bytes) (n : Nat) :
    ¬Denotes (b :: s) n :=
  fun h => Bool.false_ne_true (hb.symm.trans (h.digits b List.mem_cons_self))

theorem denotesInt_minus_iff {s : Bytes} {i : Int} :
    DenotesInt (45 :: s) i ↔ ∃ n : Nat, Denotes s n ∧ i = -n := by
  refine ⟨fun h => ?_, fun ⟨n, h, hi⟩ => hi ▸ .minus h⟩
  generalize ht : 45 :: s = t at h
  cases h with
  | natural h => exact absurd (ht ▸ h) (not_denotes_cons rfl s _)
  | plus h => exact absurd (List.cons.inj ht).1 (by decide)
  | minus h => exact ⟨_, (List.cons.inj ht).2 ▸ h, rfl⟩

theorem denotesInt_plus_iff {s : Bytes} {i : Int} :
    DenotesInt (43 :: s) i ↔ ∃ n : Nat, Denotes s n ∧ i = n := by
  refine ⟨fun h => ?_, fun ⟨n, h, hi⟩ => hi ▸ .plus h⟩
  generalize ht : 43 :: s = t at h
  cases h with
  | natural h => exact absurd (ht ▸ h) (not_denotes_cons rfl s _)
  | plus h => exact ⟨_, (List.cons.inj ht).2 ▸ h, rfl⟩
  | minus h => exact absurd (List.cons.inj ht).1 (by decide)

theorem denotesInt_iff {s : Bytes} {i : Int} (hminus : s.head? ≠ some 45)
    (hplus : s.head? ≠ some 43) : DenotesInt s i ↔ ∃ n : Nat, Denotes s n ∧ i = n := by
  refine ⟨fun h => ?_, fun ⟨n, h, hi⟩ => hi ▸ .natural h⟩
  cases h with
  | natural h => exact ⟨_, h, rfl⟩
  | plus h => exact absurd rfl hplus
  | minus h => exact absurd rfl hminus

/-- A sign is read, and then the digits. -/
theorem signed_of_splitSign {bits : Nat} (hbits : 0 < bits) {s digits : Bytes} {negative : Bool}
    (hs : splitSign s = (negative, digits)) {i : Int} : signed bits s = .ok i ↔
      ∃ n : Nat, Denotes digits n ∧ if negative then n ≤ 2 ^ (bits - 1) ∧ i = -n
        else n < 2 ^ (bits - 1) ∧ i = n := by
  have hlimit : 2 ^ bits = 2 ^ (bits - 1) + 2 ^ (bits - 1) := by
    rw [← Nat.two_mul, ← Nat.pow_succ', Nat.succ_eq_add_one, Nat.sub_add_cancel hbits]
  have hpos : 0 < 2 ^ (bits - 1) := Nat.two_pow_pos _
  unfold signed
  rw [hs]
  cases hn : natural bits digits with
  | error r =>
    refine iff_of_false (fun h => by cases h) fun ⟨n, hdenotes, hfits⟩ => ?_
    have hlt : n < 2 ^ bits := by
      cases negative <;> simp at hfits <;> omega
    rw [natural_eq_ok_iff.mpr ⟨hdenotes, hlt⟩] at hn
    cases hn
  | ok n =>
    have hdenotes := (natural_eq_ok_iff.mp hn).1
    have hexists : ∀ P : Nat → Prop, (∃ m, Denotes digits m ∧ P m) ↔ P n := fun P =>
      ⟨fun ⟨m, hm, h⟩ => hdenotes.unique hm ▸ h, fun h => ⟨n, hdenotes, h⟩⟩
    rw [hexists]
    cases negative
    · by_cases hfits : n < 2 ^ (bits - 1) <;> simp [hfits, eq_comm]
    · by_cases hfits : n ≤ 2 ^ (bits - 1) <;> simp [hfits, eq_comm]

/-- **Which numerals of integers are read**, and as what: those of integers that fit. -/
theorem signed_eq_ok_iff {bits : Nat} (hbits : 0 < bits) {s : Bytes} {i : Int} :
    signed bits s = .ok i ↔ DenotesInt s i ∧ -2 ^ (bits - 1) ≤ i ∧ i < 2 ^ (bits - 1) := by
  have hlimit : ((2 ^ (bits - 1) : Nat) : Int) = 2 ^ (bits - 1) := Int.natCast_pow 2 _
  have hnatural : ∀ {digits : Bytes}, (∃ n : Nat, Denotes digits n ∧ n < 2 ^ (bits - 1) ∧ i = n) ↔
      (∃ n : Nat, Denotes digits n ∧ i = n) ∧ -2 ^ (bits - 1) ≤ i ∧ i < 2 ^ (bits - 1) := by
    intro digits
    constructor
    · rintro ⟨n, hn, hlt, rfl⟩
      exact ⟨⟨n, hn, rfl⟩, by omega, by omega⟩
    · rintro ⟨⟨n, hn, rfl⟩, -, hlt⟩
      exact ⟨n, hn, by omega, rfl⟩
  by_cases hminus : s.head? = some 45
  · obtain ⟨digits, rfl⟩ := List.head?_eq_some_iff.mp hminus
    rw [signed_of_splitSign hbits rfl, denotesInt_minus_iff]
    have hpos : 0 < 2 ^ (bits - 1) := Nat.two_pow_pos _
    constructor
    · rintro ⟨n, hn, hle, rfl⟩
      exact ⟨⟨n, hn, rfl⟩, by omega, by omega⟩
    · rintro ⟨⟨n, hn, rfl⟩, hle, -⟩
      exact ⟨n, hn, by omega, rfl⟩
  by_cases hplus : s.head? = some 43
  · obtain ⟨digits, rfl⟩ := List.head?_eq_some_iff.mp hplus
    rw [signed_of_splitSign hbits rfl, denotesInt_plus_iff]
    exact hnatural
  have hsplit : splitSign s = (false, s) := by
    unfold splitSign
    split
    · exact absurd rfl hminus
    · exact absurd rfl hplus
    · rfl
  rw [signed_of_splitSign hbits hsplit, denotesInt_iff hminus hplus]
  exact hnatural

/-- A text that is refused is told with the reason. -/
theorem exists_eq_of_unsigned_eq_error {bits : Nat} {s : Bytes} {e : Error}
    (h : unsigned bits s = .error e) : ∃ r, e = ⟨"ParseUint", s, r⟩ := by
  unfold unsigned at h
  cases hn : natural bits s with
  | error r =>
    rw [hn] at h
    exact ⟨r, (Except.error.inj h).symm⟩
  | ok n =>
    rw [hn] at h
    cases h

theorem exists_eq_of_signed_eq_error {bits : Nat} {s : Bytes} {e : Error}
    (h : signed bits s = .error e) : ∃ r, e = ⟨"ParseInt", s, r⟩ := by
  unfold signed at h
  repeat' split at h
  all_goals first | exact ⟨_, (Except.error.inj h).symm⟩ | cases h

/-! ### Canonical numerals -/

theorem foldl_map_ofChar {cs : List Char} (hcs : ∀ c ∈ cs, c.isDigit = true) (n : Nat) :
    after n (cs.map Bytes.ofChar) = Nat.ofDigitChars 10 cs n := by
  induction cs generalizing n with
  | nil => rfl
  | cons c cs ih =>
    rw [List.map_cons, after_cons, Nat.ofDigitChars_cons, Bytes.toNat_ofChar (hcs c (by simp))]
    exact ih (fun d hd => hcs d (List.mem_cons_of_mem c hd)) _

theorem denotes_ofNat (n : Nat) : Denotes (Bytes.ofNat n) n := by
  refine ⟨?_, fun b hb => Bytes.isDigit_of_mem_ofNat hb, ?_⟩
  · rw [Bytes.ofNat, Ne, List.map_eq_nil_iff]
    exact Nat.toDigits_ne_nil
  · rw [ofDigits_reverse, Bytes.ofNat, foldl_map_ofChar, Nat.ofDigitChars_ten_toDigits]
    exact fun c hc => Nat.isDigit_of_mem_toDigits (by decide) (by decide) hc

theorem ofNat_append_ofNat {n d : Nat} (hn : 0 < n) (hd : d < 10) :
    Bytes.ofNat n ++ Bytes.ofNat d = Bytes.ofNat (10 * n + d) := by
  rw [Bytes.ofNat, Bytes.ofNat, ← List.map_append, Nat.toDigits_append_toDigits (by decide) hn hd]
  rfl

theorem ofNat_of_isDigit {b : UInt8} (hb : Bytes.isDigit b = true) :
    b.toNat - 48 < 10 ∧ Bytes.ofNat (b.toNat - 48) = [b] := by
  have hdigits : ∀ d < 10, Bytes.ofNat d = [UInt8.ofNat (48 + d)] := by decide
  simp only [Bytes.isDigit, Bool.and_eq_true, decide_eq_true_eq, UInt8.le_iff_toNat_le] at hb
  have hlow : 48 ≤ b.toNat := hb.1
  have hhigh : b.toNat ≤ 57 := hb.2
  have hlt : b.toNat - 48 < 10 := by omega
  rw [hdigits _ hlt, Nat.add_sub_cancel' hlow, UInt8.ofNat_toNat]
  exact ⟨hlt, rfl⟩

/-- Digits that are written after a number other than zero. -/
theorem ofNat_append_digits {n : Nat} (hn : 0 < n) {s : Bytes}
    (hs : ∀ b ∈ s, Bytes.isDigit b = true) : Bytes.ofNat n ++ s = Bytes.ofNat (after n s) := by
  induction s generalizing n with
  | nil => exact List.append_nil _
  | cons b s ih =>
    obtain ⟨hlt, hb⟩ := ofNat_of_isDigit (hs b List.mem_cons_self)
    rw [List.append_cons, ← hb, ofNat_append_ofNat hn hlt, after_cons]
    exact ih (by omega) fun c hc => hs c (List.mem_cons_of_mem b hc)

/-- Only the numeral of zero starts with a zero. -/
theorem eq_zero_of_head?_ofNat {n : Nat} (h : (Bytes.ofNat n).head? = some 48) : n = 0 := by
  induction n using Nat.base_induction 10 (by decide) with
  | single m hm =>
    have hdigits : ∀ d < 10, (Bytes.ofNat d).head? = some 48 → d = 0 := by decide
    exact hdigits m hm h
  | digit m k hk hm ih =>
    obtain ⟨b, s, hs⟩ := List.exists_cons_of_ne_nil (denotes_ofNat m).nonempty
    rw [← ofNat_append_ofNat hm hk, hs] at h
    rw [hs] at ih
    exact absurd (ih h) (Nat.ne_of_gt hm)

/-- A numeral without needless zeros is what is written for its number. -/
theorem Denotes.eq_ofNat {s : Bytes} {n : Nat} (h : Denotes s n)
    (hzero : s.head? = some 48 → s = [48]) : s = Bytes.ofNat n := by
  obtain ⟨hne, hdigits, rfl⟩ := h
  rw [ofDigits_reverse]
  cases s with
  | nil => exact absurd rfl hne
  | cons b s =>
    by_cases hb : b = 48
    · rw [hzero (congrArg some hb)]
      rfl
    · obtain ⟨hlt, hone⟩ := ofNat_of_isDigit (hdigits b List.mem_cons_self)
      have hpos : 0 < b.toNat - 48 := by
        refine Nat.pos_of_ne_zero fun hzero => hb ?_
        rw [hzero] at hone
        exact (List.cons.inj hone).1.symm
      rw [after_cons, Nat.mul_zero, Nat.zero_add, ← ofNat_append_digits hpos, hone]
      · rfl
      · exact fun c hc => hdigits c (List.mem_cons_of_mem b hc)

/-- Numbers are written as their canonical numerals. -/
theorem isCanonical_iff {s : Bytes} {i : Int} : IsCanonical s i ↔ s = Bytes.ofInt i := by
  have hnatural : ∀ {digits : Bytes} {n : Nat}, (Denotes digits n ∧
      (digits.head? = some 48 → digits = [48])) ↔ digits = Bytes.ofNat n := by
    refine fun {digits n} => ⟨fun h => h.1.eq_ofNat h.2, ?_⟩
    rintro rfl
    refine ⟨denotes_ofNat n, fun h => ?_⟩
    rw [eq_zero_of_head?_ofNat h]
    rfl
  unfold IsCanonical
  simp only [hnatural]
  cases i with
  | ofNat n =>
    have hn : ¬Int.ofNat n < 0 := Int.not_lt.mpr (Int.natCast_nonneg n)
    simp only [hn, if_false, exists_eq_right]
    rfl
  | negSucc n =>
    simp only [Int.negSucc_lt_zero, if_true, exists_eq_right]
    rfl

end ServerPages.Numeral

/-! ### Literal attributes of integer types -/

namespace ServerPages.Generation

/-- The integer types of setters. -/
inductive IntegerType where
  | int | int64 | int32 | int16 | int8 | uint | uint64 | uint32 | uint16 | uint8 | byte
  deriving DecidableEq

namespace IntegerType

/-- The name of a type. -/
def name : IntegerType → Bytes
  | int => "int"
  | int64 => "int64"
  | int32 => "int32"
  | int16 => "int16"
  | int8 => "int8"
  | uint => "uint"
  | uint64 => "uint64"
  | uint32 => "uint32"
  | uint16 => "uint16"
  | uint8 => "uint8"
  | byte => "byte"

/-- Whether a type has negative integers. -/
def isSigned : IntegerType → Bool
  | int | int64 | int32 | int16 | int8 => true
  | uint | uint64 | uint32 | uint16 | uint8 | byte => false

/-- The least integer of a type. -/
def lowest : IntegerType → Int
  | int | int64 => -9223372036854775808
  | int32 => -2147483648
  | int16 => -32768
  | int8 => -128
  | uint | uint64 | uint32 | uint16 | uint8 | byte => 0

/-- The greatest integer of a type. -/
def highest : IntegerType → Int
  | int | int64 => 9223372036854775807
  | int32 => 2147483647
  | int16 => 32767
  | int8 => 127
  | uint | uint64 => 18446744073709551615
  | uint32 => 4294967295
  | uint16 => 65535
  | uint8 | byte => 255

/-- The number of bits of a type. -/
def bits : IntegerType → Nat
  | int | int64 | uint | uint64 => 64
  | int32 | uint32 => 32
  | int16 | uint16 => 16
  | int8 | uint8 | byte => 8

/-- A text is a numeral of an integer, with an optional sign if the type has negative integers and
without one otherwise. -/
def Reads (t : IntegerType) (s : Bytes) (i : Int) : Prop :=
  if t.isSigned then Numeral.DenotesInt s i else ∃ n : Nat, Numeral.Denotes s n ∧ i = n

/-- A text is a numeral of an integer of the type. -/
def Admits (t : IntegerType) (s : Bytes) (i : Int) : Prop :=
  t.Reads s i ∧ t.lowest ≤ i ∧ i ≤ t.highest

/-- A constant with its conversion to the type, which a constant of type `int` does not need. -/
def converted (t : IntegerType) (constant : Bytes) : Bytes :=
  if t = int then constant else t.name ++ "(" ++ constant ++ ")"

theorem conversion_name (t : IntegerType) (c : Bytes) : conversion t.name c = t.converted c := by
  cases t <;> rfl

theorem lowest_eq (t : IntegerType) :
    t.lowest = if t.isSigned then -2 ^ (t.bits - 1) else 0 := by
  cases t <;> rfl

theorem highest_eq (t : IntegerType) :
    t.highest + 1 = if t.isSigned then 2 ^ (t.bits - 1) else 2 ^ t.bits := by
  cases t <;> rfl

theorem bits_pos (t : IntegerType) : 0 < t.bits := by
  cases t <;> decide

theorem signed_eq_ok_iff {t : IntegerType} (ht : t.isSigned = true) {s : Bytes} {i : Int} :
    Numeral.signed t.bits s = .ok i ↔ t.Admits s i := by
  have hlow := t.lowest_eq
  have hhigh := t.highest_eq
  rw [if_pos ht] at hlow hhigh
  rw [Numeral.signed_eq_ok_iff t.bits_pos, Admits, Reads, if_pos ht, hlow, ← hhigh,
    Int.lt_add_one_iff]

theorem unsigned_eq_ok_iff {t : IntegerType} (ht : t.isSigned = false) {s : Bytes} {i : Int} :
    (∃ n : Nat, Numeral.unsigned t.bits s = .ok n ∧ i = n) ↔ t.Admits s i := by
  have hlow := t.lowest_eq
  have hhigh := t.highest_eq
  have hsigned : ¬t.isSigned = true := by simp [ht]
  rw [if_neg hsigned] at hlow hhigh
  have hlimit : ((2 ^ t.bits : Nat) : Int) = 2 ^ t.bits := Int.natCast_pow 2 _
  rw [Admits, Reads, if_neg hsigned]
  constructor
  · rintro ⟨n, hn, rfl⟩
    obtain ⟨hdenotes, hlt⟩ := Numeral.unsigned_eq_ok_iff.mp hn
    exact ⟨⟨n, hdenotes, rfl⟩, by omega, by omega⟩
  · rintro ⟨⟨n, hdenotes, rfl⟩, -, hle⟩
    exact ⟨n, Numeral.unsigned_eq_ok_iff.mpr ⟨hdenotes, by omega⟩, rfl⟩

/-- The constant that the value of an attribute of the type becomes, or why there is none. -/
theorem literalCode_name (t : IntegerType) (value : Bytes) : literalCode t.name value =
    if t.isSigned then
      match Numeral.signed t.bits value with
      | .ok i => .ok (t.converted (Bytes.ofInt i))
      | .error e => .error (notValid t.name value e.message)
    else
      match Numeral.unsigned t.bits value with
      | .ok n => .ok (t.converted (Bytes.ofNat n))
      | .error e => .error (notValid t.name value e.message) := by
  simp only [← conversion_name]
  cases t <;> rfl

theorem literalCode_eq_ok_iff {t : IntegerType} {value code : Bytes} :
    literalCode t.name value = .ok code ↔
      ∃ i, t.Admits value i ∧ code = t.converted (Bytes.ofInt i) := by
  rw [literalCode_name]
  by_cases ht : t.isSigned = true
  · rw [if_pos ht]
    simp only [← signed_eq_ok_iff ht]
    cases Numeral.signed t.bits value <;> simp [eq_comm]
  · rw [if_neg ht]
    simp only [← unsigned_eq_ok_iff (Bool.eq_false_of_not_eq_true ht)]
    cases hn : Numeral.unsigned t.bits value with
    | error e => simp
    | ok n => simp [eq_comm, Bytes.ofInt]

/-- The conversion that refuses what is no numeral of the type. -/
def reader (t : IntegerType) : Bytes := if t.isSigned then "ParseInt" else "ParseUint"

theorem literalCode_eq_error {t : IntegerType} {value message : Bytes}
    (h : literalCode t.name value = .error message) :
    ∃ r, message = notValid t.name value (Numeral.Error.message ⟨t.reader, value, r⟩) := by
  rw [literalCode_name] at h
  unfold reader
  by_cases ht : t.isSigned = true
  · rw [if_pos ht] at h ⊢
    cases hs : Numeral.signed t.bits value with
    | ok i =>
      rw [hs] at h
      cases h
    | error e =>
      rw [hs] at h
      obtain ⟨r, rfl⟩ := Numeral.exists_eq_of_signed_eq_error hs
      exact ⟨r, (Except.error.inj h).symm⟩
  · rw [if_neg ht] at h ⊢
    cases hu : Numeral.unsigned t.bits value with
    | ok n =>
      rw [hu] at h
      cases h
    | error e =>
      rw [hu] at h
      obtain ⟨r, rfl⟩ := Numeral.exists_eq_of_unsigned_eq_error hu
      exact ⟨r, (Except.error.inj h).symm⟩

end IntegerType

/-- The value of a literal attribute becomes an expression, or is refused where it is given. -/
theorem valueCode_of_literal (inner : Body) (handler : Bytes) {a : Attribute} (named : Option Node)
    (type : Bytes) (hkind : a.kind = .literal) (hfragment : a.fragment = false) (s : State) :
    valueCode inner handler a named type s =
      match literal type a.value a.position with
      | .ok code => .ok code s
      | .error e => .error e s := by
  unfold valueCode
  rw [hfragment, hkind]
  cases literal type a.value a.position <;> rfl

/-- **Integers are coerced exactly.** The value of an attribute of an integer type is accepted if it
is a numeral of an integer of the type, and then becomes the canonical numeral of that integer,
converted to the type. Every other value is refused, at the position of the attribute. -/
theorem literal_of_integerType (t : IntegerType) (value : Bytes) (p : Position) :
    (∀ code, literal t.name value p = .ok code ↔
      ∃ i c, t.Admits value i ∧ Numeral.IsCanonical c i ∧ code = t.converted c) ∧
    ((¬∃ i, t.Admits value i) → ∃ r, literal t.name value p = .error (.fault (.diagnostic
      ⟨.invalidLiteral, p,
        notValid t.name value (Numeral.Error.message ⟨t.reader, value, r⟩)⟩))) ∧
    ∀ inner handler (a : Attribute) named s, a.kind = .literal → a.fragment = false →
      valueCode inner handler a named t.name s =
        match literal t.name a.value a.position with
        | .ok code => .ok code s
        | .error e => .error e s := by
  have hok : ∀ code, literalCode t.name value = .ok code ↔
      ∃ i c, t.Admits value i ∧ Numeral.IsCanonical c i ∧ code = t.converted c := by
    intro code
    simp only [IntegerType.literalCode_eq_ok_iff, Numeral.isCanonical_iff]
    exact exists_congr fun i => by simp
  refine ⟨fun code => ?_, fun hnone => ?_, fun inner handler a named s hkind hfragment =>
    valueCode_of_literal inner handler named t.name hkind hfragment s⟩
  · rw [← hok, literal]
    cases literalCode t.name value <;> simp [Except.mapError]
  · cases hcode : literalCode t.name value with
    | ok code =>
      obtain ⟨i, c, hi, -⟩ := (hok code).mp hcode
      exact absurd ⟨i, hi⟩ hnone
    | error message =>
      obtain ⟨r, rfl⟩ := IntegerType.literalCode_eq_error hcode
      exact ⟨r, by rw [literal, hcode]; rfl⟩

example : literal "int8" "-00128" {} = .ok "int8(-128)" := rfl

end ServerPages.Generation
