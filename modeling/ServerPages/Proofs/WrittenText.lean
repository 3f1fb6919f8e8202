import ServerPages.Proofs.Bytes
import ServerPages.Proofs.CodeWriter
import ServerPages.Proofs.Utf8
import ServerPages.Text.Quoted

/-!
# How literal text is written

Literal text is cut into lines and chunks, and a statement is written for each piece. Its argument
is the quoted piece itself, or the name of a constant that holds it. Constants are shared: a piece
that has one already gets no second one, and later pieces only add to them.

A quoted piece is a double-quoted literal (`Quoted.string`). Reading a literal, a backslash starts
an escape and every other byte stands for itself. Reading undoes writing, for byte strings that are
not well formed too, and a written literal never holds a line feed.

## Main results

* `Quoted.read?_string`: the literal of a byte string reads as that byte string.
* `Quoted.newline_not_mem_string`: a literal stays on one line.
* `flatten_textPieces`: the pieces of a text concatenate to it, whatever the size of chunks.
* `forM_writeString`: one statement is written for each piece, with an argument that stands for it.
* `unit_page`: the file of a page whose content is one text.
* `newline_not_mem_typeName`: the name of a type is on one line, whatever the path.
-/

namespace ServerPages

namespace Quoted

/-! ### Reading -/

/-- The number that hexadecimal digits give when they are written after those of `n`. -/
def hexAfter? (n : Nat) : Bytes → Option Nat
  | [] => some n
  | b :: s =>
    match Bytes.hexValue? b with
    | some d => hexAfter? (n * 16 + d) s
    | none => none

/-- The control character of the letter after a backslash. -/
def controlOf? (b : UInt8) : Option UInt8 :=
  if b == 97 then some 7
  else if b == 98 then some 8
  else if b == 102 then some 12
  else if b == 110 then some 10
  else if b == 114 then some 13
  else if b == 116 then some 9
  else if b == 118 then some 11
  else none

/-- What the escape after a backslash stands for, and the number of bytes it takes. -/
def escape? : Bytes → Option (Bytes × Nat)
  | [] => none
  | b :: s =>
    if b == 34 || b == 92 then some ([b], 1)
    else if b == 120 then (hexAfter? 0 (s.take 2)).map fun n => ([n.toUInt8], 3)
    else if b == 117 then (hexAfter? 0 (s.take 4)).map fun n => (Utf8.encode n, 5)
    else if b == 85 then (hexAfter? 0 (s.take 8)).map fun n => (Utf8.encode n, 9)
    else (controlOf? b).map fun c => ([c], 1)

/-- What the text between the quote marks of a literal stands for, `skip` bytes being part of the
escape already read. -/
def unescapeFrom : Nat → Bytes → Option Bytes
  | _, [] => some []
  | skip + 1, _ :: s => unescapeFrom skip s
  | 0, b :: s =>
    if b == 92 then
      match escape? s with
      | some (text, width) => (unescapeFrom width s).map (text ++ ·)
      | none => none
    else if b == 34 || b == 10 then none
    else (unescapeFrom 0 s).map (b :: ·)

/-- The byte string that a double-quoted literal stands for. -/
def read? : Bytes → Option Bytes
  | [] => none
  | b :: s => if b == 34 && s.getLast? == some 34 then unescapeFrom 0 s.dropLast else none

/-! ### Hexadecimal digits -/

theorem hexValue?_hexDigit {n : Nat} (h : n < 16) :
    Bytes.hexValue? (Bytes.hexDigit n) = some n := by
  decide +revert

theorem hexAfter?_append (n : Nat) (s : Bytes) (b : UInt8) :
    hexAfter? n (s ++ [b]) =
      (hexAfter? n s).bind fun m => (Bytes.hexValue? b).map fun d => m * 16 + d := by
  induction s generalizing n with
  | nil =>
    simp only [List.nil_append, hexAfter?, Option.bind_some]
    cases Bytes.hexValue? b <;> rfl
  | cons a s ih =>
    rw [List.cons_append, hexAfter?, hexAfter?]
    cases Bytes.hexValue? a with
    | none => rfl
    | some d => exact ih _

/-- The last digits of a number give the number back if they are all of its digits. -/
theorem hexAfter?_hex {w n : Nat} (h : n < Nat.pow 16 w) :
    hexAfter? 0 (Bytes.hex w n) = some n := by
  induction w generalizing n with
  | zero =>
    obtain rfl : n = 0 := Nat.lt_one_iff.mp h
    rfl
  | succ w ih =>
    have hn : n / 16 < Nat.pow 16 w := Nat.div_lt_of_lt_mul (Nat.mul_comm _ _ ▸ h)
    rw [Bytes.hex, hexAfter?_append, ih hn, hexValue?_hexDigit (Nat.mod_lt n (by omega))]
    simp only [Option.bind_some, Option.map_some]
    congr 1
    omega

@[simp] theorem length_hex (w n : Nat) : (Bytes.hex w n).length = w := by
  induction w generalizing n with
  | zero => rfl
  | succ w ih => rw [Bytes.hex, List.length_append, ih]; rfl

theorem take_hex_append (w n : Nat) (s : Bytes) : (Bytes.hex w n ++ s).take w = Bytes.hex w n := by
  rw [List.take_append_of_le_length (by simp), List.take_of_length_le (by simp)]

theorem drop_hex_append (w n : Nat) (s : Bytes) : (Bytes.hex w n ++ s).drop w = s := by
  rw [List.drop_append_of_le_length (by simp), List.drop_of_length_le (by simp), List.nil_append]

/-! ### Reading undoes writing -/

theorem unescapeFrom_eq (k : Nat) (s : Bytes) : unescapeFrom k s = unescapeFrom 0 (s.drop k) := by
  induction s generalizing k with
  | nil => cases k <;> rfl
  | cons b s ih =>
    cases k with
    | zero => rfl
    | succ k => exact ih k

theorem unescapeFrom_escape {s text : Bytes} {width : Nat} (h : escape? s = some (text, width)) :
    unescapeFrom 0 (92 :: s) = (unescapeFrom 0 (s.drop width)).map (text ++ ·) := by
  rw [unescapeFrom, if_pos (by decide), h, ← unescapeFrom_eq]

theorem unescapeFrom_plain {t : Bytes} (ht : ∀ b ∈ t, b ≠ 92 ∧ b ≠ 34 ∧ b ≠ 10) (s : Bytes) :
    unescapeFrom 0 (t ++ s) = (unescapeFrom 0 s).map (t ++ ·) := by
  induction t with
  | nil => simp
  | cons b t ih =>
    obtain ⟨h92, h34, h10⟩ := ht b List.mem_cons_self
    rw [List.cons_append, unescapeFrom, if_neg (by simpa using h92),
      if_neg (by simp [h34, h10]), ih fun c hc => ht c (List.mem_cons_of_mem b hc),
      Option.map_map]
    rfl

theorem unescapeFrom_byteEscape {n : Nat} (h : n < 256) (s : Bytes) :
    unescapeFrom 0 (byteEscape n ++ s) = (unescapeFrom 0 s).map (n.toUInt8 :: ·) := by
  have he : escape? (120 :: (Bytes.hex 2 n ++ s)) = some ([n.toUInt8], 3) := by
    simp only [escape?, take_hex_append, hexAfter?_hex (w := 2) h]
    rfl
  have hu := unescapeFrom_escape he
  rw [List.drop_succ_cons, drop_hex_append] at hu
  exact hu

theorem unescapeFrom_unicode {n : Nat} (h : n < 65536) (s : Bytes) :
    unescapeFrom 0 (92 :: 117 :: Bytes.hex 4 n ++ s) =
      (unescapeFrom 0 s).map (Utf8.encode n ++ ·) := by
  have he : escape? (117 :: (Bytes.hex 4 n ++ s)) = some (Utf8.encode n, 5) := by
    simp only [escape?, take_hex_append, hexAfter?_hex (w := 4) h]
    rfl
  have hu := unescapeFrom_escape he
  rw [List.drop_succ_cons, drop_hex_append] at hu
  exact hu

theorem unescapeFrom_longUnicode {n : Nat} (h : n < 4294967296) (s : Bytes) :
    unescapeFrom 0 (92 :: 85 :: Bytes.hex 8 n ++ s) =
      (unescapeFrom 0 s).map (Utf8.encode n ++ ·) := by
  have he : escape? (85 :: (Bytes.hex 8 n ++ s)) = some (Utf8.encode n, 9) := by
    simp only [escape?, take_hex_append, hexAfter?_hex (w := 8) h]
    rfl
  have hu := unescapeFrom_escape he
  rw [List.drop_succ_cons, drop_hex_append] at hu
  exact hu

theorem controlLetter?_cases {c : Nat} {l : UInt8} (h : controlLetter? c = some l) :
    (c, l) ∈ [(7, 97), (8, 98), (12, 102), (10, 110), (13, 114), (9, 116), (11, 118)] := by
  simp only [controlLetter?] at h
  grind

theorem unescapeFrom_control {c : Nat} {l : UInt8} (h : controlLetter? c = some l) (s : Bytes) :
    unescapeFrom 0 (92 :: l :: s) = (unescapeFrom 0 s).map (Utf8.encode c ++ ·) := by
  have he : escape? (l :: s) = some (Utf8.encode c, 1) := by
    have hc := controlLetter?_cases h
    simp only [List.mem_cons, Prod.mk.injEq, List.not_mem_nil, or_false] at hc
    rcases hc with ⟨rfl, rfl⟩ | ⟨rfl, rfl⟩ | ⟨rfl, rfl⟩ | ⟨rfl, rfl⟩ | ⟨rfl, rfl⟩ | ⟨rfl, rfl⟩ |
      ⟨rfl, rfl⟩ <;> rfl
  exact unescapeFrom_escape he

/-- The bytes of a printable character are those of a literal that stand for themselves. -/
theorem plain_of_isPrintable {c : Nat} (h : Unicode.isPrintable c = true) (h34 : c ≠ 34)
    (h92 : c ≠ 92) : ∀ b ∈ Utf8.encode c, b ≠ 92 ∧ b ≠ 34 ∧ b ≠ 10 := by
  intro b hb
  simp only [ne_eq, ← UInt8.toNat_inj, UInt8.reduceToNat]
  by_cases hc : c < 0x80
  · rw [Utf8.encode_one hc, List.mem_singleton] at hb
    rw [hb, Utf8.toNat_toUInt8 (by omega)]
    simp only [Unicode.isPrintable, if_pos hc, Bool.and_eq_true, decide_eq_true_eq] at h
    omega
  · have := Utf8.le_of_mem_encode (by omega) hb
    omega

/-- A written character reads as its bytes. -/
theorem unescapeFrom_escapeChar {c : Nat} (hs : Utf8.isScalar c = true) (s : Bytes) :
    unescapeFrom 0 (escapeChar 34 c ++ s) = (unescapeFrom 0 s).map (Utf8.encode c ++ ·) := by
  have hc := Utf8.le_of_isScalar hs
  rw [escapeChar]
  split
  · next h =>
      have h' : c = 34 ∨ c = 92 := by simpa using h
      rcases h' with rfl | rfl
      · exact unescapeFrom_escape (s := 34 :: s) rfl
      · exact unescapeFrom_escape (s := 92 :: s) rfl
  next h =>
  have h' : c ≠ 34 ∧ c ≠ 92 := by simpa using h
  split
  · next hp => exact unescapeFrom_plain (plain_of_isPrintable hp h'.1 h'.2) s
  split
  · next l hl => exact unescapeFrom_control hl s
  split
  · next hb =>
      have hb' : c < 32 ∨ c = 127 := by simpa using hb
      rw [unescapeFrom_byteEscape (by omega), Utf8.encode_one (by omega)]
      rfl
  split
  · next h4 => exact unescapeFrom_unicode h4 s
  · exact unescapeFrom_longUnicode (by omega) s

theorem unescapeFrom_escapePiece {t : Bytes} {p : Nat × Bytes} (hp : p ∈ Utf8.pieces t)
    (s : Bytes) :
    unescapeFrom 0 (escapePiece 34 p ++ s) = (unescapeFrom 0 s).map (p.2 ++ ·) := by
  rcases Utf8.piece_cases hp with ⟨b, rfl⟩ | ⟨c, hs, rfl⟩
  · have he : escapePiece 34 (Utf8.replacement, [b]) = byteEscape b.toNat := by
      simp [escapePiece, Utf8.isBroken]
    rw [he, unescapeFrom_byteEscape (UInt8.toNat_lt b)]
    simp
  · rw [escapePiece, if_neg (by rw [Utf8.isBroken_encode hs]; decide)]
    exact unescapeFrom_escapeChar hs s

theorem unescapeFrom_pieces {t : Bytes} {ps : List (Nat × Bytes)}
    (hps : ∀ p ∈ ps, p ∈ Utf8.pieces t) :
    unescapeFrom 0 (ps.flatMap (escapePiece 34)) = some (ps.flatMap (·.2)) := by
  induction ps with
  | nil => rfl
  | cons p ps ih =>
    rw [List.flatMap_cons, unescapeFrom_escapePiece (hps p List.mem_cons_self),
      ih fun q hq => hps q (List.mem_cons_of_mem p hq)]
    rfl

/-- **Reading a literal undoes writing it**, for every byte string. -/
theorem read?_string (s : Bytes) : read? (string s) = some s := by
  have h := unescapeFrom_pieces (t := s) fun p hp => hp
  rw [Utf8.flatMap_pieces] at h
  rw [string, read?, List.getLast?_append, List.dropLast_append_of_ne_nil (by simp)]
  simpa using h

/-! ### The bytes of a literal -/

theorem hexDigit_ne_newline (n : Nat) (h : n < 16) : Bytes.hexDigit n ≠ 10 := by
  decide +revert

theorem newline_not_mem_hex (w n : Nat) : 10 ∉ Bytes.hex w n := by
  induction w generalizing n with
  | zero => simp [Bytes.hex]
  | succ w ih =>
    rw [Bytes.hex, List.mem_append, List.mem_singleton]
    rintro (h | h)
    · exact ih _ h
    · exact hexDigit_ne_newline (n % 16) (Nat.mod_lt n (by omega)) h.symm

theorem newline_not_mem_byteEscape (n : Nat) : 10 ∉ byteEscape n := by
  simp [byteEscape, newline_not_mem_hex]

theorem newline_not_mem_escapeChar (c : Nat) : 10 ∉ escapeChar 34 c := by
  rw [escapeChar]
  split
  · next h =>
      have h' : c = 34 ∨ c = 92 := by simpa using h
      rcases h' with rfl | rfl <;> decide
  next h =>
  have h' : c ≠ 34 ∧ c ≠ 92 := by simpa using h
  split
  · next hp => exact fun hm => (plain_of_isPrintable hp h'.1 h'.2 10 hm).2.2 rfl
  split
  · next l hl =>
      have hc := controlLetter?_cases hl
      grind
  split
  · exact newline_not_mem_byteEscape c
  split
  · simp [newline_not_mem_hex]
  · simp [newline_not_mem_hex]

/-- A literal stays on one line. -/
theorem newline_not_mem_string (s : Bytes) : 10 ∉ string s := by
  simp only [string, List.mem_cons, List.mem_append, List.mem_flatMap, not_or, not_exists, not_and]
  refine ⟨by decide, fun p _ => ?_, by decide, by simp⟩
  rw [escapePiece]
  split
  · simp [newline_not_mem_byteEscape]
  · exact newline_not_mem_escapeChar p.1

end Quoted

/-! ### Names of types -/

namespace Utf8

theorem newline_not_mem_encode {c : Nat} (h : c ≠ 10) : 10 ∉ encode c := by
  intro hb
  by_cases hc : c < 0x80
  · rw [encode_one hc, List.mem_singleton] at hb
    have hn := congrArg UInt8.toNat hb
    rw [toNat_toUInt8 (by omega)] at hn
    exact h hn.symm
  · have := le_of_mem_encode (by omega) hb
    simp at this

end Utf8

namespace Generation

theorem toUpper_ne_newline {c : Nat} (h : c ≠ 10) : Unicode.toUpper c ≠ 10 := by
  have hup : Unicode.upperRuns.all (fun r => 64 ≤ r.2.2.2) = true := by decide +kernel
  rw [Unicode.toUpper]
  split
  · split
    · next hc => simp at hc; omega
    · exact h
  split
  · next lo _ _ up hf =>
      have := List.all_eq_true.mp hup _ (List.mem_of_find?_eq_some hf)
      simp at this
      omega
  · exact h

theorem newline_not_mem_capitalized {word : Bytes} (h : 10 ∉ word) : 10 ∉ capitalized word := by
  rcases word with - | ⟨b, s⟩
  · exact h
  have hc : (Utf8.charAt b s).1 ≠ 10 := by
    rcases Utf8.charAt_cases b s with hb | ⟨c, r, t, hs, rfl, he, hc⟩
    · rw [hb]
      decide
    · rw [hc]
      rintro rfl
      exact h (by rw [show b = 10 from (List.cons.inj he).1.symm]; exact List.mem_cons_self)
  show 10 ∉ Utf8.encode (Unicode.toUpper (Utf8.charAt b s).1) ++ (b :: s).drop (Utf8.charAt b s).2
  rw [List.mem_append]
  rintro (hm | hm)
  · exact Utf8.newline_not_mem_encode (toUpper_ne_newline hc) hm
  · exact h (List.mem_of_mem_drop hm)

theorem newline_not_mem_wordsFrom (sep : Nat → Bool) (hsep : sep 10 = true)
    (hrep : sep Utf8.replacement = true) {t : Bytes}
    {ps : List (Nat × Bytes)} (hps : ∀ p ∈ ps, p ∈ Utf8.pieces t) {word : List Bytes}
    (hword : ∀ w ∈ word, 10 ∉ w) : ∀ w ∈ Bytes.wordsFrom sep word ps, 10 ∉ w := by
  have hflat : ∀ {ws : List Bytes}, (∀ w ∈ ws, 10 ∉ w) → 10 ∉ ws.reverse.flatten := by
    intro ws hws hm
    obtain ⟨w, hw, hb⟩ := List.mem_flatten.mp hm
    exact hws w (List.mem_reverse.mp hw) hb
  induction ps generalizing word with
  | nil =>
    rw [Bytes.wordsFrom]
    split
    · simp
    · simpa using hflat hword
  | cons p ps ih =>
    have ih' := fun {word : List Bytes} =>
      @ih (fun q hq => hps q (List.mem_cons_of_mem p hq)) word
    rw [Bytes.wordsFrom]
    split
    · split
      · exact ih' (by simp)
      · intro w hw
        rcases List.mem_cons.mp hw with rfl | hw
        · exact hflat hword
        · exact ih' (by simp) w hw
    · next hs =>
        refine ih' fun w hw => ?_
        rcases List.mem_cons.mp hw with rfl | hw
        · rcases Utf8.piece_cases (hps p List.mem_cons_self) with ⟨b, rfl⟩ | ⟨c, hc, rfl⟩
          · exact absurd hrep hs
          · refine Utf8.newline_not_mem_encode ?_
            rintro rfl
            exact hs hsep
        · exact hword w hw

/-- The name of a type is on one line, whatever the path. -/
theorem newline_not_mem_typeName (path : Bytes) : 10 ∉ typeName path := by
  have hwords := newline_not_mem_wordsFrom
    (fun c => !Unicode.isLetter c && !Unicode.isDigit c) (by decide +kernel) (by decide +kernel)
    (t := SlashPath.base path) (fun p hp => hp) (fun w (hw : w ∈ []) => absurd hw List.not_mem_nil)
  have hname : 10 ∉ ((SlashPath.base path).wordsBy
      fun c => !Unicode.isLetter c && !Unicode.isDigit c).flatMap capitalized := by
    intro hm
    obtain ⟨w, hw, hb⟩ := List.mem_flatMap.mp hm
    exact newline_not_mem_capitalized (hwords w hw) hb
  rw [typeName]
  split
  · decide
  · split
    · rw [List.mem_append]
      exact fun h => h.elim (by decide) hname
    · exact hname

theorem lowerByte_ne_newline {b : UInt8} (h : b ≠ 10) : Bytes.lowerByte b ≠ 10 := by
  rw [Bytes.lowerByte]
  split
  · next hu =>
      simp only [Bytes.isUpper, Bool.and_eq_true, decide_eq_true_eq] at hu
      grind
  · exact h

theorem newline_not_mem_lowerFirst {s : Bytes} (h : 10 ∉ s) : 10 ∉ lowerFirst s := by
  rcases s with - | ⟨b, s⟩
  · exact h
  have hb : b ≠ 10 := fun hb => h (hb ▸ List.mem_cons_self)
  rw [lowerFirst, List.mem_append]
  rintro (hm | hm)
  · split at hm
    · rw [List.mem_singleton] at hm
      exact lowerByte_ne_newline hb hm.symm
    · exact absurd hm (by decide)
  · exact h (List.mem_cons_of_mem b hm)

/-! ### Pieces of text -/

theorem flatten_chunksWithin (size fuel : Nat) (s : Bytes) :
    (chunksWithin size fuel s).flatten = s := by
  induction fuel generalizing s with
  | zero => simp [chunksWithin]
  | succ fuel ih =>
    rw [chunksWithin]
    split
    · split
      · next h => simpa using (eq_of_beq h).symm
      · simp
    · rw [List.flatten_cons, ih, List.take_append_drop]

theorem flatten_chunks (size : Nat) (s : Bytes) : (chunks size s).flatten = s := by
  rw [chunks]
  split
  · simp
  · exact flatten_chunksWithin size s.length s

/-- The pieces in which a text is written concatenate to it. -/
theorem flatten_textPieces (size : Nat) (s : Bytes) : (textPieces size s).flatten = s := by
  have h : ∀ ls : List Bytes, (ls.flatMap (chunks size)).flatten = ls.flatten := by
    intro ls
    induction ls with
    | nil => rfl
    | cons l ls ih =>
      rw [List.flatMap_cons, List.flatten_append, ih, flatten_chunks, List.flatten_cons]
  rw [textPieces, h, Bytes.flatten_splitLines]

/-! ### Text constants -/

/-- The constants of a unit by name, with their literals. -/
def namedTexts (texts : List Bytes) : List (Bytes × Bytes) :=
  texts.mapIdx fun i s => (textName i, Quoted.string s)

/-- The text that the argument of a statement stands for: a literal, or the name of a constant. -/
def argumentText? (constants : List (Bytes × Bytes)) (a : Bytes) : Option Bytes :=
  match Quoted.read? a with
  | some s => some s
  | none => (constants.lookup a).bind Quoted.read?

theorem textName_injective {i j : Nat} (h : textName i = textName j) : i = j :=
  Bytes.ofNat_injective (List.append_cancel_left h)

theorem lookup_mapIdx_textName (texts : List Bytes) (i k : Nat) :
    (texts.mapIdx fun j s => (textName (j + k), Quoted.string s)).lookup (textName (i + k)) =
      texts[i]?.map Quoted.string := by
  induction texts generalizing i k with
  | nil => rfl
  | cons t ts ih =>
    rw [List.mapIdx_cons]
    cases i with
    | zero => simp
    | succ i =>
      have hne : (textName (i + 1 + k) == textName (0 + k)) = false := by
        rw [beq_eq_false_iff_ne]
        intro h
        have := textName_injective h
        omega
      rw [List.lookup_cons, hne]
      have h := ih i (k + 1)
      simpa only [Nat.add_assoc, Nat.add_comm 1 k, List.getElem?_cons_succ] using h

theorem lookup_namedTexts (texts : List Bytes) (i : Nat) :
    (namedTexts texts).lookup (textName i) = texts[i]?.map Quoted.string :=
  lookup_mapIdx_textName texts i 0

theorem argumentText?_string (constants : List (Bytes × Bytes)) (s : Bytes) :
    argumentText? constants (Quoted.string s) = some s := by
  rw [argumentText?, Quoted.read?_string]

theorem argumentText?_textName {texts : List Bytes} {i : Nat} {s : Bytes}
    (h : texts[i]? = some s) : argumentText? (namedTexts texts) (textName i) = some s := by
  have hr : Quoted.read? (textName i) = none := rfl
  rw [argumentText?, hr, lookup_namedTexts, h]
  exact Quoted.read?_string s

/-- The argument `a` is how a piece of text is written beside the constants `texts`. -/
def IsArgument (texts : List Bytes) (piece a : Bytes) : Prop :=
  a = Quoted.string piece ∨ ∃ i, a = textName i ∧ texts[i]? = some piece

theorem IsArgument.mono {texts texts' : List Bytes} {piece a : Bytes}
    (h : IsArgument texts piece a) (hp : texts <+: texts') : IsArgument texts' piece a := by
  rcases h with rfl | ⟨i, rfl, hi⟩
  · exact Or.inl rfl
  · obtain ⟨more, rfl⟩ := hp
    refine Or.inr ⟨i, rfl, ?_⟩
    rw [List.getElem?_append_left (List.getElem?_eq_some_iff.mp hi).1, hi]

theorem IsArgument.text {texts : List Bytes} {piece a : Bytes} (h : IsArgument texts piece a) :
    argumentText? (namedTexts texts) a = some piece := by
  rcases h with rfl | ⟨i, rfl, hi⟩
  · exact argumentText?_string _ piece
  · exact argumentText?_textName hi

theorem newline_not_mem_textName (i : Nat) : 10 ∉ textName i := by
  rw [textName, List.mem_append]
  rintro (h | h)
  · exact absurd h (by decide)
  · exact absurd (Bytes.isDigit_of_mem_ofNat h) (by decide)

theorem IsArgument.newline_not_mem {texts : List Bytes} {piece a : Bytes}
    (h : IsArgument texts piece a) : 10 ∉ a := by
  rcases h with rfl | ⟨i, rfl, -⟩
  · exact Quoted.newline_not_mem_string piece
  · exact newline_not_mem_textName i

theorem textConstant_eq (piece : Bytes) (s : State) : ∃ i ts,
    textConstant piece s = .ok (textName i) { s with texts := ts } ∧ s.texts <+: ts ∧
      ts[i]? = some piece := by
  cases h : s.texts.findIdx? (· == piece) with
  | some i =>
    refine ⟨i, s.texts, ?_, List.prefix_refl _, ?_⟩
    · simp only [textConstant, run_modifyGet, h]
    · obtain ⟨hlt, hi, -⟩ := List.findIdx?_eq_some_iff_getElem.mp h
      rw [List.getElem?_eq_getElem hlt, eq_of_beq hi]
  | none =>
    refine ⟨s.texts.length, s.texts ++ [piece], ?_, List.prefix_append _ _, by simp⟩
    simp only [textConstant, run_modifyGet, h]

/-- The statement that writes the text of an argument. -/
def writeStatement (a : Bytes) : Bytes := "pc.Out().WriteString(" ++ a ++ ")"

theorem writeString_eq (env : Env) (piece : Bytes) (s : State) : ∃ a ts,
    writeString env piece s =
      .ok () ({ s with texts := ts }.rewritten (s.place.out.println (writeStatement a)) s.spans) ∧
    s.texts <+: ts ∧ IsArgument ts piece a := by
  rw [writeString]
  cases env.options.poolLiteralText with
  | false => exact ⟨Quoted.string piece, s.texts, rfl, List.prefix_refl _, Or.inl rfl⟩
  | true =>
    obtain ⟨i, ts, hrun, hp, hi⟩ := textConstant_eq piece s
    exact ⟨textName i, ts, bind_ok hrun, hp, Or.inr ⟨i, rfl, hi⟩⟩

/-- What writing pieces of text does: a statement for each piece, whose argument is a literal or a
constant. -/
theorem forM_writeString (env : Env) (pieces : List Bytes) (s : State) :
    ∃ (args : List (Bytes × Bytes)) (out : Writer) (ts : List Bytes),
    pieces.forM (writeString env) s = .ok () ({ s with texts := ts }.rewritten out s.spans) ∧
    out.text = s.place.out.text ++
      codeLines s.place.out.indent (args.map fun p => writeStatement p.2) ∧
    out.indent = s.place.out.indent ∧ s.texts <+: ts ∧ args.map (·.1) = pieces ∧
    ∀ p ∈ args, IsArgument ts p.1 p.2 := by
  induction pieces generalizing s with
  | nil => exact ⟨[], s.place.out, s.texts, rfl, by simp [codeLines], rfl, List.prefix_refl _, rfl,
      by simp⟩
  | cons piece pieces ih =>
    obtain ⟨a, ts, hrun, hts, ha⟩ := writeString_eq env piece s
    obtain ⟨args, out, ts', hrun', htext, hindent, hts', hargs, hall⟩ := ih
      ({ s with texts := ts }.rewritten (s.place.out.println (writeStatement a)) s.spans)
    refine ⟨(piece, a) :: args, out, ts', ?_, ?_, ?_, hts.trans hts', ?_, ?_⟩
    · show (writeString env piece >>= fun _ => pieces.forM (writeString env)) s = _
      rw [bind_ok hrun, hrun']
      rfl
    · rw [htext]
      show (s.place.out.println (writeStatement a)).text ++ _ = _
      rw [Writer.text_println, List.append_assoc]
      rfl
    · exact hindent
    · rw [List.map_cons, hargs]
    · intro p hp
      rcases List.mem_cons.mp hp with rfl | hp
      · exact ha.mono hts'
      · exact hall p hp

/-- The statements that write the literal text of a node, which has lines of its own. -/
theorem text_eq (env : Env) (node : Nat) (t : Bytes) (s : State)
    (htrim : env.page.trimSpaces = false) :
    ∃ (args : List (Bytes × Bytes)) (out : Writer) (ts : List Bytes) (spans : Spans),
    text env node t s = .ok () ({ s with texts := ts }.rewritten out spans) ∧
    out.text = s.place.out.text ++
      codeLines s.place.out.indent (args.map fun p => writeStatement p.2) ∧
    out.indent = s.place.out.indent ∧ (args.map (·.1)).flatten = t ∧
    ∀ p ∈ args, IsArgument ts p.1 p.2 := by
  by_cases ht : t = []
  · refine ⟨[], s.place.out, s.texts, s.spans, ?_, by simp [codeLines], rfl, by simp [ht],
      by simp⟩
    rw [text, ht]
    rfl
  obtain ⟨args, out, ts, hrun, htext, hindent, -, hargs, hall⟩ :=
    forM_writeString env (textPieces env.chunkSize t)
      (s.rewritten (s.place.out.begin node s.spans).1 (s.place.out.begin node s.spans).2)
  refine ⟨args, out, ts, out.finish node (s.place.out.begin node s.spans).2, ?_, htext, hindent, 
    by rw [hargs, flatten_textPieces], hall⟩
  have hcond : (t == [] || (env.page.trimSpaces && t.trimSpace == [])) = false := by
    simp [ht, htrim]
  rw [text, hcond]
  exact bind_ok (x := List.forM _ _) hrun

/-- The lines of the file of a page from its render method on. -/
def renderedLines (env : Env) (statements : List Bytes) : List (Nat × Bytes) :=
  (0, renderLine env) :: (1, "_ = frags") :: (statements.map (1, ·) ++ closingLines env)

/-- The file of a page whose content is written by the statements with some arguments. -/
structure IsPageFile (env : Env) (args : List (Bytes × Bytes)) (texts : List Bytes)
    (source : Bytes) : Prop where
  source_eq : ∃ middle, source =
    headText env (start env).imports ++ constantsText texts ++ (middle ++ [10]) ++
      codeText (renderedLines env (args.map fun p => writeStatement p.2))
  isArgument : ∀ p ∈ args, IsArgument texts p.1 p.2

/-- A page whose content is one text is written by statements whose arguments give the text. -/
theorem unit_page (env : Env) {height node : Nat} {children : List Node} {t : Bytes}
    (hfun : env.page.functions = []) (htag : env.page.tag = none)
    (htrim : env.page.trimSpaces = false) (hbody : body env height children = text env node t) :
    ∃ args texts s', unit env height children (start env) = .ok () s' ∧
      IsPageFile env args texts s'.place.out.text ∧ (args.map (·.1)).flatten = t := by
  obtain ⟨args, out, ts, spans, hrun, htext, hindent, hargs, hall⟩ :=
    text_eq env node t ((start env).rewritten ({} : Writer).indented []) htrim
  have hout : out.outdented? = some { out with indent := 0 } := by
    rw [Writer.outdented?, hindent]
    rfl
  obtain ⟨middle, s', hrun', htext'⟩ := assemble_page
    (s := { start env with texts := ts }.rewritten { out with indent := 0 } spans) hfun htag
    ⟨rfl, rfl, rfl, rfl, rfl, rfl, rfl⟩
  refine ⟨args, ts, s', ?_, ⟨⟨middle, ?_⟩, hall⟩, hargs⟩
  · have hdone : outdent
        (({ start env with texts := ts }.rewritten ({} : Writer).indented []).rewritten out spans) =
        .ok () ({ start env with texts := ts }.rewritten { out with indent := 0 } spans) := by
      rw [outdent_eq hout]
      rfl
    have hindented : indent (start env) =
        .ok () ((start env).rewritten ({} : Writer).indented []) := rfl
    rw [unit, hbody, bind_ok hindented, bind_ok hrun]
    exact (bind_ok hdone).trans hrun'
  · have hbodyText : out.text = codeLines 1 (args.map fun p => writeStatement p.2) := htext
    have hlines : codeText (renderedLines env (args.map fun p => writeStatement p.2)) =
        codeText [(0, renderLine env), (1, "_ = frags")] ++ out.text ++
          codeText (closingLines env) := by
      rw [hbodyText, codeLines_eq, ← codeText_append, ← codeText_append]
      rfl
    rw [htext', hlines]
    rfl

end Generation

end ServerPages
