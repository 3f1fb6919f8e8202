import ServerPages.Proofs.AdmittedChildren
import ServerPages.Proofs.CoreParts
import ServerPages.Proofs.PlacedNative
import ServerPages.Proofs.TemplateText
import ServerPages.Proofs.WholeNames

/-!
# One way to split text

Template text of the native syntax is read piece by piece: characters up to the next expression,
then the expression, measured on the rest of the source. The text of a document is split in segments
at once, and the places of the segments are counted from the start of the text. Where no construct
but expressions stands, both give the same nodes.

## Main results

* `Native.takesPiece_scanText`: a piece of template text is one literal of the segments.
* `Native.sourceWithin_runsTo_iff`: a source is read into the nodes of its segments.
* `ParseRequest.parse_agrees_textNodes`: a native page and a text of a document agree.
-/

namespace ServerPages

/-- Run from `s`, the step succeeds with the value `a`. -/
def RunsTo {ε σ α : Type} (x : EStateM ε σ α) (s : σ) (a : α) : Prop := ∃ t, x s = .ok a t

theorem runsTo_of_ok {ε σ α : Type} {x : EStateM ε σ α} {s t : σ} {a b : α} (h : x s = .ok a t) :
    RunsTo x s b ↔ a = b := by
  rw [RunsTo, h]
  exact ⟨fun ⟨_, hb⟩ => (EStateM.Result.ok.inj hb).1, fun hb => ⟨t, hb ▸ rfl⟩⟩

theorem not_runsTo_of_error {ε σ α : Type} {x : EStateM ε σ α} {s t : σ} {e : ε} {a : α}
    (h : x s = .error e t) : ¬RunsTo x s a := by
  rintro ⟨u, hu⟩
  cases h.symm.trans hu

theorem runsTo_bind_of_ok {ε σ α β : Type} {x : EStateM ε σ α} {f : α → EStateM ε σ β} {s t : σ}
    {a : α} {b : β} (h : x s = .ok a t) : RunsTo (x >>= f) s b ↔ RunsTo (f a) t b := by
  rw [RunsTo, bind_ok h]
  rfl

namespace Expression

/-! ### Segments -/

/-- Where no expression starts, a literal does. -/
theorem scanFrom_none {s : Bytes} (hs : s ≠ []) (hopen : isOpener s = false) (offset : Nat) :
    scanFrom offset 0 none s = scanFrom offset 0 (some (offset, [])) s := by
  obtain ⟨b, s, rfl⟩ := List.exists_cons_of_ne_nil hs
  rw [scanFrom, scanFrom, hopen, if_neg Bool.false_ne_true, if_neg Bool.false_ne_true]
  simp only [Pending.add, List.append_nil]

/-- The text is at its end or goes on with an expression. -/
def EndsLiteral (s : Bytes) : Prop := s = [] ∨ isOpener s = true

/-- Where the literal ends, its segment stands before the others. -/
theorem scanFrom_endsLiteral {s : Bytes} (hs : EndsLiteral s) (offset : Nat) (lit : Pending) :
    scanFrom offset 0 lit s =
      (scanFrom offset 0 none s).map (lit.segments ++ ·) := by
  rcases s with - | ⟨b, s⟩
  · simp [scanFrom, Except.map, Pending.segments]
  have hopen : isOpener (b :: s) = true := hs.resolve_left (List.cons_ne_nil b s)
  have hb : (b == 92 && isOpener s) = false := by
    by_cases h : b = 92
    · subst h
      rcases s with - | ⟨c, s⟩ <;> simp [isOpener] at hopen
    · simp [h]
  rw [scanFrom, scanFrom, hb, hopen]
  simp only [Bool.false_eq_true, if_false, if_true]
  cases length? (b :: s) with
  | none => rfl
  | some n =>
    dsimp only
    cases scanFrom (offset + 1) (n - 1) none s <;> rfl

/-- An expression is a segment, and what follows it is split on its own. -/
theorem scanFrom_opener {s : Bytes} (hopen : isOpener s = true) (offset : Nat) :
    scanFrom offset 0 none s =
      match length? s with
      | none => .error ⟨offset, .unterminated (s.take 2)⟩
      | some n => (scanFrom (offset + min n s.length) 0 none (s.drop n)).map
          (segmentOf (s.take n) offset :: ·) := by
  rcases s with - | ⟨b, s⟩
  · cases hopen
  have hb : (b == 92 && isOpener s) = false := by
    by_cases h : b = 92
    · subst h
      rcases s with - | ⟨c, s⟩ <;> simp [isOpener] at hopen
    · simp [h]
  rw [scanFrom, hb, hopen]
  simp only [Bool.false_eq_true, if_false, if_true]
  cases hn : length? (b :: s) with
  | none => rfl
  | some n =>
    obtain ⟨m, rfl⟩ : ∃ m, n = m + 1 := by
      rw [length?] at hn
      obtain ⟨m, -, rfl⟩ := Option.map_eq_some_iff.mp hn
      exact ⟨m, rfl⟩
    dsimp only
    rw [Nat.add_sub_cancel, scanFrom_skip, List.drop_succ_cons, List.length_cons]
    have hoff : offset + 1 + min m s.length = offset + min (m + 1) (s.length + 1) := by omega
    rw [hoff]
    rfl

theorem isOpener_cons_iff {b : UInt8} {s : Bytes} :
    isOpener (b :: s) = true ↔ (b = 36 ∨ b = 35) ∧ ∃ t, s = 123 :: t := by
  rcases s with - | ⟨c, s⟩ <;> simp [isOpener]

theorem isOpener_of_contains_eq_false {s : Bytes} (hs : contains s = false) :
    isOpener s = false := by
  match s with
  | [] => rfl
  | [_] => rfl
  | [a, b] => rwa [contains] at hs
  | a :: b :: c :: s =>
    rw [contains] at hs
    split at hs
    · next hesc =>
      obtain ⟨ha, -⟩ := Bool.and_eq_true_iff.mp hesc
      rw [beq_iff_eq.mp ha]
      rfl
    · exact (Bool.or_eq_false_iff.mp hs).1

/-- A text without expressions is one literal without its escapes. -/
theorem scanFrom_of_contains_eq_false {s : Bytes} (hs : contains s = false)
    (offset start : Nat) (y : Bytes) :
    scanFrom offset 0 (some (start, y)) s =
      .ok [⟨y.reverse ++ unescape s, start, .literal⟩] := by
  induction s using contains.induct generalizing offset y with
  | case1 => simp [scanFrom, Pending.segments, unescape]
  | case2 b => simp [scanFrom, Pending.segments, unescape, isOpener, Pending.add]
  | case3 a b =>
    rw [contains] at hs
    rw [scanFrom, hs]
    simp [scanFrom, Pending.segments, unescape, isOpener, Pending.add]
  | case4 a b c s hesc ih =>
    rw [contains, if_pos hesc] at hs
    obtain ⟨ha, hopen⟩ := Bool.and_eq_true_iff.mp hesc
    obtain ⟨hb, t, ht⟩ := isOpener_cons_iff.mp hopen
    obtain ⟨rfl, rfl⟩ := List.cons.inj ht
    rw [scanFrom, if_pos hesc, scanFrom_skip, List.drop_succ_cons, List.drop_succ_cons,
      List.drop_zero, Pending.add, ih hs, unescape, if_pos hesc]
    rcases hb with rfl | rfl <;> simp [unescape]
  | case5 a b c s hesc ih =>
    rw [contains, if_neg hesc, Bool.or_eq_false_iff] at hs
    have hunescape : unescape (a :: b :: c :: s) = a :: unescape (b :: c :: s) := by
      rw [unescape, if_neg hesc]
    rw [scanFrom, if_neg hesc, hs.1, if_neg Bool.false_ne_true, Pending.add, ih hs.2, hunescape]
    simp

theorem scan_of_contains_eq_false {s : Bytes} (hs : contains s = false) :
    scan s = .ok (if s = [] then [] else [⟨unescape s, 0, .literal⟩]) := by
  by_cases hnil : s = []
  · rw [hnil]
    rfl
  · rw [scan, scanFrom_none hnil (isOpener_of_contains_eq_false hs),
      scanFrom_of_contains_eq_false hs, if_neg hnil]
    rfl

end Expression

namespace Parsing

namespace Native

/-! ### Pieces of template text -/

/-- Well-formed text in which no construct but an expression starts, and nothing is escaped but
expressions. -/
structure IsProse (s : Bytes) : Prop where
  isValid : Utf8.isValid s = true
  noTag : 60 ∉ s
  noEnd : ¬ "%\\>" <:+: s

theorem IsProse.of_append {u t : Bytes} (h : IsProse (u ++ t)) (ht : Utf8.isValid t = true) :
    IsProse t :=
  ⟨ht, fun hm => h.noTag (List.mem_append_right u hm),
    fun hi => h.noEnd (hi.trans (List.suffix_append u t).isInfix)⟩

theorem IsProse.tail {b : UInt8} (hb : b.toNat < 0x80) {s : Bytes} (h : IsProse (b :: s)) :
    IsProse s :=
  IsProse.of_append (u := [b]) h (Utf8.isValid_of_cons_ascii hb h.isValid)

/-- An expression of the text is passed as a whole. -/
theorem IsProse.drop {s : Bytes} (h : IsProse s) {n : Nat}
    (hn : (s.take n).getLast? = some 125) : IsProse (s.drop n) := by
  obtain ⟨u, hu⟩ := List.getLast?_eq_some_iff.mp hn
  have hs : s = u ++ 125 :: s.drop n := by
    rw [← List.singleton_append, ← List.append_assoc, ← hu, List.take_append_drop]
  have hvalid : Utf8.isValid (u ++ 125 :: s.drop n) = true := hs ▸ h.isValid
  have hend := ((Utf8.isValid_append_ascii (by decide)).mp hvalid).2
  exact IsProse.tail (by decide) (IsProse.of_append (hs ▸ h) hend)

theorem IsProse.startsEscape_eq {s : Bytes} (h : IsProse s) :
    startsEscape true s = (s.head? == some 92 && Expression.isOpener s.tail) := by
  have h1 : s.startsWith "<\\%" = false := by
    rw [Bool.eq_false_iff, ne_eq, Bytes.startsWith_iff]
    exact fun hp => h.noTag (hp.subset (by decide))
  have h2 : s.startsWith "%\\>" = false := by
    rw [Bool.eq_false_iff, ne_eq, Bytes.startsWith_iff]
    exact fun hp => h.noEnd hp.isInfix
  rw [startsEscape, h1, h2]
  simp

theorem IsProse.stopsText_iff {s : Bytes} (h : IsProse s) :
    stopsText true s = true ↔ Expression.EndsLiteral s := by
  rcases s with - | ⟨b, s⟩
  · simp [stopsText, Expression.EndsLiteral]
  have hb : b ≠ 60 := fun hb => h.noTag (hb ▸ List.mem_cons_self)
  simp [stopsText, hb, Expression.EndsLiteral]

/-- A character that neither opens nor escapes an expression is literal. -/
theorem scanFrom_encode {c : Nat} {t : Bytes}
    (hopen : Expression.isOpener (Utf8.encode c ++ t) = false)
    (hesc : startsEscape true (Utf8.encode c ++ t) = false) (offset start : Nat) (y : Bytes) :
    Expression.scanFrom offset 0 (some (start, y)) (Utf8.encode c ++ t) =
      Expression.scanFrom (offset + (Utf8.encode c).length) 0
        (some (start, (Utf8.encode c).reverse ++ y)) t := by
  by_cases hc : c < 0x80
  · rw [Utf8.encode_one hc, List.singleton_append] at hopen hesc ⊢
    have hb : (c.toUInt8 == 92 && Expression.isOpener t) = false := by
      rw [startsEscape, Bool.or_eq_false_iff] at hesc
      simpa using hesc.2
    rw [Expression.scanFrom, hb, hopen]
    rfl
  · have hascii : ∀ b ∈ ("$#\\" : Bytes), b.toNat < 0x80 := by decide
    have hlacks : (Utf8.encode c).Lacks "$#\\" := fun b hb hmem =>
      Nat.not_lt.mpr (Utf8.le_of_mem_encode (Nat.not_lt.mp hc) hmem) (hascii b hb)
    exact Expression.scanFrom_started hlacks offset start y t

/-- What a piece of template text takes, and what it leaves. -/
structure TakesPiece (s x : Bytes) (k : Nat) : Prop where
  le : k ≤ s.length
  prose : IsProse (s.drop k)
  ends : Expression.EndsLiteral (s.drop k)
  literal : ∀ offset start y,
    Expression.scanFrom offset 0 (some (start, y)) s =
      Expression.scanFrom (offset + k) 0 (some (start, x.reverse ++ y)) (s.drop k)

theorem TakesPiece.of_stop {s : Bytes} (h : IsProse s) (hs : Expression.EndsLiteral s) :
    TakesPiece s [] 0 where
  le := Nat.zero_le _
  prose := h
  ends := hs
  literal _ _ _ := rfl

/-- A part `u` of the literal that stands for `v`, before the rest of the piece. -/
theorem TakesPiece.prepend {u v t x : Bytes} {k : Nat} (h : TakesPiece t x k)
    (hu : ∀ offset start y, Expression.scanFrom offset 0 (some (start, y)) (u ++ t) =
      Expression.scanFrom (offset + u.length) 0 (some (start, v.reverse ++ y)) t) :
    TakesPiece (u ++ t) (v ++ x) (u.length + k) where
  le := by
    rw [List.length_append]
    exact Nat.add_le_add_left h.le _
  prose := by
    rw [List.drop_length_add_append]
    exact h.prose
  ends := by
    rw [List.drop_length_add_append]
    exact h.ends
  literal offset start y := by
    rw [hu, h.literal, List.drop_length_add_append, List.reverse_append, List.append_assoc,
      Nat.add_assoc]

/-- A piece that starts no expression is the first segment. -/
theorem TakesPiece.segments {s x : Bytes} {k : Nat} (h : TakesPiece s x k) (hs : s ≠ [])
    (hopen : Expression.isOpener s = false) (offset : Nat) :
    Expression.scanFrom offset 0 none s =
      (Expression.scanFrom (offset + k) 0 none (s.drop k)).map (⟨x, offset, .literal⟩ :: ·) := by
  rw [Expression.scanFrom_none hs hopen, h.literal, Expression.scanFrom_endsLiteral h.ends]
  simp [Expression.Pending.segments]

/-- An escaped opener stands for itself. -/
theorem scanText_escaped {m : UInt8} {t : Bytes} (ho : Expression.isOpener (m :: 123 :: t) = true)
    (first : Bool) :
    scanText true 0 first (92 :: m :: 123 :: t) =
      ([m, 123] ++ (scanText true 0 false t).1, 3 + (scanText true 0 false t).2) := by
  have hstop : Expression.isOpener (92 :: m :: 123 :: t) = false := by
    rw [Bool.eq_false_iff, ne_eq, Expression.isOpener_cons_iff]
    simp
  have h1 : Bytes.startsWith (92 :: m :: 123 :: t) "<\\%" = false := rfl
  have h2 : Bytes.startsWith (92 :: m :: 123 :: t) "%\\>" = false := rfl
  rw [scanText, hstop, h1, h2, ho]
  simp only [Bool.and_false, Bool.or_false, Bool.false_eq_true, if_false, Bool.and_true,
    beq_self_eq_true, if_true]
  rw [scanText_skip]
  simp
  omega

/-- A piece of template text belongs to one literal, which ends with the piece. -/
theorem takesPiece_scanText {s : Bytes} (h : IsProse s) (first : Bool)
    (hfirst : first = true → Expression.isOpener s = false) :
    TakesPiece s (scanText true 0 first s).1 (scanText true 0 first s).2 := by
  induction hn : s.length using Nat.strongRecOn generalizing s first with
  | _ n ih =>
  by_cases hstop : first = false ∧ Expression.EndsLiteral s
  · obtain ⟨rfl, hends⟩ := hstop
    rw [scanText_stop (h.stopsText_iff.mpr hends)]
    exact .of_stop h hends
  rcases s with - | ⟨b, s⟩
  · exact .of_stop h (.inl rfl)
  have hopen : Expression.isOpener (b :: s) = false := by
    cases first
    · rw [Bool.eq_false_iff]
      exact fun ho => hstop ⟨rfl, .inr ho⟩
    · exact hfirst rfl
  by_cases hesc : b = 92 ∧ Expression.isOpener s = true
  · obtain ⟨rfl, ho⟩ := hesc
    obtain ⟨m, t, rfl⟩ : ∃ m t, s = m :: 123 :: t := by
      rcases s with - | ⟨m, s⟩
      · cases ho
      · obtain ⟨-, t, rfl⟩ := Expression.isOpener_cons_iff.mp ho
        exact ⟨m, t, rfl⟩
    have hm : m.toNat < 0x80 := by
      rcases (Expression.isOpener_cons_iff.mp ho).1 with rfl | rfl <;> decide
    have hrec := ih t.length (by simp at hn; omega)
      (((h.tail (by decide)).tail hm).tail (by decide)) false (fun hf => by cases hf) rfl
    rw [scanText_escaped ho]
    refine hrec.prepend (u := [92, m, 123]) fun offset start y => ?_
    show Expression.scanFrom offset 0 (some (start, y)) (92 :: m :: 123 :: t) = _
    rw [Expression.scanFrom, ho, Expression.scanFrom_skip]
    simp [Expression.Pending.add]
  · rcases Utf8.charAt_cases b s with hbroken | ⟨c, r, t, hc, rfl, he, -⟩
    · have hv := h.isValid
      simp [Utf8.isValid, Utf8.pieces_cons, hbroken, Utf8.isBroken] at hv
    have hsplit : b :: (r ++ t) = Utf8.encode c ++ t := by rw [he, List.cons_append]
    have hescape : startsEscape true (b :: (r ++ t)) = false := by
      rw [h.startsEscape_eq, Bool.eq_false_iff]
      simpa using hesc
    have hends : ¬Expression.EndsLiteral (b :: (r ++ t)) := by
      simp [Expression.EndsLiteral, hopen]
    have hgo : first = true ∨ stopsText true (b :: (r ++ t)) = false :=
      .inr (Bool.eq_false_iff.mpr (mt h.stopsText_iff.mp hends))
    rw [hsplit] at h hopen hgo hescape ⊢
    have hvalid : Utf8.isValid t = true := by
      have hv := h.isValid
      rw [Utf8.isValid, Utf8.pieces_encode_append hc, List.all_cons, Bool.and_eq_true] at hv
      exact hv.2
    have hrec := ih t.length (by rw [← hn, hsplit, List.length_append, he]; simp)
      (h.of_append hvalid) false (fun hf => by cases hf) rfl
    rw [scanText_char hc hgo hescape]
    exact hrec.prepend (scanFrom_encode hopen hescape)

end Native

/-! ### Nodes -/

variable {σ τ : Type}

/-- The siblings after the segments of a text that starts at `p`, if it could be split. -/
def splitNodes (uriOf : Bytes → Bytes) (text : Bytes) (p : Position) (scriptless : Bool)
    (siblings : List Node) : Except Expression.Error (List Expression.Segment) →
      Parse σ (List Node)
  | .error e =>
    refuse .unterminated (p.advance (text.take e.offset)) ("unterminated expression: " ++ e.text)
  | .ok segs => segmentNodes uriOf text p scriptless siblings segs

/-- A text with expressions is split, also where it holds none. -/
theorem textNodes_eq_splitNodes (uriOf : Bytes → Bytes) (text : Bytes) (p : Position)
    (scriptless : Bool) (siblings : List Node) {s : State σ} (hel : s.elIgnored = false) :
    textNodes uriOf siblings text p scriptless true s =
      splitNodes uriOf text p scriptless siblings (Expression.scan text) s := by
  by_cases hnil : text = []
  · subst hnil
    rfl
  have hrun : textNodes uriOf siblings text p scriptless true s =
      (if !Expression.contains text then
        (pure (Node.push siblings (textNode (Expression.unescape text) p scriptless)) :
          Parse σ (List Node))
      else splitNodes uriOf text p scriptless siblings (Expression.scan text)) s := by
    rw [textNodes, if_neg (by simpa using hnil), bind_get, hel]
    simp only [Bool.not_false, Bool.and_self, Bool.not_true, Bool.false_eq_true, if_false]
    split
    · rfl
    · cases Expression.scan text <;> rfl
  rw [hrun]
  cases hc : Expression.contains text with
  | true => rfl
  | false =>
    have hp : p.advance (text.take 0) = p := by
      simp [Position.advance, LineCol.advance]
    rw [Expression.scan_of_contains_eq_false hc, if_neg hnil, splitNodes, segmentNodes, hp]
    rfl

theorem textNodes_runsTo_iff (uriOf : Bytes → Bytes) (text : Bytes) (p : Position)
    (scriptless : Bool) (siblings : List Node) {s : State σ} (hel : s.elIgnored = false)
    (a : List Node) :
    RunsTo (textNodes uriOf siblings text p scriptless true) s a ↔
      RunsTo (splitNodes uriOf text p scriptless siblings (Expression.scan text)) s a := by
  rw [RunsTo, textNodes_eq_splitNodes uriOf text p scriptless siblings hel]
  rfl

/-- The node of an expression that was read. -/
def expressionNode (uriOf : Bytes → Bytes) (source : Bytes) (e : Expression) (p : Position)
    (scriptless : Bool) : Node :=
  .leaf {
    kind := .elExpression, start := p, text := source, el := some (e.bind uriOf),
    inScriptless := scriptless }

theorem elNode_of_ok (uriOf : Bytes → Bytes) {source : Bytes} (p : Position) (scriptless : Bool)
    (s : State σ) {e : Expression} (h : Expression.ofText source = .ok e) :
    elNode uriOf source p scriptless s = .ok (expressionNode uriOf source e p scriptless) s := by
  rw [elNode, h]
  rfl

theorem elNode_of_error (uriOf : Bytes → Bytes) {source : Bytes} (p : Position)
    (scriptless : Bool) (s : State σ) {e : Expression.Error}
    (h : Expression.ofText source = .error e) :
    elNode uriOf source p scriptless s =
      .error (.at .invalidExpression p ("invalid expression " ++ source ++ ": " ++ e.text)) s := by
  rw [elNode, h]
  rfl

section

variable {uriOf : Bytes → Bytes} {text source : Bytes} {p : Position} {scriptless : Bool}
  {siblings : List Node} {offset : Nat} {s : State σ} {a : List Node}

/-- The first segment is a literal. -/
theorem splitNodes_literal (segs : Except Expression.Error (List Expression.Segment)) :
    RunsTo (splitNodes uriOf text p scriptless siblings
        (segs.map (⟨source, offset, .literal⟩ :: ·))) s a ↔
      RunsTo (splitNodes uriOf text p scriptless
        (Node.push siblings (textNode source (p.advance (text.take offset)) scriptless)) segs)
        s a := by
  cases segs with
  | error e => exact ⟨fun ⟨_, h⟩ => (by cases h), fun ⟨_, h⟩ => (by cases h)⟩
  | ok segs => rfl

/-- The first segment is an expression that is read. -/
theorem splitNodes_expression {e : Expression}
    (segs : Except Expression.Error (List Expression.Segment))
    (he : Expression.ofText source = .ok e) :
    RunsTo (splitNodes uriOf text p scriptless siblings
        (segs.map (Expression.segmentOf source offset :: ·))) s a ↔
      RunsTo (splitNodes uriOf text p scriptless (Node.push siblings
        (expressionNode uriOf source e (p.advance (text.take offset)) scriptless)) segs) s a := by
  cases segs with
  | error e => exact ⟨fun ⟨_, h⟩ => (by cases h), fun ⟨_, h⟩ => (by cases h)⟩
  | ok segs =>
    show RunsTo (segmentNodes _ _ _ _ _ (Expression.segmentOf source offset :: segs)) s a ↔ _
    rw [segmentNodes, Expression.isExpression_segmentOf, if_pos rfl]
    exact runsTo_bind_of_ok (elNode_of_ok uriOf _ scriptless s he)

/-- The first segment is an expression that is refused. -/
theorem not_splitNodes_expression {e : Expression.Error}
    (segs : Except Expression.Error (List Expression.Segment))
    (he : Expression.ofText source = .error e) :
    ¬RunsTo (splitNodes uriOf text p scriptless siblings
        (segs.map (Expression.segmentOf source offset :: ·))) s a := by
  cases segs with
  | error e => exact fun ⟨_, h⟩ => (by cases h)
  | ok segs =>
    show ¬RunsTo (segmentNodes _ _ _ _ _ (Expression.segmentOf source offset :: segs)) s a
    rw [segmentNodes, Expression.isExpression_segmentOf, if_pos rfl]
    exact not_runsTo_of_error (bind_error (elNode_of_error uriOf _ scriptless s he))

end

/-- The state with the cursor some bytes on. -/
def State.skipping (s : State σ) (k : Nat) : State σ := { s with cursor := s.cursor.skip k }

namespace Native

theorem templateText_run (scriptless : Bool) (siblings : List Node) {s : State σ}
    (hel : s.elIgnored = false) :
    templateText scriptless siblings s =
      .ok (Node.push siblings
          (textNode (scanText true 0 true s.cursor.rest).1 s.cursor.position scriptless))
        (s.skipping (scanText true 0 true s.cursor.rest).2) := by
  rw [templateText, bind_get, hel]
  rfl

/-- Where no markup starts, an expression or template text is read. -/
theorem construct_of_noTag (env : Env σ) (included : Include σ) (inner : Element σ)
    (parent : Head) (scriptless : Bool) (siblings : List Node) {s : State σ}
    (hel : s.elIgnored = false) (hrest : 60 ∉ s.cursor.rest) :
    construct env included inner parent scriptless siblings s =
      if Expression.isOpener s.cursor.rest then expression scriptless siblings s
      else templateText scriptless siblings s := by
  have hsees : ∀ lit : Bytes, 60 ∈ lit → s.cursor.sees lit = false := by
    intro lit hlit
    rw [Cursor.sees, Bool.eq_false_iff, ne_eq, Bytes.startsWith_iff]
    exact fun hp => hrest (hp.subset hlit)
  rw [construct_eq, hel]
  dsimp only
  rw [hsees "<%--" (by decide), hsees "<%@" (by decide), hsees "<%!" (by decide),
    hsees "<%=" (by decide), hsees "<%" (by decide), hsees "<jsp:" (by decide),
    hsees "</" (by decide), hsees "<" (by decide)]
  simp only [Bool.false_eq_true, if_false, Bool.not_false, Bool.true_and, Bool.false_and]

end Native

end Parsing

namespace Cursor

/-- The position where the current source starts. -/
def sourceStart (c : Cursor) : Position :=
  { file := c.place.source.name, line := 1, col := 1, offset := 0, includedFrom := c.includedFrom }

theorem isSound_of_isExact {c : Cursor} (h : c.place.IsExact True) : c.IsSound := by
  rw [IsSound, h.rest, List.length_drop]
  have := h.offset
  omega

/-- An exact cursor is where the text before it leads. -/
theorem position_eq {c : Cursor} (h : c.place.IsExact True) :
    c.position = c.sourceStart.advance (c.place.source.data.take c.place.offset) := by
  have hat : LineCol.advance ⟨1, 1⟩ (c.place.source.data.take c.place.offset) =
      ⟨c.place.line, c.place.col⟩ := by
    rw [LineCol.advance_take, ← h.line, ← h.col trivial]
  simp [position, sourceStart, Position.advance, hat, h.offset]

end Cursor

namespace Parsing.Native

variable {σ τ : Type}

/-- A source of prose is read into the nodes of its segments. -/
theorem sourceWithin_runsTo_iff (env : Env σ) (included : Include σ) (inner : Element σ)
    (parent : Head) (scriptless : Bool) (b : State τ) (a : List Node) (fuel : Nat)
    (siblings : List Node) {s : State σ} (hs : s.cursor.place.IsExact True)
    (hel : s.elIgnored = false) (hrest : IsProse s.cursor.rest)
    (hfuel : s.cursor.rest.length < fuel) :
    RunsTo (sourceWithin (construct env included inner) parent scriptless fuel siblings) s a ↔
      RunsTo (splitNodes s.uriOf s.cursor.place.source.data s.cursor.sourceStart scriptless siblings
        (Expression.scanFrom s.cursor.place.offset 0 none s.cursor.rest)) b a := by
  induction fuel generalizing s siblings with
  | zero => omega
  | succ fuel ih =>
  have hsound : s.cursor.IsSound := Cursor.isSound_of_isExact hs
  rw [sourceWithin, runsTo_bind_of_ok (cursor_eq s)]
  by_cases hnil : s.cursor.rest = []
  · rw [if_pos (hsound.atEnd_iff.mpr hnil), hnil]
    exact (runsTo_of_ok rfl).trans (runsTo_of_ok rfl).symm
  rw [if_neg (mt hsound.atEnd_iff.mp hnil)]
  have hconstruct := construct_of_noTag env included inner parent scriptless siblings hel
    hrest.noTag
  have hposition := Cursor.position_eq hs
  -- What is passed up to a cut leaves the rest of the source to be read.
  have hpass : ∀ k : Nat, 0 < k → Utf8.IsCut (s.cursor.rest.take k) (s.cursor.rest.drop k) →
      IsProse (s.cursor.rest.drop k) → ∀ siblings,
      (RunsTo (sourceWithin (construct env included inner) parent scriptless fuel siblings)
          (s.skipping k) a ↔
        RunsTo (splitNodes s.uriOf s.cursor.place.source.data s.cursor.sourceStart scriptless
          siblings (Expression.scanFrom (s.cursor.place.offset + min k s.cursor.rest.length) 0 none
            (s.cursor.rest.drop k))) b a) := by
    intro k hpos hcut hprose siblings
    have hlen := List.length_pos_iff.mpr hnil
    have h := ih siblings (s := s.skipping k)
      ((Cursor.leadsTo_skip fun _ => hcut).exact hs) hel
      (by rw [State.skipping, Cursor.rest_skip]; exact hprose)
      (by rw [State.skipping, Cursor.rest_skip, List.length_drop]; omega)
    rw [State.skipping, Cursor.rest_skip, Cursor.offset_skip] at h
    exact h
  by_cases hopen : Expression.isOpener s.cursor.rest = true
  · rw [if_pos hopen] at hconstruct
    rw [Expression.scanFrom_opener hopen]
    cases hn : Expression.length? s.cursor.rest with
    | none =>
      have hrun : expression scriptless siblings s = (refuse .unterminated s.cursor.position
          ("unterminated " ++ s.cursor.rest.take 2) : Parse σ (List Node)) s := by
        rw [expression, bind_get, hn]
      exact iff_of_false (not_runsTo_of_error (bind_error (hconstruct.trans hrun)))
        (not_runsTo_of_error (e := .at .unterminated _ _) rfl)
    | some n =>
      have hrun : expression scriptless siblings s = (do
          let e ← elNode s.uriOf (s.cursor.rest.take n) s.cursor.position scriptless
          moveTo (s.cursor.skip n)
          return Node.push siblings e : Parse σ (List Node)) s := by
        rw [expression, bind_get, hn]
      have hlast := Expression.getLast?_of_length? hn
      dsimp only
      cases he : Expression.ofText (s.cursor.rest.take n) with
      | error e =>
        have helNode := elNode_of_error s.uriOf s.cursor.position scriptless s he
        rw [bind_error helNode] at hrun
        exact iff_of_false (not_runsTo_of_error (bind_error (hconstruct.trans hrun)))
          (not_splitNodes_expression _ he)
      | ok e =>
        have helNode := elNode_of_ok s.uriOf s.cursor.position scriptless s he
        rw [bind_ok helNode] at hrun
        have hpos : 0 < n := Nat.pos_of_ne_zero fun h0 => by simp [h0] at hlast
        have hcut : Utf8.IsCut (s.cursor.rest.take n) (s.cursor.rest.drop n) := by
          refine .of_getLast? ?_ _
          rw [hlast]
          rintro _ ⟨⟩
          decide
        have hmove : construct env included inner parent scriptless siblings s =
            .ok (Node.push siblings (expressionNode s.uriOf (s.cursor.rest.take n) e
              s.cursor.position scriptless)) (s.skipping n) := hconstruct.trans hrun
        rw [runsTo_bind_of_ok hmove, hpass n hpos hcut (hrest.drop hlast),
          splitNodes_expression _ he, ← hposition]
  · have hopen : Expression.isOpener s.cursor.rest = false := by simpa using hopen
    rw [if_neg (by simp [hopen])] at hconstruct
    have hpiece := takesPiece_scanText hrest true fun _ => hopen
    obtain ⟨c, r, hcr⟩ := List.exists_cons_of_ne_nil hnil
    have hpos : 0 < (scanText true 0 true s.cursor.rest).2 := hcr ▸ scanText_pos true c r
    rw [runsTo_bind_of_ok (hconstruct.trans (templateText_run scriptless siblings hel)),
      hpass _ hpos (.of_head (head_drop_scanText true 0 true _)) hpiece.prose,
      Nat.min_eq_left hpiece.le, hpiece.segments hnil hopen, hposition, ← splitNodes_literal]

/-- A source of prose is read into the nodes of its text. -/
theorem parse_runsTo_iff (env : Env σ) (included : Include σ) (parent : Head) (scriptless : Bool)
    {s : State σ} {b : State τ} (hdir : env.directivesOnly = false) (hel : s.elIgnored = false)
    (hb : b.elIgnored = false) {name text : Bytes} (hs : s.cursor = Cursor.ofText name text)
    (htext : IsProse text) (a : List Node) :
    RunsTo (parse env included parent scriptless) s a ↔
      RunsTo (textNodes s.uriOf [] text (Cursor.ofText name text).position scriptless true)
        b a := by
  have hrest : s.cursor.rest = text := by rw [hs]; rfl
  have hparse : parse env included parent scriptless s =
      sourceWithin (construct env included (element env included text.length)) parent scriptless
        (text.length + 1) [] s := by
    rw [parse, bind_ok (cursor_eq s), hdir, hrest]
    rfl
  have hsource := sourceWithin_runsTo_iff env included (element env included text.length) parent
    scriptless b a (text.length + 1) []
    (by rw [hs]; exact Place.isExact_start True ⟨0, name, text⟩) hel (hrest ▸ htext)
    (by rw [hrest]; exact Nat.lt_succ_self _)
  rw [RunsTo, hparse, textNodes_runsTo_iff _ _ _ _ _ hb]
  rw [hrest, hs] at hsource
  exact hsource

end Parsing.Native

/-! ### What the nodes show -/

namespace Node

/-- A leaf by its kind, its text and its place alone. -/
def bare (n : Node) : Node := .leaf { kind := n.kind, start := n.start, text := n.text }

theorem isContinuedBy_bare {m n : Node} (h : m.head.inScriptless = n.head.inScriptless) :
    m.bare.isContinuedBy n.bare = m.isContinuedBy n := by
  have hstart : m.bare.start = m.start ∧ n.bare.start = n.start := ⟨rfl, rfl⟩
  have htext : m.bare.text = m.text := rfl
  have hscriptless : m.bare.head.inScriptless = n.bare.head.inScriptless := rfl
  simp only [isContinuedBy, hstart, htext, hscriptless, h, beq_self_eq_true]

/-- What a sibling is added to shows what is added. -/
theorem map_bare_push {siblings : List Node} {n : Node}
    (h : ∀ m ∈ siblings, m.head.inScriptless = n.head.inScriptless) :
    (push siblings n).map bare = push (siblings.map bare) n.bare := by
  rcases List.eq_nil_or_concat siblings with rfl | ⟨ms, m, rfl⟩
  · rfl
  rw [List.concat_eq_append] at h ⊢
  have hm := isContinuedBy_bare (h m (by simp))
  have hkinds : n.bare.kind = n.kind ∧ m.bare.kind = m.kind := ⟨rfl, rfl⟩
  simp only [push, List.getLast?_append, List.getLast?_singleton, Option.some_or, List.map_append,
    List.map_cons, List.map_nil, hm, hkinds]
  split
  · simp only [List.dropLast_concat, List.map_append, List.map_cons, List.map_nil]
    rfl
  · simp

theorem inScriptless_push {scriptless : Bool} {siblings : List Node} {n : Node}
    (h : ∀ m ∈ siblings, m.head.inScriptless = scriptless) (hn : n.head.inScriptless = scriptless) :
    ∀ m ∈ push siblings n, m.head.inScriptless = scriptless :=
  forall_mem_push h hn fun _ _ hm => hm

/-- What stands before a sibling that is no text is left alone. -/
theorem push_append {before : List Node} (h : ∀ m ∈ before.getLast?, m.kind ≠ .text)
    (siblings : List Node) (n : Node) :
    push (before ++ siblings) n = before ++ push siblings n := by
  rcases List.eq_nil_or_concat siblings with rfl | ⟨ms, m, rfl⟩
  · rw [List.append_nil, push, push]
    cases hlast : before.getLast? with
    | none =>
      rw [List.getLast?_eq_none_iff.mp hlast]
      rfl
    | some last =>
      have hk := h last hlast
      simp [hk]
  · rw [List.concat_eq_append, ← List.append_assoc, push, push]
    simp only [List.getLast?_append, List.getLast?_singleton, Option.some_or]
    split
    · rw [List.dropLast_concat, List.dropLast_concat, List.append_assoc]
    · rw [List.append_assoc, List.append_assoc, List.append_assoc]

end Node

namespace Parsing

variable {σ τ : Type}

/-- What the node of a segment shows, the text that was split starting at `p`. -/
def bareSegment (text : Bytes) (p : Position) (seg : Expression.Segment) : Node :=
  .leaf {
    kind := if seg.isExpression then .elExpression else .text
    start := p.advance (text.take seg.offset), text := seg.text }

/-- The expressions among the segments follow the grammar. -/
def AllReadable (segs : List Expression.Segment) : Prop :=
  ∀ seg ∈ segs, seg.isExpression = true → ∃ e, Expression.ofText seg.text = .ok e

/-- The node of a segment. -/
def segmentNode (uriOf : Bytes → Bytes) (text : Bytes) (p : Position) (scriptless : Bool)
    (seg : Expression.Segment) : Parse σ Node :=
  if seg.isExpression then elNode uriOf seg.text (p.advance (text.take seg.offset)) scriptless
  else pure (textNode seg.text (p.advance (text.take seg.offset)) scriptless)

theorem segmentNodes_cons (uriOf : Bytes → Bytes) (text : Bytes) (p : Position) (scriptless : Bool)
    (siblings : List Node) (seg : Expression.Segment) (segs : List Expression.Segment) :
    (segmentNodes uriOf text p scriptless siblings (seg :: segs) : Parse σ (List Node)) =
      segmentNode uriOf text p scriptless seg >>= fun n =>
        segmentNodes uriOf text p scriptless (Node.push siblings n) segs := by
  rw [segmentNodes, segmentNode]
  split <;> rfl

theorem segmentNode_shows (uriOf : Bytes → Bytes) (text : Bytes) (p : Position)
    (scriptless : Bool) {seg : Expression.Segment}
    (h : seg.isExpression = true → ∃ e, Expression.ofText seg.text = .ok e) (s : State σ) :
    ∃ n, segmentNode uriOf text p scriptless seg s = .ok n s ∧
      n.head.inScriptless = scriptless ∧ n.bare = bareSegment text p seg := by
  rw [segmentNode, bareSegment]
  cases hkind : seg.isExpression with
  | true =>
    obtain ⟨e, he⟩ := h hkind
    exact ⟨_, elNode_of_ok uriOf _ scriptless s he, rfl, rfl⟩
  | false => exact ⟨_, rfl, rfl, rfl⟩

/-- The nodes of segments are pushed one after the other; what they show does not depend on the
prefixes that are bound, on where code may stand, or on what stands before. -/
theorem segmentNodes_shows (uriOf : Bytes → Bytes) (text : Bytes) (p : Position)
    (scriptless : Bool) {before : List Node} (h : ∀ m ∈ before.getLast?, m.kind ≠ .text)
    (siblings : List Node) (hsiblings : ∀ m ∈ siblings, m.head.inScriptless = scriptless)
    {segs : List Expression.Segment} (hsegs : AllReadable segs) (s : State σ) :
    ∃ nodes, RunsTo (segmentNodes uriOf text p scriptless (before ++ siblings) segs) s
        (before ++ nodes) ∧
      nodes.map Node.bare =
        (segs.map (bareSegment text p)).foldl Node.push (siblings.map Node.bare) := by
  induction segs generalizing siblings with
  | nil => exact ⟨siblings, ⟨s, rfl⟩, rfl⟩
  | cons seg segs ih =>
    obtain ⟨n, hn, hscriptless, hbare⟩ :=
      segmentNode_shows uriOf text p scriptless (hsegs seg List.mem_cons_self) s
    obtain ⟨nodes, hrun, hnodes⟩ := ih (Node.push siblings n)
      (Node.inScriptless_push hsiblings hscriptless)
      (fun t ht => hsegs t (List.mem_cons_of_mem seg ht))
    refine ⟨nodes, ?_, ?_⟩
    · rw [segmentNodes_cons, runsTo_bind_of_ok hn, Node.push_append h]
      exact hrun
    · rw [hnodes, Node.map_bare_push fun m hm => (hsiblings m hm).trans hscriptless.symm, hbare]
      rfl

/-- Segments with an expression that does not follow the grammar are refused. -/
theorem not_segmentNodes (uriOf : Bytes → Bytes) (text : Bytes) (p : Position) (scriptless : Bool)
    {siblings : List Node} {segs : List Expression.Segment} (hsegs : ¬AllReadable segs)
    (s : State σ) (a : List Node) :
    ¬RunsTo (segmentNodes uriOf text p scriptless siblings segs) s a := by
  induction segs generalizing siblings with
  | nil => exact absurd (fun seg hseg => by cases hseg) hsegs
  | cons seg segs ih =>
    rw [segmentNodes]
    cases hkind : seg.isExpression with
    | false =>
      exact ih fun hmore =>
        hsegs (List.forall_mem_cons.mpr ⟨fun hk => by simp [hkind] at hk, hmore⟩)
    | true =>
      cases he : Expression.ofText seg.text with
      | error e =>
        exact not_runsTo_of_error (bind_error (elNode_of_error uriOf _ scriptless s he))
      | ok e =>
        rw [if_pos rfl, runsTo_bind_of_ok (elNode_of_ok uriOf _ scriptless s he)]
        exact ih fun hmore => hsegs (List.forall_mem_cons.mpr ⟨fun _ => ⟨e, he⟩, hmore⟩)

/-- The text is split in segments whose expressions follow the grammar. -/
def IsReadable (text : Bytes) (segs : List Expression.Segment) : Prop :=
  Expression.scan text = .ok segs ∧ AllReadable segs

/-- A text with expressions is read if it is readable, and its nodes show its segments. -/
theorem textNodes_shows (uriOf : Bytes → Bytes) (text : Bytes) (p : Position) (scriptless : Bool)
    (before : List Node) (h : ∀ m ∈ before.getLast?, m.kind ≠ .text) {s : State σ}
    (hel : s.elIgnored = false) {segs : List Expression.Segment} (hsegs : IsReadable text segs) :
    ∃ nodes, RunsTo (textNodes uriOf before text p scriptless true) s (before ++ nodes) ∧
      nodes.map Node.bare = (segs.map (bareSegment text p)).foldl Node.push [] := by
  obtain ⟨nodes, hrun, hnodes⟩ := segmentNodes_shows uriOf text p scriptless h []
    (fun m hm => by cases hm) hsegs.2 s
  rw [List.append_nil] at hrun
  refine ⟨nodes, ?_, hnodes⟩
  rw [textNodes_runsTo_iff _ _ _ _ _ hel, hsegs.1]
  exact hrun

theorem not_textNodes (uriOf : Bytes → Bytes) {text : Bytes} (p : Position) (scriptless : Bool)
    (siblings : List Node) {s : State σ} (hel : s.elIgnored = false)
    (htext : ¬∃ segs, IsReadable text segs) (a : List Node) :
    ¬RunsTo (textNodes uriOf siblings text p scriptless true) s a := by
  rw [textNodes_runsTo_iff _ _ _ _ _ hel]
  cases hscan : Expression.scan text with
  | error e => exact not_runsTo_of_error (e := .at .unterminated _ _) rfl
  | ok segs =>
    exact not_segmentNodes uriOf text p scriptless (fun hsegs => htext ⟨segs, hscan, hsegs⟩) s a

theorem exists_error_of_not_runsTo {ε α : Type} {x : EStateM ε σ α} {s : σ}
    (h : ∀ a, ¬RunsTo x s a) : ∃ e t, x s = .error e t := by
  cases hx : x s with
  | ok a t => exact absurd ⟨t, hx⟩ (h a)
  | error e t => exact ⟨e, t, rfl⟩

end Parsing

/-- What a leaf shows: its kind, its text and where it stands. -/
def Node.shown (n : Node) : Kind × Bytes × Position := (n.kind, n.text, n.start)

theorem Node.map_shown_eq {ms ns : List Node} (h : ms.map bare = ns.map bare) :
    ms.map shown = ns.map shown := by
  have hshown : shown = shown ∘ bare := rfl
  rw [hshown, ← List.map_map, ← List.map_map, h]

/-- **Text is split in one way.** A native page of well-formed text without `<` and without the
escaped end of a construct, read with expressions, is refused exactly if the text of a document
that starts at the same position is. Otherwise both give the same nodes: in order, the same kinds,
texts and places. The text of a document may stand under other prefixes, where code is forbidden,
and after other siblings of which the last is no text. -/
theorem ParseRequest.parse_agrees_textNodes {σ τ : Type} {r : ParseRequest} (host : Host σ)
    (memory : σ) (hform : r.form = .native) (hdir : r.directivesOnly = false)
    (hel : r.elIgnored = false) (hvalid : Utf8.isValid r.text = true) (htag : 60 ∉ r.text)
    (hend : ¬ "%\\>" <:+: r.text) (uriOf : Bytes → Bytes) (scriptless : Bool)
    (before : List Node) (hbefore : ∀ m ∈ before.getLast?, m.kind ≠ .text)
    {s : Parsing.State τ} (hs : s.elIgnored = false) :
    ((∃ e, (r.parse host memory).1 = .error e) ∧
      ∃ e t, Parsing.textNodes uriOf before r.text (Cursor.ofText r.path r.text).position
        scriptless true s = .error e t) ∨
    ∃ tree nodes t, (r.parse host memory).1 = .ok tree ∧
      Parsing.textNodes uriOf before r.text (Cursor.ofText r.path r.text).position
        scriptless true s = .ok (before ++ nodes) t ∧
      tree.children.map Node.shown = nodes.map Node.shown := by
  have hactual : r.actualForm = .native := by rw [ParseRequest.actualForm, hform]
  have hparse := fun a => Parsing.Native.parse_runsTo_iff (r.env host) (r.included host)
    (r.root (Cursor.ofText r.path r.text).position) false (s := r.start memory) (b := s) hdir hel hs
    rfl ⟨hvalid, htag, hend⟩ a
  rw [ParseRequest.parse_native host memory hactual]
  by_cases hread : ∃ segs, Parsing.IsReadable r.text segs
  · obtain ⟨segs, hsegs⟩ := hread
    obtain ⟨own, hown, hbare⟩ := Parsing.textNodes_shows (r.start memory).uriOf r.text
      (Cursor.ofText r.path r.text).position false [] (by simp) hs hsegs
    obtain ⟨nodes, ⟨t, ht⟩, hnodes⟩ := Parsing.textNodes_shows uriOf r.text
      (Cursor.ofText r.path r.text).position scriptless before hbefore hs hsegs
    obtain ⟨u, hu⟩ := (hparse own).mpr hown
    refine .inr ⟨.mk (r.root (Cursor.ofText r.path r.text).position) own, nodes, t, ?_, ht,
      Node.map_shown_eq (hbare.trans hnodes.symm)⟩
    rw [hu]
    rfl
  · refine .inl ⟨?_,
      Parsing.exists_error_of_not_runsTo (Parsing.not_textNodes uriOf _ _ _ hs hread)⟩
    obtain ⟨e, t, he⟩ := Parsing.exists_error_of_not_runsTo fun a ha =>
      Parsing.not_textNodes _ _ _ [] hs hread a ((hparse a).mp ha)
    exact ⟨e, by rw [he]; rfl⟩

/-- A page with an escaped expression, then one with a brace in a string, another one right after
it, and a mark that opens none. -/
def quotedBracePage : ParseRequest where
  path := "/a.jsp"
  text := "\u00e9\\$\x7ba\x7d\n$\x7b'\x7d'\x7d#\x7bx\x7d$"
  form := .native

/-- The texts of the nodes of the page. -/
def quotedBraceTexts : List Bytes :=
  ["\u00e9$\x7ba\x7d\n", "$\x7b'\x7d'\x7d", "#\x7bx\x7d", "$"]

theorem parse_agrees_textNodes_quotedBrace : quotedBracePage.form = .native ∧
    Utf8.isValid quotedBracePage.text = true ∧ 60 ∉ quotedBracePage.text ∧
    ¬ "%\\>" <:+: quotedBracePage.text ∧ ∃ tree nodes t,
      (quotedBracePage.parse ({} : Host Unit) ()).1 = .ok tree ∧
      Parsing.textNodes (fun _ => "urn:f") [] quotedBracePage.text
        (Cursor.ofText quotedBracePage.path quotedBracePage.text).position true true
        (quotedBracePage.start ()) = .ok nodes t ∧
      tree.children.map Node.shown = nodes.map Node.shown ∧
      nodes.map Node.text = quotedBraceTexts := by
  have hvalid : Utf8.isValid quotedBracePage.text = true := by decide +kernel
  have htag : 60 ∉ quotedBracePage.text := by decide +kernel
  have hend : ¬ "%\\>" <:+: quotedBracePage.text := by decide +kernel
  have htexts : (match Parsing.textNodes (fun _ => "urn:f") [] quotedBracePage.text
      (Cursor.ofText quotedBracePage.path quotedBracePage.text).position true true
      (quotedBracePage.start ()) with
    | .ok nodes _ => nodes.map Node.text
    | .error _ _ => []) = quotedBraceTexts := by decide +kernel
  rcases ParseRequest.parse_agrees_textNodes (r := quotedBracePage) ({} : Host Unit) () rfl rfl rfl
    hvalid htag hend (fun _ => "urn:f") true [] (by simp) (s := quotedBracePage.start ())
    rfl with ⟨-, e, t, he⟩ | ⟨tree, nodes, t, hparse, hnodes, hshown⟩
  · rw [he] at htexts
    cases htexts
  · rw [List.nil_append] at hnodes
    refine ⟨rfl, hvalid, htag, hend, tree, nodes, t, hparse, hnodes, hshown, ?_⟩
    rw [hnodes] at htexts
    exact htexts

end ServerPages
