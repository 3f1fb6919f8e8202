import ServerPages.Proofs.AdmittedChildren
import ServerPages.Proofs.NativeConstructs

/-!
# Quoted values

A value is written between quotes with a backslash before every backslash and every quote of the
kind that is around it. Reading it takes two steps that know nothing of each other: the quote that
ends it is found by the parity of the backslashes before it, and what stands between is decoded by
replacing seven escapes at once. After such writing a backslash escapes a backslash or the quote
only, so the other five escapes never come to stand in a value by accident; the two references to
quotes are the only ones that a value may hold itself.

## Main results

* `Parsing.unquote_quoteValue`: decoding takes the backslashes away that writing has added.
* `Parsing.Native.attributeValue_quoteValue`: a value that is written between quotes is read as it
  was, and so is every attribute whose value is not searched for expressions.
-/

namespace ServerPages

/-- The head has a literal attribute of the name and the value. -/
def Head.IsGiven (h : Head) (name v : Bytes) : Prop :=
  ∃ a, h.attr? name = some a ∧ a.kind = .literal ∧ a.value = v

namespace Parsing

variable {σ : Type}

/-- The value as it is written between the quotes `q`: a backslash stands before every backslash and
every quote. -/
def quoteValue (q : UInt8) (v : Bytes) : Bytes :=
  v.flatMap fun b => if b == 92 || b == q then [92, b] else [b]

/-! ### Writing -/

section Writing

variable {q b : UInt8}

theorem quoteValue_escaped (hb : b = 92 ∨ b = q) (v : Bytes) :
    quoteValue q (b :: v) = 92 :: b :: quoteValue q v := by
  rw [quoteValue, List.flatMap_cons, if_pos (by simpa using hb)]
  rfl

theorem quoteValue_plain (hb : b ≠ 92 ∧ b ≠ q) (v : Bytes) :
    quoteValue q (b :: v) = b :: quoteValue q v := by
  rw [quoteValue, List.flatMap_cons, if_neg (by simpa using hb)]
  rfl

/-- What stands where the written value starts, with no backslash and before the byte that follows
the value, stands in the value. -/
theorem prefix_of_prefix_quoteValue {lit v x : Bytes} (hlit : 92 ∉ lit)
    (hx : ∀ c ∈ x.head?, c ∉ lit) (h : lit <+: quoteValue q v ++ x) : lit <+: v := by
  induction lit generalizing v with
  | nil => exact List.nil_prefix
  | cons c lit ih =>
    rcases v with - | ⟨b, v⟩
    · obtain ⟨y, rfl⟩ := h
      exact absurd List.mem_cons_self (hx c rfl)
    by_cases hb : b = 92 ∨ b = q
    · rw [quoteValue_escaped hb] at h
      exact absurd (List.mem_cons.mpr (.inl (List.cons_prefix_cons.mp h).1.symm)) hlit
    · rw [quoteValue_plain (not_or.mp hb)] at h
      obtain ⟨rfl, hrest⟩ := List.cons_prefix_cons.mp h
      exact List.cons_prefix_cons.mpr ⟨rfl, ih (fun hmem => hlit (List.mem_cons_of_mem c hmem))
        (fun d hd hmem => hx d hd (List.mem_cons_of_mem c hmem)) hrest⟩

/-- A backslash stands before a backslash or the quote. -/
theorem quoteValue_eq_backslash {v x : Bytes} {d : UInt8} (h : quoteValue q v = 92 :: d :: x) :
    d = 92 ∨ d = q := by
  rcases v with - | ⟨b, v⟩
  · cases h
  by_cases hb : b = 92 ∨ b = q
  · rw [quoteValue_escaped hb] at h
    obtain ⟨rfl, -⟩ := List.cons.inj (List.cons.inj h).2
    exact hb
  · rw [quoteValue_plain (not_or.mp hb)] at h
    exact absurd (.inl (List.cons.inj h).1) hb

/-- The quote that ends a value is the first one that is not escaped. -/
theorem indexOfUnescaped?_quoteValue (hq : q ≠ 92) (v r : Bytes) :
    Cursor.indexOfUnescaped? [q] 92 false (quoteValue q v ++ q :: r) =
      some (quoteValue q v).length := by
  induction v with
  | nil => simp [quoteValue, Cursor.indexOfUnescaped?]
  | cons b v ih =>
    by_cases hb : b = 92 ∨ b = q
    · rw [quoteValue_escaped hb]
      simp [Cursor.indexOfUnescaped?, List.isPrefixOf, hq, ih]
    · obtain ⟨hback, hquote⟩ := not_or.mp hb
      rw [quoteValue_plain ⟨hback, hquote⟩]
      have hodd : (b == 92) = false := beq_eq_false_iff_ne.mpr hback
      simp [Cursor.indexOfUnescaped?, List.isPrefixOf, hodd, Ne.symm hquote, ih]

/-- **Decoding takes the backslashes away that writing has added**, if the value holds no reference
to a quote. -/
theorem unquote_quoteValue (hq : q = 34 ∨ q = 39) {v : Bytes}
    (hapos : ¬Bytes.ofString "&apos;" <:+: v) (hquot : ¬Bytes.ofString "&quot;" <:+: v) :
    unquote (quoteValue q v) = v := by
  rw [unquote_eq, Bytes.substitute]
  induction v with
  | nil => rfl
  | cons b v ih =>
    have hrest : Bytes.substituteFrom escapes 0 (quoteValue q v) = v :=
      ih (fun h => hapos (h.trans (List.suffix_cons b v).isInfix))
        fun h => hquot (h.trans (List.suffix_cons b v).isInfix)
    by_cases hb : b = 92 ∨ b = q
    · have hmatch : Bytes.matchingRule? escapes (92 :: b :: quoteValue q v) =
          some ([92, b], [b]) := by
        rcases hb with rfl | rfl
        · rfl
        · rcases hq with rfl | rfl <;> rfl
      rw [quoteValue_escaped hb, Bytes.substituteFrom, hmatch]
      exact congrArg (b :: ·) hrest
    · have hback : ∀ d, d ≠ 92 → d ≠ 34 → d ≠ 39 → ¬[92, d] <+: quoteValue q v := by
        rintro d h92 h34 h39 ⟨x, hx⟩
        rcases quoteValue_eq_backslash hx.symm with h | h
        · exact h92 h
        · rcases hq with rfl | rfl
          · exact h34 h
          · exact h39 h
      -- A reference that is written stands in the value, since it has no backslash.
      have href : ∀ {lit : Bytes}, 92 ∉ lit → ¬lit <:+: b :: v → ¬lit <+: b :: quoteValue q v := by
        intro lit hlit hno h
        rw [← quoteValue_plain (not_or.mp hb), ← List.append_nil (quoteValue q (b :: v))] at h
        exact hno (prefix_of_prefix_quoteValue hlit (by rintro _ ⟨⟩) h).isInfix
      rw [quoteValue_plain (not_or.mp hb), Bytes.substituteFrom,
        matchingRule?_eq_none (not_or.mp hb).1 hback (href (by decide) hapos)
          (href (by decide) hquot)]
      exact congrArg (b :: ·) hrest

end Writing

/-! ### Attributes -/

/-- The state after the equals sign and the value between quotes that stand at the cursor. -/
def State.pastValue (s : State σ) (q : UInt8) (v : Bytes) : State σ :=
  (((s.passing [61]).passing [q]).passing (quoteValue q v)).passing [q]

theorem State.rest_pastValue {s : State σ} {q : UInt8} {v r : Bytes}
    (hs : s.cursor.rest = 61 :: q :: (quoteValue q v ++ q :: r)) :
    (s.pastValue q v).cursor.rest = r :=
  rest_passing (v := [q]) (rest_passing (rest_passing (v := [q]) (rest_passing (v := [61]) hs)))

/-- An attribute that is given stays given. -/
theorem returns_isGiven {h : Head} {name v : Bytes} (hgiven : h.IsGiven name v)
    (functionUri : Bytes → Bytes) (uriOf : Option (Bytes → Bytes)) (other raw : Bytes)
    (script : Bool) (p : Position) (scriptless : Bool) :
    Returns (·.IsGiven name v)
      (addAttribute functionUri uriOf h other raw script p scriptless : Parse σ Head) := by
  refine returns_addAttribute_of (fun b => ?_) _ _ _ _ _ _ _
  obtain ⟨a, ha, hkind, hvalue⟩ := hgiven
  refine ⟨a, ?_, hkind, hvalue⟩
  rw [Head.attr?] at ha ⊢
  rw [attributes_applyToNamed, List.find?_append, ha, Option.some_or]

/-- A value that is not searched for expressions is kept as it was read. -/
theorem addAttribute_literal (functionUri : Bytes → Bytes) (uriOf : Option (Bytes → Bytes))
    {h : Head} {name : Bytes} (v : Bytes) (p : Position) (scriptless : Bool) {s : State σ}
    (hname : name ≠ []) (hfresh : h.hasAttr name = false)
    (hliteral : h.kind.isDirective = true ∨ s.elIgnored = true) :
    ∃ h', addAttribute functionUri uriOf h name v false p scriptless s = .ok h' s ∧
      h'.IsGiven name v := by
  have hattribute : ∀ a : Attribute,
      attributeOf functionUri h a v false scriptless s = .ok { a with value := v } s := by
    intro a
    rw [attributeOf, bind_get]
    rcases hliteral with hdirective | hel
    · rw [if_pos hdirective]
      rfl
    · rw [hel]
      split <;> rfl
  have hnone : h.attributes.find? (·.name == name) = none := by
    rwa [Head.hasAttr, Option.isSome_eq_false_iff, Option.isNone_iff_eq_none] at hfresh
  rw [addAttribute, if_neg (by simpa using hname),
    if_neg (by rw [hfresh]; exact Bool.false_ne_true)]
  let a : Attribute := {
    name := name, localName := (splitName uriOf name).1, uri := (splitName uriOf name).2,
    position := p, value := v }
  refine ⟨applyToNamed { h with attributes := h.attributes ++ [a] } a,
    (bind_ok (hattribute _)).trans rfl, a, ?_, rfl, rfl⟩
  rw [Head.attr?, attributes_applyToNamed, List.find?_append, hnone, Option.none_or,
    List.find?_cons_of_pos (by rw [beq_iff_eq])]

namespace Native

/-- The bytes of a name. -/
def IsName (name : Bytes) : Prop := name ≠ [] ∧ ∀ b ∈ name, Cursor.isNameByte b = true

/-- Running `loop` goes on after the attribute that stands at the cursor, and before the text `r`,
with a head that has it; whenever the loop comes to its end, the head has it still. -/
def TakesAttribute {α : Type} (loop : Nat → Head → Parse σ α) (head : α → Head) (h : Head)
    (s : State σ) (name v r : Bytes) : Prop :=
  ∃ h' t, h'.IsGiven name v ∧ t.cursor.rest = r ∧
    ∀ fuel, loop (fuel + 1) h s = loop fuel h' t ∧
      ∀ a u, loop fuel h' t = .ok a u → (head a).IsGiven name v

section Reading

variable {name v r : Bytes} {q : UInt8} {s : State σ}

theorem readName_run (hname : IsName name) {b : UInt8} (hb : Cursor.isNameByte b = false)
    (hs : s.cursor.rest = name ++ b :: r) : readName s = .ok name (s.passing name) := by
  have hnameOf : Cursor.nameOf s.cursor.rest = name := by
    rw [Cursor.nameOf, hs]
    exact Bytes.takeWhile_append_stop hname.2 (by rintro _ ⟨⟩; exact hb)
  show EStateM.Result.ok (Cursor.nameOf s.cursor.rest)
    (s.passing (Cursor.nameOf s.cursor.rest)) = _
  rw [hnameOf]

theorem attributeName_run (place : Bytes) (hname : IsName name)
    (hs : s.cursor.rest = name ++ 61 :: r) :
    attributeName place s = .ok (s.cursor.position, name) (s.passing name) := by
  rw [attributeName, bind_ok (cursor_eq s),
    bind_ok (readName_run hname (by decide) hs), if_neg (by simpa using hname.1)]
  rfl

theorem exists_nameByte (hname : IsName name) (hs : s.cursor.rest = name ++ r) :
    ∃ b x, s.cursor.rest = b :: x ∧ Cursor.isNameByte b = true := by
  obtain ⟨b, n, rfl⟩ := List.exists_cons_of_ne_nil hname.1
  exact ⟨b, n ++ r, hs, hname.2 b List.mem_cons_self⟩

theorem skipBlanks_of_name (hname : IsName name) (hs : s.cursor.rest = name ++ r) :
    skipBlanks s = .ok () s := by
  obtain ⟨b, x, hrest, hb⟩ := exists_nameByte hname hs
  refine skipBlanks_of_head hrest (Bool.eq_false_iff.mpr fun hblank => ?_)
  rcases Bytes.isBlankByte_iff.mp hblank with rfl | rfl | rfl | rfl <;> cases hb

/-- Where a name stands no literal does that starts with another byte. -/
theorem not_accepts_of_name (hname : IsName name) (hs : s.cursor.rest = name ++ r) {c : UInt8}
    (hc : Cursor.isNameByte c = false) (lit : Bytes) : accepts (c :: lit) s = .ok false s := by
  obtain ⟨b, x, hrest, hb⟩ := exists_nameByte hname hs
  have hsees : s.cursor.sees (c :: lit) = false := by
    rw [Bool.eq_false_iff, ne_eq, Cursor.sees, hrest, Bytes.startsWith_iff]
    intro hp
    rw [(List.cons_prefix_cons.mp hp).1, hb] at hc
    cases hc
  rw [accepts_eq, hsees]
  rfl

theorem not_atEnd_of_name (hname : IsName name) (hsound : s.cursor.IsSound)
    (hs : s.cursor.rest = name ++ r) : s.cursor.atEnd = false := by
  obtain ⟨b, x, hrest, -⟩ := exists_nameByte hname hs
  rw [Bool.eq_false_iff]
  intro hend
  rw [hsound.atEnd_iff.mp hend] at hrest
  cases hrest

end Reading

section Taking

variable {q : UInt8} (hq : q = 34 ∨ q = 39) {v r : Bytes} (hcode : ¬Bytes.ofString "<%=" <+: v)
  (hapos : ¬Bytes.ofString "&apos;" <:+: v) (hquot : ¬Bytes.ofString "&quot;" <:+: v)
  {s : State σ}

include hq hcode hapos hquot

/-- A value that is written between quotes is read as it was. -/
theorem attributeValue_written (name : Bytes) (p : Position)
    (hs : s.cursor.rest = 61 :: q :: (quoteValue q v ++ q :: r)) :
    attributeValue name p s = .ok (v, false) (s.pastValue q v) := by
  have hback : q ≠ 92 := by rcases hq with rfl | rfl <;> decide
  have hno : Bytes.startsWith (quoteValue q v ++ q :: r) "<%=" = false := by
    rw [Bool.eq_false_iff, ne_eq, Bytes.startsWith_iff]
    refine fun h => hcode (prefix_of_prefix_quoteValue (q := q) (by decide) ?_ h)
    rintro _ ⟨⟩
    rcases hq with rfl | rfl <;> decide
  have hrun := attributeValue_run name p hq hs (indexOfUnescaped?_quoteValue hback v r) hno
  rwa [unquote_quoteValue hq hapos hquot] at hrun

variable {name : Bytes} (hname : IsName name) {h : Head} (hfresh : h.hasAttr name = false)
  (hsound : s.cursor.IsSound)
  (hs : s.cursor.rest = name ++ 61 :: q :: (quoteValue q v ++ q :: r))
  (hliteral : h.kind.isDirective = true ∨ s.elIgnored = true) (scriptless : Bool)

include hname hfresh hsound hs hliteral

theorem attributesWithin_takes :
    TakesAttribute (attributesWithin scriptless) Prod.fst h s name v r := by
  have hs' : (s.passing name).cursor.rest = 61 :: q :: (quoteValue q v ++ q :: r) :=
    State.rest_passing hs
  obtain ⟨h', hadd, hgiven⟩ := addAttribute_literal ((s.passing name).pastValue q v).uriOf
    (some ((s.passing name).pastValue q v).uriOf) v s.cursor.position scriptless
    (s := (s.passing name).pastValue q v) hname.1 hfresh hliteral
  refine ⟨h', _, hgiven, State.rest_pastValue hs', fun fuel => ⟨?_, fun a u hrun => ?_⟩⟩
  · rw [attributesWithin]
    refine (bind_ok (skipBlanks_of_name hname hs)).trans ?_
    refine (bind_ok (not_accepts_of_name hname hs (by decide) _)).trans ?_
    refine (bind_ok (not_accepts_of_name hname hs (by decide) _)).trans ?_
    refine (bind_ok (cursor_eq s)).trans ?_
    rw [not_atEnd_of_name hname hsound hs]
    refine (bind_ok (attributeName_run _ hname hs)).trans ?_
    refine (bind_ok (attributeValue_written hq hcode hapos hquot name _ hs')).trans ?_
    exact bind_ok hadd
  · exact returns_attributesWithin_of (fun _ _ _ _ _ _ _ _ hg => returns_isGiven hg _ _ _ _ _ _ _)
      scriptless fuel hgiven _ _ _ hrun

theorem directiveAttributes_takes :
    TakesAttribute (directiveAttributes scriptless) id h s name v r := by
  have hs' : (s.passing name).cursor.rest = 61 :: q :: (quoteValue q v ++ q :: r) :=
    State.rest_passing hs
  obtain ⟨h', hadd, hgiven⟩ := addAttribute_literal ((s.passing name).pastValue q v).uriOf
    none v s.cursor.position scriptless
    (s := (s.passing name).pastValue q v) hname.1 hfresh hliteral
  refine ⟨h', _, hgiven, State.rest_pastValue hs', fun fuel => ⟨?_, fun a u hrun => ?_⟩⟩
  · rw [directiveAttributes]
    refine (bind_ok (skipBlanks_of_name hname hs)).trans ?_
    refine (bind_ok (not_accepts_of_name hname hs (by decide) _)).trans ?_
    refine (bind_ok (cursor_eq s)).trans ?_
    rw [not_atEnd_of_name hname hsound hs]
    refine (bind_ok (attributeName_run _ hname hs)).trans ?_
    refine (bind_ok (attributeValue_written hq hcode hapos hquot name _ hs')).trans ?_
    exact bind_ok hadd
  · exact returns_directiveAttributes_of
      (fun _ _ _ _ _ _ _ _ hg => returns_isGiven hg _ _ _ _ _ _ _) scriptless fuel hgiven _ _ _ hrun

end Taking

/-- **Quoted values round trip.** A value that does not start like a piece of code and holds no
reference to a quote, written between quotes of either kind, is read as it was, whatever follows it.
An attribute with that value, of a directive or where the expression language is ignored, is given
to the head that is being read. -/
theorem attributeValue_quoteValue {q : UInt8} (hq : q = 34 ∨ q = 39) {v : Bytes}
    (hcode : ¬Bytes.ofString "<%=" <+: v) (hapos : ¬Bytes.ofString "&apos;" <:+: v)
    (hquot : ¬Bytes.ofString "&quot;" <:+: v) (r : Bytes) :
    (∀ s : State σ, s.cursor.rest = 61 :: q :: (quoteValue q v ++ q :: r) →
      (s.pastValue q v).cursor.rest = r ∧
        ∀ name p, attributeValue name p s = .ok (v, false) (s.pastValue q v)) ∧
    ∀ (s : State σ) (h : Head) (name : Bytes), s.cursor.IsSound →
      s.cursor.rest = name ++ 61 :: q :: (quoteValue q v ++ q :: r) → IsName name →
      h.hasAttr name = false → h.kind.isDirective = true ∨ s.elIgnored = true →
      ∀ scriptless, TakesAttribute (attributesWithin scriptless) Prod.fst h s name v r ∧
        TakesAttribute (directiveAttributes scriptless) id h s name v r := by
  refine ⟨fun s hs => ⟨State.rest_pastValue hs, fun name p => ?_⟩, ?_⟩
  · exact attributeValue_written hq hcode hapos hquot name p hs
  · intro s h name hsound hs hname hfresh hliteral scriptless
    exact ⟨attributesWithin_takes hq hcode hapos hquot hname hfresh hsound hs hliteral scriptless,
      directiveAttributes_takes hq hcode hapos hquot hname hfresh hsound hs hliteral scriptless⟩

/-- A value with a quote, a backslash and what would decode to an opener is read as it was. -/
theorem attributeValue_quoteValue_escapes :
    let v := Bytes.ofString "it's <\\% \""
    let unread (text : String) : State Unit :=
      { cursor := .ofText "/a.jsp" (Bytes.ofString text), files := [], memory := () }
    (quoteValue 39 v = Bytes.ofString "it\\'s <\\\\% \"" ∧
      attributeValue "info" {} (unread "='it\\'s <\\\\% \"'%>x") =
        .ok (v, false) ((unread "='it\\'s <\\\\% \"'%>x").pastValue 39 v)) ∧
    TakesAttribute (directiveAttributes false) id { kind := .pageDirective }
      (unread "info='it\\'s <\\\\% \"'%>x") "info" v "%>x" := by
  intro v unread
  have hread := attributeValue_quoteValue (σ := Unit) (q := 39) (.inr rfl) (v := v)
    (by decide +kernel) (by decide +kernel) (by decide +kernel) (Bytes.ofString "%>x")
  refine ⟨⟨by decide +kernel, (hread.1 _ ?_).2 _ _⟩, (hread.2 _ _ "info" ?_ ?_ ?_ rfl ?_ false).2⟩
  · decide +kernel
  · exact Nat.zero_add _
  · decide +kernel
  · exact ⟨by decide +kernel, by decide +kernel⟩
  · exact .inl rfl

end Native

end Parsing

end ServerPages
