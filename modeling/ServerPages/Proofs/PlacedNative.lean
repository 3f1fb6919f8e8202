import ServerPages.Proofs.PlacedNodes

/-!
# Placed nodes of the native syntax

Every piece that a native parser passes ends in an ASCII byte or is followed by one, so the cursor
stays exact. A construct starts where its node says, with the text that opens it, and leads further
on in the same source.

## Main results

* `Native.construct_lays`: a construct leads on, and its node stands where it starts.
* `Native.lays_watchedParse`: a native source that is watched raises no alarm, and its nodes lie in
  it.
-/

namespace ServerPages

namespace Expression

theorem getLast?_take_of_map {b : UInt8} {s : Bytes} {x : Option Nat} {n : Nat}
    (h : x.map (· + 1) = some n)
    (hx : ∀ {m}, x = some m → (s.take m).getLast? = some 125) :
    ((b :: s).take n).getLast? = some 125 := by
  obtain ⟨m, hm, rfl⟩ := Option.map_eq_some_iff.mp h
  rw [List.take_succ_cons, List.getLast?_cons, hx hm]
  rfl

/-- An expression ends in its closing brace. -/
theorem getLast?_of_closing {depth : Nat} {quote : Option UInt8} {s : Bytes} {n : Nat}
    (h : closing depth quote s = some n) : (s.take n).getLast? = some 125 := by
  induction depth, quote, s using closing.induct generalizing n with
  | case1 => simp [closing] at h
  | case2 => simp [closing] at h
  | case3 depth q b d s hesc ih =>
    rw [closing, if_pos hesc] at h
    obtain ⟨m, hm, rfl⟩ := Option.map_eq_some_iff.mp h
    rw [List.take_succ_cons, List.take_succ_cons, List.getLast?_cons, List.getLast?_cons, ih hm]
    rfl
  | case4 depth q b d s hesc hquote ih =>
    rw [closing, if_neg hesc, if_pos hquote] at h
    exact getLast?_take_of_map h ih
  | case5 depth q b d s hesc hquote ih =>
    rw [closing, if_neg hesc, if_neg hquote] at h
    exact getLast?_take_of_map h ih
  | case6 depth b s hquote ih =>
    rw [closing, if_pos hquote] at h
    exact getLast?_take_of_map h ih
  | case7 depth b s hquote hopen ih =>
    rw [closing, if_neg hquote, if_pos hopen] at h
    exact getLast?_take_of_map h ih
  | case8 depth b s hquote hopen hclose hdepth =>
    rw [closing, if_neg hquote, if_neg hopen, if_pos hclose, if_pos hdepth] at h
    obtain rfl := Option.some.inj h
    simpa using hclose
  | case9 depth b s hquote hopen hclose hdepth ih =>
    rw [closing, if_neg hquote, if_neg hopen, if_pos hclose, if_neg hdepth] at h
    exact getLast?_take_of_map h ih
  | case10 depth b s hquote hopen hclose ih =>
    rw [closing, if_neg hquote, if_neg hopen, if_neg hclose] at h
    exact getLast?_take_of_map h ih

theorem getLast?_of_length? {s : Bytes} {n : Nat} (h : length? s = some n) :
    (s.take n).getLast? = some 125 := by
  unfold length? at h
  split at h
  · cases h
  · exact getLast?_take_of_map h getLast?_of_closing

end Expression

theorem Head.opening_of_isDirective {h : Head} (hk : h.kind.isDirective = true) :
    h.opening false = "<%@" := by
  rw [opening, if_neg Bool.false_ne_true]
  revert hk
  cases h.kind <;> simp [Kind.isDirective]

theorem Head.opening_of_action? {name : Bytes} {h : Head} (hk : Kind.action? name = some h.kind) :
    h.opening false = "<" ++ h.name := by
  obtain ⟨l, r, hl, -⟩ := List.lookup_eq_some_iff.mp hk
  have hmem : h.kind ∈ Kind.actions.map (·.2) := by simp [hl]
  rw [opening, if_neg Bool.false_ne_true]
  revert hmem
  cases h.kind <;> simp [Kind.actions, Kind.isDirective]

/-- What opens an end tag of the element ends inside no character. -/
def Head.EndsWhole (whole : Prop) (h : Head) : Prop :=
  whole → ∀ r, Utf8.IsCut ("</" ++ h.name) r

namespace Parsing

variable {σ α β : Type} {c : Passage σ} {k : Nat} {w : Watch σ}

/-! ### Single steps -/

theorem State.IsIn.passing {s : State σ} (hs : s.IsIn c k) {lit : Bytes}
    (hlit : Cursor.EndsInAscii lit) (hsees : s.cursor.sees lit = true) :
    (s.passing lit).IsIn c k :=
  hs.moveTo (Cursor.leadsTo_accept? (fun _ => hlit) (by rw [Cursor.accept?, if_pos hsees]))

/-- After a literal the cursor has moved on. -/
theorem State.IsIn.passed {s : State σ} (hs : s.IsIn c k) {lit : Bytes}
    (hlit : Cursor.EndsInAscii lit) (hne : lit ≠ []) (hsees : s.cursor.sees lit = true) :
    (s.passing lit).IsIn c (s.cursor.place.offset + 1) :=
  hs.moveOn (Cursor.leadsTo_accept? (fun _ => hlit) (by rw [Cursor.accept?, if_pos hsees]))
    (Nat.lt_add_of_pos_right (List.length_pos_iff.mpr hne))

theorem keeps_accepts {lit : Bytes} (hlit : Cursor.EndsInAscii lit) :
    Keeps (State.IsIn c k) (accepts lit) (accepts lit) fun _ => True := by
  refine fun s hs => .of_runs fun b t h => ?_
  rw [accepts_eq] at h
  split at h
  · next hsees =>
    cases h
    exact ⟨hs.passing hlit hsees, trivial⟩
  · cases h
    exact ⟨hs, trivial⟩

theorem agrees_acceptsEndTag {s : State σ} (hs : s.IsIn c k) (name : Bytes) :
    Agrees (acceptsEndTag name) (acceptsEndTag name) s fun b t =>
      t.IsIn c k ∧ (b = false → t = s) := by
  refine .of_runs fun b t h => ?_
  rw [acceptsEndTag, bind_ok (cursor_eq s)] at h
  cases hd : s.cursor.acceptEndTag? name with
  | some d =>
    rw [hd] at h
    cases h
    exact ⟨hs.moveTo (Cursor.leadsTo_acceptEndTag? hd), fun h => by cases h⟩
  | none =>
    rw [hd] at h
    cases h
    exact ⟨hs, fun _ => rfl⟩

theorem keeps_acceptsEndTag (name : Bytes) :
    Keeps (State.IsIn c k) (acceptsEndTag name) (acceptsEndTag name) fun _ => True :=
  fun _ hs => (agrees_acceptsEndTag hs name).mono fun _ _ h => ⟨h.1, trivial⟩

theorem keeps_skipBlanks :
    Keeps (State.IsIn c k) (skipBlanks : Parse σ Unit) skipBlanks fun _ => True := by
  refine fun s hs => .of_runs ?_
  rintro a t ⟨⟩
  exact ⟨hs.moveTo (Cursor.leadsTo_skipBlanks _), trivial⟩

theorem keeps_readName :
    Keeps (State.IsIn c k) (readName : Parse σ Bytes) readName fun _ => True := by
  refine fun s hs => .of_runs ?_
  rintro a t ⟨⟩
  exact ⟨hs.moveTo (Cursor.leadsTo_name _), trivial⟩

namespace Native

/-! ### Constructs without content -/

theorem keeps_comment (p : Position) :
    Keeps (State.IsIn c k) (comment p) (comment p) fun _ => True := by
  intro s hs
  refine Agrees.cursor ?_
  cases hseek : s.cursor.seek? "--%>" with
  | none => exact agrees_refuse _ _ _
  | some r =>
    refine .of_runs ?_
    rintro a t ⟨⟩
    exact ⟨hs.moveTo (Cursor.leadsTo_seek? (by decide) (by decide) hseek), trivial⟩

theorem keeps_scripting {kind : Kind} (hk : kind ≠ .includeDirective) (opener : Bytes)
    {p : Position} (hp : ∀ code, c.Places { kind := kind, start := p, text := code })
    (scriptless : Bool) {siblings : List Node} (hs : c.Lays siblings) :
    Keeps (State.IsIn c k) (scripting kind opener p scriptless siblings)
      (scripting kind opener p scriptless siblings) c.Lays := by
  intro s hin
  refine Agrees.cursor ?_
  cases hseek : s.cursor.seek? "%>" with
  | none => exact agrees_refuse _ _ _
  | some r =>
    refine Agrees.moveTo ?_
    refine Agrees.bind (Q := fun n t => t.IsIn c k ∧ c.Lays (Node.push siblings n)) (.of_runs ?_)
      fun n t ht => Agrees.pure ht
    intro n t h
    unfold scriptingNode at h
    split at h
    · cases h
    · cases h
      exact ⟨hin.moveTo (Cursor.leadsTo_seek? (by decide) (by decide) hseek), hs.leaf hk (hp _)⟩

theorem keeps_expression (hc : c.IsLined) (hnative : c.isDocument = false) (scriptless : Bool)
    {siblings : List Node} (hs : c.Lays siblings) {s : State σ} (hin : s.IsIn c k)
    (hrest : s.cursor.rest ≠ []) :
    Agrees (expression scriptless siblings) (expression scriptless siblings) s fun cs t =>
      t.IsIn c (s.cursor.place.offset + 1) ∧ c.Lays cs := by
  refine Agrees.get ?_
  dsimp only
  cases hn : Expression.length? s.cursor.rest with
  | none => exact agrees_refuse _ _ _
  | some n =>
  have hlast := Expression.getLast?_of_length? hn
  refine Agrees.bind (Q := fun e t => t = s ∧ c.Lays (Node.push siblings e)) (.of_runs ?_) ?_
  · intro e t h
    obtain ⟨d, rfl, hk, hstart, htext⟩ := returns_elNode_eq _ _ _ _ _ _ _ h
    refine ⟨?_, hs.leaf (by rw [hk]; exact fun h => by cases h)
      (Passage.Opens.places ?_ hstart)⟩
    · unfold elNode at h
      cases hof : Expression.ofText (s.cursor.rest.take n) with
      | error e =>
        rw [hof] at h
        cases h
      | ok e =>
        rw [hof] at h
        cases h
        rfl
    · have hopening : d.opening c.isDocument = s.cursor.rest.take n := by
        simp [Head.opening, hnative, hk, htext]
      exact hopening ▸ hin.opens hc (List.take_prefix _ _)
  · rintro e t ⟨rfl, he⟩
    refine .of_runs ?_
    rintro a u ⟨⟩
    refine ⟨hin.moveOn (Cursor.leadsTo_skip fun _ => .of_getLast? ?_ _) ?_, he⟩
    · rw [hlast]
      rintro b ⟨⟩
      decide
    · rw [Cursor.offset_skip]
      have hpos : n ≠ 0 := fun h0 => by simp [h0] at hlast
      have hlen := List.length_pos_iff.mpr hrest
      omega

/-- After template text the text is at its end, or an ASCII byte stands there. -/
theorem head_drop_scanText (useEl : Bool) (skip : Nat) (first : Bool) (s : Bytes) :
    ∀ b ∈ (s.drop (scanText useEl skip first s).2).head?, b.toNat < 0x80 := by
  induction s generalizing skip first with
  | nil => simp
  | cons b s ih =>
    cases skip with
    | succ skip =>
      rw [scanText]
      exact ih skip first
    | zero =>
      rw [scanText]
      split
      · next hstop =>
        intro d hd
        obtain rfl : b = d := Option.some.inj hd
        rw [Bool.and_eq_true, Bool.or_eq_true, Bool.and_eq_true, beq_iff_eq] at hstop
        rcases hstop.2 with rfl | ⟨-, hopen⟩
        · decide
        · unfold Expression.isOpener at hopen
          split at hopen
          · next heq =>
            obtain ⟨rfl, rfl⟩ := List.cons.inj heq
            rw [Bool.and_eq_true, Bool.or_eq_true, beq_iff_eq, beq_iff_eq] at hopen
            rcases hopen.1 with rfl | rfl <;> decide
          · cases hopen
      · exact ih _ false

theorem keeps_templateText (hc : c.IsLined) (scriptless : Bool) {siblings : List Node}
    (hs : c.Lays siblings) {s : State σ} (hin : s.IsIn c k) (hrest : s.cursor.rest ≠ []) :
    Agrees (templateText scriptless siblings) (templateText scriptless siblings) s fun cs t =>
      t.IsIn c (s.cursor.place.offset + 1) ∧ c.Lays cs := by
  refine Agrees.get (.of_runs ?_)
  rintro a t ⟨⟩
  refine ⟨hin.moveOn (Cursor.leadsTo_skip fun _ => .of_head (head_drop_scanText _ _ _ _)) ?_,
    hs.text (hin.holds hc List.nil_prefix) _ _⟩
  obtain ⟨b, r, hr⟩ := List.exists_cons_of_ne_nil hrest
  have hpos := scanText_pos (!s.elIgnored) b r
  rw [Cursor.offset_skip, hr, List.length_cons]
  omega

/-! ### Attributes -/

theorem keeps_attributeValue (name : Bytes) (p : Position) :
    Keeps (State.IsIn c k) (attributeValue name p) (attributeValue name p) fun _ => True := by
  refine keeps_skipBlanks.bind fun _ _ => (keeps_accepts (by decide)).bind fun _ _ => ?_
  refine Keeps.guard (keeps_refuse _ _ _) fun _ => keeps_skipBlanks.bind fun _ _ => ?_
  intro s hs
  refine Agrees.cursor ?_
  cases hrest : s.cursor.rest with
  | nil => exact agrees_refuse _ _ _
  | cons quote rest =>
  refine Agrees.ite (fun _ => agrees_refuse_bind _ _ _) fun hquote => ?_
  have hascii : quote.toNat < 0x80 := by
    by_cases h : quote = 34
    · exact h ▸ by decide
    · obtain rfl : quote = 39 := by simpa [h] using hquote
      decide
  have hlast : Cursor.EndsInAscii [quote] := by
    rintro b ⟨⟩
    exact hascii
  have hstart : s.cursor.LeadsTo c.whole (s.cursor.skip 1) := Cursor.leadsTo_skip fun _ =>
    .of_getLast? (by rw [hrest]; exact hlast) _
  have hmove : ∀ {d : Cursor} {r : Bytes × Bool}, s.cursor.LeadsTo c.whole d →
      Agrees (moveTo d >>= fun _ => pure r) (moveTo d >>= fun _ => pure r) s fun _ t =>
        t.IsIn c k ∧ True := fun hd => Agrees.moveTo (Agrees.pure ⟨hs.moveTo hd, trivial⟩)
  -- A value that is not a piece of code ends at the quote mark.
  have hplain : ∀ r, (s.cursor.skip 1).seekUnescaped? [quote] 92 = some r →
      s.cursor.LeadsTo c.whole r.2 := fun r hseek =>
    hstart.trans (Cursor.leadsTo_seekUnescaped? hascii hlast hseek)
  dsimp only
  cases hcode : (s.cursor.skip 1).accept? "<%=" with
  | none =>
    cases hseek : (s.cursor.skip 1).seekUnescaped? [quote] 92 with
    | none => exact agrees_refuse _ _ _
    | some r => exact hmove (hplain r hseek)
  | some inner =>
  have hinner := hstart.trans (Cursor.leadsTo_accept? (fun _ => by decide) hcode)
  dsimp only
  cases hend : inner.seekUnescaped? "%>" 92 with
  | none => exact agrees_refuse_bind _ _ _
  | some r =>
  obtain ⟨here, after⟩ := r
  have hafter := hinner.trans (Cursor.leadsTo_seekUnescaped? (by decide) (by decide) hend)
  dsimp only
  cases hdone : after.accept? [quote] with
  | none =>
    cases hseek : (s.cursor.skip 1).seekUnescaped? [quote] 92 with
    | none => exact agrees_refuse _ _ _
    | some r => exact hmove (hplain r hseek)
  | some done => exact hmove (hafter.trans (Cursor.leadsTo_accept? (fun _ => hlast) hdone))

theorem keeps_attributeName (place : Bytes) :
    Keeps (State.IsIn c k) (attributeName place) (attributeName place) fun _ => True := by
  intro s hs
  refine Agrees.cursor ((keeps_readName s hs).bind fun name t ht => ?_)
  exact Agrees.ite (fun _ => agrees_refuse_bind _ _ _) fun _ => Agrees.pure ⟨ht.1, trivial⟩

theorem keeps_attributesWithin (scriptless : Bool) (fuel : Nat) (h : Head) :
    Keeps (State.IsIn c k) (attributesWithin scriptless fuel h) (attributesWithin scriptless fuel h)
      fun r => r.1.label = h.label := by
  induction fuel generalizing h with
  | zero => exact fun _ _ => Agrees.throw _
  | succ fuel ih =>
    refine keeps_skipBlanks.bind fun _ _ => (keeps_accepts (by decide)).bind fun _ _ => ?_
    refine Keeps.ite (Keeps.pure rfl) ((keeps_accepts (by decide)).bind fun _ _ => ?_)
    refine Keeps.ite (Keeps.pure rfl) (Keeps.get fun s => ?_)
    refine Keeps.guard (keeps_refuse _ _ _) fun _ => (keeps_attributeName _).bind fun r _ => ?_
    refine (keeps_attributeValue _ _).bind fun v _ => Keeps.get fun s => ?_
    refine ((State.isFramed_isIn c k).keeps_addAttribute _ _ _ _ _ _ _ _).bind fun h' hh' => ?_
    exact (ih h').mono fun r hr => hr.trans hh'

theorem keeps_attributes (h : Head) (scriptless : Bool) :
    Keeps (State.IsIn c k) (attributes h scriptless) (attributes h scriptless)
      fun r => r.1.label = h.label :=
  Keeps.get fun _ => keeps_attributesWithin _ _ _

theorem keeps_directiveAttributes (scriptless : Bool) (fuel : Nat) (h : Head) :
    Keeps (State.IsIn c k) (directiveAttributes scriptless fuel h)
      (directiveAttributes scriptless fuel h) fun h' => h'.label = h.label := by
  induction fuel generalizing h with
  | zero => exact fun _ _ => Agrees.throw _
  | succ fuel ih =>
    refine keeps_skipBlanks.bind fun _ _ => (keeps_accepts (by decide)).bind fun _ _ => ?_
    refine Keeps.ite (Keeps.pure rfl) (Keeps.get fun s => ?_)
    refine Keeps.guard (keeps_refuse _ _ _) fun _ => (keeps_attributeName _).bind fun r _ => ?_
    refine (keeps_attributeValue _ _).bind fun v _ => Keeps.get fun s => ?_
    refine ((State.isFramed_isIn c k).keeps_addAttribute _ _ _ _ _ _ _ _).bind fun h' hh' => ?_
    exact (ih h').mono fun r hr => hr.trans hh'

/-! ### Directives -/

theorem keeps_directive {env : Env σ} (hhost : c.host = env.host) (hnative : c.isDocument = false)
    {winc inc : Include σ} (hinc : KeepsIncluded c winc inc) {p : Position} (hp : c.Opens p "<%@")
    (scriptless : Bool) {siblings : List Node} (hs : c.Lays siblings) :
    Keeps (State.IsIn c k) (directive env winc p scriptless siblings)
      (directive env inc p scriptless siblings) c.Lays := by
  have hframed := State.isFramed_isIn c k
  refine keeps_skipBlanks.bind fun _ _ => keeps_readName.bind fun name _ => ?_
  refine (hframed.keeps (rests_directiveHead _ _ _).stands (returns_directiveHead_eq _ _ _)).bind ?_
  rintro h ⟨hk, hstart⟩
  refine Keeps.get fun s => (keeps_directiveAttributes _ _ _).bind fun h' hlabel => ?_
  simp only [Head.label, Prod.mk.injEq] at hlabel
  obtain ⟨hkind, hstart', -⟩ := hlabel
  have hplaces : c.Places h' := by
    refine Passage.Opens.places ?_ (hstart'.trans hstart)
    rwa [hnative, Head.opening_of_isDirective (hkind ▸ hk)]
  have hleaf : h'.kind ≠ .includeDirective → ∀ {x : Parse σ Unit}, Stands c.host x →
      Keeps (State.IsIn c k) (x >>= fun _ => pure (Node.push siblings (.mk h' [])))
        (x >>= fun _ => pure (Node.push siblings (.mk h' []))) c.Lays := fun hne x hx =>
    (hframed.keeps_any hx).bind fun _ _ => Keeps.pure (hs.leaf hne hplaces)
  dsimp only
  cases hk' : h'.kind
  case taglibDirective => exact hleaf (by simp [hk']) (hhost ▸ stands_applyTaglib env h')
  case pageDirective => exact hleaf (by simp [hk']) (stands_applyElIgnored h')
  case tagDirective => exact hleaf (by simp [hk']) (stands_applyElIgnored h')
  case includeDirective =>
    exact (hinc _ h' scriptless hframed fun s hin => hin.mono (Nat.zero_le k)).bind fun cs hcs =>
      Keeps.pure (hs.inclusion hk' hplaces hcs)
  all_goals exact Keeps.pure (hs.leaf (by simp [hk']) hplaces)

/-! ### Bodies -/

/-- The parsers of one construct agree, stay in the source and lay their nodes in it. -/
def Element.Lays (c : Passage σ) (y x : Element σ) : Prop :=
  ∀ (k : Nat) (parent : Head) (scriptless : Bool) (siblings : List Node) (s : State σ),
    c.Lays siblings → s.IsIn c k → s.cursor.rest ≠ [] →
    Agrees (y parent scriptless siblings) (x parent scriptless siblings) s fun cs t =>
      t.IsIn c k ∧ c.Lays cs

theorem keeps_opaqueBody (hc : c.IsLined) {h : Head} (hname : h.EndsWhole c.whole)
    (scriptless : Bool) :
    Keeps (State.IsIn c k) (opaqueBody h scriptless) (opaqueBody h scriptless) c.Lays := by
  intro s hs
  refine Agrees.cursor ?_
  cases hseek : s.cursor.seekEndTag? h.name with
  | none => exact agrees_refuse _ _ _
  | some r =>
    refine Agrees.moveTo (Agrees.pure ⟨hs.moveTo (Cursor.leadsTo_seekEndTag? hname hseek), ?_⟩)
    split
    · exact c.lays_nil
    · exact c.lays_nil.text (hs.holds hc List.nil_prefix) _ _

theorem keeps_textBody (hc : c.IsLined) {h : Head} (hname : h.EndsWhole c.whole)
    (scriptless : Bool) :
    Keeps (State.IsIn c k) (textBody h scriptless) (textBody h scriptless) c.Lays := by
  intro s hs
  refine Agrees.cursor ?_
  cases hseek : s.cursor.seekEndTag? h.name with
  | none => exact agrees_refuse _ _ _
  | some r =>
  refine Agrees.moveTo ?_
  have hmoved := hs.moveTo (Cursor.leadsTo_seekEndTag? hname hseek)
  dsimp only
  cases Bytes.indexOfByte? 60 (between s.cursor r.1) with
  | some i => exact agrees_refuse _ _ _
  | none =>
    refine Agrees.get (((State.isFramed_isIn c k).keeps (rests_textNodes _ _ _ _ _ _).stands
      (lays_textNodes _ c.lays_nil ?_ _ _)) _ hmoved)
    exact hs.holds hc (List.take_prefix _ _)

theorem keeps_startsWithNamedAttribute :
    Keeps (State.IsIn c k) (startsWithNamedAttribute : Parse σ Bool) startsWithNamedAttribute
      fun _ => True := by
  refine fun s hs => .of_runs ?_
  rintro a t ⟨⟩
  exact ⟨hs, trivial⟩

section Bodies

variable {x y : Element σ} (hinner : Element.Lays c y x)

include hinner

theorem keeps_bodyWithin (h : Head) (scriptless : Bool) (fuel : Nat) {cs : List Node}
    (hcs : c.Lays cs) :
    Keeps (State.IsIn c k) (bodyWithin y h scriptless fuel cs) (bodyWithin x h scriptless fuel cs)
      c.Lays := by
  induction fuel generalizing cs with
  | zero => exact fun _ _ => Agrees.throw _
  | succ fuel ih =>
    refine (keeps_acceptsEndTag _).bind fun ended _ => Keeps.ite (Keeps.pure hcs) ?_
    intro s hs
    refine Agrees.cursor (Agrees.ite (fun _ => agrees_refuse_bind _ _ _) fun hend => ?_)
    exact (hinner k _ _ _ s hcs hs (hs.rest_ne_nil hend)).bind fun cs' t ht => ih ht.2 t ht.1

theorem keeps_body (h : Head) (scriptless : Bool) :
    Keeps (State.IsIn c k) (body y h scriptless) (body x h scriptless) c.Lays :=
  Keeps.get fun _ => keeps_bodyWithin hinner _ _ _ c.lays_nil

theorem keeps_restrictedWithin (h : Head) (scriptless : Bool) {allows : Bytes → Bool}
    (hallows : allows [] = false) (complaint : Bytes) (fuel : Nat) {cs : List Node}
    (hcs : c.Lays cs) :
    Keeps (State.IsIn c k) (restrictedWithin y h scriptless allows complaint fuel cs)
      (restrictedWithin x h scriptless allows complaint fuel cs) c.Lays := by
  induction fuel generalizing cs with
  | zero => exact fun _ _ => Agrees.throw _
  | succ fuel ih =>
    refine keeps_skipBlanks.bind fun _ _ s hs => Agrees.cursor ?_
    refine (agrees_acceptsEndTag hs _).bind fun ended t ht => ?_
    refine Agrees.ite (fun _ => Agrees.pure ⟨ht.1, hcs⟩) fun hended => ?_
    obtain rfl := ht.2 (by simpa using hended)
    refine Agrees.accepts (fun hsees => ?_) ?_
    · refine (keeps_comment _ _ (hs.passing (by decide) hsees)).bind fun _ u hu => ?_
      exact ih hcs u hu.1
    refine Agrees.ite (fun hfalse => by cases hfalse) fun _ => Agrees.ite (fun ha => ?_) fun _ => ?_
    · have hrest : t.cursor.rest ≠ [] := fun hnil => by simp [hnil, hallows] at ha
      exact (hinner k _ _ _ t hcs hs hrest).bind fun cs' u hu => ih hu.2 u hu.1
    · exact Agrees.ite (fun _ => agrees_refuse _ _ _) fun _ => agrees_refuse _ _ _

theorem keeps_restrictedBody (h : Head) (scriptless : Bool) {allows : Bytes → Bool}
    (hallows : allows [] = false) (complaint : Bytes) :
    Keeps (State.IsIn c k) (restrictedBody y h scriptless allows complaint)
      (restrictedBody x h scriptless allows complaint) c.Lays :=
  Keeps.get fun _ => keeps_restrictedWithin hinner _ _ hallows _ _ c.lays_nil

theorem keeps_namedBody (h : Head) (scriptless : Bool) :
    Keeps (State.IsIn c k) (namedBody y h scriptless) (namedBody x h scriptless) c.Lays :=
  keeps_restrictedBody hinner _ _ rfl _

theorem keeps_actionsBody (h : Head) (scriptless : Bool) (allowed : List Bytes) :
    Keeps (State.IsIn c k) (actionsBody y h scriptless allowed) (actionsBody x h scriptless allowed)
      c.Lays :=
  keeps_restrictedBody hinner _ _ rfl _

theorem keeps_emptyBody (h : Head) (scriptless : Bool) :
    Keeps (State.IsIn c k) (emptyBody y h scriptless) (emptyBody x h scriptless) c.Lays := by
  refine (keeps_acceptsEndTag _).bind fun _ _ => Keeps.ite (Keeps.pure c.lays_nil) ?_
  refine keeps_startsWithNamedAttribute.bind fun _ _ => Keeps.ite (keeps_namedBody hinner _ _) ?_
  exact ((State.isFramed_isIn c k).keeps_any rests_position.stands).bind fun _ _ =>
    keeps_refuse _ _ _

theorem keeps_contentBody (hc : c.IsLined) {h : Head} (hname : h.EndsWhole c.whole)
    (content : BodyContent) (scriptless : Bool) :
    Keeps (State.IsIn c k) (contentBody y h content scriptless) (contentBody x h content scriptless)
      c.Lays := by
  cases content with
  | tagDependent => exact keeps_opaqueBody hc hname _
  | scriptless => exact keeps_body hinner _ _
  | page => exact keeps_body hinner _ _
  | empty => exact keeps_body hinner _ _

theorem keeps_tagBody (hc : c.IsLined) {h : Head} (hname : h.EndsWhole c.whole)
    (scriptless : Bool) :
    Keeps (State.IsIn c k) (tagBody y h scriptless) (tagBody x h scriptless) c.Lays := by
  refine keeps_startsWithNamedAttribute.bind fun _ _ => Keeps.ite (keeps_namedBody hinner _ _) ?_
  cases bodyContentOf h with
  | empty => exact keeps_emptyBody hinner _ _
  | page => exact keeps_contentBody hinner hc hname _ _
  | scriptless => exact keeps_contentBody hinner hc hname _ _
  | tagDependent => exact keeps_contentBody hinner hc hname _ _

theorem keeps_actionBody (hc : c.IsLined) (parent : Head) {h : Head} (hname : h.EndsWhole c.whole)
    (scriptless : Bool) :
    Keeps (State.IsIn c k) (actionBody y parent h scriptless) (actionBody x parent h scriptless)
      c.Lays := by
  unfold actionBody
  cases h.kind
  case param => exact keeps_emptyBody hinner _ _
  case invokeAction => exact keeps_emptyBody hinner _ _
  case doBodyAction => exact keeps_emptyBody hinner _ _
  case setProperty => exact keeps_emptyBody hinner _ _
  case getProperty =>
    refine (keeps_acceptsEndTag _).bind fun _ _ => Keeps.ite (Keeps.pure c.lays_nil) ?_
    exact ((State.isFramed_isIn c k).keeps_any rests_position.stands).bind fun _ _ =>
      keeps_refuse _ _ _
  case fallback => exact keeps_opaqueBody hc hname _
  case textAction => exact keeps_textBody hc hname _
  case body =>
    refine ((State.isFramed_isIn c k).keeps_any (rests_bodyElementContent _ _).stands).bind
      fun _ _ => ?_
    exact keeps_contentBody hinner hc hname _ _
  case includeAction => exact keeps_actionsBody hinner _ _ _
  case forwardAction => exact keeps_actionsBody hinner _ _ _
  case params => exact keeps_actionsBody hinner _ _ _
  case plugin => exact keeps_actionsBody hinner _ _ _
  all_goals exact keeps_body hinner _ _

end Bodies

/-! ### Elements -/

/-- The names of the standard actions are ASCII. -/
theorem endsWhole_action {whole : Prop} {name : Bytes} {kind : Kind}
    (hk : Kind.action? name = some kind) {h : Head} (hname : h.name = "jsp:" ++ name) :
    h.EndsWhole whole := by
  intro _ r
  obtain ⟨l, l', hl, -⟩ := List.lookup_eq_some_iff.mp hk
  have hmem : name ∈ Kind.actions.map (·.1) := by simp [hl]
  have hall : ∀ name ∈ Kind.actions.map (·.1),
      Cursor.EndsInAscii ("</" ++ (Bytes.ofString "jsp:" ++ name)) := by decide
  exact hname ▸ .of_getLast? (hall name hmem) r

theorem standardAction_lays {x y : Element σ} (hinner : Element.Lays c y x) (hc : c.IsLined)
    (hnative : c.isDocument = false) (parent : Head) (scriptless : Bool) {siblings : List Node}
    (hs : c.Lays siblings) {s : State σ} (hin : s.IsIn c k)
    (hsees : s.cursor.sees "<jsp:" = true) :
    Agrees (standardAction y parent scriptless siblings)
      (standardAction x parent scriptless siblings) s fun cs t =>
      t.IsIn c (s.cursor.place.offset + 1) ∧ c.Lays cs := by
  obtain ⟨r, hr⟩ := Bytes.startsWith_iff.mp hsees
  have hr : s.cursor.rest = Bytes.ofString "<jsp:" ++ r := hr.symm
  have hframed := State.isFramed_isIn c (s.cursor.place.offset + 1)
  have hmoved : State.IsIn c (s.cursor.place.offset + 1)
      { s with cursor := s.cursor.skip 5 } := by
    have hopener : ("<jsp:" : Bytes) <+: s.cursor.rest := ⟨r, hr.symm⟩
    refine hin.moveOn (Cursor.leadsTo_skip_length (by decide) hopener) ?_
    rw [Cursor.offset_skip, hr, List.length_append]
    refine Nat.lt_add_of_pos_right (Nat.lt_min.mpr ⟨by decide, ?_⟩)
    exact Nat.lt_of_lt_of_le (by decide) (Nat.le_add_right _ _)
  refine Agrees.cursor (Agrees.moveTo ?_)
  refine Agrees.bind (Q := fun name t => t.IsIn c (s.cursor.place.offset + 1) ∧
    Bytes.ofString "<jsp:" ++ name <+: s.cursor.rest) ?_ fun name t ht => ?_
  · refine .of_runs ?_
    rintro name t ⟨⟩
    refine ⟨hmoved.moveTo (Cursor.leadsTo_name _), ?_⟩
    have hrest : (s.cursor.skip 5).rest = r := by
      rw [Cursor.rest_skip, hr]
      rfl
    show Bytes.ofString "<jsp:" ++ Cursor.nameOf (s.cursor.skip 5).rest <+: _
    rw [hrest, hr]
    exact (List.prefix_append_right_inj _).mpr (List.takeWhile_prefix _)
  refine (hframed.keeps (rests_actionHead _ _ _).stands
    (returns_actionHead_eq _ _ _) t ht.1).bind ?_
  rintro h u ⟨hu, hk, hstart, hname⟩
  refine (hframed.keeps_any (rests_checkPlacement _ _).stands u hu).bind fun _ u hu => ?_
  refine (keeps_attributes h scriptless u hu.1).bind ?_
  rintro ⟨h', closed⟩ u ⟨hu, hlabel⟩
  simp only [Head.label, Prod.mk.injEq] at hlabel
  obtain ⟨hkind, hstart', hname', -⟩ := hlabel
  have hk' : Kind.action? name = some h'.kind := hk.trans (congrArg some hkind.symm)
  have hne := Kind.ne_include_of_action? hk'
  have hplaces : c.Places h' := by
    refine Passage.Opens.places ?_ (hstart'.trans hstart)
    rw [hnative, Head.opening_of_action? hk', hname', hname]
    exact hin.opens hc ht.2
  refine Agrees.ite (fun _ => Agrees.pure ⟨hu, hs.node hne hplaces c.lays_nil⟩) fun _ => ?_
  exact (keeps_actionBody hinner hc _ (endsWhole_action hk (hname'.trans hname)) _ u hu).bind
    fun cs v hv => Agrees.pure ⟨hv.1, hs.node hne hplaces hv.2⟩

/-- What stands at the cursor where a tag of a bound library does. -/
theorem rest_of_boundTag? {bindings : List (Bytes × Binding)} {r prefixName name : Bytes}
    {b : Binding} (h : boundTag? bindings r = some (prefixName, name, b)) :
    r = prefixName ++ 58 :: name ++ r.dropWhile Cursor.isNameByte := by
  unfold boundTag? at h
  obtain ⟨⟨q, m⟩, hcut, h⟩ := Option.bind_eq_some_iff.mp h
  dsimp only at h
  split at h
  · cases h
  obtain ⟨b', -, h⟩ := Option.bind_eq_some_iff.mp h
  obtain ⟨rfl, rfl, -⟩ : q = prefixName ∧ m = name ∧ b' = b := by simpa using h
  rw [← Bytes.cut?_eq_some hcut]
  exact List.takeWhile_append_dropWhile.symm

theorem customTag_lays {env : Env σ} {x y : Element σ} (hinner : Element.Lays c y x)
    (hc : c.IsLined) (hnative : c.isDocument = false) {prefixName name : Bytes} {b : Binding}
    (scriptless : Bool) {siblings : List Node} (hs : c.Lays siblings) {s : State σ}
    (hin : s.IsIn c k) {r : Bytes} (hr : s.cursor.rest = 60 :: r)
    (hb : boundTag? s.bindings r = some (prefixName, name, b)) :
    Agrees (customTag env y prefixName name b scriptless siblings)
      (customTag env x prefixName name b scriptless siblings) s fun cs t =>
      t.IsIn c (s.cursor.place.offset + 1) ∧ c.Lays cs := by
  have hsplit : s.cursor.rest =
      60 :: (prefixName ++ 58 :: name) ++ r.dropWhile Cursor.isNameByte := by
    rw [hr, List.cons_append, ← rest_of_boundTag? hb]
  have hframed := State.isFramed_isIn c (s.cursor.place.offset + 1)
  have hmoved : State.IsIn c (s.cursor.place.offset + 1)
      { s with cursor := s.cursor.skip (prefixName.length + name.length + 2) } := by
    have hlen : prefixName.length + name.length + 2 =
        (60 :: (prefixName ++ 58 :: name) : Bytes).length := by simp; omega
    refine hin.moveOn (Cursor.leadsTo_skip fun _ => .of_head ?_) ?_
    · rw [hsplit, hlen, List.drop_left]
      exact Cursor.head_dropWhile_isNameByte r
    · rw [Cursor.offset_skip, hr, List.length_cons]
      omega
  refine Agrees.cursor (Agrees.moveTo ?_)
  refine (hframed.keeps (asks_tagHead _ _ _ _ _ _ _).stands (returns_tagHead_eq _ _ _ _ _ _ _) _
    hmoved).bind ?_
  rintro h u ⟨hu, hlabel, htag⟩
  refine (keeps_attributes h scriptless u hu).bind ?_
  rintro ⟨h', closed⟩ u ⟨hu, hlabel'⟩
  dsimp only
  generalize hh : ({ h' with tag := h'.tag.map fun t => { t with selfClosed := closed } } : Head) =
    h''
  have hlabel'' : h''.label = (.customTag, s.cursor.position, prefixName ++ ":" ++ name, []) := by
    rw [← hh]
    exact hlabel'.trans hlabel
  simp only [Head.label, Prod.mk.injEq] at hlabel''
  obtain ⟨hkind, hstart, hname, -⟩ := hlabel''
  have hne : h''.kind ≠ .includeDirective := by rw [hkind]; exact fun h => by cases h
  have hplaces : c.Places h'' := by
    refine Passage.Opens.places ?_ hstart
    have hopening : h''.opening c.isDocument = 60 :: (prefixName ++ 58 :: name) := by
      simp only [Head.opening, hnative, hkind, hname, Kind.isDirective, Bool.false_eq_true,
        if_false]
      rw [List.append_assoc]
      rfl
    rw [hopening]
    exact hin.opens hc ⟨_, hsplit.symm⟩
  refine Agrees.ite (fun _ => Agrees.pure ⟨hu, hs.node hne hplaces c.lays_nil⟩) fun _ => ?_
  refine (keeps_tagBody hinner hc ?_ _ u hu).bind
    fun cs v hv => Agrees.pure ⟨hv.1, hs.node hne hplaces hv.2⟩
  -- The name of the tag follows a colon and is that of a tag of the library.
  intro hw r
  obtain ⟨q, hq, rfl⟩ := boundTag?_eq_some hb
  have hvalid := hw _ (hin.bindings q hq) name htag
  rw [hname, ← List.append_assoc, ← List.append_assoc]
  exact .append (.of_last (b := 58) (by decide) _) (.of_isValid hvalid r)

/-- The code of a scripting element, which its opener starts. -/
theorem scripting_lays (hc : c.IsLined) (hnative : c.isDocument = false) {kind : Kind}
    {opener : Bytes} (hopening : ∀ h : Head, h.kind = kind → h.opening false = opener)
    (hkind : kind ≠ .includeDirective) (hlast : Cursor.EndsInAscii opener) (hne : opener ≠ [])
    (scriptless : Bool) {siblings : List Node} (hs : c.Lays siblings) {s : State σ}
    (hin : s.IsIn c k) (hsees : s.cursor.sees opener = true) :
    Agrees (scripting kind opener s.cursor.position scriptless siblings)
      (scripting kind opener s.cursor.position scriptless siblings) (s.passing opener) fun cs t =>
      t.IsIn c (s.cursor.place.offset + 1) ∧ c.Lays cs := by
  refine keeps_scripting hkind opener (fun code => Passage.Opens.places ?_ rfl) scriptless hs _
    (hin.passed hlast hne hsees)
  rw [hnative, hopening _ rfl]
  exact hin.opens hc (Bytes.startsWith_iff.mp hsees)

/-- **A construct leads on** in the same source, and its node stands where it starts. -/
theorem construct_lays {env : Env σ} (hhost : c.host = env.host) (hc : c.IsLined)
    (hnative : c.isDocument = false) {winc inc : Include σ} (hinc : KeepsIncluded c winc inc)
    {x y : Element σ} (hinner : Element.Lays c y x) (parent : Head) (scriptless : Bool)
    {siblings : List Node} (hs : c.Lays siblings) {s : State σ} (hin : s.IsIn c k)
    (hrest : s.cursor.rest ≠ []) :
    Agrees (construct env winc y parent scriptless siblings)
      (construct env inc x parent scriptless siblings) s fun cs t =>
      t.IsIn c (s.cursor.place.offset + 1) ∧ c.Lays cs := by
  have htext := keeps_templateText hc scriptless hs hin hrest
  refine Agrees.get (Agrees.accepts (fun h => ?_) (Agrees.accepts (fun h => ?_)
    (Agrees.accepts (fun h => ?_) (Agrees.accepts (fun h => ?_) (Agrees.accepts (fun h => ?_)
      (Agrees.ite (fun h => by cases h) fun _ => Agrees.ite (fun h => ?_) fun _ =>
        Agrees.ite (fun _ => ?_) fun _ => Agrees.ite (fun _ => ?_) fun _ =>
        Agrees.ite (fun h => ?_) fun _ => htext))))))
  · exact (keeps_comment _ _ (hin.passed (by decide) (by decide) h)).bind fun _ t ht =>
      Agrees.pure ⟨ht.1, hs⟩
  · exact keeps_directive hhost hnative hinc (hin.opens hc (Bytes.startsWith_iff.mp h)) _ hs _
      (hin.passed (by decide) (by decide) h)
  · refine scripting_lays hc hnative (fun h hk => ?_) (by decide) (by decide) (by decide) _ hs hin h
    simp [Head.opening, hk]
  · refine scripting_lays hc hnative (fun h hk => ?_) (by decide) (by decide) (by decide) _ hs hin h
    simp [Head.opening, hk]
  · refine scripting_lays hc hnative (fun h hk => ?_) (by decide) (by decide) (by decide) _ hs hin h
    simp [Head.opening, hk]
  · exact standardAction_lays hinner hc hnative _ _ hs hin h
  · exact keeps_expression hc hnative _ hs hin hrest
  · exact Agrees.ite (fun _ => agrees_refuse_bind _ _ _) fun _ => htext
  · obtain ⟨r, hr⟩ := Bytes.startsWith_iff.mp h
    have hr : s.cursor.rest = 60 :: r := hr.symm
    cases hb : boundTag? s.bindings (s.cursor.rest.drop 1) with
    | none => exact htext
    | some q =>
      obtain ⟨prefixName, name, b⟩ := q
      exact customTag_lays hinner hc hnative _ hs hin hr (by rwa [hr] at hb)

/-! ### Sources -/

end Native

/-- In the source of the passage the watch lets everything be read, and lead on. -/
structure Watch.Permits (w : Watch σ) (c : Passage σ) : Prop where
  read : ∀ s : State σ, s.IsIn c 0 → w.mayRead s = true
  lead : ∀ s t : State σ, s.IsIn c 0 → t.IsIn c (s.cursor.place.offset + 1) →
    w.mayLead s t = true

theorem Watch.Permits.agrees_around (hw : w.Permits c) {x y : Parse σ α} {s : State σ}
    (hs : s.IsIn c k) {P : α → Prop}
    (hx : Agrees y x s fun a t => t.IsIn c (s.cursor.place.offset + 1) ∧ P a) :
    Agrees (w.around y) x s fun a t => t.IsIn c (s.cursor.place.offset + 1) ∧ P a :=
  have hin := hs.mono (Nat.zero_le k)
  w.agrees_around (hw.read s hin) hx fun _ t ht => hw.lead s t hin ht.1

namespace Native

theorem watchedElement_lays {env : Env σ} (hw : w.Permits c) (hhost : c.host = env.host)
    (hc : c.IsLined) (hnative : c.isDocument = false) {winc inc : Include σ}
    (hinc : KeepsIncluded c winc inc) (fuel : Nat) :
    Element.Lays c (watchedElement w env winc fuel) (element env inc fuel) := by
  induction fuel with
  | zero => exact fun _ _ _ _ _ _ _ _ => Agrees.throw _
  | succ fuel ih =>
    intro k parent scriptless siblings s hs hin hrest
    have hlays := construct_lays hhost hc hnative hinc ih parent scriptless hs hin hrest
    exact (hw.agrees_around hin hlays).mono fun _ t ht =>
      ⟨ht.1.mono (Nat.le_succ_of_le hin.least), ht.2⟩

theorem keeps_sourceWithin {x y : Element σ} (hinner : Element.Lays c y x) (parent : Head)
    (scriptless : Bool) (fuel : Nat) {cs : List Node} (hcs : c.Lays cs) :
    Keeps (State.IsIn c k) (sourceWithin y parent scriptless fuel cs)
      (sourceWithin x parent scriptless fuel cs) c.Lays := by
  induction fuel generalizing cs with
  | zero => exact fun _ _ => Agrees.throw _
  | succ fuel ih =>
    intro s hs
    refine Agrees.cursor (Agrees.ite (fun _ => Agrees.pure ⟨hs, hcs⟩) fun hend => ?_)
    exact (hinner k _ _ _ s hcs hs (hs.rest_ne_nil hend)).bind fun cs' t ht => ih ht.2 t ht.1

/-- The parser of directives goes in rounds. -/
theorem directivesWithin_succ (env : Env σ) (included : Include σ) (fuel : Nat) (cs : List Node) :
    directivesWithin env included (fuel + 1) cs = cursor >>= fun d =>
      if d.atEnd then pure cs
      else round env included cs >>= fun cs' => directivesWithin env included fuel cs' := by
  rw [directivesWithin]
  funext s
  rw [bind_ok (cursor_eq s)]
  rw [bind_ok (cursor_eq s)]
  split
  · rfl
  · rw [round, bind_assoc, bind_ok (cursor_eq s), bind_assoc,
      bind_accepts, bind_accepts]
    split
    · rw [if_pos rfl, if_pos rfl, bind_assoc]
      rfl
    rw [if_neg Bool.false_ne_true, if_neg Bool.false_ne_true, bind_assoc, bind_accepts,
      bind_accepts]
    split
    · rfl
    · rfl

theorem leadsTo_nextTag {whole : Prop} {d : Cursor} (hrest : d.rest ≠ []) :
    d.LeadsTo whole (nextTag d) ∧ d.place.offset < (nextTag d).place.offset := by
  have hpos := List.length_pos_iff.mpr hrest
  unfold nextTag
  split
  · refine ⟨Cursor.leadsTo_skip fun _ => .of_head ?_, ?_⟩
    · rw [List.drop_length]
      exact fun b hb => by cases hb
    · rw [Cursor.offset_skip]
      omega
  · next i hi =>
    obtain ⟨hlt, hfound, -⟩ := List.findIdx?_eq_some_iff_getElem.mp hi
    refine ⟨Cursor.leadsTo_skip fun _ => .of_head fun b hb => ?_, ?_⟩
    · rw [Nat.add_comm, ← List.drop_drop, List.head?_drop, List.getElem?_eq_getElem hlt] at hb
      obtain rfl := Option.some.inj hb
      rw [eq_of_beq hfound]
      decide
    · rw [Cursor.offset_skip]
      omega

theorem round_lays {env : Env σ} (hhost : c.host = env.host) (hc : c.IsLined)
    (hnative : c.isDocument = false) {winc inc : Include σ} (hinc : KeepsIncluded c winc inc)
    {cs : List Node} (hcs : c.Lays cs) {s : State σ} (hin : s.IsIn c k)
    (hrest : s.cursor.rest ≠ []) :
    Agrees (round env winc cs) (round env inc cs) s fun cs' t =>
      t.IsIn c (s.cursor.place.offset + 1) ∧ c.Lays cs' := by
  refine Agrees.cursor (Agrees.accepts (fun h => ?_) (Agrees.accepts (fun h => ?_) ?_))
  · exact (keeps_comment _ _ (hin.passed (by decide) (by decide) h)).bind fun _ t ht =>
      Agrees.pure ⟨ht.1, hcs⟩
  · exact keeps_directive hhost hnative hinc (hin.opens hc (Bytes.startsWith_iff.mp h)) _ hcs _
      (hin.passed (by decide) (by decide) h)
  · obtain ⟨hleads, hlt⟩ := leadsTo_nextTag hrest
    exact Agrees.moveTo (Agrees.pure ⟨hin.moveOn hleads hlt, hcs⟩)

theorem keeps_watchedDirectives {env : Env σ} (hw : w.Permits c) (hhost : c.host = env.host)
    (hc : c.IsLined) (hnative : c.isDocument = false) {winc inc : Include σ}
    (hinc : KeepsIncluded c winc inc) (fuel : Nat) {cs : List Node} (hcs : c.Lays cs) :
    Keeps (State.IsIn c k) (watchedDirectives w env winc fuel cs)
      (directivesWithin env inc fuel cs) c.Lays := by
  induction fuel generalizing cs with
  | zero => exact fun _ _ => Agrees.throw _
  | succ fuel ih =>
    intro s hs
    rw [directivesWithin_succ]
    refine Agrees.cursor (Agrees.ite (fun _ => Agrees.pure ⟨hs, hcs⟩) fun hend => ?_)
    have hround := round_lays hhost hc hnative hinc hcs hs (hs.rest_ne_nil hend)
    refine (hw.agrees_around hs hround).bind fun cs' t ht => ?_
    exact ih ht.2 t (ht.1.mono (Nat.le_succ_of_le hs.least))

/-- **A native source** that is watched raises no alarm, and its nodes lie in it. -/
theorem lays_watchedParse {env : Env σ} (hw : w.Permits c) (hhost : c.host = env.host)
    (hc : c.IsLined) (hnative : c.isDocument = false) {winc inc : Include σ}
    (hinc : KeepsIncluded c winc inc) (parent : Head) (scriptless : Bool) :
    Keeps (State.IsIn c k) (watchedParse w env winc parent scriptless)
      (parse env inc parent scriptless) c.Lays := by
  refine Keeps.get fun s => Keeps.ite ?_ ?_
  · exact keeps_watchedDirectives hw hhost hc hnative hinc _ c.lays_nil
  · exact keeps_sourceWithin (watchedElement_lays hw hhost hc hnative hinc _) _ _ _ c.lays_nil

end Native

end Parsing

end ServerPages
