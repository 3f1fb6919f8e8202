import ServerPages.Proofs.Bytes
import ServerPages.Proofs.Parsing
import ServerPages.Proofs.Utf8

/-!
# Template text

Template text is scanned in pieces: a piece takes its first character whatever it is and then runs
up to the next `<` or expression. Pieces that follow each other become one text node, because the
position where one ends is the position where the next one starts.

Text is plain if it is well formed and holds none of the literals that start a construct or escape
from template text. A `<` alone starts no construct, so plain text may be scanned in many pieces.

## Main results

* `Native.scanText_first`: a piece of template text is taken as it is.
* `Native.sourceWithin_plain`: plain text goes on with the text before it.
* `ParseRequest.parse_plain`: a native page of plain text is one text node.
-/

namespace ServerPages

namespace LineCol

theorem advance_append {s : Bytes} (hs : Utf8.isValid s = true) (p : LineCol) (t : Bytes) :
    p.advance (s ++ t) = (p.advance s).advance t := by
  obtain ⟨cs, hcs, rfl⟩ := (Utf8.isValid_iff s).mp hs
  have h := Utf8.chars_encodeAll_append hcs []
  rw [Utf8.chars_nil, List.append_nil, List.append_nil] at h
  rw [advance, advance, advance, Utf8.chars_encodeAll_append hcs, h, List.foldl_append]

end LineCol

namespace Parsing.Native

variable {σ : Type}

/-! ### Scanning -/

/-- Whether template text ends before a text, its first character apart. -/
def stopsText (useEl : Bool) : Bytes → Bool
  | [] => true
  | b :: s => b == 60 || (useEl && Expression.isOpener (b :: s))

/-- Whether a text starts with an escape of template text. -/
def startsEscape (useEl : Bool) (s : Bytes) : Bool :=
  s.startsWith "<\\%" || s.startsWith "%\\>" ||
    (useEl && s.head? == some 92 && Expression.isOpener s.tail)

theorem scanText_skip (useEl first : Bool) (k : Nat) (s : Bytes) :
    scanText useEl k first s =
      ((scanText useEl 0 first (s.drop k)).1,
        (scanText useEl 0 first (s.drop k)).2 + min k s.length) := by
  induction s generalizing k with
  | nil => cases k <;> rfl
  | cons b s ih =>
    cases k with
    | zero => simp
    | succ k =>
      rw [scanText, ih k, List.drop_succ_cons]
      simp only [List.length_cons]
      congr 1
      omega

theorem scanText_stop {useEl : Bool} {s : Bytes} (h : stopsText useEl s = true) :
    scanText useEl 0 false s = ([], 0) := by
  cases s with
  | nil => rfl
  | cons b s =>
    rw [stopsText] at h
    rw [scanText, if_pos (by simpa using h)]

/-- A character that neither ends the text nor starts an escape is part of the text. -/
theorem scanText_char {useEl first : Bool} {c : Nat} (hs : Utf8.isScalar c = true) {t : Bytes}
    (hstop : first = true ∨ stopsText useEl (Utf8.encode c ++ t) = false)
    (hesc : startsEscape useEl (Utf8.encode c ++ t) = false) :
    scanText useEl 0 first (Utf8.encode c ++ t) =
      (Utf8.encode c ++ (scanText useEl 0 false t).1,
        (Utf8.encode c).length + (scanText useEl 0 false t).2) := by
  obtain ⟨b, r, he⟩ := List.exists_cons_of_ne_nil (Utf8.encode_ne_nil c)
  have hc := Utf8.charAt_encode_append hs he t
  rw [he, List.cons_append] at hstop hesc ⊢
  simp only [startsEscape, Bool.or_eq_false_iff, List.head?_cons, List.tail_cons] at hesc
  obtain ⟨⟨h1, h2⟩, h3⟩ := hesc
  have h0 : (!first && (b == 60 || (useEl && Expression.isOpener (b :: (r ++ t))))) = false := by
    rcases hstop with rfl | h
    · rfl
    · rw [stopsText] at h
      rw [h, Bool.and_false]
  have h3' : (useEl && b == 92 && Expression.isOpener (r ++ t)) = false := by
    simpa using h3
  rw [scanText, h0, h1, h2, h3', hc, he]
  simp only [Bool.false_eq_true, if_false, List.length_cons, Nat.add_sub_cancel]
  rw [scanText_skip, List.drop_left]
  refine Prod.ext (by rw [he]) ?_
  simp only [List.length_append]
  omega

/-- Inside the text `r` before `t` nothing ends template text or escapes from it. -/
def IsRun (useEl : Bool) (r t : Bytes) : Prop :=
  ∀ u, u <:+ r → u ≠ [] → stopsText useEl (u ++ t) = false ∧ startsEscape useEl (u ++ t) = false

theorem scanText_run {useEl : Bool} {cs : List Nat} (hcs : ∀ c ∈ cs, Utf8.isScalar c = true)
    {t : Bytes} (ht : stopsText useEl t = true) (hr : IsRun useEl (Utf8.encodeAll cs) t) :
    scanText useEl 0 false (Utf8.encodeAll cs ++ t) =
      (Utf8.encodeAll cs, (Utf8.encodeAll cs).length) := by
  induction cs with
  | nil => exact scanText_stop ht
  | cons c cs ih =>
    have hne : Utf8.encodeAll (c :: cs) ≠ [] := by
      simp [Utf8.encodeAll_cons, Utf8.encode_ne_nil]
    obtain ⟨hstop, hesc⟩ := hr _ (List.suffix_refl _) hne
    have hr' : IsRun useEl (Utf8.encodeAll cs) t :=
      fun u hu hne => hr u (hu.trans (List.suffix_append _ _)) hne
    rw [Utf8.encodeAll_cons, List.append_assoc] at hstop hesc ⊢
    rw [scanText_char (hcs c List.mem_cons_self) (Or.inr hstop) hesc,
      ih (fun d hd => hcs d (List.mem_cons_of_mem c hd)) hr', List.length_append]

/-- Template text: a character and a run after it, up to where the text ends. -/
theorem scanText_first {useEl : Bool} {c : Nat} {cs : List Nat}
    (hcs : ∀ d ∈ c :: cs, Utf8.isScalar d = true) {t : Bytes} (ht : stopsText useEl t = true)
    (hc : startsEscape useEl (Utf8.encodeAll (c :: cs) ++ t) = false)
    (hr : IsRun useEl (Utf8.encodeAll cs) t) :
    scanText useEl 0 true (Utf8.encodeAll (c :: cs) ++ t) =
      (Utf8.encodeAll (c :: cs), (Utf8.encodeAll (c :: cs)).length) := by
  rw [Utf8.encodeAll_cons, List.append_assoc] at hc ⊢
  rw [scanText_char (hcs c List.mem_cons_self) (Or.inl rfl) hc,
    scanText_run (fun d hd => hcs d (List.mem_cons_of_mem c hd)) ht hr, List.length_append]

/-! ### Plain text -/

/-- The literals that start a construct or escape from template text. -/
def markers : List Bytes :=
  ["<%", "<\\%", "%\\>", "<jsp:", "</jsp:", "$\x7b", "#\x7b"]

/-- Well-formed text that holds no construct, tags of libraries apart. -/
structure IsPlain (s : Bytes) : Prop where
  isValid : Utf8.isValid s = true
  noMarker : ∀ m ∈ markers, ¬ m <:+: s

theorem IsPlain.not_startsWith {s u : Bytes} (h : IsPlain s) (hu : u <:+ s) {m : Bytes}
    (hm : m ∈ markers) : u.startsWith m = false := by
  rw [Bool.eq_false_iff, ne_eq, Bytes.startsWith_iff]
  exact fun hp => h.noMarker m hm (hp.isInfix.trans hu.isInfix)

theorem isOpener_iff {s : Bytes} : Expression.isOpener s = true ↔
    s.startsWith "$\x7b" = true ∨ s.startsWith "#\x7b" = true := by
  have h1 : Bytes.ofString "$\x7b" = [36, 123] := rfl
  have h2 : Bytes.ofString "#\x7b" = [35, 123] := rfl
  rw [h1, h2]
  rcases s with - | ⟨a, - | ⟨b, s⟩⟩ <;> simp [Expression.isOpener, Bytes.startsWith]
  grind

theorem IsPlain.isOpener_eq_false {s u : Bytes} (h : IsPlain s) (hu : u <:+ s) :
    Expression.isOpener u = false := by
  rw [Bool.eq_false_iff, ne_eq, isOpener_iff, h.not_startsWith hu (by simp [markers]),
    h.not_startsWith hu (by simp [markers])]
  simp

theorem IsPlain.startsEscape_eq_false {s u : Bytes} (h : IsPlain s) (hu : u <:+ s)
    (useEl : Bool) : startsEscape useEl u = false := by
  have h3 : Expression.isOpener u.tail = false :=
    h.isOpener_eq_false ((List.tail_suffix u).trans hu)
  rw [startsEscape, h.not_startsWith hu (by simp [markers]),
    h.not_startsWith hu (by simp [markers]), h3, Bool.and_false]
  rfl

theorem IsPlain.of_suffix {s u : Bytes} (h : IsPlain s) (hv : Utf8.isValid u = true)
    (hu : u <:+ s) : IsPlain u :=
  ⟨hv, fun m hm hi => h.noMarker m hm (hi.trans hu.isInfix)⟩

theorem lessThan_not_mem_encodeAll {cs : List Nat} (h : 60 ∉ cs) :
    (60 : UInt8) ∉ Utf8.encodeAll cs := by
  intro hm
  obtain ⟨c, hc, hb⟩ := List.mem_flatMap.mp hm
  by_cases h80 : c < 0x80
  · rw [Utf8.encode_one h80, List.mem_singleton] at hb
    have hn := congrArg UInt8.toNat hb
    rw [Utf8.toNat_toUInt8 (by omega)] at hn
    exact h (by rw [show (60 : Nat) = c from hn]; exact hc)
  · have := Utf8.le_of_mem_encode (by omega) hb
    simp at this

/-- Plain text is scanned in pieces: the first one runs up to the next `<`. -/
theorem IsPlain.scanText_eq {s : Bytes} (h : IsPlain s) (hne : s ≠ []) :
    ∃ r t, s = r ++ t ∧ r ≠ [] ∧ Utf8.isValid r = true ∧ IsPlain t ∧
      ∀ useEl, scanText useEl 0 true s = (r, r.length) := by
  obtain ⟨cs, hcs, rfl⟩ := (Utf8.isValid_iff s).mp h.isValid
  rcases cs with - | ⟨c, cs⟩
  · exact absurd rfl hne
  obtain ⟨ds, es, rfl, hds, hes⟩ : ∃ ds es, cs = ds ++ es ∧ 60 ∉ ds ∧
      (es = [] ∨ ∃ fs, es = 60 :: fs) := by
    by_cases hm : 60 ∈ cs
    · obtain ⟨ds, fs, rfl, hds⟩ := List.eq_append_cons_of_mem hm
      exact ⟨ds, 60 :: fs, rfl, hds, Or.inr ⟨fs, rfl⟩⟩
    · exact ⟨cs, [], (List.append_nil cs).symm, hm, Or.inl rfl⟩
  have hsplit : Utf8.encodeAll (c :: (ds ++ es)) =
      Utf8.encodeAll (c :: ds) ++ Utf8.encodeAll es := by
    rw [← List.cons_append, Utf8.encodeAll_append]
  have hscalar : ∀ d ∈ c :: ds, Utf8.isScalar d = true := fun d hd => hcs d (by grind)
  have hsuffix : Utf8.encodeAll es <:+ Utf8.encodeAll (c :: (ds ++ es)) := by
    rw [hsplit]
    exact List.suffix_append _ _
  refine ⟨Utf8.encodeAll (c :: ds), Utf8.encodeAll es, hsplit, ?_, Utf8.isValid_encodeAll hscalar,
    h.of_suffix (Utf8.isValid_encodeAll fun d hd => hcs d (by grind)) hsuffix, ?_⟩
  · simp [Utf8.encodeAll_cons, Utf8.encode_ne_nil]
  intro useEl
  rw [hsplit]
  refine scanText_first hscalar ?_ ?_ ?_
  · rcases hes with rfl | ⟨fs, rfl⟩
    · rfl
    · rfl
  · rw [← hsplit]
    exact h.startsEscape_eq_false (List.suffix_refl _) useEl
  · intro u hu hne
    have hu' : u ++ Utf8.encodeAll es <:+ Utf8.encodeAll (c :: (ds ++ es)) := by
      obtain ⟨v, hv⟩ := hu
      exact ⟨Utf8.encode c ++ v, by rw [hsplit, Utf8.encodeAll_cons, ← hv]; simp⟩
    refine ⟨?_, h.startsEscape_eq_false hu' useEl⟩
    rcases u with - | ⟨b, u⟩
    · exact absurd rfl hne
    have hb : b ≠ 60 := by
      rintro rfl
      exact lessThan_not_mem_encodeAll hds (hu.subset List.mem_cons_self)
    have ho := h.isOpener_eq_false hu'
    rw [List.cons_append] at ho
    simp [stopsText, hb, ho]

/-- No end tag of a standard action starts in plain text. -/
theorem IsPlain.isBoundEnd_eq_false {s : Bytes} (h : IsPlain s) (hs : s.startsWith "</" = true) :
    isBoundEnd [] (s.drop 2) = false := by
  obtain ⟨u, rfl⟩ := Bytes.startsWith_iff.mp hs
  rw [show (Bytes.ofString "</" ++ u).drop 2 = u from rfl, isBoundEnd]
  split
  · rfl
  next prefixName base hcut =>
  have hne : prefixName ≠ Bytes.ofString "jsp" := by
    rintro rfl
    have hp : Bytes.ofString "jsp" ++ 58 :: base <+: u := by
      rw [← Bytes.cut?_eq_some hcut]
      exact List.takeWhile_prefix _
    have hm : Bytes.ofString "</jsp:" <+: Bytes.ofString "</" ++ u := by
      obtain ⟨v, rfl⟩ := hp
      exact ⟨base ++ v, rfl⟩
    exact h.noMarker "</jsp:" (by simp [markers]) hm.isInfix
  simpa using hne

/-- Where plain text stands, template text is read. -/
theorem construct_plain (env : Env σ) (included : Include σ) (inner : Element σ) (parent : Head)
    (scriptless : Bool) (siblings : List Node) {s : State σ} (h : IsPlain s.cursor.rest)
    (hb : s.bindings = []) :
    construct env included inner parent scriptless siblings s =
      templateText scriptless siblings s := by
  have hno : ∀ lit : Bytes, Bytes.ofString "<%" <+: lit → s.cursor.sees lit = false := by
    intro lit hlit
    rw [Cursor.sees, Bool.eq_false_iff, ne_eq, Bytes.startsWith_iff]
    exact fun hp => h.noMarker "<%" (by simp [markers]) (hlit.trans hp).isInfix
  have hjsp : s.cursor.sees "<jsp:" = false :=
    h.not_startsWith (List.suffix_refl _) (by simp [markers])
  have hel : (!s.elIgnored && Expression.isOpener s.cursor.rest) = false := by
    rw [h.isOpener_eq_false (List.suffix_refl _), Bool.and_false]
  have hend : (s.cursor.sees "</" && isBoundEnd s.bindings (s.cursor.rest.drop 2)) = false := by
    rw [hb]
    by_cases hs : s.cursor.sees "</" = true
    · rw [h.isBoundEnd_eq_false hs, Bool.and_false]
    · simp [hs]
  have htag : boundTag? s.bindings (s.cursor.rest.drop 1) = none := by
    rw [hb, boundTag?]
    rcases Bytes.cut? 58 (Cursor.nameOf (s.cursor.rest.drop 1)) with - | ⟨a, b⟩
    · rfl
    · simp only [Option.bind_eq_bind, Option.bind_some, List.lookup_nil, Option.bind_none]
      split <;> rfl
  rw [construct_eq]
  dsimp only
  rw [hno _ (by decide), hno _ (by decide), hno _ (by decide), hno _ (by decide),
    hno _ (List.prefix_refl _), hjsp, hel, hend, htag]
  simp only [Bool.false_eq_true, if_false]
  split
  · rfl
  · split <;> rfl

/-- The template text at the cursor is scanned and passed. -/
theorem templateText_eq (scriptless : Bool) (siblings : List Node) {s : State σ} {r t : Bytes}
    (hrest : s.cursor.rest = r ++ t)
    (hscan : scanText (!s.elIgnored) 0 true s.cursor.rest = (r, r.length)) :
    templateText scriptless siblings s =
      .ok (Node.push siblings (textNode r s.cursor.position scriptless)) (s.passing r) := by
  have hskip : s.cursor.skip r.length = s.cursor.pass r := by
    rw [Cursor.skip, hrest, List.take_left]
  rw [templateText, bind_get, hscan]
  dsimp only
  rw [hskip]
  rfl

/-- Text that goes on where the text before it ends is added to it. -/
theorem push_textNode {t r : Bytes} {p q : Position} (scriptless : Bool) (hfile : p.file = q.file)
    (hat : LineCol.advance ⟨p.line, p.col⟩ t = ⟨q.line, q.col⟩) :
    Node.push [textNode t p scriptless] (textNode r q scriptless) =
      [textNode (t ++ r) p scriptless] := by
  have h : (textNode t p scriptless).isContinuedBy (textNode r q scriptless) = true := by
    simp [Node.isContinuedBy, textNode, Node.leaf, Node.start, Node.head, Node.text,
      Position.advance, hat, hfile]
  simp only [Node.push, List.getLast?_singleton]
  rw [if_pos (by rw [h]; rfl)]
  rfl

/-- The content of a source whose rest is plain text continues the text before it. -/
theorem sourceWithin_plain (env : Env σ) (included : Include σ) (depth : Nat) (parent : Head)
    (fuel : Nat) {s : State σ} {t : Bytes} {p : Position} (hs : s.cursor.IsSound)
    (hb : s.bindings = []) (hr : IsPlain s.cursor.rest) (ht : Utf8.isValid t = true)
    (hfile : p.file = s.cursor.place.source.name)
    (hat : LineCol.advance ⟨p.line, p.col⟩ t = ⟨s.cursor.place.line, s.cursor.place.col⟩)
    (hfuel : s.cursor.rest.length < fuel) :
    ∃ s', sourceWithin (element env included (depth + 1)) parent false fuel
        [textNode t p false] s = .ok [textNode (t ++ s.cursor.rest) p false] s' ∧
      s'.memory = s.memory := by
  induction fuel generalizing s t with
  | zero => omega
  | succ fuel ih =>
    by_cases hnil : s.cursor.rest = []
    · refine ⟨s, ?_, rfl⟩
      have hend : s.cursor.atEnd = true := hs.atEnd_iff.mpr hnil
      rw [sourceWithin, bind_ok (cursor_eq s), if_pos hend, hnil,
        List.append_nil]
      rfl
    · obtain ⟨r, u, hru, hrne, hrv, hu, hscan⟩ := hr.scanText_eq hnil
      have hend : ¬ s.cursor.atEnd = true := fun h => hnil (hs.atEnd_iff.mp h)
      have hstep : element env included (depth + 1) parent false [textNode t p false] s =
          .ok [textNode (t ++ r) p false] (s.passing r) := by
        rw [element, construct_plain env included _ parent false _ hr hb,
          templateText_eq false _ hru (hscan _),
          push_textNode (q := s.cursor.position) false hfile hat]
      have hrest : (s.passing r).cursor.rest = u := State.rest_passing hru
      have hlen := congrArg List.length hru
      have hpos := List.length_pos_iff.mpr hrne
      rw [List.length_append] at hlen
      have hat' : LineCol.advance ⟨p.line, p.col⟩ (t ++ r) =
          ⟨(s.passing r).cursor.place.line, (s.passing r).cursor.place.col⟩ := by
        rw [LineCol.advance_append ht, hat]
        rfl
      obtain ⟨s', hs', hm⟩ := ih (s := s.passing r) (t := t ++ r)
        (hs.pass (by omega)) hb (hrest ▸ hu) (Utf8.isValid_append ht hrv) hfile hat'
        (by rw [hrest]; omega)
      refine ⟨s', ?_, hm⟩
      rw [sourceWithin, bind_ok (cursor_eq s), if_neg hend,
        bind_ok hstep, hs', hrest, List.append_assoc, ← hru]

/-- The one text node of a source that is plain text; an empty source has none. -/
def textNodesOf (s : Bytes) (p : Position) : List Node :=
  if s = [] then [] else [textNode s p false]

/-- A source that is plain text is parsed as one text node. -/
theorem parse_plain (env : Env σ) (included : Include σ) (parent : Head) {s : State σ}
    (henv : env.directivesOnly = false) (hs : s.cursor.IsSound) (hb : s.bindings = [])
    (hr : IsPlain s.cursor.rest) :
    ∃ s', parse env included parent false s =
        .ok (textNodesOf s.cursor.rest s.cursor.position) s' ∧ s'.memory = s.memory := by
  have hparse : parse env included parent false s =
      sourceWithin (element env included (s.cursor.rest.length + 1)) parent false
        (s.cursor.rest.length + 1) [] s := by
    rw [parse, bind_ok (cursor_eq s), henv]
    rfl
  by_cases hnil : s.cursor.rest = []
  · refine ⟨s, ?_, rfl⟩
    rw [hparse, sourceWithin, bind_ok (cursor_eq s),
      if_pos (hs.atEnd_iff.mpr hnil), textNodesOf, if_pos hnil]
    rfl
  obtain ⟨r, u, hru, hrne, hrv, hu, hscan⟩ := hr.scanText_eq hnil
  have hstep : element env included (s.cursor.rest.length + 1) parent false [] s =
      .ok [textNode r s.cursor.position false] (s.passing r) := by
    rw [element, construct_plain env included _ parent false _ hr hb,
      templateText_eq false _ hru (hscan _)]
    rfl
  have hrest : (s.passing r).cursor.rest = u := State.rest_passing hru
  have hlen := congrArg List.length hru
  have hpos := List.length_pos_iff.mpr hrne
  rw [List.length_append] at hlen
  obtain ⟨s', hs', hm⟩ := sourceWithin_plain env included s.cursor.rest.length parent
    s.cursor.rest.length (s := s.passing r) (p := s.cursor.position)
    (hs.pass (by omega)) hb (hrest ▸ hu) hrv rfl rfl (by rw [hrest]; omega)
  refine ⟨s', ?_, hm⟩
  rw [hparse, sourceWithin, bind_ok (cursor_eq s),
    if_neg fun h => hnil (hs.atEnd_iff.mp h), bind_ok hstep, hs', hrest, ← hru, textNodesOf,
    if_neg hnil]

end Parsing.Native

/-- **A native page of plain text is one text node**, whatever the surroundings. -/
theorem ParseRequest.parse_plain {σ : Type} {r : ParseRequest} (host : Host σ) (memory : σ)
    (hform : r.form = .native) (hdir : r.directivesOnly = false)
    (h : Parsing.Native.IsPlain r.text) :
    r.parse host memory =
      (.ok (.mk (r.root (Cursor.ofText r.path r.text).position)
        (Parsing.Native.textNodesOf r.text (Cursor.ofText r.path r.text).position)), memory) := by
  have hactual : r.actualForm = .native := by rw [ParseRequest.actualForm, hform]
  have hsound : (Cursor.ofText r.path r.text).IsSound := Nat.zero_add _
  obtain ⟨s', hs', hm⟩ := Parsing.Native.parse_plain (r.env host) (r.included host)
    (r.root (Cursor.ofText r.path r.text).position) (s := r.start memory) hdir hsound rfl h
  rw [ParseRequest.parse_native host memory hactual, hs']
  exact Prod.ext rfl hm

end ServerPages
