import ServerPages.Proofs.Parsing

/-!
# Parsers move on

Every parser leaves the cursor where it was or moves it on in its source, and puts back what an
included file changed. The parser of one construct takes at least one byte, so the loops over
constructs, attributes and elements never use up the fuel they are started with: a parser crashes
only if describing a tag file does.

What is relied on of the surroundings is a `Surroundings`.

## Main results

* `Native.element_advances`: a construct takes at least one byte.
* `Native.steady_parse`: a native source is parsed without a crash of its own.
-/

namespace ServerPages

namespace Cursor

/-- The cursor `d` is in order and is not before `c`. -/
structure Precedes (c d : Cursor) : Prop where
  sound : d.IsSound
  rest : d.rest.length ≤ c.rest.length

theorem Precedes.trans {c d e : Cursor} (h : c.Precedes d) (h' : d.Precedes e) : c.Precedes e :=
  ⟨h'.sound, Nat.le_trans h'.rest h.rest⟩

theorem length_rest_pass (c : Cursor) (s : Bytes) :
    (c.pass s).rest.length = c.rest.length - s.length := List.length_drop

theorem IsSound.precedes_pass {c : Cursor} (h : c.IsSound) {s : Bytes}
    (hs : s.length ≤ c.rest.length) : c.Precedes (c.pass s) :=
  ⟨h.pass hs, by rw [length_rest_pass]; omega⟩

theorem IsSound.precedes_skip {c : Cursor} (h : c.IsSound) (n : Nat) : c.Precedes (c.skip n) :=
  h.precedes_pass (by rw [List.length_take]; omega)

theorem length_rest_skip (c : Cursor) (n : Nat) :
    (c.skip n).rest.length = c.rest.length - n := by
  rw [skip, length_rest_pass, List.length_take]
  omega

theorem length_le_of_sees {c : Cursor} {lit : Bytes} (h : c.sees lit = true) :
    lit.length ≤ c.rest.length :=
  (List.isPrefixOf_iff_prefix.mp h).length_le

theorem IsSound.precedes_accept? {c d : Cursor} (h : c.IsSound) {lit : Bytes}
    (hd : c.accept? lit = some d) : c.Precedes d ∧ d.rest.length + lit.length = c.rest.length := by
  unfold accept? at hd
  split at hd
  · next hs =>
      obtain rfl := Option.some.inj hd
      have hlen := length_le_of_sees hs
      exact ⟨h.precedes_pass hlen, by rw [length_rest_pass]; omega⟩
  · cases hd

theorem length_blanks_le (c : Cursor) : c.blanks.length ≤ c.rest.length :=
  (List.takeWhile_sublist _).length_le

theorem IsSound.precedes_skipBlanks {c : Cursor} (h : c.IsSound) : c.Precedes c.skipBlanks :=
  h.precedes_pass c.length_blanks_le

theorem IsSound.precedes_acceptAfterBlanks? {c d : Cursor} (h : c.IsSound) {lit : Bytes}
    (hd : c.acceptAfterBlanks? lit = some d) : c.Precedes d :=
  h.precedes_skipBlanks.trans (h.precedes_skipBlanks.sound.precedes_accept? hd).1

theorem IsSound.precedes_acceptEndTag? {c d : Cursor} (h : c.IsSound) {name : Bytes}
    (hd : c.acceptEndTag? name = some d) : c.Precedes d := by
  obtain ⟨e, he, hed⟩ := Option.bind_eq_some_iff.mp hd
  have hce := (h.precedes_accept? he).1
  exact hce.trans (hce.sound.precedes_acceptAfterBlanks? hed)

theorem IsSound.precedes_seek? {c here after : Cursor} (h : c.IsSound) {lit : Bytes}
    (hs : c.seek? lit = some (here, after)) : c.Precedes after := by
  obtain ⟨i, -, hi⟩ := Option.map_eq_some_iff.mp hs
  obtain ⟨rfl, rfl⟩ := Prod.mk.inj hi
  exact (h.precedes_skip i).trans ((h.precedes_skip i).sound.precedes_skip _)

theorem IsSound.precedes_seekUnescaped? {c here after : Cursor} (h : c.IsSound) {lit : Bytes}
    {esc : UInt8} (hs : c.seekUnescaped? lit esc = some (here, after)) :
    c.Precedes after := by
  obtain ⟨i, -, hi⟩ := Option.map_eq_some_iff.mp hs
  obtain ⟨rfl, rfl⟩ := Prod.mk.inj hi
  exact (h.precedes_skip i).trans ((h.precedes_skip i).sound.precedes_skip _)

theorem IsSound.precedes_seekEndTagWithin {c here after : Cursor} (h : c.IsSound) {name : Bytes}
    {fuel : Nat} (hs : seekEndTagWithin name fuel c = some (here, after)) : c.Precedes after := by
  induction fuel generalizing c with
  | zero => cases hs
  | succ fuel ih =>
    unfold seekEndTagWithin at hs
    split at hs
    · cases hs
    next hseek =>
    have hnext := h.precedes_seek? hseek
    split at hs
    · next done hdone =>
        obtain ⟨-, rfl⟩ := Prod.mk.inj (Option.some.inj hs)
        exact hnext.trans (hnext.sound.precedes_acceptAfterBlanks? hdone)
    · have hblanks := hnext.trans hnext.sound.precedes_skipBlanks
      exact hblanks.trans (ih hblanks.sound hs)

theorem IsSound.precedes_seekEndTag? {c here after : Cursor} (h : c.IsSound) {name : Bytes}
    (hs : c.seekEndTag? name = some (here, after)) : c.Precedes after :=
  h.precedes_seekEndTagWithin hs

theorem IsSound.precedes_name {c : Cursor} (h : c.IsSound) :
    c.Precedes c.name.2 ∧ c.name.2.rest.length + c.name.1.length = c.rest.length := by
  have hlen : (nameOf c.rest).length ≤ c.rest.length := (List.takeWhile_sublist _).length_le
  refine ⟨h.precedes_pass hlen, ?_⟩
  show (c.pass (nameOf c.rest)).rest.length + (nameOf c.rest).length = _
  rw [length_rest_pass]
  omega

end Cursor

/-- What is relied on of the surroundings of a parse. -/
structure Surroundings (σ : Type) where
  /-- What they remember is in order. -/
  keeps : σ → Prop
  /-- A library is one that they give. -/
  gives : TagLibrary → Prop
  /-- A path may name a file that is read. -/
  names : Bytes → Prop
  /-- The files that they load. -/
  files : List Bytes
  /-- The files being read are in order. -/
  reading : List Bytes → Prop
  /-- Why describing a tag may crash. -/
  crashes : Prop

/-- The host does as the surroundings say: what it remembers stays in order, and describing a tag of
a library that it gives crashes only for a reason. -/
structure Surroundings.Holds {σ : Type} (w : Surroundings σ) (host : Host σ) : Prop where
  library : ∀ q, host.library = some q → ∀ uri m, w.keeps m →
    w.keeps (q uri m).2 ∧ ∀ l, (q uri m).1 = .ok l → w.gives l
  names : ∀ base file, w.names base → w.names (includedPath base file)
  load : ∀ q, host.load = some q → ∀ path m, w.names path → w.keeps m →
    w.keeps (q path m).2 ∧ ∀ text, (q path m).1 = .ok text → path ∈ w.files
  tagFile : ∀ q, host.tagFile = some q → ∀ l name path m, w.gives l → l.tagFile? name = some path →
    w.keeps m → (∀ d, (q path m).1 = .ok d → w.keeps (q path m).2) ∧
      ((q path m).1 = .error .crash → w.crashes)
  count : w.files.length ≤ host.fileCount

/-- The surroundings with other files being read. -/
def Surroundings.whileReading {σ : Type} (w : Surroundings σ) (P : List Bytes → Prop) :
    Surroundings σ := { w with reading := P }

namespace Parsing

variable {σ α β : Type}

/-- The state of a parse is in order. -/
structure State.IsSound (w : Surroundings σ) (s : State σ) : Prop where
  cursor : s.cursor.IsSound
  files : w.reading s.files
  memory : w.keeps s.memory
  bindings : ∀ p ∈ s.bindings, w.gives p.2.library

/-- The state `t` is in order and further on in the source that `s` reads, and nothing else that an
included file changes has changed. -/
structure State.Onward (w : Surroundings σ) (s t : State σ) : Prop where
  sound : t.IsSound w
  rest : t.cursor.rest.length ≤ s.cursor.rest.length
  files : t.files = s.files
  document : t.document = s.document
  passed : t.passed = s.passed

variable {w : Surroundings σ}

theorem State.IsSound.onward {s : State σ} (h : s.IsSound w) : s.Onward w s :=
  ⟨h, Nat.le_refl _, rfl, rfl, rfl⟩

theorem State.Onward.trans {s t u : State σ} (h : s.Onward w t) (h' : t.Onward w u) :
    s.Onward w u :=
  ⟨h'.sound, Nat.le_trans h'.rest h.rest, h'.files.trans h.files, h'.document.trans h.document,
    h'.passed.trans h.passed⟩

/-- The parser moves on, or fails without a crash of its own. -/
def Steady (w : Surroundings σ) (x : Parse σ α) : Prop :=
  ∀ s : State σ, s.IsSound w → Ends w.crashes x s fun _ t => s.Onward w t

theorem Steady.at {x : Parse σ α} (hx : Steady w x) {s : State σ} (hs : s.IsSound w) :
    Ends w.crashes x s fun _ t => s.Onward w t := hx s hs

theorem Steady.pure (a : α) : Steady w (Pure.pure a : Parse σ α) :=
  fun _ hs => Ends.pure hs.onward

theorem Steady.bind {x : Parse σ α} {f : α → Parse σ β} (hx : Steady w x)
    (hf : ∀ a, Steady w (f a)) : Steady w (x >>= f) :=
  fun s hs => (hx s hs).bind fun a t ht =>
    (hf a t ht.sound).mono fun _ _ hu => ht.trans hu

theorem Steady.ite {c : Prop} [Decidable c] {x y : Parse σ α} (hx : Steady w x)
    (hy : Steady w y) : Steady w (if c then x else y) := by
  split
  · exact hx
  · exact hy

/-- A parser that is run only under a condition, before others. -/
theorem Steady.guard {c : Prop} [Decidable c] {x : Parse σ Unit} {f : Unit → Parse σ β}
    (hx : Steady w x) (hf : ∀ a, Steady w (f a)) : Steady w (if c then x >>= f else f ()) :=
  Steady.ite (hx.bind hf) (hf ())

theorem steady_refuse (issue : Issue) (p : Position) (m : Bytes) :
    Steady w (refuse issue p m : Parse σ α) :=
  fun _ _ => Ends.of_error rfl fun h => by cases h

theorem Steady.get {f : State σ → Parse σ β} (hf : ∀ s, Steady w (f s)) :
    Steady w (MonadStateOf.get >>= f) :=
  fun s hs => hf s s hs

/-- The parser moves on in a text of fewer than `n` bytes, or fails without a crash of its own. -/
def SteadyBelow (w : Surroundings σ) (n : Nat) (x : Parse σ α) : Prop :=
  ∀ s : State σ, s.IsSound w → s.cursor.rest.length < n →
    Ends w.crashes x s fun _ t => s.Onward w t

theorem Steady.below {x : Parse σ α} (hx : Steady w x) (n : Nat) : SteadyBelow w n x :=
  fun s hs _ => hx s hs

theorem SteadyBelow.bind {n : Nat} {x : Parse σ α} {f : α → Parse σ β} (hx : SteadyBelow w n x)
    (hf : ∀ a, SteadyBelow w n (f a)) : SteadyBelow w n (x >>= f) :=
  fun s hs hn => (hx s hs hn).bind fun a t ht =>
    (hf a t ht.sound (Nat.lt_of_le_of_lt ht.rest hn)).mono fun _ _ hu => ht.trans hu

theorem SteadyBelow.ite {n : Nat} {c : Prop} [Decidable c] {x y : Parse σ α}
    (hx : SteadyBelow w n x) (hy : SteadyBelow w n y) : SteadyBelow w n (if c then x else y) := by
  split
  · exact hx
  · exact hy

theorem Ends.cursor {R : β → State σ → Prop} {s : State σ} {f : Cursor → Parse σ β}
    (hf : Ends w.crashes (f s.cursor) s R) : Ends w.crashes (Parsing.cursor >>= f) s R := hf

/-- A cursor that is further on may be moved to. -/
theorem State.IsSound.moveTo {s : State σ} (hs : s.IsSound w) {c : Cursor}
    (hc : s.cursor.Precedes c) : s.Onward w { s with cursor := c } :=
  ⟨⟨hc.sound, hs.files, hs.memory, hs.bindings⟩, hc.rest, rfl, rfl, rfl⟩

/-- Moving to a cursor that is further on, before other parsers. -/
theorem State.IsSound.moveThen {s : State σ} (hs : s.IsSound w) {c : Cursor}
    (hc : s.cursor.Precedes c) {f : Unit → Parse σ β} (hf : Steady w (f ())) :
    Ends w.crashes (Parsing.moveTo c >>= f) s fun _ t => s.Onward w t :=
  (hf _ (hs.moveTo hc).sound).mono fun _ _ ht => (hs.moveTo hc).trans ht

theorem steady_skipBlanks : Steady w (skipBlanks : Parse σ Unit) :=
  fun _ hs => Ends.of_ok rfl (hs.moveTo hs.cursor.precedes_skipBlanks)

theorem steady_position : Steady w (position : Parse σ Position) :=
  fun _ hs => Ends.of_ok rfl hs.onward

/-- Whether or not a literal stands at the cursor: if it does, the cursor passes it. -/
theorem accepts_ends {s : State σ} (hs : s.IsSound w) (lit : Bytes) :
    Ends w.crashes (accepts lit) s fun b t => s.Onward w t ∧
      if b then t.cursor.rest.length + lit.length = s.cursor.rest.length else t = s := by
  by_cases h : s.cursor.sees lit = true
  · have hlen := Cursor.length_le_of_sees h
    refine Ends.of_ok ((accepts_eq lit s).trans (if_pos h))
      ⟨hs.moveTo (hs.cursor.precedes_pass hlen), ?_⟩
    show (s.cursor.pass lit).rest.length + lit.length = _
    rw [Cursor.length_rest_pass]
    omega
  · exact Ends.of_ok ((accepts_eq lit s).trans (if_neg h)) ⟨hs.onward, rfl⟩

theorem Ends.accepts {R : β → State σ → Prop} {s : State σ} {lit : Bytes} {f : Bool → Parse σ β}
    (hyes : s.cursor.sees lit = true → Ends w.crashes (f true) (s.passing lit) R)
    (hno : Ends w.crashes (f false) s R) : Ends w.crashes (Parsing.accepts lit >>= f) s R := by
  unfold Ends
  rw [bind_accepts]
  split
  · next h => exact hyes h
  · exact hno

theorem steady_accepts (lit : Bytes) : Steady w (accepts lit : Parse σ Bool) :=
  fun _ hs => (accepts_ends hs lit).mono fun _ _ h => h.1

theorem acceptsEndTag_ends {s : State σ} (hs : s.IsSound w) (name : Bytes) :
    Ends w.crashes (acceptsEndTag name) s fun b t => s.Onward w t ∧ (b = false → t = s) := by
  cases h : s.cursor.acceptEndTag? name with
  | some c =>
    refine Ends.of_ok (a := true) (t := { s with cursor := c }) ?_
      ⟨hs.moveTo (hs.cursor.precedes_acceptEndTag? h), fun hb => by cases hb⟩
    rw [acceptsEndTag, bind_ok (cursor_eq s), h]
    rfl
  | none =>
    refine Ends.of_ok (a := false) (t := s) ?_ ⟨hs.onward, fun _ => rfl⟩
    rw [acceptsEndTag, bind_ok (cursor_eq s), h]
    rfl

theorem steady_acceptsEndTag (name : Bytes) : Steady w (acceptsEndTag name : Parse σ Bool) :=
  fun _ hs => (acceptsEndTag_ends hs name).mono fun _ _ h => h.1

theorem readName_ends {s : State σ} (hs : s.IsSound w) :
    Ends w.crashes (readName : Parse σ Bytes) s fun name t => s.Onward w t ∧
      t.cursor.rest.length + name.length = s.cursor.rest.length :=
  Ends.of_ok rfl ⟨hs.moveTo hs.cursor.precedes_name.1, hs.cursor.precedes_name.2⟩

theorem steady_readName : Steady w (readName : Parse σ Bytes) :=
  fun _ hs => (readName_ends hs).mono fun _ _ h => h.1

/-- Asking the host keeps everything but what it remembers. -/
theorem ask_ends {ε : Type} {s : State σ} (hs : s.IsSound w) {q : σ → Except ε α × σ}
    (hq : w.keeps (q s.memory).2) :
    Ends w.crashes (ask q) s fun a t => s.Onward w t ∧ a = (q s.memory).1 :=
  Ends.of_ok rfl ⟨⟨⟨hs.cursor, hs.files, hq, hs.bindings⟩, Nat.le_refl _, rfl, rfl, rfl⟩, rfl⟩

/-! ### Nodes of both syntaxes -/

theorem library_ends {env : Env σ} (hw : w.Holds env.host) {s : State σ} (hs : s.IsSound w)
    (uri : Bytes) (p : Position) :
    Ends w.crashes (library env uri p) s fun l t => s.Onward w t ∧ w.gives l := by
  unfold library
  split
  · exact Ends.of_error rfl fun h => by cases h
  next q hq =>
  obtain ⟨hkeep, hgive⟩ := hw.library q hq uri s.memory hs.memory
  refine (ask_ends hs hkeep).bind fun a t ht => ?_
  obtain ⟨ht, rfl⟩ := ht
  split
  · next l hl => exact Ends.pure ⟨ht, hgive l hl⟩
  · exact Ends.of_error rfl fun h => by cases h

theorem steady_bindPrefix {env : Env σ} (hw : w.Holds env.host) (prefixName uri : Bytes)
    (p : Position) : Steady w (bindPrefix env prefixName uri p) := by
  have hbind : Steady w (do
      let l ← library env uri p
      modify fun s => { s with bindings := (prefixName, ⟨uri, l⟩) :: s.bindings } :
        Parse σ Unit) := by
    intro s hs
    refine (library_ends hw hs uri p).bind fun l t ht => Ends.of_ok rfl ?_
    refine ht.1.trans ⟨⟨ht.1.sound.cursor, ht.1.sound.files, ht.1.sound.memory, ?_⟩,
      Nat.le_refl _, rfl, rfl, rfl⟩
    intro b hb
    rcases List.mem_cons.mp hb with rfl | hb
    · exact ht.2
    · exact ht.1.sound.bindings b hb
  refine Steady.guard (steady_refuse _ _ _) fun _ => Steady.get fun s => ?_
  dsimp only
  split
  · exact Steady.guard (steady_refuse _ _ _) fun _ => hbind
  · exact hbind

theorem steady_directiveHead (name : Bytes) (p : Position) (scriptless : Bool) :
    Steady w (directiveHead name p scriptless : Parse σ Head) := by
  unfold directiveHead
  split
  · exact steady_refuse _ _ _
  · exact Steady.pure _

theorem steady_actionHead (name : Bytes) (p : Position) (scriptless : Bool) :
    Steady w (actionHead name p scriptless : Parse σ Head) := by
  unfold actionHead
  split
  · exact steady_refuse _ _ _
  · exact Steady.pure _

theorem steady_tagDescriptor {env : Env σ} (hw : w.Holds env.host) {l : TagLibrary}
    (hl : w.gives l) (uri prefixName name : Bytes) (p : Position) :
    Steady w (tagDescriptor env l uri prefixName name p) := by
  unfold tagDescriptor
  split
  · exact Steady.pure _
  · exact steady_refuse _ _ _
  next path _ hpath =>
  split
  · exact steady_refuse _ _ _
  next q hq =>
  intro s hs
  obtain ⟨hkeep, hcrash⟩ := hw.tagFile q hq l name path s.memory hl hpath hs.memory
  refine Ends.bind (Q := fun a t => a = (q path s.memory).1 ∧
    t = { s with memory := (q path s.memory).2 }) (Ends.of_ok rfl ⟨rfl, rfl⟩) fun a t ht => ?_
  obtain ⟨rfl, rfl⟩ := ht
  split
  · next d hd =>
      exact Ends.pure ⟨⟨hs.cursor, hs.files, hkeep d hd, hs.bindings⟩, Nat.le_refl _, rfl, rfl, rfl⟩
  · refine Ends.ite (fun _ => Ends.of_error rfl fun h => by cases h) fun _ => ?_
    exact Ends.of_error rfl fun h => by cases h
  · next e _ he => exact Ends.of_error rfl fun h => hcrash (h ▸ he)

theorem steady_tagHead {env : Env σ} (hw : w.Holds env.host) {l : TagLibrary} (hl : w.gives l)
    (uri prefixName name : Bytes) (p : Position) (scriptless : Bool) :
    Steady w (tagHead env l uri prefixName name p scriptless) :=
  (steady_tagDescriptor hw hl _ _ _ _).bind fun _ => Steady.pure _

theorem steady_scriptingNode (kind : Kind) (code : Bytes) (p : Position) (scriptless : Bool) :
    Steady w (scriptingNode kind code p scriptless : Parse σ Node) :=
  Steady.ite (steady_refuse _ _ _) (Steady.pure _)

theorem steady_elNode (uriOf : Bytes → Bytes) (source : Bytes) (p : Position) (scriptless : Bool) :
    Steady w (elNode uriOf source p scriptless : Parse σ Node) := by
  unfold elNode
  split
  · exact steady_refuse _ _ _
  · exact Steady.pure _

theorem steady_segmentNodes (uriOf : Bytes → Bytes) (s : Bytes) (p : Position) (scriptless : Bool)
    (siblings : List Node) (segs : List Expression.Segment) :
    Steady w (segmentNodes uriOf s p scriptless siblings segs : Parse σ (List Node)) := by
  induction segs generalizing siblings with
  | nil => exact Steady.pure _
  | cons seg segs ih =>
    rw [segmentNodes]
    exact Steady.ite ((steady_elNode _ _ _ _).bind fun n => ih _) (ih _)

theorem steady_textNodes (uriOf : Bytes → Bytes) (siblings : List Node) (s : Bytes) (p : Position)
    (scriptless allowEl : Bool) :
    Steady w (textNodes uriOf siblings s p scriptless allowEl : Parse σ (List Node)) := by
  refine Steady.ite (Steady.pure _) (Steady.get fun t => ?_)
  refine Steady.ite (Steady.pure _) (Steady.ite (Steady.pure _) ?_)
  split
  · exact steady_refuse _ _ _
  · exact steady_segmentNodes _ _ _ _ _ _

theorem steady_attributeOf (functionUri : Bytes → Bytes) (h : Head) (a : Attribute) (raw : Bytes)
    (script scriptless : Bool) :
    Steady w (attributeOf functionUri h a raw script scriptless : Parse σ Attribute) := by
  refine Steady.get fun s => Steady.ite (Steady.pure _) (Steady.ite ?_ (Steady.ite ?_ ?_))
  · exact Steady.guard (steady_refuse _ _ _) fun _ => Steady.pure _
  · split
    · exact steady_refuse _ _ _
    · exact Steady.pure _
  · exact Steady.pure _

theorem steady_addAttribute (functionUri : Bytes → Bytes) (uriOf : Option (Bytes → Bytes))
    (h : Head) (name raw : Bytes) (script : Bool) (p : Position) (scriptless : Bool) :
    Steady w (addAttribute functionUri uriOf h name raw script p scriptless : Parse σ Head) := by
  unfold addAttribute
  refine Steady.guard (steady_refuse _ _ _) fun _ => ?_
  refine Steady.guard (steady_refuse _ _ _) fun _ => ?_
  exact (steady_attributeOf _ _ _ _ _ _).bind fun _ => Steady.pure _

theorem steady_applyElIgnored (h : Head) : Steady w (applyElIgnored h : Parse σ Unit) := by
  unfold applyElIgnored
  split
  · exact fun s hs => Ends.of_ok rfl
      ⟨⟨hs.cursor, hs.files, hs.memory, hs.bindings⟩, Nat.le_refl _, rfl, rfl, rfl⟩
  · exact Steady.pure _

theorem steady_applyTaglib {env : Env σ} (hw : w.Holds env.host) (h : Head) :
    Steady w (applyTaglib env h) := by
  unfold applyTaglib
  refine Steady.guard (steady_refuse _ _ _) fun _ => ?_
  dsimp only
  split
  · exact steady_bindPrefix hw _ _ _
  · exact steady_bindPrefix hw _ _ _
  · exact steady_refuse _ _ _

theorem steady_checkPlacement (parent h : Head) :
    Steady w (checkPlacement parent h : Parse σ Unit) :=
  Steady.ite (Steady.pure _) (steady_refuse _ _ _)

theorem steady_checkNamedBody (h : Head) (cs : List Node) :
    Steady w (checkNamedBody h cs : Parse σ Unit) := by
  refine Steady.ite (Steady.pure _) ?_
  split
  · exact Steady.pure _
  · exact steady_refuse _ _ _

theorem steady_checkActionBody (h : Head) (cs : List Node) :
    Steady w (checkActionBody h cs : Parse σ Unit) := by
  unfold checkActionBody
  split
  · exact steady_checkNamedBody _ _
  split
  · exact Steady.pure _
  · exact Steady.ite (steady_refuse _ _ _) (steady_refuse _ _ _)

theorem steady_checkTagBody (h : Head) (cs : List Node) :
    Steady w (checkTagBody h cs : Parse σ Unit) :=
  (steady_checkNamedBody _ _).bind fun _ => Steady.ite (steady_refuse _ _ _) (Steady.pure _)

theorem steady_bodyElementContent (parent : Head) (p : Position) :
    Steady w (bodyElementContent parent p : Parse σ BodyContent) := by
  unfold bodyElementContent
  refine Steady.guard (steady_refuse _ _ _) fun _ => ?_
  exact Steady.guard (steady_refuse _ _ _) fun _ => Steady.pure _

/-! ### Inclusion -/

/-- The parser of a source moves on, or fails without a crash of its own. -/
def SourceParser.IsSteady (w : Surroundings σ) (parse : SourceParser σ) : Prop :=
  ∀ form h scriptless (s : State σ), s.IsSound w →
    Ends w.crashes (parse form h scriptless) s fun _ t => t.IsSound w

/-- An included file is parsed with one more file being read, which is one that can be loaded and is
not being read already; afterwards everything stands where it stood. -/
theorem steady_includeFile {env : Env σ} (hw : w.Holds env.host) {parse : SourceParser σ}
    {P : List Bytes → Prop} (hparse : parse.IsSteady (w.whileReading P))
    (hnames : ∀ fs, w.reading fs → w.names (fs.headD []))
    (hP : ∀ fs, w.reading fs → ∀ path ∈ w.files, w.names path → path ∉ fs → P (path :: fs))
    (h : Head) (scriptless : Bool) : Steady w (includeFile env parse h scriptless) := by
  intro s hs
  unfold includeFile
  split
  · exact Ends.of_error rfl fun h => by cases h
  next file hfile =>
  refine Ends.get ?_
  dsimp only
  have htarget := hw.names _ file.value (hnames s.files hs.files)
  revert htarget
  generalize includedPath (s.files.headD []) file.value = target
  intro htarget
  refine Ends.ite (fun _ => Ends.of_error rfl fun h => by cases h) fun hnew => ?_
  split
  · exact Ends.of_error rfl fun h => by cases h
  next q hq =>
  obtain ⟨hkeep, hload⟩ := hw.load q hq target s.memory htarget hs.memory
  refine (ask_ends hs hkeep).bind fun a t ht => ?_
  obtain ⟨ht, rfl⟩ := ht
  split
  · next text htext =>
      rw [pure_bind]
      split
      · exact Ends.of_error rfl fun h => by cases h
      next inner hinner =>
      have hopen : inner.IsSound := by
        unfold Cursor.open? at hinner
        split at hinner
        · cases hinner
        · obtain rfl := Option.some.inj hinner
          exact Nat.zero_add _
      have hfiles : P (target :: t.files) :=
        ht.files.symm ▸ hP _ hs.files target (hload _ htext) htarget (by simpa using hnew)
      have hinside : State.IsSound (w.whileReading P)
          { t with cursor := inner, files := target :: t.files } :=
        ⟨hopen, hfiles, ht.sound.memory, ht.sound.bindings⟩
      refine Ends.modify ((hparse _ h scriptless _ hinside).bind fun cs v hv => ?_)
      refine Ends.modify (Ends.pure ?_)
      exact ⟨⟨hs.cursor, hs.files, hv.memory, hv.bindings⟩, Nat.le_refl _, rfl, rfl, rfl⟩
  · exact Ends.of_error rfl fun h => by cases h

/-! ### The native syntax -/

namespace Native

theorem steady_comment (p : Position) : Steady w (comment p : Parse σ Unit) := by
  intro s hs
  refine Ends.cursor ?_
  split
  · exact steady_refuse _ _ _ s hs
  · next h => exact Ends.of_ok rfl (hs.moveTo (hs.cursor.precedes_seek? h))

theorem steady_scripting (kind : Kind) (opener : Bytes) (p : Position) (scriptless : Bool)
    (siblings : List Node) :
    Steady w (scripting kind opener p scriptless siblings : Parse σ (List Node)) := by
  intro s hs
  refine Ends.cursor ?_
  split
  · exact steady_refuse _ _ _ s hs
  · next h =>
      exact hs.moveThen (hs.cursor.precedes_seek? h)
        ((steady_scriptingNode _ _ _ _).bind fun _ => Steady.pure _)

/-- Moving on by some bytes that are there takes them. -/
theorem skip_ends {s : State σ} (hs : s.IsSound w) {n : Nat} (hn : 0 < n)
    (hrest : s.cursor.rest ≠ []) {f : Unit → Parse σ β} (hf : Steady w (f ())) :
    Ends w.crashes (moveTo (s.cursor.skip n) >>= f) s fun _ t =>
      s.Onward w t ∧ t.cursor.rest.length < s.cursor.rest.length := by
  have hskip := hs.moveTo (hs.cursor.precedes_skip n)
  refine (hf _ hskip.sound).mono fun _ t ht => ⟨hskip.trans ht, ?_⟩
  have hlen := ht.rest
  have hpos := List.length_pos_iff.mpr hrest
  have hnext : ({ s with cursor := s.cursor.skip n } : State σ).cursor.rest.length =
      s.cursor.rest.length - n := Cursor.length_rest_skip _ _
  omega

theorem expression_ends (scriptless : Bool) (siblings : List Node) {s : State σ}
    (hs : s.IsSound w) (hrest : s.cursor.rest ≠ []) :
    Ends w.crashes (expression scriptless siblings) s fun _ t =>
      s.Onward w t ∧ t.cursor.rest.length < s.cursor.rest.length := by
  refine Ends.get ?_
  dsimp only
  split
  · exact Ends.of_error rfl fun h => by cases h
  next n hn =>
  have hpos : 0 < n := by
    unfold Expression.length? at hn
    split at hn
    · cases hn
    · obtain ⟨k, -, rfl⟩ := Option.map_eq_some_iff.mp hn
      omega
  -- The node is made before the cursor is moved, which changes nothing of the state.
  unfold elNode
  split
  · exact Ends.of_error rfl fun h => by cases h
  · rw [pure_bind]
    exact skip_ends hs hpos hrest (Steady.pure _)

theorem scanText_pos (useEl : Bool) (b : UInt8) (s : Bytes) :
    0 < (scanText useEl 0 true (b :: s)).2 := by
  rw [scanText, if_neg (by simp)]
  exact Nat.succ_pos _

theorem templateText_ends (scriptless : Bool) (siblings : List Node) {s : State σ}
    (hs : s.IsSound w) (hrest : s.cursor.rest ≠ []) :
    Ends w.crashes (templateText scriptless siblings) s fun _ t =>
      s.Onward w t ∧ t.cursor.rest.length < s.cursor.rest.length := by
  refine Ends.get (skip_ends hs ?_ hrest (Steady.pure _))
  obtain ⟨b, r, hr⟩ := List.exists_cons_of_ne_nil hrest
  rw [hr]
  exact scanText_pos _ b r

/-! ### Attributes of the native syntax -/

theorem steady_attributeValue (name : Bytes) (p : Position) :
    Steady w (attributeValue name p : Parse σ (Bytes × Bool)) := by
  refine steady_skipBlanks.bind fun _ => (steady_accepts _).bind fun _ => ?_
  refine Steady.guard (steady_refuse _ _ _) fun _ => steady_skipBlanks.bind fun _ => ?_
  intro s hs
  refine Ends.cursor ?_
  split
  · exact steady_refuse _ _ _ s hs
  refine Ends.ite (fun _ => Ends.of_error rfl fun h => by cases h) fun _ => ?_
  have hstart := hs.cursor.precedes_skip 1
  dsimp only
  split
  · rw [pure_bind]
    dsimp only
    split
    · exact steady_refuse _ _ _ s hs
    · next h =>
        exact hs.moveThen (hstart.trans (hstart.sound.precedes_seekUnescaped? h)) (Steady.pure _)
  next inner hinner =>
  have hcode := hstart.trans (hstart.sound.precedes_accept? hinner).1
  split
  · exact Ends.of_error rfl fun h => by cases h
  next here after hafter =>
  have hend := hcode.trans (hcode.sound.precedes_seekUnescaped? hafter)
  split
  · rw [pure_bind]
    dsimp only
    split
    · exact steady_refuse _ _ _ s hs
    · next h =>
        exact hs.moveThen (hstart.trans (hstart.sound.precedes_seekUnescaped? h)) (Steady.pure _)
  · next done hdone =>
      rw [pure_bind]
      exact hs.moveThen (hend.trans (hend.sound.precedes_accept? hdone).1) (Steady.pure _)

theorem attributeName_ends (place : Bytes) {s : State σ} (hs : s.IsSound w) :
    Ends w.crashes (attributeName place : Parse σ (Position × Bytes)) s fun _ t =>
      s.Onward w t ∧ t.cursor.rest.length < s.cursor.rest.length := by
  refine Ends.cursor ((readName_ends hs).bind fun name t ht => ?_)
  refine Ends.ite (fun _ => Ends.of_error rfl fun h => by cases h) fun hne => Ends.pure ⟨ht.1, ?_⟩
  have hpos : 0 < name.length := List.length_pos_iff.mpr (by simpa using hne)
  have hlen := ht.2
  omega

/-- What is read after an attribute has less left to read. -/
theorem attribute_ends {β : Type} (place : Bytes) (uriOf : State σ → Option (Bytes → Bytes))
    (flag : Bool → Bool) (h : Head) (scriptless : Bool) {next : Head → Parse σ β} {s : State σ}
    (hs : s.IsSound w) (hnext : ∀ h' t, t.IsSound w → t.cursor.rest.length < s.cursor.rest.length →
      Ends w.crashes (next h') t fun _ u => t.Onward w u) :
    Ends w.crashes (do
      let (p, name) ← attributeName place
      let (value, script) ← attributeValue name p
      let t ← get
      let h' ← addAttribute t.uriOf (uriOf t) h name value (flag script) p scriptless
      next h') s fun _ u => s.Onward w u := by
  refine (attributeName_ends _ hs).bind fun r x hx => ?_
  refine (steady_attributeValue _ _ x hx.1.sound).bind fun r y hy => Ends.get ?_
  have hy' := hx.1.trans hy
  refine (steady_addAttribute _ _ _ _ _ _ _ _ y hy.sound).bind fun h' z hz => ?_
  have hlen := hz.rest
  have hlen' := hy.rest
  have hlen'' := hx.2
  exact (hnext h' z hz.sound (by omega)).mono fun _ _ h => (hy'.trans hz).trans h

theorem attributesWithin_ends (scriptless : Bool) (fuel : Nat) (h : Head) {s : State σ}
    (hs : s.IsSound w) (hfuel : s.cursor.rest.length < fuel) :
    Ends w.crashes (attributesWithin scriptless fuel h) s fun _ t => s.Onward w t := by
  induction fuel generalizing h s with
  | zero => omega
  | succ fuel ih =>
    refine (steady_skipBlanks s hs).bind fun _ t ht => ?_
    refine (steady_accepts _ t ht.sound).bind fun _ u hu => ?_
    have hu' := ht.trans hu
    refine Ends.ite (fun _ => Ends.pure hu') fun _ => ?_
    refine (steady_accepts _ u hu.sound).bind fun _ v hv => ?_
    have hv' := hu'.trans hv
    refine Ends.ite (fun _ => Ends.pure hv') fun _ => Ends.cursor ?_
    refine Ends.ite (fun _ => Ends.of_error rfl fun h => by cases h) fun _ => ?_
    refine (attribute_ends _ (fun y => some y.uriOf) id h scriptless hv.sound
      fun h' z hz hread => ih h' hz ?_).mono fun _ _ => hv'.trans
    have hlen := hv'.rest
    omega

theorem steady_attributes (h : Head) (scriptless : Bool) :
    Steady w (attributes h scriptless : Parse σ (Head × Bool)) :=
  fun _ hs => Ends.cursor (attributesWithin_ends _ _ _ hs (Nat.lt_succ_self _))

theorem directiveAttributes_ends (scriptless : Bool) (fuel : Nat) (h : Head) {s : State σ}
    (hs : s.IsSound w) (hfuel : s.cursor.rest.length < fuel) :
    Ends w.crashes (directiveAttributes scriptless fuel h) s fun _ t => s.Onward w t := by
  induction fuel generalizing h s with
  | zero => omega
  | succ fuel ih =>
    refine (steady_skipBlanks s hs).bind fun _ t ht => ?_
    refine (steady_accepts _ t ht.sound).bind fun _ u hu => ?_
    have hu' := ht.trans hu
    refine Ends.ite (fun _ => Ends.pure hu') fun _ => Ends.cursor ?_
    refine Ends.ite (fun _ => Ends.of_error rfl fun h => by cases h) fun _ => ?_
    refine (attribute_ends _ (fun _ => none) (fun _ => false) h scriptless hu.sound
      fun h' z hz hread => ih h' hz ?_).mono fun _ _ => hu'.trans
    have hlen := hu'.rest
    omega

theorem steady_directive {env : Env σ} (hw : w.Holds env.host) {included : Include σ}
    (hinc : ∀ h scriptless, Steady w (included h scriptless)) (p : Position) (scriptless : Bool)
    (siblings : List Node) : Steady w (directive env included p scriptless siblings) := by
  refine steady_skipBlanks.bind fun _ => steady_readName.bind fun name => ?_
  refine (steady_directiveHead _ _ _).bind fun h => ?_
  intro s hs
  refine Ends.cursor ((directiveAttributes_ends _ _ _ hs (Nat.lt_succ_self _)).bind
    fun h t ht => (Steady.at ?_ ht.sound).mono fun _ _ hu => ht.trans hu)
  dsimp only
  split
  · exact (steady_applyTaglib hw _).bind fun _ => Steady.pure _
  · exact (steady_applyElIgnored _).bind fun _ => Steady.pure _
  · exact (steady_applyElIgnored _).bind fun _ => Steady.pure _
  · exact (hinc _ _).bind fun _ => Steady.pure _
  · exact Steady.pure _

/-! ### Bodies -/

/-- The parser of one construct takes at least one byte of a text of fewer than `n` bytes that is
not at its end. -/
def Element.Advances (w : Surroundings σ) (n : Nat) (inner : Element σ) : Prop :=
  ∀ parent scriptless siblings (s : State σ), s.IsSound w → s.cursor.rest ≠ [] →
    s.cursor.rest.length < n →
    Ends w.crashes (inner parent scriptless siblings) s fun _ t =>
      s.Onward w t ∧ t.cursor.rest.length < s.cursor.rest.length

theorem steady_opaqueBody (h : Head) (scriptless : Bool) :
    Steady w (opaqueBody h scriptless : Parse σ (List Node)) := by
  intro s hs
  refine Ends.cursor ?_
  split
  · exact steady_refuse _ _ _ s hs
  · next hseek => exact hs.moveThen (hs.cursor.precedes_seekEndTag? hseek) (Steady.pure _)

theorem steady_textBody (h : Head) (scriptless : Bool) :
    Steady w (textBody h scriptless : Parse σ (List Node)) := by
  intro s hs
  refine Ends.cursor ?_
  split
  · exact steady_refuse _ _ _ s hs
  next hseek =>
  refine hs.moveThen (hs.cursor.precedes_seekEndTag? hseek) ?_
  dsimp only
  split
  · exact steady_refuse _ _ _
  · exact Steady.get fun _ => steady_textNodes _ _ _ _ _ _

theorem steady_startsWithNamedAttribute :
    Steady w (startsWithNamedAttribute : Parse σ Bool) :=
  fun _ hs => Ends.of_ok rfl hs.onward

section Bodies

variable {inner : Element σ} {n : Nat} (hinner : inner.Advances w n)

include hinner

theorem bodyWithin_ends (h : Head) (scriptless : Bool) (fuel : Nat) (cs : List Node) {s : State σ}
    (hs : s.IsSound w) (hn : s.cursor.rest.length < n) (hfuel : s.cursor.rest.length < fuel) :
    Ends w.crashes (bodyWithin inner h scriptless fuel cs) s fun _ t => s.Onward w t := by
  induction fuel generalizing cs s with
  | zero => omega
  | succ fuel ih =>
    refine (acceptsEndTag_ends hs _).bind fun b t ht => ?_
    refine Ends.ite (fun _ => Ends.pure ht.1) fun hb => Ends.cursor ?_
    obtain rfl := ht.2 (by simpa using hb)
    refine Ends.ite (fun _ => Ends.of_error rfl fun h => by cases h) fun hend => ?_
    have hrest : t.cursor.rest ≠ [] := fun h => hend (hs.cursor.atEnd_iff.mpr h)
    refine (hinner _ _ _ t hs hrest hn).bind fun cs' u hu => ?_
    have hlen := hu.2
    exact (ih cs' hu.1.sound (by omega) (by omega)).mono fun _ _ h => hu.1.trans h

theorem steadyBelow_body (h : Head) (scriptless : Bool) :
    SteadyBelow w n (body inner h scriptless) :=
  fun _ hs hn => Ends.cursor (bodyWithin_ends hinner _ _ _ _ hs hn (Nat.lt_succ_self _))

theorem restrictedWithin_ends (h : Head) (scriptless : Bool) {allows : Bytes → Bool}
    (hallows : allows [] = false) (complaint : Bytes) (fuel : Nat) (cs : List Node) {s : State σ}
    (hs : s.IsSound w) (hn : s.cursor.rest.length < n) (hfuel : s.cursor.rest.length < fuel) :
    Ends w.crashes (restrictedWithin inner h scriptless allows complaint fuel cs) s
      fun _ t => s.Onward w t := by
  induction fuel generalizing cs s with
  | zero => omega
  | succ fuel ih =>
    refine (steady_skipBlanks s hs).bind fun _ t ht => Ends.cursor ?_
    refine (acceptsEndTag_ends ht.sound _).bind fun b u hu => ?_
    refine Ends.ite (fun _ => Ends.pure (ht.trans hu.1)) fun hb => ?_
    obtain rfl := hu.2 (by simpa using hb)
    have hlen := ht.rest
    refine (accepts_ends ht.sound _).bind fun b v hv => ?_
    refine Ends.ite (fun hb => ?_) fun hb => ?_
    · rw [if_pos hb] at hv
      refine (steady_comment _ v hv.1.sound).bind fun _ x hx => ?_
      have hlen' := hx.rest
      have hlen'' := hv.2
      have hpos : 0 < ("<%--" : Bytes).length := by decide
      refine (ih cs hx.sound (by omega) (by omega)).mono fun _ _ h => ?_
      exact (ht.trans hv.1).trans (hx.trans h)
    · rw [if_neg hb] at hv
      obtain ⟨-, rfl⟩ := hv
      refine Ends.ite (fun ha => ?_) fun _ => ?_
      · have hrest : v.cursor.rest ≠ [] := fun h => by simp [h, hallows] at ha
        refine (hinner _ _ _ v ht.sound hrest (by omega)).bind fun cs' x hx => ?_
        have hlen' := hx.2
        refine (ih cs' hx.1.sound (by omega) (by omega)).mono fun _ _ h => ?_
        exact (ht.trans hx.1).trans h
      · refine Ends.ite (fun _ => ?_) fun _ => ?_
        · exact Ends.of_error rfl fun h => by cases h
        · exact Ends.of_error rfl fun h => by cases h

theorem steadyBelow_restrictedBody (h : Head) (scriptless : Bool) {allows : Bytes → Bool}
    (hallows : allows [] = false) (complaint : Bytes) :
    SteadyBelow w n (restrictedBody inner h scriptless allows complaint) :=
  fun _ hs hn => Ends.cursor
    (restrictedWithin_ends hinner _ _ hallows _ _ _ hs hn (Nat.lt_succ_self _))

theorem steadyBelow_namedBody (h : Head) (scriptless : Bool) :
    SteadyBelow w n (namedBody inner h scriptless) :=
  steadyBelow_restrictedBody hinner _ _ rfl _

theorem steadyBelow_actionsBody (h : Head) (scriptless : Bool) (allowed : List Bytes) :
    SteadyBelow w n (actionsBody inner h scriptless allowed) :=
  steadyBelow_restrictedBody hinner _ _ rfl _

theorem steadyBelow_emptyBody (h : Head) (scriptless : Bool) :
    SteadyBelow w n (emptyBody inner h scriptless) := by
  refine SteadyBelow.bind (Steady.below (steady_acceptsEndTag _) n) fun _ => ?_
  refine SteadyBelow.ite ((Steady.pure _).below n) ?_
  refine (steady_startsWithNamedAttribute.below n).bind fun _ => ?_
  refine SteadyBelow.ite (steadyBelow_namedBody hinner _ _) (Steady.below ?_ n)
  exact steady_position.bind fun _ => steady_refuse _ _ _

theorem steadyBelow_contentBody (h : Head) (content : BodyContent) (scriptless : Bool) :
    SteadyBelow w n (contentBody inner h content scriptless) := by
  unfold contentBody
  split
  · exact (steady_opaqueBody _ _).below n
  · exact steadyBelow_body hinner _ _
  · exact steadyBelow_body hinner _ _

theorem steadyBelow_tagBody (h : Head) (scriptless : Bool) :
    SteadyBelow w n (tagBody inner h scriptless) := by
  refine (steady_startsWithNamedAttribute.below n).bind fun _ => ?_
  refine SteadyBelow.ite (steadyBelow_namedBody hinner _ _) ?_
  split
  · exact steadyBelow_emptyBody hinner _ _
  · exact steadyBelow_contentBody hinner _ _ _

theorem steadyBelow_actionBody (parent h : Head) (scriptless : Bool) :
    SteadyBelow w n (actionBody inner parent h scriptless) := by
  unfold actionBody
  split
  case h_1 | h_2 | h_3 | h_4 => exact steadyBelow_emptyBody hinner _ _
  case h_5 =>
    refine Steady.below ((steady_acceptsEndTag _).bind fun _ => ?_) n
    exact Steady.ite (Steady.pure _) (steady_position.bind fun _ => steady_refuse _ _ _)
  case h_6 | h_7 | h_8 | h_9 => exact steadyBelow_actionsBody hinner _ _ _
  case h_10 => exact (steady_opaqueBody _ _).below n
  case h_11 => exact (steady_textBody _ _).below n
  case h_12 =>
    refine SteadyBelow.bind ((steady_bodyElementContent _ _).below n) fun _ => ?_
    exact steadyBelow_contentBody hinner _ _ _
  case h_13 => exact steadyBelow_body hinner _ _

end Bodies

/-! ### Elements -/

/-- A parser that goes on after some bytes that are there. -/
theorem skipBelow_ends {n : Nat} {s : State σ} (hs : s.IsSound w) {k : Nat} (hk : 0 < k)
    (hrest : s.cursor.rest ≠ []) (hn : s.cursor.rest.length ≤ n) {f : Unit → Parse σ β}
    (hf : SteadyBelow w n (f ())) :
    Ends w.crashes (moveTo (s.cursor.skip k) >>= f) s fun _ t =>
      s.Onward w t ∧ t.cursor.rest.length < s.cursor.rest.length := by
  have hskip := hs.moveTo (hs.cursor.precedes_skip k)
  have hpos := List.length_pos_iff.mpr hrest
  have hnext : ({ s with cursor := s.cursor.skip k } : State σ).cursor.rest.length =
      s.cursor.rest.length - k := Cursor.length_rest_skip _ _
  refine (hf _ hskip.sound (by omega)).mono fun _ t ht => ⟨hskip.trans ht, ?_⟩
  have hlen := ht.rest
  omega

section Elements

variable {inner : Element σ} {n : Nat} (hinner : inner.Advances w n)

include hinner

theorem standardAction_ends (parent : Head) (scriptless : Bool) (siblings : List Node)
    {s : State σ} (hs : s.IsSound w) (hrest : s.cursor.rest ≠ [])
    (hn : s.cursor.rest.length ≤ n) :
    Ends w.crashes (standardAction inner parent scriptless siblings) s fun _ t =>
      s.Onward w t ∧ t.cursor.rest.length < s.cursor.rest.length := by
  refine Ends.cursor (skipBelow_ends hs (by omega) hrest hn ?_)
  refine (steady_readName.below n).bind fun name => ?_
  refine ((steady_actionHead _ _ _).below n).bind fun h => ?_
  refine ((steady_checkPlacement _ _).below n).bind fun _ => ?_
  refine ((steady_attributes _ _).below n).bind fun r => ?_
  refine SteadyBelow.ite ((Steady.pure _).below n) ?_
  exact (steadyBelow_actionBody hinner _ _ _).bind fun _ => (Steady.pure _).below n

theorem customTag_ends {env : Env σ} (hw : w.Holds env.host) (prefixName name : Bytes)
    {b : Binding} (hb : w.gives b.library) (scriptless : Bool) (siblings : List Node)
    {s : State σ} (hs : s.IsSound w) (hrest : s.cursor.rest ≠ [])
    (hn : s.cursor.rest.length ≤ n) :
    Ends w.crashes (customTag env inner prefixName name b scriptless siblings) s fun _ t =>
      s.Onward w t ∧ t.cursor.rest.length < s.cursor.rest.length := by
  refine Ends.cursor (skipBelow_ends hs (by omega) hrest hn ?_)
  refine ((steady_tagHead hw hb _ _ _ _ _).below n).bind fun h => ?_
  refine ((steady_attributes _ _).below n).bind fun r => ?_
  refine SteadyBelow.ite ((Steady.pure _).below n) ?_
  exact (steadyBelow_tagBody hinner _ _).bind fun _ => (Steady.pure _).below n

end Elements

theorem boundTag?_eq_some {bindings : List (Bytes × Binding)} {s prefixName name : Bytes}
    {b : Binding} (h : boundTag? bindings s = some (prefixName, name, b)) :
    ∃ p ∈ bindings, p.2 = b := by
  unfold boundTag? at h
  obtain ⟨⟨q, m⟩, -, h⟩ := Option.bind_eq_some_iff.mp h
  dsimp only at h
  split at h
  · cases h
  · obtain ⟨c, hc, h⟩ := Option.bind_eq_some_iff.mp h
    obtain ⟨l, r, hl, -⟩ := List.lookup_eq_some_iff.mp hc
    obtain ⟨-, -, rfl⟩ : q = prefixName ∧ m = name ∧ c = b := by simpa using h
    exact ⟨(q, c), by rw [hl]; simp, rfl⟩

/-- After a literal that is at the cursor, a steady parser has taken at least a byte. -/
theorem passing_ends {s : State σ} (hs : s.IsSound w) {lit : Bytes} (hlit : lit ≠ [])
    (hsees : s.cursor.sees lit = true) {x : Parse σ α} (hx : Steady w x) :
    Ends w.crashes x (s.passing lit) fun _ t =>
      s.Onward w t ∧ t.cursor.rest.length < s.cursor.rest.length := by
  have hlen := Cursor.length_le_of_sees hsees
  have hpass := hs.moveTo (hs.cursor.precedes_pass hlen)
  refine (hx _ hpass.sound).mono fun _ t ht => ⟨hpass.trans ht, ?_⟩
  have hpos := List.length_pos_iff.mpr hlit
  have hrest : (s.passing lit).cursor.rest.length = s.cursor.rest.length - lit.length :=
    Cursor.length_rest_pass _ _
  have hlen' : t.cursor.rest.length ≤ (s.passing lit).cursor.rest.length := ht.rest
  omega

/-- **One construct takes at least one byte**, if those inside it do. -/
theorem construct_advances {env : Env σ} (hw : w.Holds env.host) {included : Include σ}
    (hinc : ∀ h scriptless, Steady w (included h scriptless)) {inner : Element σ} {n : Nat}
    (hinner : inner.Advances w n) :
    Element.Advances w (n + 1) (construct env included inner) := by
  intro parent scriptless siblings s hs hrest hn
  have hn' : s.cursor.rest.length ≤ n := Nat.le_of_lt_succ hn
  have htext := templateText_ends scriptless siblings hs hrest
  refine Ends.get (Ends.accepts (fun h => ?_) (Ends.accepts (fun h => ?_)
    (Ends.accepts (fun h => ?_) (Ends.accepts (fun h => ?_) (Ends.accepts (fun h => ?_)
      (Ends.ite (fun h => by cases h) fun _ => Ends.ite (fun _ => ?_) fun _ =>
        Ends.ite (fun _ => ?_) fun _ => Ends.ite (fun _ => ?_) fun _ =>
        Ends.ite (fun _ => ?_) fun _ => htext))))))
  · exact passing_ends hs (by decide) h ((steady_comment _).bind fun _ => Steady.pure _)
  · exact passing_ends hs (by decide) h (steady_directive hw hinc _ _ _)
  · exact passing_ends hs (by decide) h (steady_scripting _ _ _ _ _)
  · exact passing_ends hs (by decide) h (steady_scripting _ _ _ _ _)
  · exact passing_ends hs (by decide) h (steady_scripting _ _ _ _ _)
  · exact standardAction_ends hinner _ _ _ hs hrest hn'
  · exact expression_ends _ _ hs hrest
  · exact Ends.ite (fun _ => Ends.of_error rfl fun h => by cases h) fun _ => htext
  · split
    · next prefixName name b hb =>
        obtain ⟨p, hp, rfl⟩ := boundTag?_eq_some hb
        exact customTag_ends hinner hw _ _ (hs.bindings p hp) _ _ hs hrest hn'
    · exact htext

/-- **One construct takes at least one byte** of a text that is shorter than the fuel. -/
theorem element_advances {env : Env σ} (hw : w.Holds env.host) {included : Include σ}
    (hinc : ∀ h scriptless, Steady w (included h scriptless)) (fuel : Nat) :
    Element.Advances w fuel (element env included fuel) := by
  induction fuel with
  | zero => exact fun _ _ _ _ _ _ h => absurd h (Nat.not_lt_zero _)
  | succ fuel ih => exact construct_advances hw hinc ih

/-! ### Sources -/

theorem sourceWithin_ends {inner : Element σ} {n : Nat} (hinner : inner.Advances w n)
    (parent : Head) (scriptless : Bool) (fuel : Nat) (cs : List Node) {s : State σ}
    (hs : s.IsSound w) (hn : s.cursor.rest.length < n) (hfuel : s.cursor.rest.length < fuel) :
    Ends w.crashes (sourceWithin inner parent scriptless fuel cs) s fun _ t => s.Onward w t := by
  induction fuel generalizing cs s with
  | zero => omega
  | succ fuel ih =>
    refine Ends.cursor (Ends.ite (fun _ => Ends.pure hs.onward) fun hend => ?_)
    have hrest : s.cursor.rest ≠ [] := fun h => hend (hs.cursor.atEnd_iff.mpr h)
    refine (hinner _ _ _ s hs hrest hn).bind fun cs' t ht => ?_
    have hlen := ht.2
    exact (ih cs' ht.1.sound (by omega) (by omega)).mono fun _ _ h => ht.1.trans h

/-- The next tag is further on. -/
theorem precedes_nextTag {c : Cursor} (hc : c.IsSound) (hrest : c.rest ≠ []) :
    c.Precedes (nextTag c) ∧ (nextTag c).rest.length < c.rest.length := by
  have hpos := List.length_pos_iff.mpr hrest
  unfold nextTag
  split
  · refine ⟨hc.precedes_skip _, ?_⟩
    rw [Cursor.length_rest_skip]
    omega
  · refine ⟨hc.precedes_skip _, ?_⟩
    rw [Cursor.length_rest_skip]
    omega

theorem directivesWithin_ends {env : Env σ} (hw : w.Holds env.host) {included : Include σ}
    (hinc : ∀ h scriptless, Steady w (included h scriptless)) (fuel : Nat) (cs : List Node)
    {s : State σ} (hs : s.IsSound w) (hfuel : s.cursor.rest.length < fuel) :
    Ends w.crashes (directivesWithin env included fuel cs) s fun _ t => s.Onward w t := by
  induction fuel generalizing cs s with
  | zero => omega
  | succ fuel ih =>
    have hrec : ∀ (cs' : List Node) (t : State σ), s.Onward w t →
        t.cursor.rest.length < s.cursor.rest.length →
        Ends w.crashes (directivesWithin env included fuel cs') t fun _ u => s.Onward w u :=
      fun cs' t ht hlen => (ih cs' ht.sound (by omega)).mono fun _ _ h => ht.trans h
    refine Ends.cursor (Ends.ite (fun _ => Ends.pure hs.onward) fun hend => ?_)
    have hrest : s.cursor.rest ≠ [] := fun h => hend (hs.cursor.atEnd_iff.mpr h)
    refine Ends.accepts (fun h => ?_) (Ends.accepts (fun h => ?_) ?_)
    · exact (passing_ends hs (by decide) h (steady_comment _)).bind fun _ t ht =>
        hrec _ t ht.1 ht.2
    · exact (passing_ends hs (by decide) h (steady_directive hw hinc _ _ _)).bind fun cs' t ht =>
        hrec cs' t ht.1 ht.2
    · obtain ⟨hnext, hlen⟩ := precedes_nextTag hs.cursor hrest
      exact hrec _ { s with cursor := nextTag s.cursor } (hs.moveTo hnext) hlen

/-- A native source is parsed without a crash of its own. -/
theorem steady_parse {env : Env σ} (hw : w.Holds env.host) {included : Include σ}
    (hinc : ∀ h scriptless, Steady w (included h scriptless)) (parent : Head)
    (scriptless : Bool) : Steady w (parse env included parent scriptless) := by
  intro s hs
  refine Ends.cursor (Ends.ite (fun _ => ?_) fun _ => ?_)
  · exact directivesWithin_ends hw hinc _ _ hs (Nat.lt_succ_self _)
  · exact sourceWithin_ends (element_advances hw hinc _) _ _ _ _ hs (Nat.lt_succ_self _)
      (Nat.lt_succ_self _)

end Native

end Parsing

end ServerPages
