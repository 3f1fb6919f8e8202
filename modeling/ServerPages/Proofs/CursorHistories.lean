import ServerPages.Proofs.FirstOccurrences

/-!
# Histories of a cursor

A parser calls a cursor in any order: it reads, searches, opens sources and leaves them, and goes
back to bookmarks, also to ones in sources that it has left since. `Cursor.Call` lists the calls and
`Trail.after` tells what one leaves of the cursor and of the bookmarks taken so far.

Every call keeps a trail exact (`Trail.IsExact.after`). A call that reads or searches leads on in
one source (`Cursor.LeadsTo`), one that opens or closes a source moves a place to the stack or off
it, and a bookmark keeps a place and a stack that were exact when it was taken. Columns are counted
piece by piece, so they need calls that end no piece inside a character (`Trail.IsWhole`): a skip to
a boundary, or a literal in ASCII.

## Main results

* `Trail.IsExact.afterAll`: an exact trail stays exact, whatever is called.
* `Trail.after_of_fails`: a call that fails changes nothing.
* `Trail.run_isExact`: what holds of a cursor and its bookmarks after any calls.
-/

namespace ServerPages

/-! ### Pieces in ASCII -/

namespace Utf8

/-- The text is ASCII. -/
def IsAscii (s : Bytes) : Prop := ∀ b ∈ s, b.toNat < 0x80

instance (s : Bytes) : Decidable (IsAscii s) :=
  List.decidableBAll (fun b : UInt8 => b.toNat < 0x80) s

end Utf8

namespace Cursor

variable {whole : Prop} {c d e here after : Cursor} {lit name : Bytes} {n : Nat}

theorem endsInAscii_of_isAscii (h : Utf8.IsAscii lit) : EndsInAscii lit :=
  fun b hb => h b (List.mem_of_getLast? hb)

/-- The first place with a property where an ASCII literal stands, and the place after the literal.
An empty literal stands where the cursor is. -/
theorem leadsTo_first {P : Nat → Prop} {i : Nat} (hlit : whole → Utf8.IsAscii lit)
    (hleast : IsLeast {j | P j} i) (hempty : lit = [] → P 0)
    (hafter : (c.skip i).accept? lit = some after) :
    c.LeadsTo whole (c.skip i) ∧ c.LeadsTo whole after := by
  have hends : whole → EndsInAscii lit := fun hw => endsInAscii_of_isAscii (hlit hw)
  have hpre := (accept?_eq_some_iff.mp hafter).1
  have hhere : c.LeadsTo whole (c.skip i) := by
    cases lit with
    | nil =>
      obtain rfl : i = 0 := Nat.le_zero.mp (hleast.2 (hempty rfl))
      exact leadsTo_skip fun _ => .nil _
    | cons b s =>
      exact leadsTo_skip_literal (fun hw => hlit hw b List.mem_cons_self) (rest_skip c i ▸ hpre)
  exact ⟨hhere, hhere.trans (leadsTo_accept? hends hafter)⟩

theorem leadsTo_seek?_ascii (hlit : whole → Utf8.IsAscii lit)
    (h : c.seek? lit = some (here, after)) : c.LeadsTo whole here ∧ c.LeadsTo whole after := by
  obtain ⟨i, hleast, rfl, hafter⟩ := seek?_eq_some_iff.mp h
  exact leadsTo_first hlit hleast (fun hnil => hnil ▸ List.nil_prefix) hafter

theorem leadsTo_seekUnescaped?_ascii {e : UInt8} (hlit : whole → Utf8.IsAscii lit)
    (h : c.seekUnescaped? lit e = some (here, after)) :
    c.LeadsTo whole here ∧ c.LeadsTo whole after := by
  obtain ⟨i, hleast, rfl, hafter⟩ := seekUnescaped?_eq_some_iff.mp h
  exact leadsTo_first hlit hleast (fun hnil => ⟨hnil ▸ List.nil_prefix, ⟨0, rfl⟩⟩) hafter

/-- The names of end tags are ASCII after an ASCII opening. -/
theorem leadsTo_seekEndTag?_ascii (hname : whole → Utf8.IsAscii name)
    (h : c.seekEndTag? name = some (here, after)) :
    c.LeadsTo whole here ∧ c.LeadsTo whole after := by
  have hopening : Utf8.IsAscii (Bytes.ofString "</") := by decide
  have hascii : whole → Utf8.IsAscii ("</" ++ name) := fun hw b hb =>
    (List.mem_append.mp hb).elim (hopening b) (hname hw b)
  exact leadsTo_seekEndTagWithin (fun hw => .of_getLast? (endsInAscii_of_isAscii (hascii hw))) h

/-- Some bytes are skipped up to a boundary. -/
theorem leadsTo_skip_boundary (hboundary : whole →
      Utf8.IsBoundary c.place.source.data (c.skip n).place.offset) :
    c.LeadsTo whole (c.skip n) := by
  refine ⟨rfl, rfl, Nat.le_add_right _ _, fun h => ?_⟩
  refine h.advance_to (List.take_prefix n c.rest) fun hw => ?_
  have hcut := (hboundary hw).isCut
  have hrest : c.place.rest.drop (c.rest.take n).length =
      c.place.source.data.drop (c.place.offset + (c.rest.take n).length) := by
    rw [h.rest, List.drop_drop]
  rw [hrest]
  exact hcut

/-! ### Cursors -/

/-- The places of the cursor are exact, and no two sources on the stack have one name. -/
structure IsExact (whole : Prop) (c : Cursor) : Prop where
  places : ∀ p ∈ c.place :: c.outer, p.IsExact whole
  names : (c.file :: c.includedFrom).Nodup

theorem isExact_ofText (name data : Bytes) : (ofText name data).IsExact whole where
  places _ hp := List.mem_singleton.mp hp ▸ Place.isExact_start whole _
  names := List.nodup_cons.mpr ⟨List.not_mem_nil, List.nodup_nil⟩

theorem IsExact.leadsTo (h : c.IsExact whole) (hd : c.LeadsTo whole d) : d.IsExact whole := by
  obtain ⟨hplace, houter⟩ := List.forall_mem_cons.mp h.places
  refine ⟨List.forall_mem_cons.mpr ⟨hd.exact hplace, hd.outer ▸ houter⟩, ?_⟩
  rw [file, includedFrom, hd.source, hd.outer]
  exact h.names

/-- A source is opened under a name of its own. -/
theorem IsExact.open? (h : c.IsExact whole) {data : Bytes} (hd : c.open? name data = some d) :
    d.IsExact whole := by
  rw [Cursor.open?] at hd
  split at hd
  · cases hd
  next hno =>
  obtain rfl := Option.some.inj hd
  refine ⟨List.forall_mem_cons.mpr ⟨Place.isExact_start whole _, h.places⟩,
    List.nodup_cons.mpr ⟨fun hmem => hno ?_, h.names⟩⟩
  rw [isReading, Bool.or_eq_true, List.any_eq_true]
  rcases List.mem_cons.mp hmem with heq | hmem
  · exact .inl (beq_iff_eq.mpr heq.symm)
  · obtain ⟨p, hp, heq⟩ := List.mem_map.mp hmem
    exact .inr ⟨p, hp, beq_iff_eq.mpr heq⟩

theorem IsExact.close? (h : c.IsExact whole) (hd : c.close? = some d) : d.IsExact whole := by
  rw [Cursor.close?] at hd
  split at hd
  · cases hd
  next p ps houter =>
  obtain rfl := Option.some.inj hd
  have hplaces := h.places
  have hnames := h.names
  rw [houter] at hplaces
  rw [includedFrom, houter] at hnames
  exact ⟨fun q hq => hplaces q (List.mem_cons_of_mem _ hq), (List.nodup_cons.mp hnames).2⟩

theorem IsExact.reset? (h : d.IsExact whole) (hd : c.reset? d.bookmark = some e) :
    e.IsExact whole := by
  obtain rfl := Option.some.inj hd
  exact ⟨h.places, h.names⟩

/-! ### Calls -/

/-- A call on a cursor. -/
inductive Call where
  /-- Reads a character. -/
  | next
  /-- Passes a number of bytes. -/
  | skip (n : Nat)
  /-- Passes blanks. -/
  | skipBlanks
  /-- Passes a literal. -/
  | accept (lit : Bytes)
  /-- Passes blanks and a literal. -/
  | acceptAfterBlanks (lit : Bytes)
  /-- Passes an end tag. -/
  | acceptEndTag (name : Bytes)
  /-- Looks for a literal. -/
  | seek (lit : Bytes)
  /-- Looks for a literal that is not escaped. -/
  | seekUnescaped (lit : Bytes) (esc : UInt8)
  /-- Looks for an end tag. -/
  | seekEndTag (name : Bytes)
  /-- Reads a name. -/
  | name
  /-- Reads a token. -/
  | token (quoted : Bool)
  /-- Opens a source. -/
  | openSource (name data : Bytes)
  /-- Goes back to the source suspended last. -/
  | closeSource
  /-- Takes a bookmark. -/
  | mark
  /-- Goes back to the bookmark that was taken `i` bookmarks before the latest. -/
  | reset (i : Nat)
  deriving DecidableEq

end Cursor

/-- A cursor and the bookmarks that were taken with it, the latest first. -/
structure Trail where
  /-- Where the cursor is. -/
  cursor : Cursor
  /-- The bookmarks. -/
  marks : List Bookmark := []
  deriving DecidableEq

namespace Trail

variable {whole : Prop} {r : Trail}

/-- What an operation on the cursor reports and leaves. One that fails gives no cursor, and the old
one stays. -/
def move (r : Trail) : Option Cursor → Bool × Trail
  | some c => (true, { r with cursor := c })
  | none => (false, r)

/-- What a search reports and leaves. A bookmark is taken where it leads. -/
def found (r : Trail) : Option (Cursor × Cursor) → Bool × Trail
  | some (here, after) => (true, ⟨after, here.bookmark :: r.marks⟩)
  | none => (false, r)

/-- Whether a call reports success, and what it leaves. -/
def after (r : Trail) : Cursor.Call → Bool × Trail
  | .next => (r.cursor.next.1.isSome, { r with cursor := r.cursor.next.2 })
  | .skip n => r.move (r.cursor.skip n)
  | .skipBlanks => r.move r.cursor.skipBlanks
  | .accept lit => r.move (r.cursor.accept? lit)
  | .acceptAfterBlanks lit => r.move (r.cursor.acceptAfterBlanks? lit)
  | .acceptEndTag name => r.move (r.cursor.acceptEndTag? name)
  | .seek lit => r.found (r.cursor.seek? lit)
  | .seekUnescaped lit esc => r.found (r.cursor.seekUnescaped? lit esc)
  | .seekEndTag name => r.found (r.cursor.seekEndTag? name)
  | .name => r.move r.cursor.name.2
  | .token quoted =>
    ((r.cursor.token quoted).1.isSome, { r with cursor := (r.cursor.token quoted).2 })
  | .openSource name data => r.move (r.cursor.open? name data)
  | .closeSource => r.move r.cursor.close?
  | .mark => (true, { r with marks := r.cursor.bookmark :: r.marks })
  | .reset i => r.move (r.marks[i]?.bind r.cursor.reset?)

/-- What calls leave. -/
def afterAll (r : Trail) (calls : List Cursor.Call) : Trail :=
  calls.foldl (fun r call => (r.after call).2) r

/-- What calls on a cursor at the start of a text leave. -/
def run (name data : Bytes) (calls : List Cursor.Call) : Trail :=
  afterAll ⟨.ofText name data, []⟩ calls

/-- The places of the cursor and of the bookmarks, the suspended ones included. -/
def places (r : Trail) : List Place :=
  r.cursor.place :: r.cursor.outer ++
    r.marks.flatMap fun m => (m.saved.map fun (p, outer) => p :: outer).getD []

/-- The call ends no piece inside a character: it skips to a boundary, or its literal is ASCII. -/
def IsWhole (r : Trail) : Cursor.Call → Prop
  | .skip n => Utf8.IsBoundary r.cursor.place.source.data (r.cursor.skip n).place.offset
  | .accept lit | .acceptAfterBlanks lit | .acceptEndTag lit | .seek lit | .seekUnescaped lit _
  | .seekEndTag lit => Utf8.IsAscii lit
  | _ => True

/-- None of the calls ends a piece inside a character. -/
def AllWhole (r : Trail) : List Cursor.Call → Prop
  | [] => True
  | call :: calls => r.IsWhole call ∧ (r.after call).2.AllWhole calls

/-- The cursor is exact, and so is every bookmark. -/
structure IsExact (whole : Prop) (r : Trail) : Prop where
  cursor : r.cursor.IsExact whole
  marks : ∀ m ∈ r.marks, ∃ c : Cursor, m = c.bookmark ∧ c.IsExact whole

theorem IsExact.move (h : r.IsExact whole) {o : Option Cursor}
    (ho : ∀ c ∈ o, c.IsExact whole) : (r.move o).2.IsExact whole := by
  cases o with
  | none => exact h
  | some c => exact ⟨ho c rfl, h.marks⟩

theorem IsExact.found (h : r.IsExact whole) {o : Option (Cursor × Cursor)}
    (ho : ∀ here after, o = some (here, after) →
      r.cursor.LeadsTo whole here ∧ r.cursor.LeadsTo whole after) :
    (r.found o).2.IsExact whole := by
  cases o with
  | none => exact h
  | some found =>
    obtain ⟨hhere, hafter⟩ := ho found.1 found.2 rfl
    exact ⟨h.cursor.leadsTo hafter, List.forall_mem_cons.mpr
      ⟨⟨found.1, rfl, h.cursor.leadsTo hhere⟩, h.marks⟩⟩

/-- What one call leaves. -/
theorem IsExact.after (h : r.IsExact whole) (call : Cursor.Call)
    (hwhole : whole → r.IsWhole call) : (r.after call).2.IsExact whole := by
  have hpass : ∀ {d}, r.cursor.LeadsTo whole d → d.IsExact whole := h.cursor.leadsTo
  cases call with
  | next => exact ⟨hpass (Cursor.leadsTo_next _), h.marks⟩
  | skip n => exact ⟨hpass (Cursor.leadsTo_skip_boundary hwhole), h.marks⟩
  | skipBlanks => exact ⟨hpass (Cursor.leadsTo_skipBlanks _), h.marks⟩
  | accept lit =>
    exact h.move fun d hd => hpass (Cursor.leadsTo_accept?
      (fun hw => Cursor.endsInAscii_of_isAscii (hwhole hw)) hd)
  | acceptAfterBlanks lit =>
    exact h.move fun d hd => hpass (Cursor.leadsTo_acceptAfterBlanks?
      (fun hw => Cursor.endsInAscii_of_isAscii (hwhole hw)) hd)
  | acceptEndTag name => exact h.move fun d hd => hpass (Cursor.leadsTo_acceptEndTag? hd)
  | seek lit => exact h.found fun here d hd => Cursor.leadsTo_seek?_ascii hwhole hd
  | seekUnescaped lit esc =>
    exact h.found fun here d hd => Cursor.leadsTo_seekUnescaped?_ascii hwhole hd
  | seekEndTag name => exact h.found fun here d hd => Cursor.leadsTo_seekEndTag?_ascii hwhole hd
  | name => exact ⟨hpass (Cursor.leadsTo_name _), h.marks⟩
  | token quoted => exact ⟨hpass (Cursor.leadsTo_token _ quoted), h.marks⟩
  | openSource name data => exact h.move fun d hd => h.cursor.open? hd
  | closeSource => exact h.move fun d hd => h.cursor.close? hd
  | mark => exact ⟨h.cursor, List.forall_mem_cons.mpr ⟨⟨_, rfl, h.cursor⟩, h.marks⟩⟩
  | reset i =>
    refine h.move fun d hd => ?_
    obtain ⟨m, hm, hd⟩ := Option.bind_eq_some_iff.mp hd
    obtain ⟨c, rfl, hc⟩ := h.marks m (List.mem_of_getElem? hm)
    exact hc.reset? hd

/-- What any calls leave. -/
theorem IsExact.afterAll (h : r.IsExact whole) (calls : List Cursor.Call)
    (hwhole : whole → r.AllWhole calls) : (r.afterAll calls).IsExact whole := by
  induction calls generalizing r with
  | nil => exact h
  | cons call calls ih =>
    exact ih (h.after call fun hw => (hwhole hw).1) fun hw => (hwhole hw).2

theorem IsExact.places (h : r.IsExact whole) : ∀ p ∈ r.places, p.IsExact whole := by
  intro p hp
  rcases List.mem_append.mp hp with hp | hp
  · exact h.cursor.places p hp
  · obtain ⟨m, hm, hp⟩ := List.mem_flatMap.mp hp
    obtain ⟨c, rfl, hc⟩ := h.marks m hm
    exact hc.places p hp

theorem snd_move {o : Option Cursor} (h : (r.move o).1 = false) : (r.move o).2 = r := by
  cases o with
  | none => rfl
  | some c => cases h

theorem snd_found {o : Option (Cursor × Cursor)} (h : (r.found o).1 = false) :
    (r.found o).2 = r := by
  cases o with
  | none => rfl
  | some found => cases h

/-- A call that fails leaves everything as it is, unless it reads a token. -/
theorem after_of_fails {call : Cursor.Call} (hcall : ∀ quoted, call ≠ .token quoted)
    (h : (r.after call).1 = false) : (r.after call).2 = r := by
  cases call with
  | next =>
    have hnone : r.cursor.next.2 = r.cursor := by
      simp only [Trail.after, Cursor.next] at h ⊢
      split at h <;> simp_all
    rw [Trail.after, hnone]
  | token quoted => exact absurd rfl (hcall quoted)
  | mark => cases h
  | accept | acceptAfterBlanks | acceptEndTag | skip | skipBlanks | name | openSource | closeSource
  | reset => exact snd_move h
  | seek | seekUnescaped | seekEndTag => exact snd_found h

/-- **A cursor is where it says.** Whatever was called on a cursor that started a text, the current
place, those of the suspended sources and those of all bookmarks lie in their sources, on the line
that the line feeds before them tell. If no call ended a piece inside a character, their columns are
told by the characters since the last line feed. No two sources on the stack have one name, the
depth is the number of the suspended ones, and a call that fails leaves the cursor and the bookmarks
as they are, unless it reads a token. -/
theorem run_isExact (name data : Bytes) (calls : List Cursor.Call) :
    (∀ p ∈ (run name data calls).places,
      p.offset ≤ p.source.data.length ∧ p.line = p.source.data.lineAt p.offset ∧
      (AllWhole ⟨.ofText name data, []⟩ calls → p.col = p.source.data.colAt p.offset)) ∧
    (∀ m ∈ (run name data calls).marks, ∃ c : Cursor, m = c.bookmark) ∧
    ((run name data calls).cursor.file :: (run name data calls).cursor.includedFrom).Nodup ∧
    (run name data calls).cursor.depth = (run name data calls).cursor.includedFrom.length ∧
    ∀ call, (∀ quoted, call ≠ .token quoted) → ((run name data calls).after call).1 = false →
      ((run name data calls).after call).2 = run name data calls := by
  have h : (run name data calls).IsExact (AllWhole ⟨.ofText name data, []⟩ calls) :=
    IsExact.afterAll ⟨Cursor.isExact_ofText name data, by simp⟩ calls id
  refine ⟨fun p hp => ?_, fun m hm => ?_, h.cursor.names, ?_, fun call => after_of_fails⟩
  · have hexact := h.places p hp
    exact ⟨hexact.offset, hexact.line, hexact.col⟩
  · obtain ⟨c, hc, -⟩ := h.marks m hm
    exact ⟨c, hc⟩
  · rw [Cursor.depth, Cursor.includedFrom, List.length_map]

/-- Calls that end no piece inside a character, in texts with some of two bytes. -/
def wholeCalls : List Cursor.Call :=
  [.next, .mark, .seek "b", .openSource "b.jsp" "é<", .skip 2, .accept "<", .closeSource, .next]

/-- After them all columns are exact. -/
theorem run_isExact_wholeCalls : AllWhole ⟨.ofText "a.jsp" "é\nbé", []⟩ wholeCalls ∧
    ∀ p ∈ (run "a.jsp" "é\nbé" wholeCalls).places, p.col = p.source.data.colAt p.offset := by
  have hb : Utf8.IsAscii "b" := by decide
  have hless : Utf8.IsAscii "<" := by decide
  have hwhole : AllWhole ⟨.ofText "a.jsp" "é\nbé", []⟩ wholeCalls :=
    ⟨trivial, trivial, hb, trivial, ⟨1, by decide⟩, hless, trivial, trivial, trivial⟩
  exact ⟨hwhole, fun p hp => ((run_isExact _ _ _).1 p hp).2.2 hwhole⟩

/-- A skip that ends inside a character counts its parts as characters. -/
example : (run "a.jsp" "é" [.skip 1, .skip 1]).cursor.place.col = 3 ∧ Bytes.colAt "é" 2 = 2 := by
  decide

end Trail

end ServerPages
