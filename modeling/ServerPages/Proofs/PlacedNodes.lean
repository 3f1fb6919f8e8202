import ServerPages.Proofs.DocumentProgress
import ServerPages.Proofs.ExactPlaces
import ServerPages.Proofs.StandingSteps
import ServerPages.Proofs.WatchedParsing
import ServerPages.Proofs.WholeNames

/-!
# Placed nodes

A node lies in the file that is read when it is made, and says where: its start names the file and
the files it is included from, and the line, column and offset at which the node opens. A passage is
what stays as it is while one source is read. In a passage the files being read are the sources on
the stack of the cursor, the innermost first, and the cursor is where it says.

A watched parser and the parser are run side by side: `Keeps` says of both at once that they agree
and that they stay in the passage.

## Main definitions

* `Node.LiesIn`: a node and all nodes below it lie in a file, or in those that it includes.
* `Head.IsPlaced`: the start of a node is where it opens in the file.
* `Passage`, `State.IsIn`: a source being read, and a state in which it is.
* `Keeps`: two parsers agree and keep what holds of the state.

## Main results

* `agrees_includeFile`: an inclusion comes back to where it started, with nodes of the included
  file.
-/

namespace ServerPages

variable {σ α β : Type}

/-- The host gives the text for a path. -/
def Host.Loads (host : Host σ) (path text : Bytes) : Prop :=
  ∃ q m, host.load = some q ∧ (q path m).1 = .ok text

/-- No name of a tag ends inside a character. This is so of all libraries that are loaded
(`Registry.hasWholeNames_load`); one that is made by hand might have other names. -/
def Host.HasWholeNames (host : Host σ) : Prop := ∀ l, host.Tells l → l.HasWholeNames

/-! ### Nodes in files -/

/-- A file as it is read. -/
structure SourceView where
  /-- Its path and those of the files it is included from, innermost first. -/
  files : List Bytes
  /-- Its text. -/
  text : Bytes
  /-- Whether it is read as an XML document. -/
  isDocument : Bool

/-- The file that an include directive in a file names, with a text. -/
def SourceView.including (v : SourceView) (h : Head) (text : Bytes) : SourceView :=
  let target := includedPath (v.files.headD []) (h.attrValue "file")
  ⟨target :: v.files, text, PageSyntax.detect target text == .document⟩

/-- The node and all nodes below it lie in a file, or in the files that the include directives among
them name, and are there as `P` says. -/
inductive Node.LiesIn (host : Host σ) (P : SourceView → Head → Prop) :
    SourceView → Node → Prop where
  | own {v : SourceView} {h : Head} {cs : List Node} (hk : h.kind ≠ .includeDirective) (hh : P v h)
    (hcs : ∀ c ∈ cs, LiesIn host P v c) : LiesIn host P v (.mk h cs)
  | included {v : SourceView} {h : Head} {cs : List Node} {text : Bytes}
    (hk : h.kind = .includeDirective) (hh : P v h)
    (hload : host.Loads (includedPath (v.files.headD []) (h.attrValue "file")) text)
    (hcs : ∀ c ∈ cs, LiesIn host P (v.including h text) c) : LiesIn host P v (.mk h cs)

/-- The text with which a node opens. Elements of a document open with a tag; a native text with
nothing of its own. -/
def Head.opening (h : Head) (isDocument : Bool) : Bytes :=
  if isDocument then "<"
  else match h.kind with
    | .text | .root => []
    | .elExpression => h.text
    | .declaration => "<%!"
    | .expression => "<%="
    | .scriptlet => "<%"
    | k => if k.isDirective then "<%@" else "<" ++ h.name

/-- Whether the node has an exact place in its file: in a document only elements have. -/
def Head.isMarked (h : Head) (isDocument : Bool) : Bool :=
  !isDocument || h.kind != .text && h.kind != .elExpression

/-- The start of the node is where it opens in the file. -/
structure Head.IsPlaced (whole : Prop) (v : SourceView) (h : Head) : Prop where
  stack : h.start.file :: h.start.includedFrom = v.files
  mark : h.isMarked v.isDocument = true → h.start.Marks whole v.text (h.opening v.isDocument)

/-- What the place of a node is told from. -/
def Head.label (h : Head) : Kind × Position × Bytes × Bytes := (h.kind, h.start, h.name, h.text)

/-- More text does not move a text. -/
theorem Head.IsPlaced.extend {whole : Prop} {v : SourceView} {h : Head} (hp : h.IsPlaced whole v)
    (hk : h.kind = .text) (text : Bytes) : Head.IsPlaced whole v { h with text := text } := by
  refine ⟨hp.stack, fun hm => ?_⟩
  have hopening : Head.opening { h with text := text } v.isDocument = h.opening v.isDocument := by
    simp [opening, hk]
  exact hopening ▸ hp.mark hm

theorem Kind.isDirective_of_directive? {name : Bytes} {kind : Kind}
    (h : Kind.directive? name = some kind) : kind.isDirective = true := by
  obtain ⟨l, r, hl, -⟩ := List.lookup_eq_some_iff.mp h
  have hmem : kind ∈ Kind.directives.map (·.2) := by simp [hl]
  revert hmem
  cases kind <;> decide

theorem Kind.ne_include_of_action? {name : Bytes} {kind : Kind}
    (h : Kind.action? name = some kind) : kind ≠ .includeDirective := by
  obtain ⟨l, r, hl, -⟩ := List.lookup_eq_some_iff.mp h
  have hmem : kind ∈ Kind.actions.map (·.2) := by simp [hl]
  rintro rfl
  exact absurd hmem (by decide)

namespace Expression

/-- A segment of a text stands where it says, and an expression is written there. -/
def Segment.StandsIn (u : Bytes) (seg : Segment) : Prop :=
  seg.offset ≤ u.length ∧ (seg.isExpression = true → seg.text <+: u.drop seg.offset)

theorem standsIn_of_mem_segments {lit : Pending} {u : Bytes} (hlit : ∀ p ∈ lit, p.1 ≤ u.length) :
    ∀ seg ∈ lit.segments, seg.StandsIn u := by
  intro seg hseg
  cases lit with
  | none => cases hseg
  | some p =>
    obtain rfl := List.mem_singleton.mp hseg
    exact ⟨hlit p rfl, fun h => by cases h⟩

theorem fst_le_of_mem_add {lit : Pending} {offset n : Nat} (hlit : ∀ p ∈ lit, p.1 ≤ n)
    (hoff : offset ≤ n) (s : Bytes) : ∀ p ∈ lit.add offset s, p.1 ≤ n := by
  intro p hp
  cases lit with
  | none => exact Option.some.inj hp ▸ hoff
  | some q => exact Option.some.inj hp ▸ hlit q rfl

theorem standsIn_of_scanFrom {u s : Bytes} {offset skip : Nat} {lit : Pending}
    {segs : List Segment} (h : scanFrom offset skip lit s = .ok segs) (hs : u.drop offset = s)
    (hlit : ∀ p ∈ lit, p.1 ≤ u.length) : ∀ seg ∈ segs, seg.StandsIn u := by
  induction s generalizing offset skip lit segs with
  | nil =>
    rw [scanFrom] at h
    exact Except.ok.inj h ▸ standsIn_of_mem_segments hlit
  | cons b s ih =>
    have hnext : u.drop (offset + 1) = s := by rw [← List.drop_drop, hs, List.drop_one]; rfl
    have hoff : offset ≤ u.length := by
      have hlen := congrArg List.length hs
      rw [List.length_drop, List.length_cons] at hlen
      omega
    cases skip with
    | succ skip => exact ih (by rwa [scanFrom] at h) hnext hlit
    | zero =>
      rw [scanFrom] at h
      split at h
      · exact ih h hnext (fst_le_of_mem_add hlit hoff _)
      split at h
      · split at h
        · cases h
        next n _ =>
        cases hscan : scanFrom (offset + 1) (n - 1) none s with
        | error e =>
          rw [hscan] at h
          cases h
        | ok more =>
          rw [hscan] at h
          obtain rfl := Except.ok.inj h
          have hmore := ih hscan hnext fun p hp => by cases hp
          have hsegment : (segmentOf ((b :: s).take n) offset).StandsIn u :=
            ⟨hoff, fun _ => hs ▸ List.take_prefix _ _⟩
          exact List.forall_mem_append.mpr
            ⟨standsIn_of_mem_segments hlit, List.forall_mem_cons.mpr ⟨hsegment, hmore⟩⟩
      · exact ih h hnext (fst_le_of_mem_add hlit hoff _)

theorem standsIn_of_scan {u : Bytes} {segs : List Segment} (h : scan u = .ok segs) :
    ∀ seg ∈ segs, seg.StandsIn u :=
  standsIn_of_scanFrom h rfl fun p hp => by cases hp

end Expression

namespace Parsing

theorem label_applyToNamed (h : Head) (a : Attribute) :
    (applyToNamed { h with attributes := h.attributes ++ [a] } a).label = h.label := by
  unfold applyToNamed
  split
  · rfl
  split
  · rfl
  split <;> rfl

/-! ### Passages -/

/-- What stays as it is while a source is read. -/
structure Passage (σ : Type) where
  /-- The surroundings. -/
  host : Host σ
  /-- The source. -/
  source : Source
  /-- The suspended places. -/
  outer : List Place
  /-- The files being read, innermost first. -/
  files : List Bytes
  /-- Whether the source is read as a document. -/
  isDocument : Bool

namespace Passage

/-- The source as the file that nodes lie in. -/
def view (c : Passage σ) : SourceView := ⟨c.files, c.source.data, c.isDocument⟩

/-- The names are read exactly. -/
def whole (c : Passage σ) : Prop := c.host.HasWholeNames

/-- The files being read are the sources on the stack. They differ, and all but the first unit are
files that the host gives. -/
structure IsLined (c : Passage σ) : Prop where
  names : c.files = c.source.name :: c.outer.map (·.source.name)
  nodup : c.files.Nodup
  served : ∀ f ∈ c.files.dropLast, ∃ text, c.host.Loads f text

/-- The nodes lie in the source. -/
def Lays (c : Passage σ) (ns : List Node) : Prop :=
  ∀ n ∈ ns, n.LiesIn c.host (Head.IsPlaced c.whole) c.view

theorem lays_nil (c : Passage σ) : c.Lays [] := fun _ hn => absurd hn List.not_mem_nil

/-- The head is that of a node of the source. -/
def Places (c : Passage σ) (h : Head) : Prop := h.IsPlaced c.whole c.view

/-- The nodes are those of a file that the head includes. -/
def Includes (c : Passage σ) (h : Head) (cs : List Node) : Prop :=
  ∃ text, c.host.Loads (includedPath (c.files.headD []) (h.attrValue "file")) text ∧
    ∀ n ∈ cs, n.LiesIn c.host (Head.IsPlaced c.whole) (c.view.including h text)

/-- The position is that of a place in the source at which a literal stands. -/
structure Opens (c : Passage σ) (p : Position) (lit : Bytes) : Prop where
  stack : p.file :: p.includedFrom = c.view.files
  mark : p.Marks c.whole c.view.text lit

variable {c : Passage σ} {siblings cs : List Node} {h : Head} {n : Node}

theorem Opens.places {p : Position} (hp : c.Opens p (h.opening c.isDocument))
    (hstart : h.start = p) : c.Places h :=
  ⟨hstart ▸ hp.stack, fun _ => hstart ▸ hp.mark⟩

theorem Lays.push (hs : c.Lays siblings)
    (hn : n.LiesIn c.host (Head.IsPlaced c.whole) c.view) : c.Lays (Node.push siblings n) := by
  unfold Node.push
  split
  · exact List.forall_mem_singleton.mpr hn
  next last hlast =>
  split
  · next htexts =>
    rw [Bool.and_eq_true, Bool.and_eq_true, beq_iff_eq, beq_iff_eq] at htexts
    refine List.forall_mem_append.mpr ⟨?_, List.forall_mem_singleton.mpr ?_⟩
    · exact fun m hm => hs m (List.dropLast_subset siblings hm)
    · have hk : last.head.kind = .text := htexts.1.2
      cases hs last (List.mem_of_getLast? hlast) with
      | own hne hh hcs => exact .own hne (hh.extend hk _) hcs
      | included hinc => cases hinc.symm.trans hk
  · exact List.forall_mem_append.mpr ⟨hs, List.forall_mem_singleton.mpr hn⟩

theorem Lays.node (hs : c.Lays siblings) (hk : h.kind ≠ .includeDirective) (hh : c.Places h)
    (hcs : c.Lays cs) : c.Lays (Node.push siblings (.mk h cs)) :=
  hs.push (.own hk hh hcs)

theorem Lays.leaf (hs : c.Lays siblings) (hk : h.kind ≠ .includeDirective) (hh : c.Places h) :
    c.Lays (Node.push siblings (.leaf h)) :=
  hs.node hk hh c.lays_nil

theorem Lays.inclusion (hs : c.Lays siblings) (hk : h.kind = .includeDirective) (hh : c.Places h)
    (hcs : c.Includes h cs) : c.Lays (Node.push siblings (.mk h cs)) := by
  obtain ⟨text, hload, hcs⟩ := hcs
  exact hs.push (.included hk hh hload hcs)

end Passage

/-- In the state the source of the passage is read, at an offset not before `k`. -/
structure State.IsIn (c : Passage σ) (k : Nat) (s : State σ) : Prop where
  source : s.cursor.place.source = c.source
  outer : s.cursor.outer = c.outer
  files : s.files = c.files
  least : k ≤ s.cursor.place.offset
  exact : s.cursor.place.IsExact c.whole
  bindings : ∀ p ∈ s.bindings, c.host.Tells p.2.library

namespace State

variable {c : Passage σ} {k : Nat} {s t : State σ}

theorem IsIn.mono {j : Nat} (h : s.IsIn c k) (hj : j ≤ k) : s.IsIn c j :=
  ⟨h.source, h.outer, h.files, Nat.le_trans hj h.least, h.exact, h.bindings⟩

theorem IsIn.standing (h : s.IsIn c k) (ht : s.StandsWith c.host t) : t.IsIn c k where
  source := ht.place ▸ h.source
  outer := ht.outer.trans h.outer
  files := ht.files.trans h.files
  least := ht.place ▸ h.least
  exact := ht.place ▸ h.exact
  bindings p hp := (ht.bindings p hp).elim (h.bindings p) id

theorem IsIn.moveTo {d : Cursor} (h : s.IsIn c k) (hd : s.cursor.LeadsTo c.whole d) :
    IsIn c k { s with cursor := d } :=
  ⟨hd.source.trans h.source, hd.outer.trans h.outer, h.files, Nat.le_trans h.least hd.offset,
    hd.exact h.exact, h.bindings⟩

/-- The cursor has moved on. -/
theorem IsIn.moveOn {d : Cursor} (h : s.IsIn c k) (hd : s.cursor.LeadsTo c.whole d)
    (hlt : s.cursor.place.offset < d.place.offset) :
    IsIn c (s.cursor.place.offset + 1) { s with cursor := d } :=
  ⟨hd.source.trans h.source, hd.outer.trans h.outer, h.files, hlt, hd.exact h.exact, h.bindings⟩

/-- Every position names the file being read and those it is included from. -/
theorem IsIn.stack (h : s.IsIn c k) (hc : c.IsLined) :
    s.cursor.position.file :: s.cursor.position.includedFrom = c.view.files := by
  show s.cursor.place.source.name :: s.cursor.outer.map (·.source.name) = c.files
  rw [h.source, h.outer, hc.names]

theorem IsIn.isSound (h : s.IsIn c k) : s.cursor.IsSound := by
  have hoff := h.exact.offset
  unfold Cursor.IsSound
  rw [h.exact.rest, List.length_drop]
  omega

theorem IsIn.rest_ne_nil (h : s.IsIn c k) (hend : ¬s.cursor.atEnd = true) : s.cursor.rest ≠ [] :=
  fun hrest => hend (h.isSound.atEnd_iff.mpr hrest)

/-- The position of a piece of the text at the cursor, with a literal that stands there. -/
theorem IsIn.marks_advance (h : s.IsIn c k) {u lit : Bytes} (hu : u ++ lit <+: s.cursor.rest) :
    (s.cursor.position.advance u).Marks c.whole c.view.text lit := by
  have hmarks := Cursor.marks_advance h.exact hu
  rwa [h.source] at hmarks

theorem IsIn.marks (h : s.IsIn c k) {lit : Bytes} (hlit : lit <+: s.cursor.rest) :
    s.cursor.position.Marks c.whole c.view.text lit := by
  have hmarks := Cursor.marks_position h.exact hlit
  rwa [h.source] at hmarks

theorem IsIn.opens (h : s.IsIn c k) (hc : c.IsLined) {lit : Bytes} (hlit : lit <+: s.cursor.rest) :
    c.Opens s.cursor.position lit :=
  ⟨h.stack hc, h.marks hlit⟩

end State

/-! ### Two parsers side by side -/

/-- Run from `s`, the two parsers agree, and if they succeed their value and their last state are as
`Q` says. -/
def Agrees (y x : Parse σ α) (s : State σ) (Q : α → State σ → Prop) : Prop :=
  y s = x s ∧ ∀ a t, x s = .ok a t → Q a t

section Agrees

variable {x y : Parse σ α} {f g : α → Parse σ β} {s : State σ} {Q : α → State σ → Prop}
  {R : β → State σ → Prop}

theorem Agrees.of_runs (h : ∀ a t, x s = .ok a t → Q a t) : Agrees x x s Q := ⟨rfl, h⟩

theorem Agrees.pure {a : α} (h : Q a s) : Agrees (Pure.pure a : Parse σ α) (Pure.pure a) s Q := by
  refine .of_runs ?_
  rintro b t ⟨⟩
  exact h

theorem Agrees.throw (e : Failure) : Agrees (throw e : Parse σ α) (MonadExcept.throw e) s Q := by
  refine .of_runs ?_
  rintro b t ⟨⟩

theorem agrees_refuse (issue : Issue) (p : Position) (m : Bytes) :
    Agrees (refuse issue p m : Parse σ α) (refuse issue p m) s Q := Agrees.throw _

theorem agrees_refuse_bind (issue : Issue) (p : Position) (m : Bytes) {f g : α → Parse σ β} :
    Agrees (refuse issue p m >>= g) (refuse issue p m >>= f) s R := by
  refine ⟨rfl, ?_⟩
  rintro b t ⟨⟩

theorem Agrees.mono {Q' : α → State σ → Prop} (h : Agrees y x s Q)
    (hQ : ∀ a t, Q a t → Q' a t) : Agrees y x s Q' :=
  ⟨h.1, fun a t ha => hQ a t (h.2 a t ha)⟩

theorem Agrees.bind (hx : Agrees y x s Q) (hf : ∀ a t, Q a t → Agrees (g a) (f a) t R) :
    Agrees (y >>= g) (x >>= f) s R := by
  obtain ⟨heq, hq⟩ := hx
  refine ⟨?_, fun b u h => ?_⟩
  · cases hxs : x s with
    | ok a t => rw [bind_ok hxs, bind_ok (heq.trans hxs), (hf a t (hq a t hxs)).1]
    | error e t => rw [bind_error hxs, bind_error (heq.trans hxs)]
  · obtain ⟨a, t, hxs, hfs⟩ := bind_eq_ok h
    exact (hf a t (hq a t hxs)).2 b u hfs

theorem Agrees.ite {p : Prop} [Decidable p] {x' y' : Parse σ α} (hx : p → Agrees y x s Q)
    (hx' : ¬p → Agrees y' x' s Q) : Agrees (if p then y else y') (if p then x else x') s Q := by
  split
  · next h => exact hx h
  · next h => exact hx' h

theorem Agrees.get {f g : State σ → Parse σ β} (h : Agrees (g s) (f s) s R) :
    Agrees (MonadStateOf.get >>= g) (MonadStateOf.get >>= f) s R := h

theorem Agrees.cursor {f g : Cursor → Parse σ β} (h : Agrees (g s.cursor) (f s.cursor) s R) :
    Agrees (Parsing.cursor >>= g) (Parsing.cursor >>= f) s R := h

theorem Agrees.moveTo {d : Cursor} {f g : Unit → Parse σ β}
    (h : Agrees (g ()) (f ()) { s with cursor := d } R) :
    Agrees (Parsing.moveTo d >>= g) (Parsing.moveTo d >>= f) s R := h

theorem Agrees.accepts {lit : Bytes} {f g : Bool → Parse σ β}
    (hyes : s.cursor.sees lit = true → Agrees (g true) (f true) (s.passing lit) R)
    (hno : Agrees (g false) (f false) s R) :
    Agrees (Parsing.accepts lit >>= g) (Parsing.accepts lit >>= f) s R := by
  unfold Agrees
  rw [bind_accepts, bind_accepts]
  split
  · next h => exact hyes h
  · exact hno

/-- A watched parser raises no alarm where it may read and lead. -/
theorem Watch.agrees_before (w : Watch σ) (hread : w.mayRead s = true) (hx : Agrees y x s Q) :
    Agrees (w.before y) x s Q := by
  refine ⟨?_, hx.2⟩
  rw [← hx.1, before, if_pos hread]

theorem Watch.agrees_around (w : Watch σ) (hread : w.mayRead s = true) (hx : Agrees y x s Q)
    (hlead : ∀ a t, Q a t → w.mayLead s t = true) : Agrees (w.around y) x s Q := by
  refine w.agrees_before hread ⟨?_, hx.2⟩
  simp only [hx.1]
  cases hxs : x s with
  | ok a t => simp only [hlead a t (hx.2 a t hxs), if_true]
  | error e t => rfl

end Agrees

/-- From states in which `I` holds, the two parsers agree, and if they succeed their value is as `Q`
says and `I` still holds. -/
def Keeps (I : State σ → Prop) (y x : Parse σ α) (Q : α → Prop) : Prop :=
  ∀ s, I s → Agrees y x s fun a t => I t ∧ Q a

section Keeps

variable {I : State σ → Prop} {x y : Parse σ α} {f g : α → Parse σ β} {P : α → Prop}
  {Q : β → Prop}

theorem Keeps.pure {a : α} (h : P a) : Keeps I (Pure.pure a : Parse σ α) (Pure.pure a) P :=
  fun _ hs => Agrees.pure ⟨hs, h⟩

theorem keeps_refuse (issue : Issue) (p : Position) (m : Bytes) :
    Keeps I (refuse issue p m : Parse σ α) (refuse issue p m) P :=
  fun _ _ => agrees_refuse _ _ _

theorem Keeps.bind (hx : Keeps I y x P) (hf : ∀ a, P a → Keeps I (g a) (f a) Q) :
    Keeps I (y >>= g) (x >>= f) Q :=
  fun s hs => (hx s hs).bind fun a t h => hf a h.2 t h.1

theorem Keeps.mono {P' : α → Prop} (hx : Keeps I y x P) (h : ∀ a, P a → P' a) : Keeps I y x P' :=
  fun s hs => (hx s hs).mono fun a _ ht => ⟨ht.1, h a ht.2⟩

theorem Keeps.ite {p : Prop} [Decidable p] {x' y' : Parse σ α} (hx : Keeps I y x P)
    (hx' : Keeps I y' x' P) : Keeps I (if p then y else y') (if p then x else x') P :=
  fun s hs => Agrees.ite (fun _ => hx s hs) fun _ => hx' s hs

/-- A parser that is run only under a condition, before others. -/
theorem Keeps.guard {p : Prop} [Decidable p] {x : Parse σ Unit} {f g : Unit → Parse σ β}
    (hx : Keeps I x x fun _ => True) (hf : ∀ a, Keeps I (g a) (f a) Q) :
    Keeps I (if p then x >>= g else g ()) (if p then x >>= f else f ()) Q :=
  Keeps.ite (hx.bind fun a _ => hf a) (hf ())

theorem Keeps.get {f g : State σ → Parse σ β} (h : ∀ s, Keeps I (g s) (f s) Q) :
    Keeps I (MonadStateOf.get >>= g) (MonadStateOf.get >>= f) Q :=
  fun s hs => Agrees.get (h s s hs)

/-- What holds of a state holds wherever a step stands. -/
def IsFramed (host : Host σ) (I : State σ → Prop) : Prop :=
  ∀ s t, I s → s.StandsWith host t → I t

theorem State.isFramed_isIn (c : Passage σ) (k : Nat) : IsFramed c.host (State.IsIn c k) :=
  fun _ _ hs ht => hs.standing ht

/-- A step that stands keeps what holds of the state. -/
theorem IsFramed.keeps {host : Host σ} (hI : IsFramed host I) (hx : Stands host x)
    (hP : Returns P x) : Keeps I x x P :=
  fun s hs => .of_runs fun a t h => ⟨hI s t hs (hx s a t h), hP s a t h⟩

theorem IsFramed.keeps_any {host : Host σ} (hI : IsFramed host I) (hx : Stands host x) :
    Keeps I x x fun _ => True :=
  hI.keeps hx (Returns.any x)

/-- An attribute does not change from what the place of its node is told. -/
theorem IsFramed.keeps_addAttribute {host : Host σ} (hI : IsFramed host I)
    (functionUri : Bytes → Bytes) (uriOf : Option (Bytes → Bytes)) (h : Head) (name raw : Bytes)
    (script : Bool) (p : Position) (scriptless : Bool) :
    Keeps I (addAttribute functionUri uriOf h name raw script p scriptless)
      (addAttribute functionUri uriOf h name raw script p scriptless)
      fun h' => h'.label = h.label :=
  hI.keeps (rests_addAttribute _ _ _ _ _ _ _ _).stands
    (returns_addAttribute_eq label_applyToNamed _ _ _ _ _ _ _ _)

end Keeps

/-! ### Heads -/

theorem returns_directiveHead_eq (name : Bytes) (p : Position) (scriptless : Bool) :
    Returns (fun h => h.kind.isDirective = true ∧ h.start = p)
      (directiveHead name p scriptless : Parse σ Head) := by
  unfold directiveHead
  split
  · exact returns_refuse _ _ _
  · next kind hk => exact Returns.pure ⟨Kind.isDirective_of_directive? hk, rfl⟩

theorem returns_actionHead_eq (name : Bytes) (p : Position) (scriptless : Bool) :
    Returns (fun h => Kind.action? name = some h.kind ∧ h.start = p ∧ h.name = "jsp:" ++ name)
      (actionHead name p scriptless : Parse σ Head) := by
  unfold actionHead
  split
  · exact returns_refuse _ _ _
  · next kind hk => exact Returns.pure ⟨hk, rfl, rfl⟩

theorem returns_tagHead_eq (env : Env σ) (l : TagLibrary) (uri prefixName name : Bytes)
    (p : Position) (scriptless : Bool) :
    Returns (fun h => h.label = (.customTag, p, prefixName ++ ":" ++ name, []) ∧
      l.hasTag name = true) (tagHead env l uri prefixName name p scriptless) :=
  (hasTag_of_tagDescriptor env l uri prefixName name p).bind fun _ htag => Returns.pure ⟨rfl, htag⟩

/-! ### Texts -/

/-- The text `u` may stand at the position in the file: the position is in the file, and in a native
file that of `u`. -/
structure Passage.Holds (c : Passage σ) (p : Position) (u : Bytes) : Prop where
  stack : p.file :: p.includedFrom = c.view.files
  marks : c.isDocument = false → ∀ v lit, v ++ lit <+: u →
    (p.advance v).Marks c.whole c.view.text lit

theorem State.IsIn.holds {c : Passage σ} {k : Nat} {s : State σ} (h : s.IsIn c k) (hc : c.IsLined)
    {u : Bytes} (hu : u <+: s.cursor.rest) : c.Holds s.cursor.position u :=
  ⟨h.stack hc, fun _ _ _ hv => h.marks_advance (hv.trans hu)⟩

section Texts

variable {c : Passage σ} {siblings : List Node} {p : Position} {u : Bytes}

/-- A text of the file is placed, and in a native file where something stands too. -/
theorem Passage.Holds.places_text (hp : c.Holds p u) {v : Bytes} (hv : v <+: u) {h : Head}
    (hk : h.kind = .text) (hstart : h.start = p.advance v) : c.Places h := by
  refine ⟨?_, fun hm => ?_⟩
  · rw [hstart]
    exact hp.stack
  · have hnative : c.view.isDocument = false := by
      simpa [Head.isMarked, hk] using hm
    have hopening : h.opening c.view.isDocument = [] := by simp [Head.opening, hnative, hk]
    rw [hopening, hstart]
    exact hp.marks hnative v [] (by simpa using hv)

/-- An expression of the file is placed, and in a native file where it stands. -/
theorem Passage.Holds.places_el (hp : c.Holds p u) {v : Bytes} {h : Head}
    (hv : v ++ h.text <+: u) (hk : h.kind = .elExpression) (hstart : h.start = p.advance v) :
    c.Places h := by
  refine ⟨?_, fun hm => ?_⟩
  · rw [hstart]
    exact hp.stack
  · have hnative : c.view.isDocument = false := by
      simpa [Head.isMarked, hk] using hm
    have hopening : h.opening c.view.isDocument = h.text := by simp [Head.opening, hnative, hk]
    rw [hopening, hstart]
    exact hp.marks hnative v h.text hv

theorem Passage.Lays.text (hs : c.Lays siblings) (hp : c.Holds p u) (text : Bytes)
    (scriptless : Bool) : c.Lays (Node.push siblings (textNode text p scriptless)) := by
  have hadvance : p.advance [] = p := by simp [Position.advance, LineCol.advance]
  exact hs.leaf (fun h => by cases h) (hp.places_text List.nil_prefix rfl hadvance.symm)

theorem returns_elNode_eq (uriOf : Bytes → Bytes) (source : Bytes) (p : Position)
    (scriptless : Bool) :
    Returns (fun n => ∃ h : Head, n = .leaf h ∧ h.kind = .elExpression ∧ h.start = p ∧
      h.text = source) (elNode uriOf source p scriptless : Parse σ Node) := by
  unfold elNode
  split
  · exact returns_refuse _ _ _
  · exact Returns.pure ⟨_, rfl, rfl, rfl, rfl⟩

theorem lays_segmentNodes (uriOf : Bytes → Bytes) (hp : c.Holds p u) (scriptless : Bool)
    (hs : c.Lays siblings) {segs : List Expression.Segment} (hsegs : ∀ seg ∈ segs, seg.StandsIn u) :
    Returns c.Lays (segmentNodes uriOf u p scriptless siblings segs : Parse σ (List Node)) := by
  induction segs generalizing siblings with
  | nil => exact Returns.pure hs
  | cons seg segs ih =>
    obtain ⟨⟨hoff, htext⟩, hsegs⟩ := List.forall_mem_cons.mp hsegs
    have hpre : u.take seg.offset <+: u := List.take_prefix _ _
    rw [segmentNodes]
    by_cases hexp : seg.isExpression = true
    · rw [if_pos hexp]
      refine (returns_elNode_eq _ _ _ _).bind fun n hn => ?_
      obtain ⟨h, rfl, hk, hstart, hwritten⟩ := hn
      have hstands : u.take seg.offset ++ h.text <+: u := by
        obtain ⟨r, hr⟩ := htext hexp
        exact ⟨r, by rw [List.append_assoc, hwritten, hr, List.take_append_drop]⟩
      refine ih (hs.leaf ?_ (hp.places_el hstands hk hstart)) hsegs
      rw [hk]
      exact fun h => by cases h
    · rw [if_neg hexp]
      exact ih (hs.leaf (fun h => by cases h) (hp.places_text hpre rfl rfl)) hsegs

/-- The nodes of a text of the file lie in the file. -/
theorem lays_textNodes (uriOf : Bytes → Bytes) (hs : c.Lays siblings) (hp : c.Holds p u)
    (scriptless allowEl : Bool) :
    Returns c.Lays (textNodes uriOf siblings u p scriptless allowEl : Parse σ (List Node)) := by
  refine Returns.ite (Returns.pure hs) (Returns.skip fun t => ?_)
  refine Returns.ite (Returns.pure (hs.text hp _ _)) ?_
  refine Returns.ite (Returns.pure (hs.text hp _ _)) ?_
  split
  · exact returns_refuse _ _ _
  · next segs hscan => exact lays_segmentNodes _ hp _ hs (Expression.standsIn_of_scan hscan)

end Texts

/-! ### Inclusion -/

/-- The passage of an included file, which is opened in a state. -/
def Passage.entering (c : Passage σ) (s : State σ) (target text : Bytes) : Passage σ where
  host := c.host
  source := ⟨s.cursor.opened, target, text⟩
  outer := s.cursor.place :: s.cursor.outer
  files := target :: c.files
  isDocument := PageSyntax.detect target text == .document

/-- A parser of sources and a watched one agree where the files being read are as `ok` says, and the
nodes they give lie in the source. -/
def SourceParser.Places (y x : SourceParser σ) (host : Host σ) (ok : List Bytes → Prop) : Prop :=
  ∀ (c : Passage σ) (form : PageSyntax) (h : Head) (scriptless : Bool) (s : State σ),
    c.host = host → c.IsLined → ok c.files → (form == .document) = c.isDocument → s.IsIn c 0 →
    Agrees (y form h scriptless) (x form h scriptless) s fun cs t => t.IsIn c 0 ∧ c.Lays cs

theorem Passage.IsLined.entering {c : Passage σ} (hc : c.IsLined) {k : Nat} {s : State σ}
    (hs : s.IsIn c k) {target text : Bytes} (hnew : target ∉ c.files)
    (hload : c.host.Loads target text) : (c.entering s target text).IsLined where
  names := by
    show target :: c.files = target :: (s.cursor.place :: s.cursor.outer).map (·.source.name)
    rw [List.map_cons, hs.source, hs.outer, hc.names]
  nodup := List.nodup_cons.mpr ⟨hnew, hc.nodup⟩
  served := by
    show ∀ f ∈ (target :: c.files).dropLast, _
    have hne : c.files ≠ [] := by rw [hc.names]; exact List.cons_ne_nil _ _
    rw [List.dropLast_cons_of_ne_nil hne, List.forall_mem_cons]
    exact ⟨⟨text, hload⟩, hc.served⟩

/-- **An included file** is none of those being read, so that the cursor opens it; its nodes lie in
it, and afterwards the including file is read on where it was left. -/
theorem agrees_includeFile {w : Watch σ} {env : Env σ} {x y : SourceParser σ}
    {ok : List Bytes → Prop} (hparse : SourceParser.Places y x env.host ok) {c : Passage σ}
    (hhost : c.host = env.host) (hc : c.IsLined)
    (hok : ∀ file, ok (includedPath (c.files.headD []) file :: c.files)) {k : Nat} {s : State σ}
    (hs : s.IsIn c k) (h : Head) (scriptless : Bool) :
    Agrees (watchedInclude w env y h scriptless) (includeFile env x h scriptless) s fun cs t =>
      s.StandsWith c.host t ∧ c.Includes h cs := by
  unfold watchedInclude includeFile
  cases hfile : h.attr? "file" with
  | none => exact agrees_refuse _ _ _
  | some file =>
  refine Agrees.get ?_
  have htarget : includedPath (s.files.headD []) file.value =
      includedPath (c.files.headD []) (h.attrValue "file") := by
    rw [hs.files, Head.attrValue, hfile]
    rfl
  dsimp only
  rw [htarget]
  unfold Passage.Includes SourceView.including
  dsimp only [Passage.view]
  have hok := hok (h.attrValue "file")
  generalize includedPath (c.files.headD []) (h.attrValue "file") = target at hok ⊢
  refine Agrees.ite (fun _ => agrees_refuse_bind _ _ _) fun hnew => ?_
  have hnew : target ∉ c.files := by simpa [hs.files] using hnew
  cases hq : env.host.load with
  | none => exact agrees_refuse_bind _ _ _
  | some q =>
  refine Agrees.bind (Q := fun a t => a = (q target s.memory).1 ∧
    t = { s with memory := (q target s.memory).2 }) (.of_runs ?_) fun a t ht => ?_
  · rintro a t ⟨⟩
    exact ⟨rfl, rfl⟩
  obtain ⟨rfl, rfl⟩ := ht
  cases htext : (q target s.memory).1 with
  | error f => exact agrees_refuse_bind _ _ _
  | ok text =>
  have hload : c.host.Loads target text := ⟨q, s.memory, hhost ▸ hq, htext⟩
  -- The sources on the stack are the files being read, and the included file is none of them.
  have hopen : s.cursor.isReading target = false := by
    rw [hc.names, ← hs.source, ← hs.outer, List.mem_cons, not_or] at hnew
    rw [Cursor.isReading, Bool.or_eq_false_iff, beq_eq_false_iff_ne, List.any_eq_false]
    exact ⟨Ne.symm hnew.1, fun p hp hname => hnew.2 (List.mem_map.mpr ⟨p, hp, eq_of_beq hname⟩)⟩
  dsimp only
  rw [pure_bind, pure_bind, Cursor.open?, hopen]
  refine Agrees.bind (Q := fun cs t =>
    t.IsIn (c.entering s target text) 0 ∧ (c.entering s target text).Lays cs) ?_ fun cs t ht => ?_
  · refine hparse _ _ _ _ _ hhost (hc.entering hs hnew hload) hok rfl ?_
    exact ⟨rfl, rfl, congrArg _ hs.files, Nat.zero_le _, Place.isExact_start _ _, hs.bindings⟩
  · refine .of_runs ?_
    rintro a u ⟨⟩
    exact ⟨⟨rfl, rfl, rfl, rfl, rfl, fun b hb => .inr (ht.1.bindings b hb)⟩, text, hload, ht.2⟩

/-- The parsers of included files agree, and the nodes they give lie in the file. -/
def KeepsIncluded (c : Passage σ) (y x : Head → Bool → Parse σ (List Node)) : Prop :=
  ∀ (I : State σ → Prop) h scriptless, IsFramed c.host I → (∀ s, I s → s.IsIn c 0) →
    Keeps I (y h scriptless) (x h scriptless) (c.Includes h)

theorem keepsIncluded_includeFile {w : Watch σ} {env : Env σ} {x y : SourceParser σ}
    {ok : List Bytes → Prop} (hparse : SourceParser.Places y x env.host ok) {c : Passage σ}
    (hhost : c.host = env.host) (hc : c.IsLined)
    (hok : ∀ file, ok (includedPath (c.files.headD []) file :: c.files)) :
    KeepsIncluded c (watchedInclude w env y) (includeFile env x) :=
  fun _ h scriptless hI hin s hs =>
    (agrees_includeFile hparse hhost hc hok (hin s hs) h scriptless).mono fun _ t ht =>
      ⟨hI s t hs ht.1, ht.2⟩

end Parsing

end ServerPages
