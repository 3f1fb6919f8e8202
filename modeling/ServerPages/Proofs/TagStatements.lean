import ServerPages.Proofs.NodeCode

/-!
# The statements of the programs of tags

The statements that run a tag are the generator's own: they set variables of the invocation and
scripting variables. Nodes have parts only in the code that a program takes over.

## Main results

* `fits_classicProgram`, `fits_simpleCode`: the code that runs a tag fits, if what it takes over
  does.
* `pages_classicProgram`, `nodes_simpleCode`: the nodes that have parts in it.
-/

namespace ServerPages.Generation

/-! ### Own statements -/

section Own

variable {z : Site} {level : Nat} {t : CustomTag} {names : HandlerNames} {id : Nat}

/-- Letters are made lower case, and digits stay as they are. -/
theorem isLower_or_isDigit_lowerByte {b : UInt8}
    (h : (Bytes.isAlpha b || Bytes.isDigit b) = true) :
    (Bytes.isLower (Bytes.lowerByte b) || Bytes.isDigit (Bytes.lowerByte b)) = true := by
  unfold Bytes.lowerByte
  by_cases hupper : Bytes.isUpper b = true
  · have hlower : Bytes.isLower (b + 32) = true := by
      simp only [Bytes.isUpper, Bytes.isLower, Bool.and_eq_true, decide_eq_true_eq] at hupper ⊢
      grind
    rw [if_pos hupper, hlower, Bool.true_or]
  · rw [if_neg hupper]
    rwa [Bytes.isAlpha, Bool.eq_false_iff.mpr hupper, Bool.or_false] at h

/-- An identifier made of a name has lower-case letters and digits only. -/
theorem isLower_or_isDigit_of_mem_identifier {s : Bytes} {b : UInt8} (h : b ∈ identifier s) :
    (Bytes.isLower b || Bytes.isDigit b) = true := by
  unfold identifier at h
  dsimp only at h
  split at h
  · revert b
    decide
  · obtain ⟨c, hc, rfl⟩ := List.mem_map.mp h
    exact isLower_or_isDigit_lowerByte (List.mem_filter.mp ((List.dropWhile_sublist _).subset hc)).2

theorem space_not_mem_identifier (s : Bytes) : 32 ∉ identifier s := fun h =>
  absurd (isLower_or_isDigit_of_mem_identifier h) (by decide)

/-- The handler of an invocation is one word. -/
theorem IsNamed.space_not_mem (h : IsNamed t names id) : 32 ∉ names.handler := by
  have hbound := space_not_mem_identifier t.prefixName
  have hlocal := space_not_mem_identifier t.localName
  have hid : 32 ∉ Bytes.ofNat id := fun hmem =>
    absurd (Bytes.isDigit_of_mem_ofNat hmem) (by decide)
  rw [h.handler, invocationName]
  simp only [List.mem_append, not_or]
  exact ⟨by decide, ⟨⟨⟨hbound, by decide⟩, hlocal⟩, by decide⟩, hid⟩

/-- The variables of an invocation are introduced by the generator. -/
theorem IsNamed.introduced {named : Bytes → Prop} (h : IsNamed t names id) (hid : level ≤ id) :
    ∀ x ∈ [names.handler, names.eval, names.push, againName names],
      Introduced named level x := by
  intro x hx
  simp only [List.mem_cons, List.not_mem_nil, or_false] at hx
  rcases hx with rfl | rfl | rfl | rfl
  · rw [h.handler]
    exact .invocation (by decide) t hid
  · rw [h.eval]
    exact .invocation (by decide) t hid
  · rw [h.push]
    exact .invocation (by decide) t hid
  · rw [againName_eq h]
    exact .invocation (by decide) t hid

/-- A statement that calls nothing and is no line of control. -/
theorem Site.own_of_targets {s : Statement} (hread : s.IsRead) (hpage : s.isPage = false)
    (h : ∀ x ∈ s.targets, Introduced z.Names level x) : z.IsOwn level s := by
  refine ⟨hread, h, ?_⟩
  rintro l rfl
  cases hpage

theorem Site.own_use (x : Bytes) : z.IsOwn level (.use x) :=
  Site.own_of_targets trivial rfl fun _ h => absurd h List.not_mem_nil

theorem Site.own_page {l : Bytes} (h : z.IsCode l) : z.IsOwn level (.page l) := by
  refine ⟨trivial, fun _ hx => absurd hx List.not_mem_nil, ?_⟩
  rintro _ ⟨⟩
  exact h

/-- The variables set from the page context are those of the tag. -/
theorem own_syncs (hvars : ∀ v ∈ t.vars, z.Names v.name) (scopes : List VariableScope) :
    ∀ s ∈ syncs t scopes, z.IsOwn level s := by
  intro s hs
  obtain ⟨v, hv, rfl⟩ := List.mem_map.mp hs
  have hname := hvars v (List.mem_filter.mp hv).1
  exact Site.own_assign (fun x hx => List.mem_singleton.mp hx ▸ .page hname) _

theorem own_nestedSyncs {vs : List VariableBinding} (hvars : ∀ v ∈ vs, z.Names v.name)
    (b : Blocks) : ∀ s ∈ nestedSyncs b vs, z.IsOwn level s := by
  induction vs generalizing b with
  | nil => exact fun s hs => absurd hs List.not_mem_nil
  | cons v vs ih =>
    have hname : ∀ x ∈ [v.name], Introduced z.Names level x := fun x hx =>
      List.mem_singleton.mp hx ▸ .page (hvars v List.mem_cons_self)
    have hrest := fun b => ih (fun w hw => hvars w (List.mem_cons_of_mem v hw)) b
    intro s hs
    unfold nestedSyncs at hs
    split at hs
    · rcases List.mem_cons.mp hs with rfl | hs
      · exact Site.own_define hname _
      rcases List.mem_cons.mp hs with rfl | hs
      · exact Site.own_use _
      · exact hrest _ s hs
    · rcases List.mem_cons.mp hs with rfl | hs
      · exact Site.own_assign hname _
      · exact hrest _ s hs

/-- The variables declared before a tag are its own, and save slots of its level. -/
theorem own_declared {vs : List VariableBinding} (hvars : ∀ v ∈ vs, z.Names v.name)
    {nesting : Nat} (hl : level ≤ nesting) (b : Blocks) :
    ∀ s ∈ (Declared.all nesting b vs).statements, z.IsOwn level s := by
  induction vs generalizing b with
  | nil => exact fun s hs => absurd hs List.not_mem_nil
  | cons v vs ih =>
    have hname : Introduced z.Names level v.name := .page (hvars v List.mem_cons_self)
    have hslot : Introduced z.Names level (saveSlot v.name nesting) := .slot v.name hl
    have hone : ∀ s ∈ (Declared.one nesting b v).statements, z.IsOwn level s := by
      intro s hs
      unfold Declared.one at hs
      split_ifs at hs
      all_goals simp only [List.mem_cons, List.not_mem_nil, or_false] at hs
      · subst hs
        exact Site.own_of_targets trivial rfl fun x hx => List.mem_singleton.mp hx ▸ hslot
      · subst hs
        exact Site.own_of_targets trivial rfl fun x hx => List.mem_singleton.mp hx ▸ hslot
      · rcases hs with rfl | rfl
        · exact Site.own_of_targets trivial rfl fun x hx => List.mem_singleton.mp hx ▸ hname
        · exact Site.own_use _
    intro s hs
    rcases List.mem_append.mp hs with hs | hs
    · exact hone s hs
    · exact ih (fun w hw => hvars w (List.mem_cons_of_mem v hw)) _ s hs

/-- A variable that is saved is one of the tag. -/
theorem Declared.saved_subset {vs : List VariableBinding} {nesting : Nat} {b : Blocks} {x : Bytes}
    (hx : x ∈ (Declared.all nesting b vs).saved) : ∃ v ∈ vs, v.name = x := by
  induction vs generalizing b with
  | nil => exact absurd hx List.not_mem_nil
  | cons v vs ih =>
    rcases List.mem_append.mp hx with hx | hx
    · refine ⟨v, List.mem_cons_self, ?_⟩
      unfold Declared.one at hx
      split_ifs at hx
      all_goals first
        | exact (List.mem_singleton.mp hx).symm
        | exact absurd hx List.not_mem_nil
    · obtain ⟨w, hw, hname⟩ := ih hx
      exact ⟨w, List.mem_cons_of_mem v hw, hname⟩

theorem own_restores (hvars : ∀ v ∈ t.vars, z.Names v.name) (nesting : Nat) (b : Blocks) :
    ∀ s ∈ restores nesting (Declared.all nesting b t.vars).saved, z.IsOwn level s := by
  intro s hs
  obtain ⟨x, hx, rfl⟩ := List.mem_map.mp hs
  obtain ⟨v, hv, rfl⟩ := Declared.saved_subset hx
  exact Site.own_of_targets trivial rfl fun x hx => List.mem_singleton.mp hx ▸ .page (hvars v hv)

end Own

/-! ### Programs -/

/-- Every statement of a program is one of the generator, and the code it takes over fits. -/
def Program.Fits (z : Site) (level : Nat) (u : State) : Program → Prop
  | .done | .leave _ | .stop => True
  | .line s rest => z.IsOwn level s ∧ rest.Fits z level u
  | .push handler rest => 32 ∉ handler ∧ rest.Fits z level u
  | .pop rest => rest.Fits z level u
  | .guard condition rest => (∃ x : Bytes, condition = "if " ++ x) ∧ rest.Fits z level u
  | .cond test body rest =>
    (∃ x : Bytes, test.text = "if " ++ x) ∧ body.Fits z level u ∧ rest.Fits z level u
  | .loop body rest | .deferred body rest => body.Fits z level u ∧ rest.Fits z level u
  | .drain counter body rest =>
    Introduced z.Names level counter ∧ body.Fits z level u ∧ rest.Fits z level u
  | .page c rest => Generation.Fits z level u c ∧ rest.Fits z level u

section Programs

variable {z : Site} {level : Nat} {u : State} {t : CustomTag} {d : TagDescriptor}
  {names : HandlerNames} {id : Nat} {attributes body : Code} {plan : BodyPlan}

/-- A line that closes a block. -/
theorem own_close (rest : Bytes) : z.IsOwn level (.control ("\x7d" ++ rest)) :=
  Site.own_control (by decide) rest

theorem own_if {text : Bytes} (h : ∃ x : Bytes, text = "if " ++ x) :
    z.IsOwn level (.control text) := by
  obtain ⟨x, rfl⟩ := h
  exact Site.own_control (by decide) x

theorem Program.Fits.code {p : Program} (h : p.Fits z level u) :
    Generation.Fits z level u p.code := by
  have hclose : z.IsOwn level (.control "\x7d") := own_close []
  induction p with
  | done => exact fits_nil
  | line s rest ih => exact fits_line.mpr ⟨h.1, ih h.2⟩
  | push handler rest ih => exact fits_line.mpr ⟨Site.own_call h.1 _, ih h.2⟩
  | pop rest ih => exact fits_line.mpr ⟨Site.own_call (by decide) _, ih h⟩
  | guard condition rest ih => exact fits_append.mpr ⟨fits_returning (own_if h.1), ih h.2⟩
  | cond test body rest ihb ih =>
    exact fits_append.mpr ⟨fits_block (own_if h.1) hclose (ihb h.2.1), ih h.2.2⟩
  | loop body rest ihb ih =>
    have hfor : z.IsOwn level (.control "for \x7b") :=
      Site.own_control (w := "for ") (by decide) "\x7b"
    exact fits_append.mpr ⟨fits_block hfor hclose (ihb h.1), ih h.2⟩
  | drain counter body rest ihb ih =>
    have hcount : z.IsOwn level (.countDown counter) :=
      Site.own_of_targets trivial rfl fun x hx => List.mem_singleton.mp hx ▸ h.1
    exact fits_append.mpr ⟨fits_block hcount hclose (ihb h.2.1), ih h.2.2⟩
  | deferred body rest ihb ih =>
    have hdefer : z.IsOwn level (.control "defer func() \x7b") :=
      Site.own_control (w := "defer ") (by decide) "func() \x7b"
    exact fits_append.mpr ⟨fits_block hdefer (own_close "()") (ihb h.1), ih h.2⟩
  | page c rest ih => exact fits_append.mpr ⟨h.1, ih h.2⟩
  | leave value => exact fits_line.mpr ⟨own_return value, fits_nil⟩
  | stop =>
    have hbreak : z.IsOwn level (.control "break") := Site.own_control (w := "break") (by decide) []
    exact fits_line.mpr ⟨hbreak, fits_nil⟩

theorem Program.fits_lines {ss : List Statement} {rest : Program} :
    (Program.lines ss rest).Fits z level u ↔
      (∀ s ∈ ss, z.IsOwn level s) ∧ rest.Fits z level u := by
  induction ss with
  | nil => simp [Program.lines]
  | cons s ss ih =>
    have hcons : (Program.lines (s :: ss) rest).Fits z level u ↔
        z.IsOwn level s ∧ (Program.lines ss rest).Fits z level u := Iff.rfl
    rw [hcons, ih, List.forall_mem_cons, and_assoc]

theorem fits_releaseProgram (hnames : IsNamed t names id) (hid : level ≤ id) (buffered : Bool) :
    (releaseProgram z.env d names buffered).Fits z level u := by
  have hcall (message : Bytes) : z.IsOwn level (.call names.handler message) :=
    Site.own_call hnames.space_not_mem message
  have hput (message : Bytes) : z.IsOwn level (.call z.env.receiver message) :=
    Site.own_call (space_not_mem_receiver z.env) message
  have hpush : Introduced z.Names level names.push := hnames.introduced hid _ (by simp)
  have hcatch : z.IsOwn level (.assign ["err"] (names.handler ++ ".DoCatch(err)")) :=
    Site.own_assign (fun x hx => List.mem_singleton.mp hx ▸ .error) _
  have hrelease : z.IsOwn level (releaseStatement z.env names) := by
    unfold releaseStatement
    split
    · exact hput _
    · exact hcall _
  have hfinish : (finishProgram z.env d names).Fits z level u := by
    unfold finishProgram
    split
    · exact ⟨⟨"err != nil && !rt.IsSkipPage(err) \x7b", rfl⟩, ⟨hcatch, trivial⟩, hcall _, hrelease,
        trivial⟩
    · exact ⟨hrelease, trivial⟩
  unfold releaseProgram
  split
  · exact ⟨hpush, trivial, hfinish⟩
  · exact hfinish

theorem fits_roundProgram (hnames : IsNamed t names id) (hid : level ≤ id)
    (hvars : ∀ v ∈ t.vars, z.Names v.name) (hbody : Generation.Fits z level u body)
    (blocks : Blocks) (repeated : Bool) {rest : Program} (hrest : rest.Fits z level u) :
    (roundProgram t names blocks body repeated rest).Fits z level u := by
  have hagain : z.IsOwn level
      (.define [againName names, "err"] (names.handler ++ ".DoAfterBody()")) := by
    refine Site.own_define (fun x hx => ?_) _
    rcases List.mem_cons.mp hx with rfl | hx
    · exact hnames.introduced hid _ (by simp)
    · exact List.mem_singleton.mp hx ▸ .error
  refine Program.fits_lines.mpr ⟨own_nestedSyncs (fun v hv => hvars v ?_) blocks, ?_⟩
  · exact (List.mem_filter.mp hv).1
  refine Program.fits_lines.mpr ⟨own_syncs hvars _, hbody, ?_⟩
  cases repeated with
  | false => exact hrest
  | true => exact ⟨hagain, ⟨"err != nil \x7b", rfl⟩, ⟨_, rfl⟩, trivial, hrest⟩

theorem fits_bodyProgram (hnames : IsNamed t names id) (hid : level ≤ id)
    (hvars : ∀ v ∈ t.vars, z.Names v.name) (hbody : Generation.Fits z level u body)
    (blocks : Blocks) {rest : Program} (hrest : rest.Fits z level u) :
    (bodyProgram t names plan blocks body rest).Fits z level u := by
  have hpush : Introduced z.Names level names.push := hnames.introduced hid _ (by simp)
  have hincrement : z.IsOwn level (.increment names.push) :=
    Site.own_of_targets trivial rfl fun x hx => List.mem_singleton.mp hx ▸ hpush
  have hdecrement : z.IsOwn level (.decrement names.push) :=
    Site.own_of_targets trivial rfl fun x hx => List.mem_singleton.mp hx ▸ hpush
  have hclose : (closeProgram names plan.buffered).Fits z level u := by
    unfold closeProgram
    split
    · exact ⟨⟨_, rfl⟩, ⟨hdecrement, trivial⟩, trivial⟩
    · trivial
  have hrounds : (roundsProgram t names plan blocks body).Fits z level u := by
    unfold roundsProgram
    split
    · exact ⟨fits_roundProgram hnames hid hvars hbody blocks true trivial, hclose⟩
    · exact fits_roundProgram hnames hid hvars hbody blocks false hclose
  have hinit : ∃ x : Bytes, ("if err := " ++ (names.handler ++ ".DoInitBody()") ++
      "; err != nil \x7b" : Bytes) = "if " ++ x := ⟨_, rfl⟩
  refine ⟨⟨_, rfl⟩, ?_, hrest⟩
  split
  · exact ⟨⟨_, rfl⟩, ⟨hnames.space_not_mem, hincrement, hinit, trivial⟩, hrounds⟩
  · exact hrounds

/-- The statements of a classic tag from its start on fit, if its body does. -/
theorem fits_callsProgram (hnames : IsNamed t names id) (hid : level ≤ id)
    (hvars : ∀ v ∈ t.vars, z.Names v.name) (hbody : Generation.Fits z level u body)
    (blocks : Blocks) : (callsProgram t names plan blocks body).Fits z level u := by
  have hset : ∀ x ∈ [names.eval, "err"], Introduced z.Names level x := by
    intro x hx
    rcases List.mem_cons.mp hx with rfl | hx
    · exact hnames.introduced hid _ (by simp)
    · exact List.mem_singleton.mp hx ▸ .error
  have herr : ∃ x : Bytes, ("if err != nil \x7b" : Bytes) = "if " ++ x := ⟨"err != nil \x7b", rfl⟩
  have hend : (endProgram t names).Fits z level u := by
    refine ⟨Site.own_assign hset _, herr, Program.fits_lines.mpr ⟨own_syncs hvars _, ?_⟩⟩
    exact ⟨⟨_, rfl⟩, trivial, trivial⟩
  refine ⟨Site.own_define hset _, herr, Program.fits_lines.mpr ⟨own_syncs hvars _, ?_⟩⟩
  split
  · exact fits_bodyProgram hnames hid hvars hbody blocks hend
  · exact hend

/-- The statements that run a classic tag fit, if its attributes and its body do. -/
theorem fits_classicProgram (hnames : IsNamed t names id) (hid : level ≤ id)
    (hvars : ∀ v ∈ t.vars, z.Names v.name) (type parent : Bytes)
    (hattributes : Generation.Fits z level u attributes) (hbody : Generation.Fits z level u body)
    (blocks : Blocks) :
    (classicProgram z.env t d names plan type parent blocks attributes body).Fits z level u := by
  have hnew : Introduced z.Names level names.handler := hnames.introduced hid _ (by simp)
  have hpush : Introduced z.Names level names.push := hnames.introduced hid _ (by simp)
  have hzero : z.IsOwn level (.zero names.push) :=
    Site.own_of_targets trivial rfl fun x hx => List.mem_singleton.mp hx ▸ hpush
  have hcall (message : Bytes) : z.IsOwn level (.call names.handler message) :=
    Site.own_call hnames.space_not_mem message
  have hafter : (Program.deferred (releaseProgram z.env d names plan.buffered)
      (.page attributes (callsProgram t names plan blocks body))).Fits z level u :=
    ⟨fits_releaseProgram hnames hid plan.buffered, hattributes,
      fits_callsProgram hnames hid hvars hbody blocks⟩
  refine ⟨Site.own_define (fun x hx => List.mem_singleton.mp hx ▸ hnew) _, hcall _, hcall _, ?_⟩
  split
  · exact ⟨hzero, hafter⟩
  · exact hafter

end Programs

/-! ### Nodes in programs -/

section Pages

variable {t : CustomTag} {d : TagDescriptor} {names : HandlerNames} {attributes body : Code}
  {plan : BodyPlan}

/-- The codes that a program takes over. -/
def Program.pages : Program → List Code
  | .done | .leave _ | .stop => []
  | .line _ rest | .push _ rest | .pop rest | .guard _ rest => rest.pages
  | .cond _ body rest | .loop body rest | .drain _ body rest | .deferred body rest =>
    body.pages ++ rest.pages
  | .page c rest => c :: rest.pages

theorem Program.nodes_code (p : Program) : p.code.nodes = p.pages.flatMap Code.nodes := by
  induction p with
  | done | leave _ | stop => rfl
  | line s rest ih | push _ rest ih | pop rest ih => exact ih
  | guard condition rest ih => simp [Program.code, Program.pages, ih]
  | cond _ body rest ihb ih | loop body rest ihb ih | drain _ body rest ihb ih
  | deferred body rest ihb ih => simp [Program.code, Program.pages, ihb, ih]
  | page c rest ih => simp [Program.code, Program.pages, ih]

@[simp] theorem Program.pages_lines (ss : List Statement) (rest : Program) :
    (Program.lines ss rest).pages = rest.pages := by
  induction ss with
  | nil => rfl
  | cons s ss ih => exact ih

theorem pages_releaseProgram (env : Env) (buffered : Bool) :
    (releaseProgram env d names buffered).pages = [] := by
  unfold releaseProgram finishProgram
  cases buffered <;> cases d.tryCatchFinally <;> rfl

theorem pages_roundProgram (blocks : Blocks) (repeated : Bool) (rest : Program) :
    (roundProgram t names blocks body repeated rest).pages = body :: rest.pages := by
  unfold roundProgram
  cases repeated <;> simp [Program.pages]

theorem pages_bodyProgram (blocks : Blocks) (rest : Program) :
    (bodyProgram t names plan blocks body rest).pages = body :: rest.pages := by
  have hclose : (closeProgram names plan.buffered).pages = [] := by
    unfold closeProgram
    split <;> rfl
  have hrounds : (roundsProgram t names plan blocks body).pages = [body] := by
    unfold roundsProgram
    split <;> simp [Program.pages, pages_roundProgram, hclose]
  unfold bodyProgram
  dsimp only
  split <;> simp [Program.pages, hrounds]

/-- A classic tag takes over the code of its attributes, and that of its body if it is evaluated. -/
theorem pages_classicProgram (env : Env) (type parent : Bytes) (blocks : Blocks) :
    (classicProgram env t d names plan type parent blocks attributes body).pages =
      attributes :: if plan.evaluated then [body] else [] := by
  have hend : (endProgram t names).pages = [] := by simp [endProgram, Program.pages]
  unfold classicProgram callsProgram
  cases plan.buffered <;> cases plan.evaluated <;>
    simp [Program.pages, pages_releaseProgram, pages_bodyProgram, hend]

end Pages

/-! ### Simple tags and placement -/

section Placement

variable {z : Site} {level : Nat} {u : State} {t : CustomTag} {names : HandlerNames} {id : Nat}
  {attributes run : Code} {setBody : Option (Code × Nat)}

/-- The code that runs a simple tag fits, if its attributes and its body do. -/
theorem fits_simpleCode (hnames : IsNamed t names id) (hid : level ≤ id)
    (hvars : ∀ v ∈ t.vars, z.Names v.name) (type parent : Bytes)
    (hattributes : Fits z level u attributes)
    (hbody : ∀ body i, setBody = some (body, i) → Fits z level u body) :
    Fits z level u (simpleCode t names type parent attributes setBody) := by
  have hnew : Introduced z.Names level names.handler := hnames.introduced hid _ (by simp)
  have hcall (message : Bytes) : z.IsOwn level (.call names.handler message) :=
    Site.own_call hnames.space_not_mem message
  have hstart : Fits z level u (Code.lines [.define [names.handler] ("&" ++ type ++ "\x7b\x7d"),
      .call names.handler "SetJspContext(pc)",
      .call names.handler ("SetParent(" ++ parent ++ ")")]) := by
    have hdefine : z.IsOwn level (.define [names.handler] ("&" ++ type ++ "\x7b\x7d")) :=
      Site.own_define (fun x hx => List.mem_singleton.mp hx ▸ hnew) _
    exact fits_line.mpr ⟨hdefine, fits_line.mpr ⟨hcall _, fits_line.mpr ⟨hcall _, fits_nil⟩⟩⟩
  have hend : Fits z level u (Code.check (names.handler ++ ".DoTag()") ++
      (Code.lines (syncs t [.atBegin, .atEnd]) ++ .line (.control "return nil") .nil)) :=
    fits_append.mpr ⟨fits_check _, fits_append.mpr ⟨fits_lines.mpr (own_syncs hvars _),
      fits_line.mpr ⟨own_return "nil", fits_nil⟩⟩⟩
  refine fits_append.mpr ⟨hstart, fits_append.mpr ⟨hattributes, fits_append.mpr ⟨?_, hend⟩⟩⟩
  cases setBody with
  | none => exact fits_nil
  | some b => exact fits_fragment.mpr ⟨hbody _ _ rfl, fits_line.mpr ⟨hcall _, fits_nil⟩⟩

theorem nodes_simpleCode (type parent : Bytes) :
    (simpleCode t names type parent attributes setBody).nodes =
      attributes.nodes ++ (setBody.map (·.1.nodes)).getD [] := by
  unfold simpleCode
  cases setBody <;> simp [Code.nodes]

theorem fits_closureCode (hrun : Fits z level u run) : Fits z level u (closureCode run) := by
  have hopen : z.IsOwn level (.control "if err := func() (err error) \x7b") :=
    own_if ⟨"err := func() (err error) \x7b", rfl⟩
  have hcall : z.IsOwn level (.control "\x7d(); err != nil \x7b") := own_close "(); err != nil \x7b"
  exact fits_line.mpr ⟨hopen, fits_indent.mpr
    (fits_append.mpr ⟨hrun, fits_outdent.mpr (fits_returning hcall)⟩)⟩

theorem fits_methodCode (env : Env) (name : Bytes) (hrun : Fits z level u run) :
    Fits z level u (methodCode env name run) :=
  fits_block (Site.own_control (w := "func ") (by decide) ("(" ++ env.receiver ++ " *" ++
    env.typeName ++ ") " ++ name ++ "(pc *rt.PageContext, frags *" ++ env.fragmentType ++
    ", parent rt.Tag) (err error) \x7b")) (own_close []) hrun

/-- The code of an invocation in place fits, if the code that runs the tag does. -/
theorem fits_inlineCode (hvars : ∀ v ∈ t.vars, z.Names v.name) (hl : level ≤ t.nesting)
    (blocks : Blocks) (hrun : Fits z level u run) : Fits z level u (inlineCode t blocks run) :=
  fits_append.mpr ⟨fits_lines.mpr (own_declared hvars hl blocks),
    fits_append.mpr ⟨fits_closureCode hrun, fits_lines.mpr (own_restores hvars _ _)⟩⟩

theorem nodes_inlineCode (blocks : Blocks) : (inlineCode t blocks run).nodes = run.nodes := by
  simp [inlineCode, closureCode, Code.nodes]

theorem leads_inlineCode (blocks : Blocks) : (inlineCode t blocks run).Leads := by
  refine Code.Leads.append ?_ trivial
  cases (Declared.all t.nesting blocks t.vars).statements <;> trivial

theorem nodes_methodCode (env : Env) (name : Bytes) : (methodCode env name run).nodes = run.nodes :=
  Code.nodes_block _ _ _

end Placement

end ServerPages.Generation
