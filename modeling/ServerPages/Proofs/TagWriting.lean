import Mathlib.Algebra.Order.BigOperators.Group.List
import Mathlib.Data.List.Perm.Subperm
import Mathlib.Algebra.Order.Ring.Nat
import ServerPages.Proofs.TagStatements
import ServerPages.Proofs.ValueWriting

/-!
# The code of invocations of tags

An invocation is written as a program (`classicProgram`, `simpleCode`) that runs in a closure in
place or in a method of its own. The statements around the closure depend on the variables declared
where the tag opens.

## Main results

* `writes_invocation`: the code that runs a tag.
* `writes_customTag`: the code of an invocation, with the state in which the tag opens.
-/

namespace ServerPages.Generation

/-! ### Scripting variables -/

section Variables

variable {s : State}

theorem Writes.declare_bind {β : Type} {f g : PUnit → Gen β} {R : β → State → Code → Prop}
    (name : Bytes)
    (h : Writes (f ()) (g ()) (s.withBlocks (s.place.blocks.declare name)) R) :
    Writes (declare name >>= f) (declare name >>= g) s R := by
  have hlater := s.later_withBlocks (s.place.blocks.declare name)
  refine Writes.bind (Q := fun _ t c => t = s.withBlocks (s.place.blocks.declare name) ∧ c = .nil)
    (.modify hlater rfl ⟨rfl, rfl⟩) ?_
  rintro _ _ _ - ⟨rfl, rfl⟩
  exact h

theorem writes_declareVariable (nesting : Nat) (v : VariableBinding) :
    Writes (declareVariable nesting v) (declareVariable nesting v) s fun saved u c =>
      u.place.blocks = (Declared.one nesting s.place.blocks v).blocks ∧
        c = Code.lines (Declared.one nesting s.place.blocks v).statements ∧
        saved.toList = (Declared.one nesting s.place.blocks v).saved := by
  unfold Declared.one declareVariable
  by_cases hnested : v.scope = .nested
  · simp only [hnested, beq_self_eq_true, if_true]
    exact .pure ⟨rfl, rfl, rfl⟩
  have hscope : (v.scope == .nested) = false := by simpa using hnested
  simp only [hscope, Bool.false_eq_true, if_false, hnested]
  refine .get ?_
  by_cases hvisible : s.place.blocks.isVisible v.name = true
  · simp only [hvisible, if_true]
    by_cases hsaved : v.scope = .atBegin ∧ 0 < nesting
    · simp only [if_true, hsaved, and_self]
      by_cases hlocal : s.place.blocks.isLocal (saveSlot v.name nesting) = true
      · simp only [hlocal, if_true]
        refine .line_bind (.copy false (saveSlot v.name nesting) v.name) ?_ fun w => ?_
        · simp [Statement.text, Statement.assigns]
        exact .pure ⟨rfl, rfl, rfl⟩
      · simp only [hlocal, Bool.false_eq_true, if_false]
        refine .line_bind (.copy true (saveSlot v.name nesting) v.name) ?_ fun w => ?_
        · simp [Statement.text, Statement.defines]
        exact .declare_bind _ (.pure ⟨rfl, rfl, rfl⟩)
    · have htest : (v.scope == .atBegin && decide (0 < nesting)) = false := by
        simpa using hsaved
      simp only [htest, Bool.false_eq_true, if_false, hsaved]
      exact .pure ⟨rfl, rfl, rfl⟩
  · simp only [hvisible, Bool.false_eq_true, if_false]
    by_cases hdeclare : v.declare = true
    · simp only [hdeclare, if_true]
      refine .line_bind (.declare v.name v.valueType) ?_ fun w => ?_
      · simp [Statement.text]
      refine .line_bind (.use v.name) rfl fun w' => ?_
      exact .declare_bind _ (.pure ⟨rfl, rfl, rfl⟩)
    · simp only [hdeclare, Bool.false_eq_true, if_false]
      exact .pure ⟨rfl, rfl, rfl⟩

/-- The variables of a tag are declared and saved as the variables declared around it ask for. -/
theorem writes_declareVariables (t : CustomTag) :
    Writes (declareVariables t) (declareVariables t) s fun saved _ c =>
      c = Code.lines (Declared.all t.nesting s.place.blocks t.vars).statements ∧
        saved = (Declared.all t.nesting s.place.blocks t.vars).saved := by
  have hall : ∀ (vs : List VariableBinding) (s : State),
      Writes (vs.mapM (declareVariable t.nesting)) (vs.mapM (declareVariable t.nesting)) s
        fun saved _ c => c = Code.lines (Declared.all t.nesting s.place.blocks vs).statements ∧
          saved.filterMap id = (Declared.all t.nesting s.place.blocks vs).saved := by
    intro vs
    induction vs with
    | nil =>
      intro s
      exact .pure ⟨rfl, rfl⟩
    | cons v vs ih =>
      intro s
      rw [List.mapM_cons]
      refine Writes.bind (writes_declareVariable t.nesting v) ?_
      rintro one u _ - ⟨hblocks, rfl, hone⟩
      refine Writes.bind (ih u) ?_
      rintro rest u' _ - ⟨rfl, hrest⟩
      rw [hblocks] at hrest ⊢
      refine .pure ⟨?_, ?_⟩
      · rw [Declared.all, Code.lines_append, Code.append_nil]
      · rw [Declared.all, ← hone, ← hrest]
        cases one <;> rfl
  unfold declareVariables
  refine Writes.bind (hall t.vars s) ?_
  rintro saved u _ - ⟨rfl, hsaved⟩
  exact .pure ⟨Code.append_nil _, hsaved⟩

/-- Variables are set one after the other. -/
theorem writes_syncVariables (t : CustomTag) (scopes : List VariableScope) :
    Writes (syncVariables t scopes) (syncVariables t scopes) s fun _ u c =>
      s.Later u ∧ c = Code.lines (syncs t scopes) := by
  unfold syncVariables syncs
  generalize t.vars.filter (fun v => scopes.contains v.scope) = vs
  induction vs generalizing s with
  | nil => exact .pure ⟨.refl s, rfl⟩
  | cons v vs ih =>
    refine .forM_cons (.emit_bind (.assign [v.name] (variableValue v)) ?_ fun t₁ h₁ => ?_)
    · simp [Statement.text, Statement.assigns, Statement.listed]
    refine ih.mono ?_
    rintro _ u _ - ⟨hu, rfl⟩
    exact ⟨h₁.trans hu, rfl⟩

/-- Sets a variable seen only in the body of a tag. -/
def setNested (v : VariableBinding) : Gen Unit := do
  if v.declare && !(← get).place.blocks.isLocal v.name then
    emit (v.name ++ " := " ++ variableValue v)
    emit ("_ = " ++ v.name)
    declare v.name
  else emit (v.name ++ " = " ++ variableValue v)

theorem writes_setNested (v : VariableBinding) :
    Writes (setNested v) (setNested v) s fun _ u c => ∀ vs,
      Code.lines (nestedSyncs s.place.blocks (v :: vs)) =
        c ++ Code.lines (nestedSyncs u.place.blocks vs) := by
  unfold setNested
  refine .get (.ite (fun hnew => ?_) fun hnew => ?_)
  · refine .line_bind (.define [v.name] (variableValue v)) ?_ fun w => ?_
    · simp [Statement.text, Statement.defines, Statement.listed]
    refine .line_bind (.use v.name) rfl fun w' => ?_
    refine .modify ⟨Nat.le_refl _, List.prefix_rfl, List.prefix_rfl⟩ rfl fun vs => ?_
    rw [nestedSyncs, if_pos hnew]
    rfl
  · refine .emit_out (.assign [v.name] (variableValue v)) ?_ fun w vs => ?_
    · simp [Statement.text, Statement.assigns, Statement.listed]
    rw [nestedSyncs, if_neg hnew]
    rfl

/-- The variables seen only in a body are set or declared as the variables of its block ask for. -/
theorem writes_declareNested (t : CustomTag) :
    Writes (declareNested t) (declareNested t) s fun _ _ c =>
      c = Code.lines (nestedSyncs s.place.blocks (t.vars.filter (·.scope == .nested))) := by
  have hall : ∀ (vs : List VariableBinding) (s : State),
      Writes (vs.forM setNested) (vs.forM setNested) s fun _ _ c =>
        c = Code.lines (nestedSyncs s.place.blocks vs) := by
    intro vs
    induction vs with
    | nil =>
      intro s
      exact .pure rfl
    | cons v vs ih =>
      intro s
      refine .forM_cons (Writes.bind (writes_setNested v) fun _ u c _ hc => (ih u).mono ?_)
      rintro _ t d - rfl
      exact (hc vs).symm
  exact hall _ s

end Variables

/-! ### Attributes -/

section Attributes

/-- The named attribute that gives the value of an attribute, if one does. -/
def givenBy (cs : List Node) (a : Attribute) : Option Node := a.child.bind (cs[·]?)

/-- How often a number is found below the named attributes that give the values of attributes. -/
def attributesWeight (cs : List Node) (as : List Attribute) (k : Nat) : Nat :=
  (as.map fun a => namedWeight a (givenBy cs a) k).sum

/-- Elements that count for nothing may be left out of a sum. -/
theorem sum_filter_of_zero {α : Type} {f : α → Nat} (p : α → Bool) (as : List α)
    (h : ∀ a, p a = false → f a = 0) : (as.map f).sum = ((as.filter p).map f).sum := by
  induction as with
  | nil => rfl
  | cons a as ih =>
    rw [List.filter_cons, List.map_cons, List.sum_cons, ih]
    cases hp : p a with
    | true => rw [if_pos rfl, List.map_cons, List.sum_cons]
    | false => rw [if_neg Bool.false_ne_true, h a hp, Nat.zero_add]

/-- No named attribute gives the values of two attributes. -/
theorem attributesWeight_le {h : Head} {cs : List Node} (hn : h.NamesOnce cs) (k : Nat) :
    attributesWeight cs h.attributes k ≤ weight (cs.filter (·.kind == .namedAttribute)) k := by
  let named := h.attributes.filter (·.kind == .named)
  let pair (a : Attribute) : Node × Nat :=
    (cs[a.child.getD 0]?.getD default, a.child.getD 0)
  -- What gives a value is a named attribute, and stands where the attribute says.
  have hpair : ∀ a ∈ named, ∃ i c, a.child = some i ∧ cs[i]? = some c ∧ c.kind = .namedAttribute ∧
      pair a = (c, i) := by
    intro a ha
    obtain ⟨ha, hk⟩ := List.mem_filter.mp ha
    obtain ⟨i, hi, hkind⟩ := hn.given a ha (eq_of_beq hk)
    rw [List.getElem?_map, Option.map_eq_some_iff] at hkind
    obtain ⟨c, hc, hck⟩ := hkind
    exact ⟨i, c, hi, hc, hck, by simp [pair, hi, hc]⟩
  have hnodup : (named.map pair).Nodup := by
    rw [List.Nodup, List.pairwise_map]
    refine hn.once.imp_of_mem fun {a b} ha hb hab => ?_
    obtain ⟨i, c, hi, -, -, hp⟩ := hpair a ha
    obtain ⟨j, d, hj, -, -, hq⟩ := hpair b hb
    rw [hp, hq]
    intro he
    exact hab (by rw [hi, hj, (Prod.mk.inj he).2])
  have hsub : named.map pair ⊆ cs.zipIdx.filter (·.1.kind == .namedAttribute) := by
    intro p hp
    obtain ⟨a, ha, rfl⟩ := List.mem_map.mp hp
    obtain ⟨i, c, -, hc, hk, hp⟩ := hpair a ha
    rw [hp]
    exact List.mem_filter.mpr ⟨List.mem_zipIdx_iff_getElem?.mpr hc, by simp [hk]⟩
  obtain ⟨l, hperm, hsublist⟩ := List.subperm_of_subset hnodup hsub
  let value (p : Node × Nat) : Nat := p.1.numbers.count k
  have hsum : attributesWeight cs h.attributes k ≤ ((named.map pair).map value).sum := by
    have hvalue : ∀ a ∈ named, namedWeight a (givenBy cs a) k ≤ value (pair a) := by
      intro a ha
      obtain ⟨i, c, hi, hc, -, hp⟩ := hpair a ha
      have hkind : a.kind = .named := eq_of_beq (List.mem_filter.mp ha).2
      have hgiven : givenBy cs a = some c := by rw [givenBy, hi, Option.bind_some, hc]
      rw [hp, hgiven, namedWeight, if_pos hkind]
      exact weight_children_le c k
    rw [attributesWeight, sum_filter_of_zero (·.kind == .named) h.attributes fun a ha => ?_,
      List.map_map]
    · exact List.sum_le_sum hvalue
    · exact if_neg fun hk => by simp [hk] at ha
  have htotal : ((cs.zipIdx.filter (·.1.kind == .namedAttribute)).map value).sum =
      weight (cs.filter (·.kind == .namedAttribute)) k := by
    have hfst : (cs.zipIdx.filter (·.1.kind == .namedAttribute)).map Prod.fst =
        cs.filter (·.kind == .namedAttribute) := by
      conv_rhs => rw [← List.zipIdx_map_fst 0 cs, List.filter_map]
      rfl
    rw [weight, Node.count_numbersAll, ← hfst, List.map_map]
    rfl
  calc attributesWeight cs h.attributes k
      ≤ ((named.map pair).map value).sum := hsum
    _ = (l.map value).sum := (hperm.map value).sum_nat.symm
    _ ≤ ((cs.zipIdx.filter (·.1.kind == .namedAttribute)).map value).sum :=
      (hsublist.map value).sum_le_sum fun _ _ => Nat.zero_le _
    _ = weight (cs.filter (·.kind == .namedAttribute)) k := htotal

/-- The code that passes attributes to a handler. -/
structure Passing (z : Site) (level : Nat) (w : Nat → Nat) (handler : Bytes)
    (as : List Attribute) (t : State) (c : Code) : Prop where
  fits : Fits z level t c
  surface : c.Surface (Statement.Passes handler as)
  within : c.Within w

variable {z : Site} {level : Nat} {inner inner' : Body} {s : State}

theorem writes_passAttribute (hinner : WritesInner z level inner inner') {handler : Bytes}
    (hhandler : 32 ∉ handler) {n : Node} {as : List Attribute} {a : Attribute} (ha : a ∈ as)
    (hnamed : a.kind = .named → ∀ c, givenBy n.children a = some c →
      ∀ d ∈ c.children, z.Visits level d) (hs : level ≤ s.sequence) :
    Writes (passAttribute inner handler n a) (passAttribute inner' handler n a) s fun _ t c =>
      Passing z level (namedWeight a (givenBy n.children a)) handler as t c := by
  unfold passAttribute
  refine .ite (fun _ => .throw _ _) fun _ => ?_
  dsimp only
  refine .ite (fun _ => .pure ⟨fits_nil, trivial, Code.within_of_nodes rfl⟩) fun _ => ?_
  refine Writes.bind (writes_valueCode hinner handler a a.setter.valueType hnamed hs) ?_
  rintro value t c h ⟨-, hc⟩
  have hsurface : c.Surface (Statement.Passes handler as) := hc.surface.mono fun _ h => .computes h
  -- The value is passed after it was computed.
  have hend : ∀ (u : State) (d : Code), t.Later u → Fits z level u d →
      d.Surface (Statement.Passes handler as) → d.nodes = [] →
      Passing z level (namedWeight a (givenBy n.children a)) handler as u (c ++ d) := by
    intro u d hu hfits hpasses hnodes
    refine ⟨fits_append.mpr ⟨hc.fits.mono hu, hfits⟩, (Code.surface_append c d).mpr
      ⟨hsurface, hpasses⟩, fun k hk => ?_⟩
    rw [Code.nodes_append, hnodes, List.append_nil]
    exact hc.within k hk
  refine .ite (fun _ => ?_) fun _ => ?_
  · refine .returning fun u hu => hend u _ hu (fits_check _) ?_ rfl
    exact ⟨.computes (.control _), .computes (.control _), .computes (.control _), trivial⟩
  · refine .emit (.call handler (a.setter.method ++ ("(" ++ (value ++ ")")))) ?_ fun u hu => ?_
    · simp [Statement.text]
    · exact hend u _ hu (fits_line.mpr ⟨Site.own_call hhandler _, fits_nil⟩)
        ⟨.setter ha value, trivial⟩
        rfl

/-- All attributes are passed, each computed before it is passed. -/
theorem writes_passAttributes (hinner : WritesInner z level inner inner') {handler : Bytes}
    (hhandler : 32 ∉ handler) {n : Node} (hnames : n.head.NamesOnce n.children)
    (hn : ∀ c ∈ n.children, z.Holds level c) (hs : level ≤ s.sequence) :
    Writes (passAttributes inner handler n) (passAttributes inner' handler n) s fun _ t c =>
      Passing z level (weight (n.children.filter (·.kind == .namedAttribute))) handler
        n.head.attributes t c := by
  have hgiven : ∀ a ∈ n.head.attributes, a.kind = .named → ∀ c, givenBy n.children a = some c →
      ∀ d ∈ c.children, z.Visits level d := by
    intro a ha hk c hc d hd
    obtain ⟨i, hi, hkind⟩ := hnames.given a ha hk
    rw [givenBy, hi, Option.bind_some] at hc
    rw [List.getElem?_map, hc] at hkind
    have hkind : c.kind = .namedAttribute := Option.some.inj hkind
    exact .inl ((hn c (List.mem_of_getElem? hc)).child_of_ne (by rw [hkind]; decide) hd)
  have hall : ∀ (as : List Attribute) (s : State), as ⊆ n.head.attributes → level ≤ s.sequence →
      Writes (as.forM (passAttribute inner handler n)) (as.forM (passAttribute inner' handler n)) s
        fun _ t c => Passing z level (attributesWeight n.children as) handler
          n.head.attributes t c := by
    intro as
    induction as with
    | nil => exact fun s _ _ => .pure ⟨fits_nil, trivial, Code.within_of_nodes rfl⟩
    | cons a as ih =>
      intro s hsub hs
      have ha := hsub List.mem_cons_self
      refine .forM_cons (Writes.bind (writes_passAttribute hinner hhandler ha (hgiven a ha) hs)
        fun _ t c h hc => ?_)
      have hrest := List.Subset.trans (List.subset_cons_self a as) hsub
      refine (ih t hrest (Nat.le_trans hs h.sequence)).mono fun _ u d hu hd => ?_
      refine ⟨fits_append.mpr ⟨hc.fits.mono hu, hd.fits⟩, (Code.surface_append c d).mpr
        ⟨hc.surface, hd.surface⟩, (hc.within.append hd.within).mono fun k _ => ?_⟩
      rw [attributesWeight, attributesWeight, List.map_cons, List.sum_cons]
  refine (hall _ s (List.Subset.refl _) hs).mono fun _ t c _ hc => ⟨hc.fits, hc.surface, ?_⟩
  exact hc.within.mono fun k _ => attributesWeight_le hnames k

end Attributes

/-! ### Names -/

section Names

variable {s : State}

/-- The identifiers of an invocation have a number of their own. -/
theorem writes_assignNames (env : Env) (h : Head) (t : CustomTag) (d : TagDescriptor) :
    Writes (assignNames env h t d) (assignNames env h t d) s fun names u c =>
      (∃ id, s.sequence < id ∧ id ≤ u.sequence ∧ IsNamed t names id) ∧
        u.place = s.place ∧ c = .nil := by
  unfold assignNames
  dsimp only
  refine Writes.bind (Q := fun i u c => i = s.sequence + 1 ∧ u.sequence = s.sequence + 1 ∧
    u.place = s.place ∧ c = .nil) (.modifyGet ?_ rfl ⟨rfl, rfl, rfl, rfl⟩) ?_
  · exact ⟨Nat.le_succ _, List.prefix_rfl, List.prefix_rfl⟩
  rintro _ u _ - ⟨rfl, hsequence, hplace, rfl⟩
  -- The identifiers are kept whether a pool is made or not.
  have hend : ∀ (names : HandlerNames) (v : State), IsNamed t names (s.sequence + 1) → u.Later v →
      v.place = s.place → Writes
        (modify (fun v : State => { v with names := (h.number, names) :: v.names }) >>=
          fun _ => (pure names : Gen HandlerNames))
        (modify (fun v : State => { v with names := (h.number, names) :: v.names }) >>=
          fun _ => pure names) v fun names w c =>
        (∃ id, s.sequence < id ∧ id ≤ w.sequence ∧ IsNamed t names id) ∧
          w.place = s.place ∧ c = .nil := by
    intro names v hnames hlater hv
    refine Writes.bind (Q := fun _ w c => w.sequence = v.sequence ∧ w.place = v.place ∧ c = .nil)
      (.modify ?_ rfl ⟨rfl, rfl, rfl⟩) ?_
    · exact ⟨Nat.le_refl _, List.prefix_rfl, List.prefix_rfl⟩
    rintro _ w _ - ⟨hw, hp, rfl⟩
    refine .pure ⟨⟨s.sequence + 1, Nat.lt_succ_self _, ?_, hnames⟩, hp.trans hv, rfl⟩
    have := hlater.sequence
    omega
  have hnames : ∀ pool : Bytes, IsNamed t
      { handler := "_th_" ++ invocationName t (s.sequence + 1), pool := pool,
        eval := "_ev_" ++ invocationName t (s.sequence + 1),
        push := "_pb_" ++ invocationName t (s.sequence + 1) } (s.sequence + 1) :=
    fun _ => ⟨rfl, rfl, rfl⟩
  refine .get (.ite (fun _ => ?_) fun _ => ?_)
  · refine Writes.bind (Q := fun _ v c => u.Later v ∧ v.place = u.place ∧ c = .nil)
      (.modify ?_ rfl ⟨?_, rfl, rfl⟩) ?_
    · exact ⟨Nat.le_refl _, List.prefix_rfl, List.prefix_rfl⟩
    · exact ⟨Nat.le_refl _, List.prefix_rfl, List.prefix_rfl⟩
    rintro _ v _ - ⟨hv, hp, rfl⟩
    refine Writes.bind (writes_qualified d.package d.typeName) ?_
    rintro _ w _ hw ⟨hq, rfl⟩
    exact hend _ w (hnames _) (hv.trans hw) (hq.trans (hp.trans hplace))
  · exact hend _ u (hnames _) (.refl u) hplace

end Names

/-! ### Lifecycles -/

section Lifecycles

variable {z : Site} {level : Nat} {inner inner' : Body} {s : State}

/-- Ends the deferred function of a classic tag. -/
def endDeferred (d : TagDescriptor) (handler release : Bytes) : Gen Unit := do
  if d.tryCatchFinally then
    openBlock "if err != nil && !rt.IsSkipPage(err) \x7b"
    emit ("err = " ++ handler ++ ".DoCatch(err)")
    closeBlock "\x7d"
    emit (handler ++ ".DoFinally()")
  emit release
  closeBlock "\x7d()"

theorem writes_endDeferred (env : Env) (d : TagDescriptor) (names : HandlerNames) :
    Writes (endDeferred d names.handler (releaseStatement env names).text)
      (endDeferred d names.handler (releaseStatement env names).text) s fun _ _ c =>
        c = (finishProgram env d names).code ++ .outdent (.line (.control "\x7d()") .nil) := by
  have hrelease : ∀ u : State, Writes
      (emit (releaseStatement env names).text >>= fun _ => closeBlock "\x7d()")
      (emit (releaseStatement env names).text >>= fun _ => closeBlock "\x7d()") u fun _ _ c =>
        c = .line (releaseStatement env names) (.outdent (.line (.control "\x7d()") .nil)) :=
    fun u => .emit_bind _ rfl fun _ _ => .closeBlock fun _ _ => rfl
  unfold endDeferred finishProgram
  refine .ite (fun hcatch => ?_) fun hcatch => ?_
  · refine .openBlock_bind (.control "if err != nil && !rt.IsSkipPage(err) \x7b") rfl fun _ _ => ?_
    refine .emit_bind (.assign ["err"] (names.handler ++ ".DoCatch(err)")) ?_ fun _ _ => ?_
    · simp [Statement.text, Statement.listed, Statement.assigns]
      rfl
    refine .closeBlock_bind fun _ _ => ?_
    refine .emit_bind (.call names.handler "DoFinally()") ?_ fun v _ => ?_
    · simp [Statement.text]
      rfl
    refine (hrelease v).mono ?_
    rintro _ _ _ - rfl
    simp [hcatch, Program.code, Code.block, Test.text]
  · refine (hrelease s).mono ?_
    rintro _ _ _ - rfl
    simp [hcatch, Program.code]

theorem text_releaseStatement (env : Env) (names : HandlerNames) :
    (releaseStatement env names).text = if names.pool != [] then
      env.receiver ++ "." ++ names.pool ++ ".Put(" ++ names.handler ++ ")"
      else names.handler ++ ".Release()" := by
  unfold releaseStatement
  split
  · simp [Statement.text]
  · rfl

/-- The deferred function of a classic tag pops the buffers that are left and releases the
handler. -/
theorem writes_deferred (env : Env) (d : TagDescriptor) (names : HandlerNames) (buffered : Bool) :
    Writes (deferred env d names buffered) (deferred env d names buffered) s fun _ _ c =>
      c = Code.block (.control "defer func() \x7b") (releaseProgram env d names buffered).code
        "\x7d()" := by
  unfold deferred releaseProgram
  rw [← text_releaseStatement]
  refine .openBlock_bind (.control "defer func() \x7b") rfl fun u _ => ?_
  refine .ite (fun hbuffered => ?_) fun hbuffered => ?_
  · refine .openBlock_bind (.countDown names.push) ?_ fun _ _ => ?_
    · simp [Statement.text]
    refine .emit_bind (.call "pc" "PopBody()") rfl fun _ _ => .closeBlock_bind fun v _ => ?_
    refine (writes_endDeferred env d names).mono ?_
    rintro _ _ _ - rfl
    simp [hbuffered, Program.code, Code.block]
  · refine (writes_endDeferred env d names).mono ?_
    rintro _ _ _ - rfl
    simp [hbuffered, Code.block]

/-- One evaluation of the body of a classic tag. -/
theorem writes_bodyRound (hinner : WritesInner z level inner inner') (t : CustomTag)
    (names : HandlerNames) (repeated : Bool) {n : Node} (hn : ∀ c ∈ n.children, z.Holds level c)
    (hs : level ≤ s.sequence) :
    Writes (bodyRound inner t names repeated n) (bodyRound inner' t names repeated n) s fun _ u c =>
      ∃ body, c = (roundProgram t names s.place.blocks body repeated .done).code ∧
        IsBody z level (weight n.content) u body := by
  have hcontent : ∀ c ∈ n.content, z.Visits level c := fun c hc => .inl (holds_contentOf hn c hc)
  unfold bodyRound roundProgram
  refine Writes.bind (writes_declareNested t) ?_
  rintro _ t₁ _ h₁ rfl
  refine Writes.bind (writes_syncVariables t [.atBegin]) ?_
  rintro _ t₂ _ h₂ ⟨-, rfl⟩
  refine Writes.bind (hinner n.content hcontent t₂ (Nat.le_trans hs (h₁.trans h₂).sequence)) ?_
  intro _ t₃ body h₃ hbody
  refine .ite (fun hrepeated => ?_) fun hrepeated => ?_
  · refine .emit_bind (.define [againName names, "err"] (names.handler ++ ".DoAfterBody()")) ?_
      fun t₄ h₄ => ?_
    · simp [Statement.text, Statement.listed, Statement.defines, againName]
      rfl
    refine .returning_bind fun t₅ h₅ => ?_
    refine .openBlock_bind (.control (Test.differs (againName names) "EvalBodyAgain").text) ?_
      fun t₆ h₆ => ?_
    · simp [Statement.text, Test.text, againName]
      rfl
    refine .emit_bind (.control "break") rfl fun t₇ h₇ => .closeBlock fun t₈ h₈ => ?_
    refine ⟨body, ?_, hbody.mono ((((h₄.trans h₅).trans h₆).trans h₇).trans h₈)
      fun _ _ => Nat.le_refl _⟩
    simp [hrepeated, Program.code, Code.block]
  · refine .pure ⟨body, ?_, hbody⟩
    simp [hrepeated, Program.code]

/-- One evaluation of a body is followed by what comes after it. -/
theorem code_roundProgram (t : CustomTag) (names : HandlerNames) (blocks : Blocks) (body : Code)
    (repeated : Bool) (rest : Program) :
    (roundProgram t names blocks body repeated rest).code =
      (roundProgram t names blocks body repeated .done).code ++ rest.code := by
  cases repeated <;> simp [roundProgram, Program.code]

/-- Pops a buffer after the last evaluation of a body. -/
def closeBuffer (names : HandlerNames) (buffered : Bool) : Gen Unit := do
  if buffered then
    openBlock ("if " ++ names.eval ++ " == rt.EvalBodyBuffered \x7b")
    emit "pc.PopBody()"
    emit (names.push ++ "--")
    closeBlock "\x7d"

theorem writes_closeBuffer (names : HandlerNames) (buffered : Bool) :
    Writes (closeBuffer names buffered) (closeBuffer names buffered) s fun _ _ c =>
      c = (closeProgram names buffered).code := by
  unfold closeBuffer closeProgram
  refine .ite (fun hbuffered => ?_) fun hbuffered => ?_
  · refine .openBlock_bind (.control (Test.equal names.eval "EvalBodyBuffered").text) ?_
      fun _ _ => ?_
    · simp [Statement.text, Test.text]
      rfl
    refine .emit_bind (.call "pc" "PopBody()") rfl fun _ _ => ?_
    refine .emit_bind (.decrement names.push) rfl fun _ _ => .closeBlock fun _ _ => ?_
    simp [hbuffered, Program.code, Code.block]
  · refine .pure ?_
    simp [hbuffered, Program.code]

/-- Evaluates the body of a classic tag once or again and again. -/
def evaluations (inner : Body) (t : CustomTag) (names : HandlerNames) (plan : BodyPlan) (n : Node) :
    Gen Unit := do
  if plan.repeated then
    openBlock "for \x7b"
    inBlock (bodyRound inner t names true n)
    closeBlock "\x7d"
  else bodyRound inner t names false n
  closeBuffer names plan.buffered

theorem writes_evaluations (hinner : WritesInner z level inner inner') (t : CustomTag)
    (names : HandlerNames) (plan : BodyPlan) {n : Node} (hn : ∀ c ∈ n.children, z.Holds level c)
    (hs : level ≤ s.sequence) :
    Writes (evaluations inner t names plan n) (evaluations inner' t names plan n) s fun _ u c =>
      ∃ blocks body, c = (roundsProgram t names plan blocks body).code ∧
        IsBody z level (weight n.content) u body := by
  unfold evaluations roundsProgram
  refine .ite (fun hrepeated => ?_) fun hrepeated => ?_
  · refine .openBlock_bind (.control "for \x7b") rfl fun t₁ h₁ => ?_
    have hround : Writes (inBlock (bodyRound inner t names true n))
        (inBlock (bodyRound inner' t names true n)) t₁ fun _ u c => ∃ blocks body,
          c = (roundProgram t names blocks body true .done).code ∧
            IsBody z level (weight n.content) u body := by
      refine .inBlock (P := fun _ u c => ∃ blocks body,
        c = (roundProgram t names blocks body true .done).code ∧
          IsBody z level (weight n.content) u body) (fun v hv => ?_) ?_
      · refine (writes_bodyRound hinner t names true hn
          (Nat.le_trans hs (h₁.trans hv).sequence)).mono ?_
        rintro _ u _ - ⟨body, rfl, hbody⟩
        exact ⟨_, body, rfl, hbody⟩
      · rintro u v _ huv ⟨blocks, body, rfl, hbody⟩
        exact ⟨blocks, body, rfl, hbody.mono huv fun _ _ => Nat.le_refl _⟩
    refine Writes.bind hround ?_
    rintro _ t₂ _ - ⟨blocks, body, rfl, hbody⟩
    refine .closeBlock_bind fun t₃ h₃ => (writes_closeBuffer names plan.buffered).mono ?_
    rintro _ t₄ _ h₄ rfl
    refine ⟨blocks, body, ?_, hbody.mono (h₃.trans h₄) fun _ _ => Nat.le_refl _⟩
    simp [hrepeated, Program.code, Code.block]
  · refine Writes.bind (writes_bodyRound hinner t names false hn hs) ?_
    rintro _ t₁ _ - ⟨body, rfl, hbody⟩
    refine (writes_closeBuffer names plan.buffered).mono ?_
    rintro _ t₂ _ h₂ rfl
    refine ⟨s.place.blocks, body, ?_, hbody.mono h₂ fun _ _ => Nat.le_refl _⟩
    rw [if_neg hrepeated, ← code_roundProgram]

/-- Pushes a buffer, if the handler asks for one, before the evaluations of a body. -/
def bufferedBody (inner : Body) (t : CustomTag) (names : HandlerNames) (plan : BodyPlan)
    (n : Node) : Gen Unit := do
  if plan.buffered then
    openBlock ("if " ++ names.eval ++ " == rt.EvalBodyBuffered \x7b")
    emit (names.handler ++ ".SetBodyContent(pc.PushBody())")
    emit (names.push ++ "++")
    check (names.handler ++ ".DoInitBody()")
    closeBlock "\x7d"
  evaluations inner t names plan n

/-- The body of a classic tag. -/
theorem writes_classicBody (hinner : WritesInner z level inner inner') (t : CustomTag)
    (names : HandlerNames) (plan : BodyPlan) {n : Node} (hn : ∀ c ∈ n.children, z.Holds level c)
    (hs : level ≤ s.sequence) :
    Writes (classicBody inner t names plan n) (classicBody inner' t names plan n) s fun _ u c =>
      ∃ blocks body, c = (bodyProgram t names plan blocks body .done).code ∧
        IsBody z level (weight n.content) u body := by
  let buffered (blocks : Blocks) (body : Code) : Program :=
    if plan.buffered then
      .cond (.equal names.eval "EvalBodyBuffered")
        (.push names.handler <| .line (.increment names.push) <|
          .guard ("if err := " ++ (names.handler ++ ".DoInitBody()") ++ "; err != nil \x7b") .done)
        (roundsProgram t names plan blocks body)
    else roundsProgram t names plan blocks body
  let IsBuffered (u : State) (c : Code) : Prop := ∃ blocks body,
    c = (buffered blocks body).code ∧ IsBody z level (weight n.content) u body
  have hbuffer : ∀ v : State, s.Later v → Writes (bufferedBody inner t names plan n)
      (bufferedBody inner' t names plan n) v fun _ u c => IsBuffered u c := by
    intro v hv
    refine .ite (fun hbuffered => ?_) fun hbuffered => ?_
    · refine .openBlock_bind (.control (Test.equal names.eval "EvalBodyBuffered").text) ?_
        fun t₁ h₁ => ?_
      · simp [Statement.text, Test.text]
        rfl
      refine .emit_bind (.call names.handler "SetBodyContent(pc.PushBody())") ?_ fun t₂ h₂ => ?_
      · simp [Statement.text]
        rfl
      refine .emit_bind (.increment names.push) rfl fun t₃ h₃ => .returning_bind fun t₄ h₄ => ?_
      refine .closeBlock_bind fun t₅ h₅ => ?_
      have hlater := (((hv.trans h₁).trans h₂).trans h₃).trans (h₄.trans h₅)
      refine (writes_evaluations hinner t names plan hn (Nat.le_trans hs hlater.sequence)).mono ?_
      rintro _ u _ - ⟨blocks, body, rfl, hbody⟩
      refine ⟨blocks, body, ?_, hbody⟩
      simp [buffered, hbuffered, Program.code, Code.block]
    · refine (writes_evaluations hinner t names plan hn (Nat.le_trans hs hv.sequence)).mono ?_
      rintro _ u _ - ⟨blocks, body, rfl, hbody⟩
      refine ⟨blocks, body, ?_, hbody⟩
      simp [buffered, hbuffered]
  have hinside : ∀ v : State, s.Later v → Writes (inBlock (bufferedBody inner t names plan n))
      (inBlock (bufferedBody inner' t names plan n)) v fun _ u c => IsBuffered u c := by
    intro v hv
    refine .inBlock (P := fun _ u c => IsBuffered u c) (fun w hw => hbuffer w (hv.trans hw)) ?_
    rintro u w _ huw ⟨blocks, body, rfl, hbody⟩
    exact ⟨blocks, body, rfl, hbody.mono huw fun _ _ => Nat.le_refl _⟩
  refine .openBlock_bind (.control (Test.differs names.eval "SkipBody").text) ?_ fun t₁ h₁ => ?_
  · simp [Statement.text, Test.text]
    rfl
  refine Writes.bind (hinside t₁ h₁) ?_
  rintro _ t₂ _ - ⟨blocks, body, rfl, hbody⟩
  refine .closeBlock fun t₃ h₃ => ⟨blocks, body, ?_, hbody.mono h₃ fun _ _ => Nat.le_refl _⟩
  simp [bodyProgram, buffered, Program.code, Code.block]

/-- A body is followed by what comes after it. -/
theorem code_bodyProgram (t : CustomTag) (names : HandlerNames) (plan : BodyPlan) (blocks : Blocks)
    (body : Code) (rest : Program) : (bodyProgram t names plan blocks body rest).code =
      (bodyProgram t names plan blocks body .done).code ++ rest.code := by
  simp [bodyProgram, Program.code]

/-- Ends a classic tag. -/
def endCalls (t : CustomTag) (names : HandlerNames) : Gen Unit := do
  emit (names.eval ++ ", err = " ++ names.handler ++ ".DoEndTag()")
  checkErr
  syncVariables t [.atBegin, .atEnd]
  openBlock ("if " ++ names.eval ++ " == rt.SkipPage \x7b")
  emit "return rt.ErrSkipPage"
  closeBlock "\x7d"
  emit "return nil"

theorem writes_endCalls (t : CustomTag) (names : HandlerNames) :
    Writes (endCalls t names) (endCalls t names) s fun _ _ c => c = (endProgram t names).code := by
  refine .emit_bind (.assign [names.eval, "err"] (names.handler ++ ".DoEndTag()")) ?_ fun t₁ _ => ?_
  · simp [Statement.text, Statement.listed, Statement.assigns]
    rfl
  refine .returning_bind fun t₂ _ => Writes.bind (writes_syncVariables t [.atBegin, .atEnd]) ?_
  rintro _ t₃ _ - ⟨-, rfl⟩
  refine .openBlock_bind (.control (Test.equal names.eval "SkipPage").text) ?_ fun t₄ _ => ?_
  · simp [Statement.text, Test.text]
    rfl
  refine .emit_bind (.control "return rt.ErrSkipPage") rfl fun t₅ _ => ?_
  refine .closeBlock_bind fun t₆ _ => ?_
  refine .emit (.control "return nil") rfl fun t₇ _ => ?_
  simp [endProgram, Program.code, Code.block]
  rfl

/-- The statements of a classic tag from its start on. -/
theorem writes_classicCalls (hinner : WritesInner z level inner inner') (t : CustomTag)
    (names : HandlerNames) (plan : BodyPlan) {n : Node} (hn : ∀ c ∈ n.children, z.Holds level c)
    (hs : level ≤ s.sequence) :
    Writes (classicCalls inner t names plan n) (classicCalls inner' t names plan n) s fun _ u c =>
      ∃ blocks body, c = (callsProgram t names plan blocks body).code ∧
        IsBody z level (weight n.content) u body := by
  refine .emit_bind (.define [names.eval, "err"] (names.handler ++ ".DoStartTag()")) ?_
    fun t₁ h₁ => ?_
  · simp [Statement.text, Statement.listed, Statement.defines]
    rfl
  refine .returning_bind fun t₂ h₂ => Writes.bind (writes_syncVariables t [.atBegin]) ?_
  rintro _ t₃ _ h₃ ⟨-, rfl⟩
  have hlater := (h₁.trans h₂).trans h₃
  refine .ite (fun hevaluated => ?_) fun hevaluated => ?_
  · refine Writes.bind (writes_classicBody hinner t names plan hn
      (Nat.le_trans hs hlater.sequence)) ?_
    rintro _ t₄ _ - ⟨blocks, body, rfl, hbody⟩
    refine (writes_endCalls t names).mono ?_
    rintro _ t₅ _ h₅ rfl
    refine ⟨blocks, body, ?_, hbody.mono h₅ fun _ _ => Nat.le_refl _⟩
    have hcode := code_bodyProgram t names plan blocks body (endProgram t names)
    simp [callsProgram, hevaluated, Program.code, hcode]
  · refine (writes_endCalls t names).mono ?_
    rintro _ t₅ _ - rfl
    refine ⟨[], .nil, ?_, .nil⟩
    simp [callsProgram, hevaluated, Program.code]

/-- The code that runs a tag: it is that of a classic or a simple tag, it fits, and only nodes
inside the tag have parts in it. -/
structure Running (z : Site) (level : Nat) (n : Node) (t : CustomTag) (d : TagDescriptor)
    (names : HandlerNames) (u : State) (c : Code) : Prop where
  run : IsRun z.env n t d names c
  fits : Fits z level u c
  within : c.Within (weight n.children)

theorem Running.mono {n : Node} {t : CustomTag} {d : TagDescriptor} {names : HandlerNames}
    {u v : State} {c : Code} (h : Running z level n t d names u c) (huv : u.Later v) :
    Running z level n t d names v c := ⟨h.run, h.fits.mono huv, h.within⟩

theorem writes_parentHandler : Writes parentHandler parentHandler s fun _ u c =>
    u = s ∧ c = .nil := .get (.pure ⟨rfl, rfl⟩)

/-- Named attributes and the body proper are apart. -/
theorem weight_inside_le (n : Node) (k : Nat) :
    weight (n.children.filter (·.kind == .namedAttribute)) k + weight n.content k ≤
      weight n.children k := by
  have hapart := weight_filter_add_le (p := fun c => c.kind == .namedAttribute)
    (q := fun c => c.kind != .namedAttribute) (fun c hc => by simpa using hc) n.children k
  exact Nat.le_trans (Nat.add_le_add_left (weight_contentOf_le n.children k) _) hapart

variable {n : Node} {t : CustomTag} {d : TagDescriptor} {names : HandlerNames} {id : Nat}

theorem running_classic (hd : d.isClassic = true) (hnames : IsNamed t names id) (hid : level ≤ id)
    (hvars : ∀ v ∈ t.vars, z.Names v.name) (type parent : Bytes) (blocks : Blocks) {u : State}
    {attributes body : Code}
    (hattributes : Passing z level (weight (n.children.filter (·.kind == .namedAttribute)))
      names.handler n.head.attributes u attributes)
    (hbody : IsBody z level (weight n.content) u body) :
    Running z level n t d names u
      (classicProgram z.env t d names (bodyPlan d n) type parent blocks attributes body).code := by
  refine ⟨.classic hd type parent blocks hattributes.surface hbody.surface, ?_, ?_⟩
  · exact (fits_classicProgram hnames hid hvars type parent hattributes.fits hbody.fits blocks).code
  · intro k hk
    have h1 := hattributes.within k hk
    have h2 := hbody.within k hk
    have h3 := weight_inside_le n k
    rw [Program.nodes_code, pages_classicProgram]
    split <;> simp only [List.flatMap_cons, List.flatMap_nil, List.append_nil, List.count_append]
      <;> omega

/-- Runs a classic tag whose handler was made. -/
def started (env : Env) (inner : Body) (t : CustomTag) (d : TagDescriptor) (names : HandlerNames)
    (n : Node) : Gen Unit := do
  deferred env d names (bodyPlan d n).buffered
  passAttributes inner names.handler n
  insideTag names.handler (classicCalls inner t names (bodyPlan d n) n)

theorem writes_started (hinner : WritesInner z level inner inner') (hnames : IsNamed t names id)
    (honce : n.head.NamesOnce n.children) (hn : ∀ c ∈ n.children, z.Holds level c)
    (hs : level ≤ s.sequence) :
    Writes (started z.env inner t d names n) (started z.env inner' t d names n) s fun _ u c =>
      ∃ blocks attributes body,
        c = (Program.deferred (releaseProgram z.env d names (bodyPlan d n).buffered)
          (.page attributes (callsProgram t names (bodyPlan d n) blocks body))).code ∧
        Passing z level (weight (n.children.filter (·.kind == .namedAttribute))) names.handler
          n.head.attributes u attributes ∧
        IsBody z level (weight n.content) u body := by
  let plan := bodyPlan d n
  refine Writes.bind (writes_deferred z.env d names plan.buffered) ?_
  rintro _ t₁ _ h₁ rfl
  refine Writes.bind (writes_passAttributes hinner hnames.space_not_mem honce hn
    (Nat.le_trans hs h₁.sequence)) ?_
  intro _ t₂ attributes h₂ hattributes
  have hcalls : Writes (insideTag names.handler (classicCalls inner t names plan n))
      (insideTag names.handler (classicCalls inner' t names plan n)) t₂ fun _ u c =>
        ∃ blocks body, c = (callsProgram t names plan blocks body).code ∧
          IsBody z level (weight n.content) u body := by
    refine .insideTag names.handler (P := fun _ u c => ∃ blocks body,
      c = (callsProgram t names plan blocks body).code ∧ IsBody z level (weight n.content) u body)
      (fun v hv => ?_) ?_
    · exact writes_classicCalls hinner t names plan hn
        (Nat.le_trans hs ((h₁.trans h₂).trans hv).sequence)
    · rintro u v _ huv ⟨blocks, body, rfl, hbody⟩
      exact ⟨blocks, body, rfl, hbody.mono huv fun _ _ => Nat.le_refl _⟩
  refine hcalls.mono ?_
  rintro _ u _ hu ⟨blocks, body, rfl, hbody⟩
  refine ⟨blocks, attributes, body, rfl, ?_, hbody⟩
  exact ⟨hattributes.fits.mono hu, hattributes.surface, hattributes.within⟩

/-- The code that runs a classic tag. -/
theorem writes_classic (hinner : WritesInner z level inner inner') (hd : d.isClassic = true)
    (hnames : IsNamed t names id) (hid : level ≤ id) (hvars : ∀ v ∈ t.vars, z.Names v.name)
    (honce : n.head.NamesOnce n.children) (hn : ∀ c ∈ n.children, z.Holds level c)
    (hs : level ≤ s.sequence) :
    Writes (classic z.env inner t d names n) (classic z.env inner' t d names n) s fun _ u c =>
      Running z level n t d names u c := by
  unfold classic
  refine Writes.bind (writes_qualified d.package d.typeName) ?_
  rintro type t₁ _ h₁ ⟨-, rfl⟩
  let create : Bytes := if names.pool != [] then
      z.env.receiver ++ "." ++ names.pool ++ ".Get(func() rt.Tag \x7b return &" ++ type ++
        "\x7b\x7d \x7d).(*" ++ type ++ ")"
    else "&" ++ type ++ "\x7b\x7d"
  refine .emit_bind (.define [names.handler] create) ?_ fun t₂ h₂ => ?_
  · simp only [Statement.text, Statement.listed, create]
    split
    · simp [Statement.defines]
    · simp [Statement.defines]
      rfl
  refine .emit_bind (.call names.handler "SetPageContext(pc)") ?_ fun t₃ h₃ => ?_
  · simp [Statement.text]
    rfl
  refine Writes.bind writes_parentHandler ?_
  rintro parent _ _ - ⟨rfl, rfl⟩
  refine .emit_bind (.call names.handler ("SetParent(" ++ parent ++ ")")) ?_ fun t₄ h₄ => ?_
  · simp [Statement.text]
    rfl
  have hlater := ((h₁.trans h₂).trans h₃).trans h₄
  refine .ite (fun hbuffered => ?_) fun hbuffered => ?_
  · refine .emit_bind (.zero names.push) rfl fun t₅ h₅ => ?_
    refine (writes_started hinner hnames honce hn
      (Nat.le_trans hs (hlater.trans h₅).sequence)).mono ?_
    rintro _ u _ - ⟨blocks, attributes, body, rfl, hattributes, hbody⟩
    have hrun := running_classic hd hnames hid hvars type parent blocks hattributes hbody
    simpa [classicProgram, hbuffered, Program.code, create] using hrun
  · refine (writes_started hinner hnames honce hn (Nat.le_trans hs hlater.sequence)).mono ?_
    rintro _ u _ - ⟨blocks, attributes, body, rfl, hattributes, hbody⟩
    have hrun := running_classic hd hnames hid hvars type parent blocks hattributes hbody
    simpa [classicProgram, hbuffered, Program.code, create] using hrun

/-- Ends a simple tag. -/
def endSimple (t : CustomTag) (names : HandlerNames) : Gen Unit := do
  check (names.handler ++ ".DoTag()")
  syncVariables t [.atBegin, .atEnd]
  emit "return nil"

theorem writes_endSimple (t : CustomTag) (names : HandlerNames) :
    Writes (endSimple t names) (endSimple t names) s fun _ _ c =>
      c = Code.check (names.handler ++ ".DoTag()") ++
        (Code.lines (syncs t [.atBegin, .atEnd]) ++ .line (.control "return nil") .nil) := by
  refine .returning_bind fun _ _ => Writes.bind (writes_syncVariables t [.atBegin, .atEnd]) ?_
  rintro _ _ _ - ⟨-, rfl⟩
  exact .emit (.control "return nil") rfl fun _ _ => rfl

theorem running_simple (hd : d.isClassic = false) (hnames : IsNamed t names id) (hid : level ≤ id)
    (hvars : ∀ v ∈ t.vars, z.Names v.name) (type parent : Bytes) {u : State} {attributes : Code}
    {setBody : Option (Code × Nat)}
    (hattributes : Passing z level (weight (n.children.filter (·.kind == .namedAttribute)))
      names.handler n.head.attributes u attributes)
    (hbody : ∀ body i, setBody = some (body, i) →
      Fits z level u body ∧ body.Within (weight n.content)) :
    Running z level n t d names u (simpleCode t names type parent attributes setBody) := by
  refine ⟨.simple hd type parent hattributes.surface, ?_, ?_⟩
  · exact fits_simpleCode hnames hid hvars type parent hattributes.fits fun b i h => (hbody b i h).1
  · intro k hk
    have h1 := hattributes.within k hk
    have h3 := weight_inside_le n k
    rw [nodes_simpleCode, List.count_append]
    cases setBody with
    | none => simpa using Nat.le_trans h1 (by omega)
    | some b =>
      have h2 := (hbody b.1 b.2 rfl).2 k hk
      simp only [Option.map_some, Option.getD_some]
      omega

/-- The code that runs a simple tag. -/
theorem writes_simple (hinner : WritesInner z level inner inner') (hd : d.isClassic = false)
    (hnames : IsNamed t names id) (hid : level ≤ id) (hvars : ∀ v ∈ t.vars, z.Names v.name)
    (honce : n.head.NamesOnce n.children) (hn : ∀ c ∈ n.children, z.Holds level c)
    (hs : level ≤ s.sequence) :
    Writes (simple inner t d names n) (simple inner' t d names n) s fun _ u c =>
      Running z level n t d names u c := by
  have hcontent : ∀ c ∈ n.content, z.Visits level c := fun c hc => .inl (holds_contentOf hn c hc)
  unfold simple
  refine Writes.bind (writes_qualified d.package d.typeName) ?_
  rintro type t₁ _ h₁ ⟨-, rfl⟩
  refine .emit_bind (.define [names.handler] ("&" ++ type ++ "\x7b\x7d")) ?_ fun t₂ h₂ => ?_
  · simp [Statement.text, Statement.listed, Statement.defines]
    rfl
  refine .emit_bind (.call names.handler "SetJspContext(pc)") ?_ fun t₃ h₃ => ?_
  · simp [Statement.text]
    rfl
  refine Writes.bind writes_parentHandler ?_
  rintro parent _ _ - ⟨rfl, rfl⟩
  refine .emit_bind (.call names.handler ("SetParent(" ++ parent ++ ")")) ?_ fun t₄ h₄ => ?_
  · simp [Statement.text]
    rfl
  have hlater := ((h₁.trans h₂).trans h₃).trans h₄
  refine Writes.bind (writes_passAttributes hinner hnames.space_not_mem honce hn
    (Nat.le_trans hs hlater.sequence)) ?_
  intro _ t₅ attributes h₅ hattributes
  have hpassing : ∀ v, t₅.Later v → Passing z level
      (weight (n.children.filter (·.kind == .namedAttribute))) names.handler n.head.attributes v
      attributes := fun v hv => ⟨hattributes.fits.mono hv, hattributes.surface, hattributes.within⟩
  refine .ite (fun _ => ?_) fun _ => ?_
  · refine Writes.bind (Q := fun i u c => ∃ body, c = .fragment (fragmentCase i body) .nil ∧
      IsBody z level (weight n.content) u body) ?_ ?_
    · refine .fragment (P := fun _ u c => IsBody z level (weight n.content) u c) (fun v hv => ?_) ?_
      · exact hinner n.content hcontent v (Nat.le_trans hs ((hlater.trans h₅).trans hv).sequence)
      · intro u v i c huv hc
        exact ⟨c, rfl, hc.mono huv fun _ _ => Nat.le_refl _⟩
    rintro i t₆ _ h₆ ⟨body, rfl, hbody⟩
    refine .emit_bind (.call names.handler ("SetJspBody(" ++ fragmentCode names.handler i ++ ")"))
      ?_
      fun t₇ h₇ => ?_
    · simp [Statement.text]
      rfl
    refine (writes_endSimple t names).mono ?_
    rintro _ u _ hu rfl
    have hset : ∀ b j, some (fragmentCase i body, i) = some (b, j) →
        Fits z level u b ∧ b.Within (weight n.content) := by
      intro b j hb
      obtain ⟨rfl, rfl⟩ := Prod.mk.inj (Option.some.inj hb)
      refine ⟨fits_fragmentCase i (hbody.fits.mono (h₇.trans hu)), fun k hk => ?_⟩
      exact nodes_fragmentCase i body ▸ hbody.within k hk
    have hrun := running_simple hd hnames hid hvars type parent
      (hpassing u ((h₆.trans h₇).trans hu)) hset
    simpa [simpleCode] using hrun
  · refine (writes_endSimple t names).mono ?_
    rintro _ u _ hu rfl
    have hset : ∀ b j, (none : Option (Code × Nat)) = some (b, j) →
        Fits z level u b ∧ b.Within (weight n.content) := fun _ _ hb => by cases hb
    have hrun := running_simple hd hnames hid hvars type parent (hpassing u hu) hset
    simpa [simpleCode] using hrun

/-- The code that runs a tag. -/
theorem writes_invocation (hinner : WritesInner z level inner inner') (hnames : IsNamed t names id)
    (hid : level ≤ id) (hvars : ∀ v ∈ t.vars, z.Names v.name)
    (honce : n.head.NamesOnce n.children) (hn : ∀ c ∈ n.children, z.Holds level c)
    (hs : level ≤ s.sequence) :
    Writes (invocation z.env inner t d names n) (invocation z.env inner' t d names n) s fun _ u c =>
      Running z level n t d names u c := by
  unfold invocation
  refine .ite (fun hd => ?_) fun hd => ?_
  · exact writes_classic hinner hd hnames hid hvars honce hn hs
  · exact writes_simple hinner (by simpa using hd) hnames hid hvars honce hn hs

end Lifecycles

/-! ### Placement -/

section Placement

variable {z : Site} {level : Nat} {inner inner' : Body} {s : State} {n : Node} {t : CustomTag}
  {d : TagDescriptor} {names : HandlerNames} {run run' : Gen Unit}

/-- An invocation in place: the variables declared around its place decide how its own are declared
and saved. -/
theorem writes_inlined (hrun : ∀ v, s.Later v → Writes run run' v fun _ u c =>
      Running z level n t d names u c) :
    Writes (inlined t n.head.number run) (inlined t n.head.number run') s fun _ u c =>
      ∃ r, c = .part n.head.number (inlineCode t s.place.blocks r) .nil ∧
        Running z level n t d names u r := by
  have hinside : ∀ v, s.Later v → Writes (inBlock run) (inBlock run') v fun _ u c =>
      Running z level n t d names u c := fun v hv =>
    .inBlock (fun w hw => hrun w (hv.trans hw)) fun _ _ _ huw hc => hc.mono huw
  refine .marking n.head.number (P := fun _ u c => ∃ r, c = inlineCode t s.place.blocks r ∧
    Running z level n t d names u r) ?_ ?_
  · have hbegun : s.Later (s.begun n.head.number) :=
      ⟨Nat.le_refl _, List.prefix_rfl, List.prefix_rfl⟩
    refine Writes.bind (writes_declareVariables t) ?_
    rintro saved t₁ _ h₁ ⟨rfl, rfl⟩
    refine .openBlock_bind (.control "if err := func() (err error) \x7b") rfl fun t₂ h₂ => ?_
    refine Writes.bind (hinside t₂ ((hbegun.trans h₁).trans h₂)) fun _ t₃ r _ hr => ?_
    refine .outdent_bind fun t₄ h₄ => .returning_bind fun t₅ h₅ => ?_
    refine .emitAll (restores t.nesting (Declared.all t.nesting s.place.blocks t.vars).saved) ?_
      fun t₆ h₆ => ⟨r, ?_, hr.mono ((h₄.trans h₅).trans h₆)⟩
    · rw [restores, List.map_map]
      refine List.map_congr_left fun x _ => ?_
      simp [Statement.text, Statement.assigns]
    · simp [inlineCode, closureCode]
      rfl
  · rintro u v _ huv ⟨r, rfl, hr⟩
    exact ⟨r, rfl, hr.mono huv⟩

/-- An invocation in a method of its own, which is called in place. -/
theorem writes_hoisted (hrun : ∀ v, s.Later v → Writes run run' v fun _ u c =>
      Running z level n t d names u c) :
    Writes (hoisted z.env n.head.number run) (hoisted z.env n.head.number run') s fun _ u c =>
      ∃ call name isApart r, c = Code.check call ++
          .method isApart (.part n.head.number (methodCode z.env name r) .nil) .nil ∧
        Running z level n t d names u r := by
  unfold hoisted
  refine Writes.bind (Q := fun _ v c => s.Later v ∧ c = .nil) (.modifyGet ?_ rfl ⟨?_, rfl⟩) ?_
  · exact ⟨Nat.le_succ _, List.prefix_rfl, List.prefix_rfl⟩
  · exact ⟨Nat.le_succ _, List.prefix_rfl, List.prefix_rfl⟩
  rintro i t₁ _ - ⟨h₁, rfl⟩
  refine Writes.bind writes_parentHandler ?_
  rintro parent _ _ - ⟨rfl, rfl⟩
  refine .returning_bind fun t₂ h₂ => ?_
  let name : Bytes := "tag" ++ Bytes.ofNat i
  refine (Writes.asMethod (P := fun _ u c => ∃ r, c = .part n.head.number (methodCode z.env name r)
    .nil ∧ Running z level n t d names u r) ?_ ?_ :)
  · have hinside := (h₁.trans h₂).trans (t₂.later_inFunction {})
    refine .marking n.head.number (P := fun _ u c => ∃ r, c = methodCode z.env name r ∧
      Running z level n t d names u r) ?_ ?_
    · refine .openBlock_bind (.control ("func (" ++ z.env.receiver ++ " *" ++
        z.env.typeName ++ ") " ++ name ++ "(pc *rt.PageContext, frags *" ++ z.env.fragmentType ++
        ", parent rt.Tag) (err error) \x7b")) rfl fun t₃ h₃ => ?_
      have hbegun : (t₂.inFunction {}).Later ((t₂.inFunction {}).begun n.head.number) :=
        ⟨Nat.le_refl _, List.prefix_rfl, List.prefix_rfl⟩
      refine Writes.bind (hrun t₃ ((hinside.trans hbegun).trans h₃)) fun _ t₄ r _ hr => ?_
      exact .closeBlock fun t₅ h₅ => ⟨r, rfl, hr.mono h₅⟩
    · rintro u v _ huv ⟨r, rfl, hr⟩
      exact ⟨r, rfl, hr.mono huv⟩
  · rintro u v isApart _ huv ⟨r, rfl, hr⟩
    exact ⟨_, name, isApart, r, rfl, hr.mono huv⟩

/-- What is written for an invocation in place, with the variables declared around it: its variables
are declared and saved as these ask for, and what runs inside is introduced further inside. -/
def Opens (z : Site) (n : Node) (b : Blocks) (c : Code) : Prop :=
  ∀ t, n.head.tag = some t → isHoistable n.head t = false →
    ∃ d names r, t.descriptor = some d ∧ c = .part n.head.number (inlineCode t b r) .nil ∧
      IsRun z.env n t d names r ∧ (closureCode r).All (z.IsOwn (t.nesting + 1))

/-- The code of an invocation of a tag. -/
theorem writes_customTag (hinner : WritesInner z (level + 1) inner inner') (hn : z.Holds level n)
    (hk : n.kind = .customTag) (hs : level ≤ s.sequence) :
    Writes (customTag z.env inner n) (customTag z.env inner' n) s fun _ u c =>
      IsBody z level (fun k => n.numbers.count k) u c ∧ Opens z n s.place.blocks c := by
  obtain ⟨honce, hnesting⟩ : n.head.NamesOnce n.children ∧
      ∀ t, n.head.tag = some t → t.nesting = level := by
    obtain ⟨-, hprepared⟩ := hn
    obtain ⟨honce, hnesting, -⟩ := hprepared
    exact ⟨honce, hnesting hk⟩
  have hchildren : ∀ c ∈ n.children, z.Holds (level + 1) c := by
    intro c hc
    have hlevel : n.head.innerLevel level = level + 1 := if_pos hk
    exact hlevel ▸ hn.child hc
  have hcode : ∀ u c, IsTagCode z.env n c → IsCodeOf z.env u n c := by
    intro u c hc
    simpa only [IsCodeOf, hk] using hc
  unfold customTag
  dsimp only
  split
  · next t d ht hd =>
    have hdescriptor : t.descriptor = some d := by rwa [ht, Option.bind_some] at hd
    have hlevel : t.nesting = level := hnesting t ht
    have hvars : ∀ v ∈ t.vars, z.Names v.name := fun v hv => ⟨n, hn.mem, .inl ⟨t, ht, v, hv, rfl⟩⟩
    refine Writes.bind (writes_assignNames z.env n.head t d) ?_
    rintro names t₁ _ h₁ ⟨⟨id, hid, hsequence, hnames⟩, hplace, rfl⟩
    have hrun : ∀ v, t₁.Later v → Writes (invocation z.env inner t d names n)
        (invocation z.env inner' t d names n) v
        fun _ u c => Running z (level + 1) n t d names u c := by
      intro v hv
      refine writes_invocation hinner hnames (Nat.lt_of_le_of_lt hs hid) hvars honce hchildren ?_
      exact Nat.le_trans (Nat.lt_of_le_of_lt hs hid) (Nat.le_trans hsequence hv.sequence)
    refine .ite (fun hhoistable => ?_) fun hhoistable => ?_
    · refine (writes_hoisted hrun).mono ?_
      rintro _ u _ - ⟨call, name, isApart, r, rfl, hr⟩
      have hpart : IsBody z level (fun k => n.numbers.count k) u
          (.part n.head.number (methodCode z.env name r) .nil) := by
        refine isBody_part (.inl hn) (fits_methodCode z.env name (hr.fits.outward (Nat.le_succ _)))
          trivial ?_ (hcode _ _ (.hoisted name ht hdescriptor hnames hr.run hhoistable))
        have hnodes : (methodCode z.env name r).nodes = r.nodes := nodes_methodCode z.env name
        exact fun k hk => hnodes ▸ hr.within k hk
      refine ⟨⟨?_, ?_, ?_⟩, ?_⟩
      · rw [Code.nil_append]
        exact fits_append.mpr ⟨fits_check call, fits_method.mpr ⟨hpart.fits, fits_nil⟩⟩
      · exact ⟨.control _, .control _, .control _, trivial⟩
      · intro k hk
        simpa [Code.nodes] using hpart.within k hk
      · intro t' ht' hinline
        obtain rfl := Option.some.inj (ht.symm.trans ht')
        exact absurd hhoistable (by simp [hinline])
    · have hinline : isHoistable n.head t = false := by simpa using hhoistable
      refine (writes_inlined hrun).mono ?_
      rintro _ u _ - ⟨r, rfl, hr⟩
      rw [hplace]
      refine ⟨?_, ?_⟩
      · refine isBody_part (.inl hn) (fits_inlineCode hvars (Nat.le_of_eq hlevel.symm) _
          (hr.fits.outward (Nat.le_succ _))) ?_ ?_
          (hcode _ _ (.inline _ ht hdescriptor hnames hr.run hinline))
        · exact leads_inlineCode _
        · have hnodes : (inlineCode t s.place.blocks r).nodes = r.nodes := nodes_inlineCode _
          exact fun k hk => hnodes ▸ hr.within k hk
      · intro t' ht' _
        obtain rfl := Option.some.inj (ht.symm.trans ht')
        exact ⟨d, names, r, hdescriptor, rfl, hr.run, hlevel ▸ (fits_closureCode hr.fits).own⟩
  · exact .throw _ _

end Placement

end ServerPages.Generation
