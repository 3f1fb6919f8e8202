import ServerPages.Proofs.FreshNames

/-!
# Visits that make up names

A visit of a node introduces names with numbers that it takes itself. For a tag one number is taken
first, with which the variables of its invocation are named; what is generated for its attributes
and its body takes later ones. Identifiers are noted once for every tag that is visited, and no node
is visited twice, so what is noted for a tag is what its code goes by.

## Main results

* `mints_invocation`: the variables that an invocation introduces.
* `mints_customTag`: the part of a tag has the lines of an invocation that goes by the identifiers
  noted for it.
* `mints_visit`, `mints_body`: what the visits of nodes make up, with any depth of tags, methods and
  fragments inside each other.
-/

namespace ServerPages.Generation

/-! ### Choosing identifiers -/

section Named

variable {β : Type} {z : Site} {g : Ground} {n : Node} {t : CustomTag} {d : TagDescriptor}

/-- What follows the choice of identifiers may introduce names with their number. -/
theorem Mints.named (hn : n ∈ z.root.subtree) (hk : n.kind = .customTag)
    (ht : n.head.tag = some t) (hd : t.descriptor = some d) {w : Nat → Nat}
    {rest : HandlerNames → Gen β}
    (hrest : ∀ names id, IsNamed t names id → g.level < id →
      Mints z ⟨g.level + 1, (n.head.number, names) :: g.known⟩ (rest names)
        { names := invocationVariables d n names, weight := w }) :
    Mints z g (assignNames z.env n.head t d >>= rest)
      { weight := fun k => (if n.head.number == k then 1 else 0) + w k } := by
  intro s b u hs hrun
  obtain ⟨names, v, hassign, hrun⟩ := bind_eq_ok hrun
  obtain ⟨hnamed, hpool, hdesk, hsequence, hnames⟩ := assignNames_ok hassign
  have hlevel := hs.level
  have hflat : v.declarations.indent = 0 := (congrArg (·.declarations.indent) hdesk).trans hs.flat
  obtain ⟨c, hc⟩ := hrest names _ hnamed (Nat.lt_succ_of_le hlevel) v b u
    ⟨by rw [hsequence]; exact Nat.succ_le_succ hlevel,
      by rw [hnames]; exact List.cons_subset_cons _ hs.known, hflat⟩ hrun
  have hle := hc.sequence
  refine ⟨c, by rw [hc.desk, hdesk], hc.own, by omega, ?_, ?_, hc.parts⟩
  · obtain ⟨xs, hxs, hfresh⟩ := hc.introduced
    rw [hsequence] at hfresh hle
    have hown := invocationVariables_sublist d n names
    have hnext : Fresh s.sequence (s.sequence + 1) (invocationVariables d n names) :=
      .of_numbered (hown.nodup hnamed.nodup) fun x hx => hnamed.numbered x (hown.subset hx)
    exact ⟨invocationVariables d n names ++ xs, hxs, hnext.append hfresh (Nat.le_succ _) hle⟩
  · obtain ⟨l, hl, hchooses, hfresh, hcount⟩ := hc.noted
    rw [hsequence] at hfresh hle
    have hnext : Fresh s.sequence (s.sequence + 1) (namedVariables names) :=
      .of_numbered hnamed.nodup hnamed.numbered
    refine ⟨l ++ [(n.head.number, names)], ?_, ?_, ?_, fun k hk => ?_⟩
    · rw [hl, hnames, List.append_assoc]
      rfl
    · refine List.forall_mem_append.mpr ⟨hchooses, List.forall_mem_singleton.mpr ?_⟩
      obtain ⟨xs, hxs, -⟩ := hc.introduced
      exact ⟨n, hn, hk, rfl, t, d, _, ht, hd, hnamed, hpool, fun x hx =>
        hxs.mem_iff.mpr (List.mem_append_left _ hx)⟩
    · rw [List.flatMap_append, List.flatMap_singleton]
      exact (hnext.append hfresh (Nat.le_succ _) hle).perm List.perm_append_comm
    · rw [List.map_append, List.count_append, List.map_singleton, List.count_singleton,
        Nat.add_comm]
      exact Nat.add_le_add_left (hcount k hk) _

end Named

/-! ### Values -/

/-- Nested nodes make up names of their own. -/
def MintsInner (z : Site) (fuel : Nat) : Prop :=
  ∀ g ns, (∀ n ∈ ns, z.Visits g.level n) → Mints z g (body z.env fuel ns) { weight := weight ns }

section Values

variable {z : Site} {g : Ground} {fuel : Nat} {n : Node}

theorem mints_capture (hinner : MintsInner z fuel) (type : Bytes)
    (hn : ∀ c ∈ n.children, z.Visits g.level c) :
    Mints z g (capture (body z.env fuel) n type) { weight := weight n.children } := by
  refine Mints.temporary fun i => ?_
  refine Mints.first ["_v" ++ Bytes.ofNat i] [] (Mints.after (mints_value
    ("rt.Capture(pc, " ++ (Bytes.ofBool n.head.trim ++ ", func() error \x7b")) .temporary
    (.temporary i) rfl ?_) fun _ => mints_indent) fun _ => ?_
  · simp only [List.append_assoc]
    rfl
  refine (hinner g _ hn).inBlock.after fun _ => ?_
  refine (mints_control (w := "return ") (by decide) ⟨_, rfl⟩).before fun _ => ?_
  refine (mints_closeBlock ⟨_, rfl⟩).before fun _ => mints_checkErr.before fun _ => ?_
  refine .ite (fun _ => .pure _) fun _ => Mints.temporary fun j => ?_
  refine Mints.after (mints_value ("rt.Convert[" ++ (type ++ ("](" ++
    ("_v" ++ Bytes.ofNat i ++ ")")))) .temporary (.temporary j) rfl ?_) fun _ =>
      mints_checkErr.before fun _ => .pure _
  simp only [List.append_assoc]
  rfl

theorem mints_valueCode (hinner : MintsInner z fuel) (handler : Bytes) {a : Attribute}
    {named : Option Node} (type : Bytes)
    (hnamed : a.kind = .named → ∀ m, named = some m → ∀ c ∈ m.children, z.Visits g.level c) :
    Mints z g (valueCode (body z.env fuel) handler a named type)
      { weight := namedWeight a named } := by
  have hnone : ∀ {x : Gen Bytes}, Mints z g x {} → Mints z g x { weight := namedWeight a named } :=
    fun hx => hx.weaken fun _ _ => Nat.zero_le _
  unfold valueCode
  refine .ite (fun _ => ?_) fun _ => ?_
  · obtain ⟨hvisits, hweight⟩ := fragmentNodes_visits hnamed
    refine Mints.after (.weaken (.fragment (hinner g _ hvisits)) hweight) fun _ => .pure _
  cases hk : a.kind with
  | literal =>
    cases literal type a.value a.position with
    | ok code => exact hnone (.pure _)
    | error e => exact .throw e
  | script => exact hnone (.pure _)
  | el =>
    refine hnone (Mints.temporary fun i => (mints_expressionName _).before fun e => ?_)
    refine Mints.after (mints_value ("rt.Eval[" ++ (type ++ ("](pc, " ++ (e ++ ")")))) .temporary
      (.temporary i) rfl ?_) fun _ => mints_checkErr.before fun _ => .pure _
    simp only [List.append_assoc]
    rfl
  | named =>
    cases named with
    | some m =>
      refine (mints_capture hinner type (hnamed hk m rfl)).weaken fun k _ => ?_
      simp [namedWeight, hk]
    | none => exact .throw _
  | unrecognized code => exact .throw _

/-- What gives the values of the attributes of a node may be generated. -/
def Site.Gives (z : Site) (level : Nat) (n : Node) : Prop :=
  ∀ a ∈ n.head.attributes, a.kind = .named → ∀ c, givenBy n.children a = some c →
    ∀ m ∈ c.children, z.Visits level m

theorem mints_passAttribute (hinner : MintsInner z fuel) {handler : Bytes} (hhandler : 32 ∉ handler)
    {a : Attribute} (ha : a ∈ n.head.attributes) (hgives : z.Gives g.level n) :
    Mints z g (passAttribute (body z.env fuel) handler n a)
      { weight := namedWeight a (givenBy n.children a) } := by
  refine .ite (fun _ => .throw_bind _ _) fun _ => ?_
  refine .ite (fun _ => (Mints.pure _).weaken fun _ _ => Nat.zero_le _) fun _ => ?_
  refine (mints_valueCode hinner handler _ (hgives a ha)).after fun value => ?_
  refine .ite (fun _ => mints_check _) fun _ => ?_
  exact mints_call handler (a.setter.method ++ ("(" ++ (value ++ ")"))) hhandler
    (by simp only [List.append_assoc])

theorem mints_passAttributes (hinner : MintsInner z fuel) {handler : Bytes}
    (hhandler : 32 ∉ handler) (honce : n.head.NamesOnce n.children) (hgives : z.Gives g.level n) :
    Mints z g (passAttributes (body z.env fuel) handler n)
      { weight := weight (n.children.filter (·.kind == .namedAttribute)) } :=
  (Mints.forM fun _ ha => mints_passAttribute hinner hhandler ha hgives).weaken
    fun k _ => attributesWeight_le honce k

end Values

/-! ### Scripting variables -/

section Variables

variable {z : Site} {g : Ground} {t : CustomTag}

theorem mints_declareVariable {v : VariableBinding} (hv : z.Names v.name) (nesting : Nat) :
    Mints z g (declareVariable nesting v) {} := by
  have hslot : ∀ isNew, z.IsOwn 0 (.copy isNew (saveSlot v.name nesting) v.name) := fun isNew =>
    Site.own_of_targets trivial rfl (List.forall_mem_singleton.mpr (.slot v.name (Nat.zero_le _)))
  have hdeclare : z.IsOwn 0 (.declare v.name v.valueType) :=
    Site.own_of_targets trivial rfl (List.forall_mem_singleton.mpr (.page hv))
  refine .ite (fun _ => .pure _) fun _ => .get fun s => .ite (fun _ => ?_) fun _ => ?_
  · refine .ite (fun _ => .ite (fun _ => ?_) fun _ => ?_) fun _ => .pure _
    · have hline := mints_line (g := g) (.copy false (saveSlot v.name nesting) v.name)
        (x := saveSlot v.name nesting ++ " = " ++ v.name)
        (by simp [Statement.text, Statement.assigns])
        (hslot false)
      exact hline.before fun _ => .pure _
    · have hline := mints_line (g := g) (.copy true (saveSlot v.name nesting) v.name)
        (x := saveSlot v.name nesting ++ " := " ++ v.name)
        (by simp [Statement.text, Statement.defines])
        (hslot true)
      rw [introduced_saveSlot] at hline
      exact hline.before fun _ => (mints_declare _).before fun _ => .pure _
  · refine .ite (fun _ => ?_) fun _ => .pure _
    refine (mints_line (.declare v.name v.valueType) (by simp [Statement.text]) hdeclare).before
      fun _ => ?_
    refine (mints_line (.use v.name) rfl (Site.own_use _)).before fun _ => ?_
    exact (mints_declare _).before fun _ => .pure _

/-- The variables of a tag are declared; those that are saved are variables of the tag. -/
theorem Mints.declared {β : Type} {d : Brings} {f : List Bytes → Gen β}
    (hvars : ∀ v ∈ t.vars, z.Names v.name)
    (hf : ∀ saved : List Bytes, (∀ x ∈ saved, z.Names x) → Mints z g (f saved) d) :
    Mints z g (declareVariables t >>= f) d := by
  have hdeclare : Mints z g (declareVariables t) {} :=
    (Mints.mapM_nil fun v hv => mints_declareVariable (hvars v hv) t.nesting).before
      fun _ => .pure _
  refine Mints.before_of (fun saved => ∀ x ∈ saved, z.Names x) hdeclare
    (fun s saved u hrun => ?_) hf
  obtain ⟨-, -, c, -, -, rfl⟩ := writes_declareVariables t saved u hrun
  intro x hx
  obtain ⟨v, hv, rfl⟩ := Declared.saved_subset hx
  exact hvars v hv

theorem mints_setVariable {v : VariableBinding} (hv : z.Names v.name) :
    Mints z g (emit (v.name ++ " = " ++ variableValue v)) {} := by
  refine mints_line (.assign [v.name] (variableValue v)) ?_
    (Site.own_assign (List.forall_mem_singleton.mpr (.page hv)) _)
  simp [Statement.text, Statement.assigns, Statement.listed]

theorem mints_declareNested (hvars : ∀ v ∈ t.vars, z.Names v.name) :
    Mints z g (declareNested t) {} := by
  refine .forM_nil fun v hv => ?_
  have hname := hvars v (List.mem_filter.mp hv).1
  refine .get fun s => .ite (fun _ => ?_) fun _ => mints_setVariable hname
  have hline := mints_line (g := g) (.define [v.name] (variableValue v))
    (x := v.name ++ " := " ++ variableValue v)
    (by simp [Statement.text, Statement.defines, Statement.listed])
    (Site.own_define (List.forall_mem_singleton.mpr (.page hname)) _)
  rw [introduced_variableValue] at hline
  refine hline.before fun _ => ?_
  refine (mints_line (.use v.name) rfl (Site.own_use _)).before fun _ => ?_
  exact mints_declare _

theorem mints_syncVariables (hvars : ∀ v ∈ t.vars, z.Names v.name) (scopes : List VariableScope) :
    Mints z g (syncVariables t scopes) {} :=
  .forM_nil fun v hv => mints_setVariable (hvars v (List.mem_filter.mp hv).1)

end Variables

/-! ### Lifecycles -/

theorem mints_parentHandler {z : Site} {g : Ground} : Mints z g parentHandler {} :=
  .get fun _ => .pure _

section Lifecycles

variable {z : Site} {g : Ground} {fuel : Nat} {n : Node} {t : CustomTag} {d : TagDescriptor}
  {names : HandlerNames} {id : Nat} (hnames : IsNamed t names id)

include hnames

/-- What a handler returns is no variable of the page. -/
theorem startsWith_handler (x : Bytes) : (names.handler ++ x).startsWith "rt.Attr[" = false := by
  rw [hnames.handler]
  rfl

/-- A line that calls a method of the handler. -/
theorem mints_handlerCall (message : Bytes) {x : Bytes}
    (h : names.handler ++ ("." ++ message) = x) : Mints z g (emit x) {} :=
  mints_call names.handler message hnames.space_not_mem h

/-- A line that makes the handler. -/
theorem mints_create (value : Bytes) {x : Bytes} (hvalue : value.startsWith "rt.Attr[" = false)
    (h : names.handler ++ (" := " ++ value) = x) :
    Mints z g (emit x) { names := [names.handler] } := by
  have hhandler := hnames.numbered names.handler (by simp [namedVariables])
  have hown : Introduced z.Names 0 names.handler := hnames.introduced (Nat.zero_le _) _ (by simp)
  have hcounted : [names.handler].filter isCounted = [names.handler] :=
    List.filter_cons_of_pos hhandler.isCounted
  have hdefine := mints_define (g := g) [names.handler] value h
    (List.forall_mem_singleton.mpr hown) hvalue
  rwa [hcounted] at hdefine

theorem mints_setParent (parent : Bytes) :
    Mints z g (emit (names.handler ++ ".SetParent(" ++ parent ++ ")")) {} :=
  mints_handlerCall hnames ("SetParent(" ++ (parent ++ ")")) (by
    simp only [List.append_assoc]
    rfl)

theorem mints_endDeferred :
    Mints z g (endDeferred d names.handler (releaseStatement z.env names).text) {} := by
  have hown : z.IsOwn 0 (releaseStatement z.env names) := by
    unfold releaseStatement
    split
    · exact Site.own_call (space_not_mem_receiver z.env) _
    · exact Site.own_call hnames.space_not_mem _
  have hnone : (releaseStatement z.env names).introduced = [] := by
    unfold releaseStatement
    split <;> rfl
  have hrelease := mints_line (g := g) _ rfl hown
  rw [hnone] at hrelease
  refine .ite (fun _ => ?_) fun _ => hrelease.before fun _ => mints_closeBlock ⟨_, rfl⟩
  refine (mints_openBlock (w := "if ") (by decide) ⟨_, rfl⟩).before fun _ => ?_
  refine Mints.before (mints_line (.assign ["err"] (names.handler ++ ".DoCatch(err)")) ?_
    (Site.own_assign (List.forall_mem_singleton.mpr .error) _)) fun _ => ?_
  · simp [Statement.text, Statement.listed, Statement.assigns]
    rfl
  refine (mints_closeBlock ⟨_, rfl⟩).before fun _ => ?_
  refine (mints_handlerCall hnames "DoFinally()" rfl).before fun _ => ?_
  exact hrelease.before fun _ => mints_closeBlock ⟨_, rfl⟩

theorem mints_deferred (buffered : Bool) :
    Mints z g (deferred z.env d names buffered) {} := by
  have hpush : Introduced z.Names 0 names.push := hnames.introduced (Nat.zero_le _) _ (by simp)
  have hcount : Mints z g
      (emit ("for ; " ++ names.push ++ " > 0; " ++ names.push ++ "-- \x7b")) {} :=
    mints_line (.countDown names.push) (by simp [Statement.text])
      (Site.own_of_targets trivial rfl (List.forall_mem_singleton.mpr hpush))
  unfold deferred
  rw [← text_releaseStatement]
  refine (mints_openBlock (w := "defer ") (by decide) ⟨_, rfl⟩).before fun _ => ?_
  refine .ite (fun _ => (hcount.before fun _ => mints_indent).before fun _ => ?_) fun _ =>
    mints_endDeferred hnames
  refine (mints_call "pc" "PopBody()" (by decide) rfl).before fun _ => ?_
  exact (mints_closeBlock ⟨_, rfl⟩).before fun _ => mints_endDeferred hnames

variable (hinner : MintsInner z fuel) (hvars : ∀ v ∈ t.vars, z.Names v.name)
  (hn : ∀ c ∈ n.content, z.Visits g.level c)

include hinner hvars hn

theorem mints_bodyRound (repeated : Bool) :
    Mints z g (bodyRound (body z.env fuel) t names repeated n)
      { names := if repeated then [againName names] else [], weight := weight n.content } := by
  have hagain := hnames.numbered (againName names) (by simp [namedVariables])
  have hown : Introduced z.Names 0 (againName names) :=
    hnames.introduced (Nat.zero_le _) _ (by simp)
  refine (mints_declareNested hvars).before fun _ => ?_
  refine (mints_syncVariables hvars _).before fun _ => ?_
  refine (hinner g _ hn).visits (v := fun _ => 0) (fun _ => ?_) fun _ _ => Nat.le_refl _
  cases repeated with
  | false => exact .pure _
  | true =>
    refine Mints.after (mints_value (names.handler ++ ".DoAfterBody()") hagain hown
      (startsWith_handler hnames _) ?_) fun _ =>
      mints_checkErr.before fun _ => ?_
    · simp only [againName, List.append_assoc]
    refine (mints_openBlock (w := "if ") (by decide) ⟨_, rfl⟩).before fun _ => ?_
    exact (mints_control (w := "break") (by decide) ⟨[], rfl⟩).before fun _ =>
      mints_closeBlock ⟨_, rfl⟩

theorem mints_evaluations (plan : BodyPlan) :
    Mints z g (evaluations (body z.env fuel) t names plan n)
      { names := if plan.repeated then [againName names] else [], weight := weight n.content } := by
  have hpush : Introduced z.Names 0 names.push := hnames.introduced (Nat.zero_le _) _ (by simp)
  have hclose : Mints z g (closeBuffer names plan.buffered) {} := by
    refine .ite (fun _ => ?_) fun _ => .pure _
    refine (mints_openBlock (w := "if ") (by decide) ⟨_, rfl⟩).before fun _ => ?_
    refine (mints_call "pc" "PopBody()" (by decide) rfl).before fun _ => ?_
    refine Mints.before (mints_line (.decrement names.push) rfl ?_) fun _ =>
      mints_closeBlock ⟨_, rfl⟩
    exact Site.own_of_targets trivial rfl (List.forall_mem_singleton.mpr hpush)
  have hround := mints_bodyRound hnames hinner hvars hn plan.repeated
  unfold evaluations
  cases hrepeated : plan.repeated with
  | false =>
    rw [hrepeated] at hround
    exact hround.after fun _ => hclose
  | true =>
    rw [hrepeated] at hround
    refine (mints_openBlock (w := "for ") (by decide) ⟨_, rfl⟩).before fun _ => ?_
    exact hround.inBlock.after fun _ => (mints_closeBlock ⟨_, rfl⟩).before fun _ => hclose

theorem mints_classicBody (plan : BodyPlan) :
    Mints z g (classicBody (body z.env fuel) t names plan n)
      { names := if plan.repeated then [againName names] else [], weight := weight n.content } := by
  have hpush : Introduced z.Names 0 names.push := hnames.introduced (Nat.zero_le _) _ (by simp)
  have hcount : z.IsOwn 0 (.increment names.push) :=
    Site.own_of_targets trivial rfl (List.forall_mem_singleton.mpr hpush)
  have hrounds := mints_evaluations hnames hinner hvars hn plan
  have hbuffered : Mints z g (bufferedBody (body z.env fuel) t names plan n)
      { names := if plan.repeated then [againName names] else [], weight := weight n.content } := by
    refine .ite (fun _ => ?_) fun _ => hrounds
    refine (mints_openBlock (w := "if ") (by decide) ⟨_, rfl⟩).before fun _ => ?_
    refine (mints_handlerCall hnames "SetBodyContent(pc.PushBody())" rfl).before fun _ => ?_
    refine (mints_line (.increment names.push) rfl hcount).before fun _ => ?_
    refine (mints_check _).before fun _ => (mints_closeBlock ⟨_, rfl⟩).before fun _ => hrounds
  refine (mints_openBlock (w := "if ") (by decide) ⟨_, rfl⟩).before fun _ => ?_
  exact hbuffered.inBlock.after fun _ => mints_closeBlock ⟨_, rfl⟩

theorem mints_classicCalls {plan : BodyPlan}
    (hplan : plan.repeated = true → plan.evaluated = true) :
    Mints z g (classicCalls (body z.env fuel) t names plan n)
      { names := names.eval :: (if plan.repeated then [againName names] else [])
        weight := weight n.content } := by
  have heval := hnames.numbered names.eval (by simp [namedVariables])
  have hown : Introduced z.Names 0 names.eval := hnames.introduced (Nat.zero_le _) _ (by simp)
  have hend : Mints z g (endCalls t names) {} := by
    have hset : z.IsOwn 0 (.assign [names.eval, "err"] (names.handler ++ ".DoEndTag()")) :=
      Site.own_assign (List.forall_mem_cons.mpr ⟨hown, List.forall_mem_singleton.mpr .error⟩) _
    refine (mints_line _ ?_ hset).before fun _ => mints_checkErr.before fun _ => ?_
    · simp [Statement.text, Statement.listed, Statement.assigns]
      rfl
    refine (mints_syncVariables hvars _).before fun _ => ?_
    refine (mints_openBlock (w := "if ") (by decide) ⟨_, rfl⟩).before fun _ => ?_
    refine (mints_control (w := "return ") (by decide) ⟨_, rfl⟩).before fun _ => ?_
    exact (mints_closeBlock ⟨_, rfl⟩).before fun _ =>
      mints_control (w := "return ") (by decide) ⟨_, rfl⟩
  refine Mints.first [names.eval] (if plan.repeated then [againName names] else [])
    (mints_value (names.handler ++ ".DoStartTag()") heval hown (startsWith_handler hnames _) ?_)
      fun _ => ?_
  · simp only [List.append_assoc]
  refine mints_checkErr.before fun _ => (mints_syncVariables hvars _).before fun _ => ?_
  refine .ite (fun _ => ?_) fun hnone => ?_
  · exact (mints_classicBody hnames hinner hvars hn plan).after fun _ => hend
  · rw [if_neg fun h => hnone (hplan h)]
    exact hend.weaken fun _ _ => Nat.zero_le _

variable (honce : n.head.NamesOnce n.children) (hgives : z.Gives g.level n)

include honce hgives

theorem mints_classic (hd : d.isClassic = true) :
    Mints z g (classic z.env (body z.env fuel) t d names n)
      { names := invocationVariables d n names, weight := weight n.children } := by
  have hpush : Introduced z.Names 0 names.push := hnames.introduced (Nat.zero_le _) _ (by simp)
  have hzero : z.IsOwn 0 (.zero names.push) :=
    Site.own_of_targets trivial rfl (List.forall_mem_singleton.mpr hpush)
  have hplan : (bodyPlan d n).repeated = true → (bodyPlan d n).evaluated = true := by
    simp only [bodyPlan, Bool.and_eq_true]
    exact fun h => h.1
  have hvariables : invocationVariables d n names = [names.handler] ++
      ((if (bodyPlan d n).buffered then [names.push] else []) ++
        names.eval :: (if (bodyPlan d n).repeated then [againName names] else [])) := by
    simp [invocationVariables, hd]
  rw [hvariables]
  refine (mints_qualified _ _).before fun type => Mints.first _ _ ?_ fun _ => ?_
  · split
    · let value : Bytes := z.env.receiver ++ ("." ++ (names.pool ++
        (".Get(func() rt.Tag \x7b return &" ++ (type ++ ("\x7b\x7d \x7d).(*" ++ (type ++ ")"))))))
      have hvalue : value.startsWith "rt.Attr[" = false := by
        simp only [value, Env.receiver]
        split <;> rfl
      exact mints_create hnames value hvalue (by simp only [value, List.append_assoc])
    · refine mints_create hnames ("&" ++ (type ++ "\x7b\x7d")) rfl ?_
      simp only [List.append_assoc]
      rfl
  refine (mints_handlerCall hnames "SetPageContext(pc)" rfl).before fun _ => ?_
  refine mints_parentHandler.before fun parent => (mints_setParent hnames parent).before fun _ => ?_
  refine .guard_first (mints_line (.zero names.push) rfl hzero) fun _ => ?_
  refine (mints_deferred hnames _).before fun _ => ?_
  refine (mints_passAttributes hinner hnames.space_not_mem honce hgives).visits (fun _ => ?_)
    fun k _ => weight_inside_le n k
  exact (mints_classicCalls hnames hinner hvars hn hplan).insideTag

theorem mints_simple (hd : d.isClassic = false) :
    Mints z g (simple (body z.env fuel) t d names n)
      { names := invocationVariables d n names, weight := weight n.children } := by
  have hvariables : invocationVariables d n names = [names.handler] ++ [] := by
    simp [invocationVariables, hd]
  have hend : Mints z g (endSimple t names) {} := (mints_check _).before fun _ =>
    (mints_syncVariables hvars _).before fun _ =>
      mints_control (w := "return ") (by decide) ⟨_, rfl⟩
  rw [hvariables]
  refine (mints_qualified _ _).before fun type => Mints.first _ _ ?_ fun _ => ?_
  · refine mints_create hnames ("&" ++ (type ++ "\x7b\x7d")) rfl ?_
    simp only [List.append_assoc]
    rfl
  refine (mints_handlerCall hnames "SetJspContext(pc)" rfl).before fun _ => ?_
  refine mints_parentHandler.before fun parent => (mints_setParent hnames parent).before fun _ => ?_
  refine (mints_passAttributes hinner hnames.space_not_mem honce hgives).visits (fun _ => ?_)
    fun k _ => weight_inside_le n k
  refine .ite (fun _ => ?_) fun _ => hend.weaken fun _ _ => Nat.zero_le _
  refine (Mints.fragment (hinner g _ hn)).after fun i => ?_
  exact (mints_handlerCall hnames ("SetJspBody(" ++ (fragmentCode names.handler i ++ ")"))
    (by simp only [List.append_assoc]; rfl)).before fun _ => hend

/-- **The variables that an invocation introduces.** -/
theorem mints_invocation : Mints z g (invocation z.env (body z.env fuel) t d names n)
    { names := invocationVariables d n names, weight := weight n.children } :=
  .ite (mints_classic hnames hinner hvars hn honce hgives)
    fun hd => mints_simple hnames hinner hvars hn honce hgives (Bool.not_eq_true _ ▸ hd)

end Lifecycles

/-! ### Placement -/

section Placement

variable {z : Site} {g : Ground} {e : Brings} {k : Nat} {t : CustomTag} {run : Gen Unit}

theorem mints_hoisted (hpart : ∀ i s a u c, g.IsAt s → s.place.out.indent = 1 →
      run s = .ok a u → u.desk = c.replay s.desk →
      z.GoesBy g.known k (methodCode z.env (methodName i) c))
    (hrun : Mints z g run e) : Mints z g (hoisted z.env k run) e := by
  refine Mints.number (fun i => [methodName i]) (fun _ => List.nodup_singleton _)
    (fun _ => List.forall_mem_singleton.mpr .method) fun i => ?_
  refine mints_parentHandler.before fun parent => (mints_check _).before fun _ => ?_
  refine .method ?_ ?_ (hpart i) hrun
  · simp only [List.append_assoc]
    exact Bytes.startsWith_append "func " _
  · have hname := methodOf_start z.env i
      ("pc *rt.PageContext, frags *" ++ z.env.fragmentType ++ ", parent rt.Tag) (err error) \x7b")
    rw [← hname]
    simp [methodStart, methodName]
    rfl

theorem mints_inlined (hvars : ∀ v ∈ t.vars, z.Names v.name)
    (hpart : ∀ s a u c, g.IsAt s → inlined t k run s = .ok a u →
      u.desk = (Code.part k c .nil).replay s.desk → z.GoesBy g.known k c)
    (hrun : Mints z g run e) : Mints z g (inlined t k run) e := by
  refine .marking hpart (.declared hvars fun saved hsaved => ?_)
  refine (mints_openBlock (w := "if ") (by decide) ⟨_, rfl⟩).before fun _ => ?_
  refine hrun.inBlock.after fun _ => mints_outdent.before fun _ => ?_
  refine (mints_returning (w := "\x7d") (by decide) ⟨_, rfl⟩).before fun _ =>
    .forM_nil fun x hx => ?_
  obtain ⟨name, hname, rfl⟩ := List.mem_map.mp hx
  refine mints_line (.copy false name (saveSlot name t.nesting)) ?_
    (Site.own_of_targets trivial rfl (List.forall_mem_singleton.mpr (.page (hsaved name hname))))
  simp [Statement.text, Statement.assigns]

end Placement

section Tags

variable {z : Site} {g : Ground} {fuel : Nat} {n : Node} {t : CustomTag} {d : TagDescriptor}
  {names : HandlerNames} {id : Nat}

/-- A part of a tag has the lines of an invocation that goes by the identifiers noted for it. -/
theorem Site.IsTidy.goesBy (hz : z.IsTidy) (hn : n ∈ z.root.subtree)
    {noted : List (Nat × HandlerNames)} (hnoted : (n.head.number, names) ∈ noted) {c e : Code}
    (i : Nat) (he : Invokes z.env n names e) (hlines : Code.SameLines i c e) :
    z.GoesBy noted n.head.number c := by
  intro m hm _ hnumber
  obtain rfl := List.inj_on_of_nodup_map hz.nodup hm hn hnumber
  exact ⟨names, e, i, hnoted, he, hlines⟩

/-- The code of an invocation wherever it is written. -/
theorem writes_run (hnames : IsNamed t names id) (hid : g.level ≤ id)
    (hvars : ∀ v ∈ t.vars, z.Names v.name) (honce : n.head.NamesOnce n.children)
    (hn : ∀ c ∈ n.children, z.Holds g.level c) {s : State} (hs : g.level ≤ s.sequence) :
    Writes (invocation z.env (body z.env fuel) t d names n)
      (invocation z.env (watched z.env (fun _ _ _ => True) fuel) t d names n) s fun _ u c =>
        Running z g.level n t d names u c :=
  writes_invocation (writes_body (fun _ _ _ _ _ _ _ _ => trivial) fuel g.level) hnames hid hvars
    honce hn hs

/-- **The part of a tag has the lines of an invocation that goes by the identifiers noted for
it.** -/
theorem mints_customTag (hinner : MintsInner z fuel) (hz : z.IsTidy) (hn : z.Holds g.level n)
    (hk : n.kind = .customTag) :
    Mints z g (customTag z.env (body z.env fuel) n) { weight := fun k => n.numbers.count k } := by
  have hchildren : ∀ c ∈ n.children, z.Holds (g.level + 1) c := by
    intro c hc
    have hlevel : n.head.innerLevel g.level = g.level + 1 := if_pos hk
    exact hlevel ▸ hn.child hc
  have honce : n.head.NamesOnce n.children := by
    obtain ⟨-, hprepared⟩ := hn
    obtain ⟨honce, -, -⟩ := hprepared
    exact honce
  unfold customTag
  dsimp only
  split
  · next t d ht hd =>
    have hdescriptor : t.descriptor = some d := by rwa [ht, Option.bind_some] at hd
    have hvars : ∀ v ∈ t.vars, z.Names v.name := fun v hv => ⟨n, hn.mem, .inl ⟨t, ht, v, hv, rfl⟩⟩
    refine (Mints.named hn.mem hk ht hdescriptor (w := weight n.children)
      fun names id hnames hid => ?_).weaken fun k _ => ?_
    · let g' : Ground := ⟨g.level + 1, (n.head.number, names) :: g.known⟩
      have hnoted : (n.head.number, names) ∈ g'.known := List.mem_cons_self
      have hcontent : ∀ c ∈ n.content, z.Visits g'.level c := fun c hc =>
        .inl (holds_contentOf hchildren c hc)
      have hgives : z.Gives g'.level n := by
        intro a ha hnamed c hc m hm
        obtain ⟨i, hi, hkind⟩ := honce.given a ha hnamed
        rw [givenBy, hi, Option.bind_some] at hc
        rw [List.getElem?_map, hc] at hkind
        have hkind : c.kind = .namedAttribute := Option.some.inj hkind
        exact .inl ((hchildren c (List.mem_of_getElem? hc)).child_of_ne (by rw [hkind]; decide) hm)
      have hrun : Mints z g' (invocation z.env (body z.env fuel) t d names n)
          { names := invocationVariables d n names, weight := weight n.children } :=
        mints_invocation hnames hinner hvars hcontent honce hgives
      have hwrites : ∀ s, g'.level ≤ s.sequence → Writes
          (invocation z.env (body z.env fuel) t d names n)
          (invocation z.env (watched z.env (fun _ _ _ => True) fuel) t d names n) s
          fun _ u c => Running z g'.level n t d names u c := fun s hs =>
        writes_run (g := g') hnames hid hvars honce hchildren hs
      refine .ite (fun hhoistable => ?_) fun hhoistable => ?_
      · refine mints_hoisted (fun i s a u c hs hindent hok hdesk => ?_) hrun
        obtain ⟨-, -, r, hr, hrunning⟩ := hwrites s hs.level a u hok
        have hreplay : c.replay s.desk = r.replay s.desk := hdesk.symm.trans hr
        have hlines : Code.SameLines 1 c r := by
          have hlines := Code.SameLines.of_replay hs.flat hreplay
          rwa [show s.desk.out.indent = 1 from hindent] at hlines
        have hdepth : c.depth 1 = r.depth 1 := by
          have hdepth := congrArg (·.out.indent) hreplay
          rw [Code.indent_replay, Code.indent_replay] at hdepth
          rwa [show s.desk.out.indent = 1 from hindent] at hdepth
        exact hz.goesBy hn.mem hnoted 0 (.method i ht hdescriptor hrunning.run hhoistable)
          (hlines.block hdepth _ _)
      · refine mints_inlined hvars (fun s a u c hs hok hdesk => ?_) hrun
        have hinlined := writes_inlined (s := s) fun v hv =>
          hwrites v (Nat.le_trans hs.level hv.sequence)
        obtain ⟨-, -, _, hr, r, rfl, hrunning⟩ := hinlined a u hok
        have hlines := Code.SameLines.of_replay hs.flat (hdesk.symm.trans hr)
        exact hz.goesBy hn.mem hnoted _ (.inline _ ht hdescriptor hrunning.run (by simpa using
          hhoistable)) hlines.of_part
    · rw [Node.numbers_eq, List.count_cons, Nat.add_comm]
      exact Nat.le_refl _
  · exact .throw _

end Tags

/-! ### Standard actions -/

section Actions

variable {z : Site} {g : Ground} {fuel : Nat} {n : Node} (hinner : MintsInner z fuel)
  (hn : ∀ c ∈ n.children, z.Holds g.level c)

include hinner

theorem mints_inlineValue (a : Attribute) (type : Bytes) :
    Mints z g (valueCode (body z.env fuel) [] a none type) {} := by
  refine (mints_valueCode hinner [] type fun _ _ h => by cases h).mono (.refl _) fun k _ => ?_
  simp [namedWeight]

theorem mints_pluginEntries (as : List Attribute) :
    Mints z g (pluginEntries (body z.env fuel) as) {} := by
  induction as with
  | nil => exact .pure _
  | cons a as ih =>
    exact (mints_inlineValue hinner a _).before fun _ => ih.before fun _ => .pure _

include hn

theorem mints_actionValue (name type : Bytes) :
    Mints z g (actionValue (body z.env fuel) n name type)
      { weight := weight (n.children.filter (·.givesAttribute name)) } := by
  unfold actionValue
  split
  · next a _ => exact (mints_inlineValue hinner a type).weaken fun _ _ => Nat.zero_le _
  · next c _ hc =>
    have hmem := List.mem_of_find?_eq_some hc
    have hgives : c.givesAttribute name = true := List.find?_some hc
    have hkind : c.kind = .namedAttribute := eq_of_beq (Bool.and_eq_true_iff.mp hgives).1
    refine (mints_valueCode hinner [] type fun _ m hm d hd => ?_).weaken fun k _ => ?_
    · obtain rfl := Option.some.inj hm
      exact .inl ((hn c hmem).child_of_ne (by rw [hkind]; decide) hd)
    · simp only [namedWeight, if_true, Option.map_some, Option.getD_some]
      exact Nat.le_trans (weight_children_le c k)
        (weight_of_mem (List.mem_filter.mpr ⟨hmem, hgives⟩) k)
  · exact (Mints.pure _).weaken fun _ _ => Nat.zero_le _

omit hn in
theorem mints_paramEntries {ns : List Node} (hns : ∀ m ∈ ns, z.Holds g.level m) :
    Mints z g (paramEntries (body z.env fuel) ns)
      { weight := weight (ns.filter (·.kind == .param)) } := by
  induction ns with
  | nil => exact .pure _
  | cons m ns ih =>
    have ih := ih fun l hl => hns l (List.mem_cons_of_mem m hl)
    refine .ite (fun hk => ?_) fun hk => ?_
    · rw [List.filter_cons_of_neg (by simpa using hk)]
      exact ih
    · have hkind : m.kind = .param := by simpa using hk
      have hchildren : ∀ c ∈ m.children, z.Holds g.level c := fun c hc =>
        (hns m List.mem_cons_self).child_of_ne (by rw [hkind]; decide) hc
      refine (mints_actionValue hinner hchildren "name" "string").visits (fun name =>
        (mints_actionValue hinner hchildren "value" "string").visits (fun value =>
          ih.after fun _ => .pure _) fun _ _ => Nat.le_refl _) fun k _ => ?_
      have h1 := weight_filter_add_le (p := fun c => c.givesAttribute "name")
        (q := fun c => c.givesAttribute "value") (givesAttribute_apart (by decide)) m.children k
      have h2 := weight_children_le m k
      rw [List.filter_cons_of_pos (by simp [hkind]), weight_cons]
      omega

omit hn in
theorem mints_params {ns : List Node} (hns : ∀ m ∈ ns, z.Holds g.level m) :
    Mints z g (params (body z.env fuel) ns) { weight := weight (ns.filter (·.kind == .param)) } :=
  (mints_paramEntries hinner hns).after fun _ => .pure _

omit hn in
theorem mints_pluginParams {ns : List Node} (hns : ∀ m ∈ ns, z.Holds g.level m) (found : Bytes) :
    Mints z g (pluginParams (body z.env fuel) found ns) { weight := weight ns } := by
  induction ns generalizing found with
  | nil => exact .pure _
  | cons m ns ih =>
    have ih := ih fun l hl => hns l (List.mem_cons_of_mem m hl)
    refine .ite (fun hk => ?_) fun _ => (ih found).weaken fun k _ => ?_
    · have hkind : m.kind = .params := eq_of_beq hk
      have hchildren : ∀ c ∈ m.children, z.Holds g.level c := fun c hc =>
        (hns m List.mem_cons_self).child_of_ne (by rw [hkind]; decide) hc
      refine (mints_params hinner hchildren).visits (fun _ => ih _) fun k _ => ?_
      have h1 := weight_filter_le (·.kind == .param) m.children k
      have h2 := weight_children_le m k
      rw [weight_cons]
      omega
    · rw [weight_cons]
      omega

theorem mints_plugin : Mints z g (plugin (body z.env fuel) n) { weight := weight n.children } := by
  refine (mints_pluginEntries hinner _).before fun entries => ?_
  refine (mints_pluginParams hinner hn _).after fun params => ?_
  refine (mints_openBlock (w := "if ") (by decide) ⟨_, rfl⟩).before fun _ => ?_
  refine (mints_control (w := "Attrs: ") (by decide) ⟨_, by
    simp only [List.append_assoc]; rfl⟩).before fun _ => ?_
  refine (mints_control (w := "Params: ") (by decide) ⟨_, by
    simp only [List.append_assoc]; rfl⟩).before fun _ => ?_
  refine (mints_control (w := "Fallback: ") (by decide) ⟨_, by
    simp only [List.append_assoc]; rfl⟩).before fun _ => ?_
  exact mints_outdent.before fun _ => mints_returning (w := "\x7d") (by decide) ⟨_, rfl⟩

/-- The variables that the making of a bean introduces. -/
def beanVariables (n : Node) (i : Nat) : List Bytes :=
  ("_v" ++ Bytes.ofNat i) ::
    if !n.hasEmptyBody then ["_v" ++ Bytes.ofNat i ++ "_created"] else []

omit hinner hn in
theorem nodup_beanVariables (n : Node) (i : Nat) : (beanVariables n i).Nodup := by
  refine List.nodup_cons.mpr ⟨fun hmem => ?_, ?_⟩
  · split at hmem
    · have hlength := congrArg List.length (List.mem_singleton.mp hmem)
      simp [Bytes.ofString] at hlength
    · exact List.not_mem_nil hmem
  · split
    · exact List.nodup_singleton _
    · exact List.nodup_nil

omit hinner hn in
theorem numbered_beanVariables (n : Node) (i : Nat) : ∀ x ∈ beanVariables n i, Numbered i x := by
  refine List.forall_mem_cons.mpr ⟨.temporary, ?_⟩
  split
  · exact List.forall_mem_singleton.mpr .created
  · exact fun _ h => absurd h List.not_mem_nil

theorem mints_makeBean (type value : Bytes) (hid : z.Names (n.head.attrValue "id")) :
    Mints z g (makeBean (body z.env fuel) n type value) { weight := weight n.content } := by
  have hcontent : ∀ c ∈ n.content, z.Visits g.level c := fun c hc => .inl (holds_contentOf hn c hc)
  refine Mints.temporary_of (beanVariables n) (nodup_beanVariables n) (numbered_beanVariables n)
    fun i => ?_
  let v : Bytes := "_v" ++ Bytes.ofNat i
  let created : Bytes := if !n.hasEmptyBody then v ++ "_created" else "_"
  have hcreated : Introduced z.Names 0 created := by
    simp only [created]
    split
    · exact .created i
    · exact .blank
  have hcounted : [v, created, "err"].filter isCounted = beanVariables n i := by
    have htemporary : Numbered i v := .temporary
    refine (List.filter_cons_of_pos htemporary.isCounted).trans (congrArg (v :: ·) ?_)
    simp only [created]
    split
    · exact List.filter_cons_of_pos Numbered.created.isCounted
    · rfl
  let call : Bytes := "rt.UseBean[" ++ (type ++ ("](pc, " ++ (Quoted.string
    (n.head.attrValue "id") ++ (", " ++ (Quoted.string (orElse (n.head.attrValue "scope") "page") ++
      (", " ++ (value ++ ")")))))))
  have hmake : Mints z g (emit (v ++ ", " ++ created ++ ", err := rt.UseBean[" ++ type ++
      "](pc, " ++ Quoted.string (n.head.attrValue "id") ++ ", " ++
      Quoted.string (orElse (n.head.attrValue "scope") "page") ++ ", " ++ value ++ ")"))
      { names := beanVariables n i } := by
    rw [← hcounted]
    refine mints_define [v, created, "err"] call ?_ ?_ rfl
    · simp [Statement.text, Statement.defines, Statement.listed, call]
      rfl
    · exact List.forall_mem_cons.mpr ⟨.temporary i, List.forall_mem_cons.mpr
        ⟨hcreated, List.forall_mem_singleton.mpr .error⟩⟩
  refine (mints_openBlock (w := "\x7b") (by decide) ⟨[], rfl⟩).before fun _ => ?_
  refine Mints.first _ [] hmake fun _ => mints_checkErr.before fun _ => ?_
  refine Mints.before (mints_line (.assign [n.head.attrValue "id"] v) ?_
    (Site.own_assign (List.forall_mem_singleton.mpr (.page hid)) _)) fun _ => ?_
  · simp [Statement.text, Statement.assigns, Statement.listed, v]
  refine .ite (fun _ => ?_) fun _ =>
    (mints_closeBlock ⟨[], rfl⟩).weaken fun _ _ => Nat.zero_le _
  refine (mints_openBlock (w := "if ") (by decide) ⟨_, by
    simp only [List.append_assoc]; rfl⟩).before fun _ => ?_
  exact (hinner g _ hcontent).inBlock.after fun _ => (mints_closeBlock ⟨[], rfl⟩).before fun _ =>
    mints_closeBlock ⟨[], rfl⟩

theorem mints_useBean (hid : z.Names (n.head.attrValue "id")) :
    Mints z g (useBean (body z.env fuel) n) { weight := weight n.children } := by
  let type := orElse (n.head.attrValue "type") ("*" ++ n.head.attrValue "class")
  have hdeclare : z.IsOwn 0 (.declare (n.head.attrValue "id") type) :=
    Site.own_of_targets trivial rfl (List.forall_mem_singleton.mpr (.page hid))
  have hbean := fun value => mints_makeBean (g := g) hinner hn type value hid
  refine Mints.visits (u := weight (n.children.filter (·.givesAttribute "beanName")))
    (v := weight n.content) ?_ (fun value => .get fun s => .ite (fun _ => ?_) fun _ => hbean value)
    fun k _ => ?_
  · refine .ite (fun _ => ?_) fun _ => .ite (fun _ => ?_) fun _ => ?_
    · exact (mints_actionValue hinner hn "beanName" "string").after fun _ => .pure _
    · exact (Mints.pure _).weaken fun _ _ => Nat.zero_le _
    · exact (Mints.pure _).weaken fun _ _ => Nat.zero_le _
  · refine (mints_line _ (by simp [Statement.text, type]) hdeclare).before fun _ => ?_
    refine (mints_line (.use (n.head.attrValue "id")) rfl (Site.own_use _)).before fun _ => ?_
    exact (mints_declare _).before fun _ => hbean value
  · refine Nat.le_trans (Nat.add_le_add_left (weight_contentOf_le n.children k) _)
      (weight_filter_add_le (fun c hc => ?_) n.children k)
    simp only [Node.givesAttribute, Bool.and_eq_true, beq_iff_eq] at hc
    rw [hc.1]
    rfl

omit hinner hn in
theorem mints_invoke : Mints z g (invoke z.env n) {} := by
  unfold invoke
  cases z.env.page.tag with
  | none => exact .throw _
  | some tag =>
    refine .guard (mints_call z.env.receiver "syncBegin(pc)"
      (space_not_mem_receiver z.env) ?_) fun _ => mints_check _
    rfl

theorem mints_action (hk : ¬z.IsTag n.head.number) (hid : n.kind = .useBean →
    z.Names (n.head.attrValue "id")) :
    Mints z g (action z.env (body z.env fuel) n) { weight := weight n.children } := by
  have hnone : ∀ {x : Gen Unit}, Mints z g x {} → Mints z g x { weight := weight n.children } :=
    fun hx => hx.weaken fun _ _ => Nat.zero_le _
  have hpage := mints_actionValue hinner hn "page" "string"
  have hparams := mints_params hinner hn
  refine .marking_plain hk ?_
  cases hkind : n.kind with
  | includeAction =>
    exact hpage.visits (fun _ => hparams.after fun _ => mints_check _)
      fun k _ => weight_given_add_param_le "page" n k
  | forwardAction =>
    refine hpage.visits (fun _ => hparams.after fun _ => (mints_check _).before fun _ => ?_)
      fun k _ => weight_given_add_param_le "page" n k
    exact mints_control (w := "return ") (by decide) ⟨_, rfl⟩
  | useBean => exact mints_useBean hinner hn (hid hkind)
  | getProperty => exact hnone (mints_check _)
  | setProperty =>
    refine .ite (fun _ => hnone (mints_check _)) fun _ => .ite (fun _ => ?_) fun _ =>
      hnone (mints_check _)
    refine (Mints.weaken (mints_actionValue hinner hn "value" "any") fun k _ => ?_).after fun _ =>
      mints_check _
    exact weight_filter_le _ _ k
  | plugin => exact mints_plugin hinner hn
  | _ => exact hnone mints_invoke

end Actions

/-! ### Visits -/

section Visits

variable {z : Site} {g : Ground} {fuel : Nat} {n : Node}

theorem mints_text (hk : ¬z.IsTag n.head.number) :
    Mints z g (text z.env n.head.number n.text) {} := by
  have hwrite : ∀ code, Mints z g (emit ("pc.Out().WriteString(" ++ code ++ ")")) {} := fun code =>
    mints_call "pc" ("Out().WriteString(" ++ (code ++ ")")) (by decide) (by
      simp only [List.append_assoc]
      rfl)
  refine .ite (fun _ => .pure _) fun _ => .marking_plain hk (.forM_nil fun piece _ => ?_)
  refine .ite (fun _ => (mints_textConstant _).before hwrite) fun _ => ?_
  exact (Mints.pure _).before hwrite

theorem mints_scriptlet (hn : n ∈ z.root.subtree) (hkind : n.kind = .scriptlet)
    (hk : ¬z.IsTag n.head.number) :
    Mints z g (marking n.head.number (emitAll (scriptletLines n.text))) {} := by
  refine .marking_plain hk (.forM_nil fun l hl => ?_)
  exact mints_line (.page l) rfl (Site.own_page ⟨n, hn, .inl ⟨hkind, hl⟩⟩)

theorem mints_declaration (hn : n ∈ z.root.subtree) (hkind : n.kind = .declaration)
    (hk : ¬z.IsTag n.head.number) : Mints z g (declaration n.head.number n.text) {} := by
  rintro s a t hs ⟨⟩
  let c : Code := .declaration n.head.number (declarationLines n.text) .nil
  refine ⟨c, .of_plain (c := c) rfl ⟨?_, trivial⟩ rfl rfl ⟨?_, trivial⟩⟩
  · exact fun l hl => Site.own_page ⟨n, hn, .inr ⟨hkind, hl⟩⟩
  · exact fun m hm hmk hnumber => absurd ⟨m, hm, hmk, hnumber⟩ hk

/-- **What a visit of a node makes up.** -/
theorem mints_visit (hinner : MintsInner z fuel) (hz : z.IsTidy) (hn : z.Visits g.level n) :
    Mints z g (visit z.env (body z.env fuel) n) { weight := fun k => n.numbers.count k } := by
  by_cases hk : n.kind = .customTag
  · rw [visit_customTag _ _ hk]
    rcases hn with hn | hn
    · exact mints_customTag hinner hz hn hk
    · rcases hn.kind with h | h | h <;> rw [h] at hk <;> cases hk
  have hnumber : ¬z.IsTag n.head.number := hz.not_isTag (hn.imp (·.mem) (·.number)) hk
  have hnone : ∀ {x : Gen Unit}, Mints z g x {} →
      Mints z g x { weight := fun k => n.numbers.count k } :=
    fun hx => hx.weaken fun _ _ => Nat.zero_le _
  have hbelow : ∀ {x : Gen Unit}, Mints z g x { weight := weight n.children } →
      Mints z g x { weight := fun k => n.numbers.count k } :=
    fun hx => hx.weaken fun k _ => weight_children_le n k
  -- Only text and expressions are made up, and nothing is below them.
  have hmem : n.kind ∉ [Kind.text, .expression, .elExpression] → z.Holds g.level n := by
    intro hkind
    rcases hn with hn | hn
    · exact hn
    · rcases hn.kind with h | h | h <;> rw [h] at hkind <;> exact absurd hkind (by decide)
  have hholds : ∀ c ∈ n.children, z.Holds g.level c := by
    rcases hn with hn | hn
    · exact fun c hc => hn.child_of_ne hk hc
    · rw [hn.children]
      exact fun _ h => absurd h List.not_mem_nil
  have hchildren := hbelow (hinner g n.children fun c hc => .inl (hholds c hc))
  have haction := fun hid => hbelow (mints_action hinner hholds hnumber hid)
  unfold visit
  dsimp only
  rw [show n.head.kind = n.kind from rfl]
  cases hkind : n.kind with
  | root => exact .throw _
  | text => exact hnone (mints_text hnumber)
  | textAction | body | includeDirective => exact hchildren
  | customTag => exact absurd hkind hk
  | declaration =>
    exact hnone (mints_declaration (hmem (by rw [hkind]; decide)).mem hkind hnumber)
  | scriptlet => exact hnone (mints_scriptlet (hmem (by rw [hkind]; decide)).mem hkind hnumber)
  | expression =>
    refine hnone (.marking_plain hnumber (mints_call "pc"
      ("Out().Print(" ++ (n.text.trimSpace ++ ")")) (by decide) ?_))
    simp only [List.append_assoc]
    rfl
  | elExpression =>
    exact hnone (.marking_plain hnumber ((mints_expressionName _).before fun _ => mints_check _))
  | useBean =>
    exact haction fun _ => ⟨n, (hmem (by rw [hkind]; decide)).mem, .inr ⟨hkind, rfl⟩⟩
  | includeAction | forwardAction | getProperty | setProperty | plugin | invokeAction
  | doBodyAction => exact haction (by simp [hkind])
  | _ => exact hnone (.pure _)

/-- **What all visits in the generation of nodes make up.** -/
theorem mints_body (hz : z.IsTidy) (fuel : Nat) : MintsInner z fuel := by
  induction fuel with
  | zero => exact fun _ _ _ => .throw _
  | succ fuel ih =>
    intro g ns hns
    exact (Mints.forM fun n hn => mints_visit ih hz (hns n hn)).weaken fun k _ =>
      Nat.le_of_eq (Node.count_numbersAll k ns).symm

end Visits

end ServerPages.Generation
