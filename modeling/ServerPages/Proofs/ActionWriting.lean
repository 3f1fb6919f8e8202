import ServerPages.Proofs.ValueWriting

/-!
# The code of standard actions

Every standard action computes its attributes first and then makes its call.

## Main results

* `writes_action`: the code of an action is one part of its node.
-/

namespace ServerPages.Generation

section Actions

variable {z : Site} {level : Nat} {inner inner' : Body} {s : State}

/-! ### Attributes and parameters -/

/-- The value of an attribute of an action is computed. -/
theorem writes_actionValue (hinner : WritesInner z level inner inner') {n : Node}
    (name type : Bytes) (hn : ∀ c ∈ n.children, z.Holds level c) (hs : level ≤ s.sequence) :
    Computing z level (weight (n.children.filter (·.givesAttribute name)))
      (actionValue inner n name type) (actionValue inner' n name type) s fun _ => True := by
  unfold actionValue
  split
  · next a _ =>
    refine (writes_valueCode hinner [] a type (fun _ _ hn => by cases hn) hs).mono (fun k _ => ?_)
      fun _ h => h
    simp [namedWeight]
  · next c _ hc =>
    have hmem := List.mem_of_find?_eq_some hc
    have hgives : c.givesAttribute name = true := List.find?_some hc
    have hkind : c.kind = .namedAttribute := by
      simp only [Node.givesAttribute, Bool.and_eq_true, beq_iff_eq] at hgives
      exact hgives.1
    have hchildren : ∀ d ∈ c.children, z.Visits level d := by
      intro d hd
      exact .inl ((hn c hmem).child_of_ne (by rw [hkind]; decide) hd)
    have hnamed : ∀ d, some c = some d → ∀ e ∈ d.children, z.Visits level e := fun d hd =>
      Option.some.inj hd ▸ hchildren
    refine (writes_valueCode hinner [] _ type (fun _ => hnamed) hs).mono (fun k _ => ?_)
      fun _ h => h
    · have h1 := weight_children_le c k
      have h2 := weight_of_mem (List.mem_filter.mpr ⟨hmem, hgives⟩) k
      simp only [namedWeight, if_true, Option.map_some, Option.getD_some]
      exact Nat.le_trans h1 h2
  · exact .pure trivial

theorem givesAttribute_apart {x y : Bytes} (h : x ≠ y) (n : Node)
    (hx : n.givesAttribute x = true) : n.givesAttribute y = false := by
  simp only [Node.givesAttribute, Bool.and_eq_true, beq_iff_eq] at hx
  simp only [Node.givesAttribute, Bool.and_eq_false_iff, beq_eq_false_iff_ne]
  exact .inr (hx.2 ▸ h)

/-- The entries of a parameter list are computed. -/
theorem writes_paramEntries (hinner : WritesInner z level inner inner') {ns : List Node}
    (hns : ∀ n ∈ ns, z.Holds level n) (hs : level ≤ s.sequence) :
    Computing z level (weight (ns.filter (·.kind == .param))) (paramEntries inner ns)
      (paramEntries inner' ns) s fun _ => True := by
  induction ns generalizing s with
  | nil => exact .pure trivial
  | cons n ns ih =>
    have hrest := fun m hm => hns m (List.mem_cons_of_mem n hm)
    unfold paramEntries
    refine .ite (fun hk => ?_) fun hk => ?_
    · have hkind : (n.kind == .param) = false := by simpa using hk
      rw [List.filter_cons_of_neg (by simp [hkind])]
      exact ih hrest hs
    · have hkind : n.kind = .param := by simpa using hk
      have hchildren : ∀ c ∈ n.children, z.Holds level c := by
        intro c hc
        exact (hns n List.mem_cons_self).child_of_ne (by rw [hkind]; decide) hc
      have hapart := weight_filter_add_le (p := fun c => c.givesAttribute "name")
        (q := fun c => c.givesAttribute "value") (givesAttribute_apart (by decide)) n.children
      refine Computing.seq (writes_actionValue hinner "name" "string" hchildren hs)
        (v := fun k => weight (n.children.filter (·.givesAttribute "value")) k +
          weight (ns.filter (·.kind == .param)) k) (fun name t₁ h₁ _ => ?_) fun k _ => ?_
      · refine Computing.seq (writes_actionValue hinner "value" "string" hchildren
          (Nat.le_trans hs h₁.sequence)) (fun value t₂ h₂ _ => ?_) fun _ _ => Nat.le_refl _
        exact (ih hrest (Nat.le_trans hs (h₁.trans h₂).sequence)).map _
      · have h1 := hapart k
        have h2 := weight_children_le n k
        rw [List.filter_cons_of_pos (by simp [hkind]), weight_cons]
        omega

/-- The list of the parameters among some nodes is computed. -/
theorem writes_params (hinner : WritesInner z level inner inner') {ns : List Node}
    (hns : ∀ n ∈ ns, z.Holds level n) (hs : level ≤ s.sequence) :
    Computing z level (weight (ns.filter (·.kind == .param))) (params inner ns)
      (params inner' ns) s fun _ => True :=
  (writes_paramEntries hinner hns hs).map _

/-- The attributes of an applet are computed. -/
theorem writes_pluginEntries (hinner : WritesInner z level inner inner') (as : List Attribute)
    (hs : level ≤ s.sequence) :
    Computing z level (fun _ => 0) (pluginEntries inner as) (pluginEntries inner' as) s
      fun _ => True := by
  induction as generalizing s with
  | nil => exact .pure trivial
  | cons a as ih =>
    unfold pluginEntries
    refine Computing.seq (writes_valueCode hinner [] a "string" (fun _ _ hn => by cases hn) hs)
      (fun v t h _ => (ih (Nat.le_trans hs h.sequence)).map _) fun k _ => ?_
    simp [namedWeight]

/-- The parameters of an applet are computed. -/
theorem writes_pluginParams (hinner : WritesInner z level inner inner') (found : Bytes)
    {ns : List Node} (hns : ∀ n ∈ ns, z.Holds level n) (hs : level ≤ s.sequence) :
    Computing z level (weight ns) (pluginParams inner found ns) (pluginParams inner' found ns) s
      fun _ => True := by
  induction ns generalizing s found with
  | nil => exact .pure trivial
  | cons n ns ih =>
    have hrest := fun m hm => hns m (List.mem_cons_of_mem n hm)
    unfold pluginParams
    refine .ite (fun hk => ?_) fun _ => ?_
    · have hkind : n.kind = .params := by simpa using hk
      have hchildren : ∀ c ∈ n.children, z.Holds level c := by
        intro c hc
        exact (hns n List.mem_cons_self).child_of_ne (by rw [hkind]; decide) hc
      refine Computing.seq (writes_params hinner hchildren hs)
        (fun ps t h _ => ih ps hrest (Nat.le_trans hs h.sequence)) fun k _ => ?_
      have h1 := weight_filter_le (·.kind == .param) n.children k
      have h2 := weight_children_le n k
      rw [weight_cons]
      omega
    · refine (ih found hrest hs).mono (fun k _ => ?_) fun _ h => h
      rw [weight_cons]
      omega

/-- The function that makes a bean is computed. -/
theorem writes_constructor (hinner : WritesInner z level inner inner') {n : Node} (type : Bytes)
    (hn : ∀ c ∈ n.children, z.Holds level c) (hs : level ≤ s.sequence) :
    Computing z level (weight (n.children.filter (·.givesAttribute "beanName")))
      (constructor inner n type) (constructor inner' n type) s fun _ => True := by
  unfold Generation.constructor
  refine .ite (fun _ => ?_) fun _ => .ite (fun _ => .pure ⟨trivial, .nil⟩) fun _ =>
    .pure ⟨trivial, .nil⟩
  exact (writes_actionValue hinner "beanName" "string" hn hs).map _

/-! ### Actions -/

/-- The code of a standard action. -/
structure IsAction (z : Site) (level : Nat) (n : Node) (t : State) (c : Code) : Prop where
  fits : Fits z level t c
  leads : c.Leads
  within : c.Within (weight n.children)
  code : IsActionCode z.env n c

/-- Attributes are computed and then a call is made. -/
theorem IsAction.of_computes {n : Node} {w : Nat → Nat} {t : State} {c d : Code}
    (hc : Computes z level w t c) (hw : ∀ k, k ≠ 0 → w k ≤ weight n.children k)
    (hd : Fits z level t d) (hlead : d.Leads) (hnodes : d.nodes = [])
    (hcode : IsActionCode z.env n (c ++ d)) : IsAction z level n t (c ++ d) := by
  refine ⟨fits_append.mpr ⟨hc.fits, hd⟩, hc.leads.append hlead, ?_, hcode⟩
  intro k hk
  rw [Code.nodes_append, hnodes, List.append_nil]
  exact Nat.le_trans (hc.within k hk) (hw k hk)

/-- What is only given as content and the parameters are apart. -/
theorem weight_given_add_param_le (name : Bytes) (n : Node) (k : Nat) :
    weight (n.children.filter (·.givesAttribute name)) k +
      weight (n.children.filter (·.kind == .param)) k ≤ weight n.children k := by
  refine weight_filter_add_le (fun c hc => ?_) n.children k
  simp only [Node.givesAttribute, Bool.and_eq_true, beq_iff_eq] at hc
  rw [hc.1]
  rfl

theorem writes_includeAction (hinner : WritesInner z level inner inner') {n : Node}
    (hk : n.kind = .includeAction) (hn : ∀ c ∈ n.children, z.Holds level c)
    (hs : level ≤ s.sequence) :
    Writes (includeAction inner n) (includeAction inner' n) s fun _ t c =>
      IsAction z level n t c := by
  unfold includeAction
  refine Writes.bind (writes_actionValue hinner "page" "string" hn hs) fun page t₁ c₁ h₁ hc₁ => ?_
  refine Writes.bind (writes_params hinner hn (Nat.le_trans hs h₁.sequence))
    fun ps t₂ c₂ h₂ hc₂ => ?_
  refine .returning fun t₃ h₃ => ?_
  have hc := (hc₁.2.mono h₂ fun _ _ => Nat.le_refl _).append hc₂.2
  rw [← Code.append_assoc]
  refine IsAction.of_computes (hc.mono h₃ fun _ _ => Nat.le_refl _)
    (fun k _ => weight_given_add_param_le "page" n k) (fits_check _) trivial rfl ?_
  exact .include hk hc.surface page ps _

theorem writes_forwardAction (hinner : WritesInner z level inner inner') {n : Node}
    (hk : n.kind = .forwardAction) (hn : ∀ c ∈ n.children, z.Holds level c)
    (hs : level ≤ s.sequence) :
    Writes (forwardAction inner n) (forwardAction inner' n) s fun _ t c =>
      IsAction z level n t c := by
  unfold forwardAction
  refine Writes.bind (writes_actionValue hinner "page" "string" hn hs) fun page t₁ c₁ h₁ hc₁ => ?_
  refine Writes.bind (writes_params hinner hn (Nat.le_trans hs h₁.sequence))
    fun ps t₂ c₂ h₂ hc₂ => ?_
  refine .returning_bind fun t₃ h₃ => .emit (.control "return rt.ErrSkipPage") rfl fun t₄ h₄ => ?_
  have hc := (hc₁.2.mono h₂ fun _ _ => Nat.le_refl _).append hc₂.2
  have hreturn : z.IsOwn level (.control "return rt.ErrSkipPage") := own_return "rt.ErrSkipPage"
  rw [← Code.append_assoc]
  refine IsAction.of_computes (hc.mono (h₃.trans h₄) fun _ _ => Nat.le_refl _)
    (fun k _ => weight_given_add_param_le "page" n k) ?_ trivial rfl ?_
  · exact fits_append.mpr ⟨fits_check _, fits_line.mpr ⟨hreturn, fits_nil⟩⟩
  · exact .forward hk hc.surface page ps

theorem writes_setProperty (hinner : WritesInner z level inner inner') {n : Node}
    (hk : n.kind = .setProperty) (hn : ∀ c ∈ n.children, z.Holds level c)
    (hs : level ≤ s.sequence) :
    Writes (setProperty inner n) (setProperty inner' n) s fun _ t c => IsAction z level n t c := by
  have hcall : ∀ call t, IsAction z level n t (Code.check call) := by
    intro call t
    exact IsAction.of_computes (c := .nil) .nil (fun k _ => Nat.zero_le _) (fits_check call) trivial
      rfl (.property (.inr hk) (c := .nil) trivial call)
  unfold setProperty
  refine .ite (fun _ => .returning fun t _ => hcall _ t) fun _ => .ite (fun _ => ?_) fun _ =>
    .returning fun t _ => hcall _ t
  refine Writes.bind (writes_actionValue hinner "value" "any" hn hs) fun value t₁ c₁ h₁ hc₁ => ?_
  refine .returning fun t₂ h₂ => ?_
  exact IsAction.of_computes (hc₁.2.mono h₂ fun _ _ => Nat.le_refl _)
    (fun k _ => weight_filter_le _ _ k) (fits_check _) trivial rfl
    (.property (.inr hk) hc₁.2.surface _)

theorem writes_plugin (hinner : WritesInner z level inner inner') {n : Node}
    (hk : n.kind = .plugin) (hn : ∀ c ∈ n.children, z.Holds level c)
    (hs : level ≤ s.sequence) :
    Writes (plugin inner n) (plugin inner' n) s fun _ t c => IsAction z level n t c := by
  unfold plugin
  refine Writes.bind (writes_pluginEntries hinner n.head.attributes hs)
    fun entries t₁ c₁ h₁ hc₁ => ?_
  refine Writes.bind (writes_pluginParams hinner "nil" hn (Nat.le_trans hs h₁.sequence))
    fun ps t₂ c₂ h₂ hc₂ => ?_
  refine .openBlock_bind (.control "if err := rt.WritePlugin(pc, rt.Plugin\x7b") rfl fun t₃ h₃ => ?_
  refine .emit_bind (.control _) rfl fun t₄ h₄ => .emit_bind (.control _) rfl fun t₅ h₅ => ?_
  refine .emit_bind (.control _) rfl fun t₆ h₆ => .outdent_bind fun t₇ h₇ => ?_
  refine .returning fun t₈ h₈ => ?_
  have hlater := ((((h₃.trans h₄).trans h₅).trans h₆).trans h₇).trans h₈
  have hc := (hc₁.2.mono h₂ fun _ _ => Nat.le_refl _).append hc₂.2
  rw [← Code.append_assoc]
  refine IsAction.of_computes (hc.mono hlater fun _ _ => Nat.le_refl _)
    (fun k _ => by omega) ?_ trivial rfl ?_
  · have hif : ∀ rest : Bytes, z.IsOwn level (.control ("if " ++ rest)) :=
      Site.own_control (by decide)
    have hattrs : ∀ rest : Bytes, z.IsOwn level (.control ("Attrs: " ++ rest)) :=
      Site.own_control (by decide)
    have hparams : ∀ rest : Bytes, z.IsOwn level (.control ("Params: " ++ rest)) :=
      Site.own_control (by decide)
    have hfallback : ∀ rest : Bytes, z.IsOwn level (.control ("Fallback: " ++ rest)) :=
      Site.own_control (by decide)
    have hclose : Fits z level t₈ (Code.returning "\x7d); err != nil \x7b") :=
      fits_returning (Site.own_control (w := "\x7d") (by decide) "); err != nil \x7b")
    have hopen := hif "err := rt.WritePlugin(pc, rt.Plugin\x7b"
    exact fits_line.mpr ⟨hopen, fits_indent.mpr (fits_line.mpr ⟨hattrs _, fits_line.mpr
      ⟨hparams _, fits_line.mpr ⟨hfallback _, fits_outdent.mpr hclose⟩⟩⟩)⟩
  · exact .applet hk hc.surface _ ps _

/-- Makes a bean that is declared. -/
def makeBean (inner : Body) (n : Node) (type value : Bytes) : Gen Unit := do
  let id := n.head.attrValue "id"
  let hasBody := !n.hasEmptyBody
  let v ← temporary
  let created : Bytes := if hasBody then v ++ "_created" else "_"
  openBlock "\x7b"
  emit (v ++ ", " ++ created ++ ", err := rt.UseBean[" ++ type ++ "](pc, " ++ Quoted.string id ++
    ", " ++ Quoted.string (orElse (n.head.attrValue "scope") "page") ++ ", " ++ value ++ ")")
  checkErr
  emit (id ++ " = " ++ v)
  if hasBody then
    openBlock ("if " ++ created ++ " \x7b")
    inBlock (inner n.content)
    closeBlock "\x7d"
  closeBlock "\x7d"

/-- The code that makes a bean in a unit. -/
structure MakesBean (z : Site) (level : Nat) (n : Node) (t : State) (c : Code) : Prop where
  code : ∃ i created call body, c = beanCode n i created call body
  fits : Fits z level t c
  within : c.Within (weight n.content)

theorem MakesBean.congr {n : Node} {t : State} {c d : Code} (h : MakesBean z level n t c)
    (hd : d = c) : MakesBean z level n t d := hd ▸ h

theorem writes_makeBean (hinner : WritesInner z level inner inner') {n : Node} (type value : Bytes)
    (hid : z.Names (n.head.attrValue "id")) (hn : ∀ c ∈ n.children, z.Holds level c)
    (hs : level ≤ s.sequence) :
    Writes (makeBean inner n type value) (makeBean inner' n type value) s fun _ t c =>
      MakesBean z level n t c := by
  unfold makeBean
  refine Writes.bind writes_temporary ?_
  rintro _ t₁ _ h₁ ⟨⟨i, rfl⟩, rfl⟩
  let created : Bytes := if !n.hasEmptyBody then "_v" ++ Bytes.ofNat i ++ "_created" else "_"
  have hcreated : Introduced z.Names level created := by
    simp only [created]
    split
    · exact .created i
    · exact .blank
  refine .openBlock_bind (.control "\x7b") rfl fun t₂ h₂ => ?_
  let call : Bytes := "rt.UseBean[" ++ (type ++ ("](pc, " ++ (Quoted.string
    (n.head.attrValue "id") ++ (", " ++ (Quoted.string (orElse (n.head.attrValue "scope") "page") ++
      (", " ++ (value ++ ")")))))))
  refine .emit_bind (.define ["_v" ++ Bytes.ofNat i, created, "err"] call) ?_ fun t₃ h₃ => ?_
  · simp [Statement.text, Statement.defines, Statement.listed, created, call]
    rfl
  refine .returning_bind fun t₄ h₄ => ?_
  refine .emit_bind (.assign [n.head.attrValue "id"] ("_v" ++ Bytes.ofNat i)) ?_ fun t₅ h₅ => ?_
  · simp [Statement.text, Statement.assigns, Statement.listed]
  have hlater := ((((h₁.trans h₂).trans h₃).trans h₄).trans h₅)
  -- Whatever the body is, the code around it is the same.
  have hbean : ∀ u body, Fits z level u body → body.Within (weight n.content) →
      MakesBean z level n u (beanCode n i created call body) := by
    intro u body hbody hwithin
    refine ⟨⟨i, created, call, body, rfl⟩, ?_, ?_⟩
    · refine fits_block (Site.own_control (w := "\x7b") (by decide) [])
        (Site.own_control (w := "\x7d") (by decide) []) ?_
      refine fits_line.mpr ⟨Site.own_define ?_ call, fits_append.mpr ⟨fits_checkErr, ?_⟩⟩
      · intro x hx
        simp only [List.mem_cons, List.not_mem_nil, or_false] at hx
        rcases hx with rfl | rfl | rfl
        · exact .temporary i
        · exact hcreated
        · exact .error
      · refine fits_line.mpr ⟨Site.own_assign ?_ _, hbody⟩
        intro x hx
        obtain rfl := List.mem_singleton.mp hx
        exact .page hid
    · simpa [Code.Within, beanCode, Code.nodes] using hwithin
  refine .ite (fun _ => ?_) fun _ => ?_
  · refine .openBlock_bind (.control ("if " ++ created ++ " \x7b")) rfl fun t₆ h₆ => ?_
    have hbody : Writes (inBlock (inner n.content)) (inBlock (inner' n.content)) t₆ fun _ u c =>
        IsBody z level (weight n.content) u c := by
      refine IsBody.inBlock fun t ht => hinner n.content (fun c hc => ?_) t ?_
      · exact .inl (holds_contentOf hn c hc)
      · exact Nat.le_trans hs ((hlater.trans h₆).trans ht).sequence
    refine Writes.bind hbody fun _ t₇ c h₇ hc => .closeBlock_bind fun t₈ h₈ => ?_
    refine .closeBlock fun t₉ h₉ => ?_
    have hcu := hc.mono (h₈.trans h₉) fun _ _ => Nat.le_refl _
    have hblock :
        Fits z level t₉ (Code.block (.control ("if " ++ (created ++ " \x7b"))) c "\x7d") :=
      fits_block (Site.own_control (by decide) (created ++ " \x7b"))
        (Site.own_control (w := "\x7d") (by decide) []) hcu.fits
    refine (hbean t₉ _ hblock (by simpa [Code.Within] using hcu.within)).congr ?_
    simp [beanCode, Code.block, Code.checkErr]
  · refine .closeBlock fun t₆ h₆ => ?_
    refine (hbean t₆ .nil fits_nil (Code.within_of_nodes rfl)).congr ?_
    simp [beanCode, Code.block, Code.checkErr]

theorem writes_useBean (hinner : WritesInner z level inner inner') {n : Node}
    (hk : n.kind = .useBean) (hid : z.Names (n.head.attrValue "id"))
    (hn : ∀ c ∈ n.children, z.Holds level c) (hs : level ≤ s.sequence) :
    Writes (useBean inner n) (useBean inner' n) s fun _ t c => IsAction z level n t c := by
  let id := n.head.attrValue "id"
  let type := orElse (n.head.attrValue "type") ("*" ++ n.head.attrValue "class")
  have hidName : Introduced z.Names level id := .page hid
  have hweight : ∀ k, weight (n.children.filter (·.givesAttribute "beanName")) k +
      weight n.content k ≤ weight n.children k := by
    intro k
    refine Nat.le_trans (Nat.add_le_add_left (weight_contentOf_le n.children k) _)
      (weight_filter_add_le (fun c hc => ?_) n.children k)
    simp only [Node.givesAttribute, Bool.and_eq_true, beq_iff_eq] at hc
    rw [hc.1]
    rfl
  -- The bean is made after its constructor is computed and, if it is new, its declaration.
  have hcode : ∀ {t u : State} {c d : Code} (isNew : Bool), t.Later u →
      Computes z level (weight (n.children.filter (·.givesAttribute "beanName"))) t c →
      MakesBean z level n u d → IsAction z level n u (c ++ (Code.lines (if isNew then
        [.declare id type, .use id] else []) ++ d)) := by
    rintro t u c d isNew htu hc ⟨⟨i, created, call, body, rfl⟩, hfits, hwithin⟩
    have hcu := hc.mono htu fun _ _ => Nat.le_refl _
    have hdeclare : ∀ s ∈ (if isNew then
        [.declare id type, .use id] else [] : List Statement), z.IsOwn level s := by
      intro s hs
      cases isNew with
      | false => exact absurd hs List.not_mem_nil
      | true =>
        simp only [if_true, List.mem_cons, List.not_mem_nil, or_false] at hs
        rcases hs with rfl | rfl
        · exact ⟨trivial, fun x hx => List.mem_singleton.mp hx ▸ hidName, nofun⟩
        · exact ⟨trivial, nofun, nofun⟩
    refine ⟨?_, ?_, ?_, ?_⟩
    · exact fits_append.mpr ⟨hcu.fits, fits_append.mpr ⟨fits_lines.mpr hdeclare, hfits⟩⟩
    · refine hcu.leads.append ?_
      cases isNew <;> trivial
    · intro k hk
      have h1 := hcu.within k hk
      have h2 := hwithin k hk
      have h3 := hweight k
      simp only [Code.nodes_append, Code.nodes_lines, List.nil_append, List.count_append]
      omega
    · exact .bean hk hcu.surface i type call created isNew body
  unfold useBean
  refine Writes.bind (writes_constructor hinner _ hn hs) fun value t₁ c₁ h₁ hc₁ => .get ?_
  refine .ite (fun _ => ?_) fun _ => ?_
  · refine .emit_bind (.declare id type) ?_ fun t₂ h₂ => ?_
    · simp [Statement.text, id, type]
    refine .emit_bind (.use id) rfl fun t₃ h₃ => ?_
    refine Writes.bind (Q := fun _ u c => t₃.Later u ∧ c = .nil) (.modify ?_ rfl ⟨?_, rfl⟩) ?_
    · exact t₃.later_withBlocks _
    · exact t₃.later_withBlocks _
    · rintro _ t₄ _ - ⟨h₄, rfl⟩
      have hlater := (h₂.trans h₃).trans h₄
      refine (writes_makeBean hinner type value hid hn
        (Nat.le_trans hs (h₁.trans hlater).sequence)).mono fun _ t₅ d h₅ hd => ?_
      exact hcode true (hlater.trans h₅) hc₁.2 hd
  · refine (writes_makeBean hinner type value hid hn (Nat.le_trans hs h₁.sequence)).mono
      fun _ t₂ d h₂ hd => ?_
    exact hcode false h₂ hc₁.2 hd

theorem writes_invoke {n : Node} (hk : n.kind = .invokeAction ∨ n.kind = .doBodyAction) :
    Writes (invoke z.env n) (invoke z.env n) s fun _ t c => IsAction z level n t c := by
  have hcode : ∀ (isTag : Bool) (call : Bytes) (t : State), IsAction z level n t
      (Code.lines (if isTag then [.call z.env.receiver "syncBegin(pc)"] else []) ++
        Code.check call) := by
    intro isTag call t
    refine ⟨?_, ?_, Code.within_of_nodes ?_, .invoke hk isTag call⟩
    · refine fits_append.mpr ⟨fits_lines.mpr fun l hl => ?_, fits_check call⟩
      cases isTag with
      | false => exact absurd hl List.not_mem_nil
      | true =>
        obtain rfl := List.mem_singleton.mp hl
        exact Site.own_call (space_not_mem_receiver z.env) _
    · cases isTag <;> trivial
    · cases isTag <;> rfl
  unfold invoke
  split
  · exact .throw _ _
  · dsimp only
    refine .ite (fun _ => ?_) fun _ => ?_
    · refine .emit_bind (.call z.env.receiver "syncBegin(pc)") ?_ fun t₁ h₁ => ?_
      · simp [Statement.text]
        rfl
      exact .returning fun t₂ h₂ => hcode true _ t₂
    · exact .returning fun t₁ h₁ => hcode false _ t₁

/-- The kinds of standard actions that code is generated for. -/
def actionKinds : List Kind := [.includeAction, .forwardAction, .useBean, .getProperty,
  .setProperty, .plugin, .invokeAction, .doBodyAction]

/-- The code of a standard action is one part of its node. -/
theorem writes_action (hinner : WritesInner z level inner inner') {n : Node} (hn : z.Holds level n)
    (hkind : n.kind ∈ actionKinds) (hcode : ∀ t c, IsActionCode z.env n c → IsCodeOf z.env t n c)
    (hs : level ≤ s.sequence) :
    Writes (action z.env inner n) (action z.env inner' n) s fun _ t c =>
      IsBody z level (fun k => n.numbers.count k) t c := by
  have hk : n.kind ≠ .customTag := fun h => absurd (h ▸ hkind) (by decide)
  have hchildren : ∀ c ∈ n.children, z.Holds level c := fun c hc => hn.child_of_ne hk hc
  refine .marking (P := fun _ t c => IsAction z level n t c) n.head.number ?_ fun u t c hut hc => ?_
  · have hbegun : level ≤ (s.begun n.head.number).sequence := hs
    split
    · next hk => exact writes_includeAction hinner hk hchildren hbegun
    · next hk => exact writes_forwardAction hinner hk hchildren hbegun
    · next hk =>
      have hid : z.Names (n.head.attrValue "id") := ⟨n, hn.mem, .inr ⟨hk, rfl⟩⟩
      exact writes_useBean hinner hk hid hchildren hbegun
    · next hk =>
      refine .returning fun t _ => ?_
      exact IsAction.of_computes (c := .nil) .nil (fun k _ => Nat.zero_le _) (fits_check _) trivial
        rfl (.property (.inl hk) (c := .nil) trivial _)
    · next hk => exact writes_setProperty hinner hk hchildren hbegun
    · next hk => exact writes_plugin hinner hk hchildren hbegun
    · next hinclude hforward hbean hget hset hplugin =>
      refine writes_invoke ?_
      simpa [actionKinds, eq_false hinclude, eq_false hforward, eq_false hbean, eq_false hget,
        eq_false hset, eq_false hplugin] using hkind
  · exact isBody_part (.inl hn) (hc.fits.mono hut) hc.leads hc.within (hcode t c hc.code)

end Actions

end ServerPages.Generation
