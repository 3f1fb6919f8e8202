import ServerPages.Proofs.RestoredPlaces
import ServerPages.Proofs.UnitWriting
import ServerPages.Proofs.WrittenText

/-!
# Visits that restore their place

Whatever a visit of a node opens it closes again: lines are indented as before, the blocks and tags
around are those that were open, and a method or a fragment that was written in between has put the
place back. So every visit that succeeds restores its place.

A visit comes to the nodes that `Node.entered` lists. Every text that is reached in this way, and
that is written, has lines in the end. Which texts are looked for is left open by the parameter
`texts`, a property of their numbers.

## Main results

* `walks_visit`: a visit restores its place, and the texts it comes to have lines.
* `walks_body`, `walks_unitBody`: so do all visits in the generation of some nodes.
-/

namespace ServerPages.Generation

/-- Whether literal text is written. -/
def Env.Writes (env : Env) (s : Bytes) : Prop :=
  ¬(s == [] || (env.page.trimSpaces && s.trimSpace == [])) = true

/-- In the tree of a node nothing but text that is written has one of the numbers. -/
def HasOnlyTexts (env : Env) (texts : Nat → Prop) (n : Node) : Prop :=
  ∀ m ∈ n.subtree, texts m.head.number → m.kind = .text ∧ env.Writes m.text

section Visits

variable {env : Env} {texts : Nat → Prop} {i : Nat} {n : Node}

theorem HasOnlyTexts.inside (h0 : ¬texts 0) (hn : HasOnlyTexts env texts n) {m : Node}
    (hm : IsBelow n m) : HasOnlyTexts env texts m := by
  rcases hm with hm | hm
  · intro l hl
    refine hn l ?_
    rw [Node.subtree_eq]
    exact List.mem_cons_of_mem n (Node.mem_subtreeAll_trans hm hl)
  · rw [HasOnlyTexts, Node.subtree_eq, hm.children]
    refine List.forall_mem_singleton.mpr fun hk => ?_
    rw [hm.number] at hk
    exact absurd hk h0

theorem HasOnlyTexts.not_number (hn : HasOnlyTexts env texts n) (hk : n.kind ≠ .text) :
    ¬texts n.head.number := fun h => hk (hn n n.mem_subtree_self h).1

/-- Nested nodes are generated, and the texts among them have lines. -/
def WalksInner (env : Env) (texts : Nat → Prop) (inner inner' : Body) : Prop :=
  ∀ ns, (∀ n ∈ ns, HasOnlyTexts env texts n) → ∀ i, Walks texts i i (inner ns) (inner' ns) ns

variable {inner inner' : Body}

/-! ### Values -/

theorem walks_fragment {ns : List Node} (hx : ∀ i, Walks texts i i (inner ns) (inner' ns) ns) :
    Walks texts i i (fragment inner ns) (fragment inner' ns) ns := by
  refine .get fun s => .before (.modify (fun s hs => ⟨.refl _, hs.indent⟩) fun _ _ _ h => h)
    fun _ => ?_
  refine Walks.after (Walks.asFragment (j := 0) ?_ ?_) fun w => ?_
  · exact (hx _).after fun _ => (walks_emit _).before fun _ =>
      walks_outdent.before fun _ => walks_outdent
  · show 1 + 1 + _ ≠ 0
    omega
  · refine .before (.modify (fun s hs => ⟨.refl _, hs.indent⟩) fun s k _ hk => ?_)
      fun _ => .pure _
    exact Spans.get_splice_ne_zero hk _ _

theorem walks_capture (hx : ∀ i, Walks texts i i (inner n.children) (inner' n.children) n.children)
    (type : Bytes) : Walks texts i i (capture inner n type) (capture inner' n type) n.children := by
  refine walks_temporary.before fun v => (walks_openBlock _).before fun _ => ?_
  refine (hx _).inBlock.after fun _ => (walks_emit _).before fun _ =>
    (walks_closeBlock _).before fun _ => walks_checkErr.before fun _ => ?_
  refine .ite (fun _ => .pure _) fun _ => walks_temporary.before fun c => ?_
  exact (walks_emit _).before fun _ => walks_checkErr.before fun _ => .pure _

variable (h : WalksInner env texts inner inner')

include h

theorem walks_valueCode (handler : Bytes) (a : Attribute) (named : Option Node) (type : Bytes)
    (hnodes : ∀ m ∈ valueNodes a named, HasOnlyTexts env texts m) :
    Walks texts i i (valueCode inner handler a named type) (valueCode inner' handler a named type)
      (valueNodes a named) := by
  unfold valueNodes at hnodes
  unfold valueCode valueNodes
  split
  · next hf =>
    rw [if_pos hf] at hnodes
    exact (walks_fragment (h _ hnodes)).after fun _ => .pure _
  next hf =>
  rw [if_neg hf] at hnodes
  cases hk : a.kind with
  | literal =>
    cases literal type a.value a.position with
    | ok code => exact .pure _
    | error e => exact .throw e _
  | script => exact .pure _
  | el =>
    refine walks_temporary.before fun v => (walks_expressionName _).before fun _ => ?_
    exact (walks_emit _).before fun _ => walks_checkErr.before fun _ => .pure _
  | named =>
    rw [hk] at hnodes
    cases named with
    | some c => exact walks_capture (h _ hnodes) type
    | none => exact .throw _ _
  | unrecognized code => exact .throw _ _

variable (hinside : ∀ m, IsBelow n m → HasOnlyTexts env texts m)

include hinside

/-! ### Tags -/

theorem walks_passAttribute (handler : Bytes) (a : Attribute) :
    Walks texts i i (passAttribute inner handler n a) (passAttribute inner' handler n a)
      (attributeNodes n a) := by
  refine .ite (fun _ => .throw_bind _ _ _) fun _ => .branch (fun _ => .pure _) fun _ => ?_
  refine (walks_valueCode h handler a _ _ fun m hm => ?_).after fun value => ?_
  · exact hinside m (isBelow_of_mem_valueNodes (fun c => mem_children_of_bind) hm)
  · exact .ite (fun _ => walks_check _) fun _ => walks_emit _

theorem walks_passAttributes (handler : Bytes) :
    Walks texts i i (passAttributes inner handler n) (passAttributes inner' handler n)
      (n.head.attributes.flatMap (attributeNodes n)) :=
  .forM fun a _ => walks_passAttribute h hinside handler a

theorem walks_content : Walks texts i i (inner n.content) (inner' n.content) n.content :=
  h _ (fun m hm => hinside m (isBelow_of_mem_content hm)) i

omit h hinside in
theorem walks_assignNames (env : Env) (hd : Head) (t : CustomTag) (d : TagDescriptor) :
    Walks texts i i (assignNames env hd t d) (assignNames env hd t d) [] := by
  refine walks_nextNumber.before fun k => .get fun s => .ite (fun _ => ?_) fun _ => ?_
  · refine .before (.share (fun _ => rfl) fun _ => rfl) fun _ => (walks_qualified _ _).before
      fun _ => ?_
    exact .before (.share (fun _ => rfl) fun _ => rfl) fun _ => .pure _
  · exact .before (.share (fun _ => rfl) fun _ => rfl) fun _ => .pure _

omit h hinside in
theorem walks_declareVariables (t : CustomTag) :
    Walks texts i i (declareVariables t) (declareVariables t) [] := by
  refine .before (.mapM_nil fun v => ?_) fun _ => .pure _
  refine .ite (fun _ => .pure _) fun _ => .get fun s => ?_
  refine .ite (fun _ => .ite (fun _ => ?_) fun _ => .pure _) fun _ => ?_
  · refine .ite (fun _ => (walks_emit _).before fun _ => .pure _) fun _ => ?_
    exact (walks_emit _).before fun _ => (walks_declare _).before fun _ => .pure _
  · refine .ite (fun _ => ?_) fun _ => .pure _
    exact (walks_emit _).before fun _ => (walks_emit _).before fun _ =>
      (walks_declare _).before fun _ => .pure _

omit h hinside in
theorem walks_declareNested (t : CustomTag) :
    Walks texts i i (declareNested t) (declareNested t) [] := by
  refine .forM_nil fun v => .get fun s => .ite (fun _ => ?_) fun _ => walks_emit _
  exact (walks_emit _).before fun _ => (walks_emit _).before fun _ => walks_declare _

omit h hinside in
theorem walks_syncVariables (t : CustomTag) (scopes : List VariableScope) :
    Walks texts i i (syncVariables t scopes) (syncVariables t scopes) [] :=
  .forM_nil fun _ => walks_emit _

omit h hinside in
theorem walks_deferred (env : Env) (d : TagDescriptor) (names : HandlerNames) (buffered : Bool) :
    Walks texts i i (deferred env d names buffered) (deferred env d names buffered) [] := by
  refine (walks_openBlock _).before fun _ => .ite (fun _ => (walks_openBlock _).before fun _ =>
    (walks_emit _).before fun _ => (walks_closeBlock _).before fun _ => ?_) fun _ => ?_
  -- with or without a buffer, the rest is the same
  all_goals
    refine .ite (fun _ => ?_) fun _ => (walks_emit _).before fun _ => walks_closeBlock _
    exact (walks_openBlock _).before fun _ => (walks_emit _).before fun _ =>
      (walks_closeBlock _).before fun _ => (walks_emit _).before fun _ =>
      (walks_emit _).before fun _ => walks_closeBlock _

theorem walks_bodyRound (t : CustomTag) (names : HandlerNames) (repeated : Bool) :
    Walks texts i i (bodyRound inner t names repeated n) (bodyRound inner' t names repeated n)
      n.content := by
  refine (walks_declareNested t).before fun _ => (walks_syncVariables t _).before fun _ => ?_
  refine (walks_content h hinside).after fun _ => .ite (fun _ => ?_) fun _ => .pure _
  exact (walks_emit _).before fun _ => walks_checkErr.before fun _ =>
    (walks_openBlock _).before fun _ => (walks_emit _).before fun _ => walks_closeBlock _

theorem walks_classicBody (t : CustomTag) (names : HandlerNames) (plan : BodyPlan) :
    Walks texts i i (classicBody inner t names plan n) (classicBody inner' t names plan n)
      n.content := by
  refine (walks_openBlock _).before fun _ => .after (.inBlock ?_) fun _ => walks_closeBlock _
  refine .ite (fun _ => (walks_openBlock _).before fun _ => (walks_emit _).before fun _ =>
    (walks_emit _).before fun _ => (walks_check _).before fun _ =>
    (walks_closeBlock _).before fun _ => ?_) fun _ => ?_
  all_goals
    refine .ite (fun _ => (walks_openBlock _).before fun _ =>
      (walks_bodyRound h hinside t names true).inBlock.after fun _ =>
      (walks_closeBlock _).before fun _ => ?_)
      fun _ => (walks_bodyRound h hinside t names false).after fun _ => ?_
    all_goals
      refine .ite (fun _ => ?_) fun _ => .pure _
      exact (walks_openBlock _).before fun _ => (walks_emit _).before fun _ =>
        (walks_emit _).before fun _ => walks_closeBlock _

theorem walks_classicCalls (t : CustomTag) (names : HandlerNames) (plan : BodyPlan) :
    Walks texts i i (classicCalls inner t names plan n) (classicCalls inner' t names plan n)
      (if plan.evaluated then n.content else []) := by
  refine (walks_emit _).before fun _ => walks_checkErr.before fun _ => ?_
  refine (walks_syncVariables t _).before fun _ => .branch
    (fun _ => (walks_classicBody h hinside t names plan).after fun _ => ?_) fun _ => ?_
  all_goals
    refine (walks_emit _).before fun _ => walks_checkErr.before fun _ => ?_
    refine (walks_syncVariables t _).before fun _ => (walks_openBlock _).before fun _ => ?_
    exact (walks_emit _).before fun _ => (walks_closeBlock _).before fun _ => walks_emit _

theorem walks_classic (env : Env) (t : CustomTag) (d : TagDescriptor) (names : HandlerNames) :
    Walks texts i i (classic env inner t d names n) (classic env inner' t d names n)
      (invocationNodes d n) := by
  refine (walks_qualified _ _).before fun type => (walks_emit _).before fun _ => ?_
  refine (walks_emit _).before fun _ => walks_parentHandler.before fun _ => ?_
  refine (walks_emit _).before fun _ => .guard (walks_emit _) fun _ => ?_
  refine (walks_deferred _ _ _ _).before fun _ => ?_
  refine (walks_passAttributes h hinside _).bind fun _ => ?_
  exact (walks_classicCalls h hinside t names (bodyPlan d n)).insideTag _

theorem walks_simple (t : CustomTag) (d : TagDescriptor) (names : HandlerNames) :
    Walks texts i i (simple inner t d names n) (simple inner' t d names n)
      (invocationNodes d n) := by
  refine (walks_qualified _ _).before fun type => (walks_emit _).before fun _ => ?_
  refine (walks_emit _).before fun _ => walks_parentHandler.before fun _ => ?_
  refine (walks_emit _).before fun _ => (walks_passAttributes h hinside _).bind fun _ => ?_
  refine .branch (fun _ => (walks_fragment fun _ => walks_content h hinside).after fun _ =>
    (walks_emit _).before fun _ => ?_) fun _ => ?_
  all_goals
    exact (walks_check _).before fun _ => (walks_syncVariables t _).before fun _ => walks_emit _

theorem walks_invocation (env : Env) (t : CustomTag) (d : TagDescriptor) (names : HandlerNames) :
    Walks texts i i (invocation env inner t d names n) (invocation env inner' t d names n)
      (invocationNodes d n) :=
  .ite (fun _ => walks_classic h hinside env t d names) fun _ => walks_simple h hinside t d names

omit h hinside in
theorem walks_hoisted (env : Env) {node : Nat} (hnode : ¬texts node) {run run' : Gen Unit}
    {ns : List Node} (hrun : ∀ i, Walks texts i i run run' ns) :
    Walks texts i i (hoisted env node run) (hoisted env node run') ns := by
  refine walks_nextNumber.before fun k => walks_parentHandler.before fun _ => ?_
  refine (walks_check _).before fun _ => Walks.after (Walks.asMethod (j := 0) ?_ ?_) fun w => ?_
  · refine .marking hnode ((walks_openBlock _).before fun _ => ?_)
    exact (hrun _).after fun _ => walks_closeBlock _
  · exact Nat.one_ne_zero
  · refine .modify (fun s hs => ⟨.refl _, hs.indent⟩) fun s k _ hk => ?_
    exact Spans.get_splice_ne_zero hk _ _

omit h hinside in
theorem walks_inlined (t : CustomTag) {node : Nat} (hnode : ¬texts node) {run run' : Gen Unit}
    {ns : List Node} (hrun : ∀ i, Walks texts i i run run' ns) :
    Walks texts i i (inlined t node run) (inlined t node run') ns := by
  refine .marking hnode ((walks_declareVariables t).before fun saved => ?_)
  refine (walks_openBlock _).before fun _ => (hrun _).inBlock.after fun _ => ?_
  exact walks_outdent.before fun _ => (walks_returning _).before fun _ => walks_emitAll _

theorem walks_customTag (env : Env) (hnode : ¬texts n.head.number) :
    Walks texts i i (customTag env inner n) (customTag env inner' n) (tagNodes n) := by
  unfold customTag tagNodes Head.descriptor?
  dsimp only
  cases n.head.tag with
  | none => exact .throw _ _
  | some t =>
    dsimp only [Option.bind_some]
    cases t.descriptor with
    | none => exact .throw _ _
    | some d =>
      refine (walks_assignNames env _ t d).before fun names => .ite (fun _ => ?_) fun _ => ?_
      · exact walks_hoisted env hnode fun _ => walks_invocation h hinside env t d names
      · exact walks_inlined t hnode fun _ => walks_invocation h hinside env t d names

/-! ### Standard actions -/

theorem walks_actionValue (name type : Bytes) :
    Walks texts i i (actionValue inner n name type) (actionValue inner' n name type)
      (actionValueNodes n name) := by
  have hnodes : ∀ m ∈ actionValueNodes n name, HasOnlyTexts env texts m := fun m hm =>
    hinside m (isBelow_of_mem_actionValueNodes hm)
  unfold actionValueNodes at hnodes
  unfold actionValue actionValueNodes
  cases ha : n.head.attr? name with
  | some a =>
    rw [ha] at hnodes
    exact walks_valueCode h [] a none type hnodes
  | none =>
    rw [ha] at hnodes
    cases hc : n.children.find? (·.givesAttribute name) with
    | none => exact .pure _
    | some c =>
      rw [hc] at hnodes
      exact walks_valueCode h [] _ (some c) type hnodes

omit hinside in
theorem walks_paramEntries {ns : List Node}
    (hns : ∀ c ∈ ns, ∀ m, IsBelow c m → HasOnlyTexts env texts m) :
    Walks texts i i (paramEntries inner ns) (paramEntries inner' ns) (paramNodes ns) := by
  induction ns with
  | nil => exact .pure _
  | cons c ns ih =>
    have ih := ih fun k hk => hns k (List.mem_cons_of_mem _ hk)
    have hc := hns c List.mem_cons_self
    unfold paramEntries paramNodes
    cases hk : c.kind == .param with
    | false =>
      have hne : (c.kind != .param) = true := by rw [bne, hk]; rfl
      rw [if_pos hne, if_pos hne, List.filter_cons, hk, if_neg Bool.false_ne_true]
      exact ih
    | true =>
      have hne : ¬(c.kind != .param) = true := by rw [bne, hk]; exact Bool.false_ne_true
      rw [if_neg hne, if_neg hne, List.filter_cons, hk, if_pos rfl, List.flatMap_cons,
        List.append_assoc]
      refine (walks_actionValue h hc _ _).bind fun name => ?_
      refine (walks_actionValue h hc _ _).bind fun value => ?_
      exact ih.after fun _ => .pure _

omit hinside in
theorem walks_params {ns : List Node}
    (hns : ∀ c ∈ ns, ∀ m, IsBelow c m → HasOnlyTexts env texts m) :
    Walks texts i i (params inner ns) (params inner' ns) (paramNodes ns) :=
  (walks_paramEntries h hns).after fun _ => .pure _

theorem walks_useBean :
    Walks texts i i (useBean inner n) (useBean inner' n)
      ((if n.head.attrValue "beanName" != [] then actionValueNodes n "beanName" else []) ++
        if n.hasEmptyBody then [] else n.content) := by
  refine Walks.bind (j := i) ?_ fun constructor => .get fun s => ?_
  · refine .branch (fun _ => ?_) fun _ => ?_
    · exact (walks_actionValue h hinside _ _).after fun _ => .pure _
    · exact .ite (fun _ => .pure _) fun _ => .pure _
  refine .ite (fun _ => (walks_emit _).before fun _ => (walks_emit _).before fun _ =>
    (walks_declare _).before fun _ => ?_) fun _ => ?_
  all_goals
    refine walks_temporary.before fun v => (walks_openBlock _).before fun _ => ?_
    refine (walks_emit _).before fun _ => walks_checkErr.before fun _ => ?_
    refine (walks_emit _).before fun _ => ?_
    cases n.hasEmptyBody with
    | true => exact walks_closeBlock _
    | false =>
      refine (walks_openBlock _).before fun _ => (walks_content h hinside).inBlock.after fun _ => ?_
      exact (walks_closeBlock _).before fun _ => walks_closeBlock _

theorem walks_setProperty :
    Walks texts i i (setProperty inner n) (setProperty inner' n)
      (if n.head.attrValue "property" == "*" then []
      else if n.head.hasAttr "value" || n.children.any (·.givesAttribute "value") then
        actionValueNodes n "value"
      else []) := by
  refine .branch (fun _ => walks_check _) fun _ => .branch (fun _ => ?_) fun _ => ?_
  · exact (walks_actionValue h hinside _ _).after fun _ => walks_check _
  · exact walks_check _

omit hinside in
theorem walks_pluginEntries {as : List Attribute}
    (has : ∀ a ∈ as, ∀ m ∈ valueNodes a none, HasOnlyTexts env texts m) :
    Walks texts i i (pluginEntries inner as) (pluginEntries inner' as)
      (as.flatMap (valueNodes · none)) := by
  induction as with
  | nil => exact .pure _
  | cons a as ih =>
    refine (walks_valueCode h [] a none _ (has a List.mem_cons_self)).bind fun v => ?_
    exact (ih fun b hb => has b (List.mem_cons_of_mem a hb)).after fun _ => .pure _

omit hinside in
theorem walks_pluginParams {ns : List Node}
    (hns : ∀ c ∈ ns, ∀ m, IsBelow c m → HasOnlyTexts env texts m) (found : Bytes) :
    Walks texts i i (pluginParams inner found ns) (pluginParams inner' found ns)
      ((ns.filter (·.kind == .params)).flatMap fun c => paramNodes c.children) := by
  induction ns generalizing found with
  | nil => exact .pure _
  | cons c ns ih =>
    have ih := ih fun k hk => hns k (List.mem_cons_of_mem _ hk)
    have hc := hns c List.mem_cons_self
    unfold pluginParams
    rw [List.filter_cons]
    split
    · refine (walks_params h fun k hk m hm => ?_).bind fun _ => ih _
      exact hc m (hm.of_child hk)
    · exact ih found

theorem walks_action (hnode : ¬texts n.head.number) :
    Walks texts i i (action env inner n) (action env inner' n) (actionNodes n) := by
  have hchildren : ∀ c ∈ n.children, ∀ m, IsBelow c m → HasOnlyTexts env texts m :=
    fun c hc m hm => hinside m (hm.of_child hc)
  have hpage := walks_actionValue (i := i) h hinside "page" "string"
  have hinvoke : Walks texts i i (invoke env n) (invoke env n) [] := by
    unfold invoke
    cases env.page.tag with
    | none => exact .throw _ _
    | some tag => exact .guard (walks_emit _) fun _ => walks_check _
  refine .marking hnode ?_
  unfold actionNodes
  cases hk : n.kind with
  | includeAction =>
    exact hpage.bind fun _ => (walks_params h hchildren).after fun _ => walks_check _
  | forwardAction =>
    exact hpage.bind fun _ => (walks_params h hchildren).after fun _ =>
      (walks_check _).before fun _ => walks_emit _
  | useBean => exact walks_useBean h hinside
  | getProperty => exact walks_check _
  | setProperty => exact walks_setProperty h hinside
  | plugin =>
    refine (walks_pluginEntries h fun a _ m hm => ?_).bind fun entries => ?_
    · exact hinside m (isBelow_of_mem_valueNodes (fun c hc => by cases hc) hm)
    refine (walks_pluginParams h hchildren _).after fun params => ?_
    refine (walks_openBlock _).before fun _ => (walks_emit _).before fun _ => ?_
    refine (walks_emit _).before fun _ => (walks_emit _).before fun _ => ?_
    exact walks_outdent.before fun _ => walks_returning _
  | _ => exact hinvoke

omit h hinside in
theorem walks_writeString (env : Env) (piece : Bytes) :
    Walks texts i i (writeString env piece) (writeString env piece) [] := by
  refine .ite (fun _ => ?_) fun _ => ?_
  · exact (walks_textConstant piece).before fun _ => walks_emit _
  · exact Walks.before (.pure _) fun _ => walks_emit _

omit h hinside in
theorem walks_pieces (texts : Nat → Prop) (env : Env) (pieces : List Bytes) :
    Walks texts i i (pieces.forM (writeString env)) (pieces.forM (writeString env)) [] :=
  .forM_nil (walks_writeString env)

omit h hinside in
/-- Pieces of text take lines. -/
theorem line_lt_pieces {env : Env} {pieces : List Bytes} (hpieces : pieces ≠ []) {s t : State}
    {a : PUnit} (hs : s.place.Stands i) (hrun : pieces.forM (writeString env) s = .ok a t) :
    s.place.out.line < t.place.out.line := by
  obtain ⟨piece, rest, rfl⟩ := List.exists_cons_of_ne_nil hpieces
  obtain ⟨b, u, hpiece, hrest⟩ := bind_eq_ok (x := writeString env piece) hrun
  obtain ⟨code, ts, hwrite, -, -⟩ := writeString_eq env piece s
  have hline : s.place.out.line < u.place.out.line := by
    obtain ⟨-, rfl⟩ := EStateM.Result.ok.inj (hwrite.symm.trans hpiece)
    show s.place.out.line < s.place.out.line + 1 + _
    omega
  have hfirst : Walks (fun _ => False) i i (writeString env piece) (writeString env piece) [] :=
    walks_writeString env piece
  obtain ⟨-, hcontinues, hindent, -⟩ := hfirst s b u hs hpiece
  obtain ⟨-, hmore, -⟩ := walks_pieces (fun _ => False) env rest u a t
    (hcontinues.stands hs hindent) hrest
  exact Nat.lt_of_lt_of_le hline hmore.line

omit h hinside in
/-- Text that is written comes in pieces. -/
theorem textPieces_ne_nil {bytes : Bytes} (hwrites : env.Writes bytes) :
    textPieces env.chunkSize bytes ≠ [] := by
  intro hnil
  have hflat := flatten_textPieces env.chunkSize bytes
  rw [hnil] at hflat
  refine hwrites ?_
  rw [← hflat]
  rfl

omit h hinside in
/-- Pieces of text leave the spans of nodes alone. -/
theorem spans_pieces {env : Env} {pieces : List Bytes} {s t : State} {a : PUnit}
    (hrun : pieces.forM (writeString env) s = .ok a t) : t.spans = s.spans := by
  obtain ⟨_, out, ts, hall, -⟩ := forM_writeString env pieces s
  obtain ⟨-, rfl⟩ := EStateM.Result.ok.inj (hall.symm.trans hrun)
  rfl

omit h hinside in
/-- Only the text itself is come to where it is visited. -/
theorem eq_of_noted_text {k : Nat} (hk : n.kind = .text) (h : Noted [n] k) :
    k = n.head.number := by
  obtain ⟨m, hm, hkind, rfl⟩ := h
  rcases Reached.singleton_iff.mp hm with rfl | hm
  · rfl
  · have hnone : n.entered = [] := by rw [Node.entered, actionNodes, hk]
    rw [hnone] at hm
    exact absurd ⟨m, hm, hkind, rfl⟩ (not_noted_nil m.head.number)

omit h hinside in
/-- Marking the node whose pieces of text are written notes where the first of them stands. -/
theorem hasLines_marking_pieces {env : Env} {pieces : List Bytes} (hpieces : pieces ≠ [])
    {number k : Nat} {s t : State} {a : Unit} (hs : s.place.Stands i)
    (hrun : marking number (pieces.forM (writeString env)) s = .ok a t)
    (h : s.HasLines k ∨ k = number) : t.HasLines k := by
  obtain ⟨u, hpiecesRun, rfl⟩ := marking_eq_ok.mp hrun
  have hline : s.place.out.line < u.place.out.line :=
    line_lt_pieces (i := i) hpieces (s := s.begun number) ⟨hs.indent, hs.blocks, hs.line⟩ hpiecesRun
  have hspans : u.spans = s.spans.set number ⟨s.place.out.line, 0⟩ := spans_pieces hpiecesRun
  show ((u.place.out.finish number u.spans).get k).first ≠ 0
  rw [Spans.get_finish, hspans, Spans.get_set, Spans.get_set, if_pos rfl]
  split
  · have hne : u.place.out.line ≠ s.place.out.line := Nat.ne_of_gt hline
    rw [if_neg hne]
    exact hs.line
  · next hne => exact h.resolve_right hne

omit h hinside in
/-- Literal text that is written has lines. -/
theorem walks_text (hn : HasOnlyTexts env texts n) (hk : n.kind = .text) :
    Walks texts i i (text env n.head.number n.text) (text env n.head.number n.text) [n] := by
  intro s a t hs hrun
  by_cases hwrites : env.Writes n.text
  · have htext : text env n.head.number n.text = marking n.head.number
        ((textPieces env.chunkSize n.text).forM (writeString env)) := if_neg hwrites
    have hwalks : Walks (fun _ => False) i i (text env n.head.number n.text)
        (text env n.head.number n.text) [] := by
      rw [htext]
      exact (walks_pieces (fun _ => False) env _).marking id
    obtain ⟨hsame, hcontinues, hindent, -⟩ := hwalks s a t hs hrun
    rw [htext] at hrun
    exact ⟨hsame, hcontinues, hindent, fun k _ h =>
      hasLines_marking_pieces (textPieces_ne_nil hwrites) hs hrun
        (h.imp_right (eq_of_noted_text hk))⟩
  · have htext : text env n.head.number n.text = pure () := if_pos (not_not.mp hwrites)
    rw [htext] at hrun ⊢
    cases hrun
    refine ⟨rfl, .refl _, hs.indent, fun k htexts h => h.resolve_right fun h => ?_⟩
    rw [eq_of_noted_text hk h] at htexts
    exact hwrites (hn n n.mem_subtree_self htexts).2

/-! ### Visits -/

omit h hinside in
/-- A node that is no text comes to what it enters. -/
theorem Walks.of_entered {x y : Gen Unit} (hk : n.kind ≠ .text)
    (hx : Walks texts i i x y n.entered) : Walks texts i i x y [n] := by
  intro s a t hs hrun
  obtain ⟨hy, hcontinues, hindent, hlines⟩ := hx s a t hs hrun
  refine ⟨hy, hcontinues, hindent, fun k hk' h => hlines k hk' (h.imp_right ?_)⟩
  rintro ⟨m, hm, hkind, hnumber⟩
  rcases Reached.singleton_iff.mp hm with rfl | hm
  · exact absurd hkind hk
  · exact ⟨m, hm, hkind, hnumber⟩

omit h hinside in
theorem walks_declaration {node : Nat} (hnode : ¬texts node) (code : Bytes) :
    Walks texts i i (declaration node code) (declaration node code) [] := by
  refine .modify (fun s hs => ⟨.refl _, hs.indent⟩) fun s k hk h => ?_
  have hne : k ≠ node := fun h => hnode (h ▸ hk)
  show ((Writer.finish _ node (s.spans.set node _)).get k).first ≠ 0
  rwa [Spans.get_finish, if_neg hne, Spans.get_set, if_neg hne]

omit hinside in
/-- **A visit restores its place**, and the texts it comes to have lines. -/
theorem walks_visit (h0 : ¬texts 0) (hn : HasOnlyTexts env texts n) :
    Walks texts i i (visit env inner n) (visit env inner' n) [n] := by
  have hinside : ∀ m, IsBelow n m → HasOnlyTexts env texts m := fun m => hn.inside h0
  by_cases hk : n.kind = .text
  · have hvisit : ∀ inner : Body, visit env inner n = text env n.head.number n.text := by
      intro inner
      unfold visit
      dsimp only
      rw [show n.head.kind = .text from hk]
      rfl
    rw [hvisit, hvisit]
    exact walks_text hn hk
  have hnode := hn.not_number hk
  have hchildren : Walks texts i i (inner n.children) (inner' n.children) n.children :=
    h _ (fun m hm => hinside m (isBelow_of_mem_children hm)) i
  have haction := walks_action (i := i) h hinside hnode
  have htag := walks_customTag (i := i) h hinside env hnode
  refine .of_entered hk ?_
  unfold visit Node.entered
  dsimp only
  rw [show n.head.kind = n.kind from rfl]
  cases hkind : n.kind with
  | root => exact .throw _ _
  | text => exact absurd hkind hk
  | textAction | body | includeDirective => exact hchildren
  | customTag => exact htag
  | declaration =>
    rw [actionNodes, hkind]
    exact walks_declaration hnode _
  | scriptlet =>
    rw [actionNodes, hkind]
    exact (walks_emitAll _).marking hnode
  | expression =>
    rw [actionNodes, hkind]
    exact (walks_emit _).marking hnode
  | elExpression =>
    rw [actionNodes, hkind]
    exact .marking hnode ((walks_expressionName _).before fun _ => walks_check _)
  | includeAction | forwardAction | useBean | getProperty | setProperty | plugin | invokeAction
  | doBodyAction => exact haction
  | _ =>
    rw [actionNodes, hkind]
    exact .pure _

end Visits

/-- **All visits in the generation of nodes restore their places**, and the texts that are come to
have lines. -/
theorem walks_body {env : Env} {texts : Nat → Prop} (h0 : ¬texts 0)
    {ok : Node → State → State → Prop}
    (hok : ∀ n s t, s.place.blocks ≠ [] → s.place.Restored t.place → ok n s t) (fuel : Nat) :
    WalksInner env texts (body env fuel) (watched env ok fuel) := by
  induction fuel with
  | zero => exact fun ns _ i => .throw _ _
  | succ fuel ih =>
    intro ns hns i
    have hvisit : ∀ n ∈ ns, Walks texts i i (visit env (body env fuel) n) (do
        let s ← get
        visit env (watched env ok fuel) n
        let t ← get
        if @decide (ok n s t) (Classical.propDecidable _) then pure () else throw .crash) [n] := by
      intro n hn s a t hs hrun
      obtain ⟨hwatched, hcontinues, hindent, hlines⟩ := walks_visit ih h0 (hns n hn) s a t hs hrun
      refine ⟨?_, hcontinues, hindent, hlines⟩
      have hgood : @decide (ok n s t) (Classical.propDecidable _) = true :=
        @decide_eq_true _ (Classical.propDecidable _)
          (hok n s t hs.blocks ⟨hcontinues, hindent.trans hs.indent.symm⟩)
      rw [bind_get, bind_ok hwatched, bind_get, if_pos hgood]
      rfl
    have hall := Walks.forM hvisit
    rwa [List.flatMap_singleton' ns] at hall

/-- So do all visits in the generation of a unit. -/
theorem walks_unitBody {env : Env} {texts : Nat → Prop} (h0 : ¬texts 0)
    {ok : Node → State → State → Prop}
    (hok : ∀ n s t, s.place.blocks ≠ [] → s.place.Restored t.place → ok n s t) (fuel : Nat)
    {ns : List Node} (hns : ∀ n ∈ ns, HasOnlyTexts env texts n) {t : State}
    (hrun : unitBody (body env fuel) ns (start env) = .ok () t) :
    unitBody (watched env ok fuel) ns (start env) = .ok () t ∧
      ∀ k, texts k → Noted ns k → t.HasLines k := by
  have hwalks := walks_indent.before fun _ => walks_body h0 hok fuel ns hns (0 + 1)
  have hstands : (start env).place.Stands 0 := ⟨rfl, List.cons_ne_nil _ _, Nat.one_ne_zero⟩
  obtain ⟨hwatched, -, -, hlines⟩ := hwalks (start env) () t hstands hrun
  exact ⟨hwatched, fun k hk h => hlines k hk (.inr h)⟩

end ServerPages.Generation
