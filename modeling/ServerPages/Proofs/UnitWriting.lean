import ServerPages.Proofs.ActionWriting
import ServerPages.Proofs.TagWriting

/-!
# The code of the nodes of a unit

Every visit of a node writes code in which all parts belong to the node or to nodes below it. By
induction on how deep nodes nest this is so for whole bodies.

The generator visits nodes inside others. To say something of all visits of a run, `watched` is a
generator that does the same and gives up after a visit which is not as it should be: that all
visits are as they should be means that it never gives up where the generator succeeds
(`EveryVisit`).

## Main results

* `writes_visit`: the code of a node.
* `writes_body`: the code of nodes one after the other, and what holds of all visits.
-/

namespace ServerPages.Generation

/-! ### Nodes without nodes inside -/

section Leaves

variable {z : Site} {level : Nat} {s : State} {n : Node}

theorem writes_textConstant (piece : Bytes) :
    Writes (textConstant piece) (textConstant piece) s fun a t c =>
      IsArgument t.texts piece a ∧ c = .nil := by
  cases h : s.texts.findIdx? (· == piece) with
  | some i =>
    obtain ⟨hlt, hi, -⟩ := List.findIdx?_eq_some_iff_getElem.mp h
    have hfound : s.texts[i]? = some piece := by
      rw [List.getElem?_eq_getElem hlt, eq_of_beq hi]
    refine .modifyGet ?_ ?_ ?_ <;> simp only [h]
    · exact .refl s
    · exact ⟨.inr ⟨i, rfl, hfound⟩, trivial⟩
  | none =>
    refine .modifyGet ?_ ?_ ?_ <;> simp only [h]
    · exact ⟨Nat.le_refl _, List.prefix_append _ _, List.prefix_rfl⟩
    · rfl
    · exact ⟨.inr ⟨_, rfl, by simp⟩, trivial⟩

/-- The statement that writes a piece of text. -/
def writeCall (a : Bytes) : Statement := .call "pc" ("Out().WriteString(" ++ (a ++ ")"))

theorem writes_writeString (env : Env) (piece : Bytes) :
    Writes (writeString env piece) (writeString env piece) s fun _ t c =>
      ∃ a, IsArgument t.texts piece a ∧ c = .line (writeCall a) .nil := by
  have hend : ∀ (a : Bytes) (u : State), IsArgument u.texts piece a →
      Writes (emit ("pc.Out().WriteString(" ++ a ++ ")"))
        (emit ("pc.Out().WriteString(" ++ a ++ ")"))
        u fun _ t c => ∃ a, IsArgument t.texts piece a ∧ c = .line (writeCall a) .nil := by
    intro a u ha
    refine .emit (writeCall a) ?_ fun t ht => ⟨a, ha.mono ht.texts, rfl⟩
    simp [writeCall, Statement.text]
    rfl
  unfold writeString
  refine .ite (fun _ => ?_) fun _ => ?_
  · refine Writes.bind (writes_textConstant piece) ?_
    rintro a t _ - ⟨ha, rfl⟩
    exact hend a t ha
  · exact hend _ s (.inl rfl)

/-- Pieces of text are written one after the other. -/
theorem writes_pieces (env : Env) (pieces : List Bytes) :
    Writes (pieces.forM (writeString env)) (pieces.forM (writeString env)) s fun _ t c =>
      ∃ args, List.Forall₂ (IsArgument t.texts) pieces args ∧
        c = Code.lines (args.map writeCall) := by
  induction pieces generalizing s with
  | nil => exact .pure ⟨[], .nil, rfl⟩
  | cons piece pieces ih =>
    refine .forM_cons (Writes.bind (writes_writeString env piece) ?_)
    rintro _ t _ - ⟨a, ha, rfl⟩
    refine ih.mono ?_
    rintro _ u _ hu ⟨args, hargs, rfl⟩
    exact ⟨a :: args, .cons (ha.mono hu.texts) hargs, rfl⟩

theorem own_writeCall (a : Bytes) : z.IsOwn level (writeCall a) := Site.own_call (by decide) _

/-- Lines that are the code of a node make its part. -/
theorem isBody_lines (hn : z.Visits level n) {t u : State} (htu : t.Later u) {ss : List Statement}
    (hown : ∀ s ∈ ss, z.IsOwn level s) (hcode : IsCodeOf z.env t n (Code.lines ss)) :
    IsBody z level (fun k => n.numbers.count k) u (.part n.head.number (Code.lines ss) .nil) := by
  refine isBody_part hn (fits_lines.mpr hown) ?_ (Code.within_of_nodes (Code.nodes_lines ss))
    (hcode.mono htu)
  cases ss <;> trivial

/-- The code of literal text. -/
theorem writes_text (hn : z.Visits level n) (hk : n.kind = .text) :
    Writes (text z.env n.head.number n.text) (text z.env n.head.number n.text) s fun _ t c =>
      IsBody z level (fun k => n.numbers.count k) t c := by
  refine .ite (fun _ => .pure .nil) fun _ => ?_
  refine .marking n.head.number (writes_pieces z.env _) ?_
  rintro t u _ htu ⟨args, hargs, rfl⟩
  refine isBody_lines hn htu (fun s hs => ?_) ?_
  · obtain ⟨a, -, rfl⟩ := List.mem_map.mp hs
    exact own_writeCall a
  · unfold IsCodeOf
    rw [hk]
    exact ⟨args, hargs, rfl⟩

/-- The code of a scriptlet. -/
theorem writes_scriptlet (hn : z.Holds level n) (hk : n.kind = .scriptlet) :
    Writes (marking n.head.number (emitAll (scriptletLines n.text)))
      (marking n.head.number (emitAll (scriptletLines n.text))) s fun _ t c =>
      IsBody z level (fun k => n.numbers.count k) t c := by
  refine .marking n.head.number (P := fun _ _ c =>
    c = Code.lines ((scriptletLines n.text).map .page)) ?_ ?_
  · refine .emitAll _ ?_ fun _ _ => rfl
    rw [List.map_map]
    exact List.map_id _
  · rintro t u _ htu rfl
    refine isBody_lines (.inl hn) htu (fun s hs => ?_) ?_
    · obtain ⟨l, hl, rfl⟩ := List.mem_map.mp hs
      exact Site.own_page ⟨n, hn.mem, .inl ⟨hk, hl⟩⟩
    · unfold IsCodeOf
      rw [hk]

/-- The code of an expression of the page. -/
theorem writes_expression (hn : z.Visits level n) (hk : n.kind = .expression) :
    Writes (marking n.head.number (emit ("pc.Out().Print(" ++ n.text.trimSpace ++ ")")))
      (marking n.head.number (emit ("pc.Out().Print(" ++ n.text.trimSpace ++ ")"))) s fun _ t c =>
      IsBody z level (fun k => n.numbers.count k) t c := by
  let print : Statement := .call "pc" ("Out().Print(" ++ (n.text.trimSpace ++ ")"))
  refine .marking n.head.number (P := fun _ _ c => c = Code.lines [print]) ?_ ?_
  · refine .emit print ?_ fun _ _ => rfl
    simp [print, Statement.text]
    rfl
  · rintro t u _ htu rfl
    refine isBody_lines hn htu (fun s hs => ?_) ?_
    · obtain rfl := List.mem_singleton.mp hs
      exact Site.own_call (by decide) _
    · unfold IsCodeOf
      rw [hk]

/-- The code of an expression of the expression language. -/
theorem writes_elExpression (hn : z.Visits level n) (hk : n.kind = .elExpression) :
    Writes (marking n.head.number (expressionName n.text >>= fun e =>
        check ("rt.WriteEL(pc, " ++ e ++ ")")))
      (marking n.head.number (expressionName n.text >>= fun e =>
        check ("rt.WriteEL(pc, " ++ e ++ ")"))) s fun _ t c =>
      IsBody z level (fun k => n.numbers.count k) t c := by
  refine .marking n.head.number (P := fun _ t c => ∃ i, t.expressions[i]? = some n.text ∧
    c = Code.check ("rt.WriteEL(pc, " ++ ("_el" ++ Bytes.ofNat i) ++ ")")) ?_ ?_
  · refine Writes.bind (writes_expressionName n.text) ?_
    rintro _ t _ - ⟨⟨i, rfl, hi⟩, rfl⟩
    refine .returning fun u hu => ⟨i, ?_, rfl⟩
    obtain ⟨more, hmore⟩ := hu.expressions
    rw [← hmore, List.getElem?_append_left (List.getElem?_eq_some_iff.mp hi).1, hi]
  · rintro t u _ htu ⟨i, hi, rfl⟩
    refine isBody_part hn (fits_check _) trivial (Code.within_of_nodes rfl) ?_
    refine IsCodeOf.mono ?_ htu
    unfold IsCodeOf
    rw [hk]
    exact ⟨i, hi, rfl⟩

/-- The code of a declaration. -/
theorem writes_declaration (hn : z.Holds level n) (hk : n.kind = .declaration) :
    Writes (declaration n.head.number n.text) (declaration n.head.number n.text) s fun _ t c =>
      IsBody z level (fun k => n.numbers.count k) t c := by
  refine .declaration n.head.number n.text fun t _ => ?_
  have hown : ∀ l ∈ declarationLines n.text, z.IsOwn level (.page l) := fun l hl =>
    Site.own_page ⟨n, hn.mem, .inr ⟨hk, hl⟩⟩
  have hcode : IsCodeOf z.env t n (Code.lines ((declarationLines n.text).map .page)) := by
    unfold IsCodeOf
    rw [hk]
  refine ⟨⟨⟨hown, trivial⟩, ⟨?_, trivial⟩⟩, trivial, ?_⟩
  · intro _
    refine ⟨n, hn.mem, rfl, ?_, Code.within_of_nodes (Code.nodes_lines _), hcode⟩
    cases declarationLines n.text <;> trivial
  · intro k _
    simp [Code.nodes, Node.numbers_eq n, List.count_cons]

end Leaves

/-! ### Visits -/

section Visits

variable {z : Site} {level : Nat} {inner inner' : Body} {s : State} {n : Node}

/-- Nodes that stand for what is inside them. -/
theorem writes_children (hinner : WritesInner z level inner inner') (hn : z.Holds level n)
    (hk : n.kind ≠ .customTag) (hs : level ≤ s.sequence) :
    Writes (inner n.children) (inner' n.children) s fun _ t c =>
      IsBody z level (fun k => n.numbers.count k) t c := by
  refine (hinner n.children (fun c hc => .inl (hn.child_of_ne hk hc)) s hs).mono ?_
  exact fun _ t c _ hc => hc.mono (.refl t) fun k _ => weight_children_le n k

/-- The code of a node. -/
theorem writes_visit (hinner : ∀ level, WritesInner z level inner inner') (hn : z.Visits level n)
    (hs : level ≤ s.sequence) :
    Writes (visit z.env inner n) (visit z.env inner' n) s fun _ t c =>
      IsBody z level (fun k => n.numbers.count k) t c ∧
        (n.kind = .customTag → Opens z n s.place.blocks c) := by
  -- Only text and expressions are made up.
  have hholds : n.kind ∉ [Kind.text, .expression, .elExpression] → z.Holds level n := by
    intro hkind
    rcases hn with hn | hn
    · exact hn
    · rcases hn.kind with hk | hk | hk <;> rw [hk] at hkind <;> exact absurd hkind (by decide)
  have hplain : ∀ {x y : Gen Unit}, n.kind ≠ .customTag → Writes x y s (fun _ t c =>
      IsBody z level (fun k => n.numbers.count k) t c) → Writes x y s fun _ t c =>
        IsBody z level (fun k => n.numbers.count k) t c ∧
          (n.kind = .customTag → Opens z n s.place.blocks c) := fun hk h =>
    h.mono fun _ _ _ _ hc => ⟨hc, fun h => absurd h hk⟩
  have hne : ∀ {k k' : Kind}, n.kind = k → k ≠ k' → n.kind ≠ k' := fun hk h => hk ▸ h
  have hbelow : ∀ {k : Kind}, n.kind = k → k ∉ [Kind.text, .expression, .elExpression] →
      z.Holds level n := fun hk h => hholds (hk ▸ h)
  have hnone : ∀ {k : Kind}, n.kind = k → k ≠ .customTag → Writes (pure ()) (pure ()) s fun _ t c =>
      IsBody z level (fun k => n.numbers.count k) t c ∧
        (n.kind = .customTag → Opens z n s.place.blocks c) := fun hk h =>
    hplain (hne hk h) (.pure .nil)
  have hchildren : ∀ {k : Kind}, n.kind = k → k ∉ [Kind.text, .expression, .elExpression] →
      k ≠ .customTag → Writes (inner n.children) (inner' n.children) s fun _ t c =>
        IsBody z level (fun k => n.numbers.count k) t c ∧
          (n.kind = .customTag → Opens z n s.place.blocks c) := fun hk h htag =>
    hplain (hne hk htag) (writes_children (hinner level) (hbelow hk h) (hne hk htag) hs)
  unfold visit
  dsimp only
  split
  · exact .throw _ _
  · next hk => exact hplain (hne hk (by decide)) (writes_text hn hk)
  iterate 3
    · next hk => exact hchildren hk (by decide) (by decide)
  iterate 9
    · next hk => exact hnone hk (by decide)
  · next hk =>
    exact hplain (hne hk (by decide)) (writes_declaration (hbelow hk (by decide)) hk)
  · next hk => exact hplain (hne hk (by decide)) (writes_scriptlet (hbelow hk (by decide)) hk)
  · next hk => exact hplain (hne hk (by decide)) (writes_expression hn hk)
  · next hk => exact hplain (hne hk (by decide)) (writes_elExpression hn hk)
  · next hk =>
    refine (writes_customTag (hinner (level + 1)) (hbelow hk (by decide)) hk hs).mono ?_
    exact fun _ t c _ hc => ⟨hc.1, fun _ => hc.2⟩
  · next hroot htext _ _ _ _ _ _ _ _ _ _ _ _ hdeclaration hscriptlet hexpression hel htag =>
    have hkind : n.kind ∈ actionKinds := by
      cases hk : n.kind <;> first | decide | exact absurd hk ‹_›
    have hmade : n.kind ∉ [Kind.text, .expression, .elExpression] := by
      simp only [List.mem_cons, List.not_mem_nil, or_false, not_or]
      exact ⟨htext, hexpression, hel⟩
    refine hplain htag (writes_action (hinner level) (hholds hmade) hkind ?_ hs)
    intro t c hc
    unfold IsCodeOf
    split
    all_goals first | exact hc | contradiction

/-- Generates nodes, and gives up after a visit which is not as it should be. -/
noncomputable def watched (env : Env) (ok : Node → State → State → Prop) : Nat → Body
  | 0, _ => throw .crash
  | fuel + 1, ns => ns.forM fun n => do
    let s ← get
    visit env (watched env ok fuel) n
    let t ← get
    if @decide (ok n s t) (Classical.propDecidable _) then pure () else throw .crash

/-- What a visit that goes well tells of its node. -/
def Site.Visited (z : Site) (ok : Node → State → State → Prop) : Prop :=
  ∀ n level s t c, z.Visits level n → t.desk = c.replay s.desk →
    (n.kind = .customTag → Opens z n s.place.blocks c) → ok n s t

/-- Nodes are generated by visits that are as they should be. -/
theorem writes_body {ok : Node → State → State → Prop} (hok : z.Visited ok) (fuel level : Nat) :
    WritesInner z level (body z.env fuel) (watched z.env ok fuel) := by
  induction fuel generalizing level with
  | zero => exact fun ns _ s _ => .throw _ _
  | succ fuel ih =>
    have hvisit : ∀ n, z.Visits level n → ∀ s : State, level ≤ s.sequence →
        Writes (visit z.env (body z.env fuel) n) (do
          let s ← get
          visit z.env (watched z.env ok fuel) n
          let t ← get
          if @decide (ok n s t) (Classical.propDecidable _) then pure () else throw .crash) s
          fun _ t c => IsBody z level (fun k => n.numbers.count k) t c := by
      intro n hn s hs a t hrun
      obtain ⟨hwatched, hlater, c, hc, hbody, hopens⟩ := writes_visit ih hn hs a t hrun
      refine ⟨?_, hlater, c, hc, hbody⟩
      rw [bind_get, bind_ok hwatched, bind_get]
      have hgood : @decide (ok n s t) (Classical.propDecidable _) = true :=
        @decide_eq_true _ (Classical.propDecidable _) (hok n level s t c hn hc hopens)
      rw [if_pos hgood]
      rfl
    intro ns
    induction ns with
    | nil => exact fun _ s _ => .pure .nil
    | cons n ns ihs =>
      intro hns s hs
      refine .forM_cons (Writes.bind (hvisit n (hns n List.mem_cons_self) s hs)
        fun _ t c ht hc => ?_)
      refine (ihs (fun m hm => hns m (List.mem_cons_of_mem n hm)) t
        (Nat.le_trans hs ht.sequence)).mono fun _ u d hu hd => ?_
      refine ((hc.mono hu fun _ _ => Nat.le_refl _).append hd).mono (.refl u) fun k _ => ?_
      rw [weight_cons]

end Visits

/-! ### Units -/

section Units

variable {σ : Type} {library : Option (Bytes → σ → Except Fault TagLibrary × σ)}
  {options : ValidationOptions} {memory : σ} {root : Node}

/-- Generates the nodes of a unit from the state that generation starts with. -/
def unitBody (inner : Body) (ns : List Node) : Gen Unit := do
  indent
  inner ns

/-- All visits made in generating the nodes of a unit are as `ok` says: with a generator that gives
up after other visits it is generated as without. -/
def EveryVisit (options : Options) (root : Node) (ok : Node → State → State → Prop) : Prop :=
  ∀ u page, root.head.unit = some u → root.page? = some page →
    let env : Env := ⟨options, u.file, page⟩
    let tree := (root.numbered 1).1
    ∀ t, unitBody (body env tree.height) tree.children (start env) = .ok () t →
      unitBody (watched env ok tree.height) tree.children (start env) = .ok () t

/-- The nodes of a validated unit stand inside no tag, and belong to the unit. -/
theorem visits_validated (hroot : root.IsUnit)
    (hvalid : (root.validate library options memory).failure = none) (env : Env) :
    let tree := ((root.validate library options memory).tree.numbered 1).1
    ∀ n ∈ tree.children, Site.Visits ⟨env, tree⟩ 0 n := by
  intro tree n hn
  obtain ⟨hprepared, hkind⟩ := root.validate_isPrepared library options memory hroot hvalid
  have htree : Site.Holds ⟨env, tree⟩ 0 tree := ⟨tree.mem_subtree_self, hprepared.numbered 1⟩
  refine .inl (htree.child_of_ne ?_ hn)
  rw [show tree.kind = .root from (Node.kind_numbered 1 _).trans hkind]
  decide

/-- The code of the nodes of a validated unit. -/
theorem writes_unitBody (hroot : root.IsUnit)
    (hvalid : (root.validate library options memory).failure = none) (env : Env)
    {ok : Node → State → State → Prop} :
    let tree := ((root.validate library options memory).tree.numbered 1).1
    Site.Visited ⟨env, tree⟩ ok →
    Writes (unitBody (body env tree.height) tree.children)
      (unitBody (watched env ok tree.height) tree.children) (start env) fun _ t c =>
      ∃ d, c = .indent d ∧ IsBody ⟨env, tree⟩ 0 (weight tree.children) t d := by
  intro tree hok
  refine Writes.bind (Q := fun _ t c => (start env).Later t ∧ c = .indent .nil)
    (.indent fun t ht => ⟨ht, rfl⟩) ?_
  rintro _ t _ - ⟨-, rfl⟩
  refine (writes_body hok tree.height 0 tree.children (visits_validated hroot hvalid env) t
    (Nat.zero_le _)).mono ?_
  exact fun _ u d _ hd => ⟨d, rfl, hd⟩

end Units

end ServerPages.Generation
