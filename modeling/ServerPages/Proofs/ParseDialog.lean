import ServerPages.Proofs.Dialog
import ServerPages.Proofs.ParseProgress

/-!
# Units are parsed by dialog

Both syntaxes hold a dialog with the surroundings. The proof follows the parsers: one lemma for each
of them, those of the content of elements and of included files by induction on the fuel.

## Main results

* `ParseRequest.parse_eq_run`: parsing a source is running its dialog.
* `ParseRequest.dialog_within`: every tag that is invoked in the tree was told of.
-/

namespace ServerPages.Parsing

variable {α β σ : Type} {k : Questions} {pre : Record → Prop}

/-- A parser after a problem does not matter. -/
theorem converses_refuse_bind {Q : Record → β → Prop} (issue : Issue) (p : Position) (m : Bytes)
    (f : (σ : Type) → Host σ → α → Parse σ β) :
    Converses k pre (fun σ host => refuse issue p m >>= f σ host) Q :=
  fun _ => ⟨.ended (.error (.at issue p m)), fun _ _ _ _ => rfl, fun _ _ => trivial⟩

theorem backsAll_nil_of (r : Record) (_ : pre r) : r.BacksAll [] := r.backsAll_nil

/-! ### Nodes of both syntaxes -/

section Construct

variable (b : Bool)

theorem converses_library (uri : Bytes) (p : Position) :
    Converses k pre (fun _ host => library ⟨host, b⟩ uri p)
      fun r l => r (.library uri (.ok l)) := by
  refine converses_askLibrary uri (fun a => ?_) (converses_refuse _ _ _)
  cases a with
  | ok l => exact Converses.pure fun _ hr => hr.2
  | error f => exact converses_refuse _ _ _

theorem converses_bindPrefix (prefixName uri : Bytes) (p : Position) :
    Converses k pre (fun _ host => bindPrefix ⟨host, b⟩ prefixName uri p) fun _ _ => True := by
  have hbind : Converses k pre (fun σ host => do
      let l ← library (σ := σ) ⟨host, b⟩ uri p
      modify fun s => { s with bindings := (prefixName, ⟨uri, l⟩) :: s.bindings })
      fun _ _ => True := by
    refine (converses_library b uri p).bind fun l q => ?_
    refine ⟨.ended (.ok ((), { q with bindings := (prefixName, ⟨uri, l⟩) :: q.bindings })),
      fun _ _ _ _ => rfl, fun r hr => ⟨?_, trivial⟩⟩
    exact List.forall_mem_cons.mpr ⟨hr.1.2, hr.2⟩
  unfold bindPrefix
  refine Converses.guard (converses_refuse _ _ _) fun _ => Converses.get fun q => ?_
  simp only [State.withMemory_bindings]
  have hfrom {x : Parser Unit} (hx : Converses k pre x fun _ _ => True) :=
    Converses.from q (hx.mono (fun _ hr => hr.1) fun _ _ _ h => h)
  refine hfrom ?_
  cases q.bindings.lookup prefixName with
  | none => exact hbind
  | some old => exact Converses.guard (converses_refuse _ _ _) fun _ => hbind

theorem converses_directiveHead (name : Bytes) (p : Position) (scriptless : Bool) :
    Converses k pre (fun _ _ => directiveHead name p scriptless) fun _ h => h.tag = none := by
  unfold directiveHead
  cases Kind.directive? name with
  | none => exact converses_refuse _ _ _
  | some kind => exact Converses.pure fun _ _ => rfl

theorem converses_actionHead (name : Bytes) (p : Position) (scriptless : Bool) :
    Converses k pre (fun _ _ => actionHead name p scriptless) fun _ h => h.tag = none := by
  unfold actionHead
  cases Kind.action? name with
  | none => exact converses_refuse _ _ _
  | some kind => exact Converses.pure fun _ _ => rfl

/-- The failure of an invocation whose tag file failed. -/
def dependencyFailure (path : Bytes) (p : Position) : Failure → Failure
  | .fault f =>
    if f.diagnostic?.isSome then .fault f
    else .at .dependencyFailed p ("tag file " ++ path ++ ": " ++ f.text)
  | e => e

theorem converses_tagDescriptor (l : TagLibrary) (uri prefixName name : Bytes) (p : Position)
    (hl : ∀ r, pre r → r (.library uri (.ok l))) :
    Converses k pre (fun _ host => tagDescriptor ⟨host, b⟩ l uri prefixName name p)
      fun r d => r.Gives l name d := by
  unfold tagDescriptor
  cases htag : l.tag? name with
  | some d => exact Converses.pure fun _ _ => .inl htag
  | none =>
    cases hfile : l.tagFile? name with
    | none => exact converses_refuse _ _ _
    | some path =>
      refine converses_askTag path (dependencyFailure path p)
        (fun r hr => ⟨uri, l, name, hl r hr, hfile⟩) (fun d => ?_) ?_ (converses_refuse _ _ _)
      · exact Converses.pure fun r hr => .inr ⟨htag, path, hfile, hr.2⟩
      · rintro (f | m | _) σ host
        · dsimp only [dependencyFailure]
          split <;> rfl
        · rfl
        · rfl

theorem converses_tagHead (l : TagLibrary) (uri prefixName name : Bytes) (p : Position)
    (scriptless : Bool) (hl : ∀ r, pre r → r (.library uri (.ok l))) :
    Converses k pre (fun _ host => tagHead ⟨host, b⟩ l uri prefixName name p scriptless)
      fun r h => ∀ t ∈ h.tag, r.Backs t := by
  refine (converses_tagDescriptor b l uri prefixName name p hl).bind fun d => ?_
  refine Converses.pure fun r hr t ht => ?_
  obtain rfl := Option.some.inj ht
  exact ⟨l, d, hl r hr.1, rfl, hr.2⟩

theorem converses_scriptingNode (kind : Kind) (code : Bytes) (p : Position) (scriptless : Bool) :
    Converses k pre (fun _ _ => scriptingNode kind code p scriptless) fun _ n => n.tags = [] :=
  Converses.ite (converses_refuse _ _ _) (Converses.pure fun _ _ => rfl)

theorem converses_elNode (uriOf : Bytes → Bytes) (source : Bytes) (p : Position)
    (scriptless : Bool) :
    Converses k pre (fun _ _ => elNode uriOf source p scriptless) fun _ n => n.tags = [] := by
  unfold elNode
  cases Expression.ofText source with
  | error e => exact converses_refuse _ _ _
  | ok e => exact Converses.pure fun _ _ => rfl

theorem converses_segmentNodes (uriOf : Bytes → Bytes) (s : Bytes) (p : Position)
    (scriptless : Bool) (segs : List Expression.Segment) {siblings : List Node}
    (hs : ∀ r, pre r → r.BacksAll siblings) :
    Converses k pre (fun _ _ => segmentNodes uriOf s p scriptless siblings segs)
      Record.BacksAll := by
  induction segs generalizing siblings pre with
  | nil => exact Converses.pure hs
  | cons seg segs ih =>
    refine Converses.ite ?_ (ih fun r hr => (hs r hr).pushLeaf rfl)
    refine (converses_elNode _ _ _ _).bind fun n => ?_
    exact ih fun r hr => (hs r hr.1).pushLeaf hr.2

theorem converses_textNodes (uriOf : Bytes → Bytes) {siblings : List Node}
    (hs : ∀ r, pre r → r.BacksAll siblings) (s : Bytes) (p : Position) (scriptless allowEl : Bool) :
    Converses k pre (fun _ _ => textNodes uriOf siblings s p scriptless allowEl)
      Record.BacksAll := by
  have htext (q : State Unit) (t : Bytes) (r : Record) (hr : pre r ∧ q.IsTold r) :
      r.BacksAll (Node.push siblings (textNode t p scriptless)) := (hs r hr.1).pushLeaf rfl
  refine Converses.ite (Converses.pure hs) (Converses.get fun q => ?_)
  dsimp +instances only [State.withMemory_elIgnored]
  refine Converses.from q ?_
  refine Converses.ite (Converses.pure (htext q _)) ?_
  refine Converses.ite (Converses.pure (htext q _)) ?_
  cases Expression.scan s with
  | error e => exact converses_refuse _ _ _
  | ok segs => exact converses_segmentNodes _ _ _ _ _ fun r hr => hs r hr.1

theorem converses_attributeOf (functionUri : Bytes → Bytes) (h : Head) (a : Attribute)
    (raw : Bytes) (script scriptless : Bool) :
    Converses k pre (fun _ _ => attributeOf functionUri h a raw script scriptless)
      fun _ _ => True := by
  refine Converses.get fun q => ?_
  dsimp +instances only [State.withMemory_elIgnored]
  refine Converses.from q ?_
  refine Converses.ite (Converses.pure fun _ _ => trivial) ?_
  refine Converses.ite (Converses.guard (converses_refuse _ _ _) fun _ => ?_) ?_
  · exact Converses.pure fun _ _ => trivial
  refine Converses.ite ?_ (Converses.pure fun _ _ => trivial)
  cases Expression.ofText raw with
  | error e => exact converses_refuse _ _ _
  | ok e => exact Converses.pure fun _ _ => trivial

theorem tag_applyToNamed (h : Head) (a : Attribute) : (applyToNamed h a).tag = h.tag := by
  unfold applyToNamed
  split
  · rfl
  split
  · rfl
  split <;> rfl

theorem converses_addAttribute (functionUri : Bytes → Bytes) (uriOf : Option (Bytes → Bytes))
    (h : Head) (name raw : Bytes) (script : Bool) (p : Position) (scriptless : Bool) :
    Converses k pre
      (fun _ _ => addAttribute functionUri uriOf h name raw script p scriptless)
      fun _ h' => h'.tag = h.tag := by
  unfold addAttribute
  refine Converses.guard (converses_refuse _ _ _) fun _ => ?_
  refine Converses.guard (converses_refuse _ _ _) fun _ => ?_
  refine (converses_attributeOf _ _ _ _ _ _).skip fun a => Converses.pure fun _ _ => ?_
  exact tag_applyToNamed _ _

theorem converses_applyElIgnored (h : Head) :
    Converses k pre (fun _ _ => applyElIgnored h) fun _ _ => True := by
  unfold applyElIgnored
  cases h.attr? "isELIgnored" with
  | none => exact Converses.pure fun _ _ => trivial
  | some a =>
    exact converses_modify (fun p => { p with elIgnored := a.value == "true" })
      (fun _ _ _ => rfl) fun _ => rfl

theorem converses_applyTaglib (h : Head) :
    Converses k pre (fun _ host => applyTaglib ⟨host, b⟩ h) fun _ _ => True := by
  unfold applyTaglib
  refine Converses.guard (converses_refuse _ _ _) fun _ => ?_
  cases h.attr? "uri" <;> cases h.attr? "tagdir"
  · exact converses_refuse _ _ _
  · exact converses_bindPrefix b _ _ _
  · exact converses_bindPrefix b _ _ _
  · exact converses_refuse _ _ _

theorem converses_checkPlacement (parent h : Head) :
    Converses k pre (fun _ _ => checkPlacement parent h) fun _ _ => True :=
  Converses.ite (Converses.pure fun _ _ => trivial) (converses_refuse _ _ _)

theorem converses_checkNamedBody (h : Head) (children : List Node) :
    Converses k pre (fun _ _ => checkNamedBody h children) fun _ _ => True := by
  refine Converses.ite (Converses.pure fun _ _ => trivial) ?_
  cases children.find? fun c => c.kind != .namedAttribute && c.kind != .body && !c.isBlankText with
  | none => exact Converses.pure fun _ _ => trivial
  | some c => exact converses_refuse _ _ _

theorem converses_checkActionBody (h : Head) (children : List Node) :
    Converses k pre (fun _ _ => checkActionBody h children) fun _ _ => True := by
  unfold checkActionBody
  cases allowedChildren? h.kind with
  | none => exact converses_checkNamedBody h children
  | some allowed =>
    dsimp only
    cases children.find? fun c => !c.isBlankText && !allowed.contains c.kind with
    | none => exact Converses.pure fun _ _ => trivial
    | some c => exact Converses.ite (converses_refuse _ _ _) (converses_refuse _ _ _)

theorem converses_checkTagBody (h : Head) (children : List Node) :
    Converses k pre (fun _ _ => checkTagBody h children) fun _ _ => True := by
  refine (converses_checkNamedBody h children).skip fun _ => ?_
  exact Converses.ite (converses_refuse _ _ _) (Converses.pure fun _ _ => trivial)

theorem converses_bodyElementContent (parent : Head) (p : Position) :
    Converses k pre (fun _ _ => bodyElementContent parent p) fun _ _ => True := by
  unfold bodyElementContent
  refine Converses.guard (converses_refuse _ _ _) fun _ => ?_
  refine Converses.guard (converses_refuse _ _ _) fun _ => ?_
  exact Converses.pure fun _ _ => trivial

/-- A parser of sources that holds a dialog, whatever the source. -/
def ConversesSource (k : Questions) (parse : (σ : Type) → Host σ → SourceParser σ) : Prop :=
  ∀ (pre : Record → Prop) form parent scriptless,
    Converses k pre (fun σ host => parse σ host form parent scriptless) Record.BacksAll

theorem converses_includeFile {parse : (σ : Type) → Host σ → SourceParser σ}
    (hparse : ConversesSource k parse) (h : Head) (scriptless : Bool) :
    Converses k pre (fun σ host => includeFile ⟨host, b⟩ (parse σ host) h scriptless)
      Record.BacksAll := by
  unfold includeFile
  cases h.attr? "file" with
  | none => exact converses_refuse _ _ _
  | some file =>
    refine Converses.get fun q => ?_
    dsimp +instances only [State.withMemory_cursor, State.withMemory_files,
      State.withMemory_document, State.withMemory_passed]
    refine Converses.from q ?_
    refine Converses.guard (converses_refuse _ _ _) fun _ => ?_
    let target := includedPath (q.files.headD []) file.value
    refine converses_askFile target
      (fun f => .at .includeFailed h.start ("cannot include " ++ target ++ ": " ++ f.text))
      (fun text => ?_) (fun _ _ _ => rfl) (converses_refuse_bind _ _ _ _)
    simp only [pure_bind]
    cases q.cursor.open? (includedPath (q.files.headD []) file.value) text with
    | none => exact converses_refuse _ _ _
    | some inner =>
      refine (converses_modify
        (fun p => { p with cursor := inner, files := target :: p.files })
        (fun _ _ _ => rfl) fun _ => rfl).skip fun _ => ?_
      refine (hparse _ _ _ _).bind fun children => ?_
      refine (converses_modify (fun p => { p with
        cursor := { q.cursor with opened := p.cursor.opened }, files := q.files,
        document := q.document, passed := q.passed })
        (fun _ _ _ => rfl) fun _ => rfl).skip fun _ => ?_
      exact Converses.pure fun _ hr => hr.2

end Construct

/-- Includes that are read by dialog, whatever the directive. -/
def ConversesInclude (k : Questions)
    (included : (σ : Type) → Host σ → Head → Bool → Parse σ (List Node)) : Prop :=
  ∀ (pre : Record → Prop) h scriptless,
    Converses k pre (fun σ host => included σ host h scriptless) Record.BacksAll

/-- A directive or action with its children is added to what stands before it. -/
theorem converses_pushTagless {siblings : List Node} (hs : ∀ r, pre r → r.BacksAll siblings)
    (h h' : Head) (children : List Node) : Converses k
      (fun r => ((pre r ∧ h.tag = none) ∧ h'.tag = h.tag) ∧ r.BacksAll children)
      (fun _ _ => pure (Node.push siblings (.mk h' children))) Record.BacksAll :=
  Converses.pure fun r hr => (hs r hr.1.1.1).pushTagless (hr.1.2.trans hr.1.1.2) hr.2

/-! ### The native syntax -/

namespace Native

theorem converses_comment (p : Position) :
    Converses k pre (fun _ _ => comment p) fun _ _ => True := by
  refine Converses.cursor fun c => ?_
  cases c.seek? "--%>" with
  | none => exact converses_refuse _ _ _
  | some found => exact converses_moveTo _

theorem converses_scripting (kind : Kind) (opener : Bytes) (p : Position) (scriptless : Bool)
    {siblings : List Node} (hs : ∀ r, pre r → r.BacksAll siblings) :
    Converses k pre (fun _ _ => scripting kind opener p scriptless siblings)
      Record.BacksAll := by
  refine Converses.cursor fun c => ?_
  cases c.seek? "%>" with
  | none => exact converses_refuse _ _ _
  | some found =>
    refine (converses_moveTo _).skip fun _ => ?_
    refine (converses_scriptingNode _ _ _ _).bind fun n => ?_
    exact Converses.pure fun r hr => (hs r hr.1).pushLeaf hr.2

theorem converses_expression (scriptless : Bool) {siblings : List Node}
    (hs : ∀ r, pre r → r.BacksAll siblings) :
    Converses k pre (fun _ _ => expression scriptless siblings) Record.BacksAll := by
  refine Converses.get fun q => ?_
  dsimp +instances only [State.withMemory_cursor, State.withMemory_uriOf]
  refine Converses.from q ?_
  cases Expression.length? q.cursor.rest with
  | none => exact converses_refuse _ _ _
  | some n =>
    refine (converses_elNode _ _ _ _).bind fun e => (converses_moveTo _).skip fun _ => ?_
    exact Converses.pure fun r hr => (hs r hr.1.1).pushLeaf hr.2

theorem converses_templateText (scriptless : Bool) {siblings : List Node}
    (hs : ∀ r, pre r → r.BacksAll siblings) :
    Converses k pre (fun _ _ => templateText scriptless siblings) Record.BacksAll := by
  refine Converses.get fun q => ?_
  dsimp +instances only [State.withMemory_cursor, State.withMemory_elIgnored]
  refine Converses.from q ((converses_moveTo _).skip fun _ => ?_)
  exact Converses.pure fun r hr => (hs r hr.1).pushLeaf rfl

theorem converses_attributeValue (name : Bytes) (p : Position) :
    Converses k pre (fun _ _ => attributeValue name p) fun _ _ => True := by
  unfold attributeValue
  refine converses_skipBlanks.skip fun _ => (converses_accepts _).skip fun _ => ?_
  refine Converses.guard (converses_refuse _ _ _) fun _ => converses_skipBlanks.skip fun _ => ?_
  refine Converses.cursor fun c => ?_
  cases c.rest with
  | nil => exact converses_refuse _ _ _
  | cons quote rest =>
    refine Converses.guard (converses_refuse _ _ _) fun _ => ?_
    have hmove (after : Cursor) (v : Bytes × Bool) :
        Converses k pre (fun σ _ => (do moveTo after; return v : Parse σ (Bytes × Bool)))
          fun _ _ => True :=
      (converses_moveTo _).skip fun _ => Converses.pure fun _ _ => trivial
    dsimp only
    cases (c.skip 1).accept? "<%=" with
    | none =>
      dsimp only
      split
      · exact converses_refuse _ _ _
      · exact hmove _ _
    | some inner =>
      dsimp only
      cases inner.seekUnescaped? "%>" 92 with
      | none => exact converses_refuse_bind _ _ _ _
      | some found =>
        dsimp only
        cases found.2.accept? [quote] with
        | none =>
          dsimp only
          split
          · exact converses_refuse _ _ _
          · exact hmove _ _
        | some closed => exact hmove _ _

theorem converses_attributeName (place : Bytes) :
    Converses k pre (fun _ _ => attributeName place) fun _ _ => True := by
  unfold attributeName
  refine Converses.cursor fun c => converses_readName.skip fun name => ?_
  exact Converses.guard (converses_refuse _ _ _) fun _ => Converses.pure fun _ _ => trivial

theorem converses_attributesWithin (scriptless : Bool) (fuel : Nat) (h : Head) :
    Converses k pre (fun _ _ => attributesWithin scriptless fuel h)
      fun _ a => a.1.tag = h.tag := by
  induction fuel generalizing h pre with
  | zero => exact Converses.throw _
  | succ fuel ih =>
    unfold attributesWithin
    refine converses_skipBlanks.skip fun _ => (converses_accepts _).skip fun closed => ?_
    refine Converses.ite (Converses.pure fun _ _ => rfl) ?_
    refine (converses_accepts _).skip fun ended => ?_
    refine Converses.ite (Converses.pure fun _ _ => rfl) (Converses.cursor fun c => ?_)
    refine Converses.guard (converses_refuse _ _ _) fun _ => ?_
    refine (converses_attributeName _).skip fun a => ?_
    refine (converses_attributeValue _ _).skip fun v => ?_
    refine Converses.get fun q => ?_
    dsimp +instances only [State.withMemory_uriOf]
    refine Converses.from q ((converses_addAttribute _ _ _ _ _ _ _ _).bind fun h' => ?_)
    exact (ih h').mono (fun _ hr => hr) fun r a hr ha => ha.trans hr.2

theorem converses_attributes (h : Head) (scriptless : Bool) :
    Converses k pre (fun _ _ => attributes h scriptless) fun _ a => a.1.tag = h.tag :=
  Converses.cursor fun _ => converses_attributesWithin _ _ _

theorem converses_directiveAttributes (scriptless : Bool) (fuel : Nat) (h : Head) :
    Converses k pre (fun _ _ => directiveAttributes scriptless fuel h)
      fun _ h' => h'.tag = h.tag := by
  induction fuel generalizing h pre with
  | zero => exact Converses.throw _
  | succ fuel ih =>
    unfold directiveAttributes
    refine converses_skipBlanks.skip fun _ => (converses_accepts _).skip fun ended => ?_
    refine Converses.ite (Converses.pure fun _ _ => rfl) (Converses.cursor fun c => ?_)
    refine Converses.guard (converses_refuse _ _ _) fun _ => ?_
    refine (converses_attributeName _).skip fun a => ?_
    refine (converses_attributeValue _ _).skip fun v => ?_
    refine Converses.get fun q => ?_
    dsimp +instances only [State.withMemory_uriOf]
    refine Converses.from q ((converses_addAttribute _ _ _ _ _ _ _ _).bind fun h' => ?_)
    exact (ih h').mono (fun _ hr => hr) fun r a hr ha => ha.trans hr.2

theorem converses_directive (b : Bool) {included : (σ : Type) → Host σ → Include σ}
    (hincluded : ConversesInclude k included) (p : Position) (scriptless : Bool)
    {siblings : List Node} (hs : ∀ r, pre r → r.BacksAll siblings) :
    Converses k pre
      (fun σ host => directive ⟨host, b⟩ (included σ host) p scriptless siblings)
      Record.BacksAll := by
  unfold directive
  refine converses_skipBlanks.skip fun _ => converses_readName.skip fun name => ?_
  refine (converses_directiveHead _ _ _).bind fun h => Converses.cursor fun c => ?_
  refine (converses_directiveAttributes _ _ _).bind fun h' => ?_
  have hpush := converses_pushTagless (k := k) hs h h'
  have hempty := (hpush []).mono (fun r hr => ⟨hr, r.backsAll_nil⟩) fun _ _ _ h => h
  dsimp only
  split
  · exact (converses_applyTaglib b _).skip fun _ => hempty
  · exact (converses_applyElIgnored _).skip fun _ => hempty
  · exact (converses_applyElIgnored _).skip fun _ => hempty
  · exact (hincluded _ _ _).bind hpush
  · exact hempty

/-- Constructs inside an element are read by dialog, whatever stands before them. -/
def ConversesElement (k : Questions) (inner : (σ : Type) → Host σ → Element σ) : Prop :=
  ∀ (pre : Record → Prop) parent scriptless siblings, (∀ r, pre r → r.BacksAll siblings) →
    Converses k pre (fun σ host => inner σ host parent scriptless siblings) Record.BacksAll

section Bodies

variable {inner : (σ : Type) → Host σ → Element σ} (hinner : ConversesElement k inner)

include hinner in
theorem converses_bodyWithin (h : Head) (scriptless : Bool) (fuel : Nat) {cs : List Node}
    (hcs : ∀ r, pre r → r.BacksAll cs) :
    Converses k pre (fun σ host => bodyWithin (inner σ host) h scriptless fuel cs)
      Record.BacksAll := by
  induction fuel generalizing cs pre with
  | zero => exact Converses.throw _
  | succ fuel ih =>
    unfold bodyWithin
    refine (converses_acceptsEndTag _).skip fun _ => Converses.ite (Converses.pure hcs) ?_
    refine Converses.cursor fun c => Converses.guard (converses_refuse _ _ _) fun _ => ?_
    exact (hinner _ _ _ _ hcs).bind fun cs' => ih fun _ hr => hr.2

include hinner in
theorem converses_body (h : Head) (scriptless : Bool) :
    Converses k pre (fun σ host => body (inner σ host) h scriptless) Record.BacksAll :=
  Converses.cursor fun _ => converses_bodyWithin hinner _ _ _ backsAll_nil_of

theorem converses_opaqueBody (h : Head) (scriptless : Bool) :
    Converses k pre (fun _ _ => opaqueBody h scriptless) Record.BacksAll := by
  refine Converses.cursor fun c => ?_
  split
  · exact converses_refuse _ _ _
  refine (converses_moveTo _).skip fun _ => Converses.pure fun r _ => ?_
  split
  · exact r.backsAll_nil
  · exact r.backsAll_nil.pushLeaf rfl

include hinner in
theorem converses_restrictedWithin (h : Head) (scriptless : Bool) (allows : Bytes → Bool)
    (complaint : Bytes) (fuel : Nat) {cs : List Node} (hcs : ∀ r, pre r → r.BacksAll cs) :
    Converses k pre
      (fun σ host => restrictedWithin (inner σ host) h scriptless allows complaint fuel cs)
      Record.BacksAll := by
  induction fuel generalizing cs pre with
  | zero => exact Converses.throw _
  | succ fuel ih =>
    unfold restrictedWithin
    refine converses_skipBlanks.skip fun _ => Converses.cursor fun c => ?_
    refine (converses_acceptsEndTag _).skip fun _ => Converses.ite (Converses.pure hcs) ?_
    refine (converses_accepts _).skip fun _ => ?_
    refine Converses.ite ((converses_comment _).skip fun _ => ih hcs) (Converses.ite ?_ ?_)
    · exact (hinner _ _ _ _ hcs).bind fun cs' => ih fun _ hr => hr.2
    · exact Converses.ite (converses_refuse _ _ _) (converses_refuse _ _ _)

include hinner in
theorem converses_restrictedBody (h : Head) (scriptless : Bool) (allows : Bytes → Bool)
    (complaint : Bytes) :
    Converses k pre (fun σ host => restrictedBody (inner σ host) h scriptless allows complaint)
      Record.BacksAll :=
  Converses.cursor fun _ => converses_restrictedWithin hinner _ _ _ _ _ backsAll_nil_of

theorem converses_startsWithNamedAttribute :
    Converses k pre (fun _ _ => startsWithNamedAttribute) fun _ _ => True :=
  Converses.cursor fun _ => Converses.pure fun _ _ => trivial

include hinner in
theorem converses_emptyBody (h : Head) (scriptless : Bool) :
    Converses k pre (fun σ host => emptyBody (inner σ host) h scriptless) Record.BacksAll := by
  unfold emptyBody
  refine (converses_acceptsEndTag _).skip fun _ => ?_
  refine Converses.ite (Converses.pure backsAll_nil_of) ?_
  refine converses_startsWithNamedAttribute.skip fun _ => ?_
  refine Converses.ite (converses_restrictedBody hinner _ _ _ _) ?_
  exact converses_position.skip fun _ => converses_refuse _ _ _

theorem converses_textBody (h : Head) (scriptless : Bool) :
    Converses k pre (fun _ _ => textBody h scriptless) Record.BacksAll := by
  refine Converses.cursor fun c => ?_
  split
  · exact converses_refuse _ _ _
  refine (converses_moveTo _).skip fun _ => ?_
  dsimp only
  split
  · exact converses_refuse _ _ _
  refine Converses.get fun q => ?_
  dsimp +instances only [State.withMemory_uriOf]
  exact Converses.from q (converses_textNodes _ backsAll_nil_of _ _ _ _)

include hinner in
theorem converses_contentBody (h : Head) (content : BodyContent) (scriptless : Bool) :
    Converses k pre (fun σ host => contentBody (inner σ host) h content scriptless)
      Record.BacksAll := by
  unfold contentBody
  split
  · exact converses_opaqueBody _ _
  · exact converses_body hinner _ _
  · exact converses_body hinner _ _

include hinner in
theorem converses_tagBody (h : Head) (scriptless : Bool) :
    Converses k pre (fun σ host => tagBody (inner σ host) h scriptless) Record.BacksAll := by
  refine converses_startsWithNamedAttribute.skip fun _ => ?_
  refine Converses.ite (converses_restrictedBody hinner _ _ _ _) ?_
  split
  · exact converses_emptyBody hinner _ _
  · exact converses_contentBody hinner _ _ _

include hinner in
theorem converses_actionBody (parent h : Head) (scriptless : Bool) :
    Converses k pre (fun σ host => actionBody (inner σ host) parent h scriptless)
      Record.BacksAll := by
  unfold actionBody
  split
  case h_1 | h_2 | h_3 | h_4 => exact converses_emptyBody hinner _ _
  case h_5 =>
    refine (converses_acceptsEndTag _).skip fun _ => ?_
    refine Converses.ite (Converses.pure backsAll_nil_of) ?_
    exact converses_position.skip fun _ => converses_refuse _ _ _
  case h_6 | h_7 | h_8 | h_9 => exact converses_restrictedBody hinner _ _ _ _
  case h_10 => exact converses_opaqueBody _ _
  case h_11 => exact converses_textBody _ _
  case h_12 =>
    refine (converses_bodyElementContent _ _).skip fun _ => ?_
    exact converses_contentBody hinner _ _ _
  case h_13 => exact converses_body hinner _ _

end Bodies

section Elements

variable {inner : (σ : Type) → Host σ → Element σ} (hinner : ConversesElement k inner)
  {siblings : List Node} (hs : ∀ r, pre r → r.BacksAll siblings)

include hinner hs

theorem converses_standardAction (parent : Head) (scriptless : Bool) :
    Converses k pre (fun σ host => standardAction (inner σ host) parent scriptless siblings)
      Record.BacksAll := by
  unfold standardAction
  refine Converses.cursor fun c => (converses_moveTo _).skip fun _ => ?_
  refine converses_readName.skip fun name => ?_
  refine (converses_actionHead _ _ _).bind fun h => (converses_checkPlacement _ _).skip fun _ => ?_
  refine (converses_attributes _ _).bind fun a => ?_
  have hpush (cs : List Node) (r : Record) (hr : (pre r ∧ h.tag = none) ∧ a.1.tag = h.tag)
      (hcs : r.BacksAll cs) : r.BacksAll (Node.push siblings (.mk a.1 cs)) :=
    (hs r hr.1.1).pushTagless (hr.2.trans hr.1.2) hcs
  refine Converses.ite (Converses.pure fun r hr => hpush [] r hr r.backsAll_nil) ?_
  refine (converses_actionBody hinner _ _ _).bind fun cs => ?_
  exact Converses.pure fun r hr => hpush cs r hr.1 hr.2

theorem converses_customTag (b : Bool) (prefixName name : Bytes) (bound : Binding)
    (hbound : ∀ r, pre r → r (.library bound.uri (.ok bound.library))) (scriptless : Bool) :
    Converses k pre (fun σ host =>
      customTag ⟨host, b⟩ (inner σ host) prefixName name bound scriptless siblings)
      Record.BacksAll := by
  unfold customTag
  refine Converses.cursor fun c => (converses_moveTo _).skip fun _ => ?_
  refine (converses_tagHead b _ _ _ _ _ _ hbound).bind fun h => ?_
  refine (converses_attributes _ _).bind fun a => ?_
  have hpush (cs : List Node) (r : Record)
      (hr : (pre r ∧ ∀ t ∈ h.tag, r.Backs t) ∧ a.1.tag = h.tag) (hcs : r.BacksAll cs) :
      r.BacksAll (Node.push siblings
        (.mk { a.1 with tag := a.1.tag.map fun t => { t with selfClosed := a.2 } } cs)) := by
    refine (hs r hr.1.1).pushNode (fun t ht => ?_) hcs
    obtain ⟨t', ht', rfl⟩ := Option.map_eq_some_iff.mp ht
    exact hr.1.2 t' (hr.2 ▸ ht')
  refine Converses.ite (Converses.pure fun r hr => hpush [] r hr r.backsAll_nil) ?_
  refine (converses_tagBody hinner _ _).bind fun cs => ?_
  exact Converses.pure fun r hr => hpush cs r hr.1 hr.2

end Elements

section Sources

variable (b : Bool) {included : (σ : Type) → Host σ → Include σ}
  (hincluded : ConversesInclude k included)

include hincluded

theorem converses_construct {inner : (σ : Type) → Host σ → Element σ}
    (hinner : ConversesElement k inner) :
    ConversesElement k fun σ host => construct ⟨host, b⟩ (included σ host) (inner σ host) := by
  intro pre parent scriptless siblings hs
  unfold construct
  refine Converses.get fun q => ?_
  dsimp +instances only [State.withMemory_cursor, State.withMemory_elIgnored,
    State.withMemory_bindings]
  refine Converses.from q ?_
  have hs' (r : Record) (hr : pre r ∧ q.IsTold r) := hs r hr.1
  have htext := converses_templateText (k := k) scriptless hs'
  refine (converses_accepts _).skip fun _ => Converses.ite ?_ ?_
  · exact (converses_comment _).skip fun _ => Converses.pure hs'
  refine (converses_accepts _).skip fun _ => Converses.ite ?_ ?_
  · exact converses_directive b hincluded _ _ hs'
  refine (converses_accepts _).skip fun _ => Converses.ite ?_ ?_
  · exact converses_scripting _ _ _ _ hs'
  refine (converses_accepts _).skip fun _ => Converses.ite ?_ ?_
  · exact converses_scripting _ _ _ _ hs'
  refine (converses_accepts _).skip fun _ => Converses.ite ?_ ?_
  · exact converses_scripting _ _ _ _ hs'
  refine Converses.ite (converses_standardAction hinner hs' _ _) ?_
  refine Converses.ite (converses_expression _ hs') ?_
  refine Converses.ite (Converses.guard (converses_refuse _ _ _) fun _ => htext) ?_
  refine Converses.ite ?_ htext
  split
  · next prefixName name bound hb =>
      obtain ⟨entry, hentry, rfl⟩ := boundTag?_eq_some hb
      exact converses_customTag hinner hs' b _ _ _ (fun r hr => hr.2 _ hentry) _
  · exact htext

theorem converses_element (fuel : Nat) :
    ConversesElement k fun σ host => element ⟨host, b⟩ (included σ host) fuel := by
  induction fuel with
  | zero => exact fun _ _ _ _ _ => Converses.throw _
  | succ fuel ih => exact converses_construct b hincluded ih

omit hincluded in
theorem converses_sourceWithin {inner : (σ : Type) → Host σ → Element σ}
    (hinner : ConversesElement k inner) (parent : Head) (scriptless : Bool) (fuel : Nat)
    {cs : List Node} (hcs : ∀ r, pre r → r.BacksAll cs) :
    Converses k pre (fun σ host => sourceWithin (inner σ host) parent scriptless fuel cs)
      Record.BacksAll := by
  induction fuel generalizing cs pre with
  | zero => exact Converses.throw _
  | succ fuel ih =>
    unfold sourceWithin
    refine Converses.cursor fun c => Converses.ite (Converses.pure hcs) ?_
    exact (hinner _ _ _ _ hcs).bind fun cs' => ih fun _ hr => hr.2

theorem converses_directivesWithin (fuel : Nat) {cs : List Node}
    (hcs : ∀ r, pre r → r.BacksAll cs) :
    Converses k pre (fun σ host => directivesWithin ⟨host, b⟩ (included σ host) fuel cs)
      Record.BacksAll := by
  induction fuel generalizing cs pre with
  | zero => exact Converses.throw _
  | succ fuel ih =>
    unfold directivesWithin
    refine Converses.cursor fun c => Converses.ite (Converses.pure hcs) ?_
    refine (converses_accepts _).skip fun _ => ?_
    refine Converses.ite ((converses_comment _).skip fun _ => ih hcs) ?_
    refine (converses_accepts _).skip fun _ => Converses.ite ?_ ?_
    · exact (converses_directive b hincluded _ _ hcs).bind fun cs' => ih fun _ hr => hr.2
    · exact (converses_moveTo _).skip fun _ => ih hcs

theorem converses_parse (parent : Head) (scriptless : Bool) :
    Converses k pre (fun σ host => parse ⟨host, b⟩ (included σ host) parent scriptless)
      Record.BacksAll := by
  refine Converses.cursor fun c => ?_
  dsimp +instances only
  refine Converses.ite ?_ ?_
  · exact converses_directivesWithin b hincluded _ backsAll_nil_of
  · exact converses_sourceWithin (converses_element b hincluded _) _ _ _ backsAll_nil_of

end Sources

end Native

/-! ### Documents -/

namespace Document

theorem converses_follow : Converses k pre (fun _ _ => follow) fun _ _ => True := by
  refine fun p => ⟨.ended (.ok ((p.cursor.skip (p.document.offset - p.passed)).position,
    { p with
      cursor := p.cursor.skip (p.document.offset - p.passed), passed := p.document.offset })),
    fun _ _ _ _ => rfl, fun _ hr => ⟨hr.2, trivial⟩⟩

theorem converses_next : Converses k pre (fun _ _ => next) fun _ _ => True := by
  refine converses_follow.skip fun p => Converses.get fun q => ?_
  dsimp +instances only [State.withMemory_document]
  refine Converses.from q ?_
  split
  · exact converses_refuse _ _ _
  · exact Converses.pure fun _ _ => trivial
  · next t r _ =>
      refine (converses_modify (fun p => { p with document := r }) (fun _ _ _ => rfl)
        fun _ => rfl).skip fun _ => ?_
      exact Converses.pure fun _ _ => trivial

theorem converses_tokenBound : Converses k pre (fun _ _ => tokenBound) fun _ _ => True :=
  fun p => ⟨.ended (.ok (2 * p.document.rest.length + 2, p)), fun _ _ _ _ => rfl,
    fun _ hr => ⟨hr.2, trivial⟩⟩

theorem converses_dataWithin (name : Markup.Name) (fuel : Nat) (data : Bytes) :
    Converses k pre (fun _ _ => dataWithin name fuel data) fun _ _ => True := by
  induction fuel generalizing data with
  | zero => exact Converses.throw _
  | succ fuel ih =>
    refine converses_next.skip fun token => ?_
    split
    · exact converses_refuse _ _ _
    · exact ih _
    · exact converses_refuse _ _ _
    · exact Converses.ite (converses_refuse _ _ _) (Converses.pure fun _ _ => trivial)
    · exact ih _

theorem converses_elementData (name : Markup.Name) :
    Converses k pre (fun _ _ => elementData name) fun _ _ => True :=
  converses_tokenBound.skip fun _ => converses_dataWithin _ _ _

theorem converses_rawWithin (h : Head) (name : Markup.Name) (fuel depth : Nat) :
    Converses k pre (fun _ _ => rawWithin h name fuel depth) fun _ _ => True := by
  induction fuel generalizing depth pre with
  | zero => exact Converses.throw _
  | succ fuel ih =>
    refine Converses.get fun q => ?_
    dsimp +instances only [State.withMemory_document]
    refine Converses.from q (converses_next.skip fun token => ?_)
    split
    · exact converses_refuse _ _ _
    · exact ih _
    · cases depth with
      | zero => exact Converses.pure fun _ _ => trivial
      | succ depth => exact ih _
    · exact ih _

theorem converses_rawBody (h : Head) (name : Markup.Name) (scriptless : Bool) :
    Converses k pre (fun _ _ => rawBody h name scriptless) Record.BacksAll := by
  refine converses_follow.skip fun p => Converses.get fun q => ?_
  dsimp +instances only [State.withMemory_document]
  refine Converses.from q (converses_tokenBound.skip fun n => ?_)
  refine (converses_rawWithin _ _ _ _).skip fun unread => Converses.pure fun r _ => ?_
  split
  · exact r.backsAll_nil
  · exact r.backsAll_nil.pushLeaf rfl

theorem converses_addAttributes (ns : Namespaces) (p : Position) (scriptless : Bool) (h : Head)
    (as : List Markup.Attribute) :
    Converses k pre (fun _ _ => addAttributes ns p scriptless h as)
      fun _ h' => h'.tag = h.tag := by
  induction as generalizing h pre with
  | nil => exact Converses.pure fun _ _ => rfl
  | cons a as ih =>
    refine Converses.ite (ih h) ((converses_addAttribute _ _ _ _ _ _ _ _).bind fun h' => ?_)
    exact (ih h').mono (fun _ hr => hr) fun r a hr ha => ha.trans hr.2

/-- The content of elements is read by dialog, whatever stands before it. -/
def ConversesContent (k : Questions) (inner : (σ : Type) → Host σ → Content σ) : Prop :=
  ∀ (pre : Record → Prop) ns opened parent scriptless siblings,
    (∀ r, pre r → r.BacksAll siblings) →
    Converses k pre (fun σ host => inner σ host ns opened parent scriptless siblings)
      Record.BacksAll

section Elements

variable {included : (σ : Type) → Host σ → Include σ} (hincluded : ConversesInclude k included)
  {inner : (σ : Type) → Host σ → Content σ} (hinner : ConversesContent k inner)
  {siblings : List Node} (hs : ∀ r, pre r → r.BacksAll siblings) (b : Bool)

include hincluded hs in
theorem converses_directive (ns : Namespaces) (t : StartTag) (name : Bytes) (scriptless : Bool) :
    Converses k pre (fun σ host => directive (included σ host) ns t name scriptless siblings)
      Record.BacksAll := by
  unfold directive
  refine Converses.guard (converses_refuse _ _ _) fun _ => ?_
  refine (converses_directiveHead _ _ _).bind fun h => ?_
  refine (converses_addAttributes _ _ _ _ _).bind fun h' => ?_
  refine (converses_elementData _).skip fun _ => ?_
  have hpush := converses_pushTagless (k := k) hs h h'
  have hempty := (hpush []).mono (fun r hr => ⟨hr, r.backsAll_nil⟩) fun _ _ _ h => h
  refine Converses.guard (converses_refuse _ _ _) fun _ => ?_
  dsimp only
  split
  · exact (converses_applyElIgnored _).skip fun _ => hempty
  · exact (converses_applyElIgnored _).skip fun _ => hempty
  · exact (hincluded _ _ _).bind hpush
  · exact hempty

include hs in
theorem converses_scripting (kind : Kind) (t : StartTag) (scriptless : Bool) :
    Converses k pre (fun _ _ => scripting kind t scriptless siblings) Record.BacksAll := by
  refine (converses_elementData _).skip fun code => ?_
  refine (converses_scriptingNode _ _ _ _).bind fun n => ?_
  exact Converses.pure fun r hr => (hs r hr.1).pushLeaf hr.2

include hs in
theorem converses_textAction (ns : Namespaces) (t : StartTag) (scriptless : Bool) :
    Converses k pre (fun _ _ => textAction ns t scriptless siblings) Record.BacksAll := by
  refine (converses_actionHead _ _ _).bind fun h => ?_
  refine (converses_addAttributes _ _ _ _ _).bind fun h' => ?_
  refine converses_follow.skip fun p => (converses_elementData _).skip fun s => ?_
  refine (converses_textNodes _ backsAll_nil_of _ _ _ _).bind fun cs => ?_
  exact converses_pushTagless hs h h' cs

include hinner in
theorem converses_actionChildren (ns : Namespaces) (t : StartTag) (parent h : Head)
    (scriptless : Bool) :
    Converses k pre (fun σ host => actionChildren (inner σ host) ns t parent h scriptless)
      Record.BacksAll := by
  have hchildren (scriptless : Bool) : Converses k pre (fun σ host => do
      let children ← inner σ host ns (some t.name) h scriptless []
      checkActionBody h children
      return children) Record.BacksAll := by
    refine (hinner _ _ _ _ _ _ backsAll_nil_of).bind fun cs => ?_
    refine (converses_checkActionBody _ _).skip fun _ => ?_
    exact Converses.pure fun _ hr => hr.2
  unfold actionChildren
  dsimp only
  split
  · exact converses_rawBody _ _ _
  · refine (converses_bodyElementContent _ _).skip fun content => ?_
    split
    · exact converses_rawBody _ _ _
    · exact hchildren _
    · exact hchildren _
  · exact hchildren _

include hinner hs in
theorem converses_standardAction (ns : Namespaces) (t : StartTag) (parent : Head)
    (scriptless : Bool) :
    Converses k pre (fun σ host => standardAction (inner σ host) ns t parent scriptless siblings)
      Record.BacksAll := by
  refine (converses_actionHead _ _ _).bind fun h => (converses_checkPlacement _ _).skip fun _ => ?_
  refine (converses_addAttributes _ _ _ _ _).bind fun h' => ?_
  refine (converses_actionChildren hinner _ _ _ _ _).bind fun cs => ?_
  exact converses_pushTagless hs h h' cs

include hincluded hinner hs in
theorem converses_standardElement (ns : Namespaces) (t : StartTag) (parent : Head)
    (scriptless : Bool) :
    Converses k pre (fun σ host => standardElement ⟨host, b⟩ (included σ host) (inner σ host) ns t
      parent scriptless siblings) Record.BacksAll := by
  unfold standardElement
  dsimp +instances only
  refine Converses.ite (hinner _ _ _ _ _ _ hs) ?_
  refine Converses.ite (converses_directive hincluded hs _ _ _ _) ?_
  refine Converses.ite (hinner _ _ _ _ _ _ hs) ?_
  split
  · exact converses_scripting hs _ _ _
  · exact Converses.ite (converses_textAction hs _ _ _) (converses_standardAction hinner hs _ _ _ _)

include hinner in
theorem converses_tagChildren (ns : Namespaces) (t : StartTag) (h : Head) (scriptless : Bool) :
    Converses k pre (fun σ host => tagChildren (inner σ host) ns t h scriptless)
      Record.BacksAll := by
  unfold tagChildren
  refine Converses.ite (converses_rawBody _ _ _) ?_
  refine (hinner _ _ _ _ _ _ backsAll_nil_of).bind fun cs => ?_
  exact (converses_checkTagBody _ _).skip fun _ => Converses.pure fun _ hr => hr.2

include hinner hs in
theorem converses_customTag (ns : Namespaces) (t : StartTag) (l : TagLibrary)
    (hl : ∀ r, pre r → r (.library (ns.uriOf t.name.space) (.ok l))) (scriptless : Bool) :
    Converses k pre
      (fun σ host => customTag ⟨host, b⟩ (inner σ host) ns t l scriptless siblings)
      Record.BacksAll := by
  refine (converses_tagHead b _ _ _ _ _ _ hl).bind fun h => ?_
  refine (converses_addAttributes _ _ _ _ _).bind fun h' => ?_
  refine (converses_tagChildren hinner _ _ _ _).bind fun cs => ?_
  refine Converses.pure fun r hr => (hs r hr.1.1.1).pushNode (fun g hg => ?_) hr.2
  obtain ⟨g', hg', rfl⟩ := Option.map_eq_some_iff.mp hg
  exact hr.1.1.2 g' (hr.1.2 ▸ hg')

theorem converses_library? (uri : Bytes) (p : Position) :
    Converses k pre (fun _ host => library? ⟨host, b⟩ uri p)
      fun r l? => ∀ l ∈ l?, r (.library uri (.ok l)) := by
  have hnone : Converses k pre (fun _ _ => Pure.pure none)
      fun r l? => ∀ l ∈ l?, r (.library uri (.ok l)) :=
    Converses.pure fun _ _ l hl => absurd hl (Option.not_mem_none l)
  unfold library?
  by_cases huri : (uri == []) = true
  · simp only [huri, ↓reduceIte]
    intro q
    obtain ⟨d, hd, hw⟩ := hnone q
    refine ⟨d, fun σ host m hk => ?_, hw⟩
    rw [← hd σ host m hk]
    dsimp only
    cases host.library <;> rfl
  · simp only [huri]
    refine converses_askLibrary uri (fun a => ?_) hnone
    cases a with
    | ok l =>
      refine Converses.pure fun r hr l' hl' => ?_
      obtain rfl := Option.some.inj hl'
      exact hr.2
    | error f =>
      refine Converses.guard (converses_refuse _ _ _) fun _ => ?_
      exact Converses.pure fun _ _ l hl => absurd hl (Option.not_mem_none l)

include hinner hs in
theorem converses_plainElement (ns : Namespaces) (t : StartTag) (parent : Head)
    (scriptless : Bool) :
    Converses k pre (fun σ host => plainElement (inner σ host) ns t parent scriptless siblings)
      Record.BacksAll := by
  unfold plainElement
  refine Converses.ite (converses_next.skip fun _ => converses_textNodes _ hs _ _ _ _) ?_
  refine (converses_textNodes _ hs _ _ _ _).bind fun cs => ?_
  refine (hinner _ _ _ _ _ _ fun _ hr => hr.2).bind fun cs' => ?_
  refine converses_position.skip fun p => ?_
  exact converses_textNodes _ (fun _ hr => hr.2) _ _ _ _

include hincluded hinner hs in
theorem converses_element (ns : Namespaces) (t : StartTag) (parent : Head) (scriptless : Bool) :
    Converses k pre (fun σ host => element ⟨host, b⟩ (included σ host) (inner σ host) ns t
      parent scriptless siblings) Record.BacksAll := by
  unfold element
  dsimp +instances only
  refine Converses.ite (converses_standardElement hincluded hinner hs b _ _ _ _) ?_
  refine Converses.ite (hinner _ _ _ _ _ _ hs) (Converses.ite ?_ ?_)
  · exact converses_plainElement hinner hs _ _ _ _
  · refine (converses_library? b _ _).bind fun l? => ?_
    cases l? with
    | none => exact converses_plainElement hinner (fun r hr => hs r hr.1) _ _ _ _
    | some l =>
      exact converses_customTag hinner (fun r hr => hs r hr.1) b _ _ _
        (fun r hr => hr.2 l rfl) _

end Elements

section Content

variable (b : Bool) {included : (σ : Type) → Host σ → Include σ}
  (hincluded : ConversesInclude k included)

include hincluded

theorem converses_content (fuel : Nat) :
    ConversesContent k fun σ host => content ⟨host, b⟩ (included σ host) fuel := by
  induction fuel with
  | zero => exact fun _ _ _ _ _ _ _ => Converses.throw _
  | succ fuel ih =>
    intro pre ns opened parent scriptless siblings hs
    refine converses_next.skip fun token => ?_
    dsimp +instances only
    split
    · split
      · exact converses_refuse _ _ _
      · exact Converses.pure hs
    · refine Converses.ite (ih _ _ _ _ _ _ hs) ?_
      refine (converses_textNodes _ hs _ _ _ _).bind fun cs => ?_
      exact ih _ _ _ _ _ _ fun _ hr => hr.2
    · refine (converses_element hincluded ih hs b _ _ _ _).bind fun cs => ?_
      exact ih _ _ _ _ _ _ fun _ hr => hr.2
    · exact Converses.ite (Converses.pure hs) (converses_refuse _ _ _)
    · exact ih _ _ _ _ _ _ hs

theorem converses_parse (parent : Head) (scriptless : Bool) :
    Converses k pre (fun σ host => parse ⟨host, b⟩ (included σ host) parent scriptless)
      Record.BacksAll := by
  refine (converses_modify (fun p => { p with document := { rest := p.cursor.rest }, passed := 0 })
    (fun _ _ _ => rfl) fun _ => rfl).skip fun _ => converses_tokenBound.skip fun fuel => ?_
  exact converses_content b hincluded _ _ _ _ _ _ _ backsAll_nil_of

end Content

end Document

theorem converses_parseSource (b : Bool) (depth : Nat) :
    ConversesSource k fun _ host => parseSource ⟨host, b⟩ depth := by
  induction depth with
  | zero => exact fun _ _ _ _ => Converses.throw _
  | succ depth ih =>
    intro pre form parent scriptless
    have hincluded : ConversesInclude k fun _ host h scriptless =>
        includeFile ⟨host, b⟩ (parseSource ⟨host, b⟩ depth) h scriptless :=
      fun pre h scriptless => converses_includeFile b ih h scriptless
    cases form with
    | document => exact Document.converses_parse b hincluded _ _
    | auto => exact Native.converses_parse b hincluded _ _
    | native => exact Native.converses_parse b hincluded _ _

end ServerPages.Parsing

namespace ServerPages.ParseRequest

theorem parse_speaks (r : ParseRequest) (k : Questions) :
    ∃ d : Dialog Node,
      (∀ (σ : Type) (host : Host σ) m, host.questions = k → r.parse host m = d.run host m) ∧
      ∀ rec : Record, d.Within rec fun tree => ∀ t ∈ tree.tags, rec.Backs t := by
  let start : Parsing.State Unit := {
    cursor := Cursor.ofText r.path r.text, files := [r.path], elIgnored := r.elIgnored,
    memory := () }
  let root := r.root start.cursor.position
  obtain ⟨d, hd, hw⟩ := Parsing.converses_parseSource r.directivesOnly (k.fileCount + 2)
    (fun _ => True) r.actualForm root false start
  refine ⟨d.bind fun a => .ended (.ok (.mk root a.1)), fun σ host m hk => ?_,
    fun rec => (hw rec ⟨trivial, ?_⟩).bind fun a ha => ?_⟩
  · rw [Dialog.run_bind, ← hd σ host m hk, ← hk]
    dsimp only [parse, Host.questions, start, root, Parsing.State.withMemory]
    generalize Parsing.parseSource _ _ _ _ _ _ = outcome
    cases outcome <;> rfl
  · exact fun b hb => absurd hb List.not_mem_nil
  · intro t ht
    rw [Node.tags] at ht
    exact ha.2 t ht

/-- What parsing a source asks, in surroundings that take the questions `k`. -/
noncomputable def dialog (r : ParseRequest) (k : Questions) : Dialog Node :=
  Classical.choose (r.parse_speaks k)

/-- **A unit is parsed by dialog**: parsing a source is running its dialog, which does not depend on
the surroundings. -/
theorem parse_eq_run {σ : Type} (r : ParseRequest) (host : Host σ) (m : σ) :
    r.parse host m = (r.dialog host.questions).run host m :=
  (Classical.choose_spec (r.parse_speaks host.questions)).1 σ host m rfl

/-- Every tag that is invoked in a parsed tree was told of. -/
theorem dialog_within (r : ParseRequest) (k : Questions) (rec : Record) :
    (r.dialog k).Within rec fun tree => ∀ t ∈ tree.tags, rec.Backs t :=
  (Classical.choose_spec (r.parse_speaks k)).2 rec

end ServerPages.ParseRequest
