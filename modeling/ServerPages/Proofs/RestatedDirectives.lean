import ServerPages.Proofs.FilledPlaces
import ServerPages.Proofs.ProblemLedger
import ServerPages.Proofs.StandingSettings

/-!
# Directives that are repeated

A page or tag directive may be repeated, also in an included file: where what it says was said
before, it changes nothing of what the unit's directives say, and nothing else in the unit is judged
differently. The attribute `dynamic-attributes` is the exception. It reserves a name, and no name
can be reserved twice, so the unit is refused. Where a directive says something else of an attribute
than one before, the unit is refused as well.

## Main results

* `directive_isInForce`: a directive that no problem was reported for is in force.
* `mergeAttributes_restated`, `mergeAttributes_conflict`: what a directive does after another one.
* `Node.page?_validate`: what the directives of a unit say after its validation.
* `Gap.outcome_restated`, `Gap.outcome_conflict`: what such a directive does to a unit.
* `Gap.validate_restated`: the validation of a unit with one more directive.
-/

namespace ServerPages

/-- A directive of a kind has the attribute, with a literal that it takes. -/
def Attribute.IsTaken (k : Kind) (a : Attribute) : Prop :=
  a.kind = .named ∨ (a.kind = .literal ∧ ∃ sig, (Validation.signatures k).find? (·.name == a.name) =
    some sig ∧ (sig.values = [] ∨ a.value ∈ sig.values))

/-- The attribute says the same as another one. -/
structure Attribute.Restates (b a : Attribute) : Prop where
  name : b.name = a.name
  kind : b.kind = a.kind
  value : b.value = a.value

theorem Attribute.Restates.isTaken {a b : Attribute} {k : Kind} (h : b.Restates a)
    (ha : a.IsTaken k) : b.IsTaken k := by
  unfold IsTaken
  rw [h.kind, h.name, h.value]
  exact ha

/-- The directives that are merged. -/
def Kind.IsMerged (k : Kind) : Prop := k = .pageDirective ∨ k = .tagDirective

namespace Validation

variable {σ : Type} {env : Env σ} {isTag : Bool} {h g : Head} {s t : State σ}

/-! ### What is checked of a directive -/

/-- No attribute of a merged directive is computed, and none has to be there. -/
theorem signature_of_isMerged {k : Kind} (hk : k.IsMerged) :
    ∀ sig ∈ signatures k, sig.dynamic = false ∧ sig.required = false := by
  rcases hk with rfl | rfl <;> decide

theorem checkInline_isTaken (hk : h.kind.IsMerged) (a : Attribute) :
    Unreported isTag (fun fine => fine = true ∧ a.IsTaken h.kind)
      (checkInline env h (signatures h.kind) a) := by
  unfold checkInline
  cases hsig : (signatures h.kind).find? (·.name == a.name) with
  | none => exact .after_report fun _ => Keeps.pure _
  | some sig =>
    have hdynamic := (signature_of_isMerged hk sig (List.mem_of_find?_eq_some hsig)).1
    refine .ite (fun _ => .after_report fun _ => Keeps.pure _) fun hstatic => ?_
    have hliteral : a.kind = .literal := by
      simpa [Attribute.isRuntime, hdynamic] using hstatic
    refine .guard ?_
    rw [if_neg (by simp [hliteral])]
    refine .pure fun hfine => ?_
    have hvalue : sig.values = [] ∨ a.value ∈ sig.values := by
      simpa [hliteral, or_iff_not_imp_left] using hfine
    exact ⟨of_not_not fun h => hfine (Bool.not_eq_true' _ ▸ Bool.eq_false_iff.mpr h),
      .inr ⟨hliteral, sig, hsig, hvalue⟩⟩

theorem checkNamed_unreported (sigs : List Signature) (seen : List Bytes) (cs : List Node) :
    Unreported isTag (fun fine => fine = true) (checkNamed h sigs seen cs : Validate σ Bool) := by
  have hkeeps := fun ds seen cs => keeps_checkNamed
    (isStable_hasProblems (⟨none, fun _ _ => none⟩ : Env σ) isTag ds) h sigs seen cs
  have hrefused : ∀ issue (c : Node) message seen cs, Unreported isTag (fun fine => fine = true) (do
      report issue c.start message
      let _ ← checkNamed h sigs seen cs
      return false : Validate σ Bool) := fun issue c message seen cs =>
    .after_report fun ds => (hkeeps ds seen cs).bind fun _ => Keeps.pure _
  induction cs generalizing seen with
  | nil => exact .pure rfl
  | cons c cs ih =>
    unfold checkNamed
    exact .ite (fun _ => ih _) fun _ => .ite (fun _ => hrefused _ _ _ _ _) fun _ =>
      .ite (fun _ => hrefused _ _ _ _ _) fun _ => .ite (fun _ => hrefused _ _ _ _ _) fun _ => ih _

/-- What is known of the attributes of a merged directive whose check reports nothing. -/
theorem checkSignature_isTaken (env : Env σ) (isTag : Bool) (hk : h.kind.IsMerged)
    (cs : List Node) :
    Unreported isTag (fun fine => fine = true ∧ ∀ a ∈ h.attributes, a.IsTaken h.kind)
      (checkSignature env h cs) := by
  unfold checkSignature
  refine (Unreported.mapM (checkInline_isTaken hk) _).bind fun inline => ?_
  refine (checkNamed_unreported _ _ _).bind fun named => .forM_report <| .pure ?_
  intro hmissing hnamed hinline
  refine ⟨?_, fun a ha => ?_⟩
  · have hall : inline.all id = true := by
      refine List.all_eq_true.mpr fun fine hfine => ?_
      obtain ⟨a, -, hfine, -⟩ := hinline.2 fine hfine
      exact hfine
    rw [hall, hnamed, hmissing]
    rfl
  · by_cases hnamed : a.kind = .named
    · exact .inl hnamed
    · obtain ⟨_, -, htaken⟩ := hinline.1 a (List.mem_filter.mpr ⟨ha, by simpa using hnamed⟩)
      exact htaken

theorem checkInline_of_isTaken (env : Env σ) {a : Attribute} (ha : a.IsTaken g.kind)
    (hnamed : a.kind ≠ .named) (s : State σ) :
    checkInline env g (signatures g.kind) a s = (true, s) := by
  obtain ⟨hliteral, sig, hsig, hvalue⟩ := ha.resolve_left hnamed
  have hfine : (sig.values.isEmpty || a.kind != .literal || sig.values.contains a.value) =
      true := by
    simpa [hliteral] using hvalue
  simp only [checkInline, hsig, Attribute.isRuntime, hliteral]
  rw [hliteral] at hfine
  simp only [hfine]
  rfl

/-- A merged directive whose attributes are taken passes its check. -/
theorem checkSignature_of_isTaken (env : Env σ) (hk : g.kind.IsMerged)
    (hg : ∀ a ∈ g.attributes, a.IsTaken g.kind) (s : State σ) :
    checkSignature env g [] s = (true, s) := by
  have hinline : ∀ as : List Attribute, (∀ a ∈ as, a.IsTaken g.kind ∧ a.kind ≠ .named) →
      as.mapM (checkInline env g (signatures g.kind)) s = (as.map fun _ => true, s) := by
    intro as has
    induction as with
    | nil => rfl
    | cons a as ih =>
      obtain ⟨ha, has⟩ := List.forall_mem_cons.mp has
      rw [List.mapM_cons, run_bind, checkInline_of_isTaken env ha.1 ha.2, run_bind, ih has]
      rfl
  have hmissing : (signatures g.kind).filter
      (fun sig => sig.required && !isSupplied g [] sig.name) = [] := by
    refine List.filter_eq_nil_iff.mpr fun sig hsig => ?_
    simp [(signature_of_isMerged hk sig hsig).2]
  have hattributes : ∀ a ∈ g.attributes.filter (·.kind != .named),
      a.IsTaken g.kind ∧ a.kind ≠ .named := by
    intro a ha
    obtain ⟨ha, hne⟩ := List.mem_filter.mp ha
    exact ⟨hg a ha, by simpa using hne⟩
  unfold checkSignature
  rw [run_bind, hinline _ hattributes, hmissing]
  have hall : ((g.attributes.filter (·.kind != .named)).map fun _ => true).all id = true := by
    simp
  show ((_ && true && true), s) = (true, s)
  rw [hall]
  rfl

/-! ### What a directive leaves -/

/-- The state before one without problems has none. -/
theorem Follows.entries_eq_nil (hs : HasProblems isTag [] s) (h : Follows env s t)
    (ht : t.problems.entries = []) : s.problems.entries = [] := by
  have hkept : HasProblems isTag s.problems.entries t :=
    h _ (isInvariant_hasProblems env isTag _) ⟨hs.policy, hs.tag, List.prefix_rfl⟩
  exact List.prefix_nil.mp (ht ▸ hkept.entries)

theorem Follows.hasProblems (hs : HasProblems isTag [] s) (h : Follows env s t) :
    HasProblems isTag [] t := h _ (isInvariant_hasProblems env isTag []) hs

section Run

variable {cs : List Node}

theorem directive_of_refused (hfine : checkSignature env h cs s = (false, t)) :
    (directive env h cs s).2 = t := by
  unfold directive
  show ((if (checkSignature env h cs s).1 then _ else _ : Validate σ Unit)
    (checkSignature env h cs s).2).2 = _
  rw [hfine]
  rfl

/-- A directive with its check passed, in a unit with directives of its kind or not. -/
theorem directive_of_fine (hk : h.kind.IsMerged) (hfine : checkSignature env h cs s = (true, t)) :
    ∃ message, (directive env h cs s).2 =
      if h.kind = t.mergedKind then (pageDirective h t).2
      else (report .misplacedDirective h.start message t).2 := by
  unfold directive State.mergedKind
  show ∃ message, ((if (checkSignature env h cs s).1 then _ else _ : Validate σ Unit)
    (checkSignature env h cs s).2).2 = _
  rw [hfine, if_pos rfl, show (get : Validate σ (State σ)) = MonadStateOf.get from rfl, run_get]
  rcases hk with hk | hk <;> simp only [hk] <;> cases t.page.tag.isSome
  · exact ⟨[], rfl⟩
  · exact ⟨_, rfl⟩
  · exact ⟨_, rfl⟩
  · exact ⟨[], rfl⟩

end Run

/-- The attributes of a directive that are merged without a problem stand. -/
theorem mergeAttributes_stand (hs : HasProblems isTag [] s) (hk : h.kind = s.mergedKind)
    {as : List Attribute} (hnone : (as.forM (mergeAttribute h) s).2.problems.entries = []) :
    ∀ a ∈ as, Stands h.kind a (as.forM (mergeAttribute h) s).2 := by
  induction as generalizing s with
  | nil => exact fun a ha => absurd ha List.not_mem_nil
  | cons a as ih =>
    have hI := isInvariant_hasProblems (⟨none, fun _ _ => none⟩ : Env σ) isTag
    have hstep := hI [] |>.merge s h a hk hs
    have hk' := hk.trans (mergedKind_mergeAttribute h a s).symm
    have hbefore : (mergeAttribute h a s).2.problems.entries = [] := by
      have hprefix := (keeps_mergeAttributes (hI _) hk' as
        ⟨hstep.policy, hstep.tag, List.prefix_rfl⟩).entries
      exact List.prefix_nil.mp (hnone ▸ hprefix)
    refine List.forall_mem_cons.mpr ⟨?_, ih hstep hk' hnone⟩
    exact keeps_mergeAttributes
      (isInvariant_stands (⟨none, fun _ _ => none⟩ : Env σ) h.kind a) hk' as
      (mergeAttribute_stands hs.policy hk hbefore)

/-- A directive was merged as a whole. -/
structure IsInForce (h : Head) (s : State σ) : Prop where
  kind : s.mergedKind = h.kind
  taken : ∀ a ∈ h.attributes, a.IsTaken h.kind
  stands : ∀ a ∈ h.attributes, Stands h.kind a s

theorem IsInForce.follows (hs : IsInForce h s) (hst : Follows env s t) : IsInForce h t :=
  ⟨hst _ (isIndifferent_mergedKind env h.kind).isInvariant hs.kind, hs.taken,
    fun a ha => hst _ (isInvariant_stands env h.kind a) (hs.stands a ha)⟩

/-- A merged directive that no problem was reported for is in force. -/
theorem directive_isInForce (hs : HasProblems isTag [] s) (hk : h.kind.IsMerged) {cs : List Node}
    (hnone : (directive env h cs s).2.problems.entries = []) :
    IsInForce h (directive env h cs s).2 := by
  have hcheck : Follows env s (checkSignature env h cs s).2 :=
    .of_keeps (fun _ hI => keeps_checkSignature hI.toIsStable h cs) s
  rcases hrun : checkSignature env h cs s with ⟨fine, t⟩
  rw [hrun] at hcheck
  have hvalue := (checkSignature_isTaken env isTag hk cs).value s hs
  rw [hrun] at hvalue
  cases fine with
  | false =>
    rw [directive_of_refused hrun] at hnone
    cases (hvalue hnone).1
  | true =>
    obtain ⟨message, hdirective⟩ := directive_of_fine hk hrun
    rw [hdirective] at hnone ⊢
    by_cases hm : h.kind = t.mergedKind
    · rw [if_pos hm] at hnone ⊢
      have ht : t.problems.entries = [] := by
        have hprefix := (keeps_pageDirective (isInvariant_hasProblems env isTag t.problems.entries)
          hm ⟨(hcheck.hasProblems hs).policy, (hcheck.hasProblems hs).tag, List.prefix_rfl⟩).entries
        exact List.prefix_nil.mp (hnone ▸ hprefix)
      exact ⟨keeps_pageDirective (isIndifferent_mergedKind env h.kind).isInvariant hm hm.symm,
        (hvalue ht).2, mergeAttributes_stand (hcheck.hasProblems hs) hm hnone⟩
    · rw [if_neg hm, entries_report (hcheck.hasProblems hs).policy] at hnone
      simp at hnone

/-! ### A directive after another one -/

theorem visit_directive (hk : h.kind.IsMerged) (parent : Kind) (scope : Scope) (cs : List Node)
    (s : State σ) : (visit env parent scope (.mk h cs) s).2 = (attributeInfo h scope
      (visitAll env h.kind (fun _ => scope) cs (directive env h cs s).2).2).2 := by
  unfold visit
  rcases hk with hk | hk <;> simp only [hk] <;> rfl

/-- The visit of a merged directive whose attributes are taken. -/
theorem visit_leaf (hk : g.kind.IsMerged) (hg : ∀ a ∈ g.attributes, a.IsTaken g.kind)
    (hm : g.kind = s.mergedKind) (parent : Kind) (scope : Scope) :
    (visit env parent scope (.leaf g) s).2 = (pageDirective g s).2 := by
  have hscripts : g.attributes.filter (·.kind == .script) = [] := by
    refine List.filter_eq_nil_iff.mpr fun a ha => ?_
    rcases hg a ha with hk | ⟨hk, -⟩ <;> simp [hk]
  obtain ⟨message, hdirective⟩ :=
    directive_of_fine hk (checkSignature_of_isTaken env hk hg s)
  rw [if_pos hm] at hdirective
  rw [Node.leaf, visit_directive hk, hdirective, visitAll]
  unfold attributeInfo
  rw [hscripts]
  rfl

/-- A directive that was visited before a state without problems is in force. -/
theorem Visited.isInForce {cs : List Node} (hk : h.kind.IsMerged) (hs : HasProblems isTag [] s)
    (hvisited : Visited env (.mk h cs) s t) (hnone : t.problems.entries = []) :
    IsInForce h t := by
  obtain ⟨parent, scope, u, hu, hafter⟩ := hvisited
  rw [visit_directive hk] at hafter
  have hrest : Follows env (directive env h cs u).2 t :=
    ((follows_visitAll h.kind (fun _ => scope) cs _).trans
      (.of_keeps (fun _ hI => keeps_attributeInfo hI.toIsStable h scope) _)).trans hafter
  have hdirective : Follows env u (directive env h cs u).2 :=
    .of_keeps (fun _ hI => keeps_directive hI h cs) u
  have hbefore := hrest.entries_eq_nil (hdirective.hasProblems (hu.hasProblems hs)) hnone
  exact (directive_isInForce (hu.hasProblems hs) hk hbefore).follows hrest

/-- A directive that says nothing new changes nothing, unless it reserves a name. -/
theorem mergeAttributes_restated {bs : List Attribute} (hkind : g.kind = h.kind)
    (hh : IsInForce h s)
    (hbs : ∀ b ∈ bs, (∃ a ∈ h.attributes, b.Restates a) ∧ b.name ≠ "dynamic-attributes") :
    (bs.forM (mergeAttribute g) s).2 = s := by
  induction bs with
  | nil => rfl
  | cons b bs ih =>
    obtain ⟨⟨⟨a, ha, hsame⟩, hdynamic⟩, hbs⟩ := List.forall_mem_cons.mp hbs
    show (bs.forM (mergeAttribute g) (mergeAttribute g b s).2).2 = s
    rw [mergeAttribute_of_stands (hh.stands a ha) hkind hsame.name hsame.value hdynamic, ih hbs]

/-- A directive that contradicts one before it, or reserves its name once more, is a conflict. -/
theorem mergeAttributes_conflict {a b : Attribute} {bs : List Attribute}
    (hs : HasProblems isTag [] s) (hstands : Stands g.kind a s) (hb : b ∈ bs)
    (hname : b.name = a.name) (himport : b.name ≠ "import")
    (hdiffers : b.value ≠ a.value ∨ b.name = "dynamic-attributes") :
    (bs.forM (mergeAttribute g) s).2.HasConflict := by
  induction bs generalizing s with
  | nil => cases hb
  | cons c bs ih =>
    have hk := hstands.kind.symm
    have hI := isInvariant_hasProblems (⟨none, fun _ _ => none⟩ : Env σ) isTag []
    have hk' := hk.trans (mergedKind_mergeAttribute g c s).symm
    obtain rfl | hb := List.mem_cons.mp hb
    · exact keeps_mergeAttributes (isInvariant_hasConflict (⟨none, fun _ _ => none⟩ : Env σ)) hk' bs
        (mergeAttribute_conflict hs.policy hstands rfl hname himport hdiffers)
    · exact ih (hI.merge s g c hk hs) (hstands.mergeAttribute rfl) hb

end Validation

namespace Node

open Validation

variable {σ : Type} {library : Option (Bytes → σ → Except Fault TagLibrary × σ)}
  {options : ValidationOptions} {memory : σ} {root : Node}

/-- A validation that gives a unit has a cap that it can have. -/
theorem exists_empty?_of_failure_eq_none
    (hpass : (root.validate library options memory).failure = none) :
    ∃ c, Collector.empty? options.overflow options.maxErrors = .ok c := by
  unfold validate at hpass
  split at hpass
  · cases hpass
  · next c hc => exact ⟨c, hc⟩

variable (library options memory root)

/-- With room for a problem, a unit passes exactly if it violates no rule. -/
theorem failure_eq_none_iff {c : Collector}
    (hc : Collector.empty? options.overflow options.maxErrors = .ok c)
    (hroom : options.overflow = .noCap ∨ 0 < options.maxErrors) :
    (root.validate library options memory).failure = none ↔
      root.violations library options.binder memory = [] := by
  obtain ⟨-, rfl⟩ := Collector.empty?_eq_ok_iff.mp hc
  have hnocap : ¬(options.overflow ≠ .noCap ∧ options.maxErrors.toNat = 0) := by
    rintro ⟨hpolicy, hzero⟩
    rcases hroom with h | h
    · exact hpolicy h
    · omega
  rw [validate_eq library options memory root hc, Option.map_eq_none_iff,
    Collector.fault?_eq_none_iff, Collector.foldl_add_eq_nil_iff]
  exact or_iff_left hnocap

/-- The state in which the validation of a unit ends when no problem is dropped. -/
def outcome (env : Env σ) (memory : σ) (root : Node) : State σ :=
  (unitSteps env root (startOf { policy := .noCap, capacity := 0 } root memory)).2

theorem page?_setPage_eq_map (n : Node) (p : PageInfo) :
    (n.setPage p).page? = n.head.unit.map fun _ => p := by
  obtain ⟨h, cs⟩ := n
  show (h.unit.map ({ · with page := some p })).bind (·.page) = h.unit.map fun _ => p
  cases h.unit <;> rfl

/-- What the directives of a unit say is what they say in the end. -/
theorem page?_validate {c : Collector}
    (hc : Collector.empty? options.overflow options.maxErrors = .ok c)
    (hroot : root.kind = .root) : (root.validate library options memory).tree.page? =
      root.head.unit.map fun _ => (root.outcome ⟨library, options.binder⟩ memory).page := by
  rw [validate_eq library options memory root hc,
    validate_of_empty? library { binder := options.binder } _ _ Collector.empty?_noCap]
  refine (page?_setPage_eq_map _ _).trans (congrArg (Option.map _) ?_)
  generalize startOf _ _ _ = start
  obtain ⟨h, cs⟩ := root
  exact visit_unit _ hroot cs .root {} start

end Node

namespace Gap

open Validation

variable {σ : Type} (env : Env σ) (memory : σ) (gap : Gap)

/-- The state that the validation of the unit, with some nodes at the gap, ends in when no problem
is dropped. -/
def outcome (ns : List Node) : State σ :=
  (unitSteps env (gap.fill ns)
    (startOf { policy := .noCap, capacity := 0 } (gap.fill ns) memory)).2

/-- What the directives of a unit say is what they say in the end. -/
theorem page?_validate (library : Option (Bytes → σ → Except Fault TagLibrary × σ))
    (options : ValidationOptions) {c : Collector}
    (hc : Collector.empty? options.overflow options.maxErrors = .ok c)
    (hroot : gap.head.kind = .root) (ns : List Node) :
    ((gap.fill ns).validate library options memory).tree.page? =
      gap.head.unit.map fun _ => (gap.outcome ⟨library, options.binder⟩ memory ns).page := by
  rw [← gap.head_fill ns] at hroot ⊢
  exact Node.page?_validate library options memory (gap.fill ns) hc hroot

theorem violations_fill (library : Option (Bytes → σ → Except Fault TagLibrary × σ))
    (binder : Binder) (ns : List Node) : (gap.fill ns).violations library binder memory =
      (gap.outcome ⟨library, binder⟩ memory ns).problems.entries :=
  Node.violations_eq library binder memory (gap.fill ns)

/-- Steps that lead to the gap, and steps after it. -/
theorem outcome_eq {n : Node} (htakes : gap.Takes n) (hn : n.kind ≠ .namedAttribute) :
    ∃ (isTag : Bool) (start : State σ) (k : Kind) (scope : Scope) (t : State σ)
      (finish : State σ → State σ),
      HasProblems isTag [] start ∧ Follows env start t ∧ (∀ u, Follows env u (finish u)) ∧
      (∀ m ∈ gap.earlier, Visited env m start t) ∧ gap.outcome env memory [] = finish t ∧
      gap.outcome env memory [n] = finish (visit env k scope n t).2 := by
  let start := startOf { policy := .noCap, capacity := 0 } (gap.fill []) memory
  have hs : HasProblems (start.page.tag.isSome) [] start := ⟨rfl, rfl, List.prefix_rfl⟩
  obtain ⟨k, scope, t, finishVisit, ht, hfinish, hvisited, hold, hnew⟩ :=
    visit_fill env gap htakes hn .root {} start
  have hend : ∀ ns, gap.outcome env memory ns =
      (finish gap.head (visit env .root {} (gap.fill ns) start).2).2 := by
    intro ns
    show (finish (gap.fill ns).head (visit env .root {} (gap.fill ns) (startOf _ _ memory)).2).2 = _
    simp only [startOf, gap.head_fill, start]
  refine ⟨_, start, k, scope, t, fun u => (finish gap.head (finishVisit u)).2, hs, ht,
    fun u => (hfinish u).trans (.of_keeps (fun _ hI => keeps_finish hI.toIsStable gap.head) _),
    hvisited, ?_, ?_⟩
  · rw [hend, hold]
  · rw [hend, hnew]

variable {env memory gap} {h g : Head}

/-- Where the unit has no problem, a directive of it is in force at the gap, and another one of its
kind is merged there. -/
theorem outcome_leaf (hvalid : (gap.outcome env memory []).problems.entries = [])
    (hmerged : h.kind.IsMerged) (hkind : g.kind = h.kind)
    (hearlier : ∃ m ∈ gap.earlier, ∃ n ∈ m.all, n.head = h) (htakes : gap.Takes (.leaf g)) :
    ∃ (isTag : Bool) (t : State σ) (finish : State σ → State σ),
      HasProblems isTag [] t ∧ IsInForce h t ∧ (∀ u, Follows env u (finish u)) ∧
      gap.outcome env memory [] = finish t ∧
      ((∀ b ∈ g.attributes, b.IsTaken g.kind) →
        gap.outcome env memory [.leaf g] = finish (g.attributes.forM (mergeAttribute g) t).2) := by
  have hleaf : (Node.leaf g).kind ≠ .namedAttribute := by
    rcases hmerged with hk | hk <;> rw [show (Node.leaf g).kind = h.kind from hkind, hk] <;> decide
  obtain ⟨isTag, start, k, scope, t, finish, hstart, ht, hfinish, hvisited, hold, hnew⟩ :=
    gap.outcome_eq env memory htakes hleaf
  rw [hold] at hvalid
  have hs := ht.hasProblems hstart
  have hforce : IsInForce h t := by
    obtain ⟨m, hm, ⟨_, cs⟩, hn, rfl⟩ := hearlier
    exact ((hvisited m hm).of_mem_all hn).isInForce hmerged hstart
      ((hfinish t).entries_eq_nil hs hvalid)
  refine ⟨isTag, t, finish, hs, hforce, hfinish, hold, fun htaken => ?_⟩
  rw [hnew, visit_leaf (hkind ▸ hmerged) htaken (hkind.trans hforce.kind.symm)]
  rfl

/-- A directive that says nothing new leaves no trace. -/
theorem outcome_restated (hvalid : (gap.outcome env memory []).problems.entries = [])
    (hmerged : h.kind.IsMerged) (hkind : g.kind = h.kind)
    (hearlier : ∃ m ∈ gap.earlier, ∃ n ∈ m.all, n.head = h) (htakes : gap.Takes (.leaf g))
    (hrestates : ∀ b ∈ g.attributes,
      (∃ a ∈ h.attributes, b.Restates a) ∧ b.name ≠ "dynamic-attributes") :
    gap.outcome env memory [.leaf g] = gap.outcome env memory [] := by
  obtain ⟨isTag, t, finish, -, hforce, -, hold, hnew⟩ :=
    outcome_leaf hvalid hmerged hkind hearlier htakes
  have htaken : ∀ b ∈ g.attributes, b.IsTaken g.kind := by
    intro b hb
    obtain ⟨⟨a, ha, hsame⟩, -⟩ := hrestates b hb
    exact hkind ▸ hsame.isTaken (hforce.taken a ha)
  rw [hnew htaken, hold, mergeAttributes_restated hkind hforce hrestates]

/-- A directive that contradicts one before it is a conflict in the unit. -/
theorem outcome_conflict (hvalid : (gap.outcome env memory []).problems.entries = [])
    (hmerged : h.kind.IsMerged) (hkind : g.kind = h.kind)
    (hearlier : ∃ m ∈ gap.earlier, ∃ n ∈ m.all, n.head = h) (htakes : gap.Takes (.leaf g))
    (htaken : ∀ b ∈ g.attributes, b.IsTaken g.kind) {a b : Attribute} (ha : a ∈ h.attributes)
    (hb : b ∈ g.attributes) (hname : b.name = a.name) (himport : b.name ≠ "import")
    (hdiffers : b.value ≠ a.value ∨ b.name = "dynamic-attributes") :
    (gap.outcome env memory [.leaf g]).HasConflict := by
  obtain ⟨isTag, t, finish, hs, hforce, hfinish, -, hnew⟩ :=
    outcome_leaf hvalid hmerged hkind hearlier htakes
  rw [hnew htaken]
  exact hfinish _ _ (isInvariant_hasConflict _) (mergeAttributes_conflict hs
    (hkind ▸ hforce.stands a ha) hb hname himport hdiffers)

end Gap

section Restated

open Validation

/-- A unit is validated once more, with another page or tag directive at some place after a
directive of the same kind. -/
theorem Gap.validate_restated {σ : Type}
    (library : Option (Bytes → σ → Except Fault TagLibrary × σ)) (options : ValidationOptions)
    (memory : σ) {gap : Gap} {h g : Head} (hroot : gap.head.kind = .root)
    (hroom : options.overflow = .noCap ∨ 0 < options.maxErrors)
    (hpass : ((gap.fill []).validate library options memory).failure = none)
    (hmerged : h.kind.IsMerged) (hkind : g.kind = h.kind)
    (hearlier : ∃ m ∈ gap.earlier, ∃ n ∈ m.all, n.head = h) (htakes : gap.Takes (.leaf g)) :
    let before := (gap.fill []).validate library options memory
    let after := (gap.fill [.leaf g]).validate library options memory
    ((∀ b ∈ g.attributes, (∃ a ∈ h.attributes, b.Restates a) ∧ b.name ≠ "dynamic-attributes") →
      after.failure = none ∧ after.tree.page? = before.tree.page?) ∧
    ((∀ b ∈ g.attributes, b.IsTaken g.kind) →
      (∃ b ∈ g.attributes, ∃ a ∈ h.attributes, b.name = a.name ∧ b.name ≠ "import" ∧
        (b.value ≠ a.value ∨ b.name = "dynamic-attributes")) →
      after.failure ≠ none ∧
        ∃ d ∈ (gap.fill [.leaf g]).violations library options.binder memory,
          d.issue = .directiveConflict) := by
  intro before after
  obtain ⟨c, hc⟩ := Node.exists_empty?_of_failure_eq_none hpass
  have hpasses := fun ns =>
    Node.failure_eq_none_iff library options memory (gap.fill ns) hc hroom
  have hvalid := (hpasses []).mp hpass
  rw [violations_fill] at hvalid
  constructor
  · intro hrestates
    have hsame := outcome_restated hvalid hmerged hkind hearlier htakes hrestates
    refine ⟨(hpasses _).mpr ?_, ?_⟩
    · rw [violations_fill, hsame, hvalid]
    · show ((gap.fill [.leaf g]).validate library options memory).tree.page? =
        ((gap.fill []).validate library options memory).tree.page?
      rw [gap.page?_validate memory library options hc hroot, hsame,
        gap.page?_validate memory library options hc hroot]
  · rintro htaken ⟨b, hb, a, ha, hname, himport, hdiffers⟩
    obtain ⟨d, hd, hissue⟩ := (outcome_conflict hvalid hmerged hkind hearlier htakes htaken ha hb
      hname himport hdiffers).conflict
    rw [← violations_fill] at hd
    refine ⟨fun hfails => ?_, d, hd, hissue⟩
    rw [(hpasses _).mp hfails] at hd
    cases hd

end Restated

/-- A page directive with a buffer and the session set. -/
def sessionDirective (value : Bytes) : Head where
  kind := .pageDirective
  attributes := [{ name := "buffer", localName := "buffer", value := "none" },
    { name := "session", localName := "session", value := value }]

/-- A page with a directive, with a place in a file that it includes. -/
def includingGap : Gap :=
  .inside ⟨{ kind := .root, unit := some ⟨"/a.jsp", false, false, "UTF-8", none⟩ },
    [.leaf (sessionDirective "false")], []⟩ <|
  .here ⟨{ kind := .includeDirective,
           attributes := [{ name := "file", localName := "file", value := "b.jsp" }] },
    [.leaf { kind := .text, text := "x" }], []⟩

theorem Gap.validate_restated_included :
    ((includingGap.fill []).validate (σ := Unit) none {} ()).failure = none ∧
    (((includingGap.fill [.leaf (sessionDirective "false")]).validate (σ := Unit) none {}
        ()).failure = none ∧
      ((includingGap.fill [.leaf (sessionDirective "false")]).validate (σ := Unit) none {}
        ()).tree.page? = ((includingGap.fill []).validate (σ := Unit) none {} ()).tree.page?) ∧
    ((includingGap.fill [.leaf (sessionDirective "true")]).validate (σ := Unit) none {}
        ()).failure ≠ none ∧
      ∃ d ∈ (includingGap.fill [.leaf (sessionDirective "true")]).violations (σ := Unit) none
        Setter.byName (), d.issue = .directiveConflict := by
  have hpass : ((includingGap.fill []).validate (σ := Unit) none {} ()).failure = none :=
    Option.isNone_iff_eq_none.mp (by decide +kernel)
  have hearlier : ∃ m ∈ includingGap.earlier, ∃ n ∈ m.all, n.head = sessionDirective "false" :=
    ⟨.leaf (sessionDirective "false"), List.mem_cons_self, .leaf (sessionDirective "false"),
      List.mem_cons_self, rfl⟩
  have htakes : ∀ value, includingGap.Takes (.leaf (sessionDirective value)) := fun value =>
    ⟨⟨rfl, nofun, nofun⟩, ⟨rfl, nofun, nofun⟩, nofun⟩
  have hboth := fun value => validate_restated (h := sessionDirective "false")
    (g := sessionDirective value) none {} () rfl (.inl rfl) hpass (.inl rfl) rfl hearlier
    (htakes value)
  refine ⟨hpass, (hboth "false").1 fun b hb => ⟨⟨b, hb, rfl, rfl, rfl⟩, ?_⟩,
    (hboth "true").2 (fun b hb => ?_) ?_⟩
  · revert b
    decide
  · obtain rfl | hb := List.mem_cons.mp hb
    · exact .inr ⟨rfl, _, rfl, .inl rfl⟩
    · obtain rfl := List.mem_singleton.mp hb
      exact .inr ⟨rfl, _, rfl, .inr (by decide)⟩
  · exact ⟨_, List.mem_cons_of_mem _ List.mem_cons_self, _,
      List.mem_cons_of_mem _ List.mem_cons_self, rfl, by decide, .inl (by decide)⟩

end ServerPages
