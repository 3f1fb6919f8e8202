import ServerPages.Proofs.TreeShapes
import ServerPages.Proofs.ValidationReports
import ServerPages.Proofs.ValidationSteps

/-!
# Bodies without code

A tag may forbid code in its body, and always forbids it in the fragments it is given. The
restriction holds for everything below, whatever stands between: `isRestricted` looks for it along
the way from a node up to the root. A validation threads it down the tree as a flag instead. This
module proves that the two agree: every piece of code and every attribute given as code below such a
tag is reported once, and nothing else is.

## Main results

* `isRestricted_iff`: a place is restricted if some tag on the way up forbids code in the child that
  leads down to it.
* `visit_reports`: what the visit of a node reports.
* `validate_scripting`: code is reported exactly where it is forbidden.
-/

namespace ServerPages

/-! ### Places where code is forbidden -/

mutual

/-- The place of every node of a subtree: the node and those above it, innermost first. The nodes
above the subtree are `above`. -/
def Node.places (above : List Head) : Node → List (List Head)
  | .mk h cs => (h :: above) :: Node.placesAll (h :: above) cs

/-- The places of the nodes of some subtrees. -/
def Node.placesAll (above : List Head) : List Node → List (List Head)
  | [] => []
  | c :: cs => Node.places above c ++ Node.placesAll above cs

end

namespace Validation

/-- Whether the tag `t` forbids code in its child `c`: in a fragment if the child gives the value of
an attribute, in a body without code otherwise. -/
def forbidsCode (t c : Head) : Bool :=
  t.kind == .customTag && t.descriptor?.any fun d =>
    if c.kind == .namedAttribute then (d.attribute? c.attributeName).any (·.fragment)
    else d.body == .scriptless

/-- Whether some tag above a place forbids code in the child on the way down. -/
def isRestricted : List Head → Bool
  | c :: t :: above => forbidsCode t c || isRestricted (t :: above)
  | _ => false

theorem isRestricted_iff (place : List Head) :
    isRestricted place = true ↔ ∃ t c, [c, t] <:+: place ∧ forbidsCode t c = true := by
  induction place with
  | nil => simp [isRestricted]
  | cons c place ih =>
    cases place with
    | nil =>
      refine ⟨fun h => absurd h (by simp [isRestricted]), ?_⟩
      rintro ⟨t, d, ⟨l, r, h⟩, -⟩
      have hlen := congrArg List.length h
      simp at hlen
      omega
    | cons t above =>
      rw [isRestricted, Bool.or_eq_true, ih]
      constructor
      · rintro (h | ⟨t', c', hin, h⟩)
        · exact ⟨t, c, ⟨[], above, rfl⟩, h⟩
        · exact ⟨t', c', hin.trans (List.suffix_cons _ _).isInfix, h⟩
      · rintro ⟨t', c', hin, h⟩
        rcases List.infix_cons_iff.mp hin with hpre | hin
        · obtain ⟨rfl, htail⟩ := List.cons_prefix_cons.mp hpre
          obtain ⟨rfl, -⟩ := List.cons_prefix_cons.mp htail
          exact Or.inl h
        · exact Or.inr ⟨t', c', hin, h⟩

/-- The problem of a piece of code. -/
def codeProblem (h : Head) : Diagnostic :=
  ⟨.scriptingNotAllowed, h.start, h.kind.name ++ " is not allowed in a scriptless body"⟩

/-- The problems that the code at a node would be: the node itself, and its attributes. -/
def codeProblems (h : Head) : List Diagnostic :=
  (if h.kind.isScripting then [codeProblem h] else []) ++ scriptAttributeProblems h.attributes

/-- The problems of the code at a place. -/
def problemsAt : List Head → List Diagnostic
  | [] => []
  | h :: above => if isRestricted (h :: above) then codeProblems h else []

/-! ### Visiting a node -/

section Visit

variable {σ : Type} (env : Env σ)

theorem attributeInfo_reports (h : Head) (scope : Scope) :
    Reports (attributeInfo h scope : Validate σ ChildInfo)
      (if scope.scriptless then scriptAttributeProblems h.attributes else []) fun _ => True := by
  unfold attributeInfo scriptAttributeProblems
  dsimp only
  generalize h.attributes.filter (·.kind == .script) = as
  have hforM : Reports (as.forM fun a => do
      if scope.scriptless then
        report .scriptingNotAllowed a.position ("expression value of attribute " ++ a.name ++
          " is not allowed in a scriptless body") : Validate σ PUnit)
      (if scope.scriptless then as.map scriptAttributeProblem else []) fun _ => True := by
    cases hs : scope.scriptless with
    | false => exact Quiet.forM (fun _ => Quiet.pure _) as
    | true =>
      induction as with
      | nil => exact Reports.pure trivial
      | cons a as ih => exact (reports_report _ _).bind fun _ _ => ih
  have h := hforM.bind fun _ _ => Reports.pure (a := ({ scriptless := as.isEmpty } : ChildInfo))
    (P := fun _ => True) trivial
  rwa [List.append_nil] at h

theorem flatMap_problemsAt_cons (h : Head) (cs : List Node) (above : List Head) :
    ((Node.places above (.mk h cs)).flatMap problemsAt) =
      (if isRestricted (h :: above) then codeProblems h else []) ++
        (Node.placesAll (h :: above) cs).flatMap problemsAt := by
  rw [Node.places, List.flatMap_cons, problemsAt]

/-- What a piece of code reports. -/
theorem reports_code {h : Head} {cs : List Node} {above : List Head} {scope : Scope} {α : Type}
    {a : α} (hk : h.kind.isScripting = true) (hleaf : cs = [] ∧ h.attributes = [])
    (hscope : scope.scriptless = isRestricted (h :: above)) :
    Reports (do
      if scope.scriptless then
        report .scriptingNotAllowed h.start (h.kind.name ++ " is not allowed in a scriptless body")
      return a : Validate σ α)
      ((Node.places above (.mk h cs)).flatMap problemsAt) fun _ => True := by
  obtain ⟨rfl, hattr⟩ := hleaf
  rw [flatMap_problemsAt_cons, codeProblems, hk, if_pos rfl, hattr, ← hscope]
  cases scope.scriptless with
  | true => exact (reports_report _ _).bind fun _ _ => Reports.pure trivial
  | false => exact Reports.pure trivial

/-- The children of a node, and then its attributes: what a node that is no code reports. -/
theorem reports_children {h h' : Head} {cs : List Node} {above : List Head} {scope : Scope}
    {α β : Type} {visitChildren : Validate σ α} {f : α → ChildInfo → β}
    (hk : h.kind.isScripting = false)
    (hattr : scriptAttributeProblems h'.attributes = scriptAttributeProblems h.attributes)
    (hscope : scope.scriptless = isRestricted (h :: above))
    (hcs : Reports visitChildren ((Node.placesAll (h :: above) cs).flatMap problemsAt)
      fun _ => True) :
    Reports (do return f (← visitChildren) (← attributeInfo h' scope))
      ((Node.places above (.mk h cs)).flatMap problemsAt) fun _ => True := by
  have hrun := hcs.bind fun a _ => (attributeInfo_reports h' scope).bind fun info _ =>
    Reports.pure (a := f a info) (P := fun _ => True) trivial
  refine hrun.perm ?_
  rw [List.append_nil, flatMap_problemsAt_cons, hattr, hscope, codeProblems, hk,
    if_neg Bool.false_ne_true, List.nil_append]
  exact List.perm_append_comm

theorem scriptless_childScope {h : Head} {d : TagDescriptor} {scope : Scope} {above : List Head}
    (hk : h.kind = .customTag) (hd : h.descriptor? = some d)
    (hscope : scope.scriptless = isRestricted (h :: above)) (c : Head) :
    (childScope d scope c).scriptless = isRestricted (c :: h :: above) := by
  rw [isRestricted, ← hscope, forbidsCode, hk, hd, Bool.or_comm]
  simp [childScope]

theorem isRestricted_child {h : Head} (hk : h.kind ≠ .customTag) (c : Head) (above : List Head) :
    isRestricted (c :: h :: above) = isRestricted (h :: above) := by
  rw [isRestricted, forbidsCode, beq_eq_false_iff_ne.mpr hk]
  simp

mutual

/-- The visit of a node reports the code below it that is forbidden, if the scope tells whether code
is forbidden at the node itself. -/
theorem visit_reports (n : Node) (hn : n.IsParsed) (parent : Kind) (scope : Scope)
    (above : List Head) (hscope : scope.scriptless = isRestricted (n.head :: above)) :
    Reports (visit env parent scope n) ((n.places above).flatMap problemsAt) fun _ => True := by
  match n, hn with
  | .mk h cs, .mk hh hleaf hcs =>
    have hinherit : ∀ hk : h.kind ≠ .customTag, Reports (visitAll env h.kind (fun _ => scope) cs)
        ((Node.placesAll (h :: above) cs).flatMap problemsAt) fun _ => True := fun hk =>
      visitAll_reports cs hcs _ _ _ fun c => hscope.trans (isRestricted_child hk c above).symm
    unfold visit
    split
    · next hk => exact reports_code (by rw [hk]; rfl) (hleaf (by rw [hk]; rfl)) hscope
    · next hk => exact reports_code (by rw [hk]; rfl) (hleaf (by rw [hk]; rfl)) hscope
    · next hk => exact reports_code (by rw [hk]; rfl) (hleaf (by rw [hk]; rfl)) hscope
    · next hk =>
        obtain ⟨rfl, hattr⟩ := hleaf (by rw [hk]; rfl)
        refine ((quiet_expression _ _ _).before fun _ => Reports.pure trivial).perm ?_
        rw [flatMap_problemsAt_cons, codeProblems, hk, hattr]
        simp [Kind.isScripting, scriptAttributeProblems, Node.placesAll]
    · next hk =>
        exact reports_children (by rw [hk]; rfl) rfl hscope (hinherit (by rw [hk]; decide))
    · next hk =>
        exact reports_children (by rw [hk]; rfl) rfl hscope (hinherit (by rw [hk]; decide))
    · next hk =>
        exact reports_children (by rw [hk]; rfl) rfl hscope (hinherit (by rw [hk]; decide))
    · next hk =>
        obtain ⟨d, hd⟩ := Option.isSome_iff_exists.mp (hh.descriptor hk)
        obtain ⟨t, ht, htd⟩ := Option.bind_eq_some_iff.mp hd
        simp only [ht, Option.getD_some, htd]
        refine (checkTag_scripts env t d scope.nesting h cs hh.not_named).bind fun h' hh' => ?_
        exact reports_children (by rw [hk]; rfl) hh'.2 hscope <|
          visitAll_reports cs hcs _ _ _ (scriptless_childScope hk hd hscope)
    · next hk₁ hk₂ hk₃ hk₄ hk₅ hk₆ hk₇ hk₈ =>
        have hk : h.kind.isScripting = false := by
          revert hk₁ hk₂ hk₃
          cases h.kind <;> simp [Kind.isScripting]
        split
        · exact (quiet_directive _ _ _).before fun _ =>
            reports_children hk rfl hscope (hinherit hk₈)
        · exact (quiet_checkAction _ _ _ _).before fun _ =>
            reports_children hk rfl hscope (hinherit hk₈)

theorem visitAll_reports (cs : List Node) (hcs : ∀ c ∈ cs, c.IsParsed) (parent : Kind)
    (scopeOf : Head → Scope) (above : List Head)
    (hscope : ∀ c, (scopeOf c).scriptless = isRestricted (c :: above)) :
    Reports (visitAll env parent scopeOf cs) ((Node.placesAll above cs).flatMap problemsAt)
      fun _ => True := by
  match cs, hcs with
  | [], _ => exact Reports.pure trivial
  | .mk h ds :: cs, hcs =>
    unfold visitAll
    rw [Node.placesAll, List.flatMap_append]
    refine (visit_reports (.mk h ds) (hcs _ List.mem_cons_self) _ _ _ (hscope h)).bind fun r _ => ?_
    have hrest := visitAll_reports cs (fun c hc => hcs c (List.mem_cons_of_mem _ hc)) parent scopeOf
      above hscope
    have h := hrest.bind fun r' _ => Reports.pure
      (a := (r.1 :: r'.1, ChildInfo.merge r.2 r'.2)) (P := fun _ => True) trivial
    rw [List.append_nil] at h
    exact h

end

/-- The visit of the root, above which there is nothing that forbids code. -/
theorem visit_root_reports {h : Head} {cs : List Node} (hk : h.kind = .root)
    (hcs : ∀ c ∈ cs, c.IsParsed) (parent : Kind) :
    Reports (visit env parent {} (.mk h cs)) ((Node.places [] (.mk h cs)).flatMap problemsAt)
      fun _ => True := by
  have hinherit : Reports (visitAll env h.kind (fun _ => {}) cs)
      ((Node.placesAll [h] cs).flatMap problemsAt) fun _ => True :=
    visitAll_reports env cs hcs _ _ _ fun c =>
      (isRestricted_child (by rw [hk]; decide) c []).symm
  rw [hk] at hinherit
  unfold visit
  simp only [hk]
  exact reports_children (by rw [hk]; rfl) rfl rfl hinherit

end Visit

end Validation

/-! ### Validating a unit -/

/-- The problems of code where it is forbidden that a validation reports. -/
def Validated.scripting {σ : Type} (v : Validated σ) : List Diagnostic :=
  match v.failure with
  | some (.fault (.diagnostics ds)) => ds.filter (·.issue == .scriptingNotAllowed)
  | _ => []

theorem Collector.scripting_fault? (c : Collector) {σ : Type} (n : Node) (memory : σ) :
    Validated.scripting ⟨n, c.fault?.map .fault, memory⟩ = c.scripting := by
  unfold Collector.fault? Validated.scripting Collector.scripting
  cases c.entries <;> rfl

/-- **Code is reported exactly where it is forbidden.** If all problems are kept, the validation of
a tree as parsing builds it reports each piece of code and each attribute given as code once if some
tag above it forbids code in the child that leads down to it, and no other. A number of problems to
keep that is negative or for which there can be no room is refused. -/
theorem validate_scripting {σ : Type} (library : Option (Bytes → σ → Except Fault TagLibrary × σ))
    (options : ValidationOptions) (memory : σ) (root : Node) (hroot : root.IsUnit)
    (hkeep : options.overflow = .noCap) :
    (∀ f, Collector.empty? options.overflow options.maxErrors = .error f →
      (root.validate library options memory).failure = some f) ∧
    (∀ c, Collector.empty? options.overflow options.maxErrors = .ok c →
      (root.validate library options memory).scripting.Perm
        ((root.places []).flatMap Validation.problemsAt)) := by
  obtain ⟨h, cs⟩ := root
  obtain ⟨hk, -, hcs⟩ := hroot
  refine ⟨fun f hf => by rw [Node.validate, hf], fun c hc => ?_⟩
  obtain ⟨hpolicy, hentries⟩ := Collector.empty?_eq_ok hc
  have hrun := (Validation.visit_root_reports ⟨library, options.binder⟩ hk hcs .root).bind
    fun r _ => (Validation.quiet_finish h).bind fun _ => Validation.Quiet.pure r.1
  have hperm := (hrun (Validation.startOf c (.mk h cs) memory) (hpolicy.trans hkeep)).2.1
  have hnone : c.scripting = [] := by rw [Collector.scripting, hentries, List.filter_nil]
  rw [Node.validate, hc]
  refine (List.Perm.of_eq (Collector.scripting_fault? _ _ _)).trans (hperm.trans ?_)
  show (c.scripting ++ _).Perm _
  rw [hnone, List.nil_append, List.append_nil]
  exact List.Perm.refl _

/-- A tag with the body given, in a unit. -/
def tagAround (body : BodyContent) (children : List Node) : Node :=
  let tag : CustomTag := ⟨"t", "wrap", "urn:t", some { body := body }, false, 0, [], {}, {}⟩
  .mk { kind := .customTag, tag := some tag } children

/-- A scriptlet inside a tag with any body inside a tag that forbids code. -/
def nestedCode : Node :=
  .mk { kind := .root } [tagAround .scriptless [tagAround .page [.leaf { kind := .scriptlet }]]]

theorem isParsed_tagAround (body : BodyContent) {children : List Node}
    (h : Node.AllParsed children) : (tagAround body children).IsParsed :=
  Head.IsOpen.node ⟨⟨by simp, by simp, fun _ => rfl⟩, rfl⟩ h

theorem validate_scripting_nested : nestedCode.IsUnit ∧
    (nestedCode.validate (σ := Unit) none {} ()).scripting.Perm
      [Validation.codeProblem { kind := .scriptlet }] := by
  have hleaf : Node.AllParsed [.leaf { kind := .scriptlet }] :=
    Node.allParsed_nil.push (Node.IsParsed.of_leaf rfl rfl)
  have hunit : nestedCode.IsUnit := ⟨rfl, rfl, Node.allParsed_nil.push
    (isParsed_tagAround _ (Node.allParsed_nil.push (isParsed_tagAround _ hleaf)))⟩
  exact ⟨hunit, (validate_scripting none {} () nestedCode hunit rfl).2 _ rfl⟩

end ServerPages
