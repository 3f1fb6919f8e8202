import ServerPages.Proofs.Bytes
import ServerPages.Proofs.Parsing

/-!
# Children that are admitted

A directive has no children unless it includes a file, and most standard actions take only some
elements, between which there is blank text at most. In documents the children of an action are
checked when all are known. The native syntax looks at how each one starts, and the element that
starts in this way is then the one that is read.

## Main results

* `Native.makesActions_element`: what starts like a standard action is read as that action.
* `Native.admits_actionBody`, `Document.admits_actionChildren`: the children of an action are those
  that it takes.
-/

namespace ServerPages

/-- A property of some siblings that text keeps when it goes on is kept when one more is added. -/
theorem Node.forall_mem_push {P : Node → Prop} {ns : List Node} {n : Node} (hns : ∀ m ∈ ns, P m)
    (hn : P n) (hextend : ∀ m, m.kind = .text → P m → P (m.extend n.text)) :
    ∀ m ∈ Node.push ns n, P m := by
  unfold Node.push
  split
  · exact List.forall_mem_singleton.mpr hn
  next last hlast =>
  split
  · next htexts =>
    rw [Bool.and_eq_true, Bool.and_eq_true, beq_iff_eq, beq_iff_eq] at htexts
    refine List.forall_mem_append.mpr ⟨?_, List.forall_mem_singleton.mpr ?_⟩
    · exact fun m hm => hns m (List.dropLast_subset ns hm)
    · exact hextend last htexts.1.2 (hns last (List.mem_of_getLast? hlast))
  · exact List.forall_mem_append.mpr ⟨hns, List.forall_mem_singleton.mpr hn⟩

/-- The children may stand under the head: none under a directive other than an include directive,
and under a standard action only those that it takes, beside blank text. -/
structure Head.Admits (h : Head) (cs : List Node) : Prop where
  directive : h.kind.isDirective = true → h.kind ≠ .includeDirective → cs = []
  action : ∀ allowed, Parsing.allowedChildren? h.kind = some allowed →
    ∀ c ∈ cs, c.isBlankText = true ∨ c.kind ∈ allowed

theorem Head.admits_nil (h : Head) : h.Admits [] :=
  ⟨fun _ _ => rfl, fun _ _ _ hc => absurd hc List.not_mem_nil⟩

/-- Whether children are admitted depends on the kinds, and on which of them are blank text. -/
theorem Head.Admits.congr {h h' : Head} {cs cs' : List Node} (hh : h.Admits cs)
    (hk : h'.kind = h.kind)
    (hcs : ∀ c' ∈ cs', ∃ c ∈ cs, c'.kind = c.kind ∧ c'.isBlankText = c.isBlankText) :
    h'.Admits cs' := by
  refine ⟨fun hd hne => ?_, fun allowed ha c' hc' => ?_⟩
  · rw [hk] at hd hne
    refine List.eq_nil_iff_forall_not_mem.mpr fun c' hc' => ?_
    obtain ⟨c, hc, -⟩ := hcs c' hc'
    exact absurd (hh.directive hd hne ▸ hc) List.not_mem_nil
  · obtain ⟨c, hc, hkind, hblank⟩ := hcs c' hc'
    rw [hkind, hblank]
    exact hh.action allowed (hk ▸ ha) c hc

/-- Every child may stand under a head of most kinds. -/
theorem Head.Admits.of_kind {h : Head} (hd : h.kind.isDirective = false)
    (ha : Parsing.allowedChildren? h.kind = none) (cs : List Node) : h.Admits cs := by
  refine ⟨fun hk => ?_, fun allowed hk => ?_⟩
  · rw [hd] at hk
    cases hk
  · rw [ha] at hk
    cases hk

/-- Every child may stand under an include directive. -/
theorem Head.Admits.of_include {h : Head} (hk : h.kind = .includeDirective) (cs : List Node) :
    h.Admits cs := by
  refine ⟨fun _ hne => absurd hk hne, fun allowed ha => ?_⟩
  rw [hk] at ha
  cases ha

/-- Every child may stand under a tag. -/
theorem Head.Admits.of_tag {h : Head} (hk : h.kind = .customTag) (closed : Bool)
    (cs : List Node) :
    Head.Admits { h with tag := h.tag.map fun t => { t with selfClosed := closed } } cs :=
  .of_kind (by rw [hk]; rfl) (by rw [hk]; rfl) cs

theorem Kind.isDirective_of_action? {name : Bytes} {k : Kind} (h : Kind.action? name = some k) :
    k.isDirective = false := by
  obtain ⟨l, r, hl, -⟩ := List.lookup_eq_some_iff.mp h
  have hk : k ∈ Kind.actions.map (·.2) := by simp [hl]
  revert hk
  cases k <;> decide

namespace Parsing

variable {σ : Type}

/-! ### Kinds of heads -/

theorem returns_refuse {α : Type} {P : α → Prop} (issue : Issue) (p : Position) (m : Bytes) :
    Returns P (refuse issue p m : Parse σ α) := Returns.throw _

theorem returns_refuse_bind {α β : Type} {Q : β → Prop} (issue : Issue) (p : Position) (m : Bytes)
    (f : α → Parse σ β) : Returns Q (refuse issue p m >>= f) :=
  (returns_refuse (P := fun _ => False) issue p m).bind fun _ h => h.elim

theorem kind_applyToNamed (h : Head) (a : Attribute) : (applyToNamed h a).kind = h.kind := by
  unfold applyToNamed
  split
  · rfl
  split
  · rfl
  split <;> rfl

theorem attributes_applyToNamed (h : Head) (a : Attribute) :
    (applyToNamed h a).attributes = h.attributes := by
  unfold applyToNamed
  split
  · rfl
  split
  · rfl
  split <;> rfl

/-- What is true of a head with any one more attribute. -/
theorem returns_addAttribute_of {P : Head → Prop} {h : Head}
    (hP : ∀ a, P (applyToNamed { h with attributes := h.attributes ++ [a] } a))
    (functionUri : Bytes → Bytes) (uriOf : Option (Bytes → Bytes)) (name raw : Bytes)
    (script : Bool) (p : Position) (scriptless : Bool) :
    Returns P (addAttribute functionUri uriOf h name raw script p scriptless : Parse σ Head) := by
  unfold addAttribute
  dsimp only
  split
  · exact returns_refuse_bind _ _ _ _
  split
  · exact returns_refuse_bind _ _ _ _
  · exact Returns.skip fun a => Returns.pure (hP a)

/-- What an attribute does not change. -/
theorem returns_addAttribute_eq {γ : Type} {f : Head → γ}
    (hf : ∀ h a, f (applyToNamed { h with attributes := h.attributes ++ [a] } a) = f h)
    (functionUri : Bytes → Bytes) (uriOf : Option (Bytes → Bytes)) (h : Head) (name raw : Bytes)
    (script : Bool) (p : Position) (scriptless : Bool) :
    Returns (fun h' => f h' = f h)
      (addAttribute functionUri uriOf h name raw script p scriptless : Parse σ Head) :=
  returns_addAttribute_of (hf h) _ _ _ _ _ _ _

theorem returns_kind_addAttribute (functionUri : Bytes → Bytes) (uriOf : Option (Bytes → Bytes))
    (h : Head) (name raw : Bytes) (script : Bool) (p : Position) (scriptless : Bool) :
    Returns (fun h' => h'.kind = h.kind)
      (addAttribute functionUri uriOf h name raw script p scriptless : Parse σ Head) :=
  returns_addAttribute_eq (fun _ a => kind_applyToNamed _ a) _ _ h _ _ _ _ _

theorem returns_kind_directiveHead (name : Bytes) (p : Position) (scriptless : Bool) :
    Returns (fun h => Kind.directive? name = some h.kind)
      (directiveHead name p scriptless : Parse σ Head) := by
  unfold directiveHead
  split
  · exact Returns.throw _
  · next k hk => exact Returns.pure hk

theorem returns_kind_actionHead (name : Bytes) (p : Position) (scriptless : Bool) :
    Returns (fun h => Kind.action? name = some h.kind)
      (actionHead name p scriptless : Parse σ Head) := by
  unfold actionHead
  split
  · exact Returns.throw _
  · next k hk => exact Returns.pure hk

theorem returns_kind_tagHead (env : Env σ) (l : TagLibrary) (uri prefixName name : Bytes)
    (p : Position) (scriptless : Bool) :
    Returns (fun h => h.kind = .customTag) (tagHead env l uri prefixName name p scriptless) :=
  Returns.skip fun _ => Returns.pure rfl

/-- What is checked of the children of an action. -/
theorem admits_of_checkActionBody {h : Head} (hd : h.kind.isDirective = false) (cs : List Node) :
    Returns (fun _ => h.Admits cs) (checkActionBody h cs : Parse σ Unit) := by
  unfold checkActionBody
  split
  · next ha => exact fun _ _ _ _ => .of_kind hd ha cs
  next allowed ha =>
  split
  · next hnone =>
    refine Returns.pure ⟨fun hk => ?_, fun allowed' ha' c hc => ?_⟩
    · rw [hd] at hk
      cases hk
    · obtain rfl := Option.some.inj (ha.symm.trans ha')
      have hc := List.find?_eq_none.mp hnone c hc
      simp only [Bool.and_eq_true, Bool.not_eq_true', not_and, Bool.not_eq_false] at hc
      by_cases hblank : c.isBlankText = true
      · exact .inl hblank
      · exact .inr (by simpa using hc (by simpa using hblank))
  · exact Returns.ite (Returns.throw _) (Returns.throw _)

/-! ### The native syntax -/

namespace Native

section Attributes

variable {P : Head → Prop} (hP : ∀ functionUri uriOf h name raw script p scriptless, P h →
  Returns P (addAttribute functionUri uriOf h name raw script p scriptless : Parse σ Head))

include hP

/-- What every attribute keeps of a head, the attributes of a tag keep. -/
theorem returns_attributesWithin_of (scriptless : Bool) (fuel : Nat) {h : Head} (hh : P h) :
    Returns (fun r => P r.1) (attributesWithin scriptless fuel h : Parse σ (Head × Bool)) := by
  induction fuel generalizing h with
  | zero => exact Returns.throw _
  | succ fuel ih =>
    refine Returns.skip fun _ => Returns.skip fun _ => Returns.ite (Returns.pure hh) ?_
    refine Returns.skip fun _ => Returns.ite (Returns.pure hh) ?_
    refine Returns.skip fun _ => Returns.guard fun _ => ?_
    refine Returns.skip fun _ => Returns.skip fun _ => Returns.skip fun s => ?_
    exact (hP _ _ h _ _ _ _ _ hh).bind fun h' hh' => ih hh'

/-- What every attribute keeps of a head, the attributes of a directive keep. -/
theorem returns_directiveAttributes_of (scriptless : Bool) (fuel : Nat) {h : Head} (hh : P h) :
    Returns P (directiveAttributes scriptless fuel h : Parse σ Head) := by
  induction fuel generalizing h with
  | zero => exact Returns.throw _
  | succ fuel ih =>
    refine Returns.skip fun _ => Returns.skip fun _ => Returns.ite (Returns.pure hh) ?_
    refine Returns.skip fun _ => Returns.guard fun _ => ?_
    refine Returns.skip fun _ => Returns.skip fun _ => Returns.skip fun s => ?_
    exact (hP _ _ h _ _ _ _ _ hh).bind fun h' hh' => ih hh'

end Attributes

theorem returns_kind_attributes (h : Head) (scriptless : Bool) :
    Returns (fun r => r.1.kind = h.kind) (attributes h scriptless : Parse σ (Head × Bool)) :=
  Returns.skip fun _ => returns_attributesWithin_of (P := fun h' => h'.kind = h.kind)
    (fun _ _ h' _ _ _ _ _ hh => hh ▸ returns_kind_addAttribute _ _ h' _ _ _ _ _) _ _ rfl

theorem returns_kind_directiveAttributes (scriptless : Bool) (fuel : Nat) (h : Head) :
    Returns (fun h' => h'.kind = h.kind)
      (directiveAttributes scriptless fuel h : Parse σ Head) :=
  returns_directiveAttributes_of (P := fun h' => h'.kind = h.kind)
    (fun _ _ h' _ _ _ _ _ hh => hh ▸ returns_kind_addAttribute _ _ h' _ _ _ _ _) _ _ rfl

/-- Where a standard action starts, the parser of one construct adds it to the siblings. -/
def Element.MakesActions (inner : Element σ) : Prop :=
  ∀ parent scriptless siblings s cs t, s.cursor.sees "<jsp:" = true →
    inner parent scriptless siblings s = .ok cs t →
    ∃ n, cs = Node.push siblings n ∧
      Kind.action? (Cursor.nameOf (s.cursor.rest.drop 5)) = some n.kind ∧
      (n.kind = .body → parent.kind = .customTag)

theorem returns_checkPlacement (parent h : Head) :
    Returns (fun _ => (h.kind = .namedAttribute → takesNamedAttributes parent.kind = true) ∧
      (h.kind = .body → parent.kind = .customTag)) (checkPlacement parent h : Parse σ Unit) := by
  have hok : ∀ ok : Bool, (ok = true → (h.kind = .namedAttribute →
      takesNamedAttributes parent.kind = true) ∧ (h.kind = .body → parent.kind = .customTag)) →
      Returns (fun _ => (h.kind = .namedAttribute → takesNamedAttributes parent.kind = true) ∧
        (h.kind = .body → parent.kind = .customTag)) (if ok then pure () else
          refuse .misplacedAction h.start
            (describe h ++ " is not allowed inside " ++ describe parent) : Parse σ Unit) := by
    intro ok hplaced
    split
    · next hok => exact Returns.pure (hplaced hok)
    · exact returns_refuse _ _ _
  refine hok _ fun hplaced => ⟨fun hk => ?_, fun hk => ?_⟩
  · simpa [hk] using hplaced
  · simpa [hk] using hplaced

theorem standardAction_makes {inner : Element σ} {parent : Head} {scriptless : Bool}
    {siblings : List Node} {s t : State σ} {cs : List Node}
    (h : standardAction inner parent scriptless siblings s = .ok cs t) :
    ∃ n, cs = Node.push siblings n ∧
      Kind.action? (Cursor.nameOf (s.cursor.skip 5).rest) = some n.kind ∧
      (n.kind = .body → parent.kind = .customTag) := by
  have hstart : standardAction inner parent scriptless siblings s = (do
      let name ← readName
      let h ← actionHead name s.cursor.position scriptless
      checkPlacement parent h
      let r ← attributes h scriptless
      let children ← if r.2 then pure [] else actionBody inner parent r.1 scriptless
      return Node.push siblings (.mk r.1 children)) { s with cursor := s.cursor.skip 5 } := rfl
  rw [hstart] at h
  obtain ⟨name, u, hname, h⟩ := bind_eq_ok h
  cases hname
  obtain ⟨hd, v, hhead, h⟩ := bind_eq_ok h
  obtain ⟨_, w, hplace, h⟩ := bind_eq_ok h
  obtain ⟨⟨hd', closed⟩, x, hattributes, h⟩ := bind_eq_ok h
  have hkind : hd'.kind = hd.kind := returns_kind_attributes hd scriptless _ _ _ hattributes
  obtain ⟨children, rfl⟩ : ∃ children, cs = Node.push siblings (.mk hd' children) := by
    cases closed with
    | true =>
      cases h
      exact ⟨[], rfl⟩
    | false =>
      obtain ⟨children, y, -, h⟩ := bind_eq_ok h
      cases h
      exact ⟨children, rfl⟩
  refine ⟨.mk hd' children, rfl, ?_, fun hk => ?_⟩
  · show _ = some hd'.kind
    rw [hkind]
    exact returns_kind_actionHead _ _ _ _ _ _ hhead
  · exact (returns_checkPlacement parent hd _ _ _ hplace).2 (hkind.symm.trans hk)

theorem makesActions_construct (env : Env σ) (included : Include σ) (inner : Element σ) :
    Element.MakesActions (construct env included inner) := by
  intro parent scriptless siblings s cs t hsees h
  -- No other construct starts in this way.
  have hno : ∀ lit : Bytes, [60, 37] <+: lit → s.cursor.sees lit = false := by
    intro lit hlit
    rw [Bool.eq_false_iff]
    intro hlit'
    obtain ⟨x, hx⟩ := Bytes.startsWith_iff.mp hsees
    obtain ⟨y, hy⟩ := hlit.trans (Bytes.startsWith_iff.mp hlit')
    cases hx.trans hy.symm
  have h1 : s.cursor.sees "<%--" = false := hno _ (by decide)
  have h2 : s.cursor.sees "<%@" = false := hno _ (by decide)
  have h3 : s.cursor.sees "<%!" = false := hno _ (by decide)
  have h4 : s.cursor.sees "<%=" = false := hno _ (by decide)
  have h5 : s.cursor.sees "<%" = false := hno _ (by decide)
  rw [construct_eq] at h
  simp only [h1, h2, h3, h4, h5, hsees, Bool.false_eq_true, if_false, if_true] at h
  have hrest : (s.cursor.skip 5).rest = s.cursor.rest.drop 5 := by
    obtain ⟨x, hx⟩ := Bytes.startsWith_iff.mp hsees
    show s.cursor.rest.drop (s.cursor.rest.take 5).length = _
    rw [← hx]
    rfl
  rw [← hrest]
  exact standardAction_makes h

/-- What starts like a standard action is read as that action. -/
theorem makesActions_element (env : Env σ) (included : Include σ) (fuel : Nat) :
    Element.MakesActions (element env included fuel) := by
  cases fuel with
  | zero => exact fun _ _ _ _ _ _ _ h => by cases h
  | succ fuel => exact makesActions_construct env included _

/-! ### Bodies of the native syntax -/

theorem eq_of_acceptsEndTag_false {name : Bytes} {s t : State σ}
    (h : acceptsEndTag name s = .ok false t) : t = s := by
  rw [acceptsEndTag, bind_ok (cursor_eq s)] at h
  cases hc : s.cursor.acceptEndTag? name with
  | some c =>
    rw [hc] at h
    cases h
  | none =>
    rw [hc] at h
    cases h
    rfl

/-- Nodes that stand side by side, all of some kinds. -/
def KindsIn (kinds : Kind → Prop) (ns : List Node) : Prop := ∀ n ∈ ns, kinds n.kind

theorem kindsIn_nil (kinds : Kind → Prop) : KindsIn kinds [] :=
  fun _ hn => absurd hn List.not_mem_nil

theorem KindsIn.push {kinds : Kind → Prop} {ns : List Node} {n : Node} (hns : KindsIn kinds ns)
    (hn : kinds n.kind) : KindsIn kinds (Node.push ns n) :=
  Node.forall_mem_push hns hn fun _ _ hm => hm

/-- A standard action whose name starts in some way is one of those whose names do. -/
theorem kind_of_name_prefix (start : Bytes) {r : Bytes} {k k' : Kind}
    (hstart : start.all Cursor.isNameByte)
    (honly : ∀ p ∈ Kind.actions, start.isPrefixOf p.1 = true → p.2 = k')
    (h : Kind.action? (Cursor.nameOf (start ++ r)) = some k) : k = k' := by
  obtain ⟨l, l', hl, -⟩ := List.lookup_eq_some_iff.mp h
  refine honly (Cursor.nameOf (start ++ r), k) (hl ▸ by simp) ?_
  rw [Cursor.nameOf, List.takeWhile_append_of_pos (List.all_eq_true.mp hstart),
    List.isPrefixOf_iff_prefix]
  exact List.prefix_append _ _

section Bodies

variable {inner : Element σ} (hinner : inner.MakesActions)

include hinner

/-- In a restricted body there are only elements that are allowed. -/
theorem kindsIn_restrictedWithin {h : Head} {kinds : Kind → Prop} {allows : Bytes → Bool}
    (hallows : ∀ r, allows r = true → Bytes.startsWith r "<jsp:" = true ∧
      ∀ k, Kind.action? (Cursor.nameOf (r.drop 5)) = some k → (k = .body → h.kind = .customTag) →
        kinds k)
    (scriptless : Bool) (complaint : Bytes) (fuel : Nat) {cs : List Node} (hcs : KindsIn kinds cs) :
    Returns (KindsIn kinds) (restrictedWithin inner h scriptless allows complaint fuel cs) := by
  induction fuel generalizing cs with
  | zero => exact Returns.throw _
  | succ fuel ih =>
    refine Returns.skip fun _ => ?_
    intro s ds u hrun
    rw [bind_ok (cursor_eq s)] at hrun
    obtain ⟨ended, t, hend, hrun⟩ := bind_eq_ok hrun
    cases ended with
    | true =>
      cases hrun
      exact hcs
    | false =>
      obtain rfl := eq_of_acceptsEndTag_false hend
      rw [if_neg Bool.false_ne_true, bind_accepts] at hrun
      split at hrun
      · obtain ⟨_, v, -, hrun⟩ := bind_eq_ok hrun
        exact ih hcs _ _ _ hrun
      rw [if_neg Bool.false_ne_true] at hrun
      split at hrun
      · next hallowed =>
        obtain ⟨hsees, hkinds⟩ := hallows _ hallowed
        obtain ⟨ds', v, hone, hrun⟩ := bind_eq_ok hrun
        obtain ⟨n, rfl, hkind, hplace⟩ := hinner h scriptless cs _ ds' v hsees hone
        exact ih (hcs.push (hkinds _ hkind hplace)) _ _ _ hrun
      · split at hrun <;> cases hrun

theorem kindsIn_restrictedBody {h : Head} {kinds : Kind → Prop} {allows : Bytes → Bool}
    (hallows : ∀ r, allows r = true → Bytes.startsWith r "<jsp:" = true ∧
      ∀ k, Kind.action? (Cursor.nameOf (r.drop 5)) = some k → (k = .body → h.kind = .customTag) →
        kinds k)
    (scriptless : Bool) (complaint : Bytes) :
    Returns (KindsIn kinds) (restrictedBody inner h scriptless allows complaint) :=
  Returns.skip fun _ =>
    kindsIn_restrictedWithin hinner hallows scriptless complaint _ (kindsIn_nil kinds)

/-- In the body of an element with named attributes there are these, and body elements in a tag. -/
theorem kindsIn_namedBody (h : Head) (scriptless : Bool) :
    Returns (KindsIn fun k => k = .namedAttribute ∨ k = .body ∧ h.kind = .customTag)
      (namedBody inner h scriptless) := by
  refine kindsIn_restrictedBody hinner (fun r hr => ?_) _ _
  rcases Bool.or_eq_true_iff.mp hr with hr | hr
  · obtain ⟨x, rfl⟩ := Bytes.startsWith_iff.mp hr
    refine ⟨rfl, fun k hkind _ => .inl ?_⟩
    exact kind_of_name_prefix "attribute" (by decide) (by decide) hkind
  · obtain ⟨x, rfl⟩ := Bytes.startsWith_iff.mp hr
    refine ⟨rfl, fun k hkind hbody => ?_⟩
    have hk : k = .body := kind_of_name_prefix "body" (by decide) (by decide) hkind
    exact .inr ⟨hk, hbody hk⟩

/-- Among the children of an element that is no tag, named attributes stand alone. -/
theorem kindsIn_emptyBody {h : Head} (hk : h.kind ≠ .customTag) (scriptless : Bool) :
    Returns (KindsIn (· = .namedAttribute)) (emptyBody inner h scriptless) := by
  refine Returns.skip fun _ => Returns.ite (Returns.pure (kindsIn_nil _)) ?_
  refine Returns.skip fun _ => Returns.ite ?_ (Returns.skip fun _ => returns_refuse _ _ _)
  refine (kindsIn_namedBody hinner h _).mono fun cs hcs c hc => ?_
  exact (hcs c hc).resolve_right fun hbody => hk hbody.2

theorem kindsIn_actionsBody (h : Head) (scriptless : Bool) (allowed : List Bytes) :
    Returns (KindsIn fun k => ∃ name ∈ allowed, Kind.action? name = some k)
      (actionsBody inner h scriptless allowed) := by
  refine kindsIn_restrictedBody hinner (fun r hr => ?_) _ _
  obtain ⟨hstart, hname⟩ := Bool.and_eq_true_iff.mp hr
  exact ⟨hstart, fun k hk _ => ⟨_, List.contains_iff_mem.mp hname, hk⟩⟩

/-- The children of a standard action are of the kinds that it takes. -/
theorem kindsIn_actionBody (parent : Head) {h : Head} {allowed : List Kind}
    (ha : allowedChildren? h.kind = some allowed) (scriptless : Bool) :
    Returns (KindsIn (· ∈ allowed)) (actionBody inner parent h scriptless) := by
  have hempty : h.kind ≠ .customTag → allowed = [.namedAttribute] →
      Returns (KindsIn (· ∈ allowed)) (emptyBody inner h scriptless) := fun hk hallowed =>
    (kindsIn_emptyBody hinner hk scriptless).mono fun cs hcs c hc => by simp [hallowed, hcs c hc]
  have hactions : ∀ names : List Bytes,
      (∀ name ∈ names, ∀ k, Kind.action? name = some k → k ∈ allowed) →
      Returns (KindsIn (· ∈ allowed)) (actionsBody inner h scriptless names) := fun names hnames =>
    (kindsIn_actionsBody hinner h scriptless names).mono fun cs hcs c hc =>
      have ⟨name, hname, hk⟩ := hcs c hc
      hnames name hname c.kind hk
  unfold actionBody
  cases hk : h.kind <;> rw [hk] at ha <;> try (cases ha; done)
  all_goals obtain rfl := Option.some.inj ha
  case getProperty =>
    refine Returns.skip fun _ => Returns.ite (Returns.pure (kindsIn_nil _)) ?_
    exact Returns.skip fun _ => returns_refuse _ _ _
  case includeAction => exact hactions _ (by decide)
  case forwardAction => exact hactions _ (by decide)
  case params => exact hactions _ (by decide)
  case plugin => exact hactions _ (by decide)
  all_goals exact hempty (by rw [hk]; decide) rfl

theorem admits_actionBody (parent : Head) {h : Head} (hd : h.kind.isDirective = false)
    (scriptless : Bool) : Returns h.Admits (actionBody inner parent h scriptless) := by
  refine fun s cs t hrun => ⟨fun hk => ?_, fun allowed ha c hc => .inr ?_⟩
  · rw [hd] at hk
    cases hk
  · exact kindsIn_actionBody hinner parent ha scriptless s cs t hrun c hc

end Bodies

end Native

/-! ### Documents -/

namespace Document

theorem returns_addAttributes_eq {γ : Type} {f : Head → γ}
    (hf : ∀ h a, f (applyToNamed { h with attributes := h.attributes ++ [a] } a) = f h)
    (ns : Namespaces) (p : Position) (scriptless : Bool) (h : Head) (as : List Markup.Attribute) :
    Returns (fun h' => f h' = f h) (addAttributes ns p scriptless h as : Parse σ Head) := by
  induction as generalizing h with
  | nil => exact Returns.pure rfl
  | cons a as ih =>
    refine Returns.ite (ih h) ?_
    refine (returns_addAttribute_eq hf _ _ h _ _ _ _ _).bind fun h' hh' => ?_
    exact hh' ▸ ih h'

theorem returns_kind_addAttributes (ns : Namespaces) (p : Position) (scriptless : Bool) (h : Head)
    (as : List Markup.Attribute) :
    Returns (fun h' => h'.kind = h.kind) (addAttributes ns p scriptless h as : Parse σ Head) :=
  returns_addAttributes_eq (fun _ a => kind_applyToNamed _ a) ns p scriptless h as

/-- The children of a standard action are those that it takes. -/
theorem admits_actionChildren (inner : Content σ) (ns : Namespaces) (t : StartTag) (parent : Head)
    {h : Head} (hd : h.kind.isDirective = false) (scriptless : Bool) :
    Returns h.Admits (actionChildren inner ns t parent h scriptless) := by
  have hchildren : ∀ scriptless, Returns h.Admits (do
      let children ← inner ns (some t.name) h scriptless []
      checkActionBody h children
      return children) := fun scriptless => Returns.skip fun cs =>
    (admits_of_checkActionBody hd cs).bind fun _ hcs => Returns.pure hcs
  have hany : ∀ {x : Parse σ (List Node)}, allowedChildren? h.kind = none →
      Returns h.Admits x := fun ha _ cs _ _ => .of_kind hd ha cs
  unfold actionChildren
  dsimp only
  split
  · next hk => exact hany (by rw [hk]; rfl)
  · next hk => exact hany (by rw [hk]; rfl)
  · exact hchildren _

end Document

end Parsing

end ServerPages
