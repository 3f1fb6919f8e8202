import ServerPages.Parsing.Parse
import ServerPages.Proofs.AdmittedChildren

/-!
# What parsing carries on

The parsers of both syntaxes take the siblings before a construct to the siblings after it. What is
known of the siblings under a head, if every construct carries it on, is known of the content of
every element and of every source. Here the constructs are put together, once for all such
properties; what is left for a property is what text, a directive, an action and a tag make of it.

## Main definitions

* `Native.IsCarried`, `Document.IsCarried`: every construct of a syntax carries a property on.

## Main results

* `Parsing.returns_parseSource`: what a source puts under a head has the property.
-/

namespace ServerPages

/-- Whether nodes of the kind have neither attributes nor children. -/
def Kind.isLeaf (k : Kind) : Bool := k == .text || k == .elExpression || k.isScripting

theorem Kind.isLeaf_of_isScripting {k : Kind} (hk : k.isScripting = true) : k.isLeaf = true := by
  simp [isLeaf, hk]

/-- What follows a text that is not blank does not make it blank. -/
theorem Bytes.isBlank_append {s : Bytes} (hs : s.isBlank = false) (r : Bytes) :
    isBlank (s ++ r) = false := by
  rw [isBlank_append_eq, hs, Bool.false_and]

namespace Parsing

variable {σ : Type}

/-! ### Leaves -/

theorem returns_elNode (uriOf : Bytes → Bytes) (source : Bytes) (p : Position)
    (scriptless : Bool) :
    Returns (fun n => ∃ h : Head, n = .leaf h ∧ h.kind.isLeaf = true ∧ h.attributes = [])
      (elNode uriOf source p scriptless : Parse σ Node) := by
  unfold elNode
  split
  · exact returns_refuse _ _ _
  · exact Returns.pure ⟨_, rfl, rfl, rfl⟩

/-- Nodes with neither attributes nor children do not matter to the property of siblings. -/
def AdmitsLeaves (P : List Node → Prop) : Prop :=
  ∀ (h : Head) (ns : List Node), h.kind.isLeaf = true → h.attributes = [] → P ns →
    P (Node.push ns (.leaf h))

section Text

variable {P : List Node → Prop} (hP : AdmitsLeaves P)

include hP

theorem returns_segmentNodes (uriOf : Bytes → Bytes) (s : Bytes) (p : Position)
    (scriptless : Bool) {siblings : List Node} (hs : P siblings)
    (segs : List Expression.Segment) :
    Returns P (segmentNodes uriOf s p scriptless siblings segs : Parse σ (List Node)) := by
  induction segs generalizing siblings with
  | nil => exact Returns.pure hs
  | cons seg segs ih =>
    rw [segmentNodes]
    refine Returns.ite ((returns_elNode _ _ _ _).bind ?_) (ih (hP _ _ rfl rfl hs))
    rintro n ⟨h, rfl, hk, ha⟩
    exact ih (hP h _ hk ha hs)

theorem returns_textNodes (uriOf : Bytes → Bytes) {siblings : List Node}
    (hs : P siblings) (s : Bytes) (p : Position) (scriptless allowEl : Bool) :
    Returns P (textNodes uriOf siblings s p scriptless allowEl : Parse σ (List Node)) := by
  refine Returns.ite (Returns.pure hs) (Returns.skip fun t => ?_)
  refine Returns.ite (Returns.pure (hP _ _ rfl rfl hs)) ?_
  refine Returns.ite (Returns.pure (hP _ _ rfl rfl hs)) ?_
  split
  · exact returns_refuse _ _ _
  · exact returns_segmentNodes hP _ _ _ _ hs _

theorem returns_pushScripting {kind : Kind} (hk : kind.isScripting = true) (code : Bytes)
    (p : Position) (scriptless : Bool) {siblings : List Node} (hs : P siblings) :
    Returns P (do
      let n ← scriptingNode kind code p scriptless
      return Node.push siblings n : Parse σ (List Node)) := by
  unfold scriptingNode
  split
  · exact returns_refuse_bind _ _ _ _
  · exact Returns.pure (hP _ _ (Kind.isLeaf_of_isScripting hk) rfl hs)

end Text

/-- What is known of the siblings under a head holds where there are none, and text, code and
expressions do not matter to it. -/
structure IsOpenTo (P : Head → List Node → Prop) : Prop where
  nil (h : Head) : P h []
  leaf (h : Head) : AdmitsLeaves (P h)

/-- A text that is the only content, if it is not empty. -/
theorem IsOpenTo.text {P : Head → List Node → Prop} (hP : IsOpenTo P) (h : Head) (s : Bytes)
    (p : Position) (scriptless : Bool) :
    P h (if s == [] then [] else [textNode s p scriptless]) := by
  split
  · exact hP.nil h
  · exact hP.leaf h _ [] rfl rfl (hP.nil h)

/-- The nodes of an included file are as its parser makes them. -/
theorem returns_includeFile (env : Env σ) {parse : SourceParser σ} {P : List Node → Prop}
    (h : Head) (scriptless : Bool) (hparse : ∀ form, Returns P (parse form h scriptless)) :
    Returns P (includeFile env parse h scriptless) := by
  unfold includeFile
  split
  · exact returns_refuse _ _ _
  refine Returns.skip fun s => Returns.guard fun _ => ?_
  dsimp only
  split
  · exact returns_refuse_bind _ _ _ _
  refine Returns.skip fun answer => ?_
  split
  · refine Returns.skip fun text => ?_
    split
    · exact returns_refuse _ _ _
    · exact Returns.skip fun _ => (hparse _).bind fun cs hcs =>
        Returns.skip fun _ => Returns.pure hcs
  · exact returns_refuse_bind _ _ _ _

/-! ### The native syntax -/

namespace Native

/-- The parser of one construct carries on what is known of the siblings. -/
def Element.Carries (P : Head → List Node → Prop) (inner : Element σ) : Prop :=
  ∀ parent scriptless siblings, P parent siblings →
    Returns (P parent) (inner parent scriptless siblings)

section Bodies

variable {P : Head → List Node → Prop} (hP : IsOpenTo P) {inner : Element σ}
  (hinner : inner.Carries P)

include hP

theorem carries_opaqueBody (h : Head) (scriptless : Bool) :
    Returns (P h) (opaqueBody h scriptless : Parse σ (List Node)) := by
  refine Returns.skip fun c => ?_
  split
  · exact returns_refuse _ _ _
  · exact Returns.skip fun _ => Returns.pure (hP.text h _ _ _)

theorem carries_textBody (h : Head) (scriptless : Bool) :
    Returns (P h) (textBody h scriptless : Parse σ (List Node)) := by
  refine Returns.skip fun c => ?_
  split
  · exact returns_refuse _ _ _
  refine Returns.skip fun _ => ?_
  dsimp only
  split
  · exact returns_refuse _ _ _
  · exact Returns.skip fun _ => returns_textNodes (hP.leaf h) _ (hP.nil h) _ _ _ _

omit hP in
include hinner in
theorem carries_bodyWithin (h : Head) (scriptless : Bool) (fuel : Nat) {cs : List Node}
    (hcs : P h cs) : Returns (P h) (bodyWithin inner h scriptless fuel cs) := by
  induction fuel generalizing cs with
  | zero => exact Returns.throw _
  | succ fuel ih =>
    refine Returns.skip fun _ => Returns.ite (Returns.pure hcs) ?_
    refine Returns.skip fun _ => Returns.guard fun _ => ?_
    exact (hinner _ _ _ hcs).bind fun cs hcs => ih hcs

omit hP in
include hinner in
theorem carries_restrictedWithin (h : Head) (scriptless : Bool) (allows : Bytes → Bool)
    (complaint : Bytes) (fuel : Nat) {cs : List Node} (hcs : P h cs) :
    Returns (P h) (restrictedWithin inner h scriptless allows complaint fuel cs) := by
  induction fuel generalizing cs with
  | zero => exact Returns.throw _
  | succ fuel ih =>
    refine Returns.skip fun _ => Returns.skip fun c => Returns.skip fun _ => ?_
    refine Returns.ite (Returns.pure hcs) (Returns.skip fun _ => ?_)
    refine Returns.ite (Returns.skip fun _ => ih hcs) (Returns.ite ?_ ?_)
    · exact (hinner _ _ _ hcs).bind fun cs hcs => ih hcs
    · exact Returns.ite (returns_refuse _ _ _) (returns_refuse _ _ _)

include hinner

theorem carries_body (h : Head) (scriptless : Bool) :
    Returns (P h) (body inner h scriptless) :=
  Returns.skip fun _ => carries_bodyWithin hinner _ _ _ (hP.nil h)

theorem carries_restrictedBody (h : Head) (scriptless : Bool) (allows : Bytes → Bool)
    (complaint : Bytes) :
    Returns (P h) (restrictedBody inner h scriptless allows complaint) :=
  Returns.skip fun _ => carries_restrictedWithin hinner _ _ _ _ _ (hP.nil h)

theorem carries_emptyBody (h : Head) (scriptless : Bool) :
    Returns (P h) (emptyBody inner h scriptless) := by
  refine Returns.skip fun _ => Returns.ite (Returns.pure (hP.nil h)) ?_
  refine Returns.skip fun _ => Returns.ite (carries_restrictedBody hP hinner _ _ _ _) ?_
  exact Returns.skip fun _ => returns_refuse _ _ _

theorem carries_contentBody (h : Head) (content : BodyContent) (scriptless : Bool) :
    Returns (P h) (contentBody inner h content scriptless) := by
  unfold contentBody
  split
  · exact carries_opaqueBody hP _ _
  · exact carries_body hP hinner _ _
  · exact carries_body hP hinner _ _

theorem carries_tagBody (h : Head) (scriptless : Bool) :
    Returns (P h) (tagBody inner h scriptless) := by
  refine Returns.skip fun _ => Returns.ite (carries_restrictedBody hP hinner _ _ _ _) ?_
  split
  · exact carries_emptyBody hP hinner _ _
  · exact carries_contentBody hP hinner _ _ _

theorem carries_actionBody (parent h : Head) (scriptless : Bool) :
    Returns (P h) (actionBody inner parent h scriptless) := by
  unfold actionBody
  split
  case h_1 | h_2 | h_3 | h_4 => exact carries_emptyBody hP hinner _ _
  case h_5 =>
    refine Returns.skip fun _ => Returns.ite (Returns.pure (hP.nil h)) ?_
    exact Returns.skip fun _ => returns_refuse _ _ _
  case h_6 | h_7 | h_8 | h_9 => exact carries_restrictedBody hP hinner _ _ _ _
  case h_10 => exact carries_opaqueBody hP _ _
  case h_11 => exact carries_textBody hP _ _
  case h_12 => exact Returns.skip fun _ => carries_contentBody hP hinner _ _ _
  case h_13 => exact carries_body hP hinner _ _

end Bodies

/-- Every construct of the native syntax carries on what is known of the siblings. -/
structure IsCarried (env : Env σ) (included : Include σ) (P : Head → List Node → Prop) : Prop
    extends IsOpenTo P where
  directive {parent : Head} {siblings : List Node} (hs : P parent siblings) (p : Position)
    (scriptless : Bool) : Returns (P parent) (directive env included p scriptless siblings)
  action {inner : Element σ} (hinner : inner.Carries P) (hmakes : inner.MakesActions)
    {parent : Head} {siblings : List Node} (hs : P parent siblings) (scriptless : Bool) :
    Returns (P parent) (standardAction inner parent scriptless siblings)
  tag {inner : Element σ} (hinner : inner.Carries P) (hmakes : inner.MakesActions)
    {parent : Head} {siblings : List Node} (hs : P parent siblings) (prefixName name : Bytes)
    (b : Binding) (scriptless : Bool) :
    Returns (P parent) (customTag env inner prefixName name b scriptless siblings)

namespace IsCarried

variable {env : Env σ} {included : Include σ} {P : Head → List Node → Prop}
  (hP : IsCarried env included P) {parent : Head} {siblings : List Node} (hs : P parent siblings)

include hP

section Leaves

include hs

theorem scripting {kind : Kind} (hk : kind.isScripting = true) (opener : Bytes) (p : Position)
    (scriptless : Bool) :
    Returns (P parent) (scripting kind opener p scriptless siblings : Parse σ (List Node)) := by
  refine Returns.skip fun c => ?_
  split
  · exact returns_refuse _ _ _
  · exact Returns.skip fun _ => returns_pushScripting (hP.leaf parent) hk _ _ _ hs

theorem expression (scriptless : Bool) :
    Returns (P parent) (expression scriptless siblings : Parse σ (List Node)) := by
  refine Returns.skip fun s => ?_
  dsimp only
  split
  · exact returns_refuse _ _ _
  · refine (returns_elNode _ _ _ _).bind ?_
    rintro n ⟨h, rfl, hk, ha⟩
    exact Returns.skip fun _ => Returns.pure (hP.leaf parent h siblings hk ha hs)

theorem templateText (scriptless : Bool) :
    Returns (P parent) (templateText scriptless siblings : Parse σ (List Node)) :=
  Returns.skip fun _ => Returns.skip fun _ => Returns.pure (hP.leaf parent _ siblings rfl rfl hs)

end Leaves

theorem construct {inner : Element σ} (hinner : inner.Carries P) (hmakes : inner.MakesActions) :
    Element.Carries P (construct env included inner) := by
  intro parent scriptless siblings hs
  refine Returns.skip fun s => Returns.skip fun _ => ?_
  refine Returns.ite (Returns.skip fun _ => Returns.pure hs) (Returns.skip fun _ => ?_)
  refine Returns.ite (hP.directive hs _ _) (Returns.skip fun _ => ?_)
  refine Returns.ite (hP.scripting hs rfl _ _ _) (Returns.skip fun _ => ?_)
  refine Returns.ite (hP.scripting hs rfl _ _ _) (Returns.skip fun _ => ?_)
  refine Returns.ite (hP.scripting hs rfl _ _ _) ?_
  refine Returns.ite (hP.action hinner hmakes hs _) ?_
  refine Returns.ite (hP.expression hs _) (Returns.ite ?_ (Returns.ite ?_ ?_))
  · exact Returns.guard fun _ => hP.templateText hs _
  · split
    · exact hP.tag hinner hmakes hs _ _ _ _
    · exact hP.templateText hs _
  · exact hP.templateText hs _

theorem element (fuel : Nat) : Element.Carries P (element env included fuel) := by
  induction fuel with
  | zero => exact fun _ _ _ _ => Returns.throw _
  | succ fuel ih => exact hP.construct ih (makesActions_element env included fuel)

theorem directivesWithin (fuel : Nat) {cs : List Node} (hcs : P parent cs) :
    Returns (P parent) (directivesWithin env included fuel cs) := by
  induction fuel generalizing cs with
  | zero => exact Returns.throw _
  | succ fuel ih =>
    refine Returns.skip fun c => Returns.ite (Returns.pure hcs) (Returns.skip fun _ => ?_)
    refine Returns.ite (Returns.skip fun _ => ih hcs) (Returns.skip fun _ => ?_)
    refine Returns.ite ?_ (Returns.skip fun _ => ih hcs)
    exact (hP.directive hcs _ _).bind fun cs hcs => ih hcs

omit hP in
theorem sourceWithin {inner : Element σ} (hinner : inner.Carries P) (parent : Head)
    (scriptless : Bool) (fuel : Nat) {cs : List Node} (hcs : P parent cs) :
    Returns (P parent) (sourceWithin inner parent scriptless fuel cs) := by
  induction fuel generalizing cs with
  | zero => exact Returns.throw _
  | succ fuel ih =>
    refine Returns.skip fun _ => Returns.ite (Returns.pure hcs) ?_
    exact (hinner _ _ _ hcs).bind fun cs hcs => ih hcs

theorem parse (parent : Head) (scriptless : Bool) :
    Returns (P parent) (parse env included parent scriptless) :=
  Returns.skip fun _ => Returns.ite (hP.directivesWithin _ (hP.nil parent))
    (sourceWithin (hP.element _) _ _ _ (hP.nil parent))

end IsCarried

end Native

/-! ### Documents -/

namespace Document

/-- The parser of the content of an element carries on what is known of the siblings. -/
def Content.Carries (P : Head → List Node → Prop) (inner : Content σ) : Prop :=
  ∀ ns opened parent scriptless siblings, P parent siblings →
    Returns (P parent) (inner ns opened parent scriptless siblings)

section Bodies

variable {P : Head → List Node → Prop} (hP : IsOpenTo P) {inner : Content σ}
  (hinner : inner.Carries P)

include hP

theorem carries_rawBody (h : Head) (name : Markup.Name) (scriptless : Bool) :
    Returns (P h) (rawBody h name scriptless : Parse σ (List Node)) :=
  Returns.skip fun _ => Returns.skip fun _ => Returns.skip fun _ => Returns.skip fun _ =>
    Returns.pure (hP.text h _ _ _)

include hinner

theorem carries_actionChildren (ns : Namespaces) (t : StartTag) (parent h : Head)
    (scriptless : Bool) : Returns (P h) (actionChildren inner ns t parent h scriptless) := by
  have hchildren : ∀ scriptless, Returns (P h) (do
      let children ← inner ns (some t.name) h scriptless []
      checkActionBody h children
      return children) := fun scriptless =>
    (hinner _ _ _ _ _ (hP.nil h)).bind fun cs hcs => Returns.skip fun _ => Returns.pure hcs
  unfold actionChildren
  dsimp only
  split
  · exact carries_rawBody hP _ _ _
  · refine Returns.skip fun content => ?_
    split
    · exact carries_rawBody hP _ _ _
    · exact hchildren _
    · exact hchildren _
  · exact hchildren _

theorem carries_tagChildren (ns : Namespaces) (t : StartTag) (h : Head) (scriptless : Bool) :
    Returns (P h) (tagChildren inner ns t h scriptless) :=
  Returns.ite (carries_rawBody hP _ _ _) <| (hinner _ _ _ _ _ (hP.nil h)).bind fun _ hcs =>
    Returns.skip fun _ => Returns.pure hcs

end Bodies

theorem scriptingKind?_eq_some {name : Bytes} {k : Kind} (h : scriptingKind? name = some k) :
    k.isScripting = true := by
  unfold scriptingKind? at h
  split at h
  · exact Option.some.inj h ▸ rfl
  split at h
  · exact Option.some.inj h ▸ rfl
  split at h
  · exact Option.some.inj h ▸ rfl
  · cases h

/-- What an element is written back as is not blank. -/
theorem isBlank_opening (t : StartTag) (r : Bytes) : Bytes.isBlank (t.opening ++ r) = false :=
  Bytes.isBlank_append (Bytes.isBlank_append (Bytes.isBlank_append (by decide) _) _) _

/-- Every construct of a document carries on what is known of the siblings. Text matters only where
it is not blank, since blank text between elements is left out. -/
structure IsCarried (env : Env σ) (included : Include σ) (P : Head → List Node → Prop) : Prop where
  nil (h : Head) : P h []
  text {parent : Head} {siblings : List Node} (hs : P parent siblings) (uriOf : Bytes → Bytes)
    {s : Bytes} (hsolid : s.isBlank = false) (p : Position) (scriptless allowEl : Bool) :
    Returns (P parent) (textNodes uriOf siblings s p scriptless allowEl : Parse σ (List Node))
  directive {parent : Head} {siblings : List Node} (hs : P parent siblings) (ns : Namespaces)
    (t : StartTag) (name : Bytes) (scriptless : Bool) :
    Returns (P parent) (directive included ns t name scriptless siblings)
  scripting {parent : Head} {siblings : List Node} (hs : P parent siblings) {kind : Kind}
    (hk : kind.isScripting = true) (t : StartTag) (scriptless : Bool) :
    Returns (P parent) (scripting kind t scriptless siblings : Parse σ (List Node))
  textAction {parent : Head} {siblings : List Node} (hs : P parent siblings) (ns : Namespaces)
    (t : StartTag) (scriptless : Bool) :
    Returns (P parent) (textAction ns t scriptless siblings : Parse σ (List Node))
  action {inner : Content σ} (hinner : inner.Carries P) {parent : Head} {siblings : List Node}
    (hs : P parent siblings) (ns : Namespaces) (t : StartTag) (ht : t.name.base ≠ "text")
    (scriptless : Bool) :
    Returns (P parent) (standardAction inner ns t parent scriptless siblings)
  tag {inner : Content σ} (hinner : inner.Carries P) {parent : Head} {siblings : List Node}
    (hs : P parent siblings) (ns : Namespaces) (t : StartTag) (l : TagLibrary)
    (scriptless : Bool) : Returns (P parent) (customTag env inner ns t l scriptless siblings)

/-- A piece of code, where leaves do not matter. -/
theorem carries_scripting {P : List Node → Prop} (hP : AdmitsLeaves P) {siblings : List Node}
    (hs : P siblings) {kind : Kind} (hk : kind.isScripting = true) (t : StartTag)
    (scriptless : Bool) :
    Returns P (scripting kind t scriptless siblings : Parse σ (List Node)) :=
  Returns.skip fun _ => returns_pushScripting hP hk _ _ _ hs

namespace IsCarried

variable {env : Env σ} {included : Include σ} {P : Head → List Node → Prop}
  (hP : IsCarried env included P) {inner : Content σ} (hinner : inner.Carries P) {parent : Head}
  {siblings : List Node} (hs : P parent siblings)

include hP

section Elements

include hinner hs

theorem standardElement (ns : Namespaces) (t : StartTag) (scriptless : Bool) :
    Returns (P parent) (standardElement env included inner ns t parent scriptless siblings) := by
  refine Returns.ite (hinner _ _ _ _ _ hs) (Returns.ite (hP.directive hs _ _ _ _) ?_)
  refine Returns.ite (hinner _ _ _ _ _ hs) ?_
  split
  · next k hk => exact hP.scripting hs (scriptingKind?_eq_some hk) _ _
  split
  · exact hP.textAction hs _ _ _
  · next ht => exact hP.action hinner hs _ _ (fun h => ht (beq_iff_eq.mpr h)) _

theorem plainElement (ns : Namespaces) (t : StartTag) (scriptless : Bool) :
    Returns (P parent) (plainElement inner ns t parent scriptless siblings) := by
  refine Returns.ite (Returns.skip fun _ => hP.text hs _ (isBlank_opening t _) _ _ _) ?_
  refine (hP.text hs _ (isBlank_opening t _) _ _ _).bind fun cs hcs => ?_
  refine (hinner _ _ _ _ _ hcs).bind fun cs hcs => Returns.skip fun p => ?_
  refine hP.text hcs _ ?_ _ _ _
  exact Bytes.isBlank_append (Bytes.isBlank_append (by decide) _) _

theorem element (ns : Namespaces) (t : StartTag) (scriptless : Bool) :
    Returns (P parent) (element env included inner ns t parent scriptless siblings) := by
  refine Returns.ite (hP.standardElement hinner hs _ _ _) ?_
  refine Returns.ite (hinner _ _ _ _ _ hs) ?_
  refine Returns.ite (hP.plainElement hinner hs _ _ _) (Returns.skip fun l? => ?_)
  cases l? with
  | none => exact hP.plainElement hinner hs _ _ _
  | some l => exact hP.tag hinner hs _ _ _ _

end Elements

theorem content (fuel : Nat) : Content.Carries P (content env included fuel) := by
  induction fuel with
  | zero => exact fun _ _ _ _ _ _ => Returns.throw _
  | succ fuel ih =>
    intro ns opened parent scriptless siblings hs
    refine Returns.skip fun token => ?_
    dsimp only
    split
    · split
      · exact returns_refuse _ _ _
      · exact Returns.pure hs
    · next s _ =>
      -- Blank text between elements is left out.
      by_cases hblank : s.isBlank = true
      · rw [hblank, Bool.or_true, if_pos rfl]
        exact ih _ _ _ _ _ hs
      · refine Returns.ite (ih _ _ _ _ _ hs) ?_
        exact (hP.text hs _ (Bool.eq_false_iff.mpr hblank) _ _ _).bind fun cs hcs =>
          ih _ _ _ _ _ hcs
    · exact (hP.element ih hs _ _ _).bind fun cs hcs => ih _ _ _ _ _ hcs
    · exact Returns.ite (Returns.pure hs) (returns_refuse _ _ _)
    · exact ih _ _ _ _ _ hs

theorem parse (parent : Head) (scriptless : Bool) :
    Returns (P parent) (parse env included parent scriptless) :=
  Returns.skip fun _ => Returns.skip fun _ => hP.content _ _ _ _ _ _ (hP.nil parent)

end IsCarried

end Document

/-! ### Sources -/

/-- **What a source puts under a head has a property** that both syntaxes carry on where the files
that are included have it. Inside a source more may be known. -/
theorem returns_parseSource {env : Env σ} {P N D : Head → List Node → Prop}
    (hnative : ∀ included, (∀ h scriptless, Returns (P h) (included h scriptless)) →
      Native.IsCarried env included N)
    (hN : ∀ h ns, N h ns → P h ns)
    (hdocument : ∀ included, (∀ h scriptless, Returns (P h) (included h scriptless)) →
      Document.IsCarried env included D)
    (hD : ∀ h ns, D h ns → P h ns)
    (depth : Nat) (form : PageSyntax) (parent : Head) (scriptless : Bool) :
    Returns (P parent) (parseSource env depth form parent scriptless) := by
  induction depth generalizing form parent scriptless with
  | zero => exact Returns.throw _
  | succ depth ih =>
    have hinc : ∀ h scriptless,
        Returns (P h) (includeFile env (parseSource env depth) h scriptless) :=
      fun h scriptless => returns_includeFile env h scriptless fun form => ih form h scriptless
    cases form with
    | document => exact ((hdocument _ hinc).parse parent scriptless).mono (hD parent)
    | auto => exact ((hnative _ hinc).parse parent scriptless).mono (hN parent)
    | native => exact ((hnative _ hinc).parse parent scriptless).mono (hN parent)

end Parsing

end ServerPages
