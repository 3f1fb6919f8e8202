import ServerPages.Proofs.ContentModel

/-!
# The content model of parsed trees

In a document the children of an element are checked when all are known. Until then it is known of
them that they fit the head that they stand under, and that blank text stands beside other content
only: blank text between elements is left out, and no element that is checked takes other content.

With what the native syntax refuses, both syntaxes follow the same content model, also where files
of one include files of the other.

## Main results

* `ParseRequest.takes_of_parse`: every node of a tree that is parsed follows the content model.
-/

namespace ServerPages

open Node

namespace Parsing

open ServerPages.Parsing.Native (KindsIn kindsIn_nil returns_checkPlacement)

variable {σ : Type} {parent : Head}

theorem not_textual_of_allowedChildren? {k : Kind} {allowed : List Kind}
    (h : allowedChildren? k = some allowed) : ∀ k' ∈ allowed, ¬ IsTextual k' := by
  revert h
  unfold IsTextual
  cases k <;> rintro ⟨⟩ <;> decide

theorem ne_textAction_of_action? {name : Bytes} {k : Kind} (h : Kind.action? name = some k)
    (hname : name ≠ "text") : k ≠ .textAction := by
  rintro rfl
  obtain ⟨l, r, hl, -⟩ := List.lookup_eq_some_iff.mp h
  have hmem : (name, Kind.textAction) ∈ Kind.actions := by simp [hl]
  have hall : ∀ p ∈ Kind.actions, p.2 = .textAction → p.1 = "text" := by decide
  exact hname (hall _ hmem rfl)

namespace Document

/-- What is known of the children of an element of a document before they are checked. -/
structure Gathered (parent : Head) (ns : List Node) : Prop where
  fit : AllFit parent ns
  blank : (∃ n ∈ ns, n.isBlankText = true) → HasContent ns
  body : KindsIn (fun k => k = .body → bodyContentOf parent ≠ .empty) ns

variable {siblings : List Node} {n : Node}

theorem gathered_nil (parent : Head) : Gathered parent [] :=
  ⟨allFit_nil parent, fun ⟨_, hm, _⟩ => absurd hm List.not_mem_nil, kindsIn_nil _⟩

theorem Gathered.push (hs : Gathered parent siblings) (hn : n.Fits parent) (hk : n.kind ≠ .text)
    (hbody : n.kind = .body → bodyContentOf parent ≠ .empty) :
    Gathered parent (Node.push siblings n) where
  fit := hs.fit.push hn
  blank := by
    rintro ⟨m, hm, hblank⟩
    have hmem : m ∈ siblings ∨ m = n := by
      unfold Node.push at hm
      split at hm
      · exact .inr (List.mem_singleton.mp hm)
      · rw [if_neg (by simp [hk])] at hm
        exact (List.mem_append.mp hm).imp_right List.mem_singleton.mp
    rcases hmem with hm | rfl
    · exact .push (.inl (hs.blank ⟨m, hm, hblank⟩))
    · rw [isBlankText, Bool.and_eq_true, beq_iff_eq] at hblank
      exact absurd hblank.1 hk
  body := hs.body.push hbody

/-- A standard action or a tag, with the children that it takes. -/
theorem Gathered.push_node {h : Head} {cs : List Node} (hs : Gathered parent siblings)
    (hn : (Node.mk h cs).Fits parent) (hk : h.kind.isLeaf = false)
    (hbody : h.kind = .body → bodyContentOf parent ≠ .empty) :
    Gathered parent (Node.push siblings (.mk h cs)) := by
  refine hs.push hn (fun htext => ?_) hbody
  rw [show h.kind = .text from htext] at hk
  cases hk

/-- Text is added where it is not blank. -/
theorem gathered_textNodes (hs : Gathered parent siblings) (uriOf : Bytes → Bytes) {s : Bytes}
    (hsolid : s.isBlank = false) (p : Position) (scriptless allowEl : Bool) :
    Returns (Gathered parent)
      (textNodes uriOf siblings s p scriptless allowEl : Parse σ (List Node)) := by
  have hbody : AdmitsLeaves (KindsIn fun k => k = .body → bodyContentOf parent ≠ .empty) :=
    fun h _ hk _ hns => hns.push fun hbody => by
      rw [show h.kind = .body from hbody] at hk
      cases hk
  refine ((returns_textNodes (isOpenTo_allFit.leaf parent) _ hs.fit _ _ _ _).and
    ((returns_textNodes hbody _ hs.body _ _ _ _).and (textAdded_textNodes _ _ _ _ _ _))).mono ?_
  exact fun ns hns => ⟨hns.1, fun _ => hns.2.2.content (.inr hsolid), hns.2.1⟩

theorem areTexts_rawBody (h : Head) (name : Markup.Name) (scriptless : Bool) :
    Returns AreTexts (rawBody h name scriptless : Parse σ (List Node)) :=
  Returns.skip fun _ => Returns.skip fun _ => Returns.skip fun _ => Returns.skip fun _ =>
    Returns.pure (areTexts_ite _ _ _)

/-! ### Children that are checked -/

/-- The children that are left after the check are some that the content model lets stand under a
standard action. -/
theorem Gathered.holds {h : Head} {cs : List Node} {name : Bytes} (hcs : Gathered h cs)
    (hadmits : h.Admits cs) (hname : Kind.action? name = some h.kind)
    (hfallback : h.kind ≠ .fallback) (htext : h.kind ≠ .textAction) : h.Holds cs := by
  refine .of_action hname (fun allowed ha c hc => ?_) (absurd · hfallback) (absurd · htext)
  have hno := not_textual_of_allowedChildren? ha
  refine (hadmits.action allowed ha c hc).resolve_left fun hblank => ?_
  -- Beside blank text there is text or an expression that the action does not take.
  obtain ⟨d, hd, hkind, hsolid⟩ := hcs.blank ⟨c, hc, hblank⟩
  refine hno d.kind ((hadmits.action allowed ha d hd).resolve_left fun hblank' => ?_) hkind
  rw [hsolid] at hblank'
  cases hblank'

/-- Text may stand under a standard action of which nothing is checked. -/
theorem holds_of_areTexts {h : Head} {cs : List Node} {name : Bytes}
    (hname : Kind.action? name = some h.kind) (htext : h.kind ≠ .textAction)
    (hnone : allowedChildren? h.kind = none) (hcs : AreTexts cs) : h.Holds cs := by
  refine .of_action hname (fun allowed ha => ?_) (fun _ => hcs.kinds) (absurd · htext)
  rw [hnone] at ha
  cases ha

/-- The children of a standard action, once they are checked. -/
structure Suits (parent h : Head) (cs : List Node) : Prop where
  holds : h.Holds cs
  fit : AllFit h cs
  body : h.kind = .body → bodyContentOf parent ≠ .empty ∧
    (bodyContentOf parent = .tagDependent → ∀ c ∈ cs, c.kind = .text)

theorem Suits.bodyFits {h : Head} {cs : List Node} (hcs : Suits parent h cs) :
    parent.BodyFits h cs :=
  fun hb => ⟨(hcs.body hb).2, fun hempty => absurd hempty (hcs.body hb).1⟩

section Elements

variable {included : Include σ} (hinc : ∀ h scriptless, Returns (AllFit h) (included h scriptless))
  {inner : Content σ} (hinner : inner.Carries Gathered) (hs : Gathered parent siblings)

include hinc hs in
theorem gathered_directive (ns : Namespaces) (t : StartTag) (name : Bytes) (scriptless : Bool) :
    Returns (Gathered parent) (directive included ns t name scriptless siblings) := by
  refine Returns.guard fun _ => (returns_kind_directiveHead _ _ _).bind fun h hname => ?_
  refine (returns_kind_addAttributes _ _ _ h _).bind fun h' hk => Returns.skip fun _ => ?_
  rw [← hk] at hname
  have hpush : ∀ cs, (Node.mk h' cs).Fits parent →
      Gathered parent (Node.push siblings (.mk h' cs)) := fun cs hfits =>
    hs.push_node hfits (Kind.directive?_eq_some hname).2 fun hbody =>
      absurd hbody (Kind.ne_of_directive? hname).2
  have hnone : ∀ {x : Parse σ (List Node)}, Returns (· = []) x →
      Returns (Gathered parent) (x >>= fun cs => Pure.pure (Node.push siblings (.mk h' cs))) :=
    fun hx => hx.bind fun cs hcs => Returns.pure (hcs ▸ hpush [] (Head.fits_directive hname))
  refine Returns.guard fun _ => ?_
  dsimp only
  split
  · exact Returns.skip fun _ => hnone (Returns.pure rfl)
  · exact Returns.skip fun _ => hnone (Returns.pure rfl)
  · next hkind =>
    exact (hinc _ _).bind fun cs hcs => Returns.pure (hpush cs (Head.fits_include hkind hcs))
  · exact hnone (Returns.pure rfl)

include hs in
theorem gathered_scripting {kind : Kind} (hk : kind.isScripting = true) (t : StartTag)
    (scriptless : Bool) : Returns (Gathered parent)
      (scripting kind t scriptless siblings : Parse σ (List Node)) := by
  unfold scripting scriptingNode
  refine Returns.skip fun code => ?_
  split
  · exact returns_refuse_bind _ _ _ _
  refine Returns.pure (hs.push (Head.fits_leaf (Kind.isLeaf_of_isScripting hk)) ?_ ?_)
  · intro htext
    rw [show kind = .text from htext] at hk
    cases hk
  · intro hbody
    rw [show kind = .body from hbody] at hk
    cases hk

include hs in
theorem gathered_textAction (ns : Namespaces) (t : StartTag) (scriptless : Bool) :
    Returns (Gathered parent) (textAction ns t scriptless siblings : Parse σ (List Node)) := by
  refine (returns_kind_actionHead _ _ _).bind fun h hname => ?_
  refine (returns_kind_addAttributes _ _ _ h _).bind fun h' hk => ?_
  have hk : h'.kind = .textAction := hk.trans (Option.some.inj hname).symm
  refine Returns.skip fun p => Returns.skip fun s => ?_
  refine (returns_textNodes_nil h' _ _ _ _ _).bind fun cs hcs => Returns.pure ?_
  have hholds : h'.Holds cs := by
    have hname' : Kind.action? "text" = some h'.kind := by
      rw [hk]
      rfl
    refine .of_action hname' (fun allowed ha => ?_) (fun hf => ?_) fun _ => hcs.1
    · rw [hk] at ha
      cases ha
    · cases hk.symm.trans hf
  refine hs.push_node (Head.fits_action hholds hcs.2 (fun hbody => ?_) ⟨fun hn => ?_, fun hb => ?_⟩)
    (by rw [hk]; rfl) fun hb => ?_
  · cases hk.symm.trans hbody
  · cases hk.symm.trans hn
  · cases hk.symm.trans hb
  · cases hk.symm.trans hb

include hinner in
theorem suits_actionChildren (ns : Namespaces) (t : StartTag) (parent : Head) {h : Head}
    {name : Bytes} (hname : Kind.action? name = some h.kind) (htext : h.kind ≠ .textAction)
    (scriptless : Bool) :
    Returns (Suits parent h) (actionChildren inner ns t parent h scriptless) := by
  have hchecked : h.kind ≠ .fallback → ∀ scriptless, Returns (fun cs => h.Holds cs ∧ AllFit h cs)
      (do
        let children ← inner ns (some t.name) h scriptless []
        checkActionBody h children
        return children) := by
    intro hfallback scriptless
    refine (hinner _ _ h _ _ (gathered_nil h)).bind fun cs hcs => ?_
    refine (admits_of_checkActionBody (Kind.isDirective_of_action? hname) cs).bind ?_
    exact fun _ hadmits => Returns.pure ⟨hcs.holds hadmits hname hfallback htext, hcs.fit⟩
  unfold actionChildren
  dsimp only
  split
  · next hk =>
    refine (areTexts_rawBody _ _ _).mono fun cs hcs => ?_
    refine ⟨holds_of_areTexts hname htext (by rw [hk]; rfl) hcs, hcs.allFit h, fun hb => ?_⟩
    cases hk.symm.trans hb
  · next hk =>
    refine (returns_bodyElementContent parent _).bind fun content hcontent => ?_
    obtain ⟨rfl, hne⟩ := hcontent
    have hfallback : h.kind ≠ .fallback := by rw [hk]; decide
    split
    · refine (areTexts_rawBody _ _ _).mono fun cs hcs => ?_
      exact ⟨holds_of_areTexts hname htext (by rw [hk]; rfl) hcs, hcs.allFit h,
        fun _ => ⟨hne, fun _ => hcs.kinds⟩⟩
    · next hscriptless =>
      refine (hchecked hfallback _).mono fun cs hcs => ⟨hcs.1, hcs.2, fun _ => ⟨hne, fun h => ?_⟩⟩
      cases hscriptless.symm.trans h
    · next hdependent _ =>
      exact (hchecked hfallback _).mono fun cs hcs =>
        ⟨hcs.1, hcs.2, fun _ => ⟨hne, fun h => absurd h hdependent⟩⟩
  · next hfallback hbody =>
    exact (hchecked hfallback _).mono fun cs hcs =>
      ⟨hcs.1, hcs.2, fun hb => absurd hb hbody⟩

include hinner hs in
theorem gathered_standardAction (ns : Namespaces) (t : StartTag) (htext : t.name.base ≠ "text")
    (scriptless : Bool) :
    Returns (Gathered parent) (standardAction inner ns t parent scriptless siblings) := by
  refine (returns_kind_actionHead _ _ _).bind fun h hname => ?_
  refine (returns_checkPlacement parent h).bind fun _ hplaced => ?_
  refine (returns_kind_addAttributes _ _ _ h _).bind fun h' hk => ?_
  rw [← hk] at hname hplaced
  have htext' := ne_textAction_of_action? hname htext
  refine (suits_actionChildren hinner ns t parent hname htext' scriptless).bind fun cs hcs => ?_
  exact Returns.pure (hs.push_node (Head.fits_action hcs.holds hcs.fit hcs.bodyFits hplaced)
    (Kind.action?_eq_some hname).2 fun hb => (hcs.body hb).1)

/-- What is checked of the children of an empty tag. -/
theorem blank_of_checkTagBody {h : Head} {cs : List Node} (hempty : bodyContentOf h = .empty)
    (hcs : Gathered h cs) : Returns (fun _ => ∀ c ∈ cs, c.kind = .namedAttribute ∨
      c.isBlankText = true ∨ c.kind = .body) (checkTagBody h cs : Parse σ Unit) := by
  refine Returns.skip fun _ => ?_
  rw [hempty]
  cases hblank : Node.isBlankContent cs with
  | false => exact returns_refuse _ _ _
  | true =>
    refine Returns.pure fun c hc => ?_
    have hno : bodyElement? cs = none := by
      refine List.find?_eq_none.mpr fun d hd hk => ?_
      exact hcs.body d hd (beq_iff_eq.mp hk) hempty
    rw [isBlankContent, contentOf, hno, List.all_eq_true] at hblank
    by_cases hk : c.kind = .namedAttribute
    · exact .inl hk
    · exact .inr (.inl (hblank c (List.mem_filter.mpr ⟨hc, by simp [hk]⟩)))

include hinner in
theorem takes_tagChildren (ns : Namespaces) (t : StartTag) (h : Head) (scriptless : Bool) :
    Returns (fun cs => AllFit h cs ∧ (bodyContentOf h = .empty → ∀ c ∈ cs,
        c.kind = .namedAttribute ∨ c.isBlankText = true ∨ c.kind = .body))
      (tagChildren inner ns t h scriptless) := by
  unfold tagChildren
  split
  · next hdependent =>
    refine (areTexts_rawBody _ _ _).mono fun cs hcs => ⟨hcs.allFit h, fun hempty => ?_⟩
    rw [hempty] at hdependent
    cases hdependent
  refine (hinner _ _ h _ _ (gathered_nil h)).bind fun cs hcs => ?_
  by_cases hempty : bodyContentOf h = .empty
  · exact (blank_of_checkTagBody hempty hcs).bind fun _ hblank =>
      Returns.pure ⟨hcs.fit, fun _ => hblank⟩
  · exact Returns.skip fun _ => Returns.pure ⟨hcs.fit, fun h => absurd h hempty⟩

include hinner hs in
theorem gathered_customTag (env : Env σ) (ns : Namespaces) (t : StartTag) (l : TagLibrary)
    (scriptless : Bool) :
    Returns (Gathered parent) (customTag env inner ns t l scriptless siblings) := by
  refine (returns_kind_tagHead _ _ _ _ _ _ _).bind fun h hh => ?_
  refine (returns_kind_addAttributes _ _ _ h _).bind fun h' hh' => ?_
  refine (takes_tagChildren hinner _ _ _ _).bind fun cs hcs => Returns.pure ?_
  have hk : h'.kind = .customTag := hh'.trans hh
  refine hs.push_node (Head.fits_tag hk hcs.2 hcs.1) (by show h'.kind.isLeaf = _; rw [hk]; rfl) ?_
  exact fun hb => by cases hk.symm.trans hb

end Elements

/-- **The constructs of a document follow the content model**, with what is known of the siblings
before they are checked. -/
theorem isCarried_gathered (env : Env σ) {included : Include σ}
    (hinc : ∀ h scriptless, Returns (AllFit h) (included h scriptless)) :
    IsCarried env included Gathered where
  nil := gathered_nil
  text hs uriOf _ hsolid p scriptless allowEl :=
    gathered_textNodes hs uriOf hsolid p scriptless allowEl
  directive hs ns t name scriptless := gathered_directive hinc hs ns t name scriptless
  scripting hs _ hk t scriptless := gathered_scripting hs hk t scriptless
  textAction hs ns t scriptless := gathered_textAction hs ns t scriptless
  action hinner _ _ hs ns t htext scriptless :=
    gathered_standardAction hinner hs ns t htext scriptless
  tag hinner _ _ hs ns t l scriptless := gathered_customTag hinner hs env ns t l scriptless

end Document

/-- What a source puts under a head fits the head, whatever files it includes. -/
theorem allFit_parseSource (env : Env σ) (depth : Nat) (form : PageSyntax) (parent : Head)
    (scriptless : Bool) :
    Returns (AllFit parent) (parseSource env depth form parent scriptless) :=
  returns_parseSource (fun _ => Native.isCarried_allFit env) (fun _ _ => id)
    (fun _ => Document.isCarried_gathered env) (fun _ _ hcs => hcs.fit) depth form parent scriptless

end Parsing

/-- A node has a list of children unless it is of a kind without a body. -/
theorem Node.body?_eq_none_iff {n : Node} (hn : n.head.Takes n.children) :
    n.body? = none ↔ n.kind.allowsBody = false := by
  unfold body?
  cases hk : n.kind.allowsBody with
  | true => simp
  | false => simp [hn.leaf hk]

/-- **Both syntaxes follow the same content model.** In a tree that is parsed, whatever the source
and the surroundings and with the files that are included, every node has the children that the
content model lets it have, and the nodes without a list of children are those of the kinds that
have no body. -/
theorem ParseRequest.takes_of_parse {σ : Type} {r : ParseRequest} {host : Host σ} {memory : σ}
    {root : Node} (hparse : (r.parse host memory).1 = .ok root) :
    ∀ n ∈ root.subtree, (n.body? = none ↔ n.kind.allowsBody = false) ∧
      n.head.Takes n.children := by
  have hroot : root.IsModelled := by
    unfold ParseRequest.parse at hparse
    dsimp only at hparse
    split at hparse
    · next cs t hrun =>
      obtain rfl := Except.ok.inj hparse
      have hcs := Parsing.allFit_parseSource _ _ _ _ _ _ _ _ hrun
      refine (Head.Holds.of_kind rfl rfl ?_ ?_ ?_ cs).isModelled hcs
      all_goals exact fun h => by cases h
    · cases hparse
  exact fun n hn =>
    ⟨Node.body?_eq_none_iff (hroot.takes_of_mem n hn), hroot.takes_of_mem n hn⟩

/-- A page that passes a parameter to the page that it includes the output of. -/
def passingPage : ParseRequest where
  path := "/a.jsp"
  text := "a<jsp:include page=\"/b.jsp\">\n  <jsp:param name=\"c\" value=\"d\"/></jsp:include>"

theorem takes_of_parse_passingPage : ∃ root,
    (passingPage.parse ({} : Host Unit) ()).1 = .ok root ∧
    root.subtree.map Node.kind = [.root, .text, .includeAction, .param] ∧
    ∀ n ∈ root.subtree, (n.body? = none ↔ n.kind.allowsBody = false) ∧
      n.head.Takes n.children := by
  have hsome : (passingPage.parse ({} : Host Unit) ()).1.toOption.any (fun root =>
      decide (root.subtree.map Node.kind = [.root, .text, .includeAction, .param])) = true := by
    decide +kernel
  obtain ⟨root, hparse, hkinds⟩ := exists_ok_of_any hsome
  exact ⟨root, hparse, of_decide_eq_true hkinds, ParseRequest.takes_of_parse hparse⟩

end ServerPages
