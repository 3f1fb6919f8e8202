import ServerPages.Proofs.DocumentProgress
import ServerPages.Proofs.PreparedTrees
import ServerPages.Proofs.StandingSteps

/-!
# Balanced documents

A document that is parsed is balanced: every end tag closes the innermost open element, which its
start tag opened under the same name, and no element is left open. The parsers of character data,
of content and of elements without content compare the names. The one that passes the content of an
element as it is written does not, it counts tags: in the content of a fallback, and of a tag whose
content depends on the tag, an end tag closes the innermost open element whatever its name, and so
does the end tag of the element itself. The names of such elements are loose.

The parsers are followed backwards. If the tags in what is left of a document nest, then they nest
in what was left before.

## Main results

* `Document.content_closes`: the content of an element reads up to the end tag of the element.
* `ParseRequest.nests_of_parse`: the tags of a document that is parsed nest.
-/

namespace ServerPages

namespace Markup

/-- Whether the tags nest, with some elements open, innermost first. An end tag has the name of the
innermost one, unless an element of a loose name is open. -/
def nests (loose : Name → Bool) : List Name → List Token → Bool
  | opened, [] => opened.isEmpty
  | opened, .startTag name _ _ :: ts => nests loose (name :: opened) ts
  | [], .endTag _ :: _ => false
  | name :: opened, .endTag found :: ts =>
    (found == name || (name :: opened).any loose) && nests loose opened ts
  | opened, .text _ :: ts => nests loose opened ts
  | opened, .other :: ts => nests loose opened ts

namespace Reader

/-- The tokens in the rest of a document. -/
def tokens (r : Reader) : Except Problem (List Token) :=
  match _h : r.next true with
  | .error problem => .error problem
  | .ok none => .ok []
  | .ok (some (t, r')) => (t :: ·) <$> r'.tokens
termination_by r.weight
decreasing_by exact weight_next ‹_›

/-- The tags in the rest of a document nest, with some elements open before it. -/
def Nests (loose : Name → Bool) (opened : List Name) (r : Reader) : Prop :=
  ∃ ts, r.tokens = .ok ts ∧ nests loose opened ts = true

variable {loose : Name → Bool} {opened opened' : List Name} {r r' : Reader}

theorem Nests.atEnd (h : r.next true = .ok none) : Nests loose [] r := by
  refine ⟨[], ?_, rfl⟩
  rw [tokens]
  split <;> simp_all

theorem Nests.before {t : Token} (h : r.next true = .ok (some (t, r')))
    (ht : ∀ ts, nests loose opened' ts = true → nests loose opened (t :: ts) = true)
    (hr : Nests loose opened' r') : Nests loose opened r := by
  obtain ⟨ts, hts, hnests⟩ := hr
  refine ⟨t :: ts, ?_, ht ts hnests⟩
  rw [tokens]
  split <;> simp_all

theorem Nests.text {s : Bytes} (h : r.next true = .ok (some (.text s, r')))
    (hr : Nests loose opened r') : Nests loose opened r :=
  hr.before h fun ts hts => by cases opened <;> exact hts

theorem Nests.other (h : r.next true = .ok (some (.other, r')))
    (hr : Nests loose opened r') : Nests loose opened r :=
  hr.before h fun ts hts => by cases opened <;> exact hts

theorem Nests.startTag {name : Name} {as : List Attribute} {closed : Bool}
    (h : r.next true = .ok (some (.startTag name as closed, r')))
    (hr : Nests loose (name :: opened) r') : Nests loose opened r :=
  hr.before h fun ts hts => by cases opened <;> exact hts

theorem Nests.endTag {name found : Name} (h : r.next true = .ok (some (.endTag found, r')))
    (hname : found = name ∨ (name :: opened).any loose = true) (hr : Nests loose opened r') :
    Nests loose (name :: opened) r := by
  refine hr.before h fun ts hts => ?_
  rw [nests, hts, Bool.and_true, Bool.or_eq_true, beq_iff_eq]
  exact hname

end Reader

end Markup

/-- Whether a node leaves a name loose: its content is passed as it is written, and its element may
have had the name. -/
def Node.loosens (n : Node) (name : Markup.Name) : Bool :=
  n.kind == .fallback && name.base == "fallback" ||
  n.kind == .customTag && Parsing.bodyContentOf n.head == .tagDependent && n.head.name == name.text

/-- All names that the nodes leave loose, and the nodes below them, are loose. -/
def Node.AllLoose (loose : Markup.Name → Bool) (ns : List Node) : Prop :=
  ∀ n ∈ subtreeAll ns, ∀ name, n.loosens name = true → loose name = true

namespace Node

variable {loose : Markup.Name → Bool}

theorem not_loosens_text {n : Node} (hk : n.kind = .text) (name : Markup.Name) :
    ¬n.loosens name = true := by
  have hk' : n.head.kind = .text := hk
  simp [loosens, kind, hk']

theorem AllLoose.of_push {siblings : List Node} {n : Node}
    (h : AllLoose loose (push siblings n)) :
    AllLoose loose siblings ∧ (n.kind ≠ .text → AllLoose loose [n]) := by
  have happend {ms ns : List Node} : AllLoose loose (ms ++ ns) →
      AllLoose loose ms ∧ AllLoose loose ns := fun h => by
    have hsub : subtreeAll (ms ++ ns) = subtreeAll ms ++ subtreeAll ns := by
      rw [subtreeAll_eq_flatMap, subtreeAll_eq_flatMap, subtreeAll_eq_flatMap, List.flatMap_append]
    rw [AllLoose, hsub] at h
    exact List.forall_mem_append.mp h
  unfold push at h
  split at h
  · next hnone =>
    obtain rfl := List.getLast?_eq_none_iff.mp hnone
    exact ⟨fun m hm => absurd hm List.not_mem_nil, fun _ => h⟩
  next last hlast =>
  split at h
  · next htexts =>
    rw [Bool.and_eq_true, Bool.and_eq_true, beq_iff_eq, beq_iff_eq] at htexts
    refine ⟨?_, fun hk => absurd htexts.1.1 hk⟩
    obtain ⟨hinit, hext⟩ := happend h
    rw [← List.dropLast_append_getLast? last hlast]
    intro m hm
    rw [subtreeAll_eq_flatMap, List.flatMap_append, List.mem_append, ← subtreeAll_eq_flatMap,
      List.flatMap_singleton, subtree_eq, List.mem_cons] at hm
    rcases hm with hm | rfl | hm
    · exact hinit m hm
    · exact fun name hl => absurd hl (not_loosens_text htexts.1.2 name)
    · refine hext m (mem_subtreeAll.mpr ⟨_, List.mem_singleton_self _, ?_⟩)
      rw [subtree_eq]
      exact List.mem_cons_of_mem _ hm
  · obtain ⟨hs, hn⟩ := happend h
    exact ⟨hs, fun _ => hn⟩

theorem AllLoose.of_mk {h : Head} {cs : List Node} (hl : AllLoose loose [.mk h cs]) :
    AllLoose loose cs ∧ ∀ name, loosens (.mk h cs) name = true → loose name = true := by
  have hsub : subtreeAll [.mk h cs] = .mk h cs :: subtreeAll cs := by
    rw [subtreeAll_eq_flatMap, List.flatMap_singleton, subtree_eq]
    rfl
  rw [AllLoose, hsub, List.forall_mem_cons] at hl
  exact ⟨hl.2, hl.1⟩

end Node

namespace Parsing

variable {σ α β : Type}

/-! ### Parsers that leave the document where it is -/

/-- The parser does not read in the document. -/
def Spares (x : Parse σ α) : Prop := ∀ s a t, x s = .ok a t → t.document = s.document

theorem Rests.spares {x : Parse σ α} (hx : Rests x) : Spares x :=
  fun s a t h => congrArg State.document (hx s a t h)

theorem Asks.spares {x : Parse σ α} (hx : Asks x) : Spares x := by
  intro s a t h
  obtain ⟨m, rfl⟩ := hx s a t h
  rfl

theorem Spares.bind {x : Parse σ α} {f : α → Parse σ β} (hx : Spares x) (hf : ∀ a, Spares (f a)) :
    Spares (x >>= f) := by
  intro s b t h
  obtain ⟨a, u, hxa, hfb⟩ := bind_eq_ok h
  exact (hf a u b t hfb).trans (hx s a u hxa)

theorem Spares.guard {c : Prop} [Decidable c] {x : Parse σ Unit} {f : Unit → Parse σ β}
    (hx : Spares x) (hf : ∀ a, Spares (f a)) : Spares (if c then x >>= f else f ()) := by
  split
  · exact hx.bind hf
  · exact hf ()

theorem spares_applyElIgnored (h : Head) : Spares (applyElIgnored h : Parse σ Unit) := by
  unfold applyElIgnored
  split
  · rintro s a t ⟨⟩
    rfl
  · exact (Rests.pure _).spares

/-- The content of an included file is no part of the document. -/
theorem spares_includeFile (env : Env σ) (parse : SourceParser σ) (h : Head) (scriptless : Bool) :
    Spares (includeFile env parse h scriptless) := by
  have hany {γ : Type} (x : Parse σ γ) (u : State σ) : Ends True x u fun _ _ => True :=
    .of_runs fun _ _ _ => trivial
  intro s
  refine (show Ends True _ s fun _ t => t.document = s.document from ?_).1
  unfold includeFile
  split
  · exact Ends.of_error rfl fun _ => trivial
  refine Ends.get (Ends.ite (fun _ => Ends.of_error rfl fun _ => trivial) fun _ => ?_)
  dsimp only
  split
  · exact Ends.of_error rfl fun _ => trivial
  refine (hany _ _).bind fun answer u _ => ?_
  split
  · rw [pure_bind]
    split
    · exact Ends.of_error rfl fun _ => trivial
    · exact Ends.modify ((hany _ _).bind fun cs v _ => Ends.modify (Ends.pure rfl))
  · exact Ends.of_error rfl fun _ => trivial

/-! ### Tokens -/

variable {loose : Markup.Name → Bool} {name : Markup.Name} {s t u : State σ}

/-- From `s` to `t` an element is read up to its end tag. -/
def State.Closes (loose : Markup.Name → Bool) (name : Markup.Name) (s t : State σ) : Prop :=
  ∀ opened, t.document.Nests loose opened → s.document.Nests loose (name :: opened)

theorem State.Closes.before (h : u.document = s.document)
    (ht : u.Closes loose name t) : s.Closes loose name t :=
  fun opened hopened => h ▸ ht opened hopened

theorem State.Closes.after (hu : s.Closes loose name u)
    (h : t.document = u.document) : s.Closes loose name t :=
  fun opened hopened => hu opened (h ▸ hopened)

namespace Document

theorem spares_follow : Spares (follow : Parse σ Position) := by
  rintro s a t ⟨⟩
  rfl

/-- What the next token is, and what is left after it. -/
theorem next_eq_ok {a : Option Markup.Token × Position}
    (h : next s = .ok a t) :
    (a.1 = none ∧ s.document.next true = .ok none ∧ t.document = s.document) ∨
    ∃ token, a.1 = some token ∧ s.document.next true = .ok (some (token, t.document)) := by
  rw [next, bind_ok (show follow s = .ok _ _ from rfl), bind_get] at h
  dsimp only at h
  cases hnext : s.document.next true with
  | error problem =>
    rw [hnext] at h
    cases h
  | ok next =>
    rw [hnext] at h
    cases next with
    | none =>
      cases h
      exact .inl ⟨rfl, rfl, rfl⟩
    | some r =>
      cases h
      exact .inr ⟨r.1, rfl, rfl⟩

/-- Character data goes on to the end tag of its element. -/
theorem dataWithin_closes {fuel : Nat} {data text : Bytes}
    (h : dataWithin name fuel data s = .ok text t) : s.Closes loose name t := by
  intro opened ht
  induction fuel generalizing data s with
  | zero => cases h
  | succ fuel ih =>
    obtain ⟨a, u, hnext, h⟩ := bind_eq_ok h
    obtain ⟨token, p⟩ := a
    obtain ⟨rfl, -, -⟩ | ⟨token, rfl, htoken⟩ := next_eq_ok hnext
    · cases h
    cases token with
    | text s => exact .text htoken (ih h)
    | startTag => cases h
    | endTag found =>
      dsimp only at h
      split at h
      · cases h
      · next hname =>
        cases h
        exact .endTag htoken (.inl (by simpa using hname)) ht
    | other => exact .other htoken (ih h)

theorem elementData_closes {text : Bytes} (h : elementData name s = .ok text t) :
    s.Closes loose name t := by
  obtain ⟨fuel, u, hfuel, h⟩ := bind_eq_ok h
  cases hfuel
  exact dataWithin_closes h

/-- The content of a loose element goes on to where as many elements are closed as are open. -/
theorem nests_rawWithin {h : Head} (hname : loose name = true) {fuel unread : Nat}
    {opened : List Markup.Name}
    (ht : t.document.Nests loose opened) {inside : List Markup.Name}
    (hrun : rawWithin h name fuel inside.length s = .ok unread t) :
    s.document.Nests loose (inside ++ name :: opened) := by
  induction fuel generalizing inside s with
  | zero => cases hrun
  | succ fuel ih =>
    obtain ⟨_, _, hget, hrun⟩ := bind_eq_ok hrun
    cases hget
    obtain ⟨a, u, hnext, hrun⟩ := bind_eq_ok hrun
    obtain ⟨token, p⟩ := a
    obtain ⟨rfl, -, -⟩ | ⟨token, rfl, htoken⟩ := next_eq_ok hnext
    · cases hrun
    cases token with
    | text s => exact .text htoken (ih hrun)
    | startTag found _ _ =>
      have hrest : u.document.Nests loose (found :: inside ++ name :: opened) := ih hrun
      exact .startTag htoken hrest
    | endTag found =>
      cases inside with
      | nil =>
        cases hrun
        exact .endTag htoken (.inr (by simp [hname])) ht
      | cons top inside => exact .endTag htoken (.inr (by simp [hname])) (ih hrun)
    | other => exact .other htoken (ih hrun)

theorem rawBody_closes {h : Head} (hname : loose name = true) {scriptless : Bool} {cs : List Node}
    (hrun : rawBody h name scriptless s = .ok cs t) : s.Closes loose name t := by
  obtain ⟨p, u, hfollow, hrun⟩ := bind_eq_ok hrun
  obtain ⟨_, _, hget, hrun⟩ := bind_eq_ok hrun
  cases hget
  obtain ⟨fuel, _, hfuel, hrun⟩ := bind_eq_ok hrun
  cases hfuel
  obtain ⟨unread, v, hraw, hrun⟩ := bind_eq_ok hrun
  cases hrun
  have hnests : ∀ opened, t.document.Nests loose opened →
      u.document.Nests loose ([] ++ name :: opened) := fun opened ht =>
    nests_rawWithin hname ht hraw
  exact .before (spares_follow s p u hfollow) hnests

/-! ### Elements -/

/-- Text adds nothing that leaves a name loose. -/
theorem allLoose_textNodes (uriOf : Bytes → Bytes) (siblings : List Node) (s : Bytes) (p : Position)
    (scriptless allowEl : Bool) :
    Returns (fun cs => Node.AllLoose loose cs → Node.AllLoose loose siblings)
      (textNodes uriOf siblings s p scriptless allowEl : Parse σ (List Node)) := by
  have hleaves : AdmitsLeaves fun cs =>
      Node.AllLoose loose cs → Node.AllLoose loose siblings :=
    fun _ _ _ _ hns hcs => hns hcs.of_push.1
  exact returns_textNodes hleaves uriOf id s p scriptless allowEl

theorem bodyElementContent_eq_ok {parent : Head} {p : Position} {content : BodyContent}
    (h : bodyElementContent parent p s = .ok content t) :
    t.document = s.document ∧ parent.kind = .customTag ∧ content = bodyContentOf parent := by
  unfold bodyElementContent at h
  split at h
  · cases h
  next hkind =>
  split at h
  · cases h
  · cases h
    exact ⟨rfl, by simpa using hkind, rfl⟩

theorem eq_fallback_of_action? {name : Bytes} (h : Kind.action? name = some .fallback) :
    name = "fallback" := by
  obtain ⟨l, r, hl, -⟩ := List.lookup_eq_some_iff.mp h
  have hmem : (name, Kind.fallback) ∈ Kind.actions := by simp [hl]
  have hall : ∀ p ∈ Kind.actions, p.2 = .fallback → p.1 = "fallback" := by decide
  exact hall _ hmem rfl

theorem name_applyToNamed (h : Head) (a : Attribute) :
    (applyToNamed { h with attributes := h.attributes ++ [a] } a).name = h.name := by
  unfold applyToNamed
  split
  · rfl
  split
  · rfl
  split <;> rfl

theorem returns_name_tagHead (env : Env σ) (l : TagLibrary) (uri prefixName name : Bytes)
    (p : Position) (scriptless : Bool) :
    Returns (fun h => h.name = prefixName ++ ":" ++ name)
      (tagHead env l uri prefixName name p scriptless) :=
  Returns.skip fun _ => Returns.pure rfl

/-- A head under which no content is passed as it is written. -/
def IsStrict (h : Head) : Prop := h.kind = .customTag → bodyContentOf h ≠ .tagDependent

/-- The parser of the content of an element reads up to its end tag. -/
def Content.Closes (loose : Markup.Name → Bool) (inner : Content σ) : Prop :=
  ∀ {ns : Namespaces} {name : Markup.Name} {parent : Head} {scriptless : Bool}
    {siblings cs : List Node} {s t : State σ}, IsStrict parent →
    inner ns (some name) parent scriptless siblings s = .ok cs t → Node.AllLoose loose cs →
    Node.AllLoose loose siblings ∧ s.Closes loose name t

section Elements

variable {included : Include σ} (hinc : ∀ h scriptless, Spares (included h scriptless))
  {inner : Content σ} (hinner : inner.Closes loose) {ns : Namespaces} {tag : StartTag}
  {parent : Head} (hparent : IsStrict parent) {scriptless : Bool} {siblings cs : List Node}

include hinc in
theorem directive_closes {name : Bytes}
    (hrun : directive included ns tag name scriptless siblings s = .ok cs t)
    (hl : Node.AllLoose loose cs) : Node.AllLoose loose siblings ∧ s.Closes loose tag.name t := by
  unfold directive at hrun
  split at hrun
  · cases hrun
  obtain ⟨h, u, hhead, hrun⟩ := bind_eq_ok hrun
  obtain ⟨h', v, hattributes, hrun⟩ := bind_eq_ok hrun
  obtain ⟨data, w, hdata, hrun⟩ := bind_eq_ok hrun
  have hbefore : v.document = s.document :=
    congrArg State.document ((rests_addAttributes _ _ _ _ _ u h' v hattributes).trans
      (rests_directiveHead _ _ _ s h u hhead))
  have hclose : s.Closes loose tag.name w := .before hbefore (elementData_closes hdata)
  have hpush : ∀ children, Returns (fun cs => Node.AllLoose loose cs → Node.AllLoose loose siblings)
      (pure (Node.push siblings (.mk h' children)) : Parse σ (List Node)) :=
    fun _ => Returns.pure fun hcs => hcs.of_push.1
  have hafter : t.document = w.document := by
    refine (?_ : Spares _) w cs t hrun
    refine Spares.guard (rests_refuse _ _ _).spares fun _ => ?_
    dsimp only
    split
    · exact (spares_applyElIgnored _).bind fun _ => (Rests.pure _).spares
    · exact (spares_applyElIgnored _).bind fun _ => (Rests.pure _).spares
    · exact (hinc _ _).bind fun _ => (Rests.pure _).spares
    · exact (Rests.pure _).spares
  have hsiblings : Node.AllLoose loose cs → Node.AllLoose loose siblings := by
    refine (?_ : Returns (fun cs => Node.AllLoose loose cs → Node.AllLoose loose siblings) _)
      w cs t hrun
    refine Returns.guard fun _ => ?_
    dsimp only
    split
    · exact Returns.skip fun _ => hpush _
    · exact Returns.skip fun _ => hpush _
    · exact Returns.skip fun _ => hpush _
    · exact hpush _
  exact ⟨hsiblings hl, hclose.after hafter⟩

theorem scripting_closes {kind : Kind}
    (hrun : scripting kind tag scriptless siblings s = .ok cs t) (hl : Node.AllLoose loose cs) :
    Node.AllLoose loose siblings ∧ s.Closes loose tag.name t := by
  obtain ⟨code, u, hdata, hrun⟩ := bind_eq_ok hrun
  obtain ⟨n, v, hnode, hrun⟩ := bind_eq_ok hrun
  cases hrun
  exact ⟨hl.of_push.1,
    (elementData_closes hdata).after ((rests_scriptingNode _ _ _ _).spares u n t hnode)⟩

theorem textAction_closes (hrun : textAction ns tag scriptless siblings s = .ok cs t)
    (hl : Node.AllLoose loose cs) : Node.AllLoose loose siblings ∧ s.Closes loose tag.name t := by
  obtain ⟨h, u, hhead, hrun⟩ := bind_eq_ok hrun
  obtain ⟨h', v, hattributes, hrun⟩ := bind_eq_ok hrun
  obtain ⟨p, w, hfollow, hrun⟩ := bind_eq_ok hrun
  obtain ⟨text, x, hdata, hrun⟩ := bind_eq_ok hrun
  obtain ⟨children, y, htext, hrun⟩ := bind_eq_ok hrun
  cases hrun
  have hbefore : w.document = s.document := by
    rw [spares_follow v p w hfollow, rests_addAttributes _ _ _ _ _ u h' v hattributes,
      rests_actionHead _ _ _ s h u hhead]
  have hclose : w.Closes loose tag.name x := elementData_closes hdata
  exact ⟨hl.of_push.1,
    .before hbefore (hclose.after ((rests_textNodes _ _ _ _ _ _).spares x children t htext))⟩

include hinner hparent

theorem actionChildren_closes {h : Head} (hk : h.kind ≠ .customTag)
    (hname : h.kind = .fallback → tag.name.base = "fallback")
    (hrun : actionChildren inner ns tag parent h scriptless s = .ok cs t)
    (hl : Node.AllLoose loose [.mk h cs]) : s.Closes loose tag.name t := by
  have hchildren : ∀ (scriptless : Bool) (u : State σ), u.document = s.document →
      Ends True (do
        let children ← inner ns (some tag.name) h scriptless []
        checkActionBody h children
        return children) u
        fun cs t => Node.AllLoose loose [.mk h cs] → s.Closes loose tag.name t := by
    refine fun scriptless u hbefore => .of_runs fun cs t hrun hl => ?_
    obtain ⟨children, v, hcontent, hrun⟩ := bind_eq_ok hrun
    obtain ⟨_, w, hcheck, hrun⟩ := bind_eq_ok hrun
    cases hrun
    have hclose := (hinner (fun hk' => absurd hk' hk) hcontent hl.of_mk.1).2
    exact .before hbefore (hclose.after ((rests_checkActionBody h cs).spares v _ t hcheck))
  refine (?_ : Ends True _ s fun cs t =>
    Node.AllLoose loose [.mk h cs] → s.Closes loose tag.name t).1 cs t hrun hl
  unfold actionChildren
  dsimp only
  split
  · next hkind =>
    refine .of_runs fun cs t hrun hl => rawBody_closes (hl.of_mk.2 _ ?_) hrun
    have hkind' : (Node.mk h cs).kind = .fallback := hkind
    simp [Node.loosens, hkind', hname hkind]
  · refine Ends.bind (.of_runs fun content u => bodyElementContent_eq_ok) ?_
    rintro content u ⟨hbefore, hkind, rfl⟩
    split
    · next htag => exact absurd htag (hparent hkind)
    · exact hchildren _ u hbefore
    · exact hchildren _ u hbefore
  · exact hchildren _ s rfl

theorem standardAction_closes
    (hrun : standardAction inner ns tag parent scriptless siblings s = .ok cs t)
    (hl : Node.AllLoose loose cs) : Node.AllLoose loose siblings ∧ s.Closes loose tag.name t := by
  obtain ⟨h, u, hhead, hrun⟩ := bind_eq_ok hrun
  obtain ⟨_, v, hplace, hrun⟩ := bind_eq_ok hrun
  obtain ⟨h', w, hattributes, hrun⟩ := bind_eq_ok hrun
  obtain ⟨children, x, hchildren, hrun⟩ := bind_eq_ok hrun
  cases hrun
  have hbefore : w.document = s.document := by
    rw [rests_addAttributes _ _ _ _ _ v h' w hattributes, rests_checkPlacement _ _ u _ v hplace,
      rests_actionHead _ _ _ s h u hhead]
  have hkind : Kind.action? tag.name.base = some h'.kind := by
    rw [returns_kind_addAttributes _ _ _ _ _ v h' w hattributes]
    exact returns_kind_actionHead _ _ _ s h u hhead
  obtain ⟨⟨-, htag⟩, hleaf⟩ := Kind.action?_eq_some hkind
  have htext : h'.kind ≠ .text := fun h => by
    rw [h] at hleaf
    cases hleaf
  have hname : h'.kind = .fallback → tag.name.base = "fallback" := fun h =>
    eq_fallback_of_action? (h ▸ hkind)
  refine ⟨hl.of_push.1, .before hbefore ?_⟩
  exact actionChildren_closes hinner hparent htag hname hchildren (hl.of_push.2 htext)

omit hparent in
theorem tagChildren_closes {h : Head} (hk : h.kind = .customTag) (hname : h.name = tag.name.text)
    (hrun : tagChildren inner ns tag h scriptless s = .ok cs t)
    (hl : Node.AllLoose loose [.mk h cs]) : s.Closes loose tag.name t := by
  unfold tagChildren at hrun
  split at hrun
  · next hraw =>
    refine rawBody_closes (hl.of_mk.2 _ ?_) hrun
    have hk' : (Node.mk h cs).kind = .customTag := hk
    simpa [Node.loosens, hk', hname, Node.head] using hraw
  · next hraw =>
    obtain ⟨children, u, hcontent, hrun⟩ := bind_eq_ok hrun
    obtain ⟨_, v, hcheck, hrun⟩ := bind_eq_ok hrun
    cases hrun
    have hclose := (hinner (fun _ => by simpa using hraw) hcontent hl.of_mk.1).2
    exact hclose.after ((rests_checkTagBody h cs).spares u _ t hcheck)

omit hparent in
theorem customTag_closes {env : Env σ} {l : TagLibrary} (hspace : tag.name.space ≠ [])
    (hrun : customTag env inner ns tag l scriptless siblings s = .ok cs t)
    (hl : Node.AllLoose loose cs) : Node.AllLoose loose siblings ∧ s.Closes loose tag.name t := by
  obtain ⟨h, u, hhead, hrun⟩ := bind_eq_ok hrun
  obtain ⟨h', v, hattributes, hrun⟩ := bind_eq_ok hrun
  obtain ⟨children, w, hchildren, hrun⟩ := bind_eq_ok hrun
  cases hrun
  have hbefore : v.document = s.document :=
    (congrArg State.document (rests_addAttributes _ _ _ _ _ u h' v hattributes)).trans
      ((asks_tagHead _ _ _ _ _ _ _).spares s h u hhead)
  have hkind : h'.kind = .customTag :=
    (returns_kind_addAttributes _ _ _ _ _ u h' v hattributes).trans
      (returns_kind_tagHead _ _ _ _ _ _ _ s h u hhead)
  have hname : h'.name = tag.name.text := by
    rw [returns_addAttributes_eq name_applyToNamed _ _ _ _ _ u h' v hattributes,
      returns_name_tagHead _ _ _ _ _ _ _ s h u hhead, Markup.Name.text, if_neg (by simpa)]
  refine ⟨hl.of_push.1, .before hbefore ?_⟩
  refine tagChildren_closes hinner ?_ ?_ hchildren (hl.of_push.2 ?_)
  · exact hkind
  · exact hname
  · rw [show Node.kind _ = h'.kind from rfl, hkind]
    decide

/-- The end tag of an empty element is due after its start tag. -/
theorem plainElement_closes
    (hdue : tag.selfClosing = true → s.document.pending = some tag.name)
    (hrun : plainElement inner ns tag parent scriptless siblings s = .ok cs t)
    (hl : Node.AllLoose loose cs) : Node.AllLoose loose siblings ∧ s.Closes loose tag.name t := by
  unfold plainElement at hrun
  split at hrun
  · next hself =>
    obtain ⟨a, u, hnext, hrun⟩ := bind_eq_ok hrun
    refine ⟨allLoose_textNodes _ _ _ _ _ _ u cs t hrun hl, ?_⟩
    refine .after (fun opened hu => ?_) ((rests_textNodes _ _ _ _ _ _).spares u cs t hrun)
    have hend : s.document.next true =
        .ok (some (.endTag tag.name, { s.document with pending := none })) := by
      rw [Markup.Reader.next, hdue hself]
    obtain ⟨-, hnone, -⟩ | ⟨token, -, htoken⟩ := next_eq_ok hnext
    · cases hend.symm.trans hnone
    · obtain ⟨rfl, -⟩ := Prod.mk.inj (Option.some.inj (Except.ok.inj (hend.symm.trans htoken)))
      exact .endTag htoken (.inl rfl) hu
  · obtain ⟨opening, u, hopening, hrun⟩ := bind_eq_ok hrun
    obtain ⟨content, v, hcontent, hrun⟩ := bind_eq_ok hrun
    obtain ⟨p, w, hposition, hrun⟩ := bind_eq_ok hrun
    have hcontentLoose := allLoose_textNodes _ _ _ _ _ _ w cs t hrun hl
    obtain ⟨hopeningLoose, hclose⟩ := hinner hparent hcontent hcontentLoose
    refine ⟨allLoose_textNodes _ _ _ _ _ _ s opening u hopening hopeningLoose, ?_⟩
    have hafter : t.document = v.document :=
      ((rests_textNodes _ _ _ _ _ _).spares w cs t hrun).trans
        (rests_position.spares v p w hposition)
    exact .before ((rests_textNodes _ _ _ _ _ _).spares s opening u hopening) (hclose.after hafter)

include hinc in
theorem standardElement_closes {env : Env σ}
    (hrun : standardElement env included inner ns tag parent scriptless siblings s = .ok cs t)
    (hl : Node.AllLoose loose cs) : Node.AllLoose loose siblings ∧ s.Closes loose tag.name t := by
  unfold standardElement at hrun
  split at hrun
  · exact hinner hparent hrun hl
  split at hrun
  · exact directive_closes hinc hrun hl
  split at hrun
  · exact hinner hparent hrun hl
  cases hkind : scriptingKind? tag.name.base with
  | some kind =>
    rw [hkind] at hrun
    exact scripting_closes hrun hl
  | none =>
    rw [hkind] at hrun
    dsimp only at hrun
    split at hrun
    · exact textAction_closes hrun hl
    · exact standardAction_closes hinner hparent hrun hl

include hinc in
theorem element_closes {env : Env σ}
    (hdue : tag.selfClosing = true → s.document.pending = some tag.name)
    (hrun : element env included inner ns tag parent scriptless siblings s = .ok cs t)
    (hl : Node.AllLoose loose cs) : Node.AllLoose loose siblings ∧ s.Closes loose tag.name t := by
  unfold element at hrun
  dsimp only at hrun
  split at hrun
  · exact standardElement_closes hinc hinner hparent hrun hl
  split at hrun
  · exact hinner hparent hrun hl
  split at hrun
  · exact plainElement_closes hinner hparent hdue hrun hl
  next hspace =>
  obtain ⟨l?, u, hlibrary, hrun⟩ := bind_eq_ok hrun
  have hbefore : u.document = s.document := (asks_library? _ _ _).spares s l? u hlibrary
  have hdue' : tag.selfClosing = true → u.document.pending = some tag.name := hbefore ▸ hdue
  cases l? with
  | some l =>
    obtain ⟨hsiblings, hclose⟩ := customTag_closes hinner (by simpa using hspace) hrun hl
    exact ⟨hsiblings, .before hbefore hclose⟩
  | none =>
    obtain ⟨hsiblings, hclose⟩ := plainElement_closes hinner hparent hdue' hrun hl
    exact ⟨hsiblings, .before hbefore hclose⟩

end Elements

/-! ### Documents -/

/-- From `s` to `t` the content of an element is read, or that of a document. -/
def Finishes (loose : Markup.Name → Bool) : Option Markup.Name → State σ → State σ → Prop
  | some name, s, t => s.Closes loose name t
  | none, s, _ => s.document.Nests loose []

theorem Finishes.before {opened? : Option Markup.Name}
    (h : ∀ opened, u.document.Nests loose opened → s.document.Nests loose opened)
    (ht : Finishes loose opened? u t) : Finishes loose opened? s t := by
  cases opened? with
  | some name => exact fun opened hopened => h _ (ht opened hopened)
  | none => exact h _ ht

theorem pending_of_next {r r' : Markup.Reader} {as : List Markup.Attribute}
    (h : r.next true = .ok (some (.startTag name as true, r'))) : r'.pending = some name := by
  unfold Markup.Reader.next at h
  split at h
  · cases h
  split at h
  · cases h
  obtain ⟨⟨token, rest⟩, -, h⟩ := Markup.bind_eq_ok h
  cases h
  rfl

/-- **The content of an element is read up to its end tag**, and the content of a document up to its
end, all elements in it being closed. -/
theorem content_closes (env : Env σ) {included : Include σ}
    (hinc : ∀ h scriptless, Spares (included h scriptless)) (fuel : Nat) {ns : Namespaces}
    {opened? : Option Markup.Name} {parent : Head} (hparent : IsStrict parent) {scriptless : Bool}
    {siblings cs : List Node}
    (hrun : content env included fuel ns opened? parent scriptless siblings s = .ok cs t)
    (hl : Node.AllLoose loose cs) :
    Node.AllLoose loose siblings ∧ Finishes loose opened? s t := by
  induction fuel generalizing ns opened? parent scriptless siblings cs s t with
  | zero => cases hrun
  | succ fuel ih =>
    obtain ⟨a, u, hnext, hrun⟩ := bind_eq_ok hrun
    obtain ⟨token?, p⟩ := a
    obtain ⟨rfl, hnone, -⟩ | ⟨token, rfl, htoken⟩ := next_eq_ok hnext
    · cases opened? with
      | some name => cases hrun
      | none =>
        cases hrun
        exact ⟨hl, .atEnd hnone⟩
    cases token with
    | text text =>
      dsimp only at hrun
      split at hrun
      · obtain ⟨hsiblings, hrest⟩ := ih hparent hrun hl
        exact ⟨hsiblings, hrest.before fun opened hu => .text htoken hu⟩
      · obtain ⟨siblings', v, htext, hrun⟩ := bind_eq_ok hrun
        obtain ⟨hsiblings, hrest⟩ := ih hparent hrun hl
        have hbefore : v.document = u.document :=
          (rests_textNodes _ _ _ _ _ _).spares u siblings' v htext
        exact ⟨allLoose_textNodes _ _ _ _ _ _ u siblings' v htext hsiblings,
          hrest.before fun opened hv => .text htoken (hbefore ▸ hv)⟩
    | startTag name as closed =>
      have hdue : closed = true → u.document.pending = some name := by
        rintro rfl
        exact pending_of_next htoken
      obtain ⟨siblings', v, helement, hrun⟩ := bind_eq_ok hrun
      obtain ⟨hsiblings', hrest⟩ := ih hparent hrun hl
      obtain ⟨hsiblings, hclose⟩ := element_closes hinc (fun hp h hl => ih hp h hl) hparent
        hdue helement hsiblings'
      exact ⟨hsiblings, hrest.before fun opened hv => .startTag htoken (hclose opened hv)⟩
    | endTag name =>
      dsimp only at hrun
      split at hrun
      · next hname =>
        cases hrun
        obtain rfl : opened? = some name := by simpa using hname
        exact ⟨hl, fun opened ht => .endTag htoken (.inl rfl) ht⟩
      · cases hrun
    | other =>
      obtain ⟨hsiblings, hrest⟩ := ih hparent hrun hl
      exact ⟨hsiblings, hrest.before fun opened hu => .other htoken hu⟩

end Document

end Parsing

open Parsing

/-- **The tags of a document that is parsed nest.** Every end tag has the name of the innermost open
element, and at the end no element is open; only in an element of a loose name, and at its end, does
the name of an end tag not matter. No name needs to be loose in a document without fallbacks and
without tags whose content depends on them. -/
theorem ParseRequest.nests_of_parse {σ : Type} {r : ParseRequest} (hform : r.actualForm = .document)
    {host : Host σ} {memory : σ} {root : Node} (hparse : (r.parse host memory).1 = .ok root)
    {loose : Markup.Name → Bool}
    (hloose : ∀ n ∈ root.subtree, ∀ name, n.loosens name = true → loose name = true) :
    ∃ ts, ({ rest := r.text } : Markup.Reader).tokens = .ok ts ∧
      Markup.nests loose [] ts = true := by
  rw [parse_document host memory hform] at hparse
  unfold outcome at hparse
  split at hparse
  · next cs t hrun =>
    cases hparse
    obtain ⟨_, u, hstart, hrun⟩ := bind_eq_ok hrun
    cases hstart
    obtain ⟨fuel, _, hfuel, hrun⟩ := bind_eq_ok hrun
    cases hfuel
    have hl : Node.AllLoose loose cs := fun n hn => hloose n (by
      rw [Node.subtree_eq]
      exact List.mem_cons_of_mem _ hn)
    have hroot : Document.IsStrict (r.root (Cursor.ofText r.path r.text).position) :=
      fun hk => by cases hk
    exact (Document.content_closes _ (fun h _ => spares_includeFile _ _ h _) _ hroot hrun hl).2
  · cases hparse

/-- A document with a fallback in which the names of the tags do not match. -/
def fallbackPage : ParseRequest where
  path := "/a.jspx"
  text := "<r xmlns:jsp=\"http://java.sun.com/JSP/Page\"><jsp:text>t</jsp:text><e/><jsp:plugin>" ++
    "<jsp:fallback><a></b></jsp:fallback></jsp:plugin><p>q</p></r>"
  form := .document

theorem nests_of_parse_fallbackPage : ∃ root,
    (fallbackPage.parse ({} : Host Unit) ()).1 = .ok root ∧
    ∃ ts, ({ rest := fallbackPage.text } : Markup.Reader).tokens = .ok ts ∧
      Markup.nests (fun name => name.base == "fallback") [] ts = true := by
  have hsome : (fallbackPage.parse ({} : Host Unit) ()).1.toOption.any (fun root =>
      root.subtree.all fun n => n.kind != .customTag) = true := by decide +kernel
  obtain ⟨root, hparse, htags⟩ := exists_ok_of_any hsome
  refine ⟨root, hparse, ParseRequest.nests_of_parse rfl hparse fun n hn name hname => ?_⟩
  have htag := List.all_eq_true.mp htags n hn
  simp_all [Node.loosens]

end ServerPages
