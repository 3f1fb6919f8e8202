import ServerPages.Proofs.PlacedNodes

/-!
# Placed nodes of documents

The cursor of a document runs behind its reader: it is where the last token started, and is moved
on when the next one is asked for. The text between the two is the piece that the token took, which
ends at the edge of a tag, so the cursor stays exact; and where a start tag is found the cursor is
at its opening mark.

A document whose tokens come from any reader which agrees with `next` is compared with the same
document read by `next`.

## Main definitions

* `State.IsReading`: the cursor and the reader of a document are in step.
* `Passage.Shows`: what is known of a token and its position.

## Main results

* `Document.keeps_next`: the cursor and the reader stay in step.
* `Document.lays_parse`: the nodes of a document lie in it.
-/

namespace ServerPages

namespace Markup

/-- What a reader passes with a token ends in a cut, and starts with the opening mark of a tag if
the token is a start tag. -/
theorem Reader.next_takes {anyEncoding : Bool} {r r' : Reader} {t : Token}
    (h : r.next anyEncoding = .ok (some (t, r'))) :
    ∃ u, r.rest = u ++ r'.rest ∧ r'.offset = r.offset + u.length ∧ Utf8.IsCut u r'.rest ∧
      ∀ name attributes closed, t = .startTag name attributes closed → ∃ s, r.rest = 60 :: s := by
  unfold next at h
  split at h
  · obtain ⟨rfl, rfl⟩ := Prod.mk.inj (Option.some.inj (Except.ok.inj h))
    exact ⟨[], rfl, rfl, .nil _, fun _ _ _ ht => by cases ht⟩
  split at h
  · cases h
  obtain ⟨⟨t', rest⟩, htoken, h⟩ := bind_eq_ok h
  obtain ⟨rfl, rfl⟩ := Prod.mk.inj (Option.some.inj (Except.ok.inj h))
  have hends := token_ends htoken
  obtain ⟨u, hu⟩ := hends.suffix
  refine ⟨u, hu.symm, ?_, ?_, hends.opens⟩
  · rw [← hu, List.length_append]
    exact congrArg (r.offset + ·) (Nat.add_sub_cancel _ _)
  · rcases hends.edge with ⟨v, hv⟩ | hhead
    · obtain rfl : v ++ [62] = u := List.append_cancel_right (by rw [hu, ← hv]; simp)
      exact .of_last (by decide) _
    · exact .of_head fun b hb => hhead b hb ▸ by decide

end Markup

namespace Parsing

variable {σ α β : Type} {c : Passage σ}

/-- In the state a document is read: the cursor is where the last token started, and the reader is
after it. -/
structure State.IsReading (c : Passage σ) (s : State σ) : Prop where
  isIn : s.IsIn c 0
  rest : s.document.rest = s.cursor.rest.drop (s.document.offset - s.passed)
  cut : Utf8.IsCut (s.cursor.rest.take (s.document.offset - s.passed)) s.document.rest

theorem State.isFramed_isReading (c : Passage σ) : IsFramed c.host (State.IsReading c) := by
  intro s t hs ht
  refine ⟨hs.isIn.standing ht, ?_, ?_⟩
  · rw [ht.document, ht.passed, Cursor.rest, ht.place]
    exact hs.rest
  · rw [ht.document, ht.passed, Cursor.rest, ht.place]
    exact hs.cut

/-- What is known of a token and the position that it is read with. -/
structure Passage.Shows (c : Passage σ) (r : Option Markup.Token × Position) : Prop where
  stack : r.2.file :: r.2.includedFrom = c.view.files
  opens : ∀ name attributes closed, r.1 = some (.startTag name attributes closed) →
    c.Opens r.2 "<"

namespace Document

/-! ### Tokens -/

/-- The cursor catches up with the reader. -/
theorem agrees_follow {s : State σ} (hs : s.IsReading c) :
    Agrees (follow : Parse σ Position) follow s fun p t => t.IsIn c 0 ∧
      t.passed = t.document.offset ∧ t.document.rest = t.cursor.rest ∧
      p = t.cursor.position := by
  refine .of_runs ?_
  rintro p t ⟨⟩
  refine ⟨?_, rfl, ?_, rfl⟩
  · have hleads : s.cursor.LeadsTo c.whole (s.cursor.skip (s.document.offset - s.passed)) :=
      Cursor.leadsTo_skip fun _ => hs.rest ▸ hs.cut
    have hmoved := hs.isIn.moveTo hleads
    exact ⟨hmoved.source, hmoved.outer, hmoved.files, hmoved.least, hmoved.exact, hmoved.bindings⟩
  · show s.document.rest = (s.cursor.skip _).rest
    rw [Cursor.rest_skip, hs.rest]

/-- The cursor and the reader are in step where the cursor has caught up. -/
theorem isReading_of_passed {s : State σ} (hs : s.IsIn c 0) (hpassed : s.passed = s.document.offset)
    (hrest : s.document.rest = s.cursor.rest) : s.IsReading c := by
  refine ⟨hs, ?_, ?_⟩
  · rw [hpassed, Nat.sub_self, List.drop_zero, hrest]
  · rw [hpassed, Nat.sub_self, List.take_zero]
    exact .nil _

/-- Following a token stays in the source. -/
theorem keeps_follow (hc : c.IsLined) :
    Keeps (State.IsReading c) (follow : Parse σ Position) follow
      fun p => p.file :: p.includedFrom = c.view.files := by
  refine fun s hs => (agrees_follow hs).mono ?_
  rintro p t ⟨hin, hpassed, hrest, rfl⟩
  exact ⟨isReading_of_passed hin hpassed hrest, hin.stack hc⟩

/-- **The next token** is where the cursor is then, and the reader is after it. -/
theorem keeps_next (hc : c.IsLined) :
    Keeps (State.IsReading c) (next : Parse σ (Option Markup.Token × Position)) next c.Shows := by
  intro s hs
  refine (agrees_follow hs).bind ?_
  rintro p t ⟨hin, hpassed, hrest, rfl⟩
  have hreading := isReading_of_passed hin hpassed hrest
  refine Agrees.get ?_
  cases htoken : t.document.next true with
  | error problem => exact agrees_refuse _ _ _
  | ok r =>
  cases r with
  | none => exact Agrees.pure ⟨hreading, hin.stack hc, fun _ _ _ h => by cases h⟩
  | some r =>
  obtain ⟨token, r⟩ := r
  obtain ⟨u, hu, hoffset, hcut, hopens⟩ := Markup.Reader.next_takes htoken
  refine .of_runs ?_
  rintro a v ⟨⟩
  refine ⟨⟨⟨hin.source, hin.outer, hin.files, hin.least, hin.exact, hin.bindings⟩, ?_, ?_⟩,
    hin.stack hc, ?_⟩
  · show r.rest = t.cursor.rest.drop (r.offset - t.passed)
    rw [hpassed, hoffset, Nat.add_sub_cancel_left, ← hrest, hu, List.drop_left]
  · show Utf8.IsCut (t.cursor.rest.take (r.offset - t.passed)) r.rest
    rw [hpassed, hoffset, Nat.add_sub_cancel_left, ← hrest, hu, List.take_left]
    exact hcut
  · intro name attributes closed ht
    obtain ⟨v, hv⟩ := hopens name attributes closed (Option.some.inj ht)
    exact hin.opens hc ⟨v, hv.symm.trans hrest⟩

/-! ### Nodes -/

/-- A text of a document may stand anywhere in it. -/
theorem holds_text (hdoc : c.isDocument = true) {p : Position}
    (hp : p.file :: p.includedFrom = c.view.files) (u : Bytes) : c.Holds p u :=
  ⟨hp, fun h => by rw [hdoc] at h; cases h⟩

/-- An element of a document is placed where its start tag opens. -/
theorem places_element (hdoc : c.isDocument = true) {p : Position} (hp : c.Opens p "<") {h : Head}
    (hstart : h.start = p) : c.Places h := by
  refine Passage.Opens.places ?_ hstart
  rwa [hdoc]

theorem keeps_textNodes (hdoc : c.isDocument = true) (uriOf : Bytes → Bytes)
    {siblings : List Node} (hs : c.Lays siblings) (s : Bytes) {p : Position}
    (hp : p.file :: p.includedFrom = c.view.files) (scriptless allowEl : Bool) :
    Keeps (State.IsReading c) (textNodes uriOf siblings s p scriptless allowEl)
      (textNodes uriOf siblings s p scriptless allowEl) c.Lays :=
  (State.isFramed_isReading c).keeps (rests_textNodes _ _ _ _ _ _).stands
    (lays_textNodes _ hs (holds_text hdoc hp s) _ _)

theorem keeps_addAttributes (ns : Namespaces) (p : Position) (scriptless : Bool) (h : Head)
    (as : List Markup.Attribute) :
    Keeps (State.IsReading c) (addAttributes ns p scriptless h as)
      (addAttributes ns p scriptless h as) fun h' => h'.label = h.label := by
  induction as generalizing h with
  | nil => exact Keeps.pure rfl
  | cons a as ih =>
    refine Keeps.ite (ih h) ?_
    refine ((State.isFramed_isReading c).keeps_addAttribute _ _ _ _ _ _ _ _).bind fun h' hh' => ?_
    exact (ih h').mono fun _ h'' => h''.trans hh'

theorem ne_include_of_scriptingKind? {name : Bytes} {kind : Kind}
    (h : scriptingKind? name = some kind) : kind ≠ .includeDirective := by
  unfold scriptingKind? at h
  rintro rfl
  split at h
  · cases h
  split at h
  · cases h
  split at h
  · cases h
  · cases h

/-- The parsers of the content of an element agree, keep the cursor and the reader in step and lay
their nodes in the document. -/
def Content.Lays (c : Passage σ) (y x : Content σ) : Prop :=
  ∀ ns opened parent scriptless siblings, c.Lays siblings →
    Keeps (State.IsReading c) (y ns opened parent scriptless siblings)
      (x ns opened parent scriptless siblings) c.Lays

/-! ### Content without elements -/

section Tokens

variable (hc : c.IsLined) (hdoc : c.isDocument = true) {reader : TokenReader σ}
  (htoken : Keeps (State.IsReading c) reader.token next c.Shows)

include htoken

theorem keeps_dataWithin (name : Markup.Name) (fuel : Nat) (data : Bytes) :
    Keeps (State.IsReading c) (@dataWithin σ reader name fuel data)
      (@dataWithin σ .inOrder name fuel data)
      fun _ => True := by
  induction fuel generalizing data with
  | zero => exact fun _ _ => Agrees.throw _
  | succ fuel ih =>
    refine htoken.bind fun r _ => ?_
    obtain ⟨token?, p⟩ := r
    cases token? with
    | none => exact keeps_refuse _ _ _
    | some t =>
      cases t with
      | text s => exact ih _
      | startTag _ _ _ => exact keeps_refuse _ _ _
      | endTag found => exact Keeps.ite (keeps_refuse _ _ _) (Keeps.pure trivial)
      | other => exact ih _

theorem keeps_elementData (name : Markup.Name) :
    Keeps (State.IsReading c) (@elementData σ reader name) (@elementData σ .inOrder name)
      fun _ => True :=
  Keeps.get fun _ => keeps_dataWithin htoken name _ _

theorem keeps_rawWithin (h : Head) (name : Markup.Name) (fuel depth : Nat) :
    Keeps (State.IsReading c) (@rawWithin σ reader h name fuel depth)
      (@rawWithin σ .inOrder h name fuel depth)
      fun _ => True := by
  induction fuel generalizing depth with
  | zero => exact fun _ _ => Agrees.throw _
  | succ fuel ih =>
    refine Keeps.get fun s => htoken.bind fun r _ => ?_
    obtain ⟨token?, p⟩ := r
    cases token? with
    | none => exact keeps_refuse _ _ _
    | some t =>
      cases t with
      | text s => exact ih _
      | startTag _ _ _ => exact ih _
      | endTag found =>
        cases depth with
        | zero => exact Keeps.pure trivial
        | succ depth => exact ih _
      | other => exact ih _

include hdoc

/-! ### Elements -/

/-- A directive reads as with the tokens in order, and lays its node in place. -/
theorem keeps_directive {winc inc : Include σ} (hinc : KeepsIncluded c winc inc)
    (ns : Namespaces) {t : StartTag} (ht : c.Opens t.position "<") (name : Bytes)
    (scriptless : Bool) {siblings : List Node} (hs : c.Lays siblings) :
    Keeps (State.IsReading c) (@directive σ reader winc ns t name scriptless siblings)
      (@directive σ .inOrder inc ns t name scriptless siblings) c.Lays := by
  have hframed := State.isFramed_isReading c
  unfold directive
  refine Keeps.guard (keeps_refuse _ _ _) fun _ => ?_
  refine (hframed.keeps (rests_directiveHead _ _ _).stands (returns_directiveHead_eq _ _ _)).bind ?_
  rintro h ⟨-, hstart⟩
  refine (keeps_addAttributes _ _ _ _ _).bind fun h' hlabel => ?_
  simp only [Head.label, Prod.mk.injEq] at hlabel
  have hplaces : c.Places h' := places_element hdoc ht (hlabel.2.1.trans hstart)
  refine (keeps_elementData htoken _).bind fun data _ => Keeps.guard (keeps_refuse _ _ _) ?_
  intro _
  have hleaf : h'.kind ≠ .includeDirective → ∀ {x : Parse σ Unit}, Stands c.host x →
      Keeps (State.IsReading c) (x >>= fun _ => pure (Node.push siblings (.mk h' [])))
        (x >>= fun _ => pure (Node.push siblings (.mk h' []))) c.Lays := fun hne x hx =>
    (hframed.keeps_any hx).bind fun _ _ => Keeps.pure (hs.leaf hne hplaces)
  dsimp only
  cases hk : h'.kind
  case pageDirective => exact hleaf (by simp [hk]) (stands_applyElIgnored h')
  case tagDirective => exact hleaf (by simp [hk]) (stands_applyElIgnored h')
  case includeDirective =>
    exact (hinc _ h' scriptless hframed fun s hs => hs.isIn).bind fun cs hcs =>
      Keeps.pure (hs.inclusion hk hplaces hcs)
  all_goals exact Keeps.pure (hs.leaf (by simp [hk]) hplaces)

/-- So does a scripting element. -/
theorem keeps_scripting {kind : Kind} (hk : kind ≠ .includeDirective) {t : StartTag}
    (ht : c.Opens t.position "<") (scriptless : Bool) {siblings : List Node}
    (hs : c.Lays siblings) :
    Keeps (State.IsReading c) (@scripting σ reader kind t scriptless siblings)
      (@scripting σ .inOrder kind t scriptless siblings) c.Lays := by
  refine (keeps_elementData htoken _).bind fun code _ => ?_
  refine ((State.isFramed_isReading c).keeps (rests_scriptingNode _ _ _ _).stands ?_).bind
    fun n hn => Keeps.pure hn
  exact Returns.ite (returns_refuse _ _ _)
    (Returns.pure (hs.leaf hk (places_element hdoc ht rfl)))

include hc

theorem keeps_rawBody (h : Head) (name : Markup.Name) (scriptless : Bool) :
    Keeps (State.IsReading c) (@rawBody σ reader h name scriptless)
      (@rawBody σ .inOrder h name scriptless)
      c.Lays := by
  refine (keeps_follow hc).bind fun p hp => Keeps.get fun s => Keeps.get fun _ => ?_
  refine (keeps_rawWithin htoken h name _ _).bind fun unread _ => Keeps.pure ?_
  split
  · exact c.lays_nil
  · exact c.lays_nil.text (holds_text hdoc hp []) _ _

theorem keeps_textAction (ns : Namespaces) {t : StartTag} (ht : c.Opens t.position "<")
    (scriptless : Bool) {siblings : List Node} (hs : c.Lays siblings) :
    Keeps (State.IsReading c) (@textAction σ reader ns t scriptless siblings)
      (@textAction σ .inOrder ns t scriptless siblings) c.Lays := by
  have hframed := State.isFramed_isReading c
  refine (hframed.keeps (rests_actionHead _ _ _).stands (returns_actionHead_eq _ _ _)).bind ?_
  rintro h ⟨hk, hstart, -⟩
  refine (keeps_addAttributes _ _ _ _ _).bind fun h' hlabel => ?_
  simp only [Head.label, Prod.mk.injEq] at hlabel
  refine (keeps_follow hc).bind fun p hp => (keeps_elementData htoken _).bind fun s _ => ?_
  refine (keeps_textNodes hdoc _ c.lays_nil _ hp _ _).bind fun cs hcs => Keeps.pure ?_
  exact hs.node (hlabel.1 ▸ Kind.ne_include_of_action? hk)
    (places_element hdoc ht (hlabel.2.1.trans hstart)) hcs

variable {x y : Content σ} (hinner : Content.Lays c y x)

include hinner

theorem keeps_actionChildren (ns : Namespaces) (t : StartTag) (parent h : Head)
    (scriptless : Bool) :
    Keeps (State.IsReading c) (@actionChildren σ reader y ns t parent h scriptless)
      (@actionChildren σ .inOrder x ns t parent h scriptless) c.Lays := by
  have hframed := State.isFramed_isReading c
  have hchildren : ∀ scriptless, Keeps (State.IsReading c)
      (do
        let children ← y ns (some t.name) h scriptless []
        checkActionBody h children
        return children)
      (do
        let children ← x ns (some t.name) h scriptless []
        checkActionBody h children
        return children) c.Lays := fun scriptless =>
    (hinner _ _ _ _ _ c.lays_nil).bind fun cs hcs =>
      (hframed.keeps_any (rests_checkActionBody _ _).stands).bind fun _ _ => Keeps.pure hcs
  unfold actionChildren
  dsimp only
  cases h.kind
  case fallback => exact keeps_rawBody hc hdoc htoken _ _ _
  case body =>
    refine (hframed.keeps_any (rests_bodyElementContent _ _).stands).bind fun content _ => ?_
    cases content with
    | tagDependent => exact keeps_rawBody hc hdoc htoken _ _ _
    | scriptless => exact hchildren _
    | page => exact hchildren _
    | empty => exact hchildren _
  all_goals exact hchildren _

/-- So does a standard action. -/
theorem keeps_standardAction (ns : Namespaces) {t : StartTag} (ht : c.Opens t.position "<")
    (parent : Head) (scriptless : Bool) {siblings : List Node} (hs : c.Lays siblings) :
    Keeps (State.IsReading c) (@standardAction σ reader y ns t parent scriptless siblings)
      (@standardAction σ .inOrder x ns t parent scriptless siblings) c.Lays := by
  have hframed := State.isFramed_isReading c
  refine (hframed.keeps (rests_actionHead _ _ _).stands (returns_actionHead_eq _ _ _)).bind ?_
  rintro h ⟨hk, hstart, -⟩
  refine (hframed.keeps_any (rests_checkPlacement _ _).stands).bind fun _ _ => ?_
  refine (keeps_addAttributes _ _ _ _ _).bind fun h' hlabel => ?_
  simp only [Head.label, Prod.mk.injEq] at hlabel
  refine (keeps_actionChildren hc hdoc htoken hinner _ _ _ _ _).bind fun cs hcs => Keeps.pure ?_
  exact hs.node (hlabel.1 ▸ Kind.ne_include_of_action? hk)
    (places_element hdoc ht (hlabel.2.1.trans hstart)) hcs

theorem keeps_standardElement (env : Env σ) {winc inc : Include σ}
    (hinc : KeepsIncluded c winc inc) (ns : Namespaces) {t : StartTag}
    (ht : c.Opens t.position "<") (parent : Head) (scriptless : Bool) {siblings : List Node}
    (hs : c.Lays siblings) :
    Keeps (State.IsReading c) (@standardElement σ reader env winc y ns t parent scriptless siblings)
      (@standardElement σ .inOrder env inc x ns t parent scriptless siblings) c.Lays := by
  have hinside := hinner ns (some t.name) parent scriptless siblings hs
  refine Keeps.ite hinside (Keeps.ite (keeps_directive hdoc htoken hinc _ ht _ _ hs)
    (Keeps.ite hinside ?_))
  cases hk : scriptingKind? t.name.base with
  | some kind => exact keeps_scripting hdoc htoken (ne_include_of_scriptingKind? hk) ht _ hs
  | none =>
    exact Keeps.ite (keeps_textAction hc hdoc htoken _ ht _ hs)
      (keeps_standardAction hc hdoc htoken hinner _ ht _ _ hs)

theorem keeps_tagChildren (ns : Namespaces) (t : StartTag) (h : Head) (scriptless : Bool) :
    Keeps (State.IsReading c) (@tagChildren σ reader y ns t h scriptless)
      (@tagChildren σ .inOrder x ns t h scriptless) c.Lays := by
  refine Keeps.ite (keeps_rawBody hc hdoc htoken _ _ _) ?_
  refine (hinner _ _ _ _ _ c.lays_nil).bind fun cs hcs => ?_
  exact ((State.isFramed_isReading c).keeps_any (rests_checkTagBody _ _).stands).bind
    fun _ _ => Keeps.pure hcs

/-- So does a custom tag. -/
theorem keeps_customTag (env : Env σ) (ns : Namespaces) {t : StartTag}
    (ht : c.Opens t.position "<") (l : TagLibrary) (scriptless : Bool) {siblings : List Node}
    (hs : c.Lays siblings) :
    Keeps (State.IsReading c) (@customTag σ reader env y ns t l scriptless siblings)
      (@customTag σ .inOrder env x ns t l scriptless siblings) c.Lays := by
  have hframed := State.isFramed_isReading c
  refine (hframed.keeps (asks_tagHead _ _ _ _ _ _ _).stands
    (returns_tagHead_eq _ _ _ _ _ _ _)).bind ?_
  rintro h ⟨hlabel, -⟩
  refine (keeps_addAttributes _ _ _ _ _).bind fun h' hlabel' => ?_
  have hlabel := hlabel'.trans hlabel
  simp only [Head.label, Prod.mk.injEq] at hlabel
  refine (keeps_tagChildren hc hdoc htoken hinner _ _ _ _).bind fun cs hcs => Keeps.pure ?_
  refine hs.node ?_ (places_element hdoc ht hlabel.2.1) hcs
  show h'.kind ≠ .includeDirective
  rw [hlabel.1]
  exact fun h => by cases h

/-- And so does any other element. -/
theorem keeps_plainElement (ns : Namespaces) {t : StartTag} (ht : c.Opens t.position "<")
    (parent : Head) (scriptless : Bool) {siblings : List Node} (hs : c.Lays siblings) :
    Keeps (State.IsReading c) (@plainElement σ reader y ns t parent scriptless siblings)
      (@plainElement σ .inOrder x ns t parent scriptless siblings) c.Lays := by
  refine Keeps.ite (htoken.bind fun _ _ => keeps_textNodes hdoc _ hs _ ht.stack _ _) ?_
  refine (keeps_textNodes hdoc _ hs _ ht.stack _ _).bind fun cs hcs => ?_
  refine (hinner _ _ _ _ _ hcs).bind fun cs' hcs' => Keeps.bind (P := fun p =>
    p.file :: p.includedFrom = c.view.files) ?_ fun p hp => keeps_textNodes hdoc _ hcs' _ hp _ _
  refine fun s hin => .of_runs ?_
  rintro p t ⟨⟩
  exact ⟨hin, hin.isIn.stack hc⟩

theorem keeps_element (env : Env σ) {winc inc : Include σ} (hinc : KeepsIncluded c winc inc)
    (ns : Namespaces) {t : StartTag} (ht : c.Opens t.position "<") (parent : Head)
    (scriptless : Bool) {siblings : List Node} (hs : c.Lays siblings) :
    Keeps (State.IsReading c) (@element σ reader env winc y ns t parent scriptless siblings)
      (@element σ .inOrder env inc x ns t parent scriptless siblings) c.Lays := by
  refine Keeps.ite (keeps_standardElement hc hdoc htoken hinner env hinc _ ht _ _ hs) ?_
  refine Keeps.ite (hinner _ _ _ _ _ hs) (Keeps.ite ?_ ?_)
  · exact keeps_plainElement hc hdoc htoken hinner _ ht _ _ hs
  refine ((State.isFramed_isReading c).keeps_any (asks_library? _ _ _).stands).bind fun l? _ => ?_
  cases l? with
  | none => exact keeps_plainElement hc hdoc htoken hinner _ ht _ _ hs
  | some l => exact keeps_customTag hc hdoc htoken hinner env _ ht _ _ hs

omit hinner

/-- The content of an element is laid in the document. -/
theorem content_lays (env : Env σ) {winc inc : Include σ} (hinc : KeepsIncluded c winc inc)
    (fuel : Nat) :
    Content.Lays c (@content σ reader env winc fuel) (@content σ .inOrder env inc fuel) := by
  induction fuel with
  | zero => exact fun _ _ _ _ _ _ _ _ => Agrees.throw _
  | succ fuel ih =>
    intro ns opened parent scriptless siblings hs
    refine htoken.bind fun r hr => ?_
    obtain ⟨token?, p⟩ := r
    cases token? with
    | none =>
      cases opened with
      | some name => exact keeps_refuse _ _ _
      | none => exact Keeps.pure hs
    | some t =>
      cases t with
      | text s =>
        refine Keeps.ite (ih _ _ _ _ _ hs) ?_
        exact (keeps_textNodes hdoc _ hs _ hr.stack _ _).bind fun cs hcs => ih _ _ _ _ _ hcs
      | startTag name attributes closed =>
        have hopens := hr.opens name attributes closed rfl
        exact (keeps_element hc hdoc htoken ih env hinc ns (t := ⟨name, attributes, closed, p⟩)
          hopens parent scriptless hs).bind fun cs hcs => ih _ _ _ _ _ hcs
      | endTag name => exact Keeps.ite (Keeps.pure hs) (keeps_refuse _ _ _)
      | other => exact ih _ _ _ _ _ hs

/-- **A document** is laid in its source. -/
theorem lays_parse (env : Env σ) {winc inc : Include σ} (hinc : KeepsIncluded c winc inc)
    (parent : Head) (scriptless : Bool) {s : State σ} (hs : s.IsIn c 0) :
    Agrees (@parse σ reader env winc parent scriptless)
      (@parse σ .inOrder env inc parent scriptless) s
      fun cs t => t.IsIn c 0 ∧ c.Lays cs := by
  have hstart : State.IsReading c
      { s with document := { rest := s.cursor.rest }, passed := 0 } :=
    isReading_of_passed ⟨hs.source, hs.outer, hs.files, hs.least, hs.exact, hs.bindings⟩ rfl rfl
  refine Agrees.mono (content_lays hc hdoc htoken env hinc _ _ _ _ _ _ c.lays_nil _ hstart) ?_
  exact fun _ _ h => ⟨h.1.isIn, h.2⟩

end Tokens

end Document

end Parsing

end ServerPages
