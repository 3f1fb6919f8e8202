import ServerPages.Proofs.Dialog
import ServerPages.Proofs.GenerationStops
import ServerPages.Proofs.TreeShapes
import ServerPages.Proofs.ValidationSteps

/-!
# Invocations stay what they are

A tree is validated and annotated after it was parsed. Its invocations stay as they are written by
that: a tag is still the one of its name in the library of its uri, with the contract it had there.

## Main results

* `Node.written_validate`, `Node.targets_validate`: validation keeps the invocations, and so the
  invoked tags.
* `Node.written_of_generate`, `Node.targets_of_generate`: and so does code generation.
-/

namespace ServerPages

/-- The tag that is invoked: the uri of its library and its name there. -/
def CustomTag.target (t : CustomTag) : Bytes × Bytes := (t.uri, t.localName)

/-- An invocation without what validation and generation note of it. -/
def CustomTag.asWritten (t : CustomTag) : CustomTag :=
  { t with nesting := 0, vars := [], data := {}, names := {} }

namespace Node

mutual

/-- The tags that are invoked in a tree, in the order of the source. -/
def targets : Node → List (Bytes × Bytes)
  | .mk h cs => (h.tag.map CustomTag.target).toList ++ targetsAll cs

/-- The tags that are invoked in some trees, in the order of the source. -/
def targetsAll : List Node → List (Bytes × Bytes)
  | [] => []
  | n :: ns => targets n ++ targetsAll ns

end

mutual

theorem targets_eq (n : Node) : n.targets = n.tags.map CustomTag.target := by
  match n with
  | .mk h cs =>
    rw [targets, tags, List.map_append, targetsAll_eq cs]
    cases h.tag <;> rfl

theorem targetsAll_eq (ns : List Node) : targetsAll ns = (tagsAll ns).map CustomTag.target := by
  match ns with
  | [] => rfl
  | n :: ns => rw [targetsAll, tagsAll, List.map_append, targets_eq n, targetsAll_eq ns]

end

theorem targets_setPage (n : Node) (page : PageInfo) : (n.setPage page).targets = n.targets := by
  cases n
  rfl

/-- The invocations in a tree as they are written. -/
def written (n : Node) : List CustomTag := n.tags.map CustomTag.asWritten

/-- The invocations in some trees as they are written. -/
def writtenAll (ns : List Node) : List CustomTag := (tagsAll ns).map CustomTag.asWritten

theorem written_mk (h : Head) (cs : List Node) :
    (mk h cs).written = (h.tag.map CustomTag.asWritten).toList ++ writtenAll cs := by
  rw [written, tags, List.map_append, writtenAll]
  cases h.tag <;> rfl

theorem writtenAll_cons (n : Node) (ns : List Node) :
    writtenAll (n :: ns) = n.written ++ writtenAll ns := by
  rw [writtenAll, tagsAll, List.map_append, written, writtenAll]

/-- Trees with the same invocations invoke the same tags. -/
theorem targets_of_written {n m : Node} (h : n.written = m.written) : n.targets = m.targets := by
  have htargets : ∀ l : Node, l.targets = l.written.map CustomTag.target := by
    intro l
    rw [targets_eq, written, List.map_map]
    rfl
  rw [htargets, h, ← htargets]

theorem written_setPage (n : Node) (page : PageInfo) : (n.setPage page).written = n.written := by
  cases n
  rfl

theorem isTagFile_setPage (n : Node) (page : PageInfo) :
    (n.setPage page).head.unit.any (·.isTagFile) = n.head.unit.any (·.isTagFile) := by
  obtain ⟨head, cs⟩ := n
  show (head.unit.map _).any _ = head.unit.any _
  cases head.unit <;> rfl

/-! ### Generation -/

mutual

theorem tags_numbered (i : Nat) (n : Node) : (n.numbered i).1.tags = n.tags := by
  match n with
  | .mk h cs =>
    rw [numbered, tags, tags, ← tagsAll_numberedAll (i + 1) cs]

theorem tagsAll_numberedAll (i : Nat) (ns : List Node) :
    tagsAll (numberedAll i ns).1 = tagsAll ns := by
  match ns with
  | [] => rfl
  | n :: ns =>
    rw [numberedAll, tagsAll, tagsAll, tags_numbered i n, tagsAll_numberedAll _ ns]

end

mutual

theorem written_mapHeads {f : Head → Head}
    (hf : ∀ h, (f h).tag.map CustomTag.asWritten = h.tag.map CustomTag.asWritten) (n : Node) :
    (n.mapHeads f).written = n.written := by
  match n with
  | .mk h cs => rw [mapHeads, written_mk, written_mk, hf, writtenAll_mapHeadsAll hf cs]

theorem writtenAll_mapHeadsAll {f : Head → Head}
    (hf : ∀ h, (f h).tag.map CustomTag.asWritten = h.tag.map CustomTag.asWritten)
    (ns : List Node) : writtenAll (mapHeadsAll f ns) = writtenAll ns := by
  match ns with
  | [] => rfl
  | n :: ns =>
    rw [mapHeadsAll, writtenAll_cons, writtenAll_cons, written_mapHeads hf n,
      writtenAll_mapHeadsAll hf ns]

end

/-- Generation keeps the invocations. -/
theorem written_of_generate {options : Generation.Options} {root : Node} {code : GeneratedUnit}
    (h : root.generate options = .ok code) : code.tree.written = root.written := by
  have hannotate (s : Generation.State) (h : Head) :
      (Generation.annotate s h).tag.map CustomTag.asWritten = h.tag.map CustomTag.asWritten := by
    rw [Generation.annotate, Option.map_map]
    rfl
  unfold generate at h
  split at h
  · dsimp only at h
    split at h
    · cases h
    · obtain rfl := Except.ok.inj h
      rw [written_mapHeads (hannotate _), written, tags_numbered, written]
  · cases h

/-- Generation keeps the invoked tags. -/
theorem targets_of_generate {options : Generation.Options} {root : Node} {code : GeneratedUnit}
    (h : root.generate options = .ok code) : code.tree.targets = root.targets :=
  targets_of_written (written_of_generate h)

theorem unit_of_generate {options : Generation.Options} {root : Node} {code : GeneratedUnit}
    (h : root.generate options = .ok code) : code.tree.head.unit = root.head.unit := by
  unfold generate at h
  split at h
  · dsimp only at h
    split at h
    · cases h
    · obtain rfl := Except.ok.inj h
      obtain ⟨head, cs⟩ := root
      rfl
  · cases h

end Node

/-! ### Validation -/

namespace Validation

variable {α β σ : Type} {P : β → Prop}

theorem gives_checkTag (env : Env σ) (t : CustomTag) (d : TagDescriptor) (nesting : Nat) (h : Head)
    (cs : List Node) :
    Gives (fun h' => h'.tag.map CustomTag.asWritten = some t.asWritten)
      (checkTag env t d nesting h cs) := by
  have hrest : ∀ (h : Head) (data : TagData),
      Gives (fun h' => h'.tag.map CustomTag.asWritten = some t.asWritten) (do
        let vars ← checkVariables d h data
        addPrefix t.prefixName t.uri
        return { h with tag := some { t with nesting := nesting, data := data, vars := vars } } :
          Validate σ Head) :=
    fun h data => Gives.skip fun _ => Gives.skip fun _ => Gives.pure rfl
  refine Gives.skip fun r => Gives.skip fun r' => Gives.skip fun _ => ?_
  refine Gives.ite (Gives.skip fun _ => ?_) ?_
  all_goals
    dsimp only
    split
    · exact Gives.skip fun _ => hrest _ _
    · exact hrest _ _

/-- The children of a node, and then its attributes. -/
theorem gives_children {h : Head} {scope : Scope}
    {visitChildren : Validate σ (List Node × ChildInfo)} {ts : List CustomTag}
    {f : List Node × ChildInfo → ChildInfo → β}
    (hcs : Gives (fun r => Node.writtenAll r.1 = ts) visitChildren)
    (hf : ∀ r info, Node.writtenAll r.1 = ts → P (f r info)) :
    Gives P (do return f (← visitChildren) (← attributeInfo h scope)) :=
  hcs.bind fun r hr => Gives.skip fun info => Gives.pure (hf r info hr)

mutual

theorem gives_visit (env : Env σ) (n : Node) (parent : Kind) (scope : Scope) (hn : n.IsParsed) :
    Gives (fun r => r.1.written = n.written) (visit env parent scope n) := by
  match n, hn with
  | .mk h cs, .mk head leaf children =>
    have hcs := fun parent scopeOf => gives_visitAll env cs parent scopeOf children
    unfold visit
    split
    iterate 3
      · exact Gives.ite (Gives.skip fun _ => Gives.pure rfl) (Gives.pure rfl)
    · exact Gives.skip fun _ => Gives.pure rfl
    iterate 3
      · refine gives_children (hcs _ _) fun r info hr => ?_
        rw [Node.written_mk, Node.written_mk, hr]
    · next hk =>
        refine (gives_checkTag _ _ _ _ _ _).bind fun h' hh' => ?_
        refine gives_children (hcs _ _) fun r info hr => ?_
        rw [Node.written_mk, Node.written_mk, hr, hh']
        have hd := head.descriptor hk
        unfold Head.descriptor? at hd
        cases ht : h.tag with
        | none =>
          rw [ht] at hd
          cases hd
        | some t => rfl
    · refine Gives.ite (Gives.skip fun _ => ?_) (Gives.skip fun _ => ?_)
      all_goals
        refine gives_children (hcs _ _) fun r info hr => ?_
        rw [Node.written_mk, Node.written_mk, hr]

theorem gives_visitAll (env : Env σ) (cs : List Node) (parent : Kind) (scopeOf : Head → Scope)
    (hcs : Node.AllParsed cs) :
    Gives (fun r => Node.writtenAll r.1 = Node.writtenAll cs) (visitAll env parent scopeOf cs) := by
  match cs with
  | [] => exact Gives.pure rfl
  | .mk h ds :: cs =>
    unfold visitAll
    obtain ⟨hc, hcs⟩ := List.forall_mem_cons.mp hcs
    refine (gives_visit env (.mk h ds) _ _ hc).bind fun r hr => ?_
    refine (gives_visitAll env cs parent scopeOf hcs).bind fun r' hr' => Gives.pure ?_
    rw [Node.writtenAll_cons, Node.writtenAll_cons, hr, hr']

end

end Validation

/-- Validation keeps the invocations of a parsed tree. -/
theorem Node.written_validate {σ : Type}
    (library : Option (Bytes → σ → Except Fault TagLibrary × σ)) (options : ValidationOptions)
    (memory : σ) {root : Node} (h : root.IsUnit) :
    (root.validate library options memory).tree.written = root.written := by
  have hvisit (env : Validation.Env σ) : Validation.Gives (fun r => r.1.written = root.written)
      (Validation.visit env .root {} root) := by
    obtain ⟨head, cs⟩ := root
    obtain ⟨hk, -, hcs⟩ := h
    unfold Validation.visit
    simp only [show head.kind = .root from hk]
    refine Validation.gives_children (Validation.gives_visitAll env cs _ _ hcs)
      fun r info hr => ?_
    rw [written_mk, written_mk, hr]
  unfold validate
  split
  · rfl
  · exact (written_setPage _ _).trans (hvisit _ _)

/-- Validation keeps the invoked tags of a parsed tree. -/
theorem Node.targets_validate {σ : Type}
    (library : Option (Bytes → σ → Except Fault TagLibrary × σ)) (options : ValidationOptions)
    (memory : σ) {root : Node} (h : root.IsUnit) :
    (root.validate library options memory).tree.targets = root.targets :=
  targets_of_written (written_validate library options memory h)

/-- Validation keeps whether the unit is a tag file. -/
theorem Node.isTagFile_validate {σ : Type}
    (library : Option (Bytes → σ → Except Fault TagLibrary × σ)) (options : ValidationOptions)
    (memory : σ) {root : Node} (h : root.kind = .root) :
    (root.validate library options memory).tree.head.unit.any (·.isTagFile) =
      root.head.unit.any (·.isTagFile) := by
  unfold validate
  split
  · rfl
  · obtain ⟨head, cs⟩ := root
    refine (isTagFile_setPage _ _).trans (congrArg (Option.any UnitInfo.isTagFile) ?_)
    exact Validation.visit_unit _ h cs .root {} _

end ServerPages
