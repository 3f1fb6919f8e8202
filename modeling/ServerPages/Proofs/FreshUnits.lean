import Mathlib.Data.List.Pairwise
import ServerPages.Proofs.FreshVisits
import ServerPages.Proofs.LinkedUnits

/-!
# Names in the file of a unit

All names that the file of a unit introduces come from one run, in which every visit makes up names
with numbers of its own. No node is visited twice, so the names that are stored on a tag are the
ones that were noted for it while its code was written.

## Main results

* `unit_mints`: what the generation of a unit makes up.
* `ParseRequest.generate_distinctNames`: the names that the file introduces are different
  identifiers, and a tag stores those that its code goes by.
-/

namespace ServerPages

/-! ### Stored names -/

/-- The variables that the names stored on a node stand for, if there are any. -/
def Node.storedVariables (n : Node) : List Bytes :=
  match n.head.tag with
  | some t => if t.names = {} then [] else Generation.namedVariables t.names
  | none => []

namespace Generation

/-- An entry is found by its key, if no other one has the key. -/
theorem lookup_of_mem {α β : Type} [BEq α] [LawfulBEq α] {l : List (α × β)}
    (hl : (l.map (·.1)).Nodup) {a : α} {b : β} (h : (a, b) ∈ l) : l.lookup a = some b := by
  induction l with
  | nil => exact absurd h List.not_mem_nil
  | cons p l ih =>
    obtain ⟨hp, hrest⟩ := List.nodup_cons.mp hl
    obtain ⟨c, d⟩ := p
    rcases List.mem_cons.mp h with heq | hmem
    · obtain ⟨rfl, rfl⟩ := Prod.mk.inj heq
      exact List.lookup_cons_self
    · have hne : (a == c) = false := by
        rw [beq_eq_false_iff_ne]
        rintro rfl
        exact hp (List.mem_map.mpr ⟨_, hmem, rfl⟩)
      rw [List.lookup_cons, hne]
      exact ih hrest hmem

/-- What is noted at the end of a run that introduced the names: identifiers that were chosen for
different tags, and that stand for different variables. -/
structure Site.Notes (z : Site) (xs : List Bytes) (noted : List (Nat × HandlerNames)) : Prop where
  chosen : ∀ p ∈ noted, z.Chooses xs p
  keys : (noted.map (·.1)).Nodup
  nodup : (noted.flatMap fun p => namedVariables p.2).Nodup
  identifiers : ∀ x ∈ noted.flatMap fun p => namedVariables p.2, isIdentifier x = true

/-- What a tag stores is what was noted for it. -/
theorem tag_annotate {t : State} {h : Head} {u : CustomTag} (hu : h.tag = some u)
    {names : HandlerNames} (hkeys : (t.names.map (·.1)).Nodup)
    (hnames : (h.number, names) ∈ t.names) :
    (annotate t h).tag = some { u with names := names } := by
  simp [annotate, hu, lookup_of_mem hkeys hnames]

/-- A tag stores no identifiers or those noted for it. -/
theorem noted_of_annotate {t : State} {h : Head} {u : CustomTag}
    (hu : (annotate t h).tag = some u) : u.names = {} ∨ (h.number, u.names) ∈ t.names := by
  obtain ⟨v, -, rfl⟩ := Option.map_eq_some_iff.mp hu
  dsimp only
  cases hnames : t.names.lookup h.number with
  | none => exact .inl rfl
  | some names =>
    obtain ⟨l, m, hl, -⟩ := List.lookup_eq_some_iff.mp hnames
    exact .inr (hl ▸ List.mem_append_right _ List.mem_cons_self)

/-- A node stores no variables or those of identifiers noted for it. -/
theorem storedVariables_annotate (t : State) (n : Node) :
    (n.mapHeads (annotate t)).storedVariables = [] ∨ ∃ names, (n.head.number, names) ∈ t.names ∧
      (n.mapHeads (annotate t)).storedVariables = namedVariables names := by
  rw [Node.storedVariables, Node.head_mapHeads]
  cases hu : (annotate t n.head).tag with
  | none => exact .inl rfl
  | some u =>
    dsimp only
    split
    · exact .inl rfl
    · next hne => exact .inr ⟨_, (noted_of_annotate hu).resolve_left hne, rfl⟩

/-- The variables that the tags of a tree store are different ones. -/
theorem nodup_storedVariables {z : Site} (hz : z.IsTidy) {xs : List Bytes} {t : State}
    (ht : z.Notes xs t.names) :
    ((z.root.mapHeads (annotate t)).subtree.flatMap Node.storedVariables).Nodup := by
  obtain ⟨hnodup, hdisjoint⟩ := List.nodup_flatMap.mp ht.nodup
  rw [Node.subtree_mapHeads, List.flatMap_map]
  refine List.nodup_flatMap.mpr ⟨fun n _ => ?_, ?_⟩
  · rcases storedVariables_annotate t n with h | ⟨names, hmem, h⟩ <;> rw [h]
    · exact List.nodup_nil
    · exact hnodup _ hmem
  · have hnumbers : z.root.subtree.Pairwise fun n m => n.head.number ≠ m.head.number :=
      List.pairwise_map.mp hz.nodup
    refine hnumbers.imp fun {n m} hne => ?_
    show (n.mapHeads (annotate t)).storedVariables.Disjoint
      (m.mapHeads (annotate t)).storedVariables
    rcases storedVariables_annotate t n with h | ⟨names, hmem, h⟩ <;> rw [h]
    · exact List.disjoint_nil_left _
    rcases storedVariables_annotate t m with h' | ⟨names', hmem', h'⟩ <;> rw [h']
    · exact List.disjoint_nil_right _
    · have hsymm : Std.Symm (Function.onFun List.Disjoint fun p : Nat × HandlerNames =>
          namedVariables p.2) := ⟨fun _ _ h _ hx hy => h hy hx⟩
      exact hdisjoint.forall hmem hmem' fun he => hne (Prod.mk.inj he).1

/-! ### Units -/

/-- The code is that of the generation of the nodes of a unit, in which the file of the unit ends;
the lines of nodes are in it. -/
structure Code.IsEndOf (z : Site) (code : GeneratedUnit) (c : Code) : Prop where
  generated : ∃ t, body z.env z.root.height z.root.children (startBody z.env) = .ok () t ∧
    t.desk = c.replay (startBody z.env).desk
  source : ∃ front, code.source = front ++ endText z.env (c.layout 1 .out).text
    (c.layout 1 .methods).text (c.layout 1 .fragments).text
  own : c.All (z.IsOwn 0)
  nodes : ∀ n ∈ code.tree.subtree, n.head.lines.first ≠ 0 → n.head.number ∈ c.nodes

/-- If the part is that of a tag, it has the lines of an invocation that goes by the names stored on
the tag. These have the prefix, the name of the tag and a number in them, and what the invocation
introduces is among the names `xs`. -/
def Site.Stores (z : Site) (code : GeneratedUnit) (xs : List Bytes) (k : Nat) (c : Code) : Prop :=
  ∀ n ∈ code.tree.subtree, n.kind = .customTag → n.head.number = k →
    ∃ t d, n.head.tag = some t ∧ t.descriptor = some d ∧ (∃ id, IsNamed t t.names id) ∧
      ∃ m e i, m ∈ z.root.subtree ∧ m.head.number = k ∧ invocationVariables d m t.names ⊆ xs ∧
        Invokes z.env m t.names e ∧ Code.SameLines i c e

/-- **What the generation of a unit makes up.** -/
theorem unit_mints {z : Site} (hz : z.IsTidy) (hvisits : ∀ n ∈ z.root.children, z.Visits 0 n)
    {t : State} (hrun : unit z.env z.root.height z.root.children (start z.env) = .ok () t) :
    ∃ (s : State) (c : Code),
      body z.env z.root.height z.root.children (startBody z.env) = .ok () s ∧
      Minted z { weight := weight z.root.children } (startBody z.env) s c ∧
      z.Notes (c.introduced z.env) t.names ∧ t.names = s.names ∧
      (∃ front, t.place.out.text = front ++ endText z.env (c.layout 1 .out).text
        (c.layout 1 .methods).text (c.layout 1 .fragments).text) ∧
      ∀ k, t.HasLines k → k ∈ c.nodes := by
  obtain ⟨s, hbody, hends⟩ := unit_body hrun
  obtain ⟨c, hc⟩ := mints_body hz z.root.height ⟨0, []⟩ z.root.children hvisits (startBody z.env)
    () s ⟨Nat.zero_le _, List.nil_subset _, rfl⟩ hbody
  obtain ⟨hsource, -, hnames, hlines⟩ := hends c hc.desk
  refine ⟨s, c, hbody, hc, ?_, hnames, hsource, hlines⟩
  obtain ⟨l, hl, hchosen, hfresh, hcount⟩ := hc.noted
  have hnil : (startBody z.env).names = [] := rfl
  rw [hnil, List.append_nil] at hl
  rw [hnames, hl]
  refine ⟨hchosen, List.nodup_iff_count_le_one.mpr fun k => ?_, hfresh.nodup, fun x hx => ?_⟩
  · by_cases hk : k = 0
    · -- No node has the number 0.
      have hno : k ∉ l.map (·.1) := by
        intro hmem
        obtain ⟨p, hp, rfl⟩ := List.mem_map.mp hmem
        obtain ⟨n, hn, -, hnumber, -⟩ := hchosen p hp
        exact hz.number n hn (hnumber.trans hk)
      rw [List.count_eq_zero_of_not_mem hno]
      exact Nat.zero_le _
    · exact Nat.le_trans (hcount k hk) (Nat.le_trans (weight_children_le z.root k)
        (List.nodup_iff_count_le_one.mp hz.nodup k))
  · obtain ⟨i, -, -, hx⟩ := hfresh.numbered x hx
    exact hx.isIdentifier

/-- What is noted for a tag is stored on it. -/
theorem Site.GoesBy.stores {z : Site} {t : State} {k : Nat} {c : Code} (h : z.GoesBy t.names k c)
    (hz : z.IsTidy) {xs : List Bytes} (ht : z.Notes xs t.names) {code : GeneratedUnit}
    (htree : code.tree = z.root.mapHeads (annotate t)) : z.Stores code xs k c := by
  intro n hn hk hnumber
  rw [htree, Node.subtree_mapHeads] at hn
  obtain ⟨m, hm, rfl⟩ := List.mem_map.mp hn
  rw [Node.kind, Node.head_mapHeads] at hk
  rw [Node.head_mapHeads] at hnumber ⊢
  obtain ⟨names, e, i, hmem, hinvokes, hlines⟩ := h m hm hk hnumber
  obtain ⟨m', hm', -, hnumber', u, d, id, hu, hd, hnamed, -, hvariables⟩ := ht.chosen _ hmem
  obtain rfl : m' = m := List.inj_on_of_nodup_map hz.nodup hm' hm (hnumber'.trans hnumber.symm)
  have hnoted : (m'.head.number, names) ∈ t.names := hnumber'.symm ▸ hmem
  exact ⟨_, d, tag_annotate hu ht.keys hnoted, hd, ⟨id, hnamed.handler, hnamed.eval, hnamed.push⟩,
    m', e, i, hm, hnumber', hvariables, hinvokes, hlines⟩

/-- **What the file of a unit introduces.** -/
theorem generate_mints {root : Node} {options : Options} {code : GeneratedUnit}
    (htidy : ∀ env : Env, Site.IsTidy ⟨env, (root.numbered 1).1⟩)
    (hvisits : ∀ env : Env, ∀ n ∈ (root.numbered 1).1.children,
      Site.Visits ⟨env, (root.numbered 1).1⟩ 0 n)
    (hgen : root.generate options = .ok code) :
    ∃ (z : Site) (c : Code) (t : State), z.IsOf options root ∧ z.IsTidy ∧ c.IsEndOf z code ∧
      (∃ hi, Fresh 0 hi (c.introduced z.env)) ∧ c.Parts (z.Stores code (c.introduced z.env)) ∧
      z.Notes (c.introduced z.env) t.names ∧ code.tree = z.root.mapHeads (annotate t) := by
  obtain ⟨z, t, hz, hrun, hsource, -, htree⟩ := generate_ok hgen
  have hsite : z = ⟨z.env, (root.numbered 1).1⟩ := by rw [← hz.root]
  have htidy : z.IsTidy := hsite ▸ htidy z.env
  have hvisits : ∀ n ∈ z.root.children, z.Visits 0 n := by
    rw [hsite]
    exact hvisits z.env
  obtain ⟨s, c, hbody, hc, hnotes, hnames, hend, hlines⟩ := unit_mints htidy hvisits hrun
  refine ⟨z, c, t, hz, htidy, ⟨⟨s, hbody, hc.desk⟩, hsource ▸ hend, hc.own, ?_⟩, ?_, ?_, hnotes,
    htree⟩
  · intro n hn hfirst
    rw [htree, Node.subtree_mapHeads] at hn
    obtain ⟨m, hm, rfl⟩ := List.mem_map.mp hn
    rw [Node.head_mapHeads] at hfirst ⊢
    exact hlines _ hfirst
  · obtain ⟨xs, hxs, hfresh⟩ := hc.introduced
    exact ⟨s.sequence, hfresh.perm hxs.symm⟩
  · refine hc.parts.mono fun k b hb => ?_
    rw [← hnames] at hb
    exact hb.stores htidy hnotes htree

end Generation

open Generation

/-! ### Validated units -/

section Validated

variable {σ τ : Type} {r : ParseRequest} {host : Host σ} {memory : σ} {root : Node}

/-- **Names of generated code never alias.** If a parsed and validated unit is generated, then its
file ends in the code that was written for its nodes. The names that this code introduces, which are
the variables of invocations, the temporaries and the methods, are pairwise different, and each is
an identifier, however the prefix and the name of a tag are spelled. So are the variables that the
names stored on the tags stand for. A tag with lines in the file has a part in the code, which has
the lines of an invocation that goes by the names stored on the tag. -/
theorem ParseRequest.generate_distinctNames (hparse : (r.parse host memory).1 = .ok root)
    (library : Option (Bytes → τ → Except Fault TagLibrary × τ)) (options : ValidationOptions)
    (s : τ) (hvalid : (root.validate library options s).failure = none) {generation : Options}
    {code : GeneratedUnit}
    (hgen : (root.validate library options s).tree.generate generation = .ok code) :
    ∃ (z : Site) (c : Code), z.IsOf generation (root.validate library options s).tree ∧
      c.IsEndOf z code ∧ (c.introduced z.env).Nodup ∧
      (∀ x ∈ c.introduced z.env, isIdentifier x = true) ∧
      (code.tree.subtree.flatMap Node.storedVariables).Nodup ∧
      (∀ x ∈ code.tree.subtree.flatMap Node.storedVariables, isIdentifier x = true) ∧
      c.Parts (z.Stores code (c.introduced z.env)) := by
  have hroot := parse_isUnit hparse
  obtain ⟨z, c, t, hz, htidy, hc, ⟨hi, hfresh⟩, hparts, hnotes, htree⟩ :=
    generate_mints (r.isTidy_of_validate hparse library options s hvalid)
      (visits_validated hroot hvalid) hgen
  refine ⟨z, c, hz, hc, hfresh.nodup, fun x hx => ?_, ?_, fun x hx => ?_, hparts⟩
  · obtain ⟨i, -, -, hx⟩ := hfresh.numbered x hx
    exact hx.isIdentifier
  · rw [htree]
    exact nodup_storedVariables htidy hnotes
  · rw [htree, Node.subtree_mapHeads, List.flatMap_map] at hx
    obtain ⟨n, -, hx⟩ := List.mem_flatMap.mp hx
    rcases storedVariables_annotate t n with h | ⟨names, hmem, h⟩ <;> rw [h] at hx
    · exact absurd hx List.not_mem_nil
    · exact hnotes.identifiers x (List.mem_flatMap.mpr ⟨_, hmem, hx⟩)

theorem ParseRequest.generate_distinctNames_nestedPage : ∃ root code,
    (nestedPage.parse nestedHost ()).1 = .ok root ∧
    (root.validate (σ := Unit) none {} ()).failure = none ∧
    (root.validate (σ := Unit) none {} ()).tree.generate {} = .ok code ∧
    ∃ (z : Site) (c : Code), c.IsEndOf z code ∧ (c.introduced z.env).Nodup ∧ 8 ∈ c.nodes ∧
      c.Parts (z.Stores code (c.introduced z.env)) := by
  obtain ⟨root, code, hparse, hvalid, hgen, -, ⟨n, hn, -, hfirst, hnumber⟩, -⟩ :=
    nestedPage_generated
  obtain ⟨z, c, -, hc, hnodup, -, -, -, hparts⟩ :=
    ParseRequest.generate_distinctNames hparse none {} () hvalid hgen
  exact ⟨root, code, hparse, hvalid, hgen, z, c, hc, hnodup, hnumber ▸ hc.nodes n hn hfirst, hparts⟩

end Validated

end ServerPages
