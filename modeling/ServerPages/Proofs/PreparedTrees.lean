import Mathlib.Algebra.GroupWithZero.Nat
import Mathlib.Data.List.Nodup
import ServerPages.Generation.Unit
import ServerPages.Proofs.TreeShapes
import ServerPages.Proofs.ValidationReports
import ServerPages.Proofs.ValidationSteps

/-!
# Trees as generation gets them

Before code is generated a unit is validated, which binds the attributes of its tags and notes how
deep they are nested, and its nodes are numbered. So every node of the tree has a number of its own,
every tag knows how many tags are around it, and every attribute of a tag that is given as content
has a named attribute among the children, to which no other attribute of the tag refers.

## Main results

* `Node.numbers_numbered`: the nodes are numbered one after the other.
* `Node.validate_isPrepared`: the tree of a validated unit is as generation needs it.
-/

namespace ServerPages

/-! ### Nodes of a tree -/

namespace Node

mutual

/-- A node and everything below it. -/
def subtree : Node → List Node
  | mk h cs => mk h cs :: subtreeAll cs

/-- Some nodes and everything below them. -/
def subtreeAll : List Node → List Node
  | [] => []
  | c :: cs => subtree c ++ subtreeAll cs

end

/-- The numbers of a node and of everything below it. -/
def numbers (n : Node) : List Nat := n.subtree.map (·.head.number)

/-- The numbers of some nodes and of everything below them. -/
def numbersAll (ns : List Node) : List Nat := (subtreeAll ns).map (·.head.number)

theorem subtreeAll_eq_flatMap (ns : List Node) : subtreeAll ns = ns.flatMap subtree := by
  induction ns with
  | nil => rfl
  | cons n ns ih => rw [subtreeAll, ih, List.flatMap_cons]

theorem subtree_eq (n : Node) : n.subtree = n :: subtreeAll n.children := by
  cases n
  rfl

theorem mem_subtree_self (n : Node) : n ∈ n.subtree := subtree_eq n ▸ List.mem_cons_self

theorem mem_subtreeAll {m : Node} {ns : List Node} :
    m ∈ subtreeAll ns ↔ ∃ n ∈ ns, m ∈ n.subtree := by
  rw [subtreeAll_eq_flatMap, List.mem_flatMap]

theorem forall_mem_subtreeAll {P : Node → Prop} {ns : List Node}
    (h : ∀ n ∈ ns, ∀ m ∈ n.subtree, P m) : ∀ m ∈ subtreeAll ns, P m := by
  intro m hm
  obtain ⟨n, hn, hm⟩ := mem_subtreeAll.mp hm
  exact h n hn m hm

theorem forall_mem_subtree {P : Node → Prop} {n : Node} (hn : P n)
    (hchildren : ∀ c ∈ n.children, ∀ m ∈ c.subtree, P m) : ∀ m ∈ n.subtree, P m := by
  rw [subtree_eq]
  exact List.forall_mem_cons.mpr ⟨hn, forall_mem_subtreeAll hchildren⟩

theorem mem_subtree_of_child {n c m : Node} (hc : c ∈ n.children) (hm : m ∈ c.subtree) :
    m ∈ n.subtree := by
  rw [subtree_eq]
  exact List.mem_cons_of_mem n (mem_subtreeAll.mpr ⟨c, hc, hm⟩)

mutual

theorem mem_subtree_trans {n m l : Node} (hm : m ∈ n.subtree) (hl : l ∈ m.subtree) :
    l ∈ n.subtree := by
  cases n with
  | mk h cs =>
    rcases List.mem_cons.mp hm with rfl | hm
    · exact hl
    · exact List.mem_cons_of_mem _ (mem_subtreeAll_trans hm hl)

theorem mem_subtreeAll_trans {ns : List Node} {m l : Node} (hm : m ∈ subtreeAll ns)
    (hl : l ∈ m.subtree) : l ∈ subtreeAll ns := by
  cases ns with
  | nil => exact absurd hm List.not_mem_nil
  | cons c cs =>
    rcases List.mem_append.mp hm with hm | hm
    · exact List.mem_append_left _ (mem_subtree_trans hm hl)
    · exact List.mem_append_right _ (mem_subtreeAll_trans hm hl)

end

theorem numbers_eq (n : Node) : n.numbers = n.head.number :: numbersAll n.children := by
  rw [numbers, subtree_eq, List.map_cons, numbersAll]

@[simp] theorem numbersAll_nil : numbersAll [] = [] := rfl

theorem numbersAll_cons (n : Node) (ns : List Node) :
    numbersAll (n :: ns) = n.numbers ++ numbersAll ns := by
  rw [numbersAll, subtreeAll, List.map_append, numbers, numbersAll]

/-- How often a number is found in some trees is the sum of how often it is in each of them. -/
theorem count_numbersAll (k : Nat) (ns : List Node) :
    (numbersAll ns).count k = (ns.map fun n => n.numbers.count k).sum := by
  induction ns with
  | nil => rfl
  | cons n ns ih => rw [numbersAll_cons, List.count_append, ih, List.map_cons, List.sum_cons]

/-! ### Numbering -/

mutual

theorem numbers_numbered (i : Nat) (n : Node) :
    (n.numbered i).1.numbers = List.range' i n.subtree.length ∧
      (n.numbered i).2 = i + n.subtree.length := by
  cases n with
  | mk h cs =>
    obtain ⟨hnumbers, hnext⟩ := numbersAll_numberedAll (i + 1) cs
    rw [numbered, numbers_eq, subtree, List.length_cons, List.range'_succ]
    refine ⟨?_, ?_⟩
    · simp only [head, children, hnumbers]
    · simp only [hnext]
      omega

theorem numbersAll_numberedAll (i : Nat) (ns : List Node) :
    numbersAll (numberedAll i ns).1 = List.range' i (subtreeAll ns).length ∧
      (numberedAll i ns).2 = i + (subtreeAll ns).length := by
  cases ns with
  | nil => exact ⟨rfl, rfl⟩
  | cons c cs =>
    obtain ⟨hc, hnext⟩ := numbers_numbered i c
    obtain ⟨hcs, hlast⟩ := numbersAll_numberedAll (c.numbered i).2 cs
    rw [hnext] at hcs hlast
    refine ⟨?_, ?_⟩
    · rw [numberedAll, numbersAll_cons, hc, hnext, hcs, subtreeAll, List.length_append,
        List.range'_append_1]
    · have hsnd : (numberedAll i (c :: cs)).2 = (numberedAll (c.numbered i).2 cs).2 := rfl
      rw [hsnd, hnext, hlast, subtreeAll, List.length_append]
      omega

end

/-- Every node of a numbered tree has a number of its own. -/
theorem count_numbers_numbered (n : Node) (k : Nat) : (n.numbered 1).1.numbers.count k ≤ 1 := by
  rw [(numbers_numbered 1 n).1]
  exact List.nodup_iff_count_le_one.mp List.nodup_range' k

theorem number_pos {n m : Node} (hm : m ∈ (n.numbered 1).1.subtree) : m.head.number ≠ 0 := by
  have hmem : m.head.number ∈ (n.numbered 1).1.numbers := List.mem_map_of_mem hm
  rw [(numbers_numbered 1 n).1, List.mem_range'_1] at hmem
  omega

mutual

/-- The nodes of a numbered tree are the nodes of the tree, numbered. -/
theorem mem_subtree_numbered (i : Nat) (n : Node) : ∀ m ∈ (n.numbered i).1.subtree,
    ∃ l ∈ n.subtree, ∃ j, m = (l.numbered j).1 := by
  cases n with
  | mk h cs =>
    intro m hm
    rcases List.mem_cons.mp hm with rfl | hm
    · exact ⟨.mk h cs, List.mem_cons_self, i, rfl⟩
    · obtain ⟨l, hl, hsame⟩ := mem_subtreeAll_numbered (i + 1) cs m hm
      exact ⟨l, List.mem_cons_of_mem _ hl, hsame⟩

theorem mem_subtreeAll_numbered (i : Nat) (ns : List Node) :
    ∀ m ∈ subtreeAll (numberedAll i ns).1, ∃ l ∈ subtreeAll ns, ∃ j, m = (l.numbered j).1 := by
  cases ns with
  | nil => exact fun m hm => absurd hm List.not_mem_nil
  | cons c cs =>
    intro m hm
    rcases List.mem_append.mp hm with hm | hm
    · obtain ⟨l, hl, hsame⟩ := mem_subtree_numbered i c m hm
      exact ⟨l, List.mem_append_left _ hl, hsame⟩
    · obtain ⟨l, hl, hsame⟩ := mem_subtreeAll_numbered (c.numbered i).2 cs m hm
      exact ⟨l, List.mem_append_right _ hl, hsame⟩

end

/-- Numbering changes nothing but the numbers. -/
theorem head_numbered (i : Nat) (n : Node) : ∀ m ∈ (n.numbered i).1.subtree, ∃ l ∈ n.subtree,
    m.head = { l.head with number := m.head.number } := by
  intro m hm
  obtain ⟨⟨h, cs⟩, hl, j, rfl⟩ := mem_subtree_numbered i n m hm
  exact ⟨.mk h cs, hl, rfl⟩

end Node

/-! ### Levels and named attributes -/

/-- The attributes of a node that are given as content are given by named attributes among its
children, each by one of its own. -/
structure Head.NamesOnce (h : Head) (cs : List Node) : Prop where
  given : ∀ a ∈ h.attributes, a.kind = .named →
    ∃ i, a.child = some i ∧ (cs.map (·.kind))[i]? = some .namedAttribute
  once : (h.attributes.filter (·.kind == .named)).Pairwise fun a b => a.child ≠ b.child

/-- How many tags are around the children of a node that has so many around itself. -/
def Head.innerLevel (h : Head) (level : Nat) : Nat :=
  if h.kind = .customTag then level + 1 else level

/-- A node with so many tags around it, as generation needs it. -/
inductive Node.IsPrepared : Nat → Node → Prop where
  | mk {level : Nat} {h : Head} {cs : List Node} (names : h.NamesOnce cs)
    (nesting : h.kind = .customTag → ∀ t, h.tag = some t → t.nesting = level)
    (children : ∀ c ∈ cs, Node.IsPrepared (h.innerLevel level) c) : Node.IsPrepared level (.mk h cs)

namespace Node

mutual

theorem kind_numbered (i : Nat) (n : Node) : (n.numbered i).1.kind = n.kind := by
  cases n
  rfl

theorem kinds_numberedAll (i : Nat) (ns : List Node) :
    (numberedAll i ns).1.map (·.kind) = ns.map (·.kind) := by
  cases ns with
  | nil => rfl
  | cons c cs =>
    have hfst : (numberedAll i (c :: cs)).1 =
        (c.numbered i).1 :: (numberedAll (c.numbered i).2 cs).1 := rfl
    rw [hfst, List.map_cons, List.map_cons, kind_numbered, kinds_numberedAll]

end

mutual

/-- Numbering the nodes leaves a tree as generation needs it. -/
theorem IsPrepared.numbered {level : Nat} {n : Node} (h : n.IsPrepared level) (i : Nat) :
    (n.numbered i).1.IsPrepared level := by
  cases h with
  | mk names nesting children =>
    rename_i hd cs
    refine ⟨⟨?_, names.once⟩, nesting, ?_⟩
    · rw [kinds_numberedAll]
      exact names.given
    · exact IsPrepared.numberedAll children (i + 1)

theorem IsPrepared.numberedAll {level : Nat} {ns : List Node}
    (h : ∀ n ∈ ns, n.IsPrepared level) (i : Nat) :
    ∀ n ∈ (Node.numberedAll i ns).1, n.IsPrepared level := by
  cases ns with
  | nil => exact h
  | cons c cs =>
    intro n hn
    rcases List.mem_cons.mp hn with rfl | hn
    · exact (h c List.mem_cons_self).numbered i
    · exact IsPrepared.numberedAll (fun m hm => h m (List.mem_cons_of_mem c hm)) _ n hn

end

end Node

namespace Validation

variable {σ : Type}

theorem gives_checkAttribute (env : Env σ) (d : TagDescriptor) (h : Head) (cs : List Node)
    (data : TagData) (a : Attribute) :
    Gives (fun c => IsBoundTo a c.bound) (checkAttribute env d h cs data a) := by
  unfold checkAttribute
  dsimp only
  split
  · exact .skip fun _ => .pure ⟨rfl, rfl, rfl, rfl⟩
  split
  · exact .skip fun _ => .pure ⟨rfl, rfl, rfl, rfl⟩
  split
  · exact .skip fun _ => .pure ⟨rfl, rfl, rfl, rfl⟩
  split
  · exact .skip fun _ => .pure ⟨rfl, rfl, rfl, rfl⟩
  · exact .pure ⟨rfl, rfl, rfl, rfl⟩

theorem gives_checkInlineAttributes (env : Env σ) (d : TagDescriptor) (h : Head) (cs : List Node)
    (data : TagData) (as : List Attribute) (has : ∀ a ∈ as, a.kind ≠ .named) :
    Gives (fun r => ∀ a ∈ r.1, a.kind ≠ .named) (checkInlineAttributes env d h cs data as) := by
  induction as generalizing data with
  | nil => exact .pure fun a ha => absurd ha List.not_mem_nil
  | cons a as ih =>
    have ha := has a List.mem_cons_self
    unfold checkInlineAttributes
    rw [if_neg (by simpa using ha)]
    refine (gives_checkAttribute env d h cs data a).bind fun c hc => ?_
    refine (ih c.data fun b hb => has b (List.mem_cons_of_mem a hb)).bind fun r hr => .pure ?_
    intro b hb
    rcases List.mem_cons.mp hb with rfl | hb
    · exact hc.kind ▸ ha
    · exact hr b hb

/-- The attributes given as content are given by the named attributes of those kinds before the one
with the number `i`, each by one of its own. -/
structure NamedUpTo (kinds : List Kind) (i : Nat) (as : List Attribute) : Prop where
  given : ∀ a ∈ as, a.kind = .named →
    ∃ j, j < i ∧ a.child = some j ∧ kinds[j]? = some .namedAttribute
  once : (as.filter (·.kind == .named)).Pairwise fun a b => a.child ≠ b.child

theorem NamedUpTo.namedBefore {kinds : List Kind} {i : Nat} {as : List Attribute}
    (h : NamedUpTo kinds i as) : NamedBefore i as := by
  intro a ha hk
  obtain ⟨j, hj, hc, -⟩ := h.given a ha hk
  exact ⟨j, hj, hc⟩

theorem NamedUpTo.succ {kinds : List Kind} {i : Nat} {as : List Attribute}
    (h : NamedUpTo kinds i as) : NamedUpTo kinds (i + 1) as := by
  refine ⟨?_, h.once⟩
  intro a ha hk
  obtain ⟨j, hj, hc⟩ := h.given a ha hk
  exact ⟨j, Nat.lt_succ_of_lt hj, hc⟩

theorem NamedUpTo.append {kinds : List Kind} {i : Nat} {as : List Attribute} {a : Attribute}
    (h : NamedUpTo kinds i as) (hchild : a.child = some i)
    (hi : kinds[i]? = some .namedAttribute) : NamedUpTo kinds (i + 1) (as ++ [a]) := by
  refine ⟨?_, ?_⟩
  · intro b hb hk
    rcases List.mem_append.mp hb with hb | hb
    · exact h.succ.given b hb hk
    · obtain rfl := List.mem_singleton.mp hb
      exact ⟨i, Nat.lt_succ_self i, hchild, hi⟩
  · rw [List.filter_append, List.pairwise_append]
    refine ⟨h.once, ?_, ?_⟩
    · exact List.Pairwise.filter _ (List.pairwise_singleton _ _)
    · intro b hb c hc
      obtain ⟨hb, hk⟩ := List.mem_filter.mp hb
      obtain rfl := List.mem_singleton.mp (List.mem_filter.mp hc).1
      obtain ⟨j, hj, hbj, -⟩ := h.given b hb (eq_of_beq hk)
      rw [hbj, hchild]
      intro he
      have := Option.some.inj he
      omega

theorem gives_checkNamedAttribute (env : Env σ) (d : TagDescriptor) (h : Head) (cs : List Node)
    (data : TagData) {kinds : List Kind} {i : Nat} (n : Head)
    (hi : NamedUpTo kinds i h.attributes) (hkind : kinds[i]? = some .namedAttribute) :
    Gives (fun r => r.1.kind = h.kind ∧ NamedUpTo kinds (i + 1) r.1.attributes)
      (checkNamedAttribute env d h cs data i n) := by
  unfold checkNamedAttribute
  dsimp only
  split
  next a ha =>
    rw [if_neg (hi.namedBefore.not_same ha)]
    exact .skip fun _ => .pure ⟨rfl, hi.succ⟩
  · refine (gives_checkAttribute _ _ _ _ _ _).bind fun c hc => .pure ?_
    dsimp only
    split
    · exact ⟨rfl, hi.append hc.child hkind⟩
    · exact ⟨rfl, hi.succ⟩

theorem gives_checkNamedAttributes (env : Env σ) (d : TagDescriptor) (cs : List Node) (h : Head)
    (data : TagData) (before ns : List Node)
    (hi : NamedUpTo ((before ++ ns).map (·.kind)) before.length h.attributes) :
    Gives (fun r => r.1.kind = h.kind ∧
        NamedUpTo ((before ++ ns).map (·.kind)) (before.length + ns.length) r.1.attributes)
      (checkNamedAttributes env d cs h data before.length ns) := by
  induction ns generalizing h data before with
  | nil => exact .pure ⟨rfl, hi⟩
  | cons n ns ih =>
    have hsplit : before ++ n :: ns = (before ++ [n]) ++ ns := by simp
    have hlength : (before ++ [n]).length = before.length + 1 := by simp
    have hcount : before.length + (n :: ns).length = (before ++ [n]).length + ns.length := by
      simp only [List.length_cons, List.length_append, List.length_nil]
      omega
    unfold checkNamedAttributes
    rw [hcount, ← hlength]
    split
    · next hn =>
      have hkind : ((before ++ n :: ns).map (·.kind))[before.length]? = some .namedAttribute := by
        obtain ⟨hk, -⟩ := Bool.and_eq_true_iff.mp hn
        simp [eq_of_beq hk]
      refine (gives_checkNamedAttribute env d h cs data n.head hi hkind).bind fun r hr => ?_
      have hnext := hr.2
      rw [hsplit, ← hlength] at hnext
      refine (ih r.1 r.2 (before ++ [n]) hnext).mono fun r' hr' => ?_
      exact ⟨hr'.1.trans hr.1, hsplit ▸ hr'.2⟩
    · have hnext := hi.succ
      rw [hsplit, ← hlength] at hnext
      exact (ih h data (before ++ [n]) hnext).mono fun r' hr' => ⟨hr'.1, hsplit ▸ hr'.2⟩

theorem prepares_checkTag (env : Env σ) (t : CustomTag) (d : TagDescriptor) (nesting : Nat)
    (h : Head) (cs : List Node) (hh : ∀ a ∈ h.attributes, a.kind ≠ .named) :
    Gives (fun h' => h'.kind = h.kind ∧ NamedUpTo (cs.map (·.kind)) cs.length h'.attributes ∧
      ∀ t', h'.tag = some t' → t'.nesting = nesting) (checkTag env t d nesting h cs) := by
  refine (gives_checkInlineAttributes env d h cs {} h.attributes hh).bind fun r hr => ?_
  have hstart : NamedUpTo ((([] : List Node) ++ cs).map (·.kind)) ([] : List Node).length r.1 := by
    refine ⟨fun a ha hk => absurd hk (hr a ha), ?_⟩
    have hnone : r.1.filter (·.kind == .named) = [] := by
      rw [List.filter_eq_nil_iff]
      intro a ha
      simpa using hr a ha
    rw [hnone]
    exact List.Pairwise.nil
  refine (gives_checkNamedAttributes env d cs { h with attributes := r.1 } r.2 [] cs
    hstart).bind fun r' hr' => ?_
  rw [List.nil_append, List.length_nil, Nat.zero_add] at hr'
  have hend : ∀ vars, Gives (fun h' => h'.kind = h.kind ∧
      NamedUpTo (cs.map (·.kind)) cs.length h'.attributes ∧
      ∀ t', h'.tag = some t' → t'.nesting = nesting)
      (pure { r'.1 with tag := some { t with nesting := nesting, data := r'.2, vars := vars } } :
        Validate σ Head) := by
    intro vars
    refine .pure ⟨hr'.1, hr'.2, ?_⟩
    rintro t' ht
    obtain rfl := Option.some.inj ht
    rfl
  refine .skip fun _ => ?_
  dsimp only
  split
  · refine .skip fun _ => ?_
    split
    · exact .skip fun _ => .skip fun vars => .skip fun _ => hend vars
    · exact .skip fun vars => .skip fun _ => hend vars
  · split
    · exact .skip fun _ => .skip fun vars => .skip fun _ => hend vars
    · exact .skip fun vars => .skip fun _ => hend vars

theorem namesOnce_of_not_named {h : Head} (cs : List Node)
    (hh : ∀ a ∈ h.attributes, a.kind ≠ .named) : h.NamesOnce cs := by
  have hnone : h.attributes.filter (·.kind == .named) = [] := by
    rw [List.filter_eq_nil_iff]
    intro a ha
    simpa using hh a ha
  refine ⟨fun a ha hk => absurd hk (hh a ha), ?_⟩
  rw [hnone]
  exact List.Pairwise.nil

mutual

theorem prepares_visit (env : Env σ) (n : Node) (hn : n.IsParsed) (parent : Kind) (scope : Scope) :
    Gives (fun r => r.1.kind = n.kind ∧ r.1.IsPrepared scope.nesting)
      (visit env parent scope n) := by
  match n, hn with
  | .mk h cs, .mk head leaf children =>
    -- Whatever is noted of a node that invokes no tag, its attributes stay as they are.
    have hplain : h.kind ≠ .customTag → ∀ (h' : Head) {cs' : List Node}, h'.kind = h.kind →
        h'.attributes = h.attributes → (∀ c ∈ cs', c.IsPrepared scope.nesting) →
        (Node.mk h' cs').kind = h.kind ∧ (Node.mk h' cs').IsPrepared scope.nesting := by
      intro hk h' cs' hkind hattrs hcs
      have hlevel : h'.innerLevel scope.nesting = scope.nesting := if_neg (hkind ▸ hk)
      refine ⟨hkind, ⟨namesOnce_of_not_named cs' (hattrs ▸ head.not_named), ?_, ?_⟩⟩
      · exact fun hc => absurd (hkind ▸ hc) hk
      · intro c hc
        rw [hlevel]
        exact hcs c hc
    have hleaf : h.kind.isLeaf = true → ∀ c ∈ cs, c.IsPrepared scope.nesting := by
      intro hl c hc
      exact absurd ((leaf hl).1 ▸ hc) List.not_mem_nil
    have hchildren := prepares_visitAll env cs children h.kind (fun _ => scope) scope.nesting
      fun _ => rfl
    unfold visit
    split
    iterate 3
      next hk =>
        have hleaf := hplain (by rw [hk]; decide) h rfl rfl (hleaf (by rw [hk]; rfl))
        dsimp only
        split
        · exact .skip fun _ => .pure hleaf
        · exact .pure hleaf
    · next hk =>
      have hleaf := hplain (by rw [hk]; decide) { h with info := emptyInfo } rfl rfl
        (hleaf (by rw [hk]; rfl))
      exact .skip fun _ => .pure hleaf
    iterate 3
      next hk =>
        refine hchildren.bind fun r hr => .skip fun i => .pure ?_
        exact hplain (by rw [hk]; decide) { h with info := ChildInfo.merge r.2 i } rfl rfl hr.2
    · next hk =>
      refine (prepares_checkTag env _ _ scope.nesting h cs head.not_named).bind fun h' hh => ?_
      obtain ⟨hkind, hnamed, hnesting⟩ := hh
      have hinner : h'.innerLevel scope.nesting = scope.nesting + 1 := if_pos (hkind.trans hk)
      have htag := fun d => prepares_visitAll env cs children h'.kind (childScope d scope)
        (scope.nesting + 1) fun _ => rfl
      refine (htag _).bind fun r hr => .skip fun _ => .pure ⟨hkind, ⟨⟨?_, hnamed.once⟩, ?_, ?_⟩⟩
      · intro a ha hna
        obtain ⟨i, -, hi⟩ := hnamed.given a ha hna
        exact ⟨i, hr.1 ▸ hi⟩
      · exact fun _ => hnesting
      · intro c hc
        exact hinner ▸ hr.2 c hc
    · next hk =>
      split
      · refine .skip fun _ => hchildren.bind fun r hr => .skip fun i => .pure ?_
        exact hplain hk { h with info := ChildInfo.merge r.2 i } rfl rfl hr.2
      · refine .skip fun _ => hchildren.bind fun r hr => .skip fun i => .pure ?_
        exact hplain hk { h with info := actionInfo h.kind (ChildInfo.merge r.2 i) } rfl rfl hr.2

theorem prepares_visitAll (env : Env σ) (ns : List Node) (hns : ∀ n ∈ ns, n.IsParsed)
    (parent : Kind) (scopeOf : Head → Scope) (level : Nat)
    (hlevel : ∀ h, (scopeOf h).nesting = level) :
    Gives (fun r => r.1.map (·.kind) = ns.map (·.kind) ∧ ∀ n ∈ r.1, n.IsPrepared level)
      (visitAll env parent scopeOf ns) := by
  match ns with
  | [] => exact .pure ⟨rfl, fun n hn => absurd hn List.not_mem_nil⟩
  | .mk h ds :: cs =>
    unfold visitAll
    have hhead := prepares_visit env (.mk h ds) (hns _ List.mem_cons_self) parent (scopeOf h)
    refine hhead.bind fun r hr => ?_
    have htail := prepares_visitAll env cs (fun n hn => hns n (List.mem_cons_of_mem _ hn)) parent
      scopeOf level hlevel
    refine htail.bind fun r' hr' => .pure ?_
    refine ⟨?_, ?_⟩
    · rw [List.map_cons, List.map_cons, hr.1, hr'.1]
    · intro n hn
      rcases List.mem_cons.mp hn with rfl | hn
      · exact hlevel h ▸ hr.2
      · exact hr'.2 n hn

end

end Validation

namespace Node

theorem IsPrepared.setPage {level : Nat} {n : Node} (h : n.IsPrepared level) (page : PageInfo) :
    (n.setPage page).IsPrepared level := by
  obtain ⟨names, nesting, children⟩ := h
  exact ⟨⟨names.given, names.once⟩, nesting, children⟩

theorem kind_setPage (n : Node) (page : PageInfo) : (n.setPage page).kind = n.kind := by
  cases n
  rfl

/-- The tree of a validated unit is as generation needs it. -/
theorem validate_isPrepared {σ : Type} (library : Option (Bytes → σ → Except Fault TagLibrary × σ))
    (options : ValidationOptions) (memory : σ) {root : Node} (hroot : root.IsUnit)
    (hvalid : (root.validate library options memory).failure = none) :
    (root.validate library options memory).tree.IsPrepared 0 ∧
      (root.validate library options memory).tree.kind = .root := by
  obtain ⟨h, cs⟩ := root
  obtain ⟨hkind, hattrs, hchildren⟩ := hroot
  unfold validate at hvalid ⊢
  split
  · next f hf =>
    rw [hf] at hvalid
    cases hvalid
  · next problems _ =>
    have hvisit : ∀ env : Validation.Env σ, Validation.Gives
        (fun r => r.1.IsPrepared 0 ∧ r.1.kind = .root)
        (Validation.visit env .root {} (.mk h cs)) := by
      intro env
      have hkind : h.kind = .root := hkind
      unfold Validation.visit
      simp only [hkind]
      refine (Validation.prepares_visitAll env cs hchildren .root (fun _ => {}) 0
        fun _ => rfl).bind fun r hr => .skip fun info => .pure ?_
      have hnone : ∀ a ∈ h.attributes, a.kind ≠ .named := by
        intro a ha
        rw [show h.attributes = [] from hattrs] at ha
        exact absurd ha List.not_mem_nil
      refine ⟨⟨Validation.namesOnce_of_not_named _ hnone, ?_, ?_⟩, rfl⟩
      · intro hk
        cases hk
      · intro c hc
        exact hr.2 c hc
    have hgives := hvisit ⟨library, options.binder⟩
    exact ⟨(hgives _).1.setPage _, (kind_setPage _ _).trans (hgives _).2⟩

end Node

end ServerPages
