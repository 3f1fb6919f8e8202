import Mathlib.Data.Multiset.MapFold
import ServerPages.Proofs.BoundAttributes
import ServerPages.Proofs.TreeGist

/-!
# Forms of trees

Trees are compared node by node, the attributes of one side being looked up on the other, and text
next to text being merged on the way. What decides is the form of a tree: its kinds with their
names, the attributes of each node in no order, and its texts, merged where they meet and without
white space.

The form is told in one walk over a tree (`Node.form`), and read off the tree of the nodes that
count (`Node.plainForm`). The comparison sees the second, and both are the same.

## Main results

* `ParseRequest.isComparable_of_parse`: parsed trees can be compared.
* `Node.plainForm_significant`: merging and dropping nodes leaves the form of a tree.
* `Node.compare_eq`: a comparison finds no difference if the forms are the same.
* `Node.isEquivalent_eq`: trees are equivalent if they have the same form.
-/

namespace ServerPages

/-! ### Forms -/

/-- What is compared of an attribute. -/
def Attribute.compared (a : Attribute) : Bytes × AttributeKind × Bytes :=
  (a.name, a.kind, a.value.trimSpace)

/-- What a node says itself, apart from its attributes and its content. -/
inductive Saying where
  /-- Nothing but its kind. -/
  | nothing
  /-- Text, code or an expression, without white space. -/
  | text (letters : Bytes)
  /-- A tag, by the uri of its library and its name there. -/
  | tag (name : Option (Bytes × Bytes))
  /-- The attribute that is given as content. -/
  | attribute (name : Bytes)

/-- What the head of a node says itself. -/
def Head.saying (h : Head) : Saying :=
  match h.kind with
  | .text | .declaration | .expression | .scriptlet | .elExpression =>
    .text (Node.withoutBlanks h.text)
  | .customTag => .tag (h.tag.map fun t => (t.uri, t.localName))
  | .namedAttribute => .attribute h.attributeName
  | _ => .nothing

/-- What is compared of a tree. -/
inductive TreeForm where
  | mk (kind : Kind) (saying : Saying) (attributes : Multiset (Bytes × AttributeKind × Bytes))
    (content : List TreeForm)

/-- What is compared of the attributes of a node, in no order. -/
def Head.bag (h : Head) : Multiset (Bytes × AttributeKind × Bytes) :=
  (h.attributes.map (·.compared) : List (Bytes × AttributeKind × Bytes))

/-- The form of a text that was read, if there is any. -/
def TreeForm.ofText (s : Bytes) : List TreeForm :=
  if s = [] then [] else [.mk .text (.text (Node.withoutBlanks s)) 0 []]

namespace Node

/-- Whether a node does not count. -/
def isIgnored (n : Node) : Bool := n.kind == .taglibDirective || n.isBlankText

mutual

/-- The form of a tree. -/
def form : Node → TreeForm
  | mk h cs => .mk h.kind h.saying h.bag (formsFrom [] cs)

/-- The forms of the nodes of a list, after the text `s`. -/
def formsFrom (s : Bytes) : List Node → List TreeForm
  | [] => TreeForm.ofText s
  | c :: cs =>
    if c.isIgnored then formsFrom s cs
    else if c.kind == .text then formsFrom (s ++ c.text) cs
    else TreeForm.ofText s ++ form c :: formsFrom [] cs

end

mutual

/-- The form of a tree of nodes that count, no two texts of which stand side by side. -/
def plainForm : Node → TreeForm
  | mk h cs => .mk h.kind h.saying h.bag (plainForms cs)

/-- `plainForm` of every node of a list. -/
def plainForms : List Node → List TreeForm
  | [] => []
  | c :: cs => plainForm c :: plainForms cs

end

end Node

/-! ### Trees that can be compared -/

/-- Attributes have different names, and there is a tag where one is invoked. -/
structure Head.IsComparable (h : Head) : Prop where
  distinct : (h.attributes.map (·.name)).Nodup
  tag : h.kind = .customTag → h.tag.isSome = true

/-- A node of literal text. -/
structure Node.IsText (n : Node) (s : Bytes) : Prop where
  kind : n.kind = .text
  text : n.text = s
  attributes : n.head.attributes = []
  children : n.children = []

/-- A tree that can be compared: every head can, and text has neither attributes nor children. -/
inductive Node.IsComparable : Node → Prop where
  | mk {h : Head} {cs : List Node} (head : h.IsComparable)
    (text : h.kind = .text → (Node.mk h cs).IsText h.text)
    (children : ∀ c ∈ cs, Node.IsComparable c) : Node.IsComparable (.mk h cs)

/-- Parsed nodes can be compared. -/
theorem Node.IsParsed.isComparable {n : Node} (h : n.IsParsed)
    (hnames : ∀ m ∈ n.subtree, m.head.HasNames) : n.IsComparable := by
  induction h with
  | @mk h cs head leaf children ih =>
    have hdistinct := (hnames _ (Node.mem_subtree_self _)).nodup
    refine ⟨⟨hdistinct, fun hk => ?_⟩, fun hk => ?_, fun c hc => ?_⟩
    · have hd := head.descriptor hk
      rw [Head.descriptor?] at hd
      exact Option.isSome_of_isSome_bind hd
    · obtain ⟨hcs, hattributes⟩ := leaf (by rw [hk]; rfl)
      exact ⟨hk, rfl, hattributes, hcs⟩
    · exact ih c hc fun m hm => hnames m (Node.mem_subtree_of_child hc hm)

/-- **Parsed trees can be compared.** -/
theorem ParseRequest.isComparable_of_parse {σ : Type} {r : ParseRequest} {host : Host σ}
    {memory : σ} {root : Node} (h : (r.parse host memory).1 = .ok root) : root.IsComparable := by
  obtain ⟨hkind, -, hchildren⟩ := ParseRequest.parse_isUnit h
  have hnames := r.hasNames_of_parse h
  cases root with
  | mk hd cs =>
    have hdistinct := (hnames _ (Node.mem_subtree_self _)).nodup
    refine ⟨⟨hdistinct, fun hk => ?_⟩, fun hk => ?_, fun c hc => ?_⟩
    · cases (show hd.kind = .root from hkind).symm.trans hk
    · cases (show hd.kind = .root from hkind).symm.trans hk
    · exact (hchildren c hc).isComparable fun m hm => hnames m (Node.mem_subtree_of_child hc hm)

/-! ### The nodes that count -/

namespace Node

theorem IsText.extend {n : Node} {s : Bytes} (h : n.IsText s) (t : Bytes) :
    (n.extend t).IsText (s ++ t) :=
  ⟨h.kind, congrArg (· ++ t) h.text, h.attributes, h.children⟩

theorem isText_mk_iff {h : Head} {cs : List Node} {s : Bytes} : (mk h cs).IsText s ↔
    h.kind = .text ∧ h.text = s ∧ h.attributes = [] ∧ cs = [] :=
  ⟨fun ⟨hkind, htext, hattributes, hchildren⟩ => ⟨hkind, htext, hattributes, hchildren⟩,
    fun ⟨hkind, htext, hattributes, hchildren⟩ => ⟨hkind, htext, hattributes, hchildren⟩⟩

theorem IsText.plainForm {n : Node} {s : Bytes} (h : n.IsText s) (hs : s ≠ []) :
    [n.plainForm] = TreeForm.ofText s := by
  cases n with
  | mk hd cs =>
    obtain ⟨hkind, rfl, hattributes, rfl⟩ := isText_mk_iff.mp h
    rw [Node.plainForm, Head.saying, Head.bag, hkind, hattributes, plainForms, TreeForm.ofText,
      if_neg hs]
    rfl

theorem head_significant (n : Node) : n.significant.head = n.head := by
  cases n
  rfl

theorem kind_significant (n : Node) : n.significant.kind = n.kind :=
  congrArg Head.kind n.head_significant

theorem text_significant (n : Node) : n.significant.text = n.text :=
  congrArg Head.text n.head_significant

theorem isIgnored_significant (n : Node) : n.significant.isIgnored = n.isIgnored := by
  rw [isIgnored, isBlankText, kind_significant, text_significant]
  rfl

theorem IsText.significant {n : Node} {s : Bytes} (h : n.IsText s) : n.significant.IsText s := by
  cases n with
  | mk hd cs =>
    obtain ⟨-, -, -, rfl⟩ := isText_mk_iff.mp h
    exact h

theorem text_ne_nil_of_counts {n : Node} (h : n.isIgnored = false) (hk : n.kind = .text) :
    n.text ≠ [] := by
  intro hnil
  rw [isIgnored, isBlankText, hk, hnil] at h
  cases h

/-- What is kept of the nodes so far has given some forms and a text that may go on. -/
inductive IsHeld : List Node → List TreeForm → Bytes → Prop where
  | nothing : IsHeld [] [] []
  | text {last : Node} {s : Bytes} : last.IsText s → s ≠ [] → IsHeld [last] [] s
  | other {last : Node} : last.kind ≠ .text → IsHeld [last] [last.plainForm] []

theorem IsHeld.plainForms {kept : List Node} {fs : List TreeForm} {s : Bytes}
    (h : IsHeld kept fs s) : plainForms kept = fs ++ TreeForm.ofText s := by
  cases h with
  | nothing => rfl
  | text h hs => exact h.plainForm hs
  | other _ => rfl

/-- Text goes on with the text that is held, or is held in place of what was. -/
theorem IsHeld.gather_text {kept : List Node} {fs : List TreeForm} {s t : Bytes}
    (h : IsHeld kept fs s) {c : Node} (hcounts : c.isIgnored = false) (hc : c.IsText t)
    (ht : t ≠ []) : ∃ past kept' fs', IsHeld kept' fs' (s ++ t) ∧ past ++ fs' = fs ∧
      ∀ cs, Node.plainForms (gather kept (c :: cs)) =
        past ++ Node.plainForms (gather kept' cs) := by
  cases h with
  | nothing => exact ⟨[], [c], [], .text hc ht, rfl, fun cs => by rw [gather_first hcounts]; rfl⟩
  | text hlast hs =>
    refine ⟨[], _, [], .text (hlast.extend t) (by simp [hs]), rfl, fun cs => ?_⟩
    rw [gather_merged hcounts hc.kind hlast.kind, hc.text]
    rfl
  | @other last hlast =>
    refine ⟨[last.plainForm], [c], [], .text hc ht, rfl, fun cs => ?_⟩
    rw [gather_kept hcounts (.inr hlast), Node.plainForms]
    rfl

/-- A node that is no text is held in place of what was. -/
theorem IsHeld.gather_other {kept : List Node} {fs : List TreeForm} {s : Bytes}
    (h : IsHeld kept fs s) {c : Node} (hcounts : c.isIgnored = false) (hc : c.kind ≠ .text)
    (cs : List Node) : Node.plainForms (gather kept (c :: cs)) =
      fs ++ TreeForm.ofText s ++ Node.plainForms (gather [c] cs) := by
  cases h with
  | nothing =>
    rw [gather_first hcounts]
    rfl
  | text hlast hs =>
    rw [gather_kept hcounts (.inl hc), Node.plainForms, ← hlast.plainForm hs]
    rfl
  | other hlast =>
    rw [gather_kept hcounts (.inl hc), Node.plainForms]
    rfl

/-- Induction on the nodes that are left, with what is held. -/
theorem plainForms_gather {cs : List Node}
    (hcs : ∀ c ∈ cs, c.IsComparable ∧ plainForm c.significant = c.form) {kept : List Node}
    {fs : List TreeForm} {s : Bytes} (h : IsHeld kept fs s) :
    plainForms (gather kept (significantAll cs)) = fs ++ formsFrom s cs := by
  induction cs generalizing kept fs s with
  | nil => exact h.plainForms
  | cons c cs ih =>
    obtain ⟨hcomparable, hform⟩ := hcs c List.mem_cons_self
    have ih {kept fs s} (h : IsHeld kept fs s) :=
      ih (fun d hd => hcs d (List.mem_cons_of_mem c hd)) h
    rw [significantAll, formsFrom]
    by_cases hignored : c.isIgnored = true
    · have hdrop : c.significant.isIgnored = true := c.isIgnored_significant ▸ hignored
      rw [if_pos hignored, gather_dropped hdrop, ih h]
    rw [if_neg hignored]
    rw [Bool.not_eq_true] at hignored
    have hcounts : c.significant.isIgnored = false := c.isIgnored_significant ▸ hignored
    by_cases hk : c.kind = .text
    · have htext : c.significant.IsText c.text := by
        obtain ⟨-, htext, -⟩ := hcomparable
        exact (htext hk).significant
      obtain ⟨past, kept', fs', hheld, rfl, hstep⟩ :=
        h.gather_text hcounts htext (text_ne_nil_of_counts hignored hk)
      rw [if_pos (by simp [hk]), hstep, ih hheld, List.append_assoc]
    · have hother : c.significant.kind ≠ .text := c.kind_significant ▸ hk
      rw [if_neg (by simpa using hk), h.gather_other hcounts hother, ih (.other hother), hform,
        List.append_assoc]
      rfl

/-- The form of a tree is read off the nodes that count. -/
theorem plainForm_significant {n : Node} (h : n.IsComparable) :
    plainForm n.significant = n.form := by
  induction h with
  | @mk hd cs head text children ih =>
    rw [significant, plainForm, form,
      plainForms_gather (fun c hc => ⟨children c hc, ih c hc⟩) .nothing, List.nil_append]

theorem forall_mem_gather {P : Node → Prop} (hextend : ∀ n s, P n → P (n.extend s))
    {kept cs : List Node} (hkept : ∀ n ∈ kept, P n) (hcs : ∀ n ∈ cs, P n) :
    ∀ n ∈ gather kept cs, P n := by
  induction cs generalizing kept with
  | nil => exact hkept
  | cons c cs ih =>
    obtain ⟨hc, hcs⟩ := List.forall_mem_cons.mp hcs
    rw [gather]
    split
    · exact ih hkept hcs
    split
    · next last hlast =>
      split
      · refine ih (List.forall_mem_append.mpr ⟨?_, ?_⟩) hcs
        · exact fun n hn => hkept n (List.dropLast_subset _ hn)
        · exact List.forall_mem_singleton.mpr (hextend _ _ (hkept _ (List.mem_of_getLast? hlast)))
      · exact ih (List.forall_mem_append.mpr ⟨hkept, List.forall_mem_singleton.mpr hc⟩) hcs
    · exact ih (List.forall_mem_singleton.mpr hc) hcs

theorem IsComparable.extend {n : Node} (h : n.IsComparable) (s : Bytes) :
    (n.extend s).IsComparable := by
  obtain ⟨⟨distinct, tag⟩, text, children⟩ := h
  refine ⟨⟨distinct, tag⟩, fun hk => ?_, children⟩
  obtain ⟨-, -, hattributes, hchildren⟩ := text hk
  exact ⟨hk, rfl, hattributes, hchildren⟩

theorem mem_significantAll {m : Node} {cs : List Node} (h : m ∈ significantAll cs) :
    ∃ c ∈ cs, m = c.significant := by
  induction cs with
  | nil => exact absurd h List.not_mem_nil
  | cons c cs ih =>
    rcases List.mem_cons.mp h with rfl | h
    · exact ⟨c, List.mem_cons_self, rfl⟩
    · obtain ⟨d, hd, rfl⟩ := ih h
      exact ⟨d, List.mem_cons_of_mem c hd, rfl⟩

theorem IsComparable.significant {n : Node} (h : n.IsComparable) : n.significant.IsComparable := by
  induction h with
  | @mk hd cs head text children ih =>
    refine ⟨head, fun hk => (text hk).significant, ?_⟩
    refine forall_mem_gather (fun n s h => h.extend s) (fun n hn => absurd hn List.not_mem_nil) ?_
    intro m hm
    obtain ⟨c, hc, rfl⟩ := mem_significantAll hm
    exact ih c hc

/-! ### Comparing what counts -/

theorem ownDifference?_eq {a b : Head} (ha : a.IsComparable) (hb : b.IsComparable)
    (hk : a.kind = b.kind) (here : Bytes) :
    ∃ d, ownDifference? here a b = .ok d ∧ (d = none ↔ a.saying = b.saying) := by
  rw [ownDifference?, Head.saying, Head.saying, ← hk]
  have htext : ∀ m : Bytes, ∃ d,
      (if (withoutBlanks a.text != withoutBlanks b.text) = true then .ok (some m) else .ok none :
        Except Failure (Option Bytes)) = .ok d ∧
      (d = none ↔ Saying.text (withoutBlanks a.text) = .text (withoutBlanks b.text)) := by
    intro m
    by_cases h : withoutBlanks a.text = withoutBlanks b.text
    · exact ⟨none, by simp [h], by simp [h]⟩
    · exact ⟨some m, by simp [h], by simp [h]⟩
  cases hkind : a.kind with
  | text | declaration | expression | scriptlet | elExpression => exact htext _
  | customTag =>
    obtain ⟨s, hs⟩ := Option.isSome_iff_exists.mp (ha.tag hkind)
    obtain ⟨t, ht⟩ := Option.isSome_iff_exists.mp (hb.tag (hk ▸ hkind))
    rw [hs, ht]
    by_cases h : s.uri = t.uri ∧ s.localName = t.localName
    · exact ⟨none, by simp [h.1, h.2], by simp [h.1, h.2]⟩
    · refine ⟨some _, if_pos ?_, by simpa using h⟩
      rw [Bool.or_eq_true, bne_iff_ne, bne_iff_ne]
      exact not_and_or.mp h
  | namedAttribute =>
    by_cases h : a.attributeName = b.attributeName
    · exact ⟨none, by simp [h], by simp [h]⟩
    · exact ⟨some _, if_pos (by simpa using h), by simpa using h⟩
  | _ => exact ⟨none, rfl, by simp⟩

/-- Attributes are looked up one way only. -/
theorem compared_subset_of_attributeDifference? {a b : Head} {here : Bytes}
    (h : attributeDifference? here a b = none) :
    a.attributes.length = b.attributes.length ∧
      a.attributes.map (·.compared) ⊆ b.attributes.map (·.compared) := by
  rw [attributeDifference?] at h
  split at h
  · cases h
  next hlen =>
  refine ⟨by simpa using hlen, fun c hc => ?_⟩
  obtain ⟨x, hx, rfl⟩ := List.mem_map.mp hc
  have hsame := List.findSome?_eq_none_iff.mp h x hx
  split at hsame
  · cases hsame
  next y hy =>
  split at hsame
  · cases hsame
  next hno =>
  have hname : y.name = x.name := by simpa using List.find?_some hy
  refine List.mem_map.mpr ⟨y, List.mem_of_find?_eq_some hy, ?_⟩
  simp only [Bool.or_eq_true, bne_iff_ne, not_or, not_not] at hno
  rw [Attribute.compared, Attribute.compared, hname, hno.1, hno.2]

/-- As many attributes of different names on either side, all of which are found on the other, are
the same in some order. -/
theorem attributeDifference?_eq_none_iff {a b : Head} (ha : a.IsComparable) (hb : b.IsComparable)
    (here : Bytes) : attributeDifference? here a b = none ↔ a.bag = b.bag := by
  rw [Head.bag, Head.bag, Multiset.coe_eq_coe]
  constructor
  · intro h
    obtain ⟨hlen, hsubset⟩ := compared_subset_of_attributeDifference? h
    have hnodup : (a.attributes.map (·.compared)).Nodup := by
      refine .of_map Prod.fst ?_
      rw [List.map_map]
      exact ha.distinct
    refine (List.subperm_of_subset hnodup hsubset).perm_of_length_le ?_
    rw [List.length_map, List.length_map, hlen]
  · intro h
    have hlen : a.attributes.length = b.attributes.length := by simpa using h.length_eq
    rw [attributeDifference?, if_neg (by simp [hlen]), List.findSome?_eq_none_iff]
    intro x hx
    obtain ⟨y, hy, hsame⟩ := List.mem_map.mp (h.subset (List.mem_map_of_mem hx))
    obtain ⟨hname, hrest⟩ := Prod.mk.inj hsame
    obtain ⟨hkind, hvalue⟩ := Prod.mk.inj hrest
    rw [← hname, Head.attr?_of_mem hb.distinct hy]
    simp [hkind, hvalue]

/-- Lists of nodes of the same length are compared node by node. -/
theorem compareAll_eq {cs ds : List Node}
    (h : ∀ c ∈ cs, ∀ d ∈ ds, ∀ path, ∃ r, compare path c d = .ok r ∧
      (r = none ↔ c.plainForm = d.plainForm))
    (hlen : cs.length = ds.length) (here : Bytes) (i : Nat) :
    ∃ r, compareAll here i cs ds = .ok r ∧ (r = none ↔ plainForms cs = plainForms ds) := by
  induction cs generalizing ds i with
  | nil =>
    obtain rfl := List.length_eq_zero_iff.mp hlen.symm
    exact ⟨none, rfl, by simp⟩
  | cons c cs ih =>
    obtain ⟨d, ds, rfl⟩ := List.exists_cons_of_length_eq_add_one hlen.symm
    obtain ⟨r, hr, hiff⟩ := h c List.mem_cons_self d List.mem_cons_self
      (here ++ "[" ++ Bytes.ofNat i ++ "]")
    rw [compareAll, hr, plainForms, plainForms, List.cons.injEq, ← hiff]
    cases r with
    | some r => exact ⟨some r, rfl, by simp⟩
    | none =>
      obtain ⟨r, hr, hiff⟩ := ih (fun x hx y hy => h x (List.mem_cons_of_mem c hx) y
        (List.mem_cons_of_mem d hy)) (Nat.succ.inj hlen) (i + 1)
      exact ⟨r, hr, by rw [hiff, eq_self, true_and]⟩

theorem length_plainForms (cs : List Node) : (plainForms cs).length = cs.length := by
  induction cs with
  | nil => rfl
  | cons c cs ih => rw [plainForms, List.length_cons, ih, List.length_cons]

/-- Induction on the first tree. -/
theorem compare_eq {a b : Node} (ha : a.IsComparable) (hb : b.IsComparable) (path : Bytes) :
    ∃ r, compare path a b = .ok r ∧ (r = none ↔ a.plainForm = b.plainForm) := by
  induction ha generalizing b path with
  | @mk h cs head text children ih =>
    obtain @⟨h', ds, head', text', children'⟩ := hb
    rw [compare, plainForm, plainForm, TreeForm.mk.injEq]
    by_cases hk : h.kind = h'.kind
    · obtain ⟨own, hown, hsaying⟩ := ownDifference?_eq head head' hk (path ++ "/" ++ h.kind.name)
      have hbag := attributeDifference?_eq_none_iff head head' (path ++ "/" ++ h.kind.name)
      rw [if_neg (by simp [hk]), hown, ← hsaying, ← hbag]
      cases own with
      | some d => exact ⟨some d, rfl, by simp⟩
      | none =>
        cases attributeDifference? (path ++ "/" ++ h.kind.name) h h' with
        | some d => exact ⟨some d, rfl, by simp⟩
        | none =>
          by_cases hlen : cs.length = ds.length
          · obtain ⟨r, hr, hiff⟩ := compareAll_eq (fun c hc d hd => ih c hc (children' d hd)) hlen
              (path ++ "/" ++ h.kind.name) 0
            exact ⟨r, (if_neg (by simp [hlen])).trans hr, by simp [hiff, hk]⟩
          · refine ⟨some _, if_pos (by simpa using hlen), ?_⟩
            have hne : plainForms cs ≠ plainForms ds := fun h => hlen (by
              rw [← length_plainForms, h, length_plainForms])
            simp [hne]
    · exact ⟨some _, if_pos (by simpa using hk), by simp [hk]⟩

/-- **Trees are equivalent if they have the same form.** -/
theorem isEquivalent_eq {a b : Node} (ha : a.IsComparable) (hb : b.IsComparable) :
    ∃ same, a.isEquivalent b = .ok same ∧ (same = true ↔ a.form = b.form) := by
  obtain ⟨r, hr, hiff⟩ := compare_eq ha.significant hb.significant []
  rw [plainForm_significant ha, plainForm_significant hb] at hiff
  refine ⟨r.isNone, ?_, by rw [← hiff, Option.isNone_iff_eq_none]⟩
  rw [isEquivalent, difference, hr]
  rfl

theorem isEquivalent_eq_true_iff {a b : Node} (ha : a.IsComparable) (hb : b.IsComparable) :
    a.isEquivalent b = .ok true ↔ a.form = b.form := by
  obtain ⟨same, hsame, hiff⟩ := isEquivalent_eq ha hb
  rw [hsame, Except.ok.injEq, hiff]

theorem isEquivalent_congr {a a' b b' : Node} (ha : a.IsComparable) (ha' : a'.IsComparable)
    (hb : b.IsComparable) (hb' : b'.IsComparable) (hform : a.form = a'.form)
    (hform' : b.form = b'.form) : a'.isEquivalent b' = a.isEquivalent b := by
  obtain ⟨same, hsame, hiff⟩ := isEquivalent_eq ha hb
  obtain ⟨same', hsame', hiff'⟩ := isEquivalent_eq ha' hb'
  rw [hsame, hsame', Except.ok.injEq, Bool.eq_iff_iff, hiff, hiff', hform, hform']

end Node

end ServerPages
