import Mathlib.Data.List.Basic
import ServerPages.Proofs.CleanPaths
import ServerPages.Proofs.FreshUnits
import ServerPages.Proofs.Invocations
import ServerPages.Proofs.ParseDialog

/-!
# Pools of handlers

If handlers are pooled, a classic tag takes its handler from a pool of the unit and puts it back
when it is done. The next tag that takes it there asserts the type of its own handler, and finds the
attributes set that the last one has set.

The name of a pool is made of words: what the prefix, the name of the tag and the names of its
attributes are as identifiers. The words can be read back from the name, but not the names from the
words: `foo`, `Foo` and `f-oo` are one word. So two tags share a pool exactly if they are spelled
alike (`SpelledAlike`), and they share it rightly if what the words do not tell is the same for both
(`TellsApart`).

That tags of one uri and one name have one contract takes surroundings that keep to their answers
(`Host.IsSteady`): the contract is the one that the library of the uri gave while the unit was
parsed.

## Main results

* `poolName_eq_iff`: which invocations are given one pool.
* `passAttributes_eq`: which attributes an invocation sets.
* `ParseRequest.generate_pools`: invocations that share a pool have one contract and set attributes
  of the same names, unless they are told apart by what the name of the pool leaves out.
-/

namespace ServerPages

/-- Lists with the same images have the same entries, if an entry of one and an entry of the other
with one image are the same. -/
theorem perm_of_map_perm {α β : Type} {f : α → β} {l m : List α} (h : (l.map f).Perm (m.map f))
    (hf : ∀ a ∈ l, ∀ b ∈ m, f a = f b → a = b) : l.Perm m := by
  induction l generalizing m with
  | nil =>
    have hnil := h.symm.eq_nil
    rw [List.map_eq_nil_iff] at hnil
    rw [hnil]
  | cons a l ih =>
    obtain ⟨b, hb, hab⟩ := List.mem_map.mp (h.subset List.mem_cons_self)
    obtain rfl := hf a List.mem_cons_self b hb hab.symm
    obtain ⟨front, back, rfl⟩ := List.append_of_mem hb
    have hrest : (l.map f).Perm ((front ++ back).map f) :=
      (h.trans (List.perm_middle.map f)).cons_inv
    have hin : ∀ c ∈ front ++ back, c ∈ front ++ a :: back := fun c hc =>
      List.perm_middle.symm.subset (List.mem_cons_of_mem a hc)
    exact ((ih hrest fun x hx y hy => hf x (List.mem_cons_of_mem a hx) y (hin y hy)).cons a).trans
      List.perm_middle.symm

namespace Generation

/-! ### Names of pools -/

theorem underscore_not_mem_identifier (s : Bytes) : 95 ∉ identifier s := fun h =>
  absurd (isLower_or_isDigit_of_mem_identifier h) (by decide)

/-- The words that the name of a pool is made of. -/
def poolWords (t : CustomTag) (as : List Attribute) : List Bytes :=
  identifier t.prefixName :: identifier t.localName ::
    Bytes.sort (as.map fun a => identifier a.name)

theorem poolName_eq (t : CustomTag) (as : List Attribute) :
    poolName t as = "_pool_" ++ Bytes.join [95] (poolWords t as) := by
  simp [poolName, poolWords, Bytes.join, List.intercalate]
  rfl

/-- No word has an underscore. -/
theorem underscore_not_mem_of_mem_poolWords {t : CustomTag} {as : List Attribute} {w : Bytes}
    (h : w ∈ poolWords t as) : 95 ∉ w := by
  rcases List.mem_cons.mp h with rfl | h
  · exact underscore_not_mem_identifier _
  rcases List.mem_cons.mp h with rfl | h
  · exact underscore_not_mem_identifier _
  rw [Bytes.sort, List.mem_mergeSort] at h
  obtain ⟨a, -, rfl⟩ := List.mem_map.mp h
  exact underscore_not_mem_identifier _

theorem poolWords_of_poolName {t u : CustomTag} {as bs : List Attribute}
    (h : poolName t as = poolName u bs) : poolWords t as = poolWords u bs := by
  have hsplit : ∀ (t : CustomTag) (as : List Attribute),
      Bytes.splitOnByte 95 (Bytes.join [95] (poolWords t as)) = poolWords t as := fun _ _ =>
    Bytes.splitOnByte_join (List.cons_ne_nil _ _) fun _ => underscore_not_mem_of_mem_poolWords
  rw [poolName_eq, poolName_eq] at h
  rw [← hsplit t as, List.append_cancel_left h, hsplit u bs]

/-- The invocations are the same as identifiers. -/
structure SpelledAlike (h : Head) (t : CustomTag) (h' : Head) (u : CustomTag) : Prop where
  prefixName : identifier t.prefixName = identifier u.prefixName
  localName : identifier t.localName = identifier u.localName
  attributes : (h.attributes.map fun a => identifier a.name).Perm
    (h'.attributes.map fun a => identifier a.name)

/-- **Two invocations are given one pool exactly if they are spelled alike.** -/
theorem poolName_eq_iff {h h' : Head} {t u : CustomTag} :
    poolName t h.attributes = poolName u h'.attributes ↔ SpelledAlike h t h' u := by
  constructor
  · intro hname
    obtain ⟨hbound, hlocal, hsorted⟩ : _ ∧ _ ∧ _ := by
      simpa only [poolWords, List.cons.injEq] using poolWords_of_poolName hname
    exact ⟨hbound, hlocal, Bytes.sort_eq_sort_iff.mp hsorted⟩
  · rintro ⟨hbound, hlocal, hperm⟩
    rw [poolName, poolName, hbound, hlocal, Bytes.sort_eq_sort_iff.mpr hperm]

/-- The pool of a tag, if it has one, is that of its invocation, which is one of a classic tag. -/
theorem Site.Notes.pool {z : Site} {xs : List Bytes} {s : State} (h : z.Notes xs s.names)
    (hz : z.IsTidy) {n : Node} (hn : n ∈ (z.root.mapHeads (annotate s)).subtree) {t : CustomTag}
    (ht : n.head.tag = some t) {d : TagDescriptor} (hd : t.descriptor = some d)
    (hpool : t.names.pool ≠ []) :
    d.isClassic = true ∧ t.names.pool = poolName t n.head.attributes := by
  rw [Node.subtree_mapHeads] at hn
  obtain ⟨m, hm, rfl⟩ := List.mem_map.mp hn
  rw [Node.head_mapHeads] at ht ⊢
  have hne : t.names ≠ {} := by
    intro hnames
    rw [hnames] at hpool
    exact hpool rfl
  obtain ⟨l, hl, -, hnumber, u, e, -, hu, he, -, hof, -⟩ :=
    h.chosen _ ((noted_of_annotate ht).resolve_left hne)
  obtain rfl : l = m := List.inj_on_of_nodup_map hz.nodup hl hm hnumber
  obtain ⟨v, hv, rfl⟩ := Option.map_eq_some_iff.mp ht
  obtain rfl : v = u := Option.some.inj (hv.symm.trans hu)
  obtain rfl : d = e := Option.some.inj (hd.symm.trans he)
  rw [poolOf] at hof
  split at hof
  · next hpooled => exact ⟨(Bool.and_eq_true_iff.mp hpooled).2, hof⟩
  · exact absurd hof hpool

end Generation

/-! ### Attributes that are set -/

/-- Whether an attribute is left out: the element that gives it says so. -/
def Node.omits (n : Node) (a : Attribute) : Bool :=
  a.kind == .named && (n.given a).any (·.head.attrValue "omit" == ("true" : Bytes))

/-- The names of the attributes that an invocation sets. -/
def Node.attributesSet (n : Node) : List Bytes :=
  (n.head.attributes.filter fun a => !n.omits a).map (·.name)

/-- An invocation that leaves nothing out sets all its attributes. -/
theorem Node.attributesSet_eq {n : Node} (h : ∀ a ∈ n.head.attributes, n.omits a = false) :
    n.attributesSet = n.head.attributes.map (·.name) := by
  rw [attributesSet, List.filter_eq_self.mpr]
  intro a ha
  rw [h a ha]
  rfl

namespace Generation

/-- Calls the setter of an attribute. -/
def setAttribute (inner : Body) (handler : Bytes) (n : Node) (a : Attribute) : Gen Unit := do
  let value ← valueCode inner handler a (n.given a) a.setter.valueType
  if a.setter.dynamic then
    check (handler ++ "." ++ a.setter.method ++ "(" ++ Quoted.string a.uri ++ ", " ++
      Quoted.string a.localName ++ ", " ++ value ++ ")")
  else emit (handler ++ "." ++ a.setter.method ++ "(" ++ value ++ ")")

theorem passAttribute_eq (inner : Body) (handler : Bytes) (n : Node) {a : Attribute}
    (ha : a.setter.method ≠ []) : passAttribute inner handler n a =
      if n.omits a then pure () else setAttribute inner handler n a := by
  unfold passAttribute
  rw [if_neg (by simpa using ha)]
  rfl

/-- **An invocation calls the setters of the attributes that it sets.** -/
theorem passAttributes_eq (inner : Body) (handler : Bytes) {n : Node}
    (hn : ∀ a ∈ n.head.attributes, a.setter.method ≠ []) : passAttributes inner handler n =
      (n.head.attributes.filter fun a => !n.omits a).forM (setAttribute inner handler n) := by
  unfold passAttributes
  generalize n.head.attributes = as at hn
  induction as with
  | nil => rfl
  | cons a as ih =>
    obtain ⟨ha, has⟩ := List.forall_mem_cons.mp hn
    have hcons : (a :: as).forM (passAttribute inner handler n) = (do
        passAttribute inner handler n a
        as.forM (passAttribute inner handler n)) := rfl
    rw [hcons, passAttribute_eq inner handler n ha, ih has, List.filter_cons]
    cases n.omits a <;> rfl

end Generation

/-! ### Surroundings that keep to their answers -/

/-- A record in which libraries and tag files have one answer each. -/
structure Record.IsSingle (r : Record) : Prop where
  library : ∀ {uri : Bytes} {l l' : TagLibrary},
    r (.library uri (.ok l)) → r (.library uri (.ok l')) → l = l'
  tag : ∀ {path : Bytes} {d d' : TagDescriptor}, r (.tag path d) → r (.tag path d') → d = d'

/-- Where answers are single, tags of one uri and one name have one contract. -/
theorem Record.Backs.descriptor_eq {r : Record} (hr : r.IsSingle) {t u : CustomTag}
    (ht : r.Backs t) (hu : r.Backs u) (huri : t.uri = u.uri) (hlocal : t.localName = u.localName) :
    t.descriptor = u.descriptor := by
  obtain ⟨l, d, hl, hd, hgives⟩ := ht
  obtain ⟨l', e, hl', he, hgives'⟩ := hu
  rw [huri] at hl
  rw [hlocal] at hgives
  obtain rfl := hr.library hl hl'
  rw [hd, he]
  rcases hgives with htag | ⟨hnone, path, hpath, htold⟩ <;>
    rcases hgives' with htag' | ⟨hnone', path', hpath', htold'⟩
  · exact htag.symm.trans htag'
  · cases htag.symm.trans hnone'
  · cases htag'.symm.trans hnone
  · obtain rfl : path = path' := Option.some.inj (hpath.symm.trans hpath')
    rw [hr.tag htold htold']

/-- Surroundings that never give two different libraries for a uri, or two different tags for a tag
file, from what they remember on. -/
def Host.IsSteady {σ : Type} (host : Host σ) (memory : σ) : Prop :=
  ∃ (A : σ → Prop) (T : σ → Record), host.Meets A (fun _ => True) T ∧ A memory ∧
    ∀ m, A m → (T m).IsSingle

/-- Surroundings whose answers do not depend on what they remember are steady. -/
theorem Host.isSteady_of_fixed {σ : Type} {host : Host σ}
    (libraries : Bytes → Except Fault TagLibrary) (tags : Bytes → Except Failure TagDescriptor)
    (hlibrary : ∀ q, host.library = some q → ∀ uri m, (q uri m).1 = libraries uri)
    (htag : ∀ q, host.tagFile = some q → ∀ path m, (q path m).1 = tags path) (memory : σ) :
    host.IsSteady memory := by
  let answers : Record := fun t => (∀ uri a, t = .library uri a → a = libraries uri) ∧
    ∀ path d, t = .tag path d → .ok d = tags path
  refine ⟨fun _ => True, fun _ => answers, ⟨fun _ _ => trivial, ?_, ?_, ?_⟩, trivial, fun _ _ => ?_⟩
  · refine fun q hq uri m _ => ⟨trivial, ?_, fun _ h => h⟩
    constructor <;> rintro _ _ ⟨⟩
    exact hlibrary q hq uri m
  · refine fun q _ path m _ => ⟨fun _ _ _ => ⟨trivial, ?_, fun _ h => h⟩, fun _ _ _ => trivial⟩
    constructor <;> rintro _ _ ⟨⟩
  · refine fun q hq path m _ _ => ⟨fun d m' h => ⟨trivial, ?_, fun _ h => h⟩, fun _ _ _ => trivial⟩
    constructor <;> rintro _ _ ⟨⟩
    have hanswer := htag q hq path m
    rw [h] at hanswer
    exact hanswer
  · refine ⟨fun h h' => ?_, fun h h' => ?_⟩
    · exact Except.ok.inj ((h.1 _ _ rfl).trans (h'.1 _ _ rfl).symm)
    · exact Except.ok.inj ((h.2 _ _ rfl).trans (h'.2 _ _ rfl).symm)

/-- **Tags of one uri and one name have one contract** in a parsed tree. -/
theorem ParseRequest.descriptor_eq_of_parse {σ : Type} {r : ParseRequest} {host : Host σ}
    {memory : σ} (hsteady : host.IsSteady memory) {root : Node}
    (hparse : (r.parse host memory).1 = .ok root) {t u : CustomTag} (ht : t ∈ root.tags)
    (hu : u ∈ root.tags) (huri : t.uri = u.uri) (hlocal : t.localName = u.localName) :
    t.descriptor = u.descriptor := by
  obtain ⟨A, T, hmeets, hmemory, hsingle⟩ := hsteady
  have hrun : (r.dialog host.questions).run host memory =
      (.ok root, ((r.dialog host.questions).run host memory).2) :=
    Prod.ext (r.parse_eq_run host memory ▸ hparse) rfl
  obtain ⟨hA, hbacks⟩ := (Dialog.run_meets hmeets hmemory
    fun rec _ => r.dialog_within host.questions rec).1 root _ hrun
  exact (hbacks t ht).descriptor_eq (hsingle _ hA) (hbacks u hu) huri hlocal

namespace Node

mutual

theorem tags_eq (n : Node) : n.tags = n.subtree.filterMap (·.head.tag) := by
  match n with
  | .mk h cs =>
    have hhead : (mk h cs).head.tag = h.tag := rfl
    rw [tags, subtree, tagsAll_eq cs, List.filterMap_cons, hhead]
    cases h.tag <;> rfl

theorem tagsAll_eq (ns : List Node) : tagsAll ns = (subtreeAll ns).filterMap (·.head.tag) := by
  match ns with
  | [] => rfl
  | n :: ns =>
    rw [tagsAll, subtreeAll, List.filterMap_append, tags_eq n, tagsAll_eq ns]

end

/-- The tag of a node is an invocation of the tree. -/
theorem asWritten_mem_written {root n : Node} (hn : n ∈ root.subtree) {t : CustomTag}
    (ht : n.head.tag = some t) : t.asWritten ∈ root.written := by
  rw [written, tags_eq]
  exact List.mem_map_of_mem (List.mem_filterMap.mpr ⟨n, hn, ht⟩)

end Node

/-! ### Pools of a unit -/

/-- The node invokes a tag of the contract, with a handler from the pool. -/
structure Node.TakesFrom (n : Node) (pool : Bytes) (t : CustomTag) (d : TagDescriptor) : Prop where
  tag : n.head.tag = some t
  descriptor : t.descriptor = some d
  stored : t.names.pool = pool
  pooled : pool ≠ []

open Generation

/-- What the name of a pool does not tell is the same for both invocations: their uri, what names
with one identifier are, and that no attribute is left out. -/
structure TellsApart (n : Node) (t : CustomTag) (m : Node) (u : CustomTag) : Prop where
  uri : identifier t.prefixName = identifier u.prefixName → t.uri = u.uri
  localName : identifier t.localName = identifier u.localName → t.localName = u.localName
  attributes : ∀ a ∈ n.head.attributes, ∀ b ∈ m.head.attributes,
    identifier a.name = identifier b.name → a.name = b.name
  sets : (∀ a ∈ n.head.attributes, n.omits a = false) ∧
    ∀ b ∈ m.head.attributes, m.omits b = false

/-- Invocations that are spelled alike set attributes of the same names, if names are told apart. -/
theorem TellsApart.attributesSet_perm {n m : Node} {t u : CustomTag} (h : TellsApart n t m u)
    (halike : SpelledAlike n.head t m.head u) : n.attributesSet.Perm m.attributesSet := by
  rw [Node.attributesSet_eq h.sets.1, Node.attributesSet_eq h.sets.2]
  have hnames : ((n.head.attributes.map (·.name)).map identifier).Perm
      ((m.head.attributes.map (·.name)).map identifier) := by
    rw [List.map_map, List.map_map]
    exact halike.attributes
  refine perm_of_map_perm hnames fun x hx y hy => ?_
  obtain ⟨a, ha, rfl⟩ := List.mem_map.mp hx
  obtain ⟨b, hb, rfl⟩ := List.mem_map.mp hy
  exact h.attributes a ha b hb

/-- A library of a classic tag with an attribute. -/
def pooledLibrary : TagLibrary where
  uri := "urn:t"
  tags := [("x", { name := "x", attributes := [{ name := "aB" }] })]

/-- Two invocations that set the same attribute. -/
def pooledPage : ParseRequest where
  path := "/a.jsp"
  text := "<%@taglib prefix=\"t\" uri=\"urn:t\"%><t:x aB=\"1\"/><t:x aB=\"2\"/>"

/-- Surroundings that know the library. -/
def pooledHost : Host Unit where
  library := some fun _ m => (.ok pooledLibrary, m)

theorem isSteady_pooledHost : pooledHost.IsSteady () := by
  refine Host.isSteady_of_fixed (fun _ => .ok pooledLibrary) (fun _ => .error .crash) ?_ ?_ ()
  · intro q hq uri m
    obtain rfl := Option.some.inj hq
    rfl
  · intro q hq
    cases (show none = some q from hq)

/-- Whether the node has the number and is an invocation of the page. -/
def Node.isPooled (n : Node) (number : Nat) : Bool :=
  n.head.number == number && (n.head.tag.any fun t =>
    t.uri == ("urn:t" : Bytes) && t.localName == ("x" : Bytes) &&
      t.names.pool == ("_pool_t_x_ab" : Bytes) && t.descriptor.isSome) &&
  n.head.attributes.map (·.name) == ["aB"] && n.head.attributes.all fun a => !n.omits a

/-- The invocations of the page are the nodes 3 and 4, and have one pool. -/
theorem pooledPage_generated : ∃ root code, (pooledPage.parse pooledHost ()).1 = .ok root ∧
    (root.validate (σ := Unit) none {} ()).failure = none ∧
    (root.validate (σ := Unit) none {} ()).tree.generate { poolTagHandlers := true } = .ok code ∧
    ∀ i ∈ [3, 4], ∃ n ∈ code.tree.subtree, n.head.number = i ∧
      ∃ t d, n.TakesFrom "_pool_t_x_ab" t d ∧ t.uri = "urn:t" ∧ t.localName = "x" ∧
        n.head.attributes.map (·.name) = ["aB"] ∧ ∀ a ∈ n.head.attributes, n.omits a = false := by
  have hsome : (pooledPage.parse pooledHost ()).1.toOption.any (fun root =>
      let v := root.validate (σ := Unit) none {} ()
      v.failure.isNone && (v.tree.generate { poolTagHandlers := true }).toOption.any fun code =>
        [3, 4].all fun i => code.tree.subtree.any (·.isPooled i)) = true := by
    decide +kernel
  obtain ⟨root, hparse, htest⟩ := exists_ok_of_any hsome
  dsimp only at htest
  rw [Bool.and_eq_true, Option.isNone_iff_eq_none] at htest
  obtain ⟨hvalid, hgenerated⟩ := htest
  obtain ⟨code, hgen, hcode⟩ := exists_ok_of_any hgenerated
  refine ⟨root, code, hparse, hvalid, hgen, fun i hi => ?_⟩
  obtain ⟨n, hn, hpooled⟩ := List.any_eq_true.mp (List.all_eq_true.mp hcode i hi)
  simp only [Node.isPooled, Bool.and_eq_true, Option.any_eq_true, beq_iff_eq, List.all_eq_true,
    Bool.not_eq_true'] at hpooled
  obtain ⟨⟨⟨hnumber, t, ht, ⟨⟨huri, hlocal⟩, hstored⟩, hd⟩, hnames⟩, hsets⟩ := hpooled
  obtain ⟨d, hd⟩ := Option.isSome_iff_exists.mp hd
  exact ⟨n, hn, hnumber, t, d, ⟨ht, hd, hstored, by decide⟩, huri, hlocal, hnames, hsets⟩

section Validated

variable {σ τ : Type} {r : ParseRequest} {host : Host σ} {memory : σ} {root : Node}

/-- **Which invocations share a pool, and which may.** A parsed and validated unit is generated, and
the surroundings kept to their answers while it was parsed. Then only classic tags are given pools;
two of them are given the same pool exactly if they are spelled alike; and those that share a pool
have one contract, and so one type of handler, and set attributes of the same names, if they are
told apart by what the name of the pool leaves out. -/
theorem ParseRequest.generate_pools (hsteady : host.IsSteady memory)
    (hparse : (r.parse host memory).1 = .ok root)
    (library : Option (Bytes → τ → Except Fault TagLibrary × τ)) (options : ValidationOptions)
    (s : τ) (hvalid : (root.validate library options s).failure = none) {generation : Options}
    {code : GeneratedUnit}
    (hgen : (root.validate library options s).tree.generate generation = .ok code)
    {n m : Node} (hn : n ∈ code.tree.subtree) (hm : m ∈ code.tree.subtree) {p q : Bytes}
    {t u : CustomTag} {d e : TagDescriptor} (ht : n.TakesFrom p t d) (hu : m.TakesFrom q u e) :
    d.isClassic = true ∧ e.isClassic = true ∧ (p = q ↔ SpelledAlike n.head t m.head u) ∧
      (p = q → TellsApart n t m u → d = e ∧ n.attributesSet.Perm m.attributesSet) := by
  have hroot := parse_isUnit hparse
  obtain ⟨z, c, k, hz, htidy, -, -, -, hnotes, htree⟩ :=
    generate_mints (r.isTidy_of_validate hparse library options s hvalid)
      (visits_validated hroot hvalid) hgen
  have hpool : ∀ l ∈ code.tree.subtree, ∀ v f o, l.TakesFrom o v f →
      f.isClassic = true ∧ o = poolName v l.head.attributes := by
    rintro l hl v f o ⟨htag, hdescriptor, rfl, hpooled⟩
    exact hnotes.pool htidy (htree ▸ hl) htag hdescriptor hpooled
  obtain ⟨hclassic, hp⟩ := hpool n hn t d p ht
  obtain ⟨hclassic', hq⟩ := hpool m hm u e q hu
  have halike : p = q ↔ SpelledAlike n.head t m.head u := by rw [hp, hq, poolName_eq_iff]
  refine ⟨hclassic, hclassic', halike, fun hpq happart => ?_⟩
  have hwords := halike.mp hpq
  refine ⟨?_, happart.attributesSet_perm hwords⟩
  -- Both tags are found in the parsed tree, in which one tag has one contract.
  have hwritten : code.tree.written = root.written :=
    (Node.written_of_generate hgen).trans (Node.written_validate library options s hroot)
  have hfound : ∀ l ∈ code.tree.subtree, ∀ v, l.head.tag = some v →
      ∃ w ∈ root.tags, w.asWritten = v.asWritten := by
    intro l hl v hv
    have hmem := Node.asWritten_mem_written hl hv
    rw [hwritten] at hmem
    exact List.mem_map.mp hmem
  obtain ⟨t', ht', hsame⟩ := hfound n hn t ht.tag
  obtain ⟨u', hu', hsame'⟩ := hfound m hm u hu.tag
  have hdescriptor : t'.descriptor = u'.descriptor := by
    refine descriptor_eq_of_parse hsteady hparse ht' hu' ?_ ?_
    · exact (congrArg CustomTag.uri hsame).trans
        ((happart.uri hwords.prefixName).trans (congrArg CustomTag.uri hsame').symm)
    · exact (congrArg CustomTag.localName hsame).trans
        ((happart.localName hwords.localName).trans (congrArg CustomTag.localName hsame').symm)
  have hd : t'.descriptor = some d := (congrArg CustomTag.descriptor hsame).trans ht.descriptor
  have he : u'.descriptor = some e := (congrArg CustomTag.descriptor hsame').trans hu.descriptor
  exact Option.some.inj (hd.symm.trans (hdescriptor.trans he))

theorem ParseRequest.generate_pools_pooledPage : ∃ root code,
    (pooledPage.parse pooledHost ()).1 = .ok root ∧
    (root.validate (σ := Unit) none {} ()).failure = none ∧
    (root.validate (σ := Unit) none {} ()).tree.generate { poolTagHandlers := true } = .ok code ∧
    ∃ n ∈ code.tree.subtree, ∃ m ∈ code.tree.subtree, n.head.number ≠ m.head.number ∧
      ∃ t u d e, n.TakesFrom "_pool_t_x_ab" t d ∧ m.TakesFrom "_pool_t_x_ab" u e ∧
        TellsApart n t m u ∧ d = e ∧ n.attributesSet.Perm m.attributesSet := by
  obtain ⟨root, code, hparse, hvalid, hgen, hpooled⟩ := pooledPage_generated
  obtain ⟨n, hn, hnumber, t, d, ht, huri, hlocal, hnames, hsets⟩ := hpooled 3 (by decide)
  obtain ⟨m, hm, hnumber', u, e, hu, huri', hlocal', hnames', hsets'⟩ := hpooled 4 (by decide)
  have happart : TellsApart n t m u := by
    refine ⟨fun _ => huri.trans huri'.symm, fun _ => hlocal.trans hlocal'.symm, ?_, hsets, hsets'⟩
    intro a ha b hb _
    have hx := List.mem_map_of_mem (f := fun a : Attribute => a.name) ha
    have hy := List.mem_map_of_mem (f := fun a : Attribute => a.name) hb
    rw [hnames] at hx
    rw [hnames'] at hy
    exact (List.mem_singleton.mp hx).trans (List.mem_singleton.mp hy).symm
  obtain ⟨-, -, -, hshared⟩ :=
    ParseRequest.generate_pools isSteady_pooledHost hparse none {} () hvalid hgen hn hm ht hu
  obtain ⟨hcontract, hset⟩ := hshared rfl happart
  exact ⟨root, code, hparse, hvalid, hgen, n, hn, m, hm, by rw [hnumber, hnumber']; decide, t, u,
    d, e, ht, hu, happart, hcontract, hset⟩

end Validated

end ServerPages
