import ServerPages.Proofs.UnitWriting

/-!
# Variables saved around tags

A tag inside another one that sets a scripting variable from its start on may set one of the tags
around it. Its code saves the variable in a slot first, which is named after the variable and the
number of tags around, and restores it at the end. Between the two only tags further inside use
slots, and these have other names.

A name of the page may look like that of a slot; nothing checks this, and what is said here is said
of units without such names.

## Main results

* `Declared.all_saves`: what is written before a tag saves its variables.
* `visits_restore`: every invocation in place restores the variables that it saves.
-/

namespace ServerPages.Generation

/-! ### Runs of statements -/

theorem RunsAll.append {ss ts : List Statement} {m m' : Memory} (h : RunsAll (ss ++ ts) m m') :
    ∃ m₁, RunsAll ss m m₁ ∧ RunsAll ts m₁ m' := by
  induction ss generalizing m with
  | nil => exact ⟨m, .nil, h⟩
  | cons s ss ih =>
    cases h with
    | cons head tail =>
      obtain ⟨m₂, hs, ht⟩ := ih tail
      exact ⟨m₂, .cons head hs, ht⟩

/-- A variable keeps its value if no statement gives it one. -/
theorem RunsAll.keeps {ss : List Statement} {m m' : Memory} (h : RunsAll ss m m') {x : Bytes}
    (hx : ∀ s ∈ ss, x ∉ s.targets) : m' x = m x := by
  induction h with
  | nil => rfl
  | cons head tail ih =>
    rw [ih fun s hs => hx s (List.mem_cons_of_mem _ hs)]
    exact head.1 x (hx _ List.mem_cons_self)

/-! ### Saving -/

section Saving

variable {nesting : Nat} {b : Blocks} {v : VariableBinding} {x : Bytes}

theorem Blocks.isVisible_declare (b : Blocks) (x y : Bytes) :
    (b.declare y).isVisible x = (decide (x = y) || b.isVisible x) := by
  cases b with
  | nil => simp [Blocks.declare, Blocks.isVisible]
  | cons block outer => simp [Blocks.declare, Blocks.isVisible, Bool.or_assoc]

theorem Blocks.isLocal_declare (b : Blocks) (x y : Bytes) :
    (b.declare y).isLocal x = (decide (x = y) || b.isLocal x) := by
  cases b with
  | nil => simp [Blocks.declare, Blocks.isLocal]
  | cons block outer => simp [Blocks.declare, Blocks.isLocal]

/-- What is written for one variable. -/
theorem Declared.one_cases (nesting : Nat) (b : Blocks) (v : VariableBinding) :
    Declared.one nesting b v = { blocks := b } ∨
    (b.isVisible v.name = false ∧ Declared.one nesting b v =
      ⟨[.declare v.name v.valueType, .use v.name], [], b.declare v.name⟩) ∨
    (b.isLocal (saveSlot v.name nesting) = true ∧ v.scope = .atBegin ∧ Declared.one nesting b v =
      ⟨[.copy false (saveSlot v.name nesting) v.name], [v.name], b⟩) ∨
    (b.isLocal (saveSlot v.name nesting) = false ∧ v.scope = .atBegin ∧ Declared.one nesting b v =
      ⟨[.copy true (saveSlot v.name nesting) v.name], [v.name],
        b.declare (saveSlot v.name nesting)⟩) := by
  unfold Declared.one
  by_cases hnested : v.scope = .nested
  · exact .inl (if_pos hnested)
  rw [if_neg hnested]
  by_cases hvisible : b.isVisible v.name = true
  · rw [if_pos hvisible]
    by_cases hsaved : v.scope = .atBegin ∧ 0 < nesting
    · rw [if_pos hsaved]
      by_cases hlocal : b.isLocal (saveSlot v.name nesting) = true
      · exact .inr (.inr (.inl ⟨hlocal, hsaved.1, if_pos hlocal⟩))
      · exact .inr (.inr (.inr ⟨by simpa using hlocal, hsaved.1, if_neg hlocal⟩))
    · exact .inl (if_neg hsaved)
  · rw [if_neg hvisible]
    by_cases hdeclare : v.declare = true
    · exact .inr (.inl ⟨by simpa using hvisible, if_pos hdeclare⟩)
    · exact .inl (if_neg hdeclare)

/-- A statement for a variable sets the variable, which is not visible then, or its slot. -/
theorem Declared.one_targets {s : Statement} (hs : s ∈ (Declared.one nesting b v).statements)
    (hx : x ∈ s.targets) : (x = v.name ∧ b.isVisible v.name = false) ∨
      (x = saveSlot v.name nesting ∧ v.scope = .atBegin) := by
  rcases Declared.one_cases nesting b v with h | ⟨hvisible, h⟩ | ⟨-, hscope, h⟩ | ⟨-, hscope, h⟩ <;>
    rw [h] at hs
  · exact absurd hs List.not_mem_nil
  · rcases List.mem_cons.mp hs with rfl | hs
    · exact .inl ⟨List.mem_singleton.mp hx, hvisible⟩
    · obtain rfl := List.mem_singleton.mp hs
      exact absurd hx List.not_mem_nil
  · obtain rfl := List.mem_singleton.mp hs
    exact .inr ⟨List.mem_singleton.mp hx, hscope⟩
  · obtain rfl := List.mem_singleton.mp hs
    exact .inr ⟨List.mem_singleton.mp hx, hscope⟩

theorem Declared.all_targets {vs : List VariableBinding} {s : Statement}
    (hs : s ∈ (Declared.all nesting b vs).statements) (hx : x ∈ s.targets) :
    ∃ v ∈ vs, x = v.name ∨ (x = saveSlot v.name nesting ∧ v.scope = .atBegin) := by
  induction vs generalizing b with
  | nil => exact absurd hs List.not_mem_nil
  | cons v vs ih =>
    rcases List.mem_append.mp hs with hs | hs
    · rcases Declared.one_targets hs hx with ⟨hname, -⟩ | hslot
      · exact ⟨v, List.mem_cons_self, .inl hname⟩
      · exact ⟨v, List.mem_cons_self, .inr hslot⟩
    · obtain ⟨w, hw, h⟩ := ih hs
      exact ⟨w, List.mem_cons_of_mem v hw, h⟩

theorem Declared.one_visible (hvisible : b.isVisible x = true) :
    (Declared.one nesting b v).blocks.isVisible x = true := by
  rcases Declared.one_cases nesting b v with h | ⟨-, h⟩ | ⟨-, -, h⟩ | ⟨-, -, h⟩ <;> rw [h]
  · exact hvisible
  · rw [Blocks.isVisible_declare, hvisible, Bool.or_true]
  · exact hvisible
  · rw [Blocks.isVisible_declare, hvisible, Bool.or_true]

/-- The slots of a block are those there were and those that are set. -/
theorem Declared.one_local (hname : v.name ≠ saveSlot x nesting) :
    (Declared.one nesting b v).blocks.isLocal (saveSlot x nesting) = false ↔
      b.isLocal (saveSlot x nesting) = false ∧
        ∀ s ∈ (Declared.one nesting b v).statements, saveSlot x nesting ∉ s.targets := by
  rcases Declared.one_cases nesting b v with h | ⟨-, h⟩ | ⟨hlocal, -, h⟩ | ⟨-, -, h⟩ <;> rw [h]
  · simp
  · simp [Blocks.isLocal_declare, Statement.targets, Ne.symm hname]
  · by_cases hslot : saveSlot x nesting = saveSlot v.name nesting
    · simp [hslot, hlocal, Statement.targets]
    · simp [Statement.targets, hslot]
  · by_cases hslot : saveSlot x nesting = saveSlot v.name nesting
    · simp [Blocks.isLocal_declare, hslot, Statement.targets]
    · simp [Blocks.isLocal_declare, Statement.targets, hslot]

/-- A visible variable that a nested tag sets from its start on is saved. -/
theorem Declared.one_saves (hnesting : 0 < nesting) (hscope : v.scope = .atBegin)
    (hvisible : b.isVisible v.name = true) : (Declared.one nesting b v).saved = [v.name] ∧
      (Declared.one nesting b v).statements =
        [.copy (!b.isLocal (saveSlot v.name nesting)) (saveSlot v.name nesting) v.name] := by
  unfold Declared.one
  rw [if_neg (by rw [hscope]; decide), if_pos hvisible, if_pos ⟨hscope, hnesting⟩]
  cases b.isLocal (saveSlot v.name nesting) <;> exact ⟨rfl, rfl⟩

/-- How the statements before a tag save a variable in a slot: the last one that sets the slot
copies the variable, which is not changed before, and declares the slot if it is the first to set it
and the block does not have it. -/
structure SavesIn (b : Blocks) (x slot : Bytes) (pre post : List Statement) (isNew : Bool) :
    Prop where
  isNew_iff : isNew = true ↔ b.isLocal slot = false ∧ ∀ s ∈ pre, slot ∉ s.targets
  before : ∀ s ∈ pre, x ∉ s.targets
  after : ∀ s ∈ post, slot ∉ s.targets

/-- A variable that is visible where a nested tag opens, and that the tag sets from its start on, is
saved. -/
theorem Declared.all_saves (hnesting : 0 < nesting) {vs : List VariableBinding}
    (hnames : ∀ v ∈ vs, ∀ y i, v.name ≠ saveSlot y i)
    (hx : ∃ v ∈ vs, v.name = x ∧ v.scope = .atBegin) (hvisible : b.isVisible x = true) :
    x ∈ (Declared.all nesting b vs).saved ∧ ∃ pre post isNew,
      (Declared.all nesting b vs).statements =
        pre ++ .copy isNew (saveSlot x nesting) x :: post ∧
      SavesIn b x (saveSlot x nesting) pre post isNew := by
  induction vs generalizing b with
  | nil =>
    obtain ⟨v, hv, -⟩ := hx
    exact absurd hv List.not_mem_nil
  | cons v vs ih =>
    let one := Declared.one nesting b v
    have hrest := fun w hw => hnames w (List.mem_cons_of_mem v hw)
    have hxslot : x ≠ saveSlot v.name nesting := by
      obtain ⟨w, hw, hname, -⟩ := hx
      exact hname ▸ hnames w hw v.name nesting
    by_cases hlater : ∃ w ∈ vs, w.name = x ∧ w.scope = .atBegin
    · -- It is saved again further on.
      obtain ⟨hsaved, pre, post, isNew, hstatements, hin⟩ := ih hrest hlater
        (b := one.blocks) (Declared.one_visible hvisible)
      refine ⟨List.mem_append_right _ hsaved, one.statements ++ pre, post, isNew, ?_, ?_, ?_,
        hin.after⟩
      · rw [Declared.all, hstatements, List.append_assoc]
      · rw [hin.isNew_iff, Declared.one_local (hnames v List.mem_cons_self x nesting),
          and_assoc, List.forall_mem_append]
      · intro s hs hmem
        rcases List.mem_append.mp hs with hs | hs
        · rcases Declared.one_targets hs hmem with ⟨hname, hhidden⟩ | ⟨hslot, -⟩
          · rw [← hname, hvisible] at hhidden
            cases hhidden
          · exact hxslot hslot
        · exact hin.before s hs hmem
    · -- It is saved here, and nothing after it sets its slot.
      obtain ⟨w, hw, hname, hscope⟩ := hx
      have hv : w = v := by
        rcases List.mem_cons.mp hw with rfl | hw
        · rfl
        · exact absurd ⟨w, hw, hname, hscope⟩ hlater
      subst hv hname
      obtain ⟨hsaved, hstatements⟩ := Declared.one_saves hnesting hscope hvisible
      refine ⟨List.mem_append_left _ (hsaved ▸ List.mem_singleton_self _), [],
        (Declared.all nesting one.blocks vs).statements, !b.isLocal (saveSlot w.name nesting),
        ?_, ?_,
        fun s hs => absurd hs List.not_mem_nil, ?_⟩
      · rw [Declared.all, hstatements]
        rfl
      · simp
      · intro s hs hmem
        obtain ⟨u, hu, h | ⟨hslot, hscope'⟩⟩ := Declared.all_targets hs hmem
        · exact hrest u hu _ _ h.symm
        · exact hlater ⟨u, hu, (saveSlot_inj hslot).1.symm, hscope'⟩

end Saving

/-! ### Restoring -/

/-- The slot of a saved variable holds the value that the variable had. -/
theorem SavesIn.value {b : Blocks} {x slot : Bytes} {pre post : List Statement} {isNew : Bool}
    (h : SavesIn b x slot pre post isNew) {m m' : Memory}
    (hrun : RunsAll (pre ++ .copy isNew slot x :: post) m m') : m' slot = m x := by
  obtain ⟨m₁, hpre, hcopy⟩ := hrun.append
  cases hcopy with
  | @cons _ _ _ m₂ _ head tail =>
    have hslot : m₂ slot = m₁ x := head.2
    rw [tail.keeps h.after, hslot, hpre.keeps h.before]

/-- A variable that is restored has the value that its slot has. -/
theorem RunsAll.restores {nesting : Nat} {names : List Bytes} {x : Bytes} {m m' : Memory}
    (hrun : RunsAll (restores nesting names) m m') (hx : x ∈ names)
    (hnames : saveSlot x nesting ∉ names) : m' x = m (saveSlot x nesting) := by
  induction names generalizing m with
  | nil => exact absurd hx List.not_mem_nil
  | cons y ys ih =>
    cases hrun with
    | @cons _ _ _ m₁ _ head tail =>
      obtain ⟨hkeep, hcopy⟩ := head
      have hslot : m₁ (saveSlot x nesting) = m (saveSlot x nesting) :=
        hkeep _ fun h => hnames (List.mem_cons.mpr (.inl (List.mem_singleton.mp h)))
      by_cases hlater : x ∈ ys
      · rw [ih tail hlater fun h => hnames (List.mem_cons_of_mem y h), hslot]
      · obtain rfl : x = y := by simpa [hlater] using hx
        rw [tail.keeps fun s hs => ?_]
        · exact hcopy
        · obtain ⟨z, hz, rfl⟩ := List.mem_map.mp hs
          exact fun h => hlater (List.mem_singleton.mp h ▸ hz)

/-! ### Invocations in place -/

/-- How an invocation in place saves the variable `x` in a slot before its closure and restores it
after that: nothing in the closure sets the slot, and the variable has its former value in the
end. -/
structure Restores (b : Blocks) (x slot : Bytes) (before : List Statement) (closure : Code)
    (after : List Statement) : Prop where
  saved : ∃ pre post isNew, before = pre ++ .copy isNew slot x :: post ∧
    SavesIn b x slot pre post isNew
  kept : closure.All fun s => s.IsRead ∧ slot ∉ s.targets
  restored : ∃ pre post, after = pre ++ .copy false x slot :: post ∧ ∀ s ∈ pre, slot ∉ s.targets
  value : ∀ m m₁ m₂ m₃ : Memory, RunsAll before m m₁ →
    (∀ y, (closure.All fun s => y ∉ s.targets) → m₂ y = m₁ y) → RunsAll after m₂ m₃ → m₃ x = m x

/-- A visit of a node: if the node is an invocation in place inside other tags, all variables that
it sets from its start on and that are visible where it opens are saved and restored. -/
def RestoresVariables (n : Node) (s t : State) : Prop :=
  ∀ tag, n.kind = .customTag → n.head.tag = some tag → isHoistable n.head tag = false →
    0 < tag.nesting → ∀ v ∈ tag.vars, v.scope = .atBegin →
    s.place.blocks.isVisible v.name = true →
    ∃ before run after,
      t.desk = (Code.part n.head.number
        (Code.lines before ++ (closureCode run ++ Code.lines after)) .nil).replay s.desk ∧
      Restores s.place.blocks v.name (saveSlot v.name tag.nesting) before (closureCode run) after

/-- No name that a page gives to a variable looks like a slot. -/
def Site.NoSlots (z : Site) : Prop := ∀ y, z.Names y → ∀ x i, y ≠ saveSlot x i

/-- Visits restore the variables that they save. -/
theorem visited_restoresVariables {z : Site} (hslots : z.NoSlots) :
    z.Visited RestoresVariables := by
  intro n level s t c hn hdesk hopens tag hk htag hinline hnesting v hv hscope hvisible
  have hmem : n ∈ z.root.subtree := by
    rcases hn with hn | hn
    · exact hn.mem
    · rcases hn.kind with h | h | h <;> exact absurd (hk.symm.trans h) (by decide)
  have hnames : ∀ w ∈ tag.vars, ∀ y i, w.name ≠ saveSlot y i := fun w hw =>
    hslots w.name ⟨n, hmem, .inl ⟨tag, htag, w, hw, rfl⟩⟩
  obtain ⟨d, names, r, -, rfl, -, hown⟩ := hopens hk tag htag hinline
  obtain ⟨hsaved, pre, post, isNew, hbefore, hsaves⟩ := Declared.all_saves hnesting hnames
    ⟨v, hv, rfl, hscope⟩ hvisible
  let saved := (Declared.all tag.nesting s.place.blocks tag.vars).saved
  let slot := saveSlot v.name tag.nesting
  have hkept : (closureCode r).All fun s => s.IsRead ∧ slot ∉ s.targets := by
    refine Code.All.mono (fun l hl => ⟨hl.read, fun hmem => ?_⟩) hown
    exact (hl.targets _ hmem).ne_saveSlot (Nat.lt_succ_self _) hslots rfl
  have hslot : ∀ y ∈ saved, slot ≠ y := by
    intro y hy he
    obtain ⟨w, hw, hname⟩ := Declared.saved_subset hy
    exact hnames w hw _ _ (hname.trans he.symm)
  refine ⟨_, r, restores tag.nesting saved, hdesk, ⟨pre, post, isNew, hbefore, hsaves⟩, hkept,
    ?_, ?_⟩
  · obtain ⟨ys, zs, hys⟩ := List.append_of_mem hsaved
    refine ⟨restores tag.nesting ys, restores tag.nesting zs, ?_, ?_⟩
    · simp only [saved, hys, restores, List.map_append, List.map_cons]
    · intro l hl hmem
      obtain ⟨y, hy, rfl⟩ := List.mem_map.mp hl
      have hin : y ∈ saved := by
        simp only [saved, hys]
        exact List.mem_append_left _ hy
      exact hslot y hin (List.mem_singleton.mp hmem)
  · intro m m₁ m₂ m₃ hrun hclosure hend
    have hkeep : m₂ slot = m₁ slot := hclosure slot (hkept.mono fun l hl => hl.2)
    rw [hend.restores hsaved fun hmem => hslot _ hmem rfl]
    exact hkeep.trans (hsaves.value (hbefore ▸ hrun))

/-- No scripting variable and no bean of a unit has a name that looks like a slot. -/
def HasNoSlots (root : Node) : Prop :=
  ∀ n ∈ root.subtree,
    (∀ tag, n.head.tag = some tag → ∀ v ∈ tag.vars, ∀ x i, v.name ≠ saveSlot x i) ∧
    (n.kind = .useBean → ∀ x i, n.head.attrValue "id" ≠ saveSlot x i)

theorem HasNoSlots.numbered {root : Node} (h : HasNoSlots root) (env : Env) :
    Site.NoSlots ⟨env, (root.numbered 1).1⟩ := by
  rintro y ⟨n, hn, hname⟩ x i
  obtain ⟨m, hm, hhead⟩ := Node.head_numbered 1 root n hn
  obtain ⟨hvars, hbeans⟩ := h m hm
  rcases hname with ⟨tag, htag, v, hv, rfl⟩ | ⟨hk, rfl⟩
  · rw [hhead] at htag
    exact hvars tag htag v hv x i
  · have hkind : m.kind = .useBean := by
      have hk : n.head.kind = .useBean := hk
      rwa [hhead] at hk
    rw [hhead]
    exact hbeans hkind x i

/-- **Tags inside others leave the variables of a page as they were.** In the generation of a
validated unit in which no name looks like a slot, every invocation in place inside other tags saves
each variable that it sets from its start on and that is visible where it opens: in a slot of its
level, which it declares if the block does not have it yet. Nothing that is written for what is
inside sets the slot, and the variable has its former value in the end. -/
theorem visits_restore {σ : Type} (library : Option (Bytes → σ → Except Fault TagLibrary × σ))
    (options : ValidationOptions) (memory : σ) (generation : Options) {root : Node}
    (hroot : root.IsUnit) (hvalid : (root.validate library options memory).failure = none)
    (hslots : HasNoSlots (root.validate library options memory).tree) :
    EveryVisit generation (root.validate library options memory).tree RestoresVariables := by
  intro u page _ _ env tree t ht
  have hvisited := visited_restoresVariables (hslots.numbered env)
  exact (writes_unitBody hroot hvalid env hvisited () t ht).1

/-- A tag that sets the variable `x` from its start on. -/
def settingTag (children : List Node) : Node :=
  let d : TagDescriptor := { vars := [{ given := "x", scope := .atBegin }] }
  .mk { kind := .customTag, tag := some ⟨"t", "set", "urn:t", some d, false, 0, [], {}, {}⟩ }
    children

/-- A page with such a tag inside another one. -/
def nestedSetting : Node :=
  .mk { kind := .root, unit := some ⟨"/a.jsp", false, false, [], none⟩ }
    [settingTag [settingTag []]]

theorem isParsed_settingTag {children : List Node} (h : Node.AllParsed children) :
    (settingTag children).IsParsed :=
  Head.IsOpen.node ⟨⟨by simp, by simp, fun _ => rfl⟩, rfl⟩ h

theorem visits_restore_nested : nestedSetting.IsUnit ∧
    (nestedSetting.validate (σ := Unit) none {} ()).failure = none ∧
    HasNoSlots (nestedSetting.validate (σ := Unit) none {} ()).tree ∧
    EveryVisit {} (nestedSetting.validate (σ := Unit) none {} ()).tree RestoresVariables := by
  have hunit : nestedSetting.IsUnit := ⟨rfl, rfl, Node.allParsed_nil.push
    (isParsed_settingTag (Node.allParsed_nil.push (isParsed_settingTag Node.allParsed_nil)))⟩
  have hvalid : (nestedSetting.validate (σ := Unit) none {} ()).failure = none := rfl
  have hslots : HasNoSlots (nestedSetting.validate (σ := Unit) none {} ()).tree := by
    have hnames : (nestedSetting.validate (σ := Unit) none {} ()).tree.subtree.all (fun n =>
        n.kind != .useBean && n.head.tag.all fun tag => tag.vars.all (·.name == "x")) = true := rfl
    have hx : ∀ y i, (Bytes.ofString "x") ≠ saveSlot y i := by
      intro y i he
      rw [saveSlot_eq] at he
      cases he
    intro n hn
    have hchecked := List.all_eq_true.mp hnames n hn
    rw [Bool.and_eq_true, bne_iff_ne, Option.all_eq_true] at hchecked
    refine ⟨fun tag htag v hv => ?_, fun hk => absurd hk hchecked.1⟩
    have hname := List.all_eq_true.mp (hchecked.2 tag htag) v hv
    exact eq_of_beq hname ▸ hx
  exact ⟨hunit, hvalid, hslots, visits_restore none {} () {} hunit hvalid hslots⟩

end ServerPages.Generation
