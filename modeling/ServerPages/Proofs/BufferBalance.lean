import ServerPages.Proofs.AnnotatedLines
import ServerPages.Proofs.TagPrograms

/-!
# Buffers of tags

A classic tag may have its body buffered: a buffer is pushed before the body and popped after it,
and a variable counts the buffers that are pushed and not popped yet. If the tag is left early the
deferred statements pop as many as the variable says.

The variable and the one that holds what the tag asked for are named after the tag and its number.
Nothing keeps a scripting variable from having such a name, and then it may change what is popped.

## Main results

* `classicProgram_isBalanced`: every execution of a tag pops as many buffers as it pushes, if none
  of its scripting variables is named like these two.
* `buffers_balanced`: the same of every buffered tag in the file of a unit.
* `buffers_unbalanced`: a tag whose scripting variable is named like its counter pops more.
-/

namespace ServerPages.Generation

/-! ### Names -/

section Names

variable {t : CustomTag} {names : HandlerNames} {id : Nat}

theorem IsNamed.push_ne_eval (h : IsNamed t names id) : names.push ≠ names.eval := by
  rw [h.push, h.eval]
  intro he
  cases he

theorem IsNamed.push_ne_err (h : IsNamed t names id) : names.push ≠ "err" := by
  rw [h.push]
  intro he
  cases he

theorem IsNamed.eval_ne_err (h : IsNamed t names id) : names.eval ≠ "err" := by
  rw [h.eval]
  intro he
  cases he

theorem IsNamed.push_ne_again (h : IsNamed t names id) : names.push ≠ againName names := by
  rw [againName_eq h, h.push]
  intro he
  cases he

theorem IsNamed.eval_ne_again (h : IsNamed t names id) : names.eval ≠ againName names := by
  rw [againName_eq h, h.eval]
  intro he
  cases he

end Names

/-- No scripting variable of a tag is named like its counter of buffers or like the variable that
holds what it asked for. -/
def HasNoClash (t : CustomTag) (names : HandlerNames) : Prop :=
  ∀ v ∈ t.vars, v.name ≠ names.push ∧ v.name ≠ names.eval

/-- A statement gives neither of these two variables a value. -/
def Statement.Spares (s : Statement) (names : HandlerNames) : Prop :=
  names.push ∉ s.targets ∧ names.eval ∉ s.targets

section Spares

variable {t : CustomTag} {names : HandlerNames} {id : Nat} {s : Statement}

theorem IsNamed.spares_control (h : IsNamed t names id) (text : Bytes) :
    (Statement.control text).Spares names :=
  ⟨fun hmem => h.push_ne_err (List.mem_singleton.mp hmem),
    fun hmem => h.eval_ne_err (List.mem_singleton.mp hmem)⟩

theorem IsNamed.spares_again (h : IsNamed t names id) (value : Bytes) :
    (Statement.define [againName names, "err"] value).Spares names := by
  constructor
  · intro hmem
    rcases List.mem_cons.mp hmem with he | hmem
    · exact h.push_ne_again he
    · exact h.push_ne_err (List.mem_singleton.mp hmem)
  · intro hmem
    rcases List.mem_cons.mp hmem with he | hmem
    · exact h.eval_ne_again he
    · exact h.eval_ne_err (List.mem_singleton.mp hmem)

theorem HasNoClash.spares_syncs (h : HasNoClash t names) (scopes : List VariableScope) :
    ∀ s ∈ syncs t scopes, s.Spares names := by
  intro s hs
  obtain ⟨v, hv, rfl⟩ := List.mem_map.mp hs
  obtain ⟨hpush, heval⟩ := h v (List.mem_filter.mp hv).1
  exact ⟨fun hmem => hpush (List.mem_singleton.mp hmem).symm,
    fun hmem => heval (List.mem_singleton.mp hmem).symm⟩

theorem spares_nestedSyncs {vs : List VariableBinding}
    (h : ∀ v ∈ vs, v.name ≠ names.push ∧ v.name ≠ names.eval) (b : Blocks) :
    ∀ s ∈ nestedSyncs b vs, s.Spares names := by
  induction vs generalizing b with
  | nil => exact fun s hs => absurd hs List.not_mem_nil
  | cons v vs ih =>
    obtain ⟨⟨hpush, heval⟩, hrest⟩ := List.forall_mem_cons.mp h
    have hset : ∀ s : Statement, s.targets = [v.name] → s.Spares names := by
      intro s hs
      rw [Statement.Spares, hs]
      exact ⟨fun hmem => hpush (List.mem_singleton.mp hmem).symm,
        fun hmem => heval (List.mem_singleton.mp hmem).symm⟩
    intro s hs
    unfold nestedSyncs at hs
    split at hs
    · rcases List.mem_cons.mp hs with rfl | hs
      · exact hset _ rfl
      rcases List.mem_cons.mp hs with rfl | hs
      · exact ⟨List.not_mem_nil, List.not_mem_nil⟩
      · exact ih hrest _ s hs
    · rcases List.mem_cons.mp hs with rfl | hs
      · exact hset _ rfl
      · exact ih hrest _ s hs

/-- What the generator writes into a body outside of the code of nodes computes values only. -/
theorem IsNamed.spares_computes (h : IsNamed t names id) (hs : s.Computes) : s.Spares names := by
  cases hs with
  | control text => exact h.spares_control text
  | value i value =>
    constructor
    · intro hmem
      rcases List.mem_cons.mp hmem with he | hmem
      · rw [h.push] at he
        cases he
      · exact h.push_ne_err (List.mem_singleton.mp hmem)
    · intro hmem
      rcases List.mem_cons.mp hmem with he | hmem
      · rw [h.eval] at he
        cases he
      · exact h.eval_ne_err (List.mem_singleton.mp hmem)

theorem IsNamed.spares_passes (h : IsNamed t names id) {handler : Bytes} {as : List Attribute}
    (hs : s.Passes handler as) : s.Spares names := by
  cases hs with
  | computes hs => exact h.spares_computes hs
  | setter ha value => exact ⟨List.not_mem_nil, List.not_mem_nil⟩

end Spares

/-! ### What holds while a tag runs -/

/-- So many buffers are pushed and not popped yet, and the counter says so. -/
def Owes (names : HandlerNames) (k : Nat) (s : Machine) : Prop :=
  s.memory names.push = .number k ∧ s.pushed = s.popped + k

/-- The counter says how many buffers are pushed and not popped yet. -/
def IsCounted (names : HandlerNames) (s : Machine) : Prop := ∃ k, Owes names k s

/-- In the body one buffer is pushed and not popped yet if the tag asked for that, else none. -/
structure IsInside (runtime : Bytes → Value) (names : HandlerNames) (s : Machine) : Prop where
  buffered : s.memory names.eval = runtime "EvalBodyBuffered" → Owes names 1 s
  direct : s.memory names.eval ≠ runtime "EvalBodyBuffered" → Owes names 0 s

/-- All buffers are popped. -/
def IsSettled (s : Machine) : Prop := s.popped = s.pushed

section Balance

variable {env : Env} {t : CustomTag} {d : TagDescriptor} {names : HandlerNames} {id : Nat}
  {runtime : Bytes → Value} {kept : Bytes → Prop} {k : Nat} {s : Machine} {m : Memory}
  {plan : BodyPlan}

theorem Owes.of_eq (h : Owes names k s) (hm : m names.push = s.memory names.push) :
    Owes names k { s with memory := m } := ⟨hm.trans h.1, h.2⟩

theorem IsInside.of_eq (h : IsInside runtime names s) (hpush : m names.push = s.memory names.push)
    (heval : m names.eval = s.memory names.eval) :
    IsInside runtime names { s with memory := m } :=
  ⟨fun he => (h.buffered (heval.symm.trans he)).of_eq hpush,
    fun he => (h.direct fun he' => he (heval.trans he')).of_eq hpush⟩

theorem IsInside.counted (h : IsInside runtime names s) : IsCounted names s := by
  by_cases he : s.memory names.eval = runtime "EvalBodyBuffered"
  · exact ⟨1, h.buffered he⟩
  · exact ⟨0, h.direct he⟩

theorem keeps_owes {u : Statement} (h : names.push ∉ u.targets) : u.Keeps (Owes names k) :=
  fun _ _ hs hrun => hs.of_eq (hrun.1 _ h)

theorem Statement.Spares.keeps_isInside {u : Statement} (h : u.Spares names) :
    u.Keeps (IsInside runtime names) :=
  fun _ _ hs hrun => hs.of_eq (hrun.1 _ h.1) (hrun.1 _ h.2)

/-- A statement leaves the numbers of pushes and pops as they are. -/
theorem keeps_isSettled (u : Statement) : u.Keeps IsSettled := fun _ _ hs _ => hs

/-- The deferred statements pop the buffers that are left, and then none. -/
theorem ensures_releaseProgram :
    Ensures runtime kept (IsCounted names) (releaseProgram env d names true)
      fun _ => IsSettled := by
  have hfinish : Ensures runtime kept IsSettled (finishProgram env d names)
      fun _ => IsSettled := by
    have hrelease : Ensures runtime kept IsSettled
        (.line (releaseStatement env names) .done) fun _ => IsSettled :=
      .keep (keeps_isSettled _) (.done fun _ hs => hs)
    unfold finishProgram
    split
    · refine .cond ?_ (fun _ hs _ => hs) (.keep (keeps_isSettled _) hrelease)
      exact .line (fun s m hs hrun => keeps_isSettled _ s m hs.1 hrun) (.done fun _ hs => hs)
    · exact hrelease
  rw [releaseProgram, if_pos rfl]
  refine .drain (fun n hn => ?_) (hfinish.mono ?_ fun _ _ hs => hs)
  · -- One buffer less is owed after a round, and the counter says so after the count.
    refine .pop (R := fun s => s.memory names.push = .number n ∧ s.pushed + 1 = s.popped + n) ?_ ?_
    · rintro s ⟨⟨k, hk, hpushed⟩, hcount⟩
      have hkn : (k : Int) = n := Value.number.inj (hk.symm.trans hcount)
      exact ⟨hcount, by dsimp only; omega⟩
    · refine .done fun s ⟨hcount, hpushed⟩ => ⟨rfl, fun m hrun => ?_⟩
      have hstep : m names.push = .number (n + -1) := by
        have := hrun.2
        dsimp only [Statement.counted] at this
        rwa [hcount] at this
      refine ⟨(n - 1).toNat, hstep.trans (congrArg Value.number ?_), ?_⟩
      · omega
      · dsimp only
        omega
  · rintro s ⟨⟨k, hk, hpushed⟩, hle⟩
    have hzero := hle _ hk
    rw [IsSettled]
    omega

/-- The statements from the end call on leave the counter as it is. -/
theorem ensures_endProgram (hnames : IsNamed t names id) (hclash : HasNoClash t names) :
    Ensures runtime kept (Owes names 0) (endProgram t names) fun _ => IsCounted names := by
  have hleft : ∀ s, Owes names 0 s → IsCounted names s := fun s hs => ⟨0, hs⟩
  have hcontrol : ∀ text, (Statement.control text).Keeps (Owes names 0) :=
    fun text => keeps_owes (hnames.spares_control text).1
  have hend : (Statement.assign [names.eval, "err"] (names.handler ++ ".DoEndTag()")).Keeps
      (Owes names 0) := by
    refine keeps_owes fun hmem => ?_
    rcases List.mem_cons.mp hmem with he | hmem
    · exact hnames.push_ne_eval he
    · exact hnames.push_ne_err (List.mem_singleton.mp hmem)
  refine .keep hend (.guard (hcontrol _) hleft (.lines ?_
    (.cond ?_ ?_ (.leave (hcontrol _) hleft))))
  · exact fun u hu => keeps_owes (hclash.spares_syncs _ u hu).1
  · exact (Ensures.leave (hcontrol _) hleft).mono (fun s hs => hs.1) fun _ _ hs => hs
  · exact fun s hs _ => hs

/-- One evaluation of the body leaves the counter and what the tag asked for as they are. -/
theorem ensures_roundProgram {Q : Ending → Machine → Prop} {rest : Program} (blocks : Blocks)
    (body : Code) (repeated : Bool) (hnames : IsNamed t names id) (hclash : HasNoClash t names)
    (hkept : kept names.push ∧ kept names.eval)
    (hQ : ∀ e s, e ≠ .done → IsInside runtime names s → Q e s)
    (hrest : Ensures runtime kept (IsInside runtime names) rest Q) :
    Ensures runtime kept (IsInside runtime names)
      (roundProgram t names blocks body repeated rest) Q := by
  have hnested : ∀ u ∈ nestedSyncs blocks (t.vars.filter (·.scope == .nested)), u.Spares names :=
    spares_nestedSyncs (fun v hv => hclash v (List.mem_filter.mp hv).1) blocks
  refine .lines (fun u hu => (hnested u hu).keeps_isInside)
    (.lines (fun u hu => (hclash.spares_syncs _ u hu).keeps_isInside) ?_)
  refine .page (fun s m hs hm => hs.of_eq (hm _ hkept.1) (hm _ hkept.2))
    (fun e s hs he => hQ e s he hs) ?_
  have hleft : ∀ s, IsInside runtime names s → Q .left s := fun s => hQ .left s (by decide)
  split
  · refine .keep (hnames.spares_again _).keeps_isInside (.guard
      (hnames.spares_control _).keeps_isInside hleft (.cond ?_ (fun s hs _ => hs) hrest))
    exact .stop fun s hs => hQ .broken s (by decide) hs.1
  · exact hrest

/-- The statements after the last evaluation pop what was pushed for the body. -/
theorem ensures_closeProgram :
    Ensures runtime kept (IsInside runtime names) (closeProgram names true)
      (before (Owes names 0) fun _ => IsCounted names) := by
  rw [closeProgram, if_pos rfl]
  refine .cond (R := Owes names 0) ?_ ?_ (.done fun s hs => hs)
  · refine .pop (R := fun s => s.memory names.push = .number 1 ∧ s.pushed = s.popped) ?_ ?_
    · rintro s ⟨hs, htest⟩
      obtain ⟨hone, hpushed⟩ := hs.buffered (of_decide_eq_true htest.symm)
      exact ⟨hone, hpushed⟩
    · refine .line (R := Owes names 0) ?_ (.done fun s hs => hs)
      rintro s m ⟨hone, hpushed⟩ hrun
      have hstep := hrun.2
      dsimp only [Statement.counted] at hstep
      rw [hone] at hstep
      exact ⟨hstep, hpushed⟩
  · exact fun s hs htest => hs.direct (of_decide_eq_false htest.symm)

/-- The evaluations of the body, and the statements that pop its buffer. -/
theorem ensures_roundsProgram (blocks : Blocks) (body : Code) (hbuffered : plan.buffered = true)
    (hnames : IsNamed t names id) (hclash : HasNoClash t names)
    (hkept : kept names.push ∧ kept names.eval) :
    Ensures runtime kept (IsInside runtime names) (roundsProgram t names plan blocks body)
      (before (Owes names 0) fun _ => IsCounted names) := by
  have hclose : Ensures runtime kept (IsInside runtime names) (closeProgram names true)
      (before (Owes names 0) fun _ => IsCounted names) := ensures_closeProgram
  rw [roundsProgram, hbuffered]
  split
  · refine .loop (R := IsInside runtime names) ?_ hclose
    have hround := ensures_roundProgram (Q := fun _ => IsInside runtime names) blocks body true
      hnames hclash hkept (fun _ _ _ hs => hs) (.done fun _ hs => hs)
    exact hround.mono (fun _ hs => hs) fun e s hs => ⟨fun _ => hs, fun _ => hs, fun _ => hs.counted⟩
  · exact ensures_roundProgram blocks body false hnames hclash hkept
      (fun e s he hs => (before_of_ne he).mpr hs.counted) hclose

/-- The body of a tag, for which a buffer is pushed if the tag asks for that. -/
theorem ensures_bodyProgram {rest : Program} (blocks : Blocks) (body : Code)
    (hbuffered : plan.buffered = true) (hnames : IsNamed t names id) (hclash : HasNoClash t names)
    (hkept : kept names.push ∧ kept names.eval)
    (hrest : Ensures runtime kept (Owes names 0) rest fun _ => IsCounted names) :
    Ensures runtime kept (Owes names 0) (bodyProgram t names plan blocks body rest)
      fun _ => IsCounted names := by
  have hrounds : Ensures runtime kept (IsInside runtime names)
      (roundsProgram t names plan blocks body)
      (before (Owes names 0) fun _ => IsCounted names) :=
    ensures_roundsProgram blocks body hbuffered hnames hclash hkept
  rw [bodyProgram, hbuffered, if_pos rfl]
  refine .cond (R := Owes names 0) ?_ (fun s hs _ => hs) hrest
  refine .cond (R := IsInside runtime names) ?_ ?_ hrounds
  · -- A buffer is pushed and counted; then the handler may still fail.
    refine .push (R := fun s => s.memory names.eval = runtime "EvalBodyBuffered" ∧
      s.memory names.push = .number 0 ∧ s.pushed = s.popped + 1) ?_ ?_
    · rintro s ⟨⟨⟨hzero, hpushed⟩, -⟩, htest⟩
      exact ⟨of_decide_eq_true htest.symm, hzero, by dsimp only; omega⟩
    refine .line (R := IsInside runtime names) ?_ (.guard ?_ ?_ (.done fun s hs => hs))
    · rintro s m ⟨heval, hzero, hpushed⟩ hrun
      have hstep := hrun.2
      dsimp only [Statement.counted] at hstep
      rw [hzero] at hstep
      have hsame : m names.eval = s.memory names.eval :=
        hrun.1 _ fun hmem => hnames.push_ne_eval (List.mem_singleton.mp hmem).symm
      exact ⟨fun _ => ⟨hstep, hpushed⟩, fun hne => absurd (hsame.trans heval) hne⟩
    · exact (hnames.spares_control _).keeps_isInside
    · exact fun s hs => hs.counted
  · rintro s ⟨hs, -⟩ htest
    have hne : s.memory names.eval ≠ runtime "EvalBodyBuffered" := of_decide_eq_false htest.symm
    exact ⟨fun he => absurd he hne, fun _ => hs⟩

/-- The statements of a tag from its start call on. -/
theorem ensures_callsProgram (blocks : Blocks) (body : Code) (hbuffered : plan.buffered = true)
    (hnames : IsNamed t names id) (hclash : HasNoClash t names)
    (hkept : kept names.push ∧ kept names.eval) :
    Ensures runtime kept (Owes names 0) (callsProgram t names plan blocks body)
      fun _ => IsCounted names := by
  have hstart : (Statement.define [names.eval, "err"] (names.handler ++ ".DoStartTag()")).Keeps
      (Owes names 0) := by
    refine keeps_owes fun hmem => ?_
    rcases List.mem_cons.mp hmem with he | hmem
    · exact hnames.push_ne_eval he
    · exact hnames.push_ne_err (List.mem_singleton.mp hmem)
  have hend : Ensures runtime kept (Owes names 0) (endProgram t names)
      fun _ => IsCounted names := ensures_endProgram hnames hclash
  refine .keep hstart (.guard (keeps_owes (hnames.spares_control _).1) (fun s hs => ⟨0, hs⟩)
    (.lines (fun u hu => keeps_owes (hclash.spares_syncs _ u hu).1) ?_))
  split
  · exact ensures_bodyProgram blocks body hbuffered hnames hclash hkept hend
  · exact hend

/-- Every execution of a buffered classic tag pops as many buffers as it pushes, however it ends. -/
theorem classicProgram_isBalanced (type parent : Bytes) (blocks : Blocks) (attributes body : Code)
    (hbuffered : plan.buffered = true) (hnames : IsNamed t names id)
    (hclash : HasNoClash t names) (hkept : kept names.push ∧ kept names.eval) :
    (classicProgram env t d names plan type parent blocks attributes body).IsBalanced kept := by
  intro runtime m e s hrun
  have hcalls : Ensures runtime kept (Owes names 0) (callsProgram t names plan blocks body)
      fun _ => IsCounted names := ensures_callsProgram blocks body hbuffered hnames hclash hkept
  have hensures : Ensures runtime kept IsSettled
      (classicProgram env t d names plan type parent blocks attributes body)
      fun _ => IsSettled := by
    rw [classicProgram, hbuffered]
    refine .keep (keeps_isSettled _) (.keep (keeps_isSettled _) (.keep (keeps_isSettled _) ?_))
    refine .line (R := Owes names 0) (fun s m hs hrun => ⟨hrun.2, hs.symm⟩) ?_
    refine .deferred (R := IsCounted names) ?_ ensures_releaseProgram
    exact .page (fun s m hs hm => hs.of_eq (hm _ hkept.1)) (fun e s hs _ => ⟨0, hs⟩) hcalls
  exact hensures ⟨m, 0, 0⟩ e s rfl hrun

end Balance

/-! ### Tags of a unit -/

/-- The program of a classic tag, with any code that passes attributes to its handler and any code
of its body. -/
inductive IsClassicRun (env : Env) (n : Node) (t : CustomTag) (d : TagDescriptor)
    (names : HandlerNames) : Program → Prop where
  | mk (type parent : Bytes) (blocks : Blocks) {attributes body : Code}
    (hattributes : attributes.Surface (Statement.Passes names.handler n.head.attributes))
    (hbody : body.Surface Statement.Computes) :
    IsClassicRun env n t d names
      (classicProgram env t d names (bodyPlan d n) type parent blocks attributes body)

/-- The code of a program that runs a tag: a closure in place, or a method. -/
inductive IsPlaced (env : Env) (n : Node) (t : CustomTag) (p : Program) : Code → Prop where
  | inline (blocks : Blocks) (h : isHoistable n.head t = false) :
    IsPlaced env n t p (inlineCode t blocks p.code)
  | hoisted (name : Bytes) (h : isHoistable n.head t = true) :
    IsPlaced env n t p (methodCode env name p.code)

section Unit

variable {env : Env} {n : Node} {t : CustomTag} {d : TagDescriptor} {names : HandlerNames}
  {id : Nat}

/-- The code of a classic tag is that of a program. -/
theorem IsTagCode.classic {c : Code} (h : IsTagCode env n c) (ht : n.head.tag = some t)
    (hd : t.descriptor = some d) (hclassic : d.isClassic = true) :
    ∃ names id p, IsNamed t names id ∧ IsClassicRun env n t d names p ∧ IsPlaced env n t p c := by
  have hrun : ∀ {names : HandlerNames} {run : Code}, IsRun env n t d names run →
      ∃ p, IsClassicRun env n t d names p ∧ run = p.code := by
    intro names run hrun
    cases hrun with
    | classic _ type parent blocks hattributes hbody =>
      exact ⟨_, .mk type parent blocks hattributes hbody, rfl⟩
    | simple hsimple =>
      rw [hclassic] at hsimple
      cases hsimple
  cases h with
  | inline blocks ht' hd' hnames hrun' hplace =>
    obtain rfl := Option.some.inj (ht.symm.trans ht')
    obtain rfl := Option.some.inj (hd.symm.trans hd')
    obtain ⟨p, hp, rfl⟩ := hrun hrun'
    exact ⟨_, _, p, hnames, hp, .inline blocks hplace⟩
  | hoisted name ht' hd' hnames hrun' hplace =>
    obtain rfl := Option.some.inj (ht.symm.trans ht')
    obtain rfl := Option.some.inj (hd.symm.trans hd')
    obtain ⟨p, hp, rfl⟩ := hrun hrun'
    exact ⟨_, _, p, hnames, hp, .hoisted name hplace⟩

/-- What the generator itself writes to the attributes and the body of a tag spares the variables of
the tag. -/
theorem IsClassicRun.spares {p : Program} (h : IsClassicRun env n t d names p)
    (hnames : IsNamed t names id) : ∀ c ∈ p.pages, c.Surface (Statement.Spares · names) := by
  obtain ⟨type, parent, blocks, hattributes, hbody⟩ := h
  intro c hc
  rw [pages_classicProgram] at hc
  rcases List.mem_cons.mp hc with rfl | hc
  · exact hattributes.mono fun s hs => hnames.spares_passes hs
  · split at hc
    · obtain rfl := List.mem_singleton.mp hc
      exact hbody.mono fun s hs => hnames.spares_computes hs
    · exact absurd hc List.not_mem_nil

/-- Every execution of a classic tag of a page is balanced if its body is buffered. -/
theorem IsClassicRun.isBalanced {p : Program} (h : IsClassicRun env n t d names p)
    (hbuffered : (bodyPlan d n).buffered = true) (hnames : IsNamed t names id)
    (hclash : HasNoClash t names) : p.IsBalanced (· ∈ [names.push, names.eval]) := by
  obtain ⟨type, parent, blocks, hattributes, hbody⟩ := h
  exact classicProgram_isBalanced type parent blocks _ _ hbuffered hnames hclash
    ⟨List.mem_cons_self, List.mem_cons_of_mem _ List.mem_cons_self⟩

end Unit

/-- What is said of a classic tag in the file of a unit: it runs a program, whose code stands on its
lines. The generator writes nothing in its attributes and its body that changes the variables kept
for its buffers, and if no scripting variable is named like these, all executions are balanced. -/
def RunsBalanced (env : Env) (source : Bytes) (lines : LineSpan) (n : Node) (t : CustomTag)
    (d : TagDescriptor) : Prop :=
  ∃ names id p c i, IsNamed t names id ∧ IsClassicRun env n t d names p ∧ IsPlaced env n t p c ∧
    IsLines source lines (c.layout i .out).text ∧
    (∀ b ∈ p.pages, b.Surface (Statement.Spares · names)) ∧
    (HasNoClash t names → p.IsBalanced (· ∈ [names.push, names.eval]))

theorem bodyPlan_mapHeads (s : State) (d : TagDescriptor) (n : Node) :
    bodyPlan d (n.mapHeads (annotate s)) = bodyPlan d n := by
  have hempty : (n.mapHeads (annotate s)).hasEmptyBody = n.hasEmptyBody :=
    Node.hasEmptyBody_mapHeads (f := annotate s) (fun _ => rfl) (fun _ => rfl) n
  rw [bodyPlan, hempty, bodyPlan]

/-- Noting the lines of a node and the identifiers of its tag does not change what its code is. -/
theorem RunsBalanced.annotate {env : Env} {source : Bytes} {lines : LineSpan} {n : Node}
    {t : CustomTag} {d : TagDescriptor} (h : RunsBalanced env source lines n t d) (s : State)
    (chosen : HandlerNames) : RunsBalanced env source lines (n.mapHeads (annotate s))
      { t with names := chosen } d := by
  obtain ⟨names, id, p, c, i, hnames, hp, hplaced, hlines, hspares, hbalanced⟩ := h
  refine ⟨names, id, p, c, i, ⟨hnames.handler, hnames.eval, hnames.push⟩, ?_, ?_, hlines, hspares,
    hbalanced⟩
  · obtain ⟨type, parent, blocks, hattributes, hbody⟩ := hp
    rw [← bodyPlan_mapHeads s d n]
    refine .mk type parent blocks ?_ hbody
    rw [Node.head_mapHeads]
    exact hattributes
  · cases hplaced with
    | inline blocks hplace =>
      refine .inline (t := { t with names := chosen }) blocks ?_
      rw [Node.head_mapHeads]
      exact hplace
    | hoisted name hplace =>
      refine .hoisted name ?_
      rw [Node.head_mapHeads]
      exact hplace

/-- **Tags pop the buffers that they push.** If the code of a validated unit is generated, the lines
of every classic tag whose body may be buffered are those of a program of which every execution pops
as many buffers as it pushes: the body may be skipped, run once or many times, and any call and the
body itself may end it early. What is inside the tag may do anything but to change the two variables
kept for the buffers of the tag; no scripting variable of the tag may be named like one of these. -/
theorem buffers_balanced {σ : Type} (library : Option (Bytes → σ → Except Fault TagLibrary × σ))
    (options : ValidationOptions) (memory : σ) (generation : Options) {root : Node}
    (hroot : root.IsUnit) (hvalid : (root.validate library options memory).failure = none)
    {code : GeneratedUnit}
    (hgen : (root.validate library options memory).tree.generate generation = .ok code) :
    let v := (root.validate library options memory).tree
    ∃ u page, v.head.unit = some u ∧ v.page? = some page ∧
      ∀ n ∈ code.tree.subtree, n.kind = .customTag → 0 < n.head.lines.first →
        ∃ t d, n.head.tag = some t ∧ t.descriptor = some d ∧
          (d.isClassic = true → (bodyPlan d n).buffered = true →
            RunsBalanced ⟨generation, u.file, page⟩ code.source n.head.lines n t d) := by
  intro v
  obtain ⟨u, page, hu, hpage, s, w, F, -, hfile⟩ := generate_layout hroot hvalid hgen
  refine ⟨u, page, hu, hpage, fun n hn hkind hfirst => ?_⟩
  rw [hfile.tree, Node.subtree_mapHeads] at hn
  obtain ⟨m, hm, rfl⟩ := List.mem_map.mp hn
  have hhead : (m.mapHeads (annotate w)).head = annotate w m.head := Node.head_mapHeads _ m
  have hlines : (m.mapHeads (annotate w)).head.lines = w.spans.get m.head.number :=
    congrArg Head.lines hhead
  have hmkind : m.kind = .customTag := (congrArg Head.kind hhead).symm.trans hkind
  rw [hlines] at hfirst ⊢
  obtain ⟨c, i, hcode, hstands⟩ := hfile.lines rfl hm hfirst
  rw [IsCodeOf, hmkind] at hcode
  have htag : ∃ t d, m.head.tag = some t ∧ t.descriptor = some d := by
    cases hcode with
    | inline blocks ht hd => exact ⟨_, _, ht, hd⟩
    | hoisted name ht hd => exact ⟨_, _, ht, hd⟩
  obtain ⟨t, d, ht, hd⟩ := htag
  have hnoted : (m.mapHeads (annotate w)).head.tag =
      some { t with names := (w.names.lookup m.head.number).getD {} } := by
    rw [hhead, annotate, ht]
    rfl
  refine ⟨_, d, hnoted, hd, fun hclassic hbuffered => ?_⟩
  rw [bodyPlan_mapHeads] at hbuffered
  obtain ⟨names, id, p, hnames, hp, hplaced⟩ := hcode.classic ht hd hclassic
  have hruns : RunsBalanced ⟨generation, u.file, page⟩ code.source
      (w.spans.get m.head.number) m t d :=
    ⟨names, id, p, c, i, hnames, hp, hplaced, hstands, hp.spares hnames,
      hp.isBalanced hbuffered hnames⟩
  exact hruns.annotate w _

/-- A tag whose body may be buffered, with the variables that it sets from its start on. -/
def bufferedTag (vars : List VariableDeclaration) : Node :=
  let d : TagDescriptor := { typeName := "X", bufferedBody := true, vars := vars }
  .mk { kind := .customTag, tag := some ⟨"t", "x", "urn:t", some d, false, 0, [], {}, {}⟩ }
    [.leaf { kind := .text, text := "a" }]

/-- A page of such a tag. -/
def bufferedPage (vars : List VariableDeclaration) : Node :=
  .mk { kind := .root, unit := some ⟨"/a.jsp", false, false, [], none⟩ } [bufferedTag vars]

theorem bufferedPage_isUnit (vars : List VariableDeclaration) : (bufferedPage vars).IsUnit := by
  have htext : Node.AllParsed [.leaf { kind := .text, text := "a" }] :=
    List.forall_mem_singleton.mpr (Node.IsParsed.of_leaf rfl rfl)
  refine ⟨rfl, rfl, List.forall_mem_singleton.mpr ?_⟩
  exact Head.IsOpen.node ⟨⟨by simp, by simp, fun _ => rfl⟩, rfl⟩ htext

/-- A page of such a tag that sets the variable `x`. -/
def settingPage : Node := bufferedPage [{ given := "x" }]

/-- Whether a node is a classic tag with lines whose body may be buffered and whose scripting
variables have some names. -/
def isBuffered (names : List Bytes) (n : Node) : Bool :=
  n.kind == .customTag && n.head.lines.first != 0 && n.head.tag.any fun t =>
    t.vars.map (·.name) == names &&
      t.descriptor.any fun d => d.isClassic && (bodyPlan d n).buffered

theorem buffers_balanced_page : settingPage.IsUnit ∧
    (settingPage.validate (σ := Unit) none {} ()).failure = none ∧
    ∃ code, (settingPage.validate (σ := Unit) none {} ()).tree.generate {} = .ok code ∧
      ∃ n ∈ code.tree.subtree, ∃ env t d names id p c i, IsNamed t names id ∧
        IsClassicRun env n t d names p ∧ IsPlaced env n t p c ∧
        IsLines code.source n.head.lines (c.layout i .out).text ∧
        p.IsBalanced (· ∈ [names.push, names.eval]) := by
  have hunit : settingPage.IsUnit := bufferedPage_isUnit _
  have hvalid : (settingPage.validate (σ := Unit) none {} ()).failure = none := rfl
  have hsome : ((settingPage.validate (σ := Unit) none {} ()).tree.generate {}).toOption.any
      (fun code => code.tree.subtree.any (isBuffered ["x"])) = true := by decide +kernel
  obtain ⟨code, hgen, hany⟩ := exists_ok_of_any hsome
  obtain ⟨u, page, -, -, hall⟩ := buffers_balanced none {} () {} hunit hvalid hgen
  obtain ⟨n, hn, hbuffered⟩ := List.any_eq_true.mp hany
  simp only [isBuffered, Bool.and_eq_true, beq_iff_eq, bne_iff_ne, Option.any_eq_true] at hbuffered
  obtain ⟨⟨hkind, hfirst⟩, t', ht', hvars, d', hd', hclassic, hplan⟩ := hbuffered
  obtain ⟨t, d, ht, hd, hruns⟩ := hall n hn hkind (Nat.pos_of_ne_zero hfirst)
  obtain rfl : t' = t := Option.some.inj (ht'.symm.trans ht)
  obtain rfl : d' = d := Option.some.inj (hd'.symm.trans hd)
  obtain ⟨names, id, p, c, i, hnames, hp, hplaced, hlines, -, hbalanced⟩ := hruns hclassic hplan
  have hclash : HasNoClash t' names := by
    intro v hv
    have hname : v.name = "x" :=
      List.mem_singleton.mp (hvars ▸ List.mem_map_of_mem hv)
    rw [hname, hnames.push, hnames.eval]
    exact ⟨nofun, nofun⟩
  exact ⟨hunit, hvalid, code, hgen, n, hn, _, t', d', names, id, p, c, i, hnames, hp, hplaced,
    hlines, hbalanced hclash⟩

/-! ### A variable named like the counter -/

/-- A page of a buffered tag with a variable that is named like the counter of the tag. -/
def countingPage : Node :=
  bufferedPage [{ given := "_pb_t_x_1", declaredType := "int", scope := .atBegin }]

/-- The variables of an invocation of the first tag of a page. -/
def firstNames : HandlerNames :=
  { handler := "_th_t_x_1", eval := "_ev_t_x_1", push := "_pb_t_x_1" }

/-- The program of the tag of the page. -/
def countingProgram (env : Env) (n : Node) (t : CustomTag) (d : TagDescriptor) : Program :=
  classicProgram env t d firstNames (bodyPlan d n) "X" "nil" [] .nil
    (.part 3 (Code.lines [.call "pc" "Out().WriteString(\"a\")"]) .nil)

/-- The counter has a value, and all else is what asks for a buffer. -/
def counterAt (n : Int) : Memory := fun x =>
  if x = firstNames.push then .number n else .constant "EvalBodyBuffered"

theorem counterAt_of_ne {x : Bytes} (h : x ≠ firstNames.push) (a b : Int) :
    counterAt a x = counterAt b x := by
  rw [counterAt, if_neg h, counterAt, if_neg h]

theorem bodyPlan_of_buffered {d : TagDescriptor} {n : Node}
    (h : (bodyPlan d n).buffered = true) : bodyPlan d n = ⟨true, true, true⟩ := by
  rw [bodyPlan] at h ⊢
  dsimp only at h ⊢
  rw [Bool.and_eq_true] at h
  simp [h.1, h.2]

/-- The tag of the page asks for a buffer, its variable sets the counter to one, and the handler
fails when the buffer is there: then the counter is two, and two buffers are popped. -/
theorem exec_countingProgram {env : Env} {n : Node} {t : CustomTag} {d : TagDescriptor}
    (hbuffered : (bodyPlan d n).buffered = true)
    (hvars : t.vars = [⟨"_pb_t_x_1", "int", true, .atBegin⟩]) (kept : Bytes → Prop) :
    Exec .constant kept (countingProgram env n t d) ⟨counterAt 1, 0, 0⟩ .left
      ⟨counterAt 0, 1, 2⟩ := by
  have hcounter : ∀ i, counterAt i firstNames.push = .number i := fun _ => if_pos rfl
  have heval : ∀ i, counterAt i firstNames.eval = .constant "EvalBodyBuffered" :=
    fun _ => if_neg (by decide)
  have hset : ∀ {i j : Int} x, x ∉ [firstNames.push] → counterAt j x = counterAt i x :=
    fun x hx => counterAt_of_ne (fun he => hx (List.mem_singleton.mpr he)) _ _
  have hpops : Exec .constant kept (.pop .done) ⟨counterAt 2, 1, 0⟩ .done ⟨counterAt 2, 1, 1⟩ :=
    .pop .done
  have hpops' : Exec .constant kept (.pop .done) ⟨counterAt 1, 1, 1⟩ .done ⟨counterAt 1, 1, 2⟩ :=
    .pop .done
  have hfinish : Exec .constant kept (finishProgram env d firstNames) ⟨counterAt 0, 1, 2⟩ .done
      ⟨counterAt 0, 1, 2⟩ := by
    have hplain : Exec .constant kept (.line (releaseStatement env firstNames) .done)
        ⟨counterAt 0, 1, 2⟩ .done ⟨counterAt 0, 1, 2⟩ := .line ⟨fun _ _ => rfl, trivial⟩ .done
    unfold finishProgram
    split
    · exact .skip trivial (.line ⟨fun _ _ => rfl, trivial⟩ hplain)
    · exact hplain
  have hrelease : Exec .constant kept (releaseProgram env d firstNames true) ⟨counterAt 2, 1, 0⟩
      .done ⟨counterAt 0, 1, 2⟩ := by
    have hstep : ∀ i : Int, (Statement.decrement firstNames.push).Runs (counterAt i)
        (counterAt (i + -1)) := by
      intro i
      refine ⟨hset, ?_⟩
      dsimp only
      rw [hcounter i]
      exact hcounter _
    refine .count (hcounter 2) (by decide) hpops (.inl rfl) (hstep 2)
      (.count (hcounter 1) (by decide) hpops' (.inl rfl) (hstep 1) (.drained ?_ hfinish))
    intro n hn
    have hzero : n = 0 := Value.number.inj (hn.symm.trans (hcounter 0))
    omega
  -- The calls of the tag: the variable is set, a buffer is pushed and counted, a call fails.
  have hcalls : Exec .constant kept (callsProgram t firstNames ⟨true, true, true⟩ []
      (.part 3 (Code.lines [.call "pc" "Out().WriteString(\"a\")"]) .nil)) ⟨counterAt 0, 0, 0⟩ .left
      ⟨counterAt 2, 1, 0⟩ := by
    have hincrement : (Statement.increment firstNames.push).Runs (counterAt 1) (counterAt 2) := by
      refine ⟨hset, ?_⟩
      dsimp only
      rw [hcounter 1]
      exact hcounter 2
    have hsyncs : syncs t [.atBegin] =
        [.assign [firstNames.push] (variableValue ⟨"_pb_t_x_1", "int", true, .atBegin⟩)] := by
      rw [syncs, hvars]
      rfl
    have hevaluated : (Test.differs firstNames.eval "SkipBody").Gives .constant (counterAt 1)
        true := by
      rw [Test.Gives, heval 1]
      rfl
    have hasked : (Test.equal firstNames.eval "EvalBodyBuffered").Gives .constant (counterAt 1)
        true := by
      rw [Test.Gives, heval 1]
      rfl
    rw [callsProgram, hsyncs]
    exact .line ⟨fun _ _ => rfl, trivial⟩ (.pass ⟨fun _ _ => rfl, trivial⟩
      (.line (m := counterAt 1) ⟨hset, trivial⟩ (.exit hevaluated (.exit hasked (.push
        (.line hincrement (.fail ⟨fun _ _ => rfl, trivial⟩))) (by decide)) (by decide))))
  rw [countingProgram, bodyPlan_of_buffered hbuffered, classicProgram]
  exact .line ⟨fun _ _ => rfl, trivial⟩ (.line ⟨fun _ _ => rfl, trivial⟩
    (.line ⟨fun _ _ => rfl, trivial⟩ (.line (m := counterAt 0) ⟨hset, hcounter 0⟩
      (.deferred (.page (fun _ _ => rfl) hcalls) hrelease))))

/-- Whether a node of the page is a tag whose code is that of `countingProgram`. -/
def isCounting (env : Env) (source : Bytes) (n : Node) : Bool :=
  isBuffered ["_pb_t_x_1"] n && n.head.tag.any fun t =>
    t.prefixName == ("t" : Bytes) && t.localName == ("x" : Bytes) &&
      t.vars == [⟨"_pb_t_x_1", "int", true, .atBegin⟩] && !isHoistable n.head t &&
      t.descriptor.any fun d =>
        standsOn source n.head.lines
          ((inlineCode t [] (countingProgram env n t d).code).layout 1 .out).text

theorem buffers_unbalanced : countingPage.IsUnit ∧
    (countingPage.validate (σ := Unit) none {} ()).failure = none ∧
    ∃ page code, (countingPage.validate (σ := Unit) none {} ()).tree.page? = some page ∧
      (countingPage.validate (σ := Unit) none {} ()).tree.generate {} = .ok code ∧
      let env : Env := ⟨{}, "/a.jsp", page⟩
      ∃ n ∈ code.tree.subtree, n.kind = .customTag ∧ ∃ t d, n.head.tag = some t ∧
        t.descriptor = some d ∧ d.isClassic = true ∧ (bodyPlan d n).buffered = true ∧
        ∃ names id p c i, IsNamed t names id ∧ IsClassicRun env n t d names p ∧
          IsPlaced env n t p c ∧ IsLines code.source n.head.lines (c.layout i .out).text ∧
          ¬ p.IsBalanced (· ∈ [names.push, names.eval]) := by
  have hunit : countingPage.IsUnit := bufferedPage_isUnit _
  have hvalid : (countingPage.validate (σ := Unit) none {} ()).failure = none := rfl
  have hsome : ((countingPage.validate (σ := Unit) none {} ()).tree.page?.any fun page =>
      ((countingPage.validate (σ := Unit) none {} ()).tree.generate {}).toOption.any fun code =>
        code.tree.subtree.any (isCounting ⟨{}, "/a.jsp", page⟩ code.source)) = true := by
    decide +kernel
  obtain ⟨page, hpage, hcode⟩ := (Option.any_eq_true _ _).mp hsome
  obtain ⟨code, hgen, hany⟩ := exists_ok_of_any hcode
  refine ⟨hunit, hvalid, page, code, hpage, hgen, ?_⟩
  obtain ⟨n, hn, hcounting⟩ := List.any_eq_true.mp hany
  simp only [isCounting, isBuffered, Bool.and_eq_true, beq_iff_eq, Option.any_eq_true,
    Bool.not_eq_true'] at hcounting
  obtain ⟨⟨⟨hkind, -⟩, t', ht', -, d', hd', hclassic, hbuffered⟩, t, ht,
    ⟨⟨⟨hbound, hlocal⟩, hvars⟩, hplace⟩, d, hd, hlines⟩ := hcounting
  obtain rfl : t' = t := Option.some.inj (ht'.symm.trans ht)
  obtain rfl : d' = d := Option.some.inj (hd'.symm.trans hd)
  have hnames : IsNamed t' firstNames 1 := by
    have hname : invocationName t' 1 = "t_x_1" := by
      rw [invocationName, hbound, hlocal]
      rfl
    exact ⟨by rw [hname]; rfl, by rw [hname]; rfl, by rw [hname]; rfl⟩
  have hrun : IsClassicRun ⟨{}, "/a.jsp", page⟩ n t' d' firstNames
      (countingProgram ⟨{}, "/a.jsp", page⟩ n t' d') := .mk "X" "nil" [] trivial trivial
  refine ⟨n, hn, hkind, t', d', ht', hd', hclassic, hbuffered, firstNames, 1, _, _, 1, hnames, hrun,
    .inline [] hplace, isLines_of_standsOn hlines, fun hbalanced => ?_⟩
  cases hbalanced _ _ _ _ (exec_countingProgram hbuffered hvars _)

end ServerPages.Generation
