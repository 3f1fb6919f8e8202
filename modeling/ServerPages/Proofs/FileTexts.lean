import ServerPages.Proofs.UnitLayout

/-!
# The text of a file

A file ends in the render method, the methods of tags and the type that evaluates fragments
(`endText`), each around the code that was collected for it. What stands before them is written in
the same way whatever the page holds: it closes all blocks that it opens, and takes over no code but
the declarations.

`Adds` says what text a step adds to the current writer; about the front of a file nothing is said,
but that it holds what a page says of itself.

## Main results

* `Code.written_replay`, `Code.first_replay`: the texts in the writers are those of the layouts, and
  only nodes of the code get lines.
* `assemble_text`: the text that a file ends in.
* `assemble_holds`: what a page says of itself is in its file.
-/

namespace ServerPages.Generation

/-! ### Texts in writers -/

/-- Moving the lines of nodes gives lines to no node that has none. -/
theorem Spans.get_splice_eq_zero {s : Spans} {k : Nat} (h : (s.get k).first = 0) (w o : Writer) :
    ((w.splice o s).2.get k).first = 0 := by
  show ((o.marked.foldr (fun n s => s.shift (w.line - 1) n) s).get k).first = 0
  induction o.marked with
  | nil => exact h
  | cons j js ih =>
    rw [List.foldr_cons, get_shift]
    split
    · rw [Layout.moved_of_first_eq_zero ih]
      exact ih
    · exact ih

namespace Code

/-- What is written to the writers are the layouts of a code. -/
theorem written_replay (c : Code) {d : Desk} (hd : d.declarations.indent = 0) (h : Sheet) :
    ((c.replay d).writer h).written =
      (c.layout d.out.indent h).pieces.reverse ++ (d.writer h).written := by
  induction c generalizing d h with
  | nil => rfl
  | line s rest ih =>
    refine (ih (d := { d with out := d.out.println s.text }) hd h).trans ?_
    cases h <;> simp [layout, Layout.pieces, Desk.writer, Writer.println, codeLine]
  | indent rest ih =>
    refine (ih (d := { d with out := d.out.indented }) hd h).trans ?_
    cases h <;> rfl
  | outdent rest ih =>
    refine (ih (d := { d with out := { d.out with indent := d.out.indent - 1 } }) hd h).trans ?_
    cases h <;> rfl
  | part k body rest ihb ih =>
    let begun : Desk :=
      { d with out := (d.out.begin k d.spans).1, spans := (d.out.begin k d.spans).2 }
    have hbody : ∀ s, ((body.replay begun).writer s).written =
        (body.layout d.out.indent s).pieces.reverse ++ (d.writer s).written := fun s =>
      (ihb (d := begun) hd s).trans (by cases s <;> rfl)
    have hindent : (body.replay begun).out.indent = body.depth d.out.indent :=
      indent_replay body begun
    refine (ih (d := { body.replay begun with
      spans := (body.replay begun).out.finish k (body.replay begun).spans })
      ((declarations_replay body begun).trans hd) h).trans ?_
    have hrest := hbody h
    rw [hindent]
    cases h <;> simp_all [layout, Layout.pieces, Desk.writer]
  | declaration k ls rest ih =>
    let w := ls.foldl Writer.println (d.declarations.begin k d.spans).1
    have hw : w.indent = 0 := (indent_foldl_println ls _).trans hd
    have hwritten : w.written = (plain ls).pieces.reverse ++ d.declarations.written :=
      (gains_plain (w := (d.declarations.begin k d.spans).1) hd ls).written
    refine (ih (d := { d with
      declarations := w, spans := w.finish k (d.declarations.begin k d.spans).2 }) hw h).trans ?_
    cases h <;> simp [layout, Layout.pieces, Desk.writer, hwritten]
  | method isApart body rest ihb ih =>
    have hbody := ihb (d := { d with out := {} }) hd
    have hplain := (declarations_replay body { d with out := {} }).trans hd
    rw [replay]
    generalize body.replay { d with out := {} } = e at hbody hplain ⊢
    refine (ih (d := { e with
      out := d.out
      methods := ((if isApart then e.methods.println [] else e.methods).splice e.out e.spans).1
      spans := ((if isApart then e.methods.println [] else e.methods).splice e.out e.spans).2 })
      hplain h).trans ?_
    have hout := hbody .out
    have hrest := hbody h
    cases h <;> cases isApart <;>
      simp_all [layout, Layout.pieces, Desk.writer, Writer.splice, gap, Writer.println, codeLine]
  | fragment body rest ihb ih =>
    have hbody := ihb (d := { d with out := {} }) hd
    have hplain := (declarations_replay body { d with out := {} }).trans hd
    rw [replay]
    generalize body.replay { d with out := {} } = e at hbody hplain ⊢
    refine (ih (d := { e with
      out := d.out
      fragments := (e.fragments.splice e.out e.spans).1
      spans := (e.fragments.splice e.out e.spans).2 }) hplain h).trans ?_
    have hout := hbody .out
    have hrest := hbody h
    cases h <;> simp_all [layout, Desk.writer, Writer.splice]

/-- The text of a writer that nothing was written to before is that of the layout. -/
theorem text_replay (c : Code) {d : Desk} (hd : d.declarations.indent = 0) {h : Sheet}
    (hempty : (d.writer h).written = []) :
    ((c.replay d).writer h).text = (c.layout d.out.indent h).text := by
  rw [Writer.text, written_replay c hd, hempty, List.append_nil, List.reverse_reverse]
  rfl

/-- Only nodes of a code get lines by it. -/
theorem first_replay (c : Code) {d : Desk} {k : Nat} (hk : k ∉ c.nodes)
    (h : (d.spans.get k).first = 0) : ((c.replay d).spans.get k).first = 0 := by
  induction c generalizing d with
  | nil => exact h
  | line s rest ih | indent rest ih | outdent rest ih => exact ih hk h
  | part j body rest ihb ih =>
    rw [nodes, List.mem_cons, List.mem_append, not_or, not_or] at hk
    refine ih hk.2.2 ?_
    rw [Spans.get_finish, if_neg hk.1]
    refine ihb hk.2.1 ?_
    rw [Writer.begin, Spans.get_set, if_neg hk.1]
    exact h
  | declaration j ls rest ih =>
    rw [nodes, List.mem_cons, not_or] at hk
    refine ih hk.2 ?_
    rw [Spans.get_finish, if_neg hk.1, Writer.begin, Spans.get_set, if_neg hk.1]
    exact h
  | method isApart body rest ihb ih | fragment body rest ihb ih =>
    rw [nodes, List.mem_append, not_or] at hk
    have hbody := ihb (d := { d with out := {} }) hk.1 h
    exact ih hk.2 (Spans.get_splice_eq_zero hbody _ _)

end Code

/-! ### Steps that add text -/

/-- The second state follows the first one with a text added; no more nodes have lines, and the code
that was collected stays, as does the number of fragments. -/
structure State.Extends (s t : State) (u : Bytes) : Prop where
  text : t.place.out.text = s.place.out.text ++ u
  indent : t.place.out.indent = s.place.out.indent
  methods : t.methods = s.methods
  fragments : t.fragments = s.fragments
  count : t.fragmentCount = s.fragmentCount
  names : t.names = s.names
  lines : ∀ k, t.HasLines k → s.HasLines k

/-- A step that succeeds where lines are indented by `i` adds a text that satisfies `p`. -/
def Adds {α : Type} (i : Nat) (x : Gen α) (p : Bytes → Prop) : Prop :=
  ∀ s a t, s.place.out.indent = i → x s = .ok a t → ∃ u, s.Extends t u ∧ p u

section Adds

variable {α β : Type} {i : Nat} {p q r : Bytes → Prop} {s t v : State} {u u' : Bytes}

theorem State.Extends.trans (h : s.Extends t u) (h' : t.Extends v u') : s.Extends v (u ++ u') where
  text := by rw [h'.text, h.text, List.append_assoc]
  indent := h'.indent.trans h.indent
  methods := h'.methods.trans h.methods
  fragments := h'.fragments.trans h.fragments
  count := h'.count.trans h.count
  names := h'.names.trans h.names
  lines := fun k hk => h.lines k (h'.lines k hk)

theorem Adds.mono {x : Gen α} (hx : Adds i x p) (h : ∀ u, p u → q u) : Adds i x q := by
  intro s a t hi hrun
  obtain ⟨u, hu, hp⟩ := hx s a t hi hrun
  exact ⟨u, hu, h u hp⟩

theorem Adds.any {x : Gen α} (hx : Adds i x p) : Adds i x fun _ => True :=
  hx.mono fun _ _ => trivial

theorem Adds.pure (a : α) : Adds i (Pure.pure a : Gen α) fun _ => True := by
  rintro s b t hi ⟨⟩
  exact ⟨[], ⟨(List.append_nil _).symm, rfl, rfl, rfl, rfl, rfl, fun _ h => h⟩, trivial⟩

theorem Adds.bind {x : Gen α} {f : α → Gen β} (hx : Adds i x p) (hf : ∀ a, Adds i (f a) q)
    (hr : ∀ u v, p u → q v → r (u ++ v)) : Adds i (x >>= f) r := by
  intro s b t hi hrun
  obtain ⟨a, v, hxs, hft⟩ := bind_eq_ok hrun
  obtain ⟨u, hu, hp⟩ := hx s a v hi hxs
  obtain ⟨u', hu', hq⟩ := hf a v b t (hu.indent.trans hi) hft
  exact ⟨u ++ u', hu.trans hu', hr u u' hp hq⟩

/-- Steps of which nothing is said what they add. -/
theorem Adds.thenAny {x : Gen α} {f : α → Gen β} (hx : Adds i x p)
    (hf : ∀ a, Adds i (f a) fun _ => True) : Adds i (x >>= f) fun _ => True :=
  hx.bind hf fun _ _ _ _ => trivial

/-- One text after another. -/
theorem Adds.seq {x : Gen Unit} {y : Gen β} (hx : Adds i x (· = u)) (hy : Adds i y (· = u')) :
    Adds i (x >>= fun _ => y) (· = u ++ u') := by
  refine hx.bind (fun _ => hy) ?_
  rintro _ _ rfl rfl
  rfl

/-- A text after steps of which nothing is said what they add. -/
theorem Adds.last {x : Gen α} {f : α → Gen β} (hx : Adds i x p)
    (hf : ∀ a, Adds i (f a) fun v => ∃ front, v = front ++ u) :
    Adds i (x >>= f) fun v => ∃ front, v = front ++ u := by
  refine hx.bind hf ?_
  rintro u _ - ⟨front, rfl⟩
  exact ⟨u ++ front, by rw [List.append_assoc]⟩

/-- A text in what one of two steps adds. -/
theorem Adds.holdsBefore {x : Gen α} {f : α → Gen β} (hx : Adds i x (u <:+: ·))
    (hf : ∀ a, Adds i (f a) fun _ => True) : Adds i (x >>= f) (u <:+: ·) :=
  hx.bind hf fun _ v hu _ => List.IsInfix.trans hu (List.prefix_append _ v).isInfix

theorem Adds.holdsAfter {x : Gen α} {f : α → Gen β} (hx : Adds i x p)
    (hf : ∀ a, Adds i (f a) (u <:+: ·)) : Adds i (x >>= f) (u <:+: ·) :=
  hx.bind hf fun v _ _ hu => List.IsInfix.trans hu (List.suffix_append v _).isInfix

theorem Adds.get {f : State → Gen β} (hf : ∀ s, Adds i (f s) p) :
    Adds i (MonadStateOf.get >>= f) p := fun s b t hi hrun => hf s s b t hi hrun

theorem Adds.ite {c : Prop} [Decidable c] {x y : Gen α} (hx : c → Adds i x p)
    (hy : ¬c → Adds i y p) : Adds i (if c then x else y) p := by
  split
  · next h => exact hx h
  · next h => exact hy h

theorem Adds.forM {f : α → Gen PUnit} (hf : ∀ a, Adds i (f a) fun _ => True) (as : List α) :
    Adds i (as.forM f) fun _ => True := by
  induction as with
  | nil => exact .pure _
  | cons a as ih => exact (hf a).thenAny fun _ => ih

theorem Adds.emit (x : Bytes) : Adds i (emit x) (· = codeLine i x) := by
  rintro s a t rfl ⟨⟩
  exact ⟨_, ⟨Writer.text_println _ _, rfl, rfl, rfl, rfl, rfl, fun _ h => h⟩, rfl⟩

theorem Adds.emitAll (ls : List Bytes) : Adds i (emitAll ls) (· = codeLines i ls) := by
  induction ls with
  | nil =>
    rintro s a t - ⟨⟩
    exact ⟨[], ⟨(List.append_nil _).symm, rfl, rfl, rfl, rfl, rfl, fun _ h => h⟩, rfl⟩
  | cons l ls ih => exact (Adds.emit l).seq ih

theorem Adds.spliceIn (o : Writer) : Adds i (spliceIn o) (· = o.text) := by
  rintro s a t rfl ⟨⟩
  refine ⟨_, ⟨Writer.text_splice _ _ _, rfl, rfl, rfl, rfl, rfl, fun k hk => ?_⟩, rfl⟩
  by_contra h
  exact hk (Spans.get_splice_eq_zero (not_not.mp h) _ _)

/-- Code between two lines, indented further. -/
theorem Adds.within {x : Gen Unit} (hx : Adds (i + 1) x p) (opening closing : Bytes)
    (hr : ∀ u, p u → r (codeLine i opening ++ (u ++ codeLine i closing))) :
    Adds i (openBlock opening >>= fun _ => x >>= fun _ => closeBlock closing) r := by
  rintro s a t rfl hrun
  obtain ⟨_, v, hopen, hrun⟩ := bind_eq_ok hrun
  obtain ⟨_, w, hxs, hclose⟩ := bind_eq_ok hrun
  cases hopen
  obtain ⟨u, hu, hp⟩ := hx _ _ w rfl hxs
  obtain ⟨o, hout⟩ : ∃ o, w.place.out.outdented? = some o ∧
      o = { w.place.out with indent := s.place.out.indent } := by
    rw [Writer.outdented?, hu.indent]
    exact ⟨_, rfl, rfl⟩
  rw [closeBlock, bind_ok (outdent_eq hout.1), hout.2] at hclose
  cases hclose
  refine ⟨_, ⟨?_, rfl, hu.methods, hu.fragments, hu.count, hu.names, hu.lines⟩, hr u hp⟩
  have htext : w.place.out.text =
      s.place.out.text ++ codeLine s.place.out.indent opening ++ u := by
    rw [hu.text, ← Writer.text_println]
    rfl
  show (({ w.place.out with indent := s.place.out.indent } : Writer).println closing).text = _
  rw [Writer.text_println]
  show w.place.out.text ++ _ = _
  rw [htext]
  simp only [List.append_assoc]

theorem Adds.block (opening : Bytes) (ls : List Bytes) (closing : Bytes) :
    Adds i (block opening ls closing)
      (· = codeLine i opening ++ (codeLines (i + 1) ls ++ codeLine i closing)) := by
  refine (Adds.emitAll ls).within opening closing ?_
  rintro _ rfl
  rfl

theorem Adds.method (receiver type signature : Bytes) {x : Gen Unit}
    (hx : Adds (i + 1) x fun _ => True) :
    Adds i (method receiver type signature x) fun _ => True :=
  hx.within _ _ fun _ _ => trivial

theorem Adds.returning (condition : Bytes) : Adds i (returning condition) fun _ => True :=
  (Adds.emit _).within _ _ fun _ _ => trivial

theorem Adds.blank : Adds i blank (· = codeLine i []) := .emit []

/-! ### The front of a file -/

theorem Adds.writeTexts : Adds i writeTexts fun _ => True :=
  .get fun _ => .ite (fun _ => (Adds.block _ _ _).thenAny fun _ => Adds.blank.any) fun _ => .pure _

theorem Adds.writeFunctions (entries : List Bytes) :
    Adds i (writeFunctions entries) fun _ => True :=
  .ite (fun _ => (Adds.block _ _ _).thenAny fun _ => Adds.blank.any) fun _ => .pure _

theorem Adds.writeExpressions (env : Env) : Adds i (writeExpressions env) fun _ => True :=
  .get fun _ => .ite (fun _ => (Adds.block _ _ _).thenAny fun _ => Adds.blank.any) fun _ => .pure _

theorem Adds.structType (env : Env) (fields : List Bytes) :
    Adds i (structType env fields) fun _ => True :=
  .get fun _ => .ite (fun _ => (Adds.emit _).any) fun _ => (Adds.block _ _ _).any

/-- The fields of what a page says of itself, one to a line. -/
def pageInfoLines (p : PageInfo) : List Bytes := [
  "ContentType: " ++ Quoted.string p.contentType ++ ",",
  "PageEncoding: " ++ Quoted.string p.pageEncoding ++ ",",
  "Buffer: " ++ Bytes.ofInt p.buffer ++ ",",
  "AutoFlush: " ++ Bytes.ofBool p.autoFlush ++ ",",
  "Session: " ++ Bytes.ofBool p.session ++ ",",
  "ErrorPage: " ++ Quoted.string p.errorPage ++ ",",
  "IsErrorPage: " ++ Bytes.ofBool p.isErrorPage ++ ",",
  "Info: " ++ Quoted.string p.info ++ ","]

/-- The type of a page has a method with the fields of what the page says of itself. -/
theorem Adds.pageType (env : Env) :
    Adds i (pageType env) (codeLines (i + 2) (pageInfoLines env.page) <:+: ·) := by
  have hinfo : Adds i (Generation.method "p" env.typeName "PageInfo() rt.PageInfo"
      (Generation.block "return rt.PageInfo\x7b" (pageInfoLines env.page) "\x7d"))
      (codeLines (i + 2) (pageInfoLines env.page) <:+: ·) := by
    refine Adds.within (p := (codeLines (i + 2) (pageInfoLines env.page) <:+: ·)) ?_ _ _
      fun u hu => List.IsInfix.trans hu (List.infix_append' _ u _)
    refine (Adds.block _ _ _).mono ?_
    rintro _ rfl
    exact List.infix_append' _ _ _
  refine (Adds.emit _).holdsAfter fun _ => (Adds.structType env _).holdsAfter fun _ => ?_
  refine Adds.blank.holdsAfter fun _ => hinfo.holdsBefore fun _ => ?_
  refine Adds.blank.thenAny fun _ => (Adds.emit _).thenAny fun _ => ?_
  refine (Adds.method _ _ _ ?_).thenAny fun _ => Adds.blank.any
  exact (Adds.emit _).thenAny fun _ => (Adds.returning _).thenAny fun _ => (Adds.emit _).any

theorem Adds.setterMethod (env : Env) (a : AttributeSignature) :
    Adds i (setterMethod env a) fun _ => True :=
  (Adds.method _ _ _ (Adds.emit _).any).thenAny fun _ => Adds.blank.any

theorem Adds.dynamicMethod (env : Env) : Adds i (dynamicMethod env) fun _ => True :=
  (Adds.emit _).thenAny fun _ => (Adds.method _ _ _ <| (Adds.block _ _ _).thenAny fun _ =>
    (Adds.emit _).thenAny fun _ => (Adds.emit _).any).thenAny fun _ => Adds.blank.any

theorem Adds.syncMethod (env : Env) (tag : TagInfo) (name doc : Bytes)
    (scopes : List VariableScope) : Adds i (syncMethod env tag name doc scopes) fun _ => True :=
  (Adds.emit _).thenAny fun _ => (Adds.method _ _ _ (Adds.emitAll _).any).thenAny fun _ =>
    Adds.blank.any

theorem Adds.doTagMethod (env : Env) (tag : TagInfo) :
    Adds i (doTagMethod env tag) fun _ => True := by
  have hend : Adds (i + 1) (if tag.vars.isEmpty then Generation.emit "return t.render(pc, frags)"
      else Generation.emitAll ["err := t.render(pc, frags)", "t.syncEnd(pc)", "return err"])
      fun _ => True :=
    .ite (fun _ => (Adds.emit _).any) fun _ => (Adds.emitAll _).any
  refine (Adds.emit _).thenAny fun _ => (Adds.method _ _ _ ?_).thenAny fun _ => Adds.blank.any
  refine (Adds.emit _).thenAny fun _ => (Adds.emit _).thenAny fun _ => (Adds.emitAll _).thenAny
    fun _ => ?_
  exact .ite (fun _ => (Adds.emit _).thenAny fun _ => hend) fun _ => hend

theorem Adds.tagFileType (env : Env) (tag : TagInfo) :
    Adds i (tagFileType env tag) fun _ => True := by
  have hend : Adds i (do
      Generation.doTagMethod env tag
      if !tag.vars.isEmpty then
        Generation.syncMethod env tag "syncBegin"
          "copies the NESTED and AT_BEGIN variables to the calling page." [.nested, .atBegin]
        Generation.syncMethod env tag "syncEnd"
          "copies the AT_BEGIN and AT_END variables to the calling page." [.atBegin, .atEnd])
        fun _ => True :=
    (Adds.doTagMethod env tag).thenAny fun _ => .ite
      (fun _ => (Adds.syncMethod env tag _ _ _).thenAny fun _ => .syncMethod env tag _ _ _)
      fun _ => .pure _
  refine (Adds.emit _).thenAny fun _ => (Adds.structType env _).thenAny fun _ => ?_
  refine Adds.blank.thenAny fun _ => ?_
  refine (Adds.forM (.setterMethod env) _).thenAny fun _ => ?_
  exact .ite (fun _ => (Adds.dynamicMethod env).thenAny fun _ => hend) fun _ => hend

/-! ### The end of a file -/

/-- The lines before the cases of the fragments. -/
def helperOpening (env : Env) : List (Nat × Bytes) := [
  (0, "// " ++ env.fragmentType ++ " evaluates the fragment bodies of " ++ env.typeName ++ "."),
  (0, "type " ++ env.fragmentType ++ " struct \x7b"), (1, "p *" ++ env.typeName), (0, "\x7d"),
  (0, []), (0, "// Invoke implements rt.FragmentHelper."),
  (0, "func (" ++ "f" ++ " *" ++ env.fragmentType ++ ") " ++
    "Invoke(pc *rt.PageContext, id int, parent rt.Tag) error" ++ " \x7b")]

/-- The switch over the numbers of the fragments, unless there are none. -/
def switchText (env : Env) (cases : Bytes) : Bytes :=
  if cases = [] then []
  else codeText [(1, env.receiver ++ ", frags := f.p, f"),
      (1, "_, _ = " ++ env.receiver ++ ", frags"), (1, "switch id \x7b")] ++
    cases ++ codeText [(1, "\x7d")]

/-- The type that evaluates fragments. -/
def helperText (env : Env) (cases : Bytes) : Bytes :=
  codeText (helperOpening env) ++ switchText env cases ++
    codeText [(1, "return rt.UnknownFragment(id)"), (0, "\x7d")]

/-- The render method with the code of its content. -/
def renderText (env : Env) (code : Bytes) : Bytes :=
  codeText [(0, renderLine env), (1, "_ = frags")] ++ code ++
    codeText [(1, "return nil"), (0, "\x7d")]

/-- The methods of tags, unless there are none. -/
def methodsText (methods : Bytes) : Bytes := if methods = [] then [] else codeLine 0 [] ++ methods

/-- What a file ends in: the render method, the methods of tags and the type that evaluates
fragments. -/
def endText (env : Env) (code methods cases : Bytes) : Bytes :=
  renderText env code ++ (methodsText methods ++ (codeLine 0 [] ++ helperText env cases))

/-- A writer that holds no text is empty. -/
def Writer.IsWhole (w : Writer) : Prop := w.text = [] → w.isEmpty = true

theorem Writer.IsWhole.isEmpty_iff {w : Writer} (hw : w.IsWhole) :
    w.isEmpty = true ↔ w.text = [] := by
  refine ⟨fun h => ?_, hw⟩
  rw [text, List.isEmpty_iff.mp h]
  rfl

theorem Adds.fragmentHelper (env : Env) {o : Writer} (ho : o.IsWhole) :
    Adds 0 (fragmentHelper env o) (· = helperText env o.text) := by
  have hswitch : Adds 1 (do
      if !o.isEmpty then
        Generation.emit (env.receiver ++ ", frags := f.p, f")
        Generation.emit ("_, _ = " ++ env.receiver ++ ", frags")
        Generation.emit "switch id \x7b"
        Generation.spliceIn o
        Generation.emit "\x7d"
      Generation.emit "return rt.UnknownFragment(id)")
      (· = switchText env o.text ++ codeLine 1 "return rt.UnknownFragment(id)") := by
    refine .ite (fun hsome => ?_) fun hnone => ?_
    · have htext : o.text ≠ [] := fun h => by simp [ho h] at hsome
      have hall := (Adds.emit (i := 1) (env.receiver ++ ", frags := f.p, f")).seq
        ((Adds.emit ("_, _ = " ++ env.receiver ++ ", frags")).seq ((Adds.emit "switch id \x7b").seq
          ((Adds.spliceIn o).seq ((Adds.emit "\x7d").seq
            (Adds.emit "return rt.UnknownFragment(id)")))))
      simpa [switchText, htext, codeText] using hall
    · have htext : o.text = [] := ho.isEmpty_iff.mp (by simpa using hnone)
      rw [switchText, if_pos htext, List.nil_append]
      exact .emit _
  have hmethod := Adds.within (r := (· = codeLine 0 ("func (" ++ "f" ++ " *" ++ env.fragmentType ++
      ") " ++ "Invoke(pc *rt.PageContext, id int, parent rt.Tag) error" ++ " \x7b") ++
      ((switchText env o.text ++ codeLine 1 "return rt.UnknownFragment(id)") ++
        codeLine 0 "\x7d"))) hswitch _ _ fun _ h => by rw [h]
  have hall := (Adds.emit (i := 0) ("// " ++ env.fragmentType ++
    " evaluates the fragment bodies of " ++ env.typeName ++ ".")).seq
    ((Adds.block ("type " ++ env.fragmentType ++ " struct \x7b") ["p *" ++ env.typeName]
      "\x7d").seq (Adds.blank.seq ((Adds.emit "// Invoke implements rt.FragmentHelper.").seq
        hmethod)))
  refine Adds.mono hall ?_
  rintro _ rfl
  simp [helperText, helperOpening, codeText, codeLines]

theorem Adds.fileEnd (env : Env) {m o : Writer} (hm : m.IsWhole) (ho : o.IsWhole) :
    Adds 0 (fileEnd env m o)
      (· = methodsText m.text ++ (codeLine 0 [] ++ helperText env o.text)) := by
  have hend : Adds 0 (Generation.blank >>= fun _ => Generation.fragmentHelper env o)
      (· = codeLine 0 [] ++ helperText env o.text) := Adds.blank.seq (.fragmentHelper env ho)
  refine .ite (fun hsome => ?_) fun hnone => ?_
  · have htext : m.text ≠ [] := fun h => by simp [hm h] at hsome
    rw [methodsText, if_neg htext, List.append_assoc]
    exact Adds.blank.seq ((Adds.spliceIn m).seq hend)
  · have htext : m.text = [] := hm.isEmpty_iff.mp (by simpa using hnone)
    rw [methodsText, if_pos htext, List.nil_append]
    exact hend

theorem Adds.renderMethod (env : Env) (render : Writer) :
    Adds 0 (Generation.method env.receiver env.typeName
      ("render(pc *rt.PageContext, frags *" ++ env.fragmentType ++ ") error") do
        Generation.emit "_ = frags"
        Generation.spliceIn render
        Generation.emit "return nil") (· = renderText env render.text) := by
  refine ((Adds.emit "_ = frags").seq ((Adds.spliceIn render).seq (Adds.emit "return nil"))).within
    _ _ ?_
  rintro _ rfl
  simp [renderText, codeText, renderLine]

theorem Adds.fileRest (env : Env) (entries : List Bytes) (render : Writer) {m o : Writer}
    (hm : m.IsWhole) (ho : o.IsWhole) :
    Adds 0 (fileRest env entries render m o)
      fun u => ∃ front, u = front ++ endText env render.text m.text o.text := by
  have hend : Adds 0 _ fun u => ∃ front, u = front ++ endText env render.text m.text o.text :=
    ((Adds.renderMethod env render).seq (.fileEnd env hm ho)).mono fun _ h => ⟨[], h⟩
  refine Adds.writeTexts.last fun _ => (Adds.writeFunctions entries).last fun _ => ?_
  refine (Adds.writeExpressions env).last fun _ => ?_
  split
  · exact (Adds.tagFileType env _).last fun _ => hend
  · exact (Adds.pageType env).last fun _ => hend

/-- The first lines of a file, up to the imports. -/
def fileHead (env : Env) : Gen Unit := do
  emit ("// Code generated by pagec from " ++ env.file ++ ". DO NOT EDIT.")
  blank
  emit ("package " ++ env.package)
  blank

/-- The file from the imports on, with what was collected in a state. -/
def fileTail (env : Env) (render : Writer) (u : State) : Gen Unit := do
  block "import (" (env.functions u.imports).2.lines ")"
  blank
  if !u.declarations.isEmpty then
    spliceIn u.declarations
    blank
  fileRest env (env.functions u.imports).1 render u.methods u.fragments

/-- The code to take over is looked up only after the first lines. -/
theorem assemble_eq (env : Env) (s : State) : assemble env s =
    (fileHead env >>= fun _ => get >>= fileTail env s.place.out) (s.withOut {}) := by
  simp only [fileHead, bind_assoc]
  rfl

theorem Adds.fileHead (env : Env) : Adds i (fileHead env) fun _ => True :=
  (Adds.emit _).thenAny fun _ => Adds.blank.thenAny fun _ => (Adds.emit _).thenAny fun _ =>
    Adds.blank.any

/-- **A file ends in the render method, the methods of tags and the type that evaluates
fragments**, around the code that was collected for them. -/
theorem assemble_text {env : Env} {s t : State} (hm : s.methods.IsWhole)
    (ho : s.fragments.IsWhole) (hrun : assemble env s = .ok () t) :
    (∃ front, t.place.out.text =
      front ++ endText env s.place.out.text s.methods.text s.fragments.text) ∧
    t.fragmentCount = s.fragmentCount ∧ t.names = s.names ∧ ∀ k, t.HasLines k → s.HasLines k := by
  rw [assemble_eq] at hrun
  obtain ⟨_, u, hu, hrest⟩ := bind_eq_ok hrun
  obtain ⟨front, hfront, -⟩ := Adds.fileHead env (s.withOut {}) _ u rfl hu
  have hadds : Adds 0 (fileTail env s.place.out u) fun v => ∃ front, v = front ++
      endText env s.place.out.text s.methods.text s.fragments.text := by
    have hm' : u.methods = s.methods := hfront.methods
    have ho' : u.fragments = s.fragments := hfront.fragments
    simp only [fileTail, hm', ho']
    refine (Adds.block _ _ _).last fun _ => Adds.blank.last fun _ => ?_
    have hfile := Adds.fileRest env (env.functions u.imports).1 s.place.out hm ho
    exact .ite (fun _ => (Adds.spliceIn _).last fun _ => Adds.blank.last fun _ => hfile)
      fun _ => hfile
  obtain ⟨v, hv, back, rfl⟩ := hadds u () t hfront.indent hrest
  have htext := hfront.trans hv
  refine ⟨⟨front ++ back, ?_⟩, htext.count, htext.names, fun k hk => htext.lines k hk⟩
  rw [htext.text, ← List.append_assoc front]
  rfl

/-! ### What a page says of itself -/

theorem Adds.fragmentHelperAny (env : Env) (o : Writer) :
    Adds i (Generation.fragmentHelper env o) fun _ => True := by
  refine (Adds.emit _).thenAny fun _ => (Adds.block _ _ _).thenAny fun _ => ?_
  refine Adds.blank.thenAny fun _ => (Adds.emit _).thenAny fun _ => Adds.method _ _ _ ?_
  refine .ite (fun _ => (Adds.emit _).thenAny fun _ => (Adds.emit _).thenAny fun _ => ?_)
    fun _ => (Adds.emit _).any
  exact (Adds.emit _).thenAny fun _ => (Adds.spliceIn _).thenAny fun _ =>
    (Adds.emit _).thenAny fun _ => (Adds.emit _).any

/-- The file of a page holds what the page says of itself. -/
theorem assemble_holds {env : Env} (htag : env.page.tag = none) {s t : State}
    (hrun : assemble env s = .ok () t) :
    codeLines 2 (pageInfoLines env.page) <:+: t.place.out.text := by
  have hend : ∀ m o : Writer, Adds 0 (fileEnd env m o) fun _ => True := fun m o =>
    .ite (fun _ => Adds.blank.thenAny fun _ => (Adds.spliceIn m).thenAny fun _ =>
        Adds.blank.thenAny fun _ => .fragmentHelperAny env o)
      fun _ => Adds.blank.thenAny fun _ => .fragmentHelperAny env o
  have hfile : ∀ (entries : List Bytes) (m o : Writer), Adds 0
      (fileRest env entries s.place.out m o) (codeLines 2 (pageInfoLines env.page) <:+: ·) := by
    intro entries m o
    refine Adds.writeTexts.holdsAfter fun _ => (Adds.writeFunctions entries).holdsAfter fun _ => ?_
    refine (Adds.writeExpressions env).holdsAfter fun _ => ?_
    rw [htag]
    exact (Adds.pageType env).holdsBefore fun _ =>
      (Adds.renderMethod env s.place.out).thenAny fun _ => hend m o
  have hall : Adds 0 (fileHead env >>= fun _ => get >>= fileTail env s.place.out)
      (codeLines 2 (pageInfoLines env.page) <:+: ·) := by
    refine (Adds.fileHead env).holdsAfter fun _ => .get fun u => ?_
    refine (Adds.block _ _ _).holdsAfter fun _ => Adds.blank.holdsAfter fun _ => ?_
    exact .ite (fun _ => (Adds.spliceIn _).holdsAfter fun _ => Adds.blank.holdsAfter fun _ =>
      hfile _ _ _) fun _ => hfile _ _ _
  rw [assemble_eq] at hrun
  obtain ⟨v, hv, hholds⟩ := hall (s.withOut {}) () t rfl hrun
  rw [hv.text]
  exact List.IsInfix.trans hholds (List.suffix_append _ v).isInfix

end Adds

end ServerPages.Generation
