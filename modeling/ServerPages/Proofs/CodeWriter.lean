import ServerPages.Generation.Unit
import ServerPages.Proofs.Steps

/-!
# What steps of code generation write

The parts of a generated file are put together by steps that only write to the current writer. What
such a step writes depends on how far the writer is indented, and steps that follow each other write
their texts one after the other. So the text of a file is known from the texts of its parts, without
looking at writers again.

## Main results

* `Prints.seq`, `Prints.block`, `Prints.method`: the texts of composed steps.
* `pageType_prints`, `fragmentHelper_prints`: the texts of the parts of a page.
* `assemble_page`: the file of a page without tags and declarations.
-/

namespace ServerPages.Generation

/-! ### Writers -/

/-- A line of code with its indentation. -/
def codeLine (depth : Nat) (s : Bytes) : Bytes :=
  (if s == [] then [] else List.replicate depth 9) ++ s ++ [10]

theorem codeLine_zero (s : Bytes) : codeLine 0 s = s ++ [10] := by
  rw [codeLine]
  split <;> rfl

/-- Lines of code with their indentation. -/
def codeLines (depth : Nat) (ls : List Bytes) : Bytes := ls.flatMap (codeLine depth)

/-- Lines of code, each with its own indentation. -/
def codeText (ls : List (Nat × Bytes)) : Bytes := ls.flatMap fun l => codeLine l.1 l.2

theorem codeLine_infix_codeLines {depth : Nat} {l : Bytes} {ls : List Bytes} (h : l ∈ ls) :
    codeLine depth l <:+: codeLines depth ls := by
  rw [codeLines, List.flatMap_def]
  exact List.infix_of_mem_flatten (List.mem_map_of_mem h)

theorem codeLines_eq (depth : Nat) (ls : List Bytes) :
    codeLines depth ls = codeText (ls.map (depth, ·)) := by
  rw [codeText, List.flatMap_map]
  rfl

theorem codeText_append (ls ms : List (Nat × Bytes)) :
    codeText (ls ++ ms) = codeText ls ++ codeText ms := List.flatMap_append

theorem Writer.text_println (w : Writer) (s : Bytes) :
    (w.println s).text = w.text ++ codeLine w.indent s := by
  simp [Writer.println, Writer.text, codeLine]

theorem Writer.text_splice (w o : Writer) (spans : Spans) :
    (w.splice o spans).1.text = w.text ++ o.text := by
  simp [Writer.splice, Writer.text]

/-! ### Steps that only write -/

/-- The state with another writer in its place and other lines of nodes. -/
def State.rewritten (s : State) (out : Writer) (spans : Spans) : State :=
  { s with place := { s.place with out := out }, spans := spans }

/-- What the unit shares while a file without tags is put together: text constants and imports,
and neither expressions nor pools. -/
structure State.Shares (s : State) (texts : List Bytes) (imports : Imports) : Prop where
  texts : s.texts = texts
  imports : s.imports = imports
  expressions : s.expressions = []
  pools : s.pools = []
  declarations : s.declarations = {}
  methods : s.methods = {}
  fragments : s.fragments = {}

section Prints

variable {texts : List Bytes} {imports : Imports}

/-- The step writes the text `t` of the indentation to the current writer and does nothing else, but
for the lines of nodes. -/
def Prints (texts : List Bytes) (imports : Imports) (m : Gen Unit) (t : Nat → Bytes) : Prop :=
  ∀ s : State, s.Shares texts imports → ∃ out spans, m s = .ok () (s.rewritten out spans) ∧
    out.text = s.place.out.text ++ t s.place.out.indent ∧ out.indent = s.place.out.indent

theorem State.Shares.rewritten {s : State} (h : s.Shares texts imports) (out : Writer)
    (spans : Spans) : (s.rewritten out spans).Shares texts imports :=
  ⟨h.texts, h.imports, h.expressions, h.pools, h.declarations, h.methods, h.fragments⟩

theorem Prints.seq {m n : Gen Unit} {t u : Nat → Bytes} (hm : Prints texts imports m t)
    (hn : Prints texts imports n u) :
    Prints texts imports (m >>= fun _ => n) fun i => t i ++ u i := by
  intro s hs
  obtain ⟨out, spans, hmr, ht, hi⟩ := hm s hs
  obtain ⟨out', spans', hnr, hu, hi'⟩ := hn _ (hs.rewritten out spans)
  refine ⟨out', spans', ?_, ?_, hi'.trans hi⟩
  · simp only [bind, EStateM.bind, hmr]
    exact hnr
  · rw [hu]
    show out.text ++ u out.indent = _
    rw [ht, hi, List.append_assoc]

theorem Prints.skip : Prints texts imports (pure ()) fun _ => [] := by
  intro s _
  exact ⟨s.place.out, s.spans, rfl, (List.append_nil _).symm, rfl⟩

theorem Prints.emit (x : Bytes) : Prints texts imports (emit x) fun i => codeLine i x := by
  intro s _
  exact ⟨s.place.out.println x, s.spans, rfl, Writer.text_println _ _, rfl⟩

theorem Prints.emitAll (ls : List Bytes) :
    Prints texts imports (emitAll ls) fun i => codeLines i ls := by
  induction ls with
  | nil => exact Prints.skip
  | cons l ls ih => exact (Prints.emit l).seq ih

theorem Prints.spliceIn (o : Writer) : Prints texts imports (spliceIn o) fun _ => o.text := by
  intro s _
  exact ⟨(s.place.out.splice o s.spans).1, (s.place.out.splice o s.spans).2, rfl,
    Writer.text_splice _ _ _, rfl⟩

theorem outdent_eq {s : State} {w : Writer} (h : s.place.out.outdented? = some w) :
    outdent s = .ok () (s.rewritten w s.spans) := by
  rw [outdent, bind_get, h]
  rfl

/-- Code between two lines, indented further. -/
theorem Prints.within {m : Gen Unit} {t : Nat → Bytes} (hm : Prints texts imports m t)
    (opening closing : Bytes) :
    Prints texts imports (openBlock opening >>= fun _ => m >>= fun _ => closeBlock closing)
      fun i => codeLine i opening ++ (t (i + 1) ++ codeLine i closing) := by
  intro s hs
  obtain ⟨out, spans, hmr, ht, hi⟩ :=
    hm (s.rewritten (s.place.out.openBlock opening) s.spans) (hs.rewritten _ _)
  have hout : out.outdented? = some { out with indent := s.place.out.indent } := by
    rw [Writer.outdented?, hi]
    rfl
  refine ⟨({ out with indent := s.place.out.indent } : Writer).println closing, spans, ?_, ?_, rfl⟩
  · have hopen : Generation.openBlock opening s =
        .ok () (s.rewritten (s.place.out.openBlock opening) s.spans) := rfl
    have hclose : Generation.closeBlock closing
        ((s.rewritten (s.place.out.openBlock opening) s.spans).rewritten out spans) =
        .ok () (s.rewritten (({ out with indent := s.place.out.indent } : Writer).println closing)
          spans) := by
      rw [Generation.closeBlock, bind_ok (outdent_eq hout)]
      rfl
    simp only [bind, EStateM.bind, hopen, hmr, hclose]
  · rw [Writer.text_println]
    have ht' : out.text = (s.place.out.openBlock opening).text ++ t (s.place.out.indent + 1) := ht
    show out.text ++ codeLine s.place.out.indent closing = _
    have hopen : (s.place.out.openBlock opening).text = (s.place.out.println opening).text := rfl
    rw [ht', hopen, Writer.text_println]
    simp only [List.append_assoc]

theorem Prints.block (opening : Bytes) (ls : List Bytes) (closing : Bytes) :
    Prints texts imports (block opening ls closing)
      fun i => codeLine i opening ++ (codeLines (i + 1) ls ++ codeLine i closing) :=
  (Prints.emitAll ls).within opening closing

theorem Prints.method (receiver type signature : Bytes) {m : Gen Unit} {t : Nat → Bytes}
    (hm : Prints texts imports m t) :
    Prints texts imports (method receiver type signature m) fun i =>
      codeLine i ("func (" ++ receiver ++ " *" ++ type ++ ") " ++ signature ++ " \x7b") ++
        (t (i + 1) ++ codeLine i "\x7d") :=
  hm.within _ _

theorem Prints.get {f : State → Gen Unit} {t : Nat → Bytes}
    (h : ∀ s, s.Shares texts imports → Prints texts imports (f s) t) :
    Prints texts imports (get >>= f) t :=
  fun s hs => h s hs s hs

theorem Prints.exists_run {m : Gen Unit} {s : State} {x : Bytes} (hs : s.Shares texts imports)
    (h : ∃ t, Prints texts imports m t ∧ s.place.out.text ++ t s.place.out.indent = x) :
    ∃ s', m s = .ok () s' ∧ s'.place.out.text = x := by
  obtain ⟨t, hm, rfl⟩ := h
  obtain ⟨out, spans, hrun, ht, -⟩ := hm s hs
  exact ⟨_, hrun, ht⟩

/-! ### Parts of the file of a page -/

/-- The block of text constants. -/
def constantsText (texts : List Bytes) : Bytes :=
  if texts.isEmpty then []
  else codeLine 0 "const (" ++
    (codeLines 1 (texts.mapIdx fun i s => textName i ++ " = " ++ Quoted.string s) ++
      codeLine 0 ")") ++ codeLine 0 []

theorem Prints.writeTexts : Prints texts imports writeTexts fun i =>
    if texts.isEmpty then []
    else codeLine i "const (" ++
      (codeLines (i + 1) (texts.mapIdx fun i s => textName i ++ " = " ++ Quoted.string s) ++
        codeLine i ")") ++ codeLine i [] := by
  refine Prints.get fun s hs => ?_
  rw [hs.texts]
  clear hs
  cases texts with
  | nil => exact Prints.skip
  | cons t ts => exact (Prints.block _ _ _).seq (Prints.emit [])

theorem Prints.writeFunctions : Prints texts imports (writeFunctions []) fun _ => [] :=
  Prints.skip

theorem Prints.writeExpressions (env : Env) :
    Prints texts imports (writeExpressions env) fun _ => [] := by
  refine Prints.get fun s hs => ?_
  rw [hs.expressions]
  exact Prints.skip

theorem Prints.structType (env : Env) : Prints texts imports (structType env []) fun i =>
    codeLine i ("type " ++ env.typeName ++ " struct\x7b\x7d") := by
  refine Prints.get fun s hs => ?_
  rw [hs.pools]
  exact Prints.emit _

theorem Prints.pageType (texts : List Bytes) (imports : Imports) (env : Env) :
    ∃ t, Prints texts imports (pageType env) t ∧ ∃ u, t 0 = u ++ [10] := by
  refine ⟨_, (Prints.emit _).seq <| (Prints.structType env).seq <| (Prints.emit _).seq <|
    (Prints.method _ _ _ (Prints.block _ _ _)).seq <| (Prints.emit _).seq <|
    (Prints.emit _).seq <| (Prints.method _ _ _ <| (Prints.emit _).seq <|
      ((Prints.emit _).within _ _).seq <| Prints.emit _).seq <| Prints.emit _, ?_⟩
  simp only [codeLine_zero, ← List.append_assoc]
  exact ⟨_, rfl⟩

/-- The type that evaluates the fragment bodies of a page that has none. -/
def fragmentLines (env : Env) : List (Nat × Bytes) := [
  (0, "// " ++ env.fragmentType ++ " evaluates the fragment bodies of " ++ env.typeName ++ "."),
  (0, "type " ++ env.fragmentType ++ " struct \x7b"), (1, "p *" ++ env.typeName), (0, "\x7d"),
  (0, []), (0, "// Invoke implements rt.FragmentHelper."),
  (0, "func (" ++ "f" ++ " *" ++ env.fragmentType ++ ") " ++
    "Invoke(pc *rt.PageContext, id int, parent rt.Tag) error" ++ " \x7b"),
  (1, "return rt.UnknownFragment(id)"), (0, "\x7d")]

theorem Prints.fragmentHelper (texts : List Bytes) (imports : Imports) (env : Env) :
    ∃ t, Prints texts imports (fragmentHelper env {}) t ∧ t 0 = codeText (fragmentLines env) := by
  refine ⟨_, (Prints.emit _).seq <| (Prints.block _ _ _).seq <| (Prints.emit _).seq <|
    (Prints.emit _).seq <| Prints.method _ _ _ <| Prints.emit _, ?_⟩
  simp [fragmentLines, codeLines, codeText]

/-- The lines of the file of a page after the code of its content. -/
def closingLines (env : Env) : List (Nat × Bytes) :=
  (1, "return nil") :: (0, "\x7d") :: (0, []) :: fragmentLines env

/-- What stands before the constants in the file of a page. -/
def headText (env : Env) (imports : Imports) : Bytes :=
  codeLines 0 ["// Code generated by pagec from " ++ env.file ++ ". DO NOT EDIT.", [],
    "package " ++ env.package, [], "import ("] ++
  codeLines 1 imports.lines ++ codeLines 0 [")", []]

/-- The line that opens the render method of a page. -/
def renderLine (env : Env) : Bytes :=
  "func (" ++ env.receiver ++ " *" ++ env.typeName ++ ") " ++
    ("render(pc *rt.PageContext, frags *" ++ env.fragmentType ++ ") error") ++ " \x7b"

/-- The file of a page without tags, declarations and expressions: constants, the type of the page
and the render method around the code of its content. -/
theorem assemble_page {env : Env} {s : State} (hfun : env.page.functions = [])
    (htag : env.page.tag = none) (hs : s.Shares texts imports) :
    ∃ middle s', assemble env s = .ok () s' ∧
      s'.place.out.text = headText env imports ++ constantsText texts ++ (middle ++ [10]) ++
        (codeText [(0, renderLine env), (1, "_ = frags")] ++ s.place.out.text ++
          codeText (closingLines env)) := by
  obtain ⟨t, ht, v, ht0⟩ := Prints.pageType texts imports env
  obtain ⟨u, hu, hu0⟩ := Prints.fragmentHelper texts imports env
  have hs₀ : (s.rewritten {} s.spans).Shares texts imports := hs.rewritten _ _
  have hfunctions : env.functions imports = ([], imports) := by
    rw [Env.functions, hfun, List.perm_nil.mp (env.options.order.perm [])]
    rfl
  unfold assemble
  rw [htag, bind_get, bind_modify]
  refine ⟨v, Prints.exists_run hs₀ ⟨_, (Prints.emit _).seq <| (Prints.emit _).seq <|
    (Prints.emit _).seq <| (Prints.emit _).seq <| Prints.get fun s' hs' => by
      rw [hs'.imports, hs'.declarations, hs'.methods, hs'.fragments, hfunctions]
      exact (Prints.block _ _ _).seq <| (Prints.emit _).seq <| Prints.writeTexts.seq <|
        Prints.writeFunctions.seq <| (Prints.writeExpressions env).seq <| ht.seq <|
        (Prints.method _ _ _ <| (Prints.emit _).seq <| (Prints.spliceIn _).seq <|
          Prints.emit _).seq <| (Prints.emit _).seq hu, ?_⟩⟩
  simp [headText, constantsText, renderLine, codeLines, codeText, closingLines, ht0, hu0,
    Writer.text]

end Prints

end ServerPages.Generation
