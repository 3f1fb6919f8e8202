import ServerPages.Proofs.TemplateText
import ServerPages.Proofs.WrittenText
import ServerPages.Validation.Validate

/-!
# Literal text from the page to the generated file

A generated file is read back: `GeneratedUnit.writtenText?` collects the arguments of the statements
of the render method, reads each as a quoted literal or looks it up in the block of constants, and
concatenates what they stand for. For a page of plain text this is the text of the page.

The path of a page stands in comments of its file, before the constants and before the render
method. A path may hold line ends, so the constants are looked for after the path and the
statements after the last line that opens the render method.

## Main results

* `Generation.writtenText?_pageFile`: reading the file of a page gives what its arguments stand for.
* `literalText_roundTrip`: literal text is written exactly as it stands in the page.
-/

namespace ServerPages

namespace Generation

/-! ### Reading a generated file -/

/-- Whether a text is on one line. -/
def isLine (s : Bytes) : Bool := s.all (· != 10)

theorem isLine_iff {s : Bytes} : isLine s = true ↔ 10 ∉ s := by
  simp [isLine]
  grind

theorem isLine_append (s t : Bytes) : isLine (s ++ t) = (isLine s && isLine t) := List.all_append

/-- A line of code with its indentation, without the line end. -/
def indentedLine (depth : Nat) (l : Bytes) : Bytes :=
  (if l == [] then [] else List.replicate depth 9) ++ l

theorem newline_not_mem_indentedLine {l : Bytes} (h : isLine l = true) (depth : Nat) :
    10 ∉ indentedLine depth l := by
  rw [indentedLine, List.mem_append]
  rintro (hm | hm)
  · split at hm
    · simp at hm
    · exact absurd (List.eq_of_mem_replicate hm) (by decide)
  · exact isLine_iff.mp h hm

/-- Lines of code are read back line by line, whatever follows them. -/
theorem splitOnByte_codeText {ls : List (Nat × Bytes)} (h : ls.all (isLine ·.2) = true)
    (rest : Bytes) : Bytes.splitOnByte 10 (codeText ls ++ rest) =
      ls.map (fun l => indentedLine l.1 l.2) ++ Bytes.splitOnByte 10 rest := by
  induction ls with
  | nil => rfl
  | cons l ls ih =>
    rw [List.all_cons, Bool.and_eq_true] at h
    have hl : codeText (l :: ls) ++ rest =
        indentedLine l.1 l.2 ++ 10 :: (codeText ls ++ rest) := by
      simp [codeText, codeLine, indentedLine]
    rw [hl, Bytes.splitOnByte_line (newline_not_mem_indentedLine h.1 l.1), ih h.2]
    rfl

/-- The argument of a statement that writes text. -/
def argument? (line : Bytes) : Option Bytes :=
  let code := line.trimLeft (· == 9)
  if code.startsWith "pc.Out().WriteString(" && code.endsWith ")" then
    some (code.drop 21).dropLast
  else none

theorem argument?_indented (a : Bytes) :
    argument? (indentedLine 1 (writeStatement a)) = some a := by
  have hcode : (indentedLine 1 (writeStatement a)).trimLeft (· == 9) = writeStatement a := rfl
  have hend : (writeStatement a).endsWith ")" = true := by
    rw [Bytes.endsWith, List.isSuffixOf_iff_suffix]
    exact ⟨"pc.Out().WriteString(" ++ a, rfl⟩
  rw [argument?, hcode, hend]
  show (if true && true then some ((a ++ Bytes.ofString ")").dropLast) else none) = some a
  simp [show Bytes.ofString ")" = [41] from rfl]

/-- The name and the literal of a constant. -/
def constant? (line : Bytes) : Option (Bytes × Bytes) :=
  ((line.trimLeft (· == 9)).cut? 32).map fun (name, value) => (name, value.drop 2)

theorem constant?_indented (i : Nat) (s : Bytes) :
    constant? (indentedLine 1 (textName i ++ " = " ++ Quoted.string s)) =
      some (textName i, Quoted.string s) := by
  have hspace : 32 ∉ textName i := by
    rw [textName, List.mem_append]
    rintro (h | h)
    · exact absurd h (by decide)
    · exact absurd (Bytes.isDigit_of_mem_ofNat h) (by decide)
  have hcode : (indentedLine 1 (textName i ++ " = " ++ Quoted.string s)).trimLeft (· == 9) =
      textName i ++ 32 :: (Bytes.ofString "= " ++ Quoted.string s) := by
    show textName i ++ Bytes.ofString " = " ++ Quoted.string s = _
    rw [List.append_assoc]
    rfl
  rw [constant?, hcode, Bytes.cut?_append hspace]
  rfl

/-- The lines of the block of constants in the file of the page at a path. -/
def constantLines (path source : Bytes) : List Bytes :=
  let code := source.dropStart ("// Code generated by pagec from " ++ path)
  (((code.splitOnByte 10).dropWhile (· != ("const (" : Bytes))).drop 1).takeWhile
    (· != (")" : Bytes))

/-- The lines after the one that opens the render method of the page. -/
def renderLines (typeName source : Bytes) : List Bytes :=
  ((source.splitOnByte 10).reverse.takeWhile
    fun l => !l.startsWith ("func (p *" ++ typeName ++ ") render(")).reverse

/-- The unit of the page at a path without directives, and how its literal text is written. -/
def plainPage (path : Bytes) (chunk : Int) (pool : Bool) : Env :=
  ⟨{ textChunkSize := chunk, poolLiteralText := pool }, path, {}⟩

/-- The lines of the head of a plain page after its path. -/
def plainHead : Bytes :=
  ". DO NOT EDIT.\n\npackage pages\n\nimport (\n\trt \"github.com/Drolfothesgnir/pagert\"\n)\n"

theorem headText_plainPage (path : Bytes) (chunk : Int) (pool : Bool) :
    headText (plainPage path chunk pool) (start (plainPage path chunk pool)).imports =
      Bytes.ofString "// Code generated by pagec from " ++ path ++ (plainHead ++ [10]) := by
  have himports : (start (plainPage path chunk pool)).imports.lines =
      [Bytes.ofString "rt " ++ Quoted.string defaultRuntimeImport] := List.mergeSort_singleton _
  have htail : Bytes.ofString ". DO NOT EDIT." ++ [10] ++ (codeLines 0 [[],
      Bytes.ofString "package " ++ Bytes.ofString "pages", [], "import ("] ++
      codeLines 1 [Bytes.ofString "rt " ++ Quoted.string defaultRuntimeImport] ++
      codeLines 0 [")", []]) = plainHead ++ [10] := by decide +kernel
  rw [headText, himports, ← htail]
  simp only [codeLines, List.flatMap_cons, List.flatMap_nil, List.append_assoc, codeLine_zero]
  rfl

theorem filterMap_mapIdx {α β γ : Type} {f : Nat → α → β} {g : β → Option γ} {k : Nat → α → γ}
    (h : ∀ i a, g (f i a) = some (k i a)) (l : List α) :
    (l.mapIdx f).filterMap g = l.mapIdx k := by
  induction l generalizing f k with
  | nil => rfl
  | cons a l ih =>
    rw [List.mapIdx_cons, List.mapIdx_cons, List.filterMap_cons_some (h 0 a),
      ih fun i => h (i + 1)]

/-- The lines of the constants of a unit. -/
def constantDeclarations (texts : List Bytes) : List Bytes :=
  texts.mapIdx fun i s => textName i ++ " = " ++ Quoted.string s

theorem isLine_textName (i : Nat) : isLine (textName i) = true :=
  isLine_iff.mpr (newline_not_mem_textName i)

theorem isLine_string (s : Bytes) : isLine (Quoted.string s) = true :=
  isLine_iff.mpr (Quoted.newline_not_mem_string s)

theorem isLine_constantDeclarations (texts : List Bytes) :
    ((constantDeclarations texts).map ((1 : Nat), ·)).all (isLine ·.2) = true := by
  rw [List.all_map, List.all_eq_true]
  intro l hl
  obtain ⟨i, hi, rfl⟩ := List.mem_mapIdx.mp hl
  simp only [Function.comp, isLine_append, isLine_textName, isLine_string]
  rfl

theorem splitOnByte_constantsText {texts : List Bytes} (h : texts ≠ []) (rest : Bytes) :
    Bytes.splitOnByte 10 (constantsText texts ++ rest) =
      Bytes.ofString "const (" :: ((constantDeclarations texts).map (indentedLine 1) ++
        Bytes.ofString ")" :: Bytes.splitOnByte 10 (codeLine 0 [] ++ rest)) := by
  have htext : constantsText texts ++ rest = Bytes.ofString "const (" ++ 10 ::
      (codeText ((constantDeclarations texts).map (1, ·)) ++
        (Bytes.ofString ")" ++ 10 :: (codeLine 0 [] ++ rest))) := by
    rw [constantsText, if_neg (by simpa using h), ← codeLines_eq]
    simp only [codeLine_zero, constantDeclarations, List.append_assoc, List.cons_append,
      List.nil_append]
  rw [htext, Bytes.splitOnByte_line (by decide),
    splitOnByte_codeText (isLine_constantDeclarations texts), Bytes.splitOnByte_line (by decide),
    List.map_map]
  rfl

/-- The constants of a plain page that has any are read as they were written. -/
theorem constants_pageFile {path : Bytes} {chunk : Int} {pool : Bool} {texts : List Bytes}
    (h : texts ≠ []) (rest : Bytes) :
    (constantLines path (headText (plainPage path chunk pool)
        (start (plainPage path chunk pool)).imports ++ constantsText texts ++ rest)).filterMap
      constant? = namedTexts texts := by
  have hhead : Bytes.splitOnByte 10 (plainHead ++ [10] ++ (constantsText texts ++ rest)) =
      Bytes.splitOnByte 10 plainHead ++ Bytes.splitOnByte 10 (constantsText texts ++ rest) := by
    rw [List.append_assoc]
    exact Bytes.splitOnByte_append_cons 10 plainHead _
  have hdrop : ∀ l ∈ Bytes.splitOnByte 10 plainHead, (l != Bytes.ofString "const (") = true := by
    decide +kernel
  have htake : ∀ l ∈ (constantDeclarations texts).map (indentedLine 1),
      (l != Bytes.ofString ")") = true := by
    intro l hl
    obtain ⟨m, hm, rfl⟩ := List.mem_map.mp hl
    obtain ⟨i, hi, rfl⟩ := List.mem_mapIdx.mp hm
    rfl
  rw [headText_plainPage, constantLines, List.append_assoc _ _ (constantsText texts),
    List.append_assoc _ _ rest, List.append_assoc _ _ rest, Bytes.dropStart_append, hhead,
    List.dropWhile_append_of_pos hdrop, splitOnByte_constantsText h,
    List.dropWhile_cons_of_neg (by simp), List.drop_succ_cons, List.drop_zero,
    List.takeWhile_append_of_pos htake, List.takeWhile_cons_of_neg (by simp), List.append_nil,
    List.filterMap_map]
  exact filterMap_mapIdx (g := constant? ∘ indentedLine 1) (fun i s => constant?_indented i s) texts

theorem isLine_fragmentType {env : Env} (h : isLine env.typeName = true) :
    isLine env.fragmentType = true := by
  rw [Env.fragmentType, isLine_append,
    isLine_iff.mpr (newline_not_mem_lowerFirst (isLine_iff.mp h))]
  rfl

theorem isLine_renderedLines {env : Env} {statements : List Bytes}
    (htype : isLine env.typeName = true) (hstatements : statements.all isLine = true) :
    (renderedLines env statements).all (isLine ·.2) = true := by
  have hfragment := isLine_fragmentType htype
  have hreceiver : isLine env.receiver = true := by
    rw [Env.receiver]
    split <;> rfl
  have hmap : (statements.map ((1 : Nat), ·)).all (isLine ·.2) = true := by
    rw [List.all_map]
    exact hstatements
  simp only [renderedLines, closingLines, fragmentLines, renderLine, List.all_cons,
    List.all_append, isLine_append, hmap, htype, hfragment, hreceiver]
  rfl

/-- The lines of a page file after the one that opens the render method. -/
def linesAfterRender (env : Env) (statements : List Bytes) : List Bytes :=
  (renderedLines env statements).tail.map (fun l => indentedLine l.1 l.2) ++ [[]]

/-- A line of a page file after the render method was opened opens no method of the page. -/
theorem not_startsWith_of_mem_linesAfterRender {env : Env} {args : List Bytes} {l : Bytes}
    (hl : l ∈ linesAfterRender env (args.map writeStatement)) (rest : Bytes) :
    l.startsWith (Bytes.ofString "func (p *" ++ rest) = false := by
  simp only [linesAfterRender, renderedLines, closingLines, fragmentLines, List.tail_cons,
    List.map_cons, List.map_append, List.map_map, List.mem_append, List.mem_cons, List.map_nil,
    List.not_mem_nil, or_false, List.mem_map] at hl
  rcases hl with (rfl | ⟨a, -, rfl⟩ | hl) | rfl
  · rfl
  · rfl
  · rcases hl with rfl | rfl | rfl | rfl | rfl | rfl | rfl | rfl | rfl | rfl | rfl | rfl <;> rfl
  · rfl

theorem renderLines_pageFile {env : Env} {args : List Bytes} (htag : env.page.tag = none)
    (htype : isLine env.typeName = true)
    (hargs : (args.map writeStatement).all isLine = true) (before : Bytes) :
    renderLines env.typeName
        (before ++ [10] ++ codeText (renderedLines env (args.map writeStatement))) =
      linesAfterRender env (args.map writeStatement) := by
  have hsplit : Bytes.splitOnByte 10
      (before ++ [10] ++ codeText (renderedLines env (args.map writeStatement))) =
      Bytes.splitOnByte 10 before ++
        renderLine env :: linesAfterRender env (args.map writeStatement) := by
    have h := splitOnByte_codeText (isLine_renderedLines htype hargs) []
    rw [List.append_nil] at h
    rw [List.append_assoc, List.singleton_append, Bytes.splitOnByte_append_cons, h]
    rfl
  have hopen : (renderLine env).startsWith
      (Bytes.ofString "func (p *" ++ env.typeName ++ Bytes.ofString ") render(") = true := by
    rw [renderLine, Env.receiver, htag, Bytes.startsWith_iff]
    refine ⟨Bytes.ofString "pc *rt.PageContext, frags *" ++ env.fragmentType ++
      Bytes.ofString ") error" ++ Bytes.ofString " \x7b", ?_⟩
    simp only [List.append_assoc]
    rfl
  have hafter : ∀ l ∈ (linesAfterRender env (args.map writeStatement)).reverse,
      (!l.startsWith (Bytes.ofString "func (p *" ++ env.typeName ++ Bytes.ofString ") render(")) =
        true := by
    intro l hl
    rw [List.append_assoc, not_startsWith_of_mem_linesAfterRender (List.mem_reverse.mp hl)]
    rfl
  have hreverse : (Bytes.splitOnByte 10 before ++
      renderLine env :: linesAfterRender env (args.map writeStatement)).reverse =
      (linesAfterRender env (args.map writeStatement)).reverse ++
        renderLine env :: (Bytes.splitOnByte 10 before).reverse := by simp
  rw [renderLines, hsplit, hreverse, List.takeWhile_append_of_pos hafter,
    List.takeWhile_cons_of_neg (by rw [hopen]; decide), List.append_nil, List.reverse_reverse]

/-- The statements of the render method are found among its lines. -/
theorem filterMap_argument?_linesAfterRender (env : Env) (args : List Bytes) :
    (linesAfterRender env (args.map writeStatement)).filterMap argument? = args := by
  have hstatements : ((args.map writeStatement).map (indentedLine 1)).filterMap argument? =
      args := by
    have hsome : argument? ∘ indentedLine 1 ∘ writeStatement = some :=
      funext argument?_indented
    rw [List.map_map, List.filterMap_map, hsome, List.filterMap_some]
  have hclosing : ((closingLines env).map fun l => indentedLine l.1 l.2).filterMap argument? =
      [] := rfl
  have hlines : linesAfterRender env (args.map writeStatement) =
      indentedLine 1 "_ = frags" :: ((args.map writeStatement).map (indentedLine 1) ++
        ((closingLines env).map fun l => indentedLine l.1 l.2) ++ [[]]) := by
    simp [linesAfterRender, renderedLines, Function.comp_def]
  rw [hlines, List.filterMap_cons_none rfl, List.filterMap_append, List.filterMap_append,
    hstatements, hclosing]
  simp [show argument? [] = none from rfl]

end Generation

/-- The text that the file generated for the page at a path writes: the arguments of the statements
of its render method, with constants looked up. -/
def GeneratedUnit.writtenText? (u : GeneratedUnit) (path : Bytes) : Option Bytes :=
  let constants := (Generation.constantLines path u.source).filterMap Generation.constant?
  (((Generation.renderLines u.typeName u.source).filterMap Generation.argument?).mapM
    (Generation.argumentText? constants)).map List.flatten

namespace Generation

theorem mapM_argumentText? {constants : List (Bytes × Bytes)} {args : List (Bytes × Bytes)}
    (h : ∀ p ∈ args, argumentText? constants p.2 = some p.1) :
    (args.map (·.2)).mapM (argumentText? constants) = some (args.map (·.1)) := by
  induction args with
  | nil => rfl
  | cons p args ih =>
    rw [List.map_cons, List.mapM_cons, h p List.mem_cons_self,
      ih fun q hq => h q (List.mem_cons_of_mem p hq)]
    rfl

theorem isLine_writeStatement {texts : List Bytes} {piece a : Bytes}
    (h : IsArgument texts piece a) : isLine (writeStatement a) = true := by
  rw [writeStatement, isLine_append, isLine_append, isLine_iff.mpr h.newline_not_mem]
  rfl

/-- The text written by the file of a plain page is what the arguments of its statements give. -/
theorem writtenText?_pageFile {u : GeneratedUnit} {path : Bytes} {chunk : Int} {pool : Bool}
    {args : List (Bytes × Bytes)} {texts : List Bytes} (htype : u.typeName = typeName path)
    (h : IsPageFile (plainPage path chunk pool) args texts u.source) :
    u.writtenText? path = some (args.map (·.1)).flatten := by
  obtain ⟨⟨middle, hsource⟩, hargs⟩ := h
  have hname : u.typeName = (plainPage path chunk pool).typeName := htype
  have hline : isLine (plainPage path chunk pool).typeName = true :=
    isLine_iff.mpr (newline_not_mem_typeName path)
  have hstatements : (args.map fun p => writeStatement p.2) =
      (args.map (·.2)).map writeStatement := by rw [List.map_map]; rfl
  have hall : ((args.map (·.2)).map writeStatement).all isLine = true := by
    rw [← hstatements, List.all_map, List.all_eq_true]
    exact fun p hp => isLine_writeStatement (hargs p hp)
  have hrender : renderLines u.typeName u.source =
      linesAfterRender (plainPage path chunk pool) ((args.map (·.2)).map writeStatement) := by
    rw [hname, hsource, hstatements, ← List.append_assoc]
    exact renderLines_pageFile rfl hline hall _
  have hread : ∀ p ∈ args, argumentText?
      ((constantLines path u.source).filterMap constant?) p.2 = some p.1 := by
    intro p hp
    by_cases htexts : texts = []
    · rcases hargs p hp with hq | ⟨i, -, hi⟩
      · rw [hq, argumentText?_string]
      · rw [htexts] at hi
        simp at hi
    · rw [hsource, List.append_assoc _ (middle ++ [10]), constants_pageFile htexts]
      exact (hargs p hp).text
  rw [GeneratedUnit.writtenText?, hrender, filterMap_argument?_linesAfterRender,
    mapM_argumentText? hread]
  rfl

end Generation

/-! ### The whole way -/

/-- A native page at a path. -/
def nativePage (path text : Bytes) (elIgnored : Bool) (encoding : Bytes) : ParseRequest where
  path := path
  text := text
  form := .native
  elIgnored := elIgnored
  encoding := encoding

/-- What the root of a native page says about its unit. -/
def nativeUnit (path encoding : Bytes) : UnitInfo :=
  { file := path, isDocument := false, isTagFile := false, encoding := encoding }

/-- The tree of a page of plain text that was checked: nothing is added but what the directives of
a page without directives say. -/
def checkedPlain (path encoding s : Bytes) (p : Position) : Node :=
  .mk { kind := .root, start := p,
        unit := some { nativeUnit path encoding with page := some {} },
        info := Validation.emptyInfo }
    ((Parsing.Native.textNodesOf s p).map fun n =>
      .leaf { n.head with info := Validation.emptyInfo })

theorem validate_plain {σ : Type} (library : Option (Bytes → σ → Except Fault TagLibrary × σ))
    (binder : Binder) (memory : σ) (path encoding s : Bytes) (p : Position) :
    Node.validate library { binder := binder } memory
      (.mk { kind := .root, start := p, unit := some (nativeUnit path encoding) }
        (Parsing.Native.textNodesOf s p)) = ⟨checkedPlain path encoding s p, none, memory⟩ := by
  rw [checkedPlain, Parsing.Native.textNodesOf]
  split <;> rfl

theorem Node.generate_eq_ok (root : Node) (options : Generation.Options) {u : UnitInfo}
    {page : PageInfo} {s : Generation.State} (hunit : root.head.unit = some u)
    (hpage : root.page? = some page)
    (hrun : Generation.unit ⟨options, u.file, page⟩ (root.numbered 1).1.height
      (root.numbered 1).1.children (Generation.start ⟨options, u.file, page⟩) = .ok () s) :
    ∃ unit, root.generate options = .ok unit ∧ unit.source = s.place.out.text ∧
      unit.typeName = (⟨options, u.file, page⟩ : Generation.Env).typeName := by
  simp only [Node.generate, hunit, hpage, hrun]
  exact ⟨_, rfl, rfl, rfl⟩

/-- The one text of a plain page, or nothing, is written by the statements of that text. -/
theorem body_checkedPlain (env : Generation.Env) (path encoding s : Bytes) (p : Position) :
    Generation.body env ((checkedPlain path encoding s p).numbered 1).1.height
      ((checkedPlain path encoding s p).numbered 1).1.children = Generation.text env 2 s := by
  rw [checkedPlain, Parsing.Native.textNodesOf]
  split
  · next hs =>
      rw [hs]
      rfl
  · exact bind_pure_unit

/-- The code generated for a checked page of plain text writes the text. -/
theorem generate_plain (path encoding s : Bytes) (p : Position) (chunk : Int) (pool : Bool) :
    ∃ unit, (checkedPlain path encoding s p).generate
        { textChunkSize := chunk, poolLiteralText := pool } = .ok unit ∧
      unit.writtenText? path = some s := by
  obtain ⟨args, texts, s', hrun, hfile, hargs⟩ := Generation.unit_page
    (Generation.plainPage path chunk pool) rfl rfl rfl
    (body_checkedPlain _ path encoding s p)
  obtain ⟨unit, hunit, hsource, htype⟩ := Node.generate_eq_ok
    (checkedPlain path encoding s p) { textChunkSize := chunk, poolLiteralText := pool }
    rfl rfl hrun
  refine ⟨unit, hunit, ?_⟩
  rw [← hargs]
  exact Generation.writtenText?_pageFile htype (hsource ▸ hfile)

/-- **Literal text round trip.** A native page that is plain text, at a path that is not that of a
tag file, is parsed as one text node at the start of the page and is valid. Whatever the size of
chunks and whether texts are pooled, the arguments of the statements in the generated file, read as
literals or names of constants, concatenate to the text. -/
theorem literalText_roundTrip {σ : Type} (host : Host σ)
    (library : Option (Bytes → σ → Except Fault TagLibrary × σ)) (binder : Binder) (memory : σ)
    (elIgnored : Bool) (encoding : Bytes) {path s : Bytes} (chunk : Nat) (pool : Bool)
    (hpath : isTagFilePath path = false) (hvalid : Utf8.isValid s = true)
    (hplain : ∀ m ∈ Parsing.Native.markers, ¬ m <:+: s) :
    ∃ tree unit,
      (nativePage path s elIgnored encoding).parse host memory = (.ok tree, memory) ∧
      (s = [] → tree.children = []) ∧
      (s ≠ [] → ∃ n, tree.children = [n] ∧ n.kind = .text ∧ n.text = s ∧
        n.start.line = 1 ∧ n.start.col = 1) ∧
      (tree.validate library { binder := binder } memory).failure = none ∧
      (tree.validate library { binder := binder } memory).tree.generate
        { textChunkSize := chunk, poolLiteralText := pool } = .ok unit ∧
      unit.writtenText? path = some s := by
  have hroot : (nativePage path s elIgnored encoding).root (Cursor.ofText path s).position =
      { kind := .root, start := (Cursor.ofText path s).position,
        unit := some (nativeUnit path encoding) } := by
    have htag : (nativePage path s elIgnored encoding).path = path := rfl
    rw [ParseRequest.root, htag, hpath]
    rfl
  have hchecked := validate_plain library binder memory path encoding s
    (Cursor.ofText path s).position
  obtain ⟨unit, hgen, hread⟩ :=
    generate_plain path encoding s (Cursor.ofText path s).position chunk pool
  refine ⟨_, unit, ParseRequest.parse_plain (r := nativePage path s elIgnored encoding) host memory
    rfl rfl ⟨hvalid, hplain⟩, ?_, ?_, ?_, ?_, hread⟩
  · intro hs
    exact if_pos hs
  · intro hs
    exact ⟨_, if_neg hs, rfl, rfl, rfl, rfl⟩
  · show (Node.validate library { binder := binder } memory (.mk ((nativePage path s elIgnored
      encoding).root (Cursor.ofText path s).position) _)).failure = none
    rw [hroot]
    exact congrArg Validated.failure hchecked
  · show (Node.validate library { binder := binder } memory (.mk ((nativePage path s elIgnored
      encoding).root (Cursor.ofText path s).position) _)).tree.generate _ = .ok unit
    rw [hroot]
    exact (congrArg (fun v => Node.generate _ (Validated.tree v)) hchecked).trans hgen

/-- A text of several scans and lines: a `<` alone, a line end, a character of two bytes. -/
theorem literalText_roundTrip_example : isTagFilePath "/a.jsp" = false ∧
    ∃ tree unit,
      (nativePage "/a.jsp" "a < b\né<i>" false []).parse ({} : Host Unit) () = (.ok tree, ()) ∧
      (tree.validate none {} ()).tree.generate { textChunkSize := 2, poolLiteralText := true } =
        .ok unit ∧ unit.writtenText? "/a.jsp" = some (Bytes.ofString "a < b\né<i>") := by
  have hpath : isTagFilePath "/a.jsp" = false := by decide +kernel
  have hvalid : Utf8.isValid "a < b\né<i>" = true := by decide +kernel
  have hplain : ∀ m ∈ Parsing.Native.markers, ¬ m <:+: Bytes.ofString "a < b\né<i>" := by
    decide +kernel
  obtain ⟨tree, unit, hparse, -, -, -, hgen, hread⟩ := literalText_roundTrip ({} : Host Unit) none
    Setter.byName () false [] 2 true hpath hvalid hplain
  exact ⟨hpath, tree, unit, hparse, hgen, hread⟩

end ServerPages
