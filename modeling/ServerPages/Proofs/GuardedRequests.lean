import ServerPages.Compilation.Session
import ServerPages.Proofs.CleanPaths
import ServerPages.Proofs.CleanSession
import ServerPages.Proofs.LoadedLibraries
import ServerPages.Proofs.ParseBookkeeping

/-!
# Guarded requests

Names of files come from the paths that a compiler is asked for, from the references and the uris in
sources, and from the tag files of libraries. The registry and the compiler are written over any
access to files, which is given the names.

A guarded access lets the names through that stay inside. What it does about all others is left
open: it may answer anything, and do anything to the session, such as noting the name in the log,
from which nothing is ever taken. A request that is the same whatever is done about such names
never gives one.

A parse loads nothing but pages. A reference is followed from the file that is being read, which is
the page that is parsed or one that was included, so that it leads to a page again. The parsers take
from their surroundings the libraries and the tag files themselves; only the parser of included
files takes the loader. Two parses with different loaders are run side by side in every source, as
a watched parse and the parse are.

A page asked for is read by its clean path, so is a tag file, and a file that is included is one
that a page leads to.

## Main definitions

* `FileAccess.guarded`: what is done about names that lead outside is left to another access.

## Main results

* `Registry.answerM_guarded`, `Registry.loadAllM_guarded`: a registry asks for no name outside.
* `ParseRequest.parse_congr_load`: a parse does not change with what a loader does for paths that
  are none of pages.
* `Compiler.compileUnit_guarded`: a unit gives no name outside if no tag file does.
* `Compiler.describeWithin_guarded`: and no tag file does.
* `FileAccess.guarded_unnoticed`: no request does.
-/

namespace ServerPages

open SlashPath

/-! ### Access to files -/

/-- The paths under a path are those of files, but for the path of a file itself. -/
theorem FileTree.mem_of_walk {t : FileTree} {path p : Bytes} {paths : List Bytes}
    (h : t.walk path = .ok paths) (hp : p ∈ paths) : p = path ∨ ∃ f ∈ t.files, f.1 = p := by
  unfold walk at h
  split at h
  · obtain rfl := Except.ok.inj h
    exact .inl (List.mem_singleton.mp hp)
  split at h
  · cases h
  · obtain rfl := Except.ok.inj h
    rw [List.mem_mergeSort] at hp
    exact .inr (List.mem_map.mp (List.mem_filter.mp hp).1)

/-- Names that stay inside are answered by the tree, all others in some other way. -/
def FileAccess.guarded {m : Type → Type} [Pure m] (outside : FileAccess m) : FileAccess m where
  read t name := if StaysInside name then direct.read t name else outside.read t name
  opened t name := if StaysInside name then direct.opened t name else outside.opened t name
  list t name := if StaysInside name then direct.list t name else outside.list t name
  walk t name := if StaysInside name then direct.walk t name else outside.walk t name

/-! ### Libraries -/

namespace Registry

variable {m : Type → Type} [Monad m] (outside : FileAccess m) (r : Registry)

/-- A library is looked for by the name that its uri leads to from the root. -/
theorem loadM_guarded (uri : Bytes) :
    @loadM m _ ⟨.guarded outside⟩ r uri = @loadM m _ ⟨.direct⟩ r uri := by
  have hopened : ∀ files path, (FileAccess.guarded outside).opened files (FileTree.pathOf path) =
      FileAccess.direct.opened files (FileTree.pathOf path) :=
    fun _ path => if_pos (FileTree.staysInside_pathOf path)
  have hlist : ∀ files path, (FileAccess.guarded outside).list files (FileTree.pathOf path) =
      FileAccess.direct.list files (FileTree.pathOf path) :=
    fun _ path => if_pos (FileTree.staysInside_pathOf path)
  unfold loadM loadDocumentM loadDirectoryM
  cases r.files with
  | none => rfl
  | some files =>
    dsimp only
    rw [hopened, hlist]

/-- **A registry** asks for no name outside, whatever the uri is. -/
theorem answerM_guarded (uri : Bytes) :
    @answerM m _ ⟨.guarded outside⟩ uri r = @answerM m _ ⟨.direct⟩ uri r := by
  unfold answerM resolveM
  rw [loadM_guarded]

/-- A document is read by its own name. -/
theorem addDocumentM_guarded (files : FileTree) {path : Bytes} (hpath : StaysInside path) :
    @addDocumentM m _ ⟨.guarded outside⟩ files r path =
      @addDocumentM m _ ⟨.direct⟩ files r path := by
  have hread : (FileAccess.guarded outside).read files path =
      FileAccess.direct.read files path := if_pos hpath
  unfold addDocumentM
  dsimp only
  rw [hread]

theorem addDocumentsM_guarded (files : FileTree) {paths : List Bytes}
    (hpaths : ∀ path ∈ paths, StaysInside path) :
    @addDocumentsM m _ ⟨.guarded outside⟩ files r paths =
      @addDocumentsM m _ ⟨.direct⟩ files r paths := by
  induction paths generalizing r with
  | nil => rfl
  | cons path paths ih =>
    obtain ⟨hpath, hpaths⟩ := List.forall_mem_cons.mp hpaths
    unfold addDocumentsM
    rw [addDocumentM_guarded outside r files hpath]
    refine congrArg _ (funext fun added => ?_)
    cases added with
    | error f => rfl
    | ok r => exact ih r hpaths

/-- **Loading all libraries** asks for no name outside, if no file of the tree has one. -/
theorem loadAllM_guarded [LawfulMonad m] {files : FileTree}
    (hfiles : ∀ f ∈ files.files, StaysInside f.1) (directory : Bytes) :
    @loadAllM m _ ⟨.guarded outside⟩ r files directory =
      @loadAllM m _ ⟨.direct⟩ r files directory := by
  have hdirectory := FileTree.staysInside_pathOf directory
  have hwalk : (FileAccess.guarded outside).walk files (FileTree.pathOf directory) =
      pure (files.walk (FileTree.pathOf directory)) := if_pos hdirectory
  unfold loadAllM
  dsimp only
  rw [hwalk]
  simp only [FileAccess.direct, pure_bind]
  cases hpaths : files.walk (FileTree.pathOf directory) with
  | error f => rfl
  | ok paths =>
    refine addDocumentsM_guarded outside r files fun path hpath => ?_
    rcases FileTree.mem_of_walk hpaths (List.mem_filter.mp hpath).1 with rfl | ⟨f, hf, rfl⟩
    · exact hdirectory
    · exact hfiles f hf

end Registry

/-! ### Included pages -/

namespace Parsing

variable {σ α : Type} {x y z : Parse σ α} {s : State σ} {Q : α → State σ → Prop}

/-! ### Agreement -/

/-- A parser that agrees with another one agrees with itself. -/
theorem Agrees.self (h : Agrees y x s Q) : Agrees y y s Q :=
  ⟨rfl, fun a t hy => h.2 a t (h.1 ▸ hy)⟩

/-- Two parsers that agree with a third one agree. -/
theorem Agrees.trans (hy : Agrees z y s Q) (hx : Agrees z x s Q) : Agrees y x s Q :=
  ⟨hy.1.symm.trans hx.1, hx.2⟩

theorem KeepsIncluded.self {c : Passage σ} {y x : Head → Bool → Parse σ (List Node)}
    (h : KeepsIncluded c y x) : KeepsIncluded c y y :=
  fun I head scriptless hI hin s hs => (h I head scriptless hI hin s hs).self

theorem SourceParser.Places.self {y x : SourceParser σ} {host : Host σ} {ok : List Bytes → Prop}
    (h : SourceParser.Places y x host ok) : SourceParser.Places y y host ok :=
  fun c form head scriptless s hhost hc hok hform hs =>
    (h c form head scriptless s hhost hc hok hform hs).self

/-! ### The loader -/

/-- How a unit is parsed with another loader. -/
def Env.loading (env : Env σ) (load : Option (Bytes → σ → Except Fault Bytes × σ)) : Env σ :=
  { env with host := { env.host with load := load } }

variable (env : Env σ) (load : Option (Bytes → σ → Except Fault Bytes × σ))
  (included : Head → Bool → Parse σ (List Node))

/-- The constructs of a native source take no loader. -/
theorem Native.element_loading (fuel : Nat) :
    Native.element (env.loading load) included fuel = Native.element env included fuel := by
  induction fuel with
  | zero => rfl
  | succ fuel ih =>
    rw [Native.element, Native.element, ih]
    rfl

/-- Nor does the reading of its directives. -/
theorem Native.directivesWithin_loading (fuel : Nat) (siblings : List Node) :
    Native.directivesWithin (env.loading load) included fuel siblings =
      Native.directivesWithin env included fuel siblings := by
  induction fuel generalizing siblings with
  | zero => rfl
  | succ fuel ih =>
    rw [Native.directivesWithin_succ, Native.directivesWithin_succ]
    simp only [ih]
    rfl

/-- The parser of a native source leaves the loader to the parser of included files. -/
theorem Native.parse_loading :
    Native.parse (env.loading load) included = Native.parse env included := by
  funext parent scriptless
  unfold Native.parse
  simp only [element_loading, directivesWithin_loading]
  rfl

/-- The content of a document takes no loader. -/
theorem Document.content_loading (fuel : Nat) :
    Document.content (env.loading load) included fuel = Document.content env included fuel := by
  induction fuel with
  | zero => rfl
  | succ fuel ih =>
    rw [Document.content, Document.content, ih]
    rfl

/-- And so does that of a document. -/
theorem Document.parse_loading :
    Document.parse (env.loading load) included = Document.parse env included := by
  funext parent scriptless
  unfold Document.parse
  simp only [content_loading]

/-! ### Sources -/

variable {env} {question question' : Bytes → σ → Except Fault Bytes × σ}

/-- Where a page is read, a file is included alike by loaders that are alike for pages. -/
theorem includeFile_loading (hload : env.host.load = some question)
    (hpages : ∀ path, IsPagePath path → question' path = question path) (parse : SourceParser σ)
    (h : Head) (scriptless : Bool) {s : State σ} (hs : IsPagePath (s.files.headD [])) :
    includeFile (env.loading (some question')) parse h scriptless s =
      includeFile env parse h scriptless s := by
  unfold includeFile
  cases h.attr? "file" with
  | none => rfl
  | some file =>
    have htarget := hpages _ (hs.included file.value)
    rw [hload]
    refine Eq.trans (bind_ok rfl) (Eq.trans ?_ (bind_ok rfl).symm)
    simp only [Env.loading, htarget]

/-- What is included from a page is read alike, if sources of pages are. -/
theorem keepsIncluded_loading (hload : env.host.load = some question)
    (hpages : ∀ path, IsPagePath path → question' path = question path) {y x : SourceParser σ}
    {ok : List Bytes → Prop} (hparse : SourceParser.Places y x env.host ok) {c : Passage σ}
    (hhost : c.host = env.host) (hc : c.IsLined) (hfiles : IsPagePath (c.files.headD []))
    (hok : ∀ file, ok (includedPath (c.files.headD []) file :: c.files)) :
    KeepsIncluded c (includeFile (env.loading (some question')) y) (includeFile env x) := by
  intro I h scriptless hI hin s hs
  have hself := keepsIncluded_includeFile (w := .ofIncludes .crash) hparse.self hhost hc hok
    I h scriptless hI hin s hs
  have hother := keepsIncluded_includeFile (w := .ofIncludes .crash) hparse hhost hc hok
    I h scriptless hI hin s hs
  obtain ⟨heq, hends⟩ := hself.trans hother
  refine ⟨Eq.trans (includeFile_loading hload hpages y h scriptless ?_) heq, hends⟩
  rwa [(hin s hs).files]

/-- **A source of a page** is read alike, with all that is included in it. -/
theorem places_loading (hload : env.host.load = some question)
    (hpages : ∀ path, IsPagePath path → question' path = question path) (depth : Nat) :
    SourceParser.Places (parseSource (env.loading (some question')) depth) (parseSource env depth)
      env.host fun files => IsPagePath (files.headD []) := by
  induction depth with
  | zero => exact fun _ _ _ _ _ _ _ _ _ _ => Agrees.throw _
  | succ depth ih =>
    intro c form h scriptless s hhost hc hfiles hform hs
    have hinc := keepsIncluded_loading hload hpages ih hhost hc hfiles fun file =>
      hfiles.included file
    have hpermits := Watch.permits_ofIncludes .crash hc
    unfold parseSource
    cases form with
    | document =>
      let reader : Document.TokenReader σ := .inOrder
      have htoken : Keeps (State.IsReading c) reader.token Document.next c.Shows :=
        Document.keeps_next hc
      dsimp only
      rw [Document.parse_loading]
      exact (Document.lays_parse hc hform.symm htoken env hinc.self h scriptless hs).trans
        (Document.lays_parse hc hform.symm htoken env hinc h scriptless hs)
    | native | auto =>
      dsimp only
      rw [Native.parse_loading]
      have hself :=
        Native.lays_watchedParse hpermits hhost hc hform.symm hinc.self h scriptless s hs
      exact hself.trans
        (Native.lays_watchedParse hpermits hhost hc hform.symm hinc h scriptless s hs)

end Parsing

/-- **A parse loads nothing but pages**: it does not change with what a loader does for paths that
are none of pages. -/
theorem ParseRequest.parse_congr_load {σ : Type} {r : ParseRequest} (hr : IsPagePath r.path)
    {host : Host σ} {question question' : Bytes → σ → Except Fault Bytes × σ}
    (hload : host.load = some question)
    (hpages : ∀ path, IsPagePath path → question' path = question path) (memory : σ) :
    r.parse { host with load := some question' } memory = r.parse host memory := by
  have hload : (r.env host).host.load = some question := hload
  have hread := Parsing.places_loading hload hpages (host.fileCount + 2)
    (r.passage host) r.actualForm (r.root (Cursor.ofText r.path r.text).position) false
    (r.start memory) rfl (r.isLined_passage host) hr rfl (r.isIn_start host memory)
  rw [parse_eq, parse_eq]
  exact congrArg (outcome _) hread.1

/-! ### The guard is not noticed -/

namespace Compiler

variable {c : Compiler} {path : Bytes}

section Files

variable {m : Type → Type} [Monad m] (outside : FileAccess m)

/-- The file of a page is asked for by a name inside. -/
theorem readFileM_guarded (h : IsPagePath path) :
    @readFileM m _ ⟨.guarded outside⟩ c path = @readFileM m _ ⟨.direct⟩ c path := by
  unfold readFileM
  cases c.files with
  | none => rfl
  | some files => exact if_pos h.staysInside

theorem sourceTextM_guarded (h : IsPagePath path) (s : Session) :
    @sourceTextM m _ ⟨.guarded outside⟩ c s path = @sourceTextM m _ ⟨.direct⟩ c s path := by
  unfold sourceTextM
  rw [readFileM_guarded outside h]

end Files

variable (outside : FileAccess (StateM Session))

/-- A page is loaded by a name inside. -/
theorem load_guarded (h : IsPagePath path) :
    @load ⟨.guarded outside⟩ c path = @load ⟨.direct⟩ c path := by
  unfold load
  simp only [sourceTextM_guarded outside h]

/-- Libraries are found by names inside. -/
theorem library_guarded : @library ⟨.guarded outside⟩ c = @library ⟨.direct⟩ c := by
  have hlibrary : @Session.library ⟨.guarded outside⟩ = @Session.library ⟨.direct⟩ := by
    funext uri
    unfold Session.library
    simp only [Registry.answerM_guarded]
  unfold library
  rw [hlibrary]

/-- A page is parsed alike, since it loads nothing but pages. -/
theorem parse_host_guarded {request : ParseRequest} (h : IsPagePath request.path)
    (describe : Option (Bytes → Compile TagDescriptor)) :
    parse request (@host ⟨.guarded outside⟩ c describe) =
      parse request (@host ⟨.direct⟩ c describe) := by
  have hhost : @host ⟨.guarded outside⟩ c describe =
      { @host ⟨.direct⟩ c describe with load := some (@load ⟨.guarded outside⟩ c) } := by
    unfold host
    rw [library_guarded]
  funext s
  unfold parse
  rw [hhost, ParseRequest.parse_congr_load h rfl fun path => load_guarded outside]

theorem validated_guarded : @validated ⟨.guarded outside⟩ c = @validated ⟨.direct⟩ c := by
  unfold validated
  rw [library_guarded]

/-- **The directives of a tag file** are read without a name outside. -/
theorem signature_guarded (path : Bytes) :
    @signature ⟨.guarded outside⟩ c path = @signature ⟨.direct⟩ c path := by
  have hpath := isPagePath_cleanPath path
  unfold signature
  simp only [sourceTextM_guarded outside hpath, parse_host_guarded, hpath, validated_guarded]

/-- **A unit** gives no name outside, if none is given where its tag files are described. -/
theorem compileUnit_guarded (describe : Bytes → Compile TagDescriptor) (h : IsPagePath path)
    (raw : Bytes) (form : PageSyntax) :
    @compileUnit ⟨.guarded outside⟩ c describe path raw form =
      @compileUnit ⟨.direct⟩ c describe path raw form := by
  unfold compileUnit
  simp only [parse_host_guarded, h, validated_guarded]

/-- A tag file is read by its clean path. -/
theorem describe_guarded (compile : Bytes → Bytes → PageSyntax → Compile CompiledUnit)
    (path : Bytes) :
    @describe ⟨.guarded outside⟩ c compile path = @describe ⟨.direct⟩ c compile path := by
  unfold describe
  simp only [readFileM_guarded outside (isPagePath_cleanPath path), signature_guarded]

/-- **Tag files** are described without a name outside, however deep units nest. -/
theorem describeWithin_guarded (fuel : Nat) :
    @describeWithin ⟨.guarded outside⟩ c fuel = @describeWithin ⟨.direct⟩ c fuel := by
  induction fuel with
  | zero => rfl
  | succ fuel ih =>
    funext path s
    unfold describeWithin
    rw [ih, describe_guarded]
    refine describe_congr fun raw _ _ => ?_
    rw [compileUnit_guarded outside _ (isPagePath_cleanPath path)]

theorem tagFile_guarded : @tagFile ⟨.guarded outside⟩ c = @tagFile ⟨.direct⟩ c := by
  unfold tagFile
  rw [describeWithin_guarded]

theorem run_guarded (h : IsPagePath path) (raw : Bytes) (form : PageSyntax) :
    @run ⟨.guarded outside⟩ c path raw form = @run ⟨.direct⟩ c path raw form := by
  unfold run
  simp only [tagFile_guarded, compileUnit_guarded outside _ h]

theorem compile_guarded (path : Bytes) :
    @compile ⟨.guarded outside⟩ c path = @compile ⟨.direct⟩ c path := by
  have hpath := isPagePath_cleanPath path
  unfold compile
  simp only [readFileM_guarded outside hpath, run_guarded outside hpath]

end Compiler

/-- **Pages cannot reach outside**: no request gives a name of a file that leads out of the file
tree, whatever the paths, the pages and the files are. Whatever is done about such a name, compiling
a page or bytes as a page, describing a tag file, reading its directives and resolving a uri have
the same outcome and leave the same session; so has loading a file along any chain of references
from a page, and loading all libraries of a tree whose files have names inside. -/
theorem FileAccess.guarded_unnoticed (outside : FileAccess (StateM Session)) :
    (∀ c path, @Compiler.compile ⟨.guarded outside⟩ c path = @Compiler.compile ⟨.direct⟩ c path) ∧
    (∀ c path raw form, @Compiler.compileSource ⟨.guarded outside⟩ c path raw form =
      @Compiler.compileSource ⟨.direct⟩ c path raw form) ∧
    (∀ c path, @Compiler.tagFile ⟨.guarded outside⟩ c path = @Compiler.tagFile ⟨.direct⟩ c path) ∧
    (∀ c path, @Compiler.signature ⟨.guarded outside⟩ c path =
      @Compiler.signature ⟨.direct⟩ c path) ∧
    (∀ c path (references : List Bytes),
      @Compiler.load ⟨.guarded outside⟩ c
          (references.foldl includedPath (Compiler.cleanPath path)) =
        @Compiler.load ⟨.direct⟩ c
          (references.foldl includedPath (Compiler.cleanPath path))) ∧
    (∀ uri r s, @Registry.answerM _ _ ⟨.guarded outside⟩ uri r s = (Registry.answer uri r, s)) ∧
    ∀ (files : FileTree) r directory s, (∀ f ∈ files.files, SlashPath.StaysInside f.1) →
      @Registry.loadAllM _ _ ⟨.guarded outside⟩ r files directory s =
        (r.loadAll files directory, s) := by
  refine ⟨fun _ => Compiler.compile_guarded outside,
    fun _ path => Compiler.run_guarded outside (Compiler.isPagePath_cleanPath path),
    fun _ => congrFun (Compiler.tagFile_guarded outside),
    fun _ => Compiler.signature_guarded outside,
    fun _ path references =>
      Compiler.load_guarded outside ((Compiler.isPagePath_cleanPath path).chain references),
    fun uri r s => ?_, fun files r directory s hfiles => ?_⟩
  · rw [Registry.answerM_guarded, Registry.answerM_direct]
    rfl
  · rw [Registry.loadAllM_guarded outside r hfiles, Registry.loadAllM_direct]
    rfl

/-- An access without files, which notes the names that it is given in the log. -/
def FileAccess.noting : FileAccess (StateM Session) where
  read _ name := refused name
  opened _ name := refused name
  list _ name := refused name
  walk _ name := refused name
where
  /-- Notes a name in the log of the session. -/
  refused {α : Type} (name : Bytes) : StateM Session (Except Fault α) := do
    modify fun s =>
      { s with log := ⟨.warning, "name outside", [("name", .text name)]⟩ :: s.log }
    return .error (.missingFile name)

/-- Files with a page that refers far up, and a library. -/
def climbingSite : FileTree where
  files := [("a.jsp", "<%@include file=\"../../b.jsp\"%>"), ("b.jsp", "text"),
    ("t.tld", "<taglib><uri>urn:t</uri></taglib>")]

/-- A page that refers far up is compiled, and no name is noted. -/
theorem FileAccess.guarded_unnoticed_climbing :
    (∀ f ∈ climbingSite.files, SlashPath.StaysInside f.1) ∧
    (@Registry.loadAllM _ _ ⟨.guarded .noting⟩ {} climbingSite "../../t.tld" {}).1.1.bound.map
      (·.1) = [("urn:t" : Bytes)] ∧
    (@Registry.loadAllM _ _ ⟨.guarded .noting⟩ {} climbingSite "../../t.tld" {}).2.log = [] ∧
    ((@Compiler.compile ⟨.guarded .noting⟩ { files := some climbingSite } "../a.jsp").outcome
      {}).1.isOk = true := by
  have hfiles : ∀ f ∈ climbingSite.files, SlashPath.StaysInside f.1 := by decide
  obtain ⟨hcompile, -, -, -, -, -, hload⟩ := FileAccess.guarded_unnoticed .noting
  refine ⟨hfiles, ?_, ?_, ?_⟩
  · rw [hload climbingSite {} "../../t.tld" {} hfiles]
    decide +kernel
  · rw [hload climbingSite {} "../../t.tld" {} hfiles]
  · rw [hcompile]
    decide +kernel

end ServerPages
