import ServerPages.Proofs.PlacedDocuments
import ServerPages.Proofs.PlacedNative
import ServerPages.Proofs.ValidationReports

/-!
# The bookkeeping of a parse

A parse keeps two stacks in step: the sources of the cursor, and the files being read. It moves on
in the source that it reads and comes back to the including file where it left it, and every node
names the place at which it was made.

## Main definitions

* `Watch.ofProgress`, `Watch.ofIncludes`: what a parse is watched for.
* `Host.HasReadLibraries`: the libraries that are told have the tags of some that were read.
* `Node.ReadFrom`: the files that the include directives above a node make to be read.

## Main results

* `ParseRequest.parse_progresses`: constructs and rounds of directives lead on, and a parse ends.
* `ParseRequest.positions_exact`: a node starts where it opens in its file, in columns too if the
  names of tags are whole, as those of libraries that were read are.
* `ParseRequest.includes_lockstep`: the files being read are the sources of the cursor.
-/

namespace ServerPages

namespace Parsing

variable {σ : Type}

/-! ### Sources -/

/-- A source is read as its syntax says, with the files that it includes. -/
theorem places_succ {w : Watch σ} {env : Env σ} (hw : ∀ c : Passage σ, c.host = env.host →
    c.IsLined → w.Permits c) {ok ok' : List Bytes → Prop} {d d' : Nat}
    (hparse : SourceParser.Places (watchedSource w env d) (parseSource env d') env.host ok)
    (hok : ∀ files target, ok' files → ok (target :: files)) :
    SourceParser.Places (watchedSource w env (d + 1)) (parseSource env (d' + 1)) env.host ok' := by
  intro c form h scriptless s hhost hc hfiles hform hs
  have hinc : KeepsIncluded c (watchedInclude w env (watchedSource w env d))
      (includeFile env (parseSource env d')) :=
    keepsIncluded_includeFile hparse hhost hc fun _ => hok _ _ hfiles
  have hpermits := hw c hhost hc
  cases form with
  | document =>
    let reader : Document.TokenReader σ := ⟨w.before Document.next⟩
    have htoken : Keeps (State.IsReading c) reader.token Document.next c.Shows :=
      fun t ht => w.agrees_before (hpermits.read t ht.isIn) (Document.keeps_next hc t ht)
    exact Document.lays_parse hc hform.symm htoken env hinc h scriptless hs
  | native => exact Native.lays_watchedParse hpermits hhost hc hform.symm hinc h scriptless s hs
  | auto => exact Native.lays_watchedParse hpermits hhost hc hform.symm hinc h scriptless s hs

/-- A watch that permits whatever is read raises no alarm. -/
theorem places_watchedSource {w : Watch σ} (env : Env σ) (hw : ∀ c : Passage σ,
    c.host = env.host → c.IsLined → w.Permits c) (d : Nat) :
    SourceParser.Places (watchedSource w env d) (parseSource env d) env.host fun _ => True := by
  induction d with
  | zero => exact fun _ _ _ _ _ _ _ _ _ _ => Agrees.throw _
  | succ d ih => exact places_succ hw ih fun _ _ _ => trivial

/-- Where no more than `n` files are served, inclusions nest no deeper than one more, and it does
not matter how much deeper they might. -/
theorem places_watchedSource_of_bounded {w : Watch σ} (env : Env σ) (hw : ∀ c : Passage σ,
    c.host = env.host → c.IsLined → w.Permits c) {n : Nat} (hn : ∀ c : Passage σ,
    c.host = env.host → c.IsLined → c.files.length ≤ n + 1) (d d' : Nat) :
    SourceParser.Places (watchedSource w env d) (parseSource env d') env.host fun files =>
      n + 2 ≤ files.length + d ∧ n + 2 ≤ files.length + d' := by
  induction d generalizing d' with
  | zero =>
    intro c _ _ _ _ hhost hc hfiles
    have := hn c hhost hc
    omega
  | succ d ih =>
    cases d' with
    | zero =>
      intro c _ _ _ _ hhost hc hfiles
      have := hn c hhost hc
      omega
    | succ d' =>
      refine places_succ hw (ih d') fun files target hfiles => ?_
      rw [List.length_cons]
      omega

/-! ### Watches -/

/-- What a parse is watched for: a construct or a round leads on in its source, the suspended ones
staying as they are. -/
def Watch.ofProgress (alarm : Failure) : Watch σ where
  alarm := alarm
  mayRead _ := true
  mayLead s t := t.cursor.place.source = s.cursor.place.source ∧
    t.cursor.outer = s.cursor.outer ∧ s.cursor.place.offset < t.cursor.place.offset

/-- What a watched parse is watched for where `n` files are served: as before, and inclusions nest
no deeper than one more than that. -/
def Watch.nesting (w : Watch σ) (n : Nat) : Watch σ :=
  { w with mayRead := fun s => w.mayRead s && decide (s.files.length ≤ n + 1) }

/-- What a parse is watched for: the sources of the cursor are the files being read, and these
differ. -/
def Watch.ofIncludes (alarm : Failure) : Watch σ where
  alarm := alarm
  mayRead s := s.cursor.place.source.name :: s.cursor.includedFrom = s.files ∧ s.files.Nodup
  mayLead _ _ := true

theorem Watch.permits_ofProgress (alarm : Failure) (c : Passage σ) :
    (Watch.ofProgress alarm : Watch σ).Permits c where
  read _ _ := rfl
  lead _ _ hs ht := decide_eq_true
    ⟨ht.source.trans hs.source.symm, ht.outer.trans hs.outer.symm, ht.least⟩

theorem Watch.Permits.nesting {w : Watch σ} {c : Passage σ} (hw : w.Permits c) {n : Nat}
    (hn : c.files.length ≤ n + 1) : (w.nesting n).Permits c where
  read s hs := Bool.and_eq_true_iff.mpr ⟨hw.read s hs, decide_eq_true (hs.files ▸ hn)⟩
  lead := hw.lead

theorem Watch.permits_ofIncludes (alarm : Failure) {c : Passage σ} (hc : c.IsLined) :
    (Watch.ofIncludes alarm : Watch σ).Permits c where
  read _ hs := decide_eq_true ⟨(hs.stack hc).trans hs.files.symm, hs.files ▸ hc.nodup⟩
  lead _ _ _ _ := rfl

/-- All files being read but the first unit are served. -/
theorem Passage.IsLined.length_le {c : Passage σ} (hc : c.IsLined) {served : List Bytes}
    (hserved : ∀ path text, c.host.Loads path text → path ∈ served) :
    c.files.length ≤ served.length + 1 := by
  have hsub : c.files.dropLast ⊆ served := fun f hf =>
    have ⟨text, htext⟩ := hc.served f hf
    hserved f text htext
  have hle := (hc.nodup.sublist (List.dropLast_sublist _)).length_le_of_subset hsub
  rw [List.length_dropLast] at hle
  omega

end Parsing

/-! ### Libraries that were read -/

/-- Every library that is told has the tags of one that was read from a document, or from files
whose paths are well formed. -/
def Host.HasReadLibraries {σ : Type} (host : Host σ) : Prop :=
  ∀ l, host.Tells l → ∃ read : TagLibrary, (∀ name, l.hasTag name = read.hasTag name) ∧
    ((∃ document, TagLibrary.ofDocument document = .ok read) ∨
      ∃ registry uri, Registry.load registry uri = .ok read ∧
        ∀ t ∈ registry.files, t.HasWholePaths)

/-- Libraries that were read have whole names. -/
theorem Host.HasReadLibraries.hasWholeNames {σ : Type} {host : Host σ}
    (h : host.HasReadLibraries) : host.HasWholeNames := by
  intro l hl name hname
  obtain ⟨read, htags, hread⟩ := h l hl
  rw [htags] at hname
  obtain ⟨document, hread⟩ | ⟨registry, uri, hload, hpaths⟩ := hread
  · exact TagLibrary.hasWholeNames_ofDocument hread name hname
  · exact Registry.hasWholeNames_load hpaths hload name hname

/-! ### Nodes -/

/-- The node is somewhere in the tree of a unit, where the include directives above it make these
files to be read, innermost first. -/
inductive Node.ReadFrom (root : Node) (path : Bytes) : Node → List Bytes → Prop where
  | root : ReadFrom root path root [path]
  | child {n m : Node} {files : List Bytes} (h : ReadFrom root path n files)
    (hn : n.kind ≠ .includeDirective) (hm : m ∈ n.children) : ReadFrom root path m files
  | included {n m : Node} {files : List Bytes} (h : ReadFrom root path n files)
    (hn : n.kind = .includeDirective) (hm : m ∈ n.children) :
    ReadFrom root path m (includedPath (files.headD []) (n.head.attrValue "file") :: files)

/-- A node below others that lie in a file lies in the innermost file that is read there. -/
theorem Node.ReadFrom.liesIn {σ : Type} {host : Host σ} {P : SourceView → Head → Prop}
    {root : Node} {path : Bytes} {v : SourceView} (hv : v.files = [path])
    (hroot : root.kind ≠ .includeDirective) (hlies : ∀ n ∈ root.children, n.LiesIn host P v)
    {n : Node} {files : List Bytes} (h : root.ReadFrom path n files) :
    n = root ∧ files = [path] ∨ ∃ v' : SourceView, v'.files = files ∧ n.LiesIn host P v' := by
  induction h with
  | root => exact .inl ⟨rfl, rfl⟩
  | child _ hn hm ih =>
    rcases ih with ⟨rfl, rfl⟩ | ⟨v', rfl, hlies'⟩
    · exact .inr ⟨v, hv, hlies _ hm⟩
    · cases hlies' with
      | own hk hh hcs => exact .inr ⟨v', rfl, hcs _ hm⟩
      | included hk hh hload hcs => exact absurd hk hn
  | included _ hn hm ih =>
    rcases ih with ⟨rfl, rfl⟩ | ⟨v', rfl, hlies'⟩
    · exact absurd hn hroot
    · cases hlies' with
      | own hk hh hcs => exact absurd hn hk
      | included hk hh hload hcs => exact .inr ⟨_, rfl, hcs _ hm⟩

namespace ParseRequest

variable {σ : Type} (r : ParseRequest) (host : Host σ)

/-- The unit as a file that is read. -/
def view : SourceView := ⟨[r.path], r.text, r.actualForm == .document⟩

/-- The passage in which the unit is read. -/
def passage : Parsing.Passage σ where
  host := host
  source := ⟨0, r.path, r.text⟩
  outer := []
  files := [r.path]
  isDocument := r.actualForm == .document

theorem isLined_passage : (r.passage host).IsLined where
  names := rfl
  nodup := List.nodup_cons.mpr ⟨List.not_mem_nil, List.nodup_nil⟩
  served _ hf := absurd hf List.not_mem_nil

theorem isIn_start (memory : σ) : (r.start memory).IsIn (r.passage host) 0 where
  source := rfl
  outer := rfl
  files := rfl
  least := Nat.zero_le _
  exact := Place.isExact_start _ _
  bindings _ hp := absurd hp List.not_mem_nil

variable {r host} {memory : σ}

/-- A parse that is watched has the outcome of the parse, if its source is read alike. -/
theorem agrees_source {w : Parsing.Watch σ} {ok : List Bytes → Prop} {d : Nat}
    (hparse : Parsing.SourceParser.Places (Parsing.watchedSource w (r.env host) d)
      (Parsing.parseSource (r.env host) (host.fileCount + 2)) host ok) (hok : ok [r.path]) :
    r.parseWatched w d host memory = r.parse host memory ∧
      ∀ root, (r.parse host memory).1 = .ok root →
        root.head = r.root (Cursor.ofText r.path r.text).position ∧
          ∀ n ∈ root.children, n.LiesIn host (Head.IsPlaced host.HasWholeNames) r.view := by
  obtain ⟨heq, hlays⟩ := hparse (r.passage host) r.actualForm
    (r.root (Cursor.ofText r.path r.text).position) false (r.start memory) rfl
    (r.isLined_passage host) hok rfl (r.isIn_start host memory)
  constructor
  · rw [parse_eq, parseWatched]
    exact congrArg (outcome _) heq
  · intro root hroot
    rw [parse_eq] at hroot
    dsimp only at hroot
    unfold outcome at hroot
    split at hroot
    · next cs t hrun =>
      cases hroot
      exact ⟨rfl, (hlays cs t hrun).2⟩
    · cases hroot

/-- A watch that permits whatever is read does not change a parse. -/
theorem agrees_of_permits (host : Host σ) {w : Parsing.Watch σ} (hw : ∀ c : Parsing.Passage σ,
    c.host = host → c.IsLined → w.Permits c) (r : ParseRequest) (memory : σ) :
    r.parseWatched w (host.fileCount + 2) host memory = r.parse host memory ∧
      ∀ root, (r.parse host memory).1 = .ok root →
        root.head = r.root (Cursor.ofText r.path r.text).position ∧
          ∀ n ∈ root.children, n.LiesIn host (Head.IsPlaced host.HasWholeNames) r.view :=
  agrees_source (Parsing.places_watchedSource (r.env host) hw _) trivial

/-- Surroundings with one file, a document. -/
def oneFileHost : Host Unit where
  load := some fun path m =>
    (if path == "/b.jspx" then
      .ok "<p xmlns:jsp=\"http://java.sun.com/JSP/Page\">\n<jsp:text>t</jsp:text></p>"
    else .error (.missingFile path), m)
  fileCount := 1

/-- A page in the native syntax that includes the document. -/
def includingPage : ParseRequest where
  path := "/a.jsp"
  text := "a\n <%@ include file=\"b.jspx\" %>${x}"

theorem mem_of_loads_oneFileHost {path text : Bytes} (h : oneFileHost.Loads path text) :
    path ∈ [("/b.jspx" : Bytes)] := by
  obtain ⟨q, m, hq, h⟩ := h
  obtain rfl := Option.some.inj hq
  dsimp only at h
  split at h
  · next hpath => exact List.mem_singleton.mpr (eq_of_beq hpath)
  · cases h

/-- **A parse moves on and ends.** Each construct and each round of directives that succeeds leads
further on in the same source, with the same suspended sources. Where the loader serves finitely
many files, inclusions nest no deeper than one more than their number; and the parse ends with a
tree or a failure of its own, unless describing a tag file crashes. -/
theorem parse_progresses (r : ParseRequest) (host : Host σ) (memory : σ) :
    (∀ alarm, r.parseWatched (.ofProgress alarm) (host.fileCount + 2) host memory =
      r.parse host memory) ∧
    ∀ served : List Bytes, (∀ path text, host.Loads path text → path ∈ served) →
      served.length ≤ host.fileCount →
        (∀ alarm depth, served.length < depth →
          r.parseWatched ((Parsing.Watch.ofProgress alarm).nesting served.length) depth host
            memory = r.parse host memory) ∧
        ((r.parse host memory).1 = .error .crash →
          ∃ q path m, host.tagFile = some q ∧ (q path m).1 = .error .crash) := by
  refine ⟨fun alarm => (agrees_of_permits host (fun c _ _ =>
    Parsing.Watch.permits_ofProgress alarm c) r memory).1, fun served hserved hcount => ⟨?_, ?_⟩⟩
  · intro alarm depth hdepth
    have hlength : ∀ c : Parsing.Passage σ, c.host = host → c.IsLined →
        c.files.length ≤ served.length + 1 := fun c hhost hc =>
      hc.length_le fun path text hload => hserved path text (hhost ▸ hload)
    refine (agrees_source (Parsing.places_watchedSource_of_bounded (r.env host)
      (fun c hhost hc => (Parsing.Watch.permits_ofProgress alarm c).nesting (hlength c hhost hc))
      hlength
      depth (host.fileCount + 2)) ?_).1
    rw [List.length_singleton]
    omega
  · let w : Surroundings σ := {
      keeps := fun _ => True, gives := fun _ => True, names := fun _ => True, files := served,
      reading := fun _ => True,
      crashes := ∃ q path m, host.tagFile = some q ∧ (q path m).1 = .error .crash }
    have hw : w.Holds host := {
      library := fun _ _ _ _ _ => ⟨trivial, fun _ _ => trivial⟩
      names := fun _ _ _ => trivial
      load := fun q hq path m _ _ =>
        ⟨trivial, fun text htext => hserved path text ⟨q, m, hq, htext⟩⟩
      tagFile := fun q hq _ _ path m _ _ _ => ⟨fun _ _ => trivial, fun h => ⟨q, path, m, hq, h⟩⟩
      count := hcount }
    exact (r.parse_ends hw trivial trivial).2

theorem parse_progresses_includingPage :
    includingPage.parseWatched ((Parsing.Watch.ofProgress .crash).nesting 1) 2 oneFileHost () =
      includingPage.parse oneFileHost () ∧
    (includingPage.parse oneFileHost ()).1 ≠ .error .crash := by
  have hserved : ∀ path text, oneFileHost.Loads path text → path ∈ [("/b.jspx" : Bytes)] :=
    fun _ _ => mem_of_loads_oneFileHost
  obtain ⟨hwatched, hcrash⟩ :=
    (parse_progresses includingPage oneFileHost ()).2 _ hserved (Nat.le_refl 1)
  refine ⟨hwatched .crash 2 (by decide), fun h => ?_⟩
  obtain ⟨q, _, _, hq, -⟩ := hcrash h
  cases hq

theorem isPlaced_of_parse {r : ParseRequest} {memory : σ} {root : Node}
    (hparse : (r.parse host memory).1 = .ok root) :
    ∀ n ∈ root.children, n.LiesIn host (Head.IsPlaced host.HasWholeNames) r.view :=
  ((agrees_of_permits host (fun _ _ hc => Parsing.Watch.permits_ofIncludes .crash hc) r memory).2
    root hparse).2

/-- **The positions of nodes are exact.** Every node of a native file, and every element of a
document, starts on the line that its offset is on, and there the file goes on with the text that
the node opens with. Where the names of tags are whole, as those of libraries that were read are, it
starts in the column that its offset is in, counted in characters. -/
theorem positions_exact {r : ParseRequest} {memory : σ} {root : Node}
    (hparse : (r.parse host memory).1 = .ok root) :
    (∀ n ∈ root.children, n.LiesIn host (Head.IsPlaced host.HasWholeNames) r.view) ∧
      (host.HasReadLibraries → ∀ n ∈ root.children, n.LiesIn host (Head.IsPlaced True) r.view) := by
  have hplaced := isPlaced_of_parse hparse
  exact ⟨hplaced, fun hread => eq_true hread.hasWholeNames ▸ hplaced⟩

theorem positions_exact_includingPage : ∃ root,
    (includingPage.parse oneFileHost ()).1 = .ok root ∧ root.children.length = 3 ∧
    ∀ n ∈ root.children, n.LiesIn oneFileHost (Head.IsPlaced True) includingPage.view := by
  have hsome : (includingPage.parse oneFileHost ()).1.toOption.any
      (fun root => root.children.length == 3) = true := by decide +kernel
  obtain ⟨root, hparse, hlength⟩ := exists_ok_of_any hsome
  have hwhole : oneFileHost.HasWholeNames := by
    rintro l ⟨q, _, _, hq, -⟩
    cases hq
  exact ⟨root, hparse, eq_of_beq hlength, eq_true hwhole ▸ (positions_exact hparse).1⟩

/-- A library with a tag whose name ends inside a character. -/
def brokenNameHost : Host Unit where
  library := some fun _ m => (.ok { tags := [([120, 0xC3], { body := .tagDependent })] }, m)

/-- A page with such a tag. In its body stands what looks like its end tag up to the middle of a
character; that end tag is sought in two pieces, and each counts as a character. -/
def brokenNamePage : ParseRequest where
  path := "/a.jsp"
  text := Bytes.join [0xC3]
    ["<%@taglib prefix=\"p\" uri=\"urn:p\"%><p:x", "></p:xé></p:x", "><%=1%>"]

/-- After a name that is not whole, columns need not be exact. -/
theorem not_positions_brokenNamePage : ∃ root,
    (brokenNamePage.parse brokenNameHost ()).1 = .ok root ∧
    ¬ ∀ n ∈ root.children, n.LiesIn brokenNameHost (Head.IsPlaced True) brokenNamePage.view := by
  have hsome : (brokenNamePage.parse brokenNameHost ()).1.toOption.any
      (fun root => root.children.any fun n => n.head.kind == .expression &&
        n.head.start.offset == 55 && n.head.start.col != brokenNamePage.text.colAt 55) = true := by
    decide +kernel
  obtain ⟨root, hparse, htest⟩ := exists_ok_of_any hsome
  obtain ⟨n, hn, htest⟩ := List.any_eq_true.mp htest
  simp only [Bool.and_eq_true, beq_iff_eq, bne_iff_ne] at htest
  obtain ⟨⟨hkind, hoffset⟩, hcol⟩ := htest
  refine ⟨root, hparse, fun hlies => ?_⟩
  have hplaced : n.head.IsPlaced True brokenNamePage.view := by
    cases hlies n hn with
    | own _ hh _ => exact hh
    | included _ hh _ _ => exact hh
  obtain ⟨k, -, hk, -, hcolumn, -⟩ := hplaced.mark rfl
  obtain rfl : k = 55 := by omega
  exact hcol (hcolumn trivial)

/-- **The files being read are the sources of the cursor** whenever a construct, a round of
directives or a token is about to be read, so they differ and the cursor opens every file that is
included. In a tree that was parsed they are the file and the including files that the start of a
node names. -/
theorem includes_lockstep (host : Host σ) (r : ParseRequest) (memory : σ) :
    (∀ alarm, r.parseWatched (.ofIncludes alarm) (host.fileCount + 2) host memory =
      r.parse host memory) ∧
    ∀ root, (r.parse host memory).1 = .ok root → ∀ n files, root.ReadFrom r.path n files →
      n.head.start.file :: n.head.start.includedFrom = files := by
  have hpermits := fun alarm => agrees_of_permits host
    (fun _ _ hc => Parsing.Watch.permits_ofIncludes alarm hc) r memory
  refine ⟨fun alarm => (hpermits alarm).1, fun root hroot n files hn => ?_⟩
  obtain ⟨hhead, hlies⟩ := (hpermits .crash).2 root hroot
  have hkind : root.kind ≠ .includeDirective := by
    rw [Node.kind, hhead]
    exact fun h => by cases h
  rcases hn.liesIn (v := r.view) rfl hkind hlies with ⟨rfl, rfl⟩ | ⟨v, rfl, hlies⟩
  · rw [hhead]
    rfl
  · cases hlies with
    | own _ hplaced _ => exact hplaced.stack
    | included _ hplaced _ _ => exact hplaced.stack

theorem includes_lockstep_includingPage : ∃ root n,
    (includingPage.parse oneFileHost ()).1 = .ok root ∧
    root.ReadFrom "/a.jsp" n ["/b.jspx", "/a.jsp"] ∧
    n.head.start.file :: n.head.start.includedFrom = [("/b.jspx" : Bytes), ("/a.jsp" : Bytes)] := by
  have hsome : (includingPage.parse oneFileHost ()).1.toOption.any (fun root =>
      root.kind == .root && root.children.any fun m => m.kind == .includeDirective &&
        includedPath "/a.jsp" (m.head.attrValue "file") == "/b.jspx" &&
        m.children.any fun _ => true) = true := by decide +kernel
  obtain ⟨root, hparse, htest⟩ := exists_ok_of_any hsome
  rw [Bool.and_eq_true, beq_iff_eq] at htest
  obtain ⟨hroot, htest⟩ := htest
  obtain ⟨m, hm, htest⟩ := List.any_eq_true.mp htest
  rw [Bool.and_eq_true, Bool.and_eq_true, beq_iff_eq, beq_iff_eq] at htest
  obtain ⟨⟨hkind, hpath⟩, htest⟩ := htest
  obtain ⟨n, hn, -⟩ := List.any_eq_true.mp htest
  have hread : root.ReadFrom "/a.jsp" n ["/b.jspx", "/a.jsp"] := by
    have hdirective : root.ReadFrom "/a.jsp" m ["/a.jsp"] :=
      Node.ReadFrom.root.child (by rw [hroot]; decide) hm
    have hincluded := hdirective.included hkind hn
    rwa [List.headD_cons, hpath] at hincluded
  exact ⟨root, n, hparse, hread,
    (includes_lockstep oneFileHost includingPage ()).2 root hparse n _ hread⟩

end ParseRequest

end ServerPages
