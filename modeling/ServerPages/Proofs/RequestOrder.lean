import ServerPages.Proofs.CleanSession
import ServerPages.Proofs.DeclaredEncodings
import ServerPages.Proofs.ImportNames
import ServerPages.Proofs.Invocations
import ServerPages.Proofs.LoadedLibraries

/-!
# The order of requests

A compiler keeps what it compiled, and compiles a tag file when the first page asks for it. So what
a request gives could depend on the requests before it. `ComesTo` says what compiling a file can
come to, without any session: the questions of its dialog are answered by the files, by the
registry, and, for tags, by what compiling the tag files can come to. There is a second answer for a
tag file that is asked for while it is being compiled, namely the tag that its directives alone
give, and a choice of encodings for a tag file that names none. Where these choices make no
difference, compiling a file comes to one thing.

But for the functions that its expressions call: they come in an order that nothing decides, and two
packages that may get one name are named after it. So what compiling a file comes to is one failure,
or units that are variants of each other, and one unit where no packages may get one name.

A session is sound if all that it keeps is something that compiling the files can come to. Requests
keep sessions sound, and what they give is something that compiling the files can come to. So two
histories give the same for the same file, as far as the order of functions does not show.

## Main results

* `Node.generate_variants`: what the order of functions can change.
* `Compiler.ComesTo.unique`: compiling a file comes to one thing if choices make no difference.
* `Compiler.concludes_compile`: what a request gives is something that compiling the files can come
  to.
* `gives_alike`: whatever the histories, the same file gives the same unit or the same failure.
-/

namespace ServerPages

/-! ### The order of functions -/

/-- The unit that another one may be if its functions come in another order. -/
structure CompiledUnit.IsVariant (u v : CompiledUnit) : Prop where
  path : v.path = u.path
  typeName : v.typeName = u.typeName
  fileName : v.fileName = u.fileName
  encoding : v.encoding = u.encoding
  isTagFile : v.isTagFile = u.isTagFile
  page : v.tree.page? = u.tree.page?
  eq_of_apart : ∀ page, u.tree.page? = some page → Generation.Imports.Apart page.functions → v = u

/-- What two compilations of a file come to: the same failure, or variants of one unit. -/
inductive Variants : Except Failure CompiledUnit → Except Failure CompiledUnit → Prop
  | error (e : Failure) : Variants (.error e) (.error e)
  | ok {u v : CompiledUnit} (h : u.IsVariant v) : Variants (.ok u) (.ok v)

/-- An outcome is a variant of itself. -/
theorem Variants.refl (v : Except Failure CompiledUnit) : Variants v v := by
  cases v with
  | error e => exact .error e
  | ok u => exact .ok ⟨rfl, rfl, rfl, rfl, rfl, rfl, fun _ _ _ => rfl⟩

/-- The type of a unit is named by its tree. -/
theorem Node.typeName_of_generate {options : Generation.Options} {root : Node}
    {code : GeneratedUnit} (h : root.generate options = .ok code) :
    ∃ u page, root.head.unit = some u ∧ root.page? = some page ∧
      code.typeName = Generation.Env.typeName ⟨options, u.file, page⟩ := by
  unfold generate at h
  split at h
  · next u page hunit hpage =>
    dsimp only at h
    split at h
    · cases h
    · obtain rfl := Except.ok.inj h
      exact ⟨u, page, hunit, hpage, rfl⟩
  · cases h

/-- **In whatever order its functions come, a unit is generated or its first stop comes out**, and
all but the code and where it is stays the same. -/
theorem Node.generate_variants (root : Node) (options : Generation.Options)
    (o o' : MapOrder (Expression.FunctionRef × LibraryFunction)) :
    (∃ e, root.generate (options.reordered o) = .error e ∧
      root.generate (options.reordered o') = .error e) ∨
    ∃ a b, root.generate (options.reordered o) = .ok a ∧
      root.generate (options.reordered o') = .ok b ∧ b.typeName = a.typeName ∧
      b.tree.head.unit = a.tree.head.unit ∧ b.tree.page? = a.tree.page? ∧
      ∀ page, a.tree.page? = some page → Generation.Imports.Apart page.functions → b = a := by
  obtain ⟨hok, herror⟩ := generate_eq (options.reordered o) root
  obtain ⟨hok', herror'⟩ := generate_eq (options.reordered o') root
  cases hstops : root.stops with
  | cons stop stops =>
    rw [hstops] at herror herror'
    exact .inl ⟨_, herror stop rfl, herror' stop rfl⟩
  | nil =>
    obtain ⟨a, ha⟩ := hok hstops
    obtain ⟨b, hb⟩ := hok' hstops
    have htypes : b.typeName = a.typeName := by
      obtain ⟨u, page, hunit, -, htype⟩ := typeName_of_generate ha
      obtain ⟨u', page', hunit', -, htype'⟩ := typeName_of_generate hb
      obtain rfl := Option.some.inj (hunit.symm.trans hunit')
      exact htype'.trans htype.symm
    have hpages := page?_of_generate ha
    refine .inr ⟨a, b, ha, hb, htypes, (unit_of_generate hb).trans (unit_of_generate ha).symm,
      (page?_of_generate hb).trans hpages.symm, fun page hpage hapart => ?_⟩
    have hsame := generate_reordered (hpages.symm.trans hpage) hapart options
    exact Except.ok.inj (hb.symm.trans ((hsame o').trans ((hsame o).symm.trans ha)))

/-! ### Dialogs without a host -/

/-- The answers to the questions of a dialog, given once for all: the library of each uri, if there
are libraries, the text of each file, and whatever a tag file may be told to implement. -/
structure Informant where
  /-- The libraries, if there are any. -/
  library : Option (Bytes → Except Fault TagLibrary)
  /-- The texts of files. -/
  file : Bytes → Except Fault Bytes
  /-- What may be told of tag files. -/
  tells : Bytes → Except Failure TagDescriptor → Prop

namespace Dialog

variable {α : Type}

/-- The dialog can come to the outcome. -/
def Comes (S : Informant) : Dialog α → Except Failure α → Prop
  | ended o, o' => o' = o
  | library uri next, o =>
    match S.library with
    | some answer => (next (answer uri)).Comes S o
    | none => o = .error .crash
  | file path reason next, o =>
    match S.file path with
    | .ok text => (next text).Comes S o
    | .error f => o = .error (reason f)
  | tag path reason next, o =>
    (∃ d, S.tells path (.ok d) ∧ (next d).Comes S o) ∨
      ∃ e, S.tells path (.error e) ∧ o = .error (reason e)

variable {S S' : Informant}

/-- A dialog comes to what it came to when more is told. -/
theorem Comes.mono {d : Dialog α} {o : Except Failure α} (h : d.Comes S o)
    (hlibrary : S'.library = S.library) (hfile : S'.file = S.file)
    (htells : ∀ path a, S.tells path a → S'.tells path a) : d.Comes S' o := by
  induction d with
  | ended o' => exact h
  | library uri next ih =>
    rw [Comes, hlibrary]
    rw [Comes] at h
    cases hl : S.library with
    | none => rwa [hl] at h
    | some answer =>
      rw [hl] at h
      exact ih _ h
  | file path reason next ih =>
    rw [Comes, hfile]
    rw [Comes] at h
    cases hf : S.file path with
    | error f => rwa [hf] at h
    | ok text =>
      rw [hf] at h
      exact ih _ h
  | tag path reason next ih =>
    refine Or.imp (fun ⟨d, hd, hnext⟩ => ?_) (fun ⟨e, he, ho⟩ => ?_) h
    · exact ⟨d, htells _ _ hd, ih _ hnext⟩
    · exact ⟨e, htells _ _ he, ho⟩

/-- Where the answers agree, a dialog comes to one thing. -/
theorem Comes.unique {d : Dialog α} {o o' : Except Failure α} (h : d.Comes S o)
    (h' : d.Comes S' o') (hlibrary : S'.library = S.library) (hfile : S'.file = S.file)
    (htells : ∀ path a a', S.tells path a → S'.tells path a' → a = a') : o = o' := by
  induction d with
  | ended o₁ => exact Eq.trans h (Eq.symm h')
  | library uri next ih =>
    rw [Comes] at h h'
    rw [hlibrary] at h'
    cases hl : S.library with
    | none =>
      rw [hl] at h h'
      exact Eq.trans h (Eq.symm h')
    | some answer =>
      rw [hl] at h h'
      exact ih _ h h'
  | file path reason next ih =>
    rw [Comes] at h h'
    rw [hfile] at h'
    cases hf : S.file path with
    | error f =>
      rw [hf] at h h'
      exact Eq.trans h (Eq.symm h')
    | ok text =>
      rw [hf] at h h'
      exact ih _ h h'
  | tag path reason next ih =>
    rcases h with ⟨d, hd, hnext⟩ | ⟨e, he, rfl⟩ <;>
      rcases h' with ⟨d', hd', hnext'⟩ | ⟨e', he', rfl⟩
    · obtain rfl := Except.ok.inj (htells _ _ _ hd hd')
      exact ih _ hnext hnext'
    · cases htells _ _ _ hd he'
    · cases htells _ _ _ he hd'
    · rw [Except.error.inj (htells _ _ _ he he')]

/-- A dialog comes to its outcome where the answers are those of a host that remembers nothing. -/
theorem comes_run {host : Host Unit}
    {load : Bytes → Unit → Except Fault Bytes × Unit}
    {tag : Bytes → Unit → Except Failure TagDescriptor × Unit}
    (hlibrary : S.library = host.library.map fun q uri => (q uri ()).1)
    (hload : host.load = some load) (hfile : ∀ path, S.file path = (load path ()).1)
    (htag : host.tagFile = some tag) (htells : ∀ path, S.tells path (tag path ()).1)
    (d : Dialog α) : d.Comes S (d.run host ()).1 := by
  induction d with
  | ended o => rfl
  | library uri next ih =>
    rw [Comes, run, hlibrary]
    cases host.library with
    | none => rfl
    | some q => exact ih _
  | file path reason next ih =>
    rw [Comes, run, hload, hfile]
    dsimp only
    rcases load path () with ⟨f | text, _⟩
    · rfl
    · exact ih text
  | tag path reason next ih =>
    have htold := htells path
    rw [Comes, run, htag]
    dsimp only
    rcases hanswer : tag path () with ⟨e | d, _⟩
    · exact .inr ⟨e, by rwa [hanswer] at htold, rfl⟩
    · exact .inl ⟨d, by rwa [hanswer] at htold, ih d⟩

end Dialog

/-! ### What compiling a file can come to -/

namespace Compiler

variable (c : Compiler) (registry : Registry)

/-- The source at a path, read in an encoding if it names none. -/
def readIn (encoding path : Bytes) : Except Fault SourceText := do
  Charset.readSource c.options.encodings path (← c.readFile path) encoding

/-- The encodings that a source may inherit: the default one, and those of sources. -/
inductive InUse : Bytes → Prop
  | fallback : InUse c.options.fallbackEncoding
  | source {encoding path : Bytes} {source : SourceText} (h : InUse encoding)
    (hread : c.readIn encoding path = .ok source) : InUse source.encoding

/-- The encodings in which a file that names none may be read: the default one, and any that is in
use if the file is a tag file of a library. -/
def MayRead (path encoding : Bytes) : Prop :=
  encoding = c.options.fallbackEncoding ∨
    c.InUse encoding ∧ ∃ file, IsTagPath registry file ∧ cleanPath file = path

/-- The questions that a unit may ask. -/
def questions : Questions :=
  ⟨c.library.isSome, true, true, (c.files.map (·.files.length)).getD 0⟩

/-- The request to parse the source of a unit. -/
def unitRequest (path : Bytes) (source : SourceText) : ParseRequest where
  path := path
  text := source.text
  form := .auto
  encoding := source.encoding

/-- What follows the parse of a unit. -/
def built (path encoding : Bytes) (order : MapOrder (Expression.FunctionRef × LibraryFunction))
    (tree : Node) : Except Failure CompiledUnit := do
  let tree ← ((c.validated path tree).outcome { registry := registry }).1
  let code ← tree.generate ((c.options.generation (typeName path tree)).reordered order)
  return unitOf path encoding code

/-- The tag that a compiled unit implements. -/
def described (path : Bytes) (u : CompiledUnit) : Except Failure TagDescriptor :=
  ((descriptor path u.tree).outcome {}).1

/-- The tag that the directives of a tag file give, where the encoding is the innermost one. -/
def extracted (encoding path : Bytes) : Except Failure TagDescriptor :=
  ((c.signature path).outcome { registry := registry, encodings := [encoding] }).1

/-- An outcome in which a broken invariant counts as a problem without a position. -/
def recovered {α : Type} : Except Failure α → Except Failure α
  | .error (.invariant message) => .error (.at .internal {} message)
  | o => o

/-- What may be told of a tag file: the tag of the unit that it is compiled to, and, if it may be
asked for while it is being compiled, the one that its directives give. -/
def Tells (alone : Bytes → Prop) (compiled : Bytes → Except Failure CompiledUnit → Prop)
    (file : Bytes) (answer : Except Failure TagDescriptor) : Prop :=
  IsTagPath registry file ∧
    ((∃ v, compiled (cleanPath file) v ∧ answer = v >>= described (cleanPath file)) ∨
      alone (cleanPath file) ∧ ∃ e, c.InUse e ∧ answer = c.extracted registry e (cleanPath file))

/-- The answers to the questions of a source in an encoding. -/
def informant (encoding : Bytes) (tells : Bytes → Except Failure TagDescriptor → Prop) :
    Informant where
  library := c.library.map fun q uri => (q uri { registry := registry }).1
  file path := (c.readIn encoding path).map (·.text)
  tells := tells

/-- What compiling the file at a path can come to, whatever the order of its functions. The tag
files `alone` are those that may be asked for while they are being compiled. -/
inductive ComesTo (alone : Bytes → Prop) : Bytes → Except Failure CompiledUnit → Prop
  | unread {path encoding : Bytes} {f : Fault} (hread : c.MayRead registry path encoding)
    (h : c.readIn encoding path = .error f) : ComesTo alone path (.error (.fault f))
  | parsed {path encoding : Bytes} {source : SourceText} {o : Except Failure Node}
    {compiled : Bytes → Except Failure CompiledUnit → Prop}
    (order : MapOrder (Expression.FunctionRef × LibraryFunction))
    (hread : c.MayRead registry path encoding) (h : c.readIn encoding path = .ok source)
    (hcompiled : ∀ file v, compiled file v → ComesTo alone file v)
    (hcomes : ((unitRequest path source).dialog c.questions).Comes
      (c.informant registry source.encoding (c.Tells registry alone compiled)) o) :
    ComesTo alone path (recovered (o >>= c.built registry path source.encoding order))

/-- A tag file of a library is read alike in all encodings that it may inherit. -/
def ReadsAlike : Prop :=
  ∀ file, IsTagPath registry file → ∀ e e', c.InUse e → c.InUse e' →
    c.readIn e (cleanPath file) = c.readIn e' (cleanPath file)

/-- The tag that the directives of a tag file give is the one that it implements once compiled. -/
def AgreesAlone (alone : Bytes → Prop) (path : Bytes) : Prop :=
  ∃ answer, (∀ e, c.InUse e → c.extracted registry e path = answer) ∧
    ∀ v, c.ComesTo registry alone path v → v >>= described path = answer

variable {c registry} {alone alone' : Bytes → Prop}

theorem Tells.mono {compiled compiled' : Bytes → Except Failure CompiledUnit → Prop} {file : Bytes}
    {answer : Except Failure TagDescriptor} (h : c.Tells registry alone compiled file answer)
    (halone : ∀ f, alone f → alone' f) (hcompiled : ∀ f v, compiled f v → compiled' f v) :
    c.Tells registry alone' compiled' file answer := by
  refine ⟨h.1, h.2.imp (fun ⟨v, hv, hanswer⟩ => ⟨v, hcompiled _ _ hv, hanswer⟩) fun h => ?_⟩
  exact ⟨halone _ h.1, h.2⟩

/-- A file comes to what it came to when more tag files may be asked for while they are being
compiled. -/
theorem ComesTo.mono {path : Bytes} {v : Except Failure CompiledUnit}
    (h : c.ComesTo registry alone path v) (halone : ∀ f, alone f → alone' f) :
    c.ComesTo registry alone' path v := by
  induction h with
  | unread hread h => exact .unread hread h
  | parsed order hread h hcompiled hcomes ih =>
    refine .parsed order hread h ih (hcomes.mono rfl rfl fun file a ha => ?_)
    exact ha.mono halone fun _ _ hv => hv

/-- The compiler with other orders of functions. -/
def reordered (c : Compiler)
    (order : List Event → MapOrder (Expression.FunctionRef × LibraryFunction)) : Compiler :=
  { c with order := order }

/-- An encoding is in use whatever the orders are. -/
theorem InUse.of_reordered {encoding : Bytes}
    {order : List Event → MapOrder (Expression.FunctionRef × LibraryFunction)}
    (h : (c.reordered order).InUse encoding) : c.InUse encoding := by
  induction h with
  | fallback => exact .fallback
  | source _ hread ih => exact .source ih hread

/-- What compiling a file can come to includes all orders of functions already. -/
theorem ComesTo.of_reordered
    {order : List Event → MapOrder (Expression.FunctionRef × LibraryFunction)} {path : Bytes}
    {v : Except Failure CompiledUnit} (h : (c.reordered order).ComesTo registry alone path v) :
    c.ComesTo registry alone path v := by
  have hmay {path encoding : Bytes} (h : (c.reordered order).MayRead registry path encoding) :
      c.MayRead registry path encoding := h.imp_right fun ⟨he, hpath⟩ => ⟨he.of_reordered, hpath⟩
  induction h with
  | unread hread h => exact .unread (hmay hread) h
  | parsed o hread h _ hcomes ih =>
    refine .parsed o (hmay hread) h ih (hcomes.mono rfl rfl ?_)
    rintro file a ⟨hpath, ha⟩
    exact ⟨hpath, ha.imp_right fun ⟨halone, e, he, ha⟩ => ⟨halone, e, he.of_reordered, ha⟩⟩

/-- Units of code that is alike are variants. -/
theorem isVariant_unitOf (path encoding : Bytes) {a b : GeneratedUnit}
    (htype : b.typeName = a.typeName) (hunit : b.tree.head.unit = a.tree.head.unit)
    (hpage : b.tree.page? = a.tree.page?) (hapart : ∀ page, a.tree.page? = some page →
      Generation.Imports.Apart page.functions → b = a) :
    (unitOf path encoding a).IsVariant (unitOf path encoding b) where
  path := Eq.refl path
  typeName := htype
  fileName := Eq.refl (Generation.fileName path)
  encoding := Eq.refl encoding
  isTagFile := congrArg (·.any (·.isTagFile)) hunit
  page := hpage
  eq_of_apart page hp h := congrArg (unitOf path encoding) (hapart page hp h)

/-- In whatever orders functions come, what follows the parse of a unit comes to variants. -/
theorem variants_built (path encoding : Bytes) (o : Except Failure Node)
    (order order' : MapOrder (Expression.FunctionRef × LibraryFunction)) :
    Variants (recovered (o >>= c.built registry path encoding order))
      (recovered (o >>= c.built registry path encoding order')) := by
  cases o with
  | error e => exact Variants.refl (recovered (.error e))
  | ok tree =>
    simp only [built, bind, Except.bind]
    generalize ((c.validated path tree).outcome { registry := registry }).1 = checked
    cases checked with
    | error e => exact Variants.refl (recovered (.error e))
    | ok tree =>
      dsimp only
      obtain ⟨e, ha, hb⟩ | ⟨a, b, ha, hb, htype, hunit, hpage, hapart⟩ :=
        tree.generate_variants (c.options.generation (typeName path tree)) order order'
      · rw [ha, hb]
        exact Variants.refl (recovered (.error e))
      · rw [ha, hb]
        exact .ok (isVariant_unitOf path encoding htype hunit hpage hapart)

/-- Variants of a unit implement one tag. -/
theorem described_eq_of_variants {v v' : Except Failure CompiledUnit} (h : Variants v v')
    (path : Bytes) : v >>= described path = v' >>= described path := by
  cases h with
  | error e => rfl
  | @ok u u' h =>
    show described path u = described path u'
    unfold described descriptor
    rw [h.page]

theorem MayRead.readIn_eq (hreads : c.ReadsAlike registry) {path e e' : Bytes}
    (h : c.MayRead registry path e) (h' : c.MayRead registry path e') :
    c.readIn e path = c.readIn e' path := by
  rcases h with rfl | ⟨he, file, hfile, rfl⟩
  · rcases h' with rfl | ⟨he', file, hfile, rfl⟩
    · rfl
    · exact hreads file hfile _ _ .fallback he'
  · refine hreads file hfile _ _ he ?_
    rcases h' with rfl | ⟨he', -⟩
    · exact .fallback
    · exact he'

/-- **Compiling a file comes to one thing** if tag files are read alike in all encodings, and those
that may be asked for while they are being compiled are told alike. -/
theorem ComesTo.unique (hreads : c.ReadsAlike registry)
    (hagree : ∀ f, alone f → c.AgreesAlone registry alone f) {path : Bytes}
    {v v' : Except Failure CompiledUnit} (h : c.ComesTo registry alone path v)
    (h' : c.ComesTo registry alone path v') : Variants v v' := by
  induction h generalizing v' with
  | unread hread h =>
    cases h' with
    | unread hread' h₁ =>
      rw [hread.readIn_eq hreads hread', h₁] at h
      rw [Except.error.inj h]
      exact .refl _
    | parsed _ hread' h₁ _ _ =>
      rw [hread.readIn_eq hreads hread', h₁] at h
      cases h
  | @parsed path encoding source o compiled order hread h hcompiled hcomes ih =>
    cases h' with
    | unread hread' h₁ =>
      rw [hread.readIn_eq hreads hread', h₁] at h
      cases h
    | @parsed _ _ source' o' compiled' order' hread' h₁ hcompiled' hcomes' =>
      rw [hread.readIn_eq hreads hread', h₁] at h
      obtain rfl := Except.ok.inj h
      suffices ho : o = o' by
        rw [ho]
        exact variants_built _ _ _ _ _
      refine hcomes.unique hcomes' rfl rfl ?_
      rintro file a a' ⟨-, ⟨v, hv, rfl⟩ | ⟨halone, e, he, rfl⟩⟩
        ⟨-, ⟨v', hv', rfl⟩ | ⟨halone', e', he', rfl⟩⟩
      · exact described_eq_of_variants (ih _ _ hv (hcompiled' _ _ hv')) _
      · obtain ⟨answer, hextracted, hmade⟩ := hagree _ halone'
        rw [hmade _ (hcompiled _ _ hv), hextracted e' he']
      · obtain ⟨answer, hextracted, hmade⟩ := hagree _ halone
        rw [hmade _ (hcompiled' _ _ hv'), hextracted e he]
      · obtain ⟨answer, hextracted, -⟩ := hagree _ halone
        rw [hextracted e he, hextracted e' he']

/-- A unit is one of the file that was compiled. -/
theorem ComesTo.path_eq {path : Bytes} {u : CompiledUnit}
    (h : c.ComesTo registry alone path (.ok u)) : u.path = path := by
  generalize hv : (.ok u : Except Failure CompiledUnit) = v at h
  cases h with
  | unread _ _ => cases hv
  | @parsed _ _ source o _ _ _ _ _ _ =>
    cases o with
    | error e => cases e <;> cases hv
    | ok tree =>
      simp only [built, bind, Except.bind] at hv
      generalize ((c.validated path tree).outcome { registry := registry }).1 = checked at hv
      cases checked with
      | error e => cases e <;> cases hv
      | ok tree =>
        dsimp only at hv
        generalize tree.generate _ = code at hv
        cases code with
        | error e => cases e <;> cases hv
        | ok code =>
          obtain rfl := Except.ok.inj hv
          rfl

end Compiler

/-! ### Outcomes of requests -/

section Outcomes

open Compiler

variable {α β : Type}

/-- Made from `s`, the request has the outcome, and leaves the session, as `Q` says. -/
def Concludes (x : Compile α) (s : Session) (Q : Except Failure α → Session → Prop) : Prop :=
  Q (x.outcome s).1 (x.outcome s).2

variable {s : Session} {Q R : Except Failure α → Session → Prop}

theorem Concludes.of_ok {x : Compile α} {a : α} {t : Session} (h : x s = .ok a t)
    (hq : Q (.ok a) t) : Concludes x s Q := by
  rw [Concludes, Compile.outcome, h]
  exact hq

theorem Concludes.of_error {x : Compile α} {e : Failure} {t : Session} (h : x s = .error e t)
    (hq : Q (.error e) t) : Concludes x s Q := by
  rw [Concludes, Compile.outcome, h]
  exact hq

theorem Concludes.mono {x : Compile α} (h : Concludes x s Q) (hQ : ∀ o t, Q o t → R o t) :
    Concludes x s R := hQ _ _ h

theorem Concludes.pure {a : α} (h : Q (.ok a) s) : Concludes (Pure.pure a) s Q := h

theorem Concludes.ofFault {o : Except Fault α} (h : Q (o.mapError .fault) s) :
    Concludes (Compile.ofFault o) s Q := by
  cases o <;> exact h

theorem Concludes.ofFailure {o : Except Failure α} (h : Q o s) :
    Concludes (Compile.ofFailure o) s Q := by
  cases o <;> exact h

/-- What a part concludes is taken up by the rest. -/
theorem Concludes.bind {x : Compile α} {f : α → Compile β} {Q' : Except Failure β → Session → Prop}
    (hx : Concludes x s Q) (hok : ∀ a t, Q (.ok a) t → Concludes (f a) t Q')
    (herror : ∀ e t, Q (.error e) t → Q' (.error e) t) : Concludes (x >>= f) s Q' := by
  unfold Concludes Compile.outcome at hx
  cases h : x s with
  | ok a t =>
    rw [h] at hx
    have hrun := hok a t hx
    unfold Concludes Compile.outcome at hrun ⊢
    rwa [bind_ok h]
  | error e t =>
    rw [h] at hx
    exact .of_error (bind_error h) (herror e t hx)

theorem Concludes.get {f : Session → Compile β} {Q' : Except Failure β → Session → Prop}
    (h : Concludes (f s) s Q') : Concludes (MonadStateOf.get >>= f) s Q' := h

theorem Concludes.modify {g : Session → Session} {f : PUnit → Compile β}
    {Q' : Except Failure β → Session → Prop} (h : Concludes (f ()) (g s) Q') :
    Concludes (MonadStateOf.modifyGet (fun s => ((), g s)) >>= f) s Q' := h

theorem Concludes.bracket {enter leave : Session → Session} {x : Compile α}
    (h : Concludes x (enter s) fun o t => Q o (leave t)) :
    Concludes (Compile.bracket enter leave x) s Q := by
  unfold Concludes Compile.outcome at h
  cases hx : x (enter s) with
  | ok a t =>
    rw [hx] at h
    exact .of_ok (by rw [Compile.bracket, hx]) h
  | error e t =>
    rw [hx] at h
    exact .of_error (by rw [Compile.bracket, hx]) h

theorem Concludes.recovering {x : Compile α} (h : Concludes x s fun o t => Q (recovered o) t) :
    Concludes (Compile.recovering x) s Q := by
  unfold Concludes Compile.outcome at h
  cases hx : x s with
  | ok a t =>
    rw [hx] at h
    exact .of_ok (by rw [Compile.recovering, hx]) h
  | error e t =>
    rw [hx] at h
    cases e <;> exact .of_error (by rw [Compile.recovering, hx]) h

/-- A fault that is reported leaves an event in the log. -/
theorem Concludes.noting (path message : Bytes) {x : Compile α} (h : Concludes x s Q)
    (hlog : ∀ o t event, Q o t → Q o { t with log := event :: t.log }) :
    Concludes (Compile.noting path message x) s Q := by
  unfold Concludes Compile.outcome at h
  cases hx : x s with
  | ok a t =>
    rw [hx] at h
    exact .of_ok (by rw [Compile.noting, hx]) h
  | error e t =>
    rw [hx] at h
    cases e with
    | fault f => exact .of_error (by rw [Compile.noting, hx]) (hlog _ _ _ h)
    | invariant m => exact .of_error (by rw [Compile.noting, hx]) h
    | crash => exact .of_error (by rw [Compile.noting, hx]) h

end Outcomes

/-! ### Sound sessions -/

namespace Session

/-- The log says that the tag file was asked for while it was being compiled. -/
def Reports (s : Session) (path : Bytes) : Prop :=
  ⟨.debug, "tag file depends on itself, extracting signature", [("unit", .text path)]⟩ ∈ s.log

/-- All that the session keeps is something that compiling the files can come to. -/
structure IsSound (c : Compiler) (registry : Registry) (s : Session) : Prop where
  libraries : ∀ uri, (s.registry.answer uri).1 = (registry.answer uri).1
  encodings : ∀ e ∈ s.encodings, c.InUse e
  units : ∀ e ∈ s.units, c.ComesTo registry s.Reports e.1 (.ok e.2)
  signatures : ∀ e ∈ s.signatures, ∃ u,
    c.ComesTo registry s.Reports e.1 (.ok u) ∧ Compiler.described e.1 u = .ok e.2
  auxiliary : ∀ u ∈ s.auxiliary, c.ComesTo registry s.Reports u.path (.ok u)

/-- The session `t` comes after `s` in a request: it is sound, what is going on is the same, and
nothing was taken from the log. -/
structure Precedes (c : Compiler) (registry : Registry) (s t : Session) : Prop where
  running : t.running = s.running
  encodings : t.encodings = s.encodings
  log : s.log ⊆ t.log
  sound : t.IsSound c registry

variable {c : Compiler} {registry : Registry} {s t u : Session}

theorem Reports.mono (h : s.log ⊆ t.log) {path : Bytes} (hs : s.Reports path) : t.Reports path :=
  h hs

theorem Precedes.refl (h : s.IsSound c registry) : s.Precedes c registry s :=
  ⟨rfl, rfl, List.Subset.refl _, h⟩

theorem Precedes.trans (h : s.Precedes c registry t) (h' : t.Precedes c registry u) :
    s.Precedes c registry u where
  running := h'.running.trans h.running
  encodings := h'.encodings.trans h.encodings
  log := List.Subset.trans h.log h'.log
  sound := h'.sound

/-- A session that just began is sound. -/
theorem isSound_fresh (c : Compiler) (registry : Registry) :
    IsSound c registry { registry := registry } where
  libraries _ := rfl
  encodings _ h := absurd h List.not_mem_nil
  units _ h := absurd h List.not_mem_nil
  signatures _ h := absurd h List.not_mem_nil
  auxiliary _ h := absurd h List.not_mem_nil

/-- What compiling a file came to in a session it can come to later. -/
theorem Precedes.comesTo (h : s.Precedes c registry t) {path : Bytes}
    {v : Except Failure CompiledUnit} (hv : c.ComesTo registry s.Reports path v) :
    c.ComesTo registry t.Reports path v := hv.mono fun _ => Reports.mono h.log

/-- The encoding that is fallen back to stays. -/
theorem Precedes.fallback (h : s.Precedes c registry t) : c.fallback t = c.fallback s := by
  rw [Compiler.fallback, h.encodings, Compiler.fallback]

/-- A session stays sound when libraries are loaded, encodings in use are entered and left, and
events are reported. -/
theorem IsSound.change (h : s.IsSound c registry)
    (hlibraries : ∀ uri, (t.registry.answer uri).1 = (s.registry.answer uri).1)
    (hencodings : ∀ e ∈ t.encodings, c.InUse e) (hlog : s.log ⊆ t.log) (hunits : t.units = s.units)
    (hsignatures : t.signatures = s.signatures) (hauxiliary : t.auxiliary = s.auxiliary) :
    t.IsSound c registry := by
  have hmono {path : Bytes} {v : Except Failure CompiledUnit}
      (hv : c.ComesTo registry s.Reports path v) : c.ComesTo registry t.Reports path v :=
    hv.mono fun _ => Reports.mono hlog
  refine ⟨fun uri => (hlibraries uri).trans (h.libraries uri), hencodings, ?_, ?_, ?_⟩
  · rw [hunits]
    exact fun e he => hmono (h.units e he)
  · rw [hsignatures]
    exact fun e he => (h.signatures e he).imp fun _ hu => ⟨hmono hu.1, hu.2⟩
  · rw [hauxiliary]
    exact fun u hu => hmono (h.auxiliary u hu)

theorem Precedes.logged (h : s.Precedes c registry t) (event : Event) :
    s.Precedes c registry { t with log := event :: t.log } where
  running := h.running
  encodings := h.encodings
  log := List.subset_cons_of_subset _ h.log
  sound := h.sound.change (fun _ => rfl) h.sound.encodings (List.subset_cons_self _ _) rfl rfl rfl

/-- The encoding that is fallen back to is in use. -/
theorem IsSound.inUse (h : s.IsSound c registry) : c.InUse (c.fallback s) := by
  rw [Compiler.fallback]
  cases hs : s.encodings with
  | nil => exact .fallback
  | cons e es => exact h.encodings e (hs ▸ List.mem_cons_self)

end Session

/-- What a dialog came to in a session it can come to later. -/
theorem Dialog.Comes.later {α : Type} {c : Compiler} {registry : Registry} {encoding : Bytes}
    {s t : Session} {d : Dialog α} {o : Except Failure α}
    (h : d.Comes (c.informant registry encoding
      (c.Tells registry s.Reports (c.ComesTo registry s.Reports))) o) (hlog : s.log ⊆ t.log) :
    d.Comes (c.informant registry encoding
      (c.Tells registry t.Reports (c.ComesTo registry t.Reports))) o :=
  h.mono rfl rfl fun _ _ ha => ha.mono (fun _ => Session.Reports.mono hlog) fun _ _ hv =>
    hv.mono fun _ => Session.Reports.mono hlog

namespace Compiler

variable {c : Compiler} {registry : Registry} {s : Session}

/-! ### Questions -/

/-- Asking for a library leaves a session sound, and the answer is that of the registry. -/
theorem precedes_library {q : Bytes → Session → Except Fault TagLibrary × Session}
    (hq : c.library = some q) (uri : Bytes) (hs : s.IsSound c registry) :
    s.Precedes c registry (q uri s).2 ∧ (q uri s).1 = (registry.answer uri).1 := by
  obtain rfl := c.eq_of_library hq
  rw [Session.library_eq]
  refine ⟨⟨rfl, rfl, List.Subset.refl _, ?_⟩, hs.libraries uri⟩
  exact hs.change (Registry.answer_answer s.registry uri) hs.encodings (List.Subset.refl _)
    rfl rfl rfl

theorem sourceText_eq_readIn (path : Bytes) : c.sourceText s path = c.readIn (c.fallback s) path :=
  rfl

/-- While some units are being compiled, tag files are told of as the files can make them. -/
def TellsSoundly (c : Compiler) (registry : Registry) (running : List Bytes)
    (describe : Bytes → Compile TagDescriptor) : Prop :=
  ∀ path s, IsTagPath registry path → s.IsSound c registry → s.running = running →
    Concludes (describe path) s fun o t =>
      s.Precedes c registry t ∧ c.Tells registry t.Reports (c.ComesTo registry t.Reports) path o

/-- The answers that the registry gives. -/
def answered (registry : Registry) : Record
  | .library uri answer => answer = (registry.answer uri).1
  | .file _ _ => True
  | .tag _ _ => True

/-- A dialog held in a sound session comes to what the files can make of it. -/
theorem comes_of_run {α : Type} {describe : Bytes → Compile TagDescriptor}
    (hd : TellsSoundly c registry s.running describe) {P : α → Prop} {d : Dialog α}
    (hwithin : d.Within (answered registry) P) {m t : Session} {o : Except Failure α}
    (hm : s.Precedes c registry m) (h : d.run (c.host (some describe)) m = (o, t)) :
    m.Precedes c registry t ∧ d.Comes (c.informant registry (c.fallback s)
      (c.Tells registry t.Reports (c.ComesTo registry t.Reports))) o := by
  induction d generalizing m with
  | ended o' =>
    obtain ⟨rfl, rfl⟩ := Prod.mk.inj h
    exact ⟨.refl hm.sound, rfl⟩
  | library uri next ih =>
    have hlibrary : (c.host (some describe)).library = c.library := rfl
    have hinformant : (c.informant registry (c.fallback s) (c.Tells registry t.Reports
        (c.ComesTo registry t.Reports))).library =
          c.library.map fun q uri => (q uri { registry := registry }).1 := rfl
    rw [Dialog.run, hlibrary] at h
    rw [Dialog.Comes, hinformant]
    cases hq : c.library with
    | none =>
      rw [hq] at h
      obtain ⟨rfl, rfl⟩ := Prod.mk.inj h
      exact ⟨.refl hm.sound, rfl⟩
    | some q =>
      rw [hq] at h
      obtain ⟨hstep, hanswer⟩ := precedes_library hq uri hm.sound
      obtain ⟨-, hfresh⟩ := precedes_library hq uri (Session.isSound_fresh c registry)
      obtain ⟨hrest, hcomes⟩ := ih _ (hwithin _ hanswer) (hm.trans hstep) h
      refine ⟨hstep.trans hrest, ?_⟩
      dsimp only [Option.map]
      rwa [hfresh, ← hanswer]
  | file path reason next ih =>
    have hfile : (c.load path m).1 = (c.readIn (c.fallback s) path).map (·.text) := by
      rw [load_eq, sourceText_eq_readIn, hm.fallback]
    have hload : (c.host (some describe)).load = some c.load := rfl
    have hinformant : (c.informant registry (c.fallback s) (c.Tells registry t.Reports
        (c.ComesTo registry t.Reports))).file path = (c.load path m).1 := hfile.symm
    have hsame : c.load path m = ((c.load path m).1, m) := by rw [load_eq]
    rw [Dialog.run, hload] at h
    rw [Dialog.Comes, hinformant]
    dsimp only at h
    rw [hsame] at h
    cases hanswer : (c.load path m).1 with
    | error f =>
      rw [hanswer] at h
      obtain ⟨rfl, rfl⟩ := Prod.mk.inj h
      exact ⟨.refl hm.sound, rfl⟩
    | ok text =>
      rw [hanswer] at h
      exact ih _ (hwithin _ trivial) hm h
  | tag path reason next ih =>
    obtain ⟨⟨uri, l, name, hl, hname⟩, hnext⟩ := hwithin
    have hpath : IsTagPath registry path := ⟨uri, l, name, hl.symm, hname⟩
    obtain ⟨hstep, htells⟩ := hd path m hpath hm.sound hm.running
    have htagFile : (c.host (some describe)).tagFile =
      some fun path => (describe path).outcome := rfl
    rw [Dialog.run, htagFile] at h
    dsimp only at h
    rcases hanswer : (describe path).outcome m with ⟨e | d, m₁⟩
    all_goals
      rw [hanswer] at h hstep htells
    · obtain ⟨rfl, rfl⟩ := Prod.mk.inj h
      exact ⟨hstep, .inr ⟨e, htells, rfl⟩⟩
    · obtain ⟨hrest, hcomes⟩ := ih d (hnext d trivial) (hm.trans hstep) h
      refine ⟨hstep.trans hrest, .inl ⟨d, ?_, hcomes⟩⟩
      exact htells.mono (fun _ => Session.Reports.mono hrest.log) fun _ _ => hrest.comesTo

/-! ### Parts of a request -/

/-- The two sessions are answered alike when they ask for libraries. -/
def SharesLibraries (s t : Session) : Prop :=
  ∀ uri, (t.registry.answer uri).1 = (s.registry.answer uri).1

/-- Sessions with one registry find the same libraries. -/
theorem SharesLibraries.library {s t : Session} (h : SharesLibraries s t)
    {q : Bytes → Session → Except Fault TagLibrary × Session} (hq : c.library = some q)
    (uri : Bytes) : (q uri t).1 = (q uri s).1 ∧ SharesLibraries (q uri s).2 (q uri t).2 ∧
      c.fallback (q uri s).2 = c.fallback s ∧ c.fallback (q uri t).2 = c.fallback t := by
  obtain rfl := c.eq_of_library hq
  rw [Session.library_eq, Session.library_eq]
  refine ⟨h uri, fun v => ?_, rfl, rfl⟩
  exact (Registry.answer_answer _ _ _).trans ((h v).trans (Registry.answer_answer _ _ _).symm)

/-- What a validation comes to, and the session it leaves. -/
theorem outcome_validated (path : Bytes) (tree : Node) (s : Session) :
    ((c.validated path tree).outcome s).2 =
        (tree.validate c.library c.options.validation s).memory ∧
      ∀ t, (tree.validate c.library c.options.validation t).tree =
          (tree.validate c.library c.options.validation s).tree →
        (tree.validate c.library c.options.validation t).failure =
          (tree.validate c.library c.options.validation s).failure →
        ((c.validated path tree).outcome t).1 = ((c.validated path tree).outcome s).1 := by
  have hset : ∀ u v : Session, (set u : Compile PUnit) v = .ok ⟨⟩ u := fun _ _ => rfl
  unfold Compile.outcome
  rw [validated, bind_get, bind_ok (hset _ _)]
  constructor
  · cases (tree.validate c.library c.options.validation s).failure with
    | some f => rfl
    | none => cases (tree.validate c.library c.options.validation s).tree.page? <;> rfl
  · intro t htree hfailure
    rw [bind_get, bind_ok (hset _ _), htree, hfailure]
    cases (tree.validate c.library c.options.validation s).failure with
    | some f => rfl
    | none => cases (tree.validate c.library c.options.validation s).tree.page? <;> rfl

/-- A validation has the same outcome where libraries are answered alike. -/
theorem outcome_validated_eq {s t : Session} (h : SharesLibraries s t) (path : Bytes)
    (tree : Node) :
    ((c.validated path tree).outcome t).1 = ((c.validated path tree).outcome s).1 := by
  have hrespects : Validation.Env.Respects ⟨c.library, c.options.validation.binder⟩
      SharesLibraries := fun q hq uri m m' hm => ⟨(hm.library hq uri).1, (hm.library hq uri).2.1⟩
  obtain ⟨htree, hfailure, -⟩ :=
    tree.validate_related c.library c.options.validation hrespects h
  exact (outcome_validated path tree s).2 t htree hfailure

/-- Validating a unit asks for libraries only. -/
theorem concludes_validated (hs : s.IsSound c registry) (path : Bytes) (tree : Node) :
    Concludes (c.validated path tree) s fun o t => s.Precedes c registry t ∧
      o = ((c.validated path tree).outcome { registry := registry }).1 := by
  refine ⟨?_, (outcome_validated_eq (fun uri => (hs.libraries uri).symm) path tree).symm⟩
  rw [(outcome_validated path tree s).1]
  exact tree.validate_memory c.library c.options.validation s (K := s.Precedes c registry)
    (fun q hq uri m hm => hm.trans (precedes_library hq uri hm.sound).1) (.refl hs)

/-- Describing the tag of a unit changes nothing. -/
theorem outcome_descriptor (path : Bytes) (tree : Node) (s : Session) :
    (descriptor path tree).outcome s = (((descriptor path tree).outcome {}).1, s) := by
  unfold descriptor
  cases tree.page?.bind (·.tag) <;> rfl

theorem outcome_parse (request : ParseRequest) (host : Host Session) (s : Session) :
    (parse request host).outcome s = request.parse host s := by
  unfold Compile.outcome parse
  rcases request.parse host s with ⟨e | n, t⟩ <;> rfl

/-- Reading directives asks for libraries and files only. -/
theorem precedes_parse (request : ParseRequest) (hs : s.IsSound c registry) :
    s.Precedes c registry (request.parse (c.host none) s).2 := by
  have hmeets : (c.host none).Meets (s.Precedes c registry) (s.Precedes c registry)
      fun _ => answered registry := by
    refine ⟨fun _ h => h, fun q hq uri m hm => ?_, fun q hq path m hm => ?_, fun q hq => ?_⟩
    · obtain ⟨hstep, hanswer⟩ := precedes_library hq uri hm.sound
      exact ⟨hm.trans hstep, hanswer, fun _ h => h⟩
    · obtain rfl := Option.some.inj hq
      refine ⟨fun text m' h => ?_, fun f m' h => ?_⟩
      · obtain rfl : m = m' := (Prod.mk.inj ((c.load_eq path m).symm.trans h)).2
        exact ⟨hm, trivial, fun _ ht => ht⟩
      · obtain rfl : m = m' := (Prod.mk.inj ((c.load_eq path m).symm.trans h)).2
        exact hm
    · cases hq
  obtain ⟨hok, herror⟩ := Dialog.run_meets hmeets (.refl hs)
    fun rec _ => request.dialog_within (c.host none).questions rec
  rw [← request.parse_eq_run] at hok herror
  rcases h : request.parse (c.host none) s with ⟨e | n, t⟩
  · exact herror e t h
  · exact (hok n t h).1

/-- Reading directives gives the same where libraries and the encoding are the same. -/
theorem outcome_parse_eq (request : ParseRequest) {s t : Session} (h : SharesLibraries s t)
    (hfallback : c.fallback t = c.fallback s) :
    (request.parse (c.host none) t).1 = (request.parse (c.host none) s).1 := by
  let R (s t : Session) : Prop := SharesLibraries s t ∧ c.fallback t = c.fallback s
  have hrespects : (c.host none).Respects R := by
    refine ⟨fun q hq uri m m' hm => ?_, fun q hq path m m' hm => ?_, fun q hq => ?_⟩
    · obtain ⟨hanswer, hshares, hleft, hright⟩ := hm.1.library hq uri
      exact ⟨hanswer, hshares, hright.trans (hm.2.trans hleft.symm)⟩
    · obtain rfl := Option.some.inj hq
      rw [load_eq, load_eq, sourceText_eq_readIn, sourceText_eq_readIn, hm.2]
      exact ⟨rfl, hm⟩
    · cases hq
  rw [request.parse_eq_run, request.parse_eq_run]
  exact (Dialog.run_respects hrespects _ ⟨h, hfallback⟩).1

/-- The request to read the directives of a tag file. -/
def directivesRequest (path : Bytes) (source : SourceText) : ParseRequest where
  path := path
  text := source.text
  directivesOnly := true
  tagFile := true
  encoding := source.encoding

theorem except_ok_bind {α β : Type} (a : α) (f : α → Except Failure β) :
    (.ok a >>= f) = f a := rfl

/-- The parts of reading the directives of a tag file. -/
theorem concludes_signature_parts (hs : s.IsSound c registry) (path : Bytes) :
    Concludes (c.signature path) s fun o t => s.Precedes c registry t ∧ o = recovered (do
      let source ← (c.readIn (c.fallback s) (cleanPath path)).mapError .fault
      let tree ← ((directivesRequest (cleanPath path) source).parse (c.host none) s).1
      let tree ← ((c.validated (cleanPath path) tree).outcome { registry := registry }).1
      ((descriptor (cleanPath path) tree).outcome {}).1) := by
  refine .recovering (.get ?_)
  rw [asking_sourceTextM]
  refine .bind (Q := fun o t => t = s ∧
    o = (c.readIn (c.fallback s) (cleanPath path)).mapError .fault) (.ofFault ⟨rfl, rfl⟩) ?_ ?_
  · rintro source t ⟨ht, hsource⟩
    subst ht
    rw [← hsource]
    refine .bind (Q := fun o u => t.Precedes c registry u ∧
      o = ((directivesRequest (cleanPath path) source).parse (c.host none) t).1) ?_ ?_ ?_
    · rw [Concludes, directivesRequest, outcome_parse]
      exact ⟨precedes_parse _ hs, rfl⟩
    · rintro tree u ⟨hu, htree⟩
      rw [except_ok_bind, ← htree, except_ok_bind]
      refine .bind (concludes_validated hu.sound (cleanPath path) tree) ?_ ?_
      · rintro tree' v ⟨hv, htree'⟩
        rw [← htree', except_ok_bind, Concludes, outcome_descriptor]
        exact ⟨hu.trans hv, rfl⟩
      · rintro e v ⟨hv, he⟩
        rw [← he]
        exact ⟨hu.trans hv, rfl⟩
    · rintro e u ⟨hu, he⟩
      rw [except_ok_bind, ← he]
      exact ⟨hu, rfl⟩
  · rintro e _ ⟨rfl, hsource⟩
    rw [← hsource]
    exact ⟨.refl hs, rfl⟩

/-- Reading the directives of a tag file in a sound session gives what they give in its innermost
encoding. -/
theorem concludes_signature (hs : s.IsSound c registry) (path : Bytes) :
    Concludes (c.signature path) s fun o t => s.Precedes c registry t ∧
      o = c.extracted registry (c.fallback s) path := by
  have hfresh : Session.IsSound c registry { registry := registry, encodings := [c.fallback s] } :=
    (Session.isSound_fresh c registry).change (fun _ => rfl)
      (fun e he => List.mem_singleton.mp he ▸ hs.inUse) (List.Subset.refl _) rfl rfl rfl
  have hparse (request : ParseRequest) : (request.parse (c.host none) s).1 =
      (request.parse (c.host none)
        { registry := registry, encodings := [c.fallback s] }).1 :=
    outcome_parse_eq request (fun uri => hs.libraries uri) rfl
  have hgives := (concludes_signature_parts hfresh path).2
  refine (concludes_signature_parts hs path).mono fun o t ⟨ht, ho⟩ => ⟨ht, ?_⟩
  rw [ho, extracted, hgives]
  simp only [hparse]
  rfl

/-! ### Units -/

/-- Parsing a unit comes to what the files can make of its dialog. -/
theorem concludes_parse {describe : Bytes → Compile TagDescriptor} (hs : s.IsSound c registry)
    (hd : TellsSoundly c registry s.running describe) (path : Bytes) (source : SourceText) :
    Concludes (parse (unitRequest path source) (c.host (some describe))) s fun o t =>
      s.Precedes c registry t ∧ ((unitRequest path source).dialog c.questions).Comes
        (c.informant registry (c.fallback s) (c.Tells registry t.Reports
          (c.ComesTo registry t.Reports))) o := by
  rw [Concludes, outcome_parse, ParseRequest.parse_eq_run]
  have hquestions : (c.host (some describe)).questions = c.questions := rfl
  rw [hquestions]
  exact comes_of_run hd ((unitRequest path source).dialog_within c.questions _) (.refl hs) rfl

/-- What follows the parse of a unit comes to what it comes to without a session, in some order. -/
theorem concludes_built (hs : s.IsSound c registry) (path encoding : Bytes) (tree : Node) :
    Concludes (do
      let tree ← Compile.noting path "validation failed" (c.validated path tree)
      let options := c.generation path tree (← get).log
      let code ← Compile.noting path "generation failed" (Compile.ofFailure (tree.generate options))
      Compile.report .info "unit compiled" [
        ("unit", .text path), ("type", .text code.typeName), ("fragments", .number code.fragments),
        ("hoisted", .number code.hoisted)]
      return unitOf path encoding code) s fun o t =>
        s.Precedes c registry t ∧ ∃ order, o = c.built registry path encoding order tree := by
  unfold built
  refine .bind ((concludes_validated hs path tree).noting _ _ fun o t event ht =>
    ⟨ht.1.logged event, ht.2⟩) ?_ ?_
  · rintro tree' t ⟨ht, htree⟩
    simp only [← htree, except_ok_bind]
    refine .get (.bind (Q := fun o u => s.Precedes c registry u ∧
      o = tree'.generate (c.generation path tree' t.log)) ((Concludes.ofFailure ⟨ht, rfl⟩).noting
        _ _ fun o u event hu => ⟨hu.1.logged event, hu.2⟩) ?_ ?_)
    · rintro code u ⟨hu, hcode⟩
      refine .modify (.pure ⟨hu.logged _, c.order t.log, ?_⟩)
      show _ = tree'.generate (c.generation path tree' t.log) >>= _
      rw [← hcode]
      rfl
    · rintro e u ⟨hu, he⟩
      refine ⟨hu, c.order t.log, ?_⟩
      show _ = tree'.generate (c.generation path tree' t.log) >>= _
      rw [← he]
      rfl
  · rintro e t ⟨ht, he⟩
    refine ⟨ht, .asMade, ?_⟩
    rw [← he]
    rfl

/-- Entering a unit leaves a session sound. -/
theorem isSound_entering (hs : s.IsSound c registry) (path : Bytes) {encoding : Bytes}
    (h : c.InUse encoding) : (entering path encoding s).IsSound c registry :=
  hs.change (fun _ => rfl) (List.forall_mem_cons.mpr ⟨h, hs.encodings⟩)
    (List.subset_cons_self _ _) rfl rfl rfl

/-- Leaving a unit puts back what entering it changed. -/
theorem precedes_leaving {path encoding : Bytes} {t : Session}
    (h : (entering path encoding s).Precedes c registry t) : s.Precedes c registry (leaving t) where
  running := congrArg (List.drop 1) h.running
  encodings := congrArg (List.drop 1) h.encodings
  log := List.Subset.trans (List.subset_cons_self _ _) h.log
  sound := h.sound.change (fun _ => rfl) (fun e he => h.sound.encodings e (List.mem_of_mem_drop he))
    (List.Subset.refl _) rfl rfl rfl

theorem eq_ok_of_mapError {α : Type} {o : Except Fault α} {a : α}
    (h : o.mapError Failure.fault = .ok a) : o = .ok a := by
  cases o with
  | error f => cases h
  | ok b => rw [Except.ok.inj h]

theorem eq_error_of_mapError {α : Type} {o : Except Fault α} {e : Failure}
    (h : o.mapError Failure.fault = .error e) : ∃ f, o = .error f ∧ .fault f = e := by
  cases o with
  | error f => exact ⟨f, rfl, Except.error.inj h⟩
  | ok b => cases h

/-- **Compiling a unit in a sound session comes to something that compiling its file can come to**,
and the session stays sound. -/
theorem concludes_compileUnit {describe : Bytes → Compile TagDescriptor} {path raw : Bytes}
    (hs : s.IsSound c registry) (hd : TellsSoundly c registry (path :: s.running) describe)
    (hraw : c.readFile path = .ok raw) (hread : c.MayRead registry path (c.fallback s)) :
    Concludes (c.compileUnit describe path raw .auto) s fun o t =>
      s.Precedes c registry t ∧ c.ComesTo registry t.Reports path o := by
  have hsource : c.readIn (c.fallback s) path =
      Charset.readSource c.options.encodings path raw (c.fallback s) := by
    rw [readIn, hraw]
    rfl
  refine .bracket (.recovering (.get (.bind (Q := fun o t =>
    t = { s with running := path :: s.running } ∧
      o = (c.readIn (c.fallback s) path).mapError .fault)
    (.ofFault ⟨rfl, by rw [hsource]; rfl⟩) ?_ ?_)))
  · rintro source _ ⟨rfl, h⟩
    have hsource := eq_ok_of_mapError h.symm
    have hinside := isSound_entering hs path (.source hs.inUse hsource)
    refine .bracket (.modify ?_)
    show Concludes _ (entering path source.encoding s) fun o t =>
      s.Precedes c registry (leaving t) ∧
        c.ComesTo registry (leaving t).Reports path (recovered o)
    refine .bind ((concludes_parse hinside hd path source).noting _ _ fun o t event ht =>
      ⟨ht.1.logged event, ht.2.later (List.subset_cons_self _ _)⟩) ?_ ?_
    · rintro tree t ⟨ht, hcomes⟩
      refine (concludes_built ht.sound path source.encoding tree).mono fun o u ⟨hu, order, ho⟩ => ?_
      refine ⟨precedes_leaving (ht.trans hu), ?_⟩
      rw [ho]
      exact .parsed (o := .ok tree) order hread hsource (fun _ _ h => h) (hcomes.later hu.log)
    · rintro e t ⟨ht, hcomes⟩
      exact ⟨precedes_leaving ht,
        .parsed (o := .error e) .asMade hread hsource (fun _ _ h => h) hcomes⟩
  · rintro e _ ⟨rfl, h⟩
    obtain ⟨f, hf, rfl⟩ := eq_error_of_mapError h.symm
    exact ⟨.refl hs, .unread hread hf⟩

/-! ### Tag files -/

/-- A unit is kept, and it is one that compiling the file can come to. -/
theorem precedes_keep {path : Bytes} {u : CompiledUnit} {t : Session}
    (h : s.Precedes c registry t) (hu : c.ComesTo registry t.Reports path (.ok u)) :
    s.Precedes c registry { t with units := (path, u) :: t.units } where
  running := h.running
  encodings := h.encodings
  log := h.log
  sound := ⟨h.sound.libraries, h.sound.encodings, List.forall_mem_cons.mpr ⟨hu, h.sound.units⟩,
    h.sound.signatures, h.sound.auxiliary⟩

/-- A unit that its file can come to may be kept. -/
theorem precedes_auxiliary {path : Bytes} {u : CompiledUnit} {t : Session}
    (h : s.Precedes c registry t) (hu : c.ComesTo registry t.Reports path (.ok u)) :
    s.Precedes c registry { t with auxiliary := t.auxiliary ++ [u] } where
  running := h.running
  encodings := h.encodings
  log := h.log
  sound := ⟨h.sound.libraries, h.sound.encodings, h.sound.units, h.sound.signatures,
    fun v hv => (List.mem_append.mp hv).elim (h.sound.auxiliary v) fun hv => by
      rw [List.mem_singleton.mp hv, hu.path_eq]
      exact hu⟩

/-- The signature that is kept is that of a tag file. -/
theorem concludes_keepSignature (hs : s.IsSound c registry) {path : Bytes} {u : CompiledUnit}
    (hu : c.ComesTo registry s.Reports path (.ok u)) :
    Concludes (keepSignature path u) s fun o t =>
      s.Precedes c registry t ∧ o = described path u := by
  refine .bind (Q := fun o t => t = s ∧ o = described path u) ?_ ?_ ?_
  · rw [Concludes, outcome_descriptor]
    exact ⟨rfl, rfl⟩
  · rintro d _ ⟨rfl, hd⟩
    refine .modify (.pure ⟨⟨rfl, rfl, List.Subset.refl _, ?_⟩, hd⟩)
    exact ⟨hs.libraries, hs.encodings, hs.units,
      List.forall_mem_cons.mpr ⟨⟨u, hu, hd.symm⟩, hs.signatures⟩, hs.auxiliary⟩
  · rintro e _ ⟨rfl, he⟩
    exact ⟨.refl hs, he⟩

/-- **A tag file is told of as the files can make it**, while any units are being compiled, if the
fuel lets units nest as deep as there are files. -/
theorem tellsSoundly_describeWithin (fuel : Nat) {running : List Bytes} (hnodup : running.Nodup)
    (hsub : running ⊆ c.paths) (hfuel : c.paths.length < running.length + fuel) :
    TellsSoundly c registry running (c.describeWithin fuel) := by
  induction fuel generalizing running with
  | zero =>
    have hlength := hnodup.length_le_of_subset hsub
    omega
  | succ fuel ih =>
    rintro path s hpath hs rfl
    have hread : c.MayRead registry (cleanPath path) (c.fallback s) :=
      .inr ⟨hs.inUse, path, hpath, rfl⟩
    refine .get ?_
    split
    · next d hd =>
        obtain ⟨u, hu, hd⟩ := hs.signatures _ (mem_of_lookup hd)
        exact .pure ⟨.refl hs, hpath, .inl ⟨_, hu, hd.symm⟩⟩
    · next u _ hlookup =>
        have hu := hs.units _ (mem_of_lookup hlookup)
        refine (concludes_keepSignature hs hu).mono fun o t ⟨ht, ho⟩ => ⟨ht, hpath, .inl ?_⟩
        exact ⟨_, ht.comesTo hu, ho⟩
    next hunknown =>
    split
    · refine .modify ?_
      have hstart : s.Precedes c registry s := .refl hs
      have hlogged := hstart.logged ⟨.debug, "tag file depends on itself, extracting signature",
        [("unit", .text (cleanPath path))]⟩
      refine (concludes_signature hlogged.sound (cleanPath path)).mono fun o t ⟨ht, ho⟩ => ?_
      exact ⟨hlogged.trans ht, hpath, .inr ⟨ht.log List.mem_cons_self, _, hs.inUse, ho⟩⟩
    next hrunning =>
    have hrunning : cleanPath path ∉ s.running := fun h =>
      hrunning (List.contains_iff_mem.mpr h)
    rw [asking_readFileM]
    refine .bind (Q := fun o t => s = t ∧ o = (c.readFile (cleanPath path)).mapError .fault)
      (.ofFault ⟨rfl, rfl⟩) ?_ ?_
    · rintro raw _ ⟨rfl, hraw⟩
      have hraw := eq_ok_of_mapError hraw.symm
      have hinside :
          TellsSoundly c registry (cleanPath path :: s.running) (c.describeWithin fuel) := by
        refine ih (List.nodup_cons.mpr ⟨hrunning, hnodup⟩) (List.cons_subset.mpr ⟨?_, hsub⟩) ?_
        · exact mem_paths_of_readFile hraw (head?_cleanPath path)
        · rw [List.length_cons]
          omega
      refine .bind ((concludes_compileUnit hs hinside hraw hread).noting _ _
        fun o t event ht => ⟨ht.1.logged event, ht.2.mono fun _ => List.mem_cons_of_mem _⟩) ?_ ?_
      · rintro u t ⟨ht, hu⟩
        refine .modify ?_
        have hkept := precedes_auxiliary (precedes_keep ht hu) hu
        refine (concludes_keepSignature hkept.sound hu).mono fun o v ⟨hv, ho⟩ => ?_
        exact ⟨hkept.trans hv, hpath, .inl ⟨_, hv.comesTo hu, ho⟩⟩
      · rintro e t ⟨ht, he⟩
        exact ⟨ht, hpath, .inl ⟨_, he, rfl⟩⟩
    · rintro e _ ⟨rfl, he⟩
      obtain ⟨f, hf, rfl⟩ := eq_error_of_mapError he.symm
      refine ⟨.refl hs, hpath, .inl ⟨_, .unread hread ?_, rfl⟩⟩
      rw [readIn, hf]
      rfl

/-! ### Requests -/

/-- **What a request gives is something that compiling the files can come to**, after any requests
that left the session sound. -/
theorem concludes_compile (path : Bytes) (hs : s.IsSound c registry) (hrunning : s.running = [])
    (hencodings : s.encodings = []) :
    Concludes (c.compile path) s fun o t => s.Precedes c registry t ∧
      c.ComesTo registry t.Reports (cleanPath path) (o.map (·.unit)) ∧
      ∀ r, o = .ok r → ∀ u ∈ r.auxiliary, c.ComesTo registry t.Reports u.path (.ok u) := by
  have hread : c.MayRead registry (cleanPath path) (c.fallback s) := by
    rw [fallback, hencodings]
    exact .inl rfl
  refine .get ?_
  split
  · next u hu =>
      refine .pure ⟨.refl hs, hs.units _ (mem_of_lookup hu), fun r hr => ?_⟩
      obtain rfl := Except.ok.inj hr
      exact fun u hu => absurd hu List.not_mem_nil
  rw [asking_readFileM]
  refine .bind (Q := fun o t => s = t ∧ o = (c.readFile (cleanPath path)).mapError .fault)
    (.ofFault ⟨rfl, rfl⟩) ?_ ?_
  · rintro raw _ ⟨rfl, hraw⟩
    have hraw := eq_ok_of_mapError hraw.symm
    have hmem := mem_paths_of_readFile hraw (head?_cleanPath path)
    have hinside : TellsSoundly c registry (cleanPath path :: s.running) c.tagFile := by
      rw [hrunning]
      refine tellsSoundly_describeWithin _ (by simp)
        (List.cons_subset.mpr ⟨hmem, List.nil_subset _⟩) ?_
      rw [length_paths, depth, List.length_singleton]
      omega
    refine .bind (Q := fun o t => s.Precedes c registry t ∧
        c.ComesTo registry t.Reports (cleanPath path) (o.map (·.unit)) ∧
        ∀ r, o = .ok r → ∀ u ∈ r.auxiliary, c.ComesTo registry t.Reports u.path (.ok u)) ?_ ?_ ?_
    · refine .get (.bind (concludes_compileUnit hs hinside hraw hread) ?_ ?_)
      · rintro u t ⟨ht, hu⟩
        refine .get (.pure ⟨ht, hu, fun r hr => ?_⟩)
        obtain rfl := Except.ok.inj hr
        exact fun v hv => ht.sound.auxiliary v (List.mem_of_mem_drop hv)
      · rintro e t ⟨ht, he⟩
        exact ⟨ht, he, fun r hr => by cases hr⟩
    · rintro r t ⟨ht, hr, haux⟩
      have hkept := precedes_keep ht hr
      split
      · exact .modify (.pure ⟨hkept, hr, haux⟩)
      · exact .pure ⟨ht, hr, haux⟩
    · exact fun e t h => ⟨h.1, h.2.1, fun r hr => by cases hr⟩
  · rintro e _ ⟨rfl, he⟩
    obtain ⟨f, hf, rfl⟩ := eq_error_of_mapError he.symm
    refine ⟨.refl hs, .unread hread ?_, fun r hr => by cases hr⟩
    rw [readIn, hf]
    rfl

/-- What some requests give for files, one request after the other: the unit or the failure for the
file that is asked for, and the units of the tag files compiled on the way. -/
def gives (c : Compiler) : List Bytes → Session → List (Bytes × Except Failure CompiledUnit)
  | [], _ => []
  | path :: history, s =>
    match (c.compile path).outcome s with
    | (.ok r, t) =>
      (cleanPath path, .ok r.unit) ::
        (r.auxiliary.map (fun u => (u.path, .ok u)) ++ gives c history t)
    | (.error e, t) => (cleanPath path, .error e) :: gives c history t

/-- All that some requests give is what compiling the files can come to. -/
theorem comesTo_gives (history : List Bytes) (hs : s.IsSound c registry) (hrunning : s.running = [])
    (hencodings : s.encodings = []) :
    s.Precedes c registry (c.after history s) ∧
      ∀ g ∈ c.gives history s, c.ComesTo registry (c.after history s).Reports g.1 g.2 := by
  induction history generalizing s with
  | nil => exact ⟨.refl hs, fun g hg => absurd hg List.not_mem_nil⟩
  | cons path history ih =>
    obtain ⟨hstep, hmade, haux⟩ := concludes_compile path hs hrunning hencodings
    rw [after, List.foldl_cons, gives]
    rcases h : (c.compile path).outcome s with ⟨o, t⟩
    rw [h] at hstep hmade haux
    obtain ⟨hrest, hgives⟩ := ih hstep.sound (hstep.running.trans hrunning)
      (hstep.encodings.trans hencodings)
    refine ⟨hstep.trans hrest, ?_⟩
    cases o with
    | error e => exact List.forall_mem_cons.mpr ⟨hrest.comesTo hmade, hgives⟩
    | ok r =>
      refine List.forall_mem_cons.mpr ⟨hrest.comesTo hmade, fun g hg => ?_⟩
      rcases List.mem_append.mp hg with hg | hg
      · obtain ⟨u, hu, rfl⟩ := List.mem_map.mp hg
        exact hrest.comesTo (haux r rfl u hu)
      · exact hgives g hg

end Compiler

/-- **The order of requests does not matter** where tag files are read alike in all encodings that
they may inherit, and those that were asked for while they were being compiled implement the tag
that their directives alone give. Take two histories of requests, with any orders of functions and
with registries that give the same answers, such as those that differ in the order of tags where it
does not show (`Registry.HidesOrder`). Whatever they give for a file, be it asked for or compiled on
the way, is the same failure, or units that are the same but for what the order of functions can
change, and outright where no two of their packages may get one name. -/
theorem gives_alike (c : Compiler) (registry registry' : Registry)
    (order order' : List Event → MapOrder (Expression.FunctionRef × LibraryFunction))
    (history history' : List Bytes) (s s' : Session)
    (hs : s = (c.reordered order).after history { registry := registry })
    (hs' : s' = (c.reordered order').after history' { registry := registry' })
    (hlibraries : ∀ uri, (registry'.answer uri).1 = (registry.answer uri).1)
    (hreads : c.ReadsAlike registry) (hagree : ∀ f, s.Reports f ∨ s'.Reports f →
      c.AgreesAlone registry (fun f => s.Reports f ∨ s'.Reports f) f) :
    ∀ g ∈ (c.reordered order).gives history { registry := registry },
      ∀ g' ∈ (c.reordered order').gives history' { registry := registry' },
        g.1 = g'.1 → Variants g.2 g'.2 := by
  have hfresh := Session.isSound_fresh (c.reordered order) registry
  have hfresh' : Session.IsSound (c.reordered order') registry { registry := registry' } :=
    (Session.isSound_fresh _ _).change hlibraries (fun e he => absurd he List.not_mem_nil)
      (List.Subset.refl _) rfl rfl rfl
  obtain ⟨-, hgives⟩ := Compiler.comesTo_gives history hfresh rfl rfl
  obtain ⟨-, hgives'⟩ := Compiler.comesTo_gives history' hfresh' rfl rfl
  rw [← hs] at hgives
  rw [← hs'] at hgives'
  intro g hg g' hg' hpath
  refine Compiler.ComesTo.unique hreads hagree ((hgives g hg).of_reordered.mono fun _ => .inl) ?_
  rw [hpath]
  exact (hgives' g' hg').of_reordered.mono fun _ => .inr

/-- A library of one tag that a tag file implements. -/
def loopTags : Registry where
  bound := [("urn:t", { uri := "urn:t", tagFiles := [("f", "/f.tag")] })]

/-- The text of a tag file that uses itself. -/
def loopText : Bytes := "<%@taglib prefix=\"t\" uri=\"urn:t\"%><t:f/>"

/-- A tag file with a byte order mark. -/
def loopFile : Bytes := [0xEF, 0xBB, 0xBF] ++ loopText

/-- A page in an encoding of its own that uses the tag file. -/
def loopPage : Bytes := "<%@page pageEncoding=\"ISO-8859-1\"%>" ++ loopText

/-- A site of the two. -/
def loopSite : Compiler where
  files := some { files := [("a.jsp", loopPage), ("f.tag", loopFile)] }

/-- The tag that the tag file implements. -/
def loopTag : TagInfo := { name := "f", body := .scriptless }

/-- The contract of the tag. -/
def loopContract : TagDescriptor := loopTag.descriptor "/f.tag" (Generation.tagTypeName "f")

theorem mark?_loopFile :
    Charset.mark? loopFile = some (([0xEF, 0xBB, 0xBF] : Bytes), ("UTF-8" : Bytes)) := by decide

/-- The tag file is read alike in every encoding. -/
theorem readIn_loopSite (e : Bytes) : loopSite.readIn e "/f.tag" = .ok ⟨loopText, "UTF-8"⟩ := by
  have hread : loopSite.readFile "/f.tag" = .ok loopFile := rfl
  rw [Compiler.readIn, hread]
  show Charset.readSource loopSite.options.encodings "/f.tag" loopFile e = _
  rw [Charset.readSource, mark?_loopFile]
  rfl

theorem eq_of_isTagPath_loopTags {file : Bytes} (h : Compiler.IsTagPath loopTags file) :
    file = "/f.tag" := by
  obtain ⟨e, he, f, hf, rfl⟩ := h.mem_bound rfl
  obtain rfl := List.mem_singleton.mp he
  obtain rfl := List.mem_singleton.mp hf
  rfl

/-- The encodings of the site are that of the page and the default one. -/
theorem inUse_loopSite {e : Bytes} (h : loopSite.InUse e) :
    e ∈ (["UTF-8", "ISO-8859-1"] : List Bytes) := by
  induction h with
  | fallback => decide
  | @source encoding path source _ hread ih =>
    have hread : (loopSite.readFile path >>=
        (Charset.readSource loopSite.options.encodings path · encoding)) = .ok source := hread
    cases hraw : loopSite.readFile path with
    | error f =>
      rw [hraw] at hread
      cases hread
    | ok raw =>
      rw [hraw] at hread
      have hsource : Charset.readSource loopSite.options.encodings path raw encoding =
          .ok source := hread
      have hmem : ∃ p, (p, raw) ∈ [(("a.jsp" : Bytes), loopPage), ("f.tag", loopFile)] :=
        ⟨_, FileTree.mem_of_read hraw⟩
      obtain ⟨p, hmem⟩ := hmem
      have hfile : raw = loopPage ∨ raw = loopFile := by
        rcases List.mem_cons.mp hmem with h | h
        · exact .inl (Prod.mk.inj h).2
        · exact .inr (Prod.mk.inj (List.mem_singleton.mp h)).2
      rcases hfile with rfl | rfl
      · have hencoding := Charset.encoding_of_readSource (by decide) hsource
        rw [show Charset.declared? loopPage = some ("ISO-8859-1" : Bytes) by
          decide +kernel] at hencoding
        exact List.mem_cons_of_mem _ (List.mem_singleton.mpr hencoding)
      · rw [Charset.readSource, mark?_loopFile] at hsource
        exact List.mem_cons.mpr (.inl (Charset.encoding_of_decodeNamed hsource))

/-- Whether a tree implements the tag. -/
def implementsLoop (tree : Node) : Bool := tree.page?.bind (·.tag) == some loopTag

theorem descriptor_of_implementsLoop {tree : Node} (h : implementsLoop tree = true) :
    ((Compiler.descriptor "/f.tag" tree).outcome {}).1 = .ok loopContract := by
  have htag : tree.page?.bind (·.tag) = some loopTag := beq_iff_eq.mp h
  unfold Compiler.descriptor
  rw [htag]
  rfl

/-- The directives of the tag file give its contract. -/
theorem extracted_loopSite {e : Bytes} (h : loopSite.InUse e) :
    loopSite.extracted loopTags e "/f.tag" = .ok loopContract := by
  have hsound : Session.IsSound loopSite loopTags { registry := loopTags, encodings := [e] } :=
    (Session.isSound_fresh loopSite loopTags).change (fun _ => rfl)
      (fun e' he => List.mem_singleton.mp he ▸ h) (List.Subset.refl _) rfl rfl rfl
  have hcheck : ∀ e ∈ (["UTF-8", "ISO-8859-1"] : List Bytes),
      (((Compiler.directivesRequest "/f.tag" ⟨loopText, "UTF-8"⟩).parse
        (loopSite.host none) { registry := loopTags, encodings := [e] }).1 >>= fun tree =>
        ((loopSite.validated "/f.tag" tree).outcome { registry := loopTags }).1).toOption.any
          implementsLoop = true := by decide +kernel
  obtain ⟨tree, htree, himplements⟩ := exists_ok_of_any (hcheck e (inUse_loopSite h))
  refine (Compiler.concludes_signature_parts hsound "/f.tag").2.trans ?_
  rw [show Compiler.cleanPath "/f.tag" = "/f.tag" by decide, readIn_loopSite]
  show Compiler.recovered (.ok _ >>= fun source => _) = _
  rw [Compiler.except_ok_bind, ← bind_assoc, htree, Compiler.except_ok_bind,
    descriptor_of_implementsLoop himplements]
  rfl

/-- A host that answers as the site does, and that tells the contract of every tag file. -/
def loopHost : Host Unit where
  library := some fun uri _ => ((loopTags.answer uri).1, ())
  load := some fun path _ => ((loopSite.readIn "UTF-8" path).map (·.text), ())
  tagFile := some fun _ _ => (.ok loopContract, ())
  fileCount := 2

/-- The request to parse the tag file. -/
def loopRequest : ParseRequest := Compiler.unitRequest "/f.tag" ⟨loopText, "UTF-8"⟩

/-- What is told of the tag file is its contract, so its dialog comes to what it comes to with the
host. -/
theorem eq_parse_of_comes {o : Except Failure Node}
    {tells : Bytes → Except Failure TagDescriptor → Prop}
    (htells : ∀ file a, tells file a → a = .ok loopContract)
    (h : (loopRequest.dialog loopSite.questions).Comes
      (loopSite.informant loopTags "UTF-8" tells) o) :
    o = (loopRequest.parse loopHost ()).1 := by
  have hlibrary : (some fun uri => (Session.library uri { registry := loopTags }).1) =
      some fun uri => (loopTags.answer uri).1 := by
    simp only [Session.library_eq]
  have hrun : (loopRequest.dialog loopSite.questions).Comes
      (loopSite.informant loopTags "UTF-8" fun _ a => a = .ok loopContract)
      ((loopRequest.dialog loopSite.questions).run loopHost ()).1 :=
    Dialog.comes_run hlibrary rfl (fun _ => rfl) rfl (fun _ => rfl) _
  rw [ParseRequest.parse_eq_run]
  exact h.unique hrun rfl rfl fun file a a' ha ha' => (htells file a ha).trans ha'.symm

/-- Whatever the tag file is compiled to implements the tag. -/
theorem described_of_comesTo_loopSite {alone : Bytes → Prop} {path : Bytes}
    {v : Except Failure CompiledUnit} (h : loopSite.ComesTo loopTags alone path v)
    (hpath : path = "/f.tag") : v >>= Compiler.described "/f.tag" = .ok loopContract := by
  induction h with
  | unread hread h =>
    subst hpath
    rw [readIn_loopSite] at h
    cases h
  | @parsed path encoding source o compiled order hread h hcompiled hcomes ih =>
    subst hpath
    rw [readIn_loopSite] at h
    obtain rfl := Except.ok.inj h
    have hcheck : ((loopRequest.parse loopHost ()).1 >>=
        loopSite.built loopTags "/f.tag" "UTF-8" .asMade).toOption.any
        (implementsLoop ·.tree) = true := by decide +kernel
    obtain ⟨u, hu, himplements⟩ := exists_ok_of_any hcheck
    have htells (file : Bytes) (a : Except Failure TagDescriptor)
        (ha : loopSite.Tells loopTags alone compiled file a) : a = .ok loopContract := by
      obtain ⟨hfile, ha⟩ := ha
      obtain rfl := eq_of_isTagPath_loopTags hfile
      rw [show Compiler.cleanPath "/f.tag" = "/f.tag" by decide] at ha
      rcases ha with ⟨v, hv, ha⟩ | ⟨-, e, he, ha⟩
      · exact ha.trans (ih _ _ hv rfl)
      · exact ha.trans (extracted_loopSite he)
    rw [eq_parse_of_comes htells hcomes, Compiler.described_eq_of_variants
      (Compiler.variants_built "/f.tag" "UTF-8" _ order .asMade), hu]
    exact descriptor_of_implementsLoop himplements

/-- The order opposite to that in which the entries were made. -/
def MapOrder.opposite {α : Type} : MapOrder α := ⟨List.reverse, List.reverse_perm⟩

/-- A tag file that invokes itself, described first and compiled first. -/
theorem gives_alike_loopSite :
    (∀ uri, ((loopTags.ordered .opposite).answer uri).1 = (loopTags.answer uri).1) ∧
    loopSite.ReadsAlike loopTags ∧
    ∀ g ∈ (loopSite.reordered fun _ => .asMade).gives ["/a.jsp"] { registry := loopTags },
      ∀ g' ∈ (loopSite.reordered fun _ => .opposite).gives ["/f.tag"]
        { registry := loopTags.ordered .opposite }, g.1 = g'.1 → Variants g.2 g'.2 := by
  have hlibraries : ∀ uri,
      ((loopTags.ordered .opposite).answer uri).1 = (loopTags.answer uri).1 := by
    refine Registry.HidesOrder.answer_ordered (fun uri l hl => ?_) _
    cases hl
  have hreads : loopSite.ReadsAlike loopTags := by
    intro file hfile e e' _ _
    obtain rfl := eq_of_isTagPath_loopTags hfile
    exact (readIn_loopSite e).trans (readIn_loopSite e').symm
  refine ⟨hlibraries, hreads, gives_alike loopSite loopTags _ _ _ ["/a.jsp"] ["/f.tag"] _ _ rfl rfl
    hlibraries hreads ?_⟩
  intro f hf
  have hlogs : ∀ event ∈ ((loopSite.reordered fun _ => .asMade).after ["/a.jsp"]
        { registry := loopTags }).log ++
      ((loopSite.reordered fun _ => .opposite).after ["/f.tag"]
        { registry := loopTags.ordered .opposite }).log,
      event.message = "tag file depends on itself, extracting signature" →
        event.details = [(("unit" : Bytes), Detail.text "/f.tag")] := by decide +kernel
  have hpath : f = "/f.tag" := by
    have hdetails := hlogs _ (List.mem_append.mpr hf) rfl
    simpa using hdetails
  subst hpath
  exact ⟨.ok loopContract, fun e he => extracted_loopSite he,
    fun v hv => described_of_comesTo_loopSite hv rfl⟩

end ServerPages
