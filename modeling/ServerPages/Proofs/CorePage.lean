import ServerPages.Parsing.Parse
import ServerPages.Proofs.TreeGist

/-!
# Core pages

The part of the page language that both syntaxes write in much the same way: text, expressions,
plain elements, code, and tags of libraries. A core page is written in the native syntax with a
taglib directive for every prefix, or as a document whose root binds the prefixes.

The structures below carry what makes their text mean the same in both syntaxes: text has no markup
characters, code does not end early, and a tag is one that its library defines. What cannot be
written in a document at all is told apart by `CorePage.IsLegal` and `Taglib.IsWritable`.

## Main results

* `CorePage.nativeUnit`, `CorePage.documentUnit`: the two ways to write a page.
* `CorePage.gist`: what a page says, in either of them.
-/

namespace ServerPages

/-! ### Classes of text -/

namespace Bytes

/-- What holds of all bytes of a text is told from the bytes of the text, not from all bytes. -/
instance (priority := high) decidableForallMem (s : Bytes) (p : UInt8 → Prop) [DecidablePred p] :
    Decidable (∀ b ∈ s, p b) := List.decidableBAll p s

/-- None of the bytes of `bs` stands in the text. -/
def Lacks (s bs : Bytes) : Prop := ∀ b ∈ bs, b ∉ s

instance (s bs : Bytes) : Decidable (s.Lacks bs) := decidableForallMem bs (· ∉ s)

theorem Lacks.mono {s as bs : Bytes} (h : s.Lacks as) (hsub : bs ⊆ as) : s.Lacks bs :=
  fun b hb => h b (hsub hb)

theorem Lacks.append {s t bs : Bytes} (hs : s.Lacks bs) (ht : t.Lacks bs) : (s ++ t).Lacks bs :=
  fun b hb hmem => (List.mem_append.mp hmem).elim (hs b hb) (ht b hb)

theorem Lacks.head {b c : UInt8} {s bs : Bytes} (h : Lacks (b :: s) bs) (hc : c ∈ bs) : b ≠ c := by
  rintro rfl
  exact h b hc List.mem_cons_self

theorem Lacks.tail {b : UInt8} {s bs : Bytes} (h : Lacks (b :: s) bs) : s.Lacks bs :=
  fun c hc hmem => h c hc (List.mem_cons_of_mem b hmem)

end Bytes

namespace Markup

/-- Whether a text is well formed and all its characters may stand in a document. -/
def isLegal (s : Bytes) : Bool :=
  (Utf8.pieces s).all fun p => !Utf8.isBroken p && isDocumentChar p.1

theorem isScalar_of_isDocumentChar {c : Nat} (h : isDocumentChar c = true) :
    Utf8.isScalar c = true := by
  simp only [isDocumentChar, Utf8.isScalar, Bool.or_eq_true, Bool.and_eq_true, beq_iff_eq,
    decide_eq_true_eq] at h ⊢
  omega

theorem isLegal_iff {s : Bytes} :
    isLegal s = true ↔ ∃ cs, (∀ c ∈ cs, isDocumentChar c = true) ∧ s = Utf8.encodeAll cs := by
  constructor
  · intro h
    rw [isLegal, List.all_eq_true] at h
    have hv : Utf8.isValid s = true := by
      rw [Utf8.isValid, List.all_eq_true]
      intro p hp
      exact (Bool.and_eq_true_iff.mp (h p hp)).1
    obtain ⟨cs, hcs, rfl⟩ := (Utf8.isValid_iff s).mp hv
    refine ⟨cs, fun c hc => ?_, rfl⟩
    have hp : Utf8.pieces (Utf8.encodeAll cs) = cs.map fun c => (c, Utf8.encode c) := by
      simpa using Utf8.pieces_encodeAll_append hcs []
    have hmem : (c, Utf8.encode c) ∈ Utf8.pieces (Utf8.encodeAll cs) :=
      hp ▸ List.mem_map_of_mem hc
    exact (Bool.and_eq_true_iff.mp (h _ hmem)).2
  · rintro ⟨cs, hcs, rfl⟩
    have hs : ∀ c ∈ cs, Utf8.isScalar c = true := fun c hc => isScalar_of_isDocumentChar (hcs c hc)
    have hp : Utf8.pieces (Utf8.encodeAll cs) = cs.map fun c => (c, Utf8.encode c) := by
      simpa using Utf8.pieces_encodeAll_append hs []
    rw [isLegal, hp, List.all_eq_true]
    intro p hmem
    obtain ⟨c, hc, rfl⟩ := List.mem_map.mp hmem
    rw [Utf8.isBroken_encode (hs c hc), hcs c hc]
    rfl

theorem isValid_of_isLegal {s : Bytes} (h : isLegal s = true) : Utf8.isValid s = true := by
  obtain ⟨cs, hcs, rfl⟩ := isLegal_iff.mp h
  exact Utf8.isValid_encodeAll fun c hc => isScalar_of_isDocumentChar (hcs c hc)

theorem isLegal_append {s t : Bytes} (hs : isLegal s = true) (ht : isLegal t = true) :
    isLegal (s ++ t) = true := by
  obtain ⟨cs, hcs, rfl⟩ := isLegal_iff.mp hs
  obtain ⟨ds, hds, rfl⟩ := isLegal_iff.mp ht
  refine isLegal_iff.mpr ⟨cs ++ ds, fun c hc => ?_, (Utf8.encodeAll_append cs ds).symm⟩
  exact (List.mem_append.mp hc).elim (hcs c) (hds c)

end Markup

/-! ### Parts of core pages -/

/-- A name of ASCII letters. -/
structure Word where
  /-- The name. -/
  letters : Bytes
  nonempty : letters ≠ []
  alpha : ∀ b ∈ letters, Bytes.isAlpha b = true

/-- Text that holds no markup in either syntax. -/
structure CoreText where
  /-- The text. -/
  bytes : Bytes
  legal : Markup.isLegal bytes = true
  plain : bytes.Lacks "<>&$#\\%\"'\r"

/-- An expression that holds no braces of its own. -/
structure CoreExpression where
  /-- Whether it is evaluated later. -/
  deferred : Bool
  /-- What stands between the braces. -/
  body : Bytes
  checked : (Expression.check body).isOk = true
  plain : body.Lacks "<&\x7b\x7d\"'\\"
  noSectionEnd : ¬ Bytes.ofString "]]>" <:+: body

/-- The expression with its delimiters. -/
def CoreExpression.source (e : CoreExpression) : Bytes :=
  (if e.deferred then "#\x7b" else "$\x7b" : Bytes) ++ e.body ++ "\x7d"

/-- Text or an expression. -/
inductive CoreInline where
  /-- Text. -/
  | text (t : CoreText)
  /-- An expression. -/
  | expression (e : CoreExpression)

namespace CoreInline

/-- The text or the expression as it is written. -/
def source : CoreInline → Bytes
  | text t => t.bytes
  | expression e => e.source

/-- What the text or the expression says as content. -/
def gist : CoreInline → List Gist
  | text t => Gist.ofText t.bytes
  | expression e => [.leaf .elExpression e.source.solid]

/-- What the value of an attribute is. -/
def kind : CoreInline → AttributeKind
  | text _ => .literal
  | expression _ => .el

end CoreInline

/-- Code that does not end before it should. -/
structure CoreCode where
  /-- Whether it is a declaration, an expression or a scriptlet. -/
  kind : Kind
  scripting : kind.isScripting = true
  /-- The code. -/
  code : Bytes
  plain : code.Lacks "<&%\r"
  noSectionEnd : ¬ Bytes.ofString "]]>" <:+: code

namespace CoreCode

/-- What opens the code in the native syntax. -/
def opener (c : CoreCode) : Bytes :=
  match c.kind with
  | .declaration => "<%!"
  | .expression => "<%="
  | _ => "<%"

/-- The name of the element that holds the code in a document. -/
def elementName (c : CoreCode) : Bytes :=
  match c.kind with
  | .declaration => "declaration"
  | .expression => "expression"
  | _ => "scriptlet"

/-- The code in the native syntax. The blank tells a scriptlet from the other forms, whatever its
code starts with. -/
def native (c : CoreCode) : Bytes := c.opener ++ " " ++ c.code ++ " %>"

/-- The code in a document. -/
def document (c : CoreCode) : Bytes :=
  "<jsp:" ++ c.elementName ++ ">" ++ c.code ++ "</jsp:" ++ c.elementName ++ ">"

end CoreCode

/-- A prefix bound to a library. -/
structure Taglib where
  /-- The prefix. -/
  prefixName : Word
  /-- The uri of the library. -/
  uri : Bytes
  /-- The library. -/
  library : TagLibrary
  free : prefixName.letters ≠ "jsp" ∧ prefixName.letters ≠ "jspx"
  named : uri ≠ []

/-- An invocation of a tag that has a handler and takes any content. -/
structure CoreTag where
  /-- The library and the prefix it is bound to. -/
  taglib : Taglib
  /-- The name of the tag. -/
  name : Word
  /-- The contract of the tag. -/
  descriptor : TagDescriptor
  defined : taglib.library.tag? name.letters = some descriptor
  takesAny : descriptor.body = .page
  /-- The attributes. -/
  attributes : List (Word × CoreInline)
  distinct : (attributes.map (·.1.letters)).Nodup
  noBinding : Bytes.ofString "xmlns" ∉ attributes.map (·.1.letters)

/-- An attribute as it is written. -/
def writtenAttribute (a : Word × CoreInline) : Bytes :=
  " " ++ a.1.letters ++ "=\"" ++ a.2.source ++ "\""

/-- What ends a start tag. -/
def tagEnd (closed : Bool) : Bytes := if closed then "/>" else ">"

/-- What an attribute says. -/
def saidAttribute (a : Word × CoreInline) : Bytes × AttributeKind × Bytes :=
  (a.1.letters, a.2.kind, a.2.source)

namespace CoreTag

/-- The qualified name. -/
def label (t : CoreTag) : Bytes := t.taglib.prefixName.letters ++ ":" ++ t.name.letters

/-- The start tag up to its end. -/
def opening (t : CoreTag) : Bytes := "<" ++ t.label ++ t.attributes.flatMap writtenAttribute

/-- The end tag. -/
def closing (t : CoreTag) : Bytes := "</" ++ t.label ++ ">"

/-- What the tag says with a content. -/
def gist (t : CoreTag) (content : List Gist) : Gist :=
  .tag t.taglib.uri t.name.letters (t.attributes.map saidAttribute) content

end CoreTag

/-! ### Core pages -/

/-- The content of a page, one thing after the other. -/
inductive CorePage where
  /-- Nothing. -/
  | empty
  /-- Text or an expression. -/
  | inline (i : CoreInline) (rest : CorePage)
  /-- An element without attributes that means nothing to the page. -/
  | element (name : Word) (body rest : CorePage)
  /-- Code. -/
  | code (c : CoreCode) (rest : CorePage)
  /-- A tag that is closed by its own start tag. -/
  | closedTag (t : CoreTag) (rest : CorePage)
  /-- A tag around a body. -/
  | tag (t : CoreTag) (body rest : CorePage)

/-- The start tag of a plain element. -/
def Word.opening (w : Word) : Bytes := "<" ++ w.letters ++ ">"

/-- The end tag of a plain element. -/
def Word.closing (w : Word) : Bytes := "</" ++ w.letters ++ ">"

namespace CorePage

/-- The page with its code written in one of the two ways. -/
def write (written : CoreCode → Bytes) : CorePage → Bytes
  | empty => []
  | inline i rest => i.source ++ rest.write written
  | element n body rest =>
    n.opening ++ (body.write written ++ (n.closing ++ rest.write written))
  | code c rest => written c ++ rest.write written
  | closedTag t rest => t.opening ++ ("/>" ++ rest.write written)
  | tag t body rest =>
    t.opening ++ (">" ++ (body.write written ++ (t.closing ++ rest.write written)))

/-- What the page says. -/
def gist : CorePage → List Gist
  | empty => []
  | inline i rest => i.gist ++ rest.gist
  | element n body rest =>
    Gist.ofText n.opening ++ (body.gist ++ (Gist.ofText n.closing ++ rest.gist))
  | code c rest => .leaf c.kind c.code.solid :: rest.gist
  | closedTag t rest => t.gist [] :: rest.gist
  | tag t body rest => t.gist body.gist :: rest.gist

/-- The libraries that the page uses. -/
def taglibs : CorePage → List Taglib
  | empty => []
  | inline _ rest => rest.taglibs
  | element _ body rest => body.taglibs ++ rest.taglibs
  | code _ rest => rest.taglibs
  | closedTag t rest => t.taglib :: rest.taglibs
  | tag t body rest => t.taglib :: (body.taglibs ++ rest.taglibs)

end CorePage

/-! ### What a document can hold -/

/-- An expression has only characters of a document and no line end that a document changes. -/
def CoreInline.IsLegal : CoreInline → Prop
  | text _ => True
  | expression e => Markup.isLegal e.body = true ∧ 13 ∉ e.body

/-- The values of the attributes can be written in a document. -/
def CoreTag.IsLegal (t : CoreTag) : Prop := ∀ a ∈ t.attributes, a.2.IsLegal

/-- The expressions and the code of the page can be written in a document. -/
def CorePage.IsLegal : CorePage → Prop
  | empty => True
  | inline i rest => i.IsLegal ∧ rest.IsLegal
  | element _ body rest => body.IsLegal ∧ rest.IsLegal
  | code c rest => Markup.isLegal c.code = true ∧ rest.IsLegal
  | closedTag t rest => t.IsLegal ∧ rest.IsLegal
  | tag t body rest => t.IsLegal ∧ body.IsLegal ∧ rest.IsLegal

/-! ### Units -/

/-- A text between the quotes of an attribute in the native syntax. -/
def nativeQuoted : Bytes → Bytes
  | [] => []
  | 60 :: 37 :: s => "<\\%" ++ nativeQuoted s
  | c :: s => if c == 92 || c == 34 then 92 :: c :: nativeQuoted s else c :: nativeQuoted s

/-- A character between the quotes of an attribute in a document. -/
def documentQuotedByte (c : UInt8) : Bytes :=
  if c == 38 then "&amp;" else if c == 60 then "&lt;" else if c == 34 then "&quot;"
  else if c == 13 then "&#13;" else [c]

/-- A text between the quotes of an attribute in a document. -/
def documentQuoted (s : Bytes) : Bytes := s.flatMap documentQuotedByte

namespace Taglib

/-- The directive that binds the prefix in the native syntax. -/
def directive (b : Taglib) : Bytes :=
  "<%@ taglib prefix=\"" ++ b.prefixName.letters ++ "\" uri=\"" ++ nativeQuoted b.uri ++ "\" %>"

/-- The attribute that binds the prefix in a document. -/
def binding (b : Taglib) : Bytes :=
  " xmlns:" ++ b.prefixName.letters ++ "=\"" ++ documentQuoted b.uri ++ "\""

/-- The uri can be written in both syntaxes and names tags in both. -/
structure IsWritable (b : Taglib) : Prop where
  notStandard : b.uri ≠ PageSyntax.standardNamespace
  legal : Markup.isLegal b.uri = true
  noReference : ¬ Bytes.ofString "&apos;" <:+: b.uri ∧ ¬ Bytes.ofString "&quot;" <:+: b.uri

end Taglib

namespace CorePage

/-- The page in the native syntax, with a directive for each library. -/
def nativeUnit (libs : List Taglib) (page : CorePage) : Bytes :=
  libs.flatMap (·.directive) ++ page.write CoreCode.native

/-- The page as a document whose root binds the libraries. -/
def documentUnit (libs : List Taglib) (page : CorePage) : Bytes :=
  "<jsp:root xmlns:jsp=\"" ++ PageSyntax.standardNamespace ++ "\"" ++
    libs.flatMap (·.binding) ++ ">" ++ page.write CoreCode.document ++ "</jsp:root>"

end CorePage

end ServerPages
