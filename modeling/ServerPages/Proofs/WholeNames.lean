import ServerPages.Markup.Element
import ServerPages.Proofs.TokenPieces
import ServerPages.Proofs.Utf8
import ServerPages.TagLibrary.Registry

/-!
# Names of tags are whole

The column of a place counts characters, so a name that ended inside a character would spoil the
columns after it. The names of the tags in a library come from a descriptor document, in which
character data is well-formed UTF-8, or from the paths of tag files.

## Main definitions

* `TagLibrary.HasWholeNames`: no name of a tag in the library ends inside a character.

## Main results

* `Registry.hasWholeNames_load`: the libraries that are loaded have whole names.
-/

namespace ServerPages

/-- No name of a tag in the library ends inside a character. -/
def TagLibrary.HasWholeNames (l : TagLibrary) : Prop :=
  ∀ name, l.hasTag name = true → Utf8.isValid name = true

/-! ### Well-formed texts -/

namespace Utf8

/-- Some of the characters of a well-formed text are a well-formed text. -/
theorem isValid_flatMap_pieces {s : Bytes} (hs : isValid s = true) {ps : List (Nat × Bytes)}
    (hps : ∀ p ∈ ps, p ∈ pieces s) : isValid (ps.flatMap (·.2)) = true := by
  induction ps with
  | nil => rfl
  | cons p ps ih =>
    rw [List.flatMap_cons]
    refine isValid_append ?_ (ih fun q hq => hps q (List.mem_cons_of_mem p hq))
    have hp := hps p List.mem_cons_self
    have hwhole : isBroken p = false := by
      simpa using List.all_eq_true.mp hs p hp
    rcases piece_cases hp with ⟨b, rfl⟩ | ⟨c, hc, rfl⟩
    · cases hwhole
    · have hone : ∀ d ∈ [c], isScalar d = true := List.forall_mem_singleton.mpr hc
      have h := isValid_encodeAll hone
      rwa [encodeAll_cons, encodeAll_nil, List.append_nil] at h

theorem isValid_trimSpace {s : Bytes} (hs : isValid s = true) : isValid s.trimSpace = true := by
  refine isValid_flatMap_pieces hs fun p hp => ?_
  rw [List.mem_reverse] at hp
  have hp := List.mem_reverse.mp ((List.dropWhile_sublist _).subset hp)
  exact (List.dropWhile_sublist _).subset hp

theorem isValid_of_cons_ascii {b : UInt8} (hb : b.toNat < 0x80) {s : Bytes}
    (h : isValid (b :: s) = true) : isValid s = true := by
  rw [isValid, pieces_cons, charAt_one s hb] at h
  exact (Bool.and_eq_true_iff.mp h).2

end Utf8

/-! ### Documents -/

namespace Markup

/-- The character data of a token is well formed. -/
def Token.IsWhole : Token → Prop
  | .text data => Utf8.isValid data = true
  | _ => True

theorem isValid_of_legal {data rest : Bytes} {r : Bytes × Bytes} (h : legal data rest = .ok r) :
    Utf8.isValid data = true := by
  unfold legal at h
  split at h
  · next hnone =>
    refine List.all_eq_true.mpr fun p hp => ?_
    have hp := List.find?_eq_none.mp hnone p hp
    simp only [Bool.or_eq_true, not_or, Bool.not_eq_true] at hp
    rw [hp.1]
    rfl
  · split at h <;> cases h

theorem isValid_of_data {quote : Option UInt8} {cdata : Bool} {s text rest : Bytes}
    (h : data quote cdata s = .ok (text, rest)) : Utf8.isValid text = true := by
  obtain ⟨⟨t, r⟩, -, hl⟩ := bind_eq_ok h
  obtain ⟨rfl, -⟩ := Prod.mk.inj (legal_eq_ok hl)
  exact isValid_of_legal hl

theorem endTag_isWhole {s rest : Bytes} {t : Token} (h : endTag s = .ok (t, rest)) :
    t.IsWhole := by
  obtain ⟨⟨name, u⟩, -, h⟩ := bind_eq_ok h
  dsimp only at h
  split at h
  · cases h
  split at h
  · obtain ⟨rfl, -⟩ := Prod.mk.inj (Except.ok.inj h)
    trivial
  · cases h

theorem instruction_isWhole {anyEncoding : Bool} {s rest : Bytes} {t : Token}
    (h : instruction anyEncoding s = .ok (t, rest)) : t.IsWhole := by
  obtain ⟨⟨target, u⟩, -, h⟩ := bind_eq_ok h
  dsimp only at h
  split at h
  · cases h
  split at h
  · obtain ⟨rfl, -⟩ := Prod.mk.inj (Except.ok.inj h)
    trivial
  split at h
  · cases h
  split at h
  · cases h
  · obtain ⟨rfl, -⟩ := Prod.mk.inj (Except.ok.inj h)
    trivial

theorem comment_isWhole {s rest : Bytes} {t : Token} (h : comment s = .ok (t, rest)) :
    t.IsWhole := by
  unfold comment at h
  split at h
  · cases h
  split at h
  · cases h
  split at h
  · obtain ⟨rfl, -⟩ := Prod.mk.inj (Except.ok.inj h)
    trivial
  · cases h

theorem declarationFrom_isWhole {skip depth : Nat} {quote : Option UInt8} {s rest : Bytes}
    {t : Token} (h : declarationFrom skip quote depth s = .ok (t, rest)) : t.IsWhole := by
  induction s generalizing skip quote depth with
  | nil => cases h
  | cons b s ih =>
    cases skip with
    | succ skip => exact ih h
    | zero =>
      unfold declarationFrom at h
      split at h
      · exact ih h
      split at h
      · split at h
        · obtain ⟨rfl, -⟩ := Prod.mk.inj (Except.ok.inj h)
          trivial
        · exact ih h
      split at h
      · exact ih h
      split at h
      · split at h
        · split at h
          · cases h
          · exact ih h
        · exact ih h
      · exact ih h

theorem special_isWhole {s rest : Bytes} {t : Token} (h : special s = .ok (t, rest)) :
    t.IsWhole := by
  unfold special at h
  split at h
  · cases h
  · cases h
  · exact comment_isWhole h
  · cases h
  · obtain ⟨u, -, h⟩ := bind_eq_ok h
    obtain ⟨⟨text, v⟩, hv, h⟩ := bind_eq_ok h
    obtain ⟨rfl, -⟩ := Prod.mk.inj (Except.ok.inj h)
    exact isValid_of_data hv
  · exact declarationFrom_isWhole h

/-- **Character data is well formed** in every token of a document that can be read. -/
theorem token_isWhole {anyEncoding : Bool} {s rest : Bytes} {t : Token}
    (h : token anyEncoding s = .ok (t, rest)) : t.IsWhole := by
  unfold token at h
  split at h
  · cases h
  · exact endTag_isWhole h
  · exact instruction_isWhole h
  · exact special_isWhole h
  · obtain ⟨⟨name, u⟩, -, h⟩ := bind_eq_ok h
    obtain ⟨⟨r, v⟩, -, h⟩ := bind_eq_ok h
    obtain ⟨rfl, -⟩ := Prod.mk.inj (Except.ok.inj h)
    trivial
  · obtain ⟨⟨text, v⟩, hv, h⟩ := bind_eq_ok h
    obtain ⟨rfl, -⟩ := Prod.mk.inj (Except.ok.inj h)
    exact isValid_of_data hv

/-- All character data in an element is well formed. -/
inductive Element.IsWhole : Element → Prop where
  | text {data : Bytes} (h : Utf8.isValid data = true) : IsWhole (.text data)
  | node {name : Name} {content : List Element} (h : ∀ e ∈ content, IsWhole e) :
    IsWhole (.node name content)

theorem next_isWhole {anyEncoding : Bool} {r r' : Reader} {t : Token}
    (h : r.next anyEncoding = .ok (some (t, r'))) : t.IsWhole := by
  unfold Reader.next at h
  split at h
  · cases h
    trivial
  split at h
  · cases h
  · obtain ⟨⟨t', rest⟩, ht, h⟩ := bind_eq_ok h
    cases h
    exact token_isWhole ht

/-- What is read of an element is well formed, if what was read before is. -/
theorem isWhole_contentWithin {fuel : Nat} {opened : Name} {read : List Element}
    {outer : List (Name × List Element)} {r : Reader} {es : List Element}
    (h : contentWithin fuel opened read outer r = .ok es) (hread : ∀ e ∈ read, e.IsWhole)
    (houter : ∀ o ∈ outer, ∀ e ∈ o.2, e.IsWhole) : ∀ e ∈ es, e.IsWhole := by
  induction fuel generalizing opened read outer r with
  | zero => cases h
  | succ fuel ih =>
    obtain ⟨step, hnext, h⟩ := bind_eq_ok h
    match step with
    | none => cases h
    | some (.text data, r') =>
      exact ih h (List.forall_mem_cons.mpr ⟨.text (next_isWhole hnext), hread⟩) houter
    | some (.other, r') => exact ih h hread houter
    | some (.startTag name _ _, r') =>
      exact ih h (fun _ he => absurd he List.not_mem_nil)
        (List.forall_mem_cons.mpr ⟨hread, houter⟩)
    | some (.endTag name, r') =>
      dsimp only at h
      split at h
      · cases h
      split at h
      · cases h
        exact fun e he => hread e (List.mem_reverse.mp he)
      · next parent before outer =>
        have hbefore := List.forall_mem_cons.mp houter
        have hnode : Element.IsWhole (.node opened read.reverse) :=
          .node fun e he => hread e (List.mem_reverse.mp he)
        exact ih h (List.forall_mem_cons.mpr ⟨hnode, hbefore.1⟩) hbefore.2

/-- The content of the first element of a document is well formed. -/
theorem isWhole_contentOf {name document : Bytes} {es : List Element}
    (h : contentOf name document = .ok es) : ∀ e ∈ es, e.IsWhole := by
  unfold contentOf at h
  dsimp only at h
  split at h
  · cases h
  · cases h
  · split at h
    · cases h
    · next found r _ _ =>
      cases hcontent : contentWithin (2 * document.length + 2) found [] [] r with
      | error p =>
        rw [hcontent] at h
        cases h
      | ok es' =>
        rw [hcontent] at h
        cases h
        exact isWhole_contentWithin hcontent (fun _ he => absurd he List.not_mem_nil)
          fun _ ho => absurd ho List.not_mem_nil

namespace Element

variable {es : List Element}

theorem isWhole_of_mem_named (hes : ∀ e ∈ es, e.IsWhole) {name : Bytes} {content : List Element}
    (h : content ∈ named name es) : ∀ e ∈ content, e.IsWhole := by
  obtain ⟨e, he, h⟩ := List.mem_filterMap.mp h
  cases hes e he with
  | text _ => cases h
  | node hcontent =>
    dsimp only at h
    split at h
    · cases h
      exact hcontent
    · cases h

theorem isValid_dataOf (hes : ∀ e ∈ es, e.IsWhole) : Utf8.isValid (dataOf es) = true := by
  induction es with
  | nil => rfl
  | cons e es ih =>
    have hes := List.forall_mem_cons.mp hes
    rw [dataOf, List.flatMap_cons]
    refine Utf8.isValid_append ?_ (ih hes.2)
    cases hes.1 with
    | text h => exact h
    | node _ => rfl

theorem isValid_field (name : Bytes) (hes : ∀ e ∈ es, e.IsWhole) :
    Utf8.isValid (field name es) = true := by
  unfold field
  cases hlast : (named name es).getLast? with
  | none => rfl
  | some content =>
    exact isValid_dataOf (isWhole_of_mem_named hes (List.mem_of_getLast? hlast))

end Element

end Markup

/-! ### Libraries -/

namespace TagLibrary

open Markup (Element)

variable {l l' : TagLibrary} {es : List Element}

theorem isValid_entry (name : Bytes) (hes : ∀ e ∈ es, e.IsWhole) :
    Utf8.isValid (entry es name) = true :=
  Utf8.isValid_trimSpace (Element.isValid_field name hes)

/-- The names of tags are those of the tags with handlers and of the tag files. -/
theorem hasWholeNames_iff : l.HasWholeNames ↔
    (∀ p ∈ l.tags, Utf8.isValid p.1 = true) ∧ ∀ p ∈ l.tagFiles, Utf8.isValid p.1 = true := by
  have hmem : ∀ name, l.hasTag name = true ↔
      name ∈ l.tags.map (·.1) ∨ name ∈ l.tagFiles.map (·.1) := by
    intro name
    rw [hasTag, tag?, tagFile?, Bool.or_eq_true, List.lookup_isSome_iff, List.lookup_isSome_iff]
    simp
  constructor
  · intro h
    exact ⟨fun p hp => h p.1 ((hmem p.1).mpr (.inl (List.mem_map_of_mem hp))),
      fun p hp => h p.1 ((hmem p.1).mpr (.inr (List.mem_map_of_mem hp)))⟩
  · rintro ⟨htags, hfiles⟩ name hname
    rcases (hmem name).mp hname with hname | hname
    · obtain ⟨p, hp, rfl⟩ := List.mem_map.mp hname
      exact htags p hp
    · obtain ⟨p, hp, rfl⟩ := List.mem_map.mp hname
      exact hfiles p hp

theorem name_of_tagOf {d : TagDescriptor} (h : tagOf es = .ok d) : d.name = entry es "name" := by
  unfold tagOf at h
  dsimp only at h
  split at h
  · cases h
  obtain ⟨_, -, h⟩ := Markup.bind_eq_ok h
  -- The body content is given or it is that of pages; the rest is the same.
  split at h
  all_goals
    obtain ⟨_, -, h⟩ := Markup.bind_eq_ok h
    split at h
    · cases h
    obtain ⟨_, -, h⟩ := Markup.bind_eq_ok h
    obtain ⟨_, -, h⟩ := Markup.bind_eq_ok h
    exact Except.ok.inj h ▸ rfl

theorem hasWholeNames_addTag (hl : l.HasWholeNames) (hes : ∀ e ∈ es, e.IsWhole)
    (h : l.addTag es = .ok l') : l'.HasWholeNames := by
  unfold addTag at h
  split at h
  · cases h
  next d hd =>
  split at h
  · cases h
  obtain rfl := Except.ok.inj h
  obtain ⟨htags, hfiles⟩ := hasWholeNames_iff.mp hl
  refine hasWholeNames_iff.mpr ⟨List.forall_mem_append.mpr ⟨htags, ?_⟩, hfiles⟩
  exact List.forall_mem_singleton.mpr (name_of_tagOf hd ▸ isValid_entry _ hes)

theorem hasWholeNames_addTagFile (hl : l.HasWholeNames) (hes : ∀ e ∈ es, e.IsWhole)
    (h : l.addTagFile es = .ok l') : l'.HasWholeNames := by
  unfold addTagFile at h
  dsimp only at h
  split at h
  · cases h
  obtain rfl := Except.ok.inj h
  obtain ⟨htags, hfiles⟩ := hasWholeNames_iff.mp hl
  refine hasWholeNames_iff.mpr ⟨htags, List.forall_mem_append.mpr ⟨hfiles, ?_⟩⟩
  exact List.forall_mem_singleton.mpr (isValid_entry _ hes)

theorem hasWholeNames_addFunction (hl : l.HasWholeNames) (h : l.addFunction es = .ok l') :
    l'.HasWholeNames := by
  unfold addFunction at h
  dsimp only at h
  split at h
  · cases h
  · obtain rfl := Except.ok.inj h
    exact hl

/-- What adding one thing keeps is kept when all are added. -/
theorem foldlM_keeps {α β ε : Type} {P : β → Prop} {f : β → α → Except ε β} {as : List α}
    (hf : ∀ a ∈ as, ∀ b b', P b → f b a = .ok b' → P b') {b b' : β} (hb : P b)
    (h : as.foldlM f b = .ok b') : P b' := by
  induction as generalizing b with
  | nil =>
    obtain rfl := Except.ok.inj h
    exact hb
  | cons a as ih =>
    obtain ⟨c, hc, h⟩ := Markup.bind_eq_ok h
    refine ih (fun a' ha' => hf a' (List.mem_cons_of_mem a ha')) ?_ h
    exact hf a List.mem_cons_self b c hb hc

/-- **A library that is read from a document has whole names.** -/
theorem hasWholeNames_ofDocument {document : Bytes} (h : ofDocument document = .ok l) :
    l.HasWholeNames := by
  obtain ⟨es, hes, h⟩ := Markup.bind_eq_ok h
  have hes : ∀ e ∈ es, e.IsWhole := by
    cases hcontent : Markup.contentOf "taglib" document with
    | error p =>
      rw [hcontent] at hes
      cases hes
    | ok es' =>
      rw [hcontent] at hes
      cases hes
      exact Markup.isWhole_contentOf hcontent
  obtain ⟨l₁, h₁, h⟩ := Markup.bind_eq_ok h
  obtain ⟨l₂, h₂, h⟩ := Markup.bind_eq_ok h
  have hnamed : ∀ name, ∀ content ∈ Element.named name es, ∀ e ∈ content, e.IsWhole :=
    fun _ _ => Element.isWhole_of_mem_named hes
  refine foldlM_keeps (fun _ _ _ _ => hasWholeNames_addFunction) ?_ h
  refine foldlM_keeps (fun c hc _ _ hl => hasWholeNames_addTagFile hl (hnamed _ c hc)) ?_ h₂
  refine foldlM_keeps (fun c hc _ _ hl => hasWholeNames_addTag hl (hnamed _ c hc)) ?_ h₁
  exact hasWholeNames_iff.mpr ⟨fun _ hp => absurd hp List.not_mem_nil,
    fun _ hp => absurd hp List.not_mem_nil⟩

end TagLibrary

/-! ### Loaded libraries -/

/-- The paths of all files are well formed. -/
def FileTree.HasWholePaths (t : FileTree) : Prop := ∀ f ∈ t.files, Utf8.isValid f.1 = true

theorem FileTree.isValid_of_list {t : FileTree} (ht : t.HasWholePaths) {directory : Bytes}
    {names : List Bytes} (h : t.list directory = .ok names) :
    ∀ name ∈ names, Utf8.isValid name = true := by
  unfold list at h
  split at h
  · cases h
  split at h
  · cases h
  obtain rfl := Except.ok.inj h
  intro name hname
  rw [Bytes.sort, List.mem_mergeSort, List.mem_filter, List.mem_filterMap] at hname
  obtain ⟨⟨f, hf, hname⟩, -⟩ := hname
  split at hname
  · next hstart =>
    obtain rfl := Option.some.inj hname
    obtain ⟨r, hr⟩ := Bytes.startsWith_iff.mp hstart
    have hvalid := ht f hf
    rw [← hr] at hvalid
    rw [← hr, List.drop_left]
    unfold inside at hvalid
    split at hvalid
    · exact hvalid
    · rw [List.append_assoc, List.singleton_append] at hvalid
      have hslash : SlashPath.slash.toNat < 0x80 := by decide
      exact Utf8.isValid_of_cons_ascii hslash ((Utf8.isValid_append_ascii hslash).mp hvalid).2
  · cases hname

namespace Registry

theorem isValid_dropEnd {name ext : Bytes} (hname : Utf8.isValid name = true)
    (hext : ∃ r, ext = 46 :: r) : Utf8.isValid (name.dropEnd ext) = true := by
  unfold Bytes.dropEnd
  split
  · next hsuffix =>
    obtain ⟨r, rfl⟩ := hext
    obtain ⟨tag, rfl⟩ := List.isSuffixOf_iff_suffix.mp hsuffix
    rw [List.length_append, Nat.add_sub_cancel, List.take_left]
    exact ((Utf8.isValid_append_ascii (by decide)).mp hname).1
  · exact hname

theorem isValid_tagFilesOf {directory : Bytes} {names : List Bytes}
    (hnames : ∀ name ∈ names, Utf8.isValid name = true) :
    ∀ p ∈ tagFilesOf directory names, Utf8.isValid p.1 = true := by
  have hfold : ∀ found : List (Bytes × Bytes), (∀ p ∈ found, Utf8.isValid p.1 = true) →
      ∀ p ∈ names.foldl (fun found name =>
        let ext := SlashPath.extension name
        if ext == ".tag" || ext == ".tagx" then
          let tag := name.dropEnd ext
          found.filter (·.1 != tag) ++ [(tag, SlashPath.join directory name)]
        else found) found, Utf8.isValid p.1 = true := by
    induction names with
    | nil => exact fun _ h => h
    | cons name names ih =>
      intro found hfound
      have hnames := List.forall_mem_cons.mp hnames
      refine ih hnames.2 _ ?_
      dsimp only
      split
      · next hext =>
        refine List.forall_mem_append.mpr ⟨fun p hp => hfound p (List.mem_filter.mp hp).1, ?_⟩
        refine List.forall_mem_singleton.mpr (isValid_dropEnd hnames.1 ?_)
        rcases Bool.or_eq_true_iff.mp hext with hext | hext
        · exact ⟨_, eq_of_beq hext⟩
        · exact ⟨_, eq_of_beq hext⟩
      · exact hfound
  exact hfold [] fun _ hp => absurd hp List.not_mem_nil

/-- **A library that is loaded has whole names**, where the paths of files are well formed. -/
theorem hasWholeNames_load {r : Registry} {uri : Bytes} {l : TagLibrary}
    (hfiles : ∀ t ∈ r.files, t.HasWholePaths) (h : r.load uri = .ok l) : l.HasWholeNames := by
  unfold load loadM at h
  split at h
  · cases h
  next files hsome =>
  split at h
  · simp only [loadDirectoryM, MonadFiles.access, FileAccess.direct, pure_bind] at h
    split at h
    · cases h
    · next names hlist =>
      obtain rfl := Except.ok.inj h
      refine TagLibrary.hasWholeNames_iff.mpr ⟨fun _ hp => absurd hp List.not_mem_nil, ?_⟩
      exact isValid_tagFilesOf (FileTree.isValid_of_list (hfiles files hsome) hlist)
  split at h
  · simp only [loadDocumentM, MonadFiles.access, FileAccess.direct, pure_bind] at h
    split at h
    · cases h
    · exact TagLibrary.hasWholeNames_ofDocument h
    · cases h
  · cases h

end Registry

end ServerPages
