import ServerPages.Proofs.ParseProgress
import ServerPages.Proofs.TokenPieces

/-!
# Parsers of documents move on

Every token of a document takes at least a byte, the end tag of an empty element apart, which takes
none but is due only once. So the loops over tokens never use up the fuel they are started with, and
a document is parsed without a crash of its own.

## Main results

* `Markup.Reader.weight_next`: a token lightens the rest of a document.
* `Document.content_readsBelow`: the content of an element is read without a crash of its own.
* `parseSource_isSteady`: neither syntax crashes, and inclusions do not nest too deep.
* `ParseRequest.parse_ends`: parsing a unit crashes only if describing a tag does.
-/

namespace ServerPages

namespace Markup

namespace Reader

/-- How much there is left to read: two for every byte, and one for an end tag that is due. -/
def weight (r : Reader) : Nat := 2 * r.rest.length + if r.pending.isSome then 1 else 0

/-- **A token lightens the rest of a document.** -/
theorem weight_next {anyEncoding : Bool} {r r' : Reader} {t : Token}
    (h : r.next anyEncoding = .ok (some (t, r'))) : r'.weight < r.weight := by
  unfold next at h
  split at h
  · next name hname =>
      obtain ⟨-, rfl⟩ := Prod.mk.inj (Option.some.inj (Except.ok.inj h))
      simp [weight, hname]
  next hnone =>
  split at h
  · cases h
  next hne =>
  obtain ⟨⟨u, rest⟩, hu, h⟩ := bind_eq_ok h
  obtain ⟨-, rfl⟩ := Prod.mk.inj (Option.some.inj (Except.ok.inj h))
  have hlt := token_lt (by simpa using hne) hu
  have hone : ∀ due : Bool, (if due then 1 else 0) ≤ 1 := by decide
  unfold weight
  simp only [hnone, Option.isSome_none, Bool.false_eq_true, if_false]
  refine Nat.lt_of_le_of_lt (Nat.add_le_add_left (hone _) _) ?_
  omega

end Reader

end Markup

namespace Parsing

variable {σ α β : Type} {w : Surroundings σ}

/-- The state `t` is in order, and no more of the document is left than in `s`. -/
structure State.Reads (w : Surroundings σ) (s t : State σ) : Prop where
  sound : t.IsSound w
  weight : t.document.weight ≤ s.document.weight

theorem State.Onward.reads {s t : State σ} (h : s.Onward w t) : s.Reads w t :=
  ⟨h.sound, Nat.le_of_eq (congrArg Markup.Reader.weight h.document)⟩

theorem State.Reads.trans {s t u : State σ} (h : s.Reads w t) (h' : t.Reads w u) : s.Reads w u :=
  ⟨h'.sound, Nat.le_trans h'.weight h.weight⟩

/-- The parser reads on in a document of which less than `n` is left, or fails without a crash of
its own. -/
def ReadsBelow (w : Surroundings σ) (n : Nat) (x : Parse σ α) : Prop :=
  ∀ s : State σ, s.IsSound w → s.document.weight < n → Ends w.crashes x s fun _ t => s.Reads w t

theorem Steady.readsBelow {x : Parse σ α} (hx : Steady w x) (n : Nat) : ReadsBelow w n x :=
  fun s hs _ => (hx s hs).mono fun _ _ h => h.reads

theorem ReadsBelow.pure (n : Nat) (a : α) : ReadsBelow w n (Pure.pure a : Parse σ α) :=
  (Steady.pure a).readsBelow n

theorem ReadsBelow.bind {n : Nat} {x : Parse σ α} {f : α → Parse σ β} (hx : ReadsBelow w n x)
    (hf : ∀ a, ReadsBelow w n (f a)) : ReadsBelow w n (x >>= f) :=
  fun s hs hn => (hx s hs hn).bind fun a t ht =>
    (hf a t ht.sound (Nat.lt_of_le_of_lt ht.weight hn)).mono fun _ _ hu => ht.trans hu

theorem ReadsBelow.ite {n : Nat} {c : Prop} [Decidable c] {x y : Parse σ α}
    (hx : ReadsBelow w n x) (hy : ReadsBelow w n y) : ReadsBelow w n (if c then x else y) := by
  split
  · exact hx
  · exact hy

theorem ReadsBelow.guard {n : Nat} {c : Prop} [Decidable c] {x : Parse σ Unit}
    {f : Unit → Parse σ β} (hx : ReadsBelow w n x) (hf : ∀ a, ReadsBelow w n (f a)) :
    ReadsBelow w n (if c then x >>= f else f ()) :=
  ReadsBelow.ite (hx.bind hf) (hf ())

theorem readsBelow_refuse (n : Nat) (issue : Issue) (p : Position) (m : Bytes) :
    ReadsBelow w n (refuse issue p m : Parse σ α) := (steady_refuse issue p m).readsBelow n

namespace Document

/-! ### Tokens -/

theorem follow_ends {s : State σ} (hs : s.IsSound w) :
    Ends w.crashes (follow : Parse σ Position) s fun _ t =>
      t.IsSound w ∧ t.document = s.document :=
  Ends.of_ok rfl ⟨⟨(hs.cursor.precedes_skip _).sound, hs.files, hs.memory, hs.bindings⟩, rfl⟩

theorem readsBelow_follow (n : Nat) : ReadsBelow w n (follow : Parse σ Position) :=
  fun _ hs _ => (follow_ends hs).mono fun _ _ h =>
    ⟨h.1, Nat.le_of_eq (congrArg Markup.Reader.weight h.2)⟩

theorem next_ends {s : State σ} (hs : s.IsSound w) :
    Ends w.crashes (next : Parse σ (Option Markup.Token × Position)) s fun r t =>
      s.Reads w t ∧ (r.1.isSome = true → t.document.weight < s.document.weight) := by
  refine (follow_ends hs).bind fun p t ht => Ends.get ?_
  rw [ht.2]
  split
  · exact Ends.of_error rfl fun h => by cases h
  · exact Ends.pure ⟨⟨ht.1, Nat.le_of_eq (congrArg Markup.Reader.weight ht.2)⟩, fun h => by cases h⟩
  · next token r hr =>
      have hlt := Markup.Reader.weight_next hr
      exact Ends.of_ok rfl ⟨⟨⟨ht.1.cursor, ht.1.files, ht.1.memory, ht.1.bindings⟩,
        Nat.le_of_lt hlt⟩, fun _ => hlt⟩

theorem tokenBound_ends {R : β → State σ → Prop} {s : State σ} {f : Nat → Parse σ β}
    (hf : ∀ n, s.document.weight < n → Ends w.crashes (f n) s R) :
    Ends w.crashes (tokenBound >>= f) s R := by
  refine hf _ ?_
  have hone : ∀ due : Bool, (if due then 1 else 0) ≤ 1 := by decide
  have h := hone s.document.pending.isSome
  unfold Markup.Reader.weight
  omega

theorem dataWithin_ends (name : Markup.Name) (fuel : Nat) (data : Bytes) {s : State σ}
    (hs : s.IsSound w) (hfuel : s.document.weight < fuel) :
    Ends w.crashes (dataWithin name fuel data) s fun _ t => s.Reads w t := by
  induction fuel generalizing data s with
  | zero => omega
  | succ fuel ih =>
    refine (next_ends hs).bind fun r t ht => ?_
    obtain ⟨ht, hlt⟩ := ht
    have hrec : ∀ data', r.1.isSome = true →
        Ends w.crashes (dataWithin name fuel data') t fun _ u => s.Reads w u := fun data' h =>
      (ih data' ht.sound (by have := hlt h; omega)).mono fun _ _ hu => ht.trans hu
    split
    · exact Ends.of_error rfl fun h => by cases h
    · exact hrec _ rfl
    · exact Ends.of_error rfl fun h => by cases h
    · refine Ends.ite (fun _ => Ends.of_error rfl fun h => by cases h) fun _ => Ends.pure ht
    · exact hrec _ rfl

theorem readsBelow_elementData (n : Nat) (name : Markup.Name) :
    ReadsBelow w n (elementData name : Parse σ Bytes) :=
  fun _ hs _ => tokenBound_ends fun _ hm => dataWithin_ends _ _ _ hs hm

theorem rawWithin_ends (h : Head) (name : Markup.Name) (fuel depth : Nat) {s : State σ}
    (hs : s.IsSound w) (hfuel : s.document.weight < fuel) :
    Ends w.crashes (rawWithin h name fuel depth) s fun _ t => s.Reads w t := by
  induction fuel generalizing depth s with
  | zero => omega
  | succ fuel ih =>
    refine Ends.get ((next_ends hs).bind fun r t ht => ?_)
    obtain ⟨ht, hlt⟩ := ht
    have hrec : ∀ depth', r.1.isSome = true →
        Ends w.crashes (rawWithin h name fuel depth') t fun _ u => s.Reads w u := fun depth' h =>
      (ih depth' ht.sound (by have := hlt h; omega)).mono fun _ _ hu => ht.trans hu
    split
    · exact Ends.of_error rfl fun h => by cases h
    · exact hrec _ rfl
    · cases depth with
      | zero => exact Ends.pure ht
      | succ depth => exact hrec _ rfl
    · exact hrec _ rfl

theorem readsBelow_rawBody (n : Nat) (h : Head) (name : Markup.Name) (scriptless : Bool) :
    ReadsBelow w n (rawBody h name scriptless : Parse σ (List Node)) := by
  refine (readsBelow_follow n).bind fun p s hs hn => Ends.get (tokenBound_ends fun m hm => ?_)
  exact (rawWithin_ends _ _ _ _ hs hm).bind fun _ _ ht => Ends.pure ht

/-! ### Elements -/

theorem steady_addAttributes (ns : Namespaces) (p : Position) (scriptless : Bool) (h : Head)
    (as : List Markup.Attribute) :
    Steady w (addAttributes ns p scriptless h as : Parse σ Head) := by
  induction as generalizing h with
  | nil => exact Steady.pure _
  | cons a as ih =>
    exact Steady.ite (ih h) ((steady_addAttribute _ _ _ _ _ _ _ _).bind fun h => ih h)

/-- The parser of the content of an element reads on in a document of which less than `n` is
left. -/
def Content.ReadsBelow (w : Surroundings σ) (n : Nat) (inner : Content σ) : Prop :=
  ∀ ns opened parent scriptless siblings,
    Parsing.ReadsBelow w n (inner ns opened parent scriptless siblings)

theorem library?_ends {env : Env σ} (hw : w.Holds env.host) {s : State σ} (hs : s.IsSound w)
    (uri : Bytes) (p : Position) :
    Ends w.crashes (library? env uri p) s fun l? t =>
      s.Onward w t ∧ ∀ l, l? = some l → w.gives l := by
  unfold library?
  split
  · exact Ends.pure ⟨hs.onward, fun l h => by cases h⟩
  next q hq =>
  refine Ends.ite (fun _ => Ends.pure ⟨hs.onward, fun l h => by cases h⟩) fun _ => ?_
  obtain ⟨hkeep, hgive⟩ := hw.library q hq uri s.memory hs.memory
  refine (ask_ends hs hkeep).bind fun a t ht => ?_
  obtain ⟨ht, rfl⟩ := ht
  split
  · next l hl => exact Ends.pure ⟨ht, fun l' h => Option.some.inj h ▸ hgive l hl⟩
  · refine Ends.ite (fun _ => Ends.of_error rfl fun h => by cases h) fun _ => ?_
    exact Ends.pure ⟨ht, fun l h => by cases h⟩

section Elements

variable {included : Include σ} (hinc : ∀ h scriptless, Steady w (included h scriptless))
  {inner : Content σ} {n : Nat} (hinner : inner.ReadsBelow w n)

include hinc in
theorem readsBelow_directive (n : Nat) (ns : Namespaces) (t : StartTag) (name : Bytes)
    (scriptless : Bool) (siblings : List Node) :
    ReadsBelow w n (directive included ns t name scriptless siblings) := by
  unfold directive
  refine ReadsBelow.guard (readsBelow_refuse n _ _ _) fun _ => ?_
  refine ((steady_directiveHead _ _ _).readsBelow n).bind fun h => ?_
  refine ((steady_addAttributes _ _ _ _ _).readsBelow n).bind fun h => ?_
  refine (readsBelow_elementData n _).bind fun data => ?_
  refine ReadsBelow.guard (readsBelow_refuse n _ _ _) fun _ => Steady.readsBelow ?_ n
  dsimp only
  split
  · exact (steady_applyElIgnored _).bind fun _ => Steady.pure _
  · exact (steady_applyElIgnored _).bind fun _ => Steady.pure _
  · exact (hinc _ _).bind fun _ => Steady.pure _
  · exact Steady.pure _

theorem readsBelow_scripting (n : Nat) (kind : Kind) (t : StartTag) (scriptless : Bool)
    (siblings : List Node) :
    ReadsBelow w n (scripting kind t scriptless siblings : Parse σ (List Node)) :=
  (readsBelow_elementData n _).bind fun _ =>
    ((steady_scriptingNode _ _ _ _).bind fun _ => Steady.pure _).readsBelow n

theorem readsBelow_textAction (n : Nat) (ns : Namespaces) (t : StartTag) (scriptless : Bool)
    (siblings : List Node) :
    ReadsBelow w n (textAction ns t scriptless siblings : Parse σ (List Node)) := by
  refine ((steady_actionHead _ _ _).readsBelow n).bind fun h => ?_
  refine ((steady_addAttributes _ _ _ _ _).readsBelow n).bind fun h => ?_
  refine (readsBelow_follow n).bind fun p => (readsBelow_elementData n _).bind fun s => ?_
  exact ((steady_textNodes _ _ _ _ _ _).bind fun _ => Steady.pure _).readsBelow n

include hinner

theorem readsBelow_actionChildren (ns : Namespaces) (t : StartTag) (parent h : Head)
    (scriptless : Bool) : ReadsBelow w n (actionChildren inner ns t parent h scriptless) := by
  have hchildren : ∀ scriptless, ReadsBelow w n (do
      let children ← inner ns (some t.name) h scriptless []
      checkActionBody h children
      return children) := fun scriptless =>
    (hinner _ _ _ _ _).bind fun cs =>
      ((steady_checkActionBody _ _).bind fun _ => Steady.pure _).readsBelow n
  unfold actionChildren
  dsimp only
  split
  · exact readsBelow_rawBody n _ _ _
  · refine ((steady_bodyElementContent _ _).readsBelow n).bind fun content => ?_
    split
    · exact readsBelow_rawBody n _ _ _
    · exact hchildren _
    · exact hchildren _
  · exact hchildren _

theorem readsBelow_standardAction (ns : Namespaces) (t : StartTag) (parent : Head)
    (scriptless : Bool) (siblings : List Node) :
    ReadsBelow w n (standardAction inner ns t parent scriptless siblings) := by
  refine ((steady_actionHead _ _ _).readsBelow n).bind fun h => ?_
  refine ((steady_checkPlacement _ _).readsBelow n).bind fun _ => ?_
  refine ((steady_addAttributes _ _ _ _ _).readsBelow n).bind fun h => ?_
  exact (readsBelow_actionChildren hinner _ _ _ _ _).bind fun cs => ReadsBelow.pure n _

include hinc in
theorem readsBelow_standardElement (env : Env σ) (ns : Namespaces) (t : StartTag) (parent : Head)
    (scriptless : Bool) (siblings : List Node) :
    ReadsBelow w n (standardElement env included inner ns t parent scriptless siblings) := by
  refine ReadsBelow.ite (hinner _ _ _ _ _) ?_
  refine ReadsBelow.ite (readsBelow_directive hinc n _ _ _ _ _) ?_
  refine ReadsBelow.ite (hinner _ _ _ _ _) ?_
  split
  · exact readsBelow_scripting n _ _ _ _
  · exact ReadsBelow.ite (readsBelow_textAction n _ _ _ _)
      (readsBelow_standardAction hinner _ _ _ _ _)

theorem readsBelow_tagChildren (ns : Namespaces) (t : StartTag) (h : Head) (scriptless : Bool) :
    ReadsBelow w n (tagChildren inner ns t h scriptless) :=
  ReadsBelow.ite (readsBelow_rawBody n _ _ _) <| (hinner _ _ _ _ _).bind fun _ =>
    ((steady_checkTagBody _ _).bind fun _ => Steady.pure _).readsBelow n

theorem readsBelow_customTag {env : Env σ} (hw : w.Holds env.host) (ns : Namespaces)
    (t : StartTag) {l : TagLibrary} (hl : w.gives l) (scriptless : Bool) (siblings : List Node) :
    ReadsBelow w n (customTag env inner ns t l scriptless siblings) := by
  refine ((steady_tagHead hw hl _ _ _ _ _).readsBelow n).bind fun h => ?_
  refine ((steady_addAttributes _ _ _ _ _).readsBelow n).bind fun h => ?_
  exact (readsBelow_tagChildren hinner _ _ _ _).bind fun cs => ReadsBelow.pure n _

theorem readsBelow_plainElement (ns : Namespaces) (t : StartTag) (parent : Head)
    (scriptless : Bool) (siblings : List Node) :
    ReadsBelow w n (plainElement inner ns t parent scriptless siblings) := by
  have hnext : ReadsBelow w n (next : Parse σ (Option Markup.Token × Position)) :=
    fun _ hs _ => (next_ends hs).mono fun _ _ h => h.1
  have htext := fun siblings s p allowEl =>
    (steady_textNodes (w := w) (σ := σ) ns.uriOf siblings s p scriptless allowEl).readsBelow n
  refine ReadsBelow.ite (hnext.bind fun _ => htext _ _ _ _) ?_
  refine (htext _ _ _ _).bind fun cs => (hinner _ _ _ _ _).bind fun cs => ?_
  exact (steady_position.readsBelow n).bind fun p => htext _ _ _ _

include hinc in
theorem readsBelow_element {env : Env σ} (hw : w.Holds env.host) (ns : Namespaces) (t : StartTag)
    (parent : Head) (scriptless : Bool) (siblings : List Node) :
    ReadsBelow w n (element env included inner ns t parent scriptless siblings) := by
  refine ReadsBelow.ite (readsBelow_standardElement hinc hinner _ _ _ _ _ _) ?_
  refine ReadsBelow.ite (hinner _ _ _ _ _) (ReadsBelow.ite ?_ ?_)
  · exact readsBelow_plainElement hinner _ _ _ _ _
  · intro s hs hn
    refine (library?_ends hw hs _ _).bind fun l? u hu => ?_
    have hn' := Nat.lt_of_le_of_lt hu.1.reads.weight hn
    cases l? with
    | none =>
      exact (readsBelow_plainElement hinner _ _ _ _ _ u hu.1.sound hn').mono fun _ _ h =>
        hu.1.reads.trans h
    | some l =>
      exact (readsBelow_customTag hinner hw _ _ (hu.2 l rfl) _ _ u hu.1.sound hn').mono
        fun _ _ h => hu.1.reads.trans h

end Elements

/-! ### Sources -/

/-- The content of an element is read without a crash of its own. -/
theorem content_readsBelow {env : Env σ} (hw : w.Holds env.host) {included : Include σ}
    (hinc : ∀ h scriptless, Steady w (included h scriptless)) (fuel : Nat) :
    Content.ReadsBelow w fuel (content env included fuel) := by
  induction fuel with
  | zero => exact fun _ _ _ _ _ _ _ h => absurd h (Nat.not_lt_zero _)
  | succ fuel ih =>
    intro ns opened parent scriptless siblings s hs hfuel
    refine (next_ends hs).bind fun r t ht => ?_
    obtain ⟨ht, hlt⟩ := ht
    have hrec : r.1.isSome = true → ∀ {x : Parse σ (List Node)}, ReadsBelow w fuel x →
        Ends w.crashes x t fun _ u => s.Reads w u := fun h x hx =>
      (hx t ht.sound (by have := hlt h; omega)).mono fun _ _ hu => ht.trans hu
    dsimp only
    split
    · split
      · exact Ends.of_error rfl fun h => by cases h
      · exact Ends.pure ht
    · refine hrec rfl (ReadsBelow.ite (ih _ _ _ _ _) ?_)
      exact ((steady_textNodes _ _ _ _ _ _).readsBelow fuel).bind fun _ => ih _ _ _ _ _
    · exact hrec rfl ((readsBelow_element hinc ih hw _ _ _ _ _).bind fun _ => ih _ _ _ _ _)
    · refine Ends.ite (fun _ => Ends.pure ht) fun _ => Ends.of_error rfl fun h => by cases h
    · exact hrec rfl (ih _ _ _ _ _)

theorem parse_ends {env : Env σ} (hw : w.Holds env.host) {included : Include σ}
    (hinc : ∀ h scriptless, Steady w (included h scriptless)) (parent : Head) (scriptless : Bool)
    {s : State σ} (hs : s.IsSound w) :
    Ends w.crashes (parse env included parent scriptless) s fun _ t => t.IsSound w := by
  refine Ends.modify (tokenBound_ends fun n hn => ?_)
  refine (content_readsBelow hw hinc n _ _ _ _ _ _ ?_ hn).mono fun _ _ h => h.sound
  exact ⟨hs.cursor, hs.files, hs.memory, hs.bindings⟩

end Document

/-! ### Units -/

/-- The files being read: the unit itself, and different files that can be loaded. -/
structure IncludesInto (w : Surroundings σ) (base : Bytes) (fs : List Bytes) : Prop where
  innermost : w.names (fs.headD [])
  files : ∃ ts, fs = ts ++ [base] ∧ ts.Nodup ∧ ts ⊆ w.files

theorem IncludesInto.cons {base path : Bytes} {fs : List Bytes} (h : IncludesInto w base fs)
    (hpath : path ∈ w.files) (hname : w.names path) (hnew : path ∉ fs) :
    IncludesInto w base (path :: fs) := by
  obtain ⟨-, ts, rfl, hnodup, hsub⟩ := h
  have hnew : path ∉ ts := fun h => hnew (List.mem_append_left _ h)
  exact ⟨hname, path :: ts, rfl, List.nodup_cons.mpr ⟨hnew, hnodup⟩,
    List.cons_subset.mpr ⟨hpath, hsub⟩⟩

theorem IncludesInto.length_le {base : Bytes} {fs : List Bytes} (h : IncludesInto w base fs) :
    fs.length ≤ w.files.length + 1 := by
  obtain ⟨-, ts, rfl, hnodup, hsub⟩ := h
  have := hnodup.length_le_of_subset hsub
  simpa using this

/-- **Sources are parsed without a crash of their own**, inclusions nesting no deeper than there are
files. -/
theorem parseSource_isSteady {env : Env σ} (hw : w.Holds env.host) (base : Bytes) (depth : Nat) :
    (parseSource env depth).IsSteady (w.whileReading fun fs =>
      IncludesInto w base fs ∧ fs.length + depth = env.host.fileCount + 3) := by
  induction depth with
  | zero =>
    intro form h scriptless s hs
    obtain ⟨hinto, hlen⟩ := hs.files
    have := hinto.length_le
    have := hw.count
    omega
  | succ depth ih =>
    intro form h scriptless s hs
    have hw' : (w.whileReading fun fs => IncludesInto w base fs ∧
        fs.length + (depth + 1) = env.host.fileCount + 3).Holds env.host :=
      ⟨hw.library, hw.names, hw.load, hw.tagFile, hw.count⟩
    have hinc := steady_includeFile hw' (P := fun fs => IncludesInto w base fs ∧
        fs.length + depth = env.host.fileCount + 3) ih (fun fs h => h.1.innermost) <| by
      rintro fs ⟨hinto, hlen⟩ path hpath hname hnew
      exact ⟨hinto.cons hpath hname hnew, by rw [List.length_cons]; omega⟩
    cases form with
    | document => exact Document.parse_ends hw' hinc h scriptless hs
    | auto => exact (Native.steady_parse hw' hinc h scriptless s hs).mono fun _ _ h => h.sound
    | native => exact (Native.steady_parse hw' hinc h scriptless s hs).mono fun _ _ h => h.sound

end Parsing

/-- **Parsing a unit crashes only if describing a tag does**, and leaves what the surroundings
remember in order. -/
theorem ParseRequest.parse_ends {σ : Type} {w : Surroundings σ} (r : ParseRequest) {host : Host σ}
    (hw : w.Holds host) (hname : w.names r.path) {memory : σ} (hm : w.keeps memory) :
    (∀ tree, (r.parse host memory).1 = .ok tree → w.keeps (r.parse host memory).2) ∧
    ((r.parse host memory).1 = .error .crash → w.crashes) := by
  have hstart : (r.start memory).IsSound (w.whileReading fun fs =>
      Parsing.IncludesInto w r.path fs ∧ fs.length + (host.fileCount + 2) =
        host.fileCount + 3) := by
    refine ⟨Nat.zero_add _, ⟨⟨hname, [], rfl, List.nodup_nil, List.nil_subset _⟩, ?_⟩, hm, ?_⟩
    · show 1 + (host.fileCount + 2) = _
      omega
    · exact fun p hp => absurd hp List.not_mem_nil
  have hw : w.Holds (r.env host).host := hw
  obtain ⟨hok, hcrash⟩ := Parsing.parseSource_isSteady hw r.path
    (host.fileCount + 2) r.actualForm (r.root (Cursor.ofText r.path r.text).position) false _ hstart
  unfold ParseRequest.parse
  dsimp only
  split
  · next cs t hrun => exact ⟨fun _ _ => (hok cs t hrun).memory, fun h => by cases h⟩
  · next e t hrun =>
      refine ⟨fun _ h => (by cases h), fun h => hcrash t ?_⟩
      obtain rfl := Except.error.inj h
      exact hrun

end ServerPages
