import ServerPages.Proofs.UnreportedSteps

/-!
# What a merged directive leaves

An attribute of a page or tag directive sets one field of what the directives say. Attributes of
different names set different fields, and to set a field again changes nothing. So an attribute that
was merged without a problem stands (`Stands`): whatever is validated afterwards, merging it again
does nothing, unless it reserves a name, which it cannot do twice. Another value of an attribute
that stands is a conflict.

## Main results

* `isInvariant_stands`: an attribute that stands does so ever after.
* `mergeAttribute_stands`: an attribute that is merged without a problem stands.
* `mergeAttribute_of_stands`: what it is to merge an attribute that stands.
* `mergeAttribute_conflict`: what it is to merge one that contradicts an attribute that stands.
-/

namespace ServerPages.Validation

variable {σ : Type}

/-! ### Settings -/

/-- What an attribute of a page or tag directive sets. -/
inductive Setting where
  | contentType | pageEncoding | session | autoFlush | buffer | info | errorPage | isErrorPage
  | elIgnored | trimSpaces | displayName | description | dynamicAttributes | body
  deriving DecidableEq

/-- The size of the output buffer that a value stands for. -/
def bufferSize? (v : Bytes) : Option Int :=
  if v == "none" then some 0
  else (kilobytes? v).bind fun digits =>
    ((Numeral.signed 64 digits).toOption).map fun n => word64 (n * 1024)

namespace Setting

/-- The name of the attribute. -/
def name : Setting → Bytes
  | .contentType => "contentType"
  | .pageEncoding => "pageEncoding"
  | .session => "session"
  | .autoFlush => "autoFlush"
  | .buffer => "buffer"
  | .info => "info"
  | .errorPage => "errorPage"
  | .isErrorPage => "isErrorPage"
  | .elIgnored => "isELIgnored"
  | .trimSpaces => "trimDirectiveWhitespaces"
  | .displayName => "display-name"
  | .description => "description"
  | .dynamicAttributes => "dynamic-attributes"
  | .body => "body-content"

/-- What the directives say with the value of an attribute. -/
def put : Setting → Bytes → PageInfo → PageInfo
  | .contentType, v, p => { p with contentType := v }
  | .pageEncoding, v, p => { p with pageEncoding := v }
  | .session, v, p => { p with session := v == "true" }
  | .autoFlush, v, p => { p with autoFlush := v == "true" }
  | .buffer, v, p => { p with buffer := (bufferSize? v).getD p.buffer }
  | .info, v, p => { p with info := v }
  | .errorPage, v, p => { p with errorPage := v }
  | .isErrorPage, v, p => { p with isErrorPage := v == "true" }
  | .elIgnored, v, p => { p with elIgnored := v == "true" }
  | .trimSpaces, v, p => { p with trimSpaces := v == "true" }
  | .displayName, v, p => { p with tag := p.tag.map ({ · with displayName := v }) }
  | .description, v, p => { p with tag := p.tag.map ({ · with description := v }) }
  | .dynamicAttributes, v, p => { p with tag := p.tag.map ({ · with dynamicAttributes := v }) }
  | .body, v, p =>
    { p with tag := p.tag.map fun t =>
        { t with body := (BodyContent.ofName v).toOption.getD t.body } }

/-- The setting of an attribute. -/
def named? (name : Bytes) : Option Setting :=
  [contentType, pageEncoding, session, autoFlush, buffer, info, errorPage, isErrorPage, elIgnored,
    trimSpaces, displayName, description, dynamicAttributes, body].find? fun f => name == f.name

theorem named?_name (f : Setting) : named? f.name = some f := by
  cases f <;> decide

theorem name_of_named? {n : Bytes} {f : Setting} (h : named? n = some f) : n = f.name :=
  eq_of_beq (List.find?_some (p := fun f : Setting => n == f.name) h)

/-- Different settings do not meet. -/
theorem put_put_of_ne {f g : Setting} (h : f ≠ g) (v w : Bytes) (p : PageInfo) :
    f.put v (g.put w p) = g.put w (f.put v p) := by
  cases p with
  | mk imports contentType pageEncoding buffer autoFlush session errorPage isErrorPage elIgnored
      scripting trimSpaces info prefixes functions tag =>
    cases tag <;> cases f <;> cases g <;> first | rfl | exact absurd rfl h

/-- The second time nothing is set. -/
theorem put_put (f : Setting) (v : Bytes) (p : PageInfo) : f.put v (f.put v p) = f.put v p := by
  cases p with
  | mk imports contentType pageEncoding buffer autoFlush session errorPage isErrorPage elIgnored
      scripting trimSpaces info prefixes functions tag =>
    cases f
    case buffer => simp only [put]; cases bufferSize? v <;> rfl
    case body => simp only [put]; cases tag <;> cases (BodyContent.ofName v).toOption <;> rfl
    all_goals cases tag <;> rfl

theorem put_imports (f : Setting) (v : Bytes) (p : PageInfo) (x : List Bytes) :
    f.put v { p with imports := x } = { f.put v p with imports := x } := by
  cases f <;> rfl

theorem put_prefixes (f : Setting) (v : Bytes) (p : PageInfo) (x : List (Bytes × Bytes)) :
    f.put v { p with prefixes := x } = { f.put v p with prefixes := x } := by
  cases f <;> rfl

theorem put_functions (f : Setting) (v : Bytes) (p : PageInfo)
    (x : List (Expression.FunctionRef × LibraryFunction)) :
    f.put v { p with functions := x } = { f.put v p with functions := x } := by
  cases f <;> rfl

theorem put_contract (f : Setting) (v : Bytes) (p : PageInfo) (as : List AttributeSignature)
    (vs : List TagFileVariable) :
    f.put v { p with tag := p.tag.map ({ · with attributes := as, vars := vs }) } =
      { f.put v p with tag := (f.put v p).tag.map ({ · with attributes := as, vars := vs }) } := by
  cases p with
  | mk imports contentType pageEncoding buffer autoFlush session errorPage isErrorPage elIgnored
      scripting trimSpaces info prefixes functions tag =>
    cases tag <;> cases f <;> rfl

theorem imports_put (f : Setting) (v : Bytes) (p : PageInfo) : (f.put v p).imports = p.imports := by
  cases f <;> rfl

end Setting

/-! ### Applying an attribute -/

theorem setBuffer_eq_setPage {a : Attribute} (h : (bufferSize? a.value).isSome) :
    (setBuffer a : Validate σ Unit) = setPage (Setting.buffer.put a.value) := by
  unfold bufferSize? at h
  unfold setBuffer Setting.put bufferSize?
  split at h
  · next hnone => simp [hnone]
  next hsome =>
  cases hk : kilobytes? a.value with
  | none => simp [hk] at h
  | some digits =>
    cases hn : Numeral.signed 64 digits with
    | error e => simp [hk, hn, Except.toOption] at h
    | ok n => simp [hsome, hk, hn, Except.toOption]

theorem setBuffer_eq_report {a : Attribute} (h : bufferSize? a.value = none) :
    ∃ message, (setBuffer a : Validate σ Unit) =
      report .invalidDirectiveValue a.position message := by
  unfold bufferSize? at h
  unfold setBuffer
  split at h
  · cases h
  next hsome =>
  rw [if_neg hsome]
  cases hk : kilobytes? a.value with
  | none => exact ⟨_, rfl⟩
  | some digits =>
    cases hn : Numeral.signed 64 digits with
    | error e =>
      simp only [hn]
      exact ⟨_, rfl⟩
    | ok n => simp [hk, hn, Except.toOption] at h

theorem applyAttribute_of_none {a : Attribute} (h : Setting.named? a.name = none) :
    (applyAttribute a : Validate σ Unit) = pure () := by
  have hne : ∀ f : Setting, ¬(a.name == f.name) = true := by
    intro f heq
    rw [eq_of_beq heq, Setting.named?_name] at h
    cases h
  exact (if_neg (hne .contentType)).trans <| (if_neg (hne .pageEncoding)).trans <|
    (if_neg (hne .session)).trans <| (if_neg (hne .autoFlush)).trans <|
    (if_neg (hne .buffer)).trans <| (if_neg (hne .info)).trans <|
    (if_neg (hne .errorPage)).trans <| (if_neg (hne .isErrorPage)).trans <|
    (if_neg (hne .elIgnored)).trans <| (if_neg (hne .trimSpaces)).trans <|
    (if_neg (hne .displayName)).trans <| (if_neg (hne .description)).trans <|
    (if_neg (hne .dynamicAttributes)).trans <| if_neg (hne .body)

theorem applyAttribute_of_name {a : Attribute} {f : Setting} (h : a.name = f.name)
    (hbuffer : f ≠ .buffer) (hdynamic : f ≠ .dynamicAttributes) :
    (applyAttribute a : Validate σ Unit) = setPage (f.put a.value) := by
  unfold applyAttribute
  rw [h]
  cases f <;> first | rfl | contradiction

theorem applyAttribute_of_buffer {a : Attribute} (h : a.name = "buffer") :
    (applyAttribute a : Validate σ Unit) = setBuffer a := by
  unfold applyAttribute
  rw [h]
  rfl

theorem applyAttribute_of_dynamicAttributes {a : Attribute} (h : a.name = "dynamic-attributes") :
    (applyAttribute a : Validate σ Unit) = (do
      setPage (Setting.dynamicAttributes.put a.value)
      let _ ← declare a.value a.position) := by
  unfold applyAttribute
  rw [h]
  rfl

theorem run_bind {α β : Type} (x : Validate σ α) (f : α → Validate σ β) (s : State σ) :
    (x >>= f) s = f (x s).1 (x s).2 := rfl

theorem run_get {α : Type} (f : State σ → Validate σ α) (s : State σ) :
    (MonadStateOf.get >>= f) s = f s s := rfl

theorem declare_of_lookup_none {name : Bytes} {s : State σ} (h : s.declared.lookup name = none)
    (p : Position) : declare name p s = (true, { s with declared := (name, p) :: s.declared }) := by
  unfold declare
  rw [show (get : Validate σ (State σ)) = MonadStateOf.get from rfl, run_get, h]
  rfl

theorem declare_of_lookup_some {name : Bytes} {s : State σ} {first : Position}
    (h : s.declared.lookup name = some first) (p : Position) :
    declare name p s = (false, (report .directiveConflict p
      (name ++ " is already declared at " ++ first.text) s).2) := by
  unfold declare
  rw [show (get : Validate σ (State σ)) = MonadStateOf.get from rfl, run_get, h]
  rfl

/-- Applying an attribute sets what it is for, may add problems and may reserve its value. -/
theorem applyAttribute_run (a : Attribute) (s : State σ) : ∃ problems declared,
    (applyAttribute a s).2 = { s with
      page := (Setting.named? a.name).elim s.page fun f => f.put a.value s.page
      problems := problems, declared := declared } ∧
    (declared = s.declared ∨ ∃ p, declared = (a.value, p) :: s.declared) := by
  cases hf : Setting.named? a.name with
  | none =>
    rw [applyAttribute_of_none hf]
    exact ⟨s.problems, s.declared, rfl, .inl rfl⟩
  | some f =>
    have hname := Setting.name_of_named? hf
    by_cases hbuffer : f = .buffer
    · subst hbuffer
      rw [applyAttribute_of_buffer hname]
      cases hsize : bufferSize? a.value with
      | none =>
        obtain ⟨message, hreport⟩ := setBuffer_eq_report (σ := σ) hsize
        rw [hreport]
        refine ⟨s.problems.add ⟨.invalidDirectiveValue, a.position, message⟩, s.declared, ?_,
          .inl rfl⟩
        rw [Option.elim_some, Setting.put, hsize]
        rfl
      | some n =>
        rw [setBuffer_eq_setPage (hsize ▸ rfl)]
        exact ⟨s.problems, s.declared, rfl, .inl rfl⟩
    by_cases hdynamic : f = .dynamicAttributes
    · subst hdynamic
      rw [applyAttribute_of_dynamicAttributes hname]
      let t : State σ := { s with page := Setting.dynamicAttributes.put a.value s.page }
      show ∃ problems declared, (declare a.value a.position t).2 = _ ∧ _
      cases hlookup : t.declared.lookup a.value with
      | none =>
        rw [declare_of_lookup_none hlookup]
        exact ⟨s.problems, _, rfl, .inr ⟨_, rfl⟩⟩
      | some first =>
        rw [declare_of_lookup_some hlookup]
        exact ⟨_, s.declared, rfl, .inl rfl⟩
    · rw [applyAttribute_of_name hname hbuffer hdynamic]
      exact ⟨s.problems, s.declared, rfl, .inl rfl⟩

/-! ### Merging an attribute -/

/-- How the merging of an attribute ends. -/
inductive Merged (h : Head) (a : Attribute) (s : State σ) : State σ → Prop where
  /-- Packages are imported. -/
  | imports (hname : a.name = "import") : Merged h a s
      { s with page := { s.page with imports := addImports s.page.imports a.value } }
  /-- The attribute has another value already. -/
  | conflict (hname : a.name ≠ "import") {first : FirstValue} (message : Bytes)
      (hfirst : s.firstValues.lookup (h.kind, a.name) = some first) (hne : first.value ≠ a.value) :
      Merged h a s (report .directiveConflict a.position message s).2
  /-- The attribute has the same value already. -/
  | again (hname : a.name ≠ "import") {first : FirstValue}
      (hfirst : s.firstValues.lookup (h.kind, a.name) = some first) (heq : first.value = a.value) :
      Merged h a s (applyAttribute a s).2
  /-- The attribute has no value yet. -/
  | first (hname : a.name ≠ "import") (hnone : s.firstValues.lookup (h.kind, a.name) = none) :
      Merged h a s (applyAttribute a { s with
        firstValues := ((h.kind, a.name), ⟨a.value, a.position⟩) :: s.firstValues }).2

theorem mergeAttribute_merged (h : Head) (a : Attribute) (s : State σ) :
    Merged h a s (mergeAttribute h a s).2 := by
  unfold mergeAttribute
  by_cases hname : a.name = "import"
  · rw [if_pos (beq_iff_eq.mpr hname)]
    exact .imports hname
  rw [if_neg (by simpa using hname)]
  show Merged h a s
    ((if (remember h a s).1 then applyAttribute a else pure ()) (remember h a s).2).2
  have hremember : remember h a s = _ :=
    (congrFun (by unfold remember; rfl) s).trans (run_get _ s)
  cases hfirst : s.firstValues.lookup (h.kind, a.name) with
  | none =>
    rw [hfirst] at hremember
    rw [hremember]
    exact .first hname hfirst
  | some first =>
    rw [hfirst] at hremember
    by_cases heq : first.value = a.value
    · rw [hremember]
      simp only [heq, beq_self_eq_true, if_true]
      exact .again hname hfirst heq
    · have hne : ¬(first.value == a.value) = true := by simpa using heq
      rw [hremember]
      simp only [if_neg hne]
      exact .conflict hname _ hfirst heq

/-! ### Imports -/

/-- The imports have the package that is listed, if one is. -/
def HasImport (imports : List Bytes) (listed : Bytes) : Prop :=
  listed.trimSpace = [] ∨ listed.trimSpace ∈ imports

/-- Imports one of the packages that are listed. -/
def addImport (imports : List Bytes) (listed : Bytes) : List Bytes :=
  if listed.trimSpace == [] || imports.contains listed.trimSpace then imports
  else imports ++ [listed.trimSpace]

theorem addImports_eq (imports : List Bytes) (v : Bytes) :
    addImports imports v = (v.splitOnByte 44).foldl addImport imports := rfl

section Imports

variable {imports : List Bytes} {n : Bytes}

theorem HasImport.addImport_eq (h : HasImport imports n) : addImport imports n = imports :=
  if_pos (by simpa [HasImport] using h)

theorem hasImport_addImport (imports : List Bytes) (n : Bytes) :
    HasImport (addImport imports n) n := by
  by_cases h : HasImport imports n
  · rwa [h.addImport_eq]
  · rw [addImport, if_neg (by simpa [HasImport] using h)]
    exact .inr (by simp)

theorem HasImport.addImport (h : HasImport imports n) (m : Bytes) :
    HasImport (addImport imports m) n := by
  refine h.imp_right fun hmem => ?_
  unfold Validation.addImport
  split
  · exact hmem
  · exact List.mem_append_left _ hmem

theorem HasImport.addAll (h : HasImport imports n) (ms : List Bytes) :
    HasImport (ms.foldl Validation.addImport imports) n := by
  induction ms generalizing imports with
  | nil => exact h
  | cons m ms ih => exact ih (h.addImport m)

theorem HasImport.addImports (h : HasImport imports n) (v : Bytes) :
    HasImport (addImports imports v) n := h.addAll _

/-- What is listed is imported. -/
theorem hasImport_addImports {v : Bytes} (h : n ∈ v.splitOnByte 44) (imports : List Bytes) :
    HasImport (addImports imports v) n := by
  rw [addImports_eq]
  generalize v.splitOnByte 44 = listed at h
  induction listed generalizing imports with
  | nil => cases h
  | cons m ms ih =>
    obtain rfl | h := List.mem_cons.mp h
    · exact (hasImport_addImport imports n).addAll ms
    · exact ih _ h

/-- What is imported is not imported again. -/
theorem addImports_eq_self {v : Bytes} (h : ∀ n ∈ v.splitOnByte 44, HasImport imports n) :
    addImports imports v = imports := by
  rw [addImports_eq]
  generalize v.splitOnByte 44 = listed at h
  induction listed with
  | nil => rfl
  | cons m ms ih =>
    obtain ⟨hm, hms⟩ := List.forall_mem_cons.mp h
    rw [List.foldl_cons, hm.addImport_eq, ih hms]

end Imports

/-! ### What stands -/

/-- An attribute of a directive of the kind `k` was merged, and nothing has changed what it says. -/
structure Stands (k : Kind) (a : Attribute) (s : State σ) : Prop where
  kind : s.mergedKind = k
  imports : a.name = "import" → ∀ n ∈ a.value.splitOnByte 44, HasImport s.page.imports n
  first : a.name ≠ "import" → ∃ v, s.firstValues.lookup (k, a.name) = some v ∧ v.value = a.value
  setting : ∀ f, Setting.named? a.name = some f → f.put a.value s.page = s.page
  buffer : a.name = "buffer" → (bufferSize? a.value).isSome
  declared : a.name = "dynamic-attributes" → (s.declared.lookup a.value).isSome

theorem isSome_lookup_cons {β : Type} {x : Bytes} {l : List (Bytes × β)}
    (h : (l.lookup x).isSome) (y : Bytes) (b : β) : (((y, b) :: l).lookup x).isSome := by
  rw [List.lookup_cons]
  split
  · rfl
  · exact h

section Stands

variable {k : Kind} {a b : Attribute} {h : Head} {s : State σ}

/-- What stands does so when another attribute is applied, or the same once more. -/
theorem Stands.applyAttribute (hs : Stands k a s) (hb : b.name = a.name → b.value = a.value) :
    Stands k a (applyAttribute b s).2 := by
  have hkind := (mergedKind_applyAttribute b s).trans hs.kind
  obtain ⟨problems, declared, hrun, hdeclared⟩ := applyAttribute_run b s
  rw [hrun] at hkind ⊢
  refine ⟨hkind, fun hname n hn => ?_, hs.first, fun f hf => ?_, hs.buffer, fun hname => ?_⟩
  · have hbefore := hs.imports hname n hn
    cases Setting.named? b.name with
    | none => exact hbefore
    | some g => exact (g.imports_put b.value s.page).symm ▸ hbefore
  · have hbefore := hs.setting f hf
    cases hg : Setting.named? b.name with
    | none => exact hbefore
    | some g =>
      show f.put a.value (g.put b.value s.page) = g.put b.value s.page
      by_cases hfg : f = g
      · subst hfg
        have hname : b.name = a.name :=
          (Setting.name_of_named? hg).trans (Setting.name_of_named? hf).symm
        rw [hb hname, Setting.put_put]
      · rw [Setting.put_put_of_ne hfg, hbefore]
  · obtain rfl | ⟨p, rfl⟩ := hdeclared
    · exact hs.declared hname
    · exact isSome_lookup_cons (hs.declared hname) _ _

theorem Stands.mergeAttribute (hs : Stands k a s) (hk : h.kind = k) :
    Stands k a (mergeAttribute h b s).2 := by
  have hmerged := mergeAttribute_merged h b s
  generalize (Validation.mergeAttribute h b s).2 = t at hmerged
  cases hmerged with
  | imports hname =>
    refine ⟨hs.kind, fun ha n hn => (hs.imports ha n hn).addImports _, hs.first, fun f hf => ?_,
      hs.buffer, hs.declared⟩
    rw [Setting.put_imports, hs.setting f hf]
  | conflict hname message hfirst hne => exact ⟨hs.1, hs.2, hs.3, hs.4, hs.5, hs.6⟩
  | again hname hfirst heq =>
    refine hs.applyAttribute fun hsame => ?_
    obtain ⟨v, hv, hvalue⟩ := hs.first (hsame ▸ hname)
    rw [hk, hsame, hv] at hfirst
    rw [← heq, ← Option.some.inj hfirst, hvalue]
  | first hname hnone =>
    -- The attribute that gets its first value is none that stands.
    have hne : b.name ≠ a.name := by
      intro hsame
      obtain ⟨v, hv, -⟩ := hs.first (hsame ▸ hname)
      rw [hk, hsame, hv] at hnone
      cases hnone
    refine Stands.applyAttribute ⟨hs.kind, hs.imports, fun ha => ?_, hs.setting, hs.buffer,
      hs.declared⟩ fun hsame => absurd hsame hne
    obtain ⟨v, hv, hvalue⟩ := hs.first ha
    refine ⟨v, ?_, hvalue⟩
    have hkey : ((k, a.name) == (h.kind, b.name)) = false := by
      simpa using fun _ => Ne.symm hne
    rw [List.lookup_cons, hkey]
    exact hv

/-- An attribute that stands does so ever after. -/
theorem isInvariant_stands (env : Env σ) (k : Kind) (a : Attribute) :
    IsInvariant env (Stands k a) where
  report _ _ hs := ⟨hs.1, hs.2, hs.3, hs.4, hs.5, hs.6⟩
  merge _ _ _ hk hs := hs.mergeAttribute (hk.trans hs.kind)
  prefixes _ _ hs :=
    ⟨hs.1, hs.2, hs.3, fun f hf => by rw [f.put_prefixes, hs.setting f hf], hs.5, hs.6⟩
  functions _ _ hs :=
    ⟨hs.1, hs.2, hs.3, fun f hf => by rw [f.put_functions, hs.setting f hf], hs.5, hs.6⟩
  contract s as vs hs := by
    refine ⟨?_, hs.2, hs.3, fun f hf => by rw [f.put_contract, hs.setting f hf], hs.5, hs.6⟩
    rw [← hs.kind, State.mergedKind, State.mergedKind, Option.isSome_map]
  declare _ _ _ hs := ⟨hs.1, hs.2, hs.3, hs.4, hs.5, fun ha => isSome_lookup_cons (hs.6 ha) _ _⟩
  invoke _ _ hs := ⟨hs.1, hs.2, hs.3, hs.4, hs.5, hs.6⟩
  memory _ _ _ _ hs := ⟨hs.1, hs.2, hs.3, hs.4, hs.5, hs.6⟩

/-! ### Attributes that are merged again -/

theorem entries_report (hcap : s.problems.policy = .noCap) (issue : Issue) (p : Position)
    (message : Bytes) : (report issue p message s).2.problems.entries =
      s.problems.entries ++ [⟨issue, p, message⟩] := by
  show (s.problems.add _).entries = _
  rw [Collector.add_of_noCap hcap]

/-- An attribute that is applied without a problem stands if its value is noted. -/
theorem applyAttribute_stands (hcap : s.problems.policy = .noCap) (hk : s.mergedKind = k)
    (himport : a.name ≠ "import")
    (hfirst : ∃ v, s.firstValues.lookup (k, a.name) = some v ∧ v.value = a.value)
    (hnone : (applyAttribute a s).2.problems.entries = []) :
    Stands k a (applyAttribute a s).2 := by
  have hsize : a.name = "buffer" → (bufferSize? a.value).isSome := by
    intro hname
    rw [applyAttribute_of_buffer hname] at hnone
    cases hsize : bufferSize? a.value with
    | some n => rfl
    | none =>
      obtain ⟨message, hreport⟩ := setBuffer_eq_report (σ := σ) hsize
      rw [hreport, entries_report hcap] at hnone
      simp at hnone
  have hdeclared : a.name = "dynamic-attributes" →
      ((applyAttribute a s).2.declared.lookup a.value).isSome := by
    intro hname
    let t : State σ := { s with page := Setting.dynamicAttributes.put a.value s.page }
    rw [applyAttribute_of_dynamicAttributes hname]
    show ((declare a.value a.position t).2.declared.lookup a.value).isSome
    cases hlookup : t.declared.lookup a.value with
    | none => simp [declare_of_lookup_none hlookup]
    | some first =>
      rw [declare_of_lookup_some hlookup]
      exact hlookup ▸ rfl
  have hkind := (mergedKind_applyAttribute a s).trans hk
  obtain ⟨problems, declared, hrun, -⟩ := applyAttribute_run a s
  rw [hrun] at hkind hdeclared ⊢
  refine ⟨hkind, fun h => absurd h himport, fun _ => hfirst, fun f hf => ?_, hsize, hdeclared⟩
  rw [hf]
  exact f.put_put a.value s.page

/-- An attribute that is merged without a problem stands. -/
theorem mergeAttribute_stands (hcap : s.problems.policy = .noCap) (hk : h.kind = s.mergedKind)
    (hnone : (mergeAttribute h a s).2.problems.entries = []) :
    Stands h.kind a (mergeAttribute h a s).2 := by
  have hmerged := mergeAttribute_merged h a s
  generalize (mergeAttribute h a s).2 = t at hmerged hnone
  cases hmerged with
  | imports hname =>
    have hsetting : Setting.named? a.name = none := by
      rw [hname]
      decide
    refine ⟨hk.symm, fun _ n hn => hasImport_addImports hn _, fun h => absurd hname h, ?_, ?_, ?_⟩
    · rw [hsetting]
      rintro f ⟨⟩
    all_goals
      intro h
      exact absurd (hname.symm.trans h) (by decide)
  | conflict hname message hfirst hne =>
    rw [entries_report hcap] at hnone
    simp at hnone
  | again hname hfirst heq =>
    exact applyAttribute_stands hcap hk.symm hname ⟨_, hfirst, heq⟩ hnone
  | first hname _ =>
    exact applyAttribute_stands hcap hk.symm hname ⟨_, List.lookup_cons_self, rfl⟩ hnone

/-- An attribute that stands can be merged again, unless it reserves a name. -/
theorem mergeAttribute_of_stands (hs : Stands k a s) (hk : h.kind = k) (hname : b.name = a.name)
    (hvalue : b.value = a.value) (hdynamic : b.name ≠ "dynamic-attributes") :
    (mergeAttribute h b s).2 = s := by
  have hmerged := mergeAttribute_merged h b s
  generalize (mergeAttribute h b s).2 = t at hmerged
  cases hmerged with
  | imports himport =>
    rw [hvalue, addImports_eq_self (hs.imports (hname ▸ himport))]
  | conflict himport message hfirst hne =>
    obtain ⟨v, hv, hsame⟩ := hs.first (hname ▸ himport)
    rw [hk, hname, hv] at hfirst
    exact absurd (by rw [← Option.some.inj hfirst, hsame, hvalue]) hne
  | again himport hfirst heq =>
    cases hf : Setting.named? b.name with
    | none =>
      rw [applyAttribute_of_none hf]
      rfl
    | some f =>
      have hsetting : f.put b.value s.page = s.page := hvalue ▸ hs.setting f (hname ▸ hf)
      have hset : (setPage (f.put b.value) s).2 = s :=
        congrArg (fun p => { s with page := p }) hsetting
      have hfname := Setting.name_of_named? hf
      by_cases hbuffer : f = .buffer
      · subst hbuffer
        have hsize := hs.buffer (hname ▸ hfname)
        rw [applyAttribute_of_buffer hfname, setBuffer_eq_setPage (hvalue ▸ hsize), hset]
      · have hf' : f ≠ .dynamicAttributes := by
          rintro rfl
          exact hdynamic hfname
        rw [applyAttribute_of_name hfname hbuffer hf', hset]
  | first himport hnone =>
    obtain ⟨v, hv, -⟩ := hs.first (hname ▸ himport)
    rw [hk, hname, hv] at hnone
    cases hnone

/-- A conflict is among the problems, and no problem is dropped. -/
structure State.HasConflict (s : State σ) : Prop where
  policy : s.problems.policy = .noCap
  conflict : ∃ d ∈ s.problems.entries, d.issue = .directiveConflict

theorem isInvariant_hasConflict (env : Env σ) : IsInvariant env State.HasConflict := by
  refine IsIndifferent.isInvariant ⟨fun s d h => ?_, fun _ _ _ h => ⟨h.1, h.2⟩,
    fun _ _ _ _ h => ⟨h.1, h.2⟩, fun _ _ _ _ h => ⟨h.1, h.2⟩⟩
  obtain ⟨c, hc, hissue⟩ := h.conflict
  refine ⟨?_, c, ?_, hissue⟩ <;> rw [Collector.add_of_noCap h.policy]
  · exact h.policy
  · exact List.mem_append_left _ hc

theorem hasConflict_report {s : State σ} (hcap : s.problems.policy = .noCap) (p : Position)
    (message : Bytes) : (report .directiveConflict p message s).2.HasConflict := by
  refine ⟨?_, ⟨.directiveConflict, p, message⟩, ?_, rfl⟩
  · show (s.problems.add _).policy = _
    rw [Collector.add_of_noCap hcap]
    exact hcap
  · rw [entries_report hcap]
    simp

/-- Another value of an attribute that stands is a conflict, and so is the same name reserved once
more. -/
theorem mergeAttribute_conflict (hcap : s.problems.policy = .noCap) (hs : Stands k a s)
    (hk : h.kind = k) (hname : b.name = a.name) (himport : b.name ≠ "import")
    (hb : b.value ≠ a.value ∨ b.name = "dynamic-attributes") :
    (mergeAttribute h b s).2.HasConflict := by
  obtain ⟨v, hv, hsame⟩ := hs.first (hname ▸ himport)
  have hmerged := mergeAttribute_merged h b s
  generalize (mergeAttribute h b s).2 = t at hmerged
  cases hmerged with
  | imports h => exact absurd h himport
  | conflict _ message hfirst hne => exact hasConflict_report hcap _ _
  | again _ hfirst heq =>
    rw [hk, hname, hv] at hfirst
    have hvalue : b.value = a.value := by rw [← heq, ← Option.some.inj hfirst, hsame]
    have hdynamic := hb.resolve_left (absurd hvalue)
    let t : State σ := { s with page := Setting.dynamicAttributes.put b.value s.page }
    rw [applyAttribute_of_dynamicAttributes hdynamic]
    show (declare b.value b.position t).2.HasConflict
    obtain ⟨first, hfirst⟩ := Option.isSome_iff_exists.mp (hs.declared (hname ▸ hdynamic))
    have hlookup : t.declared.lookup b.value = some first := hvalue ▸ hfirst
    rw [declare_of_lookup_some hlookup]
    exact hasConflict_report (s := t) hcap _ _
  | first _ hnone =>
    rw [hk, hname, hv] at hnone
    cases hnone

end Stands

end ServerPages.Validation
