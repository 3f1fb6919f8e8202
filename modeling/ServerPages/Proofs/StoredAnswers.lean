import ServerPages.Proofs.ExactPlaces
import ServerPages.Service.Handle

/-!
# Answers from the store

The key of a request to compile is the digest of its path, the name of its syntax, the options and
its source, with a zero byte between each two. None of this says where the path ends, so the bytes
may be read in more than one way: where the path of a request contains a zero byte, the rest of the
path may as well be the rest of another request. `Asked.Continues` says when it is, and it is the
only way in which two requests have the same bytes.

A request is answered with the result of its own compilation, or with a result from the store. This
module follows the store through any sequence of requests, whatever operations of it fail: what is
kept under a key was compiled for an earlier request that has the key (`Service.Kept`).

So as far as no two requests have the same digest of different bytes, a request is only ever
answered with its own result or with that of a request whose key is made from the same bytes. That
need not be the same request, as the bytes of requests with zero bytes in their paths may be those
of others (`Asked.Continues`).

## Main results

* `Asked.material_eq_iff`: when two requests have their keys made from the same bytes.
* `Asked.material_injective`: requests whose paths contain no zero byte do not.
* `Asked.extended_continues`: every request that is sent with such a source shares its bytes.
* `Digest.hexText_injective`: a key tells the digest.
* `ArtifactKey.read_hexText`: the keys that the service makes are ones that it takes.
* `Service.kept_after`: where the results in the store come from.
* `Service.answers_after`: what a request may be answered with.
-/

namespace ServerPages

/-! ### Hexadecimal text -/

namespace Digest

theorem hexValue?_hexDigit {n : Nat} (h : n < 16) :
    Bytes.hexValue? (Bytes.hexDigit n) = some n := by
  revert n
  decide

/-- Two digits tell a byte. -/
theorem hex_two_injective {a b : UInt8} (h : Bytes.hex 2 a.toNat = Bytes.hex 2 b.toNat) :
    a = b := by
  have hdigits : Bytes.hexDigit (a.toNat / 16 % 16) = Bytes.hexDigit (b.toNat / 16 % 16) ∧
      Bytes.hexDigit (a.toNat % 16) = Bytes.hexDigit (b.toNat % 16) := by
    simpa [Bytes.hex] using h
  have hvalue : ∀ {m n : Nat}, m < 16 → n < 16 → Bytes.hexDigit m = Bytes.hexDigit n → m = n := by
    intro m n hm hn h
    have := congrArg Bytes.hexValue? h
    rw [hexValue?_hexDigit hm, hexValue?_hexDigit hn] at this
    exact Option.some.inj this
  have hhigh := hvalue (by omega) (by omega) hdigits.1
  have hlow := hvalue (by omega) (by omega) hdigits.2
  have := a.toNat_lt
  have := b.toNat_lt
  exact UInt8.toNat_inj.mp (by omega)

theorem hexText_injective {s t : Bytes} (h : hexText s = hexText t) : s = t := by
  induction s generalizing t with
  | nil =>
    cases t with
    | nil => rfl
    | cons b t => simp [hexText, Bytes.hex] at h
  | cons a s ih =>
    cases t with
    | nil => simp [hexText, Bytes.hex] at h
    | cons b t =>
      obtain ⟨hbyte, hrest⟩ := List.append_inj
        (show Bytes.hex 2 a.toNat ++ hexText s = Bytes.hex 2 b.toNat ++ hexText t from h) rfl
      rw [hex_two_injective hbyte, ih hrest]

end Digest

/-- What a request asks to have compiled: the path it is compiled as, its source and its syntax. -/
structure Asked where
  /-- The path. -/
  path : Bytes
  /-- The source. -/
  source : Bytes
  /-- The syntax. -/
  form : PageSyntax
  deriving DecidableEq, Repr

/-- What parameters in order ask to have compiled; a source without a path gets one. -/
def CompileParams.asked (p : CompileParams) (form : PageSyntax) : Asked :=
  ⟨if p.path == [] then Service.defaultPath else p.path, p.source, form⟩

/-- What a request asks to have compiled, if its parameters are in order. -/
def Request.asked? (r : Request) : Option Asked :=
  if Service.routeOf r = .compile then
    match CompileParams.read r.body with
    | .error _ => none
    | .ok p => (PageSyntax.ofName p.form).toOption.map p.asked
  else none

namespace Asked

variable (o : CompilerOptions)

/-- What the key of a request is made from. -/
def material (q : Asked) : Bytes := ArtifactKey.material q.path q.form.name q.source o

/-- The key of a request. -/
def key (q : Asked) : Bytes := ArtifactKey.ofRequest q.path q.form.name q.source o

/-- The part of the material after the path and a zero byte. -/
def tail (q : Asked) : Bytes := q.form.name ++ 0 :: (o.text ++ 0 :: q.source)

theorem material_eq (q : Asked) : q.material o = q.path ++ 0 :: q.tail o := by
  simp [material, ArtifactKey.material, tail]

theorem sha256_eq_of_key_eq {q q' : Asked} (h : q.key o = q'.key o) :
    Digest.sha256 (q.material o) = Digest.sha256 (q'.material o) := Digest.hexText_injective h

/-- Two ways to part bytes at a zero byte: at the same one, or one of the first parts goes on. -/
theorem append_zero_cases {s t u v : Bytes} (h : s ++ 0 :: u = t ++ 0 :: v) :
    (s = t ∧ u = v) ∨ (∃ rest, t = s ++ 0 :: rest ∧ u = rest ++ 0 :: v) ∨
      ∃ rest, s = t ++ 0 :: rest ∧ v = rest ++ 0 :: u := by
  obtain ⟨rest, ht, hrest⟩ | ⟨rest, hs, hrest⟩ := List.append_eq_append_iff.mp h
  · cases rest with
    | nil => exact .inl ⟨by rw [ht, List.append_nil], (List.cons.inj hrest).2⟩
    | cons b rest =>
      obtain ⟨rfl, hu⟩ := List.cons.inj hrest
      exact .inr (.inl ⟨rest, ht, hu⟩)
  · cases rest with
    | nil => exact .inl ⟨by rw [hs, List.append_nil], (List.cons.inj hrest).2.symm⟩
    | cons b rest =>
      obtain ⟨rfl, hv⟩ := List.cons.inj hrest
      exact .inr (.inr ⟨rest, hs, hv⟩)

/-- First parts without a zero byte are the same. -/
theorem append_zero_inj {s t u v : Bytes} (hs : 0 ∉ s) (ht : 0 ∉ t)
    (h : s ++ 0 :: u = t ++ 0 :: v) : s = t ∧ u = v := by
  obtain h | ⟨rest, rfl, -⟩ | ⟨rest, rfl, -⟩ := append_zero_cases h
  · exact h
  · exact absurd (by simp) ht
  · exact absurd (by simp) hs

theorem zero_notMem_name (form : PageSyntax) : 0 ∉ form.name := by cases form <;> decide

theorem name_injective {form form' : PageSyntax} (h : form.name = form'.name) : form = form' := by
  revert h
  cases form <;> cases form' <;> decide

theorem tail_inj {q q' : Asked} (h : q.tail o = q'.tail o) :
    q.form = q'.form ∧ q.source = q'.source := by
  obtain ⟨hname, hrest⟩ := append_zero_inj (zero_notMem_name _) (zero_notMem_name _) h
  exact ⟨name_injective hname, (List.cons.inj (List.append_cancel_left hrest)).2⟩

/-- The path of `q'` goes on after that of `q`, with a zero byte and a part of what belongs to `q`
after its path. -/
def Continues (q' q : Asked) : Prop :=
  ∃ rest, q'.path = q.path ++ 0 :: rest ∧ q.tail o = rest ++ 0 :: q'.tail o

theorem Continues.material_eq {q q' : Asked} (h : q'.Continues o q) :
    q'.material o = q.material o := by
  obtain ⟨rest, hpath, htail⟩ := h
  rw [Asked.material_eq, Asked.material_eq, hpath, htail, List.append_assoc, List.cons_append]

/-- **Requests that share their bytes.** The keys of two requests are made from the same bytes if
they ask for the same, or if the path of one goes on with what belongs to the other. -/
theorem material_eq_iff (q q' : Asked) :
    q'.material o = q.material o ↔ q' = q ∨ q'.Continues o q ∨ q.Continues o q' := by
  constructor
  · intro h
    rw [material_eq, material_eq] at h
    obtain ⟨hpath, htail⟩ | ⟨rest, hpath, htail⟩ | ⟨rest, hpath, htail⟩ := append_zero_cases h
    · obtain ⟨hform, hsource⟩ := tail_inj o htail
      exact .inl (by cases q; cases q'; simp_all)
    · exact .inr (.inr ⟨rest, hpath, htail⟩)
    · exact .inr (.inl ⟨rest, hpath, htail⟩)
  · rintro (rfl | h | h)
    · rfl
    · exact h.material_eq
    · exact h.material_eq.symm

/-- Requests whose paths contain no zero byte have their keys made from bytes of their own. -/
theorem material_injective {q q' : Asked} (hq : 0 ∉ q.path) (hq' : 0 ∉ q'.path)
    (h : q'.material o = q.material o) : q' = q := by
  obtain h | ⟨rest, hpath, -⟩ | ⟨rest, hpath, -⟩ := (material_eq_iff o q q').mp h
  · exact h
  · exact absurd (by simp [hpath]) hq'
  · exact absurd (by simp [hpath]) hq

/-- Whatever a request asks for, another one with a longer path and the end of its source has its
key made from the same bytes. -/
theorem extended_continues (path source : Bytes) (form : PageSyntax) :
    Continues o ⟨path ++ 0 :: (form.name ++ 0 :: (o.text ++ [0])), source, form⟩
      ⟨path, 0 :: (form.name ++ 0 :: (o.text ++ 0 :: source)), form⟩ :=
  ⟨form.name ++ 0 :: (o.text ++ [0]), rfl, by simp [tail]⟩

end Asked

/-! ### The store -/

namespace Store

theorem mem_save {s : Store} {outages : Outages} {a b : Artifact}
    (h : b ∈ (s.save outages a).artifacts) : b = a ∨ b ∈ s.artifacts := by
  unfold save at h
  split at h
  · exact .inr h
  · exact (List.mem_cons.mp h).imp_right fun h => (List.mem_filter.mp h).1

theorem mem_delete {s t : Store} {outages : Outages} {key : Bytes} {b : Artifact}
    (ht : s.delete outages key = .ok t) (h : b ∈ t.artifacts) : b ∈ s.artifacts := by
  unfold delete at ht
  split at ht
  · cases ht
  split at ht
  · obtain rfl := Except.ok.inj ht
    exact (List.mem_filter.mp h).1
  · cases ht

theorem of_get {s : Store} {outages : Outages} {key : Bytes} {a : Artifact}
    (h : s.get outages key = .ok a) : a ∈ s.artifacts ∧ a.key = key := by
  unfold get at h
  split at h
  · cases h
  split at h
  · next hfind =>
    obtain rfl := Except.ok.inj h
    exact ⟨List.mem_of_find?_eq_some hfind, by simpa using List.find?_some hfind⟩
  · cases h

end Store

namespace Service

variable (s : Service) (c : Circumstances) (r : Request)

/-! ### One request -/

/-- The options that sources are compiled with. -/
abbrev options : CompilerOptions := s.settings.compilerOptions

/-- The compilation of what a request asks for. -/
def compiled (orders : MapOrders) (q : Asked) : Except Failure Compilation :=
  (s.compileSource orders q.path q.source q.form).1

/-- The answer with the result of a compilation of its own. -/
def compiledAnew (orders : MapOrders) (q : Asked) : Response :=
  match s.compiled orders q with
  | .ok result => r.reply 200 (.json (compiledJson (q.key s.options) false result))
  | .error e => compileFailed r e

/-- The answer with a result that was kept. -/
def answeredWith (q : Asked) (result : Compilation) : Response :=
  r.reply 200 (.json (compiledJson (q.key s.options) true result))

/-- The service after a request that is answered with a compilation of its own. -/
def afterCompiling (q : Asked) : Service :=
  let registry := (s.compileSource c.orders q.path q.source q.form).2
  match s.compiled c.orders q with
  | .ok result =>
    { s with registry := registry, store := s.store.save c.toOutages ⟨q.key s.options, result⟩ }
  | .error _ => { s with registry := registry }

/-- What the service does with parameters in order: it asks its store first. -/
theorem compileParams_eq (p : CompileParams) (form : PageSyntax) :
    s.compileParams c r p form =
      match s.store.get c.toOutages ((p.asked form).key s.options) with
      | .ok a => (s.answeredWith r (p.asked form) a.result, s)
      | .error _ => (s.compiledAnew r c.orders (p.asked form),
          s.afterCompiling c (p.asked form)) := by
  unfold compileParams compiledAnew afterCompiling compiled
  simp only [CompileParams.asked]
  cases hc : s.compileSource c.orders (if p.path == [] then defaultPath else p.path) p.source
    form with
  | mk result registry => cases result <;> rfl

theorem handle_of_asked? {q : Asked} (hq : r.asked? = some q) : s.handle c r =
    match s.store.get c.toOutages (q.key s.options) with
    | .ok a => (s.answeredWith r q a.result, s)
    | .error _ => (s.compiledAnew r c.orders q, s.afterCompiling c q) := by
  unfold Request.asked? at hq
  split at hq
  · next hroute =>
    split at hq
    · cases hq
    · next p hp =>
      obtain ⟨form, hform, rfl⟩ := Option.map_eq_some_iff.mp hq
      have hform : PageSyntax.ofName p.form = .ok form := by
        cases h : PageSyntax.ofName p.form <;> simp_all [Except.toOption]
      rw [← compileParams_eq]
      unfold handle compile
      simp only [hroute, hp, hform]
  · cases hq

/-- A request whose parameters are refused changes nothing. -/
theorem compile_of_asked?_none (hroute : routeOf r = .compile) (hr : r.asked? = none) :
    (s.compile c r).2 = s := by
  unfold Request.asked? at hr
  rw [if_pos hroute] at hr
  unfold compile
  split
  · rfl
  · next p hp =>
    rw [hp] at hr
    cases hform : PageSyntax.ofName p.form with
    | error _ => rfl
    | ok form => simp [hform, Except.toOption] at hr

/-- A request that asks for no compilation leaves in the store nothing but what was there. -/
theorem mem_handle_of_asked?_none (hr : r.asked? = none) {a : Artifact}
    (ha : a ∈ (s.handle c r).2.store.artifacts) : a ∈ s.store.artifacts := by
  unfold handle at ha
  split at ha
  case h_3 hroute => rwa [s.compile_of_asked?_none c r hroute hr] at ha
  case h_5 key _ =>
    unfold deleteArtifact at ha
    split at ha
    · exact ha
    · split at ha
      · next h => exact Store.mem_delete h ha
      · exact ha
  all_goals exact ha

/-- What a request leaves in the store: nothing but what was there, and its own result. -/
theorem mem_handle {a : Artifact} (ha : a ∈ (s.handle c r).2.store.artifacts) :
    a ∈ s.store.artifacts ∨
      ∃ q, r.asked? = some q ∧ a.key = q.key s.options ∧ s.compiled c.orders q = .ok a.result := by
  cases hq : r.asked? with
  | none => exact .inl (s.mem_handle_of_asked?_none c r hq ha)
  | some q =>
    rw [handle_of_asked? s c r hq] at ha
    split at ha
    · exact .inl ha
    unfold afterCompiling at ha
    split at ha
    · next result hresult =>
      obtain rfl | ha := Store.mem_save ha
      · exact .inr ⟨q, rfl, rfl, hresult⟩
      · exact .inl ha
    · exact .inl ha

theorem handle_settings : (s.handle c r).2.settings = s.settings := by
  cases hq : r.asked? with
  | some q =>
    rw [handle_of_asked? s c r hq]
    split
    · rfl
    · unfold afterCompiling
      split <;> rfl
  | none =>
    unfold handle
    split
    case h_3 hroute => rw [s.compile_of_asked?_none c r hroute hq]
    case h_5 key _ =>
      unfold deleteArtifact
      repeat' split
      all_goals rfl
    all_goals rfl

/-! ### Sequences of requests -/

/-- The service after requests, in each of which some operations of the store may fail. -/
def after (s : Service) (history : List (Circumstances × Request)) : Service :=
  history.foldl (fun s x => (s.handle x.1 x.2).2) s

theorem after_settings (history : List (Circumstances × Request)) :
    (s.after history).settings = s.settings := by
  induction history generalizing s with
  | nil => rfl
  | cons x history ih => exact (ih _).trans (handle_settings s x.1 x.2)

/-- An artifact is the result of the compilation for a request among those before, under its key. -/
def Kept (s : Service) (history : List (Circumstances × Request)) (a : Artifact) : Prop :=
  ∃ before earlier later q, history = before ++ earlier :: later ∧ earlier.2.asked? = some q ∧
    a.key = q.key s.options ∧ (s.after before).compiled earlier.1.orders q = .ok a.result

theorem Kept.cons {s : Service} {x : Circumstances × Request}
    {history : List (Circumstances × Request)} {a : Artifact}
    (h : (s.handle x.1 x.2).2.Kept history a) : s.Kept (x :: history) a := by
  obtain ⟨before, earlier, later, q, rfl, hq, hkey, hresult⟩ := h
  rw [options, handle_settings] at hkey
  exact ⟨x :: before, earlier, later, q, rfl, hq, hkey, hresult⟩

/-- Whatever is in the store after requests was there before, or was kept for one of them. -/
theorem kept_after (history : List (Circumstances × Request)) {a : Artifact}
    (ha : a ∈ (s.after history).store.artifacts) : a ∈ s.store.artifacts ∨ s.Kept history a := by
  induction history generalizing s with
  | nil => exact .inl ha
  | cons x history ih =>
    obtain ha | ha := ih _ ha
    · obtain ha | ⟨q, hq, hkey, hresult⟩ := mem_handle s x.1 x.2 ha
      · exact .inl ha
      · exact .inr ⟨[], x, history, q, rfl, hq, hkey, hresult⟩
    · exact .inr ha.cons

/-- **What a request is answered with.** The keys of two requests are made from the same bytes if
they ask for the same, or if the path of one goes on with what belongs to the other. After any
requests to a service whose store was empty, a request to compile is answered with a compilation of
its own or with the result of an earlier request whose key is made from the same bytes, as far as
there are no other bytes with the digest among theirs. -/
theorem answers_after (settings : Settings) (files : Option FileTree) (registry : Registry)
    (history : List (Circumstances × Request)) {q : Asked} (hq : r.asked? = some q)
    (hfree : ∀ x ∈ history, ∀ q', x.2.asked? = some q' →
      Digest.sha256 (q'.material settings.compilerOptions) =
        Digest.sha256 (q.material settings.compilerOptions) →
      q'.material settings.compilerOptions = q.material settings.compilerOptions) :
    let o := settings.compilerOptions
    let start : Service := { settings := settings, files := files, registry := registry }
    let answer := ((start.after history).handle c r).1
    (∀ q q' : Asked,
      q'.material o = q.material o ↔ q' = q ∨ q'.Continues o q ∨ q.Continues o q') ∧
    (answer = (start.after history).compiledAnew r c.orders q ∨
      ∃ before earlier later q' result, history = before ++ earlier :: later ∧
        earlier.2.asked? = some q' ∧
        (start.after before).compiled earlier.1.orders q' = .ok result ∧
        answer = start.answeredWith r q result ∧
        (q' = q ∨ q'.Continues o q ∨ q.Continues o q')) := by
  intro o start answer
  refine ⟨Asked.material_eq_iff o, ?_⟩
  have hoptions : (start.after history).options = o := by rw [options, after_settings]
  have hanswer := congrArg Prod.fst (handle_of_asked? (start.after history) c r hq)
  cases hget : (start.after history).store.get c.toOutages
    (q.key (start.after history).options) with
  | error _ =>
    rw [hget] at hanswer
    exact .inl hanswer
  | ok a =>
    rw [hget] at hanswer
    obtain ⟨hmem, hkey⟩ := Store.of_get hget
    obtain ⟨before, earlier, later, q', rfl, hq', hkey', hresult⟩ :=
      (kept_after start history hmem).resolve_left List.not_mem_nil
    rw [hoptions] at hkey
    have hsame := hfree earlier (by simp) q' hq'
      (Asked.sha256_eq_of_key_eq o (hkey'.symm.trans hkey))
    have hwith : answer = start.answeredWith r q a.result :=
      hanswer.trans (by simp only [answeredWith, hoptions]; rfl)
    exact .inr ⟨before, earlier, later, q', a.result, rfl, hq', hresult, hwith,
      (Asked.material_eq_iff o q q').mp hsame⟩

/-- The options of a service with the usual settings. -/
def usualOptions : CompilerOptions := Settings.defaults.compilerOptions

/-- A request to compile the source `x` as a path that goes on after a zero byte. -/
def continuedRequest : Request where
  method := "POST"
  url := { path := "/compile" }
  body := "\x7b\"path\":\"/a\\u0000auto\\u0000\x7bPackage:pages RuntimeImport: " ++
    "PoolTagHandlers:false TextChunkSize:0 PoolLiteralText:false DefaultEncoding:UTF-8 " ++
    "MaxErrors:100 Overflow:2 Binder:<nil>\x7d\\u0000\",\"source\":\"x\"\x7d"

/-- A request to compile, as the path before the zero byte, what the other one has after it. -/
def continuingRequest : Request where
  method := "POST"
  url := { path := "/compile" }
  body := "\x7b\"path\":\"/a\",\"source\":\"\\u0000auto\\u0000\x7bPackage:pages RuntimeImport: " ++
    "PoolTagHandlers:false TextChunkSize:0 PoolLiteralText:false DefaultEncoding:UTF-8 " ++
    "MaxErrors:100 Overflow:2 Binder:<nil>\x7d\\u0000x\"\x7d"

/-- What the one with the long path asks for. -/
def continuedAsked : Asked where
  path := ("/a" : Bytes) ++ 0 :: (PageSyntax.auto.name ++ 0 :: (usualOptions.text ++ [0]))
  source := "x"
  form := .auto

/-- What the one with the long source asks for. -/
def continuingAsked : Asked where
  path := "/a"
  source := 0 :: (PageSyntax.auto.name ++ 0 :: (usualOptions.text ++ 0 :: ("x" : Bytes)))
  form := .auto

theorem asked?_continued : continuedRequest.asked? = some continuedAsked := by decide +kernel

theorem asked?_continuing : continuingRequest.asked? = some continuingAsked := by decide +kernel

theorem answers_after_continued :
    let q := continuingAsked
    let start : Service := { settings := Settings.defaults }
    let history : List (Circumstances × Request) := [({}, continuedRequest)]
    let answer := ((start.after history).handle {} continuingRequest).1
    (∀ q q' : Asked, q'.material usualOptions = q.material usualOptions ↔
      q' = q ∨ q'.Continues usualOptions q ∨ q.Continues usualOptions q') ∧
    (answer = (start.after history).compiledAnew continuingRequest {} q ∨
      ∃ before earlier later q' result, history = before ++ earlier :: later ∧
        earlier.2.asked? = some q' ∧
        (start.after before).compiled earlier.1.orders q' = .ok result ∧
        answer = start.answeredWith continuingRequest q result ∧
        (q' = q ∨ q'.Continues usualOptions q ∨ q.Continues usualOptions q')) := by
  refine answers_after {} continuingRequest Settings.defaults none {} [({}, continuedRequest)]
    asked?_continuing fun x hx q' hq' _ => ?_
  obtain rfl := List.mem_singleton.mp hx
  obtain rfl := Option.some.inj (asked?_continued.symm.trans hq')
  exact (Asked.extended_continues usualOptions "/a" "x" .auto).material_eq

end Service

end ServerPages
