import ServerPages.Generation.Unit
import ServerPages.Proofs.Steps

/-!
# Where code generation stops

Generation can stop at a value that has no code. How the failure comes out depends on what stands
around that place: a tag whose handler is open is closed on the way out, a fragment puts the place
back for faults only, and a tag with a method of its own does not put it back at all. A tag that has
to be closed after that finds no open handler, and generation crashes.

The places are listed in the order in which generation comes to them (`stops`), each with the frames
around it, innermost first. `Halts` ties a step to its list: the step succeeds if there is no such
place, and fails as the first one comes out otherwise.

## Main results

* `Stop.crashes_iff`: which stops come out as a crash.
* `Halts.insideTag`, `Halts.asMethod`, `Halts.asFragment`: what a frame does to a failure.
* `body_halts`: nodes are generated, or their first stop comes out.
* `Node.generate_eq`: so it is for whole units.
-/

namespace ServerPages

/-- Whether a failure is a fault. -/
def Failure.isFault : Failure → Bool
  | .fault _ => true
  | _ => false

end ServerPages

namespace ServerPages.Generation

/-! ### Failures on their way out -/

/-- What a failure passes on its way out of the code of a unit. -/
inductive Frame where
  /-- A tag that is open in the current function. -/
  | openTag
  /-- A tag with a method of its own. -/
  | method
  /-- A fragment body. -/
  | fragment
  deriving DecidableEq, Repr

/-- A failure on its way out, and whether the place was lost: then no tag is open any more. -/
structure Unwinding where
  /-- The failure. -/
  failure : Failure
  /-- Whether the place was lost. -/
  lost : Bool := false

/-- What a failure becomes when it passes a frame. -/
def Unwinding.pass (u : Unwinding) : Frame → Unwinding
  | .openTag => if u.lost then ⟨.crash, true⟩ else u
  | .method => ⟨u.failure, true⟩
  | .fragment =>
    match u.failure with
    | .fault f => ⟨.fault f, false⟩
    | e => ⟨e, true⟩

/-- A place at which generation stops. -/
structure Stop where
  /-- The failure that arises there. -/
  failure : Failure
  /-- What stands around it, innermost first. -/
  around : List Frame := []

namespace Stop

/-- How the failure comes out. -/
def outcome (s : Stop) : Unwinding := s.around.foldl Unwinding.pass ⟨s.failure, false⟩

/-- The stop seen from outside another frame. -/
def inside (f : Frame) (s : Stop) : Stop := { s with around := s.around ++ [f] }

theorem outcome_inside (f : Frame) (s : Stop) : (s.inside f).outcome = s.outcome.pass f := by
  rw [outcome, inside, List.foldl_append]
  rfl

end Stop

/-- Whether a frame forgets the place when a failure passes it. -/
def Frame.loses (e : Failure) : Frame → Bool
  | .openTag => false
  | .method => true
  | .fragment => !e.isFault

/-- Whether a frame puts the place back when a failure passes it. -/
def Frame.restores (e : Failure) : Frame → Bool
  | .fragment => e.isFault
  | _ => false

/-- Among some frames, innermost first, there is a tag to close before one that puts the place
back. -/
inductive ClosesTag (e : Failure) : List Frame → Prop where
  | here {fs : List Frame} : ClosesTag e (.openTag :: fs)
  | further {f : Frame} {fs : List Frame} (hf : f.restores e = false) (h : ClosesTag e fs) :
      ClosesTag e (f :: fs)

/-- Among some frames, innermost first, there is one that forgets the place, and then a tag to close
before one that puts it back. -/
inductive LosesTag (e : Failure) : List Frame → Prop where
  | here {f : Frame} {fs : List Frame} (hf : f.loses e = true) (h : ClosesTag e fs) :
      LosesTag e (f :: fs)
  | further {f : Frame} {fs : List Frame} (h : LosesTag e fs) : LosesTag e (f :: fs)

theorem Unwinding.foldl_crash (fs : List Frame) (lost : Bool) :
    (fs.foldl pass ⟨.crash, lost⟩).failure = .crash := by
  induction fs generalizing lost with
  | nil => rfl
  | cons f fs ih =>
    cases f with
    | openTag => cases lost <;> exact ih _
    | method => exact ih _
    | fragment => exact ih _

theorem closesTag_cons {e : Failure} {f : Frame} {fs : List Frame} :
    ClosesTag e (f :: fs) ↔ f = .openTag ∨ f.restores e = false ∧ ClosesTag e fs := by
  constructor
  · rintro (_ | ⟨hf, h⟩)
    · exact Or.inl rfl
    · exact Or.inr ⟨hf, h⟩
  · rintro (rfl | ⟨hf, h⟩)
    · exact .here
    · exact .further hf h

theorem losesTag_cons {e : Failure} {f : Frame} {fs : List Frame} :
    LosesTag e (f :: fs) ↔ f.loses e = true ∧ ClosesTag e fs ∨ LosesTag e fs := by
  constructor
  · rintro (⟨hf, h⟩ | h)
    · exact Or.inl ⟨hf, h⟩
    · exact Or.inr h
  · rintro (⟨hf, h⟩ | h)
    · exact .here hf h
    · exact .further h

/-- How a failure that is no crash comes out of some frames, the place being lost or not. -/
theorem Unwinding.foldl_pass {e : Failure} (he : e ≠ .crash) (fs : List Frame) (lost : Bool) :
    ((lost = true ∧ ClosesTag e fs ∨ LosesTag e fs) →
      (fs.foldl pass ⟨e, lost⟩).failure = .crash) ∧
    (¬(lost = true ∧ ClosesTag e fs ∨ LosesTag e fs) →
      (fs.foldl pass ⟨e, lost⟩).failure = e) := by
  induction fs generalizing lost with
  | nil =>
    refine ⟨?_, fun _ => rfl⟩
    rintro (⟨-, h⟩ | h) <;> cases h
  | cons f fs ih =>
    rw [closesTag_cons, losesTag_cons, List.foldl_cons]
    cases f with
    | openTag =>
      cases lost with
      | true =>
        exact ⟨fun _ => foldl_crash fs true, fun h => absurd (Or.inl ⟨rfl, Or.inl rfl⟩) h⟩
      | false =>
        have ih := ih false
        grind [Frame.loses, pass]
    | method =>
      have ih := ih true
      grind [Frame.loses, Frame.restores, pass]
    | fragment =>
      have hf := ih false
      have ht := ih true
      cases e with
      | fault f => grind [Frame.loses, Frame.restores, Failure.isFault, pass]
      | invariant message => grind [Frame.loses, Frame.restores, Failure.isFault, pass]
      | crash => exact absurd rfl he

namespace Stop

/-- A stop comes out as a crash if it is one, or if the place is forgotten on the way out and not
put back before a tag has to be closed. -/
def Crashes (s : Stop) : Prop := s.failure = .crash ∨ LosesTag s.failure s.around

theorem failure_outcome_of_crashes {s : Stop} (h : s.Crashes) : s.outcome.failure = .crash := by
  by_cases he : s.failure = .crash
  · rw [outcome, he]
    exact Unwinding.foldl_crash _ _
  · exact (Unwinding.foldl_pass he s.around false).1 (Or.inr (h.resolve_left he))

theorem failure_outcome_of_not_crashes {s : Stop} (h : ¬s.Crashes) :
    s.outcome.failure = s.failure := by
  refine (Unwinding.foldl_pass (fun he => h (Or.inl he)) s.around false).2 ?_
  rintro (⟨hlost, -⟩ | hl)
  · cases hlost
  · exact h (Or.inr hl)

end Stop

/-- The handlers that are open after a failure that came out. -/
def Unwinding.handlers (u : Unwinding) (hs : List Bytes) : List Bytes := if u.lost then [] else hs

/-! ### Steps and their stops -/

variable {α β : Type}

/-- Run where lines are indented by `i`, the step fails as the first of the stops comes out. If
there is none it succeeds, and lines are indented by `j`. The same tags are open afterwards. -/
def Halts (i j : Nat) (m : Gen α) (stops : List Stop) : Prop :=
  ∀ s : State, s.place.out.indent = i →
    (stops = [] → ∃ a t, m s = .ok a t ∧ t.place.out.indent = j ∧
      t.place.handlers = s.place.handlers) ∧
    ∀ stop, stops.head? = some stop → ∃ t, m s = .error stop.outcome.failure t ∧
      t.place.handlers = stop.outcome.handlers s.place.handlers

section Rules

variable {i j k : Nat} {xs ys : List Stop}

theorem Halts.bind {x : Gen α} {f : α → Gen β} (hx : Halts i j x xs)
    (hf : ∀ a, Halts j k (f a) ys) : Halts i k (x >>= f) (xs ++ ys) := by
  intro s hs
  cases xs with
  | nil =>
    obtain ⟨a, t, hxt, hi, hh⟩ := (hx s hs).1 rfl
    rw [bind_ok hxt, ← hh]
    exact hf a t hi
  | cons stop xs =>
    refine ⟨fun h => (by cases h), fun stop' h => ?_⟩
    obtain rfl := Option.some.inj h
    obtain ⟨t, hxt, hh⟩ := (hx s hs).2 stop rfl
    exact ⟨t, bind_error hxt, hh⟩

/-- A step that does not stop, before others. -/
theorem Halts.before {x : Gen α} {f : α → Gen β} (hx : Halts i j x [])
    (hf : ∀ a, Halts j k (f a) ys) : Halts i k (x >>= f) ys := hx.bind hf

/-- Steps that do not stop, after another one. -/
theorem Halts.after {x : Gen α} {f : α → Gen β} (hx : Halts i j x xs)
    (hf : ∀ a, Halts j k (f a) []) : Halts i k (x >>= f) xs := by
  have h := hx.bind hf
  rwa [List.append_nil] at h

theorem Halts.pure (a : α) : Halts i i (Pure.pure a : Gen α) [] :=
  fun s hs => ⟨fun _ => ⟨a, s, rfl, hs, rfl⟩, fun _ h => by cases h⟩

theorem Halts.throw (e : Failure) : Halts i j (throw e : Gen α) [⟨e, []⟩] := by
  refine fun s _ => ⟨fun h => (by cases h), fun stop h => ?_⟩
  obtain rfl := Option.some.inj h
  exact ⟨s, rfl, rfl⟩

theorem Halts.throw_bind (e : Failure) (f : α → Gen β) :
    Halts i j (MonadExcept.throw e >>= f) [⟨e, []⟩] := by
  refine fun s _ => ⟨fun h => (by cases h), fun stop h => ?_⟩
  obtain rfl := Option.some.inj h
  exact ⟨s, rfl, rfl⟩

theorem Halts.get {f : State → Gen β} (hf : ∀ s, Halts i j (f s) xs) :
    Halts i j (MonadStateOf.get >>= f) xs :=
  fun s hs => hf s s hs

theorem Halts.modify {f : State → State}
    (hi : ∀ s, (f s).place.out.indent = s.place.out.indent)
    (hh : ∀ s, (f s).place.handlers = s.place.handlers) :
    Halts i i (modify f : Gen PUnit) [] :=
  fun s hs => ⟨fun _ => ⟨⟨⟩, f s, rfl, (hi s).trans hs, hh s⟩, fun _ h => by cases h⟩

theorem Halts.modifyGet {f : State → α × State}
    (hf : ∀ s, (f s).2.place = s.place) : Halts i i (modifyGet f : Gen α) [] := by
  refine fun s hs => ⟨fun _ => ⟨(f s).1, (f s).2, rfl, ?_, ?_⟩, fun _ h => by cases h⟩
  · rw [hf, hs]
  · rw [hf]

theorem Halts.ite {c : Prop} [Decidable c] {x y : Gen α} (hx : c → Halts i j x xs)
    (hy : ¬c → Halts i j y xs) : Halts i j (if c then x else y) xs := by
  split
  · next h => exact hx h
  · next h => exact hy h

/-- Two steps of which each has its own stops. -/
theorem Halts.branch {c : Prop} [Decidable c] {x y : Gen α} (hx : c → Halts i j x xs)
    (hy : ¬c → Halts i j y ys) :
    Halts i j (if c then x else y) (if c then xs else ys) := by
  split
  · next h => exact hx h
  · next h => exact hy h

/-- A step that is taken only under a condition, before others. -/
theorem Halts.guard {c : Prop} [Decidable c] {x : Gen Unit} {f : Unit → Gen β}
    (hx : Halts i i x []) (hf : ∀ a, Halts i j (f a) xs) :
    Halts i j (if c then x >>= f else f ()) xs :=
  Halts.ite (fun _ => hx.before hf) fun _ => hf ()

theorem Halts.forM {l : List α} {f : α → Gen PUnit} {g : α → List Stop}
    (hf : ∀ a ∈ l, Halts i i (f a) (g a)) : Halts i i (l.forM f) (l.flatMap g) := by
  induction l with
  | nil => exact Halts.pure _
  | cons a l ih =>
    exact (hf a List.mem_cons_self).bind fun _ => ih fun b hb => hf b (List.mem_cons_of_mem _ hb)

theorem Halts.forM_nil {l : List α} {f : α → Gen PUnit} (hf : ∀ a, Halts i i (f a) []) :
    Halts i i (l.forM f) [] := by
  have h := Halts.forM (l := l) fun a _ => hf a
  rwa [List.flatMap_eq_nil_iff.mpr fun _ _ => rfl] at h

theorem Halts.mapM_nil {l : List α} {f : α → Gen β} (hf : ∀ a, Halts i i (f a) []) :
    Halts i i (l.mapM f) [] := by
  induction l with
  | nil => exact Halts.pure _
  | cons a l ih =>
    rw [List.mapM_cons]
    exact (hf a).before fun _ => ih.before fun _ => Halts.pure _

/-! ### Lines and blocks -/

theorem halts_emit (s : Bytes) : Halts i i (emit s) [] :=
  Halts.modify (fun _ => rfl) fun _ => rfl

theorem halts_emitAll (ls : List Bytes) : Halts i i (emitAll ls) [] := Halts.forM_nil halts_emit

theorem halts_indent : Halts i (i + 1) indent [] :=
  fun s hs => ⟨fun _ => ⟨(), _, rfl, congrArg (· + 1) hs, rfl⟩, fun _ h => by cases h⟩

theorem halts_openBlock (x : Bytes) : Halts i (i + 1) (openBlock x) [] :=
  fun s hs => ⟨fun _ => ⟨(), _, rfl, congrArg (· + 1) hs, rfl⟩, fun _ h => by cases h⟩

theorem halts_outdent : Halts (i + 1) i outdent [] := by
  refine fun s hs => ⟨fun _ => ?_, fun _ h => by cases h⟩
  have hw : s.place.out.outdented? = some { s.place.out with indent := i } := by
    rw [Writer.outdented?, hs]
  refine ⟨(), { s with place := { s.place with out := { s.place.out with indent := i } } }, ?_,
    rfl, rfl⟩
  rw [outdent, bind_get, hw]
  rfl

theorem halts_closeBlock (x : Bytes) : Halts (i + 1) i (closeBlock x) [] :=
  halts_outdent.before fun _ => halts_emit x

theorem halts_returning (x : Bytes) : Halts i i (returning x) [] :=
  (halts_openBlock x).before fun _ => (halts_emit _).before fun _ => halts_closeBlock _

theorem halts_check (x : Bytes) : Halts i i (check x) [] := halts_returning _

theorem halts_checkErr : Halts i i checkErr [] := halts_returning _

theorem halts_spliceIn (o : Writer) : Halts i i (spliceIn o) [] :=
  Halts.modify (fun _ => rfl) fun _ => rfl

theorem halts_declare (x : Bytes) : Halts i i (declare x) [] :=
  Halts.modify (fun _ => rfl) fun _ => rfl

theorem Halts.marking {m : Gen Unit} (hm : Halts i j m xs) (node : Nat) :
    Halts i j (marking node m) xs := by
  refine Halts.before (Halts.modify ?_ ?_) fun _ => hm.after fun _ => Halts.modify ?_ ?_
  all_goals exact fun _ => rfl

theorem Halts.inBlock {m : Gen Unit} (hm : Halts i j m xs) : Halts i j (inBlock m) xs := by
  refine Halts.before (Halts.modify ?_ ?_) fun _ => hm.after fun _ => Halts.modify ?_ ?_
  all_goals exact fun _ => rfl

theorem halts_parentHandler : Halts i i parentHandler [] := Halts.get fun _ => Halts.pure _

theorem halts_nextNumber : Halts i i nextNumber [] := Halts.modifyGet fun _ => rfl

theorem halts_temporary : Halts i i temporary [] := halts_nextNumber.before fun _ => Halts.pure _

theorem halts_expressionName (x : Bytes) : Halts i i (expressionName x) [] := by
  refine Halts.modifyGet fun s => ?_
  cases s.expressions.findIdx? (· == x) <;> rfl

theorem halts_textConstant (x : Bytes) : Halts i i (textConstant x) [] := by
  refine Halts.modifyGet fun s => ?_
  cases s.texts.findIdx? (· == x) <;> rfl

theorem halts_qualified (package name : Bytes) : Halts i i (qualified package name) [] :=
  Halts.ite (fun _ => Halts.pure _) fun _ =>
    Halts.before (Halts.modifyGet fun _ => rfl) fun _ => Halts.pure _

/-! ### Frames -/

theorem head?_map_inside {f : Frame} {stop : Stop}
    (h : (xs.map (Stop.inside f)).head? = some stop) :
    ∃ x, xs.head? = some x ∧ stop.outcome = x.outcome.pass f := by
  rw [List.head?_map] at h
  obtain ⟨x, hx, rfl⟩ := Option.map_eq_some_iff.mp h
  exact ⟨x, hx, x.outcome_inside f⟩

theorem Halts.insideTag {m : Gen Unit} (hm : Halts i j m xs) (handler : Bytes) :
    Halts i j (insideTag handler m) (xs.map (Stop.inside .openTag)) := by
  intro s hs
  obtain ⟨hok, herr⟩ :=
    hm { s with place := { s.place with handlers := handler :: s.place.handlers } } hs
  constructor
  · intro h
    obtain ⟨a, t, hrun, hi, hh⟩ := hok (List.map_eq_nil_iff.mp h)
    refine ⟨a, { t with place := { t.place with handlers := t.place.handlers.drop 1 } }, ?_, hi, ?_⟩
    · rw [Generation.insideTag, hrun]
      rfl
    · show t.place.handlers.drop 1 = _
      rw [hh]
      rfl
  · intro stop h
    obtain ⟨x, hx, hout⟩ := head?_map_inside h
    obtain ⟨t, hrun, hh⟩ := herr x hx
    rw [hout, Generation.insideTag, hrun, closeTag]
    unfold Unwinding.pass Unwinding.handlers at *
    cases hlost : x.outcome.lost with
    | true =>
      rw [hlost, if_pos rfl] at hh
      exact ⟨t, by rw [hh]; rfl, hh⟩
    | false =>
      rw [hlost, if_neg Bool.false_ne_true] at hh
      refine ⟨{ t with place := { t.place with handlers := s.place.handlers } }, ?_, ?_⟩
      · rw [hh]
        rfl
      · rw [if_neg Bool.false_ne_true, hlost]
        rfl

theorem Halts.asMethod {m : Gen Unit} {out : Writer} (hm : Halts out.indent j m xs) :
    Halts i i (asMethod out m) (xs.map (Stop.inside .method)) := by
  intro s hs
  obtain ⟨hok, herr⟩ := hm { s with place := { out := out, parent := "parent" } } rfl
  constructor
  · intro h
    obtain ⟨a, t, hrun, -, -⟩ := hok (List.map_eq_nil_iff.mp h)
    refine ⟨t.place.out, { t with place := s.place }, ?_, hs, rfl⟩
    rw [Generation.asMethod, bind_get, bind_modify, bind_ok hrun]
    rfl
  · intro stop h
    obtain ⟨x, hx, hout⟩ := head?_map_inside h
    obtain ⟨t, hrun, hh⟩ := herr x hx
    refine ⟨t, ?_, ?_⟩
    · rw [Generation.asMethod, bind_get, bind_modify, bind_error hrun, hout]
      rfl
    · rw [hh, hout]
      exact ite_self _

theorem Halts.asFragment {m : Gen Unit} {out : Writer} (hm : Halts out.indent j m xs) :
    Halts i i (asFragment out m) (xs.map (Stop.inside .fragment)) := by
  intro s hs
  obtain ⟨hok, herr⟩ := hm { s with place := { out := out, parent := "parent" } } rfl
  constructor
  · intro h
    obtain ⟨a, t, hrun, -, -⟩ := hok (List.map_eq_nil_iff.mp h)
    refine ⟨t.place.out, { t with place := s.place }, ?_, hs, rfl⟩
    rw [Generation.asFragment, bind_ok hrun]
    rfl
  · intro stop h
    obtain ⟨x, hx, hout⟩ := head?_map_inside h
    obtain ⟨t, hrun, hh⟩ := herr x hx
    have hlost : t.place.handlers = [] := hh.trans (ite_self _)
    rw [hout, Generation.asFragment, bind_error hrun, Unwinding.pass]
    cases x.outcome.failure with
    | fault f => exact ⟨{ t with place := s.place }, rfl, rfl⟩
    | invariant message => exact ⟨t, rfl, hlost⟩
    | crash => exact ⟨t, rfl, hlost⟩

end Rules

/-! ### The stops of nodes -/

/-- The stops of nested nodes. -/
abbrev BodyStops := List Node → List Stop

/-- The stops of the value of an attribute of a type; `named` is the named attribute that gives
it. -/
def valueStops (inner : BodyStops) (a : Attribute) (named : Option Node) (type : Bytes) :
    List Stop :=
  if a.fragment then (inner (fragmentNodes a named)).map (Stop.inside .fragment)
  else
    match a.kind, named with
    | .literal, _ =>
      match literal type a.value a.position with
      | .ok _ => []
      | .error e => [⟨e, []⟩]
    | .named, some n => inner n.children
    | .named, none => [⟨.crash, []⟩]
    | .unrecognized _, _ => [⟨.broken ("gen: unexpected attribute kind " ++ a.kind.name), []⟩]
    | _, _ => []

/-- The stops of an attribute passed to a handler. -/
def attributeStops (inner : BodyStops) (n : Node) (a : Attribute) : List Stop :=
  let named := a.child.bind (n.children[·]?)
  if a.setter.method == [] then
    [⟨.broken ("gen: attribute " ++ a.name ++ " of " ++ n.head.name ++ " at " ++
      a.position.text ++ " is not bound"), []⟩]
  else if a.kind == .named && named.any (·.head.attrValue "omit" == ("true" : Bytes)) then []
  else valueStops inner a named a.setter.valueType

/-- The frame around the body of a tag. -/
def bodyFrame (d : TagDescriptor) : Frame := if d.isClassic then .openTag else .fragment

/-- The stops of the statements that run a tag. -/
def invocationStops (inner : BodyStops) (d : TagDescriptor) (n : Node) : List Stop :=
  n.head.attributes.flatMap (attributeStops inner n) ++
    if d.body != .empty && !n.hasEmptyBody then (inner n.content).map (Stop.inside (bodyFrame d))
    else []

/-- The stops of an invocation of a tag. -/
def tagStops (inner : BodyStops) (n : Node) : List Stop :=
  match n.head.tag, n.head.tag.bind (·.descriptor) with
  | some t, some d =>
    if isHoistable n.head t then (invocationStops inner d n).map (Stop.inside .method)
    else invocationStops inner d n
  | _, _ => [⟨.broken ("gen: custom tag " ++ n.head.name ++ " at " ++ n.head.start.text ++
      " has no descriptor"), []⟩]

/-- The stops of an attribute of a standard action. -/
def actionValueStops (inner : BodyStops) (n : Node) (name type : Bytes) : List Stop :=
  match n.head.attr? name, n.children.find? (·.givesAttribute name) with
  | some a, _ => valueStops inner a none type
  | none, some c => inner c.children
  | none, none => []

/-- The stops of the parameters among some nodes. -/
def paramStops (inner : BodyStops) (ns : List Node) : List Stop :=
  (ns.filter (·.kind == .param)).flatMap fun n =>
    actionValueStops inner n "name" "string" ++ actionValueStops inner n "value" "string"

/-- The stops of a standard action. -/
def actionStops (page : PageInfo) (inner : BodyStops) (n : Node) : List Stop :=
  match n.kind with
  | .includeAction | .forwardAction =>
    actionValueStops inner n "page" "string" ++ paramStops inner n.children
  | .useBean =>
    (if n.head.attrValue "beanName" != [] then actionValueStops inner n "beanName" "string"
      else []) ++
    if n.hasEmptyBody then [] else inner n.content
  | .getProperty => []
  | .setProperty =>
    if n.head.attrValue "property" == "*" then []
    else if n.head.hasAttr "value" || n.children.any (·.givesAttribute "value") then
      actionValueStops inner n "value" "any"
    else []
  | .plugin =>
    n.head.attributes.flatMap (fun a => valueStops inner a none "string") ++
      (n.children.filter (·.kind == .params)).flatMap fun c => paramStops inner c.children
  | _ =>
    if page.tag.isSome then []
    else [⟨.broken ("gen: " ++ n.kind.name ++ " outside a tag file at " ++ n.start.text), []⟩]

/-- The stops of a node. -/
def visitStops (page : PageInfo) (inner : BodyStops) (n : Node) : List Stop :=
  match n.kind with
  | .root => [⟨.broken ("gen: nested root node at " ++ n.start.text), []⟩]
  | .textAction | .body | .includeDirective => inner n.children
  | .customTag => tagStops inner n
  | .includeAction | .forwardAction | .useBean | .getProperty | .setProperty | .plugin
  | .invokeAction | .doBodyAction => actionStops page inner n
  | _ => []

/-- The stops of nodes that nest no deeper than the first argument. -/
def bodyStops (page : PageInfo) : Nat → BodyStops
  | 0, _ => []
  | depth + 1, ns => ns.flatMap (visitStops page (bodyStops page depth))

end ServerPages.Generation

namespace ServerPages.Node

theorem height_le_heightAll {m : Node} {ns : List Node} (h : m ∈ ns) :
    m.height ≤ heightAll ns := by
  induction h with
  | head ns =>
    rw [heightAll]
    exact Nat.le_max_left _ _
  | tail n _ ih =>
    rw [heightAll]
    exact Nat.le_trans ih (Nat.le_max_right _ _)

theorem height_lt_of_mem_children {m n : Node} (h : m ∈ n.children) : m.height < n.height := by
  obtain ⟨head, cs⟩ := n
  rw [height]
  exact Nat.lt_succ_of_le (height_le_heightAll h)

theorem height_lt_of_mem_content {m n : Node} (h : m ∈ n.content) : m.height < n.height := by
  unfold content contentOf at h
  split at h
  · next b hb =>
      have hmem : b ∈ n.children := List.mem_of_find?_eq_some hb
      exact Nat.lt_trans (height_lt_of_mem_children h) (height_lt_of_mem_children hmem)
  · exact height_lt_of_mem_children (List.mem_filter.mp h).1

end ServerPages.Node

namespace ServerPages.Generation

/-! ### Values -/

/-- Nodes that are printed without looking below them. -/
def isPrinted (n : Node) : Bool :=
  n.kind == .text || n.kind == .expression || n.kind == .elExpression

/-- Nested nodes of less than a height stop as listed. -/
def Inner (height : Nat) (inner : Body) (stops : BodyStops) : Prop :=
  ∀ ns, (∀ m ∈ ns, m.height < height ∨ isPrinted m = true) → ∀ i, Halts i i (inner ns) (stops ns)

section Values

variable {i : Nat} {inner : Body} {stops : BodyStops} {n : Node}

theorem Inner.children {height : Nat} (h : Inner height inner stops) (hn : n.height ≤ height) :
    Halts i i (inner n.children) (stops n.children) :=
  h _ (fun _ hm => Or.inl (Nat.lt_of_lt_of_le (Node.height_lt_of_mem_children hm) hn)) i

theorem Inner.content (h : Inner n.height inner stops) :
    Halts i i (inner n.content) (stops n.content) :=
  h _ (fun _ hm => Or.inl (Node.height_lt_of_mem_content hm)) i

theorem halts_fragment {ns : List Node} (h : ∀ i, Halts i i (inner ns) (stops ns)) :
    Halts i i (fragment inner ns) ((stops ns).map (Stop.inside .fragment)) := by
  refine Halts.get fun s => ?_
  refine Halts.before (Halts.modify (fun _ => rfl) fun _ => rfl) fun _ => ?_
  refine Halts.after (Halts.asFragment (j := 0) ?_) fun w => ?_
  · exact (h _).after fun _ => (halts_emit _).before fun _ =>
      halts_outdent.before fun _ => halts_outdent
  · exact Halts.before (Halts.modify (fun _ => rfl) fun _ => rfl) fun _ => Halts.pure _

theorem halts_capture (h : ∀ i, Halts i i (inner n.children) (stops n.children)) (type : Bytes) :
    Halts i i (capture inner n type) (stops n.children) := by
  refine halts_temporary.before fun v => (halts_openBlock _).before fun _ => ?_
  refine (h _).inBlock.after fun _ => (halts_emit _).before fun _ =>
    (halts_closeBlock _).before fun _ => halts_checkErr.before fun _ => ?_
  refine Halts.ite (fun _ => Halts.pure _) fun _ => halts_temporary.before fun c => ?_
  exact (halts_emit _).before fun _ => halts_checkErr.before fun _ => Halts.pure _

theorem isPrinted_of_mem_fragmentNodes {a : Attribute} {named : Option Node} {m : Node}
    (h : m ∈ fragmentNodes a named) :
    (∃ c, named = some c ∧ m ∈ c.children) ∨ isPrinted m = true := by
  unfold fragmentNodes at h
  split at h
  · next c _ => exact Or.inl ⟨c, rfl, h⟩
  all_goals
    obtain rfl := List.mem_singleton.mp h
    exact Or.inr rfl

theorem halts_valueCode {height : Nat} (h : Inner height inner stops) (handler : Bytes)
    (a : Attribute) {named : Option Node} (hnamed : ∀ c, named = some c → c.height ≤ height)
    (type : Bytes) :
    Halts i i (valueCode inner handler a named type) (valueStops stops a named type) := by
  unfold valueCode valueStops
  split
  · refine Halts.after (halts_fragment (h _ fun m hm => ?_)) fun _ => Halts.pure _
    refine (isPrinted_of_mem_fragmentNodes hm).imp_left ?_
    rintro ⟨c, hc, hmem⟩
    exact Nat.lt_of_lt_of_le (Node.height_lt_of_mem_children hmem) (hnamed c hc)
  · cases a.kind with
    | literal =>
      cases literal type a.value a.position with
      | ok code => exact Halts.pure _
      | error e => exact Halts.throw e
    | script => exact Halts.pure _
    | el =>
      refine halts_temporary.before fun v => (halts_expressionName _).before fun _ => ?_
      exact (halts_emit _).before fun _ => halts_checkErr.before fun _ => Halts.pure _
    | named =>
      cases named with
      | some c => exact halts_capture (fun _ => h.children (hnamed c rfl)) type
      | none => exact Halts.throw _
    | unrecognized code => exact Halts.throw _

/-! ### Tags -/

theorem halts_passAttribute (h : Inner n.height inner stops) (handler : Bytes) (a : Attribute) :
    Halts i i (passAttribute inner handler n a) (attributeStops stops n a) := by
  refine Halts.branch (fun _ => Halts.throw_bind _ _) fun _ => ?_
  refine Halts.branch (fun _ => Halts.pure _) fun _ => ?_
  refine (halts_valueCode h handler a ?_ _).after fun value => ?_
  · intro c hc
    obtain ⟨k, -, hk⟩ := Option.bind_eq_some_iff.mp hc
    exact Nat.le_of_lt (Node.height_lt_of_mem_children (List.mem_of_getElem? hk))
  · exact Halts.ite (fun _ => halts_check _) fun _ => halts_emit _

theorem halts_assignNames (env : Env) (h : Head) (t : CustomTag) (d : TagDescriptor) :
    Halts i i (assignNames env h t d) [] := by
  refine halts_nextNumber.before fun k => Halts.get fun s => Halts.ite (fun _ => ?_) fun _ => ?_
  · refine Halts.before (Halts.modify (fun _ => rfl) fun _ => rfl) fun _ => ?_
    refine (halts_qualified _ _).before fun _ => ?_
    exact Halts.before (Halts.modify (fun _ => rfl) fun _ => rfl) fun _ => Halts.pure _
  · exact Halts.before (Halts.modify (fun _ => rfl) fun _ => rfl) fun _ => Halts.pure _

theorem halts_declareVariables (t : CustomTag) : Halts i i (declareVariables t) [] := by
  refine Halts.before (Halts.mapM_nil fun v => ?_) fun _ => Halts.pure _
  refine Halts.ite (fun _ => Halts.pure _) fun _ => Halts.get fun s => ?_
  refine Halts.ite (fun _ => Halts.ite (fun _ => ?_) fun _ => Halts.pure _) fun _ => ?_
  · refine Halts.ite (fun _ => (halts_emit _).before fun _ => Halts.pure _) fun _ => ?_
    exact (halts_emit _).before fun _ => (halts_declare _).before fun _ => Halts.pure _
  · refine Halts.ite (fun _ => ?_) fun _ => Halts.pure _
    exact (halts_emit _).before fun _ => (halts_emit _).before fun _ =>
      (halts_declare _).before fun _ => Halts.pure _

theorem halts_declareNested (t : CustomTag) : Halts i i (declareNested t) [] := by
  refine Halts.forM_nil fun v => Halts.get fun s => Halts.ite (fun _ => ?_) fun _ => halts_emit _
  exact (halts_emit _).before fun _ => (halts_emit _).before fun _ => halts_declare _

theorem halts_syncVariables (t : CustomTag) (scopes : List VariableScope) :
    Halts i i (syncVariables t scopes) [] :=
  Halts.forM_nil fun _ => halts_emit _

theorem halts_deferred (env : Env) (d : TagDescriptor) (names : HandlerNames) (buffered : Bool) :
    Halts i i (deferred env d names buffered) [] := by
  refine (halts_openBlock _).before fun _ => Halts.ite (fun _ => (halts_openBlock _).before fun _ =>
    (halts_emit _).before fun _ => (halts_closeBlock _).before fun _ => ?_) fun _ => ?_
  -- with or without a buffer, the rest is the same
  all_goals
    refine Halts.ite (fun _ => ?_) fun _ => (halts_emit _).before fun _ => halts_closeBlock _
    exact (halts_openBlock _).before fun _ => (halts_emit _).before fun _ =>
      (halts_closeBlock _).before fun _ => (halts_emit _).before fun _ =>
      (halts_emit _).before fun _ => halts_closeBlock _

theorem halts_bodyRound (h : Inner n.height inner stops) (t : CustomTag) (names : HandlerNames)
    (repeated : Bool) : Halts i i (bodyRound inner t names repeated n) (stops n.content) := by
  refine (halts_declareNested t).before fun _ => (halts_syncVariables t _).before fun _ => ?_
  refine h.content.after fun _ => Halts.ite (fun _ => ?_) fun _ => Halts.pure _
  exact (halts_emit _).before fun _ => halts_checkErr.before fun _ =>
    (halts_openBlock _).before fun _ => (halts_emit _).before fun _ => halts_closeBlock _

theorem halts_classicBody (h : Inner n.height inner stops) (t : CustomTag) (names : HandlerNames)
    (plan : BodyPlan) : Halts i i (classicBody inner t names plan n) (stops n.content) := by
  refine (halts_openBlock _).before fun _ => Halts.after (Halts.inBlock ?_) fun _ =>
    halts_closeBlock _
  refine Halts.ite (fun _ => (halts_openBlock _).before fun _ => (halts_emit _).before fun _ =>
    (halts_emit _).before fun _ => (halts_check _).before fun _ =>
    (halts_closeBlock _).before fun _ => ?_) fun _ => ?_
  all_goals
    refine Halts.ite (fun _ => (halts_openBlock _).before fun _ =>
      (halts_bodyRound h t names true).inBlock.after fun _ =>
      (halts_closeBlock _).before fun _ => ?_)
      fun _ => (halts_bodyRound h t names false).after fun _ => ?_
    all_goals
      refine Halts.ite (fun _ => ?_) fun _ => Halts.pure _
      exact (halts_openBlock _).before fun _ => (halts_emit _).before fun _ =>
        (halts_emit _).before fun _ => halts_closeBlock _

theorem halts_classicCalls (h : Inner n.height inner stops) (t : CustomTag) (names : HandlerNames)
    (plan : BodyPlan) : Halts i i (classicCalls inner t names plan n)
      (if plan.evaluated then stops n.content else []) := by
  refine (halts_emit _).before fun _ => halts_checkErr.before fun _ => ?_
  refine (halts_syncVariables t _).before fun _ => Halts.branch
    (fun _ => (halts_classicBody h t names plan).after fun _ => ?_) fun _ => ?_
  all_goals
    refine (halts_emit _).before fun _ => halts_checkErr.before fun _ => ?_
    refine (halts_syncVariables t _).before fun _ => (halts_openBlock _).before fun _ => ?_
    exact (halts_emit _).before fun _ => (halts_closeBlock _).before fun _ => halts_emit _

theorem halts_classic (env : Env) (h : Inner n.height inner stops) (t : CustomTag)
    {d : TagDescriptor} (hd : d.isClassic = true) (names : HandlerNames) :
    Halts i i (classic env inner t d names n) (invocationStops stops d n) := by
  have hbody : Halts i i (insideTag names.handler (classicCalls inner t names (bodyPlan d n) n))
      (if d.body != .empty && !n.hasEmptyBody then
        (stops n.content).map (Stop.inside (bodyFrame d)) else []) := by
    have hcalls := (halts_classicCalls (i := i) h t names (bodyPlan d n)).insideTag names.handler
    rw [apply_ite (List.map (Stop.inside .openTag)), List.map_nil] at hcalls
    rw [bodyFrame, hd, if_pos rfl]
    exact hcalls
  have hattributes : Halts i i (passAttributes inner names.handler n)
      (n.head.attributes.flatMap (attributeStops stops n)) :=
    Halts.forM fun a _ => halts_passAttribute h _ a
  refine (halts_qualified _ _).before fun type => (halts_emit _).before fun _ => ?_
  refine (halts_emit _).before fun _ => halts_parentHandler.before fun _ => ?_
  refine (halts_emit _).before fun _ => Halts.guard (halts_emit _) fun _ => ?_
  exact (halts_deferred _ _ _ _).before fun _ => hattributes.bind fun _ => hbody

theorem halts_simple (h : Inner n.height inner stops) (t : CustomTag)
    {d : TagDescriptor} (hd : d.isClassic = false) (names : HandlerNames) :
    Halts i i (simple inner t d names n) (invocationStops stops d n) := by
  have hattributes : Halts i i (passAttributes inner names.handler n)
      (n.head.attributes.flatMap (attributeStops stops n)) :=
    Halts.forM fun a _ => halts_passAttribute h _ a
  refine (halts_qualified _ _).before fun type => (halts_emit _).before fun _ => ?_
  refine (halts_emit _).before fun _ => halts_parentHandler.before fun _ => ?_
  refine (halts_emit _).before fun _ => hattributes.bind fun _ => ?_
  rw [bodyFrame, hd, if_neg Bool.false_ne_true]
  refine Halts.branch (fun _ => (halts_fragment fun _ => h.content).after fun _ =>
    (halts_emit _).before fun _ => ?_) fun _ => ?_
  all_goals
    exact (halts_check _).before fun _ => (halts_syncVariables t _).before fun _ => halts_emit _

theorem halts_invocation (env : Env) (h : Inner n.height inner stops) (t : CustomTag)
    (d : TagDescriptor) (names : HandlerNames) :
    Halts i i (invocation env inner t d names n) (invocationStops stops d n) := by
  unfold invocation
  split
  · next hd => exact halts_classic env h t hd names
  · next hd => exact halts_simple h t (Bool.not_eq_true _ ▸ hd) names

theorem halts_hoisted (env : Env) (node : Nat) {run : Gen Unit} {xs : List Stop}
    (hrun : ∀ i, Halts i i run xs) :
    Halts i i (hoisted env node run) (xs.map (Stop.inside .method)) := by
  refine halts_nextNumber.before fun k => halts_parentHandler.before fun _ => ?_
  refine (halts_check _).before fun _ => Halts.after (Halts.asMethod (j := 0) ?_) fun w => ?_
  · refine Halts.marking ((halts_openBlock _).before fun _ => ?_) _
    exact (hrun _).after fun _ => halts_closeBlock _
  · exact Halts.modify (fun _ => rfl) fun _ => rfl

theorem halts_inlined (t : CustomTag) (node : Nat) {run : Gen Unit} {xs : List Stop}
    (hrun : ∀ i, Halts i i run xs) : Halts i i (inlined t node run) xs := by
  refine Halts.marking ((halts_declareVariables t).before fun saved => ?_) _
  refine (halts_openBlock _).before fun _ => (hrun _).inBlock.after fun _ => ?_
  exact halts_outdent.before fun _ => (halts_returning _).before fun _ => halts_emitAll _

theorem halts_customTag (env : Env) (h : Inner n.height inner stops) :
    Halts i i (customTag env inner n) (tagStops stops n) := by
  unfold customTag tagStops
  dsimp only
  cases n.head.tag with
  | none => exact Halts.throw _
  | some t =>
    dsimp only [Option.bind_some]
    cases t.descriptor with
    | none => exact Halts.throw _
    | some d =>
      refine (halts_assignNames env _ t d).before fun names =>
        Halts.branch (fun _ => ?_) fun _ => ?_
      · exact halts_hoisted env _ fun _ => halts_invocation env h t d names
      · exact halts_inlined t _ fun _ => halts_invocation env h t d names

/-! ### Standard actions -/

theorem halts_actionValue {height : Nat} (h : Inner height inner stops) (hn : n.height ≤ height)
    (name type : Bytes) :
    Halts i i (actionValue inner n name type) (actionValueStops stops n name type) := by
  unfold actionValue actionValueStops
  cases n.head.attr? name with
  | some a => exact halts_valueCode h [] a (fun c hc => by cases hc) type
  | none =>
    cases hc : n.children.find? (·.givesAttribute name) with
    | none => exact Halts.pure _
    | some c =>
      have hlt := Node.height_lt_of_mem_children (List.mem_of_find?_eq_some hc)
      refine halts_valueCode h [] _ (fun d hd => ?_) type
      obtain rfl := Option.some.inj hd
      exact Nat.le_of_lt (Nat.lt_of_lt_of_le hlt hn)

theorem halts_paramEntries {height : Nat} (h : Inner height inner stops) {ns : List Node}
    (hns : ∀ m ∈ ns, m.height ≤ height) :
    Halts i i (paramEntries inner ns) (paramStops stops ns) := by
  induction ns with
  | nil => exact Halts.pure _
  | cons m ns ih =>
    have ih := ih fun k hk => hns k (List.mem_cons_of_mem _ hk)
    have hm := hns m List.mem_cons_self
    unfold paramEntries paramStops
    cases hk : m.kind == .param with
    | false =>
      have hne : (m.kind != .param) = true := by rw [bne, hk]; rfl
      rw [if_pos hne, List.filter_cons, hk, if_neg Bool.false_ne_true]
      exact ih
    | true =>
      have hne : ¬(m.kind != .param) = true := by rw [bne, hk]; exact Bool.false_ne_true
      rw [if_neg hne, List.filter_cons, hk, if_pos rfl, List.flatMap_cons, List.append_assoc]
      refine (halts_actionValue h hm _ _).bind fun name => ?_
      refine (halts_actionValue h hm _ _).bind fun value => ?_
      exact ih.after fun _ => Halts.pure _

theorem halts_params {height : Nat} (h : Inner height inner stops) {ns : List Node}
    (hns : ∀ m ∈ ns, m.height ≤ height) : Halts i i (params inner ns) (paramStops stops ns) :=
  (halts_paramEntries h hns).after fun _ => Halts.pure _

theorem halts_useBean (h : Inner n.height inner stops) :
    Halts i i (useBean inner n)
      ((if n.head.attrValue "beanName" != [] then actionValueStops stops n "beanName" "string"
        else []) ++ if n.hasEmptyBody then [] else stops n.content) := by
  refine Halts.bind (j := i) ?_ fun constructor => Halts.get fun s => ?_
  · refine Halts.branch (fun _ => ?_) fun _ => ?_
    · exact (halts_actionValue h (Nat.le_refl _) _ _).after fun _ => Halts.pure _
    · exact Halts.ite (fun _ => Halts.pure _) fun _ => Halts.pure _
  refine Halts.ite (fun _ => (halts_emit _).before fun _ => (halts_emit _).before fun _ =>
    (halts_declare _).before fun _ => ?_) fun _ => ?_
  all_goals
    refine halts_temporary.before fun v => (halts_openBlock _).before fun _ => ?_
    refine (halts_emit _).before fun _ => halts_checkErr.before fun _ => ?_
    refine (halts_emit _).before fun _ => ?_
    cases n.hasEmptyBody with
    | true => exact halts_closeBlock _
    | false =>
      refine (halts_openBlock _).before fun _ => h.content.inBlock.after fun _ => ?_
      exact (halts_closeBlock _).before fun _ => halts_closeBlock _

theorem halts_setProperty (h : Inner n.height inner stops) :
    Halts i i (setProperty inner n)
      (if n.head.attrValue "property" == "*" then []
      else if n.head.hasAttr "value" || n.children.any (·.givesAttribute "value") then
        actionValueStops stops n "value" "any"
      else []) := by
  refine Halts.branch (fun _ => halts_check _) fun _ => Halts.branch (fun _ => ?_) fun _ => ?_
  · exact (halts_actionValue h (Nat.le_refl _) _ _).after fun _ => halts_check _
  · exact halts_check _

theorem halts_pluginEntries {height : Nat} (h : Inner height inner stops) (as : List Attribute) :
    Halts i i (pluginEntries inner as) (as.flatMap fun a => valueStops stops a none "string") := by
  induction as with
  | nil => exact Halts.pure _
  | cons a as ih =>
    refine (halts_valueCode h [] a (fun c hc => by cases hc) _).bind fun v => ?_
    exact ih.after fun _ => Halts.pure _

theorem halts_pluginParams {height : Nat} (h : Inner height inner stops) {ns : List Node}
    (hns : ∀ m ∈ ns, m.height ≤ height) (found : Bytes) :
    Halts i i (pluginParams inner found ns)
      ((ns.filter (·.kind == .params)).flatMap fun c => paramStops stops c.children) := by
  induction ns generalizing found with
  | nil => exact Halts.pure _
  | cons m ns ih =>
    have ih := ih fun k hk => hns k (List.mem_cons_of_mem _ hk)
    have hm := hns m List.mem_cons_self
    unfold pluginParams
    rw [List.filter_cons]
    split
    · refine (halts_params h fun k hk => ?_).bind fun _ => ih _
      exact Nat.le_of_lt (Nat.lt_of_lt_of_le (Node.height_lt_of_mem_children hk) hm)
    · exact ih found

theorem halts_action (env : Env) (h : Inner n.height inner stops) :
    Halts i i (action env inner n) (actionStops env.page stops n) := by
  have hchildren : ∀ m ∈ n.children, m.height ≤ n.height := fun m hm =>
    Nat.le_of_lt (Node.height_lt_of_mem_children hm)
  have hpage := halts_actionValue (i := i) h (Nat.le_refl _) "page" "string"
  have hinvoke : Halts i i (invoke env n) (if env.page.tag.isSome then [] else
      [⟨.broken ("gen: " ++ n.kind.name ++ " outside a tag file at " ++ n.start.text), []⟩]) := by
    unfold invoke
    cases env.page.tag with
    | none => exact Halts.throw _
    | some tag => exact Halts.guard (halts_emit _) fun _ => halts_check _
  refine Halts.marking ?_ _
  unfold actionStops
  cases hk : n.kind with
  | includeAction =>
    exact hpage.bind fun _ => (halts_params h hchildren).after fun _ => halts_check _
  | forwardAction =>
    exact hpage.bind fun _ => (halts_params h hchildren).after fun _ =>
      (halts_check _).before fun _ => halts_emit _
  | useBean => exact halts_useBean h
  | getProperty => exact halts_check _
  | setProperty => exact halts_setProperty h
  | plugin =>
    refine (halts_pluginEntries h _).bind fun entries => ?_
    refine (halts_pluginParams h hchildren _).after fun params => ?_
    refine (halts_openBlock _).before fun _ => (halts_emit _).before fun _ => ?_
    refine (halts_emit _).before fun _ => (halts_emit _).before fun _ => ?_
    exact halts_outdent.before fun _ => halts_returning _
  | _ =>
    rw [hk] at hinvoke
    exact hinvoke

/-! ### Nodes -/

theorem halts_text (env : Env) (node : Nat) (s : Bytes) : Halts i i (text env node s) [] := by
  refine Halts.ite (fun _ => Halts.pure _) fun _ => Halts.marking (Halts.forM_nil fun p => ?_) _
  refine Halts.ite (fun _ => ?_) fun _ => ?_
  · exact (halts_textConstant p).before fun _ => halts_emit _
  · exact Halts.before (Halts.pure _) fun _ => halts_emit _

theorem halts_printed (env : Env) (inner : Body) (hn : isPrinted n = true) (stops : BodyStops) :
    Halts i i (visit env inner n) (visitStops env.page stops n) := by
  unfold visit visitStops
  rw [isPrinted, Bool.or_eq_true, Bool.or_eq_true, beq_iff_eq, beq_iff_eq, beq_iff_eq] at hn
  dsimp only
  rcases hn with (hk | hk) | hk
  · rw [hk, show n.head.kind = _ from hk]
    exact halts_text _ _ _
  · rw [hk, show n.head.kind = _ from hk]
    exact (halts_emit _).marking _
  · rw [hk, show n.head.kind = _ from hk]
    exact Halts.marking ((halts_expressionName _).before fun _ => halts_check _) _

theorem halts_visit (env : Env) (h : Inner n.height inner stops) :
    Halts i i (visit env inner n) (visitStops env.page stops n) := by
  by_cases hp : isPrinted n = true
  · exact halts_printed env inner hp stops
  have hchildren : Halts i i (inner n.children) (stops n.children) := h.children (Nat.le_refl _)
  have haction := halts_action (i := i) env h
  have htag := halts_customTag (i := i) env h
  unfold visit visitStops
  dsimp only
  rw [show n.head.kind = n.kind from rfl]
  cases hk : n.kind with
  | root => exact Halts.throw _
  | textAction | body | includeDirective => exact hchildren
  | customTag => exact htag
  | declaration => exact Halts.modify (fun _ => rfl) fun _ => rfl
  | scriptlet => exact (halts_emitAll _).marking _
  | text | expression | elExpression => exact absurd (by rw [isPrinted, hk]; rfl) hp
  | includeAction | forwardAction | useBean | getProperty | setProperty | plugin | invokeAction
  | doBodyAction => exact haction
  | _ => exact Halts.pure _

end Values

/-- **Nodes are generated, or their first stop comes out.** -/
theorem body_halts (env : Env) (depth : Nat) {ns : List Node}
    (hns : ∀ n ∈ ns, n.height ≤ depth ∨ isPrinted n = true) (i : Nat) :
    Halts i i (body env (depth + 1) ns) (bodyStops env.page (depth + 1) ns) := by
  induction depth generalizing ns i with
  | zero =>
    refine Halts.forM fun n hn => ?_
    rcases hns n hn with hlow | hprinted
    · obtain ⟨h, cs⟩ := n
      rw [Node.height] at hlow
      omega
    · exact halts_printed env _ hprinted _
  | succ depth ih =>
    refine Halts.forM fun n hn => ?_
    rcases hns n hn with hlow | hprinted
    · refine halts_visit env fun ms hms i => ih (fun m hm => (hms m hm).imp_left fun hlt => ?_) i
      omega
    · exact halts_printed env _ hprinted _

/-! ### Units -/

section Units

variable {i : Nat}

theorem halts_block (opening : Bytes) (ls : List Bytes) (closing : Bytes) :
    Halts i i (block opening ls closing) [] :=
  (halts_openBlock _).before fun _ => (halts_emitAll _).before fun _ => halts_closeBlock _

theorem halts_blockThenBlank (opening : Bytes) (ls : List Bytes) (closing : Bytes) :
    Halts i i (do block opening ls closing; blank) [] :=
  (halts_block _ _ _).before fun _ => halts_emit _

theorem halts_writeTexts : Halts i i writeTexts [] :=
  Halts.get fun _ => Halts.ite (fun _ => halts_blockThenBlank _ _ _) fun _ => Halts.pure _

theorem halts_writeFunctions (entries : List Bytes) : Halts i i (writeFunctions entries) [] :=
  Halts.ite (fun _ => halts_blockThenBlank _ _ _) fun _ => Halts.pure _

theorem halts_writeExpressions (env : Env) : Halts i i (writeExpressions env) [] :=
  Halts.get fun _ => Halts.ite (fun _ => halts_blockThenBlank _ _ _) fun _ => Halts.pure _

theorem halts_structType (env : Env) (fields : List Bytes) :
    Halts i i (structType env fields) [] :=
  Halts.get fun _ => Halts.ite (fun _ => halts_emit _) fun _ => halts_block _ _ _

theorem Halts.method {m : Gen Unit} (hm : ∀ i, Halts i i m []) (receiver type signature : Bytes) :
    Halts i i (method receiver type signature m) [] :=
  (halts_openBlock _).before fun _ => (hm _).before fun _ => halts_closeBlock _

theorem halts_pageType (env : Env) : Halts i i (pageType env) [] := by
  refine (halts_emit _).before fun _ => (halts_structType env _).before fun _ => ?_
  refine (halts_emit _).before fun _ => ?_
  refine (Halts.method (fun _ => halts_block _ _ _) _ _ _).before fun _ => ?_
  refine (halts_emit _).before fun _ => (halts_emit _).before fun _ => ?_
  refine Halts.before (Halts.method (fun _ => ?_) _ _ _) fun _ => halts_emit _
  exact (halts_emit _).before fun _ => (halts_returning _).before fun _ => halts_emit _

theorem halts_setterMethod (env : Env) (a : AttributeSignature) :
    Halts i i (setterMethod env a) [] :=
  (Halts.method (fun _ => halts_emit _) _ _ _).before fun _ => halts_emit _

theorem halts_dynamicMethod (env : Env) : Halts i i (dynamicMethod env) [] := by
  refine (halts_emit _).before fun _ => Halts.before (Halts.method (fun _ => ?_) _ _ _) fun _ =>
    halts_emit _
  exact (halts_block _ _ _).before fun _ => (halts_emit _).before fun _ => halts_emit _

theorem halts_syncMethod (env : Env) (tag : TagInfo) (name doc : Bytes)
    (scopes : List VariableScope) : Halts i i (syncMethod env tag name doc scopes) [] :=
  (halts_emit _).before fun _ =>
    (Halts.method (fun _ => halts_emitAll _) _ _ _).before fun _ => halts_emit _

theorem halts_doTagMethod (env : Env) (tag : TagInfo) : Halts i i (doTagMethod env tag) [] := by
  refine (halts_emit _).before fun _ => Halts.before (Halts.method (fun _ => ?_) _ _ _) fun _ =>
    halts_emit _
  refine (halts_emit _).before fun _ => (halts_emit _).before fun _ => ?_
  refine (halts_emitAll _).before fun _ => Halts.guard (halts_emit _) fun _ => ?_
  exact Halts.ite (fun _ => halts_emit _) fun _ => halts_emitAll _

theorem halts_tagFileType (env : Env) (tag : TagInfo) : Halts i i (tagFileType env tag) [] := by
  refine (halts_emit _).before fun _ => (halts_structType env _).before fun _ => ?_
  refine (halts_emit _).before fun _ => (Halts.forM_nil (halts_setterMethod env)).before fun _ => ?_
  refine Halts.guard (halts_dynamicMethod env) fun _ => ?_
  refine (halts_doTagMethod env tag).before fun _ => ?_
  refine Halts.ite (fun _ => ?_) fun _ => Halts.pure _
  exact (halts_syncMethod _ _ _ _ _).before fun _ => halts_syncMethod _ _ _ _ _

theorem halts_fragmentHelper (env : Env) (fragments : Writer) :
    Halts i i (fragmentHelper env fragments) [] := by
  refine (halts_emit _).before fun _ => (halts_block _ _ _).before fun _ => ?_
  refine (halts_emit _).before fun _ => (halts_emit _).before fun _ => ?_
  refine Halts.method (fun _ => Halts.ite (fun _ => ?_) fun _ => halts_emit _) _ _ _
  refine (halts_emit _).before fun _ => (halts_emit _).before fun _ => ?_
  refine (halts_emit _).before fun _ => (halts_spliceIn _).before fun _ => ?_
  exact (halts_emit _).before fun _ => halts_emit _

/-- The render method and what follows it. -/
theorem halts_renderPart (env : Env) (render methods fragments : Writer) (signature : Bytes) :
    Halts i i (do
      method env.receiver env.typeName signature do
        emit "_ = frags"
        spliceIn render
        emit "return nil"
      if !methods.isEmpty then
        blank
        spliceIn methods
      blank
      fragmentHelper env fragments) [] := by
  refine Halts.before (Halts.method (fun _ => ?_) _ _ _) fun _ => ?_
  · exact (halts_emit _).before fun _ => (halts_spliceIn _).before fun _ => halts_emit _
  refine Halts.ite (fun _ => (halts_emit _).before fun _ => (halts_spliceIn _).before fun _ => ?_)
    fun _ => ?_
  all_goals exact (halts_emit _).before fun _ => halts_fragmentHelper _ _

/-- Taking an empty writer to put the file together in. -/
theorem halts_freshWriter :
    Halts i 0 (modify fun s => { s with place := { s.place with out := {} } } : Gen PUnit) [] :=
  fun s _ => ⟨fun _ => ⟨⟨⟩, _, rfl, rfl, rfl⟩, fun _ h => by cases h⟩

theorem halts_assemble (env : Env) : Halts i 0 (assemble env) [] := by
  refine Halts.get fun s => halts_freshWriter.before fun _ => (halts_emit _).before fun _ => ?_
  refine (halts_emit _).before fun _ => (halts_emit _).before fun _ => ?_
  refine (halts_emit _).before fun _ => ?_
  refine Halts.get fun t => (halts_block _ _ _).before fun _ => (halts_emit _).before fun _ => ?_
  refine Halts.ite (fun _ => (halts_spliceIn _).before fun _ => (halts_emit _).before fun _ => ?_)
    fun _ => ?_
  all_goals
    refine halts_writeTexts.before fun _ => (halts_writeFunctions _).before fun _ => ?_
    refine (halts_writeExpressions env).before fun _ => ?_
    cases env.page.tag with
    | some tag =>
      exact (halts_tagFileType env tag).before fun _ => halts_renderPart env _ _ _ _
    | none => exact (halts_pageType env).before fun _ => halts_renderPart env _ _ _ _

theorem halts_unit (env : Env) {depth : Nat} {ns : List Node}
    (hns : ∀ n ∈ ns, n.height ≤ depth) :
    Halts i 0 (unit env (depth + 1) ns) (bodyStops env.page (depth + 1) ns) := by
  have hbody := body_halts env depth (fun n hn => Or.inl (hns n hn)) (i + 1)
  refine halts_indent.before fun _ => hbody.after fun _ => ?_
  exact halts_outdent.before fun _ => halts_assemble env

end Units

end ServerPages.Generation

namespace ServerPages.Node

open Generation

/-- The stops of a unit, in the order in which generation comes to them. -/
def stops (root : Node) : List Stop :=
  match root.head.unit, root.page? with
  | some _, some page =>
    let tree := (root.numbered 1).1
    bodyStops page tree.height tree.children
  | _, _ => [⟨.broken "gen: unit was not validated", []⟩]

/-- **A unit is generated, or its first stop comes out.** -/
theorem generate_eq (options : Options) (root : Node) :
    (root.stops = [] → ∃ code, root.generate options = .ok code) ∧
    ∀ stop, root.stops.head? = some stop →
      root.generate options = .error stop.outcome.failure := by
  have hunvalidated : ∀ {e : Failure}, (([⟨e, []⟩] : List Stop) = [] →
      ∃ code : GeneratedUnit, (.error e : Except Failure GeneratedUnit) = .ok code) ∧
      ∀ stop, ([⟨e, []⟩] : List Stop).head? = some stop →
        (.error e : Except Failure GeneratedUnit) = .error stop.outcome.failure := by
    refine ⟨fun h => (by cases h), fun stop h => ?_⟩
    obtain rfl := Option.some.inj h
    rfl
  unfold stops generate
  cases root.head.unit with
  | none => exact hunvalidated
  | some u =>
    cases root.page? with
    | none => exact hunvalidated
    | some page =>
      dsimp only
      generalize (root.numbered 1).1 = tree
      obtain ⟨h, cs⟩ := tree
      obtain ⟨hok, herr⟩ := halts_unit (i := 0) ⟨options, u.file, page⟩
        (fun n hn => height_le_heightAll hn) (Generation.start ⟨options, u.file, page⟩) rfl
      refine ⟨fun hnil => ?_, fun stop hstop => ?_⟩
      · obtain ⟨a, t, hrun, -, -⟩ := hok hnil
        rw [height, children, hrun]
        exact ⟨_, rfl⟩
      · obtain ⟨t, hrun, -⟩ := herr stop hstop
        rw [height, children, hrun]

/-- The tree with what generation found out says the same of the unit. -/
theorem page?_of_generate {options : Options} {root : Node} {code : GeneratedUnit}
    (h : root.generate options = .ok code) : code.tree.page? = root.page? := by
  unfold generate at h
  split at h
  · dsimp only at h
    split at h
    · cases h
    · obtain rfl := Except.ok.inj h
      obtain ⟨head, cs⟩ := root
      rfl
  · cases h

end ServerPages.Node
