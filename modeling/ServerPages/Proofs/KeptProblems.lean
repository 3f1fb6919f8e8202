import Mathlib.Data.List.Induction
import ServerPages.Diagnostics.Collector

/-!
# Problems that a collector keeps

A collector starts empty and is given one diagnostic after another. What it holds then can be said
at once (`Collector.holding`): as many of the first ones as there is room for, and what is told of
the others. One more diagnostic changes the collector to what holds of one more (`holding_snoc`), so
that the same is known after any number of them (`foldl_add_eq_holding`).

## Main results

* `Collector.foldl_add_eq_holding`: a collector after any diagnostics.
* `Collector.entries_foldl_addAny`: a collector that has overflowed keeps its entries.
* `Collector.keeps_first`: what is kept under every policy, and what is told of the others.
-/

namespace ServerPages

/-- The entry that a collector makes of a fault. -/
def Fault.entry (f : Fault) : Diagnostic := f.diagnostic?.getD ⟨.internal, {}, f.text⟩

/-- The entries for what some operations report, in order. -/
def entriesOf (faults : List (Option Fault)) : List Diagnostic :=
  faults.reduceOption.map Fault.entry

namespace Collector

theorem empty?_eq_ok_iff {policy : OverflowPolicy} {capacity : Int} {c : Collector} :
    empty? policy capacity = .ok c ↔
      (0 ≤ capacity ∧ capacity ≤ largestCapacity) ∧
        c = { policy := policy, capacity := capacity.toNat } := by
  unfold empty?
  constructor
  · intro h
    split at h
    · cases h
    split at h
    · cases h
    · obtain rfl := Except.ok.inj h
      exact ⟨by omega, rfl⟩
  · rintro ⟨⟨h, h'⟩, rfl⟩
    rw [if_neg (by omega), if_neg (by omega)]

theorem empty?_eq_ok {policy : OverflowPolicy} {capacity : Int} {c : Collector}
    (h : empty? policy capacity = .ok c) : c.policy = policy ∧ c.entries = [] := by
  obtain ⟨-, rfl⟩ := empty?_eq_ok_iff.mp h
  exact ⟨rfl, rfl⟩

theorem empty?_noCap : empty? .noCap 0 = .ok { policy := .noCap, capacity := 0 } := rfl

theorem fault?_eq_none_iff {c : Collector} : c.fault? = none ↔ c.entries = [] := by
  unfold fault?
  cases c.entries <;> simp

/-! ### One more diagnostic -/

section Add

variable {c : Collector}

theorem limit_of_truncate (hc : c.policy = .truncate) : c.limit = c.capacity - 1 := by
  unfold limit
  rw [hc]

theorem limit_of_ne (hc : c.policy ≠ .truncate) : c.limit = c.capacity := by
  unfold limit
  split
  · next h => exact absurd h hc
  · rfl

theorem limit_le_capacity (c : Collector) : c.limit ≤ c.capacity := by
  by_cases hc : c.policy = .truncate
  · exact limit_of_truncate hc ▸ Nat.sub_le _ _
  · exact Nat.le_of_eq (limit_of_ne hc)

/-- The collector when some diagnostics are dropped, the first one at a position. -/
def overflow (c : Collector) (p : Position) (count : Nat) : Collector :=
  if c.policy = .truncate then
    { c with
      entries := c.entries ++ if 0 < c.capacity then [marker p] else []
      overflowed := true, dropped := count, firstDrop := p }
  else { c with overflowed := true, firstDrop := p }

theorem entries_overflow (c : Collector) (p : Position) (count : Nat) :
    (c.overflow p count).entries =
      c.entries ++ if c.policy = .truncate ∧ 0 < c.capacity then [marker p] else [] := by
  by_cases ht : c.policy = .truncate <;> simp [overflow, ht]

theorem add_of_noCap (hc : c.policy = .noCap) (d : Diagnostic) :
    c.add d = { c with entries := c.entries ++ [d] } := by
  rw [add, hc]
  rfl

theorem add_of_lt (hover : c.overflowed = false) (h : c.entries.length < c.limit)
    (d : Diagnostic) : c.add d = { c with entries := c.entries ++ [d] } := by
  simp [add, hover, h]

theorem add_of_le (hc : c.policy ≠ .noCap) (hover : c.overflowed = false)
    (h : c.limit ≤ c.entries.length) (d : Diagnostic) : c.add d = c.overflow d.position 1 := by
  by_cases hroom : 0 < c.capacity <;> simp [add, overflow, hc, hover, Nat.not_lt.mpr h, hroom]

theorem add_overflow (hc : c.policy ≠ .noCap) (p : Position) (count : Nat) (d : Diagnostic) :
    (c.overflow p count).add d = c.overflow p (count + 1) := by
  by_cases ht : c.policy = .truncate <;> simp [add, overflow, hc, ht]

end Add

/-! ### Many diagnostics -/

/-- An empty collector after some diagnostics. Those beyond the limit are dropped. -/
def holding (c : Collector) (ds : List Diagnostic) : Collector :=
  if c.policy = .noCap then { c with entries := ds }
  else match ds.drop c.limit with
  | [] => { c with entries := ds }
  | d :: rest => { c with entries := ds.take c.limit }.overflow d.position (rest.length + 1)

section Holding

variable {c : Collector} {ds : List Diagnostic} {d : Diagnostic}

theorem holding_of_noCap (hc : c.policy = .noCap) : c.holding ds = { c with entries := ds } :=
  if_pos hc

theorem holding_of_le (h : ds.length ≤ c.limit) : c.holding ds = { c with entries := ds } := by
  unfold holding
  rw [List.drop_eq_nil_of_le h]
  exact ite_self _

theorem holding_of_drop (hc : c.policy ≠ .noCap) {rest : List Diagnostic}
    (h : ds.drop c.limit = d :: rest) : c.holding ds =
      { c with entries := ds.take c.limit }.overflow d.position (rest.length + 1) := by
  unfold holding
  rw [if_neg hc, h]

theorem holding_of_lt (hc : c.policy ≠ .noCap) (h : c.limit < ds.length) : c.holding ds =
    { c with entries := ds.take c.limit }.overflow ds[c.limit].position (ds.length - c.limit) := by
  rw [holding_of_drop hc (List.drop_eq_getElem_cons h), List.length_drop]
  congr 1
  omega

/-- One more diagnostic, for a collector that was empty at first. -/
theorem holding_snoc (hover : c.overflowed = false) (ds : List Diagnostic) (d : Diagnostic) :
    c.holding (ds ++ [d]) = (c.holding ds).add d := by
  by_cases hc : c.policy = .noCap
  · rw [holding_of_noCap hc, holding_of_noCap hc]
    exact (add_of_noCap (c := { c with entries := ds }) hc d).symm
  obtain hlt | heq | hgt := Nat.lt_trichotomy ds.length c.limit
  · have hle : (ds ++ [d]).length ≤ c.limit := by
      rw [List.length_append]
      exact hlt
    rw [holding_of_le hle, holding_of_le (Nat.le_of_lt hlt)]
    exact (add_of_lt (c := { c with entries := ds }) hover hlt d).symm
  · -- The first diagnostic that is dropped.
    have hdrop : (ds ++ [d]).drop c.limit = [d] := List.drop_left' heq
    rw [holding_of_drop hc hdrop, List.take_left' heq, holding_of_le (Nat.le_of_eq heq)]
    have hfull : c.limit ≤ ds.length := Nat.le_of_eq heq.symm
    exact (add_of_le (c := { c with entries := ds }) hc hover hfull d).symm
  · have hle := Nat.le_of_lt hgt
    have hlt : c.limit < (ds ++ [d]).length := by
      rw [List.length_append]
      exact Nat.lt_succ_of_lt hgt
    rw [holding_of_lt hc hlt, holding_of_lt hc hgt, List.getElem_append_left hgt,
      List.take_append_of_le_length hle, List.length_append, List.length_singleton,
      Nat.sub_add_comm hle]
    exact (add_overflow (c := { c with entries := ds.take c.limit }) hc _ _ d).symm

end Holding

/-- **What a collector holds** after any diagnostics. -/
theorem foldl_add_eq_holding (policy : OverflowPolicy) (capacity : Nat) (ds : List Diagnostic) :
    ds.foldl add { policy := policy, capacity := capacity } =
      holding { policy := policy, capacity := capacity } ds := by
  induction ds using List.reverseRecOn with
  | nil => exact (holding_of_le (c := { policy := policy, capacity := capacity })
      (Nat.zero_le _)).symm
  | append_singleton ds d ih =>
    rw [List.foldl_append, ih, holding_snoc rfl]
    rfl

/-- Without a cap everything is kept. -/
theorem entries_foldl_add_noCap (capacity : Nat) (ds : List Diagnostic) :
    (ds.foldl add { policy := .noCap, capacity := capacity }).entries = ds := by
  rw [foldl_add_eq_holding, holding_of_noCap rfl]

/-- An empty collector keeps nothing of diagnostics if there are none, or no room for any. -/
theorem foldl_add_eq_nil_iff (policy : OverflowPolicy) (capacity : Nat) (ds : List Diagnostic) :
    (ds.foldl add { policy := policy, capacity := capacity }).entries = [] ↔
      ds = [] ∨ (policy ≠ .noCap ∧ capacity = 0) := by
  rw [foldl_add_eq_holding]
  by_cases hc : policy = .noCap
  · rw [holding_of_noCap hc]
    exact ⟨.inl, fun h => h.resolve_right fun h => h.1 hc⟩
  by_cases hle : ds.length ≤ limit { policy := policy, capacity := capacity }
  · rw [holding_of_le hle]
    refine ⟨.inl, fun h => h.elim id fun ⟨_, hzero⟩ => List.eq_nil_of_length_eq_zero ?_⟩
    have hlimit : limit { policy := policy, capacity := capacity } ≤ capacity :=
      limit_le_capacity _
    exact Nat.le_zero.mp (hzero ▸ Nat.le_trans hle hlimit)
  · have hlt := Nat.not_le.mp hle
    have hne : ds ≠ [] := List.ne_nil_of_length_pos (Nat.zero_lt_of_lt hlt)
    rw [holding_of_lt hc hlt, entries_overflow, List.append_eq_nil_iff, List.take_eq_nil_iff]
    by_cases ht : policy = .truncate
    · simp [limit_of_truncate, ht, hne]
      omega
    · simp [limit_of_ne, hc, ht, hne]

/-! ### What is kept -/

/-- The collector keeps what its policy says of some diagnostics, and tells of the others. -/
structure KeepsFirst (policy : OverflowPolicy) (capacity : Nat) (ds : List Diagnostic)
    (c : Collector) : Prop where
  uncapped : policy = .noCap → c.entries = ds ∧ c.overflowed = false
  dropping : policy ≠ .noCap → policy ≠ .truncate →
    c.entries = ds.take capacity ∧ (c.overflowed = true ↔ capacity < ds.length) ∧
    ∀ d, ds[capacity]? = some d → c.firstDrop = d.position
  complete : policy = .truncate → ds.length < capacity → c.entries = ds ∧ c.overflowed = false
  truncated : policy = .truncate → 0 < capacity → capacity ≤ ds.length →
    ∃ d, ds[capacity - 1]? = some d ∧
      c.entries = ds.take (capacity - 1) ++ [marker d.position] ∧ c.overflowed = true ∧
      capacity - 1 + c.dropped = ds.length ∧ c.firstDrop = d.position
  bounded : policy ≠ .noCap → c.entries.length ≤ capacity

theorem keepsFirst_holding (policy : OverflowPolicy) (capacity : Nat) (ds : List Diagnostic) :
    KeepsFirst policy capacity ds (holding { policy := policy, capacity := capacity } ds) where
  uncapped hc := by
    rw [holding_of_noCap hc]
    exact ⟨rfl, rfl⟩
  dropping hc ht := by
    have hlimit : limit { policy := policy, capacity := capacity } = capacity := limit_of_ne ht
    obtain hle | hlt := Nat.lt_or_ge capacity ds.length |>.symm
    · rw [holding_of_le (hlimit.symm ▸ hle), List.take_of_length_le hle,
        List.getElem?_eq_none hle]
      exact ⟨rfl, iff_of_false Bool.false_ne_true (Nat.not_lt.mpr hle),
        fun _ h => absurd h (Option.some_ne_none _).symm⟩
    · rw [holding_of_lt hc (hlimit.symm ▸ hlt), List.getElem?_eq_getElem hlt]
      simp [overflow, ht, hlimit, hlt]
  complete ht hlt := by
    have hlimit : limit { policy := policy, capacity := capacity } = capacity - 1 :=
      limit_of_truncate ht
    rw [holding_of_le (by omega)]
    exact ⟨rfl, rfl⟩
  truncated ht hroom hle := by
    subst ht
    have hlt : capacity - 1 < ds.length := by omega
    refine ⟨ds[capacity - 1], List.getElem?_eq_getElem hlt, ?_⟩
    rw [holding_of_lt (c := { policy := .truncate, capacity := capacity }) (by simp) hlt]
    simp only [overflow, limit_of_truncate, hroom, if_true, true_and, and_true]
    exact Nat.add_sub_cancel' (Nat.le_of_lt hlt)
  bounded hc := by
    have hlimit : limit { policy := policy, capacity := capacity } ≤ capacity :=
      limit_le_capacity _
    obtain hle | hlt := (Nat.lt_or_ge (limit { policy := policy, capacity := capacity })
      ds.length).symm
    · rw [holding_of_le hle]
      exact Nat.le_trans hle hlimit
    · rw [holding_of_lt hc hlt, entries_overflow, List.length_append, List.length_take]
      split
      · next h =>
        have htruncate := limit_of_truncate (c := { policy := policy, capacity := capacity }) h.1
        simp only [List.length_singleton] at *
        omega
      · simp only [List.length_nil]
        omega

/-! ### Faults -/

/-- An empty collector after what some operations report. -/
def collected (policy : OverflowPolicy) (capacity : Nat) (faults : List (Option Fault)) :
    Collector :=
  faults.foldl addAny { policy := policy, capacity := capacity }

theorem foldl_addAny (faults : List (Option Fault)) (c : Collector) :
    faults.foldl addAny c = (entriesOf faults).foldl add c := by
  induction faults generalizing c with
  | nil => rfl
  | cons f faults ih =>
    cases f with
    | none => exact ih c
    | some f => exact ih (c.add f.entry)

/-- An overflowed collector keeps its entries. -/
theorem foldl_add_overflow {c : Collector} (hc : c.policy ≠ .noCap) (p : Position) (count : Nat)
    (ds : List Diagnostic) :
    ds.foldl add (c.overflow p count) = c.overflow p (count + ds.length) := by
  induction ds generalizing count with
  | nil => rfl
  | cons d ds ih =>
    rw [List.foldl_cons, add_overflow hc, ih, List.length_cons]
    congr 1
    omega

theorem collected_eq_holding (policy : OverflowPolicy) (capacity : Nat)
    (faults : List (Option Fault)) : collected policy capacity faults =
      holding { policy := policy, capacity := capacity } (entriesOf faults) :=
  (foldl_addAny faults _).trans (foldl_add_eq_holding policy capacity _)

/-- An overflowed collector keeps its entries. -/
theorem entries_collected_append {policy : OverflowPolicy} {capacity : Nat}
    {faults : List (Option Fault)} (h : (collected policy capacity faults).overflowed = true)
    (more : List (Option Fault)) : (collected policy capacity (faults ++ more)).entries =
      (collected policy capacity faults).entries := by
  have hc : policy ≠ .noCap := by
    rintro rfl
    rw [collected_eq_holding, holding_of_noCap rfl] at h
    exact Bool.false_ne_true h
  have hlt : limit { policy := policy, capacity := capacity } < (entriesOf faults).length := by
    by_contra hle
    rw [collected_eq_holding, holding_of_le (Nat.not_lt.mp hle)] at h
    exact Bool.false_ne_true h
  rw [collected, List.foldl_append, foldl_addAny more]
  show (List.foldl add (collected policy capacity faults) _).entries = _
  rw [collected_eq_holding, holding_of_lt hc hlt, foldl_add_overflow (by exact hc),
    entries_overflow, entries_overflow]

/-- **A collector keeps an honest beginning.** Whatever some operations report, the collector that
was made for a policy and a capacity, which there must be room for, keeps all faults, or the first
of them, and tells of the others; and once it has overflowed, its entries stay. -/
theorem keeps_first (policy : OverflowPolicy) (capacity : Nat) (faults : List (Option Fault)) :
    (capacity ≤ largestCapacity → empty? policy capacity = .ok (collected policy capacity [])) ∧
    KeepsFirst policy capacity (entriesOf faults) (collected policy capacity faults) ∧
    ((collected policy capacity faults).overflowed = true → ∀ more,
      (collected policy capacity (faults ++ more)).entries =
        (collected policy capacity faults).entries) := by
  refine ⟨fun h => empty?_eq_ok_iff.mpr ⟨⟨Int.natCast_nonneg capacity, h⟩, rfl⟩, ?_,
    entries_collected_append⟩
  rw [collected_eq_holding]
  exact keepsFirst_holding policy capacity _

end Collector

end ServerPages
