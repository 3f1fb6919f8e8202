import ServerPages.Diagnostics.Fault

/-!
# Collecting diagnostics

A collector keeps the diagnostics of a unit in the order in which they were found. Its policy
decides what happens when its capacity is reached: nothing, later diagnostics are dropped, or they
are dropped and counted and a last entry says so.
-/

namespace ServerPages

/-- What happens when the capacity of a collector is reached. -/
inductive OverflowPolicy where
  /-- There is no capacity. -/
  | noCap
  /-- Later diagnostics are dropped. -/
  | drop
  /-- Later diagnostics are dropped and counted, and an entry says so. -/
  | truncate
  /-- A number that names no policy; it drops. -/
  | unrecognized (code : Int)
  deriving DecidableEq, Repr

namespace OverflowPolicy

/-- The policy with a number. -/
def ofCode (code : Int) : OverflowPolicy :=
  if code == 0 then .noCap else if code == 1 then .drop else if code == 2 then .truncate
  else .unrecognized code

/-- The number of a policy. -/
def code : OverflowPolicy → Int
  | .noCap => 0
  | .drop => 1
  | .truncate => 2
  | .unrecognized code => code

end OverflowPolicy

/-- The diagnostics found so far. -/
structure Collector where
  /-- What happens at the capacity. -/
  policy : OverflowPolicy
  /-- How many entries there may be. -/
  capacity : Nat
  /-- The entries, in the order in which they were found. -/
  entries : List Diagnostic := []
  /-- Whether a diagnostic was dropped. -/
  overflowed : Bool := false
  /-- How many were dropped, as far as the policy counts them. -/
  dropped : Nat := 0
  /-- The position of the first one dropped. -/
  firstDrop : Position := {}
  deriving Repr

namespace Collector

/-- The fault of a negative capacity. -/
def negativeCapacity (capacity : Int) : Fault :=
  .config .negativeErrorsCap ("errors cap must be non-negative, got " ++ Bytes.ofInt capacity)

/-- The largest capacity there can be room for: a word for each entry, in addresses of 48 bits. -/
def largestCapacity : Int := 35184372088832

/-- An empty collector. A capacity must not be negative, and nothing provides for one that is larger
than there can be room for. -/
def empty? (policy : OverflowPolicy) (capacity : Int) : Except Failure Collector :=
  if capacity < 0 then .error (.fault (negativeCapacity capacity))
  else if largestCapacity < capacity then .error .crash
  else .ok { policy := policy, capacity := capacity.toNat }

/-- The number of diagnostics kept before the collector overflows. -/
def limit (c : Collector) : Nat :=
  match c.policy with
  | .truncate => c.capacity - 1
  | _ => c.capacity

/-- The entry that says that diagnostics were dropped. -/
def marker (p : Position) : Diagnostic :=
  ⟨.errorsTruncated, p, "too many errors; further errors suppressed"⟩

/-- The collector after one more diagnostic. -/
def add (c : Collector) (d : Diagnostic) : Collector :=
  if c.policy == .noCap then { c with entries := c.entries ++ [d] }
  else if c.overflowed then
    if c.policy == .truncate then { c with dropped := c.dropped + 1 } else c
  else if c.entries.length < c.limit then { c with entries := c.entries ++ [d] }
  else
    let c := { c with overflowed := true, firstDrop := d.position }
    if c.policy == .truncate then
      { c with
        dropped := 1,
        entries := if 0 < c.capacity then c.entries ++ [marker d.position] else c.entries }
    else c

/-- The collector after a fault; one that holds no diagnostic counts as an internal one. -/
def addFault (c : Collector) (f : Fault) : Collector :=
  c.add (f.diagnostic?.getD ⟨.internal, {}, f.text⟩)

/-- The collector after what an operation reports, if it reports a fault at all. -/
def addAny (c : Collector) : Option Fault → Collector
  | none => c
  | some f => c.addFault f

/-- The fault of everything collected, if there is anything. -/
def fault? (c : Collector) : Option Fault :=
  if c.entries.isEmpty then none else some (.diagnostics c.entries)

end Collector

end ServerPages
