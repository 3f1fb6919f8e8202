import ServerPages.Compilation.Session

/-!
# Stores of artifacts

An artifact is the result of a compilation kept under its key. Any operation of a store may fail;
what fails in a given request is told by its outages.
-/

namespace ServerPages

/-- A compilation that was kept. -/
structure Artifact where
  /-- The key it is kept under. -/
  key : Bytes
  /-- The compilation. -/
  result : Compilation

/-- The operations of a store that fail, with the messages they fail with. -/
structure Outages where
  /-- Getting an artifact. -/
  get : Option Bytes := none
  /-- Keeping an artifact. -/
  save : Option Bytes := none
  /-- Removing an artifact. -/
  delete : Option Bytes := none
  deriving DecidableEq, Repr

/-- Why an operation of a store failed. -/
inductive StoreError where
  /-- Nothing is kept under the key. -/
  | notFound
  /-- The store does not work. -/
  | outage (message : Bytes)
  deriving DecidableEq, Repr

/-- The message of an error. -/
def StoreError.text : StoreError → Bytes
  | .notFound => "artifact not found or expired"
  | .outage message => message

/-- A store of artifacts. -/
structure Store where
  /-- The artifacts, the latest first. -/
  artifacts : List Artifact := []
  /-- How often an artifact was to be kept. -/
  saves : Nat := 0

namespace Store

/-- The artifact kept under a key. -/
def find? (s : Store) (key : Bytes) : Option Artifact := s.artifacts.find? (·.key == key)

/-- Gets the artifact kept under a key. -/
def get (s : Store) (outages : Outages) (key : Bytes) : Except StoreError Artifact :=
  match outages.get with
  | some message => .error (.outage message)
  | none =>
    match s.find? key with
    | some a => .ok a
    | none => .error .notFound

/-- The artifacts that are not kept under a key. -/
def without (s : Store) (key : Bytes) : List Artifact := s.artifacts.filter (·.key != key)

/-- The store after an artifact was to be kept. -/
def save (s : Store) (outages : Outages) (a : Artifact) : Store :=
  match outages.save with
  | some _ => { s with saves := s.saves + 1 }
  | none => { artifacts := a :: s.without a.key, saves := s.saves + 1 }

/-- Removes the artifact kept under a key. -/
def delete (s : Store) (outages : Outages) (key : Bytes) : Except StoreError Store :=
  match outages.delete with
  | some message => .error (.outage message)
  | none =>
    match s.find? key with
    | some _ => .ok { s with artifacts := s.without key }
    | none => .error .notFound

end Store

end ServerPages
