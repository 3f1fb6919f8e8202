import ServerPages.Text.Bytes

/-!
# Events

What the compiler reports about its work while it goes on, for a log.
-/

namespace ServerPages

/-- How much an event matters. -/
inductive Level where
  /-- It matters for finding out what happened. -/
  | debug
  /-- It is worth knowing. -/
  | info
  /-- Something did not work, and was done without. -/
  | warning
  /-- Something went wrong. -/
  | error
  deriving DecidableEq, Repr

/-- The name of a level in a log. -/
def Level.name : Level → Bytes
  | .debug => "debug"
  | .info => "info"
  | .warning => "warn"
  | .error => "error"

/-- A detail of an event. -/
inductive Detail where
  /-- A text. -/
  | text (s : Bytes)
  /-- A number. -/
  | number (n : Nat)
  deriving DecidableEq, Repr

/-- An event. -/
structure Event where
  /-- How much it matters. -/
  level : Level
  /-- What happened. -/
  message : Bytes
  /-- The details by name. -/
  details : List (Bytes × Detail) := []
  deriving DecidableEq, Repr

end ServerPages
