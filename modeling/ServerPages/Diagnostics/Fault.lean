import ServerPages.Diagnostics.Issue
import ServerPages.Expression.Segment
import ServerPages.Source.Position

/-!
# Diagnostics, faults and failures

A diagnostic is a problem at a position of a page. A fault is anything that an operation reports
instead of a result: diagnostics, a bad configuration, a missing file or library. A fault may be
wrapped in a longer text; what it is about is still seen through the wrapping. A failure is a
fault, or a broken invariant of the compiler.
-/

namespace ServerPages

/-- A problem found in a page. -/
structure Diagnostic where
  /-- Its kind. -/
  issue : Issue
  /-- Where it was found. -/
  position : Position
  /-- What it is. -/
  message : Bytes
  deriving DecidableEq, Repr

/-- The message with the position before it, if there is one. -/
def Diagnostic.text (d : Diagnostic) : Bytes :=
  if d.position.isUnset then d.message else d.position.text ++ ": " ++ d.message

/-- What an operation reports instead of a result. -/
inductive Fault where
  /-- A message and no more. -/
  | plain (message : Bytes)
  /-- A file does not exist. -/
  | missingFile (message : Bytes)
  /-- There is no tag library of that name. -/
  | missingLibrary (name : Bytes)
  /-- An expression is refused. -/
  | expression (e : Expression.Error)
  /-- A problem in a page. -/
  | diagnostic (d : Diagnostic)
  /-- All problems found in a page. -/
  | diagnostics (ds : List Diagnostic)
  /-- A bad option or descriptor. -/
  | config (issue : Issue) (message : Bytes)
  /-- A fault with more text before it. -/
  | wrapped (before : Bytes) (cause : Fault)
  deriving Repr

namespace Fault

/-- The message of a list of diagnostics: the first, and how many more there are. -/
def listText : List Diagnostic → Bytes
  | [] => "no errors"
  | [d] => d.text
  | d :: ds => d.text ++ " (and " ++ Bytes.ofNat ds.length ++ " more errors)"

/-- The message of a fault. -/
def text : Fault → Bytes
  | .plain message => message
  | .missingFile message => message
  | .missingLibrary name => "tag library not found: " ++ name
  | .expression e => e.text
  | .diagnostic d => d.text
  | .diagnostics ds => listText ds
  | .config issue message => issue.title ++ ": " ++ message
  | .wrapped before cause => before ++ cause.text

/-- The first diagnostic in a fault. -/
def diagnostic? : Fault → Option Diagnostic
  | .diagnostic d => some d
  | .diagnostics ds => ds.head?
  | .wrapped _ cause => cause.diagnostic?
  | _ => none

/-- The kind of configuration problem in a fault. -/
def configIssue? : Fault → Option Issue
  | .config issue _ => some issue
  | .wrapped _ cause => cause.configIssue?
  | _ => none

/-- The refused expression in a fault. -/
def expression? : Fault → Option Expression.Error
  | .expression e => some e
  | .wrapped _ cause => cause.expression?
  | _ => none

/-- Whether the fault is about a missing tag library. -/
def isMissingLibrary : Fault → Bool
  | .missingLibrary _ => true
  | .wrapped _ cause => cause.isMissingLibrary
  | _ => false

/-- Whether the fault is about a missing file. -/
def isMissingFile : Fault → Bool
  | .missingFile _ => true
  | .wrapped _ cause => cause.isMissingFile
  | _ => false

/-- The diagnostics a client is told about. A fault that holds none is reported as an internal
one without a position. -/
def reported (f : Fault) : List Diagnostic :=
  match f with
  | .diagnostics ds => ds
  | f =>
    match f.diagnostic? with
    | some d => [d]
    | none => [⟨.internal, {}, f.text⟩]

end Fault

/-- How a computation can stop without a result. -/
inductive Failure where
  /-- It reports a fault. -/
  | fault (f : Fault)
  /-- An invariant of the compiler is broken. -/
  | invariant (message : Bytes)
  /-- It cannot go on at all. -/
  | crash
  deriving Repr

namespace Failure

/-- The failure of a broken invariant. -/
def broken (message : Bytes) : Failure := .invariant ("internal error: " ++ message)

end Failure

/-- The fault of a problem at a position. -/
def Fault.at (issue : Issue) (p : Position) (message : Bytes) : Fault :=
  .diagnostic ⟨issue, p, message⟩

/-- The failure of a problem at a position. -/
def Failure.at (issue : Issue) (p : Position) (message : Bytes) : Failure :=
  .fault (.at issue p message)

end ServerPages
