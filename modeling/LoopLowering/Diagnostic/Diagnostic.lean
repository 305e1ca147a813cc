import LoopLowering.Source.Span

namespace LoopLowering

/-!
# Diagnostics

A problem in a method does not stop the passes. It is kept as a diagnostic: a
category, a severity, a text and a position, in the order of discovery.
-/

/-- How serious a diagnostic is. -/
inductive Severity where
  | info
  | warning
  | error
  deriving Repr, DecidableEq

namespace Severity

/-- The name of a severity. -/
def name :
    Severity → String
  | info => "info"
  | warning => "warning"
  | error => "error"

/-- Every severity, once. -/
def all :
    List Severity :=
  [info, warning, error]

/-- The place of a severity on the scale, the most serious last. -/
def rank :
    Severity → Nat
  | info => 0
  | warning => 1
  | error => 2

/-- The more serious of two severities. -/
def max
    (first second : Severity) :
    Severity :=
  if first.rank ≤ second.rank then second else first

end Severity

/-- The category of a diagnostic. -/
inductive Problem where
  | typeMismatch
  | invalidCollection
  | autoboxing
  | unreachable
  | uninitialized
  | finalReassignment
  | nullReference
  | potentialNull
  | undefinedName
  | unknownType
  | duplicateLocal
  | invalidJump
  deriving Repr, DecidableEq

namespace Problem

/-- The code by which reports name a category. -/
def code :
    Problem → String
  | typeMismatch => "type-mismatch"
  | invalidCollection => "invalid-collection"
  | autoboxing => "autoboxing"
  | unreachable => "unreachable"
  | uninitialized => "uninitialized"
  | finalReassignment => "final-reassignment"
  | nullReference => "null-reference"
  | potentialNull => "potential-null"
  | undefinedName => "undefined-name"
  | unknownType => "unknown-type"
  | duplicateLocal => "duplicate-local"
  | invalidJump => "invalid-jump"

/-- Every category, once. -/
def all :
    List Problem :=
  [typeMismatch, invalidCollection, autoboxing, unreachable, uninitialized, finalReassignment,
    nullReference, potentialNull, undefinedName, unknownType, duplicateLocal, invalidJump]

end Problem

/-- A problem found in a method. -/
structure Diagnostic where
  problem : Problem
  severity : Severity
  message : String
  span : Span
  deriving Repr, DecidableEq

/-- The diagnostics of a method, in the order they were found. -/
abbrev Diagnostics := Array Diagnostic

namespace Diagnostics

/-- Whether there is an error among the diagnostics. -/
def hasErrors
    (diagnostics : Diagnostics) :
    Bool :=
  diagnostics.any (fun diagnostic => diagnostic.severity == .error)

/-- The diagnostics of one category. -/
def ofProblem
    (problem : Problem)
    (diagnostics : Diagnostics) :
    Diagnostics :=
  diagnostics.filter (fun diagnostic => diagnostic.problem == problem)

/-- The number of diagnostics of one category. -/
def count
    (problem : Problem)
    (diagnostics : Diagnostics) :
    Nat :=
  (diagnostics.ofProblem problem).size

/-- The most serious severity, if there is any diagnostic. -/
def maxSeverity?
    (diagnostics : Diagnostics) :
    Option Severity :=
  diagnostics.foldl (fun worst diagnostic =>
    match worst with
    | none => some diagnostic.severity
    | some severity => some (severity.max diagnostic.severity)) none

end Diagnostics

end LoopLowering
