import LoopLowering.Diagnostic.Diagnostic

namespace LoopLowering

/-!
# Reports

A diagnostic is reported on one line, with the file and the range it is about.
A failure that stops the compiler is reported by its kind and its cause.
-/

/-- The text of a range. -/
def Span.text
    (span : Span) :
    String :=
  toString span.start ++ ".." ++ toString span.stop

/-- The text of a range in a file. -/
def Span.textIn
    (file : String)
    (span : Span) :
    String :=
  file ++ ":" ++ span.text

/-- The line that reports a diagnostic. -/
def Diagnostic.report
    (file : String)
    (diagnostic : Diagnostic) :
    String :=
  diagnostic.severity.name ++ "[" ++ diagnostic.problem.code ++ "]: " ++ diagnostic.message ++
    " (" ++ diagnostic.span.textIn file ++ ")\n"

/-- A failure that stops the compiler, with the text of its cause. -/
inductive Failure where
  /-- The declarations of a unit are wrong. -/
  | declaration (cause : String) (span : Span)
  | codegen (cause : String)
  /-- A file of options is wrong. -/
  | config (cause : String) (path : String)
  /-- A file with a unit is wrong. -/
  | input (cause : String) (path : String)
  deriving Repr, DecidableEq

namespace Failure

/-- The text of a failure. -/
def message :
    Failure → String
  | .declaration cause _ => "Type error: " ++ cause
  | .codegen cause => "Codegen error: " ++ cause
  | .config cause _ => "Config error: " ++ cause
  | .input cause _ => "Input error: " ++ cause

/-- The lines that report a failure. -/
def report
    (file : String) :
    Failure → String
  | .declaration cause span => "error[type]: " ++ cause ++ " (" ++ span.textIn file ++ ")\n"
  | .codegen cause => "error[codegen]: " ++ cause ++ "\n"
  | .config cause path => "error[config]: " ++ cause ++ "\n  --> " ++ path ++ "\n"
  | .input cause path => "error[input]: " ++ cause ++ "\n  --> " ++ path ++ "\n"

end Failure

end LoopLowering
