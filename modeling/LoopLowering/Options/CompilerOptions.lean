import LoopLowering.Diagnostic.Diagnostic

namespace LoopLowering

/-!
# Compiler options

What a user can choose: the compliance level, whether unused locals are kept,
how loudly boxing is reported, and whether nullness is analyzed.
-/

/-- A source compliance level, the oldest first. -/
inductive Compliance where
  | v1_3
  | v1_4
  | v1_5
  | v1_6
  | v1_7
  | v1_8
  deriving Repr, DecidableEq

namespace Compliance

/-- The version number of a level. -/
def version :
    Compliance → String
  | v1_3 => "1.3"
  | v1_4 => "1.4"
  | v1_5 => "1.5"
  | v1_6 => "1.6"
  | v1_7 => "1.7"
  | v1_8 => "1.8"

/-- Every level, the oldest first. -/
def all :
    List Compliance :=
  [v1_3, v1_4, v1_5, v1_6, v1_7, v1_8]

/-- The level of a version number. -/
def ofVersion?
    (version : String) :
    Option Compliance :=
  all.find? (fun level => level.version == version)

/-- The oldest level does not analyze the flow through an empty block. -/
def analyzesEmptyBlocks :
    Compliance → Bool
  | v1_3 => false
  | _ => true

end Compliance

/-- How loudly an optional diagnostic is reported. -/
inductive ReportLevel where
  | info
  | warning
  deriving Repr, DecidableEq

namespace ReportLevel

/-- The name of a level. -/
def name :
    ReportLevel → String
  | info => "info"
  | warning => "warning"

/-- The level of a name. -/
def ofName? :
    String → Option ReportLevel
  | "info" => some info
  | "warning" => some warning
  | _ => none

/-- The severity of a diagnostic reported at a level. -/
def severity :
    ReportLevel → Severity
  | info => .info
  | warning => .warning

end ReportLevel

/-- What a user can choose. -/
structure CompilerOptions where
  compliance : Compliance
  /-- Give every source local a slot, read or not. -/
  keepUnusedLocals : Bool
  autoboxing : ReportLevel
  nullAnalysis : Bool
  deriving Repr, DecidableEq

namespace CompilerOptions

/-- The options of a user who chooses nothing. -/
def standard :
    CompilerOptions where
  compliance := .v1_5
  keepUnusedLocals := false
  autoboxing := .info
  nullAnalysis := true

end CompilerOptions

end LoopLowering
