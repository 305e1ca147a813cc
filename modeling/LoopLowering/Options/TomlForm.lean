import LoopLowering.Options.CompilerOptions
import LoopLowering.Toml.Reader

namespace LoopLowering

/-!
# The TOML form of options

Options come in two groups of two. Whatever is left out has its standard value,
and a name that is no option is refused. A group may also be written as the
array of its values in order.
-/

/-- The values of two options, each of which may be left out. -/
structure OptionPair where
  first : Option Toml
  second : Option Toml
  deriving Repr

namespace OptionPair

/-- Two options that are left out. -/
def absent :
    OptionPair :=
  ⟨none, none⟩

/-- The options of two names. -/
def ofMembers?
    (first second : String)
    (members : TomlMembers) :
    Option OptionPair :=
  if members.all (fun member => member.1 == first || member.1 == second) then
    some ⟨List.lookup first members, List.lookup second members⟩
  else
    none

/-- The options of two names, written as a table or as an array. -/
def ofToml?
    (first second : String) :
    Toml → Option OptionPair
  | .table _ members => ofMembers? first second members
  | .array (one :: two :: _) => some ⟨some one, some two⟩
  | _ => none

end OptionPair

namespace Toml

/-- A truth value. -/
def asBool? :
    Toml → Option Bool
  | .bool value => some value
  | _ => none

/-- Whether a value is an empty container. -/
def isEmptyContainer :
    Toml → Bool
  | .table _ [] | .array [] => true
  | _ => false

/-- A name, written as a string or as the only member of a table, with nothing
in it. -/
def asName? :
    Toml → Option String
  | .string name => some name
  | .table _ [(name, value)] => if value.isEmptyContainer then some name else none
  | _ => none

end Toml

/-- The value of an option that may be left out. -/
def readOption
    (standard : α)
    (read : Toml → Option α) :
    Option Toml → Option α
  | some value => read value
  | none => some standard

namespace CompilerOptions

/-- Read the options about what is compiled. -/
def withCompiler
    (written : OptionPair)
    (options : CompilerOptions) :
    Option CompilerOptions := do
  let compliance ←
    readOption options.compliance (fun value => value.asName?.bind Compliance.ofVersion?)
      written.first
  let keepUnused ← readOption options.keepUnusedLocals Toml.asBool? written.second
  return { options with compliance := compliance, keepUnusedLocals := keepUnused }

/-- Read the options about what is reported. -/
def withDiagnostics
    (written : OptionPair)
    (options : CompilerOptions) :
    Option CompilerOptions := do
  let autoboxing ←
    readOption options.autoboxing (fun value => value.asName?.bind ReportLevel.ofName?)
      written.first
  let nullAnalysis ← readOption options.nullAnalysis Toml.asBool? written.second
  return { options with autoboxing := autoboxing, nullAnalysis := nullAnalysis }

/-- Read the options of a TOML text, or nothing if it is no text of options. -/
def ofToml?
    (text : String) :
    Option CompilerOptions := do
  let groups ← OptionPair.ofMembers? "compiler" "diagnostics" (← Toml.ofText? text)
  let compiler ←
    readOption .absent (OptionPair.ofToml? "compliance" "preserve-unused-locals") groups.first
  let diagnostics ←
    readOption .absent (OptionPair.ofToml? "autoboxing" "null-analysis") groups.second
  (← standard.withCompiler compiler).withDiagnostics diagnostics

end CompilerOptions

end LoopLowering
