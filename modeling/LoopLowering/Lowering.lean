import LoopLowering.Code.Statements
import LoopLowering.Diagnostic.Report
import LoopLowering.Flow.Statements
import LoopLowering.Locals.Slots
import LoopLowering.Resolution.Statements
import LoopLowering.Types.Declarations

namespace LoopLowering

/-!
# Lowering

A method is resolved, analyzed, given frame slots, and turned into code, in
that order. What is wrong with it is reported as diagnostics, and then a part
that has no code is no failure. A failure on a method without errors is one of
the compiler itself.
-/

/-- A method after lowering. -/
structure LoweredMethod where
  /-- The method with what the passes recorded in it. -/
  method : Method
  code : Option MethodCode
  diagnostics : Diagnostics
  scope : MethodScope

namespace LoweredMethod

/-- The name of the method. -/
def name
    (lowered : LoweredMethod) :
    String :=
  lowered.method.name.node

/-- Whether there is an error among the diagnostics. -/
def hasErrors
    (lowered : LoweredMethod) :
    Bool :=
  lowered.diagnostics.hasErrors

end LoweredMethod

/-- A method that is resolved and analyzed, before it has frame slots. -/
def analyzedMethod
    (table : ClassTable)
    (options : CompilerOptions)
    (method : Method) :
    FlowedMethod :=
  let checked := checkMethod table options method .initial
  analyzeMethod options checked.node checked.state

/-- Lower a method. -/
def lowerMethod
    (table : ClassTable)
    (options : CompilerOptions)
    (method : Method) :
    Except CodegenError LoweredMethod :=
  let analyzed := analyzedMethod table options method
  let state := analyzed.state.mapScope (.assignSlots options.keepUnusedLocals)
  let context : CodeContext := ⟨table, state⟩
  match context.methodCode analyzed.node with
  | .ok code => .ok ⟨analyzed.node, some code, state.diagnostics, state.scope⟩
  | .error cause =>
      if state.diagnostics.hasErrors then
        .ok ⟨analyzed.node, none, state.diagnostics, state.scope⟩
      else
        .error cause

/-- Why a unit cannot be lowered. -/
inductive LoweringError where
  | declaration (cause : DeclarationError)
  | codegen (cause : CodegenError)
  deriving Repr, DecidableEq

/-- The failure that is reported when a unit cannot be lowered. -/
def LoweringError.failure :
    LoweringError → Failure
  | .declaration cause => .declaration cause.message cause.span
  | .codegen cause => .codegen cause.message

/-- Lower methods in order, up to the first one that fails. -/
def lowerMethods
    (table : ClassTable)
    (options : CompilerOptions) :
    List Method → Except LoweringError (List LoweredMethod)
  | [] => .ok []
  | method :: rest => do
      let lowered ← (lowerMethod table options method).mapError .codegen
      let others ← lowerMethods table options rest
      return lowered :: others

/-- Lower every method of a unit against the declarations of the unit. -/
def lowerUnit
    (options : CompilerOptions)
    (unit : CompilationUnit) :
    Except LoweringError (List LoweredMethod) := do
  let table ← (ClassTable.ofUnit unit).mapError .declaration
  lowerMethods table options (unit.methods.map Spanned.node)

end LoopLowering
