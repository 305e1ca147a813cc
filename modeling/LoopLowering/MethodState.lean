import LoopLowering.Diagnostic.Issue

namespace LoopLowering

/-!
# The state of a method

What is known about a method while it is compiled. Every pass takes the state
the pass before it left.
-/

/-- What is known about a method while it is compiled. -/
structure MethodState where
  scope : MethodScope
  checkpoints : Checkpoints
  diagnostics : Diagnostics
  /-- The type variables in scope, with their bounds. -/
  typeVars : NameTable Ty
  returnType : Ty
  /-- Control can fall off the end of the body. -/
  completesNormally : Bool
  deriving Repr

namespace MethodState

/-- The state before the first pass. -/
def initial :
    MethodState where
  scope := .initial
  checkpoints := #[]
  diagnostics := #[]
  typeVars := []
  returnType := .void
  completesNormally := true

/-- Report an issue. -/
def report
    (issue : Issue)
    (span : Span)
    (state : MethodState) :
    MethodState :=
  { state with diagnostics := state.diagnostics.push (issue.diagnostic span) }

/-- Report an issue if something is wrong. -/
def reportIf
    (wrong : Bool)
    (issue : Issue)
    (span : Span)
    (state : MethodState) :
    MethodState :=
  if wrong then state.report issue span else state

/-- Change the locals. -/
def mapScope
    (change : MethodScope → MethodScope)
    (state : MethodState) :
    MethodState :=
  { state with scope := change state.scope }

/-- The local of a number. -/
def localAt
    (state : MethodState)
    (id : LocalId) :
    LocalVariable :=
  state.scope.localAt id

/-- Record a flow state. -/
def addCheckpoint
    (flow : FlowState)
    (state : MethodState) :
    MethodState :=
  { state with checkpoints := state.checkpoints.push flow }

/-- The number the next recorded flow state gets. -/
def nextCheckpoint
    (state : MethodState) :
    CheckpointId :=
  state.checkpoints.size

/-- A flow state that has been recorded. -/
def checkpoint?
    (state : MethodState)
    (id : Option CheckpointId) :
    Option FlowState :=
  id.bind (fun number => state.checkpoints[number]?)

end MethodState

end LoopLowering
