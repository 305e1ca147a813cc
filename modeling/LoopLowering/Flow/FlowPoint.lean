import LoopLowering.MethodState
import LoopLowering.Options.CompilerOptions

namespace LoopLowering

/-!
# Points of the flow analysis

Flow analysis carries three things from one program point to the next: the flow
state there, what is known about the method, and the jump targets around the
point. This module holds the checks that are made at a single point.
-/

/-- Where flow analysis stands. -/
structure FlowPoint where
  flow : FlowState
  state : MethodState
  jumps : JumpStack
  deriving Repr

namespace FlowPoint

/-- Change the flow state. -/
def mapFlow
    (change : FlowState → FlowState)
    (point : FlowPoint) :
    FlowPoint :=
  { point with flow := change point.flow }

/-- Report an issue. -/
def report
    (issue : Issue)
    (span : Span)
    (point : FlowPoint) :
    FlowPoint :=
  { point with state := point.state.report issue span }

/-- The name of a local. -/
def nameOf
    (point : FlowPoint)
    (id : LocalId) :
    String :=
  (point.state.localAt id).name

/-- Whether nullness is tracked for a local. -/
def tracksNull
    (options : CompilerOptions)
    (point : FlowPoint)
    (id : LocalId) :
    Bool :=
  options.nullAnalysis && (point.state.localAt id).type.isReference

/-- Report the read of a local that some path has not assigned. -/
def checkRead
    (span : Span)
    (id : LocalId)
    (point : FlowPoint) :
    FlowPoint :=
  if point.flow.isAssigned id then point else point.report (.uninitialized (point.nameOf id)) span

/-- Report the read of the local a name is bound to, if it is bound. -/
def checkReadOf
    (span : Span)
    (binding : Option LocalId)
    (point : FlowPoint) :
    FlowPoint :=
  match binding with
  | some id => point.checkRead span id
  | none => point

/-- Report a second assignment to a final local. A first assignment is deferred
to the loops that may repeat it. -/
def checkFinal
    (span : Span)
    (id : LocalId)
    (point : FlowPoint) :
    FlowPoint :=
  let entry := point.state.localAt id
  if !entry.isFinal || !point.flow.reachable then
    point
  else if point.flow.mayBeAssigned id then
    point.report (.finalReassigned entry.name) span
  else
    { point with jumps := point.jumps.deferFinal point.state.scope id entry.scope span }

/-- Record the assignment of a value of which something may be known. -/
def assign
    (options : CompilerOptions)
    (id : LocalId)
    (status : NullStatus)
    (point : FlowPoint) :
    FlowPoint :=
  let assigned := point.mapFlow (.assign id)
  if point.tracksNull options id then assigned.mapFlow (.setNull id status) else assigned

/-- Report the use of a local as an object according to what is known about it.
Where nothing is known, the judgment is deferred to the innermost loop. -/
def checkNull
    (span : Span)
    (id : LocalId)
    (point : FlowPoint) :
    FlowPoint :=
  match point.flow.nullStatus id with
  | .null => point.report (.nullLocal (point.nameOf id)) span
  | .potentiallyNull => point.report (.potentiallyNullLocal (point.nameOf id)) span
  | .nonNull => point
  | .unknown =>
      { point with
        jumps :=
          point.jumps.deferNull point.state.scope id (point.state.localAt id).scope span }

/-- Check the use of a value as an object. A local is not null afterwards. -/
def checkDereference
    (options : CompilerOptions)
    (value : Expr)
    (point : FlowPoint) :
    FlowPoint :=
  if !options.nullAnalysis || !point.flow.reachable then
    point
  else
    match value with
    | .null span => point.report .nullExpression span
    | .name span ⟨_, some id⟩ =>
        if point.tracksNull options id then
          (point.checkNull span id).mapFlow (.setNull id .nonNull)
        else
          point
    | _ => point

/-- Record a jump, or report that it has no target, and go on at a dead end. -/
def jump
    (span : Span)
    (target : Except JumpError JumpStack)
    (point : FlowPoint) :
    FlowPoint :=
  let recorded :=
    match target with
    | .ok jumps => { point with jumps := jumps }
    | .error cause => point.report (.jumpInvalid cause) span
  { recorded with flow := .deadEnd }

end FlowPoint

/-- What is known about the value of an expression being null. -/
def nullStatusOf
    (flow : FlowState) :
    Expr → NullStatus
  | .null _ => .null
  | .stringLit .. | .newArray .. => .nonNull
  | .name _ ref =>
      match ref.binding with
      | some id => flow.nullStatus id
      | none => .unknown
  | .assign _ _ _ value => nullStatusOf flow value
  | _ => .unknown

end LoopLowering
