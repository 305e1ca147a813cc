import LoopLowering.Code.Expressions
import LoopLowering.Code.JumpTarget

namespace LoopLowering

/-!
# Code of loops

A loop that may come back for another element is entered by a branch to its
test, which stands at the bottom and branches back. A loop that never comes
back tests once, before its body. A loop over an array that does nothing with
its elements only evaluates the array.
-/

/-- What is needed to generate the code of a loop. -/
structure LoopPlan where
  resolution : LoopResolution
  element : LocalId
  /-- The position of the element's name, to which the tests belong. -/
  elementSpan : Span
  /-- The block scope of the loop. -/
  scope : ScopeId
  /-- The block scope around the loop. -/
  outer : ScopeId
  hasEmptyAction : Bool
  continues : Bool
  /-- The flow state in which the body is entered. -/
  entered : Option FlowState
  /-- The flow state after the loop. -/
  left : Option FlowState

/-- The branch targets of a loop. -/
structure LoopLabels where
  action : Label
  test : Label
  exit : Label
  /-- Only a loop that comes back has a place to continue at. -/
  next : Option Label

namespace LoopLabels

/-- The branch targets of a loop that are made next. -/
def made
    (continues : Bool)
    (code : CodeStream) :
    LoopLabels × CodeStream :=
  let first := code.nextLabel
  let three := code.addLabel.addLabel.addLabel
  if continues then
    (⟨first, first + 1, first + 2, some (first + 3)⟩, three.addLabel)
  else
    (⟨first, first + 1, first + 2, none⟩, three)

end LoopLabels

namespace CodeContext

/-- A call of a method of the iterator. -/
def iteratorCall
    (context : CodeContext)
    (name : String)
    (returnType : Ty) :
    Instruction :=
  .invoke .interface
    ⟨context.table.internalName "Iterator", name,
      context.table.methodDescriptor ⟨[], returnType⟩⟩

/-- Ask an iterator for another element and branch on the answer. -/
def testIterator
    (context : CodeContext)
    (iterator : LocalId)
    (condition : Condition)
    (label : Label)
    (code : CodeStream) :
    Except CodegenError CodeStream := do
  let loaded ← code.load context.scope iterator
  return (loaded.emit (context.iteratorCall "hasNext" .boolean)).emit (.branchIf condition label)

/-- Keep the collection on the stack in the locals of the loop. A loop over an
array that tests at the top leaves the array on the stack for the test. -/
def startLoop
    (context : CodeContext)
    (plan : LoopPlan)
    (code : CodeStream) :
    Except CodegenError CodeStream := do
  match plan.resolution.strategy with
  | .array index bound source =>
      let stored ← code.store context.scope source true
      if plan.continues then
        let bounded ← (stored.emit .arrayLength).store context.scope bound false
        (bounded.emit (.intConst 0)).store context.scope index false
      else
        return stored
  | .rawIterable iterator receiver | .genericIterable iterator receiver =>
      let call := Instruction.invoke (context.invokeKind receiver)
        ⟨context.table.referenceName receiver, "iterator",
          context.table.methodDescriptor ⟨[], .named "Iterator"⟩⟩
      (code.emit call).store context.scope iterator false

/-- Test before the body of a loop that never comes back. -/
def testAtTop
    (context : CodeContext)
    (plan : LoopPlan)
    (labels : LoopLabels)
    (code : CodeStream) :
    Except CodegenError CodeStream := do
  let placed := code.place labels.test
  let tested ←
    match plan.resolution.strategy with
    | .array .. => pure ((placed.emit .arrayLength).emit (.branchIf .eq labels.exit))
    | .rawIterable iterator _ | .genericIterable iterator _ =>
        context.testIterator iterator .eq labels.exit placed
  return tested.markSource placed.position plan.elementSpan

/-- Enter a loop: by its test, wherever that stands. -/
def enterLoop
    (context : CodeContext)
    (plan : LoopPlan)
    (labels : LoopLabels)
    (code : CodeStream) :
    Except CodegenError CodeStream :=
  match labels.next with
  | some _ => .ok (code.emit (.goto labels.test))
  | none => context.testAtTop plan labels code

/-- Fetch an array element. A loop that never comes back may have no index. -/
def fetchIndexed
    (context : CodeContext)
    (plan : LoopPlan)
    (index source : LocalId)
    (code : CodeStream) :
    Except CodegenError CodeStream := do
  let loaded ← code.load context.scope source
  let indexed ←
    if context.hasSlot index then loaded.load context.scope index
    else pure (loaded.emit (.intConst 0))
  let fetched := indexed.emit (.arrayLoad (.ofTy plan.resolution.elementType))
  return fetched.convertElement context.table plan.resolution.conversion

/-- Fetch an element from an iterator and cast it to what the loop variable
needs. -/
def fetchIterated
    (context : CodeContext)
    (plan : LoopPlan)
    (iterator : LocalId)
    (code : CodeStream) :
    Except CodegenError CodeStream := do
  let loaded ← code.load context.scope iterator
  let fetched := loaded.emit (context.iteratorCall "next" .object)
  let declared := (context.localAt plan.element).type
  return (
    if declared.isObject then
      fetched
    else if plan.resolution.conversion = .none then
      fetched.emit (.checkCast (context.table.referenceName declared))
    else
      (fetched.emit (.checkCast (context.table.referenceName plan.resolution.elementType)))
        |>.convertElement context.table plan.resolution.conversion)

/-- Bind the loop variable to the value on the stack. Locals that are assigned
when the body is entered have their value from here on. -/
def bindElement
    (context : CodeContext)
    (plan : LoopPlan)
    (code : CodeStream) :
    Except CodegenError CodeStream := do
  let stored ← code.store context.scope plan.element false
  return (
    match plan.entered with
    | some flow => stored.openAssigned context.scope plan.scope flow
    | none => stored)

/-- Fetch an element into the loop variable. If the variable does not exist in
the code, an iterator is still moved on. -/
def fetchElement
    (context : CodeContext)
    (plan : LoopPlan)
    (code : CodeStream) :
    Except CodegenError CodeStream := do
  match plan.resolution.strategy with
  | .array index _ source =>
      if context.hasSlot plan.element then
        let fetched ← context.fetchIndexed plan index source code
        context.bindElement plan fetched
      else
        return code
  | .rawIterable iterator _ | .genericIterable iterator _ =>
      let fetched ← context.fetchIterated plan iterator code
      if context.hasSlot plan.element then
        context.bindElement plan fetched
      else
        return fetched.emit .pop

/-- End the range of the loop variable and of what only the body assigned. -/
def closeBody
    (context : CodeContext)
    (plan : LoopPlan)
    (code : CodeStream) :
    CodeStream :=
  let closed := code.closeLocal plan.element
  match plan.entered with
  | some flow => closed.closeUnassigned context.scope plan.outer flow
  | none => closed

/-- Come back for another element: move on, test, and branch to the body. -/
def testAtBottom
    (context : CodeContext)
    (plan : LoopPlan)
    (labels : LoopLabels)
    (next : Label)
    (code : CodeStream) :
    Except CodegenError CodeStream := do
  let placed := code.place next
  let tested ←
    match plan.resolution.strategy with
    | .array index bound _ => do
        let moved ←
          if !plan.hasEmptyAction || context.hasSlot plan.element then
            placed.increment context.scope index 1
          else
            pure placed
        let indexed ← (moved.place labels.test).load context.scope index
        let bounded ← indexed.load context.scope bound
        pure (bounded.emit (.branchIfInts .lt labels.action))
    | .rawIterable iterator _ | .genericIterable iterator _ =>
        context.testIterator iterator .ne labels.action (placed.place labels.test)
  return tested.markSource placed.position plan.elementSpan

/-- Set the open ranges to what is assigned after a loop. -/
def settleRanges
    (context : CodeContext)
    (plan : LoopPlan)
    (code : CodeStream) :
    CodeStream :=
  match plan.left with
  | some flow =>
      let closed := code.closeUnassigned context.scope plan.outer flow
      closed.openAssigned context.scope plan.outer flow
  | none => code

/-- Only evaluate the collection of a loop that does nothing. -/
def pushEffects
    (context : CodeContext)
    (plan : LoopPlan)
    (collection : Expr)
    (code : CodeStream) :
    Except CodegenError CodeStream := do
  let ran ← context.pushExpr collection false code
  return context.settleRanges plan (ran.exitScope context.scope plan.scope)

/-- The code of a loop that does something, given the code of its body. -/
def pushIteration
    (context : CodeContext)
    (plan : LoopPlan)
    (collection : Expr)
    (body : JumpTarget → CodeStep)
    (code : CodeStream) :
    Except CodegenError CodeStream := do
  let pushed ← context.pushExpr collection true code
  let started ← context.startLoop plan pushed
  let (labels, labeled) := LoopLabels.made plan.continues started
  let entered ← context.enterLoop plan labels labeled
  let fetched ← context.fetchElement plan (entered.place labels.action)
  let ran ← body (.loop labels.exit labels.next) fetched
  let closed := context.closeBody plan ran
  let repeated ←
    match labels.next with
    | some next => context.testAtBottom plan labels next closed
    | none => pure closed
  let introduced := plan.resolution.strategy.synthetics
  let left := (repeated.closeWhere introduced.contains).exitScope context.scope plan.scope
  return (context.settleRanges plan left).place labels.exit

/-- The code of a loop by its plan. -/
def pushPlanned
    (context : CodeContext)
    (plan : LoopPlan)
    (span : Span)
    (collection : Expr)
    (body : JumpTarget → CodeStep)
    (code : CodeStream) :
    Except CodegenError CodeStream := do
  let done ←
    if plan.hasEmptyAction && !context.hasSlot plan.element && plan.resolution.strategy.isArray then
      context.pushEffects plan collection code
    else
      context.pushIteration plan collection body code
  return done.markSource code.position span

/-- The code of a loop, given the code of its action in the scope of the loop.
A loop that is not reached or cannot be lowered has none. -/
def pushLoop
    (context : CodeContext)
    (span : Span)
    (element : LocalDecl)
    (collection : Expr)
    (action : Option Stmt)
    (facts : LoopFacts)
    (outer : ScopeId)
    (pushAction : JumpTarget → ScopeId → CodeStep)
    (code : CodeStream) :
    Except CodegenError CodeStream :=
  if facts.reachable then
    match facts.classification, facts.scope, element.binding with
    | .invalid, _, _ => .ok code
    | .pending, _, _ => .error (.loopUnresolved element.name.node)
    | .resolved _, none, _ => .error .loopWithoutScope
    | .resolved _, some _, none => .error (.localUnbound element.name.node)
    | .resolved resolution, some scope, some id =>
        let plan : LoopPlan := {
          resolution := resolution
          element := id
          elementSpan := element.name.span
          scope := scope
          outer := outer
          hasEmptyAction := Stmt.isEmptyAction action
          continues := facts.continues
          entered := context.state.checkpoint? facts.entered
          left := context.state.checkpoint? facts.left
        }
        let runsAction := !plan.hasEmptyAction && facts.actionReachable
        context.pushPlanned plan span collection
          (fun target => if runsAction then pushAction target scope else .ok) code
  else
    .ok code

end CodeContext

end LoopLowering
