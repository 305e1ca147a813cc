import LoopLowering.Flow.Expressions

namespace LoopLowering

/-!
# Flow through loops

The body of a loop is analyzed once, from a state that knows nothing about
references. Entering a loop and leaving it are separate steps around the body.
The state after the loop meets two paths: the one on which the collection runs
out, around a body that may have run, and the one of the breaks.
-/

/-- A loop whose body is about to be analyzed. -/
structure LoopEntry where
  /-- The state in which the collection is evaluated. -/
  before : FlowState
  /-- The state after that, with the element assigned. -/
  entered : FlowState
  checkpoint : CheckpointId
  /-- Where the body starts. -/
  body : FlowPoint

/-- Enter a loop. -/
def enterLoop
    (options : CompilerOptions)
    (scope : ScopeId)
    (element : LocalDecl)
    (collection : Expr)
    (point : FlowPoint) :
    LoopEntry :=
  let declared := analyzeDecl options element (point.checkDereference options collection)
  let evaluated := analyzeExpr options collection declared
  let entered :=
    match element.binding with
    | some id => evaluated.flow.assign id
    | none => evaluated.flow
  { before := declared.flow
    entered := entered
    checkpoint := evaluated.state.nextCheckpoint
    body :=
      { flow := entered.withoutNulls
        state := evaluated.state.addCheckpoint entered
        jumps := evaluated.jumps.pushLoop scope declared.flow } }

/-- Whether the body of a loop is passed over by flow analysis. -/
def skipsAction
    (options : CompilerOptions)
    (action : Stmt) :
    Bool :=
  action.isEmptyBlock && !options.compliance.analyzesEmptyBlocks

/-- Mark the locals a loop introduces as used when the generated loop touches
them. An array loop without a body whose element does not exist only evaluates
the collection; one that never comes back needs neither index nor bound. -/
def markSynthetics
    (options : CompilerOptions)
    (classification : LoopClassification)
    (emptyAction : Bool)
    (element : Option LocalId)
    (continues : Bool)
    (scope : MethodScope) :
    MethodScope :=
  match classification.strategy? with
  | none => scope
  | some (.array index bound source) =>
      let elementExists :=
        match element with
        | some id => scope.isMaterialized options.keepUnusedLocals id
        | none => false
      if !emptyAction || elementExists then
        let stored := scope.markUsed source
        if continues then (stored.markUsed index).markUsed bound else stored
      else
        scope
  | some (.rawIterable iterator _) | some (.genericIterable iterator _) => scope.markUsed iterator

/-- Report assignments to final locals that a further iteration repeats. -/
def settleFinals
    (deferred : List (LocalId × Span))
    (bodyEnd : FlowState)
    (point : FlowPoint) :
    FlowPoint :=
  deferred.foldl (fun point use =>
    if bodyEnd.mayBeAssigned use.1 then
      point.report (.finalReassigned (point.nameOf use.1)) use.2
    else
      point) point

/-- Report the use of a reference whose nullness depends on the loop: the first
iteration finds it as the loop was entered, and later ones as the body leaves
it. What is still not known is deferred to the loop around this one. -/
def settleNull
    (onEntry : FlowState)
    (backEdge : Option FlowState)
    (point : FlowPoint)
    (use : LocalId × Span) :
    FlowPoint :=
  let before := onEntry.nullStatus use.1
  let status :=
    match backEdge with
    | some bodyEnd => before.join (bodyEnd.nullStatus use.1)
    | none => before
  match before, status with
  | .null, _ => point.report (.nullLocal (point.nameOf use.1)) use.2
  | _, .null | _, .potentiallyNull =>
      point.report (.potentiallyNullLocal (point.nameOf use.1)) use.2
  | _, .nonNull => point
  | _, .unknown =>
      { point with
        jumps :=
          point.jumps.deferNull point.state.scope use.1 (point.state.localAt use.1).scope use.2 }

/-- The body of a loop after its analysis. -/
structure LoopBody where
  action : Option Stmt
  /-- The body was analyzed or found to be unreachable, not passed over. -/
  analyzed : Bool
  /-- The body was entered. -/
  reached : Bool
  /-- Where the body ends. -/
  finish : FlowPoint

/-- A loop after its analysis, and the point after it. -/
structure LoopExit where
  facts : LoopFacts
  point : FlowPoint

/-- The facts of a loop that flow analysis has just met. -/
def LoopFacts.met
    (reachable : Bool)
    (facts : LoopFacts) :
    LoopFacts :=
  { facts with reachable := reachable, continues := true, actionReachable := false }

/-- Leave a loop after its body, given the record that was kept for it. -/
def leaveLoopWith
    (options : CompilerOptions)
    (element : LocalDecl)
    (facts : LoopFacts)
    (entry : LoopEntry)
    (body : LoopBody)
    (record : LoopRecord)
    (point : FlowPoint) :
    LoopExit :=
  let bodyEnd := body.finish.flow
  let continues := !body.analyzed || bodyEnd.reachable || record.onContinue.reachable
  let repeats := body.analyzed && continues
  let backEdge := if repeats then bodyEnd.merge record.onContinue else bodyEnd
  let settled := if repeats then settleFinals record.deferredFinals backEdge point else point
  let exhausted :=
    if body.analyzed then
      let run := entry.before.afterRun entry.entered
      if continues then run.afterOptional backEdge else run
    else
      entry.entered
  let marked :=
    { settled with
      state := settled.state.mapScope
        (markSynthetics options facts.classification (Stmt.isEmptyAction body.action)
          element.binding continues) }
  let reported :=
    record.deferredNulls.foldl
      (settleNull record.onEntry (if continues then some backEdge else none)) marked
  let broken :=
    if record.onBreak.reachable then entry.before.afterRun record.onBreak else record.onBreak
  let merged := FlowState.mergeBranches broken false exhausted false true
  { facts :=
      { facts with
        continues := continues
        actionReachable := body.reached
        entered := some entry.checkpoint
        left := some reported.state.nextCheckpoint }
    point :=
      { reported with
        flow := merged
        state := reported.state.addCheckpoint merged } }

/-- Leave a loop after its body. -/
def leaveLoop
    (options : CompilerOptions)
    (element : LocalDecl)
    (facts : LoopFacts)
    (entry : LoopEntry)
    (body : LoopBody) :
    LoopExit :=
  let popped := body.finish.jumps.popLoop
  let point := { body.finish with jumps := popped.2 }
  match popped.1 with
  | some record => leaveLoopWith options element facts entry body record point
  | none =>
      { facts :=
          { facts with actionReachable := body.reached, entered := some entry.checkpoint }
        point := { point with flow := entry.before } }

end LoopLowering
