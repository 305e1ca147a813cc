import LoopLowering.Flow.Loops

namespace LoopLowering

/-!
# Flow through methods

Statements are analyzed in order for as long as some path reaches them. The
first one of a list that no path reaches is reported, and the rest of the list
is left alone.
-/

/-- A node after flow analysis, and the point after it. -/
structure Flowed (α : Type) where
  node : α
  point : FlowPoint

/-- A statement list after flow analysis. -/
structure FlowedList where
  nodes : List Stmt
  /-- The position of the first statement no path reaches. -/
  unreachableFrom : Option Nat
  point : FlowPoint

mutual

/-- Flow through a statement. -/
def analyzeStmt
    (options : CompilerOptions) :
    Stmt → FlowPoint → Flowed Stmt
  | .localVar span decl, point => ⟨.localVar span decl, analyzeDecl options decl point⟩
  | .expr span value, point => ⟨.expr span value, analyzeExpr options value point⟩
  | .block span stmts facts, point =>
      let body := analyzeStmts options stmts point
      ⟨.block span body.nodes { facts with unreachableFrom := body.unreachableFrom }, body.point⟩
  | .branch span condition thenBranch none, point =>
      let tested := analyzeExpr options condition point
      let thenBranch := analyzeStmt options thenBranch tested
      ⟨.branch span condition thenBranch.node none,
        thenBranch.point.mapFlow (fun flow => flow.merge tested.flow)⟩
  | .branch span condition thenBranch (some elseBranch), point =>
      let tested := analyzeExpr options condition point
      let thenBranch := analyzeStmt options thenBranch tested
      let elseBranch := analyzeStmt options elseBranch { thenBranch.point with flow := tested.flow }
      ⟨.branch span condition thenBranch.node (some elseBranch.node),
        elseBranch.point.mapFlow (fun flow => thenBranch.point.flow.merge flow)⟩
  | .forEach span element collection none facts, point =>
      let met := facts.met point.flow.reachable
      match facts.scope with
      | none => ⟨.forEach span element collection none met, point⟩
      | some scope =>
          let entry := enterLoop options scope element collection point
          let left := leaveLoop options element met entry ⟨none, false, false, entry.body⟩
          ⟨.forEach span element collection none left.facts, left.point⟩
  | .forEach span element collection (some action) facts, point =>
      let met := facts.met point.flow.reachable
      match facts.scope with
      | none => ⟨.forEach span element collection (some action) met, point⟩
      | some scope =>
          let entry := enterLoop options scope element collection point
          let body : LoopBody :=
            if skipsAction options action then
              ⟨some action, false, false, entry.body⟩
            else if entry.body.flow.reachable then
              let analyzed := analyzeStmt options action entry.body
              ⟨some analyzed.node, true, true, analyzed.point⟩
            else
              ⟨some action, true, false, entry.body.report .unreachableCode action.span⟩
          let left := leaveLoop options element met entry body
          ⟨.forEach span element collection body.action left.facts, left.point⟩
  | .labeled span label body, point =>
      let entered :=
        { point with jumps := point.jumps.pushLabel label.node body.isLoop }
      let body := analyzeStmt options body entered
      let popped := body.point.jumps.popLabel
      let left := { body.point with jumps := popped.2 }
      ⟨.labeled span label body.node,
        match popped.1 with
        | some record => left.mapFlow (fun flow => flow.merge record.onBreak)
        | none => left⟩
  | .breakTo span label, point =>
      ⟨.breakTo span label,
        point.jump span (point.jumps.recordBreak (label.map Spanned.node) point.flow)⟩
  | .continueTo span label, point =>
      ⟨.continueTo span label,
        point.jump span (point.jumps.recordContinue (label.map Spanned.node) point.flow)⟩
  | .returnWith span none, point => ⟨.returnWith span none, { point with flow := .deadEnd }⟩
  | .returnWith span (some value), point =>
      ⟨.returnWith span (some value), { analyzeExpr options value point with flow := .deadEnd }⟩
  | .empty span, point => ⟨.empty span, point⟩

/-- Flow through the statements of a list. -/
def analyzeStmts
    (options : CompilerOptions) :
    List Stmt → FlowPoint → FlowedList
  | [], point => ⟨[], none, point⟩
  | stmt :: rest, point =>
      if point.flow.reachable then
        let head := analyzeStmt options stmt point
        let tail := analyzeStmts options rest head.point
        ⟨head.node :: tail.nodes, tail.unreachableFrom.map (· + 1), tail.point⟩
      else
        ⟨stmt :: rest, some 0, point.report .unreachableCode stmt.span⟩

end

/-- Where the body of a method starts: with its parameters assigned. -/
def FlowPoint.atBody
    (params : List Param)
    (state : MethodState) :
    FlowPoint where
  flow := (params.filterMap Param.binding).foldl (fun flow id => flow.assign id) .initial
  state := state
  jumps := []

/-- Report a method that has to return a result but can end without one. -/
def checkCompletion
    (span : Span)
    (completes : Bool)
    (state : MethodState) :
    MethodState :=
  { state with completesNormally := completes }.reportIf
    (completes && state.returnType != Ty.void && !state.returnType.isUnknown)
    (.resultRequired state.returnType) span

/-- A method after flow analysis, with the flow state at the end of its body. -/
structure FlowedMethod where
  node : Method
  flow : FlowState
  state : MethodState

/-- Flow through a method whose names are resolved. -/
def analyzeMethod
    (options : CompilerOptions)
    (method : Method)
    (state : MethodState) :
    FlowedMethod :=
  let body := analyzeStmts options method.body.stmts (.atBody method.params state)
  { node := { method with
      body := { method.body with
        stmts := body.nodes
        facts := { method.body.facts with unreachableFrom := body.unreachableFrom } } }
    flow := body.point.flow
    state := checkCompletion method.name.span body.point.flow.reachable body.point.state }

end LoopLowering
