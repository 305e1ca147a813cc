import LoopLowering.Code.Completion
import LoopLowering.Code.Loops

namespace LoopLowering

/-!
# Code of methods

Statements are generated in order up to the first one that no path reaches.
Every statement leaves the stack as it found it.
-/

namespace CodeContext

/-- Declare a local with an initial value. A local that does not exist in the
code has its value evaluated only. -/
def pushDeclaration
    (context : CodeContext)
    (decl : LocalDecl)
    (code : CodeStream) :
    Except CodegenError CodeStream :=
  match decl.initial, decl.binding with
  | none, _ => .ok code
  | some _, none => .error (.localUnbound decl.name.node)
  | some value, some id =>
      context.assignSimple id value (context.pushExpr value) false code

/-- Return a value, converted to the result type of the method. -/
def pushReturn
    (context : CodeContext)
    (value : Expr)
    (code : CodeStream) :
    Except CodegenError CodeStream := do
  let pushed ← context.pushExpr value true code
  let converted :=
    pushed.convertAssigned context.table (context.exprType value) context.state.returnType
  return converted.emit (.returnWith (some (.ofTy context.state.returnType)))

/-- Leave the scope of a block that opened one. -/
def leaveBlock
    (context : CodeContext)
    (inner outer : ScopeId)
    (code : CodeStream) :
    CodeStream :=
  if inner = outer then code else code.exitScope context.scope inner

mutual

/-- The code of a statement in the innermost block scope around it. -/
def pushStmt
    (context : CodeContext) :
    Stmt → List JumpTarget → ScopeId → CodeStep
  | .localVar span decl, _, _, code => do
      let done ← context.pushDeclaration decl code
      return done.markSource code.position span
  | .expr span value, _, _, code => do
      let done ← context.pushExpr value false code
      return done.markSource code.position span
  | .block span stmts facts, targets, scope, code => do
      let inner := facts.scope.getD scope
      let ran ← context.pushStmts stmts facts.unreachableFrom targets inner code
      return (context.leaveBlock inner scope ran).markSource code.position span
  | .branch span condition thenBranch none, targets, scope, code => do
      let elseLabel := code.nextLabel
      let tested ← context.branchOn condition false elseLabel code.addLabel
      let done ← context.pushStmt thenBranch targets scope tested
      return (done.place elseLabel).markSource code.position span
  | .branch span condition thenBranch (some elseBranch), targets, scope, code => do
      let elseLabel := code.nextLabel
      let tested ← context.branchOn condition false elseLabel code.addLabel
      let thenDone ← context.pushStmt thenBranch targets scope tested
      let endLabel := thenDone.nextLabel
      let labeled := thenDone.addLabel
      let left := if labeled.isTerminated then labeled else labeled.emit (.goto endLabel)
      let done ← context.pushStmt elseBranch targets scope (left.place elseLabel)
      return (done.place endLabel).markSource code.position span
  | .forEach span element collection none facts, _, scope, code => do
      let done ←
        context.pushLoop span element collection none facts scope (fun _ _ => .ok) code
      return done.markSource code.position span
  | .forEach span element collection (some action) facts, targets, scope, code => do
      let done ←
        context.pushLoop span element collection (some action) facts scope
          (fun target inner => context.pushStmt action (target :: targets) inner) code
      return done.markSource code.position span
  | .labeled span label body, targets, scope, code => do
      let breakLabel := code.nextLabel
      let target := JumpTarget.label label.node breakLabel body.isLoop
      let done ← context.pushStmt body (target :: targets) scope code.addLabel
      return (done.place breakLabel).markSource code.position span
  | .breakTo span label, targets, _, code => do
      let target ← JumpTarget.ofBreak targets (label.map Spanned.node)
      return (code.emit (.goto target)).markSource code.position span
  | .continueTo span label, targets, _, code => do
      let target ← JumpTarget.ofContinue targets (label.map Spanned.node)
      return (code.emit (.goto target)).markSource code.position span
  | .returnWith span none, _, _, code =>
      .ok ((code.emit (.returnWith none)).markSource code.position span)
  | .returnWith span (some value), _, _, code => do
      let done ← context.pushReturn value code
      return done.markSource code.position span
  | .empty _, _, _, code => .ok code

/-- The code of the statements of a list, as many as a limit allows. -/
def pushStmts
    (context : CodeContext) :
    List Stmt → (limit : Option Nat) → List JumpTarget → ScopeId → CodeStep
  | [], _, _, _, code => .ok code
  | _ :: _, some 0, _, _, code => .ok code
  | stmt :: rest, limit, targets, scope, code => do
      let done ← context.pushStmt stmt targets scope code
      context.pushStmts rest (limit.map Nat.pred) targets scope done

end

/-- Open the ranges of the parameters. -/
def openParams
    (context : CodeContext) :
    List Param → CodeStep
  | [], code => .ok code
  | param :: rest, code =>
      match param.binding with
      | none => .error (.parameterUnbound param.name.node)
      | some id => context.openParams rest (code.openLocal context.scope id)

/-- The code of a method that is resolved and analyzed and whose locals have
slots. A method without a result returns at the end of its body. -/
def methodCode
    (context : CodeContext)
    (method : Method) :
    Except CodegenError MethodCode := do
  let opened ← context.openParams method.params .empty
  let body := method.body
  let ran ←
    context.pushStmts body.stmts body.facts.unreachableFrom [] MethodScope.root opened
  let returned :=
    if context.state.completesNormally && context.state.returnType == .void then
      ran.emit (.returnWith none)
    else
      ran
  (returned.markSource opened.position body.span).finish context.scope method.name.node

end CodeContext

end LoopLowering
