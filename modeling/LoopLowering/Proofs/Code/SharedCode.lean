import LoopLowering.Code.Statements

namespace LoopLowering

/-!
# What code depends on

Code generation does not look at everything the passes have recorded. It reads
neither diagnostics nor what flow states know about nullness, it stops at the
first statement of a list that no path reaches, and it does not look into the
action of a loop that has nothing to do. Whatever differs in these alone has the
same code.
-/

namespace CodeContext

/-- The same context with other flow states and diagnostics. -/
def withFindings
    (context : CodeContext)
    (checkpoints : Checkpoints)
    (diagnostics : Diagnostics) :
    CodeContext :=
  { context with
    state := { context.state with checkpoints := checkpoints, diagnostics := diagnostics } }

variable
  (context : CodeContext)
  (checkpoints : Checkpoints)
  (diagnostics : Diagnostics)

/-- The types of expressions are not among the findings. -/
theorem exprType_withFindings :
    ∀ expr : Expr,
      (context.withFindings checkpoints diagnostics).exprType expr = context.exprType expr
  | .methodCall _ receiver _ _ => by
      simp only [exprType, exprType_withFindings receiver]
      rfl
  | .binary _ op left right => by
      simp only [exprType, exprType_withFindings left, exprType_withFindings right]
  | .name .. | .assign .. | .intLit .. | .boolLit .. | .stringLit .. | .null _ | .newArray ..
  | .call .. => rfl

/-- Neither is the code of a comparison, given that of its operands. -/
theorem branchOnComparison_withFindings
    (op : BinOp)
    (left right : Expr)
    (pushLeft pushRight : CodeStep)
    (branchIf : Bool) :
    (context.withFindings checkpoints diagnostics).branchOnComparison op left right pushLeft
        pushRight branchIf =
      context.branchOnComparison op left right pushLeft pushRight branchIf := by
  funext label code
  simp only [branchOnComparison, exprType_withFindings]

mutual

/-- The code of an expression is the same whatever has been found. -/
theorem pushExpr_withFindings :
    ∀ expr : Expr,
      (context.withFindings checkpoints diagnostics).pushExpr expr = context.pushExpr expr
  | .intLit .. | .boolLit .. | .stringLit .. | .null _ | .name .. => rfl
  | .newArray _ component elements => by
      funext wanted code
      simp only [pushExpr, runExprs_withFindings elements, fillArray_withFindings elements]
      rfl
  | .binary _ op left right => by
      funext wanted code
      simp only [pushExpr, pushExpr_withFindings left, pushExpr_withFindings right,
        branchOnComparison_withFindings, pushArithmetic, exprType_withFindings]
  | .assign _ target op value => by
      funext wanted code
      simp only [pushExpr, pushExpr_withFindings value, assign, assignSimple, assignOperated,
        exprType_withFindings]
      rfl
  | .call _ function args => by
      funext wanted code
      simp only [pushExpr, pushArguments_withFindings args]
      rfl
  | .methodCall _ receiver method args => by
      funext wanted code
      simp only [pushExpr, pushExpr_withFindings receiver, pushArguments_withFindings args,
        exprType_withFindings]
      rfl

theorem runExprs_withFindings :
    ∀ exprs : List Expr,
      (context.withFindings checkpoints diagnostics).runExprs exprs = context.runExprs exprs
  | [] => rfl
  | expr :: rest => by
      funext code
      simp only [runExprs, pushExpr_withFindings expr, runExprs_withFindings rest]

theorem fillArray_withFindings :
    ∀ (exprs : List Expr) (component : Ty),
      (context.withFindings checkpoints diagnostics).fillArray component exprs =
        context.fillArray component exprs
  | [], _ => rfl
  | expr :: rest, component => by
      funext index code
      simp only [fillArray, pushExpr_withFindings expr, fillArray_withFindings rest,
        exprType_withFindings]
      rfl

theorem pushArguments_withFindings :
    ∀ exprs : List Expr,
      (context.withFindings checkpoints diagnostics).pushArguments exprs =
        context.pushArguments exprs
  | [] => by
      funext params code
      simp only [pushArguments]
  | expr :: rest => by
      funext params code
      cases params with
      | nil =>
          rfl
      | cons param params =>
          simp only [pushArguments, pushExpr_withFindings expr, pushArguments_withFindings rest,
            exprType_withFindings]
          rfl

end

/-- The code of a condition is the same whatever has been found. -/
theorem branchOn_withFindings
    (expr : Expr) :
    (context.withFindings checkpoints diagnostics).branchOn expr = context.branchOn expr := by
  funext branchIf label code
  cases expr <;>
    simp only [branchOn, branchOnValue, pushExpr_withFindings, branchOnComparison_withFindings,
      exprType_withFindings] <;> rfl

/-- Conditional assignments, jumps and returns need no more than expressions do. -/
theorem pushDeclaration_withFindings
    (decl : LocalDecl) :
    (context.withFindings checkpoints diagnostics).pushDeclaration decl =
      context.pushDeclaration decl := by
  funext code
  simp only [pushDeclaration, pushExpr_withFindings, assignSimple, exprType_withFindings]
  rfl

/-- The code of a return is the same whatever has been found. -/
theorem pushReturn_withFindings
    (value : Expr) :
    (context.withFindings checkpoints diagnostics).pushReturn value = context.pushReturn value := by
  funext code
  simp only [pushReturn, pushExpr_withFindings, exprType_withFindings]
  rfl

end CodeContext

section Loops

variable
  (context : CodeContext)

/-- A loop planned without what flow states know about nullness. -/
def LoopPlan.withoutNulls
    (plan : LoopPlan) :
    LoopPlan :=
  { plan with
    entered := plan.entered.map FlowState.withoutNulls
    left := plan.left.map FlowState.withoutNulls }

namespace CodeContext

/-- Binding an element does not depend on nullness. -/
theorem bindElement_withoutNulls
    (plan : LoopPlan) :
    context.bindElement plan.withoutNulls = context.bindElement plan := by
  funext code
  obtain ⟨resolution, element, span, scope, outer, isEmpty, continues, entered, left⟩ := plan
  cases entered <;> rfl

/-- Fetching an element does not depend on nullness. -/
theorem fetchElement_withoutNulls
    (plan : LoopPlan) :
    context.fetchElement plan.withoutNulls = context.fetchElement plan := by
  funext code
  simp only [fetchElement, bindElement_withoutNulls]
  rfl

/-- What is open after the body of a loop does not depend on nullness. -/
theorem closeBody_withoutNulls
    (plan : LoopPlan) :
    context.closeBody plan.withoutNulls = context.closeBody plan := by
  funext code
  obtain ⟨resolution, element, span, scope, outer, isEmpty, continues, entered, left⟩ := plan
  cases entered <;> rfl

/-- What is open after a loop does not depend on nullness. -/
theorem settleRanges_withoutNulls
    (plan : LoopPlan) :
    context.settleRanges plan.withoutNulls = context.settleRanges plan := by
  funext code
  obtain ⟨resolution, element, span, scope, outer, isEmpty, continues, entered, left⟩ := plan
  cases left <;> rfl

variable
  (checkpoints : Checkpoints)
  (diagnostics : Diagnostics)

/-- The code of a loop does not depend on nullness. -/
theorem pushPlanned_withoutNulls
    (plan : LoopPlan)
    (span : Span)
    (collection : Expr)
    (body : JumpTarget → CodeStep) :
    context.pushPlanned plan.withoutNulls span collection body =
      context.pushPlanned plan span collection body := by
  funext code
  simp only [pushPlanned, pushEffects, pushIteration, fetchElement_withoutNulls,
    closeBody_withoutNulls, settleRanges_withoutNulls]
  rfl

/-- The code of a loop is the same whatever has been found. -/
theorem pushPlanned_withFindings
    (plan : LoopPlan)
    (span : Span)
    (collection : Expr)
    (body : JumpTarget → CodeStep) :
    (context.withFindings checkpoints diagnostics).pushPlanned plan span collection body =
      context.pushPlanned plan span collection body := by
  funext code
  simp only [pushPlanned, pushEffects, pushIteration, pushExpr_withFindings]
  rfl

end CodeContext

end Loops

mutual

/-- Two statements differ at most in what code generation does not read. -/
inductive Stmt.SharesCode :
    Stmt → Stmt → Prop
  | localVar (span : Span) (decl : LocalDecl) :
      SharesCode (.localVar span decl) (.localVar span decl)
  | expr (span : Span) (value : Expr) :
      SharesCode (.expr span value) (.expr span value)
  | breakTo (span : Span) (label : Option (Spanned String)) :
      SharesCode (.breakTo span label) (.breakTo span label)
  | continueTo (span : Span) (label : Option (Spanned String)) :
      SharesCode (.continueTo span label) (.continueTo span label)
  | returnWith (span : Span) (value : Option Expr) :
      SharesCode (.returnWith span value) (.returnWith span value)
  | empty (span : Span) :
      SharesCode (.empty span) (.empty span)
  | bareLoop (span : Span) (element : LocalDecl) (collection : Expr) (facts : LoopFacts) :
      SharesCode (.forEach span element collection none facts)
        (.forEach span element collection none facts)
  | block {span : Span} {first second : List Stmt} {facts : BlockFacts} :
      AllShareCode facts.unreachableFrom first second →
      SharesCode (.block span first facts) (.block span second facts)
  | onlyBranch {span : Span} {condition : Expr} {first second : Stmt} :
      SharesCode first second →
      SharesCode (.branch span condition first none) (.branch span condition second none)
  | branch {span : Span} {condition : Expr} {first second firstElse secondElse : Stmt} :
      SharesCode first second →
      SharesCode firstElse secondElse →
      SharesCode (.branch span condition first (some firstElse))
        (.branch span condition second (some secondElse))
  | loop {span : Span} {element : LocalDecl} {collection : Expr} {first second : Stmt}
      {facts : LoopFacts} :
      SharesCode first second →
      SharesCode (.forEach span element collection (some first) facts)
        (.forEach span element collection (some second) facts)
  | idleLoop {span : Span} {element : LocalDecl} {collection : Expr} {first second : Stmt}
      {facts : LoopFacts} {reached : Bool} :
      Stmt.isEmptyAction (some first) = true →
      Stmt.isEmptyAction (some second) = true →
      SharesCode (.forEach span element collection (some first) facts)
        (.forEach span element collection (some second) { facts with actionReachable := reached })
  | labeled {span : Span} {label : Spanned String} {first second : Stmt} :
      SharesCode first second →
      SharesCode (.labeled span label first) (.labeled span label second)

/-- Two lists of statements differ at most in what code generation does not read
of as many of them as a limit allows. -/
inductive Stmt.AllShareCode :
    Option Nat → List Stmt → List Stmt → Prop
  | nil {limit : Option Nat} : AllShareCode limit [] []
  | cut {first second : List Stmt} :
      first.isEmpty = second.isEmpty →
      AllShareCode (some 0) first second
  | cons {limit : Option Nat} {first second : Stmt} {firstRest secondRest : List Stmt} :
      SharesCode first second →
      AllShareCode (limit.map Nat.pred) firstRest secondRest →
      AllShareCode limit (first :: firstRest) (second :: secondRest)

end

namespace Stmt

mutual

theorem SharesCode.refl :
    ∀ stmt : Stmt, SharesCode stmt stmt
  | .localVar span decl => .localVar span decl
  | .expr span value => .expr span value
  | .block _ stmts facts => .block (.refl stmts facts.unreachableFrom)
  | .branch _ _ thenBranch none => .onlyBranch (.refl thenBranch)
  | .branch _ _ thenBranch (some elseBranch) => .branch (.refl thenBranch) (.refl elseBranch)
  | .forEach span element collection none facts => .bareLoop span element collection facts
  | .forEach _ _ _ (some action) _ => .loop (.refl action)
  | .labeled _ _ body => .labeled (.refl body)
  | .breakTo span label => .breakTo span label
  | .continueTo span label => .continueTo span label
  | .returnWith span value => .returnWith span value
  | .empty span => .empty span

theorem AllShareCode.refl :
    ∀ (stmts : List Stmt) (limit : Option Nat), AllShareCode limit stmts stmts
  | [], _ => .nil
  | stmt :: rest, limit => .cons (.refl stmt) (.refl rest (limit.map Nat.pred))

end

/-- Lists that share their code are both empty or both not. -/
theorem AllShareCode.isEmpty_eq
    {limit : Option Nat}
    {first second : List Stmt}
    (shared : AllShareCode limit first second) :
    first.isEmpty = second.isEmpty := by
  cases shared with
  | nil | cons => rfl
  | cut same => exact same

/-- Statements that share their code are both an empty block or both not. -/
theorem SharesCode.isEmptyAction_eq
    {first second : Stmt}
    (shared : SharesCode first second) :
    isEmptyAction (some first) = isEmptyAction (some second) := by
  cases shared with
  | block all =>
      have same := all.isEmpty_eq
      revert same
      rename_i firstStmts secondStmts facts
      cases firstStmts <;> cases secondStmts <;> simp [isEmptyAction, isEmptyBlock, isEmptyStmt]
  | _ => rfl

/-- Statements that share their code are both a loop or both not. -/
theorem SharesCode.isLoop_eq
    {first second : Stmt}
    (shared : SharesCode first second) :
    first.isLoop = second.isLoop := by
  cases shared <;> rfl

end Stmt

namespace CodeContext

/-- Two records of flow states agree in all but nullness. -/
def SameAssignments
    (first second : Checkpoints) :
    Prop :=
  second.map FlowState.withoutNulls = first.map FlowState.withoutNulls

variable
  {context : CodeContext}
  {checkpoints : Checkpoints}
  {diagnostics : Diagnostics}

/-- Recorded flow states agree in all but nullness one by one. -/
theorem SameAssignments.checkpoint?
    (same : SameAssignments context.state.checkpoints checkpoints)
    (diagnostics : Diagnostics)
    (id : Option CheckpointId) :
    ((context.withFindings checkpoints diagnostics).state.checkpoint? id).map
        FlowState.withoutNulls =
      (context.state.checkpoint? id).map FlowState.withoutNulls := by
  cases id with
  | none =>
      rfl
  | some id =>
      have found := congrArg (fun states : Checkpoints => states[id]?) same
      simpa [MethodState.checkpoint?, withFindings] using found

/-- Loops whose actions have the same code have the same code. -/
theorem pushLoop_withFindings
    (same : SameAssignments context.state.checkpoints checkpoints)
    {span : Span}
    {element : LocalDecl}
    {collection : Expr}
    {first second : Option Stmt}
    {facts otherFacts : LoopFacts}
    {outer : ScopeId}
    {pushFirst pushSecond : JumpTarget → ScopeId → CodeStep}
    (sameEmpty : Stmt.isEmptyAction second = Stmt.isEmptyAction first)
    (sameFacts : otherFacts = { facts with actionReachable := otherFacts.actionReachable })
    (sameAction : Stmt.isEmptyAction first = true ∨
      otherFacts.actionReachable = facts.actionReachable ∧ pushSecond = pushFirst) :
    (context.withFindings checkpoints diagnostics).pushLoop span element collection second
        otherFacts outer pushSecond =
      context.pushLoop span element collection first facts outer pushFirst := by
  funext code
  rw [sameFacts]
  simp only [pushLoop]
  split
  · split
    · rfl
    · rfl
    · rfl
    · rfl
    · next resolution scope id _ _ _ =>
      rw [pushPlanned_withFindings, ← pushPlanned_withoutNulls,
        ← context.pushPlanned_withoutNulls ⟨resolution, id, _, scope, outer, _, _, _, _⟩]
      simp only [LoopPlan.withoutNulls, same.checkpoint? diagnostics, sameEmpty]
      rcases sameAction with isEmpty | ⟨sameReached, samePush⟩
      · simp [isEmpty]
      · rw [sameReached, samePush]
  · rfl

mutual

/-- What differs in nothing that code generation reads has the same code. -/
theorem pushStmt_withFindings
    (same : SameAssignments context.state.checkpoints checkpoints) :
    ∀ {first second : Stmt},
      first.SharesCode second →
      (context.withFindings checkpoints diagnostics).pushStmt second = context.pushStmt first
  | _, _, .block shared => by
      funext targets scope code
      simp only [pushStmt, pushStmts_withFindings same shared]
      rfl
  | _, _, .onlyBranch shared => by
      funext targets scope code
      simp only [pushStmt, branchOn_withFindings, pushStmt_withFindings same shared]
  | _, _, .branch shared sharedElse => by
      funext targets scope code
      simp only [pushStmt, branchOn_withFindings, pushStmt_withFindings same shared,
        pushStmt_withFindings same sharedElse]
  | _, _, .loop shared => by
      funext targets scope code
      simp only [pushStmt, pushStmt_withFindings same shared]
      rw [pushLoop_withFindings same shared.isEmptyAction_eq.symm rfl (.inr ⟨rfl, rfl⟩)]
  | _, _, .idleLoop isEmpty isEmptyToo => by
      funext targets scope code
      simp only [pushStmt]
      rw [pushLoop_withFindings same (isEmptyToo.trans isEmpty.symm) rfl (.inl isEmpty)]
  | _, _, .labeled shared => by
      funext targets scope code
      simp only [pushStmt, shared.isLoop_eq, pushStmt_withFindings same shared]
  | _, _, .localVar span decl => by
      funext targets scope code
      simp only [pushStmt, pushDeclaration_withFindings]
  | _, _, .expr span value => by
      funext targets scope code
      simp only [pushStmt, pushExpr_withFindings]
  | _, _, .bareLoop span element collection facts => by
      funext targets scope code
      simp only [pushStmt]
      rw [pushLoop_withFindings same rfl rfl (.inl rfl)]
  | _, _, .returnWith span none | _, _, .breakTo .. | _, _, .continueTo .. | _, _, .empty _ => by
      funext targets scope code
      simp only [pushStmt]
  | _, _, .returnWith span (some value) => by
      funext targets scope code
      simp only [pushStmt, pushReturn_withFindings]

theorem pushStmts_withFindings
    (same : SameAssignments context.state.checkpoints checkpoints) :
    ∀ {limit : Option Nat} {first second : List Stmt},
      Stmt.AllShareCode limit first second →
      (context.withFindings checkpoints diagnostics).pushStmts second limit =
        context.pushStmts first limit
  | limit, _, _, .nil => by
      funext targets scope code
      simp only [pushStmts]
  | _, first, second, .cut isEmpty => by
      funext targets scope code
      cases first <;> cases second <;> simp_all [pushStmts]
  | limit, first :: firstRest, second :: secondRest, .cons shared sharedRest => by
      funext targets scope code
      have sameHead := pushStmt_withFindings same shared
      have sameRest := pushStmts_withFindings same sharedRest
      match limit with
      | none | some (count + 1) =>
          simp only [Option.map_none, Option.map_some, Nat.pred_succ] at sameRest
          simp only [pushStmts, sameHead, Option.map_none, Option.map_some, Nat.pred_succ, sameRest]
      | some 0 =>
          simp only [pushStmts]

end

/-- The parameters have their ranges whatever has been found. -/
theorem openParams_withFindings :
    ∀ params : List Param,
      (context.withFindings checkpoints diagnostics).openParams params = context.openParams params
  | [] => rfl
  | param :: rest => by
      funext code
      simp only [openParams, openParams_withFindings rest]
      rfl

/-- Methods whose bodies share their code have the same code. -/
theorem methodCode_withFindings
    (same : SameAssignments context.state.checkpoints checkpoints)
    {first second : Method}
    (sameRest : second = { first with body := { first.body with stmts := second.body.stmts } })
    (shared : Stmt.AllShareCode first.body.facts.unreachableFrom first.body.stmts
      second.body.stmts) :
    (context.withFindings checkpoints diagnostics).methodCode second =
      context.methodCode first := by
  rw [sameRest]
  simp only [methodCode, openParams_withFindings, pushStmts_withFindings same shared]
  rfl

end CodeContext

end LoopLowering
