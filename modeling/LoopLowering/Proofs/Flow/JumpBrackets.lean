import LoopLowering.Proofs.Flow.Narrowing

namespace LoopLowering

/-!
# Jump targets as brackets

A loop and a labeled statement add a record to the stack of jump targets when they are entered
and take one off when they are left, with the analysis of the statement inside in between. On
any path, reached or not, with any jumps, valid or not, that analysis leaves the records as it
found them, apart from what they collect. So each record that is taken off is the one that has
been added. An analysis that gives up where this fails is written beside the analysis, and
never gives up.
-/

/-- What a record of a jump target keeps: the scope of a loop and the state in which it is
entered, or the name of a label and whether the labeled statement is a loop. -/
inductive JumpBracket where
  | loop (scope : ScopeId) (onEntry : FlowState)
  | label (name : String) (labelsLoop : Bool)
  deriving Repr, DecidableEq

namespace JumpRecord

/-- What a record keeps, whatever it collects. -/
def bracket :
    JumpRecord → JumpBracket
  | .loop record => .loop record.scope record.onEntry
  | .label record => .label record.name record.labelsLoop

end JumpRecord

namespace JumpStack

/-- What the records of a stack keep. -/
def brackets
    (stack : JumpStack) :
    List JumpBracket :=
  stack.map JumpRecord.bracket

@[simp] theorem brackets_deferFinal
    (scopes : MethodScope)
    (id : LocalId)
    (declaredIn : ScopeId)
    (span : Span)
    (stack : JumpStack) :
    (stack.deferFinal scopes id declaredIn span).brackets = stack.brackets := by
  induction stack with
  | nil =>
      rfl
  | cons record stack inductionHypothesis =>
      cases record with
      | label record =>
          exact congrArg (List.cons _) inductionHypothesis
      | loop record =>
          rw [deferFinal]
          split
          · rfl
          · exact congrArg (List.cons _) inductionHypothesis

@[simp] theorem brackets_deferNull
    (scopes : MethodScope)
    (id : LocalId)
    (declaredIn : ScopeId)
    (span : Span)
    (stack : JumpStack) :
    (stack.deferNull scopes id declaredIn span).brackets = stack.brackets := by
  induction stack with
  | nil =>
      rfl
  | cons record stack inductionHypothesis =>
      cases record with
      | label record =>
          exact congrArg (List.cons _) inductionHypothesis
      | loop record =>
          rw [deferNull]
          split <;> rfl

/-- A jump that is recorded changes nothing that is kept. -/
theorem Takes.brackets_eq
    {jump : TakenJump}
    {stack after : JumpStack}
    (takes : Takes jump stack after) :
    after.brackets = stack.brackets := by
  induction takes with
  | breaksLoop | continuesLoop | breaksLabel | continuesLabeled =>
      rfl
  | passesLabel _ _ inductionHypothesis | breakPasses _ inductionHypothesis
  | continuePasses _ _ inductionHypothesis =>
      exact congrArg (_ :: ·) inductionHypothesis

/-- Where the record of a loop is the innermost one that is kept, leaving a loop takes it
off. -/
theorem exists_loop_of_brackets
    {stack : JumpStack}
    {scope : ScopeId}
    {onEntry : FlowState}
    {around : List JumpBracket}
    (isOpen : stack.brackets = .loop scope onEntry :: around) :
    ∃ record rest, stack = .loop record :: rest ∧ record.scope = scope ∧
      record.onEntry = onEntry ∧ JumpStack.brackets rest = around := by
  cases stack with
  | nil =>
      cases isOpen
  | cons record rest =>
      cases record with
      | label record =>
          cases isOpen
      | loop record =>
          cases isOpen
          exact ⟨record, rest, rfl, rfl, rfl, rfl⟩

/-- Where the record of a label is the innermost one that is kept, leaving a labeled statement
takes it off. -/
theorem exists_label_of_brackets
    {stack : JumpStack}
    {name : String}
    {labelsLoop : Bool}
    {around : List JumpBracket}
    (isOpen : stack.brackets = .label name labelsLoop :: around) :
    ∃ record rest, stack = .label record :: rest ∧ record.name = name ∧
      record.labelsLoop = labelsLoop ∧ JumpStack.brackets rest = around := by
  cases stack with
  | nil =>
      cases isOpen
  | cons record rest =>
      cases record with
      | loop record =>
          cases isOpen
      | label record =>
          cases isOpen
          exact ⟨record, rest, rfl, rfl, rfl, rfl⟩

end JumpStack

/-!
## Between entering and leaving
-/

namespace FlowPoint

/-- What the records around a point keep. -/
def brackets
    (point : FlowPoint) :
    List JumpBracket :=
  point.jumps.brackets

variable
  (options : CompilerOptions)
  (span : Span)
  (id : LocalId)
  (point : FlowPoint)

@[simp] theorem brackets_report
    (issue : Issue) :
    (point.report issue span).brackets = point.brackets :=
  rfl

@[simp] theorem brackets_mapFlow
    (change : FlowState → FlowState) :
    (point.mapFlow change).brackets = point.brackets :=
  rfl

@[simp] theorem brackets_checkReadOf
    (binding : Option LocalId) :
    (point.checkReadOf span binding).brackets = point.brackets := by
  cases binding with
  | none =>
      rfl
  | some id =>
      simp only [checkReadOf, checkRead]
      split <;> rfl

@[simp] theorem brackets_checkFinal :
    (point.checkFinal span id).brackets = point.brackets := by
  simp only [checkFinal]
  split
  · rfl
  · split
    · rfl
    · exact JumpStack.brackets_deferFinal _ _ _ _ _

@[simp] theorem brackets_assign
    (status : NullStatus) :
    (point.assign options id status).brackets = point.brackets := by
  simp only [assign]
  split <;> rfl

@[simp] theorem brackets_checkNull :
    (point.checkNull span id).brackets = point.brackets := by
  simp only [checkNull]
  split <;> first | rfl | exact JumpStack.brackets_deferNull _ _ _ _ _

@[simp] theorem brackets_checkDereference
    (value : Expr) :
    (point.checkDereference options value).brackets = point.brackets := by
  simp only [checkDereference]
  split
  · rfl
  · split
    · rfl
    · split
      · exact brackets_checkNull _ _ _
      · rfl
    · rfl

/-- A jump changes nothing that is kept. -/
theorem brackets_jump
    {target : Except JumpError JumpStack}
    (records : ∀ after, target = .ok after → after.brackets = point.brackets) :
    (point.jump span target).brackets = point.brackets := by
  cases target with
  | error cause =>
      rfl
  | ok after =>
      exact records after rfl

end FlowPoint

mutual

@[simp] theorem brackets_analyzeExpr
    (options : CompilerOptions) :
    ∀ (expr : Expr) (point : FlowPoint),
      (analyzeExpr options expr point).brackets = point.brackets
  | .intLit .., _ | .boolLit .., _ | .stringLit .., _ | .null _, _ => rfl
  | .name span ref, point => by
      simp [analyzeExpr]
  | .newArray _ _ elements, point | .call _ _ elements, point => by
      simp only [analyzeExpr]
      exact brackets_analyzeExprs options elements point
  | .binary _ _ left right, point => by
      simp only [analyzeExpr]
      rw [brackets_analyzeExpr options right, brackets_analyzeExpr options left]
  | .assign _ target op value, point => by
      have read : (if op.isSome then point.checkReadOf target.span target.node.binding
          else point).brackets = point.brackets := by
        split <;> simp
      simp only [analyzeExpr]
      split
      · rw [brackets_analyzeExpr options value, read]
      · rw [FlowPoint.brackets_assign, FlowPoint.brackets_checkFinal,
          brackets_analyzeExpr options value, read]
  | .methodCall _ receiver _ args, point => by
      simp only [analyzeExpr]
      rw [brackets_analyzeExprs options args, FlowPoint.brackets_checkDereference,
        brackets_analyzeExpr options receiver]

@[simp] theorem brackets_analyzeExprs
    (options : CompilerOptions) :
    ∀ (exprs : List Expr) (point : FlowPoint),
      (analyzeExprs options exprs point).brackets = point.brackets
  | [], _ => rfl
  | expr :: rest, point => by
      simp only [analyzeExprs]
      rw [brackets_analyzeExprs options rest, brackets_analyzeExpr options expr]

end

@[simp] theorem brackets_analyzeDecl
    (options : CompilerOptions)
    (decl : LocalDecl)
    (point : FlowPoint) :
    (analyzeDecl options decl point).brackets = point.brackets := by
  simp only [analyzeDecl]
  split
  · rfl
  · split <;> simp

/-- Where a loop is entered, its record is added. -/
theorem brackets_enterLoop
    (options : CompilerOptions)
    (scope : ScopeId)
    (element : LocalDecl)
    (collection : Expr)
    (point : FlowPoint) :
    (enterLoop options scope element collection point).body.brackets =
      .loop scope (enterLoop options scope element collection point).before ::
        point.brackets := by
  have evaluated : (analyzeExpr options collection (analyzeDecl options element
      (point.checkDereference options collection))).brackets = point.brackets := by
    simp
  exact congrArg _ evaluated

@[simp] theorem brackets_settleNull
    (onEntry : FlowState)
    (backEdge : Option FlowState)
    (point : FlowPoint)
    (use : LocalId × Span) :
    (settleNull onEntry backEdge point use).brackets = point.brackets := by
  simp only [settleNull]
  split <;> first | rfl | exact JumpStack.brackets_deferNull _ _ _ _ _

/-- So does settling the uses of references that have been deferred. -/
theorem brackets_settleNulls
    (onEntry : FlowState)
    (backEdge : Option FlowState)
    (deferred : List (LocalId × Span))
    (point : FlowPoint) :
    (deferred.foldl (settleNull onEntry backEdge) point).brackets = point.brackets := by
  induction deferred generalizing point with
  | nil =>
      rfl
  | cons use rest inductionHypothesis =>
      rw [List.foldl_cons, inductionHypothesis, brackets_settleNull]

/-- Leaving a loop takes off its record and changes nothing that is kept of the others. -/
theorem brackets_leaveLoop
    (options : CompilerOptions)
    (element : LocalDecl)
    (facts : LoopFacts)
    (entry : LoopEntry)
    (body : LoopBody)
    {scope : ScopeId}
    {onEntry : FlowState}
    {around : List JumpBracket}
    (isOpen : body.finish.brackets = .loop scope onEntry :: around) :
    (leaveLoop options element facts entry body).point.brackets = around := by
  obtain ⟨record, rest, isPushed, -, -, isAround⟩ := JumpStack.exists_loop_of_brackets isOpen
  rw [leaveLoop_eq _ _ _ _ _ isPushed]
  simp only [leaveLoopWith]
  refine (brackets_settleNulls _ _ _ _).trans ?_
  rw [← isAround]
  split
  · exact congrArg JumpStack.brackets (jumps_settleFinals _ _ _)
  · rfl

/-- Flow through the body of a loop changes nothing that is kept if that through the statement
in it does not. -/
theorem LoopEntry.brackets_analyzeBody
    {options : CompilerOptions}
    {action : Stmt}
    {entry : LoopEntry}
    (keeps : (analyzeStmt options action entry.body).point.brackets = entry.body.brackets) :
    (entry.analyzeBody options action).finish.brackets = entry.body.brackets := by
  rw [analyzeBody]
  split
  · rfl
  · split
    · exact keeps
    · rfl

mutual

/-- The analysis of a statement changes nothing that is kept. -/
theorem brackets_analyzeStmt
    (options : CompilerOptions) :
    ∀ (stmt : Stmt) (point : FlowPoint),
      (analyzeStmt options stmt point).point.brackets = point.brackets
  | .localVar span decl, point => by
      simp only [analyzeStmt]
      exact brackets_analyzeDecl options decl point
  | .expr span value, point => by
      simp only [analyzeStmt]
      exact brackets_analyzeExpr options value point
  | .block span stmts facts, point => by
      simp only [analyzeStmt]
      exact brackets_analyzeStmts options stmts point
  | .branch span condition thenBranch none, point => by
      simp only [analyzeStmt]
      exact (brackets_analyzeStmt options thenBranch _).trans
        (brackets_analyzeExpr options condition point)
  | .branch span condition thenBranch (some elseBranch), point => by
      simp only [analyzeStmt]
      refine (brackets_analyzeStmt options elseBranch _).trans ?_
      exact (brackets_analyzeStmt options thenBranch _).trans
        (brackets_analyzeExpr options condition point)
  | .forEach span element collection none facts, point => by
      simp only [analyzeStmt]
      cases facts.scope with
      | none =>
          rfl
      | some scope =>
          exact brackets_leaveLoop options element _ _ _
            (brackets_enterLoop options scope element collection point)
  | .forEach span element collection (some action) facts, point => by
      simp only [analyzeStmt]
      cases facts.scope with
      | none =>
          rfl
      | some scope =>
          have ran := LoopEntry.brackets_analyzeBody (brackets_analyzeStmt options action
            (enterLoop options scope element collection point).body)
          exact brackets_leaveLoop options element _ _ _
            (ran.trans (brackets_enterLoop options scope element collection point))
  | .labeled span label body, point => by
      have isOpen := brackets_analyzeStmt options body
        { point with jumps := point.jumps.pushLabel label.node body.isLoop }
      obtain ⟨record, rest, isPushed, -, -, isAround⟩ :=
        JumpStack.exists_label_of_brackets isOpen
      simp only [analyzeStmt, isPushed, JumpStack.popLabel]
      exact isAround
  | .breakTo span label, point => by
      simp only [analyzeStmt]
      exact point.brackets_jump span fun after succeeds =>
        (JumpStack.takes_of_recordBreak succeeds).brackets_eq
  | .continueTo span label, point => by
      simp only [analyzeStmt]
      exact point.brackets_jump span fun after succeeds =>
        (JumpStack.takes_of_recordContinue succeeds).brackets_eq
  | .returnWith span none, point | .empty span, point => by
      simp only [analyzeStmt, FlowPoint.brackets]
  | .returnWith span (some value), point => by
      simp only [analyzeStmt]
      exact brackets_analyzeExpr options value point

theorem brackets_analyzeStmts
    (options : CompilerOptions) :
    ∀ (stmts : List Stmt) (point : FlowPoint),
      (analyzeStmts options stmts point).point.brackets = point.brackets
  | [], point => by
      simp only [analyzeStmts]
  | stmt :: rest, point => by
      simp only [analyzeStmts]
      split
      · exact (brackets_analyzeStmts options rest _).trans (brackets_analyzeStmt options stmt point)
      · rfl

end

/-!
## The records that are taken off
-/

namespace JumpStack

/-- Whether leaving a loop finds the record that has been added when it was entered, above what
is kept of the records around it. -/
def findsLoop
    (stack : JumpStack)
    (scope : ScopeId)
    (onEntry : FlowState)
    (around : JumpStack) :
    Bool :=
  match stack.popLoop with
  | (some record, rest) =>
      record.scope == scope && record.onEntry == onEntry && rest.brackets == around.brackets
  | (none, _) => false

/-- Whether leaving a labeled statement finds the record that has been added when it was
entered, above what is kept of the records around it. -/
def findsLabel
    (stack : JumpStack)
    (name : String)
    (labelsLoop : Bool)
    (around : JumpStack) :
    Bool :=
  match stack.popLabel with
  | (some record, rest) =>
      record.name == name && record.labelsLoop == labelsLoop && rest.brackets == around.brackets
  | (none, _) => false

/-- The record of a loop is found where it is the innermost one that is kept. -/
theorem findsLoop_of_brackets
    {stack around : JumpStack}
    {scope : ScopeId}
    {onEntry : FlowState}
    (isOpen : stack.brackets = .loop scope onEntry :: around.brackets) :
    stack.findsLoop scope onEntry around = true := by
  obtain ⟨record, rest, rfl, sameScope, sameEntry, isAround⟩ := exists_loop_of_brackets isOpen
  simp [findsLoop, popLoop, sameScope, sameEntry, isAround]

/-- A label that is still there is not taken for the record of a loop, and stays. -/
example :
    let stack : JumpStack := [.label (.entered "inner" false), .loop (.entered 1 .initial)]
    stack.popLoop.2.length = 2 ∧ stack.findsLoop 1 .initial [] = false :=
  ⟨rfl, rfl⟩

/-- The record of a label is found where it is the innermost one that is kept. -/
theorem findsLabel_of_brackets
    {stack around : JumpStack}
    {name : String}
    {labelsLoop : Bool}
    (isOpen : stack.brackets = .label name labelsLoop :: around.brackets) :
    stack.findsLabel name labelsLoop around = true := by
  obtain ⟨record, rest, rfl, sameName, sameKind, isAround⟩ := exists_label_of_brackets isOpen
  simp [findsLabel, popLabel, sameName, sameKind, isAround]

end JumpStack

/-- Leave a loop, unless that takes off another record than its own. -/
def leaveLoop?
    (options : CompilerOptions)
    (element : LocalDecl)
    (facts : LoopFacts)
    (scope : ScopeId)
    (around : JumpStack)
    (entry : LoopEntry)
    (body : LoopBody) :
    Option LoopExit :=
  if body.finish.jumps.findsLoop scope entry.before around then
    some (leaveLoop options element facts entry body)
  else
    none

/-- Flow through the body of a loop that has been entered, given up where that of the statement
in it is. -/
def LoopEntry.analyzeBody?
    (options : CompilerOptions)
    (action : Stmt)
    (analyze : FlowPoint → Option (Flowed Stmt))
    (entry : LoopEntry) :
    Option LoopBody :=
  if skipsAction options action then
    some ⟨some action, false, false, entry.body⟩
  else if entry.body.flow.reachable then
    (analyze entry.body).map fun analyzed => ⟨some analyzed.node, true, true, analyzed.point⟩
  else
    some ⟨some action, true, false, entry.body.report .unreachableCode action.span⟩

mutual

/-- Flow through a statement, given up where leaving a loop or a labeled statement takes off
another record than its own. -/
def analyzeStmt?
    (options : CompilerOptions) :
    Stmt → FlowPoint → Option (Flowed Stmt)
  | .block span stmts facts, point =>
      (analyzeStmts? options stmts point).map fun body =>
        ⟨.block span body.nodes { facts with unreachableFrom := body.unreachableFrom }, body.point⟩
  | .branch span condition thenBranch none, point =>
      let tested := analyzeExpr options condition point
      (analyzeStmt? options thenBranch tested).map fun thenBranch =>
        ⟨.branch span condition thenBranch.node none,
          thenBranch.point.mapFlow (fun flow => flow.merge tested.flow)⟩
  | .branch span condition thenBranch (some elseBranch), point =>
      let tested := analyzeExpr options condition point
      (analyzeStmt? options thenBranch tested).bind fun thenBranch =>
        (analyzeStmt? options elseBranch { thenBranch.point with flow := tested.flow }).map
          fun elseBranch =>
            ⟨.branch span condition thenBranch.node (some elseBranch.node),
              elseBranch.point.mapFlow (fun flow => thenBranch.point.flow.merge flow)⟩
  | .forEach span element collection none facts, point =>
      let met := facts.met point.flow.reachable
      match facts.scope with
      | none => some ⟨.forEach span element collection none met, point⟩
      | some scope =>
          let entry := enterLoop options scope element collection point
          (leaveLoop? options element met scope point.jumps entry
            ⟨none, false, false, entry.body⟩).map fun left =>
              ⟨.forEach span element collection none left.facts, left.point⟩
  | .forEach span element collection (some action) facts, point =>
      let met := facts.met point.flow.reachable
      match facts.scope with
      | none => some ⟨.forEach span element collection (some action) met, point⟩
      | some scope =>
          let entry := enterLoop options scope element collection point
          (entry.analyzeBody? options action (analyzeStmt? options action)).bind fun body =>
            (leaveLoop? options element met scope point.jumps entry body).map fun left =>
              ⟨.forEach span element collection body.action left.facts, left.point⟩
  | .labeled span label body, point =>
      let labelsLoop := body.isLoop
      let entered := { point with jumps := point.jumps.pushLabel label.node labelsLoop }
      (analyzeStmt? options body entered).bind fun body =>
        if body.point.jumps.findsLabel label.node labelsLoop point.jumps then
          let popped := body.point.jumps.popLabel
          let left := { body.point with jumps := popped.2 }
          some ⟨.labeled span label body.node,
            match popped.1 with
            | some record => left.mapFlow (fun flow => flow.merge record.onBreak)
            | none => left⟩
        else
          none
  | stmt, point => some (analyzeStmt options stmt point)

/-- Flow through the statements of a list, given up where that of one of them is. -/
def analyzeStmts?
    (options : CompilerOptions) :
    List Stmt → FlowPoint → Option FlowedList
  | [], point => some ⟨[], none, point⟩
  | stmt :: rest, point =>
      if point.flow.reachable then
        (analyzeStmt? options stmt point).bind fun head =>
          (analyzeStmts? options rest head.point).map fun tail =>
            ⟨head.node :: tail.nodes, tail.unreachableFrom.map (· + 1), tail.point⟩
      else
        some ⟨stmt :: rest, some 0, point.report .unreachableCode stmt.span⟩

end

/-- A loop takes off its own record where that is the innermost one that is kept. -/
theorem leaveLoop?_eq
    (options : CompilerOptions)
    (element : LocalDecl)
    (facts : LoopFacts)
    (around : JumpStack)
    {scope : ScopeId}
    {entry : LoopEntry}
    {body : LoopBody}
    (isOpen : body.finish.brackets = .loop scope entry.before :: around.brackets) :
    leaveLoop? options element facts scope around entry body =
      some (leaveLoop options element facts entry body) :=
  if_pos (JumpStack.findsLoop_of_brackets isOpen)

/-- The analysis of the body of a loop is given up only if that of the statement in it is. -/
theorem LoopEntry.analyzeBody?_eq
    {options : CompilerOptions}
    {action : Stmt}
    {analyze : FlowPoint → Option (Flowed Stmt)}
    {entry : LoopEntry}
    (succeeds : analyze entry.body = some (analyzeStmt options action entry.body)) :
    entry.analyzeBody? options action analyze = some (entry.analyzeBody options action) := by
  rw [analyzeBody?, analyzeBody, succeeds]
  split
  · rfl
  · split <;> rfl

mutual

/-- The analysis of a statement is never given up. -/
theorem analyzeStmt?_eq
    (options : CompilerOptions) :
    ∀ (stmt : Stmt) (point : FlowPoint),
      analyzeStmt? options stmt point = some (analyzeStmt options stmt point)
  | .block span stmts facts, point => by
      simp only [analyzeStmt?, analyzeStmts?_eq options stmts, Option.map_some, analyzeStmt]
  | .branch span condition thenBranch none, point => by
      simp only [analyzeStmt?, analyzeStmt?_eq options thenBranch, Option.map_some, analyzeStmt]
  | .branch span condition thenBranch (some elseBranch), point => by
      simp only [analyzeStmt?, analyzeStmt?_eq options thenBranch,
        analyzeStmt?_eq options elseBranch, Option.bind_some, Option.map_some, analyzeStmt]
  | .forEach span element collection none facts, point => by
      simp only [analyzeStmt?, analyzeStmt]
      cases facts.scope with
      | none =>
          rfl
      | some scope =>
          simp only
          rw [leaveLoop?_eq options element _ point.jumps
            (brackets_enterLoop options scope element collection point), Option.map_some]
  | .forEach span element collection (some action) facts, point => by
      simp only [analyzeStmt?, analyzeStmt]
      cases facts.scope with
      | none =>
          rfl
      | some scope =>
          have ran := LoopEntry.brackets_analyzeBody (brackets_analyzeStmt options action
            (enterLoop options scope element collection point).body)
          -- The body leaves the record of the loop innermost, so the loop finds it.
          have isOpen := ran.trans (brackets_enterLoop options scope element collection point)
          simp only
          rw [LoopEntry.analyzeBody?_eq (analyzeStmt?_eq options action _), Option.bind_some,
            leaveLoop?_eq options element _ point.jumps isOpen, Option.map_some]
          rfl
  | .labeled span label body, point => by
      have isOpen : (analyzeStmt options body { point with
          jumps := point.jumps.pushLabel label.node body.isLoop }).point.jumps.brackets =
            .label label.node body.isLoop :: point.jumps.brackets :=
        brackets_analyzeStmt options body _
      simp only [analyzeStmt?, analyzeStmt?_eq options body, Option.bind_some, analyzeStmt]
      exact if_pos (JumpStack.findsLabel_of_brackets isOpen)
  | .localVar .., point | .expr .., point | .breakTo .., point | .continueTo .., point
  | .returnWith .., point | .empty _, point => by
      simp only [analyzeStmt?]

theorem analyzeStmts?_eq
    (options : CompilerOptions) :
    ∀ (stmts : List Stmt) (point : FlowPoint),
      analyzeStmts? options stmts point = some (analyzeStmts options stmts point)
  | [], point => by
      simp only [analyzeStmts?, analyzeStmts]
  | stmt :: rest, point => by
      simp only [analyzeStmts?, analyzeStmt?_eq options stmt, analyzeStmts?_eq options rest,
        Option.bind_some, Option.map_some, analyzeStmts]
      split <;> rfl

end

/-- Analyzing a statement, whatever it is and on whatever path, leaves the stack of the jump
targets around it as deep as it has been, and changes nothing that their records keep. Every
loop and labeled statement in it takes off its own record when it is left: the analysis that
gives up otherwise never does. -/
theorem analyzeStmt_wellBracketed
    (options : CompilerOptions)
    (stmt : Stmt)
    (point : FlowPoint) :
    (analyzeStmt options stmt point).point.jumps.length = point.jumps.length ∧
      (analyzeStmt options stmt point).point.jumps.brackets = point.jumps.brackets ∧
      analyzeStmt? options stmt point = some (analyzeStmt options stmt point) := by
  have keeps : (analyzeStmt options stmt point).point.jumps.brackets = point.jumps.brackets :=
    brackets_analyzeStmt options stmt point
  have sameDepth := congrArg List.length keeps
  rw [JumpStack.brackets, JumpStack.brackets, List.length_map, List.length_map] at sameDepth
  exact ⟨sameDepth, keeps, analyzeStmt?_eq options stmt point⟩

end LoopLowering
