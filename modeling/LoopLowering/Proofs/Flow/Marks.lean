import LoopLowering.Flow.Statements
import LoopLowering.Proofs.Resolution.Growth

namespace LoopLowering

/-!
# What flow analysis changes

Flow analysis declares nothing. It reports, records flow states, and marks the
locals as used that the code of a loop is going to need.
-/

open MethodState

/-- Changing nothing but the recorded flow states marks nothing. -/
theorem MethodState.marks_addCheckpoint
    (flow : FlowState)
    (state : MethodState) :
    state.Marks (state.addCheckpoint flow) :=
  ⟨⟨.refl _, rfl, rfl, fun _ => id⟩, rfl, rfl⟩

namespace FlowPoint

/-- Checking a read marks nothing. -/
theorem marks_checkReadOf
    (span : Span)
    (binding : Option LocalId)
    (point : FlowPoint) :
    point.state.Marks (point.checkReadOf span binding).state := by
  cases binding with
  | none =>
      exact .refl _
  | some id =>
      simp only [checkReadOf, checkRead]
      split
      · exact .refl _
      · exact marks_report _ _ _

/-- Checking an assignment to a final local marks nothing. -/
theorem marks_checkFinal
    (span : Span)
    (id : LocalId)
    (point : FlowPoint) :
    point.state.Marks (point.checkFinal span id).state := by
  simp only [checkFinal]
  split
  · exact .refl _
  · split
    · exact marks_report _ _ _
    · exact .refl _

/-- Recording an assignment marks nothing. -/
theorem marks_assign
    (options : CompilerOptions)
    (id : LocalId)
    (status : NullStatus)
    (point : FlowPoint) :
    point.state.Marks (point.assign options id status).state := by
  simp only [assign]
  split <;> exact .refl _

/-- Checking the use of a reference marks nothing. -/
theorem marks_checkNull
    (span : Span)
    (id : LocalId)
    (point : FlowPoint) :
    point.state.Marks (point.checkNull span id).state := by
  simp only [checkNull]
  split
  · exact marks_report _ _ _
  · exact marks_report _ _ _
  · exact .refl _
  · exact .refl _

/-- Checking the use of a value as an object marks nothing. -/
theorem marks_checkDereference
    (options : CompilerOptions)
    (value : Expr)
    (point : FlowPoint) :
    point.state.Marks (point.checkDereference options value).state := by
  simp only [checkDereference]
  split
  · exact .refl _
  · split
    · exact marks_report _ _ _
    · split
      · exact marks_checkNull _ _ _
      · exact .refl _
    · exact .refl _

/-- A jump marks nothing. -/
theorem marks_jump
    (span : Span)
    (target : Except JumpError JumpStack)
    (point : FlowPoint) :
    point.state.Marks (point.jump span target).state := by
  cases target with
  | ok jumps =>
      exact .refl _
  | error cause =>
      exact marks_report _ _ _

end FlowPoint

mutual

/-- Flow through an expression marks nothing. -/
theorem marks_analyzeExpr
    (options : CompilerOptions) :
    ∀ (expr : Expr) (point : FlowPoint),
      point.state.Marks (analyzeExpr options expr point).state
  | .intLit .., point | .boolLit .., point | .stringLit .., point | .null _, point => by
      simp only [analyzeExpr]
      exact .refl _
  | .name span ref, point => by
      simp only [analyzeExpr]
      exact point.marks_checkReadOf span ref.binding
  | .newArray _ _ elements, point => by
      simp only [analyzeExpr]
      exact marks_analyzeExprs options elements point
  | .binary _ _ left right, point => by
      simp only [analyzeExpr]
      exact (marks_analyzeExpr options left point).trans (marks_analyzeExpr options right _)
  | .assign _ target op value, point => by
      have read : point.state.Marks
          (if op.isSome then point.checkReadOf target.span target.node.binding else point).state := by
        split
        · exact point.marks_checkReadOf _ _
        · exact .refl _
      have evaluated := read.trans (marks_analyzeExpr options value _)
      simp only [analyzeExpr]
      split
      · exact evaluated
      · exact (evaluated.trans (FlowPoint.marks_checkFinal _ _ _)).trans
          (FlowPoint.marks_assign _ _ _ _)
  | .call _ _ args, point => by
      simp only [analyzeExpr]
      exact marks_analyzeExprs options args point
  | .methodCall _ receiver _ args, point => by
      simp only [analyzeExpr]
      exact ((marks_analyzeExpr options receiver point).trans
        (FlowPoint.marks_checkDereference _ _ _)).trans (marks_analyzeExprs options args _)

theorem marks_analyzeExprs
    (options : CompilerOptions) :
    ∀ (exprs : List Expr) (point : FlowPoint),
      point.state.Marks (analyzeExprs options exprs point).state
  | [], point => by
      simp only [analyzeExprs]
      exact .refl _
  | expr :: rest, point => by
      simp only [analyzeExprs]
      exact (marks_analyzeExpr options expr point).trans (marks_analyzeExprs options rest _)

end

/-- Flow through a declaration marks nothing. -/
theorem marks_analyzeDecl
    (options : CompilerOptions)
    (decl : LocalDecl)
    (point : FlowPoint) :
    point.state.Marks (analyzeDecl options decl point).state := by
  simp only [analyzeDecl]
  split
  · exact .refl _
  · split
    · exact marks_analyzeExpr options _ point
    · exact (marks_analyzeExpr options _ point).trans (FlowPoint.marks_assign _ _ _ _)

/-- Entering a loop marks nothing. -/
theorem marks_enterLoop
    (options : CompilerOptions)
    (scope : ScopeId)
    (element : LocalDecl)
    (collection : Expr)
    (point : FlowPoint) :
    point.state.Marks (enterLoop options scope element collection point).body.state :=
  (((FlowPoint.marks_checkDereference options collection point).trans
    (marks_analyzeDecl options element _)).trans (marks_analyzeExpr options collection _)).trans
      (marks_addCheckpoint _ _)

/-- Reporting repeated assignments marks nothing. -/
theorem marks_settleFinals
    (bodyEnd : FlowState) :
    ∀ (deferred : List (LocalId × Span)) (point : FlowPoint),
      point.state.Marks (settleFinals deferred bodyEnd point).state
  | [], _ => .refl _
  | use :: rest, point => by
      rw [settleFinals, List.foldl_cons, ← settleFinals]
      refine Marks.trans ?_ (marks_settleFinals bodyEnd rest _)
      split
      · exact marks_report _ _ _
      · exact .refl _

/-- Reporting a use of null marks nothing. -/
theorem marks_settleNull
    (onEntry : FlowState)
    (backEdge : Option FlowState)
    (point : FlowPoint)
    (use : LocalId × Span) :
    point.state.Marks (settleNull onEntry backEdge point use).state := by
  simp only [settleNull]
  split <;> first | exact marks_report _ _ _ | exact .refl _

/-- Reporting uses of null marks nothing. -/
theorem marks_settleNulls
    (onEntry : FlowState)
    (backEdge : Option FlowState) :
    ∀ (deferred : List (LocalId × Span)) (point : FlowPoint),
      point.state.Marks (deferred.foldl (settleNull onEntry backEdge) point).state
  | [], _ => .refl _
  | use :: rest, point => by
      rw [List.foldl_cons]
      exact (marks_settleNull onEntry backEdge point use).trans
        (marks_settleNulls onEntry backEdge rest _)

/-- Marking the locals of a loop marks locals. -/
theorem marks_markSynthetics
    (options : CompilerOptions)
    (classification : LoopClassification)
    (emptyAction : Bool)
    (element : Option LocalId)
    (continues : Bool)
    (state : MethodState) :
    state.Marks
      (state.mapScope (markSynthetics options classification emptyAction element continues)) := by
  have mark : ∀ (id : LocalId) (before : MethodState),
      before.Marks (before.mapScope (.markUsed id)) := fun id before =>
    marks_markUse (some id) before
  change state.Marks { state with
    scope := markSynthetics options classification emptyAction element continues state.scope }
  cases strategy : classification.strategy? with
  | none =>
      simp only [markSynthetics, strategy]
      exact .refl state
  | some found =>
      cases found with
      | array index bound source =>
          have stored := mark source state
          have everything := (stored.trans (mark index _)).trans (mark bound _)
          simp only [markSynthetics, strategy]
          generalize (!emptyAction || _) = touched
          cases touched with
          | false =>
              exact .refl state
          | true =>
              cases continues with
              | false =>
                  exact stored
              | true =>
                  exact everything
      | rawIterable iterator receiver | genericIterable iterator receiver =>
          simp only [markSynthetics, strategy]
          exact mark iterator state

/-- Leaving a loop of which a record was kept marks locals at most. -/
theorem marks_leaveLoopWith
    (options : CompilerOptions)
    (element : LocalDecl)
    (facts : LoopFacts)
    (entry : LoopEntry)
    (body : LoopBody)
    (record : LoopRecord)
    (point : FlowPoint) :
    point.state.Marks (leaveLoopWith options element facts entry body record point).point.state := by
  unfold leaveLoopWith
  refine Marks.trans ?_ (marks_addCheckpoint _ _)
  refine Marks.trans ?_ (marks_settleNulls _ _ _ _)
  refine Marks.trans ?_ (marks_markSynthetics _ _ _ _ _ _)
  split
  · exact marks_settleFinals _ _ _
  · exact .refl _

/-- Leaving a loop marks locals at most. -/
theorem marks_leaveLoop
    (options : CompilerOptions)
    (element : LocalDecl)
    (facts : LoopFacts)
    (entry : LoopEntry)
    (body : LoopBody) :
    body.finish.state.Marks (leaveLoop options element facts entry body).point.state := by
  simp only [leaveLoop]
  split
  · exact marks_leaveLoopWith options element facts entry body _
      { body.finish with jumps := body.finish.jumps.popLoop.2 }
  · exact .refl _

mutual

/-- Flow through a statement marks locals at most. -/
theorem marks_analyzeStmt
    (options : CompilerOptions) :
    ∀ (stmt : Stmt) (point : FlowPoint),
      point.state.Marks (analyzeStmt options stmt point).point.state
  | .localVar span decl, point => by
      simp only [analyzeStmt]
      exact marks_analyzeDecl options decl point
  | .expr span value, point => by
      simp only [analyzeStmt]
      exact marks_analyzeExpr options value point
  | .block span stmts facts, point => by
      simp only [analyzeStmt]
      exact marks_analyzeStmts options stmts point
  | .branch span condition thenBranch none, point => by
      simp only [analyzeStmt]
      exact (marks_analyzeExpr options condition point).trans
        (marks_analyzeStmt options thenBranch _)
  | .branch span condition thenBranch (some elseBranch), point => by
      simp only [analyzeStmt]
      exact ((marks_analyzeExpr options condition point).trans
        (marks_analyzeStmt options thenBranch _)).trans
          (marks_analyzeStmt options elseBranch
            { (analyzeStmt options thenBranch (analyzeExpr options condition point)).point with
              flow := (analyzeExpr options condition point).flow })
  | .forEach span element collection none facts, point => by
      simp only [analyzeStmt]
      split
      · exact .refl _
      · next scope _ =>
          exact (marks_enterLoop options scope element collection point).trans
            (marks_leaveLoop options element _ _
              ⟨none, false, false, (enterLoop options scope element collection point).body⟩)
  | .forEach span element collection (some action) facts, point => by
      simp only [analyzeStmt]
      split
      · exact .refl _
      · refine Marks.trans ?_ (marks_leaveLoop options element _ _ _)
        have entered := marks_enterLoop options ‹_› element collection point
        split
        · exact entered
        · split
          · exact entered.trans (marks_analyzeStmt options action _)
          · exact entered.trans (marks_report _ _ _)
  | .labeled span label body, point => by
      have inner := marks_analyzeStmt options body
        { point with jumps := point.jumps.pushLabel label.node body.isLoop }
      simp only [analyzeStmt]
      split <;> exact inner
  | .breakTo span label, point | .continueTo span label, point => by
      simp only [analyzeStmt]
      exact FlowPoint.marks_jump _ _ _
  | .returnWith span none, point | .empty span, point => by
      simp only [analyzeStmt]
      exact .refl _
  | .returnWith span (some value), point => by
      simp only [analyzeStmt]
      exact marks_analyzeExpr options value point

theorem marks_analyzeStmts
    (options : CompilerOptions) :
    ∀ (stmts : List Stmt) (point : FlowPoint),
      point.state.Marks (analyzeStmts options stmts point).point.state
  | [], point => by
      simp only [analyzeStmts]
      exact .refl _
  | stmt :: rest, point => by
      simp only [analyzeStmts]
      split
      · exact (marks_analyzeStmt options stmt point).trans (marks_analyzeStmts options rest _)
      · exact marks_report _ _ _

end

/-- Flow through a method marks locals at most. -/
theorem marks_analyzeMethod
    (options : CompilerOptions)
    (method : Method)
    (state : MethodState) :
    state.Marks (analyzeMethod options method state).state := by
  have body := marks_analyzeStmts options method.body.stmts (.atBody method.params state)
  have completed : ∀ (completes : Bool) (before : MethodState),
      before.Marks { before with completesNormally := completes } :=
    fun _ before => ⟨⟨.refl before.scope, rfl, rfl, fun _ => id⟩, rfl, rfl⟩
  simp only [analyzeMethod, checkCompletion]
  exact (body.trans (completed _ _)).trans (marks_reportIf _ _ _ _)

end LoopLowering
