import LoopLowering.Proofs.Flow.DeferredChecks
import LoopLowering.Types.Builtins

namespace LoopLowering

/-!
# How often a check reports

Along a method, only the checks of its expressions add to what has been reported and
what loops wait for, and leaving a loop settles what it waits for or hands it on. So a
dereference is reported at most once. An assignment to a final local waits in every
loop that may repeat it, and each of them may report it.
-/

section Analysis

variable
  (check : DeferredCheck)
  {homes : LocalId → ScopeId → Bool}
  {loops : List ScopeId}

mutual

/-- Flow through an expression costs its checks. -/
theorem pays_analyzeExpr
    (options : CompilerOptions) :
    ∀ (expr : Expr) {point : FlowPoint},
      point.state.homes = homes → point.jumps.loops = loops →
        point.Pays check (expr.checks check homes loops) (analyzeExpr options expr point)
  | .intLit .., point, _, _ | .boolLit .., point, _, _ | .stringLit .., point, _, _
  | .null _, point, _, _ => .refl point
  | .name span ref, point, _, _ => by
      rw [analyzeExpr, Expr.checks]
      exact .checkReadOf span ref.binding point
  | .newArray _ _ elements, point, sameHomes, sameLoops => by
      rw [analyzeExpr, Expr.checks]
      exact pays_analyzeExprs options elements sameHomes sameLoops
  | .binary _ _ left right, point, sameHomes, sameLoops => by
      have first := pays_analyzeExpr options left sameHomes sameLoops
      rw [analyzeExpr, Expr.checks]
      exact first.trans (pays_analyzeExpr options right
        ((marks_analyzeExpr options left point).homes_eq.trans sameHomes)
        (first.loops_eq.trans sameLoops))
  | .assign _ target op value, point, sameHomes, sameLoops => by
      have read : point.Pays check []
          (if op.isSome then point.checkReadOf target.span target.node.binding else point) := by
        split
        · exact .checkReadOf _ _ point
        · exact .refl point
      have readMarks : point.state.Marks
          (if op.isSome then
            point.checkReadOf target.span target.node.binding
          else
            point).state := by
        split
        · exact point.marks_checkReadOf _ _
        · exact .refl _
      have evaluated := read.trans (pays_analyzeExpr options value
        (readMarks.homes_eq.trans sameHomes) (read.loops_eq.trans sameLoops))
      have marks := readMarks.trans (marks_analyzeExpr options value _)
      rw [List.nil_append] at evaluated
      rw [analyzeExpr, Expr.checks]
      cases binding : target.node.binding with
      | none =>
          simp only [binding] at evaluated
          exact evaluated.weaken _
      | some id =>
          have checked := @FlowPoint.Pays.checkFinal check _ _ binding (analyzeExpr options value
            (if op.isSome then point.checkReadOf target.span target.node.binding else point))
          rw [marks.homes_eq.trans sameHomes, evaluated.loops_eq.trans sameLoops] at checked
          simp only [binding] at evaluated checked
          simpa using (evaluated.trans checked).trans (.assign options id _ _)
  | .call _ _ args, point, sameHomes, sameLoops => by
      rw [analyzeExpr, Expr.checks]
      exact pays_analyzeExprs options args sameHomes sameLoops
  | .methodCall _ receiver _ args, point, sameHomes, sameLoops => by
      have evaluated := (pays_analyzeExpr options receiver sameHomes sameLoops).trans
        (.checkDereference options receiver (analyzeExpr options receiver point))
      have marks := (marks_analyzeExpr options receiver point).trans
        (FlowPoint.marks_checkDereference options receiver _)
      rw [analyzeExpr, Expr.checks]
      exact evaluated.trans (pays_analyzeExprs options args (marks.homes_eq.trans sameHomes)
        (evaluated.loops_eq.trans sameLoops))

theorem pays_analyzeExprs
    (options : CompilerOptions) :
    ∀ (exprs : List Expr) {point : FlowPoint},
      point.state.homes = homes → point.jumps.loops = loops →
        point.Pays check (Expr.allChecks check homes loops exprs) (analyzeExprs options exprs point)
  | [], point, _, _ => .refl point
  | expr :: rest, point, sameHomes, sameLoops => by
      have first := pays_analyzeExpr options expr sameHomes sameLoops
      rw [analyzeExprs, Expr.allChecks]
      exact first.trans (pays_analyzeExprs options rest
        ((marks_analyzeExpr options expr point).homes_eq.trans sameHomes)
        (first.loops_eq.trans sameLoops))

end

/-- Flow through a local declaration costs its checks. -/
theorem pays_analyzeDecl
    (options : CompilerOptions)
    (decl : LocalDecl)
    {point : FlowPoint}
    (sameHomes : point.state.homes = homes)
    (sameLoops : point.jumps.loops = loops) :
    point.Pays check (decl.checks check homes loops) (analyzeDecl options decl point) := by
  simp only [analyzeDecl, LocalDecl.checks]
  split
  · exact .refl point
  · next value initial =>
      have evaluated := pays_analyzeExpr check options value sameHomes sameLoops
      rw [initial, Option.map_some, Option.getD_some]
      split
      · exact evaluated
      · simpa using evaluated.trans (.assign options _ _ _)

/-- Entering a loop costs the checks of its head. The loop waits for nothing yet. -/
theorem pays_enterLoop
    (options : CompilerOptions)
    (scope : ScopeId)
    (element : LocalDecl)
    (collection : Expr)
    {point : FlowPoint}
    (sameHomes : point.state.homes = homes)
    (sameLoops : point.jumps.loops = loops) :
    ∃ jumps,
      (enterLoop options scope element collection point).body.jumps =
        jumps.pushLoop scope (enterLoop options scope element collection point).before ∧
      point.Pays check
        (check.ofDereference collection.span ++ element.checks check homes loops ++
          collection.checks check homes loops)
        { (enterLoop options scope element collection point).body with jumps := jumps } := by
  have used : point.Pays check _ _ := .checkDereference options collection point
  have usedMarks := FlowPoint.marks_checkDereference options collection point
  have declared := used.trans (pays_analyzeDecl check options element
    (usedMarks.homes_eq.trans sameHomes) (used.loops_eq.trans sameLoops))
  have declaredMarks := usedMarks.trans (marks_analyzeDecl options element _)
  have evaluated := declared.trans (pays_analyzeExpr check options collection
    (declaredMarks.homes_eq.trans sameHomes) (declared.loops_eq.trans sameLoops))
  exact ⟨_, rfl, evaluated.shape, evaluated.charges⟩

/-- Settling the assignments a loop waits for costs their checks. -/
theorem pays_settleFinals
    (bodyEnd : FlowState) :
    ∀ (deferred : List (LocalId × Span)) (point : FlowPoint),
      point.Pays check ((deferred.map Prod.snd).flatMap check.ofReassignment)
        (settleFinals deferred bodyEnd point)
  | [], point => .refl point
  | use :: rest, point => by
      rw [settleFinals, List.foldl_cons, ← settleFinals, List.map_cons, List.flatMap_cons]
      refine FlowPoint.Pays.trans ?_ (pays_settleFinals bodyEnd rest _)
      split
      · exact .reportReassigned _ _ point
      · exact .refl point

/-- Settling a use of a reference costs its check, also where it is deferred again. -/
theorem pays_settleNull
    (onEntry : FlowState)
    (backEdge : Option FlowState)
    (point : FlowPoint)
    (use : LocalId × Span) :
    point.Pays check (check.ofDereference use.2) (settleNull onEntry backEdge point use) := by
  simp only [settleNull]
  split
  · exact .reportNull (.inl rfl) _ point
  · exact .reportNull (.inr rfl) _ point
  · exact .reportNull (.inr rfl) _ point
  · exact .refl point
  · exact .deferNull use.1 use.2 point

/-- Settling the uses of references a loop waits for costs their checks. -/
theorem pays_settleNulls
    (onEntry : FlowState)
    (backEdge : Option FlowState) :
    ∀ (deferred : List (LocalId × Span)) (point : FlowPoint),
      point.Pays check ((deferred.map Prod.snd).flatMap check.ofDereference)
        (deferred.foldl (settleNull onEntry backEdge) point)
  | [], point => .refl point
  | use :: rest, point => by
      rw [List.foldl_cons, List.map_cons, List.flatMap_cons]
      exact (pays_settleNull check onEntry backEdge point use).trans
        (pays_settleNulls onEntry backEdge rest _)

/-- Settling all that a loop waits for costs the checks it waits for. -/
theorem pays_settle
    (record : LoopRecord)
    (repeats : Bool)
    (bodyEnd : FlowState)
    (backEdge : Option FlowState)
    (change : MethodScope → MethodScope)
    (point : FlowPoint) :
    let settled := if repeats then settleFinals record.deferredFinals bodyEnd point else point
    point.Pays check (check.deferred record.wait)
      (record.deferredNulls.foldl (settleNull record.onEntry backEdge)
        { settled with state := settled.state.mapScope change }) := by
  intro settled
  have finals : point.Pays check
      ((record.deferredFinals.map Prod.snd).flatMap check.ofReassignment) settled := by
    simp only [settled]
    split
    · exact pays_settleFinals check bodyEnd _ point
    · exact .refl point
  have marked : settled.Pays check [] { settled with state := settled.state.mapScope change } :=
    .ofWaits rfl fun _ => rfl
  have nulls := (finals.trans marked).trans
    (pays_settleNulls check record.onEntry backEdge record.deferredNulls _)
  rwa [List.append_nil] at nulls

/-- Leaving a loop costs the checks it waits for. -/
theorem pays_leaveLoopWith
    (options : CompilerOptions)
    (element : LocalDecl)
    (facts : LoopFacts)
    (entry : LoopEntry)
    (body : LoopBody)
    (record : LoopRecord)
    (point : FlowPoint) :
    point.Pays check (check.deferred record.wait)
      (leaveLoopWith options element facts entry body record point).point :=
  have settled := pays_settle check record _ _ _ _ point
  ⟨settled.shape, settled.charges⟩

/-- Leaving a loop costs nothing: what it waits for has been charged before. -/
theorem pays_leaveLoop
    (options : CompilerOptions)
    (element : LocalDecl)
    (facts : LoopFacts)
    (entry : LoopEntry)
    (body : LoopBody)
    {record : LoopRecord}
    {rest : JumpStack}
    (jumps : body.finish.jumps = .loop record :: rest) :
    (leaveLoop options element facts entry body).point.jumps.shape = rest.shape ∧
    ∀ span, (leaveLoop options element facts entry body).point.charges check span ≤
      body.finish.charges check span := by
  have left := pays_leaveLoopWith check options element facts entry body record
    { body.finish with jumps := rest }
  rw [leaveLoop_eq options element facts entry body jumps]
  refine ⟨left.shape, fun span => ?_⟩
  have charged := left.charges span
  simp only [FlowPoint.charges, jumps, JumpStack.pending_loop] at charged ⊢
  omega

/-- A loop around code that pays for its checks pays for them and for those of its head. -/
theorem pays_loop
    (options : CompilerOptions)
    (scope : ScopeId)
    (element : LocalDecl)
    (collection : Expr)
    (facts : LoopFacts)
    {point : FlowPoint}
    {body : LoopBody}
    {checks : List Span}
    (sameHomes : point.state.homes = homes)
    (sameLoops : point.jumps.loops = loops)
    (ran : (enterLoop options scope element collection point).body.Pays check checks body.finish) :
    point.Pays check
      (check.ofDereference collection.span ++ element.checks check homes loops ++
        collection.checks check homes loops ++ checks)
      (leaveLoop options element facts (enterLoop options scope element collection point)
        body).point := by
  obtain ⟨jumps, isPushed, entered⟩ :=
    pays_enterLoop check options scope element collection sameHomes sameLoops
  have isShape := ran.shape
  rw [isPushed] at isShape
  obtain ⟨record, rest, isLeft, restShape⟩ := JumpStack.exists_loop_of_shape isShape
  obtain ⟨leftShape, left⟩ := pays_leaveLoop check options element facts _ body isLeft
  refine ⟨leftShape.trans (restShape.trans entered.shape), fun span => ?_⟩
  have leaves := left span
  have runs := ran.charges span
  have enters := entered.charges span
  -- the loop has just been entered and waits for nothing
  have pushed : (enterLoop options scope element collection point).body.jumps.pending check span =
      jumps.pending check span := by
    rw [isPushed, JumpStack.pushLoop, JumpStack.pending_loop]
    simp [DeferredCheck.deferred, LoopRecord.wait, LoopRecord.entered]
  simp only [FlowPoint.charges, pushed] at leaves runs enters ⊢
  rw [List.count_append]
  omega

/-- A label around code costs nothing. -/
theorem pays_label
    {name : String}
    {labelsLoop : Bool}
    {point finish : FlowPoint}
    {checks : List Span}
    (ran : FlowPoint.Pays check checks
      { point with jumps := point.jumps.pushLabel name labelsLoop } finish) :
    ∃ record rest,
      finish.jumps = .label record :: rest ∧
      point.Pays check checks { finish with jumps := rest } := by
  obtain ⟨record, rest, isLeft, restShape⟩ := JumpStack.exists_label_of_shape ran.shape
  refine ⟨record, rest, isLeft, restShape, fun span => ?_⟩
  have charged := ran.charges span
  simpa only [FlowPoint.charges, isLeft, JumpStack.pushLabel, JumpStack.pending_label] using charged

mutual

/-- Flow through a statement costs its checks. -/
theorem pays_analyzeStmt
    (options : CompilerOptions) :
    ∀ (stmt : Stmt) {loops : List ScopeId} {point : FlowPoint},
      point.state.homes = homes → point.jumps.loops = loops →
        point.Pays check (stmt.checks check homes loops) (analyzeStmt options stmt point).point
  | .localVar span decl, _, point, sameHomes, sameLoops => by
      rw [analyzeStmt, Stmt.checks]
      exact pays_analyzeDecl check options decl sameHomes sameLoops
  | .expr span value, _, point, sameHomes, sameLoops => by
      rw [analyzeStmt, Stmt.checks]
      exact pays_analyzeExpr check options value sameHomes sameLoops
  | .block span stmts facts, _, point, sameHomes, sameLoops => by
      rw [analyzeStmt, Stmt.checks]
      exact pays_analyzeStmts options stmts sameHomes sameLoops
  | .branch span condition thenBranch none, _, point, sameHomes, sameLoops => by
      have tested := pays_analyzeExpr check options condition sameHomes sameLoops
      have marks := marks_analyzeExpr options condition point
      rw [analyzeStmt, Stmt.checks]
      exact (tested.trans (pays_analyzeStmt options thenBranch (marks.homes_eq.trans sameHomes)
        (tested.loops_eq.trans sameLoops))).withFlow _
  | .branch span condition thenBranch (some elseBranch), _, point, sameHomes, sameLoops => by
      have tested := pays_analyzeExpr check options condition sameHomes sameLoops
      have testedMarks := marks_analyzeExpr options condition point
      have ran := tested.trans (pays_analyzeStmt options thenBranch
        (testedMarks.homes_eq.trans sameHomes) (tested.loops_eq.trans sameLoops))
      have ranMarks := testedMarks.trans (marks_analyzeStmt options thenBranch _)
      have started := ran.withFlow (analyzeExpr options condition point).flow
      rw [analyzeStmt, Stmt.checks]
      exact (started.trans (pays_analyzeStmt options elseBranch
        (ranMarks.homes_eq.trans sameHomes) (started.loops_eq.trans sameLoops))).withFlow _
  | .forEach span element collection none facts, _, point, sameHomes, sameLoops => by
      rw [analyzeStmt, Stmt.checks]
      cases facts.scope with
      | none => exact .refl point
      | some scope =>
          have ran : FlowPoint.Pays check []
              (enterLoop options scope element collection point).body
              (LoopBody.mk none false false
                (enterLoop options scope element collection point).body).finish := .refl _
          have whole := pays_loop check options scope element collection
            (facts.met point.flow.reachable) sameHomes sameLoops ran
          rwa [List.append_nil] at whole
  | .forEach span element collection (some action) facts, loops, point, sameHomes, sameLoops => by
      rw [analyzeStmt, Stmt.checks]
      cases facts.scope with
      | none => exact .refl point
      | some scope =>
          refine pays_loop check options scope element collection (facts.met point.flow.reachable)
            sameHomes sameLoops ?_
          have enteredHomes : (enterLoop options scope element collection point).body.state.homes =
              homes :=
            (marks_enterLoop options scope element collection point).homes_eq.trans sameHomes
          have enteredLoops : (enterLoop options scope element collection point).body.jumps.loops =
              scope :: loops := by
            obtain ⟨jumps, isPushed, entered⟩ :=
              pays_enterLoop check options scope element collection sameHomes sameLoops
            have sameJumps : jumps.loops = loops := entered.loops_eq.trans sameLoops
            rw [isPushed, JumpStack.pushLoop, JumpStack.loops_loop, sameJumps]
            rfl
          split
          · exact .refl _
          · split
            · exact pays_analyzeStmt options action enteredHomes enteredLoops
            · have isOther : check.reports Issue.unreachableCode.problem = false := by
                cases check <;> rfl
              exact (FlowPoint.Pays.reportOther isOther action.span _).weaken _
  | .labeled span label body, _, point, sameHomes, sameLoops => by
      have ran : FlowPoint.Pays check _
          { point with jumps := point.jumps.pushLabel label.node body.isLoop } _ :=
        pays_analyzeStmt options body sameHomes ((JumpStack.loops_label _).trans sameLoops)
      obtain ⟨record, rest, isLeft, left⟩ := pays_label check ran
      simp only [analyzeStmt, Stmt.checks, isLeft, JumpStack.popLabel]
      exact left.withFlow _
  | .breakTo span label, _, point, _, _ => by
      rw [analyzeStmt, Stmt.checks]
      exact .jump fun _ recorded => (JumpStack.takes_of_recordBreak recorded).waits_eq
  | .continueTo span label, _, point, _, _ => by
      rw [analyzeStmt, Stmt.checks]
      exact .jump fun _ recorded => (JumpStack.takes_of_recordContinue recorded).waits_eq
  | .returnWith span none, _, point, _, _ => by
      rw [analyzeStmt, Stmt.checks]
      exact (FlowPoint.Pays.refl point).withFlow _
  | .returnWith span (some value), _, point, sameHomes, sameLoops => by
      rw [analyzeStmt, Stmt.checks]
      exact (pays_analyzeExpr check options value sameHomes sameLoops).withFlow _
  | .empty span, _, point, _, _ => by
      rw [analyzeStmt]
      exact .refl point

theorem pays_analyzeStmts
    (options : CompilerOptions) :
    ∀ (stmts : List Stmt) {loops : List ScopeId} {point : FlowPoint},
      point.state.homes = homes → point.jumps.loops = loops →
        point.Pays check (Stmt.allChecks check homes loops stmts)
          (analyzeStmts options stmts point).point
  | [], _, point, _, _ => by
      rw [analyzeStmts]
      exact .refl point
  | stmt :: rest, _, point, sameHomes, sameLoops => by
      rw [analyzeStmts, Stmt.allChecks]
      split
      · have first := pays_analyzeStmt options stmt sameHomes sameLoops
        exact first.trans (pays_analyzeStmts options rest
          ((marks_analyzeStmt options stmt point).homes_eq.trans sameHomes)
          (first.loops_eq.trans sameLoops))
      · have reported : point.Pays check [] (point.report .unreachableCode stmt.span) :=
          .reportOther (by cases check <;> rfl) stmt.span point
        exact reported.weaken _

end

end Analysis

/-- A check reports a position at most as often as the code of the method checks it
there: a dereference once, and an assignment to a final local once for every loop that
may repeat it, but at least once. -/
theorem reportsAt_analyzeMethod_le
    (options : CompilerOptions)
    (method : Method)
    (state : MethodState)
    (check : DeferredCheck)
    (span : Span) :
    (analyzeMethod options method state).state.reportsAt check span ≤
      state.reportsAt check span +
        (Stmt.allChecks check state.homes [] method.body.stmts).count span := by
  have paid : (FlowPoint.atBody method.params state).Pays check _ _ :=
    pays_analyzeStmts check options method.body.stmts rfl rfl
  have completed : (analyzeMethod options method state).state.reportsAt check span =
      (analyzeStmts options method.body.stmts
        (.atBody method.params state)).point.state.reportsAt check span := by
    simp only [analyzeMethod, checkCompletion, MethodState.reportIf]
    split
    · rw [MethodState.reportsAt_report]
      cases check <;> rfl
    · rfl
  rw [completed]
  exact Nat.le_trans (Nat.le_add_right _ _) (paid.charges span)

/-- Both loops around an assignment may repeat it, and both report it. -/
example :
    let element (name : String) : LocalDecl :=
      ⟨⟨name, .absent⟩, .named .absent "int", none, false, none⟩
    let loop (name collection : String) (action : Stmt) : Stmt :=
      .forEach .absent (element name) (.name .absent (.unbound collection)) (some action) .initial
    let assigned : Stmt :=
      .expr .absent (.assign .absent ⟨.unbound "x", .absent⟩ none (.intLit .absent 1))
    let param (name : String) : Param :=
      ⟨⟨name, .absent⟩, .array .absent (.named .absent "int"), false, none⟩
    let method : Method :=
      ⟨⟨"m", .absent⟩, [], [param "as", param "bs"], none,
        ⟨.absent, [.localVar .absent { element "x" with isFinal := true },
          loop "a" "as" (loop "b" "bs" assigned)], .initial⟩⟩
    let checked := checkMethod .builtin .standard method .initial
    (analyzeMethod .standard checked.node checked.state).state.reportsAt .final .absent = 2 := by
  decide +kernel

end LoopLowering
