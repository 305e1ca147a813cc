import LoopLowering.Proofs.Flow.Assignment

namespace LoopLowering

/-!
# Flow analysis narrows jump targets

Analyzing a statement leaves the targets around it as they were, except that
they have collected the jumps of the statement.
-/

/-- Reporting repeated assignments keeps the targets. -/
theorem jumps_settleFinals
    (bodyEnd : FlowState) :
    ∀ (deferred : List (LocalId × Span)) (point : FlowPoint),
      (settleFinals deferred bodyEnd point).jumps = point.jumps
  | [], _ => rfl
  | use :: rest, point => by
      rw [settleFinals, List.foldl_cons, ← settleFinals, jumps_settleFinals bodyEnd rest]
      split <;> rfl

/-- Reporting uses of null narrows the targets. -/
theorem narrows_settleNulls
    (onEntry : FlowState)
    (backEdge : Option FlowState) :
    ∀ (deferred : List (LocalId × Span)) (point : FlowPoint),
      point.jumps.Narrows (deferred.foldl (settleNull onEntry backEdge) point).jumps
  | [], _ => .refl _
  | use :: rest, point => by
      rw [List.foldl_cons]
      refine JumpStack.Narrows.trans ?_ (narrows_settleNulls onEntry backEdge rest _)
      simp only [settleNull]
      split <;> first | exact .refl _ | exact JumpStack.narrows_deferNull _ _ _ _ _

/-- Leaving a loop of which a record is kept narrows the targets around it. -/
theorem narrows_leaveLoopWith
    (options : CompilerOptions)
    (element : LocalDecl)
    (facts : LoopFacts)
    (entry : LoopEntry)
    (body : LoopBody)
    (record : LoopRecord)
    (point : FlowPoint) :
    point.jumps.Narrows (leaveLoopWith options element facts entry body record point).point.jumps := by
  simp only [leaveLoopWith]
  refine JumpStack.Narrows.trans ?_ (narrows_settleNulls _ _ _ _)
  split
  · rw [jumps_settleFinals]
  · exact .refl _

/-- The record of a loop is still there when its body ends. -/
theorem JumpStack.Narrows.exists_loop
    {scope : ScopeId}
    {onEntry : FlowState}
    {jumps after : JumpStack}
    (narrows : (jumps.pushLoop scope onEntry).Narrows after) :
    ∃ record rest, after = .loop record :: rest ∧ jumps.Narrows rest := by
  cases after with
  | nil =>
      exact narrows.elim
  | cons record rest =>
      cases record with
      | label =>
          exact narrows.1.elim
      | loop record =>
          exact ⟨record, rest, rfl, narrows.2⟩

/-- The record of a label is still there when its statement ends. -/
theorem JumpStack.Narrows.exists_label
    {name : String}
    {labelsLoop : Bool}
    {jumps after : JumpStack}
    (narrows : (jumps.pushLabel name labelsLoop).Narrows after) :
    ∃ record rest, after = .label record :: rest ∧ record.name = name ∧
      record.labelsLoop = labelsLoop ∧ jumps.Narrows rest := by
  cases after with
  | nil =>
      exact narrows.elim
  | cons record rest =>
      cases record with
      | loop =>
          exact narrows.1.elim
      | label record =>
          exact ⟨record, rest, rfl, narrows.1.1, narrows.1.2.1, narrows.2⟩

/-- Leaving a loop of which a record is kept. -/
theorem leaveLoop_eq
    (options : CompilerOptions)
    (element : LocalDecl)
    (facts : LoopFacts)
    (entry : LoopEntry)
    (body : LoopBody)
    {record : LoopRecord}
    {rest : JumpStack}
    (jumps : body.finish.jumps = .loop record :: rest) :
    leaveLoop options element facts entry body =
      leaveLoopWith options element facts entry body record { body.finish with jumps := rest } := by
  simp [leaveLoop, jumps, JumpStack.popLoop]

/-- Leaving a loop narrows the targets around it. -/
theorem narrows_leaveLoop
    (options : CompilerOptions)
    (element : LocalDecl)
    (facts : LoopFacts)
    (entry : LoopEntry)
    (body : LoopBody)
    {scope : ScopeId}
    {onEntry : FlowState}
    {jumps : JumpStack}
    (narrows : (jumps.pushLoop scope onEntry).Narrows body.finish.jumps) :
    jumps.Narrows (leaveLoop options element facts entry body).point.jumps := by
  obtain ⟨record, rest, isPushed, restNarrows⟩ := narrows.exists_loop
  rw [leaveLoop_eq _ _ _ _ _ isPushed]
  exact restNarrows.trans (narrows_leaveLoopWith options element facts entry body record
    { body.finish with jumps := rest })

/-- A jump narrows the targets. -/
theorem FlowPoint.narrows_jump
    {span : Span}
    {target : Except JumpError JumpStack}
    {point : FlowPoint}
    (narrows : ∀ after, target = .ok after → point.jumps.Narrows after) :
    point.jumps.Narrows (point.jump span target).jumps := by
  cases target with
  | error cause =>
      exact .refl _
  | ok after =>
      exact narrows after rfl

mutual

/-- Analyzing a statement narrows the targets around it. -/
theorem narrows_analyzeStmt
    (options : CompilerOptions) :
    ∀ (stmt : Stmt) {point : FlowPoint},
      point.flow.reachable = true →
      point.jumps.Narrows (analyzeStmt options stmt point).point.jumps
  | .localVar span decl, point, _ => by
      simp only [analyzeStmt]
      exact (evaluates_analyzeDecl options decl point).jumps
  | .expr span value, point, _ => by
      simp only [analyzeStmt]
      exact (evaluates_analyzeExpr options value point).jumps
  | .block span stmts facts, point, reached => by
      simp only [analyzeStmt]
      exact narrows_analyzeStmts options stmts reached
  | .branch span condition thenBranch none, point, reached => by
      have tested := evaluates_analyzeExpr options condition point
      simp only [analyzeStmt]
      exact tested.jumps.trans
        (narrows_analyzeStmt options thenBranch (tested.reachable.trans reached))
  | .branch span condition thenBranch (some elseBranch), point, reached => by
      have tested := evaluates_analyzeExpr options condition point
      have testedReached := tested.reachable.trans reached
      have thenNarrows := narrows_analyzeStmt options thenBranch testedReached
      have elseReached : ({ (analyzeStmt options thenBranch
          (analyzeExpr options condition point)).point with
            flow := (analyzeExpr options condition point).flow } : FlowPoint).flow.reachable =
          true := testedReached
      have elseNarrows := narrows_analyzeStmt options elseBranch elseReached
      simp only [analyzeStmt]
      exact (tested.jumps.trans thenNarrows).trans elseNarrows
  | .forEach span element collection none facts, point, reached => by
      simp only [analyzeStmt]
      cases facts.scope with
      | none =>
          exact .refl _
      | some scope =>
          obtain ⟨jumps, narrows, isPushed⟩ :=
            (enters_enterLoop options scope element collection point).jumps
          have own : (jumps.pushLoop scope
              (enterLoop options scope element collection point).before).Narrows
              (enterLoop options scope element collection point).body.jumps := by
            rw [isPushed]
          exact narrows.trans (narrows_leaveLoop options element _ _
            ⟨none, false, false, (enterLoop options scope element collection point).body⟩ own)
  | .forEach span element collection (some action) facts, point, reached => by
      simp only [analyzeStmt]
      cases facts.scope with
      | none =>
          exact .refl _
      | some scope =>
          obtain ⟨jumps, narrows, isPushed⟩ :=
            (enters_enterLoop options scope element collection point).jumps
          have ran : (enterLoop options scope element collection point).body.jumps.Narrows
              ((enterLoop options scope element collection point).analyzeBody options
                action).finish.jumps := by
            simp only [LoopEntry.analyzeBody]
            split
            · exact .refl _
            · split
              · exact narrows_analyzeStmt options action ‹_›
              · exact .refl _
          rw [isPushed] at ran
          exact narrows.trans (narrows_leaveLoop options element _ _
            ((enterLoop options scope element collection point).analyzeBody options action) ran)
  | .labeled span label body, point, reached => by
      have bodyReached : ({ point with
          jumps := point.jumps.pushLabel label.node body.isLoop } : FlowPoint).flow.reachable =
          true := reached
      have narrows := narrows_analyzeStmt options body bodyReached
      simp only [analyzeStmt]
      obtain ⟨record, rest, isPushed, -, -, restNarrows⟩ := narrows.exists_label
      simp only [isPushed, JumpStack.popLabel, FlowPoint.mapFlow]
      exact restNarrows
  | .breakTo span label, point, reached => by
      simp only [analyzeStmt]
      exact FlowPoint.narrows_jump fun after recorded =>
        ((JumpStack.takes_of_recordBreak recorded).admits reached (JumpStack.fits_frames after)).1
  | .continueTo span label, point, reached => by
      simp only [analyzeStmt]
      exact FlowPoint.narrows_jump fun after recorded =>
        ((JumpStack.takes_of_recordContinue recorded).admits reached
          (JumpStack.fits_frames after)).1
  | .returnWith span none, point, _ | .empty span, point, _ => by
      simp only [analyzeStmt]
      exact .refl _
  | .returnWith span (some value), point, _ => by
      simp only [analyzeStmt]
      exact (evaluates_analyzeExpr options value point).jumps

theorem narrows_analyzeStmts
    (options : CompilerOptions) :
    ∀ (stmts : List Stmt) {point : FlowPoint},
      point.flow.reachable = true →
      point.jumps.Narrows (analyzeStmts options stmts point).point.jumps
  | [], point, _ => by
      simp only [analyzeStmts]
      exact .refl _
  | stmt :: rest, point, reached => by
      simp only [analyzeStmts, reached, if_true]
      have head := narrows_analyzeStmt options stmt reached
      cases goesOn : (analyzeStmt options stmt point).point.flow.reachable with
      | true =>
          exact head.trans (narrows_analyzeStmts options rest goesOn)
      | false =>
          refine head.trans ?_
          cases rest with
          | nil =>
              simp only [analyzeStmts]
              exact .refl _
          | cons next rest =>
              simp only [analyzeStmts, goesOn, Bool.false_eq_true, if_false]
              exact .refl _

end

/-- Flow through the body of a loop narrows its targets. -/
theorem narrows_analyzeBody
    (options : CompilerOptions)
    (action : Stmt)
    (entry : LoopEntry) :
    entry.body.jumps.Narrows (entry.analyzeBody options action).finish.jumps := by
  simp only [LoopEntry.analyzeBody]
  split
  · exact .refl _
  · split
    · next reached => exact narrows_analyzeStmt options action reached
    · exact .refl _

end LoopLowering
