import LoopLowering.Proofs.Flow.AlikeStates
import LoopLowering.Proofs.Flow.Runs
import LoopLowering.Proofs.Resolution.Methods
import LoopLowering.Proofs.Resolution.Reporting

namespace LoopLowering

/-!
# Flow analysis and the choice of reports

Whether nullness is analyzed and which bodies are passed over decides on nothing
but reports. Two analyses of a method that differ in such choices agree on what
is reached and assigned everywhere, on the locals in use, and on the code.
-/

namespace FlowPoint

/-- Two points of flow analysis differ only in what is known about nullness and in
what is chosen about reports. -/
structure ReportsAlike
    (first second : FlowPoint) :
    Prop where
  flow : first.flow.AssignsAlike second.flow
  state : first.state.ReportsAlike second.state
  jumps : first.jumps.CollectsAlike second.jumps

namespace ReportsAlike

variable
  {first second third : FlowPoint}

theorem refl
    (point : FlowPoint) :
    point.ReportsAlike point :=
  ⟨.refl _, .refl _, JumpStack.collectsAlike_refl _⟩

theorem symm
    (alike : first.ReportsAlike second) :
    second.ReportsAlike first :=
  ⟨alike.flow.symm, alike.state.symm, alike.jumps.flip.imp fun _ _ => .symm⟩

theorem trans
    (alike : first.ReportsAlike second)
    (other : second.ReportsAlike third) :
    first.ReportsAlike third :=
  ⟨alike.flow.trans other.flow, alike.state.trans other.state,
    JumpStack.collectsAlike_trans alike.jumps other.jumps⟩

/-- Flow goes on from states that agree. -/
theorem withFlow
    (alike : first.ReportsAlike second)
    {flow other : FlowState}
    (flowAlike : flow.AssignsAlike other) :
    ReportsAlike { first with flow := flow } { second with flow := other } :=
  ⟨flowAlike, alike.state, alike.jumps⟩

/-- The name of a local is the same. -/
theorem nameOf_eq
    (alike : first.ReportsAlike second)
    (id : LocalId) :
    second.nameOf id = first.nameOf id := by
  simp only [nameOf, alike.state.localAt]

/-- The same issue is reported. -/
theorem report
    (alike : first.ReportsAlike second)
    (issue : Issue)
    (span : Span) :
    (first.report issue span).ReportsAlike (second.report issue span) :=
  ⟨alike.flow, alike.state.report issue span, alike.jumps⟩

/-- An issue of which nothing remains is reported. -/
theorem reportNull
    (point : FlowPoint)
    {issue : Issue}
    {span : Span}
    (passes : (issue.diagnostic span).lasting? = none) :
    point.ReportsAlike (point.report issue span) :=
  ⟨.refl _, .reportNull _ passes, JumpStack.collectsAlike_refl _⟩

/-- What is known about nullness does not matter. -/
theorem setNull
    (point : FlowPoint)
    (id : LocalId)
    (status : NullStatus) :
    point.ReportsAlike (point.mapFlow (.setNull id status)) :=
  ⟨.setNull _ _ _, .refl _, JumpStack.collectsAlike_refl _⟩

/-- The same read is checked. -/
theorem checkReadOf
    (alike : first.ReportsAlike second)
    (span : Span)
    (binding : Option LocalId) :
    (first.checkReadOf span binding).ReportsAlike (second.checkReadOf span binding) := by
  cases binding with
  | none => exact alike
  | some id =>
      simp only [FlowPoint.checkReadOf, checkRead]
      rw [alike.flow.isAssigned_eq, alike.nameOf_eq]
      split
      · exact alike
      · exact alike.report _ _

/-- The same assignment is checked. -/
theorem checkFinal
    (alike : first.ReportsAlike second)
    (span : Span)
    (id : LocalId) :
    (first.checkFinal span id).ReportsAlike (second.checkFinal span id) := by
  simp only [FlowPoint.checkFinal]
  rw [alike.state.localAt, alike.flow.reachable, alike.flow.mayBeAssigned_eq, alike.state.scope]
  split
  · exact alike
  · split
    · exact alike.report _ _
    · exact ⟨alike.flow, alike.state, JumpStack.collectsAlike_deferFinal _ _ _ _ alike.jumps⟩

/-- The same local is assigned, whatever is known about its value. -/
theorem assign
    (alike : first.ReportsAlike second)
    (firstOptions secondOptions : CompilerOptions)
    (id : LocalId)
    (status otherStatus : NullStatus) :
    (first.assign firstOptions id status).ReportsAlike
      (second.assign secondOptions id otherStatus) := by
  have recorded : ∀ (point : FlowPoint) (options : CompilerOptions) (status : NullStatus),
      (point.mapFlow (.assign id)).ReportsAlike (point.assign options id status) := by
    intro point options status
    simp only [FlowPoint.assign]
    split
    · exact setNull _ _ _
    · exact refl _
  have assigned : (first.mapFlow (.assign id)).ReportsAlike (second.mapFlow (.assign id)) :=
    ⟨alike.flow.assign id, alike.state, alike.jumps⟩
  exact ((recorded first firstOptions status).symm.trans assigned).trans
    (recorded second secondOptions otherStatus)

/-- Checking a local for null changes nothing that remains. -/
theorem checkNull
    (point : FlowPoint)
    (span : Span)
    (id : LocalId) :
    point.ReportsAlike (point.checkNull span id) := by
  simp only [FlowPoint.checkNull]
  split
  · exact reportNull _ rfl
  · exact reportNull _ rfl
  · exact refl _
  · exact ⟨.refl _, .refl _, JumpStack.collectsAlike_deferNull _ _ _ _ _⟩

/-- Checking a value for null changes nothing that remains. -/
theorem checkDereference
    (point : FlowPoint)
    (options : CompilerOptions)
    (value : Expr) :
    point.ReportsAlike (point.checkDereference options value) := by
  simp only [FlowPoint.checkDereference]
  split
  · exact refl _
  · split
    · exact reportNull _ rfl
    · split
      · exact (checkNull _ _ _).trans (setNull _ _ _)
      · exact refl _
    · exact refl _

/-- Values are checked for null on both sides. -/
theorem checkDereferences
    (alike : first.ReportsAlike second)
    (firstOptions secondOptions : CompilerOptions)
    (value : Expr) :
    (first.checkDereference firstOptions value).ReportsAlike
      (second.checkDereference secondOptions value) :=
  ((checkDereference first firstOptions value).symm.trans alike).trans
    (checkDereference second secondOptions value)

/-- A jump is recorded alike. -/
theorem jump
    (alike : first.ReportsAlike second)
    (span : Span)
    {target other : Except JumpError JumpStack}
    (records : JumpStack.RecordsAlike target other) :
    (first.jump span target).ReportsAlike (second.jump span other) := by
  cases records with
  | ok jumps => exact ⟨.refl _, alike.state, jumps⟩
  | error cause => exact ⟨.refl _, alike.state.report _ _, alike.jumps⟩

end ReportsAlike

end FlowPoint

section Expressions

variable
  (firstOptions secondOptions : CompilerOptions)

mutual

/-- Flow through an expression is alike. -/
theorem reportsAlike_analyzeExpr :
    ∀ (expr : Expr) {first second : FlowPoint},
      first.ReportsAlike second →
      (analyzeExpr firstOptions expr first).ReportsAlike (analyzeExpr secondOptions expr second)
  | .intLit .., _, _, alike | .boolLit .., _, _, alike | .stringLit .., _, _, alike
  | .null _, _, _, alike => by
      simpa only [analyzeExpr] using alike
  | .name span ref, _, _, alike => by
      simp only [analyzeExpr]
      exact alike.checkReadOf span ref.binding
  | .newArray _ _ elements, _, _, alike => by
      simp only [analyzeExpr]
      exact reportsAlike_analyzeExprs elements alike
  | .binary _ _ left right, _, _, alike => by
      simp only [analyzeExpr]
      exact reportsAlike_analyzeExpr right (reportsAlike_analyzeExpr left alike)
  | .assign _ target op value, first, second, alike => by
      have read : (if op.isSome then first.checkReadOf target.span target.node.binding
          else first).ReportsAlike
          (if op.isSome then second.checkReadOf target.span target.node.binding
          else second) := by
        split
        · exact alike.checkReadOf _ _
        · exact alike
      have evaluated := reportsAlike_analyzeExpr value read
      simp only [analyzeExpr]
      split
      · exact evaluated
      · exact (evaluated.checkFinal _ _).assign _ _ _ _ _
  | .call _ _ args, _, _, alike => by
      simp only [analyzeExpr]
      exact reportsAlike_analyzeExprs args alike
  | .methodCall _ receiver _ args, _, _, alike => by
      simp only [analyzeExpr]
      exact reportsAlike_analyzeExprs args
        ((reportsAlike_analyzeExpr receiver alike).checkDereferences _ _ _)

theorem reportsAlike_analyzeExprs :
    ∀ (exprs : List Expr) {first second : FlowPoint},
      first.ReportsAlike second →
      (analyzeExprs firstOptions exprs first).ReportsAlike
        (analyzeExprs secondOptions exprs second)
  | [], _, _, alike => by
      simpa only [analyzeExprs] using alike
  | expr :: rest, _, _, alike => by
      simp only [analyzeExprs]
      exact reportsAlike_analyzeExprs rest (reportsAlike_analyzeExpr expr alike)

end

variable
  {first second : FlowPoint}

/-- Flow through a declaration is alike. -/
theorem reportsAlike_analyzeDecl
    (decl : LocalDecl)
    (alike : first.ReportsAlike second) :
    (analyzeDecl firstOptions decl first).ReportsAlike (analyzeDecl secondOptions decl second) := by
  simp only [analyzeDecl]
  split
  · exact alike
  · next value _ =>
      have evaluated := reportsAlike_analyzeExpr firstOptions secondOptions value alike
      split
      · exact evaluated
      · exact evaluated.assign _ _ _ _ _

end Expressions

section Loops

variable
  {firstOptions secondOptions : CompilerOptions}

/-- Two loops that have been entered differ in reports only. -/
structure LoopEntry.ReportsAlike
    (first second : LoopEntry) :
    Prop where
  before : first.before.AssignsAlike second.before
  entered : first.entered.AssignsAlike second.entered
  checkpoint : second.checkpoint = first.checkpoint
  body : first.body.ReportsAlike second.body

/-- One more flow state is recorded alike. -/
theorem MethodState.ReportsAlike.addCheckpoint
    {first second : MethodState}
    (alike : first.ReportsAlike second)
    {flow other : FlowState}
    (flowAlike : flow.AssignsAlike other) :
    (first.addCheckpoint flow).ReportsAlike (second.addCheckpoint other) where
  scope := alike.scope
  checkpoints := by
    have recorded := alike.checkpoints
    simp only [CodeContext.SameAssignments] at recorded ⊢
    simp only [MethodState.addCheckpoint, Array.map_push, recorded, flowAlike.withoutNulls_eq]
  lasting := alike.lasting
  typeVars := alike.typeVars
  returnType := alike.returnType
  completesNormally := alike.completesNormally

/-- The next flow state gets the same number. -/
theorem MethodState.ReportsAlike.nextCheckpoint
    {first second : MethodState}
    (alike : first.ReportsAlike second) :
    second.nextCheckpoint = first.nextCheckpoint := by
  have recorded : second.checkpoints.size = first.checkpoints.size := by
    simpa using congrArg Array.size alike.checkpoints
  exact recorded

/-- A loop is entered alike. -/
theorem reportsAlike_enterLoop
    (firstOptions secondOptions : CompilerOptions)
    (scope : ScopeId)
    (element : LocalDecl)
    (collection : Expr)
    {first second : FlowPoint}
    (alike : first.ReportsAlike second) :
    (enterLoop firstOptions scope element collection first).ReportsAlike
      (enterLoop secondOptions scope element collection second) := by
  have declared := reportsAlike_analyzeDecl firstOptions secondOptions element
    (alike.checkDereferences firstOptions secondOptions collection)
  have evaluated := reportsAlike_analyzeExpr firstOptions secondOptions collection declared
  have record : JumpRecord.CollectsAlike
      (.loop (.entered scope (analyzeDecl firstOptions element
        (first.checkDereference firstOptions collection)).flow))
      (.loop (.entered scope (analyzeDecl secondOptions element
        (second.checkDereference secondOptions collection)).flow)) :=
    .loop rfl (.refl _) (.refl _) rfl
  have jumps := List.Forall₂.cons record evaluated.jumps
  simp only [enterLoop]
  cases element.binding with
  | none =>
      exact ⟨declared.flow, evaluated.flow, evaluated.state.nextCheckpoint,
        ⟨evaluated.flow.withoutNulls, evaluated.state.addCheckpoint evaluated.flow, jumps⟩⟩
  | some id =>
      exact ⟨declared.flow, evaluated.flow.assign id, evaluated.state.nextCheckpoint,
        ⟨(evaluated.flow.assign id).withoutNulls,
          evaluated.state.addCheckpoint (evaluated.flow.assign id), jumps⟩⟩

/-- Repeated assignments are reported alike. -/
theorem reportsAlike_settleFinals
    {bodyEnd other : FlowState}
    (bodyAlike : bodyEnd.AssignsAlike other) :
    ∀ (deferred : List (LocalId × Span)) {first second : FlowPoint},
      first.ReportsAlike second →
      (settleFinals deferred bodyEnd first).ReportsAlike (settleFinals deferred other second)
  | [], _, _, alike => alike
  | use :: rest, _, _, alike => by
      rw [settleFinals, settleFinals, List.foldl_cons, List.foldl_cons, bodyAlike.mayBeAssigned_eq,
        alike.nameOf_eq]
      refine reportsAlike_settleFinals bodyAlike rest ?_
      split
      · exact alike.report _ _
      · exact alike

/-- Judging uses of null changes nothing that remains. -/
theorem reportsAlike_settleNulls
    (onEntry : FlowState)
    (backEdge : Option FlowState) :
    ∀ (deferred : List (LocalId × Span)) (point : FlowPoint),
      point.ReportsAlike (deferred.foldl (settleNull onEntry backEdge) point)
  | [], point => .refl point
  | use :: rest, point => by
      rw [List.foldl_cons]
      refine FlowPoint.ReportsAlike.trans ?_ (reportsAlike_settleNulls onEntry backEdge rest _)
      simp only [settleNull]
      split
      · exact .reportNull _ rfl
      · exact .reportNull _ rfl
      · exact .reportNull _ rfl
      · exact .refl _
      · exact ⟨.refl _, .refl _, JumpStack.collectsAlike_deferNull _ _ _ _ _⟩

/-- The locals of a loop are marked by the same choice. -/
theorem markSynthetics_eq
    (sameUnused : firstOptions.keepUnusedLocals = secondOptions.keepUnusedLocals) :
    markSynthetics secondOptions = markSynthetics firstOptions := by
  funext classification emptyAction element continues scope
  simp only [markSynthetics, sameUnused]

/-- The state in which the body of a loop comes back. -/
def LoopBody.backEdge
    (body : LoopBody)
    (record : LoopRecord) :
    FlowState :=
  if body.analyzed && body.comesBack record then
    body.finish.flow.merge record.onContinue
  else
    body.finish.flow

/-- The point after the body of a loop, where repeated assignments have been
reported. -/
def LoopBody.settled
    (body : LoopBody)
    (record : LoopRecord)
    (point : FlowPoint) :
    FlowPoint :=
  if body.analyzed && body.comesBack record then
    settleFinals record.deferredFinals (body.backEdge record) point
  else
    point

/-- The state in which the collection of a loop runs out. -/
def LoopBody.exhausted
    (body : LoopBody)
    (entry : LoopEntry)
    (record : LoopRecord) :
    FlowState :=
  if body.analyzed then
    let run := entry.before.afterRun entry.entered
    if body.comesBack record then run.afterOptional (body.backEdge record) else run
  else
    entry.entered

/-- A loop is left alike if it comes back alike, its collection runs out alike, and
it is broken out of alike. -/
theorem reportsAlike_leaveLoopWith
    (sameUnused : firstOptions.keepUnusedLocals = secondOptions.keepUnusedLocals)
    (element : LocalDecl)
    (facts : LoopFacts)
    {entry other : LoopEntry}
    (before : entry.before.AssignsAlike other.before)
    (checkpoint : other.checkpoint = entry.checkpoint)
    {body otherBody : LoopBody}
    (isEmpty : Stmt.isEmptyAction otherBody.action = Stmt.isEmptyAction body.action)
    {record otherRecord : LoopRecord}
    (comesBack : otherBody.comesBack otherRecord = body.comesBack record)
    (exhausted : (body.exhausted entry record).AssignsAlike
      (otherBody.exhausted other otherRecord))
    (onBreak : record.onBreak.AssignsAlike otherRecord.onBreak)
    {first second : FlowPoint}
    (settled : (body.settled record first).ReportsAlike (otherBody.settled otherRecord second)) :
    (leaveLoopWith firstOptions element facts entry body record first).point.ReportsAlike
        (leaveLoopWith secondOptions element facts other otherBody otherRecord second).point ∧
      (leaveLoopWith secondOptions element facts other otherBody otherRecord second).facts =
        { (leaveLoopWith firstOptions element facts entry body record first).facts with
          actionReachable := otherBody.reached } := by
  have marked : FlowPoint.ReportsAlike
      { body.settled record first with
        state := (body.settled record first).state.mapScope
          (markSynthetics firstOptions facts.classification (Stmt.isEmptyAction body.action)
            element.binding (body.comesBack record)) }
      { otherBody.settled otherRecord second with
        state := (otherBody.settled otherRecord second).state.mapScope
          (markSynthetics secondOptions facts.classification (Stmt.isEmptyAction otherBody.action)
            element.binding (otherBody.comesBack otherRecord)) } := by
    rw [markSynthetics_eq sameUnused, isEmpty, comesBack]
    exact ⟨settled.flow, settled.state.mapScope _, settled.jumps⟩
  have reported := ((reportsAlike_settleNulls record.onEntry
      (if body.comesBack record then some (body.backEdge record) else none) record.deferredNulls
      _).symm.trans marked).trans (reportsAlike_settleNulls otherRecord.onEntry
      (if otherBody.comesBack otherRecord then some (otherBody.backEdge otherRecord) else none)
      otherRecord.deferredNulls _)
  have broken : (if record.onBreak.reachable then entry.before.afterRun record.onBreak
        else record.onBreak).AssignsAlike
      (if otherRecord.onBreak.reachable then other.before.afterRun otherRecord.onBreak
        else otherRecord.onBreak) := by
    rw [onBreak.reachable]
    split
    · exact before.afterRun onBreak
    · exact onBreak
  have merged := broken.merge exhausted
  have left := reported.state.nextCheckpoint
  refine ⟨⟨merged, reported.state.addCheckpoint merged, reported.jumps⟩, ?_⟩
  change LoopFacts.mk _ _ _ _ _ _ _ = LoopFacts.mk _ _ _ _ _ _ _
  congr 1
  · exact congrArg some checkpoint
  · exact congrArg some left

section Potential

variable
  (options : CompilerOptions)

/-- What may be assigned before a read may be so after it. -/
theorem potential_checkReadOf
    (point : FlowPoint)
    (span : Span)
    (binding : Option LocalId) :
    (point.checkReadOf span binding).flow.potential = point.flow.potential := by
  cases binding with
  | none =>
      rfl
  | some id =>
      simp only [FlowPoint.checkReadOf, FlowPoint.checkRead]
      split <;> rfl

/-- An assignment adds to what may be assigned. -/
theorem potential_assign
    (point : FlowPoint)
    (span : Span)
    (id : LocalId)
    (status : NullStatus) :
    ((point.checkFinal span id).assign options id status).flow.potential =
      point.flow.potential.insert id := by
  have same : (point.checkFinal span id).flow = point.flow := by
    simp only [FlowPoint.checkFinal]
    split
    · rfl
    · split <;> rfl
  simp only [FlowPoint.assign]
  split <;> simp [FlowPoint.mapFlow, FlowState.assign, FlowState.setNull, same]

mutual

/-- What may be assigned before an expression may be so after it. -/
theorem potential_analyzeExpr :
    ∀ (expr : Expr) (point : FlowPoint),
      point.flow.potential.Within (analyzeExpr options expr point).flow.potential
  | .intLit .., point | .boolLit .., point | .stringLit .., point | .null _, point => by
      simp only [analyzeExpr]
      exact .refl _
  | .name span ref, point => by
      simp only [analyzeExpr, potential_checkReadOf]
      exact .refl _
  | .newArray _ _ elements, point => by
      simp only [analyzeExpr]
      exact potential_analyzeExprs elements point
  | .binary _ _ left right, point => by
      simp only [analyzeExpr]
      exact (potential_analyzeExpr left point).trans (potential_analyzeExpr right _)
  | .assign _ target op value, point => by
      have read : (if op.isSome then point.checkReadOf target.span target.node.binding
          else point).flow.potential = point.flow.potential := by
        split
        · exact potential_checkReadOf point _ _
        · rfl
      have evaluated := potential_analyzeExpr value
        (if op.isSome then point.checkReadOf target.span target.node.binding else point)
      rw [read] at evaluated
      simp only [analyzeExpr]
      split
      · exact evaluated
      · rw [potential_assign]
        exact evaluated.trans (VarSet.within_insert _ _)
  | .call _ _ args, point => by
      simp only [analyzeExpr]
      exact potential_analyzeExprs args point
  | .methodCall _ receiver _ args, point => by
      have used := FlowPoint.ReportsAlike.checkDereference (analyzeExpr options receiver point)
        options receiver
      have evaluated := potential_analyzeExprs args
        ((analyzeExpr options receiver point).checkDereference options receiver)
      rw [used.flow.potential] at evaluated
      simp only [analyzeExpr]
      exact (potential_analyzeExpr receiver point).trans evaluated

theorem potential_analyzeExprs :
    ∀ (exprs : List Expr) (point : FlowPoint),
      point.flow.potential.Within (analyzeExprs options exprs point).flow.potential
  | [], point => by
      simp only [analyzeExprs]
      exact .refl _
  | expr :: rest, point => by
      simp only [analyzeExprs]
      exact (potential_analyzeExpr expr point).trans (potential_analyzeExprs rest _)

end

end Potential

/-- The union of a set with a part of it is the set. -/
theorem VarSet.union_eq_of_within
    {first second : VarSet}
    (within : first.Within second) :
    first.union second = second := by
  ext id
  have member := within id
  cases isFirst : first.contains id <;> cases isSecond : second.contains id <;>
    simp_all

/-- What is assigned before a loop is assigned when its body is entered. -/
theorem within_entered
    (options : CompilerOptions)
    (scope : ScopeId)
    (element : LocalDecl)
    (collection : Expr)
    (point : FlowPoint) :
    (enterLoop options scope element collection point).before.definite.Within
        (enterLoop options scope element collection point).entered.definite ∧
      (enterLoop options scope element collection point).before.potential.Within
        (enterLoop options scope element collection point).entered.potential := by
  have declared := analyzeDecl options element (point.checkDereference options collection)
  have evaluated := evaluates_analyzeExpr options collection
    (analyzeDecl options element (point.checkDereference options collection))
  have definite := collection.within_definite
    (analyzeDecl options element (point.checkDereference options collection)).flow.definite
  rw [← evaluated.definite] at definite
  have potential := potential_analyzeExpr options collection
    (analyzeDecl options element (point.checkDereference options collection))
  simp only [enterLoop]
  cases element.binding with
  | none =>
      exact ⟨definite, potential⟩
  | some id =>
      exact ⟨definite.trans (VarSet.within_insert id _), potential.trans (VarSet.within_insert id _)⟩

/-- Whether an empty body is passed over or analyzed, the loop is left alike. -/
theorem reportsAlike_passedOver
    (options : CompilerOptions)
    (scope : ScopeId)
    (element : LocalDecl)
    (collection : Expr)
    (facts : LoopFacts)
    {point : FlowPoint}
    (reached : point.flow.reachable = true)
    {action other : Stmt}
    (isEmpty : Stmt.isEmptyAction (some other) = Stmt.isEmptyAction (some action)) :
    (leaveLoop options element facts (enterLoop options scope element collection point)
        ⟨some action, false, false,
          (enterLoop options scope element collection point).body⟩).point.ReportsAlike
        (leaveLoop options element facts (enterLoop options scope element collection point)
          ⟨some other, true, true,
            (enterLoop options scope element collection point).body⟩).point ∧
      (leaveLoop options element facts (enterLoop options scope element collection point)
          ⟨some other, true, true,
            (enterLoop options scope element collection point).body⟩).facts =
        { (leaveLoop options element facts (enterLoop options scope element collection point)
            ⟨some action, false, false,
              (enterLoop options scope element collection point).body⟩).facts with
          actionReachable := true } := by
  have enters := enters_enterLoop options scope element collection point
  obtain ⟨definite, potential⟩ := within_entered options scope element collection point
  have bodyFlow : (enterLoop options scope element collection point).entered.AssignsAlike
      (enterLoop options scope element collection point).body.flow :=
    ⟨rfl, rfl, rfl⟩
  obtain ⟨jumps, -, isPushed⟩ := enters.jumps
  generalize enterLoop options scope element collection point = entry at *
  have bodyReached : entry.body.flow.reachable = true := enters.bodyReachable.trans reached
  have comesBack : ∀ isAnalyzed, LoopBody.comesBack
      ⟨some other, isAnalyzed, true, entry.body⟩ (.entered scope entry.before) = true := by
    simp [LoopBody.comesBack, bodyReached]
  have ranOut : entry.entered.AssignsAlike
      ((entry.before.afterRun entry.entered).afterOptional (entry.body.flow.merge .deadEnd)) := by
    have ran := FlowState.afterRun_assigns entry.before entry.entered
    refine ⟨ran.reachable.symm.trans (enters.beforeReachable.trans enters.enteredReachable.symm),
      ran.definite.symm.trans (VarSet.union_eq_of_within definite), ?_⟩
    have ranPotential := ran.potential.symm.trans (VarSet.union_eq_of_within potential)
    have bodyPotential : (entry.body.flow.merge .deadEnd).potential.Within
        entry.entered.potential := by
      rw [FlowState.potential_merge, bodyFlow.potential]
      refine .union (.refl _) fun id member => ?_
      simp [FlowState.deadEnd, FlowState.initial] at member
    simp only [FlowState.afterOptional, ranPotential]
    ext id
    have within := bodyPotential id
    cases isEntered : entry.entered.potential.contains id <;> simp_all
  rw [leaveLoop_eq _ _ _ _ _ isPushed, leaveLoop_eq _ _ _ _ _ isPushed]
  refine reportsAlike_leaveLoopWith rfl element facts (.refl _) rfl isEmpty ?_ ?_ (.refl _) ?_
  · rw [comesBack]
    rfl
  · simp only [LoopBody.exhausted, LoopBody.backEdge, comesBack, Bool.and_self, if_true,
      Bool.false_eq_true, if_false]
    exact ranOut
  · simp only [LoopBody.settled, comesBack, Bool.and_self, Bool.false_and, if_true,
      Bool.false_eq_true, if_false]
    exact .refl _

/-- The body of a loop ends alike after the same actions. -/
structure LoopBody.ReportsAlike
    (first second : LoopBody) :
    Prop where
  isEmpty : Stmt.isEmptyAction second.action = Stmt.isEmptyAction first.action
  analyzed : second.analyzed = first.analyzed
  reached : second.reached = first.reached
  finish : first.finish.ReportsAlike second.finish

/-- A loop is left alike after bodies that end alike. -/
theorem LoopBody.ReportsAlike.leaveLoop
    (sameUnused : firstOptions.keepUnusedLocals = secondOptions.keepUnusedLocals)
    (element : LocalDecl)
    (facts : LoopFacts)
    {entry other : LoopEntry}
    (entries : entry.ReportsAlike other)
    {body otherBody : LoopBody}
    (bodies : body.ReportsAlike otherBody)
    {record : LoopRecord}
    {rest : JumpStack}
    (isPushed : body.finish.jumps = .loop record :: rest) :
    (LoopLowering.leaveLoop firstOptions element facts entry body).point.ReportsAlike
        (LoopLowering.leaveLoop secondOptions element facts other otherBody).point ∧
      (LoopLowering.leaveLoop secondOptions element facts other otherBody).facts =
        (LoopLowering.leaveLoop firstOptions element facts entry body).facts := by
  have jumps := bodies.finish.jumps
  rw [isPushed] at jumps
  obtain ⟨otherRecord, otherRest, isOtherPushed, records, rests⟩ :
      ∃ otherRecord otherRest, otherBody.finish.jumps = .loop otherRecord :: otherRest ∧
        JumpRecord.CollectsAlike (.loop record) (.loop otherRecord) ∧
        JumpStack.CollectsAlike rest otherRest := by
    cases is : otherBody.finish.jumps with
    | nil =>
        rw [is] at jumps
        cases jumps
    | cons target targets =>
        rw [is] at jumps
        obtain ⟨⟩ | ⟨alike, others⟩ := jumps
        cases alike with
        | loop scope onBreak onContinue finals =>
            exact ⟨_, _, rfl, .loop scope onBreak onContinue finals, others⟩
  obtain ⟨-, onBreak, onContinue, finals⟩ | _ := records
  rw [leaveLoop_eq _ _ _ _ _ isPushed, leaveLoop_eq _ _ _ _ _ isOtherPushed]
  have comesBack : otherBody.comesBack otherRecord = body.comesBack record := by
    simp only [comesBack, bodies.analyzed, bodies.finish.flow.reachable, onContinue.reachable]
  have backEdge : (body.backEdge record).AssignsAlike (otherBody.backEdge otherRecord) := by
    simp only [LoopBody.backEdge]
    rw [comesBack, bodies.analyzed]
    split
    · exact bodies.finish.flow.merge onContinue
    · exact bodies.finish.flow
  have exhausted : (body.exhausted entry record).AssignsAlike
      (otherBody.exhausted other otherRecord) := by
    simp only [LoopBody.exhausted]
    rw [comesBack, bodies.analyzed]
    split
    · split
      · exact (entries.before.afterRun entries.entered).afterOptional backEdge
      · exact entries.before.afterRun entries.entered
    · exact entries.entered
  have finished : FlowPoint.ReportsAlike { body.finish with jumps := rest }
      { otherBody.finish with jumps := otherRest } :=
    ⟨bodies.finish.flow, bodies.finish.state, rests⟩
  have settled : (body.settled record { body.finish with jumps := rest }).ReportsAlike
      (otherBody.settled otherRecord { otherBody.finish with jumps := otherRest }) := by
    simp only [LoopBody.settled]
    rw [comesBack, bodies.analyzed, finals]
    split
    · exact reportsAlike_settleFinals backEdge _ finished
    · exact finished
  obtain ⟨point, sameFacts⟩ := reportsAlike_leaveLoopWith sameUnused element facts entries.before
    entries.checkpoint bodies.isEmpty comesBack exhausted onBreak settled
  exact ⟨point, by rw [sameFacts, bodies.reached]; rfl⟩

end Loops

section Statements

variable
  {firstOptions secondOptions : CompilerOptions}

/-- Two statements after flow analysis have the same code and differ in reports
only. -/
structure Flowed.ReportsAlike
    (first second : Flowed Stmt) :
    Prop where
  node : first.node.SharesCode second.node
  point : first.point.ReportsAlike second.point

/-- Two lists of statements after flow analysis have the same code and differ in
reports only. -/
structure FlowedList.ReportsAlike
    (first second : FlowedList) :
    Prop where
  nodes : Stmt.AllShareCode first.unreachableFrom first.nodes second.nodes
  unreachableFrom : second.unreachableFrom = first.unreachableFrom
  point : first.point.ReportsAlike second.point

/-- A labeled statement is left alike. -/
theorem reportsAlike_popLabel
    {first second : FlowPoint}
    (alike : first.ReportsAlike second) :
    FlowPoint.ReportsAlike
      (match first.jumps.popLabel.1 with
      | some record =>
          FlowPoint.mapFlow (fun flow => flow.merge record.onBreak)
            { first with jumps := first.jumps.popLabel.2 }
      | none => { first with jumps := first.jumps.popLabel.2 })
      (match second.jumps.popLabel.1 with
      | some record =>
          FlowPoint.mapFlow (fun flow => flow.merge record.onBreak)
            { second with jumps := second.jumps.popLabel.2 }
      | none => { second with jumps := second.jumps.popLabel.2 }) := by
  obtain ⟨flow, state, jumps⟩ := first
  obtain ⟨otherFlow, otherState, otherJumps⟩ := second
  obtain ⟨flowAlike, stateAlike, jumpsAlike⟩ := alike
  cases jumpsAlike with
  | nil =>
      exact ⟨flowAlike, stateAlike, .nil⟩
  | cons record rest =>
      cases record with
      | loop scope onBreak onContinue finals =>
          exact ⟨flowAlike, stateAlike, .cons (.loop scope onBreak onContinue finals) rest⟩
      | label name labelsLoop onBreak =>
          exact ⟨flowAlike.merge onBreak, stateAlike, rest⟩

/-- A body that is passed over is an empty block. -/
theorem exists_of_skipsAction
    {options : CompilerOptions}
    {action : Stmt}
    (skips : skipsAction options action = true) :
    ∃ span facts, action = .block span [] facts := by
  simp only [skipsAction, Bool.and_eq_true] at skips
  cases action with
  | block span stmts facts =>
      cases stmts with
      | nil => exact ⟨span, facts, rfl⟩
      | cons first rest => cases skips.1
  | _ => cases skips.1

/-- A loop whose body is analyzed even where it would be passed over. -/
def LoopEntry.analyzeFully
    (options : CompilerOptions)
    (action : Stmt)
    (entry : LoopEntry) :
    LoopBody :=
  ⟨some (analyzeStmt options action entry.body).node, true, true,
    (analyzeStmt options action entry.body).point⟩

/-- Facts about a loop are what they are with the body entered or not. -/
theorem LoopFacts.eq_of_actionReachable
    {facts : LoopFacts}
    {reached : Bool}
    (isReached : facts.actionReachable = reached) :
    facts = { facts with actionReachable := reached } := by
  rw [← isReached]

/-- Facts about loops that agree once the body counts as entered agree in the rest. -/
theorem LoopFacts.eq_of_same
    {first second : LoopFacts}
    (same : { second with actionReachable := true } = { first with actionReachable := true }) :
    second = { first with actionReachable := second.actionReachable } := by
  obtain ⟨⟩ := first
  obtain ⟨⟩ := second
  simpa using same

/-- A loop that is left tells whether its body was entered. -/
theorem actionReachable_leaveLoop
    (options : CompilerOptions)
    (element : LocalDecl)
    (facts : LoopFacts)
    (entry : LoopEntry)
    (body : LoopBody) :
    (leaveLoop options element facts entry body).facts.actionReachable = body.reached := by
  simp only [leaveLoop]
  split <;> rfl

/-- Passing over the body of a loop leaves the loop like analyzing it. -/
theorem reportsAlike_analyzeFully
    (options : CompilerOptions)
    (scope : ScopeId)
    (element : LocalDecl)
    (collection : Expr)
    (facts : LoopFacts)
    (action : Stmt)
    {point : FlowPoint}
    (reached : point.flow.reachable = true) :
    (leaveLoop options element facts (enterLoop options scope element collection point)
        ((enterLoop options scope element collection point).analyzeBody options
          action)).point.ReportsAlike
        (leaveLoop options element facts (enterLoop options scope element collection point)
          ((enterLoop options scope element collection point).analyzeFully options action)).point ∧
      (leaveLoop options element facts (enterLoop options scope element collection point)
          ((enterLoop options scope element collection point).analyzeFully options action)).facts =
        { (leaveLoop options element facts (enterLoop options scope element collection point)
            ((enterLoop options scope element collection point).analyzeBody options action)).facts
          with actionReachable := true } := by
  have bodyReached :=
    (enters_enterLoop options scope element collection point).bodyReachable.trans reached
  cases skips : skipsAction options action with
  | true =>
      obtain ⟨span, blockFacts, rfl⟩ := exists_of_skipsAction skips
      simp only [LoopEntry.analyzeBody, LoopEntry.analyzeFully, skips, if_true, analyzeStmt,
        analyzeStmts]
      exact reportsAlike_passedOver options scope element collection facts reached rfl
  | false =>
      simp only [LoopEntry.analyzeBody, LoopEntry.analyzeFully, skips, bodyReached, if_true,
        Bool.false_eq_true, if_false]
      exact ⟨.refl _, LoopFacts.eq_of_actionReachable (actionReachable_leaveLoop _ _ _ _ _)⟩

/-- The action of a loop after the analysis of its body. -/
theorem LoopEntry.action_analyzeBody
    (options : CompilerOptions)
    (action : Stmt)
    {entry : LoopEntry}
    (reached : entry.body.flow.reachable = true) :
    (entry.analyzeBody options action).action =
      some (if skipsAction options action then action
        else (analyzeStmt options action entry.body).node) := by
  simp only [analyzeBody, reached, if_true]
  split <;> rfl

/-- A loop with the same action is left alike if its body ends alike. -/
theorem reportsAlike_forEach
    (sameUnused : firstOptions.keepUnusedLocals = secondOptions.keepUnusedLocals)
    (span : Span)
    (element : LocalDecl)
    (collection : Expr)
    (action : Stmt)
    (facts : LoopFacts)
    (actionAlike : ∀ {first second : FlowPoint}, first.ReportsAlike second →
      first.flow.reachable = true →
      (analyzeStmt firstOptions action first).ReportsAlike
        (analyzeStmt secondOptions action second))
    {first second : FlowPoint}
    (alike : first.ReportsAlike second)
    (reached : first.flow.reachable = true) :
    (analyzeStmt firstOptions (.forEach span element collection (some action) facts)
        first).ReportsAlike
      (analyzeStmt secondOptions (.forEach span element collection (some action) facts)
        second) := by
  cases isScope : facts.scope with
  | none =>
      simp only [analyzeStmt, alike.flow.reachable, isScope]
      exact ⟨.refl _, alike⟩
  | some scope =>
      have secondReached := alike.flow.reachable.trans reached
      have entries := reportsAlike_enterLoop firstOptions secondOptions scope element collection
        alike
      have enters := enters_enterLoop firstOptions scope element collection first
      have bodyReached := enters.bodyReachable.trans reached
      obtain ⟨jumps, -, isEntered⟩ := enters.jumps
      have narrows := narrows_analyzeStmt firstOptions action bodyReached
      rw [isEntered] at narrows
      obtain ⟨record, rest, isPushed, -⟩ := narrows.exists_loop
      have bodyAlike := actionAlike entries.body bodyReached
      obtain ⟨firstPoint, firstFacts⟩ := reportsAlike_analyzeFully firstOptions scope element
        collection (facts.met first.flow.reachable) action reached
      obtain ⟨secondPoint, secondFacts⟩ := reportsAlike_analyzeFully secondOptions scope element
        collection (facts.met first.flow.reachable) action secondReached
      have bodies : LoopBody.ReportsAlike
          ((enterLoop firstOptions scope element collection first).analyzeFully firstOptions action)
          ((enterLoop secondOptions scope element collection second).analyzeFully secondOptions
            action) :=
        ⟨bodyAlike.node.isEmptyAction_eq.symm, rfl, rfl, bodyAlike.point⟩
      obtain ⟨point, sameFacts⟩ := bodies.leaveLoop sameUnused element
        (facts.met first.flow.reachable) entries isPushed
      rw [secondFacts, firstFacts] at sameFacts
      have left := LoopFacts.eq_of_same sameFacts
      simp only [analyzeStmt, alike.flow.reachable, isScope]
      refine ⟨?_, (firstPoint.trans point).trans secondPoint.symm⟩
      change Stmt.SharesCode
        (.forEach span element collection
          ((enterLoop firstOptions scope element collection first).analyzeBody firstOptions
            action).action _)
        (.forEach span element collection
          ((enterLoop secondOptions scope element collection second).analyzeBody secondOptions
            action).action
          (leaveLoop secondOptions element (facts.met first.flow.reachable) _
            ((enterLoop secondOptions scope element collection second).analyzeBody secondOptions
              action)).facts)
      rw [LoopEntry.action_analyzeBody _ _ bodyReached, LoopEntry.action_analyzeBody _ _
        (entries.body.flow.reachable.trans bodyReached), left]
      by_cases passed : skipsAction firstOptions action = true ∨ skipsAction secondOptions action = true
      · obtain ⟨blockSpan, blockFacts, rfl⟩ := passed.elim exists_of_skipsAction exists_of_skipsAction
        refine .idleLoop ?_ ?_
        · split
          · rfl
          · simp only [analyzeStmt, analyzeStmts]
            rfl
        · split
          · rfl
          · simp only [analyzeStmt, analyzeStmts]
            rfl
      · rw [not_or, Bool.not_eq_true, Bool.not_eq_true] at passed
        simp only [actionReachable_leaveLoop, LoopEntry.analyzeBody, passed.1, passed.2, bodyReached,
          entries.body.flow.reachable.trans bodyReached, if_true, Bool.false_eq_true, if_false]
        rw [← LoopFacts.eq_of_actionReachable (actionReachable_leaveLoop _ _ _ _ _)]
        exact .loop bodyAlike.node

mutual

/-- Flow through a statement that some path reaches is alike. -/
theorem reportsAlike_analyzeStmt
    (sameUnused : firstOptions.keepUnusedLocals = secondOptions.keepUnusedLocals) :
    ∀ (stmt : Stmt) {first second : FlowPoint},
      first.ReportsAlike second →
      first.flow.reachable = true →
      (analyzeStmt firstOptions stmt first).ReportsAlike (analyzeStmt secondOptions stmt second)
  | .localVar span decl, _, _, alike, _ => by
      simp only [analyzeStmt]
      exact ⟨.refl _, reportsAlike_analyzeDecl _ _ decl alike⟩
  | .expr span value, _, _, alike, _ => by
      simp only [analyzeStmt]
      exact ⟨.refl _, reportsAlike_analyzeExpr _ _ value alike⟩
  | .block span stmts facts, _, _, alike, reached => by
      have inner := reportsAlike_analyzeStmts sameUnused stmts alike
      simp only [analyzeStmt, inner.unreachableFrom]
      exact ⟨.block inner.nodes, inner.point⟩
  | .branch span condition thenBranch none, first, _, alike, reached => by
      have tested := reportsAlike_analyzeExpr firstOptions secondOptions condition alike
      have testedReached := (evaluates_analyzeExpr firstOptions condition first).reachable.trans
        reached
      have thenAlike := reportsAlike_analyzeStmt sameUnused thenBranch tested testedReached
      simp only [analyzeStmt]
      exact ⟨.onlyBranch thenAlike.node, thenAlike.point.flow.merge tested.flow,
        thenAlike.point.state, thenAlike.point.jumps⟩
  | .branch span condition thenBranch (some elseBranch), first, _, alike, reached => by
      have tested := reportsAlike_analyzeExpr firstOptions secondOptions condition alike
      have testedReached := (evaluates_analyzeExpr firstOptions condition first).reachable.trans
        reached
      have thenAlike := reportsAlike_analyzeStmt sameUnused thenBranch tested testedReached
      have elseAlike := reportsAlike_analyzeStmt sameUnused elseBranch
        (thenAlike.point.withFlow tested.flow) testedReached
      simp only [analyzeStmt]
      exact ⟨.branch thenAlike.node elseAlike.node, thenAlike.point.flow.merge elseAlike.point.flow,
        elseAlike.point.state, elseAlike.point.jumps⟩
  | .forEach span element collection none facts, first, second, alike, reached => by
      cases isScope : facts.scope with
      | none =>
          simp only [analyzeStmt, alike.flow.reachable, isScope]
          exact ⟨.refl _, alike⟩
      | some scope =>
          have entries := reportsAlike_enterLoop firstOptions secondOptions scope element
            collection alike
          obtain ⟨jumps, -, isPushed⟩ :=
            (enters_enterLoop firstOptions scope element collection first).jumps
          have bodies : LoopBody.ReportsAlike
              ⟨none, false, false, (enterLoop firstOptions scope element collection first).body⟩
              ⟨none, false, false, (enterLoop secondOptions scope element collection second).body⟩ :=
            ⟨rfl, rfl, rfl, entries.body⟩
          obtain ⟨point, sameFacts⟩ := bodies.leaveLoop sameUnused element
            (facts.met first.flow.reachable) entries isPushed
          simp only [analyzeStmt, alike.flow.reachable, isScope, sameFacts]
          exact ⟨.refl _, point⟩
  | .forEach span element collection (some action) facts, _, _, alike, reached =>
      reportsAlike_forEach sameUnused span element collection action facts
        (reportsAlike_analyzeStmt sameUnused action) alike reached
  | .labeled span label body, first, second, alike, reached => by
      have entered : FlowPoint.ReportsAlike
          { first with jumps := first.jumps.pushLabel label.node body.isLoop }
          { second with jumps := second.jumps.pushLabel label.node body.isLoop } :=
        ⟨alike.flow, alike.state, .cons (.refl _) alike.jumps⟩
      have bodyAlike := reportsAlike_analyzeStmt sameUnused body entered reached
      simp only [analyzeStmt]
      exact ⟨.labeled bodyAlike.node, reportsAlike_popLabel bodyAlike.point⟩
  | .breakTo span label, _, _, alike, _ => by
      simp only [analyzeStmt]
      exact ⟨.refl _, alike.jump span
        (JumpStack.recordsAlike_recordBreak (label.map Spanned.node) alike.flow alike.jumps)⟩
  | .continueTo span label, _, _, alike, _ => by
      simp only [analyzeStmt]
      exact ⟨.refl _, alike.jump span
        (JumpStack.recordsAlike_recordContinue (label.map Spanned.node) alike.flow alike.jumps)⟩
  | .returnWith span none, _, _, alike, _ => by
      simp only [analyzeStmt]
      exact ⟨.refl _, .refl _, alike.state, alike.jumps⟩
  | .returnWith span (some value), _, _, alike, _ => by
      have evaluated := reportsAlike_analyzeExpr firstOptions secondOptions value alike
      simp only [analyzeStmt]
      exact ⟨.refl _, .refl _, evaluated.state, evaluated.jumps⟩
  | .empty span, _, _, alike, _ => by
      simp only [analyzeStmt]
      exact ⟨.refl _, alike⟩

theorem reportsAlike_analyzeStmts
    (sameUnused : firstOptions.keepUnusedLocals = secondOptions.keepUnusedLocals) :
    ∀ (stmts : List Stmt) {first second : FlowPoint},
      first.ReportsAlike second →
      (analyzeStmts firstOptions stmts first).ReportsAlike (analyzeStmts secondOptions stmts second)
  | [], _, _, alike => by
      simp only [analyzeStmts]
      exact ⟨.nil, rfl, alike⟩
  | stmt :: rest, first, _, alike => by
      simp only [analyzeStmts, alike.flow.reachable]
      split
      · next reached =>
          have head := reportsAlike_analyzeStmt sameUnused stmt alike reached
          have tail := reportsAlike_analyzeStmts sameUnused rest head.point
          refine ⟨.cons head.node ?_, by rw [tail.unreachableFrom], tail.point⟩
          simpa [Option.map_map, Function.comp_def] using tail.nodes
      · exact ⟨.cut rfl, rfl, alike.report _ _⟩

end

/-- The end of a method is judged alike. -/
theorem MethodState.ReportsAlike.checkCompletion
    {first second : MethodState}
    (alike : first.ReportsAlike second)
    (span : Span)
    (completes : Bool) :
    (LoopLowering.checkCompletion span completes first).ReportsAlike
      (LoopLowering.checkCompletion span completes second) := by
  have completed : MethodState.ReportsAlike { first with completesNormally := completes }
      { second with completesNormally := completes } :=
    ⟨alike.scope, alike.checkpoints, alike.lasting, alike.typeVars, alike.returnType, rfl⟩
  simpa only [LoopLowering.checkCompletion, alike.returnType] using
    completed.reportIf (completes && first.returnType != Ty.void && !first.returnType.isUnknown)
      (.resultRequired first.returnType) span

/-- Two analyses of a method report alike and leave methods with the same code. -/
structure FlowedMethod.ReportsAlike
    (first second : FlowedMethod) :
    Prop where
  state : first.state.ReportsAlike second.state
  rest : second.node =
    { first.node with body := { first.node.body with stmts := second.node.body.stmts } }
  stmts : Stmt.AllShareCode first.node.body.facts.unreachableFrom first.node.body.stmts
    second.node.body.stmts

/-- Flow through a method is alike. -/
theorem reportsAlike_analyzeMethod
    (sameUnused : firstOptions.keepUnusedLocals = secondOptions.keepUnusedLocals)
    (method : Method)
    {first second : MethodState}
    (alike : first.ReportsAlike second) :
    (analyzeMethod firstOptions method first).ReportsAlike
      (analyzeMethod secondOptions method second) := by
  have entered : FlowPoint.ReportsAlike (.atBody method.params first)
      (.atBody method.params second) :=
    ⟨.refl _, alike, .nil⟩
  have body := reportsAlike_analyzeStmts sameUnused method.body.stmts entered
  have completed := body.point.state.checkCompletion method.name.span
    (analyzeStmts firstOptions method.body.stmts (.atBody method.params first)).point.flow.reachable
  simp only [analyzeMethod, body.unreachableFrom, body.point.flow.reachable]
  exact ⟨completed, rfl, body.nodes⟩

end Statements

end LoopLowering
