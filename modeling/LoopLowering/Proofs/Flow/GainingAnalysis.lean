import LoopLowering.Proofs.Flow.Arrivals
import LoopLowering.Proofs.Flow.Gains
import LoopLowering.Proofs.Flow.Reporting

namespace LoopLowering

/-!
# Analysis with more assigned

A statement is analyzed twice, and the second time more locals are assigned where it
starts. The analysis goes the same ways, and wherever it gets, the same locals are assigned
in addition. So what the body of a loop does to a flow state does not depend on what is
assigned where the loop is entered.
-/

/-- Changing what is recorded about locals keeps their types. -/
theorem MethodState.Marks.type_eq
    {before after : MethodState}
    (marks : before.Marks after)
    (id : Nat) :
    (after.localAt id).type = (before.localAt id).type := by
  rcases Nat.lt_or_ge id before.scope.locals.size with known | unknown
  · exact (marks.scope.persists id known).type
  · have isUnknown : before.localAt id = default :=
      MethodScope.localAt_unknown (Nat.not_lt.mpr unknown)
    have isUnknownLater : after.localAt id = default :=
      MethodScope.localAt_unknown (by rw [marks.sameCount]; exact Nat.not_lt.mpr unknown)
    rw [isUnknown, isUnknownLater]

/-- What is known about a value depends on what is known about references. -/
theorem nullStatusOf_eq
    {first second : FlowState}
    (sameNulls : second.nulls = first.nulls) :
    ∀ expr : Expr, nullStatusOf second expr = nullStatusOf first expr
  | .assign _ _ _ value => nullStatusOf_eq sameNulls value
  | .name _ ref => by
      simp only [nullStatusOf]
      cases ref.binding with
      | none => rfl
      | some id => simp only [FlowState.nullStatus, sameNulls]
  | .intLit .. | .boolLit .. | .stringLit .. | .null _ | .newArray .. | .binary .. | .call ..
  | .methodCall .. => rfl

theorem JumpStack.SameArrivals.trans :
    ∀ {first second third : JumpStack},
      first.SameArrivals second →
      second.SameArrivals third →
      first.SameArrivals third
  | [], [], [], .nil, .nil => .nil
  | .loop _ :: _, .loop _ :: _, .loop _ :: _, .loop onBreak onContinue rest,
      .loop later laterContinue others =>
      .loop (later.trans onBreak) (laterContinue.trans onContinue) (rest.trans others)
  | .label _ :: _, .label _ :: _, .label _ :: _, .label rest, .label others =>
      .label (rest.trans others)

namespace FlowPoint

/-- Between two points, flow analysis has reported and deferred something at most. -/
structure Looks
    (before after : FlowPoint) :
    Prop where
  flow : after.flow = before.flow
  scope : after.state.scope = before.state.scope
  arrivals : before.jumps.SameArrivals after.jumps

/-- Two points of the same analysis, the second with given locals assigned in addition,
between tracked targets and others. -/
structure Gains
    (definite potential : VarSet)
    (flags : List Bool)
    (first second : FlowPoint) :
    Prop where
  flow : first.flow.Gains definite potential second.flow
  types : ∀ id, (second.state.localAt id).type = (first.state.localAt id).type
  jumps : first.jumps.Gains definite potential flags second.jumps

namespace Looks

@[refl] theorem refl
    (point : FlowPoint) :
    point.Looks point :=
  ⟨rfl, rfl, .refl _⟩

/-- Reporting leaves the flow alone. -/
theorem report
    (issue : Issue)
    (span : Span)
    (point : FlowPoint) :
    point.Looks (point.report issue span) :=
  ⟨rfl, rfl, .refl _⟩

/-- Checking a read leaves the flow alone. -/
theorem checkReadOf
    (span : Span)
    (binding : Option LocalId)
    (point : FlowPoint) :
    point.Looks (point.checkReadOf span binding) := by
  cases binding with
  | none =>
      exact .refl point
  | some id =>
      simp only [FlowPoint.checkReadOf, checkRead]
      split
      · exact .refl point
      · exact .report _ _ point

/-- Checking an assignment to a final local leaves the flow alone. -/
theorem checkFinal
    (span : Span)
    (id : LocalId)
    (point : FlowPoint) :
    point.Looks (point.checkFinal span id) := by
  simp only [FlowPoint.checkFinal]
  split
  · exact .refl point
  · split
    · exact .report _ _ point
    · exact ⟨rfl, rfl, JumpStack.sameArrivals_deferFinal _ _ _ _ _⟩

/-- Checking the use of a reference leaves the flow alone. -/
theorem checkNull
    (span : Span)
    (id : LocalId)
    (point : FlowPoint) :
    point.Looks (point.checkNull span id) := by
  simp only [FlowPoint.checkNull]
  split
  · exact .report _ _ point
  · exact .report _ _ point
  · exact .refl point
  · exact ⟨rfl, rfl, JumpStack.sameArrivals_deferNull _ _ _ _ _⟩

end Looks

namespace Gains

variable
  {options : CompilerOptions}
  {definite potential : VarSet}
  {flags : List Bool}
  {first second : FlowPoint}

/-- Looking at either side changes nothing. -/
theorem look
    {firstLater secondLater : FlowPoint}
    (gains : first.Gains definite potential flags second)
    (looks : first.Looks firstLater)
    (otherLooks : second.Looks secondLater) :
    firstLater.Gains definite potential flags secondLater where
  flow := by
    rw [looks.flow, otherLooks.flow]
    exact gains.flow
  types := by
    intro id
    change (secondLater.state.scope.localAt id).type = (firstLater.state.scope.localAt id).type
    rw [looks.scope, otherLooks.scope]
    exact gains.types id
  jumps := gains.jumps.ofSameArrivals looks.arrivals otherLooks.arrivals

/-- Flow goes on from other states. -/
theorem withFlow
    (gains : first.Gains definite potential flags second)
    {flow other : FlowState}
    (flowGains : flow.Gains definite potential other) :
    Gains definite potential flags { first with flow := flow } { second with flow := other } :=
  ⟨flowGains, gains.types, gains.jumps⟩

/-- Nullness is tracked for the same locals. -/
theorem tracksNull_eq
    (gains : first.Gains definite potential flags second)
    (options : CompilerOptions)
    (id : LocalId) :
    second.tracksNull options id = first.tracksNull options id := by
  simp only [tracksNull, gains.types]

/-- The same assignment is made. -/
theorem assign
    (gains : first.Gains definite potential flags second)
    (reached : first.flow.reachable = true)
    (id : LocalId)
    (status : NullStatus) :
    (first.assign options id status).Gains definite potential flags
      (second.assign options id status) := by
  have assigned := gains.withFlow (gains.flow.assign reached id)
  unfold FlowPoint.assign
  simp only [gains.tracksNull_eq options id]
  split
  · exact assigned.withFlow (assigned.flow.setNull reached id status)
  · exact assigned

/-- The same value is used as an object. -/
theorem checkDereference
    (gains : first.Gains definite potential flags second)
    (value : Expr) :
    (first.checkDereference options value).Gains definite potential flags
      (second.checkDereference options value) := by
  have sameReach := gains.flow.reachable
  simp only [FlowPoint.checkDereference, sameReach]
  split
  · exact gains
  · next analyzes =>
      have reached : first.flow.reachable = true := by
        simp only [Bool.or_eq_true, Bool.not_eq_eq_eq_not, Bool.not_true, not_or,
          Bool.not_eq_false] at analyzes
        exact analyzes.2
      split
      · exact gains.look (.report _ _ _) (.report _ _ _)
      · next span _ id =>
          rw [gains.tracksNull_eq]
          split
          · have checked := gains.look (.checkNull span id first) (.checkNull span id second)
            refine checked.withFlow (checked.flow.setNull ?_ id .nonNull)
            rw [(Looks.checkNull span id first).flow]
            exact reached
          · exact gains
      · exact gains

/-- The same jump is made. -/
theorem jump
    (gains : first.Gains definite potential flags second)
    (span : Span)
    {target otherTarget : Except JumpError JumpStack}
    (records : JumpStack.RecordsGain definite potential flags target otherTarget) :
    (first.jump span target).Gains definite potential flags (second.jump span otherTarget) := by
  cases records with
  | ok same =>
      exact ⟨.dead, gains.types, same⟩
  | error cause =>
      exact ⟨.dead, gains.types, gains.jumps⟩

end Gains

end FlowPoint

section Expressions

variable
  (options : CompilerOptions)
  {definite potential : VarSet}
  {flags : List Bool}

mutual

/-- The same expression is analyzed. -/
theorem gains_analyzeExpr :
    ∀ (expr : Expr) {first second : FlowPoint},
      first.Gains definite potential flags second →
      first.flow.reachable = true →
      (analyzeExpr options expr first).Gains definite potential flags
        (analyzeExpr options expr second)
  | .intLit .., first, second, gains, _ | .boolLit .., first, second, gains, _
  | .stringLit .., first, second, gains, _ | .null _, first, second, gains, _ => by
      simp only [analyzeExpr]
      exact gains
  | .name span ref, first, second, gains, _ => by
      simp only [analyzeExpr]
      exact gains.look (.checkReadOf _ _ _) (.checkReadOf _ _ _)
  | .newArray _ _ elements, first, second, gains, reached => by
      simp only [analyzeExpr]
      exact gains_analyzeExprs elements gains reached
  | .binary _ _ left right, first, second, gains, reached => by
      simp only [analyzeExpr]
      exact gains_analyzeExpr right (gains_analyzeExpr left gains reached)
        ((evaluates_analyzeExpr options left first).reachable.trans reached)
  | .assign _ target op value, first, second, gains, reached => by
      have read : FlowPoint.Gains definite potential flags
          (if op.isSome then first.checkReadOf target.span target.node.binding else first)
          (if op.isSome then second.checkReadOf target.span target.node.binding else second) := by
        split
        · exact gains.look (.checkReadOf _ _ _) (.checkReadOf _ _ _)
        · exact gains
      have readReached : (if op.isSome then first.checkReadOf target.span target.node.binding
          else first).flow.reachable = true := by
        split
        · rw [(FlowPoint.Looks.checkReadOf _ _ _).flow]
          exact reached
        · exact reached
      have evaluated := gains_analyzeExpr value read readReached
      have evaluatedReached := (evaluates_analyzeExpr options value
        (if op.isSome then first.checkReadOf target.span target.node.binding
          else first)).reachable.trans readReached
      simp only [analyzeExpr]
      cases bound : target.node.binding with
      | none =>
          rw [bound] at evaluated
          exact evaluated
      | some id =>
          rw [bound] at evaluated evaluatedReached
          have checked := evaluated.look (.checkFinal target.span id _)
            (.checkFinal target.span id _)
          have checkedReached := (congrArg FlowState.reachable
            (FlowPoint.Looks.checkFinal target.span id _).flow).trans evaluatedReached
          have sameStatus := nullStatusOf_eq (checked.flow.assign checkedReached id).nulls value
          simp only [sameStatus]
          exact checked.assign checkedReached id _
  | .call _ _ args, first, second, gains, reached => by
      simp only [analyzeExpr]
      exact gains_analyzeExprs args gains reached
  | .methodCall _ receiver _ args, first, second, gains, reached => by
      have used := FlowPoint.evaluates_checkDereference options receiver
        (analyzeExpr options receiver first)
      simp only [analyzeExpr]
      exact gains_analyzeExprs args
        ((gains_analyzeExpr receiver gains reached).checkDereference receiver)
        (used.reachable.trans ((evaluates_analyzeExpr options receiver first).reachable.trans
          reached))

theorem gains_analyzeExprs :
    ∀ (exprs : List Expr) {first second : FlowPoint},
      first.Gains definite potential flags second →
      first.flow.reachable = true →
      (analyzeExprs options exprs first).Gains definite potential flags
        (analyzeExprs options exprs second)
  | [], first, second, gains, _ => by
      simp only [analyzeExprs]
      exact gains
  | expr :: rest, first, second, gains, reached => by
      simp only [analyzeExprs]
      exact gains_analyzeExprs rest (gains_analyzeExpr expr gains reached)
        ((evaluates_analyzeExpr options expr first).reachable.trans reached)

end

/-- The same declaration is analyzed. -/
theorem gains_analyzeDecl
    (decl : LocalDecl)
    {first second : FlowPoint}
    (gains : first.Gains definite potential flags second)
    (reached : first.flow.reachable = true) :
    (analyzeDecl options decl first).Gains definite potential flags
      (analyzeDecl options decl second) := by
  simp only [analyzeDecl]
  cases decl.initial with
  | none =>
      exact gains
  | some value =>
      have evaluated := gains_analyzeExpr options value gains reached
      have evaluatedReached :=
        (evaluates_analyzeExpr options value first).reachable.trans reached
      cases decl.binding with
      | none =>
          exact evaluated
      | some id =>
          have sameStatus :=
            nullStatusOf_eq (evaluated.flow.assign evaluatedReached id).nulls value
          simp only [sameStatus]
          exact evaluated.assign evaluatedReached id _

end Expressions

section Loops

variable
  (options : CompilerOptions)
  {definite potential : VarSet}
  {flags : List Bool}

/-- The same loop is entered. -/
structure LoopEntry.Gains
    (definite potential : VarSet)
    (flags : List Bool)
    (first second : LoopEntry) :
    Prop where
  before : first.before.Gains definite potential second.before
  beforeReached : first.before.reachable = true
  entered : first.entered.Gains definite potential second.entered
  body : first.body.Gains definite potential (true :: flags) second.body
  bodyReached : first.body.flow.reachable = true

/-- A loop is entered alike, and its own targets are tracked. -/
theorem gains_enterLoop
    (scope : ScopeId)
    (element : LocalDecl)
    (collection : Expr)
    {first second : FlowPoint}
    (gains : first.Gains definite potential flags second)
    (reached : first.flow.reachable = true) :
    (enterLoop options scope element collection first).Gains definite potential flags
      (enterLoop options scope element collection second) := by
  have used := FlowPoint.evaluates_checkDereference options collection first
  have usedReached := used.reachable.trans reached
  have declared := gains_analyzeDecl options element
    (gains.checkDereference collection) usedReached
  have declaredReached := (evaluates_analyzeDecl options element
    (first.checkDereference options collection)).reachable.trans usedReached
  have evaluated := gains_analyzeExpr options collection declared declaredReached
  have evaluatedReached := (evaluates_analyzeExpr options collection
    (analyzeDecl options element (first.checkDereference options collection))).reachable.trans
      declaredReached
  have entered : (enterLoop options scope element collection first).entered.Gains definite
      potential (enterLoop options scope element collection second).entered ∧
      (enterLoop options scope element collection first).entered.reachable = true := by
    simp only [enterLoop]
    cases element.binding with
    | none => exact ⟨evaluated.flow, evaluatedReached⟩
    | some id => exact ⟨evaluated.flow.assign evaluatedReached id, evaluatedReached⟩
  refine ⟨declared.flow, declaredReached, entered.1,
    ⟨entered.1.withoutNulls entered.2, evaluated.types, ?_⟩, entered.2⟩
  exact .cons (.loop fun _ => ⟨.dead, .dead⟩) evaluated.jumps

/-- The state in which a loop is left: where its collection has run out, and where it has
been broken out of. -/
def LoopBody.left
    (body : LoopBody)
    (entry : LoopEntry)
    (record : LoopRecord) :
    FlowState :=
  FlowState.merge
    (if record.onBreak.reachable then entry.before.afterRun record.onBreak else record.onBreak)
    (body.exhausted entry record)

/-- A body that ends alike comes back alike. -/
theorem gains_backEdge
    {body otherBody : LoopBody}
    (sameAnalyzed : otherBody.analyzed = body.analyzed)
    (finish : body.finish.flow.Gains definite potential otherBody.finish.flow)
    {record otherRecord : LoopRecord}
    (onContinue : record.onContinue.Gains definite potential otherRecord.onContinue) :
    otherBody.comesBack otherRecord = body.comesBack record ∧
      (body.backEdge record).Gains definite potential (otherBody.backEdge otherRecord) := by
  have sameComesBack : otherBody.comesBack otherRecord = body.comesBack record := by
    simp only [LoopBody.comesBack, sameAnalyzed, finish.reachable, onContinue.reachable]
  refine ⟨sameComesBack, ?_⟩
  simp only [LoopBody.backEdge, sameAnalyzed, sameComesBack]
  split
  · exact finish.merge onContinue
  · exact finish

/-- A loop is left alike if its body ends alike and its own targets are reached alike. -/
theorem gains_left
    {entry other : LoopEntry}
    (gains : entry.Gains definite potential flags other)
    {body otherBody : LoopBody}
    (sameAnalyzed : otherBody.analyzed = body.analyzed)
    (finish : body.finish.flow.Gains definite potential otherBody.finish.flow)
    {record otherRecord : LoopRecord}
    (onBreak : record.onBreak.Gains definite potential otherRecord.onBreak)
    (onContinue : record.onContinue.Gains definite potential otherRecord.onContinue) :
    (body.left entry record).Gains definite potential (otherBody.left other otherRecord) := by
  obtain ⟨sameComesBack, backEdge⟩ := gains_backEdge sameAnalyzed finish onContinue
  have run := gains.before.afterRun gains.beforeReached gains.entered
  have runReached := (FlowState.reachable_afterRun entry.before entry.entered).trans
    gains.beforeReached
  have exhausted : (body.exhausted entry record).Gains definite potential
      (otherBody.exhausted other otherRecord) := by
    simp only [LoopBody.exhausted, sameAnalyzed, sameComesBack]
    split
    · split
      · exact run.afterOptional runReached backEdge
      · exact run
    · exact gains.entered
  refine FlowState.Gains.merge ?_ exhausted
  rw [onBreak.reachable]
  split
  · exact gains.before.afterRun gains.beforeReached onBreak
  · exact onBreak

/-- Reporting uses of null is no jump. -/
theorem sameArrivals_settleNulls
    (onEntry : FlowState)
    (backEdge : Option FlowState) :
    ∀ (deferred : List (LocalId × Span)) (point : FlowPoint),
      point.jumps.SameArrivals (deferred.foldl (settleNull onEntry backEdge) point).jumps
  | [], _ => .refl _
  | use :: rest, point => by
      rw [List.foldl_cons]
      refine JumpStack.SameArrivals.trans ?_ (sameArrivals_settleNulls onEntry backEdge rest _)
      simp only [settleNull]
      split <;> first | exact .refl _ | exact JumpStack.sameArrivals_deferNull _ _ _ _ _

/-- Leaving a loop is no jump. -/
theorem sameArrivals_leaveLoopWith
    (options : CompilerOptions)
    (element : LocalDecl)
    (facts : LoopFacts)
    (entry : LoopEntry)
    (body : LoopBody)
    (record : LoopRecord)
    (point : FlowPoint) :
    point.jumps.SameArrivals
      (leaveLoopWith options element facts entry body record point).point.jumps := by
  simp only [leaveLoopWith]
  refine JumpStack.SameArrivals.trans ?_ (sameArrivals_settleNulls _ _ _ _)
  split
  · rw [jumps_settleFinals]
    exact .refl _
  · exact .refl _

/-- The same loop is left. Its own targets are tracked. -/
theorem gains_leaveLoop
    (element : LocalDecl)
    (facts : LoopFacts)
    {entry other : LoopEntry}
    (gains : entry.Gains definite potential flags other)
    {body otherBody : LoopBody}
    (sameAnalyzed : otherBody.analyzed = body.analyzed)
    (finish : body.finish.Gains definite potential (true :: flags) otherBody.finish)
    {record : LoopRecord}
    {rest : JumpStack}
    (isPushed : body.finish.jumps = .loop record :: rest) :
    (leaveLoop options element facts entry body).point.Gains definite potential flags
      (leaveLoop options element facts other otherBody).point := by
  have marks := marks_leaveLoop options element facts entry body
  have otherMarks := marks_leaveLoop options element facts other otherBody
  have types : ∀ id, ((leaveLoop options element facts other otherBody).point.state.localAt
      id).type = ((leaveLoop options element facts entry body).point.state.localAt id).type := by
    intro id
    rw [marks.type_eq, otherMarks.type_eq]
    exact finish.types id
  obtain ⟨otherRecord, otherRest, isOther, ⟨onBreak, onContinue⟩, restGains⟩ :=
    finish.jumps.exists_loop isPushed
  have left := leaveLoop_eq options element facts entry body isPushed
  have otherLeft := leaveLoop_eq options element facts other otherBody isOther
  rw [left, otherLeft] at types ⊢
  exact {
    flow := gains_left gains sameAnalyzed finish.flow onBreak onContinue
    types := types
    jumps := restGains.ofSameArrivals
      (sameArrivals_leaveLoopWith options element facts entry body record
        { body.finish with jumps := rest })
      (sameArrivals_leaveLoopWith options element facts other otherBody otherRecord
        { otherBody.finish with jumps := otherRest }) }

/-- The same loop is passed over or analyzed. -/
theorem gains_analyzeBody
    {action : Stmt}
    (analyzes : ∀ {first second : FlowPoint},
      first.Gains definite potential (true :: flags) second →
      first.flow.reachable = true →
      (analyzeStmt options action first).point.Gains definite potential (true :: flags)
        (analyzeStmt options action second).point)
    {entry other : LoopEntry}
    (gains : entry.body.Gains definite potential (true :: flags) other.body)
    (reached : entry.body.flow.reachable = true) :
    (other.analyzeBody options action).analyzed = (entry.analyzeBody options action).analyzed ∧
      (entry.analyzeBody options action).finish.Gains definite potential (true :: flags)
        (other.analyzeBody options action).finish := by
  have otherReached := gains.flow.reachable.trans reached
  simp only [LoopEntry.analyzeBody, reached, otherReached, if_true]
  split
  · exact ⟨rfl, gains⟩
  · exact ⟨rfl, analyzes gains reached⟩

end Loops

section Statements

variable
  (options : CompilerOptions)
  {definite potential : VarSet}

mutual

/-- The same statement is analyzed. -/
theorem gains_analyzeStmt :
    ∀ (stmt : Stmt) {flags : List Bool} {first second : FlowPoint},
      first.Gains definite potential flags second →
      first.flow.reachable = true →
      (analyzeStmt options stmt first).point.Gains definite potential flags
        (analyzeStmt options stmt second).point
  | .localVar _ decl, _, first, second, gains, reached => by
      simp only [analyzeStmt]
      exact gains_analyzeDecl options decl gains reached
  | .expr _ value, _, first, second, gains, reached => by
      simp only [analyzeStmt]
      exact gains_analyzeExpr options value gains reached
  | .block _ stmts _, _, first, second, gains, _ => by
      simp only [analyzeStmt]
      exact gains_analyzeStmts stmts gains
  | .branch _ condition thenBranch none, _, first, second, gains, reached => by
      have tested := gains_analyzeExpr options condition gains reached
      have testedReached :=
        (evaluates_analyzeExpr options condition first).reachable.trans reached
      have taken := gains_analyzeStmt thenBranch tested testedReached
      simp only [analyzeStmt]
      exact taken.withFlow (taken.flow.merge tested.flow)
  | .branch _ condition thenBranch (some elseBranch), _, first, second, gains, reached => by
      have tested := gains_analyzeExpr options condition gains reached
      have testedReached :=
        (evaluates_analyzeExpr options condition first).reachable.trans reached
      have taken := gains_analyzeStmt thenBranch tested testedReached
      have otherwise := gains_analyzeStmt elseBranch (taken.withFlow tested.flow) testedReached
      simp only [analyzeStmt]
      exact otherwise.withFlow (taken.flow.merge otherwise.flow)
  | .forEach _ element collection none facts, _, first, second, gains, reached => by
      have sameReach := gains.flow.reachable
      simp only [analyzeStmt, sameReach]
      cases facts.scope with
      | none =>
          exact gains
      | some scope =>
          have entered := gains_enterLoop options scope element collection gains reached
          obtain ⟨_, _, isPushed⟩ := (enters_enterLoop options scope element collection first).jumps
          exact gains_leaveLoop options element _ entered rfl entered.body isPushed
  | .forEach span element collection (some action) facts, flags, first, second, gains,
      reached => by
      cases isScope : facts.scope with
      | none =>
          simp only [analyzeStmt, isScope]
          exact gains
      | some scope =>
          have sameReach := gains.flow.reachable
          have entered := gains_enterLoop options scope element collection gains reached
          obtain ⟨jumps, -, isEntered⟩ :=
            (enters_enterLoop options scope element collection first).jumps
          have narrows := narrows_analyzeBody options action
            (enterLoop options scope element collection first)
          rw [isEntered] at narrows
          obtain ⟨record, rest, isPushed, -⟩ := narrows.exists_loop
          obtain ⟨sameAnalyzed, finish⟩ := gains_analyzeBody options
            (fun gains reached => gains_analyzeStmt action gains reached) entered.body
            entered.bodyReached
          have left := gains_leaveLoop options element (facts.met first.flow.reachable) entered
            sameAnalyzed finish isPushed
          simp only [analyzeStmt, isScope, sameReach]
          exact left
  | .labeled _ label body, flags, first, second, gains, reached => by
      have pushed : FlowPoint.Gains definite potential (true :: flags)
          { first with jumps := first.jumps.pushLabel label.node body.isLoop }
          { second with jumps := second.jumps.pushLabel label.node body.isLoop } :=
        ⟨gains.flow, gains.types, .cons (.label rfl rfl fun _ => .dead) gains.jumps⟩
      have left := gains_analyzeStmt body pushed reached
      have bodyReached : ({ first with
          jumps := first.jumps.pushLabel label.node body.isLoop } : FlowPoint).flow.reachable =
          true := reached
      obtain ⟨record, rest, isPushed, -⟩ :=
        (narrows_analyzeStmt options body bodyReached).exists_label
      obtain ⟨otherRecord, otherRest, isOther, onBreak, restGains⟩ :=
        left.jumps.exists_label isPushed
      simp only [analyzeStmt, isPushed, isOther, JumpStack.popLabel, FlowPoint.mapFlow]
      exact ⟨left.flow.merge onBreak, left.types, restGains⟩
  | .breakTo span label, _, first, second, gains, _ => by
      simp only [analyzeStmt]
      exact gains.jump span (JumpStack.gains_recordBreak _ gains.flow gains.jumps)
  | .continueTo span label, _, first, second, gains, _ => by
      simp only [analyzeStmt]
      exact gains.jump span (JumpStack.gains_recordContinue _ gains.flow gains.jumps)
  | .returnWith _ none, _, first, second, gains, _ => by
      simp only [analyzeStmt]
      exact gains.withFlow .dead
  | .returnWith _ (some value), _, first, second, gains, reached => by
      simp only [analyzeStmt]
      exact (gains_analyzeExpr options value gains reached).withFlow .dead
  | .empty _, _, first, second, gains, _ => by
      simp only [analyzeStmt]
      exact gains

theorem gains_analyzeStmts :
    ∀ (stmts : List Stmt) {flags : List Bool} {first second : FlowPoint},
      first.Gains definite potential flags second →
      (analyzeStmts options stmts first).point.Gains definite potential flags
        (analyzeStmts options stmts second).point
  | [], _, first, second, gains => by
      simp only [analyzeStmts]
      exact gains
  | stmt :: rest, _, first, second, gains => by
      have sameReach := gains.flow.reachable
      simp only [analyzeStmts, sameReach]
      split
      · next reached =>
          exact gains_analyzeStmts rest (gains_analyzeStmt stmt gains reached)
      · exact gains.look (.report _ _ _) (.report _ _ _)

end

end Statements

end LoopLowering
