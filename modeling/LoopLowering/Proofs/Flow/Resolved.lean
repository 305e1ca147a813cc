import LoopLowering.Proofs.Flow.Assignment
import LoopLowering.Proofs.Resolution.ResolvedStatements

namespace LoopLowering

/-!
# Resolved statements in flow analysis

Flow analysis keeps statements resolved, and it marks no local but those that
the loops among the statements introduce.
-/

namespace MethodScope

/-- Between two times, no local is marked as used but those of a property. -/
def TouchesOnly
    (touched : Nat → Prop)
    (before after : MethodScope) :
    Prop :=
  ∀ id, ¬ touched id → (after.localAt id).isUsed = (before.localAt id).isUsed

@[refl] theorem TouchesOnly.refl
    (touched : Nat → Prop)
    (scope : MethodScope) :
    TouchesOnly touched scope scope :=
  fun _ _ => rfl

theorem TouchesOnly.trans
    {touched : Nat → Prop}
    {first second third : MethodScope}
    (earlier : TouchesOnly touched first second)
    (later : TouchesOnly touched second third) :
    TouchesOnly touched first third :=
  fun id other => (later id other).trans (earlier id other)

/-- What touches some locals touches some of more. -/
theorem TouchesOnly.weaken
    {some more : Nat → Prop}
    {before after : MethodScope}
    (touches : TouchesOnly some before after)
    (within : ∀ id, some id → more id) :
    TouchesOnly more before after :=
  fun id other => touches id (fun member => other (within id member))

/-- Marking a local touches it only. -/
theorem touchesOnly_markUsed
    {touched : Nat → Prop}
    {used : Nat}
    (isTouched : touched used)
    (scope : MethodScope) :
    TouchesOnly touched scope (scope.markUsed used) := by
  intro id other
  have differs : used ≠ id := fun same => other (same ▸ isTouched)
  simp [localAt, markUsed, modifyLocal, Array.getElem?_modify, differs]

/-- Marking the locals of a loop touches them only. -/
theorem touchesOnly_markSynthetics
    {touched : Nat → Prop}
    (options : CompilerOptions)
    {resolution : LoopResolution}
    (areTouched : ∀ id ∈ resolution.strategy.synthetics, touched id)
    (emptyAction : Bool)
    (element : Option LocalId)
    (continues : Bool)
    (scope : MethodScope) :
    TouchesOnly touched scope
      (markSynthetics options (.resolved resolution) emptyAction element continues scope) := by
  cases strategy : resolution.strategy with
  | array index bound source =>
      rw [strategy] at areTouched
      have stored := touchesOnly_markUsed (areTouched source (by simp [LoopStrategy.synthetics]))
        scope
      have indexed := touchesOnly_markUsed (areTouched index (by simp [LoopStrategy.synthetics]))
        (scope.markUsed source)
      have bounded := touchesOnly_markUsed (areTouched bound (by simp [LoopStrategy.synthetics]))
        ((scope.markUsed source).markUsed index)
      simp only [markSynthetics, LoopClassification.strategy?, LoopClassification.resolution?,
        Option.map_some, strategy]
      generalize (!emptyAction || _) = materialized
      cases materialized with
      | false =>
          exact .refl touched scope
      | true =>
          cases continues with
          | false =>
              exact stored
          | true =>
              exact (stored.trans indexed).trans bounded
  | rawIterable iterator receiver | genericIterable iterator receiver =>
      rw [strategy] at areTouched
      simp only [markSynthetics, LoopClassification.strategy?, LoopClassification.resolution?,
        Option.map_some, strategy]
      exact touchesOnly_markUsed (areTouched iterator (by simp [LoopStrategy.synthetics])) scope

end MethodScope

/-- Reporting repeated assignments keeps the locals. -/
theorem scope_settleFinals
    (bodyEnd : FlowState) :
    ∀ (deferred : List (LocalId × Span)) (point : FlowPoint),
      (settleFinals deferred bodyEnd point).state.scope = point.state.scope
  | [], _ => rfl
  | use :: rest, point => by
      rw [settleFinals, List.foldl_cons, ← settleFinals, scope_settleFinals bodyEnd rest]
      split <;> rfl

/-- Reporting uses of null keeps the locals. -/
theorem scope_settleNulls
    (onEntry : FlowState)
    (backEdge : Option FlowState) :
    ∀ (deferred : List (LocalId × Span)) (point : FlowPoint),
      (deferred.foldl (settleNull onEntry backEdge) point).state.scope = point.state.scope
  | [], _ => rfl
  | use :: rest, point => by
      rw [List.foldl_cons, scope_settleNulls onEntry backEdge rest]
      simp only [settleNull]
      split <;> rfl

namespace CodeContext

variable
  {strict : Bool}
  {context : CodeContext}
  {options : CompilerOptions}

/-- A local that a loop introduces, with a number in a range. -/
def IntroducedWithin
    (context : CodeContext)
    (first last : Nat) :
    Nat → Prop :=
  fun id => first ≤ id ∧ id < last ∧ (context.localAt id).isSynthetic = true

/-- A local in a part of a range is in the range. -/
theorem IntroducedWithin.weaken
    {first last firstOfMore lastOfMore : Nat}
    (firstLe : firstOfMore ≤ first)
    (lastLe : last ≤ lastOfMore) :
    ∀ id, context.IntroducedWithin first last id →
      context.IntroducedWithin firstOfMore lastOfMore id :=
  fun _ within => ⟨Nat.le_trans firstLe within.1, Nat.lt_of_lt_of_le within.2.1 lastLe, within.2.2⟩

/-- The locals of a strategy are those that the loop introduces, numbered from
its first one. -/
theorem Iterates.introduces
    {declared collection : Ty}
    {block first : Nat}
    {resolution : LoopResolution}
    (iterates : context.Iterates declared collection block first resolution) :
    ∀ id : Nat, id ∈ resolution.strategy.synthetics →
      first ≤ id ∧ id < first + resolution.strategy.synthetics.length ∧
        ∃ entry, context.Introduces block id entry := by
  obtain ⟨shape, -, strategy, introduces⟩ := iterates.shaped
  rw [strategy]
  intro id member
  cases shape with
  | array =>
      simp only [LoopShape.strategyFrom, LoopStrategy.synthetics, List.mem_cons,
        List.not_mem_nil, or_false] at member
      simp only [LoopShape.strategyFrom, LoopStrategy.synthetics, List.length_cons,
        List.length_nil]
      rcases member with rfl | rfl | rfl
      · exact ⟨by omega, by omega, _, introduces 0 (LoopShape.indexName, .int) rfl⟩
      · exact ⟨by omega, by omega, _, introduces 1 (LoopShape.boundName, .int) rfl⟩
      · exact ⟨by omega, by omega, _, introduces 2 (LoopShape.sourceName, collection) rfl⟩
  | rawIterable receiver | genericIterable receiver =>
      simp only [LoopShape.strategyFrom, LoopStrategy.synthetics, List.mem_singleton] at member
      simp only [LoopShape.strategyFrom, LoopStrategy.synthetics, List.length_cons,
        List.length_nil]
      subst member
      exact ⟨by omega, by omega, _, introduces 0 (LoopShape.indexName, .named "Iterator") rfl⟩

/-- The locals that a loop introduces are the next ones. -/
theorem Iterates.introduced
    {declared collection : Ty}
    {block first : Nat}
    {resolution : LoopResolution}
    (iterates : context.Iterates declared collection block first resolution) :
    ∀ id ∈ resolution.strategy.synthetics,
      context.IntroducedWithin first (first + resolution.strategy.synthetics.length) id := by
  intro id member
  obtain ⟨firstLe, lastLt, entry, introduces⟩ := iterates.introduces id member
  exact ⟨firstLe, lastLt, introduces.isSynthetic⟩

/-- The locals that a loop introduces are locals of the method. -/
theorem Iterates.known
    {declared collection : Ty}
    {block first : Nat}
    {resolution : LoopResolution}
    (iterates : context.Iterates declared collection block first resolution) :
    ∀ id ∈ resolution.strategy.synthetics, id < context.scope.locals.size := by
  intro id member
  obtain ⟨-, -, entry, introduces⟩ := iterates.introduces id member
  exact introduces.known

/-- Leaving a resolved loop touches only what the loop introduces. -/
theorem touchesOnly_leaveLoop
    (options : CompilerOptions)
    {element : LocalDecl}
    {collection : Expr}
    {facts met : LoopFacts}
    {outer first inner : Nat}
    {resolution : LoopResolution}
    (head : context.LoopHead strict element collection facts outer first inner resolution)
    (sameClassification : met.classification = facts.classification)
    (entry : LoopEntry)
    (body : LoopBody) :
    MethodScope.TouchesOnly
      (context.IntroducedWithin first (first + 1 + Stmt.introducedCount facts))
      body.finish.state.scope (leaveLoop options element met entry body).point.state.scope := by
  obtain ⟨ty, -, iterates⟩ := head.iterated
  simp only [leaveLoop]
  split
  · simp only [leaveLoopWith, MethodState.addCheckpoint, MethodState.mapScope, scope_settleNulls,
      sameClassification, head.classification]
    have marked := MethodScope.touchesOnly_markSynthetics options iterates.introduced
      (Stmt.isEmptyAction body.action) element.binding
    rw [head.introducedCount]
    refine (MethodScope.TouchesOnly.weaken ?_
      (IntroducedWithin.weaken (Nat.le_succ first) (Nat.le_refl _)))
    split
    · rw [scope_settleFinals]
      exact marked _ _
    · exact marked _ _
  · exact .refl _ _

mutual

/-- Flow through a resolved statement touches only what its loops introduce. -/
theorem touchesOnly_analyzeStmt :
    ∀ {stmt : Stmt} {block first : Nat},
      context.Resolved strict stmt block first →
      ∀ point : FlowPoint,
        MethodScope.TouchesOnly (context.IntroducedWithin first (first + stmt.localCount))
          point.state.scope (analyzeStmt options stmt point).point.state.scope
  | .localVar span decl, block, first, _, point => by
      simp only [analyzeStmt]
      rw [(evaluates_analyzeDecl options decl point).scope]
  | .expr span value, block, first, _, point => by
      simp only [analyzeStmt]
      rw [(evaluates_analyzeExpr options value point).scope]
  | .block span stmts facts, block, first, resolved, point => by
      rw [Resolved] at resolved
      obtain ⟨inner, -, -, resolvedBody⟩ := resolved
      simp only [analyzeStmt, Stmt.localCount]
      exact touchesOnly_analyzeStmts resolvedBody point
  | .branch span condition thenBranch none, block, first, resolved, point => by
      rw [Resolved] at resolved
      have tested := (evaluates_analyzeExpr options condition point).scope
      have ran := touchesOnly_analyzeStmt resolved.2
        (analyzeExpr options condition point)
      rw [tested] at ran
      simp only [analyzeStmt, Stmt.localCount]
      exact ran
  | .branch span condition thenBranch (some elseBranch), block, first, resolved, point => by
      rw [Resolved] at resolved
      have tested := (evaluates_analyzeExpr options condition point).scope
      have thenRan := touchesOnly_analyzeStmt resolved.2.1
        (analyzeExpr options condition point)
      have elseRan := touchesOnly_analyzeStmt resolved.2.2
        { (analyzeStmt options thenBranch (analyzeExpr options condition point)).point with
          flow := (analyzeExpr options condition point).flow }
      rw [tested] at thenRan
      simp only [analyzeStmt, Stmt.localCount]
      exact (thenRan.weaken (IntroducedWithin.weaken (Nat.le_refl _) (by omega))).trans
        (elseRan.weaken (IntroducedWithin.weaken (by omega) (by omega)))
  | .forEach span element collection none facts, block, first, resolved, point => by
      rw [Resolved] at resolved
      obtain ⟨inner, resolution, head⟩ := resolved
      have entered := (enters_enterLoop options inner element collection point).scope
      have left := touchesOnly_leaveLoop options head
        (show (facts.met point.flow.reachable).classification = facts.classification from rfl)
        (LoopLowering.enterLoop options inner element collection point)
        ⟨none, false, false, (LoopLowering.enterLoop options inner element collection point).body⟩
      rw [entered] at left
      simp only [analyzeStmt, head.scope, Stmt.localCount]
      exact left.weaken (IntroducedWithin.weaken (Nat.le_refl _) (by omega))
  | .forEach span element collection (some action) facts, block, first, resolved, point => by
      rw [Resolved] at resolved
      obtain ⟨inner, resolution, head, resolvedAction⟩ := resolved
      have entered := (enters_enterLoop options inner element collection point).scope
      have ran : MethodScope.TouchesOnly
          (context.IntroducedWithin first (first + (1 + Stmt.introducedCount facts +
            action.localCount)))
          point.state.scope ((LoopLowering.enterLoop options inner element collection
            point).analyzeBody options action).finish.state.scope := by
        rw [← entered]
        simp only [LoopEntry.analyzeBody]
        split
        · exact .refl _ _
        · split
          · have analyzed := touchesOnly_analyzeStmt resolvedAction
              (LoopLowering.enterLoop options inner element collection point).body
            rw [← head.introducedCount] at analyzed
            exact analyzed.weaken (IntroducedWithin.weaken (by omega) (by omega))
          · exact .refl _ _
      have left := touchesOnly_leaveLoop options head
        (show (facts.met point.flow.reachable).classification = facts.classification from rfl)
        (LoopLowering.enterLoop options inner element collection point)
        ((LoopLowering.enterLoop options inner element collection point).analyzeBody options action)
      simp only [analyzeStmt, head.scope, Stmt.localCount]
      exact ran.trans (left.weaken (IntroducedWithin.weaken (Nat.le_refl _) (by omega)))
  | .labeled span label body, block, first, resolved, point => by
      rw [Resolved] at resolved
      have ran := touchesOnly_analyzeStmt resolved
        { point with jumps := point.jumps.pushLabel label.node body.isLoop }
      simp only [analyzeStmt, Stmt.localCount]
      split <;> exact ran
  | .breakTo span label, block, first, _, point
  | .continueTo span label, block, first, _, point => by
      simp only [analyzeStmt, FlowPoint.jump]
      split <;> exact .refl _ _
  | .returnWith span none, block, first, _, point | .empty span, block, first, _, point => by
      simp only [analyzeStmt]
      exact .refl _ _
  | .returnWith span (some value), block, first, _, point => by
      simp only [analyzeStmt]
      rw [(evaluates_analyzeExpr options value point).scope]

theorem touchesOnly_analyzeStmts :
    ∀ {stmts : List Stmt} {block first : Nat},
      context.AllResolved strict stmts block first →
      ∀ point : FlowPoint,
        MethodScope.TouchesOnly (context.IntroducedWithin first (first + Stmt.localCounts stmts))
          point.state.scope (analyzeStmts options stmts point).point.state.scope
  | [], block, first, _, point => by
      simp only [analyzeStmts]
      exact .refl _ _
  | stmt :: rest, block, first, resolved, point => by
      rw [AllResolved] at resolved
      simp only [analyzeStmts, Stmt.localCounts]
      split
      · have headRan := touchesOnly_analyzeStmt resolved.1 point
        have restRan := touchesOnly_analyzeStmts resolved.2
          (analyzeStmt options stmt point).point
        exact (headRan.weaken (IntroducedWithin.weaken (Nat.le_refl _) (by omega))).trans
          (restRan.weaken (IntroducedWithin.weaken (by omega) (by omega)))
      · exact .refl _ _

end

/-- Leaving a loop keeps its scope and its classification. -/
theorem facts_leaveLoop
    (options : CompilerOptions)
    (element : LocalDecl)
    (met : LoopFacts)
    (entry : LoopEntry)
    (body : LoopBody) :
    (leaveLoop options element met entry body).facts.scope = met.scope ∧
      (leaveLoop options element met entry body).facts.classification = met.classification := by
  simp only [leaveLoop]
  split <;> exact ⟨rfl, rfl⟩

/-- The head of a loop stays resolved while its scope and its classification
stay the same. -/
theorem LoopHead.later
    {element : LocalDecl}
    {collection : Expr}
    {before after : LoopFacts}
    {outer first inner : Nat}
    {resolution : LoopResolution}
    (head : context.LoopHead strict element collection before outer first inner resolution)
    (scope : after.scope = before.scope)
    (classification : after.classification = before.classification) :
    context.LoopHead strict element collection after outer first inner resolution :=
  { head with
    scope := scope.trans head.scope
    classification := classification.trans head.classification }

mutual

/-- A resolved statement stays resolved in flow analysis. -/
theorem resolved_analyzeStmt :
    ∀ {stmt : Stmt} {block first : Nat},
      context.Resolved strict stmt block first →
      ∀ point : FlowPoint,
        context.Resolved strict (analyzeStmt options stmt point).node block first ∧
          (analyzeStmt options stmt point).node.localCount = stmt.localCount
  | .localVar .., block, first, resolved, point | .expr .., block, first, resolved, point
  | .breakTo .., block, first, resolved, point | .continueTo .., block, first, resolved, point
  | .returnWith _ none, block, first, resolved, point
  | .returnWith _ (some _), block, first, resolved, point
  | .empty _, block, first, resolved, point => by
      simp only [analyzeStmt]
      exact ⟨resolved, trivial⟩
  | .block span stmts facts, block, first, resolved, point => by
      rw [Resolved] at resolved
      obtain ⟨inner, scope, opens, resolvedBody⟩ := resolved
      obtain ⟨stays, counts⟩ := resolved_analyzeStmts resolvedBody point
      simp only [analyzeStmt, Resolved, Stmt.localCount]
      exact ⟨⟨inner, scope, opens, stays⟩, counts⟩
  | .branch span condition thenBranch none, block, first, resolved, point => by
      rw [Resolved] at resolved
      obtain ⟨stays, counts⟩ := resolved_analyzeStmt resolved.2
        (analyzeExpr options condition point)
      simp only [analyzeStmt, Resolved, Stmt.localCount]
      exact ⟨⟨resolved.1, stays⟩, counts⟩
  | .branch span condition thenBranch (some elseBranch), block, first, resolved, point => by
      rw [Resolved] at resolved
      obtain ⟨thenStays, thenCounts⟩ := resolved_analyzeStmt resolved.2.1
        (analyzeExpr options condition point)
      obtain ⟨elseStays, elseCounts⟩ := resolved_analyzeStmt resolved.2.2
        { (analyzeStmt options thenBranch (analyzeExpr options condition point)).point with
          flow := (analyzeExpr options condition point).flow }
      simp only [analyzeStmt, Resolved, Stmt.localCount, thenCounts, elseCounts]
      exact ⟨⟨resolved.1, thenStays, elseStays⟩, trivial⟩
  | .forEach span element collection none facts, block, first, resolved, point => by
      rw [Resolved] at resolved
      obtain ⟨inner, resolution, head⟩ := resolved
      obtain ⟨scope, classification⟩ := facts_leaveLoop options element
        (facts.met point.flow.reachable) (LoopLowering.enterLoop options inner element collection
          point)
        ⟨none, false, false, (LoopLowering.enterLoop options inner element collection point).body⟩
      have stays := head.later scope classification
      simp only [analyzeStmt, head.scope, Resolved, Stmt.localCount, stays.introducedCount,
        head.introducedCount]
      exact ⟨⟨inner, resolution, stays⟩, trivial⟩
  | .forEach span element collection (some action) facts, block, first, resolved, point => by
      rw [Resolved] at resolved
      obtain ⟨inner, resolution, head, resolvedAction⟩ := resolved
      obtain ⟨scope, classification⟩ := facts_leaveLoop options element
        (facts.met point.flow.reachable) (LoopLowering.enterLoop options inner element collection
          point)
        ((LoopLowering.enterLoop options inner element collection point).analyzeBody options action)
      have stays := head.later scope classification
      obtain ⟨actionStays, actionCounts⟩ := resolved_analyzeStmt resolvedAction
        (LoopLowering.enterLoop options inner element collection point).body
      have analyzed : ∃ stmt, ((LoopLowering.enterLoop options inner element collection
        point).analyzeBody
            options action).action = some stmt ∧
          context.Resolved strict stmt inner (first + 1 + resolution.strategy.synthetics.length) ∧
          stmt.localCount = action.localCount := by
        simp only [LoopEntry.analyzeBody]
        split
        · exact ⟨action, rfl, resolvedAction, rfl⟩
        · split
          · exact ⟨_, rfl, actionStays, actionCounts⟩
          · exact ⟨action, rfl, resolvedAction, rfl⟩
      obtain ⟨stmt, isAction, stmtStays, stmtCounts⟩ := analyzed
      have node : (analyzeStmt options (.forEach span element collection (some action) facts)
          point).node = .forEach span element collection
            ((LoopLowering.enterLoop options inner element collection point).analyzeBody options
              action).action
            (leaveLoop options element (facts.met point.flow.reachable)
              (LoopLowering.enterLoop options inner element collection point)
              ((LoopLowering.enterLoop options inner element collection point).analyzeBody options
                action)).facts := by
        simp only [analyzeStmt, head.scope]
        rfl
      rw [node, isAction]
      simp only [Resolved, Stmt.localCount, stays.introducedCount, head.introducedCount,
        stmtCounts]
      exact ⟨⟨inner, resolution, stays, stmtStays⟩, trivial⟩
  | .labeled span label body, block, first, resolved, point => by
      rw [Resolved] at resolved
      obtain ⟨stays, counts⟩ := resolved_analyzeStmt resolved
        { point with jumps := point.jumps.pushLabel label.node body.isLoop }
      simp only [analyzeStmt, Resolved, Stmt.localCount]
      exact ⟨stays, counts⟩

theorem resolved_analyzeStmts :
    ∀ {stmts : List Stmt} {block first : Nat},
      context.AllResolved strict stmts block first →
      ∀ point : FlowPoint,
        context.AllResolved strict (analyzeStmts options stmts point).nodes block first ∧
          Stmt.localCounts (analyzeStmts options stmts point).nodes = Stmt.localCounts stmts
  | [], block, first, resolved, point => by
      simp only [analyzeStmts]
      exact ⟨resolved, trivial⟩
  | stmt :: rest, block, first, resolved, point => by
      have whole := resolved
      rw [AllResolved] at resolved
      obtain ⟨headStays, headCounts⟩ := resolved_analyzeStmt resolved.1 point
      obtain ⟨restStays, restCounts⟩ := resolved_analyzeStmts resolved.2
        (analyzeStmt options stmt point).point
      simp only [analyzeStmts]
      split
      · simp only [AllResolved, Stmt.localCounts, headCounts, restCounts]
        exact ⟨⟨headStays, restStays⟩, trivial⟩
      · exact ⟨whole, rfl⟩

end

end CodeContext

/-!
## Heads of loops

Resolution and flow analysis keep the loops of a method and the declarations of
their elements. The index of a loop over an array is used only if the loop comes
back for another element.
-/

mutual

/-- The loops of a statement, by the declaration of the element and by what is
recorded about the loop. -/
def Stmt.heads :
    Stmt → List (LocalDecl × LoopFacts)
  | .block _ stmts _ => Stmt.allHeads stmts
  | .branch _ _ thenBranch none => thenBranch.heads
  | .branch _ _ thenBranch (some elseBranch) => thenBranch.heads ++ elseBranch.heads
  | .forEach _ element _ none facts => [(element, facts)]
  | .forEach _ element _ (some action) facts => (element, facts) :: action.heads
  | .labeled _ _ body => body.heads
  | .localVar .. | .expr .. | .breakTo .. | .continueTo .. | .returnWith .. | .empty _ => []

/-- The loops of statements. -/
def Stmt.allHeads :
    List Stmt → List (LocalDecl × LoopFacts)
  | [] => []
  | stmt :: rest => stmt.heads ++ Stmt.allHeads rest

end

/-- The elements of loops have no initial values. -/
def Method.elementsUninitialized
    (method : Method) :
    Bool :=
  (Stmt.allHeads method.body.stmts).all fun head => head.1.initial.isNone

/-- Whether the element of a loop has an initial value. -/
def isInitialized
    (head : LocalDecl × LoopFacts) :
    Bool :=
  head.1.initial.isSome

section Elements

mutual

/-- Resolution keeps whether the elements of loops have initial values. -/
theorem isInitialized_checkStmt
    (table : ClassTable)
    (options : CompilerOptions) :
    ∀ (stmt : Stmt) (scope : ScopeId) (state : MethodState),
      (checkStmt table options scope stmt state).node.heads.map isInitialized =
        stmt.heads.map isInitialized
  | .localVar span decl, scope, state => by
      simp only [checkStmt]
      cases decl.initial <;> rfl
  | .expr .., scope, state | .breakTo .., scope, state | .continueTo .., scope, state
  | .returnWith _ none, scope, state | .returnWith _ (some _), scope, state
  | .empty _, scope, state => by
      simp only [checkStmt, Stmt.heads]
  | .block span stmts facts, scope, state => by
      simp only [checkStmt, Stmt.heads]
      exact isInitialized_checkStmts table options stmts _ _
  | .branch span condition thenBranch none, scope, state => by
      simp only [checkStmt, Stmt.heads]
      exact isInitialized_checkStmt table options thenBranch _ _
  | .branch span condition thenBranch (some elseBranch), scope, state => by
      simp only [checkStmt, Stmt.heads, List.map_append]
      rw [isInitialized_checkStmt table options thenBranch,
        isInitialized_checkStmt table options elseBranch]
  | .forEach span element collection none facts, scope, state => by
      simp only [checkStmt, Stmt.heads]
      rfl
  | .forEach span element collection (some action) facts, scope, state => by
      simp only [checkStmt, Stmt.heads, List.map_cons]
      rw [isInitialized_checkStmt table options action]
      rfl
  | .labeled span label body, scope, state => by
      simp only [checkStmt, Stmt.heads]
      exact isInitialized_checkStmt table options body _ _

theorem isInitialized_checkStmts
    (table : ClassTable)
    (options : CompilerOptions) :
    ∀ (stmts : List Stmt) (scope : ScopeId) (state : MethodState),
      (Stmt.allHeads (checkStmts table options scope stmts state).node).map isInitialized =
        (Stmt.allHeads stmts).map isInitialized
  | [], scope, state => by
      simp only [checkStmts]
  | stmt :: rest, scope, state => by
      simp only [checkStmts, Stmt.allHeads, List.map_append]
      rw [isInitialized_checkStmt table options stmt, isInitialized_checkStmts table options rest]

end

/-- The elements of loops without initial values have none after resolution. -/
theorem initial_checkMethod
    (table : ClassTable)
    (options : CompilerOptions)
    {method : Method}
    (uninitialized : method.elementsUninitialized = true)
    {head : LocalDecl × LoopFacts}
    (member : head ∈
      Stmt.allHeads (checkMethod table options method .initial).node.body.stmts) :
    head.1.initial = none := by
  have kept := isInitialized_checkStmts table options method.body.stmts MethodScope.root
    (checkParams table method.params (checkReturnType table method.returnType
      (checkTypeParams table method.typeParams .initial))).state
  have isOld : isInitialized head ∈ (Stmt.allHeads method.body.stmts).map isInitialized :=
    kept ▸ List.mem_map_of_mem member
  obtain ⟨old, isHead, sameInitial⟩ := List.mem_map.mp isOld
  have oldNone := List.all_eq_true.mp uninitialized old isHead
  rw [← Option.not_isSome_iff_eq_none]
  change ¬isInitialized head = true
  rw [← sameInitial, isInitialized]
  simpa using oldNone

mutual

/-- Flow analysis keeps the elements of loops. -/
theorem elements_analyzeStmt
    (options : CompilerOptions) :
    ∀ (stmt : Stmt) (point : FlowPoint),
      (analyzeStmt options stmt point).node.heads.map Prod.fst = stmt.heads.map Prod.fst
  | .localVar .., point | .expr .., point | .breakTo .., point | .continueTo .., point
  | .returnWith _ none, point | .returnWith _ (some _), point | .empty _, point => by
      simp only [analyzeStmt, Stmt.heads]
  | .block span stmts facts, point => by
      simp only [analyzeStmt, Stmt.heads]
      exact elements_analyzeStmts options stmts point
  | .branch span condition thenBranch none, point => by
      simp only [analyzeStmt, Stmt.heads]
      exact elements_analyzeStmt options thenBranch _
  | .branch span condition thenBranch (some elseBranch), point => by
      simp only [analyzeStmt, Stmt.heads, List.map_append]
      rw [elements_analyzeStmt options thenBranch, elements_analyzeStmt options elseBranch]
  | .forEach span element collection none facts, point => by
      simp only [analyzeStmt]
      cases facts.scope <;> rfl
  | .forEach span element collection (some action) facts, point => by
      simp only [analyzeStmt]
      cases facts.scope with
      | none =>
          simp only [Stmt.heads, List.map_cons]
      | some scope =>
          simp only
          split
          · simp only [Stmt.heads, List.map_cons]
          · split
            · simp only [Stmt.heads, List.map_cons]
              rw [elements_analyzeStmt options action]
            · simp only [Stmt.heads, List.map_cons]
  | .labeled span label body, point => by
      simp only [analyzeStmt, Stmt.heads]
      exact elements_analyzeStmt options body _

theorem elements_analyzeStmts
    (options : CompilerOptions) :
    ∀ (stmts : List Stmt) (point : FlowPoint),
      (Stmt.allHeads (analyzeStmts options stmts point).nodes).map Prod.fst =
        (Stmt.allHeads stmts).map Prod.fst
  | [], point => by
      simp only [analyzeStmts]
  | stmt :: rest, point => by
      simp only [analyzeStmts]
      split
      · simp only [Stmt.allHeads, List.map_append]
        rw [elements_analyzeStmt options stmt, elements_analyzeStmts options rest]
      · rfl

end

end Elements

namespace CodeContext

/-- A loop with an action is entered, its body is analyzed, and it is left. -/
theorem analyzeStmt_forEach
    (options : CompilerOptions)
    (span : Span)
    (element : LocalDecl)
    (collection : Expr)
    (action : Stmt)
    {facts : LoopFacts}
    (point : FlowPoint)
    {scope : ScopeId}
    (isScope : facts.scope = some scope) :
    (analyzeStmt options (.forEach span element collection (some action) facts) point).node =
        .forEach span element collection
          ((LoopLowering.enterLoop options scope element collection point).analyzeBody options
            action).action
          (leaveLoop options element (facts.met point.flow.reachable)
            (LoopLowering.enterLoop options scope element collection point)
            ((LoopLowering.enterLoop options scope element collection point).analyzeBody options
              action)).facts ∧
      (analyzeStmt options (.forEach span element collection (some action) facts) point).point =
        (leaveLoop options element (facts.met point.flow.reachable)
          (LoopLowering.enterLoop options scope element collection point)
          ((LoopLowering.enterLoop options scope element collection point).analyzeBody options
            action)).point := by
  simp only [analyzeStmt, isScope]
  exact ⟨rfl, rfl⟩

/-- A report of code that no path reaches leaves errors. -/
theorem not_clean_unreachable
    {span : Span}
    {point : FlowPoint}
    (clean : (point.report .unreachableCode span).state.Clean) :
    False := by
  have reported : (point.state.report .unreachableCode span).Clean := clean
  simp [Issue.severity] at reported

end CodeContext

end LoopLowering
